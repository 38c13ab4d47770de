import GameServer.Database.TransactionPipeline

/-!
# Runs of the pipeline

`Advanced` is what polling a callback does to the pool, and polling several. `PipelineInv` puts
together that the processor keeps its registrations (`Conserved`), where the transactions are
(`Placed`), and that the callbacks are those of the transactions (`Paired`).

Whatever happens, each transaction is in one place and its continuation runs at most once, with the
result of the transaction (`pipeline_accounted`). One worker takes the transactions in the order of
the commits (`pipeline_inOrder`). Once all transactions are settled, a pass runs every continuation
that is left, and is not left by an exception (`pipeline_pass_settled`).
-/

namespace GameServer.Database

open GameServer.Lib GameServer.Lib.Exec GameServer.Util GameServer.Threading Pipeline

/-! ## A callback is polled -/

section Polling

variable {behaviour : Nat → Bool → Nat} {growth : Nat → Nat} {w w' : Pipeline} {t : Nat}

theorem invoke_pending (h : w.elapse.promises[t]? = some .pending) :
    (pipelineCallbacks behaviour).invokeIfReady (callbackOf t) w =
      ⟨.ok false, callbackOf t, [], w.elapse⟩ := by
  have hstatus : w.elapse.status t = .pending := by
    rw [Pipeline.status, List.getD_eq_getElem?_getD, h]
    rfl
  simp only [pipelineCallbacks, TransactionCallback.invokeIfReady, callbackOf,
    TransactionCallback.andThen, continuations, hstatus]

theorem invoke_value {success : Bool} (h : w.elapse.promises[t]? = some (.value success))
    (behaviour : Nat → Bool → Nat) :
    (pipelineCallbacks behaviour).invokeIfReady (callbackOf t) w =
      ⟨.ok true, ⟨none, some t⟩,
        (List.range' w.elapse.promises.length (behaviour t success)).map callbackOf,
        commitMany (behaviour t success)
          { w.elapse with invoked := w.elapse.invoked ++ [(t, success)] }⟩ := by
  have hstatus : w.elapse.status t = .value success := by
    rw [Pipeline.status, List.getD_eq_getElem?_getD, h]
    rfl
  simp only [pipelineCallbacks, TransactionCallback.invokeIfReady, callbackOf,
    TransactionCallback.andThen, continuations, hstatus]

theorem invoke_exception {e : FutureError} (h : w.elapse.promises[t]? = some (.exception e)) :
    ((pipelineCallbacks behaviour).invokeIfReady (callbackOf t) w).outcome =
      .error (.exception e) := by
  have hstatus : w.elapse.status t = .exception e := by
    rw [Pipeline.status, List.getD_eq_getElem?_getD, h]
    rfl
  simp only [pipelineCallbacks, TransactionCallback.invokeIfReady, callbackOf,
    TransactionCallback.andThen, continuations, hstatus]

/-- The world and the callbacks that were added after a callback was polled, or several; `ran` lists
the transactions whose continuations ran. -/
structure Advanced (w w' : Pipeline) (added : List TransactionCallback) (ran : List Nat) :
    Prop where
  placed : w'.Placed
  later : w.Later w'
  callbacks : added = (List.range' w.promises.length added.length).map callbackOf
  length : w'.promises.length = w.promises.length + added.length
  invoked : w'.invoked.map Prod.fst = w.invoked.map Prod.fst ++ ran

theorem Advanced.trans {v : Pipeline} {added added' : List TransactionCallback}
    {ran ran' : List Nat} (h : Advanced w v added ran) (h' : Advanced v w' added' ran') :
    Advanced w w' (added ++ added') (ran ++ ran') where
  placed := h'.placed
  later := h.later.trans h'.later
  callbacks := by
    rw [List.length_append, ← List.range'_append_1, List.map_append, ← h.callbacks, ← h.length,
      ← h'.callbacks]
  length := by rw [h'.length, h.length, List.length_append, Nat.add_assoc]
  invoked := by rw [h'.invoked, h.invoked, List.append_assoc]

theorem invoke_advanced (h : w.Placed) (ht : t < w.promises.length) {done : Bool}
    (hdone : ((pipelineCallbacks behaviour).invokeIfReady (callbackOf t) w).outcome = .ok done) :
    Advanced w ((pipelineCallbacks behaviour).invokeIfReady (callbackOf t) w).world
        ((pipelineCallbacks behaviour).invokeIfReady (callbackOf t) w).added
        (if done then [t] else []) ∧
      (done = false →
        ((pipelineCallbacks behaviour).invokeIfReady (callbackOf t) w).self = callbackOf t) := by
  obtain ⟨hplaced, hlater, hinvoked, hlength⟩ := elapse_placed h
  have hlt : t < w.elapse.promises.length := hlength ▸ ht
  cases hstatus : w.elapse.promises[t] with
  | pending =>
    rw [invoke_pending (List.getElem?_eq_some_iff.2 ⟨hlt, hstatus⟩)] at hdone ⊢
    cases hdone
    exact ⟨⟨hplaced, hlater, rfl, hlength, by rw [hinvoked]; exact (List.append_nil _).symm⟩,
      fun _ => rfl⟩
  | value success =>
    have hget := List.getElem?_eq_some_iff.2 ⟨hlt, hstatus⟩
    rw [invoke_value hget] at hdone ⊢
    cases hdone
    have htold : Pipeline.Placed
        { w.elapse with invoked := w.elapse.invoked ++ [(t, success)] } := by
      refine ⟨hplaced.place, fun r hr => ?_⟩
      rcases List.mem_append.1 hr with hr | hr
      · exact hplaced.told r hr
      · rw [List.mem_singleton.1 hr]
        exact hget
    obtain ⟨hplaced', hlater', hlength', hinvoked', -⟩ :=
      commitMany_placed (behaviour t success) htold
    refine ⟨⟨hplaced', hlater.trans ⟨hlater'.length, hlater'.settled⟩, ?_, ?_, ?_⟩, nofun⟩
    · rw [List.length_map, List.length_range', hlength]
    · rw [List.length_map, List.length_range', hlength', ← hlength]
    · rw [hinvoked', ← hinvoked, List.map_append]
      rfl
  | exception e =>
    rw [invoke_exception (List.getElem?_eq_some_iff.2 ⟨hlt, hstatus⟩)] at hdone
    cases hdone

theorem polled_advanced {cs : List (Registration TransactionCallback)}
    {results : List (Registration TransactionCallback × Bool)} {added : List TransactionCallback}
    (hp : Polled (pipelineCallbacks behaviour) cs w results added w') (h : w.Placed)
    (hcs : ∀ c ∈ cs, c.callback = callbackOf c.number ∧ c.number < w.promises.length) :
    Advanced w w' added ((results.filter Prod.snd).map fun r => r.1.number) ∧
      ∀ r ∈ results, r.2 = false → r.1.callback = callbackOf r.1.number := by
  induction hp with
  | nil =>
    exact ⟨⟨h, .refl _, rfl, rfl, (List.append_nil _).symm⟩,
      fun _ hr => absurd hr List.not_mem_nil⟩
  | @cons c cs w w' done results added hdone rest ih =>
    obtain ⟨hcallback, hlt⟩ := hcs c List.mem_cons_self
    rw [hcallback] at hdone ih ⊢
    obtain ⟨hadvanced, hself⟩ := invoke_advanced h hlt hdone
    obtain ⟨hrest, hown⟩ := ih hadvanced.placed fun x hx => by
      obtain ⟨hx', hxlt⟩ := hcs x (List.mem_cons_of_mem c hx)
      exact ⟨hx', Nat.lt_of_lt_of_le hxlt hadvanced.later.length⟩
    refine ⟨?_, List.forall_mem_cons.2 ⟨hself, hown⟩⟩
    have hboth := hadvanced.trans hrest
    cases done with
    | true => exact hboth
    | false => exact hboth

end Polling

/-! ## Runs -/

/-- The callbacks of a state belong to its transactions. -/
structure Paired (s : PipelineState) : Prop where
  registered : s.registered = s.world.promises.length
  own : ∀ c ∈ s.callbacks.elements, c.callback = callbackOf c.number
  invoked : ∀ t, (s.world.invoked.map Prod.fst).count t = s.polls.count ⟨t, some true⟩

structure PipelineInv (s : PipelineState) : Prop where
  conserved : Conserved s
  placed : s.world.Placed
  paired : Paired s

section Runs

variable {workers : Nat} {behaviour : Nat → Bool → Nat} {growth : Nat → Nat}
  {s s' : PipelineState}

theorem PipelineInv.initial (workers : Nat) :
    PipelineInv (.initial (.started workers) : PipelineState) where
  conserved := conserved_initial _
  placed := ⟨fun _ => rfl, fun _ hr => absurd hr List.not_mem_nil⟩
  paired := ⟨rfl, fun _ hc => absurd hc List.not_mem_nil, fun _ => rfl⟩

/-- The callbacks stay, and the world goes on. -/
theorem PipelineInv.later (h : PipelineInv s) {w : Pipeline} (hplaced : w.Placed)
    (hlength : w.promises.length = s.world.promises.length)
    (hinvoked : w.invoked = s.world.invoked) : PipelineInv { s with world := w } where
  conserved := h.conserved.elapse w
  placed := hplaced
  paired := ⟨h.paired.registered.trans hlength.symm, h.paired.own,
    fun t => by rw [← h.paired.invoked t, ← hinvoked]⟩

theorem PipelineInv.commit (h : PipelineInv s) :
    PipelineInv (addCallback (pipelineCallbacks behaviour) growth
      { s with world := s.world.commit } (callbackOf s.world.promises.length)) := by
  refine ⟨(h.conserved.elapse s.world.commit).add _, (commit_placed h.placed).1, ?_, ?_, ?_⟩
  · change s.registered + 1 = (s.world.promises ++ [_]).length
    rw [h.paired.registered, List.length_append, List.length_singleton]
  · intro c hc
    change c ∈ (s.callbacks.emplaceBack _ growth _).elements at hc
    rw [MoveVector.emplaceBack_elements
      (registrationMoves_whole TransactionCallback.moves_whole)] at hc
    rcases List.mem_append.1 hc with hc | hc
    · exact h.paired.own c hc
    · rw [List.mem_singleton.1 hc]
      exact congrArg callbackOf h.paired.registered.symm
  · exact h.paired.invoked

/-- The registrations of a state are numbers of transactions. -/
theorem PipelineInv.number_lt (h : PipelineInv s) {c : Registration TransactionCallback}
    (hc : c ∈ s.callbacks.elements) : c.number < s.world.promises.length := by
  have hpos := List.count_pos_iff.2 (List.mem_map_of_mem (f := Registration.number) hc)
  have hstored := h.conserved.stored c.number
  rw [← h.paired.registered]
  by_contra hge
  rw [if_neg hge] at hstored
  omega

theorem mem_numbered {n : Nat} {added : List TransactionCallback} {start : Nat}
    (hadded : added = (List.range' start added.length).map callbackOf) (hn : n = start)
    {c : Registration TransactionCallback} (hc : c ∈ numbered n added) :
    c.callback = callbackOf c.number := by
  induction added generalizing n start with
  | nil => cases hc
  | cons a added ih =>
    rw [List.length_cons, List.range'_succ, List.map_cons, List.cons.injEq] at hadded
    rcases List.mem_cons.1 hc with rfl | hc
    · exact hadded.1.trans (congrArg callbackOf hn.symm)
    · exact ih hadded.2 (congrArg (· + 1) hn) hc

theorem count_done (results : List (Registration TransactionCallback × Bool)) (t : Nat) :
    ((results.filter Prod.snd).map fun r => r.1.number).count t =
      (pollsOf results).count ⟨t, some true⟩ := by
  induction results with
  | nil => rfl
  | cons r results ih =>
    obtain ⟨c, done⟩ := r
    rw [pollsOf, List.map_cons, List.count_cons]
    cases done with
    | true =>
      rw [List.filter_cons_of_pos rfl, List.map_cons, List.count_cons, ih]
      by_cases hc : c.number = t
      · simp [hc, pollsOf]
      · simp [hc, pollsOf]
    | false =>
      rw [List.filter_cons_of_neg Bool.false_ne_true, ih]
      simp [pollsOf]

theorem PipelineInv.pass (h : PipelineInv s)
    (hpass : processReadyCallbacks (pipelineCallbacks behaviour) growth s = .ok ⟨⟩ s') :
    PipelineInv s' := by
  obtain ⟨results, added, hpassed⟩ :=
    process_passedOnce (T := pipelineCallbacks behaviour) TransactionCallback.moves_whole hpass
  obtain ⟨hadvanced, hown⟩ := polled_advanced hpassed.polled h.placed
    fun c hc => ⟨h.paired.own c hc, h.number_lt hc⟩
  refine ⟨h.conserved.pass hpassed, hadvanced.placed, ?_, ?_, ?_⟩
  · rw [hpassed.registered, h.paired.registered, hadvanced.length]
  · intro c hc
    rw [hpassed.callbacks] at hc
    rcases List.mem_append.1 hc with hc | hc
    · exact mem_numbered hadvanced.callbacks h.paired.registered hc
    · obtain ⟨r, hr, rfl⟩ := List.mem_map.1 hc
      obtain ⟨hmem, hnot⟩ := List.mem_filter.1 hr
      exact hown r hmem (Bool.not_eq_true' _ ▸ hnot)
  · intro t
    rw [hadvanced.invoked, List.count_append, h.paired.invoked, hpassed.polls, List.count_append,
      count_done]

theorem PipelineInv.step {e : PipelineEvent} (h : PipelineInv s)
    (hs : (pipeline workers behaviour growth).step s e = some s') : PipelineInv s' := by
  cases e with
  | commit =>
    cases hs
    exact h.commit
  | work step =>
    cases hs
    obtain ⟨hplaced, -, hinvoked, hlength⟩ := work_placed h.placed step
    exact h.later hplaced hlength hinvoked
  | pass meanwhile =>
    simp only [pipeline] at hs
    split at hs
    · next t hpass =>
      cases hs
      have hbefore : PipelineInv { s with world := { s.world with meanwhile } } :=
        h.later ⟨h.placed.place, h.placed.told⟩ rfl rfl
      have hafter := hbefore.pass hpass
      exact hafter.later ⟨hafter.placed.place, hafter.placed.told⟩ rfl rfl
    · cases hs
  | clear =>
    cases hs
    obtain ⟨hplaced, -, hlength⟩ := clear_placed h.placed
    exact h.later hplaced hlength rfl

theorem pipeline_inv (h : (pipeline workers behaviour growth).Reach s) : PipelineInv s := by
  refine h.invariant (I := PipelineInv) ?_ fun _ _ _ hs _ hstep => hs.step hstep
  rintro s rfl
  exact .initial workers

/-! ## Each transaction once -/

/-- A transaction is queued, in a worker, or settled; its callback is stored, or its continuation
was run, with its result. -/
structure Accounted (s : PipelineState) : Prop where
  place : ∀ t < s.world.promises.length,
    s.world.queue.queue.count t + s.world.running.count t + s.world.settledAt t = 1
  once : ∀ t < s.world.promises.length,
    (s.callbacks.elements.map Registration.callback).count (callbackOf t) +
      (s.world.invoked.map Prod.fst).count t = 1
  told : ∀ r ∈ s.world.invoked, s.world.promises[r.1]? = some (.value r.2)

theorem callbackOf_injective : Function.Injective callbackOf := by
  intro t u h
  exact Option.some.inj (congrArg TransactionCallback.future h)

theorem PipelineInv.accounted (h : PipelineInv s) : Accounted s where
  place t ht := by
    have hplace := h.placed.place t
    rwa [if_pos ht] at hplace
  once t ht := by
    have hstored := h.conserved.stored t
    rw [h.paired.registered, if_pos ht, ← h.paired.invoked t] at hstored
    have hown : s.callbacks.elements.map Registration.callback =
        (s.callbacks.elements.map Registration.number).map callbackOf := by
      rw [List.map_map]
      exact List.map_congr_left fun c hc => h.paired.own c hc
    rw [hown, List.count_map_of_injective _ _ callbackOf_injective]
    exact hstored
  told := h.placed.told

/-! ## The order of the commits -/

/-- With one worker: the transactions that are not settled, in the order of the commits. -/
structure Pipeline.InOrder (w : Pipeline) : Prop where
  serving : w.serving ≤ 1
  running : w.running.length ≤ 1
  open_or : w.queue.shutdown = true ∨ ∃ k ≤ w.promises.length,
    w.running ++ w.queue.queue = List.range' k (w.promises.length - k)

theorem Pipeline.InOrder.commit {w : Pipeline} (h : w.InOrder) : w.commit.InOrder := by
  refine ⟨h.serving, h.running, ?_⟩
  rcases h.open_or with hdown | ⟨k, hk, horder⟩
  · exact .inl hdown
  · right
    have hlength : w.commit.promises.length = w.promises.length + 1 := by
      simp [Pipeline.commit]
    refine ⟨k, by omega, ?_⟩
    have hqueue : w.commit.queue.queue = w.queue.queue ++ [w.promises.length] := rfl
    change w.running ++ w.commit.queue.queue = _
    rw [hqueue, ← List.append_assoc, horder, hlength, Nat.sub_add_comm hk, List.range'_concat,
      Nat.one_mul, Nat.add_sub_cancel' hk]

theorem Pipeline.InOrder.commitMany {w : Pipeline} (n : Nat) (h : w.InOrder) :
    (commitMany n w).InOrder := by
  induction n generalizing w with
  | zero => exact h
  | succ n ih => exact ih h.commit

/-- The one task that is executed ends. -/
theorem Pipeline.InOrder.settle {w : Pipeline} (h : w.InOrder) {t : Nat} (ht : t ∈ w.running)
    (status : FutureStatus Bool FutureError) : (w.settle t status).InOrder := by
  obtain ⟨u, hu⟩ := List.length_eq_one_iff.1
    (Nat.le_antisymm h.running (List.length_pos_of_mem ht))
  rw [hu, List.mem_singleton] at ht
  subst ht
  have herase : w.running.erase t = [] := by
    rw [hu]
    exact List.erase_cons_head ..
  refine ⟨h.serving, ?_, ?_⟩
  · change (w.running.erase t).length ≤ 1
    rw [herase]
    exact Nat.zero_le _
  · rcases h.open_or with hdown | ⟨k, hk, horder⟩
    · exact .inl hdown
    · right
      have hpos : k < w.promises.length := by
        have hlen := congrArg List.length horder
        rw [hu, List.length_range'] at hlen
        simp only [List.length_append, List.length_singleton] at hlen
        omega
      have hsub : w.promises.length - k = w.promises.length - (k + 1) + 1 := by omega
      rw [hu, List.singleton_append, hsub, List.range'_succ, List.cons.injEq] at horder
      refine ⟨k + 1, ?_, ?_⟩
      · exact (List.length_set ..).symm ▸ hpos
      · change w.running.erase t ++ w.queue.queue = List.range' _ ((w.promises.set t _).length - _)
        rw [herase, List.length_set, List.nil_append, horder.2]

theorem Pipeline.InOrder.work {w : Pipeline} (h : w.InOrder) (step : WorkStep) :
    (w.work step).InOrder := by
  cases step with
  | take =>
    unfold Pipeline.work
    dsimp only
    split
    · next hfree =>
      split
      · next transaction queue hpop =>
        have hfront := ProducerConsumerQueue.pop_eq_some hpop
        have hdown : queue.shutdown = w.queue.shutdown := by
          rw [← ProducerConsumerQueue.pop_shutdown w.queue, hpop]
        have hserving := h.serving
        have hnone : w.running = [] := List.eq_nil_of_length_eq_zero (by omega)
        refine ⟨h.serving, by rw [hnone]; exact Nat.le_refl _, ?_⟩
        rcases h.open_or with hshut | ⟨k, hk, horder⟩
        · exact .inl (hdown.trans hshut)
        · refine .inr ⟨k, hk, ?_⟩
          rw [← horder, hfront, List.append_assoc]
          rfl
      · exact h
    · exact h
  | finish transaction success =>
    unfold Pipeline.work
    dsimp only
    split
    · next hmem => exact h.settle hmem _
    · exact h
  | throw transaction =>
    unfold Pipeline.work
    dsimp only
    split
    · next hmem =>
      have hsettled := h.settle hmem (.exception .brokenPromise)
      exact ⟨Nat.le_trans (Nat.sub_le ..) h.serving, hsettled.running, hsettled.open_or⟩
    · exact h

theorem Pipeline.InOrder.elapse {w : Pipeline} (h : w.InOrder) : w.elapse.InOrder := by
  have hsteps : ∀ (steps : List WorkStep) {w : Pipeline}, w.InOrder →
      (steps.foldl Pipeline.work w).InOrder := by
    intro steps
    induction steps with
    | nil => exact fun h => h
    | cons step steps ih => exact fun h => ih (h.work step)
  unfold Pipeline.elapse
  split
  · exact h
  · next steps later _ =>
    have hafter := hsteps steps h
    exact ⟨hafter.serving, hafter.running, hafter.open_or⟩

theorem polled_inOrder {cs : List (Registration TransactionCallback)} {w w' : Pipeline}
    {results : List (Registration TransactionCallback × Bool)} {added : List TransactionCallback}
    (hp : Polled (pipelineCallbacks behaviour) cs w results added w') (h : w.InOrder)
    (hplaced : w.Placed)
    (hcs : ∀ c ∈ cs, c.callback = callbackOf c.number ∧ c.number < w.promises.length) :
    w'.InOrder := by
  induction hp with
  | nil => exact h
  | @cons c cs w w' done results added hdone rest ih =>
    obtain ⟨hcallback, hlt⟩ := hcs c List.mem_cons_self
    rw [hcallback] at hdone ih
    have hadvanced := (invoke_advanced hplaced hlt hdone).1
    refine ih ?_ hadvanced.placed fun x hx => ?_
    · have helapse := h.elapse
      cases hstatus : w.elapse.status c.number with
      | pending =>
        simpa only [pipelineCallbacks, TransactionCallback.invokeIfReady, callbackOf,
          TransactionCallback.andThen, continuations, hstatus] using helapse
      | value success =>
        have hcommitted := Pipeline.InOrder.commitMany (behaviour c.number success)
          (w := { w.elapse with invoked := w.elapse.invoked ++ [(c.number, success)] })
          ⟨helapse.serving, helapse.running, helapse.open_or⟩
        simpa only [pipelineCallbacks, TransactionCallback.invokeIfReady, callbackOf,
          TransactionCallback.andThen, continuations, hstatus] using hcommitted
      | exception e =>
        simpa only [pipelineCallbacks, TransactionCallback.invokeIfReady, callbackOf,
          TransactionCallback.andThen, continuations, hstatus] using helapse
    · obtain ⟨hx', hxlt⟩ := hcs x (List.mem_cons_of_mem c hx)
      exact ⟨hx', Nat.lt_of_lt_of_le hxlt hadvanced.later.length⟩

theorem inOrder_step {e : PipelineEvent} (hinv : PipelineInv s) (h : s.world.InOrder)
    (hs : (pipeline workers behaviour growth).step s e = some s') : s'.world.InOrder := by
  cases e with
  | commit =>
    cases hs
    exact h.commit
  | work step =>
    cases hs
    exact h.work step
  | pass meanwhile =>
    simp only [pipeline] at hs
    split at hs
    · next t hpass =>
      cases hs
      have hbefore : PipelineInv { s with world := { s.world with meanwhile } } :=
        hinv.later ⟨hinv.placed.place, hinv.placed.told⟩ rfl rfl
      obtain ⟨results, added, hpassed⟩ := process_passedOnce (T := pipelineCallbacks behaviour)
        TransactionCallback.moves_whole hpass
      have hafter := polled_inOrder hpassed.polled ⟨h.serving, h.running, h.open_or⟩
        hbefore.placed fun c hc => ⟨hbefore.paired.own c hc, hbefore.number_lt hc⟩
      exact ⟨hafter.serving, hafter.running, hafter.open_or⟩
    · cases hs
  | clear =>
    cases hs
    exact ⟨h.serving, h.running, .inl rfl⟩

/-! ## A pass when all is settled -/

theorem keepUnless_settled (behaviour : Nat → Bool → Nat) (growth : Nat → Nat)
    {cs : List (Registration TransactionCallback)}
    (hplaced : s.world.Placed)
    (hcs : ∀ c ∈ cs, c.callback = callbackOf c.number ∧
      ∃ success, s.world.promises[c.number]? = some (.value success)) :
    ∃ t, keepUnless (poll (pipelineCallbacks behaviour) growth) cs s = .ok [] t ∧
      t.world.invoked.map Prod.fst =
        s.world.invoked.map Prod.fst ++ cs.map Registration.number := by
  induction cs generalizing s with
  | nil => exact ⟨s, rfl, (List.append_nil _).symm⟩
  | cons c cs ih =>
    obtain ⟨hcallback, success, hvalue⟩ := hcs c List.mem_cons_self
    have hready := (elapse_placed hplaced).2.1.settled _ _ hvalue rfl
    have hinvoke := invoke_value hready behaviour
    have hdone : ((pipelineCallbacks behaviour).invokeIfReady (callbackOf c.number)
        s.world).outcome = .ok true := by rw [hinvoke]
    have hadvanced := (invoke_advanced hplaced (List.getElem?_eq_some_iff.1 hvalue).1 hdone).1
    have hpoll : ∃ t c', poll (pipelineCallbacks behaviour) growth c s = .ok (true, c') t ∧
        t.world =
          ((pipelineCallbacks behaviour).invokeIfReady (callbackOf c.number) s.world).world := by
      unfold poll
      rw [hcallback]
      simp only [hdone]
      exact ⟨_, _, rfl, rfl⟩
    obtain ⟨t, c', ht, hworld⟩ := hpoll
    obtain ⟨u, hu, hinvoked⟩ := ih (s := t) (by rw [hworld]; exact hadvanced.placed)
      fun x hx => by
        obtain ⟨hx', success', hvalue'⟩ := hcs x (List.mem_cons_of_mem c hx)
        rw [hworld]
        exact ⟨hx', success', hadvanced.later.settled _ _ hvalue' rfl⟩
    refine ⟨u, ?_, ?_⟩
    · rw [keepUnless, bind_of_ok ht]
      exact (bind_of_ok hu).trans rfl
    · rw [hinvoked, hworld, hadvanced.invoked, List.append_assoc]
      rfl

end Runs

/-- **Each transaction once.** Whatever is committed, executed, cleared and polled, and whatever the
continuations commit: no transaction is lost, none is executed twice, and its continuation runs at
most once and with its own result. -/
theorem pipeline_accounted {workers : Nat} {behaviour : Nat → Bool → Nat} {growth : Nat → Nat}
    {s : PipelineState} (h : (pipeline workers behaviour growth).Reach s) : Accounted s :=
  (pipeline_inv h).accounted

/-- The continuation of transaction 0 commits another one. -/
def commitsAfterFirst (continuation : Nat) (_ : Bool) : Nat := if continuation = 0 then 1 else 0

/-- Two transactions are committed; the second one is finished during the pass that runs the
continuation of the first one. -/
def twoCommits : List PipelineEvent :=
  [.commit, .commit, .work .take, .work (.finish 0 true), .pass [[.take], [.finish 1 false]],
    .work .take]

theorem pipeline_accounted_twoCommits : ∃ s,
    (pipeline 1 commitsAfterFirst (2 * ·)).run (.initial (.started 1)) twoCommits = some s ∧
      s.world.invoked = [(0, true), (1, false)] ∧ s.world.running = [2] ∧ Accounted s := by
  have hrun : ∃ s,
      (pipeline 1 commitsAfterFirst (2 * ·)).run (.initial (.started 1)) twoCommits = some s ∧
        s.world.invoked = [(0, true), (1, false)] ∧ s.world.running = [2] := ⟨_, rfl, rfl, rfl⟩
  obtain ⟨s, hs, hinvoked, hrunning⟩ := hrun
  exact ⟨s, hs, hinvoked, hrunning, pipeline_accounted (Machine.reach_of_run rfl hs)⟩

/-- **The order of the commits.** With one worker, and as long as the queue is not shut down, the
transactions before some `k` are settled; of the others, in their order, the first one may be with
the worker and the rest is queued. -/
theorem pipeline_inOrder {behaviour : Nat → Bool → Nat} {growth : Nat → Nat} {s : PipelineState}
    (h : (pipeline 1 behaviour growth).Reach s) (hopen : s.world.queue.shutdown = false) :
    ∃ k, s.world.running.length ≤ 1 ∧
      s.world.running ++ s.world.queue.queue = List.range' k (s.world.promises.length - k) ∧
      ∀ t < k, s.world.settledAt t = 1 := by
  have hboth : PipelineInv s ∧ s.world.InOrder := by
    refine h.invariant (I := fun s => PipelineInv s ∧ s.world.InOrder) ?_ ?_
    · rintro s rfl
      exact ⟨.initial 1, Nat.le_refl _, Nat.zero_le _, .inr ⟨0, Nat.le_refl _, rfl⟩⟩
    · rintro s e t ⟨hinv, horder⟩ - hs
      exact ⟨hinv.step hs, inOrder_step hinv horder hs⟩
  obtain ⟨hinv, horder⟩ := hboth
  rcases horder.open_or with hdown | ⟨k, hk, hlist⟩
  · rw [hopen] at hdown
    cases hdown
  · refine ⟨k, horder.running, hlist, fun t ht => ?_⟩
    have hplace := hinv.placed.place t
    have hnot : t ∉ List.range' k (s.world.promises.length - k) := fun hmem =>
      absurd (List.mem_range'_1.1 hmem).1 (Nat.not_le_of_lt ht)
    have hcount := congrArg (List.count t) hlist
    rw [List.count_append, List.count_eq_zero.2 hnot] at hcount
    rw [if_pos (Nat.lt_of_lt_of_le ht hk)] at hplace
    omega

theorem pipeline_inOrder_twoCommits : ∃ s,
    (pipeline 1 commitsAfterFirst (2 * ·)).run (.initial (.started 1)) twoCommits = some s ∧
      ∃ k, s.world.running.length ≤ 1 ∧
        s.world.running ++ s.world.queue.queue = List.range' k (s.world.promises.length - k) ∧
        ∀ t < k, s.world.settledAt t = 1 := by
  have hrun : ∃ s,
      (pipeline 1 commitsAfterFirst (2 * ·)).run (.initial (.started 1)) twoCommits = some s ∧
        s.world.queue.shutdown = false := ⟨_, rfl, rfl⟩
  obtain ⟨s, hs, hopen⟩ := hrun
  exact ⟨s, hs, pipeline_inOrder (Machine.reach_of_run rfl hs) hopen⟩

/-- **A pass when all is settled.** If no transaction is queued or with a worker and no promise is
broken, a pass ends, whatever the workers do meanwhile. It runs the continuations of the callbacks
that were stored, in their order, and with that every transaction of before has run its own. -/
theorem pipeline_pass_settled {workers : Nat} {behaviour : Nat → Bool → Nat}
    {growth : Nat → Nat} {s : PipelineState} (h : (pipeline workers behaviour growth).Reach s)
    (hqueue : s.world.queue.queue = []) (hrunning : s.world.running = [])
    (hkept : ∀ (t : Nat) (e : FutureError), s.world.promises[t]? ≠ some (.exception e))
    (meanwhile : List (List WorkStep)) :
    ∃ t, (pipeline workers behaviour growth).step s (.pass meanwhile) = some t ∧
      t.world.invoked.map Prod.fst = s.world.invoked.map Prod.fst ++
        s.callbacks.elements.map Registration.number ∧
      ∀ transaction < s.world.promises.length,
        transaction ∈ t.world.invoked.map Prod.fst := by
  have hinv := pipeline_inv h
  have hvalue : ∀ t < s.world.promises.length,
      ∃ success, s.world.promises[t]? = some (.value success) := by
    intro t ht
    have hplace := hinv.placed.place t
    rw [hqueue, hrunning, if_pos ht] at hplace
    have hsettled : s.world.settledAt t = 1 := (Nat.zero_add _).symm.trans hplace
    unfold settledAt at hsettled
    cases hstatus : s.world.promises[t]? with
    | none => rw [hstatus] at hsettled; cases hsettled
    | some status =>
      rw [hstatus] at hsettled
      cases status with
      | pending => cases hsettled
      | value success => exact ⟨success, rfl⟩
      | exception e => exact absurd hstatus (hkept t e)
  have hpass : ∃ t, processReadyCallbacks (pipelineCallbacks behaviour) growth
      { s with world := { s.world with meanwhile } } = .ok ⟨⟩ t ∧
      t.world.invoked.map Prod.fst = s.world.invoked.map Prod.fst ++
        s.callbacks.elements.map Registration.number := by
    unfold processReadyCallbacks
    rw [get_bind]
    cases helements : s.callbacks.elements with
    | nil =>
      simp only [List.isEmpty_nil, if_true]
      exact ⟨_, rfl, (List.append_nil _).symm⟩
    | cons c cs =>
      simp only [List.isEmpty_cons, Bool.false_eq_true, if_false, modify_bind]
      have hcs : ∀ x ∈ c :: cs, x.callback = callbackOf x.number ∧
          ∃ success, s.world.promises[x.number]? = some (.value success) := fun x hx => by
        rw [← helements] at hx
        exact ⟨hinv.paired.own x hx, hvalue _ (hinv.number_lt hx)⟩
      obtain ⟨t, ht, hinvoked⟩ := keepUnless_settled behaviour growth
        (s := { s with callbacks := .stolen, world := { s.world with meanwhile } })
        ⟨hinv.placed.place, hinv.placed.told⟩ hcs
      rw [removeIf_eq (registrationMoves_whole TransactionCallback.moves_whole), bind_of_ok ht]
      exact ⟨_, rfl, hinvoked⟩
  obtain ⟨t, ht, hinvoked⟩ := hpass
  refine ⟨{ t with world := { t.world with meanwhile := [] } }, ?_, hinvoked, ?_⟩
  · simp only [pipeline, ht]
  · intro transaction htransaction
    change transaction ∈ t.world.invoked.map Prod.fst
    rw [hinvoked]
    have honce := hinv.conserved.stored transaction
    rw [hinv.paired.registered, if_pos htransaction, ← hinv.paired.invoked transaction,
      ← List.count_append] at honce
    rw [List.mem_append, or_comm, ← List.mem_append]
    exact List.count_pos_iff.1 (by omega)

/-- Two transactions are executed by two workers, and nothing was polled yet. -/
def bothExecuted : List PipelineEvent :=
  [.commit, .commit, .work .take, .work .take, .work (.finish 1 true), .work (.finish 0 false)]

theorem pipeline_pass_settled_bothExecuted : ∃ s,
    (pipeline 2 commitsAfterFirst (2 * ·)).run (.initial (.started 2)) bothExecuted = some s ∧
      ∃ t, (pipeline 2 commitsAfterFirst (2 * ·)).step s (.pass [[], [.take, .throw 2]]) = some t ∧
        t.world.invoked.map Prod.fst = s.world.invoked.map Prod.fst ++
          s.callbacks.elements.map Registration.number ∧
        ∀ transaction < s.world.promises.length,
          transaction ∈ t.world.invoked.map Prod.fst := by
  have hrun : ∃ s,
      (pipeline 2 commitsAfterFirst (2 * ·)).run (.initial (.started 2)) bothExecuted = some s ∧
        s.world.queue.queue = [] ∧ s.world.running = [] ∧
        s.world.promises = [.value false, .value true] := ⟨_, rfl, rfl, rfl, rfl⟩
  obtain ⟨s, hs, hqueue, hrunning, hpromises⟩ := hrun
  refine ⟨s, hs, pipeline_pass_settled (Machine.reach_of_run rfl hs) hqueue hrunning ?_ _⟩
  intro t e
  rw [hpromises]
  rcases t with _ | _ | t <;> nofun

end GameServer.Database
