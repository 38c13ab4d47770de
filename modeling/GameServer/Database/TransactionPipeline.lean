import GameServer.Database.CallbackTypes
import GameServer.Threading.ProducerConsumerQueue

/-!
# Transactions from the commit to the callback

`CommitTransactionWithCallback` puts a task with a promise into the queue of the pool and gives the
future to a `TransactionCallback`, which is added to a processor. Worker threads take tasks and
execute them; a task sets its promise, or throws, which breaks the promise and ends the thread. A
pass of the processor runs the continuations of the callbacks that are ready; they may commit more
transactions, and the workers go on during the pass.

Transactions are numbered in the order of the commits, and the continuation of a transaction has its
number.

`Placed` says that a transaction is queued, in a worker, or settled, and that a continuation ran with
the result of its own transaction. What changes the pool keeps it, and what is settled (`Later`).
-/

namespace GameServer.Database

open GameServer.Lib GameServer.Lib.Exec GameServer.Util GameServer.Threading

inductive FutureError where
  | brokenPromise
  | badFunctionCall
  deriving DecidableEq, Repr

/-- What a worker does: `WaitAndPop()` gives it a task, or `Execute` ends. -/
inductive WorkStep where
  | take
  | finish (transaction : Nat) (success : Bool)
  | throw (transaction : Nat)
  deriving DecidableEq, Repr

/-- The pool around the processor. -/
structure Pipeline where
  queue : ProducerConsumerQueue Nat
  /-- The tasks that a worker has. -/
  running : List Nat
  /-- How many workers are in their loop. -/
  serving : Nat
  promises : List (FutureStatus Bool FutureError)
  /-- The continuations that were run, with what they were given. -/
  invoked : List (Nat × Bool)
  /-- What the workers do during the pass, before each call of `InvokeIfReady`. -/
  meanwhile : List (List WorkStep)

namespace Pipeline

def started (workers : Nat) : Pipeline := ⟨.empty, [], workers, [], [], []⟩

/-- `CommitTransactionWithCallback`, without the callback that it returns. -/
def commit (w : Pipeline) : Pipeline :=
  { w with
    queue := w.queue.push w.promises.length
    promises := w.promises ++ [.pending] }

/-- The callback that a commit returns, after `Then`. -/
def callbackOf (transaction : Nat) : TransactionCallback :=
  (⟨some transaction, none⟩ : TransactionCallback).andThen transaction

def commitMany : Nat → Pipeline → Pipeline
  | 0, w => w
  | n + 1, w => commitMany n w.commit

def settle (w : Pipeline) (transaction : Nat) (status : FutureStatus Bool FutureError) : Pipeline :=
  { w with
    running := w.running.erase transaction
    promises := w.promises.set transaction status }

/-- One step of a worker, if there is one that can do it. -/
def work (w : Pipeline) : WorkStep → Pipeline
  | .take =>
    if w.running.length < w.serving then
      match w.queue.pop with
      | (some transaction, queue) => { w with queue, running := w.running ++ [transaction] }
      | (none, _) => w
    else w
  | .finish transaction success =>
    if transaction ∈ w.running then w.settle transaction (.value success) else w
  | .throw transaction =>
    if transaction ∈ w.running then
      { w.settle transaction (.exception .brokenPromise) with serving := w.serving - 1 }
    else w

/-- `Clear`: the tasks are deleted with their promises. -/
def clear (w : Pipeline) : Pipeline :=
  { w with
    queue := w.queue.clear
    promises := w.queue.queue.foldl
      (fun promises transaction => promises.set transaction (.exception .brokenPromise))
      w.promises }

def status (w : Pipeline) (transaction : Nat) : FutureStatus Bool FutureError :=
  w.promises.getD transaction .pending

/-- The workers go on. -/
def elapse (w : Pipeline) : Pipeline :=
  match w.meanwhile with
  | [] => w
  | steps :: later => { steps.foldl work w with meanwhile := later }

end Pipeline

open Pipeline

/-- Continuations that commit so many transactions, each with a callback of its own. -/
def continuations (behaviour : Nat → Bool → Nat) : TransactionWorld Pipeline FutureError where
  status := Pipeline.status
  run continuation success w :=
    let n := behaviour continuation success
    ⟨.ok (), (List.range' w.promises.length n).map callbackOf,
      commitMany n { w with invoked := w.invoked ++ [(continuation, success)] }⟩
  badFunctionCall := .badFunctionCall

def pipelineCallbacks (behaviour : Nat → Bool → Nat) :
    CallbackType TransactionCallback Pipeline FutureError where
  moves := TransactionCallback.moves
  invokeIfReady c w := c.invokeIfReady (continuations behaviour) w.elapse

inductive PipelineEvent where
  | commit
  | work (step : WorkStep)
  | pass (meanwhile : List (List WorkStep))
  | clear
  deriving DecidableEq, Repr

abbrev PipelineState := Processing TransactionCallback Pipeline

/-- A pass that is left by an exception ends the run. `IServer::Start` logs the exception and goes
on, without the callbacks of that pass. -/
def pipeline (workers : Nat) (behaviour : Nat → Bool → Nat) (growth : Nat → Nat) :
    Machine PipelineState PipelineEvent where
  init s := s = .initial (.started workers)
  step s
    | .commit =>
      some (addCallback (pipelineCallbacks behaviour) growth { s with world := s.world.commit }
        (callbackOf s.world.promises.length))
    | .work step => some { s with world := s.world.work step }
    | .pass meanwhile =>
      match processReadyCallbacks (pipelineCallbacks behaviour) growth
        { s with world := { s.world with meanwhile } } with
      | .ok _ t => some { t with world := { t.world with meanwhile := [] } }
      | .error _ _ => none
    | .clear => some { s with world := s.world.clear }

/-! ## The pool -/

namespace Pipeline

def isPending : FutureStatus Bool FutureError → Bool
  | .pending => true
  | _ => false

/-- One if the promise was set or broken. -/
def settledAt (w : Pipeline) (t : Nat) : Nat :=
  match w.promises[t]? with
  | none | some .pending => 0
  | some _ => 1

/-- Each transaction is queued, in a worker, or settled, and a continuation was given the result of
its own transaction. -/
structure Placed (w : Pipeline) : Prop where
  place : ∀ t, w.queue.queue.count t + w.running.count t + w.settledAt t =
    if t < w.promises.length then 1 else 0
  told : ∀ r ∈ w.invoked, w.promises[r.1]? = some (.value r.2)

/-- What is settled stays as it is. -/
structure Later (w w' : Pipeline) : Prop where
  length : w.promises.length ≤ w'.promises.length
  settled : ∀ (t : Nat) (status : FutureStatus Bool FutureError), w.promises[t]? = some status →
    isPending status = false → w'.promises[t]? = some status

variable {w w' : Pipeline} {t : Nat}

theorem Later.refl (w : Pipeline) : w.Later w := ⟨Nat.le_refl _, fun _ _ h _ => h⟩

theorem Later.trans {v : Pipeline} (h : w.Later v) (h' : v.Later w') : w.Later w' where
  length := Nat.le_trans h.length h'.length
  settled t status hstatus hnot := h'.settled t status (h.settled t status hstatus hnot) hnot

theorem Placed.later (h : w.Placed) (hlater : w.Later w') (hinvoked : w'.invoked = w.invoked)
    (hplace : ∀ t, w'.queue.queue.count t + w'.running.count t + w'.settledAt t =
      if t < w'.promises.length then 1 else 0) : w'.Placed where
  place := hplace
  told r hr := by
    rw [hinvoked] at hr
    exact hlater.settled _ _ (h.told r hr) rfl

/-- A transaction that is queued or in a worker is pending. -/
theorem Placed.pending_of_count (h : w.Placed)
    (hpos : 0 < w.queue.queue.count t + w.running.count t) :
    w.promises[t]? = some .pending := by
  have hplace := h.place t
  split at hplace
  · next hlt =>
    have hzero : w.settledAt t = 0 := by omega
    unfold settledAt at hzero
    rw [List.getElem?_eq_getElem hlt] at hzero ⊢
    cases hstatus : w.promises[t] with
    | pending => rfl
    | value success => rw [hstatus] at hzero; cases hzero
    | exception e => rw [hstatus] at hzero; cases hzero
  · omega

/-! ### What changes the pool -/

theorem settledAt_set {status : FutureStatus Bool FutureError}
    (hstatus : isPending status = false) (ht : t < w.promises.length) (u : Nat) :
    settledAt { w with promises := w.promises.set t status } u =
      if u = t then 1 else w.settledAt u := by
  unfold settledAt
  by_cases hu : u = t
  · subst hu
    rw [if_pos rfl, List.getElem?_set_self ht]
    cases status with
    | pending => cases hstatus
    | value success => rfl
    | exception e => rfl
  · rw [if_neg hu, List.getElem?_set_ne (Ne.symm hu)]

theorem later_set {status : FutureStatus Bool FutureError}
    (hpending : w.promises[t]? = some .pending)
    (hpromises : w'.promises = w.promises.set t status) : w.Later w' where
  length := Nat.le_of_eq (by rw [hpromises, List.length_set])
  settled u status' hu hnot := by
    have hne : t ≠ u := by
      rintro rfl
      rw [hpending] at hu
      cases hu
      cases hnot
    rw [hpromises, List.getElem?_set_ne hne, hu]

theorem settle_placed (h : w.Placed) (ht : t ∈ w.running) {status : FutureStatus Bool FutureError}
    (hstatus : isPending status = false) :
    (w.settle t status).Placed ∧ w.Later (w.settle t status) := by
  have hcount := List.count_pos_iff.2 ht
  have hpending := h.pending_of_count (t := t) (by omega)
  obtain ⟨hlt, -⟩ := List.getElem?_eq_some_iff.1 hpending
  have hlater : w.Later (w.settle t status) := later_set hpending rfl
  refine ⟨h.later hlater rfl fun u => ?_, hlater⟩
  have hplace := h.place u
  have hsettled := settledAt_set hstatus hlt u
  have hunsettled : u = t → w.settledAt u = 0 := by
    rintro rfl
    unfold settledAt
    rw [hpending]
  change w.queue.queue.count u + (w.running.erase t).count u +
    settledAt { w with promises := w.promises.set t status } u =
      if u < (w.promises.set t status).length then 1 else 0
  rw [hsettled, List.length_set, ← hplace]
  by_cases hu : u = t
  · have hzero := hunsettled hu
    rw [if_pos hu, hu, List.count_erase_self, ← hu, hzero]
    rw [← hu] at hcount
    omega
  · rw [if_neg hu, List.count_erase_of_ne hu]

theorem commit_placed (h : w.Placed) : w.commit.Placed ∧ w.Later w.commit := by
  have hget : ∀ {u : Nat}, u < w.promises.length → w.commit.promises[u]? = w.promises[u]? :=
    fun hu => List.getElem?_append_left hu
  have hlater : w.Later w.commit := by
    refine ⟨?_, fun u status hu _ => ?_⟩
    · exact (List.length_append ..).symm ▸ Nat.le_add_right ..
    · rw [hget (List.getElem?_eq_some_iff.1 hu).1, hu]
  refine ⟨h.later hlater rfl fun u => ?_, hlater⟩
  have hplace := h.place u
  have hlength : w.commit.promises.length = w.promises.length + 1 := by
    simp [commit]
  have hqueue : w.commit.queue.queue = w.queue.queue ++ [w.promises.length] := rfl
  change w.commit.queue.queue.count u + w.running.count u + w.commit.settledAt u = _
  rw [hlength, hqueue]
  rcases Nat.lt_trichotomy u w.promises.length with hu | hu | hu
  · have hsettled : w.commit.settledAt u = w.settledAt u := by
      unfold settledAt
      rw [hget hu]
    rw [if_pos hu] at hplace
    rw [hsettled, if_pos (Nat.lt_succ_of_lt hu), List.count_append,
      List.count_eq_zero.2 (mt List.mem_singleton.1 (Nat.ne_of_lt hu)), Nat.add_zero, hplace]
  · have hsettled : w.commit.settledAt u = 0 := by
      unfold settledAt commit
      rw [hu, List.getElem?_concat_length]
    rw [if_neg (by omega)] at hplace
    rw [hsettled, if_pos (by omega), List.count_append, ← hu, List.count_singleton_self]
    omega
  · have hsettled : w.commit.settledAt u = 0 := by
      unfold settledAt
      rw [List.getElem?_eq_none (by omega)]
    rw [if_neg (by omega)] at hplace
    rw [hsettled, if_neg (by omega), List.count_append,
      List.count_eq_zero.2 (mt List.mem_singleton.1 (Nat.ne_of_gt hu))]
    omega

theorem commitMany_placed (n : Nat) (h : w.Placed) :
    (commitMany n w).Placed ∧ w.Later (commitMany n w) ∧
      (commitMany n w).promises.length = w.promises.length + n ∧
      (commitMany n w).invoked = w.invoked ∧ (commitMany n w).meanwhile = w.meanwhile := by
  induction n generalizing w with
  | zero => exact ⟨h, .refl w, rfl, rfl, rfl⟩
  | succ n ih =>
    obtain ⟨hplaced, hlater⟩ := commit_placed h
    obtain ⟨hrest, hlater', hlength, hinvoked, hmeanwhile⟩ := ih hplaced
    refine ⟨hrest, hlater.trans hlater', ?_, hinvoked, hmeanwhile⟩
    rw [commitMany, hlength, commit, List.length_append, List.length_singleton]
    omega

theorem work_placed (h : w.Placed) (step : WorkStep) :
    (w.work step).Placed ∧ w.Later (w.work step) ∧ (w.work step).invoked = w.invoked ∧
      (w.work step).promises.length = w.promises.length := by
  have hstay : w.Placed ∧ w.Later w ∧ w.invoked = w.invoked ∧
      w.promises.length = w.promises.length := ⟨h, .refl w, rfl, rfl⟩
  cases step with
  | take =>
    unfold work
    dsimp only
    split
    · split
      · next transaction queue hpop =>
        have hfront := ProducerConsumerQueue.pop_eq_some hpop
        have hlater : w.Later { w with queue, running := w.running ++ [transaction] } :=
          ⟨Nat.le_refl _, fun _ _ hu _ => hu⟩
        refine ⟨h.later hlater rfl fun u => ?_, hlater, rfl, rfl⟩
        have hplace := h.place u
        rw [hfront, List.count_cons] at hplace
        change queue.queue.count u + (w.running ++ [transaction]).count u + w.settledAt u = _
        rw [List.count_append, List.count_singleton]
        dsimp only
        omega
      · exact hstay
    · exact hstay
  | finish transaction success =>
    unfold work
    dsimp only
    split
    · next hmem =>
      have hpending : isPending (.value success : FutureStatus Bool FutureError) = false := rfl
      obtain ⟨hplaced, hlater⟩ := settle_placed h hmem hpending
      exact ⟨hplaced, hlater, rfl, List.length_set ..⟩
    · exact hstay
  | throw transaction =>
    unfold work
    dsimp only
    split
    · next hmem =>
      have hpending : isPending (.exception .brokenPromise : FutureStatus Bool FutureError) =
          false := rfl
      obtain ⟨hplaced, hlater⟩ := settle_placed h hmem hpending
      exact ⟨⟨hplaced.place, hplaced.told⟩, ⟨hlater.length, hlater.settled⟩, rfl,
        List.length_set ..⟩
    · exact hstay

/-- The promises of the transactions in the queue are broken one by one. -/
theorem clear_placed (h : w.Placed) : w.clear.Placed ∧ w.Later w.clear ∧
    w.clear.promises.length = w.promises.length := by
  have hmany : ∀ (ts : List Nat) (promises : List (FutureStatus Bool FutureError)) (t : Nat),
      (ts.foldl (fun promises t => promises.set t (.exception .brokenPromise)) promises)[t]? =
        if t ∈ ts ∧ t < promises.length then some (.exception .brokenPromise)
        else promises[t]? := by
    intro ts
    induction ts with
    | nil => intro promises t; simp
    | cons u ts ih =>
      intro promises t
      rw [List.foldl_cons, ih, List.length_set]
      by_cases hmem : t ∈ ts ∧ t < promises.length
      · rw [if_pos hmem, if_pos ⟨List.mem_cons_of_mem u hmem.1, hmem.2⟩]
      · rw [if_neg hmem]
        by_cases hut : u = t
        · subst hut
          by_cases hlt : u < promises.length
          · rw [if_pos ⟨List.mem_cons_self, hlt⟩, List.getElem?_set_self hlt]
          · rw [if_neg fun hboth => hlt hboth.2, List.getElem?_set]
            simp [hlt]
        · rw [List.getElem?_set_ne hut]
          refine (if_neg fun hboth => hmem ⟨?_, hboth.2⟩).symm
          exact (List.mem_cons.1 hboth.1).resolve_left (Ne.symm hut)
  have hlength : w.clear.promises.length = w.promises.length := by
    have hset : ∀ (ts : List Nat) (promises : List (FutureStatus Bool FutureError)),
        (ts.foldl (fun promises t => promises.set t (.exception .brokenPromise))
          promises).length = promises.length := by
      intro ts
      induction ts with
      | nil => exact fun _ => rfl
      | cons u ts ih => exact fun promises => (ih _).trans (List.length_set ..)
    exact hset _ _
  have hlater : w.Later w.clear := by
    refine ⟨Nat.le_of_eq hlength.symm, fun t status ht hnot => ?_⟩
    change (List.foldl _ _ _)[t]? = _
    rw [hmany, if_neg, ht]
    rintro ⟨hmem, -⟩
    have hpending := h.pending_of_count (t := t)
      (Nat.lt_of_lt_of_le (List.count_pos_iff.2 hmem) (Nat.le_add_right ..))
    rw [ht] at hpending
    cases hpending
    cases hnot
  refine ⟨h.later hlater rfl fun t => ?_, hlater, hlength⟩
  have hplace := h.place t
  rw [hlength]
  change 0 + w.running.count t + _ = _
  have hsettled : w.clear.settledAt t =
      if t ∈ w.queue.queue then 1 else w.settledAt t := by
    unfold settledAt clear
    dsimp only
    rw [hmany]
    by_cases hmem : t ∈ w.queue.queue
    · have hpending := h.pending_of_count (t := t)
        (Nat.lt_of_lt_of_le (List.count_pos_iff.2 hmem) (Nat.le_add_right ..))
      rw [if_pos ⟨hmem, (List.getElem?_eq_some_iff.1 hpending).1⟩, if_pos hmem]
    · rw [if_neg fun hboth => hmem hboth.1, if_neg hmem]
  rw [hsettled]
  by_cases hmem : t ∈ w.queue.queue
  · have hpos := List.count_pos_iff.2 hmem
    rw [if_pos hmem]
    split at hplace
    · next hlt =>
      rw [if_pos hlt]
      omega
    · omega
  · rw [if_neg hmem]
    rw [List.count_eq_zero.2 hmem] at hplace
    exact hplace

/-- The workers go on: nothing is lost, and no continuation runs. -/
theorem elapse_placed (h : w.Placed) : w.elapse.Placed ∧ w.Later w.elapse ∧
    w.elapse.invoked = w.invoked ∧ w.elapse.promises.length = w.promises.length := by
  have hsteps : ∀ (steps : List WorkStep) {w : Pipeline}, w.Placed →
      (steps.foldl work w).Placed ∧ w.Later (steps.foldl work w) ∧
        (steps.foldl work w).invoked = w.invoked ∧
        (steps.foldl work w).promises.length = w.promises.length := by
    intro steps
    induction steps with
    | nil => exact fun {w} h => ⟨h, .refl w, rfl, rfl⟩
    | cons step steps ih =>
      intro w h
      obtain ⟨hplaced, hlater, hinvoked, hlength⟩ := work_placed h step
      obtain ⟨hplaced', hlater', hinvoked', hlength'⟩ := ih hplaced
      exact ⟨hplaced', hlater.trans hlater', hinvoked'.trans hinvoked, hlength'.trans hlength⟩
  unfold elapse
  split
  · exact ⟨h, .refl w, rfl, rfl⟩
  · next steps later _ =>
    obtain ⟨hplaced, hlater, hinvoked, hlength⟩ := hsteps steps h
    exact ⟨⟨hplaced.place, hplaced.told⟩, ⟨hlater.length, hlater.settled⟩, hinvoked, hlength⟩

end Pipeline

end GameServer.Database
