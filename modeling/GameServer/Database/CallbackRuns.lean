import GameServer.Database.QueryCallback

/-!
# No continuation is lost

A continuation should be invoked once with the result of its own query, and until then be stored
with the future of that query (`Accounted`). Every move of a stored callback drops its
continuations, and an exception drops the callbacks of the pass it leaves. So this holds along a run
exactly as long as nothing stored is moved and nothing is left behind: no registration finds a full
vector, no pass finds a result missing, and no continuation but the last one of a pass throws
(`accounted_along_iff`).
-/

namespace GameServer.Database

open GameServer.Lib

namespace CallbackState

def ran (s : CallbackState) (n : Nat) : List Invocation :=
  s.invoked.filter fun i => i.continuation = n

/-- The continuation `n` is stored, alone, with the future of its query. -/
def Stored (s : CallbackState) (n : Nat) : Prop :=
  ∃ c ∈ s.processor.callbacks, c.future.state = some n ∧
    c.callbacks.map QueryCallbackData.continuation = [n]

/-- The process is running, and each registered continuation was invoked exactly once with the
result of its own query or is still stored with its future. -/
structure Accounted (s : CallbackState) : Prop where
  running : s.stopped = none
  accounted : ∀ n < s.registered, s.ran n = [⟨n, n⟩] ∨ s.ran n = [] ∧ s.Stored n

/-- A registration finds room or an empty vector; a pass finds the result of every stored query, and
only the continuation of the last callback may throw. -/
def Undisturbed (throws : Nat → Bool) (s : CallbackState) : CallbackEvent → Prop
  | .register _ =>
    s.processor.callbacks = [] ∨ s.processor.callbacks.length < s.processor.capacity
  | .complete _ | .breakPromise _ => True
  | .pass =>
    (∀ c ∈ s.processor.callbacks, ∀ n, c.future.state = some n → s.status n = .value ()) ∧
      ∀ c ∈ s.processor.callbacks.dropLast, ∀ d ∈ c.callbacks, throws d.continuation = false

end CallbackState

open CallbackState

/-- The callback of a query as registered: its kind and its number. -/
def asRegistered (q : Bool × Nat) : QueryCallback := ⟨⟨q.1, some q.2⟩, q.1, [⟨q.1, q.2⟩]⟩

/-- The invariant of undisturbed runs: the vector holds the callbacks as they were registered. -/
structure Intact (s : CallbackState) (qs : List (Bool × Nat)) : Prop where
  running : s.stopped = none
  callbacks : s.processor.callbacks = qs.map asRegistered
  nodup : (qs.map Prod.snd).Nodup
  waiting : ∀ n ∈ qs.map Prod.snd, n < s.registered ∧ s.ran n = []
  done : ∀ n < s.registered, n ∉ qs.map Prod.snd → s.ran n = [⟨n, n⟩]
  invoked : ∀ i ∈ s.invoked, i.continuation < s.registered

theorem Intact.accounted {s : CallbackState} {qs : List (Bool × Nat)} (h : Intact s qs) :
    s.Accounted := by
  refine ⟨h.running, ?_⟩
  intro n hn
  by_cases hmem : n ∈ qs.map Prod.snd
  · obtain ⟨q, hq, rfl⟩ := List.mem_map.1 hmem
    refine .inr ⟨(h.waiting _ hmem).2, asRegistered q, ?_, rfl, rfl⟩
    rw [h.callbacks]
    exact List.mem_map_of_mem hq
  · exact .inl (h.done n hn hmem)

theorem intact_initial : Intact .initial [] :=
  ⟨rfl, rfl, List.nodup_nil, fun _ h => absurd h List.not_mem_nil,
    fun _ h => absurd h (Nat.not_lt_zero _), fun _ h => absurd h List.not_mem_nil⟩

/-! ## A pass over callbacks as they were registered -/

/-- What a pass runs, until an exception leaves it: the continuation of each query that has a
result, on this result. -/
def passInvokes (F : Futures) : List (Bool × Nat) → List Invocation
  | [] => []
  | q :: qs =>
    match F.status q.2 with
    | .pending => passInvokes F qs
    | .exception _ => []
    | .value _ => ⟨q.2, q.2⟩ :: if F.throws q.2 then [] else passInvokes F qs

theorem invokeIfReady_asRegistered (F : Futures) (q : Bool × Nat) :
    (asRegistered q).invokeIfReady F =
      match F.status q.2 with
      | .pending => .ok ((false, asRegistered q), [])
      | .exception _ => .error (.exception [])
      | .value _ =>
        if F.throws q.2 then .error (.exception [⟨q.2, q.2⟩])
        else .ok ((true, { (asRegistered q).movedFrom with callbacks := [] }), [⟨q.2, q.2⟩]) := by
  cases h : F.status q.2 <;> simp [QueryCallback.invokeIfReady, asRegistered, h]

/-- `remove_if` runs what `passInvokes` says: it is left by an exception, or keeps something only
where a result is missing. -/
inductive PassEnds (F : Futures) (qs : List (Bool × Nat)) : Invoking (List QueryCallback) → Prop
  | ok {kept : List QueryCallback} (h : (∀ q ∈ qs, F.status q.2 = .value ()) → kept = []) :
      PassEnds F qs (.ok (kept, passInvokes F qs))
  | exception : PassEnds F qs (.error (.exception (passInvokes F qs)))

/-- The first callback returned, and `qs` are those behind it. -/
theorem PassEnds.after {F : Futures} {q : Bool × Nat} {qs : List (Bool × Nat)}
    {r : Invoking (List QueryCallback)} (h : PassEnds F qs r) {invoked : List Invocation}
    {first : List QueryCallback} (hinvoked : passInvokes F (q :: qs) = invoked ++ passInvokes F qs)
    (hfirst : F.status q.2 = .value () → first = []) :
    PassEnds F (q :: qs) (r.after invoked first) := by
  cases h with
  | ok hkept =>
    rw [Invoking.after, ← hinvoked]
    refine .ok fun hall => ?_
    rw [List.forall_mem_cons] at hall
    rw [hfirst hall.1, hkept hall.2, List.nil_append]
  | exception =>
    rw [Invoking.after, ← hinvoked]
    exact .exception

theorem removeIf_asRegistered (F : Futures) (qs : List (Bool × Nat)) (holes : List QueryCallback) :
    PassEnds F qs (removeIf F holes (qs.map asRegistered)) := by
  induction qs generalizing holes with
  | nil => exact .ok fun _ => rfl
  | cons q qs ih =>
    rw [List.map_cons, removeIf, invokeIfReady_asRegistered]
    cases hq : F.status q.2 with
    | pending =>
      have hinvoked : passInvokes F (q :: qs) = [] ++ passInvokes F qs := by
        rw [passInvokes, hq, List.nil_append]
      have hnot : ∀ first : List QueryCallback, F.status q.2 = .value () → first = [] := by
        intro first h
        rw [hq] at h
        cases h
      cases holes with
      | nil => exact (ih _).after hinvoked (hnot _)
      | cons hole holes => exact (ih _).after hinvoked (hnot _)
    | exception e =>
      have hinvoked : passInvokes F (q :: qs) = [] := by rw [passInvokes, hq]
      simp only
      rw [← hinvoked]
      exact .exception
    | value a =>
      simp only
      by_cases hthrows : F.throws q.2 = true
      · have hinvoked : passInvokes F (q :: qs) = [⟨q.2, q.2⟩] := by
          rw [passInvokes, hq]
          simp only [hthrows, if_true]
        rw [if_pos hthrows, ← hinvoked]
        exact .exception
      · have hinvoked : passInvokes F (q :: qs) = [⟨q.2, q.2⟩] ++ passInvokes F qs := by
          rw [passInvokes, hq]
          simp only [hthrows, if_false, Bool.false_eq_true]
          rfl
        rw [if_neg hthrows]
        exact (ih _).after hinvoked fun _ => rfl

/-- Nothing is run for a query without a result, or behind a continuation that throws. -/
theorem mem_passInvokes {F : Futures} {qs : List (Bool × Nat)} {i : Invocation}
    (h : i ∈ passInvokes F qs) : i.continuation ∈ qs.map Prod.snd ∧
      F.status i.continuation = .value () ∧
        ∀ pre q post, qs = pre ++ q :: post → F.status q.2 = .value () → F.throws q.2 = true →
          i.continuation ∈ (pre ++ [q]).map Prod.snd := by
  induction qs with
  | nil => cases h
  | cons p qs ih =>
    have hrest : i ∈ passInvokes F qs → F.throws p.2 = false ∨ F.status p.2 ≠ .value () →
        i.continuation ∈ (p :: qs).map Prod.snd ∧ F.status i.continuation = .value () ∧
          ∀ pre q post, p :: qs = pre ++ q :: post → F.status q.2 = .value () →
            F.throws q.2 = true → i.continuation ∈ (pre ++ [q]).map Prod.snd := by
      intro hi hp
      obtain ⟨hmem, hvalue, hthrows⟩ := ih hi
      refine ⟨List.mem_cons_of_mem _ hmem, hvalue, fun pre q post heq hq hthrow => ?_⟩
      cases pre with
      | nil =>
        obtain ⟨rfl, rfl⟩ := List.cons.inj heq
        rcases hp with hp | hp
        · rw [hthrow] at hp
          cases hp
        · exact absurd hq hp
      | cons c pre =>
        obtain ⟨rfl, rfl⟩ := List.cons.inj heq
        exact List.mem_cons_of_mem _ (hthrows pre q post rfl hq hthrow)
    rw [passInvokes] at h
    cases hp : F.status p.2 with
    | pending =>
      rw [hp] at h
      exact hrest h (.inr (by rw [hp]; exact nofun))
    | exception e =>
      rw [hp] at h
      cases h
    | value a =>
      rw [hp] at h
      rcases List.mem_cons.1 h with rfl | h
      · refine ⟨List.mem_cons_self, hp, fun pre q post heq _ _ => ?_⟩
        cases pre with
        | nil => exact (List.cons.inj heq).1 ▸ List.mem_cons_self
        | cons c pre => exact (List.cons.inj heq).1 ▸ List.mem_cons_self
      · split at h
        · cases h
        · next hthrows => exact hrest h (.inl (Bool.not_eq_true _ ▸ hthrows))

/-- Every result is there and none but the last continuation throws: all are run. -/
theorem passInvokes_eq {F : Futures} {qs : List (Bool × Nat)}
    (hvalue : ∀ q ∈ qs, F.status q.2 = .value ())
    (hthrows : ∀ q ∈ qs.dropLast, F.throws q.2 = false) :
    passInvokes F qs = qs.map fun q => ⟨q.2, q.2⟩ := by
  induction qs with
  | nil => rfl
  | cons q qs ih =>
    rw [List.forall_mem_cons] at hvalue
    rw [passInvokes, hvalue.1, List.map_cons]
    cases qs with
    | nil => simp [passInvokes]
    | cons p qs =>
      rw [List.dropLast_cons_cons, List.forall_mem_cons] at hthrows
      rw [← ih hvalue.2 hthrows.2]
      simp only [hthrows.1, Bool.false_eq_true, if_false]

/-- The continuation of each query, run once. -/
theorem filter_invocations {qs : List (Bool × Nat)} (hnodup : (qs.map Prod.snd).Nodup) {n : Nat}
    (hn : n ∈ qs.map Prod.snd) :
    (qs.map fun q => (⟨q.2, q.2⟩ : Invocation)).filter (fun i => i.continuation = n) =
      [⟨n, n⟩] := by
  induction qs with
  | nil => cases hn
  | cons q qs ih =>
    rw [List.map_cons, List.nodup_cons] at hnodup
    rw [List.map_cons, List.filter_cons]
    by_cases hq : q.2 = n
    · subst hq
      have hrest : (qs.map fun q => (⟨q.2, q.2⟩ : Invocation)).filter
          (fun i => i.continuation = q.2) = [] := by
        rw [List.filter_eq_nil_iff]
        intro i hi heq
        obtain ⟨p, hp, rfl⟩ := List.mem_map.1 hi
        have hsame : p.2 = q.2 := of_decide_eq_true heq
        exact hnodup.1 (hsame ▸ List.mem_map_of_mem hp)
      simp [hrest]
    · rw [if_neg (by simpa using hq)]
      refine ih hnodup.2 ?_
      rw [List.map_cons, List.mem_cons] at hn
      exact hn.resolve_left (Ne.symm hq)

/-- A pass over callbacks as they were registered does not stop the process; nothing is left behind
that still has its continuation, and nothing at all where every result was there. -/
theorem process_asRegistered (growth : Nat → Nat) (throws : Nat → Bool) {s : CallbackState}
    {qs : List (Bool × Nat)} (hstopped : s.stopped = none)
    (hs : s.processor.callbacks = qs.map asRegistered) :
    ∃ p, (processor growth throws).step s .pass = some { s with
        processor := p, invoked := s.invoked ++ passInvokes (s.futures throws) qs } ∧
      ((∀ q ∈ qs, s.status q.2 = .value ()) → p.callbacks = []) ∧
      (qs ≠ [] → ∀ c ∈ p.callbacks, c.callbacks = []) := by
  simp only [processor, hstopped, Option.isSome_none, Bool.false_eq_true, if_false]
  unfold AsyncCallbackProcessor.processReadyCallbacks
  by_cases hqs : qs = []
  · subst hqs
    rw [hs]
    exact ⟨s.processor, rfl, fun _ => hs, fun h => absurd rfl h⟩
  · rw [hs, if_neg (by simpa using hqs)]
    have hends := removeIf_asRegistered (s.futures throws) qs []
    generalize removeIf (s.futures throws) [] (qs.map asRegistered) = r at hends
    cases hends with
    | ok hkept =>
      refine ⟨_, rfl, fun hall => ?_, fun _ c hc => ?_⟩
      · rw [hkept hall]
        rfl
      · obtain ⟨d, -, rfl⟩ := List.mem_map.1 hc
        rfl
    | exception => exact ⟨_, rfl, fun _ => rfl, fun _ c hc => absurd hc List.not_mem_nil⟩

/-! ## Steps -/

section Steps

variable {growth : Nat → Nat} {throws : Nat → Bool} {s t : CallbackState} {qs : List (Bool × Nat)}

/-- The two parts of the condition on a pass, for callbacks as they were registered. -/
theorem Intact.undisturbed_pass_iff (h : Intact s qs) : s.Undisturbed throws .pass ↔
    (∀ q ∈ qs, s.status q.2 = .value ()) ∧ ∀ q ∈ qs.dropLast, throws q.2 = false := by
  unfold Undisturbed
  dsimp only
  rw [h.callbacks, ← List.map_dropLast, List.forall_mem_map, List.forall_mem_map]
  simp [asRegistered]

theorem Intact.pass (h : Intact s qs) (hc : s.Undisturbed throws .pass)
    (ht : (processor growth throws).step s .pass = some t) : Intact t [] := by
  obtain ⟨hvalue, hthrows⟩ := h.undisturbed_pass_iff.1 hc
  obtain ⟨p, hp, hnone, -⟩ := process_asRegistered growth throws h.running h.callbacks
  rw [hp] at ht
  cases ht
  have hall : passInvokes (s.futures throws) qs = qs.map fun q => ⟨q.2, q.2⟩ :=
    passInvokes_eq hvalue hthrows
  refine ⟨h.running, hnone hvalue, List.nodup_nil, fun _ hn => absurd hn List.not_mem_nil, ?_, ?_⟩
  · intro n hn _
    change (s.invoked ++ passInvokes (s.futures throws) qs).filter _ = _
    rw [List.filter_append, hall]
    change s.ran n ++ _ = _
    by_cases hmem : n ∈ qs.map Prod.snd
    · rw [(h.waiting n hmem).2, filter_invocations h.nodup hmem, List.nil_append]
    · rw [h.done n hn hmem, List.filter_eq_nil_iff.2, List.append_nil]
      intro i hi heq
      obtain ⟨q, hq, rfl⟩ := List.mem_map.1 hi
      have hsame : q.2 = n := of_decide_eq_true heq
      exact hmem (hsame ▸ List.mem_map_of_mem hq)
  · intro i hi
    rcases List.mem_append.1 hi with hi | hi
    · exact h.invoked i hi
    · exact (h.waiting _ (mem_passInvokes hi).1).1

/-- Promises are kept or broken outside of the processor. -/
theorem Intact.settle {e : CallbackEvent} (h : Intact s qs)
    (he : ∀ prepared, e ≠ .register prepared) (hpass : e ≠ .pass)
    (ht : (processor growth throws).step s e = some t) : Intact t qs := by
  simp only [processor, h.running, Option.isSome_none, Bool.false_eq_true, if_false] at ht
  cases e with
  | register prepared => exact absurd rfl (he prepared)
  | complete query =>
    simp only [Option.ite_none_right_eq_some, Option.some.injEq] at ht
    obtain ⟨-, rfl⟩ := ht
    exact ⟨rfl, h.callbacks, h.nodup, h.waiting, h.done, h.invoked⟩
  | breakPromise query =>
    simp only [Option.ite_none_right_eq_some, Option.some.injEq] at ht
    obtain ⟨-, rfl⟩ := ht
    exact ⟨rfl, h.callbacks, h.nodup, h.waiting, h.done, h.invoked⟩
  | pass => exact absurd rfl hpass

theorem step_register {prepared : Bool} (hs : s.stopped = none)
    (ht : (processor growth throws).step s (.register prepared) = some t) :
    ∃ p, t = { s with processor := p, registered := s.registered + 1, stopped := none } ∧
      p.callbacks = (if s.processor.callbacks.length < s.processor.capacity then
        s.processor.callbacks else s.processor.callbacks.map QueryCallback.moveConstruct) ++
          [asRegistered (prepared, s.registered)] := by
  simp only [processor, hs, Option.isSome_none, Bool.false_eq_true, if_false,
    AsyncCallbackProcessor.addCallbackThen, QueryCallback.andThen, QueryCallback.moveConstruct,
    List.isEmpty_nil, beq_self_eq_true, Bool.or_true, if_true, bind, Except.bind] at ht
  by_cases hroom : s.processor.callbacks.length < s.processor.capacity
  · simp only [hroom, if_true, Option.some.injEq] at ht
    refine ⟨_, ht.symm, ?_⟩
    rw [if_pos hroom]
    rfl
  · simp only [hroom, if_false, Option.some.injEq] at ht
    refine ⟨_, ht.symm, ?_⟩
    rw [if_neg hroom]
    rfl

theorem Intact.register {prepared : Bool} (h : Intact s qs)
    (hroom : s.Undisturbed throws (.register prepared))
    (ht : (processor growth throws).step s (.register prepared) = some t) :
    Intact t (qs ++ [(prepared, s.registered)]) := by
  obtain ⟨p, rfl, hp⟩ := step_register h.running ht
  have hsnd : (qs ++ [(prepared, s.registered)]).map Prod.snd = qs.map Prod.snd ++ [s.registered] :=
    List.map_append
  have hfresh : s.registered ∉ qs.map Prod.snd := by
    intro hmem
    exact Nat.lt_irrefl _ (h.waiting _ hmem).1
  have hran : s.ran s.registered = [] := by
    rw [ran, List.filter_eq_nil_iff]
    intro i hi
    have := h.invoked i hi
    simp only [decide_eq_true_eq]
    omega
  refine ⟨rfl, ?_, ?_, ?_, ?_, fun i hi => Nat.lt_succ_of_lt (h.invoked i hi)⟩
  · have hkeep : (if s.processor.callbacks.length < s.processor.capacity then
        s.processor.callbacks else s.processor.callbacks.map QueryCallback.moveConstruct) =
          qs.map asRegistered := by
      rw [← h.callbacks]
      rcases hroom with hnil | hlt
      · rw [hnil]
        split <;> rfl
      · rw [if_pos hlt]
    rw [hp, hkeep, List.map_append]
    rfl
  · rw [hsnd]
    refine List.nodup_append.2 ⟨h.nodup, List.pairwise_singleton _ _, ?_⟩
    intro a ha b hb
    rw [List.mem_singleton.1 hb]
    rintro rfl
    exact hfresh ha
  · intro n hn
    rw [hsnd, List.mem_append, List.mem_singleton] at hn
    rcases hn with hn | rfl
    · exact ⟨Nat.lt_succ_of_lt (h.waiting n hn).1, (h.waiting n hn).2⟩
    · exact ⟨Nat.lt_succ_self _, hran⟩
  · intro n hn hmem
    rw [hsnd, List.mem_append, List.mem_singleton, not_or] at hmem
    exact h.done n (Nat.lt_of_le_of_ne (Nat.le_of_lt_succ hn) hmem.2) hmem.1

/-! ## Steps that lose a continuation -/

/-- A query of the pass whose continuation is not run: its result is missing, or a continuation
before it throws. -/
theorem Intact.exists_left (h : Intact s qs) (hc : ¬s.Undisturbed throws .pass) :
    ∃ q ∈ qs, ∀ i ∈ passInvokes (s.futures throws) qs, i.continuation ≠ q.2 := by
  rw [h.undisturbed_pass_iff] at hc
  by_cases hvalue : ∀ q ∈ qs, s.status q.2 = .value ()
  · rw [not_and] at hc
    obtain ⟨q, hthrows⟩ := not_forall.1 (hc hvalue)
    obtain ⟨hq, hthrows⟩ := not_forall.1 hthrows
    obtain ⟨pre, mid, hsplit⟩ := List.append_of_mem hq
    -- the last query stands behind the one that throws
    have hne : qs ≠ [] := by
      rintro rfl
      cases hq
    have hqs : qs = pre ++ q :: (mid ++ [qs.getLast hne]) := by
      conv_lhs => rw [← List.dropLast_append_getLast hne, hsplit]
      rw [List.append_assoc, List.cons_append]
    refine ⟨qs.getLast hne, List.getLast_mem hne, fun i hi heq => ?_⟩
    have hmem := (mem_passInvokes hi).2.2 pre q _ hqs (hvalue q (List.dropLast_subset _ hq))
      (Bool.not_eq_false _ ▸ hthrows)
    rw [heq] at hmem
    have hnodup := h.nodup
    rw [hqs, ← List.singleton_append, ← List.append_assoc, ← List.append_assoc, List.map_append,
      List.nodup_append] at hnodup
    refine hnodup.2.2 _ ?_ _ (List.mem_singleton_self _) rfl
    rw [List.map_append]
    exact List.mem_append_left _ hmem
  · simp only [not_forall] at hvalue
    obtain ⟨q, hq, hstatus⟩ := hvalue
    refine ⟨q, hq, fun i hi heq => hstatus ?_⟩
    rw [← heq]
    exact (mem_passInvokes hi).2.1

/-- A pass that leaves a query behind: its callback is destroyed or put back without a
continuation. -/
theorem Intact.not_accounted_pass (h : Intact s qs) (hc : ¬s.Undisturbed throws .pass)
    (ht : (processor growth throws).step s .pass = some t) : ¬t.Accounted := by
  obtain ⟨p, hp, -, hempty⟩ := process_asRegistered growth throws h.running h.callbacks
  rw [hp] at ht
  cases ht
  obtain ⟨q, hq, hleft⟩ := h.exists_left hc
  have hmem : q.2 ∈ qs.map Prod.snd := List.mem_map_of_mem hq
  have hran : (s.invoked ++ passInvokes (s.futures throws) qs).filter
      (fun i => i.continuation = q.2) = [] := by
    rw [List.filter_append, List.append_eq_nil_iff]
    refine ⟨(h.waiting _ hmem).2, List.filter_eq_nil_iff.2 fun i hi heq => ?_⟩
    exact hleft i hi (of_decide_eq_true heq)
  intro hacc
  rcases hacc.accounted q.2 (h.waiting _ hmem).1 with hdone | ⟨-, d, hd, -, hcont⟩
  · rw [ran, hran] at hdone
    cases hdone
  · rw [hempty (List.ne_nil_of_mem hq) d hd] at hcont
    cases hcont

/-- A registration that finds the vector full drops the continuations stored so far. -/
theorem Intact.not_accounted_register {prepared : Bool} (h : Intact s qs)
    (hroom : ¬s.Undisturbed throws (.register prepared))
    (ht : (processor growth throws).step s (.register prepared) = some t) : ¬t.Accounted := by
  obtain ⟨p, rfl, hp⟩ := step_register h.running ht
  simp only [Undisturbed, not_or, Nat.not_lt] at hroom
  rw [if_neg (Nat.not_lt.2 hroom.2), h.callbacks] at hp
  obtain ⟨q, hq⟩ : ∃ q, q ∈ qs := by
    cases qs with
    | nil => exact absurd h.callbacks hroom.1
    | cons q qs => exact ⟨q, List.mem_cons_self⟩
  have hmem : q.2 ∈ qs.map Prod.snd := List.mem_map_of_mem hq
  obtain ⟨hlt, hran⟩ := h.waiting _ hmem
  intro hacc
  rcases hacc.accounted q.2 (Nat.lt_succ_of_lt hlt) with hdone | ⟨-, d, hd, hfuture, hcont⟩
  · cases hran.symm.trans hdone
  · rw [hp, List.mem_append, List.mem_singleton] at hd
    rcases hd with hd | rfl
    · obtain ⟨c, -, rfl⟩ := List.mem_map.1 hd
      cases hcont
    · have : s.registered = q.2 := Option.some.inj hfuture
      omega

end Steps

/-- **No continuation is lost**, in every state of a run, exactly if no step of the run moves a
stored callback or leaves one behind. -/
theorem accounted_along_iff (growth : Nat → Nat) (throws : Nat → Bool)
    (events : List CallbackEvent) :
    (processor growth throws).Along Accounted .initial events ↔
      (processor growth throws).Meets (Undisturbed throws) .initial events := by
  refine Machine.along_iff_meets (I := fun s => ∃ qs, Intact s qs) (fun s ⟨_, h⟩ => h.accounted)
    ?_ ?_ ⟨[], intact_initial⟩
  · rintro s e t ⟨qs, h⟩ hc ht
    cases e with
    | register prepared => exact ⟨_, h.register hc ht⟩
    | complete query => exact ⟨_, h.settle (e := .complete query) (fun _ => nofun) nofun ht⟩
    | breakPromise query => exact ⟨_, h.settle (e := .breakPromise query) (fun _ => nofun) nofun ht⟩
    | pass => exact ⟨_, h.pass hc ht⟩
  · rintro s e t ⟨qs, h⟩ hc ht
    cases e with
    | register prepared => exact h.not_accounted_register hc ht
    | complete query => exact absurd trivial hc
    | breakPromise query => exact absurd trivial hc
    | pass => exact h.not_accounted_pass hc ht

/-- One query, and a pass before its result is there. -/
theorem continuation_lost :
    ¬∀ (growth : Nat → Nat) (throws : Nat → Bool) (events : List CallbackEvent),
      (processor growth throws).Along Accounted .initial events := by
  intro h
  have hacc : Accounted { initial with
      processor := ⟨[⟨⟨false, some 0⟩, false, []⟩], 1⟩, registered := 1 } :=
    ((h (fun c => 2 * c) (fun _ => false) [.register false, .pass]).2 _ rfl).2 _ rfl
  rcases hacc.accounted 0 (Nat.lt_succ_self 0) with hdone | ⟨-, c, hc, -, hcont⟩
  · cases hdone
  · rw [List.mem_singleton.1 hc] at hcont
    cases hcont

end GameServer.Database
