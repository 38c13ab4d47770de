import GameServer.Database.CallbackTypes

/-!
# Chains of continuations

`Then` may be called any number of times, and only the first call is checked against the kind of
the future. `InvokeIfReady` moves the future out, runs the front continuation on its result and pops
it; no continuation gives the callback another future. Where more continuations are left it returns
false on a future that is not `valid` any more, and so does every later call:
`chain_progresses_iff` says that a chain makes progress as long as the call that finds the result
finds a single continuation.
-/

namespace GameServer.Database

open GameServer.Lib GameServer.Util

namespace QueryCallback

/-- The constructor for the result type, with the future of a query. -/
def ofFuture (prepared : Bool) (query : Nat) : QueryCallback :=
  ⟨⟨prepared, some query⟩, prepared, []⟩

/-- `Then` for each of the continuations. -/
def thenEach (c : QueryCallback) : List QueryCallbackData → Except Halt QueryCallback
  | [] => .ok c
  | callback :: callbacks => do
    let c ← c.andThen callback
    c.thenEach callbacks

/-- With the future of its query, of the kind of the first continuation. -/
def asBuilt (query : Nat) (callback : QueryCallbackData) (rest : List QueryCallbackData) :
    QueryCallback :=
  ⟨⟨callback.prepared, some query⟩, callback.prepared, callback :: rest⟩

/-- The future is `valid` and of the kind of the front continuation. -/
structure CanProgress (c : QueryCallback) : Prop where
  valid : c.future.state.isSome = true
  alternative : c.future.prepared = c.isPreparedResult
  front : ∃ callback ∈ c.callbacks.head?, callback.prepared = c.isPreparedResult

/-- Behind a first continuation every further one is accepted. -/
theorem thenEach_of_ne_nil {c : QueryCallback} (h : c.callbacks ≠ [])
    (callbacks : List QueryCallbackData) :
    c.thenEach callbacks = .ok { c with callbacks := c.callbacks ++ callbacks } := by
  induction callbacks generalizing c with
  | nil => rw [thenEach, List.append_nil]
  | cons callback callbacks ih =>
    have haccepted : c.andThen callback =
        .ok { c with callbacks := c.callbacks ++ [callback] } := by
      simp [andThen, h]
    rw [thenEach, haccepted]
    change thenEach _ callbacks = _
    rw [ih (by simp), List.append_assoc, List.singleton_append]

/-- What `Then` checks: the kind of the first continuation. -/
theorem thenEach_eq_ok {prepared : Bool} {query : Nat} {callback : QueryCallbackData}
    {callbacks : List QueryCallbackData} {c : QueryCallback}
    (h : (ofFuture prepared query).thenEach (callback :: callbacks) = .ok c) :
    c = asBuilt query callback callbacks := by
  rw [thenEach] at h
  by_cases hkind : prepared = callback.prepared
  · have haccepted : (ofFuture prepared query).andThen callback =
        .ok (asBuilt query callback []) := by
      simp [andThen, ofFuture, asBuilt, hkind]
    rw [haccepted] at h
    change thenEach _ callbacks = _ at h
    rw [thenEach_of_ne_nil (List.cons_ne_nil _ _)] at h
    cases h
    rfl
  · have hrejected : (ofFuture prepared query).andThen callback = .error .abort := by
      simp [andThen, ofFuture, hkind]
    rw [hrejected] at h
    cases h

theorem CanProgress.cases {c : QueryCallback} (h : c.CanProgress) :
    ∃ query callback rest, c = asBuilt query callback rest := by
  obtain ⟨⟨prepared, state⟩, isPreparedResult, callbacks⟩ := c
  obtain ⟨hvalid, halternative, callback, hfront, hkind⟩ := h
  obtain ⟨query, hquery⟩ := Option.isSome_iff_exists.1 hvalid
  obtain ⟨rest, hrest⟩ := List.head?_eq_some_iff.1 hfront
  dsimp only at *
  subst hquery hrest hkind halternative
  exact ⟨query, callback, rest, rfl⟩

theorem canProgress_asBuilt (query : Nat) (callback : QueryCallbackData)
    (rest : List QueryCallbackData) : (asBuilt query callback rest).CanProgress :=
  ⟨rfl, rfl, callback, rfl, rfl⟩

end QueryCallback

/-! ## Calls of `InvokeIfReady` -/

/-- A callback that stays where it is, and what the last call of `InvokeIfReady` returned. -/
structure Chain (σ ε : Type) where
  callback : QueryCallback
  world : σ
  last : Option (Except (Stop ε) Bool)

namespace Chain

variable {σ ε : Type}

/-- It was not called so far, or returned false. -/
def unfinished (s : Chain σ ε) : Bool :=
  match s.last with
  | none => true
  | some (.ok done) => !done
  | some (.error _) => false

def invokeIfReady (W : QueryWorld σ ε) (s : Chain σ ε) : Chain σ ε :=
  let r := s.callback.invoke W s.world
  ⟨r.self, r.world, some r.outcome⟩

/-- In a state in which it is unfinished it can still make progress. -/
def Progressing (s : Chain σ ε) : Prop := s.unfinished = true → s.callback.CanProgress

end Chain

inductive ChainEvent (σ : Type) where
  | invokeIfReady
  | elapse (world : σ)

/-- A callback with at least one continuation, called until it returns true or throws. -/
def chainRuns {σ ε : Type} (W : QueryWorld σ ε) : Machine (Chain σ ε) (ChainEvent σ) where
  init s := ∃ prepared query callbacks c w, callbacks ≠ [] ∧
    (QueryCallback.ofFuture prepared query).thenEach callbacks = .ok c ∧ s = ⟨c, w, none⟩
  step s
    | .invokeIfReady => if s.unfinished then some (s.invokeIfReady W) else none
    | .elapse world => some { s with world }

/-- The guard: a call that finds the result, and whose continuation returns, finds one
continuation. -/
def OneLeft {σ ε : Type} (W : QueryWorld σ ε) (s : Chain σ ε) : ChainEvent σ → Prop
  | .elapse _ => True
  | .invokeIfReady => ∀ callback rest query, s.callback.callbacks = callback :: rest →
      s.callback.future.state = some query → W.status s.world query = .value () →
      (W.run ⟨callback.continuation, query⟩ s.world).outcome = .ok () → rest = []

/-- A call that finds the result runs the front continuation on it, and leaves the callback
unfinished exactly if that returns and is not the last one. -/
def RunsFront {σ ε : Type} (W : QueryWorld σ ε) (s : Chain σ ε) : Prop :=
  ∀ query, s.unfinished = true → s.callback.future.state = some query →
    W.status s.world query = .value () → ∃ callback rest,
      s.callback.callbacks = callback :: rest ∧
      (s.invokeIfReady W).world = (W.run ⟨callback.continuation, query⟩ s.world).world ∧
      ((s.invokeIfReady W).unfinished = true ↔
        (W.run ⟨callback.continuation, query⟩ s.world).outcome = .ok () ∧ rest ≠ [])

section Steps

variable {σ ε : Type} {W : QueryWorld σ ε} {s t : Chain σ ε}

namespace QueryCallback

variable (query : Nat) (callback : QueryCallbackData) (rest : List QueryCallbackData) (w : σ)

theorem invoke_pending (h : W.status w query = .pending) :
    (asBuilt query callback rest).invoke W w =
      ⟨.ok false, asBuilt query callback rest, [], w⟩ := by
  simp [invoke, asBuilt, h]

theorem invoke_exception {e : ε} (h : W.status w query = .exception e) :
    (asBuilt query callback rest).invoke W w =
      ⟨.error (.exception e), (asBuilt query callback rest).movedFrom, [], w⟩ := by
  simp [invoke, asBuilt, h]

/-- The result goes to the front continuation, which is popped. -/
theorem invoke_value (h : W.status w query = .value ())
    (hrun : (W.run ⟨callback.continuation, query⟩ w).outcome = .ok ()) :
    (asBuilt query callback rest).invoke W w =
      ⟨.ok rest.isEmpty, { (asBuilt query callback rest).movedFrom with callbacks := rest },
        (W.run ⟨callback.continuation, query⟩ w).added,
        (W.run ⟨callback.continuation, query⟩ w).world⟩ := by
  simp [invoke, asBuilt, h, hrun]

theorem invoke_value_error (h : W.status w query = .value ()) {e : ε}
    (hrun : (W.run ⟨callback.continuation, query⟩ w).outcome = .error e) :
    (asBuilt query callback rest).invoke W w =
      ⟨.error (.exception e), (asBuilt query callback rest).movedFrom,
        (W.run ⟨callback.continuation, query⟩ w).added,
        (W.run ⟨callback.continuation, query⟩ w).world⟩ := by
  simp [invoke, asBuilt, h, hrun]

end QueryCallback

/-- A call that finds the result: the future is spent, whatever the continuation does. -/
theorem invokeIfReady_value (hcan : s.callback.CanProgress) {query : Nat}
    (hquery : s.callback.future.state = some query) (hstatus : W.status s.world query = .value ()) :
    ∃ callback rest, s.callback.callbacks = callback :: rest ∧
      (s.invokeIfReady W).callback.future.state = none ∧
      (s.invokeIfReady W).world = (W.run ⟨callback.continuation, query⟩ s.world).world ∧
      ((s.invokeIfReady W).unfinished = true ↔
        (W.run ⟨callback.continuation, query⟩ s.world).outcome = .ok () ∧ rest ≠ []) := by
  obtain ⟨c, w, last⟩ := s
  obtain ⟨query', callback, rest, rfl⟩ := hcan.cases
  cases hquery
  refine ⟨callback, rest, rfl, ?_⟩
  simp only [Chain.invokeIfReady]
  cases hrun : (W.run ⟨callback.continuation, query⟩ w).outcome with
  | error e =>
    rw [QueryCallback.invoke_value_error _ _ _ _ hstatus hrun]
    simp [Chain.unfinished, QueryCallback.movedFrom]
  | ok =>
    rw [QueryCallback.invoke_value _ _ _ _ hstatus hrun]
    simp [Chain.unfinished, QueryCallback.movedFrom]

/-- A call that finds no result leaves the callback alone or throws. -/
theorem invokeIfReady_of_no_value (hcan : s.callback.CanProgress)
    (hnone : ∀ query, s.callback.future.state = some query → W.status s.world query ≠ .value ()) :
    (s.invokeIfReady W).callback = s.callback ∨ (s.invokeIfReady W).unfinished = false := by
  obtain ⟨c, w, last⟩ := s
  obtain ⟨query, callback, rest, rfl⟩ := hcan.cases
  simp only [Chain.invokeIfReady]
  cases hstatus : W.status w query with
  | pending =>
    left
    rw [QueryCallback.invoke_pending _ _ _ _ hstatus]
  | exception e =>
    right
    rw [QueryCallback.invoke_exception _ _ _ _ hstatus]
    rfl
  | value result => exact absurd hstatus (hnone query rfl)

/-- **A call that leaves the callback unfinished** did nothing, or ran the front continuation with
others behind it and spent the future. -/
theorem invokeIfReady_cases (hcan : s.callback.CanProgress)
    (hleft : (s.invokeIfReady W).unfinished = true) :
    (s.invokeIfReady W).callback = s.callback ∨ ∃ query callback rest,
      s.callback.callbacks = callback :: rest ∧ s.callback.future.state = some query ∧
      W.status s.world query = .value () ∧
      (W.run ⟨callback.continuation, query⟩ s.world).outcome = .ok () ∧ rest ≠ [] ∧
      (s.invokeIfReady W).callback.future.state = none := by
  by_cases hvalue : ∃ query, s.callback.future.state = some query ∧
      W.status s.world query = .value ()
  · right
    obtain ⟨query, hquery, hstatus⟩ := hvalue
    obtain ⟨callback, rest, hfront, hspent, -, hiff⟩ := invokeIfReady_value hcan hquery hstatus
    obtain ⟨hrun, hrest⟩ := hiff.1 hleft
    exact ⟨query, callback, rest, hfront, hquery, hstatus, hrun, hrest, hspent⟩
  · left
    obtain hsame | hdone := invokeIfReady_of_no_value (W := W) hcan
      fun query hquery hstatus => hvalue ⟨query, hquery, hstatus⟩
    · exact hsame
    · exact absurd (hdone.symm.trans hleft) Bool.false_ne_true

theorem init_canProgress (h : (chainRuns W).init s) : s.callback.CanProgress := by
  obtain ⟨prepared, query, callbacks, c, w, hne, hbuilt, rfl⟩ := h
  obtain ⟨callback, rest, rfl⟩ := List.exists_cons_of_ne_nil hne
  rw [QueryCallback.thenEach_eq_ok hbuilt]
  exact QueryCallback.canProgress_asBuilt query callback rest

/-- A step off the invariant is a call; it was unfinished before. -/
theorem chainRuns_step {a : ChainEvent σ} (h : (chainRuns W).step s a = some t) :
    (∃ w, a = .elapse w ∧ t = { s with world := w }) ∨
      a = .invokeIfReady ∧ s.unfinished = true ∧ t = s.invokeIfReady W := by
  cases a with
  | elapse w =>
    cases h
    exact .inl ⟨w, rfl, rfl⟩
  | invokeIfReady =>
    simp only [chainRuns] at h
    split at h
    · next hunfinished =>
      cases h
      exact .inr ⟨rfl, hunfinished, rfl⟩
    · cases h

theorem progressing_step {a : ChainEvent σ} (hs : s.Progressing) (hguard : OneLeft W s a)
    (h : (chainRuns W).step s a = some t) : t.Progressing := by
  obtain ⟨w, rfl, rfl⟩ | ⟨rfl, hunfinished, rfl⟩ := chainRuns_step h
  · exact hs
  · intro hleft
    obtain hsame | ⟨query, callback, rest, hfront, hquery, hstatus, hrun, hrest, -⟩ :=
      invokeIfReady_cases (hs hunfinished) hleft
    · exact hsame ▸ hs hunfinished
    · exact absurd (hguard callback rest query hfront hquery hstatus hrun) hrest

/-- Off the guard the call returns false on a future that is not `valid` any more. -/
theorem not_progressing_step {a : ChainEvent σ} (hs : s.Progressing) (hguard : ¬OneLeft W s a)
    (h : (chainRuns W).step s a = some t) : ¬t.Progressing := by
  obtain ⟨w, rfl, rfl⟩ | ⟨rfl, hunfinished, rfl⟩ := chainRuns_step h
  · exact absurd trivial hguard
  · simp only [OneLeft, not_forall] at hguard
    obtain ⟨callback, rest, query, hfront, hquery, hstatus, hrun, hrest⟩ := hguard
    obtain ⟨callback', rest', hfront', hspent, -, hiff⟩ :=
      invokeIfReady_value (hs hunfinished) hquery hstatus
    obtain ⟨rfl, rfl⟩ := List.cons.inj (hfront.symm.trans hfront')
    intro hnext
    have hvalid := (hnext (hiff.2 ⟨hrun, hrest⟩)).valid
    simp [hspent] at hvalid

/-- A callback with one continuation is finished by the call that finds the result. -/
theorem single_step {a : ChainEvent σ}
    (hs : s.unfinished = true → s.callback.CanProgress ∧ s.callback.callbacks.length = 1)
    (h : (chainRuns W).step s a = some t) :
    t.unfinished = true → t.callback.CanProgress ∧ t.callback.callbacks.length = 1 := by
  obtain ⟨w, rfl, rfl⟩ | ⟨rfl, hunfinished, rfl⟩ := chainRuns_step h
  · exact hs
  · obtain ⟨hcan, hlength⟩ := hs hunfinished
    intro hleft
    obtain hsame | ⟨query, callback, rest, hfront, -, -, -, hrest, -⟩ :=
      invokeIfReady_cases hcan hleft
    · exact hsame ▸ ⟨hcan, hlength⟩
    · rw [hfront, List.length_cons, Nat.add_eq_right, List.length_eq_zero_iff] at hlength
      exact absurd hlength hrest

/-- With a single continuation no run meets the defect. -/
theorem single_progresses (hs : (chainRuns W).init s) (hlength : s.callback.callbacks.length = 1)
    (events : List (ChainEvent σ)) : (chainRuns W).Along Chain.Progressing s events :=
  Machine.along_of_invariant (fun _ h hunfinished => (h hunfinished).1)
    (fun _ _ _ hs hstep => single_step hs hstep) fun _ => ⟨init_canProgress hs, hlength⟩

/-! ### Spent callbacks -/

/-- Between calls a callback can make progress, or its future is spent. -/
def Chain.CanProgressOrSpent (s : Chain σ ε) : Prop :=
  s.unfinished = true → s.callback.CanProgress ∨ s.callback.future.state = none

/-- Without a future a call changes nothing. -/
theorem invokeIfReady_spent (h : s.callback.future.state = none) :
    (s.invokeIfReady W).callback = s.callback ∧ (s.invokeIfReady W).world = s.world := by
  simp only [Chain.invokeIfReady, QueryCallback.invoke]
  cases s.callback.callbacks with
  | nil => exact ⟨rfl, rfl⟩
  | cons callback rest =>
    by_cases halternative : s.callback.future.prepared = s.callback.isPreparedResult
    · simp [halternative, h]
    · simp [halternative]

theorem canProgressOrSpent_step {a : ChainEvent σ} (hs : s.CanProgressOrSpent)
    (h : (chainRuns W).step s a = some t) : t.CanProgressOrSpent := by
  obtain ⟨w, rfl, rfl⟩ | ⟨rfl, hunfinished, rfl⟩ := chainRuns_step h
  · exact hs
  · intro hleft
    obtain hcan | hspent := hs hunfinished
    · obtain hsame | ⟨-, -, -, -, -, -, -, -, hspent⟩ := invokeIfReady_cases hcan hleft
      · exact .inl (hsame ▸ hcan)
      · exact .inr hspent
    · obtain ⟨hsame, -⟩ := invokeIfReady_spent (W := W) hspent
      exact .inr (hsame ▸ hspent)

theorem runsFront_of_reach (h : (chainRuns W).Reach s) : RunsFront W s := by
  have hs : s.CanProgressOrSpent := h.invariant (fun _ h0 _ => .inl (init_canProgress h0))
    fun _ _ _ hs _ hstep => canProgressOrSpent_step hs hstep
  intro query hunfinished hquery hstatus
  obtain hcan | hspent := hs hunfinished
  · obtain ⟨callback, rest, hfront, -, hrest⟩ := invokeIfReady_value hcan hquery hstatus
    exact ⟨callback, rest, hfront, hrest⟩
  · rw [hspent] at hquery
    cases hquery

/-- Unfinished, with continuations left and no future to run them on. -/
structure Chain.Stuck (s : Chain σ ε) : Prop where
  unfinished : s.unfinished = true
  spent : s.callback.future.state = none
  alternative : s.callback.future.prepared = s.callback.isPreparedResult
  left : s.callback.callbacks ≠ []

theorem Chain.Stuck.invokeIfReady (h : s.Stuck) :
    s.invokeIfReady W = { s with last := some (.ok false) } := by
  obtain ⟨callback, rest, hcallbacks⟩ := List.exists_cons_of_ne_nil h.left
  simp [Chain.invokeIfReady, QueryCallback.invoke, hcallbacks, h.alternative, h.spent]

/-- **No call finishes a stuck callback**, whatever happens around it. -/
theorem Chain.Stuck.run (h : s.Stuck) {events : List (ChainEvent σ)}
    (hrun : (chainRuns W).run s events = some t) : t.Stuck := by
  induction events generalizing s with
  | nil =>
    cases hrun
    exact h
  | cons a events ih =>
    rw [Machine.run_cons] at hrun
    obtain ⟨u, hu, hrest⟩ := Option.bind_eq_some_iff.1 hrun
    refine ih ?_ hrest
    obtain ⟨w, rfl, rfl⟩ | ⟨rfl, -, rfl⟩ := chainRuns_step hu
    · exact ⟨h.unfinished, h.spent, h.alternative, h.left⟩
    · rw [h.invokeIfReady]
      exact ⟨rfl, h.spent, h.alternative, h.left⟩

end Steps

/-- **Chains of continuations.** A call that finds the result runs the front continuation on it. In
a run of calls an unfinished callback can always make progress exactly if each call that finds the
result, and whose continuation returns, finds a single continuation. -/
theorem chain_progresses_iff {σ ε : Type} (W : QueryWorld σ ε) {s : Chain σ ε}
    (hs : (chainRuns W).init s) :
    (∀ events t, (chainRuns W).run s events = some t → RunsFront W t) ∧
      ∀ events, (chainRuns W).Along Chain.Progressing s events ↔
        (chainRuns W).Meets (OneLeft W) s events := by
  constructor
  · intro events t hrun
    exact runsFront_of_reach (Machine.reach_of_run hs hrun)
  · intro events
    have hprogressing : s.Progressing := fun _ => init_canProgress hs
    exact Machine.along_iff_meets (fun _ h => h)
      (fun _ _ _ hs hguard hstep => progressing_step hs hguard hstep)
      (fun _ _ _ hs hguard hstep => not_progressing_step hs hguard hstep) hprogressing

/-- Callbacks for query 0, whose result is there, with continuations 1, 2 and so on. -/
def withContinuations (n : Nat) : Chain (List Invocation) Unit :=
  ⟨⟨⟨false, some 0⟩, false, (List.range n).map fun i => ⟨false, i + 1⟩⟩, [], none⟩

theorem chain_progresses_single :
    (chainRuns (recording .fulfilled)).init (withContinuations 1) ∧
      ((∀ events t, (chainRuns (recording .fulfilled)).run (withContinuations 1) events =
          some t → RunsFront (recording .fulfilled) t) ∧
        ∀ events, (chainRuns (recording .fulfilled)).Along Chain.Progressing
            (withContinuations 1) events ↔
          (chainRuns (recording .fulfilled)).Meets (OneLeft (recording .fulfilled))
            (withContinuations 1) events) := by
  have hinit : (chainRuns (recording .fulfilled)).init (withContinuations 1) :=
    ⟨false, 0, [⟨false, 1⟩], _, [], List.cons_ne_nil _ _, rfl, rfl⟩
  exact ⟨hinit, chain_progresses_iff _ hinit⟩

/-- Of two continuations the first is run, and from then on the callback is stuck. -/
theorem second_continuation_stuck :
    (chainRuns (recording .fulfilled)).init (withContinuations 2) ∧
      (∃ t, (chainRuns (recording .fulfilled)).run (withContinuations 2) [.invokeIfReady] =
        some t ∧ t.world = [⟨1, 0⟩] ∧ t.Stuck) ∧
      ¬(chainRuns (recording .fulfilled)).Along Chain.Progressing (withContinuations 2)
        [.invokeIfReady] := by
  refine ⟨⟨false, 0, [⟨false, 1⟩, ⟨false, 2⟩], _, [], List.cons_ne_nil _ _, rfl, rfl⟩,
    ⟨_, rfl, rfl, rfl, rfl, rfl, List.cons_ne_nil _ _⟩, ?_⟩
  intro h
  exact absurd ((h.2 _ rfl) rfl).valid Bool.false_ne_true

end GameServer.Database
