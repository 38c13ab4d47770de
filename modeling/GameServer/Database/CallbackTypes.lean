import GameServer.Util.CallbackPasses
import GameServer.Database.QueryCallback

/-!
# The callbacks of the database

`TransactionCallback` and `QueryCallback` as `Callback` types of the processor. Their
`InvokeIfReady` looks at the future, takes its result and runs a continuation on it; `get` throws
where the promise was given an exception or was broken, and a continuation may throw too.

The moves of `TransactionCallback` are the default ones. For `QueryCallback` the passes of the
processor are those of `AsyncCallbackProcessor`, as far as no continuation adds callbacks
(`processReadyCallbacks_recording`).
-/

namespace GameServer.Database

open GameServer.Lib GameServer.Lib.Exec GameServer.Util

/-- What a continuation does: whether it returns, what it adds to the processor, and the world
after it. -/
structure Ran (κ σ ε : Type) where
  outcome : Except ε Unit
  added : List κ
  world : σ

/-! ## `TransactionCallback` -/

structure TransactionCallback where
  /-- The transaction, `none` if the future is not `valid`. -/
  future : Option Nat
  /-- The continuation, `none` for an empty function. -/
  callback : Option Nat
  deriving DecidableEq, Repr

structure TransactionWorld (σ ε : Type) where
  status : σ → Nat → FutureStatus Bool ε
  run : (continuation : Nat) → (success : Bool) → σ → Ran TransactionCallback σ ε
  /-- What calling an empty function throws. -/
  badFunctionCall : ε

namespace TransactionCallback

/-- `Then`. -/
def andThen (c : TransactionCallback) (callback : Nat) : TransactionCallback :=
  { c with callback := some callback }

/-- The default moves. -/
def moves : Moves TransactionCallback where
  construct right := right
  assign _ right := right
  source _ := ⟨none, none⟩

theorem moves_whole : moves.Whole := ⟨fun _ => rfl, fun _ _ => rfl⟩

def invokeIfReady {σ ε : Type} (W : TransactionWorld σ ε) (c : TransactionCallback) (w : σ) :
    Invoked TransactionCallback σ ε :=
  match c.future with
  | none => ⟨.ok false, c, [], w⟩
  | some transaction =>
    match W.status w transaction with
    | .pending => ⟨.ok false, c, [], w⟩
    | .exception e => ⟨.error (.exception e), { c with future := none }, [], w⟩
    | .value success =>
      match c.callback with
      | none => ⟨.error (.exception W.badFunctionCall), { c with future := none }, [], w⟩
      | some continuation =>
        let r := W.run continuation success w
        match r.outcome with
        | .ok _ => ⟨.ok true, { c with future := none }, r.added, r.world⟩
        | .error e => ⟨.error (.exception e), { c with future := none }, r.added, r.world⟩

end TransactionCallback

def transactionCallbackType {σ ε : Type} (W : TransactionWorld σ ε) :
    CallbackType TransactionCallback σ ε :=
  ⟨TransactionCallback.moves, TransactionCallback.invokeIfReady W⟩

/-- A world that knows which transactions have succeeded so far; continuation 1 adds a callback for
transaction 7, the others do nothing. -/
def succeeding : TransactionWorld (List Nat) Unit where
  status succeeded transaction := if succeeded.contains transaction then .value true else .pending
  run continuation _ w := ⟨.ok (), if continuation = 1 then [⟨some 7, some 2⟩] else [], w⟩
  badFunctionCall := ()

/-- Two transactions, the first of which has succeeded: its callback is called and adds another. -/
theorem transactionCallbacks_passedOnce :
    ∃ s, (callbackRuns (transactionCallbackType succeeding) (2 * ·)).Reach s ∧
      s.callbacks.elements.map Registration.callback = [⟨some 5, some 1⟩, ⟨some 6, some 2⟩] ∧
      Conserved s ∧ ∃ t results added,
        (callbackRuns (transactionCallbackType succeeding) (2 * ·)).step s .processReadyCallbacks =
          some t ∧ PassedOnce (transactionCallbackType succeeding) s t results added := by
  set runs := callbackRuns (transactionCallbackType succeeding) (2 * ·)
  have hrun : ∃ s, runs.run (.initial [5]) [.addCallback ⟨some 5, some 1⟩,
      .addCallback ⟨some 6, some 2⟩] = some s ∧
      s.callbacks.elements.map Registration.callback = [⟨some 5, some 1⟩, ⟨some 6, some 2⟩] ∧
      Returning (transactionCallbackType succeeding) s.callbacks.elements s.world :=
    ⟨_, rfl, rfl, ⟨true, rfl⟩, ⟨false, rfl⟩, trivial⟩
  obtain ⟨s, hs, hcallbacks, hreturning⟩ := hrun
  have hreach : runs.Reach s := Machine.reach_of_run ⟨_, rfl⟩ hs
  obtain ⟨hconserved, -, hends⟩ := callbackRuns_passedOnce (transactionCallbackType succeeding)
    TransactionCallback.moves_whole (2 * ·) hreach
  exact ⟨s, hreach, hcallbacks, hconserved, hends hreturning⟩

/-! ## `QueryCallback` -/

structure QueryWorld (σ ε : Type) where
  /-- The result of a query is known by the number of the query. -/
  status : σ → Nat → FutureStatus Unit ε
  run : Invocation → σ → Ran QueryCallback σ ε

namespace QueryCallback

def moves : Moves QueryCallback := ⟨moveConstruct, moveAssign, movedFrom⟩

/-- `InvokeIfReady`. The future is moved out before its result is taken, and the continuation before
it is called, so an exception leaves a callback without a future. -/
def invoke {σ ε : Type} (W : QueryWorld σ ε) (c : QueryCallback) (w : σ) :
    Invoked QueryCallback σ ε :=
  match c.callbacks with
  | [] => ⟨.error (.halt .fault), c, [], w⟩
  | callback :: rest =>
    if c.future.prepared ≠ c.isPreparedResult then ⟨.error (.halt .abort), c, [], w⟩
    else
      match c.future.state with
      | none => ⟨.ok false, c, [], w⟩
      | some query =>
        match W.status w query with
        | .pending => ⟨.ok false, c, [], w⟩
        | .exception e =>
          if callback.prepared ≠ c.isPreparedResult then ⟨.error (.halt .abort), c, [], w⟩
          else ⟨.error (.exception e), c.movedFrom, [], w⟩
        | .value _ =>
          if callback.prepared ≠ c.isPreparedResult then ⟨.error (.halt .abort), c, [], w⟩
          else
            let r := W.run ⟨callback.continuation, query⟩ w
            match r.outcome with
            | .ok _ =>
              ⟨.ok rest.isEmpty, { c.movedFrom with callbacks := rest }, r.added, r.world⟩
            | .error e => ⟨.error (.exception e), c.movedFrom, r.added, r.world⟩

end QueryCallback

def queryCallbackType {σ ε : Type} (W : QueryWorld σ ε) : CallbackType QueryCallback σ ε :=
  ⟨QueryCallback.moves, QueryCallback.invoke W⟩

/-! ### The processor of query callbacks -/

/-- Continuations that add nothing; the world is the list of the invocations. -/
def recording (F : Futures) : QueryWorld (List Invocation) Unit where
  status _ query := F.status query
  run invocation invoked :=
    ⟨if F.throws invocation.continuation then .error () else .ok (), [], invoked ++ [invocation]⟩

/-- Every query has its result, and no continuation throws. -/
def Futures.fulfilled : Futures := ⟨fun _ => .value (), fun _ => false⟩

section Recording

variable {F : Futures} {growth : Nat → Nat}

/-- A call in a world of which the invocations `w` were made before. -/
def Invoking.recorded (w : List Invocation) (c : QueryCallback) :
    Invoking (Bool × QueryCallback) → Except (Stop Unit) Bool × QueryCallback × List Invocation
  | .ok ((done, c'), invoked) => (.ok done, c', w ++ invoked)
  | .error (.exception invoked) => (.error (.exception ()), c.movedFrom, w ++ invoked)
  | .error (.halt h) => (.error (.halt h), c, w)

theorem invoke_recording (F : Futures) (c : QueryCallback) (w : List Invocation) :
    c.invoke (recording F) w =
      let r := (c.invokeIfReady F).recorded w c
      ⟨r.1, r.2.1, [], r.2.2⟩ := by
  unfold QueryCallback.invoke QueryCallback.invokeIfReady
  cases c.callbacks with
  | nil => rfl
  | cons callback rest =>
    by_cases hkind : c.future.prepared = c.isPreparedResult
    · simp only [hkind, ne_eq, not_true, if_false]
      cases c.future.state with
      | none => simp [Invoking.recorded]
      | some query =>
        by_cases hfront : callback.prepared = c.isPreparedResult
        · cases hstatus : F.status query with
          | pending => simp [recording, hstatus, Invoking.recorded]
          | exception e => simp [recording, hstatus, hfront, Invoking.recorded]
          | value a =>
            by_cases hthrows : F.throws callback.continuation = true
            · simp [recording, hstatus, hfront, hthrows, Invoking.recorded]
            · simp [recording, hstatus, hfront, hthrows, Invoking.recorded]
        · cases hstatus : F.status query with
          | pending => simp [recording, hstatus, Invoking.recorded]
          | exception e => simp [recording, hstatus, hfront, Invoking.recorded]
          | value a => simp [recording, hstatus, hfront, Invoking.recorded]
    · simp [hkind, Invoking.recorded]

abbrev RecordingPass : Type → Type :=
  EStateM (Stop Unit) (Processing QueryCallback (List Invocation))

variable {s u : Processing QueryCallback (List Invocation)}

theorem poll_recording_ok {c : Registration QueryCallback} {done : Bool} {c' : QueryCallback}
    {invoked : List Invocation} (h : c.callback.invokeIfReady F = .ok ((done, c'), invoked)) :
    poll (queryCallbackType (recording F)) growth c s =
      .ok (done, { c with callback := c' })
        { s with
          world := s.world ++ invoked
          polls := s.polls ++ [⟨c.number, some done⟩] } := by
  have hinvoke := invoke_recording F c.callback s.world
  rw [h] at hinvoke
  simp only [poll, queryCallbackType, hinvoke, Invoking.recorded, List.foldl_nil]

/-- The two models of `remove_if` keep the same callbacks and run the same continuations, or stop
for the same reason. -/
inductive SameRemoval (s : Processing QueryCallback (List Invocation)) :
    Invoking (List QueryCallback) →
      EStateM.Result (Stop Unit) (Processing QueryCallback (List Invocation))
        (List (Registration QueryCallback)) → Prop
  | ok {kept : List (Registration QueryCallback)} {invoked : List Invocation}
      {t : Processing QueryCallback (List Invocation)} (hworld : t.world = s.world ++ invoked)
      (hcallbacks : t.callbacks = s.callbacks) :
      SameRemoval s (.ok (kept.map Registration.callback, invoked)) (.ok kept t)
  | exception {invoked : List Invocation} {t : Processing QueryCallback (List Invocation)}
      (hworld : t.world = s.world ++ invoked) (hcallbacks : t.callbacks = s.callbacks) :
      SameRemoval s (.error (.exception invoked)) (.error (.exception ()) t)
  | halt {h : Halt} {t : Processing QueryCallback (List Invocation)} :
      SameRemoval s (.error (.halt h)) (.error (.halt h) t)

/-- The call that stops the pass. -/
theorem poll_recording_error (growth : Nat → Nat)
    (s : Processing QueryCallback (List Invocation)) {c : Registration QueryCallback}
    {stop : Stop (List Invocation)} (hstop : c.callback.invokeIfReady F = .error stop) :
    ∃ e t, poll (queryCallbackType (recording F)) growth c s = .error e t ∧
      SameRemoval s (.error stop) (.error e t) := by
  have hinvoke := invoke_recording F c.callback s.world
  rw [hstop] at hinvoke
  cases stop with
  | halt h =>
    refine ⟨.halt h, { s with polls := s.polls ++ [⟨c.number, none⟩] }, ?_, .halt⟩
    simp only [poll, queryCallbackType, hinvoke, Invoking.recorded, List.foldl_nil]
  | exception invoked =>
    refine ⟨.exception (), { s with
      world := s.world ++ invoked, polls := s.polls ++ [⟨c.number, none⟩] }, ?_, .exception rfl rfl⟩
    simp only [poll, queryCallbackType, hinvoke, Invoking.recorded, List.foldl_nil]

/-- What is kept is put behind what was kept before. -/
theorem SameRemoval.bind {r : Invoking (List QueryCallback)}
    {x : RecordingPass (List (Registration QueryCallback))} (h : SameRemoval u r (x u))
    {invoked : List Invocation} (hworld : u.world = s.world ++ invoked)
    (hcallbacks : u.callbacks = s.callbacks) (first : List (Registration QueryCallback)) :
    SameRemoval s (r.after invoked (first.map Registration.callback))
      ((x >>= fun kept => pure (first ++ kept)) u) := by
  generalize hx : x u = result at h
  cases h with
  | ok hworld' hcallbacks' =>
    rw [bind_of_ok hx, pure_apply, Invoking.after, ← List.map_append]
    refine .ok ?_ (hcallbacks'.trans hcallbacks)
    rw [hworld', hworld, List.append_assoc]
  | exception hworld' hcallbacks' =>
    rw [bind_of_error hx, Invoking.after]
    refine .exception ?_ (hcallbacks'.trans hcallbacks)
    rw [hworld', hworld, List.append_assoc]
  | halt =>
    rw [bind_of_error hx]
    exact .halt

theorem removeIf_recording (F : Futures) (growth : Nat → Nat)
    (holes cs : List (Registration QueryCallback)) :
    SameRemoval s
      (Database.removeIf F (holes.map Registration.callback) (cs.map Registration.callback))
      (Lib.removeIf (queryCallbackType (recording F)).registrationMoves
        (poll (queryCallbackType (recording F)) growth) holes cs s) := by
  induction cs generalizing holes s with
  | nil =>
    change SameRemoval s (.ok (([] : List (Registration QueryCallback)).map Registration.callback,
      [])) (.ok [] s)
    exact .ok (List.append_nil _).symm rfl
  | cons c cs ih =>
    rw [List.map_cons, Database.removeIf, Lib.removeIf]
    cases hinvoke : c.callback.invokeIfReady F with
    | error stop =>
      obtain ⟨e, t, ht, hsame⟩ := poll_recording_error growth s hinvoke
      rw [bind_of_error ht]
      cases hsame with
      | exception hworld hcallbacks => exact .exception hworld hcallbacks
      | halt => exact .halt
    | ok r =>
      obtain ⟨⟨done, c'⟩, invoked⟩ := r
      rw [bind_of_ok (poll_recording_ok hinvoke)]
      have hrest := fun holes => ih (s := { s with
        world := s.world ++ invoked
        polls := s.polls ++ [⟨c.number, some done⟩] }) holes
      cases done with
      | true =>
        have hnext := (hrest (holes ++ [{ c with callback := c' }])).bind (s := s) rfl rfl []
        simp only [List.map_append, List.map_cons, List.map_nil, List.nil_append,
          bind_pure] at hnext
        exact hnext
      | false =>
        cases holes with
        | nil =>
          exact (hrest []).bind (s := s) rfl rfl [{ c with callback := c' }]
        | cons hole holes =>
          have hnext := (hrest (holes ++ [{ c with callback := c'.movedFrom }])).bind (s := s) rfl
            rfl [{ c with callback := hole.callback.moveAssign c' }]
          simp only [List.map_append, List.map_cons, List.map_nil] at hnext
          exact hnext

/-- The vector of the processor, without the numbers. -/
def toProcessor (s : Processing QueryCallback (List Invocation)) : AsyncCallbackProcessor :=
  ⟨s.callbacks.elements.map Registration.callback, s.callbacks.capacity⟩

/-- **Passes of query callbacks.** A pass that puts its callbacks back is a pass of
`AsyncCallbackProcessor`, and runs the same continuations. -/
theorem processReadyCallbacks_recording {t : Processing QueryCallback (List Invocation)}
    (h : processReadyCallbacks (queryCallbackType (recording F)) growth s = .ok ⟨⟩ t) :
    ∃ invoked, (toProcessor s).processReadyCallbacks growth F = .ok (toProcessor t, invoked) ∧
      t.world = s.world ++ invoked := by
  unfold processReadyCallbacks at h
  rw [get_bind] at h
  unfold AsyncCallbackProcessor.processReadyCallbacks
  cases helements : s.callbacks.elements with
  | nil =>
    simp only [helements, List.isEmpty_nil, if_true] at h
    cases h
    refine ⟨[], ?_, (List.append_nil _).symm⟩
    simp [toProcessor, helements]
  | cons c cs =>
    simp only [helements, List.isEmpty_cons, Bool.false_eq_true, if_false, modify_bind] at h
    obtain ⟨kept, u, hu, hinsert⟩ := bind_eq_ok.1 h
    have hsame := removeIf_recording F growth (s := { s with callbacks := .stolen }) [] (c :: cs)
    rw [hu, List.map_nil] at hsame
    have hprocessor : (toProcessor s).callbacks = (c :: cs).map Registration.callback :=
      congrArg _ helements
    rw [hprocessor, if_neg (by simp)]
    generalize Database.removeIf F [] ((c :: cs).map Registration.callback) = r at hsame ⊢
    cases hsame with
    | ok hworld hcallbacks =>
      cases hinsert
      refine ⟨_, ?_, hworld⟩
      have hmoves : (QueryCallback.moveConstruct ∘ Registration.callback) = Registration.callback ∘
          (queryCallbackType (recording F)).registrationMoves.construct := rfl
      simp only [toProcessor, hcallbacks, MoveVector.insertEnd, MoveVector.stolen, List.map_map,
        hmoves]
      by_cases hnil : kept = []
      · simp [hnil]
      · have hpos : 0 < kept.length := List.length_pos_iff.2 hnil
        simp [hnil, Nat.not_le_of_lt hpos]

/-- A pass that an exception leaves is left by one there too, and has run the same continuations. -/
theorem processReadyCallbacks_recording_exception
    {t : Processing QueryCallback (List Invocation)}
    (h : processReadyCallbacks (queryCallbackType (recording F)) growth s =
      .error (.exception ()) t) :
    ∃ invoked, (toProcessor s).processReadyCallbacks growth F = .error (.exception invoked) ∧
      toProcessor t = .stolen ∧ t.world = s.world ++ invoked := by
  unfold processReadyCallbacks at h
  rw [get_bind] at h
  unfold AsyncCallbackProcessor.processReadyCallbacks
  cases helements : s.callbacks.elements with
  | nil =>
    simp only [helements, List.isEmpty_nil, if_true] at h
    cases h
  | cons c cs =>
    simp only [helements, List.isEmpty_cons, Bool.false_eq_true, if_false, modify_bind] at h
    have hsame := removeIf_recording F growth (s := { s with callbacks := .stolen }) [] (c :: cs)
    have hprocessor : (toProcessor s).callbacks = (c :: cs).map Registration.callback :=
      congrArg _ helements
    rw [hprocessor, if_neg (by simp)]
    rw [List.map_nil] at hsame
    rcases bind_eq_error.1 h with hu | ⟨kept, u, -, hinsert⟩
    · rw [hu] at hsame
      generalize Database.removeIf F [] ((c :: cs).map Registration.callback) = r at hsame ⊢
      cases hsame with
      | exception hworld hcallbacks =>
        refine ⟨_, rfl, ?_, hworld⟩
        rw [toProcessor, hcallbacks]
        rfl
    · cases hinsert

end Recording

end GameServer.Database
