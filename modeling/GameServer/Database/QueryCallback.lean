import GameServer.Lib.Exec
import GameServer.Lib.Machine

/-!
# `QueryCallback` and `AsyncCallbackProcessor`

A query callback holds the future of its query and the continuations to run on the result. The
processor keeps the callbacks in a vector and moves them: when the vector grows, when
`remove_if` closes the gaps behind it, and when a pass puts the callbacks that were not ready
back. Both move operations of `QueryCallback` leave the continuations behind. A broken promise and a
continuation may throw, and an exception leaves the pass.

`processor` is the machine of the registrations, completions and passes; queries are numbered in
the order in which they are registered, and a continuation has the number of its query.
-/

namespace GameServer.Database

open GameServer.Lib

/-- What `wait_for` with a duration of zero and `get` find. -/
inductive FutureStatus (α ε : Type) where
  | pending
  | value (a : α)
  | exception (e : ε)
  deriving DecidableEq, Repr

/-- What the future of each query holds, and which continuations throw. -/
structure Futures where
  status : Nat → FutureStatus Unit Unit
  throws : Nat → Bool

/-- The variant of the two future types; `state` is the query, `none` if it is not `valid`. -/
structure Future where
  prepared : Bool
  state : Option Nat
  deriving DecidableEq, Repr

/-- `QueryCallbackData`: a continuation for one of the two result types. -/
structure QueryCallbackData where
  prepared : Bool
  continuation : Nat
  deriving DecidableEq, Repr

structure QueryCallback where
  future : Future
  isPreparedResult : Bool
  callbacks : List QueryCallbackData
  deriving DecidableEq, Repr

structure Invocation where
  continuation : Nat
  query : Nat
  deriving DecidableEq, Repr

/-- What a call returns and the continuations it ran; an exception comes with those run before. -/
abbrev Invoking (α : Type) : Type := Except (Stop (List Invocation)) (α × List Invocation)

namespace QueryCallback

/-- The move constructor: `_callbacks` is not among its initializers. -/
def moveConstruct (right : QueryCallback) : QueryCallback :=
  ⟨right.future, right.isPreparedResult, []⟩

/-- Move assignment: the target keeps its own `_callbacks`. -/
def moveAssign (c right : QueryCallback) : QueryCallback :=
  { c with future := right.future, isPreparedResult := right.isPreparedResult }

def movedFrom (c : QueryCallback) : QueryCallback :=
  { c with future := { c.future with state := none } }

/-- `Then`, for the result type of the continuation. -/
def andThen (c : QueryCallback) (callback : QueryCallbackData) : Except Halt QueryCallback :=
  if !c.callbacks.isEmpty || c.isPreparedResult == callback.prepared then
    .ok { c with callbacks := c.callbacks ++ [callback] }
  else .error .abort

/-- `InvokeIfReady`: whether the callback is done, the callback after it, and what it ran. The
future was moved out, so the assertion on `valid` holds. -/
def invokeIfReady (F : Futures) (c : QueryCallback) : Invoking (Bool × QueryCallback) :=
  match c.callbacks with
  | [] => .error (.halt .fault)
  | callback :: rest =>
    if c.future.prepared ≠ c.isPreparedResult then .error (.halt .abort)
    else
      match c.future.state with
      | none => .ok ((false, c), [])
      | some query =>
        match F.status query with
        | .pending => .ok ((false, c), [])
        | .exception _ =>
          if callback.prepared ≠ c.isPreparedResult then .error (.halt .abort)
          else .error (.exception [])
        | .value _ =>
          let invoked := [⟨callback.continuation, query⟩]
          if callback.prepared ≠ c.isPreparedResult then .error (.halt .abort)
          else if F.throws callback.continuation then .error (.exception invoked)
          else .ok ((rest.isEmpty, { c.movedFrom with callbacks := rest }), invoked)

end QueryCallback

/-- The rest of a pass, behind what was run and kept before. -/
def Invoking.after (invoked : List Invocation) (first : List QueryCallback) :
    Invoking (List QueryCallback) → Invoking (List QueryCallback)
  | .ok (kept, later) => .ok (first ++ kept, invoked ++ later)
  | .error (.exception later) => .error (.exception (invoked ++ later))
  | .error (.halt h) => .error (.halt h)

/-- `std::remove_if` on a vector, with `InvokeIfReady` as the predicate, and then `erase`. The
holes are the elements already passed that later ones are assigned to, the first one first. -/
def removeIf (F : Futures) (holes : List QueryCallback) :
    List QueryCallback → Invoking (List QueryCallback)
  | [] => .ok ([], [])
  | c :: cs =>
    match c.invokeIfReady F with
    | .error stop => .error stop
    | .ok ((done, c), invoked) =>
      if done then (removeIf F (holes ++ [c]) cs).after invoked []
      else
        match holes with
        -- nothing was removed so far: the element stays where it is
        | [] => (removeIf F [] cs).after invoked [c]
        | hole :: holes =>
          (removeIf F (holes ++ [c.movedFrom]) cs).after invoked [hole.moveAssign c]

structure AsyncCallbackProcessor where
  callbacks : List QueryCallback
  capacity : Nat
  deriving DecidableEq, Repr

namespace AsyncCallbackProcessor

/-- `AddCallback(callback).Then(continuation)`. A full vector moves its elements to a new one,
with the capacity that the library's `growth` asks for. -/
def addCallbackThen (growth : Nat → Nat) (p : AsyncCallbackProcessor) (callback : QueryCallback)
    (continuation : QueryCallbackData) : Except Halt AsyncCallbackProcessor := do
  let back ← callback.moveConstruct.andThen continuation
  if p.callbacks.length < p.capacity then
    .ok { p with callbacks := p.callbacks ++ [back] }
  else
    .ok { callbacks := p.callbacks.map QueryCallback.moveConstruct ++ [back]
          capacity := max (p.callbacks.length + 1) (growth p.capacity) }

/-- The vector after its elements were stolen. -/
def stolen : AsyncCallbackProcessor := ⟨[], 0⟩

/-- `ProcessReadyCallbacks`. The vector is stolen for the pass, so what is put back is inserted
into one without capacity. An exception destroys the stolen vector with all that is in it. -/
def processReadyCallbacks (growth : Nat → Nat) (F : Futures) (p : AsyncCallbackProcessor) :
    Invoking AsyncCallbackProcessor :=
  if p.callbacks.isEmpty then .ok (p, [])
  else
    match removeIf F [] p.callbacks with
    | .error stop => .error stop
    | .ok (update, invoked) =>
      .ok ({ callbacks := update.map QueryCallback.moveConstruct
             capacity := if update.isEmpty then 0 else max update.length (growth 0) }, invoked)

end AsyncCallbackProcessor

/-! ## Runs -/

/-- The processor among its callers: how many queries were registered, which have their result and
which a broken promise, what was invoked, and whether the process stopped. -/
structure CallbackState where
  processor : AsyncCallbackProcessor
  registered : Nat
  completed : List Nat
  broken : List Nat
  invoked : List Invocation
  stopped : Option Halt
  deriving DecidableEq, Repr

namespace CallbackState

def initial : CallbackState := ⟨.stolen, 0, [], [], [], none⟩

def status (s : CallbackState) (query : Nat) : FutureStatus Unit Unit :=
  if s.completed.contains query then .value ()
  else if s.broken.contains query then .exception ()
  else .pending

def futures (s : CallbackState) (throws : Nat → Bool) : Futures := ⟨s.status, throws⟩

end CallbackState

inductive CallbackEvent where
  /-- A query, prepared or not, is registered with a continuation for its kind of result. -/
  | register (prepared : Bool)
  | complete (query : Nat)
  /-- The task of a query is destroyed before it was executed. -/
  | breakPromise (query : Nat)
  | pass
  deriving DecidableEq, Repr

/-- The machine of a processor; `throws` are the continuations that throw. What a pass throws is
caught outside of the processor, which goes on without the callbacks of that pass. -/
def processor (growth : Nat → Nat) (throws : Nat → Bool) : Machine CallbackState CallbackEvent where
  init s := s = .initial
  step s e :=
    if s.stopped.isSome then none
    else
      match e with
      | .register prepared =>
        match s.processor.addCallbackThen growth ⟨⟨prepared, some s.registered⟩, prepared, []⟩
            ⟨prepared, s.registered⟩ with
        | .ok p => some { s with processor := p, registered := s.registered + 1 }
        | .error h => some { s with stopped := some h }
      | .complete query =>
        if s.status query = .pending then some { s with completed := query :: s.completed }
        else none
      | .breakPromise query =>
        if s.status query = .pending then some { s with broken := query :: s.broken } else none
      | .pass =>
        match s.processor.processReadyCallbacks growth (s.futures throws) with
        | .ok (p, invoked) => some { s with processor := p, invoked := s.invoked ++ invoked }
        | .error (.exception invoked) =>
          some { s with processor := .stolen, invoked := s.invoked ++ invoked }
        | .error (.halt h) => some { s with stopped := some h }

end GameServer.Database
