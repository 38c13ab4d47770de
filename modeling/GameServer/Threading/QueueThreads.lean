import Mathlib.Logic.Function.Basic
import GameServer.Lib.Machine
import GameServer.Threading.ProducerConsumerQueue

/-!
# Threads on one `ProducerConsumerQueue`

Any number of threads call `Push`, `Pop`, `WaitAndPop()` and `Clear`. A step is one statement of
a call: taking the lock of the queue, one access to the queue under it, a notification, or the
unlock; `Clear` deletes one element a step. A thread that waits has given the lock back and takes
it again once it is woken.

`history` records in order what happened to the elements; the code does not read it. An element
is the value that was pushed together with the number of its push, so that two pushes of the same
pointer are told apart.
-/

namespace GameServer.Threading

open GameServer.Lib

inductive QueueCall (α : Type) where
  | push (value : α)
  | pop
  | waitAndPop
  | clear
  deriving DecidableEq, Repr

/-- Where a thread is. -/
inductive QueuePlace (α : Type) where
  | idle
  /-- About to take the lock. -/
  | locking (call : QueueCall α)
  /-- In `Push`, before the push and before `notify_one`. -/
  | pushing (value : α)
  | notifying
  | popping
  /-- In `WaitAndPop()`, about to test the wait condition. -/
  | testing
  /-- In the wait, without the lock. -/
  | waiting (notified : Bool)
  /-- In `WaitAndPop()`, after the wait. -/
  | taking
  /-- At the head of the loop of `Clear`, and after it. -/
  | clearing
  | closing
  /-- About to unlock and to return. -/
  | unlocking
  deriving DecidableEq, Repr

/-- What happened to an element. -/
inductive Happening (α : Type) where
  | pushed (element : Nat × α)
  | delivered (t : Nat) (element : Nat × α)
  | deleted (element : Nat × α)
  /-- A `Clear` has the lock. -/
  | cleared
  deriving DecidableEq, Repr

namespace Happening

variable {α : Type}

def pushedOf (history : List (Happening α)) : List (Nat × α) :=
  history.filterMap fun
    | pushed element => some element
    | _ => none

/-- The elements with the threads that they were delivered to. -/
def deliveredOf (history : List (Happening α)) : List (Nat × (Nat × α)) :=
  history.filterMap fun
    | delivered t element => some (t, element)
    | _ => none

def deletedOf (history : List (Happening α)) : List (Nat × α) :=
  history.filterMap fun
    | deleted element => some element
    | _ => none

end Happening

structure QueueSystem (α : Type) where
  owner : Option Nat
  queue : ProducerConsumerQueue (Nat × α)
  threads : Nat → QueuePlace α
  history : List (Happening α)

namespace QueueSystem

variable {α : Type}

def initial : QueueSystem α := ⟨none, .empty, fun _ => .idle, []⟩

def moveTo (s : QueueSystem α) (t : Nat) (place : QueuePlace α) : QueueSystem α :=
  { s with threads := Function.update s.threads t place }

/-- Takes the lock, if it is free. -/
def lock (s : QueueSystem α) (t : Nat) (place : QueuePlace α) : Option (QueueSystem α) :=
  match s.owner with
  | none => some ({ s with owner := some t }.moveTo t place)
  | some _ => none

/-- Gives the lock back. -/
def unlock (s : QueueSystem α) (t : Nat) (place : QueuePlace α) : QueueSystem α :=
  { s with owner := none }.moveTo t place

def record (s : QueueSystem α) (happening : Happening α) : QueueSystem α :=
  { s with history := s.history ++ [happening] }

/-- The place after the lock was taken for a call. -/
def entry : QueueCall α → QueuePlace α
  | .push value => .pushing value
  | .pop => .popping
  | .waitAndPop => .testing
  | .clear => .clearing

/-- `notify_one`: a thread that waits is woken. That it wakes one whenever one waits is not
needed here, so it may also wake none. -/
def notifyOne (s : QueueSystem α) (woken : Option Nat) : Option (QueueSystem α) :=
  match woken with
  | none => some s
  | some u =>
    match s.threads u with
    | .waiting _ => some (s.moveTo u (.waiting true))
    | _ => none

def notify : QueuePlace α → QueuePlace α
  | .waiting _ => .waiting true
  | place => place

/-- The end of `Pop` and of `WaitAndPop()`: the front, unless there is none or the queue is shut
down. -/
def take (s : QueueSystem α) (t : Nat) : QueueSystem α :=
  match s.queue.pop with
  | (none, _) => s.moveTo t .unlocking
  | (some element, queue) =>
    ({ s with queue }.record (.delivered t element)).moveTo t .unlocking

/-- One turn of the loop of `Clear`. -/
def clearFront (s : QueueSystem α) (t : Nat) : QueueSystem α :=
  match s.queue.queue with
  | [] => s.moveTo t .closing
  | element :: rest =>
    { s with queue := { s.queue with queue := rest } }.record (.deleted element)

def push (s : QueueSystem α) (t : Nat) (value : α) : QueueSystem α :=
  let element := ((Happening.pushedOf s.history).length, value)
  ({ s with queue := s.queue.push element }.record (.pushed element)).moveTo t .notifying

/-- The end of `Clear`: the flag is raised and all threads are woken. -/
def close (s : QueueSystem α) (t : Nat) : QueueSystem α :=
  { s with
    queue := { s.queue with shutdown := true }
    threads := fun u => notify (s.threads u) }.moveTo t .unlocking

/-- The next statement of the thread `t`. -/
def advance (s : QueueSystem α) (t : Nat) (woken : Option Nat) : Option (QueueSystem α) :=
  match s.threads t with
  | .idle => none
  | .locking .clear => (s.lock t .clearing).map fun s => s.record .cleared
  | .locking call => s.lock t (entry call)
  | .pushing value => some (s.push t value)
  | .notifying => (s.notifyOne woken).map fun s => s.moveTo t .unlocking
  | .popping => some (s.take t)
  | .testing =>
    if s.queue.waitCondition then some (s.moveTo t .taking)
    else some (s.unlock t (.waiting false))
  | .waiting notified => if notified then s.lock t .testing else none
  | .taking => some (s.take t)
  | .clearing => some (s.clearFront t)
  | .closing => some (s.close t)
  | .unlocking => some (s.unlock t .idle)

end QueueSystem

inductive QueueEvent (α : Type) where
  | call (t : Nat) (call : QueueCall α)
  /-- The next statement of a thread; `woken` is whom its `notify_one` wakes. -/
  | advance (t : Nat) (woken : Option Nat)
  /-- A thread wakes up without a notification. -/
  | wakeSpuriously (t : Nat)
  deriving DecidableEq, Repr

def queueThreads (α : Type) : Machine (QueueSystem α) (QueueEvent α) where
  init s := s = .initial
  step s
    | .call t call =>
      match s.threads t with
      | .idle => some (s.moveTo t (.locking call))
      | _ => none
    | .advance t woken => s.advance t woken
    | .wakeSpuriously t =>
      match s.threads t with
      | .waiting _ => some (s.moveTo t (.waiting true))
      | _ => none

end GameServer.Threading
