import GameServer.Lib.Machine
import GameServer.Threading.ProducerConsumerQueue

/-!
# `DatabaseWorker`

Worker threads share one queue of tasks. Each loops over `WaitAndPop()`; its destructor, run by
`IMySqlConnection::Close`, raises the cancel flag, clears the queue and joins the thread. The
machine interleaves the workers with the producers, other consumers and the destructors.

A thread that waits sleeps until it is notified, or wakes up spuriously; it then looks at the
wait condition again.
-/

namespace GameServer.Database

open GameServer.Lib GameServer.Threading

/-- Where the thread is in `WorkThread`. A task pointer may be null. -/
inductive WorkerPlace where
  /-- About to call `WaitAndPop()`. -/
  | top
  | waiting (notified : Bool)
  /-- `WaitAndPop()` has returned. -/
  | holding (operation : Option Nat)
  | executing (operation : Nat)
  | exited
  deriving DecidableEq, Repr

inductive DestructorPlace where
  | notCalled
  /-- The cancel flag is set. -/
  | clearing
  | joining
  | joined
  deriving DecidableEq, Repr

structure DatabaseWorker where
  place : WorkerPlace
  canceling : Bool
  destructor : DestructorPlace
  deriving DecidableEq, Repr

namespace WorkerPlace

def isWaiting : WorkerPlace → Bool
  | waiting _ => true
  | _ => false

def notify : WorkerPlace → WorkerPlace
  | waiting _ => waiting true
  | place => place

end WorkerPlace

structure WorkerSystem where
  queue : ProducerConsumerQueue (Option Nat)
  workers : List DatabaseWorker
  deriving DecidableEq, Repr

namespace WorkerSystem

def started (n : Nat) : WorkerSystem :=
  ⟨.empty, List.replicate n ⟨.top, false, .notCalled⟩⟩

def setWorker (s : WorkerSystem) (t : Nat) (w : DatabaseWorker) : WorkerSystem :=
  { s with workers := s.workers.set t w }

/-- `notify_one`: a thread that sleeps, if there is one. -/
def notifyOne (s : WorkerSystem) (woken : Option Nat) : Option WorkerSystem :=
  match woken with
  | none => if s.workers.all fun w => w.place ≠ .waiting false then some s else none
  | some t =>
    match s.workers[t]? with
    | none => none
    | some w =>
      if w.place = .waiting false then some (s.setWorker t { w with place := .waiting true })
      else none

def notifyAll (s : WorkerSystem) : WorkerSystem :=
  { s with workers := s.workers.map fun w => { w with place := w.place.notify } }

def clear (s : WorkerSystem) : WorkerSystem := { s with queue := s.queue.clear }.notifyAll

/-- The test of the wait condition: the thread takes its value and leaves, or goes to sleep. -/
def testWait (s : WorkerSystem) (t : Nat) (w : DatabaseWorker) : WorkerSystem :=
  if s.queue.waitCondition then
    let (operation, queue) := s.queue.popWaited
    { s with queue }.setWorker t { w with place := .holding operation }
  else s.setWorker t { w with place := .waiting false }

def workThread (s : WorkerSystem) (t : Nat) (w : DatabaseWorker) : Option WorkerSystem :=
  match w.place with
  | .top => some (s.testWait t w)
  | .waiting notified => if notified then some (s.testWait t w) else none
  | .holding none => some (s.setWorker t { w with place := .exited })
  | .holding (some operation) =>
    some (s.setWorker t { w with
      place := if w.canceling then .exited else .executing operation })
  | .executing _ => some (s.setWorker t { w with place := .top })
  | .exited => none

def destroy (s : WorkerSystem) (t : Nat) (w : DatabaseWorker) : Option WorkerSystem :=
  match w.destructor with
  | .notCalled => some (s.setWorker t { w with canceling := true, destructor := .clearing })
  | .clearing => some (s.setWorker t { w with destructor := .joining }).clear
  | .joining =>
    if w.place = .exited then some (s.setWorker t { w with destructor := .joined }) else none
  | .joined => none

end WorkerSystem

inductive WorkerEvent where
  /-- A task is pushed, and this thread is notified. -/
  | push (operation : Option Nat) (woken : Option Nat)
  | pop
  | work (t : Nat)
  /-- A thread wakes up without a notification. -/
  | wakeSpuriously (t : Nat)
  | destroy (t : Nat)
  /-- `DatabaseWorkerPool::~DatabaseWorkerPool` clears the queue. -/
  | clear
  deriving DecidableEq, Repr

def workerMachine (n : Nat) : Machine WorkerSystem WorkerEvent where
  init s := s = .started n
  step s
    | .push operation woken => { s with queue := s.queue.push operation }.notifyOne woken
    | .pop => some { s with queue := s.queue.pop.2 }
    | .work t =>
      match s.workers[t]? with
      | none => none
      | some w => s.workThread t w
    | .wakeSpuriously t =>
      match s.workers[t]? with
      | none => none
      | some w =>
        if w.place.isWaiting then some (s.setWorker t { w with place := w.place.notify }) else none
    | .destroy t =>
      match s.workers[t]? with
      | none => none
      | some w => s.destroy t w
    | .clear => some s.clear

end GameServer.Database
