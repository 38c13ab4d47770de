import GameServer.Lib.Machine
import Mathlib.Logic.Function.Basic

/-!
# `DatabaseWorkerPool`: locking the connections

Threads run `SyncExecute` and `SyncQuery`, which take a connection from
`GetFreeConnectionAndLock`, use it and unlock it, and `PrepareStatements`, which visits every
connection and closes the pool where the preparation of one fails. A step of the machine is one
access to a connection or to the vectors together with what the thread does up to its next one.

The connections are numbered, the asynchronous ones first. `owner` says which thread holds the
mutex of a connection. `misused` records what the code must not do: the unlock of a mutex that the
thread does not hold, the destruction of a locked one, an access to a connection that is not there
(any more), and an index modulo 0.
-/

namespace GameServer.Database

open GameServer.Lib

inductive PoolThread where
  | idle
  /-- In the loop of `GetFreeConnectionAndLock`, about to probe. -/
  | probing (connectionCount index : Nat)
  /-- It has the connection that `GetFreeConnectionAndLock` returned and did not unlock it yet. -/
  | using (connection : Nat)
  /-- In `PrepareStatements`, about to lock a connection. -/
  | visiting (connection : Nat)
  /-- In `PrepareStatements`, between the lock and the unlock of a connection. -/
  | preparing (connection : Nat)
  /-- In `PrepareStatements`, after the unlock: it reads the statements of the connection. -/
  | recording (connection : Nat)
  /-- In `PrepareStatements`, after the unlock of a connection whose preparation failed. -/
  | closing
  deriving DecidableEq, Repr

structure DatabaseWorkerPool where
  asyncCount : Nat
  syncCount : Nat
  owner : Nat → Option Nat
  threads : Nat → PoolThread
  misused : Bool

namespace DatabaseWorkerPool

def opened (asyncCount syncCount : Nat) : DatabaseWorkerPool :=
  ⟨asyncCount, syncCount, fun _ => none, fun _ => .idle, false⟩

/-- The number of connections in both vectors. -/
def total (p : DatabaseWorkerPool) : Nat := p.asyncCount + p.syncCount

def setThread (p : DatabaseWorkerPool) (t : Nat) (at' : PoolThread) : DatabaseWorkerPool :=
  { p with threads := Function.update p.threads t at' }

/-- The thread does what the code must not do; what it does next is of no interest. -/
def misuse (p : DatabaseWorkerPool) (t : Nat) : DatabaseWorkerPool :=
  { p with misused := true }.setThread t .idle

def tryLock (p : DatabaseWorkerPool) (t connection : Nat) : Bool × DatabaseWorkerPool :=
  match p.owner connection with
  | none => (true, { p with owner := Function.update p.owner connection (some t) })
  | some _ => (false, p)

def unLock (p : DatabaseWorkerPool) (t connection : Nat) : DatabaseWorkerPool :=
  { p with
    owner := Function.update p.owner connection none
    misused := p.misused || decide (p.owner connection ≠ some t) }

/-- The head of the loop `while (nullptr == pConnection)`: on with the loop, or return. -/
def loopHead (connectionCount : Nat) (pConnection : Option Nat) (index : Nat) : PoolThread :=
  match pConnection with
  | none => .probing connectionCount index
  | some connection => .using connection

/-- The connection that the probe with this index looks at. -/
def probed (p : DatabaseWorkerPool) (connectionCount index : Nat) : Nat :=
  p.asyncCount + index % connectionCount

/-- The body of the loop: `break` if the connection could be locked, else back to the head. The
number of connections was read before the loop, the vector is read now. The index is a
`uint8_t`. -/
def probe (p : DatabaseWorkerPool) (t connectionCount index : Nat) : DatabaseWorkerPool :=
  if connectionCount = 0 ∨ p.syncCount ≤ index % connectionCount then p.misuse t
  else
    let pConnection := p.probed connectionCount index
    let index := (index + 1) % 256
    let (locked, p) := p.tryLock t pConnection
    if locked then p.setThread t (.using pConnection)
    else p.setThread t (loopHead connectionCount (some pConnection) index)

/-- `PrepareStatements` comes to this position: the loop ends behind the last connection. -/
def enter (p : DatabaseWorkerPool) (t connection : Nat) : DatabaseWorkerPool :=
  p.setThread t (if connection < p.total then .visiting connection else .idle)

/-- The first half of a turn of `PrepareStatements`: the result of `TryLock` is not used. -/
def visit (p : DatabaseWorkerPool) (t connection : Nat) : DatabaseWorkerPool :=
  if connection < p.total then (p.tryLock t connection).2.setThread t (.preparing connection)
  else p.misuse t

/-- The connection's own `PrepareStatements` returned this: unlock, and go on or give up. -/
def prepared (p : DatabaseWorkerPool) (t connection : Nat) (ok : Bool) : DatabaseWorkerPool :=
  (p.unLock t connection).setThread t (if ok then .recording connection else .closing)

/-- The end of a turn: the parameter counts are read from the connection, which is not locked any
more, and the iterator moves on. -/
def recorded (p : DatabaseWorkerPool) (t connection : Nat) : DatabaseWorkerPool :=
  if connection < p.total then p.enter t (connection + 1) else p.misuse t

/-- No mutex of the pool is locked. -/
def unlocked (p : DatabaseWorkerPool) : Bool :=
  (List.range p.total).all fun connection => (p.owner connection).isNone

/-- `Close`: both vectors are cleared, which destroys the connections with their mutexes. -/
def close (p : DatabaseWorkerPool) (t : Nat) : DatabaseWorkerPool :=
  { p with
    asyncCount := 0
    syncCount := 0
    owner := fun _ => none
    misused := p.misused || !p.unlocked }.setThread t .idle

end DatabaseWorkerPool

inductive PoolEvent where
  | call (t : Nat)
  | probe (t : Nat)
  /-- It is done with its connection and unlocks it. -/
  | unLock (t : Nat)
  | prepareStatements (t : Nat)
  | visit (t : Nat)
  | prepared (t : Nat) (ok : Bool)
  | recorded (t : Nat)
  | close (t : Nat)
  deriving DecidableEq, Repr

/-- The machine of a pool whose connections were opened. -/
def pool (asyncCount syncCount : Nat) : Machine DatabaseWorkerPool PoolEvent where
  init p := p = .opened asyncCount syncCount
  step p
    | .call t =>
      match p.threads t with
      | .idle => some (p.setThread t (DatabaseWorkerPool.loopHead p.syncCount none 0))
      | _ => none
    | .probe t =>
      match p.threads t with
      | .probing connectionCount index => some (p.probe t connectionCount index)
      | _ => none
    | .unLock t =>
      match p.threads t with
      | .using connection => some ((p.unLock t connection).setThread t .idle)
      | _ => none
    | .prepareStatements t =>
      match p.threads t with
      | .idle => some (p.enter t 0)
      | _ => none
    | .visit t =>
      match p.threads t with
      | .visiting connection => some (p.visit t connection)
      | _ => none
    | .prepared t ok =>
      match p.threads t with
      | .preparing connection => some (p.prepared t connection ok)
      | _ => none
    | .recorded t =>
      match p.threads t with
      | .recording connection => some (p.recorded t connection)
      | _ => none
    | .close t =>
      match p.threads t with
      | .closing => some (p.close t)
      | _ => none

end GameServer.Database
