import GameServer.Lib.Machine
import GameServer.Threading.ProducerConsumerQueue
import GameServer.Database.MySqlClient

/-!
# Who deletes a prepared statement

`GetPreparedStatement` hands out a raw pointer. The client passes it to the pool or appends it to
a transaction, and from then on a pool method, the destructor of a task, or the clean-up of a
transaction is to delete it.

A statement is named by the number of the call that made it, a transaction by its place in
`transactions`. The client and the tasks share a transaction; with the last pointer to it the
transaction is destroyed. `deleted` records each `delete`. A call of the client and the destruction
of a task are one step each; the steps of client and workers interleave.

`CleanUp` takes no lock. A task that fails reads the flag and the pointers in one step (`execute`)
and deletes, clears and sets the flag in a later one (`finishCleanUp`), on what it has read; so two
clean-ups of one transaction that overlap delete its statements twice. The queries of a transaction
are not guarded against other threads either: `Apart` is what a run without data races on them does.
-/

namespace GameServer.Database

open GameServer.Lib GameServer.Threading

/-! ## Transactions -/

/-- An element of `_queries`: a text, or the pointer to a statement. -/
inductive QueryElement where
  | text (sql : String)
  | prepared (pStmt : Nat)
  deriving DecidableEq, Repr

def QueryElement.statement : QueryElement → Option Nat
  | text _ => none
  | prepared pStmt => some pStmt

structure TransactionBase where
  queries : List QueryElement
  cleanUp : Bool
  deriving DecidableEq, Repr

namespace TransactionBase

def empty : TransactionBase := ⟨[], false⟩

/-- The statements that `_queries` points to. -/
def statements (t : TransactionBase) : List Nat := t.queries.filterMap QueryElement.statement

def append (t : TransactionBase) (sql : String) : TransactionBase :=
  { t with queries := t.queries ++ [.text sql] }

def appendPreparedStatement (t : TransactionBase) (pStmt : Nat) : TransactionBase :=
  { t with queries := t.queries ++ [.prepared pStmt] }

/-- The whole of `CleanUp`: the statements it deletes, and the transaction after it. -/
def cleanedUp (t : TransactionBase) : List Nat × TransactionBase :=
  if t.cleanUp then ([], t) else (t.statements, ⟨[], true⟩)

end TransactionBase

/-- A transaction, and how many pointers to it the client and the tasks hold. -/
structure SharedTransaction where
  transaction : TransactionBase
  clientRefs : Nat
  taskRefs : Nat
  deriving DecidableEq, Repr

namespace SharedTransaction

/-- `CleanUp` without another thread in between. -/
def cleanedUp (tr : SharedTransaction) : List Nat × SharedTransaction :=
  let (deleted, transaction) := tr.transaction.cleanedUp
  (deleted, { tr with transaction })

/-- `~TransactionBase`, if no pointer is left. -/
def destructed (tr : SharedTransaction) : List Nat × SharedTransaction :=
  if tr.clientRefs = 0 ∧ tr.taskRefs = 0 then tr.cleanedUp else ([], tr)

/-- The second half of `CleanUp`, on the pointers that the first half has read. -/
def emptied (pStmts : List Nat) (tr : SharedTransaction) : List Nat × SharedTransaction :=
  (pStmts, { tr with transaction := ⟨[], true⟩ })

/-- The client lets a pointer go. -/
def clientReleased (tr : SharedTransaction) : List Nat × SharedTransaction :=
  { tr with clientRefs := tr.clientRefs - 1 }.destructed

/-- A task that holds a pointer is destroyed. -/
def taskReleased (tr : SharedTransaction) : List Nat × SharedTransaction :=
  { tr with taskRefs := tr.taskRefs - 1 }.destructed

end SharedTransaction

/-! ## Tasks -/

inductive SqlTask where
  /-- `ADHOCQueryTask`. -/
  | adhocQuery (sql : String) (hasResult : Bool)
  /-- `PreparedQueryTask`. -/
  | preparedQuery (pStmt : Nat) (hasResult : Bool)
  /-- `TransactionTask`, or `TransactionWithResultTask`. -/
  | transaction (pTransaction : Nat) (withResult : Bool)
  deriving DecidableEq, Repr

/-- The transactions that a task points to. -/
def SqlTask.pointers : SqlTask → List Nat
  | transaction pTransaction _ => [pTransaction]
  | _ => []

/-- Where a worker is with its task. -/
inductive TaskPhase where
  | waiting
  /-- In `Execute`. -/
  | running
  /-- In `CleanUp`, which has found the flag unset, and these statements. -/
  | cleaning (pStmts : List Nat)
  | executed
  deriving DecidableEq, Repr

/-- A task that a worker popped. -/
structure PoppedTask where
  task : SqlTask
  phase : TaskPhase
  deriving DecidableEq, Repr

namespace PoppedTask

/-- The transaction that it cleans up. -/
def cleans (p : PoppedTask) : List Nat :=
  match p.phase with
  | .cleaning _ => p.task.pointers
  | _ => []

/-- The transaction that it executes or cleans up. -/
def inside (p : PoppedTask) : List Nat :=
  match p.phase with
  | .running => p.task.pointers
  | .cleaning _ => p.task.pointers
  | _ => []

end PoppedTask

/-- `TransactionTask::Execute`, of the result of the first `TryExecute` and those of the retries
that the time allows. -/
def transactionSucceeds (errcode : Nat) (retries : List Nat) : Bool :=
  if errcode = 0 then true
  else if errcode = erLockDeadlock then retries.any (· == 0)
  else false

/-! ## The system -/

structure StatementSystem where
  /-- How many statements were handed out. -/
  handed : Nat
  /-- Those the client still has to pass on. -/
  held : List Nat
  transactions : List SharedTransaction
  queue : ProducerConsumerQueue SqlTask
  popped : List PoppedTask
  /-- The statements that were passed to `SyncExecute`. -/
  executed : List Nat
  deleted : List Nat
  deriving DecidableEq, Repr

namespace StatementSystem

def initial : StatementSystem := ⟨0, [], [], .empty, [], [], []⟩

def getPreparedStatement (s : StatementSystem) : StatementSystem :=
  { s with handed := s.handed + 1, held := s.held ++ [s.handed] }

/-- The client gives a statement it holds to a call. -/
def pass (s : StatementSystem) (pStmt : Nat) : Option StatementSystem :=
  if pStmt ∈ s.held then some { s with held := s.held.erase pStmt } else none

/-- `delete` of each of these. -/
def delete (s : StatementSystem) (pStmts : List Nat) : StatementSystem :=
  { s with deleted := s.deleted ++ pStmts }

def push (s : StatementSystem) (task : SqlTask) : StatementSystem :=
  { s with queue := s.queue.push task }

def asyncExecute (s : StatementSystem) (pStmt : Nat) : StatementSystem :=
  s.push (.preparedQuery pStmt false)

def asyncQuery (s : StatementSystem) (pStmt : Nat) : StatementSystem :=
  s.push (.preparedQuery pStmt true)

/-- `SyncExecute`: the connection executes the statement. -/
def syncExecute (s : StatementSystem) (pStmt : Nat) : StatementSystem :=
  { s with executed := s.executed ++ [pStmt] }

/-- `SyncQuery`: the statement is deleted after the query. -/
def syncQuery (s : StatementSystem) (pStmt : Nat) : StatementSystem := s.delete [pStmt]

def beginTransaction (s : StatementSystem) : StatementSystem :=
  { s with transactions := s.transactions ++ [⟨.empty, 1, 0⟩] }

/-- A transaction the client has a pointer to. -/
def client (s : StatementSystem) (pTransaction : Nat) : Option SharedTransaction :=
  match s.transactions[pTransaction]? with
  | none => none
  | some tr => if tr.clientRefs = 0 then none else some tr

def setTransaction (s : StatementSystem) (pTransaction : Nat) (tr : SharedTransaction) :
    StatementSystem :=
  { s with transactions := s.transactions.set pTransaction tr }

def setQueries (s : StatementSystem) (pTransaction : Nat) (tr : SharedTransaction)
    (transaction : TransactionBase) : StatementSystem :=
  s.setTransaction pTransaction { tr with transaction }

/-- `CommitTransaction` and `CommitTransactionWithCallback`: the task gets a pointer of its own. -/
def commitTransaction (s : StatementSystem) (pTransaction : Nat) (tr : SharedTransaction)
    (withResult : Bool) : StatementSystem :=
  (s.setTransaction pTransaction { tr with taskRefs := tr.taskRefs + 1 }).push
    (.transaction pTransaction withResult)

/-- What `f` deletes of a transaction, and what it leaves. -/
def settle (s : StatementSystem) (pTransaction : Nat)
    (f : SharedTransaction → List Nat × SharedTransaction) : StatementSystem :=
  match s.transactions[pTransaction]? with
  | none => s
  | some tr =>
    let (deleted, tr) := f tr
    (s.setTransaction pTransaction tr).delete deleted

/-- The destructor of a task. -/
def destroyTask (s : StatementSystem) : SqlTask → StatementSystem
  | .adhocQuery _ _ => s
  | .preparedQuery pStmt _ => s.delete [pStmt]
  | .transaction pTransaction _ => s.settle pTransaction SharedTransaction.taskReleased

/-- A worker pops a task. -/
def pop (s : StatementSystem) : Option StatementSystem :=
  match s.queue.pop with
  | (none, _) => none
  | (some task, queue) => some { s with queue, popped := s.popped ++ [⟨task, .waiting⟩] }

def setPhase (s : StatementSystem) (i : Nat) (p : PoppedTask) (phase : TaskPhase) :
    StatementSystem :=
  { s with popped := s.popped.set i { p with phase } }

/-- The worker begins to execute its task. -/
def start (s : StatementSystem) (i : Nat) : Option StatementSystem :=
  match s.popped[i]? with
  | none => none
  | some p => if p.phase = .waiting then some (s.setPhase i p .running) else none

/-- `CleanUpOnFailure` enters `CleanUp`, which looks at the flag. -/
def enterCleanUp (s : StatementSystem) (pTransaction : Nat) : TaskPhase :=
  match s.transactions[pTransaction]? with
  | none => .executed
  | some tr =>
    if tr.transaction.cleanUp then .executed else .cleaning tr.transaction.statements

/-- Where the task is after these results of `TryExecute` for a transaction. -/
def phaseAfter (s : StatementSystem) (errcode : Nat) (retries : List Nat) : SqlTask → TaskPhase
  | .transaction pTransaction _ =>
    if transactionSucceeds errcode retries then .executed else s.enterCleanUp pTransaction
  | _ => .executed

def execute (s : StatementSystem) (i errcode : Nat) (retries : List Nat) :
    Option StatementSystem :=
  match s.popped[i]? with
  | none => none
  | some p =>
    if p.phase = .running then some (s.setPhase i p (s.phaseAfter errcode retries p.task))
    else none

/-- The rest of `CleanUp`. -/
def finishCleanUp (s : StatementSystem) (i : Nat) : Option StatementSystem :=
  match s.popped[i]? with
  | none => none
  | some p =>
    match p.phase, p.task with
    | .cleaning pStmts, .transaction pTransaction _ =>
      some ((s.setPhase i p .executed).settle pTransaction (SharedTransaction.emptied pStmts))
    | _, _ => none

/-- The worker is done with its task, executed or not. -/
def destroyPopped (s : StatementSystem) (i : Nat) : Option StatementSystem :=
  match s.popped[i]? with
  | none => none
  | some p =>
    if p.phase = .waiting ∨ p.phase = .executed then
      some ({ s with popped := s.popped.eraseIdx i }.destroyTask p.task)
    else none

/-- The loop of `Clear`, of the tasks that are in the queue. -/
def clearTasks (s : StatementSystem) : List SqlTask → StatementSystem
  | [] => { s with queue := s.queue.clear }
  | task :: tasks => ({ s with queue.queue := tasks }.destroyTask task).clearTasks tasks

/-- `Clear`. -/
def clear (s : StatementSystem) : StatementSystem := s.clearTasks s.queue.queue

end StatementSystem

inductive StatementEvent where
  | getPreparedStatement
  | asyncExecute (pStmt : Nat)
  | asyncQuery (pStmt : Nat)
  | syncExecute (pStmt : Nat)
  | syncQuery (pStmt : Nat)
  /-- `AsyncExecute` or `AsyncQuery` of a text. -/
  | asyncText (sql : String) (hasResult : Bool)
  | beginTransaction
  | append (pTransaction : Nat) (sql : String)
  | appendPreparedStatement (pTransaction pStmt : Nat)
  | commitTransaction (pTransaction : Nat) (withCallback : Bool)
  /-- The client copies a pointer to the transaction. -/
  | copy (pTransaction : Nat)
  | release (pTransaction : Nat)
  | pop
  | start (i : Nat)
  | execute (i errcode : Nat) (retries : List Nat)
  | finishCleanUp (i : Nat)
  | destroyPopped (i : Nat)
  | clear
  deriving DecidableEq, Repr

/-- The machine of the statements: the client passes each one to at most one call. -/
def statementMachine : Machine StatementSystem StatementEvent where
  init s := s = .initial
  step s
    | .getPreparedStatement => some s.getPreparedStatement
    | .asyncExecute pStmt => (s.pass pStmt).map (·.asyncExecute pStmt)
    | .asyncQuery pStmt => (s.pass pStmt).map (·.asyncQuery pStmt)
    | .syncExecute pStmt => (s.pass pStmt).map (·.syncExecute pStmt)
    | .syncQuery pStmt => (s.pass pStmt).map (·.syncQuery pStmt)
    | .asyncText sql hasResult => some (s.push (.adhocQuery sql hasResult))
    | .beginTransaction => some s.beginTransaction
    | .append t sql => (s.client t).map fun tr => s.setQueries t tr (tr.transaction.append sql)
    | .appendPreparedStatement t pStmt =>
      (s.client t).bind fun tr => (s.pass pStmt).map fun s =>
        s.setQueries t tr (tr.transaction.appendPreparedStatement pStmt)
    | .commitTransaction t withCallback =>
      (s.client t).map fun tr => s.commitTransaction t tr withCallback
    | .copy t =>
      (s.client t).map fun tr => s.setTransaction t { tr with clientRefs := tr.clientRefs + 1 }
    | .release t => (s.client t).map fun _ => s.settle t SharedTransaction.clientReleased
    | .pop => s.pop
    | .start i => s.start i
    | .execute i errcode retries => s.execute i errcode retries
    | .finishCleanUp i => s.finishCleanUp i
    | .destroyPopped i => s.destroyPopped i
    | .clear => some s.clear

namespace StatementSystem

/-- All is done: the client has passed on each statement, no task is left, and no transaction is
referenced. -/
structure Quiescent (s : StatementSystem) : Prop where
  held : s.held = []
  queue : s.queue.queue = []
  popped : s.popped = []
  released : ∀ tr ∈ s.transactions, tr.clientRefs = 0 ∧ tr.taskRefs = 0

/-- Each statement that was handed out has been deleted exactly once. -/
def DeletedOnce (s : StatementSystem) : Prop := ∀ x < s.handed, s.deleted.count x = 1

/-- The step makes no data race on a transaction: the client appends to it while no task is inside
it, no task begins to execute it during a clean-up, and a clean-up begins while no other task is
inside it. -/
def Apart (s : StatementSystem) : StatementEvent → Prop
  | .append t _ | .appendPreparedStatement t _ => ∀ p ∈ s.popped, t ∉ p.inside
  | .start i => ∀ p ∈ s.popped[i]?, ∀ t ∈ p.task.pointers,
      ∀ q ∈ s.popped.eraseIdx i, t ∉ q.cleans
  | .execute i errcode retries => ∀ p ∈ s.popped[i]?,
      s.phaseAfter errcode retries p.task ≠ .executed → ∀ t ∈ p.task.pointers,
        ∀ q ∈ s.popped.eraseIdx i, t ∉ q.inside
  | _ => True

instance (s : StatementSystem) : ∀ e, Decidable (s.Apart e)
  | .append _ _ | .appendPreparedStatement _ _ => inferInstanceAs (Decidable (∀ _ ∈ _, _))
  | .start _ | .execute _ _ _ => inferInstanceAs (Decidable (∀ _ ∈ _, _))
  | .getPreparedStatement | .asyncExecute _ | .asyncQuery _ | .syncExecute _ | .syncQuery _
  | .asyncText _ _ | .beginTransaction | .commitTransaction _ _ | .copy _ | .release _ | .pop
  | .finishCleanUp _ | .destroyPopped _ | .clear => inferInstanceAs (Decidable True)

/-- The step gives no statement to `SyncExecute` and none to a transaction cleaned up before. -/
def Owned (s : StatementSystem) : StatementEvent → Prop
  | .syncExecute _ => False
  | .appendPreparedStatement t _ =>
    ∀ tr, s.transactions[t]? = some tr → tr.transaction.cleanUp = false
  | _ => True

instance (s : StatementSystem) : ∀ e, Decidable (s.Owned e)
  | .syncExecute _ => inferInstanceAs (Decidable False)
  | .appendPreparedStatement t _ =>
    inferInstanceAs (Decidable (∀ tr ∈ s.transactions[t]?, tr.transaction.cleanUp = false))
  | .getPreparedStatement | .asyncExecute _ | .asyncQuery _ | .syncQuery _ | .asyncText _ _
  | .beginTransaction | .append _ _ | .commitTransaction _ _ | .copy _ | .release _ | .pop
  | .start _ | .execute _ _ _ | .finishCleanUp _ | .destroyPopped _ | .clear =>
    inferInstanceAs (Decidable True)

end StatementSystem

end GameServer.Database
