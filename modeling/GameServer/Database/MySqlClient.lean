import GameServer.Lib.Exec

/-!
# The MySQL client library and the server behind one connection

What a call of the client library does is decided by an `Env`, which fixes the outcome of every
call in advance: the `n`-th statement call of a connection is answered with the error code
`answer n`, zero for success, the `n`-th `Open` finds the outcomes of `mysql_init` and
`mysql_real_connect`, and so on.

* `mysql_errno` on a handle is the code of the last call made on it.
* Outside a transaction a successful statement is durable at once. `START TRANSACTION` commits an
  open transaction, `ROLLBACK` and the loss of the connection discard it, and a new connection
  starts outside any transaction.
* `log`, `preparations`, `durable` and `tx` record what was called and what the server keeps; the
  code reads none of them.
-/

namespace GameServer.Database

open GameServer.Lib

/-! ## Error codes -/

def crUnknownError : Nat := 2000
def crConnHostError : Nat := 2003
def crServerGoneError : Nat := 2006
def crServerLost : Nat := 2013
def crServerLostExtended : Nat := 2055
def erBadFieldError : Nat := 1054
def erDupEntry : Nat := 1062
def erParseError : Nat := 1064
def erNoSuchTable : Nat := 1146
def erLockDeadlock : Nat := 1213

/-! ## Statements -/

inductive ConnectionType where
  | async
  | sync
  | asyncSync
  deriving DecidableEq, Repr

namespace ConnectionType

def toUnderlying : ConnectionType → Nat
  | async => 0x1
  | sync => 0x2
  | asyncSync => 0x1 ||| 0x2

/-- A statement declared for `joined` is loaded by a connection of type `t`. -/
def Joins (t joined : ConnectionType) : Prop := t.toUnderlying &&& joined.toUnderlying ≠ 0

instance (t joined : ConnectionType) : Decidable (t.Joins joined) :=
  inferInstanceAs (Decidable (_ ≠ _))

end ConnectionType

/-- The text of a statement: one of the three the connection sends itself, or another one, which
starts and ends no transaction. -/
inductive Sql where
  | startTransaction
  | commit
  | rollback
  | text (sql : String)
  deriving DecidableEq, Repr

/-- `PreparedStatementBase`: the index of the statement and its parameters, as text. -/
structure PreparedStatementBase where
  preparedStatementIndex : Nat
  statementData : List String
  deriving DecidableEq, Repr

/-- `TransactionBase::SqlElementData`; a prepared statement is held by a pointer. -/
inductive SqlElementData where
  | text (sql : String)
  | prepared (pStmt : Option PreparedStatementBase)
  deriving DecidableEq, Repr

/-- `MySqlPreparedStatement`: the handle it was prepared on, its text and `_paramCount`. -/
structure MySqlPreparedStatement where
  mySqlStmt : Nat
  sqlString : String
  paramCount : Nat
  deriving DecidableEq, Repr

inductive Call where
  | query (sql : Sql)
  | bindParam (pStmt : PreparedStatementBase)
  | execute (pStmt : PreparedStatementBase)
  deriving DecidableEq, Repr

/-- A statement that took effect, and the number of the call that made it so. -/
structure Effect where
  stmt : SqlElementData
  call : Nat
  deriving DecidableEq, Repr

/-- An entry of the statement table of a connection class. -/
structure StmtEntry where
  index : Nat
  sql : String
  joinConnectionType : ConnectionType
  deriving DecidableEq, Repr

/-! ## Outcomes and state -/

/-- The outcomes of the client calls and the statement table of the connection class. -/
structure Env where
  /-- The code of the `n`-th statement call. -/
  answer : Nat → Nat
  /-- Whether `mysql_init` gives a handle in the `n`-th `Open`. -/
  init : Nat → Bool
  /-- Whether `mysql_real_connect` succeeds in the `n`-th `Open`. -/
  realConnect : Nat → Bool
  /-- The code of `mysql_set_character_set`, the last call of the `n`-th `Open`. -/
  setCharacterSet : Nat → Nat
  /-- `mysql_errno` of the null handle after `n` calls of `Open`. -/
  errnoNull : Nat → Nat
  /-- Whether the `n`-th `mysql_stmt_init` gives a statement. -/
  stmtInit : Nat → Bool
  /-- The code of the `n`-th `mysql_stmt_prepare`. -/
  stmtPrepare : Nat → Nat
  /-- `mysql_stmt_param_count` of a statement prepared from this text. -/
  stmtParamCount : String → Nat
  /-- The size of `_stmts` and the statements that `DoPrepareStatements` loads. -/
  stmtMax : Nat
  stmtMap : List StmtEntry

/-- A connection, and what the client library and the server know of it. -/
structure World where
  reconnecting : Bool
  prepareError : Bool
  connectType : ConnectionType
  stmts : List (Option MySqlPreparedStatement)
  /-- The handle, named after the `Open` that made it. -/
  mysql : Option Nat
  /-- `mysql_errno` of that handle. -/
  errno : Nat
  opens : Nat
  stmtInits : Nat
  stmtPrepares : Nat
  /-- What the calls of `PrepareStatements` returned. -/
  preparations : List Bool
  log : List (Call × Nat)
  durable : List Effect
  /-- The effects of the open transaction. -/
  tx : Option (List Effect)
  deriving DecidableEq, Repr

/-- A connection of this type as constructed, before its first `Open`. -/
def World.initial (t : ConnectionType) : World :=
  { reconnecting := false, prepareError := false, connectType := t, stmts := []
    mysql := none, errno := 0, opens := 0, stmtInits := 0, stmtPrepares := 0, preparations := []
    log := [], durable := [], tx := none }

abbrev Run (α : Type) : Type := EStateM Halt World α

namespace World

/-- An effect is durable at once, or belongs to the open transaction. -/
def record (w : World) (stmt : SqlElementData) : World :=
  match w.tx with
  | none => { w with durable := w.durable ++ [⟨stmt, w.log.length⟩] }
  | some pending => { w with tx := some (pending ++ [⟨stmt, w.log.length⟩]) }

def serve (w : World) : Call → World
  | .query .startTransaction =>
    { w with durable := w.durable ++ w.tx.getD [], tx := some [] }
  | .query .commit => { w with durable := w.durable ++ w.tx.getD [], tx := none }
  | .query .rollback => { w with tx := none }
  | .query (.text sql) => w.record (.text sql)
  | .bindParam _ => w
  | .execute pStmt => w.record (.prepared (some pStmt))

def answered (w : World) (c : Call) (code : Nat) : World :=
  { (if code = 0 then w.serve c else w) with errno := code, log := w.log ++ [(c, code)] }

@[simp] theorem serve_mysql (w : World) (c : Call) : (w.serve c).mysql = w.mysql := by
  cases c with
  | query sql => cases sql <;> simp only [serve, record]; split <;> rfl
  | bindParam _ => rfl
  | execute _ => simp only [serve, record]; split <;> rfl

@[simp] theorem serve_opens (w : World) (c : Call) : (w.serve c).opens = w.opens := by
  cases c with
  | query sql => cases sql <;> simp only [serve, record]; split <;> rfl
  | bindParam _ => rfl
  | execute _ => simp only [serve, record]; split <;> rfl

@[simp] theorem answered_mysql (w : World) (c : Call) (code : Nat) :
    (w.answered c code).mysql = w.mysql := by
  simp only [answered]
  split
  · exact serve_mysql w c
  · rfl

@[simp] theorem answered_opens (w : World) (c : Call) (code : Nat) :
    (w.answered c code).opens = w.opens := by
  simp only [answered]
  split
  · exact serve_opens w c
  · rfl

@[simp] theorem answered_errno (w : World) (c : Call) (code : Nat) :
    (w.answered c code).errno = code := rfl

@[simp] theorem answered_log (w : World) (c : Call) (code : Nat) :
    (w.answered c code).log = w.log ++ [(c, code)] := rfl

end World

/-! ## The client library -/

/-- `mysql_query`, `mysql_stmt_bind_param` or `mysql_stmt_execute` on the connection's handle. -/
def call (env : Env) (c : Call) : Run Nat := fun w =>
  let code := env.answer w.log.length
  .ok code (w.answered c code)

def Env.lastError (env : Env) (w : World) : Nat :=
  match w.mysql with
  | some _ => w.errno
  | none => env.errnoNull w.opens

def mysqlErrno (env : Env) : Run Nat := fun w => .ok (env.lastError w) w

/-- `mysql_close(_mysql); _mysql = nullptr`: the server discards the open transaction. -/
def mysqlClose : Run Unit := modify fun w => { w with mysql := none, tx := none }

/-- `mysql_stmt_init(_mysql)`: the library links the statement to the handle. -/
def mysqlStmtInit (env : Env) : Run (Option Nat) := do
  let w ← get
  match w.mysql with
  | none => throw .fault
  | some handle =>
    modify fun w => { w with stmtInits := w.stmtInits + 1 }
    pure (if env.stmtInit w.stmtInits then some handle else none)

def mysqlStmtPrepare (env : Env) : Run Nat := fun w =>
  let code := env.stmtPrepare w.stmtPrepares
  .ok code { w with stmtPrepares := w.stmtPrepares + 1, errno := code }

end GameServer.Database
