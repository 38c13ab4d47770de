import GameServer.Lib.Exec
import GameServer.Database.MySqlClient

/-!
# `IMySqlConnection`

Opening a connection and preparing its statements, executing a statement with the reconnect of
`HandleMysqlErrcode`, and running a transaction.

`Execute` calls itself again when `HandleMysqlErrcode` reports that it handled the error. The
recursion is cut off here after two calls; `executeSql_eq` and `executeStmt_eq` are the equations
of the source, so the cut is never reached.
-/

namespace GameServer.Database

open GameServer.Lib

/-! ## Opening and preparing -/

/-- `Open`: zero, or the error code. On a failed connect `_mysql` is null when its error is read. -/
def openConnection (env : Env) : Run Nat := do
  let w ← get
  modify fun w => { w with opens := w.opens + 1, mysql := none, tx := none }
  if env.init w.opens then
    if env.realConnect w.opens then
      modify fun v => { v with mysql := some w.opens, errno := env.setCharacterSet w.opens }
      pure 0
    else mysqlErrno env
  else pure crUnknownError

def setStmt (index : Nat) (stmt : Option MySqlPreparedStatement) : Run Unit := do
  let w ← get
  if index < w.stmts.length then modify fun w => { w with stmts := w.stmts.set index stmt }
  else throw .fault

def prepareStatement (env : Env) (index : Nat) (sql : String) (connType : ConnectionType) :
    Run Unit := do
  let w ← get
  if w.connectType.Joins connType then
    match ← mysqlStmtInit env with
    | none => modify fun w => { w with prepareError := true }
    | some stmt =>
      if (← mysqlStmtPrepare env) ≠ 0 then modify fun w => { w with prepareError := true }
      else setStmt index (some ⟨stmt, sql, env.stmtParamCount sql⟩)
  else setStmt index none

def resizeStmts (w : World) (n : Nat) : World :=
  { w with stmts := w.stmts.take n ++ List.replicate (n - w.stmts.length) none }

/-- `DoPrepareStatements` of a connection class with a statement table. -/
def doPrepareStatements (env : Env) : Run Unit := do
  let w ← get
  if !w.reconnecting then modify fun w => resizeStmts w env.stmtMax
  env.stmtMap.forM fun item => prepareStatement env item.index item.sql item.joinConnectionType

def prepareStatements (env : Env) : Run Bool := do
  doPrepareStatements env
  let w ← get
  modify fun w => { w with preparations := w.preparations ++ [!w.prepareError] }
  pure !w.prepareError

/-- The statement table of `LoginDatabaseConnection`. -/
def loginDatabaseStmtMap : List StmtEntry :=
  [⟨0, "select id, name, email, age, intro from account where email= ?", .sync⟩]

def loginDatabaseEnumMax : Nat := 2

/-- The login database when its statement calls end with these codes and all else succeeds. -/
def loginDatabase (codes : List Nat) : Env :=
  { answer := fun n => codes.getD n 0, init := fun _ => true, realConnect := fun _ => true
    setCharacterSet := fun _ => 0, errnoNull := fun _ => 0, stmtInit := fun _ => true
    stmtPrepare := fun _ => 0, stmtParamCount := fun _ => 1, stmtMax := loginDatabaseEnumMax
    stmtMap := loginDatabaseStmtMap }

/-- A synchronous connection after its first `Open`. -/
def loginConnection : World := { World.initial .sync with mysql := some 0, opens := 1 }

/-! ## Errors -/

/-- The codes that close the handle before the reconnect. -/
def closesHandle (errcode : Nat) : Bool :=
  errcode == crServerGoneError || errcode == crServerLost || errcode == crServerLostExtended

/-- The codes that lead to a reconnect. -/
def lost (errcode : Nat) : Bool := closesHandle errcode || errcode == crConnHostError

/-- The codes that end the process. -/
def terminates (errcode : Nat) : Bool :=
  errcode == erBadFieldError || errcode == erNoSuchTable || errcode == erParseError

/-- The first cases of the switch: the lost handle is closed. -/
def closeLost (errcode : Nat) : Run Unit := do
  let w ← get
  if closesHandle errcode && w.mysql.isSome then mysqlClose else pure ()

/-- What follows an `Open` that returned an error code. -/
def finishReconnect (env : Env) : Run Bool := do
  if ← prepareStatements env then
    modify fun w => { w with reconnecting := false }
    pure true
  else throw .abort

/-- `HandleMysqlErrcode` with `again + 1` tries. -/
def handleMysqlErrcode (env : Env) (again errcode : Nat) : Run Bool :=
  if lost errcode then do
    closeLost errcode
    modify fun w => { w with reconnecting := true }
    let opened ← openConnection env
    if 0 ≠ opened then finishReconnect env
    else
      match again with
      | 0 => throw .abort
      | again + 1 =>
        let w ← get
        -- the flag is passed where the error code belongs
        handleMysqlErrcode env again w.prepareError.toNat
  else if terminates errcode then throw .abort
  else pure false

/-- The default of `tryReconnectTimes`, less the first try. -/
def defaultAgain : Nat := 4

/-- What each failed call of `Execute` goes through: `again` is the call of `Execute` itself. -/
def onError (env : Env) (again : Run Bool) : Run Bool := do
  let errcode ← mysqlErrno env
  if ← handleMysqlErrcode env defaultAgain errcode then again else pure false

/-! ## Executing statements -/

/-- The body of `Execute(std::string_view)`. -/
def executeSqlBody (env : Env) (sql : Sql) (again : Run Bool) : Run Bool := do
  let w ← get
  if w.mysql.isNone then pure false
  else if (← call env (.query sql)) ≠ 0 then onError env again
  else pure true

/-- `GetPrepareStatement`, with the `Assert` of its callers that it found one. -/
def getPrepareStatement (index : Nat) : Run MySqlPreparedStatement := do
  let w ← get
  match w.stmts[index]? with
  | some (some stmt) => pure stmt
  | _ => throw .abort

/-- `BindParameters`: asserts that the statement has a place for each parameter. -/
def bindParameters (stmt : MySqlPreparedStatement) (pStmt : PreparedStatementBase) : Run Unit :=
  if pStmt.statementData.length ≤ stmt.paramCount then pure () else throw .abort

/-- The body of `Execute(PreparedStatementBase *)`. -/
def executeStmtBody (env : Env) (pStmt : PreparedStatementBase) (again : Run Bool) : Run Bool := do
  let w ← get
  if w.mysql.isNone then pure false
  else
    let stmt ← getPrepareStatement pStmt.preparedStatementIndex
    bindParameters stmt pStmt
    if (← call env (.bindParam pStmt)) ≠ 0 then onError env again
    else if (← call env (.execute pStmt)) ≠ 0 then onError env again
    else pure true

/-- `Execute(std::string_view)`. -/
def executeSql (env : Env) (sql : Sql) : Run Bool :=
  executeSqlBody env sql (executeSqlBody env sql (throw .diverged))

/-- `Execute(PreparedStatementBase *)`. -/
def executeStmt (env : Env) (pStmt : PreparedStatementBase) : Run Bool :=
  executeStmtBody env pStmt (executeStmtBody env pStmt (throw .diverged))

/-! ## Transactions -/

def getLastError (env : Env) : Run Nat := mysqlErrno env

def beginTransaction (env : Env) : Run Unit := do
  let _ ← executeSql env .startTransaction

def commitTransaction (env : Env) : Run Unit := do
  let _ ← executeSql env .commit

def rollbackTransaction (env : Env) : Run Unit := do
  let _ ← executeSql env .rollback

/-- One turn of the loop over `_queries`: a prepared statement is asserted not to be null. -/
def executeQuery (env : Env) : SqlElementData → Run Bool
  | .prepared none => throw .abort
  | .prepared (some pStmt) => executeStmt env pStmt
  | .text sql => executeSql env (.text sql)

/-- The loop over `_queries`, up to the first statement that is not executed. -/
def executeQueries (env : Env) : List SqlElementData → Run Bool
  | [] => pure true
  | query :: queries => do
    if ← executeQuery env query then executeQueries env queries else pure false

/-- `ExecuteTransaction`; `-1` as an unsigned number of 32 bits for the empty list. -/
def executeTransaction (env : Env) (queries : List SqlElementData) : Run Nat := do
  if queries.isEmpty then pure 0xffffffff
  else
    beginTransaction env
    if ← executeQueries env queries then
      commitTransaction env
      pure 0
    else
      rollbackTransaction env
      getLastError env

end GameServer.Database
