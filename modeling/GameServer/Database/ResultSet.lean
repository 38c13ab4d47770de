import GameServer.Lib.Cursor
import GameServer.Database.QueryResult

/-!
# `ResultSet`, and what the pool hands over

A `ResultSet` reads one row at a time from the stored result, and the first one too has to be read
before it can be shown. A `PreparedResultSet` has all its rows from the start. `SyncQuery` and the
tasks hand over either where it has a row, and otherwise a null pointer.

What the client library gives for an executed text is a `TextResult`. Where the connection has to
execute again after an error, it is that of the last time.
-/

namespace GameServer.Database

open GameServer.Lib GameServer.Http

/-- A column of `MYSQL_ROW` and its length. -/
structure TextColumn where
  /-- The bytes from the pointer on, or the null pointer. -/
  value : Option Bytes
  length : Nat
  deriving DecidableEq, Repr

structure TextRow where
  columns : List TextColumn
  /-- Whether `mysql_fetch_lengths` gives the lengths. -/
  hasLengths : Bool
  deriving DecidableEq, Repr

structure TextResult where
  /-- Whether `mysql_store_result` gives a result. -/
  hasResult : Bool
  affectedRows : Nat
  fields : List MySqlField
  /-- What `mysql_fetch_row` gives, before the null pointer. -/
  rows : List TextRow

structure ResultSet where
  fieldMetadata : List QueryResultFieldMetadata
  rowCount : Nat
  fieldCount : Nat
  /-- `_pCurrentRow`, or the null pointer. -/
  currentRow : Option (List Field)
  /-- The rows that `_pResult` still has, or the null pointer. -/
  result : Option (List TextRow)
  deriving DecidableEq, Repr

namespace ResultSet

def construct (rowCount : Nat) (result : TextResult) : ResultSet :=
  let fieldMetadata := result.fields.map (initializeDatabaseFieldMetadata · false)
  { fieldMetadata
    rowCount
    fieldCount := result.fields.length
    currentRow := some (fieldMetadata.map Field.fresh.setMetadata)
    result := some result.rows }

def cleanUp (s : ResultSet) : ResultSet := { s with currentRow := none, result := none }

/-- The body of the loop over the columns. -/
def setColumn (row : TextRow) (i : Nat) (fields : List Field) : Except Halt (List Field) :=
  match row.columns[i]?, fields[i]? with
  | some column, some field => .ok (fields.set i (field.setValue column.value column.length))
  | _, _ => .error .fault

def nextRow (s : ResultSet) : Except Halt (Bool × ResultSet) :=
  match s.result, s.currentRow with
  | none, _ => .ok (false, s)
  | some [], _ => .ok (false, s.cleanUp)
  | some (row :: rows), currentRow =>
    if !row.hasLengths then .ok (false, s.cleanUp)
    else match currentRow with
      | none => .error .fault
      | some fields => (countTo (setColumn row) s.fieldCount fields).map fun fields =>
        (true, { s with currentRow := some fields, result := some rows })

/-- `Fetch`, and the fields that the pointer is read for. -/
def fetch (s : ResultSet) : Except Halt (List Field) :=
  match s.currentRow with
  | none => .error .fault
  | some fields => .ok fields

def cursor : Cursor ResultSet (List Field) := ⟨fetch, nextRow⟩

end ResultSet

namespace PreparedResultSet

def nextRow (s : PreparedResultSet) : Except Halt (Bool × PreparedResultSet) :=
  let s := { s with rowPosition := s.rowPosition + 1 }
  .ok (decide (s.rowPosition < s.rowCount), s)

/-- `Fetch`, and the fields that the pointer is read for: a column each from there on. -/
def fetch (s : PreparedResultSet) : Except Halt (List Field) :=
  if s.rowPosition < s.rowCount then
    let index := s.rowPosition * s.binds.length
    if index < s.rows.length then
      .ok (((s.rows.drop index).take s.binds.length).map (·.read s.buffer))
    else .error .fault
  else .error .abort

def cursor : Cursor PreparedResultSet (List Field) := ⟨fetch, nextRow⟩

end PreparedResultSet

/-! ## The producers -/

namespace ResultSet

/-- `IMySqlConnection::Query` of a text. -/
def query (sql : String) (executed : Option TextResult) : Option ResultSet :=
  if sql.isEmpty then none
  else match executed with
    | none => none
    | some result =>
      if !result.hasResult then none
      else if result.affectedRows = 0 then none
      else some (construct result.affectedRows result)

/-- The check that the producers make, which moves the result on to its first row. -/
def checked (pResult : Option ResultSet) : Except Halt (Option ResultSet) :=
  match pResult with
  | none => .ok none
  | some s =>
    if s.rowCount = 0 then .ok none
    else s.nextRow.map fun (hasRow, s) => if hasRow then some s else none

/-- `SyncQuery` of a text. -/
def syncQuery (sql : String) (executed : Option TextResult) : Except Halt (Option ResultSet) :=
  checked (query sql executed)

/-- `ADHOCQueryTask::Execute` with a promise: what it returns, and what the promise is set to. -/
def executeTask (sql : String) (executed : Option TextResult) :
    Except Halt (Bool × Option ResultSet) :=
  (checked (query sql executed)).map fun pResult => (pResult.isSome, pResult)

end ResultSet

namespace PreparedResultSet

/-- `IMySqlConnection::Query` of a statement. The number of rows is asked for before the result is
stored. -/
def query (sizeOfMysqlTime rowCount : Nat) (executed : Option StmtResult) :
    Except Halt (Option PreparedResultSet) :=
  match executed with
  | none => .ok none
  | some result => (construct sizeOfMysqlTime rowCount result).map some

def checked (pResult : Option PreparedResultSet) : Option PreparedResultSet :=
  match pResult with
  | none => none
  | some s => if s.rowCount = 0 then none else some s

/-- `SyncQuery` of a statement. -/
def syncQuery (sizeOfMysqlTime rowCount : Nat) (executed : Option StmtResult) :
    Except Halt (Option PreparedResultSet) :=
  (query sizeOfMysqlTime rowCount executed).map checked

/-- `PreparedQueryTask::Execute` with a promise. -/
def executeTask (sizeOfMysqlTime rowCount : Nat) (executed : Option StmtResult) :
    Except Halt (Bool × Option PreparedResultSet) :=
  (query sizeOfMysqlTime rowCount executed).map fun pResult =>
    ((checked pResult).isSome, checked pResult)

end PreparedResultSet

end GameServer.Database
