import GameServer.Lib.Blocks
import GameServer.Database.Field
import GameServer.Database.MySqlTypeHack

/-!
# `PreparedResultSet`

The constructor binds a part of one buffer to each column and then fetches row after row. The client
library copies the array of binds; the constructor moves the pointer of the copy on by a row after
each value that is not NULL, and has the field of the row point to where the value was fetched.

A pointer is an offset into the buffer, and a write outside it is a fault. What the client library
gives is a `StmtResult`; `sizeOfMysqlTime` is `sizeof(MYSQL_TIME)`.
-/

namespace GameServer.Database

open GameServer.Lib GameServer.Http

/-- What the result set reads of a `MYSQL_FIELD`. -/
structure MySqlField where
  type : EnumFieldTypes
  maxLength : Nat
  flags : Nat
  deriving DecidableEq, Repr

def unsignedFlag : Nat := 32

def MySqlField.isUnsigned (field : MySqlField) : Bool := field.flags &&& unsignedFlag != 0

/-- The length of a string column is narrowed to 32 bits. -/
def sizeForType (sizeOfMysqlTime : Nat) (field : MySqlField) : Nat :=
  match field.type with
  | .null => 0
  | .tiny => 1
  | .year | .short => 2
  | .int24 | .long | .float => 4
  | .double | .longlong | .bit => 8
  | .timestamp | .date | .time | .datetime => sizeOfMysqlTime
  | .tinyBlob | .mediumBlob | .longBlob | .blob | .string | .varString =>
    (field.maxLength + 1) % 0x100000000
  | .decimal | .newdecimal => 64
  | _ => 0

def mysqlTypeToFieldType (field : MySqlField) : DatabaseFieldType :=
  match field.type with
  | .null => .null
  | .tiny => if field.isUnsigned then .uInt8 else .int8
  | .year | .short => if field.isUnsigned then .uInt16 else .int16
  | .int24 | .long => if field.isUnsigned then .uInt32 else .int32
  | .longlong | .bit => if field.isUnsigned then .uInt64 else .int64
  | .float => .float
  | .double => .double
  | .decimal | .newdecimal => .decimal
  | .timestamp | .date | .time | .datetime => .date
  | .tinyBlob | .mediumBlob | .longBlob | .blob | .string | .varString => .binary
  | _ => .null

def initializeDatabaseFieldMetadata (field : MySqlField) (isBinary : Bool) :
    QueryResultFieldMetadata :=
  ⟨mysqlTypeToFieldType field, isBinary⟩

/-- A column of `_pBind`. -/
structure ResultBind where
  bufferType : EnumFieldTypes
  buffer : Nat
  bufferLength : Nat
  isUnsigned : Bool
  deriving DecidableEq, Repr

/-- The columns whose values get a terminator. -/
def ResultBind.isText (b : ResultBind) : Bool :=
  match b.bufferType with
  | .tinyBlob | .mediumBlob | .longBlob | .blob | .varString | .string => true
  | _ => false

/-- What `mysql_stmt_fetch` gives for a column: the NULL flag, the length, and the bytes that it
writes where the value is not NULL. -/
structure ColumnFetch where
  isNull : Bool
  length : Nat
  bytes : Bytes
  deriving DecidableEq, Repr

/-- What the client library gives for an executed statement. -/
structure StmtResult where
  hasMetadata : Bool
  /-- The code of `mysql_stmt_store_result`. -/
  storeResult : Nat
  numRows : Nat
  fields : List MySqlField
  /-- Whether `mysql_stmt_bind_result` fails. -/
  bindFails : Bool
  /-- The rows of the successful fetches, column by column. -/
  fetches : List (Nat → ColumnFetch)
  /-- What the allocated buffer holds. -/
  garbage : Nat → UInt8

/-- A `Field` of the result set; its value is a pointer into the buffer. -/
structure ResultField where
  pointer : Option Nat
  length : Nat
  metadata : Option QueryResultFieldMetadata
  deriving DecidableEq, Repr

namespace ResultField

def fresh : ResultField := ⟨none, 0, none⟩

def setMetadata (f : ResultField) (fieldMeta : QueryResultFieldMetadata) : ResultField :=
  { f with metadata := some fieldMeta }

/-- `SetValue`; the length is a `uint32_t`. -/
def setValue (f : ResultField) (pointer : Option Nat) (length : Nat) : ResultField :=
  { f with pointer, length := length % 0x100000000 }

/-- The field as its getters see it: the bytes from the pointer on. -/
def read (f : ResultField) (buffer : Bytes) : Field :=
  ⟨f.pointer.map fun pointer => buffer.drop pointer, f.length, f.metadata⟩

end ResultField

structure PreparedResultSet where
  rowCount : Nat
  rowPosition : Nat
  fieldMetadata : List QueryResultFieldMetadata
  rows : List ResultField
  binds : List ResultBind
  /-- The pointers of `_pStmt->bind`. -/
  pointers : List Nat
  buffer : Bytes
  deriving DecidableEq, Repr

namespace PreparedResultSet

/-- Without rows. -/
def empty (rowCount : Nat) : PreparedResultSet := ⟨rowCount, 0, [], [], [], [], []⟩

/-- What the first loop over the columns sets. -/
def columnBind (sizeOfMysqlTime : Nat) (field : MySqlField) : ResultBind :=
  ⟨field.type, 0, sizeForType sizeOfMysqlTime field, field.isUnsigned⟩

/-- The second one, which sets the buffers; the offset is a `uint32_t`. -/
def bindBuffers (offset : Nat) : List ResultBind → List ResultBind
  | [] => []
  | b :: binds =>
    { b with buffer := offset } :: bindBuffers ((offset + b.bufferLength) % 0x100000000) binds

section Rows

variable (rowSize : Nat) (row : Nat → ColumnFetch)

/-- `mysql_stmt_fetch` for the column `i`: at most `buffer_length` bytes are written. -/
def fetchColumn (i : Nat) (s : PreparedResultSet) : Except Halt PreparedResultSet :=
  match s.binds[i]?, s.pointers[i]? with
  | some b, some pointer =>
    if (row i).isNull then .ok s
    else (store s.buffer pointer ((row i).bytes.take b.bufferLength)).map fun buffer =>
      { s with buffer }
  | _, _ => .error .fault

/-- The terminator of a text, if it has place for one. -/
def terminate (b : ResultBind) (pointer fetchedLength : Nat) (buffer : Bytes) :
    Except Halt Bytes :=
  if b.isText && decide (fetchedLength < b.bufferLength) then
    store buffer (pointer + fetchedLength) [0]
  else .ok buffer

/-- The body of the loop over the columns of a fetched row. -/
def readColumn (i : Nat) (s : PreparedResultSet) : Except Halt PreparedResultSet :=
  let index := s.rowPosition * s.binds.length + i
  match s.binds[i]?, s.pointers[i]?, s.fieldMetadata[i]?, s.rows[index]? with
  | some b, some pointer, some fieldMeta, some field =>
    let field := field.setMetadata fieldMeta
    let fetchedLength := (row i).length
    if !(row i).isNull then
      (terminate b pointer fetchedLength s.buffer).map fun buffer =>
        { s with
          buffer
          rows := s.rows.set index (field.setValue (some pointer) fetchedLength)
          pointers := s.pointers.set i (pointer + rowSize) }
    else .ok { s with rows := s.rows.set index (field.setValue none fetchedLength) }
  | _, _, _, _ => .error .fault

def readRow (s : PreparedResultSet) : Except Halt PreparedResultSet := do
  let s ← countTo (fetchColumn row) s.binds.length s
  let s ← countTo (readColumn rowSize row) s.binds.length s
  .ok { s with rowPosition := s.rowPosition + 1 }

/-- `while (FetchNextRow())`: the list holds the rows that fetching will give. -/
def fetchRows : List (Nat → ColumnFetch) → PreparedResultSet → Except Halt PreparedResultSet
  | [], s => .ok s
  | row :: fetches, s =>
    if s.rowPosition ≥ s.rowCount then .ok s
    else (readRow rowSize row s).bind (fetchRows fetches)

end Rows

/-- The constructor, for the number of rows that the caller was told. -/
def construct (sizeOfMysqlTime rowCount : Nat) (result : StmtResult) :
    Except Halt PreparedResultSet :=
  if !result.hasMetadata then .ok (empty rowCount)
  else if result.storeResult ≠ 0 then .ok (empty rowCount)
  else
    let columns := result.fields.map (columnBind sizeOfMysqlTime)
    let rowSize := (columns.map ResultBind.bufferLength).sum
    let binds := bindBuffers 0 columns
    let metadata := result.fields.map (initializeDatabaseFieldMetadata · true)
    if result.bindFails then .ok { empty result.numRows with fieldMetadata := metadata }
    else
      (fetchRows rowSize result.fetches
        { rowCount := result.numRows
          rowPosition := 0
          fieldMetadata := metadata
          rows := List.replicate (result.numRows * result.fields.length) .fresh
          binds
          pointers := binds.map ResultBind.buffer
          buffer := (List.range (rowSize * result.numRows)).map result.garbage }).map fun s =>
        { s with rowPosition := 0 }

end PreparedResultSet

end GameServer.Database
