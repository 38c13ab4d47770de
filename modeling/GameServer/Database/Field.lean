import GameServer.Lib.Exec
import GameServer.Util.StringTo

/-!
# `Field`

One field of a row: a pointer to its value, its length and the metadata of its column. A text result
has the decimal text there, a prepared result the object representation. A pointer is modelled by
the bytes that can be read from it on.

`checkType` is `CheckType<T>` for the integer types; what a `float` or `double` source gives is the
parameter `floating`. The getters end the process where `CheckType` reports a mismatch.
-/

namespace GameServer.Database

open GameServer.Lib GameServer.Http

inductive DatabaseFieldType where
  | null | uInt8 | int8 | uInt16 | int16 | uInt32 | int32 | uInt64 | int64
  | float | double | decimal | date | binary
  deriving DecidableEq, Repr

/-- The field type of an integer type. -/
def DatabaseFieldType.ofIntType : IntType → DatabaseFieldType
  | .uint8 => uInt8
  | .int8 => int8
  | .uint16 => uInt16
  | .int16 => int16
  | .uint32 => uInt32
  | .int32 => int32
  | .uint64 => uInt64
  | .int64 => int64

/-- What `CheckType` reads of the metadata of a column. -/
structure QueryResultFieldMetadata where
  fieldType : DatabaseFieldType
  isBinary : Bool
  deriving DecidableEq, Repr

structure Field where
  /-- The bytes from the pointer on, or the null pointer. -/
  value : Option Bytes
  length : Nat
  metadata : Option QueryResultFieldMetadata
  deriving DecidableEq, Repr

/-- The outcome for a source that is a `float` or a `double`. -/
abbrev FloatingCheck : Type := DatabaseFieldType → Bool → Field → IntType → Except Halt (Bool × Int)

namespace Field

/-- The default constructor. -/
def fresh : Field := ⟨none, 0, none⟩

/-- `SetValue`; the length is a `uint32_t`. -/
def setValue (f : Field) (newValue : Option Bytes) (length : Nat) : Field :=
  { f with value := newValue, length := length % 0x100000000 }

def setMetadata (f : Field) (fieldMeta : QueryResultFieldMetadata) : Field :=
  { f with metadata := some fieldMeta }

def isNull (f : Field) : Bool := f.value.isNone

/-- The characters of `{_pValue, _length}`. -/
def view (f : Field) : Except Halt Bytes :=
  match f.value with
  | none => if f.length = 0 then .ok [] else .error .fault
  | some bytes => if f.length ≤ bytes.length then .ok (bytes.take f.length) else .error .fault

/-- The object of this type that the pointer points to. -/
def load (f : Field) (s : IntType) : Except Halt Int :=
  match f.value with
  | none => .error .fault
  | some bytes =>
    if s.size ≤ bytes.length then .ok (s.ofBytes (bytes.take s.size)) else .error .fault

/-- The source of an integer column: a text that is no number of the type counts as zero. -/
def source (f : Field) (isBinary : Bool) (s : IntType) : Except Halt Int :=
  if isBinary then f.load s
  else do
    let text ← f.view
    .ok ((Util.stringTo s text).getD 0)

/-- The visitor: the value is cast to `T` and compared with what it was. -/
def castTo (t s : IntType) (srcVal : Int) : Bool × Int :=
  let result := t.wrap srcVal
  if t.equal result s srcVal then (true, result) else (false, 0)

/-- `CheckType<T>`. -/
def checkType (floating : FloatingCheck) (t : IntType) (f : Field) : Except Halt (Bool × Int) :=
  match f.metadata with
  | none => .error .abort
  | some metadata =>
    let visit (s : IntType) : Except Halt (Bool × Int) :=
      (f.source metadata.isBinary s).map (castTo t s)
    match metadata.fieldType with
    | .uInt8 => visit .uint8
    | .int8 => visit .int8
    | .uInt16 => visit .uint16
    | .int16 => visit .int16
    | .uInt32 => visit .uint32
    | .int32 => visit .int32
    | .uInt64 => visit .uint64
    | .int64 => visit .int64
    | .float | .double => floating metadata.fieldType metadata.isBinary f t
    -- the variant keeps its first alternative, an unsigned byte of zero
    | .null | .decimal | .date | .binary => .ok (castTo t .uint8 0)

/-- A getter: `LogWrongGetter` fails an assertion. -/
def get (floating : FloatingCheck) (t : IntType) (f : Field) : Except Halt Int := do
  let (bMatch, result) ← f.checkType floating t
  if bMatch then .ok result else .error .abort

section Getters

variable (floating : FloatingCheck) (f : Field)

def getUInt8 : Except Halt Int := f.get floating .uint8
def getInt8 : Except Halt Int := f.get floating .int8
def getUInt16 : Except Halt Int := f.get floating .uint16
def getInt16 : Except Halt Int := f.get floating .int16
def getUInt32 : Except Halt Int := f.get floating .uint32
def getInt32 : Except Halt Int := f.get floating .int32
def getUInt64 : Except Halt Int := f.get floating .uint64
def getInt64 : Except Halt Int := f.get floating .int64

/-- `GetBool`: wrapper, actually gets integer. -/
def getBool : Except Halt Bool := do
  let value ← getUInt8 floating f
  .ok (value == 1)

end Getters

/-! ## Fields of integer columns -/

/-- A field of an integer column, filled with a value. -/
def filled (s : IntType) (isBinary : Bool) (value : Option Bytes) (length : Nat) : Field :=
  (fresh.setMetadata ⟨.ofIntType s, isBinary⟩).setValue value length

/-- The field as `ResultSet::NextRow` fills it: decimal text and its length, a null pointer and
length 0 for NULL. `rest` is what follows the text in memory. -/
def ofText (s : IntType) (v : Option s.Value) (zeros : Fin 256) (rest : Bytes) : Field :=
  match v with
  | none => filled s false none 0
  | some v =>
    filled s false (some (Util.decimalText zeros v.val ++ rest))
      (Util.decimalText zeros v.val).length

/-- The field as `PreparedResultSet` fills it: the object representation, or a null pointer. -/
def ofBinary (s : IntType) (v : Option s.Value) (length : Nat) (rest : Bytes) : Field :=
  match v with
  | none => filled s true none length
  | some v => filled s true (some (s.toBytes v.val ++ rest)) length

variable {floating : FloatingCheck} {s t : IntType} {f : Field}

/-- An integer column is read as its own type. -/
theorem checkType_filled (isBinary : Bool) (value : Option Bytes) (length : Nat) :
    (filled s isBinary value length).checkType floating t =
      ((filled s isBinary value length).source isBinary s).map (castTo t s) := by
  cases s <;> rfl

/-- Decimal texts of integers fit a length of 32 bits. -/
theorem length_decimalText_lt (zeros : Fin 256) (v : s.Value) :
    (Util.decimalText zeros v.val).length < 0x100000000 := by
  have hdigits : (decimal v.val.natAbs).length ≤ 20 := by
    rw [decimal, List.length_map, Nat.length_toDigits_le_iff (by omega) (by omega)]
    have hrange := v.inRange
    cases s <;> simp [IntType.InRange, IntType.least, IntType.bound, IntType.modulus, IntType.bits,
      IntType.signed] at hrange <;> omega
  have hzeros := zeros.isLt
  have hsign : (if v.val < 0 then [0x2d] else [] : Bytes).length ≤ 1 := by
    split
    · exact Nat.le_refl 1
    · exact Nat.zero_le 1
  simp only [Util.decimalText, List.length_append, List.length_replicate]
  omega

theorem source_ofText (zeros : Fin 256) (rest : Bytes) (v : s.Value) :
    (ofText s (some v) zeros rest).source false s = .ok v.val := by
  have hlen := Nat.mod_eq_of_lt (length_decimalText_lt zeros v)
  have hview : (ofText s (some v) zeros rest).view = .ok (Util.decimalText zeros v.val) := by
    simp [view, ofText, filled, setValue, hlen]
  rw [source, if_neg Bool.false_ne_true, hview]
  simp [bind, Except.bind, Util.stringTo_decimalText, v.inRange]

theorem source_ofText_none (zeros : Fin 256) (rest : Bytes) :
    (ofText s none zeros rest).source false s = .ok 0 := by
  cases s <;> rfl

theorem source_ofBinary (length : Nat) (rest : Bytes) (v : s.Value) :
    (ofBinary s (some v) length rest).source true s = .ok v.val := by
  have hsize : s.size ≤ (s.toBytes v.val ++ rest).length := by simp
  have htake : (s.toBytes v.val ++ rest).take s.size = s.toBytes v.val :=
    List.take_left' (IntType.length_toBytes s v.val)
  have hload : (ofBinary s (some v) length rest).load s =
      .ok (s.ofBytes (s.toBytes v.val)) := by
    simp only [load, ofBinary, filled, setValue]
    rw [if_pos hsize, htake]
  rw [source, if_pos rfl, hload, IntType.ofBytes_toBytes rfl, IntType.wrap_eq_self_iff.2 v.inRange]

/-- A prepared result gives a null pointer for NULL, and its object is read all the same. -/
theorem source_ofBinary_none (length : Nat) (rest : Bytes) :
    (ofBinary s none length rest).source true s = .error .fault := rfl

end Field

end GameServer.Database
