import GameServer.Lib.FixedWidth

/-!
# Column types of MySQL

`enum_field_types` of the client library, the constants that `MysqlType<T>` assigns to the integer
types, and how the client library reads an object of such a type.
-/

namespace GameServer.Database

open GameServer.Lib

inductive EnumFieldTypes where
  | decimal | tiny | short | long | float | double | null | timestamp | longlong | int24
  | date | time | datetime | year | newdate | varchar | bit | timestamp2 | datetime2 | time2
  | typedArray | invalid | bool | json | newdecimal | enum | set | tinyBlob | mediumBlob
  | longBlob | blob | varString | string | geometry
  deriving DecidableEq, Repr

/-- `MysqlType<T>` of the integer types. -/
def mysqlType : IntType → EnumFieldTypes
  | .uint8 | .int8 => .tiny
  | .uint16 | .int16 => .short
  | .uint32 | .int32 => .long
  | .uint64 | .int64 => .longlong

/-- The integer type that a bound buffer of this type and sign holds. -/
def boundType : EnumFieldTypes → (isUnsigned : Bool) → Option IntType
  | .tiny, false => some .int8
  | .tiny, true => some .uint8
  | .short, false => some .int16
  | .short, true => some .uint16
  | .long, false => some .int32
  | .long, true => some .uint32
  | .longlong, false => some .int64
  | .longlong, true => some .uint64
  | _, _ => none

/-- Binding with the constant of a type keeps its width, and the flag chooses the sign. -/
theorem boundType_mysqlType (t : IntType) (isUnsigned : Bool) :
    ∃ s, boundType (mysqlType t) isUnsigned = some s ∧ s.bits = t.bits ∧
      s.signed = !isUnsigned := by
  cases t <;> cases isUnsigned <;> exact ⟨_, rfl, rfl, rfl⟩

end GameServer.Database
