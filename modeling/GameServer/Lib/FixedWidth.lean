import Mathlib.Algebra.Ring.Nat
import Mathlib.Data.List.Basic

/-!
# Integer types of fixed width

The eight integer types `uint8_t` to `int64_t`: their ranges, conversion to them (`wrap`), equality
of operands of two types after the usual arithmetic conversions (`equal`), and their bytes in
little-endian order.

* `wrap_eq_self_iff`: a value is kept by the conversion exactly if the type has it.
* `equal_wrap_iff`: a value compares equal to its own conversion if the type has it, and in the
  cases of `Misread`, where the comparison converts a negative operand to an unsigned type.
* `ofBytes_toBytes`: bytes are read back as the conversion to the type they are read as.
-/

namespace GameServer.Lib

inductive IntType where
  | uint8 | int8 | uint16 | int16 | uint32 | int32 | uint64 | int64
  deriving DecidableEq, Repr

namespace IntType

def bits : IntType → Nat
  | uint8 | int8 => 8
  | uint16 | int16 => 16
  | uint32 | int32 => 32
  | uint64 | int64 => 64

def signed : IntType → Bool
  | uint8 | uint16 | uint32 | uint64 => false
  | int8 | int16 | int32 | int64 => true

def modulus (t : IntType) : Nat := 2 ^ t.bits

/-- The least value and the first value above the type's values. -/
def least (t : IntType) : Int := if t.signed then -(t.modulus / 2 : Nat) else 0

def bound (t : IntType) : Int := if t.signed then (t.modulus / 2 : Nat) else t.modulus

/-- The type has the value. -/
def InRange (t : IntType) (v : Int) : Prop := t.least ≤ v ∧ v < t.bound

instance (t : IntType) (v : Int) : Decidable (t.InRange v) :=
  inferInstanceAs (Decidable (_ ∧ _))

/-- A value of the type. -/
structure Value (t : IntType) where
  val : Int
  inRange : t.InRange val
  deriving DecidableEq, Repr

/-- Conversion to the type: the value of the type in the same residue class. -/
def wrap (t : IntType) (v : Int) : Int := (v - t.least) % t.modulus + t.least

variable {s t : IntType} {v w : Int}

theorem wrap_inRange (t : IntType) (v : Int) : t.InRange (t.wrap v) := by
  cases t <;> simp only [InRange, wrap, least, bound, modulus, bits, signed] <;> simp <;> omega

theorem wrap_eq_self_iff : t.wrap v = v ↔ t.InRange v := by
  constructor
  · intro h
    exact h ▸ wrap_inRange t v
  · cases t <;> simp only [InRange, wrap, least, bound, modulus, bits, signed] <;> simp <;> omega

/-! ## Comparing operands of two types -/

/-- The integral promotions. -/
def promote (t : IntType) : IntType := if t.bits < 32 then int32 else t

/-- The type to which the usual arithmetic conversions bring operands of these types. -/
def common (s t : IntType) : IntType :=
  if s.promote.bits < t.promote.bits then t.promote
  else if t.promote.bits < s.promote.bits then s.promote
  else if s.promote.signed then t.promote
  else s.promote

/-- The operator `==`. -/
def equal (s : IntType) (v : Int) (t : IntType) (w : Int) : Bool :=
  (common s t).wrap v == (common s t).wrap w

/-- The value `v` of type `s` does not belong to `t`, and its conversion to `t` compares equal to it
nevertheless: one of the two is negative and is converted to the unsigned type of the other. -/
def Misread (s t : IntType) (v : Int) : Prop :=
  (v < 0 ∧ t.signed = false ∧ 32 ≤ t.bits ∧ s.bits ≤ t.bits) ∨
    (t.signed = true ∧ s.signed = false ∧ 32 ≤ s.bits ∧ t.bits ≤ s.bits ∧
      (s.modulus : Int) - (t.modulus / 2 : Nat) ≤ v)

instance (s t : IntType) (v : Int) : Decidable (Misread s t v) :=
  inferInstanceAs (Decidable (_ ∨ _))

theorem Misread.not_inRange (h : Misread s t v) : ¬t.InRange v := by
  cases s <;> cases t <;>
    simp [Misread, InRange, least, bound, modulus, bits, signed] at h ⊢ <;> omega

/-- **Casting and comparing back.** -/
theorem equal_wrap_iff (hv : s.InRange v) :
    equal t (t.wrap v) s v = true ↔ t.InRange v ∨ Misread s t v := by
  cases s <;> cases t <;>
    simp [equal, common, promote, Misread, InRange, least, bound, modulus, bits, signed, wrap]
      at hv ⊢ <;> omega

/-! ## Bytes -/

/-- The lowest `n` bytes of a number, the lowest first. -/
def leBytes : (n : Nat) → Nat → List UInt8
  | 0, _ => []
  | n + 1, v => (v % 0x100).toUInt8 :: leBytes n (v / 0x100)

def leNat : List UInt8 → Nat
  | [] => 0
  | b :: bytes => b.toNat + 0x100 * leNat bytes

@[simp] theorem length_leBytes (n v : Nat) : (leBytes n v).length = n := by
  induction n generalizing v with
  | zero => rfl
  | succ n ih => rw [leBytes, List.length_cons, ih]

theorem leNat_leBytes (n v : Nat) : leNat (leBytes n v) = v % 0x100 ^ n := by
  induction n generalizing v with
  | zero => rw [leBytes, leNat, Nat.pow_zero, Nat.mod_one]
  | succ n ih =>
    have hbyte : (v % 0x100).toUInt8.toNat = v % 0x100 := by
      rw [Nat.toUInt8, UInt8.toNat_ofNat', Nat.mod_mod]
    rw [leBytes, leNat, ih, hbyte, Nat.pow_succ', Nat.mod_mul]

/-- `sizeof`. -/
def size (t : IntType) : Nat := t.bits / 8

/-- The object representation of a value of the type. -/
def toBytes (t : IntType) (v : Int) : List UInt8 := leBytes t.size (v % t.modulus).toNat

/-- The value of the type whose object representation the bytes are. -/
def ofBytes (t : IntType) (bytes : List UInt8) : Int := t.wrap (leNat bytes)

@[simp] theorem length_toBytes (t : IntType) (v : Int) : (t.toBytes v).length = t.size :=
  length_leBytes _ _

theorem leNat_toBytes (t : IntType) (v : Int) : (leNat (t.toBytes v) : Int) = v % t.modulus := by
  have hpow : 0x100 ^ t.size = t.modulus := by cases t <;> rfl
  have hpos : (0 : Int) < t.modulus := Int.natCast_pos.2 (Nat.two_pow_pos _)
  rw [toBytes, leNat_leBytes, hpow, Int.natCast_emod,
    Int.toNat_of_nonneg (Int.emod_nonneg _ (Int.ne_of_gt hpos)), Int.emod_emod]

/-- Bytes of one type read as those of a type of the same width. -/
theorem ofBytes_toBytes (h : s.bits = t.bits) (v : Int) : t.ofBytes (s.toBytes v) = t.wrap v := by
  have hmodulus : s.modulus = t.modulus := congrArg (2 ^ ·) h
  rw [ofBytes, leNat_toBytes, hmodulus, wrap, wrap, Int.emod_sub_emod]

end IntType

end GameServer.Lib
