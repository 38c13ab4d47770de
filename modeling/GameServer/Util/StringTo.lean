import GameServer.Lib.FixedWidth
import GameServer.Http.HttpParser

/-!
# `Util::StringTo` of an integer type

`FromString` with base 10: `std::from_chars` has to accept the whole text. A sign is read for a
signed type only, and a number that the type does not have is refused. The decimal text of a number
is read as the number (`stringTo_decimalText`), also with leading zeros, as a column with `ZEROFILL`
has them.
-/

namespace GameServer.Util

open GameServer.Lib GameServer.Http

/-- A minus sign is part of the number for a signed type only. -/
def readSign (t : IntType) : Bytes → Bool × Bytes
  | 0x2d :: digits => if t.signed then (true, digits) else (false, 0x2d :: digits)
  | s => (false, s)

/-- A number that takes the whole text, at least one digit. -/
def readNumber (negative : Bool) (digits : Bytes) : Option Int :=
  if digits.isEmpty then none
  else (fromDigits 0 digits).map fun n => if negative then -(n : Int) else n

/-- `StringTo<T>`; the one of `int` is `stringToInt`. -/
def stringTo (t : IntType) (s : Bytes) : Option Int :=
  (readNumber (readSign t s).1 (readSign t s).2).filter fun val => t.InRange val

/-- The decimal text of a number, filled up with zeros. -/
def decimalText (zeros : Nat) (v : Int) : Bytes :=
  (if v < 0 then [0x2d] else []) ++ (List.replicate zeros 0x30 ++ decimal v.natAbs)

theorem fromDigits_append (value : Nat) (s t : Bytes) :
    fromDigits value (s ++ t) = (fromDigits value s).bind fun value => fromDigits value t := by
  induction s generalizing value with
  | nil => rfl
  | cons c s ih =>
    simp only [List.cons_append, fromDigits]
    split
    · rfl
    · exact ih _

theorem fromDigits_zeros (zeros : Nat) (s : Bytes) :
    fromDigits 0 (List.replicate zeros 0x30 ++ s) = fromDigits 0 s := by
  induction zeros with
  | zero => rfl
  | succ zeros ih => exact ih

theorem fromDigits_digit {value d : Nat} (h : d < 10) :
    fromDigits value [(Nat.digitChar d).toNat.toUInt8] = some (value * 10 + d) := by
  have hdigit : ∀ d < 10, fromDigits 0 [(Nat.digitChar d).toNat.toUInt8] = some d := by decide
  have hd := hdigit d h
  simp only [fromDigits] at hd ⊢
  split at hd
  · cases hd
  · next hrange =>
    rw [Option.some.injEq, Nat.zero_mul, Nat.zero_add] at hd
    rw [if_neg hrange, hd]

/-- The digits of a number are read as the number. -/
theorem fromDigits_decimal (n : Nat) : fromDigits 0 (decimal n) = some n := by
  induction n using Nat.strongRecOn with
  | ind n ih =>
    by_cases h : n < 10
    · rw [decimal, Nat.toDigits_of_lt_base h, List.map_singleton, fromDigits_digit h,
        Nat.zero_mul, Nat.zero_add]
    · have hrest : fromDigits 0 (decimal (n / 10)) = some (n / 10) :=
        ih (n / 10) (Nat.div_lt_self (by omega) (by omega))
      unfold decimal at hrest ⊢
      rw [Nat.toDigits_of_base_le (by omega) (Nat.not_lt.1 h), List.map_append, List.map_singleton,
        fromDigits_append, hrest, Option.bind_some, fromDigits_digit (Nat.mod_lt n (by omega)),
        Nat.div_add_mod']

theorem readNumber_zeros (negative : Bool) (zeros n : Nat) :
    readNumber negative (List.replicate zeros 0x30 ++ decimal n) =
      some (if negative then -(n : Int) else n) := by
  have hne : List.replicate zeros 0x30 ++ decimal n ≠ [] := by
    intro hnil
    have := length_decimal_pos n
    rw [(List.append_eq_nil_iff.1 hnil).2] at this
    exact Nat.lt_irrefl _ this
  simp [readNumber, hne, fromDigits_zeros, fromDigits_decimal]

/-- Digits do not begin with a sign. -/
theorem readSign_zeros (t : IntType) (zeros n : Nat) :
    readSign t (List.replicate zeros 0x30 ++ decimal n) =
      (false, List.replicate zeros 0x30 ++ decimal n) := by
  unfold readSign
  split
  · next digits hcons =>
    have hmem : 0x2d ∈ List.replicate zeros 0x30 ++ decimal n := by
      rw [hcons]
      exact List.mem_cons_self
    rcases List.mem_append.1 hmem with hzero | hdigit
    · exact absurd (List.eq_of_mem_replicate hzero) (by decide)
    · exact absurd (mem_decimal hdigit).1 (by decide)
  · rfl

/-- **A decimal text** is read as its number, if the type has it. -/
theorem stringTo_decimalText (t : IntType) (zeros : Nat) (v : Int) :
    stringTo t (decimalText zeros v) = if t.InRange v then some v else none := by
  unfold stringTo decimalText
  by_cases hneg : v < 0
  · have habs : -(v.natAbs : Int) = v := by omega
    rw [if_pos hneg, List.singleton_append]
    by_cases hsigned : t.signed = true
    · rw [readSign, if_pos hsigned, readNumber_zeros, if_pos rfl, habs]
      simp [Option.filter]
    · -- the sign is no digit, and the type has no negative numbers
      have hrange : ¬t.InRange v := by
        intro h
        have hleast := h.1
        simp only [IntType.least, hsigned, Bool.false_eq_true, if_false] at hleast
        omega
      rw [readSign, if_neg hsigned, if_neg hrange]
      simp [readNumber, fromDigits]
  · have habs : (v.natAbs : Int) = v := by omega
    rw [if_neg hneg, List.nil_append, readSign_zeros, readNumber_zeros, habs]
    simp [Option.filter]

/-- The lengths of HTTP messages are read with the same function. -/
theorem stringToInt_eq (s : Bytes) : stringToInt s = stringTo .int32 s := by
  have hrange : ∀ v : Int, IntType.int32.InRange v ↔ -0x80000000 ≤ v ∧ v < 0x80000000 :=
    fun v => Iff.rfl
  have hneg : ∀ n : Nat, IntType.int32.InRange (-(n : Int)) ↔ n ≤ 0x80000000 := by
    intro n
    rw [hrange]
    omega
  have hpos : ∀ n : Nat, IntType.int32.InRange (n : Int) ↔ n < 0x80000000 := by
    intro n
    rw [hrange]
    omega
  unfold stringToInt stringTo
  split
  next negative digits hmatch =>
  have hsign : readSign .int32 s = (negative, digits) := by
    split at hmatch
    · exact hmatch
    · next hs =>
      unfold readSign
      split
      · next digits => exact (hs digits rfl).elim
      · exact hmatch
  simp only [hsign, readNumber]
  by_cases hempty : digits.isEmpty
  · simp [hempty]
  · cases hdigits : fromDigits 0 digits with
    | none => simp [hempty]
    | some n => cases negative <;> simp [hempty, Option.filter, hneg, hpos]

end GameServer.Util
