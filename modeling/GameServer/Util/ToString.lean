import GameServer.Lib.Exec
import GameServer.Util.StringTo
import Mathlib.Data.List.Induction

/-!
# `Util::ToString` of an integer type

The number is printed into a buffer of 11 bytes, or of 20 for a type of 8 bytes. `toString_eq` says
that the buffer is long enough for every value of the type, so that the `Assert` after `to_chars`
does not fail. The text is read back as the value by `stringTo_decimalText`; a text that is read and
is written as `to_chars` writes numbers is printed again by `decimalText_of_stringTo`.
-/

namespace GameServer.Util

open GameServer.Lib GameServer.Http

/-- `std::to_chars`: the decimal text goes to the front of the buffer, and the result tells where it
ends. -/
def toChars (buf : Bytes) (val : Int) : Option (Bytes × Nat) :=
  let text := decimalText 0 val
  if text.length ≤ buf.length then some (text ++ buf.drop text.length, text.length) else none

def bufferSize (t : IntType) : Nat := if t.size < 8 then 11 else 20

/-- `ToString` of a value of an integer type. -/
def toString (t : IntType) (val : t.Value) : Except Halt Bytes :=
  match toChars (List.replicate (bufferSize t) 0) val.val with
  | some (buf, ptr) => .ok (buf.take ptr)
  | none => .error .abort

/-- A zero that other digits follow, after the sign. -/
def SuperfluousZero : Bytes → Prop
  | 0x2d :: 0x30 :: digits => digits ≠ []
  | 0x30 :: digits => digits ≠ []
  | _ => False

/-! ## The buffer -/

theorem length_decimal_le_of_lt {n : Nat} :
    (n < 0x100000000 → (decimal n).length ≤ 10) ∧
      (n < 0x10000000000000000 → (decimal n).length ≤ 20) ∧
      (n ≤ 0x8000000000000000 → (decimal n).length ≤ 19) := by
  simp only [decimal, List.length_map]
  refine ⟨?_, ?_, ?_⟩ <;>
  · intro h
    rw [Nat.length_toDigits_le_iff (by omega) (by omega)]
    omega

/-- The types narrower than 8 bytes have values of 32 bits at most. -/
theorem natAbs_lt_of_narrow {t : IntType} {v : Int} (ht : t.size < 8) (h : t.InRange v) :
    v.natAbs < 0x100000000 := by
  cases t <;>
    simp [IntType.InRange, IntType.least, IntType.bound, IntType.modulus, IntType.bits,
      IntType.signed, IntType.size] at h ht <;> omega

/-- A wide type has either no negative values or no magnitudes of 20 digits. -/
theorem wide_range {t : IntType} {v : Int} (ht : ¬t.size < 8) (h : t.InRange v) :
    (0 ≤ v ∧ v.natAbs < 0x10000000000000000) ∨ v.natAbs ≤ 0x8000000000000000 := by
  cases t <;>
    simp [IntType.InRange, IntType.least, IntType.bound, IntType.modulus, IntType.bits,
      IntType.signed, IntType.size] at h ht <;> omega

theorem length_decimalText (v : Int) :
    (decimalText 0 v).length = (if v < 0 then 1 else 0) + (decimal v.natAbs).length := by
  unfold decimalText
  split
  · simp [Nat.add_comm]
  · simp

/-- **The buffer is long enough**, the sign included. -/
theorem length_decimalText_le {t : IntType} {v : Int} (h : t.InRange v) :
    (decimalText 0 v).length ≤ bufferSize t := by
  obtain ⟨hten, htwenty, hnineteen⟩ := @length_decimal_le_of_lt v.natAbs
  rw [length_decimalText, bufferSize]
  by_cases ht : t.size < 8
  · have := hten (natAbs_lt_of_narrow ht h)
    rw [if_pos ht]
    split <;> omega
  · rw [if_neg ht]
    rcases wide_range ht h with ⟨hpos, hlt⟩ | hle
    · have := htwenty hlt
      rw [if_neg (Int.not_lt.2 hpos)]
      omega
    · have := hnineteen hle
      split <;> omega

theorem toString_eq (t : IntType) (v : t.Value) : toString t v = .ok (decimalText 0 v.val) := by
  have hle := length_decimalText_le v.inRange
  rw [toString, toChars, List.length_replicate]
  simp only [if_pos hle]
  rw [List.take_left]

/-! ## Texts that are printed again -/

theorem fromDigits_eq_some_singleton {m n : Nat} {c : UInt8} (h : fromDigits m [c] = some n) :
    ∃ d < 10, c = (Nat.digitChar d).toNat.toUInt8 ∧ n = m * 10 + d := by
  simp only [fromDigits] at h
  split at h
  · cases h
  · next hrange =>
    simp only [Bool.or_eq_true, decide_eq_true_eq, not_or, UInt8.not_lt] at hrange
    have hlo : 0x30 ≤ c.toNat := UInt8.le_iff_toNat_le.1 hrange.1
    have hhi : c.toNat ≤ 0x39 := UInt8.le_iff_toNat_le.1 hrange.2
    have hdigit : ∀ d < 10, (Nat.digitChar d).toNat.toUInt8.toNat = 0x30 + d := by decide
    refine ⟨c.toNat - 0x30, by omega, ?_, (Option.some.inj h).symm⟩
    rw [← UInt8.toNat_inj, hdigit _ (by omega)]
    omega

/-- **Digits without a superfluous zero** are those of their number. -/
theorem decimal_of_fromDigits {s : Bytes} {n : Nat} (hne : s ≠ [])
    (hzero : s.head? = some 0x30 → s = [0x30]) (h : fromDigits 0 s = some n) : decimal n = s := by
  induction s using List.reverseRecOn generalizing n with
  | nil => exact absurd rfl hne
  | append_singleton s c ih =>
    rw [fromDigits_append] at h
    obtain ⟨m, hm, hc⟩ := Option.bind_eq_some_iff.1 h
    obtain ⟨d, hd, rfl, rfl⟩ := fromDigits_eq_some_singleton hc
    by_cases hs : s = []
    · subst hs
      obtain rfl : 0 = m := Option.some.inj hm
      rw [Nat.zero_mul, Nat.zero_add, decimal, Nat.toDigits_of_lt_base hd]
      rfl
    · -- the digits before the last are not a single zero, so their number is positive
      have hhead : s.head? ≠ some 0x30 := by
        intro hhead
        have happend := hzero (by rw [List.head?_append, hhead]; rfl)
        rcases List.append_eq_singleton_iff.1 happend with ⟨hnil, -⟩ | ⟨-, hdigit⟩
        · exact hs hnil
        · exact absurd hdigit (List.cons_ne_nil _ _)
      have hrest : decimal m = s := ih hs (fun h => absurd h hhead) hm
      have hpos : 0 < m := by
        rcases Nat.eq_zero_or_pos m with rfl | hpos
        · exact absurd (hrest ▸ rfl) hhead
        · exact hpos
      unfold decimal at hrest ⊢
      rw [Nat.toDigits_of_base_le (by omega) (by omega), List.map_append, List.map_singleton,
        show (m * 10 + d) / 10 = m by omega, show (m * 10 + d) % 10 = d by omega, hrest]

/-- A text that is read consists of a sign and digits. -/
theorem stringTo_eq_some {t : IntType} {s : Bytes} {v : Int} (h : stringTo t s = some v) :
    t.InRange v ∧ ∃ digits n, digits ≠ [] ∧ fromDigits 0 digits = some n ∧
      ((s = digits ∧ v = n) ∨ (s = 0x2d :: digits ∧ v = -n)) := by
  obtain ⟨hread, hrange⟩ := Option.filter_eq_some_iff.1 h
  refine ⟨of_decide_eq_true hrange, (readSign t s).2, ?_⟩
  unfold readNumber at hread
  split at hread
  · cases hread
  · next hempty =>
    obtain ⟨_, hcast, rfl⟩ := Option.map_eq_some_iff.1 hread
    obtain ⟨n, hn, hval⟩ := Option.bind_eq_some_iff.1 hcast
    obtain rfl := Option.some.inj hval
    refine ⟨n, by simpa using hempty, hn, ?_⟩
    unfold readSign
    split
    · split
      · exact .inr ⟨rfl, rfl⟩
      · exact .inl ⟨rfl, rfl⟩
    · exact .inl ⟨rfl, rfl⟩

/-- **A text that is read and is written as numbers are printed** is printed again. -/
theorem decimalText_of_stringTo {t : IntType} {s : Bytes} {v : Int} (h : stringTo t s = some v)
    (hzero : ¬SuperfluousZero s) (hminus : s ≠ bytes "-0") : decimalText 0 v = s := by
  obtain ⟨-, digits, n, hne, hn, hs⟩ := stringTo_eq_some h
  rcases hs with ⟨rfl, rfl⟩ | ⟨rfl, rfl⟩
  · have hdecimal : decimal n = s := by
      refine decimal_of_fromDigits hne (fun hhead => ?_) hn
      obtain ⟨rest, rfl⟩ := List.head?_eq_some_iff.1 hhead
      rw [Classical.not_not.1 hzero]
    rw [decimalText, if_neg (by omega), Int.natAbs_natCast, hdecimal]
    rfl
  · have hdecimal : decimal n = digits := by
      refine decimal_of_fromDigits hne (fun hhead => ?_) hn
      obtain ⟨rest, rfl⟩ := List.head?_eq_some_iff.1 hhead
      rw [Classical.not_not.1 hzero]
    have hpos : n ≠ 0 := by
      rintro rfl
      exact hminus (congrArg (0x2d :: ·) hdecimal.symm)
    rw [decimalText, if_pos (by omega), Int.natAbs_neg, Int.natAbs_natCast, hdecimal]
    rfl

/-! ## Round trips -/

/-- **Printing and reading.** The `Assert` holds for every value of the type, and the text is read
as the value; a text that is read, that has no superfluous zero and is not a negative zero is printed
for the value that it is read as. -/
theorem toString_stringTo (t : IntType) :
    (∀ v : t.Value, ∃ text, toString t v = .ok text ∧ stringTo t text = some v.val) ∧
      ∀ s v, stringTo t s = some v → ¬SuperfluousZero s → s ≠ bytes "-0" →
        ∃ h : t.InRange v, toString t ⟨v, h⟩ = .ok s := by
  constructor
  · intro v
    refine ⟨_, toString_eq t v, ?_⟩
    rw [stringTo_decimalText, if_pos v.inRange]
  · intro s v h hzero hminus
    refine ⟨(stringTo_eq_some h).1, ?_⟩
    rw [toString_eq, decimalText_of_stringTo h hzero hminus]

end GameServer.Util
