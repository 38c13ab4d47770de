import Mathlib.Data.BitVec

/-!
# Differences of readings of the clock

`GetMillSecTimeDiff` subtracts two readings of a counter of 64 bits. The branch for a counter that
has gone round since the old reading counts from the old reading to the greatest value and then from
zero on, and leaves out the step between these two. So the difference is one too small there
(`getMillSecTimeDiff_add_wraps`), and the parts of an interval add up to the whole only if the
counter goes round as often in the parts as in the whole (`wraps_add_eq_iff`).
-/

namespace GameServer.Util

/-- `GetMillSecTimeDiff` of two values of `uint64_t`. -/
def getMillSecTimeDiff (oldTime newTime : Nat) : Nat :=
  if oldTime > newTime then (0xffffffffffffffff - oldTime) + newTime else newTime - oldTime

/-- How often the counter has gone round between the readings, at least. -/
def wraps (oldTime newTime : Nat) : Nat := if newTime < oldTime then 1 else 0

theorem wraps_cases (oldTime newTime : Nat) :
    (wraps oldTime newTime = 0 ∧ oldTime ≤ newTime) ∨
      (wraps oldTime newTime = 1 ∧ newTime < oldTime) := by
  unfold wraps
  split
  · next h => exact .inr ⟨rfl, h⟩
  · next h => exact .inl ⟨rfl, Nat.not_lt.1 h⟩

section Readings

variable (a b c : BitVec 64)

/-- The time that passes from the reading `a` to the reading `b`. -/
theorem toNat_sub_eq : ((b - a).toNat : Int) =
    b.toNat - a.toNat + 0x10000000000000000 * (wraps a.toNat b.toNat : Int) := by
  have ha := a.isLt
  have hb := b.isLt
  rw [BitVec.toNat_sub, wraps]
  split <;> omega

/-- **The difference and the elapsed time.** -/
theorem getMillSecTimeDiff_add_wraps :
    getMillSecTimeDiff a.toNat b.toNat + wraps a.toNat b.toNat = (b - a).toNat := by
  have ha := a.isLt
  have hsub := toNat_sub_eq a b
  unfold getMillSecTimeDiff
  unfold wraps at hsub ⊢
  split at hsub <;> split <;> omega

/-- No operand and no result is out of the range of `uint64_t`. -/
theorem getMillSecTimeDiff_lt :
    getMillSecTimeDiff a.toNat b.toNat < 0x10000000000000000 := by
  have hlt := (b - a).isLt
  have hdiff := getMillSecTimeDiff_add_wraps a b
  omega

theorem wraps_eq_zero_iff : wraps a.toNat b.toNat = 0 ↔ a ≤ b := by
  rw [BitVec.le_def, wraps]
  split <;> omega

/-- The counter goes round as often in the parts as in the whole exactly if it comes to the reading
`b` no later than to `c`. -/
theorem wraps_add_eq_iff :
    wraps a.toNat b.toNat + wraps b.toNat c.toNat = wraps a.toNat c.toNat ↔ b - a ≤ c - a := by
  have hb := toNat_sub_eq a b
  have hc := toNat_sub_eq a c
  have halt := a.isLt
  have hblt := b.isLt
  have hclt := c.isLt
  have hab := wraps_cases a.toNat b.toNat
  have hbc := wraps_cases b.toNat c.toNat
  have hac := wraps_cases a.toNat c.toNat
  rw [BitVec.le_def]
  omega

/-- The elapsed times of the parts add up, whatever the reading between them. -/
theorem elapsed_add : ((b - a).toNat + (c - b).toNat) % 0x10000000000000000 = (c - a).toNat := by
  have hsum : (b - a) + (c - b) = c - a := by
    rw [BitVec.add_comm]
    exact sub_add_sub_cancel c b a
  rw [← hsum, BitVec.toNat_add]

theorem diff_eq_elapsed_iff :
    getMillSecTimeDiff a.toNat b.toNat = (b - a).toNat ↔ a ≤ b := by
  rw [← wraps_eq_zero_iff, ← getMillSecTimeDiff_add_wraps]
  omega

/-- **Exactly when the differences of the parts add up to the difference of the whole.** -/
theorem diff_add_iff :
    (getMillSecTimeDiff a.toNat b.toNat + getMillSecTimeDiff b.toNat c.toNat) %
        0x10000000000000000 = getMillSecTimeDiff a.toNat c.toNat ↔
      b - a ≤ c - a := by
  have hab := getMillSecTimeDiff_add_wraps a b
  have hbc := getMillSecTimeDiff_add_wraps b c
  have hac := getMillSecTimeDiff_add_wraps a c
  have hlt := getMillSecTimeDiff_lt a c
  have hsum := elapsed_add a b c
  have hwab := wraps_cases a.toNat b.toNat
  have hwbc := wraps_cases b.toNat c.toNat
  have hwac := wraps_cases a.toNat c.toNat
  rw [← wraps_add_eq_iff]
  omega

/-- **Elapsed time.** The difference of two readings is the elapsed time exactly if the counter has
not gone round between them, and the differences of the parts of an interval add up to that of the
whole exactly if its end is not passed before the reading at which it is split. -/
theorem getMillSecTimeDiff_as_claimed_iff :
    (getMillSecTimeDiff a.toNat b.toNat = (b - a).toNat ↔ a ≤ b) ∧
      ((getMillSecTimeDiff a.toNat b.toNat + getMillSecTimeDiff b.toNat c.toNat) %
          0x10000000000000000 = getMillSecTimeDiff a.toNat c.toNat ↔
        b - a ≤ c - a) :=
  ⟨diff_eq_elapsed_iff a b, diff_add_iff a b c⟩

end Readings

/-- From the greatest reading to zero the counter takes one step. -/
theorem getMillSecTimeDiff_wrapped : ¬∀ oldTime newTime : BitVec 64,
    getMillSecTimeDiff oldTime.toNat newTime.toNat = (newTime - oldTime).toNat := by
  intro h
  exact absurd (h (BitVec.allOnes 64) 0) (by decide)

end GameServer.Util
