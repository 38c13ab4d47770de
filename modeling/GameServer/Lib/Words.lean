/-!
# Casts to `int`

A size that is cast to an `int` of 32 bits keeps its value exactly if it is below 2^31.
-/

namespace GameServer.Lib

/-- A cast to `int`. -/
def toInt (n : Nat) : Int := (n : Int).bmod 0x100000000

theorem toInt_of_lt {n : Nat} (h : n < 0x80000000) : toInt n = n :=
  Int.bmod_eq_of_le (by omega) (by omega)

theorem toInt_toNat_eq_iff {n : Nat} : (toInt n).toNat = n ↔ n < 0x80000000 := by
  constructor
  · intro h
    have hlt := Int.bmod_lt (x := n) (m := 0x100000000) (by omega)
    unfold toInt at h
    omega
  · intro h
    rw [toInt_of_lt h, Int.toNat_natCast]

end GameServer.Lib
