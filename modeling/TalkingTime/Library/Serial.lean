import Mathlib.Algebra.Ring.Int.Defs
import Mathlib.Algebra.Ring.Nat

/-! Serial numbers: counters kept modulo `2 ^ 32` and compared through the sign of
their difference. Below `2 ^ 31` the comparison is that of the counters. -/

namespace Serial

/-- The difference of two serial numbers, read as a signed number. -/
def diff (later earlier : UInt32) : Int := (later - earlier).toInt32.toInt

variable {later earlier : UInt32}

theorem diff_eq_bmod : diff later earlier = Int.bmod (later - earlier).toNat (2 ^ 32) :=
  BitVec.toInt_eq_toNat_bmod _

theorem diff_eq_sub (ahead : later.toNat < earlier.toNat + 2 ^ 31)
    (behind : earlier.toNat ≤ later.toNat + 2 ^ 31) :
    diff later earlier = (later.toNat : Int) - earlier.toNat := by
  have laterBound := later.toNat_lt
  have earlierBound := earlier.toNat_lt
  rw [diff_eq_bmod, UInt32.toNat_sub, Int.bmod_def]
  split <;> omega

theorem diff_neg_iff (small : later.toNat < 2 ^ 31) (bound : earlier.toNat < 2 ^ 31) :
    diff later earlier < 0 ↔ later.toNat < earlier.toNat := by
  rw [diff_eq_sub (by omega) (by omega)]
  omega

theorem diff_pos_iff (small : later.toNat < 2 ^ 31) (bound : earlier.toNat < 2 ^ 31) :
    0 < diff later earlier ↔ earlier.toNat < later.toNat := by
  rw [diff_eq_sub (by omega) (by omega)]
  omega

theorem diff_self (number : UInt32) : diff number number = 0 := by
  rw [diff, UInt32.sub_self]
  rfl

theorem diff_add_neg {width : UInt32} (positive : 0 < width.toNat) (narrow : width.toNat < 2 ^ 31) :
    diff earlier (earlier + width) < 0 := by
  have bound := earlier.toNat_lt
  rw [diff_eq_bmod, UInt32.toNat_sub, UInt32.toNat_add, Int.bmod_def]
  split <;> omega

theorem diff_swap (low : -2 ^ 31 < diff later earlier) : diff earlier later = -diff later earlier := by
  have laterBound := later.toNat_lt
  have earlierBound := earlier.toNat_lt
  simp only [diff_eq_bmod, UInt32.toNat_sub, Int.bmod_def] at low ⊢
  split at low <;> split <;> omega

theorem toNat_succ (small : later.toNat < 2 ^ 31) : (later + 1).toNat = later.toNat + 1 := by
  rw [UInt32.toNat_add, UInt32.toNat_one]
  omega

/-- How far a number is ahead of another one. -/
def ahead (base number : UInt32) : Nat := (number - base).toNat

section Ahead

variable {base number other : UInt32}

theorem ahead_zero (number : UInt32) : ahead 0 number = number.toNat := by
  rw [ahead, UInt32.sub_zero]

theorem ahead_self (base : UInt32) : ahead base base = 0 := by
  rw [ahead, UInt32.sub_self]
  rfl

theorem ahead_inj (same : ahead base number = ahead base other) : number = other := by
  have bound := base.toNat_lt
  have numberBound := number.toNat_lt
  have otherBound := other.toNat_lt
  rw [ahead, ahead, UInt32.toNat_sub, UInt32.toNat_sub] at same
  apply UInt32.toNat_inj.mp
  omega

theorem ahead_lt_of_diff {width : UInt32} (narrow : width.toNat < 2 ^ 31)
    (notBehind : 0 ≤ diff number base) (inside : diff number (base + width) < 0) :
    ahead base number < width.toNat := by
  have bound := base.toNat_lt
  have numberBound := number.toNat_lt
  rw [diff_eq_bmod, UInt32.toNat_sub, Int.bmod_def] at notBehind inside
  rw [UInt32.toNat_add] at inside
  rw [ahead, UInt32.toNat_sub]
  split at notBehind <;> split at inside <;> omega

theorem diff_pos_iff_ahead (near : ahead base number < 2 ^ 31)
    (otherNear : ahead base other < 2 ^ 31) :
    0 < diff number other ↔ ahead base other < ahead base number := by
  have bound := base.toNat_lt
  have numberBound := number.toNat_lt
  have otherBound := other.toNat_lt
  rw [ahead, UInt32.toNat_sub] at near otherNear
  rw [ahead, ahead, diff_eq_bmod, UInt32.toNat_sub, UInt32.toNat_sub, UInt32.toNat_sub, Int.bmod_def]
  split <;> omega

theorem ahead_of_le (ordered : base.toNat ≤ number.toNat) :
    ahead base number = number.toNat - base.toNat :=
  UInt32.toNat_sub_of_le _ _ (UInt32.le_iff_toNat_le.mpr ordered)

theorem ahead_add_ahead (ordered : ahead base other ≤ ahead base number) :
    ahead base other + ahead other number = ahead base number := by
  have bound := base.toNat_lt
  have numberBound := number.toNat_lt
  have otherBound := other.toNat_lt
  simp only [ahead, UInt32.toNat_sub] at ordered ⊢
  omega

theorem ahead_next (near : ahead base number + 1 < 2 ^ 32) :
    ahead base (number + 1) = ahead base number + 1 := by
  have bound := base.toNat_lt
  have numberBound := number.toNat_lt
  simp only [ahead, UInt32.toNat_sub, UInt32.toNat_add, UInt32.toNat_one] at near ⊢
  omega

theorem ahead_succ (positive : 0 < ahead base number) :
    ahead (base + 1) number + 1 = ahead base number := by
  have bound := base.toNat_lt
  have numberBound := number.toNat_lt
  rw [ahead, UInt32.toNat_sub] at positive
  rw [ahead, ahead, UInt32.toNat_sub, UInt32.toNat_sub, UInt32.toNat_add, UInt32.toNat_one]
  omega

theorem ahead_add (base width : UInt32) : ahead base (base + width) = width.toNat := by
  rw [ahead, UInt32.add_comm, UInt32.add_sub_cancel]

theorem diff_eq_add_ahead (small : diff base other + ahead base number < 2 ^ 31) :
    diff number other = diff base other + ahead base number := by
  have bound := base.toNat_lt
  have numberBound := number.toNat_lt
  have otherBound := other.toNat_lt
  simp only [ahead, diff_eq_bmod, UInt32.toNat_sub, Int.bmod_def] at small ⊢
  split at small <;> split <;> omega

theorem diff_eq_ahead (near : ahead base number < 2 ^ 31) :
    diff number base = ahead base number := by
  have added := diff_eq_add_ahead (by rw [diff_self]; omega : diff base base + ahead base number < 2 ^ 31)
  rw [added, diff_self, Int.zero_add]

end Ahead

end Serial
