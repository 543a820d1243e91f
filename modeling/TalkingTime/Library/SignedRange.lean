import Mathlib.Algebra.Order.Ring.Int
import Mathlib.Algebra.Order.Group.Unbundled.Int

/-! Signed integers of 32 bits: where a result is in range, the machine operation
computes it. -/

namespace SignedRange

def InInt32 (value : Int) : Prop := -2 ^ 31 ≤ value ∧ value < 2 ^ 31

instance (value : Int) : Decidable (InInt32 value) := inferInstanceAs (Decidable (_ ∧ _))

variable {a b : Int32} {value : Int}

theorem bmod_eq_self (inRange : InInt32 value) : value.bmod (2 ^ 32) = value := by
  obtain ⟨low, high⟩ := inRange
  exact Int.bmod_eq_of_le (by omega) (by omega)

theorem toInt_add (inRange : InInt32 (a.toInt + b.toInt)) : (a + b).toInt = a.toInt + b.toInt := by
  rw [Int32.toInt_add, bmod_eq_self inRange]

theorem toInt_sub (inRange : InInt32 (a.toInt - b.toInt)) : (a - b).toInt = a.toInt - b.toInt := by
  rw [Int32.toInt_sub, bmod_eq_self inRange]

theorem toInt_neg (inRange : InInt32 (-a.toInt)) : (-a).toInt = -a.toInt := by
  rw [Int32.toInt_neg, bmod_eq_self inRange]

theorem toInt_mul (inRange : InInt32 (a.toInt * b.toInt)) : (a * b).toInt = a.toInt * b.toInt := by
  rw [Int32.toInt_mul, bmod_eq_self inRange]

theorem toInt_div (notNegative : 0 ≤ a.toInt) (positive : 0 < b.toInt) :
    (a / b).toInt = a.toInt / b.toInt := by
  have other : b ≠ -1 := by
    rintro rfl
    exact absurd positive (by decide)
  rw [Int32.toInt_div_of_ne_right a b other, Int.tdiv_eq_ediv_of_nonneg notNegative]

theorem toInt_distance (a : Int32) :
    (if a.toInt64 < 0 then -a.toInt64 else a.toInt64).toInt = |a.toInt| := by
  have low := a.le_toInt
  have high := a.toInt_lt
  have zero : (0 : Int64).toInt = 0 := by decide
  have wide := Int32.toInt_toInt64 a
  split
  · rename_i negative
    have less := Int64.lt_iff_toInt_lt.mp negative
    rw [wide, zero] at less
    rw [Int64.toInt_neg, wide, abs_of_neg less]
    exact Int.bmod_eq_of_le (by omega) (by omega)
  · rename_i other
    have least := Int64.le_iff_toInt_le.mp (Int64.not_lt.mp other)
    rw [wide, zero] at least
    rw [wide, abs_of_nonneg least]

theorem natAbs_toInt_lt (notLeast : a ≠ Int32.minValue) : a.toInt.natAbs < 2 ^ 31 := by
  have low := a.le_toInt
  have high := a.toInt_lt
  have least : Int32.minValue.toInt = -2 ^ 31 := by decide
  have apart : a.toInt ≠ -2 ^ 31 := fun same => notLeast (Int32.toInt_inj.mp (same.trans least.symm))
  omega

theorem toInt_mean {c : Int64} (notNegative : 0 ≤ a.toInt) (notNegative' : 0 ≤ c.toInt)
    (small : c.toInt < 2 ^ 31) :
    ((a.toInt64 + c) / 4).toInt32.toInt = (a.toInt + c.toInt) / 4 := by
  have high := a.toInt_lt
  have sum : (a.toInt64 + c).toInt = a.toInt + c.toInt := by
    rw [Int64.toInt_add, Int32.toInt_toInt64]
    exact Int.bmod_eq_of_le (by omega) (by omega)
  have four : (4 : Int64).toInt = 4 := by decide
  have quotient : ((a.toInt64 + c) / 4).toInt = (a.toInt + c.toInt) / 4 := by
    rw [Int64.toInt_div_of_ne_right _ _ (by decide), sum, four,
      Int.tdiv_eq_ediv_of_nonneg (by omega)]
  rw [Int64.toInt_toInt32, quotient]
  exact bmod_eq_self ⟨by omega, by omega⟩

end SignedRange
