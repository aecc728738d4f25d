import Mathlib.Algebra.Order.Ring.Int
import Mathlib.Tactic.Linarith

/-!
# Machine integers within their range

Operations on `Int64` are those of the integers wherever the result fits. Each lemma takes what its
operands are as integers, so that an expression is read from the leaves up. Division cuts off, as
that of the processor does; `divEuclid` and `remEuclid` round down.
-/

namespace ServerBox.Std.MachineInt

/-- An integer that 64 bits hold. -/
def Fits (number : Int) : Prop := -2 ^ 63 ≤ number ∧ number < 2 ^ 63

variable {left right : Int64} {m n : Int}

theorem bmod_of_fits (fits : Fits m) : m.bmod (2 ^ 64) = m := by
  obtain ⟨low, high⟩ := fits
  exact Int.bmod_eq_of_le (by omega) (by omega)

theorem toInt_add (isLeft : left.toInt = m) (isRight : right.toInt = n) (fits : Fits (m + n)) :
    (left + right).toInt = m + n := by
  rw [Int64.toInt_add, isLeft, isRight, bmod_of_fits fits]

theorem toInt_sub (isLeft : left.toInt = m) (isRight : right.toInt = n) (fits : Fits (m - n)) :
    (left - right).toInt = m - n := by
  rw [Int64.toInt_sub, isLeft, isRight, bmod_of_fits fits]

theorem toInt_mul (isLeft : left.toInt = m) (isRight : right.toInt = n) (fits : Fits (m * n)) :
    (left * right).toInt = m * n := by
  rw [Int64.toInt_mul, isLeft, isRight, bmod_of_fits fits]

/-- Only the least number divided by `-1` does not fit. -/
theorem toInt_div (isLeft : left.toInt = m) (isRight : right.toInt = n) (positive : 0 < n) :
    (left / right).toInt = m.tdiv n := by
  rw [Int64.toInt_div_of_ne_right, isLeft, isRight]
  rintro rfl
  have negative : (-1 : Int64).toInt = -1 := rfl
  omega

theorem toInt_mod (isLeft : left.toInt = m) (isRight : right.toInt = n) :
    (left % right).toInt = m.tmod n := by
  rw [Int64.toInt_mod, isLeft, isRight]

/-- A natural dividend has no fraction to cut off. -/
theorem toInt_div_of_nonneg (isLeft : left.toInt = m) (isRight : right.toInt = n) (natural : 0 ≤ m)
    (positive : 0 < n) : (left / right).toInt = m / n := by
  rw [toInt_div isLeft isRight positive, Int.tdiv_eq_ediv_of_nonneg natural]

theorem le_iff (isLeft : left.toInt = m) (isRight : right.toInt = n) : left ≤ right ↔ m ≤ n := by
  rw [Int64.le_iff_toInt_le, isLeft, isRight]

theorem lt_iff (isLeft : left.toInt = m) (isRight : right.toInt = n) : left < right ↔ m < n := by
  rw [Int64.lt_iff_toInt_lt, isLeft, isRight]

theorem toInt_ite {condition : Prop} [Decidable condition] {holds : Prop} [Decidable holds]
    (same : condition ↔ holds) (isLeft : left.toInt = m) (isRight : right.toInt = n) :
    (if condition then left else right).toInt = if holds then m else n := by
  by_cases holding : holds
  · rw [if_pos holding, if_pos (same.mpr holding), isLeft]
  · rw [if_neg holding, if_neg (mt same.mp holding), isRight]

/-! ### Division that rounds down -/

def divEuclid (left right : Int64) : Int64 :=
  let quotient := left / right
  if left % right < 0 then if 0 < right then quotient - 1 else quotient + 1 else quotient

def remEuclid (left right : Int64) : Int64 :=
  let rest := left % right
  if rest < 0 then rest + (if right < 0 then -right else right) else rest

theorem tmod_neg_iff (positive : 0 < n) : m.tmod n < 0 ↔ ¬(0 ≤ m ∨ n ∣ m) := by
  have within := Int.emod_lt_of_pos m positive
  have natural := Int.emod_nonneg m positive.ne'
  rw [Int.tmod_eq_emod]
  split
  next cutOff => simp [cutOff, natural]
  next cutOff =>
      simp only [cutOff, not_false_eq_true, iff_true]
      omega

theorem toInt_divEuclid (isLeft : left.toInt = m) (isRight : right.toInt = n)
    (positive : 0 < n) : (divEuclid left right).toInt = m / n := by
  have quotient := toInt_div isLeft isRight positive
  have zero : (0 : Int64).toInt = 0 := rfl
  have one : (1 : Int64).toInt = 1 := rfl
  have isNegative : left % right < 0 ↔ ¬(0 ≤ m ∨ n ∣ m) :=
    (lt_iff (toInt_mod isLeft isRight) zero).trans (tmod_neg_iff positive)
  have fits : Fits (m / n) := by
    have low := left.le_toInt
    have high := left.toInt_lt
    rw [isLeft] at low high
    constructor
    · exact (Int.le_ediv_iff_mul_le positive).mpr (by nlinarith)
    · exact (Int.ediv_lt_iff_lt_mul positive).mpr (by nlinarith)
  rw [Int.tdiv_eq_ediv, Int.sign_eq_one_of_pos positive] at quotient
  unfold divEuclid
  by_cases rounded : 0 ≤ m ∨ n ∣ m
  · rw [if_neg (by simp [isNegative, rounded]), quotient, if_pos rounded, add_zero]
  · rw [if_pos (isNegative.mpr rounded), if_pos ((lt_iff zero isRight).mpr positive)]
    rw [if_neg rounded] at quotient
    rw [toInt_sub quotient one (by rwa [add_sub_cancel_right]), add_sub_cancel_right]

theorem toInt_remEuclid (isLeft : left.toInt = m) (isRight : right.toInt = n)
    (positive : 0 < n) : (remEuclid left right).toInt = m % n := by
  have rest := toInt_mod isLeft isRight
  have zero : (0 : Int64).toInt = 0 := rfl
  have isNegative : left % right < 0 ↔ ¬(0 ≤ m ∨ n ∣ m) :=
    (lt_iff rest zero).trans (tmod_neg_iff positive)
  have least := right.toInt_lt
  have within := Int.emod_lt_of_pos m positive
  have natural := Int.emod_nonneg m positive.ne'
  rw [Int.tmod_eq_emod] at rest
  unfold remEuclid
  by_cases rounded : 0 ≤ m ∨ n ∣ m
  · rw [if_neg (by simp [isNegative, rounded]), rest, if_pos rounded, Nat.cast_zero,
      sub_zero]
  · have size : (n.natAbs : Int) = n := by omega
    rw [if_pos (isNegative.mpr rounded), if_neg ((lt_iff isRight zero).not.mpr (by omega))]
    rw [if_neg rounded, size] at rest
    rw [toInt_add rest isRight ⟨by omega, by omega⟩, sub_add_cancel]

end ServerBox.Std.MachineInt
