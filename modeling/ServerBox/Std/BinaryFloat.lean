import Mathlib.Data.Nat.Log
import Mathlib.Data.Nat.Bits
import Mathlib.Tactic.Ring
import Mathlib.Tactic.Linarith

/-!
# Binary floating point

The binary interchange formats as their encodings, with the conversion from one format to
another and from the integers: the nearest value, a tie to the even encoding.
-/

namespace ServerBox.Std

/-- A binary interchange format by the width of its two fields. -/
structure FloatFormat where
  exponentBits : Nat
  fractionBits : Nat
  deriving DecidableEq

namespace FloatFormat

def binary32 : FloatFormat := ⟨8, 23⟩

def binary64 : FloatFormat := ⟨11, 52⟩

/-- The encoding of infinity; those below it are finite, those above it are no number. -/
def infinity (format : FloatFormat) : Nat :=
  (2 ^ format.exponentBits - 1) * 2 ^ format.fractionBits

/-- The exponent of the last place of the subnormal numbers. -/
def lowest (format : FloatFormat) : Int :=
  2 - 2 ^ (format.exponentBits - 1) - format.fractionBits

end FloatFormat

/-- A number of a format: its sign, and the exponent and the fraction fields read as one
number. -/
structure BinaryFloat (format : FloatFormat) where
  negative : Bool
  magnitude : Nat
  bounded : magnitude < 2 ^ (format.exponentBits + format.fractionBits)
  deriving DecidableEq

/-- The nearest quotient, a tie to the even one. -/
def divideEven (dividend divisor : Nat) : Nat :=
  let quotient := dividend / divisor
  let remainder := dividend % divisor
  if 2 * remainder < divisor ∨ (2 * remainder = divisor ∧ quotient % 2 = 0) then quotient
  else quotient + 1

@[simp] theorem divideEven_mul_right (dividend divisor : Nat) {factor : Nat}
    (positive : 0 < factor) :
    divideEven (dividend * factor) (divisor * factor) = divideEven dividend divisor := by
  have quotient : dividend * factor / (divisor * factor) = dividend / divisor :=
    Nat.mul_div_mul_right _ _ positive
  have remainder : dividend * factor % (divisor * factor) = dividend % divisor * factor :=
    Nat.mul_mod_mul_right _ _ _
  have less : 2 * (dividend % divisor * factor) < divisor * factor ↔
      2 * (dividend % divisor) < divisor := by
    rw [← Nat.mul_assoc]
    exact Nat.mul_lt_mul_right positive
  have same : 2 * (dividend % divisor * factor) = divisor * factor ↔
      2 * (dividend % divisor) = divisor := by
    rw [← Nat.mul_assoc]
    exact Nat.mul_left_inj positive.ne'
  simp only [divideEven, quotient, remainder, less, same]

theorem divideEven_mul_self (quotient : Nat) {divisor : Nat} (positive : 0 < divisor) :
    divideEven (quotient * divisor) divisor = quotient := by
  simp [divideEven, Nat.mul_div_cancel _ positive, positive]

/-- How many units of two to the power `place` make `significand` of two to the power `scale`. -/
def unitsAt (significand : Nat) (scale place : Int) : Nat :=
  if place ≤ scale then significand * 2 ^ (scale - place).toNat
  else divideEven significand (2 ^ (place - scale).toNat)

@[simp] theorem unitsAt_self (significand : Nat) (scale : Int) :
    unitsAt significand scale scale = significand := by
  simp [unitsAt]

/-- The same number written with a smaller scale has as many units. -/
theorem unitsAt_shift (significand : Nat) (scale place : Int) (shift : Nat) :
    unitsAt (significand * 2 ^ shift) (scale - shift) place = unitsAt significand scale place := by
  unfold unitsAt
  by_cases above : place ≤ scale
  · rw [if_pos above]
    by_cases stillAbove : place ≤ scale - shift
    · have sum : (scale - place).toNat = shift + (scale - shift - place).toNat := by omega
      rw [if_pos stillAbove, sum, Nat.pow_add, Nat.mul_assoc]
    · have sum : shift = (scale - place).toNat + (place - (scale - shift)).toNat := by omega
      have split : 2 ^ shift =
          2 ^ (scale - place).toNat * 2 ^ (place - (scale - shift)).toNat := by
        rw [← Nat.pow_add, ← sum]
      rw [if_neg stillAbove, split, ← Nat.mul_assoc,
        divideEven_mul_self _ (Nat.two_pow_pos _)]
  · have below : ¬ place ≤ scale - shift := by omega
    have sum : (place - (scale - shift)).toNat = (place - scale).toNat + shift := by omega
    rw [if_neg above, if_neg below, sum, Nat.pow_add,
      divideEven_mul_right _ _ (Nat.two_pow_pos _)]

namespace FloatFormat

variable (format : FloatFormat)

/-- The exponent of the last place that the format keeps of a number. -/
def lastPlace (significand : Nat) (scale : Int) : Int :=
  max (Nat.log 2 significand + scale - format.fractionBits) format.lowest

/-- The encoding nearest to `significand` of two to the power `scale`. The significand counts
from the bit above the fraction, so a carry out of it is a carry into the exponent. -/
def roundMagnitude (significand : Nat) (scale : Int) : Nat :=
  if significand = 0 then 0
  else
    let place := format.lastPlace significand scale
    min format.infinity
      ((place - format.lowest).toNat * 2 ^ format.fractionBits +
        unitsAt significand scale place)

theorem infinity_lt : format.infinity < 2 ^ (format.exponentBits + format.fractionBits) := by
  rw [infinity, Nat.pow_add]
  exact Nat.mul_lt_mul_of_pos_right (Nat.sub_lt (Nat.two_pow_pos _) Nat.one_pos)
    (Nat.two_pow_pos _)

theorem roundMagnitude_le (significand : Nat) (scale : Int) :
    format.roundMagnitude significand scale ≤ format.infinity := by
  unfold roundMagnitude
  split
  next => exact Nat.zero_le _
  next => exact Nat.min_le_left _ _

/-- Rounding depends on the number only, not on how it is written. -/
theorem roundMagnitude_shift (significand : Nat) (scale : Int) (shift : Nat) :
    format.roundMagnitude (significand * 2 ^ shift) (scale - shift) =
      format.roundMagnitude significand scale := by
  by_cases zero : significand = 0
  · simp [roundMagnitude, zero]
  · have nonzero : significand * 2 ^ shift ≠ 0 :=
      Nat.mul_ne_zero zero (Nat.two_pow_pos _).ne'
    have high : Nat.log 2 (significand * 2 ^ shift) = Nat.log 2 significand + shift := by
      induction shift with
      | zero => simp
      | succ shift inductionHypothesis =>
          have smaller : significand * 2 ^ shift ≠ 0 :=
            Nat.mul_ne_zero zero (Nat.two_pow_pos _).ne'
          rw [Nat.pow_succ, ← Nat.mul_assoc, Nat.log_mul_base (by decide) smaller,
            inductionHypothesis smaller]
          rfl
    have place : format.lastPlace (significand * 2 ^ shift) (scale - shift) =
        format.lastPlace significand scale := by
      simp only [lastPlace, high]
      congr 1
      push_cast
      ring
    simp only [roundMagnitude, zero, nonzero, if_false, place, unitsAt_shift]

end FloatFormat

namespace BinaryFloat

variable {format : FloatFormat}

def IsFinite (number : BinaryFloat format) : Prop := number.magnitude < format.infinity

instance (number : BinaryFloat format) : Decidable number.IsFinite :=
  inferInstanceAs (Decidable (_ < _))

/-- How many places the last one of a number is above the format's lowest. -/
def places (number : BinaryFloat format) : Nat :=
  number.magnitude / 2 ^ format.fractionBits - 1

/-- The digits of a number as an integer, the leading one of a normal number included. -/
def significand (number : BinaryFloat format) : Nat :=
  if number.magnitude < 2 ^ format.fractionBits then number.magnitude
  else 2 ^ format.fractionBits + number.magnitude % 2 ^ format.fractionBits

/-- The exponent of the last place of a number. -/
def scale (number : BinaryFloat format) : Int := format.lowest + number.places

/-- The number of the format nearest to `significand` of two to the power `scale`. -/
def round (format : FloatFormat) (negative : Bool) (significand : Nat) (scale : Int) :
    BinaryFloat format where
  negative := negative
  magnitude := format.roundMagnitude significand scale
  bounded := lt_of_le_of_lt (format.roundMagnitude_le _ _) format.infinity_lt

/-- The number of the format nearest to an integer. -/
def ofInt (format : FloatFormat) (value : Int) : BinaryFloat format :=
  round format (Decidable.decide (value < 0)) value.natAbs 0

/-- The same number in another format, rounded where it must be; what is no number gets the
one encoding of it that every format has. -/
def convert (target : FloatFormat) (number : BinaryFloat format) : BinaryFloat target :=
  if number.magnitude < format.infinity then
    round target number.negative number.significand number.scale
  else if number.magnitude = format.infinity then
    ⟨number.negative, target.infinity, target.infinity_lt⟩
  else
    ⟨number.negative, 2 ^ (target.exponentBits + target.fractionBits) - 1,
      Nat.sub_lt (Nat.two_pow_pos _) Nat.one_pos⟩

theorem places_significand (number : BinaryFloat format) :
    number.places * 2 ^ format.fractionBits + number.significand = number.magnitude := by
  unfold places significand
  split
  next subnormal => simp [Nat.div_eq_of_lt subnormal]
  next normal =>
      have positive : 0 < number.magnitude / 2 ^ format.fractionBits :=
        Nat.div_pos (Nat.not_lt.mp normal) (Nat.two_pow_pos _)
      have whole := Nat.div_add_mod' number.magnitude (2 ^ format.fractionBits)
      obtain ⟨places, shown⟩ : ∃ places, number.magnitude / 2 ^ format.fractionBits = places + 1 :=
        ⟨_, (Nat.sub_add_cancel positive).symm⟩
      rw [shown] at whole ⊢
      rw [Nat.add_mul] at whole
      simp only [Nat.add_sub_cancel]
      omega

theorem significand_lt (number : BinaryFloat format) :
    number.significand < 2 ^ (format.fractionBits + 1) := by
  have fraction : number.magnitude % 2 ^ format.fractionBits < 2 ^ format.fractionBits :=
    Nat.mod_lt _ (Nat.two_pow_pos _)
  have double : 2 ^ (format.fractionBits + 1) = 2 ^ format.fractionBits + 2 ^ format.fractionBits :=
    by rw [Nat.pow_succ]; omega
  unfold significand
  split <;> omega

/-- Only zero has no digits. -/
theorem magnitude_eq_zero {number : BinaryFloat format} (zero : number.significand = 0) :
    number.magnitude = 0 := by
  have positive := Nat.two_pow_pos format.fractionBits
  unfold significand at zero
  split at zero <;> omega

/-- The leading digit of a normal number is the one above the fraction. -/
theorem log_significand {number : BinaryFloat format}
    (normal : 2 ^ format.fractionBits ≤ number.magnitude) :
    Nat.log 2 number.significand = format.fractionBits := by
  refine Nat.log_eq_of_pow_le_of_lt_pow ?_ number.significand_lt
  rw [significand, if_neg (Nat.not_lt.mpr normal)]
  exact Nat.le_add_right _ _

/-- The last place of a number other than zero is the one its encoding says. -/
theorem lastPlace_significand (number : BinaryFloat format) (nonzero : number.significand ≠ 0) :
    format.lastPlace number.significand number.scale = number.scale := by
  by_cases normal : 2 ^ format.fractionBits ≤ number.magnitude
  · rw [FloatFormat.lastPlace, log_significand normal, scale]
    omega
  · have subnormal : number.magnitude < 2 ^ format.fractionBits := Nat.not_le.mp normal
    have digits : number.significand = number.magnitude := if_pos subnormal
    have high : Nat.log 2 number.significand < format.fractionBits :=
      Nat.log_lt_of_lt_pow nonzero (digits ▸ subnormal)
    have none : number.places = 0 := by simp [places, Nat.div_eq_of_lt subnormal]
    simp only [FloatFormat.lastPlace, scale, none]
    omega

/-- A number of the format is its own rounding. -/
theorem roundMagnitude_significand {number : BinaryFloat format} (finite : number.IsFinite) :
    format.roundMagnitude number.significand number.scale = number.magnitude := by
  have encoded := number.places_significand
  by_cases zero : number.significand = 0
  · simp [FloatFormat.roundMagnitude, zero, magnitude_eq_zero zero]
  · have place : (number.scale - format.lowest).toNat = number.places := by
      rw [scale]
      omega
    simp only [FloatFormat.roundMagnitude, zero, if_false, lastPlace_significand number zero, place,
      unitsAt_self, encoded]
    exact Nat.min_eq_right finite.le

/-- An encoding with a leading digit says its last place and its digits. -/
theorem decode {number : BinaryFloat format} {places significand : Nat}
    (encoded : number.magnitude = places * 2 ^ format.fractionBits + significand)
    (leading : 2 ^ format.fractionBits ≤ significand)
    (short : significand < 2 ^ (format.fractionBits + 1)) :
    number.places = places ∧ number.significand = significand := by
  have double : 2 ^ (format.fractionBits + 1) = 2 ^ format.fractionBits + 2 ^ format.fractionBits :=
    by rw [Nat.pow_succ]; omega
  obtain ⟨fraction, rfl⟩ := Nat.exists_eq_add_of_le leading
  have small : fraction < 2 ^ format.fractionBits := by omega
  have fields : number.magnitude = fraction + (places + 1) * 2 ^ format.fractionBits := by
    rw [encoded, Nat.add_mul]
    omega
  have exponent : number.magnitude / 2 ^ format.fractionBits = places + 1 := by
    rw [fields, Nat.add_mul_div_right _ _ (Nat.two_pow_pos _), Nat.div_eq_of_lt small, Nat.zero_add]
  have rest : number.magnitude % 2 ^ format.fractionBits = fraction := by
    rw [fields, Nat.add_mul_mod_self_right, Nat.mod_eq_of_lt small]
  have normal : ¬ number.magnitude < 2 ^ format.fractionBits := by
    rw [encoded]
    omega
  exact ⟨by simp [BinaryFloat.places, exponent],
    by rw [BinaryFloat.significand, if_neg normal, rest]⟩

theorem places_lt {number : BinaryFloat format} (finite : number.IsFinite) :
    number.places + 2 ≤ 2 ^ format.exponentBits := by
  have exponent : number.magnitude / 2 ^ format.fractionBits < 2 ^ format.exponentBits - 1 :=
    (Nat.div_lt_iff_lt_mul (Nat.two_pow_pos _)).mpr finite
  unfold places
  generalize number.magnitude / 2 ^ format.fractionBits = top at exponent ⊢
  generalize 2 ^ format.exponentBits = count at exponent ⊢
  omega

end BinaryFloat

/-- Every finite number of the small format is zero or a normal number of the large one. -/
structure FloatFormat.Embeds (small large : FloatFormat) : Prop where
  fraction : small.fractionBits ≤ large.fractionBits
  low : large.lowest + large.fractionBits ≤ small.lowest
  high : small.lowest + small.fractionBits + 2 ^ small.exponentBits + 1 ≤
    large.lowest + large.fractionBits + 2 ^ large.exponentBits

theorem FloatFormat.binary32_embeds : binary32.Embeds binary64 := by
  constructor <;> decide

namespace BinaryFloat

variable {small large : FloatFormat}

theorem convert_of_isFinite (target : FloatFormat) {number : BinaryFloat small}
    (finite : number.IsFinite) :
    number.convert target = round target number.negative number.significand number.scale :=
  if_pos finite

/-- The conversion into a format that embeds this one keeps the number: its digits only
gain zeros at their end. -/
theorem convert_exact (embeds : small.Embeds large) {number : BinaryFloat small}
    (finite : number.IsFinite) (nonzero : number.significand ≠ 0) :
    ∃ shift : Nat, (number.convert large).IsFinite ∧
      (number.convert large).significand = number.significand * 2 ^ shift ∧
      (number.convert large).scale = number.scale - shift := by
  have ⟨fraction, low, high⟩ := embeds
  have leading : Nat.log 2 number.significand ≤ small.fractionBits :=
    Nat.lt_succ_iff.mp (Nat.log_lt_of_lt_pow nonzero number.significand_lt)
  have few := places_lt finite
  have place : large.lastPlace number.significand number.scale =
      Nat.log 2 number.significand + number.scale - large.fractionBits := by
    rw [FloatFormat.lastPlace, scale]
    omega
  -- The shift brings the leading digit to the place above the fraction.
  obtain ⟨shift, shifted⟩ := Nat.exists_eq_add_of_le (leading.trans fraction)
  have units : unitsAt number.significand number.scale
      (large.lastPlace number.significand number.scale) = number.significand * 2 ^ shift := by
    rw [unitsAt, if_pos (by omega), place]
    congr 2
    omega
  have above : 2 ^ large.fractionBits ≤ number.significand * 2 ^ shift := by
    rw [shifted, Nat.pow_add]
    exact Nat.mul_le_mul_right _ (Nat.pow_log_le_self 2 nonzero)
  have below : number.significand * 2 ^ shift < 2 ^ (large.fractionBits + 1) := by
    rw [shifted, Nat.add_right_comm, Nat.pow_add _ _ shift]
    exact Nat.mul_lt_mul_of_pos_right (Nat.lt_pow_succ_log_self (by decide) _) (Nat.two_pow_pos _)
  set places := (large.lastPlace number.significand number.scale - large.lowest).toNat with shown
  have room : places + 2 ≤ 2 ^ large.exponentBits - 1 := by
    have bound : (places : Int) + 2 ≤ 2 ^ large.exponentBits - 1 := by
      have few' : (number.places : Int) + 2 ≤ 2 ^ small.exponentBits := by exact_mod_cast few
      rw [shown, place, scale]
      omega
    have positive : 1 ≤ 2 ^ large.exponentBits := Nat.two_pow_pos _
    have cast : ((2 ^ large.exponentBits - 1 : Nat) : Int) = 2 ^ large.exponentBits - 1 := by
      rw [Nat.cast_sub positive]
      push_cast
      rfl
    omega
  have fits : places * 2 ^ large.fractionBits + number.significand * 2 ^ shift < large.infinity := by
    calc places * 2 ^ large.fractionBits + number.significand * 2 ^ shift
        < places * 2 ^ large.fractionBits + 2 ^ (large.fractionBits + 1) :=
          Nat.add_lt_add_left below _
      _ = (places + 2) * 2 ^ large.fractionBits := by rw [Nat.pow_succ]; ring
      _ ≤ large.infinity := Nat.mul_le_mul_right _ room
  have encoded : (number.convert large).magnitude =
      places * 2 ^ large.fractionBits + number.significand * 2 ^ shift := by
    rw [convert_of_isFinite large finite]
    simp only [round, FloatFormat.roundMagnitude, nonzero, if_false, units, ← shown]
    exact Nat.min_eq_right fits.le
  have ⟨placesEq, significandEq⟩ := decode encoded above below
  refine ⟨shift, by rw [IsFinite, encoded]; exact fits, significandEq, ?_⟩
  rw [BinaryFloat.scale, placesEq, shown, place, scale]
  omega

/-- A finite number comes back from a format that embeds its own. -/
theorem convert_convert (embeds : small.Embeds large) {number : BinaryFloat small}
    (finite : number.IsFinite) :
    (number.convert large).IsFinite ∧ (number.convert large).convert small = number := by
  have own := roundMagnitude_significand finite
  by_cases zero : number.significand = 0
  · have room : 0 < 2 ^ large.exponentBits - 1 := by
      have ⟨_, low, high⟩ := embeds
      have one : 1 ≤ 2 ^ small.exponentBits := Nat.two_pow_pos _
      have wide : ((2 ^ small.exponentBits : Nat) : Int) + 1 ≤ (2 ^ large.exponentBits : Nat) := by
        push_cast
        omega
      omega
    have nothing : (number.convert large).magnitude = 0 := by
      rw [convert_of_isFinite large finite]
      simp [round, FloatFormat.roundMagnitude, zero]
    have fits : (number.convert large).IsFinite := by
      rw [IsFinite, nothing]
      exact Nat.mul_pos room (Nat.two_pow_pos _)
    have digits : (number.convert large).significand = 0 := by simp [significand, nothing]
    refine ⟨fits, ?_⟩
    rw [convert_of_isFinite small fits, digits, convert_of_isFinite _ finite]
    simp [round, FloatFormat.roundMagnitude, ← magnitude_eq_zero zero]
  · have ⟨shift, fits, digits, scale⟩ := convert_exact embeds finite zero
    refine ⟨fits, ?_⟩
    rw [convert_of_isFinite small fits, digits, scale, convert_of_isFinite _ finite]
    simp only [round, FloatFormat.roundMagnitude_shift, own]

end BinaryFloat

end ServerBox.Std
