import ServerBox.Cron.CivilTime
import ServerBox.Std.MachineInt

/-!
# The calendar in machine integers

The functions of `crates/sbm_parser/src/cron.rs` with the integers that they are written with: a
year of 32 bits, days and minutes of 64. Over the dates whose year less one is still a year of
32 bits they are those of `CivilTime`, so dates and days are one to one there.
-/

namespace ServerBox.Cron.Machine

open ServerBox.Std
open ServerBox.Std.Gregorian
open ServerBox.Std.MachineInt

structure CivilTime where
  year : Int32
  month : UInt32
  day : UInt32
  hour : UInt32
  minute : UInt32
deriving DecidableEq, Repr

/-- `i64::from` of a `u32`. -/
def wide (number : UInt32) : Int64 := number.toUInt64.toInt64

/-- An `i64` `as u32`. -/
def narrow (number : Int64) : UInt32 := number.toUInt64.toUInt32

/-- `days_from_civil`. -/
def daysFromCivil (year : Int32) (month day : UInt32) : Int64 :=
  let y := (if month ≤ 2 then year - 1 else year).toInt64
  let era := (if 0 ≤ y then y else y - 399) / 400
  let yoe := y - era * 400
  let m := wide month
  let doy := (153 * (if 2 < m then m - 3 else m + 9) + 2) / 5 + wide day - 1
  let doe := yoe * 365 + yoe / 4 - yoe / 100 + doy
  era * 146097 + doe - 719468

/-- `civil_from_days`. -/
def civilFromDays (days : Int64) : Int32 × UInt32 × UInt32 :=
  let z := days + 719468
  let era := (if 0 ≤ z then z else z - 146096) / 146097
  let doe := z - era * 146097
  let yoe := (doe - doe / 1460 + doe / 36524 - doe / 146096) / 365
  let y := yoe + era * 400
  let doy := doe - (365 * yoe + yoe / 4 - yoe / 100)
  let mp := (5 * doy + 2) / 153
  let d := doy - (153 * mp + 2) / 5 + 1
  let m := if mp < 10 then mp + 3 else mp - 9
  let year := if m ≤ 2 then y + 1 else y
  (year.toInt32, narrow m, narrow d)

namespace CivilTime

def daysFromEpoch (time : CivilTime) : Int64 := daysFromCivil time.year time.month time.day

def fromEpochMinute (minute : Int64) : CivilTime :=
  let days := divEuclid minute 1440
  let rem := remEuclid minute 1440
  let (year, month, day) := civilFromDays days
  ⟨year, month, day, narrow (rem / 60), narrow (rem % 60)⟩

def epochMinute (time : CivilTime) : Int64 :=
  time.daysFromEpoch * 1440 + wide time.hour * 60 + wide time.minute

def weekday (time : CivilTime) : UInt32 := narrow (remEuclid (time.daysFromEpoch + 4) 7)

end CivilTime

/-! ### In the integers -/

theorem toInt_toInt64 (number : UInt64) (small : number.toNat < 2 ^ 63) :
    number.toInt64.toInt = number.toNat := by
  rw [Int64.toInt, UInt64.toBitVec_toInt64, BitVec.toInt_eq_toNat_bmod, UInt64.toNat_toBitVec]
  exact Int.bmod_eq_of_le (by omega) (by omega)

theorem toInt_wide (number : UInt32) : (wide number).toInt = number.toNat := by
  have small := number.toNat_lt
  rw [wide, toInt_toInt64 _ (by rw [UInt32.toNat_toUInt64]; omega), UInt32.toNat_toUInt64]

theorem toNat_narrow {number : Int64} {n : Int} (isNumber : number.toInt = n) (natural : 0 ≤ n)
    (small : n < 2 ^ 32) : (narrow number).toNat = n.toNat := by
  have zero : (0 : Int64).toInt = 0 := rfl
  have isNatural : 0 ≤ number := (le_iff zero isNumber).mpr natural
  rw [narrow, UInt64.toNat_toUInt32, Int64.toNat_toUInt64_of_le isNatural, Int64.toNatClampNeg,
    isNumber, Nat.mod_eq_of_lt (by omega)]

/-- The year that a year from March on is counted as: that of the type, but where the year before
it is not one of 32 bits, the year that it wraps around to. -/
def countedYear (year : Int32) (month : UInt32) : Int :=
  if month ≤ 2 ∧ year = Int32.minValue then 2 ^ 31 else year.toInt

theorem toInt_marchYear (year : Int32) (month : UInt32) :
    (if month ≤ 2 then year - 1 else year).toInt64.toInt =
      if month.toNat ≤ 2 then countedYear year month - 1 else countedYear year month := by
  have one : (1 : Int32).toInt = 1 := rfl
  have high := year.toInt_lt
  have low := year.le_toInt
  have early : month ≤ 2 ↔ month.toNat ≤ 2 := UInt32.le_iff_toNat_le
  unfold countedYear
  rw [Int32.toInt_toInt64]
  by_cases isEarly : month.toNat ≤ 2
  · rw [if_pos isEarly, if_pos (early.mpr isEarly)]
    by_cases isFirst : year = Int32.minValue
    · rw [if_pos ⟨early.mpr isEarly, isFirst⟩, isFirst]
      rfl
    · have notLeast : year.toInt ≠ -2 ^ 31 := fun least => isFirst (Int32.toInt_inj.mp least)
      rw [if_neg (fun both => isFirst both.2), Int32.toInt_sub, one]
      exact Int.bmod_eq_of_le (by omega) (by omega)
  · rw [if_neg isEarly, if_neg (mt early.mp isEarly), if_neg fun both => isEarly (early.mp both.1)]

theorem bmod_countedYear (year : Int32) (month : UInt32) :
    (countedYear year month).bmod (2 ^ 32) = year.toInt := by
  unfold countedYear
  split
  next first =>
      rw [first.2]
      rfl
  next => exact Int32.toInt_bmod year

theorem countedYear_eq {year : Int32} {month : UInt32}
    (counted : month ≤ 2 → year ≠ Int32.minValue) : countedYear year month = year.toInt :=
  if_neg fun first => counted first.1 first.2

/-- `days_from_civil`, in the integers. -/
theorem toInt_daysFromCivil (year : Int32) (month day : UInt32) :
    (daysFromCivil year month day).toInt =
      Cron.daysFromCivil (countedYear year month) month.toNat day.toNat := by
  have isYear := toInt_marchYear year month
  generalize countedYear year month = counted at isYear
  have bounds : -2 ^ 31 ≤ (if month.toNat ≤ 2 then counted - 1 else counted) ∧
      (if month.toNat ≤ 2 then counted - 1 else counted) < 2 ^ 31 := by
    rw [← isYear, Int32.toInt_toInt64]
    exact ⟨Int32.le_toInt _, Int32.toInt_lt _⟩
  have isMonth := toInt_wide month
  have isDay := toInt_wide day
  have monthSmall := month.toNat_lt
  have daySmall := day.toNat_lt
  unfold daysFromCivil Cron.daysFromCivil
  extract_lets y era yoe m doy doe y' era' yoe' m' doy' doe'
  change -2 ^ 31 ≤ y' ∧ y' < 2 ^ 31 at bounds
  change y.toInt = y' at isYear
  change m.toInt = m' at isMonth
  have mBounds : 0 ≤ m' ∧ m' < 2 ^ 32 := by omega
  clear_value y y' m m'
  have isEra : era.toInt = era' :=
    toInt_div (toInt_ite (le_iff rfl isYear) isYear (toInt_sub isYear rfl ⟨by omega, by omega⟩)) rfl
      (by decide)
  have isEraOf : era' = y' / 400 := era_eq y'
  clear_value era era'
  have isYoe : yoe.toInt = yoe' :=
    toInt_sub isYear (toInt_mul isEra rfl ⟨by omega, by omega⟩) ⟨by omega, by omega⟩
  have yoeBounds : 0 ≤ yoe' ∧ yoe' < 400 := by omega
  clear_value yoe yoe'
  have ofYoe {divisor : Int} : yoe'.tdiv divisor = yoe' / divisor :=
    Int.tdiv_eq_ediv_of_nonneg yoeBounds.1
  have isDoy : doy.toInt = doy' ∧ -1 ≤ doy' ∧ doy' < 2 ^ 42 := by
    have isMarch : (if 2 < m then m - 3 else m + 9).toInt = if 2 < m' then m' - 3 else m' + 9 :=
      toInt_ite (lt_iff rfl isMonth) (toInt_sub isMonth rfl ⟨by omega, by omega⟩)
        (toInt_add isMonth rfl ⟨by omega, by omega⟩)
    have marchBounds : 0 ≤ (if 2 < m' then m' - 3 else m' + 9) ∧
        (if 2 < m' then m' - 3 else m' + 9) < 2 ^ 33 := by
      split <;> omega
    change doy.toInt = (153 * (if 2 < m' then m' - 3 else m' + 9) + 2).tdiv 5 + day.toNat - 1 ∧
      -1 ≤ (153 * (if 2 < m' then m' - 3 else m' + 9) + 2).tdiv 5 + day.toNat - 1 ∧
      (153 * (if 2 < m' then m' - 3 else m' + 9) + 2).tdiv 5 + day.toNat - 1 < 2 ^ 42
    generalize (if 2 < m' then m' - 3 else m' + 9) = march at isMarch marchBounds
    have isDays : (153 * march + 2).tdiv 5 = (153 * march + 2) / 5 :=
      Int.tdiv_eq_ediv_of_nonneg (by omega)
    refine ⟨toInt_sub (toInt_add (toInt_div (toInt_add (toInt_mul rfl isMarch ⟨by omega, by omega⟩)
      rfl ⟨by omega, by omega⟩) rfl (by decide)) isDay ?_) rfl ?_, ?_⟩
      <;> rw [isDays] <;> exact ⟨by omega, by omega⟩
  obtain ⟨isDoy, doyBounds⟩ := isDoy
  clear_value doy doy'
  have isDoe : doe.toInt = doe' ∧ -1 ≤ doe' ∧ doe' < 2 ^ 43 := by
    change doe.toInt = yoe' * 365 + yoe'.tdiv 4 - yoe'.tdiv 100 + doy' ∧
      -1 ≤ yoe' * 365 + yoe'.tdiv 4 - yoe'.tdiv 100 + doy' ∧
      yoe' * 365 + yoe'.tdiv 4 - yoe'.tdiv 100 + doy' < 2 ^ 43
    refine ⟨toInt_add (toInt_sub (toInt_add (toInt_mul isYoe rfl ⟨by omega, by omega⟩)
      (toInt_div isYoe rfl (by decide)) ?_) (toInt_div isYoe rfl (by decide)) ?_) isDoy ?_, ?_⟩
      <;> simp only [ofYoe] <;> exact ⟨by omega, by omega⟩
  obtain ⟨isDoe, doeBounds⟩ := isDoe
  clear_value doe doe'
  exact toInt_sub (toInt_add (toInt_mul isEra rfl ⟨by omega, by omega⟩) isDoe
    ⟨by omega, by omega⟩) rfl ⟨by omega, by omega⟩

/-- The day of the year, from March on. -/
theorem dayOfYear_bounds {doe yoe : Int} (natural : 0 ≤ doe) (within : doe < 146097)
    (isYear : yoe = (doe - doe / 1460 + doe / 36524 - doe / 146096) / 365) :
    0 ≤ doe - (365 * yoe + yoe / 4 - yoe / 100) ∧
      doe - (365 * yoe + yoe / 4 - yoe / 100) < 366 := by
  obtain ⟨day, rfl⟩ := Int.eq_ofNat_of_zero_le natural
  have isDays : (day : Int) - day / 1460 + day / 36524 - day / 146096 =
      (day - day / 1460 + day / 36524 - day / 146096 : Nat) := by omega
  have isYearOfEra : yoe = yearOfEra day := by
    rw [isYear, isDays]
    rfl
  have started := (yearOfEra_spec (show day < 146097 by omega)).2.1
  have short := dayOfYear_lt (show day < 146097 by omega)
  clear isYear isDays
  subst isYearOfEra
  generalize yearOfEra day = year at started short ⊢
  unfold daysOfEra at started short
  omega

/-- The month of a day of the year, from March on, and the day of that. -/
theorem monthAndDay_bounds {doy mp d : Int} (natural : 0 ≤ doy) (short : doy < 366)
    (isMonth : mp = (5 * doy + 2) / 153) (isDay : d = doy - (153 * mp + 2) / 5 + 1) :
    (0 ≤ mp ∧ mp ≤ 11) ∧ 1 ≤ d ∧ d ≤ 366 := by
  obtain ⟨day, rfl⟩ := Int.eq_ofNat_of_zero_le natural
  obtain ⟨eleven, started, -⟩ := monthOfYear_spec day (by omega)
  have isMonthOf : mp = ((5 * day + 2) / 153 : Nat) := isMonth
  have isStart : (153 * mp + 2) / 5 = ((153 * ((5 * day + 2) / 153) + 2) / 5 : Nat) := by
    rw [isMonthOf]
    rfl
  rw [isStart] at isDay
  clear isStart isMonth
  generalize (5 * day + 2) / 153 = month at eleven started isMonthOf isDay
  generalize (153 * month + 2) / 5 = start at started isDay
  omega

/-- `civil_from_days`, in the integers. -/
theorem toInt_civilFromDays {days : Int64} {n : Int} (isDays : days.toInt = n)
    (low : -2 ^ 50 ≤ n) (high : n < 2 ^ 50) :
    (civilFromDays days).1.toInt = (Cron.civilFromDays n).1.bmod (2 ^ 32) ∧
      (civilFromDays days).2.1.toNat = (Cron.civilFromDays n).2.1 ∧
      (civilFromDays days).2.2.toNat = (Cron.civilFromDays n).2.2 := by
  unfold civilFromDays Cron.civilFromDays
  extract_lets z era doe yoe y doy mp d m year z' era' doe' yoe' y' doy' mp' d' m' year'
  have cut {number divisor : Int} (natural : 0 ≤ number) :
      number.tdiv divisor = number / divisor := Int.tdiv_eq_ediv_of_nonneg natural
  have isZ : z.toInt = z' := toInt_add isDays rfl ⟨by omega, by omega⟩
  have zBounds : -2 ^ 51 ≤ z' ∧ z' < 2 ^ 51 := by omega
  clear_value z z'
  have isEra : era.toInt = era' :=
    toInt_div (toInt_ite (le_iff rfl isZ) isZ (toInt_sub isZ rfl ⟨by omega, by omega⟩)) rfl
      (by decide)
  have isEraOf : era' = z' / 146097 := eraOfDays_eq z'
  clear_value era era'
  have isDoe : doe.toInt = doe' :=
    toInt_sub isZ (toInt_mul isEra rfl ⟨by omega, by omega⟩) ⟨by omega, by omega⟩
  have doeBounds : 0 ≤ doe' ∧ doe' < 146097 := by omega
  have eraBounds : -2 ^ 36 ≤ era' ∧ era' < 2 ^ 36 := by omega
  clear isEraOf
  clear_value doe doe'
  have ofDoe {divisor : Int} : doe'.tdiv divisor = doe' / divisor := cut doeBounds.1
  have isYoe : yoe.toInt = yoe' := by
    refine toInt_div (toInt_sub (toInt_add (toInt_sub isDoe (toInt_div isDoe rfl (by decide)) ?_)
      (toInt_div isDoe rfl (by decide)) ?_) (toInt_div isDoe rfl (by decide)) ?_) rfl (by decide)
      <;> simp only [ofDoe] <;> exact ⟨by omega, by omega⟩
  have isYoeOf : yoe' = (doe' - doe' / 1460 + doe' / 36524 - doe' / 146096) / 365 := by
    change (doe' - doe'.tdiv 1460 + doe'.tdiv 36524 - doe'.tdiv 146096).tdiv 365 = _
    rw [ofDoe, ofDoe, ofDoe, cut (by omega)]
  clear_value yoe yoe'
  have yoeBounds : 0 ≤ yoe' ∧ yoe' ≤ 400 := by omega
  have ofYoe {divisor : Int} : yoe'.tdiv divisor = yoe' / divisor := cut yoeBounds.1
  have isY : y.toInt = y' :=
    toInt_add isYoe (toInt_mul isEra rfl ⟨by omega, by omega⟩) ⟨by omega, by omega⟩
  have yBounds : -2 ^ 46 ≤ y' ∧ y' < 2 ^ 46 := by omega
  clear_value y y'
  have isDoyOf : doy' = doe' - (365 * yoe' + yoe' / 4 - yoe' / 100) := by
    change doe' - (365 * yoe' + yoe'.tdiv 4 - yoe'.tdiv 100) = _
    rw [ofYoe, ofYoe]
  have isDoy : doy.toInt = doy' := by
    refine toInt_sub isDoe (toInt_sub (toInt_add (toInt_mul rfl isYoe ⟨by omega, by omega⟩)
      (toInt_div isYoe rfl (by decide)) ?_) (toInt_div isYoe rfl (by decide)) ?_) ?_
      <;> simp only [ofYoe] <;> exact ⟨by omega, by omega⟩
  have dayOfYear := dayOfYear_bounds doeBounds.1 doeBounds.2 isYoeOf
  rw [← isDoyOf] at dayOfYear
  clear isYoeOf isDoyOf
  clear_value doy doy'
  have isMp : mp.toInt = mp' :=
    toInt_div (toInt_add (toInt_mul rfl isDoy ⟨by omega, by omega⟩) rfl ⟨by omega, by omega⟩) rfl
      (by decide)
  have isMpOf : mp' = (5 * doy' + 2) / 153 := cut (by omega)
  clear_value mp mp'
  have isStart : (153 * mp' + 2).tdiv 5 = (153 * mp' + 2) / 5 := cut (by omega)
  have isDOf : d' = doy' - (153 * mp' + 2) / 5 + 1 := by
    change doy' - (153 * mp' + 2).tdiv 5 + 1 = _
    rw [isStart]
  obtain ⟨mpBounds, dBounds⟩ := monthAndDay_bounds dayOfYear.1 dayOfYear.2 isMpOf isDOf
  clear isMpOf isDOf
  have isD : d.toInt = d' := by
    refine toInt_add (toInt_sub isDoy (toInt_div (toInt_add (toInt_mul rfl isMp
      ⟨by omega, by omega⟩) rfl ⟨by omega, by omega⟩) rfl (by decide)) ?_) rfl ?_
      <;> rw [isStart] <;> exact ⟨by omega, by omega⟩
  clear isStart
  clear_value d d'
  have isM : m.toInt = m' :=
    toInt_ite (lt_iff isMp rfl) (toInt_add isMp rfl ⟨by omega, by omega⟩)
      (toInt_sub isMp rfl ⟨by omega, by omega⟩)
  have mBounds : 0 ≤ m' ∧ m' < 2 ^ 32 := by
    change 0 ≤ (if mp' < 10 then mp' + 3 else mp' - 9) ∧ (if mp' < 10 then mp' + 3 else mp' - 9) < _
    split <;> omega
  clear_value m m'
  have isYear : year.toInt = year' :=
    toInt_ite (le_iff isM rfl) (toInt_add isY rfl ⟨by omega, by omega⟩) isY
  refine ⟨?_, toNat_narrow isM mBounds.1 mBounds.2, toNat_narrow isD (by omega) (by omega)⟩
  rw [Int64.toInt_toInt32, isYear]

/-! ### The calendar -/

def dateOf (date : Int32 × UInt32 × UInt32) : Date :=
  ⟨date.1.toInt, date.2.1.toNat, date.2.2.toNat⟩

theorem dateOf_injective {date other : Int32 × UInt32 × UInt32}
    (same : dateOf date = dateOf other) : date = other := by
  obtain ⟨year, month, day⟩ := date
  obtain ⟨otherYear, otherMonth, otherDay⟩ := other
  simp only [dateOf, Date.mk.injEq] at same
  rw [Int32.toInt_inj.mp same.1, UInt32.toNat_inj.mp same.2.1, UInt32.toNat_inj.mp same.2.2]

/-- 1 March of the first year of the type: before it, `year - 1` is no year of the type. -/
def firstDay : Int64 := daysFromCivil Int32.minValue 3 1

/-- 31 December of the last. -/
def lastDay : Int64 := daysFromCivil Int32.maxValue 12 31

/-- The days whose dates are counted without overflow. -/
def SafeDay (days : Int64) : Prop := firstDay ≤ days ∧ days ≤ lastDay

instance (days : Int64) : Decidable (SafeDay days) := inferInstanceAs (Decidable (_ ∧ _))

theorem valid_countedYear {year : Int32} {month day : UInt32}
    (valid : (dateOf (year, month, day)).Valid) :
    (⟨countedYear year month, month.toNat, day.toNat⟩ : Date).Valid := by
  unfold countedYear
  split
  next first =>
      have isYear : year.toInt = -2 ^ 31 := congrArg Int32.toInt first.2
      have leaps (number : Nat) : daysInMonth (2 ^ 31) number = daysInMonth (-2 ^ 31) number := by
        unfold daysInMonth
        rw [if_pos (show IsLeap (2 ^ 31) by decide), if_pos (show IsLeap (-2 ^ 31) by decide)]
      obtain ⟨isMonth, first, within⟩ := valid
      exact ⟨isMonth, first, (leaps _).symm ▸ isYear ▸ within⟩
  next => exact valid

/-- Each day of a year of 32 bits is far from the ends of 64. -/
theorem number_small {date : Date} (valid : date.Valid) (low : -2 ^ 31 ≤ date.year)
    (high : date.year ≤ 2 ^ 31) : -2 ^ 50 ≤ date.number ∧ date.number < 2 ^ 50 := by
  have bounds := valid.number_bounds
  unfold daysBeforeYear at bounds
  omega

/-- The days of a date of the type, and the date of the calendar that they are counted for. -/
theorem daysFromCivil_spec {year : Int32} {month day : UInt32}
    (valid : (dateOf (year, month, day)).Valid) :
    dateOfDays (daysFromCivil year month day).toInt =
        ⟨countedYear year month, month.toNat, day.toNat⟩ ∧
      -2 ^ 50 ≤ (daysFromCivil year month day).toInt ∧
      (daysFromCivil year month day).toInt < 2 ^ 50 := by
  have validCounted := valid_countedYear valid
  have low := year.le_toInt
  have high := year.toInt_lt
  have small := number_small validCounted
    (by simp only [countedYear]; split <;> omega) (by simp only [countedYear]; split <;> omega)
  rw [toInt_daysFromCivil, daysFromCivil_eq validCounted]
  exact ⟨Date.eq_of_number_eq (dateOfDays_spec _).1 validCounted (dateOfDays_spec _).2, small⟩

theorem civilFromDays_daysFromCivil {year : Int32} {month day : UInt32}
    (valid : (dateOf (year, month, day)).Valid) :
    civilFromDays (daysFromCivil year month day) = (year, month, day) := by
  obtain ⟨same, low, high⟩ := daysFromCivil_spec valid
  have isDate := @toInt_civilFromDays (daysFromCivil year month day) _ rfl low high
  simp only [dateOfDays, Date.mk.injEq] at same
  refine dateOf_injective ?_
  rw [dateOf, isDate.1, isDate.2.1, isDate.2.2, same.1, same.2.1, same.2.2, bmod_countedYear,
    dateOf]

/-- The dates between are those of the type, and none before the first March. -/
theorem SafeDay.bounds {days : Int64} (safe : SafeDay days) :
    -2 ^ 31 ≤ (dateOfDays days.toInt).year ∧ (dateOfDays days.toInt).year < 2 ^ 31 ∧
      ((dateOfDays days.toInt).month ≤ 2 → -2 ^ 31 < (dateOfDays days.toInt).year) := by
  obtain ⟨valid, isNumber⟩ := dateOfDays_spec days.toInt
  have isFirst : firstDay.toInt = (⟨-2 ^ 31, 3, 1⟩ : Date).number := by decide
  have isLast : lastDay.toInt = (⟨2 ^ 31 - 1, 12, 31⟩ : Date).number := by decide
  have low := Int64.le_iff_toInt_le.mp safe.1
  have high := Int64.le_iff_toInt_le.mp safe.2
  rw [isFirst, ← isNumber, ← not_lt, Date.number_lt_number_iff valid (by decide)] at low
  rw [isLast, ← isNumber, ← not_lt, Date.number_lt_number_iff (by decide) valid] at high
  simp only [Date.Before] at low high
  have positive := valid.1.1
  have dayPositive := valid.2.1
  omega

/-- The date of a safe day is that of the calendar. -/
theorem SafeDay.dateOf_eq {days : Int64} (safe : SafeDay days) :
    dateOf (civilFromDays days) = dateOfDays days.toInt := by
  obtain ⟨low, high, -⟩ := safe.bounds
  have small := number_small (dateOfDays_spec days.toInt).1 low high.le
  rw [(dateOfDays_spec days.toInt).2] at small
  have isDate := @toInt_civilFromDays days _ rfl small.1 small.2
  rw [dateOf, isDate.1, isDate.2.1, isDate.2.2, Int.bmod_eq_of_le (by exact low) (by exact high)]
  rfl

theorem SafeDay.valid {days : Int64} (safe : SafeDay days) :
    (dateOf (civilFromDays days)).Valid :=
  safe.dateOf_eq ▸ (dateOfDays_spec days.toInt).1

theorem SafeDay.daysFromCivil_civilFromDays {days : Int64} (safe : SafeDay days) :
    daysFromCivil (civilFromDays days).1 (civilFromDays days).2.1 (civilFromDays days).2.2 =
      days := by
  have isDate := safe.dateOf_eq
  have valid := safe.valid
  generalize civilFromDays days = date at isDate valid ⊢
  obtain ⟨year, month, day⟩ := date
  have isYear : year.toInt = (dateOfDays days.toInt).year := congrArg Date.year isDate
  have isMonth : month.toNat = (dateOfDays days.toInt).month := congrArg Date.month isDate
  have isCounted : countedYear year month = year.toInt := by
    refine countedYear_eq fun isEarly isFirst => ?_
    have early : month.toNat ≤ 2 := UInt32.le_iff_toNat_le.mp isEarly
    have first : year.toInt = -2 ^ 31 := congrArg Int32.toInt isFirst
    have later := safe.bounds.2.2 (isMonth ▸ early)
    omega
  refine Int64.toInt_inj.mp ?_
  rw [toInt_daysFromCivil, isCounted, daysFromCivil_eq valid]
  exact (congrArg Date.number isDate).trans (dateOfDays_spec days.toInt).2

/-- The days of a date are safe but for the two months before the first March. -/
theorem safeDay_daysFromCivil {year : Int32} {month day : UInt32}
    (valid : (dateOf (year, month, day)).Valid) (counted : month ≤ 2 → year ≠ Int32.minValue) :
    SafeDay (daysFromCivil year month day) := by
  have isFirst : firstDay.toInt = (⟨-2 ^ 31, 3, 1⟩ : Date).number := by decide
  have isLast : lastDay.toInt = (⟨2 ^ 31 - 1, 12, 31⟩ : Date).number := by decide
  have isDays : (daysFromCivil year month day).toInt = (dateOf (year, month, day)).number := by
    rw [toInt_daysFromCivil, countedYear_eq counted]
    exact daysFromCivil_eq valid
  have low := year.le_toInt
  have high := year.toInt_lt
  have isLeast : year.toInt = -2 ^ 31 → ¬ month.toNat ≤ 2 := fun least early =>
    counted (UInt32.le_iff_toNat_le.mpr early) (Int32.toInt_inj.mp least)
  have positive : 1 ≤ day.toNat := valid.2.1
  have twelve : month.toNat ≤ 12 := valid.1.2
  constructor
  · rw [Int64.le_iff_toInt_le, isFirst, isDays, ← not_lt,
      Date.number_lt_number_iff valid (by decide)]
    simp only [dateOf, Date.Before]
    omega
  · have thirtyOne : month.toNat = 12 → day.toNat ≤ 31 := fun isDecember => by
      have within : day.toNat ≤ daysInMonth year.toInt month.toNat := valid.2.2
      rwa [isDecember] at within
    rw [Int64.le_iff_toInt_le, isLast, isDays, ← not_lt,
      Date.number_lt_number_iff (by decide) valid]
    simp only [dateOf, Date.Before]
    omega

theorem SafeDay.small {days : Int64} (safe : SafeDay days) :
    -2 ^ 50 ≤ days.toInt ∧ days.toInt < 2 ^ 50 := by
  obtain ⟨low, high, -⟩ := safe.bounds
  have small := number_small (dateOfDays_spec days.toInt).1 low high.le
  rwa [(dateOfDays_spec days.toInt).2] at small

theorem SafeDay.toInt_next {days : Int64} (safe : SafeDay days) :
    (days + 1).toInt = days.toInt + 1 := by
  obtain ⟨low, high⟩ := safe.small
  exact toInt_add rfl rfl ⟨by omega, by omega⟩

/-- Safe days that follow one another are dates that do. -/
theorem SafeDay.dateOf_next {days : Int64} (safe : SafeDay days) (safeNext : SafeDay (days + 1)) :
    dateOf (civilFromDays (days + 1)) = (dateOf (civilFromDays days)).next := by
  have isNext := safe.toInt_next
  rw [safe.dateOf_eq, safeNext.dateOf_eq, isNext]
  have valid := (dateOfDays_spec days.toInt).1
  refine Date.eq_of_number_eq (dateOfDays_spec _).1 valid.next ?_
  rw [valid.number_next, (dateOfDays_spec _).2, (dateOfDays_spec _).2]

/-! ### Times -/

namespace CivilTime

def date (time : CivilTime) : Date := dateOf (time.year, time.month, time.day)

def Valid (time : CivilTime) : Prop := time.date.Valid ∧ time.hour < 24 ∧ time.minute < 60

instance (time : CivilTime) : Decidable time.Valid := inferInstanceAs (Decidable (_ ∧ _))

variable {time later : CivilTime} {days : Int64}

theorem toNat_weekday {n : Int} (isDays : time.daysFromEpoch.toInt = n) (fits : Fits (n + 4)) :
    time.weekday.toNat = ((n + 4) % 7).toNat :=
  toNat_narrow (toInt_remEuclid (toInt_add isDays rfl fits) rfl (by decide)) (by omega) (by omega)

theorem daysFromEpoch_eq (safe : SafeDay days)
    (isDate : (time.year, time.month, time.day) = civilFromDays days) :
    time.daysFromEpoch = days := by
  have same := safe.daysFromCivil_civilFromDays
  rwa [← isDate] at same

/-- Days of the week follow one another. -/
theorem weekday_next (safe : SafeDay days) (safeNext : SafeDay (days + 1))
    (isDate : (time.year, time.month, time.day) = civilFromDays days)
    (isNext : (later.year, later.month, later.day) = civilFromDays (days + 1)) :
    later.weekday = (time.weekday + 1) % 7 := by
  obtain ⟨low, high⟩ := safe.small
  have first := toNat_weekday (congrArg Int64.toInt (daysFromEpoch_eq safe isDate))
    ⟨by omega, by omega⟩
  have isLater : later.daysFromEpoch.toInt = days.toInt + 1 :=
    (congrArg Int64.toInt (daysFromEpoch_eq safeNext isNext)).trans safe.toInt_next
  have second := toNat_weekday isLater ⟨by omega, by omega⟩
  refine UInt32.toNat_inj.mp ?_
  rw [second, UInt32.toNat_mod, UInt32.toNat_add, first]
  have one : (1 : UInt32).toNat = 1 := rfl
  have seven : (7 : UInt32).toNat = 7 := rfl
  rw [one, seven]
  omega

theorem toInt_epochMinute {n : Int} (isDays : time.daysFromEpoch.toInt = n) (low : -2 ^ 50 ≤ n)
    (high : n < 2 ^ 50) :
    time.epochMinute.toInt = n * 1440 + time.hour.toNat * 60 + time.minute.toNat := by
  have hour := time.hour.toNat_lt
  have minute := time.minute.toNat_lt
  exact toInt_add (toInt_add (toInt_mul isDays rfl ⟨by omega, by omega⟩)
    (toInt_mul (toInt_wide _) rfl ⟨by omega, by omega⟩) ⟨by omega, by omega⟩) (toInt_wide _)
    ⟨by omega, by omega⟩

theorem fromEpochMinute_epochMinute (valid : time.Valid) :
    fromEpochMinute time.epochMinute = time := by
  obtain ⟨validDate, hours, minutes⟩ := valid
  obtain ⟨-, low, high⟩ := daysFromCivil_spec validDate
  have isMinute := @toInt_epochMinute time _ rfl low high
  have hour : time.hour.toNat < 24 := UInt32.lt_iff_toNat_lt.mp hours
  have minute : time.minute.toNat < 60 := UInt32.lt_iff_toNat_lt.mp minutes
  change time.epochMinute.toInt = time.daysFromEpoch.toInt * 1440 + time.hour.toNat * 60 +
    time.minute.toNat at isMinute
  have isDays : divEuclid time.epochMinute 1440 = time.daysFromEpoch := by
    refine Int64.toInt_inj.mp ?_
    rw [toInt_divEuclid isMinute (show (1440 : Int64).toInt = 1440 from rfl) (by decide)]
    omega
  have isRest : (remEuclid time.epochMinute 1440).toInt =
      time.hour.toNat * 60 + time.minute.toNat := by
    rw [toInt_remEuclid isMinute (show (1440 : Int64).toInt = 1440 from rfl) (by decide)]
    omega
  have isDate : civilFromDays time.daysFromEpoch = (time.year, time.month, time.day) :=
    civilFromDays_daysFromCivil validDate
  have isHour : narrow (remEuclid time.epochMinute 1440 / 60) = time.hour := by
    refine UInt32.toNat_inj.mp ?_
    rw [toNat_narrow (toInt_div_of_nonneg isRest (show (60 : Int64).toInt = 60 from rfl) (by omega)
      (by decide)) (by omega) (by omega)]
    omega
  have isMinuteOfHour : narrow (remEuclid time.epochMinute 1440 % 60) = time.minute := by
    refine UInt32.toNat_inj.mp ?_
    have rest := toInt_mod isRest (show (60 : Int64).toInt = 60 from rfl)
    rw [Int.tmod_eq_emod_of_nonneg (by omega)] at rest
    rw [toNat_narrow rest (by omega) (by omega)]
    omega
  unfold fromEpochMinute
  simp only [isDays, isDate, isHour, isMinuteOfHour]

/-- The minutes of the safe days. -/
def SafeMinute (minute : Int64) : Prop := SafeDay (divEuclid minute 1440)

theorem epochMinute_fromEpochMinute {minute : Int64} (safe : SafeMinute minute) :
    (fromEpochMinute minute).Valid ∧ (fromEpochMinute minute).epochMinute = minute := by
  have isDays : (fromEpochMinute minute).daysFromEpoch = divEuclid minute 1440 :=
    safe.daysFromCivil_civilFromDays
  obtain ⟨low, high⟩ := safe.small
  have isQuotient := @toInt_divEuclid minute 1440 _ 1440 rfl rfl (by decide)
  have isRest := @toInt_remEuclid minute 1440 _ 1440 rfl rfl (by decide)
  have isHour : (fromEpochMinute minute).hour.toNat = (minute.toInt % 1440 / 60).toNat :=
    toNat_narrow (toInt_div_of_nonneg isRest (show (60 : Int64).toInt = 60 from rfl) (by omega)
      (by decide)) (by omega) (by omega)
  have isMinute : (fromEpochMinute minute).minute.toNat = (minute.toInt % 1440 % 60).toNat := by
    have rest := toInt_mod isRest (show (60 : Int64).toInt = 60 from rfl)
    rw [Int.tmod_eq_emod_of_nonneg (by omega)] at rest
    exact toNat_narrow rest (by omega) (by omega)
  refine ⟨⟨safe.valid, UInt32.lt_iff_toNat_lt.mpr ?_, UInt32.lt_iff_toNat_lt.mpr ?_⟩,
    Int64.toInt_inj.mp ?_⟩
  · rw [isHour]
    change (minute.toInt % 1440 / 60).toNat < 24
    omega
  · rw [isMinute]
    change (minute.toInt % 1440 % 60).toNat < 60
    omega
  · rw [toInt_epochMinute (congrArg Int64.toInt isDays) low high, isHour, isMinute, isQuotient]
    omega

/-- The safe days and the dates of the type are one to one, in their order, and so are the times of
these dates and the minutes of these days. The two months of the first year that are counted from
a year that the type does not have come back too, as the year wraps around. -/
theorem calendar_bijection :
    (∀ days, SafeDay days → (dateOf (civilFromDays days)).Valid ∧
      daysFromCivil (civilFromDays days).1 (civilFromDays days).2.1 (civilFromDays days).2.2 =
        days) ∧
    (∀ year month day, (dateOf (year, month, day)).Valid →
      civilFromDays (daysFromCivil year month day) = (year, month, day) ∧
      ((month ≤ 2 → year ≠ Int32.minValue) → SafeDay (daysFromCivil year month day))) ∧
    (∀ days, SafeDay days → SafeDay (days + 1) →
      dateOf (civilFromDays (days + 1)) = (dateOf (civilFromDays days)).next ∧
      ∀ time later : CivilTime, (time.year, time.month, time.day) = civilFromDays days →
        (later.year, later.month, later.day) = civilFromDays (days + 1) →
        later.weekday = (time.weekday + 1) % 7) ∧
    (∀ time : CivilTime, time.Valid → fromEpochMinute time.epochMinute = time) ∧
    ∀ minute, SafeMinute minute →
      (fromEpochMinute minute).Valid ∧ (fromEpochMinute minute).epochMinute = minute := by
  refine ⟨fun days safe => ⟨safe.valid, safe.daysFromCivil_civilFromDays⟩,
    fun year month day valid =>
      ⟨civilFromDays_daysFromCivil valid, safeDay_daysFromCivil valid⟩,
    fun days safe safeNext => ⟨safe.dateOf_next safeNext, fun time later isDate isNext => ?_⟩,
    fun time valid => fromEpochMinute_epochMinute valid,
    fun minute safe => epochMinute_fromEpochMinute safe⟩
  exact weekday_next safe safeNext isDate isNext

end CivilTime

end ServerBox.Cron.Machine
