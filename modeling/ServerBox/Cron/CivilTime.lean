import Mathlib.Data.Nat.Find
import ServerBox.Std.Gregorian

/-!
# Civil times

`CivilTime` of `crates/sbm_parser/src/cron.rs`: a date and time of day, as minutes since 1970-01-01
and back. `days_from_civil` and `civil_from_days` count years from March, in eras of 400 years;
here they are shown to count the days of the calendar, in both directions.
-/

namespace ServerBox.Cron

open ServerBox.Std.Gregorian

structure CivilTime where
  year : Int
  month : Nat
  day : Nat
  hour : Nat
  minute : Nat
deriving DecidableEq, Repr

/-- `days_from_civil`; a division of integers cuts off. -/
def daysFromCivil (year : Int) (month day : Nat) : Int :=
  let y := if month ≤ 2 then year - 1 else year
  let era := (if 0 ≤ y then y else y - 399).tdiv 400
  let yoe := y - era * 400
  let m : Int := month
  let doy := (153 * (if 2 < m then m - 3 else m + 9) + 2).tdiv 5 + day - 1
  let doe := yoe * 365 + yoe.tdiv 4 - yoe.tdiv 100 + doy
  era * 146097 + doe - 719468

/-- `civil_from_days`. -/
def civilFromDays (days : Int) : Int × Nat × Nat :=
  let z := days + 719468
  let era := (if 0 ≤ z then z else z - 146096).tdiv 146097
  let doe := z - era * 146097
  let yoe := (doe - doe.tdiv 1460 + doe.tdiv 36524 - doe.tdiv 146096).tdiv 365
  let y := yoe + era * 400
  let doy := doe - (365 * yoe + yoe.tdiv 4 - yoe.tdiv 100)
  let mp := (5 * doy + 2).tdiv 153
  let d := doy - (153 * mp + 2).tdiv 5 + 1
  let m := if mp < 10 then mp + 3 else mp - 9
  let year := if m ≤ 2 then y + 1 else y
  (year, m.toNat, d.toNat)

namespace CivilTime

def daysFromEpoch (time : CivilTime) : Int := daysFromCivil time.year time.month time.day

def fromEpochMinute (minute : Int) : CivilTime :=
  let days := minute / 1440
  let rem := minute % 1440
  let (year, month, day) := civilFromDays days
  ⟨year, month, day, (rem / 60).toNat, (rem % 60).toNat⟩

def epochMinute (time : CivilTime) : Int :=
  time.daysFromEpoch * 1440 + time.hour * 60 + time.minute

/-- Cron's day of week, where Sunday is 0. -/
def weekday (time : CivilTime) : Nat := ((time.daysFromEpoch + 4) % 7).toNat

end CivilTime

/-! ### Days -/

theorem era_eq (year : Int) : (if 0 ≤ year then year else year - 399).tdiv 400 = year / 400 := by
  split
  next positive => exact Int.tdiv_eq_ediv_of_nonneg positive
  next negative =>
      have same : year - 399 = -(399 - year) := by omega
      rw [same, Int.neg_tdiv, Int.tdiv_eq_ediv_of_nonneg (by omega)]
      omega

theorem eraOfDays_eq (days : Int) :
    (if 0 ≤ days then days else days - 146096).tdiv 146097 = days / 146097 := by
  split
  next positive => exact Int.tdiv_eq_ediv_of_nonneg positive
  next negative =>
      have same : days - 146096 = -(146096 - days) := by omega
      rw [same, Int.neg_tdiv, Int.tdiv_eq_ediv_of_nonneg (by omega)]
      omega

/-- Years counted from March, each after the February of the next. -/
theorem daysFromCivil_eq_march (year : Int) (month day : Nat) :
    daysFromCivil year month day =
      daysBeforeYear ((if month ≤ 2 then year - 1 else year) + 1) +
        ((153 * (if 2 < month then (month : Int) - 3 else month + 9) + 2) / 5 + day - 1) -
        719468 := by
  have positive : 0 ≤ 153 * (if 2 < (month : Int) then (month : Int) - 3 else month + 9) + 2 := by
    split <;> omega
  rw [daysFromCivil]
  simp only [era_eq]
  generalize (if month ≤ 2 then year - 1 else year) = y
  have casts : (2 < (month : Int)) = (2 < month) := by simp
  rw [Int.tdiv_eq_ediv_of_nonneg positive, Int.tdiv_eq_ediv_of_nonneg (by omega),
    Int.tdiv_eq_ediv_of_nonneg (by omega), daysBeforeYear]
  simp only [casts]
  omega

/-- The months from March on, in fives of 153 days. -/
theorem daysBeforeMonth_eq {year : Int} {month : Nat} (fromMarch : 3 ≤ month)
    (twelve : month ≤ 12) :
    (daysBeforeMonth year month : Int) = daysInYear year - 306 + (153 * ((month : Int) - 3) + 2) / 5 := by
  by_cases leap : IsLeap year
  · interval_cases month <;> simp [daysBeforeMonth, daysInMonth, daysInYear, leap]
  · interval_cases month <;> simp [daysBeforeMonth, daysInMonth, daysInYear, leap]

/-- `days_from_civil` counts the days of the calendar. -/
theorem daysFromCivil_eq {year : Int} {month day : Nat}
    (valid : (⟨year, month, day⟩ : Date).Valid) :
    daysFromCivil year month day = (⟨year, month, day⟩ : Date).number := by
  obtain ⟨⟨positive, twelve⟩, -⟩ := valid
  have epoch : daysBeforeYear 1970 = 719162 := by decide
  rw [daysFromCivil_eq_march, Date.number, epoch]
  simp only at positive twelve ⊢
  by_cases fromMarch : 3 ≤ month
  · have next := daysBeforeYear_succ year
    rw [if_neg (by omega), if_pos (by omega), daysBeforeMonth_eq fromMarch twelve]
    omega
  · rw [if_pos (by omega), if_neg (by omega), sub_add_cancel]
    obtain rfl | rfl : month = 1 ∨ month = 2 := by omega
    · simp [daysBeforeMonth]
      omega
    · simp [daysBeforeMonth, daysInMonth]
      omega

/-! ### And back -/

/-- The year of an era of 400 years that a day of it is in. -/
def yearOfEra (day : Nat) : Nat := (day - day / 1460 + day / 36524 - day / 146096) / 365

/-- The days of an era before a year of it. -/
def daysOfEra (year : Nat) : Nat := 365 * year + year / 4 - year / 100

theorem yearOfEra_mono {day later : Nat} (earlier : day ≤ later) (within : later < 146097) :
    yearOfEra day ≤ yearOfEra later := by
  refine Nat.div_le_div_right ?_
  omega

/-- Each year of an era has its first and its last day in it. -/
theorem yearOfEra_ends : ∀ year < 400, yearOfEra (daysOfEra year) = year ∧
    yearOfEra (daysOfEra (year + 1) - if year = 399 then 0 else 1) = year := by
  decide +kernel

theorem yearOfEra_eq {day year : Nat} (isYear : year < 400) (first : daysOfEra year ≤ day)
    (last : day < daysOfEra (year + 1) + if year = 399 then 1 else 0) : yearOfEra day = year := by
  obtain ⟨atFirst, atLast⟩ := yearOfEra_ends year isYear
  have within : daysOfEra (year + 1) + (if year = 399 then 1 else 0) ≤ 146097 := by
    unfold daysOfEra
    split <;> omega
  refine le_antisymm ?_ ?_
  · refine (yearOfEra_mono (show day ≤ daysOfEra (year + 1) - if year = 399 then 0 else 1 from ?_)
      ?_).trans atLast.le
    · split at last <;> simp_all <;> omega
    · split at within <;> simp_all <;> omega
  · exact atFirst.ge.trans (yearOfEra_mono first (by omega))

theorem yearOfEra_spec {day : Nat} (within : day < 146097) :
    yearOfEra day < 400 ∧ daysOfEra (yearOfEra day) ≤ day ∧
      day < daysOfEra (yearOfEra day + 1) + if yearOfEra day = 399 then 1 else 0 := by
  obtain ⟨year, isYear, first, last⟩ : ∃ year < 400, daysOfEra year ≤ day ∧
      day < daysOfEra (year + 1) + if year = 399 then 1 else 0 := by
    let year := Nat.findGreatest (fun year => daysOfEra year ≤ day) 399
    have upTo : year ≤ 399 := Nat.findGreatest_le 399
    have first : daysOfEra year ≤ day :=
      Nat.findGreatest_spec (P := fun year => daysOfEra year ≤ day) (Nat.zero_le 399)
        (Nat.zero_le day)
    refine ⟨year, by omega, first, ?_⟩
    split
    next isLast =>
        rw [isLast]
        exact within
    next notLast =>
        have next := Nat.findGreatest_is_greatest (P := fun year => daysOfEra year ≤ day)
          (show year < year + 1 by omega) (by omega)
        omega
  rw [yearOfEra_eq isYear first last]
  exact ⟨isYear, first, last⟩

theorem dayOfYear_lt {day : Nat} (within : day < 146097) :
    day - daysOfEra (yearOfEra day) < 366 := by
  obtain ⟨small, first, last⟩ := yearOfEra_spec within
  generalize yearOfEra day = year at small first last
  unfold daysOfEra at first last ⊢
  split at last <;> omega

/-- The months from March, in the days that they have. -/
theorem monthOfYear_spec : ∀ day < 366,
    (5 * day + 2) / 153 ≤ 11 ∧ (153 * ((5 * day + 2) / 153) + 2) / 5 ≤ day ∧
      day - (153 * ((5 * day + 2) / 153) + 2) / 5 <
        [31, 30, 31, 30, 31, 31, 30, 31, 30, 31, 31, 28].getD ((5 * day + 2) / 153) 0 +
          if day = 365 then 1 else 0 := by
  decide +kernel

def dateOfDays (days : Int) : Date :=
  ⟨(civilFromDays days).1, (civilFromDays days).2.1, (civilFromDays days).2.2⟩

/-- `civil_from_days`, by the era, the year of it and the day of that. -/
theorem civilFromDays_eq (days : Int) :
    let day := ((days + 719468) % 146097).toNat
    let year := yearOfEra day
    let left := day - daysOfEra year
    let month := (5 * left + 2) / 153
    civilFromDays days =
      (year + (days + 719468) / 146097 * 400 + (if month < 10 then 0 else 1),
        if month < 10 then month + 3 else month - 9, left - (153 * month + 2) / 5 + 1) := by
  intro day year left month
  have isDay : days + 719468 - (days + 719468) / 146097 * 146097 = (day : Int) := by omega
  have within : day < 146097 := by omega
  obtain ⟨small, first, last⟩ := yearOfEra_spec within
  have isYear : ((day : Int) - (day : Int) / 1460 + (day : Int) / 36524 - (day : Int) / 146096) /
      365 = (year : Int) := by
    have isNumber : (year : Int) = ((day - day / 1460 + day / 36524 - day / 146096 : Nat) : Int) /
        365 := rfl
    rw [isNumber]
    omega
  have isLeft : (day : Int) - (365 * year + (year : Int) / 4 - (year : Int) / 100) = (left : Int) := by
    have start : daysOfEra year = 365 * year + year / 4 - year / 100 := rfl
    have within : daysOfEra year ≤ day := first
    omega
  have isMonth : (5 * (left : Int) + 2) / 153 = (month : Int) := rfl
  have natural (number : Nat) (divisor : Int) : (number : Int).tdiv divisor = number / divisor :=
    Int.tdiv_eq_ediv_of_nonneg (Int.natCast_nonneg number)
  have isDate : (5 * (left : Int) + 2).tdiv 153 = (month : Int) := natural (5 * left + 2) 153
  have isStart : (153 * (month : Int) + 2).tdiv 5 = ((153 * month + 2) / 5 : Nat) :=
    natural (153 * month + 2) 5
  rw [civilFromDays]
  simp only [eraOfDays_eq, isDay, natural]
  rw [Int.tdiv_eq_ediv_of_nonneg (show 0 ≤ (day : Int) - day / 1460 + day / 36524 - day / 146096
    by omega), isYear]
  simp only [natural, isLeft, isDate, isStart]
  obtain ⟨eleven, started, -⟩ := monthOfYear_spec left (dayOfYear_lt within)
  change month ≤ 11 at eleven
  change (153 * month + 2) / 5 ≤ left at started
  have isDayOfMonth : ((left : Int) - ((153 * month + 2) / 5 : Nat) + 1).toNat =
      left - (153 * month + 2) / 5 + 1 := by omega
  rw [isDayOfMonth]
  by_cases early : month < 10
  · have late : ¬ (month : Int) + 3 ≤ 2 := by omega
    have isMonthNumber : ((month : Int) + 3).toNat = month + 3 := by omega
    simp only [if_pos early, if_pos (show (month : Int) < 10 by omega), if_neg late,
      isMonthNumber, add_zero]
  · have late : (month : Int) - 9 ≤ 2 := by omega
    have isMonthNumber : ((month : Int) - 9).toNat = month - 9 := by omega
    simp only [if_neg early, if_neg (show ¬ (month : Int) < 10 by omega), if_pos late,
      isMonthNumber]

/-- A day of a month from March is one of the calendar's, 29 February in a leap year. -/
theorem lt_daysInMonth {year : Int} {month day : Nat} {isLast : Prop} [Decidable isLast]
    (eleven : month ≤ 11) (february : isLast → month = 11 ∧ IsLeap year)
    (within : day < [31, 30, 31, 30, 31, 31, 30, 31, 30, 31, 31, 28].getD month 0 +
      if isLast then 1 else 0) :
    day + 1 ≤ daysInMonth year (if month < 10 then month + 3 else month - 9) := by
  by_cases last : isLast
  · obtain ⟨rfl, leap⟩ := february last
    simp [last, daysInMonth, leap] at within ⊢
    omega
  · rw [if_neg last] at within
    have short := daysInMonth_pos year 2
    interval_cases month <;> simp [daysInMonth] at within short ⊢ <;> omega

/-- A year of an era that has 366 days ends with the February of a leap year. -/
theorem isLeap_of_last {year day : Nat} (era : Int) (small : year < 400)
    (first : daysOfEra year ≤ day)
    (last : day < daysOfEra (year + 1) + if year = 399 then 1 else 0)
    (isLast : day - daysOfEra year = 365) : IsLeap (year + era * 400 + 1) := by
  have start : daysOfEra year = 365 * year + year / 4 - year / 100 := rfl
  have next : daysOfEra (year + 1) = 365 * (year + 1) + (year + 1) / 4 - (year + 1) / 100 := rfl
  have fourth : (year + 1) % 4 = 0 ∧ ((year + 1) % 100 ≠ 0 ∨ year = 399) := by
    split at last <;> omega
  unfold IsLeap
  omega

/-- An era is 146097 days. -/
theorem daysBeforeYear_era {year : Nat} (era : Int) (small : year < 400) :
    daysBeforeYear (year + era * 400 + 1) = era * 146097 + daysOfEra year := by
  have start : daysOfEra year = 365 * year + year / 4 - year / 100 := rfl
  rw [daysBeforeYear, add_sub_cancel_right]
  omega

/-- `civil_from_days` is a date of the calendar, as many days after 1970-01-01. -/
theorem dateOfDays_spec (days : Int) :
    (dateOfDays days).Valid ∧ (dateOfDays days).number = days := by
  have isDate := civilFromDays_eq days
  dsimp only at isDate
  have isDay : days + 719468 = (days + 719468) / 146097 * 146097 +
      ((days + 719468) % 146097).toNat := by omega
  have within : ((days + 719468) % 146097).toNat < 146097 := by omega
  generalize (days + 719468) / 146097 = era at isDate isDay
  generalize ((days + 719468) % 146097).toNat = day at isDate isDay within
  obtain ⟨small, first, last⟩ := yearOfEra_spec within
  have short := dayOfYear_lt within
  generalize yearOfEra day = year at isDate small first last short
  obtain ⟨eleven, started, monthDay⟩ := monthOfYear_spec (day - daysOfEra year) short
  have february : day - daysOfEra year = 365 →
      (5 * (day - daysOfEra year) + 2) / 153 = 11 ∧ IsLeap (year + era * 400 + 1) := by
    intro isLast
    exact ⟨by omega, isLeap_of_last era small first last isLast⟩
  have split : day = daysOfEra year + (day - daysOfEra year) := by omega
  generalize day - daysOfEra year = left at isDate eleven started monthDay february split
  generalize isMonth : (5 * left + 2) / 153 = month at isDate eleven started monthDay february
  have isYear : (dateOfDays days).year = year + era * 400 + (if month < 10 then 0 else 1) :=
    congrArg Prod.fst isDate
  have isMonthNumber : (dateOfDays days).month = if month < 10 then month + 3 else month - 9 :=
    congrArg (·.2.1) isDate
  have isDayNumber : (dateOfDays days).day = left - (153 * month + 2) / 5 + 1 :=
    congrArg (·.2.2) isDate
  have valid : (dateOfDays days).Valid := by
    refine ⟨?_, by omega, ?_⟩
    · rw [isMonthNumber]
      split <;> omega
    · rw [isYear, isMonthNumber, isDayNumber]
      refine lt_daysInMonth eleven (fun isLast => ?_) monthDay
      obtain ⟨isFebruary, leap⟩ := february isLast
      rw [if_neg (by omega)]
      exact ⟨isFebruary, leap⟩
  have counted : daysFromCivil (dateOfDays days).year (dateOfDays days).month
      (dateOfDays days).day = (dateOfDays days).number := daysFromCivil_eq valid
  refine ⟨valid, counted.symm.trans ?_⟩
  rw [daysFromCivil_eq_march, isYear, isMonthNumber, isDayNumber]
  have years := daysBeforeYear_era era small
  by_cases early : month < 10
  · rw [if_pos early, if_pos early, if_neg (by omega), if_pos (by omega), add_zero, years]
    omega
  · rw [if_neg early, if_neg early, if_pos (by omega), if_neg (by omega), add_sub_cancel_right,
      years]
    omega

/-! ### Times -/

namespace CivilTime

def date (time : CivilTime) : Date := ⟨time.year, time.month, time.day⟩

def Valid (time : CivilTime) : Prop := time.date.Valid ∧ time.hour < 24 ∧ time.minute < 60

instance (time : CivilTime) : Decidable time.Valid := inferInstanceAs (Decidable (_ ∧ _))

/-- The order of times. -/
def Before (time later : CivilTime) : Prop :=
  time.date.Before later.date ∨ time.date = later.date ∧
    (time.hour < later.hour ∨ time.hour = later.hour ∧ time.minute < later.minute)

instance (time later : CivilTime) : Decidable (time.Before later) :=
  inferInstanceAs (Decidable (_ ∨ _))

variable {time later : CivilTime}

theorem Valid.daysFromEpoch_eq (valid : time.Valid) : time.daysFromEpoch = time.date.number :=
  daysFromCivil_eq valid.1

theorem Valid.epochMinute_eq (valid : time.Valid) :
    time.epochMinute = time.date.number * 1440 + time.hour * 60 + time.minute := by
  rw [epochMinute, valid.daysFromEpoch_eq]

/-- Minutes pass in the order of the times. -/
theorem epochMinute_lt_iff (valid : time.Valid) (validLater : later.Valid) :
    time.epochMinute < later.epochMinute ↔ time.Before later := by
  rw [valid.epochMinute_eq, validLater.epochMinute_eq, Before,
    ← Date.number_lt_number_iff valid.1 validLater.1]
  have hour := valid.2
  have laterHour := validLater.2
  constructor
  · intro less
    by_cases days : time.date.number < later.date.number
    · exact .inl days
    · have same : time.date.number = later.date.number := by omega
      exact .inr ⟨Date.eq_of_number_eq valid.1 validLater.1 same, by omega⟩
  · rintro (days | ⟨same, within⟩)
    · omega
    · rw [same]
      omega

theorem date_fromEpochMinute (minute : Int) :
    (fromEpochMinute minute).date = dateOfDays (minute / 1440) := rfl

/-- `from_epoch_minute` is the time of the calendar that is so many minutes after 1970-01-01. -/
theorem fromEpochMinute_spec (minute : Int) :
    (fromEpochMinute minute).Valid ∧ (fromEpochMinute minute).epochMinute = minute := by
  obtain ⟨validDate, number⟩ := dateOfDays_spec (minute / 1440)
  have hour : (fromEpochMinute minute).hour = (minute % 1440 / 60).toNat := rfl
  have minuteOfHour : (fromEpochMinute minute).minute = (minute % 1440 % 60).toNat := rfl
  have valid : (fromEpochMinute minute).Valid := by
    refine ⟨(date_fromEpochMinute minute).symm ▸ validDate, ?_, ?_⟩
    · rw [hour]
      omega
    · rw [minuteOfHour]
      omega
  refine ⟨valid, ?_⟩
  rw [valid.epochMinute_eq, date_fromEpochMinute, number, hour, minuteOfHour]
  omega

/-- The days of the week follow one another, and 1970-01-01 is a Thursday. -/
theorem weekday_eq (valid : time.Valid) : time.weekday = ((time.date.number + 4) % 7).toNat := by
  rw [weekday, valid.daysFromEpoch_eq]

end CivilTime

end ServerBox.Cron
