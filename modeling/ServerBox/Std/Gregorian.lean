import Mathlib.Tactic.IntervalCases
import Mathlib.Tactic.Linarith

/-!
# The Gregorian calendar

Dates of the proleptic Gregorian calendar, their order, and how many days they are after
1970-01-01. `number_lt_number_iff` says that the days are counted in the order of the dates, and
with the count of one date that fixes every other.
-/

namespace ServerBox.Std.Gregorian

/-! ### Years and months -/

def IsLeap (year : Int) : Prop := year % 4 = 0 ∧ (year % 100 ≠ 0 ∨ year % 400 = 0)

instance (year : Int) : Decidable (IsLeap year) := inferInstanceAs (Decidable (_ ∧ _))

def daysInMonth (year : Int) (month : Nat) : Nat :=
  if month = 2 then if IsLeap year then 29 else 28
  else if month = 4 ∨ month = 6 ∨ month = 9 ∨ month = 11 then 30
  else 31

def daysInYear (year : Int) : Nat := if IsLeap year then 366 else 365

/-- The days from 1 January of the year 1 to 1 January of a year. -/
def daysBeforeYear (year : Int) : Int :=
  365 * (year - 1) + (year - 1) / 4 - (year - 1) / 100 + (year - 1) / 400

/-- The days of a year before a month. -/
def daysBeforeMonth (year : Int) : Nat → Nat
  | 0 => 0
  | 1 => 0
  | month + 2 => daysBeforeMonth year (month + 1) + daysInMonth year (month + 1)

theorem daysBeforeYear_succ (year : Int) :
    daysBeforeYear (year + 1) = daysBeforeYear year + daysInYear year := by
  unfold daysBeforeYear
  by_cases leap : IsLeap year
  · rw [daysInYear, if_pos leap]
    unfold IsLeap at leap
    omega
  · rw [daysInYear, if_neg leap]
    unfold IsLeap at leap
    omega

/-- Years pass in their order. -/
theorem daysBeforeYear_le {year later : Int} (earlier : year ≤ later) :
    daysBeforeYear year + 365 * (later - year) ≤ daysBeforeYear later := by
  unfold daysBeforeYear
  omega

theorem daysBeforeMonth_succ (year : Int) {month : Nat} (positive : 1 ≤ month) :
    daysBeforeMonth year (month + 1) = daysBeforeMonth year month + daysInMonth year month := by
  obtain ⟨month, rfl⟩ := Nat.exists_eq_add_of_le' positive
  rfl

theorem daysInMonth_pos (year : Int) (month : Nat) : 28 ≤ daysInMonth year month := by
  unfold daysInMonth
  split
  next => split <;> omega
  next => split <;> omega

/-- Months pass in their order. -/
theorem daysBeforeMonth_le (year : Int) {month later : Nat} (earlier : month ≤ later)
    (positive : 1 ≤ month) : daysBeforeMonth year month ≤ daysBeforeMonth year later := by
  induction later, earlier using Nat.le_induction with
  | base => exact le_rfl
  | succ later earlier inductionHypothesis =>
      rw [daysBeforeMonth_succ year (positive.trans earlier)]
      omega

/-- A year is its twelve months. -/
theorem daysBeforeMonth_thirteen (year : Int) : daysBeforeMonth year 13 = daysInYear year := by
  by_cases leap : IsLeap year <;>
    simp [daysBeforeMonth, daysInMonth, daysInYear, leap]

/-! ### Dates -/

structure Date where
  year : Int
  month : Nat
  day : Nat
deriving DecidableEq, Repr

namespace Date

def Valid (date : Date) : Prop :=
  (1 ≤ date.month ∧ date.month ≤ 12) ∧ 1 ≤ date.day ∧
    date.day ≤ daysInMonth date.year date.month

instance (date : Date) : Decidable date.Valid := inferInstanceAs (Decidable (_ ∧ _))

/-- The order of dates. -/
def Before (date later : Date) : Prop :=
  date.year < later.year ∨ date.year = later.year ∧
    (date.month < later.month ∨ date.month = later.month ∧ date.day < later.day)

instance (date later : Date) : Decidable (date.Before later) := inferInstanceAs (Decidable (_ ∨ _))

/-- The days from 1970-01-01 to a date. -/
def number (date : Date) : Int :=
  daysBeforeYear date.year + daysBeforeMonth date.year date.month + date.day - 1 -
    daysBeforeYear 1970

variable {date later : Date}

/-- A date lies within its year. -/
theorem Valid.within_year (valid : date.Valid) :
    daysBeforeMonth date.year date.month + date.day ≤ daysInYear date.year := by
  obtain ⟨⟨positive, twelve⟩, -, within⟩ := valid
  have next := daysBeforeMonth_succ date.year positive
  have last := daysBeforeMonth_le date.year (show date.month + 1 ≤ 13 by omega) (by omega)
  rw [daysBeforeMonth_thirteen] at last
  omega

/-- Days pass in the order of the dates. -/
theorem number_lt_of_before (valid : date.Valid) (validLater : later.Valid)
    (before : date.Before later) : date.number < later.number := by
  unfold number
  have within := valid.within_year
  have positive := validLater.2.1
  rcases before with year | ⟨year, month | ⟨month, day⟩⟩
  · have next := daysBeforeYear_succ date.year
    have years := daysBeforeYear_le (show date.year + 1 ≤ later.year by omega)
    omega
  · rw [year]
    have next := daysBeforeMonth_succ later.year valid.1.1
    have months := daysBeforeMonth_le later.year (show date.month + 1 ≤ later.month by omega)
      (by omega)
    have day := valid.2.2
    rw [year] at day
    omega
  · rw [year, month]
    omega

theorem before_trichotomy (date later : Date) :
    date.Before later ∨ date = later ∨ later.Before date := by
  obtain ⟨year, month, day⟩ := date
  obtain ⟨laterYear, laterMonth, laterDay⟩ := later
  simp only [Before, mk.injEq]
  omega

theorem number_lt_number_iff (valid : date.Valid) (validLater : later.Valid) :
    date.number < later.number ↔ date.Before later := by
  refine ⟨fun less => ?_, number_lt_of_before valid validLater⟩
  rcases before_trichotomy date later with before | rfl | after
  · exact before
  · exact absurd less (lt_irrefl _)
  · exact absurd (number_lt_of_before validLater valid after) less.not_gt

/-- Two dates so many days after 1970-01-01 are one. -/
theorem eq_of_number_eq (valid : date.Valid) (validLater : later.Valid)
    (same : date.number = later.number) : date = later := by
  rcases before_trichotomy date later with before | equal | after
  · exact absurd same (number_lt_of_before valid validLater before).ne
  · exact equal
  · exact absurd same (number_lt_of_before validLater valid after).ne'

/-! ### The date after a date -/

def next (date : Date) : Date :=
  if date.day < daysInMonth date.year date.month then ⟨date.year, date.month, date.day + 1⟩
  else if date.month < 12 then ⟨date.year, date.month + 1, 1⟩
  else ⟨date.year + 1, 1, 1⟩

theorem Valid.next (valid : date.Valid) : date.next.Valid := by
  obtain ⟨⟨positive, twelve⟩, firstDay, within⟩ := valid
  unfold Date.next
  split
  next sameMonth => exact ⟨⟨positive, twelve⟩, by simp only; omega, sameMonth⟩
  next lastDay =>
      split
      next sameYear =>
          have days := daysInMonth_pos date.year (date.month + 1)
          exact ⟨⟨by simp only; omega, by simp only; omega⟩, le_rfl, by simp only; omega⟩
      next lastMonth => exact ⟨⟨le_rfl, by simp⟩, le_rfl, by simp [daysInMonth]⟩

/-- It is one day later. -/
theorem Valid.number_next (valid : date.Valid) : date.next.number = date.number + 1 := by
  obtain ⟨⟨positive, twelve⟩, firstDay, within⟩ := valid
  have nextMonth := daysBeforeMonth_succ date.year positive
  unfold Date.next
  split
  next sameMonth =>
      unfold number
      simp only
      omega
  next lastDay =>
      split
      next sameYear =>
          unfold number
          simp only
          omega
      next lastMonth =>
          have isLast : date.month = 12 := by omega
          have isNext : daysBeforeMonth date.year (12 + 1) = daysInYear date.year :=
            daysBeforeMonth_thirteen date.year
          have nextYear := daysBeforeYear_succ date.year
          have january : daysBeforeMonth (date.year + 1) 1 = 0 := rfl
          rw [isLast] at nextMonth within lastDay
          unfold number
          simp only [january, isLast]
          omega

/-! ### Dates that come round again -/

/-- How many days some years are at most. -/
theorem daysBeforeYear_le_add (year : Int) (years : Nat) :
    daysBeforeYear (year + years) ≤ daysBeforeYear year + 365 * years + years / 4 + 1 := by
  unfold daysBeforeYear
  omega

theorem Valid.number_bounds (valid : date.Valid) :
    daysBeforeYear date.year - daysBeforeYear 1970 ≤ date.number ∧
      date.number < daysBeforeYear (date.year + 1) - daysBeforeYear 1970 := by
  have within := valid.within_year
  have positive := valid.2.1
  have next := daysBeforeYear_succ date.year
  unfold number
  constructor <;> omega

/-- A date of the next year is later, within two years. -/
theorem Valid.next_year (valid : date.Valid) (validLater : later.Valid)
    (next : later.year = date.year + 1) :
    date.number < later.number ∧ later.number ≤ date.number + 731 := by
  have first := valid.number_bounds
  have last := validLater.number_bounds
  have years := daysBeforeYear_le_add date.year 2
  rw [next] at last
  have twoYears : date.year + 1 + 1 = date.year + 2 := by omega
  rw [twoYears] at last
  constructor
  · omega
  · push_cast at years
    omega

/-- A day of a month is one in every year, but for 29 February. -/
theorem daysInMonth_of_day {year other : Int} {month day : Nat}
    (within : day ≤ daysInMonth year month) (notLeapDay : ¬ (month = 2 ∧ day = 29)) :
    day ≤ daysInMonth other month := by
  unfold daysInMonth at within ⊢
  split at within
  next february =>
      rw [if_pos february]
      split at within <;> split <;> omega
  next notFebruary =>
      rw [if_neg notFebruary]
      exact within

/-- There is a leap year within eight years, and within seven where this is none. -/
theorem exists_leap (year : Int) : ∃ years : Nat, 1 ≤ years ∧ years ≤ 8 ∧
    IsLeap (year + years) ∧ (¬ IsLeap year → years ≤ 7) := by
  have inFour : ∃ years : Nat, 1 ≤ years ∧ years ≤ 4 ∧ (year + years) % 4 = 0 ∧
      (year % 4 ≠ 0 → years ≤ 3) := ⟨(4 - year % 4).toNat, by omega, by omega, by omega, by omega⟩
  obtain ⟨years, positive, four, isFourth, three⟩ := inFour
  by_cases leap : IsLeap (year + years)
  · exact ⟨years, positive, by omega, leap, fun _ => by omega⟩
  · refine ⟨years + 4, by omega, by omega, ?_, fun notLeap => ?_⟩
    · unfold IsLeap at leap ⊢
      push_cast
      omega
    · unfold IsLeap at leap notLeap
      omega

/-- The leap day of a leap year. -/
theorem valid_leapDay {year : Int} (leap : IsLeap year) : (⟨year, 2, 29⟩ : Date).Valid := by
  have long : daysInMonth year 2 = 29 := by
    rw [daysInMonth, if_pos rfl, if_pos leap]
  exact ⟨⟨Nat.le_succ 1, Nat.le_add_left 2 10⟩, Nat.le_add_left 1 28, long.ge⟩

theorem number_leapDay (year : Int) : (⟨year, 2, 29⟩ : Date).number =
    daysBeforeYear year + 59 - daysBeforeYear 1970 := by
  change daysBeforeYear year + (31 : Nat) + (29 : Nat) - 1 - daysBeforeYear 1970 = _
  omega

/-- After a date, 29 February comes round within 2928 days. -/
theorem Valid.exists_leapDay (valid : date.Valid) : ∃ year, IsLeap year ∧
    date.number < (⟨year, 2, 29⟩ : Date).number ∧
    (⟨year, 2, 29⟩ : Date).number < date.number + 2928 := by
  have bounds := valid.number_bounds
  have thisYear := daysBeforeYear_succ date.year
  by_cases still : IsLeap date.year ∧ date.Before ⟨date.year, 2, 29⟩
  · obtain ⟨leap, before⟩ := still
    refine ⟨date.year, leap, number_lt_of_before valid (valid_leapDay leap) before, ?_⟩
    rw [number_leapDay]
    omega
  · obtain ⟨years, positive, eight, leap, seven⟩ := exists_leap date.year
    refine ⟨date.year + years, leap,
      number_lt_of_before valid (valid_leapDay leap) (.inl ?_), ?_⟩
    · change date.year < date.year + years
      omega
    · have passed := daysBeforeYear_le_add date.year years
      rw [number_leapDay]
      by_cases leapNow : IsLeap date.year
      · have notBefore : ¬ date.number < (⟨date.year, 2, 29⟩ : Date).number := fun less =>
          still ⟨leapNow, (number_lt_number_iff valid (valid_leapDay leapNow)).mp less⟩
        rw [number_leapDay] at notBefore
        omega
      · have short := seven leapNow
        omega

/-- After a date, each day of a month comes round within 2928 days, 29 February too. -/
theorem Valid.exists_same_day (valid : date.Valid) {other : Date} (validOther : other.Valid) :
    ∃ again : Date, again.Valid ∧ again.month = other.month ∧ again.day = other.day ∧
      date.number < again.number ∧ again.number < date.number + 2928 := by
  by_cases leapDay : other.month = 2 ∧ other.day = 29
  · obtain ⟨year, leap, after, within⟩ := valid.exists_leapDay
    exact ⟨_, valid_leapDay leap, leapDay.1.symm, leapDay.2.symm, after, within⟩
  · have validAgain : (⟨date.year + 1, other.month, other.day⟩ : Date).Valid :=
      ⟨validOther.1, validOther.2.1, daysInMonth_of_day validOther.2.2 leapDay⟩
    obtain ⟨after, within⟩ := valid.next_year validAgain rfl
    exact ⟨_, validAgain, rfl, rfl, after, by omega⟩

/-- After a date, each day of the week comes round in each month within two years. -/
theorem Valid.exists_same_weekday (valid : date.Valid) {other : Date} (validOther : other.Valid) :
    ∃ again : Date, again.Valid ∧ again.month = other.month ∧
      again.number % 7 = other.number % 7 ∧
      date.number < again.number ∧ again.number < date.number + 2928 := by
  let first : Date := ⟨date.year + 1, other.month, 1⟩
  let again : Date := ⟨date.year + 1, other.month, ((other.number - first.number) % 7).toNat + 1⟩
  have long := daysInMonth_pos (date.year + 1) other.month
  have validAgain : again.Valid :=
    ⟨validOther.1, Nat.le_add_left 1 _, show ((other.number - first.number) % 7).toNat + 1 ≤
      daysInMonth (date.year + 1) other.month by omega⟩
  obtain ⟨after, within⟩ := valid.next_year validAgain rfl
  have later : again.number = first.number + ((other.number - first.number) % 7).toNat := by
    simp only [number, again, first]
    omega
  exact ⟨again, validAgain, rfl, by omega, after, by omega⟩

end Date

end ServerBox.Std.Gregorian
