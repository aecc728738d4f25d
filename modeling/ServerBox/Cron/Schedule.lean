import Mathlib.Data.List.Dedup
import Mathlib.Data.List.Sort
import ServerBox.Cron.CivilTime
import ServerBox.Std.Text

/-!
# Cron schedules

`CronSchedule` of `crates/sbm_parser/src/cron.rs`: how an expression is read, and the next minute
that a schedule matches.
-/

namespace ServerBox.Cron

open ServerBox.Std

structure CronSchedule where
  minutes : List Nat
  hours : List Nat
  daysOfMonth : List Nat
  months : List Nat
  /-- Sunday is 0. -/
  daysOfWeek : List Nat
  dayOfMonthRestricted : Bool
  dayOfWeekRestricted : Bool
  isReboot : Bool
deriving DecidableEq, Repr

/-! ### Reading an expression -/

/-- `to_lowercase`, as far as it makes an ASCII letter: of one, and of the Kelvin sign. -/
def lowercase (text : Text) : Text :=
  text.map fun char => if char = '\u212A' then 'k' else char.toLower

def macros : List (String × String) :=
  [("@yearly", "0 0 1 1 *"), ("@annually", "0 0 1 1 *"), ("@monthly", "0 0 1 * *"),
    ("@weekly", "0 0 * * 0"), ("@daily", "0 0 * * *"), ("@midnight", "0 0 * * *"),
    ("@hourly", "0 * * * *")]

def monthNames : List (String × Nat) :=
  [("jan", 1), ("feb", 2), ("mar", 3), ("apr", 4), ("may", 5), ("jun", 6), ("jul", 7), ("aug", 8),
    ("sep", 9), ("oct", 10), ("nov", 11), ("dec", 12)]

def dayNames : List (String × Nat) :=
  [("sun", 0), ("mon", 1), ("tue", 2), ("wed", 3), ("thu", 4), ("fri", 5), ("sat", 6)]

/-- A number of 32 bits. -/
def parseU32 (text : Text) : Option Nat := Text.parseUnsigned (2 ^ 32 - 1) text

/-- A number, or a name for one. -/
def numberOrName (token : Text) (names : List (String × Nat)) : Option Nat :=
  match parseU32 token with
  | some number => some number
  | none => (names.find? fun name => name.1.toList = lowercase token).map (·.2)

/-- `field_value`. -/
def fieldValue (raw : Text) (names : List (String × Nat)) (min max : Nat) : Option Nat := do
  let token := Text.trim raw
  if token.isEmpty then none
  else
    let value ← numberOrName token names
    if value < min ∨ max < value then none else some value

/-- A token up to its slash, and the step after that. -/
def tokenStep (token : Text) : Option (Text × Nat) :=
  match Text.splitOnce '/' token with
  | none => some (token, 1)
  | some (body, rest) =>
      match parseU32 rest with
      | some step => if step < 1 then none else some (body, step)
      | none => none

/-- The first and the last value of a token; `5/10` is the rest of the field from 5 on, a bare `5`
is itself. -/
def tokenRange (stepped : Bool) (body : Text) (names : List (String × Nat)) (min max : Nat) :
    Option (Nat × Nat) :=
  if body = ['*'] then some (min, max)
  else
    match body.splitOn '-' with
    | [one] => (fieldValue one names min max).map fun first => (first, if stepped then max else first)
    | [one, other] => do
        let first ← fieldValue one names min max
        let last ← fieldValue other names min max
        some (first, last)
    | _ => none

/-- `parse_token`: one part of a field, expanded. -/
def parseToken (token : Text) (min max : Nat) (names : List (String × Nat)) :
    Option (List Nat) := do
  if token.isEmpty then none
  else
    let (body, step) ← tokenStep token
    let (first, last) ← tokenRange (token.contains '/') body names min max
    if last < first then none
    else some ((List.range ((last - first) / step + 1)).map fun place => first + step * place)

/-- Each of them once, in their order: `sort_unstable` and `dedup`. -/
def sortedOnce (values : List Nat) : List Nat := (values.insertionSort (· ≤ ·)).dedup

/-- The values of tokens, one after another. -/
def parseTokens (min max : Nat) (names : List (String × Nat)) : List Text → Option (List Nat)
  | [] => some []
  | token :: tokens => do
      let parsed ← parseToken (Text.trim token) min max names
      let values ← parseTokens min max names tokens
      some (parsed ++ values)

/-- `parse_field`. -/
def parseField (field : Text) (min max : Nat) (names : List (String × Nat)) :
    Option (List Nat) := do
  let values ← parseTokens min max names (field.splitOn ',')
  if values.isEmpty then none else some (sortedOnce values)

/-- `try_parse`, of an expression that is no macro. -/
def parseFields (trimmed : Text) : Option CronSchedule :=
  match Text.splitWhitespace trimmed with
  | [minute, hour, dayOfMonth, month, dayOfWeek] => do
      let minutes ← parseField minute 0 59 []
      let hours ← parseField hour 0 23 []
      let daysOfMonth ← parseField dayOfMonth 1 31 []
      let months ← parseField month 1 12 monthNames
      let daysOfWeek ← parseField dayOfWeek 0 7 dayNames
      some {
        minutes, hours, daysOfMonth, months
        daysOfWeek := sortedOnce (daysOfWeek.map (· % 7))
        dayOfMonthRestricted := dayOfMonth ≠ ['*']
        dayOfWeekRestricted := dayOfWeek ≠ ['*']
        isReboot := false }
  | _ => none

/-- What `@reboot` is read as. -/
def reboot : CronSchedule := ⟨[], [], [], [], [], false, false, true⟩

/-- `try_parse`. -/
def tryParse (expression : Text) : Option CronSchedule :=
  let trimmed := Text.trim expression
  if trimmed.isEmpty then none
  else
    match trimmed with
    | '@' :: name =>
        let lower := '@' :: lowercase name
        if lower = "@reboot".toList then some reboot
        else
          match macros.find? fun known => known.1.toList = lower with
          | some (_, expanded) => parseFields expanded.toList
          | none => none
    | _ => parseFields trimmed

/-! ### The next run -/

namespace CronSchedule

/-- `matches_date`. -/
def matchesDate (schedule : CronSchedule) (day : CivilTime) : Bool :=
  if !schedule.months.contains day.month then false
  else
    let byDayOfMonth := schedule.daysOfMonth.contains day.day
    let byDayOfWeek := schedule.daysOfWeek.contains day.weekday
    if schedule.dayOfMonthRestricted && schedule.dayOfWeekRestricted then
      byDayOfMonth || byDayOfWeek
    else if schedule.dayOfMonthRestricted then byDayOfMonth
    else if schedule.dayOfWeekRestricted then byDayOfWeek
    else true

/-- `SEARCH_DAYS`. -/
def searchDays : Nat := 366 * 8

/-- `next_run`. -/
def nextRun (schedule : CronSchedule) (after : CivilTime) : Option CivilTime :=
  if schedule.isReboot || schedule.minutes.isEmpty || schedule.hours.isEmpty then none
  else
    let start := after.epochMinute + 1
    let minutes := schedule.minutes.insertionSort (· ≤ ·)
    let hours := schedule.hours.insertionSort (· ≤ ·)
    (List.range searchDays).findSome? fun offset : Nat =>
      let day := CivilTime.fromEpochMinute (start + offset * 1440)
      if !schedule.matchesDate day then none
      else
        hours.findSome? fun hour => minutes.findSome? fun minute =>
          let time : CivilTime := ⟨day.year, day.month, day.day, hour, minute⟩
          if time.epochMinute < start then none else some time

/-- When a schedule runs: in its months, hours and minutes, on its days of the month or of the
week; where both are restricted, on either. -/
def Matches (schedule : CronSchedule) (time : CivilTime) : Prop :=
  time.month ∈ schedule.months ∧ time.hour ∈ schedule.hours ∧ time.minute ∈ schedule.minutes ∧
    if schedule.dayOfMonthRestricted ∧ schedule.dayOfWeekRestricted then
      time.day ∈ schedule.daysOfMonth ∨ time.weekday ∈ schedule.daysOfWeek
    else (schedule.dayOfMonthRestricted → time.day ∈ schedule.daysOfMonth) ∧
      (schedule.dayOfWeekRestricted → time.weekday ∈ schedule.daysOfWeek)

/-- What is read of an expression: hours and minutes of a day; and none, for `@reboot`. -/
structure InRange (schedule : CronSchedule) : Prop where
  hours : ∀ hour ∈ schedule.hours, hour < 24
  minutes : ∀ minute ∈ schedule.minutes, minute < 60
  reboot : schedule.isReboot = true → schedule.minutes = []

end CronSchedule

theorem le_of_fieldValue {raw : Text} {names : List (String × Nat)} {min max value : Nat}
    (read : fieldValue raw names min max = some value) : value ≤ max := by
  unfold fieldValue at read
  simp only at read
  split at read
  next => cases read
  next =>
      obtain ⟨number, -, inRange⟩ := Option.bind_eq_some_iff.mp read
      split at inRange
      next => cases inRange
      next within =>
          obtain rfl := Option.some.inj inRange
          omega

theorem le_of_tokenRange {stepped : Bool} {body : Text} {names : List (String × Nat)}
    {min max first last : Nat}
    (read : tokenRange stepped body names min max = some (first, last)) : last ≤ max := by
  unfold tokenRange at read
  split at read
  next =>
      cases read
      exact le_rfl
  next =>
      split at read
      next one _ =>
          obtain ⟨value, isValue, same⟩ := Option.map_eq_some_iff.mp read
          have within := le_of_fieldValue isValue
          cases same
          split <;> omega
      next one other _ =>
          obtain ⟨value, -, later⟩ := Option.bind_eq_some_iff.mp read
          obtain ⟨otherValue, isOther, same⟩ := Option.bind_eq_some_iff.mp later
          cases same
          exact le_of_fieldValue isOther
      next => cases read

/-- A token is expanded within its field. -/
theorem le_of_parseToken {token : Text} {min max : Nat} {names : List (String × Nat)}
    {values : List Nat} (read : parseToken token min max names = some values) :
    ∀ value ∈ values, value ≤ max := by
  unfold parseToken at read
  split at read
  next => cases read
  next =>
      obtain ⟨⟨body, step⟩, -, later⟩ := Option.bind_eq_some_iff.mp read
      obtain ⟨⟨first, last⟩, isRange, expanded⟩ := Option.bind_eq_some_iff.mp later
      have within := le_of_tokenRange isRange
      simp only at expanded
      split at expanded
      next => cases expanded
      next ascending =>
          obtain rfl := Option.some.inj expanded
          intro value isValue
          obtain ⟨place, isPlace, rfl⟩ := List.mem_map.mp isValue
          have steps : step * place ≤ last - first :=
            (Nat.mul_le_mul_left step (Nat.lt_succ_iff.mp (List.mem_range.mp isPlace))).trans
              (Nat.mul_div_le (last - first) step)
          omega

theorem mem_sortedOnce {values : List Nat} {value : Nat} :
    value ∈ sortedOnce values ↔ value ∈ values := by
  rw [sortedOnce, List.mem_dedup, List.mem_insertionSort]

theorem le_of_parseTokens {min max : Nat} {names : List (String × Nat)} {tokens : List Text}
    {values : List Nat} (read : parseTokens min max names tokens = some values) :
    ∀ value ∈ values, value ≤ max := by
  induction tokens generalizing values with
  | nil =>
      cases read
      nofun
  | cons token tokens inductionHypothesis =>
      obtain ⟨parsed, isParsed, later⟩ := Option.bind_eq_some_iff.mp read
      obtain ⟨rest, isRest, same⟩ := Option.bind_eq_some_iff.mp later
      obtain rfl := Option.some.inj same
      intro value isValue
      rcases List.mem_append.mp isValue with first | rest
      · exact le_of_parseToken isParsed value first
      · exact inductionHypothesis isRest value rest

theorem le_of_parseField {field : Text} {min max : Nat} {names : List (String × Nat)}
    {values : List Nat} (read : parseField field min max names = some values) :
    ∀ value ∈ values, value ≤ max := by
  obtain ⟨parsed, isParsed, later⟩ := Option.bind_eq_some_iff.mp read
  split at later
  next => cases later
  next =>
      obtain rfl := Option.some.inj later
      exact fun value isValue => le_of_parseTokens isParsed value (mem_sortedOnce.mp isValue)

theorem inRange_of_parseFields {trimmed : Text} {schedule : CronSchedule}
    (accepted : parseFields trimmed = some schedule) : schedule.InRange := by
  unfold parseFields at accepted
  split at accepted
  next minute hour dayOfMonth month dayOfWeek _ =>
      obtain ⟨minutes, isMinutes, later⟩ := Option.bind_eq_some_iff.mp accepted
      obtain ⟨hours, isHours, later⟩ := Option.bind_eq_some_iff.mp later
      obtain ⟨daysOfMonth, -, later⟩ := Option.bind_eq_some_iff.mp later
      obtain ⟨months, -, later⟩ := Option.bind_eq_some_iff.mp later
      obtain ⟨daysOfWeek, -, same⟩ := Option.bind_eq_some_iff.mp later
      obtain rfl := Option.some.inj same
      exact ⟨fun hour isHour => Nat.lt_succ_of_le (le_of_parseField isHours hour isHour),
        fun minute isMinute => Nat.lt_succ_of_le (le_of_parseField isMinutes minute isMinute),
        nofun⟩
  next => cases accepted

/-- What `try_parse` accepts is in range. -/
theorem inRange_of_tryParse {expression : Text} {schedule : CronSchedule}
    (accepted : tryParse expression = some schedule) : schedule.InRange := by
  unfold tryParse at accepted
  simp only at accepted
  split at accepted
  next => cases accepted
  next =>
      split at accepted
      next =>
          split at accepted
          next =>
              obtain rfl := Option.some.inj accepted
              exact ⟨nofun, nofun, fun _ => rfl⟩
          next =>
              split at accepted
              next => exact inRange_of_parseFields accepted
              next => cases accepted
      next => exact inRange_of_parseFields accepted

end ServerBox.Cron
