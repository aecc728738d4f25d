import ServerBox.Cron.Schedule

/-!
# The next run of a schedule

`next_run` looks at the days one after another, and on each at its hours and minutes in their
order. `next_run_exact` is that it finds the first minute that the schedule matches: what it does
not find in its search window is not found later, since every date and every day of the week of a
month comes round within it.
-/

namespace ServerBox.Cron

open ServerBox.Std.Gregorian

/-- The first that is found in a list in order comes before every other that would be. -/
theorem of_findSome?_sorted {values : List Nat} {Found : Type} {find : Nat → Option Found}
    {found : Found} (sorted : values.Pairwise (· ≤ ·)) (first : values.findSome? find = some found) :
    ∃ value ∈ values, find value = some found ∧
      ∀ other ∈ values, other < value → find other = none := by
  obtain ⟨before, value, after, rfl, isFound, none⟩ := List.findSome?_eq_some_iff.mp first
  refine ⟨value, List.mem_append_right _ List.mem_cons_self, isFound, fun other isOther less => ?_⟩
  rcases List.mem_append.mp isOther with earlier | later
  · exact none other earlier
  · rcases List.mem_cons.mp later with rfl | later
    · exact absurd less (lt_irrefl _)
    · have ordered := List.rel_of_pairwise_cons (List.pairwise_append.mp sorted).2.1 later
      exact absurd less ordered.not_gt

namespace CronSchedule

variable {schedule : CronSchedule}

/-- A schedule runs at its hours and minutes of a day that it runs on. -/
theorem matches_iff {time : CivilTime} : schedule.Matches time ↔
    schedule.matchesDate time = true ∧ time.hour ∈ schedule.hours ∧
      time.minute ∈ schedule.minutes := by
  unfold Matches matchesDate
  by_cases month : time.month ∈ schedule.months
  · cases dayOfMonth : schedule.dayOfMonthRestricted <;>
      cases dayOfWeek : schedule.dayOfWeekRestricted <;>
      simp [month] <;> tauto
  · simp [month]

theorem matchesDate_congr {time other : CivilTime} (same : time.date = other.date) :
    schedule.matchesDate time = schedule.matchesDate other := by
  obtain ⟨year, month, day, _, _⟩ := time
  obtain ⟨otherYear, otherMonth, otherDay, _, _⟩ := other
  simp only [CivilTime.date, Date.mk.injEq] at same
  obtain ⟨rfl, rfl, rfl⟩ := same
  rfl

/-! ### One day -/

/-- What the search finds on one day. -/
def runOn (schedule : CronSchedule) (start : Int) (day : CivilTime) : Option CivilTime :=
  if !schedule.matchesDate day then none
  else
    (schedule.hours.insertionSort (· ≤ ·)).findSome? fun hour =>
      (schedule.minutes.insertionSort (· ≤ ·)).findSome? fun minute =>
        let time : CivilTime := ⟨day.year, day.month, day.day, hour, minute⟩
        if time.epochMinute < start then none else some time

/-- The search of so many days from a start. -/
def search (schedule : CronSchedule) (days : Nat) (start : Int) : Option CivilTime :=
  (List.range days).findSome? fun offset : Nat =>
    schedule.runOn start (CivilTime.fromEpochMinute (start + offset * 1440))

theorem nextRun_eq (schedule : CronSchedule) (after : CivilTime) : schedule.nextRun after =
    if schedule.isReboot || schedule.minutes.isEmpty || schedule.hours.isEmpty then none
    else schedule.search searchDays (after.epochMinute + 1) := rfl

/-- A time is its date, its hour and its minute. -/
theorem eq_of_date {time day : CivilTime} (same : time.date = day.date) :
    (⟨day.year, day.month, day.day, time.hour, time.minute⟩ : CivilTime) = time := by
  obtain ⟨year, month, dayOfMonth, hour, minute⟩ := time
  simp only [CivilTime.date, Date.mk.injEq] at same
  obtain ⟨rfl, rfl, rfl⟩ := same
  rfl

/-- Where nothing is found on a day, no time of it from the start on matches. -/
theorem lt_of_runOn_eq_none {start : Int} {day time : CivilTime}
    (none : schedule.runOn start day = none) (same : time.date = day.date)
    (isMatch : schedule.Matches time) : time.epochMinute < start := by
  obtain ⟨onDay, hour, minute⟩ := matches_iff.mp isMatch
  rw [matchesDate_congr same] at onDay
  rw [runOn, onDay, if_neg (by decide), List.findSome?_eq_none_iff] at none
  have atHour := none time.hour ((List.mem_insertionSort _).mpr hour)
  have atMinute := List.findSome?_eq_none_iff.mp atHour time.minute
    ((List.mem_insertionSort _).mpr minute)
  rw [eq_of_date same] at atMinute
  by_contra late
  rw [if_neg late] at atMinute
  cases atMinute

/-- What is found on a day is the first time of it, from the start on, that matches. -/
theorem of_runOn {start : Int} {day time : CivilTime}
    (found : schedule.runOn start day = some time) :
    time.date = day.date ∧ start ≤ time.epochMinute ∧ schedule.Matches time ∧
      ∀ other : CivilTime, other.date = day.date → schedule.Matches other →
        start ≤ other.epochMinute →
          time.hour < other.hour ∨ time.hour = other.hour ∧ time.minute ≤ other.minute := by
  rw [runOn] at found
  split at found
  next => cases found
  next onDay =>
      rw [Bool.not_eq_true', Bool.not_eq_false] at onDay
      obtain ⟨hour, isHour, atHour, noEarlierHour⟩ :=
        of_findSome?_sorted (List.pairwise_insertionSort (· ≤ ·) _) found
      obtain ⟨minute, isMinute, atMinute, noEarlierMinute⟩ :=
        of_findSome?_sorted (List.pairwise_insertionSort (· ≤ ·) _) atHour
      dsimp only at atMinute
      split at atMinute
      next => cases atMinute
      next late =>
          obtain rfl := Option.some.inj atMinute
          rw [List.mem_insertionSort] at isHour isMinute
          refine ⟨rfl, not_lt.mp late, matches_iff.mpr ⟨onDay, isHour, isMinute⟩,
            fun other same isMatch reached => ?_⟩
          obtain ⟨-, otherHour, otherMinute⟩ := matches_iff.mp isMatch
          rcases lt_trichotomy other.hour hour with earlier | sameHour | later
          · have none := noEarlierHour other.hour ((List.mem_insertionSort _).mpr otherHour) earlier
            have notFound := List.findSome?_eq_none_iff.mp none other.minute
              ((List.mem_insertionSort _).mpr otherMinute)
            rw [eq_of_date same, if_neg reached.not_gt] at notFound
            cases notFound
          · refine .inr ⟨sameHour.symm, ?_⟩
            by_contra earlier
            have none := noEarlierMinute other.minute ((List.mem_insertionSort _).mpr otherMinute)
              (not_le.mp earlier)
            rw [← sameHour, eq_of_date same, if_neg reached.not_gt] at none
            cases none
          · exact .inl later

/-! ### The search window -/

/-- A day that a schedule runs on is one for its day of the month, or for its day of the week. -/
theorem date_or_weekday {time : CivilTime} (runs : schedule.matchesDate time = true) :
    (∀ other : CivilTime, other.month = time.month → other.day = time.day →
      schedule.matchesDate other = true) ∨
    ∀ other : CivilTime, other.month = time.month → other.weekday = time.weekday →
      schedule.matchesDate other = true := by
  unfold matchesDate at runs ⊢
  cases dayOfMonth : schedule.dayOfMonthRestricted <;>
    cases dayOfWeek : schedule.dayOfWeekRestricted <;>
    rw [dayOfMonth, dayOfWeek] at runs
  · exact .inl fun other month _ => by simp_all
  · exact .inr fun other month weekday => by simp_all
  · exact .inl fun other month day => by simp_all
  · by_cases isDay : schedule.daysOfMonth.contains time.day = true
    · exact .inl fun other month day => by simp_all
    · exact .inr fun other month weekday => by simp_all

/-- A schedule that runs at all runs again within the search window. -/
theorem exists_near {first time : CivilTime} (valid : first.Valid) (validTime : time.Valid)
    (isMatch : schedule.Matches time) :
    ∃ near : CivilTime, near.Valid ∧ schedule.Matches near ∧
      first.date.number < near.date.number ∧ near.date.number < first.date.number + 2928 := by
  obtain ⟨runs, hour, minute⟩ := matches_iff.mp isMatch
  rcases date_or_weekday runs with sameDay | sameWeekday
  · obtain ⟨again, validAgain, month, day, after, within⟩ := valid.1.exists_same_day validTime.1
    refine ⟨⟨again.year, again.month, again.day, time.hour, time.minute⟩,
      ⟨validAgain, validTime.2⟩, ?_, after, within⟩
    exact matches_iff.mpr ⟨sameDay _ month day, hour, minute⟩
  · obtain ⟨again, validAgain, month, weekday, after, within⟩ :=
      valid.1.exists_same_weekday validTime.1
    have validNear : (⟨again.year, again.month, again.day, time.hour, time.minute⟩ :
        CivilTime).Valid := ⟨validAgain, validTime.2⟩
    refine ⟨_, validNear, matches_iff.mpr ⟨sameWeekday _ month ?_, hour, minute⟩, after,
      within⟩
    rw [CivilTime.weekday_eq validNear, CivilTime.weekday_eq validTime]
    change ((again.number + 4) % 7).toNat = _
    omega

/-! ### The search -/

/-- The days that the search looks at, one after another. -/
theorem number_searched (start : Int) (offset : Nat) :
    (CivilTime.fromEpochMinute (start + offset * 1440)).date.number = start / 1440 + offset := by
  rw [CivilTime.date_fromEpochMinute, (dateOfDays_spec _).2]
  omega

/-- Some days after the start, a valid time is on the day searched there. -/
theorem date_eq_searched {start : Int} {time : CivilTime} (valid : time.Valid) {offset : Nat}
    (number : time.date.number = start / 1440 + offset) :
    time.date = (CivilTime.fromEpochMinute (start + offset * 1440)).date := by
  refine Date.eq_of_number_eq valid.1 ?_ (number.trans (number_searched start offset).symm)
  exact (CivilTime.fromEpochMinute_spec _).1.1

/-- Where the search finds nothing, nothing matches from the start on. -/
theorem lt_of_search_eq_none {days : Nat} {start : Int} (window : 2928 ≤ days)
    (none : schedule.search days start = none) {time : CivilTime} (valid : time.Valid) (isMatch : schedule.Matches time) :
    time.epochMinute < start := by
  have notNear (near : CivilTime) (validNear : near.Valid) (matchesNear : schedule.Matches near)
      (within : near.date.number < start / 1440 + 2928) : near.epochMinute < start := by
    by_contra reached
    have minutes := validNear.epochMinute_eq
    have ofDay := validNear.2
    obtain ⟨offset, isOffset⟩ : ∃ offset : Nat, near.date.number = start / 1440 + offset :=
      ⟨(near.date.number - start / 1440).toNat, by omega⟩
    have inWindow : offset ∈ List.range days := List.mem_range.mpr (by omega)
    have searched := List.findSome?_eq_none_iff.mp none offset inWindow
    exact reached (lt_of_runOn_eq_none searched (date_eq_searched validNear isOffset) matchesNear)
  obtain ⟨validFirst, first⟩ := CivilTime.fromEpochMinute_spec start
  have firstDay : (CivilTime.fromEpochMinute start).date.number = start / 1440 := by
    simpa using number_searched start 0
  obtain ⟨near, validNear, matchesNear, after, within⟩ := exists_near validFirst valid isMatch
  rw [firstDay] at after within
  have early := notNear near validNear matchesNear within
  rw [validNear.epochMinute_eq] at early
  exact absurd early (by omega)

/-- What the search finds is the first time from the start on that matches. -/
theorem of_search {days : Nat} {start : Int} {found : CivilTime} (inRange : schedule.InRange)
    (searched : schedule.search days start = some found) :
    found.Valid ∧ start ≤ found.epochMinute ∧ schedule.Matches found ∧
      ∀ time : CivilTime, time.Valid → schedule.Matches time → start ≤ time.epochMinute →
        found.epochMinute ≤ time.epochMinute := by
  rw [search] at searched
  have sorted : (List.range days).Pairwise (· ≤ ·) :=
    List.pairwise_lt_range.imp fun less => less.le
  obtain ⟨offset, inWindow, isFound, noEarlier⟩ := of_findSome?_sorted sorted searched
  obtain ⟨onDay, reached, isMatch, first⟩ := of_runOn isFound
  obtain ⟨-, isHour, isMinute⟩ := matches_iff.mp isMatch
  have valid : found.Valid := by
    refine ⟨?_, inRange.hours _ isHour, inRange.minutes _ isMinute⟩
    rw [onDay]
    exact (CivilTime.fromEpochMinute_spec _).1.1
  have number : found.date.number = start / 1440 + offset := by
    rw [onDay, number_searched]
  refine ⟨valid, reached, isMatch, fun time validTime timeMatches timeReached => ?_⟩
  have minutes := validTime.epochMinute_eq
  have ofDay := validTime.2
  have foundMinutes := valid.epochMinute_eq
  have foundOfDay := valid.2
  obtain ⟨later, isLater⟩ : ∃ later : Nat, time.date.number = start / 1440 + later :=
    ⟨(time.date.number - start / 1440).toNat, by omega⟩
  rcases lt_trichotomy later offset with earlierDay | sameDay | laterDay
  · have none := noEarlier later
      (List.mem_range.mpr (earlierDay.trans (List.mem_range.mp inWindow))) earlierDay
    exact absurd timeReached
      (lt_of_runOn_eq_none none (date_eq_searched validTime isLater) timeMatches).not_ge
  · rw [sameDay] at isLater
    have inOrder := first time (date_eq_searched validTime isLater) timeMatches timeReached
    omega
  · omega

/-- The first minute after a time that a schedule matches, and none where no later minute is
matched. -/
structure IsNextRun (schedule : CronSchedule) (after : CivilTime) (result : Option CivilTime) :
    Prop where
  isMatch : ∀ found, result = some found →
    found.Valid ∧ after.Before found ∧ schedule.Matches found
  first : ∀ found, result = some found → ∀ time : CivilTime, time.Valid → after.Before time →
    schedule.Matches time → ¬ time.Before found
  never : result = none → ∀ time : CivilTime, time.Valid → after.Before time →
    ¬ schedule.Matches time

/-- `next_run` finds the next run of every schedule that is accepted. -/
theorem next_run_exact {expression : ServerBox.Std.Text} {schedule : CronSchedule}
    (accepted : tryParse expression = some schedule) {after : CivilTime} (valid : after.Valid) :
    schedule.IsNextRun after (schedule.nextRun after) := by
  have inRange := inRange_of_tryParse accepted
  have reaches {time : CivilTime} (validTime : time.Valid) :
      after.epochMinute + 1 ≤ time.epochMinute ↔ after.Before time := by
    rw [← CivilTime.epochMinute_lt_iff valid validTime]
    omega
  constructor
  case isMatch =>
      intro found isFound
      rw [nextRun_eq] at isFound
      split at isFound
      next => cases isFound
      next =>
          obtain ⟨validFound, reached, isMatch, -⟩ := of_search inRange isFound
          exact ⟨validFound, (reaches validFound).mp reached, isMatch⟩
  case first =>
      intro found isFound time validTime later timeMatches earlier
      rw [nextRun_eq] at isFound
      split at isFound
      next => cases isFound
      next =>
          obtain ⟨validFound, -, -, first⟩ := of_search inRange isFound
          have inOrder := first time validTime timeMatches ((reaches validTime).mpr later)
          exact absurd ((CivilTime.epochMinute_lt_iff validTime validFound).mpr earlier)
            inOrder.not_gt
  case never =>
      intro isNone time validTime later isMatch
      rw [nextRun_eq] at isNone
      split at isNone
      next never =>
          obtain ⟨-, hour, minute⟩ := matches_iff.mp isMatch
          rw [Bool.or_eq_true, Bool.or_eq_true, List.isEmpty_iff, List.isEmpty_iff] at never
          rcases never with (reboot | noMinutes) | noHours
          · rw [inRange.reboot reboot] at minute
            cases minute
          · rw [noMinutes] at minute
            cases minute
          · rw [noHours] at hour
            cases hour
      next =>
          exact absurd ((reaches validTime).mpr later)
            (lt_of_search_eq_none le_rfl isNone validTime isMatch).not_ge

/-- What `0 0 29 2 *` is read as. -/
def leapDays : CronSchedule := ⟨[0], [0], [29], [2], [0, 1, 2, 3, 4, 5, 6], true, false, false⟩

/-- From March 2096 on, with no 29 February in 2100. -/
theorem next_run_exact_leapDays :
    leapDays.IsNextRun ⟨2096, 3, 1, 0, 0⟩ (leapDays.nextRun ⟨2096, 3, 1, 0, 0⟩) := by
  have accepted : tryParse "0 0 29 2 *".toList = some leapDays := by decide +kernel
  have valid : (⟨2096, 3, 1, 0, 0⟩ : CivilTime).Valid := by decide
  exact next_run_exact accepted valid

example : leapDays.nextRun ⟨2104, 1, 31, 12, 0⟩ = some ⟨2104, 2, 29, 0, 0⟩ := by decide +kernel

end CronSchedule

end ServerBox.Cron
