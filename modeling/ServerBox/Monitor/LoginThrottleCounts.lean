import ServerBox.Monitor.LoginThrottle

/-!
# What the throttle counts

`in_flight` of a key is the number of attempts admitted and not yet resolved that hold it,
in every run in which no attempt succeeds while another one holds one of its keys:
`record_success` removes whole entries, the other's reservation with them.
-/

namespace ServerBox.Monitor.LoginThrottle

open ServerBox.Std

/-! ### Delays -/

theorem delay_mono (free : Nat) {fewer more : Nat} (le : fewer ≤ more) :
    Entry.delay free fewer ≤ Entry.delay free more := by
  unfold Entry.delay
  split
  · exact Nat.zero_le _
  next exceeds =>
    have moreExceeds : ¬ more ≤ free := by omega
    rw [if_neg moreExceeds]
    have exponent : min (fewer - free - 1) 20 ≤ min (more - free - 1) 20 := by omega
    have power := Nat.pow_le_pow_right (show 0 < 2 by decide) exponent
    have product := Nat.mul_le_mul_left baseDelay power
    omega

/-- Saturation changes no delay: it is at its greatest long before. -/
theorem delay_saturated (key : Key) (effective : Nat) :
    Entry.delay key.freeAttempts (min effective u32Max) = Entry.delay key.freeAttempts effective := by
  have few : key.freeAttempts ≤ 20 := by
    cases key <;> exact Nat.le_of_ble_eq_true rfl
  unfold Entry.delay u32Max
  by_cases small : effective ≤ 2 ^ 32 - 1
  · rw [min_eq_left small]
  · have saturated : min effective (2 ^ 32 - 1) = 2 ^ 32 - 1 := by omega
    rw [saturated, if_neg (by omega), if_neg (by omega)]
    have exponent : min (2 ^ 32 - 1 - key.freeAttempts - 1) 20 = 20 := by omega
    have sameExponent : min (effective - key.freeAttempts - 1) 20 = 20 := by omega
    rw [exponent, sameExponent]

/-! ### What each operation does to the count of a key -/

/-- The count of a row. -/
def counted (entry : Option Entry) : Nat := (entry.map (·.inFlight)).getD 0

theorem inFlight_eq (throttle : LoginThrottle) (key : Key) :
    throttle.inFlight key = counted (throttle.entries.lookup key) := by
  unfold inFlight counted
  cases throttle.entries.lookup key <;> rfl

@[simp] theorem counted_kept (now : Nat) (entry : Option Entry) :
    counted (entry.filter (Entry.kept now)) = counted entry := by
  cases entry with
  | none => rfl
  | some entry =>
      cases keeps : entry.kept now with
      | true => rw [Option.filter_some_pos keeps]
      | false =>
          rw [Option.filter_some_neg (by simp [keeps])]
          have idle : entry.inFlight = 0 := by
            simp only [Entry.kept, Bool.or_eq_false_iff, decide_eq_false_iff_not] at keeps
            omega
          simp [counted, idle]

@[simp] theorem counted_reserve (now : Nat) (entry : Option Entry) :
    counted (Entry.reserve now entry) = saturatingAdd (counted entry) 1 := by
  cases entry <;> rfl

@[simp] theorem counted_fail (now : Nat) (entry : Option Entry) :
    counted (Entry.fail now entry) = counted entry - 1 := by
  cases entry <;> rfl

@[simp] theorem counted_release (entry : Option Entry) :
    counted (Entry.release entry) = counted entry - 1 := by
  cases entry with
  | none => rfl
  | some entry =>
      simp only [Entry.release]
      split
      next gone => simp [counted, gone.2]
      next => rfl

@[simp] theorem counted_none : counted none = 0 := rfl

theorem inFlight_prune (throttle : LoginThrottle) (now : Nat) (key : Key) :
    (throttle.prune now).inFlight key = throttle.inFlight key := by
  rw [inFlight_eq, inFlight_eq]
  rcases throttle.lookup_prune now key with same | swept
  · rw [same]
  · rw [swept, counted_kept]

/-- The count of a key once the rows of an attempt's keys were changed. -/
theorem inFlight_alter (throttle : LoginThrottle) (attempt : LoginAttempt)
    (change : Option Entry → Option Entry) (key : Key) :
    (throttle.alter attempt.keys change).inFlight key =
      if key ∈ attempt.keys then counted (change (throttle.entries.lookup key))
      else throttle.inFlight key := by
  rw [inFlight_eq, lookup_alter, inFlight_eq]
  split <;> rfl

/-- What `begin` does when it admits an attempt. -/
theorem begin_ok {throttle after : LoginThrottle} {now : Nat} {ip : Option IpAddr} {who : Who}
    {attempt : LoginAttempt} (admitted : throttle.begin now ip who = (after, .ok attempt)) :
    attempt.keys = keys ip who ∧ (throttle.prune now).waits now (keys ip who) = none ∧
      after = (throttle.prune now).alter attempt.keys (Entry.reserve now) := by
  unfold begin at admitted
  simp only at admitted
  split at admitted
  · cases (Prod.mk.inj admitted).2
  next noWait =>
    obtain ⟨rfl, isAttempt⟩ := Prod.mk.inj admitted
    obtain rfl := Except.ok.inj isAttempt
    exact ⟨rfl, noWait, rfl⟩

/-- What `begin` does when it refuses one. -/
theorem begin_error {throttle after : LoginThrottle} {now : Nat} {ip : Option IpAddr} {who : Who}
    {wait : Nat} (refused : throttle.begin now ip who = (after, .error wait)) :
    after = throttle.prune now ∧ (throttle.prune now).waits now (keys ip who) = some wait := by
  unfold begin at refused
  simp only at refused
  split at refused
  next found =>
    obtain ⟨rfl, isWait⟩ := Prod.mk.inj refused
    obtain rfl := Except.error.inj isWait
    exact ⟨rfl, found⟩
  · cases (Prod.mk.inj refused).2

/-- Nothing to wait for is nothing to wait for on any key. -/
theorem waits_eq_none {throttle : LoginThrottle} {now : Nat} {attemptKeys : List Key} :
    throttle.waits now attemptKeys = none ↔ ∀ key ∈ attemptKeys, ∀ entry,
      throttle.entries.lookup key = some entry →
        entry.penalty key.freeAttempts ≤ now - entry.lastSeen := by
  have free : ∀ (entry : Entry) (count : Nat),
      entry.wait count now = none ↔ entry.penalty count ≤ now - entry.lastSeen := by
    intro entry count
    simp only [Entry.wait]
    split
    · simp only [true_iff]; omega
    · simp only [reduceCtorEq, false_iff]; omega
  rw [waits, List.max?_eq_none_iff, List.filterMap_eq_nil_iff]
  refine forall_congr' fun key => imp_congr_right fun _ => ?_
  rw [Option.bind_eq_none_iff]
  exact forall_congr' fun entry => imp_congr_right fun _ => free entry _

/-! ### Steps -/

/-- Whether a step keeps the count: what is admitted does not saturate the counter of a key, and
nothing succeeds while another attempt holds one of its keys. -/
def keepsCount (state : State) : Event → Bool
  | .begin _ ip who => (keys ip who).all fun key => state.holding key < u32Max
  | .success place =>
      match state.live[place]? with
      | none => true
      | some attempt => attempt.keys.all fun key => state.holding key ≤ 1
  | _ => true

/-- Every key counts the attempts that hold it. -/
def Counted (state : State) : Prop := ∀ key, state.throttle.inFlight key = state.holding key

/-- The attempts that hold a key, one of them and the rest. -/
theorem countP_eraseIdx {live : List LoginAttempt} {place : Nat} {attempt : LoginAttempt}
    (found : live[place]? = some attempt) (key : Key) :
    live.countP (fun attempt => key ∈ attempt.keys) =
      (live.eraseIdx place).countP (fun attempt => key ∈ attempt.keys) +
        if key ∈ attempt.keys then 1 else 0 := by
  obtain ⟨within, rfl⟩ := List.getElem?_eq_some_iff.mp found
  have split := (List.getElem_cons_eraseIdx_perm within).countP_eq fun attempt : LoginAttempt =>
    decide (key ∈ attempt.keys)
  rw [← split, List.countP_cons]
  simp only [decide_eq_true_eq]

/-- All a step can be: a refusal, an admission, or a resolution that changes the rows of its
attempt's keys. -/
inductive Took (state : State) : Event → State → Prop where
  | refused {now ip who wait}
      (waits : (state.throttle.prune now).waits now (keys ip who) = some wait) :
      Took state (.begin now ip who)
        { state with throttle := state.throttle.prune now, clock := max state.clock now }
  | admitted {now ip who attempt} (isKeys : attempt.keys = keys ip who)
      (waits : (state.throttle.prune now).waits now (keys ip who) = none) :
      Took state (.begin now ip who)
        ⟨(state.throttle.prune now).alter attempt.keys (Entry.reserve now), state.live ++ [attempt],
          state.log ++ [.admitted now attempt.keys], max state.clock now⟩
  | failed {now place attempt} (found : state.live[place]? = some attempt) :
      Took state (.failure now place)
        ⟨state.throttle.alter attempt.keys (Entry.fail now), state.live.eraseIdx place,
          state.log ++ [.failed now attempt.keys], max state.clock now⟩
  | succeeded {place attempt} (found : state.live[place]? = some attempt) :
      Took state (.success place)
        ⟨state.throttle.alter attempt.keys fun _ => none, state.live.eraseIdx place,
          state.log ++ [.succeeded attempt.keys], state.clock⟩
  | cancelled {place attempt} (found : state.live[place]? = some attempt) :
      Took state (.cancel place)
        ⟨state.throttle.alter attempt.keys Entry.release, state.live.eraseIdx place,
          state.log ++ [.cancelled attempt.keys], state.clock⟩

theorem next_took {state after : State} {event : Event} (step : next state event = some after) :
    Took state event after := by
  cases event with
  | begin now ip who =>
      simp only [next] at step
      split at step
      next throttle wait refused =>
        obtain rfl := Option.some.inj step
        obtain ⟨rfl, waits⟩ := begin_error refused
        exact .refused waits
      next throttle attempt admitted =>
        obtain rfl := Option.some.inj step
        obtain ⟨isKeys, waits, rfl⟩ := begin_ok admitted
        exact .admitted isKeys waits
  | failure now place =>
      obtain ⟨attempt, found, rfl⟩ := Option.map_eq_some_iff.mp step
      exact .failed found
  | success place =>
      obtain ⟨attempt, found, rfl⟩ := Option.map_eq_some_iff.mp step
      exact .succeeded found
  | cancel place =>
      obtain ⟨attempt, found, rfl⟩ := Option.map_eq_some_iff.mp step
      exact .cancelled found

/-- The rest of the attempts holds a key one time less when the one resolved held it. -/
theorem holding_resolved {state : State} {place : Nat} {attempt : LoginAttempt}
    (found : state.live[place]? = some attempt) (key : Key) :
    (state.live.eraseIdx place).countP (fun attempt => key ∈ attempt.keys) =
      state.holding key - if key ∈ attempt.keys then 1 else 0 := by
  have total := countP_eraseIdx found key
  unfold State.holding
  omega

/-- A step that keeps the count keeps it of every key. -/
theorem counted_step {state after : State} {event : Event} (counted : Counted state)
    (meets : keepsCount state event = true) (step : next state event = some after) :
    Counted after := by
  intro key
  cases next_took step with
  | refused waits => exact (inFlight_prune _ _ _).trans (counted key)
  | @admitted now ip who attempt isKeys waits =>
      have fits : key ∈ attempt.keys → state.holding key < u32Max := by
        rw [isKeys]
        exact fun member => of_decide_eq_true (List.all_eq_true.mp meets key member)
      rw [inFlight_alter, counted_reserve, ← inFlight_eq, inFlight_prune, counted key]
      simp only [State.holding, List.countP_append, List.countP_singleton, decide_eq_true_eq]
      split
      next member =>
        have below := fits member
        unfold saturatingAdd State.holding at *
        omega
      next => rw [Nat.add_zero]
  | @failed now place attempt found =>
      refine Eq.trans ?_ (holding_resolved found key).symm
      rw [inFlight_alter, counted_fail, ← inFlight_eq, counted key]
      split <;> rfl
  | @succeeded place attempt found =>
      refine Eq.trans ?_ (holding_resolved found key).symm
      rw [inFlight_alter, counted_none, counted key]
      split
      next member =>
        simp only [keepsCount, found] at meets
        have alone := of_decide_eq_true (List.all_eq_true.mp meets key member)
        omega
      next => rfl
  | @cancelled place attempt found =>
      refine Eq.trans ?_ (holding_resolved found key).symm
      rw [inFlight_alter, counted_release, ← inFlight_eq, counted key]
      split <;> rfl

theorem counted_reached {state : State}
    (reached : system.Reached (fun state event => keepsCount state event = true) state) :
    Counted state := by
  refine System.Reached.holds ?_ ?_ reached
  · rintro _ rfl key
    rfl
  · intro state event after counted meets step
    exact counted_step counted meets step

/-- An attempt admitted beside more than the free ones has waited for them. -/
theorem waited_of_admitted {state : State} (counted : Counted state) {now : Nat}
    {ip : Option IpAddr} {who : Who} {after : LoginThrottle} {attempt : LoginAttempt}
    (admitted : state.throttle.begin now ip who = (after, .ok attempt)) {key : Key}
    (member : key ∈ keys ip who) (more : key.freeAttempts < state.holding key) :
    ∃ entry, state.throttle.entries.lookup key = some entry ∧
      Entry.delay key.freeAttempts (state.holding key) ≤ now - entry.lastSeen := by
  obtain ⟨_, waits, _⟩ := begin_ok admitted
  have count : state.throttle.inFlight key = state.holding key := counted key
  rw [inFlight_eq] at count
  cases found : state.throttle.entries.lookup key with
  | none =>
      rw [found, counted_none] at count
      omega
  | some entry =>
      rw [found] at count
      have inFlight : entry.inFlight = state.holding key := count
      refine ⟨entry, rfl, ?_⟩
      have stays : entry.kept now = true := by
        have positive : 0 < entry.inFlight := by omega
        simp [Entry.kept, positive]
      have swept : (state.throttle.prune now).entries.lookup key = some entry := by
        rcases state.throttle.lookup_prune now key with same | swept
        · rw [same, found]
        · rw [swept, found, Option.filter_some_pos stays]
      calc Entry.delay key.freeAttempts (state.holding key)
          = Entry.delay key.freeAttempts (min (state.holding key) u32Max) := by rw [delay_saturated]
        _ ≤ entry.penalty key.freeAttempts := by
            refine delay_mono _ ?_
            unfold saturatingAdd
            omega
        _ ≤ now - entry.lastSeen := waits_eq_none.mp waits key member entry swept

/-- In every run in which no attempt succeeds while another one holds one of its keys, each key
counts exactly the attempts that hold it; so an attempt admitted beside more of them than are free
has waited out the delay for that many, and a resolution takes one from each key of its own
attempt and none from another key. -/
theorem counts_attempts (state : State)
    (reached : system.Reached (fun state event => keepsCount state event = true) state) :
    (∀ key, state.throttle.inFlight key = state.holding key) ∧
      (∀ now ip who after attempt, state.throttle.begin now ip who = (after, .ok attempt) →
        ∀ key ∈ keys ip who, key.freeAttempts < state.holding key →
          ∃ entry, state.throttle.entries.lookup key = some entry ∧
            Entry.delay key.freeAttempts (state.holding key) ≤ now - entry.lastSeen) ∧
      ∀ event after attempt, keepsCount state event = true → state.resolved event = some attempt →
        next state event = some after → ∀ key, after.throttle.inFlight key =
          state.throttle.inFlight key - if key ∈ attempt.keys then 1 else 0 := by
  have counted := counted_reached reached
  refine ⟨counted, fun now ip who after attempt admitted key member more =>
    waited_of_admitted counted admitted member more, ?_⟩
  intro event after attempt meets resolved step key
  rw [counted_step counted meets step key, counted key]
  cases next_took step with
  | refused => cases resolved
  | admitted => cases resolved
  | failed found =>
      obtain rfl := Option.some.inj (found.symm.trans resolved)
      exact holding_resolved found key
  | succeeded found =>
      obtain rfl := Option.some.inj (found.symm.trans resolved)
      exact holding_resolved found key
  | cancelled found =>
      obtain rfl := Option.some.inj (found.symm.trans resolved)
      exact holding_resolved found key

/-- The condition is exact: a step that breaks it and admits or resolves an attempt leaves a key
that counts wrong. -/
theorem miscounts_once_broken {state after : State} {event : Event}
    (reached : system.Reached (fun state event => keepsCount state event = true) state)
    (breaks : keepsCount state event = false) (step : next state event = some after)
    (changes : after.live ≠ state.live) :
    ∃ key, after.throttle.inFlight key ≠ after.holding key := by
  have counted := counted_reached reached
  cases next_took step with
  | refused => exact absurd rfl changes
  | @admitted now ip who attempt isKeys waits =>
      simp only [keepsCount, List.all_eq_false, decide_eq_true_eq, not_lt] at breaks
      obtain ⟨key, member, full⟩ := breaks
      rw [← isKeys] at member
      refine ⟨key, ?_⟩
      rw [inFlight_alter, if_pos member, counted_reserve, State.holding, List.countP_append,
        List.countP_singleton, if_pos (decide_eq_true member)]
      unfold saturatingAdd State.holding at *
      omega
  | @succeeded place attempt found =>
      simp only [keepsCount, found, List.all_eq_false, decide_eq_true_eq, not_le] at breaks
      obtain ⟨key, member, others⟩ := breaks
      refine ⟨key, ?_⟩
      rw [inFlight_alter, if_pos member, counted_none]
      refine ne_of_eq_of_ne rfl (Ne.symm ?_)
      rw [State.holding, holding_resolved found key, if_pos member]
      omega
  | failed => cases breaks
  | cancelled => cases breaks

/-! ### Two runs -/

/-- Two passwords entered on one device, the first of them wrong. -/
def firstFails : List Event :=
  [.begin 0 none (.device "d1"), .begin 0 none (.device "d1"), .failure second 0]

/-- Two passwords entered on one device, the first right; a third is entered and the second
turns out wrong. -/
def firstSucceeds : List Event :=
  [.begin 0 none (.device "d1"), .begin 0 none (.device "d1"), .success 0,
    .begin 0 none (.device "d1"), .failure second 0]

/-- The failure of the first leaves the reservation of the second. -/
theorem counts_attempts_firstFails :
    ∃ state, System.follow keepsCount next {} firstFails = some state ∧
      ∀ key, state.throttle.inFlight key = state.holding key := by
  refine ⟨_, rfl, ?_⟩
  have reached := System.reached_follow keepsCount next firstFails
    (.initial rfl : system.Reached _ _) rfl
  exact (counts_attempts _ reached).1

/-- The failure of the second releases the reservation of the third. -/
theorem not_counts_attempts :
    ¬ ∀ state, system.Reachable state →
      ∀ key, state.throttle.inFlight key = state.holding key := by
  intro counts
  have reached := System.reached_follow (fun _ _ => true) next firstSucceeds
    (.initial rfl : system.Reached _ _) rfl
  exact absurd (counts _ (reached.mono fun _ _ _ => trivial) (.device "d1")) (by decide)

end ServerBox.Monitor.LoginThrottle
