import ServerBox.Monitor.LoginThrottleCounts

/-!
# Who a lockout reaches

What a key's row says is what the records about that key say (`replay`), except that the
sweep may have forgotten a row that nothing reads any more. So an attempt waits because of
what was done with its own keys alone, and a row of failures makes it wait.
-/

namespace ServerBox.Monitor.LoginThrottle

open ServerBox.Std

/-! ### The records about a key -/

/-- What a record makes of the row of a key. -/
def Record.apply (key : Key) (entry : Option Entry) : Record → Option Entry
  | admitted now keys => if key ∈ keys then Entry.reserve now entry else entry
  | failed now keys => if key ∈ keys then Entry.fail now entry else entry
  | succeeded keys => if key ∈ keys then none else entry
  | cancelled keys => if key ∈ keys then Entry.release entry else entry

/-- The row of a key that the records give, were there no sweep. -/
def replay (key : Key) (log : List Record) : Option Entry := log.foldl (Record.apply key) none

/-- Whether a record is about one of the keys. -/
def Record.about (keys : List Key) (record : Record) : Bool :=
  record.keys.any fun key => key ∈ keys

/-- What was done with one of the keys. -/
def State.about (state : State) (keys : List Key) : List Record :=
  state.log.filter (Record.about keys)

@[simp] theorem replay_append (key : Key) (log : List Record) (record : Record) :
    replay key (log ++ [record]) = record.apply key (replay key log) := by
  simp [replay]

theorem apply_of_not_mem {key : Key} {record : Record} (notMember : key ∉ record.keys)
    (entry : Option Entry) : record.apply key entry = entry := by
  cases record <;> exact if_neg notMember

/-- The row of a key depends on the records about it alone. -/
theorem replay_filter {key : Key} {keys : List Key} (member : key ∈ keys) (log : List Record) :
    replay key (log.filter (Record.about keys)) = replay key log := by
  induction log using List.reverseRecOn with
  | nil => rfl
  | append_singleton log record inductionHypothesis =>
      rw [List.filter_append, replay_append]
      cases about : record.about keys with
      | true =>
          rw [List.filter_singleton, about, cond_true, replay_append, inductionHypothesis]
      | false =>
          have notMember : key ∉ record.keys := by
            intro isKey
            have found : record.about keys = true :=
              List.any_eq_true.mpr ⟨key, isKey, decide_eq_true member⟩
            rw [about] at found
            cases found
          rw [List.filter_singleton, about, apply_of_not_mem notMember]
          simpa using inductionHypothesis

/-! ### The sweep forgets what nothing reads -/

/-- Whether an event reads a time that is not before one already read. -/
def timely (state : State) (event : Event) : Bool :=
  match event.time with
  | none => true
  | some now => state.clock ≤ now

/-- A row that is idle for as long as a row is kept. -/
def Stale (clock : Nat) (entry : Option Entry) : Prop :=
  ∃ row, entry = some row ∧ row.inFlight = 0 ∧ row.lastSeen + entryTtl ≤ clock

theorem Stale.later {before after : Nat} {entry : Option Entry} (stale : Stale before entry)
    (later : before ≤ after) : Stale after entry := by
  obtain ⟨row, isRow, idle, long⟩ := stale
  exact ⟨row, isRow, idle, le_trans long later⟩

/-- The row of a key is what its records give, or was swept. -/
def Replayed (state : State) (key : Key) : Prop :=
  state.throttle.entries.lookup key = replay key state.log ∨
    (state.throttle.entries.lookup key = none ∧ Stale state.clock (replay key state.log))

/-- After a sweep at `now` the row of a key is still what its records give, or was swept. -/
theorem replayed_prune {state : State} {key : Key} (replayed : Replayed state key) {now : Nat}
    (later : state.clock ≤ now) :
    (state.throttle.prune now).entries.lookup key = replay key state.log ∨
      ((state.throttle.prune now).entries.lookup key = none ∧ Stale now (replay key state.log)) := by
  rcases state.throttle.lookup_prune now key with same | swept
  · rw [same]
    exact replayed.imp_right fun gone => ⟨gone.1, gone.2.later later⟩
  · rw [swept]
    rcases replayed with isReplay | ⟨gone, stale⟩
    · rw [isReplay]
      cases row : replay key state.log with
      | none => exact .inl rfl
      | some entry =>
          cases keeps : entry.kept now with
          | true => exact .inl (Option.filter_some_pos keeps)
          | false =>
              have ttl : 0 < entryTtl := by decide
              simp only [Entry.kept, Bool.or_eq_false_iff, decide_eq_false_iff_not] at keeps
              refine .inr ⟨Option.filter_some_neg ?_, entry, rfl, by omega, by omega⟩
              simp [Entry.kept, keeps]
    · rw [gone]
      exact .inr ⟨rfl, stale.later later⟩

/-- A reservation makes of a stale row what it makes of none. -/
theorem reserve_stale {now : Nat} {entry : Option Entry} (stale : Stale now entry) :
    Entry.reserve now entry = Entry.reserve now none := by
  obtain ⟨row, rfl, idle, long⟩ := stale
  have old : entryTtl ≤ now - row.lastSeen := by omega
  simp [Entry.reserve, Entry.orInsert, idle, old]

/-- A stale row makes nobody wait. -/
theorem wait_stale {now : Nat} {entry : Option Entry} (stale : Stale now entry) (free : Nat) :
    entry.bind (Entry.wait free now) = none := by
  obtain ⟨row, rfl, idle, long⟩ := stale
  have short : row.penalty free ≤ maxDelay := by
    unfold Entry.penalty Entry.delay
    split
    · exact Nat.zero_le _
    · exact Nat.min_le_right _ _
  have done : row.penalty free - (now - row.lastSeen) = 0 := by
    have ttl : maxDelay ≤ entryTtl := by decide
    omega
  simp [Entry.wait, done]

/-- A key that an unresolved attempt holds was not swept. -/
theorem not_swept {state : State} (counted : Counted state) {place : Nat} {attempt : LoginAttempt}
    (found : state.live[place]? = some attempt) {key : Key} (member : key ∈ attempt.keys)
    (replayed : Replayed state key) :
    state.throttle.entries.lookup key = replay key state.log := by
  rcases replayed with same | ⟨gone, _⟩
  · exact same
  · have count := counted key
    rw [inFlight_eq, gone, counted_none] at count
    have total := countP_eraseIdx found key
    rw [if_pos member] at total
    unfold State.holding at count
    omega

/-- What a resolution does to the row of a key, its record does. -/
theorem replayed_resolved {state after : State} (counted : Counted state)
    (replayed : ∀ key, Replayed state key) {place : Nat} {attempt : LoginAttempt}
    (found : state.live[place]? = some attempt) (later : state.clock ≤ after.clock)
    (change : Option Entry → Option Entry) (record : Record)
    (throttle : after.throttle = state.throttle.alter attempt.keys change)
    (log : after.log = state.log ++ [record])
    (same : ∀ key entry, record.apply key entry = if key ∈ attempt.keys then change entry else entry)
    (key : Key) : Replayed after key := by
  unfold Replayed
  rw [throttle, log, lookup_alter, replay_append, same]
  by_cases member : key ∈ attempt.keys
  · simp only [if_pos member]
    rw [not_swept counted found member (replayed key)]
    exact .inl rfl
  · simp only [if_neg member]
    exact (replayed key).imp_right fun gone => ⟨gone.1, gone.2.later later⟩

/-- What a step under both conditions does to the row of a key, its records do. -/
theorem replayed_step {state after : State} {event : Event} (counted : Counted state)
    (replayed : ∀ key, Replayed state key) (timed : timely state event = true)
    (step : next state event = some after) : ∀ key, Replayed after key := by
  intro key
  cases next_took step with
  | @refused now ip who wait _ =>
      have later : state.clock ≤ now := of_decide_eq_true timed
      rcases replayed_prune (replayed key) later with same | ⟨gone, stale⟩
      · exact .inl same
      · exact .inr ⟨gone, stale.later (Nat.le_max_right _ _)⟩
  | @admitted now ip who attempt isKeys _ =>
      have later : state.clock ≤ now := of_decide_eq_true timed
      unfold Replayed
      rw [lookup_alter, replay_append, Record.apply]
      by_cases member : key ∈ attempt.keys
      · simp only [if_pos member]
        rcases replayed_prune (replayed key) later with same | ⟨gone, stale⟩
        · rw [same]
          exact .inl rfl
        · rw [gone, reserve_stale stale]
          exact .inl rfl
      · simp only [if_neg member]
        rcases replayed_prune (replayed key) later with same | ⟨gone, stale⟩
        · exact .inl same
        · exact .inr ⟨gone, stale.later (Nat.le_max_right _ _)⟩
  | @failed now place attempt found =>
      exact replayed_resolved counted replayed found (Nat.le_max_left _ _) (Entry.fail now)
        (.failed now attempt.keys) rfl rfl (fun _ _ => rfl) key
  | @succeeded place attempt found =>
      refine replayed_resolved counted replayed found ?_ (fun _ => none)
        (.succeeded attempt.keys) rfl rfl (fun _ _ => rfl) key
      exact Nat.le_refl state.clock
  | @cancelled place attempt found =>
      refine replayed_resolved counted replayed found ?_ Entry.release
        (.cancelled attempt.keys) rfl rfl (fun _ _ => rfl) key
      exact Nat.le_refl state.clock

/-- A run of a clock that does not go back, in which every key counts right. -/
def keepsHistory (state : State) (event : Event) : Bool :=
  keepsCount state event && timely state event

theorem counted_history {state : State}
    (reached : system.Reached (fun state event => keepsHistory state event = true) state) :
    Counted state :=
  counted_reached (reached.mono fun _ _ meets => (Bool.and_eq_true_iff.mp meets).1)

theorem replayed_reached {state : State}
    (reached : system.Reached (fun state event => keepsHistory state event = true) state) :
    ∀ key, Replayed state key := by
  induction reached with
  | initial starts =>
      subst starts
      exact fun _ => .inl rfl
  | step prior meets step inductionHypothesis =>
      exact replayed_step (counted_history prior) inductionHypothesis
        (Bool.and_eq_true_iff.mp meets).2 step

/-! ### Who waits, and how long -/

/-- How long `begin` makes an attempt wait, if it does. -/
def answer (throttle : LoginThrottle) (now : Nat) (ip : Option IpAddr) (who : Who) : Option Nat :=
  match (throttle.begin now ip who).2 with
  | .error wait => some wait
  | .ok _ => none

theorem answer_eq (throttle : LoginThrottle) (now : Nat) (ip : Option IpAddr) (who : Who) :
    throttle.answer now ip who = (throttle.prune now).waits now (keys ip who) := by
  unfold answer begin
  cases found : (throttle.prune now).waits now (keys ip who) with
  | none => simp only [found]
  | some _ => simp only [found]

/-- An attempt that need not wait is admitted. -/
theorem admitted_of_answer {throttle : LoginThrottle} {now : Nat} {ip : Option IpAddr} {who : Who}
    (free : throttle.answer now ip who = none) :
    ∃ after attempt, throttle.begin now ip who = (after, .ok attempt) := by
  unfold answer at free
  split at free
  · cases free
  next attempt admitted => exact ⟨_, attempt, Prod.ext rfl admitted⟩

/-- The wait is the longest that the records about the attempt's keys give. -/
theorem answer_of_replay {state : State}
    (reached : system.Reached (fun state event => keepsHistory state event = true) state)
    {now : Nat} (later : state.clock ≤ now) (ip : Option IpAddr) (who : Who) :
    state.throttle.answer now ip who = ((keys ip who).filterMap fun key =>
      (replay key (state.about (keys ip who))).bind (Entry.wait key.freeAttempts now)).max? := by
  rw [answer_eq, waits]
  congr 1
  refine List.filterMap_congr fun key member => ?_
  rw [State.about, replay_filter member]
  rcases replayed_prune (replayed_reached reached key) later with same | ⟨gone, stale⟩
  · rw [same]
  · rw [gone, wait_stale stale]
    rfl

/-! ### Failures in a row -/

/-- When a record admitted, or failed, an attempt that holds a key. -/
def Record.triedAt (key : Key) : Record → Option Nat
  | admitted now keys => if key ∈ keys then some now else none
  | failed now keys => if key ∈ keys then some now else none
  | _ => none

def Record.admittedAt (key : Key) : Record → Option Nat
  | admitted now keys => if key ∈ keys then some now else none
  | _ => none

def Record.failedAt (key : Key) : Record → Option Nat
  | failed now keys => if key ∈ keys then some now else none
  | _ => none

def Record.succeeds (key : Key) : Record → Bool
  | succeeded keys => key ∈ keys
  | _ => false

/-- How many attempts on a key failed. -/
def failures (key : Key) (log : List Record) : Nat :=
  log.countP fun record => (record.failedAt key).isSome

/-- When the last attempt on a key failed. -/
def lastFailure (key : Key) (log : List Record) : Option Nat :=
  (log.filterMap (Record.failedAt key)).getLast?

/-- When a key was last tried. -/
def lastTried (key : Key) (log : List Record) : Option Nat :=
  (log.filterMap (Record.triedAt key)).getLast?

/-- The attempts on a key that a log leaves unresolved. -/
def held (key : Key) (log : List Record) : Nat :=
  (log.countP fun record => (record.admittedAt key).isSome) -
    log.countP fun record => key ∈ record.keys && (record.admittedAt key).isNone

/-- The records of `during`, after those of `before`, hold one row of failures of a key: no success
is among them, and once one has failed nothing is admitted on a key that nothing holds and that
was last tried an hour or more ago. -/
inductive InRow (key : Key) (before : List Record) : List Record → Prop where
  | nil : InRow key before []
  | snoc {during record} (row : InRow key before during) (noSuccess : record.succeeds key = false)
      (busy : ∀ now, record.admittedAt key = some now → failures key during = 0 ∨
        0 < held key (before ++ during) ∨
          ∃ tried, lastTried key (before ++ during) = some tried ∧ now < tried + entryTtl) :
      InRow key before (during ++ [record])

/-- A failure goes on with a row. -/
theorem InRow.fail {key : Key} {before during : List Record} (row : InRow key before during)
    (now : Nat) (keys : List Key) : InRow key before (during ++ [.failed now keys]) :=
  .snoc row rfl fun _ isAdmitted => by cases isAdmitted

/-- A row of failures without its last record. -/
theorem InRow.init {key : Key} {before during : List Record} {record : Record}
    (row : InRow key before (during ++ [record])) :
    InRow key before during ∧ record.succeeds key = false ∧
      ∀ now, record.admittedAt key = some now → failures key during = 0 ∨
        0 < held key (before ++ during) ∨
          ∃ tried, lastTried key (before ++ during) = some tried ∧ now < tried + entryTtl := by
  generalize whole : during ++ [record] = all at row
  cases row with
  | nil => simp at whole
  | snoc row noSuccess busy =>
      obtain ⟨rfl, isRecord⟩ := List.append_inj' whole rfl
      obtain rfl : record = _ := by simpa using isRecord
      exact ⟨row, noSuccess, busy⟩

/-- Every attempt admitted is unresolved or has a record of its resolution. -/
theorem held_reached {state : State} (reached : system.Reachable state) (key : Key) :
    held key state.log = state.holding key := by
  have total : (state.log.countP fun record => (record.admittedAt key).isSome) =
      state.holding key +
        state.log.countP fun record => key ∈ record.keys && (record.admittedAt key).isNone := by
    induction reached with
    | initial starts =>
        subst starts
        rfl
    | @step state event after _ _ step inductionHypothesis =>
        have resolved : ∀ (place : Nat) (attempt : LoginAttempt) (record : Record),
            state.live[place]? = some attempt → record.keys = attempt.keys →
              record.admittedAt key = none →
              ((state.log ++ [record]).countP fun record => (record.admittedAt key).isSome) =
                (state.live.eraseIdx place).countP (fun attempt => key ∈ attempt.keys) +
                  (state.log ++ [record]).countP fun record =>
                    key ∈ record.keys && (record.admittedAt key).isNone := by
          intro place attempt record found sameKeys notAdmitted
          have rest := countP_eraseIdx found key
          unfold State.holding at inductionHypothesis
          simp only [List.countP_append, List.countP_singleton, sameKeys, notAdmitted,
            Option.isSome_none, Option.isNone_none, Bool.and_true, Bool.false_eq_true,
            if_false, decide_eq_true_eq]
          omega
        cases next_took step with
        | refused => exact inductionHypothesis
        | @admitted now ip who attempt _ _ =>
            unfold State.holding at *
            by_cases member : key ∈ attempt.keys
            · have isAdmitted : (Record.admitted now attempt.keys).admittedAt key = some now :=
                if_pos member
              simp only [List.countP_append, List.countP_singleton, isAdmitted, Option.isSome_some,
                Option.isNone_some, Bool.and_false, decide_eq_true member, Bool.false_eq_true,
                if_true, if_false]
              omega
            · have notAdmitted : (Record.admitted now attempt.keys).admittedAt key = none :=
                if_neg member
              have notAbout : decide (key ∈ (Record.admitted now attempt.keys).keys) = false :=
                decide_eq_false member
              simp only [List.countP_append, List.countP_singleton, notAdmitted, notAbout,
                Option.isSome_none, Bool.false_and, decide_eq_false member, Bool.false_eq_true,
                if_false]
              omega
        | failed found => exact resolved _ _ _ found rfl rfl
        | succeeded found => exact resolved _ _ _ found rfl rfl
        | cancelled found => exact resolved _ _ _ found rfl rfl
  unfold held
  omega

/-- A row was last seen when its key was last tried. -/
theorem lastTried_of_replay {key : Key} {log : List Record} {entry : Entry}
    (row : replay key log = some entry) : lastTried key log = some entry.lastSeen := by
  induction log using List.reverseRecOn generalizing entry with
  | nil => cases row
  | append_singleton log record inductionHypothesis =>
      rw [replay_append] at row
      by_cases member : key ∈ record.keys
      · cases record with
        | admitted now keys =>
            rw [Record.apply, if_pos (show key ∈ keys from member)] at row
            obtain rfl := Option.some.inj row
            simp [lastTried, Record.triedAt, show key ∈ keys from member]
        | failed now keys =>
            rw [Record.apply, if_pos (show key ∈ keys from member)] at row
            obtain rfl := Option.some.inj row
            simp [lastTried, Record.triedAt, show key ∈ keys from member]
        | succeeded keys =>
            rw [Record.apply, if_pos (show key ∈ keys from member)] at row
            cases row
        | cancelled keys =>
            rw [Record.apply, if_pos (show key ∈ keys from member)] at row
            cases before : replay key log with
            | none =>
                rw [before] at row
                cases row
            | some earlier =>
                have same := inductionHypothesis before
                simp only [before, Entry.release] at row
                split at row
                · cases row
                · obtain rfl := Option.some.inj row
                  simpa [lastTried, Record.triedAt] using same
      · rw [apply_of_not_mem member] at row
        have untried : record.triedAt key = none := by
          cases record with
          | admitted now keys => exact if_neg member
          | failed now keys => exact if_neg member
          | succeeded keys => rfl
          | cancelled keys => rfl
        simpa [lastTried, untried] using inductionHypothesis row

/-- The row of a key after some failures in a row: it counts them, and it was last seen no earlier
than the last of them. -/
def CountsRow (key : Key) (during : List Record) (entry : Option Entry) : Prop :=
  0 < failures key during → ∃ row, entry = some row ∧
    min (failures key during) u32Max ≤ row.failures ∧
      ∀ last, lastFailure key during = some last → last ≤ row.lastSeen

/-- One more record of a row. What is admitted must not come before the row was last seen, nor
start it over. -/
theorem countsRow_snoc {key : Key} {during : List Record} {record : Record} {entry : Option Entry}
    (counts : CountsRow key during entry) (noSuccess : record.succeeds key = false)
    (admits : ∀ now row, record.admittedAt key = some now → entry = some row →
      0 < failures key during → row.lastSeen ≤ now ∧
        ¬(row.inFlight = 0 ∧ entryTtl ≤ now - row.lastSeen)) :
    CountsRow key (during ++ [record]) (record.apply key entry) := by
  intro some_
  by_cases member : key ∈ record.keys
  · cases record with
    | admitted now keys =>
        have isAdmitted : (Record.admitted now keys).admittedAt key = some now := if_pos member
        have sameCount : failures key (during ++ [Record.admitted now keys]) = failures key during := by
          simp [failures, Record.failedAt]
        have sameLast : lastFailure key (during ++ [Record.admitted now keys]) =
            lastFailure key during := by
          simp [lastFailure, Record.failedAt]
        rw [sameCount] at some_ ⊢
        rw [sameLast, Record.apply, if_pos (show key ∈ keys from member)]
        obtain ⟨row, rfl, count, last⟩ := counts some_
        obtain ⟨inOrder, goesOn⟩ := admits now row isAdmitted rfl some_
        refine ⟨_, rfl, ?_, fun time isLast => le_trans (last time isLast) inOrder⟩
        exact le_of_le_of_eq count (if_neg goesOn).symm
    | failed now keys =>
        have isFailed : (Record.failed now keys).failedAt key = some now := if_pos member
        have oneMore : failures key (during ++ [Record.failed now keys]) =
            failures key during + 1 := by
          simp [failures, isFailed]
        have isLast : lastFailure key (during ++ [Record.failed now keys]) = some now := by
          simp [lastFailure, isFailed]
        rw [oneMore, isLast, Record.apply, if_pos (show key ∈ keys from member)]
        refine ⟨_, rfl, ?_, fun time same => (Option.some.inj same).ge⟩
        show _ ≤ saturatingAdd (Entry.orInsert now entry).failures 1
        unfold saturatingAdd
        by_cases first : failures key during = 0
        · omega
        · obtain ⟨row, rfl, count, _⟩ := counts (Nat.pos_of_ne_zero first)
          simp only [Entry.orInsert, Option.getD_some]
          omega
    | succeeded keys =>
        have succeeds : (Record.succeeded keys).succeeds key = true := decide_eq_true member
        rw [noSuccess] at succeeds
        cases succeeds
    | cancelled keys =>
        have sameCount : failures key (during ++ [Record.cancelled keys]) = failures key during := by
          simp [failures, Record.failedAt]
        have sameLast : lastFailure key (during ++ [Record.cancelled keys]) =
            lastFailure key during := by
          simp [lastFailure, Record.failedAt]
        rw [sameCount] at some_ ⊢
        rw [sameLast, Record.apply, if_pos (show key ∈ keys from member)]
        obtain ⟨row, rfl, count, last⟩ := counts some_
        have stays : ¬(row.failures = 0 ∧ row.inFlight - 1 = 0) := by
          have most : 0 < u32Max := by decide
          omega
        simp only [Entry.release, if_neg stays]
        exact ⟨_, rfl, count, last⟩
  · have notFailed : record.failedAt key = none := by
      cases record with
      | failed now keys => exact if_neg member
      | admitted now keys => rfl
      | succeeded keys => rfl
      | cancelled keys => rfl
    have sameCount : failures key (during ++ [record]) = failures key during := by
      simp [failures, notFailed]
    have sameLast : lastFailure key (during ++ [record]) = lastFailure key during := by
      simp [lastFailure, notFailed]
    rw [sameCount] at some_ ⊢
    rw [sameLast, apply_of_not_mem member]
    exact counts some_

/-- A row was not last seen after the latest time read. -/
theorem lastSeen_reached {state : State} (reached : system.Reachable state) {key : Key} {row : Entry}
    (isRow : replay key state.log = some row) : row.lastSeen ≤ state.clock := by
  have tried : ∀ record ∈ state.log, ∀ time, record.triedAt key = some time →
      time ≤ state.clock := by
    clear isRow
    induction reached with
    | initial starts =>
        subst starts
        exact fun _ member => by cases member
    | @step state event after _ _ step inductionHypothesis =>
        have grows : ∀ record : Record, state.clock ≤ after.clock →
            (∀ time, record.triedAt key = some time → time ≤ after.clock) →
            ∀ one ∈ state.log ++ [record], ∀ time, one.triedAt key = some time →
              time ≤ after.clock := by
          intro record later own one member time isTime
          rcases List.mem_append.mp member with before | isNew
          · exact le_trans (inductionHypothesis one before time isTime) later
          · obtain rfl := List.mem_singleton.mp isNew
            exact own time isTime
        have within : ∀ (keys : List Key) (now time : Nat),
            (if key ∈ keys then some now else none) = some time → time ≤ max state.clock now := by
          intro keys now time isTime
          split at isTime
          · obtain rfl := Option.some.inj isTime
            exact Nat.le_max_right _ _
          · cases isTime
        cases next_took step with
        | refused =>
            intro record member time isTime
            exact le_trans (inductionHypothesis record member time isTime) (Nat.le_max_left _ _)
        | admitted => exact grows _ (Nat.le_max_left _ _) fun time => within _ _ time
        | failed => exact grows _ (Nat.le_max_left _ _) fun time => within _ _ time
        | succeeded => exact grows _ (Nat.le_refl _) nofun
        | cancelled => exact grows _ (Nat.le_refl _) nofun
  have isLast := lastTried_of_replay isRow
  obtain ⟨record, member, isTime⟩ := List.mem_filterMap.mp (List.mem_of_getLast? isLast)
  exact tried record member _ isTime

/-- What a row of failures in the log comes to. -/
theorem countsRow_reached {state : State}
    (reached : system.Reached (fun state event => keepsHistory state event = true) state)
    {key : Key} {before during : List Record} (log : state.log = before ++ during)
    (row : InRow key before during) : CountsRow key during (replay key state.log) := by
  induction reached generalizing before during with
  | initial starts =>
      subst starts
      obtain ⟨rfl, rfl⟩ := List.append_eq_nil_iff.mp log.symm
      intro some_
      cases some_
  | @step state event after prior meets step inductionHypothesis =>
      have counted := counted_history prior
      have replayed := replayed_reached prior key
      have reachable : system.Reachable state := prior.mono fun _ _ _ => trivial
      obtain ⟨_, timed⟩ := Bool.and_eq_true_iff.mp meets
      have grows : ∀ record : Record, after.log = state.log ++ [record] →
          (∀ now, record.admittedAt key = some now → state.clock ≤ now) →
          CountsRow key during (replay key after.log) := by
        intro record isLog inTime
        rcases List.eq_nil_or_concat during with rfl | ⟨earlier, last, rfl⟩
        · intro some_
          cases some_
        rw [List.concat_eq_append] at *
        rw [isLog, ← List.append_assoc] at log
        obtain ⟨isEarlier, isLast⟩ := List.append_inj' log rfl
        obtain rfl : record = last := by simpa using isLast
        obtain ⟨rowEarlier, noSuccess, busy⟩ := row.init
        rw [isLog, replay_append]
        refine countsRow_snoc (inductionHypothesis isEarlier rowEarlier) noSuccess ?_
        intro now entry isAdmitted isEntry some_
        refine ⟨le_trans (lastSeen_reached reachable isEntry) (inTime now isAdmitted), ?_⟩
        rintro ⟨idle, long⟩
        rcases busy now isAdmitted with none_ | isHeld | ⟨tried, isTried, soon⟩
        · omega
        · rw [← isEarlier, held_reached reachable key, ← counted key, inFlight_eq] at isHeld
          rcases replayed with same | ⟨gone, _⟩
          · rw [same, isEntry] at isHeld
            exact absurd isHeld (by simp [LoginThrottle.counted, idle])
          · rw [gone] at isHeld
            cases isHeld
        · rw [← isEarlier, lastTried_of_replay isEntry] at isTried
          obtain rfl := Option.some.inj isTried
          have ttl : 0 < entryTtl := by decide
          omega
      cases next_took step with
      | refused => exact inductionHypothesis log row
      | @admitted now ip who attempt _ _ =>
          refine grows _ rfl fun time isTime => ?_
          have later : state.clock ≤ now := of_decide_eq_true timed
          simp only [Record.admittedAt] at isTime
          split at isTime
          · exact Option.some.inj isTime ▸ later
          · cases isTime
      | failed => exact grows _ rfl fun _ isTime => by cases isTime
      | succeeded => exact grows _ rfl fun _ isTime => by cases isTime
      | cancelled => exact grows _ rfl fun _ isTime => by cases isTime

/-- The delay doubles with each failure past the free ones, up to five minutes. -/
theorem delay_eq {free effective : Nat} (past : free < effective) :
    Entry.delay free effective = min (2 ^ (effective - free - 1)) 300 * second := by
  unfold Entry.delay baseDelay maxDelay
  rw [if_neg (by omega), Nat.mul_comm second, Nat.mul_min_mul_right]
  congr 1
  by_cases early : effective - free - 1 ≤ 20
  · rw [Nat.min_eq_left early]
  · have exponent : min (effective - free - 1) 20 = 20 := by omega
    rw [exponent]
    have most : 2 ^ 20 ≤ 2 ^ (effective - free - 1) :=
      Nat.pow_le_pow_right (by decide) (by omega)
    have least : 300 ≤ 2 ^ 20 := by decide
    omega

/-- After more failures in a row than are free, the next admission comes no earlier than their delay
after the last of them. -/
theorem waited_after_row {state : State}
    (reached : system.Reached (fun state event => keepsHistory state event = true) state)
    {key : Key} {before during : List Record} (log : state.log = before ++ during)
    (row : InRow key before during) (past : key.freeAttempts < failures key during) {last : Nat}
    (isLast : lastFailure key during = some last) {now : Nat} (later : state.clock ≤ now)
    {ip : Option IpAddr} {who : Who} {after : LoginThrottle} {attempt : LoginAttempt}
    (admitted : state.throttle.begin now ip who = (after, .ok attempt)) (member : key ∈ keys ip who) :
    last + min (2 ^ (failures key during - key.freeAttempts - 1)) 300 * second ≤ now := by
  obtain ⟨_, waits, _⟩ := begin_ok admitted
  obtain ⟨entry, isEntry, count, notAfter⟩ := countsRow_reached reached log row (by omega)
  have seen := notAfter last isLast
  rw [← delay_eq past]
  have some_ : 0 < Entry.delay key.freeAttempts (failures key during) := by
    rw [delay_eq past]
    exact Nat.mul_pos (Nat.lt_min.mpr ⟨Nat.two_pow_pos _, by decide⟩) (by decide)
  rcases replayed_prune (replayed_reached reached key) later with same | ⟨_, stale⟩
  · have free := waits_eq_none.mp waits key member entry (same.trans isEntry)
    have atLeast : Entry.delay key.freeAttempts (failures key during) ≤
        entry.penalty key.freeAttempts := by
      rw [← delay_saturated]
      refine delay_mono _ ?_
      unfold saturatingAdd
      omega
    omega
  · obtain ⟨_, isStale, _, long⟩ := stale
    obtain rfl := Option.some.inj (isEntry.symm.trans isStale)
    have short : Entry.delay key.freeAttempts (failures key during) ≤ maxDelay := by
      unfold Entry.delay
      split
      · exact Nat.zero_le _
      · exact Nat.min_le_right _ _
    have ttl : maxDelay ≤ entryTtl := by decide
    omega

/-- A known device waits for what was done with its own address and its own token alone, and a row
of failures makes every key wait: in the runs of a clock that does not go back in which nothing
succeeds while another attempt holds one of its keys, and where a row ends when its key is idle for
an hour. -/
theorem lockout_does_not_spread :
    (∀ one other : State,
      system.Reached (fun state event => keepsHistory state event = true) one →
      system.Reached (fun state event => keepsHistory state event = true) other →
      ∀ ip hash, one.about (keys ip (.device hash)) = other.about (keys ip (.device hash)) →
        ∀ now, one.clock ≤ now → other.clock ≤ now →
          one.throttle.answer now ip (.device hash) = other.throttle.answer now ip (.device hash)) ∧
      ∀ state : State, system.Reached (fun state event => keepsHistory state event = true) state →
        ∀ key before during, state.log = before ++ during → InRow key before during →
          key.freeAttempts < failures key during → ∀ last, lastFailure key during = some last →
            ∀ now ip who after attempt, state.clock ≤ now → key ∈ keys ip who →
              state.throttle.begin now ip who = (after, .ok attempt) →
                last + min (2 ^ (failures key during - key.freeAttempts - 1)) 300 * second ≤ now := by
  constructor
  · intro one other reachedOne reachedOther ip hash same now laterOne laterOther
    rw [answer_of_replay reachedOne laterOne, answer_of_replay reachedOther laterOther, same]
  · intro state reached key before during log row past last isLast now ip who after attempt later
      member admitted
    exact waited_after_row reached log row past isLast later admitted member

/-! ### Two lockouts, and what the claim without its conditions comes to -/

/-- Four passwords entered on one device at once, all wrong. -/
def fourFail : List Event :=
  [.begin 0 none (.device "d1"), .begin 0 none (.device "d1"), .begin 0 none (.device "d1"),
    .begin 0 none (.device "d1"), .failure 0 0, .failure 0 0, .failure 0 0, .failure 0 0]

/-- The throttle once they have. -/
def fourFailed : State := (System.follow keepsHistory next {} fourFail).get (by decide)

theorem fourFailed_reached :
    system.Reached (fun state event => keepsHistory state event = true) fourFailed :=
  System.reached_get keepsHistory next fourFail (.initial rfl : system.Reached _ _) _

/-- The same after a stranger's attempt from elsewhere. -/
def strangerFailed : State :=
  (System.follow keepsHistory next {}
    (.begin 0 (some (.v4 1)) .stranger :: .failure 0 0 :: fourFail)).get (by decide)

/-- The stranger changes nothing for the device, which waits a second after its fourth failure. -/
theorem lockout_does_not_spread_fourFail :
    fourFailed.throttle.answer 0 none (.device "d1") =
        strangerFailed.throttle.answer 0 none (.device "d1") ∧
      0 + min (2 ^ (4 - 3 - 1)) 300 * second ≤ second := by
  constructor
  · have reachedOther := System.reached_get keepsHistory next
      (.begin 0 (some (.v4 1)) .stranger :: .failure 0 0 :: fourFail)
      (.initial rfl : system.Reached _ _) (by decide)
    exact lockout_does_not_spread.1 fourFailed strangerFailed fourFailed_reached reachedOther none
      "d1" (by decide) 0 (by decide) (by decide)
  · have row : InRow (.device "d1") (List.replicate 4 (.admitted 0 [.device "d1"])) _ :=
      (((InRow.nil.fail 0 [.device "d1"]).fail 0 [.device "d1"]).fail 0 [.device "d1"]).fail 0
        [.device "d1"]
    obtain ⟨after, attempt, admitted⟩ := admitted_of_answer
      (show fourFailed.throttle.answer second none (.device "d1") = none from by decide)
    exact lockout_does_not_spread.2 fourFailed fourFailed_reached _ _ _ (by decide) row (by decide) 0
      (by decide) second none (.device "d1") after attempt (by decide) (by decide) admitted

/-! ### Where a resolution finds its reservation gone -/

/-- An attempt by a device without a row is admitted, and makes one. -/
theorem begin_fresh {state : State} {now : Nat} {hash : String}
    (fresh : Key.device hash ∉ state.throttle.entries)
    (room : state.throttle.entries.entries.length ≤ pruneThreshold) :
    ∃ after, next state (.begin now none (.device hash)) = some after ∧
      after.throttle.entries = state.throttle.entries.insert (.device hash) ⟨0, 1, now⟩ ∧
      after.throttle.lastPrune = state.throttle.lastPrune ∧
      (∃ attempt, after.live = state.live ++ [attempt]) ∧
      after.log = state.log ++ [.admitted now [.device hash]] ∧
      after.clock = max state.clock now := by
  have notDue : state.throttle.pruneDue now = false := by
    simp only [pruneDue, decide_eq_false (not_lt.mpr room), Bool.false_and]
  have kept : state.throttle.prune now = state.throttle := if_neg (by simp [notDue])
  have absent := AList.lookup_eq_none.mpr fresh
  have free : state.throttle.waits now (keys none (.device hash)) = none := by
    refine waits_eq_none.mpr fun key member entry found => ?_
    obtain rfl : key = .device hash := by simpa [keys] using member
    cases absent.symm.trans found
  have admitted : state.throttle.begin now none (.device hash) =
      (state.throttle.alter (keys none (.device hash)) (Entry.reserve now),
        .ok ⟨keys none (.device hash), keys_nodup _ _⟩) := by
    simp only [LoginThrottle.begin, kept, free]
  refine ⟨⟨state.throttle.alter (keys none (.device hash)) (Entry.reserve now),
    state.live ++ [⟨keys none (.device hash), keys_nodup _ _⟩],
    state.log ++ [.admitted now (keys none (.device hash))], max state.clock now⟩,
    by simp only [next, admitted], ?_, rfl, ⟨_, rfl⟩, rfl, rfl⟩
  show Table.alter (Entry.reserve now) state.throttle.entries (.device hash) = _
  rw [Table.alter, absent]
  have idle : Entry.reserve now none = some ⟨0, 1, now⟩ := by
    simp [Entry.reserve, Entry.orInsert, saturatingAdd, u32Max]
  rw [idle]

/-- A run of attempts by devices without a row, as long as no sweep is due. -/
theorem begins_fresh (now : Nat) (hashes : List String) (distinct : hashes.Nodup) {state : State}
    (reached : system.Reached (fun state event => timely state event = true) state)
    (fresh : ∀ hash ∈ hashes, Key.device hash ∉ state.throttle.entries)
    (room : state.throttle.entries.entries.length + hashes.length ≤ pruneThreshold + 1)
    (later : state.clock ≤ now) :
    ∃ after, system.Reached (fun state event => timely state event = true) after ∧
      after.throttle.entries.entries.length =
        state.throttle.entries.entries.length + hashes.length ∧
      after.throttle.lastPrune = state.throttle.lastPrune ∧
      (∀ key, (∀ hash ∈ hashes, key ≠ .device hash) →
        after.throttle.entries.lookup key = state.throttle.entries.lookup key) ∧
      (∃ more, after.live = state.live ++ more) ∧
      (∀ keys, (∀ hash ∈ hashes, Key.device hash ∉ keys) → after.about keys = state.about keys) ∧
      after.clock ≤ now := by
  induction hashes generalizing state with
  | nil => exact ⟨state, reached, rfl, rfl, fun _ _ => rfl, ⟨[], by simp⟩, fun _ _ => rfl, later⟩
  | cons hash hashes inductionHypothesis =>
      obtain ⟨notLater, distinctRest⟩ := List.nodup_cons.mp distinct
      have freshHere := fresh hash (List.mem_cons_self ..)
      rw [List.length_cons] at room
      obtain ⟨middle, step, entries, lastPrune, ⟨attempt, live⟩, log, clock⟩ :=
        @begin_fresh state now hash freshHere (by omega)
      have lookupOther : ∀ key, key ≠ .device hash →
          middle.throttle.entries.lookup key = state.throttle.entries.lookup key := fun key different =>
        entries ▸ AList.lookup_insert_ne different
      have length : middle.throttle.entries.entries.length =
          state.throttle.entries.entries.length + 1 := by
        rw [entries, AList.entries_insert_of_notMem freshHere, List.length_cons]
      have reachedMiddle : system.Reached (fun state event => timely state event = true) middle :=
        .step reached
          (show timely state (.begin now none (.device hash)) = true from decide_eq_true later) step
      have freshRest : ∀ other ∈ hashes, Key.device other ∉ middle.throttle.entries := by
        intro other member
        have different : Key.device other ≠ Key.device hash := by
          intro same
          obtain rfl := Key.device.inj same
          exact notLater member
        rw [← AList.lookup_eq_none, lookupOther _ different, AList.lookup_eq_none]
        exact fresh other (List.mem_cons_of_mem _ member)
      obtain ⟨after, reachedAfter, lengthAfter, lastPruneAfter, lookupAfter, ⟨more, liveAfter⟩,
        aboutAfter, clockAfter⟩ :=
        inductionHypothesis distinctRest reachedMiddle freshRest (by omega) (by omega)
      refine ⟨after, reachedAfter, ?_, lastPruneAfter.trans lastPrune, fun key others => ?_,
        ⟨attempt :: more, ?_⟩, fun keys others => ?_, clockAfter⟩
      · rw [List.length_cons]
        omega
      · rw [lookupAfter key fun other member => others other (List.mem_cons_of_mem _ member),
          lookupOther key (others hash (List.mem_cons_self ..))]
      · rw [liveAfter, live, List.append_assoc]
        rfl
      · rw [aboutAfter keys fun other member => others other (List.mem_cons_of_mem _ member)]
        have notAbout : (Record.admitted now [Key.device hash]).about keys = false := by
          simpa [Record.about, Record.keys] using others hash (List.mem_cons_self ..)
        rw [State.about, log, List.filter_append, List.filter_singleton, notAbout]
        simp [State.about]

/-- Five passwords entered on one device, the first right, three of them wrong, the last not yet
resolved. -/
def firstOfFive : List Event :=
  [.begin 0 none (.device "d1"), .begin 0 none (.device "d1"), .begin 0 none (.device "d1"),
    .begin 0 none (.device "d1"), .begin second none (.device "d1"), .success 0, .failure second 0,
    .failure second 0, .failure second 0]

/-- The throttle before the last of them is resolved, an hour later. -/
def fifthPending : State := (System.follow timely next {} firstOfFive).get (by decide)

/-- A wrong password of the fifth attempt. -/
def fifthWrong : State := (System.follow timely next fifthPending [.failure (3601 * second) 0]).get
  (by decide)

theorem fifthPending_reached :
    system.Reached (fun state event => timely state event = true) fifthPending :=
  System.reached_get timely next firstOfFive (.initial rfl : system.Reached _ _) _

/-- The names of devices that enter a password meanwhile. -/
def otherDevices : List String :=
  (List.range pruneThreshold).map fun place => String.ofList (List.replicate (place + 3) 'd')

theorem otherDevices_nodup : otherDevices.Nodup := by
  refine List.Nodup.map ?_ List.nodup_range
  intro one other same
  have sameLength := congrArg (fun name : String => name.toList.length) same
  simpa using sameLength

theorem d1_not_otherDevice {hash : String} (member : hash ∈ otherDevices) :
    Key.device "d1" ≠ .device hash := by
  obtain ⟨place, _, rfl⟩ := List.mem_map.mp member
  intro same
  have sameLength := congrArg (fun name : String => name.toList.length) (Key.device.inj same)
  simp at sameLength

/-- What other devices do meanwhile: they enter passwords until a sweep is due. -/
theorem sweep_due :
    ∃ full, system.Reached (fun state event => timely state event = true) full ∧
      full.throttle.pruneDue (3601 * second) = true ∧
      full.throttle.entries.lookup (.device "d1") = some ⟨3, 0, second⟩ ∧
      (∃ attempt more, full.live = attempt :: more ∧ attempt.keys = [.device "d1"]) ∧
      full.about [.device "d1"] = fifthPending.about [.device "d1"] ∧
      full.clock ≤ 3601 * second := by
  have absent : ∀ hash ∈ otherDevices, Key.device hash ∉ fifthPending.throttle.entries := by
    intro hash member
    have isKeys : fifthPending.throttle.entries.keys = [.device "d1"] := by decide
    rw [AList.mem_keys, isKeys, List.mem_singleton]
    exact (d1_not_otherDevice member).symm
  have count : otherDevices.length = pruneThreshold := by simp [otherDevices]
  have one : fifthPending.throttle.entries.entries.length = 1 := by decide
  obtain ⟨full, reached, length, lastPrune, lookup, ⟨more, live⟩, about, clock⟩ :=
    begins_fresh (3601 * second) otherDevices otherDevices_nodup fifthPending_reached absent
      (by omega) (by decide)
  refine ⟨full, reached, ?_, ?_, ?_, about _ ?_, clock⟩
  · have never : full.throttle.lastPrune = none := lastPrune
    simp only [pruneDue, never, Bool.and_true, decide_eq_true_eq]
    omega
  · rw [lookup _ fun hash member => d1_not_otherDevice member]
    decide
  · exact ⟨_, _, live, rfl⟩
  · intro hash member
    rw [List.mem_singleton]
    exact (d1_not_otherDevice member).symm

/-- A password entered by one more device then sweeps the row of the first. -/
theorem sweeps_pending :
    ∃ swept, system.Reached (fun state event => timely state event = true) swept ∧
      swept.throttle.lastPrune = some (3601 * second) ∧
      swept.throttle.entries.lookup (.device "d1") = none ∧
      (∃ attempt more, swept.live = attempt :: more ∧ attempt.keys = [.device "d1"]) ∧
      swept.about [.device "d1"] = fifthPending.about [.device "d1"] ∧
      swept.clock ≤ 3601 * second := by
  obtain ⟨full, reached, due, row, ⟨attempt, more, live, isKeys⟩, about, clock⟩ := sweep_due
  have pruned : full.throttle.prune (3601 * second) =
      ⟨some (3601 * second), full.throttle.entries.retain (Entry.kept (3601 * second))⟩ := if_pos due
  have gone : (full.throttle.prune (3601 * second)).entries.lookup (.device "d1") = none := by
    rw [pruned, Table.lookup_retain, row]
    decide
  obtain ⟨swept, step⟩ : ∃ swept, next full (.begin (3601 * second) none (.device "d2")) = some swept := by
    simp only [next]
    split
    · exact ⟨_, rfl⟩
    · exact ⟨_, rfl⟩
  have reachedSwept : system.Reached (fun state event => timely state event = true) swept :=
    .step reached (show timely full (.begin (3601 * second) none (.device "d2")) = true from
      decide_eq_true clock) step
  cases next_took step with
  | refused =>
      refine ⟨_, reachedSwept, by rw [pruned], gone, ⟨attempt, more, live, isKeys⟩, about, ?_⟩
      exact max_le clock le_rfl
  | @admitted _ _ _ other otherKeys _ =>
      have notOther : Key.device "d1" ∉ other.keys := by
        rw [otherKeys]
        decide
      refine ⟨_, reachedSwept, ?_, ?_, ⟨attempt, more ++ [other], ?_, isKeys⟩, ?_, max_le clock le_rfl⟩
      · show (full.throttle.prune (3601 * second)).lastPrune = _
        rw [pruned]
      · rw [lookup_alter, if_neg notOther]
        exact gone
      · rw [live]
        rfl
      · have notAbout : (Record.admitted (3601 * second) other.keys).about [.device "d1"] = false := by
          rw [otherKeys]
          decide
        rw [State.about, List.filter_append, List.filter_singleton, notAbout]
        simpa [State.about] using about

/-- The device's fifth attempt then starts its row over. -/
theorem starts_over :
    ∃ later, system.Reached (fun state event => timely state event = true) later ∧
      later.about [.device "d1"] = fifthWrong.about [.device "d1"] ∧ later.clock ≤ 3601 * second ∧
      later.throttle.answer (3601 * second) none (.device "d1") = none := by
  obtain ⟨swept, reached, lastPrune, row, ⟨attempt, more, live, isKeys⟩, about, clock⟩ := sweeps_pending
  have found : swept.live[0]? = some attempt := by rw [live]; rfl
  have step : next swept (.failure (3601 * second) 0) = some
      ⟨swept.throttle.recordFailure (3601 * second) attempt, swept.live.eraseIdx 0,
        swept.log ++ [.failed (3601 * second) attempt.keys], max swept.clock (3601 * second)⟩ := by
    simp only [next, found, Option.map_some]
  refine ⟨_, .step reached (show timely swept (.failure (3601 * second) 0) = true from
    decide_eq_true clock) step, ?_, max_le clock le_rfl, ?_⟩
  · have last : fifthWrong.about [.device "d1"] =
        fifthPending.about [.device "d1"] ++ [.failed (3601 * second) [.device "d1"]] := by decide
    rw [last, ← about, State.about, List.filter_append, isKeys]
    rfl
  · rw [answer_eq]
    have notDue : (swept.throttle.recordFailure (3601 * second) attempt).pruneDue (3601 * second) =
        false := by
      have recent : (swept.throttle.recordFailure (3601 * second) attempt).lastPrune =
          some (3601 * second) := lastPrune
      simp only [pruneDue, recent, Nat.sub_self]
      exact Bool.and_false _
    have kept : (swept.throttle.recordFailure (3601 * second) attempt).prune (3601 * second) =
        swept.throttle.recordFailure (3601 * second) attempt := if_neg (by simp [notDue])
    rw [kept]
    refine waits_eq_none.mpr fun key member entry isEntry => ?_
    obtain rfl : key = .device "d1" := by simpa [keys] using member
    have ownKey : Key.device "d1" ∈ attempt.keys := by simp [isKeys]
    rw [recordFailure, lookup_alter, if_pos ownKey, row] at isEntry
    obtain rfl := Option.some.inj isEntry
    decide

/-- Four failures in a row on one device, an hour without any, and a fifth. -/
def fifthFailed : State :=
  (System.follow timely next {}
    (fourFail ++ [.begin (3600 * second) none (.device "d1"), .failure (3600 * second) 0])).get
      (by decide)

/-- Two failures an hour apart are counted apart. -/
theorem not_waited_after_hour :
    ¬ ∀ state : State, system.Reached (fun state event => timely state event = true) state →
      ∀ key before during, state.log = before ++ during →
        (∀ record ∈ during, record.succeeds key = false) →
          key.freeAttempts < failures key during → ∀ last, lastFailure key during = some last →
            ∀ now ip who after attempt, state.clock ≤ now → key ∈ keys ip who →
              state.throttle.begin now ip who = (after, .ok attempt) →
                last + min (2 ^ (failures key during - key.freeAttempts - 1)) 300 * second ≤ now := by
  intro waits
  have reached := System.reached_get timely next
    (fourFail ++ [.begin (3600 * second) none (.device "d1"), .failure (3600 * second) 0])
    (.initial rfl : system.Reached _ _) (by decide)
  obtain ⟨after, attempt, admitted⟩ := admitted_of_answer
    (show fifthFailed.throttle.answer (3600 * second) none (.device "d1") = none from by decide)
  have early := waits fifthFailed reached (.device "d1") [] _ rfl (by decide) (by decide)
    (3600 * second) (by decide) (3600 * second) none (.device "d1") after attempt (by decide)
    (by decide) admitted
  exact absurd early (by decide)

/-- Without the conditions neither half holds: a sweep that other devices bring about changes what a
device waits, and a row of failures is forgotten after an hour. -/
theorem not_lockout_does_not_spread :
    (¬ ∀ one other : State, system.Reached (fun state event => timely state event = true) one →
      system.Reached (fun state event => timely state event = true) other →
      ∀ ip hash, one.about (keys ip (.device hash)) = other.about (keys ip (.device hash)) →
        ∀ now, one.clock ≤ now → other.clock ≤ now →
          one.throttle.answer now ip (.device hash) = other.throttle.answer now ip (.device hash)) ∧
      ¬ ∀ state : State, system.Reached (fun state event => timely state event = true) state →
        ∀ key before during, state.log = before ++ during →
          (∀ record ∈ during, record.succeeds key = false) →
            key.freeAttempts < failures key during → ∀ last, lastFailure key during = some last →
              ∀ now ip who after attempt, state.clock ≤ now → key ∈ keys ip who →
                state.throttle.begin now ip who = (after, .ok attempt) →
                  last + min (2 ^ (failures key during - key.freeAttempts - 1)) 300 * second ≤ now := by
  refine ⟨fun same => ?_, not_waited_after_hour⟩
  obtain ⟨later, reachedLater, about, clock, free⟩ := starts_over
  have reachedWrong := System.reached_get timely next [.failure (3601 * second) 0]
    fifthPending_reached (by decide)
  have equal := same later fifthWrong reachedLater reachedWrong none "d1" about (3601 * second) clock
    (by decide)
  rw [free] at equal
  exact absurd equal (by decide)

end ServerBox.Monitor.LoginThrottle
