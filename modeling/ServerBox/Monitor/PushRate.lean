import ServerBox.Std.System
import ServerBox.Std.Text
import Mathlib.Data.List.Basic
import Mathlib.Logic.Function.Basic

/-!
# How many pushes go out

`PushRateLimiter` and `push_all` of `src/monitor/src/monitoring/push/mod.rs`: any number of
calls under way at once, each through its channels in turn. The limiter is asked before a
send and told after it, with the send's wait in between. What goes out is kept beside the
state, with its time.
-/

namespace ServerBox.Monitor.PushRate

open ServerBox.Std

/-! ### The limiter -/

/-- `config.get_push_rate()`. -/
structure Rate where
  times : Nat
  window : Nat

/-- What a queue still holds once the oldest past the window are gone. -/
def recent (rate : Rate) (now : Nat) (queue : List Nat) : List Nat :=
  queue.dropWhile fun time => rate.window < now - time

/-- `PushRateLimiter::check`, of the queue of a channel that was cleared of its oldest. -/
def allows (rate : Rate) (queue : List Nat) : Bool := queue.length < rate.times

/-- `PushRateLimiter::acquire`. -/
def acquire (now : Nat) (queue : List Nat) : List Nat := queue ++ [now]

/-! ### The calls -/

/-- A channel of the configuration, by its name, or the account's devices, which have a
limiter of their own. -/
inductive Channel where
  | named (name : Text)
  | lkc
deriving DecidableEq

/-- Where a call stands with its first channel. -/
inductive Stage where
  | checks
  | sends
  | acquires
deriving DecidableEq

/-- A call of `push_all`: the channels that it has yet to go through. -/
structure Call where
  channels : List Channel
  stage : Stage

structure State where
  now : Nat
  queues : Channel → List Nat
  calls : List Call
  /-- The sends that succeeded. -/
  sent : List (Channel × Nat)

inductive Event where
  | tick (elapsed : Nat)
  | pushAll (names : List Text)
  | check (index : Nat)
  | send (index : Nat) (succeeds : Bool)
  | acquire (index : Nat)
  /-- A call that is dropped while it waits for a send. -/
  | stop (index : Nat)

def Event.index : Event → Option Nat
  | .tick _ | .pushAll _ => none
  | .check index | .send index _ | .acquire index | .stop index => some index

/-- A call goes on with what it has to do next. -/
def State.goOn (state : State) (index : Nat) (channels : List Channel) (stage : Stage) : State :=
  { state with calls := state.calls.set index ⟨channels, stage⟩ }

def State.setQueue (state : State) (channel : Channel) (queue : List Nat) : State :=
  { state with queues := Function.update state.queues channel queue }

/-- A send through a channel that succeeds now. -/
def State.goesOut (state : State) (channel : Channel) : State :=
  { state with sent := (channel, state.now) :: state.sent }

/-- The channel's queue without its oldest. -/
def State.cleared (rate : Rate) (state : State) (channel : Channel) : State :=
  state.setQueue channel (recent rate state.now (state.queues channel))

/-- A step of a call at its first channel. -/
def stepCall (rate : Rate) (state : State) (index : Nat) (channel : Channel)
    (rest : List Channel) : Stage → Event → Option State
  | .checks, .check _ =>
      let state := state.cleared rate channel
      some (if allows rate (state.queues channel) then state.goOn index (channel :: rest) .sends
        else state.goOn index rest .checks)
  | .sends, .send _ succeeds =>
      some (if succeeds then (state.goesOut channel).goOn index (channel :: rest) .acquires
        else state.goOn index rest .checks)
  | .sends, .stop _ => some (state.goOn index [] .checks)
  | .acquires, .acquire _ =>
      some ((state.setQueue channel (PushRate.acquire state.now (state.queues channel))).goOn index
        rest .checks)
  | _, _ => none

def next (rate : Rate) (state : State) : Event → Option State
  | .tick elapsed => some { state with now := state.now + elapsed }
  | .pushAll names =>
      some { state with calls := state.calls ++ [⟨names.map .named ++ [.lkc], .checks⟩] }
  | event => do
      let index ← event.index
      let ⟨channel :: rest, stage⟩ ← state.calls[index]? | none
      stepCall rate state index channel rest stage event

/-- A monitor that has just started. -/
def Initial (state : State) : Prop :=
  state.calls = [] ∧ state.sent = [] ∧ ∀ channel, state.queues channel = []

def pushes (rate : Rate) : System State Event := System.ofNext Initial (next rate)

/-! ### The property -/

/-- Sends through one channel between two times. -/
def State.sentBetween (state : State) (channel : Channel) (first last : Nat) : Nat :=
  state.sent.countP fun send => send.1 = channel && first ≤ send.2 && send.2 ≤ last

/-- No more than `times` sends go out through one channel within any `window`. -/
def WithinRate (rate : Rate) (state : State) : Prop :=
  ∀ channel start, state.sentBetween channel start (start + rate.window) ≤ rate.times

/-- How many calls stand so with a channel. -/
def State.under (state : State) (stage : Stage) (channel : Channel) : Nat :=
  state.calls.countP fun call => call.stage = stage && call.channels.head? = some channel

/-- The recorded sends of the window and those under way leave room for one more. -/
def hasRoom (rate : Rate) (state : State) (channel : Channel) : Bool :=
  (recent rate state.now (state.queues channel)).length + state.under .sends channel +
    state.under .acquires channel < rate.times

/-- Whether a check that lets a send through finds room for it. -/
def checksRoom (rate : Rate) (state : State) : Event → Bool
  | .check index =>
      match state.calls[index]? with
      | some ⟨channel :: _, .checks⟩ =>
          !allows rate (recent rate state.now (state.queues channel)) || hasRoom rate state channel
      | _ => true
  | _ => true

/-- A check that no other send of its channel is under way at has the room that it finds. -/
theorem hasRoom_of_alone {rate : Rate} {state : State} {channel : Channel}
    (allowed : allows rate (recent rate state.now (state.queues channel)) = true)
    (sends : state.under .sends channel = 0) (acquires : state.under .acquires channel = 0) :
    hasRoom rate state channel = true := by
  rw [hasRoom, sends, acquires]
  exact allowed

/-! ### The invariant -/

def State.sentSince (state : State) (channel : Channel) (first : Nat) : Nat :=
  state.sent.countP fun send => send.1 = channel && first ≤ send.2

def State.recordedSince (state : State) (channel : Channel) (first : Nat) : Nat :=
  (state.queues channel).countP fun time => first ≤ time

/-- What went out and still counts is recorded or about to be, and leaves room for what is
being sent. -/
structure Inv (rate : Rate) (state : State) : Prop where
  past : ∀ send ∈ state.sent, send.2 ≤ state.now
  recorded : ∀ channel first, state.now ≤ first + rate.window →
    state.sentSince channel first ≤
      state.recordedSince channel first + state.under .acquires channel
  room : ∀ channel first, state.now ≤ first + rate.window →
    state.sentSince channel first + state.under .sends channel ≤ rate.times
  within_ : WithinRate rate state

section

variable {rate : Rate} {state after : State} {index : Nat} {channel : Channel}
  {rest : List Channel}

/-- A call that goes on counts where it stands now, and no more where it stood. -/
theorem under_goOn {stood : Stage}
    (isCall : state.calls[index]? = some ⟨channel :: rest, stood⟩) (channels : List Channel)
    (stands counted : Stage) (of : Channel) :
    (state.goOn index channels stands).under counted of +
        (if stood = counted ∧ channel = of then 1 else 0) =
      state.under counted of + if stands = counted ∧ channels.head? = some of then 1 else 0 := by
  obtain ⟨inBounds, isAt⟩ := List.getElem?_eq_some_iff.mp isCall
  have present : (if stood = counted ∧ channel = of then 1 else 0) ≤ state.under counted of := by
    split
    next holds =>
      refine List.countP_pos_iff.mpr ⟨_, List.getElem_mem inBounds, ?_⟩
      simp [isAt, holds.1, holds.2]
    next => exact Nat.zero_le _
  simp only [State.under, State.goOn, List.countP_set inBounds, isAt, Bool.and_eq_true,
    decide_eq_true_eq, List.head?_cons, Option.some.injEq] at present ⊢
  omega

/-- A queue that is cleared keeps what still counts. -/
theorem countP_recent {now first : Nat} (queue : List Nat) (counts : now ≤ first + rate.window) :
    (recent rate now queue).countP (fun time => first ≤ time) =
      queue.countP fun time => first ≤ time := by
  unfold recent
  induction queue with
  | nil => rfl
  | cons time queue inductionHypothesis =>
      rw [List.dropWhile_cons]
      split
      next old =>
        have before : ¬ first ≤ time := by
          simp only [decide_eq_true_eq] at old
          omega
        rw [inductionHypothesis, List.countP_cons_of_neg (by simpa using before)]
      next => rfl

theorem Inv.tick (inv : Inv rate state) (elapsed : Nat) :
    Inv rate { state with now := state.now + elapsed } where
  past send held := Nat.le_add_right_of_le (inv.past send held)
  recorded channel first counts :=
    inv.recorded channel first (Nat.le_trans (Nat.le_add_right ..) counts)
  room channel first counts := inv.room channel first (Nat.le_trans (Nat.le_add_right ..) counts)
  within_ := inv.within_

theorem Inv.pushAll (inv : Inv rate state) (channels : List Channel) :
    Inv rate { state with calls := state.calls ++ [⟨channels, .checks⟩] } := by
  have same : ∀ stage channel, stage ≠ .checks →
      State.under { state with calls := state.calls ++ [⟨channels, .checks⟩] } stage channel =
        state.under stage channel := by
    intro stage channel started
    simp [State.under, started.symm]
  refine ⟨inv.past, fun channel first counts => ?_, fun channel first counts => ?_, inv.within_⟩
  · rw [same .acquires channel (by decide)]
    exact inv.recorded channel first counts
  · rw [same .sends channel (by decide)]
    exact inv.room channel first counts

/-- A step that sends nothing and leaves every count that still matters as it was. -/
theorem Inv.of_counts (inv : Inv rate state) (now : after.now = state.now)
    (sent : after.sent = state.sent)
    (recorded : ∀ channel first, first ≤ state.now → state.now ≤ first + rate.window →
      state.recordedSince channel first + state.under .acquires channel ≤
        after.recordedSince channel first + after.under .acquires channel)
    (room : ∀ channel first, state.now ≤ first + rate.window →
      state.sentSince channel first + after.under .sends channel ≤ rate.times) :
    Inv rate after where
  past send held := by
    rw [now]
    exact inv.past send (sent ▸ held)
  recorded channel first counts := by
    rw [now] at counts
    have before := inv.recorded channel first counts
    rw [State.sentSince, sent]
    by_cases past : first ≤ state.now
    · exact Nat.le_trans before (recorded channel first past counts)
    · -- Nothing was sent at a time to come.
      have none : state.sentSince channel first = 0 := by
        rw [State.sentSince, List.countP_eq_zero]
        intro send held
        have sentBefore := inv.past send held
        simp only [Bool.and_eq_true, decide_eq_true_eq, not_and]
        omega
      exact (Nat.le_of_eq none).trans (Nat.zero_le _)
  room channel first counts := by
    rw [now] at counts
    rw [State.sentSince, sent]
    exact room channel first counts
  within_ channel start := by
    rw [State.sentBetween, sent]
    exact inv.within_ channel start

theorem recordedSince_cleared (channel of : Channel) {first : Nat}
    (counts : state.now ≤ first + rate.window) :
    (state.cleared rate channel).recordedSince of first = state.recordedSince of first := by
  by_cases same : of = channel
  · subst same
    simp only [State.recordedSince, State.cleared, State.setQueue, Function.update_self]
    exact countP_recent _ counts
  · simp only [State.recordedSince, State.cleared, State.setQueue, Function.update_of_ne same]

/-- A check that lets no send through. -/
theorem Inv.deny (inv : Inv rate state)
    (isCall : state.calls[index]? = some ⟨channel :: rest, .checks⟩) :
    Inv rate ((state.cleared rate channel).goOn index rest .checks) := by
  have isCallToo : (state.cleared rate channel).calls[index]? = some ⟨channel :: rest, .checks⟩ :=
    isCall
  have moved := under_goOn isCallToo rest .checks
  refine inv.of_counts rfl rfl (fun of first past counts => ?_) fun of first counts => ?_
  · have acquires := moved .acquires of
    simp only [reduceCtorEq, false_and, if_false, Nat.add_zero] at acquires
    rw [acquires]
    exact Nat.add_le_add_right (Nat.le_of_eq (recordedSince_cleared channel of counts).symm) _
  · have sends := moved .sends of
    simp only [reduceCtorEq, false_and, if_false, Nat.add_zero] at sends
    rw [sends]
    exact inv.room of first counts

/-- A check that finds room for the send it lets through. -/
theorem Inv.allow (inv : Inv rate state)
    (isCall : state.calls[index]? = some ⟨channel :: rest, .checks⟩)
    (room : hasRoom rate state channel = true) :
    Inv rate ((state.cleared rate channel).goOn index (channel :: rest) .sends) := by
  have isCallToo : (state.cleared rate channel).calls[index]? = some ⟨channel :: rest, .checks⟩ :=
    isCall
  have moved := under_goOn isCallToo (channel :: rest) .sends
  refine inv.of_counts rfl rfl (fun of first past counts => ?_) fun of first counts => ?_
  · have acquires := moved .acquires of
    simp only [reduceCtorEq, false_and, if_false, Nat.add_zero] at acquires
    rw [acquires]
    exact Nat.add_le_add_right (Nat.le_of_eq (recordedSince_cleared channel of counts).symm) _
  · have sends := moved .sends of
    simp only [reduceCtorEq, false_and, if_false, Nat.add_zero, true_and, List.head?_cons,
      Option.some.injEq] at sends
    rw [sends]
    by_cases same : channel = of
    · -- What went out since is recorded or about to be, and the room is for one more.
      subst same
      have sent := inv.recorded channel first counts
      have kept : state.recordedSince channel first ≤
          (recent rate state.now (state.queues channel)).length := by
        rw [State.recordedSince, ← countP_recent _ counts]
        exact List.countP_le_length
      simp only [hasRoom, decide_eq_true_eq] at room
      rw [if_pos rfl]
      change state.sentSince channel first + (state.under .sends channel + 1) ≤ rate.times
      omega
    · rw [if_neg same]
      exact inv.room of first counts

/-- A send that failed or was waited for no longer. -/
theorem Inv.fail (inv : Inv rate state)
    (isCall : state.calls[index]? = some ⟨channel :: rest, .sends⟩) (channels : List Channel) :
    Inv rate (state.goOn index channels .checks) := by
  have moved := under_goOn isCall channels .checks
  refine inv.of_counts rfl rfl (fun of first past counts => ?_) fun of first counts => ?_
  · have acquires := moved .acquires of
    simp only [reduceCtorEq, false_and, if_false, Nat.add_zero] at acquires
    rw [acquires]
    exact Nat.le_refl _
  · have sends := moved .sends of
    have before := inv.room of first counts
    simp only [reduceCtorEq, false_and, if_false, Nat.add_zero] at sends
    omega

/-- A successful send is recorded, at a time that still counts. -/
theorem Inv.acquire (inv : Inv rate state)
    (isCall : state.calls[index]? = some ⟨channel :: rest, .acquires⟩) :
    Inv rate ((state.setQueue channel (PushRate.acquire state.now (state.queues channel))).goOn
      index rest .checks) := by
  have isCallToo :
      (state.setQueue channel (PushRate.acquire state.now (state.queues channel))).calls[index]? =
        some ⟨channel :: rest, .acquires⟩ := isCall
  have moved := under_goOn isCallToo rest .checks
  refine inv.of_counts rfl rfl (fun of first past counts => ?_) fun of first counts => ?_
  · have acquires := moved .acquires of
    simp only [reduceCtorEq, false_and, if_false, Nat.add_zero, true_and] at acquires
    by_cases same : channel = of
    · subst same
      have recorded : (state.setQueue channel
          (PushRate.acquire state.now (state.queues channel))).recordedSince channel first =
            state.recordedSince channel first + 1 := by
        simp [State.recordedSince, State.setQueue, PushRate.acquire, List.countP_append, past]
      rw [if_pos rfl] at acquires
      change _ ≤ State.recordedSince (state.setQueue channel _) channel first + _
      rw [recorded]
      change _ = state.under .acquires channel at acquires
      omega
    · have recorded : (state.setQueue channel
          (PushRate.acquire state.now (state.queues channel))).recordedSince of first =
            state.recordedSince of first := by
        simp only [State.recordedSince, State.setQueue, Function.update_of_ne (Ne.symm same)]
      rw [if_neg same, Nat.add_zero] at acquires
      rw [acquires]
      exact Nat.add_le_add_right (Nat.le_of_eq recorded.symm) _
  · have sends := moved .sends of
    simp only [reduceCtorEq, false_and, if_false, Nat.add_zero] at sends
    rw [sends]
    exact inv.room of first counts

theorem sentSince_goesOut (channel of : Channel) (first : Nat) :
    (state.goesOut channel).sentSince of first =
      state.sentSince of first + if channel = of ∧ first ≤ state.now then 1 else 0 := by
  simp [State.sentSince, State.goesOut, List.countP_cons]

theorem sentBetween_le_sentSince (of : Channel) (first last : Nat) :
    state.sentBetween of first last ≤ state.sentSince of first := by
  refine List.countP_mono_left fun send held counted => ?_
  simp only [Bool.and_eq_true, decide_eq_true_eq] at counted ⊢
  exact counted.1

/-- A send that goes out counts as it did while it was sent. -/
theorem Inv.goesOut (inv : Inv rate state)
    (isCall : state.calls[index]? = some ⟨channel :: rest, .sends⟩) :
    Inv rate ((state.goesOut channel).goOn index (channel :: rest) .acquires) := by
  have isCallToo : (state.goesOut channel).calls[index]? = some ⟨channel :: rest, .sends⟩ := isCall
  have moved := under_goOn isCallToo (channel :: rest) .acquires
  have since := @sentSince_goesOut state channel
  have roomAfter : ∀ of first, state.now ≤ first + rate.window →
      (state.goesOut channel).sentSince of first +
        ((state.goesOut channel).goOn index (channel :: rest) .acquires).under .sends of ≤
          rate.times := by
    intro of first counts
    have sends := moved .sends of
    have before := inv.room of first counts
    simp only [reduceCtorEq, false_and, if_false, Nat.add_zero, true_and] at sends
    change _ = state.under .sends of at sends
    rw [since]
    split <;> split at sends <;> grind
  refine ⟨fun send held => ?_, fun of first counts => ?_, roomAfter, fun of start => ?_⟩
  · rcases List.mem_cons.mp held with rfl | before
    · exact Nat.le_refl _
    · exact inv.past send before
  · have acquires := moved .acquires of
    have before := inv.recorded of first counts
    simp only [reduceCtorEq, false_and, if_false, Nat.add_zero, true_and, List.head?_cons,
      Option.some.injEq] at acquires
    rw [acquires]
    change (state.goesOut channel).sentSince of first ≤
      state.recordedSince of first + (state.under .acquires of + _)
    rw [since]
    split <;> split <;> grind
  · by_cases counted : state.now ≤ start + rate.window
    · exact (sentBetween_le_sentSince of start _).trans
        ((Nat.le_add_right _ _).trans (roomAfter of start counted))
    · have same : (state.goesOut channel).sentBetween of start (start + rate.window) =
          state.sentBetween of start (start + rate.window) := by
        simp [State.sentBetween, State.goesOut, counted]
      change (state.goesOut channel).sentBetween of _ _ ≤ _
      rw [same]
      exact inv.within_ of start

theorem Inv.initial (starts : Initial state) : Inv rate state := by
  obtain ⟨noCalls, noneSent, -⟩ := starts
  have none : ∀ of first, state.sentSince of first = 0 := by simp [State.sentSince, noneSent]
  refine ⟨by simp [noneSent], fun of first counts => ?_, fun of first counts => ?_,
    fun of start => ?_⟩
  · rw [none]
    exact Nat.zero_le _
  · simp [none, State.under, noCalls]
  · exact (sentBetween_le_sentSince of start _).trans (by rw [none]; exact Nat.zero_le _)

/-- What a call does at its first channel. -/
theorem Inv.stepCall (inv : Inv rate state) {stage : Stage} {event : Event}
    (isIndex : event.index = some index)
    (isCall : state.calls[index]? = some ⟨channel :: rest, stage⟩)
    (room : checksRoom rate state event = true)
    (leads : PushRate.stepCall rate state index channel rest stage event = some after) :
    Inv rate after := by
  unfold PushRate.stepCall at leads
  split at leads
  next isStage =>
    obtain rfl := Option.some.inj isIndex
    obtain rfl := Option.some.inj leads
    split
    next allowed =>
      refine inv.allow isCall ?_
      have allowedToo : allows rate (recent rate state.now (state.queues channel)) = true := by
        simpa [State.cleared, State.setQueue] using allowed
      simpa [checksRoom, isCall, allowedToo] using room
    next => exact inv.deny isCall
  next =>
    obtain rfl := Option.some.inj isIndex
    obtain rfl := Option.some.inj leads
    split
    next => exact inv.goesOut isCall
    next => exact inv.fail isCall rest
  next =>
    obtain rfl := Option.some.inj leads
    exact inv.fail isCall []
  next =>
    obtain rfl := Option.some.inj leads
    exact inv.acquire isCall
  next => cases leads

/-- Each step whose check finds room keeps the invariant. -/
theorem Inv.step (inv : Inv rate state) {event : Event} (room : checksRoom rate state event = true)
    (leads : next rate state event = some after) : Inv rate after := by
  unfold next at leads
  split at leads
  next elapsed =>
    obtain rfl := Option.some.inj leads
    exact inv.tick elapsed
  next names =>
    obtain rfl := Option.some.inj leads
    exact inv.pushAll _
  next =>
    obtain ⟨index, isIndex, leads⟩ := Option.bind_eq_some_iff.mp leads
    obtain ⟨⟨channels, stage⟩, isCall, leads⟩ := Option.bind_eq_some_iff.mp leads
    cases channels with
    | nil => cases leads
    | cons channel rest => exact inv.stepCall isIndex isCall room leads

end

/-- While every check finds room for the send that it lets through, no more than `times` sends
go out through one channel within any `window`. -/
theorem withinRate_of_reached {rate : Rate} {state : State}
    (reached : (pushes rate).Reached (fun state event => checksRoom rate state event = true)
      state) : WithinRate rate state :=
  (System.Reached.holds (fun _ starts => Inv.initial starts)
    (fun _ _ _ inv room leads => Inv.step inv room leads) reached).within_

/-- A monitor that has just started. -/
def started : State := ⟨0, fun _ => [], [], []⟩

theorem reached_started {rate : Rate} {Meets : State → Event → Prop} :
    (pushes rate).Reached Meets started := .initial ⟨rfl, rfl, fun _ => rfl⟩

/-- One send a minute. -/
def perMinute : Rate := ⟨1, 60⟩

/-- One call after the other. -/
def inTurn : List Event :=
  [.pushAll [['a']], .check 0, .send 0 true, .acquire 0, .tick 61, .pushAll [['a']], .check 1,
    .send 1 true]

theorem inTurn_leads :
    (System.follow (checksRoom perMinute) (next perMinute) started inTurn).isSome = true := by
  decide

theorem withinRate_inTurn :
    WithinRate perMinute ((System.follow (checksRoom perMinute) (next perMinute) started
      inTurn).get inTurn_leads) :=
  withinRate_of_reached
    (System.reached_get (checksRoom perMinute) (next perMinute) inTurn reached_started inTurn_leads)

/-- Two calls at once. -/
def atOnce : List Event :=
  [.pushAll [['a']], .pushAll [['a']], .check 0, .check 1, .send 0 true, .send 1 true]

theorem atOnce_leads :
    (System.follow (fun _ _ => true) (next perMinute) started atOnce).isSome = true := by
  decide

/-- Both are let through before either send is recorded. -/
theorem not_withinRate_atOnce :
    ∃ state, (pushes perMinute).Reachable state ∧ ¬ WithinRate perMinute state := by
  have reached := System.reached_get (fun _ _ => true) (next perMinute) atOnce reached_started
    atOnce_leads
  refine ⟨_, reached.mono fun _ _ _ => trivial, fun within_ => ?_⟩
  exact absurd (within_ (.named ['a']) 0) (by decide)

end ServerBox.Monitor.PushRate
