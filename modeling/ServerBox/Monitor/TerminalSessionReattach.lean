import ServerBox.Monitor.TerminalSession
import Mathlib.Data.Option.Basic

/-!
# What a reattaching client shows

The scrollback is the end of the shell's output, so a client that counts what it renders is
sent what it missed; its screen is the output since its last reset, as long as no connection
is lost between the `ready` of a truncated replay and the frame that says so.
-/

namespace ServerBox.Monitor.TerminalSession

open ServerBox.Std

/-! ### The scrollback -/

/-- The scrollback holds the end of all output. -/
structure Scrollback.Records (scrollback : Scrollback) (stream : Bytes) : Prop where
  counts : scrollback.nextSeq = stream.length
  holds : scrollback.buf <:+ stream

theorem Scrollback.records_push {scrollback : Scrollback} {stream : Bytes}
    (records : scrollback.Records stream) (data : Bytes) :
    (scrollback.push data).Records (stream ++ data) := by
  refine ⟨by simp [push, records.counts], ?_⟩
  unfold push
  dsimp only
  split
  next long =>
      have all : scrollback.buf.drop (scrollback.buf.length +
          (data.drop (data.length - scrollback.capacity)).length - scrollback.capacity) = [] := by
        rw [List.drop_eq_nil_iff, List.length_drop]
        omega
      rw [all, List.nil_append]
      exact (List.drop_suffix _ _).trans (List.suffix_append _ _)
  next =>
      obtain ⟨front, whole⟩ := (List.drop_suffix (scrollback.buf.length + data.length -
        scrollback.capacity) scrollback.buf).trans records.holds
      exact ⟨front, by rw [← List.append_assoc, whole]⟩

theorem Scrollback.Records.buf_eq {scrollback : Scrollback} {stream : Bytes}
    (records : scrollback.Records stream) : scrollback.buf = stream.drop scrollback.startSeq := by
  rw [startSeq, records.counts]
  exact List.suffix_iff_eq_drop.mp records.holds

theorem Scrollback.Records.startSeq_le {scrollback : Scrollback} {stream : Bytes}
    (records : scrollback.Records stream) : scrollback.startSeq ≤ stream.length := by
  rw [startSeq, records.counts]
  exact Nat.sub_le _ _

/-- A position that is still held is answered with what follows it, any other with all that
is held. -/
theorem Scrollback.Records.replayFrom_eq {scrollback : Scrollback} {stream : Bytes}
    (records : scrollback.Records stream) {since : Nat} (rendered : since ≤ stream.length) :
    scrollback.replayFrom since = .gap (stream.drop since) ∨
      scrollback.replayFrom since = .truncated (stream.drop scrollback.startSeq) := by
  unfold replayFrom
  split
  next caughtUp =>
      have all : since = stream.length := le_antisymm rendered (records.counts ▸ caughtUp)
      exact .inl (by rw [all, List.drop_length])
  next =>
      split
      next => exact .inr (by rw [records.buf_eq])
      next held =>
          have sum : scrollback.startSeq + (since - scrollback.startSeq) = since := by omega
          exact .inl (by rw [records.buf_eq, List.drop_drop, sum])

/-! ### A screen and what is on its way to it -/

/-- The screen shows the output from its last reset on. -/
def Screen.Shows (screen : Screen) (stream : Bytes) : Prop :=
  screen.start ≤ stream.length ∧ screen.shown <+: stream.drop screen.start

/-- The client's count is the end of what it shows. -/
def Screen.Aligned (screen : Screen) : Prop :=
  screen.rendered = screen.start + screen.shown.length

/-- The screen keeps showing the output through all frames in flight and all queued bytes, and
ends at the end of the output if it is `complete`. Its count is off only before the frame that
resets it. -/
def Delivers (stream queued : Bytes) (complete : Prop) : Screen → List Frame → Prop
  | screen, [] =>
      screen.Aligned ∧ screen.start ≤ stream.length ∧
        screen.shown ++ queued <+: stream.drop screen.start ∧
        (complete → screen.rendered + queued.length = stream.length)
  | screen, frame :: rest =>
      (frame = .error .gapTruncated ∨ screen.Aligned) ∧ screen.Shows stream ∧
        Delivers stream queued complete (screen.render frame) rest

section Delivers

variable {stream queued : Bytes} {complete : Prop} {screen : Screen} {wire : List Frame}

theorem Delivers.shows (delivers : Delivers stream queued complete screen wire) :
    screen.Shows stream := by
  cases wire with
  | nil => exact ⟨delivers.2.1, (List.prefix_append _ _).trans delivers.2.2.1⟩
  | cons frame rest => exact delivers.2.1

theorem Delivers.aligned (delivers : Delivers stream queued complete screen wire)
    (head : wire.head? ≠ some (.error .gapTruncated)) : screen.Aligned := by
  cases wire with
  | nil => exact delivers.1
  | cons frame rest =>
      exact delivers.1.resolve_left fun same => head (congrArg some same)

theorem Delivers.weaken {less : Prop} (weaker : less → complete)
    (delivers : Delivers stream queued complete screen wire) :
    Delivers stream queued less screen wire := by
  induction wire generalizing screen with
  | nil => exact ⟨delivers.1, delivers.2.1, delivers.2.2.1, fun holds => delivers.2.2.2 (weaker holds)⟩
  | cons frame rest inductionHypothesis =>
      exact ⟨delivers.1, delivers.2.1, inductionHypothesis delivers.2.2⟩

theorem drop_append_within {start : Nat} (added : Bytes) (within : start ≤ stream.length) :
    (stream ++ added).drop start = stream.drop start ++ added := by
  rw [List.drop_append_of_le_length within]

theorem Screen.Shows.append (shows : screen.Shows stream) (added : Bytes) :
    screen.Shows (stream ++ added) := by
  refine ⟨by rw [List.length_append]; exact shows.1.trans (Nat.le_add_right _ _), ?_⟩
  rw [drop_append_within added shows.1]
  exact shows.2.trans (List.prefix_append _ _)

/-- Output that does not come this way leaves the screen behind. -/
theorem Delivers.behind (delivers : Delivers stream queued complete screen wire) (added : Bytes) :
    Delivers (stream ++ added) queued False screen wire := by
  induction wire generalizing screen with
  | nil =>
      have shows : screen.Shows (stream ++ added) := delivers.shows.append added
      refine ⟨delivers.1, shows.1, ?_, False.elim⟩
      rw [drop_append_within added delivers.2.1]
      exact delivers.2.2.1.trans (List.prefix_append _ _)
  | cons frame rest inductionHypothesis =>
      exact ⟨delivers.1, delivers.2.1.append added, inductionHypothesis delivers.2.2⟩

/-- Output queued for a screen that had it all so far. -/
theorem Delivers.publish (delivers : Delivers stream queued True screen wire) (added : Bytes) :
    Delivers (stream ++ added) (queued ++ added) True screen wire := by
  induction wire generalizing screen with
  | nil =>
      obtain ⟨aligned, within, shown, all⟩ := delivers
      have all := all trivial
      have whole : screen.shown ++ queued = stream.drop screen.start := by
        refine shown.eq_of_length ?_
        rw [List.length_append, List.length_drop]
        unfold Screen.Aligned at aligned
        omega
      refine ⟨aligned, by simp; omega, ?_, fun _ => by simp; omega⟩
      rw [drop_append_within added within, ← List.append_assoc, whole]
  | cons frame rest inductionHypothesis =>
      exact ⟨delivers.1, delivers.2.1.append added, inductionHypothesis delivers.2.2⟩

/-- The frames that leave a screen as it is. -/
def Frame.Quiet (frame : Frame) : Prop :=
  frame ≠ .error .gapTruncated ∧ ∀ screen : Screen, screen.render frame = screen

theorem Delivers.append_quiet {frame : Frame} (quiet : frame.Quiet)
    (delivers : Delivers stream queued complete screen wire) :
    Delivers stream queued complete screen (wire ++ [frame]) := by
  induction wire generalizing screen with
  | nil =>
      refine ⟨.inr delivers.1, delivers.shows, ?_⟩
      rw [quiet.2]
      exact delivers
  | cons first rest inductionHypothesis =>
      exact ⟨delivers.1, delivers.2.1, inductionHypothesis delivers.2.2⟩

theorem Delivers.append_binary {data : Bytes}
    (delivers : Delivers stream (data ++ queued) complete screen wire) :
    Delivers stream queued complete screen (wire ++ [.binary data]) := by
  induction wire generalizing screen with
  | nil =>
      refine ⟨.inr delivers.1, delivers.shows, ?_⟩
      obtain ⟨aligned, within, shown, all⟩ := delivers
      refine ⟨?_, within, ?_, fun holds => ?_⟩
      · simp only [Screen.render, Screen.Aligned, List.length_append] at aligned ⊢
        omega
      · rw [← List.append_assoc] at shown
        exact shown
      · have all := all holds
        simp only [Screen.render, List.length_append] at all ⊢
        omega
  | cons first rest inductionHypothesis =>
      exact ⟨delivers.1, delivers.2.1, inductionHypothesis delivers.2.2⟩

end Delivers

/-- What an aligned screen misses, whole. -/
theorem delivers_payload {stream : Bytes} {screen : Screen} (aligned : screen.Aligned)
    (shows : screen.Shows stream) :
    Delivers stream [] True screen
      (if (stream.drop screen.rendered).isEmpty then [] else [.binary (stream.drop screen.rendered)]) := by
  obtain ⟨within, rest, whole⟩ := shows
  have missed : stream.drop screen.rendered = rest := by
    rw [aligned, ← List.drop_drop, ← whole, List.drop_left]
  have long : screen.start + screen.shown.length + rest.length = stream.length := by
    have length := congrArg List.length whole
    rw [List.length_append, List.length_drop] at length
    omega
  have all : Delivers stream rest True screen [] :=
    ⟨aligned, within, by rw [whole], fun _ => by rw [aligned]; exact long⟩
  rw [missed]
  split
  next empty =>
      obtain rfl := List.isEmpty_iff.mp empty
      exact all
  next =>
      have sent := all
      rw [← List.append_nil rest] at sent
      exact sent.append_binary

/-- What a client is sent first brings it to the end of the output. -/
theorem delivers_attachFrames {scrollback : Scrollback} {stream : Bytes} {screen : Screen}
    (records : scrollback.Records stream) (aligned : screen.Aligned) (shows : screen.Shows stream) :
    Delivers stream [] True screen (attachFrames screen.rendered
      (scrollback.replayFrom screen.rendered) scrollback.startSeq) := by
  have rendered : screen.rendered ≤ stream.length := by
    have short := shows.2.length_le
    rw [List.length_drop] at short
    have within := shows.1
    rw [aligned]
    omega
  rcases records.replayFrom_eq rendered with gap | truncated
  · rw [gap]
    exact ⟨.inr aligned, shows, delivers_payload aligned shows⟩
  · rw [truncated]
    refine ⟨.inr aligned, shows, .inl rfl, shows, ?_⟩
    have reset : Screen.Shows ⟨scrollback.startSeq, [], scrollback.startSeq⟩ stream :=
      ⟨records.startSeq_le, List.nil_prefix⟩
    exact @delivers_payload stream ⟨scrollback.startSeq, [], scrollback.startSeq⟩ rfl reset

/-! ### Every run -/

section Runs

variable {Client : Type}

def queuedBytes (channel : Channel Client) : Bytes := (channel.queue.map SessionOutput.bytes).flatten

/-- Whether what the shell puts out goes to a channel. -/
def Session.Feeds (session : Session Client) (key : Nat) : Prop :=
  session.attachment.replayRequested = false ∧
    session.attachment.current.map Prod.snd = some key

/-- Every screen shows the output from its last reset on, and all of it once nothing is on its
way to a client that is attached. -/
structure Seamless (state : State Client) : Prop where
  shows : ∀ client, (state.clients client).screen.Shows state.stream
  caughtUp : ∀ client key channel, (state.clients client).connection = some key →
    state.session.channels[key]? = some channel → state.session.Feeds key →
    (state.clients client).wire = [] → channel.queue = [] →
    (state.clients client).screen.start + (state.clients client).screen.shown.length =
      state.stream.length

/-- No connection is lost between the `ready` of a truncated replay and `gap_truncated`. -/
def KeepsResets (state : State Client) : Event Client → Prop
  | .drop client => (state.clients client).wire.head? ≠ some (.error .gapTruncated)
  | _ => True

structure Inv (state : State Client) : Prop where
  records : state.session.scrollback.Records state.stream
  owned : ∀ client key, (state.clients client).connection = some key →
    ∃ channel, state.session.channels[key]? = some channel ∧ channel.owner = client
  idle : ∀ client, (state.clients client).connection = none →
    (state.clients client).screen.Aligned ∧ (state.clients client).screen.Shows state.stream
  live : ∀ client key channel, (state.clients client).connection = some key →
    state.session.channels[key]? = some channel →
    Delivers state.stream (queuedBytes channel) (state.session.Feeds key)
      (state.clients client).screen (state.clients client).wire

theorem Inv.seamless {state : State Client} (inv : Inv state) : Seamless state := by
  constructor
  · intro client
    cases connected : (state.clients client).connection with
    | none => exact (inv.idle client connected).2
    | some key =>
        obtain ⟨channel, found, -⟩ := inv.owned client key connected
        exact (inv.live client key channel connected found).shows
  · intro client key channel connected found feeds arrived empty
    have delivers := inv.live client key channel connected found
    rw [arrived] at delivers
    obtain ⟨aligned, -, -, all⟩ := delivers
    have all := all feeds
    rw [aligned] at all
    simpa [queuedBytes, empty] using all

theorem inv_initial {state : State Client} (initial : Initial state) : Inv state := by
  obtain ⟨capacity, noStream, fresh, clients⟩ := initial
  refine ⟨?_, ?_, ?_, ?_⟩
  · rw [fresh, noStream]
    exact ⟨rfl, List.suffix_refl _⟩
  · simp [clients]
  · simp [clients, Screen.Aligned, Screen.Shows]
  · simp [clients]

theorem getElem?_set_of_found {channels : List (Channel Client)} {key other : Nat}
    {channel new : Channel Client} (found : channels[key]? = some channel) :
    (channels.set key new)[other]? = if key = other then some new else channels[other]? := by
  have inside : key < channels.length := (List.getElem?_eq_some_iff.mp found).1
  rw [List.getElem?_set]
  simp [inside]

theorem owned_setChannel {state : State Client} (inv : Inv state) {key : Nat}
    {channel new : Channel Client} (found : state.session.channels[key]? = some channel)
    (owner : new.owner = channel.owner) {client : Client} {other : Nat}
    (connected : (state.clients client).connection = some other) :
    ∃ held, (state.setChannel key new).session.channels[other]? = some held ∧
      held.owner = client := by
  obtain ⟨old, inside, belongs⟩ := inv.owned client other connected
  by_cases same : key = other
  · subst same
    obtain rfl := Option.some.inj (found.symm.trans inside)
    exact ⟨new, by simp [State.setChannel, getElem?_set_of_found found], owner.trans belongs⟩
  · exact ⟨old, by simp [State.setChannel, getElem?_set_of_found found, same, inside], belongs⟩

theorem inv_setChannel {state : State Client} (inv : Inv state) {key : Nat}
    {channel new : Channel Client} (found : state.session.channels[key]? = some channel)
    (owner : new.owner = channel.owner) (queued : queuedBytes new = queuedBytes channel) :
    Inv (state.setChannel key new) := by
  refine ⟨inv.records, fun client other connected => owned_setChannel inv found owner connected,
    inv.idle, fun client other held connected inside => ?_⟩
  simp only [State.setChannel, getElem?_set_of_found found] at inside
  split at inside
  next same =>
      subst same
      obtain rfl := Option.some.inj inside
      rw [queued]
      exact inv.live client key channel connected found
  next => exact inv.live client other held connected inside

theorem queuedBytes_send (channel : Channel Client) (output : SessionOutput) :
    queuedBytes (channel.send output) = queuedBytes channel ++ output.bytes := by
  simp [queuedBytes, Channel.send]

/-- What the pump sends for an output are the output's bytes. -/
theorem delivers_pumpFrames {stream queued : Bytes} {complete : Prop} {screen : Screen}
    {wire : List Frame} (output : SessionOutput)
    (delivers : Delivers stream (output.bytes ++ queued) complete screen wire) :
    Delivers stream queued complete screen (wire ++ (pumpFrames output).1) := by
  have quiet : ∀ frame : Frame, frame ≠ .error .gapTruncated →
      (∀ screen : Screen, screen.render frame = screen) → frame.Quiet := fun _ => And.intro
  cases output with
  | data data => exact delivers.append_binary
  | error message => exact delivers.append_quiet (quiet _ (by simp) fun _ => rfl)
  | exit status =>
      have sent := delivers.append_quiet (quiet (.exit status) (by simp) fun _ => rfl)
      have sent := sent.append_quiet (quiet .close (by simp) fun _ => rfl)
      rw [List.append_assoc] at sent
      exact sent
  | revoked code =>
      have sent := delivers.append_quiet (quiet (.error (.revoked code)) (by simp) fun _ => rfl)
      have sent := sent.append_quiet (quiet .close (by simp) fun _ => rfl)
      rw [List.append_assoc] at sent
      exact sent
  | replayRequired =>
      have sent := delivers.append_quiet (quiet (.error .outputLagged) (by simp) fun _ => rfl)
      have sent := sent.append_quiet (quiet .close (by simp) fun _ => rfl)
      rw [List.append_assoc] at sent
      exact sent

/-- The session without its scrollback. -/
theorem record_attachment (session : Session Client) (output : SessionOutput) :
    (session.record output).attachment = session.attachment ∧
      (session.record output).channels = session.channels := by
  cases output <;> exact ⟨rfl, rfl⟩

theorem records_record {session : Session Client} {stream : Bytes}
    (records : session.scrollback.Records stream) (output : SessionOutput) :
    (session.record output).scrollback.Records (stream ++ output.bytes) := by
  cases output with
  | data data => exact Scrollback.records_push records data
  | _ => simpa [Session.record, SessionOutput.bytes] using records

def SameQueue (old new : Channel Client) : Prop :=
  new.owner = old.owner ∧ queuedBytes new = queuedBytes old

/-- The same channels with the same bytes in their queues. -/
def SameQueues (before after : List (Channel Client)) : Prop :=
  ∀ key : Nat, Option.Rel SameQueue before[key]? after[key]?

theorem SameQueues.after {before after : List (Channel Client)} (same : SameQueues before after)
    {key : Nat} {old : Channel Client} (found : before[key]? = some old) :
    ∃ new, after[key]? = some new ∧ SameQueue old new := by
  have related := same key
  rw [found] at related
  cases inside : after[key]? with
  | none =>
      rw [inside] at related
      cases related
  | some new =>
      rw [inside] at related
      exact ⟨new, rfl, Option.rel_some_some.mp related⟩

theorem SameQueues.before {before after : List (Channel Client)} (same : SameQueues before after)
    {key : Nat} {new : Channel Client} (inside : after[key]? = some new) :
    ∃ old, before[key]? = some old ∧ SameQueue old new := by
  have related := same key
  rw [inside] at related
  cases found : before[key]? with
  | none =>
      rw [found] at related
      cases related
  | some old =>
      rw [found] at related
      exact ⟨old, rfl, Option.rel_some_some.mp related⟩

theorem sameQueues_self (channels : List (Channel Client)) : SameQueues channels channels := by
  intro key
  cases channels[key]? with
  | none => exact .none
  | some channel => exact .some ⟨rfl, rfl⟩

theorem sameQueues_modify (channels : List (Channel Client)) (key : Nat)
    {change : Channel Client → Channel Client} (owner : ∀ channel, (change channel).owner = channel.owner)
    (queued : ∀ channel, queuedBytes (change channel) = queuedBytes channel) :
    SameQueues channels (channels.modify key change) := by
  intro other
  rw [List.getElem?_modify]
  cases channels[other]? with
  | none => exact .none
  | some channel =>
      refine .some ?_
      split
      next => exact ⟨owner channel, queued channel⟩
      next => exact ⟨rfl, rfl⟩

/-- An output is queued where the session feeds, or the session feeds nowhere after. -/
theorem publish_cases (session : Session Client) (output : SessionOutput) :
    (∃ key, session.Feeds key ∧ session.publish output =
      { session.record output with
        channels := session.channels.modify key (Channel.send output) }) ∨
    ((session.publish output).scrollback = (session.record output).scrollback ∧
      SameQueues session.channels (session.publish output).channels ∧
      ∀ key, ¬ (session.publish output).Feeds key) := by
  have ⟨attachment, channels⟩ := record_attachment session output
  unfold Session.publish
  dsimp only
  rw [attachment, channels]
  split
  next requested =>
      exact .inr ⟨rfl, channels ▸ sameQueues_self _, fun key feeds => by
        rw [Session.Feeds, attachment, requested] at feeds
        exact absurd feeds.1 (by simp)⟩
  next live =>
      have live : session.attachment.replayRequested = false := by simpa using live
      split
      next none =>
          exact .inr ⟨rfl, channels ▸ sameQueues_self _, fun key feeds => by
            rw [Session.Feeds, attachment, none] at feeds
            exact absurd feeds.2 (by simp)⟩
      next id key current =>
          split
          next => exact .inl ⟨key, ⟨live, by rw [current]; rfl⟩, rfl⟩
          next =>
              exact .inr ⟨rfl, sameQueues_modify _ _ (fun _ => rfl) fun _ => rfl,
                fun key feeds => absurd feeds.1 (by simp)⟩
          next => exact .inr ⟨rfl, channels ▸ sameQueues_self _, fun key feeds => absurd feeds.2 (by simp)⟩

/-! ### Each step -/

theorem inv_session {state : State Client} (inv : Inv state) {session : Session Client}
    (scrollback : session.scrollback = state.session.scrollback)
    (same : SameQueues state.session.channels session.channels)
    (feeds : ∀ key, session.Feeds key → state.session.Feeds key) :
    Inv { state with session } := by
  refine ⟨by simpa [scrollback] using inv.records, fun client key link => ?_, inv.idle,
    fun client key channel link inside => ?_⟩
  · obtain ⟨old, found, owner⟩ := inv.owned client key link
    obtain ⟨new, inside, kept, -⟩ := same.after found
    exact ⟨new, inside, kept.trans owner⟩
  · obtain ⟨old, found, -, queued⟩ := same.before inside
    rw [queued]
    exact (inv.live client key old link found).weaken (feeds key)

/-- Publishing leaves a screen complete only where it is fed, and queues it the output there. -/
theorem inv_publish {state : State Client} (inv : Inv state) (output : SessionOutput) :
    Inv { state with
      stream := state.stream ++ output.bytes
      session := state.session.publish output } := by
  have idle : ∀ client, (state.clients client).connection = none →
      (state.clients client).screen.Aligned ∧
        (state.clients client).screen.Shows (state.stream ++ output.bytes) := fun client link =>
    have ⟨aligned, shows⟩ := inv.idle client link
    ⟨aligned, shows.append _⟩
  rcases publish_cases state.session output with ⟨key, feeds, shown⟩ | ⟨recorded, same, unfed⟩
  · rw [shown]
    have ⟨attachment, channels⟩ := record_attachment state.session output
    refine ⟨records_record inv.records output, fun client other link => ?_, idle,
      fun client other channel link inside => ?_⟩
    · obtain ⟨old, found, owner⟩ := inv.owned client other link
      refine ⟨_, by simp [List.getElem?_modify, found]; rfl, ?_⟩
      split <;> exact owner
    · simp only [List.getElem?_modify, Option.map_eq_map, Option.map_eq_some_iff] at inside
      obtain ⟨old, found, rfl⟩ := inside
      have delivers := inv.live client other old link found
      split
      next fed =>
          subst fed
          rw [queuedBytes_send]
          exact ((delivers.weaken fun _ => feeds).publish output.bytes).weaken fun _ => trivial
      next differs =>
          refine (delivers.behind output.bytes).weaken fun feedsOther => differs ?_
          have current : state.session.attachment.current.map Prod.snd = some other := by
            simpa [Session.Feeds, attachment] using feedsOther.2
          exact Option.some.inj (feeds.2.symm.trans current)
  · refine ⟨by simpa [recorded] using records_record inv.records output, fun client key link => ?_,
      idle, fun client key channel link inside => ?_⟩
    · obtain ⟨old, found, owner⟩ := inv.owned client key link
      obtain ⟨new, inside, kept, -⟩ := same.after found
      exact ⟨new, inside, kept.trans owner⟩
    · obtain ⟨old, found, -, queued⟩ := same.before inside
      rw [queued]
      exact ((inv.live client key old link found).behind output.bytes).weaken (unfed key)

theorem inv_detach {state : State Client} (inv : Inv state) (id : Nat) :
    Inv { state with session := state.session.detach id } := by
  unfold Session.detach
  split
  next =>
      split
      next =>
          exact inv_session inv rfl (sameQueues_self _) fun key feeds => absurd feeds.2 (by simp)
      next => exact inv
  next => exact inv

theorem inv_close {state : State Client} (inv : Inv state) (code : Option String) :
    Inv { state with session := state.session.close code } := by
  unfold Session.close
  dsimp only
  split
  next code _ _ =>
      split
      next =>
          refine inv_session inv rfl (sameQueues_modify _ _ (fun _ => rfl) fun channel => ?_)
            fun key feeds => absurd feeds.2 (by simp)
          rw [queuedBytes_send]
          exact List.append_nil _
      next =>
          exact inv_session inv rfl (sameQueues_self _) fun key feeds => absurd feeds.2 (by simp)
  next =>
      exact inv_session inv rfl (sameQueues_self _) fun key feeds => absurd feeds.2 (by simp)

variable [DecidableEq Client]

/-- A channel changes, and frames for what left it go to the client it belongs to. -/
theorem inv_transmit {state : State Client} (inv : Inv state) {key : Nat}
    {channel new : Channel Client} (found : state.session.channels[key]? = some channel)
    (owner : new.owner = channel.owner) (frames : List Frame)
    (delivers : ∀ (complete : Prop) (screen : Screen) (wire : List Frame),
      Delivers state.stream (queuedBytes channel) complete screen wire →
        Delivers state.stream (queuedBytes new) complete screen (wire ++ frames)) :
    Inv ((state.setChannel key new).transmit key channel.owner frames) := by
  -- The channel is its owner's or nobody's any more, so no other client is touched.
  have mine : ∀ client, (state.clients client).connection = some key → client = channel.owner := by
    intro client connected
    obtain ⟨old, inside, rfl⟩ := inv.owned client key connected
    rw [Option.some.inj (found.symm.trans inside)]
  have others : ∀ client other held, (state.clients client).connection = some other →
      key ≠ other → (state.setChannel key new).session.channels[other]? = some held →
      Delivers state.stream (queuedBytes held) (state.session.Feeds other)
        (state.clients client).screen (state.clients client).wire := by
    intro client other held connected differs inside
    simp only [State.setChannel, getElem?_set_of_found found, if_neg differs] at inside
    exact inv.live client other held connected inside
  have ownNew : (state.setChannel key new).session.channels[key]? = some new := by
    simp [State.setChannel, getElem?_set_of_found found]
  unfold State.transmit
  dsimp only
  split
  next connected =>
      have connected : (state.clients channel.owner).connection = some key := connected
      refine ⟨inv.records, fun client other link => ?_, fun client link => ?_,
        fun client other held link inside => ?_⟩
      · refine owned_setChannel inv found owner ?_
        by_cases same : client = channel.owner
        · subst same
          simpa [State.setView, State.setChannel] using link
        · simpa [State.setView, State.setChannel, same] using link
      · by_cases same : client = channel.owner
        · subst same
          simp [State.setView, State.setChannel, connected] at link
        · simp only [State.setView, State.setChannel, Function.update_of_ne same] at link ⊢
          exact inv.idle client link
      · by_cases same : client = channel.owner
        · subst same
          simp only [State.setView, State.setChannel, Function.update_self] at link ⊢
          obtain rfl := Option.some.inj (connected.symm.trans link)
          obtain rfl := Option.some.inj (ownNew.symm.trans inside)
          exact delivers _ _ _ (inv.live _ key channel connected found)
        · simp only [State.setView, State.setChannel, Function.update_of_ne same] at link ⊢
          have differs : key ≠ other := by
            rintro rfl
            exact same (mine client link)
          exact others client other held link differs inside
  next lost =>
      have lost : (state.clients channel.owner).connection ≠ some key := lost
      refine ⟨inv.records, fun client other link => owned_setChannel inv found owner link,
        inv.idle, fun client other held link inside => ?_⟩
      have differs : key ≠ other := by
        rintro rfl
        exact lost (mine client link ▸ link)
      exact others client other held link differs inside

theorem inv_setView {state : State Client} (inv : Inv state) {client : Client} {view : View}
    (owned : ∀ key, view.connection = some key → (state.clients client).connection = some key)
    (idle : view.connection = none → view.screen.Aligned ∧ view.screen.Shows state.stream)
    (live : ∀ queued complete, view.connection.isSome →
      Delivers state.stream queued complete (state.clients client).screen
        (state.clients client).wire → Delivers state.stream queued complete view.screen view.wire) :
    Inv (state.setView client view) := by
  refine ⟨inv.records, fun other key link => ?_, fun other link => ?_,
    fun other key channel link inside => ?_⟩
  all_goals
    by_cases same : other = client
  · subst same
    simp only [State.setView, Function.update_self] at link
    exact inv.owned other key (owned key link)
  · simp only [State.setView, Function.update_of_ne same] at link
    exact inv.owned other key link
  · subst same
    simp only [State.setView, Function.update_self] at link ⊢
    exact idle link
  · simp only [State.setView, Function.update_of_ne same] at link ⊢
    exact inv.idle other link
  · subst same
    simp only [State.setView, Function.update_self] at link ⊢
    exact live _ _ (by simp [link]) (inv.live other key channel (owned key link) inside)
  · simp only [State.setView, Function.update_of_ne same] at link ⊢
    exact inv.live other key channel link inside

theorem inv_attach {state : State Client} (inv : Inv state) {client : Client} {queue : Nat}
    {session : Session Client} {key startSeq : Nat} {replay : Replay}
    (idle : (state.clients client).connection = none)
    (attached : state.session.attach client (state.clients client).screen.rendered queue =
      some (session, key, replay, startSeq)) :
    Inv ({ state with session }.setView client
      { state.clients client with
        connection := some key
        wire := attachFrames (state.clients client).screen.rendered replay startSeq }) := by
  unfold Session.attach at attached
  split at attached
  next => cases attached
  next =>
      simp only [Option.some.injEq, Prod.mk.injEq] at attached
      obtain ⟨rfl, rfl, rfl, rfl⟩ := attached
      have ⟨aligned, shows⟩ := inv.idle client idle
      refine ⟨inv.records, fun other key link => ?_, fun other link => ?_,
        fun other key channel link inside => ?_⟩
      all_goals
        by_cases same : other = client
      · subst same
        simp only [State.setView, Function.update_self, Option.some.injEq] at link
        subst link
        exact ⟨_, List.getElem?_concat_length, rfl⟩
      · simp only [State.setView, Function.update_of_ne same] at link
        obtain ⟨old, found, owner⟩ := inv.owned other key link
        have within := (List.getElem?_eq_some_iff.mp found).1
        exact ⟨old, by simpa [State.setView, List.getElem?_append_left within] using found, owner⟩
      · subst same
        simp [State.setView] at link
      · simp only [State.setView, Function.update_of_ne same] at link ⊢
        exact inv.idle other link
      · subst same
        simp only [State.setView, Function.update_self, Option.some.injEq] at link ⊢
        subst link
        obtain rfl := Option.some.inj (List.getElem?_concat_length.symm.trans inside)
        exact (delivers_attachFrames inv.records aligned shows).weaken fun _ => trivial
      · simp only [State.setView, Function.update_of_ne same] at link inside ⊢
        obtain ⟨old, found, -⟩ := inv.owned other key link
        have within := (List.getElem?_eq_some_iff.mp found).1
        rw [List.getElem?_append_left within] at inside
        refine (inv.live other key channel link inside).weaken fun feeds => ?_
        have last := Option.some.inj feeds.2
        exact absurd last.symm within.ne

theorem inv_pump {state after : State Client} (inv : Inv state) {key : Nat}
    (step : next state (.pump key) = some after) : Inv after := by
  simp only [next] at step
  split at step
  next => cases step
  next channel found =>
      split at step
      next output queue receiving queued =>
          obtain rfl := Option.some.inj step
          refine inv_transmit inv found (by rfl) _ fun complete screen wire delivers =>
            delivers_pumpFrames output ?_
          rw [show queuedBytes channel = output.bytes ++ (queue.map SessionOutput.bytes).flatten by
            simp [queuedBytes, queued]] at delivers
          exact delivers
      next => cases step

theorem inv_deliver {state after : State Client} (inv : Inv state) {client : Client}
    (step : next state (.deliver client) = some after) : Inv after := by
  simp only [next] at step
  split at step
  next key rest connected arrived =>
      obtain rfl := Option.some.inj step
      obtain ⟨channel, found, -⟩ := inv.owned client key connected
      have delivers := inv.live client key channel connected found
      refine inv_setView inv (by simp) (fun _ => ⟨delivers.aligned ?_, delivers.shows⟩) (by simp)
      simp [arrived]
  next key frame rest _ connected arrived =>
      obtain rfl := Option.some.inj step
      refine inv_setView inv (fun key link => link) ?_ fun queued complete _ delivers => ?_
      · simp [connected]
      · rw [arrived] at delivers
        exact delivers.2.2
  next => cases step

theorem inv_drop {state after : State Client} (inv : Inv state) {client : Client}
    (keeps : KeepsResets state (.drop client)) (step : next state (.drop client) = some after) :
    Inv after := by
  simp only [next] at step
  split at step
  next => cases step
  next connected =>
      obtain rfl := Option.some.inj step
      obtain ⟨key, link⟩ := Option.ne_none_iff_exists'.mp connected
      obtain ⟨channel, found, -⟩ := inv.owned client key link
      have delivers := inv.live client key channel link found
      exact inv_setView inv (by simp) (fun _ => ⟨delivers.aligned keeps, delivers.shows⟩) (by simp)

theorem inv_lag {state after : State Client} (inv : Inv state) {key : Nat}
    (step : next state (.lag key) = some after) : Inv after := by
  simp only [next] at step
  split at step
  next => cases step
  next channel found =>
      split at step
      next => cases step
      next =>
          split at step
          next =>
              obtain rfl := Option.some.inj step
              refine inv_setChannel inv found rfl ?_
              exact (queuedBytes_send channel .replayRequired).trans (List.append_nil _)
          next =>
              obtain rfl := Option.some.inj step
              exact inv_setChannel inv found rfl rfl
          next => cases step

theorem inv_superseded {state after : State Client} (inv : Inv state) {key : Nat}
    (step : next state (.superseded key) = some after) : Inv after := by
  simp only [next] at step
  split at step
  next => cases step
  next channel found =>
      split at step
      next =>
          obtain rfl := Option.some.inj step
          refine inv_transmit inv found (by rfl) _ fun complete screen wire delivers => ?_
          have sent := delivers.append_quiet
            (show Frame.Quiet (.error .superseded) from ⟨by simp, fun _ => rfl⟩)
          have sent := sent.append_quiet (show Frame.Quiet .close from ⟨by simp, fun _ => rfl⟩)
          rw [List.append_assoc] at sent
          exact sent
      next => cases step

theorem inv_next {state after : State Client} {event : Event Client} (inv : Inv state)
    (keeps : KeepsResets state event) (step : next state event = some after) : Inv after := by
  cases event with
  | publish output =>
      obtain rfl := Option.some.inj step
      exact inv_publish inv output
  | attach client queue =>
      simp only [next] at step
      split at step
      next idle =>
          split at step
          next => cases step
          next attached =>
              obtain rfl := Option.some.inj step
              exact inv_attach inv idle.1 attached
      next => cases step
  | detach key =>
      simp only [next] at step
      split at step
      next => cases step
      next =>
          obtain rfl := Option.some.inj step
          exact inv_detach inv _
  | close code =>
      obtain rfl := Option.some.inj step
      exact inv_close inv code
  | pump key => exact inv_pump inv step
  | lag key => exact inv_lag inv step
  | superseded key => exact inv_superseded inv step
  | fail key =>
      simp only [next] at step
      split at step
      next => cases step
      next channel found =>
          obtain rfl := Option.some.inj step
          exact inv_setChannel inv found rfl rfl
  | deliver client => exact inv_deliver inv step
  | drop client => exact inv_drop inv keeps step

/-- In every run in which no connection is lost between the `ready` of a truncated replay and
the frame that says so, every client shows the shell's output from its last reset on. -/
theorem seamless_of_reached {state : State Client} (reached : system.Reached KeepsResets state) :
    Seamless state :=
  (reached.holds (fun _ => inv_initial) fun _ _ _ inv keeps step => inv_next inv keeps step).seamless

end Runs

/-- A shell with a scrollback of two bytes, and one client. -/
def twoBytes : State Unit := ⟨[], .new 2, fun _ => ⟨none, [], ⟨0, [], 0⟩⟩⟩

theorem reached_twoBytes (meets : State Unit → Event Unit → Prop) :
    (System.ofNext Initial next).Reached meets twoBytes :=
  .initial ⟨2, rfl, rfl, fun _ => rfl⟩

/-- The client is behind the scrollback, is sent its reset, and all arrives. -/
def outage : List (Event Unit) :=
  [.attach () 1, .publish (.data [97, 98, 99]), .pump 0, .deliver (), .drop (), .detach 0,
    .attach () 1, .deliver (), .deliver (), .deliver ()]

instance (state : State Unit) (event : Event Unit) : Decidable (KeepsResets state event) := by
  unfold KeepsResets
  split <;> infer_instance

def afterOutage : State Unit :=
  (System.follow (fun state event => Decidable.decide (KeepsResets state event)) next twoBytes
    outage).get (by decide)

theorem seamless_of_reached_outage : Seamless afterOutage :=
  seamless_of_reached <| System.Reached.mono (fun _ _ => of_decide_eq_true) <|
    System.reached_get _ next outage (reached_twoBytes _) (by decide)

/-- The connection of a truncated replay is lost when only its `ready` has arrived. -/
def lostReset : List (Event Unit) :=
  [.publish (.data [97, 98]), .attach () 1, .deliver (), .deliver (), .drop (), .detach 0,
    .publish (.data [99, 100, 101, 102]), .attach () 1, .deliver (), .drop (), .attach () 1,
    .deliver (), .deliver ()]

/-- The next replay starts at the position that `ready` gave, and the bytes before it are
missing from the screen unsaid. -/
theorem not_seamless_lostReset :
    ¬ ∀ state : State Unit, system.Reachable state → Seamless state := by
  intro seamless
  have run := System.reached_get (fun _ _ => true) next lostReset (reached_twoBytes _) (by decide)
  have shows := (seamless _ (run.mono fun _ _ _ => trivial)).shows ()
  revert shows
  unfold Screen.Shows
  decide

end ServerBox.Monitor.TerminalSession
