import ServerBox.Std.System
import Mathlib.Data.List.Infix
import Mathlib.Logic.Function.Basic
import Mathlib.Algebra.Order.Ring.Nat

/-!
# Terminal sessions

`api/ws/session.rs` and the two ends of it in `api/ws/terminal.rs`: the scrollback, the
attachment slot, the queue of a connection with its pump, and the client that counts what it
has rendered.
-/

namespace ServerBox.Monitor.TerminalSession

open ServerBox.Std

abbrev Bytes := List UInt8

/-! ### Scrollback -/

structure Scrollback where
  buf : Bytes
  capacity : Nat
  nextSeq : Nat
deriving DecidableEq

/-- What a reattaching client should be sent. -/
inductive Replay where
  | gap (data : Bytes)
  | truncated (data : Bytes)
deriving DecidableEq

namespace Scrollback

def new (capacity : Nat) : Scrollback := ⟨[], capacity, 0⟩

def push (scrollback : Scrollback) (data : Bytes) : Scrollback :=
  -- Of a single write larger than the buffer only the tail is kept.
  let kept :=
    if data.length > scrollback.capacity then data.drop (data.length - scrollback.capacity)
    else data
  let overflow := scrollback.buf.length + kept.length - scrollback.capacity
  { scrollback with
    nextSeq := scrollback.nextSeq + data.length
    buf := scrollback.buf.drop overflow ++ kept }

def startSeq (scrollback : Scrollback) : Nat := scrollback.nextSeq - scrollback.buf.length

def replayFrom (scrollback : Scrollback) (since : Nat) : Replay :=
  if since ≥ scrollback.nextSeq then .gap []
  else if since < scrollback.startSeq then .truncated scrollback.buf
  else .gap (scrollback.buf.drop (since - scrollback.startSeq))

end Scrollback

/-! ### The attachment -/

/-- What a session pushes towards the attached client. -/
inductive SessionOutput where
  | data (bytes : Bytes)
  | exit (status : Option Nat)
  | error (message : String)
  | revoked (code : String)
  | replayRequired
deriving DecidableEq

/-- The queue between a session and the connection that attached. -/
structure Channel (Client : Type) where
  owner : Client
  id : Nat
  capacity : Nat
  queue : List SessionOutput
  /-- Whether the pump still holds the receiver. -/
  receiving : Bool
  /-- Whether a task waits for room to queue `replayRequired`. -/
  lagging : Bool
deriving DecidableEq

structure AttachmentState where
  nextId : Nat
  /-- The attachment's id and its channel. -/
  current : Option (Nat × Nat)
  closed : Bool
  replayRequested : Bool
deriving DecidableEq

structure Session (Client : Type) where
  scrollback : Scrollback
  attachment : AttachmentState
  /-- The channels of all attachments so far. -/
  channels : List (Channel Client)
deriving DecidableEq

inductive TrySend where
  | ok
  | full
  | closed
deriving DecidableEq

section

variable {Client : Type}

/-- `try_send` on the sender of a channel. -/
def Channel.trySend (channel : Channel Client) : TrySend :=
  if !channel.receiving then .closed
  else if channel.queue.length < channel.capacity then .ok
  else .full

def Channel.send (output : SessionOutput) (channel : Channel Client) : Channel Client :=
  { channel with queue := channel.queue ++ [output] }

namespace Session

def new (scrollbackBytes : Nat) : Session Client :=
  ⟨.new scrollbackBytes, ⟨0, none, false, false⟩, []⟩

def record (session : Session Client) (output : SessionOutput) : Session Client :=
  match output with
  | .data data => { session with scrollback := session.scrollback.push data }
  | _ => session

/-- `publish`: to the scrollback always, and to whoever is attached. -/
def publish (session : Session Client) (output : SessionOutput) : Session Client :=
  let session := session.record output
  if session.attachment.replayRequested then session
  else
    match session.attachment.current with
    | none => session
    | some (_, channel) =>
        match (session.channels[channel]?).elim .closed Channel.trySend with
        | .ok => { session with channels := session.channels.modify channel (Channel.send output) }
        | .full =>
            { session with
              attachment := { session.attachment with replayRequested := true }
              channels := session.channels.modify channel fun old => { old with lagging := true } }
        | .closed => { session with attachment := { session.attachment with current := none } }

/-- `attach`: the replay is read and the sender installed in one step. -/
def attach (session : Session Client) (client : Client) (since queue : Nat) :
    Option (Session Client × Nat × Replay × Nat) :=
  if session.attachment.closed then none
  else
    let channel := session.channels.length
    let id := session.attachment.nextId
    some (
      { session with
        attachment := {
          session.attachment with
          nextId := (id + 1) % 2 ^ 64
          current := some (id, channel)
          replayRequested := false }
        channels := session.channels ++ [⟨client, id, queue, [], true, false⟩] },
      channel, session.scrollback.replayFrom since, session.scrollback.startSeq)

def detach (session : Session Client) (id : Nat) : Session Client :=
  match session.attachment.current with
  | some (current, _) =>
      if current = id then { session with attachment := { session.attachment with current := none } }
      else session
  | none => session

/-- `close`, with the `revoked` that `end` then tries to send. -/
def close (session : Session Client) (code : Option String) : Session Client :=
  let closed := { session.attachment with closed := true, current := none }
  match session.attachment.current, code with
  | some (_, channel), some code =>
      match (session.channels[channel]?).elim .closed Channel.trySend with
      | .ok =>
          { session with
            attachment := closed
            channels := session.channels.modify channel (Channel.send (.revoked code)) }
      | _ => { session with attachment := closed }
  | _, _ => { session with attachment := closed }

end Session

end

/-! ### The connection -/

inductive ErrorCode where
  | gapTruncated
  | sshError (message : String)
  | revoked (code : String)
  | outputLagged
  | superseded
deriving DecidableEq

/-- What a connection sends to its client. -/
inductive Frame where
  | ready (since : Nat)
  | binary (data : Bytes)
  | error (code : ErrorCode)
  | exit (status : Option Nat)
  | close
deriving DecidableEq

/-- The frames of `attach` in `terminal.rs`, before the pump's. -/
def attachFrames (since : Nat) (replay : Replay) (startSeq : Nat) : List Frame :=
  match replay with
  | .gap payload => .ready since :: (if payload.isEmpty then [] else [.binary payload])
  | .truncated payload =>
      .ready startSeq :: .error .gapTruncated :: (if payload.isEmpty then [] else [.binary payload])

/-- What `pump_output` sends for an output, and whether it goes on. -/
def pumpFrames : SessionOutput → List Frame × Bool
  | .data data => ([.binary data], true)
  | .error message => ([.error (.sshError message)], true)
  | .exit status => ([.exit status, .close], false)
  | .revoked code => ([.error (.revoked code), .close], false)
  | .replayRequired => ([.error .outputLagged, .close], false)

/-- What a client has on its screen. -/
structure Screen where
  /-- The position it will reattach at. -/
  rendered : Nat
  /-- What it shows since the last reset. -/
  shown : Bytes
  /-- The position it had then. -/
  start : Nat
deriving DecidableEq

/-- A client renders what it is sent, counts it from where `ready` says, and resets its screen
when it is told that output was lost. -/
def Screen.render (screen : Screen) : Frame → Screen
  | .ready since => { screen with rendered := since }
  | .binary data =>
      { screen with rendered := screen.rendered + data.length, shown := screen.shown ++ data }
  | .error .gapTruncated => { screen with shown := [], start := screen.rendered }
  | _ => screen

/-- A client: its screen, and its connection by the channel with the frames in flight. -/
structure View where
  connection : Option Nat
  wire : List Frame
  screen : Screen
deriving DecidableEq

/-! ### The steps -/

structure State (Client : Type) where
  /-- All that the shell has put out. -/
  stream : Bytes
  session : Session Client
  clients : Client → View

inductive Event (Client : Type) where
  | publish (output : SessionOutput)
  | attach (client : Client) (queue : Nat)
  | detach (channel : Nat)
  | close (code : Option String)
  | pump (channel : Nat)
  | lag (channel : Nat)
  | superseded (channel : Nat)
  | fail (channel : Nat)
  | deliver (client : Client)
  | drop (client : Client)

def SessionOutput.bytes : SessionOutput → Bytes
  | .data pushed => pushed
  | _ => []

section

variable {Client : Type} [DecidableEq Client]

def State.setChannel (state : State Client) (key : Nat) (channel : Channel Client) : State Client :=
  { state with session := { state.session with channels := state.session.channels.set key channel } }

def State.setView (state : State Client) (client : Client) (view : View) : State Client :=
  { state with clients := Function.update state.clients client view }

/-- Frames go to the client while the connection is its own. -/
def State.transmit (state : State Client) (key : Nat) (owner : Client) (frames : List Frame) :
    State Client :=
  let view := state.clients owner
  if view.connection = some key then
    state.setView owner { view with wire := view.wire ++ frames }
  else state

def next (state : State Client) : Event Client → Option (State Client)
  | .publish output =>
      some { state with
        stream := state.stream ++ output.bytes
        session := state.session.publish output }
  | .attach client queue =>
      let view := state.clients client
      if view.connection = none ∧ 0 < queue then
        match state.session.attach client view.screen.rendered queue with
        | none => none
        | some (session, key, replay, startSeq) =>
            some ({ state with session }.setView client
              { view with
                connection := some key
                wire := attachFrames view.screen.rendered replay startSeq })
      else none
  | .detach key =>
      match state.session.channels[key]? with
      | none => none
      | some channel => some { state with session := state.session.detach channel.id }
  | .close code => some { state with session := state.session.close code }
  | .pump key =>
      match state.session.channels[key]? with
      | none => none
      | some channel =>
          match channel.receiving, channel.queue with
          | true, output :: queue =>
              let (frames, receiving) := pumpFrames output
              some ((state.setChannel key { channel with queue, receiving }).transmit key
                channel.owner frames)
          | _, _ => none
  | .lag key =>
      match state.session.channels[key]? with
      | none => none
      | some channel =>
          -- The marker waits for a place, or for a receiver that is gone.
          if !channel.lagging then none
          else
            match channel.trySend with
            | .ok => some (state.setChannel key { channel.send .replayRequired with lagging := false })
            | .closed => some (state.setChannel key { channel with lagging := false })
            | .full => none
  | .superseded key =>
      match state.session.channels[key]? with
      | none => none
      | some channel =>
          if channel.receiving ∧ channel.queue = [] ∧ channel.lagging = false ∧
              state.session.attachment.current.map Prod.snd ≠ some key then
            some ((state.setChannel key { channel with receiving := false }).transmit key
              channel.owner [.error .superseded, .close])
          else none
  | .fail key =>
      match state.session.channels[key]? with
      | none => none
      | some channel => some (state.setChannel key { channel with receiving := false })
  | .deliver client =>
      let view := state.clients client
      match view.connection, view.wire with
      | some _, .close :: _ => some (state.setView client { view with connection := none, wire := [] })
      | some _, frame :: rest =>
          some (state.setView client { view with wire := rest, screen := view.screen.render frame })
      | _, _ => none
  | .drop client =>
      let view := state.clients client
      if view.connection = none then none
      else some (state.setView client { view with connection := none, wire := [] })

/-- A shell is started, and no client has seen anything of it. -/
def Initial (state : State Client) : Prop :=
  ∃ scrollbackBytes, state.stream = [] ∧ state.session = .new scrollbackBytes ∧
    ∀ client, state.clients client = ⟨none, [], ⟨0, [], 0⟩⟩

def system : System (State Client) (Event Client) := .ofNext Initial next

end

end ServerBox.Monitor.TerminalSession
