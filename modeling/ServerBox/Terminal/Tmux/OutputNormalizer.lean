import ServerBox.Terminal.Tmux.ControlProtocol

/-!
# The tmux output normalizer

`lib/data/terminal/tmux/tmux_output_normalizer.dart` as it runs: `feed` takes one
octet and answers the octets that come out and the notices it gives. The body of
a tmux passthrough is fed again, before the octets that follow it; `feed` hands
it back as `replay`, and `feedAll` is the loop over all of them.
-/

namespace ServerBox.Terminal.Tmux

open ServerBox.Std

/-- What a status sequence is read with: the terminal package's
`ProgramStatusReport.oscCode` and `TerminalStatusEvent.fromOsc`, and whether
`onStatus` is set. -/
structure StatusReader (Status : Type) where
  oscCode : List UInt8
  fromOsc : List Char → List (List Char) → Option Status
  listens : Bool

/-- `_ParserState`. -/
inductive ParserState where
  | data
  | escape
  | escapeIntermediate
  | csi
  | osc
  | dcs
  | sos
  | pm
  | apc
  | tmuxTitle
deriving DecidableEq, Repr

/-- What the normalizer tells beside its output: its two callbacks, and the
sequence it suppressed as a query. -/
inductive Notice (Status : Type) where
  | unknownEscape (escape : String)
  | status (event : Status)
  | query
deriving DecidableEq

def maxControlBytes : Nat := 4 * 1024

def maxPayloadBytes : Nat := 2 * 1024 * 1024

/-- The normalizer between two octets. -/
structure TmuxOutputNormalizer where
  state : ParserState := .data
  control : List UInt8 := []
  payload : List UInt8 := []
  waitingForStringTerminator : Bool := false
  overflowed : Bool := false
deriving DecidableEq, Repr

namespace TmuxOutputNormalizer

/-- What one octet does: the normalizer after it, the octets that come out, the
notices, and the octets to feed before any other. -/
structure Fed (Status : Type) where
  next : TmuxOutputNormalizer
  output : List UInt8 := []
  notices : List (Notice Status) := []
  replay : List UInt8 := []
deriving DecidableEq

/-- `reset` and `_reset`. -/
def reset : TmuxOutputNormalizer := {}

/-- `close`: what an unterminated sequence holds, and the normalizer after it. -/
def close (normalizer : TmuxOutputNormalizer) : TmuxOutputNormalizer × List UInt8 :=
  if normalizer.state = .data then (normalizer, [])
  else (reset, normalizer.control ++ normalizer.payload ++
    if normalizer.waitingForStringTerminator then [0x1b] else [])

/-! ### What is a query -/

/-- The parameters of a CSI sequence begin behind one of these. -/
def csiPrefix (byte : UInt8) : Bool := byte == 0x3e || byte == 0x3d || byte == 0x3f

/-- `_isTerminalQuery`: attributes, status, window or text size, keyboard. -/
def isTerminalQuery (sequence : List UInt8) : Bool :=
  match sequence with
  | 0x1b :: 0x5b :: first :: rest =>
      let mark := if csiPrefix first then some first else none
      let body := if csiPrefix first then rest else first :: rest
      let parameters := body.dropLast.takeWhile fun byte => 0x30 ≤ byte && byte ≤ 0x3f
      let finalByte := (first :: rest).getLast (by simp)
      let isAttributesQuery := finalByte == 0x63 && mark != some 0x3f &&
        (parameters == [] || parameters == [0x30])
      let isStatusQuery := finalByte == 0x6e && (mark == none || mark == some 0x3f) &&
        (parameters == [0x35] || parameters == [0x36])
      let firstParameter := (parameters.splitOn 0x3b).headD []
      let isWindowOrTextSizeQuery := finalByte == 0x74 && mark == none &&
        [[0x31, 0x34], [0x31, 0x36], [0x31, 0x38], [0x31, 0x39], [0x32, 0x30], [0x32, 0x31],
          [0x32, 0x32]].contains firstParameter
      let isKeyboardQuery := finalByte == 0x75 && mark == some 0x3f && parameters == []
      isAttributesQuery || isStatusQuery || isWindowOrTextSizeQuery || isKeyboardQuery
  | _ => false

/-- `_isOscQuery`: colours, the palette, and the status code itself. -/
def isOscQuery (oscCode payload : List UInt8) : Bool :=
  if payload.isEmpty then false
  else
    let separator := Latin1.indexOf? [0x3b] payload
    let code := match separator with
      | none => payload
      | some at_ => payload.take at_
    let value := match separator with
      | none => []
      | some at_ => payload.drop (at_ + 1)
    if [[0x31, 0x30], [0x31, 0x31], [0x31, 0x32]].contains code then
      value.isEmpty || Latin1.trim value == [0x3f]
    else if code == [0x34] then
      (value.splitOn 0x3b).any fun item => Latin1.trim item == [0x3f]
    else if code == oscCode then value == [0x3f]
    else false

/-- `_isDcsQuery`: XTGETTCAP and DECRQSS. -/
def isDcsQuery : List UInt8 → Bool
  | first :: second :: _ => (first == 0x2b && second == 0x71) || (first == 0x24 && second == 0x71)
  | _ => false

/-- `_takeStatus`: the status taken out of the stream. -/
def takeStatus {Status : Type} (reader : StatusReader Status) (payload : List UInt8) :
    Option Status :=
  if reader.listens then
    let fields := (TmuxControlProtocolParser.utf8Decode payload).splitOn ';'
    reader.fromOsc (fields.headD []) fields.tail
  else none

/-- `_escapeName`. -/
def escapeName (byte : UInt8) : String :=
  let hex := (Nat.toDigits 16 byte.toNat).map Char.toUpper
  String.ofList ("ESC 0x".toList ++ hex.leftpad 2 '0')

/-! ### One octet -/

section Feed

variable {Status : Type} (reader : StatusReader Status)

/-- `_feed` between two sequences. -/
def feedData (normalizer : TmuxOutputNormalizer) (byte : UInt8) : Fed Status :=
  if byte = 0x1b then
    { next := { normalizer with control := [byte], payload := [], state := .escape } }
  else { next := normalizer, output := [byte] }

/-- `_beginString`. -/
def beginString (normalizer : TmuxOutputNormalizer) (state : ParserState) :
    TmuxOutputNormalizer :=
  { normalizer with payload := [], state, waitingForStringTerminator := false }

/-- The final bytes of the two-octet escapes the terminal knows. -/
def knownEscapes : List UInt8 :=
  [0x36, 0x37, 0x38, 0x39, 0x44, 0x45, 0x48, 0x4d, 0x4e, 0x4f, 0x5a, 0x5c, 0x63, 0x3c, 0x3d, 0x3e]

/-- The string control an escape's second octet opens. -/
def stringIntroducer (byte : UInt8) : Option ParserState :=
  if byte = 0x5d then some .osc
  else if byte = 0x50 then some .dcs
  else if byte = 0x58 then some .sos
  else if byte = 0x5e then some .pm
  else if byte = 0x5f then some .apc
  else if byte = 0x6b then some .tmuxTitle
  else none

/-- `_consumeEscapeFinal`. ESC ESC is two introducers: the first comes out. -/
def consumeEscapeFinal (normalizer : TmuxOutputNormalizer) (byte : UInt8) : Fed Status :=
  if byte = 0x1b then
    { next := { normalizer with control := [byte] }, output := normalizer.control.take 1 }
  else
    let normalizer := { normalizer with control := normalizer.control ++ [byte] }
    if byte = 0x5b then { next := { normalizer with state := .csi } }
    else match stringIntroducer byte with
      | some state => { next := normalizer.beginString state }
      | none =>
          if 0x20 ≤ byte && byte ≤ 0x2f then
            { next := { normalizer with state := .escapeIntermediate } }
          else if knownEscapes.contains byte then
            { next := reset, output := normalizer.control }
          else { next := reset, notices := [.unknownEscape (escapeName byte)] }

/-- A sequence given up at an octet that cannot stand in it: what was held comes
out, and the octet is read as data. -/
def replayHeld (normalizer : TmuxOutputNormalizer) (byte : UInt8) : Fed Status :=
  let fed : Fed Status := reset.feedData byte
  { fed with output := normalizer.control ++ fed.output }

/-- `_consumeEscapeIntermediate`. -/
def consumeEscapeIntermediate (normalizer : TmuxOutputNormalizer) (byte : UInt8) : Fed Status :=
  if 0x20 ≤ byte && byte ≤ 0x2f then
    if normalizer.control.length ≥ maxControlBytes then { next := reset }
    else { next := { normalizer with control := normalizer.control ++ [byte] } }
  else if 0x30 ≤ byte && byte ≤ 0x7e then
    { next := reset, output := normalizer.control ++ [byte] }
  else normalizer.replayHeld byte

/-- The octets of a CSI sequence: parameters, intermediates, and the final one. -/
def isParameter (byte : UInt8) : Bool := 0x30 ≤ byte && byte ≤ 0x3f
def isIntermediate (byte : UInt8) : Bool := 0x20 ≤ byte && byte ≤ 0x2f
def isFinal (byte : UInt8) : Bool := 0x40 ≤ byte && byte ≤ 0x7e

/-- `_consumeCsi`. -/
def consumeCsi (normalizer : TmuxOutputNormalizer) (byte : UInt8) : Fed Status :=
  if normalizer.overflowed then
    if isFinal byte then { next := reset } else { next := normalizer }
  else if isFinal byte then
    let control :=
      if normalizer.control.length < maxControlBytes then normalizer.control ++ [byte]
      else normalizer.control
    if isTerminalQuery control then { next := reset, notices := [.query] }
    else { next := reset, output := control }
  else if !isParameter byte && !isIntermediate byte then normalizer.replayHeld byte
  else if normalizer.control.length ≥ maxControlBytes then
    { next := { normalizer with overflowed := true } }
  else { next := { normalizer with control := normalizer.control ++ [byte] } }

/-- `_appendPayload`: whether the octet fits, and the normalizer after it. -/
def appendPayload (normalizer : TmuxOutputNormalizer) (byte : UInt8) :
    Bool × TmuxOutputNormalizer :=
  if normalizer.payload.length ≥ maxPayloadBytes then
    (false, { normalizer with overflowed := true })
  else (true, { normalizer with payload := normalizer.payload ++ [byte] })

/-- `_introducerFor`; no other state is asked for one. -/
def introducerFor : ParserState → List UInt8
  | .osc => [0x1b, 0x5d]
  | .dcs => [0x1b, 0x50]
  | .sos => [0x1b, 0x58]
  | .pm => [0x1b, 0x5e]
  | .apc => [0x1b, 0x5f]
  | .tmuxTitle => [0x1b, 0x6b]
  | _ => []

/-- How a string control is ended: by BEL or by ESC \. -/
def terminator (bell : Bool) : List UInt8 := if bell then [0x07] else [0x1b, 0x5c]

/-- `tmux;`, the prefix of a passthrough. -/
def passthroughPrefix : List UInt8 := [0x74, 0x6d, 0x75, 0x78, 0x3b]

/-- tmux doubles every ESC of a passthrough: each pair is one. -/
def undoubleEscapes : List UInt8 → List UInt8
  | 0x1b :: 0x1b :: rest => 0x1b :: undoubleEscapes rest
  | byte :: rest => byte :: undoubleEscapes rest
  | [] => []

/-- `_finishDcs`. -/
def finishDcs (payload : List UInt8) : Fed Status :=
  if passthroughPrefix.isPrefixOf payload then
    { next := reset, replay := undoubleEscapes (payload.drop passthroughPrefix.length) }
  else { next := reset, output := [0x1b, 0x50] ++ payload ++ [0x1b, 0x5c] }

/-- `_finishStringControl`. A title becomes OSC 0. -/
def finishStringControl (normalizer : TmuxOutputNormalizer) (bell : Bool) : Fed Status :=
  if normalizer.overflowed then { next := reset }
  else
    let payload := normalizer.payload
    match normalizer.state with
    | .tmuxTitle =>
        { next := reset, output := [0x1b, 0x5d, 0x30, 0x3b] ++ payload ++ terminator bell }
    | .dcs =>
        if isDcsQuery payload then { next := reset, notices := [.query] } else finishDcs payload
    | .osc =>
        if isOscQuery reader.oscCode payload then { next := reset, notices := [.query] }
        else match takeStatus reader payload with
          | some event => { next := reset, notices := [.status event] }
          | none => { next := reset, output := introducerFor .osc ++ payload ++ terminator bell }
    | state => { next := reset, output := introducerFor state ++ payload ++ terminator bell }

/-- `_consumeStringControl`. An ESC that no `\` follows is kept as data. -/
def consumeStringControl (normalizer : TmuxOutputNormalizer) (byte : UInt8) : Fed Status :=
  if normalizer.waitingForStringTerminator then
    let normalizer := { normalizer with waitingForStringTerminator := false }
    if byte = 0x5c then normalizer.finishStringControl reader false
    else
      let (fits, normalizer) := normalizer.appendPayload 0x1b
      if fits then { next := (normalizer.appendPayload byte).2 } else { next := normalizer }
  else if byte = 0x07 ∧ normalizer.state ≠ .dcs then
    normalizer.finishStringControl reader true
  else if byte = 0x1b then { next := { normalizer with waitingForStringTerminator := true } }
  else { next := (normalizer.appendPayload byte).2 }

/-- `_feed`. -/
def feed (normalizer : TmuxOutputNormalizer) (byte : UInt8) : Fed Status :=
  match normalizer.state with
  | .escapeIntermediate => normalizer.consumeEscapeIntermediate byte
  | .data => normalizer.feedData byte
  | .escape => normalizer.consumeEscapeFinal byte
  | .csi => normalizer.consumeCsi byte
  | .osc | .dcs | .sos | .pm | .apc | .tmuxTitle =>
      normalizer.consumeStringControl reader byte

/-! ### All octets -/

/-- What a run of octets does. -/
structure Ran (Status : Type) where
  next : TmuxOutputNormalizer
  output : List UInt8 := []
  notices : List (Notice Status) := []
deriving DecidableEq

/-- What is still to be fed again, at most: the body held, and a pending ESC. -/
def held (normalizer : TmuxOutputNormalizer) : Nat :=
  normalizer.payload.length + if normalizer.waitingForStringTerminator then 1 else 0

theorem length_undoubleEscapes (body : List UInt8) : (undoubleEscapes body).length ≤ body.length := by
  fun_induction undoubleEscapes body with
  | case1 rest inductionHypothesis => simp only [List.length_cons]; omega
  | case2 byte rest _ inductionHypothesis => simp only [List.length_cons]; omega
  | case3 => simp

/-- A passthrough is fed again without its prefix. -/
theorem finishDcs_replay (payload : List UInt8) :
    let fed : Fed Status := finishDcs payload
    fed.next = reset ∧ fed.replay.length ≤ payload.length := by
  unfold finishDcs
  split
  · have shorter := length_undoubleEscapes (payload.drop passthroughPrefix.length)
    simp only [List.length_drop] at shorter
    exact ⟨rfl, by simp only; omega⟩
  · simp

theorem finishStringControl_replay (normalizer : TmuxOutputNormalizer) (bell : Bool) :
    let fed := normalizer.finishStringControl reader bell
    fed.next = reset ∧ fed.replay.length ≤ normalizer.payload.length := by
  unfold finishStringControl
  split
  · simp
  · cases normalizer.state with
    | dcs =>
        simp only
        split
        · simp
        · exact finishDcs_replay normalizer.payload
    | osc =>
        simp only
        split
        · simp
        · split <;> simp
    | _ => simp

/-- An octet adds at most itself to what is held, and what is fed again was held
before. -/
def Shrinks (normalizer : TmuxOutputNormalizer) (fed : Fed Status) : Prop :=
  fed.replay.length + fed.next.held ≤ normalizer.held + 1 ∧
    (fed.replay ≠ [] → fed.replay.length + fed.next.held ≤ normalizer.held)

theorem shrinks_of_quiet {normalizer : TmuxOutputNormalizer} {fed : Fed Status}
    (quiet : fed.replay = []) (bounded : fed.next.held ≤ normalizer.held + 1) :
    Shrinks normalizer fed := by
  simp [Shrinks, quiet, bounded]

@[simp] theorem held_reset : reset.held = 0 := rfl

theorem feedData_shrinks (normalizer : TmuxOutputNormalizer) (byte : UInt8) :
    Shrinks normalizer (normalizer.feedData byte : Fed Status) := by
  unfold feedData
  split
  · exact shrinks_of_quiet rfl (by simp only [held, List.length_nil]; omega)
  · exact shrinks_of_quiet rfl (Nat.le_succ _)

theorem replayHeld_shrinks (normalizer : TmuxOutputNormalizer) (byte : UInt8) :
    Shrinks normalizer (normalizer.replayHeld byte : Fed Status) := by
  unfold replayHeld feedData
  split
  · exact shrinks_of_quiet rfl (by simp [held, reset])
  · exact shrinks_of_quiet rfl (by simp)

theorem consumeEscapeFinal_shrinks (normalizer : TmuxOutputNormalizer) (byte : UInt8) :
    Shrinks normalizer (normalizer.consumeEscapeFinal byte : Fed Status) := by
  have same (state : ParserState) (control : List UInt8) :
      held { normalizer with state, control } ≤ normalizer.held + 1 := by
    simp only [held]; omega
  unfold consumeEscapeFinal
  split
  · exact shrinks_of_quiet rfl (same _ _)
  · dsimp only
    split
    · exact shrinks_of_quiet rfl (same _ _)
    · split
      · exact shrinks_of_quiet rfl (by simp [held, beginString])
      · split
        · exact shrinks_of_quiet rfl (same _ _)
        · split <;> exact shrinks_of_quiet rfl (by simp)

theorem consumeEscapeIntermediate_shrinks (normalizer : TmuxOutputNormalizer) (byte : UInt8) :
    Shrinks normalizer (normalizer.consumeEscapeIntermediate byte : Fed Status) := by
  unfold consumeEscapeIntermediate
  split
  · split
    · exact shrinks_of_quiet rfl (by simp)
    · exact shrinks_of_quiet rfl (by simp [held])
  · split
    · exact shrinks_of_quiet rfl (by simp)
    · exact replayHeld_shrinks normalizer byte

theorem consumeCsi_shrinks (normalizer : TmuxOutputNormalizer) (byte : UInt8) :
    Shrinks normalizer (normalizer.consumeCsi byte : Fed Status) := by
  unfold consumeCsi
  split
  · split <;> exact shrinks_of_quiet rfl (by simp)
  · split
    · dsimp only
      split <;> split <;> exact shrinks_of_quiet rfl (by simp)
    · split
      · exact replayHeld_shrinks normalizer byte
      · split <;> exact shrinks_of_quiet rfl (by simp [held])

theorem finishStringControl_shrinks (normalizer : TmuxOutputNormalizer) (bell : Bool)
    {before : TmuxOutputNormalizer} (same : normalizer.payload = before.payload) :
    Shrinks before (normalizer.finishStringControl reader bell) := by
  obtain ⟨atReset, shorter⟩ := finishStringControl_replay reader normalizer bell
  have bounded : normalizer.payload.length ≤ before.held := by
    rw [same, held]
    omega
  refine ⟨?_, fun _ => ?_⟩ <;> rw [atReset, held_reset] <;> omega

/-- An octet that is kept is one more. -/
theorem held_appendPayload (normalizer : TmuxOutputNormalizer) (byte : UInt8) :
    (normalizer.appendPayload byte).2.held ≤ normalizer.held + 1 := by
  unfold appendPayload
  split
  · simp [held]
  · simp only [held, List.length_append, List.length_singleton]
    omega

theorem consumeStringControl_shrinks (normalizer : TmuxOutputNormalizer) (byte : UInt8) :
    Shrinks normalizer (normalizer.consumeStringControl reader byte) := by
  unfold consumeStringControl
  split
  · rename_i waiting
    have freed : held { normalizer with waitingForStringTerminator := false } + 1 =
        normalizer.held := by
      simp [held, waiting]
    have first := held_appendPayload { normalizer with waitingForStringTerminator := false } 0x1b
    dsimp only
    split
    · exact finishStringControl_shrinks reader _ false rfl
    · split
      · have second := held_appendPayload
          ({ normalizer with waitingForStringTerminator := false }.appendPayload 0x1b).2 byte
        exact shrinks_of_quiet rfl (by dsimp only; omega)
      · exact shrinks_of_quiet rfl (by dsimp only; omega)
  · split
    · exact finishStringControl_shrinks reader _ true rfl
    · split
      · refine shrinks_of_quiet rfl ?_
        simp only [held, if_true]
        omega
      · exact shrinks_of_quiet rfl (held_appendPayload normalizer byte)

theorem feed_shrinks (normalizer : TmuxOutputNormalizer) (byte : UInt8) :
    Shrinks normalizer (normalizer.feed reader byte) := by
  unfold feed
  split
  · exact consumeEscapeIntermediate_shrinks normalizer byte
  · exact feedData_shrinks normalizer byte
  · exact consumeEscapeFinal_shrinks normalizer byte
  · exact consumeCsi_shrinks normalizer byte
  all_goals exact consumeStringControl_shrinks reader normalizer byte

/-- The octets of a chunk in order, each passthrough fed again where it ends. -/
def feedAll (normalizer : TmuxOutputNormalizer) : List UInt8 → Ran Status
  | [] => { next := normalizer }
  | byte :: rest =>
      let fed := normalizer.feed reader byte
      let later := fed.next.feedAll (fed.replay ++ rest)
      { next := later.next
        output := fed.output ++ later.output
        notices := fed.notices ++ later.notices }
termination_by data => (normalizer.held + data.length, data.length)
decreasing_by
  obtain ⟨bounded, replayed⟩ := feed_shrinks reader normalizer byte
  simp only [List.length_append, List.length_cons]
  by_cases quiet : (normalizer.feed reader byte).replay = []
  · simp only [quiet, List.length_nil, Nat.zero_add] at bounded ⊢
    rcases Nat.lt_or_eq_of_le bounded with less | equal
    · exact Prod.Lex.left _ _ (by omega)
    · have same : (normalizer.feed reader byte).next.held + rest.length =
          normalizer.held + (rest.length + 1) := by omega
      rw [same]
      exact Prod.Lex.right _ (by omega)
  · have less := replayed quiet
    exact Prod.Lex.left _ _ (by omega)

/-- `call`: one chunk. -/
def call (normalizer : TmuxOutputNormalizer) (data : List UInt8) :
    TmuxOutputNormalizer × List UInt8 :=
  let ran := normalizer.feedAll reader data
  (ran.next, ran.output)

/-- The chunks of a stream, one `call` each: the outputs of all calls. -/
def callAll (normalizer : TmuxOutputNormalizer) :
    List (List UInt8) → TmuxOutputNormalizer × List UInt8
  | [] => (normalizer, [])
  | chunk :: rest =>
      let (next, output) := normalizer.call reader chunk
      let (last, later) := next.callAll rest
      (last, output ++ later)

end Feed

end TmuxOutputNormalizer

end ServerBox.Terminal.Tmux
