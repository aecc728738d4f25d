import ServerBox.Std.Latin1
import ServerBox.Std.Utf8

/-!
# The tmux control-mode parser

`lib/data/terminal/tmux/tmux_control_protocol.dart` as it runs: the parser is a
state, `push` feeds it one chunk and answers the events of that chunk, or the
size limit it ran into. A line is kept as its octets, which are also the Latin-1
string the protocol's framing is parsed from.
-/

namespace ServerBox.Terminal.Tmux

open ServerBox.Std

/-- `_isValidTmuxId`: the prefix, then one digit or more. -/
def isValidTmuxId (value : List UInt8) (mark : UInt8) : Bool :=
  match value with
  | [] => false
  | first :: digits => first == mark && !digits.isEmpty && digits.all fun d => 0x30 ≤ d && d ≤ 0x39

/-- A tmux pane id, `%` and digits: there is none that was not checked. -/
abbrev TmuxPaneId := {value : List UInt8 // isValidTmuxId value 0x25 = true}

/-- `TmuxPaneId.tryParse`. -/
def TmuxPaneId.tryParse (value : List UInt8) : Option TmuxPaneId :=
  if valid : isValidTmuxId value 0x25 = true then some ⟨value, valid⟩ else none

/-- An event decoded from a `tmux -CC` stream. A name and its arguments are
Latin-1 strings; a command's lines are decoded from UTF-8. -/
inductive TmuxControlProtocolEvent where
  | commandResult (lines : List (List Char)) (error : Bool)
  | output (paneId : TmuxPaneId) (data : List UInt8)
  | notification (name : List UInt8) (args : List (List UInt8))
deriving DecidableEq

/-- The size limit a stream ran into: `TmuxControlProtocolOverflow`. -/
inductive TmuxControlProtocolOverflow where
  | line
  | commandBlock
deriving DecidableEq

/-- An open block: the guard it began with, and its lines so far. -/
structure CommandBlock where
  time : List UInt8
  number : List UInt8
  flags : List UInt8
  lines : List (List Char)
deriving DecidableEq

/-- `ESC P 1 0 0 0 p`. -/
def handshake : List UInt8 := [0x1b, 0x50, 0x31, 0x30, 0x30, 0x30, 0x70]

def maxLineBytes : Nat := 64 * 1024

def maxBlockBytes : Nat := 1024 * 1024

/-- The parser between two octets. -/
structure TmuxControlProtocolParser where
  line : List UInt8 := []
  handshakeIndex : Nat := 0
  blockBytes : Nat := 0
  handshakeSeen : Bool := false
  escaped : Bool := false
  terminated : Bool := false
  block : Option CommandBlock := none
deriving DecidableEq

namespace TmuxControlProtocolParser

/-- What one step answers: the parser after it and the events it added. -/
abbrev Answer := Except TmuxControlProtocolOverflow
  (TmuxControlProtocolParser × List TmuxControlProtocolEvent)

/-- `_consumeHandshakeByte`: a mismatch restarts the match, at this octet when
it is ESC. -/
def consumeHandshakeByte (parser : TmuxControlProtocolParser) (byte : UInt8) :
    TmuxControlProtocolParser :=
  if handshake[parser.handshakeIndex]? = some byte then
    if parser.handshakeIndex + 1 = handshake.length then
      { parser with handshakeSeen := true, handshakeIndex := 0 }
    else { parser with handshakeIndex := parser.handshakeIndex + 1 }
  else { parser with handshakeIndex := if byte = 0x1b then 1 else 0 }

/-- `_appendLineByte`. -/
def appendLineByte (parser : TmuxControlProtocolParser) (byte : UInt8) :
    Except TmuxControlProtocolOverflow TmuxControlProtocolParser :=
  if parser.line.length ≥ maxLineBytes then .error .line
  else .ok { parser with line := parser.line ++ [byte] }

/-- `_parseGuard`: the three words after `mark`, read with white space trimmed. -/
def parseGuard (line mark : List UInt8) : Option (List UInt8 × List UInt8 × List UInt8) :=
  if mark.isPrefixOf line then
    match (Latin1.trim (line.drop mark.length)).splitOn 0x20 with
    | [time, number, flags] => some (time, number, flags)
    | _ => none
  else none

/-- `%begin`, `%end` and `%error`. -/
def beginMark : List UInt8 := [0x25, 0x62, 0x65, 0x67, 0x69, 0x6e]
def endMark : List UInt8 := [0x25, 0x65, 0x6e, 0x64]
def errorMark : List UInt8 := [0x25, 0x65, 0x72, 0x72, 0x6f, 0x72]

/-- `_isGuardFor`. -/
def isGuardFor (parsed : Option (List UInt8 × List UInt8 × List UInt8)) (block : CommandBlock) :
    Bool :=
  parsed == some (block.time, block.number, block.flags)

/-- `utf8.decode(bytes, allowMalformed: true)`: the codec takes off a byte order
mark at the start of what it decodes. -/
def utf8Decode (bytes : List UInt8) : List Char :=
  if [0xef, 0xbb, 0xbf].isPrefixOf bytes then Utf8.decode (bytes.drop 3) else Utf8.decode bytes

/-- One octet's octal digit, from `0` to `7`. -/
def octalDigit (byte : UInt8) : Option Nat :=
  if 0x30 ≤ byte.toNat ∧ byte.toNat ≤ 0x37 then some (byte.toNat - 0x30) else none

/-- The octet three octal digits write, when they write one. -/
def octalValue (first second third : UInt8) : Option UInt8 :=
  match octalDigit first, octalDigit second, octalDigit third with
  | some a, some b, some c =>
      if (a * 8 + b) * 8 + c ≤ 0xff then some (UInt8.ofNat ((a * 8 + b) * 8 + c)) else none
  | _, _, _ => none

/-- `decodeOutputValue`: a backslash and three octal digits are one octet; any
other backslash is passed through. -/
def decodeOutputValue : List UInt8 → List UInt8
  | 0x5c :: first :: second :: third :: rest =>
      match octalValue first second third with
      | some value => value :: decodeOutputValue rest
      | none => 0x5c :: decodeOutputValue (first :: second :: third :: rest)
  | byte :: rest => byte :: decodeOutputValue rest
  | [] => []

/-- `_parseOutputLine`. The places are those of the whole line. -/
def parseOutputLine (line : List UInt8) (extended : Bool) : Option TmuxControlProtocolEvent := do
  let firstSpace ← Latin1.indexOf? [0x20] line
  let afterFirst := line.drop (firstSpace + 1)
  let idLength ← Latin1.indexOf? [0x20] afterFirst
  let paneId ← TmuxPaneId.tryParse (afterFirst.take idLength)
  let afterSecond := afterFirst.drop (idLength + 1)
  if extended then
    -- The colon is an argument of its own; arguments before it are passed over.
    let colon ← Latin1.indexOf? [0x20, 0x3a, 0x20] afterSecond
    some (.output paneId (decodeOutputValue (afterSecond.drop (colon + 3))))
  else some (.output paneId (decodeOutputValue afterSecond))

/-- `output` and `extended-output`. -/
def outputName : List UInt8 := [0x6f, 0x75, 0x74, 0x70, 0x75, 0x74]
def extendedOutputName : List UInt8 :=
  [0x65, 0x78, 0x74, 0x65, 0x6e, 0x64, 0x65, 0x64, 0x2d, 0x6f, 0x75, 0x74, 0x70, 0x75, 0x74]

/-- `_parseLine` inside a block: its own guard ends it, any other line is its
output. -/
def parseBlockLine (parser : TmuxControlProtocolParser) (block : CommandBlock)
    (line : List UInt8) : TmuxControlProtocolParser × List TmuxControlProtocolEvent :=
  if isGuardFor (parseGuard line endMark) block then
    ({ parser with block := none, blockBytes := 0 }, [.commandResult block.lines false])
  else if isGuardFor (parseGuard line errorMark) block then
    ({ parser with block := none, blockBytes := 0 }, [.commandResult block.lines true])
  else ({ parser with block := some { block with lines := block.lines ++ [utf8Decode line] } }, [])

/-- `_parseLine` outside a block. -/
def parseTopLine (parser : TmuxControlProtocolParser) (line : List UInt8) :
    TmuxControlProtocolParser × List TmuxControlProtocolEvent :=
  match parseGuard line beginMark with
  | some (time, number, flags) =>
      ({ parser with block := some ⟨time, number, flags, []⟩, blockBytes := 0 }, [])
  | none =>
      if line.head? ≠ some 0x25 then (parser, [])
      else
        let firstSpace := Latin1.indexOf? [0x20] line
        let name := (line.take (firstSpace.getD line.length)).drop 1
        if name = outputName then (parser, (parseOutputLine line false).toList)
        else if name = extendedOutputName then (parser, (parseOutputLine line true).toList)
        else
          let args := match firstSpace with
            | none => []
            | some space => (line.drop (space + 1)).splitOn 0x20
          (parser, [.notification name args])

/-- `_parseLine`. -/
def parseLine (parser : TmuxControlProtocolParser) (line : List UInt8) :
    TmuxControlProtocolParser × List TmuxControlProtocolEvent :=
  match parser.block with
  | some block => parser.parseBlockLine block line
  | none => parser.parseTopLine line

/-- The line's octets and its line feed, counted against the open block. -/
def countBlock (parser : TmuxControlProtocolParser) (lineLength : Nat) :
    Except TmuxControlProtocolOverflow TmuxControlProtocolParser :=
  match parser.block with
  | none => .ok parser
  | some _ =>
      if parser.blockBytes + lineLength + 1 > maxBlockBytes then .error .commandBlock
      else .ok { parser with blockBytes := parser.blockBytes + lineLength + 1 }

/-- A blank line: output of the open block, passed over outside one. -/
def addBlank (parser : TmuxControlProtocolParser) : TmuxControlProtocolParser :=
  { parser with block := parser.block.map fun block => { block with lines := block.lines ++ [[]] } }

/-- A line without the carriage return it may end in. -/
def stripReturn (line : List UInt8) : List UInt8 :=
  if line.getLast? = some 0x0d then line.dropLast else line

/-- `_flushLine`. -/
def flushLine (parser : TmuxControlProtocolParser) : Answer := do
  let line := stripReturn parser.line
  let counted ← { parser with line := [] }.countBlock parser.line.length
  if line.isEmpty then .ok (counted.addBlank, []) else .ok (counted.parseLine line)

/-- The body of `push`'s loop. A terminated parser passes over the rest of the
chunk, where the source leaves the loop. -/
def pushByte (parser : TmuxControlProtocolParser) (byte : UInt8) : Answer :=
  if !parser.handshakeSeen then .ok (parser.consumeHandshakeByte byte, [])
  else if parser.terminated then .ok (parser, [])
  else if parser.escaped then
    let parser := { parser with escaped := false }
    if parser.block.isNone && byte == 0x5c then do
      -- Outside a block ESC \ is the sequence that ends the stream.
      let (parser, events) ← parser.flushLine
      .ok ({ parser with terminated := true }, events)
    else do
      let parser ← parser.appendLineByte 0x1b
      if byte = 0x0a then parser.flushLine
      else if byte = 0x1b then .ok ({ parser with escaped := true }, [])
      else .ok (← parser.appendLineByte byte, [])
  else if byte = 0x1b then .ok ({ parser with escaped := true }, [])
  else if byte = 0x0a then parser.flushLine
  else do .ok (← parser.appendLineByte byte, [])

/-- `push`: one chunk, and every complete event in it. -/
def push (parser : TmuxControlProtocolParser) : List UInt8 → Answer
  | [] => .ok (parser, [])
  | byte :: rest => do
      let (parser, events) ← parser.pushByte byte
      let (parser, later) ← parser.push rest
      .ok (parser, events ++ later)

/-- The chunks of a stream, one `push` call each: the events of all calls. -/
def pushAll (parser : TmuxControlProtocolParser) : List (List UInt8) → Answer
  | [] => .ok (parser, [])
  | chunk :: rest => do
      let (parser, events) ← parser.push chunk
      let (parser, later) ← parser.pushAll rest
      .ok (parser, events ++ later)

/-- `close`: the line of a stream that ended without its terminator. -/
def close (parser : TmuxControlProtocolParser) : Answer :=
  if parser.handshakeSeen && !parser.terminated && !parser.line.isEmpty then parser.flushLine
  else .ok (parser, [])

end TmuxControlProtocolParser

end ServerBox.Terminal.Tmux
