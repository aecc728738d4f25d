import Mathlib.Tactic.IntervalCases
import ServerBox.Terminal.Tmux.ControlProtocol

/-!
# The parser on whole lines

However a stream is cut, its chunks are one stream (`pushAll_eq_push`), and the
octets of a line up to its line feed are one `flushLine` (`push_line`). Between
them the parser holds what it read of the line and whether an ESC is still kept
back; `Reading` says both at once by the octets read, so that one step of it is
one octet.
-/

namespace ServerBox.Terminal.Tmux.TmuxControlProtocolParser

open ServerBox.Std

/-- The next answer, with the events so far before its own. -/
def Answer.andThen (answer : Answer) (next : TmuxControlProtocolParser → Answer) : Answer := do
  let (parser, events) ← answer
  let (parser, later) ← next parser
  .ok (parser, events ++ later)

@[simp] theorem Answer.ok_andThen (parser : TmuxControlProtocolParser)
    (events : List TmuxControlProtocolEvent) (next : TmuxControlProtocolParser → Answer) :
    Answer.andThen (.ok (parser, events)) next =
      (next parser).map fun answer => (answer.1, events ++ answer.2) := by
  unfold Answer.andThen
  cases found : next parser with
  | error overflow => simp [bind, Except.bind, found, Except.map]
  | ok answer => simp [bind, Except.bind, found, Except.map]

@[simp] theorem Answer.error_andThen (overflow : TmuxControlProtocolOverflow)
    (next : TmuxControlProtocolParser → Answer) :
    Answer.andThen (.error overflow) next = .error overflow := rfl

theorem push_nil (parser : TmuxControlProtocolParser) : parser.push [] = .ok (parser, []) := rfl

theorem push_cons (parser : TmuxControlProtocolParser) (byte : UInt8) (rest : List UInt8) :
    parser.push (byte :: rest) = (parser.pushByte byte).andThen (push · rest) := rfl

/-- Feeding two runs of octets is feeding one after the other. -/
theorem push_append (parser : TmuxControlProtocolParser) (first second : List UInt8) :
    parser.push (first ++ second) = (parser.push first).andThen (push · second) := by
  induction first generalizing parser with
  | nil =>
      rw [List.nil_append, push_nil, Answer.ok_andThen]
      cases parser.push second <;> simp [Except.map]
  | cons byte rest inductionHypothesis =>
      rw [List.cons_append, push_cons, push_cons]
      cases step : parser.pushByte byte with
      | error overflow => simp
      | ok answer =>
          obtain ⟨next, events⟩ := answer
          simp only [Answer.ok_andThen, inductionHypothesis]
          cases further : next.push rest with
          | error overflow => simp [Except.map]
          | ok answer =>
              obtain ⟨last, later⟩ := answer
              simp only [Except.map, Answer.ok_andThen]
              cases last.push second <;> simp

/-- The chunks of a stream are fed as the stream is, wherever it is cut. -/
theorem pushAll_eq_push (parser : TmuxControlProtocolParser) (chunks : List (List UInt8)) :
    parser.pushAll chunks = parser.push chunks.flatten := by
  induction chunks generalizing parser with
  | nil => rfl
  | cons chunk rest inductionHypothesis =>
      rw [List.flatten_cons, push_append]
      simp only [← inductionHypothesis]
      rfl

/-- The parser at the start of a line, the handshake behind it. -/
def atLine (block : Option CommandBlock) (blockBytes : Nat) : TmuxControlProtocolParser :=
  { handshakeSeen := true, block, blockBytes }

/-- The parser inside a line of which it read `octets`: an ESC is kept back
until the octet after it is seen. -/
inductive Reading (block : Option CommandBlock) (blockBytes : Nat) :
    List UInt8 → TmuxControlProtocolParser → Prop where
  | plain (line : List UInt8) :
      Reading block blockBytes line { atLine block blockBytes with line }
  | escape (line : List UInt8) :
      Reading block blockBytes (line ++ [0x1b])
        { atLine block blockBytes with line, escaped := true }

/-- Nothing of a line is read at its start. -/
theorem reading_start (block : Option CommandBlock) (blockBytes : Nat) :
    Reading block blockBytes [] (atLine block blockBytes) :=
  .plain []

/-- One octet of a line, within the limit: no event, and the octet is read. An
ESC outside a block is left out, where ESC \ ends the stream. -/
theorem reading_step {block : Option CommandBlock} {blockBytes : Nat} {octets : List UInt8}
    {parser : TmuxControlProtocolParser} {byte : UInt8}
    (reading : Reading block blockBytes octets parser) (notFeed : byte ≠ 0x0a)
    (inBlock : block.isSome ∨ (0x1b ∉ octets ∧ byte ≠ 0x1b))
    (fits : octets.length + 1 ≤ maxLineBytes) :
    ∃ next, parser.pushByte byte = .ok (next, []) ∧
      Reading block blockBytes (octets ++ [byte]) next := by
  cases reading with
  | plain =>
      by_cases isEscape : byte = 0x1b
      · subst isEscape
        exact ⟨_, by simp [pushByte, atLine], .escape octets⟩
      · refine ⟨{ atLine block blockBytes with line := octets ++ [byte] }, ?_, .plain _⟩
        have room : ¬ octets.length ≥ maxLineBytes := by omega
        simp [pushByte, atLine, isEscape, notFeed, appendLineByte, room, bind, Except.bind]
  | escape line =>
      have open_ : block.isSome := by
        rcases inBlock with isOpen | ⟨noEscape, _⟩
        · exact isOpen
        · exact absurd (by simp) noEscape
      have notNone : block.isNone = false := by
        cases block with
        | none => simp at open_
        | some _ => rfl
      simp only [List.length_append, List.length_singleton] at fits
      have room : ¬ line.length ≥ maxLineBytes := by omega
      have roomAfter : ¬ line.length + 1 ≥ maxLineBytes := by omega
      by_cases isEscape : byte = 0x1b
      · subst isEscape
        exact ⟨_, by simp [pushByte, atLine, notNone, appendLineByte, room, bind, Except.bind],
          .escape (line ++ [0x1b])⟩
      · refine ⟨{ atLine block blockBytes with line := line ++ [0x1b] ++ [byte] }, ?_, .plain _⟩
        simp [pushByte, atLine, notNone, isEscape, notFeed, appendLineByte, room, roomAfter,
          bind, Except.bind]

/-- The octets of a line, within the limit. -/
theorem reading_run {block : Option CommandBlock} {blockBytes : Nat} {octets line : List UInt8}
    {parser : TmuxControlProtocolParser} (reading : Reading block blockBytes octets parser)
    (noFeed : 0x0a ∉ line) (inBlock : block.isSome ∨ 0x1b ∉ octets ++ line)
    (fits : (octets ++ line).length ≤ maxLineBytes) :
    ∃ next, parser.push line = .ok (next, []) ∧ Reading block blockBytes (octets ++ line) next := by
  induction line generalizing octets parser with
  | nil => exact ⟨parser, push_nil parser, by simpa using reading⟩
  | cons byte rest inductionHypothesis =>
      have split : octets ++ byte :: rest = octets ++ [byte] ++ rest := by simp
      rw [split] at inBlock fits ⊢
      have stepBlock : block.isSome ∨ (0x1b ∉ octets ∧ byte ≠ 0x1b) := by
        rcases inBlock with isOpen | noEscape
        · exact .inl isOpen
        · refine .inr ⟨fun member => noEscape (by simp [member]), fun equal => noEscape ?_⟩
          simp [equal]
      obtain ⟨middle, stepEq, stepReading⟩ := reading_step reading
        (fun equal => noFeed (by simp [equal])) stepBlock (by simp at fits ⊢; omega)
      obtain ⟨next, restEq, restReading⟩ := inductionHypothesis stepReading
        (fun member => noFeed (by simp [member])) inBlock fits
      exact ⟨next, by rw [push_cons, stepEq, Answer.ok_andThen, restEq]; rfl, restReading⟩

/-- The line feed ends the line that was read. -/
theorem reading_feed {block : Option CommandBlock} {blockBytes : Nat} {octets : List UInt8}
    {parser : TmuxControlProtocolParser} (reading : Reading block blockBytes octets parser)
    (fits : octets.length ≤ maxLineBytes) :
    parser.pushByte 0x0a = flushLine { atLine block blockBytes with line := octets } := by
  cases reading with
  | plain => simp [pushByte, atLine]
  | escape line =>
      simp only [List.length_append, List.length_singleton] at fits
      have room : ¬ line.length ≥ maxLineBytes := by omega
      simp [pushByte, atLine, appendLineByte, room, bind, Except.bind]

/-- A whole line and its line feed: the line is parsed as it was written. -/
theorem push_line {block : Option CommandBlock} {blockBytes : Nat} {line : List UInt8}
    (noFeed : 0x0a ∉ line) (inBlock : block.isSome ∨ 0x1b ∉ line)
    (fits : line.length ≤ maxLineBytes) :
    (atLine block blockBytes).push (line ++ [0x0a]) =
      flushLine { atLine block blockBytes with line } := by
  obtain ⟨next, read, reading⟩ := reading_run (reading_start block blockBytes) noFeed
    (by simpa using inBlock) (by simpa using fits)
  rw [push_append, read, Answer.ok_andThen, push_cons, reading_feed reading (by simpa using fits)]
  simp only [List.nil_append, push_nil]
  cases flushLine { atLine block blockBytes with line } with
  | error overflow => rfl
  | ok answer =>
      rw [Answer.ok_andThen]
      simp [Except.map]

/-- Outside a block a line is only parsed. -/
theorem flushLine_top {line : List UInt8} {blockBytes : Nat} (nonempty : stripReturn line ≠ []) :
    flushLine { atLine none blockBytes with line } =
      .ok ((atLine none blockBytes).parseTopLine (stripReturn line)) := by
  have notEmpty : (stripReturn line).isEmpty = false := by simpa using nonempty
  simp [flushLine, countBlock, notEmpty, parseLine, atLine, bind, Except.bind]

/-- Inside a block a line is counted; a blank one is an empty line of output. -/
theorem flushLine_block {block : CommandBlock} {line : List UInt8} {blockBytes : Nat}
    (fits : blockBytes + line.length + 1 ≤ maxBlockBytes) :
    flushLine { atLine (some block) blockBytes with line } =
      .ok ((atLine (some block) (blockBytes + line.length + 1)).parseBlockLine block
        (stripReturn line)) := by
  have room : ¬ blockBytes + line.length + 1 > maxBlockBytes := by omega
  by_cases empty : stripReturn line = []
  · have notEnd : isGuardFor (parseGuard [] endMark) block = false := by
      simp [parseGuard, endMark, isGuardFor]
    have notError : isGuardFor (parseGuard [] errorMark) block = false := by
      simp [parseGuard, errorMark, isGuardFor]
    have blank : utf8Decode [] = [] := by decide
    simp [flushLine, countBlock, room, empty, atLine, addBlank, parseBlockLine, notEnd, notError,
      blank, bind, Except.bind]
  · have notEmpty : (stripReturn line).isEmpty = false := by simpa using empty
    simp [flushLine, countBlock, room, notEmpty, parseLine, atLine, bind, Except.bind]

/-! ## The handshake -/

/-- The parser before the handshake, `index` octets of it matched. -/
def scanning (index : Nat) : TmuxControlProtocolParser := { handshakeIndex := index }

/-- A preamble without the handshake is passed over: what is matched is the end
of what was read. -/
theorem push_preamble {preamble : List UInt8} (absent : ¬ handshake <:+: preamble) :
    ∃ index, index < handshake.length ∧ handshake.take index <:+ preamble ∧
      (scanning 0).push preamble = .ok (scanning index, []) := by
  induction preamble using List.reverseRecOn with
  | nil => exact ⟨0, by decide, by simp, rfl⟩
  | append_singleton before byte inductionHypothesis =>
      have absentBefore : ¬ handshake <:+: before := fun inside =>
        absent (inside.trans (List.prefix_append before [byte]).isInfix)
      obtain ⟨index, bound, matched, pushed⟩ := inductionHypothesis absentBefore
      have stepped : (scanning 0).push (before ++ [byte]) =
          .ok ((scanning index).consumeHandshakeByte byte, []) := by
        rw [push_append, pushed, Answer.ok_andThen]
        rfl
      by_cases next : handshake[index]? = some byte
      · have extended : handshake.take (index + 1) <:+ before ++ [byte] := by
          rw [List.take_add_one, next]
          obtain ⟨front, equal⟩ := matched
          exact ⟨front, by rw [← equal]; simp⟩
        have more : index + 1 ≠ handshake.length := by
          intro whole
          rw [whole, List.take_length] at extended
          exact absent extended.isInfix
        refine ⟨index + 1, by omega, extended, ?_⟩
        rw [stepped]
        simp [consumeHandshakeByte, scanning, next, more]
      · by_cases escape : byte = 0x1b
        · refine ⟨1, by decide, ⟨before, ?_⟩, ?_⟩
          · rw [escape]
            rfl
          · rw [stepped]
            simp only [consumeHandshakeByte, scanning, if_neg next, if_pos escape]
        · refine ⟨0, by decide, by simp, ?_⟩
          rw [stepped]
          simp only [consumeHandshakeByte, scanning, if_neg next, if_neg escape]

/-- However much of it seemed matched, the handshake is seen at its last octet. -/
theorem push_handshake {index : Nat} (bound : index < handshake.length) :
    (scanning index).push handshake = .ok (atLine none 0, []) := by
  simp only [handshake, List.length_cons, List.length_nil] at bound
  interval_cases index <;> rfl

/-- A preamble and the handshake leave the parser at its first line. -/
theorem push_preamble_handshake {preamble : List UInt8} (absent : ¬ handshake <:+: preamble) :
    push {} (preamble ++ handshake) = .ok (atLine none 0, []) := by
  obtain ⟨index, bound, _, pushed⟩ := push_preamble absent
  have start : ({} : TmuxControlProtocolParser) = scanning 0 := rfl
  rw [start, push_append, pushed, Answer.ok_andThen, push_handshake bound]
  rfl

end ServerBox.Terminal.Tmux.TmuxControlProtocolParser
