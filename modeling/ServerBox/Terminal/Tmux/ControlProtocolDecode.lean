import ServerBox.Terminal.Tmux.ControlProtocolLines

/-!
# What tmux writes is what the parser reads

`ControlEvent` is what tmux says in control mode, `ControlEvent.lines` how it
writes it: a command's block with its guards, pane output with its octal
escapes, any other notification. `ControlEvent.event` is what the parser has to
answer for it. It does for every event which is `ReadAsWritten`; a line of a
block that the parser takes for the block's guard, or that starts with a byte
order mark, is where it does not.
-/

namespace ServerBox.Terminal.Tmux

open ServerBox.Std
open TmuxControlProtocolParser

/-- Octets of a word: printable ASCII without the space. -/
def isWordOctet (octet : UInt8) : Bool := 0x21 ≤ octet && octet ≤ 0x7e

/-- A word of the protocol's framing. -/
abbrev Word := {text : List UInt8 // text ≠ [] ∧ text.all isWordOctet = true}

theorem Word.not_mem (word : Word) {octet : UInt8} (outside : isWordOctet octet = false) :
    octet ∉ word.1 := by
  intro member
  have inside := List.all_eq_true.mp word.2.2 octet member
  rw [outside] at inside
  exact Bool.false_ne_true inside

theorem isWhitespace_of_isWordOctet {octet : UInt8} (word : isWordOctet octet = true) :
    Latin1.isWhitespace octet = false := by
  simp only [isWordOctet, Bool.and_eq_true, decide_eq_true_eq, UInt8.le_iff_toNat_le] at word
  simp only [Latin1.isWhitespace, Bool.or_eq_false_iff, Bool.and_eq_false_iff, decide_eq_false_iff_not,
    UInt8.le_iff_toNat_le, beq_eq_false_iff_ne, ne_eq, ← UInt8.toNat_inj]
  have low : (0x21 : UInt8).toNat = 0x21 := rfl
  have high : (0x7e : UInt8).toNat = 0x7e := rfl
  have tab : (0x09 : UInt8).toNat = 0x09 := rfl
  have ret : (0x0d : UInt8).toNat = 0x0d := rfl
  have space : (0x20 : UInt8).toNat = 0x20 := rfl
  have next : (0x85 : UInt8).toNat = 0x85 := rfl
  have hard : (0xa0 : UInt8).toNat = 0xa0 := rfl
  omega

/-- The guard a block of `time`, `number` and `flags` begins and ends with. -/
def guardLine (mark : List UInt8) (time number flags : Word) : List UInt8 :=
  mark ++ 0x20 :: time.1 ++ 0x20 :: number.1 ++ 0x20 :: flags.1

/-- A line of a command's output: any text without a line feed, that does not
end in a carriage return. -/
abbrev BodyLine := {text : List Char // '\n' ∉ text ∧ text.getLast? ≠ some '\r'}

/-- A command's block, no line of which is its own guard. -/
structure BlockEvent where
  time : Word
  number : Word
  flags : Word
  lines : List BodyLine
  error : Bool
  notGuard : ∀ line ∈ lines, Utf8.encode line.1 ≠ guardLine endMark time number flags ∧
    Utf8.encode line.1 ≠ guardLine errorMark time number flags

/-- An argument of a notification: octets without a space, a line feed or ESC. -/
abbrev NotificationArg := {text : List UInt8 // 0x20 ∉ text ∧ 0x0a ∉ text ∧ 0x1b ∉ text}

/-- A notification that is neither pane output nor the guard of a block. -/
structure NotificationEvent where
  name : Word
  args : List NotificationArg
  notOutput : name.1 ≠ outputName ∧ name.1 ≠ extendedOutputName
  notBegin : 0x25 :: name.1 ≠ beginMark
  noReturn : ∀ arg, args.getLast? = some arg → arg.1.getLast? ≠ some 0x0d

/-- What tmux says in control mode. An extended output has the pane's age and
any later arguments before its colon. -/
inductive ControlEvent where
  | command (block : BlockEvent)
  | output (pane : TmuxPaneId) (data : List UInt8)
  | extendedOutput (pane : TmuxPaneId) (age : Word) (more : List {word : Word // word.1 ≠ [0x3a]})
      (data : List UInt8)
  | notification (said : NotificationEvent)

/-- The three octal digits of an octet. -/
def octalDigits (octet : UInt8) : List UInt8 :=
  [UInt8.ofNat (octet.toNat / 64 + 0x30), UInt8.ofNat (octet.toNat / 8 % 8 + 0x30),
    UInt8.ofNat (octet.toNat % 8 + 0x30)]

/-- tmux's escape of pane output: what is below a space, and the backslash. -/
def escapeOctet (octet : UInt8) : List UInt8 :=
  if octet < 0x20 ∨ octet = 0x5c then 0x5c :: octalDigits octet else [octet]

/-- Pane output as tmux writes it. -/
def escapeOutput (data : List UInt8) : List UInt8 := data.flatMap escapeOctet

/-- Words, each behind a space. -/
def spaced (words : List (List UInt8)) : List UInt8 := words.flatMap (0x20 :: ·)

/-- `%output` and what follows it. -/
def outputLine (pane : TmuxPaneId) (data : List UInt8) : List UInt8 :=
  0x25 :: outputName ++ 0x20 :: pane.1 ++ 0x20 :: escapeOutput data

/-- `%extended-output` and what follows it. -/
def extendedOutputLine (pane : TmuxPaneId) (age : Word)
    (more : List {word : Word // word.1 ≠ [0x3a]}) (data : List UInt8) : List UInt8 :=
  0x25 :: extendedOutputName ++ 0x20 :: pane.1 ++ 0x20 :: (age.1 ++
    spaced (more.map fun word => word.1.1) ++ [0x20, 0x3a, 0x20] ++ escapeOutput data)

/-- A notification and its arguments. -/
def NotificationEvent.line (notification : NotificationEvent) : List UInt8 :=
  0x25 :: notification.name.1 ++ spaced (notification.args.map Subtype.val)

/-- The mark a block ends with. -/
def BlockEvent.closingMark (block : BlockEvent) : List UInt8 :=
  if block.error then errorMark else endMark

/-- The guard a block ends with. -/
def BlockEvent.closing (block : BlockEvent) : List UInt8 :=
  guardLine block.closingMark block.time block.number block.flags

/-- The lines tmux writes for an event. -/
def ControlEvent.lines : ControlEvent → List (List UInt8)
  | .command block =>
      guardLine beginMark block.time block.number block.flags ::
        block.lines.map (Utf8.encode ·.1) ++ [block.closing]
  | .output pane data => [outputLine pane data]
  | .extendedOutput pane age more data => [extendedOutputLine pane age more data]
  | .notification said => [said.line]

/-- What the parser has to answer for an event. -/
def ControlEvent.event : ControlEvent → TmuxControlProtocolEvent
  | .command block => .commandResult (block.lines.map Subtype.val) block.error
  | .output pane data => .output pane data
  | .extendedOutput pane _ _ data => .output pane data
  | .notification said => .notification said.name.1 (said.args.map Subtype.val)

/-- A line's end: a line feed, behind a carriage return where the terminal adds
one. -/
def lineEnd (carriage : Bool) : List UInt8 := if carriage then [0x0d, 0x0a] else [0x0a]

/-- An event as it is written. -/
def ControlEvent.encode (carriage : Bool) (event : ControlEvent) : List UInt8 :=
  event.lines.flatMap (· ++ lineEnd carriage)

/-- The octets a line is counted as: its carriage return is one of them. -/
def lineBytes (carriage : Bool) (line : List UInt8) : Nat :=
  line.length + if carriage then 1 else 0

/-- The octets an open block is counted as, each line with its line feed. -/
def BlockEvent.bytes (carriage : Bool) (block : BlockEvent) : Nat :=
  ((block.lines.map (Utf8.encode ·.1) ++ [block.closing]).map (lineBytes carriage · + 1)).sum

/-- An event within the parser's size limits. -/
def ControlEvent.WithinLimits (carriage : Bool) (event : ControlEvent) : Prop :=
  (∀ line ∈ event.lines, lineBytes carriage line ≤ maxLineBytes) ∧
    ∀ block, event = .command block → block.bytes carriage ≤ maxBlockBytes

/-- The parser takes `line` for the guard that ends the block. -/
def BlockEvent.takenForGuard (block : BlockEvent) (line : List UInt8) : Bool :=
  let open_ : CommandBlock := ⟨block.time.1, block.number.1, block.flags.1, []⟩
  isGuardFor (parseGuard line endMark) open_ || isGuardFor (parseGuard line errorMark) open_

/-- No line of the event is one the parser takes for a guard it is not, or for
the byte order mark it takes off. -/
def ControlEvent.ReadAsWritten : ControlEvent → Prop
  | .command block => ∀ line ∈ block.lines,
      block.takenForGuard (Utf8.encode line.1) = false ∧ line.1.head? ≠ some '\uFEFF'
  | .output _ _ => True
  | .extendedOutput _ _ _ _ => True
  | .notification said => parseGuard said.line beginMark = none

instance (event : ControlEvent) : Decidable event.ReadAsWritten :=
  match event with
  | .command block => inferInstanceAs (Decidable (∀ line ∈ block.lines,
      block.takenForGuard (Utf8.encode line.1) = false ∧ line.1.head? ≠ some '\uFEFF'))
  | .output _ _ => inferInstanceAs (Decidable True)
  | .extendedOutput _ _ _ _ => inferInstanceAs (Decidable True)
  | .notification said => inferInstanceAs (Decidable (parseGuard said.line beginMark = none))

/-! ## Lines and their ends -/

/-- A line no control octet of which could end it or be stripped. -/
def Plain (line : List UInt8) : Prop :=
  0x0a ∉ line ∧ 0x1b ∉ line ∧ line.getLast? ≠ some 0x0d

/-- A text of fixed octets is checked octet by octet. -/
theorem printable_of_all {line : List UInt8} (all : line.all (0x20 ≤ ·) = true) :
    ∀ octet ∈ line, 0x20 ≤ octet :=
  fun octet member => of_decide_eq_true (List.all_eq_true.mp all octet member)

/-- Octets from the space up are plain. -/
theorem plain_of_printable {line : List UInt8} (printable : ∀ octet ∈ line, 0x20 ≤ octet) :
    Plain line := by
  refine ⟨fun member => ?_, fun member => ?_, fun last => ?_⟩
  · exact absurd (printable _ member) (by decide)
  · exact absurd (printable _ member) (by decide)
  · exact absurd (printable _ (List.mem_of_getLast? last)) (by decide)

/-- The carriage return a terminal adds is taken off again. -/
theorem stripReturn_carriage {line : List UInt8} (carriage : Bool)
    (last : line.getLast? ≠ some 0x0d) :
    stripReturn (line ++ if carriage then [0x0d] else []) = line := by
  cases carriage with
  | false => simp [stripReturn, last]
  | true => simp [stripReturn]

theorem append_lineEnd (line : List UInt8) (carriage : Bool) :
    line ++ lineEnd carriage = (line ++ if carriage then [0x0d] else []) ++ [0x0a] := by
  cases carriage <;> simp [lineEnd]

theorem length_carriage (line : List UInt8) (carriage : Bool) :
    (line ++ if carriage then [0x0d] else []).length = lineBytes carriage line := by
  cases carriage <;> simp [lineBytes]

theorem not_mem_carriage {line : List UInt8} {octet : UInt8} (carriage : Bool)
    (absent : octet ∉ line) (other : octet ≠ 0x0d) :
    octet ∉ line ++ if carriage then [0x0d] else [] := by
  cases carriage <;> simp [absent, other]

/-- A line outside a block, with its end. -/
theorem push_topLine {line : List UInt8} {blockBytes : Nat} (carriage : Bool)
    (nonempty : line ≠ []) (plain : Plain line) (fits : lineBytes carriage line ≤ maxLineBytes) :
    (atLine none blockBytes).push (line ++ lineEnd carriage) =
      .ok ((atLine none blockBytes).parseTopLine line) := by
  have stripped := stripReturn_carriage carriage plain.2.2
  rw [append_lineEnd, push_line (not_mem_carriage carriage plain.1 (by decide))
    (.inr (not_mem_carriage carriage plain.2.1 (by decide))) (by rw [length_carriage]; exact fits),
    flushLine_top (by rw [stripped]; exact nonempty), stripped]

/-- A line of an open block, with its end. -/
theorem push_blockLine (block : CommandBlock) {line : List UInt8} {blockBytes : Nat}
    (carriage : Bool) (noFeed : 0x0a ∉ line) (last : line.getLast? ≠ some 0x0d)
    (fits : lineBytes carriage line ≤ maxLineBytes)
    (fitsBlock : blockBytes + lineBytes carriage line + 1 ≤ maxBlockBytes) :
    (atLine (some block) blockBytes).push (line ++ lineEnd carriage) =
      .ok ((atLine (some block) (blockBytes + lineBytes carriage line + 1)).parseBlockLine block
        line) := by
  rw [append_lineEnd, push_line (not_mem_carriage carriage noFeed (by decide)) (.inl rfl)
    (by rw [length_carriage]; exact fits), flushLine_block (by rw [length_carriage]; exact fitsBlock),
    length_carriage, stripReturn_carriage carriage last]

/-! ## Guards -/

theorem word_printable (word : Word) : ∀ octet ∈ word.1, 0x20 ≤ octet := by
  intro octet member
  have inside := List.all_eq_true.mp word.2.2 octet member
  simp only [isWordOctet, Bool.and_eq_true, decide_eq_true_eq] at inside
  exact UInt8.le_trans (show (0x20 : UInt8) ≤ 0x21 by decide) inside.1

/-- A guard has no control octet. -/
theorem guardLine_plain {mark : List UInt8} (printable : ∀ octet ∈ mark, 0x20 ≤ octet)
    (time number flags : Word) : Plain (guardLine mark time number flags) := by
  apply plain_of_printable
  intro octet member
  simp only [guardLine, List.cons_append, List.append_assoc, List.mem_append, List.mem_cons] at member
  rcases member with inMark | space | inTime | space | inNumber | space | inFlags
  · exact printable octet inMark
  · simp [space]
  · exact word_printable time octet inTime
  · simp [space]
  · exact word_printable number octet inNumber
  · simp [space]
  · exact word_printable flags octet inFlags

/-- A guard is read back as its three words. -/
theorem parseGuard_guardLine (mark : List UInt8) (time number flags : Word) :
    parseGuard (guardLine mark time number flags) mark = some (time.1, number.1, flags.1) := by
  have shape : guardLine mark time number flags =
      mark ++ 0x20 :: (time.1 ++ 0x20 :: (number.1 ++ 0x20 :: flags.1)) := by
    simp [guardLine]
  have startsWith : mark.isPrefixOf (guardLine mark time number flags) = true := by
    rw [shape, List.isPrefixOf_iff_prefix]
    exact List.prefix_append _ _
  have trimmed : Latin1.trim (0x20 :: (time.1 ++ 0x20 :: (number.1 ++ 0x20 :: flags.1))) =
      time.1 ++ 0x20 :: (number.1 ++ 0x20 :: flags.1) := by
    apply Latin1.trim_space (by simp)
    · rw [List.head_append_of_ne_nil time.2.1]
      exact isWhitespace_of_isWordOctet
        (List.all_eq_true.mp time.2.2 _ (List.head_mem time.2.1))
    · have last : (time.1 ++ 0x20 :: (number.1 ++ 0x20 :: flags.1)).getLast (by simp) =
          flags.1.getLast flags.2.1 := by
        rw [List.getLast_append_of_ne_nil _ (by simp), List.getLast_cons (by simp),
          List.getLast_append_of_ne_nil _ (by simp), List.getLast_cons flags.2.1]
      rw [last]
      exact isWhitespace_of_isWordOctet
        (List.all_eq_true.mp flags.2.2 _ (List.getLast_mem flags.2.1))
  have words : (time.1 ++ 0x20 :: (number.1 ++ 0x20 :: flags.1)).splitOn 0x20 =
      [time.1, number.1, flags.1] := by
    rw [List.splitOn_append_cons_self_of_not_mem (time.not_mem (by decide)),
      List.splitOn_append_cons_self_of_not_mem (number.not_mem (by decide)),
      List.splitOn_eq_singleton (flags.not_mem (by decide))]
  unfold parseGuard
  rw [if_pos startsWith, shape, List.drop_left, trimmed, words]

/-- The line a block closes with is no `%end` guard when it is an `%error` one. -/
theorem parseGuard_endMark_errorLine (time number flags : Word) :
    parseGuard (guardLine errorMark time number flags) endMark = none := by
  simp [parseGuard, guardLine, endMark, errorMark]

/-- A block's closing guard ends it, with the lines and the outcome it has. -/
theorem parseBlockLine_closing (block : BlockEvent) (parser : TmuxControlProtocolParser)
    (lines : List (List Char)) :
    parser.parseBlockLine ⟨block.time.1, block.number.1, block.flags.1, lines⟩ block.closing =
      ({ parser with block := none, blockBytes := 0 }, [.commandResult lines block.error]) := by
  unfold BlockEvent.closing BlockEvent.closingMark parseBlockLine
  cases block.error with
  | false => simp [parseGuard_guardLine, isGuardFor]
  | true => simp [parseGuard_guardLine, parseGuard_endMark_errorLine, isGuardFor]

/-! ## Pane output -/

theorem octalDigit_ofNat {n : Nat} (digit : n < 8) :
    octalDigit (UInt8.ofNat (n + 0x30)) = some n := by
  have value : (UInt8.ofNat (n + 0x30)).toNat = n + 0x30 :=
    UInt8.toNat_ofNat_of_lt' (show n + 0x30 < 256 by omega)
  unfold octalDigit
  rw [value, if_pos (by omega)]
  simp

/-- The three octal digits of an octet are read back as the octet. -/
theorem decodeOutputValue_octalDigits (octet : UInt8) (rest : List UInt8) :
    decodeOutputValue (0x5c :: octalDigits octet ++ rest) = octet :: decodeOutputValue rest := by
  have bound : octet.toNat < 256 := octet.toNat_lt
  have value : octalValue (UInt8.ofNat (octet.toNat / 64 + 0x30))
      (UInt8.ofNat (octet.toNat / 8 % 8 + 0x30)) (UInt8.ofNat (octet.toNat % 8 + 0x30)) =
      some octet := by
    unfold octalValue
    rw [octalDigit_ofNat (by omega), octalDigit_ofNat (by omega), octalDigit_ofNat (by omega)]
    have whole : (octet.toNat / 64 * 8 + octet.toNat / 8 % 8) * 8 + octet.toNat % 8 =
        octet.toNat := by omega
    simp only [whole]
    rw [if_pos (by omega)]
    simp
  simp only [octalDigits, List.cons_append, List.nil_append]
  rw [decodeOutputValue, value]

/-- One octet of pane output, escaped or not. -/
theorem decodeOutputValue_escapeOctet (octet : UInt8) (rest : List UInt8) :
    decodeOutputValue (escapeOctet octet ++ rest) = octet :: decodeOutputValue rest := by
  unfold escapeOctet
  split
  · exact decodeOutputValue_octalDigits octet rest
  · rename_i unescaped
    have notBackslash : octet ≠ 0x5c := fun equal => unescaped (.inr equal)
    simp only [List.cons_append, List.nil_append]
    rw [decodeOutputValue.eq_def]
    split
    · rename_i equal
      exact absurd (List.cons.inj equal).1 notBackslash
    · rename_i equal
      obtain ⟨rfl, rfl⟩ := List.cons.inj equal
      rfl
    · rename_i equal
      simp at equal

/-- Pane output is read back as the octets it was. -/
theorem decodeOutputValue_escapeOutput (data : List UInt8) :
    decodeOutputValue (escapeOutput data) = data := by
  induction data with
  | nil => rfl
  | cons octet rest inductionHypothesis =>
      have unfolded : escapeOutput (octet :: rest) = escapeOctet octet ++ escapeOutput rest := rfl
      rw [unfolded, decodeOutputValue_escapeOctet, inductionHypothesis]

/-- tmux's escape leaves no control octet. -/
theorem escapeOutput_printable (data : List UInt8) : ∀ octet ∈ escapeOutput data, 0x20 ≤ octet := by
  intro octet member
  obtain ⟨source, _, inEscape⟩ := List.mem_flatMap.mp member
  unfold escapeOctet at inEscape
  split at inEscape
  · have digit : ∀ n, n < 8 → (0x20 : UInt8) ≤ UInt8.ofNat (n + 0x30) := by
      intro n small
      have value : (UInt8.ofNat (n + 0x30)).toNat = n + 0x30 :=
        UInt8.toNat_ofNat_of_lt' (show n + 0x30 < 256 by omega)
      rw [UInt8.le_iff_toNat_le, value]
      exact Nat.le_add_left_of_le (by decide)
    have bound : source.toNat < 256 := source.toNat_lt
    simp only [octalDigits, List.mem_cons, List.not_mem_nil, or_false] at inEscape
    rcases inEscape with equal | equal | equal | equal
    · subst equal
      decide
    · exact equal ▸ digit _ (by omega)
    · exact equal ▸ digit _ (by omega)
    · exact equal ▸ digit _ (by omega)
  · rename_i unescaped
    rw [List.mem_singleton] at inEscape
    subst inEscape
    exact UInt8.not_lt.mp fun below => unescaped (.inl below)

/-- A pane id has no space. -/
theorem paneId_printable (pane : TmuxPaneId) : ∀ octet ∈ pane.1, 0x21 ≤ octet := by
  obtain ⟨value, valid⟩ := pane
  intro octet member
  cases value with
  | nil => simp at member
  | cons first digits =>
      simp only [isValidTmuxId, Bool.and_eq_true, beq_iff_eq, List.all_eq_true,
        decide_eq_true_eq] at valid
      rcases List.mem_cons.mp member with equal | inDigits
      · rw [equal, valid.1.1]
        decide
      · exact UInt8.le_trans (show (0x21 : UInt8) ≤ 0x30 by decide) (valid.2 octet inDigits).1

theorem paneId_not_mem (pane : TmuxPaneId) : (0x20 : UInt8) ∉ pane.1 := fun member =>
  absurd (paneId_printable pane _ member) (by decide)

theorem tryParse_paneId (pane : TmuxPaneId) : TmuxPaneId.tryParse pane.1 = some pane := by
  simp [TmuxPaneId.tryParse, pane.2]

/-- `%output` and its pane's id leave the value behind the second space. -/
theorem parseOutputLine_output (pane : TmuxPaneId) (data : List UInt8) :
    parseOutputLine (outputLine pane data) false = some (.output pane data) := by
  have first : Latin1.indexOf? [0x20] (outputLine pane data) = some 7 := by
    have place : Latin1.indexOf? [0x20] ((0x25 :: outputName) ++ 0x20 ::
        (pane.1 ++ 0x20 :: escapeOutput data)) = some 7 :=
      Latin1.indexOf?_singleton (by decide)
    simpa [outputLine] using place
  have second : Latin1.indexOf? [0x20] (pane.1 ++ 0x20 :: escapeOutput data) = some pane.1.length :=
    Latin1.indexOf?_singleton (paneId_not_mem pane)
  have behind : (outputLine pane data).drop 8 = pane.1 ++ 0x20 :: escapeOutput data := rfl
  unfold parseOutputLine
  simp only [first, Option.bind_eq_bind, Option.bind_some, behind, second,
    List.take_left, tryParse_paneId, Bool.false_eq_true, if_false]
  rw [← List.drop_drop, List.drop_left]
  simp [decodeOutputValue_escapeOutput]

/-- Words behind spaces start no ` : `, unless one of them is the colon. -/
theorem spaced_not_colon {words : List (List UInt8)}
    (noSpace : ∀ word ∈ words, 0x20 ∉ word ∧ word ≠ [] ∧ word ≠ [0x3a]) :
    ∀ skipped rest after, spaced words = skipped ++ rest → rest ≠ [] →
      [0x20, 0x3a, 0x20].isPrefixOf (rest ++ 0x20 :: after) = false := by
  induction words with
  | nil =>
      intro skipped rest after equal nonempty
      have empty := (List.append_eq_nil_iff.mp equal.symm).2
      exact absurd empty nonempty
  | cons word words inductionHypothesis =>
      intro skipped rest after equal nonempty
      obtain ⟨wordSpace, wordNonempty, wordColon⟩ := noSpace word (by simp)
      have unfolded : spaced (word :: words) = 0x20 :: (word ++ spaced words) := by
        simp [spaced]
      rw [unfolded] at equal
      cases skipped with
      | nil =>
          -- At the space before a word: a colon there has the word go on.
          rw [List.nil_append] at equal
          subst equal
          cases word with
          | nil => exact absurd rfl wordNonempty
          | cons head tail =>
              cases tail with
              | nil =>
                  have headNe : (0x3a : UInt8) ≠ head := fun same => wordColon (by rw [same])
                  simp [List.isPrefixOf, headNe]
              | cons second more =>
                  have secondNe : (0x20 : UInt8) ≠ second := fun same => wordSpace (by simp [same])
                  simp [List.isPrefixOf, secondNe]
      | cons head front =>
          obtain ⟨rfl, tailEq⟩ := List.cons.inj equal
          rcases List.append_eq_append_iff.mp tailEq with ⟨middle, frontEq, laterEq⟩ |
            ⟨middle, wordEq, restEq⟩
          · exact inductionHypothesis (fun w member => noSpace w (by simp [member])) middle rest
              after laterEq nonempty
          · cases middle with
            | nil =>
                exact inductionHypothesis (fun w member => noSpace w (by simp [member])) [] rest
                  after (by simpa using restEq.symm) nonempty
            | cons head' middle =>
                have headNe : (0x20 : UInt8) ≠ head' := fun same =>
                  wordSpace (by rw [wordEq]; simp [same])
                simp [List.isPrefixOf, restEq, headNe]

/-- The colon of an extended output is the first one that is an argument. -/
theorem indexOf_colon (age : Word) (more : List {word : Word // word.1 ≠ [0x3a]})
    (value : List UInt8) :
    Latin1.indexOf? [0x20, 0x3a, 0x20]
      (age.1 ++ spaced (more.map fun word => word.1.1) ++ 0x20 :: 0x3a :: 0x20 :: value) =
      some (age.1 ++ spaced (more.map fun word => word.1.1)).length := by
  have words : ∀ word ∈ more.map (fun word => word.1.1),
      0x20 ∉ word ∧ word ≠ [] ∧ word ≠ [0x3a] := by
    intro word member
    obtain ⟨source, _, rfl⟩ := List.mem_map.mp member
    exact ⟨source.1.not_mem (by decide), source.1.2.1, source.2⟩
  have ageSpace : (0x20 : UInt8) ∉ age.1 := age.not_mem (by decide)
  apply Latin1.indexOf?_append
  · intro skipped rest equal nonempty
    rcases List.append_eq_append_iff.mp equal with ⟨middle, skippedEq, laterEq⟩ |
      ⟨middle, ageEq, restEq⟩
    · exact spaced_not_colon words middle rest _ laterEq nonempty
    · cases middle with
      | nil => exact spaced_not_colon words [] rest _ (by simpa using restEq.symm) nonempty
      | cons head middle =>
          have headNe : (0x20 : UInt8) ≠ head := fun same => ageSpace (by rw [ageEq]; simp [same])
          simp [List.isPrefixOf, restEq, headNe]
  · simp

/-- `%extended-output`, its pane's id and its arguments leave the value behind
the colon. -/
theorem parseOutputLine_extendedOutput (pane : TmuxPaneId) (age : Word)
    (more : List {word : Word // word.1 ≠ [0x3a]}) (data : List UInt8) :
    parseOutputLine (extendedOutputLine pane age more data) true = some (.output pane data) := by
  let args := age.1 ++ spaced (more.map fun word => word.1.1)
  have shape : extendedOutputLine pane age more data = (0x25 :: extendedOutputName) ++ 0x20 ::
      (pane.1 ++ 0x20 :: (args ++ 0x20 :: 0x3a :: 0x20 :: escapeOutput data)) := by
    simp [extendedOutputLine, args]
  have first : Latin1.indexOf? [0x20] (extendedOutputLine pane age more data) = some 16 := by
    rw [shape]
    exact Latin1.indexOf?_singleton (by decide)
  have second : Latin1.indexOf? [0x20]
      (pane.1 ++ 0x20 :: (args ++ 0x20 :: 0x3a :: 0x20 :: escapeOutput data)) =
      some pane.1.length :=
    Latin1.indexOf?_singleton (paneId_not_mem pane)
  have behind : (extendedOutputLine pane age more data).drop 17 =
      pane.1 ++ 0x20 :: (args ++ 0x20 :: 0x3a :: 0x20 :: escapeOutput data) := by
    rw [shape]
    rfl
  have behindPane : (pane.1 ++ 0x20 :: (args ++ 0x20 :: 0x3a :: 0x20 :: escapeOutput data)).drop
      (pane.1.length + 1) = args ++ 0x20 :: 0x3a :: 0x20 :: escapeOutput data := by
    rw [← List.drop_drop, List.drop_left]
    rfl
  have colon : Latin1.indexOf? [0x20, 0x3a, 0x20]
      (args ++ 0x20 :: 0x3a :: 0x20 :: escapeOutput data) = some args.length :=
    indexOf_colon age more (escapeOutput data)
  have value : (args ++ 0x20 :: 0x3a :: 0x20 :: escapeOutput data).drop (args.length + 3) =
      escapeOutput data := by
    rw [← List.drop_drop, List.drop_left]
    rfl
  unfold parseOutputLine
  simp only [first, Option.bind_eq_bind, Option.bind_some, behind, second, List.take_left,
    tryParse_paneId, if_true, behindPane, colon, value, decodeOutputValue_escapeOutput]

/-- Pane output is no guard, and is answered with its pane and its octets. -/
theorem parseTopLine_output (parser : TmuxControlProtocolParser) (pane : TmuxPaneId)
    (data : List UInt8) :
    parser.parseTopLine (outputLine pane data) = (parser, [.output pane data]) := by
  have noGuard : parseGuard (outputLine pane data) beginMark = none := by
    simp [parseGuard, outputLine, outputName, beginMark]
  have first : Latin1.indexOf? [0x20] (outputLine pane data) = some 7 := by
    have place : Latin1.indexOf? [0x20] ((0x25 :: outputName) ++ 0x20 ::
        (pane.1 ++ 0x20 :: escapeOutput data)) = some 7 :=
      Latin1.indexOf?_singleton (by decide)
    simpa [outputLine] using place
  have name : ((outputLine pane data).take 7).drop 1 = outputName := rfl
  have mark : (outputLine pane data).head? = some 0x25 := rfl
  simp [parseTopLine, noGuard, mark, first, name, parseOutputLine_output]

theorem parseTopLine_extendedOutput (parser : TmuxControlProtocolParser) (pane : TmuxPaneId)
    (age : Word) (more : List {word : Word // word.1 ≠ [0x3a]}) (data : List UInt8) :
    parser.parseTopLine (extendedOutputLine pane age more data) = (parser, [.output pane data]) := by
  have noGuard : parseGuard (extendedOutputLine pane age more data) beginMark = none := by
    simp [parseGuard, extendedOutputLine, extendedOutputName, beginMark]
  have first : Latin1.indexOf? [0x20] (extendedOutputLine pane age more data) = some 16 := by
    have place : Latin1.indexOf? [0x20] ((0x25 :: extendedOutputName) ++ 0x20 ::
        (pane.1 ++ 0x20 :: (age.1 ++ spaced (more.map fun word => word.1.1) ++
          [0x20, 0x3a, 0x20] ++ escapeOutput data))) = some 16 :=
      Latin1.indexOf?_singleton (by decide)
    simpa [extendedOutputLine] using place
  have name : ((extendedOutputLine pane age more data).take 16).drop 1 = extendedOutputName := rfl
  have mark : (extendedOutputLine pane age more data).head? = some 0x25 := rfl
  have different : ¬ extendedOutputName = outputName := by decide
  simp [parseTopLine, noGuard, mark, first, name, different, parseOutputLine_extendedOutput]

/-- Words behind spaces are split off again. -/
theorem splitOn_spaced {word : List UInt8} {words : List (List UInt8)}
    (noSpace : ∀ text ∈ word :: words, (0x20 : UInt8) ∉ text) :
    (word ++ spaced words).splitOn 0x20 = word :: words := by
  induction words generalizing word with
  | nil => simp [spaced, List.splitOn_eq_singleton (noSpace word (by simp))]
  | cons next words inductionHypothesis =>
      have unfolded : spaced (next :: words) = 0x20 :: (next ++ spaced words) := by
        simp [spaced]
      rw [unfolded, List.splitOn_append_cons_self_of_not_mem (noSpace word (by simp)),
        inductionHypothesis fun text member => noSpace text (by simp [List.mem_cons.mp member])]

/-- A notification the parser does not take for a begin guard is answered with
its name and its arguments. -/
theorem parseTopLine_notification (parser : TmuxControlProtocolParser) (said : NotificationEvent)
    (noGuard : parseGuard said.line beginMark = none) :
    parser.parseTopLine said.line =
      (parser, [.notification said.name.1 (said.args.map Subtype.val)]) := by
  have mark : said.line.head? = some 0x25 := rfl
  have nameSpace : (0x20 : UInt8) ∉ 0x25 :: said.name.1 := by
    have inName := said.name.not_mem (show isWordOctet 0x20 = false by decide)
    simp [inName]
  have argSpace : ∀ text ∈ said.args.map Subtype.val, (0x20 : UInt8) ∉ text := by
    intro text member
    obtain ⟨arg, _, rfl⟩ := List.mem_map.mp member
    exact arg.2.1
  unfold parseTopLine
  rw [noGuard]
  simp only [mark, ne_eq, not_true_eq_false, if_false]
  cases shape : said.args.map Subtype.val with
  | nil =>
      have line : said.line = 0x25 :: said.name.1 := by
        simp [NotificationEvent.line, shape, spaced]
      have first : Latin1.indexOf? [0x20] said.line = none := by
        rw [line]
        exact Latin1.indexOf?_singleton_none nameSpace
      have name : (said.line.take (Option.getD none said.line.length)).drop 1 = said.name.1 := by
        simp [line]
      rw [first, name]
      simp [said.notOutput.1, said.notOutput.2]
  | cons arg rest =>
      have line : said.line = (0x25 :: said.name.1) ++ 0x20 :: (arg ++ spaced rest) := by
        simp [NotificationEvent.line, shape, spaced]
      have first : Latin1.indexOf? [0x20] said.line = some (0x25 :: said.name.1).length := by
        rw [line]
        exact Latin1.indexOf?_singleton nameSpace
      have name : (said.line.take (Option.getD (some (0x25 :: said.name.1).length)
          said.line.length)).drop 1 = said.name.1 := by
        rw [Option.getD_some, line, List.take_left]
        rfl
      have behind : said.line.drop ((0x25 :: said.name.1).length + 1) = arg ++ spaced rest := by
        rw [line, ← List.drop_drop, List.drop_left]
        rfl
      rw [first, name]
      simp only [said.notOutput.1, said.notOutput.2, if_false, behind]
      rw [splitOn_spaced (by rw [← shape]; exact argSpace)]

end ServerBox.Terminal.Tmux
