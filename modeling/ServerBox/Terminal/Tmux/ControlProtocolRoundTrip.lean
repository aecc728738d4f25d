import ServerBox.Terminal.Tmux.ControlProtocolDecode

/-!
# The events of a stream

A stream is any preamble, the handshake and tmux's events as it writes them, cut
into chunks anywhere. `push_event` is one event, `push_events` a stream of them,
and `decodes_iff_readAsWritten` says when the parser answers exactly what tmux
said: `push_misread` shows the first event not read as written to be answered as
something else.
-/

namespace ServerBox.Terminal.Tmux

open ServerBox.Std
open TmuxControlProtocolParser

/-- The byte order mark is what UTF-8 text loses at its start, and all it loses. -/
theorem utf8Decode_encode (text : List Char) :
    utf8Decode (Utf8.encode text) = if text.head? = some '\uFEFF' then text.tail else text := by
  have mark : String.utf8EncodeChar '\uFEFF' = [0xef, 0xbb, 0xbf] := by decide
  unfold utf8Decode
  by_cases marked : text.head? = some '\uFEFF'
  · cases text with
    | nil => simp at marked
    | cons c rest =>
        have isMark : c = '\uFEFF' := by simpa using marked
        subst isMark
        have octets : Utf8.encode ('\uFEFF' :: rest) = [0xef, 0xbb, 0xbf] ++ Utf8.encode rest := by
          rw [Utf8.encode_cons, mark]
        rw [if_pos marked, octets, if_pos (by simp [List.isPrefixOf])]
        exact Utf8.decode_encode rest
  · have unmarked : ¬ [0xef, 0xbb, 0xbf].isPrefixOf (Utf8.encode text) = true := by
      intro starts
      obtain ⟨rest, equal⟩ := List.isPrefixOf_iff_prefix.mp starts
      -- What starts with the mark's octets decodes to the mark first.
      have decoded := Utf8.decodeFrom_encodeChar '\uFEFF' rest
      rw [mark, equal] at decoded
      have whole : Utf8.decodeFrom none (Utf8.encode text) = text := Utf8.decode_encode text
      rw [whole] at decoded
      exact marked (by rw [decoded]; rfl)
    rw [if_neg unmarked, if_neg marked, Utf8.decode_encode]

/-- A body line is read back exactly when it starts with no byte order mark. -/
theorem utf8Decode_encode_eq_iff (text : List Char) :
    utf8Decode (Utf8.encode text) = text ↔ text.head? ≠ some '\uFEFF' := by
  rw [utf8Decode_encode]
  split
  · rename_i marked
    constructor
    · intro same
      cases text with
      | nil => simp at marked
      | cons c rest =>
          have lengths := congrArg List.length same
          simp at lengths
    · exact fun unmarked => absurd marked unmarked
  · rename_i unmarked
    simp [unmarked]

/-! ## Blocks -/

/-- The block the parser has open inside `block`, `lines` read. -/
def BlockEvent.openWith (block : BlockEvent) (lines : List (List Char)) : CommandBlock :=
  ⟨block.time.1, block.number.1, block.flags.1, lines⟩

/-- A body line as the parser has it. -/
def readLine (line : BodyLine) : List Char := utf8Decode (Utf8.encode line.1)

theorem bodyLine_noFeed (line : BodyLine) : (0x0a : UInt8) ∉ Utf8.encode line.1 := by
  rw [Utf8.mem_encode_ascii (by decide)]
  exact line.2.1

theorem bodyLine_last (line : BodyLine) : (Utf8.encode line.1).getLast? ≠ some 0x0d := by
  obtain ⟨text, noFeed, noReturn⟩ := line
  intro last
  rcases List.eq_nil_or_concat text with rfl | ⟨front, c, rfl⟩
  · simp at last
  · change (Utf8.encode (front.concat c)).getLast? = some 0x0d at last
    rw [List.concat_eq_append, Utf8.encode_append, Utf8.encode_cons, Utf8.encode_nil,
      List.append_nil] at last
    have nonempty : String.utf8EncodeChar c ≠ [] := by
      rw [← List.length_pos_iff, String.length_utf8EncodeChar]
      exact Char.utf8Size_pos c
    rw [List.getLast?_append_of_ne_nil _ nonempty] at last
    have value := Utf8.mem_encodeChar_ascii (List.mem_of_getLast? last) (by decide)
    have isReturn : c = '\r' := Char.toNat_inj.mp value
    exact noReturn (by simp [isReturn])

/-- A line not taken for the guard is one more line of the block. -/
theorem parseBlockLine_body {block : BlockEvent} {line : List UInt8}
    (parser : TmuxControlProtocolParser) (lines : List (List Char))
    (body : block.takenForGuard line = false) :
    parser.parseBlockLine (block.openWith lines) line =
      ({ parser with block := some (block.openWith (lines ++ [utf8Decode line])) }, []) := by
  simp only [BlockEvent.takenForGuard, Bool.or_eq_false_iff, isGuardFor] at body
  simp [parseBlockLine, BlockEvent.openWith, isGuardFor, body.1, body.2]

/-- A line taken for the guard ends the block before it. -/
theorem parseBlockLine_taken {block : BlockEvent} {line : List UInt8}
    (parser : TmuxControlProtocolParser) (lines : List (List Char))
    (taken : block.takenForGuard line = true) :
    ∃ error, parser.parseBlockLine (block.openWith lines) line =
      ({ parser with block := none, blockBytes := 0 }, [.commandResult lines error]) := by
  simp only [BlockEvent.takenForGuard, Bool.or_eq_true, isGuardFor] at taken
  by_cases ended : parseGuard line endMark == some (block.time.1, block.number.1, block.flags.1)
  · exact ⟨false, by simp [parseBlockLine, BlockEvent.openWith, isGuardFor, ended]⟩
  · have failed := taken.resolve_left ended
    exact ⟨true, by simp [parseBlockLine, BlockEvent.openWith, isGuardFor, ended, failed]⟩

/-- The octets a run of body lines is counted as. -/
def bodyBytes (carriage : Bool) (lines : List BodyLine) : Nat :=
  (lines.map fun line => lineBytes carriage (Utf8.encode line.1) + 1).sum

@[simp] theorem bodyBytes_nil (carriage : Bool) : bodyBytes carriage [] = 0 := rfl

@[simp] theorem bodyBytes_cons (carriage : Bool) (line : BodyLine) (lines : List BodyLine) :
    bodyBytes carriage (line :: lines) =
      lineBytes carriage (Utf8.encode line.1) + 1 + bodyBytes carriage lines := by
  simp [bodyBytes]

theorem bodyBytes_append (carriage : Bool) (first second : List BodyLine) :
    bodyBytes carriage (first ++ second) = bodyBytes carriage first + bodyBytes carriage second := by
  simp [bodyBytes]

theorem blockBytes_eq (carriage : Bool) (block : BlockEvent) :
    block.bytes carriage =
      bodyBytes carriage block.lines + (lineBytes carriage block.closing + 1) := by
  simp [BlockEvent.bytes, bodyBytes, Function.comp_def]

/-- Body lines as they are written. -/
def encodeBody (carriage : Bool) (lines : List BodyLine) : List UInt8 :=
  lines.flatMap fun line => Utf8.encode line.1 ++ lineEnd carriage

/-- A run of body lines none of which is taken for the guard. -/
theorem push_body (block : BlockEvent) (carriage : Bool) {lines : List BodyLine}
    (read : List (List Char)) (counted : Nat)
    (body : ∀ line ∈ lines, block.takenForGuard (Utf8.encode line.1) = false)
    (fits : ∀ line ∈ lines, lineBytes carriage (Utf8.encode line.1) ≤ maxLineBytes)
    (fitsBlock : counted + bodyBytes carriage lines ≤ maxBlockBytes) :
    (atLine (some (block.openWith read)) counted).push (encodeBody carriage lines) =
      .ok (atLine (some (block.openWith (read ++ lines.map readLine)))
        (counted + bodyBytes carriage lines), []) := by
  induction lines generalizing read counted with
  | nil => simp [encodeBody, push_nil]
  | cons line lines inductionHypothesis =>
      have unfolded : encodeBody carriage (line :: lines) =
          Utf8.encode line.1 ++ lineEnd carriage ++ encodeBody carriage lines := rfl
      rw [bodyBytes_cons] at fitsBlock ⊢
      have rest := inductionHypothesis (read ++ [readLine line])
        (counted + lineBytes carriage (Utf8.encode line.1) + 1)
        (fun other member => body other (by simp [member]))
        (fun other member => fits other (by simp [member])) (by omega)
      rw [unfolded, push_append, push_blockLine _ carriage (bodyLine_noFeed line) (bodyLine_last line)
        (fits line (by simp)) (by omega), parseBlockLine_body _ _ (body line (by simp)),
        Answer.ok_andThen]
      change Except.map _ ((atLine (some (block.openWith (read ++ [readLine line])))
        (counted + lineBytes carriage (Utf8.encode line.1) + 1)).push _) = _
      rw [rest]
      simp [Except.map, Nat.add_assoc]

/-- The guard that begins a block opens it. -/
theorem push_begin (block : BlockEvent) (carriage : Bool)
    (fits : lineBytes carriage (guardLine beginMark block.time block.number block.flags) ≤
      maxLineBytes) :
    (atLine none 0).push
      (guardLine beginMark block.time block.number block.flags ++ lineEnd carriage) =
      .ok (atLine (some (block.openWith [])) 0, []) := by
  have plain := guardLine_plain (printable_of_all (show beginMark.all _ = true by decide))
    block.time block.number block.flags
  rw [push_topLine carriage (by simp [guardLine]) plain fits]
  simp [parseTopLine, parseGuard_guardLine, atLine, BlockEvent.openWith]

/-- The guard that ends a block answers its lines. -/
theorem push_closing (block : BlockEvent) (carriage : Bool) {counted : Nat}
    (read : List (List Char)) (fits : lineBytes carriage block.closing ≤ maxLineBytes)
    (fitsBlock : counted + lineBytes carriage block.closing + 1 ≤ maxBlockBytes) :
    (atLine (some (block.openWith read)) counted).push (block.closing ++ lineEnd carriage) =
      .ok (atLine none 0, [.commandResult read block.error]) := by
  have plain : Plain block.closing := by
    unfold BlockEvent.closing BlockEvent.closingMark
    cases block.error
    · exact guardLine_plain (printable_of_all (by decide)) _ _ _
    · exact guardLine_plain (printable_of_all (by decide)) _ _ _
  rw [push_blockLine _ carriage plain.1 plain.2.2 fits fitsBlock]
  simp only [BlockEvent.openWith, parseBlockLine_closing, atLine]

theorem encode_command (carriage : Bool) (block : BlockEvent) :
    (ControlEvent.command block).encode carriage =
      guardLine beginMark block.time block.number block.flags ++ lineEnd carriage ++
        (encodeBody carriage block.lines ++ (block.closing ++ lineEnd carriage)) := by
  simp [ControlEvent.encode, ControlEvent.lines, encodeBody, List.flatMap_map, List.flatMap_append]

/-- A block none of whose lines is taken for its guard is answered whole. -/
theorem push_command {block : BlockEvent} {carriage : Bool}
    (fits : (ControlEvent.command block).WithinLimits carriage)
    (body : ∀ line ∈ block.lines, block.takenForGuard (Utf8.encode line.1) = false) :
    (atLine none 0).push ((ControlEvent.command block).encode carriage) =
      .ok (atLine none 0, [.commandResult (block.lines.map readLine) block.error]) := by
  have total := fits.2 block rfl
  rw [blockBytes_eq] at total
  have begins := push_begin block carriage
    (fits.1 _ (by simp [ControlEvent.lines]))
  have reads := push_body block carriage [] 0 body
    (fun line member => fits.1 _ (by
      simp only [ControlEvent.lines, List.cons_append, List.mem_cons, List.mem_append,
        List.mem_map]
      exact .inr (.inl ⟨line, member, rfl⟩))) (by omega)
  have closes := push_closing block carriage ([] ++ block.lines.map readLine)
    (fits.1 _ (by simp [ControlEvent.lines]))
    (show 0 + bodyBytes carriage block.lines + lineBytes carriage block.closing + 1 ≤ maxBlockBytes
      by omega)
  rw [encode_command, push_append, begins, Answer.ok_andThen, push_append, reads,
    Answer.ok_andThen, closes]
  rfl

/-! ## Lines outside a block -/

/-- A notification is a line that nothing ends early. -/
theorem notification_plain (said : NotificationEvent) : Plain said.line := by
  have absent : ∀ octet : UInt8, isWordOctet octet = false → octet ≠ 0x25 → octet ≠ 0x20 →
      (∀ arg ∈ said.args, octet ∉ arg.1) → octet ∉ said.line := by
    intro octet outside notPercent notSpace inArgs member
    simp only [NotificationEvent.line, spaced, List.cons_append, List.mem_cons, List.mem_append,
      List.mem_flatMap, List.mem_map] at member
    rcases member with isPercent | inName | ⟨text, ⟨arg, argMember, rfl⟩, isSpace | inArg⟩
    · exact notPercent isPercent
    · exact said.name.not_mem outside inName
    · exact notSpace isSpace
    · exact inArgs arg argMember inArg
  refine ⟨absent _ (by decide) (by decide) (by decide) fun arg _ => arg.2.2.1,
    absent _ (by decide) (by decide) (by decide) fun arg _ => arg.2.2.2, ?_⟩
  intro last
  rcases List.eq_nil_or_concat said.args with empty | ⟨front, arg, shape⟩
  · -- Without arguments the line ends in its name.
    have line : said.line = 0x25 :: said.name.1 := by
      simp [NotificationEvent.line, empty, spaced]
    rw [line] at last
    rcases List.mem_cons.mp (List.mem_of_getLast? last) with isPercent | inName
    · exact absurd isPercent (by decide)
    · exact said.name.not_mem (by decide) inName
  · rw [List.concat_eq_append] at shape
    have line : said.line =
        0x25 :: said.name.1 ++ spaced (front.map Subtype.val) ++ 0x20 :: arg.1 := by
      simp [NotificationEvent.line, shape, spaced]
    rw [line, List.getLast?_append_of_ne_nil _ (by simp)] at last
    cases empty : arg.1 with
    | nil => simp [empty] at last
    | cons head tail =>
        rw [empty, List.getLast?_cons_cons, ← empty] at last
        exact said.noReturn arg (by simp [shape]) last

theorem encode_single {event : ControlEvent} {line : List UInt8} (carriage : Bool)
    (single : event.lines = [line]) : event.encode carriage = line ++ lineEnd carriage := by
  simp [ControlEvent.encode, single]

theorem outputLine_plain (pane : TmuxPaneId) (data : List UInt8) : Plain (outputLine pane data) := by
  apply plain_of_printable
  intro octet member
  simp only [outputLine, List.cons_append, List.append_assoc, List.mem_cons,
    List.mem_append] at member
  rcases member with equal | inName | equal | inPane | equal | inData
  · simp [equal]
  · exact printable_of_all (by decide) octet inName
  · simp [equal]
  · exact UInt8.le_trans (show (0x20 : UInt8) ≤ 0x21 by decide) (paneId_printable pane octet inPane)
  · simp [equal]
  · exact escapeOutput_printable data octet inData

theorem extendedOutputLine_plain (pane : TmuxPaneId) (age : Word)
    (more : List {word : Word // word.1 ≠ [0x3a]}) (data : List UInt8) :
    Plain (extendedOutputLine pane age more data) := by
  apply plain_of_printable
  intro octet member
  simp only [extendedOutputLine, spaced, List.cons_append, List.append_assoc, List.mem_cons,
    List.mem_append, List.mem_flatMap, List.mem_map, List.nil_append] at member
  rcases member with equal | inName | equal | inPane | equal | inAge |
    ⟨text, ⟨word, _, rfl⟩, equal | inWord⟩ | equal | equal | equal | inData
  · simp [equal]
  · exact printable_of_all (by decide) octet inName
  · simp [equal]
  · exact UInt8.le_trans (show (0x20 : UInt8) ≤ 0x21 by decide) (paneId_printable pane octet inPane)
  · simp [equal]
  · exact word_printable age octet inAge
  · simp [equal]
  · exact word_printable word.1 octet inWord
  · simp [equal]
  · subst equal
    decide
  · simp [equal]
  · exact escapeOutput_printable data octet inData

/-! ## Events -/

/-- The answer the parser has for an event it reads as written. -/
theorem push_event {event : ControlEvent} {carriage : Bool} (fits : event.WithinLimits carriage)
    (read : event.ReadAsWritten) :
    (atLine none 0).push (event.encode carriage) = .ok (atLine none 0, [event.event]) := by
  cases event with
  | command block =>
      rw [push_command fits fun line member => (read line member).1]
      have same : block.lines.map readLine = block.lines.map Subtype.val :=
        List.map_congr_left fun line member =>
          (utf8Decode_encode_eq_iff line.1).mpr (read line member).2
      rw [same]
      rfl
  | output pane data =>
      rw [encode_single carriage rfl, push_topLine carriage (by simp [outputLine])
        (outputLine_plain pane data) (fits.1 _ (by simp [ControlEvent.lines])), parseTopLine_output]
      rfl
  | extendedOutput pane age more data =>
      rw [encode_single carriage rfl, push_topLine carriage (by simp [extendedOutputLine])
        (extendedOutputLine_plain pane age more data) (fits.1 _ (by simp [ControlEvent.lines])),
        parseTopLine_extendedOutput]
      rfl
  | notification said =>
      rw [encode_single carriage rfl, push_topLine carriage (by simp [NotificationEvent.line])
        (notification_plain said) (fits.1 _ (by simp [ControlEvent.lines])),
        parseTopLine_notification _ said read]
      rfl

/-- A run of events. -/
theorem push_events {events : List ControlEvent} {carriage : Bool}
    (fits : ∀ event ∈ events, event.WithinLimits carriage)
    (read : ∀ event ∈ events, event.ReadAsWritten) :
    (atLine none 0).push (events.flatMap (ControlEvent.encode carriage)) =
      .ok (atLine none 0, events.map ControlEvent.event) := by
  induction events with
  | nil => rfl
  | cons event events inductionHypothesis =>
      rw [List.flatMap_cons, push_append, push_event (fits event (by simp)) (read event (by simp)),
        Answer.ok_andThen, inductionHypothesis (fun other member => fits other (by simp [member]))
          fun other member => read other (by simp [member])]
      rfl

/-- Inside a block one octet answers nothing, and leaves it open, or the block's
result. -/
theorem pushByte_open {parser next : TmuxControlProtocolParser} {byte : UInt8}
    {events : List TmuxControlProtocolEvent} (seen : parser.handshakeSeen = true)
    (isOpen : parser.block.isSome) (answered : parser.pushByte byte = .ok (next, events)) :
    (events = [] ∧ next.block.isSome ∧ next.handshakeSeen = true) ∨
      ∃ lines error, events = [.commandResult lines error] := by
  have flushed : ∀ {p q : TmuxControlProtocolParser} {out}, p.handshakeSeen = true →
      p.block.isSome → p.flushLine = .ok (q, out) →
      (out = [] ∧ q.block.isSome ∧ q.handshakeSeen = true) ∨
        ∃ lines error, out = [.commandResult lines error] := by
    intro p q out pSeen pOpen result
    obtain ⟨block, pBlock⟩ := Option.isSome_iff_exists.mp pOpen
    simp only [flushLine, countBlock, pBlock, bind, Except.bind] at result
    split at result
    · cases result
    · rename_i counted countedEq
      split at countedEq
      · cases countedEq
      · cases countedEq
        split at result
        · cases result
          exact .inl ⟨rfl, by simp [addBlank], pSeen⟩
        · simp only [parseLine, parseBlockLine, Except.ok.injEq] at result
          split at result
          · cases result
            exact .inr ⟨_, _, rfl⟩
          · split at result
            · cases result
              exact .inr ⟨_, _, rfl⟩
            · cases result
              exact .inl ⟨rfl, rfl, pSeen⟩
  have appended : ∀ {p q : TmuxControlProtocolParser} {octet}, p.appendLineByte octet = .ok q →
      q.block = p.block ∧ q.handshakeSeen = p.handshakeSeen := by
    intro p q octet result
    unfold appendLineByte at result
    split at result
    · cases result
    · cases result
      exact ⟨rfl, rfl⟩
  have notNone : parser.block.isNone = false := by
    rw [← Option.not_isSome, isOpen]
    rfl
  simp only [pushByte, seen, Bool.not_true, Bool.false_eq_true, if_false, notNone,
    Bool.false_and, bind, Except.bind] at answered
  split at answered
  · cases answered
    exact .inl ⟨rfl, isOpen, seen⟩
  · split at answered
    · split at answered
      · cases answered
      · rename_i held heldEq
        obtain ⟨heldBlock, heldSeen⟩ := appended heldEq
        split at answered
        · exact flushed (heldSeen.trans rfl) (by rw [heldBlock]; exact isOpen) answered
        · split at answered
          · cases answered
            exact .inl ⟨rfl, by rw [heldBlock]; exact isOpen, heldSeen.trans rfl⟩
          · split at answered
            · cases answered
            · rename_i more moreEq
              obtain ⟨moreBlock, moreSeen⟩ := appended moreEq
              cases answered
              exact .inl ⟨rfl, by rw [moreBlock, heldBlock]; exact isOpen,
                moreSeen.trans (heldSeen.trans rfl)⟩
    · split at answered
      · cases answered
        exact .inl ⟨rfl, isOpen, rfl⟩
      · split at answered
        · exact flushed seen isOpen answered
        · split at answered
          · cases answered
          · rename_i more moreEq
            obtain ⟨moreBlock, moreSeen⟩ := appended moreEq
            cases answered
            exact .inl ⟨rfl, by rw [moreBlock]; exact isOpen, moreSeen.trans seen⟩

/-- Inside a block the first event of any octets is the block's result. -/
theorem push_open_head {parser next : TmuxControlProtocolParser} {octets : List UInt8}
    {events : List TmuxControlProtocolEvent} (seen : parser.handshakeSeen = true)
    (isOpen : parser.block.isSome) (answered : parser.push octets = .ok (next, events))
    (name : List UInt8) (args : List (List UInt8)) :
    events.head? ≠ some (.notification name args) := by
  induction octets generalizing parser events with
  | nil =>
      cases answered
      simp
  | cons byte rest inductionHypothesis =>
      rw [push_cons] at answered
      cases step : parser.pushByte byte with
      | error overflow => simp [step] at answered
      | ok answer =>
          obtain ⟨middle, first⟩ := answer
          rw [step, Answer.ok_andThen] at answered
          cases further : middle.push rest with
          | error overflow => simp [further, Except.map] at answered
          | ok answer =>
              obtain ⟨last, later⟩ := answer
              simp only [further, Except.map, Except.ok.injEq, Prod.mk.injEq] at answered
              obtain ⟨rfl, rfl⟩ := answered
              rcases pushByte_open seen isOpen step with ⟨rfl, middleOpen, middleSeen⟩ |
                ⟨lines, error, rfl⟩
              · exact inductionHypothesis middleSeen middleOpen further
              · simp

/-- What is pushed after an answer comes after its events. -/
theorem push_append_ok {parser middle next : TmuxControlProtocolParser} {first second : List UInt8}
    {events all : List TmuxControlProtocolEvent} (pushed : parser.push first = .ok (middle, events))
    (answered : parser.push (first ++ second) = .ok (next, all)) :
    ∃ later, middle.push second = .ok (next, later) ∧ all = events ++ later := by
  rw [push_append, pushed, Answer.ok_andThen] at answered
  cases further : middle.push second with
  | error overflow => simp [further, Except.map] at answered
  | ok answer =>
      obtain ⟨last, later⟩ := answer
      simp only [further, Except.map, Except.ok.injEq, Prod.mk.injEq] at answered
      exact ⟨later, by rw [answered.1], answered.2.symm⟩

/-- A block with a line taken for its guard is answered short: the lines before
that one. -/
theorem push_command_taken {block : BlockEvent} {carriage : Bool} {rest : List UInt8}
    {next : TmuxControlProtocolParser} {events : List TmuxControlProtocolEvent}
    (fits : (ControlEvent.command block).WithinLimits carriage)
    (taken : ∃ line ∈ block.lines, block.takenForGuard (Utf8.encode line.1) = true)
    (answered : (atLine none 0).push ((ControlEvent.command block).encode carriage ++ rest) =
      .ok (next, events)) :
    ∃ read error later, events = .commandResult read error :: later ∧
      read.length < block.lines.length := by
  obtain ⟨found, isFirst⟩ := Option.isSome_iff_exists.mp
    (List.find?_isSome.mpr taken)
  obtain ⟨isTaken, before, after, shape, bodyBefore⟩ := List.find?_eq_some_iff_append.mp isFirst
  have body : ∀ line ∈ before, block.takenForGuard (Utf8.encode line.1) = false := by
    intro line member
    simpa using bodyBefore line member
  have lineFits : ∀ line ∈ block.lines, lineBytes carriage (Utf8.encode line.1) ≤ maxLineBytes := by
    intro line member
    apply fits.1
    simp only [ControlEvent.lines, List.cons_append, List.mem_cons, List.mem_append, List.mem_map]
    exact .inr (.inl ⟨line, member, rfl⟩)
  have total := fits.2 block rfl
  rw [blockBytes_eq, shape, bodyBytes_append, bodyBytes_cons] at total
  have octets : (ControlEvent.command block).encode carriage ++ rest =
      guardLine beginMark block.time block.number block.flags ++ lineEnd carriage ++
        (encodeBody carriage before ++ (Utf8.encode found.1 ++ lineEnd carriage ++
          (encodeBody carriage after ++ (block.closing ++ lineEnd carriage) ++ rest))) := by
    rw [encode_command, shape]
    simp [encodeBody]
  rw [octets] at answered
  obtain ⟨events₁, answered₁, rfl⟩ := push_append_ok
    (push_begin block carriage (fits.1 _ (by simp [ControlEvent.lines]))) answered
  obtain ⟨events₂, answered₂, rfl⟩ := push_append_ok
    (push_body block carriage [] 0 body
      (fun line member => lineFits line (by simp [shape, member])) (by omega)) answered₁
  obtain ⟨error, ends⟩ := parseBlockLine_taken
    (atLine (some (block.openWith ([] ++ before.map readLine)))
      (0 + bodyBytes carriage before + lineBytes carriage (Utf8.encode found.1) + 1))
    ([] ++ before.map readLine) isTaken
  have closes := push_blockLine (block.openWith ([] ++ before.map readLine)) carriage
    (bodyLine_noFeed found) (bodyLine_last found)
    (lineFits found (by simp [shape]))
    (show 0 + bodyBytes carriage before + lineBytes carriage (Utf8.encode found.1) + 1 ≤
      maxBlockBytes by omega)
  rw [ends] at closes
  obtain ⟨events₃, _, rfl⟩ := push_append_ok closes answered₂
  exact ⟨before.map readLine, error, events₃, by simp, by simp [shape]⟩

/-- An event that is not read as written is answered as something else. -/
theorem push_misread {event : ControlEvent} {carriage : Bool} {rest : List UInt8}
    {next : TmuxControlProtocolParser} {events : List TmuxControlProtocolEvent}
    (fits : event.WithinLimits carriage) (misread : ¬ event.ReadAsWritten)
    (answered : (atLine none 0).push (event.encode carriage ++ rest) = .ok (next, events)) :
    events.head? ≠ some event.event := by
  cases event with
  | command block =>
      by_cases taken : ∃ line ∈ block.lines, block.takenForGuard (Utf8.encode line.1) = true
      · obtain ⟨read, error, later, rfl, short⟩ := push_command_taken fits taken answered
        simp only [List.head?_cons, ControlEvent.event, ne_eq, Option.some.injEq,
          TmuxControlProtocolEvent.commandResult.injEq, not_and]
        intro same
        simp [same] at short
      · -- No line ends the block early, so one lost its byte order mark.
        have body : ∀ line ∈ block.lines, block.takenForGuard (Utf8.encode line.1) = false := by
          intro line member
          exact Bool.eq_false_iff.mpr fun isTaken => taken ⟨line, member, isTaken⟩
        obtain ⟨later, _, rfl⟩ := push_append_ok (push_command fits body) answered
        simp only [List.cons_append, List.head?_cons, ControlEvent.event, ne_eq,
          Option.some.injEq, TmuxControlProtocolEvent.commandResult.injEq, not_and]
        intro same
        refine absurd (fun line member => ⟨body line member, ?_⟩) misread
        exact (utf8Decode_encode_eq_iff line.1).mp (List.map_inj_left.mp same line member)
  | output pane data => exact absurd trivial misread
  | extendedOutput pane age more data => exact absurd trivial misread
  | notification said =>
      have topLine : (atLine none 0).push (said.line ++ lineEnd carriage) =
          .ok ((atLine none 0).parseTopLine said.line) :=
        push_topLine carriage (by simp [NotificationEvent.line]) (notification_plain said)
          (fits.1 _ (by simp [ControlEvent.lines]))
      obtain ⟨⟨time, number, flags⟩, parsed⟩ := Option.ne_none_iff_exists'.mp misread
      have opens : (atLine none 0).parseTopLine said.line =
          (atLine (some ⟨time, number, flags, []⟩) 0, []) := by
        simp [parseTopLine, parsed, atLine]
      rw [opens] at topLine
      rw [encode_single carriage rfl] at answered
      obtain ⟨later, further, rfl⟩ := push_append_ok topLine answered
      exact push_open_head rfl rfl further _ _

/-! ## Streams -/

/-- A stream: a preamble, the handshake, and events as tmux writes them. -/
def streamOf (carriage : Bool) (preamble : List UInt8) (events : List ControlEvent) : List UInt8 :=
  preamble ++ handshake ++ events.flatMap (ControlEvent.encode carriage)

/-- Within the size limits, however the stream is cut, the parser answers exactly
the events tmux wrote if and only if each of them is read as written. -/
theorem decodes_iff_readAsWritten (carriage : Bool) (events : List ControlEvent)
    (preamble : List UInt8) (chunks : List (List UInt8))
    (fits : ∀ event ∈ events, event.WithinLimits carriage)
    (absent : ¬ handshake <:+: preamble)
    (cut : chunks.flatten = streamOf carriage preamble events) :
    (pushAll {} chunks).map Prod.snd = .ok (events.map ControlEvent.event) ↔
      ∀ event ∈ events, event.ReadAsWritten := by
  rw [pushAll_eq_push, cut, streamOf, push_append, push_preamble_handshake absent,
    Answer.ok_andThen]
  constructor
  · intro decoded
    by_contra someMisread
    -- The first event not read as written is where the answer leaves the stream.
    obtain ⟨found, isFirst⟩ : ∃ found,
        events.find? (fun event => decide (¬ event.ReadAsWritten)) = some found :=
      Option.isSome_iff_exists.mp (List.find?_isSome.mpr (by simpa using someMisread))
    obtain ⟨misread, before, after, rfl, readBefore⟩ := List.find?_eq_some_iff_append.mp isFirst
    have readsBefore := push_events
      (fun event member => fits event (List.mem_append_left (found :: after) member))
      (fun event member => by simpa using readBefore event member)
    cases pushed : (atLine none 0).push
        ((before ++ found :: after).flatMap (ControlEvent.encode carriage)) with
    | error overflow =>
        rw [pushed] at decoded
        simp [Except.map] at decoded
    | ok answer =>
        obtain ⟨last, all⟩ := answer
        rw [List.flatMap_append] at pushed
        obtain ⟨later, further, rfl⟩ := push_append_ok readsBefore pushed
        rw [List.flatMap_cons] at further
        have differs := push_misread (fits found (by simp)) (by simpa using misread) further
        rw [List.flatMap_append, pushed] at decoded
        simp only [Except.map, List.nil_append, Except.ok.injEq, List.map_append, List.map_cons,
          List.append_cancel_left_eq] at decoded
        exact differs (by rw [decoded]; rfl)
  · intro read
    rw [push_events fits read]
    rfl

/-- Pane output, cut inside the handshake, the line and an escape. -/
theorem decodes_iff_readAsWritten_cutOutput :
    (pushAll {} [[0x78, 0x1b, 0x50], [0x31, 0x30, 0x30, 0x30, 0x70, 0x25, 0x6f, 0x75],
      [0x74, 0x70, 0x75, 0x74, 0x20, 0x25, 0x39, 0x20, 0x61, 0x5c, 0x30], [0x31, 0x35, 0x0a]]).map
      Prod.snd = .ok [ControlEvent.event (.output ⟨[0x25, 0x39], by decide⟩ [0x61, 0x0d])] ↔
      ∀ event ∈ [ControlEvent.output ⟨[0x25, 0x39], by decide⟩ [0x61, 0x0d]],
        event.ReadAsWritten :=
  decodes_iff_readAsWritten false [.output ⟨[0x25, 0x39], by decide⟩ [0x61, 0x0d]] [0x78]
    [[0x78, 0x1b, 0x50], [0x31, 0x30, 0x30, 0x30, 0x70, 0x25, 0x6f, 0x75],
      [0x74, 0x70, 0x75, 0x74, 0x20, 0x25, 0x39, 0x20, 0x61, 0x5c, 0x30], [0x31, 0x35, 0x0a]]
    (by
      intro event member
      rw [List.mem_singleton] at member
      subst member
      exact ⟨by decide, fun block same => by cases same⟩)
    (by decide) (by rfl)

/-- A block that ran `display-message` with text like its guard and a space more. -/
def spacedGuardBlock : BlockEvent where
  time := ⟨[0x31], by decide⟩
  number := ⟨[0x32], by decide⟩
  flags := ⟨[0x31], by decide⟩
  lines := [⟨['%', 'e', 'n', 'd', ' ', '1', ' ', '2', ' ', '1', ' '], by decide⟩]
  error := false
  notGuard := by decide

/-- The parser trims a guard before it compares it, so the block ends at a line
which is not its guard and its real guard is a notification. -/
theorem decodes_not_spacedGuard :
    ¬ ∀ (carriage : Bool) (events : List ControlEvent) (preamble : List UInt8)
      (chunks : List (List UInt8)), (∀ event ∈ events, event.WithinLimits carriage) →
      ¬ handshake <:+: preamble → chunks.flatten = streamOf carriage preamble events →
      (pushAll {} chunks).map Prod.snd = .ok (events.map ControlEvent.event) := by
  intro always
  have fits : ∀ event ∈ [ControlEvent.command spacedGuardBlock], event.WithinLimits false := by
    intro event member
    rw [List.mem_singleton] at member
    subst member
    refine ⟨by decide, fun block same => ?_⟩
    cases same
    decide
  have decoded := always false [.command spacedGuardBlock] []
    [streamOf false [] [.command spacedGuardBlock]] fits (by decide) (by simp)
  have answered : (pushAll {} [streamOf false [] [.command spacedGuardBlock]]).map Prod.snd =
      .ok [.commandResult [] false,
        .notification [0x65, 0x6e, 0x64] [[0x31], [0x32], [0x31]]] := by
    rfl
  rw [answered] at decoded
  simp [ControlEvent.event, spacedGuardBlock] at decoded

end ServerBox.Terminal.Tmux
