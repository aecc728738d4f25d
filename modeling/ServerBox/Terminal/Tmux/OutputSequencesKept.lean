import ServerBox.Terminal.Tmux.OutputSequences

/-!
# What comes out of each sequence

A sequence comes out whole or not at all, but for those the limit on held octets cuts: a CSI
sequence whose final octet is the first beyond it comes out without that octet, and more octets
than it of an escape, or of a sequence given up, are lost.
-/

namespace ServerBox.Terminal.Tmux.TmuxOutputNormalizer

variable {Status : Type} (reader : StatusReader Status)

/-- As it stands or not at all. A title may come out as the OSC it stands for; a plain octet and
a sequence given up come out in any case. -/
def Token.Allowed : Token → List UInt8 → Prop
  | .plain byte, output => output = [byte]
  | .broken held, output => output = held
  | .string .tmuxTitle body bell, output =>
      output = [] ∨ output = introducerFor .osc ++ titlePayload body ++ terminator bell
  | token, output => output = [] ∨ output = token.octets

/-- The octets held come to the limit: at the final octet of a CSI sequence, before that of an
escape, or before a sequence is given up. -/
def Token.TooLong : Token → Prop
  | .csi middle _ => middle.length + 2 = maxControlBytes
  | .escape intermediates _ => maxControlBytes < intermediates.length + 1
  | .broken held => maxControlBytes < held.length
  | _ => False

/-- What comes out of a token, between two others; of one given up, what `close` would flush. -/
def shown (token : Token) : List UInt8 :=
  let ran := reset.feedAll reader token.front
  match token.last with
  | none => ran.output ++ ran.next.close.2
  | some byte => ran.output ++ (ran.next.feed reader byte).output

/-! ### Octets held -/

theorem feed_csi_overflows {control : List UInt8} {byte : UInt8}
    (inside : isParameter byte || isIntermediate byte) (full : control.length ≥ maxControlBytes) :
    feed reader { state := .csi, control } byte =
      { next := { state := .csi, control, overflowed := true } } := by
  have taken : ¬((!isParameter byte && !isIntermediate byte) = true) := by
    simpa [Decidable.imp_iff_not_or] using inside
  simp only [feed, consumeCsi, not_isFinal inside, Bool.false_eq_true, if_false, if_neg taken,
    if_pos full]

theorem feedAll_csiOverflowed {control middle : List UInt8}
    (inside : ∀ byte ∈ middle, isParameter byte || isIntermediate byte) :
    feedAll reader { state := .csi, control, overflowed := true } middle =
      { next := { state := .csi, control, overflowed := true } } := by
  induction middle with
  | nil => exact feedAll_nil reader _
  | cons byte rest inductionHypothesis =>
      have notFinal := not_isFinal (inside byte List.mem_cons_self)
      have step : feed reader { state := .csi, control, overflowed := true } byte =
          { next := { state := .csi, control, overflowed := true } } := by
        simp [feed, consumeCsi, notFinal]
      rw [feedAll_quiet reader step]
      exact inductionHypothesis fun byte member => inside byte (List.mem_cons_of_mem _ member)

/-- A CSI sequence is held up to the limit. -/
theorem feedAll_csi_front {middle : List UInt8}
    (inside : ∀ byte ∈ middle, isParameter byte || isIntermediate byte) :
    reset.feedAll reader (0x1b :: 0x5b :: middle) =
      { next := { state := .csi
                  control := (0x1b :: 0x5b :: middle).take maxControlBytes
                  overflowed := maxControlBytes < middle.length + 2 } } := by
  by_cases fits : middle.length + 2 ≤ maxControlBytes
  · have whole : (0x1b :: 0x5b :: middle).take maxControlBytes = 0x1b :: 0x5b :: middle :=
      List.take_of_length_le fits
    rw [whole, decide_eq_false (by omega)]
    exact breakable_reads reader (.csi inside fits)
  · have limit : (middle.take (maxControlBytes - 2)).length + 2 = maxControlBytes := by
      rw [List.length_take, maxControlBytes] at *
      omega
    have insideFront : ∀ byte ∈ middle.take (maxControlBytes - 2),
        isParameter byte || isIntermediate byte :=
      fun byte member => inside byte (List.mem_of_mem_take member)
    cases left : middle.drop (maxControlBytes - 2) with
    | nil =>
        have short := List.drop_eq_nil_iff.mp left
        omega
    | cons byte rest =>
        have insideLeft : ∀ octet ∈ byte :: rest, isParameter octet || isIntermediate octet :=
          fun octet member => inside octet (List.mem_of_mem_drop (left ▸ member))
        have split : (0x1b :: 0x5b :: middle : List UInt8) =
            (0x1b :: 0x5b :: middle.take (maxControlBytes - 2)) ++ byte :: rest := by
          rw [← left, List.cons_append, List.cons_append, List.take_append_drop]
        have kept : (0x1b :: 0x5b :: middle : List UInt8).take maxControlBytes =
            0x1b :: 0x5b :: middle.take (maxControlBytes - 2) := rfl
        have front := breakable_reads reader (.csi insideFront (le_of_eq limit))
        rw [kept, decide_eq_true (by omega), split, feedAll_append, front]
        simp only [Ran.andThen, List.nil_append]
        rw [feedAll_quiet reader (feed_csi_overflows reader (insideLeft byte List.mem_cons_self)
            (by simp only [List.length_cons]; omega)),
          feedAll_csiOverflowed reader fun octet member =>
            insideLeft octet (List.mem_cons_of_mem _ member)]

/-- Octets outside sequences come out. -/
theorem feedAll_plain {text : List UInt8} (plain : ∀ byte ∈ text, byte ≠ 0x1b) :
    reset.feedAll reader text = { next := reset, output := text } := by
  induction text with
  | nil => exact feedAll_nil reader _
  | cons byte rest inductionHypothesis =>
      have step : feed reader reset byte = { next := reset, output := [byte] } := by
        simp [feed, feedData, reset, plain byte List.mem_cons_self]
      rw [feedAll_cons, step, List.nil_append]
      simp only [Fed.ran, Ran.andThen]
      rw [inductionHypothesis fun byte member => plain byte (List.mem_cons_of_mem _ member)]
      rfl

theorem intermediate_ne_escape {byte : UInt8} (intermediate : isIntermediate byte) :
    byte ≠ 0x1b := by
  rintro rfl
  revert intermediate
  decide

/-- The intermediates of an escape are held up to the limit; the one beyond it drops them all. -/
theorem feedAll_escape_front {middle : List UInt8} (nonempty : middle ≠ [])
    (intermediate : ∀ byte ∈ middle, isIntermediate byte) :
    reset.feedAll reader (0x1b :: middle) =
      if middle.length + 1 ≤ maxControlBytes then
        { next := { state := .escapeIntermediate, control := 0x1b :: middle } }
      else { next := reset, output := middle.drop maxControlBytes } := by
  by_cases fits : middle.length + 1 ≤ maxControlBytes
  · rw [if_pos fits]
    exact breakable_reads reader (.intermediate nonempty intermediate fits)
  · rw [if_neg fits]
    have limit : (middle.take (maxControlBytes - 1)).length + 1 = maxControlBytes := by
      rw [List.length_take, maxControlBytes] at *
      omega
    have frontNonempty : middle.take (maxControlBytes - 1) ≠ [] := by
      intro empty
      rw [empty, maxControlBytes] at limit
      cases limit
    cases left : middle.drop (maxControlBytes - 1) with
    | nil =>
        have short := List.drop_eq_nil_iff.mp left
        omega
    | cons byte rest =>
        have intermediateLeft : ∀ octet ∈ byte :: rest, isIntermediate octet :=
          fun octet member => intermediate octet (List.mem_of_mem_drop (left ▸ member))
        have split : (0x1b :: middle : List UInt8) =
            (0x1b :: middle.take (maxControlBytes - 1)) ++ byte :: rest := by
          rw [← left, List.cons_append, List.take_append_drop]
        have later : middle.drop maxControlBytes = rest := by
          have tail := congrArg List.tail left
          rwa [List.tail_drop] at tail
        have front := breakable_reads reader (.intermediate frontNonempty
          (fun octet member => intermediate octet (List.mem_of_mem_take member)) (le_of_eq limit))
        have range := intermediate_range (intermediateLeft byte List.mem_cons_self)
        have drops : feed reader { state := .escapeIntermediate
                                   control := 0x1b :: middle.take (maxControlBytes - 1) } byte =
            { next := reset } := by
          have full : (0x1b :: middle.take (maxControlBytes - 1)).length ≥ maxControlBytes :=
            ge_of_eq limit
          simp only [feed, consumeEscapeIntermediate, range, decide_true, Bool.and_self, if_true,
            if_pos full]
        rw [split, feedAll_append, front, later]
        simp only [Ran.andThen, List.nil_append]
        rw [feedAll_quiet reader drops, feedAll_plain reader fun octet member =>
          intermediate_ne_escape (intermediateLeft octet (List.mem_cons_of_mem _ member))]

/-! ### One sequence -/

/-- The octets of a CSI sequence are no query before its final one. -/
theorem not_isTerminalQuery {middle : List UInt8}
    (inside : ∀ byte ∈ middle, isParameter byte || isIntermediate byte) :
    isTerminalQuery (0x1b :: 0x5b :: middle) = false := by
  cases middle with
  | nil => rfl
  | cons first rest =>
      have lastInside := inside _ (List.getLast_mem (List.cons_ne_nil first rest))
      have notFinal := not_isFinal lastInside
      have others : ∀ final : UInt8, isFinal final = true →
          ((first :: rest).getLast (List.cons_ne_nil first rest) == final) = false := by
        intro final isFinal
        rw [beq_eq_false_iff_ne]
        rintro rfl
        rw [notFinal] at isFinal
        cases isFinal
      simp only [isTerminalQuery, others 0x63 rfl, others 0x6e rfl, others 0x74 rfl,
        others 0x75 rfl, Bool.false_and, Bool.or_self]

/-- What comes out of a CSI sequence. -/
theorem shown_csi {middle : List UInt8} {final : UInt8}
    (inside : ∀ byte ∈ middle, isParameter byte || isIntermediate byte) (isFinal_ : isFinal final) :
    ((reset.feedAll reader (0x1b :: 0x5b :: middle)).next.feed reader final).next = reset ∧
      ((reset.feedAll reader (0x1b :: 0x5b :: middle)).next.feed reader final).replay = [] ∧
      shown reader (.csi middle final) =
        if maxControlBytes < middle.length + 2 then []
        else if middle.length + 2 = maxControlBytes then 0x1b :: 0x5b :: middle
        else if isTerminalQuery (0x1b :: 0x5b :: middle ++ [final]) then []
        else 0x1b :: 0x5b :: middle ++ [final] := by
  simp only [shown, Token.front, Token.last, feedAll_csi_front reader inside, List.nil_append]
  by_cases beyond : maxControlBytes < middle.length + 2
  · have step : feed reader { state := .csi
                              control := (0x1b :: 0x5b :: middle).take maxControlBytes
                              overflowed := true } final = { next := reset } := by
      simp [feed, consumeCsi, isFinal_]
    rw [decide_eq_true beyond, step, if_pos beyond]
    exact ⟨rfl, rfl, rfl⟩
  · have whole : (0x1b :: 0x5b :: middle).take maxControlBytes = 0x1b :: 0x5b :: middle :=
      List.take_of_length_le (not_lt.mp beyond)
    rw [decide_eq_false beyond, whole, feed_csi_final reader isFinal_, if_neg beyond, csiSequence]
    by_cases full : middle.length + 2 = maxControlBytes
    · have noRoom : ¬(0x1b :: 0x5b :: middle).length < maxControlBytes := by
        simp only [List.length_cons]
        omega
      rw [if_neg noRoom, if_pos full, not_isTerminalQuery inside, if_neg Bool.false_ne_true]
      exact ⟨rfl, rfl, rfl⟩
    · have room : (0x1b :: 0x5b :: middle).length < maxControlBytes := by
        simp only [List.length_cons]
        omega
      rw [if_pos room, if_neg full]
      split <;> exact ⟨rfl, rfl, rfl⟩

/-- What comes out of an escape with intermediates. -/
theorem shown_escape {intermediates : List UInt8} {final : UInt8} (nonempty : intermediates ≠ [])
    (inside : ∀ byte ∈ intermediates, isIntermediate byte) (ends : endsIntermediate final) :
    ((reset.feedAll reader (0x1b :: intermediates)).next.feed reader final).next = reset ∧
      ((reset.feedAll reader (0x1b :: intermediates)).next.feed reader final).replay = [] ∧
      shown reader (.escape intermediates final) =
        if intermediates.length + 1 ≤ maxControlBytes then 0x1b :: intermediates ++ [final]
        else intermediates.drop maxControlBytes ++ [final] := by
  simp only [shown, Token.front, Token.last, feedAll_escape_front reader nonempty inside]
  have range : 0x30 ≤ final ∧ final ≤ 0x7e := by simpa [endsIntermediate] using ends
  have outside : ¬(0x20 ≤ final && final ≤ 0x2f) = true := by
    have : ¬final ≤ 0x2f := fun le => absurd (UInt8.le_trans range.1 le) (by decide)
    simp [this]
  by_cases fits : intermediates.length + 1 ≤ maxControlBytes
  · have step :
        feed reader { state := .escapeIntermediate, control := 0x1b :: intermediates } final =
          { next := reset, output := 0x1b :: intermediates ++ [final] } := by
      simp only [feed, consumeEscapeIntermediate, if_neg outside, range, decide_true, Bool.and_self,
        if_true]
    rw [if_pos fits, if_pos fits, step]
    exact ⟨rfl, rfl, rfl⟩
  · have notEscape : final ≠ 0x1b := by
      rintro rfl
      revert range
      decide
    have step : feed reader reset final = { next := reset, output := [final] } := by
      simp [feed, feedData, reset, notEscape]
    rw [if_neg fits, if_neg fits, step]
    exact ⟨rfl, rfl, rfl⟩

/-- What comes out of an escape of two octets. -/
theorem shown_pair {final : UInt8} (notEscape : final ≠ 0x1b) (notCsi : final ≠ 0x5b)
    (notString : stringIntroducer final = none) (outside : isIntermediate final = false) :
    ((reset.feedAll reader [0x1b]).next.feed reader final).next = reset ∧
      ((reset.feedAll reader [0x1b]).next.feed reader final).replay = [] ∧
      shown reader (.escape [] final) =
        if knownEscapes.contains final then [0x1b, final] else [] := by
  have front := breakable_reads reader Breakable.escape
  simp only at front
  have notIntermediate : ¬(0x20 ≤ final && final ≤ 0x2f) = true := by
    simpa only [isIntermediate, Bool.not_eq_true] using outside
  simp only [shown, Token.front, Token.last, front, feed, consumeEscapeFinal, if_neg notEscape,
    if_neg notCsi, notString, if_neg notIntermediate]
  split <;> exact ⟨rfl, rfl, rfl⟩

/-! ### String controls -/

/-- A string control with so many octets of its body read: they are held, or it will be dropped. -/
structure Holds (kind : ParserState) (length : Nat) (normalizer : TmuxOutputNormalizer) :
    Prop where
  state : normalizer.state = kind
  notWaiting : normalizer.waitingForStringTerminator = false
  held : normalizer.overflowed = true ∨
    (normalizer.payload.length = length ∧ length ≤ maxPayloadBytes)

variable {kind : ParserState}

/-- An octet is held, or the string control will be dropped. -/
theorem Holds.appendPayload {length : Nat} {normalizer : TmuxOutputNormalizer}
    (holds : Holds kind length normalizer) (byte : UInt8) :
    Holds kind (length + 1) (normalizer.appendPayload byte).2 ∧
      ((normalizer.appendPayload byte).1 = false →
        (normalizer.appendPayload byte).2.overflowed = true) := by
  unfold TmuxOutputNormalizer.appendPayload
  split
  · exact ⟨⟨holds.state, holds.notWaiting, .inl rfl⟩, fun _ => rfl⟩
  · next fits =>
      refine ⟨⟨holds.state, holds.notWaiting, ?_⟩, fun isFalse => nomatch isFalse⟩
      obtain beyond | ⟨same, _⟩ := holds.held
      · exact .inl beyond
      · rw [same] at fits
        exact .inr ⟨by simp [same], by omega⟩

/-- A plain octet of a body is kept, or not. -/
theorem feed_string_plain {normalizer : TmuxOutputNormalizer} {byte : UInt8}
    (string : readsString kind) (state : normalizer.state = kind)
    (notWaiting : normalizer.waitingForStringTerminator = false) (notEscape : byte ≠ 0x1b)
    (notBell : ¬(byte = 0x07 ∧ kind ≠ .dcs)) :
    normalizer.feed reader byte = { next := (normalizer.appendPayload byte).2 } := by
  have same : readsString normalizer.state := by rwa [state]
  have noBell : ¬(byte = 0x07 ∧ normalizer.state ≠ .dcs) := by rwa [state]
  rw [feed_string reader same, consumeStringControl, notWaiting, if_neg Bool.false_ne_true,
    if_neg noBell, if_neg notEscape]

/-- An ESC that no `\` follows is kept with the octet behind it, or not. -/
theorem feedAll_string_escaped {normalizer : TmuxOutputNormalizer} {byte : UInt8}
    (string : readsString kind) (state : normalizer.state = kind)
    (notWaiting : normalizer.waitingForStringTerminator = false) (notTerminator : byte ≠ 0x5c) :
    normalizer.feedAll reader [0x1b, byte] =
      { next := if (normalizer.appendPayload 0x1b).1 then
          ((normalizer.appendPayload 0x1b).2.appendPayload byte).2
        else (normalizer.appendPayload 0x1b).2 } := by
  have same : readsString normalizer.state := by rwa [state]
  have first : normalizer.feed reader 0x1b =
      { next := { normalizer with waitingForStringTerminator := true } } := by
    rw [feed_string reader same, consumeStringControl, notWaiting]
    simp
  have again : { { normalizer with waitingForStringTerminator := true } with
      waitingForStringTerminator := false } = normalizer := by
    rw [← notWaiting]
  have sameWaiting :
      readsString { normalizer with waitingForStringTerminator := true }.state := same
  have second : feed reader { normalizer with waitingForStringTerminator := true } byte =
      { next := if (normalizer.appendPayload 0x1b).1 then
          ((normalizer.appendPayload 0x1b).2.appendPayload byte).2
        else (normalizer.appendPayload 0x1b).2 } := by
    rw [feed_string reader sameWaiting, consumeStringControl, if_pos rfl, if_neg notTerminator,
      again]
    dsimp only
    split <;> rfl
  rw [feedAll_quiet reader first, feedAll_quiet reader second, feedAll_nil]

/-- A body is held, or the string control will be dropped. -/
theorem feedAll_body_holds {control body : List UInt8} (string : readsString kind)
    (isBody : Body kind body) :
    ∃ next, feedAll reader { state := kind, control } body = { next } ∧
      Holds kind body.length next := by
  induction isBody with
  | nil => exact ⟨_, feedAll_nil reader _, rfl, rfl, .inr ⟨rfl, Nat.zero_le _⟩⟩
  | @plain body byte isBody notEscape notBell inductionHypothesis =>
      obtain ⟨before, run, holds⟩ := inductionHypothesis
      refine ⟨(before.appendPayload byte).2, ?_, ?_⟩
      · rw [feedAll_append, run]
        simp only [Ran.andThen, List.nil_append]
        rw [feedAll_quiet reader (feed_string_plain reader string holds.state holds.notWaiting
          notEscape notBell), feedAll_nil]
      · rw [List.length_append, List.length_singleton]
        exact (holds.appendPayload byte).1
  | @escaped body byte isBody notTerminator inductionHypothesis =>
      obtain ⟨before, run, holds⟩ := inductionHypothesis
      obtain ⟨first, dropped⟩ := holds.appendPayload 0x1b
      have whole : feedAll reader { state := kind, control } (body ++ [0x1b, byte]) =
          before.feedAll reader [0x1b, byte] := by
        rw [feedAll_append, run]
        simp [Ran.andThen]
      rw [whole, feedAll_string_escaped reader string holds.state holds.notWaiting notTerminator]
      refine ⟨_, rfl, ?_⟩
      rw [List.length_append, List.length_cons, List.length_singleton]
      split
      · exact (first.appendPayload byte).1
      · next full => exact ⟨first.state, first.notWaiting, .inl (dropped (by simpa using full))⟩

theorem octets_string {body : List UInt8} {bell : Bool} :
    (Token.string kind body bell).octets = introducerFor kind ++ body ++ terminator bell := by
  cases bell <;> simp [Token.octets, Token.front, Token.last, terminator]

/-- A string control comes to its terminator with its body held, or to be dropped. -/
theorem feedAll_string_front {body : List UInt8} {bell : Bool} (string : readsString kind)
    (isBody : Body kind body) (allowed : bell = true → kind ≠ .dcs) :
    ∃ ended : TmuxOutputNormalizer,
      (reset.feedAll reader (Token.string kind body bell).front).output = [] ∧
      (reset.feedAll reader (Token.string kind body bell).front).next.feed reader
          (if bell then 0x07 else 0x5c) = ended.finishStringControl reader bell ∧
      (body.length ≤ maxPayloadBytes →
        ended = { state := kind, control := introducerFor kind, payload := body }) ∧
      (maxPayloadBytes < body.length → ended.overflowed = true) := by
  obtain ⟨ended, run, holds⟩ := @feedAll_body_holds _ reader _ (introducerFor kind) _ string isBody
  have introduced := string_reads reader string .nil (Nat.zero_le _)
  rw [List.append_nil] at introduced
  have front : reset.feedAll reader (introducerFor kind ++ body) = { next := ended } := by
    rw [feedAll_append, introduced]
    simp only [Ran.andThen, run, List.nil_append]
  have same : readsString ended.state := by rwa [holds.state]
  have whole : reset.feedAll reader (Token.string kind body bell).front =
      { next := { ended with waitingForStringTerminator := !bell } } := by
    rw [Token.front, feedAll_append, front]
    cases bell with
    | true =>
        simp only [Ran.andThen, if_true, feedAll_nil, List.append_nil, Bool.not_true,
          ← holds.notWaiting]
    | false =>
        have escape : ended.feed reader 0x1b =
            { next := { ended with waitingForStringTerminator := true } } := by
          rw [feed_string reader same, consumeStringControl, holds.notWaiting]
          simp
        simp only [Ran.andThen, if_neg Bool.false_ne_true, feedAll_quiet reader escape, feedAll_nil,
          List.append_nil, Bool.not_false]
  have sameEnded : { ended with waitingForStringTerminator := false } = ended := by
    rw [← holds.notWaiting]
  rw [whole]
  refine ⟨ended, rfl, ?_, ?_, ?_⟩
  · have sameWaiting :
        readsString { ended with waitingForStringTerminator := !bell }.state := same
    rw [feed_string reader sameWaiting, consumeStringControl]
    cases bell with
    | true =>
        have notDcs : ended.state ≠ .dcs := by rw [holds.state]; exact allowed rfl
        simp only [Bool.not_true, Bool.false_eq_true, if_false, if_true, notDcs, ne_eq,
          not_false_eq_true, and_self, sameEnded]
    | false => simp only [Bool.not_false, if_true, Bool.false_eq_true, if_false, sameEnded]
  · intro fits
    have held := string_reads reader string isBody fits
    rw [front] at held
    exact congrArg Ran.next held
  · exact fun beyond => holds.held.resolve_right (by omega)

/-- A passthrough is no query. -/
theorem not_isDcsQuery {body : List UInt8}
    (passthrough : passthroughPrefix.isPrefixOf body = true) : isDcsQuery body = false := by
  obtain ⟨rest, rfl⟩ := List.isPrefixOf_iff_prefix.mp passthrough
  rfl

/-- What comes out of a string control, and what is read behind it. -/
theorem shown_string {body : List UInt8} {bell : Bool} (string : readsString kind)
    (isBody : Body kind body) (allowed : bell = true → kind ≠ .dcs) :
    ((reset.feedAll reader (Token.string kind body bell).front).next.feed reader
        (if bell then 0x07 else 0x5c)).next = reset ∧
      ((reset.feedAll reader (Token.string kind body bell).front).next.feed reader
        (if bell then 0x07 else 0x5c)).replay = (Token.string kind body bell).again ∧
      (Token.string kind body bell).Allowed (shown reader (.string kind body bell)) := by
  obtain ⟨ended, quiet, finishes, fits, beyond⟩ := feedAll_string_front reader string isBody allowed
  have shownEq : shown reader (.string kind body bell) =
      (ended.finishStringControl reader bell).output := by
    simp only [shown, Token.last, quiet, finishes, List.nil_append]
  rw [finishes, shownEq]
  by_cases within : body.length ≤ maxPayloadBytes
  · rw [fits within]
    have escape (isDcs : kind = .dcs) : bell = false := by
      cases bell with
      | false => rfl
      | true => exact absurd isDcs (allowed rfl)
    cases kind with
    | dcs =>
        rw [escape rfl]
        cases passthrough : passthroughPrefix.isPrefixOf body with
        | true =>
            have noQuery := not_isDcsQuery passthrough
            refine ⟨?_, ?_, .inl ?_⟩ <;>
              simp [finishStringControl, noQuery, finishDcs, passthrough, Token.again, within]
        | false =>
            have alone : (Token.string .dcs body false).again = [] := by
              simp [Token.again, passthrough]
            rw [alone]
            cases query : isDcsQuery body with
            | true =>
                refine ⟨?_, ?_, .inl ?_⟩ <;> simp [finishStringControl, query]
            | false =>
                refine ⟨?_, ?_, .inr ?_⟩
                · simp [finishStringControl, query, finishDcs, passthrough]
                · simp [finishStringControl, query, finishDcs, passthrough]
                · rw [octets_string]
                  simp [finishStringControl, query, finishDcs, passthrough, introducerFor,
                    terminator]
    | osc =>
        simp only [finishStringControl, Bool.false_eq_true, if_false, Token.again]
        split
        · exact ⟨rfl, rfl, .inl rfl⟩
        · split
          · exact ⟨rfl, rfl, .inl rfl⟩
          · exact ⟨rfl, rfl, .inr octets_string.symm⟩
    | tmuxTitle => exact ⟨rfl, rfl, .inr rfl⟩
    | sos | pm | apc => exact ⟨rfl, rfl, .inr octets_string.symm⟩
    | data | escape | escapeIntermediate | csi => cases string
  · have dropped : ended.finishStringControl reader bell = { next := reset } := by
      rw [finishStringControl, beyond (by omega), if_pos rfl]
    rw [dropped]
    refine ⟨rfl, ?_, ?_⟩
    · cases kind <;> simp [Token.again, within]
    · cases kind <;> exact .inl rfl

/-! ### Sequences given up -/

/-- The octets of a sequence given up are a state's, when they are held. -/
theorem GivenUp.breakable {held : List UInt8} {byte : UInt8} (givenUp : GivenUp held byte)
    (fits : held.length ≤ maxControlBytes) :
    ∃ normalizer, Breakable normalizer ∧ normalizer.control = held ∧
      normalizer.feed reader byte =
        { (reset.feed reader byte : Fed Status) with
          output := held ++ (reset.feed reader byte : Fed Status).output } := by
  cases givenUp with
  | escape => exact ⟨_, .escape, rfl, rfl⟩
  | @intermediate middle byte nonempty intermediates outside notEnds =>
      refine ⟨_, .intermediate nonempty intermediates fits, rfl, ?_⟩
      have notIntermediate : ¬(0x20 ≤ byte && byte ≤ 0x2f) = true := by
        simpa only [isIntermediate, Bool.not_eq_true] using outside
      have notFinal : ¬(0x30 ≤ byte && byte ≤ 0x7e) = true := by
        simpa only [endsIntermediate, Bool.not_eq_true] using notEnds
      simp only [feed, consumeEscapeIntermediate, if_neg notIntermediate, if_neg notFinal]
      rfl
  | @csi middle byte inside outside notFinal =>
      refine ⟨_, .csi inside fits, rfl, ?_⟩
      have unknown : (!isParameter byte && !isIntermediate byte) = true := by
        simpa using outside
      simp only [feed, consumeCsi, notFinal, Bool.false_eq_true, if_false, if_pos unknown]
      rfl

/-- A sequence given up comes out when its octets are held, and not all of them do else. -/
theorem shown_broken {held : List UInt8} {byte : UInt8} (givenUp : GivenUp held byte) :
    shown reader (.broken held) = held ↔ held.length ≤ maxControlBytes := by
  constructor
  · intro whole
    by_contra beyond
    have short : (shown reader (.broken held)).length < held.length := by
      cases givenUp with
      | escape => exact absurd (by decide) beyond
      | @intermediate middle byte nonempty intermediates outside notEnds =>
          rw [List.length_cons] at beyond
          have run := feedAll_escape_front reader nonempty intermediates
          rw [if_neg beyond] at run
          have flushed : reset.close.2 = [] := close_breakable .data
          simp only [shown, Token.front, Token.last, run, flushed, List.append_nil,
            List.length_drop, List.length_cons]
          omega
      | @csi middle byte inside outside notFinal =>
          simp only [shown, Token.front, Token.last, feedAll_csi_front reader inside, close,
            reduceCtorEq, if_false, List.nil_append, List.append_nil, Bool.false_eq_true,
            List.length_take]
          omega
    rw [whole] at short
    exact lt_irrefl _ short
  · intro fits
    obtain ⟨normalizer, breakable, rfl, -⟩ := givenUp.breakable reader fits
    simp only [shown, Token.front, Token.last, breakable_reads reader breakable, List.nil_append,
      close_breakable breakable]

/-! ### Streams -/

theorem shown_plain {byte : UInt8} (notEscape : byte ≠ 0x1b) :
    (reset.feed reader byte : Fed Status) = { next := reset, output := [byte] } := by
  simp [feed, feedData, reset, notEscape]

/-- A token leaves the normalizer between two, with what is read behind it to be fed again. -/
theorem Token.Whole.ends {token : Token} (whole : token.Whole) :
    ∃ byte, token.last = some byte ∧
      ((reset.feedAll reader token.front).next.feed reader byte).next = reset ∧
      ((reset.feedAll reader token.front).next.feed reader byte).replay = token.again := by
  cases whole with
  | @plain byte notEscape =>
      have step := shown_plain reader notEscape
      refine ⟨byte, rfl, ?_, ?_⟩ <;> simp only [Token.front, feedAll_nil, step, Token.again]
  | @csi middle final inside isFinal =>
      obtain ⟨next, replay, -⟩ := shown_csi reader inside isFinal
      exact ⟨final, rfl, next, replay⟩
  | @pair final notEscape notCsi notString outside =>
      obtain ⟨next, replay, -⟩ := shown_pair reader notEscape notCsi notString outside
      exact ⟨final, rfl, next, replay⟩
  | @escape intermediates final nonempty inside ends =>
      obtain ⟨next, replay, -⟩ := shown_escape reader nonempty inside ends
      exact ⟨final, rfl, next, replay⟩
  | @string kind body bell string isBody allowed =>
      obtain ⟨next, replay, -⟩ := shown_string reader string isBody allowed
      exact ⟨_, rfl, next, replay⟩

/-- A whole token, then the octets behind it. -/
theorem feedAll_whole {token : Token} (whole : token.Whole) (rest : List UInt8) :
    (reset.feedAll reader (token.octets ++ rest)).output =
      shown reader token ++ (reset.feedAll reader (token.again ++ rest)).output := by
  obtain ⟨byte, isLast, next, replay⟩ := whole.ends reader
  rw [Token.octets, isLast, Option.toList_some, List.append_assoc, List.singleton_append,
    feedAll_append]
  simp only [Ran.andThen, feedAll_cons, Fed.ran, next, replay, shown, isLast, List.append_assoc]

/-- A sequence given up with its octets held, then the octet that gives it up. -/
theorem feedAll_broken {held : List UInt8} {byte : UInt8} (givenUp : GivenUp held byte)
    (fits : held.length ≤ maxControlBytes) (rest : List UInt8) :
    (reset.feedAll reader (held ++ byte :: rest)).output =
      held ++ (reset.feedAll reader (byte :: rest)).output := by
  obtain ⟨normalizer, breakable, rfl, step⟩ := givenUp.breakable reader fits
  rw [feedAll_append, breakable_reads reader breakable]
  simp only [Ran.andThen, feedAll_cons, Fed.ran, step, List.append_assoc, List.nil_append]

/-- A stream comes out token by token, when none of them is too long. -/
theorem feedAll_reads {stream tail : List UInt8} {tokens : List Token}
    (reads : Reads stream tokens tail) (short : ∀ token ∈ tokens, ¬token.TooLong) :
    (reset.feedAll reader stream).output =
      (tokens.map (shown reader)).flatten ++ (reset.feedAll reader tail).output := by
  induction reads with
  | begun begun => rfl
  | @whole token rest tail tokens whole reads inductionHypothesis =>
      rw [feedAll_whole reader whole, inductionHypothesis fun other member =>
        short other (List.mem_cons_of_mem _ member)]
      simp
  | @broken held rest tail byte tokens givenUp reads inductionHypothesis =>
      have fits : held.length ≤ maxControlBytes := not_lt.mp (short _ List.mem_cons_self)
      rw [feedAll_broken reader givenUp fits, inductionHypothesis fun other member =>
        short other (List.mem_cons_of_mem _ member)]
      simp [(shown_broken reader givenUp).mpr fits]

/-- A token comes out as it may exactly when it is not too long. -/
theorem Token.Whole.allowed_iff {token : Token} (whole : token.Whole) :
    token.Allowed (shown reader token) ↔ ¬token.TooLong := by
  cases whole with
  | @plain byte notEscape =>
      have step := shown_plain reader notEscape
      simp [Token.Allowed, Token.TooLong, shown, Token.front, Token.last, step]
  | @csi middle final inside isFinal =>
      obtain ⟨-, -, shownEq⟩ := shown_csi reader inside isFinal
      have octets : (Token.csi middle final).octets = 0x1b :: 0x5b :: middle ++ [final] := rfl
      simp only [Token.Allowed, Token.TooLong, shownEq, octets]
      split
      · next beyond => exact iff_of_true (.inl rfl) (by omega)
      · split
        · next full =>
            refine iff_of_false ?_ (not_not.mpr full)
            rintro (none | whole)
            · cases none
            · have lengths := congrArg List.length whole
              simp at lengths
        · next notFull =>
            refine iff_of_true ?_ notFull
            split
            · exact .inl rfl
            · exact .inr rfl
  | @pair final notEscape notCsi notString outside =>
      obtain ⟨-, -, shownEq⟩ := shown_pair reader notEscape notCsi notString outside
      simp only [Token.Allowed, Token.TooLong, shownEq]
      refine iff_of_true ?_ (by decide)
      split
      · exact .inr rfl
      · exact .inl rfl
  | @escape intermediates final nonempty inside ends =>
      obtain ⟨-, -, shownEq⟩ := shown_escape reader nonempty inside ends
      have octets : (Token.escape intermediates final).octets = 0x1b :: intermediates ++ [final] :=
        rfl
      simp only [Token.Allowed, Token.TooLong, shownEq, octets]
      split
      · next fits => exact iff_of_true (.inr rfl) (by omega)
      · next beyond =>
          refine iff_of_false ?_ (by omega)
          rintro (none | whole)
          · simp at none
          · have lengths := congrArg List.length whole
            simp only [List.length_append, List.length_drop, List.length_cons] at lengths
            omega
  | @string kind body bell string isBody allowed =>
      exact iff_of_true (shown_string reader string isBody allowed).2.2 (fun tooLong => tooLong)

/-- The tokens of a stream come out as they may exactly when none of them is too long. -/
theorem allowed_iff_of_reads {stream tail : List UInt8} {tokens : List Token}
    (reads : Reads stream tokens tail) :
    (∀ token ∈ tokens, token.Allowed (shown reader token)) ↔
      ∀ token ∈ tokens, ¬token.TooLong := by
  induction reads with
  | begun begun => simp
  | @whole token rest tail tokens whole reads inductionHypothesis =>
      rw [List.forall_mem_cons, List.forall_mem_cons, inductionHypothesis,
        whole.allowed_iff reader]
  | @broken held rest tail byte tokens givenUp reads inductionHypothesis =>
      have shownIff : Token.Allowed (.broken held) (shown reader (.broken held)) ↔
          ¬Token.TooLong (.broken held) := by
        rw [Token.Allowed, shown_broken reader givenUp, Token.TooLong, not_lt]
      rw [List.forall_mem_cons, List.forall_mem_cons, inductionHypothesis, shownIff]

/-- The output is what comes out of the tokens in their order, then of the sequence that the
stream ends in, and each token comes out as it may. -/
def Faithful (chunks : List (List UInt8)) (tokens : List Token) (tail : List UInt8) : Prop :=
  (reset.callAll reader chunks).2 =
      (tokens.map (shown reader)).flatten ++ (reset.feedAll reader tail).output ∧
    ∀ token ∈ tokens, token.Allowed (shown reader token)

/-- Every stream is read, however it is cut, and comes out faithfully exactly when none of its
tokens is too long. -/
theorem faithful_iff (chunks : List (List UInt8)) :
    (∃ tokens tail, Reads chunks.flatten tokens tail) ∧
      ∀ tokens tail, Reads chunks.flatten tokens tail →
        (Faithful reader chunks tokens tail ↔ ∀ token ∈ tokens, ¬token.TooLong) := by
  refine ⟨exists_reads chunks.flatten, ?_⟩
  intro tokens tail reads
  have allowedIff := allowed_iff_of_reads reader reads
  refine ⟨fun faithful => allowedIff.mp faithful.2, fun short => ⟨?_, allowedIff.mpr short⟩⟩
  rw [callAll_eq_feedAll]
  exact feedAll_reads reader reads short

/-- A reader that takes no status out of the stream. -/
def deafReader : StatusReader Unit where
  oscCode := []
  fromOsc := fun _ _ => none
  listens := false

theorem faithful_iff_cut :
    Faithful deafReader [[0x61, 0x1b], [0x5b, 0x6d]] [.plain 0x61, .csi [] 0x6d] [] := by
  have reads : Reads [[0x61, 0x1b], [0x5b, 0x6d]].flatten [.plain 0x61, .csi [] 0x6d] [] := by
    refine @Reads.whole (.plain 0x61) [0x1b, 0x5b, 0x6d] _ _ (.plain (by decide)) ?_
    refine @Reads.whole (.csi [] 0x6d) [] _ _ (.csi (by simp) rfl) ?_
    exact .begun .nothing
  refine ((faithful_iff deafReader _).2 _ _ reads).mpr ?_
  rintro token (_ | ⟨_, _ | ⟨_, none⟩⟩)
  · exact fun tooLong => tooLong
  · simp [Token.TooLong, maxControlBytes]
  · cases none

/-- As many parameters as a CSI sequence is held with. -/
def fullMiddle : List UInt8 := List.replicate (maxControlBytes - 2) 0x31

theorem fullMiddle_inside : ∀ byte ∈ fullMiddle, isParameter byte || isIntermediate byte := by
  intro byte member
  rw [(List.mem_replicate.mp member).2]
  rfl

theorem fullMiddle_length : fullMiddle.length + 2 = maxControlBytes := by
  rw [fullMiddle, List.length_replicate, maxControlBytes]

/-- A CSI sequence may come out without its final octet. -/
theorem not_comes_out_whole :
    ¬∀ chunks tokens, Reads chunks.flatten tokens [] →
      ∃ outputs, List.Forall₂ Token.Allowed tokens outputs ∧
        (reset.callAll deafReader chunks).2 = outputs.flatten := by
  intro claimed
  have whole : (Token.csi fullMiddle 0x6d).Whole := .csi fullMiddle_inside rfl
  have stream : [(Token.csi fullMiddle 0x6d).octets].flatten =
      (Token.csi fullMiddle 0x6d).octets ++ [] := by simp
  have reads : Reads [(Token.csi fullMiddle 0x6d).octets].flatten [.csi fullMiddle 0x6d] [] := by
    rw [stream]
    exact .whole whole (.begun .nothing)
  obtain ⟨outputs, allowed, same⟩ := claimed _ _ reads
  have cut : (reset.callAll deafReader [(Token.csi fullMiddle 0x6d).octets]).2 =
      0x1b :: 0x5b :: fullMiddle := by
    have again : reset.feedAll deafReader ((Token.csi fullMiddle 0x6d).again ++ []) =
        { next := reset } := feedAll_nil deafReader _
    have length := fullMiddle_length
    rw [callAll_eq_feedAll, stream, feedAll_whole deafReader whole, again,
      (shown_csi deafReader fullMiddle_inside rfl).2.2, if_neg (by omega), if_pos length]
    exact List.append_nil (0x1b :: 0x5b :: fullMiddle)
  rw [cut] at same
  have lengths := congrArg List.length same
  cases allowed with
  | cons one none =>
      cases none
      rw [List.flatten_cons, List.flatten_nil, List.append_nil] at lengths
      obtain rfl | rfl := one
      · simp only [List.length_cons, List.length_nil] at lengths
        omega
      · simp [Token.octets, Token.front, Token.last] at lengths

end ServerBox.Terminal.Tmux.TmuxOutputNormalizer
