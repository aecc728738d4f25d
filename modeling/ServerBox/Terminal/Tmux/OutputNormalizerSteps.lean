import ServerBox.Terminal.Tmux.OutputNormalizer

/-!
# What a step of the normalizer can do

The states a run reaches have one of a few shapes (`Proper`), and from each of
them an octet does one of five things (`Stepped`): nothing comes out, the octet
itself does, a sequence given up does, a CSI sequence without its final octet
does, or a whole sequence does, which a fresh normalizer passes as it stands.
-/

namespace ServerBox.Terminal.Tmux.TmuxOutputNormalizer

open ServerBox.Std

variable {Status : Type} (reader : StatusReader Status)

/-! ### Runs -/

/-- The next run, with what came before its own. -/
def Ran.andThen (ran : Ran Status) (next : TmuxOutputNormalizer → Ran Status) : Ran Status :=
  let later := next ran.next
  { next := later.next
    output := ran.output ++ later.output
    notices := ran.notices ++ later.notices }

@[simp] theorem feedAll_nil (normalizer : TmuxOutputNormalizer) :
    normalizer.feedAll reader [] = { next := normalizer } := by
  rw [feedAll]

/-- A step as a run of its own, what it feeds again left aside. -/
def Fed.ran (fed : Fed Status) : Ran Status :=
  { next := fed.next, output := fed.output, notices := fed.notices }

theorem feedAll_cons (normalizer : TmuxOutputNormalizer) (byte : UInt8) (rest : List UInt8) :
    normalizer.feedAll reader (byte :: rest) =
      (normalizer.feed reader byte).ran.andThen
        (·.feedAll reader ((normalizer.feed reader byte).replay ++ rest)) := by
  rw [feedAll]
  rfl

theorem feedAll_singleton {normalizer : TmuxOutputNormalizer} {byte : UInt8}
    (quiet : (normalizer.feed reader byte).replay = []) :
    normalizer.feedAll reader [byte] = (normalizer.feed reader byte).ran := by
  rw [feedAll_cons, quiet]
  simp [Ran.andThen, Fed.ran]

/-- Feeding two runs of octets is feeding one after the other. -/
theorem feedAll_append (normalizer : TmuxOutputNormalizer) (first second : List UInt8) :
    normalizer.feedAll reader (first ++ second) =
      (normalizer.feedAll reader first).andThen (·.feedAll reader second) := by
  induction normalizer, first using feedAll.induct reader with
  | case1 normalizer => simp [Ran.andThen]
  | case2 normalizer byte rest fed inductionHypothesis =>
      rw [List.cons_append, feedAll_cons, feedAll_cons, ← List.append_assoc]
      change Ran.andThen _ (fun next => next.feedAll reader (fed.replay ++ rest ++ second)) =
        Ran.andThen (Ran.andThen _ fun next => next.feedAll reader (fed.replay ++ rest)) _
      simp only [Ran.andThen, Fed.ran] at inductionHypothesis ⊢
      rw [inductionHypothesis]
      simp only [List.append_assoc]
      rfl

/-- The chunks of a stream come out as the stream does, wherever it is cut. -/
theorem callAll_eq_feedAll (normalizer : TmuxOutputNormalizer) (chunks : List (List UInt8)) :
    normalizer.callAll reader chunks =
      ((normalizer.feedAll reader chunks.flatten).next,
        (normalizer.feedAll reader chunks.flatten).output) := by
  induction chunks generalizing normalizer with
  | nil => simp [callAll]
  | cons chunk rest inductionHypothesis =>
      rw [List.flatten_cons, feedAll_append]
      simp [callAll, call, inductionHypothesis, Ran.andThen]

/-! ### Shapes -/

/-- The states that read the body of a string control. -/
def readsString : ParserState → Bool
  | .osc | .dcs | .sos | .pm | .apc | .tmuxTitle => true
  | _ => false

/-- A body in which a string control does not end: what is behind an ESC is no
`\`, and BEL is only in a DCS. -/
inductive Body (kind : ParserState) : List UInt8 → Prop where
  | nil : Body kind []
  | plain {body : List UInt8} {byte : UInt8} : Body kind body → byte ≠ 0x1b →
      ¬ (byte = 0x07 ∧ kind ≠ .dcs) → Body kind (body ++ [byte])
  | escaped {body : List UInt8} {byte : UInt8} : Body kind body → byte ≠ 0x5c →
      Body kind (body ++ [0x1b, byte])

/-- No sequence, or one that an octet out of place ends. -/
inductive Breakable : TmuxOutputNormalizer → Prop where
  | data : Breakable {}
  | escape : Breakable { state := .escape, control := [0x1b] }
  | intermediate {middle : List UInt8} : middle ≠ [] → (∀ byte ∈ middle, isIntermediate byte) →
      middle.length + 1 ≤ maxControlBytes →
      Breakable { state := .escapeIntermediate, control := 0x1b :: middle }
  | csi {middle : List UInt8} : (∀ byte ∈ middle, isParameter byte || isIntermediate byte) →
      middle.length + 2 ≤ maxControlBytes →
      Breakable { state := .csi, control := 0x1b :: 0x5b :: middle }

/-- The states of a run. -/
inductive Proper : TmuxOutputNormalizer → Prop where
  | breakable {normalizer : TmuxOutputNormalizer} : Breakable normalizer → Proper normalizer
  | csiOverflowed {middle : List UInt8} :
      (∀ byte ∈ middle, isParameter byte || isIntermediate byte) →
      middle.length + 2 = maxControlBytes →
      Proper { state := .csi, control := 0x1b :: 0x5b :: middle, overflowed := true }
  | string {kind : ParserState} {payload : List UInt8} {waitingForStringTerminator : Bool} :
      readsString kind → Body kind payload → payload.length ≤ maxPayloadBytes →
      Proper { state := kind, control := introducerFor kind, payload, waitingForStringTerminator }
  | stringOverflowed {kind : ParserState} {payload : List UInt8}
      {waitingForStringTerminator : Bool} : readsString kind →
      (Body kind payload ∨ ∃ body, Body kind body ∧ payload = body ++ [0x1b]) →
      payload.length = maxPayloadBytes →
      Proper { state := kind, control := introducerFor kind, payload, waitingForStringTerminator,
               overflowed := true }

/-! ### Held octets -/

/-- A step in which nothing but the state changes, then the others. -/
theorem feedAll_quiet {normalizer next : TmuxOutputNormalizer} {byte : UInt8}
    (step : normalizer.feed reader byte = { next }) (rest : List UInt8) :
    normalizer.feedAll reader (byte :: rest) = next.feedAll reader rest := by
  rw [feedAll_cons, step]
  simp [Ran.andThen, Fed.ran]

theorem intermediate_range {byte : UInt8} (intermediate : isIntermediate byte) :
    0x20 ≤ byte ∧ byte ≤ 0x2f := by
  simpa [isIntermediate] using intermediate

theorem feed_escape_csi :
    feed reader { state := .escape, control := [0x1b] } 0x5b =
      { next := { state := .csi, control := [0x1b, 0x5b] } } := rfl

theorem feed_escape_intermediate {byte : UInt8} (intermediate : isIntermediate byte) :
    feed reader { state := .escape, control := [0x1b] } byte =
      { next := { state := .escapeIntermediate, control := [0x1b, byte] } } := by
  have range := intermediate_range intermediate
  have notEscape : byte ≠ 0x1b := by rintro rfl; revert range; decide
  have notCsi : byte ≠ 0x5b := by rintro rfl; revert range; decide
  have notString : stringIntroducer byte = none := by
    unfold stringIntroducer
    iterate 6 rw [if_neg (by rintro rfl; revert range; decide)]
  simp [feed, consumeEscapeFinal, notEscape, notCsi, notString, range]

theorem feed_intermediate {control : List UInt8} {byte : UInt8}
    (intermediate : isIntermediate byte) (room : control.length < maxControlBytes) :
    feed reader { state := .escapeIntermediate, control } byte =
      { next := { state := .escapeIntermediate, control := control ++ [byte] } } := by
  have range := intermediate_range intermediate
  simp [feed, consumeEscapeIntermediate, range, Nat.not_le.mpr room]

/-- Parameters and intermediates end no CSI sequence. -/
theorem not_isFinal {byte : UInt8} (inside : isParameter byte || isIntermediate byte) :
    isFinal byte = false := by
  simp only [isParameter, isIntermediate, Bool.or_eq_true, Bool.and_eq_true, decide_eq_true_eq]
    at inside
  have below : byte < 0x40 := by
    rcases inside with ⟨_, high⟩ | ⟨_, high⟩
    · exact UInt8.lt_of_le_of_lt high (by decide)
    · exact UInt8.lt_of_le_of_lt high (by decide)
  simp [isFinal, UInt8.not_le.mpr below]

theorem feed_csi {control : List UInt8} {byte : UInt8}
    (inside : isParameter byte || isIntermediate byte) (room : control.length < maxControlBytes) :
    feed reader { state := .csi, control } byte =
      { next := { state := .csi, control := control ++ [byte] } } := by
  have notFinal := not_isFinal inside
  have known : ¬ ((!isParameter byte && !isIntermediate byte) = true) := by
    simpa [Decidable.imp_iff_not_or] using inside
  simp only [feed, consumeCsi, notFinal, Bool.false_eq_true, if_false, if_neg known,
    ge_iff_le, Nat.not_le.mpr room]

/-- A CSI sequence and its final octet, for which there may be no room. -/
def csiSequence (control : List UInt8) (byte : UInt8) : List UInt8 :=
  if control.length < maxControlBytes then control ++ [byte] else control

theorem feed_csi_final {control : List UInt8} {byte : UInt8} (final : isFinal byte = true) :
    feed reader { state := .csi, control } byte =
      if isTerminalQuery (csiSequence control byte) then { next := reset, notices := [.query] }
      else { next := reset, output := csiSequence control byte } := by
  by_cases room : control.length < maxControlBytes <;>
    simp [feed, consumeCsi, final, csiSequence, room]

/-- The intermediates of an escape are held. -/
theorem feedAll_intermediate {control middle : List UInt8}
    (intermediate : ∀ byte ∈ middle, isIntermediate byte)
    (room : control.length + middle.length ≤ maxControlBytes) :
    feedAll reader { state := .escapeIntermediate, control } middle =
      { next := { state := .escapeIntermediate, control := control ++ middle } } := by
  induction middle generalizing control with
  | nil => simp
  | cons byte rest inductionHypothesis =>
      rw [List.length_cons] at room
      rw [feedAll_quiet reader (feed_intermediate reader (intermediate byte (by simp)) (by omega)),
        inductionHypothesis (fun byte member => intermediate byte (by simp [member]))
          (by simp only [List.length_append, List.length_singleton]; omega)]
      simp

/-- What stands in a CSI sequence is held. -/
theorem feedAll_csi {control middle : List UInt8}
    (inside : ∀ byte ∈ middle, isParameter byte || isIntermediate byte)
    (room : control.length + middle.length ≤ maxControlBytes) :
    feedAll reader { state := .csi, control } middle =
      { next := { state := .csi, control := control ++ middle } } := by
  induction middle generalizing control with
  | nil => simp
  | cons byte rest inductionHypothesis =>
      rw [List.length_cons] at room
      rw [feedAll_quiet reader (feed_csi reader (inside byte (by simp)) (by omega)),
        inductionHypothesis (fun byte member => inside byte (by simp [member]))
          (by simp only [List.length_append, List.length_singleton]; omega)]
      simp

theorem feed_escape : feed reader reset 0x1b = { next := { state := .escape, control := [0x1b] } } :=
  rfl

/-- A fresh normalizer comes to such a state by what the state holds. -/
theorem breakable_reads {normalizer : TmuxOutputNormalizer} (breakable : Breakable normalizer) :
    reset.feedAll reader normalizer.control = { next := normalizer } := by
  cases breakable with
  | data => exact feedAll_nil reader _
  | escape => rw [feedAll_quiet reader (feed_escape reader), feedAll_nil]
  | @intermediate middle nonempty intermediate fits =>
      obtain ⟨first, rest, rfl⟩ := List.exists_cons_of_ne_nil nonempty
      rw [List.length_cons] at fits
      rw [feedAll_quiet reader (feed_escape reader),
        feedAll_quiet reader (feed_escape_intermediate reader (intermediate first (by simp))),
        feedAll_intermediate reader (fun byte member => intermediate byte (by simp [member]))
          (by simp only [List.length_cons, List.length_nil]; omega)]
      simp
  | csi inside fits =>
      rw [feedAll_quiet reader (feed_escape reader), feedAll_quiet reader (feed_escape_csi reader),
        feedAll_csi reader inside (by simp only [List.length_cons, List.length_nil]; omega)]
      simp

/-! ### String controls -/

/-- In a state that reads a string, an octet is read as one of its body. -/
theorem feed_string {normalizer : TmuxOutputNormalizer} (string : readsString normalizer.state)
    (byte : UInt8) :
    normalizer.feed reader byte = normalizer.consumeStringControl reader byte := by
  unfold feed
  revert string
  cases normalizer.state <;> simp [readsString]

theorem stringIntroducer_some {byte : UInt8} {kind : ParserState}
    (found : stringIntroducer byte = some kind) :
    introducerFor kind = [0x1b, byte] ∧ readsString kind := by
  unfold stringIntroducer at found
  split_ifs at found with osc dcs sos pm apc title <;> simp only [Option.some.injEq] at found <;>
    subst found <;> refine ⟨?_, rfl⟩ <;> simp only [introducerFor, *]

theorem stringIntroducer_introducerFor {kind : ParserState} (string : readsString kind) :
    ∃ byte, introducerFor kind = [0x1b, byte] ∧ stringIntroducer byte = some kind ∧
      byte ≠ 0x1b ∧ byte ≠ 0x5b := by
  cases kind <;> simp_all [readsString, introducerFor, stringIntroducer]

theorem feed_escape_string {byte : UInt8} {kind : ParserState}
    (notEscape : byte ≠ 0x1b) (notCsi : byte ≠ 0x5b) (found : stringIntroducer byte = some kind) :
    feed reader { state := .escape, control := [0x1b] } byte =
      { next := { state := kind, control := introducerFor kind } } := by
  simp [feed, consumeEscapeFinal, notEscape, notCsi, found, beginString,
    (stringIntroducer_some found).1]

/-- The body of a string control is held. -/
theorem feedAll_body {kind : ParserState} {control start body : List UInt8}
    (string : readsString kind) (isBody : Body kind body)
    (room : start.length + body.length ≤ maxPayloadBytes) :
    feedAll reader { state := kind, control, payload := start } body =
      { next := { state := kind, control, payload := start ++ body } } := by
  induction isBody with
  | nil => simp
  | @plain body byte isBody notEscape notBell inductionHypothesis =>
      rw [List.length_append, List.length_singleton] at room
      have full : ¬ (start ++ body).length ≥ maxPayloadBytes := by
        rw [List.length_append]; omega
      have step : feed reader { state := kind, control, payload := start ++ body } byte =
          { next := { state := kind, control, payload := start ++ body ++ [byte] } } := by
        rw [feed_string reader string]
        simp only [consumeStringControl, Bool.false_eq_true, if_false, if_neg notBell,
          if_neg notEscape, appendPayload, if_neg full]
      rw [feedAll_append, inductionHypothesis (by omega)]
      simp [Ran.andThen, feedAll_quiet reader step]
  | @escaped body byte isBody notTerminator inductionHypothesis =>
      simp only [List.length_append, List.length_cons, List.length_nil] at room
      have full : ¬ (start ++ body).length ≥ maxPayloadBytes := by
        rw [List.length_append]; omega
      have fullAfter : ¬ (start ++ body ++ [0x1b]).length ≥ maxPayloadBytes := by
        simp only [List.length_append, List.length_cons, List.length_nil]; omega
      have first : feed reader { state := kind, control, payload := start ++ body } 0x1b =
          { next := { state := kind, control, payload := start ++ body
                      waitingForStringTerminator := true } } := by
        rw [feed_string reader string]
        simp [consumeStringControl]
      have second : feed reader ⟨kind, control, start ++ body, true, false⟩ byte =
          { next := { state := kind, control, payload := start ++ body ++ [0x1b] ++ [byte] } } := by
        rw [feed_string reader string]
        simp only [consumeStringControl, if_true, if_neg notTerminator, appendPayload, if_neg full,
          if_neg fullAfter]
      rw [feedAll_append, inductionHypothesis (by omega)]
      simp [Ran.andThen, feedAll_quiet reader first, feedAll_quiet reader second]

/-- A fresh normalizer comes to a string control by its introducer and body. -/
theorem string_reads {kind : ParserState} {body : List UInt8} (string : readsString kind)
    (isBody : Body kind body) (fits : body.length ≤ maxPayloadBytes) :
    reset.feedAll reader (introducerFor kind ++ body) =
      { next := { state := kind, control := introducerFor kind, payload := body } } := by
  obtain ⟨byte, introducer, found, notEscape, notCsi⟩ := stringIntroducer_introducerFor string
  rw [introducer, List.cons_append, List.cons_append, List.nil_append,
    feedAll_quiet reader (feed_escape reader),
    feedAll_quiet reader (feed_escape_string reader notEscape notCsi found),
    feedAll_body reader string isBody (by simpa using fits), introducer]
  simp

/-- An ESC in a string control may be the first octet of its terminator. -/
theorem feed_string_escape {kind : ParserState} {control body : List UInt8}
    (string : readsString kind) :
    feed reader { state := kind, control, payload := body } 0x1b =
      { next := { state := kind, control, payload := body, waitingForStringTerminator := true } } := by
  rw [feed_string reader string]
  simp [consumeStringControl]

/-- The terminator ends a string control. -/
theorem feedAll_terminator {kind : ParserState} {control body : List UInt8} {bell : Bool}
    (string : readsString kind) (allowed : bell = true → kind ≠ .dcs) :
    let ended : TmuxOutputNormalizer := { state := kind, control, payload := body }
    (ended.finishStringControl reader bell).replay = [] →
    ended.feedAll reader (terminator bell) = (ended.finishStringControl reader bell).ran := by
  intro ended quiet
  cases bell with
  | true =>
      have step : ended.feed reader 0x07 = ended.finishStringControl reader true := by
        rw [feed_string reader string]
        simp [consumeStringControl, ended, allowed rfl]
      rw [terminator, if_pos rfl, feedAll_singleton reader (by rw [step, quiet]), step]
  | false =>
      have step : feed reader { ended with waitingForStringTerminator := true } 0x5c =
          ended.finishStringControl reader false := by
        rw [feed_string reader string]
        simp [consumeStringControl, ended]
      rw [terminator, if_neg (by simp), feedAll_quiet reader (feed_string_escape reader string),
        feedAll_singleton reader (by rw [step, quiet]), step]

/-- What the terminal package reads as a status is no title. -/
structure ReadsNoTitle (reader : StatusReader Status) : Prop where
  oscCode : reader.oscCode ≠ [0x30]
  fromOsc : ∀ rest, reader.fromOsc ['0'] rest = none

/-- The OSC a title is written as. -/
def titlePayload (title : List UInt8) : List UInt8 := [0x30, 0x3b] ++ title

theorem title_isNoQuery {reader : StatusReader Status} (documented : ReadsNoTitle reader)
    (title : List UInt8) : isOscQuery reader.oscCode (titlePayload title) = false := by
  have separator : Latin1.indexOf? [0x3b] (titlePayload title) = some 1 :=
    show Latin1.indexOf? [0x3b] ([0x30] ++ 0x3b :: title) = some [(0x30 : UInt8)].length from
      Latin1.indexOf?_singleton (by decide)
  have code : ([0x30] == reader.oscCode) = false := by
    simpa using documented.oscCode.symm
  have nonempty : (titlePayload title).isEmpty = false := rfl
  have front : (titlePayload title).take 1 = [0x30] := rfl
  simp only [isOscQuery, separator, nonempty, front, code, Bool.false_eq_true, if_false]
  rfl

theorem title_isNoStatus {reader : StatusReader Status} (documented : ReadsNoTitle reader)
    (title : List UInt8) : takeStatus reader (titlePayload title) = none := by
  have decoded : TmuxControlProtocolParser.utf8Decode (titlePayload title) =
      '0' :: ';' :: Utf8.decodeFrom none title := by
    have noMark : ([0xef, 0xbb, 0xbf] : List UInt8).isPrefixOf (titlePayload title) = false := by
      simp [List.isPrefixOf, titlePayload]
    rw [TmuxControlProtocolParser.utf8Decode, noMark]
    rfl
  have fields : ('0' :: ';' :: Utf8.decodeFrom none title).splitOn ';' =
      ['0'] :: (Utf8.decodeFrom none title).splitOn ';' :=
    @List.splitOn_append_cons_self_of_not_mem _ ['0'] _ _ _ (by decide) _
  simp [takeStatus, decoded, fields, documented.fromOsc]

/-- A title's body stands in an OSC too. -/
theorem body_title {body : List UInt8} (isBody : Body .tmuxTitle body) :
    Body .osc (titlePayload body) := by
  induction isBody with
  | nil =>
      exact @Body.plain _ [0x30] 0x3b (@Body.plain _ [] 0x30 .nil (by decide) (by decide))
        (by decide) (by decide)
  | @plain body byte isBody notEscape notBell inductionHypothesis =>
      rw [titlePayload, ← List.append_assoc]
      exact .plain inductionHypothesis notEscape (by simpa using notBell)
  | @escaped body byte isBody notTerminator inductionHypothesis =>
      rw [titlePayload, ← List.append_assoc]
      exact .escaped inductionHypothesis notTerminator

/-! ### Steps -/

/-- A whole sequence that a fresh normalizer passes as it stands. -/
structure Passes (sequence : List UInt8) : Prop where
  introduced : sequence.head? = some 0x1b
  passed : reset.feedAll reader sequence = { next := reset, output := sequence }

/-- The octet gives a sequence up, so that it comes out unfinished: ESC does, and
a final octet for which a CSI sequence has no room. -/
def givesUp (normalizer : TmuxOutputNormalizer) (byte : UInt8) : Bool :=
  match normalizer.state with
  | .escape | .escapeIntermediate => byte == 0x1b
  | .csi => !normalizer.overflowed &&
      (byte == 0x1b || (isFinal byte && normalizer.control.length ≥ maxControlBytes))
  | _ => false

/-- What an octet can do. -/
inductive Stepped (normalizer : TmuxOutputNormalizer) (byte : UInt8) : Fed Status → Prop where
  | silent {next : TmuxOutputNormalizer} {notices : List (Notice Status)} {replay : List UInt8} :
      Proper next → Stepped normalizer byte { next, notices, replay }
  | plain : normalizer = reset → byte ≠ 0x1b →
      Stepped normalizer byte { next := reset, output := [byte] }
  | abandoned : Breakable normalizer → normalizer.state ≠ .data → byte = 0x1b →
      Stepped normalizer byte
        { next := { state := .escape, control := [0x1b] }, output := normalizer.control }
  | clipped : Breakable normalizer → normalizer.state = .csi → isFinal byte →
      normalizer.control.length ≥ maxControlBytes →
      Stepped normalizer byte { next := reset, output := normalizer.control }
  | passed {sequence : List UInt8} : Passes reader sequence → normalizer.givesUp byte = false →
      Stepped normalizer byte { next := reset, output := sequence }

theorem breakable_head {normalizer : TmuxOutputNormalizer} (breakable : Breakable normalizer)
    (notData : normalizer.state ≠ .data) : normalizer.control.head? = some 0x1b := by
  cases breakable with
  | data => exact absurd rfl notData
  | _ => rfl

/-- A sequence that can still end holds its octets. -/
theorem close_breakable {normalizer : TmuxOutputNormalizer} (breakable : Breakable normalizer) :
    normalizer.close.2 = normalizer.control := by
  cases breakable <;> simp [close]

/-- An octet that ends a sequence as it stands. -/
theorem passes_of_ended {normalizer : TmuxOutputNormalizer} (breakable : Breakable normalizer)
    (notData : normalizer.state ≠ .data) {byte : UInt8}
    (ended : normalizer.feed reader byte =
      { next := reset, output := normalizer.control ++ [byte] }) :
    Passes reader (normalizer.control ++ [byte]) := by
  refine ⟨?_, ?_⟩
  · rw [List.head?_append, breakable_head breakable notData]
    rfl
  · rw [feedAll_append, breakable_reads reader breakable]
    simp [Ran.andThen, feedAll_singleton, ended, Fed.ran]

/-- An octet out of place ends a sequence: what was held comes out. -/
theorem stepped_replayHeld {normalizer : TmuxOutputNormalizer} {byte : UInt8}
    (breakable : Breakable normalizer) (notData : normalizer.state ≠ .data)
    (kept : byte ≠ 0x1b → normalizer.givesUp byte = false)
    (step : normalizer.feed reader byte = normalizer.replayHeld byte) :
    Stepped reader normalizer byte (normalizer.feed reader byte) := by
  by_cases isEscape : byte = 0x1b
  · have replayed : normalizer.feed reader byte =
        { next := { state := .escape, control := [0x1b] }, output := normalizer.control } := by
      rw [step]
      simp [replayHeld, feedData, isEscape, reset]
    rw [replayed]
    exact .abandoned breakable notData isEscape
  · have replayed : normalizer.feed reader byte =
        { next := reset, output := normalizer.control ++ [byte] } := by
      rw [step]
      simp [replayHeld, feedData, isEscape]
    rw [replayed]
    exact .passed (passes_of_ended reader breakable notData replayed) (kept isEscape)

theorem stepped_escape (byte : UInt8) :
    let normalizer : TmuxOutputNormalizer := { state := .escape, control := [0x1b] }
    Stepped reader normalizer byte (normalizer.feed reader byte) := by
  intro normalizer
  have breakable : Breakable normalizer := .escape
  by_cases isEscape : byte = 0x1b
  · have step : normalizer.feed reader byte =
        { next := { state := .escape, control := [0x1b] }, output := normalizer.control } := by
      simp [feed, normalizer, consumeEscapeFinal, isEscape]
    rw [step]
    exact .abandoned breakable (by simp [normalizer]) isEscape
  by_cases isCsi : byte = 0x5b
  · subst isCsi
    exact .silent (.breakable (@Breakable.csi [] (by simp) (by decide)))
  cases found : stringIntroducer byte with
  | some kind =>
      rw [feed_escape_string reader isEscape isCsi found]
      exact .silent (.string (stringIntroducer_some found).2 .nil (by simp))
  | none =>
      cases intermediate : isIntermediate byte with
      | true =>
          rw [feed_escape_intermediate reader intermediate]
          exact .silent (.breakable (@Breakable.intermediate [byte] (by simp)
            (by simpa using intermediate) (by simp [maxControlBytes])))
      | false =>
          have outside : ¬ ((0x20 ≤ byte && byte ≤ 0x2f) = true) := by
            simpa [isIntermediate] using intermediate
          cases known : knownEscapes.contains byte with
          | true =>
              have step : normalizer.feed reader byte =
                  { next := reset, output := normalizer.control ++ [byte] } := by
                simp only [feed, normalizer, consumeEscapeFinal, if_neg isEscape, if_neg isCsi,
                  found, if_neg outside, known, if_true]
              rw [step]
              exact .passed (passes_of_ended reader breakable (by simp [normalizer]) step)
                (by simp [givesUp, normalizer, isEscape])
          | false =>
              have step : normalizer.feed reader byte =
                  { next := reset, notices := [.unknownEscape (escapeName byte)] } := by
                simp only [feed, normalizer, consumeEscapeFinal, if_neg isEscape, if_neg isCsi,
                  found, if_neg outside, known, Bool.false_eq_true, if_false]
              rw [step]
              exact .silent (.breakable .data)

theorem stepped_intermediate {middle : List UInt8} (nonempty : middle ≠ [])
    (intermediates : ∀ byte ∈ middle, isIntermediate byte)
    (fits : middle.length + 1 ≤ maxControlBytes) (byte : UInt8) :
    let normalizer : TmuxOutputNormalizer :=
      { state := .escapeIntermediate, control := 0x1b :: middle }
    Stepped reader normalizer byte (normalizer.feed reader byte) := by
  intro normalizer
  have breakable : Breakable normalizer := .intermediate nonempty intermediates fits
  have notData : normalizer.state ≠ .data := by simp [normalizer]
  cases intermediate : isIntermediate byte with
  | true =>
      by_cases room : (0x1b :: middle).length < maxControlBytes
      · rw [feed_intermediate reader intermediate room]
        refine .silent (.breakable (@Breakable.intermediate (middle ++ [byte]) (by simp) ?_ ?_))
        · intro other member
          rcases List.mem_append.mp member with before | last
          · exact intermediates other before
          · rwa [List.mem_singleton.mp last]
        · simp only [List.length_append, List.length_cons, List.length_nil] at room ⊢
          omega
      · have range := intermediate_range intermediate
        have step : normalizer.feed reader byte = { next := reset } := by
          simp only [List.length_cons, Nat.not_lt] at room
          simp [feed, normalizer, consumeEscapeIntermediate, range, room]
        rw [step]
        exact .silent (.breakable .data)
  | false =>
      have outside : ¬ ((0x20 ≤ byte && byte ≤ 0x2f) = true) := by
        simpa [isIntermediate] using intermediate
      by_cases ends : (0x30 ≤ byte && byte ≤ 0x7e) = true
      · have step : normalizer.feed reader byte =
            { next := reset, output := normalizer.control ++ [byte] } := by
          simp only [feed, normalizer, consumeEscapeIntermediate, if_neg outside, if_pos ends]
        rw [step]
        have notEscape : byte ≠ 0x1b := by rintro rfl; revert ends; decide
        exact .passed (passes_of_ended reader breakable notData step)
          (by simp [givesUp, normalizer, notEscape])
      · refine stepped_replayHeld reader breakable notData
          (fun notEscape => by simp [givesUp, normalizer, notEscape]) ?_
        simp only [feed, normalizer, consumeEscapeIntermediate, if_neg outside, if_neg ends]

theorem stepped_csi {middle : List UInt8}
    (inside : ∀ byte ∈ middle, isParameter byte || isIntermediate byte)
    (fits : middle.length + 2 ≤ maxControlBytes) (byte : UInt8) :
    let normalizer : TmuxOutputNormalizer := { state := .csi, control := 0x1b :: 0x5b :: middle }
    Stepped reader normalizer byte (normalizer.feed reader byte) := by
  intro normalizer
  have breakable : Breakable normalizer := .csi inside fits
  have notData : normalizer.state ≠ .data := by simp [normalizer]
  cases final : isFinal byte with
  | true =>
      cases query : isTerminalQuery (csiSequence normalizer.control byte) with
      | true =>
          have step : normalizer.feed reader byte = { next := reset, notices := [.query] } := by
            rw [feed_csi_final reader final, if_pos query]
          rw [step]
          exact .silent (.breakable .data)
      | false =>
          have step : normalizer.feed reader byte =
              { next := reset, output := csiSequence normalizer.control byte } := by
            rw [feed_csi_final reader final]
            exact if_neg (Bool.eq_false_iff.mp query)
          by_cases room : normalizer.control.length < maxControlBytes
          · rw [csiSequence, if_pos room] at step
            rw [step]
            have notEscape : byte ≠ 0x1b := by rintro rfl; revert final; decide
            exact .passed (passes_of_ended reader breakable notData step)
              (by simpa [givesUp, normalizer, notEscape, final] using room)
          · rw [csiSequence, if_neg room] at step
            rw [step]
            exact .clipped breakable rfl final (Nat.le_of_not_lt room)
  | false =>
      by_cases known : (isParameter byte || isIntermediate byte) = true
      · by_cases room : normalizer.control.length < maxControlBytes
        · rw [feed_csi reader known room]
          refine .silent (.breakable (@Breakable.csi (middle ++ [byte]) ?_ ?_))
          · intro other member
            rcases List.mem_append.mp member with before | last
            · exact inside other before
            · rwa [List.mem_singleton.mp last]
          · simp only [normalizer, List.length_append, List.length_cons, List.length_nil] at room ⊢
            omega
        · have step : normalizer.feed reader byte =
              { next := { normalizer with overflowed := true } } := by
            have taken : ¬ ((!isParameter byte && !isIntermediate byte) = true) := by
              simpa [Decidable.imp_iff_not_or] using known
            simp only [feed, normalizer, consumeCsi, final, Bool.false_eq_true, if_false,
              if_neg taken, ge_iff_le, if_pos (Nat.le_of_not_lt room)]
          rw [step]
          refine .silent (.csiOverflowed inside ?_)
          simp only [normalizer, List.length_cons] at room
          omega
      · refine stepped_replayHeld reader breakable notData
          (fun notEscape => by simp [givesUp, normalizer, notEscape, final]) ?_
        have unknown : (!isParameter byte && !isIntermediate byte) = true := by
          simpa using known
        simp only [feed, normalizer, consumeCsi, final, Bool.false_eq_true, if_false, if_pos unknown]

theorem stepped_csiOverflowed {middle : List UInt8}
    (inside : ∀ byte ∈ middle, isParameter byte || isIntermediate byte)
    (full : middle.length + 2 = maxControlBytes) (byte : UInt8) :
    let normalizer : TmuxOutputNormalizer :=
      { state := .csi, control := 0x1b :: 0x5b :: middle, overflowed := true }
    Stepped reader normalizer byte (normalizer.feed reader byte) := by
  intro normalizer
  cases final : isFinal byte with
  | true =>
      have step : normalizer.feed reader byte = { next := reset } := by
        simp [feed, normalizer, consumeCsi, final]
      rw [step]
      exact .silent (.breakable .data)
  | false =>
      have step : normalizer.feed reader byte = { next := normalizer } := by
        simp [feed, normalizer, consumeCsi, final]
      rw [step]
      exact .silent (.csiOverflowed inside full)

/-- The octet that ends a title. -/
def endsTitle (normalizer : TmuxOutputNormalizer) (byte : UInt8) : Bool :=
  normalizer.state == .tmuxTitle && !normalizer.overflowed &&
    byte == if normalizer.waitingForStringTerminator then 0x5c else 0x07

/-- A string control within its limit passes where it comes out as it is. -/
theorem passes_string {kind : ParserState} {payload : List UInt8} {bell : Bool}
    (string : readsString kind) (isBody : Body kind payload)
    (fits : payload.length ≤ maxPayloadBytes) (allowed : bell = true → kind ≠ .dcs)
    (out : finishStringControl reader
        { state := kind, control := introducerFor kind, payload } bell =
      { next := reset, output := introducerFor kind ++ payload ++ terminator bell }) :
    Passes reader (introducerFor kind ++ payload ++ terminator bell) := by
  refine ⟨?_, ?_⟩
  · obtain ⟨byte, introducer, -⟩ := stringIntroducer_introducerFor string
    rw [introducer]
    rfl
  · rw [feedAll_append, string_reads reader string isBody fits]
    simp only [Ran.andThen]
    rw [feedAll_terminator reader string allowed (by rw [out]), out]
    simp [Fed.ran]

/-- The terminator of a string control within its limit. -/
theorem stepped_finish {reader : StatusReader Status} (documented : ReadsNoTitle reader)
    {kind : ParserState} {payload : List UInt8} {bell : Bool} (string : readsString kind)
    (isBody : Body kind payload) (fits : payload.length ≤ maxPayloadBytes)
    (allowed : bell = true → kind ≠ .dcs)
    (titleFits : kind = .tmuxTitle → payload.length + 2 ≤ maxPayloadBytes)
    {normalizer : TmuxOutputNormalizer} {byte : UInt8} (kept : normalizer.givesUp byte = false) :
    Stepped reader normalizer byte
      (finishStringControl reader { state := kind, control := introducerFor kind, payload } bell) := by
  have whole (out : finishStringControl reader
        { state := kind, control := introducerFor kind, payload } bell =
      { next := reset, output := introducerFor kind ++ payload ++ terminator bell }) :
      Stepped reader normalizer byte (finishStringControl reader
        { state := kind, control := introducerFor kind, payload } bell) := by
    rw [out]
    exact .passed (passes_string reader string isBody fits allowed out) kept
  cases kind with
  | tmuxTitle =>
      have room : (titlePayload payload).length ≤ maxPayloadBytes := by
        have fits := titleFits rfl
        simp only [titlePayload, List.length_append, List.length_cons, List.length_nil]
        omega
      have asOsc : Passes reader (introducerFor .osc ++ titlePayload payload ++ terminator bell) :=
        passes_string reader rfl (body_title isBody) room (by simp)
          (by simp [finishStringControl, title_isNoQuery documented, title_isNoStatus documented])
      exact .passed asOsc kept
  | dcs =>
      have escape : bell = false := by simpa using allowed
      cases query : isDcsQuery payload with
      | true =>
          simp only [finishStringControl, query]
          exact .silent (.breakable .data)
      | false =>
          cases passthrough : passthroughPrefix.isPrefixOf payload with
          | true =>
              simp only [finishStringControl, query, finishDcs, passthrough]
              exact .silent (.breakable .data)
          | false =>
              exact whole (by simp [finishStringControl, query, finishDcs, passthrough, escape,
                introducerFor, terminator])
  | osc =>
      cases query : isOscQuery reader.oscCode payload with
      | true =>
          simp only [finishStringControl, query]
          exact .silent (.breakable .data)
      | false =>
          cases taken : takeStatus reader payload with
          | some event =>
              simp only [finishStringControl, query, taken]
              exact .silent (.breakable .data)
          | none => exact whole (by simp [finishStringControl, query, taken])
  | sos => exact whole rfl
  | pm => exact whole rfl
  | apc => exact whole rfl
  | _ => simp [readsString] at string

/-- Octets are kept as long as there is room for them. -/
theorem proper_appendPayload {kind : ParserState} {payload : List UInt8} {byte : UInt8}
    (string : readsString kind) (isBody : Body kind payload)
    (fits : payload.length ≤ maxPayloadBytes) (plain : Body kind (payload ++ [byte])) :
    Proper (appendPayload { state := kind, control := introducerFor kind, payload } byte).2 := by
  unfold appendPayload
  split
  · rename_i full
    exact .stringOverflowed string (.inl isBody) (Nat.le_antisymm fits full)
  · rename_i room
    refine .string string plain ?_
    simp only [List.length_append, List.length_singleton] at room ⊢
    omega

theorem stepped_string {reader : StatusReader Status} (documented : ReadsNoTitle reader)
    {kind : ParserState} {payload : List UInt8} {waitingForStringTerminator : Bool}
    (string : readsString kind) (isBody : Body kind payload)
    (fits : payload.length ≤ maxPayloadBytes) (byte : UInt8) :
    let normalizer : TmuxOutputNormalizer :=
      { state := kind, control := introducerFor kind, payload, waitingForStringTerminator }
    (normalizer.endsTitle byte → normalizer.payload.length + 2 ≤ maxPayloadBytes) →
    Stepped reader normalizer byte (normalizer.feed reader byte) := by
  intro normalizer titleFits
  have kept : normalizer.givesUp byte = false := by
    simp only [givesUp, normalizer]
    revert string
    cases kind <;> simp [readsString]
  rw [feed_string reader string]
  cases waitingForStringTerminator with
  | true =>
      by_cases ends : byte = 0x5c
      · have step : normalizer.consumeStringControl reader byte = finishStringControl reader
            { state := kind, control := introducerFor kind, payload } false := by
          simp [consumeStringControl, normalizer, ends]
        rw [step]
        exact stepped_finish documented string isBody fits (by simp)
          (fun isTitle => titleFits (by simp [endsTitle, normalizer, isTitle, ends])) kept
      · by_cases full : payload.length ≥ maxPayloadBytes
        · have step : normalizer.consumeStringControl reader byte =
              { next := { state := kind, control := introducerFor kind, payload
                          overflowed := true } } := by
            simp [consumeStringControl, normalizer, ends, appendPayload, full]
          rw [step]
          exact .silent (.stringOverflowed string (.inl isBody) (Nat.le_antisymm fits full))
        · by_cases fullAfter : (payload ++ [0x1b]).length ≥ maxPayloadBytes
          · have step : normalizer.consumeStringControl reader byte =
                { next := { state := kind, control := introducerFor kind, payload := payload ++ [0x1b]
                            overflowed := true } } := by
              simp only [consumeStringControl, normalizer, if_true, if_neg ends, appendPayload,
                if_neg full, if_pos fullAfter]
            rw [step]
            refine .silent (.stringOverflowed string (.inr ⟨payload, isBody, rfl⟩) ?_)
            simp only [List.length_append, List.length_singleton] at fullAfter ⊢
            omega
          · have step : normalizer.consumeStringControl reader byte =
                { next := { state := kind, control := introducerFor kind
                            payload := payload ++ [0x1b, byte] } } := by
              simp only [consumeStringControl, normalizer, if_true, if_neg ends, appendPayload,
                if_neg full, if_neg fullAfter, List.append_assoc, List.cons_append, List.nil_append]
            rw [step]
            refine .silent (.string string (.escaped isBody ends) ?_)
            simp only [List.length_append, List.length_cons, List.length_nil] at fullAfter ⊢
            omega
  | false =>
      by_cases bell : byte = 0x07 ∧ kind ≠ .dcs
      · have step : normalizer.consumeStringControl reader byte = finishStringControl reader
            { state := kind, control := introducerFor kind, payload } true := by
          simp [consumeStringControl, normalizer, bell]
        rw [step]
        exact stepped_finish documented string isBody fits (fun _ => bell.2)
          (fun isTitle => titleFits (by simp [endsTitle, normalizer, isTitle, bell])) kept
      · by_cases isEscape : byte = 0x1b
        · rw [← feed_string reader string, isEscape, feed_string_escape reader string]
          exact .silent (.string string isBody fits)
        · have step : normalizer.consumeStringControl reader byte =
              { next := (normalizer.appendPayload byte).2 } := by
            simp only [consumeStringControl, normalizer, Bool.false_eq_true, if_false, if_neg bell,
              if_neg isEscape]
          rw [step]
          exact .silent (proper_appendPayload string isBody fits (.plain isBody isEscape bell))

theorem stepped_stringOverflowed {kind : ParserState} {payload : List UInt8}
    {waitingForStringTerminator : Bool} (string : readsString kind)
    (isBody : Body kind payload ∨ ∃ body, Body kind body ∧ payload = body ++ [0x1b])
    (full : payload.length = maxPayloadBytes) (byte : UInt8) :
    let normalizer : TmuxOutputNormalizer :=
      { state := kind, control := introducerFor kind, payload, waitingForStringTerminator
        overflowed := true }
    Stepped reader normalizer byte (normalizer.feed reader byte) := by
  intro normalizer
  have stays (waiting : Bool) :
      Proper { normalizer with waitingForStringTerminator := waiting } :=
    .stringOverflowed string isBody full
  have dropped (waiting : Bool) (octet : UInt8) :
      appendPayload { normalizer with waitingForStringTerminator := waiting } octet =
        (false, { normalizer with waitingForStringTerminator := waiting }) := by
    simp [appendPayload, normalizer, full]
  have finished (waiting bell : Bool) : finishStringControl reader
      { normalizer with waitingForStringTerminator := waiting } bell = { next := reset } := by
    simp [finishStringControl, normalizer]
  rw [feed_string reader string, consumeStringControl]
  split
  · split
    · rw [finished]
      exact .silent (.breakable .data)
    · simp only [dropped, Bool.false_eq_true, if_false]
      exact .silent (stays false)
  · split
    · rw [finished normalizer.waitingForStringTerminator true]
      exact .silent (.breakable .data)
    · split
      · exact .silent (stays true)
      · rw [dropped normalizer.waitingForStringTerminator]
        exact .silent (stays _)

/-- Every step of a run is one of the five, as long as a title leaves room for
the code it is written with. -/
theorem feed_stepped {reader : StatusReader Status} (documented : ReadsNoTitle reader)
    {normalizer : TmuxOutputNormalizer} (proper : Proper normalizer) (byte : UInt8)
    (titleFits : normalizer.endsTitle byte →
      normalizer.payload.length + 2 ≤ maxPayloadBytes) :
    Stepped reader normalizer byte (normalizer.feed reader byte) := by
  cases proper with
  | breakable breakable =>
      cases breakable with
      | data =>
          by_cases isEscape : byte = 0x1b
          · subst isEscape
            exact .silent (.breakable .escape)
          · have step : feed reader {} byte = { next := reset, output := [byte] } := by
              simp [feed, feedData, isEscape, reset]
            rw [step]
            exact .plain rfl isEscape
      | escape => exact stepped_escape reader byte
      | intermediate nonempty intermediates fits =>
          exact stepped_intermediate reader nonempty intermediates fits byte
      | csi inside fits => exact stepped_csi reader inside fits byte
  | csiOverflowed inside full => exact stepped_csiOverflowed reader inside full byte
  | string string isBody fits => exact stepped_string documented string isBody fits byte titleFits
  | stringOverflowed string isBody full =>
      exact stepped_stringOverflowed reader string isBody full byte

end ServerBox.Terminal.Tmux.TmuxOutputNormalizer
