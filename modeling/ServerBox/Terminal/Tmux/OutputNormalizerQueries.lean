import ServerBox.Terminal.Tmux.OutputNormalizerSteps

/-!
# Normalized output normalized again

What comes out is meant to hold no query: a fresh normalizer run over it should
give it back (`Normalized`). It does as long as nothing is glued together. A
sequence given up comes out at once, and the sequence after it may come out as
nothing; the plain octet behind that would then continue the one given up
(`Separate` excludes it). `written_normalized` is the run theorem; its invariant
`ReadBack` says that the normalizer reading the output is in the state the octets
given up leave it in, whatever state the first one is in.
-/

namespace ServerBox.Terminal.Tmux.TmuxOutputNormalizer

open ServerBox.Std

variable {Status : Type} (reader : StatusReader Status)

/-- A fresh normalizer finds no query in `output` and gives it back, what is
unterminated at its end by `close`. -/
def Normalized (output : List UInt8) : Prop :=
  let again := reset.feedAll reader output
  .query ∉ again.notices ∧ again.output ++ again.next.close.2 = output

/-- Everything that came out of a stream's chunks, and of `close` when the
stream ended. -/
def written (chunks : List (List UInt8)) (closes : Bool) : List UInt8 :=
  let (normalizer, output) := reset.callAll reader chunks
  output ++ if closes then normalizer.close.2 else []

/-- Behind a sequence given up in `pending`, `byte` would not come back as plain
data does: it is held as more of that sequence, or ends it as one that is not
passed as it stands. -/
def continues (pending : TmuxOutputNormalizer) (byte : UInt8) : Bool :=
  match pending.state with
  | .escape => !knownEscapes.contains byte
  | .escapeIntermediate => isIntermediate byte
  | .csi => isParameter byte || isIntermediate byte ||
      (isFinal byte && (pending.control.length ≥ maxControlBytes ||
        isTerminalQuery (pending.control ++ [byte])))
  | _ => false

/-- Where a sequence was given up last, with nothing out since. -/
def pendingAfter (normalizer pending : TmuxOutputNormalizer) (byte : UInt8) :
    TmuxOutputNormalizer :=
  if (normalizer.feed reader byte).output.isEmpty then pending
  else if normalizer.givesUp byte then normalizer else reset

/-- A run in which no plain octet continues what was given up before it, and no
title is too long to be written as OSC 0. -/
inductive Separate : TmuxOutputNormalizer → TmuxOutputNormalizer → List UInt8 → Prop where
  | nil {normalizer pending : TmuxOutputNormalizer} : Separate normalizer pending []
  | cons {normalizer pending : TmuxOutputNormalizer} {byte : UInt8} {rest : List UInt8} :
      (normalizer.state = .data → byte ≠ 0x1b → continues pending byte = false) →
      (normalizer.endsTitle byte → normalizer.payload.length + 2 ≤ maxPayloadBytes) →
      Separate (normalizer.feed reader byte).next (pendingAfter reader normalizer pending byte)
        ((normalizer.feed reader byte).replay ++ rest) →
      Separate normalizer pending (byte :: rest)

/-! ### Reading what came out -/

/-- A sequence given up, then an ESC. -/
theorem feed_breakable_escape {normalizer : TmuxOutputNormalizer}
    (breakable : Breakable normalizer) :
    normalizer.feed reader 0x1b =
      { next := { state := .escape, control := [0x1b] }, output := normalizer.control } := by
  cases breakable with
  | data => rfl
  | escape => rfl
  | intermediate => simp [feed, consumeEscapeIntermediate, replayHeld, feedData, reset]
  | csi => simp [feed, consumeCsi, isFinal, isParameter, isIntermediate, replayHeld, feedData, reset]

/-- A sequence given up, then an octet that is no ESC: both come back as they
stand exactly when the octet does not continue the sequence. -/
theorem feed_breakable_plain {normalizer : TmuxOutputNormalizer} {byte : UInt8}
    (breakable : Breakable normalizer) (notEscape : byte ≠ 0x1b) :
    normalizer.feed reader byte = { next := reset, output := normalizer.control ++ [byte] } ↔
      continues normalizer byte = false := by
  have silent (quiet : (normalizer.feed reader byte).output = []) :
      normalizer.feed reader byte ≠ { next := reset, output := normalizer.control ++ [byte] } := by
    intro passed
    rw [passed] at quiet
    simp at quiet
  cases breakable with
  | data => simp [feed, feedData, notEscape, reset, continues]
  | escape =>
      cases known : knownEscapes.contains byte with
      | true =>
          have passed : ∀ byte ∈ knownEscapes,
              feed reader { state := .escape, control := [0x1b] } byte =
                { next := reset, output := [0x1b] ++ [byte] } := by
            simp [knownEscapes, feed, consumeEscapeFinal, stringIntroducer]
          refine iff_of_true (passed byte (List.contains_iff_mem.mp known)) ?_
          simp only [continues, known, Bool.not_true]
      | false =>
          refine iff_of_false (silent ?_) (by simp only [continues, known]; decide)
          simp only [feed, consumeEscapeFinal, if_neg notEscape, known]
          repeat' split
          all_goals first | rfl | contradiction
  | @intermediate middle nonempty intermediates fits =>
      cases intermediate : isIntermediate byte with
      | true =>
          have range : (0x20 ≤ byte && byte ≤ 0x2f) = true := intermediate
          refine iff_of_false (silent ?_) (by simp [continues, intermediate])
          simp only [feed, consumeEscapeIntermediate, if_pos range]
          split <;> rfl
      | false =>
          have outside : (0x20 ≤ byte && byte ≤ 0x2f) = false := intermediate
          refine iff_of_true ?_ (by simp [continues, intermediate])
          simp only [feed, consumeEscapeIntermediate, outside, Bool.false_eq_true, if_false,
            replayHeld, feedData, if_neg notEscape, ite_self]
  | @csi middle inside fits =>
      cases final : isFinal byte with
      | true =>
          have notInside : (isParameter byte || isIntermediate byte) = false := by
            by_contra taken
            rw [Bool.not_eq_false] at taken
            simp [not_isFinal taken] at final
          rw [feed_csi_final reader final]
          simp only [continues, notInside, final, Bool.false_or, Bool.true_and]
          by_cases full : (0x1b :: 0x5b :: middle).length ≥ maxControlBytes
          · refine iff_of_false (fun passed => ?_) (by simp only [full]; simp)
            rw [csiSequence, if_neg (Nat.not_lt.mpr full)] at passed
            cases query : isTerminalQuery (0x1b :: 0x5b :: middle) <;> simp [query] at passed
          · rw [csiSequence, if_pos (Nat.lt_of_not_le full)]
            cases query : isTerminalQuery (0x1b :: 0x5b :: middle ++ [byte]) with
            | true => exact iff_of_false (by simp) (by simp)
            | false => exact iff_of_true (by simp) (by simpa using full)
      | false =>
          cases known : (isParameter byte || isIntermediate byte) with
          | true =>
              refine iff_of_false (silent ?_) (by simp [continues, known])
              have taken : ¬ ((!isParameter byte && !isIntermediate byte) = true) := by
                simpa [Decidable.imp_iff_not_or] using known
              simp only [feed, consumeCsi, final, Bool.false_eq_true, if_false, if_neg taken]
              split <;> rfl
          | false =>
              have unknown : (!isParameter byte && !isIntermediate byte) = true := by
                simpa using known
              refine iff_of_true ?_ (by simp [continues, known, final])
              simp only [feed, consumeCsi, final, Bool.false_eq_true, if_false, if_pos unknown,
                replayHeld, feedData, if_neg notEscape]

/-- The output so far as a fresh normalizer reads it: all of it came back but the
octets of a sequence given up, in whose state the normalizer is. -/
structure ReadBack (output : List UInt8) (pending : TmuxOutputNormalizer) : Prop where
  breakable : Breakable pending
  read : ∃ back, output = back ++ pending.control ∧
    reset.feedAll reader output = { next := pending, output := back }

theorem readBack_nil : ReadBack reader [] reset :=
  ⟨.data, [], rfl, feedAll_nil reader _⟩

/-- What is read back is normalized. -/
theorem ReadBack.normalized {output : List UInt8} {pending : TmuxOutputNormalizer}
    (readBack : ReadBack reader output pending) : Normalized reader output := by
  obtain ⟨breakable, back, split, run⟩ := readBack
  rw [Normalized, run]
  refine ⟨by simp, ?_⟩
  rw [close_breakable breakable, ← split]

/-- A sequence behind what is read back is read as it is by a fresh normalizer. -/
theorem ReadBack.append_escape {output sequence : List UInt8} {pending : TmuxOutputNormalizer}
    (readBack : ReadBack reader output pending) (introduced : sequence.head? = some 0x1b) :
    reset.feedAll reader (output ++ sequence) =
      { reset.feedAll reader sequence with
        output := output ++ (reset.feedAll reader sequence).output } := by
  obtain ⟨breakable, back, split, run⟩ := readBack
  obtain ⟨rest, rfl⟩ : ∃ rest, sequence = 0x1b :: rest := by
    cases sequence with
    | nil => simp at introduced
    | cons first rest => exact ⟨rest, by simpa using introduced⟩
  rw [feedAll_append, run, feedAll_quiet reader (feed_escape reader)]
  simp only [Ran.andThen]
  rw [feedAll_cons, feed_breakable_escape reader breakable]
  simp [Ran.andThen, Fed.ran, split]

/-- A sequence given up behind what is read back. -/
theorem ReadBack.giveUp {output : List UInt8} {pending : TmuxOutputNormalizer}
    (readBack : ReadBack reader output pending) {normalizer : TmuxOutputNormalizer}
    (breakable : Breakable normalizer) (notData : normalizer.state ≠ .data) :
    ReadBack reader (output ++ normalizer.control) normalizer := by
  refine ⟨breakable, output, rfl, ?_⟩
  rw [readBack.append_escape reader (breakable_head breakable notData),
    breakable_reads reader breakable]
  simp

/-- One octet of the first run, and what came out with it. -/
theorem ReadBack.step {reader : StatusReader Status} (documented : ReadsNoTitle reader)
    {output : List UInt8} {pending : TmuxOutputNormalizer} (readBack : ReadBack reader output pending)
    {normalizer : TmuxOutputNormalizer} (proper : Proper normalizer) {byte : UInt8}
    (apart : normalizer.state = .data → byte ≠ 0x1b → continues pending byte = false)
    (titleFits : normalizer.endsTitle byte →
      normalizer.payload.length + 2 ≤ maxPayloadBytes) :
    ReadBack reader (output ++ (normalizer.feed reader byte).output)
      (pendingAfter reader normalizer pending byte) := by
  have stepped := feed_stepped documented proper byte titleFits
  rw [pendingAfter]
  generalize normalizer.feed reader byte = fed at stepped
  cases stepped with
  | silent _ => simpa using readBack
  | plain isReset notEscape =>
      subst isReset
      obtain ⟨breakable, back, split, run⟩ := readBack
      have step := (feed_breakable_plain reader breakable notEscape).mpr (apart rfl notEscape)
      refine ⟨.data, output ++ [byte], by simp [reset, givesUp], ?_⟩
      rw [feedAll_append, run]
      simp [Ran.andThen, feedAll_singleton, step, Fed.ran, split]
  | abandoned breakable notData isEscape =>
      have given : normalizer.givesUp byte = true := by
        cases breakable with
        | data => exact absurd rfl notData
        | _ => simp [givesUp, isEscape]
      have nonempty : normalizer.control.isEmpty = false := by
        cases breakable with
        | data => exact absurd rfl notData
        | _ => rfl
      simpa only [nonempty, given, Bool.false_eq_true, if_false, if_true]
        using readBack.giveUp reader breakable notData
  | clipped breakable isCsi final full =>
      have given : normalizer.givesUp byte = true := by
        cases breakable with
        | csi => simp_all [givesUp]
        | _ => simp at isCsi
      have nonempty : normalizer.control.isEmpty = false := by
        cases breakable with
        | csi => rfl
        | _ => simp at isCsi
      simpa only [nonempty, given, Bool.false_eq_true, if_false, if_true]
        using readBack.giveUp reader breakable (by simp [isCsi])
  | @passed sequence passes kept =>
      have nonempty : sequence.isEmpty = false := by
        cases sequence with
        | nil => simpa using passes.introduced
        | cons _ _ => rfl
      simp only [nonempty, kept, Bool.false_eq_true, if_false]
      refine ⟨.data, output ++ sequence, by simp [reset], ?_⟩
      rw [readBack.append_escape reader passes.introduced, passes.passed]

theorem proper_step {reader : StatusReader Status} (documented : ReadsNoTitle reader)
    {normalizer : TmuxOutputNormalizer} (proper : Proper normalizer) {byte : UInt8}
    (titleFits : normalizer.endsTitle byte →
      normalizer.payload.length + 2 ≤ maxPayloadBytes) :
    Proper (normalizer.feed reader byte).next := by
  have stepped := feed_stepped documented proper byte titleFits
  generalize normalizer.feed reader byte = fed at stepped
  cases stepped with
  | silent properNext => exact properNext
  | plain _ _ => exact .breakable .data
  | abandoned _ _ _ => exact .breakable .escape
  | clipped _ _ _ _ => exact .breakable .data
  | passed _ _ => exact .breakable .data

/-- All octets of the first run. -/
theorem ReadBack.run {reader : StatusReader Status} (documented : ReadsNoTitle reader)
    {normalizer : TmuxOutputNormalizer} {pending : TmuxOutputNormalizer} {data : List UInt8}
    (separate : Separate reader normalizer pending data) (proper : Proper normalizer)
    {output : List UInt8} (readBack : ReadBack reader output pending) :
    Proper (normalizer.feedAll reader data).next ∧
      ∃ last, ReadBack reader (output ++ (normalizer.feedAll reader data).output) last := by
  induction separate generalizing output with
  | nil => exact ⟨by simpa using proper, _, by simpa using readBack⟩
  | cons apart titleFits _ inductionHypothesis =>
      obtain ⟨properLast, last, readLast⟩ := inductionHypothesis
        (proper_step documented proper titleFits)
        (readBack.step documented proper apart titleFits)
      rw [feedAll_cons]
      exact ⟨properLast, last, by simpa [Ran.andThen, Fed.ran] using readLast⟩

/-! ### The end of a stream -/

/-- Text without an ESC comes out as it is. -/
theorem feedAll_text {text : List UInt8} (noEscape : 0x1b ∉ text) :
    reset.feedAll reader text = { next := reset, output := text } := by
  induction text with
  | nil => exact feedAll_nil reader _
  | cons byte rest inductionHypothesis =>
      have notEscape : byte ≠ 0x1b := fun equal => noEscape (by simp [equal])
      have step : feed reader reset byte = { next := reset, output := [byte] } :=
        (feed_breakable_plain reader .data notEscape).mpr rfl
      have later := inductionHypothesis fun member => noEscape (by simp [member])
      rw [feedAll_cons, step]
      simp [Ran.andThen, Fed.ran, later]

/-- What `close` lets out of a string control. -/
theorem close_string {kind : ParserState} (string : readsString kind) (payload : List UInt8)
    (waitingForStringTerminator overflowed : Bool) :
    (close { state := kind, control := introducerFor kind, payload, waitingForStringTerminator
             overflowed }).2 =
      introducerFor kind ++ (payload ++ if waitingForStringTerminator then [0x1b] else []) := by
  have notData : kind ≠ .data := by rintro rfl; simp [readsString] at string
  simp [close, notData]

/-- A fresh normalizer comes to a string control by what its `close` lets out. -/
theorem close_string_reads {kind : ParserState} {body : List UInt8} (string : readsString kind)
    (isBody : Body kind body) (fits : body.length ≤ maxPayloadBytes)
    (waitingForStringTerminator : Bool) :
    reset.feedAll reader
        (introducerFor kind ++ (body ++ if waitingForStringTerminator then [0x1b] else [])) =
      { next := { state := kind, control := introducerFor kind, payload := body
                  waitingForStringTerminator } } := by
  rw [← List.append_assoc, feedAll_append, string_reads reader string isBody fits]
  cases waitingForStringTerminator with
  | true => simp [Ran.andThen, feedAll_quiet reader (feed_string_escape reader string)]
  | false => simp [Ran.andThen]

/-- What `close` lets out is read by a fresh normalizer as an unterminated
sequence again, and let out by its `close`: unless the string control was too
long and an ESC came after what was left out of it. -/
theorem close_proper {normalizer : TmuxOutputNormalizer} (proper : Proper normalizer)
    (notData : normalizer.state ≠ .data)
    (whole : ¬ (normalizer.overflowed = true ∧ normalizer.waitingForStringTerminator = true)) :
    normalizer.close.2.head? = some 0x1b ∧
      ∃ last, reset.feedAll reader normalizer.close.2 = { next := last } ∧
        last.close.2 = normalizer.close.2 := by
  have introduced {kind : ParserState} (string : readsString kind) (rest : List UInt8) :
      (introducerFor kind ++ rest).head? = some 0x1b := by
    obtain ⟨byte, introducer, -⟩ := stringIntroducer_introducerFor string
    rw [introducer]
    rfl
  cases proper with
  | breakable breakable =>
      rw [close_breakable breakable]
      exact ⟨breakable_head breakable notData, normalizer, breakable_reads reader breakable,
        close_breakable breakable⟩
  | @csiOverflowed middle inside full =>
      have flushed : close { state := .csi, control := 0x1b :: 0x5b :: middle, overflowed := true } =
          (reset, 0x1b :: 0x5b :: middle) := by simp [close]
      have breakable : Breakable { state := .csi, control := 0x1b :: 0x5b :: middle } :=
        .csi inside (Nat.le_of_eq full)
      rw [flushed]
      exact ⟨rfl, _, breakable_reads reader breakable, close_breakable breakable⟩
  | @string kind payload waiting string isBody fits =>
      rw [close_string string]
      exact ⟨introduced string _, _, close_string_reads reader string isBody fits waiting,
        close_string string _ _ _⟩
  | @stringOverflowed kind payload waiting string isBody full =>
      have notWaiting : waiting = false := by simpa using whole
      subst notWaiting
      rw [close_string string]
      rcases isBody with isBody | ⟨body, isBody, rfl⟩
      · exact ⟨introduced string _, _,
          close_string_reads reader string isBody (Nat.le_of_eq full) false,
          close_string string _ _ _⟩
      · -- The last octet there was room for is an ESC: read again, it may begin the terminator.
        have fits : body.length ≤ maxPayloadBytes := by
          rw [List.length_append, List.length_singleton] at full
          omega
        exact ⟨introduced string _, _, by
          simpa using close_string_reads reader string isBody fits true,
          by simpa using close_string string body true false⟩

/-- A normalizer lets no query through: what comes out of any stream, however
it is cut, is normalized, as long as it is `Separate`. -/
theorem written_normalized (documented : ReadsNoTitle reader) (chunks : List (List UInt8))
    (separate : Separate reader reset reset chunks.flatten) (closes : Bool)
    (whole : closes = true → ¬ ((reset.callAll reader chunks).1.overflowed = true ∧
      (reset.callAll reader chunks).1.waitingForStringTerminator = true)) :
    Normalized reader (written reader chunks closes) := by
  obtain ⟨proper, last, readBack⟩ :=
    ReadBack.run documented separate (.breakable .data) (readBack_nil reader)
  rw [List.nil_append] at readBack
  simp only [written, callAll_eq_feedAll] at whole ⊢
  cases closes with
  | false => simpa using readBack.normalized reader
  | true =>
      by_cases atData : (reset.feedAll reader chunks.flatten).next.state = .data
      · simpa [close, atData] using readBack.normalized reader
      · obtain ⟨introduced, final, run, flushed⟩ :=
          close_proper reader proper atData (whole rfl)
        rw [if_pos rfl, Normalized, readBack.append_escape reader introduced, run]
        simp [flushed]

/-- A terminal package in which only OSC 7501 is a status, and nobody listens. -/
def silentReader : StatusReader Unit :=
  { oscCode := [0x37, 0x35, 0x30, 0x31], fromOsc := fun _ _ => none, listens := false }

/-- ESC is given up at ESC, ESC [ c is suppressed as a query, and the text `[c`
behind it completes another. -/
theorem written_gluedQuery :
    written silentReader [[0x1b, 0x1b, 0x5b, 0x63, 0x5b, 0x63]] false = [0x1b, 0x5b, 0x63] ∧
      ¬ Normalized silentReader
        (written silentReader [[0x1b, 0x1b, 0x5b, 0x63, 0x5b, 0x63]] false) := by
  have query : feed silentReader { state := .csi, control := [0x1b, 0x5b] } 0x63 =
      { next := reset, notices := [.query] } := by decide
  have again : feedAll silentReader reset [0x1b, 0x5b, 0x63] =
      { next := reset, notices := [.query] } := by
    rw [feedAll_quiet silentReader (feed_escape silentReader),
      feedAll_quiet silentReader (feed_escape_csi silentReader), feedAll_singleton, query]
    · rfl
    · rw [query]
  have first : feedAll silentReader reset [0x1b, 0x1b, 0x5b, 0x63, 0x5b, 0x63] =
      { next := reset, output := [0x1b, 0x5b, 0x63], notices := [.query] } := by
    rw [feedAll_quiet silentReader (feed_escape silentReader), feedAll_cons,
      feed_breakable_escape silentReader .escape]
    simp only [Ran.andThen, Fed.ran, List.nil_append]
    rw [feedAll_quiet silentReader (feed_escape_csi silentReader), feedAll_cons, query]
    simp only [Ran.andThen, Fed.ran, List.nil_append]
    rw [feedAll_text silentReader (by decide)]
    rfl
  have out : written silentReader [[0x1b, 0x1b, 0x5b, 0x63, 0x5b, 0x63]] false =
      [0x1b, 0x5b, 0x63] := by
    simp [written, callAll_eq_feedAll, first]
  refine ⟨out, ?_⟩
  rw [out, Normalized, again]
  simp

/-- ESC given up at ESC, and a cursor sequence cut in two behind it. -/
theorem written_normalized_cutSequence :
    Normalized silentReader (written silentReader [[0x1b, 0x1b, 0x5b], [0x41, 0x63]] true) := by
  refine written_normalized silentReader ⟨by decide, fun _ => rfl⟩ [[0x1b, 0x1b, 0x5b], [0x41, 0x63]]
    ?_ true ?_
  · iterate 5 refine .cons (by decide) (by decide) ?_
    exact .nil
  · have last : (feedAll silentReader reset [0x1b, 0x1b, 0x5b, 0x41, 0x63]).next = reset := by
      rw [feedAll_quiet silentReader (feed_escape silentReader), feedAll_cons,
        feed_breakable_escape silentReader .escape]
      simp only [Ran.andThen, Fed.ran, List.nil_append]
      have ended : feed silentReader { state := .csi, control := [0x1b, 0x5b] } 0x41 =
          { next := reset, output := [0x1b, 0x5b, 0x41] } := by decide
      rw [feedAll_quiet silentReader (feed_escape_csi silentReader), feedAll_cons, ended]
      simp only [Ran.andThen, Fed.ran, List.nil_append]
      rw [feedAll_text silentReader (by decide)]
    intro _
    rw [callAll_eq_feedAll]
    simp only [List.flatten_cons, List.flatten_nil, List.append_nil, List.cons_append,
      List.nil_append, last]
    decide

end ServerBox.Terminal.Tmux.TmuxOutputNormalizer
