import ServerBox.Script.Segments

/-!
# A custom command speaks only for itself

A marker is told from any other text by its dots: the last two of the line, the first of
them the end of its separator. So a marker that the script prints is found where it was
printed, whatever precedes it on its line, and what a custom command printed to stdout,
which is written without a dot, holds none.
-/

namespace ServerBox.Script

open ServerBox.Std

/-! ### Dots -/

theorem toList_encodedNamePrefix : encodedNamePrefix.toList = ['b', '6', '4', '.'] := by
  simp [encodedNamePrefix]

theorem toList_customOutputPrefix : customOutputPrefix.toList =
    ['S', 'r', 'v', 'B', 'o', 'x', 'C', 'u', 's', 'C', 'm', 'd', 'O', 'u', 't', '.'] := by
  simp [customOutputPrefix]

theorem foreign_dot (alphabet : Base64.Alphabet)
    (isOne : alphabet = Base64.standard ∨ alphabet = Base64.urlSafe) :
    Base64.Foreign alphabet '.' := by
  rcases isOne with rfl | rfl
  · exact ⟨by decide, by decide⟩
  · exact ⟨by decide, by decide⟩

theorem dot_not_mem_encodeMarkerName (name : Text) : '.' ∉ encodeMarkerName name :=
  (foreign_dot _ (.inr rfl)).not_mem_encode _

/-- What follows the last of a character tells two texts apart. -/
theorem append_cons_inj {char : Char} {front other after later : Text}
    (same : front ++ char :: after = other ++ char :: later) (lacks : char ∉ after)
    (lacksToo : char ∉ later) : front = other ∧ after = later := by
  have reversed := congrArg List.reverse same
  simp only [List.reverse_append, List.reverse_cons, List.append_assoc,
    List.singleton_append] at reversed
  have one := Text.splitOnce_append front.reverse
    (fun held => lacks (List.mem_reverse.mp held) : char ∉ after.reverse)
  have two := Text.splitOnce_append other.reverse
    (fun held => lacksToo (List.mem_reverse.mp held) : char ∉ later.reverse)
  rw [reversed, two] at one
  obtain ⟨sameAfter, sameFront⟩ := Prod.mk.inj (Option.some.inj one)
  exact ⟨(List.reverse_injective sameFront).symm, (List.reverse_injective sameAfter).symm⟩

/-! ### Names -/

theorem fromUtf8_encode (text : Text) : fromUtf8 (Utf8.encode text) = some text := by
  rw [fromUtf8, Utf8.decode_encode, if_pos rfl]

theorem decodeMarkerName_encode (name : Text) :
    decodeMarkerName (encodedNamePrefix.toList ++ encodeMarkerName name) = some name := by
  rw [decodeMarkerName, Text.stripPrefix_append, Option.bind_eq_bind, Option.bind_some,
    encodeMarkerName, Base64.decode_encode]
  exact fromUtf8_encode name

/-- A name that decodes is written without a dot after its prefix. -/
theorem of_decodeMarkerName {encoded name : Text} (decoded : decodeMarkerName encoded = some name) :
    ∃ written, encoded = encodedNamePrefix.toList ++ written ∧ '.' ∉ written := by
  obtain ⟨written, stripped, later⟩ := Option.bind_eq_some_iff.mp decoded
  obtain ⟨octets, decodes, -⟩ := Option.bind_eq_some_iff.mp later
  exact ⟨written, Text.of_stripPrefix stripped, (foreign_dot _ (.inr rfl)).not_mem_of_decode decodes⟩

/-! ### Where a marker is found -/

theorem of_findMarker {sep line leading name : Text}
    (found : findMarker sep line = some (leading, name)) :
    ∃ written, line = leading ++ (sep ++ (encodedNamePrefix.toList ++ written)) ∧
      '.' ∉ written ∧
      decodeMarkerName (encodedNamePrefix.toList ++ written) = some name := by
  induction line generalizing leading with
  | nil => cases found
  | cons char rest inductionHypothesis =>
      rw [findMarker] at found
      split at found
      next other here =>
        obtain ⟨rfl, rfl⟩ := Prod.mk.inj (Option.some.inj found)
        split at here
        next isPrefix =>
          obtain ⟨tail, isTail⟩ := List.isPrefixOf_iff_prefix.mp isPrefix
          rw [← isTail, List.drop_left] at here
          obtain ⟨written, rfl, noDot⟩ := of_decodeMarkerName here
          exact ⟨written, isTail.symm, noDot, here⟩
        next => cases here
      next =>
        obtain ⟨⟨before, other⟩, isFound, same⟩ := Option.map_eq_some_iff.mp found
        obtain ⟨rfl, rfl⟩ := Prod.mk.inj same
        obtain ⟨written, shape, noDot, decodes⟩ := inductionHypothesis isFound
        exact ⟨written, congrArg (char :: ·) shape, noDot, decodes⟩

/-- A line that ends in a marker is not passed over. -/
theorem findMarker_ne_none {sep front encoded name : Text} (some : sep ≠ [])
    (decodes : decodeMarkerName encoded = Option.some name) :
    findMarker sep (front ++ (sep ++ encoded)) ≠ none := by
  induction front with
  | nil =>
      obtain ⟨char, rest, shape⟩ := List.exists_cons_of_ne_nil some
      have isPrefix : sep.isPrefixOf (sep ++ encoded) = true :=
        List.isPrefixOf_iff_prefix.mpr (List.prefix_append ..)
      have whole : sep ++ encoded = char :: (rest ++ encoded) := by rw [shape, List.cons_append]
      rw [List.nil_append, whole, findMarker, ← whole, if_pos isPrefix, List.drop_left, decodes]
      exact Option.some_ne_none _
  | cons char rest inductionHypothesis =>
      rw [List.cons_append, findMarker]
      split
      · exact Option.some_ne_none _
      · intro none
        exact inductionHypothesis (Option.map_eq_none_iff.mp none)

/-- A marker is found where it was printed. -/
theorem findMarker_append {sep : Text} (some : sep ≠ []) (front name : Text) :
    findMarker sep (front ++ (sep ++ (encodedNamePrefix.toList ++ encodeMarkerName name))) =
      Option.some (front, name) := by
  cases found : findMarker sep
      (front ++ (sep ++ (encodedNamePrefix.toList ++ encodeMarkerName name))) with
  | none => exact absurd found (findMarker_ne_none some (decodeMarkerName_encode name))
  | some marker =>
      obtain ⟨leading, other⟩ := marker
      obtain ⟨written, shape, noDot, decodes⟩ := of_findMarker found
      -- Both end with their last dot at the same place.
      have dots : (front ++ (sep ++ ['b', '6', '4'])) ++ '.' :: encodeMarkerName name =
          (leading ++ (sep ++ ['b', '6', '4'])) ++ '.' :: written := by
        simpa [toList_encodedNamePrefix] using shape
      obtain ⟨sameFront, rfl⟩ := append_cons_inj dots (dot_not_mem_encodeMarkerName name) noDot
      rw [List.append_cancel_right_eq] at sameFront
      rw [decodeMarkerName_encode] at decodes
      rw [sameFront, Option.some.inj decodes]

/-- The marker of one separator is none of the other's. -/
theorem findMarker_other {sep other : Text} (front name : Text)
    (apart : ∀ one two : Text, one ++ sep ≠ two ++ other) :
    findMarker sep (front ++ (other ++ (encodedNamePrefix.toList ++ encodeMarkerName name))) =
      none := by
  cases found : findMarker sep
      (front ++ (other ++ (encodedNamePrefix.toList ++ encodeMarkerName name))) with
  | none => rfl
  | some marker =>
      obtain ⟨leading, also⟩ := marker
      obtain ⟨written, shape, noDot, -⟩ := of_findMarker found
      have dots : ((front ++ other) ++ ['b', '6', '4']) ++ '.' :: encodeMarkerName name =
          ((leading ++ sep) ++ ['b', '6', '4']) ++ '.' :: written := by
        simpa [toList_encodedNamePrefix] using shape
      obtain ⟨sameFront, -⟩ := append_cons_inj dots (dot_not_mem_encodeMarkerName name) noDot
      rw [List.append_cancel_right_eq] at sameFront
      exact absurd sameFront.symm (apart leading front)

theorem separators_apart (one two : Text) : one ++ customSeparator ≠ two ++ separator := by
  intro same
  have reversed := congrArg List.reverse same
  simp [separator, customSeparator] at reversed

theorem splitMarker_cmd (front key : Text) :
    splitMarker (front ++ cmdMarker key) true = some (front, key) := by
  have other : findMarker customSeparator (front ++ cmdMarker key) = none :=
    findMarker_other front key separators_apart
  have found : findMarker separator (front ++ cmdMarker key) = some (front, key) :=
    findMarker_append (List.cons_ne_nil _ _) front key
  simp [splitMarker, other, found]

theorem splitMarker_custom (front name : Text) (allowBuiltin : Bool) :
    splitMarker (front ++ customCmdMarker name) allowBuiltin =
      some (front, customResultKey name) := by
  have other : findMarker separator (front ++ customCmdMarker name) = none :=
    findMarker_other front name fun one two => (separators_apart two one).symm
  have found : findMarker customSeparator (front ++ customCmdMarker name) = some (front, name) :=
    findMarker_append (List.cons_ne_nil _ _) front name
  cases allowBuiltin <;> simp [splitMarker, other, found]

/-- What holds at most one dot holds no marker. -/
theorem splitMarker_of_count {line : Text} (few : line.count '.' ≤ 1) (allowBuiltin : Bool) :
    splitMarker line allowBuiltin = none := by
  have none : ∀ sep : Text, 1 ≤ sep.count '.' → findMarker sep line = none := by
    intro sep dotted
    rw [Option.eq_none_iff_forall_ne_some]
    rintro ⟨leading, name⟩ found
    obtain ⟨written, rfl, -⟩ := of_findMarker found
    simp only [List.count_append, toList_encodedNamePrefix] at few
    have one : List.count '.' ['b', '6', '4', '.'] = 1 := by decide
    omega
  have builtin := none separator (by decide)
  have custom := none customSeparator (by decide)
  cases allowBuiltin <;> simp [splitMarker, builtin, custom]

/-! ### Lines -/

/-- What is read of a text that goes on from the line begun. -/
def feed (reading : Reading) (begun text : Text) : Reading :=
  (splitTerminator begun text).foldl Reading.line reading

theorem feed_append {front : Text} (oneLine : '\n' ∉ front) (reading : Reading)
    (begun rest : Text) :
    feed reading begun (front ++ '\n' :: rest) = feed (reading.line (begun ++ front)) [] rest := by
  induction front generalizing begun with
  | nil => simp [feed, splitTerminator]
  | cons char front inductionHypothesis =>
      obtain ⟨other, later⟩ := List.ne_and_not_mem_of_not_mem_cons oneLine
      have next := inductionHypothesis later (begun ++ [char])
      rw [List.append_assoc, List.singleton_append] at next
      rw [← next, feed, List.cons_append, splitTerminator, if_neg (Ne.symm other), feed]

/-- The characters that a marker's name and a custom command's output are written in. -/
theorem not_mem_encode {char : Char} (alphabet : Base64.Alphabet)
    (foreign : Base64.Foreign alphabet char) {octets : List UInt8} {front : Text}
    (lacks : char ∉ front) : char ∉ front ++ Base64.encode alphabet octets := by
  rw [List.mem_append, not_or]
  exact ⟨lacks, foreign.not_mem_encode octets⟩

theorem not_mem_marker {char : Char} (foreign : Base64.Foreign Base64.urlSafe char) (sep : Text)
    (lacks : char ∉ sep) (prefixLacks : char ∉ ['b', '6', '4', '.']) (name : Text) :
    char ∉ sep ++ (encodedNamePrefix.toList ++ encodeMarkerName name) := by
  rw [toList_encodedNamePrefix, ← List.append_assoc]
  refine not_mem_encode _ foreign ?_
  rw [List.mem_append, not_or]
  exact ⟨lacks, prefixLacks⟩

theorem newline_not_mem_cmdMarker (key : Text) : '\n' ∉ cmdMarker key :=
  not_mem_marker ⟨by decide, by decide⟩ separator (by decide) (by decide) key

theorem return_not_mem_cmdMarker (key : Text) : '\r' ∉ cmdMarker key :=
  not_mem_marker ⟨by decide, by decide⟩ separator (by decide) (by decide) key

theorem newline_not_mem_customCmdMarker (name : Text) : '\n' ∉ customCmdMarker name :=
  not_mem_marker ⟨by decide, by decide⟩ customSeparator (by decide) (by decide) name

theorem return_not_mem_customCmdMarker (name : Text) : '\r' ∉ customCmdMarker name :=
  not_mem_marker ⟨by decide, by decide⟩ customSeparator (by decide) (by decide) name

/-- A line that goes on with a text without carriage returns keeps its own. -/
theorem withoutReturn_append {front back : Text} (some : back ≠ []) (noReturn : '\r' ∉ back) :
    Text.withoutReturn (front ++ back) = front ++ back := by
  refine Text.withoutReturn_eq_self fun ends => ?_
  rw [List.getLast?_append_of_ne_nil _ some] at ends
  exact noReturn (List.mem_of_getLast? ends)

/-! ### Sections -/

/-- What is kept of a command's output: every line without its carriage return, the one that
the next marker follows on as it is. -/
def sectionBuf (last : Bool) (begun : Text) : Text → Text
  | [] =>
      if begun = [] then []
      else (if last then Text.withoutReturn begun else begun) ++ ['\n']
  | char :: rest =>
      if char = '\n' then Text.withoutReturn begun ++ '\n' :: sectionBuf last [] rest
      else sectionBuf last (begun ++ [char]) rest

/-- A built-in command's output as its section holds it: the carriage returns before line
ends and the last line end taken off. -/
def kept (last : Bool) (out : Text) : Text :=
  let buf := sectionBuf last [] out
  let text := if buf.getLast? = some '\n' then buf.dropLast else buf
  if text.getLast? = some '\r' then text.dropLast else text

/-- No line of an output ends in a marker. -/
def Plain (out : Text) : Prop :=
  ∀ line ∈ splitTerminator [] out, splitMarker (Text.withoutReturn line) true = none

/-- A line without a marker goes to the section that is open. -/
theorem line_plain {key buf line : Text} {result : List (Text × Text)} {allowBuiltin : Bool}
    (allows : (customResultName key).isNone = allowBuiltin)
    (plain : splitMarker (Text.withoutReturn line) allowBuiltin = none) :
    Reading.line ⟨some key, buf, result⟩ line =
      ⟨some key, buf ++ Text.withoutReturn line ++ ['\n'], result⟩ := by
  have allowed : Reading.allowBuiltin ⟨some key, buf, result⟩ = allowBuiltin := allows
  simp [Reading.line, allowed, plain]

/-- A marker closes the section that is open, with what was printed before it on its line. -/
theorem line_marker {key buf begun marker after : Text} {result : List (Text × Text)}
    (some : marker ≠ []) (noReturn : '\r' ∉ marker)
    (splits : splitMarker (begun ++ marker) (customResultName key).isNone =
      Option.some (begun, after)) :
    Reading.line ⟨Option.some key, buf, result⟩ (begun ++ marker) =
      ⟨Option.some after, [],
        result ++ [(key, sectionText key (if begun = [] then buf else buf ++ begun ++ ['\n']))]⟩ := by
  have allowed : Reading.allowBuiltin ⟨Option.some key, buf, result⟩ =
      (customResultName key).isNone := rfl
  simp only [Reading.line, withoutReturn_append some noReturn, allowed, splits]
  by_cases empty : begun = []
  · simp [empty, Reading.flush]
  · simp [empty, Reading.flush]

/-- A built-in command's output up to the marker that follows it. -/
theorem feed_out {key marker after out : Text} (noName : customResultName key = none)
    (some : marker ≠ []) (oneLine : '\n' ∉ marker) (noReturn : '\r' ∉ marker)
    (splits : ∀ begun, splitMarker (begun ++ marker) true = Option.some (begun, after))
    {begun buf : Text} {result : List (Text × Text)} (rest : Text)
    (plain : ∀ line ∈ splitTerminator begun out,
      splitMarker (Text.withoutReturn line) true = none) :
    feed ⟨Option.some key, buf, result⟩ begun (out ++ (marker ++ '\n' :: rest)) =
      feed ⟨Option.some after, [],
        result ++ [(key, sectionText key (buf ++ sectionBuf false begun out))]⟩ [] rest := by
  have allows : (customResultName key).isNone = true := by rw [noName]; rfl
  induction out generalizing begun buf with
  | nil =>
      rw [List.nil_append, feed_append oneLine, line_marker some noReturn
        (allows ▸ splits begun)]
      by_cases empty : begun = []
      · simp [empty, sectionBuf]
      · simp [empty, sectionBuf]
  | cons char out inductionHypothesis =>
      rw [splitTerminator] at plain
      by_cases ends : char = '\n'
      · subst ends
        rw [if_pos rfl, List.forall_mem_cons] at plain
        have first : feed ⟨Option.some key, buf, result⟩ begun
            ('\n' :: out ++ (marker ++ '\n' :: rest)) =
              feed (Reading.line ⟨Option.some key, buf, result⟩ begun) []
                (out ++ (marker ++ '\n' :: rest)) := by
          simp [feed, splitTerminator]
        rw [first, line_plain allows plain.1, inductionHypothesis plain.2, sectionBuf, if_pos rfl]
        simp
      · rw [if_neg ends] at plain
        have first : feed ⟨Option.some key, buf, result⟩ begun
            (char :: out ++ (marker ++ '\n' :: rest)) =
              feed ⟨Option.some key, buf, result⟩ (begun ++ [char])
                (out ++ (marker ++ '\n' :: rest)) := by
          rw [List.cons_append, feed, splitTerminator, if_neg ends, feed]
        rw [first, inductionHypothesis plain, sectionBuf, if_neg ends]

/-- A built-in command's output with nothing after it. -/
theorem feed_last {key out : Text} (noName : customResultName key = none)
    {begun buf : Text} {result : List (Text × Text)}
    (plain : ∀ line ∈ splitTerminator begun out,
      splitMarker (Text.withoutReturn line) true = none) :
    feed ⟨some key, buf, result⟩ begun out =
      ⟨some key, buf ++ sectionBuf true begun out, result⟩ := by
  have allows : (customResultName key).isNone = true := by rw [noName]; rfl
  induction out generalizing begun buf with
  | nil =>
      by_cases empty : begun = []
      · simp [empty, feed, splitTerminator, sectionBuf]
      · rw [splitTerminator, if_neg empty, List.forall_mem_cons] at plain
        have line := @line_plain key buf begun result true allows plain.1
        simp [empty, feed, splitTerminator, sectionBuf, line]
  | cons char out inductionHypothesis =>
      rw [splitTerminator] at plain
      by_cases ends : char = '\n'
      · subst ends
        rw [if_pos rfl, List.forall_mem_cons] at plain
        have first : feed ⟨some key, buf, result⟩ begun ('\n' :: out) =
            feed (Reading.line ⟨some key, buf, result⟩ begun) [] out := by
          simp [feed, splitTerminator]
        rw [first, line_plain allows plain.1, inductionHypothesis plain.2, sectionBuf, if_pos rfl]
        simp
      · rw [if_neg ends] at plain
        have first : feed ⟨some key, buf, result⟩ begun (char :: out) =
            feed ⟨some key, buf, result⟩ (begun ++ [char]) out := by
          rw [feed, splitTerminator, if_neg ends, feed]
        rw [first, inductionHypothesis plain, sectionBuf, if_neg ends]

/-! ### Custom commands -/

theorem customResultName_key {name : Text} (some : name ≠ []) :
    customResultName (customResultKey name) = Option.some name := by
  have isPrefix : customSeparator.isPrefixOf (customSeparator ++ name) = true :=
    List.isPrefixOf_iff_prefix.mpr (List.prefix_append ..)
  rw [customResultName, customResultKey, if_pos isPrefix, List.drop_left]
  simp [some]

/-- A command without a name is not run. -/
theorem Command.name_ne_nil {command : Command} (runs : command.runs = true) :
    command.name ≠ [] := by
  intro empty
  have noUnder : ∀ char ∈ List.replicate (5 - (Text.decimal command.order).length) '0' ++
      Text.decimal command.order, char ≠ '_' := by
    intro char held
    rcases List.mem_append.mp held with zero | digit
    · rw [List.eq_of_mem_replicate zero]
      decide
    · rintro rfl
      have isDigit := Nat.isDigit_of_mem_toDigits (by decide) (by decide) digit
      revert isDigit
      decide
  have name : customCmdFileName command.order command.name =
      (List.replicate (5 - (Text.decimal command.order).length) '0' ++
        Text.decimal command.order) ++ ['_'] := by
    simp [customCmdFileName, empty, encodeMarkerName, Base64.encode]
  rw [Command.runs, name, CustomCommands.isCommand] at runs
  have after : (List.dropWhile (fun char => decide (char ≠ '_'))
      ((List.replicate (5 - (Text.decimal command.order).length) '0' ++
        Text.decimal command.order) ++ ['_'])).tail = [] := by
    rw [List.dropWhile_append_of_pos (fun char held => decide_eq_true (noUnder char held))]
    rfl
  simp only [after, List.mem_append, List.mem_singleton, or_true, if_true, List.isEmpty_nil,
    Bool.not_true, Bool.and_false, Bool.false_and] at runs
  cases runs

/-- What follows a custom command's marker. -/
def Command.body (command : Command) : Text :=
  customOutputPrefix.toList ++
    Base64.encode Base64.standard (command.stdout.take customMaxOutputBytes)

theorem count_encode (alphabet : Base64.Alphabet) {char : Char}
    (foreign : Base64.Foreign alphabet char) (octets : List UInt8) :
    (Base64.encode alphabet octets).count char = 0 :=
  List.count_eq_zero.mpr (foreign.not_mem_encode octets)

theorem Command.newline_not_mem_body (command : Command) : '\n' ∉ command.body :=
  not_mem_encode _ ⟨by decide, by decide⟩ (by rw [toList_customOutputPrefix]; decide)

theorem Command.return_not_mem_body (command : Command) : '\r' ∉ command.body :=
  not_mem_encode _ ⟨by decide, by decide⟩ (by rw [toList_customOutputPrefix]; decide)

theorem Command.body_ne_nil (command : Command) : command.body ≠ [] := by
  rw [Command.body, toList_customOutputPrefix]
  exact List.cons_ne_nil _ _

/-- What a custom command printed to stdout is in one line without a marker. -/
theorem Command.splitMarker_body (command : Command) (allowBuiltin : Bool) :
    splitMarker command.body allowBuiltin = none := by
  refine splitMarker_of_count ?_ allowBuiltin
  have one : List.count '.' customOutputPrefix.toList = 1 := by
    rw [toList_customOutputPrefix]
    decide
  rw [Command.body, List.count_append, one, count_encode _ (foreign_dot _ (.inl rfl))]

theorem sectionText_body {command : Command} (some : command.name ≠ []) :
    sectionText (customResultKey command.name) (command.body ++ ['\n']) =
      Utf8.decode (command.stdout.take customMaxOutputBytes) := by
  have noReturn : command.body.getLast? ≠ Option.some '\r' := fun ends =>
    command.return_not_mem_body (List.mem_of_getLast? ends)
  rw [sectionText, List.getLast?_concat, if_pos rfl, List.dropLast_concat, if_neg noReturn,
    customResultName_key some, Command.body, Text.stripPrefix_append]
  simp only [Base64.decode_encode]

/-- The section of a custom command. -/
def Command.segment (command : Command) : Text × Text :=
  (customResultKey command.name, Utf8.decode (command.stdout.take customMaxOutputBytes))

theorem Command.print_quiet {command : Command} (quiet : command.stderr = []) :
    command.print = customCmdMarker command.name ++ '\n' :: (command.body ++ ['\n']) := by
  simp [Command.print, Command.body, quiet]

/-- The custom commands from the first one's output on. -/
theorem feed_commands {command : Command} (commands : List Command)
    (runs : ∀ each ∈ command :: commands, each.runs = true)
    (quiet : ∀ each ∈ command :: commands, each.stderr = []) (result : List (Text × Text)) :
    (feed ⟨some (customResultKey command.name), [], result⟩ []
      (command.body ++ '\n' :: commands.flatMap Command.print)).flush.result =
        result ++ (command :: commands).map Command.segment := by
  induction commands generalizing command result with
  | nil =>
      rw [List.forall_mem_cons] at runs
      have name := Command.name_ne_nil runs.1
      have plain := command.splitMarker_body
        (customResultName (customResultKey command.name)).isNone
      rw [feed_append command.newline_not_mem_body, List.nil_append,
        line_plain rfl (by rwa [Text.withoutReturn_eq_self fun ends =>
          command.return_not_mem_body (List.mem_of_getLast? ends)]),
        Text.withoutReturn_eq_self fun ends =>
          command.return_not_mem_body (List.mem_of_getLast? ends)]
      simp [feed, splitTerminator, Reading.flush, sectionText_body name, Command.segment]
  | cons next commands inductionHypothesis =>
      rw [List.forall_mem_cons] at runs quiet
      have name := Command.name_ne_nil runs.1
      have plain := command.splitMarker_body
        (customResultName (customResultKey command.name)).isNone
      have rest := inductionHypothesis runs.2 quiet.2 (result ++ [command.segment])
      rw [feed_append command.newline_not_mem_body, List.nil_append,
        line_plain rfl (by rwa [Text.withoutReturn_eq_self fun ends =>
          command.return_not_mem_body (List.mem_of_getLast? ends)]),
        Text.withoutReturn_eq_self fun ends =>
          command.return_not_mem_body (List.mem_of_getLast? ends), List.nil_append]
      have marker : customCmdMarker next.name ≠ [] := List.cons_ne_nil _ _
      have splits := splitMarker_custom [] next.name
        (customResultName (customResultKey command.name)).isNone
      have line := @line_marker (customResultKey command.name) (command.body ++ ['\n']) [] _ _
        result marker (return_not_mem_customCmdMarker next.name) splits
      rw [if_pos rfl, sectionText_body name] at line
      rw [List.flatMap_cons, Command.print_quiet (quiet.2 next List.mem_cons_self),
        List.append_assoc, List.cons_append,
        feed_append (newline_not_mem_customCmdMarker next.name), line, List.append_assoc,
        List.singleton_append]
      rw [← Command.segment, rest, List.append_assoc]
      rfl

/-! ### The whole output -/

theorem customResultName_builtin (builtin : Builtin) :
    customResultName builtin.key.toList = none := by
  have each : ∀ key ∈ builtinKeys, customResultName key.toList = none := by
    simp [builtinKeys, customResultName, customSeparator]
  exact each builtin.key builtin.isKey

/-- The sections of the built-in commands, when something comes after them or nothing does. -/
def builtinSegments (last : Bool) : List Builtin → List (Text × Text)
  | [] => []
  | builtin :: rest =>
      (builtin.key.toList, kept (last && rest.isEmpty) builtin.out) :: builtinSegments last rest

theorem sectionText_builtin (builtin : Builtin) (last : Bool) :
    sectionText builtin.key.toList (sectionBuf last [] builtin.out) = kept last builtin.out := by
  simp [sectionText, customResultName_builtin, kept]

/-- The built-in commands from the first one's output on. -/
theorem feed_builtins {builtin : Builtin} (builtins : List Builtin) (commands : List Command)
    (plain : ∀ each ∈ builtin :: builtins, Plain each.out)
    (runs : ∀ each ∈ commands, each.runs = true) (quiet : ∀ each ∈ commands, each.stderr = [])
    (result : List (Text × Text)) :
    (feed ⟨some builtin.key.toList, [], result⟩ [] (builtin.out ++
      (builtins.flatMap Builtin.print ++ commands.flatMap Command.print))).flush.result =
        result ++ builtinSegments commands.isEmpty (builtin :: builtins) ++
          commands.map Command.segment := by
  induction builtins generalizing builtin result with
  | nil =>
      rw [List.forall_mem_cons] at plain
      cases commands with
      | nil =>
          rw [List.flatMap_nil, List.flatMap_nil, List.append_nil, List.append_nil,
            feed_last (customResultName_builtin builtin) plain.1]
          simp [Reading.flush, builtinSegments, sectionText_builtin]
      | cons command commands =>
          have first := quiet command List.mem_cons_self
          have out := @feed_out _ (customCmdMarker command.name) _ builtin.out
            (customResultName_builtin builtin)
            (List.cons_ne_nil _ _) (newline_not_mem_customCmdMarker command.name)
            (return_not_mem_customCmdMarker command.name)
            (fun begun => splitMarker_custom begun command.name true) [] [] result
            (command.body ++ '\n' :: commands.flatMap Command.print) plain.1
          rw [List.flatMap_nil, List.nil_append, List.flatMap_cons, Command.print_quiet first,
            List.append_assoc, List.cons_append, List.append_assoc, List.singleton_append, out,
            feed_commands commands runs quiet, List.nil_append, sectionText_builtin]
          rfl
  | cons next builtins inductionHypothesis =>
      rw [List.forall_mem_cons] at plain
      have out := @feed_out _ (cmdMarker next.key.toList) _ builtin.out
        (customResultName_builtin builtin)
        (List.cons_ne_nil _ _) (newline_not_mem_cmdMarker next.key.toList)
        (return_not_mem_cmdMarker next.key.toList)
        (fun begun => splitMarker_cmd begun next.key.toList) [] [] result
        (next.out ++ (builtins.flatMap Builtin.print ++ commands.flatMap Command.print)) plain.1
      have rest := inductionHypothesis plain.2
        (result ++ [(builtin.key.toList, kept false builtin.out)])
      rw [List.flatMap_cons, Builtin.print, List.append_assoc, List.append_assoc,
        List.cons_append, out, List.nil_append, sectionText_builtin, rest]
      simp [builtinSegments]

/-- A first marker opens its section. -/
theorem feed_first {marker after rest : Text} (some : marker ≠ []) (oneLine : '\n' ∉ marker)
    (noReturn : '\r' ∉ marker) (splits : splitMarker marker true = Option.some ([], after)) :
    feed ⟨none, [], []⟩ [] (marker ++ '\n' :: rest) = feed ⟨Option.some after, [], []⟩ [] rest := by
  have line : Reading.line ⟨none, [], []⟩ marker = ⟨Option.some after, [], []⟩ := by
    have returned := @withoutReturn_append [] marker some noReturn
    rw [List.nil_append] at returned
    have allowed : Reading.allowBuiltin ⟨none, [], []⟩ = true := rfl
    simp [Reading.line, returned, allowed, splits, Reading.flush]
  rw [feed_append oneLine, List.nil_append, line]

/-- With no built-in command, each custom command that is run has its section. -/
theorem segments_commands {commands : List Command}
    (quiet : ∀ each ∈ commands, each.stderr = []) :
    parseScriptSegments (statusOutput [] commands) =
      (commands.filter Command.runs).map Command.segment := by
  have runs : ∀ each ∈ commands.filter Command.runs, each.runs = true :=
    fun each held => (List.mem_filter.mp held).2
  have quiets : ∀ each ∈ commands.filter Command.runs, each.stderr = [] :=
    fun each held => quiet each (List.mem_filter.mp held).1
  rw [statusOutput, List.flatMap_nil, List.nil_append]
  cases taken : commands.filter Command.runs with
  | nil => rfl
  | cons command commands =>
      rw [taken] at runs quiets
      have marker := @feed_first (customCmdMarker command.name) _
        (command.body ++ '\n' :: commands.flatMap Command.print)
        (List.cons_ne_nil _ _) (newline_not_mem_customCmdMarker _)
        (return_not_mem_customCmdMarker _) (splitMarker_custom [] command.name true)
      have rest := feed_commands commands runs quiets []
      rw [← marker] at rest
      rw [List.flatMap_cons, Command.print_quiet (quiets command List.mem_cons_self),
        List.append_assoc, List.cons_append, List.append_assoc, List.singleton_append]
      exact rest

/-- `cpu` with two lines, the second not ended, and a command `a` that prints an octet which
is no text, and a marker. -/
def twoSections : List Builtin × List Command :=
  ([⟨"cpu", by decide, ['1', '\r', '\n', '2']⟩],
    [⟨100, ['a'], 255 :: Utf8.encode (cmdMarker ['c', 'p', 'u']), []⟩])

/-- A command `a` that prints one octet more than is kept. -/
def longCommand : Command := ⟨100, ['a'], List.replicate 65537 120, []⟩

theorem decode_replicate (count : Nat) :
    Utf8.decode (List.replicate count 120) = List.replicate count 'x' := by
  have encoded : List.replicate count (120 : UInt8) = Utf8.encode (List.replicate count 'x') := by
    have one : String.utf8EncodeChar 'x' = [120] := by decide
    simp [Utf8.encode, List.flatMap_replicate, one]
  rw [encoded, Utf8.decode_encode]

end ServerBox.Script
