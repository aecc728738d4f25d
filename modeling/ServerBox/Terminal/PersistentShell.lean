import ServerBox.Std.Text
import Mathlib.Algebra.Order.Ring.Nat

/-!
# A shell that stays open

`src/lib/data/terminal/persistent_shell.dart`: a command is followed by a line that marks its
end and holds its exit code; the shell's stdout is read as it comes until that line is there.
However the stdout is cut into chunks, the answer is the same, unless a cut falls inside the exit
code.
-/

namespace ServerBox.Terminal

open ServerBox.Std

/-! ### The marker -/

def donePrefix : String := "__SERVER_BOX_DONE__"

def marker (commandId : Nat) : Text := donePrefix.toList ++ Text.decimal commandId ++ [':']

/-- What `RegExp(r'(?:^|\n)…')` takes from the marker on: `:(\d+)(?:\r?\n|$)`, as the digits and
what follows. -/
def readCompletion (marker text : Text) : Option (Text × Text) :=
  if marker.isPrefixOf text then
    let digits := (text.drop marker.length).takeWhile Char.isDigit
    if digits.isEmpty then none
    else match (text.drop marker.length).drop digits.length with
      | [] => some (digits, [])
      | '\n' :: rest => some (digits, rest)
      | '\r' :: '\n' :: rest => some (digits, rest)
      | _ => none
  else none

/-- The first match after a newline: what is before it, its digits and what follows. -/
def searchCompletion (marker : Text) : Text → Option (Text × Text × Text)
  | [] => none
  | char :: rest =>
      match if char = '\n' then readCompletion marker rest else none with
      | some found => some ([], found)
      | none => (searchCompletion marker rest).map fun found => (char :: found.1, found.2)

/-- `firstMatch`. -/
def firstCompletion (marker raw : Text) : Option (Text × Text × Text) :=
  match readCompletion marker raw with
  | some found => some ([], found)
  | none => searchCompletion marker raw

/-! ### The shell -/

structure CommandResult where
  output : Text
  exitCode : Option Nat
deriving DecidableEq, Repr

structure PersistentShell where
  /-- The command that has not completed. -/
  pendingCommandId : Option Nat
  buffer : Text
  stderrBuffer : Text
deriving DecidableEq, Repr

/-- What Dart trims. -/
def isTrimmed (char : Char) : Bool := Text.isWhitespace char || char = '\uFEFF'

def trimRight (text : Text) : Text := text.rdropWhile isTrimmed

def trimBoth (text : Text) : Text := (text.dropWhile isTrimmed).rdropWhile isTrimmed

namespace PersistentShell

/-- `run`: nothing of the last command is left. -/
def run (commandId : Nat) : PersistentShell := ⟨some commandId, [], []⟩

def resultOf (shell : PersistentShell) (output digits : Text) : CommandResult where
  output := Text.join '\n' ([trimRight output, trimBoth shell.stderrBuffer].filter (· ≠ []))
  exitCode := Text.parseUnsigned (2 ^ 63 - 1) digits

/-- `_handleStdout`, and the result it completes the command with. -/
def handleStdout (shell : PersistentShell) (data : Text) :
    PersistentShell × Option CommandResult :=
  match shell.pendingCommandId with
  | none => (shell, none)
  | some commandId =>
      let raw := shell.buffer ++ data
      match firstCompletion (marker commandId) raw with
      | none => ({ shell with buffer := raw }, none)
      | some (output, digits, remaining) =>
          (⟨none, remaining, []⟩, some (shell.resultOf output digits))

/-- `_handleStderr`. -/
def handleStderr (shell : PersistentShell) (data : Text) : PersistentShell :=
  match shell.pendingCommandId with
  | none => shell
  | some _ => { shell with stderrBuffer := shell.stderrBuffer ++ data }

/-- What the chunks of a stdout complete the command with. -/
def results (shell : PersistentShell) : List Text → List CommandResult
  | [] => []
  | data :: chunks =>
      let (shell, result) := shell.handleStdout data
      result.toList ++ shell.results chunks

end PersistentShell

/-- What `_wrapCommand` makes the shell write: the command's output, and a line with the marker
and the exit code. -/
def stdoutOf (output : Text) (commandId : Nat) (exitCode : UInt8) : Text :=
  output ++ '\n' :: marker commandId ++ Text.decimal exitCode.toNat ++ ['\n']

/-- Whether a cut falls after the first digit of the exit code and before its last one. -/
def CutsExitCode (output : Text) (commandId : Nat) (exitCode : UInt8) (chunks : List Text) : Prop :=
  ∃ front back, chunks = front ++ back ∧
    (output ++ '\n' :: marker commandId).length < front.flatten.length ∧
    front.flatten.length <
      (output ++ '\n' :: marker commandId ++ Text.decimal exitCode.toNat).length

/-! ### Where the marker is found -/

theorem not_mem_marker (commandId : Nat) : '\n' ∉ marker commandId := by
  intro held
  simp only [marker, List.mem_append, List.mem_singleton] at held
  rcases held with (inPrefix | inNumber) | isColon
  · exact absurd inPrefix (by decide)
  · exact absurd (Text.isDigit_of_mem_decimal inNumber) (by decide)
  · exact absurd isColon (by decide)

theorem isPrefix_of_readCompletion {marker text : Text} {found : Text × Text}
    (reads : readCompletion marker text = some found) : marker <+: text := by
  rw [readCompletion, Option.ite_none_right_eq_some] at reads
  exact List.isPrefixOf_iff_prefix.mp reads.1

/-- A marker without a newline that starts in a text before a newline is in the text. -/
theorem infix_of_start {marker front back : Text} (single : '\n' ∉ marker)
    (starts : marker <+: front ++ '\n' :: back) : marker <:+: front := by
  by_cases within : marker.length ≤ front.length
  · exact (List.prefix_of_prefix_length_le starts (List.prefix_append _ _) within).isInfix
  · have longer : front ++ ['\n'] <+: marker := by
      have whole : front ++ ['\n'] <+: front ++ '\n' :: back := ⟨back, by simp⟩
      exact List.prefix_of_prefix_length_le whole starts (by simp; omega)
    exact absurd (longer.subset (by simp)) single

/-- Nothing is found in a text that the marker is not in. -/
theorem searchCompletion_eq_none {marker text : Text} (absent : ¬ marker <:+: text) :
    searchCompletion marker text = none := by
  induction text with
  | nil => rfl
  | cons char rest inductionHypothesis =>
      have absentLater : ¬ marker <:+: rest := fun held =>
        absent (held.trans (List.suffix_cons _ _).isInfix)
      have notHere : readCompletion marker rest = none := by
        by_contra found
        obtain ⟨found, reads⟩ := Option.ne_none_iff_exists'.mp found
        exact absentLater (isPrefix_of_readCompletion reads).isInfix
      rw [searchCompletion, notHere, ite_self, inductionHypothesis absentLater]
      rfl

theorem firstCompletion_eq_none {marker text : Text} (absent : ¬ marker <:+: text) :
    firstCompletion marker text = none := by
  have notHere : readCompletion marker text = none := by
    by_contra found
    obtain ⟨found, reads⟩ := Option.ne_none_iff_exists'.mp found
    exact absent (isPrefix_of_readCompletion reads).isInfix
  rw [firstCompletion, notHere, searchCompletion_eq_none absent]

/-- The output is passed over. -/
theorem searchCompletion_append {marker output : Text} (single : '\n' ∉ marker)
    (unmarked : ¬ marker <:+: output) (rest : Text) :
    searchCompletion marker (output ++ '\n' :: rest) =
      (searchCompletion marker ('\n' :: rest)).map fun found => (output ++ found.1, found.2) := by
  induction output with
  | nil => simp
  | cons char output inductionHypothesis =>
      have unmarkedLater : ¬ marker <:+: output := fun held =>
        unmarked (held.trans (List.suffix_cons _ _).isInfix)
      have notHere : readCompletion marker (output ++ '\n' :: rest) = none := by
        by_contra found
        obtain ⟨found, reads⟩ := Option.ne_none_iff_exists'.mp found
        exact unmarkedLater (infix_of_start single (isPrefix_of_readCompletion reads))
      rw [List.cons_append, searchCompletion, notHere, ite_self, inductionHypothesis unmarkedLater,
        Option.map_map]
      rfl

theorem firstCompletion_append {marker output : Text} (single : '\n' ∉ marker)
    (unmarked : ¬ marker <:+: output) (rest : Text) :
    firstCompletion marker (output ++ '\n' :: rest) =
      (searchCompletion marker ('\n' :: rest)).map fun found => (output ++ found.1, found.2) := by
  have notHere : readCompletion marker (output ++ '\n' :: rest) = none := by
    by_contra found
    obtain ⟨found, reads⟩ := Option.ne_none_iff_exists'.mp found
    exact unmarked (infix_of_start single (isPrefix_of_readCompletion reads))
  rw [firstCompletion, notHere, searchCompletion_append single unmarked]

theorem searchCompletion_of_not_mem {marker text : Text} (single : '\n' ∉ text) :
    searchCompletion marker text = none := by
  induction text with
  | nil => rfl
  | cons char rest inductionHypothesis =>
      rw [List.mem_cons, not_or] at single
      rw [searchCompletion, if_neg (Ne.symm single.1), inductionHypothesis single.2]
      rfl

/-- Nothing is found before a digit has come. -/
theorem firstCompletion_of_prefix {marker output raw : Text} (single : '\n' ∉ marker)
    (unmarked : ¬ marker <:+: output) (begun : raw <+: output ++ '\n' :: marker) :
    firstCompletion marker raw = none := by
  by_cases within : raw.length ≤ output.length
  · have ofOutput : raw <+: output :=
      List.prefix_of_prefix_length_le begun (List.prefix_append _ _) within
    exact firstCompletion_eq_none fun held => unmarked (held.trans ofOutput.isInfix)
  · have longer : output ++ ['\n'] <+: raw := by
      have whole : output ++ ['\n'] <+: output ++ '\n' :: marker := ⟨marker, by simp⟩
      exact List.prefix_of_prefix_length_le whole begun (by simp; omega)
    obtain ⟨rest, rfl⟩ := longer
    rw [List.append_assoc, List.singleton_append] at begun ⊢
    have ofMarker : rest <+: marker := by
      rwa [List.prefix_append_right_inj, List.cons_prefix_cons, and_iff_right rfl] at begun
    have notHere : readCompletion marker rest = none := by
      by_contra found
      obtain ⟨found, reads⟩ := Option.ne_none_iff_exists'.mp found
      obtain rfl := ofMarker.eq_of_length_le (isPrefix_of_readCompletion reads).length_le
      rw [readCompletion] at reads
      simp at reads
    have later : searchCompletion marker rest = none :=
      searchCompletion_of_not_mem fun held => single (ofMarker.subset held)
    rw [firstCompletion_append single unmarked, searchCompletion, if_pos rfl, notHere, later]
    rfl

/-- Once a digit has come, the digits that have are found. -/
theorem firstCompletion_of_digits {marker output digits tail : Text} (single : '\n' ∉ marker)
    (unmarked : ¬ marker <:+: output) (some : digits ≠ [])
    (digit : ∀ char ∈ digits, char.isDigit = true) (ends : tail = [] ∨ tail = ['\n']) :
    firstCompletion marker (output ++ '\n' :: (marker ++ (digits ++ tail))) =
      .some (output, digits, []) := by
  have taken : (digits ++ tail).takeWhile Char.isDigit = digits := by
    rw [List.takeWhile_append_of_pos digit]
    rcases ends with rfl | rfl <;> simp [Char.isDigit]
  have reads : readCompletion marker (marker ++ (digits ++ tail)) = .some (digits, []) := by
    rw [readCompletion, if_pos (List.isPrefixOf_iff_prefix.mpr (List.prefix_append _ _))]
    simp only [List.drop_left, taken, List.isEmpty_iff, if_neg some]
    rcases ends with rfl | rfl <;> rfl
  rw [firstCompletion_append single unmarked, searchCompletion, if_pos rfl, reads]
  simp

/-! ### Chunks -/

namespace PersistentShell

variable {output : Text} {commandId : Nat} {exitCode : UInt8}

/-- What comes once the command has completed is not looked at. -/
theorem results_of_completed (shell : PersistentShell) (completed : shell.pendingCommandId = none)
    (chunks : List Text) : shell.results chunks = [] := by
  induction chunks with
  | nil => rfl
  | cons data chunks inductionHypothesis =>
      rw [results, handleStdout, completed]
      exact inductionHypothesis

/-- What has come past the marker is digits of the exit code, or all of them and the newline. -/
theorem digits_of_prefix {more : Text}
    (ofRest : more <+: Text.decimal exitCode.toNat ++ ['\n']) :
    ∃ digits tail, more = digits ++ tail ∧ digits <+: Text.decimal exitCode.toNat ∧
      (tail ≠ [] → digits = Text.decimal exitCode.toNat) ∧ (tail = [] ∨ tail = ['\n']) := by
  by_cases within : more.length ≤ (Text.decimal exitCode.toNat).length
  · have ofCode := List.prefix_of_prefix_length_le ofRest (List.prefix_append _ _) within
    exact ⟨more, [], by simp, ofCode, nofun, .inl rfl⟩
  · have isWhole : more = Text.decimal exitCode.toNat ++ ['\n'] :=
      ofRest.eq_of_length_le (by simp; omega)
    exact ⟨_, ['\n'], isWhole, List.prefix_rfl, fun _ => rfl, .inr rfl⟩

/-- The command completes in the chunk that brings the first digit, with the digits it brings. -/
theorem results_eq (unmarked : ¬ marker commandId <:+: output) (stderr : Text)
    (chunks : List Text) (buffer : Text) (begun : buffer <+: output ++ '\n' :: marker commandId)
    (whole : buffer ++ chunks.flatten = stdoutOf output commandId exitCode) :
    ∃ front data back digits tail, chunks = front ++ data :: back ∧
      (buffer ++ front.flatten) <+: output ++ '\n' :: marker commandId ∧
      buffer ++ front.flatten ++ data = output ++ '\n' :: marker commandId ++ digits ++ tail ∧
      digits ≠ [] ∧ digits <+: Text.decimal exitCode.toNat ∧
      (tail ≠ [] → digits = Text.decimal exitCode.toNat) ∧
      results ⟨some commandId, buffer, stderr⟩ chunks =
        [resultOf ⟨some commandId, buffer, stderr⟩ output digits] := by
  induction chunks generalizing buffer with
  | nil =>
      have longer := begun.length_le
      rw [List.flatten_nil, List.append_nil] at whole
      rw [whole, stdoutOf] at longer
      simp only [List.length_append, List.length_cons, List.length_nil] at longer
      omega
  | cons data chunks inductionHypothesis =>
      rw [List.flatten_cons, ← List.append_assoc] at whole
      by_cases waits : buffer ++ data <+: output ++ '\n' :: marker commandId
      · obtain ⟨front, later, back, digits, tail, rfl, before, brings, some, ofCode, ends,
          result⟩ := inductionHypothesis (buffer ++ data) waits whole
        have notYet := firstCompletion_of_prefix (not_mem_marker commandId) unmarked waits
        refine ⟨data :: front, later, back, digits, tail, rfl, ?_, ?_, some, ofCode, ends, ?_⟩
        · simpa using before
        · simpa using brings
        · rw [results, handleStdout]
          simp only [notYet]
          exact result
      · have ofWhole : buffer ++ data <+: stdoutOf output commandId exitCode := ⟨_, whole⟩
        have headOfWhole : output ++ '\n' :: marker commandId <+:
            stdoutOf output commandId exitCode := ⟨_, by simp [stdoutOf]; rfl⟩
        obtain ⟨more, brings⟩ : output ++ '\n' :: marker commandId <+: buffer ++ data := by
          rcases List.prefix_or_prefix_of_prefix headOfWhole ofWhole with longer | shorter
          · exact longer
          · exact absurd shorter waits
        have some : more ≠ [] := by
          rintro rfl
          rw [List.append_nil] at brings
          exact waits (brings ▸ List.prefix_rfl)
        have ofRest : more <+: Text.decimal exitCode.toNat ++ ['\n'] := by
          rwa [← brings, stdoutOf, List.append_assoc _ (Text.decimal _),
            List.prefix_append_right_inj] at ofWhole
        obtain ⟨digits, tail, rfl, ofCode, ends, shape⟩ := digits_of_prefix ofRest
        have someDigits : digits ≠ [] := by
          rintro rfl
          have noTail : tail = [] := by
            by_contra isTail
            exact Text.decimal_ne_nil _ (ends isTail).symm
          exact some (by rw [noTail, List.append_nil])
        have found := firstCompletion_of_digits (not_mem_marker commandId) unmarked someDigits
          (fun char held => Text.isDigit_of_mem_decimal (ofCode.subset held)) shape
        rw [← List.cons_append, ← List.append_assoc, brings] at found
        refine ⟨[], data, chunks, digits, tail, rfl, ?_, ?_, someDigits, ofCode, ends, ?_⟩
        · simpa using begun
        · simpa using brings.symm
        · rw [results, handleStdout]
          simp only [found, Option.toList_some, List.singleton_append]
          rw [results_of_completed _ rfl]

/-- No other digits that the exit code begins with are read as it. -/
theorem digits_eq_of_parse {digits : Text} (some : digits ≠ [])
    (ofCode : digits <+: Text.decimal exitCode.toNat)
    (same : Text.parseUnsigned (2 ^ 63 - 1) digits =
      Text.parseUnsigned (2 ^ 63 - 1) (Text.decimal exitCode.toNat)) :
    digits = Text.decimal exitCode.toNat := by
  have all : ∀ code < 256, ∀ length < 4, length ≠ 0 →
      Text.parseUnsigned (2 ^ 63 - 1) ((Text.decimal code).take length) =
        Text.parseUnsigned (2 ^ 63 - 1) (Text.decimal code) →
      (Text.decimal code).take length = Text.decimal code := by
    decide +kernel
  have short : ∀ code < 256, (Text.decimal code).length < 4 := by decide +kernel
  have bounded : exitCode.toNat < 256 := exitCode.toNat_lt
  have isTake := List.prefix_iff_eq_take.mp ofCode
  rw [isTake] at same ⊢
  refine all _ bounded _ ?_ (fun isZero => some (List.length_eq_zero_iff.mp isZero)) same
  exact lt_of_le_of_lt ofCode.length_le (short _ bounded)

/-- The results of a stdout in one chunk are those of its exit code. -/
theorem results_whole (unmarked : ¬ marker commandId <:+: output) (stderr : Text) :
    results ⟨some commandId, [], stderr⟩ [stdoutOf output commandId exitCode] =
      [resultOf ⟨some commandId, [], stderr⟩ output (Text.decimal exitCode.toNat)] := by
  have found := firstCompletion_of_digits (not_mem_marker commandId) unmarked
    (Text.decimal_ne_nil exitCode.toNat) (fun _ => Text.isDigit_of_mem_decimal)
    (.inr rfl)
  have shape : [] ++ stdoutOf output commandId exitCode = output ++ '\n' ::
      (marker commandId ++ (Text.decimal exitCode.toNat ++ ['\n'])) := by
    simp [stdoutOf]
  rw [results, handleStdout]
  simp only [shape, found]
  rfl

/-- Whatever came on stderr, a stdout in chunks gives the result that it gives in one chunk just
when no cut falls inside the exit code. -/
theorem results_eq_whole_iff (unmarked : ¬ marker commandId <:+: output) (stderr : Text)
    {chunks : List Text} (whole : chunks.flatten = stdoutOf output commandId exitCode) :
    results ((run commandId).handleStderr stderr) chunks =
        results ((run commandId).handleStderr stderr) [stdoutOf output commandId exitCode] ↔
      ¬ CutsExitCode output commandId exitCode chunks := by
  have started : (run commandId).handleStderr stderr = ⟨some commandId, [], stderr⟩ := by
    simp [run, handleStderr]
  obtain ⟨front, data, back, digits, tail, rfl, before, brings, some, ofCode, ends, result⟩ :=
    results_eq unmarked stderr chunks [] (List.nil_prefix) (by simpa using whole)
  rw [started, result, results_whole unmarked]
  have sameResult : ([resultOf ⟨.some commandId, [], stderr⟩ output digits] =
      [resultOf ⟨.some commandId, [], stderr⟩ output (Text.decimal exitCode.toNat)]) ↔
      digits = Text.decimal exitCode.toNat := by
    constructor
    · intro same
      exact digits_eq_of_parse some ofCode (congrArg CommandResult.exitCode (List.cons.inj same).1)
    · rintro rfl
      rfl
  rw [sameResult]
  rw [List.nil_append] at before brings
  have reached := congrArg List.length brings
  simp only [List.length_append] at reached
  constructor
  · rintro rfl ⟨others, later, same, past, within⟩
    simp only [List.length_append] at past within
    rcases List.append_eq_append_iff.mp same with ⟨more, isOthers, isLater⟩ | ⟨more, isFront, -⟩
    · cases more with
      | nil =>
          rw [List.append_nil] at isOthers
          have early := before.length_le
          rw [isOthers] at past
          simp only [List.length_append] at early
          omega
      | cons first more =>
          obtain ⟨rfl, -⟩ := List.cons.inj isLater
          rw [isOthers] at within
          simp only [List.flatten_append, List.flatten_cons, List.length_append] at within
          omega
    · have early := before.length_le
      rw [isFront] at early
      simp only [List.flatten_append, List.length_append] at early
      omega
  · intro uncut
    by_contra notWhole
    have noTail : tail = [] := by
      by_contra isTail
      exact notWhole (ends isTail)
    have shorter : digits.length < (Text.decimal exitCode.toNat).length :=
      lt_of_le_of_ne ofCode.length_le fun same => notWhole (ofCode.eq_of_length same)
    have longer : 0 < digits.length := List.length_pos_iff.mpr some
    rw [noTail] at reached
    refine uncut ⟨front ++ [data], back, by simp, ?_, ?_⟩
    · simp only [List.flatten_append, List.flatten_cons, List.flatten_nil, List.append_nil,
        List.length_append]
      omega
    · simp only [List.flatten_append, List.flatten_cons, List.flatten_nil, List.append_nil,
        List.length_append]
      simp only [List.length_nil] at reached
      omega

/-- A cut inside what the command writes and one inside the marker. -/
def plainChunks : List Text := [['u'], ['p', '\n', '_', '_'],
  (marker 1).drop 2 ++ ['1', '2', '7'], ['\n']]

theorem results_plainChunks :
    ¬ marker 1 <:+: ['u', 'p'] ∧ plainChunks.flatten = stdoutOf ['u', 'p'] 1 127 ∧
      (results ((run 1).handleStderr []) plainChunks =
          results ((run 1).handleStderr []) [stdoutOf ['u', 'p'] 1 127] ↔
        ¬ CutsExitCode ['u', 'p'] 1 127 plainChunks) :=
  ⟨by decide +kernel, by decide +kernel,
    results_eq_whole_iff (by decide +kernel) [] (by decide +kernel)⟩

/-- The exit code 127 of a command that writes nothing, cut after its first digit. -/
def cutChunks : List Text := [['\n'] ++ marker 1 ++ ['1'], ['2', '7', '\n']]

theorem not_results_cutChunks :
    ¬ ∀ (output : Text) (commandId : Nat) (exitCode : UInt8) (chunks : List Text),
      ¬ marker commandId <:+: output → chunks.flatten = stdoutOf output commandId exitCode →
        results (run commandId) chunks =
          results (run commandId) [stdoutOf output commandId exitCode] := by
  intro alike
  have same := alike [] 1 127 cutChunks (by decide +kernel) (by decide +kernel)
  have differs : results (run 1) cutChunks ≠ results (run 1) [stdoutOf [] 1 127] := by
    decide +kernel
  exact differs same

end PersistentShell

end ServerBox.Terminal
