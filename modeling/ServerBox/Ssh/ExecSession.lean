import ServerBox.Std.Shell
import Mathlib

/-!
# A command in a session of its own

`wrap` of `src/crates/sbm_parser/src/exec_session.rs`: the command a client runs over SSH, handed
to an `sh` that prints its session id first. It is read by a login shell that may be a POSIX one
or fish, then by `printf %b`, then by a command substitution.
-/

namespace ServerBox.Ssh.ExecSession

open ServerBox.Std

/-- `ENV_NAME`. -/
def envName : Text := "SBM_EXEC_ID".toList

/-- `assert_hex`. -/
def assertHex (nonce : Text) : Bool :=
  !nonce.isEmpty && nonce.all fun char =>
    char.isDigit || ('a' ≤ char && char ≤ 'f') || ('A' ≤ char && char ≤ 'F')

/-- `str::replace` of one character. -/
def replace (char : Char) (replacement text : Text) : Text :=
  text.flatMap fun read => if read = char then replacement else [read]

/-- The program of the `sh` that stays for the whole run. -/
def program : Text :=
  "printf \"\\036sbm-sid:%s\\036\\n\" $$ >&2; ".toList ++
    "\"$\x7bSHELL:-sh\x7d\" -c \"$(printf %b \"$1\")\"; exit $?".toList

/-- `command` with its backslashes and quotes written as octal escapes. -/
def escaped (command : Text) : Text :=
  replace '\'' "\\0047".toList (replace '\\' "\\0134".toList command)

/-- `wrap`; nothing where `assert_hex` panics. -/
def wrap (command nonce : Text) : Option Text :=
  if assertHex nonce then
    some ("exec env ".toList ++ envName ++ "=".toList ++ nonce ++ " sh -c '".toList ++ program ++
      "' sbm '".toList ++ escaped command ++ "'".toList)
  else none

/-! ### What the shells read -/

/-- What one character of a command is written as. -/
def escapedChar (char : Char) : Text :=
  if char = '\\' then "\\0134".toList else if char = '\'' then "\\0047".toList else [char]

theorem escaped_cons (char : Char) (command : Text) :
    escaped (char :: command) = escapedChar char ++ escaped command := by
  simp only [escaped, replace, List.flatMap_cons, List.flatMap_append, escapedChar]
  congr 1
  split
  next => rfl
  next => simp

/-- Single quotes hold an escaped command as it stands. -/
theorem isVerbatim_escaped (command : Text) :
    Shell.isVerbatim false (escaped command) = true := by
  induction command with
  | nil => rfl
  | cons char command inductionHypothesis =>
      rw [escaped_cons, escapedChar]
      split
      next => simpa [Shell.isVerbatim] using inductionHypothesis
      next notBackslash =>
          split
          next => simpa [Shell.isVerbatim] using inductionHypothesis
          next notQuote =>
              simpa [Shell.isVerbatim, beq_eq_false_iff_ne.mpr notBackslash, notQuote]
                using inductionHypothesis

theorem isVerbatim_program : Shell.isVerbatim false program = true := by decide

/-- `printf %b` undoes the escapes. -/
theorem percentB_escaped (command : Text) :
    Shell.percentB .none (Utf8.encode (escaped command)) = Utf8.encode command := by
  induction command with
  | nil => rfl
  | cons char command inductionHypothesis =>
      rw [escaped_cons, Utf8.encode_append, Utf8.encode_cons, escapedChar]
      split
      next isBackslash =>
          subst isBackslash
          have octets : Utf8.encode "\\0134".toList = [0x5c, 0x30, 0x31, 0x33, 0x34] := by decide
          rw [octets, List.cons_append, List.cons_append, List.cons_append, List.cons_append,
            List.cons_append, List.nil_append, Shell.percentB_octal (by decide),
            inductionHypothesis]
          rfl
      next notBackslash =>
          split
          next isQuote =>
              subst isQuote
              have octets : Utf8.encode "\\0047".toList = [0x5c, 0x30, 0x30, 0x34, 0x37] := by
                decide
              rw [octets, List.cons_append, List.cons_append, List.cons_append, List.cons_append,
                List.cons_append, List.nil_append, Shell.percentB_octal (by decide),
                inductionHypothesis]
              rfl
          next =>
              have noBackslash : 0x5c ∉ Utf8.encode [char] := by
                rw [Utf8.mem_encode_ascii (by decide), List.mem_singleton]
                exact Ne.symm notBackslash
              rw [Shell.percentB_plain noBackslash, inductionHypothesis]
              simp [Utf8.encode]

/-- A nonce is one plain word. -/
theorem isPlain_of_assertHex {nonce : Text} (hex : assertHex nonce = true) :
    nonce.all Shell.isPlain = true := by
  rw [assertHex, Bool.and_eq_true] at hex
  refine List.all_eq_true.mpr fun char held => ?_
  have digit := List.all_eq_true.mp hex.2 char held
  simp only [Bool.or_eq_true, Bool.and_eq_true, decide_eq_true_eq] at digit
  have alphanumeric : char.isAlphanum = true := by
    simp only [Char.isAlphanum, Char.isAlpha, Char.isLower, Char.isUpper, Bool.or_eq_true,
      Bool.and_eq_true, decide_eq_true_eq]
    rcases digit with (digit | lower) | upper
    · exact .inr digit
    · exact .inl (.inr ⟨lower.1, Char.le_trans lower.2 (by decide)⟩)
    · exact .inl (.inl ⟨upper.1, Char.le_trans upper.2 (by decide)⟩)
  rw [Shell.isPlain, alphanumeric, Bool.true_or, Bool.true_or, Bool.true_or]

/-- The login shell reads the wrapped command as words with one argument for it. -/
theorem words_wrap {command nonce text : Text} (wrapped : wrap command nonce = some text)
    (dialect : Shell.Dialect) :
    Shell.words dialect .between text =
      some ["exec".toList, "env".toList, envName ++ '=' :: nonce, "sh".toList, "-c".toList,
        program, "sbm".toList, escaped command] := by
  rw [wrap, Option.ite_none_right_eq_some, Option.some.injEq] at wrapped
  obtain ⟨hex, rfl⟩ := wrapped
  have nonceIsWord := isPlain_of_assertHex hex
  have shape : "exec env ".toList ++ envName ++ "=".toList ++ nonce ++ " sh -c '".toList ++
      program ++ "' sbm '".toList ++ escaped command ++ "'".toList =
      "exec".toList ++ ' ' :: ("env".toList ++ ' ' :: (envName ++ "=".toList ++ (nonce ++ ' ' ::
        ("sh".toList ++ ' ' :: ("-c".toList ++ ' ' :: '\'' :: (program ++ '\'' :: ' ' ::
          ("sbm".toList ++ ' ' :: '\'' :: (escaped command ++ '\'' :: [])))))))) := by
    simp
  rw [shape, Shell.words_between dialect (by decide) (by decide), Shell.words_space,
    Shell.words_between dialect (by decide) (by decide), Shell.words_space,
    Shell.words_between dialect (by decide) (by decide), Shell.words_plain dialect nonceIsWord,
    Shell.words_space, Shell.words_between dialect (by decide) (by decide), Shell.words_space,
    Shell.words_between dialect (by decide) (by decide), Shell.words_space, Shell.words_quote,
    Shell.words_verbatim dialect isVerbatim_program, Shell.words_space,
    Shell.words_between dialect (by decide) (by decide), Shell.words_space, Shell.words_quote,
    Shell.words_verbatim dialect (isVerbatim_escaped command), Shell.words]
  simp

/-- However the login shell reads single quotes, it takes the command as the last word and
nothing of it for anything else; `printf %b` and a command substitution make it what it was, up
to the line ends at its end. -/
theorem wrap_quotes {command nonce text : Text} (wrapped : wrap command nonce = some text)
    (noNul : '\x00' ∉ command) (dialect : Shell.Dialect) :
    ∃ argument newlines, Shell.words dialect .between text =
        some ["exec".toList, "env".toList, envName ++ '=' :: nonce, "sh".toList, "-c".toList,
          program, "sbm".toList, argument] ∧
      Utf8.encode command =
        Shell.commandSubstitution (Shell.percentB .none (Utf8.encode argument)) ++
          List.replicate newlines 0x0a := by
  have noNulOctet : 0x00 ∉ Utf8.encode command := by
    rw [Utf8.mem_encode_ascii (by decide)]
    exact noNul
  obtain ⟨newlines, same⟩ := Shell.commandSubstitution_append_newlines noNulOctet
  refine ⟨escaped command, newlines, words_wrap wrapped dialect, ?_⟩
  rw [percentB_escaped]
  exact same

theorem wrap_quotes_apostrophe :
    '\x00' ∉ "echo 'a\\b'\n".toList ∧
      ∀ dialect, ∃ argument newlines text,
        wrap "echo 'a\\b'\n".toList "0abc".toList = some text ∧
        Shell.words dialect .between text =
          some ["exec".toList, "env".toList, envName ++ '=' :: "0abc".toList, "sh".toList,
            "-c".toList, program, "sbm".toList, argument] ∧
        Utf8.encode "echo 'a\\b'\n".toList =
          Shell.commandSubstitution (Shell.percentB .none (Utf8.encode argument)) ++
            List.replicate newlines 0x0a := by
  have noNul : '\x00' ∉ "echo 'a\\b'\n".toList := by decide
  refine ⟨noNul, fun dialect => ?_⟩
  obtain ⟨argument, newlines, read, same⟩ := @wrap_quotes _ "0abc".toList _
    (if_pos (by decide)) noNul dialect
  exact ⟨argument, newlines, _, if_pos (by decide), read, same⟩

end ServerBox.Ssh.ExecSession
