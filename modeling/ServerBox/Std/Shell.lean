import Mathlib.Data.List.DropRight
import ServerBox.Std.Text
import ServerBox.Std.Utf8

/-!
# Words for shells

The words of a simple command as POSIX shells and fish read them, as far as they are plain or
single-quoted; the escapes of `printf %b`; and what a command substitution leaves of an output.
-/

namespace ServerBox.Std.Shell

/-! ### Words -/

/-- What a backslash does in single quotes: nothing in a POSIX shell; in fish it stands before a
quote or another backslash for that character. -/
inductive Dialect where
  | posix
  | fish
deriving DecidableEq, Repr

/-- A character that means itself outside quotes. -/
def isPlain (char : Char) : Bool :=
  char.isAlphanum || char == '_' || char == '-' || char == '='

/-- Where a reader stands, with what it read of a word. -/
inductive Place where
  | between
  | word (read : Text)
  | quoted (read : Text)
  | escaped (read : Text)
deriving DecidableEq, Repr

/-- The words of a command, unless it holds anything that is expanded, ends a command or has no
closing quote. -/
def words (dialect : Dialect) : Place → Text → Option (List Text)
  | .between, [] => some []
  | .word read, [] => some [read]
  | .quoted _, [] => none
  | .escaped _, [] => none
  | .between, char :: rest =>
      if char = ' ' then words dialect .between rest
      else if char = '\'' then words dialect (.quoted []) rest
      else if isPlain char then words dialect (.word [char]) rest
      else none
  | .word read, char :: rest =>
      if char = ' ' then (words dialect .between rest).map (read :: ·)
      else if char = '\'' then words dialect (.quoted read) rest
      else if isPlain char then words dialect (.word (read ++ [char])) rest
      else none
  | .quoted read, char :: rest =>
      if char = '\'' then words dialect (.word read) rest
      else if char = '\\' ∧ dialect = .fish then words dialect (.escaped read) rest
      else words dialect (.quoted (read ++ [char])) rest
  | .escaped read, char :: rest =>
      if char = '\'' ∨ char = '\\' then words dialect (.quoted (read ++ [char])) rest
      else words dialect (.quoted (read ++ ['\\', char])) rest

theorem words_between_cons (dialect : Dialect) (char : Char) (rest : Text) :
    words dialect .between (char :: rest) =
      if char = ' ' then words dialect .between rest
      else if char = '\'' then words dialect (.quoted []) rest
      else if isPlain char then words dialect (.word [char]) rest
      else none := rfl

theorem words_word_cons (dialect : Dialect) (read : Text) (char : Char) (rest : Text) :
    words dialect (.word read) (char :: rest) =
      if char = ' ' then (words dialect .between rest).map (read :: ·)
      else if char = '\'' then words dialect (.quoted read) rest
      else if isPlain char then words dialect (.word (read ++ [char])) rest
      else none := rfl

/-- What every dialect takes from single quotes as it stands, behind a backslash or not. -/
def isVerbatim : Bool → Text → Bool
  | behind, [] => !behind
  | behind, char :: rest =>
      char != '\'' && !(behind && char == '\\') && isVerbatim (!behind && char == '\\') rest

theorem words_plain (dialect : Dialect) {plain : Text} (isWord : plain.all isPlain = true)
    (read rest : Text) :
    words dialect (.word read) (plain ++ rest) = words dialect (.word (read ++ plain)) rest := by
  induction plain generalizing read with
  | nil => rw [List.nil_append, List.append_nil]
  | cons char plain inductionHypothesis =>
      rw [List.all_cons, Bool.and_eq_true] at isWord
      have notSpace : char ≠ ' ' := by rintro rfl; exact absurd isWord.1 (by decide)
      have notQuote : char ≠ '\'' := by rintro rfl; exact absurd isWord.1 (by decide)
      rw [List.cons_append, words_word_cons, if_neg notSpace, if_neg notQuote, if_pos isWord.1,
        inductionHypothesis isWord.2, List.append_assoc, List.singleton_append]

theorem words_between (dialect : Dialect) {plain : Text} (isWord : plain.all isPlain = true)
    (nonempty : plain ≠ []) (rest : Text) :
    words dialect .between (plain ++ rest) = words dialect (.word plain) rest := by
  cases plain with
  | nil => exact absurd rfl nonempty
  | cons char plain =>
      rw [List.all_cons, Bool.and_eq_true] at isWord
      have notSpace : char ≠ ' ' := by rintro rfl; exact absurd isWord.1 (by decide)
      have notQuote : char ≠ '\'' := by rintro rfl; exact absurd isWord.1 (by decide)
      rw [List.cons_append, words_between_cons, if_neg notSpace, if_neg notQuote,
        if_pos isWord.1, words_plain dialect isWord.2, List.singleton_append]

theorem words_space (dialect : Dialect) (read rest : Text) :
    words dialect (.word read) (' ' :: rest) = (words dialect .between rest).map (read :: ·) := by
  rw [words_word_cons, if_pos rfl]

theorem words_quote (dialect : Dialect) (rest : Text) :
    words dialect .between ('\'' :: rest) = words dialect (.quoted []) rest := by
  rw [words_between_cons, if_neg (by decide), if_pos rfl]

/-- Verbatim text is read as it stands; in fish its backslashes are read with what follows. -/
theorem words_verbatim_from (dialect : Dialect) {held : Text} (behind : Bool)
    (verbatim : isVerbatim behind held = true) (read rest : Text) :
    words dialect (if behind ∧ dialect = .fish then .escaped read else
        .quoted (if behind then read ++ ['\\'] else read)) (held ++ '\'' :: rest) =
      words dialect (.word (if behind then read ++ '\\' :: held else read ++ held)) rest := by
  induction held generalizing behind read with
  | nil => cases behind <;> simp [isVerbatim, words] at verbatim ⊢
  | cons char held inductionHypothesis =>
      rw [isVerbatim, Bool.and_eq_true, Bool.and_eq_true, bne_iff_ne] at verbatim
      obtain ⟨⟨notQuote, notBoth⟩, later⟩ := verbatim
      cases behind with
      | true =>
          have notBackslash : char ≠ '\\' := by simpa using notBoth
          have next := inductionHypothesis false (by simpa using later) (read ++ ['\\', char])
          cases dialect <;> simpa [words, notQuote, notBackslash] using next
      | false =>
          by_cases isBackslash : char = '\\'
          · subst isBackslash
            have next := inductionHypothesis true (by simpa using later) read
            cases dialect <;> simpa [words] using next
          · have next := inductionHypothesis false
              (by simpa [beq_eq_false_iff_ne.mpr isBackslash] using later)
              (read ++ [char])
            simpa [words, notQuote, isBackslash] using next

theorem words_verbatim (dialect : Dialect) {held : Text} (verbatim : isVerbatim false held = true)
    (read rest : Text) :
    words dialect (.quoted read) (held ++ '\'' :: rest) =
      words dialect (.word (read ++ held)) rest := by
  have whole := words_verbatim_from dialect false verbatim read rest
  simpa using whole

/-! ### `printf %b` -/

/-- What was read of an escape: its backslash, or the digits of an octal number, of which so many
may follow. -/
inductive Escape where
  | none
  | backslash
  | octal (value left : Nat)
deriving DecidableEq, Repr

/-- The octet that a letter stands for behind a backslash. -/
def escapeOf (octet : UInt8) : Option UInt8 :=
  [(0x5c, 0x5c), (0x61, 0x07), (0x62, 0x08), (0x66, 0x0c), (0x6e, 0x0a), (0x72, 0x0d),
    (0x74, 0x09), (0x76, 0x0b)].lookup octet

def isOctal (octet : UInt8) : Bool := 0x30 ≤ octet && octet ≤ 0x37

/-- What `printf %b` prints of its argument: the escapes of letters, `\0` with up to three octal
digits, and nothing from `\c` on. -/
def percentB : Escape → List UInt8 → List UInt8
  | .none, [] => []
  | .backslash, [] => [0x5c]
  | .octal value _, [] => [UInt8.ofNat value]
  | .none, octet :: rest =>
      if octet = 0x5c then percentB .backslash rest else octet :: percentB .none rest
  | .backslash, octet :: rest =>
      if octet = 0x30 then percentB (.octal 0 3) rest
      else if octet = 0x63 then []
      else match escapeOf octet with
        | some escaped => escaped :: percentB .none rest
        | none => 0x5c :: octet :: percentB .none rest
  | .octal value left, octet :: rest =>
      if 0 < left ∧ isOctal octet then
        percentB (.octal (value * 8 + (octet.toNat - 0x30)) (left - 1)) rest
      else if octet = 0x5c then UInt8.ofNat value :: percentB .backslash rest
      else UInt8.ofNat value :: octet :: percentB .none rest

theorem percentB_none_cons (octet : UInt8) (rest : List UInt8) :
    percentB .none (octet :: rest) =
      if octet = 0x5c then percentB .backslash rest else octet :: percentB .none rest := rfl

/-- Octets without a backslash are printed as they are, whatever was read before them. -/
theorem percentB_plain {plain : List UInt8} (noBackslash : 0x5c ∉ plain) (rest : List UInt8) :
    percentB .none (plain ++ rest) = plain ++ percentB .none rest := by
  induction plain with
  | nil => rfl
  | cons octet plain inductionHypothesis =>
      rw [List.mem_cons, not_or] at noBackslash
      rw [List.cons_append, percentB_none_cons, if_neg (Ne.symm noBackslash.1),
        inductionHypothesis noBackslash.2, List.cons_append]

/-- An octal escape of three digits is one octet, whatever follows. -/
theorem percentB_octal {first second third : UInt8}
    (digits : isOctal first = true ∧ isOctal second = true ∧ isOctal third = true)
    (rest : List UInt8) :
    percentB .none (0x5c :: 0x30 :: first :: second :: third :: rest) =
      UInt8.ofNat (((first.toNat - 0x30) * 8 + (second.toNat - 0x30)) * 8 + (third.toNat - 0x30)) ::
        percentB .none rest := by
  cases rest with
  | nil => simp [percentB, digits]
  | cons next rest =>
      simp only [percentB, digits, if_true, and_true, Nat.lt_irrefl, false_and, if_false,
        Nat.reduceLT, Nat.reduceSub, Nat.zero_mul, Nat.zero_add]
      split <;> rfl

/-! ### Command substitution -/

/-- What a command substitution leaves of an output: no NUL, and no line ends at its end. -/
def commandSubstitution (output : List UInt8) : List UInt8 :=
  (output.filter (· ≠ 0x00)).rdropWhile (· = 0x0a)

/-- Only line ends at its end are lost of an output. -/
theorem commandSubstitution_append_newlines {output : List UInt8} (noNul : 0x00 ∉ output) :
    ∃ newlines, output = commandSubstitution output ++ List.replicate newlines 0x0a := by
  have kept : output.filter (· ≠ 0x00) = output :=
    List.filter_eq_self.mpr fun octet held => decide_eq_true fun same => noNul (same ▸ held)
  have ends := List.eq_replicate_of_mem fun octet held =>
    of_decide_eq_true (List.mem_rtakeWhile_imp (p := (· = 0x0a)) (l := output) held)
  refine ⟨(output.rtakeWhile (· = 0x0a)).length, ?_⟩
  rw [commandSubstitution, kept, ← ends]
  exact List.rdropWhile_append_rtakeWhile.symm

end ServerBox.Std.Shell
