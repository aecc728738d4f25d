import ServerBox.Std.Text
import ServerBox.Std.Utf8

/-!
# The fields of a tmux format line

`split_fields` and `unescape_field` of `src/crates/sbm_parser/src/tmux.rs`: a line of fields
between tabs, each written with tmux's `q:` modifier. A backslash stands before a character that a
shell would read; an octet that a terminal should not be sent is a backslash and three octal
digits.
-/

namespace ServerBox.Terminal.Tmux.Format

open ServerBox.Std

/-! ### Reading -/

/-- The loop of `split_fields`, with what it read of a field. -/
def splitFrom (current : Text) : Text → List Text
  | [] => [current]
  | '\\' :: next :: rest => splitFrom (current ++ ['\\', next]) rest
  | '\t' :: rest => current :: splitFrom [] rest
  | char :: rest => splitFrom (current ++ [char]) rest

/-- `split_fields`. -/
def splitFields (line : Text) : List Text := splitFrom [] line

def octalDigit (char : Char) : Option Nat :=
  if '0' ≤ char ∧ char ≤ '7' then some (char.toNat - '0'.toNat) else none

/-- The octet that three octal digits write, if they write one. -/
def octalByte (first second third : Char) : Option UInt8 :=
  match octalDigit first, octalDigit second, octalDigit third with
  | some a, some b, some c =>
      if (a * 8 + b) * 8 + c ≤ 0xff then some (UInt8.ofNat ((a * 8 + b) * 8 + c)) else none
  | _, _, _ => none

/-- The loop of `unescape_field`, with the octets of a run of octal escapes. -/
def unescapeFrom (bytes : List UInt8) : Text → Text
  | [] => Utf8.decode bytes
  | '\\' :: first :: second :: third :: rest =>
      match octalByte first second third with
      | some byte => unescapeFrom (bytes ++ [byte]) rest
      | none => Utf8.decode bytes ++ first :: unescapeFrom [] (second :: third :: rest)
  | '\\' :: first :: rest => Utf8.decode bytes ++ first :: unescapeFrom [] rest
  | char :: rest => Utf8.decode bytes ++ char :: unescapeFrom [] rest

/-- `unescape_field`. -/
def unescapeField (value : Text) : Text := if value.length < 2 then value else unescapeFrom [] value

example : splitFields "a\\\tb\tc".toList = ["a\\\tb".toList, "c".toList] := by
  simp [splitFields, splitFrom]

example : unescapeField "\\141\\|".toList = "a|".toList := by
  rw [unescapeField, if_neg (by decide)]
  rw [show "\\141\\|".toList = ['\\', '1', '4', '1', '\\', '|'] from rfl, unescapeFrom]
  decide +kernel

/-! ### Writing -/

/-- Three octal digits. -/
def octalDigits (octet : UInt8) : Text :=
  [Nat.digitChar (octet.toNat / 64), Nat.digitChar (octet.toNat / 8 % 8),
    Nat.digitChar (octet.toNat % 8)]

/-- The octets of a character as octal escapes. -/
def octalRun (char : Char) : Text :=
  (String.utf8EncodeChar char).flatMap fun octet => '\\' :: octalDigits octet

/-- The ways in which a character may be written: itself, unless it would be read as something
else; behind a backslash, which tmux puts before no digit; or octet by octet. -/
inductive WrittenChar : Char → Text → Prop where
  | plain {char : Char} (notBackslash : char ≠ '\\') (notTab : char ≠ '\t') :
      WrittenChar char [char]
  | quoted {char : Char} (notOctal : octalDigit char = none) : WrittenChar char ['\\', char]
  | octal (char : Char) : WrittenChar char (octalRun char)

/-- A field as it may be written. -/
inductive Written : Text → Text → Prop where
  | nil : Written [] []
  | cons {char : Char} {piece value text : Text} (first : WrittenChar char piece)
      (rest : Written value text) : Written (char :: value) (piece ++ text)

/-- What `q:` puts a backslash before. -/
def isQuoted (char : Char) : Bool := "|&;<>()$`\\\"'*?[# =%".toList.contains char

/-- tmux's own writing: control characters in octal, what a shell reads behind a backslash. -/
def tmuxChar (char : Char) : Text :=
  if char.toNat < 0x20 ∨ char.toNat = 0x7f then octalRun char
  else if isQuoted char then ['\\', char]
  else [char]

def tmuxField (value : Text) : Text := value.flatMap tmuxChar

/-! ### What is read of what is written -/

theorem octalDigit_digitChar {digit : Nat} (small : digit < 8) :
    octalDigit (Nat.digitChar digit) = some digit := by
  revert digit
  decide

theorem octalByte_octalDigits (octet : UInt8) :
    octalByte (Nat.digitChar (octet.toNat / 64)) (Nat.digitChar (octet.toNat / 8 % 8))
      (Nat.digitChar (octet.toNat % 8)) = some octet := by
  have bounded := octet.toNat_lt
  have whole : (octet.toNat / 64 * 8 + octet.toNat / 8 % 8) * 8 + octet.toNat % 8 =
      octet.toNat := by omega
  rw [octalByte, octalDigit_digitChar (by omega), octalDigit_digitChar (by omega),
    octalDigit_digitChar (by omega)]
  dsimp only
  rw [whole, if_pos (by omega), UInt8.ofNat_toNat]

theorem unescapeFrom_octets (bytes octets : List UInt8) (rest : Text) :
    unescapeFrom bytes ((octets.flatMap fun octet => '\\' :: octalDigits octet) ++ rest) =
      unescapeFrom (bytes ++ octets) rest := by
  induction octets generalizing bytes with
  | nil => simp
  | cons octet octets inductionHypothesis =>
      rw [List.flatMap_cons, octalDigits, List.append_assoc]
      simp only [List.cons_append, List.nil_append]
      rw [unescapeFrom, octalByte_octalDigits]
      dsimp only
      rw [inductionHypothesis, List.append_assoc, List.singleton_append]

theorem unescapeFrom_quoted {char : Char} (notOctal : octalDigit char = none) (bytes : List UInt8)
    (rest : Text) :
    unescapeFrom bytes ('\\' :: char :: rest) =
      Utf8.decode bytes ++ char :: unescapeFrom [] rest := by
  match rest with
  | [] => simp [unescapeFrom]
  | [second] => simp [unescapeFrom]
  | second :: third :: rest => simp [unescapeFrom, octalByte, notOctal]

theorem unescapeFrom_plain {char : Char} (notBackslash : char ≠ '\\') (bytes : List UInt8)
    (rest : Text) :
    unescapeFrom bytes (char :: rest) = Utf8.decode bytes ++ char :: unescapeFrom [] rest := by
  rw [unescapeFrom] <;> simp [notBackslash]

/-- Behind the octal escapes of a text, what was written is read as that text and its value. -/
theorem unescapeFrom_written {value text : Text} (written : Written value text) (pending : Text) :
    unescapeFrom (Utf8.encode pending) text = pending ++ value := by
  induction written generalizing pending with
  | nil => rw [unescapeFrom, Utf8.decode_encode, List.append_nil]
  | @cons char piece value text first rest inductionHypothesis =>
      have alone := inductionHypothesis []
      rw [Utf8.encode_nil, List.nil_append] at alone
      cases first with
      | plain notBackslash notTab =>
          rw [List.singleton_append, unescapeFrom_plain notBackslash, Utf8.decode_encode, alone]
      | quoted notOctal =>
          rw [List.cons_append, List.singleton_append, unescapeFrom_quoted notOctal,
            Utf8.decode_encode, alone]
      | octal =>
          have octets : Utf8.encode pending ++ String.utf8EncodeChar char =
              Utf8.encode (pending ++ [char]) := by
            rw [Utf8.encode_append]
            simp [Utf8.encode]
          rw [octalRun, unescapeFrom_octets, octets, inductionHypothesis, List.append_assoc,
            List.singleton_append]

theorem splitFrom_plain {char : Char} (notBackslash : char ≠ '\\') (notTab : char ≠ '\t')
    (current rest : Text) :
    splitFrom current (char :: rest) = splitFrom (current ++ [char]) rest := by
  rw [splitFrom] <;> simp [notBackslash, notTab]

theorem digitChar_plain {digit : Nat} (small : digit < 8) :
    Nat.digitChar digit ≠ '\\' ∧ Nat.digitChar digit ≠ '\t' := by
  revert digit
  decide

theorem splitFrom_octets (current : Text) (octets : List UInt8) (rest : Text) :
    splitFrom current ((octets.flatMap fun octet => '\\' :: octalDigits octet) ++ rest) =
      splitFrom (current ++ octets.flatMap fun octet => '\\' :: octalDigits octet) rest := by
  induction octets generalizing current with
  | nil => simp
  | cons octet octets inductionHypothesis =>
      have second := digitChar_plain (Nat.mod_lt (octet.toNat / 8) (show 0 < 8 by decide))
      have third := digitChar_plain (Nat.mod_lt octet.toNat (show 0 < 8 by decide))
      have front : splitFrom current ('\\' :: octalDigits octet ++
          ((octets.flatMap fun octet => '\\' :: octalDigits octet) ++ rest)) =
          splitFrom (current ++ '\\' :: octalDigits octet)
            ((octets.flatMap fun octet => '\\' :: octalDigits octet) ++ rest) := by
        rw [octalDigits]
        simp only [List.cons_append, List.nil_append]
        rw [splitFrom, splitFrom_plain second.1 second.2, splitFrom_plain third.1 third.2]
        simp
      rw [List.flatMap_cons, List.append_assoc, front, inductionHypothesis, List.append_assoc]

/-- A written field is not split. -/
theorem splitFrom_written {value text : Text} (written : Written value text)
    (current rest : Text) :
    splitFrom current (text ++ rest) = splitFrom (current ++ text) rest := by
  induction written generalizing current with
  | nil => rw [List.nil_append, List.append_nil]
  | @cons char piece value text first written inductionHypothesis =>
      rw [List.append_assoc, ← List.append_assoc current]
      cases first with
      | plain notBackslash notTab =>
          rw [List.singleton_append, splitFrom_plain notBackslash notTab, inductionHypothesis]
      | quoted => rw [List.cons_append, List.singleton_append, splitFrom, inductionHypothesis]
      | octal => rw [octalRun, splitFrom_octets, inductionHypothesis]

/-- A single character is its own writing, unless it is a backslash. -/
theorem unescapeField_written {value text : Text} (written : Written value text) :
    unescapeField text = value := by
  have whole := unescapeFrom_written written []
  rw [Utf8.encode_nil, List.nil_append] at whole
  rw [unescapeField]
  split
  next short =>
      match text, short with
      | [], _ => simpa [unescapeFrom, Utf8.decode, Utf8.decodeFrom] using whole
      | [char], _ =>
          by_cases isBackslash : char = '\\'
          · simpa [isBackslash, unescapeFrom, Utf8.decode, Utf8.decodeFrom] using whole
          · simpa [unescapeFrom_plain isBackslash, unescapeFrom, Utf8.decode, Utf8.decodeFrom]
              using whole
  next => exact whole

/-- Fields written with tabs between them are split and read back as they were, however each
character was written. A line has at least one field. -/
theorem fields_round_trip {value text : Text} {values texts : List Text}
    (written : List.Forall₂ Written (value :: values) (text :: texts)) :
    (splitFields (Text.join '\t' (text :: texts))).map unescapeField = value :: values := by
  have split : ∀ {value text : Text} {values texts : List Text},
      List.Forall₂ Written (value :: values) (text :: texts) →
      splitFields (Text.join '\t' (text :: texts)) = text :: texts := by
    intro value text values texts written
    induction texts generalizing value text values with
    | nil =>
        obtain ⟨first, -⟩ := List.forall₂_cons.mp written
        have whole := splitFrom_written first [] []
        rw [List.append_nil] at whole
        rw [Text.join_singleton, splitFields, whole]
        rfl
    | cons next texts inductionHypothesis =>
        obtain ⟨first, rest⟩ := List.forall₂_cons.mp written
        cases values with
        | nil => cases rest
        | cons =>
            rw [Text.join_cons_cons, splitFields, splitFrom_written first, List.nil_append,
              splitFrom]
            exact congrArg _ (inductionHypothesis rest)
  have read : ∀ {values texts : List Text}, List.Forall₂ Written values texts →
      texts.map unescapeField = values := by
    intro values texts written
    induction written with
    | nil => rfl
    | cons first rest inductionHypothesis =>
        rw [List.map_cons, unescapeField_written first, inductionHypothesis]
  rw [split written, read written]

/-- tmux's own writing is one of those. -/
theorem written_tmuxField (value : Text) : Written value (tmuxField value) := by
  induction value with
  | nil => exact .nil
  | cons char value inductionHypothesis =>
      refine .cons ?_ inductionHypothesis
      rw [tmuxChar]
      split
      next => exact .octal char
      next visible =>
          split
          next isQuoted =>
              refine .quoted ?_
              have which : ∀ char ∈ "|&;<>()$`\\\"'*?[# =%".toList, octalDigit char = none := by
                decide
              exact which char (List.contains_iff_mem.mp isQuoted)
          next notQuoted =>
              refine .plain ?_ ?_
              · rintro rfl
                exact notQuoted (by decide)
              · rintro rfl
                exact visible (.inl (by decide))

theorem fields_round_trip_title :
    (splitFields (Text.join '\t' [tmuxField "$1".toList, tmuxField "é\t\\011;\x1b".toList])).map
      unescapeField = ["$1".toList, "é\t\\011;\x1b".toList] :=
  fields_round_trip (.cons (written_tmuxField _) (.cons (written_tmuxField _) .nil))

end ServerBox.Terminal.Tmux.Format
