import Mathlib.Data.List.DropRight

/-!
# Texts

A text as its characters, with the operations of Rust's `str` that the parsers of this
repository use: trimming, splitting once at a character, and decimal numbers.
-/

namespace ServerBox.Std

abbrev Text := List Char

instance lawfulText : LawfulBEq Text := inferInstance

/-- A text is searched, and not every character there is. -/
instance (priority := 5000) decidableForallMem {holds : Char → Prop} [DecidablePred holds]
    (text : Text) : Decidable (∀ char, char ∈ text → holds char) := List.decidableBAll holds text

namespace Text

/-! ### Trimming -/

/-- `char::is_whitespace`: what Unicode calls `White_Space`. -/
def isWhitespace (char : Char) : Bool :=
  let code := char.toNat
  (9 ≤ code && code ≤ 13) || code = 0x20 || code = 0x85 || code = 0xA0 || code = 0x1680 ||
    (0x2000 ≤ code && code ≤ 0x200A) || code = 0x2028 || code = 0x2029 || code = 0x202F ||
    code = 0x205F || code = 0x3000

def trimStart (text : Text) : Text := text.dropWhile isWhitespace

def trimEnd (text : Text) : Text := text.rdropWhile isWhitespace

def trim (text : Text) : Text := trimEnd (trimStart text)

theorem dropWhile_dropWhile {α : Type} (drops : α → Bool) (values : List α) :
    (values.dropWhile drops).dropWhile drops = values.dropWhile drops := by
  induction values with
  | nil => rfl
  | cons value rest inductionHypothesis =>
      rw [List.dropWhile_cons]
      split
      next => exact inductionHypothesis
      next stays => simp [stays]

theorem trimStart_trimStart (text : Text) : trimStart (trimStart text) = trimStart text :=
  dropWhile_dropWhile _ _

theorem trimEnd_trimEnd (text : Text) : trimEnd (trimEnd text) = trimEnd text := by
  simp [trimEnd, List.rdropWhile, dropWhile_dropWhile]

@[simp] theorem trim_trimStart (text : Text) : trim (trimStart text) = trim text := by
  simp [trim, trimStart_trimStart]

/-- A text that ends in something else is not touched at its end. -/
theorem trimEnd_append_cons (front back : Text) {char : Char}
    (solid : isWhitespace char = false) :
    trimEnd (front ++ char :: back) = front ++ char :: trimEnd back := by
  simp only [trimEnd, List.rdropWhile, List.reverse_append, List.reverse_cons, List.append_assoc,
    List.singleton_append]
  rw [List.dropWhile_append]
  split
  next empty =>
      have gone : List.dropWhile isWhitespace back.reverse = [] := List.isEmpty_iff.mp empty
      simp [gone, solid]
  next => simp

theorem trimStart_append_cons (front back : Text) {char : Char}
    (solid : isWhitespace char = false) :
    trimStart (front ++ char :: back) = trimStart front ++ char :: back := by
  rw [trimStart, List.dropWhile_append]
  split
  next empty =>
      have gone : List.dropWhile isWhitespace front = [] := List.isEmpty_iff.mp empty
      simp [trimStart, gone, solid]
  next => rfl

/-- Trimming works on the two sides of a character that stays. -/
theorem trim_append_cons (front back : Text) {char : Char} (solid : isWhitespace char = false) :
    trim (front ++ char :: back) = trimStart front ++ char :: trimEnd back := by
  rw [trim, trimStart_append_cons front back solid, trimEnd_append_cons _ back solid]

/-- A text without whitespace is not touched. -/
theorem trimStart_eq_self {text : Text} (solid : ∀ char ∈ text, isWhitespace char = false) :
    trimStart text = text := by
  cases text with
  | nil => rfl
  | cons char rest => simp [trimStart, solid char List.mem_cons_self]

theorem trimEnd_eq_self {text : Text} (solid : ∀ char ∈ text, isWhitespace char = false) :
    trimEnd text = text := by
  have flipped : trimStart text.reverse = text.reverse :=
    trimStart_eq_self fun char held => solid char (List.mem_reverse.mp held)
  rw [trimEnd, List.rdropWhile]
  exact (congrArg List.reverse flipped).trans (List.reverse_reverse text)

theorem trim_eq_self {text : Text} (solid : ∀ char ∈ text, isWhitespace char = false) :
    trim text = text := by
  rw [trim, trimStart_eq_self solid, trimEnd_eq_self solid]

theorem mem_of_mem_trimStart {text : Text} {char : Char} (held : char ∈ trimStart text) :
    char ∈ text :=
  (List.dropWhile_sublist _).subset held

theorem mem_of_mem_trimEnd {text : Text} {char : Char} (held : char ∈ trimEnd text) :
    char ∈ text :=
  (List.rdropWhile_prefix (p := isWhitespace) text).subset held

/-- Trimming the end first comes to the same. -/
theorem trim_trimEnd (text : Text) : trim (trimEnd text) = trim text := by
  by_cases blank : ∀ char ∈ text, isWhitespace char = true
  · have whole : trimStart text = [] := List.dropWhile_eq_nil_iff.mpr blank
    have start : trimStart (trimEnd text) = [] :=
      List.dropWhile_eq_nil_iff.mpr fun char held => blank char (mem_of_mem_trimEnd held)
    rw [trim, trim, whole, start]
  · have ⟨char, held, solid⟩ : ∃ char ∈ text, isWhitespace char = false := by simpa using blank
    obtain ⟨front, back, rfl⟩ := List.append_of_mem held
    rw [trimEnd_append_cons front back solid, trim_append_cons _ _ solid,
      trim_append_cons _ _ solid, trimEnd_trimEnd]

@[simp] theorem trim_trim (text : Text) : trim (trim text) = trim text := by
  calc trim (trimEnd (trimStart text)) = trim (trimStart text) := trim_trimEnd _
    _ = trim text := trim_trimStart text

/-! ### Splitting at the first of a character -/

/-- `str::split_once`. -/
def splitOnce (separator : Char) : Text → Option (Text × Text)
  | [] => none
  | char :: rest =>
      if char = separator then some ([], rest)
      else (splitOnce separator rest).map fun (before, after) => (char :: before, after)

/-- What it splits is the two parts around the character, which the first part lacks. -/
theorem splitOnce_eq_some_iff {separator : Char} {text before after : Text} :
    splitOnce separator text = some (before, after) ↔
      text = before ++ separator :: after ∧ separator ∉ before := by
  induction text generalizing before with
  | nil => simp [splitOnce]
  | cons char rest inductionHypothesis =>
      rw [splitOnce]
      by_cases here : char = separator
      · subst here
        rw [if_pos rfl]
        cases before with
        | nil => simp
        | cons first others => simp; intro same; simp [same]
      · rw [if_neg here]
        cases before with
        | nil => simp [here]
        | cons first others =>
            have tail := @inductionHypothesis others
            simp only [Option.map_eq_some_iff, Prod.mk.injEq, Prod.exists, List.cons_append,
              List.cons.injEq, List.mem_cons, not_or]
            constructor
            · rintro ⟨others', after', found, ⟨rfl, rfl⟩, rfl⟩
              exact ⟨⟨rfl, (tail.mp found).1⟩, Ne.symm here, (tail.mp found).2⟩
            · rintro ⟨⟨rfl, shape⟩, _, lacks⟩
              exact ⟨others, after, tail.mpr ⟨shape, lacks⟩, ⟨rfl, rfl⟩, rfl⟩

theorem splitOnce_append {separator : Char} {before : Text} (after : Text)
    (lacks : separator ∉ before) :
    splitOnce separator (before ++ separator :: after) = some (before, after) :=
  splitOnce_eq_some_iff.mpr ⟨rfl, lacks⟩

theorem splitOnce_eq_none_iff {separator : Char} {text : Text} :
    splitOnce separator text = none ↔ separator ∉ text := by
  constructor
  · intro none held
    obtain ⟨before, after, rfl, lacks⟩ := List.eq_append_cons_of_mem held
    rw [splitOnce_append after lacks] at none
    cases none
  · intro lacks
    cases split : splitOnce separator text with
    | none => rfl
    | some parts =>
        obtain ⟨rfl, -⟩ := splitOnce_eq_some_iff.mp split
        simp at lacks

/-- `str::strip_prefix`. -/
def stripPrefix (start : String) (text : Text) : Option Text :=
  if start.toList.isPrefixOf text then some (text.drop start.toList.length) else none

/-- `str::strip_suffix`. -/
def stripSuffix (ending : String) (text : Text) : Option Text :=
  if ending.toList.isSuffixOf text then some (text.take (text.length - ending.toList.length))
  else none

theorem stripPrefix_append (start : String) (text : Text) :
    stripPrefix start (start.toList ++ text) = some text := by
  rw [stripPrefix, if_pos (List.isPrefixOf_iff_prefix.mpr (List.prefix_append ..)),
    List.drop_left]

theorem stripSuffix_append (ending : String) (text : Text) :
    stripSuffix ending (text ++ ending.toList) = some text := by
  rw [stripSuffix, if_pos (List.isSuffixOf_iff_suffix.mpr (List.suffix_append ..)),
    List.length_append, Nat.add_sub_cancel, List.take_left]

/-- What a prefix was taken from. -/
theorem of_stripPrefix {start : String} {text rest : Text}
    (stripped : stripPrefix start text = some rest) : text = start.toList ++ rest := by
  unfold stripPrefix at stripped
  split at stripped
  next isPrefix =>
    obtain ⟨tail, rfl⟩ := List.isPrefixOf_iff_prefix.mp isPrefix
    rw [List.drop_left] at stripped
    rw [Option.some.inj stripped]
  next => cases stripped

theorem of_stripSuffix {ending : String} {text rest : Text}
    (stripped : stripSuffix ending text = some rest) : text = rest ++ ending.toList := by
  unfold stripSuffix at stripped
  split at stripped
  next isSuffix =>
    obtain ⟨front, rfl⟩ := List.isSuffixOf_iff_suffix.mp isSuffix
    rw [List.length_append, Nat.add_sub_cancel, List.take_left] at stripped
    rw [Option.some.inj stripped]
  next => cases stripped

/-- What holds of a literal's characters holds of the literal, which need not be evaluated. -/
theorem of_literal {holds : Text → Prop} (chars : List Char) (proof : holds chars) :
    holds (String.ofList chars).toList := by
  rwa [String.toList_ofList]

/-- `[_]::join`. -/
def join (separator : Char) (parts : List Text) : Text := List.intercalate [separator] parts

theorem join_nil (separator : Char) : join separator [] = [] := rfl

theorem join_singleton (separator : Char) (part : Text) : join separator [part] = part := by
  simp [join]

theorem join_cons_cons (separator : Char) (part next : Text) (parts : List Text) :
    join separator (part :: next :: parts) = part ++ separator :: join separator (next :: parts) := by
  simp [join, List.intercalate]

theorem mem_join {separator char : Char} {parts : List Text} (held : char ∈ join separator parts) :
    char = separator ∨ ∃ part ∈ parts, char ∈ part := by
  induction parts with
  | nil => cases held
  | cons part parts inductionHypothesis =>
      cases parts with
      | nil =>
          rw [join_singleton] at held
          exact .inr ⟨part, List.mem_cons_self, held⟩
      | cons next parts =>
          rw [join_cons_cons] at held
          rcases List.mem_append.mp held with first | later
          · exact .inr ⟨part, List.mem_cons_self, first⟩
          · rcases List.mem_cons.mp later with same | later
            · exact .inl same
            · exact (inductionHypothesis later).imp_right fun ⟨found, inParts, inFound⟩ =>
                ⟨found, List.mem_cons_of_mem _ inParts, inFound⟩

theorem mem_join_of_mem (separator : Char) {char : Char} {parts : List Text} {part : Text}
    (inParts : part ∈ parts) (held : char ∈ part) : char ∈ join separator parts := by
  induction parts with
  | nil => cases inParts
  | cons first parts inductionHypothesis =>
      cases parts with
      | nil =>
          rw [join_singleton, ← List.mem_singleton.mp inParts]
          exact held
      | cons next parts =>
          rw [join_cons_cons]
          rcases List.mem_cons.mp inParts with rfl | later
          · exact List.mem_append_left _ held
          · exact List.mem_append_right _ (List.mem_cons_of_mem _ (inductionHypothesis later))

/-- What stands in a part of a text stands in the text. -/
theorem mem_of_mem_splitOn {separator char : Char} {text part : Text}
    (among : part ∈ text.splitOn separator) (held : char ∈ part) : char ∈ text := by
  have joined : join separator (text.splitOn separator) = text := List.intercalate_splitOn separator
  rw [← joined]
  exact mem_join_of_mem separator among held

/-- `str::split_whitespace`. -/
def splitWhitespace (text : Text) : List Text :=
  (text.splitOnP isWhitespace).filter (!·.isEmpty)

/-! ### Decimal numbers -/

/-- The number that decimal digits write. -/
def digitsValue (text : Text) : Nat :=
  text.foldl (fun value digit => value * 10 + (digit.toNat - '0'.toNat)) 0

/-- `u8::from_str` and its like: digits after at most one `+`, up to `bound`. -/
def parseUnsigned (bound : Nat) (text : Text) : Option Nat :=
  let digits := if text.head? = some '+' then text.tail else text
  if !digits.isEmpty && digits.all Char.isDigit && digitsValue digits ≤ bound then
    some (digitsValue digits)
  else none

/-- A number in decimal digits, as `to_string` writes it. -/
def decimal (value : Nat) : Text := Nat.toDigits 10 value

theorem isDigit_of_mem_decimal {number : Nat} {char : Char} (held : char ∈ decimal number) :
    char.isDigit = true := Nat.isDigit_of_mem_toDigits (by decide) (by decide) held

theorem decimal_ne_nil (number : Nat) : decimal number ≠ [] := Nat.toDigits_ne_nil

theorem digitsValue_decimal (number : Nat) : digitsValue (decimal number) = number := by
  have read := Nat.ofDigitChars_toDigits (show 1 < 10 by decide) (show 10 ≤ 10 by decide)
    (n := number)
  rw [Nat.ofDigitChars_eq_foldl] at read
  simp only [Nat.mul_comm 10] at read
  exact read

/-- No zero is written before other digits. -/
theorem head?_decimal_ne {number : Nat} (positive : 0 < number) :
    (decimal number).head? ≠ some '0' := by
  induction number using Nat.strongRecOn with
  | ind number inductionHypothesis =>
      by_cases small : number < 10
      · rw [decimal, Nat.toDigits_of_lt_base small, List.head?_cons, ne_eq, Option.some.injEq,
          Nat.digitChar_eq_zero]
        omega
      · have front := inductionHypothesis (number / 10) (by omega) (by omega)
        rw [decimal, Nat.toDigits_of_base_le (by decide) (by omega),
          List.head?_append_of_ne_nil _ Nat.toDigits_ne_nil]
        exact front

/-- What ASCII prints is no whitespace. -/
theorem not_isWhitespace_of_visible {char : Char} (above : 0x20 < char.toNat)
    (below : char.toNat < 0x7F) : isWhitespace char = false := by
  rw [Bool.eq_false_iff]
  intro blank
  simp only [isWhitespace, Bool.or_eq_true, Bool.and_eq_true, decide_eq_true_eq] at blank
  omega

theorem not_isWhitespace_of_isAlphanum {char : Char} (alphanumeric : char.isAlphanum = true) :
    isWhitespace char = false := by
  unfold Char.isAlphanum Char.isAlpha Char.isUpper Char.isLower Char.isDigit at alphanumeric
  simp only [Bool.or_eq_true, Bool.and_eq_true, decide_eq_true_eq] at alphanumeric
  rcases alphanumeric with (upper | lower) | digit
  · have above : 65 ≤ char.toNat := UInt32.le_iff_toNat_le.mp upper.1
    have below : char.toNat ≤ 90 := UInt32.le_iff_toNat_le.mp upper.2
    exact not_isWhitespace_of_visible (by omega) (by omega)
  · have above : 97 ≤ char.toNat := UInt32.le_iff_toNat_le.mp lower.1
    have below : char.toNat ≤ 122 := UInt32.le_iff_toNat_le.mp lower.2
    exact not_isWhitespace_of_visible (by omega) (by omega)
  · have above : 48 ≤ char.toNat := UInt32.le_iff_toNat_le.mp digit.1
    have below : char.toNat ≤ 57 := UInt32.le_iff_toNat_le.mp digit.2
    exact not_isWhitespace_of_visible (by omega) (by omega)

theorem not_isWhitespace_of_isDigit {char : Char} (digit : char.isDigit = true) :
    isWhitespace char = false :=
  not_isWhitespace_of_isAlphanum (by simp [Char.isAlphanum, digit])

/-- The digits that a number read from a text is made of. -/
theorem of_parseUnsigned {bound value : Nat} {text : Text}
    (parsed : parseUnsigned bound text = some value) :
    ∃ digits, (text = digits ∨ text = '+' :: digits) ∧ digits ≠ [] ∧
      (∀ char ∈ digits, char.isDigit = true) ∧ digitsValue digits = value ∧ value ≤ bound := by
  simp only [parseUnsigned, Option.ite_none_right_eq_some, Option.some.injEq, Bool.and_eq_true,
    decide_eq_true_eq, List.all_eq_true, Bool.not_eq_eq_eq_not, Bool.not_true,
    List.isEmpty_eq_false_iff] at parsed
  obtain ⟨⟨⟨some, digits⟩, bounded⟩, rfl⟩ := parsed
  refine ⟨_, ?_, some, digits, rfl, bounded⟩
  split
  next plus =>
      cases text with
      | nil => cases plus
      | cons first rest => exact .inr (by simpa using plus)
  next => exact .inl rfl

/-- Only digits and a `+` are read as part of a number. -/
theorem not_mem_of_parseUnsigned {bound value : Nat} {text : Text}
    (parsed : parseUnsigned bound text = some value) {char : Char}
    (notDigit : char.isDigit = false) (notPlus : char ≠ '+') : char ∉ text := by
  obtain ⟨digits, shape, -, digit, -, -⟩ := of_parseUnsigned parsed
  have absent : char ∉ digits := fun held => by
    rw [digit char held] at notDigit
    cases notDigit
  rcases shape with rfl | rfl
  · exact absent
  · exact fun held => (List.mem_cons.mp held).elim notPlus absent

/-- No whitespace is read as part of a number. -/
theorem solid_of_parseUnsigned {bound value : Nat} {text : Text}
    (parsed : parseUnsigned bound text = some value) :
    ∀ char ∈ text, isWhitespace char = false := by
  obtain ⟨digits, shape, -, digit, -, -⟩ := of_parseUnsigned parsed
  intro char held
  rcases shape with rfl | rfl
  · exact not_isWhitespace_of_isDigit (digit char held)
  · rcases List.mem_cons.mp held with rfl | later
    · decide
    · exact not_isWhitespace_of_isDigit (digit char later)

end Text

end ServerBox.Std
