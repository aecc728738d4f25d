import ServerBox.Std.Text

/-!
# JSON text

The writing of JSON values without whitespace, as `serde_json` does it: the quote, the backslash
and the characters below the space escaped, every other character as it is. And the reading of
any JSON text. `Reads` relates the two: one rule for each kind of value written.
-/

namespace ServerBox.Std.JsonText

/-- A JSON value as it is read. A number keeps its digits, an object its members in order. -/
inductive Node where
  | null
  | bool (value : Bool)
  | number (token : Text)
  | string (text : Text)
  | array (items : List Node)
  | object (members : List (Text × Node))

/-! ### Writing -/

def hexDigit (digit : Nat) : Char :=
  if digit < 10 then Char.ofNat (48 + digit) else Char.ofNat (87 + digit)

/-- One character inside a string. -/
def escape (char : Char) : Text :=
  if char = '"' then ['\\', '"']
  else if char = '\\' then ['\\', '\\']
  else if char.toNat = 0x08 then ['\\', 'b']
  else if char.toNat = 0x0C then ['\\', 'f']
  else if char = '\n' then ['\\', 'n']
  else if char = '\r' then ['\\', 'r']
  else if char = '\t' then ['\\', 't']
  else if char.toNat < 0x20 then
    ['\\', 'u', '0', '0', hexDigit (char.toNat / 16), hexDigit (char.toNat % 16)]
  else [char]

def string (text : Text) : Text := '"' :: (text.flatMap escape ++ ['"'])

def bool (value : Bool) : Text :=
  if value then ['t', 'r', 'u', 'e'] else ['f', 'a', 'l', 's', 'e']

def array (items : List Text) : Text := '[' :: (Text.join ',' items ++ [']'])

/-- A name and its value. -/
def entry (member : Text × Text) : Text := string member.1 ++ ':' :: member.2

def object (members : List (Text × Text)) : Text :=
  '{' :: (Text.join ',' (members.map entry) ++ ['}'])

/-! ### Reading -/

def isSpace (char : Char) : Bool := char = ' ' || char = '\n' || char = '\t' || char = '\r'

def skip (text : Text) : Text := text.dropWhile isSpace

def hexValue (char : Char) : Option Nat :=
  if char.isDigit then some (char.toNat - 48)
  else if 97 ≤ char.toNat && char.toNat ≤ 102 then some (char.toNat - 87)
  else if 65 ≤ char.toNat && char.toNat ≤ 70 then some (char.toNat - 55)
  else none

/-- Four hexadecimal digits. -/
def hexUnit : Text → Option (Nat × Text)
  | a :: b :: c :: d :: rest => do
      let a ← hexValue a
      let b ← hexValue b
      let c ← hexValue c
      let d ← hexValue d
      some (((a * 16 + b) * 16 + c) * 16 + d, rest)
  | _ => none

/-- The character that an escape stands for, after its backslash. A unit of a surrogate pair
stands for none by itself. -/
def escaped : Text → Option (Char × Text)
  | '"' :: rest => some ('"', rest)
  | '\\' :: rest => some ('\\', rest)
  | '/' :: rest => some ('/', rest)
  | 'b' :: rest => some (Char.ofNat 0x08, rest)
  | 'f' :: rest => some (Char.ofNat 0x0C, rest)
  | 'n' :: rest => some ('\n', rest)
  | 'r' :: rest => some ('\r', rest)
  | 't' :: rest => some ('\t', rest)
  | 'u' :: rest => do
      let (unit, rest) ← hexUnit rest
      if 0xD800 ≤ unit ∧ unit < 0xDC00 then
        match rest with
        | '\\' :: 'u' :: rest => do
            let (low, rest) ← hexUnit rest
            if 0xDC00 ≤ low ∧ low < 0xE000 then
              some (Char.ofNat (0x10000 + (unit - 0xD800) * 0x400 + (low - 0xDC00)), rest)
            else none
        | _ => none
      else if 0xDC00 ≤ unit ∧ unit < 0xE000 then none
      else some (Char.ofNat unit, rest)
  | _ => none

/-- A string after its opening quote, and what follows it. -/
def stringBody : Nat → Text → Option (Text × Text)
  | 0, _ => none
  | _ + 1, [] => none
  | fuel + 1, char :: rest =>
      if char = '"' then some ([], rest)
      else if char = '\\' then do
        let (char, rest) ← escaped rest
        let (text, rest) ← stringBody fuel rest
        some (char :: text, rest)
      else if char.toNat < 0x20 then none
      else do
        let (text, rest) ← stringBody fuel rest
        some (char :: text, rest)

/-- At least one digit. -/
def digits (text : Text) : Option (Text × Text) :=
  if (text.takeWhile Char.isDigit).isEmpty then none
  else some (text.takeWhile Char.isDigit, text.dropWhile Char.isDigit)

/-- The digits of a number before its point: no zero before others. -/
def wholeDigits (text : Text) : Option (Text × Text) := do
  let (token, rest) ← digits text
  if token.head? = some '0' ∧ token.length ≠ 1 then none else some (token, rest)

def fraction : Text → Option (Text × Text)
  | '.' :: rest => (digits rest).map fun (token, rest) => ('.' :: token, rest)
  | text => some ([], text)

def exponent : Text → Option (Text × Text)
  | char :: rest =>
      if char = 'e' ∨ char = 'E' then
        match rest with
        | sign :: later =>
            if sign = '+' ∨ sign = '-' then
              (digits later).map fun (token, rest) => (char :: sign :: token, rest)
            else (digits rest).map fun (token, rest) => (char :: token, rest)
        | [] => none
      else some ([], char :: rest)
  | [] => some ([], [])

def number (text : Text) : Option (Text × Text) := do
  let (sign, rest) := match text with
    | '-' :: rest => (['-'], rest)
    | text => ([], text)
  let (whole, rest) ← wholeDigits rest
  let (fraction, rest) ← fraction rest
  let (exponent, rest) ← exponent rest
  some (sign ++ whole ++ fraction ++ exponent, rest)

mutual

/-- A value, and what follows it. -/
def value : Nat → Text → Option (Node × Text)
  | 0, _ => none
  | fuel + 1, text =>
      match skip text with
      | 'n' :: 'u' :: 'l' :: 'l' :: rest => some (.null, rest)
      | 't' :: 'r' :: 'u' :: 'e' :: rest => some (.bool true, rest)
      | 'f' :: 'a' :: 'l' :: 's' :: 'e' :: rest => some (.bool false, rest)
      | '"' :: rest => (stringBody fuel rest).map fun (text, rest) => (.string text, rest)
      | '[' :: rest =>
          match skip rest with
          | ']' :: rest => some (.array [], rest)
          | rest => (items fuel rest).map fun (items, rest) => (.array items, rest)
      | '{' :: rest =>
          match skip rest with
          | '}' :: rest => some (.object [], rest)
          | rest => (members fuel rest).map fun (members, rest) => (.object members, rest)
      | text => (number text).map fun (token, rest) => (.number token, rest)

/-- The items of an array to its end. -/
def items : Nat → Text → Option (List Node × Text)
  | 0, _ => none
  | fuel + 1, text =>
      match value fuel text with
      | none => none
      | some (node, rest) =>
          match skip rest with
          | ',' :: rest => (items fuel rest).map fun (nodes, rest) => (node :: nodes, rest)
          | ']' :: rest => some ([node], rest)
          | _ => none

/-- The members of an object to its end. -/
def members : Nat → Text → Option (List (Text × Node) × Text)
  | 0, _ => none
  | fuel + 1, text =>
      match skip text with
      | '"' :: rest =>
          match stringBody fuel rest with
          | none => none
          | some (name, rest) =>
              match skip rest with
              | ':' :: rest =>
                  match value fuel rest with
                  | none => none
                  | some (node, rest) =>
                      match skip rest with
                      | ',' :: rest =>
                          (members fuel rest).map fun (nodes, rest) => ((name, node) :: nodes, rest)
                      | '}' :: rest => some ([(name, node)], rest)
                      | _ => none
              | _ => none
      | _ => none

end

/-- `serde_json::from_str`, of any value. -/
def fromStr (text : Text) : Option Node :=
  match value (text.length + 1) text with
  | some (node, rest) => if skip rest = [] then some node else none
  | none => none

example : fromStr "true".toList = some (.bool true) := by
  rw [fromStr, value]
  rfl

/-! ### What is written is read back -/

/-- No number goes on into what follows it. -/
def Stops (rest : Text) : Prop :=
  ∀ char, rest.head? = some char → char.isDigit = false ∧ char ≠ '.' ∧ char ≠ 'e' ∧ char ≠ 'E'

theorem stops_nil : Stops [] := nofun

/-- The value is read off the text, whatever follows it, and the text begins it. -/
structure Reads (text : Text) (node : Node) : Prop where
  value_append : ∀ fuel rest, text.length < fuel → Stops rest →
    value fuel (text ++ rest) = some (node, rest)
  starts : ∃ char rest, text = char :: rest ∧ isSpace char = false ∧ char ≠ ']'

theorem Reads.fromStr {text : Text} {node : Node} (reads : Reads text node) :
    fromStr text = some node := by
  have whole := reads.value_append (text.length + 1) [] (Nat.lt_succ_self _) stops_nil
  rw [List.append_nil] at whole
  rw [JsonText.fromStr, whole]
  rfl

theorem hexValue_hexDigit : ∀ digit < 16, hexValue (hexDigit digit) = some digit := by
  decide

theorem hexUnit_below {code : Nat} (below : code < 256) (rest : Text) :
    hexUnit ('0' :: '0' :: hexDigit (code / 16) :: hexDigit (code % 16) :: rest) =
      some (code, rest) := by
  have high := hexValue_hexDigit (code / 16) (by omega)
  have low := hexValue_hexDigit (code % 16) (by omega)
  have zero : hexValue '0' = some 0 := by decide
  have sum : code / 16 * 16 + code % 16 = code := by omega
  simp [hexUnit, high, low, zero, sum]

/-- One character of a string is read as it was written. -/
theorem stringBody_escape (fuel : Nat) (char : Char) (rest : Text) :
    stringBody (fuel + 1) (escape char ++ rest) =
      (stringBody fuel rest).map fun (text, rest) => (char :: text, rest) := by
  have backslash : ∀ {after : Text}, escaped after = some (char, rest) →
      stringBody (fuel + 1) ('\\' :: after) =
        (stringBody fuel rest).map fun (text, rest) => (char :: text, rest) := by
    intro after stands
    simp only [stringBody, Char.reduceEq, if_false, if_true, stands, Option.bind_eq_bind,
      Option.bind_some]
    cases stringBody fuel rest <;> rfl
  unfold escape
  split
  next isQuote => exact backslash (by rw [isQuote]; rfl)
  split
  next isBackslash => exact backslash (by rw [isBackslash]; rfl)
  split
  next code => exact backslash (by rw [← Char.ofNat_toNat char, code]; rfl)
  split
  next code => exact backslash (by rw [← Char.ofNat_toNat char, code]; rfl)
  split
  next isNewline => exact backslash (by rw [isNewline]; rfl)
  split
  next isReturn => exact backslash (by rw [isReturn]; rfl)
  split
  next isTab => exact backslash (by rw [isTab]; rfl)
  split
  next control =>
    refine backslash ?_
    have unit := @hexUnit_below char.toNat (by omega) rest
    have low : ¬ (0xD800 ≤ char.toNat ∧ char.toNat < 0xDC00) := by omega
    have lowToo : ¬ (0xDC00 ≤ char.toNat ∧ char.toNat < 0xE000) := by omega
    change escaped ('u' :: '0' :: '0' :: hexDigit (char.toNat / 16) ::
      hexDigit (char.toNat % 16) :: rest) = _
    simp only [escaped, unit, Option.bind_eq_bind, Option.bind_some, if_neg low, if_neg lowToo,
      Char.ofNat_toNat]
  next notQuote notBackslash _ _ _ _ _ notControl =>
    simp only [List.singleton_append, stringBody, if_neg notQuote, if_neg notBackslash,
      if_neg notControl, Option.bind_eq_bind]
    cases stringBody fuel rest <;> rfl

theorem stringBody_flatMap (text rest : Text) {fuel : Nat} (enough : text.length < fuel) :
    stringBody fuel (text.flatMap escape ++ '"' :: rest) = some (text, rest) := by
  induction text generalizing fuel with
  | nil =>
      obtain ⟨fuel, rfl⟩ := Nat.exists_eq_add_of_lt enough
      simp [stringBody]
  | cons char text inductionHypothesis =>
      obtain ⟨fuel, rfl⟩ : ∃ less, fuel = less + 1 := ⟨fuel - 1, by
        rw [List.length_cons] at enough
        omega⟩
      rw [List.length_cons] at enough
      rw [List.flatMap_cons, List.append_assoc, stringBody_escape,
        inductionHypothesis (Nat.lt_of_succ_lt_succ enough)]
      rfl

theorem length_le_flatMap_escape (text : Text) : text.length ≤ (text.flatMap escape).length := by
  induction text with
  | nil => exact Nat.le_refl _
  | cons char text inductionHypothesis =>
      have one : 1 ≤ (escape char).length := by
        unfold escape
        repeat' split
        all_goals exact Nat.le_add_left 1 _
      rw [List.flatMap_cons, List.length_cons, List.length_append]
      omega

theorem reads_string (text : Text) : Reads (string text) (.string text) := by
  refine ⟨fun fuel rest enough _ => ?_, '"', _, rfl, by decide, by decide⟩
  obtain ⟨fuel, rfl⟩ : ∃ less, fuel = less + 1 := ⟨fuel - 1, by omega⟩
  have longer := length_le_flatMap_escape text
  simp only [string, List.length_cons, List.length_append, List.length_nil] at enough
  have body := @stringBody_flatMap text rest fuel (by omega)
  have start : skip (string text ++ rest) = '"' :: (text.flatMap escape ++ '"' :: rest) := by
    simp [skip, string, isSpace]
  rw [value, start]
  simp only [body, Option.map_some]

theorem reads_bool (value : Bool) : Reads (bool value) (.bool value) := by
  constructor
  · intro fuel rest enough _
    obtain ⟨fuel, rfl⟩ : ∃ less, fuel = less + 1 := ⟨fuel - 1, by omega⟩
    cases value <;> rfl
  · cases value
    · exact ⟨'f', _, rfl, by decide, by decide⟩
    · exact ⟨'t', _, rfl, by decide, by decide⟩

theorem takeWhile_append_stop {accepts : Char → Bool} {text rest : Text}
    (all : ∀ char ∈ text, accepts char = true)
    (stop : ∀ char, rest.head? = some char → accepts char = false) :
    (text ++ rest).takeWhile accepts = text ∧ (text ++ rest).dropWhile accepts = rest := by
  rw [List.takeWhile_append_of_pos all, List.dropWhile_append_of_pos all]
  cases rest with
  | nil => exact ⟨List.append_nil _, rfl⟩
  | cons char rest =>
      have ends := stop char rfl
      rw [List.takeWhile_cons_of_neg (by simp [ends]), List.dropWhile_cons_of_neg (by simp [ends]),
        List.append_nil]
      exact ⟨rfl, rfl⟩

/-- The digits of a number are read to their end. -/
theorem number_decimal (whole : Nat) {rest : Text} (stops : Stops rest) :
    number (Text.decimal whole ++ rest) = some (Text.decimal whole, rest) := by
  obtain ⟨taken, dropped⟩ := @takeWhile_append_stop Char.isDigit (Text.decimal whole) rest
    (fun _ => Text.isDigit_of_mem_decimal) fun char first => (stops char first).1
  have some : (Text.decimal whole).isEmpty = false :=
    List.isEmpty_eq_false_iff.mpr (Text.decimal_ne_nil whole)
  have noZero : ¬((Text.decimal whole).head? = Option.some '0' ∧
      (Text.decimal whole).length ≠ 1) := by
    rintro ⟨zero, long⟩
    rcases Nat.eq_zero_or_pos whole with rfl | positive
    · exact long rfl
    · exact Text.head?_decimal_ne positive zero
  have wholePart : wholeDigits (Text.decimal whole ++ rest) =
      Option.some (Text.decimal whole, rest) := by
    simp [wholeDigits, digits, taken, dropped, some, noZero]
  have noFraction : fraction rest = Option.some ([], rest) := by
    unfold fraction
    split
    next => exact absurd rfl (stops '.' rfl).2.1
    next => rfl
  have noExponent : exponent rest = Option.some ([], rest) := by
    cases rest with
    | nil => rfl
    | cons char rest =>
        obtain ⟨-, -, notLower, notUpper⟩ := stops char rfl
        simp [exponent, notLower, notUpper]
  have noSign : ∀ after, Text.decimal whole ++ rest ≠ '-' :: after := by
    intro after same
    cases shape : Text.decimal whole with
    | nil => exact Text.decimal_ne_nil whole shape
    | cons char chars =>
        have digit : char.isDigit = true := by
          refine @Text.isDigit_of_mem_decimal whole char ?_
          rw [shape]
          exact List.mem_cons_self
        rw [shape] at same
        rw [(List.cons.inj same).1] at digit
        exact absurd digit (by decide)
  unfold number
  split
  next sign text shape =>
    split at shape
    next after same => exact absurd same (noSign after)
    next =>
      obtain ⟨rfl, rfl⟩ := Prod.mk.inj shape
      simp [wholePart, noFraction, noExponent]

theorem isSpace_eq_false {char : Char} (visible : 0x20 < char.toNat) : isSpace char = false := by
  simp only [isSpace, Bool.or_eq_false_iff, decide_eq_false_iff_not]
  refine ⟨⟨⟨?_, ?_⟩, ?_⟩, ?_⟩ <;> rintro rfl <;> exact absurd visible (by decide)

theorem skip_cons {char : Char} (visible : isSpace char = false) (rest : Text) :
    skip (char :: rest) = char :: rest := by
  rw [skip, List.dropWhile_cons_of_neg (by simp [visible])]

theorem isSpace_digit {char : Char} (digit : char.isDigit = true) : isSpace char = false := by
  refine isSpace_eq_false ?_
  have above : 48 ≤ char.toNat := by
    simp only [Char.isDigit, Bool.and_eq_true, decide_eq_true_eq] at digit
    exact UInt32.le_iff_toNat_le.mp digit.1
  omega

theorem reads_number (whole : Nat) : Reads (Text.decimal whole) (.number (Text.decimal whole)) := by
  obtain ⟨char, chars, shape⟩ := List.exists_cons_of_ne_nil (Text.decimal_ne_nil whole)
  have digit : char.isDigit = true := by
    refine @Text.isDigit_of_mem_decimal whole char ?_
    rw [shape]
    exact List.mem_cons_self
  have other : ∀ {barred : Char}, barred.isDigit = false → char ≠ barred := by
    rintro barred notDigit rfl
    rw [digit] at notDigit
    cases notDigit
  have solid := isSpace_digit digit
  refine ⟨fun fuel rest enough stops => ?_, char, chars, shape, solid, other (by decide)⟩
  obtain ⟨fuel, rfl⟩ : ∃ less, fuel = less + 1 := ⟨fuel - 1, by omega⟩
  have read := number_decimal whole stops
  rw [shape, List.cons_append] at read
  rw [shape, value, List.cons_append, skip_cons solid]
  split
  next same => exact absurd (List.cons.inj same).1 (other (by decide))
  next same => exact absurd (List.cons.inj same).1 (other (by decide))
  next same => exact absurd (List.cons.inj same).1 (other (by decide))
  next same => exact absurd (List.cons.inj same).1 (other (by decide))
  next same => exact absurd (List.cons.inj same).1 (other (by decide))
  next same => exact absurd (List.cons.inj same).1 (other (by decide))
  next => rw [read, Option.map_some]

theorem stops_cons {char : Char} {rest : Text} (ends : char = ',' ∨ char = ']' ∨ char = '}') :
    Stops (char :: rest) := by
  intro first same
  obtain rfl := Option.some.inj same
  rcases ends with rfl | rfl | rfl <;> decide

/-- An array with spaces after its commas. -/
def spacedArray (pad : Text) (items : List Text) : Text :=
  '[' :: ((',' :: pad).intercalate items ++ [']'])

theorem skip_pad {pad : Text} (blank : ∀ char ∈ pad, isSpace char = true) (rest : Text) :
    skip (pad ++ rest) = skip rest := List.dropWhile_append_of_pos blank

theorem items_pad {pad : Text} (blank : ∀ char ∈ pad, isSpace char = true) (fuel : Nat)
    (rest : Text) : items fuel (pad ++ rest) = items fuel rest := by
  have same (fuel : Nat) : value fuel (pad ++ rest) = value fuel rest := by
    cases fuel with
    | zero => rfl
    | succ fuel => rw [value, value, skip_pad blank]
  cases fuel with
  | zero => rfl
  | succ fuel => rw [items, items, same]

theorem items_intercalate {pad : Text} (blank : ∀ char ∈ pad, isSpace char = true)
    {texts : List Text} {nodes : List Node} (reads : List.Forall₂ Reads texts nodes)
    (some : texts ≠ []) (rest : Text) {fuel : Nat}
    (enough : ((',' :: pad).intercalate texts).length + 1 < fuel) :
    items fuel ((',' :: pad).intercalate texts ++ ']' :: rest) = Option.some (nodes, rest) := by
  induction reads generalizing fuel with
  | nil => exact absurd rfl some
  | @cons text node texts nodes read later inductionHypothesis =>
      obtain ⟨fuel, rfl⟩ : ∃ less, fuel = less + 1 := ⟨fuel - 1, by omega⟩
      cases later with
      | nil =>
          rw [List.intercalate_singleton] at enough ⊢
          rw [items, read.value_append fuel _ (by omega) (stops_cons (.inr (.inl rfl)))]
          rfl
      | @cons next nextNode texts nodes _ _ =>
          rw [List.intercalate_cons_cons, List.length_append, List.length_append,
            List.length_cons] at enough
          rw [List.intercalate_cons_cons, List.append_assoc, List.append_assoc, List.cons_append,
            items, read.value_append fuel _ (by omega) (stops_cons (.inl rfl))]
          have others := @inductionHypothesis (List.cons_ne_nil _ _) fuel (by omega)
          simp only [skip_cons (show isSpace ',' = false by decide), items_pad blank, others,
            Option.map_some]

theorem reads_spacedArray {pad : Text} (blank : ∀ char ∈ pad, isSpace char = true)
    {texts : List Text} {nodes : List Node} (reads : List.Forall₂ Reads texts nodes) :
    Reads (spacedArray pad texts) (.array nodes) := by
  refine ⟨fun fuel rest enough _ => ?_, '[', _, rfl, by decide, by decide⟩
  obtain ⟨fuel, rfl⟩ : ∃ less, fuel = less + 1 := ⟨fuel - 1, by omega⟩
  rw [spacedArray, List.cons_append, value, skip_cons (by decide), List.append_assoc,
    List.singleton_append]
  cases reads with
  | nil =>
      simp only [List.intercalate_nil, List.nil_append,
        skip_cons (show isSpace ']' = false by decide)]
  | @cons text node texts nodes read later =>
      obtain ⟨char, chars, shape, solid, notEnd⟩ := read.starts
      obtain ⟨more, begins⟩ : ∃ more, (',' :: pad).intercalate (text :: texts) = char :: more := by
        cases texts with
        | nil => exact ⟨chars, by rw [List.intercalate_singleton, shape]⟩
        | cons next texts =>
            exact ⟨_, by rw [List.intercalate_cons_cons, shape, List.append_assoc,
              List.cons_append]⟩
      have read := @items_intercalate _ blank (text :: texts) (node :: nodes) (.cons read later)
        (List.cons_ne_nil _ _) rest fuel (by
          simp only [spacedArray, List.length_cons, List.length_append, List.length_nil] at enough
          omega)
      rw [begins, List.cons_append] at read ⊢
      simp only [skip_cons solid]
      split
      next same => exact absurd (List.cons.inj same).1 notEnd
      next => rw [read, Option.map_some]

theorem reads_array {texts : List Text} {nodes : List Node}
    (reads : List.Forall₂ Reads texts nodes) : Reads (array texts) (.array nodes) :=
  @reads_spacedArray [] nofun _ _ reads

def ReadsEntry (member : Text × Text) (read : Text × Node) : Prop :=
  member.1 = read.1 ∧ Reads member.2 read.2

/-- The name of a member is read up to its colon. -/
theorem stringBody_entry (name text rest : Text) {fuel : Nat}
    (enough : (entry (name, text)).length < fuel + 2) : ∃ body,
      entry (name, text) ++ rest = '"' :: body ∧
        stringBody fuel body = some (name, ':' :: (text ++ rest)) := by
  have long := length_le_flatMap_escape name
  simp only [entry, string, List.length_append, List.length_cons, List.length_nil] at enough
  exact ⟨_, by simp only [entry, string, List.cons_append, List.append_assoc, List.nil_append],
    stringBody_flatMap name (':' :: (text ++ rest)) (by omega)⟩

theorem members_join {texts : List (Text × Text)} {nodes : List (Text × Node)}
    (reads : List.Forall₂ ReadsEntry texts nodes) (some : texts ≠ []) (rest : Text) {fuel : Nat}
    (enough : (Text.join ',' (texts.map entry)).length + 1 < fuel) :
    members fuel (Text.join ',' (texts.map entry) ++ '}' :: rest) =
      Option.some (nodes, rest) := by
  induction reads generalizing fuel with
  | nil => exact absurd rfl some
  | @cons member node texts nodes read later inductionHypothesis =>
      obtain ⟨name, text⟩ := member
      obtain ⟨nodeName, node⟩ := node
      obtain ⟨same, value⟩ := read
      obtain rfl : name = nodeName := same
      obtain ⟨fuel, rfl⟩ : ∃ less, fuel = less + 1 := ⟨fuel - 1, by omega⟩
      have shorter : text.length < (entry (name, text)).length := by
        simp only [entry, List.length_append, List.length_cons]
        omega
      have quote : isSpace '"' = false := by decide
      have colon : isSpace ':' = false := by decide
      cases later with
      | nil =>
          rw [List.map_singleton, Text.join_singleton] at enough ⊢
          obtain ⟨body, begins, read⟩ := @stringBody_entry name text ('}' :: rest) fuel (by omega)
          have valueRead := value.value_append fuel ('}' :: rest) (by
            change text.length < fuel
            omega) (stops_cons (.inr (.inr rfl)))
          rw [begins, members, skip_cons quote]
          simp only [read, skip_cons colon, valueRead, skip_cons (show isSpace '}' = false by decide)]
      | @cons next nextNode texts nodes _ _ =>
          rw [List.map_cons, List.map_cons, Text.join_cons_cons, List.length_append,
            List.length_cons, ← List.map_cons] at enough
          have others := @inductionHypothesis (List.cons_ne_nil _ _) fuel (by omega)
          rw [List.map_cons, List.map_cons, Text.join_cons_cons, ← List.map_cons,
            List.append_assoc, List.cons_append]
          obtain ⟨body, begins, read⟩ := @stringBody_entry name text
            (',' :: (Text.join ',' ((next :: texts).map entry) ++ '}' :: rest)) fuel (by omega)
          have valueRead := value.value_append fuel
            (',' :: (Text.join ',' ((next :: texts).map entry) ++ '}' :: rest)) (by
              change text.length < fuel
              omega) (stops_cons (.inl rfl))
          rw [begins, members, skip_cons quote]
          simp only [read, skip_cons colon, valueRead, skip_cons (show isSpace ',' = false by decide),
            others, Option.map_some]

theorem reads_object {texts : List (Text × Text)} {nodes : List (Text × Node)}
    (reads : List.Forall₂ ReadsEntry texts nodes) : Reads (object texts) (.object nodes) := by
  refine ⟨fun fuel rest enough _ => ?_, '{', _, rfl, by decide, by decide⟩
  obtain ⟨fuel, rfl⟩ : ∃ less, fuel = less + 1 := ⟨fuel - 1, by omega⟩
  rw [object, List.cons_append, value, skip_cons (by decide), List.append_assoc,
    List.singleton_append]
  cases reads with
  | nil =>
      simp only [List.map_nil, Text.join_nil, List.nil_append,
        skip_cons (show isSpace '}' = false by decide)]
  | @cons member node texts nodes read later =>
      obtain ⟨more, begins⟩ : ∃ more,
          Text.join ',' ((member :: texts).map entry) = '"' :: more := by
        cases texts with
        | nil => exact ⟨_, by rw [List.map_singleton, Text.join_singleton]; rfl⟩
        | cons next texts =>
            exact ⟨_, by rw [List.map_cons, List.map_cons, Text.join_cons_cons]; rfl⟩
      have read := @members_join (member :: texts) (node :: nodes) (.cons read later)
        (List.cons_ne_nil _ _) rest fuel (by
          simp only [object, List.length_cons, List.length_append, List.length_nil] at enough ⊢
          omega)
      rw [begins, List.cons_append] at read ⊢
      simp only [skip_cons (show isSpace '"' = false by decide)]
      split
      next same => exact absurd (List.cons.inj same).1 (by decide)
      next => rw [read, Option.map_some]

/-! ### The characters written -/

/-- A character that stands for itself in ASCII. -/
def Visible (char : Char) : Prop := 0x20 ≤ char.toNat ∧ char.toNat < 0x7F

theorem mem_escape {char written : Char} (held : written ∈ escape char) :
    Visible written ∨ written = char ∧ 0x20 ≤ char.toNat := by
  have visible : ∀ digit < 16, Visible (hexDigit digit) := by
    unfold Visible
    decide
  unfold escape at held
  repeat' split at held
  case isFalse.isFalse.isFalse.isFalse.isFalse.isFalse.isFalse.isTrue control =>
    have high := visible (char.toNat / 16) (by omega)
    have low := visible (char.toNat % 16) (by omega)
    simp only [List.mem_cons, List.not_mem_nil, or_false] at held
    rcases held with rfl | rfl | rfl | rfl | rfl | rfl
    · exact .inl ⟨by decide, by decide⟩
    · exact .inl ⟨by decide, by decide⟩
    · exact .inl ⟨by decide, by decide⟩
    · exact .inl ⟨by decide, by decide⟩
    · exact .inl high
    · exact .inl low
  case isFalse.isFalse.isFalse.isFalse.isFalse.isFalse.isFalse.isFalse notControl =>
    exact .inr ⟨List.mem_singleton.mp held, by omega⟩
  all_goals
    simp only [List.mem_cons, List.not_mem_nil, or_false] at held
    rcases held with rfl | rfl <;> exact .inl ⟨by decide, by decide⟩

/-- A string written holds its own characters, the controls apart, and visible ones. -/
theorem mem_string {text : Text} {written : Char} (held : written ∈ string text) :
    Visible written ∨ written ∈ text ∧ 0x20 ≤ written.toNat := by
  rcases List.mem_cons.mp held with rfl | inside
  · exact .inl ⟨by decide, by decide⟩
  rcases List.mem_append.mp inside with inText | last
  · obtain ⟨char, inText, inEscape⟩ := List.mem_flatMap.mp inText
    exact (mem_escape inEscape).imp_right fun ⟨same, above⟩ => same ▸ ⟨inText, above⟩
  · exact List.mem_singleton.mp last ▸ .inl ⟨by decide, by decide⟩

/-- No other character of a string is lost. -/
theorem mem_string_of_mem {text : Text} {char : Char} (held : char ∈ text)
    (other : 0x7F ≤ char.toNat) : char ∈ string text := by
  refine List.mem_cons_of_mem _ (List.mem_append_left _ (List.mem_flatMap.mpr ⟨char, held, ?_⟩))
  have differs : ∀ {barred : Char}, barred.toNat < 0x7F → char ≠ barred := by
    rintro barred below rfl
    omega
  rw [escape, if_neg (differs (by decide)), if_neg (differs (by decide)), if_neg (by omega),
    if_neg (by omega), if_neg (differs (by decide)), if_neg (differs (by decide)),
    if_neg (differs (by decide)), if_neg (by omega)]
  exact List.mem_singleton_self char

theorem mem_array {items : List Text} {written : Char} (held : written ∈ array items) :
    Visible written ∨ ∃ item ∈ items, written ∈ item := by
  rcases List.mem_cons.mp held with rfl | inside
  · exact .inl ⟨by decide, by decide⟩
  rcases List.mem_append.mp inside with inItems | last
  · rcases Text.mem_join inItems with rfl | found
    · exact .inl ⟨by decide, by decide⟩
    · exact .inr found
  · exact List.mem_singleton.mp last ▸ .inl ⟨by decide, by decide⟩

theorem mem_object {members : List (Text × Text)} {written : Char}
    (held : written ∈ object members) :
    Visible written ∨ ∃ member ∈ members, written ∈ member.1 ∨ written ∈ member.2 := by
  rcases List.mem_cons.mp held with rfl | inside
  · exact .inl ⟨by decide, by decide⟩
  rcases List.mem_append.mp inside with inMembers | last
  · rcases Text.mem_join inMembers with rfl | ⟨text, inTexts, inText⟩
    · exact .inl ⟨by decide, by decide⟩
    obtain ⟨member, inMembers, rfl⟩ := List.mem_map.mp inTexts
    rcases List.mem_append.mp inText with inName | inValue
    · exact (mem_string inName).imp_right fun ⟨found, _⟩ => ⟨member, inMembers, .inl found⟩
    · rcases List.mem_cons.mp inValue with rfl | inValue
      · exact .inl ⟨by decide, by decide⟩
      · exact .inr ⟨member, inMembers, .inr inValue⟩
  · exact List.mem_singleton.mp last ▸ .inl ⟨by decide, by decide⟩

theorem mem_object_of_mem {members : List (Text × Text)} {member : Text × Text} {char : Char}
    (inMembers : member ∈ members) (held : char ∈ member.2) : char ∈ object members := by
  refine List.mem_cons_of_mem _ (List.mem_append_left _ (Text.mem_join_of_mem ','
    (List.mem_map_of_mem inMembers) ?_))
  exact List.mem_append_right _ (List.mem_cons_of_mem _ held)

end ServerBox.Std.JsonText
