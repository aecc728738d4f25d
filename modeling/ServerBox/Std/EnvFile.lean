import Std.Data.TreeMap.Lemmas
import ServerBox.Std.Text

/-!
# Env files

An env file as Docker Compose reads it: comments, blank lines and `NAME=value`, the value
unquoted or single-quoted. A single-quoted value is taken as it stands, lines included,
except that a backslash before a quote makes the quote part of it. What interpolation makes
of an unquoted value, and how a double-quoted one reads, is left open.
-/

namespace ServerBox.Std

namespace EnvFile

/-! ### Reading -/

/-- The rules left open. -/
structure Rules where
  expand : Text → Text
  doubleQuoted : Text → Option (Text × Text)

def isNameChar (char : Char) : Bool :=
  char.isAlphanum || char ∈ ['_', '.', '-', '[', ']']

/-- Whitespace that ends no line. -/
def isBlank (char : Char) : Bool := Text.isWhitespace char && char ≠ '\n'

/-- A value after its opening quote, `escaped` when a backslash stands before it: what it
holds, and what comes after its closing quote. -/
def singleQuoted : Bool → Text → Option (Text × Text)
  | _, [] => none
  | false, char :: rest =>
      if char = '\'' then some ([], rest)
      else if char = '\\' then singleQuoted true rest
      else (singleQuoted false rest).map fun (value, after) => (char :: value, after)
  | true, char :: rest =>
      (singleQuoted false rest).map fun (value, after) =>
        (if char = '\'' then char :: value else '\\' :: char :: value, after)

/-- An unquoted line without the comment at its end. -/
def withoutComment : Text → Text
  | ' ' :: '#' :: _ => []
  | char :: rest => char :: withoutComment rest
  | [] => []

def value (rules : Rules) : Text → Option (Text × Text)
  | '\'' :: quoted => singleQuoted false quoted
  | '"' :: quoted => rules.doubleQuoted quoted
  | text =>
      let line := text.takeWhile (· ≠ '\n')
      some (rules.expand (Text.trimEnd (withoutComment line)), text.drop line.length)

def statements (rules : Rules) : Nat → Text → Option (List (Text × Text))
  | 0, _ => none
  | fuel + 1, text =>
      match Text.trimStart text with
      | [] => some []
      | '#' :: comment => statements rules fuel (comment.dropWhile (· ≠ '\n'))
      | body =>
          let name := body.takeWhile isNameChar
          match body.drop name.length with
          | '=' :: after => do
              let (held, rest) ← value rules (after.dropWhile isBlank)
              return (name, held) :: (← statements rules fuel rest)
          | _ => none

/-- The entries of an env file, in order; `none` when it is not one. -/
def read (rules : Rules) (text : Text) : Option (List (Text × Text)) :=
  statements rules (text.length + 1) text

example (rules : Rules) : read rules "# note".toList = some [] := by
  rw [read, statements]
  rfl

/-! ### Writing -/

/-- One entry, its value single-quoted as it stands. -/
def entry (name held : Text) : Text := name ++ "='".toList ++ held ++ "'\n".toList

def write (entries : List (Text × Text)) : Text := entries.flatMap fun pair => entry pair.1 pair.2

/-- Whether every backslash at the end of a value stands before another one or after one. -/
def evenBackslashes (held : Text) : Bool :=
  (held.reverse.takeWhile (· == '\\')).length % 2 == 0

theorem evenBackslashes_of_not_mem {held : Text} (none : '\\' ∉ held) :
    evenBackslashes held = true := by
  have empty : held.reverse.takeWhile (· == '\\') = [] := by
    rw [List.takeWhile_eq_nil_iff]
    intro some first
    exact none (List.mem_reverse.mp (beq_iff_eq.mp first ▸ List.getElem_mem some))
  simp [evenBackslashes, empty]

/-! ### Single quotes -/

/-- Whether the character after a text is escaped. -/
def escapes (escaped : Bool) (held : Text) : Bool :=
  held.foldl (fun escaped char => !escaped && char == '\\') escaped

theorem escapes_cons (escaped : Bool) (char : Char) (held : Text) :
    escapes escaped (char :: held) = escapes (!escaped && char == '\\') held := rfl

theorem escapes_append_singleton (escaped : Bool) (held : Text) (char : Char) :
    escapes escaped (held ++ [char]) = (!escapes escaped held && char == '\\') := by
  simp [escapes]

/-- The quote after a value is escaped when an odd number of backslashes stand before it. -/
theorem escapes_eq (held : Text) : escapes false held = !evenBackslashes held := by
  induction held using List.reverseRecOn with
  | nil => rfl
  | append_singleton front last inductionHypothesis =>
      rw [escapes_append_singleton, inductionHypothesis]
      by_cases backslash : last = '\\'
      · subst backslash
        simp only [evenBackslashes, List.reverse_append, List.reverse_singleton,
          List.singleton_append, List.takeWhile_cons, beq_self_eq_true, if_true,
          List.length_cons, Bool.not_not, Bool.and_true]
        rcases Nat.mod_two_eq_zero_or_one
          (front.reverse.takeWhile (· == '\\')).length with even | odd
        · simp [even, Nat.add_mod]
        · simp [odd, Nat.add_mod]
      · simp [evenBackslashes, backslash]

/-- A value that escapes no quote after it is read as it stands. -/
theorem singleQuoted_append {held : Text} (noQuote : '\'' ∉ held) (escaped : Bool)
    (closes : escapes escaped held = false) (rest : Text) :
    singleQuoted escaped (held ++ '\'' :: rest) =
      some (if escaped then '\\' :: held else held, rest) := by
  induction held generalizing escaped with
  | nil =>
      cases escaped with
      | false => rfl
      | true => cases closes
  | cons char others inductionHypothesis =>
      have ⟨plain, noQuoteAfter⟩ : char ≠ '\'' ∧ '\'' ∉ others := by
        simpa [eq_comm] using noQuote
      cases escaped with
      | false =>
          by_cases backslash : char = '\\'
          · subst backslash
            have tail := inductionHypothesis noQuoteAfter true closes
            simpa [singleQuoted] using tail
          · have other : (char == '\\') = false := by simpa using backslash
            rw [escapes_cons, other] at closes
            have tail := inductionHypothesis noQuoteAfter false closes
            simp [singleQuoted, plain, backslash, tail]
      | true =>
          have tail := inductionHypothesis noQuoteAfter false closes
          simp [singleQuoted, plain, tail]

/-- After a value that escapes the quote after it, what is read holds that quote. -/
theorem quote_mem_of_escapes {held : Text} (noQuote : '\'' ∉ held) (escaped : Bool)
    (opens : escapes escaped held = true) {rest read after : Text}
    (isRead : singleQuoted escaped (held ++ '\'' :: rest) = some (read, after)) :
    '\'' ∈ read := by
  induction held generalizing escaped read with
  | nil =>
      cases escaped with
      | false => cases opens
      | true =>
          simp only [List.nil_append, singleQuoted, if_true, Option.map_eq_some_iff,
            Prod.mk.injEq, Prod.exists] at isRead
          obtain ⟨tail, _, -, rfl, -⟩ := isRead
          exact List.mem_cons_self
  | cons char others inductionHypothesis =>
      have ⟨plain, noQuoteAfter⟩ : char ≠ '\'' ∧ '\'' ∉ others := by
        simpa [eq_comm] using noQuote
      cases escaped with
      | false =>
          by_cases backslash : char = '\\'
          · subst backslash
            exact inductionHypothesis noQuoteAfter true opens (by simpa [singleQuoted] using isRead)
          · simp only [List.cons_append, singleQuoted, if_neg plain, if_neg backslash,
              Option.map_eq_some_iff, Prod.mk.injEq, Prod.exists] at isRead
            obtain ⟨tail, rest, tailRead, rfl, rfl⟩ := isRead
            have other : (char == '\\') = false := by simpa using backslash
            rw [escapes_cons, other] at opens
            exact List.mem_cons_of_mem _ (inductionHypothesis noQuoteAfter false opens tailRead)
      | true =>
          simp only [List.cons_append, singleQuoted, if_neg plain, Option.map_eq_some_iff,
            Prod.mk.injEq, Prod.exists] at isRead
          obtain ⟨tail, rest, tailRead, rfl, rfl⟩ := isRead
          exact List.mem_cons_of_mem _ (List.mem_cons_of_mem _
            (inductionHypothesis noQuoteAfter false opens tailRead))

/-! ### Round trip -/

/-- A name that an entry can be written under. -/
def Name (name : Text) : Prop := name ≠ [] ∧ ∀ char ∈ name, isNameChar char = true

theorem not_isWhitespace_of_isNameChar {char : Char} (named : isNameChar char = true) :
    Text.isWhitespace char = false := by
  rcases Bool.or_eq_true_iff.mp named with alphanumeric | sign
  · exact Text.not_isWhitespace_of_isAlphanum alphanumeric
  · simp only [List.mem_cons, List.not_mem_nil, or_false, decide_eq_true_eq] at sign
    rcases sign with rfl | rfl | rfl | rfl | rfl <;> decide

theorem statements_trimStart (rules : Rules) (fuel : Nat) {left right : Text}
    (same : Text.trimStart left = Text.trimStart right) :
    statements rules fuel left = statements rules fuel right := by
  cases fuel with
  | zero => rfl
  | succ fuel => rw [statements, statements, same]

/-- One written entry is read as the value after its opening quote, and then the rest. -/
theorem statements_entry (rules : Rules) (fuel : Nat) {name : Text} (named : Name name)
    (held rest : Text) :
    statements rules (fuel + 1) (entry name held ++ rest) =
      (singleQuoted false (held ++ '\'' :: '\n' :: rest)).bind fun (read, after) =>
        (statements rules fuel after).map fun others => (name, read) :: others := by
  have shape : entry name held ++ rest = name ++ '=' :: '\'' :: (held ++ '\'' :: '\n' :: rest) := by
    simp [entry]
  have taken : (name ++ '=' :: '\'' :: (held ++ '\'' :: '\n' :: rest)).takeWhile isNameChar =
      name := by
    rw [List.takeWhile_append_of_pos named.2]
    simp [isNameChar]
  obtain ⟨some, allNamed⟩ := named
  cases name with
  | nil => exact absurd rfl some
  | cons first others =>
      have firstNamed := allNamed first List.mem_cons_self
      have solid := not_isWhitespace_of_isNameChar firstNamed
      have notComment : first ≠ '#' := by
        rintro rfl
        cases firstNamed
      have untrimmed : Text.trimStart (entry (first :: others) held ++ rest) =
          entry (first :: others) held ++ rest := by
        simp [entry, Text.trimStart, solid]
      rw [statements, untrimmed, shape]
      split
      next empty => cases empty
      next comment => exact absurd (List.cons.inj comment).1 notComment
      next =>
          simp only [taken, List.drop_left]
          have opening : List.dropWhile isBlank ('\'' :: (held ++ '\'' :: '\n' :: rest)) =
              '\'' :: (held ++ '\'' :: '\n' :: rest) := rfl
          rw [opening, value]
          cases singleQuoted false (held ++ '\'' :: '\n' :: rest) with
          | none => rfl
          | some parts => cases tail : statements rules fuel parts.2 <;> simp [tail]

/-- Entries are read back when their values hold no quote and escape none. -/
theorem statements_write (rules : Rules) {entries : List (Text × Text)}
    (named : ∀ pair ∈ entries, Name pair.1) (noQuotes : ∀ pair ∈ entries, '\'' ∉ pair.2)
    (even : ∀ pair ∈ entries, evenBackslashes pair.2 = true) {fuel : Nat}
    (enough : entries.length < fuel) :
    statements rules fuel (write entries) = some entries := by
  induction entries generalizing fuel with
  | nil =>
      obtain ⟨fuel, rfl⟩ : ∃ more, fuel = more + 1 := ⟨fuel - 1, by simp at enough; omega⟩
      simp [statements, write, Text.trimStart]
  | cons pair others inductionHypothesis =>
      obtain ⟨fuel, rfl⟩ : ∃ more, fuel = more + 1 := ⟨fuel - 1, by omega⟩
      rw [List.forall_mem_cons] at named noQuotes even
      have closes : escapes false pair.2 = false := by rw [escapes_eq, even.1]; rfl
      have next : statements rules fuel ('\n' :: write others) =
          statements rules fuel (write others) := statements_trimStart rules fuel rfl
      have tail := inductionHypothesis named.2 noQuotes.2 even.2
        (show others.length < fuel by simpa using enough)
      have shape : write (pair :: others) = entry pair.1 pair.2 ++ write others := rfl
      rw [shape, statements_entry rules fuel named.1, singleQuoted_append noQuotes.1 false closes]
      simp [next, tail]

/-- Where what is read holds no quote either, no value ended in an odd number of
backslashes. -/
theorem evenBackslashes_of_statements_write (rules : Rules) {entries : List (Text × Text)}
    (named : ∀ pair ∈ entries, Name pair.1) (noQuotes : ∀ pair ∈ entries, '\'' ∉ pair.2)
    {fuel : Nat} {got : List (Text × Text)}
    (isRead : statements rules fuel (write entries) = some got)
    (plain : ∀ pair ∈ got, '\'' ∉ pair.2) :
    ∀ pair ∈ entries, evenBackslashes pair.2 = true := by
  induction entries generalizing fuel got with
  | nil => exact nofun
  | cons pair others inductionHypothesis =>
      rw [List.forall_mem_cons] at named noQuotes ⊢
      cases fuel with
      | zero => cases isRead
      | succ fuel =>
          have shape : write (pair :: others) = entry pair.1 pair.2 ++ write others := rfl
          rw [shape, statements_entry rules fuel named.1] at isRead
          obtain ⟨⟨read, after⟩, isValue, rest⟩ := Option.bind_eq_some_iff.mp isRead
          obtain ⟨tail, tailRead, rfl⟩ := Option.map_eq_some_iff.mp rest
          rw [List.forall_mem_cons] at plain
          cases even : evenBackslashes pair.2 with
          | true =>
              have closes : escapes false pair.2 = false := by rw [escapes_eq, even]; rfl
              rw [singleQuoted_append noQuotes.1 false closes] at isValue
              obtain ⟨rfl, rfl⟩ := Prod.mk.inj (Option.some.inj isValue)
              have next : statements rules fuel ('\n' :: write others) =
                  statements rules fuel (write others) := statements_trimStart rules fuel rfl
              exact ⟨rfl, inductionHypothesis named.2 noQuotes.2 (next ▸ tailRead) plain.2⟩
          | false =>
              have opens : escapes false pair.2 = true := by rw [escapes_eq, even]; rfl
              exact absurd (quote_mem_of_escapes noQuotes.1 false opens isValue) plain.1

/-- A comment line is skipped. -/
theorem read_comment (rules : Rules) {comment : Text} (oneLine : '\n' ∉ comment) (rest : Text) :
    read rules ('#' :: comment ++ '\n' :: rest) =
      statements rules (comment.length + rest.length + 2) rest := by
  have skipped : (comment ++ '\n' :: rest).dropWhile (· ≠ '\n') = '\n' :: rest := by
    have inLine : ∀ char ∈ comment, decide (char ≠ '\n') = true := by
      intro char held
      exact decide_eq_true fun same => oneLine (same ▸ held)
    rw [List.dropWhile_append_of_pos inLine]
    rfl
  have untrimmed : Text.trimStart ('#' :: (comment ++ '\n' :: rest)) =
      '#' :: (comment ++ '\n' :: rest) := rfl
  rw [read, statements, List.cons_append, untrimmed]
  simp only [skipped]
  rw [statements_trimStart rules _ (show Text.trimStart ('\n' :: rest) =
    Text.trimStart rest from rfl)]
  congr 1
  simp only [List.length_cons, List.length_append]
  omega

theorem length_le_length_write (entries : List (Text × Text)) :
    entries.length ≤ (write entries).length := by
  induction entries with
  | nil => exact Nat.zero_le _
  | cons pair others inductionHypothesis =>
      have quotes : "='".toList.length = 2 := rfl
      simp only [write, List.flatMap_cons, entry, List.length_append, List.length_cons]
        at inductionHypothesis ⊢
      omega

/-- Whether an env file defines each name once and gives exactly the values. -/
def Means (rules : Rules) (text : Text) (values : Std.TreeMap Text Text) : Prop :=
  ∃ entries, read rules text = some entries ∧ (entries.map (·.1)).Nodup ∧
    ∀ name value, (name, value) ∈ entries ↔ values[name]? = some value

/-- Values written below a comment line are what the file means just when none of them ends
in an odd number of backslashes. -/
theorem means_write_iff (rules : Rules) {comment : Text} (oneLine : '\n' ∉ comment)
    {values : Std.TreeMap Text Text} (named : ∀ pair ∈ values.toList, Name pair.1)
    (noQuotes : ∀ pair ∈ values.toList, '\'' ∉ pair.2) :
    Means rules ('#' :: comment ++ '\n' :: write values.toList) values ↔
      ∀ pair ∈ values.toList, evenBackslashes pair.2 = true := by
  rw [Means, read_comment rules oneLine]
  constructor
  · rintro ⟨entries, isRead, -, same⟩
    refine evenBackslashes_of_statements_write rules named noQuotes isRead fun pair held => ?_
    exact noQuotes pair (Std.TreeMap.mem_toList_iff_getElem?_eq_some.mpr
      ((same pair.1 pair.2).mp held))
  · intro even
    refine ⟨values.toList, statements_write rules named noQuotes even ?_, ?_, fun name value =>
      Std.TreeMap.mem_toList_iff_getElem?_eq_some⟩
    · have longer := length_le_length_write values.toList
      omega
    · rw [Std.TreeMap.map_fst_toList_eq_keys]
      exact Std.TreeMap.nodup_keys

end EnvFile

end ServerBox.Std
