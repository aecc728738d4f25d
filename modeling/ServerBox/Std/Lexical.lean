import ServerBox.Std.Text

/-!
# Reading a configuration into tokens

A configuration file is read one character at a time into words, quoted strings and marks, with
comments from a `#` where a word could begin to the end of the line. A `Lexis` says which
characters do what. A reading keeps beside the tokens the text outside comments, so that what a
text holds can be told from what it says.
-/

namespace ServerBox.Std

/-- The characters that a configuration language gives a meaning. -/
structure Lexis where
  /-- Stands between words. -/
  isBlank : Char → Bool
  /-- Ends a line, and a comment. -/
  isBreak : Char → Bool
  /-- Is a token by itself, and ends a word. -/
  isMark : Char → Bool
  /-- Begins a quoted string where a word could begin, and ends it. -/
  isQuote : Char → Bool
  /-- Whether a backslash takes the next character as it is: in such quotes, or outside. -/
  escapes : Option Char → Bool

inductive Token where
  /-- A line that holds something, and how far it is indented. -/
  | line (indent : Nat)
  | word (text : Text)
  | quoted (text : Text)
  | mark (char : Char)
  deriving DecidableEq

/-- Where the reading of a text stands. -/
inductive Place where
  | start (indent : Nat)
  | between
  | word (begun : Text)
  | quoted (quote : Char) (begun : Text)
  | escaped (quote : Option Char) (begun : Text)
  | comment
  deriving DecidableEq

/-- What a text was read as: where it ends, its characters outside comments, and its tokens. -/
structure Reading where
  place : Place
  kept : Text
  tokens : List Token
  deriving DecidableEq

namespace Lexis

/-- A character where a word could begin. -/
def begins (lexis : Lexis) (char : Char) : Place × List Token :=
  if lexis.isQuote char then (.quoted char [], [])
  else if lexis.isMark char then (.between, [.mark char])
  else if char = '\\' && lexis.escapes none then (.escaped none [], [])
  else (.word [char], [])

def step (lexis : Lexis) : Place → Char → Place × List Token
  | .start indent, char =>
      if lexis.isBreak char then (.start 0, [])
      else if lexis.isBlank char then (.start (indent + 1), [])
      else if char = '#' then (.comment, [])
      else ((lexis.begins char).1, .line indent :: (lexis.begins char).2)
  | .between, char =>
      if lexis.isBreak char then (.start 0, [])
      else if lexis.isBlank char then (.between, [])
      else if char = '#' then (.comment, [])
      else lexis.begins char
  | .word begun, char =>
      if lexis.isBreak char then (.start 0, [.word begun])
      else if lexis.isBlank char then (.between, [.word begun])
      else if lexis.isMark char then (.between, [.word begun, .mark char])
      else if char = '\\' && lexis.escapes none then (.escaped none begun, [])
      else (.word (begun ++ [char]), [])
  | .quoted quote begun, char =>
      if char = quote then (.between, [.quoted begun])
      else if char = '\\' && lexis.escapes (some quote) then (.escaped (some quote) begun, [])
      else (.quoted quote (begun ++ [char]), [])
  | .escaped none begun, char => (.word (begun ++ [char]), [])
  | .escaped (some quote) begun, char => (.quoted quote (begun ++ [char]), [])
  | .comment, char => if lexis.isBreak char then (.start 0, []) else (.comment, [])

def read (lexis : Lexis) (place : Place) : Text → Reading
  | [] => ⟨place, [], []⟩
  | char :: rest =>
      let next := lexis.step place char
      let reading := lexis.read next.1 rest
      ⟨reading.place, if next.1 = .comment then reading.kept else char :: reading.kept,
        next.2 ++ reading.tokens⟩

/-- A text without its comments. -/
def uncomment (lexis : Lexis) (text : Text) : Text := (lexis.read (.start 0) text).kept

/-- The tokens of a text, unless it ends inside quotes. -/
def tokens (lexis : Lexis) (text : Text) : Option (List Token) :=
  let reading := lexis.read (.start 0) text
  match reading.place with
  | .start _ | .between | .comment => some reading.tokens
  | .word begun | .escaped none begun => some (reading.tokens ++ [.word begun])
  | .quoted _ _ | .escaped (some _) _ => none

variable {lexis : Lexis}

theorem read_append (place : Place) (front back : Text) :
    lexis.read place (front ++ back) =
      let first := lexis.read place front
      let second := lexis.read first.place back
      ⟨second.place, first.kept ++ second.kept, first.tokens ++ second.tokens⟩ := by
  induction front generalizing place with
  | nil => rfl
  | cons char front inductionHypothesis =>
      simp only [List.cons_append, read, inductionHypothesis, List.append_assoc]
      split <;> rfl

/-- One reading after another. -/
theorem read_append_eq {place middle last : Place} {front back kept keptToo : Text}
    {tokens tokensToo : List Token} (first : lexis.read place front = ⟨middle, kept, tokens⟩)
    (second : lexis.read middle back = ⟨last, keptToo, tokensToo⟩) :
    lexis.read place (front ++ back) = ⟨last, kept ++ keptToo, tokens ++ tokensToo⟩ := by
  rw [read_append, first]
  simp only [second]

/-! ### Words -/

/-- A character that is only ever part of a word or of a quoted string. -/
def isPlain (lexis : Lexis) (char : Char) : Bool :=
  !(lexis.isBreak char || lexis.isBlank char || lexis.isMark char || lexis.isQuote char ||
    char = '\\' || char = '#')

theorem step_word_plain {char : Char} (plain : lexis.isPlain char = true) (begun : Text) :
    lexis.step (.word begun) char = (.word (begun ++ [char]), []) := by
  simp only [isPlain, Bool.not_eq_true', Bool.or_eq_false_iff, decide_eq_false_iff_not] at plain
  obtain ⟨⟨⟨⟨⟨notBreak, notBlank⟩, notMark⟩, _⟩, notEscape⟩, _⟩ := plain
  simp [step, notBreak, notBlank, notMark, notEscape]

theorem read_word_plain {text : Text} (plain : ∀ char ∈ text, lexis.isPlain char = true)
    (begun : Text) : lexis.read (.word begun) text = ⟨.word (begun ++ text), text, []⟩ := by
  induction text generalizing begun with
  | nil => rw [List.append_nil]; rfl
  | cons char text inductionHypothesis =>
      obtain ⟨first, later⟩ := List.forall_mem_cons.mp plain
      rw [read, step_word_plain first, inductionHypothesis later]
      simp

/-- A word where one could begin. -/
theorem read_between_plain {text : Text} (some : text ≠ [])
    (plain : ∀ char ∈ text, lexis.isPlain char = true) :
    lexis.read .between text = ⟨.word text, text, []⟩ := by
  obtain ⟨char, text, rfl⟩ := List.exists_cons_of_ne_nil some
  obtain ⟨first, later⟩ := List.forall_mem_cons.mp plain
  have begins : lexis.step .between char = (.word [char], []) := by
    simp only [isPlain, Bool.not_eq_true', Bool.or_eq_false_iff, decide_eq_false_iff_not] at first
    obtain ⟨⟨⟨⟨⟨notBreak, notBlank⟩, notMark⟩, notQuote⟩, notEscape⟩, notComment⟩ := first
    simp [step, Lexis.begins, notBreak, notBlank, notMark, notQuote, notEscape, notComment]
  rw [read, begins, read_word_plain later]
  rfl

/-- A line that begins with a word. -/
theorem read_start_plain {char : Char} (plain : lexis.isPlain char = true) (indent : Nat)
    (rest : Text) : lexis.read (.start indent) (char :: rest) =
      let reading := lexis.read .between (char :: rest)
      ⟨reading.place, reading.kept, .line indent :: reading.tokens⟩ := by
  simp only [isPlain, Bool.not_eq_true', Bool.or_eq_false_iff, decide_eq_false_iff_not] at plain
  obtain ⟨⟨⟨⟨⟨notBreak, notBlank⟩, notMark⟩, notQuote⟩, notEscape⟩, notComment⟩ := plain
  simp [read, step, begins, notBreak, notBlank, notMark, notQuote, notEscape, notComment]

/-- Words with a blank between them. -/
theorem read_join {words : List Text} (some : words ≠ [])
    (each : ∀ word ∈ words, word ≠ [] ∧ ∀ char ∈ word, lexis.isPlain char = true)
    {separator : Char} (blank : lexis.isBlank separator = true)
    (notBreak : lexis.isBreak separator = false) {rest : Text} {place : Place}
    {tokens : List Token}
    (ends : ∀ begun, lexis.read (.word begun) rest = ⟨place, rest, .word begun :: tokens⟩) :
    lexis.read .between (Text.join separator words ++ rest) =
      ⟨place, Text.join separator words ++ rest, words.map .word ++ tokens⟩ := by
  induction words with
  | nil => exact absurd rfl some
  | cons word words inductionHypothesis =>
      obtain ⟨⟨someWord, plain⟩, later⟩ := List.forall_mem_cons.mp each
      have first := read_between_plain someWord plain
      cases words with
      | nil =>
          rw [Text.join_singleton, read_append_eq first (ends word)]
          rfl
      | cons next words =>
          rw [Text.join_cons_cons, List.append_assoc, List.cons_append]
          have others := inductionHypothesis (List.cons_ne_nil _ _) later
          have step : lexis.step (.word word) separator = (.between, [.word word]) := by
            simp [Lexis.step, notBreak, blank]
          have next : lexis.read (.word word) (separator :: (Text.join separator (next :: words) ++
              rest)) = ⟨place, separator :: (Text.join separator (next :: words) ++ rest),
                .word word :: ((next :: words).map .word ++ tokens)⟩ := by
            rw [read, step, others]
            rfl
          rw [read_append_eq first next]
          rfl

/-- A string between its quotes. -/
theorem read_quoted {text : Text} {quote : Char}
    (plain : ∀ char ∈ text, char ≠ quote ∧ char ≠ '\\') (begun : Text) :
    lexis.read (.quoted quote begun) text = ⟨.quoted quote (begun ++ text), text, []⟩ := by
  induction text generalizing begun with
  | nil => rw [List.append_nil]; rfl
  | cons char text inductionHypothesis =>
      obtain ⟨⟨notQuote, notEscape⟩, later⟩ := List.forall_mem_cons.mp plain
      have step : lexis.step (.quoted quote begun) char = (.quoted quote (begun ++ [char]), []) := by
        simp [Lexis.step, notQuote, notEscape]
      rw [read, step, inductionHypothesis later]
      simp

/-! ### Comments -/

theorem read_comment {text : Text} (unbroken : ∀ char ∈ text, lexis.isBreak char = false) :
    lexis.read .comment text = ⟨.comment, [], []⟩ := by
  induction text with
  | nil => rfl
  | cons char text inductionHypothesis =>
      obtain ⟨first, later⟩ := List.forall_mem_cons.mp unbroken
      have step : lexis.step .comment char = (.comment, []) := by simp [Lexis.step, first]
      rw [read, step, inductionHypothesis later]
      rfl

/-- A character that ends a line inside a comment ends the comment, and is outside it. -/
theorem mem_kept_of_break {text : Text} {char : Char} (held : char ∈ text)
    (breaks : lexis.isBreak char = true) :
    ∃ first ∈ text, lexis.isBreak first = true ∧ first ∈ (lexis.read .comment text).kept := by
  induction text with
  | nil => cases held
  | cons first text inductionHypothesis =>
      by_cases ends : lexis.isBreak first = true
      · have step : lexis.step .comment first = (.start 0, []) := by simp [Lexis.step, ends]
        refine ⟨first, List.mem_cons_self, ends, ?_⟩
        rw [read, step]
        exact List.mem_cons_self
      · have later : char ∈ text := by
          rcases List.mem_cons.mp held with rfl | later
          · exact absurd breaks ends
          · exact later
        obtain ⟨found, inText, foundBreaks, kept⟩ := inductionHypothesis later
        have step : lexis.step .comment first = (.comment, []) := by
          simp [Lexis.step, Bool.eq_false_iff.mpr ends]
        refine ⟨found, List.mem_cons_of_mem _ inText, foundBreaks, ?_⟩
        rw [read, step]
        exact kept

end Lexis

end ServerBox.Std
