import ServerBox.Std.Text
import Mathlib.Data.List.TakeWhile

/-!
# The words of an SSH configuration's line

`_splitWords` and `stripInlineComment` of `src/lib/core/ssh/config.dart`, one of which cuts a
line's comment off and the other one splits what is left, beside OpenSSH's `argv_split`, which
does both at once. A line is read into tokens that all three go by: they differ in what they
take for a word's end.
-/

namespace ServerBox.Ssh.ConfigWords

open ServerBox.Std

/-! ### The code -/

/-- What `\s` and Dart's `trim` take for white space. -/
def isWhiteSpace (char : Char) : Bool := Text.isWhitespace char || char = '\uFEFF'

/-- A backslash that escapes the character after it. -/
def escapes (quote : Option Char) (char : Char) (next : Option Char) : Bool :=
  char = '\\' && (next = some '"' || next = some '\'' || next = some '\\' ||
    (quote = none && next = some ' '))

/-- The loop of `_splitWords`. -/
def splitFrom (quote : Option Char) (started : Bool) (current : Text) : Text → List Text
  | [] => if started then [current] else []
  | char :: rest =>
      if escapes quote char rest.head? then
        match rest with
        | next :: rest => splitFrom quote true (current ++ [next]) rest
        | [] => []
      else if quote.isSome then
        if quote = some char then splitFrom none true current rest
        else splitFrom quote true (current ++ [char]) rest
      else if char = '"' || char = '\'' then splitFrom (some char) true current rest
      else if isWhiteSpace char then
        if started then current :: splitFrom none false [] rest
        else splitFrom none false current rest
      else splitFrom none true (current ++ [char]) rest

def splitWords (value : Text) : List Text := splitFrom none false [] value

/-- What the loop of `stripInlineComment` leaves, after a last character. -/
def keptFrom (inSingleQuotes inDoubleQuotes escaped : Bool) (last : Option Char) : Text → Text
  | [] => []
  | char :: rest =>
      if escaped then char :: keptFrom inSingleQuotes inDoubleQuotes false (some char) rest
      else if char = '\\' then char :: keptFrom inSingleQuotes inDoubleQuotes true (some char) rest
      else if char = '\'' && !inDoubleQuotes then
        char :: keptFrom (!inSingleQuotes) inDoubleQuotes false (some char) rest
      else if char = '"' && !inSingleQuotes then
        char :: keptFrom inSingleQuotes (!inDoubleQuotes) false (some char) rest
      else if char = '#' && !inSingleQuotes && !inDoubleQuotes && last.all isWhiteSpace then []
      else char :: keptFrom inSingleQuotes inDoubleQuotes false (some char) rest

def trim (text : Text) : Text := (text.dropWhile isWhiteSpace).rdropWhile isWhiteSpace

def stripInlineComment (line : Text) : Text := trim (keptFrom false false false none line)

/-! ### OpenSSH -/

/-- The loops of `argv_split` with comments ended, inside a word or before one. -/
def argvFrom (quote : Option Char) (word : Option Text) : Text → Option (List Text)
  | [] => if quote = none then some word.toList else none
  | char :: rest =>
      if word = none && (char = ' ' || char = '\t') then argvFrom quote none rest
      else if word = none && char = '#' then some []
      else
        let read := word.getD []
        if escapes quote char rest.head? then
          match rest with
          | next :: rest => argvFrom quote (some (read ++ [next])) rest
          | [] => none
        else if quote = none && (char = ' ' || char = '\t') then
          (argvFrom none none rest).map (read :: ·)
        else if quote = none && (char = '"' || char = '\'') then
          argvFrom (some char) (some read) rest
        else if quote = some char then argvFrom none (some read) rest
        else argvFrom quote (some (read ++ [char])) rest

/-- A line's words, unless a quote is not closed. -/
def argvSplit (line : Text) : Option (List Text) := argvFrom none none line

/-! ### Tokens -/

inductive Token where
  | escape (char : Char)
  /-- A quote that opens or closes. -/
  | quote (char : Char)
  | quoted (char : Char)
  | blank (char : Char)
  | plain (char : Char)
deriving DecidableEq

namespace Token

def text : Token → Text
  | .escape char => ['\\', char]
  | .quote char | .quoted char | .blank char | .plain char => [char]

/-- The last character of a token. -/
def last : Token → Char
  | .escape char | .quote char | .quoted char | .blank char | .plain char => char

def isBlank : Token → Bool
  | .blank _ => true
  | _ => false

/-- The quote that is open after a token. -/
def after (quote : Option Char) : Token → Option Char
  | .quote char => if quote = none then some char else none
  | _ => quote

end Token

def tokens (quote : Option Char) : Text → List Token
  | [] => []
  | char :: rest =>
      if escapes quote char rest.head? then
        match rest with
        | next :: rest => .escape next :: tokens quote rest
        | [] => []
      else if quote.isSome then
        if quote = some char then .quote char :: tokens none rest
        else .quoted char :: tokens quote rest
      else if char = '"' || char = '\'' then .quote char :: tokens (some char) rest
      else if isWhiteSpace char then .blank char :: tokens none rest
      else .plain char :: tokens none rest

def textOf (read : List Token) : Text := read.flatMap Token.text

def after (quote : Option Char) (read : List Token) : Option Char := read.foldl Token.after quote

theorem after_nil (quote : Option Char) : after quote [] = quote := rfl

theorem after_cons (quote : Option Char) (token : Token) (rest : List Token) :
    after quote (token :: rest) = after (token.after quote) rest := rfl

/-- The words of some tokens. -/
def wordsFrom (started : Bool) (current : Text) : List Token → List Text
  | [] => if started then [current] else []
  | .blank _ :: rest =>
      if started then current :: wordsFrom false [] rest else wordsFrom false current rest
  | .quote _ :: rest => wordsFrom true current rest
  | .escape char :: rest | .quoted char :: rest | .plain char :: rest =>
      wordsFrom true (current ++ [char]) rest

/-- The tokens before a `#` that the last character before it is white space or none. -/
def cutFrom (last : Option Char) : List Token → List Token
  | [] => []
  | token :: rest =>
      if token = .plain '#' && last.all isWhiteSpace then []
      else token :: cutFrom (some token.last) rest

/-- The tokens before a `#` where a word could begin. -/
def uncommented (inWord : Bool) : List Token → List Token
  | [] => []
  | token :: rest =>
      if token = .plain '#' && !inWord then [] else token :: uncommented (!token.isBlank) rest

/-- Each escaped space has more of its line's words behind it, and no `#` next to it. -/
def EscapesInside (line : Text) : Prop :=
  ∀ front back, uncommented false (tokens none line) = front ++ .escape ' ' :: back →
    back.head? ≠ some (.plain '#') ∧ ∃ token ∈ back, token.isBlank = false

def escapesInside : List Token → Bool
  | [] => true
  | token :: rest =>
      (token ≠ .escape ' ' || (rest.head? ≠ some (.plain '#') && rest.any fun token =>
        !token.isBlank)) && escapesInside rest

theorem escapesInside_iff {read : List Token} :
    escapesInside read = true ↔ ∀ front back, read = front ++ .escape ' ' :: back →
      back.head? ≠ some (.plain '#') ∧ ∃ token ∈ back, token.isBlank = false := by
  induction read with
  | nil => simp [escapesInside]
  | cons token rest inductionHypothesis =>
      simp only [escapesInside, Bool.and_eq_true, inductionHypothesis, Bool.or_eq_true,
        decide_eq_true_eq, List.any_eq_true, Bool.not_eq_true']
      constructor
      · rintro ⟨first, others⟩ front back same
        cases front with
        | nil =>
            obtain ⟨rfl, rfl⟩ := List.cons.inj same
            exact first.resolve_left fun differs => differs rfl
        | cons other front => exact others front back (List.cons.inj same).2
      · intro all
        refine ⟨?_, fun front back same => all (token :: front) back (by rw [same]; rfl)⟩
        by_cases space : token = .escape ' '
        · exact .inr (all [] rest (by rw [space]; rfl))
        · exact .inl space

instance (line : Text) : Decidable (EscapesInside line) := decidable_of_iff _ escapesInside_iff

/-! ### The code goes by the tokens -/

theorem escapes_none (quote : Option Char) (char : Char) : escapes quote char none = false := by
  simp [escapes]

theorem eq_backslash_of_escapes {quote : Option Char} {char : Char} {next : Option Char}
    (escaped : escapes quote char next = true) : char = '\\' := by
  simp only [escapes, Bool.and_eq_true, decide_eq_true_eq] at escaped
  exact escaped.1

/-- The first token of a text. -/
def tokenOf (quote : Option Char) (char : Char) (next : Option Char) : Token :=
  if escapes quote char next then .escape (next.getD char)
  else if quote.isSome then if quote = some char then .quote char else .quoted char
  else if char = '"' || char = '\'' then .quote char
  else if isWhiteSpace char then .blank char
  else .plain char

theorem tokens_nil (quote : Option Char) : tokens quote [] = [] := by rw [tokens.eq_def]

theorem tokens_cons (quote : Option Char) (char : Char) (rest : Text) :
    tokens quote (char :: rest) = tokenOf quote char rest.head? ::
      tokens ((tokenOf quote char rest.head?).after quote)
        (if escapes quote char rest.head? then rest.tail else rest) := by
  conv_lhs => rw [tokens.eq_def]
  rw [tokenOf]
  cases escaped : escapes quote char rest.head? with
  | true =>
      cases rest with
      | nil => simp [escapes_none] at escaped
      | cons next rest =>
          rw [List.head?_cons] at escaped
          simp [Token.after, escaped]
  | false =>
      cases quote with
      | none =>
          simp only [escaped, Option.isSome_none, Bool.false_eq_true, if_false]
          split
          · simp [Token.after]
          · split <;> simp [Token.after]
      | some opened =>
          simp only [escaped, Option.isSome_some, Bool.false_eq_true, if_false, if_true]
          split <;> simp [Token.after]

theorem splitFrom_eq (quote : Option Char) (started : Bool) (current text : Text) :
    splitFrom quote started current text = wordsFrom started current (tokens quote text) := by
  fun_induction splitFrom quote started current text with
  | case1 => simp [tokens_nil, wordsFrom, *]
  | case2 => simp [tokens_nil, wordsFrom, *]
  | case4 _ _ _ _ escaped =>
      rw [List.head?_nil, escapes_none] at escaped
      cases escaped
  | _ => simp_all [tokens_cons, tokenOf, Token.after, wordsFrom]

theorem textOf_tokens (quote : Option Char) (text : Text) : textOf (tokens quote text) = text := by
  fun_induction tokens quote text with
  | case3 _ _ escaped =>
      rw [List.head?_nil, escapes_none] at escaped
      cases escaped
  | case2 _ _ next rest escaped inductionHypothesis =>
      have isBackslash := eq_backslash_of_escapes escaped
      simpa [textOf, Token.text, isBackslash] using inductionHypothesis
  | _ => simp_all [textOf, Token.text]

/-- A quote that is open is one of the two. -/
def IsQuote (quote : Option Char) : Prop := quote = none ∨ quote = some '"' ∨ quote = some '\''

/-- After a backslash that escapes nothing, no character is taken otherwise than the loop that
skips it takes it. -/
theorem keptFrom_skips {quote : Option Char} {rest : Text} (inSingleQuotes inDoubleQuotes : Bool)
    (literal : escapes quote '\\' rest.head? = false) :
    keptFrom inSingleQuotes inDoubleQuotes true (some '\\') rest =
      keptFrom inSingleQuotes inDoubleQuotes false (some '\\') rest := by
  cases rest with
  | nil => rfl
  | cons next rest =>
      simp only [escapes, List.head?_cons, decide_true, Bool.true_and, Bool.or_eq_false_iff,
        decide_eq_false_iff_not, Option.some.injEq] at literal
      obtain ⟨⟨⟨notDouble, notSingle⟩, notBackslash⟩, -⟩ := literal
      have solid : isWhiteSpace '\\' = false := by decide
      simp [keptFrom, notDouble, notSingle, notBackslash, solid]

theorem keptFrom_eq {quote : Option Char} (isQuote : IsQuote quote) (last : Option Char)
    (text : Text) :
    keptFrom (quote = some '\'') (quote = some '"') false last text =
      textOf (cutFrom last (tokens quote text)) := by
  fun_induction tokens quote text generalizing last with
  | case1 => simp [keptFrom, cutFrom, textOf]
  | case2 quote char next rest escaped inductionHypothesis =>
      have isBackslash := eq_backslash_of_escapes escaped
      subst isBackslash
      have others := inductionHypothesis isQuote (some next)
      simp only [textOf] at others
      simp [keptFrom, cutFrom, textOf, Token.text, Token.last, others]
  | case3 _ _ escaped =>
      rw [List.head?_nil, escapes_none] at escaped
      cases escaped
  | case4 char rest escaped _ inductionHypothesis =>
      have others := inductionHypothesis (.inl rfl) (some char)
      simp only [textOf] at others
      rcases isQuote with none | double | single
      · cases none
      · obtain rfl := Option.some.inj double
        simpa [keptFrom, cutFrom, textOf, Token.text, Token.last] using others
      · obtain rfl := Option.some.inj single
        simpa [keptFrom, cutFrom, textOf, Token.text, Token.last] using others
  | case5 quote char rest escaped isSome differs inductionHypothesis =>
      have others := inductionHypothesis isQuote (some char)
      simp only [textOf] at others
      have literal := Bool.eq_false_iff.mpr escaped
      by_cases isBackslash : char = '\\'
      · subst isBackslash
        simp [keptFrom, keptFrom_skips _ _ literal, cutFrom, textOf, Token.text, Token.last, others]
      · rcases isQuote with none | double | single
        · rw [none] at isSome
          cases isSome
        · subst double
          have notDouble : char ≠ '"' := fun same => differs (congrArg some same.symm)
          simpa [keptFrom, cutFrom, textOf, Token.text, Token.last, isBackslash, notDouble]
            using others
        · subst single
          have notSingle : char ≠ '\'' := fun same => differs (congrArg some same.symm)
          simpa [keptFrom, cutFrom, textOf, Token.text, Token.last, isBackslash, notSingle]
            using others
  | case6 quote char rest escaped none opens inductionHypothesis =>
      obtain rfl : quote = Option.none := by simpa using none
      simp only [Bool.or_eq_true, decide_eq_true_eq] at opens
      have others := inductionHypothesis (.inr (opens.imp (congrArg some) (congrArg some)))
        (some char)
      simp only [textOf] at others
      rcases opens with rfl | rfl <;>
        simpa [keptFrom, cutFrom, textOf, Token.text, Token.last] using others
  | case7 quote char rest escaped none opens blank inductionHypothesis =>
      obtain rfl : quote = Option.none := by simpa using none
      have others := inductionHypothesis (.inl rfl) (some char)
      simp only [textOf] at others
      simp only [Bool.or_eq_true, decide_eq_true_eq, not_or] at opens
      have notBackslash : char ≠ '\\' := by
        rintro rfl
        exact absurd blank (by decide)
      have notHash : char ≠ '#' := by
        rintro rfl
        exact absurd blank (by decide)
      simpa [keptFrom, cutFrom, textOf, Token.text, Token.last, opens, notBackslash, notHash]
        using others
  | case8 quote char rest escaped none opens blank inductionHypothesis =>
      obtain rfl : quote = Option.none := by simpa using none
      have others := inductionHypothesis (.inl rfl) (some char)
      simp only [textOf] at others
      simp only [Bool.or_eq_true, decide_eq_true_eq, not_or] at opens
      have literal := Bool.eq_false_iff.mpr escaped
      by_cases isBackslash : char = '\\'
      · subst isBackslash
        have skips := keptFrom_skips false false literal
        simpa [keptFrom, skips, cutFrom, textOf, Token.text, Token.last] using others
      · by_cases isHash : char = '#'
        · subst isHash
          cases cut : last.all isWhiteSpace with
          | true => simp [keptFrom, cutFrom, textOf, cut]
          | false => simpa [keptFrom, cutFrom, textOf, Token.text, Token.last, cut] using others
        · simpa [keptFrom, cutFrom, textOf, Token.text, Token.last, opens, isBackslash, isHash]
            using others

/-! ### OpenSSH goes by the tokens -/

/-- White space that is none but spaces and tabs. -/
def Blanks (text : Text) : Prop :=
  ∀ char ∈ text, isWhiteSpace char = true → char = ' ' ∨ char = '\t'

instance (text : Text) : Decidable (Blanks text) :=
  inferInstanceAs (Decidable (∀ char, char ∈ text →
    (isWhiteSpace char = true → char = ' ' ∨ char = '\t')))

theorem isWhiteSpace_of_blank {char : Char} (blank : char = ' ' ∨ char = '\t') :
    isWhiteSpace char = true := by
  rcases blank with rfl | rfl <;> decide

theorem argvFrom_eq {quote : Option Char} {word : Option Text} {text : Text}
    (blanks : Blanks text) (outside : word = none → quote = none) :
    argvFrom quote word text =
      if (after quote (uncommented word.isSome (tokens quote text))).isNone then
        some (wordsFrom word.isSome (word.getD []) (uncommented word.isSome (tokens quote text)))
      else none := by
  fun_induction tokens quote text generalizing word with
  | case1 quote =>
      cases word <;> simp [argvFrom, uncommented, after_nil, wordsFrom]
  | case2 quote char next rest escaped inductionHypothesis =>
      have isBackslash := eq_backslash_of_escapes escaped
      subst isBackslash
      have others := @inductionHypothesis (some (word.getD [] ++ [next]))
        (fun each held => blanks each (List.mem_cons_of_mem _ (List.mem_cons_of_mem _ held))) nofun
      have step : argvFrom quote word ('\\' :: next :: rest) =
          argvFrom quote (some (word.getD [] ++ [next])) rest := by
        rw [argvFrom.eq_def]
        simpa using fun literal => absurd (literal.symm.trans escaped) Bool.false_ne_true
      rw [step, others]
      simp [uncommented, Token.isBlank, after_cons, Token.after, wordsFrom]
  | case3 _ _ escaped =>
      rw [List.head?_nil, escapes_none] at escaped
      cases escaped
  | case4 char rest escaped isSome inductionHypothesis =>
      have literal := Bool.eq_false_iff.mpr escaped
      cases word with
      | none => cases outside rfl
      | some read =>
          have others := @inductionHypothesis (some read)
            (fun each held => blanks each (List.mem_cons_of_mem _ held)) nofun
          have step : argvFrom (some char) (some read) (char :: rest) =
              argvFrom none (some read) rest := by
            rw [argvFrom.eq_def]
            simp [literal]
          rw [step, others]
          simp [uncommented, Token.isBlank, after_cons, Token.after, wordsFrom]
  | case5 quote char rest escaped isSome differs inductionHypothesis =>
      have literal := Bool.eq_false_iff.mpr escaped
      cases word with
      | none =>
          rw [outside rfl] at isSome
          cases isSome
      | some read =>
          have others := @inductionHypothesis (some (read ++ [char]))
            (fun each held => blanks each (List.mem_cons_of_mem _ held)) nofun
          have notNone : quote ≠ none := Option.isSome_iff_ne_none.mp isSome
          have step : argvFrom quote (some read) (char :: rest) =
              argvFrom quote (some (read ++ [char])) rest := by
            rw [argvFrom.eq_def]
            simp [literal, notNone, differs]
          rw [step, others]
          simp [uncommented, Token.isBlank, after_cons, Token.after, wordsFrom]
  | case6 quote char rest escaped none opens inductionHypothesis =>
      obtain rfl : quote = Option.none := by simpa using none
      have literal := Bool.eq_false_iff.mpr escaped
      simp only [Bool.or_eq_true, decide_eq_true_eq] at opens
      have others := @inductionHypothesis (some (word.getD []))
        (fun each held => blanks each (List.mem_cons_of_mem _ held)) nofun
      have step : argvFrom Option.none word (char :: rest) =
          argvFrom (some char) (some (word.getD [])) rest := by
        rw [argvFrom.eq_def]
        rcases opens with rfl | rfl <;> simp [literal]
      rw [step, others]
      simp [uncommented, Token.isBlank, after_cons, Token.after, wordsFrom]
  | case7 quote char rest escaped none opens blank inductionHypothesis =>
      obtain rfl : quote = Option.none := by simpa using none
      have literal := Bool.eq_false_iff.mpr escaped
      have isBlank := blanks char List.mem_cons_self blank
      have others := @inductionHypothesis Option.none
        (fun each held => blanks each (List.mem_cons_of_mem _ held)) fun _ => rfl
      cases word with
      | none =>
          have step : argvFrom Option.none Option.none (char :: rest) =
              argvFrom Option.none Option.none rest := by
            rw [argvFrom.eq_def]
            simp [isBlank]
          rw [step, others]
          simp [uncommented, Token.isBlank, after_cons, Token.after, wordsFrom]
      | some read =>
          have step : argvFrom Option.none (some read) (char :: rest) =
              (argvFrom Option.none Option.none rest).map (read :: ·) := by
            rw [argvFrom.eq_def]
            simp [literal, isBlank]
          rw [step, others]
          simp only [uncommented, Token.isBlank, after_cons, Option.isSome_none, Option.isSome_some,
            reduceCtorEq, decide_false, Bool.false_and, Bool.false_eq_true, if_false,
            Token.after, Bool.not_true, wordsFrom, if_true, Option.getD_none]
          split <;> rfl
  | case8 quote char rest escaped none opens blank inductionHypothesis =>
      obtain rfl : quote = Option.none := by simpa using none
      have literal := Bool.eq_false_iff.mpr escaped
      have notBlank : ¬ (char = ' ' ∨ char = '\t') := fun isBlank =>
        blank (isWhiteSpace_of_blank isBlank)
      by_cases cut : char = '#' ∧ word = Option.none
      · obtain ⟨rfl, rfl⟩ := cut
        rw [argvFrom.eq_def]
        simp [uncommented, after_nil, wordsFrom]
      · have others := @inductionHypothesis (some (word.getD [] ++ [char]))
          (fun each held => blanks each (List.mem_cons_of_mem _ held)) nofun
        have opened : ¬ (char = '"' ∨ char = '\'') := by simpa using opens
        have notCut : ¬ (word = Option.none ∧ char = '#') := fun both => cut both.symm
        have step : argvFrom Option.none word (char :: rest) =
            argvFrom Option.none (some (word.getD [] ++ [char])) rest := by
          rw [argvFrom.eq_def]
          simp [literal, notBlank, notCut, opened]
        have goesOn : (decide (Token.plain char = .plain '#') && !word.isSome) = false := by
          cases word with
          | none => simpa using fun isHash => cut ⟨isHash, rfl⟩
          | some read => simp
        rw [step, others]
        simp only [uncommented, goesOn, Bool.false_eq_true, if_false, Token.isBlank, Bool.not_false,
          after_cons, Token.after, wordsFrom, Option.isSome_some, Option.getD_some]

/-! ### Parts of a text -/

theorem escapes_of_tokenOf {quote : Option Char} {char : Char} {next : Option Char} :
    (∃ escaped, tokenOf quote char next = .escape escaped) ↔ escapes quote char next = true := by
  unfold tokenOf
  split
  next escaped => exact ⟨fun _ => escaped, fun _ => ⟨_, rfl⟩⟩
  next literal =>
    refine ⟨fun ⟨_, same⟩ => ?_, fun escaped => absurd escaped literal⟩
    split at same
    · split at same <;> cases same
    · split at same
      · cases same
      · split at same <;> cases same

/-- A token stays one where the text after it ends, or goes on with the same character. -/
theorem tokens_token {quote : Option Char} {token : Token} {text : Text} {read : List Token}
    (lexed : tokens quote (token.text ++ text) = token :: read) :
    tokens (token.after quote) text = read ∧
      ∀ other : Text, other.head? = none ∨ other.head? = text.head? →
        tokens quote (token.text ++ other) = token :: tokens (token.after quote) other := by
  have single : ∀ char, token.text = [char] → (∀ escaped, token ≠ .escape escaped) →
      tokens (token.after quote) text = read ∧
        ∀ other : Text, other.head? = none ∨ other.head? = text.head? →
          tokens quote (token.text ++ other) = token :: tokens (token.after quote) other := by
    intro char isText noEscape
    rw [isText, List.singleton_append, tokens_cons] at lexed
    obtain ⟨isToken, isRest⟩ := List.cons.inj lexed
    have literal : escapes quote char text.head? = false := by
      rw [Bool.eq_false_iff]
      intro escaped
      obtain ⟨next, isEscape⟩ := escapes_of_tokenOf.mpr escaped
      exact noEscape next (isToken.symm.trans isEscape)
    rw [literal, isToken] at isRest
    refine ⟨isRest, fun other same => ?_⟩
    have stays : escapes quote char other.head? = false := by
      rcases same with none | same
      · rw [none, escapes_none]
      · rw [same, literal]
    have sameToken : tokenOf quote char other.head? = token := by
      rw [← isToken, tokenOf, tokenOf, stays, literal]
      rfl
    rw [isText, List.singleton_append, tokens_cons, sameToken, stays]
    rfl
  cases token with
  | escape next =>
      have escaped : escapes quote '\\' (some next) = true := by
        rw [Token.text, List.cons_append, tokens_cons] at lexed
        exact escapes_of_tokenOf.mp ⟨next, (List.cons.inj lexed).1⟩
      have whole : ∀ other : Text, tokens quote ((Token.escape next).text ++ other) =
          .escape next :: tokens quote other := by
        intro other
        rw [Token.text, List.cons_append, tokens_cons]
        simp [tokenOf, escaped, Token.after]
      rw [whole] at lexed
      exact ⟨(List.cons.inj lexed).2, fun other _ => whole other⟩
  | quote char | quoted char | blank char | plain char => exact single char rfl nofun

theorem textOf_append (front back : List Token) :
    textOf (front ++ back) = textOf front ++ textOf back := List.flatMap_append

theorem textOf_cons (token : Token) (rest : List Token) :
    textOf (token :: rest) = token.text ++ textOf rest := List.flatMap_cons

theorem after_append (quote : Option Char) (front back : List Token) :
    after quote (front ++ back) = after (after quote front) back := List.foldl_append

theorem text_ne_nil (token : Token) : token.text ≠ [] := by cases token <;> simp [Token.text]

/-- A text cut between two tokens is read as those on each side. -/
theorem tokens_cut {quote : Option Char} {front back : List Token}
    (lexed : tokens quote (textOf front ++ textOf back) = front ++ back) :
    tokens (after quote front) (textOf back) = back ∧
      ∀ other : Text, other.head? = none ∨ other.head? = (textOf back).head? →
        tokens quote (textOf front ++ other) = front ++ tokens (after quote front) other := by
  induction front generalizing quote with
  | nil => exact ⟨lexed, fun other _ => rfl⟩
  | cons token front inductionHypothesis =>
      rw [textOf_cons, List.append_assoc, List.cons_append] at lexed
      obtain ⟨others, stays⟩ := tokens_token lexed
      obtain ⟨isBack, restStays⟩ := inductionHypothesis others
      refine ⟨isBack, fun other same => ?_⟩
      rw [textOf_cons, List.append_assoc, stays, restStays other same]
      · rfl
      · cases front with
        | nil => exact same
        | cons first front =>
            refine .inr ?_
            rw [textOf_cons, List.append_assoc, List.append_assoc,
              List.head?_append_of_ne_nil _ (text_ne_nil first),
              List.head?_append_of_ne_nil _ (text_ne_nil first)]

/-! ### What a first token says of its characters -/

section

variable {quote : Option Char} {text : Text} {token : Token} {rest : List Token}

/-- The characters that a text's first token is of. -/
inductive First (quote : Option Char) : Token → Prop
  | escape {char} (special : char = '"' ∨ char = '\'' ∨ char = '\\' ∨ char = ' ' ∧ quote = none) :
      First quote (.escape char)
  | quote {char} (closes : quote = some char ∨ char = '"' ∨ char = '\'') : First quote (.quote char)
  | quoted {char} (inside : quote ≠ none) : First quote (.quoted char)
  | blank {char} (outside : quote = none) (white : isWhiteSpace char = true) :
      First quote (.blank char)
  | plain {char} (outside : quote = none) (solid : isWhiteSpace char = false) :
      First quote (.plain char)

theorem first_of_tokens (lexed : tokens quote text = token :: rest) : First quote token := by
  cases text with
  | nil =>
      rw [tokens_nil] at lexed
      cases lexed
  | cons char text =>
      rw [tokens_cons] at lexed
      obtain ⟨rfl, -⟩ := List.cons.inj lexed
      unfold tokenOf
      split
      next escaped =>
        refine .escape ?_
        simp only [escapes, Bool.and_eq_true, Bool.or_eq_true, decide_eq_true_eq] at escaped
        obtain ⟨-, ((double | single) | backslash) | ⟨outside, space⟩⟩ := escaped
        · exact .inl (by rw [double]; rfl)
        · exact .inr (.inl (by rw [single]; rfl))
        · exact .inr (.inr (.inl (by rw [backslash]; rfl)))
        · exact .inr (.inr (.inr ⟨by rw [space]; rfl, outside⟩))
      next =>
        split
        next isSome =>
          split
          next closes => exact .quote (.inl closes)
          next => exact .quoted (Option.isSome_iff_ne_none.mp isSome)
        next none =>
          have outside : quote = Option.none := by simpa using none
          split
          next opens => exact .quote (.inr (by simpa using opens))
          next =>
            split
            next white => exact .blank outside white
            next solid => exact .plain outside (Bool.eq_false_iff.mpr solid)

/-- Each token of a text is the first of what is left. -/
theorem first_of_cut {front : List Token} (lexed : tokens quote text = front ++ token :: rest) :
    First (after quote front) token := by
  have whole : tokens quote (textOf front ++ textOf (token :: rest)) = front ++ token :: rest := by
    rw [← textOf_append, ← lexed, textOf_tokens]
  exact first_of_tokens (tokens_cut whole).1

theorem isQuote_after (isQuote : IsQuote quote) (text : Text) {front back : List Token}
    (lexed : tokens quote text = front ++ back) : IsQuote (after quote front) := by
  induction front using List.reverseRecOn generalizing back with
  | nil => exact isQuote
  | append_singleton front token inductionHypothesis =>
      rw [List.append_assoc, List.singleton_append] at lexed
      have before := inductionHypothesis lexed
      rw [after_append]
      cases first_of_cut lexed with
      | quote closes =>
          rename_i char
          by_cases none : after quote front = Option.none
          · simp only [after_cons, after_nil, Token.after, none, if_true]
            rcases closes with same | isChar
            · rw [none] at same
              cases same
            · exact .inr (isChar.imp (congrArg some) (congrArg some))
          · simp only [after_cons, after_nil, Token.after, none, if_false]
            exact .inl rfl
      | _ => exact before

/-- A token that ends in white space is a blank, a quoted one, or an escaped space. -/
theorem First.solid (first : First quote token) (isQuote : IsQuote quote)
    (notBlank : token.isBlank = false) (notSpace : token ≠ .escape ' ')
    (unquoted : ∀ char, token ≠ .quoted char) : isWhiteSpace token.last = false := by
  cases first with
  | escape special =>
      rcases special with rfl | rfl | rfl | ⟨rfl, -⟩
      · decide
      · decide
      · decide
      · exact absurd rfl notSpace
  | quote closes =>
      rename_i char
      have isChar : char = '"' ∨ char = '\'' := by
        rcases closes with same | isChar
        · rcases isQuote with none | double | single
          · rw [none] at same
            cases same
          · exact .inl (Option.some.inj (same.symm.trans double))
          · exact .inr (Option.some.inj (same.symm.trans single))
        · exact isChar
      rcases isChar with rfl | rfl <;> rfl
  | quoted => exact absurd rfl (unquoted _)
  | blank => cases notBlank
  | plain outside solid => exact solid

end

/-! ### Where a comment is cut -/

/-- The last character of some tokens, or the one before them. -/
def lastOf (last : Option Char) (read : List Token) : Option Char :=
  read.foldl (fun _ token => some token.last) last

def inWordAfter (inWord : Bool) (read : List Token) : Bool :=
  read.foldl (fun _ token => !token.isBlank) inWord

/-- The code cuts at the first `#` after white space. -/
theorem cutFrom_shape (last : Option Char) (read : List Token) :
    ∃ back, read = cutFrom last read ++ back ∧ (back = [] ∨ ∃ more, back = .plain '#' :: more ∧
      (lastOf last (cutFrom last read)).all isWhiteSpace = true) := by
  fun_induction cutFrom last read with
  | case1 => exact ⟨[], rfl, .inl rfl⟩
  | case2 last token rest cut =>
      simp only [Bool.and_eq_true, decide_eq_true_eq] at cut
      exact ⟨token :: rest, rfl, .inr ⟨rest, by rw [cut.1], cut.2⟩⟩
  | case3 last token rest _ inductionHypothesis =>
      obtain ⟨back, same, cut⟩ := inductionHypothesis
      exact ⟨back, by rw [List.cons_append, ← same], cut⟩

/-- No `#` after white space is left. -/
theorem not_cut {last : Option Char} {read front back : List Token}
    (shape : cutFrom last read = front ++ .plain '#' :: back) :
    (lastOf last front).all isWhiteSpace = false := by
  induction read generalizing last front with
  | nil => simp [cutFrom] at shape
  | cons token rest inductionHypothesis =>
      rw [cutFrom] at shape
      split at shape
      · simp at shape
      next stays =>
        cases front with
        | nil =>
            obtain ⟨rfl, -⟩ := List.cons.inj shape
            simpa [lastOf] using stays
        | cons first front =>
            obtain ⟨rfl, others⟩ := List.cons.inj shape
            have solid := inductionHypothesis others
            exact solid

/-- OpenSSH cuts no earlier than the code. -/
theorem uncommented_eq {last : Option Char} {inWord : Bool} {read : List Token}
    (white : ∀ char, .blank char ∈ read → isWhiteSpace char = true)
    (outside : inWord = false → last.all isWhiteSpace = true) (back : List Token)
    (shape : read = cutFrom last read ++ back) :
    uncommented inWord read = cutFrom last read ++
      uncommented (inWordAfter inWord (cutFrom last read)) back := by
  induction read generalizing last inWord with
  | nil =>
      obtain rfl : back = [] := (List.append_eq_nil_iff.mp shape.symm).2
      simp [cutFrom, uncommented]
  | cons token rest inductionHypothesis =>
      rw [cutFrom] at shape ⊢
      split at shape
      next cut =>
        rw [if_pos cut]
        rw [List.nil_append] at shape
        rw [← shape]
        rfl
      next stays =>
        rw [if_neg stays]
        rw [List.cons_append, List.cons.injEq] at shape
        have goesOn : (decide (token = .plain '#') && !inWord) = false := by
          cases inWord with
          | true => simp
          | false => simpa [outside rfl] using stays
        have others := @inductionHypothesis (some token.last) (!token.isBlank)
          (fun char held => white char (List.mem_cons_of_mem _ held)) (fun isBlank => by
            cases token with
            | blank char => exact white char List.mem_cons_self
            | _ => cases isBlank) shape.2
        rw [uncommented, goesOn, others]
        rfl

/-! ### Words -/

/-- What some tokens leave of the words is done, but for the last. -/
theorem wordsFrom_append (started : Bool) (current : Text) (front : List Token) :
    ∃ done begun last, ∀ back,
      wordsFrom started current (front ++ back) = done ++ wordsFrom begun last back := by
  induction front generalizing started current with
  | nil => exact ⟨[], started, current, fun _ => rfl⟩
  | cons token front inductionHypothesis =>
      cases token with
      | blank char =>
          cases started with
          | true =>
              obtain ⟨done, begun, last, same⟩ := inductionHypothesis false []
              exact ⟨current :: done, begun, last, fun back => by
                simp [wordsFrom, same]⟩
          | false =>
              obtain ⟨done, begun, last, same⟩ := inductionHypothesis false current
              exact ⟨done, begun, last, fun back => by simp [wordsFrom, same]⟩
      | quote char => exact inductionHypothesis true current
      | escape char | quoted char | plain char => exact inductionHypothesis true (current ++ [char])

/-- A word that was begun is the first, and goes on. -/
theorem wordsFrom_begun (current : Text) (read : List Token) :
    ∃ more others, wordsFrom true current read = (current ++ more) :: others := by
  induction read generalizing current with
  | nil => exact ⟨[], [], by simp [wordsFrom]⟩
  | cons token read inductionHypothesis =>
      cases token with
      | blank char => exact ⟨[], wordsFrom false [] read, by simp [wordsFrom]⟩
      | quote char => exact inductionHypothesis current
      | escape char | quoted char | plain char =>
          obtain ⟨more, others, same⟩ := inductionHypothesis (current ++ [char])
          exact ⟨char :: more, others, by simp [wordsFrom, same]⟩

theorem wordsFrom_blanks {read : List Token} (blank : ∀ token ∈ read, token.isBlank = true)
    (started : Bool) (current : Text) :
    wordsFrom started current read = if started then [current] else [] := by
  induction read generalizing started current with
  | nil => rfl
  | cons token read inductionHypothesis =>
      obtain ⟨first, others⟩ := List.forall_mem_cons.mp blank
      cases token with
      | blank char =>
          cases started with
          | true => simp [wordsFrom, inductionHypothesis others]
          | false => simp [wordsFrom, inductionHypothesis others]
      | _ => cases first

/-- Blanks before the first word and after the last one are of none. -/
theorem wordsFrom_trimmed {lead read back : List Token}
    (leads : ∀ token ∈ lead, token.isBlank = true) (ends : ∀ token ∈ back, token.isBlank = true) :
    wordsFrom false [] (lead ++ (read ++ back)) = wordsFrom false [] read := by
  induction lead with
  | nil =>
      obtain ⟨done, begun, last, same⟩ := wordsFrom_append false [] read
      have plain := same []
      rw [List.append_nil] at plain
      rw [List.nil_append, same, plain, wordsFrom_blanks ends]
      rfl
  | cons token lead inductionHypothesis =>
      obtain ⟨first, others⟩ := List.forall_mem_cons.mp leads
      cases token with
      | blank char => simpa [wordsFrom] using inductionHypothesis others
      | _ => cases first

/-! ### Trimming -/

theorem dropWhile_solid {text : Text} (solid : ∀ char ∈ text.head?, isWhiteSpace char = false) :
    text.dropWhile isWhiteSpace = text := by
  cases text with
  | nil => rfl
  | cons char text => simp [solid char rfl]

theorem trim_append {front text back : Text} (leads : ∀ char ∈ front, isWhiteSpace char = true)
    (ends : ∀ char ∈ back, isWhiteSpace char = true)
    (first : ∀ char ∈ text.head?, isWhiteSpace char = false)
    (last : ∀ char ∈ text.getLast?, isWhiteSpace char = false) :
    trim (front ++ (text ++ back)) = text := by
  rw [trim, List.dropWhile_append_of_pos leads]
  cases text with
  | nil =>
      have none : back.dropWhile isWhiteSpace = [] := List.dropWhile_eq_nil_iff.mpr ends
      rw [List.nil_append, none]
      rfl
  | cons char text =>
      have stays : ((char :: text) ++ back).dropWhile isWhiteSpace = (char :: text) ++ back :=
        dropWhile_solid fun each isFirst => first each (by simpa using isFirst)
      have reversed : ∀ each ∈ back.reverse, isWhiteSpace each = true := fun each held =>
        ends each (List.mem_reverse.mp held)
      rw [stays, List.rdropWhile, List.reverse_append, List.dropWhile_append_of_pos reversed,
        dropWhile_solid, List.reverse_reverse]
      rw [List.head?_reverse]
      exact last

theorem exists_lead (read : List Token) :
    ∃ lead rest, read = lead ++ rest ∧ (∀ token ∈ lead, token.isBlank = true) ∧
      ∀ token ∈ rest.head?, token.isBlank = false := by
  induction read with
  | nil => exact ⟨[], [], rfl, nofun, nofun⟩
  | cons token read inductionHypothesis =>
      cases isBlank : token.isBlank with
      | true =>
          obtain ⟨lead, rest, same, blank, first⟩ := inductionHypothesis
          exact ⟨token :: lead, rest, by rw [same]; rfl, List.forall_mem_cons.mpr ⟨isBlank, blank⟩,
            first⟩
      | false => exact ⟨[], token :: read, rfl, nofun, by simpa using isBlank⟩

/-- Tokens with the blanks around them apart. -/
theorem exists_trimmed (read : List Token) :
    ∃ lead inside back, read = lead ++ (inside ++ back) ∧
      (∀ token ∈ lead, token.isBlank = true) ∧ (∀ token ∈ back, token.isBlank = true) ∧
      (∀ token ∈ inside.head?, token.isBlank = false) ∧
      ∀ token ∈ inside.getLast?, token.isBlank = false := by
  obtain ⟨lead, rest, same, leads, first⟩ := exists_lead read
  obtain ⟨back, inside, reversed, ends, last⟩ := exists_lead rest.reverse
  have shape : rest = inside.reverse ++ back.reverse := by
    rw [← List.reverse_append, ← reversed, List.reverse_reverse]
  refine ⟨lead, inside.reverse, back.reverse, by rw [same, shape], leads,
    fun token held => ends token (List.mem_reverse.mp held), fun token isFirst => ?_,
    fun token isLast => last token (by rwa [List.getLast?_reverse] at isLast)⟩
  refine first token ?_
  rw [shape]
  cases reversedInside : inside.reverse with
  | nil => simp [reversedInside] at isFirst
  | cons other others => simpa [reversedInside] using isFirst

theorem textOf_blanks {read : List Token} (blank : ∀ token ∈ read, token.isBlank = true)
    (white : ∀ char, .blank char ∈ read → isWhiteSpace char = true) :
    ∀ char ∈ textOf read, isWhiteSpace char = true := by
  intro char held
  obtain ⟨token, isToken, isChar⟩ := List.mem_flatMap.mp held
  cases token with
  | blank other =>
      obtain rfl := List.mem_singleton.mp isChar
      exact white char isToken
  | _ => cases blank _ isToken

theorem getLast?_textOf {front : List Token} {token : Token} :
    (textOf (front ++ [token])).getLast? = some token.last := by
  rw [textOf_append, textOf_cons]
  cases token <;> simp [textOf, Token.text, Token.last]

/-! ### The words -/

section

variable {line : Text} {words : List Text}

/-- What the code reads the words of. -/
theorem splitWords_strip :
    splitWords (stripInlineComment line) =
      wordsFrom false [] (tokens none (trim (textOf (cutFrom none (tokens none line))))) := by
  have kept := keptFrom_eq (.inl rfl) none line
  rw [splitWords, splitFrom_eq, stripInlineComment, ← kept]
  rfl

/-- A blank of a line is white space. -/
theorem white_of_mem {char : Char} (held : .blank char ∈ tokens none line) :
    isWhiteSpace char = true := by
  obtain ⟨front, back, shape⟩ := List.append_of_mem held
  cases first_of_cut shape with
  | blank _ white => exact white

/-- No quote is open where the code cuts. -/
theorem after_cutFrom (blanks : Blanks line) (closed : argvSplit line = some words) :
    after none (cutFrom none (tokens none line)) = none := by
  obtain ⟨back, same, cut⟩ := cutFrom_shape none (tokens none line)
  rcases cut with rfl | ⟨more, rfl, -⟩
  · have whole : uncommented false (tokens none line) = _ :=
      uncommented_eq (fun _ => white_of_mem) (fun _ => rfl) [] same
    rw [argvSplit, argvFrom_eq blanks fun _ => rfl] at closed
    split at closed
    next isNone =>
      rw [Option.isSome_none, whole, uncommented, List.append_nil] at isNone
      exact Option.isNone_iff_eq_none.mp isNone
    next => cases closed
  · cases first_of_cut same with
    | plain outside _ => exact outside

/-- A line's tokens before the code's cut, without the blanks around them. -/
structure Trimmed (line : Text) (lead inside back : List Token) : Prop where
  same : cutFrom none (tokens none line) = lead ++ (inside ++ back)
  leads : ∀ token ∈ lead, token.isBlank = true
  ends : ∀ token ∈ back, token.isBlank = true
  first : ∀ token ∈ inside.head?, token.isBlank = false
  last : ∀ token ∈ inside.getLast?, token.isBlank = false
  closed : after none (lead ++ (inside ++ back)) = none

namespace Trimmed

variable {lead inside back : List Token}

theorem exists_of_closed (blanks : Blanks line) (closed : argvSplit line = some words) :
    ∃ lead inside back, Trimmed line lead inside back := by
  obtain ⟨lead, inside, back, same, leads, ends, first, last⟩ :=
    exists_trimmed (cutFrom none (tokens none line))
  exact ⟨lead, inside, back, same, leads, ends, first, last,
    same ▸ after_cutFrom blanks closed⟩

/-- The line's tokens go on behind those. -/
theorem exists_rest (trimmed : Trimmed line lead inside back) :
    ∃ rest, tokens none line = lead ++ (inside ++ (back ++ rest)) := by
  obtain ⟨rest, shape, -⟩ := cutFrom_shape none (tokens none line)
  exact ⟨rest, by rw [shape, trimmed.same]; simp only [List.append_assoc]⟩

theorem white_lead (trimmed : Trimmed line lead inside back) :
    ∀ char ∈ textOf lead, isWhiteSpace char = true := by
  obtain ⟨rest, shape⟩ := trimmed.exists_rest
  refine textOf_blanks trimmed.leads fun char held => ?_
  have isToken : .blank char ∈ tokens none line := by
    rw [shape]
    exact List.mem_append_left _ held
  exact white_of_mem isToken

theorem white_back (trimmed : Trimmed line lead inside back) :
    ∀ char ∈ textOf back, isWhiteSpace char = true := by
  obtain ⟨rest, shape⟩ := trimmed.exists_rest
  refine textOf_blanks trimmed.ends fun char held => ?_
  have isToken : .blank char ∈ tokens none line := by
    rw [shape]
    exact List.mem_append_right _ (List.mem_append_right _ (List.mem_append_left _ held))
  exact white_of_mem isToken

/-- Blanks open and close no quote. -/
theorem after_blanks {read : List Token} (blank : ∀ token ∈ read, token.isBlank = true)
    (quote : Option Char) : after quote read = quote := by
  induction read with
  | nil => rfl
  | cons token read inductionHypothesis =>
      obtain ⟨first, others⟩ := List.forall_mem_cons.mp blank
      cases token with
      | blank char => exact inductionHypothesis others
      | _ => cases first

theorem after_inside (trimmed : Trimmed line lead inside back) : after none inside = none := by
  have closed := trimmed.closed
  rwa [after_append, after_append, after_blanks trimmed.leads, after_blanks trimmed.ends] at closed

/-- The tokens of what is between the blanks. -/
theorem lexed (trimmed : Trimmed line lead inside back) :
    ∃ rest, tokens none (textOf (inside ++ rest)) = inside ++ rest := by
  obtain ⟨rest, shape⟩ := trimmed.exists_rest
  have whole : tokens none (textOf lead ++ textOf (inside ++ (back ++ rest))) =
      lead ++ (inside ++ (back ++ rest)) := by
    rw [← textOf_append, ← shape, textOf_tokens]
  have cut := (tokens_cut whole).1
  rw [after_blanks trimmed.leads] at cut
  exact ⟨back ++ rest, cut⟩

theorem first_solid (trimmed : Trimmed line lead inside back) :
    ∀ char ∈ (textOf inside).head?, isWhiteSpace char = false := by
  obtain ⟨rest, lexed⟩ := trimmed.lexed
  cases inside with
  | nil => nofun
  | cons token inside =>
      have notBlank := trimmed.first token rfl
      intro char isFirst
      cases first_of_tokens lexed with
      | escape special =>
          obtain rfl : '\\' = char := by simpa [textOf, Token.text] using isFirst
          decide
      | quote closes =>
          obtain rfl : _ = char := by simpa [textOf, Token.text] using isFirst
          rcases closes with none | rfl | rfl
          · cases none
          · decide
          · decide
      | quoted inside => exact absurd rfl inside
      | blank _ _ => cases notBlank
      | plain _ solid =>
          obtain rfl : _ = char := by simpa [textOf, Token.text] using isFirst
          exact solid

/-- The last token is no quoted one, and its character white space only when it is an escaped
space. -/
theorem last_solid (trimmed : Trimmed line lead inside back) {front : List Token} {token : Token}
    (same : inside = front ++ [token]) (notSpace : token ≠ .escape ' ') :
    isWhiteSpace token.last = false := by
  obtain ⟨rest, lexed⟩ := trimmed.lexed
  rw [same, List.append_assoc] at lexed
  have first := first_of_cut lexed
  have isQuote := isQuote_after (.inl rfl) _ lexed
  have notBlank := trimmed.last token (by rw [same]; simp)
  refine first.solid isQuote notBlank notSpace fun char isQuoted => ?_
  subst isQuoted
  have closed := trimmed.after_inside
  rw [same, after_append] at closed
  cases first with
  | quoted inside => exact inside closed

/-- The code's words are those before its cut, where no escaped space is at the end. -/
theorem splitWords_of_solid (trimmed : Trimmed line lead inside back)
    (notSpace : ∀ front, inside ≠ front ++ [.escape ' ']) :
    splitWords (stripInlineComment line) = wordsFrom false [] inside := by
  obtain ⟨rest, lexed⟩ := trimmed.lexed
  have text : trim (textOf (cutFrom none (tokens none line))) = textOf inside := by
    rw [trimmed.same, textOf_append, textOf_append]
    refine trim_append trimmed.white_lead trimmed.white_back trimmed.first_solid ?_
    rcases List.eq_nil_or_concat inside with rfl | ⟨front, token, same⟩
    · nofun
    · rw [List.concat_eq_append] at same
      intro char isLast
      rw [same, getLast?_textOf] at isLast
      obtain rfl := Option.some.inj isLast
      exact trimmed.last_solid same fun isSpace => notSpace front (isSpace ▸ same)
  rw [textOf_append] at lexed
  have read := (tokens_cut lexed).2 [] (.inl rfl)
  rw [List.append_nil, tokens_nil, List.append_nil] at read
  rw [splitWords_strip, text, read]

/-- An escaped space at the end loses its space. -/
theorem splitWords_of_space (trimmed : Trimmed line lead inside back) {front : List Token}
    (same : inside = front ++ [.escape ' ']) :
    splitWords (stripInlineComment line) = wordsFrom false [] (front ++ [.plain '\\']) := by
  obtain ⟨rest, lexed⟩ := trimmed.lexed
  have text : trim (textOf (cutFrom none (tokens none line))) = textOf front ++ ['\\'] := by
    have shape : textOf inside = (textOf front ++ ['\\']) ++ [' '] := by
      rw [same, textOf_append]
      simp [textOf, Token.text]
    rw [trimmed.same, textOf_append, textOf_append, shape, List.append_assoc _ [' ']]
    refine trim_append trimmed.white_lead ?_ (fun char isFirst => ?_) ?_
    · rw [List.singleton_append, List.forall_mem_cons]
      exact ⟨by decide, trimmed.white_back⟩
    · refine trimmed.first_solid char ?_
      rw [shape]
      exact List.mem_head?_append_of_mem_head? isFirst
    · intro char isLast
      obtain rfl : '\\' = char := by simpa using isLast
      decide
  rw [same, List.append_assoc, textOf_append] at lexed
  obtain ⟨behind, reads⟩ := tokens_cut lexed
  have outside : after none front = none := by
    cases first_of_tokens behind with
    | escape special =>
        rcases special with double | single | backslash | ⟨-, outside⟩
        · exact absurd double (by decide)
        · exact absurd single (by decide)
        · exact absurd backslash (by decide)
        · exact outside
  have read := reads ['\\'] (.inr (by simp [textOf, Token.text]))
  rw [outside] at read
  rw [splitWords_strip, text, read]
  rfl

theorem eq_escape_of_blanks (trimmed : Trimmed line lead inside back) {front later : List Token}
    (same : lead ++ (inside ++ back) = front ++ .escape ' ' :: later)
    (blank : ∀ token ∈ later, token.isBlank = true) : ∃ front, inside = front ++ [.escape ' '] := by
  have cut : ∀ (front : List Token) (token : Token) (later : List Token),
      (∀ token ∈ later, token.isBlank = true) → token.isBlank = false →
        (front ++ token :: later).rdropWhile Token.isBlank = front ++ [token] := by
    intro front token later blank solid
    have reversed : ∀ token ∈ later.reverse, token.isBlank = true := fun token held =>
      blank token (List.mem_reverse.mp held)
    rw [List.append_cons, List.rdropWhile, List.reverse_append,
      List.dropWhile_append_of_pos reversed]
    simp [solid]
  have isCut := cut front (.escape ' ') later blank rfl
  rcases List.eq_nil_or_concat inside with rfl | ⟨begins, token, same'⟩
  · have held : Token.escape ' ' ∈ lead ++ back := by
      rw [List.nil_append] at same
      rw [same]
      exact List.mem_append_right _ List.mem_cons_self
    rcases List.mem_append.mp held with isLead | isBack
    · cases trimmed.leads _ isLead
    · cases trimmed.ends _ isBack
  · rw [List.concat_eq_append] at same'
    have solid := trimmed.last token (by rw [same']; simp)
    have isInside := cut (lead ++ begins) token back trimmed.ends solid
    have whole : lead ++ begins ++ token :: back = front ++ .escape ' ' :: later := by
      rw [← same, same']
      simp
    rw [whole, isCut] at isInside
    have isToken := (List.append_inj' isInside rfl).2
    exact ⟨begins, by rw [same', (List.cons.inj isToken).1]⟩

end Trimmed

theorem inWordAfter_append (inWord : Bool) (front back : List Token) :
    inWordAfter inWord (front ++ back) = inWordAfter (inWordAfter inWord front) back :=
  List.foldl_append

/-- Blanks leave no word begun. -/
theorem inWordAfter_blanks {read : List Token} (blank : ∀ token ∈ read, token.isBlank = true)
    (inWord : Bool) : inWordAfter inWord read = (inWord && read.isEmpty) := by
  induction read generalizing inWord with
  | nil => simp [inWordAfter]
  | cons token read inductionHypothesis =>
      obtain ⟨first, others⟩ := List.forall_mem_cons.mp blank
      have rest := inductionHypothesis others false
      rw [Bool.false_and] at rest
      rw [inWordAfter, List.foldl_cons, first, List.isEmpty_cons, Bool.and_false]
      exact rest

/-- The code reads the words that OpenSSH reads where no escaped space is before a `#` or at
the end, and no others. -/
theorem splitWords_eq_iff (blanks : Blanks line) (closed : argvSplit line = some words) :
    splitWords (stripInlineComment line) = words ↔ EscapesInside line := by
  obtain ⟨lead, inside, back, trimmed⟩ := Trimmed.exists_of_closed blanks closed
  obtain ⟨rest, shape, cut⟩ := cutFrom_shape none (tokens none line)
  have whole : uncommented false (tokens none line) = _ :=
    uncommented_eq (fun _ => white_of_mem) (fun _ => rfl) rest shape
  have isWords : words = wordsFrom false [] (uncommented false (tokens none line)) := by
    rw [argvSplit, argvFrom_eq blanks fun _ => rfl] at closed
    split at closed
    · exact (Option.some.inj closed).symm
    · cases closed
  rw [trimmed.same] at whole cut
  -- What OpenSSH reads on where the code cuts.
  generalize isMore : uncommented (inWordAfter false (lead ++ (inside ++ back))) rest = more
    at whole
  have moreOf : inWordAfter false (lead ++ (inside ++ back)) = false → more = [] := by
    intro outside
    rw [← isMore, outside]
    rcases cut with rfl | ⟨others, rfl, -⟩ <;> simp [uncommented]
  by_cases space : ∃ front, inside = front ++ [.escape ' ']
  · obtain ⟨front, same⟩ := space
    have escaped : uncommented false (tokens none line) =
        (lead ++ front) ++ .escape ' ' :: (back ++ more) := by
      rw [whole, same]
      simp
    refine iff_of_false (fun equal => ?_) fun inside_ => ?_
    · -- The code's word ends in the backslash, where OpenSSH's goes on with the space.
      rw [trimmed.splitWords_of_space same, isWords, escaped] at equal
      have leads : wordsFrom false [] ((lead ++ front) ++ .escape ' ' :: (back ++ more)) =
          wordsFrom false [] (front ++ .escape ' ' :: (back ++ more)) := by
        have none : wordsFrom false [] (lead ++ ((front ++ .escape ' ' :: (back ++ more)) ++ [])) =
            _ := wordsFrom_trimmed trimmed.leads nofun
        rwa [List.append_nil, ← List.append_assoc] at none
      obtain ⟨done, begun, last, words⟩ := wordsFrom_append false [] front
      obtain ⟨later, others, goesOn⟩ := wordsFrom_begun (last ++ [' ']) (back ++ more)
      rw [leads, words, words, List.append_cancel_left_eq] at equal
      simp only [wordsFrom, goesOn, if_true] at equal
      have first := (List.cons.inj equal).1
      rw [List.append_assoc, List.append_cancel_left_eq] at first
      exact absurd (List.cons.inj first).1 (by decide)
    · obtain ⟨notHash, token, held, solid⟩ := inside_ _ _ escaped
      rcases List.mem_append.mp held with isBack | isMoreToken
      · rw [trimmed.ends token isBack] at solid
        cases solid
      · have some : more ≠ [] := List.ne_nil_of_mem isMoreToken
        have begun : inWordAfter false (lead ++ (inside ++ back)) = true := by
          rw [← Bool.not_eq_false]
          exact fun outside => some (moreOf outside)
        rw [begun] at isMore
        rw [inWordAfter_append, inWordAfter_append, inWordAfter_blanks trimmed.ends,
          Bool.and_eq_true, List.isEmpty_iff] at begun
        rcases cut with rfl | ⟨others, rfl, -⟩
        · exact some isMore.symm
        · rw [begun.2, ← isMore] at notHash
          simp [uncommented] at notHash
  · have solid : ∀ front, inside ≠ front ++ [.escape ' '] := fun front same => space ⟨front, same⟩
    have none : more = [] := by
      rcases cut with rfl | ⟨others, rfl, white⟩
      · rw [← isMore]
        rfl
      · refine moreOf ?_
        rw [inWordAfter_append, inWordAfter_append, inWordAfter_blanks trimmed.ends,
          inWordAfter_blanks trimmed.leads, Bool.false_and, Bool.and_eq_false_imp]
        intro begun
        rcases List.eq_nil_or_concat inside with rfl | ⟨front, token, same⟩
        · cases begun
        · rw [List.concat_eq_append] at same
          by_contra noBack
          obtain rfl : back = [] := by simpa using noBack
          have lastSolid := trimmed.last_solid same fun isSpace => solid front (isSpace ▸ same)
          rw [same, List.append_nil, ← List.append_assoc, lastOf, List.foldl_append] at white
          simp [lastSolid] at white
    rw [none, List.append_nil] at whole
    refine iff_of_true ?_ fun front later same => ?_
    · rw [trimmed.splitWords_of_solid solid, isWords, whole,
        wordsFrom_trimmed trimmed.leads trimmed.ends]
    · rw [whole] at same
      refine ⟨fun isHash => ?_, ?_⟩
      · obtain ⟨others, rfl⟩ : ∃ others, later = .plain '#' :: others := by
          cases later with
          | nil => cases isHash
          | cons first others => exact ⟨others, by rw [Option.some.inj isHash]⟩
        have stays := not_cut (trimmed.same.trans (same.trans (List.append_cons _ _ _)))
        have white : isWhiteSpace ' ' = true := by decide
        rw [lastOf, List.foldl_append] at stays
        simp [Token.last, white] at stays
      · by_contra blank
        obtain ⟨front, isSpace⟩ := trimmed.eq_escape_of_blanks same fun token held => by
          simpa using fun solid => blank ⟨token, held, solid⟩
        exact solid front isSpace

end

/-- An escaped space, quotes, a `#` within a word, and a comment. -/
theorem splitWords_quoted :
    splitWords (stripInlineComment "Host a\\ b \"c # d\" e#f # g".toList) =
      ["Host".toList, "a b".toList, "c # d".toList, "e#f".toList] :=
  (splitWords_eq_iff (by decide +kernel) (by decide +kernel)).mpr (by decide +kernel)

/-- A `#` after an escaped space is taken for a comment's. -/
theorem not_splitWords_hash :
    let line := "IdentityFile a\\ #b".toList
    Blanks line ∧ argvSplit line = some ["IdentityFile".toList, "a #b".toList] ∧
      splitWords (stripInlineComment line) ≠ ["IdentityFile".toList, "a #b".toList] := by
  decide +kernel

end ServerBox.Ssh.ConfigWords
