import ServerBox.Std.Text

/-!
# Words between whitespace

A text is its words with whitespace around them. `takeWords` takes so many from its front, each to
the next whitespace, and what it leaves is the text behind them: of words that were written with
single spaces it takes those words (`takeWords_join`).
-/

namespace ServerBox.Std.Text

def isSolid (char : Char) : Bool := !isWhitespace char

/-- A word: some characters, none of them whitespace. -/
def IsWord (word : Text) : Prop := word ≠ [] ∧ ∀ char ∈ word, isWhitespace char = false

/-- `split_whitespace` of so many words, and what is left; nothing where there are fewer. -/
def takeWords : Nat → Text → Option (List Text × Text)
  | 0, text => some ([], text)
  | count + 1, text =>
      let rest := trimStart text
      if rest.isEmpty then none
      else (takeWords count (rest.dropWhile isSolid)).map fun (words, left) =>
        (rest.takeWhile isSolid :: words, left)

theorem takeWords_zero (text : Text) : takeWords 0 text = some ([], text) := rfl

theorem takeWords_succ (count : Nat) (text : Text) :
    takeWords (count + 1) text =
      if (trimStart text).isEmpty then none
      else (takeWords count ((trimStart text).dropWhile isSolid)).map fun (words, left) =>
        ((trimStart text).takeWhile isSolid :: words, left) := rfl

/-! ### Splitting at whitespace -/

theorem splitWhitespace_cons_white {char : Char} (white : isWhitespace char = true) (text : Text) :
    splitWhitespace (char :: text) = splitWhitespace text := by
  rw [splitWhitespace, List.splitOnP_cons_eq_if_modifyHead, if_pos white]
  rfl

theorem splitWhitespace_trimStart (text : Text) :
    splitWhitespace (trimStart text) = splitWhitespace text := by
  induction text with
  | nil => rfl
  | cons char text inductionHypothesis =>
      rw [trimStart, List.dropWhile_cons]
      split
      next white => exact inductionHypothesis.trans (splitWhitespace_cons_white white text).symm
      next => rfl

/-- A word with whitespace or nothing behind it. -/
theorem splitWhitespace_append {word rest : Text} (isWord : IsWord word)
    (ends : ∀ char ∈ rest.head?, isWhitespace char = true) :
    splitWhitespace (word ++ rest) = word :: splitWhitespace rest := by
  obtain ⟨others, shape⟩ : ∃ others, rest.splitOnP isWhitespace = [] :: others := by
    cases rest with
    | nil => exact ⟨[], rfl⟩
    | cons char rest =>
        rw [List.splitOnP_cons_eq_if_modifyHead, if_pos (ends char rfl)]
        exact ⟨_, rfl⟩
  have whole : ∀ word : Text, (∀ char ∈ word, isWhitespace char = false) →
      (word ++ rest).splitOnP isWhitespace = word :: others := by
    intro word solid
    induction word with
    | nil => exact shape
    | cons char word inductionHypothesis =>
        obtain ⟨here, later⟩ := List.forall_mem_cons.mp solid
        rw [List.cons_append, List.splitOnP_cons_eq_if_modifyHead, here,
          inductionHypothesis later]
        rfl
  rw [splitWhitespace, splitWhitespace, whole word isWord.2, shape]
  cases word with
  | nil => exact absurd rfl isWord.1
  | cons char word => rfl

theorem head?_dropWhile_solid (text : Text) :
    ∀ char ∈ (text.dropWhile isSolid).head?, isWhitespace char = true := by
  intro char held
  have stops := List.head?_dropWhile_not isSolid text
  rw [Option.mem_def.mp held] at stops
  simpa [isSolid] using stops

theorem isWord_takeWhile {text : Text} {char : Char} (starts : text.head? = some char)
    (solid : isWhitespace char = false) : IsWord (text.takeWhile isSolid) := by
  constructor
  · cases text with
    | nil => cases starts
    | cons first text =>
        obtain rfl := Option.some.inj starts
        rw [List.takeWhile_cons_of_pos (by simp [isSolid, solid])]
        exact List.cons_ne_nil _ _
  · intro other held
    have isSolid := List.mem_takeWhile_imp held
    simpa [Text.isSolid] using isSolid

theorem head?_trimStart {text : Text} {char : Char} (starts : (trimStart text).head? = some char) :
    isWhitespace char = false := by
  have stops := List.head?_dropWhile_not isWhitespace text
  rw [trimStart] at starts
  rw [starts] at stops
  simpa using stops

/-- The words of a text, from its first. -/
theorem splitWhitespace_eq {text : Text} (some : trimStart text ≠ []) :
    splitWhitespace text = (trimStart text).takeWhile isSolid ::
      splitWhitespace ((trimStart text).dropWhile isSolid) := by
  obtain ⟨char, rest, shape⟩ := List.exists_cons_of_ne_nil some
  have starts : (trimStart text).head? = Option.some char := by rw [shape]; rfl
  rw [← splitWhitespace_append (isWord_takeWhile starts (head?_trimStart starts))
    (head?_dropWhile_solid _), List.takeWhile_append_dropWhile, splitWhitespace_trimStart]

theorem trimStart_eq_nil {text : Text} (none : splitWhitespace text = []) :
    trimStart text = [] := by
  by_contra some
  rw [splitWhitespace_eq some] at none
  cases none

/-- Words with single spaces between them. -/
theorem splitWhitespace_join {words : List Text} (areWords : ∀ word ∈ words, IsWord word) :
    splitWhitespace (join ' ' words) = words := by
  induction words with
  | nil => rfl
  | cons word words inductionHypothesis =>
      obtain ⟨here, later⟩ := List.forall_mem_cons.mp areWords
      cases words with
      | nil =>
          have single : splitWhitespace (word ++ []) = word :: splitWhitespace [] :=
            splitWhitespace_append here (by simp)
          rw [List.append_nil] at single
          rw [join_singleton, single]
          rfl
      | cons next words =>
          rw [join_cons_cons, splitWhitespace_append here (by simp; decide),
            splitWhitespace_cons_white (by decide), inductionHypothesis later]

/-! ### Trimmed texts -/

theorem exists_cons_trim {text : Text} (some : trim text ≠ []) :
    ∃ char rest, isWhitespace char = false ∧ trim text = char :: rest := by
  cases shape : trimStart text with
  | nil =>
      rw [trim, shape] at some
      exact absurd rfl some
  | cons char rest =>
      have solid := head?_trimStart (by rw [shape]; rfl)
      refine ⟨char, trimEnd rest, solid, ?_⟩
      rw [trim, shape]
      exact trimEnd_append_cons [] rest solid

theorem trimEnd_append (front : Text) {back : Text} (some : trimEnd back ≠ []) :
    trimEnd (front ++ back) = front ++ trimEnd back := by
  obtain ⟨char, held, solid⟩ : ∃ char ∈ back, isWhitespace char = false := by
    by_contra blank
    simp only [not_exists, not_and, Bool.not_eq_false] at blank
    refine some (List.rdropWhile_eq_nil_iff.mpr blank)
  obtain ⟨before, after, rfl⟩ := List.append_of_mem held
  rw [← List.append_assoc, trimEnd_append_cons _ after solid, trimEnd_append_cons _ after solid,
    List.append_assoc]

/-- Words with single spaces have no whitespace at their ends. -/
theorem trim_join {words : List Text} (areWords : ∀ word ∈ words, IsWord word) :
    trim (join ' ' words) = join ' ' words := by
  have ends : trimEnd (join ' ' words) = join ' ' words := by
    induction words with
    | nil => rfl
    | cons word words inductionHypothesis =>
        obtain ⟨here, later⟩ := List.forall_mem_cons.mp areWords
        cases words with
        | nil =>
            rw [join_singleton]
            exact trimEnd_eq_self here.2
        | cons next words =>
            have further := inductionHypothesis later
            have some : trimEnd (join ' ' (next :: words)) ≠ [] := by
              rw [further]
              intro empty
              have none := splitWhitespace_join later
              rw [empty] at none
              cases none
            rw [join_cons_cons, List.append_cons, trimEnd_append _ some, further]
  have starts : trimStart (join ' ' words) = join ' ' words := by
    cases words with
    | nil => rfl
    | cons word words =>
        obtain ⟨some, solid⟩ := areWords word List.mem_cons_self
        obtain ⟨char, rest, rfl⟩ := List.exists_cons_of_ne_nil some
        have here := solid char List.mem_cons_self
        cases words with
        | nil => rw [join_singleton, trimStart_eq_self solid]
        | cons next words =>
            rw [join_cons_cons, trimStart, List.cons_append,
              List.dropWhile_cons_of_neg (by rw [here]; decide)]
  rw [trim, starts, ends]

/-! ### Words at the front -/

theorem takeWords_words {count : Nat} {text left : Text} {words : List Text}
    (took : takeWords count text = some (words, left)) :
    words.length = count ∧ ∀ word ∈ words, IsWord word := by
  induction count generalizing text words with
  | zero =>
      obtain ⟨rfl, -⟩ := Prod.mk.inj (Option.some.inj took)
      exact ⟨rfl, nofun⟩
  | succ count inductionHypothesis =>
      rw [takeWords_succ] at took
      split at took
      next => cases took
      next notEmpty =>
        obtain ⟨⟨others, rest⟩, further, same⟩ := Option.map_eq_some_iff.mp took
        obtain ⟨rfl, rfl⟩ := Prod.mk.inj same
        obtain ⟨length, areWords⟩ := inductionHypothesis further
        obtain ⟨char, behind, shape⟩ := List.exists_cons_of_ne_nil
          (fun empty => notEmpty (List.isEmpty_iff.mpr empty))
        have starts : (trimStart text).head? = some char := by rw [shape]; rfl
        exact ⟨by rw [List.length_cons, length], List.forall_mem_cons.mpr
          ⟨isWord_takeWhile starts (head?_trimStart starts), areWords⟩⟩

/-- All words of a text are taken from what it begins, up to the whitespace behind it. -/
theorem takeWords_append {front : Text} {white : Char} (isWhite : isWhitespace white = true)
    (back : Text) :
    ∃ left, takeWords (splitWhitespace front).length (front ++ white :: back) =
        some (splitWhitespace front, left) ∧ trimStart left = trimStart back := by
  induction size : (splitWhitespace front).length generalizing front with
  | zero =>
      rw [List.length_eq_zero_iff] at size
      refine ⟨_, by rw [takeWords_zero, size], ?_⟩
      have empty : front.dropWhile isWhitespace = [] := trimStart_eq_nil size
      rw [trimStart, List.dropWhile_append, empty]
      simp only [List.isEmpty_nil, if_true]
      rw [List.dropWhile_cons_of_pos isWhite]
      rfl
  | succ count inductionHypothesis =>
      have some : trimStart front ≠ [] := by
        intro empty
        rw [← splitWhitespace_trimStart, empty] at size
        cases size
      have words := splitWhitespace_eq some
      have fewer : (splitWhitespace ((trimStart front).dropWhile isSolid)).length = count := by
        rw [words, List.length_cons] at size
        omega
      obtain ⟨left, took, same⟩ := inductionHypothesis fewer
      have start : trimStart (front ++ white :: back) = trimStart front ++ white :: back := by
        rw [trimStart, List.dropWhile_append]
        rw [if_neg (by rw [List.isEmpty_iff]; exact some)]
        rfl
      have stops : isSolid white = false := by rw [isSolid, isWhite]; rfl
      have drops : (trimStart front ++ white :: back).dropWhile isSolid =
          (trimStart front).dropWhile isSolid ++ white :: back := by
        rw [List.dropWhile_append]
        split
        next empty =>
          rw [List.isEmpty_iff.mp empty, List.dropWhile_cons_of_neg (by rw [stops]; decide)]
          rfl
        next => rfl
      have takes : (trimStart front ++ white :: back).takeWhile isSolid =
          (trimStart front).takeWhile isSolid := by
        have both := List.takeWhile_append_dropWhile (p := isSolid)
          (l := trimStart front ++ white :: back)
        rw [drops] at both
        have whole := List.takeWhile_append_dropWhile (p := isSolid) (l := trimStart front)
        conv_rhs at both => rw [← whole]
        rw [List.append_assoc] at both
        exact List.append_cancel_right both
      refine ⟨left, ?_, same⟩
      rw [takeWords_succ, start, if_neg (by simp), drops, takes, took, words]
      rfl

end ServerBox.Std.Text
