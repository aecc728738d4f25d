import ServerBox.Std.Text

/-!
# Lines of a text

The lines of a text as Rust's `str::lines` gives them, and `str::trim_matches` for one
character.
-/

namespace ServerBox.Std.Text

/-- A line without the carriage return before its end. -/
def withoutReturn (line : Text) : Text :=
  if line.getLast? = some '\r' then line.dropLast else line

/-- The lines of a text that goes on from the line begun. -/
def linesFrom (begun : Text) : Text → List Text
  | [] => if begun = [] then [] else [begun]
  | char :: rest =>
      if char = '\n' then withoutReturn begun :: linesFrom [] rest
      else linesFrom (begun ++ [char]) rest

def lines (text : Text) : List Text := linesFrom [] text

/-- A text up to a line end goes on the line begun. -/
theorem linesFrom_append {front : Text} (oneLine : '\n' ∉ front) (begun rest : Text) :
    linesFrom begun (front ++ '\n' :: rest) = withoutReturn (begun ++ front) :: lines rest := by
  induction front generalizing begun with
  | nil => simp [linesFrom, lines]
  | cons char front inductionHypothesis =>
      obtain ⟨other, later⟩ := List.ne_and_not_mem_of_not_mem_cons oneLine
      rw [List.cons_append, linesFrom, if_neg (Ne.symm other), inductionHypothesis later,
        List.append_assoc, List.singleton_append]

/-- The first line of a text, and the lines of the rest. -/
theorem lines_append {front : Text} (oneLine : '\n' ∉ front) (rest : Text) :
    lines (front ++ '\n' :: rest) = withoutReturn front :: lines rest :=
  linesFrom_append oneLine [] rest

theorem withoutReturn_eq_self {line : Text} (ends : line.getLast? ≠ some '\r') :
    withoutReturn line = line := if_neg ends

theorem mem_of_mem_withoutReturn {line : Text} {char : Char}
    (held : char ∈ withoutReturn line) : char ∈ line := by
  unfold withoutReturn at held
  split at held
  · exact List.dropLast_subset _ held
  · exact held

theorem newline_not_mem_linesFrom {text begun line : Text} (oneLine : '\n' ∉ begun)
    (held : line ∈ linesFrom begun text) : '\n' ∉ line := by
  induction text generalizing begun with
  | nil =>
      unfold linesFrom at held
      split at held
      · cases held
      · rwa [List.mem_singleton.mp held]
  | cons char rest inductionHypothesis =>
      unfold linesFrom at held
      split at held
      next =>
        rcases List.mem_cons.mp held with rfl | later
        · exact fun inLine => oneLine (mem_of_mem_withoutReturn inLine)
        · exact inductionHypothesis List.not_mem_nil later
      next other =>
        refine inductionHypothesis (fun inBegun => ?_) held
        rcases List.mem_append.mp inBegun with before | last
        · exact oneLine before
        · exact other (List.mem_singleton.mp last).symm

/-- No line holds a line end. -/
theorem newline_not_mem_lines {text line : Text} (held : line ∈ lines text) : '\n' ∉ line :=
  newline_not_mem_linesFrom List.not_mem_nil held

/-! ### A text without a character at its ends -/

/-- `str::trim_matches` for one character. -/
def trimMatches (trimmed : Char) (text : Text) : Text :=
  (text.dropWhile (· = trimmed)).rdropWhile (· = trimmed)

/-- A text that neither starts nor ends with a character. -/
def Bare (barred : Char) (text : Text) : Prop :=
  text.head? ≠ some barred ∧ text.getLast? ≠ some barred

theorem bare_trimMatches (trimmed : Char) (text : Text) :
    Bare trimmed (trimMatches trimmed text) := by
  constructor
  · intro first
    have starts : trimMatches trimmed text <+: text.dropWhile (· = trimmed) :=
      List.rdropWhile_prefix _ _
    obtain ⟨rest, whole⟩ := starts
    have fails := List.head?_dropWhile_not (· = trimmed) text
    rw [← whole, List.head?_append, first] at fails
    simp at fails
  · intro last
    unfold trimMatches at last
    have nonempty : (text.dropWhile (· = trimmed)).rdropWhile (· = trimmed) ≠ [] := by
      intro empty
      rw [empty] at last
      cases last
    have fails := List.rdropWhile_last_not _ _ nonempty
    rw [List.getLast?_eq_some_getLast nonempty, Option.some_inj] at last
    rw [last] at fails
    simp at fails

/-- A text between two of a character it neither starts nor ends with. -/
theorem trimMatches_between {trimmed : Char} {text : Text} (bare : Bare trimmed text) :
    trimMatches trimmed (trimmed :: text ++ [trimmed]) = text := by
  unfold trimMatches
  rw [List.cons_append, List.dropWhile_cons_of_pos (by simp)]
  cases text with
  | nil => simp
  | cons char rest =>
      have first : char ≠ trimmed := fun same => bare.1 (same ▸ rfl)
      rw [List.cons_append, List.dropWhile_cons_of_neg (by simpa using first), ← List.cons_append,
        List.rdropWhile_concat_pos _ _ _ (by simp), List.rdropWhile_eq_self_iff]
      intro nonempty last
      have isLast := List.getLast?_eq_some_getLast nonempty
      rw [of_decide_eq_true last] at isLast
      exact bare.2 isLast

theorem mem_of_mem_trimMatches {trimmed char : Char} {text : Text}
    (held : char ∈ trimMatches trimmed text) : char ∈ text :=
  (List.dropWhile_suffix _).subset ((List.rdropWhile_prefix _ _).subset held)

end ServerBox.Std.Text
