/-!
# Programs that take a stream in pieces

A program that asks for so many of a stream's items at a time, says something in between and comes
to a value. `run` is what it comes to over the whole of a stream: which pieces it took, what it
said, and what was left. Pieces are taken one after another, so with what is left they are the
stream (`flatten_taken`); how the stream comes in is no part of it.
-/

namespace ServerBox.Std

inductive Taking (Item Message Value : Type) where
  | give (value : Value)
  | say (message : Message) (next : Taking Item Message Value)
  | take (count : Nat) (next : List Item → Taking Item Message Value)

namespace Taking

variable {Item Message Value : Type}

/-- What a program came to; nothing where the stream ended inside a piece. -/
structure Result (Item Message Value : Type) where
  taken : List (List Item)
  said : List Message
  value : Option Value
  left : List Item

namespace Result

def afterPiece (piece : List Item) (result : Result Item Message Value) :
    Result Item Message Value :=
  { result with taken := piece :: result.taken }

def afterMessage (message : Message) (result : Result Item Message Value) :
    Result Item Message Value :=
  { result with said := message :: result.said }

/-- What came of a program that took pieces and said messages before. -/
def after (taken : List (List Item)) (said : List Message) (result : Result Item Message Value) :
    Result Item Message Value :=
  { result with taken := taken ++ result.taken, said := said ++ result.said }

variable (taken : List (List Item)) (said : List Message) (result : Result Item Message Value)

theorem after_nil : result.after [] [] = result := rfl

theorem after_afterPiece (piece : List Item) :
    (result.afterPiece piece).after taken said = result.after (taken ++ [piece]) said := by
  simp [after, afterPiece]

theorem after_afterMessage (message : Message) :
    (result.afterMessage message).after taken said = result.after taken (said ++ [message]) := by
  simp [after, afterMessage]

end Result

/-- What a program comes to over a stream. -/
def run : Taking Item Message Value → List Item → Result Item Message Value
  | .give value, items => ⟨[], [], some value, items⟩
  | .say message next, items => (next.run items).afterMessage message
  | .take count next, items =>
      if count ≤ items.length then
        ((next (items.take count)).run (items.drop count)).afterPiece (items.take count)
      else ⟨[], [], none, items⟩

/-- How many steps that is. -/
def steps : Taking Item Message Value → List Item → Nat
  | .give _, _ => 0
  | .say _ next, items => next.steps items + 1
  | .take count next, items =>
      if count ≤ items.length then (next (items.take count)).steps (items.drop count) + 1
      else 1

theorem run_take (count : Nat) (next : List Item → Taking Item Message Value) (items : List Item) :
    (take count next).run items =
      if count ≤ items.length then
        ((next (items.take count)).run (items.drop count)).afterPiece (items.take count)
      else ⟨[], [], none, items⟩ := rfl

theorem steps_take (count : Nat) (next : List Item → Taking Item Message Value)
    (items : List Item) :
    (take count next).steps items =
      if count ≤ items.length then (next (items.take count)).steps (items.drop count) + 1
      else 1 := rfl

/-- The pieces and what is left are the stream. -/
theorem flatten_taken (program : Taking Item Message Value) (items : List Item) :
    (program.run items).taken.flatten ++ (program.run items).left = items := by
  induction program generalizing items with
  | give value => rfl
  | say message next inductionHypothesis => exact inductionHypothesis items
  | take count next inductionHypothesis =>
      rw [run_take]
      split
      next =>
        simp only [Result.afterPiece, List.flatten_cons, List.append_assoc, inductionHypothesis,
          List.take_append_drop]
      next => rfl

section

variable {count : Nat} {next : List Item → Taking Item Message Value} {items : List Item}

theorem run_take_append {piece : List Item} (whole : piece.length = count) :
    (take count next).run (piece ++ items) = ((next piece).run items).afterPiece piece := by
  rw [run_take, if_pos (by simp [whole]), List.take_left' whole, List.drop_left' whole]

theorem run_take_of_lt (short : items.length < count) :
    (take count next).run items = ⟨[], [], none, items⟩ :=
  if_neg (by omega)

theorem steps_take_append {piece : List Item} (whole : piece.length = count) :
    (take count next).steps (piece ++ items) = (next piece).steps items + 1 := by
  rw [steps_take, if_pos (by simp [whole]), List.take_left' whole, List.drop_left' whole]

theorem steps_take_pos : 0 < (take count next).steps items := by
  rw [steps_take]
  split <;> omega

end

/-- A program comes to a value over a stream, and leaves the rest. -/
def Comes (program : Taking Item Message Value) (items : List Item) (value : Value)
    (left : List Item) : Prop :=
  (program.run items).value = some value ∧ (program.run items).left = left

variable {items left : List Item} {value : Value}

theorem comes_give {given : Value} :
    (give given : Taking Item Message Value).Comes items value left ↔
      given = value ∧ items = left := by
  simp [Comes, run]

theorem comes_say {message : Message} {next : Taking Item Message Value} :
    (say message next).Comes items value left ↔ next.Comes items value left := Iff.rfl

theorem comes_take {count : Nat} {next : List Item → Taking Item Message Value} :
    (take count next).Comes items value left ↔
      ∃ piece rest, piece.length = count ∧ items = piece ++ rest ∧
        (next piece).Comes rest value left := by
  constructor
  · intro comes
    by_cases enough : count ≤ items.length
    · rw [Comes, run_take, if_pos enough] at comes
      exact ⟨items.take count, items.drop count, List.length_take_of_le enough,
        (List.take_append_drop _ _).symm, comes⟩
    · rw [Comes, run_take_of_lt (Nat.not_le.mp enough)] at comes
      cases comes.1
  · rintro ⟨piece, rest, whole, rfl, comes⟩
    rw [Comes, run_take_append whole]
    exact comes

end Taking

end ServerBox.Std
