import Mathlib.Logic.Relation

/-!
# Relations without cycles

What may be changed of a relation at one point so that it still has no cycle.
-/

namespace ServerBox.Std

open Relation

variable {α : Type} {before after : α → α → Prop} {point : α}

/-- No step after step leads back. -/
def Acyclic (step : α → α → Prop) : Prop := ∀ x, ¬ TransGen step x x

/-- A step that is not from the point keeps away from what leads to it. -/
theorem not_leads_of_step (others : ∀ x y, x ≠ point → after x y → before x y) {x y : α}
    (away : ¬ ReflTransGen before x point) (step : after x y) :
    before x y ∧ ¬ ReflTransGen before y point := by
  have differs : x ≠ point := by
    rintro rfl
    exact away .refl
  have same := others x y differs step
  exact ⟨same, fun leads => away (.head same leads)⟩

/-- From what does not lead to the point, the steps are as before. -/
theorem transGen_of_away (others : ∀ x y, x ≠ point → after x y → before x y) {x y : α}
    (away : ¬ ReflTransGen before x point) (steps : TransGen after x y) :
    TransGen before x y ∧ ¬ ReflTransGen before y point := by
  induction steps with
  | single step =>
      obtain ⟨same, stays⟩ := not_leads_of_step others away step
      exact ⟨.single same, stays⟩
  | tail _ step inductionHypothesis =>
      obtain ⟨steps, stays⟩ := inductionHypothesis
      obtain ⟨same, staysNext⟩ := not_leads_of_step others stays step
      exact ⟨steps.tail same, staysNext⟩

/-- A relation without cycles has none when a point is led to where nothing leads back to it. -/
theorem Acyclic.redirect (acyclic : Acyclic before)
    (others : ∀ x y, x ≠ point → after x y → before x y)
    (avoids : ∀ y, after point y → ¬ ReflTransGen before y point) : Acyclic after := by
  -- A step either was there or leads away from the point.
  have either {x y : α} (step : after x y) : before x y ∨ ¬ ReflTransGen before y point := by
    by_cases isPoint : x = point
    · exact .inr (avoids y (isPoint ▸ step))
    · exact .inl (others x y isPoint step)
  have leads {x y : α} (steps : TransGen after x y) :
      TransGen before x y ∨ ¬ ReflTransGen before y point := by
    induction steps with
    | single step => exact (either step).imp_left .single
    | tail _ step inductionHypothesis =>
        rcases inductionHypothesis with same | away
        · exact (either step).imp_left same.tail
        · exact .inr (not_leads_of_step others away step).2
  intro x cycle
  rcases leads cycle with same | away
  · exact acyclic x same
  · exact acyclic x (transGen_of_away others away cycle).1

end ServerBox.Std
