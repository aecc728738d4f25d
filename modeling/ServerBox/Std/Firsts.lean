import Mathlib.Data.List.Nodup

/-!
# First occurrences

The values of a list without those that came before, each where it came first.
-/

namespace ServerBox.Std

variable {Value : Type} [DecidableEq Value]

/-- The values that are not among those seen, each once. -/
def firsts (seen : List Value) : List Value → List Value
  | [] => []
  | value :: rest =>
      if value ∈ seen then firsts seen rest else value :: firsts (value :: seen) rest

theorem firsts_cons (seen : List Value) (value : Value) (rest : List Value) :
    firsts seen (value :: rest) =
      if value ∈ seen then firsts seen rest else value :: firsts (value :: seen) rest := rfl

theorem mem_firsts {value : Value} {values : List Value} (seen : List Value) :
    value ∈ firsts seen values ↔ value ∈ values ∧ value ∉ seen := by
  induction values generalizing seen with
  | nil => simp [firsts]
  | cons first rest inductionHypothesis =>
      rw [firsts_cons]
      split
      next known =>
        rw [inductionHypothesis, List.mem_cons]
        constructor
        · exact fun held => ⟨.inr held.1, held.2⟩
        · rintro ⟨rfl | later, unseen⟩
          · exact absurd known unseen
          · exact ⟨later, unseen⟩
      next fresh =>
        rw [List.mem_cons, inductionHypothesis, List.mem_cons, List.mem_cons]
        by_cases same : value = first
        · simp [same, fresh]
        · simp [same]

theorem nodup_firsts (seen values : List Value) : (firsts seen values).Nodup := by
  induction values generalizing seen with
  | nil => exact List.nodup_nil
  | cons first rest inductionHypothesis =>
      rw [firsts_cons]
      split
      next => exact inductionHypothesis seen
      next =>
        refine List.nodup_cons.mpr ⟨fun later => ?_, inductionHypothesis _⟩
        exact ((mem_firsts _).mp later).2 List.mem_cons_self

theorem firsts_sublist (seen values : List Value) : (firsts seen values).Sublist values := by
  induction values generalizing seen with
  | nil => exact .slnil
  | cons first rest inductionHypothesis =>
      rw [firsts_cons]
      split
      next => exact (inductionHypothesis seen).cons first
      next => exact (inductionHypothesis _).cons_cons first

/-- Of the values seen, only those of the list matter. -/
theorem firsts_congr {seen other values : List Value}
    (same : ∀ value ∈ values, value ∈ seen ↔ value ∈ other) :
    firsts seen values = firsts other values := by
  induction values generalizing seen other with
  | nil => rfl
  | cons first rest inductionHypothesis =>
      have later := fun value held => same value (List.mem_cons_of_mem first held)
      have both : ∀ value ∈ rest, value ∈ first :: seen ↔ value ∈ first :: other :=
        fun value held => by rw [List.mem_cons, List.mem_cons, later value held]
      rw [firsts_cons, firsts_cons, inductionHypothesis later, inductionHypothesis both]
      exact if_congr (same first List.mem_cons_self) rfl rfl

theorem firsts_append (seen before after : List Value) :
    firsts seen (before ++ after) = firsts seen before ++ firsts (before ++ seen) after := by
  induction before generalizing seen with
  | nil => rfl
  | cons first rest inductionHypothesis =>
      rw [List.cons_append, firsts_cons, firsts_cons]
      split
      next known =>
        rw [inductionHypothesis]
        refine congrArg _ (firsts_congr fun value _ => ?_)
        rw [List.cons_append, List.mem_cons]
        exact ⟨.inr, fun held => held.elim (fun same => same ▸ List.mem_append_right _ known) id⟩
      next =>
        rw [inductionHypothesis, List.cons_append]
        refine congrArg _ (congrArg _ (firsts_congr fun value _ => ?_))
        rw [List.mem_append, List.mem_cons, List.cons_append, List.mem_cons, List.mem_append]
        exact or_left_comm

theorem filter_firsts (keep : Value → Bool) (seen values : List Value) :
    (firsts seen values).filter keep = firsts seen (values.filter keep) := by
  induction values generalizing seen with
  | nil => rfl
  | cons first rest inductionHypothesis =>
      by_cases kept : keep first = true
      · rw [List.filter_cons_of_pos kept, firsts_cons, firsts_cons]
        split
        next => exact inductionHypothesis seen
        next => rw [List.filter_cons_of_pos kept, inductionHypothesis]
      · rw [List.filter_cons_of_neg kept, firsts_cons]
        split
        next => exact inductionHypothesis seen
        next =>
          rw [List.filter_cons_of_neg kept, inductionHypothesis]
          refine firsts_congr fun value held => ?_
          have differs : value ≠ first := fun same => kept (same ▸ (List.mem_filter.mp held).2)
          rw [List.mem_cons, or_iff_right differs]

theorem firsts_eq_self {values : List Value} (distinct : values.Nodup) {seen : List Value}
    (fresh : ∀ value ∈ values, value ∉ seen) : firsts seen values = values := by
  induction values generalizing seen with
  | nil => rfl
  | cons first rest inductionHypothesis =>
      obtain ⟨notLater, later⟩ := List.nodup_cons.mp distinct
      rw [firsts_cons, if_neg (fresh first List.mem_cons_self), inductionHypothesis later]
      intro value held known
      rcases List.mem_cons.mp known with rfl | seenBefore
      · exact notLater held
      · exact fresh value (List.mem_cons_of_mem _ held) seenBefore

end ServerBox.Std
