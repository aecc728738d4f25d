import Mathlib.Data.List.Basic

/-!
# UTF-16

Texts as their code units. A text is well formed when its surrogates stand in pairs; it stays so
on both sides of a cut that is not made inside a pair.
-/

namespace ServerBox.Std

abbrev CodeUnits := List UInt16

namespace Utf16

def isHighSurrogate (unit : UInt16) : Bool := 0xD800 ≤ unit && unit ≤ 0xDBFF

def isLowSurrogate (unit : UInt16) : Bool := 0xDC00 ≤ unit && unit ≤ 0xDFFF

theorem not_high_of_low {unit : UInt16} (low : isLowSurrogate unit) :
    isHighSurrogate unit = false := by
  simp only [isLowSurrogate, isHighSurrogate, Bool.and_eq_true, decide_eq_true_eq,
    Bool.and_eq_false_iff, decide_eq_false_iff_not, UInt16.le_iff_toNat_le] at *
  right
  have := low.1
  simp only [UInt16.toNat_ofNat] at *
  omega

/-- Every surrogate is one of a pair, a high one before a low one. -/
inductive WellFormed : CodeUnits → Prop
  | nil : WellFormed []
  | single {unit : UInt16} {units : CodeUnits} (high : isHighSurrogate unit = false)
      (low : isLowSurrogate unit = false) (rest : WellFormed units) : WellFormed (unit :: units)
  | pair {high low : UInt16} {units : CodeUnits} (isHigh : isHighSurrogate high)
      (isLow : isLowSurrogate low) (rest : WellFormed units) : WellFormed (high :: low :: units)

theorem WellFormed.append {front back : CodeUnits} (first : WellFormed front)
    (second : WellFormed back) : WellFormed (front ++ back) := by
  induction first with
  | nil => exact second
  | single high low _ inductionHypothesis => exact .single high low inductionHypothesis
  | pair isHigh isLow _ inductionHypothesis => exact .pair isHigh isLow inductionHypothesis

/-- A cut that no high surrogate stands before. -/
theorem WellFormed.cut {units : CodeUnits} (wellFormed : WellFormed units) {index : Nat}
    (between : ∀ unit ∈ (units.take index).getLast?, isHighSurrogate unit = false) :
    WellFormed (units.take index) ∧ WellFormed (units.drop index) := by
  induction wellFormed generalizing index with
  | nil => simp [WellFormed.nil]
  | @single unit units high low rest inductionHypothesis =>
      cases index with
      | zero => exact ⟨.nil, .single high low rest⟩
      | succ index =>
          have ⟨front, back⟩ := @inductionHypothesis index fun last held => by
            refine between last ?_
            rw [List.take_succ_cons, List.getLast?_cons]
            simp [Option.mem_def.mp held]
          exact ⟨.single high low front, back⟩
  | @pair high low units isHigh isLow rest inductionHypothesis =>
      cases index with
      | zero => exact ⟨.nil, .pair isHigh isLow rest⟩
      | succ index =>
          cases index with
          | zero =>
              have notHigh := between high rfl
              rw [isHigh] at notHigh
              cases notHigh
          | succ index =>
              have ⟨front, back⟩ := @inductionHypothesis index fun last held => by
                refine between last ?_
                rw [List.take_succ_cons, List.take_succ_cons, List.getLast?_cons,
                  List.getLast?_cons]
                simp [Option.mem_def.mp held]
              exact ⟨.pair isHigh isLow front, back⟩

/-- Behind a high surrogate there is a low one. -/
theorem WellFormed.low_of_high {units : CodeUnits} (wellFormed : WellFormed units) {index : Nat}
    {unit : UInt16} (here : units[index]? = some unit) (high : isHighSurrogate unit) :
    ∃ next, units[index + 1]? = some next ∧ isLowSurrogate next := by
  induction wellFormed generalizing index with
  | nil => cases here
  | single notHigh _ _ inductionHypothesis =>
      cases index with
      | zero =>
          obtain rfl := Option.some.inj here
          rw [notHigh] at high
          cases high
      | succ index => exact inductionHypothesis here
  | @pair first second units isHigh isLow _ inductionHypothesis =>
      match index with
      | 0 => exact ⟨second, rfl, isLow⟩
      | 1 =>
          obtain rfl := Option.some.inj here
          rw [not_high_of_low isLow] at high
          cases high
      | index + 2 => exact inductionHypothesis here

/-- Before a unit that is no low surrogate, or behind the end, a text is cut. -/
theorem WellFormed.cut_before {units : CodeUnits} (wellFormed : WellFormed units) {index : Nat}
    (notLow : ∀ unit ∈ units[index]?, isLowSurrogate unit = false) :
    WellFormed (units.take index) ∧ WellFormed (units.drop index) := by
  refine wellFormed.cut fun unit held => ?_
  rw [Bool.eq_false_iff]
  intro high
  rw [List.getLast?_take] at held
  split at held
  next => cases held
  next later =>
    obtain here | ⟨_, last⟩ := Option.or_eq_some_iff.mp held
    · obtain ⟨next, following, low⟩ := wellFormed.low_of_high here high
      rw [show index - 1 + 1 = index by omega] at following
      rw [notLow next following] at low
      cases low
    · rw [List.getLast?_eq_getElem?] at last
      obtain ⟨next, following, _⟩ := wellFormed.low_of_high last high
      have inside := (List.getElem?_eq_some_iff.mp following).1
      omega

end Utf16

end ServerBox.Std
