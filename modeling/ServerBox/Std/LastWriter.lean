import Mathlib.Order.Basic
import Mathlib.Algebra.Order.Ring.Nat

/-!
# Last writer wins

A register holds nothing, or what was written last and when. Taking in another
register keeps the later of both; of two written at one time the one held stays.
Where the times differ the order in which registers are taken in is of no matter
(`newer_right_comm`), and taking one in again changes nothing (`newer_absorb`).
-/

namespace ServerBox.Std.LastWriter

/-- Nothing, or a value and the time it was written at. -/
abbrev Register (Time Value : Type) := Option (Time × Value)

variable {Time Value : Type} [LinearOrder Time]

/-- What a register holds once another was taken in. -/
def newer : Register Time Value → Register Time Value → Register Time Value
  | held, none => held
  | none, some incoming => some incoming
  | some held, some incoming => if incoming.1 ≤ held.1 then some held else some incoming

@[simp] theorem newer_none (held : Register Time Value) : newer held none = held := by
  cases held <;> rfl

@[simp] theorem none_newer (incoming : Register Time Value) : newer none incoming = incoming := by
  cases incoming <;> rfl

theorem newer_of_le {held incoming : Time × Value} (notLater : incoming.1 ≤ held.1) :
    newer (some held) (some incoming) = some held := if_pos notLater

theorem newer_of_lt {held incoming : Time × Value} (later : held.1 < incoming.1) :
    newer (some held) (some incoming) = some incoming := if_neg (not_le.mpr later)

/-- What is taken in is one of both. -/
theorem newer_eq_or (held incoming : Register Time Value) :
    newer held incoming = held ∨ newer held incoming = incoming := by
  cases held with
  | none => exact .inr (none_newer incoming)
  | some held =>
      cases incoming with
      | none => exact .inl rfl
      | some incoming =>
          rcases le_or_gt incoming.1 held.1 with notLater | later
          · exact .inl (newer_of_le notLater)
          · exact .inr (newer_of_lt later)

/-- A register taken in once more changes nothing. -/
theorem newer_absorb (held incoming : Register Time Value) :
    newer (newer held incoming) incoming = newer held incoming := by
  cases incoming with
  | none => simp
  | some incoming =>
      rcases newer_eq_or held (some incoming) with same | taken
      · rw [same, same]
      · rw [taken, newer_of_le (le_refl _)]

/-- Two registers are of one time nowhere. -/
def Apart (first second : Register Time Value) : Prop :=
  ∀ one ∈ first, ∀ other ∈ second, one.1 ≠ other.1

/-- Two registers of different times may be taken in in either order. -/
theorem newer_right_comm {first second : Register Time Value} (apart : Apart first second)
    (held : Register Time Value) :
    newer (newer held first) second = newer (newer held second) first := by
  cases first with
  | none => simp
  | some first =>
      cases second with
      | none => simp
      | some second =>
          have differ : first.1 ≠ second.1 := apart first rfl second rfl
          cases held with
          | none =>
              rcases lt_or_gt_of_ne differ with before | after
              · rw [none_newer, none_newer, newer_of_lt before, newer_of_le before.le]
              · rw [none_newer, none_newer, newer_of_le after.le, newer_of_lt after]
          | some held =>
              rcases le_or_gt first.1 held.1 with firstOld | firstNew
              · rcases newer_eq_or (some held) (some second) with same | taken
                · rw [newer_of_le firstOld, same, newer_of_le firstOld]
                · rcases le_or_gt second.1 held.1 with secondOld | secondNew
                  · rw [newer_of_le firstOld, newer_of_le secondOld, newer_of_le firstOld]
                  · rw [newer_of_le firstOld, taken, newer_of_le (firstOld.trans secondNew.le)]
              · rw [newer_of_lt firstNew]
                rcases lt_or_gt_of_ne differ with before | after
                · rw [newer_of_lt before, newer_of_lt (firstNew.trans before),
                    newer_of_le before.le]
                · rw [newer_of_le after.le]
                  rcases newer_eq_or (some held) (some second) with same | taken
                  · rw [same, newer_of_lt firstNew]
                  · rw [taken, newer_of_lt after]

end ServerBox.Std.LastWriter
