import Mathlib.Order.Nat
import Mathlib.Algebra.Order.Ring.Nat

/-!
# Bisection

The search for the last position of an interval whose key is not above a target, over keys
that are read one at a time and whose reads may fail.
-/

namespace ServerBox.Std.Bisect

variable {κ : Type*} [LinearOrder κ]

/-- The middle of a nonempty interval lies in it. -/
theorem middle_lt {lo hi : Nat} (active : lo < hi) : lo + ((hi - lo) >>> 1) < hi := by
  rw [Nat.shiftRight_eq_div_pow, Nat.pow_one]
  omega

/-- The last position of `[lo, hi)` whose key is not above the target, with the one found so
far. `none` is a key that could not be read. -/
def lastAtMost (keyAt : Nat → Option κ) (target : κ) (lo hi : Nat) (found : Option Nat) :
    Option (Option Nat) :=
  if lo < hi then
    let mid := lo + ((hi - lo) >>> 1)
    match keyAt mid with
    | none => none
    | some key =>
      if key ≤ target then lastAtMost keyAt target (mid + 1) hi (some mid)
      else lastAtMost keyAt target lo mid found
  else some found
termination_by hi - lo
decreasing_by
  all_goals
    have midLt := middle_lt ‹lo < hi›
    omega

/-- The position is the last of the interval whose key is not above the target, and no such
key is above its own. -/
structure IsLast (keyOf : Nat → κ) (target : κ) (first last position : Nat) : Prop where
  first_le : first ≤ position
  lt_last : position < last
  atMost : keyOf position ≤ target
  greatest : ∀ other, first ≤ other → other < last → keyOf other ≤ target →
    keyOf other ≤ keyOf position ∧ other ≤ position

variable {keyAt : Nat → Option κ} {keyOf : Nat → κ} {target : κ} {first last : Nat}

/-- The search reads inside its interval only, and finds a position of it. -/
theorem lastAtMost_within (reads : ∀ i, first ≤ i → i < last → keyAt i = some (keyOf i))
    {lo hi : Nat} {found : Option Nat} (firstLe : first ≤ lo) (leLast : hi ≤ last)
    (foundWithin : ∀ i ∈ found, first ≤ i ∧ i < last) :
    ∃ result, lastAtMost keyAt target lo hi found = some result ∧
      ∀ i ∈ result, first ≤ i ∧ i < last := by
  fun_induction lastAtMost keyAt target lo hi found with
  | case1 lo hi found active mid unread =>
    have midLt : mid < hi := middle_lt active
    have midRead := reads mid (by omega) (by omega)
    rw [unread] at midRead
    cases midRead
  | case2 lo hi found active mid key read below inductionHypothesis =>
    have midLt : mid < hi := middle_lt active
    refine inductionHypothesis (by omega) leLast ?_
    intro i isMid
    cases isMid
    omega
  | case3 lo hi found active mid key read above inductionHypothesis =>
    have midLt : mid < hi := middle_lt active
    exact inductionHypothesis firstLe (by omega) foundWithin
  | case4 lo hi found done => exact ⟨found, rfl, foundWithin⟩

/-- What the search knows between two steps: the keys before `lo` are not above the target,
those from `hi` on are, and the one found is the last before `lo`. -/
structure Searched (keyOf : Nat → κ) (target : κ) (first last lo hi : Nat)
    (found : Option Nat) : Prop where
  first_le : first ≤ lo
  le : lo ≤ hi
  le_last : hi ≤ last
  below : ∀ i, first ≤ i → i < lo → keyOf i ≤ target
  above : ∀ i, hi ≤ i → i < last → target < keyOf i
  found_eq : found = if first < lo then some (lo - 1) else none

/-- Nothing is known of an interval before its first step. -/
theorem Searched.start (le : first ≤ last) :
    Searched keyOf target first last first last none where
  first_le := le_refl first
  le := le
  le_last := le_refl last
  below := fun i firstLe ltFirst => absurd ltFirst (by omega)
  above := fun i lastLe ltLast => absurd ltLast (by omega)
  found_eq := by simp

/-- A key not above the target moves the lower end past it. -/
theorem Searched.raise {lo hi mid : Nat} {found : Option Nat}
    (searched : Searched keyOf target first last lo hi found)
    (sorted : ∀ i j, first ≤ i → i ≤ j → j < last → keyOf i ≤ keyOf j)
    (loLe : lo ≤ mid) (midLt : mid < hi) (atMost : keyOf mid ≤ target) :
    Searched keyOf target first last (mid + 1) hi (some mid) where
  first_le := by have := searched.first_le; omega
  le := midLt
  le_last := searched.le_last
  below := by
    intro i firstLe ltMid
    have := searched.le_last
    exact le_trans (sorted i mid firstLe (by omega) (by omega)) atMost
  above := searched.above
  found_eq := by
    have := searched.first_le
    rw [if_pos (by omega), Nat.add_sub_cancel]

/-- A key above the target moves the upper end down to it. -/
theorem Searched.lower {lo hi mid : Nat} {found : Option Nat}
    (searched : Searched keyOf target first last lo hi found)
    (sorted : ∀ i j, first ≤ i → i ≤ j → j < last → keyOf i ≤ keyOf j)
    (loLe : lo ≤ mid) (midLt : mid < hi) (above : target < keyOf mid) :
    Searched keyOf target first last lo mid found where
  first_le := searched.first_le
  le := loLe
  le_last := by have := searched.le_last; omega
  below := searched.below
  above := by
    intro i midLe ltLast
    have := searched.first_le
    exact lt_of_lt_of_le above (sorted mid i (by omega) midLe ltLast)
  found_eq := searched.found_eq

/-- A search whose ends have met has found the last position, or there is none. -/
theorem Searched.meets {lo hi : Nat} {found : Option Nat}
    (searched : Searched keyOf target first last lo hi found)
    (sorted : ∀ i j, first ≤ i → i ≤ j → j < last → keyOf i ≤ keyOf j) (met : ¬lo < hi) :
    (∃ position, found = some position ∧ IsLast keyOf target first last position) ∨
      (found = none ∧ ∀ i, first ≤ i → i < last → target < keyOf i) := by
  have hiEq : hi = lo := by have := searched.le; omega
  subst hiEq
  rw [searched.found_eq]
  by_cases moved : first < hi
  · have hiLe := searched.le_last
    refine .inl ⟨hi - 1, if_pos moved, by omega, by omega,
      searched.below (hi - 1) (by omega) (by omega), ?_⟩
    intro other firstLe ltLast atMost
    have ltHi : other < hi := by
      by_contra notLt
      exact absurd (searched.above other (by omega) ltLast) (not_lt.mpr atMost)
    exact ⟨sorted other (hi - 1) firstLe (by omega) (by omega), by omega⟩
  · refine .inr ⟨if_neg moved, ?_⟩
    intro i firstLe ltLast
    exact searched.above i (by omega) ltLast

/-- Over sorted keys the search finds the last position whose key is not above the target,
and none exactly where every key is above it. -/
theorem lastAtMost_sorted (reads : ∀ i, first ≤ i → i < last → keyAt i = some (keyOf i))
    (sorted : ∀ i j, first ≤ i → i ≤ j → j < last → keyOf i ≤ keyOf j)
    {lo hi : Nat} {found : Option Nat}
    (searched : Searched keyOf target first last lo hi found) :
    (∃ position, lastAtMost keyAt target lo hi found = some (some position) ∧
      IsLast keyOf target first last position) ∨
      (lastAtMost keyAt target lo hi found = some none ∧
        ∀ i, first ≤ i → i < last → target < keyOf i) := by
  fun_induction lastAtMost keyAt target lo hi found with
  | case1 lo hi found active mid unread =>
    have midLt : mid < hi := middle_lt active
    have firstLe := searched.first_le
    have leLast := searched.le_last
    have midRead := reads mid (by omega) (by omega)
    rw [unread] at midRead
    cases midRead
  | case2 lo hi found active mid key read below inductionHypothesis =>
    have midLt : mid < hi := middle_lt active
    have firstLe := searched.first_le
    have leLast := searched.le_last
    have keyEq := reads mid (by omega) (by omega)
    rw [read, Option.some_inj] at keyEq
    exact inductionHypothesis (searched.raise sorted (by omega) midLt (keyEq ▸ below))
  | case3 lo hi found active mid key read above inductionHypothesis =>
    have midLt : mid < hi := middle_lt active
    have firstLe := searched.first_le
    have leLast := searched.le_last
    have keyEq := reads mid (by omega) (by omega)
    rw [read, Option.some_inj] at keyEq
    exact inductionHypothesis
      (searched.lower sorted (by omega) midLt (keyEq ▸ not_le.mp above))
  | case4 lo hi found done =>
    obtain ⟨position, foundEq, isLast⟩ | ⟨foundEq, allAbove⟩ := searched.meets sorted done
    · exact .inl ⟨position, congrArg some foundEq, isLast⟩
    · exact .inr ⟨congrArg some foundEq, allAbove⟩

end ServerBox.Std.Bisect
