import ServerBox.Std.Firsts
import ServerBox.Std.Json

/-!
# The tree of a workspace's panes

`src/lib/data/model/workspace/tree.dart`: a binary tree with panes at the leaves and splits
between them. A ratio is a double.
-/

namespace ServerBox.Workspaces

open ServerBox.Std

inductive WsAxis where
  | row
  | col
deriving DecidableEq

/-- One edge of a pane, and the middle. -/
inductive WsDropZone where
  | left
  | right
  | top
  | bottom
  | center
deriving DecidableEq

namespace WsDropZone

/-- The split a drop on this edge makes. -/
def axis : WsDropZone → Option WsAxis
  | left | right => some .row
  | top | bottom => some .col
  | center => none

/-- Whether the new pane goes before the one it was dropped on. -/
def before (zone : WsDropZone) : Bool := zone = left ∨ zone = top

end WsDropZone

inductive WsNode (Leaf : Type) where
  | leaf (value : Leaf)
  /-- `ratio` is the share of `a`. -/
  | split (axis : WsAxis) (ratio : F64) (a b : WsNode Leaf)
deriving DecidableEq

/-! ### Ratios -/

/-- 0.15 -/
def minRatio : F64 := ⟨false, 0x3FC3333333333333, by decide⟩

/-- 0.85 -/
def maxRatio : F64 := ⟨false, 0x3FEB333333333333, by decide⟩

/-- 0.5 -/
def evenRatio : F64 := ⟨false, 0x3FE0000000000000, by decide⟩

/-- Doubles that are not negative are ordered as their encodings. -/
def clampRatio (r : F64) : F64 :=
  if FloatFormat.binary64.infinity < r.magnitude then evenRatio
  else if r.negative ∨ r.magnitude < minRatio.magnitude then minRatio
  else if maxRatio.magnitude < r.magnitude then maxRatio
  else r

/-- Between `minRatio` and `maxRatio`. -/
def InBounds (ratio : F64) : Prop :=
  ratio.negative = false ∧ minRatio.magnitude ≤ ratio.magnitude ∧
    ratio.magnitude ≤ maxRatio.magnitude

instance (ratio : F64) : Decidable (InBounds ratio) := inferInstanceAs (Decidable (_ ∧ _))

theorem inBounds_even : InBounds evenRatio := by decide

theorem inBounds_clampRatio (r : F64) : InBounds (clampRatio r) := by
  unfold clampRatio
  split
  next => exact inBounds_even
  next =>
    split
    next => exact ⟨rfl, Nat.le_refl _, by decide⟩
    next notBelow =>
      split
      next => exact ⟨rfl, by decide, Nat.le_refl _⟩
      next notAbove =>
        rw [not_or, Bool.not_eq_true] at notBelow
        exact ⟨notBelow.1, Nat.le_of_not_lt notBelow.2, Nat.le_of_not_lt notAbove⟩

theorem clampRatio_of_inBounds {r : F64} (within_ : InBounds r) : clampRatio r = r := by
  obtain ⟨positive, above, below⟩ := within_
  have isNumber : ¬FloatFormat.binary64.infinity < r.magnitude :=
    Nat.not_lt.mpr (Nat.le_trans below (by decide))
  have notBelow : ¬(r.negative = true ∨ r.magnitude < minRatio.magnitude) := by
    rw [positive]
    exact fun either => either.elim Bool.false_ne_true (Nat.not_lt.mpr above)
  rw [clampRatio, if_neg isNumber, if_neg notBelow, if_neg (Nat.not_lt.mpr below)]

namespace WsNode

/-! ### The operations of a node -/

/-- The leaves in reading order. -/
def leaves {Leaf : Type} : WsNode Leaf → List Leaf
  | leaf value => [value]
  | split _ _ a b => a.leaves ++ b.leaves

def map {Leaf Other : Type} (f : Leaf → Other) : WsNode Leaf → WsNode Other
  | leaf value => leaf (f value)
  | split axis ratio a b => split axis ratio (a.map f) (b.map f)

variable {Leaf : Type} [DecidableEq Leaf]

def replaceLeaf (target : Leaf) (replacement : WsNode Leaf) : WsNode Leaf → WsNode Leaf
  | leaf value => if value = target then replacement else leaf value
  | split axis ratio a b =>
      split axis ratio (replaceLeaf target replacement a) (replaceLeaf target replacement b)

/-- What is left of a split, one half having the space of both where the other is gone. -/
def join {Leaf : Type} (axis : WsAxis) (ratio : F64) :
    Option (WsNode Leaf) → Option (WsNode Leaf) → Option (WsNode Leaf)
  | none, b => b
  | some a, none => some a
  | some a, some b => some (split axis ratio a b)

/-- The walk of `withoutRepeats`, with what it has seen. -/
def walk : WsNode Leaf → List Leaf → Option (WsNode Leaf) × List Leaf
  | leaf value, seen => if value ∈ seen then (none, seen) else (some (leaf value), value :: seen)
  | split axis ratio a b, seen =>
      let first := a.walk seen
      let second := b.walk first.2
      (join axis ratio first.1 second.1, second.2)

/-- The node without a leaf; none when the leaf was all there was. -/
def removeLeaf (target : Leaf) : WsNode Leaf → Option (WsNode Leaf)
  | leaf value => if value = target then none else some (leaf value)
  | split axis ratio a b => join axis ratio (a.removeLeaf target) (b.removeLeaf target)

def splitLeaf (target : Leaf) (axis : WsAxis) (added : Leaf) (before : Bool)
    (node : WsNode Leaf) : WsNode Leaf :=
  replaceLeaf target
    (split axis evenRatio (leaf (if before then added else target))
      (leaf (if before then target else added)))
    node

/-- The leaves of a node that may be gone. -/
def leavesOf {Leaf : Type} (node : Option (WsNode Leaf)) : List Leaf := (node.map leaves).getD []

theorem leaves_ne_nil {Leaf : Type} (node : WsNode Leaf) : node.leaves ≠ [] := by
  induction node with
  | leaf value => exact List.cons_ne_nil value []
  | split axis ratio a b first _ => exact fun none => first (List.append_eq_nil_iff.mp none).1

theorem leavesOf_eq_nil_iff {Leaf : Type} {node : Option (WsNode Leaf)} :
    leavesOf node = [] ↔ node = none := by
  cases node with
  | none => simp [leavesOf]
  | some node => simp [leavesOf, leaves_ne_nil]

@[simp] theorem leavesOf_join {Leaf : Type} (axis : WsAxis) (ratio : F64)
    (a b : Option (WsNode Leaf)) : leavesOf (join axis ratio a b) = leavesOf a ++ leavesOf b := by
  cases a <;> cases b <;> simp [join, leavesOf, leaves]

theorem leaves_map {Leaf Other : Type} (f : Leaf → Other) (node : WsNode Leaf) :
    (node.map f).leaves = node.leaves.map f := by
  induction node with
  | leaf value => rfl
  | split axis ratio a b first second => rw [map, leaves, first, second, leaves, List.map_append]

theorem map_map {Leaf Other Last : Type} (f : Leaf → Other) (g : Other → Last)
    (node : WsNode Leaf) : (node.map f).map g = node.map (g ∘ f) := by
  induction node with
  | leaf value => rfl
  | split axis ratio a b first second => rw [map, map, first, second, map]

theorem map_congr {Leaf Other : Type} {f g : Leaf → Other} {node : WsNode Leaf}
    (same : ∀ value ∈ node.leaves, f value = g value) : node.map f = node.map g := by
  induction node with
  | leaf value => exact congrArg leaf (same value List.mem_cons_self)
  | split axis ratio a b first second =>
      rw [map, map, first fun value held => same value (List.mem_append_left _ held),
        second fun value held => same value (List.mem_append_right _ held)]

theorem leavesOf_removeLeaf (target : Leaf) (node : WsNode Leaf) :
    leavesOf (node.removeLeaf target) = node.leaves.filter fun value => value ≠ target := by
  induction node with
  | leaf value =>
      rw [removeLeaf]
      by_cases same : value = target <;> simp [same, leavesOf, leaves]
  | split axis ratio a b first second =>
      rw [removeLeaf, leavesOf_join, first, second, leaves, List.filter_append]

theorem leavesOf_bind_removeLeaf (target : Leaf) (node : Option (WsNode Leaf)) :
    leavesOf (node.bind (removeLeaf target)) =
      (leavesOf node).filter fun value => value ≠ target := by
  cases node with
  | none => rfl
  | some node => exact leavesOf_removeLeaf target node

theorem replaceLeaf_of_not_mem {target : Leaf} (replacement : WsNode Leaf) {node : WsNode Leaf}
    (absent : target ∉ node.leaves) : replaceLeaf target replacement node = node := by
  induction node with
  | leaf value =>
      rw [leaves, List.mem_singleton] at absent
      rw [replaceLeaf, if_neg (Ne.symm absent)]
  | split axis ratio a b first second =>
      rw [leaves, List.mem_append, not_or] at absent
      rw [replaceLeaf, first absent.1, second absent.2]

theorem leaves_replaceLeaf (target : Leaf) (replacement node : WsNode Leaf) :
    (replaceLeaf target replacement node).leaves =
      node.leaves.flatMap fun value => if value = target then replacement.leaves else [value] := by
  induction node with
  | leaf value =>
      rw [replaceLeaf, leaves, List.flatMap_singleton]
      split <;> rfl
  | split axis ratio a b first second =>
      rw [replaceLeaf, leaves, first, second, leaves, List.flatMap_append]

/-- The walk keeps the first leaf of each value, and has then seen them all. -/
theorem walk_spec (node : WsNode Leaf) (seen : List Leaf) :
    leavesOf (node.walk seen).1 = firsts seen node.leaves ∧
      ∀ value, value ∈ (node.walk seen).2 ↔ value ∈ node.leaves ∨ value ∈ seen := by
  induction node generalizing seen with
  | leaf value =>
      rw [walk]
      by_cases known : value ∈ seen
      · rw [if_pos known]
        refine ⟨by simp [leavesOf, leaves, firsts, known], fun other => ?_⟩
        rw [leaves, List.mem_singleton]
        exact ⟨.inr, fun held => held.elim (fun same => same ▸ known) id⟩
      · rw [if_neg known]
        refine ⟨by simp [leavesOf, leaves, firsts, known], fun other => ?_⟩
        rw [leaves, List.mem_singleton, List.mem_cons]
  | split axis ratio a b first second =>
      obtain ⟨firstLeaves, firstSeen⟩ := first seen
      obtain ⟨secondLeaves, secondSeen⟩ := second (a.walk seen).2
      refine ⟨?_, fun value => ?_⟩
      · rw [walk, leavesOf_join, firstLeaves, secondLeaves, leaves, firsts_append]
        refine congrArg _ (firsts_congr fun value _ => ?_)
        rw [firstSeen, List.mem_append]
      · rw [walk, secondSeen, firstSeen, leaves, List.mem_append, ← or_assoc]
        exact or_congr_left or_comm

/-- The first leaf always survives. -/
theorem isSome_walk (node : WsNode Leaf) : (node.walk []).1.isSome = true := by
  rw [Option.isSome_iff_ne_none]
  intro gone
  have noLeaves : firsts [] node.leaves = [] := by
    rw [← (walk_spec node []).1, gone]
    rfl
  obtain ⟨value, held⟩ := List.exists_mem_of_ne_nil _ (leaves_ne_nil node)
  have kept := (mem_firsts []).mpr ⟨held, List.not_mem_nil⟩
  rw [noLeaves] at kept
  exact List.not_mem_nil kept

/-- Every leaf after the first of its value gone. -/
def withoutRepeats (node : WsNode Leaf) : WsNode Leaf := (node.walk []).1.get (isSome_walk node)

theorem some_withoutRepeats (node : WsNode Leaf) :
    some node.withoutRepeats = (node.walk []).1 :=
  Option.some_get _

theorem leaves_withoutRepeats (node : WsNode Leaf) :
    node.withoutRepeats.leaves = firsts [] node.leaves := by
  have walked := (walk_spec node []).1
  rw [← some_withoutRepeats] at walked
  exact walked

/-! ### A layout that closes up -/

/-- A node without some of its leaves, the sibling of each half gone having its space. -/
inductive ClosesUp {Leaf : Type} : WsNode Leaf → WsNode Leaf → Prop where
  | leaf (value) : ClosesUp (.leaf value) (.leaf value)
  | split {axis ratio a b a' b'} (first : ClosesUp a a') (second : ClosesUp b b') :
      ClosesUp (.split axis ratio a b) (.split axis ratio a' b')
  | withoutFirst {axis ratio a b b'} (second : ClosesUp b b') : ClosesUp (.split axis ratio a b) b'
  | withoutSecond {axis ratio a b a'} (first : ClosesUp a a') :
      ClosesUp (.split axis ratio a b) a'

namespace ClosesUp

variable {Leaf : Type}

theorem refl (node : WsNode Leaf) : ClosesUp node node := by
  induction node with
  | leaf value => exact .leaf value
  | split axis ratio a b first second => exact .split first second

theorem trans {node middle last : WsNode Leaf} (first : ClosesUp node middle)
    (second : ClosesUp middle last) : ClosesUp node last := by
  induction first generalizing last with
  | leaf value => exact second
  | split _ _ inFirst inSecond =>
      cases second with
      | split left_ right_ => exact .split (inFirst left_) (inSecond right_)
      | withoutFirst right_ => exact .withoutFirst (inSecond right_)
      | withoutSecond left_ => exact .withoutSecond (inFirst left_)
  | withoutFirst _ inSecond => exact .withoutFirst (inSecond second)
  | withoutSecond _ inFirst => exact .withoutSecond (inFirst second)

theorem of_join {axis : WsAxis} {ratio : F64} {a b : Option (WsNode Leaf)}
    {first second left_ : WsNode Leaf} (inFirst : ∀ node, a = some node → ClosesUp first node)
    (inSecond : ∀ node, b = some node → ClosesUp second node)
    (joined : join axis ratio a b = some left_) :
    ClosesUp (.split axis ratio first second) left_ := by
  cases isFirst : a with
  | none =>
      rw [isFirst] at joined
      exact .withoutFirst (inSecond left_ joined)
  | some firstLeft =>
      rw [isFirst] at joined
      cases isSecond : b with
      | none =>
          rw [isSecond] at joined
          exact .withoutSecond (inFirst left_ (isFirst.trans joined))
      | some secondLeft =>
          rw [isSecond] at joined
          cases joined
          exact .split (inFirst firstLeft isFirst) (inSecond secondLeft isSecond)

variable [DecidableEq Leaf]

theorem removeLeaf {target : Leaf} {node left_ : WsNode Leaf}
    (removed : node.removeLeaf target = some left_) : ClosesUp node left_ := by
  induction node generalizing left_ with
  | leaf value =>
      rw [WsNode.removeLeaf] at removed
      split at removed
      next => cases removed
      next =>
        cases removed
        exact .leaf value
  | split axis ratio a b first second => exact of_join (fun _ => first) (fun _ => second) removed

theorem walk {seen : List Leaf} {node left_ : WsNode Leaf}
    (walked : (node.walk seen).1 = some left_) : ClosesUp node left_ := by
  induction node generalizing seen left_ with
  | leaf value =>
      rw [WsNode.walk] at walked
      split at walked
      next => cases walked
      next =>
        cases walked
        exact .leaf value
  | split axis ratio a b first second => exact of_join (fun _ => first) (fun _ => second) walked

theorem withoutRepeats (node : WsNode Leaf) : ClosesUp node node.withoutRepeats :=
  walk (some_withoutRepeats node).symm

end ClosesUp

/-- Each split's ratio is within its bounds. -/
def Bounded {Leaf : Type} : WsNode Leaf → Prop
  | leaf _ => True
  | split _ ratio a b => InBounds ratio ∧ a.Bounded ∧ b.Bounded

theorem ClosesUp.bounded {Leaf : Type} {node left_ : WsNode Leaf} (closes : ClosesUp node left_)
    (bounded : node.Bounded) : left_.Bounded := by
  induction closes with
  | leaf value => trivial
  | split _ _ first second => exact ⟨bounded.1, first bounded.2.1, second bounded.2.2⟩
  | withoutFirst _ second => exact second bounded.2.2
  | withoutSecond _ first => exact first bounded.2.1

theorem Bounded.replaceLeaf {target : Leaf} {replacement node : WsNode Leaf}
    (isBounded : node.Bounded) (replacing : replacement.Bounded) :
    (replaceLeaf target replacement node).Bounded := by
  induction node with
  | leaf value =>
      rw [WsNode.replaceLeaf]
      split
      next => exact replacing
      next => trivial
  | split axis ratio a b first second =>
      exact ⟨isBounded.1, first isBounded.2.1, second isBounded.2.2⟩

end WsNode

end ServerBox.Workspaces
