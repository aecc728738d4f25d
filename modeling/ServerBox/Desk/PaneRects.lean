import Mathlib.Tactic.Linarith
import Mathlib.Tactic.Ring
import ServerBox.Desk.PanesKept

/-!
# Each pane's place in its tab

`paneRects` of `src/monitor/frontend/src/desk/panes.ts`, in exact arithmetic.
-/

namespace ServerBox.Desk.Panes

open ServerBox.Std

variable {Content : Type}

structure Rect where
  x : ℚ
  y : ℚ
  w : ℚ
  h : ℚ
deriving DecidableEq

def halves (dir : SplitDir) (ratio : ℚ) (box : Rect) : Rect × Rect :=
  match dir with
  | .row =>
      (⟨box.x, box.y, box.w * ratio, box.h⟩,
        ⟨box.x + box.w * ratio, box.y, box.w * (1 - ratio), box.h⟩)
  | .column =>
      (⟨box.x, box.y, box.w, box.h * ratio⟩,
        ⟨box.x, box.y + box.h * ratio, box.w, box.h * (1 - ratio)⟩)

/-- `walk` of `paneRects`; none where a ratio is not a finite number. -/
def walk (out : Table Text Rect) : PaneNode Content → Rect → Option (Table Text Rect)
  | .pane pane, box => some (AList.insert pane.id box out)
  | .split dir ratio a b, box =>
      match ratio with
      | .finite ratio =>
          (walk out a (halves dir ratio box).1).bind fun out => walk out b (halves dir ratio box).2
      | _ => none

def paneRects (root : PaneNode Content) : Option (Table Text Rect) := walk ∅ root ⟨0, 0, 1, 1⟩

/-- A point is in it, its left and upper edges with it. -/
def Rect.Has (box : Rect) (x y : ℚ) : Prop :=
  (box.x ≤ x ∧ x < box.x + box.w) ∧ box.y ≤ y ∧ y < box.y + box.h

/-- A stretch in two: a point is in one of them, and not in both. -/
theorem has_cut {start length ratio value : ℚ} (some_ : 0 < length)
    (inside_ : 0 < ratio ∧ ratio < 1) :
    ((start ≤ value ∧ value < start + length) ↔
      (start ≤ value ∧ value < start + length * ratio) ∨
        (start + length * ratio ≤ value ∧
          value < start + length * ratio + length * (1 - ratio))) ∧
      ¬ ((start ≤ value ∧ value < start + length * ratio) ∧
        (start + length * ratio ≤ value ∧
          value < start + length * ratio + length * (1 - ratio))) := by
  have before : 0 < length * ratio := mul_pos some_ inside_.1
  have after : 0 < length * (1 - ratio) := mul_pos some_ (sub_pos.mpr inside_.2)
  have whole : start + length * ratio + length * (1 - ratio) = start + length := by ring
  rw [whole]
  refine ⟨⟨fun held => ?_, ?_⟩, fun both => absurd both.1.2 (not_lt.mpr both.2.1)⟩
  · rcases lt_or_ge value (start + length * ratio) with less | more
    · exact .inl ⟨held.1, less⟩
    · exact .inr ⟨more, held.2⟩
  · rintro (first | second)
    · exact ⟨first.1, by linarith [first.2]⟩
    · exact ⟨by linarith [second.1], second.2⟩

theorem has_halves {dir : SplitDir} {ratio : ℚ} {box : Rect} (wide : 0 < box.w) (high : 0 < box.h)
    (inside_ : 0 < ratio ∧ ratio < 1) (x y : ℚ) :
    (box.Has x y ↔ (halves dir ratio box).1.Has x y ∨ (halves dir ratio box).2.Has x y) ∧
      ¬ ((halves dir ratio box).1.Has x y ∧ (halves dir ratio box).2.Has x y) := by
  cases dir with
  | row =>
      obtain ⟨cut, apart⟩ := @has_cut box.x box.w ratio x wide inside_
      refine ⟨?_, fun both => apart ⟨both.1.1, both.2.1⟩⟩
      rw [Rect.Has, cut, or_and_right]
      rfl
  | column =>
      obtain ⟨cut, apart⟩ := @has_cut box.y box.h ratio y high inside_
      refine ⟨?_, fun both => apart ⟨both.1.2, both.2.2⟩⟩
      rw [Rect.Has, cut, and_or_left]
      rfl

theorem halves_pos {dir : SplitDir} {ratio : ℚ} {box : Rect} (wide : 0 < box.w) (high : 0 < box.h)
    (inside_ : 0 < ratio ∧ ratio < 1) :
    (0 < (halves dir ratio box).1.w ∧ 0 < (halves dir ratio box).1.h) ∧
      0 < (halves dir ratio box).2.w ∧ 0 < (halves dir ratio box).2.h := by
  have rest : 0 < 1 - ratio := sub_pos.mpr inside_.2
  cases dir with
  | row => exact ⟨⟨mul_pos wide inside_.1, high⟩, mul_pos wide rest, high⟩
  | column => exact ⟨⟨wide, mul_pos high inside_.1⟩, wide, mul_pos high rest⟩

/-- The panes' rectangles fill a box, and no two of them have a point in common. -/
structure Tiles (panes : List (Pane Content)) (rects : Table Text Rect) (box : Rect) : Prop where
  placed : ∀ pane ∈ panes, ∃ rect, rects.lookup pane.id = some rect ∧ 0 < rect.w ∧ 0 < rect.h
  fills : ∀ x y, box.Has x y ↔
    ∃ pane ∈ panes, ∃ rect, rects.lookup pane.id = some rect ∧ rect.Has x y
  apart : ∀ pane ∈ panes, ∀ other ∈ panes, ∀ rect another, rects.lookup pane.id = some rect →
    rects.lookup other.id = some another → ∀ x y, rect.Has x y → another.Has x y →
    pane.id = other.id

/-- What is placed for the panes alone tells whether they fill a box. -/
theorem Tiles.congr {panes : List (Pane Content)} {rects others : Table Text Rect} {box : Rect}
    (tiles : Tiles panes rects box)
    (same : ∀ pane ∈ panes, others.lookup pane.id = rects.lookup pane.id) :
    Tiles panes others box where
  placed pane among := same pane among ▸ tiles.placed pane among
  fills x y := by
    rw [tiles.fills]
    refine exists_congr fun pane => and_congr_right fun among => ?_
    rw [same pane among]
  apart pane among other alsoAmong rect another isRect isAnother :=
    tiles.apart pane among other alsoAmong rect another (same pane among ▸ isRect)
      (same other alsoAmong ▸ isAnother)

/-- Two halves of a box that are filled fill it. -/
theorem Tiles.append {first second : List (Pane Content)} {rects : Table Text Rect} {box : Rect}
    {dir : SplitDir} {ratio : ℚ} (wide : 0 < box.w) (high : 0 < box.h)
    (inside_ : 0 < ratio ∧ ratio < 1) (inFirst : Tiles first rects (halves dir ratio box).1)
    (inSecond : Tiles second rects (halves dir ratio box).2) :
    Tiles (first ++ second) rects box := by
  have across {pane other : Pane Content} {rect another : Rect} {x y : ℚ} (among : pane ∈ first)
      (alsoAmong : other ∈ second) (isRect : rects.lookup pane.id = some rect)
      (isAnother : rects.lookup other.id = some another) (held : rect.Has x y)
      (alsoHeld : another.Has x y) : False :=
    (@has_halves dir ratio box wide high inside_ x y).2
      ⟨(inFirst.fills x y).mpr ⟨pane, among, rect, isRect, held⟩,
        (inSecond.fills x y).mpr ⟨other, alsoAmong, another, isAnother, alsoHeld⟩⟩
  refine ⟨?_, ?_, ?_⟩
  · intro pane among
    rcases List.mem_append.mp among with early | late
    · exact inFirst.placed pane early
    · exact inSecond.placed pane late
  · intro x y
    rw [(@has_halves dir ratio box wide high inside_ x y).1, inFirst.fills, inSecond.fills]
    constructor
    · rintro (⟨pane, among, held⟩ | ⟨pane, among, held⟩)
      · exact ⟨pane, List.mem_append_left _ among, held⟩
      · exact ⟨pane, List.mem_append_right _ among, held⟩
    · rintro ⟨pane, among, held⟩
      rcases List.mem_append.mp among with early | late
      · exact .inl ⟨pane, early, held⟩
      · exact .inr ⟨pane, late, held⟩
  · intro pane among other alsoAmong rect another isRect isAnother x y held alsoHeld
    rcases List.mem_append.mp among with early | late
    · rcases List.mem_append.mp alsoAmong with alsoEarly | alsoLate
      · exact inFirst.apart pane early other alsoEarly rect another isRect isAnother x y held
          alsoHeld
      · exact absurd alsoHeld fun alsoHeld => across early alsoLate isRect isAnother held alsoHeld
    · rcases List.mem_append.mp alsoAmong with alsoEarly | alsoLate
      · exact absurd held fun held => across alsoEarly late isAnother isRect alsoHeld held
      · exact inSecond.apart pane late other alsoLate rect another isRect isAnother x y held
          alsoHeld

/-- Each node's panes fill the box it is given, and nothing else is placed anew. -/
theorem tiles_walk {node : PaneNode Content} {out : Table Text Rect} {box : Rect}
    (wide : 0 < box.w) (high : 0 < box.h) (within_ : Within node)
    (distinct : ((panesOf node).map Pane.id).Nodup) :
    ∃ rects, walk out node box = some rects ∧ Tiles (panesOf node) rects box ∧
      ∀ id, id ∉ (panesOf node).map Pane.id → rects.lookup id = out.lookup id := by
  induction node generalizing out box with
  | pane pane =>
      have isHere : (AList.insert pane.id box out).lookup pane.id = some box :=
        AList.lookup_insert _
      refine ⟨_, rfl, ⟨?_, ?_, ?_⟩, fun id other => ?_⟩
      · intro another among
        rw [List.mem_singleton.mp among]
        exact ⟨box, isHere, wide, high⟩
      · intro x y
        constructor
        · exact fun held => ⟨pane, List.mem_singleton_self _, box, isHere, held⟩
        · rintro ⟨another, among, rect, isRect, held⟩
          rw [List.mem_singleton.mp among, isHere] at isRect
          cases isRect
          exact held
      · intro first among second alsoAmong _ _ _ _ _ _ _ _
        rw [List.mem_singleton.mp among, List.mem_singleton.mp alsoAmong]
      · exact AList.lookup_insert_ne fun same => other (List.mem_singleton.mpr same)
  | split dir ratio a b first second =>
      obtain ⟨⟨ratio, rfl, least, most⟩, inA, inB⟩ := within_
      have inside_ : 0 < ratio ∧ ratio < 1 := ⟨by linarith, by linarith⟩
      obtain ⟨⟨wideA, highA⟩, wideB, highB⟩ := @halves_pos dir ratio box wide high inside_
      rw [panesOf, List.map_append] at distinct
      obtain ⟨distinctA, distinctB, disjoint⟩ := List.nodup_append.mp distinct
      obtain ⟨between, isBetween, tilesA, keptA⟩ := @first out _ wideA highA inA distinctA
      obtain ⟨rects, isRects, tilesB, keptB⟩ := @second between _ wideB highB inB distinctB
      refine ⟨rects, ?_, ?_, ?_⟩
      · rw [walk, isBetween]
        exact isRects
      · have still : Tiles (panesOf a) rects (halves dir ratio box).1 :=
          tilesA.congr fun pane among => keptB pane.id fun isB =>
            disjoint _ (List.mem_map_of_mem among) _ isB rfl
        exact still.append wide high inside_ tilesB
      · intro id other
        rw [panesOf, List.map_append, List.mem_append, not_or] at other
        rw [keptB id other.2, keptA id other.1]

/-- The rectangles of a tab's panes fill the unit square, and there are no others. -/
theorem tiles_paneRects {root : PaneNode Content} (within_ : Within root)
    (distinct : ((panesOf root).map Pane.id).Nodup) :
    ∃ rects, paneRects root = some rects ∧ Tiles (panesOf root) rects ⟨0, 0, 1, 1⟩ ∧
      ∀ id, id ∉ (panesOf root).map Pane.id → rects.lookup id = none :=
  tiles_walk one_pos one_pos within_ distinct

end ServerBox.Desk.Panes
