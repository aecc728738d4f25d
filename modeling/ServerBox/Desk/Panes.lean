import Mathlib.Algebra.Order.Field.Rat
import Mathlib.Data.Rat.Floor
import ServerBox.Std.Table
import ServerBox.Std.Text

/-!
# Tabs and split panes inside one window

`src/monitor/frontend/src/desk/panes.ts`. A function that answers with the node or layout it was
given, told by identity, is one that gives none here.
-/

namespace ServerBox.Desk.Panes

open ServerBox.Std

variable {Content : Type}

inductive SplitDir where
  | row
  | column
deriving DecidableEq

/-- Where a new pane goes beside an existing one. -/
inductive Side where
  | left
  | right
  | top
  | bottom
deriving DecidableEq

/-- A number as an argument may be; those that are finite are exact. -/
inductive Number where
  | nan
  | negInfinity
  | infinity
  | finite (value : ℚ)
deriving DecidableEq

structure Pane (Content : Type) where
  id : Text
  /-- The app's own state for this pane. -/
  state : Content

inductive PaneNode (Content : Type) where
  | pane (pane : Pane Content)
  /-- `ratio` is the share of the first child. -/
  | split (dir : SplitDir) (ratio : Number) (a b : PaneNode Content)

structure Tab (Content : Type) where
  id : Text
  root : PaneNode Content

structure Layout (Content : Type) where
  tabs : List (Tab Content)
  nonempty : tabs ≠ []
  /-- The tab on show. -/
  tab : Text
  /-- The pane that has the focus, in the tab on show. -/
  focus : Text

def panesOf : PaneNode Content → List (Pane Content)
  | .pane pane => [pane]
  | .split _ _ a b => panesOf a ++ panesOf b

theorem panesOf_ne_nil (node : PaneNode Content) : panesOf node ≠ [] := by
  induction node with
  | pane pane => exact List.cons_ne_nil pane []
  | split dir ratio a b first _ => exact fun none => first (List.append_eq_nil_iff.mp none).1

def firstPane (node : PaneNode Content) : Pane Content := (panesOf node).head (panesOf_ne_nil node)

def hasPane (node : PaneNode Content) (paneId : Text) : Bool :=
  (panesOf node).any fun pane => pane.id = paneId

def allPanes (layout : Layout Content) : List (Pane Content) :=
  layout.tabs.flatMap fun tab => panesOf tab.root

def tabOf (layout : Layout Content) (paneId : Text) : Option (Tab Content) :=
  layout.tabs.find? fun tab => hasPane tab.root paneId

def activeTab (layout : Layout Content) : Tab Content :=
  (layout.tabs.find? fun tab => tab.id = layout.tab).getD (layout.tabs.head layout.nonempty)

/-! ### Changes of a node -/

def mapNode (change : PaneNode Content → Option (PaneNode Content)) :
    PaneNode Content → Option (PaneNode Content)
  | .pane pane => change (.pane pane)
  | .split dir ratio a b =>
      match change (.split dir ratio a b) with
      | some mapped => some mapped
      | none =>
          match mapNode change a, mapNode change b with
          | none, none => none
          | first, second => some (.split dir ratio (first.getD a) (second.getD b))

def mapTabs (layout : Layout Content) (change : PaneNode Content → Option (PaneNode Content)) :
    Option (Layout Content) :=
  if layout.tabs.any fun tab => (change tab.root).isSome then
    some { layout with
      tabs := layout.tabs.map fun tab => { tab with root := (change tab.root).getD tab.root }
      nonempty := fun none => layout.nonempty (List.map_eq_nil_iff.mp none) }
  else none

/-- Replaces one pane's state. -/
def setPaneState (layout : Layout Content) (paneId : Text) (state : Content) : Layout Content :=
  (mapTabs layout (mapNode fun node =>
    match node with
    | .pane pane => if pane.id = paneId then some (.pane { pane with state }) else none
    | .split .. => none)).getD layout

def focus (layout : Layout Content) (paneId : Text) : Layout Content :=
  match tabOf layout paneId with
  | none => layout
  | some tab => { layout with tab := tab.id, focus := paneId }

def showTab (layout : Layout Content) (tabId : Text) : Layout Content :=
  match layout.tabs.find? fun tab => tab.id = tabId with
  | none => layout
  | some tab =>
      if layout.tab = tabId then layout
      else { layout with tab := tabId, focus := (firstPane tab.root).id }

/-- A node on a side of another, each with half of the space. -/
def shared (side : Side) (node other : PaneNode Content) : PaneNode Content :=
  match side with
  | .left => .split .row (.finite (1 / 2)) node other
  | .right => .split .row (.finite (1 / 2)) other node
  | .top => .split .column (.finite (1 / 2)) node other
  | .bottom => .split .column (.finite (1 / 2)) other node

/-- What `split` puts in the place of a pane. -/
def beside (paneId : Text) (side : Side) (node : PaneNode Content) :
    PaneNode Content → Option (PaneNode Content)
  | .pane pane => if pane.id = paneId then some (shared side node (.pane pane)) else none
  | .split .. => none

/-- `node` beside the pane `paneId`; the two share its space. -/
def split (layout : Layout Content) (paneId : Text) (side : Side) (node : PaneNode Content) :
    Layout Content :=
  match mapTabs layout (mapNode (beside paneId side node)) with
  | none => layout
  | some next =>
      { next with
        tab := ((tabOf next paneId).map Tab.id).getD next.tab
        focus := (firstPane node).id }

/-- `splice` at a place, with nothing taken out. -/
def spliced {α : Type} (values : List α) (place : Nat) (more : List α) : List α :=
  values.take place ++ more ++ values.drop place

/-- The place after the tab with an id, the first when there is none. -/
def placeAfter (tabs : List (Tab Content)) (tabId : Text) : Nat :=
  ((tabs.findIdx? fun tab => tab.id = tabId).map (· + 1)).getD 0

theorem spliced_ne_nil {α : Type} {values : List α} (nonempty : values ≠ []) (place : Nat)
    (more : List α) : spliced values place more ≠ [] := by
  intro none_
  obtain ⟨first, last⟩ := List.append_eq_nil_iff.mp none_
  refine nonempty ?_
  rw [← List.take_append_drop place values, (List.append_eq_nil_iff.mp first).1, last]
  rfl

/-- A new tab holding `root`, after the one on show, and shown. -/
def addTab (layout : Layout Content) (root : PaneNode Content) (id : Text) : Layout Content where
  tabs := spliced layout.tabs (placeAfter layout.tabs layout.tab) [⟨id, root⟩]
  nonempty := spliced_ne_nil layout.nonempty _ _
  tab := id
  focus := (firstPane root).id

def without (paneId : Text) : PaneNode Content → Option (PaneNode Content)
  | .pane pane => if pane.id = paneId then none else some (.pane pane)
  | .split dir ratio a b =>
      match without paneId a, without paneId b with
      | none, second => second
      | first, none => first
      | some first, some second => some (.split dir ratio first second)

/-- `tabs` with the tab on show and the focus kept where they still exist; the tab on show gone,
the one left of it is shown. -/
def settle (layout : Layout Content) (tabs : List (Tab Content)) (nonempty : tabs ≠ []) :
    Layout Content :=
  let was := (layout.tabs.findIdx? fun tab => tab.id = layout.tab).getD 0
  let tab := (tabs.find? fun tab => tab.id = layout.tab).getD
    (tabs.get ⟨min (was - 1) (tabs.length - 1), by
      have := List.length_pos_iff.mpr nonempty
      omega⟩)
  { tabs, nonempty, tab := tab.id,
    focus := if hasPane tab.root layout.focus then layout.focus else (firstPane tab.root).id }

/-- The layout without a pane (its sibling takes the space, a tab left empty goes), or none when
nothing is left. -/
def removePane (layout : Layout Content) (paneId : Text) : Option (Layout Content) :=
  let tabs := layout.tabs.filterMap fun tab =>
    (without paneId tab.root).map fun root => { tab with root }
  if nonempty : tabs ≠ [] then some (settle layout tabs nonempty) else none

/-- The layout without a tab, or none when it was the last. -/
def removeTab (layout : Layout Content) (tabId : Text) : Option (Layout Content) :=
  let tabs := layout.tabs.filter fun tab => tab.id ≠ tabId
  if nonempty : tabs ≠ [] then some (settle layout tabs nonempty) else none

/-- The place that `splice` reads from a number put between 0 and a length. -/
def Number.place (length : Nat) : Number → Nat
  | .nan | .negInfinity => 0
  | .infinity => length
  | .finite value => (max 0 (min value length)).floor.toNat

def moveTab (layout : Layout Content) (tabId : Text) (position : Number) : Layout Content :=
  match layout.tabs.find? fun tab => tab.id = tabId with
  | none => layout
  | some tab =>
      let others := layout.tabs.eraseIdx (layout.tabs.findIdx fun tab => tab.id = tabId)
      { layout with
        tabs := spliced others (position.place others.length) [tab]
        nonempty := fun none => by simp [spliced] at none }

/-- `Math.min(1 - MIN_RATIO, Math.max(MIN_RATIO, ratio))`. -/
def Number.clamped : Number → Number
  | .nan => .nan
  | .negInfinity => .finite (1 / 10)
  | .infinity => .finite (9 / 10)
  | .finite value => .finite (min (9 / 10) (max (1 / 10) value))

/-- The split at a path given a ratio. A step that is neither `a` nor `b` throws. -/
def ratioAt (ratio : Number) : PaneNode Content → Text → Option (PaneNode Content)
  | .pane pane, _ => some (.pane pane)
  | .split dir _ a b, [] => some (.split dir ratio a b)
  | .split dir old a b, step :: rest =>
      if step = 'a' then (ratioAt ratio a rest).map fun child => .split dir old child b
      else if step = 'b' then (ratioAt ratio b rest).map fun child => .split dir old a child
      else none

/-- A tab with the ratio set, if it is the one. -/
def resized (tabId path : Text) (ratio : Number) (tab : Tab Content) : Option (Tab Content) :=
  if tab.id = tabId then (ratioAt ratio tab.root path).map fun root => { tab with root }
  else some tab

def setRatio (layout : Layout Content) (tabId path : Text) (ratio : Number) :
    Option (Layout Content) :=
  if layout.tabs.all fun tab => (resized tabId path ratio.clamped tab).isSome then
    some { layout with
      tabs := layout.tabs.map fun tab => (resized tabId path ratio.clamped tab).getD tab
      nonempty := fun none => layout.nonempty (List.map_eq_nil_iff.mp none) }
  else none

/-- Where another window's layout goes when it is dropped on this one. -/
inductive Placement where
  | tab
  | split (paneId : Text) (side : Side)
deriving DecidableEq

/-- `source` merged into `target`: its tabs after the one on show, or its tab on show split in
beside a pane (the rest of its tabs follow as tabs). -/
def merge (target source : Layout Content) (placement : Placement) : Layout Content :=
  let shown := activeTab source
  let rest := source.tabs.filter fun tab => tab.id ≠ shown.id
  let next :=
    match placement with
    | .split paneId side => split target paneId side shown.root
    | .tab => addTab target shown.root shown.id
  { tabs := spliced next.tabs (placeAfter next.tabs next.tab) rest
    nonempty := spliced_ne_nil next.nonempty _ _
    tab := next.tab
    focus :=
      if hasPane shown.root source.focus then source.focus else (firstPane shown.root).id }

end ServerBox.Desk.Panes
