import Mathlib.Data.List.Flatten
import ServerBox.Desk.PaneRects
import ServerBox.Std.System

/-!
# The layouts of a desk's windows

Any number of windows, each with a layout, under the functions of `panes.ts`.
-/

namespace ServerBox.Desk.Panes

open ServerBox.Std

variable {Content : Type}

/-! ### The windows -/

/-- What is done to one window's layout. -/
inductive Change (Content : Type) where
  | focus (paneId : Text)
  | showTab (tabId : Text)
  | split (paneId : Text) (side : Side) (node : PaneNode Content)
  | addTab (root : PaneNode Content) (id : Text)
  | removePane (paneId : Text)
  | removeTab (tabId : Text)
  | moveTab (tabId : Text) (position : Number)
  | setRatio (tabId path : Text) (ratio : Number)
  | setPaneState (paneId : Text) (state : Content)

/-- What a window comes to: a layout, or it goes with its last pane. -/
inductive Outcome (Content : Type) where
  | becomes (layout : Layout Content)
  | closes

def Outcome.ofOption : Option (Layout Content) → Outcome Content
  | none => .closes
  | some layout => .becomes layout

/-- A function that throws leaves the layout as it is. -/
def Change.outcome (layout : Layout Content) : Change Content → Outcome Content
  | .focus paneId => .becomes (Panes.focus layout paneId)
  | .showTab tabId => .becomes (Panes.showTab layout tabId)
  | .split paneId side node => .becomes (Panes.split layout paneId side node)
  | .addTab root id => .becomes (Panes.addTab layout root id)
  | .removePane paneId => .ofOption (Panes.removePane layout paneId)
  | .removeTab tabId => .ofOption (Panes.removeTab layout tabId)
  | .moveTab tabId position => .becomes (Panes.moveTab layout tabId position)
  | .setRatio tabId path ratio => .becomes ((Panes.setRatio layout tabId path ratio).getD layout)
  | .setPaneState paneId state => .becomes (Panes.setPaneState layout paneId state)

inductive Event (Content : Type) where
  | inside_ (window : Text) (change : Change Content)
  | merge (target source : Text) (placement : Placement)

/-- Each window's layout. -/
abbrev Windows (Content : Type) := Table Text (Layout Content)

/-- A window merged into another goes. -/
def next (windows : Windows Content) : Event Content → Option (Windows Content)
  | .inside_ window change =>
      (windows.lookup window).map fun layout =>
        match change.outcome layout with
        | .becomes layout => AList.insert window layout windows
        | .closes => AList.erase window windows
  | .merge target source placement =>
      if target = source then none
      else
        match windows.lookup target, windows.lookup source with
        | some layout, some other =>
            some (AList.insert target (merge layout other placement) (AList.erase source windows))
        | _, _ => none

/-- The ids of panes that a change brings. -/
def Change.panes : Change Content → List Text
  | .split _ _ node | .addTab node _ => (panesOf node).map Pane.id
  | _ => []

/-- The ids of tabs that a change brings. -/
def Change.tabs : Change Content → List Text
  | .addTab _ id => [id]
  | _ => []

def Change.nodes : Change Content → List (PaneNode Content)
  | .split _ _ node | .addTab node _ => [node]
  | _ => []

/-- What a change brings has ids that none of the windows has. -/
structure Fresh (windows : Windows Content) (change : Change Content) : Prop where
  distinct : change.panes.Nodup
  panes : ∀ window layout, windows.lookup window = some layout →
    ∀ id ∈ change.panes, id ∉ paneIds layout
  tabs : ∀ window layout, windows.lookup window = some layout →
    ∀ id ∈ change.tabs, id ∉ tabIds layout
  nodes : ∀ node ∈ change.nodes, Within node

/-- One pane in one tab. -/
def single (tabId : Text) (pane : Pane Content) : Layout Content where
  tabs := [⟨tabId, .pane pane⟩]
  nonempty := List.cons_ne_nil _ _
  tab := tabId
  focus := pane.id

/-- No name twice, in one window or in two. -/
structure Apart (names : Layout Content → List Text) (windows : Windows Content) : Prop where
  own : ∀ window layout, windows.lookup window = some layout → (names layout).Nodup
  others : ∀ window other layout another, window ≠ other → windows.lookup window = some layout →
    windows.lookup other = some another → ∀ id ∈ names layout, id ∉ names another

/-- Windows of one pane each, with ids of their own. -/
structure Opened (windows : Windows Content) : Prop where
  single : ∀ window layout, windows.lookup window = some layout →
    ∃ tabId pane, layout = single tabId pane
  panes : Apart paneIds windows
  tabs : Apart tabIds windows

def desk : System (Windows Content) (Event Content) where
  Initial := Opened
  Step windows event after :=
    (∀ window change, event = .inside_ window change → Fresh windows change) ∧
      next windows event = some after

/-- A merge is beside a pane that is there, or as tabs, and a ratio is a number. -/
def Meets (windows : Windows Content) : Event Content → Prop
  | .inside_ _ (.setRatio _ _ ratio) => ratio ≠ .nan
  | .merge target _ placement =>
      ∀ layout, windows.lookup target = some layout → placement.Fits layout
  | _ => True

/-! ### The property -/

/-- Each function has the panes that it is to have. -/
structure Exact (layout : Layout Content) : Prop where
  focus : ∀ paneId, allPanes (Panes.focus layout paneId) = allPanes layout
  showTab : ∀ tabId, allPanes (Panes.showTab layout tabId) = allPanes layout
  split : ∀ paneId side node,
    if paneId ∈ paneIds layout then
      (allPanes (Panes.split layout paneId side node)).Perm (panesOf node ++ allPanes layout)
    else Panes.split layout paneId side node = layout
  addTab : ∀ root id,
    (allPanes (Panes.addTab layout root id)).Perm (panesOf root ++ allPanes layout)
  removePane : ∀ paneId, ((Panes.removePane layout paneId).map allPanes).getD [] =
    (allPanes layout).filter fun pane => pane.id ≠ paneId
  removeTab : ∀ tabId, ((Panes.removeTab layout tabId).map Layout.tabs).getD [] =
    layout.tabs.filter fun tab => tab.id ≠ tabId
  moveTab : ∀ tabId position,
    (allPanes (Panes.moveTab layout tabId position)).Perm (allPanes layout)
  setRatio : ∀ tabId path ratio, ∀ after ∈ Panes.setRatio layout tabId path ratio,
    allPanes after = allPanes layout
  setPaneState : ∀ paneId state, allPanes (Panes.setPaneState layout paneId state) =
    (allPanes layout).map (withState paneId state)

/-- What holds of one window's layout. -/
structure Kept (layout : Layout Content) : Prop where
  nonempty : layout.tabs ≠ []
  tabs : (tabIds layout).Nodup
  panes : (paneIds layout).Nodup
  shows : Shows layout
  within_ : AllWithin layout
  exact_ : Exact layout
  tiles : ∀ tab ∈ layout.tabs, ∃ rects, paneRects tab.root = some rects ∧
    Tiles (panesOf tab.root) rects ⟨0, 0, 1, 1⟩ ∧
    ∀ id, id ∉ (panesOf tab.root).map Pane.id → rects.lookup id = none

/-- No pane is in two windows, and a merge has the panes of both exactly if its placement is. -/
structure Whole (windows : Windows Content) : Prop where
  each : ∀ window layout, windows.lookup window = some layout → Kept layout
  panes : Apart paneIds windows
  merges : ∀ target source layout other, target ≠ source → windows.lookup target = some layout →
    windows.lookup source = some other → ∀ placement,
    (allPanes (merge layout other placement)).Perm (allPanes layout ++ allPanes other) ↔
      placement.Fits layout

/-! ### The invariant -/

structure Inv (windows : Windows Content) : Prop where
  panes : Apart paneIds windows
  tabs : Apart tabIds windows
  shows : ∀ window layout, windows.lookup window = some layout → Shows layout
  within_ : ∀ window layout, windows.lookup window = some layout → AllWithin layout

section

variable {windows after : Windows Content} {layout result : Layout Content}
  {change : Change Content}

theorem nodup_of_subperm {α : Type} {some_ all : List α} (fewer : some_.Subperm all)
    (distinct : all.Nodup) : some_.Nodup := by
  obtain ⟨same, isPerm, isSublist⟩ := fewer
  exact isPerm.nodup_iff.mp (isSublist.nodup distinct)

/-- What a change makes of a layout. -/
structure Follows (change : Change Content) (layout result : Layout Content) : Prop where
  panes : (paneIds result).Subperm (change.panes ++ paneIds layout)
  tabs : (tabIds result).Subperm (change.tabs ++ tabIds layout)
  shows : Shows layout → Shows result
  within_ : (∀ node ∈ change.nodes, Within node) →
    (∀ tabId path ratio, change = .setRatio tabId path ratio → ratio ≠ .nan) →
    AllWithin layout → AllWithin result

/-- A result with the layout's own panes and tabs, or some of them. -/
theorem Follows.of_own (panes : (paneIds result).Subperm (paneIds layout))
    (tabs : (tabIds result).Subperm (tabIds layout)) (shows : Shows layout → Shows result)
    (within_ : (∀ tabId path ratio, change = .setRatio tabId path ratio → ratio ≠ .nan) →
      AllWithin layout → AllWithin result) : Follows change layout result where
  panes := panes.trans (List.sublist_append_right _ _).subperm
  tabs := tabs.trans (List.sublist_append_right _ _).subperm
  shows := shows
  within_ := fun _ => within_

/-- A change of the tab on show or the focus. -/
theorem Follows.of_tabs (tabs : result.tabs = layout.tabs) (shows : Shows layout → Shows result) :
    Follows change layout result := by
  refine .of_own ?_ ?_ shows fun _ => ?_
  · rw [paneIds, allPanes, tabs]
    exact .refl _
  · rw [tabIds, tabs]
    exact .refl _
  · rw [AllWithin, AllWithin, tabs]
    exact id

theorem follows_outcome (distinct : (paneIds layout).Nodup)
    (becomes : change.outcome layout = .becomes result) : Follows change layout result := by
  cases change with
  | focus paneId =>
      cases becomes
      exact .of_tabs (tabs_focus layout paneId) fun shows => shows_focus shows paneId
  | showTab tabId =>
      cases becomes
      exact .of_tabs (tabs_showTab layout tabId) fun shows => shows_showTab shows tabId
  | split paneId side node =>
      cases becomes
      refine ⟨?_, ?_, fun shows => shows_split shows paneId side node, fun inNodes _ within_ => ?_⟩
      · by_cases held : paneId ∈ paneIds layout
        · have perm := (allPanes_split side node distinct held).map Pane.id
          rw [List.map_append] at perm
          exact perm.subperm
        · rw [split_stale side node held]
          exact (List.sublist_append_right _ _).subperm
      · rw [tabIds_split]
        exact (List.sublist_append_right _ _).subperm
      · exact within_split within_ paneId side (inNodes node (List.mem_singleton_self node))
  | addTab root id =>
      cases becomes
      refine ⟨?_, (tabIds_addTab layout root id).subperm, fun _ => shows_addTab layout root id,
        fun inNodes _ within_ => ?_⟩
      · have perm := (allPanes_addTab layout root id).map Pane.id
        rw [List.map_append] at perm
        exact perm.subperm
      · exact within_addTab within_ id (inNodes root (List.mem_singleton_self root))
  | removePane paneId =>
      cases removes : removePane layout paneId with
      | none =>
          rw [Change.outcome, removes] at becomes
          cases becomes
      | some left_ =>
          rw [Change.outcome, removes] at becomes
          cases becomes
          refine .of_own ?_ (tabIds_removePane removes).subperm
            (fun _ => (of_removePane removes).1) fun _ within_ => within_removePane within_ removes
          have panes := allPanes_removePane layout paneId
          rw [removes, Option.map_some, Option.getD_some] at panes
          rw [paneIds, panes]
          exact ((List.filter_sublist).map Pane.id).subperm
  | removeTab tabId =>
      cases removes : removeTab layout tabId with
      | none =>
          rw [Change.outcome, removes] at becomes
          cases becomes
      | some left_ =>
          rw [Change.outcome, removes] at becomes
          cases becomes
          obtain ⟨shows, tabs⟩ := of_removeTab removes
          refine .of_own ?_ ?_ (fun _ => shows) fun _ within_ tab among => ?_
          · rw [paneIds, allPanes, tabs]
            exact (((List.filter_sublist).flatMap _).map Pane.id).subperm
          · rw [tabIds, tabs]
            exact ((List.filter_sublist).map Tab.id).subperm
          · rw [tabs] at among
            exact within_ tab (List.mem_of_mem_filter among)
  | moveTab tabId position =>
      cases becomes
      obtain ⟨tabs, isTab, isFocus⟩ := moveTab_keeps layout tabId position
      refine .of_own ((tabs.flatMap_right _).map Pane.id).subperm (tabs.map Tab.id).subperm ?_
        fun _ within_ tab among => within_ tab (tabs.mem_iff.mp among)
      rintro ⟨tab, among, isShown, hasFocus⟩
      rw [Shows, isTab, isFocus]
      exact ⟨tab, tabs.mem_iff.mpr among, isShown, hasFocus⟩
  | setRatio tabId path ratio =>
      cases sets : setRatio layout tabId path ratio with
      | none =>
          rw [Change.outcome, sets] at becomes
          cases becomes
          exact .of_tabs rfl id
      | some resized =>
          rw [Change.outcome, sets] at becomes
          cases becomes
          obtain ⟨panes, tabs, shows, within_⟩ := setRatio_keeps sets
          refine .of_own ?_ (tabs ▸ .refl _) shows fun isNumber => within_ (isNumber _ _ _ rfl)
          change ((allPanes resized).map Pane.id).Subperm _
          rw [panes]
          exact .refl _
  | setPaneState paneId state =>
      cases becomes
      refine .of_own ?_ (tabIds_setPaneState layout paneId state ▸ .refl _)
        (fun shows => shows_setPaneState shows paneId state)
        fun _ within_ => within_setPaneState within_ paneId state
      have ids : (Pane.id ∘ withState paneId state) = Pane.id := by
        funext pane
        exact id_withState paneId state pane
      rw [paneIds, allPanes_setPaneState, List.map_map, ids]
      exact .refl _

/-! ### Runs -/

/-- One window's names change, to some of its own and others that no window that is left has. -/
theorem Apart.put {names : Layout Content → List Text} {window : Text} {fresh : List Text}
    (apart : Apart names windows)
    (others : ∀ other layout, after.lookup other = some layout → other ≠ window →
      windows.lookup other = some layout)
    (becomes : ∀ result, after.lookup window = some result →
      (names result).Subperm fresh ∧ fresh.Nodup ∧ ∀ id ∈ fresh, ∀ other layout,
        other ≠ window → after.lookup other = some layout → id ∉ names layout) :
    Apart names after := by
  refine ⟨fun other layout held => ?_, ?_⟩
  · by_cases same : other = window
    · obtain ⟨fewer, distinct, -⟩ := becomes layout (same ▸ held)
      exact nodup_of_subperm fewer distinct
    · exact apart.own other layout (others other layout held same)
  · intro first second layout another differs held alsoHeld id among alsoAmong
    by_cases isFirst : first = window
    · obtain ⟨fewer, -, notElsewhere⟩ := becomes layout (isFirst ▸ held)
      exact notElsewhere id (fewer.subset among) second another
        (fun same => differs (isFirst.trans same.symm)) alsoHeld alsoAmong
    · by_cases isSecond : second = window
      · obtain ⟨fewer, -, notElsewhere⟩ := becomes another (isSecond ▸ alsoHeld)
        exact notElsewhere id (fewer.subset alsoAmong) first layout isFirst held among
      · exact apart.others first second layout another differs
          (others first layout held isFirst) (others second another alsoHeld isSecond) id among
          alsoAmong

/-- A change brings names beside those of its window. -/
theorem Apart.changed {names : Layout Content → List Text} {window : Text} {brought : List Text}
    (apart : Apart names windows) (held : windows.lookup window = some layout)
    (fewer : (names result).Subperm (brought ++ names layout)) (distinct : brought.Nodup)
    (fresh : ∀ other another, windows.lookup other = some another →
      ∀ id ∈ brought, id ∉ names another) :
    Apart names (AList.insert window result windows) := by
  have others : ∀ other another, (AList.insert window result windows).lookup other = some another →
      other ≠ window → windows.lookup other = some another := by
    intro other another isThere differs
    rwa [AList.lookup_insert_ne differs] at isThere
  refine apart.put others fun found isFound => (?_ : _ ∧ (brought ++ names layout).Nodup ∧ _)
  rw [AList.lookup_insert] at isFound
  cases isFound
  refine ⟨fewer, List.nodup_append.mpr ⟨distinct, apart.own window layout held, ?_⟩, ?_⟩
  · rintro id isNew _ isOld rfl
    exact fresh window layout held id isNew isOld
  · intro id among other another differs isThere
    have before := others other another isThere differs
    rcases List.mem_append.mp among with isNew | isOld
    · exact fresh other another before id isNew
    · exact apart.others window other layout another (Ne.symm differs) held before id isOld

/-- A merge has names of the two windows, of which one goes. -/
theorem Apart.merge {names : Layout Content → List Text} {target source : Text}
    {other : Layout Content} (apart : Apart names windows) (differs : target ≠ source)
    (held : windows.lookup target = some layout) (alsoHeld : windows.lookup source = some other)
    (fewer : (names result).Subperm (names layout ++ names other)) :
    Apart names (AList.insert target result (AList.erase source windows)) := by
  have others : ∀ window another,
      (AList.insert target result (AList.erase source windows)).lookup window = some another →
      window ≠ target → window ≠ source ∧ windows.lookup window = some another := by
    intro window another isThere notTarget
    rw [AList.lookup_insert_ne notTarget] at isThere
    refine ⟨?_, Table.mem_lookup_of_erase isThere⟩
    rintro rfl
    rw [AList.lookup_erase] at isThere
    cases isThere
  refine apart.put
    (fun window another isThere notTarget => (others window another isThere notTarget).2)
    fun found isFound => (?_ : _ ∧ (names layout ++ names other).Nodup ∧ _)
  rw [AList.lookup_insert] at isFound
  cases isFound
  refine ⟨fewer, List.nodup_append.mpr ⟨apart.own _ _ held, apart.own _ _ alsoHeld, ?_⟩, ?_⟩
  · rintro id isFirst _ isSecond rfl
    exact apart.others target source layout other differs held alsoHeld id isFirst isSecond
  · intro id among window another notTarget isThere
    obtain ⟨notSource, before⟩ := others window another isThere notTarget
    rcases List.mem_append.mp among with isFirst | isSecond
    · exact apart.others target window layout another (Ne.symm notTarget) held before id isFirst
    · exact apart.others source window other another (Ne.symm notSource) alsoHeld before id isSecond

theorem Apart.erase {names : Layout Content → List Text} (apart : Apart names windows)
    (window : Text) : Apart names (AList.erase window windows) where
  own other layout held := apart.own other layout (Table.mem_lookup_of_erase held)
  others first second layout another differs held alsoHeld :=
    apart.others first second layout another differs (Table.mem_lookup_of_erase held)
      (Table.mem_lookup_of_erase alsoHeld)

/-- What each window's layout has, a changed one has and the others have. -/
theorem each_insert {Holds : Layout Content → Prop} {window : Text}
    (each : ∀ other another, windows.lookup other = some another → Holds another)
    (becomes : Holds result) :
    ∀ other another, (AList.insert window result windows).lookup other = some another →
      Holds another := by
  intro other another isThere
  rw [Table.lookup_insert_ite] at isThere
  split at isThere
  next =>
    cases isThere
    exact becomes
  next => exact each other another isThere

theorem inv_inside {window : Text} (inv : Inv windows) (fresh : Fresh windows change)
    (isNumber : ∀ tabId path ratio, change = .setRatio tabId path ratio → ratio ≠ .nan)
    (leads : next windows (.inside_ window change) = some after) : Inv after := by
  rw [next] at leads
  obtain ⟨layout, held, isAfter⟩ := Option.map_eq_some_iff.mp leads
  subst isAfter
  split
  next result becomes =>
    have follows := follows_outcome (inv.panes.own window layout held) becomes
    have tabsDistinct : change.tabs.Nodup := by
      cases change <;> first | exact List.nodup_nil | exact List.pairwise_singleton _ _
    exact ⟨inv.panes.changed held follows.panes fresh.distinct fresh.panes,
      inv.tabs.changed held follows.tabs tabsDistinct fresh.tabs,
      each_insert inv.shows (follows.shows (inv.shows window layout held)),
      each_insert inv.within_
        (follows.within_ fresh.nodes isNumber (inv.within_ window layout held))⟩
  next =>
    exact ⟨inv.panes.erase window, inv.tabs.erase window,
      fun other another isThere => inv.shows other another (Table.mem_lookup_of_erase isThere),
      fun other another isThere => inv.within_ other another (Table.mem_lookup_of_erase isThere)⟩

theorem inv_merge {target source : Text} {placement : Placement} (inv : Inv windows)
    (fits : ∀ layout, windows.lookup target = some layout → placement.Fits layout)
    (leads : next windows (.merge target source placement) = some after) : Inv after := by
  rw [next] at leads
  split at leads
  next => cases leads
  next differs =>
    split at leads
    next layout other held alsoHeld =>
      cases leads
      have sourceTabs := inv.tabs.own source other alsoHeld
      have panes := (allPanes_merge (inv.panes.own target layout held) sourceTabs
        (fits layout held)).map Pane.id
      rw [List.map_append] at panes
      refine ⟨inv.panes.merge differs held alsoHeld panes.subperm,
        inv.tabs.merge differs held alsoHeld (tabIds_merge layout other placement sourceTabs),
        each_insert ?_ (shows_merge (fits layout held)), each_insert ?_ ?_⟩
      · exact fun window another isThere =>
          inv.shows window another (Table.mem_lookup_of_erase isThere)
      · exact fun window another isThere =>
          inv.within_ window another (Table.mem_lookup_of_erase isThere)
      · exact within_merge (inv.within_ target layout held) (inv.within_ source other alsoHeld)
    next => cases leads

theorem inv_opened (opened : Opened windows) : Inv windows where
  panes := opened.panes
  tabs := opened.tabs
  shows window layout held := by
    obtain ⟨tabId, pane, rfl⟩ := opened.single window layout held
    exact ⟨_, List.mem_singleton_self _, rfl, hasPane_firstPane (.pane pane)⟩
  within_ window layout held := by
    obtain ⟨tabId, pane, rfl⟩ := opened.single window layout held
    intro tab among
    rw [List.mem_singleton.mp among]
    trivial

theorem exact_of_nodup (distinct : (paneIds layout).Nodup) : Exact layout where
  focus paneId := by rw [allPanes, tabs_focus, allPanes]
  showTab tabId := by rw [allPanes, tabs_showTab, allPanes]
  split paneId side node := by
    split
    next held => exact allPanes_split side node distinct held
    next stale => exact split_stale side node stale
  addTab := allPanes_addTab layout
  removePane := allPanes_removePane layout
  removeTab := tabs_removeTab layout
  moveTab tabId position := (moveTab_keeps layout tabId position).1.flatMap_right _
  setRatio _ _ _ _ sets := (setRatio_keeps sets).1
  setPaneState := allPanes_setPaneState layout

theorem Inv.whole (inv : Inv windows) : Whole windows where
  each window layout held := by
    have distinct := inv.panes.own window layout held
    refine ⟨layout.nonempty, inv.tabs.own window layout held, distinct,
      inv.shows window layout held, inv.within_ window layout held, exact_of_nodup distinct,
      fun tab among => tiles_paneRects (inv.within_ window layout held tab among) ?_⟩
    have own : (panesOf tab.root).Sublist (allPanes layout) :=
      List.sublist_flatten_of_mem (List.mem_map_of_mem among)
    exact (own.map Pane.id).nodup distinct
  panes := inv.panes
  merges target source layout other _ held alsoHeld placement := by
    have sourceTabs := inv.tabs.own source other alsoHeld
    exact ⟨fits_of_allPanes_merge sourceTabs,
      allPanes_merge (inv.panes.own target layout held) sourceTabs⟩

end

/-- In every run of changes and merges, each of which names a pane that is there to merge beside,
and a number for a ratio. -/
theorem whole_of_reached {windows : Windows Content} (reached : desk.Reached Meets windows) :
    Whole windows := by
  have step : ∀ (before : Windows Content) event after, Inv before → Meets before event →
      desk.Step before event after → Inv after := by
    rintro before event after inv meets ⟨fresh, leads⟩
    cases event with
    | inside_ window change =>
        refine inv_inside inv (fresh window change rfl) ?_ leads
        rintro tabId path ratio rfl
        exact meets
    | merge target source placement => exact inv_merge inv meets leads
  exact (reached.holds (fun _ => inv_opened) step).whole

/-! ### Two windows -/

theorem opened_empty : Opened (∅ : Windows Content) where
  single _ _ none := nomatch none
  panes := ⟨(fun _ _ none => nomatch none), fun _ _ _ _ _ none => nomatch none⟩
  tabs := ⟨(fun _ _ none => nomatch none), fun _ _ _ _ _ none => nomatch none⟩

theorem Opened.insert {windows : Windows Content} (opened : Opened windows) (window tabId : Text)
    (pane : Pane Content)
    (panes : ∀ other layout, windows.lookup other = some layout → pane.id ∉ paneIds layout)
    (tabs : ∀ other layout, windows.lookup other = some layout → tabId ∉ tabIds layout) :
    Opened (AList.insert window (Panes.single tabId pane) windows) := by
  have others : ∀ other layout,
      (AList.insert window (Panes.single tabId pane) windows).lookup other = some layout →
      other ≠ window → windows.lookup other = some layout := by
    intro other layout isThere differs
    rwa [AList.lookup_insert_ne differs] at isThere
  have own {names : Layout Content → List Text} {name : Text} (apart : Apart names windows)
      (isOnly : names (Panes.single tabId pane) = [name])
      (fresh : ∀ other layout, windows.lookup other = some layout → name ∉ names layout) :
      Apart names (AList.insert window (Panes.single tabId pane) windows) := by
    refine apart.put others fun found isFound => (?_ : _ ∧ [name].Nodup ∧ _)
    rw [AList.lookup_insert] at isFound
    cases isFound
    refine ⟨isOnly ▸ .refl _, List.pairwise_singleton _ _, ?_⟩
    intro id among other layout differs isThere
    rw [List.mem_singleton.mp among]
    exact fresh other layout (others other layout isThere differs)
  exact ⟨each_insert opened.single ⟨tabId, pane, rfl⟩, own opened.panes rfl panes,
    own opened.tabs rfl tabs⟩

/-- Two windows of one pane each. -/
def twoWindows : Windows Unit :=
  AList.insert "w".toList (single "t".toList ⟨"p".toList, ()⟩)
    (AList.insert "v".toList (single "s".toList ⟨"q".toList, ()⟩) ∅)

theorem opened_twoWindows : Opened twoWindows := by
  have one : Opened
      (AList.insert "v".toList (single "s".toList ⟨"q".toList, ()⟩) ∅ : Windows Unit) :=
    opened_empty.insert _ _ _ (fun _ _ none => nomatch none) fun _ _ none => nomatch none
  refine one.insert _ _ _ ?_ ?_
  · refine each_insert (fun _ _ none => nomatch none) ?_
    decide
  · refine each_insert (fun _ _ none => nomatch none) ?_
    decide

/-- The second window is dropped beside a pane of the first. -/
def dropped (paneId : Text) : Event Unit := .merge "w".toList "v".toList (.split paneId .right)

theorem step_dropped {paneId : Text} {after : Windows Unit}
    (leads : next twoWindows (dropped paneId) = some after) :
    desk.Step twoWindows (dropped paneId) after :=
  ⟨(fun _ _ same => nomatch same), leads⟩

theorem whole_twoWindows :
    ∃ after, next twoWindows (dropped "p".toList) = some after ∧ Whole after := by
  have meets : Meets twoWindows (dropped "p".toList) := by
    intro layout held
    obtain rfl : single "t".toList ⟨"p".toList, ()⟩ = layout := Option.some.inj held
    change "p".toList ∈ paneIds _
    decide
  exact ⟨_, rfl, whole_of_reached (.step (.initial opened_twoWindows) meets (step_dropped rfl))⟩

/-- The first window's pane and a new one, with a ratio that is no number. -/
def unshared : Windows Unit :=
  AList.insert "w".toList
    ⟨[⟨"t".toList, .split .row .nan (.pane ⟨"p".toList, ()⟩) (.pane ⟨"r".toList, ()⟩)⟩],
      List.cons_ne_nil _ _, "t".toList, "r".toList⟩
    twoWindows

theorem reachable_unshared : desk.Reachable unshared := by
  let shared_ : Change Unit := .split "p".toList .right (.pane ⟨"r".toList, ()⟩)
  let unset : Change Unit := .setRatio "t".toList [] .nan
  have fresh : Fresh twoWindows shared_ := by
    refine ⟨by decide, ?_, (fun _ _ _ _ none => nomatch none), ?_⟩
    · refine each_insert (each_insert (fun _ _ none => nomatch none) ?_) ?_
      · decide
      · decide
    · intro node among
      rw [List.mem_singleton.mp among]
      trivial
  have nothing (windows : Windows Unit) : Fresh windows unset :=
    ⟨List.nodup_nil, (fun _ _ _ _ none => nomatch none), (fun _ _ _ _ none => nomatch none),
      fun _ none => nomatch none⟩
  have isOwn {windows : Windows Unit} {window : Text} {change : Change Unit}
      (fresh : Fresh windows change) (other : Text) (another : Change Unit)
      (same : Event.inside_ window change = .inside_ other another) : Fresh windows another := by
    cases same
    exact fresh
  have first : desk.Reachable _ := .step (.initial opened_twoWindows) trivial
    (⟨isOwn fresh, rfl⟩ : desk.Step twoWindows (.inside_ "w".toList shared_) _)
  exact .step first trivial (⟨isOwn (nothing _), rfl⟩ : desk.Step _ (.inside_ "w".toList unset) _)

/-- The first window, with the second merged into it beside no pane. -/
def stale : Windows Unit :=
  AList.insert "w".toList
    ⟨[⟨"t".toList, .pane ⟨"p".toList, ()⟩⟩], List.cons_ne_nil _ _, "t".toList, "q".toList⟩ ∅

/-- The second window is dropped beside a pane that the first has not, and its pane is in no window
then; and a ratio that is no number is set. -/
theorem not_whole_stale :
    (next twoWindows (dropped "x".toList) = some stale ∧ desk.Reachable stale ∧ ¬ Whole stale ∧
      ∀ window layout, stale.lookup window = some layout → "q".toList ∉ paneIds layout) ∧
    desk.Reachable unshared ∧ ¬ Whole unshared := by
  have leads : next twoWindows (dropped "x".toList) = some stale := rfl
  refine ⟨⟨leads, .step (.initial opened_twoWindows) trivial (step_dropped leads), ?_, ?_⟩,
    reachable_unshared, ?_⟩
  · intro whole
    obtain ⟨tab, among, -, hasFocus⟩ := (whole.each "w".toList _ rfl).shows
    rw [List.mem_singleton.mp among] at hasFocus
    exact absurd hasFocus (by decide)
  · refine each_insert (fun _ _ none => nomatch none) ?_
    decide
  · intro whole
    obtain ⟨⟨value, isNan, -⟩, -⟩ :=
      (whole.each "w".toList _ rfl).within_ _ (List.mem_singleton_self _)
    cases isNan

end ServerBox.Desk.Panes
