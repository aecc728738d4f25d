import ServerBox.Desk.Panes

/-!
# What the layout functions keep

For each function of `panes.ts`: which panes and tabs its layout has, and that the tab on show is
one of them and has the focus.
-/

namespace ServerBox.Desk.Panes

open ServerBox.Std

variable {Content : Type}

/-! ### Nodes -/

/-- A change of panes alone. -/
def OfPanes (change : PaneNode Content → Option (PaneNode Content)) : Prop :=
  ∀ dir ratio a b, change (.split dir ratio a b) = none

/-- The panes that a pane becomes. -/
def becomes (change : PaneNode Content → Option (PaneNode Content)) (pane : Pane Content) :
    List (Pane Content) :=
  panesOf ((change (.pane pane)).getD (.pane pane))

section

variable {change : PaneNode Content → Option (PaneNode Content)} {node : PaneNode Content}

theorem panesOf_mapNode (ofPanes : OfPanes change) (node : PaneNode Content) :
    panesOf ((mapNode change node).getD node) = (panesOf node).flatMap (becomes change) := by
  induction node with
  | pane pane => exact (List.append_nil _).symm
  | split dir ratio a b first second =>
      rw [mapNode, ofPanes]
      rw [panesOf, List.flatMap_append, ← first, ← second]
      cases mapNode change a <;> cases mapNode change b <;> rfl

/-- A node stays the same one when none of its panes is changed. -/
theorem isSome_mapNode (ofPanes : OfPanes change) (node : PaneNode Content) :
    (mapNode change node).isSome = (panesOf node).any fun pane => (change (.pane pane)).isSome := by
  induction node with
  | pane pane => exact (Bool.or_false _).symm
  | split dir ratio a b first second =>
      rw [mapNode, ofPanes, panesOf, List.any_append, ← first, ← second]
      cases mapNode change a <;> cases mapNode change b <;> rfl

/-- The share that `setRatio` leaves. -/
def Number.Set (ratio : Number) : Prop :=
  ∃ value, ratio = .finite value ∧ 1 / 10 ≤ value ∧ value ≤ 9 / 10

/-- Each split's share is set so. -/
def Within : PaneNode Content → Prop
  | .pane _ => True
  | .split _ ratio a b => ratio.Set ∧ Within a ∧ Within b

theorem set_half : (Number.finite (1 / 2)).Set := ⟨1 / 2, rfl, by norm_num, by norm_num⟩

theorem set_clamped {ratio : Number} (isNumber : ratio ≠ .nan) : ratio.clamped.Set := by
  cases ratio with
  | nan => exact absurd rfl isNumber
  | negInfinity => exact ⟨_, rfl, le_refl _, by norm_num⟩
  | infinity => exact ⟨_, rfl, by norm_num, le_refl _⟩
  | finite value => exact ⟨_, rfl, le_min (by norm_num) (le_max_left _ _), min_le_left _ _⟩

theorem within_mapNode (ofPanes : OfPanes change)
    (panes : ∀ pane, Within ((change (.pane pane)).getD (.pane pane))) (within_ : Within node) :
    Within ((mapNode change node).getD node) := by
  induction node with
  | pane pane => exact panes pane
  | split dir ratio a b first second =>
      obtain ⟨isSet, inFirst, inSecond⟩ := within_
      have firstKept := first inFirst
      have secondKept := second inSecond
      rw [mapNode, ofPanes]
      cases isFirst : mapNode change a <;> cases isSecond : mapNode change b <;>
        rw [isFirst] at firstKept <;> rw [isSecond] at secondKept <;>
        exact ⟨isSet, firstKept, secondKept⟩

theorem panesOf_without (paneId : Text) (node : PaneNode Content) :
    ((without paneId node).map panesOf).getD [] =
      (panesOf node).filter fun pane => pane.id ≠ paneId := by
  induction node with
  | pane pane =>
      by_cases same : pane.id = paneId <;> simp [without, panesOf, same]
  | split dir ratio a b first second =>
      rw [without, panesOf, List.filter_append, ← first, ← second]
      cases without paneId a <;> cases without paneId b <;> simp [panesOf]

theorem within_without {paneId : Text} {left_ : PaneNode Content} (within_ : Within node)
    (leaves : without paneId node = some left_) : Within left_ := by
  induction node generalizing left_ with
  | pane pane =>
      rw [without] at leaves
      split at leaves
      next => cases leaves
      next =>
        cases leaves
        trivial
  | split dir ratio a b first second =>
      obtain ⟨isSet, inFirst, inSecond⟩ := within_
      rw [without] at leaves
      split at leaves
      next => exact second inSecond leaves
      next isFirst _ => exact first inFirst (by rw [← leaves])
      next isFirst isSecond =>
        cases leaves
        exact ⟨isSet, first inFirst isFirst, second inSecond isSecond⟩

/-- A ratio that is set leaves the panes as they are. -/
theorem ratioAt_keeps {ratio : Number} {path : Text} {resized : PaneNode Content}
    (sets : ratioAt ratio node path = some resized) :
    panesOf resized = panesOf node ∧ (ratio.Set → Within node → Within resized) := by
  induction node generalizing path resized with
  | pane pane =>
      cases sets
      exact ⟨rfl, fun _ => id⟩
  | split dir old a b first second =>
      cases path with
      | nil =>
          cases sets
          exact ⟨rfl, fun isSet within_ => ⟨isSet, within_.2⟩⟩
      | cons step rest =>
          rw [ratioAt] at sets
          split at sets
          next =>
            obtain ⟨child, isChild, rfl⟩ := Option.map_eq_some_iff.mp sets
            obtain ⟨panes, kept⟩ := first isChild
            refine ⟨?_, fun isSet within_ => ⟨within_.1, kept isSet within_.2.1, within_.2.2⟩⟩
            rw [panesOf, panesOf, panes]
          next =>
            split at sets
            next =>
              obtain ⟨child, isChild, rfl⟩ := Option.map_eq_some_iff.mp sets
              obtain ⟨panes, kept⟩ := second isChild
              refine ⟨?_, fun isSet within_ => ⟨within_.1, within_.2.1, kept isSet within_.2.2⟩⟩
              rw [panesOf, panesOf, panes]
            next => cases sets

theorem hasPane_iff {paneId : Text} :
    hasPane node paneId = true ↔ paneId ∈ (panesOf node).map Pane.id := by
  rw [hasPane, List.any_eq_true, List.mem_map]
  simp only [decide_eq_true_eq]

theorem hasPane_firstPane (node : PaneNode Content) : hasPane node (firstPane node).id = true :=
  hasPane_iff.mpr (List.mem_map_of_mem (List.head_mem _))

end

/-! ### Layouts -/

def paneIds (layout : Layout Content) : List Text := (allPanes layout).map Pane.id

def tabIds (layout : Layout Content) : List Text := layout.tabs.map Tab.id

/-- `tab` names a tab, and `focus` a pane of it. -/
def Shows (layout : Layout Content) : Prop :=
  ∃ tab ∈ layout.tabs, tab.id = layout.tab ∧ hasPane tab.root layout.focus = true

def AllWithin (layout : Layout Content) : Prop := ∀ tab ∈ layout.tabs, Within tab.root

section

variable {layout next : Layout Content} {change : PaneNode Content → Option (PaneNode Content)}
  {paneId tabId : Text} {node : PaneNode Content}

theorem of_tabOf {tab : Tab Content} (isTab : tabOf layout paneId = some tab) :
    tab ∈ layout.tabs ∧ hasPane tab.root paneId = true :=
  ⟨List.mem_of_find?_eq_some isTab, (List.find?_eq_some_iff_append.mp isTab).1⟩

theorem of_find_id {tabs : List (Tab Content)} {tab : Tab Content}
    (isTab : (tabs.find? fun tab => tab.id = tabId) = some tab) : tab ∈ tabs ∧ tab.id = tabId :=
  ⟨List.mem_of_find?_eq_some isTab,
    of_decide_eq_true (List.find?_eq_some_iff_append.mp isTab).1⟩

/-- A tab with its root changed. -/
def mapTab (change : PaneNode Content → Option (PaneNode Content)) (tab : Tab Content) :
    Tab Content :=
  { tab with root := (change tab.root).getD tab.root }

theorem of_mapTabs (layout : Layout Content)
    (change : PaneNode Content → Option (PaneNode Content)) :
    ((mapTabs layout change).getD layout).tabs = layout.tabs.map (mapTab change) ∧
      ((mapTabs layout change).getD layout).tab = layout.tab ∧
      ((mapTabs layout change).getD layout).focus = layout.focus := by
  unfold mapTabs
  split
  next => exact ⟨rfl, rfl, rfl⟩
  next unchanged =>
    refine ⟨?_, rfl, rfl⟩
    refine (List.map_congr_left fun tab among => ?_).trans (List.map_id _) |>.symm
    rw [Bool.not_eq_true, List.any_eq_false] at unchanged
    have isNone := Option.not_isSome_iff_eq_none.mp (unchanged tab among)
    rw [mapTab, isNone, Option.getD_none]
    rfl

/-- A layout stays the same one when none of its panes is changed. -/
theorem isSome_mapTabs (ofPanes : OfPanes change) (layout : Layout Content) :
    (mapTabs layout (mapNode change)).isSome =
      (allPanes layout).any fun pane => (change (.pane pane)).isSome := by
  have same : (layout.tabs.any fun tab => (mapNode change tab.root).isSome) =
      (allPanes layout).any fun pane => (change (.pane pane)).isSome := by
    rw [allPanes, List.any_flatMap]
    exact List.any_congr rfl fun tab => isSome_mapNode ofPanes tab.root
  rw [← same, mapTabs]
  split
  next held => exact held.symm
  next held => exact (Bool.eq_false_iff.mpr held).symm

theorem panes_mapTab (ofPanes : OfPanes change) (tabs : List (Tab Content)) :
    ((tabs.map (mapTab (mapNode change))).flatMap fun tab => panesOf tab.root) =
      (tabs.flatMap fun tab => panesOf tab.root).flatMap (becomes change) := by
  rw [List.flatMap_map, List.flatMap_assoc]
  exact List.flatMap_congr fun tab _ => panesOf_mapNode ofPanes tab.root

theorem within_mapTab (ofPanes : OfPanes change)
    (panes : ∀ pane, Within ((change (.pane pane)).getD (.pane pane)))
    (within_ : AllWithin layout) :
    ∀ tab ∈ layout.tabs.map (mapTab (mapNode change)), Within tab.root := by
  intro tab among
  obtain ⟨before, isBefore, rfl⟩ := List.mem_map.mp among
  exact within_mapNode ofPanes panes (within_ before isBefore)

/-! ### setPaneState -/

/-- What `setPaneState` does to a node. -/
def restated (paneId : Text) (state : Content) : PaneNode Content → Option (PaneNode Content)
  | .pane pane => if pane.id = paneId then some (.pane { pane with state }) else none
  | .split .. => none

/-- A pane with the state, if it is the one. -/
def withState (paneId : Text) (state : Content) (pane : Pane Content) : Pane Content :=
  if pane.id = paneId then { pane with state } else pane

theorem becomes_restated (paneId : Text) (state : Content) (pane : Pane Content) :
    becomes (restated paneId state) pane = [withState paneId state pane] := by
  rw [becomes, restated, withState]
  split <;> rfl

theorem id_withState (paneId : Text) (state : Content) (pane : Pane Content) :
    (withState paneId state pane).id = pane.id := by
  unfold withState
  split <;> rfl

theorem setPaneState_eq (layout : Layout Content) (paneId : Text) (state : Content) :
    setPaneState layout paneId state =
      (mapTabs layout (mapNode (restated paneId state))).getD layout := by
  have same : restated paneId state = fun node : PaneNode Content =>
      match node with
      | .pane pane => if pane.id = paneId then some (.pane { pane with state }) else none
      | .split .. => none := by
    funext node
    cases node <;> rfl
  rw [same]
  rfl

theorem allPanes_setPaneState (layout : Layout Content) (paneId : Text) (state : Content) :
    allPanes (setPaneState layout paneId state) =
      (allPanes layout).map (withState paneId state) := by
  rw [setPaneState_eq, allPanes, (of_mapTabs _ _).1, panes_mapTab fun _ _ _ _ => rfl,
    List.flatMap_congr fun pane _ => becomes_restated paneId state pane]
  exact List.map_eq_flatMap.symm

theorem tabIds_mapTab (tabs : List (Tab Content)) :
    (tabs.map (mapTab change)).map Tab.id = tabs.map Tab.id := by
  rw [List.map_map]
  rfl

theorem tabIds_setPaneState (layout : Layout Content) (paneId : Text) (state : Content) :
    tabIds (setPaneState layout paneId state) = tabIds layout := by
  rw [setPaneState_eq, tabIds, (of_mapTabs _ _).1, tabIds_mapTab]
  rfl

theorem shows_setPaneState (shows : Shows layout) (paneId : Text) (state : Content) :
    Shows (setPaneState layout paneId state) := by
  obtain ⟨tab, among, isTab, hasFocus⟩ := shows
  obtain ⟨tabs, isSame, sameFocus⟩ :=
    of_mapTabs layout (mapNode (restated paneId state))
  rw [setPaneState_eq, Shows, tabs, isSame, sameFocus]
  refine ⟨_, List.mem_map_of_mem among, isTab, ?_⟩
  rw [hasPane_iff] at hasFocus ⊢
  rw [mapTab, panesOf_mapNode fun _ _ _ _ => rfl]
  obtain ⟨pane, isPane, isFocus⟩ := List.mem_map.mp hasFocus
  refine List.mem_map.mpr ⟨withState paneId state pane, List.mem_flatMap.mpr ⟨pane, isPane, ?_⟩, ?_⟩
  · rw [becomes_restated]
    exact List.mem_singleton_self _
  · rw [id_withState, isFocus]

theorem within_setPaneState (within_ : AllWithin layout) (paneId : Text) (state : Content) :
    AllWithin (setPaneState layout paneId state) := by
  rw [setPaneState_eq, AllWithin, (of_mapTabs _ _).1]
  refine within_mapTab (fun _ _ _ _ => rfl) (fun pane => ?_) within_
  rw [restated]
  split <;> trivial

/-! ### focus and showTab -/

theorem tabs_focus (layout : Layout Content) (paneId : Text) :
    (focus layout paneId).tabs = layout.tabs := by
  unfold focus
  split <;> rfl

theorem shows_focus (shows : Shows layout) (paneId : Text) : Shows (focus layout paneId) := by
  unfold focus
  split
  next => exact shows
  next tab isTab =>
    obtain ⟨among, hasIt⟩ := of_tabOf isTab
    exact ⟨tab, among, rfl, hasIt⟩

theorem tabs_showTab (layout : Layout Content) (tabId : Text) :
    (showTab layout tabId).tabs = layout.tabs := by
  unfold showTab
  split
  next => rfl
  next => split <;> rfl

theorem shows_showTab (shows : Shows layout) (tabId : Text) : Shows (showTab layout tabId) := by
  unfold showTab
  split
  next => exact shows
  next tab isTab =>
    split
    next => exact shows
    next =>
      obtain ⟨among, isId⟩ := of_find_id isTab
      exact ⟨tab, among, isId, hasPane_firstPane tab.root⟩

/-! ### split -/

/-- The pane that a split is put in the place of, with the new ones. -/
theorem becomes_beside (side : Side) (node : PaneNode Content) {pane : Pane Content}
    (isPane : pane.id = paneId) :
    (becomes (beside paneId side node) pane).Perm (panesOf node ++ [pane]) := by
  rw [becomes, beside, if_pos isPane]
  cases side with
  | left => exact .refl _
  | right => exact List.perm_append_comm
  | top => exact .refl _
  | bottom => exact List.perm_append_comm

theorem becomes_other (side : Side) (node : PaneNode Content) {pane : Pane Content}
    (other : pane.id ≠ paneId) : becomes (beside paneId side node) pane = [pane] := by
  rw [becomes, beside, if_neg other]
  rfl

theorem flatMap_becomes_other (side : Side) (node : PaneNode Content) {panes : List (Pane Content)}
    (others : paneId ∉ panes.map Pane.id) :
    panes.flatMap (becomes (beside paneId side node)) = panes := by
  have each : ∀ pane ∈ panes, becomes (beside paneId side node) pane = [pane] :=
    fun pane among => becomes_other side node fun same => others (same ▸ List.mem_map_of_mem among)
  rw [List.flatMap_congr each]
  exact List.flatMap_singleton' panes

/-- The new panes are added once where one pane has the id. -/
theorem flatMap_becomes (side : Side) (node : PaneNode Content) {panes : List (Pane Content)}
    (distinct : (panes.map Pane.id).Nodup) (held : paneId ∈ panes.map Pane.id) :
    (panes.flatMap (becomes (beside paneId side node))).Perm (panesOf node ++ panes) := by
  induction panes with
  | nil => cases held
  | cons pane panes inductionHypothesis =>
      obtain ⟨notLater, later⟩ := List.nodup_cons.mp distinct
      rw [List.flatMap_cons]
      by_cases same : pane.id = paneId
      · rw [flatMap_becomes_other side node (same ▸ notLater)]
        have first := (becomes_beside side node same).append_right panes
        rwa [List.append_assoc, List.singleton_append] at first
      · have inRest := (List.mem_cons.mp held).resolve_left (Ne.symm same)
        rw [becomes_other side node same]
        have rest := (inductionHypothesis later inRest).cons pane
        exact rest.trans (List.perm_middle.symm)

/-- A stale id leaves the layout as it is. -/
theorem split_stale (side : Side) (node : PaneNode Content) (stale : paneId ∉ paneIds layout) :
    split layout paneId side node = layout := by
  have isNone : mapTabs layout (mapNode (beside paneId side node)) = none := by
    rw [← Option.not_isSome_iff_eq_none, isSome_mapTabs fun _ _ _ _ => rfl, Bool.not_eq_true,
      List.any_eq_false]
    intro pane among
    rw [beside, if_neg]
    · exact Bool.false_ne_true
    · rintro rfl
      exact stale (List.mem_map_of_mem among)
  rw [split, isNone]

/-- What `split` does where the pane is. -/
theorem of_split (side : Side) (node : PaneNode Content) (held : paneId ∈ paneIds layout) :
    (split layout paneId side node).tabs =
        layout.tabs.map (mapTab (mapNode (beside paneId side node))) ∧
      (split layout paneId side node).focus = (firstPane node).id ∧
      ∃ tab ∈ (split layout paneId side node).tabs,
        tab.id = (split layout paneId side node).tab ∧
        ∀ pane ∈ panesOf node, pane ∈ panesOf tab.root := by
  obtain ⟨pane, among, isPane⟩ := List.mem_map.mp held
  obtain ⟨tab, isTab, inTab⟩ := List.mem_flatMap.mp among
  have tabs := (of_mapTabs layout (mapNode (beside paneId side node))).1
  unfold split
  split
  next isNone =>
    have isSome := @isSome_mapTabs _ (beside paneId side node) (fun _ _ _ _ => rfl) layout
    rw [isNone, Option.isSome_none, eq_comm, List.any_eq_false] at isSome
    refine absurd ?_ (isSome pane among)
    rw [beside, if_pos isPane]
    rfl
  next next isNext =>
    rw [isNext, Option.getD_some] at tabs
    refine ⟨tabs, rfl, ?_⟩
    -- The first tab with the pane is found, and has what was put beside it.
    have found : ∃ after ∈ next.tabs, hasPane after.root paneId = true := by
      refine ⟨mapTab (mapNode (beside paneId side node)) tab,
        tabs ▸ List.mem_map_of_mem isTab, hasPane_iff.mpr ?_⟩
      rw [mapTab, panesOf_mapNode fun _ _ _ _ => rfl]
      refine List.mem_map.mpr ⟨pane, List.mem_flatMap.mpr ⟨pane, inTab, ?_⟩, isPane⟩
      exact (becomes_beside side node isPane).mem_iff.mpr
        (List.mem_append_right _ List.mem_cons_self)
    cases isAfter : tabOf next paneId with
    | none =>
        obtain ⟨after, isIn, hasIt⟩ := found
        exact absurd hasIt (List.find?_eq_none.mp isAfter after isIn)
    | some after =>
        obtain ⟨isIn, hasIt⟩ := of_tabOf isAfter
        refine ⟨after, isIn, rfl, fun added isAdded => ?_⟩
        rw [tabs] at isIn
        obtain ⟨before, -, rfl⟩ := List.mem_map.mp isIn
        rw [hasPane_iff, mapTab, panesOf_mapNode fun _ _ _ _ => rfl] at hasIt
        rw [mapTab, panesOf_mapNode fun _ _ _ _ => rfl]
        obtain ⟨found, isFound, isId⟩ := List.mem_map.mp hasIt
        obtain ⟨origin, isOrigin, becomesIt⟩ := List.mem_flatMap.mp isFound
        refine List.mem_flatMap.mpr ⟨origin, isOrigin, ?_⟩
        by_cases same : origin.id = paneId
        · exact (becomes_beside side node same).mem_iff.mpr (List.mem_append_left _ isAdded)
        · rw [becomes_other side node same, List.mem_singleton] at becomesIt
          exact absurd (becomesIt ▸ isId) same

theorem allPanes_split (side : Side) (node : PaneNode Content) (distinct : (paneIds layout).Nodup)
    (held : paneId ∈ paneIds layout) :
    (allPanes (split layout paneId side node)).Perm (panesOf node ++ allPanes layout) := by
  rw [allPanes, (of_split side node held).1, panes_mapTab fun _ _ _ _ => rfl]
  exact flatMap_becomes side node distinct held

theorem tabIds_split (layout : Layout Content) (paneId : Text) (side : Side)
    (node : PaneNode Content) : tabIds (split layout paneId side node) = tabIds layout := by
  by_cases held : paneId ∈ paneIds layout
  · rw [tabIds, (of_split side node held).1, tabIds_mapTab]
    rfl
  · rw [split_stale side node held]

theorem within_split (within_ : AllWithin layout) (paneId : Text) (side : Side)
    (inNode : Within node) : AllWithin (split layout paneId side node) := by
  by_cases held : paneId ∈ paneIds layout
  · rw [AllWithin, (of_split side node held).1]
    refine within_mapTab (fun _ _ _ _ => rfl) (fun pane => ?_) within_
    rw [beside]
    split
    next =>
      cases side with
      | left => exact ⟨set_half, inNode, trivial⟩
      | right => exact ⟨set_half, trivial, inNode⟩
      | top => exact ⟨set_half, inNode, trivial⟩
      | bottom => exact ⟨set_half, trivial, inNode⟩
    next => trivial
  · rw [split_stale side node held]
    exact within_

theorem shows_split (shows : Shows layout) (paneId : Text) (side : Side)
    (node : PaneNode Content) : Shows (split layout paneId side node) := by
  by_cases held : paneId ∈ paneIds layout
  · obtain ⟨-, isFocus, tab, isTab, isShown, hasNode⟩ := of_split side node held
    refine ⟨tab, isTab, isShown, hasPane_iff.mpr ?_⟩
    rw [isFocus]
    exact List.mem_map_of_mem (hasNode _ (List.head_mem _))
  · rw [split_stale side node held]
    exact shows

/-! ### Tabs put in a place -/

theorem spliced_perm {α : Type} (values : List α) (place : Nat) (more : List α) :
    (spliced values place more).Perm (more ++ values) := by
  have halves : (more ++ (values.take place ++ values.drop place)).Perm (more ++ values) := by
    rw [List.take_append_drop]
  refine .trans ?_ halves
  rw [spliced, ← List.append_assoc]
  exact List.perm_append_comm.append_right _

theorem panes_spliced (tabs more : List (Tab Content)) (place : Nat) :
    ((spliced tabs place more).flatMap fun tab => panesOf tab.root).Perm
      ((more.flatMap fun tab => panesOf tab.root) ++ tabs.flatMap fun tab => panesOf tab.root) := by
  rw [← List.flatMap_append]
  exact (spliced_perm tabs place more).flatMap_right _

theorem allPanes_addTab (layout : Layout Content) (root : PaneNode Content) (id : Text) :
    (allPanes (addTab layout root id)).Perm (panesOf root ++ allPanes layout) := by
  have more := panes_spliced layout.tabs [⟨id, root⟩] (placeAfter layout.tabs layout.tab)
  rwa [List.flatMap_singleton] at more

theorem tabIds_addTab (layout : Layout Content) (root : PaneNode Content) (id : Text) :
    (tabIds (addTab layout root id)).Perm (id :: tabIds layout) :=
  (spliced_perm layout.tabs _ [⟨id, root⟩]).map Tab.id

theorem shows_addTab (layout : Layout Content) (root : PaneNode Content) (id : Text) :
    Shows (addTab layout root id) :=
  ⟨⟨id, root⟩, (spliced_perm ..).mem_iff.mpr List.mem_cons_self, rfl, hasPane_firstPane root⟩

theorem within_addTab (within_ : AllWithin layout) (id : Text) (inNode : Within node) :
    AllWithin (addTab layout node id) := by
  intro tab among
  rcases List.mem_cons.mp ((spliced_perm ..).mem_iff.mp among) with rfl | before
  · exact inNode
  · exact within_ tab before

/-! ### What goes -/

theorem shows_settle (layout : Layout Content) (tabs : List (Tab Content)) (nonempty : tabs ≠ []) :
    Shows (settle layout tabs nonempty) := by
  have isOne {tab : Tab Content} (among : tab ∈ tabs) :
      ((tabs.find? fun tab => tab.id = layout.tab).getD tab) ∈ tabs := by
    cases found : tabs.find? fun tab => tab.id = layout.tab with
    | none => exact among
    | some tab => exact List.mem_of_find?_eq_some found
  refine ⟨_, isOne (List.getElem_mem _), rfl, ?_⟩
  change hasPane _ (ite _ _ _) = true
  split
  next hasFocus => exact hasFocus
  next => exact hasPane_firstPane _

/-- A removal that leaves something keeps the tabs that are left. -/
theorem of_removePane (removes : removePane layout paneId = some next) :
    Shows next ∧ next.tabs = layout.tabs.filterMap fun tab =>
      (without paneId tab.root).map fun root => { tab with root } := by
  simp only [removePane] at removes
  split at removes
  next nonempty =>
    cases removes
    exact ⟨shows_settle .., rfl⟩
  next => cases removes

theorem of_removeTab (removes : removeTab layout tabId = some next) :
    Shows next ∧ next.tabs = layout.tabs.filter fun tab => tab.id ≠ tabId := by
  simp only [removeTab] at removes
  split at removes
  next nonempty =>
    cases removes
    exact ⟨shows_settle .., rfl⟩
  next => cases removes

theorem panes_without (paneId : Text) (tabs : List (Tab Content)) :
    ((tabs.filterMap fun tab => (without paneId tab.root).map fun root => { tab with root }).flatMap
      fun tab => panesOf tab.root) =
      (tabs.flatMap fun tab => panesOf tab.root).filter fun pane => pane.id ≠ paneId := by
  induction tabs with
  | nil => rfl
  | cons tab tabs inductionHypothesis =>
      rw [List.flatMap_cons, List.filter_append, ← inductionHypothesis, ← panesOf_without]
      cases left_ : without paneId tab.root with
      | none =>
          rw [List.filterMap_cons_none (by rw [left_]; rfl)]
          rfl
      | some root =>
          rw [List.filterMap_cons_some (by rw [left_, Option.map_some])]
          rfl

/-- The panes but the one, whether some are left or none. -/
theorem allPanes_removePane (layout : Layout Content) (paneId : Text) :
    ((removePane layout paneId).map allPanes).getD [] =
      (allPanes layout).filter fun pane => pane.id ≠ paneId := by
  have panes := panes_without paneId layout.tabs
  unfold removePane
  simp only
  split
  next => exact panes
  next isEmpty =>
    rw [not_not.mp isEmpty] at panes
    exact panes

theorem tabs_removeTab (layout : Layout Content) (tabId : Text) :
    ((removeTab layout tabId).map Layout.tabs).getD [] =
      layout.tabs.filter fun tab => tab.id ≠ tabId := by
  unfold removeTab
  simp only
  split
  next => rfl
  next isEmpty => exact (not_not.mp isEmpty).symm

theorem tabIds_removePane (removes : removePane layout paneId = some next) :
    (tabIds next).Sublist (tabIds layout) := by
  rw [tabIds, (of_removePane removes).2, tabIds]
  induction layout.tabs with
  | nil => exact .slnil
  | cons tab tabs inductionHypothesis =>
      cases left_ : without paneId tab.root with
      | none =>
          rw [List.filterMap_cons_none (by rw [left_]; rfl)]
          exact inductionHypothesis.cons tab.id
      | some root =>
          rw [List.filterMap_cons_some (by rw [left_, Option.map_some])]
          exact inductionHypothesis.cons_cons tab.id

theorem within_removePane (within_ : AllWithin layout)
    (removes : removePane layout paneId = some next) : AllWithin next := by
  intro tab among
  rw [(of_removePane removes).2] at among
  obtain ⟨before, isBefore, isTab⟩ := List.mem_filterMap.mp among
  obtain ⟨root, leaves, rfl⟩ := Option.map_eq_some_iff.mp isTab
  exact within_without (within_ before isBefore) leaves

/-! ### moveTab -/

theorem perm_eraseIdx_findIdx {α : Type} {found : α → Bool} {values : List α} {value : α}
    (isFirst : values.find? found = some value) :
    (value :: values.eraseIdx (values.findIdx found)).Perm values := by
  induction values with
  | nil => cases isFirst
  | cons first rest inductionHypothesis =>
      rw [List.findIdx_cons]
      by_cases isFound : found first = true
      · rw [List.find?_cons_of_pos isFound] at isFirst
        cases isFirst
        rw [isFound]
        exact .refl _
      · rw [List.find?_cons_of_neg isFound] at isFirst
        rw [Bool.not_eq_true] at isFound
        rw [isFound]
        exact (List.Perm.swap ..).trans ((inductionHypothesis isFirst).cons first)

theorem moveTab_keeps (layout : Layout Content) (tabId : Text) (position : Number) :
    (moveTab layout tabId position).tabs.Perm layout.tabs ∧
      (moveTab layout tabId position).tab = layout.tab ∧
      (moveTab layout tabId position).focus = layout.focus := by
  unfold moveTab
  split
  next => exact ⟨.refl _, rfl, rfl⟩
  next tab isTab =>
    exact ⟨(spliced_perm ..).trans (perm_eraseIdx_findIdx isTab), rfl, rfl⟩

/-! ### setRatio -/

theorem of_setRatio {path : Text} {ratio : Number}
    (sets : setRatio layout tabId path ratio = some next) :
    next.tab = layout.tab ∧ next.focus = layout.focus ∧
      next.tabs = layout.tabs.map (fun tab => (resized tabId path ratio.clamped tab).getD tab) := by
  unfold setRatio at sets
  split at sets
  next =>
    cases sets
    exact ⟨rfl, rfl, rfl⟩
  next => cases sets

theorem resized_keeps (path : Text) (ratio : Number) (tab : Tab Content) :
    ((resized tabId path ratio tab).getD tab).id = tab.id ∧
      panesOf ((resized tabId path ratio tab).getD tab).root = panesOf tab.root ∧
      (ratio.Set → Within tab.root → Within ((resized tabId path ratio tab).getD tab).root) := by
  unfold resized
  split
  next =>
    cases sets : ratioAt ratio tab.root path with
    | none => exact ⟨rfl, rfl, fun _ => id⟩
    | some root =>
        obtain ⟨panes, kept⟩ := ratioAt_keeps sets
        exact ⟨rfl, panes, kept⟩
  next => exact ⟨rfl, rfl, fun _ => id⟩

theorem setRatio_keeps {path : Text} {ratio : Number}
    (sets : setRatio layout tabId path ratio = some next) :
    allPanes next = allPanes layout ∧ tabIds next = tabIds layout ∧
      (Shows layout → Shows next) ∧
      (ratio ≠ .nan → AllWithin layout → AllWithin next) := by
  obtain ⟨isTab, isFocus, tabs⟩ := of_setRatio sets
  refine ⟨?_, ?_, ?_, ?_⟩
  · rw [allPanes, tabs, List.flatMap_map]
    exact List.flatMap_congr fun tab _ => (resized_keeps path ratio.clamped tab).2.1
  · rw [tabIds, tabs, List.map_map]
    exact List.map_congr_left fun tab _ => (resized_keeps path ratio.clamped tab).1
  · rintro ⟨tab, among, isShown, hasFocus⟩
    obtain ⟨isId, panes, -⟩ := @resized_keeps _ tabId path ratio.clamped tab
    rw [Shows, tabs, isTab, isFocus]
    refine ⟨_, List.mem_map_of_mem among, isId.trans isShown, ?_⟩
    rw [hasPane_iff, panes]
    exact hasPane_iff.mp hasFocus
  · intro isNumber within_ tab among
    rw [tabs] at among
    obtain ⟨before, isBefore, rfl⟩ := List.mem_map.mp among
    exact (resized_keeps path ratio.clamped before).2.2 (set_clamped isNumber)
      (within_ before isBefore)

/-! ### merge -/

/-- A placement names no pane that is not there. -/
def Placement.Fits (layout : Layout Content) : Placement → Prop
  | .tab => True
  | .split paneId _ => paneId ∈ paneIds layout

theorem activeTab_mem (layout : Layout Content) : activeTab layout ∈ layout.tabs := by
  unfold activeTab
  cases found : layout.tabs.find? fun tab => tab.id = layout.tab with
  | none => exact List.head_mem _
  | some tab => exact List.mem_of_find?_eq_some found

/-- A tab and those with other ids are all. -/
theorem cons_others_perm {tab : Tab Content} {tabs : List (Tab Content)}
    (distinct : (tabs.map Tab.id).Nodup) (among : tab ∈ tabs) :
    (tab :: tabs.filter fun other => other.id ≠ tab.id).Perm tabs := by
  induction tabs with
  | nil => cases among
  | cons first tabs inductionHypothesis =>
      obtain ⟨notLater, later⟩ := List.nodup_cons.mp distinct
      rcases List.mem_cons.mp among with rfl | inRest
      · rw [List.filter_cons_of_neg (by simp), List.filter_eq_self.mpr]
        intro other isLater
        exact decide_eq_true fun same => notLater (same ▸ List.mem_map_of_mem isLater)
      · have differs : first.id ≠ tab.id := fun same =>
          notLater (same ▸ List.mem_map_of_mem inRest)
        rw [List.filter_cons, if_pos (decide_eq_true differs)]
        exact (List.Perm.swap ..).trans ((inductionHypothesis later inRest).cons first)

section

variable {target source : Layout Content} {placement : Placement}

/-- The layout that the tab on show of the dropped window goes into. -/
def received (target : Layout Content) (placement : Placement) (shown : Tab Content) :
    Layout Content :=
  match placement with
  | .split paneId side => split target paneId side shown.root
  | .tab => addTab target shown.root shown.id

/-- The tabs of the dropped window that are not on show. -/
def restOf (source : Layout Content) : List (Tab Content) :=
  source.tabs.filter fun tab => tab.id ≠ (activeTab source).id

theorem merge_eq (target source : Layout Content) (placement : Placement) :
    (merge target source placement).tabs =
        spliced (received target placement (activeTab source)).tabs
          (placeAfter (received target placement (activeTab source)).tabs
            (received target placement (activeTab source)).tab) (restOf source) ∧
      (merge target source placement).tab = (received target placement (activeTab source)).tab ∧
      hasPane (activeTab source).root (merge target source placement).focus = true := by
  refine ⟨?_, ?_, ?_⟩
  · cases placement <;> rfl
  · cases placement <;> rfl
  · change hasPane _ (ite _ _ _) = true
    split
    next hasFocus => exact hasFocus
    next => exact hasPane_firstPane _

theorem panes_source (distinct : (tabIds source).Nodup) :
    (panesOf (activeTab source).root ++ (restOf source).flatMap fun tab => panesOf tab.root).Perm
      (allPanes source) :=
  (cons_others_perm distinct (activeTab_mem source)).flatMap_right
    fun tab : Tab Content => panesOf tab.root

theorem allPanes_merge_received (target source : Layout Content) (placement : Placement) :
    (allPanes (merge target source placement)).Perm
      (((restOf source).flatMap fun tab => panesOf tab.root) ++
        allPanes (received target placement (activeTab source))) := by
  rw [allPanes, (merge_eq target source placement).1]
  exact panes_spliced ..

theorem allPanes_received (distinct : (paneIds target).Nodup) (fits : placement.Fits target)
    (shown : Tab Content) :
    (allPanes (received target placement shown)).Perm (panesOf shown.root ++ allPanes target) := by
  cases placement with
  | tab => exact allPanes_addTab target shown.root shown.id
  | split paneId side => exact allPanes_split side shown.root distinct fits

theorem allPanes_merge (distinct : (paneIds target).Nodup) (sourceTabs : (tabIds source).Nodup)
    (fits : placement.Fits target) :
    (allPanes (merge target source placement)).Perm (allPanes target ++ allPanes source) := by
  refine (allPanes_merge_received target source placement).trans ?_
  refine ((allPanes_received distinct fits _).append_left _).trans ?_
  rw [← List.append_assoc]
  refine .trans ?_ List.perm_append_comm
  exact (List.perm_append_comm.trans (panes_source sourceTabs)).append_right _

/-- Where the placement's pane is not there, the tab on show is lost. -/
theorem fits_of_allPanes_merge (sourceTabs : (tabIds source).Nodup)
    (all : (allPanes (merge target source placement)).Perm (allPanes target ++ allPanes source)) :
    placement.Fits target := by
  by_contra stale
  cases placement with
  | tab => exact stale trivial
  | split paneId side =>
      have isTarget : received target (.split paneId side) (activeTab source) = target :=
        split_stale side _ stale
      have kept := allPanes_merge_received target source (.split paneId side)
      rw [isTarget] at kept
      have lengths := (kept.symm.trans all).length_eq
      have sourceLength := (panes_source sourceTabs).length_eq
      have shown := List.length_pos_iff.mpr (panesOf_ne_nil (activeTab source).root)
      simp only [List.length_append] at lengths sourceLength
      omega

theorem tabIds_received (target : Layout Content) (placement : Placement) (shown : Tab Content) :
    (tabIds (received target placement shown)).Sublist (tabIds target) ∨
      (tabIds (received target placement shown)).Perm (shown.id :: tabIds target) := by
  cases placement with
  | tab => exact .inr (tabIds_addTab target shown.root shown.id)
  | split paneId side =>
      exact .inl (tabIds_split target paneId side shown.root ▸ List.Sublist.refl _)

theorem tabIds_merge (target source : Layout Content) (placement : Placement)
    (sourceTabs : (tabIds source).Nodup) :
    (tabIds (merge target source placement)).Subperm (tabIds target ++ tabIds source) := by
  have rest : (tabIds (merge target source placement)).Perm
      ((restOf source).map Tab.id ++
        tabIds (received target placement (activeTab source))) := by
    rw [tabIds, (merge_eq target source placement).1, tabIds, ← List.map_append]
    exact (spliced_perm ..).map Tab.id
  have all : ((activeTab source).id :: (restOf source).map Tab.id).Perm (tabIds source) :=
    (cons_others_perm sourceTabs (activeTab_mem source)).map Tab.id
  refine rest.subperm.trans (List.Subperm.trans ?_ List.perm_append_comm.subperm)
  rcases tabIds_received target placement (activeTab source) with fewer | more
  · refine (fewer.append_left _).subperm.trans ((List.subperm_append_right _).mpr ?_)
    exact (List.sublist_cons_self _ _).subperm.trans all.subperm
  · refine (more.append_left _).subperm.trans ?_
    refine (List.perm_middle.trans ?_).subperm
    exact all.append_right _

theorem shows_merge (fits : placement.Fits target) : Shows (merge target source placement) := by
  obtain ⟨tabs, isTab, hasFocus⟩ := merge_eq target source placement
  have hasShown : ∃ tab ∈ (received target placement (activeTab source)).tabs,
      tab.id = (received target placement (activeTab source)).tab ∧
      ∀ pane ∈ panesOf (activeTab source).root, pane ∈ panesOf tab.root := by
    cases placement with
    | tab =>
        exact ⟨⟨(activeTab source).id, (activeTab source).root⟩,
          (spliced_perm ..).mem_iff.mpr List.mem_cons_self, rfl, fun _ => id⟩
    | split paneId side => exact (of_split side (activeTab source).root fits).2.2
  obtain ⟨tab, among, isShown, hasAll⟩ := hasShown
  rw [Shows, tabs, isTab]
  refine ⟨tab, (spliced_perm ..).mem_iff.mpr (List.mem_append_right _ among), isShown, ?_⟩
  rw [hasPane_iff] at hasFocus ⊢
  obtain ⟨pane, isPane, isId⟩ := List.mem_map.mp hasFocus
  exact List.mem_map.mpr ⟨pane, hasAll pane isPane, isId⟩

theorem within_merge (inTarget : AllWithin target) (inSource : AllWithin source) :
    AllWithin (merge target source placement) := by
  have shown := inSource _ (activeTab_mem source)
  have inReceived : AllWithin (received target placement (activeTab source)) := by
    cases placement with
    | tab => exact within_addTab inTarget _ shown
    | split paneId side => exact within_split inTarget paneId side shown
  intro tab among
  rw [(merge_eq target source placement).1] at among
  rcases List.mem_append.mp ((spliced_perm ..).mem_iff.mp among) with isRest | isOther
  · exact inSource tab (List.mem_of_mem_filter isRest)
  · exact inReceived tab isOther

end

end

end ServerBox.Desk.Panes
