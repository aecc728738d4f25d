import Mathlib.Data.List.Flatten
import ServerBox.Workspaces.WorkspaceKept

/-!
# Where the tabs of a workspace are

For each operation, which tabs each pane has after it, and that nothing else of the workspace is
out of place.
-/

namespace ServerBox.Workspaces.Workspace

open ServerBox.Std

variable {ws after : Workspace}

/-! ### Tabs in reading order -/

section Lists

variable {order : List Text} {first second : Text → List WsTab}

/-- Panes without tabs add none. -/
theorem flatMap_of_sublist {fewer : List Text} (sublist : fewer.Sublist order)
    (distinct : order.Nodup) (empty : ∀ id ∈ order, id ∉ fewer → first id = []) :
    fewer.flatMap first = order.flatMap first := by
  induction sublist with
  | slnil => rfl
  | cons id rest inductionHypothesis =>
      obtain ⟨notLater, later⟩ := List.nodup_cons.mp distinct
      have here := empty id List.mem_cons_self fun held => notLater (rest.mem held)
      rw [List.flatMap_cons, here, List.nil_append]
      exact inductionHypothesis later fun other held => empty other (List.mem_cons_of_mem _ held)
  | cons_cons id rest inductionHypothesis =>
      obtain ⟨notLater, later⟩ := List.nodup_cons.mp distinct
      have emptyLater : ∀ other ∈ _, other ∉ _ → first other = [] := fun other held absent =>
        empty other (List.mem_cons_of_mem _ held) fun among =>
          (List.mem_cons.mp among).elim (fun same => notLater (same ▸ held)) absent
      rw [List.flatMap_cons, List.flatMap_cons, inductionHypothesis later emptyLater]

/-- What one pane has more, all of them together have more. -/
theorem perm_flatMap_of_eq_off {id : Text} {added : List WsTab} (distinct : order.Nodup)
    (among : id ∈ order) (off : ∀ other ∈ order, other ≠ id → second other = first other)
    (here : (second id).Perm (added ++ first id)) :
    (order.flatMap second).Perm (added ++ order.flatMap first) := by
  obtain ⟨front, back, rfl⟩ := List.append_of_mem among
  obtain ⟨-, backDistinct, apart⟩ := List.nodup_append.mp distinct
  have inFront : front.flatMap second = front.flatMap first := List.flatMap_congr fun other held =>
    off other (List.mem_append_left _ held) (apart other held id List.mem_cons_self)
  have inBack : back.flatMap second = back.flatMap first := List.flatMap_congr fun other held =>
    off other (List.mem_append_right _ (List.mem_cons_of_mem _ held)) fun same =>
      (List.nodup_cons.mp backDistinct).1 (same ▸ held)
  rw [List.flatMap_append, List.flatMap_append, List.flatMap_cons, List.flatMap_cons, inFront,
    inBack]
  have moved : (front.flatMap first ++ (added ++ (first id ++ back.flatMap first))).Perm
      (added ++ (front.flatMap first ++ (first id ++ back.flatMap first))) := by
    rw [← List.append_assoc, ← List.append_assoc added]
    exact List.perm_append_comm.append_right _
  refine ((here.append_right _).append_left _).trans ?_
  rw [List.append_assoc]
  exact moved

end Lists

/-- The tabs of a workspace that has fewer panes, counted in the panes there were. -/
theorem Placed.tabs_eq (isPlaced : after.Placed) (distinct : ws.order.Nodup)
    (sublist : after.order.Sublist ws.order) : after.tabs = ws.order.flatMap after.tabsAt :=
  flatMap_of_sublist sublist distinct fun _ _ absent => isPlaced.tabsAt_eq_nil absent

/-! ### Relations of the workspace before and after -/

/-- Some tabs are gone, and the panes that they leave empty. -/
structure Removes (ws after : Workspace) (gone : Text → WsTab → Prop)
    [∀ id, DecidablePred (gone id)] : Prop where
  tabsAt : ∀ id, after.tabsAt id = (ws.tabsAt id).filter fun t => ¬gone id t
  order : after.order.Sublist ws.order

/-- The same tabs, those other than one in the same order. -/
structure Moves (ws after : Workspace) (tabId : Text) : Prop where
  same : after.tabs.Perm ws.tabs
  others : after.tabs.filter (fun t => t.id ≠ tabId) = ws.tabs.filter fun t => t.id ≠ tabId

/-- The tabs that a removal leaves, in reading order. -/
theorem Removes.tabs_sublist {gone : Text → WsTab → Prop} [∀ id, DecidablePred (gone id)]
    (removes : Removes ws after gone) (distinct : ws.order.Nodup) (isPlaced : after.Placed) :
    after.tabs.Sublist ws.tabs := by
  rw [isPlaced.tabs_eq distinct removes.order]
  refine List.Sublist.flatMap_right _ fun id _ => ?_
  rw [removes.tabsAt]
  exact List.filter_sublist

/-- What a removal leaves alone, it leaves in its place. -/
theorem Removes.filter_eq {gone : Text → WsTab → Prop} [∀ id, DecidablePred (gone id)]
    (removes : Removes ws after gone) (distinct : ws.order.Nodup) (isPlaced : after.Placed)
    {keep : WsTab → Bool} (others : ∀ id t, keep t = true → ¬gone id t) :
    after.tabs.filter keep = ws.tabs.filter keep := by
  rw [isPlaced.tabs_eq distinct removes.order, tabs, List.filter_flatMap, List.filter_flatMap]
  refine List.flatMap_congr fun id _ => ?_
  rw [removes.tabsAt, List.filter_filter]
  refine List.filter_congr fun t _ => ?_
  by_cases kept : keep t = true
  · simp [kept, others id t kept]
  · simp [Bool.not_eq_true _ ▸ kept]

theorem Moves.refl (ws : Workspace) (tabId : Text) : Moves ws ws tabId := ⟨.refl _, rfl⟩

/-- The distinct ids of tabs that are in one pane. -/
theorem nodup_tabsAt (isPlaced : ws.Placed) (distinct : (ws.tabs.map WsTab.id).Nodup) (id : Text) :
    ((ws.tabsAt id).map WsTab.id).Nodup := by
  by_cases among : id ∈ ws.order
  · rw [tabs, List.map_flatMap, List.nodup_flatMap] at distinct
    exact distinct.1 id among
  · rw [isPlaced.tabsAt_eq_nil among]
    exact List.nodup_nil

/-! ### Tabs of a pane -/

theorem eraseP_eq_filter {tabs : List WsTab} (distinct : (tabs.map WsTab.id).Nodup)
    (tabId : Text) :
    tabs.eraseP (fun t => t.id = tabId) = tabs.filter fun t => t.id ≠ tabId := by
  induction tabs with
  | nil => rfl
  | cons tab rest inductionHypothesis =>
      obtain ⟨notLater, later⟩ := List.nodup_cons.mp distinct
      by_cases same : tab.id = tabId
      · rw [List.eraseP_cons_of_pos (by simpa using same),
          List.filter_cons_of_neg (by simpa using same)]
        refine (List.filter_eq_self.mpr fun other held => ?_).symm
        have differs : other.id ≠ tabId := fun equal =>
          notLater ((equal.trans same.symm) ▸ List.mem_map_of_mem held)
        exact decide_eq_true differs
      · rw [List.eraseP_cons_of_neg (by simpa using same),
          List.filter_cons_of_pos (by simpa using same), inductionHypothesis later]

theorem perm_eraseP {tabs : List WsTab} {tabId : Text} {tab : WsTab}
    (found : tabs.find? (fun t => t.id = tabId) = some tab) :
    tabs.Perm (tab :: tabs.eraseP fun t => t.id = tabId) := by
  induction tabs with
  | nil => cases found
  | cons first rest inductionHypothesis =>
      by_cases same : first.id = tabId
      · rw [List.find?_cons_of_pos (by simpa using same)] at found
        rw [List.eraseP_cons_of_pos (by simpa using same), Option.some.inj found]
      · rw [List.find?_cons_of_neg (by simpa using same)] at found
        rw [List.eraseP_cons_of_neg (by simpa using same)]
        exact ((inductionHypothesis found).cons first).trans (.swap tab first _)

theorem insertIdx_spec (tab : WsTab) (tabs : List WsTab) {at_ : Nat} (within_ : at_ ≤ tabs.length) :
    ∃ front back, tabs = front ++ back ∧ tabs.insertIdx at_ tab = front ++ tab :: back := by
  induction tabs generalizing at_ with
  | nil =>
      cases Nat.le_zero.mp within_
      exact ⟨[], [], rfl, rfl⟩
  | cons first rest inductionHypothesis =>
      cases at_ with
      | zero => exact ⟨[], first :: rest, rfl, rfl⟩
      | succ at_ =>
          obtain ⟨front, back, rfl, inserted⟩ :=
            inductionHypothesis (Nat.le_of_succ_le_succ within_)
          exact ⟨first :: front, back, rfl, by rw [List.insertIdx_succ_cons, inserted]; rfl⟩

/-- A tab is inserted between the others. -/
theorem insertTab_spec (tabs : List WsTab) (beforeTabId : Option Text) (tab : WsTab) :
    ∃ front back, tabs = front ++ back ∧ insertTab tabs beforeTabId tab = front ++ tab :: back := by
  cases beforeTabId with
  | none => exact ⟨tabs, [], (List.append_nil _).symm, rfl⟩
  | some before => exact insertIdx_spec tab tabs List.findIdx_le_length

theorem perm_insertTab (tabs : List WsTab) (beforeTabId : Option Text) (tab : WsTab) :
    (insertTab tabs beforeTabId tab).Perm (tab :: tabs) := by
  obtain ⟨front, back, rfl, inserted⟩ := insertTab_spec tabs beforeTabId tab
  rw [inserted]
  exact List.perm_middle

theorem filter_insertTab (tabs : List WsTab) (beforeTabId : Option Text) (tab : WsTab) :
    (insertTab tabs beforeTabId tab).filter (fun t => t.id ≠ tab.id) =
      tabs.filter fun t => t.id ≠ tab.id := by
  obtain ⟨front, back, rfl, inserted⟩ := insertTab_spec tabs beforeTabId tab
  rw [inserted, List.filter_append, List.filter_cons_of_neg (by simp), List.filter_append]

/-! ### A tab closed -/

/-- A pane without a tab. -/
def erased (pane : WsPane) (tabId : Text) : List WsTab := pane.tabs.eraseP fun t => t.id = tabId

/-- What `closeTab` does: nothing where there is no such tab, the pane gone where the tab was the
last, and the pane without it. -/
theorem closeTab_cases (ws : Workspace) (paneId tabId : Text) :
    (ws.closeTab paneId tabId = ws ∧ ∀ t ∈ ws.tabsAt paneId, t.id ≠ tabId) ∨
      ∃ pane, ws.panes.lookup paneId = some pane ∧
        ((erased pane tabId = [] ∧ ws.closeTab paneId tabId = ws.removePane paneId) ∨
        ∃ activeId, (pane.activeId ∈ pane.tabs.map WsTab.id →
            activeId ∈ (erased pane tabId).map WsTab.id) ∧
          ws.closeTab paneId tabId =
            ws.withPane { pane with tabs := erased pane tabId, activeId }) := by
  unfold closeTab
  split
  next missing =>
    refine .inl ⟨rfl, fun t held => ?_⟩
    rw [tabsAt, missing] at held
    cases held
  next pane held =>
    split
    next notFound =>
      refine .inl ⟨rfl, fun t among => ?_⟩
      rw [tabsAt_of_lookup held] at among
      exact of_decide_eq_false (List.findIdx?_eq_none_iff.mp notFound t among)
    next at_ found =>
      have isErased : pane.tabs.eraseIdx at_ = erased pane tabId := by
        rw [erased, List.eraseP_eq_eraseIdx, found]
      refine .inr ⟨pane, held, ?_⟩
      split
      next none_ => exact .inl ⟨isErased ▸ none_, rfl⟩
      next first rest left_ =>
        rw [isErased] at left_
        refine .inr ⟨_, fun active => ?_, by rw [left_]⟩
        rw [left_]
        split
        next => exact List.mem_map_of_mem (List.get_mem _ _)
        next differs =>
          obtain ⟨t, among, isActive⟩ := List.mem_map.mp active
          rw [← left_]
          refine List.mem_map.mpr ⟨t, (List.mem_eraseP_of_neg ?_).mpr among, isActive⟩
          exact fun same => differs (isActive ▸ of_decide_eq_true same)

theorem Sound.closeTab (sound : ws.Sound) (paneId tabId : Text) :
    (ws.closeTab paneId tabId).Sound := by
  obtain ⟨same, -⟩ | ⟨pane, held, ⟨-, removed⟩ | ⟨activeId, active, closed⟩⟩ :=
    closeTab_cases ws paneId tabId
  · rwa [same]
  · rw [removed]
    exact sound.removePane paneId
  · have named := sound.named paneId pane held
    rw [closed]
    exact sound.withPane (named ▸ sound.mem_order held) (active (sound.active paneId pane held))

theorem order_closeTab (isPlaced : ws.Placed) (paneId tabId : Text) :
    (ws.closeTab paneId tabId).order.Sublist ws.order := by
  obtain ⟨same, -⟩ | ⟨pane, held, ⟨-, removed⟩ | ⟨activeId, -, closed⟩⟩ :=
    closeTab_cases ws paneId tabId
  · rw [same]
  · rw [removed, order_removePane isPlaced]
    exact List.filter_sublist
  · rw [closed, order_withPane]

theorem tabsAt_closeTab (isPlaced : ws.Placed) (paneId tabId id : Text) :
    (ws.closeTab paneId tabId).tabsAt id =
      if id = paneId then (ws.tabsAt id).eraseP fun t => t.id = tabId else ws.tabsAt id := by
  obtain ⟨same, absent⟩ | ⟨pane, held, ⟨none_, removed⟩ | ⟨activeId, -, closed⟩⟩ :=
    closeTab_cases ws paneId tabId
  · rw [same]
    split
    next isPane =>
      refine (List.eraseP_of_forall_not fun t among => ?_).symm
      exact fun equal => absent t (isPane ▸ among) (of_decide_eq_true equal)
    next => rfl
  · rw [removed, tabsAt_removePane]
    split
    next isPane => rw [isPane, tabsAt_of_lookup held, ← none_, erased]
    next => rfl
  · rw [closed, tabsAt_withPane, isPlaced.named paneId pane held]
    split
    next isPane => rw [isPane, tabsAt_of_lookup held, erased]
    next => rfl

/-- `closeTab` removes the tab it names. -/
theorem removes_closeTab (isPlaced : ws.Placed) (distinct : (ws.tabs.map WsTab.id).Nodup)
    (paneId tabId : Text) :
    Removes ws (ws.closeTab paneId tabId) fun id t => id = paneId ∧ t.id = tabId where
  tabsAt id := by
    rw [tabsAt_closeTab isPlaced]
    split
    next isPane =>
      rw [eraseP_eq_filter (nodup_tabsAt isPlaced distinct id)]
      exact List.filter_congr fun t _ => decide_eq_decide.mpr (by simp [isPane])
    next differs =>
      exact (List.filter_eq_self.mpr fun t _ => by simp [differs]).symm
  order := order_closeTab isPlaced paneId tabId

/-- Without the tab that `closeTab` closes, the tabs are those there were. -/
theorem perm_closeTab (sound : ws.Sound) {paneId tabId : Text} {tab : WsTab}
    (found : (ws.tabsAt paneId).find? (fun t => t.id = tabId) = some tab) :
    ws.tabs.Perm (tab :: (ws.closeTab paneId tabId).tabs) := by
  have among : paneId ∈ ws.order := by
    by_contra absent
    rw [sound.tabsAt_eq_nil absent] at found
    cases found
  have off : ∀ id ∈ ws.order, id ≠ paneId →
      ws.tabsAt id = (ws.closeTab paneId tabId).tabsAt id := fun id _ differs => by
    rw [tabsAt_closeTab sound.toPlaced, if_neg differs]
  have here : (ws.tabsAt paneId).Perm ([tab] ++ (ws.closeTab paneId tabId).tabsAt paneId) := by
    rw [tabsAt_closeTab sound.toPlaced, if_pos rfl]
    exact perm_eraseP found
  rw [(sound.closeTab paneId tabId).toPlaced.tabs_eq sound.distinct
    (order_closeTab sound.toPlaced paneId tabId)]
  exact perm_flatMap_of_eq_off sound.distinct among off here

/-- `removePane` removes the tabs of the pane. -/
theorem removes_removePane (isPlaced : ws.Placed) (paneId : Text) :
    Removes ws (ws.removePane paneId) fun id _ => id = paneId where
  tabsAt id := by
    rw [tabsAt_removePane]
    split
    next isPane => simp [isPane]
    next differs => simp [differs]
  order := by
    rw [order_removePane isPlaced]
    exact List.filter_sublist

/-! ### Tabs added and selected -/

theorem Sound.selectTab (sound : ws.Sound) (paneId tabId : Text) :
    (ws.selectTab paneId tabId).Sound := by
  unfold Workspace.selectTab
  split
  next => exact sound
  next pane held =>
    split
    next among =>
      obtain ⟨t, isTab, same⟩ := List.any_eq_true.mp among
      have named := sound.named paneId pane held
      refine (sound.withPane ?_ ?_).focus paneId
      · exact named ▸ sound.mem_order held
      · exact List.mem_map.mpr ⟨t, isTab, of_decide_eq_true same⟩
    next => exact sound

theorem tabs_selectTab (isPlaced : ws.Placed) (paneId tabId : Text) :
    (ws.selectTab paneId tabId).tabs = ws.tabs := by
  unfold selectTab
  split
  next => rfl
  next pane held =>
    split
    next =>
      rw [tabs_focus, tabs, order_withPane]
      refine List.flatMap_congr fun id _ => ?_
      rw [tabsAt_withPane, isPlaced.named paneId pane held]
      split
      next isPane => rw [isPane, tabsAt_of_lookup held]
      next => rfl
    next => rfl

section WithPane

variable {pane changed : WsPane}

/-- What a pane changed has more, the workspace has more. -/
theorem perm_withPane {added : List WsTab} (isPlaced : ws.Placed)
    (held : ws.panes.lookup pane.id = some pane) (sameId : changed.id = pane.id)
    (more : changed.tabs.Perm (added ++ pane.tabs)) :
    (ws.withPane changed).tabs.Perm (added ++ ws.tabs) := by
  have off : ∀ id ∈ ws.order, id ≠ pane.id →
      (ws.withPane changed).tabsAt id = ws.tabsAt id := fun id _ differs => by
    rw [tabsAt_withPane, sameId, if_neg differs]
  have here : ((ws.withPane changed).tabsAt pane.id).Perm (added ++ ws.tabsAt pane.id) := by
    rw [tabsAt_withPane, sameId, if_pos rfl, tabsAt_of_lookup held]
    exact more
  exact perm_flatMap_of_eq_off isPlaced.distinct (isPlaced.mem_order held) off here

theorem filter_withPane {keep : WsTab → Bool} (held : ws.panes.lookup pane.id = some pane)
    (sameId : changed.id = pane.id) (same : changed.tabs.filter keep = pane.tabs.filter keep) :
    (ws.withPane changed).tabs.filter keep = ws.tabs.filter keep := by
  rw [tabs, tabs, List.filter_flatMap, List.filter_flatMap, order_withPane]
  refine List.flatMap_congr fun id _ => ?_
  rw [tabsAt_withPane, sameId]
  split
  next isPane => rw [isPane, tabsAt_of_lookup held, same]
  next => rfl

end WithPane

/-- The pane that `addTab` adds to: there is one wherever there is a pane. -/
theorem addTab_cases (sound : ws.Sound) (paneId : Option Text) (tab : WsTab) (newPaneId : Text) :
    (ws.order = [] ∧ ws.addTab paneId tab newPaneId =
      { ws with
        root := some (.leaf newPaneId)
        panes := LinkedMap.empty.put newPaneId ⟨newPaneId, [tab], tab.id⟩
        focusId := some newPaneId
        prevId := none
        maxId := none }) ∨
      ∃ target, ws.panes.lookup target.id = some target ∧
        ws.addTab paneId tab newPaneId =
          (ws.withPane { target with tabs := target.tabs ++ [tab], activeId := tab.id }).focus
            target.id := by
  unfold addTab
  split
  next missing =>
    refine .inl ⟨?_, rfl⟩
    have unfocused := (Option.or_eq_none_iff.mp missing).2
    rw [focused, Option.bind_eq_none_iff] at unfocused
    cases isFocus : ws.focusId with
    | none => exact sound.pointed.focused isFocus
    | some id =>
        obtain ⟨pane, held⟩ := sound.exists_pane (sound.pointed.focus id isFocus)
        cases (unfocused id isFocus).symm.trans held
  next target found =>
    refine .inr ⟨target, ?_, rfl⟩
    have under : ∃ id, ws.panes.lookup id = some target := by
      rcases Option.or_eq_some_iff.mp found with isTarget | ⟨-, isTarget⟩
      · obtain ⟨id, -, held⟩ := Option.bind_eq_some_iff.mp isTarget
        exact ⟨id, held⟩
      · obtain ⟨id, -, held⟩ := Option.bind_eq_some_iff.mp isTarget
        exact ⟨id, held⟩
    obtain ⟨id, held⟩ := under
    rwa [sound.named id target held]

theorem Sound.addTab (sound : ws.Sound) (paneId : Option Text) (tab : WsTab) (newPaneId : Text) :
    (ws.addTab paneId tab newPaneId).Sound := by
  obtain ⟨-, first⟩ | ⟨target, held, added⟩ := addTab_cases sound paneId tab newPaneId
  · rw [first]
    exact {
      distinct := List.nodup_singleton _
      placed := fun id => by
        rw [LinkedMap.lookup_put, LinkedMap.lookup_empty]
        change id ∈ [newPaneId] ↔ _
        rw [List.mem_singleton]
        split <;> simp_all
      named := fun id pane held => by
        rw [LinkedMap.lookup_put, LinkedMap.lookup_empty] at held
        split at held
        next same => exact Option.some.inj held ▸ same.symm
        next => cases held
      active := fun id pane held => by
        rw [LinkedMap.lookup_put, LinkedMap.lookup_empty] at held
        split at held
        next => exact Option.some.inj held ▸ List.mem_cons_self
        next => cases held
      pointed :=
        { focus := fun id isFocus => Option.some.inj isFocus ▸ List.mem_cons_self
          focused := nofun
          prev := nofun
          another := fun _ => Nat.one_lt_two
          max := nofun }
      bounded := fun root isRoot => Option.some.inj isRoot ▸ trivial
      narrow := sound.narrow }
  · rw [added]
    have isActive : tab.id ∈ (target.tabs ++ [tab]).map WsTab.id :=
      List.mem_map_of_mem (List.mem_append_right _ List.mem_cons_self)
    have isSound :
        (ws.withPane { target with tabs := target.tabs ++ [tab], activeId := tab.id }).Sound :=
      sound.withPane (sound.mem_order held) isActive
    exact isSound.focus target.id

theorem perm_addTab (sound : ws.Sound) (paneId : Option Text) (tab : WsTab) (newPaneId : Text) :
    (ws.addTab paneId tab newPaneId).tabs.Perm (tab :: ws.tabs) := by
  obtain ⟨empty, first⟩ | ⟨target, held, added⟩ := addTab_cases sound paneId tab newPaneId
  · have isTab : (ws.addTab paneId tab newPaneId).tabs = [tab] := by
      rw [first, tabs]
      change [newPaneId].flatMap _ = _
      rw [List.flatMap_singleton, tabsAt, LinkedMap.lookup_put, if_pos rfl]
      rfl
    rw [isTab, tabs, empty]
    exact .refl _
  · rw [added, tabs_focus]
    have more : (target.tabs ++ [tab]).Perm ([tab] ++ target.tabs) := List.perm_append_comm
    change (ws.withPane _).tabs.Perm ([tab] ++ ws.tabs)
    exact perm_withPane sound.toPlaced held rfl more

/-- The tabs of a split are those there were and the new one. -/
theorem tabs_split (sound : ws.Sound) {paneId newPaneId : Text} (among : paneId ∈ ws.order)
    (fresh : newPaneId ∉ ws.order) (axis : WsAxis) (tab : WsTab) (before : Bool) :
    (ws.split paneId axis tab newPaneId before).tabs.Perm (tab :: ws.tabs) ∧
      ∀ keep : WsTab → Bool, keep tab = false →
        (ws.split paneId axis tab newPaneId before).tabs.filter keep = ws.tabs.filter keep := by
  have order := order_split axis tab before sound among fresh
  have distinct : (ws.split paneId axis tab newPaneId before).order.Nodup :=
    (sound.split axis tab before paneId fresh).distinct
  have isTabsAt := tabsAt_split axis tab before sound among fresh
  have sublist : ws.order.Sublist (ws.split paneId axis tab newPaneId before).order := by
    have filtered := @List.filter_sublist _ (fun id => decide (id ≠ newPaneId))
      (ws.order.flatMap (besides paneId newPaneId before))
    rwa [filter_besides before fresh among, ← order] at filtered
  have before_ : ws.tabs = (ws.split paneId axis tab newPaneId before).order.flatMap ws.tabsAt :=
    flatMap_of_sublist sublist distinct fun _ _ absent => sound.tabsAt_eq_nil absent
  have isNew : newPaneId ∈ (ws.split paneId axis tab newPaneId before).order :=
    (perm_order_split axis tab before sound among fresh).mem_iff.mpr List.mem_cons_self
  have emptyBefore := sound.tabsAt_eq_nil fresh
  constructor
  · have off : ∀ id ∈ (ws.split paneId axis tab newPaneId before).order, id ≠ newPaneId →
        (ws.split paneId axis tab newPaneId before).tabsAt id = ws.tabsAt id :=
      fun id _ differs => by rw [isTabsAt, if_neg differs]
    have here : ((ws.split paneId axis tab newPaneId before).tabsAt newPaneId).Perm
        ([tab] ++ ws.tabsAt newPaneId) := by
      rw [isTabsAt, if_pos rfl, emptyBefore, List.append_nil]
    rw [before_]
    exact perm_flatMap_of_eq_off distinct isNew off here
  · intro keep refused
    rw [before_, tabs, List.filter_flatMap, List.filter_flatMap]
    refine List.flatMap_congr fun id _ => ?_
    rw [isTabsAt]
    split
    next same => rw [same, emptyBefore, List.filter_cons_of_neg (by simp [refused])]
    next => rfl

end ServerBox.Workspaces.Workspace
