import ServerBox.Workspaces.WorkspaceTabs

/-!
# Tabs moved, changed, retained and closed by their server

The operations that are made of others, whose steps find the panes and tabs that they name.
-/

namespace ServerBox.Workspaces.Workspace

open ServerBox.Std

variable {ws after : Workspace}

/-! ### A tab moved -/

/-- The pane that a tab leaves is there still where it has another. -/
theorem mem_order_closeTab (sound : ws.Sound) {paneId toPane tabId : Text}
    (among : toPane ∈ ws.order) (stays : toPane = paneId → (ws.tabsAt toPane).length ≠ 1) :
    toPane ∈ (ws.closeTab paneId tabId).order := by
  by_contra absent
  have gone := (sound.closeTab paneId tabId).tabsAt_eq_nil absent
  rw [tabsAt_closeTab sound.toPlaced] at gone
  split at gone
  next same =>
    have notEmpty := List.length_pos_iff.mpr (sound.tabsAt_ne_nil among)
    have shorter : (ws.tabsAt toPane).length - 1 ≤
        ((ws.tabsAt toPane).eraseP fun t => t.id = tabId).length := List.le_length_eraseP
    rw [gone, List.length_nil] at shorter
    have several := stays same
    omega
  next => exact sound.tabsAt_ne_nil among gone

/-- Without a tab that was closed, and with it somewhere else. -/
theorem moves_of_closeTab (sound : ws.Sound) (distinct : (ws.tabs.map WsTab.id).Nodup)
    {paneId tabId : Text} {tab : WsTab}
    (found : (ws.tabsAt paneId).find? (fun t => t.id = tabId) = some tab)
    (added : after.tabs.Perm (tab :: (ws.closeTab paneId tabId).tabs))
    (others : after.tabs.filter (fun t => t.id ≠ tabId) =
      (ws.closeTab paneId tabId).tabs.filter fun t => t.id ≠ tabId) : Moves ws after tabId where
  same := added.trans (perm_closeTab sound found).symm
  others := by
    rw [others]
    refine (removes_closeTab sound.toPlaced distinct paneId tabId).filter_eq sound.distinct
      (sound.closeTab paneId tabId).toPlaced fun id t kept gone => ?_
    exact of_decide_eq_true kept gone.2

theorem id_of_find? {tabs : List WsTab} {tabId : Text} {tab : WsTab}
    (found : tabs.find? (fun t => t.id = tabId) = some tab) : tab.id = tabId := by
  simpa using List.find?_some found

theorem filter_erase {tabs : List WsTab} {tab : WsTab} (among : tab ∈ tabs) :
    (tabs.erase tab).filter (fun t => t.id ≠ tab.id) = tabs.filter fun t => t.id ≠ tab.id := by
  obtain ⟨front, back, -, rfl, erased⟩ := List.exists_erase_eq among
  rw [erased, List.filter_append, List.filter_append, List.filter_cons_of_neg (by simp)]

section Move

variable (sound : ws.Sound) (distinct : (ws.tabs.map WsTab.id).Nodup) (fromPane tabId toPane : Text)
include sound distinct

theorem moveTab_spec (beforeTabId : Option Text) :
    ∃ after, ws.moveTab fromPane tabId toPane beforeTabId = some after ∧ after.Sound ∧
      Moves ws after tabId := by
  have unchanged : ∃ after, some ws = some after ∧ after.Sound ∧ Moves ws after tabId :=
    ⟨ws, rfl, sound, .refl ws tabId⟩
  unfold moveTab
  split
  next => exact unchanged
  next =>
    split
    next src dst isSource isTarget =>
      split
      next => exact unchanged
      next tab found =>
        obtain rfl := id_of_find? found
        have among := List.mem_of_find?_eq_some found
        split
        next same =>
          have named := sound.named fromPane src isSource
          have held : ws.panes.lookup src.id = some src := named ▸ isSource
          have more := (perm_insertTab (src.tabs.erase tab) beforeTabId tab).trans
            (List.perm_cons_erase among).symm
          refine ⟨_, rfl, Sound.focus (sound.withPane ?_ ?_) toPane, ?_, ?_⟩
          · exact sound.mem_order held
          · exact List.mem_map_of_mem (more.mem_iff.mpr among)
          · rw [tabs_focus]
            change (ws.withPane _).tabs.Perm ([] ++ ws.tabs)
            exact perm_withPane sound.toPlaced held rfl more
          · rw [tabs_focus]
            refine filter_withPane held rfl ?_
            exact (filter_insertTab _ beforeTabId tab).trans (filter_erase among)
        next differs =>
          have stays : toPane ∈ (ws.closeTab fromPane tab.id).order :=
            mem_order_closeTab sound (sound.mem_order isTarget) fun same =>
              absurd same.symm differs
          have next := sound.closeTab fromPane tab.id
          obtain ⟨target, isNext⟩ := next.exists_pane stays
          have named := next.named toPane target isNext
          have held : (ws.closeTab fromPane tab.id).panes.lookup target.id = some target :=
            named ▸ isNext
          have inSource : (ws.tabsAt fromPane).find? (fun t => t.id = tab.id) = some tab := by
            rwa [tabsAt_of_lookup isSource]
          dsimp only
          rw [isNext]
          refine ⟨_, rfl, Sound.focus (next.withPane ?_ ?_) toPane, ?_⟩
          · exact next.mem_order held
          · exact List.mem_map_of_mem ((perm_insertTab _ _ _).mem_iff.mpr List.mem_cons_self)
          · refine moves_of_closeTab sound distinct inSource ?_ ?_
            · rw [tabs_focus]
              change (withPane _ _).tabs.Perm ([tab] ++ _)
              exact perm_withPane next.toPlaced held rfl (perm_insertTab _ _ _)
            · rw [tabs_focus]
              exact filter_withPane held rfl (filter_insertTab _ _ _)
    next => exact unchanged

theorem dropTab_spec (zone : WsDropZone) {newPaneId : Text} (fresh : newPaneId ∉ ws.order) :
    ∃ after, ws.dropTab fromPane tabId toPane zone newPaneId = some after ∧ after.Sound ∧
      Moves ws after tabId := by
  have unchanged : ∃ after, some ws = some after ∧ after.Sound ∧ Moves ws after tabId :=
    ⟨ws, rfl, sound, .refl ws tabId⟩
  unfold dropTab
  split
  next src dst isSource isTarget =>
    split
    next => exact unchanged
    next tab found =>
      split
      next =>
        split
        next => exact unchanged
        next => exact moveTab_spec sound distinct fromPane tabId toPane none
      next axis _ =>
        split
        next => exact unchanged
        next several =>
          have isTab := id_of_find? found
          have inSource : (ws.tabsAt fromPane).find? (fun t => t.id = tabId) = some tab := by
            rwa [tabsAt_of_lookup isSource]
          have stays : toPane ∈ (ws.closeTab fromPane tabId).order := by
            refine mem_order_closeTab sound (sound.mem_order isTarget) fun same alone => ?_
            rw [same, tabsAt_of_lookup isSource] at alone
            exact several ⟨same.symm, alone⟩
          have next := sound.closeTab fromPane tabId
          have stillFresh : newPaneId ∉ (ws.closeTab fromPane tabId).order := fun held =>
            fresh ((order_closeTab sound.toPlaced fromPane tabId).mem held)
          obtain ⟨added, others⟩ := tabs_split next stays stillFresh axis tab zone.before
          refine ⟨_, rfl, next.split axis tab zone.before toPane stillFresh, ?_⟩
          exact moves_of_closeTab sound distinct inSource added (others _ (by simp [isTab]))
  next => exact unchanged

end Move

/-! ### Every tab changed -/

section MapTabs

variable {change : WsTab → WsTab}

theorem Sound.mapTabs (sound : ws.Sound) (sameId : ∀ t, (change t).id = t.id) :
    (ws.mapTabs change).Sound where
  distinct := sound.distinct
  placed id := by
    change id ∈ ws.order ↔ _
    rw [sound.placed, Workspace.mapTabs, LinkedMap.lookup_mapRows, Option.isSome_map]
  named id pane held := by
    rw [Workspace.mapTabs, LinkedMap.lookup_mapRows] at held
    obtain ⟨old, isOld, rfl⟩ := Option.map_eq_some_iff.mp held
    exact sound.named id old isOld
  active id pane held := by
    rw [Workspace.mapTabs, LinkedMap.lookup_mapRows] at held
    obtain ⟨old, isOld, rfl⟩ := Option.map_eq_some_iff.mp held
    have ids : (old.tabs.map change).map WsTab.id = old.tabs.map WsTab.id := by
      rw [List.map_map]
      exact List.map_congr_left fun t _ => sameId t
    exact ids ▸ sound.active id old isOld
  pointed := sound.pointed
  bounded := sound.bounded
  narrow := sound.narrow

theorem tabs_mapTabs (change : WsTab → WsTab) : (ws.mapTabs change).tabs = ws.tabs.map change := by
  rw [tabs, tabs, List.map_flatMap]
  change ws.order.flatMap _ = _
  refine List.flatMap_congr fun id _ => ?_
  rw [tabsAt, tabsAt, mapTabs, LinkedMap.lookup_mapRows]
  cases ws.panes.lookup id <;> rfl

theorem anyTab_eq (isPlaced : ws.Placed) (accepts : WsTab → Bool) {ids : List Text}
    (among : ∀ id ∈ ids, id ∈ ws.order) :
    ws.anyTab accepts ids = some ((ids.flatMap ws.tabsAt).any accepts) := by
  induction ids with
  | nil => rfl
  | cons id rest inductionHypothesis =>
      obtain ⟨pane, held⟩ := isPlaced.exists_pane (among id List.mem_cons_self)
      rw [anyTab, held, List.flatMap_cons, List.any_append, tabsAt_of_lookup held,
        inductionHypothesis fun other later => among other (List.mem_cons_of_mem _ later)]
      dsimp only
      cases pane.tabs.any accepts <;> rfl

/-- The tabs that a test accepts changed, where there is one. -/
theorem changeTabs_spec (sound : ws.Sound) (accepts : WsTab → Prop) [DecidablePred accepts]
    (sameId : ∀ t, (change t).id = t.id) :
    ∃ after, (ws.anyTab (fun t => accepts t) ws.order).map (fun found =>
        if found then ws.mapTabs fun t => if accepts t then change t else t else ws) =
          some after ∧
      after.Sound ∧ after.tabs = ws.tabs.map fun t => if accepts t then change t else t := by
  have looked : ws.anyTab (fun t => accepts t) ws.order =
      some (ws.tabs.any fun t => accepts t) :=
    anyTab_eq sound.toPlaced _ fun _ held => held
  rw [looked, Option.map_some]
  cases anyFound : ws.tabs.any fun t => accepts t with
  | true =>
      rw [if_pos rfl]
      refine ⟨_, rfl, sound.mapTabs fun t => ?_, tabs_mapTabs _⟩
      split
      next => exact sameId t
      next => rfl
  | false =>
      rw [if_neg Bool.false_ne_true]
      refine ⟨ws, rfl, sound, ?_⟩
      have unchanged : ∀ t ∈ ws.tabs, (if accepts t then change t else t) = t :=
        fun t among => if_neg fun accepted =>
          List.any_eq_false.mp anyFound t among (decide_eq_true accepted)
      exact ((List.map_congr_left unchanged).trans (List.map_id' _)).symm

end MapTabs

theorem wake_spec (sound : ws.Sound) (serverId : Text) :
    ∃ after, ws.wake serverId = some after ∧ after.Sound ∧
      after.tabs = ws.tabs.map fun t =>
        if t.serverId = serverId ∧ ¬t.live then { t with live := true } else t :=
  changeTabs_spec sound (fun t => t.serverId = serverId ∧ ¬t.live) fun _ => rfl

theorem renameServer_spec (sound : ws.Sound) (oldId newId : Text) :
    ∃ after, ws.renameServer oldId newId = some after ∧ after.Sound ∧
      after.tabs = ws.tabs.map fun t =>
        if t.serverId = oldId then { t with serverId := newId } else t :=
  changeTabs_spec sound (fun t => t.serverId = oldId) fun _ => rfl

/-! ### Tabs retained -/

/-- What `retainTabs` leaves of a pane. -/
def retained (keep : WsTab → Bool) (pane : WsPane) : Option WsPane :=
  if (pane.tabs.filter keep).length = pane.tabs.length then some pane
  else
    match pane.tabs.filter keep with
    | [] => none
    | first :: rest =>
        some { pane with
          tabs := first :: rest
          activeId :=
            if (first :: rest).any fun t => t.id = pane.activeId then pane.activeId else first.id }

theorem retained_tabs (keep : WsTab → Bool) (pane : WsPane) :
    ((retained keep pane).map WsPane.tabs).getD [] = pane.tabs.filter keep := by
  unfold retained
  split
  next same => exact (List.filter_sublist.eq_of_length same).symm
  next =>
    split
    next none_ => exact none_.symm
    next first rest left_ => exact left_.symm

/-- The tree closes up around the panes that are gone. -/
def Closes (before after : Option (WsNode Text)) : Prop :=
  ∀ last, after = some last → ∃ first, before = some first ∧ first.ClosesUp last

theorem Closes.refl (root : Option (WsNode Text)) : Closes root root :=
  fun last isLast => ⟨last, isLast, .refl last⟩

theorem Closes.trans {before middle after : Option (WsNode Text)} (first : Closes before middle)
    (second : Closes middle after) : Closes before after := fun last isLast => by
  obtain ⟨between, isBetween, closes⟩ := second last isLast
  obtain ⟨start, isStart, closed⟩ := first between isBetween
  exact ⟨start, isStart, closed.trans closes⟩

theorem Closes.removeLeaf (root : Option (WsNode Text)) (target : Text) :
    Closes root (root.bind (WsNode.removeLeaf target)) := fun last isLast => by
  obtain ⟨first, isFirst, removed⟩ := Option.bind_eq_some_iff.mp isLast
  exact ⟨first, isFirst, .removeLeaf removed⟩

theorem closes_removePane (ws : Workspace) (paneId : Text) :
    Closes ws.root (ws.removePane paneId).root := by
  unfold removePane
  split
  next => exact .refl _
  next => exact .removeLeaf _ _

/-- What a round or all of `retainTabs` does to the panes of some ids. -/
structure Retains (ws after : Workspace) (keep : WsTab → Bool) (ids : List Text) : Prop where
  sound : after.Sound
  order : after.order.Sublist ws.order
  lookup : ∀ id, after.panes.lookup id =
    if id ∈ ids then (ws.panes.lookup id).bind (retained keep) else ws.panes.lookup id
  closes : Closes ws.root after.root

/-- A round changes one pane. -/
theorem Retains.single {current : Workspace} {keep : WsTab → Bool} {id : Text} {pane : WsPane}
    (same : current.panes.lookup id = some pane) (sound : after.Sound)
    (order : after.order.Sublist current.order) (closes : Closes current.root after.root)
    (lookup : ∀ other, after.panes.lookup other =
      if other = id then retained keep pane else current.panes.lookup other) :
    Retains current after keep [id] where
  sound
  order
  lookup other := by
    rw [lookup]
    by_cases isPane : other = id
    · rw [if_pos isPane, if_pos (List.mem_singleton.mpr isPane), isPane, same]
      rfl
    · rw [if_neg isPane, if_neg fun held => isPane (List.mem_singleton.mp held)]
  closes

theorem retainIn_spec {current : Workspace} {keep : WsTab → Bool} {id : Text} {pane : WsPane}
    (sound : current.Sound) (held : ws.panes.lookup id = some pane)
    (same : current.panes.lookup id = some pane) :
    ∃ after, ws.retainIn keep current id = some after ∧ Retains current after keep [id] := by
  have named := sound.named id pane same
  rw [retainIn, held]
  refine ⟨_, rfl, ?_⟩
  dsimp only
  split
  next allKept =>
    refine .single same sound (.refl _) (.refl _) fun other => ?_
    rw [retained, if_pos allKept]
    split
    next isPane => rw [isPane, same]
    next => rfl
  next someGone =>
    split
    next none_ =>
      refine .single same (sound.removePane id) ?_ (closes_removePane current id) fun other => ?_
      · rw [order_removePane sound.toPlaced]
        exact List.filter_sublist
      · rw [lookup_removePane, retained, if_neg someGone, none_]
    next first rest left_ =>
      have active : (if (first :: rest).any fun t => t.id = pane.activeId then pane.activeId
          else first.id) ∈ (first :: rest).map WsTab.id := by
        split
        next among =>
          obtain ⟨t, isTab, isActive⟩ := List.any_eq_true.mp among
          exact List.mem_map.mpr ⟨t, isTab, of_decide_eq_true isActive⟩
        next => exact List.mem_cons_self
      refine .single same (sound.withPane (named ▸ sound.mem_order same) active) (.refl _)
        (.refl _) fun other => ?_
      rw [lookup_withPane, retained, if_neg someGone, left_]
      exact if_congr (named ▸ Iff.rfl) rfl rfl

/-- The rounds of different panes do not disturb one another. -/
theorem retainIn_foldlM {keep : WsTab → Bool} {ids : List Text} (distinct : ids.Nodup)
    {current : Workspace} (sound : current.Sound)
    (same : ∀ id ∈ ids, ∃ pane, ws.panes.lookup id = some pane ∧
      current.panes.lookup id = some pane) :
    ∃ after, ids.foldlM (ws.retainIn keep) current = some after ∧
      Retains current after keep ids := by
  induction ids generalizing current with
  | nil =>
      refine ⟨current, rfl, sound, .refl _, fun id => (if_neg List.not_mem_nil).symm, .refl _⟩
  | cons id rest inductionHypothesis =>
      obtain ⟨notLater, later⟩ := List.nodup_cons.mp distinct
      obtain ⟨pane, held, isPane⟩ := same id List.mem_cons_self
      obtain ⟨next, round, first⟩ := @retainIn_spec ws current keep id pane sound held isPane
      obtain ⟨after, rounds, second⟩ := inductionHypothesis later first.sound
        fun other among => by
          obtain ⟨pane, held, isPane⟩ := same other (List.mem_cons_of_mem _ among)
          refine ⟨pane, held, ?_⟩
          rw [first.lookup, if_neg fun isId => ?_, isPane]
          exact notLater (List.mem_singleton.mp isId ▸ among)
      refine ⟨after, ?_, second.sound, second.order.trans first.order, fun other => ?_,
        first.closes.trans second.closes⟩
      · rw [List.foldlM_cons, round]
        exact rounds
      · rw [second.lookup, first.lookup]
        by_cases isId : other = id
        · simp [isId, notLater]
        · simp [isId]

/-- `retainTabs` throws nowhere, and leaves of each pane what is kept. -/
theorem retainTabs_spec (sound : ws.Sound) (keep : WsTab → Bool) :
    ∃ after, ws.retainTabs keep = some after ∧ Retains ws after keep ws.order :=
  retainIn_foldlM sound.distinct sound fun id among => by
    obtain ⟨pane, held⟩ := sound.exists_pane among
    exact ⟨pane, held, held⟩

theorem Retains.tabsAt {keep : WsTab → Bool} (isPlaced : ws.Placed)
    (retains : Retains ws after keep ws.order) (id : Text) :
    after.tabsAt id = (ws.tabsAt id).filter keep := by
  by_cases among : id ∈ ws.order
  · obtain ⟨pane, held⟩ := isPlaced.exists_pane among
    rw [Workspace.tabsAt, retains.lookup, if_pos among, held, tabsAt_of_lookup held]
    exact retained_tabs keep pane
  · rw [isPlaced.tabsAt_eq_nil among, Workspace.tabsAt, retains.lookup, if_neg among]
    rw [isPlaced.placed, Option.not_isSome_iff_eq_none] at among
    rw [among]
    rfl

/-- `retainTabs` removes the tabs that are refused. -/
theorem Retains.removes {keep : WsTab → Bool} (isPlaced : ws.Placed)
    (retains : Retains ws after keep ws.order) :
    Removes ws after fun _ t => ¬keep t = true where
  tabsAt id := by
    rw [retains.tabsAt isPlaced]
    exact List.filter_congr fun t _ => by simp
  order := retains.order

/-! ### The tabs of a server closed -/

theorem Removes.congr {gone other : Text → WsTab → Prop} [∀ id, DecidablePred (gone id)]
    [∀ id, DecidablePred (other id)] (removes : Removes ws after gone)
    (same : ∀ id, ∀ t ∈ ws.tabsAt id, gone id t ↔ other id t) : Removes ws after other where
  tabsAt id := by
    rw [removes.tabsAt]
    exact List.filter_congr fun t among => decide_eq_decide.mpr (not_congr (same id t among))
  order := removes.order

/-- Tabs closed one after the other. -/
def closeAll (ws : Workspace) (named : List (Text × Text)) : Workspace :=
  named.foldl (fun current name => current.closeTab name.1 name.2) ws

theorem closeAll_spec (named : List (Text × Text)) {current : Workspace} (sound : current.Sound)
    (distinct : (current.tabs.map WsTab.id).Nodup) :
    (current.closeAll named).Sound ∧
      Removes current (current.closeAll named) fun id t => (id, t.id) ∈ named := by
  induction named generalizing current with
  | nil =>
      refine ⟨sound, fun id => ?_, .refl _⟩
      exact (List.filter_eq_self.mpr fun t _ => decide_eq_true List.not_mem_nil).symm
  | cons name rest inductionHypothesis =>
      have removes := removes_closeTab sound.toPlaced distinct name.1 name.2
      have next := sound.closeTab name.1 name.2
      have still := distinct.sublist ((removes.tabs_sublist sound.distinct next.toPlaced).map _)
      obtain ⟨kept, later⟩ := inductionHypothesis next still
      refine ⟨kept, fun id => ?_, later.order.trans removes.order⟩
      rw [closeAll, List.foldl_cons, ← closeAll, later.tabsAt, removes.tabsAt, List.filter_filter]
      refine List.filter_congr fun t _ => ?_
      rw [← Bool.decide_and, decide_eq_decide, ← not_or, List.mem_cons, Prod.ext_iff]
      exact not_congr or_comm

/-- The tabs of a server, each with its pane. -/
def ofServer (ws : Workspace) (serverId : Text) : List (Text × Text) :=
  ws.panes.values.flatMap fun pane =>
    (pane.tabs.filter fun t => t.serverId = serverId).map fun t => (pane.id, t.id)

theorem removeServer_eq (ws : Workspace) (serverId : Text) :
    ws.removeServer serverId = ws.closeAll (ws.ofServer serverId) := by
  rw [closeAll, ofServer, List.foldl_flatMap]
  unfold removeServer
  congr 1
  funext current pane
  rw [List.foldl_map, List.foldl_filter]
  simp only [decide_eq_true_eq]

theorem mem_ofServer (isPlaced : ws.Placed) (distinct : (ws.tabs.map WsTab.id).Nodup)
    {id : Text} {t : WsTab} (among : t ∈ ws.tabsAt id) (serverId : Text) :
    (id, t.id) ∈ ws.ofServer serverId ↔ t.serverId = serverId := by
  rw [ofServer, List.mem_flatMap]
  constructor
  · rintro ⟨pane, isPane, isName⟩
    obtain ⟨other, isTab, same⟩ := List.mem_map.mp isName
    obtain ⟨inPane, ofServer⟩ := List.mem_filter.mp isTab
    obtain ⟨samePane, sameId⟩ := Prod.ext_iff.mp same
    obtain ⟨key, held⟩ := LinkedMap.mem_values.mp isPane
    have isKey : key = id := (isPlaced.named key pane held).symm.trans samePane
    rw [isKey] at held
    rw [← tabsAt_of_lookup held] at inPane
    have isTab : other = t :=
      List.inj_on_of_nodup_map (nodup_tabsAt isPlaced distinct id) inPane among sameId
    exact isTab ▸ of_decide_eq_true ofServer
  · intro isServer
    have placed : id ∈ ws.order := by
      by_contra absent
      rw [isPlaced.tabsAt_eq_nil absent] at among
      cases among
    obtain ⟨pane, held⟩ := isPlaced.exists_pane placed
    rw [tabsAt_of_lookup held] at among
    refine ⟨pane, LinkedMap.mem_values.mpr ⟨id, held⟩, List.mem_map.mpr ⟨t, ?_, ?_⟩⟩
    · exact List.mem_filter.mpr ⟨among, decide_eq_true isServer⟩
    · rw [isPlaced.named id pane held]

/-- `removeServer` removes the tabs of the server. -/
theorem removeServer_spec (sound : ws.Sound) (distinct : (ws.tabs.map WsTab.id).Nodup)
    (serverId : Text) :
    (ws.removeServer serverId).Sound ∧
      Removes ws (ws.removeServer serverId) fun _ t => t.serverId = serverId := by
  rw [removeServer_eq]
  obtain ⟨kept, removes⟩ := closeAll_spec (ws.ofServer serverId) sound distinct
  exact ⟨kept, removes.congr fun id t among => mem_ofServer sound.toPlaced distinct among serverId⟩

end ServerBox.Workspaces.Workspace
