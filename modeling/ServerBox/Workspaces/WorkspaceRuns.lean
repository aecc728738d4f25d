import ServerBox.Std.System
import ServerBox.Workspaces.WorkspaceStored

/-!
# Workspaces over whole runs

From an empty workspace or one read from storage, whatever is done to it: it stays well formed,
and each operation does to the tabs what it is for.
-/

namespace ServerBox.Workspaces.Workspace

open ServerBox.Std

variable {ws after : Workspace}

/-- A workspace whose tree, panes, tabs and ids agree. -/
structure WellFormed (ws : Workspace) : Prop extends Sound ws where
  tabIds : (ws.tabs.map WsTab.id).Nodup

inductive Op where
  | focus (id : Text)
  | selectTab (paneId tabId : Text)
  | addTab (paneId : Option Text) (tab : WsTab) (newPaneId : Text)
  | split (paneId : Text) (axis : WsAxis) (tab : WsTab) (newPaneId : Text) (before : Bool)
  | closeTab (paneId tabId : Text)
  | removePane (paneId : Text)
  | moveTab (fromPane tabId toPane : Text) (beforeTabId : Option Text)
  | dropTab (fromPane tabId toPane : Text) (zone : WsDropZone) (newPaneId : Text)
  | wake (serverId : Text)
  | renameServer (oldId newId : Text)
  | removeServer (serverId : Text)
  | retainTabs (keep : WsTab → Bool)

/-- The workspace after an operation, none where it throws. -/
def next (ws : Workspace) : Op → Option Workspace
  | .focus id => some (ws.focus id)
  | .selectTab paneId tabId => some (ws.selectTab paneId tabId)
  | .addTab paneId tab newPaneId => some (ws.addTab paneId tab newPaneId)
  | .split paneId axis tab newPaneId before => some (ws.split paneId axis tab newPaneId before)
  | .closeTab paneId tabId => some (ws.closeTab paneId tabId)
  | .removePane paneId => some (ws.removePane paneId)
  | .moveTab fromPane tabId toPane beforeTabId => ws.moveTab fromPane tabId toPane beforeTabId
  | .dropTab fromPane tabId toPane zone newPaneId =>
      ws.dropTab fromPane tabId toPane zone newPaneId
  | .wake serverId => ws.wake serverId
  | .renameServer oldId newId => ws.renameServer oldId newId
  | .removeServer serverId => some (ws.removeServer serverId)
  | .retainTabs keep => ws.retainTabs keep

/-- The ids that an operation brings are those of no pane and no tab. -/
def Fresh (ws : Workspace) : Op → Prop
  | .addTab _ tab newPaneId => newPaneId ∉ ws.order ∧ tab.id ∉ ws.tabs.map WsTab.id
  | .split _ _ tab newPaneId _ => newPaneId ∉ ws.order ∧ tab.id ∉ ws.tabs.map WsTab.id
  | .dropTab _ _ _ _ newPaneId => newPaneId ∉ ws.order
  | _ => True

/-- What an operation does to the tabs. -/
def Effect (ws : Workspace) (after : Workspace) : Op → Prop
  | .focus _ | .selectTab _ _ => after.tabs = ws.tabs
  | .addTab _ tab _ => after.tabs.Perm (tab :: ws.tabs)
  | .split paneId _ tab _ _ =>
      if paneId ∈ ws.order then after.tabs.Perm (tab :: ws.tabs) else after = ws
  | .closeTab paneId tabId => Removes ws after fun id t => id = paneId ∧ t.id = tabId
  | .removePane paneId => Removes ws after fun id _ => id = paneId
  | .moveTab _ tabId _ _ | .dropTab _ tabId _ _ _ => Moves ws after tabId
  | .wake serverId => after.tabs = ws.tabs.map fun t =>
      if t.serverId = serverId ∧ ¬t.live then { t with live := true } else t
  | .renameServer oldId newId => after.tabs = ws.tabs.map fun t =>
      if t.serverId = oldId then { t with serverId := newId } else t
  | .removeServer serverId => Removes ws after fun _ t => t.serverId = serverId
  | .retainTabs keep => Removes ws after fun _ t => ¬keep t = true

/-! ### A step -/

theorem Removes.wellFormed {gone : Text → WsTab → Prop} [∀ id, DecidablePred (gone id)]
    (wellFormed : ws.WellFormed) (sound : after.Sound) (removes : Removes ws after gone) :
    after.WellFormed :=
  ⟨sound, wellFormed.tabIds.sublist
    ((removes.tabs_sublist wellFormed.distinct sound.toPlaced).map _)⟩

theorem WellFormed.added {tab : WsTab} (wellFormed : ws.WellFormed) (sound : after.Sound)
    (fresh : tab.id ∉ ws.tabs.map WsTab.id) (added : after.tabs.Perm (tab :: ws.tabs)) :
    after.WellFormed :=
  ⟨sound, (added.map WsTab.id).nodup_iff.mpr (List.nodup_cons.mpr ⟨fresh, wellFormed.tabIds⟩)⟩

theorem WellFormed.moved {tabId : Text} (wellFormed : ws.WellFormed) (sound : after.Sound)
    (moves : Moves ws after tabId) : after.WellFormed :=
  ⟨sound, (moves.same.map WsTab.id).nodup_iff.mpr wellFormed.tabIds⟩

theorem WellFormed.changed {change : WsTab → WsTab} (wellFormed : ws.WellFormed)
    (sound : after.Sound) (same : after.tabs = ws.tabs.map change)
    (sameId : ∀ t, (change t).id = t.id) : after.WellFormed := by
  refine ⟨sound, ?_⟩
  have ids : (ws.tabs.map change).map WsTab.id = ws.tabs.map WsTab.id := by
    rw [List.map_map]
    exact List.map_congr_left fun t _ => sameId t
  rw [same, ids]
  exact wellFormed.tabIds

/-- An operation throws nowhere, does what it is for and keeps the workspace well formed. -/
theorem next_spec (wellFormed : ws.WellFormed) (op : Op) (fresh : ws.Fresh op) :
    ∃ after, ws.next op = some after ∧ after.WellFormed ∧ Effect ws after op := by
  have sound := wellFormed.toSound
  have isPlaced := sound.toPlaced
  have tabIds := wellFormed.tabIds
  cases op with
  | focus id =>
      exact ⟨_, rfl, ⟨sound.focus id, (tabs_focus id).symm ▸ tabIds⟩, tabs_focus id⟩
  | selectTab paneId tabId =>
      have same := tabs_selectTab isPlaced paneId tabId
      exact ⟨_, rfl, ⟨sound.selectTab paneId tabId, same.symm ▸ tabIds⟩, same⟩
  | addTab paneId tab newPaneId =>
      have added := perm_addTab sound paneId tab newPaneId
      exact ⟨_, rfl, wellFormed.added (sound.addTab paneId tab newPaneId) fresh.2 added, added⟩
  | split paneId axis tab newPaneId before =>
      refine ⟨_, rfl, ?_⟩
      have splits := sound.split axis tab before paneId fresh.1
      rw [Effect]
      split
      next among =>
        have added := (tabs_split sound among fresh.1 axis tab before).1
        exact ⟨wellFormed.added splits fresh.2 added, added⟩
      next absent =>
        rw [split_of_not_mem axis tab before isPlaced absent]
        exact ⟨wellFormed, rfl⟩
  | closeTab paneId tabId =>
      have removes := removes_closeTab isPlaced tabIds paneId tabId
      exact ⟨_, rfl, removes.wellFormed wellFormed (sound.closeTab paneId tabId), removes⟩
  | removePane paneId =>
      have removes := removes_removePane isPlaced paneId
      exact ⟨_, rfl, removes.wellFormed wellFormed (sound.removePane paneId), removes⟩
  | moveTab fromPane tabId toPane beforeTabId =>
      obtain ⟨after, isAfter, kept, moves⟩ :=
        moveTab_spec sound tabIds fromPane tabId toPane beforeTabId
      exact ⟨after, isAfter, wellFormed.moved kept moves, moves⟩
  | dropTab fromPane tabId toPane zone newPaneId =>
      obtain ⟨after, isAfter, kept, moves⟩ :=
        dropTab_spec sound tabIds fromPane tabId toPane zone fresh
      exact ⟨after, isAfter, wellFormed.moved kept moves, moves⟩
  | wake serverId =>
      obtain ⟨after, isAfter, kept, same⟩ := wake_spec sound serverId
      refine ⟨after, isAfter, wellFormed.changed kept same fun t => ?_, same⟩
      split <;> rfl
  | renameServer oldId newId =>
      obtain ⟨after, isAfter, kept, same⟩ := renameServer_spec sound oldId newId
      refine ⟨after, isAfter, wellFormed.changed kept same fun t => ?_, same⟩
      split <;> rfl
  | removeServer serverId =>
      obtain ⟨kept, removes⟩ := removeServer_spec sound tabIds serverId
      exact ⟨_, rfl, removes.wellFormed wellFormed kept, removes⟩
  | retainTabs keep =>
      obtain ⟨after, isAfter, retains⟩ := retainTabs_spec sound keep
      have removes := retains.removes isPlaced
      exact ⟨after, isAfter, removes.wellFormed wellFormed retains.sound, removes⟩

/-! ### The panes of a single column -/

/-- Of two panes or more, the column shows two different ones, the one with the focus among them;
of fewer, all. -/
def NarrowPaired (ws : Workspace) : Prop :=
  if ws.order.length < 2 then ws.narrowPair = some ws.order
  else
    ∃ first second, ws.narrowPair = some [first, second] ∧ first ≠ second ∧
      first ∈ ws.order ∧ second ∈ ws.order ∧
      (ws.focusId = some first ∨ ws.focusId = some second)

/-- There is another pane to show beside the one with the focus. -/
theorem exists_other {order : List Text} (distinct : order.Nodup) (several : ¬order.length < 2)
    (prevId : Option Text) (focus : Text) :
    ∃ other, (prevId.filter fun id => id ∈ order ∧ id ≠ focus).or
        (order.find? fun id => id ≠ focus) = some other ∧ other ∈ order ∧ other ≠ focus := by
  cases isPrev : prevId.filter fun id => id ∈ order ∧ id ≠ focus with
  | some prev =>
      exact ⟨prev, rfl, of_decide_eq_true (Option.filter_eq_some_iff.mp isPrev).2⟩
  | none =>
      rw [Option.none_or]
      cases found : order.find? fun id => id ≠ focus with
      | some other =>
          refine ⟨other, rfl, List.mem_of_find?_eq_some found, ?_⟩
          simpa using List.find?_some found
      | none =>
          have allFocus : ∀ id ∈ order, id = focus := fun id among => by
            simpa using List.find?_eq_none.mp found id among
          match order, several, distinct, allFocus with
          | [], several, _, _ => exact absurd Nat.two_pos several
          | [_], several, _, _ => exact absurd Nat.one_lt_two several
          | first :: second :: rest, _, distinct, allFocus =>
              have same : first = second :=
                (allFocus first List.mem_cons_self).trans
                  (allFocus second (List.mem_cons_of_mem _ List.mem_cons_self)).symm
              exact absurd (same ▸ List.mem_cons_self) (List.nodup_cons.mp distinct).1

theorem narrowPaired (sound : ws.Sound) : ws.NarrowPaired := by
  have pointed := sound.pointed
  have distinct := sound.distinct
  unfold NarrowPaired narrowPair
  generalize ws.order = order at pointed distinct ⊢
  match order with
  | [] => rfl
  | [_] => rfl
  | first :: second :: rest =>
      have several : ¬(first :: second :: rest).length < 2 := by
        simp only [List.length_cons]
        omega
      rw [if_neg several]
      cases isFocus : ws.focusId with
      | none => cases pointed.focused isFocus
      | some focus =>
          have among := pointed.focus focus isFocus
          have picked : ((some focus).filter fun id => id ∈ first :: second :: rest).getD first =
              focus := by
            rw [Option.filter_some, if_pos (decide_eq_true among), Option.getD_some]
          obtain ⟨other, isOther, otherAmong, differs⟩ :=
            exists_other distinct several ws.prevId focus
          dsimp only
          rw [picked, isOther]
          by_cases sooner :
            (first :: second :: rest).idxOf other < (first :: second :: rest).idxOf focus
          · refine ⟨other, focus, ?_, differs, otherAmong, among, .inr rfl⟩
            rw [Option.map_some, if_pos sooner]
          · refine ⟨focus, other, ?_, Ne.symm differs, among, otherAmong, .inl rfl⟩
            rw [Option.map_some, if_neg sooner]

/-! ### A run -/

/-- An empty workspace, or one read from a value whose tabs have distinct ids. -/
def Initial (ws : Workspace) : Prop :=
  (∃ id name, ws = { id, name }) ∨
    ∃ json keep, (storedTabIds json).Nodup ∧ fromJson json keep = some (some ws)

/-- A workspace and what is done to it. -/
def system : System Workspace Op := .ofNext Initial next

theorem wellFormed_initial (starts : Initial ws) : ws.WellFormed := by
  rcases starts with ⟨id, name, rfl⟩ | ⟨json, keep, distinct, read⟩
  · exact ⟨.empty id name, List.nodup_nil⟩
  · obtain ⟨entries, id, name, rfl, -, -, after, isAfter, retains⟩ | ⟨notRead, -⟩ :=
      fromJson_cases json keep
    · obtain rfl : after = ws := Option.some.inj (Option.some.inj (isAfter.symm.trans read))
      have before := sound_stored entries id name
      exact (retains.removes before.toPlaced).wellFormed
        ⟨before, tabIds_stored entries id name distinct⟩ retains.sound
    · cases notRead.symm.trans read

def openTab : Op := .addTab none ⟨['t'], .term, ['s'], true⟩ ['p']

/-- A workspace with one tab in one pane. -/
def opened : Workspace :=
  ({ id := ['w'], name := ['W'] } : Workspace).addTab none ⟨['t'], .term, ['s'], true⟩ ['p']

end ServerBox.Workspaces.Workspace
