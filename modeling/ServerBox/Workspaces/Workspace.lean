import ServerBox.Std.LinkedMap
import ServerBox.Workspaces.Tree

/-!
# Workspaces

The operations of `src/lib/data/model/workspace/workspace.dart`. One that looks a pane up with `!`
gives none where the pane is missing, which in the source throws.
-/

namespace ServerBox.Workspaces

open ServerBox.Std

/-- What a tab shows of its server. -/
inductive WorkspaceView where
  | term
  | status
  | files
  | agent
  | docker
  | proc
  | systemd
  | snippet
deriving DecidableEq

structure WsTab where
  id : Text
  view : WorkspaceView
  serverId : Text
  /-- Whether the view is running. -/
  live : Bool
deriving DecidableEq

/-- A strip of tabs, one of them showing. -/
structure WsPane where
  id : Text
  tabs : List WsTab
  activeId : Text
deriving DecidableEq

/-- 0.55 -/
def narrowDefault : F64 := ⟨false, 0x3FE199999999999A, by decide⟩

structure Workspace where
  id : Text
  name : Text
  root : Option (WsNode Text) := none
  panes : LinkedMap Text WsPane := .empty
  /-- The pane that keys and new tabs go to. -/
  focusId : Option Text := none
  /-- The pane focused before. -/
  prevId : Option Text := none
  /-- The pane filling the workspace. -/
  maxId : Option Text := none
  /-- Whether what is typed in one terminal goes to all of them. -/
  sync : Bool := false
  /-- The first pane's share when a narrow window shows two of them. -/
  narrowRatio : F64 := narrowDefault

namespace Workspace

/-- The panes in reading order. -/
def order (ws : Workspace) : List Text := WsNode.leavesOf ws.root

def focused (ws : Workspace) : Option WsPane := ws.focusId.bind ws.panes.lookup

/-- `tabs.any`, which looks no further than the first tab that it accepts. -/
def anyTab (ws : Workspace) (accepts : WsTab → Bool) : List Text → Option Bool
  | [] => some false
  | id :: rest =>
      match ws.panes.lookup id with
      | none => none
      | some pane => if pane.tabs.any accepts then some true else ws.anyTab accepts rest

def focus (ws : Workspace) (id : Text) : Workspace :=
  if ws.focusId = some id ∨ (ws.panes.lookup id).isNone then ws
  else { ws with focusId := some id, prevId := ws.focusId }

def withPane (ws : Workspace) (pane : WsPane) : Workspace :=
  { ws with panes := ws.panes.put pane.id pane }

def selectTab (ws : Workspace) (paneId tabId : Text) : Workspace :=
  match ws.panes.lookup paneId with
  | none => ws
  | some pane =>
      if pane.tabs.any fun t => t.id = tabId then
        (ws.withPane { pane with activeId := tabId }).focus paneId
      else ws

/-- A tab added to a pane, to the focused one when that is gone. -/
def addTab (ws : Workspace) (paneId : Option Text) (tab : WsTab) (newPaneId : Text) : Workspace :=
  match (paneId.bind ws.panes.lookup).or ws.focused with
  | none =>
      { ws with
        root := some (.leaf newPaneId)
        panes := LinkedMap.empty.put newPaneId ⟨newPaneId, [tab], tab.id⟩
        focusId := some newPaneId
        prevId := none
        maxId := none }
  | some target =>
      (ws.withPane { target with tabs := target.tabs ++ [tab], activeId := tab.id }).focus target.id

/-- The focus of `removePane`, `order` being the panes left. -/
def focusWithout (ws : Workspace) (paneId : Text) (order : List Text) : Option Text :=
  if ∃ id ∈ order, ws.focusId = some id then ws.focusId
  else if order = [] then none
  else if ∃ id ∈ order, ws.prevId = some id then ws.prevId
  -- The one beside it; `idxOf?` is none where `indexOf` is -1, and 0 - 1 is 0 as the clamp has it.
  else order[min ((ws.order.idxOf? paneId).getD 0 - 1) (order.length - 1)]?

def removePane (ws : Workspace) (paneId : Text) : Workspace :=
  if (ws.panes.lookup paneId).isNone then ws
  else
    let root := ws.root.bind (WsNode.removeLeaf paneId)
    let order := WsNode.leavesOf root
    let focus := ws.focusWithout paneId order
    let prev :=
      if (∃ id ∈ order, ws.prevId = some id) ∧ ws.prevId ≠ focus then ws.prevId
      else order.find? fun id => some id ≠ focus
    { ws with
      root
      panes := ws.panes.remove paneId
      focusId := focus
      prevId := prev
      maxId := if ws.maxId = some paneId then none else ws.maxId }

def closeTab (ws : Workspace) (paneId tabId : Text) : Workspace :=
  match ws.panes.lookup paneId with
  | none => ws
  | some pane =>
      match pane.tabs.findIdx? fun t => t.id = tabId with
      | none => ws
      | some at_ =>
          match pane.tabs.eraseIdx at_ with
          | [] => ws.removePane paneId
          | first :: rest =>
              ws.withPane { pane with
                tabs := first :: rest
                activeId :=
                  if pane.activeId = tabId then
                    ((first :: rest).get
                      ⟨min (at_ - 1) rest.length, Nat.lt_succ_of_le (Nat.min_le_right _ _)⟩).id
                  else pane.activeId }

def split (ws : Workspace) (paneId : Text) (axis : WsAxis) (tab : WsTab) (newPaneId : Text)
    (before : Bool) : Workspace :=
  match ws.root with
  | none => ws
  | some root =>
      if (ws.panes.lookup paneId).isNone then ws
      else
        { ws with
          root := some (root.splitLeaf paneId axis newPaneId before)
          panes := ws.panes.put newPaneId ⟨newPaneId, [tab], tab.id⟩
          maxId := none }.focus newPaneId

/-- `insert` before a tab, or at the end: `findIdx` gives the length where there is none. -/
def insertTab (tabs : List WsTab) (beforeTabId : Option Text) (tab : WsTab) : List WsTab :=
  match beforeTabId with
  | none => tabs ++ [tab]
  | some before => tabs.insertIdx (tabs.findIdx fun t => t.id = before) tab

def moveTab (ws : Workspace) (fromPane tabId toPane : Text) (beforeTabId : Option Text) :
    Option Workspace :=
  if beforeTabId = some tabId then some ws
  else
    match ws.panes.lookup fromPane, ws.panes.lookup toPane with
    | some src, some _ =>
        match src.tabs.find? fun t => t.id = tabId with
        | none => some ws
        | some tab =>
            if fromPane = toPane then
              some ((ws.withPane { src with
                tabs := insertTab (src.tabs.erase tab) beforeTabId tab
                activeId := tabId }).focus toPane)
            else
              let next := ws.closeTab fromPane tabId
              (next.panes.lookup toPane).map fun target =>
                (next.withPane { target with
                  tabs := insertTab target.tabs beforeTabId tab
                  activeId := tabId }).focus toPane
    | _, _ => some ws

def dropTab (ws : Workspace) (fromPane tabId toPane : Text) (zone : WsDropZone)
    (newPaneId : Text) : Option Workspace :=
  match ws.panes.lookup fromPane, ws.panes.lookup toPane with
  | some src, some _ =>
      match src.tabs.find? fun t => t.id = tabId with
      | none => some ws
      | some tab =>
          match zone.axis with
          | none => if fromPane = toPane then some ws else ws.moveTab fromPane tabId toPane none
          | some axis =>
              if fromPane = toPane ∧ src.tabs.length = 1 then some ws
              else some ((ws.closeTab fromPane tabId).split toPane axis tab newPaneId zone.before)
  | _, _ => some ws

/-- Each tab of each pane changed. -/
def mapTabs (ws : Workspace) (change : WsTab → WsTab) : Workspace :=
  { ws with panes := ws.panes.mapRows fun pane => { pane with tabs := pane.tabs.map change } }

def wake (ws : Workspace) (serverId : Text) : Option Workspace :=
  (ws.anyTab (fun t => t.serverId = serverId ∧ ¬t.live) ws.order).map fun asleep =>
    if asleep then
      ws.mapTabs fun t => if t.serverId = serverId ∧ ¬t.live then { t with live := true } else t
    else ws

/-- One round of `retainTabs`, on the pane as it was before the first. -/
def retainIn (ws : Workspace) (keep : WsTab → Bool) (current : Workspace) (id : Text) :
    Option Workspace :=
  (ws.panes.lookup id).map fun pane =>
    let tabs := pane.tabs.filter keep
    if tabs.length = pane.tabs.length then current
    else
      match tabs with
      | [] => current.removePane id
      | first :: rest =>
          current.withPane { pane with
            tabs := first :: rest
            activeId :=
              if (first :: rest).any fun t => t.id = pane.activeId then pane.activeId
              else first.id }

/-- Only the tabs that `keep` accepts; a pane left with none goes too. -/
def retainTabs (ws : Workspace) (keep : WsTab → Bool) : Option Workspace :=
  ws.order.foldlM (ws.retainIn keep) ws

/-- Every tab of a server pointed at another. -/
def renameServer (ws : Workspace) (oldId newId : Text) : Option Workspace :=
  (ws.anyTab (fun t => t.serverId = oldId) ws.order).map fun used =>
    if used then ws.mapTabs fun t => if t.serverId = oldId then { t with serverId := newId } else t
    else ws

/-- Every tab of a server closed. -/
def removeServer (ws : Workspace) (serverId : Text) : Workspace :=
  ws.panes.values.foldl
    (fun current pane =>
      pane.tabs.foldl
        (fun current t => if t.serverId = serverId then current.closeTab pane.id t.id else current)
        current)
    ws

/-- The panes that a single column shows; none where `firstWhere` throws. -/
def narrowPair (ws : Workspace) : Option (List Text) :=
  match ws.order with
  | first :: second :: rest =>
      let order := first :: second :: rest
      let focus := (ws.focusId.filter fun id => id ∈ order).getD first
      ((ws.prevId.filter fun id => id ∈ order ∧ id ≠ focus).or
        (order.find? fun id => id ≠ focus)).map fun other =>
        -- The two sorted by their place.
        if order.idxOf other < order.idxOf focus then [other, focus] else [focus, other]
  | order => some order

end Workspace

end ServerBox.Workspaces
