import ServerBox.Workspaces.Workspace

/-!
# Workspaces and templates as they are stored

`toJson` and `fromJson` of `tree.dart` and `workspace.dart`. A number is its `toDouble`.
-/

namespace ServerBox.Workspaces

open ServerBox.Std

/-- A decoded JSON value. -/
inductive Value where
  | null
  | bool (value : Bool)
  | number (value : F64)
  | string (value : Text)
  | list (items : List Value)
  | map (entries : List (Text × Value))

namespace Value

/-- What a map holds under a key, null where it has none. -/
def field (entries : List (Text × Value)) (key : Text) : Value :=
  ((entries.find? fun entry => entry.1 = key).map Prod.snd).getD null

theorem sizeOf_field_lt (entries : List (Text × Value)) (key : Text) :
    sizeOf (field entries key) < sizeOf (map entries) := by
  have inMap : sizeOf (map entries) = 1 + sizeOf entries := map.sizeOf_spec entries
  unfold field
  cases found : entries.find? fun entry => entry.1 = key with
  | none =>
      have positive : 0 < sizeOf entries := by cases entries <;> simp
      simp only [Option.map_none, Option.getD_none, null.sizeOf_spec, inMap]
      omega
  | some entry =>
      have among := List.sizeOf_lt_of_mem (List.mem_of_find?_eq_some found)
      have inEntry : sizeOf entry = 1 + sizeOf entry.1 + sizeOf entry.2 := rfl
      simp only [Option.map_some, Option.getD_some, inMap]
      omega

def asString : Value → Option Text
  | string value => some value
  | _ => none

def asNumber : Value → Option F64
  | number value => some value
  | _ => none

def asList : Value → Option (List Value)
  | list items => some items
  | _ => none

def asMap : Value → Option (List (Text × Value))
  | map entries => some entries
  | _ => none

end Value

namespace WsAxis

def name : WsAxis → Text
  | row => "row".toList
  | col => "col".toList

/-- `asNameMap()[split]` -/
def byName : Value → Option WsAxis
  | .string text => [row, col].find? fun axis => axis.name = text
  | _ => none

end WsAxis

namespace WorkspaceView

def name : WorkspaceView → Text
  | term => "term".toList
  | status => "status".toList
  | files => "files".toList
  | agent => "agent".toList
  | docker => "docker".toList
  | proc => "proc".toList
  | systemd => "systemd".toList
  | snippet => "snippet".toList

def values : List WorkspaceView := [term, status, files, agent, docker, proc, systemd, snippet]

def byName : Value → Option WorkspaceView
  | .string text => values.find? fun view => view.name = text
  | _ => none

end WorkspaceView

namespace WsNode

variable {Leaf : Type}

def toJson (leafToJson : Leaf → Value) : WsNode Leaf → Value
  | leaf value => .map [("leaf".toList, leafToJson value)]
  | split axis ratio a b =>
      .map [("split".toList, .string axis.name), ("ratio".toList, .number ratio),
        ("a".toList, toJson leafToJson a), ("b".toList, toJson leafToJson b)]

/-- None for anything that cannot be read. -/
def fromJson (readLeaf : Value → Option Leaf) : Value → Option (WsNode Leaf)
  | .map json =>
      match Value.field json "split".toList with
      | .null => (readLeaf (Value.field json "leaf".toList)).map leaf
      | axis =>
          let a := fromJson readLeaf (Value.field json "a".toList)
          let b := fromJson readLeaf (Value.field json "b".toList)
          match WsAxis.byName axis, (Value.field json "ratio".toList).asNumber with
          | some axis, some ratio => join axis (clampRatio ratio) a b
          -- The split's own fields are unreadable.
          | _, _ => a.or b
  | _ => none
termination_by json => sizeOf json
decreasing_by all_goals exact Value.sizeOf_field_lt _ _

end WsNode

namespace WsTab

def toJson (tab : WsTab) : Value :=
  .map [("id".toList, .string tab.id), ("view".toList, .string tab.view.name),
    ("server".toList, .string tab.serverId)]

def fromJson : Value → Option WsTab
  | .map json => do
      let id ← (Value.field json "id".toList).asString
      let view ← WorkspaceView.byName (Value.field json "view".toList)
      let server ← (Value.field json "server".toList).asString
      some ⟨id, view, server, false⟩
  | _ => none

end WsTab

namespace WsPane

def toJson (pane : WsPane) : Value :=
  .map [("id".toList, .string pane.id), ("tabs".toList, .list (pane.tabs.map WsTab.toJson)),
    ("active".toList, .string pane.activeId)]

def fromJson : Value → Option WsPane
  | .map json => do
      let id ← (Value.field json "id".toList).asString
      let raw ← (Value.field json "tabs".toList).asList
      match raw.filterMap WsTab.fromJson with
      | [] => none
      | first :: rest =>
          let active := (Value.field json "active".toList).asString.filter fun active =>
            (first :: rest).any fun t => t.id = active
          some ⟨id, first :: rest, active.getD first.id⟩
  | _ => none

end WsPane

/-- The layout without the leaves that have no pane. -/
def letGo (panes : LinkedMap Text WsPane) (root : Option (WsNode Text)) : Option (WsNode Text) :=
  (WsNode.leavesOf root).foldl
    (fun root leaf =>
      if (panes.lookup leaf).isNone then root.bind (WsNode.removeLeaf leaf) else root)
    root

namespace Workspace

/-- A nullable id. -/
def optional : Option Text → Value
  | none => .null
  | some id => .string id

/-- The entries of the panes, none where one is missing. -/
def panesJson (ws : Workspace) : Option (List Value) :=
  ws.order.mapM fun id => (ws.panes.lookup id).map WsPane.toJson

/-- The entries of a workspace, those of its panes given. -/
def entries (ws : Workspace) (panes : List Value) : List (Text × Value) :=
  [("id".toList, .string ws.id), ("name".toList, .string ws.name)] ++
    (ws.root.map fun root => ("root".toList, root.toJson .string)).toList ++
    [("panes".toList, .list panes), ("focus".toList, optional ws.focusId),
      ("prev".toList, optional ws.prevId)] ++
    (ws.maxId.map fun max => ("max".toList, .string max)).toList ++
    (if ws.sync then [("sync".toList, .bool true)] else []) ++
    [("narrowRatio".toList, .number ws.narrowRatio)]

def toJson (ws : Workspace) : Option Value :=
  ws.panesJson.map fun panes => .map (ws.entries panes)

/-- The panes that a list stores, the first of the records of each. -/
def readPanes (raw : List Value) : LinkedMap Text WsPane :=
  (raw.filterMap WsPane.fromJson).foldl (fun panes pane => panes.putIfAbsent pane.id pane) .empty

/-- The workspace as it is stored, before its tabs are asked for. -/
def stored (json : List (Text × Value)) (id name : Text) : Workspace :=
  let panes := readPanes ((Value.field json "panes".toList).asList.getD [])
  let read := WsNode.fromJson Value.asString (Value.field json "root".toList)
  let root := letGo panes (read.map WsNode.withoutRepeats)
  let order := WsNode.leavesOf root
  let pick := fun value : Value => value.asString.filter fun id => id ∈ order
  let focus := (pick (Value.field json "focus".toList)).or order.head?
  { id
    name
    root
    panes := panes.retain fun id => id ∈ order
    focusId := focus
    prevId := (pick (Value.field json "prev".toList)).or (order.find? fun id => some id ≠ focus)
    maxId := pick (Value.field json "max".toList)
    sync := match Value.field json "sync".toList with
      | .bool sync => sync
      | _ => false
    narrowRatio :=
      ((Value.field json "narrowRatio".toList).asNumber.map clampRatio).getD narrowDefault }

/-- None where it throws, and within it none where not even a name survives. -/
def fromJson (json : Value) (keep : WsTab → Bool) : Option (Option Workspace) :=
  match json with
  | .map json =>
      match (Value.field json "id".toList).asString, (Value.field json "name".toList).asString with
      | some id, some name => ((stored json id name).retainTabs keep).map some
      | _, _ => some none
  | _ => some none

end Workspace

/-! ### Templates -/

/-- A layout with the views that each pane opened with. -/
structure WsTemplate where
  id : Text
  name : Text
  root : WsNode (List WorkspaceView)

namespace WsTemplate

/-- The layout of a workspace; none where it throws, and within it none of an empty one. -/
def of (ws : Workspace) (id name : Text) : Option (Option WsTemplate) :=
  match ws.root with
  | none => some none
  | some root =>
      if root.leaves.all fun pane => (ws.panes.lookup pane).isSome then
        some (some ⟨id, name, root.map fun pane =>
          (((ws.panes.lookup pane).map WsPane.tabs).getD []).map WsTab.view⟩)
      else none

/-- The node that `map` makes with a function that asks for ids, with the panes it puts and the
number of ids it has asked for. -/
def place (serverId : Text) (newId : Nat → Text) :
    WsNode (List WorkspaceView) → LinkedMap Text WsPane → Nat →
      WsNode Text × LinkedMap Text WsPane × Nat
  | .leaf views, panes, asked =>
      let id := newId asked
      let tabs := views.mapIdx fun index v =>
        (⟨newId (asked + 1 + index), v, serverId, true⟩ : WsTab)
      let panes := match tabs with
        | [] => panes
        | first :: rest => panes.put id ⟨id, first :: rest, first.id⟩
      (.leaf id, panes, asked + 1 + views.length)
  | .split axis ratio a b, panes, asked =>
      let first := place serverId newId a panes asked
      let second := place serverId newId b first.2.1 first.2.2
      (.split axis ratio first.1 second.1, second.2)

/-- A new workspace laid out like a template, every tab on one server. -/
def build (template : WsTemplate) (workspaceId name serverId : Text) (newId : Nat → Text) :
    Workspace :=
  let placed := place serverId newId template.root .empty 0
  let panes := placed.2.1
  let root := letGo panes (some placed.1)
  let order := WsNode.leavesOf root
  { id := workspaceId, name, root, panes, focusId := order.head?, prevId := order[1]? }

def toJson (template : WsTemplate) : Value :=
  .map [("id".toList, .string template.id), ("name".toList, .string template.name),
    ("root".toList, template.root.toJson fun views => .list (views.map fun v => .string v.name))]

/-- The views of a leaf, none where there is none. -/
def readViews (raw : Value) : Option (List WorkspaceView) :=
  raw.asList.bind fun raw =>
    match raw.filterMap WorkspaceView.byName with
    | [] => none
    | first :: rest => some (first :: rest)

def fromJson : Value → Option WsTemplate
  | .map json => do
      let id ← (Value.field json "id".toList).asString
      let name ← (Value.field json "name".toList).asString
      let root ← WsNode.fromJson readViews (Value.field json "root".toList)
      some ⟨id, name, root⟩
  | _ => none

end WsTemplate

end ServerBox.Workspaces
