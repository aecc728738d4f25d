import ServerBox.Workspaces.WorkspaceRead

/-!
# Templates

The layout of a workspace as a template, stored, read back and built again.
-/

namespace ServerBox.Workspaces

open ServerBox.Std

namespace WsTemplate

/-- The views of a pane. -/
def viewsIn (panes : LinkedMap Text WsPane) (id : Text) : List WorkspaceView :=
  (((panes.lookup id).map WsPane.tabs).getD []).map WsTab.view

/-- Each leaf has views. -/
def Filled (root : WsNode (List WorkspaceView)) : Prop := ∀ views ∈ root.leaves, views ≠ []

/-- The template that a workspace with a pane is made to. -/
theorem of_eq {ws : Workspace} {root : WsNode Text} (sound : ws.Sound)
    (isRoot : ws.root = some root) (id name : Text) :
    of ws id name = some (some ⟨id, name, root.map (viewsIn ws.panes)⟩) := by
  have allHeld : (root.leaves.all fun pane => (ws.panes.lookup pane).isSome) = true :=
    List.all_eq_true.mpr fun pane among => (sound.placed pane).mp (by
      rw [Workspace.order, isRoot]
      exact among)
  unfold of
  rw [isRoot]
  exact if_pos allHeld

theorem filled_of {ws : Workspace} {root : WsNode Text} (sound : ws.Sound)
    (isRoot : ws.root = some root) : Filled (root.map (viewsIn ws.panes)) := by
  intro views among
  rw [WsNode.leaves_map] at among
  obtain ⟨pane, isPane, rfl⟩ := List.mem_map.mp among
  have placed : pane ∈ ws.order := by
    rw [Workspace.order, isRoot]
    exact isPane
  exact fun none_ => sound.tabsAt_ne_nil placed (List.map_eq_nil_iff.mp none_)

theorem readViews_write {views : List WorkspaceView} (notEmpty : views ≠ []) :
    readViews (.list (views.map fun v => .string v.name)) = some views := by
  have read : (views.map fun v => Value.string v.name).filterMap WorkspaceView.byName = views := by
    rw [List.filterMap_map]
    exact (List.filterMap_congr fun v _ => WorkspaceView.byName_name v).trans List.filterMap_some
  rw [readViews, Value.asList, Option.bind_some, read]
  cases views with
  | nil => exact absurd rfl notEmpty
  | cons first rest => rfl

/-- A template with views in each pane is read back. -/
theorem fromJson_toJson {template : WsTemplate} (filled : Filled template.root)
    (bounded : template.root.Bounded) : fromJson template.toJson = some template := by
  have root := WsNode.fromJson_toJson
    (fun views among => readViews_write (filled views among)) bounded
  change ((some template.id).bind fun id => (some template.name).bind fun name =>
    (WsNode.fromJson readViews (template.root.toJson fun views =>
      .list (views.map fun v => .string v.name))).bind fun root =>
        some (⟨id, name, root⟩ : WsTemplate)) = _
  rw [root]
  rfl

/-! ### Built again -/

/-- What is placed for a node, the ids taken from a number on: its leaves are ids taken, each with
a pane that has the views, and no other pane is touched. -/
structure Places (newId : Nat → Text) (node : WsNode (List WorkspaceView))
    (panes : LinkedMap Text WsPane) (asked : Nat)
    (placed : WsNode Text × LinkedMap Text WsPane × Nat) : Prop where
  later : asked ≤ placed.2.2
  leaves : ∀ leaf ∈ placed.1.leaves, ∃ index, asked ≤ index ∧ index < placed.2.2 ∧
    leaf = newId index
  others : ∀ id, (∀ index, asked ≤ index → index < placed.2.2 → id ≠ newId index) →
    placed.2.1.lookup id = panes.lookup id
  held : ∀ leaf ∈ placed.1.leaves, (placed.2.1.lookup leaf).isSome = true
  views : placed.1.map (viewsIn placed.2.1) = node

theorem places (serverId : Text) {newId : Nat → Text} (distinct : Function.Injective newId)
    (node : WsNode (List WorkspaceView)) (filled : Filled node) (panes : LinkedMap Text WsPane)
    (asked : Nat) : Places newId node panes asked (place serverId newId node panes asked) := by
  induction node generalizing panes asked with
  | leaf views =>
      have notEmpty := filled views List.mem_cons_self
      obtain ⟨tabs, isTabs⟩ : ∃ tabs : List WsTab, (views.mapIdx fun index v =>
        (⟨newId (asked + 1 + index), v, serverId, true⟩ : WsTab)) = tabs := ⟨_, rfl⟩
      have isViews : tabs.map WsTab.view = views := by
        rw [← isTabs]
        exact List.ext_getElem (by simp) (by simp)
      rw [place, isTabs]
      cases tabs with
      | nil => exact absurd isViews.symm notEmpty
      | cons first rest =>
          have lookup := LinkedMap.lookup_put panes (newId asked) (newId asked)
            ⟨newId asked, first :: rest, first.id⟩
          rw [if_pos rfl] at lookup
          exact {
            later := by
              dsimp only
              omega
            leaves := fun leaf among => by
              rw [List.mem_singleton.mp among]
              exact ⟨asked, Nat.le_refl _, by dsimp only; omega, rfl⟩
            others := fun id off => by
              dsimp only
              rw [LinkedMap.lookup_put, if_neg (off asked (Nat.le_refl _) (by dsimp only; omega))]
            held := fun leaf among => by
              rw [List.mem_singleton.mp among]
              exact Option.isSome_of_eq_some lookup
            views := by
              dsimp only [WsNode.map, viewsIn]
              rw [lookup]
              exact congrArg WsNode.leaf isViews }
  | split axis ratio a b first second =>
      have inA : Filled a := fun views among => filled views (List.mem_append_left _ among)
      have inB : Filled b := fun views among => filled views (List.mem_append_right _ among)
      have isFirst := first inA panes asked
      have isSecond := second inB (place serverId newId a panes asked).2.1
        (place serverId newId a panes asked).2.2
      rw [place]
      generalize place serverId newId a panes asked = placedA at isFirst isSecond ⊢
      generalize place serverId newId b placedA.2.1 placedA.2.2 = placedB at isSecond ⊢
      have unmoved : ∀ leaf ∈ placedA.1.leaves,
          placedB.2.1.lookup leaf = placedA.2.1.lookup leaf := fun leaf among => by
        obtain ⟨index, -, before, rfl⟩ := isFirst.leaves leaf among
        refine isSecond.others _ fun other after _ same => ?_
        have equal := distinct same
        omega
      exact {
        later := Nat.le_trans isFirst.later isSecond.later
        leaves := fun leaf among => by
          rcases List.mem_append.mp among with inFirst | inSecond
          · obtain ⟨index, from_, before, isLeaf⟩ := isFirst.leaves leaf inFirst
            exact ⟨index, from_, Nat.lt_of_lt_of_le before isSecond.later, isLeaf⟩
          · obtain ⟨index, from_, before, isLeaf⟩ := isSecond.leaves leaf inSecond
            exact ⟨index, Nat.le_trans isFirst.later from_, before, isLeaf⟩
        others := fun id off => by
          rw [isSecond.others id fun index from_ =>
            off index (Nat.le_trans isFirst.later from_)]
          exact isFirst.others id fun index from_ before =>
            off index from_ (Nat.lt_of_lt_of_le before isSecond.later)
        held := fun leaf among => by
          rcases List.mem_append.mp among with inFirst | inSecond
          · rw [unmoved leaf inFirst]
            exact isFirst.held leaf inFirst
          · exact isSecond.held leaf inSecond
        views := by
          have same : placedA.1.map (viewsIn placedB.2.1) = placedA.1.map (viewsIn placedA.2.1) :=
            WsNode.map_congr fun leaf among => by rw [viewsIn, unmoved leaf among, viewsIn]
          rw [WsNode.map, same, isFirst.views, isSecond.views] }

/-- The layout that a template builds is the template's, with its views in each pane. -/
theorem build_spec (template : WsTemplate) (filled : Filled template.root)
    (workspaceId name serverId : Text) {newId : Nat → Text} (distinct : Function.Injective newId) :
    ∃ root, (template.build workspaceId name serverId newId).root = some root ∧
      root.map (viewsIn (template.build workspaceId name serverId newId).panes) =
        template.root := by
  have isPlaced := places serverId distinct template.root filled .empty 0
  have nothingGone : letGo (place serverId newId template.root .empty 0).2.1
      (some (place serverId newId template.root .empty 0).1) =
        some (place serverId newId template.root .empty 0).1 :=
    letGo_eq_self isPlaced.held
  exact ⟨_, nothingGone, isPlaced.views⟩

/-- A workspace built from the template of another has its layout and its views. -/
theorem build_of {ws : Workspace} (sound : ws.Sound) {root : WsNode Text}
    (isRoot : ws.root = some root) (id name : Text) :
    ∃ template, of ws id name = some (some template) ∧
      fromJson template.toJson = some template ∧
      ∀ workspaceId newName serverId (newId : Nat → Text), Function.Injective newId →
        ∃ built, (template.build workspaceId newName serverId newId).root = some built ∧
          built.map (viewsIn (template.build workspaceId newName serverId newId).panes) =
            root.map (viewsIn ws.panes) := by
  have filled := filled_of sound isRoot
  refine ⟨_, of_eq sound isRoot id name, ?_, ?_⟩
  · exact fromJson_toJson filled (sound.bounded root isRoot).map
  · intro workspaceId newName serverId newId distinct
    exact build_spec _ filled workspaceId newName serverId distinct

end WsTemplate

/-! ### What survives -/

/-- A layout with a split along no axis, and a pane in each of its halves. -/
def diagonal : List (Text × Value) :=
  [("id".toList, .string ['w']), ("name".toList, .string ['W']),
    ("root".toList, .map [("split".toList, .string "diagonal".toList),
      ("ratio".toList, .number evenRatio),
      ("a".toList, .map [("leaf".toList, .string ['x'])]),
      ("b".toList, .map [("leaf".toList, .string ['y'])])]),
    ("panes".toList, .list [WsPane.toJson ⟨['x'], [⟨['t'], .term, ['s'], false⟩], ['t']⟩,
      WsPane.toJson ⟨['y'], [⟨['u'], .term, ['s'], false⟩], ['u']⟩])]

namespace Workspace

end Workspace

end ServerBox.Workspaces
