import ServerBox.Workspaces.WorkspaceRuns

/-!
# Workspaces and templates that survive storage

A well-formed workspace is read back as itself with its tabs asleep; of any value stored, what the
layout places is read; a template builds the layout it was made of.
-/

namespace ServerBox.Workspaces

open ServerBox.Std

/-! ### What is written is read -/

namespace WsNode

variable {Leaf Other : Type}

theorem Bounded.map {f : Leaf → Other} {node : WsNode Leaf} (bounded : node.Bounded) :
    (node.map f).Bounded := by
  induction node with
  | leaf value => trivial
  | split axis ratio a b first second =>
      exact ⟨bounded.1, first bounded.2.1, second bounded.2.2⟩

/-- A split that is read, with its own fields. -/
theorem fromJson_split {read : Value → Option Leaf} {json : List (Text × Value)} {name : Text}
    {axis : WsAxis} {ratio : F64} (isSplit : Value.field json "split".toList = .string name)
    (isAxis : WsAxis.byName (.string name) = some axis)
    (isRatio : (Value.field json "ratio".toList).asNumber = some ratio) :
    fromJson read (.map json) =
      join axis (clampRatio ratio) (fromJson read (Value.field json "a".toList))
        (fromJson read (Value.field json "b".toList)) := by
  rw [fromJson, isSplit]
  dsimp only
  rw [isAxis, isRatio]

/-- A layout is read back where its leaves are and its ratios are within their bounds. -/
theorem fromJson_toJson {write : Leaf → Value} {read : Value → Option Leaf} {node : WsNode Leaf}
    (leaves : ∀ value ∈ node.leaves, read (write value) = some value) (bounded : node.Bounded) :
    fromJson read (node.toJson write) = some node := by
  induction node with
  | leaf value =>
      have here := leaves value List.mem_cons_self
      rw [toJson, fromJson]
      change Option.map leaf (read (write value)) = _
      rw [here]
      rfl
  | split axis ratio a b first second =>
      have isA := first (fun value held => leaves value (List.mem_append_left _ held)) bounded.2.1
      have isB := second (fun value held => leaves value (List.mem_append_right _ held)) bounded.2.2
      have isAxis : WsAxis.byName (.string axis.name) = some axis := by cases axis <;> rfl
      rw [toJson]
      refine (fromJson_split rfl isAxis rfl).trans ?_
      change join axis (clampRatio ratio) (fromJson read (a.toJson write))
        (fromJson read (b.toJson write)) = _
      rw [isA, isB, clampRatio_of_inBounds bounded.1]
      rfl

/-- A layout without repeats is left as it is. -/
theorem walk_eq_self [DecidableEq Leaf] {node : WsNode Leaf} {seen : List Leaf}
    (distinct : node.leaves.Nodup) (fresh : ∀ value ∈ node.leaves, value ∉ seen) :
    (node.walk seen).1 = some node := by
  induction node generalizing seen with
  | leaf value => rw [walk, if_neg (fresh value List.mem_cons_self)]
  | split axis ratio a b first second =>
      obtain ⟨inFirst, inSecond, apart⟩ := List.nodup_append.mp distinct
      have isA := first inFirst fun value held => fresh value (List.mem_append_left _ held)
      have isB : (b.walk (a.walk seen).2).1 = some b := second inSecond fun value held known => by
        rcases ((walk_spec a seen).2 value).mp known with inA | wasSeen
        · exact apart value inA value held rfl
        · exact fresh value (List.mem_append_right _ held) wasSeen
      rw [walk, isA, isB]
      rfl

theorem withoutRepeats_eq_self [DecidableEq Leaf] {node : WsNode Leaf}
    (distinct : node.leaves.Nodup) : node.withoutRepeats = node := by
  have walked := walk_eq_self distinct fun value _ => @List.not_mem_nil _ value
  exact Option.some.inj ((some_withoutRepeats node).trans walked)

end WsNode

/-- A tab that is not running. -/
def WsTab.asleep (tab : WsTab) : WsTab := { tab with live := false }

/-- A pane whose tabs are not running. -/
def WsPane.asleep (pane : WsPane) : WsPane := { pane with tabs := pane.tabs.map WsTab.asleep }

theorem WorkspaceView.byName_name (view : WorkspaceView) :
    byName (.string view.name) = some view := by
  cases view <;> rfl

theorem WsTab.fromJson_toJson (tab : WsTab) : fromJson tab.toJson = some tab.asleep := by
  have isView := WorkspaceView.byName_name tab.view
  change ((some tab.id).bind fun id =>
    (WorkspaceView.byName (.string tab.view.name)).bind fun view =>
      (some tab.serverId).bind fun server => some (⟨id, view, server, false⟩ : WsTab)) = _
  rw [isView]
  rfl

/-- A pane that is read, with the tabs of it that are. -/
theorem WsPane.fromJson_tabs {json : List (Text × Value)} {id : Text} {raw : List Value}
    {first : WsTab} {rest : List WsTab} (isId : (Value.field json "id".toList).asString = some id)
    (isTabs : (Value.field json "tabs".toList).asList = some raw)
    (read : raw.filterMap WsTab.fromJson = first :: rest) :
    fromJson (.map json) = some ⟨id, first :: rest,
      ((Value.field json "active".toList).asString.filter fun active =>
        (first :: rest).any fun t => t.id = active).getD first.id⟩ := by
  rw [fromJson, isId, isTabs]
  dsimp only [Option.bind_eq_bind, Option.bind_some]
  rw [read]

theorem WsPane.fromJson_toJson {pane : WsPane}
    (active : pane.activeId ∈ pane.tabs.map WsTab.id) :
    fromJson pane.toJson = some pane.asleep := by
  obtain ⟨t, isTab, isActive⟩ := List.mem_map.mp active
  have read : (pane.tabs.map WsTab.toJson).filterMap WsTab.fromJson = pane.asleep.tabs := by
    rw [List.filterMap_map]
    exact (List.filterMap_congr fun tab _ => WsTab.fromJson_toJson tab).trans
      (congrFun List.filterMap_eq_map' pane.tabs)
  have among : pane.asleep.tabs.any (fun t => t.id = pane.activeId) = true :=
    List.any_eq_true.mpr ⟨t.asleep, List.mem_map_of_mem isTab, decide_eq_true isActive⟩
  cases isTabs : pane.asleep.tabs with
  | nil =>
      rw [isTabs] at among
      cases among
  | cons first rest =>
      rw [isTabs] at among
      refine (fromJson_tabs rfl rfl (read.trans isTabs)).trans ?_
      change some (⟨pane.id, first :: rest, ((some pane.activeId).filter fun active =>
        (first :: rest).any fun t => t.id = active).getD first.id⟩ : WsPane) = _
      rw [Option.filter_some, if_pos among, ← isTabs]
      rfl

/-- Nothing is let go of where every leaf has a pane. -/
theorem letGo_eq_self {panes : LinkedMap Text WsPane} {root : Option (WsNode Text)}
    (held : ∀ leaf ∈ WsNode.leavesOf root, (panes.lookup leaf).isSome = true) :
    letGo panes root = root := by
  unfold letGo
  generalize WsNode.leavesOf root = leaves at held
  induction leaves with
  | nil => rfl
  | cons leaf rest inductionHypothesis =>
      have here : ¬(panes.lookup leaf).isNone = true := by
        rw [Bool.not_eq_true, Option.isNone_eq_false_iff]
        exact held leaf List.mem_cons_self
      rw [List.foldl_cons, if_neg here]
      exact inductionHypothesis fun other later => held other (List.mem_cons_of_mem _ later)

namespace Workspace

variable {ws after : Workspace}

/-- The same workspace with every tab asleep. -/
structure Asleep (ws after : Workspace) : Prop where
  id : after.id = ws.id
  name : after.name = ws.name
  root : after.root = ws.root
  panes : ∀ id, after.panes.lookup id = (ws.panes.lookup id).map WsPane.asleep
  focusId : after.focusId = ws.focusId
  prevId : after.prevId = ws.prevId
  maxId : after.maxId = ws.maxId
  sync : after.sync = ws.sync
  narrowRatio : after.narrowRatio = ws.narrowRatio

/-- Where all tabs are kept, the workspace is left as it is. -/
theorem retainTabs_all (isPlaced : ws.Placed) : ws.retainTabs (fun _ => true) = some ws := by
  have rounds : ∀ ids : List Text, (∀ id ∈ ids, id ∈ ws.order) →
      ids.foldlM (ws.retainIn fun _ => true) ws = some ws := by
    intro ids
    induction ids with
    | nil => exact fun _ => rfl
    | cons id rest inductionHypothesis =>
        intro among
        obtain ⟨pane, held⟩ := isPlaced.exists_pane (among id List.mem_cons_self)
        have round : ws.retainIn (fun _ => true) ws id = some ws := by
          rw [retainIn, held, Option.map_some]
          dsimp only
          rw [if_pos (by rw [List.filter_true])]
        rw [List.foldlM_cons, round]
        exact inductionHypothesis fun other later => among other (List.mem_cons_of_mem _ later)
  exact rounds ws.order fun _ among => among

/-- The panes written are those read, asleep. -/
theorem find?_panesJson (sound : ws.Sound) {ids : List Text} (among : ∀ id ∈ ids, id ∈ ws.order) :
    ∃ panes, ids.mapM (fun id => (ws.panes.lookup id).map WsPane.toJson) = some panes ∧
      ∀ id, (panes.filterMap WsPane.fromJson).find? (fun pane => pane.id = id) =
        if id ∈ ids then (ws.panes.lookup id).map WsPane.asleep else none := by
  induction ids with
  | nil => exact ⟨[], rfl, fun id => (if_neg List.not_mem_nil).symm⟩
  | cons first rest inductionHypothesis =>
      obtain ⟨panes, written, found⟩ :=
        inductionHypothesis fun other later => among other (List.mem_cons_of_mem _ later)
      obtain ⟨pane, held⟩ := sound.exists_pane (among first List.mem_cons_self)
      have named := sound.named first pane held
      refine ⟨pane.toJson :: panes, ?_, fun id => ?_⟩
      · rw [List.mapM_cons, held, written]
        rfl
      · rw [List.filterMap_cons, WsPane.fromJson_toJson (sound.active first pane held)]
        change (pane.asleep :: _).find? _ = _
        rw [List.find?_cons]
        by_cases same : id = first
        · have isFirst : decide (pane.asleep.id = id) = true :=
            decide_eq_true (named.trans same.symm)
          rw [isFirst, if_pos (same ▸ List.mem_cons_self), same, held]
          rfl
        · have notFirst : decide (pane.asleep.id = id) = false :=
            decide_eq_false fun equal => same (equal.symm.trans named)
          rw [notFirst]
          refine (found id).trans (if_congr ?_ rfl rfl)
          rw [List.mem_cons, or_iff_right same]

section Fields

variable (ws) (panes : List Value)

/-- What the entries of a workspace hold under each of its keys. -/
theorem field_entries :
    Value.field (ws.entries panes) "id".toList = .string ws.id ∧
    Value.field (ws.entries panes) "name".toList = .string ws.name ∧
    Value.field (ws.entries panes) "root".toList =
      (ws.root.map (WsNode.toJson .string)).getD .null ∧
    Value.field (ws.entries panes) "panes".toList = .list panes ∧
    Value.field (ws.entries panes) "focus".toList = optional ws.focusId ∧
    Value.field (ws.entries panes) "prev".toList = optional ws.prevId ∧
    Value.field (ws.entries panes) "max".toList = optional ws.maxId ∧
    Value.field (ws.entries panes) "sync".toList = (if ws.sync then .bool true else .null) ∧
    Value.field (ws.entries panes) "narrowRatio".toList = .number ws.narrowRatio := by
  unfold entries
  cases ws.root <;> cases ws.maxId <;> cases ws.sync <;>
    exact ⟨rfl, rfl, rfl, rfl, rfl, rfl, rfl, rfl, rfl⟩

end Fields

/-- An id of a pane there is, picked again. -/
theorem pick_optional {order : List Text} {id : Option Text}
    (among : ∀ pane, id = some pane → pane ∈ order) :
    ((optional id).asString.filter fun id => id ∈ order) = id := by
  cases id with
  | none => rfl
  | some pane =>
      change (some pane).filter _ = _
      rw [Option.filter_some, if_pos (decide_eq_true (among pane rfl))]

/-- A single pane has the focus. -/
theorem Pointed.find?_other {order : List Text} {focusId prevId maxId : Option Text}
    (pointed : Pointed order focusId prevId maxId) (few : order.length < 2) :
    (order.find? fun id => some id ≠ focusId) = none := by
  match order, few with
  | [], _ => rfl
  | [pane], _ =>
      cases isFocus : focusId with
      | none => cases pointed.focused isFocus
      | some focus =>
          have same : focus = pane := List.mem_singleton.mp (pointed.focus focus isFocus)
          simp [same]

/-- A workspace is read back as it was, with its tabs asleep. -/
theorem restored (sound : ws.Sound) :
    ∃ json, ws.toJson = some json ∧
      ∃ after, fromJson json (fun _ => true) = some (some after) ∧ Asleep ws after := by
  obtain ⟨panes, written, found⟩ := find?_panesJson sound fun _ among => among
  obtain ⟨isId, isName, isRoot, isPanes, isFocus, isPrev, isMax, isSync, isRatio⟩ :=
    field_entries ws panes
  have isReadable : ∀ id, (readable (ws.entries panes)).find? (fun pane => pane.id = id) =
      if id ∈ ws.order then (ws.panes.lookup id).map WsPane.asleep else none := fun id => by
    rw [readable, isPanes]
    exact found id
  have rootRead : readRoot (ws.entries panes) = ws.root := by
    rw [readRoot, isRoot]
    cases root : ws.root with
    | none => rw [Option.map_none, Option.getD_none, WsNode.fromJson]
              exact fun _ => Value.noConfusion
    | some root_ =>
        exact WsNode.fromJson_toJson (fun _ _ => rfl) (sound.bounded root_ root)
  have rootStored : (stored (ws.entries panes) ws.id ws.name).root = ws.root := by
    change letGo _ ((readRoot (ws.entries panes)).map WsNode.withoutRepeats) = _
    have noRepeats : ws.root.map WsNode.withoutRepeats = ws.root := by
      have distinct := sound.distinct
      rw [order] at distinct
      cases root : ws.root with
      | none => rfl
      | some root_ =>
          rw [root] at distinct
          exact congrArg some (WsNode.withoutRepeats_eq_self distinct)
    rw [rootRead, noRepeats]
    refine letGo_eq_self fun leaf held => ?_
    have among : leaf ∈ ws.order := held
    rw [lookup_readPanes, ← readable, isReadable, if_pos among, Option.isSome_map]
    exact (sound.placed leaf).mp among
  have orderStored : (stored (ws.entries panes) ws.id ws.name).order = ws.order :=
    congrArg WsNode.leavesOf rootStored
  have placed := placed_stored (ws.entries panes) ws.id ws.name
  refine ⟨.map (ws.entries panes), ?_, stored (ws.entries panes) ws.id ws.name, ?_, ?_⟩
  · rw [toJson, panesJson, written]
    rfl
  · rw [fromJson, isId, isName]
    dsimp only [Value.asString]
    rw [retainTabs_all placed]
    rfl
  · have pointed := sound.pointed
    have focusStored : (stored (ws.entries panes) ws.id ws.name).focusId = ws.focusId := by
      change ((Value.field (ws.entries panes) "focus".toList).asString.filter
        fun id => id ∈ (stored (ws.entries panes) ws.id ws.name).order).or
          (stored (ws.entries panes) ws.id ws.name).order.head? = _
      rw [orderStored, isFocus, pick_optional pointed.focus]
      cases isFocus : ws.focusId with
      | none =>
          rw [pointed.focused isFocus]
          rfl
      | some focus => rfl
    exact {
      id := rfl
      name := rfl
      root := rootStored
      panes := fun id => by
        rw [lookup_stored, orderStored, isReadable]
        split
        next => rfl
        next absent =>
          rw [sound.placed, Option.not_isSome_iff_eq_none] at absent
          rw [absent]
          rfl
      focusId := focusStored
      prevId := by
        change ((Value.field (ws.entries panes) "prev".toList).asString.filter
          fun id => id ∈ (stored (ws.entries panes) ws.id ws.name).order).or
            ((stored (ws.entries panes) ws.id ws.name).order.find? fun id =>
              some id ≠ (stored (ws.entries panes) ws.id ws.name).focusId) = _
        rw [orderStored, focusStored, isPrev, pick_optional pointed.prev]
        cases noPrev : ws.prevId with
        | none => exact pointed.find?_other (pointed.another noPrev)
        | some prev => rfl
      maxId := by
        change ((Value.field (ws.entries panes) "max".toList).asString.filter
          fun id => id ∈ (stored (ws.entries panes) ws.id ws.name).order) = _
        rw [orderStored, isMax, pick_optional pointed.max]
      sync := by
        have synced : (stored (ws.entries panes) ws.id ws.name).sync = ws.sync := by
          unfold stored
          dsimp only
          rw [isSync]
          cases ws.sync <;> rfl
        exact synced
      narrowRatio := by
        change ((Value.field (ws.entries panes) "narrowRatio".toList).asNumber.map
          clampRatio).getD narrowDefault = _
        rw [isRatio]
        exact clampRatio_of_inBounds sound.narrow }

end Workspace

end ServerBox.Workspaces
