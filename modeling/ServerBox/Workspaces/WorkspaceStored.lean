import Mathlib.Data.List.Pairwise
import ServerBox.Workspaces.WorkspaceJson
import ServerBox.Workspaces.WorkspaceMoves

/-!
# A workspace read from storage

Whatever is stored, what is read has its tree, its panes and its ids in agreement.
-/

namespace ServerBox.Workspaces

open ServerBox.Std

/-! ### The layout -/

namespace WsNode

variable {Leaf : Type}

theorem bounded_join {axis : WsAxis} {ratio : F64} {a b : Option (WsNode Leaf)} {node : WsNode Leaf}
    (within_ : InBounds ratio) (first : ∀ node, a = some node → node.Bounded)
    (second : ∀ node, b = some node → node.Bounded) (joined : join axis ratio a b = some node) :
    node.Bounded := by
  cases a with
  | none => exact second node joined
  | some left_ =>
      cases b with
      | none => exact first node joined
      | some right_ =>
          cases joined
          exact ⟨within_, first left_ rfl, second right_ rfl⟩

/-- Whatever was stored, the ratios read are within their bounds. -/
theorem bounded_fromJson (readLeaf : Value → Option Leaf) (json : Value) (node : WsNode Leaf)
    (read : fromJson readLeaf json = some node) : node.Bounded := by
  fun_induction fromJson readLeaf json generalizing node with
  | case1 json isNull =>
      obtain ⟨value, -, rfl⟩ := Option.map_eq_some_iff.mp read
      trivial
  | case2 json a b axis ratio isRatio isSplit isAxis first second =>
      exact bounded_join (inBounds_clampRatio ratio) first second read
  | case3 json a b isSplit unreadable first second =>
      rcases Option.or_eq_some_iff.mp read with isFirst | ⟨-, isSecond⟩
      · exact first node isFirst
      · exact second node isSecond
  | case4 json notMap => cases read

end WsNode

section LetGo

variable (panes : LinkedMap Text WsPane)

/-- The layout without those of some leaves that have no pane. -/
theorem letGo_foldl (leaves : List Text) (root : Option (WsNode Text)) :
    WsNode.leavesOf (leaves.foldl (fun root leaf =>
        if (panes.lookup leaf).isNone then root.bind (WsNode.removeLeaf leaf) else root) root) =
      (WsNode.leavesOf root).filter (fun leaf => leaf ∉ leaves ∨ (panes.lookup leaf).isSome) ∧
    Workspace.Closes root (leaves.foldl (fun root leaf =>
        if (panes.lookup leaf).isNone then root.bind (WsNode.removeLeaf leaf) else root) root) := by
  induction leaves generalizing root with
  | nil => exact ⟨(List.filter_eq_self.mpr fun leaf _ => by simp).symm, .refl root⟩
  | cons leaf rest inductionHypothesis =>
      rw [List.foldl_cons]
      split
      next missing =>
        obtain ⟨leaves, closes⟩ := inductionHypothesis (root.bind (WsNode.removeLeaf leaf))
        refine ⟨?_, (Workspace.Closes.removeLeaf root leaf).trans closes⟩
        rw [leaves, WsNode.leavesOf_bind_removeLeaf, List.filter_filter]
        refine List.filter_congr fun other _ => ?_
        by_cases same : other = leaf
        · rw [Option.isNone_iff_eq_none] at missing
          simp [same, missing]
        · simp [same]
      next held =>
        obtain ⟨leaves, closes⟩ := inductionHypothesis root
        refine ⟨leaves.trans (List.filter_congr fun other _ => ?_), closes⟩
        by_cases same : other = leaf
        · have present : (panes.lookup leaf).isSome = true := by
            rwa [Bool.not_eq_true, Option.isNone_eq_false_iff] at held
          simp [same, present]
        · simp [same]

theorem leavesOf_letGo (root : Option (WsNode Text)) :
    WsNode.leavesOf (letGo panes root) =
      (WsNode.leavesOf root).filter fun leaf => (panes.lookup leaf).isSome := by
  rw [letGo, (letGo_foldl panes _ root).1]
  refine List.filter_congr fun leaf among => ?_
  simp [among]

theorem closes_letGo (root : Option (WsNode Text)) : Workspace.Closes root (letGo panes root) :=
  (letGo_foldl panes _ root).2

end LetGo

/-! ### The panes -/

/-- A pane read has a tab, and its active one is one of them. -/
theorem WsPane.active_fromJson {json : Value} {pane : WsPane} (read : fromJson json = some pane) :
    pane.activeId ∈ pane.tabs.map WsTab.id := by
  unfold fromJson at read
  split at read
  next json =>
    obtain ⟨id, -, read⟩ := Option.bind_eq_some_iff.mp read
    obtain ⟨raw, -, read⟩ := Option.bind_eq_some_iff.mp read
    split at read
    next => cases read
    next first rest _ =>
      cases read
      dsimp only
      cases picked : (Value.field json "active".toList).asString.filter fun active =>
          (first :: rest).any fun t => t.id = active with
      | none => exact List.mem_cons_self
      | some active =>
          obtain ⟨t, isTab, isActive⟩ :=
            List.any_eq_true.mp (Option.filter_eq_some_iff.mp picked).2
          exact List.mem_map.mpr ⟨t, isTab, of_decide_eq_true isActive⟩
  next => cases read

namespace Workspace

/-- Of several panes of one id, the first. -/
theorem lookup_putAll (panes : List WsPane) (map : LinkedMap Text WsPane) (id : Text) :
    (panes.foldl (fun map pane => map.putIfAbsent pane.id pane) map).lookup id =
      (map.lookup id).or (panes.find? fun pane => pane.id = id) := by
  induction panes generalizing map with
  | nil => simp
  | cons pane rest inductionHypothesis =>
      rw [List.foldl_cons, inductionHypothesis, LinkedMap.lookup_putIfAbsent, Option.or_assoc,
        List.find?_cons]
      by_cases same : pane.id = id
      · simp [same]
      · simp [same, Ne.symm same]

theorem lookup_readPanes (raw : List Value) (id : Text) :
    (readPanes raw).lookup id =
      (raw.filterMap WsPane.fromJson).find? fun pane => pane.id = id := by
  rw [readPanes, lookup_putAll, LinkedMap.lookup_empty, Option.none_or]

/-- The panes that can be read of those a value stores. -/
def readable (json : List (Text × Value)) : List WsPane :=
  ((Value.field json "panes".toList).asList.getD []).filterMap WsPane.fromJson

/-- The layout as it is read. -/
def readRoot (json : List (Text × Value)) : Option (WsNode Text) :=
  WsNode.fromJson Value.asString (Value.field json "root".toList)

section Stored

variable (json : List (Text × Value)) (id name : Text)

/-- The panes that are placed are those of the layout that can be read, each where it is first. -/
theorem order_stored : (stored json id name).order =
    (firsts [] (WsNode.leavesOf (readRoot json))).filter fun id =>
      ((readable json).find? fun pane => pane.id = id).isSome := by
  change WsNode.leavesOf (letGo _ _) = _
  rw [leavesOf_letGo]
  have placed : WsNode.leavesOf ((readRoot json).map WsNode.withoutRepeats) =
      firsts [] (WsNode.leavesOf (readRoot json)) := by
    cases readRoot json with
    | none => rfl
    | some root => exact WsNode.leaves_withoutRepeats root
  rw [readRoot] at placed
  rw [placed]
  exact List.filter_congr fun leaf _ => by rw [lookup_readPanes, readable]

theorem lookup_stored (paneId : Text) : (stored json id name).panes.lookup paneId =
    if paneId ∈ (stored json id name).order then
      (readable json).find? fun pane => pane.id = paneId
    else none := by
  rw [readable, ← lookup_readPanes]
  exact (LinkedMap.lookup_retain _ _ _).trans (if_congr decide_eq_true_iff rfl rfl)

/-- The tree read closes up around what is not placed. -/
theorem closes_stored : Closes (readRoot json) (stored json id name).root := by
  refine Closes.trans ?_ (closes_letGo _ _)
  intro last isLast
  obtain ⟨root, isRoot, rfl⟩ := Option.map_eq_some_iff.mp isLast
  exact ⟨root, isRoot, .withoutRepeats root⟩

theorem mem_of_find?_readable {paneId : Text} {pane : WsPane}
    (found : ((readable json).find? fun pane => pane.id = paneId) = some pane) :
    pane ∈ readable json ∧ pane.id = paneId :=
  ⟨List.mem_of_find?_eq_some found, by simpa using List.find?_some found⟩

theorem placed_stored : (stored json id name).Placed where
  distinct := by
    rw [order_stored]
    exact (nodup_firsts _ _).filter _
  placed paneId := by
    rw [lookup_stored]
    split
    next among =>
      refine iff_of_true among ?_
      rw [order_stored, List.mem_filter] at among
      exact among.2
    next absent => exact iff_of_false absent Bool.false_ne_true
  named paneId pane held := by
    rw [lookup_stored] at held
    split at held
    next => exact (mem_of_find?_readable json held).2
    next => cases held

theorem sound_stored : (stored json id name).Sound := {
  placed_stored json id name with
  active := fun paneId pane held => by
    rw [lookup_stored] at held
    split at held
    next =>
      obtain ⟨raw, -, read⟩ := List.mem_filterMap.mp (mem_of_find?_readable json held).1
      exact WsPane.active_fromJson read
    next => cases held
  pointed := by
    have distinct := (placed_stored json id name).distinct
    refine .of_prev distinct ?_ ?_ ?_ ?_ ?_
    · intro paneId isFocus
      rcases Option.or_eq_some_iff.mp isFocus with picked | ⟨-, first⟩
      · exact of_decide_eq_true (Option.filter_eq_some_iff.mp picked).2
      · exact List.mem_of_head? first
    · intro none_
      exact List.head?_eq_none_iff.mp (Option.or_eq_none_iff.mp none_).2
    · intro paneId isPrev
      rcases Option.or_eq_some_iff.mp isPrev with picked | ⟨-, first⟩
      · exact of_decide_eq_true (Option.filter_eq_some_iff.mp picked).2
      · exact List.mem_of_find?_eq_some first
    · intro none_ paneId among
      by_contra differs
      have noOther := (Option.or_eq_none_iff.mp none_).2
      exact List.find?_eq_none.mp noOther paneId among (decide_eq_true differs)
    · intro paneId isMax
      exact of_decide_eq_true (Option.filter_eq_some_iff.mp isMax).2
  bounded := fun last isLast => by
    obtain ⟨root, isRoot, closes⟩ := closes_stored json id name last isLast
    exact closes.bounded (WsNode.bounded_fromJson _ _ root isRoot)
  narrow := by
    change InBounds (Option.getD _ _)
    cases (Value.field json "narrowRatio".toList).asNumber with
    | none => exact (by decide : InBounds narrowDefault)
    | some ratio => exact inBounds_clampRatio ratio }

/-- The tabs of a pane that is placed are those of the first pane that is stored under its id. -/
theorem tabsAt_stored {paneId : Text} (among : paneId ∈ (stored json id name).order) :
    ∃ pane ∈ readable json, pane.id = paneId ∧
      (stored json id name).tabsAt paneId = pane.tabs := by
  obtain ⟨pane, held⟩ := (placed_stored json id name).exists_pane among
  refine ⟨pane, ?_, (placed_stored json id name).named paneId pane held, tabsAt_of_lookup held⟩
  rw [lookup_stored, if_pos among] at held
  exact (mem_of_find?_readable json held).1

theorem tabIds_stored
    (distinct : (((readable json).flatMap WsPane.tabs).map WsTab.id).Nodup) :
    ((stored json id name).tabs.map WsTab.id).Nodup := by
  rw [List.map_flatMap, List.nodup_flatMap] at distinct
  obtain ⟨within_, apart⟩ := distinct
  rw [tabs, List.map_flatMap, List.nodup_flatMap]
  constructor
  · intro paneId among
    obtain ⟨pane, isPane, -, same⟩ := tabsAt_stored json id name among
    exact same ▸ within_ pane isPane
  · refine (placed_stored json id name).distinct.pairwise_of_forall_ne fun first isFirst second
      isSecond differs => ?_
    obtain ⟨pane, isPane, named, same⟩ := tabsAt_stored json id name isFirst
    obtain ⟨other, isOther, otherNamed, otherSame⟩ := tabsAt_stored json id name isSecond
    have panesDiffer : pane ≠ other := fun equal =>
      differs (named.symm.trans ((congrArg WsPane.id equal).trans otherNamed))
    have symmetric : Std.Symm
        (Function.onFun List.Disjoint fun pane : WsPane => pane.tabs.map WsTab.id) :=
      ⟨fun _ _ disjoint t first second => disjoint second first⟩
    have disjoint := apart.forall isPane isOther panesDiffer
    dsimp only [Function.onFun] at disjoint ⊢
    rwa [same, otherSame]

end Stored

/-- The ids of the tabs that can be read in a value. -/
def storedTabIds : Value → List Text
  | .map json => ((readable json).flatMap WsPane.tabs).map WsTab.id
  | _ => []

/-- A workspace is read from a map with an id and a name, and never throws. -/
theorem fromJson_cases (json : Value) (keep : WsTab → Bool) :
    (∃ entries id name, json = .map entries ∧
      (Value.field entries "id".toList).asString = some id ∧
      (Value.field entries "name".toList).asString = some name ∧
      ∃ after, fromJson json keep = some (some after) ∧
        Retains (stored entries id name) after keep (stored entries id name).order) ∨
      fromJson json keep = some none ∧ ∀ entries, json = .map entries →
        (Value.field entries "id".toList).asString = none ∨
          (Value.field entries "name".toList).asString = none := by
  unfold fromJson
  split
  next entries =>
    split
    next id name isId isName =>
      obtain ⟨after, retained, retains⟩ := retainTabs_spec (sound_stored entries id name) keep
      rw [retained]
      exact .inl ⟨entries, id, name, rfl, isId, isName, after, rfl, retains⟩
    next unreadable =>
      refine .inr ⟨rfl, fun other same => ?_⟩
      cases same
      cases isId : (Value.field entries "id".toList).asString with
      | none => exact .inl rfl
      | some id =>
          refine .inr (Option.eq_none_iff_forall_ne_some.mpr fun name isName => ?_)
          exact unreadable id name isId isName
  next notMap => exact .inr ⟨rfl, fun entries same => absurd same (notMap entries)⟩

end Workspace

end ServerBox.Workspaces
