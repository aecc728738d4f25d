import ServerBox.Workspaces.WorkspaceRestored

/-!
# What is read of any value

The panes that a stored layout places, told from the value alone, and which of them are read: of a
split that cannot be read the first half stays, unless it places nothing.
-/

namespace ServerBox.Workspaces

open ServerBox.Std

/-- The panes that a layout places, in reading order; true for those of the second half of a split
whose axis or ratio cannot be read and whose first half places one. -/
def placements : Value → List (Text × Bool)
  | .map json =>
      match Value.field json "split".toList with
      | .null => ((Value.field json "leaf".toList).asString.map fun id => (id, false)).toList
      | axis =>
          let a := placements (Value.field json "a".toList)
          let b := placements (Value.field json "b".toList)
          match WsAxis.byName axis, (Value.field json "ratio".toList).asNumber with
          | some _, some _ => a ++ b
          | _, _ => a ++ if a = [] then b else b.map fun placed => (placed.1, true)
  | _ => []
termination_by json => sizeOf json
decreasing_by all_goals exact Value.sizeOf_field_lt _ _

/-- The panes placed that are read. -/
def staying (json : Value) : List Text :=
  ((placements json).filter fun placed => ¬placed.2).map Prod.fst

/-- A layout that a value draws, without some of its panes: a split as it is stored, or one of its
halves in the space of both. -/
inductive Draws : Value → WsNode Text → Prop where
  | leaf {json id} (noSplit : Value.field json "split".toList = .null)
      (isLeaf : (Value.field json "leaf".toList).asString = some id) :
      Draws (.map json) (.leaf id)
  | split {json axis ratio a b}
      (isAxis : WsAxis.byName (Value.field json "split".toList) = some axis)
      (isRatio : (Value.field json "ratio".toList).asNumber = some ratio)
      (first : Draws (Value.field json "a".toList) a)
      (second : Draws (Value.field json "b".toList) b) :
      Draws (.map json) (.split axis (clampRatio ratio) a b)
  | first {json a} (isSplit : Value.field json "split".toList ≠ .null)
      (first : Draws (Value.field json "a".toList) a) : Draws (.map json) a
  | second {json b} (isSplit : Value.field json "split".toList ≠ .null)
      (second : Draws (Value.field json "b".toList) b) : Draws (.map json) b

theorem Draws.closesUp {json : Value} {root last : WsNode Text} (draws : Draws json root)
    (closes : root.ClosesUp last) : Draws json last := by
  induction draws generalizing last with
  | leaf noSplit isLeaf =>
      cases closes
      exact .leaf noSplit isLeaf
  | split isAxis isRatio _ _ inFirst inSecond =>
      have isSplit : Value.field _ "split".toList ≠ .null := fun isNull => by
        rw [isNull] at isAxis
        cases isAxis
      cases closes with
      | split left_ right_ => exact .split isAxis isRatio (inFirst left_) (inSecond right_)
      | withoutFirst right_ => exact .second isSplit (inSecond right_)
      | withoutSecond left_ => exact .first isSplit (inFirst left_)
  | first isSplit _ inFirst => exact .first isSplit (inFirst closes)
  | second isSplit _ inSecond => exact .second isSplit (inSecond closes)

/-- The layout read is drawn by the value. -/
theorem draws_fromJson (json : Value) (root : WsNode Text)
    (read : WsNode.fromJson Value.asString json = some root) : Draws json root := by
  fun_induction WsNode.fromJson Value.asString json generalizing root with
  | case1 json noSplit =>
      obtain ⟨id, isLeaf, rfl⟩ := Option.map_eq_some_iff.mp read
      exact .leaf noSplit isLeaf
  | case2 json a b axis ratio isRatio isSplit isAxis first second =>
      cases isA : a with
      | none =>
          rw [isA] at read
          exact .second isSplit (second root read)
      | some left_ =>
          rw [isA] at read
          cases isB : b with
          | none =>
              rw [isB] at read
              exact .first isSplit (first root (isA.trans read))
          | some right_ =>
              rw [isB] at read
              cases read
              exact .split isAxis isRatio (first left_ isA) (second right_ isB)
  | case3 json a b isSplit unreadable first second =>
      rcases Option.or_eq_some_iff.mp read with isFirst | ⟨-, isSecond⟩
      · exact .first isSplit (first root isFirst)
      · exact .second isSplit (second root isSecond)
  | case4 json notMap => cases read

section Placements

variable {json : List (Text × Value)}

theorem placements_leaf (noSplit : Value.field json "split".toList = .null) :
    placements (.map json) =
      ((Value.field json "leaf".toList).asString.map fun id => (id, false)).toList := by
  rw [placements, noSplit]

theorem placements_split {axis : WsAxis} {ratio : F64}
    (isAxis : WsAxis.byName (Value.field json "split".toList) = some axis)
    (isRatio : (Value.field json "ratio".toList).asNumber = some ratio) :
    placements (.map json) =
      placements (Value.field json "a".toList) ++ placements (Value.field json "b".toList) := by
  rw [placements]
  split
  next isNull =>
    rw [isNull] at isAxis
    cases isAxis
  next => rw [isAxis, isRatio]

/-- Of a split that cannot be read the second half is marked, where the first places a pane. -/
theorem placements_unreadable (isSplit : Value.field json "split".toList ≠ .null)
    (unreadable : ∀ axis ratio, WsAxis.byName (Value.field json "split".toList) = some axis →
      (Value.field json "ratio".toList).asNumber = some ratio → False) :
    placements (.map json) = placements (Value.field json "a".toList) ++
      if placements (Value.field json "a".toList) = [] then
        placements (Value.field json "b".toList)
      else (placements (Value.field json "b".toList)).map fun placed => (placed.1, true) := by
  rw [placements]
  split
  next isNull => exact absurd isNull isSplit
  next =>
    split
    next isAxis isRatio => exact (unreadable _ _ isAxis isRatio).elim
    next => rfl

end Placements

/-- The leaves read are the panes placed but for those marked; where none is read, none is
placed. -/
theorem leavesOf_fromJson (json : Value) :
    WsNode.leavesOf (WsNode.fromJson Value.asString json) = staying json ∧
      (WsNode.fromJson Value.asString json = none → placements json = []) := by
  unfold staying
  fun_induction WsNode.fromJson Value.asString json with
  | case1 json noSplit =>
      rw [placements_leaf noSplit]
      cases (Value.field json "leaf".toList).asString with
      | none => exact ⟨rfl, fun _ => rfl⟩
      | some id => exact ⟨rfl, fun none_ => by cases none_⟩
  | case2 json a b axis ratio isRatio isSplit isAxis first second =>
      rw [placements_split isAxis isRatio, WsNode.leavesOf_join, first.1, second.1,
        List.filter_append, List.map_append]
      refine ⟨rfl, fun none_ => ?_⟩
      have gone := WsNode.leavesOf_eq_nil_iff.mpr none_
      rw [WsNode.leavesOf_join, List.append_eq_nil_iff] at gone
      rw [first.2 (WsNode.leavesOf_eq_nil_iff.mp gone.1),
        second.2 (WsNode.leavesOf_eq_nil_iff.mp gone.2)]
      rfl
  | case3 json a b isSplit unreadable first second =>
      rw [placements_unreadable isSplit unreadable]
      cases isA : a with
      | some left_ =>
          have placesOne : placements (Value.field json "a".toList) ≠ [] := fun none_ => by
            have noLeaves := first.1
            rw [none_] at noLeaves
            exact WsNode.leaves_ne_nil left_ ((congrArg WsNode.leavesOf isA).symm.trans noLeaves)
          have marked : ((placements (Value.field json "b".toList)).map
              fun placed => (placed.1, true)).filter (fun placed => ¬placed.2) = [] :=
            List.filter_eq_nil_iff.mpr fun placed among => by
              obtain ⟨other, -, rfl⟩ := List.mem_map.mp among
              simp
          rw [if_neg placesOne, List.filter_append, marked, List.append_nil, ← first.1]
          exact ⟨(congrArg WsNode.leavesOf isA).symm, fun none_ => by cases none_⟩
      | none =>
          rw [first.2 isA, if_pos rfl, List.nil_append]
          exact second
  | case4 json notMap =>
      have nothing : placements json = [] := by
        unfold placements
        split
        next entries => exact absurd rfl (notMap entries)
        next => rfl
      rw [nothing]
      exact ⟨rfl, fun _ => rfl⟩

namespace Workspace

/-- The layout that a value stores. -/
def layout (json : List (Text × Value)) : Value := Value.field json "root".toList

/-- The tabs of a pane that can be read and are kept. -/
def keptTabs (json : List (Text × Value)) (keep : WsTab → Bool) (id : Text) : List WsTab :=
  ((((readable json).find? fun pane => pane.id = id).map WsPane.tabs).getD []).filter keep

/-- A value has an id and a name. -/
def Named (json : List (Text × Value)) : Prop :=
  (Value.field json "id".toList).asString.isSome = true ∧
    (Value.field json "name".toList).asString.isSome = true

/-- A workspace has the tabs kept of the panes that a layout places, and no other pane. -/
structure Holds (json : List (Text × Value)) (keep : WsTab → Bool) (ws : Workspace) : Prop where
  placed : ws.Placed
  /-- Each pane once, in the order of the layout. -/
  order : ws.order.Sublist ((placements (layout json)).map Prod.fst)
  panes : ∀ id, id ∈ ws.order ↔
    id ∈ (placements (layout json)).map Prod.fst ∧ keptTabs json keep id ≠ []
  tabs : ∀ id ∈ ws.order, ws.tabsAt id = keptTabs json keep id
  draws : ∀ root, ws.root = some root → Draws (layout json) root

/-- A value is read to none where it has no id or no name, and else to a workspace that holds what
it stores. -/
def ReadsWhole (json : Value) (keep : WsTab → Bool) : Prop :=
  (fromJson json keep = some none ∧ ∀ entries, json = .map entries → ¬Named entries) ∨
    ∃ entries ws, json = .map entries ∧ fromJson json keep = some (some ws) ∧
      Holds entries keep ws

/-- Each pane with tabs kept that the second half of a split that cannot be read places, when its
first half places one, is placed outside such halves too. -/
def Unharmed (json : Value) (keep : WsTab → Bool) : Prop :=
  ∀ entries, json = .map entries → Named entries → ∀ id, (id, true) ∈ placements (layout entries) →
    keptTabs entries keep id ≠ [] → (id, false) ∈ placements (layout entries)

section Read

variable {json : List (Text × Value)} {keep : WsTab → Bool} {id name : Text} {after : Workspace}

theorem mem_staying {json : Value} {id : Text} :
    id ∈ staying json ↔ (id, false) ∈ placements json := by
  simp [staying]

theorem mem_order_stored {paneId : Text} :
    paneId ∈ (stored json id name).order ↔ (paneId, false) ∈ placements (layout json) ∧
      ((readable json).find? fun pane => pane.id = paneId).isSome = true := by
  rw [order_stored, List.mem_filter, mem_firsts, readRoot, (leavesOf_fromJson _).1, mem_staying]
  simp [layout]

theorem tabsAt_stored_filter {paneId : Text} (among : paneId ∈ (stored json id name).order) :
    ((stored json id name).tabsAt paneId).filter keep = keptTabs json keep paneId := by
  rw [Workspace.tabsAt, lookup_stored, if_pos among, keptTabs]

section

variable (retains : Retains (stored json id name) after keep (stored json id name).order)
include retains

/-- The panes read are those with tabs kept that the layout places outside the halves dropped. -/
theorem mem_order_read (paneId : Text) : paneId ∈ after.order ↔
    (paneId, false) ∈ placements (layout json) ∧ keptTabs json keep paneId ≠ [] := by
  have isPlaced := placed_stored json id name
  have isTabs := retains.tabsAt isPlaced paneId
  constructor
  · intro among
    have before := retains.order.mem among
    have notEmpty := retains.sound.tabsAt_ne_nil among
    rw [isTabs, tabsAt_stored_filter before] at notEmpty
    exact ⟨(mem_order_stored.mp before).1, notEmpty⟩
  · rintro ⟨placed, notEmpty⟩
    have before : paneId ∈ (stored json id name).order := by
      refine mem_order_stored.mpr ⟨placed, ?_⟩
      by_contra missing
      rw [Option.not_isSome_iff_eq_none] at missing
      rw [keptTabs, missing] at notEmpty
      exact notEmpty rfl
    by_contra gone
    have noTabs := retains.sound.tabsAt_eq_nil gone
    rw [isTabs, tabsAt_stored_filter before] at noTabs
    exact notEmpty noTabs

theorem order_read : after.order.Sublist ((placements (layout json)).map Prod.fst) := by
  refine retains.order.trans ?_
  rw [order_stored, readRoot, (leavesOf_fromJson _).1]
  refine (List.filter_sublist.trans (firsts_sublist [] _)).trans ?_
  exact List.filter_sublist.map Prod.fst

theorem draws_read (root : WsNode Text) (isRoot : after.root = some root) :
    Draws (layout json) root := by
  obtain ⟨first, isFirst, closes⟩ :=
    ((closes_stored json id name).trans retains.closes) root isRoot
  exact (draws_fromJson (layout json) first isFirst).closesUp closes

end

end Read

/-- A value is read whole exactly where no pane is lost with half of a split. -/
theorem readsWhole_iff (json : Value) (keep : WsTab → Bool) :
    ReadsWhole json keep ↔ Unharmed json keep := by
  obtain ⟨entries, id, name, rfl, isId, isName, after, read, retains⟩ | ⟨notRead, unnamed⟩ :=
    fromJson_cases json keep
  · have named : Named entries := ⟨Option.isSome_of_eq_some isId, Option.isSome_of_eq_some isName⟩
    have isOrder := mem_order_read retains
    constructor
    · rintro (⟨-, unnamed⟩ | ⟨other, ws, same, isWs, holds⟩)
      · exact absurd named (unnamed entries rfl)
      · intro last isLast _ paneId dropped kept
        cases isLast
        cases same
        cases Option.some.inj (Option.some.inj (read.symm.trans isWs))
        have among : paneId ∈ after.order :=
          (holds.panes paneId).mpr ⟨List.mem_map_of_mem dropped, kept⟩
        exact ((isOrder paneId).mp among).1
    · intro unharmed
      refine .inr ⟨entries, after, rfl, read, retains.sound.toPlaced, order_read retains,
        fun paneId => ?_, fun paneId among => ?_, draws_read retains⟩
      · rw [isOrder]
        refine and_congr_left fun kept => ⟨fun stays => List.mem_map_of_mem stays, fun placed => ?_⟩
        obtain ⟨⟨_, dropped⟩, isPlaced, rfl⟩ := List.mem_map.mp placed
        cases dropped with
        | false => exact isPlaced
        | true => exact unharmed entries rfl named _ isPlaced kept
      · rw [retains.tabsAt (placed_stored entries id name),
          tabsAt_stored_filter (retains.order.mem among)]
  · refine iff_of_true (.inl ⟨notRead, fun entries same named => ?_⟩) fun entries same named => ?_
    · rcases unnamed entries same with missing | missing
      · exact Option.some_ne_none _ ((Option.some_get named.1).trans missing)
      · exact Option.some_ne_none _ ((Option.some_get named.2).trans missing)
    · rcases unnamed entries same with missing | missing
      · exact absurd ((Option.some_get named.1).trans missing) (Option.some_ne_none _)
      · exact absurd ((Option.some_get named.2).trans missing) (Option.some_ne_none _)

end Workspace

end ServerBox.Workspaces
