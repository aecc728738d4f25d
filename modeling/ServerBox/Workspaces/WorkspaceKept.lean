import ServerBox.Workspaces.Workspace

/-!
# What the operations of a workspace keep

The tree, the panes and the ids into them stay in agreement, whatever the tabs; and for each
operation, which tabs each pane has after it.
-/

namespace ServerBox.Workspaces.Workspace

open ServerBox.Std

/-- The tabs of a pane, none where there is no such pane. -/
def tabsAt (ws : Workspace) (id : Text) : List WsTab :=
  ((ws.panes.lookup id).map WsPane.tabs).getD []

/-- The tabs in reading order. -/
def tabs (ws : Workspace) : List WsTab := ws.order.flatMap ws.tabsAt

/-- The leaves of the tree are the panes, each once and under its own id. -/
structure Placed (ws : Workspace) : Prop where
  distinct : ws.order.Nodup
  placed : ∀ id, id ∈ ws.order ↔ (ws.panes.lookup id).isSome = true
  named : ∀ id pane, ws.panes.lookup id = some pane → pane.id = id

/-- The ids of panes that a workspace holds are those of panes there are. -/
structure Pointed (order : List Text) (focusId prevId maxId : Option Text) : Prop where
  focus : ∀ id, focusId = some id → id ∈ order
  focused : focusId = none → order = []
  prev : ∀ id, prevId = some id → id ∈ order
  /-- Of two panes, there is one that was focused before. -/
  another : prevId = none → order.length < 2
  max : ∀ id, maxId = some id → id ∈ order

structure Sound (ws : Workspace) : Prop extends Placed ws where
  active : ∀ id pane, ws.panes.lookup id = some pane → pane.activeId ∈ pane.tabs.map WsTab.id
  pointed : Pointed ws.order ws.focusId ws.prevId ws.maxId
  bounded : ∀ root, ws.root = some root → root.Bounded
  narrow : InBounds ws.narrowRatio

/-- A previous pane that is none only where every pane has the focus. -/
theorem Pointed.of_prev {order : List Text} {focusId prevId maxId : Option Text}
    (distinct : order.Nodup) (focus : ∀ id, focusId = some id → id ∈ order)
    (focused : focusId = none → order = []) (prev : ∀ id, prevId = some id → id ∈ order)
    (alone : prevId = none → ∀ id ∈ order, some id = focusId)
    (max : ∀ id, maxId = some id → id ∈ order) : Pointed order focusId prevId maxId where
  focus
  focused
  prev
  another none_ := by
    match order, alone none_, distinct with
    | [], _, _ => exact Nat.two_pos
    | [_], _, _ => exact Nat.one_lt_two
    | first :: second :: rest, same, distinct =>
        have equal : some first = some second :=
          (same first List.mem_cons_self).trans
            (same second (List.mem_cons_of_mem _ List.mem_cons_self)).symm
        have apart := (List.nodup_cons.mp distinct).1
        exact absurd (Option.some.inj equal ▸ List.mem_cons_self) apart
  max

variable {ws : Workspace}

theorem Placed.mem_order {id : Text} {pane : WsPane} (isPlaced : ws.Placed)
    (held : ws.panes.lookup id = some pane) : id ∈ ws.order :=
  (isPlaced.placed id).mpr (Option.isSome_of_eq_some held)

theorem Placed.exists_pane {id : Text} (isPlaced : ws.Placed) (among : id ∈ ws.order) :
    ∃ pane, ws.panes.lookup id = some pane :=
  Option.isSome_iff_exists.mp ((isPlaced.placed id).mp among)

theorem tabsAt_of_lookup {id : Text} {pane : WsPane} (held : ws.panes.lookup id = some pane) :
    ws.tabsAt id = pane.tabs := by
  rw [tabsAt, held]
  rfl

theorem tabsAt_congr {other : Workspace} {id : Text}
    (same : ws.panes.lookup id = other.panes.lookup id) : ws.tabsAt id = other.tabsAt id := by
  rw [tabsAt, same]
  rfl

theorem Placed.tabsAt_eq_nil {id : Text} (isPlaced : ws.Placed) (absent : id ∉ ws.order) :
    ws.tabsAt id = [] := by
  have missing : ws.panes.lookup id = none := by
    rw [← Option.not_isSome_iff_eq_none, ← isPlaced.placed]
    exact absent
  rw [tabsAt, missing]
  rfl

theorem Sound.tabsAt_ne_nil {id : Text} (sound : ws.Sound) (among : id ∈ ws.order) :
    ws.tabsAt id ≠ [] := by
  obtain ⟨pane, held⟩ := sound.exists_pane among
  have active := sound.active id pane held
  rw [tabsAt_of_lookup held]
  exact fun none_ => List.not_mem_nil (by rwa [none_, List.map_nil] at active)

/-- An empty workspace. -/
theorem Sound.empty (id name : Text) : Sound { id, name } where
  distinct := List.nodup_nil
  placed := by simp [order, WsNode.leavesOf]
  named := by simp
  active := by simp
  pointed := ⟨nofun, fun _ => rfl, nofun, fun _ => Nat.two_pos, nofun⟩
  bounded := by simp
  narrow := (by decide : InBounds narrowDefault)

/-! ### Focus -/

@[simp] theorem order_focus (id : Text) : (ws.focus id).order = ws.order := by
  unfold focus
  split <;> rfl

@[simp] theorem panes_focus (id : Text) : (ws.focus id).panes = ws.panes := by
  unfold focus
  split <;> rfl

@[simp] theorem tabsAt_focus (id : Text) : (ws.focus id).tabsAt = ws.tabsAt := by
  funext pane
  rw [tabsAt, panes_focus]
  rfl

@[simp] theorem tabs_focus (id : Text) : (ws.focus id).tabs = ws.tabs := by
  rw [tabs, tabs, order_focus, tabsAt_focus]

theorem Sound.focus (sound : ws.Sound) (id : Text) : (ws.focus id).Sound := by
  unfold Workspace.focus
  split
  next => exact sound
  next changes =>
    rw [not_or, Bool.not_eq_true, Option.isNone_eq_false_iff, ← sound.placed] at changes
    have pointed := sound.pointed
    exact { sound with
      pointed :=
        { pointed with
          focus := fun _ isFocus => Option.some.inj isFocus ▸ changes.2
          focused := fun none_ => by cases none_
          prev := pointed.focus
          another := fun none_ => by
            change ws.order.length < 2
            rw [pointed.focused none_]
            exact Nat.two_pos } }

/-! ### A pane changed -/

theorem lookup_withPane (pane : WsPane) (id : Text) :
    (ws.withPane pane).panes.lookup id =
      if id = pane.id then some pane else ws.panes.lookup id :=
  LinkedMap.lookup_put _ _ _ _

@[simp] theorem order_withPane (pane : WsPane) : (ws.withPane pane).order = ws.order := rfl

theorem tabsAt_withPane (pane : WsPane) (id : Text) :
    (ws.withPane pane).tabsAt id = if id = pane.id then pane.tabs else ws.tabsAt id := by
  rw [tabsAt, lookup_withPane]
  split <;> rfl

theorem Placed.withPane {pane : WsPane} (isPlaced : ws.Placed) (among : pane.id ∈ ws.order) :
    (ws.withPane pane).Placed where
  distinct := isPlaced.distinct
  placed id := by
    rw [order_withPane, lookup_withPane]
    split
    next same => exact iff_of_true (same ▸ among) rfl
    next => exact isPlaced.placed id
  named id other held := by
    rw [lookup_withPane] at held
    split at held
    next same => exact Option.some.inj held ▸ same.symm
    next => exact isPlaced.named id other held

theorem Sound.withPane {pane : WsPane} (sound : ws.Sound) (among : pane.id ∈ ws.order)
    (active : pane.activeId ∈ pane.tabs.map WsTab.id) : (ws.withPane pane).Sound := {
  sound.toPlaced.withPane among with
  pointed := sound.pointed
  bounded := sound.bounded
  narrow := sound.narrow
  active := fun id other held => by
    rw [lookup_withPane] at held
    split at held
    next => exact Option.some.inj held ▸ active
    next => exact sound.active id other held }

/-! ### A pane gone -/

theorem order_removePane (isPlaced : ws.Placed) (paneId : Text) :
    (ws.removePane paneId).order = ws.order.filter fun id => id ≠ paneId := by
  unfold removePane
  split
  next missing =>
    rw [Option.isNone_iff_eq_none] at missing
    refine (List.filter_eq_self.mpr fun id among => decide_eq_true ?_).symm
    rintro rfl
    obtain ⟨pane, held⟩ := isPlaced.exists_pane among
    rw [missing] at held
    cases held
  next => exact WsNode.leavesOf_bind_removeLeaf paneId ws.root

theorem lookup_removePane (paneId id : Text) :
    (ws.removePane paneId).panes.lookup id = if id = paneId then none else ws.panes.lookup id := by
  unfold removePane
  split
  next missing =>
    split
    next same => rw [same, Option.isNone_iff_eq_none.mp missing]
    next => rfl
  next => exact LinkedMap.lookup_remove _ _ _

theorem tabsAt_removePane (paneId id : Text) :
    (ws.removePane paneId).tabsAt id = if id = paneId then [] else ws.tabsAt id := by
  rw [tabsAt, lookup_removePane]
  split <;> rfl

theorem Placed.removePane (isPlaced : ws.Placed) (paneId : Text) :
    (ws.removePane paneId).Placed where
  distinct := by
    rw [order_removePane isPlaced]
    exact isPlaced.distinct.filter _
  placed id := by
    rw [order_removePane isPlaced, lookup_removePane, List.mem_filter, decide_eq_true_eq,
      isPlaced.placed]
    split
    next same => simp [same]
    next differs => simp [differs]
  named id pane held := by
    rw [lookup_removePane] at held
    split at held
    next => cases held
    next => exact isPlaced.named id pane held

/-- The focus falls on a pane that is left. -/
theorem focusWithout_spec (ws : Workspace) (paneId : Text) (order : List Text) :
    (∀ id, ws.focusWithout paneId order = some id → id ∈ order) ∧
      (ws.focusWithout paneId order = none → order = []) := by
  unfold focusWithout
  split
  next stays =>
    obtain ⟨id, among, isFocus⟩ := stays
    rw [isFocus]
    exact ⟨fun other same => Option.some.inj same ▸ among, nofun⟩
  next =>
    split
    next none_ => exact ⟨nofun, fun _ => none_⟩
    next notEmpty =>
      split
      next stays =>
        obtain ⟨id, among, isPrev⟩ := stays
        rw [isPrev]
        exact ⟨fun other same => Option.some.inj same ▸ among, nofun⟩
      next =>
        refine ⟨fun id found => List.mem_of_getElem? found, fun outside_ => ?_⟩
        have beyond := List.getElem?_eq_none_iff.mp outside_
        exact List.length_eq_zero_iff.mp (by omega)

theorem Sound.removePane (sound : ws.Sound) (paneId : Text) : (ws.removePane paneId).Sound := {
  sound.toPlaced.removePane paneId with
  active := fun id pane held => by
    rw [lookup_removePane] at held
    split at held
    next => cases held
    next => exact sound.active id pane held
  pointed := by
    have isPlaced := sound.toPlaced.removePane paneId
    have distinct := isPlaced.distinct
    have kept := order_removePane sound.toPlaced paneId
    revert distinct kept
    unfold Workspace.removePane
    split
    next => exact fun _ _ => sound.pointed
    next =>
      rw [order]
      dsimp only
      generalize WsNode.leavesOf (ws.root.bind (WsNode.removeLeaf paneId)) = order
      intro distinct kept
      obtain ⟨focus, focused⟩ := focusWithout_spec ws paneId order
      refine .of_prev distinct focus focused (fun id isPrev => ?_) (fun none_ id among => ?_)
        fun id isMax => ?_
      · split at isPrev
        next stays =>
          obtain ⟨⟨other, among, same⟩, -⟩ := stays
          exact Option.some.inj (same.symm.trans isPrev) ▸ among
        next => exact List.mem_of_find?_eq_some isPrev
      · split at none_
        next stays =>
          obtain ⟨⟨other, _, same⟩, -⟩ := stays
          cases same.symm.trans none_
        next =>
          by_contra differs
          exact List.find?_eq_none.mp none_ id among (decide_eq_true differs)
      · split at isMax
        next => cases isMax
        next differs =>
          rw [kept, List.mem_filter, decide_eq_true_eq]
          exact ⟨sound.pointed.max id isMax, fun same => differs (same ▸ isMax)⟩
  bounded := fun root isRoot => by
    unfold Workspace.removePane at isRoot
    split at isRoot
    next => exact sound.bounded root isRoot
    next =>
      obtain ⟨before, isBefore, removed⟩ := Option.bind_eq_some_iff.mp isRoot
      exact (WsNode.ClosesUp.removeLeaf removed).bounded (sound.bounded before isBefore)
  narrow := by
    unfold Workspace.removePane
    split <;> exact sound.narrow }

/-! ### A pane split -/

/-- A pane and the new one where the pane was. -/
def besides (target added : Text) (before : Bool) (id : Text) : List Text :=
  if id = target then (if before then [added, target] else [target, added]) else [id]

theorem leaves_splitLeaf (target : Text) (axis : WsAxis) (added : Text) (before : Bool)
    (node : WsNode Text) :
    (node.splitLeaf target axis added before).leaves =
      node.leaves.flatMap (besides target added before) := by
  rw [WsNode.splitLeaf, WsNode.leaves_replaceLeaf]
  congr 1
  funext id
  unfold besides
  cases before <;> rfl

theorem filter_besides {order : List Text} {target added : Text} (before : Bool)
    (fresh : added ∉ order) (among : target ∈ order) :
    (order.flatMap (besides target added before)).filter (fun id => id ≠ added) = order := by
  have differs : target ≠ added := fun same => fresh (same ▸ among)
  rw [List.filter_flatMap]
  refine (List.flatMap_congr fun id held => ?_).trans (List.flatMap_singleton' order)
  have other : id ≠ added := fun same => fresh (same ▸ held)
  unfold besides
  split
  next same => cases before <;> simp [differs, same]
  next => simp [other]

theorem perm_besides {order : List Text} {target : Text} (added : Text) (before : Bool)
    (distinct : order.Nodup) (among : target ∈ order) :
    (order.flatMap (besides target added before)).Perm (added :: order) := by
  obtain ⟨front, back, rfl⟩ := List.append_of_mem among
  obtain ⟨-, backDistinct, apart⟩ := List.nodup_append.mp distinct
  have unmoved : ∀ ids : List Text, target ∉ ids →
      ids.flatMap (besides target added before) = ids := fun ids absent =>
    (List.flatMap_congr fun id held => if_neg fun same : id = target => absent (same ▸ held)).trans
      (List.flatMap_singleton' ids)
  have inFront : target ∉ front := fun held => apart target held target List.mem_cons_self rfl
  have inBack : target ∉ back := (List.nodup_cons.mp backDistinct).1
  rw [List.flatMap_append, List.flatMap_cons, unmoved front inFront, unmoved back inBack]
  have here : (besides target added before target).Perm [added, target] := by
    rw [besides, if_pos rfl]
    cases before
    · exact List.Perm.swap added target []
    · exact .refl _
  exact ((here.append_right back).append_left front).trans List.perm_middle

section Split

variable {paneId newPaneId : Text} (axis : WsAxis) (tab : WsTab) (before : Bool)

/-- What `split` makes where there is such a pane. -/
theorem split_of_mem (sound : ws.Sound) (among : paneId ∈ ws.order)
    (fresh : newPaneId ∉ ws.order) :
    ∃ root, ws.root = some root ∧
      ws.split paneId axis tab newPaneId before =
        { ws with
          root := some (root.splitLeaf paneId axis newPaneId before)
          panes := ws.panes.put newPaneId ⟨newPaneId, [tab], tab.id⟩
          focusId := some newPaneId
          prevId := ws.focusId
          maxId := none } := by
  obtain ⟨pane, held⟩ := sound.exists_pane among
  unfold split
  cases isRoot : ws.root with
  | none =>
      rw [order, isRoot] at among
      cases among
  | some root =>
      have unfocused : ws.focusId ≠ some newPaneId := fun isFocus =>
        fresh (sound.pointed.focus newPaneId isFocus)
      refine ⟨root, rfl, (if_neg (by simp [held])).trans ?_⟩
      rw [focus, if_neg]
      rw [not_or, LinkedMap.lookup_put, if_pos rfl]
      exact ⟨unfocused, by simp⟩

theorem split_of_not_mem (isPlaced : ws.Placed) (absent : paneId ∉ ws.order) :
    ws.split paneId axis tab newPaneId before = ws := by
  have missing : (ws.panes.lookup paneId).isNone = true := by
    rw [isPlaced.placed] at absent
    simpa using absent
  unfold split
  split
  next => rfl
  next => exact if_pos missing

section

variable (sound : ws.Sound) (among : paneId ∈ ws.order) (fresh : newPaneId ∉ ws.order)
include sound among fresh

theorem order_split :
    (ws.split paneId axis tab newPaneId before).order =
      ws.order.flatMap (besides paneId newPaneId before) := by
  obtain ⟨root, isRoot, splits⟩ := split_of_mem axis tab before sound among fresh
  rw [splits, order, order, isRoot]
  exact leaves_splitLeaf _ _ _ _ _

theorem lookup_split (id : Text) :
    (ws.split paneId axis tab newPaneId before).panes.lookup id =
      if id = newPaneId then some ⟨newPaneId, [tab], tab.id⟩ else ws.panes.lookup id := by
  obtain ⟨root, isRoot, splits⟩ := split_of_mem axis tab before sound among fresh
  rw [splits]
  exact LinkedMap.lookup_put _ _ _ _

theorem tabsAt_split (id : Text) :
    (ws.split paneId axis tab newPaneId before).tabsAt id =
      if id = newPaneId then [tab] else ws.tabsAt id := by
  rw [tabsAt, lookup_split axis tab before sound among fresh]
  split <;> rfl

theorem perm_order_split :
    (ws.split paneId axis tab newPaneId before).order.Perm (newPaneId :: ws.order) := by
  rw [order_split axis tab before sound among fresh]
  exact perm_besides newPaneId before sound.distinct among

end

theorem Sound.split (sound : ws.Sound) (paneId : Text) (fresh : newPaneId ∉ ws.order) :
    (ws.split paneId axis tab newPaneId before).Sound := by
  by_cases among : paneId ∈ ws.order
  · have perm := perm_order_split axis tab before sound among fresh
    have lookup := lookup_split axis tab before sound among fresh
    obtain ⟨root, isRoot, splits⟩ := split_of_mem axis tab before sound among fresh
    have inOrder : ∀ id ∈ ws.order, id ∈ (ws.split paneId axis tab newPaneId before).order :=
      fun id held => perm.mem_iff.mpr (List.mem_cons_of_mem _ held)
    exact {
      distinct := perm.nodup_iff.mpr (List.nodup_cons.mpr ⟨fresh, sound.distinct⟩)
      placed := fun id => by
        rw [perm.mem_iff, List.mem_cons, lookup]
        split
        next same => exact iff_of_true (.inl same) rfl
        next differs => rw [or_iff_right differs, sound.placed]
      named := fun id pane held => by
        rw [lookup] at held
        split at held
        next same => exact Option.some.inj held ▸ same.symm
        next => exact sound.named id pane held
      active := fun id pane held => by
        rw [lookup] at held
        split at held
        next same => exact Option.some.inj held ▸ List.mem_cons_self
        next => exact sound.active id pane held
      pointed := by
        rw [splits] at inOrder perm ⊢
        exact {
          focus := fun id isFocus =>
            Option.some.inj isFocus ▸ perm.mem_iff.mpr List.mem_cons_self
          focused := fun none_ => by cases none_
          prev := fun id isPrev => inOrder id (sound.pointed.focus id isPrev)
          another := fun none_ => absurd (sound.pointed.focused none_ ▸ among) List.not_mem_nil
          max := fun _ isMax => by cases isMax }
      bounded := fun after isAfter => by
        rw [splits] at isAfter
        cases isAfter
        exact (sound.bounded root isRoot).replaceLeaf ⟨inBounds_even, trivial, trivial⟩
      narrow := by
        rw [splits]
        exact sound.narrow }
  · rwa [split_of_not_mem axis tab before sound.toPlaced among]

end Split

end ServerBox.Workspaces.Workspace
