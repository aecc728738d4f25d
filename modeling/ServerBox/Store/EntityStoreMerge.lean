import Mathlib.Data.Int.Order.Basic
import ServerBox.Std.LastWriter
import ServerBox.Store.EntityStore

/-!
# What merging does to each id

What a store and a backup know of one id is a register: a value or a deletion, and
the time of it (`entry`). Within its bounds `merge` takes the backup's register
into the store's, id by id (`merge_entry`), with one exception: a deletion of an id
the store knows nothing of is not kept (`takeIn`).
-/

namespace ServerBox.Store

open ServerBox.Std LastWriter

variable {Value Body Name : Type} [DecidableEq Name]

/-- What is known of an id: a value and its links, or that it was deleted. -/
abbrev Entry (Value : Type) := Register Int (Option (Value × List RecordId))

/-- What a store knows of an id. -/
def EntityStore.entry (store : EntityStore Value) (id : RecordId) : Entry Value :=
  match store.rows.lookup id with
  | some row => some (row.updatedAt, some (row.value, row.links))
  | none => (store.tombstones.lookup id).map (·, none)

/-- The record a backup has for an id, when it can be read and written. -/
def Backup.item (kind : StoreKind Value Body Name) (backup : Backup Body) (id : RecordId) :
    Option (Item Value) :=
  (backup.records.lookup id).join.bind fun record =>
    (kind.fromJson record).filter fun item => !kind.refused item.value

/-- What a backup knows of an id. Only the servers' table has links. -/
def Backup.entry (kind : StoreKind Value Body Name) (backup : Backup Body) (id : RecordId) :
    Entry Value :=
  (backup.timestamps.lookup id).bind fun time =>
    if id ∈ backup.records then
      (backup.item kind id).map fun item =>
        (time, some (item.value, if kind.isServer then item.links else []))
    else some (time, none)

/-- The backup says that a record was deleted. -/
def Backup.Deletes (backup : Backup Body) (id : RecordId) : Prop :=
  id ∈ backup.timestamps ∧ id ∉ backup.records

instance (backup : Backup Body) (id : RecordId) : Decidable (backup.Deletes id) :=
  inferInstanceAs (Decidable (_ ∧ _))

/-- A backup as `getAllMap` writes one: each record under its own id, with the
time it was changed at. -/
structure Backup.OfStore (kind : StoreKind Value Body Name) (backup : Backup Body) : Prop where
  stamped : ∀ id ∈ backup.records, id ∈ backup.timestamps
  ownId : ∀ id record, some record ∈ backup.records.lookup id →
    record.id = some id ∧ ∀ item ∈ kind.fromJson record, item.id = id

/-- Two records, wherever they are, that are to have the same unique name are one. -/
def NamesApart (kind : StoreKind Value Body Name) (values : Set (RecordId × Value)) : Prop :=
  ∀ first ∈ values, ∀ second ∈ values, ∀ name ∈ kind.uniqueName first.2,
    kind.uniqueName second.2 = some name → first.1 = second.1

/-- The records of a store. -/
def EntityStore.values (store : EntityStore Value) : Set (RecordId × Value) :=
  {record | ∃ row ∈ store.rows.lookup record.1, row.value = record.2}

/-- The records of a backup. -/
def Backup.values (kind : StoreKind Value Body Name) (backup : Backup Body) :
    Set (RecordId × Value) :=
  {record | ∃ item ∈ backup.item kind record.1, item.value = record.2}

/-- The rows a store's links lead to. -/
def EntityStore.targets (store : EntityStore Value) : Set RecordId :=
  {target | ∃ id, ∃ row ∈ store.rows.lookup id, target ∈ row.links}

/-- The rows a backup's links lead to. -/
def Backup.targets (kind : StoreKind Value Body Name) (backup : Backup Body) : Set RecordId :=
  {target | ∃ id, ∃ item ∈ backup.item kind id, target ∈ item.links}

/-! ### The bounds -/

/-- A store whose records are among `values`, with its links inside `targets`. -/
structure EntityStore.Within (kind : StoreKind Value Body Name) (values : Set (RecordId × Value))
    (targets : Set RecordId) (store : EntityStore Value) : Prop where
  values : store.values ⊆ values
  links : kind.isServer → store.targets ⊆ targets

/-- A backup whose records are among `values`, with its links inside `targets`,
none of which it deletes. -/
structure Backup.Within (kind : StoreKind Value Body Name) (values : Set (RecordId × Value))
    (targets : Set RecordId) (backup : Backup Body) : Prop where
  values : backup.values kind ⊆ values
  links : kind.isServer → backup.targets kind ⊆ targets
  kept : kind.isServer → ∀ target ∈ targets, ¬ backup.Deletes target

/-- What a store knows of an id once it took in what a backup knows of it: a
deletion of what it never knew is passed over. -/
def takeIn : Entry Value → Entry Value → Entry Value
  | none, some (_, none) => none
  | held, incoming => newer held incoming

/-- Every row that a link of the backup leads to is there once the backup is
merged. -/
def EntityStore.Lands (kind : StoreKind Value Body Name) (store : EntityStore Value)
    (backup : Backup Body) : Prop :=
  kind.isServer → ∀ target ∈ backup.targets kind,
    ∃ time record, takeIn (store.entry target) (backup.entry kind target) = some (time, some record)

/-! ### Writes -/

namespace EntityStore

theorem lookup_updateRow (store : EntityStore Value) (id other : RecordId)
    (change : Row Value → Row Value) :
    (store.updateRow id change).rows.lookup other =
      if other = id then (store.rows.lookup id).map change else store.rows.lookup other := by
  have rows : (store.updateRow id change).rows = match store.rows.lookup id with
    | some row => store.rows.insert id (change row)
    | none => store.rows := rfl
  rw [rows]
  cases found : store.rows.lookup id with
  | none =>
      by_cases same : other = id
      · rw [if_pos same, same, found]
        rfl
      · rw [if_neg same]
  | some row =>
      by_cases same : other = id
      · rw [if_pos same, same, AList.lookup_insert]
        rfl
      · rw [if_neg same, AList.lookup_insert_ne same]

@[simp] theorem mem_updateRow {store : EntityStore Value} {id other : RecordId}
    {change : Row Value → Row Value} :
    other ∈ (store.updateRow id change).rows ↔ other ∈ store.rows := by
  rw [← AList.lookup_isSome, ← AList.lookup_isSome, lookup_updateRow]
  by_cases same : other = id
  · subst same
    simp
  · simp [same]

/-- Two stores know the same of each id when their entries agree. -/
theorem lookups_of_entry {first second : EntityStore Value} {id : RecordId}
    (equal : first.entry id = second.entry id) :
    first.rows.lookup id = second.rows.lookup id ∧
      first.tombstones.lookup id = second.tombstones.lookup id := by
  have cleared (store : EntityStore Value) (row : Row Value)
      (found : store.rows.lookup id = some row) : store.tombstones.lookup id = none := by
    rw [AList.lookup_eq_none]
    exact store.apart id (AList.lookup_isSome.mp (by simp [found]))
  unfold entry at equal
  cases firstRow : first.rows.lookup id with
  | none =>
      cases secondRow : second.rows.lookup id with
      | none =>
          rw [firstRow, secondRow] at equal
          refine ⟨rfl, ?_⟩
          exact Option.map_injective (fun one other same => (Prod.mk.inj same).1) equal
      | some row =>
          rw [firstRow, secondRow] at equal
          cases found : first.tombstones.lookup id <;> simp [found] at equal
  | some row =>
      cases secondRow : second.rows.lookup id with
      | none =>
          rw [firstRow, secondRow] at equal
          cases found : second.tombstones.lookup id <;> simp [found] at equal
      | some other =>
          rw [firstRow, secondRow] at equal
          refine ⟨?_, by rw [cleared first row firstRow, cleared second other secondRow]⟩
          cases row
          cases other
          simp_all

/-- The time of what a store knows of an id. -/
theorem lookup_timestamps (store : EntityStore Value) (id : RecordId) :
    store.timestamps.lookup id = (store.entry id).map Prod.fst := by
  unfold timestamps entry
  cases row : store.rows.lookup id with
  | none =>
      cases deleted : store.tombstones.lookup id with
      | none => 
          have absent : id ∉ store.tombstones := AList.lookup_eq_none.mp deleted
          rw [AList.lookup_union_right absent]
          simp [row]
      | some time =>
          have present : id ∈ store.tombstones := AList.lookup_isSome.mp (by simp [deleted])
          rw [AList.lookup_union_left present]
          simp [deleted]
  | some found =>
      have absent : id ∉ store.tombstones :=
        store.apart id (AList.lookup_isSome.mp (by simp [row]))
      rw [AList.lookup_union_right absent]
      simp [row]

/-! ### One id -/

/-- What `merge` does about an id. -/
inductive Outcome (Value : Type) where
  | keep
  | write (item : Item Value) (at_ : Int)
  | delete (at_ : Int)

/-- What `merge` does about an id that was changed here at `known`. -/
def outcome (kind : StoreKind Value Body Name) (backup : Backup Body) (id : RecordId)
    (known : Option Int) : Outcome Value :=
  match backup.timestamps.lookup id with
  | none => .keep
  | some time =>
      if known.any (time ≤ ·) then .keep
      else if id ∈ backup.records then
        match backup.item kind id with
        | none => .keep
        | some item => .write item time
      else if known.isSome then .delete time
      else .keep

/-- What is done, done. -/
def Outcome.apply (kind : StoreKind Value Body Name) (merging : Merging Value) (id : RecordId) :
    Outcome Value → Merging Value
  | .keep => merging
  | .write item at_ =>
      { merging with
        store := merging.store.put item at_
        written := merging.written ++ [item]
        appliedIds := merging.appliedIds ++ [item.id] }
  | .delete at_ =>
      { merging with
        store := mergeDelete kind merging.store id at_
        appliedIds := merging.appliedIds ++ [id] }

variable {kind : StoreKind Value Body Name} {values : Set (RecordId × Value)}
  {targets : Set RecordId} {backup : Backup Body}

omit [DecidableEq Name] in
theorem item_id (ofStore : backup.OfStore kind) {id : RecordId} {item : Item Value}
    (found : item ∈ backup.item kind id) : item.id = id := by
  unfold Backup.item at found
  obtain ⟨record, member, decoded⟩ := Option.bind_eq_some_iff.mp found
  have inRecords : some record ∈ backup.records.lookup id := Option.join_eq_some_iff.mp member
  exact (ofStore.ownId id record inRecords).2 item (Option.filter_eq_some_iff.mp decoded).1

/-- A record with a name of its own is refused for a foreign key only. -/
theorem refuses_eq (apart : NamesApart kind values) {store : EntityStore Value}
    (within : store.values ⊆ values) {item : Item Value} (own : (item.id, item.value) ∈ values) :
    refuses kind store item = kind.refused item.value := by
  cases named : kind.uniqueName item.value with
  | none => simp [refuses, named]
  | some name =>
      have noClash : (store.rows.entries.any fun entry =>
          entry.1 ≠ item.id && kind.uniqueName entry.2.value = some name) = false := by
        rw [List.any_eq_false]
        intro entry member
        have row : entry.2 ∈ store.rows.lookup entry.1 := AList.mem_lookup_iff.mpr member
        have inside : (entry.1, entry.2.value) ∈ values := within ⟨entry.2, row, rfl⟩
        simp only [Bool.and_eq_true, decide_eq_true_eq, not_and]
        intro other same
        exact other (apart _ inside _ own name same named)
      simp only [refuses, named, noClash, Bool.or_false]

/-- One round of `merge`'s loop. -/
theorem mergeId_eq (ofStore : backup.OfStore kind) (apart : NamesApart kind values)
    (backupWithin : backup.values kind ⊆ values) (now : Int) (current : Table RecordId Int)
    {merging : Merging Value} (within : merging.store.values ⊆ values) (id : RecordId) :
    mergeId kind false now backup current merging id =
      (outcome kind backup id (current.lookup id)).apply kind merging id := by
  have older (time : Int) : (current.lookup id).any (time ≤ ·) =
      ((current.lookup id).isSome && decide (time ≤ (current.lookup id).getD 0)) := by
    cases current.lookup id <;> rfl
  unfold mergeId outcome
  cases stamped : backup.timestamps.lookup id with
  | none =>
      have noRecord : backup.records.lookup id = none := by
        rw [AList.lookup_eq_none]
        intro member
        exact AList.lookup_eq_none.mp stamped (ofStore.stamped id member)
      simp [noRecord, Outcome.apply]
  | some time =>
      simp only [Option.getD_some, Bool.not_false, Bool.true_and, older]
      by_cases old : ((current.lookup id).isSome &&
          decide (time ≤ (current.lookup id).getD 0)) = true
      · simp only [if_pos old, Outcome.apply]
      · simp only [if_neg old]
        cases raw : backup.records.lookup id with
        | none =>
            have absent : id ∉ backup.records := AList.lookup_eq_none.mp raw
            simp only [if_neg absent, Option.isNone_some, Bool.or_false]
            cases (current.lookup id).isSome <;> rfl
        | some raw' =>
            have present : id ∈ backup.records := AList.lookup_isSome.mp (by simp [raw])
            simp only [if_pos present]
            cases raw' with
            | none =>
                have nothing : backup.item kind id = none := by simp [Backup.item, raw]
                simp only [nothing, mergeRecord, Outcome.apply]
            | some record =>
                obtain ⟨ownId, decodedId⟩ := ofStore.ownId id record raw
                have named : ({ record with id := some (record.id.getD id) } : RawRecord Body) =
                    record := by
                  cases record
                  simp_all
                have found : backup.item kind id =
                    (kind.fromJson record).filter fun item => !kind.refused item.value := by
                  simp [Backup.item, raw]
                simp only [mergeRecord, named, found]
                cases decoded : kind.fromJson record with
                | none => rfl
                | some item =>
                    have same : item.id = id := decodedId item decoded
                    simp only [ownId, Option.isNone_some, Bool.or_self, Bool.false_eq_true, if_false]
                    cases refused : kind.refused item.value with
                    | true => simp [refuses, refused, Option.filter, Outcome.apply]
                    | false =>
                        have kept : (some item).filter (fun item => !kind.refused item.value) =
                            some item := by
                          simp [Option.filter, refused]
                        have own : (item.id, item.value) ∈ values := by
                          refine backupWithin ⟨item, ?_, rfl⟩
                          rw [same, found, decoded, kept]
                          rfl
                        rw [refuses_eq apart within own, refused, kept]
                        rfl

/-- What is done about an id is what takes the backup's entry in. -/
inductive Outcome.Fits (kind : StoreKind Value Body Name) (backup : Backup Body) (id : RecordId) :
    Outcome Value → Entry Value → Prop where
  | keep (held : Entry Value) : Fits kind backup id .keep held
  | write {item : Item Value} {at_ : Int} : item ∈ backup.item kind id →
      Fits kind backup id (.write item at_)
        (some (at_, some (item.value, if kind.isServer then item.links else [])))
  | delete {at_ : Int} : backup.Deletes id → Fits kind backup id (.delete at_) (some (at_, none))

omit [DecidableEq Name] in
theorem takeIn_some (held : Int × Option (Value × List RecordId)) (incoming : Entry Value) :
    takeIn (some held) incoming = newer (some held) incoming := by
  cases incoming <;> rfl

variable (kind backup) in
omit [DecidableEq Name] in
theorem outcome_fits (id : RecordId) (held : Entry Value) :
    let done := outcome kind backup id (held.map Prod.fst)
    let after := takeIn held (backup.entry kind id)
    Outcome.Fits kind backup id done after ∧ (done = .keep → after = held) := by
  unfold outcome Backup.entry
  cases stamped : backup.timestamps.lookup id with
  | none =>
      have same : takeIn held none = held := by cases held <;> rfl
      exact ⟨.keep _, fun _ => same⟩
  | some time =>
      have member : id ∈ backup.timestamps := AList.lookup_isSome.mp (by simp [stamped])
      simp only [Option.bind_some]
      cases held with
      | none =>
          simp only [Option.map_none, Option.any_none, Bool.false_eq_true, if_false,
            Option.isSome_none]
          by_cases present : id ∈ backup.records
          · simp only [if_pos present]
            cases found : backup.item kind id with
            | none => exact ⟨.keep _, fun _ => rfl⟩
            | some item => exact ⟨.write found, by simp⟩
          · simp only [if_neg present]
            exact ⟨.keep _, fun _ => rfl⟩
      | some held =>
          simp only [Option.map_some, Option.any_some, decide_eq_true_eq, Option.isSome_some,
            if_true, takeIn_some]
          by_cases old : time ≤ held.1
          · simp only [if_pos old]
            refine ⟨.keep _, fun _ => ?_⟩
            by_cases present : id ∈ backup.records
            · simp only [if_pos present]
              cases backup.item kind id with
              | none => rfl
              | some item => exact newer_of_le old
            · simp only [if_neg present]
              exact newer_of_le old
          · have later : held.1 < time := not_le.mp old
            simp only [if_neg old]
            by_cases present : id ∈ backup.records
            · simp only [if_pos present]
              cases found : backup.item kind id with
              | none => exact ⟨.keep _, fun _ => rfl⟩
              | some item =>
                  have taken : newer (some held)
                      (some (time, some (item.value, if kind.isServer then item.links else []))) =
                        some (time, some (item.value, if kind.isServer then item.links else [])) :=
                    newer_of_lt later
                  exact ⟨by simpa only [Option.map_some, taken] using .write found, by simp⟩
            · simp only [if_neg present]
              have taken : newer (some held) (some (time, none)) = some (time, none) :=
                newer_of_lt later
              exact ⟨by simpa only [taken] using .delete ⟨member, present⟩, by simp⟩

/-! ### The loop -/

/-- The links that are to be written to a row. -/
def linksOf (kind : StoreKind Value Body Name) (written : List (Item Value)) (id : RecordId) :
    List RecordId :=
  if kind.isServer then (written.filter (·.id = id)).flatMap Item.links else []

/-- What is known of an id once the links are written too. -/
def Merging.entry (kind : StoreKind Value Body Name) (merging : Merging Value) (id : RecordId) :
    Entry Value :=
  match merging.store.rows.lookup id with
  | some row => some (row.updatedAt, some (row.value, row.links ++ linksOf kind merging.written id))
  | none => (merging.store.tombstones.lookup id).map (·, none)

/-- `merge` under way within its bounds, the links to write all of the backup. -/
structure Merging.Within (kind : StoreKind Value Body Name) (values : Set (RecordId × Value))
    (targets : Set RecordId) (backup : Backup Body) (merging : Merging Value) : Prop where
  store : merging.store.Within kind values targets
  links : ∀ item ∈ merging.written, ∀ target ∈ item.links, target ∈ backup.targets kind

omit [DecidableEq Name] in
theorem linksOf_append_other {written : List (Item Value)} {item : Item Value} {other : RecordId}
    (differ : other ≠ item.id) : linksOf kind (written ++ [item]) other = linksOf kind written other := by
  unfold linksOf
  rw [List.filter_append, List.filter_cons_of_neg (by simpa using differ.symm), List.filter_nil,
    List.append_nil]

omit [DecidableEq Name] in
theorem linksOf_append_fresh {written : List (Item Value)} {item : Item Value}
    (fresh : ∀ other ∈ written, other.id ≠ item.id) :
    linksOf kind (written ++ [item]) item.id = if kind.isServer then item.links else [] := by
  have nothing : written.filter (·.id = item.id) = [] := by
    rw [List.filter_eq_nil_iff]
    intro other member
    simpa using fresh other member
  unfold linksOf
  rw [List.filter_append, nothing]
  simp

omit [DecidableEq Name] in
/-- A record written: its row is new, any other is as it was. -/
theorem apply_write (ofStore : backup.OfStore kind) (backupWithin : backup.Within kind values targets)
    {merging : Merging Value} (within : merging.Within kind values targets backup) {id : RecordId}
    (fresh : ∀ item ∈ merging.written, item.id ≠ id) {item : Item Value}
    (found : item ∈ backup.item kind id) (at_ : Int) :
    let next := Outcome.apply kind merging id (.write item at_)
    next.Within kind values targets backup ∧ ∀ other, next.entry kind other =
      if other = id then some (at_, some (item.value, if kind.isServer then item.links else []))
      else merging.entry kind other := by
  intro next
  have own : item.id = id := item_id ofStore found
  have rows (other : RecordId) : next.store.rows.lookup other =
      if other = id then some ⟨item.value, [], at_⟩ else merging.store.rows.lookup other := by
    by_cases same : other = id
    · rw [if_pos same, same, ← own]
      exact AList.lookup_insert _
    · rw [if_neg same]
      exact AList.lookup_insert_ne (own ▸ same)
  have tombstones (other : RecordId) (differ : other ≠ id) :
      next.store.tombstones.lookup other = merging.store.tombstones.lookup other :=
    AList.lookup_erase_ne (own ▸ differ)
  refine ⟨⟨⟨?_, ?_⟩, ?_⟩, ?_⟩
  · rintro ⟨other, value⟩ ⟨row, member, equal⟩
    rw [Option.mem_def, rows] at member
    by_cases same : other = id
    · rw [if_pos same] at member
      refine backupWithin.values ⟨item, same ▸ found, ?_⟩
      simpa [← Option.some.inj member] using equal
    · rw [if_neg same] at member
      exact within.store.values ⟨row, member, equal⟩
  · rintro server target ⟨other, row, member, linked⟩
    rw [Option.mem_def, rows] at member
    by_cases same : other = id
    · rw [if_pos same] at member
      simp [← Option.some.inj member] at linked
    · rw [if_neg same] at member
      exact within.store.links server ⟨other, row, member, linked⟩
  · intro other member target linked
    rcases List.mem_append.mp member with before | last
    · exact within.links other before target linked
    · rw [List.mem_singleton.mp last] at linked
      exact ⟨id, item, found, linked⟩
  · intro other
    unfold Merging.entry
    rw [rows]
    by_cases same : other = id
    · rw [if_pos same, if_pos same, same, ← own]
      change some (at_, some (item.value, [] ++ linksOf kind (merging.written ++ [item]) item.id)) = _
      rw [linksOf_append_fresh (own ▸ fresh), List.nil_append]
    · rw [if_neg same, if_neg same, tombstones other same]
      change (match merging.store.rows.lookup other with
        | some row => some (row.updatedAt,
            some (row.value, row.links ++ linksOf kind (merging.written ++ [item]) other))
        | none => _) = _
      rw [linksOf_append_other (own ▸ same)]

omit [DecidableEq Name] in
/-- What no link leads to is deleted without a change to any other row. -/
theorem mergeDelete_lookup {store : EntityStore Value} {id : RecordId}
    (unlinked : kind.isServer → id ∉ store.targets) (at_ : Int) (other : RecordId) :
    (mergeDelete kind store id at_).rows.lookup other =
        (if other = id then none else store.rows.lookup other) ∧
      (mergeDelete kind store id at_).tombstones.lookup other =
        if other = id then some at_ else store.tombstones.lookup other := by
  have removed (rest : EntityStore Value) : (rest.remove id at_).rows.lookup other =
        (if other = id then none else rest.rows.lookup other) ∧
      (rest.remove id at_).tombstones.lookup other =
        if other = id then some at_ else rest.tombstones.lookup other := by
    by_cases same : other = id
    · rw [if_pos same, if_pos same, same]
      exact ⟨AList.lookup_erase id rest.rows, AList.lookup_insert rest.tombstones⟩
    · rw [if_neg same, if_neg same]
      exact ⟨AList.lookup_erase_ne same, AList.lookup_insert_ne same⟩
  unfold mergeDelete
  cases server : kind.isServer with
  | false => simpa using removed store
  | true =>
      have noLink : ∀ entry ∈ store.rows.entries, id ∉ entry.2.links := by
        intro entry member linked
        exact unlinked server ⟨entry.1, entry.2, AList.mem_lookup_iff.mpr member, linked⟩
      have noOwner : store.jumpOwnerIds id = [] := by
        have none_ : store.rows.entries.filter (fun entry => id ∈ entry.2.links) = [] := by
          rw [List.filter_eq_nil_iff]
          intro entry member
          simpa using noLink entry member
        rw [jumpOwnerIds, none_]
        rfl
      have sameRows (related : Related) :
          ({ store with related } : EntityStore Value).unlink id = { store with related } := by
        have rows : store.rows.mapRows
            (fun row => { row with links := row.links.filter (· ≠ id) }) = store.rows := by
          apply Table.mapRows_eq_self
          intro key row member
          have absent : id ∉ row.links := noLink ⟨key, row⟩ (AList.mem_lookup_iff.mp member)
          have filtered : row.links.filter (· ≠ id) = row.links := by
            rw [List.filter_eq_self]
            intro link inside
            simpa using fun equal : link = id => absent (equal ▸ inside)
          rw [filtered]
        unfold unlink
        simp only [rows]
      simp only [if_true, noOwner, List.filter_nil, List.foldl_nil, sameRows]
      exact removed _

omit [DecidableEq Name] in
/-- A record deleted: its row is gone, any other is as it was. -/
theorem apply_delete (backupWithin : backup.Within kind values targets) {merging : Merging Value}
    (within : merging.Within kind values targets backup) {id : RecordId} (deletes : backup.Deletes id)
    (at_ : Int) :
    let next := Outcome.apply kind merging id (.delete at_)
    next.Within kind values targets backup ∧ ∀ other, next.entry kind other =
      if other = id then some (at_, none) else merging.entry kind other := by
  intro next
  have unlinked : kind.isServer → id ∉ merging.store.targets := fun server linked =>
    backupWithin.kept server id (within.store.links server linked) deletes
  have lookups (other : RecordId) : next.store.rows.lookup other =
        (if other = id then none else merging.store.rows.lookup other) ∧
      next.store.tombstones.lookup other =
        if other = id then some at_ else merging.store.tombstones.lookup other :=
    mergeDelete_lookup unlinked at_ other
  have kept {other : RecordId} {row : Row Value} (member : row ∈ next.store.rows.lookup other) :
      row ∈ merging.store.rows.lookup other := by
    rw [Option.mem_def, (lookups other).1] at member
    by_cases same : other = id
    · simp [same] at member
    · simpa [same] using member
  refine ⟨⟨⟨?_, ?_⟩, within.links⟩, ?_⟩
  · rintro ⟨other, value⟩ ⟨row, member, equal⟩
    exact within.store.values ⟨row, kept member, equal⟩
  · rintro server target ⟨other, row, member, linked⟩
    exact within.store.links server ⟨other, row, kept member, linked⟩
  · intro other
    unfold Merging.entry
    rw [(lookups other).1, (lookups other).2]
    by_cases same : other = id
    · simp [same]
    · simp only [if_neg same]
      rfl

/-- One id: what the backup knows of it is taken in, nothing else changes. -/
theorem mergeId_entry (ofStore : backup.OfStore kind) (apart : NamesApart kind values)
    (backupWithin : backup.Within kind values targets) (now : Int) {current : Table RecordId Int}
    {merging : Merging Value} (within : merging.Within kind values targets backup) {id : RecordId}
    (fresh : ∀ item ∈ merging.written, item.id ≠ id)
    (known : current.lookup id = (merging.entry kind id).map Prod.fst) :
    let next := mergeId kind false now backup current merging id
    next.Within kind values targets backup ∧
      (∀ item ∈ next.written, item ∈ merging.written ∨ item.id = id) ∧
      ∀ other, next.entry kind other =
        if other = id then takeIn (merging.entry kind id) (backup.entry kind id)
        else merging.entry kind other := by
  intro next
  have step : next = (outcome kind backup id (current.lookup id)).apply kind merging id :=
    mergeId_eq ofStore apart backupWithin.values now current within.store.values id
  obtain ⟨fits, keeps⟩ := outcome_fits kind backup id (merging.entry kind id)
  rw [known] at step
  generalize outcome kind backup id ((merging.entry kind id).map Prod.fst) = done at fits keeps step
  generalize takeIn (merging.entry kind id) (backup.entry kind id) = after at fits keeps
  rw [step]
  cases fits with
  | keep =>
      refine ⟨within, fun item member => .inl member, fun other => ?_⟩
      by_cases same : other = id
      · rw [if_pos same, keeps rfl, same]
        rfl
      · rw [if_neg same]
        rfl
  | @write item at_ found =>
      obtain ⟨nextWithin, entries⟩ := apply_write ofStore backupWithin within fresh found at_
      refine ⟨nextWithin, fun other member => ?_, entries⟩
      rcases List.mem_append.mp member with before | last
      · exact .inl before
      · rw [List.mem_singleton.mp last]
        exact .inr (item_id ofStore found)
  | delete deletes =>
      obtain ⟨nextWithin, entries⟩ := apply_delete backupWithin within deletes _
      exact ⟨nextWithin, fun item member => .inl member, entries⟩

/-- All ids of a list, each once. -/
theorem mergeIds_entry (ofStore : backup.OfStore kind) (apart : NamesApart kind values)
    (backupWithin : backup.Within kind values targets) (now : Int) {current : Table RecordId Int}
    {ids : List RecordId} (distinct : ids.Nodup) {merging : Merging Value}
    (within : merging.Within kind values targets backup)
    (fresh : ∀ id ∈ ids, ∀ item ∈ merging.written, item.id ≠ id)
    (known : ∀ id ∈ ids, current.lookup id = (merging.entry kind id).map Prod.fst) :
    let last := ids.foldl (mergeId kind false now backup current) merging
    last.Within kind values targets backup ∧ ∀ id, last.entry kind id =
      if id ∈ ids then takeIn (merging.entry kind id) (backup.entry kind id)
      else merging.entry kind id := by
  induction ids generalizing merging with
  | nil => exact ⟨within, fun id => by simp⟩
  | cons first rest inductionHypothesis =>
      obtain ⟨notAgain, restDistinct⟩ := List.nodup_cons.mp distinct
      obtain ⟨nextWithin, written, entries⟩ := mergeId_entry ofStore apart backupWithin now within
        (fresh first (by simp)) (known first (by simp))
      have other {id : RecordId} (member : id ∈ rest) : id ≠ first := by
        rintro rfl
        exact notAgain member
      obtain ⟨lastWithin, lastEntries⟩ := inductionHypothesis restDistinct nextWithin
        (fun id member item inside => by
          rcases written item inside with before | last
          · exact fresh id (by simp [member]) item before
          · exact last ▸ (other member).symm)
        (fun id member => by
          rw [entries, if_neg (other member)]
          exact known id (by simp [member]))
      refine ⟨lastWithin, fun id => ?_⟩
      rw [List.foldl_cons, lastEntries, entries]
      by_cases isFirst : id = first
      · rw [if_pos isFirst, isFirst, if_neg notAgain, if_pos (by simp)]
      · simp only [List.mem_cons, isFirst, false_or, if_false]

omit [DecidableEq Name] in
/-- The links of the records written, once every row they lead to is there. -/
theorem writeLinks_entry (server : kind.isServer = true) {written : List (Item Value)}
    {store : EntityStore Value}
    (present : ∀ item ∈ written, ∀ target ∈ item.links, target ∈ store.rows) (id : RecordId) :
    (written.foldl writeLinks store).entry id = Merging.entry kind { store, written } id := by
  induction written generalizing store with
  | nil =>
      unfold entry Merging.entry linksOf
      simp
  | cons item rest inductionHypothesis =>
      have nextPresent : ∀ other ∈ rest, ∀ target ∈ other.links,
          target ∈ (store.writeLinks item).rows := by
        intro other member target linked
        exact mem_updateRow.mpr (present other (by simp [member]) target linked)
      have filtered : item.links.filter (· ∈ store.rows) = item.links := by
        rw [List.filter_eq_self]
        intro target linked
        simpa using present item (by simp) target linked
      rw [List.foldl_cons, inductionHypothesis nextPresent]
      unfold Merging.entry
      simp only [writeLinks, lookup_updateRow, filtered]
      by_cases same : id = item.id
      · subst same
        rw [if_pos rfl]
        cases store.rows.lookup item.id with
        | none => rfl
        | some row => simp [linksOf, server]
      · rw [if_neg same]
        have differ : ¬ item.id = id := fun equal => same equal.symm
        simp only [linksOf, server, if_true, List.filter_cons, differ, decide_false,
          Bool.false_eq_true, if_false]
        rfl

/-! ### The whole merge -/

omit [DecidableEq Name] in
theorem entry_eq_row {store : EntityStore Value} {id : RecordId} {time : Int} {value : Value}
    {links : List RecordId} :
    store.entry id = some (time, some (value, links)) ↔
      store.rows.lookup id = some ⟨value, links, time⟩ := by
  unfold entry
  cases found : store.rows.lookup id with
  | none => cases store.tombstones.lookup id <;> simp
  | some row =>
      cases row
      simp only [Option.some.injEq, Prod.mk.injEq, Row.mk.injEq]
      tauto

omit [DecidableEq Name] in
/-- A store within its bounds, by what it knows of each id. -/
theorem within_iff_entry {store : EntityStore Value} :
    store.Within kind values targets ↔
      ∀ id time value links, store.entry id = some (time, some (value, links)) →
        (id, value) ∈ values ∧ (kind.isServer → ∀ target ∈ links, target ∈ targets) := by
  constructor
  · intro within id time value links found
    have row := entry_eq_row.mp found
    exact ⟨within.values ⟨_, row, rfl⟩, fun server target linked =>
      within.links server ⟨id, _, row, linked⟩⟩
  · intro rows
    have byRow {id : RecordId} {row : Row Value} (member : row ∈ store.rows.lookup id) :=
      rows id row.updatedAt row.value row.links (entry_eq_row.mpr member)
    refine ⟨?_, ?_⟩
    · rintro ⟨id, value⟩ ⟨row, member, rfl⟩
      exact (byRow member).1
    · rintro server target ⟨id, row, member, linked⟩
      exact (byRow member).2 server target linked

omit [DecidableEq Name] in
theorem mergeIds_nodup (backup : Backup Body) (current : Table RecordId Int) :
    (mergeIds backup current).Nodup := by
  refine List.Nodup.append backup.records.nodupKeys (current.nodupKeys.filter _) ?_
  intro id member later
  have absent := (List.mem_filter.mp later).2
  simp only [decide_not, Bool.not_eq_true', decide_eq_false_iff_not] at absent
  exact absent (AList.mem_keys.mpr member)

omit [DecidableEq Name] in
theorem mem_mergeIds {current : Table RecordId Int} {id : RecordId} :
    id ∈ mergeIds backup current ↔ id ∈ backup.records ∨ id ∈ current := by
  unfold mergeIds
  by_cases member : id ∈ backup.records
  · simp [← AList.mem_keys, member]
  · simp [← AList.mem_keys, member]

/-- `merge` takes in, id by id, what the backup knows. -/
theorem merge_entry (ofStore : backup.OfStore kind) (apart : NamesApart kind values)
    (backupWithin : backup.Within kind values targets) (now : Int) {store : EntityStore Value}
    (within : store.Within kind values targets) (lands : store.Lands kind backup) (id : RecordId) :
    (store.merge kind false now backup).1.entry id =
      takeIn (store.entry id) (backup.entry kind id) := by
  have start (id : RecordId) : Merging.entry kind { store } id = store.entry id := by
    unfold Merging.entry entry linksOf
    simp
  obtain ⟨lastWithin, entries⟩ := mergeIds_entry ofStore apart backupWithin now
    (mergeIds_nodup backup store.timestamps)
    (show Merging.Within kind values targets backup { store } from ⟨within, by simp⟩) (by simp)
    (fun id _ => by rw [start, lookup_timestamps])
  have passed (id : RecordId) : id ∉ mergeIds backup store.timestamps →
      takeIn (store.entry id) (backup.entry kind id) = store.entry id := by
    intro absent
    rw [mem_mergeIds, not_or] at absent
    have unknown : store.entry id = none := by
      have noTime := AList.lookup_eq_none.mpr absent.2
      rw [lookup_timestamps, Option.map_eq_none_iff] at noTime
      exact noTime
    rw [unknown, Backup.entry]
    cases backup.timestamps.lookup id with
    | none => rfl
    | some time => simp [absent.1, takeIn]
  have last (id : RecordId) : Merging.entry kind ((mergeIds backup store.timestamps).foldl
      (mergeId kind false now backup store.timestamps) { store }) id =
      takeIn (store.entry id) (backup.entry kind id) := by
    rw [entries, start]
    by_cases member : id ∈ mergeIds backup store.timestamps
    · rw [if_pos member]
    · rw [if_neg member, passed id member]
  rw [← last, merge]
  cases server : kind.isServer with
  | true =>
      simp only [if_true]
      refine writeLinks_entry server (fun item member target linked => ?_) id
      obtain ⟨time, record, landed⟩ := lands server target (lastWithin.links item member target linked)
      rw [← last target] at landed
      rw [← AList.lookup_isSome]
      unfold Merging.entry at landed
      cases found : AList.lookup target _ with
      | none => rw [found] at landed; simp at landed
      | some row => rfl
  | false =>
      simp only [Bool.false_eq_true, if_false]
      unfold Merging.entry entry linksOf
      simp [server]

omit [DecidableEq Name] in
/-- A record of a backup within its bounds. -/
theorem backup_entry_record (backupWithin : backup.Within kind values targets) {id : RecordId}
    {time : Int} {value : Value} {links : List RecordId}
    (found : backup.entry kind id = some (time, some (value, links))) :
    (id, value) ∈ values ∧ (kind.isServer → ∀ target ∈ links, target ∈ targets) := by
  unfold Backup.entry at found
  obtain ⟨stamp, _, rest⟩ := Option.bind_eq_some_iff.mp found
  by_cases present : id ∈ backup.records
  · rw [if_pos present] at rest
    obtain ⟨item, member, equal⟩ := Option.map_eq_some_iff.mp rest
    simp only [Prod.mk.injEq, Option.some.injEq] at equal
    obtain ⟨-, rfl, rfl⟩ := equal
    refine ⟨backupWithin.values ⟨item, member, rfl⟩, fun server target linked => ?_⟩
    rw [if_pos server] at linked
    exact backupWithin.links server ⟨id, item, member, linked⟩
  · simp [if_neg present] at rest

omit [DecidableEq Name] in
/-- A deletion a backup knows of. -/
theorem backup_entry_deleted {id : RecordId} {time : Int}
    (found : backup.entry kind id = some (time, none)) :
    backup.timestamps.lookup id = some time ∧ backup.Deletes id := by
  unfold Backup.entry at found
  obtain ⟨stamp, stamped, rest⟩ := Option.bind_eq_some_iff.mp found
  by_cases present : id ∈ backup.records
  · rw [if_pos present] at rest
    simp at rest
  · simp only [if_neg present, Option.some.injEq, Prod.mk.injEq, and_true] at rest
    exact ⟨rest ▸ stamped, AList.lookup_isSome.mp (by simp [stamped]), present⟩

/-- Merging keeps the bounds. -/
theorem merge_within (ofStore : backup.OfStore kind) (apart : NamesApart kind values)
    (backupWithin : backup.Within kind values targets) (now : Int) {store : EntityStore Value}
    (within : store.Within kind values targets) (lands : store.Lands kind backup) :
    (store.merge kind false now backup).1.Within kind values targets := by
  have rows := within_iff_entry.mp within
  have entries := merge_entry ofStore apart backupWithin now within lands
  refine within_iff_entry.mpr fun id time value links found => ?_
  rw [entries] at found
  cases held : store.entry id with
  | none =>
      rw [held] at found
      cases incoming : backup.entry kind id with
      | none => simp [incoming, takeIn] at found
      | some known =>
          obtain ⟨stamp, _ | record⟩ := known
          · simp [incoming, takeIn] at found
          · rw [incoming] at found
            exact backup_entry_record backupWithin (incoming.trans found)
  | some known =>
      rw [held, takeIn_some] at found
      rcases newer_eq_or (some known) (backup.entry kind id) with same | taken
      · exact rows id time value links (held.trans (same.symm.trans found))
      · exact backup_entry_record backupWithin (taken.symm.trans found)

end EntityStore

end ServerBox.Store
