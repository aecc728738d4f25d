import ServerBox.Std.Table

/-!
# A store whose records are rows of a table

`lib/data/store/entity_store.dart`: the rows of one synchronized table with the
time each was last changed, the tombstones of the rows deleted, and `merge`, which
folds a backup's records into them. What a store brings of its own (how a record
is decoded, which column is unique, what a foreign key refuses) is its
`StoreKind`; the servers' table has jump links and rows of other tables besides.
-/

namespace ServerBox.Store

open ServerBox.Std

/-- The id of a record, which is never something the user typed. -/
abbrev RecordId := String

/-- A row and its links to rows of the same table. -/
structure Row (Value : Type) where
  value : Value
  links : List RecordId
  updatedAt : Int
deriving DecidableEq

/-- A decoded record, as `write` and `writeLinks` take it. -/
structure Item (Value : Type) where
  id : RecordId
  value : Value
  links : List RecordId
deriving DecidableEq

/-- A record as a backup carries it: the JSON object, its `id` set apart. -/
structure RawRecord (Body : Type) where
  id : Option RecordId
  body : Body
deriving DecidableEq

/-- Rows of other tables that name a server: its port forwards and the snippets
that run on it, with their tombstones and their times. -/
structure Related where
  portForwards : Table RecordId RecordId := ∅
  portForwardTombstones : Table RecordId Int := ∅
  autoRunOn : List (RecordId × RecordId) := []
  snippets : Table RecordId Int := ∅
deriving DecidableEq

/-- A table and its tombstones: no id has both a row and a tombstone. -/
structure EntityStore (Value : Type) where
  rows : Table RecordId (Row Value) := ∅
  tombstones : Table RecordId Int := ∅
  related : Related := {}
  apart : ∀ id ∈ rows, id ∉ tombstones := by simp
deriving DecidableEq

/-- What a store's class fixes. `refused` is a record whose row a foreign key
into another table refuses, `uniqueName` the columns no two rows share. -/
structure StoreKind (Value Body Name : Type) where
  isServer : Bool
  fromJson : RawRecord Body → Option (Item Value)
  toJson : Item Value → RawRecord Body
  uniqueName : Value → Option Name
  refused : Value → Bool
  reconcile : Table RecordId (Row Value) → Item Value → Item Value

/-- A backup's records, `none` where one is no JSON object, and its times. -/
structure Backup (Body : Type) where
  records : Table RecordId (Option (RawRecord Body)) := ∅
  timestamps : Table RecordId Int := ∅
deriving DecidableEq

namespace EntityStore

variable {Value Body Name : Type} [DecidableEq Name]

/-- `timestamps`: when each record last changed, deletions included. -/
def timestamps (store : EntityStore Value) : Table RecordId Int :=
  store.tombstones ∪ store.rows.mapRows Row.updatedAt

/-- `getAllMap`. -/
def getAllMap (kind : StoreKind Value Body Name) (store : EntityStore Value) : Backup Body where
  records :=
    { entries := store.rows.entries.map fun entry =>
        ⟨entry.1, some (kind.toJson ⟨entry.1, entry.2.value, entry.2.links⟩)⟩
      nodupKeys := by
        have distinct : store.rows.entries.keys.Nodup := store.rows.nodupKeys
        simpa [List.NodupKeys, List.keys, Function.comp_def] using distinct }
  timestamps := store.timestamps

/-! ### Writes -/

/-- `write`, then `stamp` at `at_`: the row and its children replaced, its links
gone, its tombstone cleared. -/
def put (store : EntityStore Value) (item : Item Value) (at_ : Int) : EntityStore Value where
  rows := store.rows.insert item.id { value := item.value, links := [], updatedAt := at_ }
  tombstones := store.tombstones.erase item.id
  related := store.related
  apart := by
    intro id member
    rw [AList.mem_erase]
    rintro ⟨other, deleted⟩
    rcases (AList.mem_insert _).mp member with equal | before
    · exact other equal
    · exact store.apart id before deleted

/-- One row, where it is there, changed. -/
def updateRow (store : EntityStore Value) (id : RecordId) (change : Row Value → Row Value) :
    EntityStore Value where
  rows := match store.rows.lookup id with
    | some row => store.rows.insert id (change row)
    | none => store.rows
  tombstones := store.tombstones
  related := store.related
  apart := by
    intro other member
    refine store.apart other ?_
    split at member
    · rename_i row found
      rcases (AList.mem_insert _).mp member with equal | before
      · rw [equal, ← AList.lookup_isSome, found]
        rfl
      · exact before
    · exact member

/-- `stamp` of a row that is there. -/
def stamp (store : EntityStore Value) (at_ : Int) (id : RecordId) : EntityStore Value :=
  let updated := store.updateRow id fun row => { row with updatedAt := at_ }
  { updated with
    tombstones := updated.tombstones.erase id
    apart := fun other member deleted =>
      updated.apart other member (AList.mem_erase.mp deleted).2 }

/-- `DELETE FROM $table`, then `tombstone`. -/
def remove (store : EntityStore Value) (id : RecordId) (at_ : Int) : EntityStore Value where
  rows := store.rows.erase id
  tombstones := store.tombstones.insert id at_
  related := store.related
  apart := by
    intro other member
    rw [AList.mem_erase] at member
    rw [AList.mem_insert]
    rintro (equal | deleted)
    · exact member.1 equal
    · exact store.apart other member.2 deleted

/-- `ON DELETE CASCADE` of the jump links to a row. -/
def unlink (store : EntityStore Value) (id : RecordId) : EntityStore Value where
  rows := store.rows.mapRows fun row => { row with links := row.links.filter (· ≠ id) }
  tombstones := store.tombstones
  related := store.related
  apart := by
    intro other member
    exact store.apart other (Table.mem_mapRows.mp member)

/-- `writeLinks`: a link to a row that is not there is dropped. -/
def writeLinks (store : EntityStore Value) (item : Item Value) : EntityStore Value :=
  store.updateRow item.id fun row =>
    { row with links := row.links ++ item.links.filter (· ∈ store.rows) }

/-! ### `merge` -/

/-- The servers whose jump is `id`. -/
def jumpOwnerIds (store : EntityStore Value) (id : RecordId) : List RecordId :=
  (store.rows.entries.filter fun entry => id ∈ entry.2.links).map Sigma.fst

/-- Rows of other tables when a server goes: its port forwards with a tombstone
each, and the snippets that ran on it stamped. -/
def Related.serverDeleted (related : Related) (id : RecordId) (at_ : Int) : Related :=
  let forwardIds := (related.portForwards.entries.filter fun entry => entry.2 = id).map Sigma.fst
  let snippetIds := (related.autoRunOn.filter fun link => link.2 = id).map Prod.fst
  { portForwards := forwardIds.foldl (fun table forward => table.erase forward) related.portForwards
    portForwardTombstones := forwardIds.foldl (fun table forward => table.insert forward at_)
      related.portForwardTombstones
    autoRunOn := related.autoRunOn.filter fun link => link.2 ≠ id
    snippets := snippetIds.foldl (fun table snippet => table.replace snippet at_) related.snippets }

/-- The delete of `merge`. A server's deletion stamps the servers that jump over
it, and takes their links and its rows of other tables with it. -/
def mergeDelete (kind : StoreKind Value Body Name) (store : EntityStore Value) (id : RecordId)
    (at_ : Int) : EntityStore Value :=
  if kind.isServer then
    let stamped := ((store.jumpOwnerIds id).filter (· ≠ id)).foldl (stamp · at_) store
    let related := Related.serverDeleted stamped.related id at_
    ({ stamped with related }.unlink id).remove id at_
  else store.remove id at_

/-- Whether SQLite refuses the row: a foreign key into another table, or the
name of another row. -/
def refuses (kind : StoreKind Value Body Name) (store : EntityStore Value) (item : Item Value) :
    Bool :=
  kind.refused item.value || match kind.uniqueName item.value with
    | none => false
    | some name => store.rows.entries.any fun entry =>
        entry.1 ≠ item.id && kind.uniqueName entry.2.value = some name

/-- `merge` under way: the store, the rows that `fetch` holds on to until its end, the records to
link, and `appliedIds`. -/
structure Merging (Value : Type) where
  store : EntityStore Value
  cached : Table RecordId (Row Value) := store.rows
  written : List (Item Value) := []
  appliedIds : List RecordId := []

/-- The record of a backup, written unless it cannot be. -/
def mergeRecord (kind : StoreKind Value Body Name) (force : Bool) (merging : Merging Value)
    (id : RecordId) (raw : Option (RawRecord Body)) (at_ : Int) : Merging Value :=
  match raw with
  | none => merging
  | some record =>
      let idLess := record.id.isNone
      match kind.fromJson { record with id := some (record.id.getD id) } with
      | none => merging
      | some item =>
          let resolved := if force || idLess then kind.reconcile merging.cached item else item
          if refuses kind merging.store resolved then merging
          else
            { merging with
              store := merging.store.put resolved at_
              written := merging.written ++ [resolved]
              appliedIds := merging.appliedIds ++ [resolved.id] }

/-- The body of `merge`'s loop. `current` are the times before it. -/
def mergeId (kind : StoreKind Value Body Name) (force : Bool) (now : Int) (backup : Backup Body)
    (current : Table RecordId Int) (merging : Merging Value) (id : RecordId) : Merging Value :=
  let bakTs := backup.timestamps.lookup id
  let known := (current.lookup id).isSome
  if !force && known && bakTs.getD 0 ≤ (current.lookup id).getD 0 then merging
  else
    -- A record with no time is stamped as now.
    let at_ := bakTs.getD now
    match backup.records.lookup id with
    | some raw => mergeRecord kind force merging id raw at_
    | none =>
        if !known || bakTs.isNone then merging
        else
          { merging with
            store := mergeDelete kind merging.store id at_
            appliedIds := merging.appliedIds ++ [id] }

/-- `{...records, ...current.keys}`, in the order of insertion. -/
def mergeIds (backup : Backup Body) (current : Table RecordId Int) : List RecordId :=
  backup.records.keys ++ current.keys.filter (· ∉ backup.records)

/-- `merge`: the store after it, and `appliedIds`. -/
def merge (kind : StoreKind Value Body Name) (force : Bool) (now : Int) (store : EntityStore Value)
    (backup : Backup Body) : EntityStore Value × List RecordId :=
  let current := store.timestamps
  let merging := (mergeIds backup current).foldl (mergeId kind force now backup current) { store }
  -- Once every row is there, so that a link to one written later still lands.
  (if kind.isServer then merging.written.foldl writeLinks merging.store else merging.store,
    merging.appliedIds)

end EntityStore

end ServerBox.Store
