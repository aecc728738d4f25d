import ServerBox.Store.EntityStore
import ServerBox.Sync.Op

/-!
# Writing received ops to a table of named records

`lib/data/store/sync_records.dart` for the tables of `_uniqueNames` (private keys, BMC
credentials, snippets, and the remote desktop profiles of one server): how an op of
another device that won is written, what becomes of two records of one name, and which
id a record made twice is held under. `apply` is `_apply` of `lib/core/sync/log.dart`
for such a table, with `SyncAnnounce.write` around the write.
-/

namespace ServerBox.Sync

open ServerBox.Std ServerBox.Store

/-- A record: the value of the scope column (empty where names are unique over the whole
table), the name, and its other fields. -/
structure Fields (Body : Type) where
  scope : String := ""
  name : String
  body : Body
deriving DecidableEq, Repr

/-- The value an op carries: `null`, no JSON object, or an object, which has a name since
every row has one. -/
inductive Change (Body : Type) where
  | deleted
  | unreadable
  | record (fields : Fields Body)
deriving DecidableEq, Repr

/-- An op of the table. -/
abbrev RecordOp (Body : Type) := SyncOp RecordId (Change Body)

/-- What a table's store fixes. `refused` is a row that a foreign key refuses, by its scope
and its other fields; `fetchedFirst` is the store that `SyncAnnounce.write` fetches before
and after. -/
structure Collection (Body Value : Type) where
  fromJson : Body → Option Value
  refused : String → Value → Bool := fun _ _ => false
  fetchedFirst : Bool := false

/-- A table whose every value is read as it stands. -/
def Collection.plain (Value : Type) : Collection Value Value where
  fromJson := some

/-! ### Rows -/

theorem unique_empty {Value : Type} : ∀ one other rowOne rowOther,
    (∅ : Table RecordId (Fields Value)).lookup one = some rowOne →
    (∅ : Table RecordId (Fields Value)).lookup other = some rowOther →
    rowOne.scope = rowOther.scope → rowOne.name = rowOther.name → one = other := by
  simp

/-- The rows of a table: in one scope a name is held once. -/
structure Rows (Value : Type) where
  table : Table RecordId (Fields Value) := ∅
  unique : ∀ one other rowOne rowOther, table.lookup one = some rowOne →
    table.lookup other = some rowOther → rowOne.scope = rowOther.scope →
    rowOne.name = rowOther.name → one = other := by exact unique_empty

namespace Rows

variable {Value : Type}

/-- `SELECT id … WHERE name = ? AND id != ? AND scope = ?`, the first row. -/
def holderOf (rows : Rows Value) (id : RecordId) (scope name : String) : Option RecordId :=
  (rows.table.entries.find? fun entry =>
    entry.1 ≠ id && entry.2.scope = scope && entry.2.name = name).map Sigma.fst

theorem holderOf_eq_none {rows : Rows Value} {id : RecordId} {scope name : String} :
    rows.holderOf id scope name = none ↔
      ∀ other row, rows.table.lookup other = some row → row.scope = scope → row.name = name →
        other = id := by
  rw [holderOf, Option.map_eq_none_iff, List.find?_eq_none]
  constructor
  · intro noneFound other row found sameScope sameName
    have refuted := noneFound ⟨other, row⟩ (AList.mem_lookup_iff.mp found)
    simp only [sameScope, sameName, decide_true, Bool.and_true, decide_eq_true_eq, ne_eq,
      not_not] at refuted
    exact refuted
  · rintro unheld ⟨other, row⟩ member selected
    simp only [Bool.and_eq_true, decide_eq_true_eq] at selected
    exact selected.1.1 (unheld other row (AList.mem_lookup_iff.mpr member) selected.1.2 selected.2)

theorem holderOf_eq_some {rows : Rows Value} {id holder : RecordId} {scope name : String}
    (found : rows.holderOf id scope name = some holder) :
    holder ≠ id ∧ ∃ row, rows.table.lookup holder = some row ∧ row.scope = scope ∧ row.name = name := by
  obtain ⟨⟨other, row⟩, first, rfl⟩ := Option.map_eq_some_iff.mp found
  have selected := List.find?_some first
  simp only [Bool.and_eq_true, decide_eq_true_eq] at selected
  exact ⟨selected.1.1, row, AList.mem_lookup_iff.mpr (List.mem_of_find?_eq_some first),
    selected.1.2, selected.2⟩

/-- `INSERT … ON CONFLICT (id) DO UPDATE`; `none` where the name is another row's. -/
def upsert (rows : Rows Value) (id : RecordId) (row : Fields Value) : Option (Rows Value) :=
  if free : rows.holderOf id row.scope row.name = none then
    some
      { table := rows.table.insert id row
        unique := by
          rw [holderOf_eq_none] at free
          intro one other rowOne rowOther foundOne foundOther sameScope sameName
          rw [Table.lookup_insert_ite] at foundOne foundOther
          split at foundOne
          · rename_i isOne
            obtain rfl := Option.some.inj foundOne
            split at foundOther
            · rename_i isOther
              exact isOne.trans isOther.symm
            · exact isOne.trans (free other rowOther foundOther sameScope.symm sameName.symm).symm
          · split at foundOther
            · rename_i isOther
              obtain rfl := Option.some.inj foundOther
              exact (free one rowOne foundOne sameScope sameName).trans isOther.symm
            · exact rows.unique one other rowOne rowOther foundOne foundOther sameScope sameName }
  else none

theorem upsert_eq_some {rows written : Rows Value} {id : RecordId} {row : Fields Value}
    (done : rows.upsert id row = some written) : written.table = rows.table.insert id row := by
  unfold upsert at done
  split at done
  · obtain rfl := Option.some.inj done
    rfl
  · exact absurd done (by simp)

theorem upsert_of_free {rows : Rows Value} {id : RecordId} {row : Fields Value}
    (free : rows.holderOf id row.scope row.name = none) :
    ∃ written, rows.upsert id row = some written ∧ written.table = rows.table.insert id row := by
  refine ⟨_, dif_pos free, rfl⟩

/-- `UPDATE … SET name = ? WHERE id = ?`. -/
def rename (rows : Rows Value) (id : RecordId) (name : String) : Option (Rows Value) :=
  match rows.table.lookup id with
  | none => some rows
  | some row => rows.upsert id { row with name }

/-- The rename that `_yieldName` answered, if any, run. -/
def renameFor (rows : Rows Value) : Option (RecordId × String) → Option (Rows Value)
  | none => some rows
  | some (holder, name) => rows.rename holder name

/-- `DELETE FROM … WHERE id = ?`. -/
def delete (rows : Rows Value) (id : RecordId) : Rows Value where
  table := rows.table.erase id
  unique := by
    intro one other rowOne rowOther foundOne foundOther
    have keptOne : rows.table.lookup one = some rowOne := by
      rw [← foundOne, AList.lookup_erase_ne]
      rintro rfl
      simp at foundOne
    have keptOther : rows.table.lookup other = some rowOther := by
      rw [← foundOther, AList.lookup_erase_ne]
      rintro rfl
      simp at foundOther
    exact rows.unique one other rowOne rowOther keptOne keptOther

/-- `$name (${id.substring(0, len.clamp(0, id.length))})`. -/
def suffixName (name : String) (id : RecordId) (len : Nat) : String :=
  name ++ " (" ++ String.ofList (id.toList.take len) ++ ")"

/-- A name with a suffix is longer than it was. -/
theorem length_suffixName (name : String) (id : RecordId) (len : Nat) :
    name.length < (suffixName name id len).length := by
  simp only [suffixName, String.length_append, String.length_ofList]
  have opening : " (".length = 2 := rfl
  omega

/-- `_suffixed`. -/
def suffixed (rows : Rows Value) (name : String) (id : RecordId) (scope : String) : String :=
  ([suffixName name id 6, suffixName name id id.length].find? fun candidate =>
    rows.holderOf id scope candidate = none).getD (suffixName name id id.length)

/-- The first suffix is taken where no other row has it. -/
theorem suffixed_of_free {rows : Rows Value} {name : String} {id : RecordId} {scope : String}
    (free : rows.holderOf id scope (suffixName name id 6) = none) :
    rows.suffixed name id scope = suffixName name id 6 := by
  have first : [suffixName name id 6, suffixName name id id.length].find? (fun candidate =>
      rows.holderOf id scope candidate = none) = some (suffixName name id 6) :=
    List.find?_cons_of_pos (decide_eq_true free)
  rw [suffixed, first, Option.getD_some]

/-- A suffix is one of the two. -/
theorem suffixed_eq (rows : Rows Value) (name : String) (id : RecordId) (scope : String) :
    ∃ len, rows.suffixed name id scope = suffixName name id len := by
  unfold suffixed
  cases found : [suffixName name id 6, suffixName name id id.length].find? _ with
  | none => exact ⟨id.length, rfl⟩
  | some candidate =>
      rcases List.mem_cons.mp (List.mem_of_find?_eq_some found) with short | full
      · exact ⟨6, short⟩
      · exact ⟨id.length, List.mem_singleton.mp full⟩

end Rows

/-! ### A device's records -/

/-- What a device holds of the table: its rows, `sync_record`, the `alias:` entries of
`sync_state`, and the store's cache. -/
structure Records (Value : Type) where
  rows : Rows Value := {}
  stamps : Stamps RecordId := ∅
  aliases : Table RecordId RecordId := ∅
  cache : Option (Table RecordId (Fields Value)) := none

namespace Records

variable {Body Value : Type}

/-- The row of an id. -/
def row (records : Records Value) (id : RecordId) : Option (Fields Value) :=
  records.rows.table.lookup id

/-- `_aliasOf`. -/
def aliasOf (records : Records Value) (id : RecordId) : Option RecordId :=
  records.aliases.lookup id

/-- The id this device holds a record under. -/
def heldId (records : Records Value) (id : RecordId) : RecordId :=
  (records.aliasOf id).getD id

/-- `_cache ??= readAll()`. -/
def fetch (records : Records Value) : Records Value :=
  { records with cache := some (records.cache.getD records.rows.table) }

/-- `invalidate`. -/
def invalidate (records : Records Value) : Records Value := { records with cache := none }

/-- `SyncRecorder.record` while receiving. -/
def record (records : Records Value) (id : RecordId) (h : Stamp) : Records Value :=
  { records with stamps := records.stamps.record id h }

/-- `_alias`. -/
def aliasTo (records : Records Value) (id holder : RecordId) : Records Value :=
  { records with aliases := records.aliases.insert id holder }

/-- The statements of `_entity`'s transaction on rows: the rename, then the record;
`none` where SQLite refuses one. -/
def writeRows (collection : Collection Body Value) (rows : Rows Value) (id : RecordId)
    (rename : Option (RecordId × String)) (row : Fields Value) : Option (Rows Value) :=
  (rows.renameFor rename).bind fun renamed =>
    if collection.refused row.scope row.body then none else renamed.upsert id row

variable [DecidableEq Value]

/-- `_sameBut`, once the cache is there: the holder as it was cached. -/
def sameBut (collection : Collection Body Value) (records : Records Value) (holder : RecordId)
    (fields : Fields Body) : Bool :=
  match records.cache.bind (·.lookup holder), collection.fromJson fields.body with
  | some item, some incoming =>
      item.scope = fields.scope && item.name = fields.name && item.body = incoming
  | _, _ => false

/-- What `_yieldName` answers: an alias was made of the op's id, or the rename to run
with the write, and the fields to write. -/
inductive Yielded (Body : Type) where
  | aliased (holder : RecordId)
  | write (rename : Option (RecordId × String)) (fields : Fields Body)
deriving DecidableEq, Repr

/-- `_yieldName`, with the cache it may have filled. -/
def yieldName (collection : Collection Body Value) (records : Records Value) (id : RecordId)
    (h : Stamp) (fields : Fields Body) : Records Value × Yielded Body :=
  match records.rows.holderOf id fields.scope fields.name with
  | none => (records, .write none fields)
  | some holder =>
      let absent := (records.row id).isNone
      let fetched := if absent then records.fetch else records
      if absent && sameBut collection fetched holder fields then (fetched, .aliased holder)
      else if Stamp.After (records.stamps.lookup holder) h then
        (fetched, .write
          (some (holder, records.rows.suffixed fields.name holder fields.scope)) fields)
      else
        (fetched, .write none
          { fields with name := records.rows.suffixed fields.name id fields.scope })

/-- The stamps of a write: under the id it is held, and under the op's where that is another. -/
def recordBoth (records : Records Value) (id opId : RecordId) (h : Stamp) : Records Value :=
  let stamped := records.record id h
  if id = opId then stamped else stamped.record opId h

/-- `_entity`. -/
def entity (collection : Collection Body Value) (records : Records Value) (op : RecordOp Body) :
    Records Value :=
  let id := records.heldId op.id
  match op.d with
  | .deleted => { records with rows := records.rows.delete id }.recordBoth id op.id op.h
  | .unreadable => records
  | .record fields =>
      match yieldName collection records id op.h fields with
      -- The same record as one here under another id: that id is this one's.
      | (fetched, .aliased holder) => (fetched.aliasTo id holder).record op.id op.h
      | (fetched, .write rename kept) =>
          match collection.fromJson kept.body with
          | none => fetched
          | some value =>
              match writeRows collection fetched.rows id rename
                  { scope := kept.scope, name := kept.name, body := value } with
              | none => fetched
              | some rows => { fetched with rows }.recordBoth id op.id op.h

/-- `SyncRecords.write`. -/
def write (collection : Collection Body Value) (records : Records Value)
    (ops : List (RecordOp Body)) : Records Value :=
  ops.foldl (entity collection) records

/-- `SyncAnnounce.write`, of ops of this table: the cache is dropped after the write. The
private keys are fetched before it and, for their passphrases, after it. -/
def announce (collection : Collection Body Value) (records : Records Value)
    (won : List (RecordOp Body)) : Records Value :=
  let fetched := if collection.fetchedFirst then records.fetch else records
  let written := (write collection fetched won).invalidate
  if collection.fetchedFirst then written.fetch else written

/-- `_apply`, of ops that are read whole: those that win over what is here, written. -/
def apply (winners : SyncWinners RecordId (Change Body)) (collection : Collection Body Value)
    (records : Records Value) (received : List (RecordOp Body)) : Records Value :=
  let won := winners.winners received records.stamps.lookup
  if won = [] then records else announce collection records won

end Records

end ServerBox.Sync
