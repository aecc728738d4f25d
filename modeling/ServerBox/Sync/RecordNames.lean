import ServerBox.Sync.RecordsSteps
import Mathlib.Data.List.Sort

/-!
# Names after every op was received

Two records named alike: the one stamped later keeps the name, the other is given a
suffix, which nothing takes back. `Holds` is what a device's rows are in terms of the last
op written of each record: a row has its op's name, or that name with the suffix, and then
some op named another record so at a later stamp. `names_converge_iff`: devices that
received the same ops in any orders come to the same names if and only if no record that
is to keep its name was ever named alike by a later op of another record.
-/

namespace ServerBox.Sync

open ServerBox.Std ServerBox.Store

variable {Body Value : Type}

/-! ### Deliveries -/

/-- An order in which batches of the ops reach a device: each op once, and each maker's own
ops in order. -/
structure Delivered (ops : List (RecordOp Body)) (order : List (List (RecordOp Body))) : Prop where
  all : order.flatten.Perm ops
  makers : order.flatten.Pairwise fun one other =>
    Stamp.device one.h = Stamp.device other.h → one.h ≤ other.h

/-- An op names its record. -/
def Names (scope name : String) (op : RecordOp Body) : Prop :=
  ∃ fields, op.d = .record fields ∧ fields.scope = scope ∧ fields.name = name

/-- An op is its record's last among some. -/
def IsLast (ops : List (RecordOp Body)) (op : RecordOp Body) : Prop :=
  op ∈ ops ∧ ∀ other ∈ ops, other.id = op.id → other.h ≤ op.h

/-- A record that is to keep its name, the last stamped of those that end with it, was never
named alike by a later op of another record. -/
def Uncontested (ops : List (RecordOp Body)) : Prop :=
  ∀ op scope name, IsLast ops op → Names scope name op →
    (∀ other, IsLast ops other → Names scope name other → other.h ≤ op.h) →
    ∀ other ∈ ops, other.id ≠ op.id → Names scope name other → other.h < op.h

/-- Ops that any device can take: each readable and accepted, each with a stamp of its own,
no two records the same in every field, and no name or suffix in another suffix's way. -/
structure Plain (collection : Collection Body Value) (ops : List (RecordOp Body)) : Prop where
  stamped : ∀ one ∈ ops, ∀ other ∈ ops, one.h = other.h → one = other
  readable : ∀ op ∈ ops, op.d ≠ .unreadable
  accepted : ∀ op ∈ ops, ∀ fields, op.d = .record fields →
    ∃ value, collection.fromJson fields.body = some value ∧
      collection.refused fields.scope value = false
  distinct : ∀ one ∈ ops, ∀ other ∈ ops, one.id ≠ other.id → ∀ first second,
    one.d = .record first → other.d = .record second → first.scope = second.scope →
      first.name = second.name → collection.fromJson first.body ≠ collection.fromJson second.body
  suffixFree : ∀ one ∈ ops, ∀ other ∈ ops, one.id ≠ other.id → ∀ first second,
    one.d = .record first → other.d = .record second → first.scope = second.scope →
      Rows.suffixName first.name one.id 6 ≠ second.name ∧
      Rows.suffixName first.name one.id 6 ≠ Rows.suffixName second.name other.id 6

theorem Plain.mono {collection : Collection Body Value} {ops fewer : List (RecordOp Body)}
    (plain : Plain collection ops) (within : ∀ op ∈ fewer, op ∈ ops) : Plain collection fewer where
  stamped one oneHere other otherHere :=
    plain.stamped one (within one oneHere) other (within other otherHere)
  readable op here := plain.readable op (within op here)
  accepted op here := plain.accepted op (within op here)
  distinct one oneHere other otherHere :=
    plain.distinct one (within one oneHere) other (within other otherHere)
  suffixFree one oneHere other otherHere :=
    plain.suffixFree one (within one oneHere) other (within other otherHere)

namespace Records

/-- The name of a record here. -/
def nameOf (records : Records Value) (id : RecordId) : Option String :=
  (records.row id).map Fields.name

/-- Two devices hold the same ids, each under the same name. -/
def SameNames (first second : Records Value) : Prop := ∀ id, first.nameOf id = second.nameOf id

/-! ### What a device holds -/

/-- A row is an op's record, under the op's name or that name with the suffix. -/
def Shows (collection : Collection Body Value) (op : RecordOp Body) (row : Fields Value) : Prop :=
  ∃ fields, op.d = .record fields ∧ collection.fromJson fields.body = some row.body ∧
    row.scope = fields.scope ∧
    (row.name = fields.name ∨ row.name = Rows.suffixName fields.name op.id 6)

/-- What a device holds once `last` is the last op written of each record. -/
structure Holds (collection : Collection Body Value) (ops : List (RecordOp Body))
    (last : RecordId → Option (RecordOp Body)) (records : Records Value) : Prop where
  last_mem : ∀ id op, last id = some op → op ∈ ops ∧ op.id = id
  stamps : ∀ id, records.stamps.lookup id = (last id).map SyncOp.h
  aliases : ∀ id, records.aliasOf id = none
  shows : ∀ id row, records.row id = some row → ∃ op, last id = some op ∧ Shows collection op row
  present : ∀ id op fields, last id = some op → op.d = .record fields → records.row id ≠ none
  contested : ∀ id row op fields, records.row id = some row → last id = some op →
    op.d = .record fields → row.name ≠ fields.name →
    ∃ other ∈ ops, other.id ≠ id ∧ op.h < other.h ∧ Names fields.scope fields.name other
  cached : ∀ table ∈ records.cache, ∀ id row, table.lookup id = some row →
    ∃ op ∈ ops, op.id = id ∧ Shows collection op row

/-- The last ops once one more was written. -/
def written (last : RecordId → Option (RecordOp Body)) (op : RecordOp Body) :
    RecordId → Option (RecordOp Body) :=
  Function.update last op.id (some op)

theorem holds_empty (collection : Collection Body Value) (ops : List (RecordOp Body)) :
    Holds collection ops (fun _ => none) ({} : Records Value) where
  last_mem := by simp
  stamps id := by simp
  aliases id := by simp [aliasOf]
  shows id row found := by simp [Records.row] at found
  present := by simp
  contested := by simp
  cached := by simp

section

variable {collection : Collection Body Value} {ops : List (RecordOp Body)}
  {last : RecordId → Option (RecordOp Body)} {records : Records Value} {op : RecordOp Body}

theorem Holds.heldId_eq (holds : Holds collection ops last records) (id : RecordId) :
    records.heldId id = id := by
  rw [heldId, holds.aliases id, Option.getD_none]

theorem Holds.fetch (holds : Holds collection ops last records) :
    Holds collection ops last records.fetch where
  last_mem := holds.last_mem
  stamps := holds.stamps
  aliases := holds.aliases
  shows := holds.shows
  present := holds.present
  contested := holds.contested
  cached table isCache id row found := by
    obtain rfl := Option.some.inj isCache
    cases before : records.cache with
    | some cached =>
        rw [before, Option.getD_some] at found
        exact holds.cached cached before id row found
    | none =>
        rw [before, Option.getD_none] at found
        obtain ⟨op, isLast, shows⟩ := holds.shows id row found
        obtain ⟨member, sameId⟩ := holds.last_mem id op isLast
        exact ⟨op, member, sameId, shows⟩

theorem Holds.invalidate (holds : Holds collection ops last records) :
    Holds collection ops last records.invalidate where
  last_mem := holds.last_mem
  stamps := holds.stamps
  aliases := holds.aliases
  shows := holds.shows
  present := holds.present
  contested := holds.contested
  cached table isCache := absurd isCache (by simp [Records.invalidate])

theorem Holds.mayFetch {fetched : Records Value} (holds : Holds collection ops last records)
    (may : MayFetch records fetched) : Holds collection ops last fetched := by
  obtain rfl | rfl := may
  · exact holds
  · exact holds.fetch

/-! ### Who holds a name -/

/-- A row under the name of another record's op is its own op's, which has that name too. -/
theorem Holds.op_of_holder (plain : Plain collection ops) (holds : Holds collection ops last records)
    (member : op ∈ ops) {fields : Fields Body} (isRecord : op.d = .record fields)
    {holder : RecordId} {row : Fields Value} (apart : holder ≠ op.id)
    (found : records.row holder = some row) (sameScope : row.scope = fields.scope)
    (sameName : row.name = fields.name) :
    ∃ other held, last holder = some other ∧ other ∈ ops ∧ other.id = holder ∧
      other.d = .record held ∧ collection.fromJson held.body = some row.body ∧
      held.scope = fields.scope ∧ held.name = fields.name := by
  obtain ⟨other, isLast, held, otherRecord, decoded, otherScope, named⟩ := holds.shows holder row found
  obtain ⟨otherHere, otherId⟩ := holds.last_mem holder other isLast
  refine ⟨other, held, isLast, otherHere, otherId, otherRecord, decoded,
    otherScope.symm.trans sameScope, ?_⟩
  rcases named with own | suffix
  · exact own.symm.trans sameName
  · have clear := plain.suffixFree other otherHere op member (otherId.symm ▸ apart) held fields
      otherRecord isRecord (otherScope.symm.trans sameScope)
    exact absurd (suffix.symm.trans sameName) clear.1

/-- No other row is named as an op's record with its suffix. -/
theorem Holds.suffix_unheld (plain : Plain collection ops)
    (holds : Holds collection ops last records) (member : op ∈ ops) {fields : Fields Body}
    (isRecord : op.d = .record fields) :
    records.rows.holderOf op.id fields.scope (Rows.suffixName fields.name op.id 6) = none := by
  rw [Rows.holderOf_eq_none]
  intro other row found sameScope sameName
  by_contra apart
  obtain ⟨otherOp, isLast, held, otherRecord, -, otherScope, named⟩ := holds.shows other row found
  obtain ⟨otherHere, rfl⟩ := holds.last_mem other otherOp isLast
  have clear := plain.suffixFree op member otherOp otherHere (Ne.symm apart) fields held isRecord
    otherRecord (sameScope.symm.trans otherScope)
  rcases named with own | suffix
  · exact clear.1 (sameName.symm.trans own)
  · exact clear.2 (sameName.symm.trans suffix)

variable [DecidableEq Value]

/-- No record here is the same in every field as another op's. -/
theorem Holds.not_sameBut (plain : Plain collection ops) (holds : Holds collection ops last records)
    (member : op ∈ ops) {fields : Fields Body} (isRecord : op.d = .record fields)
    {holder : RecordId} (apart : holder ≠ op.id) : sameBut collection records holder fields = false := by
  unfold sameBut
  cases cached : records.cache.bind (·.lookup holder) with
  | none => rfl
  | some item =>
      cases decoded : collection.fromJson fields.body with
      | none => rfl
      | some incoming =>
          obtain ⟨table, isCache, found⟩ := Option.bind_eq_some_iff.mp cached
          obtain ⟨other, otherHere, rfl, held, otherRecord, otherDecoded, otherScope, named⟩ :=
            holds.cached table isCache holder item found
          by_contra twin
          simp only [Bool.not_eq_false, Bool.and_eq_true, decide_eq_true_eq] at twin
          obtain ⟨⟨sameScope, sameName⟩, sameBody⟩ := twin
          have inScope : held.scope = fields.scope := otherScope.symm.trans sameScope
          rcases named with own | suffix
          · refine plain.distinct other otherHere op member apart held fields otherRecord isRecord
              inScope (own.symm.trans sameName) ?_
            rw [otherDecoded, decoded, sameBody]
          · exact (plain.suffixFree other otherHere op member apart held fields otherRecord isRecord
              inScope).1 (suffix.symm.trans sameName)

/-! ### One op more -/

omit [DecidableEq Value] in
theorem Holds.record_stamps (holds : Holds collection ops last records)
    (after : Stamp.After (records.stamps.lookup op.id) op.h) (id : RecordId) :
    (records.stamps.record op.id op.h).lookup id = (written last op id).map SyncOp.h := by
  by_cases same : id = op.id
  · subst same
    rw [Stamps.lookup_record_after after, written, Function.update_self, Option.map_some]
  · rw [Stamps.lookup_record_other _ _ same, written, Function.update_of_ne same]
    exact holds.stamps id

omit [DecidableEq Value] in
theorem Holds.written_mem (holds : Holds collection ops last records) (member : op ∈ ops)
    (id : RecordId) (other : RecordOp Body) (isLast : written last op id = some other) :
    other ∈ ops ∧ other.id = id := by
  by_cases same : id = op.id
  · subst same
    rw [written, Function.update_self] at isLast
    obtain rfl := Option.some.inj isLast
    exact ⟨member, rfl⟩
  · rw [written, Function.update_of_ne same] at isLast
    exact holds.last_mem id other isLast

omit [DecidableEq Value] in
/-- A record deleted. -/
theorem Holds.delete (holds : Holds collection ops last records) (member : op ∈ ops)
    (after : Stamp.After (records.stamps.lookup op.id) op.h) (isDelete : op.d = .deleted) :
    Holds collection ops (written last op)
      ({ records with rows := records.rows.delete op.id }.record op.id op.h) where
  last_mem := holds.written_mem member
  stamps := holds.record_stamps after
  aliases := holds.aliases
  shows id row found := by
    have kept : id ≠ op.id ∧ records.row id = some row := by
      by_cases same : id = op.id
      · subst same
        simp [Records.row, record, Rows.delete] at found
      · exact ⟨same, (AList.lookup_erase_ne same).symm.trans found⟩
    rw [written, Function.update_of_ne kept.1]
    exact holds.shows id row kept.2
  present id other fields isLast isRecord := by
    by_cases same : id = op.id
    · subst same
      rw [written, Function.update_self] at isLast
      obtain rfl := Option.some.inj isLast
      rw [isDelete] at isRecord
      exact absurd isRecord (by simp)
    · rw [written, Function.update_of_ne same] at isLast
      have before := holds.present id other fields isLast isRecord
      exact fun gone => before ((AList.lookup_erase_ne same).symm.trans gone)
  contested id row other fields found isLast := by
    have kept : id ≠ op.id ∧ records.row id = some row := by
      by_cases same : id = op.id
      · subst same
        simp [Records.row, record, Rows.delete] at found
      · exact ⟨same, (AList.lookup_erase_ne same).symm.trans found⟩
    rw [written, Function.update_of_ne kept.1] at isLast
    exact holds.contested id row other fields kept.2 isLast
  cached := holds.cached

omit [DecidableEq Value] in
/-- A record written, and another renamed or none: `row` is the op's, and what is renamed
had the name of the op. -/
theorem Holds.upsert (holds : Holds collection ops last records) (member : op ∈ ops)
    (after : Stamp.After (records.stamps.lookup op.id) op.h) {rows : Rows Value}
    {fields : Fields Body} {row : Fields Value} {rename : Option (RecordId × String)}
    (isRecord : op.d = .record fields) (shows : Shows collection op row)
    (lookups : ∀ other, rows.table.lookup other =
      if other = op.id then some row else (records.row other).map (Rows.renamedFields rename other))
    (contested : row.name ≠ fields.name →
      ∃ other ∈ ops, other.id ≠ op.id ∧ op.h < other.h ∧ Names fields.scope fields.name other)
    (renamed : ∀ holder name, rename = some (holder, name) → ∃ other held, last holder = some other ∧
      other.d = .record held ∧ held.scope = fields.scope ∧ held.name = fields.name ∧
      other.h < op.h ∧ name = Rows.suffixName held.name holder 6) :
    Holds collection ops (written last op) ({ records with rows }.record op.id op.h) where
  last_mem := holds.written_mem member
  stamps := holds.record_stamps after
  aliases := holds.aliases
  shows id now found := by
    have looked := (lookups id).symm.trans found
    by_cases same : id = op.id
    · subst same
      rw [if_pos rfl] at looked
      obtain rfl := Option.some.inj looked
      exact ⟨op, by rw [written, Function.update_self], shows⟩
    · rw [if_neg same] at looked
      obtain ⟨before, beforeFound, rfl⟩ := Option.map_eq_some_iff.mp looked
      obtain ⟨other, isLast, held, otherRecord, decoded, sameScope, named⟩ :=
        holds.shows id before beforeFound
      refine ⟨other, by rw [written, Function.update_of_ne same, isLast], held, otherRecord, ?_, ?_, ?_⟩
      · rw [Rows.renamedFields_body, decoded]
      · rw [Rows.renamedFields_scope, sameScope]
      · cases rename with
        | none => exact named
        | some pair =>
            obtain ⟨holder, name⟩ := pair
            by_cases isHolder : id = holder
            · subst isHolder
              obtain ⟨one, oneFields, oneLast, oneRecord, -, -, -, suffix⟩ := renamed id name rfl
              obtain rfl := Option.some.inj (oneLast.symm.trans isLast)
              obtain rfl := Change.record.inj (oneRecord.symm.trans otherRecord)
              obtain ⟨-, sameId⟩ := holds.last_mem id one isLast
              right
              rw [sameId]
              simpa only [Rows.renamedFields, if_true] using suffix
            · simpa only [Rows.renamedFields, if_neg isHolder] using named
  present id other held isLast otherRecord := by
    have looked := lookups id
    by_cases same : id = op.id
    · rw [if_pos same] at looked
      exact fun gone => absurd (gone.symm.trans looked) (by simp)
    · rw [written, Function.update_of_ne same] at isLast
      rw [if_neg same] at looked
      intro gone
      have missing := Option.map_eq_none_iff.mp (looked.symm.trans gone)
      exact holds.present id other held isLast otherRecord missing
  contested id now other held found isLast otherRecord changed := by
    have looked := (lookups id).symm.trans found
    by_cases same : id = op.id
    · subst same
      rw [if_pos rfl] at looked
      obtain rfl := Option.some.inj looked
      rw [written, Function.update_self] at isLast
      obtain rfl := Option.some.inj isLast
      obtain rfl := Change.record.inj (isRecord.symm.trans otherRecord)
      exact contested changed
    · rw [written, Function.update_of_ne same] at isLast
      rw [if_neg same] at looked
      obtain ⟨before, beforeFound, rfl⟩ := Option.map_eq_some_iff.mp looked
      cases rename with
      | none => exact holds.contested id before other held beforeFound isLast otherRecord changed
      | some pair =>
          obtain ⟨holder, name⟩ := pair
          by_cases isHolder : id = holder
          · subst isHolder
            obtain ⟨one, oneFields, oneLast, oneRecord, sameScope, sameName, earlier, -⟩ :=
              renamed id name rfl
            obtain rfl := Option.some.inj (oneLast.symm.trans isLast)
            obtain rfl := Change.record.inj (oneRecord.symm.trans otherRecord)
            exact ⟨op, member, Ne.symm same, earlier, fields, isRecord, sameScope.symm, sameName.symm⟩
          · rw [Rows.renamedFields, if_neg isHolder] at changed
            exact holds.contested id before other held beforeFound isLast otherRecord changed
  cached := holds.cached

/-- What `_yieldName` has another row renamed for: that row's op has the name and an earlier
stamp, and the row takes the suffix. -/
theorem Holds.yields_rename (plain : Plain collection ops)
    (holds : Holds collection ops last records) (member : op ∈ ops) {fields kept : Fields Body}
    {fetched : Records Value} {rename : Option (RecordId × String)}
    (isRecord : op.d = .record fields)
    (yielded : YieldName collection records op.id op.h fields fetched (.write rename kept))
    (holder : RecordId) (name : String) (renames : rename = some (holder, name)) :
    ∃ other held, last holder = some other ∧ other.d = .record held ∧ held.scope = fields.scope ∧
      held.name = fields.name ∧ other.h < op.h ∧ name = Rows.suffixName held.name holder 6 := by
  cases yielded with
  | free => exact absurd renames (by simp)
  | loses => exact absurd renames (by simp)
  | wins held may isAfter =>
      obtain ⟨rfl, rfl⟩ := Prod.mk.inj (Option.some.inj renames)
      obtain ⟨apart, row, found, sameScope, sameName⟩ := Rows.holderOf_eq_some held
      obtain ⟨other, heldFields, isLast, otherHere, rfl, otherRecord, -, inScope, inName⟩ :=
        holds.op_of_holder plain member isRecord apart found sameScope sameName
      refine ⟨other, heldFields, isLast, otherRecord, inScope, inName, ?_, ?_⟩
      · rw [holds.stamps, isLast] at isAfter
        exact isAfter
      · rw [← inScope, ← inName]
        exact Rows.suffixed_of_free (holds.suffix_unheld plain otherHere otherRecord)

/-- The name an op's record is written under: its own, or the suffixed where another
record holds the name at a later stamp. -/
theorem Holds.yields_name (plain : Plain collection ops)
    (holds : Holds collection ops last records) (member : op ∈ ops) {fields kept : Fields Body}
    {fetched : Records Value} {rename : Option (RecordId × String)}
    (isRecord : op.d = .record fields)
    (yielded : YieldName collection records op.id op.h fields fetched (.write rename kept)) :
    kept.name = fields.name ∨
      kept.name = Rows.suffixName fields.name op.id 6 ∧
        ∃ other ∈ ops, other.id ≠ op.id ∧ op.h < other.h ∧ Names fields.scope fields.name other := by
  cases yielded with
  | free => exact .inl rfl
  | wins => exact .inl rfl
  | @loses holder _ held may notAfter =>
      obtain ⟨apart, row, found, sameScope, sameName⟩ := Rows.holderOf_eq_some held
      obtain ⟨other, heldFields, isLast, otherHere, rfl, otherRecord, -, inScope, inName⟩ :=
        holds.op_of_holder plain member isRecord apart found sameScope sameName
      refine .inr ⟨Rows.suffixed_of_free (holds.suffix_unheld plain member isRecord), other, otherHere,
        apart, ?_, heldFields, otherRecord, inScope, inName⟩
      rw [holds.stamps, isLast, Option.map_some, Stamp.after_some, not_lt] at notAfter
      rcases notAfter.lt_or_eq with later | same
      · exact later
      · exact absurd (congrArg SyncOp.id (plain.stamped op member other otherHere same)).symm apart

/-- SQLite refuses none of the writes. -/
theorem Holds.writeRows_ne_none (plain : Plain collection ops)
    (holds : Holds collection ops last records) (member : op ∈ ops) {fields kept : Fields Body}
    {fetched : Records Value} {rename : Option (RecordId × String)} {value : Value}
    (isRecord : op.d = .record fields) (decoded : collection.fromJson fields.body = some value)
    (yielded : YieldName collection records op.id op.h fields fetched (.write rename kept)) :
    writeRows collection records.rows op.id rename
      { scope := kept.scope, name := kept.name, body := value } ≠ none := by
  obtain ⟨known, isKnown, accepted⟩ := plain.accepted op member fields isRecord
  obtain rfl := Option.some.inj (isKnown.symm.trans decoded)
  have suffixFree := holds.suffix_unheld plain member isRecord
  refine Option.ne_none_iff_exists'.mpr ?_
  cases yielded with
  | free unheld => exact writeRows_none_of_free accepted unheld
  | loses held =>
      refine writeRows_none_of_free accepted ?_
      rw [Rows.suffixed_of_free suffixFree]
      exact suffixFree
  | wins held =>
      obtain ⟨apart, row, found, sameScope, sameName⟩ := Rows.holderOf_eq_some held
      obtain ⟨other, heldFields, isLast, otherHere, rfl, otherRecord, -, inScope, inName⟩ :=
        holds.op_of_holder plain member isRecord apart found sameScope sameName
      have unheld := holds.suffix_unheld plain otherHere otherRecord
      rw [inScope, inName] at unheld
      rw [Rows.suffixed_of_free unheld]
      exact @writeRows_some_of_free _ _ collection records.rows op.id other.id
        { scope := fields.scope, name := fields.name, body := known } 6 accepted held unheld

/-- One op written keeps what is held, its record's last op now. -/
theorem Holds.entity (plain : Plain collection ops) (holds : Holds collection ops last records)
    (member : op ∈ ops) (after : Stamp.After (records.stamps.lookup op.id) op.h) :
    Holds collection ops (written last op) (entity collection records op) := by
  have heldHere := holds.heldId_eq op.id
  have step := entity_cases collection records op
  generalize Records.entity collection records op = next at step ⊢
  cases step with
  | deleted isDelete =>
      rw [heldHere, recordBoth_self]
      exact holds.delete member after isDelete
  | unreadable isUnreadable => exact absurd isUnreadable (plain.readable op member)
  | aliased isRecord held absent same =>
      have apart := (Rows.holderOf_eq_some held).1
      rw [heldHere] at apart
      rw [holds.fetch.not_sameBut plain member isRecord apart] at same
      exact absurd same (by simp)
  | skipped isRecord yielded refused =>
      rw [heldHere] at yielded refused
      obtain ⟨value, decoded, -⟩ := plain.accepted op member _ isRecord
      exact absurd (refused value decoded)
        (holds.writeRows_ne_none plain member isRecord decoded yielded)
  | @written fields kept fetched rename value rows isRecord yielded decoded done =>
      rw [heldHere] at yielded done ⊢
      rw [recordBoth_self]
      obtain ⟨may, sameScope, -⟩ := yielded.write_kept
      have fetchedHolds := holds.mayFetch may
      rw [← may.stamps_eq] at after
      rw [← may.rows_eq] at done
      have named := holds.yields_name plain member isRecord yielded
      refine fetchedHolds.upsert member after isRecord ⟨fields, isRecord, decoded, sameScope, ?_⟩
        (lookup_writeRows done) ?_ (holds.yields_rename plain member isRecord yielded)
      · exact named.imp id And.left
      · intro changed
        exact (named.resolve_left changed).2

/-- A row that gave up its name stays as it is under ops of other records. -/
theorem Holds.row_of_suffixed (holds : Holds collection ops last records) {id : RecordId}
    {row : Fields Value} {mine : RecordOp Body} {fields : Fields Body} (plain : Plain collection ops)
    (member : op ∈ ops) (apart : id ≠ op.id) (isLast : last id = some mine)
    (isRecord : mine.d = .record fields) (found : records.row id = some row)
    (changed : row.name ≠ fields.name) : (Records.entity collection records op).row id = some row := by
  have heldHere := holds.heldId_eq op.id
  have step := entity_cases collection records op
  generalize Records.entity collection records op = next at step ⊢
  cases step with
  | deleted isDelete =>
      rw [heldHere, recordBoth_self]
      exact (AList.lookup_erase_ne apart).trans found
  | unreadable => exact found
  | aliased => exact found
  | skipped opRecord yielded refused =>
      obtain ⟨may, -, -⟩ := yielded.write_kept
      rw [Records.row, may.rows_eq]
      exact found
  | @written opFields kept fetched rename value rows opRecord yielded decoded done =>
      rw [heldHere] at yielded done ⊢
      rw [recordBoth_self]
      refine (lookup_writeRows done id).trans ?_
      change (if id = op.id then _ else (records.row id).map _) = some row
      rw [if_neg apart, found, Option.map_some, Option.some.injEq]
      cases rename with
      | none => rfl
      | some pair =>
          obtain ⟨holder, name⟩ := pair
          by_cases isHolder : id = holder
          · -- The row would have the op's name, which is its own op's then.
            subst isHolder
            obtain ⟨other, held, otherLast, otherRecord, -, sameName, -, -⟩ :=
              holds.yields_rename plain member opRecord yielded id name rfl
            obtain rfl := Option.some.inj (otherLast.symm.trans isLast)
            obtain rfl := Change.record.inj (otherRecord.symm.trans isRecord)
            cases yielded with
            | wins holding =>
                obtain ⟨-, now, nowFound, -, nowName⟩ := Rows.holderOf_eq_some holding
                obtain rfl := Option.some.inj (nowFound.symm.trans found)
                exact absurd (nowName.trans sameName.symm) changed
          · exact if_neg isHolder

/-! ### A batch -/

omit [DecidableEq Value] in
theorem foldl_written_other {won : List (RecordOp Body)} {id : RecordId}
    (apart : ∀ op ∈ won, op.id ≠ id) (last : RecordId → Option (RecordOp Body)) :
    won.foldl written last id = last id := by
  induction won generalizing last with
  | nil => rfl
  | cons op rest inductionHypothesis =>
      rw [List.foldl_cons, inductionHypothesis fun other here => apart other (List.mem_cons_of_mem _ here),
        written, Function.update_of_ne (apart op List.mem_cons_self).symm]

omit [DecidableEq Value] in
theorem foldl_written_mem {won : List (RecordOp Body)} {op : RecordOp Body}
    (distinct : (won.map SyncOp.id).Nodup) (member : op ∈ won)
    (last : RecordId → Option (RecordOp Body)) : won.foldl written last op.id = some op := by
  induction won generalizing last with
  | nil => exact absurd member List.not_mem_nil
  | cons first rest inductionHypothesis =>
      rw [List.map_cons, List.nodup_cons] at distinct
      rw [List.foldl_cons]
      rcases List.mem_cons.mp member with rfl | later
      · rw [foldl_written_other, written, Function.update_self]
        intro other here same
        exact distinct.1 (same ▸ List.mem_map_of_mem here)
      · exact inductionHypothesis distinct.2 later _

/-- A list of ops written, each of another record and after what is here. -/
theorem Holds.write (plain : Plain collection ops) {won : List (RecordOp Body)}
    (holds : Holds collection ops last records) (within : ∀ op ∈ won, op ∈ ops)
    (after : ∀ op ∈ won, Stamp.After (records.stamps.lookup op.id) op.h)
    (distinct : (won.map SyncOp.id).Nodup) :
    Holds collection ops (won.foldl written last) (write collection records won) := by
  induction won generalizing last records with
  | nil => exact holds
  | cons op rest inductionHypothesis =>
      rw [List.map_cons, List.nodup_cons] at distinct
      have next := holds.entity plain (within op List.mem_cons_self) (after op List.mem_cons_self)
      refine inductionHypothesis next (fun other here => within other (List.mem_cons_of_mem _ here)) ?_
        distinct.2
      intro other here
      have apart : other.id ≠ op.id := fun same => distinct.1 (same ▸ List.mem_map_of_mem here)
      rw [next.stamps, written, Function.update_of_ne apart, ← holds.stamps]
      exact after other (List.mem_cons_of_mem _ here)

theorem Holds.announce (plain : Plain collection ops) {won : List (RecordOp Body)}
    (holds : Holds collection ops last records) (within : ∀ op ∈ won, op ∈ ops)
    (after : ∀ op ∈ won, Stamp.After (records.stamps.lookup op.id) op.h)
    (distinct : (won.map SyncOp.id).Nodup) :
    Holds collection ops (won.foldl written last) (announce collection records won) := by
  unfold Records.announce
  cases collection.fetchedFirst with
  | false => exact (holds.write plain within after distinct).invalidate
  | true => exact (holds.fetch.write plain within after distinct).invalidate.fetch

/-- The last op of each record once a batch was received. -/
def lastOf (winners : SyncWinners RecordId (Change Body)) (last : RecordId → Option (RecordOp Body))
    (received : List (RecordOp Body)) : RecordId → Option (RecordOp Body) :=
  (winners.winners received fun id => (last id).map SyncOp.h).foldl written last

variable (winners : SyncWinners RecordId (Change Body)) {received : List (RecordOp Body)}

theorem Holds.apply (plain : Plain collection ops) (holds : Holds collection ops last records)
    (within : ∀ op ∈ winners.winners received (fun id => (last id).map SyncOp.h), op ∈ ops) :
    Holds collection ops (lastOf winners last received) (apply winners collection records received) := by
  have held : records.stamps.lookup = fun id => (last id).map SyncOp.h := funext holds.stamps
  rw [Records.apply, lastOf, held]
  split
  · rename_i nothing
    rw [nothing]
    exact holds
  · refine holds.announce plain within (fun op here => ?_) (winners.distinct _ _)
    rw [holds.stamps]
    exact (winners.of_mem here).2.1

/-- A row that gave up its name stays as it is under a batch of other records. -/
theorem Holds.apply_row_of_suffixed (plain : Plain collection ops)
    (holds : Holds collection ops last records)
    (within : ∀ op ∈ winners.winners received (fun id => (last id).map SyncOp.h), op ∈ ops)
    {id : RecordId} (apart : ∀ op ∈ winners.winners received (fun id => (last id).map SyncOp.h),
      id ≠ op.id)
    {row : Fields Value} {mine : RecordOp Body} {fields : Fields Body} (isLast : last id = some mine)
    (isRecord : mine.d = .record fields) (found : records.row id = some row)
    (changed : row.name ≠ fields.name) :
    (Records.apply winners collection records received).row id = some row := by
  have writes : ∀ (won : List (RecordOp Body)) (last : RecordId → Option (RecordOp Body))
      (records : Records Value), Holds collection ops last records → (∀ op ∈ won, op ∈ ops) →
      (∀ op ∈ won, Stamp.After (records.stamps.lookup op.id) op.h) → (won.map SyncOp.id).Nodup →
      (∀ op ∈ won, id ≠ op.id) → last id = some mine → records.row id = some row →
      (Records.write collection records won).row id = some row := by
    intro won
    induction won with
    | nil => intro last records _ _ _ _ _ _ found; exact found
    | cons op rest inductionHypothesis =>
        intro last records holds within after distinct apart isLast found
        rw [List.map_cons, List.nodup_cons] at distinct
        have next := holds.entity plain (within op List.mem_cons_self) (after op List.mem_cons_self)
        refine inductionHypothesis (written last op) _ next
          (fun other here => within other (List.mem_cons_of_mem _ here)) ?_ distinct.2
          (fun other here => apart other (List.mem_cons_of_mem _ here)) ?_ ?_
        · intro other here
          have differ : other.id ≠ op.id := fun same => distinct.1 (same ▸ List.mem_map_of_mem here)
          rw [next.stamps, written, Function.update_of_ne differ, ← holds.stamps]
          exact after other (List.mem_cons_of_mem _ here)
        · rw [written, Function.update_of_ne (apart op List.mem_cons_self), isLast]
        · exact holds.row_of_suffixed plain (within op List.mem_cons_self) (apart op List.mem_cons_self)
            isLast isRecord found changed
  have held : records.stamps.lookup = fun id => (last id).map SyncOp.h := funext holds.stamps
  have after : ∀ op ∈ winners.winners received (fun id => (last id).map SyncOp.h),
      Stamp.After (records.stamps.lookup op.id) op.h := by
    intro op here
    rw [holds.stamps]
    exact (winners.of_mem here).2.1
  rw [Records.apply, held]
  split
  · exact found
  · unfold Records.announce
    cases collection.fetchedFirst with
    | false => exact writes _ last records holds within after (winners.distinct _ _) apart isLast found
    | true =>
        exact writes _ last records.fetch holds.fetch within after (winners.distinct _ _) apart
          isLast found

end

end Records

end ServerBox.Sync
