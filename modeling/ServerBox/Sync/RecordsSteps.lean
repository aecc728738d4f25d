import ServerBox.Sync.Records

/-!
# What a received op can do to the records

`entity_cases` says once what `_entity` does: it deletes, passes an op over, makes an
alias, or writes a row and renames at most one other. The row of every id after a write
is `lookup_writeRows`; `writeRows_of_free` is when SQLite refuses nothing.
-/

namespace ServerBox.Sync

open ServerBox.Std ServerBox.Store

variable {Body Value : Type}

namespace Rows

/-- A renamed row, and every other row as it was. -/
def renamedFields (rename : Option (RecordId × String)) (other : RecordId)
    (row : Fields Value) : Fields Value :=
  match rename with
  | none => row
  | some (holder, name) => if other = holder then { row with name } else row

@[simp] theorem renamedFields_scope (rename : Option (RecordId × String)) (other : RecordId)
    (row : Fields Value) : (renamedFields rename other row).scope = row.scope := by
  unfold renamedFields
  split
  · rfl
  · split <;> rfl

@[simp] theorem renamedFields_body (rename : Option (RecordId × String)) (other : RecordId)
    (row : Fields Value) : (renamedFields rename other row).body = row.body := by
  unfold renamedFields
  split
  · rfl
  · split <;> rfl

theorem lookup_rename {rows renamed : Rows Value} {holder : RecordId} {name : String}
    (done : rows.rename holder name = some renamed) (other : RecordId) :
    renamed.table.lookup other =
      (rows.table.lookup other).map (renamedFields (some (holder, name)) other) := by
  unfold rename at done
  split at done
  · rename_i missing
    obtain rfl := Option.some.inj done
    by_cases same : other = holder
    · rw [same, missing, Option.map_none]
    · cases rows.table.lookup other with
      | none => rfl
      | some row => simp [renamedFields, same]
  · rename_i row found
    rw [upsert_eq_some done, Table.lookup_insert_ite]
    by_cases same : other = holder
    · subst same
      simp [renamedFields, found]
    · rw [if_neg same]
      cases rows.table.lookup other with
      | none => rfl
      | some row => simp [renamedFields, same]

/-- A holder can be renamed to a name no other row has. -/
theorem rename_of_free {rows : Rows Value} {holder : RecordId} {row : Fields Value} {name : String}
    (found : rows.table.lookup holder = some row)
    (free : rows.holderOf holder row.scope name = none) :
    ∃ renamed, rows.rename holder name = some renamed := by
  obtain ⟨renamed, done, -⟩ := @upsert_of_free _ rows holder { row with name } free
  refine ⟨renamed, ?_⟩
  simp only [rename, found]
  exact done

end Rows

namespace Records

variable {collection : Collection Body Value}

/-! ### Rows written -/

/-- The row of each id after the transaction of `_entity`. -/
theorem lookup_writeRows {rows written : Rows Value} {id : RecordId}
    {rename : Option (RecordId × String)} {row : Fields Value}
    (done : writeRows collection rows id rename row = some written) (other : RecordId) :
    written.table.lookup other =
      if other = id then some row
      else (rows.table.lookup other).map (Rows.renamedFields rename other) := by
  unfold writeRows at done
  obtain ⟨renamed, renameDone, rest⟩ := Option.bind_eq_some_iff.mp done
  have before : renamed.table.lookup other =
      (rows.table.lookup other).map (Rows.renamedFields rename other) := by
    cases rename with
    | none =>
        obtain rfl := Option.some.inj renameDone
        cases rows.table.lookup other <;> rfl
    | some pair => exact Rows.lookup_rename renameDone other
  split at rest
  · exact absurd rest (by simp)
  · rw [Rows.upsert_eq_some rest, Table.lookup_insert_ite, before]

/-- With no rename, a row is written where its name is no other row's. -/
theorem writeRows_none_of_free {rows : Rows Value} {id : RecordId} {row : Fields Value}
    (accepted : collection.refused row.scope row.body = false)
    (free : rows.holderOf id row.scope row.name = none) :
    ∃ written, writeRows collection rows id none row = some written := by
  obtain ⟨written, done, -⟩ := Rows.upsert_of_free free
  refine ⟨written, ?_⟩
  simp only [writeRows, Rows.renameFor, accepted, Option.bind_some, Bool.false_eq_true, if_false]
  exact done

/-- A row takes the name of its holder where the holder's new name is no other row's. -/
theorem writeRows_some_of_free {rows : Rows Value} {id holder : RecordId} {row : Fields Value}
    {len : Nat} (accepted : collection.refused row.scope row.body = false)
    (held : rows.holderOf id row.scope row.name = some holder)
    (free : rows.holderOf holder row.scope (Rows.suffixName row.name holder len) = none) :
    ∃ written, writeRows collection rows id
      (some (holder, Rows.suffixName row.name holder len)) row = some written := by
  obtain ⟨apart, holding, found, sameScope, sameName⟩ := Rows.holderOf_eq_some held
  obtain ⟨renamed, renameDone⟩ := Rows.rename_of_free found (sameScope ▸ free)
  have freed : renamed.holderOf id row.scope row.name = none := by
    rw [Rows.holderOf_eq_none]
    intro other otherRow otherFound otherScope otherName
    rw [Rows.lookup_rename renameDone other] at otherFound
    obtain ⟨before, beforeFound, rfl⟩ := Option.map_eq_some_iff.mp otherFound
    rw [Rows.renamedFields_scope] at otherScope
    exfalso
    by_cases same : other = holder
    · -- The holder's new name is longer than the one it gave up.
      have longer := Rows.length_suffixName row.name holder len
      simp only [Rows.renamedFields, same, if_true] at otherName
      rw [otherName] at longer
      exact lt_irrefl _ longer
    · simp only [Rows.renamedFields, if_neg same] at otherName
      exact same (rows.unique other holder before holding beforeFound found
        (otherScope.trans sameScope.symm) (otherName.trans sameName.symm))
  obtain ⟨written, done, -⟩ := Rows.upsert_of_free freed
  refine ⟨written, ?_⟩
  simp only [writeRows, Rows.renameFor, renameDone, accepted, Option.bind_some,
    Bool.false_eq_true, if_false]
  exact done

theorem recordBoth_self (records : Records Value) (id : RecordId) (h : Stamp) :
    records.recordBoth id id h = records.record id h := if_pos rfl

@[simp] theorem row_recordBoth (records : Records Value) (id opId : RecordId) (h : Stamp) :
    (records.recordBoth id opId h).row = records.row := by
  unfold recordBoth
  dsimp only
  split <;> rfl

@[simp] theorem aliasOf_recordBoth (records : Records Value) (id opId : RecordId) (h : Stamp) :
    (records.recordBoth id opId h).aliasOf = records.aliasOf := by
  unfold recordBoth
  dsimp only
  split <;> rfl

/-- The stamps once a write after both was recorded. -/
theorem lookup_recordBoth {records : Records Value} {id opId : RecordId} {h : Stamp}
    (after : Stamp.After (records.stamps.lookup id) h)
    (afterOp : Stamp.After (records.stamps.lookup opId) h) (other : RecordId) :
    (records.recordBoth id opId h).stamps.lookup other =
      if other = id ∨ other = opId then some h else records.stamps.lookup other := by
  unfold recordBoth
  by_cases same : id = opId
  · subst same
    simp only [if_true, or_self]
    by_cases isId : other = id
    · rw [if_pos isId, isId]
      exact Stamps.lookup_record_after after
    · rw [if_neg isId]
      exact Stamps.lookup_record_other _ h isId
  · simp only [if_neg same]
    by_cases isOp : other = opId
    · subst isOp
      rw [if_pos (.inr rfl)]
      refine Stamps.lookup_record_after ?_
      have kept : (records.record id h).stamps.lookup other = records.stamps.lookup other :=
        Stamps.lookup_record_other _ h (Ne.symm same)
      rw [kept]
      exact afterOp
    · refine (Stamps.lookup_record_other _ h isOp).trans ?_
      by_cases isId : other = id
      · subst isId
        rw [if_pos (.inl rfl)]
        exact Stamps.lookup_record_after after
      · rw [if_neg (by simp [isId, isOp])]
        exact Stamps.lookup_record_other _ h isId

/-- No stamp is lost or moved back by recording both. -/
theorem lookup_recordBoth_mono {records : Records Value} {other : RecordId} {before : Stamp}
    (id opId : RecordId) (h : Stamp) (found : records.stamps.lookup other = some before) :
    ∃ held, (records.recordBoth id opId h).stamps.lookup other = some held ∧ before ≤ held := by
  obtain ⟨first, isFirst, beforeFirst⟩ := Stamps.lookup_record_mono id h found
  unfold recordBoth
  by_cases same : id = opId
  · simp only [if_pos same]
    exact ⟨first, isFirst, beforeFirst⟩
  · simp only [if_neg same]
    obtain ⟨second, isSecond, firstSecond⟩ := Stamps.lookup_record_mono opId h isFirst
    exact ⟨second, isSecond, beforeFirst.trans firstSecond⟩

/-! ### What `_yieldName` answers -/

/-- The records, or the records with the cache filled. -/
def MayFetch (records fetched : Records Value) : Prop :=
  fetched = records ∨ fetched = records.fetch

theorem MayFetch.rows_eq {records fetched : Records Value} (may : MayFetch records fetched) :
    fetched.rows = records.rows := by
  obtain rfl | rfl := may <;> rfl

theorem MayFetch.stamps_eq {records fetched : Records Value} (may : MayFetch records fetched) :
    fetched.stamps = records.stamps := by
  obtain rfl | rfl := may <;> rfl

theorem MayFetch.aliases_eq {records fetched : Records Value} (may : MayFetch records fetched) :
    fetched.aliases = records.aliases := by
  obtain rfl | rfl := may <;> rfl

variable [DecidableEq Value]

/-- What `_yieldName` does for a name held by another row, or by none. -/
inductive YieldName (collection : Collection Body Value) (records : Records Value) (id : RecordId)
    (h : Stamp) (fields : Fields Body) : Records Value → Yielded Body → Prop where
  | free (unheld : records.rows.holderOf id fields.scope fields.name = none) :
      YieldName collection records id h fields records (.write none fields)
  | twin {holder} (held : records.rows.holderOf id fields.scope fields.name = some holder)
      (absent : records.row id = none) (same : sameBut collection records.fetch holder fields = true) :
      YieldName collection records id h fields records.fetch (.aliased holder)
  | wins {holder fetched} (held : records.rows.holderOf id fields.scope fields.name = some holder)
      (may : MayFetch records fetched) (after : Stamp.After (records.stamps.lookup holder) h)
      (notTwin : records.row id = none → sameBut collection records.fetch holder fields = false) :
      YieldName collection records id h fields fetched
        (.write (some (holder, records.rows.suffixed fields.name holder fields.scope)) fields)
  | loses {holder fetched} (held : records.rows.holderOf id fields.scope fields.name = some holder)
      (may : MayFetch records fetched) (notAfter : ¬ Stamp.After (records.stamps.lookup holder) h)
      (notTwin : records.row id = none → sameBut collection records.fetch holder fields = false) :
      YieldName collection records id h fields fetched
        (.write none { fields with name := records.rows.suffixed fields.name id fields.scope })

theorem yieldName_cases (collection : Collection Body Value) (records : Records Value)
    (id : RecordId) (h : Stamp) (fields : Fields Body) :
    YieldName collection records id h fields (yieldName collection records id h fields).1
      (yieldName collection records id h fields).2 := by
  unfold yieldName
  cases held : records.rows.holderOf id fields.scope fields.name with
  | none => exact .free held
  | some holder =>
      have may : MayFetch records (if (records.row id).isNone then records.fetch else records) := by
        split
        · exact .inr rfl
        · exact .inl rfl
      dsimp only
      by_cases isTwin : ((records.row id).isNone && sameBut collection
          (if (records.row id).isNone then records.fetch else records) holder fields) = true
      · obtain ⟨absent, same⟩ := Bool.and_eq_true_iff.mp isTwin
        rw [if_pos isTwin]
        rw [if_pos absent] at same ⊢
        exact .twin held (Option.isNone_iff_eq_none.mp absent) same
      · have notTwin : records.row id = none →
            sameBut collection records.fetch holder fields = false := by
          intro absent
          rw [absent, Option.isNone_none, if_pos rfl, Bool.true_and, Bool.not_eq_true] at isTwin
          exact isTwin
        rw [if_neg isTwin]
        by_cases after : Stamp.After (records.stamps.lookup holder) h
        · rw [if_pos after]
          exact .wins held may after notTwin
        · rw [if_neg after]
          exact .loses held may after notTwin

/-! ### What `_entity` does -/

/-- What an op does to the records. -/
inductive Entity (collection : Collection Body Value) (records : Records Value)
    (op : RecordOp Body) : Records Value → Prop where
  | deleted (isDelete : op.d = .deleted) :
      Entity collection records op
        ({ records with rows := records.rows.delete (records.heldId op.id) }.recordBoth
          (records.heldId op.id) op.id op.h)
  | unreadable (isUnreadable : op.d = .unreadable) : Entity collection records op records
  | aliased {fields holder} (isRecord : op.d = .record fields)
      (held : records.rows.holderOf (records.heldId op.id) fields.scope fields.name = some holder)
      (absent : records.row (records.heldId op.id) = none)
      (same : sameBut collection records.fetch holder fields = true) :
      Entity collection records op
        ((records.fetch.aliasTo (records.heldId op.id) holder).record op.id op.h)
  | skipped {fields kept fetched rename} (isRecord : op.d = .record fields)
      (yielded : YieldName collection records (records.heldId op.id) op.h fields fetched
        (.write rename kept))
      (refused : ∀ value, collection.fromJson fields.body = some value →
        writeRows collection records.rows (records.heldId op.id) rename
          { scope := kept.scope, name := kept.name, body := value } = none) :
      Entity collection records op fetched
  | written {fields kept fetched rename value rows} (isRecord : op.d = .record fields)
      (yielded : YieldName collection records (records.heldId op.id) op.h fields fetched
        (.write rename kept))
      (decoded : collection.fromJson fields.body = some value)
      (done : writeRows collection records.rows (records.heldId op.id) rename
        { scope := kept.scope, name := kept.name, body := value } = some rows) :
      Entity collection records op
        ({ fetched with rows }.recordBoth (records.heldId op.id) op.id op.h)

/-- What is written is what was read, but for the name. -/
theorem YieldName.write_kept {records fetched : Records Value} {id : RecordId} {h : Stamp}
    {fields kept : Fields Body} {rename : Option (RecordId × String)}
    (yielded : YieldName collection records id h fields fetched (.write rename kept)) :
    MayFetch records fetched ∧ kept.scope = fields.scope ∧ kept.body = fields.body := by
  cases yielded with
  | free => exact ⟨.inl rfl, rfl, rfl⟩
  | wins _ may => exact ⟨may, rfl, rfl⟩
  | loses _ may => exact ⟨may, rfl, rfl⟩

/-- What is written has the op's name, or that with the suffix. -/
theorem YieldName.write_name {records fetched : Records Value} {id : RecordId} {h : Stamp}
    {fields kept : Fields Body} {rename : Option (RecordId × String)}
    (yielded : YieldName collection records id h fields fetched (.write rename kept)) :
    kept.name = fields.name ∨ ∃ len, kept.name = Rows.suffixName fields.name id len := by
  cases yielded with
  | free => exact .inl rfl
  | wins => exact .inl rfl
  | loses => exact .inr (Rows.suffixed_eq records.rows fields.name id fields.scope)

/-- What is renamed had the op's name, at an earlier stamp, and takes the suffix. -/
theorem YieldName.write_rename {records fetched : Records Value} {id holder : RecordId} {h : Stamp}
    {fields kept : Fields Body} {name : String}
    (yielded : YieldName collection records id h fields fetched (.write (some (holder, name)) kept)) :
    Stamp.After (records.stamps.lookup holder) h ∧ ∃ row len, records.row holder = some row ∧
      row.name = fields.name ∧ name = Rows.suffixName fields.name holder len := by
  cases yielded with
  | wins held _ after =>
      obtain ⟨-, row, found, -, sameName⟩ := Rows.holderOf_eq_some held
      obtain ⟨len, suffix⟩ := Rows.suffixed_eq records.rows fields.name holder fields.scope
      exact ⟨after, row, len, found, sameName, suffix⟩

theorem entity_cases (collection : Collection Body Value) (records : Records Value)
    (op : RecordOp Body) : Entity collection records op (entity collection records op) := by
  unfold entity
  dsimp only
  cases change : op.d with
  | deleted => exact .deleted change
  | unreadable => exact .unreadable change
  | record fields =>
      have yielded := yieldName_cases collection records (records.heldId op.id) op.h fields
      dsimp only
      generalize yieldName collection records (records.heldId op.id) op.h fields = answered
        at yielded ⊢
      obtain ⟨fetched, answer⟩ := answered
      cases answer with
      | aliased holder =>
          cases yielded with
          | twin held absent same => exact .aliased change held absent same
      | write rename kept =>
          obtain ⟨may, -, sameBody⟩ := yielded.write_kept
          dsimp only
          rw [sameBody, may.rows_eq]
          cases decoded : collection.fromJson fields.body with
          | none =>
              refine .skipped change yielded ?_
              intro value isValue
              rw [decoded] at isValue
              exact absurd isValue (by simp)
          | some value =>
              dsimp only
              cases done : writeRows collection records.rows (records.heldId op.id) rename
                  { scope := kept.scope, name := kept.name, body := value } with
              | none =>
                  refine .skipped change yielded ?_
                  intro other isOther
                  rw [decoded] at isOther
                  obtain rfl := Option.some.inj isOther
                  exact done
              | some rows => exact .written change yielded decoded done

/-- No stamp is lost or moved back by an op. -/
theorem lookup_entity_mono (collection : Collection Body Value) {records : Records Value}
    (op : RecordOp Body) {id : RecordId} {before : Stamp}
    (found : records.stamps.lookup id = some before) :
    ∃ held, (entity collection records op).stamps.lookup id = some held ∧ before ≤ held := by
  have step := entity_cases collection records op
  generalize entity collection records op = next at step ⊢
  cases step with
  | deleted => exact lookup_recordBoth_mono _ _ _ found
  | unreadable => exact ⟨before, found, le_refl before⟩
  | aliased => exact Stamps.lookup_record_mono _ _ found
  | skipped _ yielded =>
      rw [yielded.write_kept.1.stamps_eq]
      exact ⟨before, found, le_refl before⟩
  | written _ yielded =>
      refine lookup_recordBoth_mono _ _ _ ?_
      rw [yielded.write_kept.1.stamps_eq]
      exact found

end Records

end ServerBox.Sync
