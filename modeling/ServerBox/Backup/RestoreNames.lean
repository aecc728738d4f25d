import ServerBox.Backup.Restore

/-!
# Records taken for one another by name

What `_restoredIds` says that a record is restored as, and what `reconcile` makes of it. The first
goes by the name alone; the second takes an id that is here first, and in a sync a record that has
an id is never taken for another.
-/

namespace ServerBox.Backup

open ServerBox.Std ServerBox.Store

namespace NamedKind

variable {Value Body : Type} (kind : NamedKind Value Body) (force : Bool)
  (store : EntityStore Value) (section_ : Section Body)

/-- The local record of a record's name. -/
def localId (key : RecordId) (raw : RawRecord Body) : Option RecordId :=
  (kind.decode (ownId key raw) raw.body).bind fun value => kind.fetchByName store (kind.name value)

/-- Whether `merge` may take a record for one here by its name: in a restore, or where it has no
id, and only if its id is not here. -/
def ByName (key : RecordId) (raw : RawRecord Body) : Prop :=
  (force = true ∨ raw.id = none) ∧ ownId key raw ∉ store.rows

instance (key : RecordId) (raw : RawRecord Body) : Decidable (ByName force store key raw) :=
  inferInstanceAs (Decidable (_ ∧ _))

/-- The id that `merge` writes a record under. -/
def restoredAs (key : RecordId) : Option RecordId :=
  (section_.lookup key).join.bind fun raw =>
    (EntityStore.readAs kind.storeKind force store key raw).map Item.id

/-- Whether a reference follows the record it names: it names the record by its own id, or the
record is taken for the one here of its name. -/
def AgreesOn (id : RecordId) : Prop :=
  ∀ key raw, section_.lookup key = some (some raw) → id = key ∨ id = ownId key raw →
    (kind.decode (ownId key raw) raw.body).isSome →
    (kind.localId store key raw = none → id = ownId key raw) ∧
    ∀ existing, kind.localId store key raw = some existing → existing ≠ ownId key raw →
      ByName force store key raw

/-- Whether no record is taken by name for one here that another record is restored as. -/
def TakesApart : Prop :=
  ∀ key raw existing, section_.lookup key = some (some raw) → ByName force store key raw →
    kind.localId store key raw = some existing → ∀ other another,
    section_.lookup other = some (some another) → other ≠ key →
    (kind.decode (ownId other another) another.body).isSome →
    ownId other another ≠ existing ∧
      ¬ (ByName force store other another ∧ kind.localId store other another = some existing)

variable {kind force store section_}

theorem mem_rows_of_fetchByName {name : String} {existing : RecordId}
    (found : kind.fetchByName store name = some existing) : existing ∈ store.rows := by
  obtain ⟨entry, isEntry, rfl⟩ := Option.map_eq_some_iff.mp found
  exact AList.mem_keys.mpr (List.mem_map.mpr ⟨entry, List.mem_of_find?_eq_some isEntry, rfl⟩)

theorem mem_rows_of_localId {key existing : RecordId} {raw : RawRecord Body}
    (found : kind.localId store key raw = some existing) : existing ∈ store.rows := by
  obtain ⟨value, -, byName⟩ := Option.bind_eq_some_iff.mp found
  exact mem_rows_of_fetchByName byName

/-- What the store's class reads. -/
theorem fromJson_storeKind (id : RecordId) (body : Body) :
    kind.storeKind.fromJson ⟨some id, body⟩ =
      (kind.decode id body).map fun value => ⟨id, value, []⟩ :=
  rfl

/-- The id that `reconcile` answers. -/
theorem id_reconcile (id : RecordId) (value : Value) :
    (kind.storeKind.reconcile store.rows ⟨id, value, []⟩).id =
      if id ∈ store.rows then id else (kind.fetchByName store (kind.name value)).getD id := by
  change (kind.reconcile store.rows ⟨id, value, []⟩).id = _
  rw [reconcile, fetchByName]
  split
  next => rfl
  next =>
      cases store.rows.entries.find? fun entry => kind.name entry.2.value = kind.name value <;> rfl

/-- What a record that decodes is restored as. -/
theorem restoredAs_eq {key : RecordId} {raw : RawRecord Body}
    (found : section_.lookup key = some (some raw))
    (decodes : (kind.decode (ownId key raw) raw.body).isSome) :
    kind.restoredAs force store section_ key =
      some (if ByName force store key raw then (kind.localId store key raw).getD (ownId key raw)
        else ownId key raw) := by
  obtain ⟨value, isValue⟩ := Option.isSome_iff_exists.mp decodes
  have isLocal : kind.localId store key raw = kind.fetchByName store (kind.name value) := by
    rw [localId, isValue, Option.bind_some]
  have reads : (force || raw.id.isNone) = true ↔ force = true ∨ raw.id = none := by
    rw [Bool.or_eq_true, Option.isNone_iff_eq_none]
  rw [restoredAs, found, Option.join_some, Option.bind_some, EntityStore.readAs,
    fromJson_storeKind, show raw.id.getD key = ownId key raw from rfl, isValue, Option.map_some,
    Option.map_some, Option.map_some, isLocal]
  by_cases isRead : force = true ∨ raw.id = none
  · rw [if_pos (reads.mpr isRead), id_reconcile]
    by_cases here : ownId key raw ∈ store.rows
    · rw [if_pos here, if_neg fun byName : ByName force store key raw => byName.2 here]
    · have byName : ByName force store key raw := ⟨isRead, here⟩
      rw [if_neg here, if_pos byName]
  · rw [if_neg fun both => isRead (reads.mp both),
      if_neg fun byName : ByName force store key raw => isRead byName.1]

theorem restoredAs_eq_none {key : RecordId} {raw : RawRecord Body}
    (found : section_.lookup key = some (some raw))
    (undecoded : kind.decode (ownId key raw) raw.body = none) :
    kind.restoredAs force store section_ key = none := by
  rw [restoredAs, found, Option.join_some, Option.bind_some, EntityStore.readAs,
    fromJson_storeKind, show raw.id.getD key = ownId key raw from rfl, undecoded]
  rfl

/-- A record that is restored decodes. -/
theorem of_restoredAs {key restored : RecordId}
    (isRestored : kind.restoredAs force store section_ key = some restored) :
    ∃ raw, section_.lookup key = some (some raw) ∧
      (kind.decode (ownId key raw) raw.body).isSome := by
  cases found : section_.lookup key with
  | none =>
      rw [restoredAs, found] at isRestored
      cases isRestored
  | some held =>
      cases held with
      | none =>
          rw [restoredAs, found] at isRestored
          cases isRestored
      | some raw =>
          cases decoded : kind.decode (ownId key raw) raw.body with
          | none =>
              rw [restoredAs_eq_none found decoded] at isRestored
              cases isRestored
          | some value => exact ⟨raw, rfl, by rw [decoded]; rfl⟩

/-- What `merge` writes is a record under what it is restored as. -/
theorem of_mem_written {now : Int} {backup : Store.Backup Body} {item : Item Value}
    (isWritten : item ∈ EntityStore.written kind.storeKind force now store backup) :
    ∃ key raw, backup.records.lookup key = some (some raw) ∧
      kind.restoredAs force store backup.records key = some item.id ∧
      kind.decode (ownId key raw) raw.body = some item.value := by
  obtain ⟨key, raw, found, read⟩ := EntityStore.of_mem_written isWritten
  refine ⟨key, raw, found, ?_, ?_⟩
  · rw [restoredAs, found, Option.join_some, Option.bind_some, read, Option.map_some]
  · rw [EntityStore.readAs, fromJson_storeKind] at read
    obtain ⟨first, isFirst, rfl⟩ := Option.map_eq_some_iff.mp read
    obtain ⟨value, isValue, rfl⟩ := Option.map_eq_some_iff.mp isFirst
    rw [show ownId key raw = raw.id.getD key from rfl, isValue]
    split
    next =>
        change _ = some (kind.reconcile store.rows _).value
        rw [reconcile]
        split
        next => rfl
        next => split <;> rfl
    next => rfl

/-- What a record is restored as has nothing to do with what it points at. -/
theorem restoredAs_mapBodies {change : Body → Body} {alter : Value → Value}
    (decodes : ∀ id body, kind.decode id (change body) = (kind.decode id body).map alter)
    (named : ∀ value, kind.name (alter value) = kind.name value) (key : RecordId) :
    kind.restoredAs force store (Section.mapBodies change section_) key =
      kind.restoredAs force store section_ key := by
  rw [restoredAs, restoredAs, Section.mapBodies, Table.lookup_mapRows]
  cases section_.lookup key with
  | none => rfl
  | some held =>
      cases held with
      | none => rfl
      | some raw =>
          rw [Option.map_some, Option.map_some, Option.join_some, Option.join_some,
            Option.bind_some, Option.bind_some, EntityStore.readAs, EntityStore.readAs,
            fromJson_storeKind, fromJson_storeKind, decodes]
          cases kind.decode (raw.id.getD key) raw.body with
          | none => rfl
          | some value =>
              simp only [Option.map_some]
              split
              next => rw [id_reconcile, id_reconcile, named]
              next => rfl

/-! ### The ids looked up -/

/-- What one record adds to the ids looked up. -/
def addLocalId (kind : NamedKind Value Body) (store : EntityStore Value)
    (out : Table RecordId RecordId) (entry : (_ : RecordId) × Option (RawRecord Body)) :
    Table RecordId RecordId :=
  match entry.2 with
  | none => out
  | some raw =>
      match kind.localId store entry.1 raw with
      | none => out
      | some restored => (out.insert entry.1 restored).insert (ownId entry.1 raw) restored

theorem restoredIds_eq :
    kind.restoredIds store section_ = section_.entries.foldl (kind.addLocalId store) ∅ := by
  rw [restoredIds]
  congr 1
  funext out entry
  unfold addLocalId localId
  cases entry.2 with
  | none => rfl
  | some raw =>
      dsimp only
      cases kind.decode (ownId entry.1 raw) raw.body <;> rfl

/-- A record adds nothing under an id that does not name it. -/
theorem lookup_addLocalId_of_unnamed {out : Table RecordId RecordId} {id : RecordId}
    {entry : (_ : RecordId) × Option (RawRecord Body)}
    (unnamed : ∀ raw, entry.2 = some raw → id ≠ entry.1 ∧ id ≠ ownId entry.1 raw) :
    (kind.addLocalId store out entry).lookup id = out.lookup id := by
  unfold addLocalId
  split
  next => rfl
  next raw isRaw =>
      split
      next => rfl
      next restored _ =>
          obtain ⟨notKey, notOwn⟩ := unnamed raw isRaw
          rw [AList.lookup_insert_ne notOwn, AList.lookup_insert_ne notKey]

theorem lookup_foldl_of_unnamed {id : RecordId}
    (entries : List ((_ : RecordId) × Option (RawRecord Body))) (out : Table RecordId RecordId)
    (unnamed : ∀ entry ∈ entries, ∀ raw, entry.2 = some raw →
      id ≠ entry.1 ∧ id ≠ ownId entry.1 raw) :
    (entries.foldl (kind.addLocalId store) out).lookup id = out.lookup id := by
  induction entries generalizing out with
  | nil => rfl
  | cons entry entries inductionHypothesis =>
      rw [List.foldl_cons, inductionHypothesis _ fun other isOther =>
        unnamed other (List.mem_cons_of_mem _ isOther)]
      exact lookup_addLocalId_of_unnamed (unnamed entry List.mem_cons_self)

/-- An id that names a record is looked up as the local record of its name. -/
theorem lookup_restoredIds (unique : UniqueIds section_) {id key : RecordId} {raw : RawRecord Body}
    (found : section_.lookup key = some (some raw)) (names : id = key ∨ id = ownId key raw) :
    (kind.restoredIds store section_).lookup id = kind.localId store key raw := by
  have isEntry : (⟨key, some raw⟩ : (_ : RecordId) × Option (RawRecord Body)) ∈ section_.entries :=
    AList.mem_lookup_iff.mp found
  obtain ⟨before, after, split⟩ := List.append_of_mem isEntry
  have distinct := section_.nodupKeys
  have others : ∀ other ∈ before ++ after, ∀ another, other.2 = some another →
      id ≠ other.1 ∧ id ≠ ownId other.1 another := by
    intro other isOther another isAnother
    have elsewhere : other ∈ section_.entries := by
      rw [split]
      exact (List.mem_append.mp isOther).elim (List.mem_append_left _) fun later =>
        List.mem_append_right _ (List.mem_cons_of_mem _ later)
    have foundOther : section_.lookup other.1 = some (some another) := by
      rw [← isAnother]
      exact AList.mem_lookup_iff.mpr elsewhere
    have apart : other.1 ≠ key := by
      intro same
      rw [split, List.NodupKeys, List.keys, List.map_append, List.map_cons,
        List.nodup_middle] at distinct
      refine (List.nodup_cons.mp distinct).1 ?_
      have isKey := List.mem_map_of_mem (f := Sigma.fst) isOther
      rwa [same, List.map_append] at isKey
    constructor
    · rintro rfl
      exact apart (unique _ _ _ ⟨another, foundOther, .inl rfl⟩ ⟨raw, found, names⟩)
    · rintro rfl
      exact apart (unique _ _ _ ⟨another, foundOther, .inr rfl⟩ ⟨raw, found, names⟩)
  rw [restoredIds_eq, split, List.foldl_append, List.foldl_cons,
    lookup_foldl_of_unnamed after _ fun other isOther =>
      others other (List.mem_append_right _ isOther)]
  have earlier := @lookup_foldl_of_unnamed _ _ kind store id before ∅ fun other isOther =>
    others other (List.mem_append_left _ isOther)
  rw [AList.lookup_empty] at earlier
  rw [addLocalId]
  dsimp only
  cases kind.localId store key raw with
  | none => exact earlier
  | some restored =>
      dsimp only
      rw [Table.lookup_insert_ite, Table.lookup_insert_ite]
      rcases names with rfl | rfl
      · simp
      · simp

/-! ### References and rows -/

/-- A reference names what the record is restored as just when it agrees. -/
theorem renamed_eq_iff (unique : UniqueIds section_) {id key : RecordId} {raw : RawRecord Body}
    (found : section_.lookup key = some (some raw)) (names : id = key ∨ id = ownId key raw)
    (decodes : (kind.decode (ownId key raw) raw.body).isSome) :
    kind.restoredAs force store section_ key = some (renamed (kind.restoredIds store section_) id) ↔
      (kind.localId store key raw = none → id = ownId key raw) ∧
      ∀ existing, kind.localId store key raw = some existing → existing ≠ ownId key raw →
        ByName force store key raw := by
  rw [restoredAs_eq found decodes, renamed, lookup_restoredIds unique found names,
    Option.some.injEq]
  cases kind.localId store key raw with
  | none => simp [eq_comm]
  | some existing =>
      by_cases byName : ByName force store key raw
      · simp [byName]
      · simp [byName, eq_comm]

/-- Every reference that names a record names what it is restored as, just when it agrees on all
of them. -/
theorem renamed_iff (unique : UniqueIds section_) {id : RecordId} :
    (∀ key, Names section_ id key → ∀ restored, kind.restoredAs force store section_ key =
      some restored → renamed (kind.restoredIds store section_) id = restored) ↔
      kind.AgreesOn force store section_ id := by
  constructor
  · intro follows key raw found names decodes
    have isRestored : kind.restoredAs force store section_ key = _ := restoredAs_eq found decodes
    refine (renamed_eq_iff unique found names decodes).mp ?_
    rw [follows key ⟨raw, found, names⟩ _ isRestored, isRestored]
  · rintro agrees key ⟨raw, found, names⟩ restored isRestored
    obtain ⟨same, isSame, decodes⟩ := of_restoredAs isRestored
    obtain rfl := Option.some.inj (Option.some.inj (found.symm.trans isSame))
    have renamedAs := (renamed_eq_iff unique found names decodes).mpr
      (agrees key raw found names decodes)
    exact Option.some.inj (renamedAs.symm.trans isRestored)

/-- Two records are restored as one just when one is taken by name for what the other is. -/
theorem restoredAs_injective_iff (unique : UniqueIds section_) :
    (∀ key other restored, kind.restoredAs force store section_ key = some restored →
      kind.restoredAs force store section_ other = some restored → key = other) ↔
      kind.TakesApart force store section_ := by
  constructor
  · intro injective key raw existing found byName isLocal other another foundOther apart decodes
    have decodesKey : (kind.decode (ownId key raw) raw.body).isSome := by
      obtain ⟨value, isValue, -⟩ := Option.bind_eq_some_iff.mp isLocal
      rw [isValue]
      rfl
    have asKey : kind.restoredAs force store section_ key = _ := restoredAs_eq found decodesKey
    have asOther : kind.restoredAs force store section_ other = _ :=
      restoredAs_eq foundOther decodes
    rw [if_pos byName, isLocal, Option.getD_some] at asKey
    refine ⟨fun same => apart ?_, fun taken => apart ?_⟩
    · rw [if_neg fun byNameOther => byNameOther.2 (same ▸ mem_rows_of_localId isLocal)] at asOther
      exact (injective _ _ _ asKey (asOther.trans (congrArg some same))).symm
    · rw [if_pos taken.1, taken.2, Option.getD_some] at asOther
      exact (injective _ _ _ asKey asOther).symm
  · intro takesApart key other restored isRestored sameRestored
    obtain ⟨raw, found, decodes⟩ := of_restoredAs isRestored
    obtain ⟨another, foundOther, decodesOther⟩ := of_restoredAs sameRestored
    by_contra apart
    have ownApart : ownId key raw ≠ ownId other another := fun same =>
      apart (unique _ _ _ ⟨raw, found, .inr rfl⟩ ⟨another, foundOther, .inr same⟩)
    rw [restoredAs_eq found decodes, Option.some.injEq] at isRestored
    rw [restoredAs_eq foundOther decodesOther, Option.some.injEq] at sameRestored
    by_cases taken : ByName force store key raw ∧ (kind.localId store key raw).isSome
    · obtain ⟨byName, isSome⟩ := taken
      obtain ⟨existing, isLocal⟩ := Option.isSome_iff_exists.mp isSome
      obtain ⟨notOwn, notTaken⟩ := takesApart key raw existing found byName isLocal other another
        foundOther (Ne.symm apart) decodesOther
      rw [if_pos byName, isLocal, Option.getD_some] at isRestored
      subst isRestored
      by_cases byNameOther : ByName force store other another
      · rw [if_pos byNameOther] at sameRestored
        cases isLocalOther : kind.localId store other another with
        | none =>
            rw [isLocalOther] at sameRestored
            exact notOwn sameRestored
        | some existingOther =>
            rw [isLocalOther] at sameRestored
            exact notTaken ⟨byNameOther, isLocalOther.trans (congrArg some sameRestored)⟩
      · rw [if_neg byNameOther] at sameRestored
        exact notOwn sameRestored
    · have isOwn : restored = ownId key raw := by
        rw [← isRestored]
        split
        next byName =>
            have none : kind.localId store key raw = none :=
              Option.not_isSome_iff_eq_none.mp fun isSome => taken ⟨byName, isSome⟩
            rw [none, Option.getD_none]
        next => rfl
      subst isOwn
      by_cases byNameOther : ByName force store other another
      · rw [if_pos byNameOther] at sameRestored
        cases isLocalOther : kind.localId store other another with
        | none =>
            rw [isLocalOther] at sameRestored
            exact ownApart sameRestored.symm
        | some existing =>
            rw [isLocalOther, Option.getD_some] at sameRestored
            exact (takesApart other another existing foundOther byNameOther isLocalOther key raw
              found apart decodes).1 sameRestored.symm
      · rw [if_neg byNameOther] at sameRestored
        exact ownApart sameRestored.symm

end NamedKind

end ServerBox.Backup
