import ServerBox.Std.Table
import ServerBox.Std.Text

/-!
# Key-value stores merged with a backup

`src/lib/data/model/app/bak/backup_restore.dart` and `backup2.dart`: what a backup takes of a
key-value store (the settings, the history), and how one is merged into a store, key by key. A
deletion is a stamp without a value. Merging is a last-writer join, but for a deletion of a key
that the store does not hold: it leaves no stamp, so an older value merged later comes back.
-/

namespace ServerBox.Backup

open ServerBox.Std

/-- Which keys of a store are its own: `isInternalKey` and `isDeviceLocalKey`. The key of the
stamps, internal too, is not among the rows here. -/
structure KeyKinds where
  isInternal : Text → Bool
  isDeviceLocal : Text → Bool

/-- A store's rows, or a backup's, and `lastUpdateTs`: when each key was last written or
deleted. -/
structure KvRows (Value : Type) where
  rows : Table Text Value
  stamps : Table Text Nat

/-- What is known of a key. -/
structure KvEntry (Value : Type) where
  value : Option Value
  stamp : Option Nat
deriving DecidableEq, Repr

namespace KvEntry

variable {Value : Type}

/-- When a key was written or deleted; 0 where it is not said. -/
def timestamp (entry : KvEntry Value) : Nat := entry.stamp.getD 0

/-- Whether anything is known of a key: a value, or that it was deleted. -/
def IsKnown (entry : KvEntry Value) : Prop := entry.value ≠ none ∨ 0 < entry.timestamp

end KvEntry

namespace KvRows

variable {Value : Type}

def entry (store : KvRows Value) (key : Text) : KvEntry Value :=
  ⟨store.rows.lookup key, store.stamps.lookup key⟩

/-- A key written, or deleted, and its stamp. -/
def put (store : KvRows Value) (key : Text) (entry : KvEntry Value) : KvRows Value where
  rows := store.rows.alter (fun _ => entry.value) key
  stamps := store.stamps.alter (fun _ => entry.stamp) key

end KvRows

variable {Value : Type} [DecidableEq Value] (kinds : KeyKinds)

/-- Whether a key belongs to this device rather than to the backup. -/
def isLocalOnly (key : Text) : Bool := kinds.isInternal key || kinds.isDeviceLocal key

/-- `_backupStore`. -/
def backupStore (store : KvRows Value) : KvRows Value where
  rows := store.rows.retainKeys fun key => !isLocalOnly kinds key
  stamps := store.stamps.retainKeys fun key => !kinds.isDeviceLocal key

/-- `_mergeDataForStore`: the backup's rows, and the store's own ones. -/
def mergeDataForStore (store backup : KvRows Value) : KvRows Value where
  rows := store.rows.retainKeys (isLocalOnly kinds) ∪
    backup.rows.retainKeys fun key => !isLocalOnly kinds key
  stamps := backup.stamps.retainKeys fun key => !kinds.isDeviceLocal key

/-- What a merge makes of a key; none where it is left as it is. -/
def mergeKey (force isInternal : Bool) (backup current : KvEntry Value) : Option (KvEntry Value) :=
  let stamped (stamp : Nat) : Option Nat := if isInternal then current.stamp else some stamp
  match backup.value, current.value with
  | some value, none =>
      if !force && 0 < current.timestamp && backup.timestamp ≤ current.timestamp then none
      else some ⟨some value, stamped backup.timestamp⟩
  | none, some _ =>
      if !force && backup.timestamp ≤ current.timestamp then none
      else some ⟨none, stamped (max backup.timestamp current.timestamp)⟩
  | some value, some held =>
      if !force && backup.timestamp ≤ current.timestamp then none
      else if value = held then
        if !isInternal && current.timestamp < backup.timestamp then
          some ⟨some held, some backup.timestamp⟩
        else none
      else some ⟨some value, stamped backup.timestamp⟩
  | none, none => none

/-- A forced merge gives every key the newest stamp of the backup. -/
def forceStamps (backup store : KvRows Value) : KvRows Value :=
  let newest := (backup.stamps.entries.map (·.2)).foldl max 0
  if 0 < newest then { store with stamps := store.stamps.mapRows fun _ => newest } else store

/-- `_mergeSqliteStore`: every key of the backup and of the store, one after another. -/
def mergeSqliteStore (store backup : KvRows Value) (force : Bool) : KvRows Value :=
  let keys := backup.rows.keys ++ store.rows.keys.filter (· ∉ backup.rows.keys)
  let merged := keys.foldl (fun merged key =>
    match mergeKey force (kinds.isInternal key) (backup.entry key) (store.entry key) with
    | some entry => merged.put key entry
    | none => merged) store
  if force then forceStamps backup merged else merged

/-- A backup merged into a store, as a restore does. -/
def restore (store backup : KvRows Value) (force : Bool) : KvRows Value :=
  mergeSqliteStore kinds store (mergeDataForStore kinds store backup) force

/-! ### Key by key -/

namespace KvRows

omit [DecidableEq Value] in
@[simp] theorem entry_put (store : KvRows Value) (key other : Text) (entry : KvEntry Value) :
    (store.put key entry).entry other = if other = key then entry else store.entry other := by
  rw [put, KvRows.entry, Table.lookup_alter, Table.lookup_alter]
  split <;> rfl

end KvRows

omit [DecidableEq Value] in
/-- Keys merged one after another, each once. -/
theorem entry_foldl (merges : Text → Option (KvEntry Value)) (keys : List Text)
    (distinct : keys.Nodup) (store : KvRows Value) (key : Text) :
    (keys.foldl (fun merged key =>
        match merges key with
        | some entry => merged.put key entry
        | none => merged) store).entry key =
      if key ∈ keys then (merges key).getD (store.entry key) else store.entry key := by
  induction keys generalizing store with
  | nil => rfl
  | cons first keys inductionHypothesis =>
      obtain ⟨notLater, distinctLater⟩ := List.nodup_cons.mp distinct
      rw [List.foldl_cons, inductionHypothesis distinctLater]
      by_cases isFirst : key = first
      · subst isFirst
        rw [if_neg notLater, if_pos List.mem_cons_self]
        cases merges key with
        | none => rfl
        | some entry => simp
      · have same : key ∈ first :: keys ↔ key ∈ keys := by
          rw [List.mem_cons, or_iff_right isFirst]
        rw [if_congr same rfl rfl]
        cases merges first with
        | none => rfl
        | some entry => simp [isFirst]

/-- A merge that is not forced, at a key. -/
theorem entry_mergeSqliteStore (store backup : KvRows Value) (key : Text) :
    (mergeSqliteStore kinds store backup false).entry key =
      (mergeKey false (kinds.isInternal key) (backup.entry key) (store.entry key)).getD
        (store.entry key) := by
  have distinct : (backup.rows.keys ++
      store.rows.keys.filter (· ∉ backup.rows.keys)).Nodup := by
    refine (AList.keys_nodup _).append ((AList.keys_nodup _).filter _) ?_
    intro key inBackup inStore
    exact absurd inBackup (by simpa using (List.mem_filter.mp inStore).2)
  rw [mergeSqliteStore, if_neg Bool.false_ne_true, entry_foldl (fun key =>
    mergeKey false (kinds.isInternal key) (backup.entry key) (store.entry key)) _ distinct]
  split
  next => rfl
  next absent =>
      simp only [List.mem_append, List.mem_filter, decide_eq_true_eq, not_or, not_and, not_not,
        ← AList.mem_keys] at absent
      have notHere : store.rows.lookup key = none :=
        AList.lookup_eq_none.mpr fun held => absent.1 (absent.2 held)
      have notThere : backup.rows.lookup key = none := AList.lookup_eq_none.mpr absent.1
      simp [mergeKey, KvRows.entry, notHere, notThere]

/-- A key that the backup has from the store itself stays as it is. -/
theorem mergeKey_self {isInternal : Bool} {value : Option Value} {backup current : Option Nat}
    (own : isInternal = true ∨ backup = none) :
    mergeKey false isInternal ⟨value, backup⟩ ⟨value, current⟩ = none := by
  cases value with
  | none => rfl
  | some value =>
      rcases own with rfl | rfl
      · simp [mergeKey]
      · simp [mergeKey, KvEntry.timestamp]

/-- What a restore makes of a key that is not the device's own. -/
def takeIn (backup current : KvEntry Value) : KvEntry Value :=
  (mergeKey false false backup current).getD current

theorem entry_restore (store backup : KvRows Value) (key : Text) :
    (restore kinds store backup false).entry key =
      if isLocalOnly kinds key then store.entry key
      else takeIn (backup.entry key) (store.entry key) := by
  have union : (mergeDataForStore kinds store backup).rows.lookup key =
      if isLocalOnly kinds key then store.rows.lookup key else backup.rows.lookup key := by
    rw [mergeDataForStore]
    by_cases inOwn : key ∈ store.rows.retainKeys (isLocalOnly kinds)
    · have isLocal : isLocalOnly kinds key = true := by
        by_contra other
        rw [← AList.lookup_isSome, Table.lookup_retainKeys, if_neg other] at inOwn
        cases inOwn
      rw [AList.lookup_union_left inOwn, Table.lookup_retainKeys, if_pos isLocal, if_pos isLocal]
    · rw [AList.lookup_union_right inOwn, Table.lookup_retainKeys]
      rw [← AList.lookup_eq_none, Table.lookup_retainKeys] at inOwn
      cases isLocal : isLocalOnly kinds key with
      | true =>
          rw [isLocal, if_pos rfl] at inOwn
          simp [inOwn]
      | false => simp
  have stamps : (mergeDataForStore kinds store backup).stamps.lookup key =
      if kinds.isDeviceLocal key then none else backup.stamps.lookup key := by
    rw [mergeDataForStore, Table.lookup_retainKeys]
    cases kinds.isDeviceLocal key <;> rfl
  rw [restore, entry_mergeSqliteStore, KvRows.entry, union, stamps]
  cases isLocal : isLocalOnly kinds key with
  | true =>
      rw [isLocalOnly, Bool.or_eq_true] at isLocal
      have own : kinds.isInternal key = true ∨
          (if kinds.isDeviceLocal key then none else backup.stamps.lookup key) = none :=
        isLocal.imp_right fun isDeviceLocal => if_pos isDeviceLocal
      rw [if_pos rfl, if_pos rfl]
      exact congrArg (Option.getD · (store.entry key)) (mergeKey_self own)
  | false =>
      rw [isLocalOnly, Bool.or_eq_false_iff] at isLocal
      simp only [isLocal, Bool.false_eq_true, if_false]
      rfl

/-! ### One key -/

omit [DecidableEq Value] in
/-- Whether a key stays as it is: neither side holds it, or what the backup knows is no newer. -/
def Stands (backup current : KvEntry Value) : Prop :=
  (backup.value = none ∧ current.value = none) ∨
    (backup.timestamp ≤ current.timestamp ∧ (current.value ≠ none ∨ 0 < current.timestamp))

theorem takeIn_of_stands {backup current : KvEntry Value} (stands : Stands backup current) :
    takeIn backup current = current := by
  obtain ⟨value, stamp⟩ := backup
  obtain ⟨held, heldStamp⟩ := current
  cases value <;> cases held <;> simp_all [takeIn, mergeKey, Stands, KvEntry.timestamp]

omit [DecidableEq Value] in
/-- What a backup knows is newer than a value, and is a value where there is none. -/
theorem of_not_stands {backup current : KvEntry Value} (falls : ¬ Stands backup current) :
    (current.value ≠ none → current.timestamp < backup.timestamp) ∧
    (current.value = none → backup.value ≠ none ∧
      (current.timestamp = 0 ∨ current.timestamp < backup.timestamp)) := by
  rw [Stands, not_or, not_and, not_and, not_or] at falls
  constructor
  · intro held
    by_contra older
    exact (falls.2 (by omega)).1 held
  · intro absent
    refine ⟨fun gone => falls.1 gone absent, ?_⟩
    by_contra stamped
    have some := (falls.2 (by omega)).2
    omega

theorem takeIn_of_not_stands {backup current : KvEntry Value} (falls : ¬ Stands backup current) :
    takeIn backup current = ⟨backup.value, some backup.timestamp⟩ := by
  obtain ⟨newer, fills⟩ := of_not_stands falls
  rw [takeIn, mergeKey]
  cases held : current.value with
  | none =>
      obtain ⟨present, written⟩ := fills held
      obtain ⟨value, isValue⟩ := Option.ne_none_iff_exists'.mp present
      have writes : ¬ (0 < current.timestamp ∧ backup.timestamp ≤ current.timestamp) := by omega
      simp [isValue, writes]
  | some kept =>
      have later := newer (by rw [held]; nofun)
      cases given : backup.value with
      | none => simp [later.not_ge, max_eq_left later.le]
      | some value =>
          by_cases same : value = kept
          · simp [later.not_ge, later, same]
          · simp [later.not_ge, same]

instance (backup current : KvEntry Value) : Decidable (Stands backup current) :=
  inferInstanceAs (Decidable (_ ∨ _))

theorem takeIn_eq (backup current : KvEntry Value) : takeIn backup current =
    if Stands backup current then current else ⟨backup.value, some backup.timestamp⟩ := by
  split
  next stands => exact takeIn_of_stands stands
  next falls => exact takeIn_of_not_stands falls

/-- Taking a backup's entry in twice is taking it in once. -/
theorem takeIn_takeIn (backup current : KvEntry Value) :
    takeIn backup (takeIn backup current) = takeIn backup current := by
  rw [takeIn_eq backup current]
  split
  next stands => exact takeIn_of_stands stands
  next falls =>
      by_cases value : backup.value = none ∨ 0 < backup.timestamp
      · refine takeIn_of_stands ?_
        rcases value with gone | some
        · exact .inl ⟨gone, gone⟩
        · exact .inr ⟨le_rfl, .inr some⟩
      · rw [not_or] at value
        exact takeIn_of_stands (.inr ⟨le_rfl, .inl value.1⟩)

/-! ### Two backups in either order -/

variable {store first second : KvEntry Value}

omit [DecidableEq Value] in
/-- Whether a deletion that one backup knows of is lost where it is merged first, and an older
value of the other is written after it. -/
def Forgets (store value deletion : KvEntry Value) : Prop :=
  store.value = none ∧ value.value ≠ none ∧ deletion.value = none ∧
    (store.timestamp = 0 ∨ store.timestamp < value.timestamp) ∧
    value.timestamp < deletion.timestamp

omit [DecidableEq Value] in
/-- Whether two deletions of a value that the store holds are both newer, one more than the
other: the one merged last finds the key gone, and its stamp is lost. -/
def DeletesTwice (store first second : KvEntry Value) : Prop :=
  store.value ≠ none ∧ first.value = none ∧ second.value = none ∧
    store.timestamp < first.timestamp ∧ store.timestamp < second.timestamp ∧
    first.timestamp ≠ second.timestamp

/-- Whether two backups can be merged in either order. -/
def Commutes (store first second : KvEntry Value) : Prop :=
  takeIn second (takeIn first store) = takeIn first (takeIn second store)

omit [DecidableEq Value] in
theorem not_forgets_of_stands (deletion : KvEntry Value) (stands : Stands first store) :
    ¬ Forgets store first deletion := by
  rintro ⟨absent, present, -, written, -⟩
  rcases stands with ⟨gone, -⟩ | ⟨older, held | stamped⟩
  · exact present gone
  · exact held absent
  · omega

theorem commutes_of_stands (stands : Stands first store) (falls : ¬ Stands second store) :
    Commutes store first second ↔ ¬ Forgets store second first := by
  obtain ⟨newer, fills⟩ := of_not_stands falls
  rw [Commutes, takeIn_of_stands stands, takeIn_of_not_stands falls]
  have stampOf : (⟨second.value, some second.timestamp⟩ : KvEntry Value).timestamp =
      second.timestamp := rfl
  constructor
  · rintro same ⟨absent, present, gone, written, older⟩
    have lost : ¬ Stands first ⟨second.value, some second.timestamp⟩ := by
      rintro (⟨-, none⟩ | ⟨notOlder, -⟩)
      · exact present none
      · rw [stampOf] at notOlder
        omega
    rw [takeIn_of_not_stands lost] at same
    exact present ((congrArg KvEntry.value same).trans gone)
  · intro kept
    refine (takeIn_of_stands ?_).symm
    rcases stands with ⟨gone, absent⟩ | ⟨older, held⟩
    · obtain ⟨present, written⟩ := fills absent
      refine .inr ⟨?_, .inl present⟩
      by_contra later
      exact kept ⟨absent, present, gone, written, by rw [stampOf] at later; omega⟩
    · right
      rw [stampOf]
      by_cases absent : store.value = none
      · obtain ⟨present, written⟩ := fills absent
        have stamped : 0 < store.timestamp := held.resolve_left fun present => present absent
        exact ⟨by omega, .inl present⟩
      · have later := newer absent
        exact ⟨by omega, .inr (by omega)⟩

omit [DecidableEq Value] in
/-- What falls in stands against what is no newer. -/
theorem stands_of_newer {other : KvEntry Value} (falls : ¬ Stands second store)
    (newer : other.timestamp ≤ second.timestamp) :
    Stands other ⟨second.value, some second.timestamp⟩ := by
  obtain ⟨newest, fills⟩ := of_not_stands falls
  refine .inr ⟨newer, ?_⟩
  by_cases absent : store.value = none
  · exact .inl (fills absent).1
  · have later := newest absent
    exact .inr (show 0 < second.timestamp by omega)

omit [DecidableEq Value] in
/-- What falls in gives way to what is newer, if one of the two is a value. -/
theorem not_stands_of_older {other : KvEntry Value} {value : Option Value} {stamp : Nat}
    (newer : stamp < other.timestamp) (one : value ≠ none ∨ other.value ≠ none) :
    ¬ Stands other ⟨value, some stamp⟩ := by
  rintro (⟨gone, absent⟩ | ⟨older, -⟩)
  · exact one.elim (fun present => present absent) fun present => present gone
  · have later : other.timestamp ≤ stamp := older
    omega

/-- Of two entries that fall in, the newer one is left in either order, if one of them is a
value. -/
theorem commutes_of_newer (falls : ¬ Stands first store) (fallsToo : ¬ Stands second store)
    (newer : first.timestamp < second.timestamp)
    (one : first.value ≠ none ∨ second.value ≠ none) : Commutes store first second := by
  rw [Commutes, takeIn_of_not_stands falls, takeIn_of_not_stands fallsToo,
    takeIn_of_not_stands (not_stands_of_older newer one),
    takeIn_of_stands (stands_of_newer fallsToo newer.le)]

omit [DecidableEq Value] in
theorem isKnown_of_not_stands (falls : ¬ Stands first store) : first.IsKnown := by
  obtain ⟨newer, fills⟩ := of_not_stands falls
  by_cases absent : store.value = none
  · exact .inl (fills absent).1
  · have later := newer absent
    exact .inr (by omega)

omit [DecidableEq Value] in
/-- Whether two backups that both know of a key, and differ on it, know of different times. -/
def DistinctAt (first second : KvEntry Value) : Prop :=
  first.IsKnown → second.IsKnown → first.value ≠ second.value →
    first.timestamp ≠ second.timestamp

theorem commutes_of_not_stands (distinct : DistinctAt first second)
    (falls : ¬ Stands first store) (fallsToo : ¬ Stands second store) :
    Commutes store first second ↔ ¬ DeletesTwice store first second := by
  obtain ⟨newer, fills⟩ := of_not_stands falls
  by_cases one : first.value ≠ none ∨ second.value ≠ none
  · have once : ¬ DeletesTwice store first second := fun twice =>
      one.elim (fun present => present twice.2.1) fun present => present twice.2.2.1
    rw [iff_true_right once]
    rcases lt_trichotomy first.timestamp second.timestamp with earlier | same | later
    · exact commutes_of_newer falls fallsToo earlier one
    · have alike : first.value = second.value := by
        by_contra differ
        exact distinct (isKnown_of_not_stands falls) (isKnown_of_not_stands fallsToo) differ same
      rw [Commutes, takeIn_of_not_stands falls, takeIn_of_not_stands fallsToo,
        takeIn_of_stands (stands_of_newer falls same.ge),
        takeIn_of_stands (stands_of_newer fallsToo same.le), alike, same]
    · exact (commutes_of_newer fallsToo falls later one.symm).symm
  · simp only [not_or, ne_eq, not_not] at one
    have held : store.value ≠ none := fun absent => (fills absent).1 one.1
    have gone : Stands second ⟨first.value, some first.timestamp⟩ := .inl ⟨one.2, one.1⟩
    have goneToo : Stands first ⟨second.value, some second.timestamp⟩ := .inl ⟨one.1, one.2⟩
    rw [Commutes, takeIn_of_not_stands falls, takeIn_of_not_stands fallsToo,
      takeIn_of_stands gone, takeIn_of_stands goneToo]
    have later := newer held
    have laterToo := (of_not_stands fallsToo).1 held
    simp only [DeletesTwice, one, held, later, laterToo, KvEntry.mk.injEq, Option.some.injEq,
      true_and, ne_eq, not_false_eq_true, not_not]

omit [DecidableEq Value] in
theorem once_of_stands (second : KvEntry Value) (stands : Stands first store) :
    ¬ DeletesTwice store first second := by
  rintro ⟨held, -, -, later, -⟩
  rcases stands with ⟨-, absent⟩ | ⟨older, -⟩
  · exact held absent
  · omega

omit [DecidableEq Value] in
theorem not_forgets_of_not_stands (first : KvEntry Value) (fallsToo : ¬ Stands second store) :
    ¬ Forgets store first second := by
  rintro ⟨absent, -, gone, -⟩
  exact ((of_not_stands fallsToo).2 absent).1 gone

theorem commutes_comm : Commutes store first second ↔ Commutes store second first :=
  ⟨Eq.symm, Eq.symm⟩

/-- Two backups can be merged in either order just when no deletion is lost. -/
theorem commutes_iff (distinct : DistinctAt first second) :
    Commutes store first second ↔
      ¬ Forgets store first second ∧ ¬ Forgets store second first ∧
        ¬ DeletesTwice store first second := by
  by_cases stands : Stands first store
  · have kept := not_forgets_of_stands second stands
    have once := once_of_stands second stands
    by_cases standsToo : Stands second store
    · have keptToo := not_forgets_of_stands first standsToo
      rw [Commutes, takeIn_of_stands stands, takeIn_of_stands standsToo, takeIn_of_stands stands]
      simp [kept, keptToo, once]
    · rw [commutes_of_stands stands standsToo]
      simp [kept, once]
  · have keptToo := not_forgets_of_not_stands second stands
    by_cases standsToo : Stands second store
    · have once : ¬ DeletesTwice store first second := fun twice =>
        once_of_stands first standsToo
          ⟨twice.1, twice.2.2.1, twice.2.1, twice.2.2.2.2.1, twice.2.2.2.1, twice.2.2.2.2.2.symm⟩
      rw [commutes_comm, commutes_of_stands standsToo stands]
      simp [keptToo, once]
    · have kept := not_forgets_of_not_stands first standsToo
      rw [commutes_of_not_stands distinct stands standsToo]
      simp [kept, keptToo]

omit [DecidableEq Value] in
/-- Whether the newest thing known of a key is that it was deleted. -/
def NewestDeletes (known : List (KvEntry Value)) : Prop :=
  ∃ deletion ∈ known, deletion.value = none ∧ 0 < deletion.timestamp ∧
    ∀ other ∈ known, other.value ≠ none → other.timestamp < deletion.timestamp

/-- A deleted key stays so, whatever is known of it elsewhere is older. -/
theorem takeIn_absent {first store : KvEntry Value} (absent : store.value = none)
    (older : first.value ≠ none →
      first.timestamp ≤ store.timestamp ∧ 0 < store.timestamp) :
    takeIn first store = store := by
  refine takeIn_of_stands ?_
  by_cases gone : first.value = none
  · exact .inl ⟨gone, absent⟩
  · exact .inr ⟨(older gone).1, .inr (older gone).2⟩

/-- A key that a backup knows to be deleted, last of all, is absent once that backup and then
another are merged, if the deletion is not forgotten. -/
theorem absent_of_deletion_first (kept : ¬ Forgets store second first)
    (gone : first.value = none)
    (afterStore : store.value ≠ none → store.timestamp < first.timestamp)
    (afterSecond : second.value ≠ none → second.timestamp < first.timestamp) :
    (takeIn second (takeIn first store)).value = none := by
  by_cases absent : store.value = none
  · rw [takeIn_of_stands (.inl ⟨gone, absent⟩)]
    by_cases stands : Stands second store
    · rw [takeIn_of_stands stands, absent]
    · obtain ⟨present, written⟩ := (of_not_stands stands).2 absent
      exact absurd ⟨absent, present, gone, written, afterSecond present⟩ kept
  · have newer := afterStore absent
    have falls : ¬ Stands first store := by
      rintro (⟨-, none⟩ | ⟨older, -⟩)
      · exact absent none
      · omega
    have older (present : second.value ≠ none) :
        second.timestamp ≤ first.timestamp ∧ 0 < first.timestamp := by
      have earlier := afterSecond present
      omega
    have stays : takeIn second ⟨first.value, some first.timestamp⟩ =
        ⟨first.value, some first.timestamp⟩ := takeIn_absent gone older
    rw [takeIn_of_not_stands falls, stays]
    exact gone

/-- A key deleted last of all is absent after both orders, if no deletion is forgotten. -/
theorem absent_of_newestDeletes (commutes : Commutes store first second)
    (kept : ¬ Forgets store first second) (keptToo : ¬ Forgets store second first)
    (deletes : NewestDeletes [store, first, second]) :
    (takeIn second (takeIn first store)).value = none := by
  obtain ⟨deletion, isKnown, gone, stamped, newest⟩ := deletes
  simp only [List.forall_mem_cons, List.not_mem_nil, false_implies, implies_true, and_true]
    at newest
  obtain ⟨afterStore, afterFirst, afterSecond⟩ := newest
  simp only [List.mem_cons, List.not_mem_nil, or_false] at isKnown
  rcases isKnown with rfl | rfl | rfl
  · rw [takeIn_absent gone fun present => ⟨(afterFirst present).le, stamped⟩,
      takeIn_absent gone fun present => ⟨(afterSecond present).le, stamped⟩]
    exact gone
  · exact absent_of_deletion_first keptToo gone afterStore afterSecond
  · rw [commutes]
    exact absent_of_deletion_first kept gone afterStore afterFirst

/-! ### A whole store -/

omit [DecidableEq Value] in
/-- A backup has every key that is not the device's own. -/
theorem entry_backupStore {key : Text} (shared : isLocalOnly kinds key = false)
    (store : KvRows Value) : (backupStore kinds store).entry key = store.entry key := by
  have both := shared
  rw [isLocalOnly, Bool.or_eq_false_iff] at both
  rw [KvRows.entry, backupStore, Table.lookup_retainKeys, Table.lookup_retainKeys, both.2, shared]
  rfl

/-- Whether two stores hold the same keys, values and stamps. -/
def Same (store other : KvRows Value) : Prop := ∀ key, store.entry key = other.entry key

/-- Whether two backups know of different times for each key that they differ on. -/
def DistinctStamps (first second : KvRows Value) : Prop :=
  ∀ key, DistinctAt (first.entry key) (second.entry key)

/-- Whether merging two backups is a join: in either order, as often as one likes, the store's own
backup changing nothing, and a key that was deleted last of all absent at the end. -/
structure Joins (store first second : KvRows Value) : Prop where
  either : Same (restore kinds (restore kinds store first false) second false)
    (restore kinds (restore kinds store second false) first false)
  again : ∀ backup ∈ [first, second],
    Same (restore kinds (restore kinds store backup false) backup false)
      (restore kinds store backup false)
  own : Same (restore kinds store (backupStore kinds store) false) store
  deleted : ∀ key, isLocalOnly kinds key = false →
    NewestDeletes [store.entry key, first.entry key, second.entry key] →
      ((restore kinds (restore kinds store first false) second false).entry key).value = none ∧
      ((restore kinds (restore kinds store second false) first false).entry key).value = none

/-- Whether a deletion of a key is lost between two backups. -/
def LosesDeletion (store first second : KvEntry Value) : Prop :=
  Forgets store first second ∨ Forgets store second first ∨ DeletesTwice store first second

theorem restore_restore (store backup : KvRows Value) :
    Same (restore kinds (restore kinds store backup false) backup false)
      (restore kinds store backup false) := by
  intro key
  rw [entry_restore, entry_restore]
  split
  next => rfl
  next => exact takeIn_takeIn _ _

theorem restore_own (store : KvRows Value) :
    Same (restore kinds store (backupStore kinds store) false) store := by
  intro key
  rw [entry_restore]
  split
  next => rfl
  next shared =>
      rw [entry_backupStore kinds (Bool.not_eq_true _ ▸ shared)]
      refine takeIn_of_stands ?_
      by_cases absent : (store.entry key).value = none
      · exact .inl ⟨absent, absent⟩
      · exact .inr ⟨le_rfl, .inl absent⟩

theorem same_orders_iff (store first second : KvRows Value) :
    Same (restore kinds (restore kinds store first false) second false)
        (restore kinds (restore kinds store second false) first false) ↔
      ∀ key, isLocalOnly kinds key = false →
        Commutes (store.entry key) (first.entry key) (second.entry key) := by
  refine forall_congr' fun key => ?_
  rw [entry_restore, entry_restore, entry_restore, entry_restore]
  cases isLocalOnly kinds key with
  | true => simp
  | false => simp [Commutes]

/-- Merging the backups of two devices is a join just when no deletion of a key is lost between
them: one of a key that the store does not hold, whose older value the other backup still has,
or one of two of a key that it holds. -/
theorem joins_iff (store device other : KvRows Value)
    (distinct : DistinctStamps (backupStore kinds device) (backupStore kinds other)) :
    Joins kinds store (backupStore kinds device) (backupStore kinds other) ↔
      ∀ key, isLocalOnly kinds key = false →
        ¬ LosesDeletion (store.entry key) ((backupStore kinds device).entry key)
          ((backupStore kinds other).entry key) := by
  have orders := same_orders_iff kinds store (backupStore kinds device) (backupStore kinds other)
  simp only [LosesDeletion, not_or]
  constructor
  · intro joins key shared
    exact (commutes_iff (distinct key)).mp (orders.mp joins.either key shared)
  · intro kept
    have commutes (key : Text) (shared : isLocalOnly kinds key = false) :=
      (commutes_iff (distinct key)).mpr (kept key shared)
    refine ⟨orders.mpr commutes, fun backup _ => restore_restore kinds store backup,
      restore_own kinds store, fun key shared deletes => ?_⟩
    have absent := absent_of_newestDeletes (commutes key shared) (kept key shared).1
      (kept key shared).2.1 deletes
    have after := orders.mpr commutes key
    rw [← after, entry_restore, entry_restore, shared]
    exact ⟨absent, absent⟩

/-- A device that wrote a key. -/
def writer : KvRows Nat := KvRows.put ⟨∅, ∅⟩ "theme".toList ⟨some 1, some 1⟩

/-- A device that deleted it later. -/
def deleter : KvRows Nat := KvRows.put ⟨∅, ∅⟩ "theme".toList ⟨none, some 2⟩

/-- No key is the device's own. -/
def allShared : KeyKinds := ⟨fun _ => false, fun _ => false⟩

theorem distinctStamps_writer_deleter :
    DistinctStamps (backupStore allShared writer) (backupStore allShared deleter) := by
  intro key known knownToo differ
  rw [entry_backupStore allShared rfl, writer, KvRows.entry_put] at known differ ⊢
  rw [entry_backupStore allShared rfl, deleter, KvRows.entry_put] at knownToo differ ⊢
  by_cases theme : key = "theme".toList
  · rw [if_pos theme, if_pos theme]
    decide
  · rw [if_neg theme, if_neg theme] at differ
    exact absurd rfl differ

/-- A store that has both the key and its older stamp takes both backups in, in either order. -/
theorem joins_writer_deleter : Joins allShared writer (backupStore allShared writer)
    (backupStore allShared deleter) := by
  refine (joins_iff allShared writer writer deleter distinctStamps_writer_deleter).mpr
    fun key _ => ?_
  have gone : (deleter.entry key).value = none := by
    rw [deleter, KvRows.entry_put]
    split <;> rfl
  rw [entry_backupStore allShared rfl, entry_backupStore allShared rfl]
  rintro (⟨absent, present, -⟩ | ⟨-, present, -⟩ | ⟨held, absent, -⟩)
  · exact present absent
  · exact present gone
  · exact held absent

/-- A store that holds neither: the deletion, merged first, is forgotten. -/
theorem not_joins_writer_deleter :
    DistinctStamps (backupStore allShared writer) (backupStore allShared deleter) ∧
    ¬ Joins allShared ⟨∅, ∅⟩ (backupStore allShared writer) (backupStore allShared deleter) := by
  refine ⟨distinctStamps_writer_deleter, fun joins => ?_⟩
  have orders := joins.either "theme".toList
  rw [entry_restore, entry_restore, entry_restore, entry_restore] at orders
  exact absurd orders (by decide)

end ServerBox.Backup
