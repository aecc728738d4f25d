import Mathlib.Data.List.Nodup
import Mathlib.Data.List.Perm.Basic

/-!
# Maps in the order of insertion

A key that is there keeps its place when its row is replaced; a new one goes to the end.
-/

namespace ServerBox.Std

structure LinkedMap (Key Row : Type) where
  entries : List (Key × Row)
  distinct : (entries.map Prod.fst).Nodup

namespace LinkedMap

variable {Key Row : Type}

def empty : LinkedMap Key Row := ⟨[], List.nodup_nil⟩

def values (map : LinkedMap Key Row) : List Row := map.entries.map Prod.snd

/-- Only the keys that a test accepts. -/
def retain (map : LinkedMap Key Row) (keep : Key → Bool) : LinkedMap Key Row where
  entries := map.entries.filter fun entry => keep entry.1
  distinct := map.distinct.sublist (List.filter_sublist.map Prod.fst)

def mapRows (map : LinkedMap Key Row) (change : Row → Row) : LinkedMap Key Row where
  entries := map.entries.map fun entry => (entry.1, change entry.2)
  distinct := by
    rw [List.map_map]
    exact map.distinct

variable [DecidableEq Key]

def lookup (map : LinkedMap Key Row) (key : Key) : Option Row :=
  (map.entries.find? fun entry => entry.1 = key).map Prod.snd

/-- The entries with one put in the place of its key, or at the end. -/
def putEntries (key : Key) (row : Row) : List (Key × Row) → List (Key × Row)
  | [] => [(key, row)]
  | entry :: rest => if entry.1 = key then (key, row) :: rest else entry :: putEntries key row rest

theorem mem_keys_putEntries {key other : Key} {row : Row} {entries : List (Key × Row)} :
    other ∈ (putEntries key row entries).map Prod.fst ↔
      other = key ∨ other ∈ entries.map Prod.fst := by
  induction entries with
  | nil => simp [putEntries]
  | cons entry rest inductionHypothesis =>
      rw [putEntries]
      split
      next same => simp [same]
      next =>
        rw [List.map_cons, List.mem_cons, inductionHypothesis, List.map_cons, List.mem_cons]
        exact or_left_comm

theorem nodup_putEntries (key : Key) (row : Row) {entries : List (Key × Row)}
    (distinct : (entries.map Prod.fst).Nodup) :
    ((putEntries key row entries).map Prod.fst).Nodup := by
  induction entries with
  | nil => exact List.nodup_cons.mpr ⟨List.not_mem_nil, List.nodup_nil⟩
  | cons entry rest inductionHypothesis =>
      obtain ⟨notLater, later⟩ := List.nodup_cons.mp distinct
      rw [putEntries]
      split
      next same =>
        exact List.nodup_cons.mpr ⟨same ▸ notLater, later⟩
      next differs =>
        refine List.nodup_cons.mpr ⟨fun held => ?_, inductionHypothesis later⟩
        exact (mem_keys_putEntries.mp held).elim differs notLater

def put (map : LinkedMap Key Row) (key : Key) (row : Row) : LinkedMap Key Row :=
  ⟨putEntries key row map.entries, nodup_putEntries key row map.distinct⟩

def remove (map : LinkedMap Key Row) (key : Key) : LinkedMap Key Row :=
  map.retain fun other => other ≠ key

/-- A row put only where its key has none. -/
def putIfAbsent (map : LinkedMap Key Row) (key : Key) (row : Row) : LinkedMap Key Row :=
  if (map.lookup key).isSome then map else map.put key row

@[simp] theorem lookup_empty (key : Key) : (empty : LinkedMap Key Row).lookup key = none := rfl

theorem lookup_put (map : LinkedMap Key Row) (key other : Key) (row : Row) :
    (map.put key row).lookup other = if other = key then some row else map.lookup other := by
  obtain ⟨entries, distinct⟩ := map
  change ((putEntries key row entries).find? _).map _ = ite _ _ ((entries.find? _).map _)
  clear distinct
  induction entries with
  | nil =>
      rw [putEntries, List.find?_cons]
      by_cases same : key = other
      · simp [same]
      · simp [same, Ne.symm same]
  | cons entry rest inductionHypothesis =>
      rw [putEntries]
      by_cases isKey : entry.1 = key
      · rw [if_pos isKey, List.find?_cons, List.find?_cons, isKey]
        by_cases same : key = other
        · simp [same]
        · simp [same, Ne.symm same]
      · rw [if_neg isKey, List.find?_cons, List.find?_cons]
        by_cases isOther : entry.1 = other
        · have differs : other ≠ key := isOther ▸ isKey
          simp [isOther, differs]
        · simpa [isOther] using inductionHypothesis

theorem lookup_retain (map : LinkedMap Key Row) (keep : Key → Bool) (key : Key) :
    (map.retain keep).lookup key = if keep key then map.lookup key else none := by
  change ((map.entries.filter _).find? _).map _ = ite _ ((map.entries.find? _).map _) _
  rw [List.find?_filter]
  by_cases kept : keep key = true
  · rw [if_pos kept]
    congr 2
    funext entry
    by_cases same : entry.1 = key
    · simp [same, kept]
    · simp [same]
  · rw [if_neg kept, Option.map_eq_none_iff, List.find?_eq_none]
    intro entry _ both
    simp only [decide_eq_true_eq] at both
    exact kept (both.2 ▸ both.1)

theorem lookup_remove (map : LinkedMap Key Row) (key other : Key) :
    (map.remove key).lookup other = if other = key then none else map.lookup other := by
  rw [remove, lookup_retain]
  by_cases same : other = key
  · simp [same]
  · simp [same]

theorem lookup_mapRows (map : LinkedMap Key Row) (change : Row → Row) (key : Key) :
    (map.mapRows change).lookup key = (map.lookup key).map change := by
  change ((map.entries.map _).find? _).map _ = ((map.entries.find? _).map _).map _
  rw [List.find?_map, Option.map_map, Option.map_map]
  rfl

theorem lookup_putIfAbsent (map : LinkedMap Key Row) (key other : Key) (row : Row) :
    (map.putIfAbsent key row).lookup other =
      (map.lookup other).or (if other = key then some row else none) := by
  unfold putIfAbsent
  split
  next held =>
    by_cases same : other = key
    · rw [same, Option.or_of_isSome held]
    · rw [if_neg same, Option.or_none]
  next held =>
    rw [lookup_put]
    by_cases same : other = key
    · rw [if_pos same, if_pos same, same, Option.not_isSome_iff_eq_none.mp held, Option.none_or]
    · rw [if_neg same, if_neg same, Option.or_none]

theorem lookup_of_mem {map : LinkedMap Key Row} {entry : Key × Row} (among : entry ∈ map.entries) :
    map.lookup entry.1 = some entry.2 := by
  obtain ⟨entries, distinct⟩ := map
  change ((entries.find? _).map _) = _
  change entry ∈ entries at among
  induction entries with
  | nil => cases among
  | cons first rest inductionHypothesis =>
      obtain ⟨notLater, later⟩ := List.nodup_cons.mp distinct
      rcases List.mem_cons.mp among with rfl | inRest
      · simp
      · have differs : first.1 ≠ entry.1 := fun same =>
          notLater (same ▸ List.mem_map_of_mem inRest)
        simpa [differs] using inductionHypothesis later inRest

theorem mem_of_lookup {map : LinkedMap Key Row} {key : Key} {row : Row}
    (held : map.lookup key = some row) : (key, row) ∈ map.entries := by
  obtain ⟨entry, isEntry, rfl⟩ := Option.map_eq_some_iff.mp held
  have isKey := (List.find?_eq_some_iff_append.mp isEntry).1
  have same : entry.1 = key := of_decide_eq_true isKey
  exact same ▸ List.mem_of_find?_eq_some isEntry

/-- The rows are those under the keys. -/
theorem mem_values {map : LinkedMap Key Row} {row : Row} :
    row ∈ map.values ↔ ∃ key, map.lookup key = some row := by
  constructor
  · intro among
    obtain ⟨entry, isEntry, rfl⟩ := List.mem_map.mp among
    exact ⟨entry.1, lookup_of_mem isEntry⟩
  · rintro ⟨key, held⟩
    exact List.mem_map.mpr ⟨_, mem_of_lookup held, rfl⟩

end LinkedMap

end ServerBox.Std
