import Mathlib.Data.List.AList

/-!
# Tables

A table is an association list from keys to rows, each key once. What Mathlib's
`AList` lacks for one: a change of every row, the rows that a test keeps, and a change of
the rows under some keys.
-/

namespace ServerBox.Std

/-- Rows addressed by a key. -/
abbrev Table (Key Row : Type) := AList fun _ : Key => Row

namespace Table

variable {Key Row Other : Type}

/-- Every row changed, under the same keys in the same order. -/
def mapRows (change : Row → Other) (table : Table Key Row) : Table Key Other where
  entries := table.entries.map fun entry => ⟨entry.1, change entry.2⟩
  nodupKeys := by
    have keys : (table.entries.map fun entry => (⟨entry.1, change entry.2⟩ : (_ : Key) × Other)).keys
        = table.entries.keys := by
      simp [List.keys, Function.comp_def]
    rw [List.NodupKeys, keys]
    exact table.nodupKeys

@[simp] theorem keys_mapRows (change : Row → Other) (table : Table Key Row) :
    (table.mapRows change).keys = table.keys := by
  simp [mapRows, AList.keys, List.keys, Function.comp_def]

@[simp] theorem mem_mapRows {change : Row → Other} {table : Table Key Row} {key : Key} :
    key ∈ table.mapRows change ↔ key ∈ table := by
  rw [AList.mem_keys, keys_mapRows, AList.mem_keys]

variable [DecidableEq Key]

@[simp] theorem lookup_mapRows (change : Row → Other) (table : Table Key Row) (key : Key) :
    (table.mapRows change).lookup key = (table.lookup key).map change := by
  cases found : table.lookup key with
  | none =>
      rw [AList.lookup_eq_none] at found
      rw [Option.map_none, AList.lookup_eq_none, mem_mapRows]
      exact found
  | some row =>
      have member : (⟨key, row⟩ : (_ : Key) × Row) ∈ table.entries := AList.mem_lookup_iff.mp found
      have mapped : change row ∈ (table.mapRows change).lookup key :=
        AList.mem_lookup_iff.mpr (List.mem_map.mpr ⟨_, member, rfl⟩)
      exact mapped

/-- The row under a key once one was written. -/
theorem lookup_insert_ite (table : Table Key Row) (key other : Key) (row : Row) :
    (AList.insert key row table).lookup other = if other = key then some row else table.lookup other := by
  by_cases same : other = key
  · rw [if_pos same, same, AList.lookup_insert]
  · rw [if_neg same, AList.lookup_insert_ne same]

/-- A row left when one was erased was there before. -/
theorem mem_lookup_of_erase {table : Table Key Row} {erased key : Key} {row : Row}
    (held : row ∈ (AList.erase erased table).lookup key) : row ∈ table.lookup key := by
  have other : key ≠ erased := by
    rintro rfl
    rw [AList.lookup_erase] at held
    cases held
  rwa [AList.lookup_erase_ne other] at held

/-- Every row changed to itself is no change. -/
theorem mapRows_eq_self {change : Row → Row} {table : Table Key Row}
    (same : ∀ key row, row ∈ table.lookup key → change row = row) :
    table.mapRows change = table := by
  apply AList.ext
  have each : ∀ entry ∈ table.entries, (⟨entry.1, change entry.2⟩ : (_ : Key) × Row) = entry := by
    intro entry member
    rw [same entry.1 entry.2 (AList.mem_lookup_iff.mpr member)]
  exact (List.map_congr_left each).trans (List.map_id _)

/-! ### The rows that a test keeps -/

/-- The rows that a test keeps. -/
def retain (keep : Row → Bool) (table : Table Key Row) : Table Key Row where
  entries := table.entries.filter fun entry => keep entry.2
  nodupKeys := table.nodupKeys.sublist List.filter_sublist

theorem lookup_retain (keep : Row → Bool) (table : Table Key Row) (key : Key) :
    (table.retain keep).lookup key = (table.lookup key).filter keep := by
  ext row
  have kept : row ∈ (table.retain keep).lookup key ↔ row ∈ table.lookup key ∧ keep row = true := by
    rw [AList.mem_lookup_iff, AList.mem_lookup_iff]
    exact List.mem_filter
  rw [Option.filter_eq_some_iff]
  exact kept

/-- The rows whose key a test keeps. -/
def retainKeys (keep : Key → Bool) (table : Table Key Row) : Table Key Row where
  entries := table.entries.filter fun entry => keep entry.1
  nodupKeys := table.nodupKeys.sublist List.filter_sublist

theorem lookup_retainKeys (keep : Key → Bool) (table : Table Key Row) (key : Key) :
    (table.retainKeys keep).lookup key = if keep key then table.lookup key else none := by
  have kept (row : Row) : row ∈ (table.retainKeys keep).lookup key ↔
      row ∈ table.lookup key ∧ keep key = true := by
    rw [AList.mem_lookup_iff, AList.mem_lookup_iff]
    exact List.mem_filter
  ext row
  refine (kept row).trans ?_
  split
  next isKept => exact and_iff_left isKept
  next notKept => simp [notKept]

/-! ### A change of the row under a key -/

/-- The row under a key changed, made or removed. -/
def alter (change : Option Row → Option Row) (table : Table Key Row) (key : Key) : Table Key Row :=
  match change (table.lookup key) with
  | some row => AList.insert key row table
  | none => AList.erase key table

theorem lookup_alter (change : Option Row → Option Row) (table : Table Key Row) (key other : Key) :
    (table.alter change key).lookup other =
      if other = key then change (table.lookup key) else table.lookup other := by
  unfold alter
  split
  next row changed => rw [lookup_insert_ite, changed]
  next changed =>
    by_cases same : other = key
    · rw [if_pos same, same, AList.lookup_erase, changed]
    · rw [if_neg same, AList.lookup_erase_ne same]

/-- The rows under several keys changed, one after another. -/
theorem lookup_alterAll (change : Option Row → Option Row) (keys : List Key) (distinct : keys.Nodup)
    (table : Table Key Row) (key : Key) :
    (keys.foldl (alter change) table).lookup key =
      if key ∈ keys then change (table.lookup key) else table.lookup key := by
  induction keys generalizing table with
  | nil => rfl
  | cons first rest inductionHypothesis =>
      obtain ⟨notLater, distinctRest⟩ := List.nodup_cons.mp distinct
      rw [List.foldl_cons, inductionHypothesis distinctRest, lookup_alter]
      by_cases isFirst : key = first
      · subst isFirst
        rw [if_neg notLater, if_pos rfl, if_pos (List.mem_cons_self ..)]
      · have sameMembership : key ∈ first :: rest ↔ key ∈ rest := by
          rw [List.mem_cons, or_iff_right isFirst]
        rw [if_neg isFirst, if_congr sameMembership rfl rfl]

end Table

end ServerBox.Std
