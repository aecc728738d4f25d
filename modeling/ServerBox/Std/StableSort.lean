import Mathlib.Data.List.Sort
import Mathlib.Data.List.TakeWhile

/-!
# What a stable sort puts behind a value

Values sorted by a key, those of one key in the order they came in. Behind a value stand those
of a greater key and those of its own that came later (`length_behind`), which decides whether
it is among the last of them (`mem_take_sortBy_iff`).
-/

namespace ServerBox.Std

section

variable {α : Type} (key : α → Int)

/-- The values in the order of their keys. -/
def sortBy (values : List α) : List α :=
  values.mergeSort fun one other => key one ≤ key other

theorem sortBy_perm (values : List α) : (sortBy key values).Perm values := List.mergeSort_perm _ _

theorem pairwise_sortBy (values : List α) :
    (sortBy key values).Pairwise fun one other => key one ≤ key other := by
  refine (List.pairwise_mergeSort ?_ ?_ values).imp fun holds => of_decide_eq_true holds
  · intro one other third first second
    simp only [decide_eq_true_eq] at first second ⊢
    exact first.trans second
  · intro one other
    simpa using Int.le_total (key one) (key other)

/-- The values of one key keep their order. -/
theorem filter_sortBy (values : List α) (at_ : Int) :
    (sortBy key values).filter (fun value => key value = at_) =
      values.filter fun value => key value = at_ := by
  have alike : ∀ value ∈ values.filter (fun value => key value = at_), key value = at_ := by
    intro value held
    simpa using (List.mem_filter.mp held).2
  have ordered : (values.filter fun value => key value = at_).Pairwise
      fun one other => decide (key one ≤ key other) = true :=
    List.pairwise_of_forall_mem_list fun one isOne other isOther => by
      rw [alike one isOne, alike other isOther]
      simp
  have sub : (values.filter fun value => key value = at_).Sublist (sortBy key values) := by
    refine List.sublist_mergeSort ?_ ?_ ordered List.filter_sublist
    · intro one other third first second
      simp only [decide_eq_true_eq] at first second ⊢
      exact first.trans second
    · intro one other
      simpa using Int.le_total (key one) (key other)
  have again := sub.filter fun value => decide (key value = at_)
  rw [List.filter_filter] at again
  simp only [Bool.and_self] at again
  exact (again.eq_of_length ((sortBy_perm key values).filter _).length_eq.symm).symm

/-- Of two places of a value, the first has the most behind it. -/
theorem length_le_of_first {front back start rest : List α} {value : α}
    (same : front ++ value :: back = start ++ value :: rest) (first : value ∉ start) :
    back.length ≤ rest.length := by
  have lengths := congrArg List.length same
  simp only [List.length_append, List.length_cons] at lengths
  have longer : start.length ≤ front.length := by
    by_contra shorter
    have at_ := congrArg (·[front.length]?) same
    simp only [List.getElem?_append_right (Nat.le_refl _), Nat.sub_self, List.getElem?_cons_zero,
      List.getElem?_append_left (Nat.lt_of_not_le shorter)] at at_
    exact first (List.mem_of_getElem? at_.symm)
  omega

variable [DecidableEq α]

/-- How many values come behind one: those of a greater key, and those of its own that come
later. -/
def behind (values : List α) (value : α) : Nat :=
  values.countP (fun other => key value < key other) +
    (values.dropWhile (· ≠ value)).tail.countP fun other => key other = key value

/-- A value that is there is the first that a search for it stops at. -/
theorem eq_takeWhile_append {values : List α} {value : α} (held : value ∈ values) :
    values = values.takeWhile (· ≠ value) ++
      value :: (values.dropWhile (· ≠ value)).tail := by
  have some : values.dropWhile (· ≠ value) ≠ [] := by
    rw [Ne, List.dropWhile_eq_nil_iff]
    intro none
    simpa using none value held
  have stops : (values.dropWhile (· ≠ value)).head some = value := by
    simpa using List.head_dropWhile_not (· ≠ value) some
  conv_lhs => rw [← List.takeWhile_append_dropWhile (p := (· ≠ value)) (l := values)]
  rw [← List.cons_head_tail some, stops]
  rfl

/-- What comes behind the first place of a value in the order of the keys. -/
theorem length_behind {values : List α} {value : α} (held : value ∈ values) :
    ((sortBy key values).dropWhile (· ≠ value)).tail.length = behind key values value := by
  have isSorted : value ∈ sortBy key values := (sortBy_perm key values).mem_iff.mpr held
  have ordered := pairwise_sortBy key values
  have counts : (sortBy key values).countP (fun other => key value < key other) =
      values.countP fun other => key value < key other := (sortBy_perm key values).countP_eq _
  have ofKey := filter_sortBy key values (key value)
  generalize sortBy key values = sorted at isSorted ordered counts ofKey ⊢
  have split := eq_takeWhile_append isSorted
  rw [split, List.pairwise_append, List.pairwise_cons] at ordered
  obtain ⟨-, ⟨least, -⟩, most⟩ := ordered
  have greater : (sorted.dropWhile (· ≠ value)).tail.countP (fun other => key value < key other) =
      values.countP fun other => key value < key other := by
    have before : (sorted.takeWhile (· ≠ value)).countP (fun other => key value < key other) =
        0 := by
      refine List.countP_eq_zero.mpr fun other isBefore => ?_
      simpa using most other isBefore value List.mem_cons_self
    rw [split, List.countP_append, List.countP_cons, before] at counts
    simpa using counts
  have later : (sorted.dropWhile (· ≠ value)).tail.countP (fun other => key other = key value) =
      (values.dropWhile (· ≠ value)).tail.countP fun other => key other = key value := by
    have first : ∀ others : List α, value ∉ (others.takeWhile (· ≠ value)).filter
        fun other => key other = key value := by
      intro others isFirst
      simpa using List.mem_takeWhile_imp (List.mem_filter.mp isFirst).1
    rw [split, eq_takeWhile_append held] at ofKey
    simp only [List.filter_append, List.filter_cons, decide_true, if_true] at ofKey
    rw [List.countP_eq_length_filter, List.countP_eq_length_filter]
    exact Nat.le_antisymm (length_le_of_first ofKey (first values))
      (length_le_of_first ofKey.symm (first sorted))
  have either : (sorted.dropWhile (· ≠ value)).tail.length =
      (sorted.dropWhile (· ≠ value)).tail.countP (fun other => key value < key other) +
        (sorted.dropWhile (· ≠ value)).tail.countP fun other => key other = key value := by
    rw [List.length_eq_countP_add_countP (fun other => decide (key value < key other))]
    congr 1
    refine List.countP_congr fun other isBehind => ?_
    have := least other isBehind
    simp
    omega
  rw [either, greater, later, behind]

/-- A value is among all but the last `count` when that many come behind it. -/
theorem mem_take_sortBy_iff {values : List α} {value : α} {count : Nat} (held : value ∈ values) :
    value ∈ (sortBy key values).take ((sortBy key values).length - count) ↔
      count ≤ behind key values value := by
  have split := eq_takeWhile_append ((sortBy_perm key values).mem_iff.mpr held)
  have counted := length_behind key held
  have first : value ∉ (sortBy key values).takeWhile (· ≠ value) := fun isFirst => by
    simpa using List.mem_takeWhile_imp isFirst
  generalize (sortBy key values).takeWhile (· ≠ value) = front at split first
  generalize ((sortBy key values).dropWhile (· ≠ value)).tail = back at split counted
  rw [split, List.length_append, List.length_cons, counted]
  constructor
  · intro taken
    by_contra few
    rw [List.take_append_of_le_length (by omega)] at taken
    exact first (List.mem_of_mem_take taken)
  · intro many
    refine List.mem_of_getElem? (i := front.length) ?_
    rw [List.getElem?_take_of_lt (by omega), List.getElem?_append_right (Nat.le_refl _),
      Nat.sub_self, List.getElem?_cons_zero]

end

end ServerBox.Std
