import ServerBox.Std.Table
import Mathlib.Data.List.MinMax
import Mathlib.Algebra.Order.Ring.Nat

/-!
# Stamped ops

`lib/data/store/sync_recorder.dart` and the op type of `lib/core/sync/log.dart`: a
change of a record as the log carries it, the table of each record's newest stamp,
and the ops that win over it. Which ops win is decided by `syncWinners` of the
package fl_sync; `SyncWinners` states what is relied on of it.
-/

namespace ServerBox.Sync

open ServerBox.Std

/-- A stamp of the hybrid logical clock: 32 hex digits, of which 12 are the time, 4
the counter and 16 the device, so that strings compare as the numbers do. -/
abbrev Stamp := Nat

namespace Stamp

/-- `hlc.substring(16)`: the device that made a stamp. -/
def device (h : Stamp) : Nat := h % 2 ^ 64

/-- Whether a stamp is greater than the one held, if any is. -/
def After : Option Stamp → Stamp → Prop
  | none, _ => True
  | some held, h => held < h

instance (held : Option Stamp) (h : Stamp) : Decidable (After held h) :=
  match held with
  | none => isTrue trivial
  | some held => inferInstanceAs (Decidable (held < h))

@[simp] theorem after_none (h : Stamp) : After none h := trivial

@[simp] theorem after_some {held h : Stamp} : After (some held) h ↔ held < h := Iff.rfl

end Stamp

/-- A record's change as the log carries it: `fl_sync::Op`. -/
structure SyncOp (Id Datum : Type) where
  id : Id
  h : Stamp
  d : Datum
deriving DecidableEq, Repr

/-! ### Stamps held -/

/-- `sync_record`: each record's newest stamp. -/
abbrev Stamps (Id : Type) := Table Id Stamp

namespace Stamps

variable {Id : Type} [DecidableEq Id]

/-- The insert of `SyncRecorder.record`: a stamp never moves back. -/
def record (stamps : Stamps Id) (id : Id) (h : Stamp) : Stamps Id :=
  if Stamp.After (stamps.lookup id) h then stamps.insert id h else stamps

theorem lookup_record_other (stamps : Stamps Id) {id other : Id} (h : Stamp) (apart : other ≠ id) :
    (stamps.record id h).lookup other = stamps.lookup other := by
  unfold record
  split
  · exact AList.lookup_insert_ne apart
  · rfl

theorem lookup_record_after {stamps : Stamps Id} {id : Id} {h : Stamp}
    (after : Stamp.After (stamps.lookup id) h) : (stamps.record id h).lookup id = some h := by
  rw [record, if_pos after, AList.lookup_insert]

/-- A record stamped holds that stamp or a greater one. -/
theorem lookup_record_self (stamps : Stamps Id) (id : Id) (h : Stamp) :
    ∃ held, (stamps.record id h).lookup id = some held ∧ h ≤ held ∧
      (held = h ∨ stamps.lookup id = some held) := by
  by_cases after : Stamp.After (stamps.lookup id) h
  · exact ⟨h, lookup_record_after after, le_refl h, .inl rfl⟩
  · rw [record, if_neg after]
    cases found : stamps.lookup id with
    | none =>
        rw [found] at after
        exact absurd trivial after
    | some held =>
        rw [found, Stamp.after_some, not_lt] at after
        exact ⟨held, rfl, after, .inr rfl⟩

/-- No stamp is lost or moved back. -/
theorem lookup_record_mono {stamps : Stamps Id} {other : Id} {before : Stamp} (id : Id) (h : Stamp)
    (found : stamps.lookup other = some before) :
    ∃ held, (stamps.record id h).lookup other = some held ∧ before ≤ held := by
  by_cases same : other = id
  · subst same
    by_cases after : Stamp.After (stamps.lookup other) h
    · rw [found, Stamp.after_some] at after
      refine ⟨h, lookup_record_after ?_, after.le⟩
      rw [found]
      exact after
    · rw [record, if_neg after]
      exact ⟨before, found, le_refl before⟩
  · exact ⟨before, (lookup_record_other stamps h same).trans found, le_refl before⟩

/-- Every stamp held is at most a bound that the stamp recorded keeps too. -/
theorem record_le {stamps : Stamps Id} {id : Id} {h bound : Stamp}
    (held : ∀ other stamp, stamps.lookup other = some stamp → stamp ≤ bound) (small : h ≤ bound)
    {other : Id} {stamp : Stamp} (found : (stamps.record id h).lookup other = some stamp) :
    stamp ≤ bound := by
  by_cases same : other = id
  · subst same
    obtain ⟨kept, recorded, -, made | before⟩ := lookup_record_self stamps other h
    · rw [found, Option.some.injEq] at recorded
      rw [recorded, made]
      exact small
    · rw [found, Option.some.injEq] at recorded
      exact recorded ▸ held other kept before
  · exact held other stamp ((lookup_record_other stamps h same).symm.trans found)

end Stamps

/-! ### The ops that win -/

/-- `syncWinners`: of each record among `ops` the op of the greatest stamp, where that is
greater than the stamp held. In what order they are answered is not relied on. -/
structure SyncWinners (Id Datum : Type) where
  winners : List (SyncOp Id Datum) → (Id → Option Stamp) → List (SyncOp Id Datum)
  of_mem : ∀ {ops held op}, op ∈ winners ops held →
    op ∈ ops ∧ Stamp.After (held op.id) op.h ∧ ∀ other ∈ ops, other.id = op.id → other.h ≤ op.h
  exists_mem : ∀ {ops held op}, op ∈ ops → Stamp.After (held op.id) op.h →
    ∃ winner ∈ winners ops held, winner.id = op.id
  distinct : ∀ ops held, ((winners ops held).map SyncOp.id).Nodup

namespace SyncWinners

variable {Id Datum : Type}

/-- Of the ops of a kind there is one of the greatest stamp. -/
theorem exists_greatest {ops : List (SyncOp Id Datum)} {op : SyncOp Id Datum}
    (kind : SyncOp Id Datum → Prop) (member : op ∈ ops) (isKind : kind op) :
    ∃ greatest ∈ ops, kind greatest ∧ ∀ other ∈ ops, kind other → other.h ≤ greatest.h := by
  classical
  have present : op ∈ ops.filter fun other => kind other :=
    List.mem_filter.mpr ⟨member, decide_eq_true isKind⟩
  cases found : (ops.filter fun other => kind other).argmax SyncOp.h with
  | none =>
      rw [List.argmax_eq_none] at found
      rw [found] at present
      exact absurd present List.not_mem_nil
  | some greatest =>
      obtain ⟨here, same⟩ := List.mem_filter.mp (List.argmax_mem found)
      refine ⟨greatest, here, of_decide_eq_true same, ?_⟩
      intro other otherHere otherKind
      exact List.le_of_mem_argmax (List.mem_filter.mpr ⟨otherHere, decide_eq_true otherKind⟩) found

variable [DecidableEq Id]

/-- The ops no other op of their record beats, nor the stamp held. -/
def unbeaten (ops : List (SyncOp Id Datum)) (held : Id → Option Stamp) : List (SyncOp Id Datum) :=
  ops.filter fun op =>
    Stamp.After (held op.id) op.h ∧ ∀ other ∈ ops, other.id = op.id → other.h ≤ op.h

/-- Winners that stand in the order of the ops, the last of two that are stamped alike. -/
def inOrder (Id Datum : Type) [DecidableEq Id] : SyncWinners Id Datum where
  winners ops held := (unbeaten ops held).pwFilter fun one other => one.id ≠ other.id
  of_mem := by
    intro ops held op member
    have unbeatenOp := (List.mem_filter.mp (List.pwFilter_subset _ member))
    exact ⟨unbeatenOp.1, of_decide_eq_true unbeatenOp.2⟩
  exists_mem := by
    intro ops held op member after
    obtain ⟨greatest, here, same, beats⟩ := exists_greatest (fun other => other.id = op.id) member rfl
    have wins : greatest ∈ unbeaten ops held := by
      refine List.mem_filter.mpr ⟨here, decide_eq_true ⟨?_, fun other otherHere otherSame =>
        beats other otherHere (otherSame.trans same)⟩⟩
      rw [same]
      have notBefore : op.h ≤ greatest.h := beats op member rfl
      cases current : held op.id with
      | none => trivial
      | some stamp =>
          rw [current, Stamp.after_some] at after
          exact lt_of_lt_of_le after notBefore
    by_contra missing
    push Not at missing
    have apart := (List.forall_mem_pwFilter
      (R := fun one other : SyncOp Id Datum => one.id ≠ other.id) ?_ greatest _).mp
        (fun winner winnerHere => ?_) greatest wins
    · exact apart rfl
    · intro one middle other differ
      by_contra both
      push Not at both
      exact differ (both.1.trans both.2)
    · exact fun equal => missing winner winnerHere (equal.symm.trans same)
  distinct := by
    intro ops held
    rw [List.Nodup, List.pairwise_map]
    exact List.pairwise_pwFilter _

end SyncWinners

end ServerBox.Sync
