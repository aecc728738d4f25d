import Mathlib.Data.List.Induction
import Mathlib.Data.Option.Basic
import ServerBox.Std.Table

/-!
# Segments read from a shared folder

`SegmentSync._pull` of `src/lib/core/sync/segment.dart`: the other devices' segments are read in
order, and a gap in them is closed from a snapshot that covers it. What a file holds, and whether
it can be fetched and opened, is given with each sync.

A snapshot that was read is not read again until it is written again. It counts as read when it
could not be fetched or opened too, so a gap that it would close stays.
-/

namespace ServerBox.Sync

open ServerBox.Std

variable {Device : Type} [DecidableEq Device]

/-- `_Listing`: each device's segments by number, and when each snapshot was written. -/
structure Listing (Device : Type) where
  segments : Table Device (List Nat)
  snapshots : Table Device (Option Nat)

/-- What reading a snapshot comes to: an exception (the fetch, a newer build's snapshot, the
write), nothing (no such file, no key here opens it, not what it should be), or its ops applied
and how far it had read each device. -/
inductive SnapshotRead (Device : Type) where
  | broken
  | unread
  | applied (covers : Table Device Nat)

/-- What reading a segment comes to: an exception, a wait for a later sync, or past it. -/
inductive SegmentRead where
  | broken
  | waits
  | passed
deriving DecidableEq, Repr

/-- A sync, as far as it reads: what is listed and what each file comes to. -/
structure SyncRun (Device : Type) where
  listed : Listing Device
  snapshot : Device → SnapshotRead Device
  segment : Device → Nat → SegmentRead

/-- What an engine keeps: how far each device's segments were read, and `_snapshotsRead`. -/
structure Engine (Device : Type) where
  cursors : Table Device Nat
  snapshotsRead : Table Device (Option Nat)

namespace Engine

def cursor (engine : Engine Device) (device : Device) : Nat :=
  (engine.cursors.lookup device).getD 0

def setCursor (engine : Engine Device) (device : Device) (number : Nat) : Engine Device :=
  { engine with cursors := AList.insert device number engine.cursors }

/-- `forget`. -/
def forget (engine : Engine Device) : Engine Device := { engine with cursors := ∅ }

/-- The cursors moved to what a snapshot covers. -/
def cover (mine : Device) (covers : Table Device Nat) (engine : Engine Device) : Engine Device :=
  (covers.entries.filter fun entry => entry.1 ≠ mine ∧ engine.cursor entry.1 < entry.2).foldl
    (fun covered entry => covered.setCursor entry.1 entry.2) engine

end Engine

/-- `_gap`: the segment after the cursor is not there, and a later one is. -/
def gap (numbers : List Nat) (cursor : Nat) : Bool :=
  !numbers.contains (cursor + 1) && numbers.any (cursor + 1 < ·)

/-- The other devices whose segments have a gap. -/
def gaps (mine : Device) (listed : Listing Device) (engine : Engine Device) : List Device :=
  (listed.segments.entries.filter fun entry =>
    entry.1 ≠ mine ∧ gap entry.2 (engine.cursor entry.1)).map (·.1)

/-- The snapshot to read while a gap is left: the device's own, or another's. -/
def nextSnapshot (mine : Device) (listed : Listing Device) (read : List Device)
    (engine : Engine Device) : Option Device :=
  match gaps mine listed engine with
  | [] => none
  | device :: others =>
      ((device :: others).find? fun other => other ∈ listed.snapshots ∧ other ∉ read) <|>
        listed.snapshots.keys.find? fun other => other ≠ mine ∧ other ∉ read

theorem of_nextSnapshot {mine : Device} {listed : Listing Device} {read : List Device}
    {engine : Engine Device} {next : Device}
    (chosen : nextSnapshot mine listed read engine = some next) :
    next ∈ listed.snapshots ∧ next ≠ mine ∧ next ∉ read := by
  rw [nextSnapshot] at chosen
  split at chosen
  next => cases chosen
  next device others isGaps =>
      rw [Option.orElse_eq_some] at chosen
      rcases chosen with own | ⟨-, other⟩
      · have isGap := List.mem_of_find?_eq_some own
        have fits := List.find?_some own
        rw [← isGaps, gaps, List.mem_map] at isGap
        obtain ⟨entry, isEntry, rfl⟩ := isGap
        have isOther := (List.mem_filter.mp isEntry).2
        simp only [decide_eq_true_eq] at isOther fits
        exact ⟨fits.1, isOther.1, fits.2⟩
      · have isKey := List.mem_of_find?_eq_some other
        have fits := List.find?_some other
        simp only [decide_eq_true_eq] at fits
        exact ⟨isKey, fits⟩

/-- With a gap left, a snapshot that was not read is left only by reading another. -/
theorem isSome_nextSnapshot {mine : Device} {listed : Listing Device} {read : List Device}
    {engine : Engine Device} {device : Device} (left : gaps mine listed engine ≠ [])
    (isListed : device ∈ listed.snapshots) (other : device ≠ mine) (unread : device ∉ read) :
    nextSnapshot mine listed read engine ≠ none := by
  rw [nextSnapshot]
  split
  next none => exact absurd none left
  next =>
      rw [ne_eq, Option.orElse_eq_none]
      rintro ⟨-, none⟩
      exact List.find?_eq_none.mp none device isListed (decide_eq_true ⟨other, unread⟩)

/-- Reading one more leaves fewer to read. -/
theorem length_unread_lt {keys read : List Device} {next : Device} (isKey : next ∈ keys)
    (unread : next ∉ read) :
    (keys.filter (· ∉ next :: read)).length < (keys.filter (· ∉ read)).length := by
  have rest : keys.filter (· ∉ next :: read) = (keys.filter (· ∉ read)).filter (· ≠ next) := by
    rw [List.filter_filter]
    simp only [List.mem_cons, not_or, Bool.decide_and]
  rw [rest, List.length_filter_lt_length_iff_exists]
  exact ⟨next, List.mem_filter.mpr ⟨isKey, by simpa using unread⟩, by simp⟩

/-- What the loop that closes gaps comes to: the engine, the snapshots it tried to read, and
whether an exception broke it off. -/
structure Closing (Device : Type) where
  engine : Engine Device
  tried : List Device
  broken : Bool

namespace SyncRun

/-- `_readSnapshot`; none where it throws. -/
def readSnapshot (sync : SyncRun Device) (mine device : Device) (engine : Engine Device) :
    Option (Engine Device) :=
  match sync.snapshot device with
  | .broken => none
  | .unread => some engine
  | .applied covers => some (engine.cover mine covers)

/-- The loop of `_pull` that reads snapshots while a gap is left. -/
def closeGaps (sync : SyncRun Device) (mine : Device) (read : List Device)
    (engine : Engine Device) : Closing Device :=
  match _chosen : nextSnapshot mine sync.listed read engine with
  | none => ⟨engine, [], false⟩
  | some next =>
      match sync.readSnapshot mine next engine with
      | none => ⟨engine, [next], true⟩
      | some after =>
          let written := (sync.listed.snapshots.lookup next).join
          let closing := sync.closeGaps mine (next :: read)
            { after with snapshotsRead := AList.insert next written after.snapshotsRead }
          { closing with tried := next :: closing.tried }
termination_by (sync.listed.snapshots.keys.filter (· ∉ read)).length
decreasing_by
  obtain ⟨isListed, -, unread⟩ := of_nextSnapshot _chosen
  exact length_unread_lt isListed unread

/-- The snapshots that are taken for read as the pull starts. -/
def alreadyRead (sync : SyncRun Device) (engine : Engine Device) : List Device :=
  sync.listed.snapshots.keys.filter fun device =>
    engine.snapshotsRead.lookup device = sync.listed.snapshots.lookup device

/-- The gaps closed, as far as they are. -/
def closing (sync : SyncRun Device) (mine : Device) (engine : Engine Device) : Closing Device :=
  sync.closeGaps mine (sync.alreadyRead engine) engine

/-- A device's segments read on; the flag is whether an exception broke it off. -/
def readSegments (sync : SyncRun Device) (device : Device) (numbers : List Nat) (number : Nat)
    (engine : Engine Device) : Engine Device × Bool :=
  if number ∈ numbers then
    match sync.segment device number with
    | .broken => (engine, true)
    | .waits => (engine, false)
    | .passed => sync.readSegments device numbers (number + 1) (engine.setCursor device number)
  else (engine, false)
termination_by (numbers.filter (number ≤ ·)).length
decreasing_by
  next isNumber =>
    have rest : numbers.filter (number + 1 ≤ ·) =
        (numbers.filter (number ≤ ·)).filter (· ≠ number) := by
      rw [List.filter_filter]
      exact List.filter_congr fun other _ => by grind
    rw [rest, List.length_filter_lt_length_iff_exists]
    exact ⟨number, List.mem_filter.mpr ⟨isNumber, by simp⟩, by simp⟩

/-- `_pull`. -/
def pull (sync : SyncRun Device) (mine : Device) (engine : Engine Device) : Engine Device :=
  let closed := sync.closing mine engine
  if closed.broken then closed.engine
  else (sync.listed.segments.entries.foldl (fun reading entry =>
    if reading.2 ∨ entry.1 = mine then reading
    else sync.readSegments entry.1 entry.2 (reading.1.cursor entry.1 + 1) reading.1)
    (closed.engine, false)).1

/-! ### What the loop leaves -/

variable {mine device : Device} {sync : SyncRun Device} {read : List Device}
  {engine : Engine Device}

theorem closeGaps_of_none (none : nextSnapshot mine sync.listed read engine = none) :
    sync.closeGaps mine read engine = ⟨engine, [], false⟩ := by
  rw [closeGaps]
  split
  next => rfl
  next next chosen => cases none.symm.trans chosen

theorem closeGaps_of_some {next : Device} {after : Engine Device}
    (chosen : nextSnapshot mine sync.listed read engine = some next)
    (reads : sync.readSnapshot mine next engine = some after) :
    sync.closeGaps mine read engine =
      let written := (sync.listed.snapshots.lookup next).join
      let closing := sync.closeGaps mine (next :: read)
        { after with snapshotsRead := AList.insert next written after.snapshotsRead }
      { closing with tried := next :: closing.tried } := by
  rw [closeGaps]
  split
  next none => cases none.symm.trans chosen
  next other isOther =>
      obtain rfl := Option.some.inj (isOther.symm.trans chosen)
      rw [reads]

/-- What is tried is a snapshot of another device that was not read yet. -/
theorem of_mem_tried (tried : device ∈ (sync.closeGaps mine read engine).tried) :
    device ∈ sync.listed.snapshots ∧ device ≠ mine ∧ device ∉ read := by
  fun_induction closeGaps sync mine read engine with
  | case1 => cases tried
  | case2 read engine next chosen =>
      rw [List.mem_singleton.mp tried]
      exact of_nextSnapshot chosen
  | case3 read engine next chosen after _ written closing inductionHypothesis =>
      rcases List.mem_cons.mp tried with rfl | later
      · exact of_nextSnapshot chosen
      · obtain ⟨isListed, other, unread⟩ := inductionHypothesis later
        exact ⟨isListed, other, fun isRead => unread (List.mem_cons_of_mem _ isRead)⟩

omit [DecidableEq Device] in
@[simp] theorem snapshotsRead_cover [DecidableEq Device] (covers : Table Device Nat) :
    (engine.cover mine covers).snapshotsRead = engine.snapshotsRead := by
  rw [Engine.cover]
  induction covers.entries.filter fun entry =>
    entry.1 ≠ mine ∧ engine.cursor entry.1 < entry.2 using List.reverseRecOn with
  | nil => rfl
  | append_singleton earlier entry inductionHypothesis =>
      rw [List.foldl_append]
      exact inductionHypothesis

theorem snapshotsRead_readSnapshot {after : Engine Device}
    (reads : sync.readSnapshot mine device engine = some after) :
    after.snapshotsRead = engine.snapshotsRead := by
  rw [readSnapshot] at reads
  split at reads
  next => cases reads
  next => exact congrArg _ (Option.some.inj reads).symm
  next covers _ =>
      rw [← Option.some.inj reads]
      exact snapshotsRead_cover covers

/-- What is not tried stays as it was. -/
theorem snapshotsRead_of_not_tried (untried : device ∉ (sync.closeGaps mine read engine).tried) :
    (sync.closeGaps mine read engine).engine.snapshotsRead.lookup device =
      engine.snapshotsRead.lookup device := by
  fun_induction closeGaps sync mine read engine with
  | case1 => rfl
  | case2 => rfl
  | case3 read engine next chosen after reads written closing inductionHypothesis =>
      obtain ⟨other, later⟩ := not_or.mp (List.mem_cons.not.mp untried)
      rw [inductionHypothesis later, AList.lookup_insert_ne other,
        snapshotsRead_readSnapshot reads]

/-- What is tried, and throws nothing, counts as read as it is listed. -/
theorem snapshotsRead_of_tried (tried : device ∈ (sync.closeGaps mine read engine).tried)
    (returns : sync.snapshot device ≠ .broken) :
    (sync.closeGaps mine read engine).engine.snapshotsRead.lookup device =
      sync.listed.snapshots.lookup device := by
  fun_induction closeGaps sync mine read engine with
  | case1 => cases tried
  | case2 read engine next chosen throws =>
      rw [List.mem_singleton.mp tried] at returns
      rw [readSnapshot] at throws
      split at throws
      next broken => exact absurd broken returns
      next => cases throws
      next => cases throws
  | case3 read engine next chosen after reads written closing inductionHypothesis =>
      by_cases later : device ∈ closing.tried
      · exact inductionHypothesis later
      · obtain rfl := (List.mem_cons.mp tried).resolve_right later
        obtain ⟨at_, isWritten⟩ :=
          Option.isSome_iff_exists.mp (AList.lookup_isSome.mpr (of_nextSnapshot chosen).1)
        have recorded := snapshotsRead_of_not_tried later
        rw [AList.lookup_insert] at recorded
        rw [recorded, isWritten]
        exact congrArg (some ·.join) isWritten

/-- Where the loop ends with a gap left, every snapshot of another device was tried, or read
before. -/
theorem tried_of_gaps (whole : (sync.closeGaps mine read engine).broken = false)
    (left : gaps mine sync.listed (sync.closeGaps mine read engine).engine ≠ [])
    (isListed : device ∈ sync.listed.snapshots) (other : device ≠ mine) (unread : device ∉ read) :
    device ∈ (sync.closeGaps mine read engine).tried := by
  fun_induction closeGaps sync mine read engine with
  | case1 read engine none => exact absurd none (isSome_nextSnapshot left isListed other unread)
  | case2 => cases whole
  | case3 read engine next chosen after reads written closing inductionHypothesis =>
      by_cases isNext : device = next
      · exact isNext ▸ List.mem_cons_self
      · have stillUnread : device ∉ next :: read := List.not_mem_cons_of_ne_of_not_mem isNext unread
        exact List.mem_cons_of_mem _ (inductionHypothesis whole left stillUnread)

theorem snapshotsRead_readSegments {numbers : List Nat} {number : Nat} :
    (sync.readSegments device numbers number engine).1.snapshotsRead = engine.snapshotsRead := by
  fun_induction readSegments sync device numbers number engine with
  | case1 => rfl
  | case2 => rfl
  | case3 number engine _ _ inductionHypothesis => exact inductionHypothesis
  | case4 => rfl

/-- Segments change nothing of what counts as read. -/
theorem snapshotsRead_pull :
    (sync.pull mine engine).snapshotsRead = (sync.closing mine engine).engine.snapshotsRead := by
  rw [pull]
  split
  next => rfl
  next =>
      induction sync.listed.segments.entries using List.reverseRecOn with
      | nil => rfl
      | append_singleton earlier entry inductionHypothesis =>
          rw [List.foldl_append, List.foldl_cons, List.foldl_nil]
          split
          next => exact inductionHypothesis
          next => exact snapshotsRead_readSegments.trans inductionHypothesis

theorem mem_alreadyRead : device ∈ sync.alreadyRead engine ↔
    device ∈ sync.listed.snapshots ∧
      engine.snapshotsRead.lookup device = sync.listed.snapshots.lookup device := by
  rw [alreadyRead, List.mem_filter, decide_eq_true_eq]
  rfl

/-- Whether a snapshot could not be fetched or opened. -/
def Unapplied (sync : SyncRun Device) (mine : Device) (engine : Engine Device)
    (device : Device) : Prop :=
  device ∈ (sync.closing mine engine).tried ∧ sync.snapshot device = .unread

/-- Whether the gaps are closed as far as they can be, and one is left. -/
def LeavesGap (sync : SyncRun Device) (mine : Device) (engine : Engine Device) : Prop :=
  (sync.closing mine engine).broken = false ∧
    gaps mine sync.listed (sync.closing mine engine).engine ≠ []

end SyncRun

/-! ### Runs -/

/-- What an engine is asked for: a sync, or to forget what it read. -/
inductive SyncEvent (Device : Type) where
  | sync (run : SyncRun Device)
  | reset

def SyncEvent.next (mine : Device) (engine : Engine Device) : SyncEvent Device → Engine Device
  | .sync run => run.pull mine engine
  | .reset => engine.forget

/-- An engine after a run. -/
def engineAfter (mine : Device) (events : List (SyncEvent Device)) (engine : Engine Device) :
    Engine Device :=
  events.foldl (SyncEvent.next mine) engine

variable {mine device : Device}

/-- What is not listed stays as it was. -/
theorem snapshotsRead_engineAfter {events : List (SyncEvent Device)}
    (unlisted : ∀ run, .sync run ∈ events → device ∉ run.listed.snapshots)
    (engine : Engine Device) :
    (engineAfter mine events engine).snapshotsRead.lookup device =
      engine.snapshotsRead.lookup device := by
  induction events using List.reverseRecOn with
  | nil => rfl
  | append_singleton earlier event inductionHypothesis =>
      have before := inductionHypothesis fun run isEarlier =>
        unlisted run (List.mem_append_left _ isEarlier)
      rw [engineAfter, List.foldl_append, List.foldl_cons, List.foldl_nil]
      refine Eq.trans ?_ before
      cases event with
      | reset => rfl
      | sync run =>
          have notListed := unlisted run (List.mem_append_right _ List.mem_cons_self)
          rw [SyncEvent.next, SyncRun.snapshotsRead_pull]
          exact SyncRun.snapshotsRead_of_not_tried fun tried =>
            notListed (SyncRun.of_mem_tried tried).1

/-- A folder where device 1's first segment is gone and its snapshot, written then, cannot be
opened. -/
def unopened (written : Nat) : SyncRun Nat where
  listed := ⟨AList.singleton 1 [2], AList.singleton 1 (some written)⟩
  snapshot := fun _ => .unread
  segment := fun _ _ => .waits

theorem closing_unopened (written : Nat) (snapshotsRead : Table Nat (Option Nat)) :
    (unopened written).closing 0 ⟨∅, snapshotsRead⟩ =
      if snapshotsRead.lookup 1 = some (some written) then ⟨⟨∅, snapshotsRead⟩, [], false⟩
      else ⟨⟨∅, AList.insert 1 (some written) snapshotsRead⟩, [1], false⟩ := by
  have held : (AList.singleton 1 (some written) : Table Nat (Option Nat)).lookup 1 =
      some (some written) := rfl
  split
  next isRead =>
      have already : (unopened written).alreadyRead ⟨∅, snapshotsRead⟩ = [1] := by
        simp [SyncRun.alreadyRead, unopened, isRead, held]
      rw [SyncRun.closing, already]
      exact SyncRun.closeGaps_of_none rfl
  next unread =>
      have already : (unopened written).alreadyRead ⟨∅, snapshotsRead⟩ = [] := by
        simp [SyncRun.alreadyRead, unopened, unread, held]
      have none : nextSnapshot 0 (unopened written).listed [1]
        ⟨∅, AList.insert 1 (some written) snapshotsRead⟩ = none := rfl
      rw [SyncRun.closing, already, @SyncRun.closeGaps_of_some _ _ _ _ _ _ 1 _ rfl rfl]
      exact congrArg (fun closing : Closing Nat => { closing with tried := 1 :: closing.tried })
        (SyncRun.closeGaps_of_none none)

theorem engineAfter_unopened (written : Nat) :
    engineAfter 0 [.sync (unopened written)] ⟨∅, ∅⟩ = ⟨∅, AList.insert 1 (some written) ∅⟩ := by
  have closed := closing_unopened written ∅
  rw [if_neg (by rw [AList.lookup_empty]; nofun)] at closed
  rw [engineAfter, List.foldl_cons, List.foldl_nil, SyncEvent.next, SyncRun.pull, closed]
  have waits : (unopened written).readSegments 1 [2] 1 ⟨∅, AList.insert 1 (some written) ∅⟩ =
      (⟨∅, AList.insert 1 (some written) ∅⟩, false) := by
    rw [SyncRun.readSegments, if_neg (by decide)]
  exact congrArg Prod.fst waits

theorem unapplied_unopened (written : Nat) : (unopened written).Unapplied 0 ⟨∅, ∅⟩ 1 := by
  refine ⟨?_, rfl⟩
  rw [closing_unopened, if_neg (by rw [AList.lookup_empty]; nofun)]
  exact List.mem_singleton_self 1

theorem leavesGap_unopened (written : Nat) (snapshotsRead : Table Nat (Option Nat)) :
    (unopened written).LeavesGap 0 ⟨∅, snapshotsRead⟩ := by
  rw [SyncRun.LeavesGap, closing_unopened]
  split <;> exact ⟨rfl, List.cons_ne_nil _ _⟩

end ServerBox.Sync
