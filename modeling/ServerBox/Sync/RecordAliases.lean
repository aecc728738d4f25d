import ServerBox.Std.System
import ServerBox.Sync.RecordsSteps

/-!
# The value of a record held under more ids

A device that gets another device's record which is the same as one here in every field
holds it under the id here, as an alias. Which op wins is decided by the stamp of the
op's own id, while the write lands on the record here, with a stamp of its own and edits
of its own. `last_writer_wins` is when the record still has the value of the last change
made to it under any of its ids.
-/

namespace ServerBox.Sync

open ServerBox.Std ServerBox.Store

variable {Body Value : Type}

/-! ### Changes made and received -/

/-- A change as it was made here or read from an op. -/
abbrev Made (Value : Type) := SyncOp RecordId (Change Value)

/-- An op's change, its value read. -/
def decoded (collection : Collection Body Value) (op : RecordOp Body) : Made Value where
  id := op.id
  h := op.h
  d := match op.d with
    | .deleted => .deleted
    | .unreadable => .unreadable
    | .record fields =>
        match collection.fromJson fields.body with
        | none => .unreadable
        | some value => .record { scope := fields.scope, name := fields.name, body := value }

/-- A name that gave way to other records' any number of times. -/
inductive YieldedFrom (name : String) : String → Prop where
  | own : YieldedFrom name name
  | suffixed {now} (before : YieldedFrom name now) (id : RecordId) (len : Nat) :
      YieldedFrom name (Rows.suffixName now id len)

/-- A row, or none, is what a change made it, but for a name that gave way. -/
def ShowsChange : Change Value → Option (Fields Value) → Prop
  | .deleted, row => row = none
  | .unreadable, _ => False
  | .record fields, row => ∃ now, row = some now ∧ now.scope = fields.scope ∧
      now.body = fields.body ∧ YieldedFrom fields.name now.name

/-! ### A device and what happens on it -/

/-- A device's records, and every change made on it or received. -/
structure Device (Value : Type) where
  records : Records Value := {}
  history : List (Made Value) := []

/-- Ops received in a batch, a record edited or deleted here, and a read that fills the cache. -/
inductive Happening (Body Value : Type) where
  | received (ops : List (RecordOp Body))
  | put (id : RecordId) (h : Stamp) (item : Fields Value)
  | deleted (id : RecordId) (h : Stamp)
  | fetched

namespace Records

/-- `EntityStore.put`; a name or a foreign key refused throws, with nothing written. -/
def put (collection : Collection Body Value) (records : Records Value) (id : RecordId) (h : Stamp)
    (item : Fields Value) : Option (Records Value) :=
  (writeRows collection records.rows id none item).map fun rows =>
    ({ records with rows }.record id h).invalidate

/-- `EntityStore.deleteById`. -/
def deleteById (records : Records Value) (id : RecordId) (h : Stamp) : Records Value :=
  ({ records with rows := records.rows.delete id }.record id h).invalidate

/-- A stamp the clock makes: after every one held. -/
def IsTick (records : Records Value) (h : Stamp) : Prop :=
  ∀ id stamp, records.stamps.lookup id = some stamp → stamp < h

end Records

variable [DecidableEq Value]

/-- A batch received. -/
def Device.receive (winners : SyncWinners RecordId (Change Body)) (collection : Collection Body Value)
    (device : Device Value) (ops : List (RecordOp Body)) : Device Value where
  records := device.records.apply winners collection ops
  history := device.history ++ ops.map (decoded collection)

omit [DecidableEq Value] in
/-- A record edited here; nothing where that is refused. -/
def Device.put (collection : Collection Body Value) (device : Device Value) (id : RecordId)
    (h : Stamp) (item : Fields Value) : Device Value :=
  match device.records.put collection id h item with
  | none => device
  | some records => { records, history := device.history ++ [⟨id, h, .record item⟩] }

omit [DecidableEq Value] in
/-- A record deleted here. -/
def Device.deleteById (device : Device Value) (id : RecordId) (h : Stamp) : Device Value where
  records := device.records.deleteById id h
  history := device.history ++ [⟨id, h, .deleted⟩]

/-- A device's step. What is edited here is a record here or a new one, under no other's id. -/
inductive Device.Step (winners : SyncWinners RecordId (Change Body))
    (collection : Collection Body Value) : Device Value → Happening Body Value → Device Value → Prop where
  | received {device} (ops) :
      Device.Step winners collection device (.received ops) (device.receive winners collection ops)
  | put {device id h item} (own : device.records.aliasOf id = none) (tick : device.records.IsTick h) :
      Device.Step winners collection device (.put id h item) (device.put collection id h item)
  | deleted {device id h} (own : device.records.aliasOf id = none) (tick : device.records.IsTick h) :
      Device.Step winners collection device (.deleted id h) (device.deleteById id h)
  | fetched {device} : Device.Step winners collection device .fetched
      { device with records := device.records.fetch }

/-- A device, empty at first. -/
def Device.system (winners : SyncWinners RecordId (Change Body)) (collection : Collection Body Value) :
    System (Device Value) (Happening Body Value) where
  Initial device := device = {}
  Step := Device.Step winners collection

omit [DecidableEq Value] in
/-- The record an id is held under has the value of the last of the changes made to it here
or received for any id it is held under. -/
def Device.LastWriterWins (device : Device Value) : Prop :=
  ∀ id, (∃ change ∈ device.history,
      device.records.heldId change.id = device.records.heldId id) →
    ∃ last ∈ device.history, device.records.heldId last.id = device.records.heldId id ∧
      (∀ change ∈ device.history, device.records.heldId change.id = device.records.heldId id →
        change.h ≤ last.h) ∧
      ShowsChange last.d (device.records.row (device.records.heldId id))

/-! ### Where the last writer wins -/

namespace Records

/-- A record here is the op's in every field, as far as the cache knows. -/
def IsTwin (collection : Collection Body Value) (records : Records Value) (id : RecordId)
    (fields : Fields Body) (holder : RecordId) : Prop :=
  records.rows.holderOf id fields.scope fields.name = some holder ∧ records.row id = none ∧
    sameBut collection records.fetch holder fields = true

omit [DecidableEq Value] in
/-- The suffix is no other row's, for whichever of an op's record and the holder of its name
is to take it. -/
def SuffixFree (records : Records Value) (id : RecordId) (h : Stamp) (fields : Fields Body) : Prop :=
  ∀ holder, records.rows.holderOf id fields.scope fields.name = some holder →
    if Stamp.After (records.stamps.lookup holder) h then
      records.rows.holderOf holder fields.scope
        (records.rows.suffixed fields.name holder fields.scope) = none
    else
      records.rows.holderOf id fields.scope (records.rows.suffixed fields.name id fields.scope) = none

/-- An op that, written to these records, leaves each the value of its last change: it is
after every change of the record it is written to, under whichever id; it can be taken;
and where it makes an alias, of an id that is none and has none, the record here is the
op's indeed (not only as it was cached) or has a later change. -/
structure InOrder (collection : Collection Body Value) (records : Records Value)
    (op : RecordOp Body) : Prop where
  after : ∀ id stamp, records.heldId id = records.heldId op.id →
    records.stamps.lookup id = some stamp → stamp < op.h
  readable : op.d ≠ .unreadable
  taken : ∀ fields, op.d = .record fields →
    (∀ holder, ¬ IsTwin collection records (records.heldId op.id) fields holder) →
    (∃ value, collection.fromJson fields.body = some value ∧
      collection.refused fields.scope value = false) ∧
    SuffixFree records (records.heldId op.id) op.h fields
  twin : ∀ fields holder, op.d = .record fields →
    IsTwin collection records (records.heldId op.id) fields holder →
    records.aliasOf op.id = none ∧ (∀ id, records.aliasOf id ≠ some op.id) ∧
    ((∀ row, records.row holder = some row → collection.fromJson fields.body = some row.body) ∨
      ∃ id stamp, records.heldId id = holder ∧ records.stamps.lookup id = some stamp ∧ op.h ≤ stamp)

/-- Each op, with the records it is written to. -/
def Each (collection : Collection Body Value) (Meets : Records Value → RecordOp Body → Prop) :
    Records Value → List (RecordOp Body) → Prop
  | _, [] => True
  | records, op :: rest => Meets records op ∧ Each collection Meets (entity collection records op) rest

/-- Each op of a batch that is written, with the records it is written to. -/
def EachWon (winners : SyncWinners RecordId (Change Body)) (collection : Collection Body Value)
    (Meets : Records Value → RecordOp Body → Prop) (records : Records Value)
    (ops : List (RecordOp Body)) : Prop :=
  Each collection Meets (if collection.fetchedFirst then records.fetch else records)
    (winners.winners ops records.stamps.lookup)

end Records

/-- What is received in a step is in order. -/
def Device.ReceivesInOrder (winners : SyncWinners RecordId (Change Body))
    (collection : Collection Body Value) (device : Device Value) : Happening Body Value → Prop
  | .received ops => Records.EachWon winners collection (Records.InOrder collection) device.records ops
  | _ => True

/-! ### What a device in order has -/

namespace Alias

variable {history : Made Value → Prop} {row now : RecordId → Option (Fields Value)}
  {stamp stampNow : RecordId → Option Stamp} {aliasOf : RecordId → Option RecordId}

/-- The id a record is held under. -/
def held (aliasOf : RecordId → Option RecordId) (id : RecordId) : RecordId := (aliasOf id).getD id

omit [DecidableEq Value] in
/-- The last of the changes to a record under all of its ids: the record has its value, and
it is the greatest stamp held for these ids. -/
structure IsTop (history : Made Value → Prop) (row : RecordId → Option (Fields Value))
    (stamp : RecordId → Option Stamp) (aliasOf : RecordId → Option RecordId) (holder : RecordId)
    (top : Made Value) : Prop where
  made : history top
  mine : held aliasOf top.id = holder
  greatest : ∀ change, history change → held aliasOf change.id = holder → change.h ≤ top.h
  shows : ShowsChange top.d (row holder)
  stamps : ∀ id h, held aliasOf id = holder → stamp id = some h → h ≤ top.h
  stamped : ∃ id, held aliasOf id = holder ∧ stamp id = some top.h

omit [DecidableEq Value] in
/-- An alias is of a record that is none, and has no row; a record held under its own id has
the value of its last change, or there was none. -/
structure Settled (history : Made Value → Prop) (row : RecordId → Option (Fields Value))
    (stamp : RecordId → Option Stamp) (aliasOf : RecordId → Option RecordId) : Prop where
  direct : ∀ id holder, aliasOf id = some holder → aliasOf holder = none ∧ row id = none
  latest : ∀ holder, aliasOf holder = none →
    (row holder = none ∧ (∀ change, history change → held aliasOf change.id ≠ holder) ∧
      ∀ id, held aliasOf id = holder → stamp id = none) ∨
    ∃ top, IsTop history row stamp aliasOf holder top

omit [DecidableEq Value]

theorem held_of_none {id : RecordId} (own : aliasOf id = none) : held aliasOf id = id := by
  rw [held, own, Option.getD_none]

/-- What an id is held under is held under its own id. -/
theorem Settled.held_own (settled : Settled history row stamp aliasOf) (id : RecordId) :
    aliasOf (held aliasOf id) = none := by
  unfold held
  cases found : aliasOf id with
  | none => exact found
  | some holder => exact (settled.direct id holder found).1

/-- A row is held under its own id. -/
theorem Settled.own_of_row (settled : Settled history row stamp aliasOf) {id : RecordId}
    {fields : Fields Value} (found : row id = some fields) : aliasOf id = none := by
  cases aliased : aliasOf id with
  | none => rfl
  | some holder =>
      rw [(settled.direct id holder aliased).2] at found
      exact absurd found (by simp)

theorem settled_empty : Settled (fun _ : Made Value => False) (fun _ => none) (fun _ => none)
    fun _ => none where
  direct id holder found := absurd found (by simp)
  latest holder _ := .inl ⟨rfl, fun _ made => made.elim, fun _ _ => rfl⟩

/-- Rows that changed by no more than a name giving way. -/
def OnlyYields (row now : RecordId → Option (Fields Value)) (id : RecordId) : Prop :=
  now id = row id ∨ ∃ fields len, row id = some fields ∧
    now id = some { fields with name := Rows.suffixName fields.name id len }

theorem OnlyYields.shows {id : RecordId} {change : Change Value} (yields : OnlyYields row now id)
    (shows : ShowsChange change (row id)) : ShowsChange change (now id) := by
  rcases yields with same | ⟨fields, len, found, renamed⟩
  · rw [same]
    exact shows
  · rw [found] at shows
    rw [renamed]
    cases change with
    | deleted => exact absurd shows (by simp [ShowsChange])
    | unreadable => exact shows.elim
    | record made =>
        obtain ⟨before, isBefore, sameScope, sameBody, name⟩ := shows
        obtain rfl := Option.some.inj isBefore
        exact ⟨_, rfl, sameScope, sameBody, name.suffixed id len⟩

theorem OnlyYields.none {id : RecordId} (yields : OnlyYields row now id) (absent : row id = none) :
    now id = none := by
  rcases yields with same | ⟨fields, len, found, -⟩
  · rw [same, absent]
  · exact absurd (absent.symm.trans found) (by simp)

/-- A change made or received, later than all of its record's, and written to it. -/
theorem Settled.change (settled : Settled history row stamp aliasOf) {change : Made Value}
    (after : ∀ id h, held aliasOf id = held aliasOf change.id → stamp id = some h → h < change.h)
    (shows : ShowsChange change.d (now (held aliasOf change.id)))
    (others : ∀ id, id ≠ held aliasOf change.id → OnlyYields row now id)
    (outside : ∀ id, held aliasOf id ≠ held aliasOf change.id → stampNow id = stamp id)
    (inside : ∀ id h, held aliasOf id = held aliasOf change.id → stampNow id = some h → h ≤ change.h)
    (stamped : stampNow change.id = some change.h) :
    Settled (fun made => history made ∨ made = change) now stampNow aliasOf where
  direct id holder aliased := by
    obtain ⟨own, absent⟩ := settled.direct id holder aliased
    refine ⟨own, (others id ?_).none absent⟩
    rintro rfl
    rw [settled.held_own] at aliased
    exact absurd aliased (by simp)
  latest holder own := by
    by_cases isHolder : holder = held aliasOf change.id
    · subst isHolder
      refine .inr ⟨change, .inr rfl, rfl, ?_, shows, inside, change.id, rfl, stamped⟩
      intro made isMade mine
      rcases isMade with before | rfl
      · rcases settled.latest _ own with ⟨-, nothing, -⟩ | ⟨top, isTop⟩
        · exact absurd mine (nothing made before)
        · obtain ⟨id, topMine, topStamp⟩ := isTop.stamped
          exact (isTop.greatest made before mine).trans (after id top.h topMine topStamp).le
      · exact le_refl _
    · rcases settled.latest holder own with ⟨absent, nothing, unstamped⟩ | ⟨top, isTop⟩
      · refine .inl ⟨(others holder isHolder).none absent, ?_, ?_⟩
        · intro made isMade mine
          rcases isMade with before | rfl
          · exact nothing made before mine
          · exact isHolder mine.symm
        · intro id mine
          rw [outside id (mine ▸ isHolder), unstamped id mine]
      · refine .inr ⟨top, .inl isTop.made, isTop.mine, ?_, (others holder isHolder).shows isTop.shows,
          ?_, ?_⟩
        · intro made isMade mine
          rcases isMade with before | rfl
          · exact isTop.greatest made before mine
          · exact absurd mine.symm isHolder
        · intro id h mine found
          rw [outside id (mine ▸ isHolder)] at found
          exact isTop.stamps id h mine found
        · obtain ⟨id, mine, found⟩ := isTop.stamped
          exact ⟨id, mine, (outside id (mine ▸ isHolder)).trans found⟩

/-- Changes no later than the stamp held for their id, or than a change known of it. -/
theorem Settled.passed (settled : Settled history row stamp aliasOf) {more : Made Value → Prop}
    (earlier : ∀ change, more change → (∃ h, stamp change.id = some h ∧ change.h ≤ h) ∨
      ∃ known, history known ∧ known.id = change.id ∧ change.h ≤ known.h) :
    Settled (fun made => history made ∨ more made) row stamp aliasOf where
  direct := settled.direct
  latest holder own := by
    rcases settled.latest holder own with ⟨absent, nothing, unstamped⟩ | ⟨top, isTop⟩
    · refine .inl ⟨absent, ?_, unstamped⟩
      intro made isMade mine
      rcases isMade with before | passed
      · exact nothing made before mine
      · rcases earlier made passed with ⟨h, found, -⟩ | ⟨known, before, same, -⟩
        · rw [unstamped made.id mine] at found
          exact absurd found (by simp)
        · exact nothing known before (same ▸ mine)
    · refine .inr ⟨top, .inl isTop.made, isTop.mine, ?_, isTop.shows, isTop.stamps, isTop.stamped⟩
      intro made isMade mine
      rcases isMade with before | passed
      · exact isTop.greatest made before mine
      · rcases earlier made passed with ⟨h, found, notAfter⟩ | ⟨known, before, same, notAfter⟩
        · exact notAfter.trans (isTop.stamps made.id h mine found)
        · exact notAfter.trans (isTop.greatest known before (same ▸ mine))

/-- An alias made of an id that is none and has none, for a record here that has the value
of the change it came with, or of a later one. -/
theorem Settled.alias (settled : Settled history row stamp aliasOf) {change : Made Value}
    {holder : RecordId} {fields : Fields Value} (own : aliasOf change.id = none)
    (unaliased : ∀ id, aliasOf id ≠ some change.id) (absent : row change.id = none)
    (present : row holder = some fields) (after : ∀ h, stamp change.id = some h → h < change.h)
    (value : ShowsChange change.d (row holder) ∨
      ∃ id h, held aliasOf id = holder ∧ stamp id = some h ∧ change.h ≤ h) :
    Settled (fun made => history made ∨ made = change) row
      (Function.update stamp change.id (some change.h))
      (Function.update aliasOf change.id (some holder)) := by
  have apart : holder ≠ change.id := by
    rintro rfl
    exact absurd (absent.symm.trans present) (by simp)
  have holderOwn : aliasOf holder = none := settled.own_of_row present
  -- The ids held under another record than these two are as before.
  have held_new : held (Function.update aliasOf change.id (some holder)) change.id = holder := by
    rw [held, Function.update_self, Option.getD_some]
  have held_old : ∀ {id}, id ≠ change.id →
      held (Function.update aliasOf change.id (some holder)) id = held aliasOf id := by
    intro id other
    rw [held, Function.update_of_ne other, held]
  have held_change : ∀ id, held aliasOf id = change.id → id = change.id := by
    intro id mine
    unfold held at mine
    cases found : aliasOf id with
    | none => rwa [found] at mine
    | some other =>
        rw [found, Option.getD_some] at mine
        exact absurd (mine ▸ found) (unaliased id)
  have earlier : ∀ made, history made → made.id = change.id → made.h < change.h := by
    intro made before same
    have mine : held aliasOf made.id = change.id := by rw [same, held_of_none own]
    rcases settled.latest change.id own with ⟨-, nothing, -⟩ | ⟨top, isTop⟩
    · exact absurd mine (nothing made before)
    · obtain ⟨id, topMine, topStamp⟩ := isTop.stamped
      rw [held_change id topMine] at topStamp
      exact lt_of_le_of_lt (isTop.greatest made before mine) (after top.h topStamp)
  constructor
  · intro id other aliased
    by_cases same : id = change.id
    · subst same
      rw [Function.update_self] at aliased
      obtain rfl := Option.some.inj aliased
      rw [Function.update_of_ne apart]
      exact ⟨holderOwn, absent⟩
    · rw [Function.update_of_ne same] at aliased
      obtain ⟨otherOwn, otherAbsent⟩ := settled.direct id other aliased
      have otherApart : other ≠ change.id := by
        rintro rfl
        exact unaliased id aliased
      rw [Function.update_of_ne otherApart]
      exact ⟨otherOwn, otherAbsent⟩
  · intro other otherOwn
    have notChange : other ≠ change.id := by
      rintro rfl
      rw [Function.update_self] at otherOwn
      exact absurd otherOwn (by simp)
    rw [Function.update_of_ne notChange] at otherOwn
    by_cases isHolder : other = holder
    · subst isHolder
      rcases settled.latest other otherOwn with ⟨missing, -⟩ | ⟨top, isTop⟩
      · exact absurd (missing.symm.trans present) (by simp)
      have topOther : top.id ≠ change.id := by
        intro same
        have mine := isTop.mine
        rw [same, held_of_none own] at mine
        exact notChange mine.symm
      rcases le_or_gt change.h top.h with notAfter | later
      · refine .inr ⟨top, .inl isTop.made, (held_old topOther).trans isTop.mine, ?_, isTop.shows, ?_, ?_⟩
        · intro made isMade mine
          rcases isMade with before | rfl
          · by_cases same : made.id = change.id
            · exact (earlier made before same).le.trans notAfter
            · exact isTop.greatest made before ((held_old same).symm.trans mine)
          · exact notAfter
        · intro id h mine found
          by_cases same : id = change.id
          · subst same
            rw [Function.update_self] at found
            obtain rfl := Option.some.inj found
            exact notAfter
          · rw [Function.update_of_ne same] at found
            exact isTop.stamps id h ((held_old same).symm.trans mine) found
        · obtain ⟨id, mine, found⟩ := isTop.stamped
          have idOther : id ≠ change.id := by
            rintro rfl
            rw [held_of_none own] at mine
            exact notChange mine.symm
          exact ⟨id, (held_old idOther).trans mine, (Function.update_of_ne idOther _ _).trans found⟩
      · have shows : ShowsChange change.d (row other) := by
          rcases value with exact_ | ⟨id, h, mine, found, notAfter⟩
          · exact exact_
          · exact absurd (notAfter.trans (isTop.stamps id h mine found)) (not_le.mpr later)
        refine .inr ⟨change, .inr rfl, held_new, ?_, shows, ?_, change.id, held_new,
          Function.update_self _ _ _⟩
        · intro made isMade mine
          rcases isMade with before | rfl
          · by_cases same : made.id = change.id
            · exact (earlier made before same).le
            · exact (isTop.greatest made before ((held_old same).symm.trans mine)).trans later.le
          · exact le_refl _
        · intro id h mine found
          by_cases same : id = change.id
          · subst same
            rw [Function.update_self] at found
            obtain rfl := Option.some.inj found
            exact le_refl _
          · rw [Function.update_of_ne same] at found
            exact (isTop.stamps id h ((held_old same).symm.trans mine) found).trans later.le
    · -- A third record: neither its changes nor its stamps are the alias's.
      have notMine : ∀ {id}, held (Function.update aliasOf change.id (some holder)) id = other →
          id ≠ change.id := by
        rintro id mine rfl
        exact isHolder (mine.symm.trans held_new)
      rcases settled.latest other otherOwn with ⟨missing, nothing, unstamped⟩ | ⟨top, isTop⟩
      · refine .inl ⟨missing, ?_, ?_⟩
        · intro made isMade mine
          rcases isMade with before | rfl
          · exact nothing made before ((held_old (notMine mine)).symm.trans mine)
          · exact notMine mine rfl
        · intro id mine
          rw [Function.update_of_ne (notMine mine)]
          exact unstamped id ((held_old (notMine mine)).symm.trans mine)
      · have topOther : top.id ≠ change.id := by
          intro same
          have mine := isTop.mine
          rw [same, held_of_none own] at mine
          exact notChange mine.symm
        refine .inr ⟨top, .inl isTop.made, (held_old topOther).trans isTop.mine, ?_, isTop.shows, ?_, ?_⟩
        · intro made isMade mine
          rcases isMade with before | rfl
          · exact isTop.greatest made before ((held_old (notMine mine)).symm.trans mine)
          · exact absurd rfl (notMine mine)
        · intro id h mine found
          rw [Function.update_of_ne (notMine mine)] at found
          exact isTop.stamps id h ((held_old (notMine mine)).symm.trans mine) found
        · obtain ⟨id, mine, found⟩ := isTop.stamped
          have idOther : id ≠ change.id := by
            rintro rfl
            rw [held_of_none own] at mine
            exact notChange mine.symm
          exact ⟨id, (held_old idOther).trans mine, (Function.update_of_ne idOther _ _).trans found⟩

end Alias

namespace Records

variable {collection : Collection Body Value} {records : Records Value} {op : RecordOp Body}
  {history : Made Value → Prop}

omit [DecidableEq Value] in
/-- What a device's records are after the changes of a history. -/
def Settled (history : Made Value → Prop) (records : Records Value) : Prop :=
  Alias.Settled history records.row records.stamps.lookup records.aliasOf

omit [DecidableEq Value] in
/-- The stamps after a write that is in order, whatever it did to the rows. -/
theorem recordBoth_stamps (settled : records.Settled history)
    (after : ∀ id stamp, records.heldId id = records.heldId op.id →
      records.stamps.lookup id = some stamp → stamp < op.h)
    {base : Records Value} (same : base.stamps = records.stamps) :
    (∀ id, records.heldId id ≠ records.heldId op.id →
      (base.recordBoth (records.heldId op.id) op.id op.h).stamps.lookup id = records.stamps.lookup id) ∧
    (∀ id stamp, records.heldId id = records.heldId op.id →
      (base.recordBoth (records.heldId op.id) op.id op.h).stamps.lookup id = some stamp →
        stamp ≤ op.h) ∧
    (base.recordBoth (records.heldId op.id) op.id op.h).stamps.lookup op.id = some op.h := by
  have heldSelf : records.heldId (records.heldId op.id) = records.heldId op.id :=
    Alias.held_of_none (settled.held_own op.id)
  have isAfter : ∀ id, records.heldId id = records.heldId op.id →
      Stamp.After (base.stamps.lookup id) op.h := by
    intro id mine
    rw [same]
    cases found : records.stamps.lookup id with
    | none => trivial
    | some stamp => exact after id stamp mine found
  have looked := lookup_recordBoth (isAfter (records.heldId op.id) heldSelf) (isAfter op.id rfl)
  refine ⟨?_, ?_, ?_⟩
  · intro id other
    have neither : ¬ (id = records.heldId op.id ∨ id = op.id) := by
      rintro (isHeld | isOp)
      · exact other (by rw [isHeld, heldSelf])
      · exact other (by rw [isOp])
    rw [looked, if_neg neither, same]
  · intro id stamp mine found
    rw [looked] at found
    split at found
    · exact (Option.some.inj found).symm.le
    · rw [same] at found
      exact (after id stamp mine found).le
  · rw [looked, if_pos (.inr rfl)]

/-- An op that is in order is written, or its id made an alias. -/
theorem InOrder.not_refused (inOrder : InOrder collection records op) {fields kept : Fields Body}
    {fetched : Records Value} {rename : Option (RecordId × String)} (isRecord : op.d = .record fields)
    (yielded : YieldName collection records (records.heldId op.id) op.h fields fetched
      (.write rename kept)) :
    ∃ value, collection.fromJson fields.body = some value ∧
      writeRows collection records.rows (records.heldId op.id) rename
        { scope := kept.scope, name := kept.name, body := value } ≠ none := by
  have notTwin : ∀ holder, ¬ IsTwin collection records (records.heldId op.id) fields holder := by
    rintro holder ⟨held, absent, same⟩
    cases yielded with
    | free unheld => exact absurd (unheld.symm.trans held) (by simp)
    | wins isHeld may after notTwin =>
        obtain rfl := Option.some.inj (isHeld.symm.trans held)
        exact absurd ((notTwin absent).symm.trans same) (by simp)
    | loses isHeld may after notTwin =>
        obtain rfl := Option.some.inj (isHeld.symm.trans held)
        exact absurd ((notTwin absent).symm.trans same) (by simp)
  obtain ⟨⟨value, decodes, accepted⟩, free⟩ := inOrder.taken fields isRecord notTwin
  refine ⟨value, decodes, Option.ne_none_iff_exists'.mpr ?_⟩
  cases yielded with
  | free unheld => exact writeRows_none_of_free accepted unheld
  | @wins holder _ held may after =>
      have suffixFree := free holder held
      rw [if_pos after] at suffixFree
      obtain ⟨len, suffix⟩ := Rows.suffixed_eq records.rows fields.name holder fields.scope
      rw [suffix] at suffixFree ⊢
      exact @writeRows_some_of_free _ _ collection records.rows (records.heldId op.id) holder
        { scope := fields.scope, name := fields.name, body := value } len accepted held suffixFree
  | @loses holder _ held may notAfter =>
      have suffixFree := free holder held
      rw [if_neg notAfter] at suffixFree
      exact writeRows_none_of_free accepted suffixFree

omit [DecidableEq Value] in
theorem decoded_record {fields : Fields Body} {value : Value} (isRecord : op.d = .record fields)
    (decodes : collection.fromJson fields.body = some value) :
    (decoded collection op).d =
      .record { scope := fields.scope, name := fields.name, body := value } := by
  simp only [decoded, isRecord, decodes]

/-- What a write in order does to each row: the op's has its value, the others at most give
way to its name. -/
theorem rows_of_written {fields kept : Fields Body} {fetched : Records Value}
    {rename : Option (RecordId × String)} {value : Value} {rows : Rows Value} {id : RecordId}
    {h : Stamp}
    (yielded : YieldName collection records id h fields fetched (.write rename kept))
    (done : writeRows collection records.rows id rename
      { scope := kept.scope, name := kept.name, body := value } = some rows) :
    ShowsChange (.record { scope := fields.scope, name := fields.name, body := value })
      (rows.table.lookup id) ∧
    ∀ other, other ≠ id → Alias.OnlyYields records.row rows.table.lookup other := by
  constructor
  · rw [lookup_writeRows done, if_pos rfl]
    refine ⟨_, rfl, yielded.write_kept.2.1, rfl, ?_⟩
    rcases yielded.write_name with own | ⟨len, suffix⟩
    · exact own ▸ .own
    · exact suffix ▸ YieldedFrom.own.suffixed id len
  · intro other apart
    have looked := lookup_writeRows done other
    rw [if_neg apart] at looked
    cases rename with
    | none =>
        refine .inl (looked.trans ?_)
        rw [Records.row]
        cases records.rows.table.lookup other <;> rfl
    | some pair =>
        obtain ⟨holder, name⟩ := pair
        by_cases isHolder : other = holder
        · subst isHolder
          obtain ⟨-, row, len, found, sameName, suffix⟩ := yielded.write_rename
          refine .inr ⟨row, len, found, looked.trans ?_⟩
          rw [show records.rows.table.lookup other = some row from found, Option.map_some,
            Rows.renamedFields, if_pos rfl, suffix, sameName]
        · refine .inl (looked.trans ?_)
          rw [Records.row]
          cases records.rows.table.lookup other with
          | none => rfl
          | some row => rw [Option.map_some, Rows.renamedFields, if_neg isHolder]

/-- An op in order keeps the records settled. -/
theorem Settled.entity (settled : records.Settled history) (inOrder : InOrder collection records op) :
    (Records.entity collection records op).Settled
      fun made => history made ∨ made = decoded collection op := by
  have step := entity_cases collection records op
  generalize Records.entity collection records op = next at step ⊢
  cases step with
  | unreadable isUnreadable => exact absurd isUnreadable inOrder.readable
  | deleted isDelete =>
      obtain ⟨outside, inside, stamped⟩ := recordBoth_stamps settled inOrder.after
        (show ({ records with rows := records.rows.delete (records.heldId op.id) } :
          Records Value).stamps = records.stamps from rfl)
      have isDeleted : (decoded collection op).d = .deleted := by
        simp only [decoded, isDelete]
      unfold Records.Settled
      rw [row_recordBoth, aliasOf_recordBoth]
      refine Alias.Settled.change settled inOrder.after ?_ ?_ outside inside stamped
      · rw [isDeleted]
        exact AList.lookup_erase _ _
      · intro id apart
        exact .inl (AList.lookup_erase_ne apart)
  | @aliased fields holder isRecord held absent same =>
      obtain ⟨own, unaliased, value⟩ := inOrder.twin fields holder isRecord ⟨held, absent, same⟩
      have heldHere : records.heldId op.id = op.id := Alias.held_of_none own
      rw [heldHere] at held absent ⊢
      obtain ⟨-, row, found, sameScope, sameName⟩ := Rows.holderOf_eq_some held
      have after : ∀ stamp, records.stamps.lookup op.id = some stamp → stamp < op.h :=
        fun stamp => inOrder.after op.id stamp rfl
      have next := Alias.Settled.alias settled
        (show records.aliasOf (decoded collection op).id = none from own) unaliased absent found after ?_
      · have stamps : ((records.fetch.aliasTo op.id holder).record op.id op.h).stamps.lookup =
            Function.update records.stamps.lookup op.id (some op.h) := by
          funext id
          by_cases isOp : id = op.id
          · subst isOp
            rw [Function.update_self]
            refine Stamps.lookup_record_after ?_
            cases current : records.stamps.lookup op.id with
            | none => exact (congrArg (Stamp.After · op.h) current).mpr trivial
            | some stamp => exact (congrArg (Stamp.After · op.h) current).mpr (after stamp current)
          · rw [Function.update_of_ne isOp]
            exact Stamps.lookup_record_other _ _ isOp
        have aliases : ((records.fetch.aliasTo op.id holder).record op.id op.h).aliasOf =
            Function.update records.aliasOf op.id (some holder) := by
          funext id
          refine (Table.lookup_insert_ite records.aliases op.id id holder).trans ?_
          by_cases isOp : id = op.id
          · rw [if_pos isOp, isOp, Function.update_self]
          · rw [if_neg isOp, Function.update_of_ne isOp]
            rfl
        unfold Records.Settled
        rw [stamps, aliases]
        exact next
      · refine value.imp (fun same => ?_) id
        rw [decoded_record isRecord (same row found), show records.row holder = some row from found]
        exact ⟨row, rfl, sameScope, rfl, sameName ▸ .own⟩
  | skipped isRecord yielded refused =>
      obtain ⟨value, decodes, done⟩ := inOrder.not_refused isRecord yielded
      exact absurd (refused value decodes) done
  | @written fields kept fetched rename value rows isRecord yielded decodes done =>
      obtain ⟨may, -, -⟩ := yielded.write_kept
      obtain ⟨outside, inside, stamped⟩ := recordBoth_stamps settled inOrder.after
        (show ({ fetched with rows } : Records Value).stamps = records.stamps from may.stamps_eq)
      obtain ⟨shows, others⟩ := rows_of_written yielded done
      have aliases : ({ fetched with rows } : Records Value).aliasOf = records.aliasOf := by
        funext id
        exact congrArg (AList.lookup id) may.aliases_eq
      unfold Records.Settled
      rw [row_recordBoth, aliasOf_recordBoth, aliases]
      refine Alias.Settled.change settled inOrder.after ?_ others outside inside stamped
      rw [decoded_record isRecord decodes]
      exact shows

/-- An op in order changes or deletes a row only if it is stamped after it. -/
theorem Settled.entity_spares (settled : records.Settled history)
    (inOrder : InOrder collection records op) (id : RecordId)
    (changed : (Records.entity collection records op).row id ≠ records.row id) :
    Stamp.After (records.stamps.lookup id) op.h := by
  have heldSelf : records.heldId (records.heldId op.id) = records.heldId op.id :=
    Alias.held_of_none (settled.held_own op.id)
  have ofHeld : id = records.heldId op.id → Stamp.After (records.stamps.lookup id) op.h := by
    rintro rfl
    cases found : records.stamps.lookup (records.heldId op.id) with
    | none => trivial
    | some stamp => exact inOrder.after _ stamp heldSelf found
  have step := entity_cases collection records op
  generalize Records.entity collection records op = next at step changed
  by_contra notAfter
  refine changed ?_
  have apart : id ≠ records.heldId op.id := fun same => notAfter (ofHeld same)
  cases step with
  | deleted =>
      rw [row_recordBoth]
      exact AList.lookup_erase_ne apart
  | unreadable => rfl
  | aliased => rfl
  | skipped _ yielded refused => rw [Records.row, yielded.write_kept.1.rows_eq, ← Records.row]
  | @written fields kept fetched rename value rows isRecord yielded decodes done =>
      rw [row_recordBoth]
      have looked := lookup_writeRows done id
      rw [if_neg apart] at looked
      refine looked.trans ?_
      change (records.row id).map (Rows.renamedFields rename id) = records.row id
      cases found : records.row id with
      | none => rfl
      | some row =>
          cases rename with
          | none => rfl
          | some pair =>
              obtain ⟨holder, name⟩ := pair
              by_cases isHolder : id = holder
              · subst isHolder
                exact absurd yielded.write_rename.1 notAfter
              · rw [Option.map_some, Rows.renamedFields, if_neg isHolder]

/-! ### A batch -/

/-- An op leaves each row stamped no earlier than it. -/
def Spares (collection : Collection Body Value) (records : Records Value) (op : RecordOp Body) : Prop :=
  ∀ id, (Records.entity collection records op).row id ≠ records.row id →
    Stamp.After (records.stamps.lookup id) op.h

/-- Ops in order, written one after the other. -/
theorem Settled.write (settled : records.Settled history) {won : List (RecordOp Body)}
    (inOrder : Each collection (InOrder collection) records won) :
    (Records.write collection records won).Settled
      (fun made => history made ∨ ∃ op ∈ won, made = decoded collection op) ∧
    Each collection (Spares collection) records won := by
  induction won generalizing records history with
  | nil =>
      refine ⟨?_, trivial⟩
      have same : (fun made => history made ∨ ∃ op ∈ ([] : List (RecordOp Body)),
          made = decoded collection op) = history := by
        funext made
        simp
      rw [same]
      exact settled
  | cons op rest inductionHypothesis =>
      obtain ⟨first, later⟩ := inOrder
      obtain ⟨next, spared⟩ := inductionHypothesis (settled.entity first) later
      refine ⟨?_, settled.entity_spares first, spared⟩
      have same : (fun made => (history made ∨ made = decoded collection op) ∨
          ∃ op ∈ rest, made = decoded collection op) =
          fun made => history made ∨ ∃ one ∈ op :: rest, made = decoded collection one := by
        funext made
        simp [or_assoc]
      rw [same] at next
      exact next

/-- A stamp held is held, or a greater one, after a write. -/
theorem lookup_write_mono {won : List (RecordOp Body)} {id : RecordId} {before : Stamp}
    (found : records.stamps.lookup id = some before) :
    ∃ stamp, (Records.write collection records won).stamps.lookup id = some stamp ∧ before ≤ stamp := by
  induction won generalizing records before with
  | nil => exact ⟨before, found, le_refl before⟩
  | cons op rest inductionHypothesis =>
      obtain ⟨first, isFirst, beforeFirst⟩ := lookup_entity_mono collection op found
      obtain ⟨stamp, isStamp, firstStamp⟩ := inductionHypothesis isFirst
      exact ⟨stamp, isStamp, beforeFirst.trans firstStamp⟩

/-- Besides the cache, a batch does what writing those that won does. -/
theorem apply_eq_write (winners : SyncWinners RecordId (Change Body)) (records : Records Value)
    (ops : List (RecordOp Body)) :
    ∃ fetched, MayFetch records fetched ∧
      fetched = (if collection.fetchedFirst then records.fetch else records) ∧
      let written := Records.write collection fetched (winners.winners ops records.stamps.lookup)
      let applied := Records.apply winners collection records ops
      applied.row = written.row ∧ applied.stamps = written.stamps ∧
        applied.aliasOf = written.aliasOf := by
  refine ⟨_, ?_, rfl, ?_⟩
  · split
    · exact .inr rfl
    · exact .inl rfl
  · dsimp only
    unfold Records.apply announce
    dsimp only
    generalize winners.winners ops records.stamps.lookup = won
    cases collection.fetchedFirst with
    | false =>
        by_cases nothing : won = []
        · subst nothing
          exact ⟨rfl, rfl, rfl⟩
        · rw [if_neg nothing]
          exact ⟨rfl, rfl, rfl⟩
    | true =>
        by_cases nothing : won = []
        · subst nothing
          exact ⟨rfl, rfl, rfl⟩
        · rw [if_neg nothing]
          exact ⟨rfl, rfl, rfl⟩

/-- A batch of which what wins is in order. -/
theorem Settled.apply (winners : SyncWinners RecordId (Change Body)) (settled : records.Settled history)
    {ops : List (RecordOp Body)}
    (inOrder : EachWon winners collection (InOrder collection) records ops) :
    (Records.apply winners collection records ops).Settled
      (fun made => history made ∨ ∃ op ∈ ops, made = decoded collection op) ∧
    EachWon winners collection (Spares collection) records ops := by
  obtain ⟨fetched, may, isFetched, sameRow, sameStamps, sameAliases⟩ :=
    @apply_eq_write _ _ _ collection winners records ops
  have fetchedSettled : fetched.Settled history := by
    obtain rfl | rfl := may
    · exact settled
    · exact settled
  unfold EachWon at inOrder ⊢
  rw [← isFetched] at inOrder ⊢
  obtain ⟨written, spared⟩ := fetchedSettled.write inOrder
  refine ⟨?_, spared⟩
  -- What did not win is no later than a stamp held before, or than what won.
  have all := Alias.Settled.passed written (fun change
      (isOp : ∃ op ∈ ops, change = decoded collection op) => ?_)
  · unfold Records.Settled
    rw [sameRow, sameStamps, sameAliases]
    have same : (fun made => (history made ∨ ∃ op ∈ winners.winners ops records.stamps.lookup,
          made = decoded collection op) ∨ ∃ op ∈ ops, made = decoded collection op) =
        fun made => history made ∨ ∃ op ∈ ops, made = decoded collection op := by
      funext made
      refine propext ⟨?_, ?_⟩
      · rintro ((before | ⟨op, won, rfl⟩) | isOp)
        · exact .inl before
        · exact .inr ⟨op, (winners.of_mem won).1, rfl⟩
        · exact .inr isOp
      · rintro (before | isOp)
        · exact .inl (.inl before)
        · exact .inr isOp
    rw [same] at all
    exact all
  · obtain ⟨op, member, rfl⟩ := isOp
    by_cases after : Stamp.After (records.stamps.lookup op.id) op.h
    · obtain ⟨winner, won, same⟩ :=
        @SyncWinners.exists_mem _ _ winners ops records.stamps.lookup op member after
      exact .inr ⟨decoded collection winner, .inr ⟨winner, won, rfl⟩, same,
        (winners.of_mem won).2.2 op member same.symm⟩
    · cases found : records.stamps.lookup op.id with
      | none =>
          rw [found] at after
          exact absurd trivial after
      | some stamp =>
          rw [found, Stamp.after_some, not_lt] at after
          rw [← may.stamps_eq] at found
          obtain ⟨held, isHeld, stampHeld⟩ := lookup_write_mono found
          exact .inl ⟨held, isHeld, after.trans stampHeld⟩

end Records

/-! ### An edit made here -/

omit [DecidableEq Value] in
/-- A record edited or deleted here, at a tick of the clock. -/
theorem Records.Settled.edited {records : Records Value} {history : Made Value → Prop}
    (settled : records.Settled history) {id : RecordId} {h : Stamp}
    (own : records.aliasOf id = none) (tick : records.IsTick h) {change : Change Value}
    {rows : Rows Value} (shows : ShowsChange change (rows.table.lookup id))
    (others : ∀ other, other ≠ id → rows.table.lookup other = records.row other) :
    (({ records with rows } : Records Value).record id h).invalidate.Settled
      fun made => history made ∨ made = ⟨id, h, change⟩ := by
  have heldHere : Alias.held records.aliasOf id = id := Alias.held_of_none own
  have after : Stamp.After (records.stamps.lookup id) h := by
    cases found : records.stamps.lookup id with
    | none => trivial
    | some stamp => exact tick id stamp found
  refine Alias.Settled.change settled (fun other stamp _ => tick other stamp) ?_ ?_ ?_ ?_
    (Stamps.lookup_record_after after)
  · rw [heldHere]
    exact shows
  · intro other apart
    rw [heldHere] at apart
    exact .inl (others other apart)
  · intro other apart
    refine Stamps.lookup_record_other _ h ?_
    rintro rfl
    exact apart rfl
  · intro other stamp _ found
    exact Stamps.record_le (fun one before isBefore => (tick one before isBefore).le) (le_refl h) found

/-! ### Every device whose batches are in order -/

variable {winners : SyncWinners RecordId (Change Body)} {collection : Collection Body Value}

omit [DecidableEq Value] in
/-- What a device whose batches are in order has. -/
def Device.Settled (device : Device Value) : Prop := device.records.Settled (· ∈ device.history)

omit [DecidableEq Value] in
theorem mem_or_eq (history : List (Made Value)) (change : Made Value) :
    (fun made => made ∈ history ∨ made = change) = (· ∈ history ++ [change]) := by
  funext made
  rw [List.mem_append, List.mem_singleton]

/-- A step keeps a device settled. -/
theorem Device.settled_step {device next : Device Value} {happening : Happening Body Value}
    (settled : device.Settled) (inOrder : device.ReceivesInOrder winners collection happening)
    (step : Device.Step winners collection device happening next) : next.Settled := by
  unfold Device.Settled at settled ⊢
  cases step with
  | received ops =>
      have applied := (settled.apply winners inOrder).1
      have same : (fun made => made ∈ device.history ∨ ∃ op ∈ ops, made = decoded collection op) =
          fun made => made ∈ device.history ++ ops.map (decoded collection) := by
        funext made
        simp [eq_comm]
      rw [same] at applied
      exact applied
  | @put id h item own tick =>
      unfold Device.put
      cases done : device.records.put collection id h item with
      | none => exact settled
      | some records =>
      obtain ⟨rows, written, rfl⟩ := Option.map_eq_some_iff.mp done
      have looked := Records.lookup_writeRows written
      have shows : ShowsChange (.record item) (rows.table.lookup id) := by
        rw [looked, if_pos rfl]
        exact ⟨item, rfl, rfl, rfl, .own⟩
      have edited := settled.edited own tick shows fun other apart => by
        rw [looked, if_neg apart, Records.row]
        cases device.records.rows.table.lookup other <;> rfl
      rw [mem_or_eq] at edited
      exact edited
  | @deleted id h own tick =>
      have gone : ShowsChange .deleted ((device.records.rows.delete id).table.lookup id) :=
        AList.lookup_erase _ _
      have edited := settled.edited own tick gone fun other apart => AList.lookup_erase_ne apart
      rw [mem_or_eq] at edited
      exact edited
  | fetched => exact settled

/-- Where every op that wins is in order, each record here has the value of the last change
made to it here or received under any of its ids; and no op so received changes or deletes
a record stamped after it. -/
theorem last_writer_wins {device : Device Value}
    (reached : (Device.system winners collection).Reached
      (Device.ReceivesInOrder winners collection) device) :
    device.LastWriterWins ∧
    ∀ ops, Records.EachWon winners collection (Records.InOrder collection) device.records ops →
      Records.EachWon winners collection (Records.Spares collection) device.records ops := by
  have settled : device.Settled := by
    refine reached.holds ?_ ?_
    · rintro device rfl
      have nothing : (· ∈ ([] : List (Made Value))) = fun _ => False := by
        funext made
        simp
      unfold Device.Settled
      rw [nothing]
      exact Alias.settled_empty
    · intro device happening next settled inOrder step
      exact Device.settled_step settled inOrder step
  unfold Device.Settled at settled
  refine ⟨?_, fun ops inOrder => (settled.apply winners inOrder).2⟩
  rintro id ⟨change, member, mine⟩
  rcases settled.latest _ (settled.held_own id) with ⟨-, nothing, -⟩ | ⟨top, isTop⟩
  · exact absurd mine (nothing change member)
  · exact ⟨top, isTop.made, isTop.mine, isTop.greatest, isTop.shows⟩

/-! ### An edit here and an older op of the alias -/

omit [DecidableEq Value] in
theorem Records.isTick_of_entries {records : Records Value} {h : Stamp}
    (earlier : ∀ entry ∈ records.stamps.entries, entry.2 < h) : records.IsTick h :=
  fun _ _ found => earlier _ (AList.mem_lookup_iff.mp found)

/-- A record made here, and the same one received under another id. -/
def twin : Fields String := { name := "n", body := "x" }

/-- A device that holds the record `b` of another device as its own `a`. -/
def aliasedDevice : Device String :=
  (({} : Device String).put (.plain String) "a" 1 twin).receive
    (SyncWinners.inOrder RecordId (Change String)) (.plain String) [⟨"b", 2, .record twin⟩]

theorem aliasedDevice_inOrder :
    Device.ReceivesInOrder (SyncWinners.inOrder RecordId (Change String)) (.plain String)
      (({} : Device String).put (.plain String) "a" 1 twin) (.received [⟨"b", 2, .record twin⟩]) := by
  have won : (SyncWinners.inOrder RecordId (Change String)).winners [⟨"b", 2, .record twin⟩]
      (({} : Device String).put (.plain String) "a" 1 twin).records.stamps.lookup =
        [⟨"b", 2, .record twin⟩] := by decide
  have tick : (({} : Device String).put (.plain String) "a" 1 twin).records.IsTick 2 :=
    Records.isTick_of_entries (by decide)
  have row : (({} : Device String).put (.plain String) "a" 1 twin).records.row "a" = some twin := by
    decide
  suffices inOrder : Records.InOrder (.plain String)
      (({} : Device String).put (.plain String) "a" 1 twin).records ⟨"b", 2, .record twin⟩ by
    change Records.Each _ _ _ _
    rw [won]
    exact ⟨inOrder, trivial⟩
  refine ⟨fun id stamp _ => tick id stamp, by decide, ?_, ?_⟩
  · intro fields isRecord noTwin
    obtain rfl := Change.record.inj isRecord
    exact absurd ⟨by decide, by decide, by decide⟩ (noTwin "a")
  · intro fields holder isRecord isTwin
    obtain rfl := Change.record.inj isRecord
    have isHolder : holder = "a" := Option.some.inj (isTwin.1.symm.trans (by decide))
    subst isHolder
    refine ⟨by decide, fun id => ?_, .inl ?_⟩
    · exact fun found => absurd (AList.mem_lookup_iff.mp found) List.not_mem_nil
    · intro now found
      obtain rfl := Option.some.inj (row.symm.trans found)
      rfl

/-- A twin received becomes an alias, and the record here has the value of its op. -/
theorem last_writer_wins_twin :
    aliasedDevice.records.aliasOf "b" = some "a" ∧ aliasedDevice.LastWriterWins := by
  have made : Device.ReceivesInOrder (SyncWinners.inOrder RecordId (Change String)) (.plain String)
      {} (.put "a" 1 twin) := trivial
  exact ⟨by decide, (last_writer_wins (.step (.step (.initial rfl) made
    (.put rfl (Records.isTick_of_entries (by decide)))) aliasedDevice_inOrder (.received _))).1⟩

/-- The record `a` is edited here after that; then an older op of `b` arrives, which is after
the stamp of `b`, and overwrites the edit. -/
theorem not_last_writer_wins :
    ¬ ∀ device : Device String,
      (Device.system (SyncWinners.inOrder RecordId (Change String)) (.plain String)).Reachable device →
      device.LastWriterWins := by
  intro wins
  obtain ⟨device, raced, history, own, row⟩ : ∃ device : Device String,
      (Device.system (SyncWinners.inOrder RecordId (Change String)) (.plain String)).Reachable device ∧
      device.history = [⟨"a", 1, .record twin⟩, ⟨"b", 2, .record twin⟩,
        ⟨"a", 5, .record { name := "n", body := "y" }⟩,
        ⟨"b", 4, .record { name := "n", body := "z" }⟩] ∧
      device.records.heldId "a" = "a" ∧
      device.records.row "a" = some { name := "n", body := "z" } := by
    refine ⟨(aliasedDevice.put (.plain String) "a" 5 { name := "n", body := "y" }).receive
      (SyncWinners.inOrder RecordId (Change String)) (.plain String)
      [⟨"b", 4, .record { name := "n", body := "z" }⟩], ?_, by decide, by decide, by decide⟩
    exact .step (.step (.step (.step (.initial rfl) trivial
      (.put rfl (Records.isTick_of_entries (by decide)))) trivial (.received _)) trivial
      (.put (by decide) (Records.isTick_of_entries (by decide)))) trivial (.received _)
  have edit : (⟨"a", 5, .record { name := "n", body := "y" }⟩ : Made String) ∈ device.history := by
    rw [history]
    decide
  obtain ⟨last, member, -, greatest, shows⟩ := wins device raced "a" ⟨_, edit, rfl⟩
  have notBefore := greatest _ edit rfl
  rw [history] at member
  have isEdit : ∀ made ∈ [⟨"a", 1, .record twin⟩, ⟨"b", 2, .record twin⟩,
      ⟨"a", 5, .record { name := "n", body := "y" }⟩,
      (⟨"b", 4, .record { name := "n", body := "z" }⟩ : Made String)], 5 ≤ made.h →
      made.d = .record { name := "n", body := "y" } := by decide
  rw [isEdit last member notBefore, own, row] at shows
  obtain ⟨now, isNow, -, sameBody, -⟩ := shows
  obtain rfl := Option.some.inj isNow
  exact absurd sameBody (by decide)

end ServerBox.Sync
