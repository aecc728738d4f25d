import ServerBox.Sync.RecordNames

/-!
# Which ops bring every device to the same names

`Latest` is what the batches received make the last op of each record. Two devices with
the same last ops differ at most in which of two records of one name gave it up, and they
do not differ where the name's keeper was never contested (`names_converge_iff`).
-/

namespace ServerBox.Sync

open ServerBox.Std ServerBox.Store

variable {Body Value : Type}

/-- What the last ops are once `ops` were received. -/
structure Latest (ops : List (RecordOp Body)) (last : RecordId → Option (RecordOp Body)) : Prop where
  mem : ∀ id op, last id = some op → op ∈ ops ∧ op.id = id
  covers : ∀ op ∈ ops, ∃ latest, last op.id = some latest ∧ op.h ≤ latest.h

namespace Latest

variable {ops : List (RecordOp Body)} {last : RecordId → Option (RecordOp Body)}

theorem isLast (latest : Latest ops last) {id : RecordId} {op : RecordOp Body}
    (found : last id = some op) : IsLast ops op := by
  obtain ⟨member, rfl⟩ := latest.mem id op found
  refine ⟨member, ?_⟩
  intro other here same
  obtain ⟨top, isTop, notAfter⟩ := latest.covers other here
  rw [same, found] at isTop
  obtain rfl := Option.some.inj isTop
  exact notAfter

/-- Where stamps are of one op each, a record's last op is the one received. -/
theorem eq_of_isLast (latest : Latest ops last)
    (stamped : ∀ one ∈ ops, ∀ other ∈ ops, one.h = other.h → one = other) {op : RecordOp Body}
    (isLast : IsLast ops op) : last op.id = some op := by
  obtain ⟨top, isTop, notAfter⟩ := latest.covers op isLast.1
  obtain ⟨topHere, topId⟩ := latest.mem op.id top isTop
  have notBefore := isLast.2 top topHere topId
  rw [isTop, stamped top topHere op isLast.1 (le_antisymm notBefore notAfter)]

theorem congr (latest : Latest ops last) {same : List (RecordOp Body)}
    (mem_iff : ∀ op, op ∈ ops ↔ op ∈ same) : Latest same last where
  mem id op found := ⟨(mem_iff op).mp (latest.mem id op found).1, (latest.mem id op found).2⟩
  covers op here := latest.covers op ((mem_iff op).mpr here)

theorem empty : Latest ([] : List (RecordOp Body)) fun _ => none where
  mem := by simp
  covers := by simp

/-- A batch received. -/
theorem receive (winners : SyncWinners RecordId (Change Body)) (latest : Latest ops last)
    (received : List (RecordOp Body)) :
    Latest (ops ++ received) (Records.lastOf winners last received) := by
  have distinct := winners.distinct received fun id => (last id).map SyncOp.h
  constructor
  · intro id op found
    by_cases won : ∃ winner ∈ winners.winners received (fun id => (last id).map SyncOp.h),
        winner.id = id
    · obtain ⟨winner, here, rfl⟩ := won
      rw [Records.lastOf, Records.foldl_written_mem distinct here] at found
      obtain rfl := Option.some.inj found
      exact ⟨List.mem_append_right _ (winners.of_mem here).1, rfl⟩
    · push Not at won
      rw [Records.lastOf, Records.foldl_written_other won] at found
      obtain ⟨member, same⟩ := latest.mem id op found
      exact ⟨List.mem_append_left _ member, same⟩
  · intro op member
    by_cases won : ∃ winner ∈ winners.winners received (fun id => (last id).map SyncOp.h),
        winner.id = op.id
    · obtain ⟨winner, here, same⟩ := won
      obtain ⟨-, after, greatest⟩ := winners.of_mem here
      refine ⟨winner, ?_, ?_⟩
      · rw [Records.lastOf, ← same, Records.foldl_written_mem distinct here]
      · rcases List.mem_append.mp member with before | now
        · obtain ⟨top, isTop, notAfter⟩ := latest.covers op before
          rw [same, isTop, Option.map_some, Stamp.after_some] at after
          exact notAfter.trans after.le
        · exact greatest op now same.symm
    · have before : ∃ top, last op.id = some top ∧ op.h ≤ top.h := by
        rcases List.mem_append.mp member with before | now
        · exact latest.covers op before
        · have notAfter : ¬ Stamp.After ((last op.id).map SyncOp.h) op.h := fun after =>
            won (@SyncWinners.exists_mem _ _ winners received
              (fun id => (last id).map SyncOp.h) op now after)
          cases top : last op.id with
          | none => rw [top] at notAfter; exact absurd trivial notAfter
          | some top' =>
              rw [top, Option.map_some, Stamp.after_some, not_lt] at notAfter
              exact ⟨top', rfl, notAfter⟩
      push Not at won
      rw [Records.lastOf, Records.foldl_written_other won]
      exact before

/-- Batches received one after the other. -/
theorem receiveAll (winners : SyncWinners RecordId (Change Body)) (latest : Latest ops last)
    (order : List (List (RecordOp Body))) :
    Latest (ops ++ order.flatten) (order.foldl (Records.lastOf winners) last) := by
  induction order generalizing ops last with
  | nil => rw [List.flatten_nil, List.append_nil]; exact latest
  | cons received rest inductionHypothesis =>
      rw [List.flatten_cons, ← List.append_assoc]
      exact inductionHypothesis (latest.receive winners received)

end Latest

namespace Records

variable [DecidableEq Value]

/-- A fresh device after the batches of an order. -/
def receiveAll (winners : SyncWinners RecordId (Change Body)) (collection : Collection Body Value)
    (order : List (List (RecordOp Body))) : Records Value :=
  order.foldl (apply winners collection) {}

variable {collection : Collection Body Value} {ops : List (RecordOp Body)}
  {last : RecordId → Option (RecordOp Body)} {records : Records Value}

omit [DecidableEq Value] in
/-- What is held stays what is held where more ops are looked at. -/
theorem Holds.mono (holds : Holds collection ops last records) {more : List (RecordOp Body)}
    (within : ∀ op ∈ ops, op ∈ more) : Holds collection more last records where
  last_mem id op found := ⟨within op (holds.last_mem id op found).1, (holds.last_mem id op found).2⟩
  stamps := holds.stamps
  aliases := holds.aliases
  shows := holds.shows
  present := holds.present
  contested id row op fields found isLast isRecord changed := by
    obtain ⟨other, here, apart, later, names⟩ :=
      holds.contested id row op fields found isLast isRecord changed
    exact ⟨other, within other here, apart, later, names⟩
  cached table isCache id row found := by
    obtain ⟨op, here, same, shows⟩ := holds.cached table isCache id row found
    exact ⟨op, within op here, same, shows⟩

/-- What is held after batches of the ops. -/
theorem Holds.foldl_apply (winners : SyncWinners RecordId (Change Body))
    (plain : Plain collection ops) (holds : Holds collection ops last records)
    {order : List (List (RecordOp Body))} (within : ∀ received ∈ order, ∀ op ∈ received, op ∈ ops) :
    Holds collection ops (order.foldl (lastOf winners) last)
      (order.foldl (Records.apply winners collection) records) := by
  induction order generalizing last records with
  | nil => exact holds
  | cons received rest inductionHypothesis =>
      have next := holds.apply winners plain fun op here =>
        within received List.mem_cons_self op (winners.of_mem here).1
      exact inductionHypothesis next fun other here => within other (List.mem_cons_of_mem _ here)

omit [DecidableEq Value] in
/-- A record keeps its name here if and only if it is the last stamped of those that end
with it, where no such record was contested. -/
theorem Holds.name_kept_iff (stamped : ∀ one ∈ ops, ∀ other ∈ ops, one.h = other.h → one = other)
    (uncontested : Uncontested ops) (latest : Latest ops last)
    (holds : Holds collection ops last records) {id : RecordId} {row : Fields Value}
    {op : RecordOp Body} {fields : Fields Body} (found : records.row id = some row)
    (isLast : last id = some op) (isRecord : op.d = .record fields)
    (sameScope : row.scope = fields.scope) :
    row.name = fields.name ↔
      ∀ other, IsLast ops other → Names fields.scope fields.name other → other.h ≤ op.h := by
  have opNames : Names fields.scope fields.name op := ⟨fields, isRecord, rfl, rfl⟩
  have opLast : IsLast ops op := latest.isLast isLast
  constructor
  · intro kept
    by_contra later
    push Not at later
    obtain ⟨other, otherLast, otherNames, after⟩ := later
    -- The last stamped of those that end with the name keeps it, so both rows have it.
    obtain ⟨greatest, here, ⟨greatestLast, names⟩, top⟩ := SyncWinners.exists_greatest
      (fun other => IsLast ops other ∧ Names fields.scope fields.name other) otherLast.1
      ⟨otherLast, otherNames⟩
    have beyond : op.h < greatest.h := lt_of_lt_of_le after (top other otherLast.1 ⟨otherLast, otherNames⟩)
    have isGreatest : last greatest.id = some greatest := latest.eq_of_isLast stamped greatestLast
    obtain ⟨held, greatestRecord, heldScope, heldName⟩ := names
    obtain ⟨topRow, topFound⟩ := Option.ne_none_iff_exists'.mp
      (holds.present greatest.id greatest held isGreatest greatestRecord)
    obtain ⟨shown, isShown, shownFields, shownRecord, -, topScope, -⟩ :=
      holds.shows greatest.id topRow topFound
    obtain rfl := Option.some.inj (isShown.symm.trans isGreatest)
    obtain rfl := Change.record.inj (shownRecord.symm.trans greatestRecord)
    have topKept : topRow.name = shownFields.name := by
      by_contra changed
      obtain ⟨rival, rivalHere, apart, rivalAfter, rivalNames⟩ :=
        holds.contested shown.id topRow shown shownFields topFound isGreatest greatestRecord changed
      rw [heldScope, heldName] at rivalNames
      have notAfter := uncontested shown fields.scope fields.name greatestLast
        ⟨shownFields, greatestRecord, heldScope, heldName⟩
        (fun one oneLast oneNames => top one oneLast.1 ⟨oneLast, oneNames⟩)
        rival rivalHere apart rivalNames
      exact lt_asymm notAfter rivalAfter
    have sameId : id = shown.id := records.rows.unique id shown.id row topRow found topFound
      (sameScope.trans (topScope.trans heldScope).symm) (kept.trans (topKept.trans heldName).symm)
    have sameOp := greatestLast.2 op opLast.1
    rw [sameId] at isLast
    obtain rfl := Option.some.inj (isLast.symm.trans isGreatest)
    exact lt_irrefl _ beyond
  · intro top
    by_contra changed
    obtain ⟨rival, rivalHere, apart, rivalAfter, rivalNames⟩ :=
      holds.contested id row op fields found isLast isRecord changed
    have sameId := (holds.last_mem id op isLast).2
    have notAfter := uncontested op fields.scope fields.name opLast opNames top rival rivalHere
      (sameId.symm ▸ apart) rivalNames
    exact lt_asymm notAfter rivalAfter

omit [DecidableEq Value] in
/-- Two devices with the same last ops, none contested, hold the same names. -/
theorem sameNames_of_uncontested
    (stamped : ∀ one ∈ ops, ∀ other ∈ ops, one.h = other.h → one = other)
    (uncontested : Uncontested ops) {first second : Records Value}
    {firstLast secondLast : RecordId → Option (RecordOp Body)}
    (firstLatest : Latest ops firstLast) (secondLatest : Latest ops secondLast)
    (firstHolds : Holds collection ops firstLast first)
    (secondHolds : Holds collection ops secondLast second) : SameNames first second := by
  have sameLast : firstLast = secondLast := by
    funext id
    cases one : firstLast id with
    | none =>
        cases other : secondLast id with
        | none => rfl
        | some op =>
            obtain ⟨member, rfl⟩ := secondLatest.mem id op other
            obtain ⟨top, isTop, -⟩ := firstLatest.covers op member
            rw [one] at isTop
            exact absurd isTop (by simp)
    | some op =>
        obtain ⟨-, rfl⟩ := firstLatest.mem id op one
        exact (secondLatest.eq_of_isLast stamped (firstLatest.isLast one)).symm
  subst sameLast
  intro id
  -- A row here has its op's name or the suffix, by a condition on the ops alone.
  have named : ∀ {records : Records Value}, Holds collection ops firstLast records →
      ∀ op fields, firstLast id = some op → op.d = .record fields →
      ∃ row, records.row id = some row ∧
        (row.name = fields.name ∨ row.name = Rows.suffixName fields.name op.id 6) ∧
        (row.name = fields.name ↔
          ∀ other, IsLast ops other → Names fields.scope fields.name other → other.h ≤ op.h) := by
    intro records holds op fields isLast isRecord
    obtain ⟨row, found⟩ := Option.ne_none_iff_exists'.mp (holds.present id op fields isLast isRecord)
    obtain ⟨shown, isShown, shownFields, shownRecord, -, sameScope, suffix⟩ := holds.shows id row found
    obtain rfl := Option.some.inj (isShown.symm.trans isLast)
    obtain rfl := Change.record.inj (shownRecord.symm.trans isRecord)
    exact ⟨row, found, suffix, holds.name_kept_iff stamped uncontested firstLatest found isLast
      isRecord sameScope⟩
  have absent : ∀ {records : Records Value}, Holds collection ops firstLast records →
      (∀ op fields, firstLast id = some op → op.d ≠ .record fields) → records.row id = none := by
    intro records holds noRecord
    by_contra present
    obtain ⟨row, found⟩ := Option.ne_none_iff_exists'.mp present
    obtain ⟨op, isLast, fields, isRecord, -⟩ := holds.shows id row found
    exact noRecord op fields isLast isRecord
  by_cases isRecord : ∃ op fields, firstLast id = some op ∧ op.d = .record fields
  · obtain ⟨op, fields, isLast, isRecord⟩ := isRecord
    obtain ⟨one, oneFound, oneNamed, oneKept⟩ := named firstHolds op fields isLast isRecord
    obtain ⟨other, otherFound, otherNamed, otherKept⟩ := named secondHolds op fields isLast isRecord
    have sameKept : one.name = fields.name ↔ other.name = fields.name := oneKept.trans otherKept.symm
    have sameName : one.name = other.name := by
      rcases oneNamed with oneOwn | oneSuffix
      · exact oneOwn.trans (sameKept.mp oneOwn).symm
      · rcases otherNamed with otherOwn | otherSuffix
        · exact (sameKept.mpr otherOwn).trans otherOwn.symm
        · exact oneSuffix.trans otherSuffix.symm
    rw [nameOf, nameOf, oneFound, otherFound, Option.map_some, Option.map_some, sameName]
  · push Not at isRecord
    rw [nameOf, nameOf, absent firstHolds isRecord, absent secondHolds isRecord]

/-! ### Two orders -/

variable (winners : SyncWinners RecordId (Change Body))

/-- The ops in the order of their stamps. -/
def byStamp (ops : List (RecordOp Body)) : List (RecordOp Body) :=
  ops.mergeSort fun one other => one.h ≤ other.h

omit [DecidableEq Value] in
theorem mem_byStamp {op : RecordOp Body} : op ∈ byStamp ops ↔ op ∈ ops :=
  (List.mergeSort_perm ops _).mem_iff

omit [DecidableEq Value] in
theorem pairwise_byStamp (ops : List (RecordOp Body)) :
    (byStamp ops).Pairwise fun one other => one.h ≤ other.h := by
  have trans : ∀ one middle other : RecordOp Body, decide (one.h ≤ middle.h) = true →
      decide (middle.h ≤ other.h) = true → decide (one.h ≤ other.h) = true := by
    intro one middle other before after
    rw [decide_eq_true_eq] at before after ⊢
    exact before.trans after
  have total : ∀ one other : RecordOp Body,
      (decide (one.h ≤ other.h) || decide (other.h ≤ one.h)) = true := by
    intro one other
    rw [Bool.or_eq_true, decide_eq_true_eq, decide_eq_true_eq]
    exact le_total one.h other.h
  exact (List.pairwise_mergeSort trans total ops).imp of_decide_eq_true

omit [DecidableEq Value] in
/-- Any cut of the ops in the order of their stamps into batches keeps each maker's order. -/
theorem delivered_byStamp {order : List (List (RecordOp Body))} (flat : order.flatten = byStamp ops) :
    Delivered ops order := by
  refine ⟨flat ▸ List.mergeSort_perm ops _, ?_⟩
  rw [flat]
  refine (pairwise_byStamp ops).imp ?_
  intro one other notAfter _
  exact notAfter

/-- A batch for each op. -/
def oneByOne (ops : List (RecordOp Body)) : List (List (RecordOp Body)) := ops.map fun op => [op]

omit [DecidableEq Value] in
@[simp] theorem flatten_oneByOne (ops : List (RecordOp Body)) : (oneByOne ops).flatten = ops := by
  induction ops with
  | nil => rfl
  | cons op rest inductionHypothesis =>
      rw [oneByOne, List.map_cons, List.flatten_cons, ← oneByOne, inductionHypothesis,
        List.singleton_append]

omit [DecidableEq Value] in
theorem mem_of_mem_oneByOne {received : List (RecordOp Body)} (here : received ∈ oneByOne ops)
    {op : RecordOp Body} (member : op ∈ received) : op ∈ ops := by
  obtain ⟨one, oneHere, rfl⟩ := List.mem_map.mp here
  rw [List.mem_singleton.mp member]
  exact oneHere

/-- Received in one batch, a record that is to keep its name does. -/
theorem nameOf_oneBatch (plain : Plain collection ops) {op : RecordOp Body} {fields : Fields Body}
    (isLast : IsLast ops op) (isRecord : op.d = .record fields)
    (top : ∀ other, IsLast ops other → Names fields.scope fields.name other → other.h ≤ op.h) :
    (receiveAll winners collection [byStamp ops]).nameOf op.id = some fields.name := by
  have latest : Latest ops (lastOf winners (fun _ => none) (byStamp ops)) := by
    refine (Latest.empty.receiveAll winners [byStamp ops]).congr ?_
    intro other
    rw [List.flatten_singleton, List.nil_append, mem_byStamp]
  let won := winners.winners (byStamp ops) fun _ => none
  have isWinner : ∀ other ∈ won, IsLast ops other := by
    intro other here
    obtain ⟨member, -, greatest⟩ := winners.of_mem here
    exact ⟨mem_byStamp.mp member, fun one oneHere => greatest one (mem_byStamp.mpr oneHere)⟩
  -- Of the ops only the last of each record are written, and none of these names it later.
  have holds := (holds_empty collection won).apply winners
    (plain.mono fun other here => (isWinner other here).1) fun other here => here
  have found := latest.eq_of_isLast plain.stamped isLast
  obtain ⟨row, rowFound⟩ := Option.ne_none_iff_exists'.mp
    (holds.present op.id op fields found isRecord)
  change (apply winners collection {} (byStamp ops)).nameOf op.id = some fields.name
  rw [nameOf, rowFound, Option.map_some, Option.some.injEq]
  by_contra changed
  obtain ⟨rival, here, -, after, names⟩ :=
    holds.contested op.id row op fields rowFound found isRecord changed
  exact absurd (top rival (isWinner rival here) names) (not_le.mpr after)

/-- A record that gave up its name does not get it back from ops after its last. -/
theorem Holds.oneByOne_row_of_suffixed (plain : Plain collection ops)
    (holds : Holds collection ops last records) {op : RecordOp Body} {fields : Fields Body}
    (isLast : IsLast ops op) (found : last op.id = some op) (isRecord : op.d = .record fields)
    {row : Fields Value} (rowFound : records.row op.id = some row) (changed : row.name ≠ fields.name)
    {rest : List (RecordOp Body)} (within : ∀ other ∈ rest, other ∈ ops) :
    ((oneByOne rest).foldl (Records.apply winners collection) records).row op.id = some row := by
  induction rest generalizing last records with
  | nil => exact rowFound
  | cons one rest inductionHypothesis =>
      have winnerHere : ∀ winner ∈ winners.winners [one] (fun id => (last id).map SyncOp.h),
          winner ∈ ops := by
        intro winner here
        rw [List.mem_singleton.mp (winners.of_mem here).1]
        exact within one List.mem_cons_self
      have apart : ∀ winner ∈ winners.winners [one] (fun id => (last id).map SyncOp.h),
          op.id ≠ winner.id := by
        intro winner here same
        obtain ⟨-, after, -⟩ := winners.of_mem here
        rw [← same, found, Option.map_some, Stamp.after_some] at after
        exact absurd (isLast.2 winner (winnerHere winner here) same.symm) (not_le.mpr after)
      have kept := holds.apply_row_of_suffixed winners plain winnerHere apart found isRecord rowFound
        changed
      have next := holds.apply winners plain winnerHere
      refine inductionHypothesis next ?_ kept
        fun other here => within other (List.mem_cons_of_mem _ here)
      rw [lastOf, foldl_written_other (fun winner here => (apart winner here).symm), found]

/-- An op that names another record like a record's last op does, at a later stamp, takes the
name from it for good, where the ops are received one by one in the order of their stamps. -/
theorem nameOf_oneByOne (plain : Plain collection ops) {op rival : RecordOp Body}
    {fields : Fields Body} (isLast : IsLast ops op) (isRecord : op.d = .record fields)
    (member : rival ∈ ops) (apart : rival.id ≠ op.id)
    (names : Names fields.scope fields.name rival) (after : op.h < rival.h) :
    (receiveAll winners collection (oneByOne (byStamp ops))).nameOf op.id ≠ some fields.name := by
  obtain ⟨before, later, split⟩ := List.append_of_mem (mem_byStamp.mpr member)
  rw [List.append_cons] at split
  have sorted := pairwise_byStamp ops
  rw [split] at sorted
  obtain ⟨firstSorted, -, firstLater⟩ := List.pairwise_append.mp sorted
  -- Up to the rival no op stamped after it was received, so it has the name.
  have rivalFirst : rival ∈ before ++ [rival] := List.mem_append_right _ (List.mem_singleton_self rival)
  have firstLe : ∀ other ∈ before ++ [rival], other.h ≤ rival.h := by
    intro other here
    rcases List.mem_append.mp here with early | same
    · exact (List.pairwise_append.mp firstSorted).2.2 other early rival (List.mem_singleton_self rival)
    · rw [List.mem_singleton.mp same]
  have firstMem : ∀ other ∈ before ++ [rival], other ∈ ops := by
    intro other here
    rw [← mem_byStamp, split]
    exact List.mem_append_left later here
  have opFirst : op ∈ before ++ [rival] := by
    have here := mem_byStamp.mpr isLast.1
    rw [split] at here
    rcases List.mem_append.mp here with early | late
    · exact early
    · exact absurd (firstLater rival rivalFirst op late) (not_le.mpr after)
  have firstPlain := plain.mono firstMem
  have latest : Latest (before ++ [rival])
      ((oneByOne (before ++ [rival])).foldl (lastOf winners) fun _ => none) := by
    have run := Latest.empty.receiveAll winners (oneByOne (before ++ [rival]))
    rw [flatten_oneByOne, List.nil_append] at run
    exact run
  have holds := (holds_empty collection _).foldl_apply winners firstPlain
    fun _ here _ member => mem_of_mem_oneByOne here member
  have rivalFound := latest.eq_of_isLast firstPlain.stamped
    ⟨rivalFirst, fun other here _ => firstLe other here⟩
  have opFound := latest.eq_of_isLast firstPlain.stamped
    ⟨opFirst, fun other here same => isLast.2 other (firstMem other here) same⟩
  obtain ⟨rivalFields, rivalRecord, sameScope, sameName⟩ := names
  obtain ⟨rivalRow, rivalRowFound⟩ := Option.ne_none_iff_exists'.mp
    (holds.present rival.id rival rivalFields rivalFound rivalRecord)
  obtain ⟨row, rowFound⟩ := Option.ne_none_iff_exists'.mp
    (holds.present op.id op fields opFound isRecord)
  have rivalKept : rivalRow.name = rivalFields.name := by
    by_contra changed
    obtain ⟨other, here, -, beyond, -⟩ :=
      holds.contested rival.id rivalRow rival rivalFields rivalRowFound rivalFound rivalRecord changed
    exact absurd (firstLe other here) (not_le.mpr beyond)
  have scopes : rivalRow.scope = rivalFields.scope ∧ row.scope = fields.scope := by
    obtain ⟨shown, isShown, shownFields, shownRecord, -, shownScope, -⟩ :=
      holds.shows rival.id rivalRow rivalRowFound
    obtain rfl := Option.some.inj (isShown.symm.trans rivalFound)
    obtain rfl := Change.record.inj (shownRecord.symm.trans rivalRecord)
    obtain ⟨own, isOwn, ownFields, ownRecord, -, ownScope, -⟩ := holds.shows op.id row rowFound
    obtain rfl := Option.some.inj (isOwn.symm.trans opFound)
    obtain rfl := Change.record.inj (ownRecord.symm.trans isRecord)
    exact ⟨shownScope, ownScope⟩
  have changed : row.name ≠ fields.name := by
    intro kept
    exact apart ((receiveAll winners collection (oneByOne (before ++ [rival]))).rows.unique rival.id
      op.id rivalRow row rivalRowFound rowFound (scopes.1.trans (sameScope.trans scopes.2.symm))
      (rivalKept.trans (sameName.trans kept.symm)))
  have stays := (holds.mono firstMem).oneByOne_row_of_suffixed winners plain isLast opFound isRecord
    rowFound changed fun other here => by
      rw [← mem_byStamp, split]
      exact List.mem_append_right _ here
  have whole : receiveAll winners collection (oneByOne (byStamp ops)) =
      (oneByOne later).foldl (apply winners collection)
        ((oneByOne (before ++ [rival])).foldl (apply winners collection) {}) := by
    rw [receiveAll, split, oneByOne, List.map_append, List.foldl_append]
    rfl
  rw [whole, nameOf, stays, Option.map_some]
  exact fun same => changed (Option.some.inj same)

/-- Two devices each made a record of the name `n`. -/
def clashOps : List (RecordOp String) :=
  [⟨"a1", 1 * 2 ^ 64 + 1, .record { name := "n", body := "x" }⟩,
   ⟨"b1", 2 * 2 ^ 64 + 2, .record { name := "n", body := "y" }⟩]

/-- One of them renamed its record then. -/
def renamedOps : List (RecordOp String) :=
  clashOps ++ [⟨"b1", 3 * 2 ^ 64 + 2, .record { name := "m", body := "y" }⟩]

theorem plain_clashOps : Plain (Collection.plain String) clashOps where
  stamped := by decide
  readable := by decide
  accepted op here fields isRecord := ⟨fields.body, rfl, rfl⟩
  distinct := by
    intro one oneHere other otherHere apart first second isFirst isSecond
    simp only [clashOps, List.mem_cons, List.not_mem_nil, or_false] at oneHere otherHere
    rcases oneHere with rfl | rfl <;> rcases otherHere with rfl | rfl
    · exact absurd rfl apart
    · obtain rfl := Change.record.inj isFirst
      obtain rfl := Change.record.inj isSecond
      decide
    · obtain rfl := Change.record.inj isFirst
      obtain rfl := Change.record.inj isSecond
      decide
    · exact absurd rfl apart
  suffixFree := by
    intro one oneHere other otherHere apart first second isFirst isSecond
    simp only [clashOps, List.mem_cons, List.not_mem_nil, or_false] at oneHere otherHere
    rcases oneHere with rfl | rfl <;> rcases otherHere with rfl | rfl
    · exact absurd rfl apart
    · obtain rfl := Change.record.inj isFirst
      obtain rfl := Change.record.inj isSecond
      decide
    · obtain rfl := Change.record.inj isFirst
      obtain rfl := Change.record.inj isSecond
      decide
    · exact absurd rfl apart

end Records

end ServerBox.Sync
