import ServerBox.Sync.Op

/-!
# The operation log read

`LogSync._pull` of `src/lib/core/sync/log.dart`: batches and snapshots are opened, their ops
applied, and the cursor moved to them. What the log answers, what each key opens and how the look
for a newer key ends is given with each pull.

Something that no key here opens is passed over, and the log is read on. A look for a newer key
that fails ends the same way, so what a later look would open is passed over too.
-/

namespace ServerBox.Sync

/-- `SyncSeal.open`: what was sealed, a `FormatException`, or any other exception. -/
inductive Opening (Plain : Type) where
  | opened (plain : Plain)
  | noKey
  | failed
deriving DecidableEq, Repr

/-- `SyncSeal.refresh`: an exception, no newer key, or the keys with those that were found. -/
inductive Look (Keys : Type) where
  | failed
  | none
  | found (keys : Keys)
deriving DecidableEq, Repr

/-- What an op carries: the record, or the name of the blob that holds it. -/
inductive Datum (Name Value : Type) where
  | record (value : Value)
  | blob (name : Name)
deriving DecidableEq, Repr

/-- A batch or snapshot as JSON: its version, if that is an integer, and its ops, if they are. -/
structure Document (Op : Type) where
  version : Option Int
  ops : Option (List Op)

/-- What `_parse` comes to. -/
inductive Parsed (Op : Type) where
  | ops (ops : List Op)
  | unreadable
  | tooNew
deriving DecidableEq, Repr

/-- `getBlob`. -/
inductive Fetched (Sealed : Type) where
  | failed
  | gone
  | held (body : Sealed)
deriving DecidableEq, Repr

/-- A batch or snapshot that the log answers with: its number, its bytes, what each blob that its
ops name comes to as it is asked for, and whether what follows the blobs (the stamps, the winners,
the write and the cursor's) ends without an exception. -/
structure Received (Sealed Name : Type) where
  seq : Nat
  body : Sealed
  fetch : Nat → Name → Fetched Sealed
  applies : Bool

/-- What an engine is made of: its seal, what bytes that were opened hold, and the records that
are carried. -/
structure LogReader (Keys Sealed Plain Id Name Value : Type) where
  openSealed : Keys → Sealed → Opening Plain
  document : Plain → Option (Document (SyncOp Id (Datum Name Value)))
  record : Plain → Option Value
  carries : Id → Bool

/-- What an engine keeps: the log and the cursor, whether ops were left out, the keys, `_refreshed`,
and every op that was applied. -/
structure LogEngine (Log Keys Id Value : Type) where
  log : Option Log
  cursor : Nat
  leftOut : Bool
  keys : Keys
  refreshed : Bool
  taken : List (SyncOp Id Value)

namespace LogReader

variable {Log Keys Sealed Plain Id Name Value : Type}
  (reader : LogReader Keys Sealed Plain Id Name Value) (look : Look Keys)

/-- `_open`. -/
def opening (body : Sealed) (engine : LogEngine Log Keys Id Value) :
    Opening Plain × LogEngine Log Keys Id Value :=
  match reader.openSealed engine.keys body with
  | .opened plain => (.opened plain, engine)
  | .failed => (.failed, engine)
  | .noKey =>
      if engine.refreshed then (.noKey, engine)
      else
        match look with
        | .failed => (.failed, { engine with refreshed := true })
        | .none => (.noKey, { engine with refreshed := true })
        | .found keys =>
            (reader.openSealed keys body, { engine with refreshed := true, keys := keys })

/-- `_parse`. -/
def parse (plain : Plain) : Parsed (SyncOp Id (Datum Name Value)) :=
  match reader.document plain with
  | none => .unreadable
  | some document =>
      match document.version with
      | none => .unreadable
      | some version =>
          if 1 < version then .tooNew
          else if version ≠ 1 then .unreadable
          else
            match document.ops with
            | none => .unreadable
            | some ops => .ops ops

/-- `_decode`. -/
def decode (body : Sealed) (engine : LogEngine Log Keys Id Value) :
    Parsed (SyncOp Id (Datum Name Value)) × LogEngine Log Keys Id Value :=
  match reader.opening look body engine with
  | (.opened plain, after) => (reader.parse plain, after)
  | (_, after) => (.unreadable, after)

/-- `_resolve`; none where a blob cannot be fetched. -/
def resolve (fetch : Nat → Name → Fetched Sealed) : List (SyncOp Id (Datum Name Value)) → Nat →
    LogEngine Log Keys Id Value → Option (List (SyncOp Id Value)) × LogEngine Log Keys Id Value
  | [], _, engine => (some [], engine)
  | ⟨id, h, .record value⟩ :: ops, asked, engine =>
      let (rest, after) := resolve fetch ops asked engine
      (rest.map (⟨id, h, value⟩ :: ·), after)
  | ⟨id, h, .blob name⟩ :: ops, asked, engine =>
      match fetch asked name with
      | .failed => (none, engine)
      | .gone => resolve fetch ops (asked + 1) engine
      | .held body =>
          match reader.opening look body engine with
          | (.opened plain, opened) =>
              match reader.record plain with
              | some value =>
                  let (rest, after) := resolve fetch ops (asked + 1) opened
                  (rest.map (⟨id, h, value⟩ :: ·), after)
              | none => resolve fetch ops (asked + 1) opened
          | (_, after) => resolve fetch ops (asked + 1) after

/-- `_apply` of what `_decode` comes to: the engine, and whether it ends without an exception. -/
def receive (log : Option Log) (received : Received Sealed Name)
    (engine : LogEngine Log Keys Id Value) : LogEngine Log Keys Id Value × Bool :=
  match reader.decode look received.body engine with
  | (.tooNew, decoded) => (decoded, false)
  | (.unreadable, decoded) => ({ decoded with log := log, cursor := received.seq }, true)
  | (.ops ops, decoded) =>
      let carried := ops.filter fun op => reader.carries op.id
      match reader.resolve look received.fetch carried 0 decoded with
      | (none, resolved) => (resolved, false)
      | (some taken, resolved) =>
          if received.applies then
            ({ resolved with
              log := log
              cursor := received.seq
              leftOut := resolved.leftOut || carried.length < ops.length
              taken := resolved.taken ++ taken }, true)
          else (resolved, false)

end LogReader

/-- `snapshot`. -/
inductive SnapshotAnswer (Log Sealed Name : Type) where
  | failed
  | missing
  | held (log : Log) (received : Received Sealed Name)

/-- `read`. -/
inductive PageAnswer (Log Sealed Name : Type) where
  | failed
  | compacted (log : Option Log) (snapshot : SnapshotAnswer Log Sealed Name)
  | page (log : Option Log) (batches : List (Received Sealed Name)) (more : Bool)

/-- A batch or snapshot as it is met, with the engine before it. -/
structure Met (Log Keys Sealed Id Name Value : Type) where
  before : LogEngine Log Keys Id Value
  log : Option Log
  received : Received Sealed Name

/-- What a pull comes to, as far as it has come: the engine, the batches and snapshots that were
met, and whether it goes on. -/
structure Pulled (Log Keys Sealed Id Name Value : Type) where
  engine : LogEngine Log Keys Id Value
  met : List (Met Log Keys Sealed Id Name Value)
  goesOn : Bool

namespace Pulled

variable {Log Keys Sealed Id Name Value : Type}

/-- What follows, if the pull goes on. -/
def andThen (first : Pulled Log Keys Sealed Id Name Value)
    (next : LogEngine Log Keys Id Value → Pulled Log Keys Sealed Id Name Value) :
    Pulled Log Keys Sealed Id Name Value :=
  if first.goesOn then
    { next first.engine with met := first.met ++ (next first.engine).met }
  else first

end Pulled

namespace LogReader

variable {Log Keys Sealed Plain Id Name Value : Type}
  (reader : LogReader Keys Sealed Plain Id Name Value) (look : Look Keys)

/-- A batch or snapshot met. -/
def meet (log : Option Log) (received : Received Sealed Name)
    (engine : LogEngine Log Keys Id Value) : Pulled Log Keys Sealed Id Name Value :=
  let (after, goesOn) := reader.receive look log received engine
  ⟨after, [⟨engine, log, received⟩], goesOn⟩

/-- The batches of a page. -/
def readBatches (log : Option Log) : List (Received Sealed Name) →
    LogEngine Log Keys Id Value → Pulled Log Keys Sealed Id Name Value
  | [], engine => ⟨engine, [], true⟩
  | received :: batches, engine =>
      (reader.meet look log received engine).andThen (readBatches log batches)

/-- The loop of `_pull`, for as long as the log answers. -/
def readPages : List (PageAnswer Log Sealed Name) →
    LogEngine Log Keys Id Value → Pulled Log Keys Sealed Id Name Value
  | [], engine => ⟨engine, [], false⟩
  | .failed :: _, engine => ⟨engine, [], false⟩
  | .compacted _ .failed :: _, engine => ⟨engine, [], false⟩
  | .compacted log .missing :: answers, engine =>
      let anew := { engine with log := log, cursor := 0 }
      if engine.cursor = 0 then ⟨anew, [], false⟩ else readPages answers anew
  | .compacted _ (.held log received) :: answers, engine =>
      (reader.meet look (some log) received engine).andThen (readPages answers)
  | .page log batches more :: answers, engine =>
      (reader.readBatches look log batches engine).andThen fun after =>
        if more then readPages answers after else ⟨after, [], false⟩

/-- `_pull`. -/
def pull (answers : List (PageAnswer Log Sealed Name)) (engine : LogEngine Log Keys Id Value) :
    Pulled Log Keys Sealed Id Name Value :=
  reader.readPages look answers { engine with refreshed := false }

end LogReader

namespace LogEngine

variable {Log Keys Id Value : Type} [DecidableEq Log]

/-- `_append`, once homebase has answered: an own batch right after the cursor is not read. -/
def sent (engine : LogEngine Log Keys Id Value) (batch : Log × Nat) :
    LogEngine Log Keys Id Value :=
  let isLog := engine.log = none ∨ engine.log = some batch.1
  { engine with
    log := engine.log <|> some batch.1
    cursor := if isLog ∧ batch.2 = engine.cursor + 1 then batch.2 else engine.cursor }

/-- `forget`. -/
def forget (engine : LogEngine Log Keys Id Value) : LogEngine Log Keys Id Value :=
  { engine with log := none, cursor := 0, leftOut := false }

/-- What is sent is never past a batch that another device sent. -/
theorem cursor_sent_lt {engine : LogEngine Log Keys Id Value} {sent : List (Log × Nat)} {seq : Nat}
    (others : ∀ batch ∈ sent, batch.2 ≠ seq) (before : engine.cursor < seq) :
    (sent.foldl LogEngine.sent engine).cursor < seq := by
  induction sent generalizing engine with
  | nil => exact before
  | cons batch later inductionHypothesis =>
      rw [List.foldl_cons]
      have apart := others batch List.mem_cons_self
      have rest : ∀ other ∈ later, other.2 ≠ seq := fun other isLater =>
        others other (List.mem_cons_of_mem _ isLater)
      refine inductionHypothesis rest ?_
      unfold LogEngine.sent
      dsimp only
      split
      next next => omega
      next => exact before

end LogEngine

/-- What happens to an engine: a pull, an own batch that homebase took, other keys (read again, or
replaced), or a log that is forgotten. -/
inductive LogEvent (Log Keys Sealed Name : Type) where
  | pull (look : Look Keys) (answers : List (PageAnswer Log Sealed Name))
  | sent (batch : Log × Nat)
  | rekeyed (keys : Keys)
  | forgotten

namespace LogReader

variable {Log Keys Sealed Plain Id Name Value : Type}
  (reader : LogReader Keys Sealed Plain Id Name Value)

/-- The pulls of a run, each with how its look for a newer key ends. -/
def pulls [DecidableEq Log] : List (LogEvent Log Keys Sealed Name) →
    LogEngine Log Keys Id Value → List (Look Keys × Pulled Log Keys Sealed Id Name Value)
  | [], _ => []
  | .pull look answers :: events, engine =>
      (look, reader.pull look answers engine) ::
        pulls events (reader.pull look answers engine).engine
  | .sent batch :: events, engine => pulls events (engine.sent batch)
  | .rekeyed keys :: events, engine => pulls events { engine with keys := keys }
  | .forgotten :: events, engine => pulls events engine.forget

variable (look : Look Keys) (met : Met Log Keys Sealed Id Name Value)

/-- The blobs that ops name, in the order in which they are asked for. -/
def blobs : List (SyncOp Id (Datum Name Value)) → List Name
  | [] => []
  | ⟨_, _, .record _⟩ :: ops => blobs ops
  | ⟨_, _, .blob name⟩ :: ops => name :: blobs ops

/-- The blobs of what is met, where the keys that are here open it. -/
def metBlobs : List Name :=
  match reader.openSealed met.before.keys met.received.body with
  | .opened plain =>
      match reader.parse plain with
      | .ops ops => blobs (ops.filter fun op => reader.carries op.id)
      | _ => []
  | _ => []

/-- Whether it is left unopened since the look for a newer key failed. -/
def LeftBody : Prop :=
  look = .failed ∧ reader.openSealed met.before.keys met.received.body = .noKey

/-- Whether a blob of it is left unopened since the look for a newer key failed. -/
def LeftBlob : Prop :=
  look = .failed ∧ ∃ index name body, (reader.metBlobs met)[index]? = some name ∧
    met.received.fetch index name = .held body ∧
    reader.openSealed met.before.keys body = .noKey ∧
    ∀ earlier < index, ∀ other, (reader.metBlobs met)[earlier]? = some other →
      met.received.fetch earlier other ≠ .failed

/-- Whether something else breaks off its application: a blob that cannot be fetched, or what
follows the blobs. -/
def BrokenOff : Prop :=
  (∃ index name, (reader.metBlobs met)[index]? = some name ∧
    met.received.fetch index name = .failed) ∨ met.received.applies = false

/-- Whether the cursor is not moved past what is met: its application does not end with the cursor
moved, the pull leaves the log and the cursor as they were before it, and what is sent next is no
reason to pass it over. -/
structure Kept [DecidableEq Log] (pulled : Pulled Log Keys Sealed Id Name Value) : Prop where
  unmoved : (reader.receive look met.log met.received met.before).2 = false
  log : pulled.engine.log = met.before.log
  cursor : pulled.engine.cursor = met.before.cursor
  sent : ∀ sent : List (Log × Nat), (∀ batch ∈ sent, batch.2 ≠ met.received.seq) →
    met.before.cursor < met.received.seq →
    (sent.foldl LogEngine.sent pulled.engine).cursor < met.received.seq

/-! ### What opening changes -/

variable {reader look met} {engine : LogEngine Log Keys Id Value}

/-- Whether an engine has read as far as another. -/
structure SamePlace (engine other : LogEngine Log Keys Id Value) : Prop where
  log : engine.log = other.log
  cursor : engine.cursor = other.cursor

theorem SamePlace.refl : SamePlace engine engine := ⟨rfl, rfl⟩

theorem SamePlace.trans {middle last : LogEngine Log Keys Id Value}
    (first : SamePlace last middle) (second : SamePlace middle engine) : SamePlace last engine :=
  ⟨first.log.trans second.log, first.cursor.trans second.cursor⟩

theorem samePlace_opening (body : Sealed) :
    SamePlace (reader.opening look body engine).2 engine := by
  unfold opening
  split
  next => exact .refl
  next => exact .refl
  next =>
      split
      next => exact .refl
      next => cases look <;> exact ⟨rfl, rfl⟩

theorem samePlace_decode (body : Sealed) :
    SamePlace (reader.decode look body engine).2 engine := by
  have same : SamePlace (reader.opening look body engine).2 engine := samePlace_opening body
  rw [decode]
  split
  next plain after isOpened =>
      rw [isOpened] at same
      exact same
  next after _ isUnopened =>
      rw [isUnopened] at same
      exact same

theorem samePlace_resolve {fetch : Nat → Name → Fetched Sealed}
    {ops : List (SyncOp Id (Datum Name Value))} {asked : Nat} :
    SamePlace (reader.resolve look fetch ops asked engine).2 engine := by
  fun_induction resolve reader look fetch ops asked engine with
  | case1 => exact .refl
  | case2 id h value ops asked engine rest after isRest inductionHypothesis =>
      rw [isRest] at inductionHypothesis
      exact inductionHypothesis
  | case3 => exact .refl
  | case4 id h name ops asked engine gone inductionHypothesis => exact inductionHypothesis
  | case5 id h name ops asked engine body held plain opened isOpened value isValue rest after isRest
      inductionHypothesis =>
      have same : SamePlace (reader.opening look body engine).2 engine := samePlace_opening body
      rw [isOpened] at same
      rw [isRest] at inductionHypothesis
      exact inductionHypothesis.trans same
  | case6 id h name ops asked engine body held plain opened isOpened isNone inductionHypothesis =>
      have same : SamePlace (reader.opening look body engine).2 engine := samePlace_opening body
      rw [isOpened] at same
      exact inductionHypothesis.trans same
  | case7 id h name ops asked engine body held _ after _ isUnopened inductionHypothesis =>
      have same : SamePlace (reader.opening look body engine).2 engine := samePlace_opening body
      rw [isUnopened] at same
      exact inductionHypothesis.trans same

/-- The blobs are all asked for unless one cannot be fetched, whatever opens them. -/
theorem resolve_eq_none_iff {fetch : Nat → Name → Fetched Sealed}
    {ops : List (SyncOp Id (Datum Name Value))} {asked : Nat} :
    (reader.resolve look fetch ops asked engine).1 = none ↔
      ∃ index name, (blobs ops)[index]? = some name ∧ fetch (asked + index) name = .failed := by
  have next {name : Name} {names : List Name} {asked : Nat} (returns : fetch asked name ≠ .failed) :
      (∃ index other, names[index]? = some other ∧ fetch (asked + 1 + index) other = .failed) ↔
        ∃ index other, (name :: names)[index]? = some other ∧
          fetch (asked + index) other = .failed := by
    constructor
    · rintro ⟨index, other, isOther, fails⟩
      exact ⟨index + 1, other, isOther, by rwa [← Nat.add_assoc, Nat.add_right_comm]⟩
    · rintro ⟨index, other, isOther, fails⟩
      cases index with
      | zero =>
          obtain rfl := Option.some.inj isOther
          exact absurd fails returns
      | succ index =>
          exact ⟨index, other, isOther, by rwa [Nat.add_right_comm, Nat.add_assoc]⟩
  fun_induction resolve reader look fetch ops asked engine with
  | case1 => simp [blobs]
  | case2 id h value ops asked engine rest after isRest inductionHypothesis =>
      rw [isRest] at inductionHypothesis
      rw [Option.map_eq_none_iff]
      exact inductionHypothesis
  | case3 id h name ops asked engine failed =>
      exact iff_of_true rfl ⟨0, name, rfl, failed⟩
  | case4 id h name ops asked engine gone inductionHypothesis =>
      exact inductionHypothesis.trans (next (by rw [gone]; nofun))
  | case5 id h name ops asked engine body held plain opened isOpened value isValue rest after isRest
      inductionHypothesis =>
      rw [isRest] at inductionHypothesis
      rw [Option.map_eq_none_iff]
      exact inductionHypothesis.trans (next (by rw [held]; nofun))
  | case6 id h name ops asked engine body held plain opened isOpened isNone inductionHypothesis =>
      exact inductionHypothesis.trans (next (by rw [held]; nofun))
  | case7 id h name ops asked engine body held _ after _ isUnopened inductionHypothesis =>
      exact inductionHypothesis.trans (next (by rw [held]; nofun))

/-! ### What is met -/

/-- What breaks off leaves the log and the cursor. -/
theorem samePlace_receive {log : Option Log} {received : Received Sealed Name}
    (breaks : (reader.receive look log received engine).2 = false) :
    SamePlace (reader.receive look log received engine).1 engine := by
  have decoded : SamePlace (reader.decode look received.body engine).2 engine :=
    samePlace_decode received.body
  rcases isDecoded : reader.decode look received.body engine with ⟨parsed, after⟩
  rw [isDecoded] at decoded
  cases parsed with
  | tooNew => simpa only [receive, isDecoded] using decoded
  | unreadable => simp [receive, isDecoded] at breaks
  | ops ops =>
      have resolved : SamePlace (reader.resolve look received.fetch
          (ops.filter fun op => reader.carries op.id) 0 after).2 after := samePlace_resolve
      rcases isResolved : reader.resolve look received.fetch
          (ops.filter fun op => reader.carries op.id) 0 after with ⟨taken, last⟩
      rw [isResolved] at resolved
      cases taken with
      | none => simpa only [receive, isDecoded, isResolved] using resolved.trans decoded
      | some taken =>
          cases applies : received.applies with
          | true => simp [receive, isDecoded, isResolved, applies] at breaks
          | false =>
              simpa [receive, isDecoded, isResolved, applies] using resolved.trans decoded

/-- What the look left unopened is passed over. -/
theorem receive_of_leftBody (left : reader.LeftBody look met) :
    (reader.receive look met.log met.received met.before).2 = true := by
  obtain ⟨rfl, noKey⟩ := left
  have unreadable : (reader.decode .failed met.received.body met.before).1 = .unreadable := by
    unfold decode opening
    cases refreshed : met.before.refreshed <;> simp only [noKey] <;> rfl
  rcases isDecoded : reader.decode .failed met.received.body met.before with ⟨parsed, after⟩
  rw [isDecoded] at unreadable
  rw [receive, isDecoded, show parsed = .unreadable from unreadable]

/-- What the keys here open, and that names blobs, is broken off by something else only. -/
theorem receive_eq_false_iff (named : reader.metBlobs met ≠ []) :
    (reader.receive look met.log met.received met.before).2 = false ↔ reader.BrokenOff met := by
  rw [metBlobs] at named
  split at named
  next plain isOpened =>
      split at named
      next ops isOps =>
          have decoded :
              reader.decode look met.received.body met.before = (.ops ops, met.before) := by
            unfold decode opening
            simp only [isOpened, isOps]
          have names : reader.metBlobs met = blobs (ops.filter fun op => reader.carries op.id) := by
            simp only [metBlobs, isOpened, isOps]
          have resolved := @resolve_eq_none_iff _ _ _ _ _ _ _ reader look met.before
            met.received.fetch (ops.filter fun op => reader.carries op.id) 0
          simp only [Nat.zero_add, ← names] at resolved
          rw [receive, BrokenOff, ← resolved, decoded]
          dsimp only
          split
          next isNone => simp [isNone]
          next isSome =>
              rw [isSome]
              cases met.received.applies <;> simp
      next => exact absurd rfl named
  next => exact absurd rfl named

/-- What the keys here open is resolved whole. -/
theorem resolve_opened {fetch : Nat → Name → Fetched Sealed}
    {ops : List (SyncOp Id (Datum Name Value))} {asked : Nat}
    (opens : ∀ index name, (blobs ops)[index]? = some name → ∃ body plain value,
      fetch (asked + index) name = .held body ∧ reader.openSealed engine.keys body = .opened plain ∧
        reader.record plain = some value) :
    ∃ taken, reader.resolve look fetch ops asked engine = (some taken, engine) ∧
      taken.map (fun op => (op.id, op.h)) = ops.map fun op => (op.id, op.h) := by
  induction ops generalizing asked with
  | nil => exact ⟨[], rfl, rfl⟩
  | cons op ops inductionHypothesis =>
      obtain ⟨id, h, datum⟩ := op
      cases datum with
      | record value =>
          obtain ⟨taken, isTaken, same⟩ := inductionHypothesis opens
          refine ⟨⟨id, h, value⟩ :: taken, ?_, congrArg ((id, h) :: ·) same⟩
          rw [resolve, isTaken]
          rfl
      | blob name =>
          obtain ⟨body, plain, value, held, isOpened, isValue⟩ := opens 0 name rfl
          have later : ∀ index other, (blobs ops)[index]? = some other → ∃ body plain value,
              fetch (asked + 1 + index) other = .held body ∧
                reader.openSealed engine.keys body = .opened plain ∧
                  reader.record plain = some value := by
            intro index other isOther
            rw [Nat.add_right_comm, Nat.add_assoc]
            exact opens (index + 1) other isOther
          obtain ⟨taken, isTaken, same⟩ := inductionHypothesis later
          refine ⟨⟨id, h, value⟩ :: taken, ?_, congrArg ((id, h) :: ·) same⟩
          have opening : reader.opening look body engine = (.opened plain, engine) := by
            unfold LogReader.opening
            rw [isOpened]
          rw [Nat.add_zero] at held
          simp only [resolve, held, opening, isValue, isTaken, Option.map_some]

/-- What was not passed over is applied whole by a later pull whose keys open it. -/
theorem taken_receive {log : Option Log} {received : Received Sealed Name}
    {ops : List (SyncOp Id (Datum Name Value))} {decoded : LogEngine Log Keys Id Value}
    (decodes : reader.decode look received.body engine = (.ops ops, decoded))
    (opens : ∀ index name, (blobs (ops.filter fun op => reader.carries op.id))[index]? = some name →
      ∃ body plain value, received.fetch index name = .held body ∧
        reader.openSealed decoded.keys body = .opened plain ∧ reader.record plain = some value)
    (applies : received.applies = true) :
    ∃ taken, (reader.receive look log received engine).1.taken = decoded.taken ++ taken ∧
      taken.map (fun op => (op.id, op.h)) =
        (ops.filter fun op => reader.carries op.id).map fun op => (op.id, op.h) := by
  have fetched : ∀ index name,
      (blobs (ops.filter fun op => reader.carries op.id))[index]? = some name →
      ∃ body plain value, received.fetch (0 + index) name = .held body ∧
        reader.openSealed decoded.keys body = .opened plain ∧ reader.record plain = some value := by
    simpa only [Nat.zero_add] using opens
  obtain ⟨taken, isTaken, same⟩ := @resolve_opened _ _ _ _ _ _ _ reader look decoded _ _ _ fetched
  refine ⟨taken, ?_, same⟩
  simp only [receive, decodes, isTaken, applies, if_true]

/-- Whether what breaks off ends the pull. -/
def Ends (reader : LogReader Keys Sealed Plain Id Name Value) (look : Look Keys)
    (pulled : Pulled Log Keys Sealed Id Name Value) : Prop :=
  ∀ met ∈ pulled.met, (reader.receive look met.log met.received met.before).2 = false →
    pulled.engine = (reader.receive look met.log met.received met.before).1 ∧
      pulled.goesOn = false

theorem ends_nil {goesOn : Bool} : reader.Ends look ⟨engine, [], goesOn⟩ := nofun

theorem ends_andThen {first : Pulled Log Keys Sealed Id Name Value}
    {next : LogEngine Log Keys Id Value → Pulled Log Keys Sealed Id Name Value}
    (ends : reader.Ends look first) (endsNext : ∀ engine, reader.Ends look (next engine)) :
    reader.Ends look (first.andThen next) := by
  intro met isMet breaks
  rw [Pulled.andThen] at isMet ⊢
  split at isMet
  next goesOn =>
      rw [if_pos goesOn]
      rcases List.mem_append.mp isMet with inFirst | inNext
      · rw [(ends met inFirst breaks).2] at goesOn
        cases goesOn
      · exact endsNext first.engine met inNext breaks
  next stops =>
      rw [if_neg stops]
      exact ends met isMet breaks

theorem ends_meet {log : Option Log} {received : Received Sealed Name} :
    reader.Ends look (reader.meet look log received engine) := by
  intro met isMet breaks
  obtain rfl := List.mem_singleton.mp isMet
  exact ⟨rfl, breaks⟩

theorem ends_readBatches {log : Option Log} {batches : List (Received Sealed Name)} :
    reader.Ends look (reader.readBatches look log batches engine) := by
  induction batches generalizing engine with
  | nil => exact ends_nil
  | cons received batches inductionHypothesis =>
      exact ends_andThen ends_meet fun after => inductionHypothesis

theorem ends_readPages {answers : List (PageAnswer Log Sealed Name)} :
    reader.Ends look (reader.readPages look answers engine) := by
  induction answers generalizing engine with
  | nil => exact ends_nil
  | cons answer answers inductionHypothesis =>
      cases answer with
      | failed => exact ends_nil
      | compacted log snapshot =>
          cases snapshot with
          | failed => exact ends_nil
          | missing =>
              rw [readPages]
              split
              next => exact ends_nil
              next => exact inductionHypothesis
          | held log received => exact ends_andThen ends_meet fun after => inductionHypothesis
      | page log batches more =>
          refine ends_andThen ends_readBatches fun after => ?_
          split
          next => exact inductionHypothesis
          next => exact ends_nil

theorem ends_of_mem_pulls [DecidableEq Log] {events : List (LogEvent Log Keys Sealed Name)}
    {pulled : Look Keys × Pulled Log Keys Sealed Id Name Value}
    (isPull : pulled ∈ reader.pulls events engine) : reader.Ends pulled.1 pulled.2 := by
  induction events generalizing engine with
  | nil => cases isPull
  | cons event events inductionHypothesis =>
      cases event with
      | pull look answers =>
          rcases List.mem_cons.mp isPull with rfl | later
          · exact ends_readPages
          · exact inductionHypothesis later
      | sent => exact inductionHypothesis isPull
      | rekeyed => exact inductionHypothesis isPull
      | forgotten => exact inductionHypothesis isPull

/-- What breaks off is kept. -/
theorem kept_iff [DecidableEq Log] {pulled : Pulled Log Keys Sealed Id Name Value}
    (ends : reader.Ends look pulled) (isMet : met ∈ pulled.met) :
    reader.Kept look met pulled ↔
      (reader.receive look met.log met.received met.before).2 = false := by
  refine ⟨Kept.unmoved, fun breaks => ?_⟩
  have same := samePlace_receive breaks
  rw [← (ends met isMet breaks).1] at same
  refine ⟨breaks, same.log, same.cursor, fun sent others before => ?_⟩
  rw [← same.cursor] at before
  exact LogEngine.cursor_sent_lt others before

/-- In every run: the cursor is not moved past what a look for a newer key that failed leaves
unopened, just when that is never a batch or a snapshot, and something else breaks off the
application of what has such a blob. -/
theorem cursor_kept_iff [DecidableEq Log] (reader : LogReader Keys Sealed Plain Id Name Value)
    (events : List (LogEvent Log Keys Sealed Name)) (engine : LogEngine Log Keys Id Value) :
    (∀ pulled ∈ reader.pulls events engine, ∀ met ∈ pulled.2.met,
      reader.LeftBody pulled.1 met ∨ reader.LeftBlob pulled.1 met →
        reader.Kept pulled.1 met pulled.2) ↔
    ∀ pulled ∈ reader.pulls events engine, ∀ met ∈ pulled.2.met,
      ¬ reader.LeftBody pulled.1 met ∧ (reader.LeftBlob pulled.1 met → reader.BrokenOff met) := by
  refine forall₂_congr fun pulled isPull => forall₂_congr fun met isMet => ?_
  rw [kept_iff (ends_of_mem_pulls isPull) isMet]
  have named (left : reader.LeftBlob pulled.1 met) : reader.metBlobs met ≠ [] := by
    obtain ⟨-, index, name, body, isName, -⟩ := left
    intro none
    rw [none] at isName
    cases isName
  constructor
  · intro kept
    refine ⟨fun left => ?_, fun left => ?_⟩
    · have passed := receive_of_leftBody left
      rw [kept (.inl left)] at passed
      cases passed
    · exact (receive_eq_false_iff (named left)).mp (kept (.inr left))
  · rintro ⟨notBody, brokenOff⟩ (leftBody | leftBlob)
    · exact absurd leftBody notBody
    · exact (receive_eq_false_iff (named leftBlob)).mpr (brokenOff leftBlob)

/-- An engine that holds key 1, where what is sealed to a key is the key. -/
def keyed : LogReader Nat Nat Unit Nat Nat Nat where
  openSealed := fun key body => if key = body then .opened () else .noKey
  document := fun _ => some ⟨some 1, some [⟨7, 1, .record 5⟩]⟩
  record := fun _ => some 5
  carries := fun _ => true

/-- It pulls a batch that is sealed to key 2, and cannot look for it. -/
def unlooked : LogEvent Nat Nat Nat Nat :=
  .pull .failed [.page (some 0) [⟨1, 2, fun _ _ => .gone, true⟩] false]

/-- The cursor is moved past it, with none of its ops applied. -/
theorem not_cursor_kept : keyed.openSealed 2 2 = .opened () ∧
    ¬ ∀ pulled ∈ keyed.pulls [unlooked]
        (⟨none, 0, false, 1, false, []⟩ : LogEngine Nat Nat Nat Nat), ∀ met ∈ pulled.2.met,
      keyed.LeftBody pulled.1 met ∨ keyed.LeftBlob pulled.1 met →
        keyed.Kept pulled.1 met pulled.2 := by
  refine ⟨rfl, fun kept => ?_⟩
  have isKept := kept _ List.mem_cons_self _ List.mem_cons_self (.inl ⟨rfl, rfl⟩)
  cases isKept.unmoved

end LogReader

end ServerBox.Sync
