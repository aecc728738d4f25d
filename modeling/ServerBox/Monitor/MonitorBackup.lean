import ServerBox.Std.System
import ServerBox.Std.TextLines
import Mathlib.Data.List.Sort

/-!
# Backups of the monitor's own settings

`src/monitor/src/monitor_backup/mod.rs`: monitors that put their backups and the key files
these are encrypted to in folders of WebDAV servers. A folder is the names of its files.
Each request to one and each write to a monitor's database is a step of its own, which may
be done, refused, or done and answered with an error; a monitor's tasks hold its lock from
their first step to their last. What the clock, the digest of the settings and the packing of
a backup come to is given with the events.
-/

namespace ServerBox.Monitor.MonitorBackup

open ServerBox.Std

/-! ### Names -/

def backupPrefix : String := "serverbox-monitor-"

def backupSuffix : String := ".tar.gz.age"

def keyPrefix : String := "serverbox-monitor-key-"

def keySuffix : String := ".age"

def partSuffix : String := ".part"

def isIdChar (char : Char) : Bool := char.isDigit || ('a' ≤ char && char ≤ 'f')

def isId (text : Text) : Bool := text.length = 8 && text.all isIdChar

/-- 8 lowercase hex digits: a key id or a monitor's instance. -/
structure Id where
  text : Text
  valid : isId text = true
deriving DecidableEq

/-- The times that are written with a year of four digits, in nanoseconds since 1970. -/
def fourDigits (time : Int) : Bool :=
  -62167219200000000000 ≤ time && time < 253402300800000000000

/-- `NAME_TIME` written and read, as far as a backup's name rests on it. -/
structure NameTime where
  write : Int → Text
  read : Text → Option Int
  read_write : ∀ time, fourDigits time = true → read (write time) = some (time - time % 1000000)
  write_plain : ∀ time, fourDigits time = true → '-' ∉ write time

/-- A key's public half. -/
abbrev Recipient := Nat

/-- The address and the credentials of a folder. -/
structure Target where
  url : Nat
  username : Nat
deriving DecidableEq

/-- What is outside the monitors: how times are written in names, the first digits of a
recipient's hash, and which folder a server gives to whom. -/
structure World where
  nameTime : NameTime
  keyId : Recipient → Id
  reaches : Target → Nat

def keyFile (monitor key : Id) : Text :=
  keyPrefix.toList ++ (monitor.text ++ '-' :: key.text) ++ keySuffix.toList

def backupFile (nameTime : NameTime) (monitor : Id) (time : Int) (key : Id) : Text :=
  backupPrefix.toList ++ (monitor.text ++ '-' :: (nameTime.write time ++ '-' :: key.text)) ++
    backupSuffix.toList

def partOf (name : Text) : Text := name ++ partSuffix.toList

/-- What a backup's file name says. -/
structure BackupName where
  monitor : Id
  time : Int
  key : Id
deriving DecidableEq

def readId (text : Text) : Option Id := if held : isId text = true then some ⟨text, held⟩ else none

def parseBackup (nameTime : NameTime) (name : Text) : Option BackupName := do
  let rest ← (Text.stripPrefix backupPrefix name).bind (Text.stripSuffix backupSuffix)
  let [monitor, time, key] := rest.splitOn '-' | none
  some ⟨← readId monitor, ← nameTime.read time, ← readId key⟩

def parseKeyFile (name : Text) : Option (Id × Id) := do
  let rest ← (Text.stripPrefix keyPrefix name).bind (Text.stripSuffix keySuffix)
  let (monitor, key) ← Text.splitOnce '-' rest
  some (← readId monitor, ← readId key)

/-! ### What a monitor stores -/

/-- The row of `monitor_backup`. -/
structure Row where
  monitor : Id
  target : Target
  enabled : Bool
  keep : Nat
  recipient : Option Recipient
  stableHash : Option Nat
  fullHash : Option Nat
  lastName : Option Text
  lastError : Bool
deriving DecidableEq

/-- What `set_settings` is asked for, its checks passed. -/
structure Settings where
  target : Target
  enabled : Bool
  keep : Nat
deriving DecidableEq

/-- The digest of the settings, and whether the last backup is a day old. -/
structure Digest where
  stable : Nat
  full : Nat
  dayOld : Bool
deriving DecidableEq

/-- The stored row that a task goes on with, and its key. -/
structure Stored where
  row : Row
  recipient : Recipient
deriving DecidableEq

/-- A check that reached the folder. -/
structure Check where
  digest : Digest
  /-- Nothing changed and none was asked for: the last backup may stay. -/
  unchanged : Bool
deriving DecidableEq

/-- How a check ended: a backup made, the folder asked again, an error. -/
inductive Result where
  | made (name : Text) (pruneFailed : Bool)
  | checked (pruneFailed : Bool)
  | failed
deriving DecidableEq

/-- An upload: under a temporary name, moved over the name, or cleaned up after an error. -/
inductive Stage where
  | part
  | move
  | clean
deriving DecidableEq

/-- What a task that holds a monitor's lock does next. -/
inductive Task where
  | settingsStores (stored : Option Row) (next : Settings)
  | removes
  | keyLists (stored : Stored)
  | keyMakesFolder (stored : Stored)
  | keyPuts (stored : Stored) (stage : Stage)
  | keyStores (stored : Stored)
  | backupLists (stored : Stored) (check : Check)
  | backupPacks (stored : Stored) (check : Check)
  | backupPuts (stored : Stored) (check : Check) (time : Int) (stage : Stage)
  | backupRelists (stored : Stored) (check : Check) (time : Int)
  /-- Deletes the old backups, then what else goes (true: an error of it is let go). -/
  | prunes (stored : Stored) (check : Check) (made : Option Int) (old : List Text)
      (rest : List (Text × Bool))
  | records (check : Check) (result : Result)
deriving DecidableEq

structure Agent where
  row : Option Row
  task : Option Task
  pruneDue : Bool
deriving DecidableEq

/-- A backup file that was put in a folder. -/
structure Made where
  folder : Nat
  monitor : Id
  time : Int
  key : Id
deriving DecidableEq

structure State where
  monitors : List Agent
  folders : Nat → List Text
  /-- The backups that were ever put in a folder. -/
  made : List Made
  /-- Which instance's monitor deleted which name. -/
  deleted : List (Id × Text)

/-! ### What is deleted -/

/-- This monitor's backups in the listing, the oldest first. -/
def ownBackups (nameTime : NameTime) (listed : List Text) (monitor : Id) :
    List (BackupName × Text) :=
  (listed.filterMap fun name =>
    ((parseBackup nameTime name).filter fun backup => backup.monitor = monitor).map
      fun backup => (backup, name)).mergeSort fun one other => one.1.time ≤ other.1.time

/-- How many of the oldest go. -/
def cut (count keep : Nat) : Nat := count - max keep 1

def oldBackups (nameTime : NameTime) (listed : List Text) (keep : Nat) (monitor : Id) :
    List Text :=
  let mine := ownBackups nameTime listed monitor
  (mine.take (cut mine.length keep)).map Prod.snd

/-- The keys of the backups that stay. -/
def usedKeys (nameTime : NameTime) (listed : List Text) (keep : Nat) (monitor : Id) : List Id :=
  let mine := ownBackups nameTime listed monitor
  (mine.drop (cut mine.length keep)).map fun backup => backup.1.key

/-- Whether a listed name is a key file that none of the kept backups is made with. -/
def isUnused (monitor currentKey : Id) (used : List Id) (name : Text) : Bool :=
  (parseKeyFile name).any fun (owner, key) =>
    owner = monitor && key ≠ currentKey && key ∉ used

/-- Whether a listed name is an upload of this monitor that was cut short. -/
def isPart (monitor : Id) (name : Text) : Bool :=
  (backupPrefix.toList ++ (monitor.text ++ ['-'])).isPrefixOf name &&
    partSuffix.toList.isSuffixOf name

def otherDeletes (nameTime : NameTime) (listed : List Text) (keep : Nat) (monitor currentKey : Id) :
    List (Text × Bool) :=
  let used := usedKeys nameTime listed keep monitor
  listed.flatMap fun name =>
    (if isUnused monitor currentKey used name then [(name, false)] else []) ++
      if isPart monitor name then [(name, true)] else []

/-! ### Steps -/

/-- How a request or a write goes: an error may come after it was done. -/
inductive Outcome where
  | done
  | refused
  | lost
deriving DecidableEq

def Outcome.applied : Outcome → Bool
  | .done | .lost => true
  | .refused => false

/-- What a listing of a folder answers. -/
inductive Listing where
  | names
  | missing
  | failed
deriving DecidableEq

namespace State

/-- A monitor whose task goes on, or is over. -/
def goOn (state : State) (index : Nat) (monitor : Agent) (task : Option Task) : State :=
  { state with monitors := state.monitors.set index { monitor with task } }

def putName (state : State) (folder : Nat) (name : Text) : State :=
  { state with
    folders := Function.update state.folders folder ((state.folders folder).insert name) }

def deleteName (state : State) (folder : Nat) (name : Text) : State :=
  { state with
    folders := Function.update state.folders folder
      ((state.folders folder).filter fun other => other ≠ name) }

/-- A delete asked for by the monitor of an instance. -/
def delete (state : State) (monitor : Id) (folder : Nat) (name : Text) (outcome : Outcome) :
    State :=
  if outcome.applied then
    { state.deleteName folder name with deleted := (monitor, name) :: state.deleted }
  else state

/-- An uploaded file moved over its name. -/
def move (state : State) (folder : Nat) (name : Text) (outcome : Outcome) : State :=
  if outcome.applied then (state.deleteName folder (partOf name)).putName folder name else state

/-- A backup moved over its name. -/
def moveBackup (world : World) (state : State) (made : Made) (outcome : Outcome) : State :=
  let moved := state.move made.folder (backupFile world.nameTime made.monitor made.time made.key)
    outcome
  if outcome.applied then { moved with made := made :: state.made } else moved

end State

section

variable (world : World)

def Stored.folder (stored : Stored) : Nat := world.reaches stored.row.target

def Stored.key (stored : Stored) : Id := world.keyId stored.recipient

def Stored.keyFile (stored : Stored) : Text :=
  MonitorBackup.keyFile stored.row.monitor (stored.key world)

def Stored.backupFile (stored : Stored) (time : Int) : Text :=
  MonitorBackup.backupFile world.nameTime stored.row.monitor time (stored.key world)

/-- The deletes of `prune` over a listing. -/
def prune (stored : Stored) (check : Check) (made : Option Int) (listed : List Text) : Task :=
  .prunes stored check made
    (oldBackups world.nameTime listed stored.row.keep stored.row.monitor)
    (otherDeletes world.nameTime listed stored.row.keep stored.row.monitor (stored.key world))

/-- What a prune that ended comes to. -/
def pruned (stored : Stored) (made : Option Int) (failed : Bool) : Result :=
  match made with
  | some time => .made (stored.backupFile world time) failed
  | none => .checked failed

end

/-- The row written by `set_settings`: another folder starts over. -/
def settingsRow (row : Row) (next : Settings) (sameFolder : Bool) : Row :=
  if sameFolder then
    { row with target := next.target, enabled := next.enabled, keep := next.keep }
  else ⟨row.monitor, next.target, next.enabled, next.keep, none, none, none, none, false⟩

def recordRow (row : Row) (digest : Digest) : Result → Row
  | .made name failed =>
      { row with
        stableHash := some digest.stable
        fullHash := some digest.full
        lastName := some name
        lastError := failed }
  | .checked failed => { row with lastError := failed }
  | .failed => { row with lastError := true }

/-- How `make` begins: nothing to do, or the folder is asked. -/
def make (stored : Stored) (digest : Digest) (force pruneDue : Bool) : Option Task :=
  let unchanged := stored.row.stableHash = some digest.stable &&
    (stored.row.fullHash = some digest.full || !digest.dayOld)
  if unchanged && !force && !stored.row.lastError && !pruneDue then none
  else some (.backupLists stored ⟨digest, unchanged && !force⟩)

inductive Event where
  | setSettings (index : Nat) (next : Settings)
  | removeSettings (index : Nat)
  | setKey (index : Nat) (recipient : Recipient)
  | backUp (index : Nat) (digest : Digest) (force : Bool)
  /-- The command line's, outside the lock. -/
  | adopt (index : Nat) (target : Target) (monitor : Id) (recipient : Recipient)
  /-- A write to the database, with the instance that a first `set_settings` would take. -/
  | store (index : Nat) (fresh : Id) (outcome : Outcome)
  | list (index : Nat) (listing : Listing)
  | makeFolder (index : Nat) (outcome : Outcome)
  | pack (index : Nat) (time : Option Int)
  | request (index : Nat) (outcome : Outcome)
  /-- A task that is dropped, or ends with an error before its next request. -/
  | stop (index : Nat)

/-- Whether no monitor has this instance. -/
def State.isFree (state : State) (monitor : Id) : Bool :=
  state.monitors.all fun other => other.row.all fun row => row.monitor ≠ monitor

/-- A task of a monitor whose lock is free begins. -/
def begin (state : State) (index : Nat) (monitor : Agent) : Event → Option State
  | .setSettings _ next =>
      some (state.goOn index monitor (some (.settingsStores monitor.row next)))
  | .removeSettings _ => some (state.goOn index monitor (some .removes))
  | .setKey _ recipient =>
      monitor.row.map fun row => state.goOn index monitor (some (.keyLists ⟨row, recipient⟩))
  | .backUp _ digest force => do
      let row ← monitor.row
      let recipient ← row.recipient
      guard row.enabled
      some (state.goOn index { monitor with pruneDue := false }
        (make ⟨row, recipient⟩ digest force monitor.pruneDue))
  | _ => none

/-- A write to a monitor's database; what follows an error of one ends the task. -/
def store (state : State) (index : Nat) (monitor : Agent) (fresh : Id) (outcome : Outcome) :
    Task → Option State
  | .settingsStores stored next => do
      let sameFolder := stored.any fun row => row.target.url = next.target.url
      guard (monitor.row.isSome || state.isFree fresh)
      let row :=
        match monitor.row with
        | some row => settingsRow row next sameFolder
        | none => ⟨fresh, next.target, next.enabled, next.keep, none, none, none, none, false⟩
      let lower := sameFolder && stored.any fun row => next.keep < row.keep
      if outcome.applied then
        some (state.goOn index
          { monitor with
            row := some row
            pruneDue := monitor.pruneDue || (outcome = .done && lower) }
          none)
      else some (state.goOn index monitor none)
  | .removes =>
      some (state.goOn index
        { monitor with row := if outcome.applied then none else monitor.row } none)
  | .keyStores stored =>
      some (state.goOn index
        { monitor with
          row :=
            if outcome.applied then
              monitor.row.map fun row =>
                { row with
                  recipient := some stored.recipient
                  stableHash := none
                  fullHash := none }
            else monitor.row } none)
  | .records check result =>
      some (state.goOn index
        { monitor with
          row :=
            if outcome.applied then monitor.row.map fun row => recordRow row check.digest result
            else monitor.row } none)
  | _ => none

/-- A folder's files listed, and what the task decides from them. -/
def list (world : World) (state : State) (index : Nat) (monitor : Agent) (listing : Listing) :
    Task → Option State
  | .keyLists stored =>
      some (state.goOn index monitor
        (match listing with
        | .names => some (.keyPuts stored .part)
        | .missing => some (.keyMakesFolder stored)
        | .failed => none))
  | .backupLists stored check =>
      let listed := state.folders (stored.folder world)
      some (state.goOn index monitor
        (match listing with
        | .names =>
            if check.unchanged && stored.row.lastName.any fun name => name ∈ listed then
              some (prune world stored check none listed)
            else if stored.keyFile world ∉ listed then some (.records check .failed)
            else some (.backupPacks stored check)
        | _ => some (.records check .failed)))
  | .backupRelists stored check time =>
      let listed := state.folders (stored.folder world)
      some (state.goOn index monitor
        (match listing with
        | .names =>
            if stored.backupFile world time ∉ listed then some (.records check .failed)
            else some (prune world stored check (some time) listed)
        | _ => some (.records check .failed)))
  | _ => none

/-- A request that changes a folder: an upload's three, and the deletes of `prune`. -/
def request (world : World) (state : State) (index : Nat) (monitor : Agent)
    (outcome : Outcome) : Task → Option State
  | .keyPuts stored stage =>
      let folder := stored.folder world
      let name := stored.keyFile world
      match stage with
      | .part =>
          let put := if outcome.applied then state.putName folder (partOf name) else state
          some (put.goOn index monitor
            (some (.keyPuts stored (if outcome = .done then .move else .clean))))
      | .move =>
          some ((state.move folder name outcome).goOn index monitor
            (some (if outcome = .done then .keyStores stored else .keyPuts stored .clean)))
      | .clean =>
          some ((state.delete stored.row.monitor folder (partOf name) outcome).goOn index monitor
            none)
  | .backupPuts stored check time stage =>
      let folder := stored.folder world
      let name := stored.backupFile world time
      match stage with
      | .part =>
          let put := if outcome.applied then state.putName folder (partOf name) else state
          some (put.goOn index monitor
            (some (.backupPuts stored check time (if outcome = .done then .move else .clean))))
      | .move =>
          let made := ⟨folder, stored.row.monitor, time, stored.key world⟩
          some ((state.moveBackup world made outcome).goOn index monitor
            (some (if outcome = .done then .backupRelists stored check time
              else .backupPuts stored check time .clean)))
      | .clean =>
          some ((state.delete stored.row.monitor folder (partOf name) outcome).goOn index monitor
            (some (.records check .failed)))
  | .prunes stored check made (name :: old) rest =>
      let deleted := state.delete stored.row.monitor (stored.folder world) name outcome
      some (deleted.goOn index monitor
        (some (if outcome = .done then .prunes stored check made old rest
          else .records check (pruned world stored made true))))
  | .prunes stored check made [] ((name, lets) :: rest) =>
      let deleted := state.delete stored.row.monitor (stored.folder world) name outcome
      some (deleted.goOn index monitor
        (some (if lets || outcome = .done then .prunes stored check made [] rest
          else .records check (pruned world stored made true))))
  | .prunes stored check made [] [] =>
      some (state.goOn index monitor (some (.records check (pruned world stored made false))))
  | _ => none

/-- A backup packed and encrypted, at a time of the clock with a year of four digits, or an
error of it. -/
def pack (state : State) (index : Nat) (monitor : Agent) (time : Option Int) :
    Task → Option State
  | .backupPacks stored check =>
      match time with
      | some time =>
          if fourDigits time then
            some (state.goOn index monitor (some (.backupPuts stored check time .part)))
          else none
      | none => some (state.goOn index monitor (some (.records check .failed)))
  | _ => none

def Event.index : Event → Nat
  | .setSettings index _ | .removeSettings index | .setKey index _ | .backUp index _ _
  | .adopt index _ _ _ | .store index _ _ | .list index _ | .makeFolder index _ | .pack index _
  | .request index _ | .stop index => index

/-- A step of the task that holds the lock. -/
def runTask (world : World) (state : State) (index : Nat) (monitor : Agent) (task : Task) :
    Event → Option State
  | .store _ fresh outcome => store state index monitor fresh outcome task
  | .list _ listing => list world state index monitor listing task
  | .makeFolder _ outcome =>
      match task with
      | .keyMakesFolder stored =>
          some (state.goOn index monitor
            (if outcome = .done then some (.keyPuts stored .part) else none))
      | _ => none
  | .pack _ time => pack state index monitor time task
  | .request _ outcome => request world state index monitor outcome task
  | .stop _ => some (state.goOn index monitor none)
  | _ => none

def adopt (state : State) (index : Nat) (monitor : Agent) (target : Target) (id : Id)
    (recipient : Recipient) : Option State :=
  if monitor.row.isSome then some state
  else if state.isFree id then
    -- The column defaults: enabled, and ten kept.
    some { state with
      monitors := state.monitors.set index
        { monitor with
          row := some ⟨id, target, true, 10, some recipient, none, none, none, false⟩ } }
  else none

def next (world : World) (state : State) (event : Event) : Option State := do
  let monitor ← state.monitors[event.index]?
  match event, monitor.task with
  | .adopt index target id recipient, _ => adopt state index monitor target id recipient
  | event, some task => runTask world state event.index monitor task event
  | event, none => begin state event.index monitor event

/-- Monitors of distinct instances with nothing under way, and folders that hold anything. -/
structure Initial (state : State) : Prop where
  distinct : state.monitors.Pairwise fun one other =>
    ∀ a ∈ one.row, ∀ b ∈ other.row, a.monitor ≠ b.monitor
  tasks : ∀ monitor ∈ state.monitors, monitor.task = none
  made : state.made = []
  deleted : state.deleted = []

def monitors (world : World) : System State Event := System.ofNext Initial (next world)

end ServerBox.Monitor.MonitorBackup
