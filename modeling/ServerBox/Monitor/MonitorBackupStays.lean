import ServerBox.Monitor.MonitorBackupKeys
import ServerBox.Std.StableSort

/-!
# A backup that was just made

`make` and `prune` of `src/monitor/src/monitor_backup/mod.rs`, with listings in any order. The
prune after an upload goes by the times in the names: where the clock was set back it takes the
backup that it came after (`not_madeStays_setBack`). The backup stays in every run in which,
at each such prune, fewer backups than are kept come behind the new one
(`madeStays_of_reached`).
-/

namespace ServerBox.Monitor.MonitorBackup

open ServerBox.Std

/-! ### Listings in any order -/

inductive Move where
  | event (event : Event)
  /-- The folder's next listing has its names in another order. -/
  | reorder (folder : Nat) (names : List Text)

def move (world : World) (state : State) : Move → Option State
  | .event event => next world state event
  | .reorder folder names =>
      if names.isPerm (state.folders folder) then
        some { state with folders := Function.update state.folders folder names }
      else none

def anyOrder (world : World) : System State Move := System.ofNext Initial (move world)

/-! ### The property -/

/-- A backup of a row's monitor is in the row's folder, and the key file it is made with. -/
structure Kept (world : World) (state : State) (row : Row) (recipient : Recipient) (time : Int) :
    Prop where
  backup : backupFile world.nameTime row.monitor time (world.keyId recipient) ∈
    state.folders (world.reaches row.target)
  key : keyFile row.monitor (world.keyId recipient) ∈ state.folders (world.reaches row.target)

/-- A check about to record a backup as made recorded one that is there. -/
def MadeStays (world : World) (state : State) : Prop :=
  ∀ agent ∈ state.monitors, ∀ check name failed,
    agent.task = some (.records check (.made name failed)) →
      ∃ row ∈ agent.row, ∃ recipient ∈ row.recipient, ∃ time,
        name = backupFile world.nameTime row.monitor time (world.keyId recipient) ∧
          Kept world state row recipient time

/-! ### The prune -/

/-- This monitor's backups as they are listed, before they are put in order. -/
def listedBackups (nameTime : NameTime) (listed : List Text) (monitor : Id) :
    List (BackupName × Text) :=
  listed.filterMap fun name =>
    ((parseBackup nameTime name).filter fun backup => backup.monitor = monitor).map
      fun backup => (backup, name)

theorem ownBackups_eq (nameTime : NameTime) (listed : List Text) (monitor : Id) :
    ownBackups nameTime listed monitor =
      sortBy (fun backup => backup.1.time) (listedBackups nameTime listed monitor) := rfl

/-- What the name of a backup that is made says. -/
def Stored.backupName (world : World) (stored : Stored) (time : Int) : BackupName :=
  ⟨stored.row.monitor, time - time % 1000000, stored.key world⟩

/-- Whether fewer backups than are kept come behind the one made at a time. -/
def isNewest (world : World) (stored : Stored) (time : Int) (listed : List Text) : Bool :=
  behind (fun backup => backup.1.time) (listedBackups world.nameTime listed stored.row.monitor)
    (stored.backupName world time, stored.backupFile world time) < max stored.row.keep 1

/-- A prune deletes the backup that was just made when it is not among the newest. -/
theorem mem_oldBackups_iff {world : World} {stored : Stored} {time : Int} {listed : List Text}
    (digits : fourDigits time = true) (present : stored.backupFile world time ∈ listed) :
    stored.backupFile world time ∈
        oldBackups world.nameTime listed stored.row.keep stored.row.monitor ↔
      isNewest world stored time listed = false := by
  have parsed : parseBackup world.nameTime (stored.backupFile world time) =
      some (stored.backupName world time) := parseBackup_backupFile _ digits _
  have isListed : (stored.backupName world time, stored.backupFile world time) ∈
      listedBackups world.nameTime listed stored.row.monitor := by
    have own := mem_ownBackups.mpr ⟨present, parsed, rfl⟩
    rw [ownBackups_eq] at own
    exact (sortBy_perm _ _).mem_iff.mp own
  rw [isNewest, decide_eq_false_iff_not, Nat.not_lt, ← mem_take_sortBy_iff _ isListed,
    ← ownBackups_eq]
  constructor
  · intro old
    obtain ⟨⟨backup, name⟩, taken, same⟩ := List.mem_map.mp old
    obtain rfl : name = stored.backupFile world time := same
    obtain ⟨-, again, -⟩ := mem_ownBackups.mp (List.mem_of_mem_take taken)
    obtain rfl := Option.some.inj (again.symm.trans parsed)
    exact taken
  · intro taken
    exact List.mem_map.mpr ⟨_, taken, rfl⟩

theorem not_mem_otherDeletes {world : World} {stored : Stored} {time : Int} {listed : List Text}
    (digits : fourDigits time = true) :
    stored.backupFile world time ∉ (otherDeletes world.nameTime listed stored.row.keep
      stored.row.monitor (stored.key world)).map Prod.fst := by
  intro held
  rcases of_mem_otherDeletes held with part | ⟨key, same, -⟩
  · simp only [isPart, Bool.and_eq_true, List.isSuffixOf_iff_suffix] at part
    obtain ⟨front, same⟩ := part.2
    exact partOf_ne_backupFile front _ _ _ same
  · have parsed : parseBackup world.nameTime (stored.backupFile world time) = _ :=
      parseBackup_backupFile stored.row.monitor digits (stored.key world)
    rw [same, parseBackup_keyFile] at parsed
    cases parsed

/-! ### The invariant -/

def Stored.madeOf (world : World) (stored : Stored) (time : Int) : Made :=
  ⟨stored.folder world, stored.row.monitor, time, stored.key world⟩

/-- The stored row that a check which reached the folder goes by. -/
def Task.backsUp : Task → Option Stored
  | .backupLists stored _ | .backupPacks stored _ | .backupPuts stored _ _ _
  | .backupRelists stored _ _ | .prunes stored _ _ _ _ => some stored
  | _ => none

/-- The backup that a check has uploaded. -/
def Task.uploaded : Task → Option (Stored × Int)
  | .backupRelists stored _ time | .prunes stored _ (some time) _ _ => some (stored, time)
  | _ => none

/-- A monitor's own backup, in its folder. -/
structure Placed (world : World) (state : State) (stored : Stored) (time : Int) : Prop where
  made : stored.madeOf world time ∈ state.made
  backup : stored.backupFile world time ∈ state.folders (stored.folder world)

/-- What a check that is under way may rely on besides: its row is the monitor's, and the
backup that it uploaded is none that its prune deletes. -/
structure Sure (world : World) (state : State) (agent : Agent) (task : Task) : Prop where
  row : ∀ stored ∈ task.backsUp,
    agent.row = some stored.row ∧ stored.row.recipient = some stored.recipient
  made : ∀ uploaded ∈ task.uploaded, uploaded.1.madeOf world uploaded.2 ∈ state.made
  stays : ∀ stored check time old rest, task = .prunes stored check (some time) old rest →
    stored.backupFile world time ∈ state.folders (stored.folder world) ∧
      stored.backupFile world time ∉ old ++ rest.map Prod.fst
  recorded : ∀ check name failed, task = .records check (.made name failed) →
    ∃ stored time, agent.row = some stored.row ∧ stored.row.recipient = some stored.recipient ∧
      name = stored.backupFile world time ∧ Placed world state stored time

/-- A task of which nothing more is relied on. -/
def Task.isPlain : Task → Bool
  | .settingsStores _ _ | .removes | .keyLists _ | .keyMakesFolder _ | .keyPuts _ _
  | .keyStores _ => true
  | .records _ (.made _ _) => false
  | .records _ _ => true
  | _ => false

section

variable {world : World} {state middle : State} {agent : Agent} {index : Nat}

theorem Sure.plain {task : Task} (plain : task.isPlain = true) : Sure world state agent task := by
  cases task with
  | records check result =>
      cases result with
      | made _ _ => cases plain
      | _ => exact ⟨nofun, nofun, nofun, nofun⟩
  | settingsStores _ _ | removes | keyLists _ | keyMakesFolder _ | keyPuts _ _ | keyStores _ =>
      exact ⟨nofun, nofun, nofun, nofun⟩
  | _ => cases plain

/-- A check before its upload. -/
theorem Sure.before {task : Task} {stored : Stored} (isTask : task.backsUp = some stored)
    (none : task.uploaded = none)
    (row : agent.row = some stored.row ∧ stored.row.recipient = some stored.recipient) :
    Sure world state agent task := by
  refine ⟨fun each isStored => ?_, ?_, ?_, ?_⟩
  · obtain rfl := Option.some.inj (isTask.symm.trans isStored)
    exact row
  · rw [none]
    nofun
  · rintro _ _ _ _ _ rfl
    cases none
  · rintro _ _ _ rfl
    cases isTask

/-- Folders in which a monitor's own backups stay. -/
structure Grows (agent : Agent) (state middle : State) : Prop where
  changes : Changes agent state middle
  made : ∀ made ∈ state.made, made ∈ middle.made

theorem Grows.none (agent : Agent) (state : State) : Grows agent state state :=
  ⟨Changes.none agent state, fun _ => id⟩

/-- The same files in the folders, in any order. -/
structure Alike (state middle : State) : Prop where
  made : middle.made = state.made
  folders : ∀ folder name, name ∈ middle.folders folder ↔ name ∈ state.folders folder

theorem Placed.of_alike {stored : Stored} {time : Int} (placed : Placed world state stored time)
    (alike : Alike state middle) : Placed world middle stored time where
  made := alike.made ▸ placed.made
  backup := (alike.folders _ _).mpr placed.backup

theorem Sure.of_alike {task : Task} (sure : Sure world state agent task)
    (alike : Alike state middle) : Sure world middle agent task where
  row := sure.row
  made uploaded isUploaded := alike.made ▸ sure.made uploaded isUploaded
  stays stored check time old rest isPrune := by
    obtain ⟨present, spared⟩ := sure.stays stored check time old rest isPrune
    exact ⟨(alike.folders _ _).mpr present, spared⟩
  recorded check name failed isRecord := by
    obtain ⟨stored, time, row, recipient, named, placed⟩ := sure.recorded check name failed isRecord
    exact ⟨stored, time, row, recipient, named, placed.of_alike alike⟩

/-- What another monitor does takes no backup of this one. -/
theorem Grows.mem_folders {other : Agent} {stored : Stored} {time : Int}
    (grows : Grows agent state middle) (apart : Apart agent other)
    (isRow : other.row = some stored.row)
    (present : stored.backupFile world time ∈ state.folders (stored.folder world)) :
    stored.backupFile world time ∈ middle.folders (stored.folder world) := by
  rcases grows.changes.losses _ _ present with stays | ⟨row, ofAgent, owner⟩
  · exact stays
  · have equal : stored.row.monitor.text = row.monitor.text :=
      Option.some.inj ((ownerOf_backupFile _ _ _).symm.trans owner)
    exact absurd (text_injective equal).symm (apart row ofAgent stored.row isRow)

theorem Sure.of_grows {other : Agent} {task : Task} (sure : Sure world state other task)
    (grows : Grows agent state middle) (apart : Apart agent other) :
    Sure world middle other task where
  row := sure.row
  made uploaded isUploaded := grows.made _ (sure.made uploaded isUploaded)
  stays stored check time old rest isPrune := by
    obtain ⟨present, spared⟩ := sure.stays stored check time old rest isPrune
    have isRow := (sure.row stored (by rw [isPrune]; rfl)).1
    exact ⟨grows.mem_folders apart isRow present, spared⟩
  recorded check name failed isRecord := by
    obtain ⟨stored, time, row, recipient, named, placed⟩ := sure.recorded check name failed isRecord
    exact ⟨stored, time, row, recipient, named, grows.made _ placed.made,
      grows.mem_folders apart row placed.backup⟩

def AllSure (world : World) (state : State) : Prop :=
  ∀ agent ∈ state.monitors, ∀ task ∈ agent.task, Sure world state agent task

/-- One monitor's step: the others may rely on what they did. -/
theorem AllSure.update (all : AllSure world state) (inv : Inv world state)
    (isAgent : state.monitors[index]? = some agent) (grows : Grows agent state middle)
    {after : Agent} (own : ∀ task ∈ after.task, Sure world middle after task) :
    AllSure world { middle with monitors := middle.monitors.set index after } := by
  intro other isOther task isTask
  obtain ⟨position, atPosition⟩ := List.mem_iff_getElem?.mp isOther
  simp only [grows.changes.monitors, List.getElem?_set] at atPosition
  split at atPosition
  · split at atPosition
    · cases atPosition
      exact (own task isTask).of_alike ⟨rfl, fun _ _ => Iff.rfl⟩
    · cases atPosition
  next differs =>
    have before := all other (List.mem_of_getElem? atPosition) task isTask
    have apart := inv.distinct index position agent other differs isAgent atPosition
    exact (before.of_grows grows apart).of_alike ⟨rfl, fun _ _ => Iff.rfl⟩

/-- The monitor's row stays, the task goes on. -/
theorem AllSure.goOn (all : AllSure world state) (inv : Inv world state)
    (isAgent : state.monitors[index]? = some agent) (grows : Grows agent state middle)
    {goesOn : Option Task} (own : ∀ task ∈ goesOn, Sure world middle agent task) :
    AllSure world (middle.goOn index agent goesOn) :=
  all.update inv isAgent grows fun task isTask =>
    have sure := own task isTask
    ⟨sure.row, sure.made, sure.stays, sure.recorded⟩

/-- The same where the folders stay as they are. -/
theorem AllSure.stay (all : AllSure world state) (inv : Inv world state)
    (isAgent : state.monitors[index]? = some agent) {goesOn : Option Task}
    (own : ∀ task ∈ goesOn, Sure world state agent task) :
    AllSure world (state.goOn index agent goesOn) :=
  all.goOn inv isAgent (Grows.none agent state) own

/-! ### The steps of a task -/

theorem allSure_list {task : Task} {listing : Listing} {after : State} (all : AllSure world state)
    (inv : Inv world state) (isAgent : state.monitors[index]? = some agent)
    (sure : Sure world state agent task)
    (keeps : ∀ stored check time, task = .backupRelists stored check time → listing = .names →
      stored.backupFile world time ∈ state.folders (stored.folder world) →
        isNewest world stored time (state.folders (stored.folder world)) = true)
    (leads : list world state index agent listing task = some after) : AllSure world after := by
  cases task with
  | keyLists stored =>
      cases leads
      refine all.stay inv isAgent fun next isNext => Sure.plain ?_
      cases listing <;> cases isNext <;> rfl
  | backupLists stored check =>
      have row := sure.row stored rfl
      cases leads
      refine all.stay inv isAgent fun next isNext => ?_
      cases listing with
      | names =>
          dsimp only at isNext
          split at isNext
          · cases isNext
            exact Sure.before rfl rfl row
          · split at isNext
            · cases isNext
              exact Sure.plain rfl
            · cases isNext
              exact Sure.before rfl rfl row
      | _ =>
          cases isNext
          exact Sure.plain rfl
  | backupRelists stored check time =>
      have row := sure.row stored rfl
      have made := sure.made (stored, time) rfl
      cases leads
      refine all.stay inv isAgent fun next isNext => ?_
      cases listing with
      | names =>
          dsimp only at isNext
          split at isNext
          · cases isNext
            exact Sure.plain rfl
          next listed =>
            cases isNext
            have present := not_not.mp listed
            have digits : fourDigits time = true := inv.folders.times _ made
            have newest := keeps stored check time rfl rfl present
            refine ⟨fun each isStored => ?_, fun uploaded isUploaded => ?_,
              fun each _ at_ old rest isPrune => ?_, nofun⟩
            · obtain rfl := Option.some.inj isStored
              exact row
            · obtain rfl := Option.some.inj isUploaded
              exact made
            · cases isPrune
              refine ⟨present, fun held => ?_⟩
              rcases List.mem_append.mp held with isOld | isRest
              · rw [(mem_oldBackups_iff digits present).mp isOld] at newest
                cases newest
              · exact not_mem_otherDeletes digits isRest
      | _ =>
          cases isNext
          exact Sure.plain rfl
  | _ => cases leads

/-- A check whose prune is over records a backup that is there. -/
theorem sure_pruned {stored : Stored} {check : Check} {made : Option Int} (failed : Bool)
    (row : agent.row = some stored.row ∧ stored.row.recipient = some stored.recipient)
    (placed : ∀ time ∈ made, Placed world state stored time) :
    Sure world state agent (.records check (pruned world stored made failed)) := by
  cases made with
  | none => exact Sure.plain rfl
  | some time =>
      refine ⟨nofun, nofun, nofun, fun _ name _ isRecord => ?_⟩
      cases isRecord
      exact ⟨stored, time, row.1, row.2, rfl, placed time rfl⟩

/-- A backup that a prune is not to delete is there for as long as it runs. -/
theorem Sure.placed {stored : Stored} {check : Check} {made : Option Int} {old : List Text}
    {rest : List (Text × Bool)} (sure : Sure world state agent (.prunes stored check made old rest)) :
    ∀ time ∈ made, Placed world state stored time := by
  intro time isMade
  obtain rfl := Option.mem_def.mp isMade
  exact ⟨sure.made (stored, time) rfl, (sure.stays stored check time old rest rfl).1⟩

theorem made_delete {monitor : Id} {folder : Nat} {name : Text} {outcome : Outcome} :
    (state.delete monitor folder name outcome).made = state.made := by
  unfold State.delete
  split <;> rfl

theorem made_move {folder : Nat} {name : Text} {outcome : Outcome} :
    (state.move folder name outcome).made = state.made := by
  unfold State.move
  split <;> rfl

theorem Grows.of_made (changes : Changes agent state middle) (same : middle.made = state.made) :
    Grows agent state middle :=
  ⟨changes, fun _ isMade => same ▸ isMade⟩

/-- A delete of a prune leaves the backup that was uploaded. -/
theorem Sure.delete {stored : Stored} {check : Check} {made : Option Int} {old left : List Text}
    {rest later : List (Text × Bool)} {name : Text} {outcome : Outcome} (goesOn : Prop)
    [Decidable goesOn] (sure : Sure world state agent (.prunes stored check made old rest))
    (held : name ∈ old ++ rest.map Prod.fst)
    (fewer : ∀ other ∈ left ++ later.map Prod.fst, other ∈ old ++ rest.map Prod.fst) :
    Sure world (state.delete stored.row.monitor (stored.folder world) name outcome) agent
      (if goesOn then .prunes stored check made left later
        else .records check (pruned world stored made true)) := by
  have row := sure.row stored rfl
  have spared : ∀ time ∈ made,
      stored.backupFile world time ∉ old ++ rest.map Prod.fst := by
    intro time isMade
    obtain rfl := Option.mem_def.mp isMade
    exact (sure.stays stored check time old rest rfl).2
  have placed : ∀ time ∈ made, Placed world
      (state.delete stored.row.monitor (stored.folder world) name outcome) stored time := by
    intro time isMade
    have before := sure.placed time isMade
    refine ⟨?_, ?_⟩
    · rw [made_delete]
      exact before.made
    unfold State.delete
    split
    · refine mem_deleteName.mpr ⟨before.backup, fun gone => spared time isMade ?_⟩
      exact gone.2 ▸ held
    · exact before.backup
  split
  · refine ⟨fun each isStored => ?_, fun uploaded isUploaded => ?_,
      fun each _ time _ _ isPrune => ?_, nofun⟩
    · obtain rfl := Option.some.inj isStored
      exact row
    · cases made with
      | none => cases isUploaded
      | some time =>
          obtain rfl := Option.some.inj isUploaded
          exact (placed time rfl).made
    · cases isPrune
      exact ⟨(placed time rfl).backup, fun isLeft => spared time rfl (fewer _ isLeft)⟩
  · exact sure_pruned true row placed

theorem allSure_request {task : Task} {outcome : Outcome} {after : State}
    (all : AllSure world state) (inv : Inv world state)
    (isAgent : state.monitors[index]? = some agent) (sound : Sound world state agent task)
    (sure : Sure world state agent task)
    (leads : request world state index agent outcome task = some after) : AllSure world after := by
  cases task with
  | keyPuts stored stage =>
      obtain ⟨row, isRow, same⟩ := sound.same stored rfl
      have own : ownerOf (stored.keyFile world) = some row.monitor.text := by
        rw [stored.ownerOf_keyFile, same]
      have ownPart : ownerOf (partOf (stored.keyFile world)) = some row.monitor.text := by
        rw [stored.ownerOf_partOf_keyFile, same]
      cases stage with
      | part =>
          cases leads
          refine all.goOn inv isAgent ?_ fun task isTask => ?_
          · split
            · exact Grows.of_made (Changes.putName isRow ownPart) rfl
            · exact Grows.none agent state
          · obtain rfl := Option.some.inj isTask
            exact Sure.plain rfl
      | move =>
          cases leads
          refine all.goOn inv isAgent
            (Grows.of_made (Changes.move isRow own ownPart outcome) made_move) fun task isTask => ?_
          obtain rfl := Option.some.inj isTask
          split <;> exact Sure.plain rfl
      | clean =>
          cases leads
          exact all.goOn inv isAgent
            (Grows.of_made (Changes.delete isRow ownPart _ outcome) made_delete) no_task
  | backupPuts stored check time stage =>
      have row := sure.row stored rfl
      have ownPart : ownerOf (partOf (stored.backupFile world time)) =
          some stored.row.monitor.text := stored.ownerOf_partOf_backupFile world time
      cases stage with
      | part =>
          cases leads
          refine all.goOn inv isAgent ?_ fun task isTask => ?_
          · split
            · exact Grows.of_made (Changes.putName row.1 ownPart) rfl
            · exact Grows.none agent state
          · obtain rfl := Option.some.inj isTask
            exact Sure.before rfl rfl row
      | move =>
          cases leads
          refine all.goOn inv isAgent ⟨Changes.moveBackup row.1 rfl outcome, fun made isMade => ?_⟩
            fun task isTask => ?_
          · unfold State.moveBackup State.move
            dsimp only
            split
            · exact List.mem_cons_of_mem _ isMade
            · exact isMade
          · obtain rfl := Option.some.inj isTask
            split
            next done =>
              refine ⟨fun each isStored => ?_, fun uploaded isUploaded => ?_, nofun, nofun⟩
              · obtain rfl := Option.some.inj isStored
                exact row
              · obtain rfl := Option.some.inj isUploaded
                subst done
                exact List.mem_cons_self
            next => exact Sure.before rfl rfl row
      | clean =>
          cases leads
          refine all.goOn inv isAgent
            (Grows.of_made (Changes.delete row.1 ownPart _ outcome) made_delete)
            fun task isTask => ?_
          obtain rfl := Option.some.inj isTask
          exact Sure.plain rfl
  | prunes stored check made old rest =>
      have row := sure.row stored rfl
      have own := (sound.spares stored check made old rest rfl).own
      cases old with
      | cons name old =>
          cases leads
          refine all.goOn inv isAgent (Grows.of_made (Changes.delete row.1
            (own name (List.mem_append_left _ List.mem_cons_self)) _ outcome) made_delete)
            fun task isTask => ?_
          obtain rfl := Option.some.inj isTask
          exact sure.delete (outcome = .done) (List.mem_append_left _ List.mem_cons_self)
            fun _ isLeft => List.mem_cons_of_mem _ isLeft
      | nil =>
          cases rest with
          | nil =>
              cases leads
              refine all.stay inv isAgent fun task isTask => ?_
              obtain rfl := Option.some.inj isTask
              exact sure_pruned false row sure.placed
          | cons first rest =>
              obtain ⟨name, lets⟩ := first
              cases leads
              refine all.goOn inv isAgent (Grows.of_made
                (Changes.delete row.1 (own name List.mem_cons_self) _ outcome) made_delete)
                fun task isTask => ?_
              obtain rfl := Option.some.inj isTask
              have fewer : ∀ other ∈ [] ++ rest.map Prod.fst,
                  other ∈ [] ++ ((name, lets) :: rest).map Prod.fst :=
                fun _ isLeft => List.mem_cons_of_mem _ isLeft
              exact sure.delete (lets || outcome = .done) List.mem_cons_self fewer
  | _ => cases leads

/-- A write to the database ends its task. -/
theorem allSure_store {task : Task} {fresh : Id} {outcome : Outcome} {after : State}
    (all : AllSure world state) (inv : Inv world state)
    (isAgent : state.monitors[index]? = some agent)
    (leads : store state index agent fresh outcome task = some after) : AllSure world after := by
  have ends : ∀ own : Agent, AllSure world (state.goOn index own none) := fun own =>
    all.update inv isAgent (Grows.none agent state) no_task
  cases task with
  | settingsStores stored next =>
      simp only [store, Option.bind_eq_bind, Option.bind_eq_some_iff] at leads
      obtain ⟨_, -, leads⟩ := leads
      split at leads <;> cases leads <;> exact ends _
  | removes | keyStores _ | records _ _ =>
      cases leads
      exact ends _
  | _ => cases leads

/-- A listing after an upload has few backups behind the new one. -/
def Task.keepsNew (world : World) (state : State) (listing : Listing) : Task → Bool
  | .backupRelists stored _ time =>
      let listed := state.folders (stored.folder world)
      listing ≠ .names || stored.backupFile world time ∉ listed ||
        isNewest world stored time listed
  | _ => true

theorem allSure_runTask {task : Task} {event : Event} {after : State} (all : AllSure world state)
    (inv : Inv world state) (isAgent : state.monitors[index]? = some agent)
    (isTask : agent.task = some task)
    (keeps : ∀ listing, event = .list index listing → task.keepsNew world state listing = true)
    (isIndex : event.index = index)
    (leads : runTask world state index agent task event = some after) : AllSure world after := by
  have sound := inv.sound agent (List.mem_of_getElem? isAgent) task isTask
  have sure := all agent (List.mem_of_getElem? isAgent) task isTask
  cases event with
  | store _ fresh outcome => exact allSure_store all inv isAgent leads
  | list position listing =>
      obtain rfl : position = index := isIndex
      refine allSure_list all inv isAgent sure (fun stored check time same names present => ?_) leads
      have held := keeps listing rfl
      rw [same, Task.keepsNew, names] at held
      simpa [present] using held
  | makeFolder _ outcome =>
      cases task with
      | keyMakesFolder stored =>
          cases leads
          refine all.stay inv isAgent fun next isNext => Sure.plain ?_
          split at isNext <;> cases isNext
          rfl
      | _ => cases leads
  | pack _ time =>
      cases task with
      | backupPacks stored check =>
          cases time with
          | none =>
              cases leads
              refine all.stay inv isAgent fun next isNext => ?_
              cases isNext
              exact Sure.plain rfl
          | some time =>
              simp only [runTask, pack] at leads
              split at leads
              · cases leads
                refine all.stay inv isAgent fun next isNext => ?_
                cases isNext
                exact Sure.before rfl rfl (sure.row stored rfl)
              · cases leads
      | _ => cases leads
  | request _ outcome => exact allSure_request all inv isAgent sound sure leads
  | stop _ =>
      cases leads
      exact all.stay inv isAgent no_task
  | _ => cases leads

theorem allSure_begin {event : Event} {after : State} (all : AllSure world state)
    (inv : Inv world state) (isAgent : state.monitors[index]? = some agent)
    (leads : begin state index agent event = some after) : AllSure world after := by
  cases event with
  | setSettings _ _ | removeSettings _ =>
      cases leads
      refine all.stay inv isAgent fun task isTask => ?_
      cases isTask
      exact Sure.plain rfl
  | setKey _ recipient =>
      obtain ⟨row, isRow, rfl⟩ := Option.map_eq_some_iff.mp leads
      refine all.stay inv isAgent fun task isTask => ?_
      cases isTask
      exact Sure.plain rfl
  | backUp _ digest force =>
      simp only [begin, Option.bind_eq_bind, Option.bind_eq_some_iff] at leads
      obtain ⟨row, isRow, recipient, isRecipient, _, -, leads⟩ := leads
      cases leads
      refine all.update inv isAgent (Grows.none agent state) fun task isTask => ?_
      simp only [make] at isTask
      split at isTask
      · cases isTask
      · cases isTask
        exact Sure.before rfl rfl ⟨isRow, isRecipient⟩
  | _ => cases leads

theorem allSure_adopt {target : Target} {id : Id} {recipient : Recipient} {after : State}
    (all : AllSure world state) (inv : Inv world state)
    (isAgent : state.monitors[index]? = some agent)
    (leads : adopt state index agent target id recipient = some after) : AllSure world after := by
  unfold adopt at leads
  split at leads
  · cases leads
    exact all
  next noRow =>
    split at leads
    next =>
      cases leads
      refine all.update inv isAgent (Grows.none agent state) fun task isTask => ?_
      -- A check is not under way where there is no row.
      have sure := all agent (List.mem_of_getElem? isAgent) task isTask
      have none : agent.row = none := by simpa using noRow
      refine ⟨fun stored isStored => ?_, sure.made, sure.stays, fun _ _ _ isRecord => ?_⟩
      · have isRow := (sure.row stored isStored).1
        rw [none] at isRow
        cases isRow
      · obtain ⟨stored, time, isRow, -⟩ := sure.recorded _ _ _ isRecord
        rw [none] at isRow
        cases isRow
    next => cases leads

/-! ### Runs -/

/-- A step at which no prune takes the backup that was just uploaded. -/
def keepsNew (world : World) (state : State) : Move → Bool
  | .event (.list index listing) =>
      ((state.monitors[index]?).bind Agent.task).all (Task.keepsNew world state listing)
  | _ => true

theorem allSure_next {event : Event} {after : State} (all : AllSure world state)
    (inv : Inv world state) (keeps : keepsNew world state (.event event) = true)
    (leads : next world state event = some after) : AllSure world after := by
  obtain ⟨agent, isAgent, leads⟩ := Option.bind_eq_some_iff.mp leads
  cases isTask : agent.task with
  | none =>
      rw [isTask] at leads
      cases event with
      | adopt _ _ _ _ => exact allSure_adopt all inv isAgent leads
      | _ => exact allSure_begin all inv isAgent leads
  | some task =>
      rw [isTask] at leads
      have few : ∀ listing, event = .list event.index listing →
          task.keepsNew world state listing = true := by
        intro listing same
        rw [same, keepsNew, isAgent, Option.bind_some, isTask] at keeps
        exact keeps
      cases event with
      | adopt _ _ _ _ => exact allSure_adopt all inv isAgent leads
      | _ => exact allSure_runTask all inv isAgent isTask few rfl leads

/-- What is relied on does not rest on the order of a folder's names. -/
theorem Inv.reorder (inv : Inv world state) {folders : Nat → List Text}
    (alike : ∀ folder name, name ∈ folders folder ↔ name ∈ state.folders folder) :
    Inv world { state with folders } where
  distinct := inv.distinct
  sound agent isAgent task isTask := by
    have sound := inv.sound agent isAgent task isTask
    refine ⟨sound.same, fun stored isFound => (alike _ _).mpr (sound.found stored isFound),
      sound.time, fun stored check made old rest isPrune => ?_⟩
    have spares := sound.spares stored check made old rest isPrune
    exact ⟨spares.own, spares.noKeys, fun made isMade folder own present =>
      spares.first made isMade folder own ((alike _ _).mp present)⟩
  folders := ⟨inv.folders.times,
    fun made isMade present =>
      (alike _ _).mpr (inv.folders.keys made isMade ((alike _ _).mp present)),
    inv.folders.deleted⟩

theorem mem_of_isPerm {folder : Nat} {names : List Text}
    (same : names.isPerm (state.folders folder) = true) (other : Nat) (name : Text) :
    name ∈ Function.update state.folders folder names other ↔ name ∈ state.folders other := by
  rw [Function.update_apply]
  split
  next equal => rw [equal, (List.isPerm_iff.mp same).mem_iff]
  next => rfl

/-- What holds of every state reached. -/
structure Relied (world : World) (state : State) : Prop where
  inv : Inv world state
  sure : AllSure world state

theorem relied_move {step : Move} {after : State} (relied : Relied world state)
    (keeps : keepsNew world state step = true) (leads : move world state step = some after) :
    Relied world after := by
  cases step with
  | event event => exact ⟨inv_next relied.inv leads, allSure_next relied.sure relied.inv keeps leads⟩
  | reorder folder names =>
      simp only [move] at leads
      split at leads
      next same =>
        cases leads
        exact ⟨relied.inv.reorder (mem_of_isPerm same), fun agent isAgent task isTask =>
          (relied.sure agent isAgent task isTask).of_alike ⟨rfl, mem_of_isPerm same⟩⟩
      next => cases leads

theorem relied_initial (starts : Initial state) : Relied world state := by
  refine ⟨inv_initial starts, fun agent isAgent task isTask => ?_⟩
  rw [starts.tasks agent isAgent] at isTask
  cases isTask

theorem Relied.madeStays (relied : Relied world state) : MadeStays world state := by
  intro agent isAgent check name failed isTask
  obtain ⟨stored, time, isRow, isRecipient, named, placed⟩ :=
    (relied.sure agent isAgent _ isTask).recorded check name failed rfl
  exact ⟨stored.row, isRow, stored.recipient, isRecipient, time, named, placed.backup,
    relied.inv.folders.keys _ placed.made placed.backup⟩

end

/-- A first key and a backup of a monitor that keeps one, up to the backup's record. -/
def firstBackup (time : Int) : List Event :=
  [.setSettings 0 ⟨⟨0, 0⟩, true, 1⟩, .store 0 (idOf 'a' isId_a) .done,
    .setKey 0 0, .list 0 .names, .request 0 .done, .request 0 .done,
    .store 0 (idOf 'a' isId_a) .done, .backUp 0 ⟨1, 1, true⟩ false, .list 0 .names,
    .pack 0 (some time), .request 0 .done, .request 0 .done, .list 0 .names, .request 0 .done]

def oneMonitor : State := ⟨[⟨none, none, false⟩], fun _ => [], [], []⟩

theorem reached_oneMonitor (meets : State → Move → Prop) :
    (anyOrder oneFolder).Reached meets oneMonitor :=
  .initial ⟨by simp [oneMonitor], by simp [oneMonitor], rfl, rfl⟩

/-- The name of a backup of that monitor. -/
def strokesName (time : Int) : Text :=
  backupFile strokes (idOf 'a' isId_a) time (idOf 'c' isId_c)

def firstMade : State :=
  (System.follow (keepsNew oneFolder) (move oneFolder) oneMonitor
    ((firstBackup 2000000).map .event)).get (by decide +kernel)

/-- The first backup recorded, and a second one uploaded. -/
def secondUpload (time : Int) : List Event :=
  [.store 0 (idOf 'a' isId_a) .done, .backUp 0 ⟨2, 2, true⟩ false, .list 0 .names,
    .pack 0 (some time), .request 0 .done, .request 0 .done]

/-- The clock is set back by a millisecond between the backups. -/
def relisting : State :=
  (System.follow (fun _ _ => true) (move oneFolder) oneMonitor
    ((firstBackup 2000000 ++ secondUpload 1000000).map .event)).get (by decide +kernel)

def secondStored : Stored :=
  ⟨⟨idOf 'a' isId_a, ⟨0, 0⟩, true, 1, some 0, some 1, some 1, some (strokesName 2000000),
    false⟩, 0⟩

def secondCheck : Check := ⟨⟨2, 2, true⟩, false⟩

/-- What its prune goes on to delete. -/
def pruning : State :=
  relisting.goOn 0
    ⟨some secondStored.row, some (.backupRelists secondStored secondCheck 1000000), false⟩
    (some (.prunes secondStored secondCheck (some 1000000) [strokesName 1000000] []))

theorem ownBackups_relisting :
    ownBackups strokes (relisting.folders 0) (idOf 'a' isId_a) =
      [(secondStored.backupName oneFolder 1000000, strokesName 1000000),
        (secondStored.backupName oneFolder 2000000, strokesName 2000000)] := by
  have listed : listedBackups strokes (relisting.folders 0) (idOf 'a' isId_a) =
      [(secondStored.backupName oneFolder 1000000, strokesName 1000000),
        (secondStored.backupName oneFolder 2000000, strokesName 2000000)] := by
    decide +kernel
  rw [ownBackups_eq, listed]
  exact List.mergeSort_of_pairwise (by decide +kernel)

theorem leads_pruning : move oneFolder relisting (.event (.list 0 .names)) = some pruning := by
  have isAgent : relisting.monitors[0]? = some ⟨some secondStored.row,
      some (.backupRelists secondStored secondCheck 1000000), false⟩ := by decide +kernel
  have present : secondStored.backupFile oneFolder 1000000 ∈
      relisting.folders (secondStored.folder oneFolder) := by decide +kernel
  have prunes : prune oneFolder secondStored secondCheck (some 1000000)
      (relisting.folders (secondStored.folder oneFolder)) =
        .prunes secondStored secondCheck (some 1000000) [strokesName 1000000] [] := by
    have own : ownBackups oneFolder.nameTime (relisting.folders (secondStored.folder oneFolder))
        secondStored.row.monitor = _ := ownBackups_relisting
    rw [prune, oldBackups, otherDeletes, usedKeys, own]
    decide +kernel
  simp only [move, next, Event.index, isAgent, Option.bind_eq_bind, Option.bind_some, runTask,
    list, present, not_true_eq_false, if_false, prunes]
  rfl

/-- The clock set back, and the second backup's prune over. -/
def setBack : State :=
  (System.follow (fun _ _ => true) (move oneFolder) pruning
    [.event (.request 0 .done), .event (.request 0 .done)]).get (by decide +kernel)

theorem recorded_setBack :
    setBack.monitors.map (fun agent => agent.task) =
      [some (.records secondCheck (.made (strokesName 1000000) false))] ∧
      strokesName 1000000 ∉ setBack.folders 0 := by
  decide +kernel

end ServerBox.Monitor.MonitorBackup
