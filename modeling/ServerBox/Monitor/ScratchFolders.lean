import ServerBox.Std.System
import Mathlib.Data.List.Basic
import Mathlib.Data.Option.Basic

/-!
# Working folders of a monitor's backups

`run_live`, `scratch` and `sweep` of `src/monitor/src/monitor_backup/mod.rs`: runs over one
directory, each of a name of its own, that lock the file of their name before their first
folder, and sweep the folders of runs found over. Every call of the file system is a step, in
any order. A lock is of an open file: it is held through whoever has the file open, and goes
with them.
-/

namespace ServerBox.Monitor.ScratchFolders

open ServerBox.Std

/-! ### What there is -/

/-- A `MonitorBackup` and its process. -/
structure Run where
  alive : Bool
  /-- Whether a call of `scratch` has the mutex of `held`. -/
  busy : Bool
  /-- The locked file, open for as long as the run lives. -/
  held : Option Nat
  /-- The number of the next folder. -/
  count : Nat
deriving DecidableEq

/-- What a call of `scratch` does next, in a blocking task. -/
inductive Stage where
  | opens
  | locks (file : Nat)
  | makes (lock : Option Nat)
deriving DecidableEq

structure Making where
  run : Nat
  number : Nat
  stage : Stage
  /-- Whether the call is still waited for. -/
  wanted : Bool
deriving DecidableEq

/-- `run-<run>.lock` or `work-<run>-<number>`. -/
inductive Entry where
  | lock (run : Nat)
  | folder (run number : Nat)
deriving DecidableEq

def Entry.run : Entry → Nat
  | .lock run | .folder run _ => run

/-- What a sweep does next about an entry. -/
inductive Looking where
  | tries (file : Nat)
  | drops (file : Nat)
  | unlinks
  | removes
deriving DecidableEq

structure Sweeping where
  run : Nat
  /-- Entries read from the directory and not yet looked at. -/
  seen : List Entry
  looking : Option (Entry × Looking)
deriving DecidableEq

structure State where
  /-- The runs there ever were; a run's name is its place. -/
  runs : List Run
  /-- The file under the name of a run's lock file. -/
  locks : Nat → Option Nat
  /-- The next new file. -/
  files : Nat
  folders : List (Nat × Nat)
  makings : List Making
  sweepings : List Sweeping
  /-- The runs of the folders that sweeps removed, and whether each was alive then. -/
  swept : List (Nat × Bool)

namespace State

def isLive (state : State) (run : Nat) : Bool := (state.runs[run]?).any Run.alive

/-- Whether a file is locked. -/
def isHeld (state : State) (file : Nat) : Bool :=
  state.runs.any (fun run => run.held = some file) ||
    state.makings.any (fun making => making.stage = .makes (some file)) ||
    state.sweepings.any fun sweeping =>
      sweeping.looking.any fun looking => looking.2 = .drops file

def has (state : State) : Entry → Bool
  | .lock run => (state.locks run).isSome
  | .folder run number => (run, number) ∈ state.folders

/-- A call of `scratch` that is over: a lock it took is kept by its run, or closed. -/
def finish (state : State) (index : Nat) (making : Making) (lock : Option Nat) : State :=
  { state with
    makings := state.makings.eraseIdx index
    runs :=
      if making.wanted then
        state.runs.modify making.run fun run =>
          { run with busy := false, held := lock.or run.held }
      else state.runs }

def setMaking (state : State) (index : Nat) (making : Making) : State :=
  { state with makings := state.makings.set index making }

def setSweeping (state : State) (index : Nat) (sweeping : Sweeping) : State :=
  { state with sweepings := state.sweepings.set index sweeping }

end State

/-! ### Steps -/

inductive Event where
  | starts
  /-- The process ends or is killed. -/
  | ends (run : Nat)
  | scratch (run : Nat)
  | opens (index : Nat)
  | locks (index : Nat)
  | makes (index : Nat)
  /-- An error of the call's next step. -/
  | fails (index : Nat)
  /-- Whoever waits for the call is gone; its blocking task goes on. -/
  | gone (index : Nat)
  /-- A folder removed with its `Scratch`. -/
  | frees (run number : Nat)
  | sweeps (run : Nat)
  | sees (index : Nat) (entry : Entry)
  | takes (index : Nat) (entry : Entry)
  | tries (index : Nat)
  | drops (index : Nat)
  | unlinks (index : Nat) (done : Bool)
  | removes (index : Nat)
deriving DecidableEq

/-- A run found over: its folder goes, and its lock file alone needs nothing more. -/
def foundOver : Entry → Option (Entry × Looking)
  | .lock _ => none
  | .folder run number => some (.folder run number, .removes)

/-- A step of a call of `scratch`. -/
def makingStep (state : State) (index : Nat) (making : Making) : Event → Option State
  | .opens _ =>
      match making.stage, state.locks making.run with
      | .opens, some file => some (state.setMaking index { making with stage := .locks file })
      | .opens, none =>
          some { state.setMaking index { making with stage := .locks state.files } with
            locks := Function.update state.locks making.run (some state.files)
            files := state.files + 1 }
      | _, _ => none
  | .locks _ =>
      match making.stage with
      | .locks file =>
          if state.isHeld file then none
          else some (state.setMaking index { making with stage := .makes (some file) })
      | _ => none
  | .makes _ =>
      match making.stage with
      | .makes lock =>
          if (making.run, making.number) ∈ state.folders then none
          else some { state.finish index making lock with
            folders := (making.run, making.number) :: state.folders }
      | _ => none
  | .fails _ => some (state.finish index making none)
  | .gone _ =>
      if making.wanted then
        some { state.setMaking index { making with wanted := false } with
          runs := state.runs.modify making.run fun run => { run with busy := false } }
      else none
  | _ => none

/-- A step of a sweep. -/
def sweepingStep (state : State) (index : Nat) (sweeping : Sweeping) : Event → Option State
  | .sees _ entry =>
      if state.has entry then
        some (state.setSweeping index { sweeping with seen := entry :: sweeping.seen })
      else none
  | .takes _ entry =>
      if sweeping.looking = none ∧ entry ∈ sweeping.seen then
        some (state.setSweeping index
          { sweeping with
            seen := sweeping.seen.erase entry
            looking :=
              if entry.run = sweeping.run then none
              else
                match state.locks entry.run with
                | none => foundOver entry
                | some file => some (entry, .tries file) })
      else none
  | .tries _ =>
      match sweeping.looking with
      | some (entry, .tries file) =>
          some (state.setSweeping index
            { sweeping with
              looking := if state.isHeld file then none else some (entry, .drops file) })
      | _ => none
  | .drops _ =>
      match sweeping.looking with
      | some (entry, .drops _) =>
          some (state.setSweeping index { sweeping with looking := some (entry, .unlinks) })
      | _ => none
  | .unlinks _ done =>
      match sweeping.looking with
      | some (entry, .unlinks) =>
          some { state.setSweeping index { sweeping with looking := foundOver entry } with
            locks :=
              if done then Function.update state.locks entry.run none else state.locks }
      | _ => none
  | .removes _ =>
      match sweeping.looking with
      | some (.folder run number, .removes) =>
          some { state.setSweeping index { sweeping with looking := none } with
            folders := state.folders.filter fun folder => folder ≠ (run, number)
            swept :=
              if (run, number) ∈ state.folders then (run, state.isLive run) :: state.swept
              else state.swept }
      | _ => none
  | _ => none

def next (state : State) : Event → Option State
  | .starts => some { state with runs := state.runs ++ [⟨true, false, none, 0⟩] }
  | .ends run =>
      if state.isLive run then
        some { state with
          runs := state.runs.modify run fun run => { run with alive := false, held := none }
          makings := state.makings.filter fun making => making.run ≠ run
          sweepings := state.sweepings.filter fun sweeping => sweeping.run ≠ run }
      else none
  | .scratch index => do
      let run ← state.runs[index]?
      guard (run.alive && !run.busy)
      some { state with
        runs := state.runs.modify index fun run => { run with busy := true, count := run.count + 1 }
        makings := state.makings ++
          [⟨index, run.count, if run.held.isSome then .makes none else .opens, true⟩] }
  | .frees run number =>
      if state.isLive run then
        some { state with folders := state.folders.filter fun folder => folder ≠ (run, number) }
      else none
  | .sweeps run =>
      if state.isLive run then
        some { state with sweepings := state.sweepings ++ [⟨run, [], none⟩] }
      else none
  | .opens index => do makingStep state index (← state.makings[index]?) (.opens index)
  | .locks index => do makingStep state index (← state.makings[index]?) (.locks index)
  | .makes index => do makingStep state index (← state.makings[index]?) (.makes index)
  | .fails index => do makingStep state index (← state.makings[index]?) (.fails index)
  | .gone index => do makingStep state index (← state.makings[index]?) (.gone index)
  | .sees index entry => do
      sweepingStep state index (← state.sweepings[index]?) (.sees index entry)
  | .takes index entry => do
      sweepingStep state index (← state.sweepings[index]?) (.takes index entry)
  | .tries index => do sweepingStep state index (← state.sweepings[index]?) (.tries index)
  | .drops index => do sweepingStep state index (← state.sweepings[index]?) (.drops index)
  | .unlinks index done => do
      sweepingStep state index (← state.sweepings[index]?) (.unlinks index done)
  | .removes index => do sweepingStep state index (← state.sweepings[index]?) (.removes index)

/-- No run is alive yet, and what is in the directory is of runs that are over. -/
structure Initial (state : State) : Prop where
  ended : ∀ run ∈ state.runs, run.alive = false
  locks : ∀ run, state.runs.length ≤ run → state.locks run = none
  folders : ∀ folder ∈ state.folders, folder.1 < state.runs.length
  makings : state.makings = []
  sweepings : state.sweepings = []
  swept : state.swept = []

def processes : System State Event := System.ofNext Initial next

/-! ### The property -/

/-- No sweep has removed a folder of a run that was alive. -/
def SparesLive (state : State) : Prop := ∀ swept ∈ state.swept, swept.2 = false

/-- Whether a run has the lock of its name, and not only the file. -/
def State.ownsLock (state : State) (run : Nat) : Bool :=
  (state.runs[run]?).any (fun run => run.held.isSome) ||
    state.makings.any fun making =>
      making.run = run &&
        match making.stage with
        | .makes (some _) => true
        | _ => false

/-- A step at which no sweep tries the lock file of a live run that has not locked it. -/
def triesOwned (state : State) : Event → Bool
  | .tries index =>
      ((state.sweepings[index]?).bind Sweeping.looking).all fun looking =>
        !state.isLive looking.1.run || state.ownsLock looking.1.run
  | _ => true

/-! ### The invariant -/

/-- A name that was taken, whose lock file is there for as long as its run lives. -/
def Secured (state : State) (run : Nat) : Prop :=
  run < state.runs.length ∧ (state.isLive run = true → ∃ file, state.locks run = some file)

/-- The file of a run's name is one it has. -/
def Named (state : State) (run file : Nat) : Prop :=
  run < state.runs.length ∧ (state.isLive run = true → state.locks run = some file)

def Over (state : State) (run : Nat) : Prop :=
  run < state.runs.length ∧ state.isLive run = false

def StageSound (state : State) (run : Nat) : Stage → Prop
  | .opens => run < state.runs.length
  | .locks file | .makes (some file) => Named state run file
  | .makes none => Secured state run

def EntrySound (state : State) : Entry → Prop
  | .lock run => run < state.runs.length
  | .folder run _ => Secured state run

def LookingSound (state : State) (entry : Entry) : Looking → Prop
  | .tries file => Named state entry.run file
  | .drops _ | .unlinks | .removes => Over state entry.run

structure SweepingSound (state : State) (sweeping : Sweeping) : Prop where
  seen : ∀ entry ∈ sweeping.seen, EntrySound state entry
  looking : ∀ entry looking, sweeping.looking = some (entry, looking) →
    LookingSound state entry looking

structure Inv (state : State) : Prop where
  locks : ∀ run, state.runs.length ≤ run → state.locks run = none
  folders : ∀ folder ∈ state.folders, Secured state folder.1
  held : ∀ index run, state.runs[index]? = some run → ∀ file ∈ run.held, Named state index file
  makings : ∀ making ∈ state.makings, StageSound state making.run making.stage
  sweepings : ∀ sweeping ∈ state.sweepings, SweepingSound state sweeping
  spares : SparesLive state

/-- Runs are added and end, and the lock file of one that lives stays. -/
structure Later (state after : State) : Prop where
  length : state.runs.length ≤ after.runs.length
  live : ∀ run < state.runs.length, after.isLive run = true → state.isLive run = true
  locks : ∀ run < state.runs.length, after.isLive run = true → ∀ file,
    state.locks run = some file → after.locks run = some file

section

variable {state after : State} {run file : Nat}

theorem Named.secured (named : Named state run file) : Secured state run :=
  ⟨named.1, fun live => ⟨file, named.2 live⟩⟩

theorem Secured.later (secured : Secured state run) (later : Later state after) :
    Secured after run := by
  refine ⟨Nat.lt_of_lt_of_le secured.1 later.length, fun live => ?_⟩
  obtain ⟨file, isFile⟩ := secured.2 (later.live run secured.1 live)
  exact ⟨file, later.locks run secured.1 live file isFile⟩

theorem Named.later (named : Named state run file) (later : Later state after) :
    Named after run file :=
  ⟨Nat.lt_of_lt_of_le named.1 later.length, fun live =>
    later.locks run named.1 live file (named.2 (later.live run named.1 live))⟩

theorem Over.later (over_ : Over state run) (later : Later state after) : Over after run := by
  refine ⟨Nat.lt_of_lt_of_le over_.1 later.length, ?_⟩
  rw [Bool.eq_false_iff]
  intro live
  have wasOver := over_.2
  rw [later.live run over_.1 live] at wasOver
  cases wasOver

theorem StageSound.later {stage : Stage} (sound : StageSound state run stage)
    (later : Later state after) : StageSound after run stage := by
  cases stage with
  | opens => exact Nat.lt_of_lt_of_le sound later.length
  | locks file => exact Named.later sound later
  | makes lock =>
      cases lock with
      | none => exact Secured.later sound later
      | some file => exact Named.later sound later

theorem EntrySound.later {entry : Entry} (sound : EntrySound state entry)
    (later : Later state after) : EntrySound after entry := by
  cases entry with
  | lock run => exact Nat.lt_of_lt_of_le sound later.length
  | folder run number => exact Secured.later sound later

theorem LookingSound.later {entry : Entry} {looking : Looking}
    (sound : LookingSound state entry looking) (later : Later state after) :
    LookingSound after entry looking := by
  cases looking with
  | tries file => exact Named.later sound later
  | drops _ | unlinks | removes => exact Over.later sound later

theorem SweepingSound.later {sweeping : Sweeping} (sound : SweepingSound state sweeping)
    (later : Later state after) : SweepingSound after sweeping where
  seen entry isSeen := (sound.seen entry isSeen).later later
  looking entry looking isLooking := (sound.looking entry looking isLooking).later later

/-- A step is checked for what it adds. -/
theorem Inv.step (inv : Inv state) (later : Later state after)
    (locks : ∀ run, after.runs.length ≤ run → after.locks run = none)
    (folders : ∀ folder ∈ after.folders, folder ∈ state.folders ∨ Secured after folder.1)
    (held : ∀ index run, after.runs[index]? = some run → ∀ file ∈ run.held,
      (∃ before, state.runs[index]? = some before ∧ before.held = some file) ∨
        Named after index file)
    (makings : ∀ making ∈ after.makings,
      making ∈ state.makings ∨ StageSound after making.run making.stage)
    (sweepings : ∀ sweeping ∈ after.sweepings,
      sweeping ∈ state.sweepings ∨ SweepingSound after sweeping)
    (spares : ∀ swept ∈ after.swept, swept ∈ state.swept ∨ swept.2 = false) : Inv after where
  locks := locks
  folders folder isFolder :=
    (folders folder isFolder).elim (fun before => (inv.folders folder before).later later) id
  held index run isRun file isHeld := by
    rcases held index run isRun file isHeld with ⟨before, wasRun, wasHeld⟩ | named
    · exact (inv.held index before wasRun file wasHeld).later later
    · exact named
  makings making isMaking :=
    (makings making isMaking).elim (fun before => (inv.makings making before).later later) id
  sweepings sweeping isSweeping :=
    (sweepings sweeping isSweeping).elim
      (fun before => (inv.sweepings sweeping before).later later) id
  spares swept isSwept := (spares swept isSwept).elim (inv.spares swept) id

/-! ### The steps of a call of `scratch` -/

theorem any_alive_modify {runs : List Run} {change : Run → Run} (index : Nat)
    (keeps : ∀ run, (change run).alive = run.alive) (run : Nat) :
    ((runs.modify index change)[run]?).any Run.alive = (runs[run]?).any Run.alive := by
  rw [List.getElem?_modify]
  cases runs[run]? with
  | none => rfl
  | some found =>
      simp only [Option.map_eq_map, Option.map_some, Option.any_some]
      split
      · exact keeps found
      · rfl

/-- Steps that no run starts or ends at, and that leave the lock files that are there. -/
theorem Later.of_live (length : after.runs.length = state.runs.length)
    (live : ∀ run, after.isLive run = state.isLive run)
    (locks : ∀ run file, state.locks run = some file → after.locks run = some file) :
    Later state after where
  length := Nat.le_of_eq length.symm
  live run _ isLive := live run ▸ isLive
  locks run _ _ file isFile := locks run file isFile

theorem Later.of_runs (same : after.runs = state.runs)
    (locks : ∀ run file, state.locks run = some file → after.locks run = some file) :
    Later state after :=
  .of_live (congrArg List.length same) (fun run => by rw [State.isLive, State.isLive, same]) locks

theorem held_of_modify {runs : List Run} {index : Nat} {change : Run → Run} {place : Nat} {run : Run}
    (isRun : (runs.modify index change)[place]? = some run) :
    ∃ before, runs[place]? = some before ∧ (run = before ∨ (place = index ∧ run = change before)) := by
  rw [List.getElem?_modify] at isRun
  obtain ⟨before, wasRun, same⟩ := Option.map_eq_some_iff.mp isRun
  split at same
  next isPlace => exact ⟨before, wasRun, .inr ⟨isPlace.symm, same.symm⟩⟩
  next => exact ⟨before, wasRun, .inl same.symm⟩

variable {index : Nat} {making : Making}

theorem runs_finish (lock : Option Nat) :
    (state.finish index making lock).runs.length = state.runs.length ∧
      ∀ run, (state.finish index making lock).isLive run = state.isLive run := by
  unfold State.finish
  split
  · exact ⟨List.length_modify _ _ _, any_alive_modify _ fun _ => rfl⟩
  · exact ⟨rfl, fun _ => rfl⟩

/-- What a call that is over leaves, with the folder it made or none. -/
theorem inv_finish (inv : Inv state) (lock : Option Nat) (folders : List (Nat × Nat))
    (isLock : ∀ file ∈ lock, Named state making.run file)
    (isFolder : ∀ folder ∈ folders, folder ∈ state.folders ∨ Secured state folder.1) :
    Inv { state.finish index making lock with folders } := by
  obtain ⟨length, live⟩ := @runs_finish state index making lock
  have later : Later state { state.finish index making lock with folders } :=
    .of_live length live fun _ _ => id
  refine inv.step later (fun run below => inv.locks run (length ▸ below))
    (fun folder isIn => (isFolder folder isIn).imp id fun secured => secured.later later)
    (fun place run isRun file isHeld => ?_)
    (fun each isMaking => .inl (List.mem_of_mem_eraseIdx isMaking)) (fun _ => .inl) fun _ => .inl
  simp only [State.finish] at isRun
  split at isRun
  · obtain ⟨before, wasRun, rfl | ⟨rfl, rfl⟩⟩ := held_of_modify isRun
    · exact .inl ⟨run, wasRun, isHeld⟩
    · cases lock with
      | none => exact .inl ⟨before, wasRun, isHeld⟩
      | some taken =>
          obtain rfl := Option.some.inj isHeld
          exact .inr ((isLock taken rfl).later later)
  · exact .inl ⟨run, isRun, isHeld⟩

/-- A call goes on to its next stage. -/
theorem inv_setMaking (inv : Inv state) (made : Making)
    (sound : StageSound after made.run made.stage) (later : Later state after)
    (locks : ∀ run, after.runs.length ≤ run → after.locks run = none)
    (held : ∀ (place : Nat) (run : Run), after.runs[place]? = some run →
      ∃ before : Run, state.runs[place]? = some before ∧ before.held = run.held)
    (folders : after.folders = state.folders)
    (makings : after.makings = state.makings.set index made)
    (sweepings : after.sweepings = state.sweepings) (swept : after.swept = state.swept) :
    Inv after := by
  refine inv.step later locks (fun _ isFolder => .inl (folders ▸ isFolder))
    (fun place run isRun file isHeld => ?_) (fun each isMaking => ?_)
    (fun _ isSweeping => .inl (sweepings ▸ isSweeping)) fun _ isSwept => .inl (swept ▸ isSwept)
  · obtain ⟨before, wasRun, same⟩ := held place run isRun
    exact .inl ⟨before, wasRun, same.trans isHeld⟩
  · rw [makings] at isMaking
    rcases List.mem_or_eq_of_mem_set isMaking with before | rfl
    · exact .inl before
    · exact .inr sound

theorem inv_makingStep {event : Event} (inv : Inv state)
    (isMaking : state.makings[index]? = some making)
    (leads : makingStep state index making event = some after) : Inv after := by
  have sound := inv.makings making (List.mem_of_getElem? isMaking)
  have same : ∀ (place : Nat) (run : Run), state.runs[place]? = some run →
      ∃ before : Run, state.runs[place]? = some before ∧ before.held = run.held :=
    fun _ run isRun => ⟨run, isRun, rfl⟩
  cases event with
  | opens _ =>
      simp only [makingStep] at leads
      split at leads
      next file isStage isFile =>
        cases leads
        rw [isStage] at sound
        have named : Named state making.run file := ⟨sound, fun _ => isFile⟩
        exact inv_setMaking inv { making with stage := .locks file } named
          (.of_runs rfl fun _ _ => id) inv.locks same rfl rfl rfl rfl
      next isStage noFile =>
        cases leads
        rw [isStage] at sound
        have below : making.run < state.runs.length := sound
        refine inv_setMaking inv { making with stage := .locks state.files } ?_
          (.of_runs rfl fun run file isFile => ?_) (fun run unknown => ?_) same rfl rfl rfl rfl
        · exact ⟨below, fun _ => Function.update_self _ _ _⟩
        · have other : run ≠ making.run := by
            rintro rfl
            rw [noFile] at isFile
            cases isFile
          exact (Function.update_of_ne other _ _).trans isFile
        · have other : run ≠ making.run := Nat.ne_of_gt (Nat.lt_of_lt_of_le below unknown)
          exact (Function.update_of_ne other _ _).trans (inv.locks run unknown)
      next => cases leads
  | locks _ =>
      simp only [makingStep] at leads
      split at leads
      next file isStage =>
        split at leads
        · cases leads
        · cases leads
          rw [isStage] at sound
          exact inv_setMaking inv { making with stage := .makes (some file) } sound
            (.of_runs rfl fun _ _ => id) inv.locks same rfl rfl rfl rfl
      next => cases leads
  | makes _ =>
      simp only [makingStep] at leads
      split at leads
      next lock isStage =>
        split at leads
        · cases leads
        · cases leads
          rw [isStage] at sound
          refine inv_finish inv lock _ (fun file isLock => ?_) fun folder isFolder => ?_
          · obtain rfl := Option.mem_def.mp isLock
            exact sound
          · rcases List.mem_cons.mp isFolder with rfl | before
            · cases lock with
              | none => exact .inr sound
              | some file => exact .inr (Named.secured sound)
            · exact .inl before
      next => cases leads
  | fails _ =>
      cases leads
      exact inv_finish inv none _ nofun fun _ => .inl
  | gone _ =>
      simp only [makingStep] at leads
      split at leads
      · cases leads
        refine inv_setMaking inv { making with wanted := false } ?_
          (.of_live (List.length_modify _ _ _) (any_alive_modify _ fun _ => rfl) fun _ _ => id)
          (fun run below => ?_) (fun place run isRun => ?_) rfl rfl rfl rfl
        · exact sound.later (.of_live (List.length_modify _ _ _)
            (any_alive_modify _ fun _ => rfl) fun _ _ => id)
        · exact inv.locks run (List.length_modify (fun run : Run => { run with busy := false }) _ _ ▸ below)
        · obtain ⟨before, wasRun, rfl | ⟨-, rfl⟩⟩ := held_of_modify isRun
          · exact ⟨run, wasRun, rfl⟩
          · exact ⟨before, wasRun, rfl⟩
      · cases leads
  | _ => cases leads

/-! ### The steps of a sweep -/

variable {sweeping : Sweeping}

/-- A sweep that goes on, and nothing else. -/
theorem inv_setSweeping (inv : Inv state) (swept : Sweeping) (sound : SweepingSound state swept) :
    Inv (state.setSweeping index swept) := by
  have later : Later state (state.setSweeping index swept) := .of_runs rfl fun _ _ => id
  refine inv.step later inv.locks (fun _ => .inl) (fun place run isRun file isHeld => ?_)
    (fun _ => .inl) (fun each isSweeping => ?_) fun _ => .inl
  · exact .inl ⟨run, isRun, isHeld⟩
  · rcases List.mem_or_eq_of_mem_set isSweeping with before | rfl
    · exact .inl before
    · exact .inr (sound.later later)

/-- The lock file of a run that is over may go. -/
theorem inv_unlink (inv : Inv state) (over_ : Over state run) :
    Inv { state with locks := Function.update state.locks run none } := by
  refine inv.step ⟨Nat.le_refl _, fun _ _ => id, fun other _ live file isFile => ?_⟩
    (fun other unknown => ?_) (fun _ => .inl) (fun _ found isRun _ isHeld => ?_) (fun _ => .inl)
    (fun _ => .inl) fun _ => .inl
  · have differs : other ≠ run := by
      rintro rfl
      exact Bool.false_ne_true (over_.2.symm.trans live)
    exact (Function.update_of_ne differs _ _).trans isFile
  · have differs : other ≠ run := Nat.ne_of_gt (Nat.lt_of_lt_of_le over_.1 unknown)
    exact (Function.update_of_ne differs _ _).trans (inv.locks other unknown)
  · exact .inl ⟨found, isRun, isHeld⟩

/-- So may its folders. -/
theorem inv_remove (inv : Inv state) (over_ : Over state run) (number : Nat) :
    Inv { state with
      folders := state.folders.filter fun folder => folder ≠ (run, number)
      swept :=
        if (run, number) ∈ state.folders then (run, state.isLive run) :: state.swept
        else state.swept } := by
  refine inv.step ⟨Nat.le_refl _, fun _ _ => id, fun _ _ _ _ => id⟩ inv.locks
    (fun folder isFolder => .inl (List.mem_filter.mp isFolder).1)
    (fun _ found isRun _ isHeld => .inl ⟨found, isRun, isHeld⟩) (fun _ => .inl) (fun _ => .inl)
    fun swept isSwept => ?_
  dsimp only at isSwept
  split at isSwept
  · rcases List.mem_cons.mp isSwept with rfl | before
    · exact .inr over_.2
    · exact .inl before
  · exact .inl isSwept

theorem over_of_not_live (below : run < state.runs.length) (dead : state.isLive run ≠ true) :
    Over state run :=
  ⟨below, Bool.eq_false_iff.mpr dead⟩

/-- A run found over has no folder that lives. -/
theorem foundOver_sound {entry found : Entry} {looking : Looking} (over_ : Over state entry.run)
    (isFound : foundOver entry = some (found, looking)) : LookingSound state found looking := by
  cases entry with
  | lock run => cases isFound
  | folder run number =>
      cases isFound
      exact over_

theorem EntrySound.below {entry : Entry} (sound : EntrySound state entry) :
    entry.run < state.runs.length := by
  cases entry with
  | lock run => exact sound
  | folder run number => exact sound.1

/-- Whoever owns a name's lock holds the file of that name. -/
theorem isHeld_of_ownsLock (inv : Inv state) (named : Named state run file)
    (live : state.isLive run = true) (owns : state.ownsLock run = true) :
    state.isHeld file = true := by
  rw [State.ownsLock, Bool.or_eq_true] at owns
  rcases owns with held | taken
  · obtain ⟨found, isRun, isSome⟩ := (Option.any_eq_true _ _).mp held
    obtain ⟨other, isOther⟩ := Option.isSome_iff_exists.mp isSome
    have same := (inv.held run found isRun other isOther).2 live
    rw [named.2 live] at same
    obtain rfl := Option.some.inj same
    have any : state.runs.any (fun run => run.held = some file) = true :=
      List.any_eq_true.mpr ⟨found, List.mem_of_getElem? isRun, decide_eq_true isOther⟩
    rw [State.isHeld, any, Bool.true_or, Bool.true_or]
  · obtain ⟨making, isMaking, holds⟩ := List.any_eq_true.mp taken
    obtain ⟨rfl, isStage⟩ : making.run = run ∧ _ := by simpa using holds
    have sound := inv.makings making isMaking
    split at isStage
    next other stage =>
      rw [stage] at sound
      have same := sound.2 live
      rw [named.2 live] at same
      obtain rfl := Option.some.inj same
      have any : state.makings.any (fun making => making.stage = .makes (some file)) = true :=
        List.any_eq_true.mpr ⟨making, isMaking, decide_eq_true stage⟩
      rw [State.isHeld, any, Bool.or_true, Bool.true_or]
    next => cases isStage

theorem inv_sweepingStep {event : Event} (inv : Inv state)
    (isSweeping : state.sweepings[index]? = some sweeping)
    (owned : ∀ entry file, event = .tries index → sweeping.looking = some (entry, .tries file) →
      state.isLive entry.run = true → state.ownsLock entry.run = true)
    (isIndex : ∀ place, event = .tries place → place = index)
    (leads : sweepingStep state index sweeping event = some after) : Inv after := by
  have sound := inv.sweepings sweeping (List.mem_of_getElem? isSweeping)
  cases event with
  | sees _ entry =>
      simp only [sweepingStep] at leads
      split at leads
      next present =>
        cases leads
        refine inv_setSweeping inv _ ⟨?_, sound.looking⟩
        rw [List.forall_mem_cons]
        refine ⟨?_, sound.seen⟩
        cases entry with
        | lock run =>
            show run < state.runs.length
            by_contra unknown
            rw [State.has, inv.locks run (Nat.le_of_not_lt unknown)] at present
            cases present
        | folder run number => exact inv.folders _ (of_decide_eq_true present)
      next => cases leads
  | takes _ entry =>
      simp only [sweepingStep] at leads
      split at leads
      next isSeen =>
        cases leads
        have entrySound := sound.seen entry isSeen.2
        refine inv_setSweeping inv _ ⟨fun other isOther =>
          sound.seen other (List.mem_of_mem_erase isOther), fun found looking isLooking => ?_⟩
        dsimp only at isLooking
        split at isLooking
        · cases isLooking
        · split at isLooking
          next noFile =>
            refine foundOver_sound (over_of_not_live entrySound.below fun live => ?_) isLooking
            cases entry with
            | lock run => cases isLooking
            | folder run number =>
                obtain ⟨file, isFile⟩ := entrySound.2 live
                cases isFile.symm.trans noFile
          next file isFile =>
            cases isLooking
            exact ⟨entrySound.below, fun _ => isFile⟩
      next => cases leads
  | tries place =>
      obtain rfl := isIndex place rfl
      simp only [sweepingStep] at leads
      split at leads
      next entry file isTried =>
        cases leads
        have named : Named state entry.run file := sound.looking entry _ isTried
        refine inv_setSweeping inv _ ⟨sound.seen, fun found looking isLooking => ?_⟩
        dsimp only at isLooking
        split at isLooking
        · cases isLooking
        next free =>
          cases isLooking
          refine over_of_not_live named.1 fun live => free ?_
          exact isHeld_of_ownsLock inv named live (owned entry file rfl isTried live)
      next => cases leads
  | drops _ =>
      simp only [sweepingStep] at leads
      split at leads
      next entry file isDropped =>
        cases leads
        have over_ : Over state entry.run := sound.looking entry _ isDropped
        refine inv_setSweeping inv _ ⟨sound.seen, fun found looking isLooking => ?_⟩
        cases isLooking
        exact over_
      next => cases leads
  | unlinks _ done =>
      simp only [sweepingStep] at leads
      split at leads
      next entry isUnlinked =>
        cases leads
        have over_ : Over state entry.run := sound.looking entry _ isUnlinked
        have sweepingSound : SweepingSound state
            { sweeping with looking := foundOver entry } :=
          ⟨sound.seen, fun _ _ isLooking => foundOver_sound over_ isLooking⟩
        have goesOn : Inv (state.setSweeping index _) := inv_setSweeping inv _ sweepingSound
        cases done with
        | false => exact ⟨inv.locks, goesOn.folders, goesOn.held, goesOn.makings, goesOn.sweepings,
            goesOn.spares⟩
        | true => exact inv_unlink goesOn over_
      next => cases leads
  | removes _ =>
      simp only [sweepingStep] at leads
      split at leads
      next run number isRemoved =>
        cases leads
        have over_ : Over state run := sound.looking _ _ isRemoved
        have goesOn : Inv (state.setSweeping index { sweeping with looking := none }) :=
          inv_setSweeping inv _ ⟨sound.seen, nofun⟩
        exact inv_remove goesOn over_ number
      next => cases leads
  | _ => cases leads

/-! ### Runs -/

theorem inv_starts (inv : Inv state) :
    Inv { state with runs := state.runs ++ [⟨true, false, none, 0⟩] } := by
  refine inv.step ⟨by simp, fun run below live => ?_, fun _ _ _ _ => id⟩
    (fun run unknown => inv.locks run ?_) (fun _ => .inl) (fun index run isRun file isHeld => ?_)
    (fun _ => .inl) (fun _ => .inl) fun _ => .inl
  · simp only [State.isLive, List.getElem?_append_left below] at live
    exact live
  · rw [List.length_append] at unknown
    exact Nat.le_of_add_right_le unknown
  · dsimp only at isRun
    rw [List.getElem?_append] at isRun
    split at isRun
    · exact .inl ⟨run, isRun, isHeld⟩
    · obtain rfl := List.mem_singleton.mp (List.mem_of_getElem? isRun)
      cases isHeld

theorem inv_ends (inv : Inv state) (run : Nat) :
    Inv { state with
      runs := state.runs.modify run fun run => { run with alive := false, held := none }
      makings := state.makings.filter fun making => making.run ≠ run
      sweepings := state.sweepings.filter fun sweeping => sweeping.run ≠ run } := by
  have length := List.length_modify (fun run : Run => { run with alive := false, held := none })
    state.runs run
  refine inv.step ⟨Nat.le_of_eq length.symm, fun other _ live => ?_, fun _ _ _ _ => id⟩
    (fun other unknown => inv.locks other (length ▸ unknown)) (fun _ => .inl)
    (fun index found isRun file isHeld => ?_)
    (fun _ isMaking => .inl (List.mem_filter.mp isMaking).1)
    (fun _ isSweeping => .inl (List.mem_filter.mp isSweeping).1) fun _ => .inl
  · obtain ⟨found, isRun, alive⟩ := (Option.any_eq_true _ _).mp live
    obtain ⟨before, wasRun, rfl | ⟨-, rfl⟩⟩ := held_of_modify isRun
    · exact (Option.any_eq_true _ _).mpr ⟨found, wasRun, alive⟩
    · cases alive
  · obtain ⟨before, wasRun, rfl | ⟨-, rfl⟩⟩ := held_of_modify isRun
    · exact .inl ⟨found, wasRun, isHeld⟩
    · cases isHeld

theorem inv_scratch {found : Run} (inv : Inv state) (isRun : state.runs[run]? = some found) :
    Inv { state with
      runs := state.runs.modify run fun run => { run with busy := true, count := run.count + 1 }
      makings := state.makings ++
        [⟨run, found.count, if found.held.isSome then .makes none else .opens, true⟩] } := by
  have length := List.length_modify
    (fun run : Run => { run with busy := true, count := run.count + 1 }) state.runs run
  refine inv.step (.of_live length (any_alive_modify _ fun _ => rfl) fun _ _ => id)
    (fun other unknown => inv.locks other (length ▸ unknown)) (fun _ => .inl)
    (fun index other isOther file isHeld => ?_) (fun making isMaking => ?_) (fun _ => .inl)
    fun _ => .inl
  · obtain ⟨before, wasRun, rfl | ⟨-, rfl⟩⟩ := held_of_modify isOther
    · exact .inl ⟨other, wasRun, isHeld⟩
    · exact .inl ⟨before, wasRun, isHeld⟩
  · rcases List.mem_append.mp isMaking with before | isNew
    · exact .inl before
    · obtain rfl := List.mem_singleton.mp isNew
      refine .inr (StageSound.later ?_ (.of_live length (any_alive_modify _ fun _ => rfl)
        fun _ _ => id))
      dsimp only
      split
      next isSome =>
        obtain ⟨file, isHeld⟩ := Option.isSome_iff_exists.mp isSome
        exact (inv.held run found isRun file isHeld).secured
      next => exact (List.getElem?_eq_some_iff.mp isRun).1

theorem inv_next {event : Event} (inv : Inv state) (owned : triesOwned state event = true)
    (leads : next state event = some after) : Inv after := by
  have noTry : ∀ {sweeping : Sweeping} {index : Nat} {event : Event},
      (∀ place, event ≠ .tries place) → state.sweepings[index]? = some sweeping →
        sweepingStep state index sweeping event = some after → Inv after := by
    intro sweeping index event other isSweeping leads
    exact inv_sweepingStep inv isSweeping (fun _ _ same => absurd same (other _))
      (fun place same => absurd same (other place)) leads
  cases event with
  | starts =>
      cases leads
      exact inv_starts inv
  | ends run =>
      simp only [next] at leads
      split at leads <;> cases leads
      exact inv_ends inv run
  | scratch run =>
      simp only [next, Option.bind_eq_bind, Option.bind_eq_some_iff] at leads
      obtain ⟨found, isRun, _, -, leads⟩ := leads
      cases leads
      exact inv_scratch inv isRun
  | frees run number =>
      simp only [next] at leads
      split at leads <;> cases leads
      exact inv.step (.of_runs rfl fun _ _ => id) inv.locks
        (fun _ isFolder => .inl (List.mem_filter.mp isFolder).1)
        (fun _ found isRun _ isHeld => .inl ⟨found, isRun, isHeld⟩) (fun _ => .inl)
        (fun _ => .inl) fun _ => .inl
  | sweeps run =>
      simp only [next] at leads
      split at leads <;> cases leads
      refine inv.step (.of_runs rfl fun _ _ => id) inv.locks (fun _ => .inl)
        (fun _ found isRun _ isHeld => .inl ⟨found, isRun, isHeld⟩) (fun _ => .inl)
        (fun sweeping isSweeping => ?_) fun _ => .inl
      rcases List.mem_append.mp isSweeping with before | isNew
      · exact .inl before
      · obtain rfl := List.mem_singleton.mp isNew
        exact .inr ⟨(by rintro _ ⟨⟩), (by rintro _ _ ⟨⟩)⟩
  | opens index | locks index | makes index | fails index | gone index =>
      obtain ⟨making, isMaking, leads⟩ := Option.bind_eq_some_iff.mp leads
      exact inv_makingStep inv isMaking leads
  | tries index =>
      obtain ⟨sweeping, isSweeping, leads⟩ := Option.bind_eq_some_iff.mp leads
      refine inv_sweepingStep inv isSweeping (fun entry file _ isTried live => ?_)
        (fun place same => (Event.tries.inj same).symm) leads
      simpa [triesOwned, isSweeping, isTried, live] using owned
  | sees index _ | takes index _ | drops index | unlinks index _ | removes index =>
      obtain ⟨sweeping, isSweeping, leads⟩ := Option.bind_eq_some_iff.mp leads
      exact noTry (fun _ same => by cases same) isSweeping leads

theorem inv_initial (starts : Initial state) : Inv state := by
  have notLive : ∀ run, state.isLive run ≠ true := by
    intro run live
    obtain ⟨found, isRun, alive⟩ := (Option.any_eq_true _ _).mp live
    rw [starts.ended found (List.mem_of_getElem? isRun)] at alive
    cases alive
  refine ⟨starts.locks, fun folder isFolder => ?_, fun index run isRun file _ => ?_, ?_, ?_, ?_⟩
  · exact ⟨starts.folders folder isFolder, fun live => absurd live (notLive _)⟩
  · exact ⟨(List.getElem?_eq_some_iff.mp isRun).1, fun live => absurd live (notLive _)⟩
  · rw [starts.makings]
    nofun
  · rw [starts.sweepings]
    nofun
  · rw [SparesLive, starts.swept]
    nofun

/-- In every run of any number of processes in which no sweep tries the lock file of a live run
that has not locked it, no sweep removes a folder of a live run. -/
theorem sparesLive_of_reached
    (reached : processes.Reached (fun state event => triesOwned state event = true) state) :
    SparesLive state := by
  have inv : Inv state :=
    reached.holds (fun _ => inv_initial) fun _ _ _ inv owned leads => inv_next inv owned leads
  exact inv.spares

end

/-! ### Two orders of the same steps -/

/-- A first run that was killed with a folder, a second one that has one, and a third that
sweeps. -/
def sweepsThird : List Event :=
  [.starts, .scratch 0, .opens 0, .locks 0, .makes 0, .ends 0,
    .starts, .starts, .sweeps 2, .scratch 1, .opens 0]

def nothing : State := ⟨[], fun _ => none, 0, [], [], [], []⟩

theorem reached_nothing (meets : State → Event → Prop) : processes.Reached meets nothing :=
  .initial ⟨nofun, fun _ _ => rfl, nofun, rfl, rfl, rfl⟩

/-- The second run locks its file before it is looked at. -/
def lockedFirst : State :=
  (System.follow triesOwned next nothing
    (sweepsThird ++ [.locks 0, .makes 0,
      .sees 0 (.folder 1 0), .takes 0 (.folder 1 0), .tries 0,
      .sees 0 (.folder 0 0), .takes 0 (.folder 0 0), .tries 0, .drops 0, .unlinks 0 true,
      .removes 0])).get (by decide)

theorem sparesLive_lockedFirst :
    lockedFirst.folders = [(1, 0)] ∧ lockedFirst.swept = [(0, false)] ∧ SparesLive lockedFirst :=
  ⟨by decide, by decide, sparesLive_of_reached
    (System.reached_get triesOwned next _ (reached_nothing _) (by decide))⟩

/-- It is looked at first: its lock is taken and closed, and its name removed once it has it. -/
def lookedFirst : State :=
  (System.follow (fun _ _ => true) next nothing
    (sweepsThird ++ [.sees 0 (.lock 1), .takes 0 (.lock 1), .tries 0, .drops 0, .locks 0,
      .unlinks 0 true, .makes 0,
      .sees 0 (.folder 1 0), .takes 0 (.folder 1 0), .removes 0])).get (by decide)

/-- Then its folder is taken for one of a run that is over. -/
theorem not_sparesLive_lookedFirst :
    processes.Reachable lookedFirst ∧ ¬ SparesLive lookedFirst :=
  ⟨(System.reached_get (fun _ _ => true) next _ (reached_nothing _) (by decide)).mono
    fun _ _ _ => trivial, fun spares => by
      have live : (1, true) ∈ lookedFirst.swept := by decide
      cases spares _ live⟩

end ServerBox.Monitor.ScratchFolders
