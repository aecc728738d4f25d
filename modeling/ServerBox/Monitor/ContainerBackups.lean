import Mathlib.Data.List.DropRight
import ServerBox.Monitor.Job
import ServerBox.Std.System

/-!
# Backups and restores of containers

`src/monitor/src/container_backups.rs` with the commands of
`src/crates/sbm_parser/src/container_backup.rs`. A backup stops its containers when asked,
archives what they keep and starts them again; a restore does so around the archives it
writes back. Both hand their commands to `Job::run_steps`, the start in a call of its own,
and that call looks at the cancel flag before it does anything.
-/

namespace ServerBox.Monitor.ContainerBackups

open ServerBox.Std

/-! ### Commands -/

inductive ContainerType where
  | docker
  | podman
deriving DecidableEq, Repr

def ContainerType.name : ContainerType → String
  | docker => "docker"
  | podman => "podman"

/-- `shell_quote_unix`. -/
def shellQuoteUnix (text : String) : String :=
  "'" ++ String.ofList (text.toList.flatMap fun char =>
    if char = '\'' then "'\\''".toList else [char]) ++ "'"

inductive Mount where
  | volume (name destination : String)
  | bind (source destination : String)
deriving DecidableEq, Repr

namespace Mount

/-- What `-v` mounts it from. -/
def source : Mount → String
  | volume name _ => name
  | bind source _ => source

/-- `SYSTEM_DIRS`. -/
def systemDirs : List String :=
  ["/", "/bin", "/boot", "/dev", "/etc", "/lib", "/lib32", "/lib64", "/libx32", "/proc", "/root",
    "/run", "/sbin", "/sys", "/usr", "/var", "/var/run", "/var/lib", "/var/lib/docker",
    "/var/lib/containers", "/home", "/tmp"]

def isSystem : Mount → Bool
  | volume _ _ => false
  | bind source _ =>
      let trimmed := String.ofList (source.toList.rdropWhile (· = '/'))
      systemDirs.contains (if trimmed.isEmpty then "/" else trimmed)

end Mount

/-- What the inspection of a container says, without its image and its project. -/
structure Inspected where
  id : String
  name : String
  running : Bool
  mounts : List Mount
deriving DecidableEq, Repr

/-- Stops (or, with `start`, starts) `ids`. -/
def lifecycleCommand (runtime : ContainerType) (ids : List String) (start : Bool) : String :=
  runtime.name ++ (if start then " start" else " stop") ++
    String.join (ids.map fun id => " " ++ shellQuoteUnix id)

def helperImage : String := "docker.io/library/alpine:3"

def archiveCommand (runtime : ContainerType) (mount : Mount) (dir file : String) : String :=
  runtime.name ++ " run --rm -v " ++ shellQuoteUnix mount.source ++ ":/sbm-src:ro -v " ++
    shellQuoteUnix dir ++ ":/sbm-backup " ++ helperImage ++ " tar czf " ++
    shellQuoteUnix ("/sbm-backup/" ++ file) ++ " -C /sbm-src ."

def restoreCommand (runtime : ContainerType) (mount : Mount) (dir file : String) : String :=
  let script := "find /sbm-dst -mindepth 1 -delete && tar xzf " ++
    shellQuoteUnix ("/sbm-backup/" ++ file) ++ " -C /sbm-dst"
  runtime.name ++ " run --rm -v " ++ shellQuoteUnix mount.source ++ ":/sbm-dst -v " ++
    shellQuoteUnix dir ++ ":/sbm-backup:ro " ++ helperImage ++ " sh -c " ++ shellQuoteUnix script

/-- A stop and a start of the same containers are different commands. -/
theorem stop_ne_start (runtime : ContainerType) (ids others : List String) :
    lifecycleCommand runtime ids false ≠ lifecycleCommand runtime others true := by
  intro same
  have sameChars := congrArg String.toList same
  cases runtime <;> simp [lifecycleCommand, ContainerType.name] at sameChars

/-- No archive is made by a stop or a start. -/
theorem archive_ne_lifecycle (runtime : ContainerType) (mount : Mount) (dir file : String)
    (ids : List String) (start : Bool) :
    archiveCommand runtime mount dir file ≠ lifecycleCommand runtime ids start := by
  intro same
  have sameChars := congrArg String.toList same
  cases runtime <;> cases start <;>
    simp [lifecycleCommand, archiveCommand, ContainerType.name] at sameChars

/-- No archive is written back by a stop or a start. -/
theorem restore_ne_lifecycle (runtime : ContainerType) (mount : Mount) (dir file : String)
    (ids : List String) (start : Bool) :
    restoreCommand runtime mount dir file ≠ lifecycleCommand runtime ids start := by
  intro same
  have sameChars := congrArg String.toList same
  cases runtime <;> cases start <;>
    simp [lifecycleCommand, restoreCommand, ContainerType.name] at sameChars

/-! ### Plans -/

structure Archive where
  file : String
  container : String
  mount : Mount
deriving DecidableEq, Repr

structure Skipped where
  container : String
  mount : Mount
  why : String
deriving DecidableEq, Repr

/-- What a backup's `meta.json` says that a restore reads, and what was left out. -/
structure Meta where
  containers : List String
  archives : List Archive
  skipped : List Skipped
deriving DecidableEq, Repr

/-- The agent's machine: which paths are folders, and the folder web apps share. -/
structure Host where
  isDir : String → Bool
  shared : String

/-- `Path::components`: a root, a leading `.`, and the names between the slashes. -/
def pathComponents (path : String) : List String :=
  match path.splitOn "/" with
  | [] => []
  | first :: rest =>
      (if first = "" then if rest.isEmpty then [] else ["/"] else [first]) ++
        rest.filter fun part => part ≠ "" ∧ part ≠ "."

/-- Why a mount is not archived. -/
def Host.leavesOut (host : Host) (mount : Mount) : Option String :=
  if mount.isSystem then some "system"
  else match mount with
    | .volume _ _ => none
    | .bind source _ =>
        if !host.isDir source then some "notFolder"
        else if (pathComponents host.shared).isPrefixOf (pathComponents source) then some "shared"
        else none

/-- The sources seen, the archives planned and the mounts skipped so far. -/
structure Planned where
  seen : List String := []
  archives : List Archive := []
  skipped : List Skipped := []

/-- One turn of the loop over the containers' mounts. -/
def Planned.mount (host : Host) (container : String) (planned : Planned) (mount : Mount) : Planned :=
  if mount.source ∈ planned.seen then planned
  else
    let seen := mount.source :: planned.seen
    match host.leavesOut mount with
    | some why => { planned with seen, skipped := planned.skipped ++ [⟨container, mount, why⟩] }
    | none =>
        let file := s!"m{planned.archives.length + 1}.tar.gz"
        { planned with seen, archives := planned.archives ++ [⟨file, container, mount⟩] }

def planned (host : Host) (containers : List Inspected) : Planned :=
  containers.foldl (fun planned container =>
    container.mounts.foldl (Planned.mount host container.name) planned) {}

/-- The ids of the containers that run. -/
def running (containers : List Inspected) : List String :=
  (containers.filter (·.running)).map (·.id)

/-- What the spawned future is given: the steps, the start that follows them, and whether a
`meta.json` is written at the end. -/
structure Task where
  steps : List String
  restart : Option String
  writesMeta : Bool
deriving DecidableEq, Repr

/-- `back_up`, from the containers inspected to the future it spawns. -/
def backUp (host : Host) (runtime : ContainerType) (containers : List Inspected) (stop : Bool)
    (dir : String) : Task × Meta :=
  let planned := planned host containers
  let running := running containers
  let stops := stop && !running.isEmpty
  ({ steps := (if stops then [lifecycleCommand runtime running false] else []) ++
        planned.archives.map fun archive => archiveCommand runtime archive.mount dir archive.file
     restart := if stops then some (lifecycleCommand runtime running true) else none
     writesMeta := true },
    { containers := containers.map (·.name)
      archives := planned.archives
      skipped := planned.skipped })

/-- `present` of a restore: the containers found that the backup named. -/
def present (backup : Meta) (inspected : List Inspected) : List Inspected :=
  inspected.filter fun container => backup.containers.contains container.name

/-- `restore`, from the containers inspected to the future it spawns. -/
def restore (runtime : ContainerType) (backup : Meta) (inspected : List Inspected) (dir : String) :
    Task :=
  let running := running (present backup inspected)
  { steps := (if !running.isEmpty then [lifecycleCommand runtime running false] else []) ++
      (backup.archives.filter fun archive => !archive.mount.isSystem).map fun archive =>
        restoreCommand runtime archive.mount dir archive.file
    restart := if !running.isEmpty then some (lifecycleCommand runtime running true) else none
    writesMeta := false }

/-- A backup or a restore asked for, with what was inspected for it. -/
inductive Request where
  | backUp (host : Host) (runtime : ContainerType) (containers : List Inspected) (stop : Bool)
      (dir : String)
  | restore (runtime : ContainerType) (backup : Meta) (inspected : List Inspected) (dir : String)

namespace Request

def task : Request → Task
  | .backUp host runtime containers stop dir =>
      (ContainerBackups.backUp host runtime containers stop dir).1
  | .restore runtime backup inspected dir =>
      ContainerBackups.restore runtime backup inspected dir

/-- The command that stops, or starts, the running containers of a request. -/
def lifecycle (start : Bool) : Request → String
  | .backUp _ runtime containers _ _ => lifecycleCommand runtime (running containers) start
  | .restore runtime backup inspected _ =>
      lifecycleCommand runtime (running (present backup inspected)) start

/-- A request that does not start its containers again does not stop them either. -/
theorem stop_of_restart (request : Request) :
    request.task.restart = some (request.lifecycle true) ∨
      request.task.restart = none ∧ request.lifecycle false ∉ request.task.steps := by
  cases request with
  | backUp host runtime containers stop dir =>
      by_cases stops : (stop && !(running containers).isEmpty) = true
      · left
        simp [task, ContainerBackups.backUp, lifecycle, stops]
      · right
        refine ⟨by simp [task, ContainerBackups.backUp, stops], ?_⟩
        simp only [task, ContainerBackups.backUp, stops, lifecycle, if_neg, Bool.false_eq_true,
          not_false_eq_true, List.nil_append]
        rintro isArchive
        obtain ⟨archive, _, same⟩ := List.mem_map.mp isArchive
        exact archive_ne_lifecycle _ _ _ _ _ _ same
  | restore runtime backup inspected dir =>
      by_cases stops : (!(running (present backup inspected)).isEmpty) = true
      · left
        simp [task, ContainerBackups.restore, lifecycle, stops]
      · right
        refine ⟨by simp [task, ContainerBackups.restore, stops], ?_⟩
        simp only [task, ContainerBackups.restore, stops, lifecycle, if_neg, Bool.false_eq_true,
          not_false_eq_true, List.nil_append]
        rintro isArchive
        obtain ⟨archive, _, same⟩ := List.mem_map.mp isArchive
        exact restore_ne_lifecycle _ _ _ _ _ _ same

/-- No step of a request is the start of its containers. -/
theorem start_not_mem_steps (request : Request) : request.lifecycle true ∉ request.task.steps := by
  intro member
  cases request with
  | backUp host runtime containers stop dir =>
      rcases List.mem_append.mp member with isStop | isArchive
      · split at isStop
        · exact stop_ne_start _ _ _ (List.mem_singleton.mp isStop).symm
        · cases isStop
      · obtain ⟨archive, _, same⟩ := List.mem_map.mp isArchive
        exact archive_ne_lifecycle _ _ _ _ _ _ same
  | restore runtime backup inspected dir =>
      rcases List.mem_append.mp member with isStop | isArchive
      · split at isStop
        · exact stop_ne_start _ _ _ (List.mem_singleton.mp isStop).symm
        · cases isStop
      · obtain ⟨archive, _, same⟩ := List.mem_map.mp isArchive
        exact restore_ne_lifecycle _ _ _ _ _ _ same

end Request

/-! ### Runs -/

/-- Where the spawned future stands. -/
inductive Point where
  | running (steps : RunSteps)
  | restarting (error : Option String) (steps : RunSteps)
  | concluding (error : Option String)
  | ended
deriving DecidableEq, Repr

structure State where
  job : Job := {}
  point : Point
deriving DecidableEq, Repr

/-- What happens: a turn of the `run_steps` being called, its return, the end of the future
with the error of writing `meta.json`, and a cancel of the job at any time. -/
inductive Event where
  | turn (event : StepEvent)
  | returns
  | conclude (unwritten : Option String)
  | cancel
deriving DecidableEq, Repr

/-- What the future has made of the job when it concludes. -/
def Task.result (task : Task) (error unwritten : Option String) : Option String :=
  match error with
  | some error => some error
  | none => if task.writesMeta then unwritten.map fun error => "writing meta.json: " ++ error else none

/-- `finish`. -/
def conclude (job : Job) : Option String → Job
  | none => job.finish .succeeded none
  | some error => job.finish (if error = "cancelled" then .cancelled else .failed) (some error)

@[simp] theorem conclude_ran (job : Job) (error : Option String) :
    (conclude job error).ran = job.ran := by
  cases error with
  | none => rfl
  | some error => rfl

def next (task : Task) (state : State) : Event → Option State
  | .turn event =>
      match state.point with
      | .running steps => (steps.next state.job event).map fun after =>
          ⟨after.1, .running after.2⟩
      | .restarting error steps => (steps.next state.job event).map fun after =>
          ⟨after.1, .restarting error after.2⟩
      | _ => none
  | .returns =>
      match state.point with
      | .running (.returned error) =>
          match task.restart with
          | some restart => some { state with point := .restarting error (.call [restart]) }
          | none => some { state with point := .concluding error }
      | .restarting error (.returned started) =>
          some { state with point := .concluding (error.or started) }
      | _ => none
  | .conclude unwritten =>
      match state.point with
      | .concluding error => some ⟨conclude state.job (task.result error unwritten), .ended⟩
      | _ => none
  | .cancel => some { state with job := state.job.cancel }

/-- The future of a task, from its spawn. -/
def system (task : Task) : System State Event :=
  .ofNext (fun state => state = { point := .running (.call task.steps) }) (next task)

/-- Whether the start of the containers is not lost to a cancel in this state: nothing has been
started yet and the first look is still to come, or the start's own look is over. -/
def Point.cancellable (task : Task) : Point → Bool
  | .running steps => steps = .call task.steps
  | .restarting _ (.looking _ (_ :: _)) => false
  | _ => true

/-- Whether a step leaves the start to come: no cancel where one would lose it, and no failure
to start the shell of the start itself. -/
def keepsRestart (task : Task) (state : State) : Event → Bool
  | .cancel => state.point.cancellable task
  | .turn (.spawn (some _)) =>
      match state.point with
      | .restarting _ _ => false
      | _ => true
  | _ => true

/-- All a step can be. -/
inductive Took (task : Task) : State → Event → State → Prop where
  | running {job after steps following event} (turn : steps.next job event = some (after, following)) :
      Took task ⟨job, .running steps⟩ (.turn event) ⟨after, .running following⟩
  | restarting {job after error steps following event}
      (turn : steps.next job event = some (after, following)) :
      Took task ⟨job, .restarting error steps⟩ (.turn event) ⟨after, .restarting error following⟩
  | restarts {job error restart} (restarts : task.restart = some restart) :
      Took task ⟨job, .running (.returned error)⟩ .returns ⟨job, .restarting error (.call [restart])⟩
  | finished {job error} (noRestart : task.restart = none) :
      Took task ⟨job, .running (.returned error)⟩ .returns ⟨job, .concluding error⟩
  | restarted {job error started} :
      Took task ⟨job, .restarting error (.returned started)⟩ .returns
        ⟨job, .concluding (error.or started)⟩
  | concluded {job error unwritten} :
      Took task ⟨job, .concluding error⟩ (.conclude unwritten)
        ⟨conclude job (task.result error unwritten), .ended⟩
  | cancelled {job point} : Took task ⟨job, point⟩ .cancel ⟨job.cancel, point⟩

theorem next_took {task : Task} {state after : State} {event : Event}
    (step : next task state event = some after) : Took task state event after := by
  obtain ⟨job, point⟩ := state
  cases event with
  | turn event =>
      cases point with
      | running steps =>
          obtain ⟨⟨_, _⟩, turn, rfl⟩ := Option.map_eq_some_iff.mp step
          exact .running turn
      | restarting error steps =>
          obtain ⟨⟨_, _⟩, turn, rfl⟩ := Option.map_eq_some_iff.mp step
          exact .restarting turn
      | concluding error => cases step
      | ended => cases step
  | returns =>
      match point with
      | .running (.returned error) =>
          cases restarts : task.restart with
          | none =>
              obtain rfl : _ = after := by simpa [next, restarts] using step
              exact .finished restarts
          | some start =>
              obtain rfl : _ = after := by simpa [next, restarts] using step
              exact .restarts restarts
      | .restarting error (.returned started) =>
          obtain rfl := Option.some.inj step
          exact .restarted
  | conclude unwritten =>
      match point with
      | .concluding error =>
          obtain rfl := Option.some.inj step
          exact .concluded
  | cancel =>
      obtain rfl := Option.some.inj step
      exact .cancelled

namespace Runs

/-! #### The start still to come -/

/-- Where the call of `run_steps` for the start stands, and what is known there. -/
def Restart (start : String) (job : Job) : RunSteps → Prop
  | .looking _ [] => start ∈ job.ran
  | .looking _ (step :: rest) => step = start ∧ rest = [] ∧ (job.cancelled = true → job.ran = [])
  | .starting _ step rest => step = start ∧ rest = []
  | .waiting _ rest => rest = [] ∧ start ∈ job.ran
  | .returned _ => job.ran = [] ∨ start ∈ job.ran

/-- The invariant of a run that keeps its restart: a cancelled job has started nothing, until
the start of the containers has passed its look. -/
def Keeps (task : Task) (start : String) (state : State) : Prop :=
  match state.point with
  | .running steps => state.job.state = .running ∧ (steps = .call task.steps → state.job.ran = []) ∧
      (state.job.cancelled = true →
        state.job.ran = [] ∧ (steps = .call task.steps ∨ ∃ error, steps = .returned error))
  | .restarting _ steps => state.job.state = .running ∧ Restart start state.job steps
  | .concluding _ => state.job.state = .running ∧ (state.job.ran = [] ∨ start ∈ state.job.ran)
  | .ended => state.job.ran = [] ∨ start ∈ state.job.ran

/-- A turn of the first `run_steps` keeps the invariant. -/
theorem keeps_running {task : Task} {start : String} {job after : Job} {steps following : RunSteps}
    {event : StepEvent} (keeps : Keeps task start ⟨job, .running steps⟩)
    (turn : steps.next job event = some (after, following)) :
    Keeps task start ⟨after, .running following⟩ := by
  obtain ⟨alive, unstarted, unspent⟩ := keeps
  obtain ⟨index, step, rest, rfl, _, rfl, rfl⟩ | ⟨index, step, rest, rfl, notCancelled, rfl, rfl⟩ |
    ⟨index, rest, rfl, rfl, rfl⟩ | ⟨error, rfl, rfl, _⟩ := RunSteps.next_cases turn
  · refine ⟨alive, by simp [RunSteps.call], fun cancelled => ?_⟩
    obtain ⟨_, atStart⟩ := unspent cancelled
    simp [RunSteps.call] at atStart
  · refine ⟨alive, by simp [RunSteps.call], fun cancelled => ?_⟩
    rw [notCancelled] at cancelled
    cases cancelled
  · refine ⟨alive, by simp [RunSteps.call], fun cancelled => ?_⟩
    obtain ⟨_, atStart⟩ := unspent cancelled
    simp [RunSteps.call] at atStart
  · exact ⟨alive, by simp [RunSteps.call], fun cancelled => ⟨(unspent cancelled).1, .inr ⟨error, rfl⟩⟩⟩

/-- A turn of the `run_steps` that starts the containers again keeps what is known of it. -/
theorem restart_turn {start : String} {job after : Job} {steps following : RunSteps}
    {event : StepEvent} (restart : Restart start job steps)
    (spawns : ∀ refusal, event ≠ .spawn (some refusal))
    (turn : steps.next job event = some (after, following)) : Restart start after following := by
  obtain ⟨index, step, rest, rfl, _, rfl, rfl⟩ | ⟨index, step, rest, rfl, _, rfl, rfl⟩ |
    ⟨index, rest, rfl, rfl, rfl⟩ | ⟨error, rfl, rfl, looked, refused⟩ := RunSteps.next_cases turn
  · obtain ⟨rfl, rfl⟩ := restart
    exact ⟨rfl, by simp⟩
  · exact ⟨restart.1, restart.2.1⟩
  · obtain ⟨rfl, ran⟩ := restart
    exact ran
  · cases steps with
    | looking index list =>
        cases list with
        | nil => exact .inr restart
        | cons step rest => exact .inl (restart.2.2 (looked index step rest rfl))
    | starting index step rest =>
        obtain ⟨refusal, isRefusal⟩ := refused index step rest rfl
        exact absurd isRefusal (spawns refusal)
    | waiting index rest => exact .inr restart.2
    | returned error => exact restart

/-- A step that leaves the start to come keeps the invariant. -/
theorem keeps_step {task : Task} {start : String} (restarts : task.restart = some start)
    {state after : State} {event : Event} (keeps : Keeps task start state)
    (meets : keepsRestart task state event = true) (step : next task state event = some after) :
    Keeps task start after := by
  cases next_took step with
  | running turn => exact keeps_running keeps turn
  | restarting turn =>
      refine ⟨(RunSteps.next_keeps turn).2.trans keeps.1, restart_turn keeps.2 ?_ turn⟩
      rintro refusal rfl
      cases meets
  | restarts isRestart =>
      obtain rfl := Option.some.inj (restarts.symm.trans isRestart)
      exact ⟨keeps.1, rfl, rfl, fun cancelled => (keeps.2.2 cancelled).1⟩
  | finished noRestart => cases restarts.symm.trans noRestart
  | restarted => exact keeps
  | concluded =>
      simp only [Keeps, conclude_ran]
      exact keeps.2
  | @cancelled job point =>
      match point, meets with
      | .running steps, meets =>
          have atCall : steps = .call task.steps := of_decide_eq_true meets
          exact ⟨keeps.1, keeps.2.1, fun _ => ⟨keeps.2.1 atCall, .inl atCall⟩⟩
      | .restarting _ (.looking _ []), _ => exact keeps
      | .restarting _ (.starting _ _ _), _ => exact keeps
      | .restarting _ (.waiting _ _), _ => exact keeps
      | .restarting _ (.returned _), _ => exact keeps
      | .concluding _, _ => exact keeps
      | .ended, _ => exact keeps

/-- A run that leaves the start to come has, once ended, started nothing or the containers. -/
theorem started_of_keeps {task : Task} {start : String} (restarts : task.restart = some start)
    {state : State} (ended : state.job.state ≠ .running)
    (reached : (system task).Reached (fun state event => keepsRestart task state event = true)
      state) :
    state.job.ran = [] ∨ start ∈ state.job.ran := by
  have keeps : Keeps task start state := by
    refine System.Reached.holds ?_ ?_ reached
    · rintro _ rfl
      exact ⟨rfl, fun _ => rfl, fun cancelled => by cases cancelled⟩
    · intro state event after keeps meets step
      exact keeps_step restarts keeps meets step
  match state, keeps with
  | ⟨_, .running _⟩, keeps => exact absurd keeps.1 ended
  | ⟨_, .restarting _ _⟩, keeps => exact absurd keeps.1 ended
  | ⟨_, .concluding _⟩, keeps => exact absurd keeps.1 ended
  | ⟨_, .ended⟩, keeps => exact keeps

/-! #### What is started before the start -/

/-- What a future has started before the start of its containers, and may still start, is of
its steps. -/
def StartsSteps (task : Task) (state : State) : Prop :=
  match state.point with
  | .running steps => state.job.ran ⊆ task.steps ∧ steps.left ⊆ task.steps
  | .restarting _ (.looking _ [_]) | .restarting _ (.starting _ _ []) =>
      state.job.ran ⊆ task.steps ∧ task.restart ≠ none
  | .restarting _ (.looking _ []) | .restarting _ (.waiting _ []) | .restarting _ (.returned _) =>
      task.restart ≠ none
  | .restarting _ _ => False
  | _ => task.restart = none → state.job.ran ⊆ task.steps

theorem startsSteps_turn {task : Task} {error : Option String} {job after : Job}
    {steps following : RunSteps} {event : StepEvent}
    (starts : StartsSteps task ⟨job, .restarting error steps⟩)
    (turn : steps.next job event = some (after, following)) :
    StartsSteps task ⟨after, .restarting error following⟩ := by
  obtain ⟨index, step, rest, rfl, _, rfl, rfl⟩ | ⟨index, step, rest, rfl, _, rfl, rfl⟩ |
    ⟨index, rest, rfl, rfl, rfl⟩ | ⟨error, rfl, rfl, _⟩ := RunSteps.next_cases turn
  · match rest, starts with
    | [], starts => exact starts.2
  · match rest, starts with
    | [], starts => exact starts
  · match rest, starts with
    | [], starts => exact starts
  · match steps, starts with
    | .looking _ [], starts => exact starts
    | .looking _ [_], starts => exact starts.2
    | .starting _ _ [], starts => exact starts.2
    | .waiting _ [], starts => exact starts
    | .returned _, starts => exact starts

/-- Every step keeps what a future may start. -/
theorem startsSteps_step {task : Task} {state after : State} {event : Event}
    (starts : StartsSteps task state) (step : next task state event = some after) :
    StartsSteps task after := by
  cases next_took step with
  | running turn =>
      obtain ⟨ran, left⟩ := RunSteps.next_left turn
      refine ⟨fun command member => ?_, fun command member => starts.2 (left member)⟩
      rcases ran command member with before | now
      · exact starts.1 before
      · exact starts.2 now
  | restarting turn => exact startsSteps_turn starts turn
  | restarts restarts => exact ⟨starts.1, by simp [restarts]⟩
  | finished noRestart => exact fun _ => starts.1
  | restarted => exact fun noRestart => absurd noRestart starts
  | concluded =>
      simp only [StartsSteps, conclude_ran]
      exact starts
  | cancelled => exact starts

theorem startsSteps_reached {task : Task} {state : State} (reached : (system task).Reachable state) :
    StartsSteps task state := by
  refine System.Reached.holds ?_ ?_ reached
  · rintro _ rfl
    exact ⟨List.nil_subset _, List.Subset.refl _⟩
  · intro state event after starts _ step
    exact startsSteps_step starts step

/-- A future without a start runs its steps alone. -/
theorem ran_subset_of_noRestart {task : Task} (noRestart : task.restart = none) {state : State}
    (reached : (system task).Reachable state) : state.job.ran ⊆ task.steps := by
  have starts := startsSteps_reached reached
  match state, starts with
  | ⟨_, .running _⟩, starts => exact starts.1
  | ⟨_, .restarting _ (.looking _ [])⟩, starts => exact absurd noRestart starts
  | ⟨_, .restarting _ (.looking _ [_])⟩, starts => exact starts.1
  | ⟨_, .restarting _ (.starting _ _ [])⟩, starts => exact starts.1
  | ⟨_, .restarting _ (.waiting _ [])⟩, starts => exact absurd noRestart starts
  | ⟨_, .restarting _ (.returned _)⟩, starts => exact absurd noRestart starts
  | ⟨_, .concluding _⟩, starts => exact starts noRestart
  | ⟨_, .ended⟩, starts => exact starts noRestart

/-! #### The start lost -/

/-- The start is lost: it was not started and what is left will not start it. -/
def Lost (start : String) (state : State) : Prop :=
  start ∉ state.job.ran ∧
    match state.point with
    | .running steps => state.job.cancelled = true ∧ start ∉ steps.left
    | .restarting _ (.looking _ (_ :: _)) => state.job.cancelled = true
    | .restarting _ (.returned _) => True
    | .restarting _ _ => False
    | _ => True

/-- A start that is lost stays lost. -/
theorem lost_step {task : Task} {start : String} {state after : State} {event : Event}
    (lost : Lost start state) (step : next task state event = some after) : Lost start after := by
  obtain ⟨notRan, lost⟩ := lost
  cases next_took step with
  | running turn =>
      obtain ⟨ran, left⟩ := RunSteps.next_left turn
      refine ⟨fun member => ?_, (RunSteps.next_keeps turn).1.trans lost.1,
        fun member => lost.2 (left member)⟩
      rcases ran start member with before | now
      · exact notRan before
      · exact lost.2 now
  | restarting turn =>
      obtain ⟨index, step, rest, rfl, _⟩ | ⟨index, step, rest, rfl, notCancelled, _⟩ |
        ⟨index, rest, rfl, _⟩ | ⟨error, rfl, rfl, _⟩ := RunSteps.next_cases turn
      · exact lost.elim
      · rw [notCancelled] at lost
        cases lost
      · exact lost.elim
      · exact ⟨notRan, trivial⟩
  | restarts => exact ⟨notRan, lost.1⟩
  | finished => exact ⟨notRan, trivial⟩
  | restarted => exact ⟨notRan, trivial⟩
  | concluded =>
      refine ⟨?_, trivial⟩
      rw [conclude_ran]
      exact notRan
  | @cancelled job point =>
      refine ⟨notRan, ?_⟩
      match point, lost with
      | .running steps, lost => exact ⟨rfl, lost.2⟩
      | .restarting _ (.looking _ (_ :: _)), _ => rfl
      | .restarting _ (.returned _), _ => trivial
      | .concluding _, _ => trivial
      | .ended, _ => trivial

/-- A step that does not leave the start to come loses it. -/
theorem lost_of_breaks {task : Task} {start : String} (notStep : start ∉ task.steps)
    {state after : State} {event : Event} (starts : StartsSteps task state)
    (breaks : keepsRestart task state event = false)
    (step : next task state event = some after) : Lost start after := by
  cases next_took step with
  | @running _ _ _ _ event =>
      match event, breaks with
      | .spawn (some _), breaks => cases breaks
  | @restarting job _ error steps _ event turn =>
      match event, breaks with
      | .spawn (some refusal), _ =>
          match steps, starts, turn with
          | .starting _ _ [], starts, turn =>
              obtain ⟨rfl, rfl⟩ := Prod.mk.inj (Option.some.inj turn)
              exact ⟨fun member => notStep (starts.1 member), trivial⟩
          | .looking _ [], _, turn => cases turn
          | .looking _ (_ :: _), _, turn => cases turn
  | restarts => cases breaks
  | finished => cases breaks
  | restarted => cases breaks
  | concluded => cases breaks
  | @cancelled job point =>
      match point, breaks with
      | .running steps, _ =>
          exact ⟨fun member => notStep (starts.1 member), rfl, fun member => notStep (starts.2 member)⟩
      | .restarting _ (.looking _ [_]), _ =>
          exact ⟨fun member => notStep (starts.1 member), rfl⟩

end Runs

/-- Until the job has ended, containers may be down. Once it has, those that were stopped have
been started, in every run that loses the start neither to a cancel nor to a shell that does
not start. -/
theorem restarts_what_it_stops (request : Request) (state : State)
    (reached : (system request.task).Reached
      (fun state event => keepsRestart request.task state event = true) state)
    (ended : state.job.state ≠ .running) (stopped : request.lifecycle false ∈ state.job.ran) :
    request.lifecycle true ∈ state.job.ran := by
  rcases request.stop_of_restart with restarts | ⟨noRestart, notStep⟩
  · rcases Runs.started_of_keeps restarts ended reached with nothing | started
    · rw [nothing] at stopped
      cases stopped
    · exact started
  · have ran := Runs.ran_subset_of_noRestart noRestart (reached.mono fun _ _ _ => trivial)
    exact absurd (ran stopped) notStep

/-- The condition is exact: from a step that breaks it on, the containers are never started. -/
theorem never_started_once_lost (request : Request) {state after later : State} {event : Event}
    (reached : (system request.task).Reachable state)
    (breaks : keepsRestart request.task state event = false)
    (step : (system request.task).Step state event after)
    (goesOn : ((system request.task).startedIn after).Reachable later) :
    request.lifecycle true ∉ later.job.ran := by
  have lost : Runs.Lost (request.lifecycle true) after :=
    Runs.lost_of_breaks request.start_not_mem_steps (Runs.startsSteps_reached reached) breaks step
  have lostLater : Runs.Lost (request.lifecycle true) later := by
    refine System.Reached.holds ?_ ?_ goesOn
    · rintro _ rfl
      exact lost
    · intro state event after lost _ step
      exact Runs.lost_step lost step
  exact lostLater.1

/-! ### Two runs -/

/-- A backup of a running database and its volume, the container stopped meanwhile. -/
def databaseBackUp : Request :=
  .backUp ⟨fun _ => true, "/srv/shared"⟩ .docker
    [⟨"3f1c", "database", true, [.volume "pgdata" "/var/lib/postgresql/data"]⟩] true "/backups/1"

/-- The archive fails, and no cancel comes before the start. -/
def archiveFails : List Event :=
  [.turn .look, .turn (.spawn none), .turn (.ends (.exited (some 0))), .turn .look,
    .turn (.spawn none), .turn (.ends (.exited (some 1))), .returns, .turn .look,
    .turn (.spawn none), .turn (.ends (.exited (some 0))), .turn .look, .returns, .conclude none]

/-- The job is cancelled while the database is archived. -/
def archiveCancelled : List Event :=
  [.turn .look, .turn (.spawn none), .turn (.ends (.exited (some 0))), .turn .look,
    .turn (.spawn none), .cancel, .turn (.ends .cancelled), .returns, .turn .look, .returns,
    .conclude none]

/-- A failed archive leaves the database started. -/
theorem restarts_what_it_stops_archiveFails :
    "docker start '3f1c'" ∈
      ["docker stop '3f1c'", "docker run --rm -v 'pgdata':/sbm-src:ro -v '/backups/1':/sbm-backup " ++
        "docker.io/library/alpine:3 tar czf '/sbm-backup/m1.tar.gz' -C /sbm-src .",
        "docker start '3f1c'"] := by
  have reached := System.reached_follow (keepsRestart databaseBackUp.task) (next databaseBackUp.task)
    archiveFails (.initial rfl : (system databaseBackUp.task).Reached _ _) rfl
  exact restarts_what_it_stops databaseBackUp _ reached (by decide) (by decide)

/-- A cancel while the database is archived leaves it stopped. -/
theorem not_restarts_what_it_stops :
    ¬ ∀ (request : Request) (state : State), (system request.task).Reachable state →
      state.job.state ≠ .running → request.lifecycle false ∈ state.job.ran →
        request.lifecycle true ∈ state.job.ran := by
  intro restarts
  have reached := System.reached_follow (fun _ _ => true) (next databaseBackUp.task)
    archiveCancelled (.initial rfl : (system databaseBackUp.task).Reached _ _) rfl
  exact absurd (restarts databaseBackUp _ (reached.mono fun _ _ _ => trivial) (by decide) (by decide)) (by decide)

end ServerBox.Monitor.ContainerBackups
