import ServerBox.Monitor.Job
import ServerBox.Std.System
import ServerBox.Std.Table

/-!
# Deployed apps and their jobs

`src/monitor/src/stacks/mod.rs` with the rows of `stacks/store.rs`: the requests that
install, start, stop, restart, update, reconfigure and remove an app. A request is a
handler that checks, begins the app's job and prepares it, and a spawned task that runs
the job's commands and concludes it; `Party` is one of the two at the await it stands at.
A handler may be dropped at any of its awaits, a task runs on.
-/

namespace ServerBox.Monitor.Stacks

open ServerBox.Std

/-- Why a step was not started. -/
structure Refusal where
  status : Nat
  error : String
  field : Option String := none
deriving DecidableEq, Repr

/-- `db_failed`. -/
def dbFailed : Refusal := ⟨500, "internal", none⟩

/-! ### Packages and requests -/

/-- What a package gives a request: whether its licence must be accepted, and the commands
Compose is run with for it (`sbm_parser::stack`). -/
structure Package where
  licenseAccept : Bool := false
  deploy : List String
  start : String
  stop : String
  restart : String
  remove : Bool → List String

inductive StackAction where
  | start
  | stop
  | restart
  | update
deriving DecidableEq, Repr

inductive Request where
  | install (thirdParty license : Bool)
  | act (action : StackAction)
  | reconfigure
  | remove (purge : Bool)
deriving DecidableEq, Repr

/-- Whether a request goes on in `redeploy`. -/
def Request.redeploys : Request → Bool
  | .act .update => true
  | .reconfigure => true
  | _ => false

/-- The commands of a request's job. -/
def Request.steps (package : Package) : Request → List String
  | .install _ _ => package.deploy
  | .act .start => [package.start]
  | .act .stop => [package.stop]
  | .act .restart => [package.restart]
  | .act .update => package.deploy
  | .reconfigure => package.deploy
  | .remove purge => package.remove purge

/-! ### The agent -/

/-- `state` of a row. -/
inductive RowState where
  | installing
  | installed
  | failed
deriving DecidableEq, Repr

/-- What requests share: the rows, the jobs made so far, and the latest of each app. -/
structure Agent where
  rows : Table String RowState := ∅
  jobs : Table Nat Job := ∅
  nextId : Nat := 1
  latest : Table String Nat := ∅

namespace Agent

/-- Whether the job `begin` finds for an app is running. -/
def busy (agent : Agent) (app : String) : Bool :=
  match agent.latest.lookup app with
  | none => false
  | some id =>
      match agent.jobs.lookup id with
      | none => false
      | some job => job.state = .running

/-- `Stacks::begin`. -/
def begin (agent : Agent) (app : String) : Except Refusal (Agent × Nat) :=
  if agent.busy app then .error ⟨409, "busy", none⟩
  else .ok
    ({ agent with
        jobs := agent.jobs.insert agent.nextId {}
        latest := agent.latest.insert app agent.nextId
        nextId := agent.nextId + 1 }, agent.nextId)

/-- A change of one job. -/
def change (agent : Agent) (id : Nat) (change : Job → Job) : Agent :=
  match agent.jobs.lookup id with
  | none => agent
  | some job => { agent with jobs := agent.jobs.insert id (change job) }

/-- `Job::finish` of the job. -/
def finish (agent : Agent) (id : Nat) (state : JobState) (error : Option String) : Agent :=
  agent.change id fun job => job.finish state error

/-- The end of a job in `conclude`. -/
def conclude (agent : Agent) (id : Nat) : Option String → Agent
  | none => agent.finish id .succeeded none
  | some error => agent.finish id (if error = "cancelled" then .cancelled else .failed) (some error)

end Agent

/-! ### Handlers and tasks -/

/-- What a task awaits between its commands and `conclude`. -/
inductive TaskOp where
  | finishRow
  | setStopped
  | reload
  | startProxy
  | removeDir
  | deleteRow
  | noteError
deriving DecidableEq, Repr

/-- What the task of a request does once its commands have ended. -/
def Request.afterwards (row : RowState) (error : Option String) : Request → List TaskOp
  | .install _ _ => .finishRow :: if error.isNone then [.startProxy] else []
  | .act .update => .finishRow :: if error.isNone then [.setStopped, .reload] else []
  | .act _ =>
      (if error.isNone then [.setStopped] else []) ++
        if row ≠ .installed then .finishRow :: if error.isNone then [.reload] else [] else []
  | .reconfigure => .finishRow :: if error.isNone then [.setStopped, .reload] else []
  | .remove purge =>
      if error.isNone then (if purge then [.removeDir] else []) ++ [.deleteRow] else [.noteError]

/-- What an operation of a task leaves in the rows. -/
def TaskOp.apply (op : TaskOp) (agent : Agent) (app : String) (error : Option String) : Agent :=
  match op with
  | .finishRow =>
      match agent.rows.lookup app with
      | none => agent
      | some _ =>
          { agent with
            rows := agent.rows.insert app (if error.isSome then .failed else .installed) }
  | .deleteRow => { agent with rows := agent.rows.erase app }
  | _ => agent

/-- The await a party stands at, with the id of the job it has begun. -/
inductive Stage where
  | loading
  | composing
  | checking
  | preparing (id : Nat)
  | writing (id : Nat)
  | porting (id : Nat)
  | inserting (id : Nat)
  | rewriting (id : Nat)
  | auditing (id : Nat)
  | running (id : Nat) (steps : RunSteps)
  | tidying (id : Nat) (error : Option String) (ops : List TaskOp)
  | closing
  | ended (refusal : Option Refusal)
  | dropped
deriving DecidableEq, Repr

/-- The job a party will have to finish. -/
def Stage.held : Stage → Option Nat
  | preparing id | writing id | porting id | inserting id | rewriting id | auditing id => some id
  | running id _ => some id
  | tidying id _ _ => some id
  | _ => none

/-- Whether a party is a request's handler still. -/
def Stage.inHandler : Stage → Bool
  | running _ _ | tidying _ _ _ | closing | ended _ | dropped => false
  | _ => true

/-- Whether a party has come to its end. -/
def Stage.over : Stage → Bool
  | ended _ | dropped => true
  | _ => false

/-- A request's handler or, from `running` on, its task. `row` is the row's state as the
handler loaded it. -/
structure Party where
  app : String
  package : Package
  request : Request
  row : RowState := .installing
  stage : Stage

/-- How an await comes out. A failure carries its refusal, which the database's do not. -/
inductive Answer where
  | done
  | failed (refusal : Refusal)
  | step (event : StepEvent)
deriving DecidableEq, Repr

namespace Party

/-- A handler up to its first await. -/
def arrive (app : String) (request : Request) : Option Package → Party
  | none =>
      { app, request, package := ⟨false, [], "", "", "", fun _ => []⟩,
        stage := .ended (some ⟨404, "notFound", none⟩) }
  | some package =>
      { app, package, request
        stage :=
          match request with
          | .install thirdParty license =>
              if !thirdParty then .ended (some ⟨400, "notAcknowledged", none⟩)
              else if package.licenseAccept && !license then
                .ended (some ⟨400, "licenseNotAccepted", none⟩)
              else .loading
          | _ => .loading }

def moveTo (party : Party) (stage : Stage) : Party := { party with stage }

def refused (party : Party) (refusal : Refusal) : Party := party.moveTo (.ended (some refusal))

/-- `job.finish(Failed, …)` with the refusal that is answered. -/
def fail (agent : Agent) (party : Party) (id : Nat) (refusal : Refusal) : Agent × Party :=
  (agent.finish id .failed (some refusal.error), party.refused refusal)

/-- The handler begins its job, and awaits what follows. -/
def begins (agent : Agent) (party : Party) (stage : Nat → Stage) : Agent × Party :=
  match agent.begin party.app with
  | .error refusal => (agent, party.refused refusal)
  | .ok (agent, id) => (agent, party.moveTo (stage id))

/-- A party goes on from its await to the next. -/
def turn (agent : Agent) (party : Party) (answer : Answer) : Option (Agent × Party) :=
  match party.stage, answer with
  | .loading, .failed _ => some (agent, party.refused dbFailed)
  | .loading, .done =>
      match party.request, agent.rows.lookup party.app with
      | .install _ _, some _ => some (agent, party.refused ⟨409, "installed", none⟩)
      | .install _ _, none => some (agent, party.moveTo .composing)
      | _, none => some (agent, party.refused ⟨404, "notInstalled", none⟩)
      | _, some row => some (agent, { party with row, stage := .composing })
  | .composing, .failed refusal => some (agent, party.refused refusal)
  | .composing, .done =>
      match party.request with
      | .install _ _ => some (begins agent party .preparing)
      | .act .stop => some (begins agent party .auditing)
      | .remove _ => some (begins agent party .auditing)
      | .act _ | .reconfigure => some (agent, party.moveTo .checking)
  | .checking, .failed refusal => some (agent, party.refused refusal)
  | .checking, .done =>
      some (begins agent party (if party.request.redeploys then .writing else .auditing))
  | .preparing id, .failed refusal => some (fail agent party id refusal)
  | .preparing id, .done => some (agent, party.moveTo (.writing id))
  | .writing id, .failed refusal => some (fail agent party id refusal)
  | .writing id, .done =>
      some (agent, party.moveTo (if party.request.redeploys then .rewriting id else .porting id))
  | .porting id, .failed refusal => some (fail agent party id refusal)
  | .porting id, .done => some (agent, party.moveTo (.inserting id))
  | .inserting id, .failed refusal => some (fail agent party id refusal)
  | .inserting id, .done =>
      match agent.rows.lookup party.app with
      | some _ => some (fail agent party id ⟨409, "installed", none⟩)
      | none =>
          some ({ agent with rows := agent.rows.insert party.app .installing },
            party.moveTo (.auditing id))
  -- `rewrite(…).map_err(db_failed)?` answers without `job.finish`.
  | .rewriting _, .failed _ => some (agent, party.refused dbFailed)
  | .rewriting id, .done => some (agent, party.moveTo (.auditing id))
  | .auditing id, .done =>
      some (agent, party.moveTo (.running id (.call (party.request.steps party.package))))
  | .running id (.returned error), .done =>
      some (agent, party.moveTo (.tidying id error (party.request.afterwards party.row error)))
  | .running id steps, .step event =>
      (agent.jobs.lookup id).bind fun job => (steps.next job event).map fun after =>
        (agent.change id fun _ => after.1, party.moveTo (.running id after.2))
  | .tidying id error [], .done => some (agent.conclude id error, party.moveTo .closing)
  | .tidying id error (_ :: ops), .failed _ => some (agent, party.moveTo (.tidying id error ops))
  | .tidying id error (op :: ops), .done =>
      let ops := if op = .reload ∧ (agent.rows.lookup party.app).isSome then .startProxy :: ops
        else ops
      some (op.apply agent party.app error, party.moveTo (.tidying id error ops))
  | .closing, .done => some (agent, party.moveTo (.ended none))
  | _, _ => none

end Party

/-! ### Runs -/

structure State where
  agent : Agent := {}
  parties : List Party := []

/-- What happens: a request comes, with the package the catalog has for its app at that time; a
party goes on; a handler is dropped; an app's job is cancelled. -/
inductive Event where
  | request (app : String) (request : Request) (package : Option Package)
  | turn (party : Nat) (answer : Answer)
  | drop (party : Nat)
  | cancel (app : String)

def next (state : State) : Event → Option State
  | .request app request package =>
      some { state with parties := state.parties ++ [Party.arrive app request package] }
  | .turn index answer =>
      (state.parties[index]?).bind fun party => (party.turn state.agent answer).map fun after =>
        ⟨after.1, state.parties.set index after.2⟩
  | .drop index =>
      (state.parties[index]?).bind fun party =>
        if party.stage.inHandler then
          some { state with parties := state.parties.set index (party.moveTo .dropped) }
        else none
  | .cancel app =>
      match state.agent.latest.lookup app with
      | none => some state
      | some id => some { state with agent := state.agent.change id Job.cancel }

/-- An agent from its start on, with the apps that are deployed by then. -/
def system (rows : Table String RowState) : System State Event :=
  .ofNext (fun state => state = { agent := { rows } }) next

/-- Whether an answer makes a party return without finishing the job it has begun. -/
def Party.forgets (party : Party) : Answer → Bool
  | .failed _ =>
      match party.stage with
      | .rewriting _ => true
      | _ => false
  | _ => false

/-- Whether a step leaves the job of its party to be finished: no handler that has begun a job is
dropped, and `redeploy`'s `rewrite` does not fail. -/
def keepsJob (state : State) : Event → Bool
  | .drop index =>
      match state.parties[index]? with
      | some party => party.stage.held.isNone
      | none => true
  | .turn index answer =>
      match state.parties[index]? with
      | some party => !party.forgets answer
      | none => true
  | _ => true

end ServerBox.Monitor.Stacks
