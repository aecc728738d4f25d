import ServerBox.Monitor.Stacks

/-!
# Who finishes the job of an app

A party that holds a job goes on with it until it finishes it (`WillFinish`), unless it is
dropped before its task is spawned or `redeploy` cannot rewrite the row. In every run
without these two, an app whose job runs has such a party (`no_app_stays_busy`).
-/

namespace ServerBox.Monitor.Stacks

open ServerBox.Std

/-! ### What one turn does to the jobs -/

namespace Agent

/-- Only the job `id` differs. -/
structure SameBut (id : Nat) (before after : Agent) : Prop where
  latest : after.latest = before.latest
  nextId : after.nextId = before.nextId
  others : ∀ other, other ≠ id → after.jobs.lookup other = before.jobs.lookup other

theorem SameBut.refl (id : Nat) (agent : Agent) : SameBut id agent agent := ⟨rfl, rfl, fun _ _ => rfl⟩

theorem change_sameBut (agent : Agent) (id : Nat) (update : Job → Job) :
    SameBut id agent (agent.change id update) := by
  unfold change
  cases agent.jobs.lookup id with
  | none => exact .refl id agent
  | some job =>
      refine ⟨rfl, rfl, fun other different => ?_⟩
      exact AList.lookup_insert_ne different

theorem lookup_change (agent : Agent) (id : Nat) (update : Job → Job) :
    (agent.change id update).jobs.lookup id = (agent.jobs.lookup id).map update := by
  unfold change
  cases found : agent.jobs.lookup id with
  | none => exact found
  | some job => exact AList.lookup_insert _

/-- A finished job does not run. -/
theorem finish_not_running (agent : Agent) (id : Nat) {state : JobState} (error : Option String)
    (ended : state ≠ .running) {job : Job}
    (found : (agent.finish id state error).jobs.lookup id = some job) : job.state ≠ .running := by
  rw [finish, lookup_change] at found
  obtain ⟨before, _, rfl⟩ := Option.map_eq_some_iff.mp found
  exact ended

theorem conclude_sameBut (agent : Agent) (id : Nat) (error : Option String) :
    SameBut id agent (agent.conclude id error) := by
  cases error with
  | none => exact change_sameBut _ _ _
  | some error => exact change_sameBut _ _ _

theorem conclude_not_running (agent : Agent) (id : Nat) (error : Option String) {job : Job}
    (found : (agent.conclude id error).jobs.lookup id = some job) : job.state ≠ .running := by
  cases error with
  | none => exact finish_not_running agent id _ (by decide) found
  | some error =>
      refine finish_not_running agent id _ ?_ found
      split
      · decide
      · decide

/-- What `begin` does when it does not refuse. -/
theorem begin_ok {agent after : Agent} {app : String} {id : Nat}
    (begun : agent.begin app = .ok (after, id)) :
    agent.busy app = false ∧ id = agent.nextId ∧ after.latest = agent.latest.insert app id ∧
      after.jobs = agent.jobs.insert id {} ∧ after.nextId = agent.nextId + 1 := by
  unfold Agent.begin at begun
  split at begun
  · cases begun
  next notBusy =>
    obtain ⟨rfl, rfl⟩ := Prod.mk.inj (Except.ok.inj begun)
    exact ⟨by simpa using notBusy, rfl, rfl, rfl, rfl⟩

/-- An app is busy exactly when its latest job runs. -/
theorem busy_iff {agent : Agent} {app : String} :
    agent.busy app = true ↔ ∃ id job, agent.latest.lookup app = some id ∧
      agent.jobs.lookup id = some job ∧ job.state = .running := by
  unfold busy
  cases agent.latest.lookup app with
  | none => simp
  | some id =>
      cases found : agent.jobs.lookup id with
      | none => simp [found]
      | some job => simp [found]

end Agent

theorem TaskOp.apply_sameJobs (op : TaskOp) (agent : Agent) (app : String) (error : Option String) :
    (op.apply agent app error).jobs = agent.jobs ∧ (op.apply agent app error).latest = agent.latest ∧
      (op.apply agent app error).nextId = agent.nextId := by
  cases op with
  | finishRow =>
      simp only [apply]
      split <;> exact ⟨rfl, rfl, rfl⟩
  | setStopped => exact ⟨rfl, rfl, rfl⟩
  | reload => exact ⟨rfl, rfl, rfl⟩
  | startProxy => exact ⟨rfl, rfl, rfl⟩
  | removeDir => exact ⟨rfl, rfl, rfl⟩
  | deleteRow => exact ⟨rfl, rfl, rfl⟩
  | noteError => exact ⟨rfl, rfl, rfl⟩

theorem Request.afterwards_length (row : RowState) (error : Option String) (request : Request) :
    (request.afterwards row error).length + (request.afterwards row error).count .reload ≤ 4 := by
  cases error with
  | none =>
      cases request with
      | install _ _ => exact Nat.le_of_ble_eq_true rfl
      | act action => cases action <;> cases row <;> decide
      | reconfigure => exact Nat.le_of_ble_eq_true rfl
      | remove purge => cases purge <;> exact Nat.le_of_ble_eq_true rfl
  | some error =>
      cases request with
      | install _ _ => exact Nat.le_of_ble_eq_true rfl
      | act action => cases action <;> cases row <;> exact Nat.le_of_ble_eq_true rfl
      | reconfigure => exact Nat.le_of_ble_eq_true rfl
      | remove purge => exact Nat.le_of_ble_eq_true rfl

namespace Party

/-- How many turns a party that holds a job can take before it finishes it. -/
def turnsLeft (party : Party) : Nat :=
  let job := (RunSteps.call (party.request.steps party.package)).turnsLeft
  match party.stage with
  | .preparing _ => job + 13
  | .writing _ => job + 12
  | .porting _ => job + 11
  | .inserting _ => job + 10
  | .rewriting _ => job + 10
  | .auditing _ => job + 9
  | .running _ steps => steps.turnsLeft + 8
  | .tidying _ _ ops => ops.length + ops.count .reload
  | _ => 0

/-- All a turn can be, for the jobs. -/
inductive Turned (agent : Agent) (party : Party) (answer : Answer) :
    Agent → Party → Prop where
  | idle {following} (before : party.stage.held = none) (after : following.stage.held = none) :
      Turned agent party answer agent following
  | begun {after following} (before : party.stage.held = none)
      (begins : agent.begin party.app = .ok (after, agent.nextId))
      (holds : following.stage.held = some agent.nextId) (app : following.app = party.app) :
      Turned agent party answer after following
  | goesOn {after following id} (before : party.stage.held = some id)
      (holds : following.stage.held = some id) (app : following.app = party.app)
      (same : agent.SameBut id after)
      (state : ∀ job, agent.jobs.lookup id = some job → ∃ changed,
        after.jobs.lookup id = some changed ∧ changed.state = job.state)
      (nearer : following.turnsLeft < party.turnsLeft) : Turned agent party answer after following
  | finished {after following id} (before : party.stage.held = some id)
      (after_ : following.stage.held = none) (same : agent.SameBut id after)
      (ended : ∀ job, after.jobs.lookup id = some job → job.state ≠ .running) :
      Turned agent party answer after following
  | forgotten {following id refusal} (before : party.stage = .rewriting id)
      (answered : answer = .failed refusal) (after : following.stage.held = none) :
      Turned agent party answer agent following

theorem begins_turned {agent : Agent} {party : Party} {answer : Answer} {stage : Nat → Stage}
    (before : party.stage.held = none) (holds : ∀ id, (stage id).held = some id) :
    Turned agent party answer (begins agent party stage).1 (begins agent party stage).2 := by
  unfold begins
  by_cases busy : agent.busy party.app = true
  · have refused : agent.begin party.app = .error ⟨409, "busy", none⟩ := if_pos busy
    simp only [refused]
    exact .idle before rfl
  · have begun : agent.begin party.app = .ok (_, agent.nextId) := if_neg busy
    simp only [begun]
    exact .begun before begun (holds _) rfl

theorem fail_turned {agent : Agent} {party : Party} {answer : Answer} {id : Nat} {refusal : Refusal}
    (before : party.stage.held = some id) :
    Turned agent party answer (fail agent party id refusal).1 (fail agent party id refusal).2 :=
  .finished before rfl (Agent.change_sameBut _ _ _) fun _ found =>
    Agent.finish_not_running agent id _ (by decide) found

/-- A turn that goes on to another await and leaves the jobs as they are. -/
theorem Turned.moves {agent after : Agent} {party following : Party} {answer : Answer} (id : Nat)
    (before : party.stage.held = some id) (holds : following.stage.held = some id)
    (app : following.app = party.app) (jobs : after.jobs = agent.jobs)
    (latest : after.latest = agent.latest) (nextId : after.nextId = agent.nextId)
    (nearer : following.turnsLeft < party.turnsLeft) : Turned agent party answer after following :=
  .goesOn before holds app ⟨latest, nextId, fun _ _ => by rw [jobs]⟩
    (fun job found => ⟨job, by rw [jobs]; exact found, rfl⟩) nearer

theorem turn_turned {agent : Agent} {party : Party} {answer : Answer} {result : Agent × Party}
    (turn : party.turn agent answer = some result) :
    Turned agent party answer result.1 result.2 := by
  obtain ⟨app, package, request, row, stage⟩ := party
  cases stage with
  | loading =>
      cases answer with
      | failed _ =>
          obtain rfl := Option.some.inj turn
          exact .idle rfl rfl
      | done =>
          simp only [Party.turn] at turn
          split at turn
          all_goals
            obtain rfl := Option.some.inj turn
            exact .idle rfl rfl
      | step _ => cases turn
  | composing =>
      cases answer with
      | failed _ =>
          obtain rfl := Option.some.inj turn
          exact .idle rfl rfl
      | done =>
          cases request with
          | install _ _ =>
              obtain rfl := Option.some.inj turn
              exact begins_turned rfl fun _ => rfl
          | remove _ =>
              obtain rfl := Option.some.inj turn
              exact begins_turned rfl fun _ => rfl
          | reconfigure =>
              obtain rfl := Option.some.inj turn
              exact .idle rfl rfl
          | act action =>
              cases action with
              | stop =>
                  obtain rfl := Option.some.inj turn
                  exact begins_turned rfl fun _ => rfl
              | start | restart | update =>
                  obtain rfl := Option.some.inj turn
                  exact .idle rfl rfl
      | step _ => cases turn
  | checking =>
      cases answer with
      | failed _ =>
          obtain rfl := Option.some.inj turn
          exact .idle rfl rfl
      | done =>
          obtain rfl := Option.some.inj turn
          refine begins_turned rfl fun _ => ?_
          cases request.redeploys
          · rfl
          · rfl
      | step _ => cases turn
  | preparing id =>
      cases answer with
      | failed _ =>
          obtain rfl := Option.some.inj turn
          exact fail_turned rfl
      | done =>
          obtain rfl := Option.some.inj turn
          exact .moves id rfl rfl rfl rfl rfl rfl (by simp [turnsLeft, moveTo])
      | step _ => cases turn
  | writing id =>
      cases answer with
      | failed _ =>
          obtain rfl := Option.some.inj turn
          exact fail_turned rfl
      | done =>
          obtain rfl := Option.some.inj turn
          cases redeploys : request.redeploys with
          | true =>
              refine .moves id rfl ?_ rfl rfl rfl rfl ?_
              · simp [moveTo, Stage.held]
              · simp [turnsLeft, moveTo]
          | false =>
              refine .moves id rfl ?_ rfl rfl rfl rfl ?_
              · simp [moveTo, Stage.held]
              · simp [turnsLeft, moveTo]
      | step _ => cases turn
  | porting id =>
      cases answer with
      | failed _ =>
          obtain rfl := Option.some.inj turn
          exact fail_turned rfl
      | done =>
          obtain rfl := Option.some.inj turn
          exact .moves id rfl rfl rfl rfl rfl rfl (by simp [turnsLeft, moveTo])
      | step _ => cases turn
  | inserting id =>
      cases answer with
      | failed _ =>
          obtain rfl := Option.some.inj turn
          exact fail_turned rfl
      | done =>
          simp only [Party.turn] at turn
          split at turn
          · obtain rfl := Option.some.inj turn
            exact fail_turned rfl
          · obtain rfl := Option.some.inj turn
            exact .moves id rfl rfl rfl rfl rfl rfl (by simp [turnsLeft, moveTo])
      | step _ => cases turn
  | rewriting id =>
      cases answer with
      | failed _ =>
          obtain rfl := Option.some.inj turn
          exact .forgotten rfl rfl rfl
      | done =>
          obtain rfl := Option.some.inj turn
          exact .moves id rfl rfl rfl rfl rfl rfl (by simp [turnsLeft, moveTo])
      | step _ => cases turn
  | auditing id =>
      cases answer with
      | done =>
          obtain rfl := Option.some.inj turn
          exact .moves id rfl rfl rfl rfl rfl rfl (by simp [turnsLeft, moveTo])
      | failed _ | step _ => cases turn
  | running id steps =>
      cases answer with
      | failed _ => cases steps <;> cases turn
      | done =>
          cases steps with
          | returned error =>
              obtain rfl := Option.some.inj turn
              have atMost := Request.afterwards_length row error request
              exact .moves id rfl rfl rfl rfl rfl rfl
                (by simp [turnsLeft, moveTo, RunSteps.turnsLeft]; omega)
          | _ => cases turn
      | step event =>
          simp only [Party.turn] at turn
          obtain ⟨job, found, turn⟩ := Option.bind_eq_some_iff.mp turn
          obtain ⟨⟨changed, following⟩, ran, rfl⟩ := Option.map_eq_some_iff.mp turn
          refine .goesOn rfl rfl rfl (Agent.change_sameBut _ _ _) (fun other same => ?_) ?_
          · obtain rfl : job = other := Option.some.inj (found.symm.trans same)
            refine ⟨changed, ?_, (RunSteps.next_keeps ran).2⟩
            rw [Agent.lookup_change, found]
            rfl
          · have nearer := RunSteps.turnsLeft_lt ran
            simp only [turnsLeft, moveTo]
            omega
  | tidying id error ops =>
      cases ops with
      | nil =>
          cases answer with
          | done =>
              obtain rfl := Option.some.inj turn
              exact .finished rfl rfl (Agent.conclude_sameBut _ _ _) fun _ found =>
                Agent.conclude_not_running _ _ _ found
          | failed _ | step _ => cases turn
      | cons op ops =>
          cases answer with
          | failed _ =>
              obtain rfl := Option.some.inj turn
              exact .moves id rfl rfl rfl rfl rfl rfl (by
                simp only [turnsLeft, moveTo, List.length_cons, List.count_cons]
                omega)
          | done =>
              obtain rfl := Option.some.inj turn
              obtain ⟨jobs, latest, nextId⟩ := op.apply_sameJobs agent app error
              refine .moves id rfl rfl rfl jobs latest nextId ?_
              simp only [turnsLeft, moveTo, List.length_cons, List.count_cons]
              split
              next isReload => simp [isReload.1]
              next => omega
          | step _ => cases turn
  | closing =>
      cases answer with
      | done =>
          obtain rfl := Option.some.inj turn
          exact .idle rfl rfl
      | failed _ | step _ => cases turn
  | ended _ => cases turn
  | dropped => cases turn

/-- A party that holds a job can always go on. -/
theorem can_turn {party : Party} {id : Nat} (holds : party.stage.held = some id) {agent : Agent}
    (known : (agent.jobs.lookup id).isSome) :
    ∃ answer result, party.forgets answer = false ∧ party.turn agent answer = some result := by
  obtain ⟨app, package, request, row, stage⟩ := party
  cases stage with
  | preparing _ => exact ⟨.done, _, rfl, rfl⟩
  | writing _ => exact ⟨.done, _, rfl, rfl⟩
  | porting _ => exact ⟨.done, _, rfl, rfl⟩
  | inserting _ =>
      refine ⟨.done, ?_⟩
      simp only [Party.turn]
      cases agent.rows.lookup app with
      | none => exact ⟨_, rfl, rfl⟩
      | some _ => exact ⟨_, rfl, rfl⟩
  | rewriting _ => exact ⟨.done, _, rfl, rfl⟩
  | auditing _ => exact ⟨.done, _, rfl, rfl⟩
  | running other steps =>
      obtain rfl : other = id := Option.some.inj holds
      obtain ⟨job, found⟩ := Option.isSome_iff_exists.mp known
      by_cases returned : ∃ error, steps = .returned error
      · obtain ⟨error, rfl⟩ := returned
        exact ⟨.done, _, rfl, rfl⟩
      · obtain ⟨event, after, following, ran⟩ := RunSteps.next_progress job steps
          fun error same => returned ⟨error, same⟩
        refine ⟨.step event, (agent.change other fun _ => after,
          moveTo ⟨app, package, request, row, .running other steps⟩ (.running other following)), rfl, ?_⟩
        simp only [Party.turn, found, Option.bind_some, ran, Option.map_some]
  | tidying _ error ops =>
      cases ops with
      | nil => exact ⟨.done, _, rfl, rfl⟩
      | cons op ops => exact ⟨.done, _, rfl, rfl⟩
  | loading => cases holds
  | composing => cases holds
  | checking => cases holds
  | closing => cases holds
  | ended _ => cases holds
  | dropped => cases holds

end Party

/-- A party that can go on, and however it goes on, by the end the job does not run: what is left
out is that it forgets it or is dropped. -/
inductive WillFinish (id : Nat) : Party → Prop where
  | intro {party}
      (goesOn : ∀ agent : Agent, (agent.jobs.lookup id).isSome → ∃ answer result,
        party.forgets answer = false ∧ party.turn agent answer = some result)
      (turns : ∀ (agent : Agent) answer result, (agent.jobs.lookup id).isSome →
        party.forgets answer = false → party.turn agent answer = some result →
          ∀ job, result.1.jobs.lookup id = some job → job.state = .running →
            WillFinish id result.2) : WillFinish id party

/-- Whoever holds a job will finish it. -/
theorem willFinish_of_held {party : Party} {id : Nat} (holds : party.stage.held = some id) :
    WillFinish id party := by
  induction turns : party.turnsLeft using Nat.strong_induction_on generalizing party with
  | _ left inductionHypothesis =>
      refine .intro (fun agent known => Party.can_turn holds known) ?_
      intro agent answer result known keeps turn job found runs
      cases Party.turn_turned turn with
      | idle before _ => cases holds.symm.trans before
      | begun before _ _ _ => cases holds.symm.trans before
      | goesOn before follows _ _ _ nearer =>
          obtain rfl := Option.some.inj (holds.symm.trans before)
          exact inductionHypothesis _ (turns ▸ nearer) follows rfl
      | finished before _ _ ended =>
          obtain rfl := Option.some.inj (holds.symm.trans before)
          exact absurd runs (ended job found)
      | forgotten before answered _ =>
          subst answered
          simp [Party.forgets, before] at keeps

/-! ### Runs -/

/-- What holds of every state reached: each job held is the latest of its app and runs, and is
held by one party. -/
structure Sound (state : State) : Prop where
  known : ∀ app id, state.agent.latest.lookup app = some id → id < state.agent.nextId
  held : ∀ (index : Nat) party id, state.parties[index]? = some party →
    party.stage.held = some id → state.agent.latest.lookup party.app = some id ∧
      ∃ job, state.agent.jobs.lookup id = some job ∧ job.state = .running
  sole : ∀ (one other : Nat) partyOne partyOther id, state.parties[one]? = some partyOne →
    state.parties[other]? = some partyOther → partyOne.stage.held = some id →
      partyOther.stage.held = some id → one = other

/-- Every latest job that runs is held. -/
def Kept (state : State) : Prop :=
  ∀ app id job, state.agent.latest.lookup app = some id → state.agent.jobs.lookup id = some job →
    job.state = .running → ∃ party ∈ state.parties, party.stage.held = some id

/-- The latest job of an app runs and nobody holds it. -/
def Forgotten (app : String) (state : State) : Prop :=
  ∃ id job, state.agent.latest.lookup app = some id ∧ state.agent.jobs.lookup id = some job ∧
    job.state = .running ∧ ∀ party ∈ state.parties, party.stage.held ≠ some id

/-- All a step can be. -/
inductive Took (state : State) : Event → State → Prop where
  | arrived {app request package party} (idle : party.stage.held = none) :
      Took state (.request app request package) { state with parties := state.parties ++ [party] }
  | turned {index answer party agent following} (at_ : state.parties[index]? = some party)
      (turned : Party.Turned state.agent party answer agent following) :
      Took state (.turn index answer) ⟨agent, state.parties.set index following⟩
  | dropped {index party} (at_ : state.parties[index]? = some party) :
      Took state (.drop index)
        { state with parties := state.parties.set index (party.moveTo .dropped) }
  | cancelled {app agent} (latest : agent.latest = state.agent.latest)
      (nextId : agent.nextId = state.agent.nextId)
      (jobs : ∀ id, (agent.jobs.lookup id).map (·.state) =
        (state.agent.jobs.lookup id).map (·.state)) :
      Took state (.cancel app) { state with agent }

theorem arrive_idle (app : String) (request : Request) (package : Option Package) :
    (Party.arrive app request package).stage.held = none := by
  cases package with
  | none => rfl
  | some package =>
      cases request with
      | install thirdParty license =>
          simp only [Party.arrive]
          split
          · rfl
          · split
            · rfl
            · rfl
      | act _ => rfl
      | reconfigure => rfl
      | remove _ => rfl

theorem next_took {state after : State} {event : Event} (step : next state event = some after) :
    Took state event after := by
  cases event with
  | request app request package =>
      obtain rfl := Option.some.inj step
      exact .arrived (arrive_idle app request package)
  | turn index answer =>
      obtain ⟨party, found, step⟩ := Option.bind_eq_some_iff.mp step
      obtain ⟨result, turn, rfl⟩ := Option.map_eq_some_iff.mp step
      exact .turned found (Party.turn_turned turn)
  | drop index =>
      obtain ⟨party, found, step⟩ := Option.bind_eq_some_iff.mp step
      split at step
      · obtain rfl := Option.some.inj step
        exact .dropped found
      · cases step
  | cancel app =>
      simp only [next] at step
      split at step
      · obtain rfl := Option.some.inj step
        exact .cancelled rfl rfl fun _ => rfl
      next id found =>
        obtain rfl := Option.some.inj step
        have same := Agent.change_sameBut state.agent id Job.cancel
        refine .cancelled same.latest same.nextId fun other => ?_
        by_cases isId : other = id
        · rw [isId, Agent.lookup_change, Option.map_map]
          rfl
        · rw [same.others other isId]

/-- A party of the list after one of it has changed. -/
theorem get_set {parties : List Party} {index other : Nat} {following party : Party}
    (found : (parties.set index following)[other]? = some party) :
    (other = index ∧ party = following) ∨ (other ≠ index ∧ parties[other]? = some party) := by
  rw [List.getElem?_set] at found
  split at found
  next same =>
    split at found
    · exact .inl ⟨same.symm, (Option.some.inj found).symm⟩
    · cases found
  next different => exact .inr ⟨fun same => different same.symm, found⟩

/-- A change of the jobs that leaves each one's state keeps what holds. -/
theorem Sound.of_states {state : State} {agent : Agent} (sound : Sound state)
    (latest : agent.latest = state.agent.latest) (nextId : agent.nextId = state.agent.nextId)
    (jobs : ∀ id, (agent.jobs.lookup id).map (·.state) =
      (state.agent.jobs.lookup id).map (·.state)) : Sound { state with agent } where
  known app id found := by
    rw [nextId]
    rw [latest] at found
    exact sound.known app id found
  held index party id found holds := by
    obtain ⟨isLatest, job, isJob, runs⟩ := sound.held index party id found holds
    refine ⟨by rw [latest]; exact isLatest, ?_⟩
    have sameState := jobs id
    rw [isJob] at sameState
    obtain ⟨changed, isChanged, changedState⟩ := Option.map_eq_some_iff.mp sameState
    exact ⟨changed, isChanged, changedState.trans runs⟩
  sole := sound.sole

/-- One party moved on without a new job. -/
theorem Sound.of_set {state : State} {agent : Agent} {index : Nat} {party following : Party}
    (sound : Sound state) (at_ : state.parties[index]? = some party)
    (known : ∀ app id, agent.latest.lookup app = some id → id < agent.nextId)
    (moved : ∀ id, following.stage.held = some id → agent.latest.lookup following.app = some id ∧
      (∃ job, agent.jobs.lookup id = some job ∧ job.state = .running) ∧
        ∀ other partyOther, other ≠ index → state.parties[other]? = some partyOther →
          partyOther.stage.held ≠ some id)
    (rest : ∀ other partyOther id, other ≠ index → state.parties[other]? = some partyOther →
      partyOther.stage.held = some id → agent.latest.lookup partyOther.app = some id ∧
        ∃ job, agent.jobs.lookup id = some job ∧ job.state = .running) :
    Sound ⟨agent, state.parties.set index following⟩ where
  known := known
  held other partyOther id found holds := by
    rcases get_set found with ⟨rfl, rfl⟩ | ⟨different, found⟩
    · exact ⟨(moved id holds).1, (moved id holds).2.1⟩
    · exact rest other partyOther id different found holds
  sole one other partyOne partyOther id foundOne foundOther holdsOne holdsOther := by
    rcases get_set foundOne with ⟨rfl, rfl⟩ | ⟨differentOne, wasOne⟩
    · rcases get_set foundOther with ⟨rfl, _⟩ | ⟨differentOther, wasOther⟩
      · rfl
      · exact absurd holdsOther ((moved id holdsOne).2.2 _ _ differentOther wasOther)
    · rcases get_set foundOther with ⟨rfl, rfl⟩ | ⟨_, wasOther⟩
      · exact absurd holdsOne ((moved id holdsOther).2.2 _ _ differentOne wasOne)
      · exact sound.sole one other _ _ id wasOne wasOther holdsOne holdsOther

/-- A party of the list after one has come. -/
theorem get_append {parties : List Party} {index : Nat} {arrived party : Party}
    (found : (parties ++ [arrived])[index]? = some party) :
    party = arrived ∨ parties[index]? = some party := by
  rw [List.getElem?_append] at found
  split at found
  · exact .inr found
  · rw [List.getElem?_singleton] at found
    split at found
    · exact .inl (Option.some.inj found).symm
    · cases found

theorem sound_arrived {state : State} {party : Party} (sound : Sound state)
    (idle : party.stage.held = none) : Sound { state with parties := state.parties ++ [party] } where
  known := sound.known
  held index other id found holds := by
    rcases get_append found with rfl | found
    · cases holds.symm.trans idle
    · exact sound.held index other id found holds
  sole one other partyOne partyOther id foundOne foundOther holdsOne holdsOther := by
    rcases get_append foundOne with rfl | foundOne
    · cases holdsOne.symm.trans idle
    · rcases get_append foundOther with rfl | foundOther
      · cases holdsOther.symm.trans idle
      · exact sound.sole one other _ _ id foundOne foundOther holdsOne holdsOther

/-- A job that a party holds is known by its number. -/
theorem Sound.held_lt {state : State} (sound : Sound state) {index : Nat} {party : Party} {id : Nat}
    (found : state.parties[index]? = some party) (holds : party.stage.held = some id) :
    id < state.agent.nextId :=
  sound.known _ id (sound.held index party id found holds).1

/-- A party that begins a job. -/
theorem sound_begun {state : State} {agent : Agent} {index : Nat} {party following : Party}
    (sound : Sound state) (at_ : state.parties[index]? = some party)
    (begins : state.agent.begin party.app = .ok (agent, state.agent.nextId))
    (holds : following.stage.held = some state.agent.nextId) (app : following.app = party.app) :
    Sound ⟨agent, state.parties.set index following⟩ := by
  obtain ⟨notBusy, _, latest, jobs, nextId⟩ := Agent.begin_ok begins
  refine sound.of_set at_ ?_ ?_ ?_
  · intro other id found
    rw [latest, Table.lookup_insert_ite] at found
    rw [nextId]
    split at found
    · have isNew := Option.some.inj found
      omega
    · have older := sound.known other id found
      omega
  · intro id holdsId
    obtain rfl : state.agent.nextId = id := Option.some.inj (holds.symm.trans holdsId)
    refine ⟨?_, ⟨{}, ?_, rfl⟩, ?_⟩
    · rw [latest, app, AList.lookup_insert]
    · rw [jobs, AList.lookup_insert]
    · intro other partyOther _ found holdsOther
      exact absurd (sound.held_lt found holdsOther) (lt_irrefl _)
  · intro other partyOther id _ found holdsOther
    obtain ⟨isLatest, job, isJob, runs⟩ := sound.held other partyOther id found holdsOther
    have otherApp : partyOther.app ≠ party.app := by
      intro sameApp
      have busy : state.agent.busy party.app = true :=
        Agent.busy_iff.mpr ⟨id, job, sameApp ▸ isLatest, isJob, runs⟩
      rw [notBusy] at busy
      cases busy
    have older : id ≠ state.agent.nextId := Nat.ne_of_lt (sound.held_lt found holdsOther)
    refine ⟨?_, job, ?_, runs⟩
    · rw [latest, AList.lookup_insert_ne otherApp]
      exact isLatest
    · rw [jobs, AList.lookup_insert_ne older]
      exact isJob

/-- What holds is kept by every step. -/
theorem sound_step {state after : State} {event : Event} (sound : Sound state)
    (step : next state event = some after) : Sound after := by
  cases next_took step with
  | arrived idle => exact sound_arrived sound idle
  | @turned index answer party agent following at_ turned =>
      cases turned with
      | idle before after =>
          refine sound.of_set at_ sound.known (fun id holds => ?_) fun other partyOther id _ => ?_
          · cases holds.symm.trans after
          · exact sound.held other partyOther id
      | begun before begins holds app =>
          exact sound_begun sound at_ begins holds app
      | @goesOn _ _ id before holds app same states _ =>
          have others : ∀ other partyOther, other ≠ index → state.parties[other]? = some partyOther →
              partyOther.stage.held ≠ some id := fun other partyOther different found holdsOther =>
            different (sound.sole other index _ _ id found at_ holdsOther before)
          refine sound.of_set at_ ?_ ?_ ?_
          · rw [same.latest, same.nextId]
            exact sound.known
          · intro id' holds'
            obtain rfl : id = id' := Option.some.inj (holds.symm.trans holds')
            obtain ⟨isLatest, job, isJob, runs⟩ := sound.held index party id at_ before
            obtain ⟨changed, isChanged, sameState⟩ := states job isJob
            refine ⟨?_, ⟨changed, isChanged, sameState.trans runs⟩, others⟩
            rw [same.latest, app]
            exact isLatest
          · intro other partyOther id' different found holds'
            have isOther : id' ≠ id := fun same => others other partyOther different found (same ▸ holds')
            rw [same.latest, same.others id' isOther]
            exact sound.held other partyOther id' found holds'
      | @finished _ _ id before after same ended =>
          refine sound.of_set at_ ?_ (fun id' holds' => ?_) ?_
          · rw [same.latest, same.nextId]
            exact sound.known
          · cases holds'.symm.trans after
          · intro other partyOther id' different found holds'
            have isOther : id' ≠ id := fun sameId =>
              different (sound.sole other index _ _ id found at_ (sameId ▸ holds') before)
            rw [same.latest, same.others id' isOther]
            exact sound.held other partyOther id' found holds'
      | forgotten before _ after =>
          refine sound.of_set at_ sound.known (fun id holds => ?_) fun other partyOther id _ => ?_
          · cases holds.symm.trans after
          · exact sound.held other partyOther id
  | dropped at_ =>
      refine sound.of_set at_ sound.known (fun id holds => ?_) fun other partyOther id _ => ?_
      · cases holds
      · exact sound.held other partyOther id
  | cancelled latest nextId jobs => exact sound.of_states latest nextId jobs

theorem sound_initial (rows : Table String RowState) : Sound { agent := { rows } } where
  known _ _ found := by cases found
  held _ _ _ found := by cases found
  sole _ _ _ _ _ found := by cases found

theorem sound_reached {rows : Table String RowState} {state : State}
    (reached : (system rows).Reachable state) : Sound state := by
  refine System.Reached.holds ?_ ?_ reached
  · rintro _ rfl
    exact sound_initial rows
  · intro state event after sound _ step
    exact sound_step sound step

/-- A party that holds something else than the one that changed is still there. -/
theorem mem_set {parties : List Party} {index : Nat} {party other following : Party}
    (at_ : parties[index]? = some party) (member : other ∈ parties)
    (differs : other.stage.held ≠ party.stage.held) : other ∈ parties.set index following := by
  obtain ⟨place, found⟩ := List.mem_iff_getElem?.mp member
  have elsewhere : index ≠ place := by
    rintro rfl
    obtain rfl := Option.some.inj (found.symm.trans at_)
    exact differs rfl
  refine List.mem_iff_getElem?.mpr ⟨place, ?_⟩
  rw [List.getElem?_set_ne elsewhere]
  exact found

theorem mem_set_self {parties : List Party} {index : Nat} {party following : Party}
    (at_ : parties[index]? = some party) : following ∈ parties.set index following := by
  obtain ⟨within, _⟩ := List.getElem?_eq_some_iff.mp at_
  exact List.mem_set within following

/-- A step that forgets no job leaves every running job held. -/
theorem kept_step {state after : State} {event : Event} (sound : Sound state) (kept : Kept state)
    (meets : keepsJob state event = true) (step : next state event = some after) : Kept after := by
  intro app id job isLatest isJob runs
  cases next_took step with
  | arrived idle =>
      obtain ⟨party, member, holds⟩ := kept app id job isLatest isJob runs
      exact ⟨party, List.mem_append_left _ member, holds⟩
  | @turned index answer party agent following at_ turned =>
      cases turned with
      | idle before _ =>
          obtain ⟨holder, member, holds⟩ := kept app id job isLatest isJob runs
          exact ⟨holder, mem_set at_ member (by rw [holds, before]; nofun), holds⟩
      | begun before begins holds sameApp =>
          obtain ⟨_, _, latest, jobs, _⟩ := Agent.begin_ok begins
          rw [latest, Table.lookup_insert_ite] at isLatest
          split at isLatest
          · obtain rfl := Option.some.inj isLatest
            exact ⟨following, mem_set_self at_, holds⟩
          · have older := Nat.ne_of_lt (sound.known app id isLatest)
            rw [jobs, AList.lookup_insert_ne older] at isJob
            obtain ⟨holder, member, holds⟩ := kept app id job isLatest isJob runs
            exact ⟨holder, mem_set at_ member (by rw [holds, before]; nofun), holds⟩
      | @goesOn _ _ own before holds _ same _ _ =>
          by_cases isOwn : id = own
          · exact ⟨following, mem_set_self at_, isOwn ▸ holds⟩
          · rw [same.latest] at isLatest
            rw [same.others id isOwn] at isJob
            obtain ⟨holder, member, holds⟩ := kept app id job isLatest isJob runs
            refine ⟨holder, mem_set at_ member ?_, holds⟩
            rw [holds, before]
            exact fun sameId => isOwn (Option.some.inj sameId)
      | @finished _ _ own before _ same ended =>
          by_cases isOwn : id = own
          · exact absurd runs (ended job (isOwn ▸ isJob))
          · rw [same.latest] at isLatest
            rw [same.others id isOwn] at isJob
            obtain ⟨holder, member, holds⟩ := kept app id job isLatest isJob runs
            refine ⟨holder, mem_set at_ member ?_, holds⟩
            rw [holds, before]
            exact fun sameId => isOwn (Option.some.inj sameId)
      | forgotten before answered _ =>
          subst answered
          simp [keepsJob, at_, Party.forgets, before] at meets
  | @dropped index party at_ =>
      have idle : party.stage.held = none := by simpa [keepsJob, at_] using meets
      obtain ⟨holder, member, holds⟩ := kept app id job isLatest isJob runs
      exact ⟨holder, mem_set at_ member (by rw [holds, idle]; nofun), holds⟩
  | cancelled latest _ jobs =>
      rw [latest] at isLatest
      have sameState := jobs id
      rw [isJob] at sameState
      obtain ⟨before, isBefore, beforeState⟩ := Option.map_eq_some_iff.mp sameState.symm
      exact kept app id before isLatest isBefore (beforeState.trans runs)

theorem kept_reached {rows : Table String RowState} {state : State}
    (reached : (system rows).Reached (fun state event => keepsJob state event = true) state) :
    Kept state := by
  induction reached with
  | initial starts =>
      subst starts
      intro app id job isLatest
      cases isLatest
  | step prior meets step inductionHypothesis =>
      have sound := sound_reached (prior.mono fun _ _ _ => trivial)
      exact kept_step sound inductionHypothesis meets step

/-- In every run that drops no handler which has begun a job and in which every `rewrite` of
`redeploy` succeeds, a running job has a party that will finish it; and once every party has come
to its end, every app's next job begins. -/
theorem no_app_stays_busy (rows : Table String RowState) (state : State)
    (reached : (system rows).Reached (fun state event => keepsJob state event = true) state) :
    (∀ app id job, state.agent.latest.lookup app = some id →
      state.agent.jobs.lookup id = some job → job.state = .running →
        ∃ party ∈ state.parties, WillFinish id party) ∧
      ((∀ party ∈ state.parties, party.stage.over = true) →
        ∀ app, ∃ begun, state.agent.begin app = .ok begun) := by
  have kept : Kept state := kept_reached reached
  constructor
  · intro app id job isLatest isJob runs
    obtain ⟨party, member, holds⟩ := kept app id job isLatest isJob runs
    exact ⟨party, member, willFinish_of_held holds⟩
  · intro ended app
    refine ⟨_, if_neg fun busy => ?_⟩
    obtain ⟨id, job, isLatest, isJob, runs⟩ := Agent.busy_iff.mp busy
    obtain ⟨party, member, holds⟩ := kept app id job isLatest isJob runs
    have isOver := ended party member
    revert isOver holds
    cases party.stage <;> simp [Stage.held, Stage.over]

/-! ### A forgotten job -/

/-- A forgotten job stays so, whatever happens. -/
theorem forgotten_step {app : String} {state after : State} {event : Event} (sound : Sound state)
    (forgotten : Forgotten app state) (step : next state event = some after) :
    Forgotten app after := by
  obtain ⟨id, job, isLatest, isJob, runs, unheld⟩ := forgotten
  cases next_took step with
  | arrived idle =>
      refine ⟨id, job, isLatest, isJob, runs, fun party member => ?_⟩
      rcases List.mem_append.mp member with before | isNew
      · exact unheld party before
      · rw [List.mem_singleton.mp isNew, idle]
        nofun
  | @turned index answer party agent following at_ turned =>
      have unheldHere := unheld party (List.mem_of_getElem? at_)
      have rest : following.stage.held ≠ some id →
          ∀ other ∈ state.parties.set index following, other.stage.held ≠ some id := by
        intro free other member
        rcases List.mem_or_eq_of_mem_set member with before | rfl
        · exact unheld other before
        · exact free
      cases turned with
      | idle _ after => exact ⟨id, job, isLatest, isJob, runs, rest (by rw [after]; nofun)⟩
      | begun _ begins holds _ =>
          obtain ⟨notBusy, _, latest, jobs, _⟩ := Agent.begin_ok begins
          have otherApp : app ≠ party.app := by
            rintro rfl
            rw [Agent.busy_iff.mpr ⟨id, job, isLatest, isJob, runs⟩] at notBusy
            cases notBusy
          have older := Nat.ne_of_lt (sound.known app id isLatest)
          refine ⟨id, job, ?_, ?_, runs, rest ?_⟩
          · rw [latest, AList.lookup_insert_ne otherApp]
            exact isLatest
          · rw [jobs, AList.lookup_insert_ne older]
            exact isJob
          · rw [holds]
            exact fun same => older (Option.some.inj same).symm
      | goesOn before holds _ same _ _ =>
          have isOther : id ≠ _ := fun sameId => unheldHere (sameId ▸ before)
          refine ⟨id, job, by rw [same.latest]; exact isLatest, ?_, runs, rest ?_⟩
          · rw [same.others id isOther]
            exact isJob
          · rw [holds]
            exact fun sameId => isOther (Option.some.inj sameId).symm
      | finished before after same _ =>
          have isOther : id ≠ _ := fun sameId => unheldHere (sameId ▸ before)
          refine ⟨id, job, by rw [same.latest]; exact isLatest, ?_, runs, rest ?_⟩
          · rw [same.others id isOther]
            exact isJob
          · rw [after]
            nofun
      | forgotten _ _ after =>
          exact ⟨id, job, isLatest, isJob, runs, rest (by rw [after]; nofun)⟩
  | dropped at_ =>
      refine ⟨id, job, isLatest, isJob, runs, fun other member => ?_⟩
      rcases List.mem_or_eq_of_mem_set member with before | rfl
      · exact unheld other before
      · exact nofun
  | cancelled latest _ jobs =>
      have sameState := jobs id
      rw [isJob] at sameState
      obtain ⟨changed, isChanged, changedState⟩ := Option.map_eq_some_iff.mp sameState
      exact ⟨id, changed, by rw [latest]; exact isLatest, isChanged, changedState.trans runs, unheld⟩

/-- The party of a job gone, the job is forgotten. -/
theorem forgotten_of_set {state : State} {index : Nat} {party following : Party} {id : Nat}
    (sound : Sound state) (at_ : state.parties[index]? = some party)
    (holds : party.stage.held = some id) (free : following.stage.held = none) :
    Forgotten party.app { state with parties := state.parties.set index following } := by
  obtain ⟨isLatest, job, isJob, runs⟩ := sound.held index party id at_ holds
  refine ⟨id, job, isLatest, isJob, runs, fun other member => ?_⟩
  obtain ⟨place, found⟩ := List.mem_iff_getElem?.mp member
  rcases get_set found with ⟨_, rfl⟩ | ⟨elsewhere, found⟩
  · rw [free]
    nofun
  · exact fun holdsToo => elsewhere (sound.sole place index _ _ id found at_ holdsToo holds)

/-- A step that does not keep the job of its party forgets it. -/
theorem forgotten_of_breaks {state after : State} {event : Event} (sound : Sound state)
    (breaks : keepsJob state event = false) (step : next state event = some after) :
    ∃ app, Forgotten app after := by
  match event, breaks with
  | .drop index, breaks =>
      obtain ⟨party, found, step⟩ := Option.bind_eq_some_iff.mp step
      split at step
      · obtain rfl := Option.some.inj step
        simp only [keepsJob, found, Option.isNone_eq_false_iff] at breaks
        obtain ⟨id, holds⟩ := Option.isSome_iff_exists.mp breaks
        exact ⟨party.app, forgotten_of_set sound found holds rfl⟩
      · cases step
  | .turn index answer, breaks =>
      obtain ⟨party, found, step⟩ := Option.bind_eq_some_iff.mp step
      simp only [keepsJob, found, Bool.not_eq_false'] at breaks
      obtain ⟨app, package, request, row, stage⟩ := party
      match answer, stage, breaks with
      | .failed refusal, .rewriting id, _ =>
          obtain rfl := Option.some.inj step
          exact ⟨app, forgotten_of_set sound found rfl rfl⟩

/-- The condition is exact: after a step that breaks it, the app stays busy for ever and no party
holds its job. -/
theorem stays_busy_once_forgotten {rows : Table String RowState} {state after : State}
    {event : Event} (reached : (system rows).Reachable state)
    (breaks : keepsJob state event = false) (step : (system rows).Step state event after) :
    ∃ app, ∀ later, ((system rows).startedIn after).Reachable later →
      later.agent.busy app = true ∧ ∀ id, later.agent.latest.lookup app = some id →
        ∀ party ∈ later.parties, party.stage.held ≠ some id := by
  have sound := sound_reached reached
  obtain ⟨app, forgotten⟩ := forgotten_of_breaks sound breaks step
  refine ⟨app, fun later goesOn => ?_⟩
  have holds : Sound later ∧ Forgotten app later := by
    induction goesOn with
    | initial starts =>
        subst starts
        exact ⟨sound_step sound step, forgotten⟩
    | step _ _ transition inductionHypothesis =>
        exact ⟨sound_step inductionHypothesis.1 transition,
          forgotten_step inductionHypothesis.1 inductionHypothesis.2 transition⟩
  obtain ⟨id, job, isLatest, isJob, runs, unheld⟩ := holds.2
  refine ⟨Agent.busy_iff.mpr ⟨id, job, isLatest, isJob, runs⟩, fun other isOther => ?_⟩
  obtain rfl := Option.some.inj (isLatest.symm.trans isOther)
  exact unheld

/-! ### Two runs -/

/-- A package of one service. -/
def photos : Package where
  deploy := ["docker compose pull", "docker compose up -d"]
  start := "docker compose start"
  stop := "docker compose stop"
  restart := "docker compose restart"
  remove _ := ["docker compose down"]

/-- An install whose image cannot be pulled. -/
def installFails : List Event :=
  .request "photos" (.install true true) (some photos) ::
    List.map (Event.turn 0) [.done, .done, .done, .done, .done, .done, .done, .step .look,
      .step (.spawn none), .step (.ends (.exited (some 1))), .done, .done, .done, .done]

/-- New settings for an installed app, while the row cannot be written. -/
def rewriteFails : List Event :=
  .request "photos" .reconfigure (some photos) ::
    List.map (Event.turn 0) [.done, .done, .done, .done, .failed dbFailed]

/-- After an install that failed, the next one begins. -/
theorem no_app_stays_busy_installFails :
    ∃ state, System.follow keepsJob next {} installFails = some state ∧
      ∃ begun, state.agent.begin "photos" = .ok begun := by
  refine ⟨_, rfl, ?_⟩
  have reached := System.reached_follow keepsJob next installFails
    (.initial rfl : (system ∅).Reached _ _) rfl
  exact (no_app_stays_busy ∅ _ reached).2 (by decide) "photos"

/-- A row that cannot be rewritten leaves the app busy, with no party left. -/
theorem not_no_app_stays_busy :
    ¬ ∀ (rows : Table String RowState) (state : State), (system rows).Reachable state →
      (∀ app id job, state.agent.latest.lookup app = some id →
        state.agent.jobs.lookup id = some job → job.state = .running →
          ∃ party ∈ state.parties, WillFinish id party) ∧
        ((∀ party ∈ state.parties, party.stage.over = true) →
          ∀ app, ∃ begun, state.agent.begin app = .ok begun) := by
  intro never
  have reached := System.reached_follow (fun _ _ => true) next rewriteFails
    (.initial rfl : (system ((∅ : Table String RowState).insert "photos" .installed)).Reached _ _) rfl
  obtain ⟨begun, begins⟩ := (never _ _ (reached.mono fun _ _ _ => trivial)).2 (by decide) "photos"
  cases begins

end ServerBox.Monitor.Stacks
