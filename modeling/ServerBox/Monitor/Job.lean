import Mathlib.Data.List.Basic

/-!
# A job and the commands it runs

`src/monitor/src/stacks/job.rs`: `Job::run_steps` runs shell commands one after another
and looks at the job's cancel flag before and during each. `RunSteps.next` takes a call of
it through one look, one start of a shell or one end of a command; the flag may be raised
between any two of these.
-/

namespace ServerBox.Monitor

inductive JobState where
  | running
  | succeeded
  | failed
  | cancelled
deriving DecidableEq, Repr

/-- How a command whose shell was started came out: `command::Finished`, or the error of
waiting for it. -/
inductive Finished where
  | lost (error : String)
  | cancelled
  | timedOut
  | exited (code : Option Int)
deriving DecidableEq, Repr

/-- What `run_steps` returns because of how its step came out; `none` goes on. -/
def Finished.failure (index : Nat) : Finished → Option String
  | lost error => some s!"step {index + 1}: {error}"
  | cancelled => some "cancelled"
  | timedOut => some s!"step {index + 1} timed out"
  | exited none => some s!"step {index + 1} exited with a signal"
  | exited (some code) => if code = 0 then none else some s!"step {index + 1} exited with {code}"

/-- A job. `ran` is not kept by the agent: the commands whose shell was started. -/
structure Job where
  cancelled : Bool := false
  state : JobState := .running
  error : Option String := none
  ran : List String := []
deriving DecidableEq, Repr

namespace Job

/-- `Job::cancel`. -/
def cancel (job : Job) : Job := { job with cancelled := true }

/-- `Job::finish`. -/
def finish (job : Job) (state : JobState) (error : Option String) : Job :=
  { job with state, error }

/-- The shell of a command is started. -/
def start (job : Job) (command : String) : Job := { job with ran := job.ran ++ [command] }

@[simp] theorem cancel_ran (job : Job) : job.cancel.ran = job.ran := rfl

@[simp] theorem cancel_cancelled (job : Job) : job.cancel.cancelled = true := rfl

@[simp] theorem cancel_state (job : Job) : job.cancel.state = job.state := rfl

@[simp] theorem finish_ran (job : Job) (state : JobState) (error : Option String) :
    (job.finish state error).ran = job.ran := rfl

@[simp] theorem finish_state (job : Job) (state : JobState) (error : Option String) :
    (job.finish state error).state = state := rfl

@[simp] theorem start_ran (job : Job) (command : String) :
    (job.start command).ran = job.ran ++ [command] := rfl

@[simp] theorem start_cancelled (job : Job) (command : String) :
    (job.start command).cancelled = job.cancelled := rfl

@[simp] theorem start_state (job : Job) (command : String) :
    (job.start command).state = job.state := rfl

end Job

/-- What a call of `run_steps` meets: its look at the flag, the start of a shell with the
error it failed with, the end of the command. -/
inductive StepEvent where
  | look
  | spawn (error : Option String)
  | ends (finished : Finished)
deriving DecidableEq, Repr

/-- Where a call of `run_steps` stands. -/
inductive RunSteps where
  | looking (index : Nat) (steps : List String)
  | starting (index : Nat) (step : String) (rest : List String)
  | waiting (index : Nat) (rest : List String)
  | returned (error : Option String)
deriving DecidableEq, Repr

namespace RunSteps

/-- `run_steps` of a list of commands, called. -/
def call (steps : List String) : RunSteps := .looking 0 steps

/-- One turn of `run_steps`. A command ends as cancelled only once the flag is up. -/
def next (job : Job) : RunSteps → StepEvent → Option (Job × RunSteps)
  | looking _ [], .look => some (job, returned none)
  | looking index (step :: rest), .look =>
      if job.cancelled then some (job, returned (some "cancelled"))
      else some (job, starting index step rest)
  | starting index step rest, .spawn none => some (job.start step, waiting index rest)
  | starting index _ _, .spawn (some error) =>
      some (job, returned (some s!"step {index + 1}: {error}"))
  | waiting index rest, .ends finished =>
      if finished = .cancelled ∧ job.cancelled = false then none
      else match finished.failure index with
        | none => some (job, looking (index + 1) rest)
        | some error => some (job, returned (some error))
  | _, _ => none

/-- The commands a call has still to start. -/
def left : RunSteps → List String
  | looking _ steps => steps
  | starting _ step rest => step :: rest
  | waiting _ rest => rest
  | returned _ => []

/-- All a turn can do: start the next command, or leave the job as it is. -/
theorem next_cases {job after : Job} {steps following : RunSteps} {event : StepEvent}
    (turn : steps.next job event = some (after, following)) :
    (∃ index step rest, steps = starting index step rest ∧ event = .spawn none ∧
        after = job.start step ∧ following = waiting index rest) ∨
      (∃ index step rest, steps = looking index (step :: rest) ∧ job.cancelled = false ∧
        after = job ∧ following = starting index step rest) ∨
      (∃ index rest, steps = waiting index rest ∧ after = job ∧
        following = looking (index + 1) rest) ∨
      (∃ error, after = job ∧ following = returned error ∧
        (∀ index step rest, steps = looking index (step :: rest) → job.cancelled = true) ∧
        ∀ index step rest, steps = starting index step rest →
          ∃ refusal, event = .spawn (some refusal)) := by
  unfold next at turn
  split at turn
  next index =>
    obtain ⟨rfl, rfl⟩ : job = after ∧ returned none = following := by simpa using turn
    exact .inr (.inr (.inr ⟨none, rfl, rfl, by simp, by simp⟩))
  next index step rest =>
    split at turn
    next cancelled =>
      obtain ⟨rfl, rfl⟩ : job = after ∧ returned (some "cancelled") = following := by
        simpa using turn
      exact .inr (.inr (.inr ⟨_, rfl, rfl, fun _ _ _ _ => cancelled, by simp⟩))
    next notCancelled =>
      obtain ⟨rfl, rfl⟩ : job = after ∧ starting index step rest = following := by
        simpa using turn
      exact .inr (.inl ⟨index, step, rest, rfl, by simpa using notCancelled, rfl, rfl⟩)
  next index step rest =>
    obtain ⟨rfl, rfl⟩ : job.start step = after ∧ waiting index rest = following := by
      simpa using turn
    exact .inl ⟨index, step, rest, rfl, rfl, rfl, rfl⟩
  next index step rest error =>
    obtain ⟨rfl, rfl⟩ : job = after ∧ returned (some s!"step {index + 1}: {error}") = following := by
      simpa using turn
    exact .inr (.inr (.inr ⟨_, rfl, rfl, by simp, by simp⟩))
  next index rest finished =>
    split at turn
    · cases turn
    · split at turn
      · obtain ⟨rfl, rfl⟩ : job = after ∧ looking (index + 1) rest = following := by
          simpa using turn
        exact .inr (.inr (.inl ⟨index, rest, rfl, rfl, rfl⟩))
      next error _ =>
        obtain ⟨rfl, rfl⟩ : job = after ∧ returned (some error) = following := by
          simpa using turn
        exact .inr (.inr (.inr ⟨_, rfl, rfl, by simp, by simp⟩))
  next => cases turn

/-- A turn never touches the flag or the state of the job. -/
theorem next_keeps {job after : Job} {steps following : RunSteps} {event : StepEvent}
    (turn : steps.next job event = some (after, following)) :
    after.cancelled = job.cancelled ∧ after.state = job.state := by
  obtain ⟨_, _, _, _, _, rfl, _⟩ | ⟨_, _, _, _, _, rfl, _⟩ | ⟨_, _, _, rfl, _⟩ | ⟨_, rfl, _⟩ :=
    next_cases turn
  all_goals exact ⟨rfl, rfl⟩

/-- What has been started and what is left to start are always of the list called with. -/
theorem next_left {job after : Job} {steps following : RunSteps} {event : StepEvent}
    (turn : steps.next job event = some (after, following)) :
    (∀ command ∈ after.ran, command ∈ job.ran ∨ command ∈ steps.left) ∧
      following.left ⊆ steps.left := by
  obtain ⟨_, step, _, rfl, _, rfl, rfl⟩ | ⟨_, _, _, rfl, _, rfl, rfl⟩ | ⟨_, _, rfl, rfl, rfl⟩ |
    ⟨_, rfl, rfl, _⟩ := next_cases turn
  · constructor
    · intro command member
      rcases List.mem_append.mp member with before | now
      · exact .inl before
      · exact .inr (by simp_all [left])
    · simp [left]
  · exact ⟨fun _ member => .inl member, by simp [left]⟩
  · exact ⟨fun _ member => .inl member, by simp [left]⟩
  · exact ⟨fun _ member => .inl member, by simp [left]⟩

/-- How many turns a call can take at most. -/
def turnsLeft : RunSteps → Nat
  | looking _ steps => 3 * steps.length + 1
  | starting _ _ rest => 3 * rest.length + 3
  | waiting _ rest => 3 * rest.length + 2
  | returned _ => 0

/-- Every turn brings the call nearer to its return. -/
theorem turnsLeft_lt {job after : Job} {steps following : RunSteps} {event : StepEvent}
    (turn : steps.next job event = some (after, following)) :
    following.turnsLeft < steps.turnsLeft := by
  obtain ⟨_, _, _, rfl, _, _, rfl⟩ | ⟨_, _, _, rfl, _, _, rfl⟩ | ⟨_, _, rfl, _, rfl⟩ |
    ⟨_, _, rfl, _⟩ := next_cases turn
  · simp only [turnsLeft]; omega
  · simp only [turnsLeft, List.length_cons]; omega
  · simp only [turnsLeft]; omega
  · cases steps with
    | looking _ _ => simp only [turnsLeft]; omega
    | starting _ _ _ => simp only [turnsLeft]; omega
    | waiting _ _ => simp only [turnsLeft]; omega
    | returned _ => cases turn

/-- A call that has not returned can take a turn, however its command comes out. -/
theorem next_progress (job : Job) (steps : RunSteps) (open_ : ∀ error, steps ≠ returned error) :
    ∃ event after following, steps.next job event = some (after, following) := by
  cases steps with
  | looking index steps =>
      refine ⟨.look, ?_⟩
      cases steps with
      | nil => exact ⟨_, _, rfl⟩
      | cons step rest =>
          cases cancelled : job.cancelled with
          | true => exact ⟨_, _, if_pos cancelled⟩
          | false => exact ⟨_, _, if_neg (by simp [cancelled])⟩
  | starting index step rest => exact ⟨.spawn none, _, _, rfl⟩
  | waiting index rest => exact ⟨.ends .timedOut, _, _, rfl⟩
  | returned error => exact absurd rfl (open_ error)

end RunSteps

end ServerBox.Monitor
