/-!
# Systems that take steps

A system is the states it may start in and the steps it may take. A state is reached
under a condition when every step on the way to it met the condition in the state it
was taken in; what holds at the start and is kept by each such step holds of every
state reached (`Reached.holds`).
-/

namespace ServerBox.Std

/-- A system: where it starts, and which event takes it from which state to which. -/
structure System (State Event : Type) where
  Initial : State → Prop
  Step : State → Event → State → Prop

namespace System

variable {State Event : Type} {system : System State Event}

/-- A state reached by steps that each meet a condition on the state before and the event. -/
inductive Reached (system : System State Event) (Meets : State → Event → Prop) : State → Prop where
  | initial {state} (starts : system.Initial state) : Reached system Meets state
  | step {state event next} (prior : Reached system Meets state) (meets : Meets state event)
      (transition : system.Step state event next) : Reached system Meets next

/-- A state reached by any steps. -/
abbrev Reachable (system : System State Event) : State → Prop := system.Reached fun _ _ => True

/-- What every start has and every step keeps, every state reached has. -/
theorem Reached.holds {Meets : State → Event → Prop} {Holds : State → Prop}
    (initial : ∀ state, system.Initial state → Holds state)
    (step : ∀ state event next, Holds state → Meets state event → system.Step state event next →
      Holds next)
    {state : State} (reached : system.Reached Meets state) : Holds state := by
  induction reached with
  | initial starts => exact initial _ starts
  | step _ meets transition inductionHypothesis => exact step _ _ _ inductionHypothesis meets transition

/-- A state reached under a condition is reached under one that asks less. -/
theorem Reached.mono {Meets More : State → Event → Prop}
    (weaker : ∀ state event, Meets state event → More state event) {state : State}
    (reached : system.Reached Meets state) : system.Reached More state := by
  induction reached with
  | initial starts => exact .initial starts
  | step _ meets transition inductionHypothesis =>
      exact .step inductionHypothesis (weaker _ _ meets) transition

/-- The system whose step is a function. -/
def ofNext (Initial : State → Prop) (next : State → Event → Option State) :
    System State Event where
  Initial
  Step state event after := next state event = some after

/-- The state that the next event leads to from a reached state is reached. -/
theorem reached_next {Initial : State → Prop} {Meets : State → Event → Prop}
    {next : State → Event → Option State} {state after : State} {event : Event}
    (reached : (ofNext Initial next).Reached Meets state) (meets : Meets state event)
    (leads : next state event = some after) : (ofNext Initial next).Reached Meets after :=
  .step reached meets leads

/-- The state that a list of events leads to, each of which meets a condition. -/
def follow (meets : State → Event → Bool) (next : State → Event → Option State) (state : State) :
    List Event → Option State
  | [] => some state
  | event :: events =>
      if meets state event then (next state event).bind fun after => follow meets next after events
      else none

/-- A state that a list of events leads to from a reached state is reached. -/
theorem reached_follow {Initial : State → Prop} (meets : State → Event → Bool)
    (next : State → Event → Option State) {state after : State} (events : List Event)
    (reached : (ofNext Initial next).Reached (fun state event => meets state event = true) state)
    (leads : follow meets next state events = some after) :
    (ofNext Initial next).Reached (fun state event => meets state event = true) after := by
  induction events generalizing state with
  | nil => exact Option.some.inj leads ▸ reached
  | cons event events inductionHypothesis =>
      rw [follow] at leads
      split at leads
      next holds =>
        obtain ⟨middle, first, rest⟩ := Option.bind_eq_some_iff.mp leads
        exact inductionHypothesis (.step reached holds first) rest
      next => cases leads

/-- The state itself that such a list leads to. -/
theorem reached_get {Initial : State → Prop} (meets : State → Event → Bool)
    (next : State → Event → Option State) {state : State} (events : List Event)
    (reached : (ofNext Initial next).Reached (fun state event => meets state event = true) state)
    (leads : (follow meets next state events).isSome = true) :
    (ofNext Initial next).Reached (fun state event => meets state event = true)
      ((follow meets next state events).get leads) :=
  reached_follow meets next events reached (Option.some_get leads).symm

/-- The same system, started in one state. -/
def startedIn (system : System State Event) (start : State) : System State Event where
  Initial state := state = start
  Step := system.Step

end System

end ServerBox.Std
