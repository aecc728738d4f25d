import ServerBox.Std.System

/-!
# The commands of a tmux client

`TmuxCommandExecutor` of `lib/data/terminal/tmux/tmux_command_executor.dart` and tmux at the other
end of its transport. Commands are numbered as they are made. tmux answers the command that attached
the client, then each command it reads, in order; what it answers is read in order. Results carry
nothing that names their command, so that only this order says whose they are.
-/

namespace ServerBox.Terminal.Tmux

open ServerBox.Std

/-- What a future of the executor is completed with. -/
inductive Completion (Result : Type) where
  | result (result : Result)
  /-- An error of the stream, or `StateError`. -/
  | failed
deriving DecidableEq, Repr

structure TmuxCommandExecutor (Result : Type) where
  startup : Option (Completion Result)
  pending : List Nat
  closed : Bool
  /-- The futures of commands that are complete. -/
  completed : List (Nat × Completion Result)
deriving DecidableEq, Repr

namespace TmuxCommandExecutor

variable {Result : Type} (executor : TmuxCommandExecutor Result)

def new : TmuxCommandExecutor Result := ⟨none, [], false, []⟩

/-- `run`, of a command that is new: whether it is written. -/
def run (command : Nat) : TmuxCommandExecutor Result × Bool :=
  if executor.closed then
    ({ executor with completed := executor.completed ++ [(command, .failed)] }, false)
  else ({ executor with pending := executor.pending ++ [command] }, true)

theorem run_of_closed (closed : executor.closed = true) (command : Nat) :
    executor.run command =
      ({ executor with completed := executor.completed ++ [(command, .failed)] }, false) :=
  if_pos closed

theorem run_of_open (isOpen : executor.closed = false) (command : Nat) :
    executor.run command = ({ executor with pending := executor.pending ++ [command] }, true) :=
  if_neg (by simp [isOpen])

def complete (result : Result) : TmuxCommandExecutor Result :=
  if executor.closed then executor
  else match executor.startup with
    | none => { executor with startup := some (.result result) }
    | some _ =>
        match executor.pending with
        | [] => executor
        | command :: pending =>
            { executor with
              pending
              completed := executor.completed ++ [(command, .result result)] }

theorem complete_of_closed (closed : executor.closed = true) (result : Result) :
    executor.complete result = executor := if_pos closed

theorem complete_startup (isOpen : executor.closed = false) (opening : executor.startup = none)
    (result : Result) :
    executor.complete result = { executor with startup := some (.result result) } := by
  rw [complete, if_neg (by simp [isOpen]), opening]

theorem complete_command (isOpen : executor.closed = false) {startup : Completion Result}
    (opened : executor.startup = some startup) {command : Nat} {pending : List Nat}
    (waits : executor.pending = command :: pending) (result : Result) :
    executor.complete result =
      { executor with
        pending
        completed := executor.completed ++ [(command, .result result)] } := by
  rw [complete, if_neg (by simp [isOpen]), opened, waits]

def fail : TmuxCommandExecutor Result :=
  if executor.closed then executor
  else
    { executor with
      startup := executor.startup.or (some .failed)
      pending := []
      completed := executor.completed ++ executor.pending.map fun command => (command, .failed) }

def close : TmuxCommandExecutor Result :=
  if executor.closed then executor else { executor.fail with closed := true }

end TmuxCommandExecutor

namespace CommandQueue

/-- What tmux answers: the command that attached the client, or one of the client's. -/
inductive Block (Result : Type) where
  | attached (result : Result)
  | answer (command : Nat) (result : Result)
deriving DecidableEq, Repr

def Block.result {Result : Type} : Block Result → Result
  | .attached result => result
  | .answer _ result => result

structure State (Result : Type) where
  executor : TmuxCommandExecutor Result
  /-- How many commands were made. -/
  made : Nat
  /-- The commands that tmux has yet to read. -/
  written : List Nat
  /-- Whether tmux has answered the command that attached the client. -/
  attached : Bool
  /-- What the client has yet to read. -/
  coming : List (Block Result)
  /-- Everything that tmux has answered. -/
  answered : List (Block Result)
deriving DecidableEq, Repr

inductive Event (Result : Type) where
  | run
  | attach (result : Result)
  | execute (result : Result)
  | receive
  /-- `_handleStreamError`, which fails the commands and closes the queue. -/
  | streamError
  | close

namespace State

variable {Result : Type} (state : State Result)

def start : State Result := ⟨.new, 0, [], false, [], []⟩

def next (state : State Result) : Event Result → Option (State Result)
  | .run =>
      let (executor, writes) := state.executor.run state.made
      some { state with
        executor
        made := state.made + 1
        written := if writes then state.written ++ [state.made] else state.written }
  | .attach result =>
      if state.attached then none
      else
        some { state with
          attached := true
          coming := state.coming ++ [.attached result]
          answered := state.answered ++ [.attached result] }
  | .execute result =>
      if state.attached then
        match state.written with
        | [] => none
        | command :: written =>
            some { state with
              written
              coming := state.coming ++ [.answer command result]
              answered := state.answered ++ [.answer command result] }
      else none
  | .receive =>
      match state.coming with
      | [] => none
      | block :: coming =>
          some { state with executor := state.executor.complete block.result, coming }
  | .streamError => some { state with executor := state.executor.fail.close }
  | .close => some { state with executor := state.executor.close }

def system : System (State Result) (Event Result) := .ofNext (· = start) next

/-! ### Whose an answer is -/

/-- The commands whose answers are on the way. -/
def onTheWay (coming : List (Block Result)) : List Nat :=
  coming.filterMap fun block => match block with
    | .attached _ => none
    | .answer command _ => some command

/-- What is read next is for the startup as long as that is open, and then for the commands in the
order in which they wait. -/
structure InOrder : Prop where
  opening : state.executor.startup = none →
    state.coming = [] ∧ state.attached = false ∨
      ∃ result rest, state.coming = .attached result :: rest ∧ state.attached = true ∧
        ∀ block ∈ rest, ∃ command result, block = .answer command result
  opened : state.executor.startup ≠ none → state.attached = true ∧
    ∀ block ∈ state.coming, ∃ command result, block = .answer command result
  pending : onTheWay state.coming ++ state.written = state.executor.pending

/-- Every command waits or is complete, and only once; a result is what tmux answered to the very
command. -/
structure Own : Prop where
  once : (state.executor.completed.map Prod.fst ++ state.executor.pending).Perm
    (List.range state.made)
  startup : ∀ result, state.executor.startup = some (.result result) →
    .attached result ∈ state.answered
  result : ∀ command result, (command, .result result) ∈ state.executor.completed →
    .answer command result ∈ state.answered
  ended : state.executor.closed = true → state.executor.pending = []

structure Kept : Prop where
  own : state.Own
  inOrder : state.executor.closed = false → state.InOrder
  coming : ∀ block ∈ state.coming, block ∈ state.answered

variable {state}

theorem kept_start : (start : State Result).Kept where
  own := ⟨List.Perm.nil, nofun, nofun, fun _ => rfl⟩
  inOrder := fun _ => ⟨fun _ => .inl ⟨rfl, rfl⟩, fun wrong => absurd rfl wrong, rfl⟩
  coming := nofun

theorem Kept.run (kept : state.Kept) {after : State Result}
    (leads : state.next .run = some after) : after.Kept := by
  cases closed : state.executor.closed with
  | true =>
      rw [next, TmuxCommandExecutor.run_of_closed _ closed] at leads
      obtain rfl := Option.some.inj leads
      have none := kept.own.ended closed
      have once := kept.own.once.append_right [state.made]
      rw [none, List.append_nil] at once
      refine ⟨⟨?_, kept.own.startup, ?_, fun _ => none⟩, fun isOpen => ?_, kept.coming⟩
      · simpa [none, List.range_succ] using once
      · intro command result held
        rcases List.mem_append.mp held with before | new
        · exact kept.own.result command result before
        · cases List.mem_singleton.mp new
      · exact absurd (closed.symm.trans isOpen) (by decide)
  | false =>
      rw [next, TmuxCommandExecutor.run_of_open _ closed] at leads
      obtain rfl := Option.some.inj leads
      have inOrder := kept.inOrder closed
      refine ⟨⟨?_, kept.own.startup, kept.own.result, ?_⟩, fun _ => ?_, kept.coming⟩
      · have once := kept.own.once.append_right [state.made]
        rw [List.append_assoc] at once
        rw [List.range_succ]
        exact once
      · exact fun isClosed => absurd (closed.symm.trans isClosed) (by decide)
      · refine ⟨inOrder.opening, inOrder.opened, ?_⟩
        rw [if_pos rfl, ← List.append_assoc, inOrder.pending]

theorem Kept.attach (kept : state.Kept) {result : Result} {after : State Result}
    (leads : state.next (.attach result) = some after) : after.Kept := by
  rw [next] at leads
  split at leads
  next => cases leads
  next notYet =>
    obtain rfl := Option.some.inj leads
    rw [Bool.not_eq_true] at notYet
    refine ⟨⟨kept.own.once, fun given isStartup => ?_, fun command given held => ?_,
      kept.own.ended⟩, fun isOpen => ?_, fun block held => ?_⟩
    · exact List.mem_append_left _ (kept.own.startup given isStartup)
    · exact List.mem_append_left _ (kept.own.result command given held)
    · have inOrder := kept.inOrder isOpen
      have opening : state.executor.startup = none := by
        cases startup : state.executor.startup with
        | none => rfl
        | some completion =>
            have attached := (inOrder.opened (by simp [startup])).1
            exact absurd (attached.symm.trans notYet) (by decide)
      rcases inOrder.opening opening with ⟨coming, -⟩ | ⟨given, rest, -, attached, -⟩
      · have pending := inOrder.pending
        rw [coming] at pending
        refine ⟨fun _ => .inr ⟨result, [], by simp [coming], rfl, nofun⟩,
          fun opened => absurd opening opened, ?_⟩
        simpa [coming, onTheWay] using pending
      · exact absurd (attached.symm.trans notYet) (by decide)
    · rcases List.mem_append.mp held with before | new
      · exact List.mem_append_left _ (kept.coming block before)
      · exact List.mem_append_right _ new

theorem Kept.execute (kept : state.Kept) {result : Result} {after : State Result}
    (leads : state.next (.execute result) = some after) : after.Kept := by
  rw [next] at leads
  split at leads
  next attached =>
    split at leads
    next => cases leads
    next command written shape =>
      obtain rfl := Option.some.inj leads
      refine ⟨⟨kept.own.once, fun given isStartup => ?_, fun other given held => ?_,
        kept.own.ended⟩, fun isOpen => ?_, fun block held => ?_⟩
      · exact List.mem_append_left _ (kept.own.startup given isStartup)
      · exact List.mem_append_left _ (kept.own.result other given held)
      · have inOrder := kept.inOrder isOpen
        refine ⟨fun opening => .inr ?_, fun opened => ⟨attached, fun block held => ?_⟩, ?_⟩
        · rcases inOrder.opening opening with ⟨-, notYet⟩ | ⟨given, rest, coming, -, answers⟩
          · exact absurd (attached.symm.trans notYet) (by decide)
          · refine ⟨given, rest ++ [.answer command result], by simp [coming], attached,
              fun block held => ?_⟩
            rcases List.mem_append.mp held with before | new
            · exact answers block before
            · exact ⟨command, result, List.mem_singleton.mp new⟩
        · rcases List.mem_append.mp held with before | new
          · exact (inOrder.opened opened).2 block before
          · exact ⟨command, result, List.mem_singleton.mp new⟩
        · have pending := inOrder.pending
          rw [shape] at pending
          simpa [onTheWay] using pending
      · rcases List.mem_append.mp held with before | new
        · exact List.mem_append_left _ (kept.coming block before)
        · exact List.mem_append_right _ new
  next => cases leads

theorem Kept.receive (kept : state.Kept) {after : State Result}
    (leads : state.next .receive = some after) : after.Kept := by
  rw [next] at leads
  split at leads
  next => cases leads
  next block coming shape =>
    obtain rfl := Option.some.inj leads
    have later : ∀ other ∈ coming, other ∈ state.answered := fun other held =>
      kept.coming other (shape ▸ List.mem_cons_of_mem _ held)
    have first : block ∈ state.answered := kept.coming block (shape ▸ List.mem_cons_self)
    cases closed : state.executor.closed with
    | true =>
        rw [TmuxCommandExecutor.complete_of_closed _ closed]
        exact ⟨⟨kept.own.once, kept.own.startup, kept.own.result, kept.own.ended⟩,
          fun isOpen => absurd (closed.symm.trans isOpen) (by decide), later⟩
    | false =>
        have inOrder := kept.inOrder closed
        have pending := inOrder.pending
        cases opening : state.executor.startup with
        | none =>
            rw [TmuxCommandExecutor.complete_startup _ closed opening]
            rcases inOrder.opening opening with ⟨nothing, -⟩ | ⟨result, rest, same, attached, answers⟩
            · exact absurd (nothing.symm.trans shape) (by simp)
            · obtain ⟨rfl, rfl⟩ := List.cons.inj (shape.symm.trans same)
              refine ⟨⟨kept.own.once, fun given isStartup => ?_, kept.own.result, kept.own.ended⟩,
                fun _ => ⟨fun wrong => absurd wrong (by simp), fun _ => ⟨attached, answers⟩, ?_⟩,
                later⟩
              · obtain rfl : result = given := by simpa [Block.result] using isStartup
                exact first
              · simpa [shape, onTheWay] using pending
        | some startup =>
            obtain ⟨attached, answers⟩ := inOrder.opened (by simp [opening])
            obtain ⟨command, result, rfl⟩ := answers block (shape ▸ List.mem_cons_self)
            have waits : state.executor.pending = command :: (onTheWay coming ++ state.written) := by
              rw [← pending, shape]
              rfl
            rw [TmuxCommandExecutor.complete_command _ closed opening waits]
            refine ⟨⟨?_, kept.own.startup, ?_, fun isClosed => ?_⟩, fun _ => ⟨fun wrong => ?_, ?_,
              rfl⟩, later⟩
            · have once := kept.own.once
              rw [waits] at once
              simpa using once
            · intro other given held
              rcases List.mem_append.mp held with before | new
              · exact kept.own.result other given before
              · obtain ⟨rfl, same⟩ := Prod.mk.inj (List.mem_singleton.mp new)
                obtain rfl : given = result := by simpa [Block.result] using same
                exact first
            · have isOpen : state.executor.closed = true := isClosed
              exact absurd (closed.symm.trans isOpen) (by decide)
            · have none : state.executor.startup = none := wrong
              exact absurd (opening.symm.trans none) (by simp)
            · exact fun _ => ⟨attached, fun other held =>
                answers other (shape ▸ List.mem_cons_of_mem _ held)⟩

/-- Failing what waits completes it, with no result. -/
theorem Own.fail (own : state.Own) : State.Own { state with executor := state.executor.fail } := by
  unfold TmuxCommandExecutor.fail
  cases closed : state.executor.closed with
  | true => exact own
  | false =>
      refine ⟨?_, fun result isStartup => own.startup result ?_, fun command result held => ?_,
        fun _ => rfl⟩
      · have same : (Prod.fst ∘ fun command : Nat => (command, (.failed : Completion Result))) =
            id := rfl
        simpa [same] using own.once
      · cases startup : state.executor.startup with
        | none => simp [startup] at isStartup
        | some completion => simpa [startup] using isStartup
      · rcases List.mem_append.mp held with before | new
        · exact own.result command result before
        · obtain ⟨other, -, wrong⟩ := List.mem_map.mp new
          cases wrong

theorem Own.close (own : state.Own) :
    State.Own { state with executor := state.executor.close } := by
  unfold TmuxCommandExecutor.close
  cases closed : state.executor.closed with
  | true => exact own
  | false =>
      have failed := own.fail
      refine ⟨failed.once, failed.startup, failed.result, fun _ => ?_⟩
      simp [TmuxCommandExecutor.fail, closed]

theorem closed_close (executor : TmuxCommandExecutor Result) :
    executor.close.closed = true := by
  unfold TmuxCommandExecutor.close
  split
  next closed => exact closed
  next => rfl

theorem Kept.next (kept : state.Kept) {event : Event Result} {after : State Result}
    (leads : state.next event = some after) : after.Kept := by
  cases event with
  | run => exact kept.run leads
  | attach result => exact kept.attach leads
  | execute result => exact kept.execute leads
  | receive => exact kept.receive leads
  | streamError =>
      obtain rfl := Option.some.inj leads
      exact ⟨kept.own.fail.close,
        fun isOpen => absurd ((closed_close _).symm.trans isOpen) (by decide), kept.coming⟩
  | close =>
      obtain rfl := Option.some.inj leads
      exact ⟨kept.own.close,
        fun isOpen => absurd ((closed_close _).symm.trans isOpen) (by decide), kept.coming⟩

/-- In every run of the client and tmux, whatever is written, answered and read when, and however
the stream ends. -/
theorem answers_own {state : State Result} (reached : system.Reachable state) : state.Own := by
  have kept : state.Kept := reached.holds (fun _ starts => starts ▸ kept_start)
    fun _ _ _ kept _ leads => kept.next leads
  exact kept.own

/-- A command that is answered while the startup is read, and one that the end of the stream
fails. -/
def twoCommands : List (Event Nat) :=
  [.attach 1, .run, .execute 7, .receive, .run, .receive, .streamError]

theorem answers_own_twoCommands :
    Own ((System.follow (fun _ _ => true) next start twoCommands).get (by decide)) :=
  answers_own
    ((System.reached_get (fun _ _ => true) next twoCommands
      (.initial rfl : system.Reached _ (start : State Nat)) (by decide)).mono fun _ _ _ => trivial)

end State

end CommandQueue

end ServerBox.Terminal.Tmux
