import ServerBox.Std.System

/-!
# One run at a time

`Coalesced` of `src/lib/core/utils/coalesced.dart`. A run's first part, up to its first `await`,
is within the call that starts it, so requests and cancellations may be made from inside it;
the calls that are open make a stack. What a run comes to is given with the events: its first
part returns or throws, and what it awaits ends, in success or not.
-/

namespace ServerBox.Utils.Coalesced

open ServerBox.Std

/-! ### The code -/

/-- What a request comes to. -/
inductive Fate where
  /-- It shares `_next`. -/
  | pending
  /-- It has the future of a run. -/
  | waits (run : Nat)
  | done (run : Nat)
  | cancelled
deriving DecidableEq

namespace Fate

/-- A run begins for those who share `_next`. -/
def start (run : Nat) (fate : Fate) : Fate := if fate = .pending then .waits run else fate

/-- A run's future completes. -/
def finish (run : Nat) (fate : Fate) : Fate := if fate = .waits run then .done run else fate

def cancel (fate : Fate) : Fate := if fate = .pending then .cancelled else fate

end Fate

structure Request where
  /-- How many runs had begun. -/
  asked : Nat
  fate : Fate
deriving DecidableEq

/-- A `_start` whose run is in its first part. -/
structure Frame where
  run : Nat
  /-- The run whose `finally` it is in, or none for `call`. -/
  starter : Option Nat
deriving DecidableEq

structure State where
  /-- `_current`, as the run that its future is of. -/
  current : Option Nat
  /-- Whether there is a `_next`. -/
  next : Bool
  /-- The calls that are open, the innermost first. -/
  stack : List Frame
  /-- The runs in progress. -/
  going : List Nat
  /-- How many runs have begun; a run's name is its place. -/
  begun : Nat
  requests : List Request
deriving DecidableEq

namespace State

def fates (state : State) (change : Fate → Fate) : State :=
  { state with
    requests := state.requests.map fun request => { request with fate := change request.fate } }

/-- `_start` up to the first part of the run, for those who share `_next`. -/
def start (state : State) (starter : Option Nat) : State :=
  { state.fates (Fate.start state.begun) with
    next := false
    stack := ⟨state.begun, starter⟩ :: state.stack
    going := state.begun :: state.going
    begun := state.begun + 1 }

/-- A `_start` that is over. -/
def finish (state : State) (run : Nat) : State :=
  state.fates (Fate.finish run)

/-- Calls of `_start` that return: to `call`, or to a `finally` that then is over, and with it
the `_start` that it is of. -/
def unwind (state : State) : List Frame → State
  | [] => { state with stack := [] }
  | ⟨run, none⟩ :: rest => { state with current := some run, stack := rest }
  | ⟨run, some starter⟩ :: rest =>
      unwind ({ state with current := some run }.finish starter) rest

end State

inductive Event where
  | call
  | cancelPending
  /-- The innermost run's first part returns its future. -/
  | returns
  /-- It throws. -/
  | throws
  /-- What a run awaits ends, in success or not. -/
  | ends (run : Nat)
deriving DecidableEq

def next (state : State) : Event → Option State
  | .call =>
      let asks (fate : Fate) : State :=
        { state with requests := state.requests ++ [⟨state.begun, fate⟩] }
      match state.current with
      | none => some ((asks (.waits state.begun)).start none)
      | some _ => some { asks .pending with next := true }
  | .cancelPending =>
      some { state.fates Fate.cancel with next := false }
  | .returns =>
      match state.stack with
      | [] => none
      | frame :: rest => some (state.unwind (frame :: rest))
  | .throws =>
      match state.stack with
      | [] => none
      | frame :: rest =>
          let left := { state with going := state.going.erase frame.run }
          if state.next then some (left.start (some frame.run))
          else some (({ left with current := none }.finish frame.run).unwind (frame :: rest))
  | .ends run =>
      if state.stack = [] ∧ run ∈ state.going then
        let left := { state with going := state.going.erase run }
        if state.next then some (left.start (some run))
        else some ({ left with current := none }.finish run)
      else none

def idle : State := ⟨none, false, [], [], 0, []⟩

def coalesced : System State Event := System.ofNext (· = idle) next

/-! ### The property -/

/-- At most one run is in progress. Who asked was answered by a run that had not begun then, and
that is over. When none is in progress and none is due, a request starts one. -/
structure Served (state : State) : Prop where
  single : state.going.length ≤ 1
  later : ∀ request ∈ state.requests, ∀ run, request.fate = .done run →
    request.asked ≤ run ∧ run ∉ state.going
  starts : state.going = [] → state.next = false →
    ∃ after, Coalesced.next state .call = some after ∧ state.begun ∈ after.going

/-- No run asks for one in its first part unless another is current, and none throws there
unless one is due. -/
def quiet (state : State) : Event → Bool
  | .call => state.stack = [] || state.current.isSome
  | .throws => state.next
  | _ => true

/-! ### The invariant -/

/-- What the field, the open calls and the runs in progress are to one another. -/
inductive Shape (state : State) : Prop
  | idle (stack : state.stack = []) (going : state.going = []) (current : state.current = none)
      (next : state.next = false)
  | runs (run : Nat) (stack : state.stack = []) (going : state.going = [run])
      (current : state.current.isSome = true)
  /-- `call` has not stored the future yet. -/
  | called (run : Nat) (stack : state.stack = [⟨run, none⟩]) (going : state.going = [run])
      (current : state.current = none) (next : state.next = false)
  | followed (frame : Frame) (rest : List Frame) (stack : state.stack = frame :: rest)
      (going : state.going = [frame.run]) (current : state.current.isSome = true)
      (starters : ∀ frame ∈ state.stack, frame.starter.isSome = true)

/-- A request is answered by a run that began after it, and is over. -/
def Sound (begun : Nat) (going : List Nat) (request : Request) : Prop :=
  match request.fate with
  | .pending | .cancelled => request.asked ≤ begun
  | .waits run => request.asked ≤ run ∧ run < begun
  | .done run => request.asked ≤ run ∧ run < begun ∧ run ∉ going

structure Inv (state : State) : Prop where
  shape : Shape state
  begins : ∀ run ∈ state.going, run < state.begun
  /-- A run whose `finally` started another is over. -/
  starters : ∀ frame ∈ state.stack, ∀ starter ∈ frame.starter,
    starter < state.begun ∧ starter ∉ state.going
  requests : ∀ request ∈ state.requests, Sound state.begun state.going request

section

variable {state : State} {begun : Nat} {going : List Nat}

theorem sound_fates {requests : List Request} {change : Fate → Fate}
    {begunAfter : Nat} {goingAfter : List Nat}
    (all : ∀ request ∈ requests, Sound begun going request)
    (each : ∀ request, Sound begun going request →
      Sound begunAfter goingAfter { request with fate := change request.fate }) :
    ∀ request ∈ requests.map fun request => { request with fate := change request.fate },
      Sound begunAfter goingAfter request := by
  intro request held
  obtain ⟨before, isBefore, rfl⟩ := List.mem_map.mp held
  exact each before (all before isBefore)

theorem sound_finish {run : Nat} (over_ : run ∉ going) {request : Request}
    (sound : Sound begun going request) :
    Sound begun going { request with fate := request.fate.finish run } := by
  unfold Fate.finish
  split
  next waits =>
    rw [Sound, waits] at sound
    exact ⟨sound.1, sound.2, over_⟩
  next => exact sound

/-- A run begins for those who share `_next`. -/
theorem sound_start {request : Request} (sound : Sound begun going request) :
    Sound (begun + 1) [begun] { request with fate := request.fate.start begun } := by
  obtain ⟨asked, fate⟩ := request
  cases fate with
  | pending => exact ⟨sound, Nat.lt_succ_self _⟩
  | cancelled => exact Nat.le_succ_of_le sound
  | waits run => exact ⟨sound.1, Nat.lt_succ_of_lt sound.2⟩
  | done run =>
      refine ⟨sound.1, Nat.lt_succ_of_lt sound.2.1, ?_⟩
      rw [List.mem_singleton]
      exact Nat.ne_of_lt sound.2.1

/-- Fewer runs in progress are fewer that could be one that is over. -/
theorem Sound.erase {request : Request} (sound : Sound begun going request) (run : Nat) :
    Sound begun (going.erase run) request := by
  unfold Sound at sound ⊢
  split at sound
  next => exact sound
  next => exact sound
  next => exact sound
  next => exact ⟨sound.1, sound.2.1, fun held => sound.2.2 (List.mem_of_mem_erase held)⟩

/-- What the return of the open calls leaves as it is. -/
theorem unwind_eq (frames : List Frame) (state : State) :
    (state.unwind frames).going = state.going ∧ (state.unwind frames).begun = state.begun ∧
      (state.unwind frames).next = state.next := by
  induction frames generalizing state with
  | nil => exact ⟨rfl, rfl, rfl⟩
  | cons frame frames inductionHypothesis =>
      obtain ⟨run, starter⟩ := frame
      cases starter with
      | none => exact ⟨rfl, rfl, rfl⟩
      | some starter => exact inductionHypothesis _

/-- When each of them is a `finally`'s, all of them return. -/
theorem unwind_all {frames : List Frame} {state : State}
    (starters : ∀ frame ∈ frames, frame.starter.isSome = true) :
    (state.unwind frames).stack = [] ∧
      (frames ≠ [] ∨ state.current.isSome = true →
        (state.unwind frames).current.isSome = true) := by
  induction frames generalizing state with
  | nil => exact ⟨rfl, fun either => either.resolve_left fun some => some rfl⟩
  | cons frame frames inductionHypothesis =>
      obtain ⟨isSome, others⟩ := List.forall_mem_cons.mp starters
      obtain ⟨run, starter⟩ := frame
      cases starter with
      | none => cases isSome
      | some starter =>
          obtain ⟨empty, current⟩ := inductionHypothesis others
          exact ⟨empty, fun _ => current (.inr rfl)⟩

theorem sound_unwind {frames : List Frame} {state : State}
    (starters : ∀ frame ∈ frames, ∀ starter ∈ frame.starter, starter ∉ state.going)
    (requests : ∀ request ∈ state.requests, Sound state.begun state.going request) :
    ∀ request ∈ (state.unwind frames).requests, Sound state.begun state.going request := by
  induction frames generalizing state with
  | nil => exact requests
  | cons frame frames inductionHypothesis =>
      obtain ⟨first, others⟩ := List.forall_mem_cons.mp starters
      obtain ⟨run, starter⟩ := frame
      cases starter with
      | none => exact requests
      | some starter =>
          refine @inductionHypothesis ({ state with current := some run }.finish starter) others ?_
          exact sound_fates requests fun _ => sound_finish (first starter rfl)

/-- A run begins when none is in progress. -/
theorem inv_start {starter : Option Nat} (shape : Shape (state.start starter))
    (starters : ∀ frame ∈ state.stack, ∀ run ∈ frame.starter, run < state.begun)
    (starts : ∀ run ∈ starter, run < state.begun) (going : state.going = [])
    (requests : ∀ request ∈ state.requests,
      Sound (state.begun + 1) [state.begun]
        { request with fate := request.fate.start state.begun }) :
    Inv (state.start starter) := by
  have now : (state.start starter).going = [state.begun] := by
    change state.begun :: state.going = _
    rw [going]
  have earlier : ∀ run, run < state.begun → run < state.begun + 1 ∧
      run ∉ (state.start starter).going := by
    intro run less
    rw [now, List.mem_singleton]
    exact ⟨Nat.lt_succ_of_lt less, Nat.ne_of_lt less⟩
  refine ⟨shape, ?_, ?_, ?_⟩
  · intro run held
    rw [now, List.mem_singleton] at held
    exact held ▸ Nat.lt_succ_self _
  · intro frame held run isStarter
    rcases List.mem_cons.mp held with rfl | held
    · exact earlier run (starts run isStarter)
    · exact earlier run (starters frame held run isStarter)
  · intro request held
    rw [now]
    obtain ⟨before, isBefore, rfl⟩ := List.mem_map.mp held
    exact requests before isBefore

/-- A run in progress begins another when it is over. -/
theorem inv_follow {run : Nat} (inv : Inv state) (alone : state.going = [run])
    (shape : Shape (({ state with going := state.going.erase run } : State).start (some run))) :
    Inv (({ state with going := state.going.erase run } : State).start (some run)) := by
  refine inv_start shape (fun frame held run isStarter => (inv.starters frame held run isStarter).1)
    ?_ ?_ fun request held => sound_start (inv.requests request held)
  · intro starter isRun
    cases isRun
    exact inv.begins run (alone ▸ List.mem_singleton_self run)
  · change state.going.erase run = []
    rw [alone, List.erase_cons_head]

theorem inv_call (inv : Inv state) (meets : quiet state .call = true) {after : State}
    (leads : next state .call = some after) : Inv after := by
  cases held : state.current with
  | none =>
      simp only [next, held, Option.some.injEq] at leads
      subst leads
      cases inv.shape with
      | idle stack going current isNext =>
          refine inv_start (.called state.begun ?_ ?_ rfl rfl) ?_ (fun _ none => nomatch none)
            going ?_
          · change _ :: state.stack = _
            rw [stack]
          · change _ :: state.going = _
            rw [going]
          · exact fun frame among run isStarter => (inv.starters frame among run isStarter).1
          · intro request among
            rcases List.mem_append.mp among with among | among
            · exact sound_start (inv.requests request among)
            · rw [List.mem_singleton.mp among]
              exact ⟨Nat.le_refl _, Nat.lt_succ_self _⟩
      | runs run stack going current => rw [held] at current; cases current
      | called run stack going current isNext => simp [quiet, held, stack] at meets
      | followed frame rest stack going current starters => rw [held] at current; cases current
  | some current =>
      simp only [next, held, Option.some.injEq] at leads
      subst leads
      refine ⟨?_, inv.begins, inv.starters, ?_⟩
      · cases inv.shape with
        | idle stack going isCurrent => rw [held] at isCurrent; cases isCurrent
        | runs run stack going isCurrent => exact .runs run stack going rfl
        | called run stack going isCurrent => rw [held] at isCurrent; cases isCurrent
        | followed frame rest stack going isCurrent starters =>
            exact .followed frame rest stack going rfl starters
      · intro request among
        rcases List.mem_append.mp among with among | among
        · exact inv.requests request among
        · rw [List.mem_singleton.mp among]
          exact Nat.le_refl state.begun

theorem sound_cancel {request : Request} (sound : Sound begun going request) :
    Sound begun going { request with fate := request.fate.cancel } := by
  unfold Fate.cancel
  split
  next isPending => rwa [Sound, isPending] at sound
  next => exact sound

theorem inv_cancelPending (inv : Inv state) :
    Inv { state.fates Fate.cancel with next := false } := by
  refine ⟨?_, inv.begins, inv.starters, sound_fates inv.requests fun _ => sound_cancel⟩
  cases inv.shape with
  | idle stack going current isNext => exact .idle stack going current rfl
  | runs run stack going current => exact .runs run stack going current
  | called run stack going current isNext => exact .called run stack going current rfl
  | followed frame rest stack going current starters =>
      exact .followed frame rest stack going current starters

theorem inv_returns (inv : Inv state) {after : State}
    (leads : next state .returns = some after) : Inv after := by
  cases held : state.stack with
  | nil => rw [next, held] at leads; cases leads
  | cons frame rest =>
      simp only [next, held, Option.some.injEq] at leads
      subst leads
      rw [← held]
      obtain ⟨going, begun, -⟩ := unwind_eq state.stack state
      have runs : ∃ run, state.going = [run] ∧ (state.unwind state.stack).stack = [] ∧
          (state.unwind state.stack).current.isSome = true := by
        cases inv.shape with
        | idle stack => rw [held] at stack; cases stack
        | runs run stack => rw [held] at stack; cases stack
        | called run stack isGoing =>
            rw [stack]
            exact ⟨run, isGoing, rfl, rfl⟩
        | followed frame rest stack isGoing current starters =>
            obtain ⟨empty, isSome⟩ := unwind_all starters
            exact ⟨frame.run, isGoing, empty, isSome (.inr current)⟩
      obtain ⟨run, alone, empty, current⟩ := runs
      refine ⟨.runs run empty (going.trans alone) current, ?_, ?_, ?_⟩
      · rw [going, begun]
        exact inv.begins
      · rw [empty]
        exact fun frame none => nomatch none
      · rw [going, begun]
        exact sound_unwind (fun frame among run isStarter =>
          (inv.starters frame among run isStarter).2) inv.requests

theorem inv_throws (inv : Inv state) (meets : quiet state .throws = true) {after : State}
    (leads : next state .throws = some after) : Inv after := by
  change state.next = true at meets
  cases inv.shape with
  | idle stack going current isNext => rw [meets] at isNext; cases isNext
  | runs run stack => rw [next, stack] at leads; cases leads
  | called run stack going current isNext => rw [meets] at isNext; cases isNext
  | followed frame rest stack going current starters =>
      have leads : some (({ state with going := state.going.erase frame.run } : State).start
          (some frame.run)) = some after := by
        rw [← leads]
        simp only [next, stack, meets, if_true]
      cases leads
      refine inv_follow inv going (.followed _ state.stack rfl ?_ current ?_)
      · change _ :: state.going.erase frame.run = _
        rw [going, List.erase_cons_head]
      · exact List.forall_mem_cons.mpr ⟨rfl, starters⟩

theorem inv_ends {run : Nat} (inv : Inv state) {after : State}
    (leads : next state (.ends run) = some after) : Inv after := by
  simp only [next] at leads
  split at leads
  next ended =>
    obtain ⟨empty, isGoing⟩ := ended
    have runs : state.going = [run] ∧ state.current.isSome = true := by
      cases inv.shape with
      | idle stack going => rw [going] at isGoing; cases isGoing
      | runs only stack going current =>
          rw [going, List.mem_singleton] at isGoing
          exact ⟨isGoing ▸ going, current⟩
      | called only stack => rw [empty] at stack; cases stack
      | followed frame rest stack => rw [empty] at stack; cases stack
    obtain ⟨alone, current⟩ := runs
    have none_ : state.going.erase run = [] := by rw [alone, List.erase_cons_head]
    split at leads
    next =>
      cases leads
      refine inv_follow inv alone (.followed _ state.stack rfl ?_ current ?_)
      · change _ :: state.going.erase run = _
        rw [none_]
      · rw [empty]
        exact List.forall_mem_singleton.mpr rfl
    next isNext =>
      cases leads
      refine ⟨.idle empty none_ rfl (Bool.eq_false_iff.mpr isNext), ?_, ?_, ?_⟩
      · exact fun other held => inv.begins other (List.mem_of_mem_erase held)
      · change ∀ frame ∈ state.stack, _
        rw [empty]
        exact fun frame none => nomatch none
      · refine sound_fates inv.requests fun request sound => ?_
        refine sound_finish ?_ (sound.erase run)
        rw [none_]
        exact List.not_mem_nil
  next => cases leads

theorem inv_next {event : Event} (inv : Inv state) (meets : quiet state event = true)
    {after : State} (leads : next state event = some after) : Inv after := by
  cases event with
  | call => exact inv_call inv meets leads
  | cancelPending =>
      cases leads
      exact inv_cancelPending inv
  | returns => exact inv_returns inv leads
  | throws => exact inv_throws inv meets leads
  | ends run => exact inv_ends inv leads

theorem inv_idle : Inv idle where
  shape := .idle rfl rfl rfl rfl
  begins := fun _ none => nomatch none
  starters := fun _ none => nomatch none
  requests := fun _ none => nomatch none

theorem Inv.served (inv : Inv state) : Served state := by
  refine ⟨?_, ?_, ?_⟩
  · cases inv.shape with
    | idle stack going => rw [going]; exact Nat.zero_le 1
    | runs run stack going => rw [going]; exact Nat.le_refl 1
    | called run stack going => rw [going]; exact Nat.le_refl 1
    | followed frame rest stack going => rw [going]; exact Nat.le_refl 1
  · intro request held run isDone
    have sound := inv.requests request held
    rw [Sound, isDone] at sound
    exact ⟨sound.1, sound.2.2⟩
  · intro none_ _
    have current : state.current = none := by
      cases inv.shape with
      | idle stack going current => exact current
      | runs run stack going => rw [none_] at going; cases going
      | called run stack going => rw [none_] at going; cases going
      | followed frame rest stack going => rw [none_] at going; cases going
    rw [next, current]
    refine ⟨_, rfl, ?_⟩
    exact List.mem_cons_self

end

/-- In every state reached, if no run calls in its first part while no future is stored and none
throws there while none is due. -/
theorem served_of_reached {state : State}
    (reached : coalesced.Reached (fun state event => quiet state event = true) state) :
    Served state :=
  (reached.holds (fun _ starts => starts ▸ inv_idle)
    fun _ _ _ inv meets leads => inv_next inv meets leads).served

/-- A request in a run, one in its follow-up, which throws at once, and the run after. -/
def burst : List Event :=
  [.call, .returns, .call, .ends 0, .call, .throws, .returns, .ends 2]

theorem served_burst : Served ((System.follow quiet next idle burst).get (by decide)) :=
  served_of_reached
    (System.reached_get quiet next burst (.initial rfl : coalesced.Reached _ _) (by decide))

/-- A run that throws at once leaves its future stored, and no later request starts another; and
one that asks in its first part runs beside the one that it asked for. -/
theorem not_served_thrown :
    (∃ state, coalesced.Reachable state ∧ ¬ Served state ∧ state.going = [] ∧
      state.next = false ∧ ∀ after, next state .call = some after → after.going = []) ∧
    ∃ state, coalesced.Reachable state ∧ ¬ Served state ∧ state.going.length = 2 := by
  have reaches {events : List Event} {state : State}
      (leads : System.follow (fun _ _ => true) next idle events = some state) :
      coalesced.Reachable state :=
    (System.reached_follow (fun _ _ => true) next events (.initial rfl : coalesced.Reached _ _)
      leads).mono fun _ _ _ => trivial
  let stuck : State := ⟨some 0, false, [], [], 1, [⟨0, .done 0⟩]⟩
  have nothing : ∀ after, next stuck .call = some after → after.going = [] := by
    intro after leads
    cases leads
    rfl
  let twice : State :=
    ⟨none, false, [⟨1, none⟩, ⟨0, none⟩], [1, 0], 2, [⟨0, .waits 0⟩, ⟨1, .waits 1⟩]⟩
  refine ⟨⟨stuck, @reaches [.call, .throws] stuck rfl, ?_, rfl, rfl, nothing⟩,
    twice, @reaches [.call, .call] twice rfl, ?_, rfl⟩
  · intro served
    obtain ⟨after, leads, begins⟩ := served.starts rfl rfl
    rw [nothing after leads] at begins
    cases begins
  · exact fun served => absurd served.single (by decide)

end ServerBox.Utils.Coalesced
