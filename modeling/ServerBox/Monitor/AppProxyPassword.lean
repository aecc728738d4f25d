import ServerBox.Monitor.AppProxy
import Mathlib.Data.Option.Basic

/-!
# What a password change ends at the proxy

A request is only ever admitted to the app its session was opened for. A password change
ends the sessions that are in the table when it clears it, and the requests after it are
admitted under sessions looked up since, provided it did not complete while a window was
between its lookup and its session, or a request between the table and the end of its
recheck.
-/

namespace ServerBox.Monitor.AppProxy

open ServerBox.Std

/-! ### The steps by what they do to sessions and requests -/

/-- What a step does to the sessions, the waiting requests and the admissions. -/
inductive Effect (state : State) : Event → State → Prop where
  /-- No session is new, and the requests stay as they are. -/
  | quiet {event : Event} {after : State}
      (sessions : ∀ token session, session ∈ after.proxies.sessions.lookup token →
        session ∈ state.proxies.sessions.lookup token)
      (rechecking : after.rechecking = state.rechecking)
      (admitted : after.admitted = state.admitted)
      (completed : after.completed = state.completed) : Effect state event after
  | opened {task : Nat} {token : Option Text} {stack : Text} {origin : Option Text} {since : Int}
      {lookedUp : Nat}
      (found : state.entering.lookup task = some (.found stack origin since lookedUp)) :
      Effect state (.openSession task token)
        { state with
          proxies := state.proxies.openSession token since stack origin lookedUp state.now
          entering := AList.erase task state.entering }
  | due {task : Nat} {stack token : Text} {session : Session}
      (under : state.proxies.sessionOf stack token state.now = some session) :
      Effect state (.request task stack token)
        { state with
          rechecking := AList.insert task ⟨stack, token, session, state.completed, none⟩
            state.rechecking }
  | admitted {task : Nat} {stack token : Text} {session : Session}
      (under : state.proxies.sessionOf stack token state.now = some session) :
      Effect state (.request task stack token) (state.letThrough stack session)
  | answered {task : Nat} {readable : Bool} {waiting : Rechecking}
      (waits : state.rechecking.lookup task = some waiting) :
      Effect state (.recheck task readable)
        { state with
          rechecking := AList.insert task { waiting with answer := some (state.caller readable) }
            state.rechecking }
  | refused {task : Nat} {waiting : Rechecking} :
      Effect state (.recheckEnds task)
        { state with
          proxies := state.proxies.forget waiting.token
          rechecking := AList.erase task state.rechecking }
  | passed {task : Nat} {waiting : Rechecking}
      (waits : state.rechecking.lookup task = some waiting)
      (confirmed : waiting.answer = some (some waiting.session.since)) :
      Effect state (.recheckEnds task)
        ({ state with
          proxies := state.proxies.checkedAgain waiting.token state.now
          rechecking := AList.erase task state.rechecking }.letThrough waiting.stack waiting.session)
  | ended {task : Nat} :
      Effect state (.endSessions task)
        { state with
          proxies := state.proxies.endAccount
          changing := AList.erase task state.changing
          completed := state.completed + 1 }

section

variable {state after : State} {event : Event}

/-- A step that leaves the sessions, the requests and the changes alone is quiet. -/
theorem Effect.of_same (sessions : after.proxies.sessions = state.proxies.sessions)
    (rechecking : after.rechecking = state.rechecking)
    (admitted : after.admitted = state.admitted)
    (completed : after.completed = state.completed) : Effect state event after :=
  .quiet (fun _ _ held => sessions ▸ held) rechecking admitted completed

/-- Every step has one of the effects. -/
theorem effect_of_next (leads : next state event = some after) : Effect state event after := by
  cases event with
  | tick passed =>
      cases leads
      exact .of_same rfl rfl rfl rfl
  | issue purpose id secret =>
      cases leads
      exact .of_same rfl rfl rfl rfl
  | noteEntry ticket origin =>
      cases leads
      exact .of_same rfl rfl rfl rfl
  | stop stack =>
      cases leads
      refine .quiet (fun token session held => ?_) rfl rfl rfl
      simp only [Proxies.stop, Table.lookup_retain] at held
      exact (Option.filter_eq_some_iff.mp held).1
  | enter task stack ticket =>
      cases leads
      unfold State.enter
      split <;> exact .of_same rfl rfl rfl rfl
  | commit task =>
      simp only [next, State.commit, Option.bind_eq_bind, Option.bind_eq_some_iff] at leads
      obtain ⟨entering, -, leads⟩ := leads
      split at leads <;> cases leads
      exact .of_same rfl rfl rfl rfl
  | takeEntry task =>
      simp only [next, State.takeEntry, Option.bind_eq_bind, Option.bind_eq_some_iff] at leads
      obtain ⟨entering, -, leads⟩ := leads
      split at leads <;> cases leads
      exact .of_same rfl rfl rfl rfl
  | lookUp task readable =>
      simp only [next, State.lookUp, Option.bind_eq_bind, Option.bind_eq_some_iff] at leads
      obtain ⟨entering, -, leads⟩ := leads
      split at leads <;> cases leads
      exact .of_same rfl rfl rfl rfl
  | openSession task token =>
      simp only [next, State.openSession, Option.bind_eq_bind, Option.bind_eq_some_iff] at leads
      obtain ⟨entering, found, leads⟩ := leads
      split at leads <;> cases leads
      exact .opened found
  | request task stack token =>
      cases leads
      unfold State.request
      split
      next => exact .of_same rfl rfl rfl rfl
      next session under =>
        split
        · exact .due under
        · exact .admitted under
  | recheck task readable =>
      simp only [next, State.recheck, Option.bind_eq_bind, Option.bind_eq_some_iff] at leads
      obtain ⟨waiting, waits, _, -, leads⟩ := leads
      cases leads
      exact .answered waits
  | recheckEnds task =>
      simp only [next, State.recheckEnds, Option.bind_eq_bind, Option.bind_eq_some_iff] at leads
      obtain ⟨waiting, waits, current, answered, leads⟩ := leads
      split at leads
      next =>
        cases leads
        exact .refused
      next same =>
        cases leads
        exact .passed waits (answered.trans (congrArg some (Decidable.not_not.mp same)))
  | setPasswordHash task wall =>
      cases leads
      exact .of_same rfl rfl rfl rfl
  | revokeTickets task =>
      simp only [next, State.revokeTickets, Option.bind_eq_bind, Option.bind_eq_some_iff] at leads
      obtain ⟨changing, -, leads⟩ := leads
      split at leads <;> cases leads
      exact .of_same rfl rfl rfl rfl
  | endSessions task =>
      simp only [next, State.endSessions, Option.bind_eq_bind, Option.bind_eq_some_iff] at leads
      obtain ⟨changing, -, leads⟩ := leads
      split at leads <;> cases leads
      exact .ended

end

/-! ### The app of a session -/

/-- A request is under a session of the app it is for. -/
theorem Proxies.sessionOf_eq_some {proxies : Proxies} {stack token : Text} {now : Nat}
    {session : Session} (under : proxies.sessionOf stack token now = some session) :
    session ∈ proxies.sessions.lookup token ∧ session.stack = stack := by
  obtain ⟨held, fits⟩ := Option.filter_eq_some_iff.mp under
  rw [Bool.and_eq_true, decide_eq_true_eq] at fits
  exact ⟨held, fits.1⟩

/-- What is kept about the requests that wait and those admitted: what a test says of the app
of the request, its session and how many password changes had completed. -/
structure Requests (Holds : Text → Session → Nat → Prop) (state : State) : Prop where
  rechecking : ∀ task, ∀ waiting ∈ state.rechecking.lookup task,
    Holds waiting.stack waiting.session waiting.read
  admitted : ∀ admission ∈ state.admitted,
    Holds admission.stack admission.session admission.completed

/-- A step keeps what is kept about the requests when it holds of those that are under a
session in the table, and a recheck that confirms ends under it too. -/
theorem requests_next {Holds : Text → Session → Nat → Prop} {state after : State} {event : Event}
    (requests : Requests Holds state) (leads : next state event = some after)
    (starts : ∀ stack token session,
      state.proxies.sessionOf stack token state.now = some session →
      Holds stack session state.completed)
    (ends : ∀ task waiting, event = .recheckEnds task →
      state.rechecking.lookup task = some waiting →
      waiting.answer = some (some waiting.session.since) →
      Holds waiting.stack waiting.session waiting.read →
      Holds waiting.stack waiting.session state.completed) :
    Requests Holds after := by
  cases effect_of_next leads with
  | quiet sessions rechecking admitted completed =>
      constructor
      · rw [rechecking]
        exact requests.rechecking
      · rw [admitted]
        exact requests.admitted
  | opened found => exact ⟨requests.rechecking, requests.admitted⟩
  | due under =>
      refine ⟨fun task waiting waits => ?_, requests.admitted⟩
      simp only [Table.lookup_insert_ite] at waits
      split at waits
      next =>
        obtain rfl := Option.some.inj waits
        exact starts _ _ _ under
      next => exact requests.rechecking task waiting waits
  | admitted under =>
      refine ⟨requests.rechecking, fun admission member => ?_⟩
      rcases List.mem_cons.mp member with rfl | earlier
      · exact starts _ _ _ under
      · exact requests.admitted admission earlier
  | @answered asked readable found waits =>
      refine ⟨fun task waiting waitsAfter => ?_, requests.admitted⟩
      simp only [Table.lookup_insert_ite] at waitsAfter
      split at waitsAfter
      next =>
        obtain rfl := Option.some.inj waitsAfter
        exact requests.rechecking asked found waits
      next => exact requests.rechecking task waiting waitsAfter
  | refused => exact ⟨fun task waiting waits => requests.rechecking task waiting
      (Table.mem_lookup_of_erase waits), requests.admitted⟩
  | passed waits confirmed =>
      refine ⟨fun task waiting kept => requests.rechecking task waiting
        (Table.mem_lookup_of_erase kept), fun admission member => ?_⟩
      rcases List.mem_cons.mp member with rfl | earlier
      · exact ends _ _ rfl waits confirmed (requests.rechecking _ _ waits)
      · exact requests.admitted admission earlier
  | ended => exact ⟨requests.rechecking, requests.admitted⟩

theorem Requests.start {Holds : Text → Session → Nat → Prop} (now : Nat) (account : Option Int) :
    Requests Holds (.start now account) where
  rechecking _ _ waits := by cases waits
  admitted _ member := by cases member

/-- Every request admitted or waiting is for the app its session was opened for. -/
theorem requests_of_app {state : State} (reached : agent.Reachable state) :
    Requests (fun stack session _ => session.stack = stack) state := by
  refine reached.holds ?_ fun before event after requests _ leads => ?_
  · rintro _ ⟨now, account, rfl⟩
    exact .start now account
  · exact requests_next requests leads (fun _ _ _ under => (Proxies.sessionOf_eq_some under).2)
      fun _ _ _ _ _ ofApp => ofApp

/-! ### The password changes since a session's lookup -/

/-- No password change completed while this step's task was between two of its own: an
entering one that stores its session, a request whose recheck confirmed the account. -/
def undisturbed (state : State) : Event → Bool
  | .openSession task token =>
      match state.entering.lookup task with
      | some (.found _ _ _ lookedUp) =>
          lookedUp = state.completed || token = none || state.proxies.full state.now
      | _ => true
  | .recheckEnds task =>
      match state.rechecking.lookup task with
      | some waiting =>
          waiting.read = state.completed || waiting.answer ≠ some (some waiting.session.since)
      | none => true
  | _ => true

/-- The sessions in the table were looked up since the last password change. -/
def Fresh (state : State) : Prop :=
  ∀ token, ∀ session ∈ state.proxies.sessions.lookup token, session.lookedUp = state.completed

/-- A session that an opening leaves was there, or is the one opened. -/
theorem Proxies.session_of_openSession {proxies : Proxies} {opening : Option Text} {since : Int}
    {stack : Text} {origin : Option Text} {lookedUp now : Nat} {token : Text} {session : Session}
    (held : session ∈
      (proxies.openSession opening since stack origin lookedUp now).sessions.lookup token) :
    session ∈ proxies.sessions.lookup token ∨
      opening ≠ none ∧ session.lookedUp = lookedUp ∧ proxies.full now = false := by
  have live : ∀ {session}, session ∈ (proxies.live now).lookup token →
      session ∈ proxies.sessions.lookup token := by
    intro session held
    rw [Proxies.live, Table.lookup_retain] at held
    exact (Option.filter_eq_some_iff.mp held).1
  unfold Proxies.openSession at held
  split at held
  next => exact .inl held
  next opened =>
    split at held
    next => exact .inl (live held)
    next room =>
      rw [Table.lookup_insert_ite] at held
      split at held
      next =>
        obtain rfl := Option.some.inj held
        exact .inr ⟨Option.some_ne_none _, rfl, Bool.eq_false_iff.mpr room⟩
      next => exact .inl (live held)

/-- A session that a recheck has dated is one that was there. -/
theorem Proxies.session_of_checkedAgain {proxies : Proxies} {checked : Text} {now : Nat}
    {token : Text} {session : Session}
    (held : session ∈ (proxies.checkedAgain checked now).sessions.lookup token) :
    ∃ before ∈ proxies.sessions.lookup token, before.lookedUp = session.lookedUp := by
  rw [Proxies.checkedAgain, Table.lookup_alter] at held
  split at held
  next same =>
    obtain ⟨before, found, rfl⟩ := Option.map_eq_some_iff.mp held
    exact ⟨before, same ▸ found, rfl⟩
  next => exact ⟨session, held, rfl⟩

/-- An undisturbed step keeps the table fresh. -/
theorem fresh_next {state after : State} {event : Event} (fresh : Fresh state)
    (meets : undisturbed state event = true) (leads : next state event = some after) :
    Fresh after := by
  intro token session held
  cases effect_of_next leads with
  | quiet sessions rechecking admitted completed =>
      rw [completed]
      exact fresh token session (sessions token session held)
  | opened found =>
      rcases Proxies.session_of_openSession held with before | ⟨made, same, room⟩
      · exact fresh token session before
      · simp only [undisturbed, found, Bool.or_eq_true, decide_eq_true_eq] at meets
        rw [room, or_iff_left made, or_iff_left Bool.false_ne_true] at meets
        exact same.trans meets
  | due under => exact fresh token session held
  | admitted under => exact fresh token session held
  | answered waits => exact fresh token session held
  | refused => exact fresh token session (Table.mem_lookup_of_erase held)
  | passed waits confirmed =>
      obtain ⟨before, found, same⟩ := Proxies.session_of_checkedAgain held
      exact same.symm.trans (fresh token before found)
  | ended => cases held

/-- In a run of undisturbed steps the table is fresh, and so is every request. -/
theorem fresh_of_reached {state : State}
    (reached : agent.Reached (fun state event => undisturbed state event = true) state) :
    Fresh state ∧ Requests (fun _ session completed => session.lookedUp = completed) state := by
  have initial : ∀ state, Initial state → Fresh state ∧
      Requests (fun _ session completed => session.lookedUp = completed) state := by
    rintro _ ⟨now, account, rfl⟩
    refine ⟨fun token session held => ?_, .start now account⟩
    cases held
  refine reached.holds initial fun before event after holds meets leads => ?_
  · refine ⟨fresh_next holds.1 meets leads, requests_next holds.2 leads ?_ ?_⟩
    · intro stack token session under
      exact holds.1 token session (Proxies.sessionOf_eq_some under).1
    · rintro task waiting rfl waits confirmed same
      simp only [undisturbed, waits, confirmed, ne_eq, not_true_eq_false, Bool.or_eq_true,
        decide_eq_true_eq, or_false] at meets
      exact same.trans meets

/-- The requests admitted so far were each for their session's app, and none came after a
password change that had completed since the session's lookup. -/
structure EndsWithPassword (state : State) : Prop where
  app : ∀ admission ∈ state.admitted, admission.session.stack = admission.stack
  password : ∀ admission ∈ state.admitted,
    ¬ admission.session.lookedUp < admission.completed

/-- In every run of undisturbed steps a session ends with the password; in any run at all it
admits to its own app only. -/
theorem endsWithPassword_of_undisturbed (state : State) :
    (agent.Reachable state →
      ∀ admission ∈ state.admitted, admission.session.stack = admission.stack) ∧
    (agent.Reached (fun state event => undisturbed state event = true) state →
      EndsWithPassword state) := by
  refine ⟨fun reached => (requests_of_app reached).admitted, fun reached => ?_⟩
  constructor
  · exact (requests_of_app (reached.mono fun _ _ _ => trivial)).admitted
  · intro admission member
    rw [(fresh_of_reached reached).2.admitted admission member]
    exact Nat.lt_irrefl _

theorem reached_start (meets : State → Event → Prop) :
    agent.Reached meets (.start 0 (some 0)) := .initial ⟨0, some 0, rfl⟩

/-- A window entered and a request admitted after a password change, another one sent back
for a new ticket when it changed again. -/
def undisturbedRun : List Event :=
  [.setPasswordHash 0 5, .revokeTickets 0, .endSessions 0,
    .issue .proxy "a".toList "b".toList, .noteEntry "a.b".toList "panel".toList,
    .enter 1 "photos".toList "a.b".toList, .commit 1, .takeEntry 1, .lookUp 1 true,
    .openSession 1 (some "t".toList), .request 2 "photos".toList "t".toList,
    .tick 60000, .request 3 "photos".toList "t".toList, .recheck 3 true, .recheckEnds 3,
    .setPasswordHash 4 9, .revokeTickets 4, .endSessions 4,
    .request 5 "photos".toList "t".toList]

def enteredState : State :=
  (System.follow undisturbed next (.start 0 (some 0)) undisturbedRun).get (by decide)

theorem endsWithPassword_enteredState :
    enteredState.admitted.length = 2 ∧
      (∀ admission ∈ enteredState.admitted, admission.session.stack = admission.stack) ∧
      EndsWithPassword enteredState := by
  have reached : agent.Reached (fun state event => undisturbed state event = true) enteredState :=
    System.reached_get undisturbed next undisturbedRun (reached_start _) _
  exact ⟨by decide,
    (endsWithPassword_of_undisturbed _).1 (reached.mono fun _ _ _ => trivial),
    (endsWithPassword_of_undisturbed _).2 reached⟩

/-- A window whose account was looked up before the change and whose session is stored after
it had completed. -/
def disturbedRun : List Event :=
  [.issue .proxy "a".toList "b".toList,
    .enter 1 "photos".toList "a.b".toList, .commit 1, .takeEntry 1, .lookUp 1 true,
    .setPasswordHash 0 5, .revokeTickets 0, .endSessions 0,
    .openSession 1 (some "t".toList), .request 2 "photos".toList "t".toList]

def outlivedState : State :=
  (System.follow (fun _ _ => true) next (.start 0 (some 0)) disturbedRun).get (by decide)

theorem not_endsWithPassword : ¬ ∀ state, agent.Reachable state → EndsWithPassword state := by
  intro always
  have reached : agent.Reachable outlivedState :=
    (System.reached_get (fun _ _ => true) next disturbedRun (reached_start _) _).mono
      fun _ _ _ => trivial
  have stale : ∃ admission ∈ outlivedState.admitted,
      admission.session.lookedUp < admission.completed := by decide
  obtain ⟨admission, member, before⟩ := stale
  exact (always _ reached).password admission member before

end ServerBox.Monitor.AppProxy
