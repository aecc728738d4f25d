import ServerBox.Std.System
import Mathlib.Data.List.Basic

/-!
# The LK Cloud session

`src/monitor/src/lkc.rs`: the one row a session is stored in, the device sign-in that fills
it, the refresh that renews its tokens, signing out, and the password changes that sign out
(`api/admin.rs`). Tokens, device codes and users are numbers. Whether a token is due, a read
or a write works, and what the identity provider and homebase answer are given with the
events, so a run is any order of the steps between two awaits of any number of tasks.
-/

namespace ServerBox.Monitor.LkCloud

open ServerBox.Std

/-! ### What is stored -/

structure Tokens where
  access : Nat
  refresh : Option Nat
deriving DecidableEq

/-- What is kept of a sign-in. -/
structure Session where
  user : Nat
  tokens : Tokens
deriving DecidableEq

/-- The one row of `lkc_session`. -/
structure Row where
  session : Session
  refreshing : Bool
  /-- Not in the source: the epoch in which its sign-in was asked for. -/
  asked : Nat
deriving DecidableEq

/-- How reading the row goes: a database error, tokens that do not open, a user or an access
token that cannot be used. -/
inductive Reading where
  | fine
  | failed
  | sealed
  | broken
deriving DecidableEq

/-- The session stored, or of one that cannot be read back its refresh token (`Broken`). -/
def load (row : Option Row) (reading : Reading) : Except (Option Nat) (Option Session) :=
  match row, reading with
  | none, _ => .ok none
  | some _, .failed => .ok none
  | some row, reading =>
      -- Its refresh token may be spent: neither sent nor revoked again.
      if row.refreshing then .error none
      else
        match reading with
        | .sealed => .error none
        | .broken => .error row.session.tokens.refresh
        | _ => .ok (some row.session)

/-! ### The identity provider -/

/-- Why it gave no tokens (`fl_lkc::Failure`); a token taken back, and an answer that cannot
be used, are `other`. -/
inductive Failure where
  | unreachable
  | refused
  | denied
  | tooEarly
  | other
deriving DecidableEq

inductive Outcome where
  | renewed
  | failed (failure : Failure)
deriving DecidableEq

/-- Whether a refresh token outlives such an answer. -/
def Outcome.keeps : Outcome → Bool
  | .failed .unreachable | .failed .refused | .failed .denied | .failed .tooEarly => true
  | _ => false

/-- A refresh token that went to the identity provider, to be renewed or to be revoked, and
what came back; nothing, as long as no answer came. -/
structure Sent where
  token : Nat
  revokes : Bool
  outcome : Option Outcome
deriving DecidableEq

/-- Whether the token may have been used up by this. -/
def Sent.spends (sent : Sent) : Bool := !sent.revokes && !sent.outcome.any Outcome.keeps

/-! ### The tasks -/

/-- A sign-in waiting, being stored, or failed. -/
structure SignIn where
  code : Nat
  finishing : Bool
  failed : Bool
  epoch : Nat
deriving DecidableEq

/-- The password change that a sign-out is part of: the epoch it raised, and whether the
password is set after it (`end_before_password_change`) or was before (`end_account`). -/
structure Change where
  epoch : Nat
  setsPassword : Bool
deriving DecidableEq

/-- A task that does not hold `refreshing`. -/
inductive Waiting where
  | starts (epoch : Nat)
  | pollWaits (code : Nat)
  | pollAsked (code : Nat)
  | pollUser (code : Nat) (tokens : Tokens)
  | finishWaits (code : Nat) (session : Session)
  | sessionWaits (rereads : Bool)
  | rereadAsks (session : Session)
  | rereadWaits (session : Session) (user : Option Nat)
  | signOutBegins (change : Option Change)
  | signOutWaits (change : Option Change)
  | setsPassword
deriving DecidableEq

/-- The task that holds `refreshing`. -/
inductive Holding where
  | finishReads (code : Nat) (session : Session) (asked : Nat)
  | finishStores (code : Nat) (session : Session) (asked : Nat) (previous : Option Nat)
  | sessionReads (rereads : Bool)
  | sessionMarks (session : Session) (rereads : Bool)
  /-- The row is marked, the token not yet sent. -/
  | sessionSends (session : Session) (rereads : Bool)
  | sessionSent (session : Session) (rereads : Bool)
  | sessionStores (session : Session) (fresh : Tokens) (rereads : Bool)
  | sessionClears (session : Session) (rereads : Bool)
  | sessionForgets (revokes : Option Nat)
  | rereadReads (session : Session) (user : Option Nat)
  | rereadStores (session : Session) (asked : Nat)
  | signOutReads (change : Option Change)
  | signOutForgets (revokes : Option Nat) (change : Option Change)
deriving DecidableEq

structure State where
  row : Option Row
  epoch : Nat
  signIn : Option SignIn
  tasks : List Waiting
  holder : Option Holding
  /-- The refresh tokens that were ever granted here. -/
  issued : List Nat
  /-- What went to the identity provider, the last first. -/
  log : List Sent
  /-- The tokens that a marked row was dropped or written over with. -/
  dropped : List Nat
  /-- The latest epoch whose password change has run its sign-out. -/
  ended : Nat

namespace State

/-- Asks the identity provider to forget a refresh token. -/
def revoke (state : State) (token : Option Nat) : State :=
  match token with
  | none => state
  | some token => { state with log := ⟨token, true, none⟩ :: state.log }

/-- Another row, or none, in the place of the one there is. -/
def replaceRow (state : State) (row : Option Row) : State :=
  { state with
    row
    dropped :=
      match state.row with
      | some ⟨⟨_, ⟨_, some token⟩⟩, true, _⟩ => token :: state.dropped
      | _ => state.dropped }

def wait (state : State) (task : Waiting) : State := { state with tasks := task :: state.tasks }

def hold (state : State) (task : Holding) : State := { state with holder := some task }

def issue (state : State) (tokens : Tokens) : State :=
  { state with issued := tokens.refresh.toList ++ state.issued }

/-! ### The sign-in slot -/

def cancel (state : State) : State :=
  if state.signIn.any (·.finishing) then state else { state with signIn := none }

def endEpoch (state : State) : State :=
  let state := { state with epoch := state.epoch + 1 }
  if state.signIn.any (·.finishing) then state else { state with signIn := none }

/-- Puts a sign-in in place as the one waiting, and starts its poll. -/
def begin (state : State) (code epoch : Nat) : State :=
  if state.epoch ≠ epoch then state
  else if state.signIn.any (·.finishing) then state
  else { state with signIn := some ⟨code, false, false, epoch⟩ }.wait (.pollWaits code)

def waiting (state : State) (code : Nat) : Bool :=
  state.signIn.any fun signIn => signIn.code = code && !signIn.failed

def stale (state : State) (code : Nat) : Bool :=
  (state.signIn.filter fun signIn => signIn.code = code).all fun signIn =>
    signIn.epoch ≠ state.epoch

/-- The sign-in that is waiting, marked as being finished. -/
def claim (state : State) : State :=
  { state with signIn := state.signIn.map fun signIn => { signIn with finishing := true } }

def settle (state : State) (code : Nat) (failed : Bool) : State :=
  match state.signIn with
  | none => state
  | some signIn =>
      if signIn.code ≠ code then state
      else if failed then
        { state with signIn := some { signIn with failed := true, finishing := false } }
      else { state with signIn := none }

/-! ### The steps of a sign-in -/

/-- What one poll of the identity provider answers. -/
inductive Poll where
  | pending
  | done (tokens : Tokens)
  | failed

/-- Tokens that were never granted before. -/
def fresh (state : State) (tokens : Tokens) : Bool :=
  tokens.refresh.all fun token => token ∉ state.issued

def polled (state : State) (code : Nat) : Poll → Option State
  | .pending => some (state.wait (.pollWaits code))
  | .done tokens =>
      if !state.fresh tokens then none
      else if state.waiting code then
        some ((state.issue tokens).claim.wait (.pollUser code tokens))
      else some ((state.issue tokens).revoke tokens.refresh)
  | .failed => some (state.settle code true)

def userFound (state : State) (code : Nat) (tokens : Tokens) : Option Nat → State
  | some user => state.wait (.finishWaits code ⟨user, tokens⟩)
  | none => (state.revoke tokens.refresh).settle code true

/-- `finish` once it has the lock: a sign-in from before a password change is revoked. -/
def finishAcquires (state : State) (code : Nat) (session : Session) : State :=
  if state.stale code then (state.settle code true).revoke session.tokens.refresh
  else state.hold (.finishReads code session state.epoch)

/-- The refresh token of the row that a sign-in is about to be stored over. -/
def previous (row : Option Row) (reading : Reading) : Option Nat :=
  match load row reading with
  | .ok session => session.bind fun session => session.tokens.refresh
  | .error refresh => refresh

def finishStores (state : State) (code : Nat) (session : Session) (asked : Nat)
    (previous : Option Nat) (applied : Bool) : State :=
  if applied then
    let state := (state.replaceRow (some ⟨session, false, asked⟩)).settle code false
    if previous ≠ session.tokens.refresh then state.revoke previous else state
  else (state.settle code true).revoke session.tokens.refresh

/-! ### The steps of a refresh -/

/-- What a call of `session` that got one goes on to. -/
def sessionEnds (state : State) (session : Session) (rereads : Bool) : State :=
  if rereads then state.wait (.rereadAsks session) else state

def sessionReads (state : State) (rereads : Bool) (reading : Reading) (due client : Bool) : State :=
  match load state.row reading with
  | .error refresh => state.hold (.sessionForgets refresh)
  | .ok none => state
  | .ok (some session) =>
      if !due then state.sessionEnds session rereads
      else if session.tokens.refresh.isNone then state.hold (.sessionForgets none)
      else if client then state.hold (.sessionMarks session rereads)
      else state

/-- The mark of the row, set or cleared. -/
def mark (state : State) (refreshing : Bool) : State :=
  { state with row := state.row.map fun row => { row with refreshing } }

def sessionMarks (state : State) (session : Session) (rereads applied : Bool) : State :=
  if applied && state.row.isSome then (state.mark true).hold (.sessionSends session rereads)
  else state.sessionEnds session rereads

def send (state : State) (token : Nat) : State :=
  { state with log := ⟨token, false, none⟩ :: state.log }

/-- The answer to the token that was being sent. -/
def answer (state : State) (token : Nat) (outcome : Outcome) : State :=
  { state with
    log := state.log.map fun sent =>
      if sent.token = token && !sent.revokes && sent.outcome.isNone then
        { sent with outcome := some outcome }
      else sent }

/-- Into the marked row only, the mark cleared. -/
def storeRefresh (state : State) (tokens : Tokens) : State × Bool :=
  match state.row with
  | some row =>
      if row.refreshing then
        (state.replaceRow (some ⟨{ row.session with tokens }, false, row.asked⟩), true)
      else (state, false)
  | none => (state, false)

def sessionStores (state : State) (session : Session) (fresh : Tokens) (rereads applied : Bool) :
    State :=
  let (stored, marked) := state.storeRefresh fresh
  if applied && marked then stored.sessionEnds { session with tokens := fresh } rereads
  else state.hold (.sessionForgets fresh.refresh)

def forget (state : State) : State := state.replaceRow none

/-- `let _ = forget`, and what is revoked after it whether it worked or not. -/
def sessionForgets (state : State) (revokes : Option Nat) (applied : Bool) : State :=
  (if applied then state.forget else state).revoke revokes

/-! ### Rereading the account, signing out, changing the password -/

def rereadReads (state : State) (session : Session) (user : Option Nat) (reading : Reading) :
    State :=
  match state.row, load state.row reading, user with
  | some row, .ok (some stored), some user =>
      if stored = session ∧ user ≠ session.user then
        state.hold (.rereadStores { session with user } row.asked)
      else state
  | _, _, _ => state

/-- What a sign-out goes on to, when it belongs to a password change. -/
def signOutEnds (state : State) (change : Option Change) : State :=
  match change with
  | some ⟨_, true⟩ => state.wait .setsPassword
  | _ => state

/-- A sign-out that has run. -/
def signedOut (state : State) (change : Option Change) : State :=
  { state with ended := max state.ended ((change.map Change.epoch).getD 0) }.signOutEnds change

def signOutReads (state : State) (change : Option Change) (reading : Reading) : State :=
  match load state.row reading with
  | .ok none => state.signedOut change
  | .ok (some session) => state.hold (.signOutForgets session.tokens.refresh change)
  | .error refresh => state.hold (.signOutForgets refresh change)

def signOutForgets (state : State) (revokes : Option Nat) (change : Option Change)
    (applied : Bool) : State :=
  if applied then (state.forget.signedOut change).revoke revokes else state.signOutEnds change

/-- `set_password_hash` deletes the row; `end_account` follows it. -/
def setsPassword (state : State) (applied : Bool) : State :=
  if applied then
    let state := state.forget.endEpoch
    state.wait (.signOutBegins (some ⟨state.epoch, false⟩))
  else state

end State

/-! ### The system -/

inductive Event where
  | start
  | session (rereads : Bool)
  | cancel
  | signOut
  | changePassword
  | endAccount
  /-- The answer to `start_device`. -/
  | device (task : Nat) (code : Option Nat)
  | turn (task : Nat)
  | polled (task : Nat) (answer : State.Poll)
  /-- What homebase answers for the account of a new sign-in, and of the one there is. -/
  | userFound (task : Nat) (user : Option Nat)
  | reread (task : Nat) (user : Option Nat)
  | rereadDue (task : Nat)
  | signOutCancels (task : Nat)
  | setsPassword (task : Nat) (applied : Bool)
  | acquire (task : Nat)
  /-- What the holder of the lock does: a read, a write, the send, and its answer. -/
  | read (reading : Reading) (due client : Bool)
  | write (applied : Bool)
  | send
  | answer (renewed : Except Failure Tokens)
  /-- A future that is dropped, a row that another process deletes, a crash with a restart. -/
  | drop (task : Nat)
  | dropHolder
  | deleteRow
  | crash

/-- One of the waiting tasks, and the state without it. -/
def State.take (state : State) (task : Nat) : Option (Waiting × State) :=
  (state.tasks[task]?).map fun waiting =>
    (waiting, { state with tasks := state.tasks.eraseIdx task })

/-- The task that holds the lock, and the state with the lock let go. -/
def State.release (state : State) : Option (Holding × State) :=
  state.holder.map fun holding => (holding, { state with holder := none })

def acquire (state : State) : Waiting → Option State
  | .finishWaits code session => some (state.finishAcquires code session)
  | .sessionWaits rereads => some (state.hold (.sessionReads rereads))
  | .rereadWaits session user => some (state.hold (.rereadReads session user))
  | .signOutWaits change => some (state.hold (.signOutReads change))
  | _ => none

def read (state : State) (reading : Reading) (due client : Bool) : Holding → Option State
  | .finishReads code session asked =>
      some (state.hold (.finishStores code session asked (State.previous state.row reading)))
  | .sessionReads rereads => some (state.sessionReads rereads reading due client)
  | .rereadReads session user => some (state.rereadReads session user reading)
  | .signOutReads change => some (state.signOutReads change reading)
  | _ => none

def write (state : State) (applied : Bool) : Holding → Option State
  | .finishStores code session asked previous =>
      some (state.finishStores code session asked previous applied)
  | .sessionMarks session rereads => some (state.sessionMarks session rereads applied)
  | .sessionStores session fresh rereads =>
      some (state.sessionStores session fresh rereads applied)
  | .sessionClears session rereads =>
      some ((if applied then state.mark false else state).sessionEnds session rereads)
  | .sessionForgets revokes => some (state.sessionForgets revokes applied)
  | .rereadStores session asked =>
      some (if applied then state.replaceRow (some ⟨session, false, asked⟩) else state)
  | .signOutForgets revokes change => some (state.signOutForgets revokes change applied)
  | _ => none

def send (state : State) : Holding → Option State
  | .sessionSends session rereads =>
      session.tokens.refresh.map fun token =>
        (state.send token).hold (.sessionSent session rereads)
  | _ => none

def answer (state : State) (renewed : Except Failure Tokens) : Holding → Option State
  | .sessionSent session rereads => do
      let token ← session.tokens.refresh
      match renewed with
      | .ok tokens =>
          if state.fresh tokens then
            some (((state.answer token .renewed).issue tokens).hold
              (.sessionStores session tokens rereads))
          else none
      | .error failure =>
          let outcome := Outcome.failed failure
          some ((state.answer token outcome).hold
            (if outcome.keeps then .sessionClears session rereads else .sessionForgets none))
  | _ => none

def next (state : State) : Event → Option State
  | .start => some (state.wait (.starts state.epoch))
  | .session rereads => some (state.wait (.sessionWaits rereads))
  | .cancel => some state.cancel
  | .signOut => some (state.wait (.signOutBegins none))
  | .changePassword =>
      some (state.endEpoch.wait (.signOutBegins (some ⟨state.endEpoch.epoch, true⟩)))
  | .endAccount =>
      some (state.endEpoch.wait (.signOutBegins (some ⟨state.endEpoch.epoch, false⟩)))
  | .device task code => do
      let (.starts epoch, state) ← state.take task | none
      match code with
      | some code => some (state.begin code epoch)
      | none => some state
  | .turn task => do
      let (.pollWaits code, state) ← state.take task | none
      some (if state.waiting code then state.wait (.pollAsked code) else state)
  | .polled task answer => do
      let (.pollAsked code, state) ← state.take task | none
      state.polled code answer
  | .userFound task user => do
      let (.pollUser code tokens, state) ← state.take task | none
      some (state.userFound code tokens user)
  | .reread task user => do
      let (.rereadAsks session, state) ← state.take task | none
      some (state.wait (.rereadWaits session user))
  | .rereadDue task => do
      let (.rereadAsks _, state) ← state.take task | none
      some state
  | .signOutCancels task => do
      let (.signOutBegins change, state) ← state.take task | none
      some (state.cancel.wait (.signOutWaits change))
  | .setsPassword task applied => do
      let (.setsPassword, state) ← state.take task | none
      some (state.setsPassword applied)
  | .acquire task => do
      guard state.holder.isNone
      let (waiting, state) ← state.take task
      LkCloud.acquire state waiting
  | .read reading due client => do
      let (holding, state) ← state.release
      LkCloud.read state reading due client holding
  | .write applied => do
      let (holding, state) ← state.release
      LkCloud.write state applied holding
  | .send => do
      let (holding, state) ← state.release
      LkCloud.send state holding
  | .answer renewed => do
      let (holding, state) ← state.release
      LkCloud.answer state renewed holding
  | .drop task => (state.take task).map Prod.snd
  | .dropHolder => state.release.map Prod.snd
  | .deleteRow => some state.forget
  | .crash => some { state with epoch := 0, signIn := none, tasks := [], holder := none }

/-- The agent at its start, with whatever row it was left. -/
def Initial (state : State) : Prop :=
  ∃ row : Option Row, state =
    { row
      epoch := 0
      signIn := none
      tasks := []
      holder := none
      issued := (row.bind fun row => row.session.tokens.refresh).toList
      log := []
      dropped := []
      ended := 0 }

def agent : System State Event := System.ofNext Initial next

end ServerBox.Monitor.LkCloud
