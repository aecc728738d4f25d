import ServerBox.Std.System
import ServerBox.Std.Table
import ServerBox.Std.Text

/-!
# App windows through the agent's proxy

`stacks/proxy.rs`: the sessions that browser windows hold, how one is entered with a
ticket (`api/ws/ticket.rs`), how a request is admitted under one, and the password change
(`api/admin.rs`, `authz::end_account`) that is to end them. Times are milliseconds. What
the code waits for between two looks at the shared state are steps of their own, so that
the steps of all tasks can come in any order.
-/

namespace ServerBox.Monitor.AppProxy

open ServerBox.Std

/-! ### Tickets -/

/-- The endpoints a ticket can be minted for. -/
inductive Purpose where
  | terminal
  | stream
  | listen
  | rdp
  | virt
  | proxy
deriving DecidableEq

structure Entry where
  secret : Text
  purpose : Purpose
  expiresAt : Nat
  reserved : Bool
deriving DecidableEq

/-- Why a ticket was refused. -/
inductive TicketError where
  | malformed
  | unknown
  | expired
  | wrongPurpose
  | badSecret
deriving DecidableEq

def TTL : Nat := 30000
def MAX_LIVE : Nat := 32

abbrev TicketStore := Table Text Entry

namespace TicketStore

/-- Mints the ticket `id.secret`, or refuses when too many are outstanding. -/
def issueAt (store : TicketStore) (purpose : Purpose) (id secret : Text) (now : Nat) :
    TicketStore × Option Text :=
  let live := store.retain fun entry => entry.expiresAt > now
  if live.keys.length ≥ MAX_LIVE then (live, none)
  else (AList.insert id ⟨secret, purpose, now + TTL, false⟩ live, some (id ++ '.' :: secret))

/-- Claims a ticket; what was found under its id is gone when it does not fit. -/
def reserveAt (store : TicketStore) (raw : Text) (purpose : Purpose) (now : Nat) :
    TicketStore × Except TicketError Text :=
  match Text.splitOnce '.' raw with
  | none => (store, .error .malformed)
  | some (id, secret) =>
      match store.lookup id with
      | none => (store, .error .unknown)
      | some entry =>
          if entry.reserved then (store, .error .unknown)
          else if entry.expiresAt ≤ now then (AList.erase id store, .error .expired)
          else if entry.purpose ≠ purpose then (AList.erase id store, .error .wrongPurpose)
          else if entry.secret ≠ secret then (AList.erase id store, .error .badSecret)
          else (AList.insert id { entry with reserved := true } store, .ok id)

def commit (store : TicketStore) (id : Text) : TicketStore := AList.erase id store

def revokeAll (_ : TicketStore) : TicketStore := ∅

end TicketStore

/-! ### Sessions -/

structure Session where
  since : Int
  stack : Text
  /-- The panel's origin that asked for the window, to frame it. -/
  origin : Option Text
  expires : Nat
  checked : Nat
  /-- Not in the source: how many password changes had completed when the account was
  looked up for this session. -/
  lookedUp : Nat
deriving DecidableEq

def SESSION_TTL : Nat := 12 * 3600 * 1000
def RECHECK : Nat := 60 * 1000
def MAX_SESSIONS : Nat := 4096
/-- How long a noted entry is kept. -/
def ENTRY_TTL : Nat := 120 * 1000

structure Proxies where
  sessions : Table Text Session
  /-- Where a ticket was asked for from, and when. -/
  entries : Table Text (Text × Nat)

namespace Proxies

def noteEntry (proxies : Proxies) (ticket origin : Text) (now : Nat) : Proxies :=
  let entries := proxies.entries.retain fun entry => now - entry.2 < ENTRY_TTL
  { proxies with
    entries :=
      if entries.keys.length < MAX_SESSIONS then AList.insert ticket (origin, now) entries
      else entries }

def takeEntry (proxies : Proxies) (ticket : Text) : Proxies × Option Text :=
  ({ proxies with entries := AList.erase ticket proxies.entries },
    (proxies.entries.lookup ticket).map Prod.fst)

def stop (proxies : Proxies) (stack : Text) : Proxies :=
  { proxies with sessions := proxies.sessions.retain fun session => session.stack ≠ stack }

/-- Ends every session: the password changed. -/
def endAccount (proxies : Proxies) : Proxies := { proxies with sessions := ∅ }

/-- The sessions that have not expired. -/
def live (proxies : Proxies) (now : Nat) : Table Text Session :=
  proxies.sessions.retain fun session => session.expires > now

def full (proxies : Proxies) (now : Nat) : Bool := (proxies.live now).keys.length ≥ MAX_SESSIONS

/-- A session stored under a new token, `none` when no random token could be made. -/
def openSession (proxies : Proxies) (token : Option Text) (since : Int) (stack : Text)
    (origin : Option Text) (lookedUp now : Nat) : Proxies :=
  match token with
  | none => proxies
  | some token =>
      if proxies.full now then { proxies with sessions := proxies.live now }
      else
        { proxies with
          sessions := AList.insert token
            ⟨since, stack, origin, now + SESSION_TTL, now, lookedUp⟩ (proxies.live now) }

/-- The session that a request with a token for an app is under, before any recheck. -/
def sessionOf (proxies : Proxies) (stack token : Text) (now : Nat) : Option Session :=
  (proxies.sessions.lookup token).filter fun session =>
    session.stack = stack && session.expires > now

/-- The table once a recheck found the account as it was. -/
def checkedAgain (proxies : Proxies) (token : Text) (now : Nat) : Proxies :=
  { proxies with
    sessions := proxies.sessions.alter (Option.map fun session => { session with checked := now })
      token }

def forget (proxies : Proxies) (token : Text) : Proxies :=
  { proxies with sessions := AList.erase token proxies.sessions }

end Proxies

def Session.due (session : Session) (now : Nat) : Bool := now - session.checked ≥ RECHECK

/-! ### The tasks and the whole system -/

/-- Where a task that runs `enter` stands. -/
inductive Entering where
  | reserved (stack ticket reservation : Text)
  | committed (stack ticket : Text)
  | lookingUp (stack : Text) (origin : Option Text)
  /-- The lookup answered, when `lookedUp` password changes had completed. -/
  | found (stack : Text) (origin : Option Text) (since : Int) (lookedUp : Nat)
deriving DecidableEq

/-- A request that waits in `admits` for its recheck; `read` password changes had completed
when it read the table. -/
structure Rechecking where
  stack : Text
  token : Text
  session : Session
  read : Nat
  /-- What the lookup answered. -/
  answer : Option (Option Int)
deriving DecidableEq

/-- Where a password change stands that has set the new hash. -/
inductive Changing where
  | hashed
  | revoked
deriving DecidableEq

/-- A request that was let through to an app; `completed` password changes had completed. -/
structure Admission where
  stack : Text
  session : Session
  completed : Nat
deriving DecidableEq

structure State where
  now : Nat
  /-- `password_changed_ms` of the account, once there is one. -/
  account : Option Int
  tickets : TicketStore
  proxies : Proxies
  entering : Table Nat Entering
  rechecking : Table Nat Rechecking
  changing : Table Nat Changing
  /-- How many password changes have completed. -/
  completed : Nat
  admitted : List Admission

inductive Event where
  | tick (passed : Nat)
  | issue (purpose : Purpose) (id secret : Text)
  | noteEntry (ticket origin : Text)
  | stop (stack : Text)
  | enter (task : Nat) (stack ticket : Text)
  | commit (task : Nat)
  | takeEntry (task : Nat)
  | lookUp (task : Nat) (readable : Bool)
  | openSession (task : Nat) (token : Option Text)
  | request (task : Nat) (stack token : Text)
  | recheck (task : Nat) (readable : Bool)
  | recheckEnds (task : Nat)
  | setPasswordHash (task : Nat) (wall : Int)
  | revokeTickets (task : Nat)
  | endSessions (task : Nat)

/-- The start of the agent: nothing in memory. -/
def State.start (now : Nat) (account : Option Int) : State :=
  ⟨now, account, ∅, ⟨∅, ∅⟩, ∅, ∅, ∅, 0, []⟩

namespace State

/-- `authz::caller`: a database error reads as no account. -/
def caller (state : State) (readable : Bool) : Option Int :=
  if readable then state.account else none

def letThrough (state : State) (stack : Text) (session : Session) : State :=
  { state with admitted := ⟨stack, session, state.completed⟩ :: state.admitted }

/-- `enter`, up to the first moment at which another task may come between. -/
def enter (state : State) (task : Nat) (stack ticket : Text) : State :=
  match state.tickets.reserveAt ticket .proxy state.now with
  | (tickets, .error _) => { state with tickets }
  | (tickets, .ok reservation) =>
      { state with
        tickets
        entering := AList.insert task (.reserved stack ticket reservation) state.entering }

def commit (state : State) (task : Nat) : Option State := do
  let .reserved stack ticket reservation ← state.entering.lookup task | none
  return { state with
    tickets := state.tickets.commit reservation
    entering := AList.insert task (.committed stack ticket) state.entering }

def takeEntry (state : State) (task : Nat) : Option State := do
  let .committed stack ticket ← state.entering.lookup task | none
  let (proxies, origin) := state.proxies.takeEntry ticket
  return { state with
    proxies
    entering := AList.insert task (.lookingUp stack origin) state.entering }

def lookUp (state : State) (task : Nat) (readable : Bool) : Option State := do
  let .lookingUp stack origin ← state.entering.lookup task | none
  return { state with
    entering :=
      match state.caller readable with
      | none => AList.erase task state.entering
      | some since =>
          AList.insert task (.found stack origin since state.completed) state.entering }

def openSession (state : State) (task : Nat) (token : Option Text) : Option State := do
  let .found stack origin since lookedUp ← state.entering.lookup task | none
  return { state with
    proxies := state.proxies.openSession token since stack origin lookedUp state.now
    entering := AList.erase task state.entering }

/-- `admits`, up to the lookup when the session is due for one. -/
def request (state : State) (task : Nat) (stack token : Text) : State :=
  match state.proxies.sessionOf stack token state.now with
  | none => state
  | some session =>
      if session.due state.now then
        { state with
          rechecking := AList.insert task ⟨stack, token, session, state.completed, none⟩
            state.rechecking }
      else state.letThrough stack session

def recheck (state : State) (task : Nat) (readable : Bool) : Option State := do
  let waiting ← state.rechecking.lookup task
  guard (waiting.answer = none)
  return { state with
    rechecking := AList.insert task { waiting with answer := some (state.caller readable) }
      state.rechecking }

/-- `admits` once the lookup answered. -/
def recheckEnds (state : State) (task : Nat) : Option State := do
  let waiting ← state.rechecking.lookup task
  let current ← waiting.answer
  let state := { state with rechecking := AList.erase task state.rechecking }
  if current ≠ some waiting.session.since then
    return { state with proxies := state.proxies.forget waiting.token }
  else
    -- The request goes on also when the session is no longer in the table.
    return ({ state with
      proxies := state.proxies.checkedAgain waiting.token state.now }).letThrough
        waiting.stack waiting.session

/-- `accounts::set_password_hash`: strictly later than before. -/
def setPasswordHash (state : State) (task : Nat) (wall : Int) : State :=
  { state with
    account := state.account.map fun since => max wall (since + 1)
    changing := AList.insert task .hashed state.changing }

def revokeTickets (state : State) (task : Nat) : Option State := do
  let .hashed ← state.changing.lookup task | none
  return { state with
    tickets := state.tickets.revokeAll
    changing := AList.insert task .revoked state.changing }

/-- The last step of a password change, as far as the proxies go. -/
def endSessions (state : State) (task : Nat) : Option State := do
  let .revoked ← state.changing.lookup task | none
  return { state with
    proxies := state.proxies.endAccount
    changing := AList.erase task state.changing
    completed := state.completed + 1 }

end State

def next (state : State) : Event → Option State
  | .tick passed => some { state with now := state.now + passed }
  | .issue purpose id secret =>
      some { state with tickets := (state.tickets.issueAt purpose id secret state.now).1 }
  | .noteEntry ticket origin =>
      some { state with proxies := state.proxies.noteEntry ticket origin state.now }
  | .stop stack => some { state with proxies := state.proxies.stop stack }
  | .enter task stack ticket => some (state.enter task stack ticket)
  | .commit task => state.commit task
  | .takeEntry task => state.takeEntry task
  | .lookUp task readable => state.lookUp task readable
  | .openSession task token => state.openSession task token
  | .request task stack token => some (state.request task stack token)
  | .recheck task readable => state.recheck task readable
  | .recheckEnds task => state.recheckEnds task
  | .setPasswordHash task wall => some (state.setPasswordHash task wall)
  | .revokeTickets task => state.revokeTickets task
  | .endSessions task => state.endSessions task

def Initial (state : State) : Prop := ∃ now account, state = .start now account

/-- The agent with any number of windows, requests and password changes under way. -/
def agent : System State Event := System.ofNext Initial next

end ServerBox.Monitor.AppProxy
