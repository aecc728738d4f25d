import Mathlib.Data.BitVec
import ServerBox.Std.System
import ServerBox.Std.Table

/-!
# Login throttling

`src/monitor/src/api/ratelimit.rs`. An attempt is admitted or told how long to wait, by
its source address and by who is asking; admitted, it holds a reservation on both keys
until it fails, succeeds or is cancelled. Times and delays are in nanoseconds.
-/

namespace ServerBox.Monitor

open ServerBox.Std

inductive IpAddr where
  | v4 (bits : BitVec 32)
  | v6 (bits : BitVec 128)
deriving DecidableEq, Repr

namespace LoginThrottle

/-! ### Keys and entries -/

def second : Nat := 10 ^ 9

def freeAttempts : Nat := 3

def accountFreeAttempts : Nat := 20

def baseDelay : Nat := second

def maxDelay : Nat := 300 * second

def entryTtl : Nat := 3600 * second

def pruneThreshold : Nat := 1024

def pruneInterval : Nat := 60 * second

/-- `u32::MAX`. -/
def u32Max : Nat := 2 ^ 32 - 1

/-- `u32::saturating_add`. -/
def saturatingAdd (left right : Nat) : Nat := min (left + right) u32Max

inductive Key where
  | ip (addr : IpAddr)
  | device (hash : String)
  | account
  | reauth
deriving DecidableEq, Repr

def Key.freeAttempts : Key → Nat
  | account => accountFreeAttempts
  | _ => LoginThrottle.freeAttempts

/-- Who is entering the password. -/
inductive Who where
  | stranger
  | device (hash : String)
  | signedIn
deriving DecidableEq, Repr

structure Entry where
  failures : Nat
  inFlight : Nat
  lastSeen : Nat
deriving DecidableEq, Repr

namespace Entry

/-- How long after `lastSeen` a key stays blocked when this many failures count. -/
def delay (free effective : Nat) : Nat :=
  if effective ≤ free then 0
  else min (baseDelay * 2 ^ min (effective - free - 1) 20) maxDelay

/-- How long after `lastSeen` this key stays blocked. -/
def penalty (free : Nat) (entry : Entry) : Nat :=
  delay free (saturatingAdd entry.failures entry.inFlight)

/-- What a key has at least to wait at `now`. -/
def wait (free now : Nat) (entry : Entry) : Option Nat :=
  let remaining := entry.penalty free - (now - entry.lastSeen)
  if remaining = 0 then none else some remaining

/-- Whether the sweep keeps an entry. -/
def kept (now : Nat) (entry : Entry) : Bool :=
  0 < entry.inFlight || now - entry.lastSeen < entryTtl

/-- `or_insert` of an entry without history. -/
def orInsert (now : Nat) (entry : Option Entry) : Entry := entry.getD ⟨0, 0, now⟩

/-- What `begin` makes of a key it admits. -/
def reserve (now : Nat) (entry : Option Entry) : Option Entry :=
  let entry := orInsert now entry
  let failures :=
    if entry.inFlight = 0 ∧ entryTtl ≤ now - entry.lastSeen then 0 else entry.failures
  some ⟨failures, saturatingAdd entry.inFlight 1, now⟩

/-- What `finish_failure_at` makes of a key. -/
def fail (now : Nat) (entry : Option Entry) : Option Entry :=
  let entry := orInsert now entry
  some ⟨saturatingAdd entry.failures 1, entry.inFlight - 1, now⟩

/-- What `release_reservation` makes of a key. -/
def release (entry : Option Entry) : Option Entry :=
  match entry with
  | none => none
  | some entry =>
      let inFlight := entry.inFlight - 1
      if entry.failures = 0 ∧ inFlight = 0 then none else some { entry with inFlight }

end Entry

/-- `keys`. -/
def keys (ip : Option IpAddr) (who : Who) : List Key :=
  let second : Key := match who with
    | .stranger => .account
    | .device hash => .device hash
    | .signedIn => .reauth
  (ip.map Key.ip).toList ++ [second]

theorem keys_nodup (ip : Option IpAddr) (who : Who) : (keys ip who).Nodup := by
  cases ip with
  | none => exact List.nodup_singleton _
  | some addr => cases who <;> simp [keys]

end LoginThrottle

open LoginThrottle

/-! ### The throttle -/

structure LoginThrottle where
  lastPrune : Option Nat := none
  entries : Table Key Entry := ∅

/-- An admitted attempt: the keys it holds, each once. -/
structure LoginAttempt where
  keys : List Key
  distinct : keys.Nodup

namespace LoginThrottle

/-- Whether a sweep is due. -/
def pruneDue (throttle : LoginThrottle) (now : Nat) : Bool :=
  pruneThreshold < throttle.entries.entries.length &&
    match throttle.lastPrune with
    | none => true
    | some last => pruneInterval ≤ now - last

/-- The sweep at the head of `begin`. -/
def prune (throttle : LoginThrottle) (now : Nat) : LoginThrottle :=
  if throttle.pruneDue now then
    { lastPrune := some now, entries := throttle.entries.retain (Entry.kept now) }
  else throttle

/-- The longest wait that a key of an attempt imposes. -/
def waits (throttle : LoginThrottle) (now : Nat) (attemptKeys : List Key) : Option Nat :=
  (attemptKeys.filterMap fun key =>
    (throttle.entries.lookup key).bind (Entry.wait key.freeAttempts now)).max?

/-- The rows of some keys changed. -/
def alter (throttle : LoginThrottle) (attemptKeys : List Key)
    (change : Option Entry → Option Entry) : LoginThrottle :=
  { throttle with entries := attemptKeys.foldl (Table.alter change) throttle.entries }

/-- `begin`: the wait, or the attempt admitted. -/
def begin (throttle : LoginThrottle) (now : Nat) (ip : Option IpAddr) (who : Who) :
    LoginThrottle × Except Nat LoginAttempt :=
  let throttle := throttle.prune now
  match throttle.waits now (keys ip who) with
  | some wait => (throttle, .error wait)
  | none => (throttle.alter (keys ip who) (Entry.reserve now), .ok ⟨keys ip who, keys_nodup ip who⟩)

/-- `record_failure`. -/
def recordFailure (throttle : LoginThrottle) (now : Nat) (attempt : LoginAttempt) : LoginThrottle :=
  throttle.alter attempt.keys (Entry.fail now)

/-- `record_success`. -/
def recordSuccess (throttle : LoginThrottle) (attempt : LoginAttempt) : LoginThrottle :=
  throttle.alter attempt.keys fun _ => none

/-- `cancel`, and the drop of an attempt that was not resolved. -/
def cancel (throttle : LoginThrottle) (attempt : LoginAttempt) : LoginThrottle :=
  throttle.alter attempt.keys Entry.release

@[simp] theorem lookup_alter (throttle : LoginThrottle) (attempt : LoginAttempt)
    (change : Option Entry → Option Entry) (key : Key) :
    (throttle.alter attempt.keys change).entries.lookup key =
      if key ∈ attempt.keys then change (throttle.entries.lookup key)
      else throttle.entries.lookup key :=
  Table.lookup_alterAll change attempt.keys attempt.distinct throttle.entries key

/-- What the sweep leaves of a key. -/
theorem lookup_prune (throttle : LoginThrottle) (now : Nat) (key : Key) :
    (throttle.prune now).entries.lookup key = throttle.entries.lookup key ∨
      (throttle.prune now).entries.lookup key =
        (throttle.entries.lookup key).filter (Entry.kept now) := by
  unfold prune
  split
  · exact .inr (Table.lookup_retain _ _ _)
  · exact .inl rfl

/-! ### Runs -/

/-- What was done to the keys of an attempt. -/
inductive Record where
  | admitted (now : Nat) (keys : List Key)
  | failed (now : Nat) (keys : List Key)
  | succeeded (keys : List Key)
  | cancelled (keys : List Key)
deriving DecidableEq, Repr

/-- The keys a record is about. -/
def Record.keys : Record → List Key
  | admitted _ keys => keys
  | failed _ keys => keys
  | succeeded keys => keys
  | cancelled keys => keys

/-- The throttle with the attempts not yet resolved. The agent keeps neither the log of what was
done nor the latest time read. -/
structure State where
  throttle : LoginThrottle := {}
  live : List LoginAttempt := []
  log : List Record := []
  clock : Nat := 0

/-- What happens: a password is entered, or the attempt at a place of `live` is resolved. -/
inductive Event where
  | begin (now : Nat) (ip : Option IpAddr) (who : Who)
  | failure (now : Nat) (place : Nat)
  | success (place : Nat)
  | cancel (place : Nat)
deriving DecidableEq, Repr

/-- The time an event reads. -/
def Event.time : Event → Option Nat
  | begin now _ _ => some now
  | failure now _ => some now
  | _ => none

/-- The attempt an event resolves. -/
def State.resolved (state : State) : Event → Option LoginAttempt
  | .begin _ _ _ => none
  | .failure _ place => state.live[place]?
  | .success place => state.live[place]?
  | .cancel place => state.live[place]?

def next (state : State) : Event → Option State
  | .begin now ip who =>
      let clock := max state.clock now
      match state.throttle.begin now ip who with
      | (throttle, .error _) => some { state with throttle, clock }
      | (throttle, .ok attempt) =>
          some ⟨throttle, state.live ++ [attempt], state.log ++ [.admitted now attempt.keys], clock⟩
  | .failure now place =>
      (state.live[place]?).map fun attempt =>
        ⟨state.throttle.recordFailure now attempt, state.live.eraseIdx place,
          state.log ++ [.failed now attempt.keys], max state.clock now⟩
  | .success place =>
      (state.live[place]?).map fun attempt =>
        ⟨state.throttle.recordSuccess attempt, state.live.eraseIdx place,
          state.log ++ [.succeeded attempt.keys], state.clock⟩
  | .cancel place =>
      (state.live[place]?).map fun attempt =>
        ⟨state.throttle.cancel attempt, state.live.eraseIdx place,
          state.log ++ [.cancelled attempt.keys], state.clock⟩

/-- The throttle of an agent, from its start on. -/
def system : System State Event := .ofNext (fun state => state = {}) next

/-- The attempts not yet resolved that hold a key. -/
def State.holding (state : State) (key : Key) : Nat :=
  state.live.countP fun attempt => key ∈ attempt.keys

/-- What the throttle counts of them. -/
def inFlight (throttle : LoginThrottle) (key : Key) : Nat :=
  match throttle.entries.lookup key with
  | none => 0
  | some entry => entry.inFlight

end LoginThrottle

end ServerBox.Monitor
