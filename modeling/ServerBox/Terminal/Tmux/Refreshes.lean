import ServerBox.Std.System
import Mathlib

/-!
# The refreshes of a tmux client

`refreshState` and what it starts, of `lib/data/terminal/tmux/tmux_control_client.dart`: a refresh
that runs, one follow-up for all who ask while it does, and a timer for the notifications. A
callback on a future runs at any time after the future is complete, in any order, so that a move
here is a call, a refresh that ends, or one such callback.
-/

namespace ServerBox.Terminal.Tmux.Refreshes

open ServerBox.Std

inductive Ending where
  | done
  | failed
deriving DecidableEq, Repr

/-- A run of `_refresh`. -/
structure Refresh where
  /-- Whether it captures the active pane, after everything else. -/
  capture : Bool
  ended : Option Ending
  /-- The callback of `_startRefresh` is through. -/
  cleared : Bool
deriving DecidableEq, Repr

/-- What came of a follow-up. -/
inductive Answer where
  | waiting
  | started (refresh : Nat)
  | closed
deriving DecidableEq, Repr

/-- A future of `_refreshNow` that starts a refresh after another. -/
structure FollowUp where
  after : Nat
  answer : Answer
deriving DecidableEq, Repr

/-- A future that is returned: that of `_startRefresh`, that of a follow-up, or `Future.value`. -/
inductive Returned where
  | refresh (refresh : Nat)
  | followUp (followUp : Nat)
  | value
deriving DecidableEq, Repr

/-- A call of `refreshState`. -/
structure Request where
  /-- How many refreshes began before. -/
  asked : Nat
  capture : Bool
  future : Returned
deriving DecidableEq, Repr

structure Client where
  /-- `_commands.isClosed`. -/
  closed : Bool
  refreshTimer : Bool
  captureAfterRefresh : Bool
  refreshInFlight : Option Nat
  refreshFollowUp : Option Nat
  followUpCapture : Bool
  refreshes : List Refresh
  followUps : List FollowUp
  requests : List Request
deriving DecidableEq, Repr

namespace Client

def opened : Client := ⟨false, false, false, none, none, false, [], [], []⟩

/-- `_startRefresh`, up to the first wait of `_refresh`. -/
def startRefresh (client : Client) (capture : Bool) : Client × Returned :=
  let refresh := client.refreshes.length
  ({ client with
      refreshes := client.refreshes ++ [⟨capture, none, false⟩]
      refreshInFlight := some refresh }, .refresh refresh)

/-- `_refreshNow`. -/
def refreshNow (client : Client) (capture : Bool) : Client × Returned :=
  if client.closed = true then (client, .value)
  else match client.refreshFollowUp with
    | some followUp =>
        ({ client with followUpCapture := client.followUpCapture || capture }, .followUp followUp)
    | none => match client.refreshInFlight with
      | none => client.startRefresh capture
      | some inFlight =>
          let followUp := client.followUps.length
          ({ client with
              followUpCapture := capture
              followUps := client.followUps ++ [⟨inFlight, .waiting⟩]
              refreshFollowUp := some followUp }, .followUp followUp)

/-- `refreshState`: a pending notification is folded in. -/
def refreshState (client : Client) (captureActivePane : Bool) : Client :=
  let asked := client.refreshes.length
  let capture := captureActivePane || client.captureAfterRefresh
  let (client, future) :=
    { client with refreshTimer := false, captureAfterRefresh := false }.refreshNow capture
  { client with requests := client.requests ++ [⟨asked, captureActivePane, future⟩] }

/-- `_scheduleRefresh`. -/
def scheduleRefresh (client : Client) (captureActivePane : Bool) : Client :=
  if client.closed = true then client
  else { client with
    captureAfterRefresh := client.captureAfterRefresh || captureActivePane
    refreshTimer := true }

/-- The callback of the timer. -/
def fire (client : Client) : Client :=
  let capture := client.captureAfterRefresh
  ({ client with refreshTimer := false, captureAfterRefresh := false }.refreshNow capture).1

/-- A refresh ends. -/
def finish (client : Client) (refresh : Nat) (ending : Ending) : Option Client :=
  match client.refreshes[refresh]? with
  | some ⟨capture, none, cleared⟩ =>
      some { client with
        refreshes := client.refreshes.set refresh ⟨capture, some ending, cleared⟩ }
  | _ => none

/-- `whenComplete` of `_startRefresh`. -/
def clear (client : Client) (refresh : Nat) : Option Client :=
  match client.refreshes[refresh]? with
  | some ⟨capture, some ending, false⟩ =>
      some { client with
        refreshes := client.refreshes.set refresh ⟨capture, some ending, true⟩
        refreshInFlight :=
          if client.refreshInFlight = some refresh then none else client.refreshInFlight }
  | _ => none

/-- The second `then` of a follow-up, after the refresh that it follows. -/
def follow (client : Client) (followUp : Nat) : Option Client :=
  match client.followUps[followUp]? with
  | some ⟨after, .waiting⟩ =>
      match client.refreshes[after]? with
      | some ⟨_, some _, _⟩ =>
          let capture := client.followUpCapture
          let client := { client with refreshFollowUp := none, followUpCapture := false }
          if client.closed = true then
            some { client with followUps := client.followUps.set followUp ⟨after, .closed⟩ }
          else
            let refresh := client.refreshes.length
            let (client, _) := client.startRefresh capture
            some { client with
              followUps := client.followUps.set followUp ⟨after, .started refresh⟩ }
      | _ => none
  | _ => none

/-- `dispose`, as far as the refreshes go. -/
def dispose (client : Client) : Client := { client with closed := true, refreshTimer := false }

/-- What the future of `_startRefresh` has come to. -/
def ending (client : Client) (refresh : Nat) : Option Ending :=
  match client.refreshes[refresh]? with
  | some ⟨_, ended, true⟩ => ended
  | _ => none

/-- What a future has come to. -/
def completed (client : Client) : Returned → Option Ending
  | .refresh refresh => client.ending refresh
  | .followUp followUp =>
      match client.followUps[followUp]? with
      | some ⟨_, .started refresh⟩ => client.ending refresh
      | some ⟨_, .closed⟩ => some .done
      | _ => none
  | .value => some .done

end Client

inductive Move where
  | request (captureActivePane : Bool)
  | schedule (captureActivePane : Bool)
  | fire
  | finish (refresh : Nat) (ending : Ending)
  | clear (refresh : Nat)
  | follow (followUp : Nat)
  | dispose
deriving DecidableEq, Repr

def next (client : Client) : Move → Option Client
  | .request capture => some (client.refreshState capture)
  | .schedule capture => some (client.scheduleRefresh capture)
  | .fire => if client.refreshTimer = true then some client.fire else none
  | .finish refresh ending => client.finish refresh ending
  | .clear refresh => client.clear refresh
  | .follow followUp => client.follow followUp
  | .dispose => some client.dispose

def system : System Client Move := .ofNext (· = .opened) next

end ServerBox.Terminal.Tmux.Refreshes
