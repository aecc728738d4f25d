import ServerBox.Terminal.Tmux.Refreshes

/-!
# No refresh of a tmux client is lost

A refresh that has not ended is the one in flight, so there is at most one; a follow-up that waits
is the one that is kept, after the last refresh. Every request is carried by a refresh that began
after it was made, which captures if the request asked for that (`coalesce`).
-/

namespace ServerBox.Terminal.Tmux.Refreshes

open ServerBox.Std

/-- A refresh began after a request was made, and captures for it. -/
def Carries (client : Client) (request : Request) (refresh : Nat) : Prop :=
  request.asked ≤ refresh ∧ ∃ run, client.refreshes[refresh]? = some run ∧
    (request.capture = true → run.capture = true)

def Served (client : Client) (request : Request) : Prop :=
  request.asked ≤ client.refreshes.length ∧
  match request.future with
  | .refresh refresh => Carries client request refresh
  | .followUp followUp =>
      ∃ after answer, client.followUps[followUp]? = some ⟨after, answer⟩ ∧
        match answer with
        | .waiting => request.capture = true → client.followUpCapture = true
        | .started refresh => Carries client request refresh
        | .closed => False
  | .value => False

structure Inv (client : Client) : Prop where
  inFlight : ∀ refresh, client.refreshInFlight = some refresh →
    refresh + 1 = client.refreshes.length ∧
      ∃ run, client.refreshes[refresh]? = some run ∧ run.cleared = false
  running : ∀ refresh run, client.refreshes[refresh]? = some run → run.ended = none →
    client.refreshInFlight = some refresh
  followUp : ∀ followUp, client.refreshFollowUp = some followUp →
    ∃ after, client.followUps[followUp]? = some ⟨after, .waiting⟩ ∧
      after + 1 = client.refreshes.length
  waiting : ∀ followUp after, client.followUps[followUp]? = some ⟨after, .waiting⟩ →
    client.refreshFollowUp = some followUp
  served : ∀ request ∈ client.requests, Served client request

variable {client after : Client}

theorem Carries.append {request : Request} {refresh : Nat}
    (carries : Carries client request refresh) (added : List Refresh) (same : after.refreshes = client.refreshes ++ added) :
    Carries after request refresh := by
  obtain ⟨asked, run, found, captures⟩ := carries
  refine ⟨asked, run, ?_, captures⟩
  rw [same, List.getElem?_append_left (List.getElem?_eq_some_iff.mp found).1, found]

theorem inv_finish {refresh : Nat} {ending : Ending} (inv : Inv client)
    (leads : client.finish refresh ending = some after) : Inv after := by
  unfold Client.finish at leads
  split at leads
  next capture cleared found =>
      obtain rfl := Option.some.inj leads
      constructor
      · grind [inv.inFlight]
      · grind [inv.running]
      · grind [inv.followUp]
      · grind [inv.waiting]
      · intro request member
        have served := inv.served request member
        grind [Served, Carries]
  next => cases leads

theorem inv_clear {refresh : Nat} (inv : Inv client) (leads : client.clear refresh = some after) :
    Inv after := by
  unfold Client.clear at leads
  split at leads
  next capture ending found =>
      obtain rfl := Option.some.inj leads
      constructor
      · grind [inv.inFlight]
      · grind [inv.running]
      · grind [inv.followUp]
      · grind [inv.waiting]
      · intro request member
        have served := inv.served request member
        grind [Served, Carries]
  next => cases leads

/-- The refresh of a follow-up carries all who wait for it. -/
theorem served_follow {request : Request} {followUp first : Nat} (inv : Inv client)
    (found : client.followUps[followUp]? = some ⟨first, .waiting⟩)
    (served : Served client request) :
    Served { client with
        refreshes := client.refreshes ++ [⟨client.followUpCapture, none, false⟩]
        refreshInFlight := some client.refreshes.length
        refreshFollowUp := none
        followUpCapture := false
        followUps := client.followUps.set followUp ⟨first, .started client.refreshes.length⟩ }
      request := by
  obtain ⟨before, holds⟩ := served
  refine ⟨by simp; omega, ?_⟩
  cases isFuture : request.future with
  | refresh refresh =>
      rw [isFuture] at holds
      exact Carries.append holds _ rfl
  | value =>
      rw [isFuture] at holds
      exact holds
  | followUp other =>
      rw [isFuture] at holds
      obtain ⟨after, answer, foundOther, answers⟩ := holds
      by_cases same : other = followUp
      · subst same
        obtain ⟨rfl, rfl⟩ := FollowUp.mk.inj (Option.some.inj (foundOther.symm.trans found))
        refine ⟨after, .started client.refreshes.length, ?_, before, _,
          List.getElem?_concat_length, answers⟩
        rw [List.getElem?_set_self (List.getElem?_eq_some_iff.mp found).1]
      · refine ⟨after, answer, ?_, ?_⟩
        · rw [List.getElem?_set_ne (Ne.symm same), foundOther]
        · cases answer with
          | waiting =>
              have isOther := inv.waiting other after foundOther
              rw [inv.waiting followUp first found] at isOther
              exact absurd (Option.some.inj isOther).symm same
          | started refresh => exact Carries.append answers _ rfl
          | closed => exact answers

theorem inv_follow {followUp : Nat} (isOpen : client.closed = false) (inv : Inv client)
    (leads : client.follow followUp = some after) : Inv after := by
  unfold Client.follow at leads
  split at leads
  next first found =>
      split at leads
      next capture ending cleared ended =>
          simp only [isOpen, Bool.false_eq_true, if_false, Client.startRefresh] at leads
          obtain rfl := Option.some.inj leads
          have isKept := inv.waiting followUp first found
          obtain ⟨same, found', isLast⟩ := inv.followUp followUp isKept
          constructor
          · grind [inv.inFlight]
          · grind [inv.inFlight, inv.running]
          · grind [inv.followUp]
          · intro other second waits
            have isOther := inv.waiting other second
            grind
          · intro request member
            exact served_follow inv found (inv.served request member)
      next => cases leads
  next => cases leads

theorem inv_startRefresh {capture asked : Bool} (inv : Inv client)
    (notInFlight : client.refreshInFlight = none) (noFollowUp : client.refreshFollowUp = none)
    (asks : asked = true → capture = true) :
    Inv (client.startRefresh capture).1 ∧
      Served (client.startRefresh capture).1
        ⟨client.refreshes.length, asked, (client.startRefresh capture).2⟩ := by
  unfold Client.startRefresh
  constructor
  · constructor
    · intro refresh isInFlight
      obtain rfl := Option.some.inj isInFlight
      exact ⟨by simp, _, List.getElem?_concat_length, rfl⟩
    · grind [inv.running]
    · grind
    · grind [inv.waiting]
    · intro request member
      have served := inv.served request member
      grind [Served, Carries]
  · exact ⟨by simp, Nat.le_refl _, _, List.getElem?_concat_length, asks⟩

/-- What `_refreshNow` returns serves who calls it. -/
theorem inv_refreshNow {capture asked : Bool} (isOpen : client.closed = false) (inv : Inv client)
    (asks : asked = true → capture = true) :
    Inv (client.refreshNow capture).1 ∧
      Served (client.refreshNow capture).1
        ⟨client.refreshes.length, asked, (client.refreshNow capture).2⟩ := by
  unfold Client.refreshNow
  rw [if_neg (by simp [isOpen])]
  split
  next followUp isFollowUp =>
      obtain ⟨first, found, isLast⟩ := inv.followUp followUp isFollowUp
      refine ⟨⟨inv.inFlight, inv.running, inv.followUp, inv.waiting, ?_⟩, ?_⟩
      · intro request member
        have served := inv.served request member
        grind [Served, Carries]
      · refine ⟨Nat.le_refl _, first, .waiting, found, fun isAsked => ?_⟩
        simp [asks isAsked]
  next isFollowUp =>
      split
      next isInFlight => exact inv_startRefresh inv isInFlight isFollowUp asks
      next inFlight isInFlight =>
          constructor
          · constructor
            · grind [inv.inFlight]
            · grind [inv.running]
            · intro followUp isNew
              obtain rfl := Option.some.inj isNew
              exact ⟨inFlight, List.getElem?_concat_length, (inv.inFlight _ isInFlight).1⟩
            · intro other second waits
              have isOther := inv.waiting other second
              grind
            · intro request member
              obtain ⟨before, holds⟩ := inv.served request member
              refine ⟨before, ?_⟩
              cases isFuture : request.future with
              | refresh refresh => simpa [isFuture, Carries] using holds
              | value => simp [isFuture] at holds
              | followUp other =>
                  rw [isFuture] at holds
                  obtain ⟨first, answer, foundOther, answers⟩ := holds
                  refine ⟨first, answer, ?_, ?_⟩
                  · rw [List.getElem?_append_left (List.getElem?_eq_some_iff.mp foundOther).1,
                      foundOther]
                  · cases answer with
                    | waiting =>
                        rw [inv.waiting other first foundOther] at isFollowUp
                        cases isFollowUp
                    | started refresh => exact answers
                    | closed => exact answers
          · exact ⟨Nat.le_refl _, _, _, List.getElem?_concat_length, asks⟩

theorem inv_refreshState {capture : Bool} (isOpen : client.closed = false) (inv : Inv client) :
    Inv (client.refreshState capture) := by
  let folded : Client := { client with refreshTimer := false, captureAfterRefresh := false }
  have invFolded : Inv folded := ⟨inv.inFlight, inv.running, inv.followUp, inv.waiting, inv.served⟩
  obtain ⟨invNow, served⟩ := @inv_refreshNow folded (capture || client.captureAfterRefresh) capture
    isOpen invFolded (fun isAsked => by simp [isAsked])
  refine ⟨invNow.inFlight, invNow.running, invNow.followUp, invNow.waiting, ?_⟩
  intro request member
  rcases List.mem_append.mp member with earlier | isNew
  · exact invNow.served request earlier
  · rw [List.mem_singleton.mp isNew]
    exact served

theorem closed_refreshNow (capture : Bool) :
    (client.refreshNow capture).1.closed = client.closed := by
  unfold Client.refreshNow
  split
  next => rfl
  next =>
      split
      next => rfl
      next => split <;> rfl

/-- A client that is open was open before. -/
theorem next_open {move : Move} (leads : next client move = some after)
    (isOpen : after.closed = false) : client.closed = false := by
  cases move with
  | request capture =>
      obtain rfl := Option.some.inj leads
      simpa [Client.refreshState, closed_refreshNow] using isOpen
  | schedule capture =>
      obtain rfl := Option.some.inj leads
      unfold Client.scheduleRefresh at isOpen
      split at isOpen <;> exact isOpen
  | fire =>
      simp only [next] at leads
      split at leads
      next =>
          obtain rfl := Option.some.inj leads
          simpa [Client.fire, closed_refreshNow] using isOpen
      next => cases leads
  | finish refresh ending =>
      simp only [next, Client.finish] at leads
      split at leads
      next => simpa [← Option.some.inj leads] using isOpen
      next => cases leads
  | clear refresh =>
      simp only [next, Client.clear] at leads
      split at leads
      next => simpa [← Option.some.inj leads] using isOpen
      next => cases leads
  | follow followUp =>
      cases isClosed : client.closed with
      | false => rfl
      | true =>
          simp only [next, Client.follow, isClosed, if_true] at leads
          split at leads
          next =>
              split at leads
              next => simp [← Option.some.inj leads] at isOpen
              next => cases leads
          next => cases leads
  | dispose =>
      obtain rfl := Option.some.inj leads
      simp [Client.dispose] at isOpen

theorem inv_next {move : Move} (inv : client.closed = false → Inv client)
    (leads : next client move = some after) (isOpen : after.closed = false) : Inv after := by
  have wasOpen := next_open leads isOpen
  have invBefore := inv wasOpen
  cases move with
  | request capture =>
      obtain rfl := Option.some.inj leads
      exact inv_refreshState wasOpen invBefore
  | schedule capture =>
      obtain rfl := Option.some.inj leads
      rw [Client.scheduleRefresh, if_neg (by simp [wasOpen])]
      exact ⟨invBefore.inFlight, invBefore.running, invBefore.followUp, invBefore.waiting,
        invBefore.served⟩
  | fire =>
      simp only [next] at leads
      split at leads
      next =>
          obtain rfl := Option.some.inj leads
          let folded : Client := { client with refreshTimer := false, captureAfterRefresh := false }
          have invFolded : Inv folded := ⟨invBefore.inFlight, invBefore.running,
            invBefore.followUp, invBefore.waiting, invBefore.served⟩
          exact (@inv_refreshNow folded _ false wasOpen invFolded fun isAsked => by cases isAsked).1
      next => cases leads
  | finish refresh ending => exact inv_finish invBefore leads
  | clear refresh => exact inv_clear invBefore leads
  | follow followUp => exact inv_follow wasOpen invBefore leads
  | dispose =>
      obtain rfl := Option.some.inj leads
      simp [Client.dispose] at isOpen

theorem inv_of_reachable (reached : system.Reachable client) (isOpen : client.closed = false) :
    Inv client := by
  refine @System.Reached.holds _ _ _ _ (fun client => client.closed = false → Inv client)
    (fun client starts _ => ?_) (fun _ _ _ inv _ leads isOpen => inv_next inv leads isOpen) _
    reached isOpen
  obtain rfl : client = .opened := starts
  constructor <;> simp [Client.opened]

/-! ### What is kept -/

/-- A refresh that has not ended. -/
def Runs (client : Client) (refresh : Nat) : Prop :=
  ∃ run, client.refreshes[refresh]? = some run ∧ run.ended = none

/-- No refresh runs, and no callback is left to run. -/
def Quiet (client : Client) : Prop :=
  ∀ number, ¬ Runs client number ∧ client.clear number = none ∧ client.follow number = none

theorem ending_eq {refresh : Nat} {ending : Ending} (ended : client.ending refresh = some ending) :
    ∃ run, client.refreshes[refresh]? = some run ∧ run.ended = some ending := by
  unfold Client.ending at ended
  split at ended
  next capture isEnded found => exact ⟨_, found, ended⟩
  next => cases ended

/-- A request whose future is complete was served by a refresh that ended so. -/
theorem Carries.ended {request : Request} {refresh : Nat} {ending : Ending}
    (carries : Carries client request refresh) (ended : client.ending refresh = some ending) :
    ∃ run, client.refreshes[refresh]? = some run ∧ run.ended = some ending ∧
      (request.capture = true → run.capture = true) := by
  obtain ⟨run, found, isEnded⟩ := ending_eq ended
  obtain ⟨-, same, foundSame, captures⟩ := carries
  rw [found] at foundSame
  exact ⟨run, found, isEnded, Option.some.inj foundSame ▸ captures⟩

/-- Where nothing is left to run, a refresh has come to its end. -/
theorem Quiet.ending (quiet : Quiet client) {refresh : Nat} {run : Refresh}
    (found : client.refreshes[refresh]? = some run) :
    ∃ ending, run.ended = some ending ∧ client.ending refresh = some ending := by
  obtain ⟨notRunning, notClearing, -⟩ := quiet refresh
  obtain ⟨capture, ended, cleared⟩ := run
  cases ended with
  | none => exact absurd ⟨_, found, rfl⟩ notRunning
  | some ending =>
      cases cleared with
      | false => simp [Client.clear, found] at notClearing
      | true => exact ⟨ending, rfl, by simp [Client.ending, found]⟩

def waits (followUp : FollowUp) : Bool := followUp.answer = .waiting

def runs (run : Refresh) : Bool := run.ended = none

def uncleared (run : Refresh) : Bool := run.cleared = false

/-- What is left to run: each follow-up that waits is a refresh yet, each refresh an end and a
callback. -/
def leftToRun (client : Client) : Nat :=
  3 * client.followUps.countP waits + client.refreshes.countP runs +
    client.refreshes.countP uncleared

theorem countP_set_lt {α : Type} {items : List α} {place : Nat} {item new : α} (holds : α → Bool)
    (found : items[place]? = some item) (was : holds item = true) (isNot : holds new = false) :
    (items.set place new).countP holds + 1 = items.countP holds := by
  obtain ⟨within, rfl⟩ := List.getElem?_eq_some_iff.mp found
  have positive : 0 < items.countP holds :=
    List.countP_pos_iff.mpr ⟨_, List.getElem_mem within, was⟩
  rw [List.countP_set within, was, isNot]
  simp
  omega

theorem countP_set_eq {α : Type} {items : List α} {place : Nat} {item new : α} (holds : α → Bool)
    (found : items[place]? = some item) (same : holds new = holds item) :
    (items.set place new).countP holds = items.countP holds := by
  obtain ⟨within, rfl⟩ := List.getElem?_eq_some_iff.mp found
  have counted := @List.boole_getElem_le_countP _ holds items place within
  rw [List.countP_set within, same]
  omega

theorem leftToRun_finish {refresh : Nat} {ending : Ending}
    (leads : client.finish refresh ending = some after) : leftToRun after < leftToRun client := by
  unfold Client.finish at leads
  split at leads
  next capture cleared found =>
      obtain rfl := Option.some.inj leads
      have ends := @countP_set_lt _ _ _ _ ⟨capture, some ending, cleared⟩ runs found rfl rfl
      have clears := @countP_set_eq _ _ _ _ ⟨capture, some ending, cleared⟩ uncleared found rfl
      simp only [leftToRun]
      omega
  next => cases leads

theorem leftToRun_clear {refresh : Nat} (leads : client.clear refresh = some after) :
    leftToRun after < leftToRun client := by
  unfold Client.clear at leads
  split at leads
  next capture ending found =>
      obtain rfl := Option.some.inj leads
      have ends := @countP_set_eq _ _ _ _ ⟨capture, some ending, true⟩ runs found rfl
      have clears := @countP_set_lt _ _ _ _ ⟨capture, some ending, true⟩ uncleared found rfl rfl
      simp only [leftToRun]
      omega
  next => cases leads

theorem leftToRun_follow {followUp : Nat} (leads : client.follow followUp = some after) :
    leftToRun after < leftToRun client := by
  unfold Client.follow at leads
  split at leads
  next first found =>
      split at leads
      next =>
          dsimp only at leads
          split at leads
          next =>
              obtain rfl := Option.some.inj leads
              have answers := @countP_set_lt _ _ _ _ ⟨first, .closed⟩ waits found rfl rfl
              simp only [leftToRun]
              omega
          next =>
              obtain rfl := Option.some.inj leads
              have answers := @countP_set_lt _ _ _ _ ⟨first, .started client.refreshes.length⟩ waits
                found rfl rfl
              simp only [leftToRun, Client.startRefresh, List.countP_append, List.countP_singleton]
              have one (run : Refresh) (holds : Refresh → Bool) :
                  (if holds run = true then 1 else 0) ≤ 1 := by split <;> omega
              have ends := one ⟨client.followUpCapture, none, false⟩ runs
              have clears := one ⟨client.followUpCapture, none, false⟩ uncleared
              omega
      next => cases leads
  next => cases leads

/-- At most one refresh runs at a time. A future of `refreshState` that is complete came to what a
refresh came to that began after the call, and that captured if the call asked for it and it did
not fail. Refreshes that end and callbacks that run come to an end, and then every future is
complete. -/
theorem coalesce (reached : system.Reachable client) (isOpen : client.closed = false) :
    (∀ refresh other, Runs client refresh → Runs client other → refresh = other) ∧
    (∀ request ∈ client.requests, ∀ ending, client.completed request.future = some ending →
      ∃ refresh run, request.asked ≤ refresh ∧ client.refreshes[refresh]? = some run ∧
        run.ended = some ending ∧ (request.capture = true → run.capture = true)) ∧
    (∀ number ending after, client.finish number ending = some after ∨
      client.clear number = some after ∨ client.follow number = some after →
      leftToRun after < leftToRun client) ∧
    (Quiet client → ∀ request ∈ client.requests,
      ∃ ending, client.completed request.future = some ending) := by
  have inv := inv_of_reachable reached isOpen
  refine ⟨?_, ?_, ?_, ?_⟩
  · rintro refresh other ⟨run, found, runs⟩ ⟨otherRun, otherFound, otherRuns⟩
    have first := inv.running refresh run found runs
    rw [inv.running other otherRun otherFound otherRuns] at first
    exact (Option.some.inj first).symm
  · intro request member ending completed
    obtain ⟨before, holds⟩ := inv.served request member
    cases isFuture : request.future with
    | value => simp [isFuture] at holds
    | refresh refresh =>
        rw [isFuture] at holds completed
        obtain ⟨run, found, ended, captures⟩ := Carries.ended holds completed
        exact ⟨refresh, run, holds.1, found, ended, captures⟩
    | followUp followUp =>
        rw [isFuture] at holds completed
        obtain ⟨first, answer, found, answers⟩ := holds
        cases answer with
        | waiting => simp [Client.completed, found] at completed
        | closed => exact answers.elim
        | started refresh =>
            simp only [Client.completed, found] at completed
            obtain ⟨run, found, ended, captures⟩ := Carries.ended answers completed
            exact ⟨refresh, run, answers.1, found, ended, captures⟩
  · rintro number ending after (leads | leads | leads)
    · exact leftToRun_finish leads
    · exact leftToRun_clear leads
    · exact leftToRun_follow leads
  · intro quiet request member
    obtain ⟨before, holds⟩ := inv.served request member
    cases isFuture : request.future with
    | value => simp [isFuture] at holds
    | refresh refresh =>
        rw [isFuture] at holds
        obtain ⟨-, run, found, -⟩ := holds
        obtain ⟨ending, -, ended⟩ := quiet.ending found
        exact ⟨ending, ended⟩
    | followUp followUp =>
        rw [isFuture] at holds
        obtain ⟨first, answer, found, answers⟩ := holds
        cases answer with
        | closed => exact answers.elim
        | waiting =>
            obtain ⟨same, foundSame, isLast⟩ :=
              inv.followUp followUp (inv.waiting followUp first found)
            rw [found] at foundSame
            obtain ⟨rfl, -⟩ := FollowUp.mk.inj (Option.some.inj foundSame)
            obtain ⟨run, foundRun⟩ : ∃ run, client.refreshes[first]? = some run :=
              ⟨_, List.getElem?_eq_getElem (by omega)⟩
            obtain ⟨ending, ended, -⟩ := quiet.ending foundRun
            have notFollowing := (quiet followUp).2.2
            obtain ⟨capture, isEnded, cleared⟩ := run
            simp only at ended
            simp [Client.follow, found, foundRun, ended, isOpen] at notFollowing
        | started refresh =>
            obtain ⟨-, run, foundRun, -⟩ := answers
            obtain ⟨ending, -, ended⟩ := quiet.ending foundRun
            exact ⟨ending, by simp [Client.completed, found, ended]⟩

def twoCalls : List Move :=
  [.request false, .request true, .request false, .finish 0 .failed, .clear 0, .follow 0,
    .finish 1 .done, .clear 1]

/-- Two calls while a refresh runs that fails are one refresh more, which captures. -/
theorem coalesce_twoCalls : ∃ client, System.follow (fun _ _ => true) next .opened twoCalls =
      some client ∧
    client.refreshes = [⟨false, some .failed, true⟩, ⟨true, some .done, true⟩] ∧
    client.requests = [⟨0, false, .refresh 0⟩, ⟨1, true, .followUp 0⟩, ⟨1, false, .followUp 0⟩] ∧
    ∀ request ∈ client.requests, ∀ ending, client.completed request.future = some ending →
      ∃ refresh run, request.asked ≤ refresh ∧ client.refreshes[refresh]? = some run ∧
        run.ended = some ending ∧ (request.capture = true → run.capture = true) := by
  have reached := (System.reached_follow (fun _ _ => true) next twoCalls
    (.initial rfl : system.Reached _ _) rfl).mono fun _ _ _ => trivial
  exact ⟨_, rfl, rfl, rfl, (coalesce reached rfl).2.1⟩

end ServerBox.Terminal.Tmux.Refreshes
