import ServerBox.Monitor.LkCloudUsedOnce

/-!
# What a password change ends, and where grants go

A sign-in is stored under the lock, in the epoch it was asked for in; a sign-out that is
part of a password change holds the same lock. A granted token is stored, in the hand of a
task that stores or revokes it, revoked, or was dropped with its row marked, as long as no
row that is read cannot be opened and none that is not marked is deleted with the password.
-/

namespace ServerBox.Monitor.LkCloud

open ServerBox.Std

/-! ### The property -/

namespace State

def Stored (state : State) (token : Nat) : Prop :=
  ∃ row ∈ state.row, row.session.tokens.refresh = some token

def Revoked (state : State) (token : Nat) : Prop :=
  ∃ sent ∈ state.log, sent.token = token ∧ sent.revokes = true

end State

/-- No session is stored from a sign-in asked for before a password change whose sign-out has
run, and when nothing is under way every granted token is accounted for. -/
structure PasswordEnds (state : State) : Prop where
  row : ∀ row ∈ state.row, ¬ row.asked < state.ended
  grants : state.tasks = [] → state.holder = none → ∀ token ∈ state.issued,
    state.Stored token ∨ state.Revoked token ∨ token ∈ state.dropped

/-! ### Steps that leave no grant behind -/

/-- The tokens that the holder of the lock stores or revokes. -/
def Holding.carries : Holding → List Nat
  | .finishReads _ session _ => session.tokens.refresh.toList
  | .finishStores _ session _ previous => session.tokens.refresh.toList ++ previous.toList
  | .sessionStores _ fresh _ => fresh.refresh.toList
  | .sessionForgets revokes | .signOutForgets revokes _ => revokes.toList
  | _ => []

/-- The tokens in the hand of a task that stores or revokes them. -/
def State.carried (state : State) : List Nat :=
  state.tasks.flatMap Waiting.owned ++ (state.holder.map Holding.carries).getD []

/-- Whether a row's refresh token is at stake when the row goes. -/
def Row.live (row : Row) : Bool := !row.refreshing && row.session.tokens.refresh.isSome

/-- Whether a reading of the row lets the holder of the lock know what it must: a token that
is to be let go of opens, and a password change's sign-out finds the row of an earlier
sign-in. -/
def known (reading : Reading) (row : Row) : Holding → Bool
  | .finishReads _ _ _ => !row.live || reading = .fine || reading = .broken
  | .sessionReads _ => !row.live || reading ≠ .sealed
  | .signOutReads change =>
      (!row.live || reading ≠ .sealed) &&
        (reading ≠ .failed || change.all fun change => change.epoch ≤ row.asked)
  | _ => true

/-- A step of the calls through the API whose writes succeed, and that leaves no grant behind:
the row is known to whoever reads it, and when the password is set the row is gone, marked,
or its token about to be revoked. -/
def leavesNone (state : State) : Event → Bool
  | .read reading _ _ => state.row.all fun row => state.holder.all (known reading row)
  | .write applied => applied
  | .setsPassword _ applied =>
      applied && state.row.all fun row =>
        !row.live || row.session.tokens.refresh.all fun token => token ∈ state.carried
  | .drop _ | .dropHolder | .deleteRow | .crash => false
  | _ => true

/-! ### The invariant -/

/-- The password change that a sign-out belongs to. -/
def Waiting.change : Waiting → Option Change
  | .signOutBegins change | .signOutWaits change => change
  | _ => none

def Holding.change : Holding → Option Change
  | .signOutReads change | .signOutForgets _ change => change
  | _ => none

/-- The epoch of the sign-in that the holder of the lock is about to store. -/
def Holding.asked : Holding → Option Nat
  | .finishReads _ _ asked | .finishStores _ _ asked _ | .rereadStores _ asked => some asked
  | _ => none

/-- What is to become of the token of a row that the holder of the lock deletes or writes
over: it is revoked, or written again. -/
def Holding.knows (row : Row) : Holding → Prop
  | .finishStores _ _ _ previous => row.session.tokens.refresh = previous
  | .sessionForgets revokes | .signOutForgets revokes _ =>
      row.session.tokens.refresh = revokes
  | .rereadStores session _ => row.session.tokens = session.tokens
  | .sessionSends _ _ | .sessionSent _ _ | .sessionStores _ _ _ => False
  | _ => True

structure HolderKeeps (state : State) (holding : Holding) : Prop where
  asked : ∀ asked ∈ holding.asked, state.ended ≤ asked
  change : ∀ change ∈ holding.change, change.epoch ≤ state.epoch
  knows : ∀ row ∈ state.row, row.live = true → holding.knows row

/-- The invariant, in the middle of a step that has some tokens in hand. -/
structure Accounted (extra : List Nat) (state : State) : Prop where
  grants : ∀ token ∈ state.issued, state.Stored token ∨ state.Revoked token ∨
    token ∈ state.dropped ∨ token ∈ extra ++ state.carried
  asked : ∀ row ∈ state.row, state.ended ≤ row.asked
  epoch : state.ended ≤ state.epoch
  changes : ∀ task ∈ state.tasks, ∀ change ∈ task.change, change.epoch ≤ state.epoch
  holder : ∀ holding ∈ state.holder, HolderKeeps state holding

theorem Accounted.passwordEnds {state : State} (accounted : Accounted [] state) :
    PasswordEnds state where
  row row isRow := Nat.not_lt.mpr (accounted.asked row isRow)
  grants noTasks free token isIssued := by
    rcases accounted.grants token isIssued with stored | revoked | dropped | carried
    · exact .inl stored
    · exact .inr (.inl revoked)
    · exact .inr (.inr dropped)
    · simp [State.carried, noTasks, free] at carried

section

variable {extra otherExtra : List Nat} {state other : State}

/-! ### Tokens that change hands -/

theorem HolderKeeps.of_same {holding : Holding} (keeps : HolderKeeps state holding)
    (row : other.row = state.row) (ended : other.ended = state.ended)
    (epoch : state.epoch ≤ other.epoch) : HolderKeeps other holding where
  asked := by
    rw [ended]
    exact keeps.asked
  change change isChange := Nat.le_trans (keeps.change change isChange) epoch
  knows := by
    rw [row]
    exact keeps.knows

/-- What moves tokens from hand to hand only keeps the accounts. -/
theorem Accounted.moves (accounted : Accounted extra state) (row : other.row = state.row)
    (log : other.log = state.log) (dropped : other.dropped = state.dropped)
    (issued : other.issued = state.issued) (ended : other.ended = state.ended)
    (epoch : state.epoch ≤ other.epoch)
    (carried : ∀ token ∈ extra ++ state.carried, token ∈ otherExtra ++ other.carried)
    (changes : ∀ task ∈ other.tasks, ∀ change ∈ task.change, change.epoch ≤ other.epoch)
    (holder : ∀ holding ∈ other.holder, HolderKeeps other holding) :
    Accounted otherExtra other where
  grants token isIssued := by
    rw [State.Stored, State.Revoked, row, log, dropped]
    rcases accounted.grants token (issued ▸ isIssued) with stored | revoked | isDropped | inHand
    · exact .inl stored
    · exact .inr (.inl revoked)
    · exact .inr (.inr (.inl isDropped))
    · exact .inr (.inr (.inr (carried token inHand)))
  asked := by
    rw [row, ended]
    exact accounted.asked
  epoch := by
    rw [ended]
    exact Nat.le_trans accounted.epoch epoch
  changes := changes
  holder := holder

theorem carried_take {index : Nat} {task : Waiting} {rest : State}
    (taken : state.take index = some (task, rest)) {token : Nat} (held : token ∈ state.carried) :
    token ∈ task.owned ++ rest.carried := by
  obtain ⟨found, isTask, same⟩ := Option.map_eq_some_iff.mp taken
  obtain ⟨rfl, rfl⟩ := Prod.mk.inj same
  have counted := count_take isTask token
  simp only [State.carried, List.mem_append] at held ⊢
  rcases held with inTasks | ofHolder
  · have positive := List.count_pos_iff.mpr inTasks
    rw [counted] at positive
    rcases Nat.add_pos_iff_pos_or_pos.mp positive with ofTask | ofRest
    · exact .inl (List.count_pos_iff.mp ofTask)
    · exact .inr (.inl (List.count_pos_iff.mp ofRest))
  · exact .inr (.inr ofHolder)

theorem Accounted.take (accounted : Accounted extra state) {index : Nat} {task : Waiting}
    {rest : State} (taken : state.take index = some (task, rest)) :
    Accounted (task.owned ++ extra) rest ∧
      (∀ change ∈ task.change, change.epoch ≤ rest.epoch) ∧ rest.holder = state.holder := by
  have carries := fun token => @carried_take state index task rest taken token
  obtain ⟨found, isTask, same⟩ := Option.map_eq_some_iff.mp taken
  obtain ⟨rfl, rfl⟩ := Prod.mk.inj same
  refine ⟨accounted.moves rfl rfl rfl rfl rfl Nat.le.refl (fun token held => ?_)
    (fun other isOther => accounted.changes other (List.mem_of_mem_eraseIdx isOther))
    fun holding isHolding => (accounted.holder holding isHolding).of_same rfl rfl Nat.le.refl,
    accounted.changes found (List.mem_of_getElem? isTask), rfl⟩
  rcases List.mem_append.mp held with inHand | carried
  · exact List.mem_append_left _ (List.mem_append_right _ inHand)
  · rcases List.mem_append.mp (carries token carried) with ofTask | ofRest
    · exact List.mem_append_left _ (List.mem_append_left _ ofTask)
    · exact List.mem_append_right _ ofRest

theorem Accounted.wait {task : Waiting} (accounted : Accounted (task.owned ++ extra) state)
    (change : ∀ change ∈ task.change, change.epoch ≤ state.epoch) :
    Accounted extra (state.wait task) := by
  refine accounted.moves rfl rfl rfl rfl rfl Nat.le.refl (fun token held => ?_) ?_
    fun holding isHolding => (accounted.holder holding isHolding).of_same rfl rfl Nat.le.refl
  · simp only [State.carried, State.wait, List.flatMap_cons, List.mem_append] at held ⊢
    rcases held with (owned | inHand) | inTasks | ofHolder
    · exact .inr (.inl (.inl owned))
    · exact .inl inHand
    · exact .inr (.inl (.inr inTasks))
    · exact .inr (.inr ofHolder)
  · rw [State.wait, List.forall_mem_cons]
    exact ⟨change, accounted.changes⟩

/-- A task that waits with no token and for no password change. -/
theorem Accounted.waitNone {task : Waiting} (accounted : Accounted extra state)
    (owned : task.owned = []) (change : ∀ change ∈ task.change, change.epoch ≤ state.epoch) :
    Accounted extra (state.wait task) := by
  refine Accounted.wait ?_ change
  rwa [owned]

theorem Accounted.release (accounted : Accounted extra state) {holding : Holding} {rest : State}
    (released : state.release = some (holding, rest)) :
    Accounted (holding.carries ++ extra) rest ∧ HolderKeeps rest holding ∧
      rest.holder = none := by
  obtain ⟨found, isHolding, same⟩ := Option.map_eq_some_iff.mp released
  obtain ⟨rfl, rfl⟩ := Prod.mk.inj same
  refine ⟨accounted.moves rfl rfl rfl rfl rfl Nat.le.refl (fun token held => ?_)
    accounted.changes nofun, (accounted.holder found isHolding).of_same rfl rfl Nat.le.refl, rfl⟩
  simp only [State.carried, isHolding, Option.map_some, Option.getD_some, Option.map_none,
    Option.getD_none, List.mem_append] at held ⊢
  rcases held with inHand | inTasks | ofHolder
  · exact .inl (.inr inHand)
  · exact .inr (.inl inTasks)
  · exact .inl (.inl ofHolder)

theorem Accounted.hold {holding : Holding} (accounted : Accounted (holding.carries ++ extra) state)
    (free : state.holder = none) (keeps : HolderKeeps state holding) :
    Accounted extra (state.hold holding) := by
  refine accounted.moves rfl rfl rfl rfl rfl Nat.le.refl (fun token held => ?_)
    accounted.changes fun other isHolding => ?_
  · simp only [State.carried, State.hold, free, Option.map_some, Option.getD_some, Option.map_none,
      Option.getD_none, List.mem_append] at held ⊢
    rcases held with (ofHolder | inHand) | inTasks | none
    · exact .inr (.inr ofHolder)
    · exact .inl inHand
    · exact .inr (.inl inTasks)
    · cases none
  · obtain rfl := Option.some.inj isHolding
    exact keeps.of_same rfl rfl Nat.le.refl

/-- A token in hand that is revoked is accounted for. -/
theorem Accounted.revoke {token : Option Nat}
    (accounted : Accounted (token.toList ++ extra) state) : Accounted extra (state.revoke token) := by
  cases token with
  | none => exact accounted
  | some token =>
      refine ⟨fun each isIssued => ?_, accounted.asked, accounted.epoch, accounted.changes,
        fun holding isHolding => (accounted.holder holding isHolding).of_same rfl rfl Nat.le.refl⟩
      rcases accounted.grants each isIssued with stored | revoked | dropped | inHand
      · exact .inl stored
      · obtain ⟨sent, isSent, isRevoked⟩ := revoked
        exact .inr (.inl ⟨sent, List.mem_cons_of_mem _ isSent, isRevoked⟩)
      · exact .inr (.inr (.inl dropped))
      · rcases List.mem_cons.mp inHand with rfl | others
        · exact .inr (.inl ⟨_, List.mem_cons_self, rfl, rfl⟩)
        · exact .inr (.inr (.inr others))

theorem Accounted.issue (accounted : Accounted extra state) (tokens : Tokens) :
    Accounted (tokens.refresh.toList ++ extra) (state.issue tokens) := by
  refine ⟨fun token isIssued => ?_, accounted.asked, accounted.epoch, accounted.changes,
    fun holding isHolding => (accounted.holder holding isHolding).of_same rfl rfl Nat.le.refl⟩
  rcases List.mem_append.mp isIssued with new | old
  · exact .inr (.inr (.inr (List.mem_append_left _ (List.mem_append_left _ new))))
  · rcases accounted.grants token old with stored | revoked | dropped | inHand
    · exact .inl stored
    · exact .inr (.inl revoked)
    · exact .inr (.inr (.inl dropped))
    · rw [List.append_assoc]
      exact .inr (.inr (.inr (List.mem_append_right _ inHand)))

/-- A change of the slot, and an epoch that was raised. -/
theorem Accounted.aside (accounted : Accounted extra state) (epoch : Nat) (signIn : Option SignIn)
    (later : state.epoch ≤ epoch) : Accounted extra { state with epoch, signIn } :=
  accounted.moves rfl rfl rfl rfl rfl later (fun _ => id)
    (fun task isTask change isChange =>
      Nat.le_trans (accounted.changes task isTask change isChange) later)
    fun holding isHolding => (accounted.holder holding isHolding).of_same rfl rfl later

/-! ### What happens to the row -/

theorem mem_dropped_replaceRow {row : Option Row} {token : Nat} (dropped : token ∈ state.dropped) :
    token ∈ (state.replaceRow row).dropped := by
  unfold State.replaceRow
  dsimp only
  split
  · exact List.mem_cons_of_mem _ dropped
  · exact dropped

/-- The token of a row that goes is among those in hand, in the new row or dropped marked. -/
theorem Accounted.replaceRow (accounted : Accounted extra state) {row : Option Row}
    (live : ∀ old ∈ state.row, old.live = true → ∀ token ∈ old.session.tokens.refresh,
      token ∈ otherExtra ++ state.carried ∨
        ∃ new ∈ row, new.session.tokens.refresh = some token)
    (inHand : ∀ token ∈ extra, token ∈ otherExtra ∨
      ∃ new ∈ row, new.session.tokens.refresh = some token)
    (asked : ∀ new ∈ row, state.ended ≤ new.asked)
    (holder : ∀ holding ∈ state.holder, HolderKeeps (state.replaceRow row) holding) :
    Accounted otherExtra (state.replaceRow row) := by
  refine ⟨fun token isIssued => ?_, asked, accounted.epoch, accounted.changes, holder⟩
  rcases accounted.grants token isIssued with stored | revoked | dropped | carried
  · obtain ⟨old, isOld, isToken⟩ := stored
    cases marked : old.refreshing with
    | true =>
        refine .inr (.inr (.inl ?_))
        obtain ⟨⟨user, access, refresh⟩, refreshing, askedAt⟩ := old
        obtain rfl : refresh = some token := isToken
        obtain rfl : refreshing = true := marked
        simp [State.replaceRow, Option.mem_def.mp isOld]
    | false =>
        have isLive : old.live = true := by simp [Row.live, marked, isToken]
        rcases live old isOld isLive token isToken with held | stored
        · exact .inr (.inr (.inr held))
        · exact .inl stored
  · exact .inr (.inl revoked)
  · exact .inr (.inr (.inl (mem_dropped_replaceRow dropped)))
  · rcases List.mem_append.mp carried with held | others
    · rcases inHand token held with other | stored
      · exact .inr (.inr (.inr (List.mem_append_left _ other)))
      · exact .inl stored
    · exact .inr (.inr (.inr (List.mem_append_right _ others)))

/-- A row is deleted with its token in hand, if the token is at stake. -/
theorem Accounted.forget (accounted : Accounted extra state)
    (live : ∀ old ∈ state.row, old.live = true → ∀ token ∈ old.session.tokens.refresh,
      token ∈ extra ++ state.carried) : Accounted extra state.forget :=
  accounted.replaceRow (fun old isOld isLive token isToken =>
      .inl (live old isOld isLive token isToken)) (fun _ => .inl) nofun
    fun holding isHolding =>
      have keeps := accounted.holder holding isHolding
      ⟨keeps.asked, keeps.change, nofun⟩

theorem Accounted.mark (accounted : Accounted extra state) (free : state.holder = none)
    (refreshing : Bool) : Accounted extra (state.mark refreshing) := by
  refine ⟨fun token isIssued => ?_, fun row isRow => ?_, accounted.epoch, accounted.changes,
    fun holding isHolding => ?_⟩
  · rcases accounted.grants token isIssued with stored | others
    · obtain ⟨row, isRow, isToken⟩ := stored
      exact .inl ⟨{ row with refreshing }, Option.map_eq_some_iff.mpr ⟨row, isRow, rfl⟩, isToken⟩
    · exact .inr others
  · obtain ⟨before, isBefore, rfl⟩ := Option.map_eq_some_iff.mp isRow
    exact accounted.asked before isBefore
  · rw [State.mark, free] at isHolding
    cases isHolding

/-- What was sent and answered does not change what was revoked. -/
theorem Accounted.logged (accounted : Accounted extra state) (log : List Sent)
    (revoked : ∀ sent ∈ state.log, sent.revokes = true →
      ∃ other ∈ log, other.token = sent.token ∧ other.revokes = true) :
    Accounted extra { state with log } := by
  refine ⟨fun token isIssued => ?_, accounted.asked, accounted.epoch, accounted.changes,
    fun holding isHolding => (accounted.holder holding isHolding).of_same rfl rfl Nat.le.refl⟩
  rcases accounted.grants token isIssued with stored | isRevoked | others
  · exact .inl stored
  · obtain ⟨sent, isSent, rfl, revokes⟩ := isRevoked
    exact .inr (.inl (revoked sent isSent revokes))
  · exact .inr (.inr others)

theorem Accounted.send (accounted : Accounted extra state) (token : Nat) :
    Accounted extra (state.send token) :=
  accounted.logged _ fun sent isSent revokes =>
    ⟨sent, List.mem_cons_of_mem _ isSent, rfl, revokes⟩

theorem Accounted.answer (accounted : Accounted extra state) (token : Nat) (outcome : Outcome) :
    Accounted extra (state.answer token outcome) := by
  refine accounted.logged _ fun sent isSent revokes => ?_
  refine ⟨answered token outcome sent, List.mem_map_of_mem isSent, answered_token .., ?_⟩
  simp [answered, revokes]

/-! ### The steps of the tasks -/

theorem Accounted.more (accounted : Accounted extra state) (more : List Nat) :
    Accounted (more ++ extra) state :=
  accounted.moves rfl rfl rfl rfl rfl Nat.le.refl
    (fun token held => by
      rw [List.append_assoc]
      exact List.mem_append_right _ held)
    accounted.changes accounted.holder

theorem Accounted.settle (accounted : Accounted extra state) (code : Nat) (failed : Bool) :
    Accounted extra (state.settle code failed) := by
  obtain ⟨signIn, same⟩ := settle_eq state code failed
  rw [same]
  exact accounted.aside state.epoch signIn Nat.le.refl

theorem Accounted.cancel (accounted : Accounted extra state) : Accounted extra state.cancel := by
  unfold State.cancel
  split
  · exact accounted
  · exact accounted.aside state.epoch none Nat.le.refl

theorem Accounted.endEpoch (accounted : Accounted extra state) :
    Accounted extra state.endEpoch := by
  simp only [State.endEpoch]
  split
  · exact accounted.aside (state.epoch + 1) state.signIn (Nat.le_succ _)
  · exact accounted.aside (state.epoch + 1) none (Nat.le_succ _)

theorem Accounted.begin (accounted : Accounted extra state) (code epoch : Nat) :
    Accounted extra (state.begin code epoch) := by
  unfold State.begin
  split
  · exact accounted
  · split
    · exact accounted
    · exact (accounted.aside state.epoch (some ⟨code, false, false, epoch⟩) Nat.le.refl).waitNone
        rfl nofun

theorem Accounted.sessionEnds (accounted : Accounted extra state) (session : Session)
    (rereads : Bool) : Accounted extra (state.sessionEnds session rereads) := by
  unfold State.sessionEnds
  split
  · exact accounted.waitNone rfl nofun
  · exact accounted

/-- A sign-out has run: no row is left of a sign-in before its password change. -/
theorem Accounted.signedOut (accounted : Accounted extra state) (free : state.holder = none)
    {change : Option Change} (raised : ∀ each ∈ change, each.epoch ≤ state.epoch)
    (rows : ∀ row ∈ state.row, ∀ each ∈ change, each.epoch ≤ row.asked) :
    Accounted extra (state.signedOut change) := by
  have bounded : ∀ bound, (∀ each ∈ change, each.epoch ≤ bound) →
      (change.map Change.epoch).getD 0 ≤ bound := by
    intro bound each
    cases change with
    | none => exact Nat.zero_le _
    | some change => exact each change rfl
  have ended : Accounted extra
      { state with ended := max state.ended ((change.map Change.epoch).getD 0) } :=
    ⟨accounted.grants,
      fun row isRow => Nat.max_le.mpr ⟨accounted.asked row isRow, bounded _ (rows row isRow)⟩,
      Nat.max_le.mpr ⟨accounted.epoch, bounded _ raised⟩, accounted.changes,
      fun holding isHolding => by
        rw [free] at isHolding
        cases isHolding⟩
  unfold State.signedOut State.signOutEnds
  split
  · exact ended.waitNone rfl nofun
  · exact ended

theorem accounted_polled (accounted : Accounted extra state) {code : Nat} {answer : State.Poll}
    {after : State} (leads : state.polled code answer = some after) : Accounted extra after := by
  cases answer with
  | pending =>
      cases leads
      exact accounted.waitNone rfl ofNone
  | done tokens =>
      simp only [State.polled] at leads
      split at leads
      · cases leads
      · have issued := accounted.issue tokens
        split at leads
        · cases leads
          have claimed : Accounted ((Waiting.pollUser code tokens).owned ++ extra)
              (state.issue tokens).claim := issued.aside _ _ Nat.le.refl
          exact claimed.wait ofNone
        · cases leads
          exact issued.revoke
  | failed =>
      cases leads
      exact accounted.settle code true

theorem accounted_acquire {task : Waiting} {after : State}
    (accounted : Accounted (task.owned ++ extra) state)
    (change : ∀ change ∈ task.change, change.epoch ≤ state.epoch) (free : state.holder = none)
    (leads : acquire state task = some after) : Accounted extra after := by
  cases task with
  | finishWaits code session =>
      cases leads
      unfold State.finishAcquires
      split
      · exact (accounted.settle code true).revoke
      · refine Accounted.hold accounted free ⟨fun asked isAsked => ?_, nofun, fun _ _ _ => trivial⟩
        obtain rfl := Option.some.inj isAsked
        exact accounted.epoch
  | sessionWaits rereads =>
      cases leads
      exact Accounted.hold accounted free ⟨nofun, nofun, fun _ _ _ => trivial⟩
  | rereadWaits session user =>
      cases leads
      exact Accounted.hold accounted free ⟨nofun, nofun, fun _ _ _ => trivial⟩
  | signOutWaits each =>
      cases leads
      exact Accounted.hold accounted free ⟨nofun, change, fun _ _ _ => trivial⟩
  | _ => cases leads

/-- The token of one that cannot be read back is that of the row, if the tokens open. -/
theorem refresh_of_broken {row : Row} {reading : Reading} {refresh : Option Nat}
    (live : row.live = true) (opens : reading ≠ .sealed)
    (loaded : load (some row) reading = .error refresh) :
    row.session.tokens.refresh = refresh := by
  have usable : row.refreshing = false := by
    rw [Row.live, Bool.and_eq_true] at live
    simpa using live.1
  cases reading <;> simp [load, usable] at loaded opens
  exact loaded

/-- What a holder of the lock is left with after it read a row it knows. -/
theorem accounted_read {holding : Holding} {reading : Reading} {due client : Bool} {after : State}
    (accounted : Accounted (holding.carries ++ extra) state) (keeps : HolderKeeps state holding)
    (free : state.holder = none) (isKnown : ∀ row ∈ state.row, known reading row holding = true)
    (leads : read state reading due client holding = some after) : Accounted extra after := by
  cases holding with
  | finishReads code session asked =>
      cases leads
      have more := accounted.more (State.previous state.row reading).toList
      have carried : Accounted ((Holding.finishStores code session asked
          (State.previous state.row reading)).carries ++ extra) state :=
        more.moves rfl rfl rfl rfl rfl Nat.le.refl
          (fun token held => by
            simp only [Holding.carries, List.mem_append] at held ⊢
            rcases held with (previous | own | inHand) | others
            · exact .inl (.inl (.inr previous))
            · exact .inl (.inl (.inl own))
            · exact .inl (.inr inHand)
            · exact .inr others)
          more.changes more.holder
      refine Accounted.hold carried free ⟨keeps.asked, ofNone, fun row isRow live => ?_⟩
      have each := isKnown row isRow
      simp only [known, live, Bool.not_true, Bool.false_or, Bool.or_eq_true,
        decide_eq_true_eq] at each
      have usable : row.refreshing = false := by
        rw [Row.live, Bool.and_eq_true] at live
        simpa using live.1
      rw [Holding.knows, Option.mem_def.mp isRow]
      rcases each with rfl | rfl <;> simp [State.previous, load, usable]
  | sessionReads rereads =>
      cases leads
      unfold State.sessionReads
      split
      next refresh loaded =>
        refine Accounted.hold (accounted.more refresh.toList) free
          ⟨ofNone, ofNone, fun row isRow live => ?_⟩
        have each := isKnown row isRow
        simp only [known, live, Bool.not_true, Bool.false_or, decide_eq_true_eq] at each
        rw [Option.mem_def.mp isRow] at loaded
        exact refresh_of_broken live each loaded
      next => exact accounted
      next session loaded =>
        obtain ⟨row, isRow, usable, rfl⟩ := row_of_load loaded
        split
        · exact Accounted.sessionEnds accounted _ rereads
        · split
          next none =>
            refine Accounted.hold accounted free ⟨ofNone, ofNone, fun other isOther live => ?_⟩
            obtain rfl := Option.some.inj (isRow.symm.trans isOther)
            exact Option.isNone_iff_eq_none.mp none
          next =>
            split
            · exact Accounted.hold accounted free ⟨ofNone, ofNone, fun _ _ _ => trivial⟩
            · exact accounted
  | rereadReads session user =>
      cases leads
      unfold State.rereadReads
      split
      next row stored found isRow loaded =>
        split
        next same =>
          obtain ⟨read, isRead, usable, isStored⟩ := row_of_load loaded
          refine Accounted.hold accounted free
            ⟨fun asked isAsked => ?_, ofNone, fun other isOther live => ?_⟩
          · obtain rfl := Option.some.inj isAsked
            exact accounted.asked row isRow
          · obtain rfl := Option.some.inj (isRead.symm.trans isOther)
            have equal : read.session = session := isStored.trans same.1
            rw [Holding.knows, equal]
        next => exact accounted
      next => exact accounted
  | signOutReads change =>
      cases leads
      unfold State.signOutReads
      split
      next loaded =>
        refine Accounted.signedOut accounted free keeps.change fun row isRow => ?_
        have each := isKnown row isRow
        have isFailed : reading = .failed := by
          rw [Option.mem_def.mp isRow] at loaded
          cases reading <;> cases marked : row.refreshing <;> simp [load, marked] at loaded ⊢
        simp only [known, isFailed, Bool.and_eq_true] at each
        intro change isChange
        have bound := each.2
        rw [Option.mem_def.mp isChange] at bound
        simpa using bound
      next session loaded =>
        obtain ⟨row, isRow, usable, rfl⟩ := row_of_load loaded
        refine Accounted.hold (accounted.more row.session.tokens.refresh.toList) free
          ⟨ofNone, keeps.change, fun other isOther live => ?_⟩
        obtain rfl := Option.some.inj (isRow.symm.trans isOther)
        rfl
      next refresh loaded =>
        refine Accounted.hold (accounted.more refresh.toList) free
          ⟨ofNone, keeps.change, fun row isRow live => ?_⟩
        have each := isKnown row isRow
        simp only [known, live, Bool.not_true, Bool.false_or, Bool.and_eq_true,
          decide_eq_true_eq] at each
        rw [Option.mem_def.mp isRow] at loaded
        exact refresh_of_broken live each.1 loaded
  | _ => cases leads

/-- What a holder of the lock is left with after it wrote. -/
theorem accounted_write {holding : Holding} {after : State}
    (accounted : Accounted (holding.carries ++ extra) state) (keeps : HolderKeeps state holding)
    (free : state.holder = none) (leads : write state true holding = some after) :
    Accounted extra after := by
  have noHolder : ∀ row, ∀ holding ∈ state.holder, HolderKeeps (state.replaceRow row) holding := by
    intro row holding isHolding
    rw [free] at isHolding
    cases isHolding
  cases holding with
  | finishStores code session asked previous =>
      cases leads
      have isLater : ∀ new ∈ some (Row.mk session false asked), state.ended ≤ new.asked := by
        intro new isNew
        obtain rfl := Option.some.inj isNew
        exact keeps.asked asked rfl
      simp only [State.finishStores, if_pos]
      split
      next =>
        have stored : Accounted (previous.toList ++ extra)
            (state.replaceRow (some ⟨session, false, asked⟩)) := by
          refine accounted.replaceRow (fun old isOld live token isToken => .inl ?_)
            (fun token held => ?_) isLater (noHolder _)
          · have equal : old.session.tokens.refresh = previous := keeps.knows old isOld live
            rw [← equal]
            exact List.mem_append_left _ (List.mem_append_left _ (Option.mem_toList.mpr isToken))
          · simp only [Holding.carries, List.mem_append] at held ⊢
            rcases held with (own | previous) | inHand
            · exact .inr ⟨_, rfl, Option.mem_toList.mp own⟩
            · exact .inl (.inl previous)
            · exact .inl (.inr inHand)
        exact (stored.settle code false).revoke
      next same =>
        have equal : previous = session.tokens.refresh := not_not.mp same
        have stored : Accounted extra (state.replaceRow (some ⟨session, false, asked⟩)) := by
          refine accounted.replaceRow (fun old isOld live token isToken => .inr ?_)
            (fun token held => ?_) isLater (noHolder _)
          · have known : old.session.tokens.refresh = previous := keeps.knows old isOld live
            exact ⟨_, rfl, equal.symm.trans (known.symm.trans isToken)⟩
          · simp only [Holding.carries, equal, List.mem_append] at held
            rcases held with (own | previous) | inHand
            · exact .inr ⟨_, rfl, Option.mem_toList.mp own⟩
            · exact .inr ⟨_, rfl, Option.mem_toList.mp previous⟩
            · exact .inl inHand
        exact stored.settle code false
  | sessionMarks session rereads =>
      cases leads
      unfold State.sessionMarks
      split
      · have marked : Accounted extra (state.mark true) := Accounted.mark accounted free true
        refine Accounted.hold marked free ⟨ofNone, ofNone, fun row isRow live => ?_⟩
        obtain ⟨before, -, rfl⟩ := Option.map_eq_some_iff.mp isRow
        cases live
      · exact Accounted.sessionEnds accounted session rereads
  | sessionStores session fresh rereads =>
      cases leads
      have forgets : Accounted extra (state.hold (.sessionForgets fresh.refresh)) :=
        Accounted.hold accounted free
          ⟨ofNone, ofNone, fun row isRow live => (keeps.knows row isRow live).elim⟩
      unfold State.sessionStores State.storeRefresh
      cases isRow : state.row with
      | none => simpa using forgets
      | some row =>
          cases marked : row.refreshing with
          | false => simpa [marked] using forgets
          | true =>
              have stored : Accounted extra (state.replaceRow
                  (some ⟨{ row.session with tokens := fresh }, false, row.asked⟩)) := by
                refine accounted.replaceRow
                  (fun old isOld live => (keeps.knows old isOld live).elim)
                  (fun token held => ?_) (fun new isNew => ?_) (noHolder _)
                · rcases List.mem_append.mp held with own | inHand
                  · exact .inr ⟨_, rfl, Option.mem_toList.mp own⟩
                  · exact .inl inHand
                · obtain rfl := Option.some.inj isNew
                  exact accounted.asked row isRow
              simpa [marked] using stored.sessionEnds { session with tokens := fresh } rereads
  | sessionClears session rereads =>
      cases leads
      exact Accounted.sessionEnds (Accounted.mark accounted free false) session rereads
  | sessionForgets revokes =>
      cases leads
      have forgotten : Accounted (revokes.toList ++ extra) state.forget := by
        refine Accounted.forget accounted fun old isOld live token isToken => ?_
        have equal : old.session.tokens.refresh = revokes := keeps.knows old isOld live
        rw [← equal]
        exact List.mem_append_left _ (List.mem_append_left _ (Option.mem_toList.mpr isToken))
      exact forgotten.revoke
  | rereadStores session asked =>
      cases leads
      have carried : Accounted extra state := accounted
      refine carried.replaceRow (fun old isOld live token isToken => .inr ?_) (fun _ => .inl)
        (fun new isNew => ?_) (noHolder _)
      · have equal : old.session.tokens = session.tokens := keeps.knows old isOld live
        exact ⟨_, rfl, (congrArg Tokens.refresh equal).symm.trans isToken⟩
      · obtain rfl := Option.some.inj isNew
        exact keeps.asked asked rfl
  | signOutForgets revokes change =>
      cases leads
      have forgotten : Accounted (revokes.toList ++ extra) state.forget := by
        refine Accounted.forget accounted fun old isOld live token isToken => ?_
        have equal : old.session.tokens.refresh = revokes := keeps.knows old isOld live
        rw [← equal]
        exact List.mem_append_left _ (List.mem_append_left _ (Option.mem_toList.mpr isToken))
      exact (forgotten.signedOut free keeps.change ofNone).revoke
  | _ => cases leads

theorem cancel_epoch (state : State) : state.cancel.epoch = state.epoch := by
  unfold State.cancel
  split <;> rfl

theorem take_row {index : Nat} {task : Waiting} {rest : State}
    (taken : state.take index = some (task, rest)) : rest.row = state.row := by
  obtain ⟨found, -, same⟩ := Option.map_eq_some_iff.mp taken
  obtain ⟨rfl, rfl⟩ := Prod.mk.inj same
  rfl

theorem accounted_send {holding : Holding} {after : State}
    (accounted : Accounted (holding.carries ++ extra) state) (keeps : HolderKeeps state holding)
    (free : state.holder = none) (leads : send state holding = some after) :
    Accounted extra after := by
  cases holding with
  | sessionSends session rereads =>
      obtain ⟨token, -, rfl⟩ := Option.map_eq_some_iff.mp leads
      exact Accounted.hold (Accounted.send accounted token) free ⟨nofun, nofun, keeps.knows⟩
  | _ => cases leads

theorem accounted_answer {holding : Holding} {renewed : Except Failure Tokens} {after : State}
    (accounted : Accounted (holding.carries ++ extra) state) (keeps : HolderKeeps state holding)
    (free : state.holder = none) (leads : answer state renewed holding = some after) :
    Accounted extra after := by
  cases holding with
  | sessionSent session rereads =>
      obtain ⟨token, -, leads⟩ := Option.bind_eq_some_iff.mp leads
      cases renewed with
      | ok tokens =>
          dsimp only at leads
          split at leads
          next =>
            cases leads
            have issued := (Accounted.answer accounted token .renewed).issue tokens
            exact issued.hold free ⟨nofun, nofun, keeps.knows⟩
          next => cases leads
      | error failure =>
          cases leads
          have answered := Accounted.answer accounted token (.failed failure)
          split
          · exact Accounted.hold answered free ⟨nofun, nofun, fun _ _ _ => trivial⟩
          · exact Accounted.hold answered free
              ⟨nofun, nofun, fun row isRow live => (keeps.knows row isRow live).elim⟩
  | _ => cases leads

/-- The password is set and its epoch raised, with the row's token about to be revoked. -/
theorem accounted_setsPassword (accounted : Accounted extra state)
    (about : ∀ row ∈ state.row, row.live = true → ∀ token ∈ row.session.tokens.refresh,
      token ∈ extra ++ state.carried) : Accounted extra (state.setsPassword true) := by
  refine Accounted.waitNone (accounted.forget about).endEpoch rfl fun change isChange => ?_
  obtain rfl := Option.some.inj isChange
  exact Nat.le.refl

end

/-! ### Runs -/

/-- Every step that leaves no grant behind keeps the invariant. -/
theorem accounted_next {state after : State} {event : Event} (accounted : Accounted [] state)
    (leaves : leavesNone state event = true) (leads : next state event = some after) :
    Accounted [] after := by
  cases event with
  | start =>
      cases leads
      exact accounted.waitNone rfl ofNone
  | session rereads =>
      cases leads
      exact accounted.waitNone rfl ofNone
  | cancel =>
      cases leads
      exact accounted.cancel
  | signOut =>
      cases leads
      exact accounted.waitNone rfl ofNone
  | changePassword =>
      cases leads
      refine accounted.endEpoch.waitNone rfl fun change isChange => ?_
      obtain rfl := Option.some.inj isChange
      exact Nat.le.refl
  | endAccount =>
      cases leads
      refine accounted.endEpoch.waitNone rfl fun change isChange => ?_
      obtain rfl := Option.some.inj isChange
      exact Nat.le.refl
  | device task code =>
      simp only [next, Option.bind_eq_bind, Option.bind_eq_some_iff] at leads
      obtain ⟨⟨waiting, rest⟩, taken, leads⟩ := leads
      have inHand := (accounted.take taken).1
      cases waiting with
      | starts epoch =>
          cases code with
          | none =>
              cases leads
              exact inHand
          | some code =>
              cases leads
              exact Accounted.begin inHand code epoch
      | _ => cases leads
  | turn task =>
      simp only [next, Option.bind_eq_bind, Option.bind_eq_some_iff] at leads
      obtain ⟨⟨waiting, rest⟩, taken, leads⟩ := leads
      have inHand := (accounted.take taken).1
      cases waiting with
      | pollWaits code =>
          cases leads
          split
          · exact Accounted.waitNone inHand rfl ofNone
          · exact inHand
      | _ => cases leads
  | polled task answer =>
      simp only [next, Option.bind_eq_bind, Option.bind_eq_some_iff] at leads
      obtain ⟨⟨waiting, rest⟩, taken, leads⟩ := leads
      have inHand := (accounted.take taken).1
      cases waiting with
      | pollAsked code => exact accounted_polled inHand leads
      | _ => cases leads
  | userFound task user =>
      simp only [next, Option.bind_eq_bind, Option.bind_eq_some_iff] at leads
      obtain ⟨⟨waiting, rest⟩, taken, leads⟩ := leads
      have inHand := (accounted.take taken).1
      cases waiting with
      | pollUser code tokens =>
          cases leads
          cases user with
          | none => exact (Accounted.revoke inHand).settle code true
          | some user =>
              have owned : Accounted ((Waiting.finishWaits code ⟨user, tokens⟩).owned ++ []) rest :=
                inHand
              exact owned.wait ofNone
      | _ => cases leads
  | reread task user =>
      simp only [next, Option.bind_eq_bind, Option.bind_eq_some_iff] at leads
      obtain ⟨⟨waiting, rest⟩, taken, leads⟩ := leads
      have inHand := (accounted.take taken).1
      cases waiting with
      | rereadAsks session =>
          cases leads
          exact Accounted.waitNone inHand rfl ofNone
      | _ => cases leads
  | rereadDue task =>
      simp only [next, Option.bind_eq_bind, Option.bind_eq_some_iff] at leads
      obtain ⟨⟨waiting, rest⟩, taken, leads⟩ := leads
      have inHand := (accounted.take taken).1
      cases waiting with
      | rereadAsks session =>
          cases leads
          exact inHand
      | _ => cases leads
  | signOutCancels task =>
      simp only [next, Option.bind_eq_bind, Option.bind_eq_some_iff] at leads
      obtain ⟨⟨waiting, rest⟩, taken, leads⟩ := leads
      obtain ⟨inHand, raised, -⟩ := accounted.take taken
      cases waiting with
      | signOutBegins change =>
          cases leads
          refine (Accounted.cancel inHand).waitNone rfl ?_
          rw [cancel_epoch]
          exact raised
      | _ => cases leads
  | setsPassword task applied =>
      simp only [next, Option.bind_eq_bind, Option.bind_eq_some_iff] at leads
      obtain ⟨⟨waiting, rest⟩, taken, leads⟩ := leads
      have inHand := (accounted.take taken).1
      cases waiting with
      | setsPassword =>
          cases leads
          simp only [leavesNone, Bool.and_eq_true, Option.all_eq_true] at leaves
          obtain ⟨rfl, about⟩ := leaves
          refine accounted_setsPassword inHand fun row isRow live token isToken => ?_
          have isBefore : state.row = some row := by rw [← take_row taken, Option.mem_def.mp isRow]
          have held := about row isBefore
          simp only [live, Bool.not_true, Bool.false_or, Option.all_eq_true,
            decide_eq_true_eq] at held
          exact carried_take taken (held token isToken)
      | _ => cases leads
  | acquire task =>
      simp only [next, Option.bind_eq_bind, Option.bind_eq_some_iff] at leads
      obtain ⟨_, free, ⟨waiting, rest⟩, taken, leads⟩ := leads
      obtain ⟨inHand, raised, same⟩ := accounted.take taken
      have isFree : state.holder = none := by simpa [guard] using free
      exact accounted_acquire inHand raised (same.trans isFree) leads
  | read reading due client =>
      simp only [next, Option.bind_eq_bind, Option.bind_eq_some_iff] at leads
      obtain ⟨⟨holding, rest⟩, released, leads⟩ := leads
      obtain ⟨inHand, keeps, free⟩ := accounted.release released
      obtain ⟨found, isHolding, same⟩ := Option.map_eq_some_iff.mp released
      obtain ⟨rfl, rfl⟩ := Prod.mk.inj same
      simp only [leavesNone, isHolding, Option.all_some, Option.all_eq_true] at leaves
      exact accounted_read inHand keeps free leaves leads
  | write applied =>
      obtain rfl : applied = true := leaves
      simp only [next, Option.bind_eq_bind, Option.bind_eq_some_iff] at leads
      obtain ⟨⟨holding, rest⟩, released, leads⟩ := leads
      obtain ⟨inHand, keeps, free⟩ := accounted.release released
      exact accounted_write inHand keeps free leads
  | send =>
      simp only [next, Option.bind_eq_bind, Option.bind_eq_some_iff] at leads
      obtain ⟨⟨holding, rest⟩, released, leads⟩ := leads
      obtain ⟨inHand, keeps, free⟩ := accounted.release released
      exact accounted_send inHand keeps free leads
  | answer renewed =>
      simp only [next, Option.bind_eq_bind, Option.bind_eq_some_iff] at leads
      obtain ⟨⟨holding, rest⟩, released, leads⟩ := leads
      obtain ⟨inHand, keeps, free⟩ := accounted.release released
      exact accounted_answer inHand keeps free leads
  | drop task => cases leaves
  | dropHolder => cases leaves
  | deleteRow => cases leaves
  | crash => cases leaves

theorem accounted_initial {state : State} (starts : Initial state) : Accounted [] state := by
  obtain ⟨row, rfl⟩ := starts
  refine ⟨fun token isIssued => .inl ?_, fun _ _ => Nat.zero_le _, Nat.le.refl, nofun, nofun⟩
  obtain ⟨held, isRow, isToken⟩ := Option.bind_eq_some_iff.mp (Option.mem_toList.mp isIssued)
  exact ⟨held, isRow, isToken⟩

/-- In every run whose steps leave no grant behind, a password change ends the sign-ins before
it, and every grant is accounted for. -/
theorem passwordEnds_of_leavesNone {state : State}
    (reached : agent.Reached (fun state event => leavesNone state event = true) state) :
    PasswordEnds state := by
  have accounted : Accounted [] state := by
    refine reached.holds (fun _ => accounted_initial)
      fun before event after accounted leaves leads => ?_
    exact accounted_next accounted leaves leads
  exact accounted.passwordEnds

/-- A sign-in, a refresh, a second sign-in, and a password change with both its sign-outs. -/
def passwordRun : List Event :=
  [.start, .device 0 (some 7), .turn 0, .polled 0 (.done ⟨1, some 2⟩), .userFound 0 (some 3),
    .acquire 0, .read .fine false true, .write true,
    .session false, .acquire 0, .read .fine true true, .write true, .send,
    .answer (.ok ⟨4, some 5⟩), .write true,
    .start, .device 0 (some 8), .turn 0, .polled 0 (.done ⟨6, some 9⟩),
    .changePassword, .signOutCancels 0, .acquire 0, .read .fine false true, .write true,
    .setsPassword 0 true, .signOutCancels 0, .acquire 0, .read .fine false true,
    .userFound 0 (some 3), .acquire 0]

def passwordState : State :=
  (System.follow leavesNone next emptyState passwordRun).get (by decide)

theorem passwordEnds_passwordState :
    passwordState.issued = [9, 5, 2] ∧ passwordState.row = none ∧ passwordState.ended = 2 ∧
      PasswordEnds passwordState :=
  ⟨by decide, by decide, by decide,
    passwordEnds_of_leavesNone (System.reached_get leavesNone next passwordRun (reached_empty _) _)⟩

/-- The calls through the API, in a process that goes on running, with writes that succeed and
a row that is always read. -/
def calls : Event → Bool
  | .read reading _ _ => reading = .fine
  | .write applied | .setsPassword _ applied => applied
  | .drop _ | .dropHolder | .deleteRow | .crash => false
  | _ => true

/-- A password change whose sign-out ran, a sign-in that is stored before the password is set. -/
def droppedRun : List Event :=
  [.changePassword, .start, .signOutCancels 1, .device 1 (some 7), .acquire 1,
    .read .fine false true, .turn 1, .polled 0 (.done ⟨1, some 2⟩), .userFound 0 (some 3),
    .acquire 0, .read .fine false true, .write true, .setsPassword 0 true, .signOutCancels 0,
    .acquire 0, .read .fine false true]

def droppedState : State :=
  (System.follow (fun _ event => calls event) next emptyState droppedRun).get (by decide)

/-- The sign-in's token is let go of with the row, neither marked nor revoked. -/
theorem not_passwordEnds :
    ¬ ∀ state, agent.Reached (fun _ event => calls event = true) state → PasswordEnds state := by
  intro ends
  have reached := System.reached_get (fun _ event => calls event) next droppedRun
    (reached_empty _) (by decide)
  have grants := (ends droppedState reached).grants (by decide) (by decide) 2 (by decide)
  rcases grants with ⟨row, isRow, -⟩ | ⟨sent, isSent, -⟩ | dropped
  · have none : droppedState.row = none := by decide
    rw [none] at isRow
    cases isRow
  · have empty : droppedState.log = [] := by decide
    rw [empty] at isSent
    cases isSent
  · have empty : droppedState.dropped = [] := by decide
    rw [empty] at dropped
    cases dropped

end ServerBox.Monitor.LkCloud
