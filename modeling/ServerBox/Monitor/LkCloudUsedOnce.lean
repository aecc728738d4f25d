import ServerBox.Monitor.LkCloud
import Mathlib.Data.List.Nodup
import Mathlib.Data.List.Perm.Basic
import Mathlib.Data.Option.Basic

/-!
# A refresh token is used once

The mark in the row is set before a token is sent and cleared only with other tokens or
after an answer that left the token unused; what a sign-in was granted is in no row until
it is stored. So a token that may be used up is in no usable row, and goes nowhere again.
-/

namespace ServerBox.Monitor.LkCloud

open ServerBox.Std

/-! ### The property -/

/-- A token that may be used up never went to the identity provider again, and the row does
not hold it as a usable session. -/
structure UsedOnce (state : State) : Prop where
  sends : state.log.Pairwise fun later earlier =>
    later.token = earlier.token → earlier.spends = false
  row : ∀ row ∈ state.row, row.refreshing = false → ∀ sent ∈ state.log, sent.spends = true →
    row.session.tokens.refresh ≠ some sent.token

/-! ### The tokens in hand -/

/-- What is said of each value held is so where none is. -/
theorem ofNone {Held : Type} {holds : Held → Prop} : ∀ value ∈ (none : Option Held), holds value :=
  fun value held => absurd held (Option.not_mem_none value)

/-- The tokens a task was granted that are not stored yet. -/
def Waiting.owned : Waiting → List Nat
  | .pollUser _ tokens => tokens.refresh.toList
  | .finishWaits _ session => session.tokens.refresh.toList
  | _ => []

def Holding.owned : Holding → List Nat
  | .finishReads _ session _ | .finishStores _ session _ _ => session.tokens.refresh.toList
  | .sessionStores _ fresh _ => fresh.refresh.toList
  | _ => []

/-- The token the holder of the lock read from the row, before it is sent. -/
def Holding.unspent : Holding → Option Nat
  | .finishStores _ _ _ previous => previous
  | .sessionMarks session _ | .sessionSends session _ | .sessionClears session _ |
      .rereadStores session _ => session.tokens.refresh
  | .sessionForgets revokes | .signOutForgets revokes _ => revokes
  | _ => none

/-- The token the holder of the lock waits for an answer to. -/
def Holding.awaits : Holding → Option Nat
  | .sessionSent session _ => session.tokens.refresh
  | _ => none

/-- Whether the holder of the lock has marked the row. -/
def Holding.marked : Holding → Bool
  | .sessionSends _ _ | .sessionSent _ _ | .sessionStores _ _ _ | .sessionClears _ _ => true
  | _ => false

/-- The tokens the row has while the holder of the lock renews them. -/
def Holding.renews : Holding → Option Tokens
  | .sessionMarks session _ | .sessionSends session _ | .sessionSent session _ |
      .sessionClears session _ => some session.tokens
  | _ => none

namespace State

/-- The tokens granted and not stored yet. -/
def flying (state : State) : List Nat :=
  state.tasks.flatMap Waiting.owned ++ (state.holder.map Holding.owned).getD []

/-- Whether a token may be used up. -/
def Spent (state : State) (token : Nat) : Prop :=
  ∃ sent ∈ state.log, sent.token = token ∧ sent.spends = true

/-- A token granted that no task has in hand as a new one. -/
def Settled (state : State) (extra : List Nat) (token : Nat) : Prop :=
  token ∈ state.issued ∧ token ∉ extra ++ state.flying

end State

/-- What holds of the task with the lock. -/
structure HolderSound (extra : List Nat) (state : State) (holding : Holding) : Prop where
  unspent : ∀ token ∈ holding.unspent, state.Settled extra token ∧ ¬ state.Spent token
  awaits : ∀ token ∈ holding.awaits, state.Settled extra token ∧
    ∀ sent ∈ state.log, sent.token = token → sent.spends = true → sent.outcome = none
  marked : holding.marked = true → ∀ row ∈ state.row, row.refreshing = true
  renews : ∀ tokens ∈ holding.renews, ∀ row ∈ state.row, row.session.tokens = tokens

/-- The invariant, in the middle of a step that has some new tokens in hand. -/
structure Inv (extra : List Nat) (state : State) : Prop where
  sends : state.log.Pairwise fun later earlier =>
    later.token = earlier.token → earlier.spends = false
  logged : ∀ sent ∈ state.log, sent.token ∈ state.issued
  distinct : (extra ++ state.flying).Nodup
  unsent : ∀ token ∈ extra ++ state.flying, token ∈ state.issued ∧
    ∀ sent ∈ state.log, sent.token ≠ token
  row : ∀ row ∈ state.row, ∀ token ∈ row.session.tokens.refresh, state.Settled extra token ∧
    (row.refreshing = false → ¬ state.Spent token)
  holder : ∀ holding ∈ state.holder, HolderSound extra state holding

theorem Inv.usedOnce {extra : List Nat} {state : State} (inv : Inv extra state) :
    UsedOnce state where
  sends := inv.sends
  row row isRow usable sent isSent spends isToken :=
    (inv.row row isRow sent.token isToken).2 usable ⟨sent, isSent, rfl, spends⟩

/-! ### Tokens that change hands -/

section

variable {extra otherExtra : List Nat} {state other : State}

/-- What is in hand in one state is in hand in another, each token as often. -/
def Within (otherExtra : List Nat) (other : State) (extra : List Nat) (state : State) : Prop :=
  ∀ token, (otherExtra ++ other.flying).count token ≤ (extra ++ state.flying).count token

theorem Within.mem (within : Within otherExtra other extra state) {token : Nat}
    (held : token ∈ otherExtra ++ other.flying) : token ∈ extra ++ state.flying :=
  List.count_pos_iff.mp (Nat.lt_of_lt_of_le (List.count_pos_iff.mpr held) (within token))

theorem HolderSound.within {holding : Holding} (sound : HolderSound extra state holding)
    (row : other.row = state.row) (log : other.log = state.log)
    (issued : other.issued = state.issued) (within : Within otherExtra other extra state) :
    HolderSound otherExtra other holding where
  unspent token isToken :=
    have ⟨settled, unspent⟩ := sound.unspent token isToken
    ⟨⟨issued ▸ settled.1, fun held => settled.2 (within.mem held)⟩, by rwa [State.Spent, log]⟩
  awaits token isToken :=
    have ⟨settled, pending⟩ := sound.awaits token isToken
    ⟨⟨issued ▸ settled.1, fun held => settled.2 (within.mem held)⟩, by rwa [log]⟩
  marked := by
    rw [row]
    exact sound.marked
  renews := by
    rw [row]
    exact sound.renews

/-- Tokens that only change hands, or are let go of, keep the invariant. -/
theorem Inv.within (inv : Inv extra state) (row : other.row = state.row)
    (log : other.log = state.log) (issued : other.issued = state.issued)
    (within : Within otherExtra other extra state)
    (holder : ∀ holding ∈ other.holder, HolderSound otherExtra other holding) :
    Inv otherExtra other where
  sends := log ▸ inv.sends
  logged := by
    rw [log, issued]
    exact inv.logged
  distinct := List.nodup_iff_count_le_one.mpr fun token =>
    Nat.le_trans (within token) (List.nodup_iff_count_le_one.mp inv.distinct token)
  unsent token held := by
    rw [log, issued]
    exact inv.unsent token (within.mem held)
  row other isRow token isToken := by
    obtain ⟨settled, unspent⟩ := inv.row other (row ▸ isRow) token isToken
    refine ⟨⟨issued ▸ settled.1, fun held => settled.2 (within.mem held)⟩, ?_⟩
    rwa [State.Spent, log]
  holder := holder

theorem count_take {tasks : List Waiting} {index : Nat} {task : Waiting}
    (found : tasks[index]? = some task) (token : Nat) :
    (tasks.flatMap Waiting.owned).count token =
      task.owned.count token + ((tasks.eraseIdx index).flatMap Waiting.owned).count token := by
  induction tasks generalizing index with
  | nil => cases found
  | cons first rest inductionHypothesis =>
      cases index with
      | zero =>
          obtain rfl := Option.some.inj found
          simp
      | succ index =>
          have rest := inductionHypothesis found
          simp only [List.flatMap_cons, List.count_append, List.eraseIdx_cons_succ] at rest ⊢
          omega

/-- One of the waiting tasks taken out, its tokens in hand. -/
theorem Inv.take (inv : Inv extra state) {index : Nat} {task : Waiting} {rest : State}
    (taken : state.take index = some (task, rest)) :
    Inv (task.owned ++ extra) rest ∧ rest.holder = state.holder := by
  obtain ⟨found, isTask, same⟩ := Option.map_eq_some_iff.mp taken
  obtain ⟨rfl, rfl⟩ := Prod.mk.inj same
  have within : Within (found.owned ++ extra) { state with tasks := state.tasks.eraseIdx index }
      extra state := by
    intro token
    have counted := count_take isTask token
    simp only [State.flying, List.count_append]
    omega
  refine ⟨inv.within rfl rfl rfl within fun holding isHolding => ?_, rfl⟩
  exact (inv.holder holding isHolding).within rfl rfl rfl within

/-- A task that goes on to wait keeps the tokens that were in hand for it. -/
theorem Inv.wait {task : Waiting} (inv : Inv (task.owned ++ extra) state) :
    Inv extra (state.wait task) := by
  have within : Within extra (state.wait task) (task.owned ++ extra) state := by
    intro token
    simp only [State.flying, State.wait, List.count_append, List.flatMap_cons]
    omega
  exact inv.within rfl rfl rfl within fun holding isHolding =>
    (inv.holder holding isHolding).within rfl rfl rfl within

/-- The lock let go, what its holder had in hand still there. -/
theorem Inv.release (inv : Inv extra state) {holding : Holding} {rest : State}
    (released : state.release = some (holding, rest)) :
    Inv (holding.owned ++ extra) rest ∧ HolderSound (holding.owned ++ extra) rest holding ∧
      rest.holder = none := by
  obtain ⟨found, isHolding, same⟩ := Option.map_eq_some_iff.mp released
  obtain ⟨rfl, rfl⟩ := Prod.mk.inj same
  have within : Within (found.owned ++ extra) { state with holder := none } extra state := by
    intro token
    simp only [State.flying, isHolding, Option.map_some, Option.map_none, Option.getD_some,
      Option.getD_none, List.count_append, List.count_nil]
    omega
  exact ⟨inv.within rfl rfl rfl within nofun,
    (inv.holder found isHolding).within rfl rfl rfl within, rfl⟩

/-- A task that holds the lock keeps the tokens that were in hand for it. -/
theorem Inv.hold {holding : Holding} (inv : Inv (holding.owned ++ extra) state)
    (free : state.holder = none) (sound : HolderSound (holding.owned ++ extra) state holding) :
    Inv extra (state.hold holding) := by
  have within : Within extra (state.hold holding) (holding.owned ++ extra) state := by
    intro token
    simp only [State.flying, State.hold, free, Option.map_some, Option.map_none, Option.getD_some,
      Option.getD_none, List.count_append, List.count_nil]
    omega
  refine inv.within rfl rfl rfl within fun other isHolding => ?_
  obtain rfl := Option.some.inj isHolding
  exact sound.within rfl rfl rfl within

/-- Tokens that are let go of. -/
theorem Inv.lose {lost : List Nat} (inv : Inv (lost ++ extra) state) : Inv extra state := by
  have within : Within extra state (lost ++ extra) state := by
    intro token
    simp only [List.count_append]
    omega
  exact inv.within rfl rfl rfl within fun holding isHolding =>
    (inv.holder holding isHolding).within rfl rfl rfl within

/-- New tokens are in hand once they were granted. -/
theorem Inv.issue (inv : Inv extra state) {tokens : Tokens} (fresh : state.fresh tokens = true) :
    Inv (tokens.refresh.toList ++ extra) (state.issue tokens) := by
  cases isToken : tokens.refresh with
  | none => simpa [State.issue, isToken] using inv
  | some new =>
      have unknown : new ∉ state.issued := by simpa [State.fresh, isToken] using fresh
      have settled : ∀ token, state.Settled extra token →
          (state.issue tokens).Settled ([new] ++ extra) token := by
        rintro token ⟨isIssued, apart⟩
        refine ⟨List.mem_append_right _ isIssued, fun held => ?_⟩
        rcases List.mem_cons.mp held with rfl | inHand
        · exact unknown isIssued
        · exact apart inHand
      have same : (state.issue tokens).issued = new :: state.issued := by
        simp [State.issue, isToken]
      refine
        { sends := inv.sends
          logged := fun sent isSent => List.mem_append_right _ (inv.logged sent isSent)
          distinct := ?_
          unsent := ?_
          row := fun row isRow token isToken => ?_
          holder := fun holding isHolding => ?_ }
      · refine List.nodup_cons.mpr ⟨fun held => ?_, inv.distinct⟩
        exact unknown (inv.unsent new held).1
      · rw [same]
        intro token held
        rcases List.mem_cons.mp held with rfl | inHand
        · exact ⟨List.mem_cons_self, fun sent isSent equal =>
            unknown (equal ▸ inv.logged sent isSent)⟩
        · exact ⟨List.mem_cons_of_mem _ (inv.unsent token inHand).1, (inv.unsent token inHand).2⟩
      · exact ⟨settled token (inv.row row isRow token isToken).1,
          (inv.row row isRow token isToken).2⟩
      · have sound := inv.holder holding isHolding
        exact
          { unspent := fun token isToken =>
              ⟨settled token (sound.unspent token isToken).1, (sound.unspent token isToken).2⟩
            awaits := fun token isToken =>
              ⟨settled token (sound.awaits token isToken).1, (sound.awaits token isToken).2⟩
            marked := sound.marked
            renews := sound.renews }

/-! ### What goes to the identity provider -/

theorem spent_cons {sent : Sent} {log : List Sent} (token : Nat) :
    (∃ other ∈ sent :: log, other.token = token ∧ other.spends = true) ↔
      (sent.token = token ∧ sent.spends = true) ∨
        ∃ other ∈ log, other.token = token ∧ other.spends = true := by
  simp only [List.mem_cons, or_and_right, exists_or, exists_eq_left]

/-- A token that is granted, in no task's hand and not used up may be revoked. -/
theorem Inv.revokeSettled (inv : Inv extra state) {token : Option Nat}
    (sound : ∀ each ∈ token, state.Settled extra each ∧ ¬ state.Spent each) :
    Inv extra (state.revoke token) := by
  cases token with
  | none => exact inv
  | some token =>
      obtain ⟨settled, unspent⟩ := sound token rfl
      have same : ∀ each, (state.revoke (some token)).Spent each ↔ state.Spent each := by
        intro each
        refine (spent_cons each).trans (or_iff_right ?_)
        rintro ⟨-, spends⟩
        cases spends
      exact
        { sends := by
            refine List.pairwise_cons.mpr ⟨fun earlier isEarlier equal => ?_, inv.sends⟩
            exact Bool.eq_false_iff.mpr fun spends =>
              unspent ⟨earlier, isEarlier, equal.symm, spends⟩
          logged := by
            rw [State.revoke, List.forall_mem_cons]
            exact ⟨settled.1, inv.logged⟩
          distinct := inv.distinct
          unsent := fun each held => by
            refine ⟨(inv.unsent each held).1, ?_⟩
            rw [State.revoke, List.forall_mem_cons]
            refine ⟨fun equal => ?_, (inv.unsent each held).2⟩
            obtain rfl : token = each := equal
            exact settled.2 held
          row := fun row isRow each isToken => by
            rw [same]
            exact inv.row row isRow each isToken
          holder := fun holding isHolding => by
            have held := inv.holder holding isHolding
            exact
              { unspent := fun each isToken => by
                  rw [same]
                  exact held.unspent each isToken
                awaits := fun each isToken => by
                  refine ⟨(held.awaits each isToken).1, ?_⟩
                  rw [State.revoke, List.forall_mem_cons]
                  refine ⟨fun _ spends => ?_, (held.awaits each isToken).2⟩
                  cases spends
                marked := held.marked
                renews := held.renews } }

/-- A token in hand is not used up. -/
theorem Inv.not_spent_of_owned {token : Option Nat} (inv : Inv (token.toList ++ extra) state) :
    ∀ each ∈ token, state.Settled extra each ∧ ¬ state.Spent each := by
  intro each isToken
  obtain rfl := isToken
  have inHand : each ∈ ((some each).toList ++ extra) ++ state.flying := List.mem_cons_self
  obtain ⟨isIssued, unsent⟩ := inv.unsent each inHand
  refine ⟨⟨isIssued, (List.nodup_cons.mp inv.distinct).1⟩, ?_⟩
  rintro ⟨sent, isSent, equal, -⟩
  exact unsent sent isSent equal

/-- A token in hand may be revoked, and is let go of. -/
theorem Inv.revoke {token : Option Nat} (inv : Inv (token.toList ++ extra) state) :
    Inv extra (state.revoke token) := by
  exact inv.lose.revokeSettled inv.not_spent_of_owned

/-- A token may be sent when the row it is in is marked. -/
theorem Inv.send (inv : Inv extra state) (free : state.holder = none) {token : Nat}
    (settled : state.Settled extra token) (unspent : ¬ state.Spent token)
    (marked : ∀ row ∈ state.row, row.refreshing = true) :
    Inv extra (state.send token) := by
  exact
    { sends := by
        refine List.pairwise_cons.mpr ⟨fun earlier isEarlier equal => ?_, inv.sends⟩
        exact Bool.eq_false_iff.mpr fun spends =>
          unspent ⟨earlier, isEarlier, equal.symm, spends⟩
      logged := by
        rw [State.send, List.forall_mem_cons]
        exact ⟨settled.1, inv.logged⟩
      distinct := inv.distinct
      unsent := fun each held => by
        refine ⟨(inv.unsent each held).1, ?_⟩
        rw [State.send, List.forall_mem_cons]
        refine ⟨fun equal => ?_, (inv.unsent each held).2⟩
        obtain rfl : token = each := equal
        exact settled.2 held
      row := fun row isRow each isToken => by
        refine ⟨(inv.row row isRow each isToken).1, fun usable => ?_⟩
        rw [marked row isRow] at usable
        cases usable
      holder := fun holding isHolding => by
        rw [State.send, free] at isHolding
        cases isHolding }

/-- The answer given to what was sent and not answered. -/
def answered (token : Nat) (outcome : Outcome) (sent : Sent) : Sent :=
  if sent.token = token && !sent.revokes && sent.outcome.isNone then
    { sent with outcome := some outcome }
  else sent

theorem answered_token (token : Nat) (outcome : Outcome) (sent : Sent) :
    (answered token outcome sent).token = sent.token := by
  unfold answered
  split <;> rfl

/-- What an answer changes was pending, so it may have spent its token until then. -/
theorem spends_of_answered {token : Nat} {outcome : Outcome} {sent : Sent}
    (spends : (answered token outcome sent).spends = true) : sent.spends = true := by
  unfold answered at spends
  split at spends
  next pending =>
      simp only [Bool.and_eq_true, decide_eq_true_eq, Bool.not_eq_true', Option.isNone_iff_eq_none]
        at pending
      simp [Sent.spends, pending]
  next => exact spends

theorem Inv.answer (inv : Inv extra state) (free : state.holder = none) (token : Nat)
    (outcome : Outcome) : Inv extra (state.answer token outcome) := by
  have log : (state.answer token outcome).log = state.log.map (answered token outcome) := rfl
  have spent : ∀ each, (state.answer token outcome).Spent each → state.Spent each := by
    rintro each ⟨sent, isSent, equal, spends⟩
    obtain ⟨before, isBefore, rfl⟩ := List.mem_map.mp (log ▸ isSent)
    exact ⟨before, isBefore, (answered_token ..).symm.trans equal, spends_of_answered spends⟩
  exact
    { sends := by
        rw [log, List.pairwise_map]
        refine inv.sends.imp fun {later earlier} each equal => ?_
        rw [answered_token, answered_token] at equal
        exact Bool.eq_false_iff.mpr fun spends =>
          Bool.eq_false_iff.mp (each equal) (spends_of_answered spends)
      logged := by
        rw [log, List.forall_mem_map]
        intro sent isSent
        rw [answered_token]
        exact inv.logged sent isSent
      distinct := inv.distinct
      unsent := fun each held => by
        refine ⟨(inv.unsent each held).1, ?_⟩
        rw [log, List.forall_mem_map]
        intro sent isSent
        rw [answered_token]
        exact (inv.unsent each held).2 sent isSent
      row := fun row isRow each isToken =>
        ⟨(inv.row row isRow each isToken).1,
          fun usable isSpent => (inv.row row isRow each isToken).2 usable (spent each isSpent)⟩
      holder := fun holding isHolding => by
        rw [State.answer, free] at isHolding
        cases isHolding }

/-- Once its answer left a token unused, nothing that went out spends it. -/
theorem not_spent_answer {token : Nat} {outcome : Outcome} (keeps : outcome.keeps = true)
    (pending : ∀ sent ∈ state.log, sent.token = token → sent.spends = true → sent.outcome = none) :
    ¬ (state.answer token outcome).Spent token := by
  rintro ⟨sent, isSent, equal, spends⟩
  obtain ⟨before, isBefore, rfl⟩ := List.mem_map.mp isSent
  have sameToken := (answered_token token outcome before).symm.trans equal
  have wasSpending : before.spends = true := spends_of_answered spends
  have isPending := pending before isBefore sameToken wasSpending
  have refreshes : before.revokes = false := by
    simpa [Sent.spends, isPending] using wasSpending
  simp [sameToken, refreshes, isPending, Sent.spends, keeps] at spends

/-! ### What happens to the row -/

/-- A change of what the invariant does not speak of. -/
theorem Inv.aside (inv : Inv extra state) (epoch : Nat) (signIn : Option SignIn)
    (dropped : List Nat) (ended : Nat) :
    Inv extra { state with epoch, signIn, dropped, ended } :=
  ⟨inv.sends, inv.logged, inv.distinct, inv.unsent, inv.row, fun holding isHolding =>
    have sound := inv.holder holding isHolding
    ⟨sound.unspent, sound.awaits, sound.marked, sound.renews⟩⟩

/-- A row that is gone harms nothing. -/
theorem Inv.forget (inv : Inv extra state) : Inv extra state.forget where
  sends := inv.sends
  logged := inv.logged
  distinct := inv.distinct
  unsent := inv.unsent
  row := nofun
  holder holding isHolding :=
    have sound := inv.holder holding isHolding
    ⟨sound.unspent, sound.awaits, nofun, nofun⟩

/-- A new row may hold tokens that are in no hand and not used up. -/
theorem Inv.replaceRow (inv : Inv extra state) (free : state.holder = none) (row : Row)
    (sound : ∀ token ∈ row.session.tokens.refresh,
      state.Settled extra token ∧ ¬ state.Spent token) :
    Inv extra (state.replaceRow (some row)) where
  sends := inv.sends
  logged := inv.logged
  distinct := inv.distinct
  unsent := inv.unsent
  row other isRow token isToken := by
    obtain rfl := Option.some.inj isRow
    exact ⟨(sound token isToken).1, fun _ => (sound token isToken).2⟩
  holder holding isHolding := by
    rw [State.replaceRow, free] at isHolding
    cases isHolding

theorem Inv.mark (inv : Inv extra state) (free : state.holder = none) {refreshing : Bool}
    (sound : refreshing = false → ∀ row ∈ state.row, ∀ token ∈ row.session.tokens.refresh,
      ¬ state.Spent token) : Inv extra (state.mark refreshing) where
  sends := inv.sends
  logged := inv.logged
  distinct := inv.distinct
  unsent := inv.unsent
  row other isRow token isToken := by
    obtain ⟨row, isBefore, rfl⟩ := Option.map_eq_some_iff.mp isRow
    exact ⟨(inv.row row isBefore token isToken).1,
      fun usable => sound usable row isBefore token isToken⟩
  holder holding isHolding := by
    rw [State.mark, free] at isHolding
    cases isHolding

/-! ### The steps of the tasks -/

theorem Settled.of_append {lost : List Nat} {token : Nat}
    (settled : state.Settled (lost ++ extra) token) : state.Settled extra token :=
  ⟨settled.1, fun held => settled.2
    (List.mem_append.mpr ((List.mem_append.mp held).imp (List.mem_append_right _) id))⟩

/-- A session that was read is that of a row that is not marked. -/
theorem row_of_load {row : Option Row} {reading : Reading} {session : Session}
    (loaded : load row reading = .ok (some session)) :
    ∃ stored, row = some stored ∧ stored.refreshing = false ∧ stored.session = session := by
  cases row with
  | none => cases loaded
  | some stored =>
      cases marked : stored.refreshing with
      | true => cases reading <;> simp [load, marked] at loaded
      | false =>
          refine ⟨stored, rfl, marked, ?_⟩
          cases reading <;> simp [load, marked] at loaded
          exact loaded

/-- The refresh token of one that cannot be read back is that of a row that is not marked. -/
theorem row_of_broken {row : Option Row} {reading : Reading} {token : Nat}
    (loaded : load row reading = .error (some token)) :
    ∃ stored, row = some stored ∧ stored.refreshing = false ∧
      stored.session.tokens.refresh = some token := by
  cases row with
  | none => cases loaded
  | some stored =>
      cases marked : stored.refreshing with
      | true => cases reading <;> simp [load, marked] at loaded
      | false =>
          refine ⟨stored, rfl, marked, ?_⟩
          cases reading <;> simp [load, marked] at loaded
          exact loaded

/-- The token of a row that is not marked is settled and not used up. -/
theorem Inv.unspent_of_row (inv : Inv extra state) {row : Row} (isRow : state.row = some row)
    (usable : row.refreshing = false) :
    ∀ token ∈ row.session.tokens.refresh, state.Settled extra token ∧ ¬ state.Spent token :=
  fun token isToken =>
    have ⟨settled, unspent⟩ := inv.row row isRow token isToken
    ⟨settled, unspent usable⟩

theorem settle_eq (state : State) (code : Nat) (failed : Bool) :
    ∃ signIn, state.settle code failed = { state with signIn } := by
  unfold State.settle
  split
  · exact ⟨state.signIn, rfl⟩
  next signIn found =>
    split
    · exact ⟨state.signIn, rfl⟩
    · split
      · exact ⟨_, rfl⟩
      · exact ⟨_, rfl⟩

theorem Inv.settle (inv : Inv extra state) (code : Nat) (failed : Bool) :
    Inv extra (state.settle code failed) := by
  obtain ⟨signIn, same⟩ := settle_eq state code failed
  rw [same]
  exact inv.aside state.epoch signIn state.dropped state.ended

theorem Inv.cancel (inv : Inv extra state) : Inv extra state.cancel := by
  unfold State.cancel
  split
  · exact inv
  · exact inv.aside state.epoch none state.dropped state.ended

theorem Inv.endEpoch (inv : Inv extra state) : Inv extra state.endEpoch := by
  simp only [State.endEpoch]
  split
  · exact inv.aside (state.epoch + 1) state.signIn state.dropped state.ended
  · exact inv.aside (state.epoch + 1) none state.dropped state.ended

/-- A task that waits with no new tokens. -/
theorem Inv.waitNone (inv : Inv extra state) {task : Waiting} (none : task.owned = []) :
    Inv extra (state.wait task) := by
  refine Inv.wait ?_
  rwa [none]

theorem Inv.begin (inv : Inv extra state) (code epoch : Nat) :
    Inv extra (state.begin code epoch) := by
  unfold State.begin
  split
  · exact inv
  · split
    · exact inv
    · exact (inv.aside state.epoch (some ⟨code, false, false, epoch⟩) state.dropped
        state.ended).waitNone rfl

theorem Inv.sessionEnds (inv : Inv extra state) (session : Session) (rereads : Bool) :
    Inv extra (state.sessionEnds session rereads) := by
  unfold State.sessionEnds
  split
  · exact inv.waitNone rfl
  · exact inv

theorem Inv.signOutEnds (inv : Inv extra state) (change : Option Change) :
    Inv extra (state.signOutEnds change) := by
  unfold State.signOutEnds
  split
  · exact inv.waitNone rfl
  · exact inv

theorem Inv.signedOut (inv : Inv extra state) (change : Option Change) :
    Inv extra (state.signedOut change) :=
  (inv.aside state.epoch state.signIn state.dropped
    (max state.ended ((change.map Change.epoch).getD 0))).signOutEnds change

/-- A holder of the lock with one token it read, and nothing of its own. -/
theorem Inv.holdUnspent (inv : Inv extra state) (free : state.holder = none) {holding : Holding}
    (owned : holding.owned = []) (awaits : holding.awaits = none)
    (marked : holding.marked = false) (renews : holding.renews = none)
    (unspent : ∀ token ∈ holding.unspent, state.Settled extra token ∧ ¬ state.Spent token) :
    Inv extra (state.hold holding) := by
  refine Inv.hold (by rwa [owned]) free ?_
  rw [owned]
  exact
    { unspent
      awaits := by
        rw [awaits]
        nofun
      marked := by
        rw [marked]
        nofun
      renews := by
        rw [renews]
        nofun }

theorem inv_polled (inv : Inv extra state) {code : Nat} {answer : State.Poll} {after : State}
    (leads : state.polled code answer = some after) : Inv extra after := by
  cases answer with
  | pending =>
      cases leads
      exact inv.waitNone rfl
  | done tokens =>
      simp only [State.polled] at leads
      split at leads
      · cases leads
      next known =>
        have isFresh : state.fresh tokens = true := by simpa using known
        split at leads
        · cases leads
          refine Inv.wait ?_
          have claimed := (inv.issue isFresh).aside state.epoch
            (state.signIn.map fun signIn => { signIn with finishing := true })
            state.dropped state.ended
          exact claimed
        · cases leads
          exact (inv.issue isFresh).revoke
  | failed =>
      cases leads
      exact inv.settle code true

theorem inv_acquire {task : Waiting} {after : State} (inv : Inv (task.owned ++ extra) state)
    (free : state.holder = none) (leads : acquire state task = some after) : Inv extra after := by
  cases task with
  | finishWaits code session =>
      cases leads
      unfold State.finishAcquires
      split
      · exact (inv.settle code true).revoke
      · exact Inv.hold inv free ⟨nofun, nofun, nofun, nofun⟩
  | sessionWaits rereads =>
      cases leads
      exact inv.holdUnspent free rfl rfl rfl rfl nofun
  | rereadWaits session user =>
      cases leads
      exact inv.holdUnspent free rfl rfl rfl rfl nofun
  | signOutWaits change =>
      cases leads
      exact inv.holdUnspent free rfl rfl rfl rfl nofun
  | _ => cases leads

/-- What a holder of the lock is left with after it read the row. -/
theorem inv_read {holding : Holding} {reading : Reading} {due client : Bool} {after : State}
    (inv : Inv (holding.owned ++ extra) state) (free : state.holder = none)
    (leads : read state reading due client holding = some after) : Inv extra after := by
  cases holding with
  | finishReads code session asked =>
      cases leads
      refine Inv.hold inv free ⟨fun token isToken => ?_, nofun, nofun, nofun⟩
      have ofRow : ∃ row, state.row = some row ∧ row.refreshing = false ∧
          row.session.tokens.refresh = some token := by
        simp only [Holding.unspent, State.previous] at isToken
        split at isToken
        next session loaded =>
          obtain ⟨session, rfl, isRefresh⟩ := Option.bind_eq_some_iff.mp isToken
          obtain ⟨row, isRow, usable, rfl⟩ := row_of_load loaded
          exact ⟨row, isRow, usable, isRefresh⟩
        next refresh loaded =>
          obtain rfl := isToken
          exact row_of_broken loaded
      obtain ⟨row, isRow, usable, isRefresh⟩ := ofRow
      exact inv.unspent_of_row isRow usable token isRefresh
  | sessionReads rereads =>
      cases leads
      unfold State.sessionReads
      split
      next refresh loaded =>
        refine inv.holdUnspent free rfl rfl rfl rfl fun token isToken => ?_
        obtain rfl := isToken
        obtain ⟨row, isRow, usable, isRefresh⟩ := row_of_broken loaded
        exact inv.unspent_of_row isRow usable token isRefresh
      next => exact inv
      next session loaded =>
        obtain ⟨row, isRow, usable, rfl⟩ := row_of_load loaded
        split
        · exact inv.sessionEnds _ rereads
        · split
          · exact inv.holdUnspent free rfl rfl rfl rfl nofun
          · split
            · refine Inv.hold inv free ⟨inv.unspent_of_row isRow usable, nofun, nofun, ?_⟩
              intro tokens isTokens other isOther
              obtain rfl := Option.some.inj (isRow.symm.trans isOther)
              exact Option.some.inj isTokens
            · exact inv
  | rereadReads session user =>
      cases leads
      unfold State.rereadReads
      split
      next row stored found isRow loaded =>
        split
        next same =>
          obtain ⟨read, isRead, usable, isStored⟩ := row_of_load loaded
          refine inv.holdUnspent free rfl rfl rfl rfl fun token isToken => ?_
          refine inv.unspent_of_row isRead usable token ?_
          rw [isStored, same.1]
          exact isToken
        next => exact inv
      next => exact inv
  | signOutReads change =>
      cases leads
      unfold State.signOutReads
      split
      next => exact inv.signedOut change
      next session loaded =>
        obtain ⟨row, isRow, usable, rfl⟩ := row_of_load loaded
        exact inv.holdUnspent free rfl rfl rfl rfl (inv.unspent_of_row isRow usable)
      next refresh loaded =>
        refine inv.holdUnspent free rfl rfl rfl rfl fun token isToken => ?_
        obtain rfl := isToken
        obtain ⟨row, isRow, usable, isRefresh⟩ := row_of_broken loaded
        exact inv.unspent_of_row isRow usable token isRefresh
  | _ => cases leads

/-- What a holder of the lock is left with after it wrote. -/
theorem inv_write {holding : Holding} {applied : Bool} {after : State}
    (inv : Inv (holding.owned ++ extra) state)
    (sound : HolderSound (holding.owned ++ extra) state holding) (free : state.holder = none)
    (leads : write state applied holding = some after) : Inv extra after := by
  cases holding with
  | finishStores code session asked previous =>
      cases leads
      simp only [State.finishStores]
      split
      · have stored := Inv.replaceRow inv.lose free ⟨session, false, asked⟩
          inv.not_spent_of_owned
        have settled := stored.settle code false
        split
        · refine settled.revokeSettled fun token isToken => ?_
          obtain ⟨isSettled, unspent⟩ := sound.unspent token isToken
          obtain ⟨signIn, same⟩ := settle_eq
            (state.replaceRow (some ⟨session, false, asked⟩)) code false
          rw [same]
          exact ⟨Settled.of_append isSettled, unspent⟩
        · exact settled
      · exact (inv.settle code true).revoke
  | sessionMarks session rereads =>
      cases leads
      unfold State.sessionMarks
      split
      · have marked : Inv extra (state.mark true) := Inv.mark inv free nofun
        refine Inv.hold marked free
          (?_ : HolderSound extra (state.mark true) (.sessionSends session rereads))
        refine ⟨sound.unspent, nofun, fun _ row isRow => ?_, fun tokens isTokens row isRow => ?_⟩
        · obtain ⟨before, -, rfl⟩ := Option.map_eq_some_iff.mp isRow
          rfl
        · obtain ⟨before, isBefore, rfl⟩ := Option.map_eq_some_iff.mp isRow
          exact sound.renews tokens isTokens before isBefore
      · exact Inv.sessionEnds inv session rereads
  | sessionStores session fresh rereads =>
      cases leads
      have forgets : Inv extra (state.hold (.sessionForgets fresh.refresh)) :=
        inv.lose.holdUnspent free rfl rfl rfl rfl inv.not_spent_of_owned
      unfold State.sessionStores State.storeRefresh
      cases isRow : state.row with
      | none => simpa using forgets
      | some row =>
          cases marked : row.refreshing with
          | false => simpa [marked] using forgets
          | true =>
              cases applied with
              | false => simpa [marked] using forgets
              | true =>
                  have stored := Inv.replaceRow inv.lose free
                    ⟨{ row.session with tokens := fresh }, false, row.asked⟩ inv.not_spent_of_owned
                  simpa [marked] using stored.sessionEnds { session with tokens := fresh } rereads
  | sessionClears session rereads =>
      cases leads
      cases applied with
      | false => exact Inv.sessionEnds inv session rereads
      | true =>
          refine Inv.sessionEnds (inv.mark free fun _ row isRow token isToken => ?_) session rereads
          rw [sound.renews session.tokens rfl row isRow] at isToken
          exact (sound.unspent token isToken).2
  | sessionForgets revokes =>
      cases leads
      cases applied with
      | false => exact Inv.revokeSettled inv sound.unspent
      | true =>
          have forgotten : Inv extra state.forget := Inv.forget inv
          exact forgotten.revokeSettled sound.unspent
  | rereadStores session asked =>
      cases leads
      cases applied with
      | false => exact inv
      | true => exact Inv.replaceRow inv free ⟨session, false, asked⟩ sound.unspent
  | signOutForgets revokes change =>
      cases leads
      cases applied with
      | false =>
          exact Inv.signOutEnds inv change
      | true =>
          have forgotten : Inv extra state.forget := Inv.forget inv
          have revoked := forgotten.revokeSettled sound.unspent
          have commutes : (state.forget.signedOut change).revoke revokes =
              (state.forget.revoke revokes).signedOut change := by
            cases revokes with
            | none => rfl
            | some token =>
                unfold State.signedOut State.signOutEnds
                split <;> rfl
          simp only [State.signOutForgets, if_pos, commutes]
          exact revoked.signedOut change
  | _ => cases leads

theorem inv_send {holding : Holding} {after : State} (inv : Inv (holding.owned ++ extra) state)
    (sound : HolderSound (holding.owned ++ extra) state holding) (free : state.holder = none)
    (leads : send state holding = some after) : Inv extra after := by
  cases holding with
  | sessionSends session rereads =>
      obtain ⟨token, isToken, rfl⟩ := Option.map_eq_some_iff.mp leads
      obtain ⟨settled, unspent⟩ := sound.unspent token isToken
      have sent := Inv.send inv free settled unspent (sound.marked rfl)
      refine Inv.hold sent free ⟨nofun, fun other isOther => ?_, sound.marked, sound.renews⟩
      obtain rfl := Option.some.inj (isToken.symm.trans isOther)
      refine ⟨settled, ?_⟩
      rw [State.send, List.forall_mem_cons]
      exact ⟨fun _ _ => rfl, fun other isSent equal spends =>
        absurd ⟨other, isSent, equal, spends⟩ unspent⟩
  | _ => cases leads

theorem inv_answer {holding : Holding} {renewed : Except Failure Tokens} {after : State}
    (inv : Inv (holding.owned ++ extra) state)
    (sound : HolderSound (holding.owned ++ extra) state holding) (free : state.holder = none)
    (leads : answer state renewed holding = some after) : Inv extra after := by
  cases holding with
  | sessionSent session rereads =>
      obtain ⟨token, isToken, leads⟩ := Option.bind_eq_some_iff.mp leads
      cases renewed with
      | ok tokens =>
          dsimp only at leads
          split at leads
          next isFresh =>
            cases leads
            have issued := (Inv.answer inv free token .renewed).issue isFresh
            exact issued.hold free ⟨nofun, nofun, sound.marked, nofun⟩
          next => cases leads
      | error failure =>
          cases leads
          have answered := Inv.answer inv free token (.failed failure)
          split
          next keeps =>
            refine Inv.hold answered free
              ⟨fun other isOther => ?_, nofun, sound.marked, sound.renews⟩
            obtain rfl := Option.some.inj (isToken.symm.trans isOther)
            obtain ⟨settled, pending⟩ := sound.awaits token isToken
            exact ⟨settled, not_spent_answer keeps pending⟩
          next => exact answered.holdUnspent free rfl rfl rfl rfl nofun
  | _ => cases leads

end

/-! ### Runs -/

/-- Every step keeps the invariant. -/
theorem inv_next {state after : State} {event : Event} (inv : Inv [] state)
    (leads : next state event = some after) : Inv [] after := by
  cases event with
  | start =>
      cases leads
      exact inv.waitNone rfl
  | session rereads =>
      cases leads
      exact inv.waitNone rfl
  | cancel =>
      cases leads
      exact inv.cancel
  | signOut =>
      cases leads
      exact inv.waitNone rfl
  | changePassword =>
      cases leads
      exact inv.endEpoch.waitNone rfl
  | endAccount =>
      cases leads
      exact inv.endEpoch.waitNone rfl
  | device task code =>
      simp only [next, Option.bind_eq_bind, Option.bind_eq_some_iff] at leads
      obtain ⟨⟨waiting, rest⟩, taken, leads⟩ := leads
      have inHand := (inv.take taken).1
      cases waiting with
      | starts epoch =>
          cases code with
          | none =>
              cases leads
              exact inHand
          | some code =>
              cases leads
              exact Inv.begin inHand code epoch
      | _ => cases leads
  | turn task =>
      simp only [next, Option.bind_eq_bind, Option.bind_eq_some_iff] at leads
      obtain ⟨⟨waiting, rest⟩, taken, leads⟩ := leads
      have inHand := (inv.take taken).1
      cases waiting with
      | pollWaits code =>
          cases leads
          split
          · exact Inv.waitNone inHand rfl
          · exact inHand
      | _ => cases leads
  | polled task answer =>
      simp only [next, Option.bind_eq_bind, Option.bind_eq_some_iff] at leads
      obtain ⟨⟨waiting, rest⟩, taken, leads⟩ := leads
      have inHand := (inv.take taken).1
      cases waiting with
      | pollAsked code => exact inv_polled inHand leads
      | _ => cases leads
  | userFound task user =>
      simp only [next, Option.bind_eq_bind, Option.bind_eq_some_iff] at leads
      obtain ⟨⟨waiting, rest⟩, taken, leads⟩ := leads
      have inHand := (inv.take taken).1
      cases waiting with
      | pollUser code tokens =>
          cases leads
          cases user with
          | none => exact (Inv.revoke inHand).settle code true
          | some user =>
              have owned : Inv ((Waiting.finishWaits code ⟨user, tokens⟩).owned ++ []) rest :=
                inHand
              exact owned.wait
      | _ => cases leads
  | reread task user =>
      simp only [next, Option.bind_eq_bind, Option.bind_eq_some_iff] at leads
      obtain ⟨⟨waiting, rest⟩, taken, leads⟩ := leads
      have inHand := (inv.take taken).1
      cases waiting with
      | rereadAsks session =>
          cases leads
          exact Inv.waitNone inHand rfl
      | _ => cases leads
  | rereadDue task =>
      simp only [next, Option.bind_eq_bind, Option.bind_eq_some_iff] at leads
      obtain ⟨⟨waiting, rest⟩, taken, leads⟩ := leads
      have inHand := (inv.take taken).1
      cases waiting with
      | rereadAsks session =>
          cases leads
          exact inHand
      | _ => cases leads
  | signOutCancels task =>
      simp only [next, Option.bind_eq_bind, Option.bind_eq_some_iff] at leads
      obtain ⟨⟨waiting, rest⟩, taken, leads⟩ := leads
      have inHand := (inv.take taken).1
      cases waiting with
      | signOutBegins change =>
          cases leads
          exact (Inv.cancel inHand).waitNone rfl
      | _ => cases leads
  | setsPassword task applied =>
      simp only [next, Option.bind_eq_bind, Option.bind_eq_some_iff] at leads
      obtain ⟨⟨waiting, rest⟩, taken, leads⟩ := leads
      have inHand := (inv.take taken).1
      cases waiting with
      | setsPassword =>
          cases leads
          cases applied with
          | false => exact inHand
          | true => exact (Inv.endEpoch (Inv.forget inHand)).waitNone rfl
      | _ => cases leads
  | acquire task =>
      simp only [next, Option.bind_eq_bind, Option.bind_eq_some_iff] at leads
      obtain ⟨_, free, ⟨waiting, rest⟩, taken, leads⟩ := leads
      obtain ⟨inHand, same⟩ := inv.take taken
      have isFree : state.holder = none := by simpa [guard] using free
      exact inv_acquire inHand (same.trans isFree) leads
  | read reading due client =>
      simp only [next, Option.bind_eq_bind, Option.bind_eq_some_iff] at leads
      obtain ⟨⟨holding, rest⟩, released, leads⟩ := leads
      obtain ⟨inHand, -, free⟩ := inv.release released
      exact inv_read inHand free leads
  | write applied =>
      simp only [next, Option.bind_eq_bind, Option.bind_eq_some_iff] at leads
      obtain ⟨⟨holding, rest⟩, released, leads⟩ := leads
      obtain ⟨inHand, sound, free⟩ := inv.release released
      exact inv_write inHand sound free leads
  | send =>
      simp only [next, Option.bind_eq_bind, Option.bind_eq_some_iff] at leads
      obtain ⟨⟨holding, rest⟩, released, leads⟩ := leads
      obtain ⟨inHand, sound, free⟩ := inv.release released
      exact inv_send inHand sound free leads
  | answer renewed =>
      simp only [next, Option.bind_eq_bind, Option.bind_eq_some_iff] at leads
      obtain ⟨⟨holding, rest⟩, released, leads⟩ := leads
      obtain ⟨inHand, sound, free⟩ := inv.release released
      exact inv_answer inHand sound free leads
  | drop task =>
      obtain ⟨⟨waiting, rest⟩, taken, rfl⟩ := Option.map_eq_some_iff.mp leads
      exact (inv.take taken).1.lose
  | dropHolder =>
      obtain ⟨⟨holding, rest⟩, released, rfl⟩ := Option.map_eq_some_iff.mp leads
      exact (inv.release released).1.lose
  | deleteRow =>
      cases leads
      exact inv.forget
  | crash =>
      cases leads
      exact inv.within rfl rfl rfl (fun _ => Nat.zero_le _) ofNone

theorem inv_initial {state : State} (starts : Initial state) : Inv [] state := by
  obtain ⟨row, rfl⟩ := starts
  exact
    { sends := .nil
      logged := nofun
      distinct := .nil
      unsent := nofun
      row := fun held isRow token isToken => by
        obtain rfl := isRow
        refine ⟨⟨Option.mem_toList.mpr isToken, List.not_mem_nil⟩, fun _ => ?_⟩
        rintro ⟨sent, isSent, -⟩
        cases isSent
      holder := nofun }

/-- In every run, with a crash or a drop at any point of it, each refresh token is used once. -/
theorem usedOnce_of_reachable {state : State} (reached : agent.Reachable state) :
    UsedOnce state := by
  have inv : Inv [] state := by
    refine reached.holds (fun _ => inv_initial) fun before event after inv _ leads => ?_
    exact inv_next inv leads
  exact inv.usedOnce

/-- A sign-in, a refresh whose answer is lost with the task that sent it, and one more. -/
def lostAnswerRun : List Event :=
  [.start, .device 0 (some 7), .turn 0, .polled 0 (.done ⟨1, some 2⟩), .userFound 0 (some 3),
    .acquire 0, .read .fine false true, .write true,
    .session false, .acquire 0, .read .fine true true, .write true, .send,
    .answer (.ok ⟨4, some 5⟩), .write true,
    .session true, .acquire 0, .read .fine true true, .write true, .send, .dropHolder,
    .session false, .acquire 0, .read .fine true true]

def emptyState : State := ⟨none, 0, none, [], none, [], [], [], 0⟩

theorem reached_empty (meets : State → Event → Prop) : agent.Reached meets emptyState :=
  .initial ⟨none, rfl⟩

def lostAnswerState : State :=
  (System.follow (fun _ _ => true) next emptyState lostAnswerRun).get (by decide)

theorem usedOnce_lostAnswerState :
    lostAnswerState.log.map Sent.spends = [true, true] ∧ UsedOnce lostAnswerState :=
  ⟨by decide, usedOnce_of_reachable
    ((System.reached_get (fun _ _ => true) next lostAnswerRun (reached_empty _) _).mono
      fun _ _ _ => trivial)⟩

end ServerBox.Monitor.LkCloud
