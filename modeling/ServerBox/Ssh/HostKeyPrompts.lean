import Mathlib.Logic.Relation
import ServerBox.Ssh.HostKeys
import ServerBox.Ssh.SshCredential
import ServerBox.Std.System
import ServerBox.Std.Table

/-!
# One host key prompt per server

`promptHostKeyExclusively` of `src/lib/core/ssh/host_keys.dart`, for any number of attempts.
Between two events no code of the function runs: an event is an attempt's first turn of the
loop, what `show` does, a dialog that is answered or fails, or an attempt that goes on after a
wait.
-/

namespace ServerBox.Ssh.HostKeyPrompts

open ServerBox.Std

/-! ### What is asked -/

structure HostKeyPromptInfo where
  spi : Spi
  keyType : Text
  fingerprint : Text
  /-- As `HostKeyVerifier.call` writes it. -/
  formatted : ∃ octets, fingerprint = fingerprintToOpenSsh octets

namespace HostKeyPromptInfo

def question (info : HostKeyPromptInfo) : Text := info.keyType ++ '\x00' :: info.fingerprint

/-- The same server, key type and fingerprint. -/
def Same (info other : HostKeyPromptInfo) : Prop :=
  hostKeyServerId info.spi = hostKeyServerId other.spi ∧ info.keyType = other.keyType ∧
    info.fingerprint = other.fingerprint

theorem Same.refl (info : HostKeyPromptInfo) : Same info info := ⟨rfl, rfl, rfl⟩

end HostKeyPromptInfo

/-! ### The code -/

/-- What a dialog's future comes to; one that is dismissed refuses. -/
inductive Outcome where
  | answered (accepted : Bool)
  | failed
deriving DecidableEq

inductive Dialog where
  /-- `show` is called. -/
  | opening
  | up
  | closed (outcome : Outcome)
deriving DecidableEq

/-- What `show` was called for, and what came of it. -/
structure Raised where
  info : HostKeyPromptInfo
  dialog : Dialog

/-- `_PendingHostKeyPrompt`: its place among what was raised, which is its identity and has its
answer. -/
structure PendingHostKeyPrompt where
  place : Nat
  question : Text
deriving DecidableEq

inductive Stage where
  /-- It waits for the answer to another question, and then looks again. -/
  | waits (prompt : Nat)
  /-- It takes the answer to the same question. -/
  | joins (prompt : Nat)
  | raises (prompt : Nat)
  | done (prompt : Nat) (outcome : Outcome)
deriving DecidableEq

structure Attempt where
  info : HostKeyPromptInfo
  stage : Stage

structure State where
  /-- `_pendingHostKeyPrompts`. -/
  pending : Table Text PendingHostKeyPrompt
  dialogs : List Raised
  attempts : List Attempt

namespace State

def dialogOf (state : State) (prompt : Nat) : Option Dialog :=
  (state.dialogs[prompt]?).map Raised.dialog

def turn (state : State) (prompt : Nat) (dialog : Dialog) : State :=
  { state with dialogs := state.dialogs.modify prompt fun raised => { raised with dialog } }

/-- A turn of the loop, or the call of `show` after it. -/
def ask (state : State) (info : HostKeyPromptInfo) : Stage × State :=
  match state.pending.lookup (hostKeyServerId info.spi) with
  | none =>
      (.raises state.dialogs.length,
        { state with
          pending := AList.insert (hostKeyServerId info.spi)
            ⟨state.dialogs.length, info.question⟩ state.pending
          dialogs := state.dialogs ++ [⟨info, .opening⟩] })
  | some pending =>
      (if pending.question = info.question then .joins pending.place else .waits pending.place,
        state)

/-- The entry is taken away if it is the attempt's, and the attempt completes. -/
def leave (state : State) (place : Nat) (info : HostKeyPromptInfo) (prompt : Nat)
    (outcome : Outcome) : State :=
  { state with
    pending :=
      if (state.pending.lookup (hostKeyServerId info.spi)).map PendingHostKeyPrompt.place =
          some prompt then
        AList.erase (hostKeyServerId info.spi) state.pending
      else state.pending
    attempts := state.attempts.set place ⟨info, .done prompt outcome⟩ }

end State

inductive Event where
  | attempt (info : HostKeyPromptInfo)
  /-- `show` returns its future. -/
  | shows (place : Nat)
  | throws (place : Nat)
  /-- The dialog's future completes. -/
  | closes (prompt : Nat) (outcome : Outcome)
  /-- What the attempt awaits has completed, and it goes on. -/
  | resumes (place : Nat)

def next (state : State) : Event → Option State
  | .attempt info =>
      let (stage, asked) := state.ask info
      some { asked with attempts := state.attempts ++ [⟨info, stage⟩] }
  | .shows place =>
      match state.attempts[place]? with
      | some ⟨_, .raises prompt⟩ =>
          if state.dialogOf prompt = some .opening then some (state.turn prompt .up) else none
      | _ => none
  | .throws place =>
      match state.attempts[place]? with
      | some ⟨info, .raises prompt⟩ =>
          if state.dialogOf prompt = some .opening then
            some ((state.turn prompt (.closed .failed)).leave place info prompt .failed)
          else none
      | _ => none
  | .closes prompt outcome =>
      if state.dialogOf prompt = some .up then some (state.turn prompt (.closed outcome)) else none
  | .resumes place =>
      match state.attempts[place]? with
      | some ⟨info, .raises prompt⟩ =>
          match state.dialogOf prompt with
          | some (.closed outcome) => some (state.leave place info prompt outcome)
          | _ => none
      | some ⟨info, .joins prompt⟩ =>
          match state.dialogOf prompt with
          | some (.closed outcome) =>
              some { state with attempts := state.attempts.set place ⟨info, .done prompt outcome⟩ }
          | _ => none
      | some ⟨info, .waits prompt⟩ =>
          match state.dialogOf prompt with
          | some (.closed _) =>
              let (stage, asked) := state.ask info
              some { asked with attempts := state.attempts.set place ⟨info, stage⟩ }
          | _ => none
      | _ => none

def empty : State := ⟨∅, [], []⟩

def prompts : System State Event := System.ofNext (· = empty) next

/-! ### Questions -/

theorem nul_not_mem_of_isOpenSshSha256 {text : Text} (isSha256 : isOpenSshSha256 text = true) :
    '\x00' ∉ text := by
  unfold isOpenSshSha256 at isSha256
  split at isSha256
  next digest stripped =>
    obtain ⟨-, symbols⟩ := Bool.and_eq_true_iff.mp isSha256
    rw [Text.of_stripPrefix stripped, List.mem_append]
    rintro (inPrefix | inDigest)
    · exact absurd inPrefix (by decide)
    · exact absurd (List.all_eq_true.mp symbols _ inDigest) (by decide)
  next => cases isSha256

theorem nul_not_mem_fingerprintToHex (octets : List UInt8) : '\x00' ∉ fingerprintToHex octets := by
  have digit : ∀ value < 16, Nat.digitChar value ≠ '\x00' := by decide
  intro held
  rcases Text.mem_join held with isColon | ⟨part, among, inside_⟩
  · exact absurd isColon (by decide)
  · obtain ⟨octet, -, rfl⟩ := List.mem_map.mp among
    simp only [List.mem_cons, List.not_mem_nil, or_false] at inside_
    rcases inside_ with high | low
    · exact digit _ (Nat.div_lt_of_lt_mul octet.toNat_lt) high.symm
    · exact digit _ (Nat.mod_lt _ (by decide)) low.symm

/-- The byte that a question is joined on is in no fingerprint. -/
theorem nul_not_mem_fingerprintToOpenSsh (octets : List UInt8) :
    '\x00' ∉ fingerprintToOpenSsh octets := by
  unfold fingerprintToOpenSsh
  split
  next isSha256 => exact nul_not_mem_of_isOpenSshSha256 isSha256
  next =>
    split
    next digest => exact nul_not_mem_of_isOpenSshSha256 (isOpenSshSha256_sha256Text digest)
    next =>
      rw [List.mem_append]
      rintro (inPrefix | inHex)
      · exact absurd inPrefix (by decide)
      · exact nul_not_mem_fingerprintToHex octets inHex

/-- Texts joined on a character that the second has not are what they were joined from. -/
theorem join_inj {char : Char} {first second other another : Text}
    (plain : char ∉ second) (alsoPlain : char ∉ another)
    (same : first ++ char :: second = other ++ char :: another) :
    first = other ∧ second = another := by
  rcases List.append_eq_append_iff.mp same with
    ⟨between, rfl, rest⟩ | ⟨between, rfl, rest⟩
  · rcases List.cons_eq_append_iff.mp rest with ⟨rfl, rest⟩ | ⟨more, rfl, rfl⟩
    · exact ⟨(List.append_nil first).symm, (List.cons.inj rest).2⟩
    · exact absurd (List.mem_append_right _ List.mem_cons_self) plain
  · rcases List.cons_eq_append_iff.mp rest with ⟨rfl, rest⟩ | ⟨more, rfl, rfl⟩
    · exact ⟨List.append_nil other, (List.cons.inj rest).2.symm⟩
    · exact absurd (List.mem_append_right _ List.mem_cons_self) alsoPlain

/-- Two questions are the same only about one key type and fingerprint. -/
theorem question_injective {info other : HostKeyPromptInfo}
    (same : info.question = other.question) :
    info.keyType = other.keyType ∧ info.fingerprint = other.fingerprint := by
  have plain (info : HostKeyPromptInfo) : '\x00' ∉ info.fingerprint := by
    obtain ⟨octets, isText⟩ := info.formatted
    exact isText ▸ nul_not_mem_fingerprintToOpenSsh octets
  exact join_inj (plain info) (plain other) same

/-! ### The invariant -/

/-- What an attempt is with was raised, and for the same unless it only waits. -/
def Placed (dialogs : List Raised) (attempt : Attempt) : Prop :=
  match attempt.stage with
  | .waits prompt => ∃ raised, dialogs[prompt]? = some raised
  | .joins prompt | .raises prompt =>
      ∃ raised, dialogs[prompt]? = some raised ∧ raised.info.Same attempt.info
  | .done prompt outcome =>
      ∃ raised, dialogs[prompt]? = some raised ∧ raised.info.Same attempt.info ∧
        raised.dialog = .closed outcome

structure Inv (state : State) : Prop where
  /-- What is stored for a server is one of its questions, and an attempt has raised it. -/
  stored : ∀ server pending, state.pending.lookup server = some pending →
    ∃ raised, state.dialogs[pending.place]? = some raised ∧
      hostKeyServerId raised.info.spi = server ∧ raised.info.question = pending.question ∧
      ∃ info, ⟨info, .raises pending.place⟩ ∈ state.attempts
  /-- A dialog that is not over is stored for its server. -/
  opened : ∀ prompt raised, state.dialogs[prompt]? = some raised →
    (∀ outcome, raised.dialog ≠ .closed outcome) →
    ∃ pending, state.pending.lookup (hostKeyServerId raised.info.spi) = some pending ∧
      pending.place = prompt
  placed : ∀ attempt ∈ state.attempts, Placed state.dialogs attempt

/-- What was raised is there still, and what is over is over. -/
def Later (before after : List Raised) : Prop :=
  ∀ (prompt : Nat) (raised : Raised), before[prompt]? = some raised →
    ∃ later : Raised, after[prompt]? = some later ∧ later.info = raised.info ∧
      ∀ outcome, raised.dialog = .closed outcome → later.dialog = .closed outcome

theorem Placed.later {before after : List Raised} {attempt : Attempt}
    (placed : Placed before attempt) (isLater : Later before after) : Placed after attempt := by
  obtain ⟨info, stage⟩ := attempt
  cases stage with
  | waits prompt =>
      obtain ⟨raised, held⟩ := placed
      obtain ⟨later, there, -⟩ := isLater prompt raised held
      exact ⟨later, there⟩
  | joins prompt =>
      obtain ⟨raised, held, same⟩ := placed
      obtain ⟨later, there, isInfo, -⟩ := isLater prompt raised held
      exact ⟨later, there, isInfo ▸ same⟩
  | raises prompt =>
      obtain ⟨raised, held, same⟩ := placed
      obtain ⟨later, there, isInfo, -⟩ := isLater prompt raised held
      exact ⟨later, there, isInfo ▸ same⟩
  | done prompt outcome =>
      obtain ⟨raised, held, same, isClosed⟩ := placed
      obtain ⟨later, there, isInfo, stays⟩ := isLater prompt raised held
      exact ⟨later, there, isInfo ▸ same, stays outcome isClosed⟩

theorem Later.refl (dialogs : List Raised) : Later dialogs dialogs :=
  fun _ raised held => ⟨raised, held, rfl, fun _ => id⟩

theorem Later.trans {before between after : List Raised} (first : Later before between)
    (second : Later between after) : Later before after := by
  intro prompt raised held
  obtain ⟨middle, isMiddle, isInfo, stays⟩ := first prompt raised held
  obtain ⟨later, isLater, alsoInfo, alsoStays⟩ := second prompt middle isMiddle
  exact ⟨later, isLater, alsoInfo.trans isInfo, fun outcome isClosed =>
    alsoStays outcome (stays outcome isClosed)⟩

theorem later_append (dialogs : List Raised) (raised : Raised) :
    Later dialogs (dialogs ++ [raised]) := by
  intro prompt before held
  exact ⟨before, List.getElem?_append_left (List.getElem?_eq_some_iff.mp held).1 ▸ held, rfl,
    fun _ => id⟩

section

variable {state : State} {prompt place : Nat} {dialog : Dialog} {info : HostKeyPromptInfo}

theorem getElem?_turn (other : Nat) :
    (state.turn prompt dialog).dialogs[other]? =
      (state.dialogs[other]?).map fun raised =>
        if other = prompt then { raised with dialog } else raised := by
  change (state.dialogs.modify prompt _)[other]? = _
  rw [List.getElem?_modify]
  by_cases same : prompt = other
  · simp only [same, if_true]
    rfl
  · simp only [same, if_false, Ne.symm same]
    rfl

/-- A dialog that is not over comes to something. -/
theorem later_turn (isOpen : ∀ outcome, state.dialogOf prompt ≠ some (.closed outcome)) :
    Later state.dialogs (state.turn prompt dialog).dialogs := by
  intro other raised held
  rw [getElem?_turn, held]
  by_cases same : other = prompt
  · refine ⟨{ raised with dialog }, congrArg some (if_pos same), rfl, fun outcome isClosed => ?_⟩
    refine absurd ?_ (isOpen outcome)
    rw [State.dialogOf, ← same, held, Option.map_some, isClosed]
  · exact ⟨raised, congrArg some (if_neg same), rfl, fun _ => id⟩

/-- A dialog comes up, or closes with its entry still stored. -/
theorem inv_turn (inv : Inv state)
    (isOpen : ∀ outcome, state.dialogOf prompt ≠ some (.closed outcome)) :
    Inv (state.turn prompt dialog) := by
  have later := @later_turn _ _ dialog isOpen
  refine ⟨?_, ?_, fun attempt held => (inv.placed attempt held).later later⟩
  · intro server pending held
    obtain ⟨raised, there, isServer, isQuestion, raiser⟩ := inv.stored server pending held
    obtain ⟨after, isAfter, isInfo, -⟩ := later pending.place raised there
    exact ⟨after, isAfter, isInfo ▸ isServer, isInfo ▸ isQuestion, raiser⟩
  · intro other raised held notClosed
    rw [getElem?_turn] at held
    obtain ⟨before, isBefore, rfl⟩ := Option.map_eq_some_iff.mp held
    by_cases same : other = prompt
    · rw [if_pos same]
      refine inv.opened other before isBefore fun outcome isClosed => isOpen outcome ?_
      rw [State.dialogOf, ← same, isBefore, Option.map_some, isClosed]
    · rw [if_neg same] at notClosed ⊢
      exact inv.opened other before isBefore notClosed

/-- A turn of the loop by an attempt that then is among them, when none that has raised a dialog
goes. -/
theorem inv_ask (inv : Inv state) {attempts : List Attempt}
    (stays : ∀ other prompt, ⟨other, .raises prompt⟩ ∈ state.attempts →
      ⟨other, .raises prompt⟩ ∈ attempts)
    (asks : ⟨info, (state.ask info).1⟩ ∈ attempts)
    (among : ∀ attempt ∈ attempts, attempt ∈ state.attempts ∨
      attempt = ⟨info, (state.ask info).1⟩) :
    Inv { (state.ask info).2 with attempts } := by
  unfold State.ask at asks among ⊢
  cases held : state.pending.lookup (hostKeyServerId info.spi) with
  | none =>
      simp only [held] at asks among ⊢
      have last : (state.dialogs ++ [⟨info, .opening⟩])[state.dialogs.length]? =
          some ⟨info, .opening⟩ := List.getElem?_concat_length ..
      have later := later_append state.dialogs ⟨info, .opening⟩
      refine ⟨?_, ?_, ?_⟩
      · intro server pending isPending
        rw [Table.lookup_insert_ite] at isPending
        split at isPending
        next same =>
          cases isPending
          exact ⟨_, last, same.symm, rfl, info, asks⟩
        next =>
          obtain ⟨raised, there, isServer, isQuestion, other, raiser⟩ :=
            inv.stored server pending isPending
          obtain ⟨after, isAfter, isInfo, -⟩ := later pending.place raised there
          exact ⟨after, isAfter, isInfo ▸ isServer, isInfo ▸ isQuestion, other,
            stays other _ raiser⟩
      · intro prompt raised there notClosed
        rw [Table.lookup_insert_ite]
        rcases Nat.lt_trichotomy prompt state.dialogs.length with less | same | more
        · rw [List.getElem?_append_left less] at there
          obtain ⟨pending, isPending, isPlace⟩ := inv.opened prompt raised there notClosed
          refine ⟨pending, ?_, isPlace⟩
          rw [if_neg fun same => ?_]
          · exact isPending
          · rw [same, held] at isPending
            cases isPending
        · rw [same, last] at there
          cases there
          exact ⟨_, if_pos rfl, same.symm⟩
        · have none_ : (state.dialogs ++ [⟨info, .opening⟩])[prompt]? = none := by
            rw [List.getElem?_eq_none_iff, List.length_append]
            exact more
          rw [none_] at there
          cases there
      · intro attempt isAttempt
        rcases among attempt isAttempt with before | rfl
        · exact (inv.placed attempt before).later later
        · exact ⟨_, last, .refl info⟩
  | some pending =>
      simp only [held] at asks among ⊢
      obtain ⟨raised, there, isServer, isQuestion, -⟩ := inv.stored _ pending held
      refine ⟨?_, inv.opened, ?_⟩
      · intro server pending isPending
        obtain ⟨raised, there, isServer, isQuestion, other, raiser⟩ :=
          inv.stored server pending isPending
        exact ⟨raised, there, isServer, isQuestion, other, stays other _ raiser⟩
      · intro attempt isAttempt
        rcases among attempt isAttempt with before | rfl
        · exact inv.placed attempt before
        · by_cases same : pending.question = info.question
          · rw [if_pos same]
            obtain ⟨isType, isPrint⟩ := question_injective (isQuestion.trans same)
            exact ⟨raised, there, isServer, isType, isPrint⟩
          · rw [if_neg same]
            exact ⟨raised, there⟩

theorem mem_set_of_ne {value before after : Attempt} {attempts : List Attempt}
    (held : attempts[place]? = some before) (among : value ∈ attempts) (differs : value ≠ before) :
    value ∈ attempts.set place after := by
  obtain ⟨other, isOther⟩ := List.mem_iff_getElem?.mp among
  refine List.mem_iff_getElem?.mpr ⟨other, ?_⟩
  rw [List.getElem?_set_ne, isOther]
  rintro rfl
  exact differs (Option.some.inj (isOther.symm.trans held))

/-- The place that an attempt goes on at has what it goes on to. -/
theorem mem_set_place {before after : Attempt} {attempts : List Attempt}
    (held : attempts[place]? = some before) : after ∈ attempts.set place after := by
  refine List.mem_iff_getElem?.mpr ⟨place, ?_⟩
  rw [List.getElem?_set_self (List.getElem?_eq_some_iff.mp held).1]

/-- What an attempt raised is over for it and for who is stored under its server. -/
theorem inv_leave {outcome : Outcome} (inv : Inv state)
    (held : state.attempts[place]? = some ⟨info, .raises prompt⟩)
    (isClosed : state.dialogOf prompt = some (.closed outcome)) :
    Inv (state.leave place info prompt outcome) := by
  obtain ⟨raised, there, same⟩ := inv.placed _ (List.mem_of_getElem? held)
  rw [State.dialogOf, there, Option.map_some, Option.some.injEq] at isClosed
  -- What is left in the table is not what the attempt had raised.
  have left {server : Text} {pending : PendingHostKeyPrompt}
      (isPending : (state.leave place info prompt outcome).pending.lookup server = some pending) :
      state.pending.lookup server = some pending ∧ pending.place ≠ prompt := by
    have before : state.pending.lookup server = some pending := by
      change AList.lookup server (ite _ _ _) = _ at isPending
      split at isPending
      next => exact Table.mem_lookup_of_erase isPending
      next => exact isPending
    refine ⟨before, fun isPrompt => ?_⟩
    obtain ⟨other, isOther, isServer, -⟩ := inv.stored server pending before
    rw [isPrompt, there] at isOther
    cases isOther
    rw [← isServer, same.1] at before isPending
    change AList.lookup _ (ite _ _ _) = _ at isPending
    rw [if_pos (by rw [before, Option.map_some, isPrompt]), AList.lookup_erase] at isPending
    cases isPending
  refine ⟨?_, ?_, ?_⟩
  · intro server pending isPending
    obtain ⟨before, differs⟩ := left isPending
    obtain ⟨other, isOther, isServer, isQuestion, raiser, among⟩ := inv.stored server pending before
    refine ⟨other, isOther, isServer, isQuestion, raiser, mem_set_of_ne held among ?_⟩
    intro isSame
    cases isSame
    exact differs rfl
  · intro other another isOther notClosed
    obtain ⟨pending, isPending, isPlace⟩ := inv.opened other another isOther notClosed
    refine ⟨pending, ?_, isPlace⟩
    change AList.lookup _ (ite _ _ _) = _
    split
    next isPrompt =>
      rw [AList.lookup_erase_ne]
      · exact isPending
      · intro isServer
        rw [← isServer, isPending, Option.map_some, Option.some.injEq, isPlace] at isPrompt
        rw [isPrompt] at isOther
        cases there.symm.trans isOther
        exact notClosed outcome isClosed
    next => exact isPending
  · intro attempt among
    rcases List.mem_or_eq_of_mem_set among with before | rfl
    · exact inv.placed attempt before
    · exact ⟨raised, there, same, isClosed⟩

theorem inv_join {outcome : Outcome} (inv : Inv state)
    (held : state.attempts[place]? = some ⟨info, .joins prompt⟩)
    (isClosed : state.dialogOf prompt = some (.closed outcome)) :
    Inv { state with attempts := state.attempts.set place ⟨info, .done prompt outcome⟩ } := by
  obtain ⟨raised, there, same⟩ := inv.placed _ (List.mem_of_getElem? held)
  rw [State.dialogOf, there, Option.map_some, Option.some.injEq] at isClosed
  refine ⟨?_, inv.opened, ?_⟩
  · intro server pending isPending
    obtain ⟨other, isOther, isServer, isQuestion, raiser, among⟩ :=
      inv.stored server pending isPending
    refine ⟨other, isOther, isServer, isQuestion, raiser, mem_set_of_ne held among ?_⟩
    intro isSame
    cases isSame
  · intro attempt among
    rcases List.mem_or_eq_of_mem_set among with before | rfl
    · exact inv.placed attempt before
    · exact ⟨raised, there, same, isClosed⟩

theorem inv_wait (inv : Inv state)
    (held : state.attempts[place]? = some ⟨info, .waits prompt⟩) :
    Inv { (state.ask info).2 with
      attempts := state.attempts.set place ⟨info, (state.ask info).1⟩ } := by
  refine inv_ask inv (fun other raised among => mem_set_of_ne held among fun isSame => ?_)
    (mem_set_place held) fun attempt among => List.mem_or_eq_of_mem_set among
  cases isSame

theorem inv_attempt (inv : Inv state) (info : HostKeyPromptInfo) :
    Inv { (state.ask info).2 with
      attempts := state.attempts ++ [⟨info, (state.ask info).1⟩] } := by
  refine inv_ask inv (fun _ _ among => List.mem_append_left _ among)
    (List.mem_append_right _ List.mem_cons_self) fun attempt among => ?_
  rcases List.mem_append.mp among with before | last
  · exact .inl before
  · exact .inr (List.mem_singleton.mp last)

theorem inv_next {event : Event} {after : State} (inv : Inv state)
    (leads : next state event = some after) : Inv after := by
  cases event with
  | attempt info =>
      cases leads
      exact inv_attempt inv info
  | shows place =>
      simp only [next] at leads
      split at leads
      next info prompt held =>
        split at leads
        next isOpening =>
          cases leads
          refine inv_turn inv fun outcome isClosed => ?_
          rw [isOpening] at isClosed
          cases isClosed
        next => cases leads
      next => cases leads
  | throws place =>
      simp only [next] at leads
      split at leads
      next info prompt held =>
        split at leads
        next isOpening =>
          cases leads
          refine inv_leave (inv_turn inv fun outcome isClosed => ?_) held ?_
          · rw [isOpening] at isClosed
            cases isClosed
          · obtain ⟨raised, there, -⟩ := Option.map_eq_some_iff.mp isOpening
            rw [State.dialogOf, getElem?_turn, there, Option.map_some, Option.map_some, if_pos rfl]
        next => cases leads
      next => cases leads
  | closes prompt outcome =>
      simp only [next] at leads
      split at leads
      next isUp =>
        cases leads
        refine inv_turn inv fun outcome isClosed => ?_
        rw [isUp] at isClosed
        cases isClosed
      next => cases leads
  | resumes place =>
      simp only [next] at leads
      split at leads
      next info prompt held =>
        split at leads
        next outcome isClosed =>
          cases leads
          exact inv_leave inv held isClosed
        next => cases leads
      next info prompt held =>
        split at leads
        next outcome isClosed =>
          cases leads
          exact inv_join inv held isClosed
        next => cases leads
      next info prompt held =>
        split at leads
        next =>
          cases leads
          exact inv_wait inv held
        next => cases leads
      next => cases leads

theorem inv_empty : Inv empty where
  stored := fun _ _ none => nomatch none
  opened := fun _ _ none => nomatch none
  placed := fun _ none => nomatch none

end

/-! ### Completion -/

/-- Some events lead from one state to the other. -/
def Leads : State → State → Prop :=
  Relation.ReflTransGen fun before after => ∃ event, next before event = some after

/-- At most one dialog is up for a server; who completes does so with the answer of a dialog that
was raised for the same server, key type and fingerprint; and whoever has not can. -/
structure Exclusive (state : State) : Prop where
  single : ∀ (first second : Nat) (raised other : Raised), state.dialogs[first]? = some raised →
    state.dialogs[second]? = some other → raised.dialog = .up → other.dialog = .up →
    hostKeyServerId raised.info.spi = hostKeyServerId other.info.spi → first = second
  own : ∀ attempt ∈ state.attempts, ∀ prompt outcome, attempt.stage = .done prompt outcome →
    ∃ raised, state.dialogs[prompt]? = some raised ∧ raised.dialog = .closed outcome ∧
      raised.info.Same attempt.info
  completes : ∀ (place : Nat) (attempt : Attempt), state.attempts[place]? = some attempt →
    ∃ after prompt outcome, Leads state after ∧
      after.attempts[place]? = some ⟨attempt.info, .done prompt outcome⟩

section

variable {state : State} {prompt place : Nat} {info : HostKeyPromptInfo}

theorem Inv.leads {after : State} (inv : Inv state) (leads : Leads state after) : Inv after := by
  induction leads with
  | refl => exact inv
  | tail _ last inductionHypothesis =>
      obtain ⟨event, isNext⟩ := last
      exact inv_next inductionHypothesis isNext

/-- A dialog that was raised comes to something, with nothing else changed. -/
theorem closes_of_raised (inv : Inv state) {raised : Raised}
    (held : state.dialogs[prompt]? = some raised) :
    ∃ after outcome, Leads state after ∧ after.attempts = state.attempts ∧
      after.pending = state.pending ∧ Later state.dialogs after.dialogs ∧
      after.dialogOf prompt = some (.closed outcome) := by
  have isDialog : state.dialogOf prompt = some raised.dialog := by
    rw [State.dialogOf, held, Option.map_some]
  have turned (dialog : Dialog) (state : State) {raised : Raised}
      (held : state.dialogs[prompt]? = some raised) :
      (state.turn prompt dialog).dialogs[prompt]? = some { raised with dialog } := by
    rw [getElem?_turn, held, Option.map_some, if_pos rfl]
  have closes {state : State} {raised : Raised} (held : state.dialogs[prompt]? = some raised)
      (isUp : raised.dialog = .up) :
      Leads state (state.turn prompt (.closed .failed)) ∧
        Later state.dialogs (state.turn prompt (.closed .failed)).dialogs ∧
        (state.turn prompt (.closed .failed)).dialogOf prompt = some (.closed .failed) := by
    have isUp : state.dialogOf prompt = some .up := by
      rw [State.dialogOf, held, Option.map_some, isUp]
    refine ⟨.single ⟨.closes prompt .failed, if_pos isUp⟩, later_turn fun _ isClosed => ?_, ?_⟩
    · cases isUp.symm.trans isClosed
    · rw [State.dialogOf, turned _ _ held, Option.map_some]
  cases isWhat : raised.dialog with
  | closed outcome =>
      exact ⟨state, outcome, .refl, rfl, rfl, .refl _, isWhat ▸ isDialog⟩
  | up =>
      obtain ⟨leads, later, isClosed⟩ := closes held isWhat
      exact ⟨_, .failed, leads, rfl, rfl, later, isClosed⟩
  | opening =>
      have notClosed : ∀ outcome, raised.dialog ≠ .closed outcome := by
        rw [isWhat]
        exact fun _ => nofun
      obtain ⟨pending, isPending, isPlace⟩ := inv.opened prompt raised held notClosed
      obtain ⟨-, -, -, -, raiser, among⟩ := inv.stored _ pending isPending
      obtain ⟨place, isRaiser⟩ := List.mem_iff_getElem?.mp among
      rw [isPlace] at isRaiser
      have shows : next state (.shows place) = some (state.turn prompt .up) := by
        rw [next, isRaiser]
        exact if_pos (isWhat ▸ isDialog)
      have comesUp : Later state.dialogs (state.turn prompt .up).dialogs := by
        refine later_turn fun outcome isClosed => notClosed outcome ?_
        exact Option.some.inj (isDialog.symm.trans isClosed)
      obtain ⟨leads, later, isClosed⟩ := closes (turned .up state held) rfl
      exact ⟨_, .failed, .head ⟨_, shows⟩ leads, rfl, rfl, comesUp.trans later, isClosed⟩

/-- Who has raised a dialog completes, and then nothing of it is stored. -/
theorem completes_raises (inv : Inv state)
    (held : state.attempts[place]? = some ⟨info, .raises prompt⟩) :
    ∃ after outcome, Leads state after ∧
      after.attempts = state.attempts.set place ⟨info, .done prompt outcome⟩ ∧
      Later state.dialogs after.dialogs ∧
      (∀ pending, state.pending.lookup (hostKeyServerId info.spi) = some pending →
        pending.place = prompt → after.pending.lookup (hostKeyServerId info.spi) = none) := by
  obtain ⟨raised, there, same⟩ := inv.placed _ (List.mem_of_getElem? held)
  obtain ⟨over_, outcome, leads, attempts, isPending, later, isClosed⟩ :=
    closes_of_raised inv there
  have resumes : next over_ (.resumes place) = some (over_.leave place info prompt outcome) := by
    rw [← attempts] at held
    simp only [next, held, isClosed]
  refine ⟨_, outcome, leads.tail ⟨_, resumes⟩, ?_, later, fun pending isStored isPlace => ?_⟩
  · change over_.attempts.set _ _ = _
    rw [attempts]
  · change AList.lookup _ (ite _ _ _) = _
    rw [isPending, if_pos (by rw [isStored, Option.map_some, isPlace]), AList.lookup_erase]

theorem completes_joins (inv : Inv state)
    (held : state.attempts[place]? = some ⟨info, .joins prompt⟩) :
    ∃ after outcome, Leads state after ∧
      after.attempts[place]? = some ⟨info, .done prompt outcome⟩ := by
  obtain ⟨raised, there, same⟩ := inv.placed _ (List.mem_of_getElem? held)
  obtain ⟨over_, outcome, leads, attempts, -, -, isClosed⟩ := closes_of_raised inv there
  have resumes : next over_ (.resumes place) =
      some { over_ with attempts := over_.attempts.set place ⟨info, .done prompt outcome⟩ } := by
    rw [← attempts] at held
    simp only [next, held, isClosed]
  refine ⟨_, outcome, leads.tail ⟨_, resumes⟩, ?_⟩
  change (over_.attempts.set _ _)[place]? = _
  rw [List.getElem?_set_self (attempts ▸ (List.getElem?_eq_some_iff.mp held).1)]

/-- Who waits for a dialog that is over raises one of its own when nothing is stored. -/
theorem completes_looks {outcome : Outcome} (inv : Inv state)
    (held : state.attempts[place]? = some ⟨info, .waits prompt⟩)
    (isClosed : state.dialogOf prompt = some (.closed outcome))
    (free : state.pending.lookup (hostKeyServerId info.spi) = none) :
    ∃ after prompt outcome, Leads state after ∧
      after.attempts[place]? = some ⟨info, .done prompt outcome⟩ := by
  have resumes : next state (.resumes place) = some { (state.ask info).2 with
      attempts := state.attempts.set place ⟨info, (state.ask info).1⟩ } := by
    simp only [next, held, isClosed]
  have length := (List.getElem?_eq_some_iff.mp held).1
  have raises : (state.attempts.set place ⟨info, (state.ask info).1⟩)[place]? =
      some ⟨info, .raises state.dialogs.length⟩ := by
    rw [List.getElem?_set_self length, State.ask, free]
  obtain ⟨after, outcome, leads, attempts, -⟩ :=
    completes_raises (inv_next inv resumes) raises
  refine ⟨after, state.dialogs.length, outcome, .head ⟨_, resumes⟩ leads, ?_⟩
  rw [attempts, List.getElem?_set_self]
  exact (List.length_set ..).symm ▸ length

theorem completes_waits (inv : Inv state)
    (held : state.attempts[place]? = some ⟨info, .waits prompt⟩) :
    ∃ after prompt outcome, Leads state after ∧
      after.attempts[place]? = some ⟨info, .done prompt outcome⟩ := by
  obtain ⟨raised, there⟩ := inv.placed _ (List.mem_of_getElem? held)
  obtain ⟨over_, outcome, leads, attempts, -, -, isClosed⟩ := closes_of_raised inv there
  have invOver := inv.leads leads
  rw [← attempts] at held
  cases isPending : over_.pending.lookup (hostKeyServerId info.spi) with
  | none =>
      obtain ⟨after, prompt, outcome, moreLeads, isDone⟩ :=
        completes_looks invOver held isClosed isPending
      exact ⟨after, prompt, outcome, leads.trans moreLeads, isDone⟩
  | some pending =>
      -- Another question is stored by now, and whoever raised it completes first.
      obtain ⟨other, isOther, isServer, -, raiser, among⟩ := invOver.stored _ pending isPending
      obtain ⟨another, isRaiser⟩ := List.mem_iff_getElem?.mp among
      obtain ⟨asked, isAsked, same⟩ := invOver.placed _ among
      cases isOther.symm.trans isAsked
      have sameServer : hostKeyServerId raiser.spi = hostKeyServerId info.spi :=
        same.1.symm.trans isServer
      obtain ⟨cleared, last, moreLeads, afterAttempts, later, free⟩ :=
        completes_raises invOver isRaiser
      have stillHeld : cleared.attempts[place]? = some ⟨info, .waits prompt⟩ := by
        rw [afterAttempts, List.getElem?_set_ne, held]
        rintro rfl
        cases held.symm.trans isRaiser
      have stillClosed : cleared.dialogOf prompt = some (.closed outcome) := by
        obtain ⟨first, isFirst, isClosed⟩ := Option.map_eq_some_iff.mp isClosed
        obtain ⟨second, isSecond, -, stays⟩ := later prompt first isFirst
        rw [State.dialogOf, isSecond, Option.map_some, stays outcome isClosed]
      obtain ⟨after, prompt, outcome, lastLeads, isDone⟩ :=
        completes_looks (invOver.leads moreLeads) stillHeld stillClosed
          (sameServer ▸ free pending (sameServer ▸ isPending) rfl)
      exact ⟨after, prompt, outcome, (leads.trans moreLeads).trans lastLeads, isDone⟩

theorem Inv.exclusive (inv : Inv state) : Exclusive state := by
  refine ⟨?_, ?_, ?_⟩
  · intro first second raised other held alsoHeld isUp alsoUp same
    have isStored {prompt : Nat} {raised : Raised} (held : state.dialogs[prompt]? = some raised)
        (isUp : raised.dialog = .up) :=
      inv.opened prompt raised held fun outcome isClosed => nomatch isUp.symm.trans isClosed
    obtain ⟨pending, isPending, rfl⟩ := isStored held isUp
    obtain ⟨another, isAnother, rfl⟩ := isStored alsoHeld alsoUp
    rw [same, isAnother] at isPending
    exact congrArg PendingHostKeyPrompt.place (Option.some.inj isPending).symm
  · intro attempt among prompt outcome isDone
    have placed := inv.placed attempt among
    rw [Placed, isDone] at placed
    obtain ⟨raised, held, same, isClosed⟩ := placed
    exact ⟨raised, held, isClosed, same⟩
  · intro place attempt held
    obtain ⟨info, stage⟩ := attempt
    cases stage with
    | waits prompt => exact completes_waits inv held
    | joins prompt =>
        obtain ⟨after, outcome, leads, isDone⟩ := completes_joins inv held
        exact ⟨after, prompt, outcome, leads, isDone⟩
    | raises prompt =>
        obtain ⟨after, outcome, leads, attempts, -⟩ := completes_raises inv held
        refine ⟨after, prompt, outcome, leads, ?_⟩
        rw [attempts, List.getElem?_set_self (List.getElem?_eq_some_iff.mp held).1]
    | done prompt outcome => exact ⟨state, prompt, outcome, .refl, held⟩

end

/-- In every order of attempts, dialogs and what comes of them. -/
theorem exclusive_of_reachable {state : State} (reachable : prompts.Reachable state) :
    Exclusive state := by
  have initial : ∀ state, prompts.Initial state → Inv state := by
    rintro _ rfl
    exact inv_empty
  have step : ∀ before event after, Inv before → True → prompts.Step before event after →
      Inv after := fun _ _ _ inv _ leads => inv_next inv leads
  exact (reachable.holds initial step).exclusive

/-- Two attempts with one fingerprint and one with another, of which the first is accepted. -/
def oneAccepted : List Event :=
  let first : HostKeyPromptInfo :=
    ⟨⟨"a".toList, none⟩, "ssh-ed25519".toList, "MD5:01".toList, [1], by decide⟩
  let other : HostKeyPromptInfo :=
    ⟨⟨"a".toList, none⟩, "ssh-ed25519".toList, "MD5:02".toList, [2], by decide⟩
  [.attempt first, .shows 0, .attempt first, .attempt other, .closes 0 (.answered true),
    .resumes 0, .resumes 1, .resumes 2, .shows 2]

theorem exclusive_oneAccepted :
    Exclusive ((System.follow (fun _ _ => true) next empty oneAccepted).get (by decide)) :=
  exclusive_of_reachable
    ((System.reached_get (fun _ _ => true) next oneAccepted
      (.initial rfl : prompts.Reached _ empty) (by decide)).mono fun _ _ _ => trivial)

end ServerBox.Ssh.HostKeyPrompts
