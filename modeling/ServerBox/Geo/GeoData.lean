import Mathlib.Data.List.Basic

/-!
# Installing geo data over an installation

`install`, `_activateStaging` and `installed` of `src/lib/core/service/geo_data.dart`, one file
operation at a time: each may fail, and the process may stop before each. An installation is
swapped in by two renames, the old one being the backup in between, and `installed` repairs from
the backup. The swap itself starts by deleting the backup, though it may be the only copy.
-/

namespace ServerBox.Geo

/-- A directory, by what `_readInstalledAt` makes of it: not there, no complete installation, or
one. -/
inductive Folder (Manifest : Type) where
  | absent
  | incomplete
  | complete (manifest : Manifest)
deriving DecidableEq, Repr

def Folder.isComplete {Manifest : Type} : Folder Manifest → Bool
  | .complete _ => true
  | .absent | .incomplete => false

theorem Folder.isComplete_iff {Manifest : Type} {folder : Folder Manifest} :
    folder.isComplete = true ↔ ∃ manifest, folder = .complete manifest := by
  cases folder <;> simp [isComplete]

/-- The file operation that a call is about to do, or the download it waits for. For `install`,
how many endpoints are left to try after this one; the first three of `installed` and the two of
the rollback are its own. -/
inductive Doing (Manifest : Type) where
  | idle
  | discardStaging (left : Nat)
  | fetchManifest (left : Nat)
  | createStaging (left : Nat) (manifest : Manifest)
  | writeAssets (left : Nat) (manifest : Manifest)
  | writeManifest (left : Nat) (manifest : Manifest)
  | validate (left : Nat) (manifest : Manifest)
  | deleteBackup (left : Nat) (manifest : Manifest)
  | moveActive (left : Nat) (manifest : Manifest)
  | promote (left : Nat) (manifest : Manifest) (movedActive : Bool)
  | deletePromoted (left : Nat)
  | rollBack (left : Nat)
  | cleanUp (manifest : Manifest)
  | discardAtEnd
  | readActive
  | discardBackup (manifest : Manifest)
  | readBackup
  | deleteActive (manifest : Manifest)
  | restoreBackup (manifest : Manifest)
deriving DecidableEq, Repr

/-- The directories `dir`, `_stagingDir` and `_backupDir`, what is remembered of them (`_installed`
once `_readInstalled`), the call going on, and whether an operation of it failed. Kept besides:
the installations that reached their final rename, and the answers of `installed`. -/
structure GeoData (Manifest : Type) where
  active : Folder Manifest
  staging : Folder Manifest := .absent
  backup : Folder Manifest := .absent
  cache : Option (Option Manifest) := none
  doing : Doing Manifest := .idle
  troubled : Bool := false
  promoted : List Manifest := []
  answers : List (Option Manifest) := []
deriving DecidableEq, Repr

/-- What happens: a call, what was downloaded (a manifest that is not the one offered is none; what
is refused is an asset that did not arrive or does not match), an operation done or failed, or the
process stopped. -/
inductive GeoEvent (Manifest : Type) where
  | install
  | installed
  | fetched (offer : Option Manifest)
  | refused
  | done
  | fails
  | crashes
deriving DecidableEq, Repr

namespace GeoData

variable {Manifest : Type}

/-- A new process. -/
def restarted (state : GeoData Manifest) : GeoData Manifest :=
  { state with cache := none, doing := .idle, troubled := false }

/-- The end of a call, and of the process where an operation of it failed. -/
def ended (state : GeoData Manifest) : GeoData Manifest :=
  if state.troubled then state.restarted else { state with doing := .idle }

/-- What `installed` returns. It ran to its end where no operation failed. -/
def answer (result : Option Manifest) (state : GeoData Manifest) : GeoData Manifest :=
  { state with
    cache := some result
    answers := if state.troubled then state.answers else state.answers ++ [result] }.ended

def nextEndpoint (state : GeoData Manifest) : Nat → GeoData Manifest
  | 0 => { state with doing := .discardAtEnd }
  | left + 1 => { state with doing := .discardStaging left }

/-- The next operation done. -/
def done (state : GeoData Manifest) : GeoData Manifest :=
  match state.doing with
  | .idle | .fetchManifest _ => state
  | .discardStaging left => { state with staging := .absent, doing := .fetchManifest left }
  | .createStaging left manifest =>
      { state with staging := .incomplete, doing := .writeAssets left manifest }
  | .writeAssets left manifest => { state with doing := .writeManifest left manifest }
  | .writeManifest left manifest =>
      { state with staging := .complete manifest, doing := .validate left manifest }
  | .validate left manifest =>
      match state.staging with
      | .complete _ => { state with doing := .deleteBackup left manifest }
      | _ => state.nextEndpoint left
  | .deleteBackup left manifest =>
      { state with backup := .absent, doing := .moveActive left manifest }
  | .moveActive left manifest =>
      match state.active with
      | .absent => { state with doing := .promote left manifest false }
      | held =>
          { state with active := .absent, backup := held, doing := .promote left manifest true }
  | .promote _ manifest _ =>
      { state with
        active := state.staging, staging := .absent, cache := some (some manifest),
        doing := .cleanUp manifest, promoted := state.promoted ++ [manifest] }
  | .deletePromoted left => { state with active := .absent, doing := .rollBack left }
  | .rollBack left =>
      match state.backup with
      | .absent => { state with cache := none }.nextEndpoint left
      | held => { state with active := held, backup := .absent, cache := none }.nextEndpoint left
  | .cleanUp _ => { state with backup := .absent }.ended
  | .discardAtEnd => { state with staging := .absent }.ended
  | .readActive =>
      match state.active with
      | .complete manifest => { state with doing := .discardBackup manifest }
      | _ => { state with doing := .readBackup }
  | .discardBackup manifest => { state with backup := .absent }.answer (some manifest)
  | .readBackup =>
      match state.backup with
      | .complete manifest => { state with doing := .deleteActive manifest }
      | _ => state.answer none
  | .deleteActive manifest => { state with active := .absent, doing := .restoreBackup manifest }
  | .restoreBackup manifest =>
      { state with active := state.backup, backup := .absent }.answer (some manifest)

/-- The next operation failed: what catches it. -/
def caught (state : GeoData Manifest) : GeoData Manifest :=
  match state.doing with
  | .idle => state
  | .discardStaging _ | .cleanUp _ | .discardAtEnd => state.ended
  | .fetchManifest left | .createStaging left _ | .writeAssets left _ | .writeManifest left _
  | .validate left _ => state.nextEndpoint left
  | .deleteBackup left _ | .moveActive left _ | .promote left _ false | .deletePromoted left
  | .rollBack left => { state with cache := none }.nextEndpoint left
  | .promote left _ true => { state with doing := .deletePromoted left }
  | .readActive => { state with doing := .readBackup }
  | .discardBackup manifest => state.answer (some manifest)
  | .readBackup | .deleteActive _ | .restoreBackup _ => state.answer none

/-- A call of `install`, while no call is going on. Two endpoints are tried. -/
def install (state : GeoData Manifest) : GeoData Manifest :=
  match state.doing with
  | .idle => { state with doing := .discardStaging 1 }
  | _ => state

/-- A call of `installed`, while no call is going on. -/
def installed (state : GeoData Manifest) : GeoData Manifest :=
  match state.doing with
  | .idle =>
      match state.cache with
      | some result => { state with answers := state.answers ++ [result] }
      | none => { state with doing := .readActive }
  | _ => state

def fetched (offer : Option Manifest) (state : GeoData Manifest) : GeoData Manifest :=
  match state.doing with
  | .fetchManifest left =>
      match offer with
      | some manifest => { state with doing := .createStaging left manifest }
      | none => state.nextEndpoint left
  | _ => state

def refused (state : GeoData Manifest) : GeoData Manifest :=
  match state.doing with
  | .writeAssets left _ => state.nextEndpoint left
  | _ => state

def fails (state : GeoData Manifest) : GeoData Manifest :=
  match state.doing with
  | .idle => state
  | _ => { state with troubled := true }.caught

def step (state : GeoData Manifest) : GeoEvent Manifest → GeoData Manifest
  | .install => state.install
  | .installed => state.installed
  | .fetched offer => state.fetched offer
  | .refused => state.refused
  | .done => state.done
  | .fails => state.fails
  | .crashes => state.restarted

/-- Every state after some events. -/
def run (state : GeoData Manifest) (events : List (GeoEvent Manifest)) : GeoData Manifest :=
  events.foldl step state

/-! ### What every state of a run keeps -/

/-- Whether the swap is half done, so that what is remembered may be out of date. -/
def Swapping (state : GeoData Manifest) : Prop :=
  match state.doing with
  | .promote _ _ _ | .deletePromoted _ | .rollBack _ => True
  | _ => False

/-- What an operation finds as it starts. No rename finds its target. -/
def Finds (state : GeoData Manifest) : Prop :=
  match state.doing with
  | .idle => state.troubled = false
  | .validate _ manifest | .deleteBackup _ manifest => state.staging = .complete manifest
  | .moveActive _ manifest => state.staging = .complete manifest ∧ state.backup = .absent
  | .promote _ manifest _ => state.staging = .complete manifest ∧ state.active = .absent
  | .deletePromoted _ | .rollBack _ => state.active = .absent
  | .cleanUp manifest => state.active = .complete manifest
  | .readActive => state.cache = none
  | .discardBackup manifest => state.cache = none ∧ state.active = .complete manifest
  | .readBackup =>
      state.cache = none ∧ (state.troubled = false → ∀ manifest, state.active ≠ .complete manifest)
  | .deleteActive manifest => state.cache = none ∧ state.backup = .complete manifest
  | .restoreBackup manifest =>
      state.cache = none ∧ state.backup = .complete manifest ∧ state.active = .absent
  | _ => True

/-- Whether an installation is there, in place or as the backup. -/
def Held (state : GeoData Manifest) (manifest : Manifest) : Prop :=
  state.active = .complete manifest ∨ state.backup = .complete manifest

/-- Whether what is remembered is what is there. -/
def Remembers (state : GeoData Manifest) : Prop :=
  ∀ answer, state.cache = some answer →
    match answer with
    | some manifest => state.active = .complete manifest
    | none => ∀ manifest, ¬ state.Held manifest

structure Sound (state : GeoData Manifest) : Prop where
  finds : state.Finds
  remembers : ¬ state.Swapping → state.Remembers

theorem remembers_of_none {state : GeoData Manifest} (none : state.cache = none) :
    state.Remembers := by
  intro answer some
  cases none.symm.trans some

theorem sound_restarted (state : GeoData Manifest) : state.restarted.Sound :=
  ⟨rfl, fun _ => remembers_of_none rfl⟩

theorem sound_ended {state : GeoData Manifest} (remembers : state.Remembers) :
    state.ended.Sound := by
  rw [ended]
  split
  next => exact sound_restarted state
  next untroubled => exact ⟨eq_false_of_ne_true untroubled, fun _ => remembers⟩

theorem sound_answer {state : GeoData Manifest} {result : Option Manifest}
    (right : state.troubled = false → { state with cache := some result }.Remembers) :
    (state.answer result).Sound := by
  rw [answer, ended]
  split
  next => exact sound_restarted _
  next untroubled =>
      have calm := eq_false_of_ne_true untroubled
      exact ⟨calm, fun _ => right calm⟩

theorem sound_nextEndpoint {state : GeoData Manifest} (remembers : state.Remembers) (left : Nat) :
    (state.nextEndpoint left).Sound := by
  cases left with
  | zero => exact ⟨trivial, fun _ => remembers⟩
  | succ => exact ⟨trivial, fun _ => remembers⟩

theorem sound_done {state : GeoData Manifest} (sound : state.Sound) : state.done.Sound := by
  have finds := sound.finds
  have remembers := sound.remembers
  rw [Finds] at finds
  rw [Swapping] at remembers
  rw [done]
  cases doing : state.doing with
  | idle => exact sound
  | fetchManifest left => exact sound
  | discardStaging left =>
      rw [doing] at remembers
      exact ⟨trivial, fun _ => remembers id⟩
  | createStaging left manifest =>
      rw [doing] at remembers
      exact ⟨trivial, fun _ => remembers id⟩
  | writeAssets left manifest =>
      rw [doing] at remembers
      exact ⟨trivial, fun _ => remembers id⟩
  | writeManifest left manifest =>
      rw [doing] at remembers
      exact ⟨rfl, fun _ => remembers id⟩
  | validate left manifest =>
      rw [doing] at finds remembers
      simp only
      rw [finds]
      exact ⟨rfl, fun _ => remembers id⟩
  | deleteBackup left manifest =>
      rw [doing] at finds remembers
      refine ⟨⟨finds, rfl⟩, fun _ answer known => ?_⟩
      have right := remembers id answer known
      cases answer with
      | some => exact right
      | none => exact fun other held => right other (held.imp_right nofun)
  | moveActive left manifest =>
      rw [doing] at finds
      simp only
      split
      next gone => exact ⟨⟨finds.1, gone⟩, fun settled => absurd trivial settled⟩
      next => exact ⟨⟨finds.1, rfl⟩, fun settled => absurd trivial settled⟩
  | promote left manifest moved =>
      rw [doing] at finds
      refine ⟨finds.1, fun _ answer known => ?_⟩
      obtain rfl := Option.some.inj known
      exact finds.1
  | deletePromoted left => exact ⟨rfl, fun settled => absurd trivial settled⟩
  | rollBack left =>
      simp only
      split
      next => exact sound_nextEndpoint (remembers_of_none rfl) left
      next => exact sound_nextEndpoint (remembers_of_none rfl) left
  | cleanUp manifest =>
      rw [doing] at finds remembers
      refine sound_ended fun answer known => ?_
      have right := remembers id answer known
      cases answer with
      | some => exact right
      | none => exact absurd (.inl finds) (right manifest)
  | discardAtEnd =>
      rw [doing] at remembers
      exact sound_ended (remembers id)
  | readActive =>
      rw [doing] at finds remembers
      simp only
      split
      next manifest held => exact ⟨⟨finds, held⟩, fun _ => remembers id⟩
      next notHeld => exact ⟨⟨finds, fun _ => notHeld⟩, fun _ => remembers id⟩
  | discardBackup manifest =>
      rw [doing] at finds
      refine sound_answer fun _ answer known => ?_
      obtain rfl := Option.some.inj known
      exact finds.2
  | readBackup =>
      rw [doing] at finds remembers
      simp only
      split
      next manifest held => exact ⟨⟨finds.1, held⟩, fun _ => remembers id⟩
      next notHeld =>
          refine sound_answer fun calm answer known => ?_
          obtain rfl := Option.some.inj known
          rintro manifest (active | held)
          · exact finds.2 calm manifest active
          · exact notHeld manifest held
  | deleteActive manifest =>
      rw [doing] at finds
      exact ⟨⟨finds.1, finds.2, rfl⟩, fun _ => remembers_of_none finds.1⟩
  | restoreBackup manifest =>
      rw [doing] at finds
      refine sound_answer fun _ answer known => ?_
      obtain rfl := Option.some.inj known
      exact finds.2.1

theorem sound_caught {state : GeoData Manifest} (sound : state.Sound)
    (busy : state.doing ≠ .idle) : ({ state with troubled := true }.caught).Sound := by
  have finds := sound.finds
  have remembers := sound.remembers
  rw [Finds] at finds
  rw [Swapping] at remembers
  rw [caught]
  simp only
  cases doing : state.doing with
  | idle => exact absurd doing busy
  | discardStaging | cleanUp | discardAtEnd | discardBackup | readBackup | deleteActive
  | restoreBackup => exact sound_restarted _
  | fetchManifest left | createStaging left | writeAssets left | writeManifest left
  | validate left =>
      rw [doing] at remembers
      have still : ({ state with troubled := true } : GeoData Manifest).Remembers := remembers id
      exact sound_nextEndpoint still left
  | deleteBackup left | moveActive left | deletePromoted left | rollBack left =>
      exact sound_nextEndpoint (remembers_of_none rfl) left
  | promote left manifest moved =>
      rw [doing] at finds
      cases moved with
      | false => exact sound_nextEndpoint (remembers_of_none rfl) left
      | true => exact ⟨finds.2, fun settled => absurd trivial settled⟩
  | readActive =>
      rw [doing] at finds remembers
      exact ⟨⟨finds, nofun⟩, fun _ => remembers id⟩

theorem sound_step {state : GeoData Manifest} (sound : state.Sound) (event : GeoEvent Manifest) :
    (state.step event).Sound := by
  have finds := sound.finds
  have remembers := sound.remembers
  rw [Finds] at finds
  rw [Swapping] at remembers
  cases event with
  | install =>
      rw [step, install]
      split
      next idle =>
          rw [idle] at remembers
          exact ⟨trivial, fun _ => remembers id⟩
      next => exact sound
  | installed =>
      rw [step, installed]
      split
      next idle =>
          split
          next result known =>
              rw [idle] at finds remembers
              refine ⟨?_, fun _ => remembers id⟩
              rw [Finds]
              simp only
              rw [idle]
              exact finds
          next none => exact ⟨none, fun _ => remembers_of_none none⟩
      next => exact sound
  | fetched offer =>
      rw [step, fetched]
      split
      next left waits =>
          rw [waits] at remembers
          cases offer with
          | none => exact sound_nextEndpoint (remembers id) left
          | some => exact ⟨trivial, fun _ => remembers id⟩
      next => exact sound
  | refused =>
      rw [step, refused]
      split
      next left _ writes =>
          rw [writes] at remembers
          exact sound_nextEndpoint (remembers id) left
      next => exact sound
  | done => exact sound_done sound
  | fails =>
      rw [step, fails]
      split
      next => exact sound
      next busy => exact sound_caught sound busy
  | crashes => exact sound_restarted state

/-! ### What a step moves -/

/-- Where two states have the same directories, and the same is known of the calls so far. -/
structure Same (state after : GeoData Manifest) : Prop where
  active : after.active = state.active
  backup : after.backup = state.backup
  promoted : after.promoted = state.promoted
  answers : after.answers = state.answers

theorem same_ended (state : GeoData Manifest) : state.Same state.ended := by
  rw [ended]
  split <;> exact ⟨rfl, rfl, rfl, rfl⟩

theorem same_nextEndpoint (state : GeoData Manifest) (left : Nat) :
    state.Same (state.nextEndpoint left) := by
  cases left <;> exact ⟨rfl, rfl, rfl, rfl⟩

/-- What an answer says of the installations that are there. -/
def Right (state : GeoData Manifest) (result : Option Manifest) : Prop :=
  match result with
  | some manifest => state.Held manifest
  | none => ∀ manifest, ¬ state.Held manifest

/-- What becomes of a state in a step: whatever is there was there, or was just promoted, and an
answer given is right. -/
structure Moves (state after : GeoData Manifest) : Prop where
  held : ∀ manifest, after.Held manifest → state.Held manifest ∨ manifest ∈ after.promoted
  promoted : state.promoted ⊆ after.promoted
  answers : after.answers = state.answers ∨
    ∃ result, after.answers = state.answers ++ [result] ∧ state.Right result

theorem Same.held {state after : GeoData Manifest} (same : state.Same after) (manifest : Manifest) :
    after.Held manifest ↔ state.Held manifest := by
  rw [Held, Held, same.active, same.backup]

theorem Same.moves {state after : GeoData Manifest} (same : state.Same after) :
    state.Moves after where
  held manifest held := .inl ((same.held manifest).mp held)
  promoted := same.promoted ▸ List.Subset.refl _
  answers := .inl same.answers

theorem Moves.same {state between after : GeoData Manifest} (moves : state.Moves between)
    (same : between.Same after) : state.Moves after where
  held manifest held := by
    rw [same.held] at held
    rw [same.promoted]
    exact moves.held manifest held
  promoted := same.promoted ▸ moves.promoted
  answers := same.answers ▸ moves.answers

/-- An operation that promotes nothing and ends no call. -/
theorem moves_of_folders {state after : GeoData Manifest}
    (active : ∀ manifest, after.active = .complete manifest → state.Held manifest)
    (backup : ∀ manifest, after.backup = .complete manifest → state.Held manifest)
    (promoted : after.promoted = state.promoted) (answers : after.answers = state.answers) :
    state.Moves after where
  held manifest held := .inl (held.elim (active manifest) (backup manifest))
  promoted := promoted ▸ List.Subset.refl _
  answers := .inl answers

/-- The end of `installed`: the directories are as given, and its answer is right where no
operation failed. -/
theorem moves_answer {state before : GeoData Manifest} {result : Option Manifest}
    (moves : state.Moves before) (unanswered : before.answers = state.answers)
    (right : before.troubled = false → state.Right result) :
    state.Moves (before.answer result) := by
  have answered : state.Moves { before with
      cache := some result
      answers := if before.troubled then before.answers else before.answers ++ [result] } := by
    refine ⟨moves.held, moves.promoted, ?_⟩
    simp only
    split
    next => exact .inl unanswered
    next calm => exact .inr ⟨result, by rw [unanswered], right (eq_false_of_ne_true calm)⟩
  exact answered.same (same_ended _)

theorem moves_done {state : GeoData Manifest} (sound : state.Sound) :
    state.Moves state.done := by
  have finds := sound.finds
  rw [Finds] at finds
  have refl : state.Same state := ⟨rfl, rfl, rfl, rfl⟩
  rw [done]
  cases doing : state.doing with
  | idle | fetchManifest => exact refl.moves
  | discardStaging | createStaging | writeAssets | writeManifest =>
      exact Same.moves ⟨rfl, rfl, rfl, rfl⟩
  | validate left =>
      simp only
      split
      next => exact Same.moves ⟨rfl, rfl, rfl, rfl⟩
      next => exact (same_nextEndpoint state left).moves
  | deleteBackup => exact moves_of_folders (fun _ => .inl) nofun rfl rfl
  | moveActive =>
      simp only
      split
      next => exact Same.moves ⟨rfl, rfl, rfl, rfl⟩
      next => exact moves_of_folders nofun (fun _ => .inl) rfl rfl
  | promote left manifest moved =>
      rw [doing] at finds
      refine ⟨?_, List.subset_append_left _ _, .inl rfl⟩
      rintro other (active | backup)
      · obtain rfl := Folder.complete.inj (finds.1.symm.trans active)
        exact .inr (List.mem_append_right _ List.mem_cons_self)
      · exact .inl (.inr backup)
  | deletePromoted => exact moves_of_folders nofun (fun _ => .inr) rfl rfl
  | rollBack left =>
      simp only
      split
      next =>
          have same : state.Same { state with cache := none } := ⟨rfl, rfl, rfl, rfl⟩
          exact same.moves.same (same_nextEndpoint _ left)
      next =>
          refine Moves.same ?_ (same_nextEndpoint _ left)
          exact moves_of_folders (fun _ => .inr) nofun rfl rfl
  | cleanUp =>
      refine Moves.same ?_ (same_ended _)
      exact moves_of_folders (fun _ => .inl) nofun rfl rfl
  | discardAtEnd =>
      refine Moves.same ?_ (same_ended _)
      exact moves_of_folders (fun _ => .inl) (fun _ => .inr) rfl rfl
  | readActive =>
      simp only
      split <;> exact Same.moves ⟨rfl, rfl, rfl, rfl⟩
  | discardBackup manifest =>
      rw [doing] at finds
      refine moves_answer ?_ rfl fun _ => .inl finds.2
      exact moves_of_folders (fun _ => .inl) nofun rfl rfl
  | readBackup =>
      rw [doing] at finds
      simp only
      split
      next => exact Same.moves ⟨rfl, rfl, rfl, rfl⟩
      next notHeld =>
          refine moves_answer refl.moves rfl fun calm => ?_
          rintro manifest (active | backup)
          · exact finds.2 calm manifest active
          · exact notHeld manifest backup
  | deleteActive => exact moves_of_folders nofun (fun _ => .inr) rfl rfl
  | restoreBackup manifest =>
      rw [doing] at finds
      refine moves_answer ?_ rfl fun _ => .inr finds.2.1
      exact moves_of_folders (fun _ => .inr) nofun rfl rfl

/-- A failed operation leaves the directories as they are. -/
theorem same_caught (state : GeoData Manifest) :
    state.Same ({ state with troubled := true }.caught) := by
  have answered (result : Option Manifest) :
      state.Same ({ state with troubled := true }.answer result) := ⟨rfl, rfl, rfl, rfl⟩
  have next (left : Nat) : state.Same ({ state with troubled := true }.nextEndpoint left) := by
    cases left <;> exact ⟨rfl, rfl, rfl, rfl⟩
  have forgotten (left : Nat) :
      state.Same ({ state with cache := none, troubled := true }.nextEndpoint left) := by
    cases left <;> exact ⟨rfl, rfl, rfl, rfl⟩
  rw [caught]
  simp only
  cases doing : state.doing with
  | idle | readActive => exact ⟨rfl, rfl, rfl, rfl⟩
  | discardStaging | cleanUp | discardAtEnd => exact ⟨rfl, rfl, rfl, rfl⟩
  | fetchManifest left | createStaging left | writeAssets left | writeManifest left
  | validate left => exact next left
  | deleteBackup left | moveActive left | deletePromoted left | rollBack left =>
      exact forgotten left
  | promote left manifest moved =>
      cases moved with
      | false => exact forgotten left
      | true => exact ⟨rfl, rfl, rfl, rfl⟩
  | discardBackup manifest => exact answered (some manifest)
  | readBackup | deleteActive | restoreBackup => exact answered none

theorem moves_step {state : GeoData Manifest} (sound : state.Sound) (event : GeoEvent Manifest) :
    state.Moves (state.step event) := by
  have refl : state.Same state := ⟨rfl, rfl, rfl, rfl⟩
  cases event with
  | install =>
      rw [step, install]
      split
      next => exact Same.moves ⟨rfl, rfl, rfl, rfl⟩
      next => exact refl.moves
  | installed =>
      rw [step, installed]
      split
      next idle =>
          have settled : ¬ state.Swapping := by
            rw [Swapping, idle]
            exact id
          split
          next result known =>
              refine ⟨fun _ => .inl, List.Subset.refl _, .inr ⟨result, rfl, ?_⟩⟩
              have remembered := sound.remembers settled result known
              cases result with
              | some => exact .inl remembered
              | none => exact remembered
          next => exact Same.moves ⟨rfl, rfl, rfl, rfl⟩
      next => exact refl.moves
  | fetched offer =>
      rw [step, fetched]
      split
      next left _ =>
          cases offer with
          | none => exact (same_nextEndpoint state left).moves
          | some => exact Same.moves ⟨rfl, rfl, rfl, rfl⟩
      next => exact refl.moves
  | refused =>
      rw [step, refused]
      split
      next left _ _ => exact (same_nextEndpoint state left).moves
      next => exact refl.moves
  | done => exact moves_done sound
  | fails =>
      rw [step, fails]
      split
      next => exact refl.moves
      next => exact (same_caught state).moves
  | crashes => exact Same.moves ⟨rfl, rfl, rfl, rfl⟩

/-! ### Runs -/

/-- Whether a swap is about to delete a backup that is the only installation. -/
def deletesOnly (state : GeoData Manifest) : Bool :=
  match state.doing with
  | .deleteBackup _ _ => !state.active.isComplete && state.backup.isComplete
  | _ => false

/-- Whether no step of a run does that. -/
def Spares (state : GeoData Manifest) : List (GeoEvent Manifest) → Prop
  | [] => True
  | event :: events =>
      (event = .done → state.deletesOnly = false) ∧ (state.step event).Spares events

instance decidableSpares [DecidableEq Manifest] (state : GeoData Manifest) :
    (events : List (GeoEvent Manifest)) → Decidable (state.Spares events)
  | [] => inferInstanceAs (Decidable True)
  | event :: events =>
      have := decidableSpares (state.step event) events
      inferInstanceAs (Decidable (_ ∧ _))

theorem held_ended {state : GeoData Manifest} (held : ∃ manifest, state.Held manifest) :
    ∃ manifest, state.ended.Held manifest :=
  held.imp fun manifest => ((same_ended state).held manifest).mpr

theorem held_nextEndpoint {state : GeoData Manifest} (held : ∃ manifest, state.Held manifest)
    (left : Nat) : ∃ manifest, (state.nextEndpoint left).Held manifest :=
  held.imp fun manifest => ((same_nextEndpoint state left).held manifest).mpr

theorem held_answer {state : GeoData Manifest} {result : Option Manifest}
    (held : ∃ manifest, state.Held manifest) :
    ∃ manifest, (state.answer result).Held manifest := by
  rw [answer]
  exact held_ended held

/-- An installation is left after an operation that spares it. -/
theorem held_done {state : GeoData Manifest} (sound : state.Sound) (spares : state.deletesOnly = false)
    (held : ∃ manifest, state.Held manifest) : ∃ manifest, state.done.Held manifest := by
  have finds := sound.finds
  rw [Finds] at finds
  rw [deletesOnly] at spares
  rw [done]
  cases doing : state.doing with
  | idle | fetchManifest | discardStaging | createStaging | writeAssets | writeManifest =>
      exact held
  | validate left =>
      simp only
      split
      next => exact held
      next => exact held_nextEndpoint held left
  | deleteBackup left manifest =>
      rw [doing] at spares
      rw [Bool.and_eq_false_imp, Bool.not_eq_true', ← Bool.not_eq_true, ← Bool.not_eq_true]
        at spares
      obtain ⟨manifest, active | backup⟩ := held
      · exact ⟨manifest, .inl active⟩
      · have isComplete : state.active.isComplete = true := by
          by_contra incomplete
          exact spares incomplete (Folder.isComplete_iff.mpr ⟨manifest, backup⟩)
        exact (Folder.isComplete_iff.mp isComplete).imp fun _ => .inl
  | moveActive left =>
      rw [doing] at finds
      simp only
      split
      next => exact held
      next =>
          refine held.imp fun manifest held => .inr (held.resolve_right fun backup => ?_)
          cases finds.2.symm.trans backup
  | promote left manifest moved =>
      rw [doing] at finds
      exact ⟨manifest, .inl finds.1⟩
  | deletePromoted left =>
      rw [doing] at finds
      refine held.imp fun manifest held => .inr (held.resolve_left fun active => ?_)
      cases finds.symm.trans active
  | rollBack left =>
      rw [doing] at finds
      have backup : ∃ manifest, state.backup = .complete manifest :=
        held.imp fun manifest held => held.resolve_left fun active => by
          cases finds.symm.trans active
      simp only
      split
      next gone =>
          obtain ⟨manifest, backup⟩ := backup
          cases gone.symm.trans backup
      next => exact held_nextEndpoint (backup.imp fun _ => .inl) left
  | cleanUp manifest =>
      rw [doing] at finds
      exact held_ended ⟨manifest, .inl finds⟩
  | discardAtEnd => exact held_ended held
  | readActive =>
      simp only
      split <;> exact held
  | discardBackup manifest =>
      rw [doing] at finds
      exact held_answer ⟨manifest, .inl finds.2⟩
  | readBackup =>
      simp only
      split
      next => exact held
      next => exact held_answer held
  | deleteActive manifest =>
      rw [doing] at finds
      exact ⟨manifest, .inr finds.2⟩
  | restoreBackup manifest =>
      rw [doing] at finds
      exact held_answer ⟨manifest, .inl finds.2.1⟩

theorem held_step {state : GeoData Manifest} {event : GeoEvent Manifest} (sound : state.Sound)
    (spares : event = .done → state.deletesOnly = false)
    (held : ∃ manifest, state.Held manifest) : ∃ manifest, (state.step event).Held manifest := by
  cases event with
  | install =>
      rw [step, install]
      split <;> exact held
  | installed =>
      rw [step, installed]
      split
      next => split <;> exact held
      next => exact held
  | fetched offer =>
      rw [step, fetched]
      split
      next left _ =>
          cases offer with
          | none => exact held_nextEndpoint held left
          | some => exact held
      next => exact held
  | refused =>
      rw [step, refused]
      split
      next left _ _ => exact held_nextEndpoint held left
      next => exact held
  | done => exact held_done sound (spares rfl) held
  | fails =>
      rw [step, fails]
      split
      next => exact held
      next => exact held.imp fun manifest => ((same_caught state).held manifest).mpr
  | crashes => exact held

theorem sound_run {state : GeoData Manifest} (sound : state.Sound)
    (events : List (GeoEvent Manifest)) : (state.run events).Sound := by
  induction events generalizing state with
  | nil => exact sound
  | cons event events inductionHypothesis => exact inductionHypothesis (sound_step sound event)

/-- What a run that spares the only installation comes to, from a state that has one: there is
one, each is of those there at first or promoted since, and so is each answer. -/
theorem finds_run {state : GeoData Manifest} {events : List (GeoEvent Manifest)}
    (sound : state.Sound) (held : ∃ manifest, state.Held manifest) (spare : state.Spares events) :
    ∃ given, (state.run events).answers = state.answers ++ given ∧
      state.promoted ⊆ (state.run events).promoted ∧
      ∀ result ∈ given, ∃ manifest, result = some manifest ∧
        (state.Held manifest ∨ manifest ∈ (state.run events).promoted) := by
  induction events generalizing state with
  | nil => exact ⟨[], (List.append_nil _).symm, List.Subset.refl _, nofun⟩
  | cons event events inductionHypothesis =>
      have moves := moves_step sound event
      obtain ⟨given, answers, promoted, finds⟩ :=
        inductionHypothesis (sound_step sound event) (held_step sound spare.1 held) spare.2
      have later : ∀ result ∈ given, ∃ manifest, result = some manifest ∧
          (state.Held manifest ∨ manifest ∈ (state.run (event :: events)).promoted) := by
        intro result isGiven
        obtain ⟨manifest, isSome, there⟩ := finds result isGiven
        refine ⟨manifest, isSome, ?_⟩
        rcases there with there | promotedSince
        · exact (moves.held manifest there).imp_right fun isPromoted => promoted isPromoted
        · exact .inr promotedSince
      rcases moves.answers with same | ⟨result, appended, right⟩
      · exact ⟨given, answers.trans (same ▸ rfl), fun _ isPromoted =>
          promoted (moves.promoted isPromoted), later⟩
      · refine ⟨result :: given, answers.trans ?_, fun _ isPromoted =>
          promoted (moves.promoted isPromoted), List.forall_mem_cons.mpr ⟨?_, later⟩⟩
        · rw [appended, List.append_assoc]
          rfl
        · cases result with
          | none =>
              obtain ⟨manifest, there⟩ := held
              exact absurd there (right manifest)
          | some manifest => exact ⟨manifest, rfl, .inl right⟩

theorem run_append (state : GeoData Manifest) (before after : List (GeoEvent Manifest)) :
    state.run (before ++ after) = (state.run before).run after :=
  List.foldl_append

/-- Once an installation is there, in place or as the backup, every `installed` that runs to its
end returns an installation, one that was there or one that reached its final rename, in every run
whose swaps do not start by deleting a backup that is the only installation. -/
theorem installed_finds (start : GeoData Manifest) (before after : List (GeoEvent Manifest))
    (existed : ∃ manifest, (start.restarted.run before).Held manifest)
    (spare : (start.restarted.run before).Spares after) :
    ∃ given, (start.restarted.run (before ++ after)).answers =
        (start.restarted.run before).answers ++ given ∧
      ∀ result ∈ given, ∃ manifest, result = some manifest ∧
        ((start.restarted.run before).Held manifest ∨
          manifest ∈ (start.restarted.run (before ++ after)).promoted) := by
  have sound := sound_run (sound_restarted start) before
  obtain ⟨given, answers, -, finds⟩ := finds_run sound existed spare
  rw [run_append]
  exact ⟨given, answers, finds⟩

/-- An installation, and nothing else. -/
def oldInstalled : GeoData Nat := { active := .complete 1 }

/-- An install that stops between the two renames. -/
def stopped : List (GeoEvent Nat) :=
  [.install, .done, .fetched (some 2), .done, .done, .done, .done, .done, .done, .crashes]

/-- A start that asks what is installed. -/
def asks : List (GeoEvent Nat) := [.installed, .done, .done, .done, .done]

/-- Asked for after such a stop, the old installation is put back. -/
theorem installed_finds_stopped :
    ∃ given, (oldInstalled.restarted.run (stopped ++ asks)).answers =
        (oldInstalled.restarted.run stopped).answers ++ given ∧
      ∀ result ∈ given, ∃ manifest, result = some manifest ∧
        ((oldInstalled.restarted.run stopped).Held manifest ∨
          manifest ∈ (oldInstalled.restarted.run (stopped ++ asks)).promoted) := by
  have held : ∃ manifest, (oldInstalled.restarted.run stopped).Held manifest :=
    ⟨1, .inr (by decide +kernel)⟩
  have spares : (oldInstalled.restarted.run stopped).Spares asks := by decide +kernel
  exact installed_finds oldInstalled stopped asks held spares

/-- Not asked for, it is deleted by the next install, which may stop there. -/
theorem installed_finds_nothing :
    oldInstalled.restarted.Held 1 ∧
    (oldInstalled.restarted.run (stopped ++ [.install, .done, .fetched (some 2), .done, .done,
      .done, .done, .done, .crashes, .installed, .done, .done])).answers = [none] :=
  ⟨.inl rfl, by decide +kernel⟩

end GeoData

end ServerBox.Geo
