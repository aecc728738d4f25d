import ServerBox.Monitor.StackSecretsKept

/-!
# Runs of deploys

The invariant of a stack's env file over any sequence of deploys and removals, each of
which can end after any of its file operations.
-/

namespace ServerBox.Monitor.StackSecrets

open ServerBox.Std
open ServerBox.Monitor.Manifest

/-- Whether a step spares the secrets that were put: a file that holds some is read, no task
ends while it is empty, what is written of a new one gives back each, and the package it is
written for keeps each. -/
def spares (state : State) : Event → Bool
  | .readFile readable => readable || state.puts.isEmpty
  | .write none =>
      match state.phase with
      | .truncated deploy _ _ =>
          state.puts.all (keeps deploy.manifest) && hashesShown deploy.manifest
      | _ => true
  | .write (some length) =>
      match state.phase with
      | .truncated _ values _ =>
          state.puts.all fun put =>
            (readEnv ((envText values).take length) [put.name])[put.name]? = some put.value
      | _ => true
  | .stop =>
      match state.phase with
      | .truncated _ _ _ => state.puts.isEmpty
      | _ => true
  | _ => true

/-- Every env file written holds what those before it put there. -/
def SecretsKept (state : State) : Prop :=
  state.written.Pairwise fun later earlier =>
    ∀ put ∈ earlier.puts, later.values[put.name]? = some put.value

variable {bcrypt : Bcrypt}

/-- What the phase of a task says of the file and of what it read. -/
def PhaseSound (bcrypt : Bcrypt) (puts : List Put) (file : Text) : Phase → Prop
  | .idle | .begun _ => ReadBack puts file
  | .read _ earlier => ReadBack puts file ∧ ReadBack puts earlier
  | .made deploy values secrets => ReadBack puts file ∧ Sourced bcrypt puts deploy values secrets
  | .truncated deploy values secrets => Sourced bcrypt puts deploy values secrets

structure Sound (bcrypt : Bcrypt) (state : State) : Prop where
  hashes : Hashes bcrypt state.puts
  phase : PhaseSound bcrypt state.puts (state.file.getD []) state.phase
  kept : SecretsKept state

/-- Before a file is emptied it gives back what was put. -/
theorem PhaseSound.readBack {puts : List Put} {file : Text} {phase : Phase}
    (sound : PhaseSound bcrypt puts file phase)
    (whole : ∀ deploy values secrets, phase ≠ .truncated deploy values secrets) :
    ReadBack puts file := by
  cases phase with
  | idle => exact sound
  | begun deploy => exact sound
  | read deploy earlier => exact sound.1
  | made deploy values secrets => exact sound.1
  | truncated deploy values secrets => exact absurd rfl (whole deploy values secrets)

theorem readBack_nil {text : Text} : ReadBack [] text := nofun

/-- The env file that a write leaves gives back what it puts and what was put before. -/
theorem Sourced.readBack {puts : List Put} {deploy : Deploy} {values secrets : EnvMap}
    (sourced : Sourced bcrypt puts deploy values secrets) (hashes : Hashes bcrypt puts)
    (kept : ∀ put ∈ puts, keeps deploy.manifest put = true) :
    ReadBack (putsOf deploy.manifest secrets ++ puts) (envText values) := by
  obtain ⟨-, -, clean⟩ := sourced.made
  have lines : ∀ pair ∈ values.toList, EnvFile.Name pair.1 ∧ '\n' ∉ pair.2 := by
    obtain ⟨draw, earlier, host, -, rfl, -⟩ := sourced
    exact fileValues_lines (.of_problems deploy.accepted) deploy.allAccepted clean
  intro put isPut
  have held : secrets[put.name]? = some put.value ∧ values[put.name]? = some put.value := by
    rcases List.mem_append.mp isPut with new | old
    · exact sourced.secret_of_putsOf new
    · exact sourced.secret_of_keeps hashes old (kept put old)
  exact getElem?_readEnv_envText (fun pair isPair => (lines pair isPair).1)
    (fun pair isPair => (lines pair isPair).2) held.2 (clean _ _ held.1)

theorem Hashes.append {first second : List Put} (ofFirst : Hashes bcrypt first)
    (ofSecond : Hashes bcrypt second) : Hashes bcrypt (first ++ second) := by
  intro put isPut env isHashOf
  rcases List.mem_append.mp isPut with inFirst | inSecond
  · obtain ⟨value, isValue, verified⟩ := ofFirst put inFirst env isHashOf
    exact ⟨value, List.mem_append_left _ isValue, verified⟩
  · obtain ⟨value, isValue, verified⟩ := ofSecond put inSecond env isHashOf
    exact ⟨value, List.mem_append_right _ isValue, verified⟩

/-- A step that spares the secrets keeps the invariant. -/
theorem sound_next {state after : State} {event : Event} (sound : Sound bcrypt state)
    (spared : spares state event = true) (leads : next bcrypt state event = some after) :
    Sound bcrypt after := by
  obtain ⟨hashes, phaseSound, kept⟩ := sound
  cases event with
  | begin deploy =>
      simp only [next] at leads
      split at leads
      next idle =>
        cases leads
        exact ⟨hashes, phaseSound.readBack (by simp [idle]), kept⟩
      next => cases leads
  | readFile readable =>
      simp only [next] at leads
      split at leads
      next deploy begun =>
        cases leads
        have readBack := phaseSound.readBack (by simp [begun])
        refine ⟨hashes, ⟨readBack, ?_⟩, kept⟩
        cases readable with
        | true => exact readBack
        | false =>
            have none : state.puts = [] := List.isEmpty_iff.mp spared
            intro put isPut
            rw [State.puts] at none
            simp only [State.puts, none] at isPut
            cases isPut
      next => cases leads
  | make draw host =>
      simp only [next] at leads
      split at leads
      next deploy earlier isRead =>
        obtain ⟨secrets, made, same⟩ := Option.bind_eq_some_iff.mp leads
        cases same
        rw [isRead] at phaseSound
        exact ⟨hashes, ⟨phaseSound.1, draw, earlier, host, made, rfl, phaseSound.2⟩, kept⟩
      next => cases leads
  | truncate =>
      simp only [next] at leads
      split at leads
      next deploy values secrets isMade =>
        cases leads
        rw [isMade] at phaseSound
        exact ⟨hashes, phaseSound.2, kept⟩
      next => cases leads
  | setMode =>
      cases leads
      exact ⟨hashes, phaseSound, kept⟩
  | write cut =>
      cases cut with
      | none =>
          simp only [next] at leads
          split at leads
          next deploy values secrets isTruncated =>
            cases leads
            rw [isTruncated] at phaseSound
            simp only [spares, isTruncated, Bool.and_eq_true, List.all_eq_true] at spared
            have sourced : Sourced bcrypt state.puts deploy values secrets := phaseSound
            refine ⟨(sourced.hashes_putsOf spared.2).append hashes,
              sourced.readBack hashes spared.1, List.pairwise_cons.mpr ⟨?_, kept⟩⟩
            intro earlier isEarlier put isPut
            have inPuts : put ∈ state.puts := List.mem_flatMap.mpr ⟨earlier, isEarlier, isPut⟩
            exact (sourced.secret_of_keeps hashes inPuts (spared.1 put inPuts)).2
          next => cases leads
      | some length =>
          simp only [next] at leads
          split at leads
          next deploy values secrets isTruncated =>
            cases leads
            simp only [spares, isTruncated, List.all_eq_true, decide_eq_true_eq] at spared
            exact ⟨hashes, spared, kept⟩
          next => cases leads
  | stop =>
      cases leads
      refine ⟨hashes, ?_, kept⟩
      cases isPhase : state.phase with
      | truncated deploy values secrets =>
          simp only [spares, isPhase, List.isEmpty_iff] at spared
          intro put isPut
          rw [State.puts] at spared
          simp only [State.puts, spared] at isPut
          cases isPut
      | _ => exact phaseSound.readBack (by simp [isPhase])
  | remove =>
      simp only [next] at leads
      split at leads
      next =>
        cases leads
        exact ⟨hashes, phaseSound, kept⟩
      next => cases leads

/-- In every run whose steps spare them, each secret put in an env file is in every later one
with the same value. -/
theorem secretsKept_of_spares {state : State}
    (reached : (stack bcrypt).Reached (fun state event => spares state event = true) state) :
    SecretsKept state := by
  have sound : Sound bcrypt state := by
    refine reached.holds ?_ fun before event after sound spared leads =>
      sound_next sound spared leads
    rintro _ ⟨file, rfl⟩
    exact ⟨nofun, nofun, .nil⟩
  exact sound.kept

/-! ### A database -/

/-- A manifest that asks for one password. -/
def databaseManifest : Manifest where
  composeFiles := ["compose.yaml".toList]
  env := ∅
  secrets := [⟨"DB_PASSWORD".toList, 16, none, false⟩]
  settings := []
  mcp := []
  llm := none

def databaseDeploy : Deploy where
  manifest := databaseManifest
  patterns := anything
  given := ∅
  machine := noteMachine
  free := fun _ _ => true
  follow := true
  settings := ∅
  accepted := by decide
  settled := rfl

/-- A `bcrypt` that makes no hash, for a manifest that asks for none. -/
def noBcrypt : Bcrypt where
  verify := fun _ _ => false
  hash := fun _ _ => none
  verify_hash := nofun
  hash_plain := nofun

def drawOf (value : String) : Draw := ⟨fun _ => some value.toList, []⟩

/-- A deploy that runs to its end. -/
def wholeDeploy (value : String) : List Event :=
  [.begin databaseDeploy, .readFile true, .make (drawOf value) noteHost, .truncate, .setMode,
    .write none]

def keptRun : List Event :=
  wholeDeploy "aaaaaaaaaaaaaaaa" ++ [.remove, .begin databaseDeploy, .stop] ++
    wholeDeploy "bbbbbbbbbbbbbbbb"

theorem reached_noFile (meets : State → Event → Prop) :
    (stack noBcrypt).Reached meets ⟨none, .idle, []⟩ := .initial ⟨none, rfl⟩

def keptState : State :=
  (System.follow spares (next noBcrypt) ⟨none, .idle, []⟩ keptRun).get (by decide +kernel)

theorem secretsKept_keptState : keptState.written.length = 2 ∧ SecretsKept keptState :=
  ⟨by decide +kernel, secretsKept_of_spares
    (System.reached_get spares (next noBcrypt) keptRun (reached_noFile _) _)⟩

/-- A deploy that dies when it has emptied the file, between two that run to their end. -/
def lostRun : List Event :=
  wholeDeploy "aaaaaaaaaaaaaaaa" ++
    [.begin databaseDeploy, .readFile true, .make (drawOf "bbbbbbbbbbbbbbbb") noteHost, .truncate,
      .stop] ++
    wholeDeploy "cccccccccccccccc"

def lostState : State :=
  (System.follow (fun _ _ => true) (next noBcrypt) ⟨none, .idle, []⟩ lostRun).get (by decide +kernel)

theorem not_secretsKept : ¬ ∀ state, (stack noBcrypt).Reachable state → SecretsKept state := by
  intro always
  have reached : (stack noBcrypt).Reachable lostState :=
    (System.reached_get (fun _ _ => true) (next noBcrypt) lostRun (reached_noFile _) _).mono
      fun _ _ _ => trivial
  have differ : ¬ lostState.written.Pairwise fun later earlier =>
      ∀ put ∈ earlier.puts, later.values[put.name]? = some put.value := by decide +kernel
  exact differ (always _ reached)

end ServerBox.Monitor.StackSecrets
