import ServerBox.Std.System
import ServerBox.Std.Text
import Mathlib

/-!
# The directory of custom commands

`src/crates/sbm_parser/src/script.rs`: the script that installs a set of custom commands
(`install_custom_cmds_script`, its Unix half) and the loop of the status script that runs the
ones installed (`unix_custom_cmds`), step by step in any order. A move of a directory is one
step; a removal takes a file at a time. What the shell sorts a listing by is a parameter.
-/

namespace ServerBox.Script.CustomCommands

open ServerBox.Std

/-! ### Directories -/

/-- The files of a directory, by name. -/
abbrev Directory := List (Text × Text)

def writeFile (directory : Directory) (file : Text × Text) : Directory :=
  file :: directory.filter fun other => other.1 ≠ file.1

def removeFile (directory : Directory) (name : Text) : Directory :=
  directory.filter fun other => other.1 ≠ name

/-- The directory `$d`, its `.new` and its `.bak`. -/
structure Directories where
  dir : Option Directory
  new : Option Directory
  backup : Option Directory
deriving DecidableEq

/-- Where a poll reads: `$d`, or `$d.bak`. -/
inductive Place where
  | dir
  | backup
deriving DecidableEq

def Directories.at (directories : Directories) : Place → Directory
  | .dir => directories.dir.getD []
  | .backup => directories.backup.getD []

/-- `[ -d "$d" ] || d="$d.bak"`. -/
def Directories.choose (directories : Directories) : Place :=
  if directories.dir.isSome then .dir else .backup

/-! ### What a listing runs -/

def isNameChar (char : Char) : Bool :=
  char.isAlphanum || char = '_' || char = '=' || char = '-'

/-- The name of a command's file: five digits, and an encoded name after the first `_`. -/
def isCommand (name : Text) : Bool :=
  let order := name.takeWhile (· ≠ '_')
  let encoded := if '_' ∈ name then (name.dropWhile (· ≠ '_')).tail else name
  order.length = 5 && order.all Char.isDigit && !encoded.isEmpty && encoded.all isNameChar

variable (collates : Text → Text → Bool)

/-- The names that `"$d"/*` expands to. -/
def glob (directory : Directory) : List Text :=
  (directory.map Prod.fst).insertionSort fun one other => collates one other

/-- The command of a name in a directory. -/
def commandAt (directory : Directory) (name : Text) : Option (Text × Text) :=
  if isCommand name then (directory.lookup name).map fun text => (name, text) else none

/-- The commands of a directory, in the order they run in. -/
def commands (directory : Directory) : List (Text × Text) :=
  (glob collates directory).filterMap (commandAt directory)

/-! ### The two scripts -/

/-- The next step of a poll. -/
inductive Poll where
  | begins
  /-- Not in the source: the commands that the directory held when it was chosen. -/
  | lists (place : Place) (held : List (Text × Text))
  /-- Not in the source: the directory as it was listed. -/
  | tests (place : Place) (listed : Directory) (names : List Text) (ran : List (Text × Text))
  | runs (place : Place) (listed : Directory) (name : Text) (names : List Text)
      (ran : List (Text × Text))
deriving DecidableEq

/-- The next step of an install. -/
inductive Install where
  | restores
  | clearsNew
  | clearsBackup
  | makes
  | writes (files : List (Text × Text))
  | movesNew
  | clears
  | undoes
  | removes
  | ended
deriving DecidableEq

structure State where
  directories : Directories
  poll : Poll
  install : Install
  /-- The files to be installed. -/
  files : List (Text × Text)
  /-- Not in the source: the set that was there. -/
  old : List (Text × Text)

/-- The directory that holds the files to be installed. -/
def State.fresh (state : State) : Directory := state.files.foldl writeFile []

inductive Event where
  | poll
  /-- A step of the install, which may be a failed `mv` of the new directory. -/
  | install (fails : Bool)
  /-- One file less of the directory that is being removed. -/
  | remove (name : Text)
  /-- The install is stopped, or a command of it failed. -/
  | stop

def poll (state : State) : Option State :=
  match state.poll with
  | .begins =>
      let place := state.directories.choose
      some { state with poll := .lists place (commands collates (state.directories.at place)) }
  | .lists place _ =>
      let listed := state.directories.at place
      some { state with poll := .tests place listed (glob collates listed) [] }
  | .tests place listed (name :: names) ran =>
      if isCommand name && ((state.directories.at place).lookup name).isSome then
        some { state with poll := .runs place listed name names ran }
      else some { state with poll := .tests place listed names ran }
  | .tests _ _ [] _ => none
  | .runs place listed name names ran =>
      let found := ((state.directories.at place).lookup name).map fun text => (name, text)
      some { state with poll := .tests place listed names (ran ++ found.toList) }

def install (state : State) (fails : Bool) : Option State :=
  let directories := state.directories
  match state.install with
  | .restores =>
      let restored :=
        if directories.dir.isNone then
          { directories with dir := directories.backup, backup := none }
        else directories
      some { state with directories := restored, install := .clearsNew }
  | .clearsNew =>
      if directories.new.getD [] = [] then
        some { state with
          directories := { directories with new := none }
          install := .clearsBackup }
      else none
  | .clearsBackup =>
      if directories.backup.getD [] = [] then
        some { state with directories := { directories with backup := none }, install := .makes }
      else none
  | .makes =>
      some { state with
        directories := { directories with new := some [] }
        install := .writes state.files }
  | .writes (file :: files) =>
      let written := directories.new.map fun new => writeFile new file
      some { state with
        directories := { directories with new := written }
        install := .writes files }
  | .writes [] =>
      let moved :=
        if directories.dir.isSome then { directories with dir := none, backup := directories.dir }
        else directories
      some { state with directories := moved, install := .movesNew }
  | .movesNew =>
      if fails then some { state with install := .clears }
      else
        some { state with
          directories := { directories with dir := directories.new, new := none }
          install := .removes }
  | .clears =>
      if directories.dir.getD [] = [] then
        some { state with directories := { directories with dir := none }, install := .undoes }
      else none
  | .undoes =>
      let undone :=
        if directories.backup.isSome then
          { directories with dir := directories.backup, backup := none }
        else directories
      some { state with directories := undone, install := .ended }
  | .removes =>
      if directories.backup.getD [] = [] then
        some { state with directories := { directories with backup := none }, install := .ended }
      else none
  | .ended => none

/-- One file removed by the `rm -rf` that the install is in. -/
def remove (state : State) (name : Text) : Option State :=
  let directories := state.directories
  match state.install with
  | .clearsNew =>
      let new := directories.new.map fun new => removeFile new name
      some { state with directories := { directories with new } }
  | .clearsBackup | .removes =>
      let backup := directories.backup.map fun backup => removeFile backup name
      some { state with directories := { directories with backup } }
  | .clears =>
      let dir := directories.dir.map fun dir => removeFile dir name
      some { state with directories := { directories with dir } }
  | _ => none

def next (state : State) : Event → Option State
  | .poll => poll collates state
  | .install fails => install state fails
  | .remove name => remove state name
  | .stop => some { state with install := .ended }

/-- A set installed, or left in the backup by an install that was interrupted, and whatever
else is there. -/
structure Initial (state : State) : Prop where
  poll : state.poll = .begins
  install : state.install = .restores
  old : state.old = commands collates (state.directories.at state.directories.choose)

def scripts : System State Event := System.ofNext (Initial collates) (next collates)

/-! ### The property -/

/-- A poll that is over ran the old set's commands, or the new set's. -/
def OneSet (state : State) : Prop :=
  ∀ place listed ran, state.poll = .tests place listed [] ran →
    ran = state.old ∨ ran = commands collates state.fresh

/-- A step that reads what it goes by: the directory listed holds what it held when it was
chosen, or the new set; a command's file is still there when it is tested, and the one that
was listed when it is run. -/
def steady (state : State) : Event → Bool
  | .poll =>
      match state.poll with
      | .lists place held =>
          let now := commands collates (state.directories.at place)
          now = held || now = commands collates state.fresh
      | .tests place _ (name :: _) _ =>
          !isCommand name || ((state.directories.at place).lookup name).isSome
      | .runs place listed name _ _ =>
          (state.directories.at place).lookup name = listed.lookup name
      | _ => true
  | _ => true

section

variable {collates} {state after : State}

/-! ### The install -/

/-- The old set is in `$d`, or there is none. -/
def OldInDir (collates : Text → Text → Bool) (state : State) : Prop :=
  (∃ dir, state.directories.dir = some dir ∧ commands collates dir = state.old) ∨
    (state.directories.dir = none ∧ state.directories.backup = none ∧ state.old = [])

/-- The old set is in `$d.bak`, or there is none. -/
def OldInBackup (collates : Text → Text → Bool) (state : State) : Prop :=
  state.directories.dir = none ∧ commands collates (state.directories.at .backup) = state.old

/-- What a poll that begins now would run. -/
def Chosen (collates : Text → Text → Bool) (state : State) : Prop :=
  commands collates (state.directories.at state.directories.choose) = state.old ∨
    commands collates (state.directories.at state.directories.choose) =
      commands collates state.fresh

/-- Where the sets are at each step of the install. -/
def Placed (collates : Text → Text → Bool) (state : State) : Prop :=
  match state.install with
  | .restores => commands collates (state.directories.at state.directories.choose) = state.old
  | .clearsNew | .clearsBackup | .makes => OldInDir collates state
  | .writes files =>
      OldInDir collates state ∧
        ∃ new, state.directories.new = some new ∧ files.foldl writeFile new = state.fresh
  | .movesNew => OldInBackup collates state ∧ state.directories.new = some state.fresh
  | .clears | .undoes => OldInBackup collates state
  | .removes => state.directories.dir = some state.fresh
  | .ended => Chosen collates state

theorem at_choose_of_dir {dir : Directory} (isDir : state.directories.dir = some dir) :
    state.directories.at state.directories.choose = dir := by
  simp [Directories.choose, Directories.at, isDir]

theorem at_choose_of_none (noDir : state.directories.dir = none) :
    state.directories.at state.directories.choose = state.directories.at .backup := by
  simp [Directories.choose, noDir]

theorem OldInDir.chosen (placed : OldInDir collates state) : Chosen collates state := by
  rcases placed with ⟨dir, isDir, isOld⟩ | ⟨noDir, noBackup, noOld⟩
  · exact .inl (by rw [at_choose_of_dir isDir, isOld])
  · exact .inl (by rw [at_choose_of_none noDir, Directories.at, noBackup, noOld]; rfl)

theorem OldInBackup.chosen (placed : OldInBackup collates state) : Chosen collates state :=
  .inl (by rw [at_choose_of_none placed.1, placed.2])

theorem chosen_of_fresh (placed : state.directories.dir = some state.fresh) :
    Chosen collates state := .inr (by rw [at_choose_of_dir placed])

theorem Placed.chosen (placed : Placed collates state) : Chosen collates state := by
  unfold Placed at placed
  split at placed
  · exact .inl placed
  · exact placed.chosen
  · exact placed.chosen
  · exact placed.chosen
  · exact placed.1.chosen
  · exact placed.1.chosen
  · exact placed.chosen
  · exact placed.chosen
  · exact chosen_of_fresh placed
  · exact placed

/-- No step of the install leaves `$d` with half a set, or takes away the only copy of one. -/
theorem placed_install {fails : Bool} (placed : Placed collates state)
    (leads : install state fails = some after) : Placed collates after := by
  unfold install at leads
  unfold Placed at placed
  cases step : state.install with
  | restores =>
      simp only [step] at leads placed
      cases leads
      cases isDir : state.directories.dir with
      | some dir =>
          refine .inl ⟨dir, ?_, ?_⟩
          · simp [isDir]
          · rwa [at_choose_of_dir isDir] at placed
      | none =>
          rw [at_choose_of_none isDir, Directories.at] at placed
          cases isBackup : state.directories.backup with
          | some backup =>
              refine .inl ⟨backup, ?_, ?_⟩
              · simp
              · simpa [isBackup] using placed
          | none =>
              refine .inr ⟨?_, ?_, ?_⟩
              · simp
              · simp
              · rw [isBackup] at placed
                exact placed.symm
  | clearsNew =>
      simp only [step] at leads placed
      split at leads
      · cases leads
        exact placed
      · cases leads
  | clearsBackup =>
      simp only [step] at leads placed
      split at leads
      · cases leads
        rcases placed with inDir | ⟨noDir, -, noOld⟩
        · exact .inl inDir
        · exact .inr ⟨noDir, rfl, noOld⟩
      · cases leads
  | makes =>
      simp only [step] at leads placed
      cases leads
      exact ⟨placed, [], rfl, rfl⟩
  | writes files =>
      obtain ⟨inDir, new, isNew, rest⟩ : OldInDir collates state ∧
        ∃ new, state.directories.new = some new ∧ files.foldl writeFile new = state.fresh := by
        simpa only [step] using placed
      cases files with
      | cons file files =>
          simp only [step] at leads
          cases leads
          refine ⟨inDir, writeFile new file, ?_, rest⟩
          simp [isNew]
      | nil =>
          simp only [step] at leads
          cases leads
          rcases inDir with ⟨dir, isDir, isOld⟩ | ⟨noDir, noBackup, noOld⟩
          · refine ⟨⟨?_, ?_⟩, ?_⟩
            · simp [isDir]
            · simpa [isDir, Directories.at] using isOld
            · simp only [isDir, Option.isSome_some, if_true, isNew]
              exact congrArg some rest
          · refine ⟨⟨?_, ?_⟩, ?_⟩
            · simp [noDir]
            · simp only [noDir, Option.isSome_none, Bool.false_eq_true, if_false, Directories.at,
                noBackup, Option.getD_none, noOld]
              rfl
            · simp only [noDir, Option.isSome_none, Bool.false_eq_true, if_false, isNew]
              exact congrArg some rest
  | movesNew =>
      simp only [step] at leads placed
      obtain ⟨inBackup, isNew⟩ := placed
      split at leads
      · cases leads
        exact inBackup
      · cases leads
        exact isNew
  | clears =>
      simp only [step] at leads placed
      split at leads
      · cases leads
        exact ⟨rfl, placed.2⟩
      · cases leads
  | undoes =>
      simp only [step] at leads placed
      cases leads
      cases isBackup : state.directories.backup with
      | some backup =>
          refine .inl ?_
          have isOld := placed.2
          simpa [Directories.choose, Directories.at, isBackup] using isOld
      | none =>
          have chosen : Chosen collates state := placed.chosen
          simp only [Option.isSome_none, Bool.false_eq_true, if_false]
          exact chosen
  | removes =>
      simp only [step] at leads placed
      split at leads
      · cases leads
        exact chosen_of_fresh placed
      · cases leads
  | ended =>
      simp only [step] at leads
      cases leads

theorem placed_remove {name : Text} (placed : Placed collates state)
    (leads : remove state name = some after) : Placed collates after := by
  unfold remove at leads
  unfold Placed at placed
  cases step : state.install with
  | clearsNew =>
      simp only [step] at leads placed
      cases leads
      simp only [Placed]
      exact placed
  | clearsBackup =>
      simp only [step] at leads placed
      cases leads
      simp only [Placed]
      rcases placed with inDir | ⟨noDir, noBackup, noOld⟩
      · exact .inl inDir
      · exact .inr ⟨noDir, by simp [noBackup], noOld⟩
  | removes =>
      simp only [step] at leads placed
      cases leads
      simp only [Placed]
      exact placed
  | clears =>
      simp only [step] at leads placed
      cases leads
      simp only [Placed]
      exact ⟨by simp [placed.1], placed.2⟩
  | _ =>
      simp only [step] at leads
      cases leads

/-! ### The poll -/

/-- What a poll under way has run and is to run comes to one of the two sets. -/
def Runs (collates : Text → Text → Bool) (state : State) : Prop :=
  match state.poll with
  | .begins => True
  | .lists _ held => held = state.old ∨ held = commands collates state.fresh
  | .tests _ listed names ran =>
      ran ++ names.filterMap (commandAt listed) = state.old ∨
        ran ++ names.filterMap (commandAt listed) = commands collates state.fresh
  | .runs _ listed name names ran =>
      isCommand name = true ∧
        (ran ++ (name :: names).filterMap (commandAt listed) = state.old ∨
          ran ++ (name :: names).filterMap (commandAt listed) = commands collates state.fresh)

/-- A poll's step that reads what it goes by keeps to its set. -/
theorem runs_poll (chosen : Chosen collates state) (runs : Runs collates state)
    (reads : steady collates state .poll = true) (leads : poll collates state = some after) :
    Runs collates after := by
  unfold poll at leads
  unfold Runs at runs
  unfold steady at reads
  cases step : state.poll with
  | begins =>
      simp only [step] at leads
      cases leads
      exact chosen
  | lists place held =>
      simp only [step, Bool.or_eq_true, decide_eq_true_eq] at leads runs reads
      cases leads
      rcases reads with same | fresh
      · rw [← same] at runs
        exact runs
      · exact .inr fresh
  | tests place listed names ran =>
      cases names with
      | nil =>
          simp only [step] at leads
          cases leads
      | cons name names =>
          simp only [step] at leads runs reads
          split at leads
          next isThere =>
            cases leads
            rw [Bool.and_eq_true] at isThere
            exact ⟨isThere.1, runs⟩
          next notThere =>
            cases leads
            have noCommand : isCommand name = false := by
              cases isName : isCommand name with
              | false => rfl
              | true =>
                  refine absurd ?_ notThere
                  rw [isName] at reads ⊢
                  simpa using reads
            simp only [List.filterMap_cons, commandAt, noCommand, Bool.false_eq_true,
              if_false] at runs
            exact runs
  | runs place listed name names ran =>
      simp only [step, decide_eq_true_eq] at leads runs reads
      cases leads
      obtain ⟨isName, runs⟩ := runs
      have found : (((state.directories.at place).lookup name).map fun text => (name, text)) =
          commandAt listed name := by
        rw [reads, commandAt, if_pos isName]
      have same : ran ++ (name :: names).filterMap (commandAt listed) =
          (ran ++ (commandAt listed name).toList) ++ names.filterMap (commandAt listed) := by
        rw [List.filterMap_cons, List.append_assoc]
        cases commandAt listed name <;> rfl
      rw [same, ← found] at runs
      exact runs

end

/-! ### Runs of both -/

structure Inv (collates : Text → Text → Bool) (state : State) : Prop where
  placed : Placed collates state
  runs : Runs collates state

section

variable {collates} {state after : State}

theorem poll_frame (leads : poll collates state = some after) :
    after.directories = state.directories ∧ after.install = state.install ∧
      after.files = state.files ∧ after.old = state.old := by
  unfold poll at leads
  split at leads
  · cases leads
    exact ⟨rfl, rfl, rfl, rfl⟩
  · cases leads
    exact ⟨rfl, rfl, rfl, rfl⟩
  · split at leads
    · cases leads
      exact ⟨rfl, rfl, rfl, rfl⟩
    · cases leads
      exact ⟨rfl, rfl, rfl, rfl⟩
  · cases leads
  · cases leads
    exact ⟨rfl, rfl, rfl, rfl⟩

theorem install_frame {fails : Bool} (leads : install state fails = some after) :
    after.poll = state.poll ∧ after.files = state.files ∧ after.old = state.old := by
  unfold install at leads
  dsimp only at leads
  split at leads
  · cases leads
    exact ⟨rfl, rfl, rfl⟩
  · split at leads
    · cases leads
      exact ⟨rfl, rfl, rfl⟩
    · cases leads
  · split at leads
    · cases leads
      exact ⟨rfl, rfl, rfl⟩
    · cases leads
  · cases leads
    exact ⟨rfl, rfl, rfl⟩
  · cases leads
    exact ⟨rfl, rfl, rfl⟩
  · cases leads
    exact ⟨rfl, rfl, rfl⟩
  · split at leads
    · cases leads
      exact ⟨rfl, rfl, rfl⟩
    · cases leads
      exact ⟨rfl, rfl, rfl⟩
  · split at leads
    · cases leads
      exact ⟨rfl, rfl, rfl⟩
    · cases leads
  · cases leads
    exact ⟨rfl, rfl, rfl⟩
  · split at leads
    · cases leads
      exact ⟨rfl, rfl, rfl⟩
    · cases leads
  · cases leads

theorem remove_frame {name : Text} (leads : remove state name = some after) :
    after.poll = state.poll ∧ after.files = state.files ∧ after.old = state.old := by
  unfold remove at leads
  dsimp only at leads
  split at leads
  · cases leads
    exact ⟨rfl, rfl, rfl⟩
  · cases leads
    exact ⟨rfl, rfl, rfl⟩
  · cases leads
    exact ⟨rfl, rfl, rfl⟩
  · cases leads
    exact ⟨rfl, rfl, rfl⟩
  · cases leads

/-- What the install does changes no poll's account. -/
theorem Runs.of_frame (runs : Runs collates state) (poll : after.poll = state.poll)
    (files : after.files = state.files) (old : after.old = state.old) : Runs collates after := by
  unfold Runs at runs ⊢
  rw [poll, State.fresh, files, old]
  exact runs

theorem Placed.of_frame (placed : Placed collates state)
    (directories : after.directories = state.directories) (install : after.install = state.install)
    (files : after.files = state.files) (old : after.old = state.old) : Placed collates after := by
  obtain ⟨dirs, poll, step, others, was⟩ := after
  obtain rfl := directories
  obtain rfl := install
  obtain rfl := files
  obtain rfl := old
  exact placed

theorem inv_next {event : Event} (inv : Inv collates state)
    (reads : steady collates state event = true) (leads : next collates state event = some after) :
    Inv collates after := by
  cases event with
  | poll =>
      obtain ⟨directories, install, files, old⟩ := poll_frame leads
      exact ⟨inv.placed.of_frame directories install files old,
        runs_poll inv.placed.chosen inv.runs reads leads⟩
  | install fails =>
      obtain ⟨poll, files, old⟩ := install_frame leads
      exact ⟨placed_install inv.placed leads, inv.runs.of_frame poll files old⟩
  | remove name =>
      obtain ⟨poll, files, old⟩ := remove_frame leads
      exact ⟨placed_remove inv.placed leads, inv.runs.of_frame poll files old⟩
  | stop =>
      cases leads
      exact ⟨inv.placed.chosen, inv.runs⟩

theorem inv_initial (starts : Initial collates state) : Inv collates state := by
  refine ⟨?_, ?_⟩
  · simp only [Placed, starts.install]
    exact starts.old.symm
  · simp only [Runs, starts.poll]

/-- In every run in which the poll's steps read what they go by, it runs one of the two sets. -/
theorem oneSet_of_steady
    (reached : (scripts collates).Reached
      (fun state event => steady collates state event = true) state) : OneSet collates state := by
  have inv : Inv collates state := by
    refine reached.holds (fun _ => inv_initial) fun before event after inv reads leads => ?_
    exact inv_next inv reads leads
  intro place listed ran done
  have runs := inv.runs
  simpa [Runs, done] using runs

end

/-- A listing in the order of the bytes. -/
def byBytes (one other : Text) : Bool := one.map Char.toNat ≤ other.map Char.toNat

/-- `00100_YQ==` and `00200_Yg==`, the files of the commands `a` and `b`. -/
def fileA : Text := ['0', '0', '1', '0', '0', '_', 'Y', 'Q', '=', '=']

def fileB : Text := ['0', '0', '2', '0', '0', '_', 'Y', 'g', '=', '=']

def oldSet : Directory := [(fileB, ['o', 'l', 'd', 'B']), (fileA, ['o', 'l', 'd', 'A'])]

def newSet : List (Text × Text) :=
  [(fileA, ['n', 'e', 'w', 'A']), (fileB, ['n', 'e', 'w', 'B'])]

/-- Two commands installed, and an install that changes both. -/
def twoCommands : State :=
  ⟨⟨some oldSet, none, none⟩, .begins, .restores, newSet,
    commands byBytes oldSet⟩

theorem reached_twoCommands (meets : State → Event → Prop) :
    (scripts byBytes).Reached meets twoCommands :=
  .initial ⟨rfl, rfl, rfl⟩

/-- The whole of an install of two commands over two, with the files it removes. -/
def wholeInstall : List Event :=
  List.replicate 8 (.install false) ++ [.remove fileB, .remove fileA, .install false]

/-- A poll that begins while the set is written, and ends before it is moved into place. -/
def steadyRun : List Event :=
  [.install false, .poll, .install false, .install false, .poll, .install false, .poll, .poll,
    .install false, .poll, .poll, .install false, .install false]

def steadyState : State :=
  (System.follow (steady byBytes) (next byBytes) twoCommands steadyRun).get (by decide)

theorem oneSet_steadyState :
    steadyState.poll = .tests .dir oldSet [] (commands byBytes oldSet) ∧
      OneSet byBytes steadyState :=
  ⟨by decide, oneSet_of_steady
    (System.reached_get (steady byBytes) (next byBytes) steadyRun (reached_twoCommands _) _)⟩

/-- An install done whole between the first command of a poll and the second. -/
def mixedRun : List Event :=
  [.poll, .poll, .poll, .poll] ++ wholeInstall ++ [.poll, .poll]

def mixedState : State :=
  (System.follow (fun _ _ => true) (next byBytes) twoCommands mixedRun).get (by decide)

/-- It runs half of each set. -/
theorem not_oneSet :
    ¬ ∀ collates state, (scripts collates).Reachable state → OneSet collates state := by
  intro oneSet
  have reached := System.reached_get (fun _ _ => true) (next byBytes) mixedRun
    (reached_twoCommands _) (by decide)
  have each := oneSet byBytes mixedState (reached.mono fun _ _ _ => trivial) .dir oldSet
    [(fileA, ['o', 'l', 'd', 'A']), (fileB, ['n', 'e', 'w', 'B'])] (by decide)
  exact absurd each (by decide)

end ServerBox.Script.CustomCommands
