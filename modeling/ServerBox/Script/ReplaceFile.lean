import ServerBox.Std.ShellScript

/-!
# A configuration file replaced

`replace_file_script` of `src/crates/sbm_parser/src/script.rs`: root's script that writes a
file, keeps the previous one beside it while a check runs, and puts it back when the check
fails. Each of its commands may fail, and then leaves what it works on as it was.
-/

namespace ServerBox.Script.ReplaceFile

open ServerBox.Std

/-! ### The script -/

/-- A file: what it holds, and its owner and mode as one value. -/
structure File (Content Attributes : Type) where
  content : Content
  attributes : Attributes
deriving DecidableEq

/-- The file, its `.sbm-bak` and its `.new`. -/
structure Disk (Content Attributes : Type) where
  file : Option (File Content Attributes)
  backup : Option (File Content Attributes)
  staged : Option (File Content Attributes)
deriving DecidableEq

/-- The commands of the script. -/
inductive Step where
  | makeFolder
  | isFile
  | copy
  | removeBackup
  | write
  | chmod
  | move
  | check
  | isBackup
  | moveBack
  | remove
  | echo
deriving DecidableEq

/-- How the script is run: what it writes, which of its commands do not fail, and the owner and
mode that files get. -/
structure Setting (Content Attributes : Type) where
  content : Content
  succeeds : Step → Bool
  /-- Of a new copy of a file. -/
  copied : Attributes → Attributes
  /-- Of a new file. -/
  created : Attributes
  /-- By `chmod 644`. -/
  readable : Attributes → Attributes
  /-- The exit status of a refusal. -/
  refused : Nat

section

variable {Content Attributes : Type} (setting : Setting Content Attributes)

/-- A command that may fail. -/
def act (step : Step) (effect : Disk Content Attributes → Bool × Disk Content Attributes) :
    ShellScript (Disk Content Attributes) :=
  .command fun disk => if setting.succeeds step then effect disk else (false, disk)

/-- The owner and mode of a backup: a file that is written over keeps its own. -/
def copyAttributes (disk : Disk Content Attributes) (attributes : Attributes) : Attributes :=
  (disk.backup.map File.attributes).getD (setting.copied attributes)

def copy (disk : Disk Content Attributes) : Bool × Disk Content Attributes :=
  match disk.file with
  | some file =>
      (true, { disk with
        backup := some ⟨file.content, copyAttributes setting disk file.attributes⟩ })
  | none => (false, disk)

def write (disk : Disk Content Attributes) : Bool × Disk Content Attributes :=
  (true, { disk with
    staged := some ⟨setting.content, (disk.staged.map File.attributes).getD setting.created⟩ })

def chmod (disk : Disk Content Attributes) : Bool × Disk Content Attributes :=
  match disk.staged with
  | some file =>
      (true, { disk with staged := some ⟨file.content, setting.readable file.attributes⟩ })
  | none => (false, disk)

def move (disk : Disk Content Attributes) : Bool × Disk Content Attributes :=
  match disk.staged with
  | some file => (true, { disk with file := some file, staged := none })
  | none => (false, disk)

def moveBack (disk : Disk Content Attributes) : Bool × Disk Content Attributes :=
  match disk.backup with
  | some file => (true, { disk with file := some file, backup := none })
  | none => (false, disk)

/-- `[ -f "$f" ] && cp "$f" "$f.sbm-bak" || rm -f "$f.sbm-bak"`. -/
def backUp : ShellScript (Disk Content Attributes) :=
  .orElse
    (.andThen (act setting .isFile fun disk => (disk.file.isSome, disk))
      (act setting .copy (copy setting)))
    (act setting .removeBackup fun disk => (true, { disk with backup := none }))

/-- What a refusal does: the previous file back, or none. -/
def refuse : ShellScript (Disk Content Attributes) :=
  .block (.exit setting.refused)
    [.ifElse (act setting .isBackup fun disk => (disk.backup.isSome, disk))
      (act setting .moveBack moveBack)
      (act setting .remove fun disk => (true, { disk with file := none })),
     act setting .echo fun disk => (true, disk)]

/-- The new file put in place and checked. -/
def replaced : ShellScript (Disk Content Attributes) :=
  .block
    (.ifElse (.not (act setting .check fun disk => (true, disk))) (refuse setting)
      (.command fun disk => (true, disk)))
    [act setting .write (write setting), act setting .chmod (chmod setting),
     act setting .move move]

def replaceFileScript : ShellScript (Disk Content Attributes) :=
  .block (replaced setting)
    [act setting .makeFolder fun disk => (true, disk), backUp setting]

/-- What is left when the script exits. -/
def left (before : Disk Content Attributes) : Disk Content Attributes :=
  ((replaceFileScript setting).runErrexit before).state

/-! ### The property -/

/-- The file holds what was written and the check passed, or it is as it was. -/
def LeavesOld (before : Disk Content Attributes) : Prop :=
  ((left setting before).file.map File.content = some setting.content ∧
    setting.succeeds .check = true) ∨
  (left setting before).file = before.file

/-- Whether the previous file is copied. -/
def copies (before : Disk Content Attributes) : Bool :=
  before.file.isSome && setting.succeeds .isFile && setting.succeeds .copy

/-- Whether the script gets to its check. -/
def getsToCheck (before : Disk Content Attributes) : Bool :=
  setting.succeeds .makeFolder && (copies setting before || setting.succeeds .removeBackup) &&
    setting.succeeds .write && setting.succeeds .chmod && setting.succeeds .move

/-- The file that is written. -/
def written (before : Disk Content Attributes) : File Content Attributes :=
  ⟨setting.content,
    setting.readable ((before.staged.map File.attributes).getD setting.created)⟩

/-- Whether a refusal puts back what there was: no file where it can be removed; a file that was
copied, with its owner and mode, and can be moved back; or one that what is refused was no
different from. -/
def PutsBack (before : Disk Content Attributes) : Prop :=
  match before.file with
  | none => setting.succeeds .remove = true
  | some previous =>
      if copies setting before && setting.succeeds .isBackup then
        if setting.succeeds .moveBack then
          copyAttributes setting before previous.attributes = previous.attributes
        else previous = written setting before
      else setting.succeeds .remove = false ∧ previous = written setting before

/-! ### What the script leaves -/

theorem run_seq_act (step : Step)
    (effect : Disk Content Attributes → Bool × Disk Content Attributes)
    (rest : ShellScript (Disk Content Attributes)) (disk : Disk Content Attributes) :
    (ShellScript.seq (act setting step effect) rest).run true disk =
      if setting.succeeds step then
        if (effect disk).1 then rest.run true (effect disk).2
        else .exited ShellScript.failed (effect disk).2
      else .exited ShellScript.failed disk := by
  rw [act, ShellScript.run_seq_command]
  split <;> simp_all

/-- A test that fails finds nothing. -/
theorem test_eq (step : Step) (holds : Bool) (disk : Disk Content Attributes) :
    (if setting.succeeds step then (holds, disk) else (false, disk)) =
      (setting.succeeds step && holds, disk) := by
  cases setting.succeeds step <;> rfl

/-- The file after a refusal. -/
theorem file_refuse (disk : Disk Content Attributes) :
    ((refuse setting).run true disk).state.file =
      if disk.backup.isSome && setting.succeeds .isBackup then
        if setting.succeeds .moveBack then disk.backup else disk.file
      else if setting.succeeds .remove then none else disk.file := by
  have last : ∀ disk : Disk Content Attributes,
      ((ShellScript.seq (act setting .echo fun disk => (true, disk))
        (.exit setting.refused)).run true disk).state = disk := by
    intro disk
    rw [run_seq_act]
    split <;> rfl
  have put : ∀ step effect, ((ShellScript.seq (act setting step effect)
      (.seq (act setting .echo fun disk => (true, disk)) (.exit setting.refused))).run true
        disk).state = if setting.succeeds step then (effect disk).2 else disk := by
    intro step effect
    rw [run_seq_act]
    split
    · split
      · exact last _
      · rfl
    · rfl
  have choice : ((refuse setting).run true disk).state =
      if setting.succeeds .isBackup && disk.backup.isSome then
        if setting.succeeds .moveBack then (moveBack disk).2 else disk
      else if setting.succeeds .remove then { disk with file := none } else disk := by
    simp only [refuse, ShellScript.block, List.foldr_cons, List.foldr_nil]
    rw [act, ShellScript.run_seq_ifElse, test_eq]
    split
    · exact put .moveBack moveBack
    · exact put .remove _
  rw [choice, Bool.and_comm]
  split
  next found =>
    obtain ⟨backup, isBackup⟩ := Option.isSome_iff_exists.mp (Bool.and_eq_true_iff.mp found).1
    split
    · rw [moveBack, isBackup]
    · rfl
  next =>
    split <;> rfl

/-- The file when the backup was taken care of. -/
theorem file_replaced (disk : Disk Content Attributes) :
    ((replaced setting).run true disk).state.file =
      if setting.succeeds .write && setting.succeeds .chmod && setting.succeeds .move then
        if setting.succeeds .check then some (written setting disk)
        else if disk.backup.isSome && setting.succeeds .isBackup then
          if setting.succeeds .moveBack then disk.backup else some (written setting disk)
        else if setting.succeeds .remove then none else some (written setting disk)
      else disk.file := by
  simp only [replaced, ShellScript.block, List.foldr_cons, List.foldr_nil]
  rw [run_seq_act]
  by_cases writes : setting.succeeds .write = true
  · rw [if_pos writes, write, if_pos rfl, run_seq_act]
    by_cases changes : setting.succeeds .chmod = true
    · rw [if_pos changes, chmod, if_pos rfl, run_seq_act]
      by_cases moves : setting.succeeds .move = true
      · rw [if_pos moves, move, if_pos rfl, act, ShellScript.run_ifElse_not_command, test_eq,
          Bool.and_true]
        simp only [writes, changes, moves, Bool.and_true, if_true]
        split
        · rfl
        · exact file_refuse setting _
      · simp [writes, changes, moves, ShellScript.Ended.state]
    · simp [writes, changes, ShellScript.Ended.state]
  · simp [writes, ShellScript.Ended.state]

/-- The backup is made, or the one there was is removed, which alone ends the script. -/
theorem run_seq_backUp (rest : ShellScript (Disk Content Attributes))
    (before : Disk Content Attributes) :
    (ShellScript.seq (backUp setting) rest).run true before =
      if copies setting before then
        rest.run true { before with
          backup := before.file.map fun previous =>
            ⟨previous.content, copyAttributes setting before previous.attributes⟩ }
      else if setting.succeeds .removeBackup then rest.run true { before with backup := none }
      else .exited ShellScript.failed before := by
  have removes : (ShellScript.seq (act setting .removeBackup fun disk =>
      (true, { disk with backup := none })) rest).run true before =
        if setting.succeeds .removeBackup then rest.run true { before with backup := none }
        else .exited ShellScript.failed before := by
    rw [run_seq_act]
    rfl
  rw [← removes, backUp, act, act, act, ShellScript.run_seq_andOr, test_eq]
  by_cases finds : (setting.succeeds .isFile && before.file.isSome) = true
  · obtain ⟨isFile, present⟩ := Bool.and_eq_true_iff.mp finds
    obtain ⟨previous, isPrevious⟩ := Option.isSome_iff_exists.mp present
    rw [if_pos finds]
    by_cases copiesIt : setting.succeeds .copy = true
    · simp [copies, isPrevious, isFile, copiesIt, copy]
    · simp [copies, copiesIt]
  · rw [if_neg finds, if_neg]
    simp only [copies, Bool.and_eq_true] at finds ⊢
    exact fun both => finds ⟨both.1.2, both.1.1⟩

/-- The file when the script exits. -/
theorem file_left (before : Disk Content Attributes) :
    (left setting before).file =
      if getsToCheck setting before then
        if setting.succeeds .check then some (written setting before)
        else if copies setting before && setting.succeeds .isBackup then
          if setting.succeeds .moveBack then
            before.file.map fun previous =>
              ⟨previous.content, copyAttributes setting before previous.attributes⟩
          else some (written setting before)
        else if setting.succeeds .remove then none else some (written setting before)
      else before.file := by
  simp only [left, ShellScript.runErrexit, replaceFileScript, ShellScript.block, List.foldr_cons,
    List.foldr_nil]
  rw [run_seq_act]
  by_cases makes : setting.succeeds .makeFolder = true
  · rw [if_pos makes, if_pos rfl, run_seq_backUp]
    by_cases copied : copies setting before = true
    · have present : before.file.isSome = true := by
        simp only [copies, Bool.and_eq_true] at copied
        exact copied.1.1
      rw [if_pos copied, file_replaced]
      simp only [getsToCheck, makes, copied, Bool.true_or, Bool.true_and, Option.isSome_map,
        present]
      rfl
    · rw [if_neg copied]
      by_cases removes : setting.succeeds .removeBackup = true
      · rw [if_pos removes, file_replaced]
        simp only [getsToCheck, makes, copied, removes, Bool.or_true, Bool.true_and,
          Option.isSome_none, Bool.false_and, Bool.false_eq_true, if_false]
        rfl
      · simp [getsToCheck, copied, removes, ShellScript.Ended.state]
  · simp [getsToCheck, makes, ShellScript.Ended.state]

/-- The refused configuration leaves the previous one just when the check passes, the script
stops before it, or the previous one can be put back as it was. -/
theorem leavesOld_iff (before : Disk Content Attributes) :
    LeavesOld setting before ↔
      (getsToCheck setting before = true → setting.succeeds .check = true ∨
        PutsBack setting before) := by
  rw [LeavesOld, file_left]
  by_cases gets : getsToCheck setting before = true
  · by_cases passes : setting.succeeds .check = true
    · simp [gets, passes, written]
    · simp only [gets, passes, if_true, if_false, true_implies, false_or, Bool.false_eq_true,
        and_false]
      unfold PutsBack
      cases isFile : before.file with
      | none =>
          have none : copies setting before = false := by simp [copies, isFile]
          rw [none, Bool.false_and, if_neg Bool.false_ne_true]
          by_cases removes : setting.succeeds .remove = true
          · simp [removes]
          · simp [removes]
      | some previous =>
          dsimp only
          split
          · split
            · rw [Option.map_some, Option.some.injEq]
              obtain ⟨content, attributes⟩ := previous
              simp
            · rw [Option.some.injEq, eq_comm]
          · by_cases removes : setting.succeeds .remove = true
            · simp [removes]
            · simp [removes, eq_comm]
  · simp [gets]

end

/-- Root's script with a umask of 022, all of whose commands but some succeed. -/
def rootSetting (fails : List Step) : Setting Nat Nat where
  content := 1
  succeeds step := step ∉ fails
  copied mode := mode &&& 0o755
  created := 0o644
  readable _ := 0o644
  refused := 3

/-- What an earlier run of the script wrote. -/
def configured : Disk Nat Nat := ⟨some ⟨0, 0o644⟩, none, none⟩

/-- A refusal puts it back. -/
example : (left (rootSetting [.check]) configured).file = configured.file := by decide

/-- Without room for the backup a refusal removes it. -/
theorem not_leavesOld_full : ¬ LeavesOld (rootSetting [.copy, .check]) configured := by
  have gone : (left (rootSetting [.copy, .check]) configured).file = none := by decide
  rw [LeavesOld, gone]
  decide

end ServerBox.Script.ReplaceFile
