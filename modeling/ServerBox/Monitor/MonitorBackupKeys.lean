import ServerBox.Monitor.MonitorBackup

/-!
# No backup loses its key

Every name that a monitor puts or deletes is of its own instance, so what the other
monitors do changes none of the files that a task goes by. A prune deletes its backups
before their key files, from a listing that holds every backup there is.
-/

namespace ServerBox.Monitor.MonitorBackup

open ServerBox.Std

/-! ### Names -/

/-- The instance that a file's name begins with, after either prefix. -/
def ownerOf (name : Text) : Option Text :=
  match Text.stripPrefix keyPrefix name with
  | some rest => some (rest.take 8)
  | none => (Text.stripPrefix backupPrefix name).map (List.take 8)

theorem toList_partSuffix : partSuffix.toList = ['.', 'p', 'a', 'r', 't'] := by
  simp [partSuffix]

theorem toList_keySuffix : keySuffix.toList = ['.', 'a', 'g', 'e'] := by
  simp [keySuffix]

theorem toList_backupSuffix :
    backupSuffix.toList = ['.', 't', 'a', 'r', '.', 'g', 'z'] ++ keySuffix.toList := by
  simp [backupSuffix, keySuffix]

theorem toList_keyPrefix : keyPrefix.toList = backupPrefix.toList ++ ['k', 'e', 'y', '-'] := by
  simp [keyPrefix, backupPrefix]

theorem Id.length_text (id : Id) : id.text.length = 8 := by
  have held := id.valid
  simp only [isId, Bool.and_eq_true, decide_eq_true_eq] at held
  exact held.1

theorem Id.isIdChar_of_mem (id : Id) {char : Char} (held : char ∈ id.text) :
    isIdChar char = true := by
  have all := id.valid
  simp only [isId, Bool.and_eq_true, List.all_eq_true] at all
  exact all.2 char held

theorem Id.not_mem (id : Id) {char : Char} (other : isIdChar char = false) : char ∉ id.text :=
  fun held => Bool.false_ne_true (other.symm.trans (id.isIdChar_of_mem held))

@[simp] theorem readId_text (id : Id) : readId id.text = some id := dif_pos id.valid

theorem text_of_readId {text : Text} {id : Id} (read : readId text = some id) : text = id.text := by
  unfold readId at read
  split at read
  · rw [← Option.some.inj read]
  · cases read

theorem take_text_append (id : Id) (rest : Text) : (id.text ++ rest).take 8 = id.text := by
  rw [← id.length_text, List.take_left]

theorem ownerOf_key (id : Id) (rest : Text) :
    ownerOf (keyPrefix.toList ++ (id.text ++ rest)) = some id.text := by
  rw [ownerOf, Text.stripPrefix_append]
  exact congrArg some (take_text_append id rest)

/-- An instance is not taken for the first letters of a key file's name. -/
theorem ownerOf_backup (id : Id) (rest : Text) :
    ownerOf (backupPrefix.toList ++ (id.text ++ rest)) = some id.text := by
  have noKey : Text.stripPrefix keyPrefix (backupPrefix.toList ++ (id.text ++ rest)) = none := by
    rw [Option.eq_none_iff_forall_ne_some]
    intro tail stripped
    have same := Text.of_stripPrefix stripped
    rw [toList_keyPrefix, List.append_assoc, List.append_cancel_left_eq] at same
    cases shape : id.text with
    | nil => simpa [shape] using id.length_text
    | cons first others =>
        rw [shape] at same
        have isK : first = 'k' := (List.cons.inj same).1
        have notK : 'k' ∉ id.text := id.not_mem (by decide)
        rw [shape, isK] at notK
        exact notK List.mem_cons_self
  rw [ownerOf, noKey, Text.stripPrefix_append]
  exact congrArg some (take_text_append id rest)

theorem ownerOf_keyFile (id key : Id) : ownerOf (keyFile id key) = some id.text := by
  rw [keyFile, List.append_assoc, List.append_assoc]
  exact ownerOf_key id _

theorem ownerOf_partOf_keyFile (id key : Id) :
    ownerOf (partOf (keyFile id key)) = some id.text := by
  rw [partOf, keyFile, List.append_assoc, List.append_assoc, List.append_assoc]
  exact ownerOf_key id _

section

variable {nameTime : NameTime}

theorem ownerOf_backupFile (id : Id) (time : Int) (key : Id) :
    ownerOf (backupFile nameTime id time key) = some id.text := by
  rw [backupFile, List.append_assoc, List.append_assoc]
  exact ownerOf_backup id _

theorem ownerOf_partOf_backupFile (id : Id) (time : Int) (key : Id) :
    ownerOf (partOf (backupFile nameTime id time key)) = some id.text := by
  rw [partOf, backupFile, List.append_assoc, List.append_assoc, List.append_assoc]
  exact ownerOf_backup id _

theorem ownerOf_isPart {id : Id} {name : Text} (part : isPart id name = true) :
    ownerOf name = some id.text := by
  simp only [isPart, Bool.and_eq_true, List.isPrefixOf_iff_prefix] at part
  obtain ⟨rest, rfl⟩ := part.1
  rw [List.append_assoc, List.append_assoc]
  exact ownerOf_backup id _

/-- What a name read as a backup's is made of. -/
theorem of_parseBackup {name : Text} {backup : BackupName}
    (parsed : parseBackup nameTime name = some backup) :
    ∃ time, name = backupPrefix.toList ++
      (backup.monitor.text ++ '-' :: (time ++ '-' :: backup.key.text)) ++ backupSuffix.toList := by
  obtain ⟨rest, stripped, parts⟩ := Option.bind_eq_some_iff.mp parsed
  obtain ⟨front, isFront, isRest⟩ := Option.bind_eq_some_iff.mp stripped
  have whole : ['-'].intercalate (rest.splitOn '-') = rest := List.intercalate_splitOn '-'
  split at parts
  next monitor time key shape =>
    obtain ⟨monitorId, isMonitor, parts⟩ := Option.bind_eq_some_iff.mp parts
    obtain ⟨at', -, parts⟩ := Option.bind_eq_some_iff.mp parts
    obtain ⟨keyId, isKey, parts⟩ := Option.bind_eq_some_iff.mp parts
    obtain rfl := Option.some.inj parts
    rw [shape] at whole
    refine ⟨time, ?_⟩
    rw [Text.of_stripPrefix isFront, Text.of_stripSuffix isRest, ← whole,
      text_of_readId isMonitor, text_of_readId isKey]
    simp [List.intercalate]
  next => cases parts

theorem ownerOf_parseBackup {name : Text} {backup : BackupName}
    (parsed : parseBackup nameTime name = some backup) :
    ownerOf name = some backup.monitor.text := by
  obtain ⟨time, rfl⟩ := of_parseBackup parsed
  rw [List.append_assoc, List.append_assoc]
  exact ownerOf_backup backup.monitor _

theorem of_parseKeyFile {name : Text} {id key : Id} (parsed : parseKeyFile name = some (id, key)) :
    name = keyFile id key := by
  obtain ⟨rest, stripped, parts⟩ := Option.bind_eq_some_iff.mp parsed
  obtain ⟨front, isFront, isRest⟩ := Option.bind_eq_some_iff.mp stripped
  obtain ⟨⟨monitor, keyText⟩, shape, parts⟩ := Option.bind_eq_some_iff.mp parts
  obtain ⟨monitorId, isMonitor, parts⟩ := Option.bind_eq_some_iff.mp parts
  obtain ⟨keyId, isKey, parts⟩ := Option.bind_eq_some_iff.mp parts
  obtain ⟨rfl, rfl⟩ := Prod.mk.inj (Option.some.inj parts)
  rw [Text.of_stripPrefix isFront, Text.of_stripSuffix isRest,
    (Text.splitOnce_eq_some_iff.mp shape).1, text_of_readId isMonitor, text_of_readId isKey, keyFile, ← List.append_assoc]

theorem parseKeyFile_keyFile (id key : Id) : parseKeyFile (keyFile id key) = some (id, key) := by
  have noDash : '-' ∉ id.text := id.not_mem (by decide)
  rw [parseKeyFile, keyFile, List.append_assoc, Text.stripPrefix_append, Option.bind_some,
    Text.stripSuffix_append]
  simp [Text.splitOnce_append key.text noDash]

/-- A backup's name reads as what it was written from, the time up to the millisecond. -/
theorem parseBackup_backupFile (id : Id) {time : Int} (digits : fourDigits time = true) (key : Id) :
    parseBackup nameTime (backupFile nameTime id time key) =
      some ⟨id, time - time % 1000000, key⟩ := by
  have parts : (id.text ++ '-' :: (nameTime.write time ++ '-' :: key.text)).splitOn '-' =
      [id.text, nameTime.write time, key.text] := by
    have noDash : ∀ part ∈ [id.text, nameTime.write time, key.text], '-' ∉ part := by
      simp only [List.forall_mem_cons, List.not_mem_nil, IsEmpty.forall_iff, implies_true, and_true]
      exact ⟨id.not_mem (by decide), nameTime.write_plain time digits, key.not_mem (by decide)⟩
    have whole := List.splitOn_intercalate '-' noDash (by simp)
    simpa [List.intercalate] using whole
  rw [parseBackup, backupFile, List.append_assoc, Text.stripPrefix_append, Option.bind_some,
    Text.stripSuffix_append, Option.bind_eq_bind, Option.bind_some, parts]
  simp [nameTime.read_write time digits]

/-- The last letter tells a temporary name from a file's own. -/
theorem partOf_ne_keyFile (name : Text) (id key : Id) : partOf name ≠ keyFile id key := by
  intro same
  have last := congrArg List.getLast? same
  rw [partOf, keyFile, toList_partSuffix, toList_keySuffix,
    List.getLast?_append_of_ne_nil _ (List.cons_ne_nil _ _),
    List.getLast?_append_of_ne_nil _ (List.cons_ne_nil _ _)] at last
  exact absurd last (by decide)

theorem partOf_ne_backupFile (name : Text) (id : Id) (time : Int) (key : Id) :
    partOf name ≠ backupFile nameTime id time key := by
  intro same
  have last := congrArg List.getLast? same
  rw [partOf, backupFile, toList_partSuffix, toList_backupSuffix, toList_keySuffix,
    List.getLast?_append_of_ne_nil _ (List.cons_ne_nil _ _), List.getLast?_append_of_ne_nil _
      (List.append_ne_nil_of_left_ne_nil (List.cons_ne_nil _ _) _)] at last
  exact absurd last (by decide)

theorem keyFile_not_isPart (monitor id key : Id) : isPart monitor (keyFile id key) = false := by
  rw [Bool.eq_false_iff]
  intro part
  simp only [isPart, Bool.and_eq_true, List.isSuffixOf_iff_suffix] at part
  obtain ⟨front, same⟩ := part.2
  exact partOf_ne_keyFile front id key same

/-- No key file reads as a backup: its key's last digit is no `z`. -/
theorem parseBackup_keyFile (id key : Id) : parseBackup nameTime (keyFile id key) = none := by
  rw [Option.eq_none_iff_forall_ne_some]
  intro backup parsed
  obtain ⟨time, same⟩ := of_parseBackup parsed
  rw [keyFile, toList_backupSuffix, ← List.append_assoc _ _ keySuffix.toList,
    List.append_cancel_right_eq] at same
  have some : key.text ≠ [] := fun none => by simpa [none] using key.length_text
  have ends : (keyPrefix.toList ++ (id.text ++ ['-'])) ++ key.text =
      keyPrefix.toList ++ (id.text ++ '-' :: key.text) := by simp
  have isZ := congrArg List.getLast? (ends.trans same)
  rw [List.getLast?_append_of_ne_nil _ some,
    List.getLast?_append_of_ne_nil _ (List.cons_ne_nil _ _)] at isZ
  exact key.not_mem (by decide) (List.mem_of_getLast? isZ)

end

/-! ### The property -/

def Made.backupFile (world : World) (made : Made) : Text :=
  MonitorBackup.backupFile world.nameTime made.monitor made.time made.key

def Made.keyFile (made : Made) : Text := MonitorBackup.keyFile made.monitor made.key

theorem Made.parseBackup_backupFile (made : Made) (world : World)
    (digits : fourDigits made.time = true) :
    parseBackup world.nameTime (made.backupFile world) =
      some ⟨made.monitor, made.time - made.time % 1000000, made.key⟩ :=
  MonitorBackup.parseBackup_backupFile made.monitor digits made.key

theorem Made.ownerOf_backupFile (made : Made) (world : World) :
    ownerOf (made.backupFile world) = some made.monitor.text :=
  MonitorBackup.ownerOf_backupFile made.monitor made.time made.key

theorem Made.ownerOf_partOf (made : Made) (world : World) :
    ownerOf (partOf (made.backupFile world)) = some made.monitor.text :=
  ownerOf_partOf_backupFile made.monitor made.time made.key

theorem Made.keyFile_ne_partOf (made : Made) (name : Text) : made.keyFile ≠ partOf name :=
  (partOf_ne_keyFile name made.monitor made.key).symm

theorem Made.backupFile_ne_partOf (made : Made) (world : World) (name : Text) :
    made.backupFile world ≠ partOf name :=
  (partOf_ne_backupFile name made.monitor made.time made.key).symm

theorem Stored.ownerOf_keyFile (stored : Stored) (world : World) :
    ownerOf (stored.keyFile world) = some stored.row.monitor.text :=
  MonitorBackup.ownerOf_keyFile stored.row.monitor (stored.key world)

theorem Stored.ownerOf_partOf_keyFile (stored : Stored) (world : World) :
    ownerOf (partOf (stored.keyFile world)) = some stored.row.monitor.text :=
  MonitorBackup.ownerOf_partOf_keyFile stored.row.monitor (stored.key world)

theorem Stored.ownerOf_partOf_backupFile (stored : Stored) (world : World) (time : Int) :
    ownerOf (partOf (stored.backupFile world time)) = some stored.row.monitor.text :=
  MonitorBackup.ownerOf_partOf_backupFile stored.row.monitor time (stored.key world)

/-- The names of an instance's files: key files, backups, and uploads of either. -/
inductive FileOf (world : World) (monitor : Id) : Text → Prop
  | key (key : Id) : FileOf world monitor (keyFile monitor key)
  | backup (time : Int) (key : Id) :
      FileOf world monitor (backupFile world.nameTime monitor time key)
  | keyPart (key : Id) : FileOf world monitor (partOf (keyFile monitor key))
  | backupPart (time : Int) (key : Id) :
      FileOf world monitor (partOf (backupFile world.nameTime monitor time key))

theorem FileOf.owner {world : World} {monitor : Id} {name : Text}
    (file : FileOf world monitor name) : ownerOf name = some monitor.text := by
  cases file with
  | key key => exact ownerOf_keyFile monitor key
  | backup time key => exact ownerOf_backupFile monitor time key
  | keyPart key => exact ownerOf_partOf_keyFile monitor key
  | backupPart time key => exact ownerOf_partOf_backupFile monitor time key

/-- Every backup that was put in a folder and is there has its key file there, and no monitor
has deleted a file of another instance. -/
structure KeysKept (world : World) (state : State) : Prop where
  keys : ∀ made ∈ state.made, made.backupFile world ∈ state.folders made.folder →
    made.keyFile ∈ state.folders made.folder
  others : ∀ deleted ∈ state.deleted, ∀ monitor, FileOf world monitor deleted.2 →
    monitor = deleted.1

/-! ### The invariant -/

/-- The stored row that a task goes by. -/
def Task.stored : Task → Option Stored
  | .settingsStores _ _ | .removes | .records _ _ => none
  | .keyLists stored | .keyMakesFolder stored | .keyPuts stored _ | .keyStores stored
  | .backupLists stored _ | .backupPacks stored _ | .backupPuts stored _ _ _
  | .backupRelists stored _ _ | .prunes stored _ _ _ _ => some stored

/-- What a task that found its key file in the listing goes on with. -/
def Task.found : Task → Option Stored
  | .backupPacks stored _ | .backupPuts stored _ _ .part | .backupPuts stored _ _ .move =>
      some stored
  | _ => none

def Task.time : Task → Option Int
  | .backupPuts _ _ time _ => some time
  | _ => none

/-- The deletes of a prune are of its own instance, and of the backups in the folder each one
whose key file goes goes first. -/
structure Spares (world : World) (state : State) (stored : Stored) (old rest : List Text) :
    Prop where
  own : ∀ name ∈ old ++ rest, ownerOf name = some stored.row.monitor.text
  noKeys : ∀ name ∈ old, ∀ monitor key, name ≠ keyFile monitor key
  first : ∀ made ∈ state.made, made.folder = stored.folder world →
    made.monitor = stored.row.monitor → made.backupFile world ∈ state.folders made.folder →
    made.keyFile ∈ rest → made.backupFile world ∈ old

/-- What a task that is under way may rely on. -/
structure Sound (world : World) (state : State) (agent : Agent) (task : Task) : Prop where
  same : ∀ stored ∈ task.stored, ∃ row ∈ agent.row, row.monitor = stored.row.monitor
  found : ∀ stored ∈ task.found, stored.keyFile world ∈ state.folders (stored.folder world)
  time : ∀ time ∈ task.time, fourDigits time = true
  spares : ∀ stored check made old rest, task = .prunes stored check made old rest →
    Spares world state stored old (rest.map Prod.fst)

/-- The instances of two monitors differ. -/
def Apart (one other : Agent) : Prop :=
  ∀ a ∈ one.row, ∀ b ∈ other.row, a.monitor ≠ b.monitor

/-- What holds of the folders. -/
structure Folders (world : World) (state : State) : Prop where
  times : ∀ made ∈ state.made, fourDigits made.time = true
  keys : ∀ made ∈ state.made, made.backupFile world ∈ state.folders made.folder →
    made.keyFile ∈ state.folders made.folder
  deleted : ∀ deleted ∈ state.deleted, ownerOf deleted.2 = some deleted.1.text

structure Inv (world : World) (state : State) : Prop where
  distinct : ∀ (index other : Nat) one another, index ≠ other → state.monitors[index]? = some one →
    state.monitors[other]? = some another → Apart one another
  sound : ∀ agent ∈ state.monitors, ∀ task ∈ agent.task, Sound world state agent task
  folders : Folders world state

theorem text_injective {one other : Id} (same : one.text = other.text) : one = other := by
  obtain ⟨text, valid⟩ := one
  obtain ⟨otherText, otherValid⟩ := other
  obtain rfl : text = otherText := same
  rfl

theorem Inv.keysKept {world : World} {state : State} (inv : Inv world state) :
    KeysKept world state where
  keys := inv.folders.keys
  others deleted isDeleted _ file :=
    text_injective (Option.some.inj
      (file.owner.symm.trans (inv.folders.deleted deleted isDeleted)))

section

variable {world : World} {state middle : State} {agent : Agent} {index : Nat}

/-! ### What the other monitors notice -/

/-- A change of the folders by one monitor: its own names come and go, its own backups are
made. -/
structure Changes (agent : Agent) (state middle : State) : Prop where
  monitors : middle.monitors = state.monitors
  gains : ∀ folder, ∀ name ∈ middle.folders folder, name ∈ state.folders folder ∨
    ∃ row ∈ agent.row, ownerOf name = some row.monitor.text
  losses : ∀ folder, ∀ name ∈ state.folders folder, name ∈ middle.folders folder ∨
    ∃ row ∈ agent.row, ownerOf name = some row.monitor.text
  made : ∀ made ∈ middle.made, made ∈ state.made ∨
    ∃ row ∈ agent.row, made.monitor = row.monitor

theorem Changes.none (agent : Agent) (state : State) : Changes agent state state :=
  ⟨rfl, fun _ _ => .inl, fun _ _ => .inl, fun _ => .inl⟩

/-- A task of another monitor may rely on what it relied on. -/
theorem Sound.of_changes {other : Agent} {task : Task} (sound : Sound world state other task)
    (changes : Changes agent state middle) (apart : Apart agent other) :
    Sound world middle other task := by
  -- A name of the other instance is none that came or went.
  have foreign : ∀ stored ∈ task.stored, ∀ row ∈ agent.row, stored.row.monitor ≠ row.monitor := by
    intro stored isStored row isRow equal
    obtain ⟨own, isOwn, same⟩ := sound.same stored isStored
    exact apart row isRow own isOwn (equal.symm.trans same.symm)
  refine ⟨sound.same, fun stored isFound => ?_, sound.time,
    fun stored check made old rest isPrune => ?_⟩
  · have isStored : stored ∈ task.stored := by
      cases task with
      | backupPacks _ _ => exact isFound
      | backupPuts _ _ _ stage =>
          cases stage with
          | clean => cases isFound
          | part => exact isFound
          | move => exact isFound
      | _ => cases isFound
    rcases changes.losses _ _ (sound.found stored isFound) with stays | ⟨row, isRow, owner⟩
    · exact stays
    · have equal : stored.row.monitor.text = row.monitor.text :=
        Option.some.inj ((stored.ownerOf_keyFile world).symm.trans owner)
      exact absurd (text_injective equal) (foreign stored isStored row isRow)
  · have spares := sound.spares stored check made old rest isPrune
    have isStored : stored ∈ task.stored := by
      rw [isPrune]
      rfl
    refine ⟨spares.own, spares.noKeys, fun each isMade folder monitor present inRest => ?_⟩
    have wasMade : each ∈ state.made := by
      rcases changes.made each isMade with before | ⟨row, isRow, same⟩
      · exact before
      · exact absurd (monitor.symm.trans same) (foreign stored isStored row isRow)
    rcases changes.gains _ _ present with before | ⟨row, isRow, owner⟩
    · exact spares.first each wasMade folder monitor before inRest
    · have equal : each.monitor.text = row.monitor.text :=
        Option.some.inj ((each.ownerOf_backupFile world).symm.trans owner)
      exact absurd (monitor.symm.trans (text_injective equal)) (foreign stored isStored row isRow)

/-- What a task may rely on is said of the folders and of its monitor's row. -/
theorem Sound.same_folders {other : State} {after : Agent} {task : Task}
    (sound : Sound world state agent task) (folders : other.folders = state.folders)
    (made : other.made = state.made) (row : after.row = agent.row) :
    Sound world other after task := by
  refine ⟨?_, ?_, sound.time, fun stored check isMade old rest isPrune => ?_⟩
  · rw [row]
    exact sound.same
  · rw [folders]
    exact sound.found
  · have spares := sound.spares stored check isMade old rest isPrune
    refine ⟨spares.own, spares.noKeys, ?_⟩
    rw [made, folders]
    exact spares.first

/-- One monitor's step: its row keeps its instance or takes a free one, and its next task may
rely on what it does. -/
theorem Inv.update (inv : Inv world state) (isAgent : state.monitors[index]? = some agent)
    (changes : Changes agent state middle) {after : Agent}
    (row : ∀ row ∈ after.row, (∃ before ∈ agent.row, before.monitor = row.monitor) ∨
      state.isFree row.monitor = true)
    (sound : ∀ task ∈ after.task, Sound world middle after task)
    (folders : Folders world middle) :
    Inv world { middle with monitors := middle.monitors.set index after } := by
  have apartAfter : ∀ (other : Nat) another, index ≠ other → state.monitors[other]? = some another →
      Apart after another := by
    intro other another differs isOther a isA b isB
    rcases row a isA with ⟨before, isBefore, same⟩ | free
    · have apart := inv.distinct index other agent another differs isAgent isOther
      exact same ▸ apart before isBefore b isB
    · rw [State.isFree, List.all_eq_true] at free
      have each := free another (List.mem_of_getElem? isOther)
      rw [Option.mem_def.mp isB] at each
      simpa using (of_decide_eq_true each).symm
  refine ⟨?_, ?_, folders.times, folders.keys, folders.deleted⟩
  · intro one other a b differs isOne isOther
    simp only [changes.monitors, List.getElem?_set] at isOne isOther
    split at isOne
    next sameOne =>
      split at isOne
      · cases isOne
        rw [if_neg (sameOne ▸ differs)] at isOther
        exact apartAfter other b (sameOne ▸ differs) isOther
      · cases isOne
    next otherOne =>
      split at isOther
      next sameOther =>
        split at isOther
        · cases isOther
          intro x isX y isY equal
          exact apartAfter one a otherOne isOne y isY x isX equal.symm
        · cases isOther
      next => exact inv.distinct one other a b differs isOne isOther
  · intro other isOther task isTask
    obtain ⟨position, atPosition⟩ := List.mem_iff_getElem?.mp isOther
    simp only [changes.monitors, List.getElem?_set] at atPosition
    split at atPosition
    · split at atPosition
      · cases atPosition
        exact (sound task isTask).same_folders rfl rfl rfl
      · cases atPosition
    next differs =>
      have before := inv.sound other (List.mem_of_getElem? atPosition) task isTask
      have apart := inv.distinct index position agent other differs isAgent atPosition
      exact (before.of_changes changes apart).same_folders rfl rfl rfl

/-- A step that leaves the folders as they are. -/
theorem Inv.stay (inv : Inv world state) (isAgent : state.monitors[index]? = some agent)
    {after : Agent}
    (row : ∀ row ∈ after.row, (∃ before ∈ agent.row, before.monitor = row.monitor) ∨
      state.isFree row.monitor = true)
    (sound : ∀ task ∈ after.task, Sound world state after task) :
    Inv world { state with monitors := state.monitors.set index after } :=
  inv.update isAgent (Changes.none agent state) row sound inv.folders

/-- The monitor's row stays, the task goes on. -/
theorem Inv.goOn (inv : Inv world state) (isAgent : state.monitors[index]? = some agent)
    (changes : Changes agent state middle)
    (folders : Folders world middle) {goesOn : Option Task}
    (sound : ∀ task ∈ goesOn, Sound world middle agent task) :
    Inv world (middle.goOn index agent goesOn) :=
  inv.update isAgent changes (fun row isRow => .inl ⟨row, isRow, rfl⟩)
    (fun task isTask => (sound task isTask).same_folders rfl rfl rfl) folders

/-! ### What a request changes -/

theorem mem_putName {folder other : Nat} {name held : Text} :
    held ∈ (state.putName folder name).folders other ↔
      held ∈ state.folders other ∨ (other = folder ∧ held = name) := by
  simp only [State.putName, Function.update_apply]
  split
  next same => simp [same, or_comm]
  next differs => simp [differs]

theorem mem_deleteName {folder other : Nat} {name held : Text} :
    held ∈ (state.deleteName folder name).folders other ↔
      held ∈ state.folders other ∧ ¬ (other = folder ∧ held = name) := by
  simp only [State.deleteName, Function.update_apply]
  split
  next same => simp [same]
  next differs => simp [differs]

theorem Changes.trans {last : State} (one : Changes agent state middle)
    (other : Changes agent middle last) : Changes agent state last where
  monitors := other.monitors.trans one.monitors
  gains folder name held := by
    rcases other.gains folder name held with before | own
    · exact one.gains folder name before
    · exact .inr own
  losses folder name held := by
    rcases one.losses folder name held with stays | own
    · exact other.losses folder name stays
    · exact .inr own
  made made isMade := by
    rcases other.made made isMade with before | own
    · exact one.made made before
    · exact .inr own

section

variable {row : Row} {folder : Nat} {name : Text}

theorem Changes.putName (isRow : row ∈ agent.row) (own : ownerOf name = some row.monitor.text) :
    Changes agent state (state.putName folder name) where
  monitors := rfl
  gains other held isHeld := by
    rcases mem_putName.mp isHeld with before | ⟨-, rfl⟩
    · exact .inl before
    · exact .inr ⟨row, isRow, own⟩
  losses other held isHeld := .inl (mem_putName.mpr (.inl isHeld))
  made _ := .inl

theorem Changes.deleteName (isRow : row ∈ agent.row) (own : ownerOf name = some row.monitor.text) :
    Changes agent state (state.deleteName folder name) where
  monitors := rfl
  gains other held isHeld := .inl (mem_deleteName.mp isHeld).1
  losses other held isHeld := by
    by_cases gone : other = folder ∧ held = name
    · exact .inr ⟨row, isRow, gone.2 ▸ own⟩
    · exact .inl (mem_deleteName.mpr ⟨isHeld, gone⟩)
  made _ := .inl

theorem Changes.delete (isRow : row ∈ agent.row) (own : ownerOf name = some row.monitor.text)
    (monitor : Id) (outcome : Outcome) :
    Changes agent state (state.delete monitor folder name outcome) := by
  unfold State.delete
  split
  · have changes : Changes agent state (state.deleteName folder name) :=
      Changes.deleteName isRow own
    exact ⟨rfl, changes.gains, changes.losses, changes.made⟩
  · exact Changes.none agent state

theorem Changes.move (isRow : row ∈ agent.row) (own : ownerOf name = some row.monitor.text)
    (part : ownerOf (partOf name) = some row.monitor.text) (outcome : Outcome) :
    Changes agent state (state.move folder name outcome) := by
  unfold State.move
  split
  · exact (Changes.deleteName isRow part).trans (Changes.putName isRow own)
  · exact Changes.none agent state

theorem Changes.moveBackup {made : Made} (isRow : row ∈ agent.row)
    (own : made.monitor = row.monitor) (outcome : Outcome) :
    Changes agent state (state.moveBackup world made outcome) := by
  have changes : Changes agent state (state.move made.folder (made.backupFile world) outcome) :=
    Changes.move isRow (own ▸ made.ownerOf_backupFile world)
      (own ▸ made.ownerOf_partOf world) outcome
  unfold State.moveBackup
  dsimp only
  split
  · refine ⟨changes.monitors, changes.gains, changes.losses, fun each isMade => ?_⟩
    rcases List.mem_cons.mp isMade with rfl | before
    · exact .inr ⟨row, isRow, own⟩
    · exact .inl before
  · exact changes

/-! ### What a request leaves of the folders -/

theorem Folders.putName (folders : Folders world state)
    (noBackup : ∀ made ∈ state.made, made.backupFile world ≠ name) :
    Folders world (state.putName folder name) where
  times := folders.times
  keys made isMade present := by
    rcases mem_putName.mp present with before | ⟨-, same⟩
    · exact mem_putName.mpr (.inl (folders.keys made isMade before))
    · exact absurd same (noBackup made isMade)
  deleted := folders.deleted

theorem Folders.deleteName (folders : Folders world state)
    (spares : ∀ made ∈ state.made, made.folder = folder →
      made.backupFile world ∈ state.folders folder → made.keyFile ≠ name) :
    Folders world (state.deleteName folder name) where
  times := folders.times
  keys made isMade present := by
    obtain ⟨before, -⟩ := mem_deleteName.mp present
    refine mem_deleteName.mpr ⟨folders.keys made isMade before, ?_⟩
    rintro ⟨same, isKey⟩
    exact spares made isMade same (same ▸ before) isKey
  deleted := folders.deleted

theorem Folders.delete (folders : Folders world state) {monitor : Id}
    (own : ownerOf name = some monitor.text)
    (spares : ∀ made ∈ state.made, made.folder = folder →
      made.backupFile world ∈ state.folders folder → made.keyFile ≠ name) (outcome : Outcome) :
    Folders world (state.delete monitor folder name outcome) := by
  unfold State.delete
  split
  · have left : Folders world (state.deleteName folder name) := folders.deleteName spares
    refine ⟨left.times, left.keys, ?_⟩
    rw [List.forall_mem_cons]
    exact ⟨own, folders.deleted⟩
  · exact folders

/-- Deleting an upload's temporary name takes no key file. -/
theorem Folders.deletePart (folders : Folders world state) {monitor : Id}
    (own : ownerOf (partOf name) = some monitor.text) (outcome : Outcome) :
    Folders world (state.delete monitor folder (partOf name) outcome) :=
  folders.delete own (fun made _ _ _ => made.keyFile_ne_partOf _) outcome

theorem Folders.putPart (folders : Folders world state) :
    Folders world (state.putName folder (partOf name)) :=
  folders.putName fun made _ => made.backupFile_ne_partOf world _

theorem Folders.moveKey (folders : Folders world state) (monitor key : Id) (outcome : Outcome) :
    Folders world (state.move folder (keyFile monitor key) outcome) := by
  unfold State.move
  split
  · refine Folders.putName
      (folders.deleteName fun made _ _ _ => made.keyFile_ne_partOf _) fun made isMade same => ?_
    have parsed := made.parseBackup_backupFile world (folders.times made isMade)
    rw [same, parseBackup_keyFile] at parsed
    cases parsed
  · exact folders

theorem Folders.moveBackup (folders : Folders world state) {made : Made}
    (digits : fourDigits made.time = true) (found : made.keyFile ∈ state.folders made.folder)
    (outcome : Outcome) : Folders world (state.moveBackup world made outcome) := by
  unfold State.moveBackup State.move
  dsimp only
  split
  · have left : Folders world
        (state.deleteName made.folder (partOf (made.backupFile world))) :=
      folders.deleteName fun made _ _ _ => made.keyFile_ne_partOf _
    have foundLeft : made.keyFile ∈
        (state.deleteName made.folder (partOf (made.backupFile world))).folders made.folder :=
      mem_deleteName.mpr ⟨found, fun gone => made.keyFile_ne_partOf _ gone.2⟩
    refine ⟨?_, fun each isMade present => ?_, folders.deleted⟩
    · rw [List.forall_mem_cons]
      exact ⟨digits, folders.times⟩
    · -- A backup of this name is of this monitor, and made with this key.
      have ofName : each.folder = made.folder → each.backupFile world = made.backupFile world →
          fourDigits each.time = true → each.keyFile = made.keyFile := by
        intro _ same eachDigits
        have one := each.parseBackup_backupFile world eachDigits
        have other := made.parseBackup_backupFile world digits
        rw [same] at one
        have equal := Option.some.inj (one.symm.trans other)
        have sameMonitor : each.monitor = made.monitor := congrArg BackupName.monitor equal
        have sameKey : each.key = made.key := congrArg BackupName.key equal
        rw [Made.keyFile, Made.keyFile, sameMonitor, sameKey]
      refine mem_putName.mpr (.inl ?_)
      rcases mem_putName.mp present with before | ⟨sameFolder, sameName⟩
      · rcases List.mem_cons.mp isMade with rfl | old
        · exact foundLeft
        · exact left.keys each old before
      · have eachDigits : fourDigits each.time = true := by
          rcases List.mem_cons.mp isMade with rfl | old
          · exact digits
          · exact folders.times each old
        rw [ofName sameFolder sameName eachDigits, sameFolder]
        exact foundLeft
  · exact folders

end

/-! ### What a prune decides from a listing -/

/-- This monitor's backups in a listing are the names that read as its own. -/
theorem mem_ownBackups {nameTime : NameTime} {listed : List Text} {monitor : Id}
    {backup : BackupName} {name : Text} :
    (backup, name) ∈ ownBackups nameTime listed monitor ↔
      name ∈ listed ∧ parseBackup nameTime name = some backup ∧ backup.monitor = monitor := by
  simp only [ownBackups, List.mem_mergeSort, List.mem_filterMap, Option.map_eq_some_iff,
    Option.filter_eq_some_iff, decide_eq_true_eq, Prod.mk.injEq]
  constructor
  · rintro ⟨other, isListed, found, ⟨parsed, own⟩, rfl, rfl⟩
    exact ⟨isListed, parsed, own⟩
  · rintro ⟨isListed, parsed, own⟩
    exact ⟨name, isListed, backup, ⟨parsed, own⟩, rfl, rfl⟩

/-- What else goes is an upload cut short, or a key file that no kept backup is made with. -/
theorem of_mem_otherDeletes {nameTime : NameTime} {listed : List Text} {keep : Nat}
    {monitor currentKey : Id} {name : Text}
    (held : name ∈ (otherDeletes nameTime listed keep monitor currentKey).map Prod.fst) :
    isPart monitor name = true ∨ ∃ key, name = keyFile monitor key ∧
      key ∉ usedKeys nameTime listed keep monitor := by
  obtain ⟨⟨_, lets⟩, deleted, rfl⟩ := List.mem_map.mp held
  obtain ⟨listed, -, either⟩ := List.mem_flatMap.mp deleted
  rcases List.mem_append.mp either with unused | part
  · split at unused
    next isUnused =>
      obtain ⟨rfl, -⟩ := Prod.mk.inj (List.mem_singleton.mp unused)
      obtain ⟨⟨owner, key⟩, parsed, holds⟩ := (Option.any_eq_true _ _).mp isUnused
      simp only [Bool.and_eq_true, decide_eq_true_eq] at holds
      obtain ⟨⟨rfl, -⟩, notUsed⟩ := holds
      exact .inr ⟨key, of_parseKeyFile parsed, notUsed⟩
    next => cases unused
  · split at part
    next isPart =>
      obtain ⟨rfl, -⟩ := Prod.mk.inj (List.mem_singleton.mp part)
      exact .inl isPart
    next => cases part

/-- A prune over a listing of the whole folder deletes each backup before its key file. -/
theorem spares_prune (folders : Folders world state) (stored : Stored) :
    Spares world state stored
      (oldBackups world.nameTime (state.folders (stored.folder world)) stored.row.keep
        stored.row.monitor)
      ((otherDeletes world.nameTime (state.folders (stored.folder world)) stored.row.keep
        stored.row.monitor (stored.key world)).map Prod.fst) := by
  have ofOld : ∀ name ∈ oldBackups world.nameTime (state.folders (stored.folder world))
      stored.row.keep stored.row.monitor, ∃ backup,
        parseBackup world.nameTime name = some backup ∧ backup.monitor = stored.row.monitor := by
    intro name isOld
    obtain ⟨⟨backup, _⟩, taken, rfl⟩ := List.mem_map.mp isOld
    exact ⟨backup, (mem_ownBackups.mp (List.mem_of_mem_take taken)).2⟩
  refine ⟨fun name held => ?_, fun name isOld monitor key same => ?_,
    fun made isMade folder own present inRest => ?_⟩
  · rcases List.mem_append.mp held with isOld | isRest
    · obtain ⟨backup, parsed, own⟩ := ofOld name isOld
      exact own ▸ ownerOf_parseBackup parsed
    · rcases of_mem_otherDeletes isRest with part | ⟨key, rfl, -⟩
      · exact ownerOf_isPart part
      · exact ownerOf_keyFile _ _
  · obtain ⟨backup, parsed, -⟩ := ofOld name isOld
    rw [same, parseBackup_keyFile] at parsed
    cases parsed
  · have mine := mem_ownBackups.mpr
      ⟨folder ▸ present, made.parseBackup_backupFile world (folders.times made isMade), own⟩
    rw [← List.take_append_drop (cut _ stored.row.keep) (ownBackups _ _ _)] at mine
    rcases List.mem_append.mp mine with taken | kept
    · exact List.mem_map.mpr ⟨_, taken, rfl⟩
    · -- A kept backup's key is used, so its key file stays.
      have used : made.key ∈ usedKeys world.nameTime (state.folders (stored.folder world))
          stored.row.keep stored.row.monitor := List.mem_map.mpr ⟨_, kept, rfl⟩
      rcases of_mem_otherDeletes inRest with part | ⟨key, same, notUsed⟩
      · rw [Made.keyFile, keyFile_not_isPart] at part
        cases part
      · have parsed := parseKeyFile_keyFile made.monitor made.key
        rw [← Made.keyFile, same, parseKeyFile_keyFile] at parsed
        obtain ⟨-, rfl⟩ := Prod.mk.inj (Option.some.inj parsed)
        exact absurd used notUsed

/-! ### The steps of a task -/

theorem no_task {holds : Task → Prop} : ∀ task ∈ (none : Option Task), holds task :=
  fun task isTask => absurd isTask (Option.not_mem_none task)

def Task.isPrune : Task → Bool
  | .prunes _ _ _ _ _ => true
  | _ => false

/-- A task that is no prune. -/
theorem Sound.of_isPrune {task : Task} (noPrune : task.isPrune = false)
    (same : ∀ stored ∈ task.stored, ∃ row ∈ agent.row, row.monitor = stored.row.monitor)
    (found : ∀ stored ∈ task.found, stored.keyFile world ∈ state.folders (stored.folder world))
    (time : ∀ time ∈ task.time, fourDigits time = true) : Sound world state agent task := by
  refine ⟨same, found, time, fun stored check made old rest isPrune => ?_⟩
  rw [isPrune] at noPrune
  cases noPrune

/-- A task that rests on no file of a folder. -/
theorem Sound.plain {task : Task} (noPrune : task.isPrune = false)
    (found : task.found = none) (time : task.time = none)
    (same : ∀ stored ∈ task.stored, ∃ row ∈ agent.row, row.monitor = stored.row.monitor) :
    Sound world state agent task := by
  refine Sound.of_isPrune noPrune same ?_ ?_
  · rw [found]
    nofun
  · rw [time]
    nofun

theorem sound_prune (folders : Folders world state) (stored : Stored) (check : Check)
    (made : Option Int) (same : ∃ row ∈ agent.row, row.monitor = stored.row.monitor) :
    Sound world state agent
      (prune world stored check made (state.folders (stored.folder world))) where
  same each isStored := by
    obtain rfl := Option.some.inj isStored
    exact same
  found := nofun
  time := nofun
  spares each _ _ _ _ isPrune := by
    cases isPrune
    exact spares_prune folders stored

theorem inv_list {task : Task} {listing : Listing} {after : State} (inv : Inv world state)
    (isAgent : state.monitors[index]? = some agent) (sound : Sound world state agent task)
    (leads : list world state index agent listing task = some after) : Inv world after := by
  have stays : ∀ {goesOn : Option Task}, (∀ task ∈ goesOn, Sound world state agent task) →
      Inv world (state.goOn index agent goesOn) :=
    fun next => inv.goOn isAgent (Changes.none agent state) inv.folders next
  cases task with
  | keyLists stored =>
      cases leads
      refine stays fun next isNext => ?_
      cases listing with
      | failed => cases isNext
      | names =>
          cases isNext
          exact Sound.plain rfl rfl rfl sound.same
      | missing =>
          cases isNext
          exact Sound.plain rfl rfl rfl sound.same
  | backupLists stored check =>
      cases leads
      refine stays fun next isNext => ?_
      cases listing with
      | names =>
          dsimp only at isNext
          split at isNext
          · cases isNext
            exact sound_prune inv.folders stored check none (sound.same stored rfl)
          · split at isNext
            · cases isNext
              exact Sound.plain rfl rfl rfl nofun
            next listed =>
              cases isNext
              refine Sound.of_isPrune rfl sound.same (fun each isFound => ?_) nofun
              obtain rfl := Option.some.inj isFound
              exact not_not.mp listed
      | _ =>
          cases isNext
          exact Sound.plain rfl rfl rfl nofun
  | backupRelists stored check time =>
      cases leads
      refine stays fun next isNext => ?_
      cases listing with
      | names =>
          dsimp only at isNext
          split at isNext
          · cases isNext
            exact Sound.plain rfl rfl rfl nofun
          · cases isNext
            exact sound_prune inv.folders stored check (some time) (sound.same stored rfl)
      | _ =>
          cases isNext
          exact Sound.plain rfl rfl rfl nofun
  | _ => cases leads

/-- What is left of a prune after a delete that it goes on from. -/
theorem Spares.delete {stored : Stored} {old rest left later : List Text} {monitor : Id}
    {name : Text} {outcome : Outcome} (spares : Spares world state stored old rest)
    (fewer : ∀ other ∈ left ++ later, other ∈ old ++ rest) (fewerOld : ∀ other ∈ left, other ∈ old)
    (fewerRest : ∀ other ∈ later, other ∈ rest)
    (gone : ∀ other ∈ old, other ∈ left ∨ (other = name ∧ outcome.applied = true)) :
    Spares world (state.delete monitor (stored.folder world) name outcome) stored left later where
  own other held := spares.own other (fewer other held)
  noKeys other held := spares.noKeys other (fewerOld other held)
  first made isMade folder own present inLater := by
    have wasMade : made ∈ state.made := by
      unfold State.delete at isMade
      split at isMade <;> exact isMade
    have before : made.backupFile world ∈ state.folders made.folder := by
      unfold State.delete at present
      split at present
      · exact (mem_deleteName.mp present).1
      · exact present
    have inOld := spares.first made wasMade folder own before (fewerRest _ inLater)
    rcases gone _ inOld with left | ⟨same, applied⟩
    · exact left
    · rw [State.delete, if_pos applied] at present
      exact absurd ⟨folder, same⟩ (mem_deleteName.mp present).2

/-- A delete of a prune, and what the task goes on to. -/
theorem inv_delete {stored : Stored} {check : Check} {made : Option Int} {old left : List Text}
    {rest later : List (Text × Bool)} {name : Text} {outcome : Outcome} {goesOn : Prop}
    [Decidable goesOn] {result : Result} (inv : Inv world state)
    (isAgent : state.monitors[index]? = some agent)
    (sound : Sound world state agent (.prunes stored check made old rest))
    (held : name ∈ old ++ rest.map Prod.fst)
    (spares : ∀ each ∈ state.made, each.folder = stored.folder world →
      each.monitor = stored.row.monitor →
      each.backupFile world ∈ state.folders each.folder → each.keyFile ≠ name)
    (after : goesOn → Spares world
      (state.delete stored.row.monitor (stored.folder world) name outcome) stored left
      (later.map Prod.fst)) :
    Inv world ((state.delete stored.row.monitor (stored.folder world) name outcome).goOn index
      agent (some (if goesOn then .prunes stored check made left later
        else .records check result))) := by
  obtain ⟨row, isRow, same⟩ := sound.same stored rfl
  have own := (sound.spares stored check made old rest rfl).own name held
  have ownRow : ownerOf name = some row.monitor.text := by rw [own, same]
  refine inv.goOn isAgent (Changes.delete isRow ownRow _ outcome)
    (inv.folders.delete own (fun each isMade folder present isKey => ?_) outcome)
    fun task isTask => ?_
  · have monitor : each.monitor = stored.row.monitor :=
      text_injective (Option.some.inj ((ownerOf_keyFile _ _).symm.trans (isKey ▸ own)))
    exact spares each isMade folder monitor (folder ▸ present) isKey
  · obtain rfl := Option.some.inj isTask
    split
    next goes =>
      refine ⟨?_, nofun, nofun, fun each _ _ _ _ isPrune => ?_⟩
      · exact sound.same
      · cases isPrune
        exact after goes
    next => exact Sound.plain rfl rfl rfl nofun

theorem inv_request {task : Task} {outcome : Outcome} {after : State} (inv : Inv world state)
    (isAgent : state.monitors[index]? = some agent) (sound : Sound world state agent task)
    (leads : request world state index agent outcome task = some after) : Inv world after := by
  cases task with
  | keyPuts stored stage =>
      obtain ⟨row, isRow, same⟩ := sound.same stored rfl
      have own : ownerOf (stored.keyFile world) = some row.monitor.text := by
        rw [stored.ownerOf_keyFile, same]
      have ownPart : ownerOf (partOf (stored.keyFile world)) = some row.monitor.text := by
        rw [stored.ownerOf_partOf_keyFile, same]
      cases stage with
      | part =>
          cases leads
          refine inv.goOn isAgent ?_ ?_ fun task isTask => ?_
          · split
            · exact Changes.putName isRow ownPart
            · exact Changes.none agent state
          · split
            · exact inv.folders.putPart
            · exact inv.folders
          · obtain rfl := Option.some.inj isTask
            exact Sound.plain rfl rfl rfl sound.same
      | move =>
          cases leads
          refine inv.goOn isAgent (Changes.move isRow own ownPart outcome)
            (inv.folders.moveKey _ _ outcome) fun task isTask => ?_
          obtain rfl := Option.some.inj isTask
          split <;> exact Sound.plain rfl rfl rfl sound.same
      | clean =>
          cases leads
          exact inv.goOn isAgent (Changes.delete isRow ownPart _ outcome)
            (inv.folders.deletePart (stored.ownerOf_partOf_keyFile world) outcome) no_task
  | backupPuts stored check time stage =>
      obtain ⟨row, isRow, same⟩ := sound.same stored rfl
      have digits := sound.time time rfl
      have ownPart : ownerOf (partOf (stored.backupFile world time)) = some row.monitor.text := by
        rw [stored.ownerOf_partOf_backupFile, same]
      cases stage with
      | part =>
          cases leads
          refine inv.goOn isAgent ?_ ?_ fun task isTask => ?_
          · split
            · exact Changes.putName isRow ownPart
            · exact Changes.none agent state
          · split
            · exact inv.folders.putPart
            · exact inv.folders
          · obtain rfl := Option.some.inj isTask
            refine Sound.of_isPrune rfl sound.same (fun each isFound => ?_) sound.time
            have found := sound.found stored rfl
            split at isFound
            · obtain rfl := Option.some.inj isFound
              split
              · exact mem_putName.mpr (.inl found)
              · exact found
            · cases isFound
      | move =>
          cases leads
          refine inv.goOn isAgent (Changes.moveBackup isRow same.symm outcome)
            (inv.folders.moveBackup digits (sound.found stored rfl) outcome) fun task isTask => ?_
          obtain rfl := Option.some.inj isTask
          split
          · exact Sound.plain rfl rfl rfl sound.same
          · exact Sound.of_isPrune rfl sound.same nofun sound.time
      | clean =>
          cases leads
          refine inv.goOn isAgent (Changes.delete isRow ownPart _ outcome)
            (inv.folders.deletePart (stored.ownerOf_partOf_backupFile world time) outcome)
            fun task isTask => ?_
          obtain rfl := Option.some.inj isTask
          exact Sound.plain rfl rfl rfl nofun
  | prunes stored check made old rest =>
      have spares := sound.spares stored check made old rest rfl
      cases old with
      | cons name old =>
          cases leads
          refine inv_delete inv isAgent sound (List.mem_append_left _ List.mem_cons_self) ?_ ?_
          · exact fun each _ _ _ _ isKey =>
              spares.noKeys name List.mem_cons_self each.monitor each.key isKey.symm
          · intro done
            exact spares.delete (fun _ held => List.mem_cons_of_mem _ held)
              (fun _ held => List.mem_cons_of_mem _ held) (fun _ => id)
              fun other isOld => (List.mem_cons.mp isOld).elim
                (fun same => .inr ⟨same, by rw [done, Outcome.applied]⟩) .inl
      | nil =>
          cases rest with
          | nil =>
              cases leads
              refine inv.goOn isAgent (Changes.none agent state) inv.folders fun task isTask => ?_
              obtain rfl := Option.some.inj isTask
              exact Sound.plain rfl rfl rfl nofun
          | cons first rest =>
              obtain ⟨name, lets⟩ := first
              cases leads
              refine inv_delete inv isAgent sound List.mem_cons_self ?_ fun _ => ?_
              · intro each isMade folder monitor present isKey
                have inOld := spares.first each isMade folder monitor present
                  (isKey ▸ List.mem_cons_self)
                cases inOld
              · exact spares.delete (fun _ held => List.mem_cons_of_mem _ held) (fun _ => id)
                  (fun _ held => List.mem_cons_of_mem _ held) nofun
  | _ => cases leads

theorem inv_store {task : Task} {fresh : Id} {outcome : Outcome} {after : State}
    (inv : Inv world state) (isAgent : state.monitors[index]? = some agent)
    (leads : store state index agent fresh outcome task = some after) : Inv world after := by
  cases task with
  | settingsStores stored next =>
      simp only [store, Option.bind_eq_bind, Option.bind_eq_some_iff] at leads
      obtain ⟨_, allowed, leads⟩ := leads
      split at leads
      · cases leads
        refine inv.stay isAgent (fun row isRow => ?_) no_task
        obtain rfl := Option.some.inj isRow
        split
        next before isBefore =>
          refine .inl ⟨before, isBefore, ?_⟩
          unfold settingsRow
          split <;> rfl
        next none =>
          rw [none] at allowed
          exact .inr (by simpa [guard] using allowed)
      · cases leads
        exact inv.stay isAgent (fun row isRow => .inl ⟨row, isRow, rfl⟩) no_task
  | removes =>
      cases leads
      refine inv.stay isAgent (fun row isRow => ?_) no_task
      dsimp only at isRow
      split at isRow
      · cases isRow
      · exact .inl ⟨row, isRow, rfl⟩
  | keyStores stored =>
      cases leads
      refine inv.stay isAgent (fun row isRow => ?_) no_task
      dsimp only at isRow
      split at isRow
      · obtain ⟨before, isBefore, rfl⟩ := Option.map_eq_some_iff.mp isRow
        exact .inl ⟨before, isBefore, rfl⟩
      · exact .inl ⟨row, isRow, rfl⟩
  | records check result =>
      cases leads
      refine inv.stay isAgent (fun row isRow => ?_) no_task
      dsimp only at isRow
      split at isRow
      · obtain ⟨before, isBefore, rfl⟩ := Option.map_eq_some_iff.mp isRow
        refine .inl ⟨before, isBefore, ?_⟩
        cases result <;> rfl
      · exact .inl ⟨row, isRow, rfl⟩
  | _ => cases leads

theorem inv_runTask {task : Task} {event : Event} {after : State} (inv : Inv world state)
    (isAgent : state.monitors[index]? = some agent) (isTask : agent.task = some task)
    (leads : runTask world state index agent task event = some after) : Inv world after := by
  have sound := inv.sound agent (List.mem_of_getElem? isAgent) task isTask
  have stays : ∀ {goesOn : Option Task}, (∀ task ∈ goesOn, Sound world state agent task) →
      Inv world (state.goOn index agent goesOn) :=
    fun next => inv.goOn isAgent (Changes.none agent state) inv.folders next
  cases event with
  | store _ fresh outcome => exact inv_store inv isAgent leads
  | list _ listing => exact inv_list inv isAgent sound leads
  | makeFolder _ outcome =>
      cases task with
      | keyMakesFolder stored =>
          cases leads
          refine stays fun next isNext => ?_
          split at isNext
          · cases isNext
            exact Sound.plain rfl rfl rfl sound.same
          · cases isNext
      | _ => cases leads
  | pack _ time =>
      cases task with
      | backupPacks stored check =>
          cases time with
          | none =>
              cases leads
              refine stays fun next isNext => ?_
              cases isNext
              exact Sound.plain rfl rfl rfl nofun
          | some time =>
              simp only [runTask, pack] at leads
              split at leads
              next digits =>
                cases leads
                refine stays fun next isNext => ?_
                cases isNext
                refine Sound.of_isPrune rfl sound.same sound.found fun other isTime => ?_
                obtain rfl := Option.some.inj isTime
                exact digits
              next => cases leads
      | _ => cases leads
  | request _ outcome => exact inv_request inv isAgent sound leads
  | stop _ =>
      cases leads
      exact stays no_task
  | _ => cases leads

theorem inv_begin {event : Event} {after : State} (inv : Inv world state)
    (isAgent : state.monitors[index]? = some agent)
    (leads : begin state index agent event = some after) : Inv world after := by
  have stays : ∀ {goesOn : Option Task}, (∀ task ∈ goesOn, Sound world state agent task) →
      Inv world (state.goOn index agent goesOn) :=
    fun next => inv.goOn isAgent (Changes.none agent state) inv.folders next
  cases event with
  | setSettings _ next =>
      cases leads
      refine stays fun task isTask => ?_
      cases isTask
      exact Sound.plain rfl rfl rfl nofun
  | removeSettings _ =>
      cases leads
      refine stays fun task isTask => ?_
      cases isTask
      exact Sound.plain rfl rfl rfl nofun
  | setKey _ recipient =>
      obtain ⟨row, isRow, rfl⟩ := Option.map_eq_some_iff.mp leads
      refine stays fun task isTask => ?_
      cases isTask
      refine Sound.plain rfl rfl rfl fun stored isStored => ?_
      obtain rfl := Option.some.inj isStored
      exact ⟨row, isRow, rfl⟩
  | backUp _ digest force =>
      simp only [begin, Option.bind_eq_bind, Option.bind_eq_some_iff] at leads
      obtain ⟨row, isRow, recipient, -, _, -, leads⟩ := leads
      cases leads
      refine inv.update isAgent (Changes.none agent state)
        (fun other isOther => .inl ⟨other, isOther, rfl⟩) (fun task isTask => ?_) inv.folders
      simp only [make] at isTask
      split at isTask
      · cases isTask
      · cases isTask
        refine Sound.plain rfl rfl rfl fun stored isStored => ?_
        obtain rfl := Option.some.inj isStored
        exact ⟨row, isRow, rfl⟩
  | _ => cases leads

theorem inv_adopt {target : Target} {id : Id} {recipient : Recipient} {after : State}
    (inv : Inv world state) (isAgent : state.monitors[index]? = some agent)
    (leads : adopt state index agent target id recipient = some after) : Inv world after := by
  unfold adopt at leads
  split at leads
  · cases leads
    exact inv
  next noRow =>
    split at leads
    next free =>
      cases leads
      refine inv.stay isAgent (fun row isRow => ?_) fun task isTask => ?_
      · obtain rfl := Option.some.inj isRow
        exact .inr free
      · -- What goes by a stored row is not under way where there is none.
        have sound := inv.sound agent (List.mem_of_getElem? isAgent) task isTask
        have none : agent.row = none := by simpa using noRow
        refine ⟨fun stored isStored => ?_, sound.found, sound.time, sound.spares⟩
        obtain ⟨row, isRow, -⟩ := sound.same stored isStored
        rw [none] at isRow
        cases isRow
    next => cases leads

end

/-! ### Runs -/

theorem inv_next {world : World} {state after : State} {event : Event} (inv : Inv world state)
    (leads : next world state event = some after) : Inv world after := by
  obtain ⟨agent, isAgent, leads⟩ := Option.bind_eq_some_iff.mp leads
  cases isTask : agent.task with
  | none =>
      rw [isTask] at leads
      cases event with
      | adopt _ _ _ _ => exact inv_adopt inv isAgent leads
      | _ => exact inv_begin inv isAgent leads
  | some task =>
      rw [isTask] at leads
      cases event with
      | adopt _ _ _ _ => exact inv_adopt inv isAgent leads
      | _ => exact inv_runTask inv isAgent isTask leads

theorem inv_initial {world : World} {state : State} (starts : Initial state) :
    Inv world state := by
  refine ⟨fun index other one another differs isOne isOther => ?_,
    fun agent isAgent task isTask => ?_, ⟨?_, ?_, ?_⟩⟩
  · obtain ⟨below, rfl⟩ := List.getElem?_eq_some_iff.mp isOne
    obtain ⟨otherBelow, rfl⟩ := List.getElem?_eq_some_iff.mp isOther
    have pairs := List.pairwise_iff_getElem.mp starts.distinct
    rcases Nat.lt_or_gt_of_ne differs with less | more
    · exact pairs index other below otherBelow less
    · exact fun a isA b isB equal =>
        pairs other index otherBelow below more b isB a isA equal.symm
  · rw [starts.tasks agent isAgent] at isTask
    cases isTask
  · rw [starts.made]
    nofun
  · rw [starts.made]
    nofun
  · rw [starts.deleted]
    nofun

/-- In every run of any number of monitors, with any requests and writes failing, every backup
in a folder has its key file there, and no monitor deletes a file of another. -/
theorem keysKept_of_reachable {world : World} {state : State}
    (reached : (monitors world).Reachable state) : KeysKept world state := by
  have inv : Inv world state := by
    refine reached.holds (fun _ => inv_initial) fun before event after inv _ leads => ?_
    exact inv_next inv leads
  exact inv.keysKept

/-- The first day of 2026, and its name. -/
def newYear : Int := 1767225600000000000

def newYearName : Text := "20260101T000000.000Z".toList

/-- Times other than that one are written in strokes. -/
def strokes : NameTime where
  write time :=
    if time = newYear then newYearName
    else (if time < 0 then '<' else '>') :: List.replicate (time / 1000000).natAbs 'I'
  read
    | '<' :: rest => some (-(rest.length * 1000000 : Int))
    | '>' :: rest => some (rest.length * 1000000 : Int)
    | text => if text = newYearName then some newYear else none
  read_write time _ := by
    by_cases same : time = newYear
    · subst same
      decide
    · rw [if_neg same]
      by_cases negative : time < 0
      · simp only [if_pos negative, List.length_replicate, Option.some.injEq]
        omega
      · simp only [if_neg negative, List.length_replicate, Option.some.injEq]
        omega
  write_plain time _ := by
    split
    · decide
    · split <;> simp [List.mem_replicate]

def idOf (char : Char) (held : isId (List.replicate 8 char) = true) : Id := ⟨_, held⟩

theorem isId_a : isId (List.replicate 8 'a') = true := by decide

theorem isId_c : isId (List.replicate 8 'c') = true := by decide

/-- Two addresses of one folder. -/
def oneFolder : World where
  nameTime := strokes
  keyId recipient := if recipient = 0 then idOf 'c' isId_c else idOf 'd' (by decide)
  reaches _ := 0

/-- Two monitors that back up to one folder, the first one's upload moved with its answer lost,
and a key file that is refused at first. -/
def sharedRun : List Event :=
  [.setSettings 0 ⟨⟨0, 0⟩, true, 10⟩, .store 0 (idOf 'a' isId_a) .done,
    .setSettings 1 ⟨⟨1, 0⟩, true, 10⟩, .store 1 (idOf 'b' (by decide)) .done,
    .setKey 0 0, .list 0 .names, .request 0 .refused, .request 0 .refused,
    .setKey 0 0, .list 0 .names, .request 0 .done, .request 0 .done,
    .store 0 (idOf 'a' isId_a) .done,
    .setKey 1 1, .list 1 .names, .request 1 .done, .request 1 .done,
    .store 1 (idOf 'b' (by decide)) .done,
    .backUp 0 ⟨1, 1, true⟩ true, .backUp 1 ⟨2, 2, true⟩ false, .list 0 .names, .list 1 .names,
    .pack 0 (some newYear), .pack 1 (some newYear), .request 0 .done, .request 1 .done,
    .request 0 .lost, .request 0 .done, .request 1 .done]

def twoMonitors : State := ⟨[⟨none, none, false⟩, ⟨none, none, false⟩], fun _ => [], [], []⟩

theorem reached_twoMonitors (meets : State → Event → Prop) :
    (monitors oneFolder).Reached meets twoMonitors :=
  .initial ⟨by simp [twoMonitors], by simp [twoMonitors], rfl, rfl⟩

def sharedState : State :=
  (System.follow (fun _ _ => true) (next oneFolder) twoMonitors sharedRun).get (by decide +kernel)

theorem keysKept_sharedState :
    sharedState.made.map (fun made => (made.folder, made.monitor.text)) =
      [(0, List.replicate 8 'b'), (0, List.replicate 8 'a')] ∧
      KeysKept oneFolder sharedState :=
  ⟨by decide +kernel, keysKept_of_reachable
    ((System.reached_get (fun _ _ => true) (next oneFolder) sharedRun
      (reached_twoMonitors _) _).mono fun _ _ _ => trivial)⟩

end ServerBox.Monitor.MonitorBackup
