import ServerBox.Monitor.StackSecrets

/-!
# The generated secrets of a stack are kept

Every env file written puts the same value under the name of a secret as the one before it,
as long as each emptying of the file is followed by its whole new text, the file is read
when there is one, and the packages deployed keep the secret.
-/

namespace ServerBox.Monitor.StackSecrets

open ServerBox.Std
open ServerBox.Monitor.Manifest

/-! ### The values read back -/

/-- A value that is read back from its line: one line, no quote at its ends. -/
structure Clean (value : Text) : Prop where
  bare : Text.Bare '\'' value
  oneLine : '\n' ∉ value

theorem Clean.of_not_mem {value : Text} (quote : '\'' ∉ value) (newline : '\n' ∉ value) :
    Clean value where
  bare := ⟨fun first => quote (List.mem_of_mem_head? first),
    fun last => quote (List.mem_of_getLast? last)⟩
  oneLine := newline

def AllClean (secrets : EnvMap) : Prop := ∀ name value : Text, secrets[name]? = some value → Clean value

theorem AllClean.insert {secrets : EnvMap} (clean : AllClean secrets) {name value : Text}
    (isClean : Clean value) : AllClean (secrets.insert name value) := by
  intro other found held
  rw [Std.TreeMap.getElem?_insert] at held
  split at held
  · exact Option.some.inj held ▸ isClean
  · exact clean other found held

theorem findSomeRev?_filter {α β : Type} {find : α → Option β} {keeps : α → Bool}
    (found : ∀ value, find value ≠ none → keeps value = true) (values : List α) :
    (values.filter keeps).findSomeRev? find = values.findSomeRev? find := by
  induction values with
  | nil => rfl
  | cons value rest inductionHypothesis =>
      rw [List.filter_cons]
      split
      next => simp only [List.findSomeRev?, inductionHypothesis]
      next skipped =>
        have none : find value = none := Decidable.not_not.mp (mt (found value) skipped)
        rw [inductionHypothesis, List.findSomeRev?, none]
        cases rest.findSomeRev? find <;> rfl

/-- What is read under a name does not depend on the other names asked for. -/
theorem getElem?_readEnv {text : Text} {names : List Text} {name : Text} (asked : name ∈ names) :
    (readEnv text names)[name]? = (readEnv text [name])[name]? := by
  have each : ∀ names : List Text, name ∈ names → (readEnv text names)[name]? =
      (envLines text).findSomeRev? fun entry =>
        if compare entry.1 name = .eq then some entry.2 else none := by
    intro names asked
    rw [readEnv, Std.TreeMap.getElem?_insertMany_list, Std.TreeMap.getElem?_emptyc, Option.or_none]
    refine findSomeRev?_filter (fun entry finds => ?_) _
    have same : compare entry.1 name = .eq := Decidable.byContradiction fun differ =>
      finds (if_neg differ)
    exact decide_eq_true (Std.LawfulEqOrd.eq_of_compare same ▸ asked)
  rw [each names asked, each [name] (List.mem_singleton_self name)]

theorem getElem?_readEnv_of_not_mem {text : Text} {names : List Text} {name : Text}
    (notAsked : name ∉ names) : (readEnv text names)[name]? = none := by
  rw [readEnv, getElem?_insertMany_of_not_mem, Std.TreeMap.getElem?_emptyc]
  intro held
  obtain ⟨entry, kept, rfl⟩ := List.mem_map.mp held
  exact notAsked (of_decide_eq_true (List.mem_filter.mp kept).2)

/-- What is read back is clean, whatever the file holds. -/
theorem allClean_readEnv (text : Text) (names : List Text) : AllClean (readEnv text names) := by
  intro name value held
  rcases getElem?_insertMany_eq_some held with inFile | ⟨-, nothing⟩
  · obtain ⟨line, isLine, set⟩ := List.mem_filterMap.mp (List.mem_filter.mp inFile).1
    obtain ⟨⟨before, after⟩, cut, same⟩ := Option.map_eq_some_iff.mp set
    obtain ⟨-, rfl⟩ := Prod.mk.inj same
    obtain ⟨rfl, -⟩ := Text.splitOnce_eq_some_iff.mp cut
    refine ⟨Text.bare_trimMatches _ _, fun newline => ?_⟩
    have inAfter := Text.mem_of_mem_trimStart
      (Text.mem_of_mem_trimEnd (Text.mem_of_mem_trimMatches newline))
    exact Text.newline_not_mem_lines isLine
      (List.mem_append_right _ (List.mem_cons_of_mem _ inAfter))
  · cases nothing

/-! ### The lines of an env file that was written -/

/-- A line of an env file sets its name. -/
theorem envLines_entry {name value : Text} (named : EnvFile.Name name) (oneLine : '\n' ∉ value)
    (rest : Text) :
    envLines (EnvFile.entry name value ++ rest) =
      (name, Text.trimMatches '\'' ('\'' :: value ++ ['\''])) :: envLines rest := by
  have line : EnvFile.entry name value ++ rest =
      (name ++ '=' :: ('\'' :: value ++ ['\''])) ++ '\n' :: rest := by
    simp [EnvFile.entry]
  have notInName : ∀ char, EnvFile.isNameChar char = false → char ∉ name := fun char other =>
    not_mem_of_all named.2 other
  have noNewline : '\n' ∉ name ++ '=' :: ('\'' :: value ++ ['\'']) := by
    simp [notInName '\n' (by decide), oneLine]
  have ends : (name ++ '=' :: ('\'' :: value ++ ['\''])).getLast? ≠ some '\r' := by
    have last : (name ++ '=' :: ('\'' :: value ++ ['\''])).getLast? = some '\'' := by
      rw [← List.cons_append, ← List.append_assoc, List.getLast?_concat]
    rw [last]
    decide
  have solid : ∀ char ∈ name, Text.isWhitespace char = false := fun char inName =>
    EnvFile.not_isWhitespace_of_isNameChar (named.2 char inName)
  have quoted : Text.trim ('\'' :: value ++ ['\'']) = '\'' :: value ++ ['\''] := by
    rw [Text.trim, List.cons_append, Text.trimStart, List.dropWhile_cons_of_neg (by decide),
      ← List.cons_append, Text.trimEnd, List.rdropWhile_concat_neg _ _ _ (by decide)]
  rw [line, envLines, Text.lines_append noNewline, Text.withoutReturn_eq_self ends,
    List.filterMap_cons, Text.splitOnce_append _ (notInName '=' (by decide))]
  simp only [Option.map_some, Text.trim_eq_self solid, quoted, envLines]

theorem envLines_write {pairs : List (Text × Text)} (named : ∀ pair ∈ pairs, EnvFile.Name pair.1)
    (oneLine : ∀ pair ∈ pairs, '\n' ∉ pair.2) :
    envLines (EnvFile.write pairs) =
      pairs.map fun pair => (pair.1, Text.trimMatches '\'' ('\'' :: pair.2 ++ ['\''])) := by
  induction pairs with
  | nil => rfl
  | cons pair rest inductionHypothesis =>
      obtain ⟨namedFirst, namedRest⟩ := List.forall_mem_cons.mp named
      obtain ⟨lineFirst, lineRest⟩ := List.forall_mem_cons.mp oneLine
      rw [EnvFile.write, List.flatMap_cons, envLines_entry namedFirst lineFirst, List.map_cons]
      exact congrArg _ (inductionHypothesis namedRest lineRest)

/-- The header of an env file sets nothing. -/
theorem envLines_envText (values : EnvMap) :
    envLines (envText values) = envLines (EnvFile.write values.toList) := by
  have header : envText values = ('#' :: header) ++ '\n' :: EnvFile.write values.toList := rfl
  rw [header, envLines, Text.lines_append (by decide), List.filterMap_cons]
  have nothing : Text.splitOnce '=' (Text.withoutReturn ('#' :: Manifest.header)) = none := by decide
  rw [nothing]
  rfl

/-- A clean value that was written is read back. -/
theorem getElem?_readEnv_envText {values : EnvMap}
    (named : ∀ pair ∈ values.toList, EnvFile.Name pair.1)
    (oneLine : ∀ pair ∈ values.toList, '\n' ∉ pair.2) {name value : Text}
    (held : values[name]? = some value) (clean : Clean value) :
    (readEnv (envText values) [name])[name]? = some value := by
  rw [readEnv, envLines_envText, envLines_write named oneLine]
  refine Std.TreeMap.getElem?_insertMany_list_of_mem Std.ReflOrd.compare_self ?_ ?_
  · have distinct := Std.TreeMap.distinct_keys_toList (t := values)
    exact (List.pairwise_map.mpr distinct).sublist List.filter_sublist
  · refine List.mem_filter.mpr ⟨List.mem_map.mpr ⟨(name, value), ?_, ?_⟩, ?_⟩
    · exact Std.TreeMap.mem_toList_iff_getElem?_eq_some.mpr held
    · rw [Text.trimMatches_between clean.bare]
    · exact decide_eq_true (List.mem_singleton_self name)

/-! ### The secrets made -/

variable {bcrypt : Bcrypt} {draw : Draw}

/-- What a run makes of one secret: what there was is kept, and its hash while it is the
secret's. -/
structure Made (bcrypt : Bcrypt) (before after : EnvMap) (secret : Secret) (value : Text) :
    Prop where
  held : after[secret.env]? = some value
  kept : ∀ earlier, before[secret.env]? = some earlier → earlier = value
  hash : ∀ name, secret.bcrypt = some name → ∃ hashed, after[name]? = some hashed ∧
    bcrypt.verify value hashed = true ∧
    ∀ earlier, before[name]? = some earlier → bcrypt.verify value earlier = true →
      earlier = hashed

theorem Made.congr {before after otherBefore otherAfter : EnvMap} {secret : Secret} {value : Text}
    (made : Made bcrypt before after secret value)
    (sameBefore : ∀ name ∈ secret.envNames, otherBefore[name]? = before[name]?)
    (sameAfter : ∀ name ∈ secret.envNames, otherAfter[name]? = after[name]?) :
    Made bcrypt otherBefore otherAfter secret value where
  held := (sameAfter _ List.mem_cons_self).trans made.held
  kept earlier held := made.kept earlier ((sameBefore _ List.mem_cons_self).symm.trans held)
  hash name isHash := by
    have inNames : name ∈ secret.envNames :=
      List.mem_cons_of_mem _ (Option.mem_toList.mpr isHash)
    rw [sameBefore name inNames, sameAfter name inNames]
    exact made.hash name isHash

theorem drawn_clean {secret : Secret} {value : Text} (isDrawn : drawn secret value = true) :
    Clean value := by
  unfold drawn at isDrawn
  split at isDrawn
  all_goals
    rw [Bool.and_eq_true, List.all_eq_true] at isDrawn
    exact .of_not_mem (not_mem_of_all isDrawn.2 (by decide)) (not_mem_of_all isDrawn.2 (by decide))

theorem Bcrypt.hash_clean {salt value hashed : Text} (made : bcrypt.hash salt value = some hashed) :
    Clean hashed :=
  .of_not_mem (not_mem_of_all (bcrypt.hash_plain _ _ _ made) (by decide))
    (not_mem_of_all (bcrypt.hash_plain _ _ _ made) (by decide))

/-- The value of a secret is the one there was, or a new one where there was none. -/
theorem makeValue_spec {before after : EnvMap} {secret : Secret}
    (made : makeValue draw before secret = some after) :
    (∃ value, after[secret.env]? = some value ∧
      ∀ earlier, before[secret.env]? = some earlier → earlier = value) ∧
    (∀ name, name ≠ secret.env → after[name]? = before[name]?) ∧
    (AllClean before → AllClean after) := by
  unfold makeValue at made
  split at made
  next present =>
    obtain rfl := Option.some.inj made
    rw [Std.TreeMap.contains_eq_isSome_getElem?, Option.isSome_iff_exists] at present
    obtain ⟨value, held⟩ := present
    exact ⟨⟨value, held, fun earlier same => Option.some.inj (same.symm.trans held)⟩,
      fun _ _ => rfl, id⟩
  next missing =>
    obtain ⟨value, isDrawn, rfl⟩ := Option.map_eq_some_iff.mp made
    have none : before[secret.env]? = none := by
      rw [Std.TreeMap.contains_eq_isSome_getElem?, Option.not_isSome_iff_eq_none] at missing
      exact missing
    refine ⟨⟨value, Std.TreeMap.getElem?_insert_self, fun earlier held => ?_⟩, ?_, ?_⟩
    · rw [none] at held
      cases held
    · intro name other
      rw [Std.TreeMap.getElem?_insert, if_neg]
      exact fun same => other (Std.LawfulEqOrd.eq_of_compare same).symm
    · exact fun clean => clean.insert (drawn_clean (Option.filter_eq_some_iff.mp isDrawn).2)

/-- The hash of a secret verifies against it, and is the one there was if that did. -/
theorem makeHash_spec {before after : EnvMap} {secret : Secret} {value : Text}
    (held : before[secret.env]? = some value)
    (made : makeHash bcrypt draw before secret = some after) :
    (∀ name, secret.bcrypt = some name → ∃ hashed, after[name]? = some hashed ∧
      bcrypt.verify value hashed = true ∧
      ∀ earlier, before[name]? = some earlier → bcrypt.verify value earlier = true →
        earlier = hashed) ∧
    (∀ name, secret.bcrypt ≠ some name → after[name]? = before[name]?) ∧
    (AllClean before → AllClean after) := by
  unfold makeHash at made
  split at made
  next none =>
    obtain rfl := Option.some.inj made
    rw [none]
    exact ⟨nofun, fun _ _ => rfl, id⟩
  next name isHash =>
    simp only [held, Option.getD_some] at made
    rw [isHash]
    split at made
    next verifies =>
      obtain rfl := Option.some.inj made
      obtain ⟨hashed, found, verified⟩ := (Option.any_eq_true _ _).mp verifies
      refine ⟨fun other same => ?_, fun _ _ => rfl, id⟩
      obtain rfl := Option.some.inj same
      exact ⟨hashed, found, verified,
        fun earlier isEarlier _ => Option.some.inj (isEarlier.symm.trans found)⟩
    next fails =>
      obtain ⟨hashed, isHashed, rfl⟩ := Option.map_eq_some_iff.mp made
      refine ⟨fun other same => ?_, fun other differ => ?_, fun clean => clean.insert ?_⟩
      · obtain rfl := Option.some.inj same
        refine ⟨hashed, Std.TreeMap.getElem?_insert_self, bcrypt.verify_hash _ _ _ isHashed,
          fun earlier isEarlier verified => ?_⟩
        rw [isEarlier] at fails
        exact absurd verified fails
      · rw [Std.TreeMap.getElem?_insert, if_neg]
        exact fun same => differ (congrArg some (Std.LawfulEqOrd.eq_of_compare same))
      · exact Bcrypt.hash_clean isHashed

theorem makeSecret_spec {before after : EnvMap} {secret : Secret} (distinct : secret.envNames.Nodup)
    (made : makeSecret bcrypt draw before secret = some after) :
    (∃ value, Made bcrypt before after secret value) ∧
    (∀ name ∉ secret.envNames, after[name]? = before[name]?) ∧
    (AllClean before → AllClean after) := by
  obtain ⟨middle, isValue, isHash⟩ := Option.bind_eq_some_iff.mp made
  obtain ⟨⟨value, held, kept⟩, othersValue, cleanValue⟩ := makeValue_spec isValue
  obtain ⟨hash, othersHash, cleanHash⟩ := makeHash_spec held isHash
  have apart : ∀ name, secret.bcrypt = some name → name ≠ secret.env := by
    rintro name isName rfl
    exact (List.nodup_cons.mp distinct).1 (Option.mem_toList.mpr isName)
  refine ⟨⟨value, ?_, kept, fun name isName => ?_⟩, fun name other => ?_, cleanHash ∘ cleanValue⟩
  · rw [othersHash _ fun isName => apart _ isName rfl]
    exact held
  · rw [← othersValue name (apart name isName)]
    exact hash name isName
  · obtain ⟨notValue, notHash⟩ := List.ne_and_not_mem_of_not_mem_cons other
    rw [othersHash name fun isName => notHash (Option.mem_toList.mpr isName),
      othersValue name notValue]

/-- Every secret of a list with distinct names is made, and no other name changes. -/
theorem made_of_foldlM {secrets : List Secret} {before after : EnvMap}
    (distinct : (secrets.flatMap Secret.envNames).Nodup)
    (made : secrets.foldlM (makeSecret bcrypt draw) before = some after) :
    (∀ secret ∈ secrets, ∃ value, Made bcrypt before after secret value) ∧
    (∀ name ∉ secrets.flatMap Secret.envNames, after[name]? = before[name]?) ∧
    (AllClean before → AllClean after) := by
  induction secrets generalizing before with
  | nil =>
      obtain rfl := Option.some.inj made
      exact ⟨nofun, fun _ _ => rfl, id⟩
  | cons secret rest inductionHypothesis =>
      rw [List.foldlM_cons] at made
      obtain ⟨middle, first, later⟩ := Option.bind_eq_some_iff.mp made
      rw [List.flatMap_cons] at distinct
      obtain ⟨distinctFirst, distinctRest, apart⟩ := List.nodup_append.mp distinct
      obtain ⟨⟨value, madeFirst⟩, othersFirst, cleanFirst⟩ := makeSecret_spec distinctFirst first
      obtain ⟨madeRest, othersRest, cleanRest⟩ := inductionHypothesis distinctRest later
      refine ⟨?_, fun name other => ?_, cleanRest ∘ cleanFirst⟩
      · rw [List.forall_mem_cons]
        constructor
        · exact ⟨value, madeFirst.congr (fun _ _ => rfl) fun name held =>
            othersRest name fun inRest => apart name held name inRest rfl⟩
        · intro other inRest
          obtain ⟨value, madeOther⟩ := madeRest other inRest
          refine ⟨value, madeOther.congr (fun name held => ?_) fun _ _ => rfl⟩
          refine (othersFirst name fun inFirst => ?_).symm
          exact apart name inFirst name (List.mem_flatMap.mpr ⟨other, inRest, held⟩) rfl
      · rw [List.flatMap_cons, List.mem_append, not_or] at other
        rw [othersRest name other.2, othersFirst name other.1]

/-! ### The settings a deploy ends with -/

/-- Every setting has a value it takes. -/
def AllAccepted (manifest : Manifest) (patterns : Patterns) (settings : Settings) : Prop :=
  ∀ setting ∈ manifest.settings, ∃ value,
    settings[setting.key]? = some value ∧ setting.accepts patterns value = true

/-- A port that is settled is one its setting takes. -/
theorem settlePort_accepts {manifest : Manifest} {patterns : Patterns}
    (accepted : manifest.Accepted) {free : Nat → Protocol → Bool} {follow : Bool}
    {before after : Settings × List (Nat × Protocol)} {setting : Setting}
    (isSetting : setting ∈ manifest.settings)
    (settled : settlePort free follow before setting = .ok after)
    (each : AllAccepted manifest patterns before.1) : AllAccepted manifest patterns after.1 := by
  cases setting with
  | port key env default protocol =>
      simp only [settlePort] at settled
      split at settled
      next => exact Except.ok.inj settled ▸ each
      next port isPort =>
        split at settled
        next => exact Except.ok.inj settled ▸ each
        next =>
          split at settled
          next => cases settled
          next found isNext =>
            obtain rfl := Except.ok.inj settled
            obtain ⟨-, isFound⟩ := Option.ite_none_right_eq_some.mp isNext
            have inRange := List.mem_range'_1.mp (List.mem_of_find?_eq_some isFound)
            intro other isOther
            by_cases same : other.key = key
            · have keys := List.pairwise_map.mpr accepted.keys
              obtain rfl := List.inj_on_of_nodup_map keys isOther isSetting same
              refine ⟨.number found, Std.TreeMap.getElem?_insert_self, ?_⟩
              simp only [Setting.accepts, Value.asNumber, Option.any_some, Bool.and_eq_true,
                decide_eq_true_eq]
              omega
            · obtain ⟨value, held, taken⟩ := each other isOther
              refine ⟨value, ?_, taken⟩
              rw [Std.TreeMap.getElem?_insert, if_neg, held]
              exact fun equal => same (Std.LawfulEqOrd.eq_of_compare equal).symm
  | _ => exact Except.ok.inj settled ▸ each

theorem settlePorts_accepts {manifest : Manifest} {patterns : Patterns}
    (accepted : manifest.Accepted) {free : Nat → Protocol → Bool} {follow : Bool}
    {settings : List Setting} (among : settings ⊆ manifest.settings)
    {before after : Settings × List (Nat × Protocol)}
    (settled : settings.foldlM (settlePort free follow) before = .ok after)
    (each : AllAccepted manifest patterns before.1) : AllAccepted manifest patterns after.1 := by
  induction settings generalizing before with
  | nil => exact Except.ok.inj settled ▸ each
  | cons setting rest inductionHypothesis =>
      obtain ⟨isSetting, amongRest⟩ := List.cons_subset.mp among
      rw [List.foldlM_cons] at settled
      cases first : settlePort free follow before setting with
      | error refused =>
          rw [first] at settled
          cases settled
      | ok middle =>
          rw [first] at settled
          exact inductionHypothesis amongRest settled
            (settlePort_accepts accepted isSetting first each)

theorem Deploy.allAccepted (deploy : Deploy) :
    AllAccepted deploy.manifest deploy.patterns deploy.settings := by
  have accepted := Accepted.of_problems deploy.accepted
  have settled := deploy.settled
  unfold settingsFor at settled
  cases checked : deploy.manifest.checkSettings deploy.patterns deploy.given deploy.machine with
  | error refused =>
      rw [checked] at settled
      cases settled
  | ok settings =>
      rw [checked] at settled
      cases ports : deploy.manifest.settings.foldlM
          (settlePort deploy.free deploy.follow) (settings, []) with
      | error refused =>
          simp only [bind, Except.bind, ports] at settled
          cases settled
      | ok after =>
          simp only [bind, Except.bind, ports, pure, Except.pure] at settled
          have same := Except.ok.inj settled
          rw [← same]
          exact settlePorts_accepts accepted (List.Subset.refl _) ports
            fun setting isSetting => accepts_of_checkSettings accepted checked isSetting

/-! ### The values of an env file -/

section

variable {manifest : Manifest} {settings : Settings} {secrets : EnvMap} {host : HostEnv}

theorem mem_secretPairs {name value : Text} (held : (name, value) ∈ secretPairs manifest secrets) :
    name ∈ manifest.secrets.flatMap Secret.envNames ∧ secrets[name]? = some value := by
  obtain ⟨secretName, isName, same⟩ := List.mem_filterMap.mp held
  obtain ⟨found, isValue, same⟩ := Option.map_eq_some_iff.mp same
  obtain ⟨rfl, rfl⟩ := Prod.mk.inj same
  exact ⟨isName, isValue⟩

/-- The names of an env file are env names, and its values are on one line each. -/
theorem fileValues_lines {patterns : Patterns} (accepted : manifest.Accepted)
    (each : AllAccepted manifest patterns settings) (clean : AllClean secrets) :
    ∀ pair ∈ (fileValues manifest settings secrets host).toList,
      EnvFile.Name pair.1 ∧ '\n' ∉ pair.2 := by
  have ofSource : ∀ name ∈ manifest.sources.map (·.1), EnvFile.Name name := fun name isSource =>
    isNameChar_of_shaped (accepted.named name isSource).1
  rw [sources_names] at ofSource
  have plain {value : Text} (made : ∀ char ∈ value, isMadeChar char = true) : '\n' ∉ value :=
    not_mem_of_all made (by decide)
  rintro ⟨name, value⟩ listed
  have held := Std.TreeMap.mem_toList_iff_getElem?_eq_some.mp listed
  rcases getElem?_insertMany_eq_some held with isHost | ⟨-, held⟩
  · have reservedNames : ∀ name ∈ reserved, isEnvName name = true := by decide
    refine ⟨isNameChar_of_shaped (reservedNames name ?_), plain (HostEnv.plain host isHost)⟩
    exact List.mem_map_of_mem (f := Prod.fst) isHost
  rcases getElem?_insertMany_eq_some held with isParser | ⟨-, held⟩
  · refine ⟨?_, plain (manifest.writtenToolParser_plain settings isParser)⟩
    have isName : name = toolParserEnv := by
      simp only [writtenToolParser] at isParser
      split at isParser
      · exact (Prod.mk.inj (List.mem_singleton.mp isParser)).1
      · cases isParser
    have parserNamed : EnvFile.Name toolParserEnv := isNameChar_of_shaped (by decide)
    exact isName ▸ parserNamed
  rcases getElem?_insertMany_eq_some held with isSetting | ⟨-, held⟩
  · obtain ⟨setting, inManifest, written⟩ := List.mem_flatMap.mp isSetting
    obtain ⟨given, isValue, taken⟩ := each setting inManifest
    refine ⟨ofSource name ?_, setting.not_mem_of_written (accepted.settings _ inManifest) isValue
      taken written (by decide)⟩
    have isName := (setting.written_names settings).1 _ written
    exact List.mem_append_right _ (List.mem_append_right _
      (List.mem_flatMap.mpr ⟨setting, inManifest, isName⟩))
  rcases getElem?_insertMany_eq_some held with isSecret | ⟨-, held⟩
  · obtain ⟨isName, isValue⟩ := mem_secretPairs isSecret
    exact ⟨ofSource name (List.mem_append_right _ (List.mem_append_left _ isName)),
      (clean name value isValue).oneLine⟩
  · have isPair := Std.TreeMap.mem_toList_iff_getElem?_eq_some.mpr held
    refine ⟨ofSource name (List.mem_append_left _ ?_),
      not_mem_of_envValueOk (accepted.env _ isPair) (by decide)⟩
    rw [← Std.TreeMap.map_fst_toList_eq_keys]
    exact List.mem_map_of_mem (f := Prod.fst) isPair

/-- A secret that no parser is written over is in the env file. -/
theorem fileValues_of_secret (accepted : manifest.Accepted) {name value : Text}
    (isName : name ∈ manifest.secrets.flatMap Secret.envNames) (isShown : shown manifest name = true)
    (held : secrets[name]? = some value) :
    (fileValues manifest settings secrets host)[name]? = some value := by
  have kept : manifest.Kept name := by
    rw [shown, Bool.or_eq_true, decide_eq_true_eq] at isShown
    exact fun same => isShown.resolve_left fun differ => differ same
  have isSource : name ∈ manifest.sources.map (·.1) := by
    rw [sources_names]
    exact List.mem_append_right _ (List.mem_append_left _ isName)
  have distinct := accepted.names
  rw [sources_names, List.nodup_append, List.nodup_append] at distinct
  have notSetting : name ∉ (manifest.settings.flatMap (Setting.written settings)).map (·.1) := by
    intro inSettings
    obtain ⟨pair, isPair, rfl⟩ := List.mem_map.mp inSettings
    obtain ⟨setting, isSetting, isWritten⟩ := List.mem_flatMap.mp isPair
    exact distinct.2.1.2.2 _ isName _ (List.mem_flatMap.mpr
      ⟨setting, isSetting, (setting.written_names settings).1 _ isWritten⟩) rfl
  rw [fileValues, not_mem_of_kept settings host accepted isSource _ kept,
    getElem?_insertMany_of_not_mem notSetting]
  refine Std.TreeMap.getElem?_insertMany_list_of_mem Std.ReflOrd.compare_self ?_
    (List.mem_filterMap.mpr ⟨name, isName, by rw [held]; rfl⟩)
  have pairwise := List.pairwise_filterMap (f := fun name =>
    (secrets[name]?).map fun value => (name, value))
    (R := fun left right : Text × Text => ¬ compare left.1 right.1 = .eq)
    (l := manifest.secrets.flatMap Secret.envNames)
  refine pairwise.mpr (distinct.2.1.1.imp fun differ left isLeft right isRight same => ?_)
  obtain ⟨_, -, rfl⟩ := Option.map_eq_some_iff.mp isLeft
  obtain ⟨_, -, rfl⟩ := Option.map_eq_some_iff.mp isRight
  exact differ (Std.LawfulEqOrd.eq_of_compare same)

end

/-! ### What one write puts in the file -/

/-- Whether a package keeps what was put in the env file before: it lists the secret, or the
secret with its hash, and writes no parser over it. -/
def keeps (manifest : Manifest) (put : Put) : Bool :=
  shown manifest put.name && manifest.secrets.any fun secret =>
    secret.env = put.name || (put.hashOf = some secret.env && secret.bcrypt = some put.name)

/-- Whether no parser is written over a secret whose hash the file holds. -/
def hashesShown (manifest : Manifest) : Bool :=
  manifest.secrets.all fun secret =>
    (secret.bcrypt.filter (shown manifest)).isNone || shown manifest secret.env

/-- An env file's text gives back what was put there. -/
def ReadBack (puts : List Put) (text : Text) : Prop :=
  ∀ put ∈ puts, (readEnv text [put.name])[put.name]? = some put.value

/-- Every hash that was put is that of a secret that was put. -/
def Hashes (bcrypt : Bcrypt) (puts : List Put) : Prop :=
  ∀ put ∈ puts, ∀ env, put.hashOf = some env →
    ∃ value, ⟨env, value, none⟩ ∈ puts ∧ bcrypt.verify value put.value = true

/-- Secrets and values that a deploy made from a file that gave back what was put. -/
def Sourced (bcrypt : Bcrypt) (puts : List Put) (deploy : Deploy) (values secrets : EnvMap) : Prop :=
  ∃ draw earlier host, makeSecrets bcrypt deploy.manifest draw earlier = some secrets ∧
    values = fileValues deploy.manifest deploy.settings secrets host ∧ ReadBack puts earlier

section

variable {puts : List Put} {deploy : Deploy} {values secrets : EnvMap}

/-- What is made of a secret of the deploy, and where it is in the env file. -/
theorem Sourced.made (sourced : Sourced bcrypt puts deploy values secrets) :
    (∀ secret ∈ deploy.manifest.secrets, ∃ earlier value, ReadBack puts earlier ∧
      Made bcrypt (readEnv earlier (deploy.manifest.secrets.flatMap Secret.envNames)) secrets
        secret value) ∧
    (∀ name ∈ deploy.manifest.secrets.flatMap Secret.envNames, shown deploy.manifest name = true →
      ∀ value : Text, secrets[name]? = some value → values[name]? = some value) ∧
    AllClean secrets := by
  obtain ⟨draw, earlier, host, made, rfl, readBack⟩ := sourced
  have accepted := Accepted.of_problems deploy.accepted
  have distinct := accepted.names
  rw [sources_names, List.nodup_append, List.nodup_append] at distinct
  obtain ⟨each, -, clean⟩ := made_of_foldlM distinct.2.1.1 made
  refine ⟨fun secret isSecret => ?_, fun name isName isShown value held => ?_,
    clean (allClean_readEnv _ _)⟩
  · obtain ⟨value, isMade⟩ := each secret isSecret
    exact ⟨earlier, value, readBack, isMade⟩
  · exact fileValues_of_secret accepted isName isShown held

theorem env_mem_names {manifest : Manifest} {secret : Secret} (isSecret : secret ∈ manifest.secrets) :
    secret.env ∈ manifest.secrets.flatMap Secret.envNames :=
  List.mem_flatMap.mpr ⟨secret, isSecret, List.mem_cons_self⟩

theorem hash_mem_names {manifest : Manifest} {secret : Secret} (isSecret : secret ∈ manifest.secrets)
    {name : Text} (isHash : secret.bcrypt = some name) :
    name ∈ manifest.secrets.flatMap Secret.envNames :=
  List.mem_flatMap.mpr
    ⟨secret, isSecret, List.mem_cons_of_mem _ (Option.mem_toList.mpr isHash)⟩

/-- What was put before is made again as it was, when the package keeps it. -/
theorem Sourced.secret_of_keeps (sourced : Sourced bcrypt puts deploy values secrets)
    (hashes : Hashes bcrypt puts) {put : Put} (isPut : put ∈ puts)
    (kept : keeps deploy.manifest put = true) :
    secrets[put.name]? = some put.value ∧ values[put.name]? = some put.value := by
  obtain ⟨made, inFile, -⟩ := sourced.made
  rw [keeps, Bool.and_eq_true, List.any_eq_true] at kept
  obtain ⟨isShown, secret, isSecret, lists⟩ := kept
  obtain ⟨earlier, value, readBack, isMade⟩ := made secret isSecret
  have before : ∀ other ∈ puts, other.name ∈ deploy.manifest.secrets.flatMap Secret.envNames →
      (readEnv earlier (deploy.manifest.secrets.flatMap Secret.envNames))[other.name]? =
        some other.value := fun other isOther isName =>
    (getElem?_readEnv isName).trans (readBack other isOther)
  rw [Bool.or_eq_true, Bool.and_eq_true, decide_eq_true_eq, decide_eq_true_eq,
    decide_eq_true_eq] at lists
  rcases lists with same | ⟨isHashOf, isHash⟩
  · have isName := same ▸ env_mem_names isSecret
    have equal := isMade.kept put.value (same ▸ before put isPut isName)
    have held : secrets[put.name]? = some put.value := same ▸ equal ▸ isMade.held
    exact ⟨held, inFile _ isName isShown _ held⟩
  · have isName := hash_mem_names isSecret isHash
    obtain ⟨hashed, isHashed, -, keptHash⟩ := isMade.hash put.name isHash
    obtain ⟨plain, isPlain, verified⟩ := hashes put isPut secret.env isHashOf
    have equal := isMade.kept plain (before _ isPlain (env_mem_names isSecret))
    have sameHash := keptHash put.value (before put isPut isName) (equal ▸ verified)
    have held : secrets[put.name]? = some put.value := sameHash ▸ isHashed
    exact ⟨held, inFile _ isName isShown _ held⟩

/-- The secrets that a write puts, each from a secret of the manifest. -/
theorem mem_putsOf {manifest : Manifest} {put : Put} (isPut : put ∈ putsOf manifest secrets) :
    ∃ secret ∈ manifest.secrets, shown manifest put.name = true ∧
      put.value = (secrets[put.name]?).getD [] ∧
      ((put.name = secret.env ∧ put.hashOf = none) ∨
        (secret.bcrypt = some put.name ∧ put.hashOf = some secret.env)) := by
  obtain ⟨secret, isSecret, isOne⟩ := List.mem_flatMap.mp isPut
  refine ⟨secret, isSecret, ?_⟩
  rcases List.mem_append.mp isOne with isValue | isHash
  · obtain ⟨isShown, isValue⟩ := List.mem_ite_nil_right.mp isValue
    obtain rfl := List.mem_singleton.mp isValue
    exact ⟨isShown, rfl, .inl ⟨rfl, rfl⟩⟩
  · obtain ⟨name, isName, rfl⟩ := List.mem_map.mp isHash
    obtain ⟨isName, isShown⟩ := List.mem_filter.mp isName
    exact ⟨isShown, rfl, .inr ⟨Option.mem_toList.mp isName, rfl⟩⟩

/-- What a write puts is in the env file, made of the secrets. -/
theorem Sourced.secret_of_putsOf (sourced : Sourced bcrypt puts deploy values secrets) {put : Put}
    (isPut : put ∈ putsOf deploy.manifest secrets) :
    secrets[put.name]? = some put.value ∧ values[put.name]? = some put.value := by
  obtain ⟨made, inFile, -⟩ := sourced.made
  obtain ⟨secret, isSecret, isShown, isValue, kind⟩ := mem_putsOf isPut
  obtain ⟨earlier, value, -, isMade⟩ := made secret isSecret
  have held : secrets[put.name]? = some put.value ∧
      put.name ∈ deploy.manifest.secrets.flatMap Secret.envNames := by
    rcases kind with ⟨same, -⟩ | ⟨isHash, -⟩
    · rw [isValue, same, isMade.held]
      exact ⟨rfl, env_mem_names isSecret⟩
    · obtain ⟨hashed, isHashed, -⟩ := isMade.hash put.name isHash
      rw [isValue, isHashed]
      exact ⟨rfl, hash_mem_names isSecret isHash⟩
  exact ⟨held.1, inFile _ held.2 isShown _ held.1⟩

/-- A hash that a write puts is that of a secret it puts too. -/
theorem Sourced.hashes_putsOf (sourced : Sourced bcrypt puts deploy values secrets)
    (allShown : hashesShown deploy.manifest = true) :
    Hashes bcrypt (putsOf deploy.manifest secrets) := by
  intro put isPut env isHashOf
  have held := (sourced.secret_of_putsOf isPut).1
  obtain ⟨secret, isSecret, isShown, -, kind⟩ := mem_putsOf isPut
  rcases kind with ⟨-, none⟩ | ⟨isHash, isSome⟩
  · rw [none] at isHashOf
    cases isHashOf
  · obtain rfl := Option.some.inj (isSome.symm.trans isHashOf)
    have shownEnv := List.all_eq_true.mp allShown secret isSecret
    rw [isHash, Option.filter_some, if_pos isShown] at shownEnv
    obtain ⟨earlier, value, -, isMade⟩ := sourced.made.1 secret isSecret
    obtain ⟨hashed, isHashed, verified, -⟩ := isMade.hash put.name isHash
    obtain rfl := Option.some.inj (isHashed.symm.trans held)
    refine ⟨value, List.mem_flatMap.mpr ⟨secret, isSecret, List.mem_append_left _ ?_⟩, verified⟩
    rw [if_pos (by simpa using shownEnv), isMade.held]
    exact List.mem_singleton_self _

end

end ServerBox.Monitor.StackSecrets
