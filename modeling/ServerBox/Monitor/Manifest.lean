import Mathlib.Data.List.Nodup
import Std.Data.TreeMap.Lemmas
import Std.Data.TreeSet.Lemmas
import ServerBox.Std.EnvFile
import Mathlib.Algebra.Order.Ring.Nat

/-!
# The web app manifest

`src/monitor/src/stacks/manifest.rs`: what a manifest sets in the env file of its stack, the
settings it asks for, and the checks it and the settings given are accepted by. Checks of
what is only shown or linked to (names, titles, labels, licence, login, web page) are left
out. A setting's pattern is matched by the `regex` crate, which `Patterns` stands for.
-/

namespace ServerBox.Monitor.Manifest

open ServerBox.Std

/-- `EnvMap` and `Text` of the source: a `BTreeMap` of texts. -/
abbrev EnvMap := Std.TreeMap Text Text

/-- `anchored`: a pattern as the test of a whole value, when it is a regular expression. -/
abbrev Patterns := Text → Option (Text → Bool)

/-! ### What a manifest holds -/

inductive Engine where
  | ollama
  | llamaCpp
  | vllm
  | sglang
  | mlx
deriving DecidableEq, Repr

structure Llm where
  port : Text
  model : Option Text
  key : Option Text
  tools : Option Engine

inductive McpPublisher where
  | builtin
  | official
  | community
deriving DecidableEq, Repr

structure Mcp where
  port : Text
  publisher : McpPublisher
  service : Option Text
  source : Option Text

structure Secret where
  env : Text
  length : Nat
  bcrypt : Option Text
  hex : Bool

inductive Protocol where
  | tcp
  | udp
  | both
deriving DecidableEq, Repr

structure Suggest where
  gpu : Option Text
  wsl : Option Bool

structure ChoiceOption where
  value : Text
  env : EnvMap
  suggest : Option Suggest

inductive Setting where
  | path (key env default : Text) (data : Bool)
  | port (key env : Text) (default : Nat) (protocol : Protocol)
  | bool (key : Text) (default : Bool) (on off : EnvMap)
  | choice (key default : Text) (options : List ChoiceOption)
  | text (key env : Text) (default : Option Text) (optional : Bool) (pattern : Text)

end ServerBox.Monitor.Manifest

namespace ServerBox.Monitor

open ServerBox.Std

structure Manifest where
  composeFiles : List Text
  env : Manifest.EnvMap
  secrets : List Manifest.Secret
  settings : List Manifest.Setting
  mcp : List Manifest.Mcp
  llm : Option Manifest.Llm

end ServerBox.Monitor

namespace ServerBox.Monitor.Manifest

open ServerBox.Std

/-- Env names the agent writes for every app. -/
def reserved : List Text :=
  ["SBM_UID".toList, "SBM_GID".toList, "SBM_TZ".toList, "SBM_RENDER_GID".toList]

def toolParserEnv : Text := "SBM_TOOL_PARSER".toList

/-- The env names a secret sets: the secret, and its hash when asked. -/
def Secret.envNames (secret : Secret) : List Text := secret.env :: secret.bcrypt.toList

namespace Setting

def key : Setting → Text
  | path key _ _ _ | port key _ _ _ | bool key _ _ _ | choice key _ _ | text key _ _ _ _ => key

/-- Every env name the setting can write. -/
def envNames : Setting → List Text
  | path _ env _ _ | port _ env _ _ | text _ env _ _ _ => [env]
  | bool _ _ on off => (Std.TreeSet.ofList (on.keys ++ off.keys)).toList
  | choice _ _ options => (Std.TreeSet.ofList (options.flatMap (·.env.keys))).toList

end Setting

/-! ### Checks -/

/-- What a manifest got wrong: where (`at` in the source), and what. -/
structure Problem where
  place : Text
  message : Text
deriving DecidableEq, Repr

def problem (place message : String) : Problem := ⟨place.toList, message.toList⟩

/-- `field[index]` and what follows it. -/
def indexed (field : String) (index : Nat) (after : String) : Text :=
  field.toList ++ "[".toList ++ Text.decimal index ++ "]".toList ++ after.toList

/-- One `first`, and up to `more` of `others` after it. -/
def shaped (first others : Char → Bool) (more : Nat) : Text → Bool
  | [] => false
  | char :: rest => first char && rest.all others && decide (rest.length ≤ more)

def isKey : Text → Bool :=
  shaped Char.isLower (fun char => char.isLower || char.isDigit || char = '_') 31

def isEnvName : Text → Bool :=
  shaped (fun char => char.isUpper || char = '_')
    (fun char => char.isUpper || char.isDigit || char = '_') 63

def isOptionValue : Text → Bool :=
  shaped (fun char => char.isAlphanum || char ∈ ['.', '_', '-'])
    (fun char => char.isAlphanum || char ∈ ['.', '_', '-']) 63

def isService : Text → Bool :=
  shaped (fun char => char.isLower || char.isDigit)
    (fun char => char.isLower || char.isDigit || char ∈ ['_', '.', '-']) 63

/-- How many bytes a text has in UTF-8. -/
def byteLength (text : Text) : Nat := (text.map Char.utf8Size).sum

/-- An env value that is to be read back literally: it is written single-quoted. -/
def envValueOk (value : Text) : Bool :=
  decide (byteLength value ≤ 1024) && !value.any (· ∈ ['\'', '\n', '\r', '\x00'])

def https (url : Text) : Bool :=
  "https://".toList.isPrefixOf url && decide (byteLength url ≤ 512)

def startsWith (text : Text) (start : String) : Bool := start.toList.isPrefixOf text

/-- What is wrong with an option, the `index`th of `options`. -/
def optionProblems (place : Text) (options : List ChoiceOption) (index : Nat)
    (option : ChoiceOption) : List Problem :=
  let optionPlace := place ++ indexed ".options" index ""
  (if !isOptionValue option.value || (options.take index).any (·.value == option.value) then
      [⟨optionPlace ++ ".value".toList, "letters, digits, ._-; each once".toList⟩] else []) ++
  (if option.env.isEmpty || options.head?.any (·.env.keys != option.env.keys) then
      [⟨optionPlace ++ ".env".toList, "every option sets the same names, at least one".toList⟩]
    else []) ++
  (if option.env.toList.any fun pair => !envValueOk pair.2 then
      [⟨optionPlace ++ ".env".toList, "no ', line break or NUL".toList⟩] else []) ++
  (if (option.suggest.bind (·.gpu)).any fun gpu =>
      gpu ∉ ["nvidia".toList, "amd".toList, "intel".toList] then
      [⟨optionPlace ++ ".suggest.gpu".toList, "nvidia, amd or intel".toList⟩] else [])

def settingProblems (patterns : Patterns) (place : Text) : Setting → List Problem
  | .path _ _ default data =>
      (if !(startsWith default "/" || startsWith default "{stack}" ||
          startsWith default "{shared}") || !envValueOk default then
          [⟨place ++ ".default".toList, "absolute, or under {stack} or {shared}".toList⟩] else []) ++
      (if data && startsWith default "{shared}" then
          [⟨place ++ ".data".toList, "a {shared} folder is not one app's data".toList⟩] else [])
  | .port _ _ default _ =>
      if default = 0 then [⟨place ++ ".default".toList, "1 to 65535".toList⟩] else []
  | .bool _ _ on off =>
      (if on.isEmpty || on.keys != off.keys then
          [⟨place, "`on` and `off` set the same names, at least one".toList⟩] else []) ++
      ((on.toList ++ off.toList).filter fun pair => !envValueOk pair.2).map fun pair =>
        ⟨place ++ '.' :: pair.1, "no ', line break or NUL".toList⟩
  | .choice _ default options =>
      (if options.length < 2 then [⟨place ++ ".options".toList, "at least two".toList⟩] else []) ++
      (if !options.any (·.value == default) then
          [⟨place ++ ".default".toList, "not one of the options".toList⟩] else []) ++
      options.zipIdx.flatMap fun (option, index) => optionProblems place options index option
  | .text _ _ default _ pattern =>
      match patterns pattern with
      | none => [⟨place ++ ".pattern".toList, "not a regular expression".toList⟩]
      | some isMatch =>
          if default.any fun default => !default.isEmpty && !isMatch default then
            [⟨place ++ ".default".toList, "does not match the pattern".toList⟩] else []

/-! ### The manifest's own problems -/

variable (manifest : Manifest)

/-- Every env name with the place it comes from. -/
def sources : List (Text × Text) :=
  (manifest.env.keys.map fun name => (name, "env".toList)) ++
  (manifest.secrets.zipIdx.flatMap fun (secret, index) =>
    (secret.env, indexed "secrets" index "") ::
      secret.bcrypt.toList.map fun hash => (hash, indexed "secrets" index ".bcrypt")) ++
  manifest.settings.zipIdx.flatMap fun (setting, index) =>
    setting.envNames.map fun name => (name, indexed "settings" index "")

/-- What is wrong with one name, which comes from `places`. -/
def nameProblems (name : Text) (places : List Text) : List Problem :=
  let first := places.headD []
  (if name ∈ reserved then [⟨first, name ++ " is written by the agent".toList⟩] else []) ++
  (if !isEnvName name then [⟨first, name ++ ": not an env name".toList⟩] else []) ++
  (if places.length > 1 then
    [⟨places.getD 1 [], name ++ " is also set by ".toList ++ first⟩] else [])

def sourceProblems : List Problem :=
  (Std.TreeSet.ofList (manifest.sources.map (·.1))).toList.flatMap fun name =>
    nameProblems name ((manifest.sources.filter (·.1 == name)).map (·.2))

def secretProblems : List Problem :=
  manifest.secrets.zipIdx.flatMap fun (secret, index) =>
    if !(decide (16 ≤ secret.length) && decide (secret.length ≤ 128)) ||
        (secret.bcrypt.isSome && decide (secret.length > 72)) ||
        (secret.hex && secret.length % 2 == 1) then
      [⟨indexed "secrets" index ".length", "16 to 128; 72 at most with bcrypt; even with hex".toList⟩]
    else []

def envProblems : List Problem :=
  (manifest.env.toList.filter fun pair => !envValueOk pair.2).map fun pair =>
    ⟨"env.".toList ++ pair.1, "no ', line break or NUL; at most 1024 bytes".toList⟩

def keyProblems : List Problem :=
  manifest.settings.zipIdx.flatMap fun (setting, index) =>
    (if !isKey setting.key then
      [⟨indexed "settings" index ".key", "lowercase letters, digits and _, at most 32".toList⟩]
      else []) ++
    (if (manifest.settings.take index).any (·.key == setting.key) then
      [⟨indexed "settings" index ".key", "used twice".toList⟩] else [])

/-- The setting of a key. -/
def setting? (key : Text) : Option Setting := manifest.settings.find? (·.key == key)

/-- Whether a key is that of a TCP port setting. -/
def isTcpPort (key : Text) : Bool :=
  match manifest.setting? key with
  | some (.port _ _ _ .tcp) => true
  | _ => false

def llmProblems : List Problem :=
  match manifest.llm with
  | none => []
  | some llm =>
      (if !manifest.isTcpPort llm.port then [problem "llm.port" "names no TCP port setting"]
        else []) ++
      (match llm.model with
        | none => []
        | some model =>
            match manifest.setting? model with
            | some (.text ..) => []
            | _ => [problem "llm.model" "names no text setting"]) ++
      (match llm.key with
        | none => []
        | some env =>
            if manifest.secrets.any (·.env == env) then []
            else [⟨"llm.key".toList, env ++ " is not a [[secrets]] entry".toList⟩]) ++
      match llm.tools with
      | none => []
      | some .vllm | some .sglang =>
          if llm.model.isNone then
            [problem "llm.tools" "needs llm.model: the parser follows the model"] else []
      | some _ => [problem "llm.tools" "vllm or sglang"]

def maxMcp : Nat := 4

def mcpProblems : List Problem :=
  (if manifest.mcp.length > maxMcp then [⟨"mcp".toList, "at most ".toList ++ Text.decimal maxMcp⟩]
    else []) ++
  manifest.mcp.zipIdx.flatMap fun (mcp, index) =>
    (if !manifest.isTcpPort mcp.port then
      [⟨indexed "mcp" index ".port", "names no TCP port setting".toList⟩] else []) ++
    (if (manifest.mcp.take index).any (·.port == mcp.port) then
      [⟨indexed "mcp" index ".port", "another MCP server's".toList⟩] else []) ++
    match mcp.publisher, mcp.service, mcp.source with
    | .builtin, none, none => []
    | .builtin, _, _ =>
        [⟨indexed "mcp" index ".publisher", "the service's own: no service or source".toList⟩]
    | _, some service, some source =>
        (if !isService service then
          [⟨indexed "mcp" index ".service", "a compose service name".toList⟩] else []) ++
        (if !https source then [⟨indexed "mcp" index ".source", "an https:// URL".toList⟩] else [])
    | _, _, _ =>
        [⟨indexed "mcp" index ".publisher",
          "a sidecar names its compose service and source".toList⟩]

/-- What the manifest says wrongly about itself; empty when it is fine. -/
def problems (patterns : Patterns) : List Problem :=
  (if manifest.composeFiles.isEmpty then [problem "compose.files" "names no file"] else []) ++
  manifest.secretProblems ++ manifest.envProblems ++ manifest.keyProblems ++
  (manifest.settings.zipIdx.flatMap fun (setting, index) =>
    settingProblems patterns (indexed "settings" index "") setting) ++
  manifest.sourceProblems ++ manifest.mcpProblems ++ manifest.llmProblems

/-- Every env name the env file can set. -/
def provided : List Text :=
  manifest.env.keys ++ reserved ++
  (if manifest.llm.any (·.tools.isSome) then [toolParserEnv] else []) ++
  manifest.secrets.flatMap Secret.envNames ++ manifest.settings.flatMap Setting.envNames

/-! ### What acceptance says -/

/-- What a setting of an accepted manifest keeps to. -/
def Setting.Sound : Setting → Prop
  | path _ _ default _ => envValueOk default = true
  | bool _ _ on off =>
      on.keys = off.keys ∧ ∀ pair ∈ on.toList ++ off.toList, envValueOk pair.2 = true
  | choice _ _ options =>
      ∀ option ∈ options, ∀ pair ∈ option.env.toList, envValueOk pair.2 = true
  | port _ _ _ _ | text _ _ _ _ _ => True

/-- What a manifest without problems keeps to. -/
structure Accepted : Prop where
  env : ∀ pair ∈ manifest.env.toList, envValueOk pair.2 = true
  settings : ∀ setting ∈ manifest.settings, setting.Sound
  keys : manifest.settings.Pairwise fun left right => left.key ≠ right.key
  names : (manifest.sources.map (·.1)).Nodup
  named : ∀ name ∈ manifest.sources.map (·.1), isEnvName name = true ∧ name ∉ reserved

theorem reported_eq_nil {fails : Prop} [Decidable fails] {report : List Problem} (some : report ≠ [])
    (none : (if fails then report else []) = []) : ¬ fails := by
  intro holds
  rw [if_pos holds] at none
  exact some none

theorem flatMap_zipIdx_eq_nil {α : Type} {values : List α} {report : α × Nat → List Problem}
    (none : values.zipIdx.flatMap report = []) {index : Nat} {value : α}
    (held : values[index]? = some value) : report (value, index) = [] :=
  List.flatMap_eq_nil_iff.mp none _ (List.mk_mem_zipIdx_iff_getElem?.mpr held)

theorem filter_map_eq_nil {α : Type} {values : List α} {fails : α → Bool} {report : α → Problem}
    (none : (values.filter fails).map report = []) : ∀ value ∈ values, fails value = false := by
  intro value held
  have empty := List.map_eq_nil_iff.mp none
  simpa using List.filter_eq_nil_iff.mp empty value held

theorem Setting.sound_of_problems {patterns : Patterns} {place : Text} {setting : Setting}
    (none : settingProblems patterns place setting = []) : setting.Sound := by
  cases setting with
  | path key env default data =>
      have fails := reported_eq_nil (by simp) (List.append_eq_nil_iff.mp none).1
      simp only [Bool.or_eq_true, Bool.not_eq_true', not_or, Bool.not_eq_false] at fails
      exact fails.2
  | port => trivial
  | bool key default on off =>
      obtain ⟨names, values⟩ := List.append_eq_nil_iff.mp none
      have fails := reported_eq_nil (by simp) names
      simp only [Bool.or_eq_true, bne_iff_ne, not_or, ne_eq, not_not] at fails
      exact ⟨fails.2, fun pair held => by simpa using filter_map_eq_nil values pair held⟩
  | choice key default options =>
      intro option held pair isPair
      obtain ⟨index, isOption⟩ := List.mem_iff_getElem?.mp held
      have options := flatMap_zipIdx_eq_nil (List.append_eq_nil_iff.mp none).2 isOption
      simp only [optionProblems, List.append_eq_nil_iff] at options
      have fails := reported_eq_nil (by simp) options.1.2
      simp only [List.any_eq_true, Bool.not_eq_true', not_exists, not_and,
        Bool.not_eq_false] at fails
      exact fails pair isPair
  | text => trivial

theorem keys_of_keyProblems (none : manifest.keyProblems = []) :
    manifest.settings.Pairwise fun left right => left.key ≠ right.key := by
  rw [List.pairwise_iff_getElem]
  intro first second inFirst inSecond before same
  have reports := flatMap_zipIdx_eq_nil none (List.getElem?_eq_getElem inSecond)
  have fails := reported_eq_nil (by simp) (List.append_eq_nil_iff.mp reports).2
  apply fails
  rw [List.any_eq_true]
  refine ⟨manifest.settings[first], ?_, by simpa using same⟩
  exact List.mem_take_iff_getElem.mpr ⟨first, by omega, rfl⟩

/-- Every name comes from one place, is an env name and is not the agent's. -/
theorem names_of_sourceProblems (none : manifest.sourceProblems = []) :
    (manifest.sources.map (·.1)).Nodup ∧
      ∀ name ∈ manifest.sources.map (·.1), isEnvName name = true ∧ name ∉ reserved := by
  have each : ∀ name ∈ manifest.sources.map (·.1),
      nameProblems name ((manifest.sources.filter (·.1 == name)).map (·.2)) = [] := by
    intro name held
    refine List.flatMap_eq_nil_iff.mp none name ?_
    rw [Std.TreeSet.mem_toList, Std.TreeSet.mem_ofList]
    simpa using held
  constructor
  · rw [List.nodup_iff_count_le_one]
    intro name
    by_cases held : name ∈ manifest.sources.map (·.1)
    · have reports := each name held
      have fails := reported_eq_nil (by simp) (List.append_eq_nil_iff.mp reports).2
      simp only [List.length_map, Nat.not_lt] at fails
      rwa [List.count, List.countP_map, List.countP_eq_length_filter]
    · rw [List.count_eq_zero_of_not_mem held]
      exact Nat.zero_le _
  · intro name held
    have reports := (List.append_eq_nil_iff.mp (each name held)).1
    obtain ⟨agent, shape⟩ := List.append_eq_nil_iff.mp reports
    have notReserved := reported_eq_nil (by simp) agent
    have isName := reported_eq_nil (by simp) shape
    exact ⟨by simpa using isName, notReserved⟩

theorem Accepted.of_problems {manifest : Manifest} {patterns : Patterns}
    (none : manifest.problems patterns = []) : manifest.Accepted := by
  simp only [problems, List.append_eq_nil_iff] at none
  obtain ⟨⟨⟨⟨⟨⟨⟨-, -⟩, env⟩, keys⟩, settings⟩, sources⟩, -⟩, -⟩ := none
  obtain ⟨names, named⟩ := manifest.names_of_sourceProblems sources
  refine ⟨fun pair held => ?_, fun setting held => ?_, manifest.keys_of_keyProblems keys, names,
    named⟩
  · simpa using filter_map_eq_nil env pair held
  · obtain ⟨index, isSetting⟩ := List.mem_iff_getElem?.mp held
    exact Setting.sound_of_problems (flatMap_zipIdx_eq_nil settings isSetting)

end ServerBox.Monitor.Manifest
