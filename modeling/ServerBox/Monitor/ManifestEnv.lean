import ServerBox.Monitor.Manifest
import Mathlib

/-!
# The env file of a stack

`src/monitor/src/stacks/manifest.rs`: the settings given are checked against the manifest's
(`check_settings`), and what they and the manifest set is written for Compose, each value
single-quoted (`env_values`, `env_file`). Secrets and what the agent says of the machine come
from `src/monitor/src/stacks/mod.rs`.
-/

namespace ServerBox.Monitor.Manifest

open ServerBox.Std

/-! ### Settings given -/

/-- A `serde_json::Value`; a number that is no `u64`, a list and an object are their text. -/
inductive Value where
  | null
  | bool (value : Bool)
  | number (value : Nat)
  | text (value : Text)
  | other (json : Text)
deriving DecidableEq, Repr

namespace Value

def asText : Value → Option Text
  | text value => some value
  | _ => none

def asNumber : Value → Option Nat
  | number value => some value
  | _ => none

def asBool : Value → Option Bool
  | bool value => some value
  | _ => none

/-- `to_string`; of a text only the quotes around it, as no port is one. -/
def toText : Value → Text
  | null => "null".toList
  | bool true => "true".toList
  | bool false => "false".toList
  | number value => Text.decimal value
  | text value => '"' :: value ++ ['"']
  | other json => json

end Value

abbrev Settings := Std.TreeMap Text Value

/-- What the defaults depend on; `free` says which ports the stack may publish. -/
structure Machine where
  stack : Text
  shared : Text
  gpus : List Text
  wsl : Bool
  free : Nat → Protocol → Bool

/-- A path setting's default with `{stack}` or `{shared}` filled in. -/
def Machine.path (machine : Machine) (default : Text) : Text :=
  let filled (token : String) (dir : Text) : Option Text :=
    if startsWith default token then
      some (dir.rdropWhile (· = '/') ++ default.drop token.toList.length)
    else none
  (filled "{stack}" machine.stack).getD ((filled "{shared}" machine.shared).getD default)

def Machine.suits (machine : Machine) (suggest : Suggest) : Bool :=
  suggest.gpu.all (· ∈ machine.gpus) && suggest.wsl.all (· == machine.wsl)

/-- How far past a taken default port the next free one is looked for. -/
def portSearch : Nat := 100

/-- The value the deploy dialog starts a setting from. -/
def Setting.defaultFor (machine : Machine) : Setting → Value
  | path _ _ default _ => .text (machine.path default)
  | port _ _ default protocol =>
      let last := min (default + portSearch) 65535
      let free := (List.range' default (last + 1 - default)).find? (machine.free · protocol)
      .number (free.getD default)
  | bool _ default _ _ => .bool default
  | choice _ default options =>
      let suggested := options.find? fun option => option.suggest.any machine.suits
      .text ((suggested.map (·.value)).getD default)
  | text _ _ default _ _ => .text (default.getD [])

/-- Whether a value is one the setting takes. -/
def Setting.accepts (patterns : Patterns) (value : Value) : Setting → Bool
  | path _ _ _ _ =>
      value.asText.any fun path => path.head? = some '/' && envValueOk path && !path.isEmpty
  | port _ _ _ _ => value.asNumber.any fun port => decide (1 ≤ port) && decide (port ≤ 65535)
  | bool _ _ _ _ => value.asBool.isSome
  | choice _ _ options => value.asText.any fun value => options.any (·.value == value)
  | text _ _ _ optional pattern =>
      value.asText.any fun value => (value.isEmpty && optional) ||
        (envValueOk value && (patterns pattern).any fun isMatch => isMatch value)

/-- What a setting check refused: the setting, and a code the panel words. -/
structure Invalid where
  field : Text
  error : Text
deriving DecidableEq, Repr

variable (manifest : Manifest)

def defaults (machine : Machine) : Settings :=
  Std.TreeMap.ofList (manifest.settings.map fun setting =>
    (setting.key, setting.defaultFor machine))

/-- One setting checked, and added to those before it. -/
def checkSetting (patterns : Patterns) (given : Settings) (defaults : Settings) (out : Settings)
    (setting : Setting) : Except Invalid Settings :=
  let value := ((given[setting.key]?).or defaults[setting.key]?).getD .null
  if setting.accepts patterns value then .ok (out.insert setting.key value)
  else .error ⟨setting.key, "invalidSetting".toList⟩

/-- The given settings checked: a missing one takes its default, nothing else is taken. -/
def checkSettings (patterns : Patterns) (given : Settings) (machine : Machine) :
    Except Invalid Settings :=
  match given.keys.find? fun key => !manifest.settings.any (·.key == key) with
  | some unknown => .error ⟨unknown, "unknownSetting".toList⟩
  | none => manifest.settings.foldlM (checkSetting patterns given (manifest.defaults machine)) ∅

/-! ### The tool-call parser of a model server -/

/-- `str::contains`. -/
def contains (text : Text) (part : String) : Bool :=
  text.tails.any fun tail => part.toList.isPrefixOf tail

/-- vLLM's and SGLang's parser for a model whose name `has` what marks its family. -/
def familyParsers (has : String → Bool) : Option (String × String) :=
  if has "qwen3-coder" || has "qwen3coder" then some ("qwen3_coder", "qwen3_coder")
  else if has "qwen" || has "qwq" || has "hermes" then
    some ("hermes", if has "hermes" then "hermes" else "qwen")
  else if has "llama-4" || has "llama4" then some ("llama4_pythonic", "pythonic")
  else if has "llama-3" || has "llama3" then some ("llama3_json", "llama3")
  else if ["mistral", "ministral", "devstral", "magistral"].any has then some ("mistral", "mistral")
  else if has "gpt-oss" then some ("openai", "gpt-oss")
  else if has "deepseek-v3.1" then some ("deepseek_v31", "deepseekv31")
  else if has "deepseek-v3" then some ("deepseek_v3", "deepseekv3")
  else if has "glm-4.7" then some ("glm47", "glm47")
  else if has "glm-4.5" || has "glm-4.6" then some ("glm45", "glm45")
  else if has "kimi-k2" then some ("kimi_k2", "kimi_k2")
  else if has "gemma-4" || has "gemma4" then some ("gemma4", "gemma4")
  else if has "minimax-m2" then some ("minimax_m2", "minimax-m2")
  else none

/-- `inference::tool_parser`: the engine's parser for a model. -/
def toolParser (engine : Engine) (model : Text) : Option Text :=
  let parsers := familyParsers (contains (((model.splitOn '/').getLastD model).map Char.toLower))
  match engine with
  | .vllm => parsers.map (·.1.toList)
  | .sglang => parsers.map (·.2.toList)
  | _ => none

/-- The parser for the model that the settings name. -/
def Llm.toolParser (llm : Llm) (settings : Settings) : Option Text := do
  let model ← (settings[← llm.model]?).bind Value.asText
  Manifest.toolParser (← llm.tools) model

/-! ### What is written -/

/-- The values a setting gives, by name. -/
def Setting.written (settings : Settings) (setting : Setting) : List (Text × Text) :=
  match settings[setting.key]? with
  | none => []
  | some value =>
      match setting with
      | path _ env _ _ | text _ env _ _ _ =>
          (value.asText.filter (!·.isEmpty)).toList.map fun text => (env, text)
      | port _ env _ _ => [(env, value.toText)]
      | bool _ _ on off => (if value.asBool = some true then on else off).toList
      | choice _ _ options =>
          match options.find? fun option => value.asText == some option.value with
          | some option => option.env.toList
          | none => []

/-- Secrets as `write_files` makes them: hex, letters and digits, or a bcrypt hash. -/
structure Secrets where
  values : EnvMap
  plain : ∀ name value : Text, values[name]? = some value →
    ∀ char ∈ value, char.isAlphanum || char ∈ ['$', '.', '/']

def timeZoneOk (zone : Text) : Bool :=
  decide (1 ≤ byteLength zone) && decide (byteLength zone ≤ 64) &&
    zone.all fun char => char.isAlphanum || char ∈ ['/', '_', '+', '-']

/-- What the agent writes for the reserved names. -/
structure HostEnv where
  uid : Nat
  gid : Nat
  tz : Text
  renderGid : Nat
  tzOk : timeZoneOk tz = true

def HostEnv.values (host : HostEnv) : List (Text × Text) :=
  [("SBM_UID".toList, Text.decimal host.uid), ("SBM_GID".toList, Text.decimal host.gid),
    ("SBM_TZ".toList, host.tz), ("SBM_RENDER_GID".toList, Text.decimal host.renderGid)]

/-- The secrets there are, by name. -/
def writtenSecrets (secrets : Secrets) : List (Text × Text) :=
  (manifest.secrets.flatMap Secret.envNames).filterMap fun name =>
    (secrets.values[name]?).map fun value => (name, value)

def writtenToolParser (settings : Settings) : List (Text × Text) :=
  match manifest.llm.filter (·.tools.isSome) with
  | some llm => [(toolParserEnv, (llm.toolParser settings).getD [])]
  | none => []

/-- Every value the env file sets, by name. -/
def envValues (settings : Settings) (secrets : Secrets) : EnvMap :=
  (((manifest.env.insertMany (manifest.writtenSecrets secrets)).insertMany
    (manifest.settings.flatMap (Setting.written settings))).insertMany
    (manifest.writtenToolParser settings))

/-- What the env file is to mean: the values of the manifest and those of the host. -/
def fileValues (settings : Settings) (secrets : Secrets) (host : HostEnv) : EnvMap :=
  (manifest.envValues settings secrets).insertMany host.values

/-- The comment the env file starts with. -/
def header : Text :=
  " Written by ServerBox Monitor from the app's manifest; replaced on every update.".toList

/-- The env file for checked settings. -/
def envFile (settings : Settings) (secrets : Secrets) (host : HostEnv) : Text :=
  '#' :: header ++ '\n' :: EnvFile.write (manifest.fileValues settings secrets host).toList

/-! ### Checked settings -/

/-- Each setting checked is in the result, with a value it takes. -/
theorem checkSetting_foldlM {patterns : Patterns} {given defaults : Settings}
    {settings : List Setting} (keys : settings.Pairwise fun left right => left.key ≠ right.key)
    {out after : Settings}
    (checked : settings.foldlM (checkSetting patterns given defaults) out = .ok after) :
    (∀ setting ∈ settings, ∃ value, after[setting.key]? = some value ∧
      setting.accepts patterns value = true) ∧
    ∀ key, (∀ setting ∈ settings, setting.key ≠ key) → after[key]? = out[key]? := by
  induction settings generalizing out with
  | nil =>
      have same : out = after := Except.ok.inj checked
      subst same
      exact ⟨nofun, fun _ _ => rfl⟩
  | cons first others inductionHypothesis =>
      obtain ⟨firstKey, otherKeys⟩ := List.pairwise_cons.mp keys
      rw [List.foldlM_cons, checkSetting] at checked
      split at checked
      next accepted =>
          obtain ⟨each, rest⟩ := inductionHypothesis otherKeys checked
          constructor
          · intro setting held
            rcases List.mem_cons.mp held with rfl | later
            · refine ⟨_, ?_, accepted⟩
              rw [rest _ fun other isOther => (firstKey other isOther).symm]
              exact Std.TreeMap.getElem?_insert_self
            · exact each setting later
          · intro key differ
            rw [rest key fun other isOther => differ other (List.mem_cons_of_mem _ isOther),
              Std.TreeMap.getElem?_insert, if_neg]
            simpa using differ first List.mem_cons_self
      next => cases checked

/-- Every setting of an accepted manifest has, once checked, a value it takes. -/
theorem accepts_of_checkSettings {manifest : Manifest} {patterns : Patterns} {given : Settings}
    {machine : Machine} {settings : Settings} (accepted : manifest.Accepted)
    (checked : manifest.checkSettings patterns given machine = .ok settings) {setting : Setting}
    (held : setting ∈ manifest.settings) :
    ∃ value, settings[setting.key]? = some value ∧ setting.accepts patterns value = true := by
  simp only [checkSettings] at checked
  split at checked
  next => cases checked
  next => exact (checkSetting_foldlM accepted.keys checked).1 setting held

/-! ### Values that are written -/

/-- What no value that is checked holds: a quote, a line end or a NUL. -/
def barred : List Char := ['\'', '\n', '\r', '\x00']

theorem not_mem_of_envValueOk {value : Text} (ok : envValueOk value = true) {char : Char}
    (isBarred : char ∈ barred) : char ∉ value := by
  intro held
  simp only [envValueOk, Bool.and_eq_true, Bool.not_eq_true', List.any_eq_false] at ok
  exact ok.2 char held (decide_eq_true isBarred)

/-- A text whose characters all pass a test lacks one that does not. -/
theorem not_mem_of_all {passes : Char → Bool} {text : Text}
    (all : ∀ char ∈ text, passes char = true) {char : Char} (fails : passes char = false) :
    char ∉ text := by
  intro held
  rw [all char held] at fails
  cases fails

/-- What a checked setting writes holds nothing barred. -/
theorem Setting.not_mem_of_written {patterns : Patterns} {setting : Setting} {settings : Settings}
    (sound : setting.Sound) {value : Value} (isValue : settings[setting.key]? = some value)
    (accepted : setting.accepts patterns value = true) {pair : Text × Text}
    (held : pair ∈ setting.written settings) {char : Char} (isBarred : char ∈ barred) :
    char ∉ pair.2 := by
  simp only [Setting.written, isValue] at held
  cases setting with
  | path key env default data =>
      obtain ⟨text, isText, rfl⟩ := List.mem_map.mp held
      have isValue := (Option.filter_eq_some_iff.mp (Option.mem_toList.mp isText)).1
      simp only [Setting.accepts, isValue, Option.any_some, Bool.and_eq_true] at accepted
      exact not_mem_of_envValueOk accepted.1.2 isBarred
  | port key env default protocol =>
      obtain rfl := List.mem_singleton.mp held
      cases value with
      | number number =>
          have noDigit : ∀ char ∈ barred, char.isDigit = false := by decide
          exact not_mem_of_all (fun _ => Text.isDigit_of_mem_decimal) (noDigit char isBarred)
      | _ => cases accepted
  | bool key default on off =>
      refine not_mem_of_envValueOk (sound.2 pair (List.mem_append.mpr ?_)) isBarred
      by_cases isOn : value.asBool = some true
      · exact .inl (by simpa only [if_pos isOn] using held)
      · exact .inr (by simpa only [if_neg isOn] using held)
  | choice key default options =>
      dsimp only at held
      split at held
      next option found =>
          exact not_mem_of_envValueOk (sound option (List.mem_of_find?_eq_some found) pair held)
            isBarred
      next => cases held
  | text key env default optional pattern =>
      obtain ⟨text, isText, rfl⟩ := List.mem_map.mp held
      obtain ⟨isValue, some⟩ := Option.filter_eq_some_iff.mp (Option.mem_toList.mp isText)
      have full : text.isEmpty = false := by simpa using some
      simp only [Setting.accepts, isValue, Option.any_some, full, Bool.false_and, Bool.false_or,
        Bool.and_eq_true] at accepted
      exact not_mem_of_envValueOk accepted.1 isBarred

/-- A setting writes only its own names, each once. -/
theorem Setting.written_names (setting : Setting) (settings : Settings) :
    (∀ pair ∈ setting.written settings, pair.1 ∈ setting.envNames) ∧
      ((setting.written settings).map (·.1)).Nodup := by
  have keysNodup : ∀ values : EnvMap, (values.toList.map (·.1)).Nodup := fun values => by
    rw [Std.TreeMap.map_fst_toList_eq_keys]
    exact Std.TreeMap.nodup_keys
  have isKey : ∀ {values : EnvMap} {pair : Text × Text}, pair ∈ values.toList →
      pair.1 ∈ values.keys := fun held => by
    rw [← Std.TreeMap.map_fst_toList_eq_keys]
    exact List.mem_map_of_mem held
  have listed : ∀ {names : List Text} {name : Text}, name ∈ names →
      name ∈ (Std.TreeSet.ofList names).toList := fun held => by
    rw [Std.TreeSet.mem_toList, Std.TreeSet.mem_ofList]
    simpa using held
  cases isValue : settings[setting.key]? with
  | none => simp [written, isValue]
  | some value =>
      cases setting with
      | path key env default data | text key env default optional pattern =>
          simp only [written, isValue, envNames]
          cases value.asText.filter (!·.isEmpty) with
          | none => exact ⟨nofun, List.nodup_nil⟩
          | some text => simp
      | port key env default protocol => simp [written, isValue, envNames]
      | bool key default on off =>
          by_cases isOn : value.asBool = some true
          · simp only [written, isValue, if_pos isOn, envNames]
            exact ⟨fun pair held => listed (List.mem_append_left _ (isKey held)), keysNodup on⟩
          · simp only [written, isValue, if_neg isOn, envNames]
            exact ⟨fun pair held => listed (List.mem_append_right _ (isKey held)), keysNodup off⟩
      | choice key default options =>
          simp only [written, isValue, envNames]
          split
          next option found =>
              refine ⟨fun pair held => listed (List.mem_flatMap.mpr ⟨option, ?_, isKey held⟩),
                keysNodup option.env⟩
              exact List.mem_of_find?_eq_some found
          next => exact ⟨nofun, List.nodup_nil⟩

/-! ### Names -/

theorem flatMap_zipIdx {α β : Type} (values : List α) (each : α → List β) :
    (values.zipIdx.flatMap fun pair => each pair.1) = values.flatMap each := by
  rw [← List.flatMap_map, List.zipIdx_map_fst]

theorem sources_names (manifest : Manifest) :
    manifest.sources.map (·.1) = manifest.env.keys ++
      (manifest.secrets.flatMap Secret.envNames ++ manifest.settings.flatMap Setting.envNames) := by
  rw [← flatMap_zipIdx manifest.secrets, ← flatMap_zipIdx manifest.settings]
  simp [sources, List.map_flatMap, Function.comp_def, Secret.envNames]

theorem isNameChar_of_shaped {name : Text} (shape : isEnvName name = true) : EnvFile.Name name := by
  cases name with
  | nil => cases shape
  | cons first others =>
      simp only [isEnvName, shaped, Bool.and_eq_true, List.all_eq_true] at shape
      have named : ∀ char : Char, (char.isUpper || char.isDigit || char = '_') = true →
          EnvFile.isNameChar char = true := by
        intro char held
        simp only [EnvFile.isNameChar, Char.isAlphanum, Char.isAlpha, Bool.or_eq_true,
          decide_eq_true_eq, List.mem_cons] at held ⊢
        tauto
      refine ⟨by simp, List.forall_mem_cons.mpr ⟨named first ?_, fun char held => ?_⟩⟩
      · rcases Bool.or_eq_true_iff.mp shape.1.1 with upper | sign
        · simp [upper]
        · simp [sign]
      · exact named char (shape.1.2 char held)

/-! ### Values over values -/

/-- A value over others is a new one, or an old one that no new one replaces. -/
theorem getElem?_insertMany_eq_some {values : EnvMap} {written : List (Text × Text)}
    {name value : Text} (held : (values.insertMany written)[name]? = some value) :
    (name, value) ∈ written ∨ (name ∉ written.map (·.1) ∧ values[name]? = some value) := by
  by_cases isWritten : name ∈ written.map (·.1)
  · left
    rw [Std.TreeMap.getElem?_insertMany_list, List.findSomeRev?_eq_findSome?_reverse] at held
    rcases Option.or_eq_some_iff.mp held with found | ⟨missing, -⟩
    · obtain ⟨⟨other, otherValue⟩, isPair, same⟩ := List.exists_of_findSome?_eq_some found
      obtain ⟨equal, sameValue⟩ := Option.ite_none_right_eq_some.mp same
      obtain rfl := Option.some.inj sameValue
      rw [← Std.LawfulEqOrd.eq_of_compare equal]
      exact List.mem_reverse.mp isPair
    · obtain ⟨pair, isPair, rfl⟩ := List.mem_map.mp isWritten
      have differ := List.findSome?_eq_none_iff.mp missing pair (List.mem_reverse.mpr isPair)
      simp at differ
  · right
    refine ⟨isWritten, ?_⟩
    rwa [Std.TreeMap.getElem?_insertMany_list_of_contains_eq_false (by simpa using isWritten)]
      at held

/-! ### Where a value comes from -/

variable (manifest : Manifest) (settings : Settings) (secrets : Secrets) (host : HostEnv)

/-- Whether a name keeps what the manifest or a setting gives it, as the parser of a model
server does not go over it. -/
def Kept (name : Text) : Prop :=
  name = toolParserEnv → manifest.llm.all (·.tools.isNone) = true

/-- Where a value of the env file comes from. -/
inductive Origin (name value : Text) : Prop
  | env (kept : manifest.Kept name) (held : (name, value) ∈ manifest.env.toList)
  | secret (held : (name, value) ∈ manifest.writtenSecrets secrets)
  | setting (kept : manifest.Kept name) (setting : Setting) (isSetting : setting ∈ manifest.settings)
      (held : (name, value) ∈ setting.written settings)
  | toolParser (held : (name, value) ∈ manifest.writtenToolParser settings)
  | host (held : (name, value) ∈ host.values)

theorem kept_iff {name : Text} :
    manifest.Kept name ↔ name ∉ (manifest.writtenToolParser settings).map (·.1) := by
  simp only [Kept, writtenToolParser]
  cases manifest.llm with
  | none => simp
  | some llm => cases tools : llm.tools <;> simp [Option.filter, tools]

theorem origin_of_fileValues {name value : Text}
    (held : (manifest.fileValues settings secrets host)[name]? = some value) :
    manifest.Origin settings secrets host name value := by
  rcases getElem?_insertMany_eq_some held with isHost | ⟨-, held⟩
  · exact .host isHost
  rcases getElem?_insertMany_eq_some held with isParser | ⟨notParser, held⟩
  · exact .toolParser isParser
  have kept := (manifest.kept_iff settings).mpr notParser
  rcases getElem?_insertMany_eq_some held with isSetting | ⟨-, held⟩
  · obtain ⟨setting, inManifest, written⟩ := List.mem_flatMap.mp isSetting
    exact .setting kept setting inManifest written
  rcases getElem?_insertMany_eq_some held with isSecret | ⟨-, held⟩
  · exact .secret isSecret
  · exact .env kept (Std.TreeMap.mem_toList_iff_getElem?_eq_some.mpr held)

/-- The names the manifest gives, none of which is the agent's. -/
theorem Origin.named {name value : Text} (origin : manifest.Origin settings secrets host name value) :
    name ∈ manifest.sources.map (·.1) ∨ name = toolParserEnv ∨ name ∈ reserved := by
  rw [sources_names]
  cases origin with
  | env kept held =>
      refine .inl (List.mem_append_left _ ?_)
      rw [← Std.TreeMap.map_fst_toList_eq_keys]
      exact List.mem_map_of_mem held
  | secret held =>
      obtain ⟨secretName, isName, same⟩ := List.mem_filterMap.mp held
      obtain ⟨_, -, same⟩ := Option.map_eq_some_iff.mp same
      obtain ⟨rfl, -⟩ := Prod.mk.inj same
      exact .inl (List.mem_append_right _ (List.mem_append_left _ isName))
  | setting kept setting isSetting held =>
      refine .inl (List.mem_append_right _ (List.mem_append_right _ ?_))
      exact List.mem_flatMap.mpr ⟨setting, isSetting, (setting.written_names settings).1 _ held⟩
  | toolParser held =>
      right; left
      simp only [writtenToolParser] at held
      split at held
      next => exact (Prod.mk.inj (List.mem_singleton.mp held)).1
      next => cases held
  | host held =>
      refine .inr (.inr ?_)
      have names : host.values.map (·.1) = reserved := rfl
      rw [← names]
      exact List.mem_map_of_mem held

/-! ### What values hold -/

/-- The characters a parser is named with. -/
def isParserChar (char : Char) : Bool := char.isAlphanum || char ∈ ['_', '-']

def parsersPlain (parsers : String × String) : Bool :=
  parsers.1.toList.all isParserChar && parsers.2.toList.all isParserChar

theorem all_ite {α : Type} {condition : Prop} [Decidable condition] {first second : Option α}
    {passes : α → Bool} (ofFirst : first.all passes = true) (ofSecond : second.all passes = true) :
    (if condition then first else second).all passes = true := by
  split
  · exact ofFirst
  · exact ofSecond

theorem familyParsers_plain (has : String → Bool) :
    (familyParsers has).all parsersPlain = true := by
  refine all_ite (by decide) (all_ite ?_ ?_)
  · cases has "hermes" <;> decide
  · repeat' first | exact rfl | apply all_ite

theorem toolParser_plain {engine : Engine} {model parser : Text}
    (isParser : toolParser engine model = some parser) :
    ∀ char ∈ parser, isParserChar char = true := by
  unfold toolParser at isParser
  have plain := familyParsers_plain
    (contains (((model.splitOn '/').getLastD model).map Char.toLower))
  generalize familyParsers _ = parsers at isParser plain
  cases parsers with
  | none => cases engine <;> cases isParser
  | some parsers =>
      obtain ⟨vllm, sglang⟩ := Bool.and_eq_true_iff.mp plain
      cases engine with
      | vllm => exact Option.some.inj isParser ▸ List.all_eq_true.mp vllm
      | sglang => exact Option.some.inj isParser ▸ List.all_eq_true.mp sglang
      | _ => cases isParser

/-- The characters of what the agent makes. -/
def isMadeChar (char : Char) : Bool := isParserChar char || char ∈ ['$', '.', '/', '+']

theorem HostEnv.plain {name value : Text} (held : (name, value) ∈ host.values) :
    ∀ char ∈ value, isMadeChar char = true := by
  have digits {number : Nat} : ∀ char ∈ Text.decimal number, isMadeChar char = true := by
    intro char inNumber
    simp [isMadeChar, isParserChar, Char.isAlphanum, Text.isDigit_of_mem_decimal inNumber]
  simp only [HostEnv.values, List.mem_cons, List.not_mem_nil, or_false, Prod.mk.injEq] at held
  rcases held with ⟨-, rfl⟩ | ⟨-, rfl⟩ | ⟨-, rfl⟩ | ⟨-, rfl⟩
  · exact digits
  · exact digits
  · have zone := host.tzOk
    simp only [timeZoneOk, Bool.and_eq_true, List.all_eq_true] at zone
    intro char inZone
    have each := zone.2 char inZone
    simp only [List.mem_cons, List.not_mem_nil, or_false, Bool.or_eq_true,
      decide_eq_true_eq] at each
    rcases each with alphanumeric | rfl | rfl | rfl | rfl
    · simp [isMadeChar, isParserChar, alphanumeric]
    all_goals decide
  · exact digits

theorem writtenToolParser_plain {name value : Text}
    (held : (name, value) ∈ manifest.writtenToolParser settings) :
    ∀ char ∈ value, isMadeChar char = true := by
  simp only [writtenToolParser] at held
  split at held
  next llm _ =>
      obtain ⟨-, rfl⟩ := Prod.mk.inj (List.mem_singleton.mp held)
      cases parser : llm.toolParser settings with
      | none => exact nofun
      | some text =>
          simp only [Llm.toolParser, Option.bind_eq_bind, Option.bind_eq_some_iff] at parser
          obtain ⟨_, -, _, -, _, -, isParser⟩ := parser
          exact fun char inParser => Bool.or_eq_true_iff.mpr (.inl (toolParser_plain isParser char inParser))
  next => cases held

/-- What the agent makes holds no quote and no backslash. -/
theorem Origin.plain {name value : Text} (made : (name, value) ∈ host.values ∨
      (name, value) ∈ manifest.writtenSecrets secrets ∨
      (name, value) ∈ manifest.writtenToolParser settings) :
    '\'' ∉ value ∧ '\\' ∉ value := by
  have plain : ∀ char ∈ value, isMadeChar char = true := by
    rcases made with isHost | isSecret | isParser
    · exact HostEnv.plain host isHost
    · obtain ⟨secretName, -, same⟩ := List.mem_filterMap.mp isSecret
      obtain ⟨_, isValue, same⟩ := Option.map_eq_some_iff.mp same
      obtain ⟨rfl, rfl⟩ := Prod.mk.inj same
      intro char inSecret
      have each := secrets.plain _ _ isValue char inSecret
      simp only [List.mem_cons, List.not_mem_nil, or_false, Bool.or_eq_true,
        decide_eq_true_eq] at each
      rcases each with alphanumeric | rfl | rfl | rfl
      · simp [isMadeChar, isParserChar, alphanumeric]
      all_goals decide
    · exact manifest.writtenToolParser_plain settings isParser
  exact ⟨not_mem_of_all plain (by decide), not_mem_of_all plain (by decide)⟩

/-! ### When the env file means what was set -/

/-- Whether no value that the setting gives a kept name ends in an odd number of
backslashes. -/
def Setting.EndsEven (kept : Text → Prop) : Setting → Prop
  | path key env _ _ | text key env _ _ _ =>
      kept env → ∀ given, settings[key]? = some (.text given) → EnvFile.evenBackslashes given = true
  | port _ _ _ _ => True
  | bool key _ on off =>
      ∀ pair ∈ (if settings[key]? = some (.bool true) then on else off).toList,
        kept pair.1 → EnvFile.evenBackslashes pair.2 = true
  | choice key _ options =>
      ∀ option, options.find? (fun option => settings[key]? = some (.text option.value)) = some option →
        ∀ pair ∈ option.env.toList, kept pair.1 → EnvFile.evenBackslashes pair.2 = true

/-- Whether no value of the manifest and no setting given ends in an odd number of
backslashes, under a name that keeps it. -/
structure EndsEven : Prop where
  env : ∀ pair ∈ manifest.env.toList, manifest.Kept pair.1 → EnvFile.evenBackslashes pair.2 = true
  settings : ∀ setting ∈ manifest.settings, setting.EndsEven settings manifest.Kept

theorem Setting.endsEven_iff {patterns : Patterns} {setting : Setting} {kept : Text → Prop}
    {settings : Settings} {value : Value} (isValue : settings[setting.key]? = some value)
    (accepted : setting.accepts patterns value = true) :
    setting.EndsEven settings kept ↔ ∀ pair ∈ setting.written settings, kept pair.1 →
      EnvFile.evenBackslashes pair.2 = true := by
  cases setting with
  | path key env default data | text key env default optional pattern =>
      simp only [Setting.key] at isValue
      obtain ⟨given, rfl⟩ : ∃ given, value = .text given := by
        cases value with
        | text given => exact ⟨given, rfl⟩
        | _ => cases accepted
      cases given with
      | nil => simp [EndsEven, written, Setting.key, isValue, Value.asText, EnvFile.evenBackslashes]
      | cons first others => simp [EndsEven, written, Setting.key, isValue, Value.asText]
  | port key env default protocol =>
      cases value with
      | number number =>
          simp only [EndsEven, true_iff]
          intro pair held _
          simp only [written, isValue, List.mem_singleton] at held
          subst held
          refine EnvFile.evenBackslashes_of_not_mem ?_
          exact not_mem_of_all (fun _ => Text.isDigit_of_mem_decimal) (by decide)
      | _ => cases accepted
  | bool key default on off =>
      simp only [Setting.key] at isValue
      cases value with
      | bool value => simp [EndsEven, written, Setting.key, isValue, Value.asBool]
      | _ => cases accepted
  | choice key default options =>
      simp only [Setting.key] at isValue
      cases value with
      | text value =>
          simp only [EndsEven, written, Setting.key, isValue, Value.asText, Option.some.injEq,
            Value.text.injEq, beq_eq_decide]
          cases options.find? fun option => decide (value = option.value) with
          | none => simp
          | some option => simp
      | _ => cases accepted

theorem getElem?_insertMany_of_not_mem {values : EnvMap} {written : List (Text × Text)} {name : Text}
    (notWritten : name ∉ written.map (·.1)) : (values.insertMany written)[name]? = values[name]? :=
  Std.TreeMap.getElem?_insertMany_list_of_contains_eq_false (by simpa using notWritten)

theorem not_mem_of_kept {manifest : Manifest} (accepted : manifest.Accepted) {name : Text}
    (named : name ∈ manifest.sources.map (·.1)) (values : EnvMap) (kept : manifest.Kept name) :
    ((values.insertMany (manifest.writtenToolParser settings)).insertMany host.values)[name]? =
      values[name]? := by
  have names : host.values.map (·.1) = reserved := rfl
  rw [getElem?_insertMany_of_not_mem (names ▸ (accepted.named name named).2),
    getElem?_insertMany_of_not_mem ((manifest.kept_iff settings).mp kept)]

/-- What a setting gives a name that keeps it is in the env file. -/
theorem fileValues_of_setting {manifest : Manifest} (accepted : manifest.Accepted)
    {name value : Text} (kept : manifest.Kept name) {setting : Setting}
    (isSetting : setting ∈ manifest.settings) (held : (name, value) ∈ setting.written settings) :
    (manifest.fileValues settings secrets host)[name]? = some value := by
  have isName := (setting.written_names settings).1 _ held
  have inSettings : name ∈ manifest.settings.flatMap Setting.envNames :=
    List.mem_flatMap.mpr ⟨setting, isSetting, isName⟩
  have named : name ∈ manifest.sources.map (·.1) := by
    rw [sources_names]
    exact List.mem_append_right _ (List.mem_append_right _ inSettings)
  have distinct := accepted.names
  rw [sources_names, List.nodup_append, List.nodup_append] at distinct
  have apart := List.nodup_flatMap.mp distinct.2.1.2.1
  have writtenOnce : ((manifest.settings.flatMap (Setting.written settings)).map (·.1)).Nodup := by
    rw [List.map_flatMap, List.nodup_flatMap]
    refine ⟨fun other _ => (other.written_names settings).2, apart.2.imp ?_⟩
    intro left right disjoint name inLeft inRight
    obtain ⟨leftPair, isLeft, rfl⟩ := List.mem_map.mp inLeft
    obtain ⟨rightPair, isRight, same⟩ := List.mem_map.mp inRight
    exact disjoint ((left.written_names settings).1 _ isLeft)
      (same ▸ (right.written_names settings).1 _ isRight)
  rw [fileValues, envValues, not_mem_of_kept settings host accepted named _ kept]
  refine Std.TreeMap.getElem?_insertMany_list_of_mem Std.ReflOrd.compare_self ?_
    (List.mem_flatMap.mpr ⟨setting, isSetting, held⟩)
  refine (List.pairwise_map.mp writtenOnce).imp fun differ same => ?_
  exact differ (Std.LawfulEqOrd.eq_of_compare same)

/-- What the manifest gives a name that keeps it is in the env file. -/
theorem fileValues_of_env {manifest : Manifest} (accepted : manifest.Accepted)
    {name value : Text} (kept : manifest.Kept name) (held : (name, value) ∈ manifest.env.toList) :
    (manifest.fileValues settings secrets host)[name]? = some value := by
  have isKey : name ∈ manifest.env.keys := by
    rw [← Std.TreeMap.map_fst_toList_eq_keys]
    exact List.mem_map_of_mem held
  have distinct := accepted.names
  rw [sources_names, List.nodup_append] at distinct
  have elsewhere := distinct.2.2 name isKey
  have named : name ∈ manifest.sources.map (·.1) := by
    rw [sources_names]
    exact List.mem_append_left _ isKey
  have notSetting : name ∉ (manifest.settings.flatMap (Setting.written settings)).map (·.1) := by
    intro inSettings
    obtain ⟨pair, isPair, rfl⟩ := List.mem_map.mp inSettings
    obtain ⟨setting, isSetting, isWritten⟩ := List.mem_flatMap.mp isPair
    refine elsewhere _ (List.mem_append_right _ ?_) rfl
    exact List.mem_flatMap.mpr ⟨setting, isSetting, (setting.written_names settings).1 _ isWritten⟩
  have notSecret : name ∉ (manifest.writtenSecrets secrets).map (·.1) := by
    intro inSecrets
    obtain ⟨pair, isPair, rfl⟩ := List.mem_map.mp inSecrets
    obtain ⟨secretName, isName, same⟩ := List.mem_filterMap.mp isPair
    obtain ⟨_, -, rfl⟩ := Option.map_eq_some_iff.mp same
    exact elsewhere _ (List.mem_append_left _ isName) rfl
  rw [fileValues, envValues, not_mem_of_kept settings host accepted named _ kept,
    getElem?_insertMany_of_not_mem notSetting, getElem?_insertMany_of_not_mem notSecret]
  exact Std.TreeMap.mem_toList_iff_getElem?_eq_some.mp held

theorem Origin.name {manifest : Manifest} {settings : Settings} {secrets : Secrets}
    {host : HostEnv} (accepted : manifest.Accepted) {name value : Text}
    (origin : manifest.Origin settings secrets host name value) : EnvFile.Name name := by
  rcases origin.named with isSource | rfl | isReserved
  · exact isNameChar_of_shaped (accepted.named name isSource).1
  · exact isNameChar_of_shaped (by decide)
  · have each : ∀ name ∈ reserved, isEnvName name = true := by decide
    exact isNameChar_of_shaped (each name isReserved)

/-- No value that is written holds a quote. -/
theorem Origin.not_quote {manifest : Manifest} {patterns : Patterns} {given : Settings}
    {machine : Machine} {settings : Settings} {secrets : Secrets} {host : HostEnv}
    (accepted : manifest.Accepted)
    (checked : manifest.checkSettings patterns given machine = .ok settings) {name value : Text}
    (origin : manifest.Origin settings secrets host name value) : '\'' ∉ value := by
  cases origin with
  | env kept held => exact not_mem_of_envValueOk (accepted.env _ held) (by decide)
  | secret held => exact (Origin.plain manifest settings secrets host (.inr (.inl held))).1
  | setting kept setting isSetting held =>
      obtain ⟨value, isValue, taken⟩ := accepts_of_checkSettings accepted checked isSetting
      exact setting.not_mem_of_written (accepted.settings _ isSetting) isValue taken held (by decide)
  | toolParser held => exact (Origin.plain manifest settings secrets host (.inr (.inr held))).1
  | host held => exact (Origin.plain manifest settings secrets host (.inl held)).1

/-- Every value of the env file ends evenly just when every value that was set does. -/
theorem fileValues_even_iff {manifest : Manifest} {patterns : Patterns} {given : Settings}
    {machine : Machine} {settings : Settings} {secrets : Secrets} {host : HostEnv}
    (accepted : manifest.Accepted)
    (checked : manifest.checkSettings patterns given machine = .ok settings) :
    (∀ pair ∈ (manifest.fileValues settings secrets host).toList,
      EnvFile.evenBackslashes pair.2 = true) ↔ manifest.EndsEven settings := by
  have setOf := fun setting (isSetting : setting ∈ manifest.settings) =>
    let ⟨_, isValue, taken⟩ := accepts_of_checkSettings accepted checked isSetting
    @Setting.endsEven_iff _ setting manifest.Kept _ _ isValue taken
  have listed : ∀ {name value : Text}, (manifest.fileValues settings secrets host)[name]? =
      some value → (name, value) ∈ (manifest.fileValues settings secrets host).toList :=
    Std.TreeMap.mem_toList_iff_getElem?_eq_some.mpr
  constructor
  · intro even
    constructor
    · intro pair held kept
      exact even _ (listed (fileValues_of_env settings secrets host accepted kept held))
    · intro setting isSetting
      refine (setOf setting isSetting).mpr fun pair held kept => ?_
      exact even _ (listed (fileValues_of_setting settings secrets host accepted kept isSetting held))
  · intro ends pair held
    have backslashes := @EnvFile.evenBackslashes_of_not_mem pair.2
    cases origin_of_fileValues _ _ _ _ (Std.TreeMap.mem_toList_iff_getElem?_eq_some.mp held) with
    | env kept held => exact ends.env _ held kept
    | secret held =>
        exact backslashes (Origin.plain manifest settings secrets host (.inr (.inl held))).2
    | setting kept setting isSetting held =>
        exact (setOf setting isSetting).mp (ends.settings setting isSetting) _ held kept
    | toolParser held =>
        exact backslashes (Origin.plain manifest settings secrets host (.inr (.inr held))).2
    | host held => exact backslashes (Origin.plain manifest settings secrets host (.inl held)).2

/-- The env file of an accepted manifest and checked settings defines each name once and gives
what was set, however it is expanded, just when no value ends in an odd number of
backslashes. -/
theorem envFile_means_iff (rules : EnvFile.Rules) {manifest : Manifest} {patterns : Patterns}
    (accepted : manifest.problems patterns = []) {given : Settings} {machine : Machine}
    {settings : Settings}
    (checked : manifest.checkSettings patterns given machine = .ok settings) (secrets : Secrets)
    (host : HostEnv) :
    EnvFile.Means rules (manifest.envFile settings secrets host)
      (manifest.fileValues settings secrets host) ↔ manifest.EndsEven settings := by
  have sound := Accepted.of_problems accepted
  have origin := fun pair (held : pair ∈ (manifest.fileValues settings secrets host).toList) =>
    manifest.origin_of_fileValues settings secrets host
      (Std.TreeMap.mem_toList_iff_getElem?_eq_some.mp held)
  rw [envFile, EnvFile.means_write_iff rules (by decide)
    (fun pair held => (origin pair held).name sound)
    (fun pair held => (origin pair held).not_quote sound checked)]
  exact fileValues_even_iff sound checked

/-! ### A note -/

/-- A manifest that asks for one text, of any kind. -/
def noteManifest : Manifest where
  composeFiles := ["compose.yaml".toList]
  env := ∅
  secrets := []
  settings := [.text "note".toList "NOTE".toList none true ".*".toList]
  mcp := []
  llm := none

def anything : Patterns := fun _ => some fun _ => true

def noteMachine : Machine where
  stack := "/srv/note".toList
  shared := "/srv".toList
  gpus := []
  wsl := false
  free := fun _ _ => true

def noteSettings (note : String) : Settings :=
  (∅ : Settings).insert "note".toList (.text note.toList)

def noSecrets : Secrets where
  values := ∅
  plain := fun _ _ held => by simp at held

def noteHost : HostEnv where
  uid := 1000
  gid := 1000
  tz := "UTC".toList
  renderGid := 989
  tzOk := by decide

def literally : EnvFile.Rules where
  expand := id
  doubleQuoted := fun _ => none

theorem noteManifest_accepted : noteManifest.problems anything = [] := by decide

theorem noteSettings_checked :
    noteManifest.checkSettings anything (noteSettings "a\\\\") noteMachine =
      .ok (noteSettings "a\\\\") := rfl

theorem envFile_means_iff_note :
    EnvFile.Means literally (noteManifest.envFile (noteSettings "a\\\\") noSecrets noteHost)
      (noteManifest.fileValues (noteSettings "a\\\\") noSecrets noteHost) :=
  (envFile_means_iff literally noteManifest_accepted noteSettings_checked noSecrets
    noteHost).mpr <| by
    constructor
    · exact nofun
    · rintro setting isSetting
      obtain rfl := List.mem_singleton.mp isSetting
      intro _ given isGiven
      obtain rfl : "a\\\\".toList = given := by simpa [noteSettings] using isGiven
      decide

set_option maxRecDepth 8000 in
theorem not_envFile_means :
    noteManifest.problems anything = [] ∧
      noteManifest.checkSettings anything (noteSettings "a\\") noteMachine =
        .ok (noteSettings "a\\") ∧
      ¬ EnvFile.Means literally (noteManifest.envFile (noteSettings "a\\") noSecrets noteHost)
        (noteManifest.fileValues (noteSettings "a\\") noSecrets noteHost) := by
  refine ⟨noteManifest_accepted, rfl, ?_⟩
  rintro ⟨entries, isRead, -⟩
  have none : EnvFile.read literally
    (noteManifest.envFile (noteSettings "a\\") noSecrets noteHost) = none := by decide
  rw [none] at isRead
  cases isRead

end ServerBox.Monitor.Manifest
