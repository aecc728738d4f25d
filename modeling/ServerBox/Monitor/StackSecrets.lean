import ServerBox.Monitor.ManifestEnv
import ServerBox.Std.System
import ServerBox.Std.TextLines

/-!
# The generated secrets of a stack

`write_files` and `read_env` of `stacks/mod.rs`: the env file of a stack is read for the
secrets it holds, emptied, and written again with them and those that were missing. Each
file operation is a step of its own, and the task that runs them can end after any of them.
`bcrypt` and the random source are outside the repository.
-/

namespace ServerBox.Monitor.StackSecrets

open ServerBox.Std
open ServerBox.Monitor.Manifest

/-! ### The settings a deploy ends with -/

/-- `Protocol::transports`: whether one uses TCP, and whether UDP. -/
def transports : Protocol → List Protocol
  | .tcp => [.tcp]
  | .udp => [.udp]
  | .both => [.tcp, .udp]

/-- One port setting settled against the ports that are free and those settled before. -/
def settlePort (free : Nat → Protocol → Bool) (follow : Bool)
    (settled : Settings × List (Nat × Protocol)) (setting : Setting) :
    Except Invalid (Settings × List (Nat × Protocol)) :=
  match setting with
  | .port key _ default protocol =>
      match ((settled.1[key]?).bind Value.asNumber).filter fun port => port ≤ 65535 with
      | none => .ok settled
      | some port =>
          let ok := fun port => (transports protocol).all fun transport =>
            (port, transport) ∉ settled.2 && free port transport
          let used := fun port =>
            settled.2 ++ (transports protocol).map fun transport => (port, transport)
          if ok port then .ok (settled.1, used port)
          else
            let last := min (default + portSearch) 65535
            let next :=
              if follow && decide (default ≤ port) && decide (port ≤ last) then
                (List.range' (port + 1) (last - port)).find? ok
              else none
            match next with
            | none => .error ⟨key, "portTaken".toList⟩
            | some next => .ok (settled.1.insert key (.number next), used next)
  | _ => .ok settled

/-- The given settings completed, checked, and their ports settled. -/
def settingsFor (manifest : Manifest) (patterns : Patterns) (given : Settings) (machine : Machine)
    (free : Nat → Protocol → Bool) (follow : Bool) : Except Invalid Settings := do
  let settings ← manifest.checkSettings patterns given machine
  let settled ← manifest.settings.foldlM (settlePort free follow) (settings, [])
  return settled.1

/-! ### What is read back -/

/-- What each line of an env file that the agent wrote sets. -/
def envLines (text : Text) : List (Text × Text) :=
  (Text.lines text).filterMap fun line =>
    (Text.splitOnce '=' line).map fun (name, value) =>
      (Text.trim name, Text.trimMatches '\'' (Text.trim value))

/-- The values of some names in an env file the agent wrote (`NAME='value'`). -/
def readEnv (text : Text) (names : List Text) : EnvMap :=
  (∅ : EnvMap).insertMany ((envLines text).filter fun entry => entry.1 ∈ names)

/-! ### What is written -/

/-- `bcrypt` as the code relies on it: a hash made of a value verifies against it, and is
letters, digits and `$./`. -/
structure Bcrypt where
  verify : Text → Text → Bool
  hash : Text → Text → Option Text
  verify_hash : ∀ salt value hashed : Text, hash salt value = some hashed →
    verify value hashed = true
  hash_plain : ∀ salt value hashed : Text, hash salt value = some hashed →
    ∀ char ∈ hashed, char.isAlphanum || char ∈ ['$', '.', '/']

/-- What the random source gives one run of `write_files`. -/
structure Draw where
  random : Text → Option Text
  salt : Text

/-- Whether a text is one `random_hex` or `random_password` can give for a secret. -/
def drawn (secret : Secret) (value : Text) : Bool :=
  if secret.hex then
    value.length = 2 * (secret.length / 2) &&
      value.all fun char => char.isDigit || ('a' ≤ char && char ≤ 'f')
  else value.length = secret.length && value.all Char.isAlphanum

variable (bcrypt : Bcrypt)

/-- One secret kept, or made when it is missing. -/
def makeValue (draw : Draw) (secrets : EnvMap) (secret : Secret) : Option EnvMap :=
  if secrets.contains secret.env then some secrets
  else
    ((draw.random secret.env).filter (drawn secret)).map fun value =>
      secrets.insert secret.env value

/-- The hash of a secret kept while it is the secret's, as each hash has a salt of its own. -/
def makeHash (draw : Draw) (secrets : EnvMap) (secret : Secret) : Option EnvMap :=
  match secret.bcrypt with
  | none => some secrets
  | some name =>
      let value := (secrets[secret.env]?).getD []
      if (secrets[name]?).any (bcrypt.verify value) then some secrets
      else (bcrypt.hash draw.salt value).map fun hashed => secrets.insert name hashed

def makeSecret (draw : Draw) (secrets : EnvMap) (secret : Secret) : Option EnvMap :=
  (makeValue draw secrets secret).bind fun secrets => makeHash bcrypt draw secrets secret

/-- The secrets of a manifest, those found in the earlier env file kept. -/
def makeSecrets (manifest : Manifest) (draw : Draw) (earlier : Text) : Option EnvMap :=
  manifest.secrets.foldlM (makeSecret bcrypt draw)
    (readEnv earlier (manifest.secrets.flatMap Secret.envNames))

/-- The secrets there are, by name. -/
def secretPairs (manifest : Manifest) (secrets : EnvMap) : List (Text × Text) :=
  (manifest.secrets.flatMap Secret.envNames).filterMap fun name =>
    (secrets[name]?).map fun value => (name, value)

/-- Every value an env file sets: `Manifest.fileValues` for secrets of any kind. -/
def fileValues (manifest : Manifest) (settings : Settings) (secrets : EnvMap) (host : HostEnv) :
    EnvMap :=
  (((manifest.env.insertMany (secretPairs manifest secrets)).insertMany
    (manifest.settings.flatMap (Setting.written settings))).insertMany
    (manifest.writtenToolParser settings)).insertMany host.values

/-- The env file of some values. -/
def envText (values : EnvMap) : Text :=
  '#' :: header ++ '\n' :: EnvFile.write values.toList

theorem envText_fileValues (manifest : Manifest) (settings : Settings) (secrets : Secrets)
    (host : HostEnv) :
    envText (fileValues manifest settings secrets.values host) =
      manifest.envFile settings secrets host := rfl

/-! ### Deploys of one app, one after another -/

/-- What an install, an update or a reconfiguration writes: a package that was accepted, and
the settings checked and settled for it. -/
structure Deploy where
  manifest : Manifest
  patterns : Patterns
  given : Settings
  machine : Machine
  free : Nat → Protocol → Bool
  follow : Bool
  settings : Settings
  accepted : manifest.problems patterns = []
  settled : settingsFor manifest patterns given machine free follow = .ok settings

/-- Where `write_files` stands. -/
inductive Phase where
  | idle
  | begun (deploy : Deploy)
  | read (deploy : Deploy) (earlier : Text)
  | made (deploy : Deploy) (values : EnvMap) (secrets : EnvMap)
  /-- The env file is empty, and not yet written. -/
  | truncated (deploy : Deploy) (values : EnvMap) (secrets : EnvMap)

/-- A secret, or the hash of the secret of another name, that was put in an env file. -/
structure Put where
  name : Text
  value : Text
  hashOf : Option Text
deriving DecidableEq

/-- An env file that was written: what it sets, and the secrets it puts there. -/
structure Written where
  values : EnvMap
  puts : List Put

structure State where
  /-- The stack's env file, once there is one. -/
  file : Option Text
  phase : Phase
  /-- The env files written so far, the last one first. -/
  written : List Written

/-- Whether a name keeps its secret in the file: the agent writes no parser over it. -/
def shown (manifest : Manifest) (name : Text) : Bool :=
  name ≠ toolParserEnv || manifest.llm.all (·.tools.isNone)

/-- The secrets that an env file puts in the stack's folder. -/
def putsOf (manifest : Manifest) (secrets : EnvMap) : List Put :=
  manifest.secrets.flatMap fun secret =>
    (if shown manifest secret.env then [⟨secret.env, (secrets[secret.env]?).getD [], none⟩] else []) ++
    (secret.bcrypt.toList.filter (shown manifest)).map fun name =>
      ⟨name, (secrets[name]?).getD [], some secret.env⟩

def State.puts (state : State) : List Put := state.written.flatMap (·.puts)

inductive Event where
  /-- A job begins, makes the folder and writes the package's own files there. -/
  | begin (deploy : Deploy)
  | readFile (readable : Bool)
  | make (draw : Draw) (host : HostEnv)
  | truncate
  | setMode
  /-- The env file written, or when that fails only so many characters of it. -/
  | write (cut : Option Nat)
  /-- The task fails, is dropped or dies with the agent. -/
  | stop
  /-- A removal without its data. -/
  | remove

def next (state : State) : Event → Option State
  | .begin deploy =>
      match state.phase with
      | .idle => some { state with phase := .begun deploy }
      | _ => none
  | .readFile readable =>
      match state.phase with
      -- A file that cannot be read is taken for an empty one.
      | .begun deploy =>
          some { state with phase := .read deploy (if readable then state.file.getD [] else []) }
      | _ => none
  | .make draw host =>
      match state.phase with
      | .read deploy earlier => do
          let secrets ← makeSecrets bcrypt deploy.manifest draw earlier
          return { state with
            phase := .made deploy (fileValues deploy.manifest deploy.settings secrets host) secrets }
      | _ => none
  | .truncate =>
      match state.phase with
      | .made deploy values secrets =>
          some { state with file := some [], phase := .truncated deploy values secrets }
      | _ => none
  | .setMode => some state
  | .write none =>
      match state.phase with
      | .truncated deploy values secrets =>
          some
            { file := some (envText values)
              phase := .idle
              written := ⟨values, putsOf deploy.manifest secrets⟩ :: state.written }
      | _ => none
  | .write (some length) =>
      match state.phase with
      | .truncated _ values _ =>
          some { state with file := some ((envText values).take length), phase := .idle }
      | _ => none
  | .stop => some { state with phase := .idle }
  | .remove =>
      match state.phase with
      | .idle => some state
      | _ => none

/-- The stack's folder before the app was first deployed, whatever it holds. -/
def Initial (state : State) : Prop := ∃ file, state = ⟨file, .idle, []⟩

/-- One app on one machine, deployed and removed any number of times. -/
def stack : System State Event := System.ofNext Initial (next bcrypt)

end ServerBox.Monitor.StackSecrets
