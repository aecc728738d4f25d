import ServerBox.Script.CustomCommands
import ServerBox.Std.Base64
import ServerBox.Std.TextLines
import ServerBox.Std.Utf8

/-!
# The segments of a status script's output

`src/crates/sbm_parser/src/script.rs`: what the Unix status function prints, the built-in
commands' sections (`unix_command`) and the custom commands' (`unix_custom_cmds`), and how
`parse_script_segments` takes the stream apart again at the markers in it.
-/

namespace ServerBox.Script

open ServerBox.Std

/-! ### Markers -/

/-- `SrvBoxSep.`, `SEPARATOR` with its dot. -/
def separator : Text := ['S', 'r', 'v', 'B', 'o', 'x', 'S', 'e', 'p', '.']

/-- `SrvBoxCusCmdSep.`, `CUSTOM_CMD_SEPARATOR` with its dot. -/
def customSeparator : Text :=
  ['S', 'r', 'v', 'B', 'o', 'x', 'C', 'u', 's', 'C', 'm', 'd', 'S', 'e', 'p', '.']

def encodedNamePrefix : String := "b64."

def customOutputPrefix : String := "SrvBoxCusCmdOut."

/-- `CUSTOM_CMD_MAX_OUTPUT_BYTES`. -/
def customMaxOutputBytes : Nat := 64 * 1024

def encodeMarkerName (name : Text) : Text := Base64.encode Base64.urlSafe (Utf8.encode name)

/-- `String::from_utf8`. -/
def fromUtf8 (octets : List UInt8) : Option Text :=
  if Utf8.encode (Utf8.decode octets) = octets then some (Utf8.decode octets) else none

def decodeMarkerName (encoded : Text) : Option Text := do
  let name ← Text.stripPrefix encodedNamePrefix encoded
  let octets ← Base64.decode Base64.urlSafe name
  fromUtf8 octets

def cmdMarker (key : Text) : Text :=
  separator ++ (encodedNamePrefix.toList ++ encodeMarkerName key)

def customCmdMarker (name : Text) : Text :=
  customSeparator ++ (encodedNamePrefix.toList ++ encodeMarkerName name)

def customResultKey (name : Text) : Text := customSeparator ++ name

def customResultName (key : Text) : Option Text :=
  if customSeparator.isPrefixOf key then
    let name := key.drop customSeparator.length
    if name.isEmpty then none else some name
  else none

/-! ### Taking the output apart -/

/-- Where a separator begins a marker that runs to the end of the line: what is before it, and
the name. A separator does not overlap itself, so every place is looked at. -/
def findMarker (sep : Text) : Text → Option (Text × Text)
  | [] => none
  | char :: rest =>
      let here :=
        if sep.isPrefixOf (char :: rest) then
          decodeMarkerName ((char :: rest).drop sep.length)
        else none
      match here with
      | some name => some ([], name)
      | none => (findMarker sep rest).map fun (leading, name) => (char :: leading, name)

/-- The marker that a line ends with, as the key of its section, and what precedes it. -/
def splitMarker (line : Text) (allowBuiltin : Bool) : Option (Text × Text) :=
  let builtin := if allowBuiltin then findMarker separator line else none
  let custom := (findMarker customSeparator line).map fun (leading, name) =>
    (leading, customResultKey name)
  match builtin, custom with
  | some builtin, some custom =>
      some (if builtin.1.length ≤ custom.1.length then builtin else custom)
  | some builtin, none => some builtin
  | none, custom => custom

/-- The section that is being read, what of it was read, and the sections before it. -/
structure Reading where
  current : Option Text
  buf : Text
  result : List (Text × Text)

/-- A section's text: without the last line end, and decoded if it is a custom command's. -/
def sectionText (key buf : Text) : Text :=
  let out := if buf.getLast? = some '\n' then buf.dropLast else buf
  let out := if out.getLast? = some '\r' then out.dropLast else out
  match customResultName key, Text.stripPrefix customOutputPrefix out with
  | some _, some encoded =>
      match Base64.decode Base64.standard encoded with
      | some octets => Utf8.decode octets
      | none => out
  | _, _ => out

def Reading.flush (reading : Reading) : Reading :=
  match reading.current with
  | some key => ⟨none, [], reading.result ++ [(key, sectionText key reading.buf)]⟩
  | none => reading

def Reading.allowBuiltin (reading : Reading) : Bool :=
  (reading.current.bind customResultName).isNone

/-- One line, its carriage return taken off. -/
def Reading.line (reading : Reading) (line : Text) : Reading :=
  let line := Text.withoutReturn line
  match splitMarker line reading.allowBuiltin with
  | some (leading, key) =>
      let reading :=
        if !leading.isEmpty && reading.current.isSome then
          { reading with buf := reading.buf ++ leading ++ ['\n'] }
        else reading
      { reading.flush with current := some key }
  | none =>
      if reading.current.isSome then { reading with buf := reading.buf ++ line ++ ['\n'] }
      else reading

/-- `str::split_terminator('\n')`, of a text that goes on from the line begun. -/
def splitTerminator (begun : Text) : Text → List Text
  | [] => if begun = [] then [] else [begun]
  | char :: rest =>
      if char = '\n' then begun :: splitTerminator [] rest
      else splitTerminator (begun ++ [char]) rest

def parseScriptSegments (raw : Text) : List (Text × Text) :=
  ((splitTerminator [] raw).foldl Reading.line ⟨none, [], []⟩).flush.result

/-! ### What the status function prints -/

/-- The keys of the built-in commands. -/
def builtinKeys : List String :=
  ["echo", "time", "net", "sys", "host", "cpu", "cpuBrand", "uptime", "conn", "disk", "mem",
    "tempType", "tempVal", "temp", "diskio", "battery", "sensors", "diskSmart", "nvidia", "gpu",
    "amd", "ip"]

/-- A built-in command that was run, and what it printed on either stream. -/
structure Builtin where
  key : String
  isKey : key ∈ builtinKeys
  out : Text

/-- A custom command that is installed, and what it prints; of stderr, what its octets read as. -/
structure Command where
  order : Nat
  name : Text
  stdout : List UInt8
  stderr : Text

/-- `format!("{order:05}_{encoded}")`. -/
def customCmdFileName (order : Nat) (name : Text) : Text :=
  let digits := Text.decimal order
  List.replicate (5 - digits.length) '0' ++ digits ++ '_' :: encodeMarkerName name

/-- Whether the loop takes the command's file by its name. -/
def Command.runs (command : Command) : Bool :=
  CustomCommands.isCommand (customCmdFileName command.order command.name)

/-- `echo <marker>`, and what the command prints after it. -/
def Builtin.print (builtin : Builtin) : Text := cmdMarker builtin.key.toList ++ '\n' :: builtin.out

/-- The marker, stderr as it comes, and what `head -c` keeps of stdout in base64. -/
def Command.print (command : Command) : Text :=
  customCmdMarker command.name ++ '\n' :: (command.stderr ++ (customOutputPrefix.toList ++
    (Base64.encode Base64.standard (command.stdout.take customMaxOutputBytes) ++ ['\n'])))

/-- The output of the status function: the built-in commands, then the custom ones in the
order of their files. -/
def statusOutput (builtins : List Builtin) (commands : List Command) : Text :=
  builtins.flatMap Builtin.print ++ (commands.filter Command.runs).flatMap Command.print

end ServerBox.Script
