import ServerBox.Std.Glue
import ServerBox.Std.Words

/-!
# Crontabs

`CronDocument` of `crates/sbm_parser/src/cron.rs`: the lines of a crontab, the jobs that are read
out of them, and the edits of a job, each of which gives a document of its own or is refused.
-/

namespace ServerBox.Cron

open ServerBox.Std

inductive CronValidation where
  | scheduleEmpty
  | commandEmpty
  | lineBreak
  /-- A macro of more than one word, or a bare `@`. -/
  | macroShape
  | fieldCount
  /-- The line that an edit names is not a job. -/
  | unknownLine
deriving DecidableEq, Repr

structure CronJob where
  lineIndex : Nat
  schedule : Text
  command : Text
  enabled : Bool
deriving DecidableEq, Repr

/-- `DISABLED_PREFIX`. -/
def disabledPrefix : String := "# ServerBox disabled: "

/-! ### Lines -/

/-- `replace("\r\n", "\n")`. -/
def replaceReturnNewline : Text → Text
  | '\r' :: '\n' :: rest => '\n' :: replaceReturnNewline rest
  | char :: rest => char :: replaceReturnNewline rest
  | [] => []

def normalizeNewlines (text : Text) : Text :=
  (replaceReturnNewline text).map fun char => if char = '\r' then '\n' else char

/-- `parse_job_line`: the schedule and the command of a line. -/
def parseJobLine (line : Text) : Option (Text × Text) :=
  if line.head? = some '@' then
    let rest := line.dropWhile Text.isSolid
    let command := Text.trim rest
    if command.isEmpty then none else some (line.takeWhile Text.isSolid, command)
  else
    (Text.takeWords 5 line).bind fun (fields, rest) =>
      let command := Text.trim rest
      if command.isEmpty then none else some (Text.join ' ' fields, command)

/-- What `parse_jobs` makes of a line: schedule, command, and whether the job is enabled. -/
def parseLine (line : Text) : Option (Text × Text × Bool) :=
  let candidate := Text.trimStart line
  match Text.stripPrefix disabledPrefix candidate with
  | some rest =>
      (parseJobLine (Text.trimStart rest)).map fun (schedule, command) => (schedule, command, false)
  | none =>
      if candidate.isEmpty ∨ candidate.head? = some '#' then none
      else (parseJobLine candidate).map fun (schedule, command) => (schedule, command, true)

/-- The job that a line is, by its index. -/
def jobOf (lines : List Text) (index : Nat) : Option CronJob :=
  (lines[index]?).bind fun line =>
    (parseLine line).map fun (schedule, command, enabled) => ⟨index, schedule, command, enabled⟩

def parseJobs (lines : List Text) : List CronJob :=
  (List.range lines.length).filterMap (jobOf lines)

/-- The lines are what counts: the jobs are read out of them. -/
structure CronDocument where
  lines : List Text
  jobs : List CronJob
  read : jobs = parseJobs lines

namespace CronDocument

def fromLines (lines : List Text) : CronDocument := ⟨lines, parseJobs lines, rfl⟩

def parse (raw : Text) : CronDocument :=
  let normalized := normalizeNewlines raw
  let lines := if normalized.isEmpty then [] else normalized.splitOn '\n'
  fromLines (if lines.getLast? = some [] then lines.dropLast else lines)

def render (document : CronDocument) : Text :=
  if document.lines.isEmpty then [] else Text.join '\n' document.lines ++ ['\n']

/-- The lines that are no job. -/
def preserved (document : CronDocument) : List Text :=
  let taskLines := document.jobs.map (·.lineIndex)
  (document.lines.zipIdx.filter fun (line, index) =>
    !(taskLines.contains index) && !(Text.trim line).isEmpty).map Prod.fst

end CronDocument

/-! ### Edits -/

def hasLineBreak (value : Text) : Bool :=
  value.contains '\n' || value.contains '\r' || value.contains '\x00'

/-- What is wrong with the line these two would make. -/
def validate (schedule command : Text) : Option CronValidation :=
  let cleanSchedule := Text.trim schedule
  let cleanCommand := Text.trim command
  if cleanSchedule.isEmpty then some .scheduleEmpty
  else if cleanCommand.isEmpty then some .commandEmpty
  else if hasLineBreak cleanSchedule || hasLineBreak cleanCommand then some .lineBreak
  else if cleanSchedule.head? = some '@' then
    if cleanSchedule.length = 1 ∨ (Text.splitWhitespace cleanSchedule).length ≠ 1 then
      some .macroShape
    else none
  else if (Text.splitWhitespace cleanSchedule).length ≠ 5 then some .fieldCount
  else none

def renderJob (schedule command : Text) (enabled : Bool) : Text :=
  let line := schedule ++ ' ' :: command
  if enabled then line else disabledPrefix.toList ++ line

namespace CronDocument

def jobAt (document : CronDocument) (lineIndex : Nat) : Except CronValidation CronJob :=
  match document.jobs.find? fun job => job.lineIndex = lineIndex with
  | some job => .ok job
  | none => .error .unknownLine

def upsert (document : CronDocument) (lineIndex : Option Nat) (schedule command : Text)
    (enabled : Bool) : Except CronValidation CronDocument :=
  match validate schedule command with
  | some error => .error error
  | none =>
      let line := renderJob (Text.trim schedule) (Text.trim command) enabled
      match lineIndex with
      | none => .ok (fromLines (document.lines ++ [line]))
      | some index => do
          let _ ← document.jobAt index
          if index < document.lines.length then
            .ok (fromLines (document.lines.set index line))
          else .error .unknownLine

def remove (document : CronDocument) (lineIndex : Nat) : Except CronValidation CronDocument := do
  let _ ← document.jobAt lineIndex
  .ok (fromLines (document.lines.eraseIdx lineIndex))

def setEnabled (document : CronDocument) (lineIndex : Nat) (enabled : Bool) :
    Except CronValidation CronDocument := do
  let job ← document.jobAt lineIndex
  document.upsert (some lineIndex) job.schedule job.command enabled

end CronDocument

end ServerBox.Cron
