import ServerBox.Cron.Document

/-!
# What an edit of a crontab does

The lines of a document hold no line break, so that a rendered document reads back as it is
(`lines_parse_render`), and a line that was made of a schedule and a command reads back as that job,
unless it begins a comment (`parseLine_renderJob_iff`): `validate` takes five fields of which the
first begins with `#`, and the job is lost once it is enabled (`edit_exactly_iff`).
-/

namespace ServerBox.Cron

open ServerBox.Std

/-! ### What was asked for -/

/-- A schedule as it is read: its words with single spaces. -/
def spaced (schedule : Text) : Text := Text.join ' ' (Text.splitWhitespace (Text.trim schedule))

/-- A line of this schedule is a comment. -/
def startsComment (schedule : Text) : Bool := (Text.trim schedule).head? = some '#'

inductive Edit where
  | upsert (lineIndex : Option Nat) (schedule command : Text) (enabled : Bool)
  | remove (lineIndex : Nat)
  | setEnabled (lineIndex : Nat) (enabled : Bool)

def CronDocument.edit (document : CronDocument) : Edit → Except CronValidation CronDocument
  | .upsert lineIndex schedule command enabled =>
      document.upsert lineIndex schedule command enabled
  | .remove lineIndex => document.remove lineIndex
  | .setEnabled lineIndex enabled => document.setEnabled lineIndex enabled

/-- There is this job at its index, and all other lines are those of the document, in order. -/
def CronDocument.HasJob (document reread : CronDocument) (job : CronJob) : Prop :=
  reread.lines.eraseIdx job.lineIndex = document.lines.eraseIdx job.lineIndex ∧
    reread.jobAt job.lineIndex = .ok job

/-- What a document that is read back has, where an edit did what it was asked for and no more. -/
def Edit.Exactly (document reread : CronDocument) : Edit → Prop
  | upsert lineIndex schedule command enabled =>
      document.HasJob reread ⟨lineIndex.getD document.lines.length, spaced schedule,
        Text.trim command, enabled⟩
  | remove lineIndex => reread.lines = document.lines.eraseIdx lineIndex
  | setEnabled lineIndex enabled => ∀ job, document.jobAt lineIndex = .ok job →
      document.HasJob reread { job with enabled }

/-- An edit that enables a job whose schedule begins a comment. -/
def Edit.Hides (document : CronDocument) : Edit → Prop
  | upsert _ schedule _ enabled => enabled = true ∧ startsComment schedule = true
  | remove _ => False
  | setEnabled lineIndex enabled => enabled = true ∧
      ∃ job, document.jobAt lineIndex = .ok job ∧ startsComment job.schedule = true

/-! ### Lines without a break -/

def Unbroken (line : Text) : Prop := '\n' ∉ line ∧ '\r' ∉ line

theorem replaceReturnNewline_eq_self {text : Text} (without : '\r' ∉ text) :
    replaceReturnNewline text = text := by
  fun_induction replaceReturnNewline text with
  | case1 rest inductionHypothesis => exact absurd List.mem_cons_self without
  | case2 char rest _ inductionHypothesis =>
      rw [inductionHypothesis fun held => without (List.mem_cons_of_mem _ held)]
  | case3 => rfl

theorem normalizeNewlines_eq_self {text : Text} (without : '\r' ∉ text) :
    normalizeNewlines text = text := by
  rw [normalizeNewlines, replaceReturnNewline_eq_self without]
  refine (List.map_congr_left fun char held => if_neg ?_).trans (List.map_id text)
  rintro rfl
  exact without held

theorem not_mem_normalizeNewlines (text : Text) : '\r' ∉ normalizeNewlines text := by
  intro held
  obtain ⟨char, -, same⟩ := List.mem_map.mp held
  split at same
  next => exact absurd same (by decide)
  next differs => exact differs same

theorem unbroken_of_parse (raw : Text) :
    ∀ line ∈ (CronDocument.parse raw).lines, Unbroken line := by
  have pieces : ∀ line ∈ (normalizeNewlines raw).splitOn '\n', Unbroken line := fun line held =>
    ⟨not_mem_of_mem_splitOn held, fun inside =>
      not_mem_normalizeNewlines raw (Text.mem_of_mem_splitOn held inside)⟩
  have withoutLast : ∀ lines : List Text, (∀ line ∈ lines, Unbroken line) →
      ∀ line ∈ (if lines.getLast? = some [] then lines.dropLast else lines), Unbroken line := by
    intro lines all line held
    split at held
    next => exact all line (List.dropLast_subset lines held)
    next => exact all line held
  refine withoutLast _ ?_
  split
  next => exact nofun
  next => exact pieces

theorem join_append_newline (lines : List Text) (some : lines ≠ []) :
    Text.join '\n' lines ++ ['\n'] = Text.join '\n' (lines ++ [[]]) := by
  induction lines with
  | nil => exact absurd rfl some
  | cons line lines inductionHypothesis =>
      cases lines with
      | nil => rw [Text.join_singleton, List.singleton_append, Text.join_cons_cons,
          Text.join_singleton]
      | cons next lines =>
          rw [Text.join_cons_cons, List.append_assoc, List.cons_append,
            inductionHypothesis (List.cons_ne_nil _ _)]
          simp only [List.cons_append, Text.join_cons_cons]

/-- A rendered document reads back as it is. -/
theorem lines_parse_render {document : CronDocument}
    (unbroken : ∀ line ∈ document.lines, Unbroken line) :
    (CronDocument.parse document.render).lines = document.lines := by
  unfold CronDocument.render
  split
  next empty =>
    rw [List.isEmpty_iff.mp empty]
    rfl
  next notEmpty =>
    rw [List.isEmpty_iff] at notEmpty
    rw [join_append_newline _ notEmpty]
    have without : '\r' ∉ Text.join '\n' (document.lines ++ [[]]) := by
      intro held
      rcases Text.mem_join held with same | ⟨line, inside, inLine⟩
      · exact absurd same (by decide)
      · rcases List.mem_append.mp inside with among | last
        · exact (unbroken line among).2 inLine
        · rw [List.mem_singleton.mp last] at inLine
          exact absurd inLine List.not_mem_nil
    have splits : (Text.join '\n' (document.lines ++ [[]])).splitOn '\n' =
        document.lines ++ [[]] := by
      refine List.splitOn_intercalate '\n' (fun line inside => ?_) (by simp)
      rcases List.mem_append.mp inside with among | last
      · exact (unbroken line among).1
      · rw [List.mem_singleton.mp last]
        exact List.not_mem_nil
    have some : (Text.join '\n' (document.lines ++ [[]])).isEmpty = false := by
      rw [← join_append_newline _ notEmpty, List.isEmpty_eq_false_iff]
      simp
    simp only [CronDocument.parse, CronDocument.fromLines, normalizeNewlines_eq_self without,
      splits, some]
    simp

/-! ### Jobs by their index -/

theorem lineIndex_jobOf {lines : List Text} {index : Nat} {job : CronJob}
    (isJob : jobOf lines index = some job) : job.lineIndex = index := by
  obtain ⟨line, -, parsed⟩ := Option.bind_eq_some_iff.mp isJob
  obtain ⟨parts, -, rfl⟩ := Option.map_eq_some_iff.mp parsed
  rfl

theorem jobAt_eq_ok_iff {document : CronDocument} {index : Nat} {job : CronJob} :
    document.jobAt index = .ok job ↔ jobOf document.lines index = some job := by
  have found : (document.jobs.find? fun job => job.lineIndex = index) =
      jobOf document.lines index := by
    rw [document.read, parseJobs, List.find?_filterMap]
    cases isJob : jobOf document.lines index with
    | none =>
        rw [Option.bind_eq_none_iff]
        intro place held
        have matched := List.find?_some held
        obtain ⟨other, isOther, same⟩ := (Option.any_eq_true ..).mp matched
        rw [lineIndex_jobOf isOther, decide_eq_true_eq] at same
        rw [same, isJob] at isOther
        cases isOther
    | some job =>
        have inside : index < document.lines.length := by
          obtain ⟨line, held, -⟩ := Option.bind_eq_some_iff.mp isJob
          exact (List.getElem?_eq_some_iff.mp held).1
        have place : (List.range document.lines.length).find?
            (fun place => (jobOf document.lines place).any fun job => job.lineIndex = index) =
            some index := by
          rw [List.find?_range_eq_some]
          refine ⟨by rw [isJob]; simp [lineIndex_jobOf isJob], List.mem_range.mpr inside, ?_⟩
          intro other before
          cases isOther : jobOf document.lines other with
          | none => rfl
          | some otherJob =>
              rw [Option.any_some, lineIndex_jobOf isOther]
              simpa using before.ne
        rw [place, Option.bind_some, isJob]
  unfold CronDocument.jobAt
  rw [found]
  cases jobOf document.lines index with
  | none => simp
  | some other => simp

/-! ### The line of a job -/

/-- What `validate` has seen of a line. -/
structure IsValid (schedule command : Text) : Prop where
  someSchedule : Text.trim schedule ≠ []
  someCommand : Text.trim command ≠ []
  scheduleUnbroken : Unbroken (Text.trim schedule)
  commandUnbroken : Unbroken (Text.trim command)
  words : (Text.splitWhitespace (Text.trim schedule)).length =
    if (Text.trim schedule).head? = some '@' then 1 else 5

theorem unbroken_of_hasLineBreak {value : Text} (none : hasLineBreak value = false) :
    Unbroken value := by
  simp only [hasLineBreak, Bool.or_eq_false_iff, List.contains_eq_mem, decide_eq_false_iff_not]
    at none
  exact none.1

theorem isValid_of_validate {schedule command : Text} (valid : validate schedule command = none) :
    IsValid schedule command := by
  simp only [validate] at valid
  split at valid
  next => cases valid
  next someSchedule =>
    split at valid
    next => cases valid
    next someCommand =>
      split at valid
      next => cases valid
      next noBreak =>
        rw [Bool.or_eq_true, not_or, Bool.not_eq_true, Bool.not_eq_true] at noBreak
        refine ⟨fun empty => someSchedule (by rw [empty]; rfl),
          fun empty => someCommand (by rw [empty]; rfl),
          unbroken_of_hasLineBreak noBreak.1, unbroken_of_hasLineBreak noBreak.2, ?_⟩
        split at valid
        next isMacro =>
          rw [if_pos isMacro]
          split at valid
          next => cases valid
          next shape =>
            rw [not_or, not_not] at shape
            exact shape.2
        next notMacro =>
          rw [if_neg notMacro]
          split at valid
          next => cases valid
          next count => exact not_not.mp count

theorem parseJobLine_append {schedule command : Text} (valid : IsValid schedule command) :
    parseJobLine (Text.trim schedule ++ ' ' :: Text.trim command) =
      some (spaced schedule, Text.trim command) := by
  obtain ⟨char, rest, solid, shape⟩ := Text.exists_cons_trim valid.someSchedule
  obtain ⟨left, took, same⟩ := @Text.takeWords_append (Text.trim schedule) ' ' (by decide)
    (Text.trim command)
  have trimmed : Text.trim left = Text.trim command := by
    rw [Text.trim, same, ← Text.trim, Text.trim_trim]
  have someCommand : (Text.trim command).isEmpty = false := by
    rw [List.isEmpty_eq_false_iff]
    exact valid.someCommand
  have head : (Text.trim schedule ++ ' ' :: Text.trim command).head? =
      (Text.trim schedule).head? := by rw [shape]; rfl
  rw [valid.words] at took
  rw [parseJobLine, head]
  split
  next isMacro =>
    have start : Text.trimStart (Text.trim schedule ++ ' ' :: Text.trim command) =
        Text.trim schedule ++ ' ' :: Text.trim command := by
      rw [shape, List.cons_append, Text.trimStart,
        List.dropWhile_cons_of_neg (by rw [solid]; decide)]
    rw [if_pos isMacro, Text.takeWords_succ, start, if_neg (by simp), Text.takeWords_zero]
      at took
    obtain ⟨words, rfl⟩ := Prod.mk.inj (Option.some.inj took)
    simp only [trimmed, someCommand]
    rw [spaced, ← words, Text.join_singleton]
    rfl
  next notMacro =>
    rw [if_neg notMacro] at took
    rw [took, Option.bind_some]
    simp only [trimmed, someCommand]
    rfl

theorem head?_of_stripPrefix {candidate rest : Text}
    (disabled : Text.stripPrefix disabledPrefix candidate = some rest) :
    candidate.head? = some '#' := by
  rw [Text.of_stripPrefix disabled]
  rfl

/-- A job's line reads back as the job, unless it is written as a comment. -/
theorem parseLine_renderJob_iff {schedule command : Text} (valid : IsValid schedule command)
    (enabled : Bool) :
    parseLine (renderJob (Text.trim schedule) (Text.trim command) enabled) =
        some (spaced schedule, Text.trim command, enabled) ↔
      ¬ (enabled = true ∧ startsComment schedule = true) := by
  obtain ⟨char, rest, solid, shape⟩ := Text.exists_cons_trim valid.someSchedule
  have start : Text.trimStart (Text.trim schedule ++ ' ' :: Text.trim command) =
      Text.trim schedule ++ ' ' :: Text.trim command := by
    rw [shape, List.cons_append, Text.trimStart,
      List.dropWhile_cons_of_neg (by rw [solid]; decide)]
  have head : (Text.trim schedule ++ ' ' :: Text.trim command).head? =
      (Text.trim schedule).head? := by rw [shape]; rfl
  have parsed := parseJobLine_append valid
  cases enabled with
  | false =>
      have written : Text.trimStart (disabledPrefix.toList ++
          (Text.trim schedule ++ ' ' :: Text.trim command)) =
          disabledPrefix.toList ++ (Text.trim schedule ++ ' ' :: Text.trim command) := rfl
      simp only [parseLine, renderJob, Bool.false_eq_true, if_false, false_and, not_false_eq_true,
        written, Text.stripPrefix_append, start, parsed, Option.map_some]
  | true =>
      simp only [parseLine, renderJob, if_true, true_and, start, Bool.not_eq_true, startsComment,
        decide_eq_false_iff_not, head, parsed]
      constructor
      · intro read isComment
        split at read
        next rest disabled =>
          obtain ⟨parts, -, same⟩ := Option.map_eq_some_iff.mp read
          simp at same
        next =>
          rw [if_pos (.inr isComment)] at read
          cases read
      · intro noComment
        split
        next rest disabled =>
          rw [← head, head?_of_stripPrefix disabled] at noComment
          exact absurd rfl noComment
        next =>
          rw [if_neg (by simp [noComment])]
          rfl

/-- What is read of a line is written as it is read, and no enabled job is a comment. -/
theorem of_parseJobLine {line schedule command : Text} (start : Text.trimStart line = line)
    (parsed : parseJobLine line = some (schedule, command)) :
    spaced schedule = schedule ∧ Text.trim command = command ∧
      (Text.trim schedule).head? = line.head? := by
  obtain ⟨words, left, count, took, written, isCommand⟩ : ∃ words left count,
      Text.takeWords (count + 1) line = some (words, left) ∧ schedule = Text.join ' ' words ∧
        command = Text.trim left := by
    unfold parseJobLine at parsed
    split at parsed
    next isMacro =>
      dsimp only at parsed
      split at parsed
      next => cases parsed
      next =>
        obtain ⟨rfl, rfl⟩ := Prod.mk.inj (Option.some.inj parsed)
        have some : line.isEmpty = false := by
          cases line with
          | nil => cases isMacro
          | cons => rfl
        refine ⟨[line.takeWhile Text.isSolid], line.dropWhile Text.isSolid, 0, ?_,
          (Text.join_singleton _ _).symm, rfl⟩
        rw [Text.takeWords_succ, start, some, Text.takeWords_zero]
        rfl
    next =>
      obtain ⟨⟨words, left⟩, took, same⟩ := Option.bind_eq_some_iff.mp parsed
      dsimp only at same
      split at same
      next => cases same
      next =>
        obtain ⟨rfl, rfl⟩ := Prod.mk.inj (Option.some.inj same)
        exact ⟨words, left, 4, took, rfl, rfl⟩
  have areWords := (Text.takeWords_words took).2
  have trimmed := Text.trim_join areWords
  refine ⟨by rw [spaced, written, trimmed, Text.splitWhitespace_join areWords],
    by rw [isCommand, Text.trim_trim], ?_⟩
  rw [written, trimmed]
  rw [Text.takeWords_succ, start] at took
  split at took
  next => cases took
  next notEmpty =>
    obtain ⟨⟨others, rest⟩, -, same⟩ := Option.map_eq_some_iff.mp took
    obtain ⟨rfl, rfl⟩ := Prod.mk.inj same
    obtain ⟨some, -⟩ := areWords _ List.mem_cons_self
    cases line with
    | nil => exact absurd rfl some
    | cons char line =>
        have solid : Text.isSolid char = true := by
          by_contra white
          exact some (List.takeWhile_cons_of_neg white)
        rw [List.takeWhile_cons_of_pos solid]
        cases others with
        | nil => rw [Text.join_singleton]; rfl
        | cons => rw [Text.join_cons_cons]; rfl

theorem of_jobOf {lines : List Text} {index : Nat} {job : CronJob}
    (isJob : jobOf lines index = some job) :
    spaced job.schedule = job.schedule ∧ Text.trim job.command = job.command ∧
      (job.enabled = true → startsComment job.schedule = false) := by
  obtain ⟨line, -, made⟩ := Option.bind_eq_some_iff.mp isJob
  obtain ⟨⟨schedule, command, enabled⟩, parsed, rfl⟩ := Option.map_eq_some_iff.mp made
  unfold parseLine at parsed
  dsimp only at parsed ⊢
  split at parsed
  next rest disabled =>
    obtain ⟨parts, read, same⟩ := Option.map_eq_some_iff.mp parsed
    obtain ⟨rfl, rfl, rfl⟩ : parts.1 = schedule ∧ parts.2 = command ∧ false = enabled := by
      simpa using same
    obtain ⟨spacedSchedule, trimmed, -⟩ := of_parseJobLine (Text.trimStart_trimStart rest) read
    exact ⟨spacedSchedule, trimmed, nofun⟩
  next =>
    split at parsed
    next => cases parsed
    next noComment =>
      obtain ⟨parts, read, same⟩ := Option.map_eq_some_iff.mp parsed
      obtain ⟨rfl, rfl, rfl⟩ : parts.1 = schedule ∧ parts.2 = command ∧ true = enabled := by
        simpa using same
      obtain ⟨spacedSchedule, trimmed, head⟩ := of_parseJobLine (Text.trimStart_trimStart line) read
      refine ⟨spacedSchedule, trimmed, fun _ => ?_⟩
      rw [startsComment, head]
      exact decide_eq_false fun isComment => noComment (.inr isComment)

/-! ### Edits -/

theorem unbroken_renderJob {schedule command : Text} (valid : IsValid schedule command)
    (enabled : Bool) :
    Unbroken (renderJob (Text.trim schedule) (Text.trim command) enabled) := by
  have line : Unbroken (Text.trim schedule ++ ' ' :: Text.trim command) := by
    constructor <;> intro held <;> rcases List.mem_append.mp held with first | later
    · exact valid.scheduleUnbroken.1 first
    · exact valid.commandUnbroken.1 ((List.mem_cons.mp later).resolve_left (by decide))
    · exact valid.scheduleUnbroken.2 first
    · exact valid.commandUnbroken.2 ((List.mem_cons.mp later).resolve_left (by decide))
  have start : Unbroken disabledPrefix.toList := by
    unfold Unbroken
    decide
  unfold renderJob
  dsimp only
  split
  next => exact line
  next =>
    exact ⟨fun held => (List.mem_append.mp held).elim start.1 line.1,
      fun held => (List.mem_append.mp held).elim start.2 line.2⟩

variable {document after : CronDocument}

theorem CronDocument.HasJob.congr {reread : CronDocument} {job : CronJob}
    (same : reread.lines = after.lines) :
    document.HasJob reread job ↔ document.HasJob after job := by
  rw [HasJob, HasJob, jobAt_eq_ok_iff, jobAt_eq_ok_iff, same]

/-- An upsert puts one line into its place. -/
theorem upsert_ok {lineIndex : Option Nat} {schedule command : Text} {enabled : Bool}
    (accepted : document.upsert lineIndex schedule command enabled = .ok after) :
    IsValid schedule command ∧
      after.lines.eraseIdx (lineIndex.getD document.lines.length) =
        document.lines.eraseIdx (lineIndex.getD document.lines.length) ∧
      after.lines[lineIndex.getD document.lines.length]? =
        some (renderJob (Text.trim schedule) (Text.trim command) enabled) ∧
      ∀ line ∈ after.lines, line ∈ document.lines ∨
        line = renderJob (Text.trim schedule) (Text.trim command) enabled := by
  unfold CronDocument.upsert at accepted
  split at accepted
  next => cases accepted
  next valid =>
    refine ⟨isValid_of_validate valid, ?_⟩
    dsimp only at accepted
    split at accepted
    next =>
      obtain rfl := Except.ok.inj accepted
      refine ⟨?_, ?_, fun line held => ?_⟩
      · simp [CronDocument.fromLines, List.eraseIdx_append_of_length_le,
          List.eraseIdx_of_length_le]
      · simp [CronDocument.fromLines]
      · rcases List.mem_append.mp held with before | new
        · exact .inl before
        · exact .inr (List.mem_singleton.mp new)
    next index =>
      cases isJob : document.jobAt index with
      | error error =>
          rw [isJob] at accepted
          cases accepted
      | ok job =>
          rw [isJob] at accepted
          change (if index < document.lines.length then _ else _) = _ at accepted
          split at accepted
          next inside =>
            obtain rfl := Except.ok.inj accepted
            refine ⟨?_, ?_, fun line held => ?_⟩
            · exact List.eraseIdx_set_eq
            · simp [CronDocument.fromLines, inside]
            · exact List.mem_or_eq_of_mem_set held
          next => cases accepted

theorem upsert_hasJob_iff {lineIndex : Option Nat} {schedule command : Text} {enabled : Bool}
    (accepted : document.upsert lineIndex schedule command enabled = .ok after) :
    document.HasJob after ⟨lineIndex.getD document.lines.length, spaced schedule,
        Text.trim command, enabled⟩ ↔
      ¬ (enabled = true ∧ startsComment schedule = true) := by
  obtain ⟨valid, others, line, -⟩ := upsert_ok accepted
  rw [← parseLine_renderJob_iff valid enabled, CronDocument.HasJob, jobAt_eq_ok_iff]
  simp only [others, true_and, jobOf, line, Option.bind_some, Option.map_eq_some_iff]
  constructor
  · rintro ⟨⟨readSchedule, readCommand, readEnabled⟩, read, same⟩
    rw [read]
    simpa using same
  · intro read
    exact ⟨_, read, rfl⟩

theorem unbroken_of_upsert (unbroken : ∀ line ∈ document.lines, Unbroken line)
    {lineIndex : Option Nat} {schedule command : Text} {enabled : Bool}
    (accepted : document.upsert lineIndex schedule command enabled = .ok after) :
    ∀ line ∈ after.lines, Unbroken line := by
  obtain ⟨valid, -, -, lines⟩ := upsert_ok accepted
  intro line held
  rcases lines line held with before | rfl
  · exact unbroken line before
  · exact unbroken_renderJob valid enabled

theorem setEnabled_ok {lineIndex : Nat} {enabled : Bool}
    (accepted : document.setEnabled lineIndex enabled = .ok after) :
    ∃ job, document.jobAt lineIndex = .ok job ∧
      document.upsert (some lineIndex) job.schedule job.command enabled = .ok after := by
  unfold CronDocument.setEnabled at accepted
  cases isJob : document.jobAt lineIndex with
  | error error =>
      rw [isJob] at accepted
      cases accepted
  | ok job =>
      rw [isJob] at accepted
      exact ⟨job, rfl, accepted⟩

/-- A job is enabled and disabled as it is, unless it begins a comment. -/
theorem setEnabled_hasJob_iff {lineIndex : Nat} {enabled : Bool} {job : CronJob}
    (isJob : document.jobAt lineIndex = .ok job)
    (accepted : document.setEnabled lineIndex enabled = .ok after) :
    document.HasJob after { job with enabled } ↔
      ¬ (enabled = true ∧ startsComment job.schedule = true) := by
  obtain ⟨other, isOther, accepted⟩ := setEnabled_ok accepted
  obtain rfl : other = job := Except.ok.inj (isOther.symm.trans isJob)
  have isJob := jobAt_eq_ok_iff.mp isJob
  obtain ⟨schedule, command, -⟩ := of_jobOf isJob
  have exact := upsert_hasJob_iff accepted
  rw [schedule, command, Option.getD_some, ← lineIndex_jobOf isJob] at exact
  exact exact

theorem remove_ok {lineIndex : Nat} (accepted : document.remove lineIndex = .ok after) :
    after.lines = document.lines.eraseIdx lineIndex := by
  unfold CronDocument.remove at accepted
  cases isJob : document.jobAt lineIndex with
  | error error =>
      rw [isJob] at accepted
      cases accepted
  | ok job =>
      rw [isJob] at accepted
      obtain rfl := Except.ok.inj accepted
      rfl

theorem unbroken_of_edit (unbroken : ∀ line ∈ document.lines, Unbroken line) {edit : Edit}
    (accepted : document.edit edit = .ok after) : ∀ line ∈ after.lines, Unbroken line := by
  cases edit with
  | upsert => exact unbroken_of_upsert unbroken accepted
  | remove =>
      rw [remove_ok accepted]
      exact fun line held => unbroken line (List.mem_of_mem_eraseIdx held)
  | setEnabled =>
      obtain ⟨job, -, accepted⟩ := setEnabled_ok accepted
      exact unbroken_of_upsert unbroken accepted

/-- An enabled job that is disabled and enabled again is as it was. -/
theorem setEnabled_restores {lineIndex : Nat} {job : CronJob} {off on : CronDocument}
    (isJob : document.jobAt lineIndex = .ok job) (enabled : job.enabled = true)
    (disabled : document.setEnabled lineIndex false = .ok off)
    (restored : off.setEnabled lineIndex true = .ok on) : document.HasJob on job := by
  obtain rfl := lineIndex_jobOf (jobAt_eq_ok_iff.mp isJob)
  obtain ⟨othersOff, jobOff⟩ := (setEnabled_hasJob_iff isJob disabled).mpr (by simp)
  obtain ⟨othersOn, jobOn⟩ := (setEnabled_hasJob_iff jobOff restored).mpr
    (by simp [(of_jobOf (jobAt_eq_ok_iff.mp isJob)).2.2 enabled])
  have same : (⟨job.lineIndex, job.schedule, job.command, true⟩ : CronJob) = job := by
    rw [← enabled]
  exact ⟨othersOn.trans othersOff, same ▸ jobOn⟩

/-- For every crontab: an edit that is accepted does what it was asked for and no more, as the
rendered text reads back, if and only if it enables no job whose schedule begins a comment; and a
job that is disabled and enabled again is as it was. -/
theorem edit_exactly_iff (raw : Text) :
    (∀ edit after, (CronDocument.parse raw).edit edit = .ok after →
      (edit.Exactly (.parse raw) (.parse after.render) ↔ ¬ edit.Hides (.parse raw))) ∧
    ∀ lineIndex job off on, (CronDocument.parse raw).jobAt lineIndex = .ok job →
      job.enabled = true → (CronDocument.parse raw).setEnabled lineIndex false = .ok off →
      off.setEnabled lineIndex true = .ok on →
      (CronDocument.parse raw).HasJob (.parse on.render) job := by
  have unbroken := unbroken_of_parse raw
  constructor
  · intro edit after accepted
    have reread := lines_parse_render (unbroken_of_edit unbroken accepted)
    cases edit with
    | upsert lineIndex schedule command enabled =>
        exact (CronDocument.HasJob.congr reread).trans (upsert_hasJob_iff accepted)
    | remove lineIndex =>
        exact iff_of_true (reread.trans (remove_ok accepted)) not_false
    | setEnabled lineIndex enabled =>
        obtain ⟨job, isJob, -⟩ := setEnabled_ok accepted
        have exact :=
          (CronDocument.HasJob.congr reread).trans (setEnabled_hasJob_iff isJob accepted)
        constructor
        · rintro holds ⟨isEnabled, other, isOther, isComment⟩
          obtain rfl : other = job := Except.ok.inj (isOther.symm.trans isJob)
          exact exact.mp (holds other isJob) ⟨isEnabled, isComment⟩
        · intro shown other isOther
          obtain rfl : other = job := Except.ok.inj (isOther.symm.trans isJob)
          exact exact.mpr fun ⟨isEnabled, isComment⟩ =>
            shown ⟨isEnabled, other, isJob, isComment⟩
  · intro lineIndex job off on isJob enabled disabled restored
    obtain ⟨_, -, disabledBy⟩ := setEnabled_ok disabled
    obtain ⟨_, -, restoredBy⟩ := setEnabled_ok restored
    have unbrokenOn := unbroken_of_upsert (unbroken_of_upsert unbroken disabledBy) restoredBy
    exact (CronDocument.HasJob.congr (lines_parse_render unbrokenOn)).mpr
      (setEnabled_restores isJob enabled disabled restored)

/-- A backup that is off, under a schedule that is a comment once it is on. -/
def hiddenCrontab : Text := "MAILTO=root\n# ServerBox disabled: # 3 * * * backup\n".toList

theorem edit_exactly_hiddenCrontab :
    ∃ after, (CronDocument.parse hiddenCrontab).edit (.setEnabled 1 true) = .ok after ∧
      ¬ (Edit.setEnabled 1 true).Exactly (.parse hiddenCrontab) (.parse after.render) := by
  obtain ⟨after, accepted⟩ : ∃ after,
      (CronDocument.parse hiddenCrontab).edit (.setEnabled 1 true) = .ok after :=
    ⟨_, rfl⟩
  refine ⟨after, accepted, fun exactly => ?_⟩
  refine ((edit_exactly_iff hiddenCrontab).1 _ _ accepted).mp exactly ⟨rfl, _, rfl, ?_⟩
  decide

/-- Enabling a job can lose it. -/
theorem not_edit_exactly : ¬ ∀ raw edit after, (CronDocument.parse raw).edit edit = .ok after →
    edit.Exactly (.parse raw) (.parse after.render) := by
  intro holds
  obtain ⟨-, isJob⟩ := holds hiddenCrontab (.setEnabled 1 true) _ rfl _ rfl
  exact absurd (jobAt_eq_ok_iff.mp isJob) (by decide +kernel)

end ServerBox.Cron
