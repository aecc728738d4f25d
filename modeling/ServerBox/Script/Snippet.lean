import Mathlib.Data.List.Chain
import ServerBox.Std.Text
import Mathlib.Algebra.Order.Ring.Nat

/-!
# Snippets

`src/crates/sbm_parser/src/snippet.rs`: the placeholders of a script, the steps that typing it
takes (`plan`) and the script as one command (`expand`). Six placeholders are answered by the
caller, four words begin a macro, and anything else is typed as it stands.
-/

namespace ServerBox.Script.Snippet

open ServerBox.Std

/-! ### The language -/

/-- `SERVER_KEYS`. -/
def serverKeys : List Text :=
  ["host", "port", "user", "pwd", "id", "name"].map String.toList

def maxSleepSeconds : Nat := 300

def maxEnter : Nat := 64

/-- What a client can answer. -/
structure SnippetContext where
  host : Option Text := none
  port : Option Text := none
  user : Option Text := none
  pwd : Option Text := none
  id : Option Text := none
  name : Option Text := none
deriving DecidableEq

def SnippetContext.get (context : SnippetContext) (key : Text) : Option Text :=
  if key = "host".toList then context.host
  else if key = "port".toList then context.port
  else if key = "user".toList then context.user
  else if key = "pwd".toList then context.pwd
  else if key = "id".toList then context.id
  else if key = "name".toList then context.name
  else none

/-- One thing a client does. -/
inductive Step where
  | text (text : Text)
  | combo (ctrl alt : Bool) (key : Char) (rest : Text)
  | sleep (seconds : Nat)
  | enter (times : Nat)
deriving DecidableEq

inductive PlanError where
  | unanswerable (key : Text)
deriving DecidableEq

/-- One placeholder of a text. -/
structure RawMatch where
  start : Nat
  finish : Nat
  name : Text
deriving DecidableEq

/-- The name of the placeholder that a text begins with. -/
def placeholderName : Text → Option Text
  | '$' :: '{' :: body =>
      match Text.splitOnce '}' body with
      | some (name, _) => if name.isEmpty || name.contains '{' then none else some name
      | none => none
  | _ => none

/-- The scan of `matches`; what a placeholder took up is skipped. -/
def matchesFrom (index skip : Nat) : Text → List RawMatch
  | [] => []
  | char :: rest =>
      if 0 < skip then matchesFrom (index + 1) (skip - 1) rest
      else match placeholderName (char :: rest) with
        | some name =>
            ⟨index, index + name.length + 3, name⟩ ::
              matchesFrom (index + 1) (name.length + 2) rest
        | none => matchesFrom (index + 1) 0 rest

/-- `matches`. -/
def matchesOf (text : Text) : List RawMatch := matchesFrom 0 0 text

/-- The loop of `placeholders`: a name is kept once. -/
def collect (names : List Text) (placeholder : RawMatch) : List Text :=
  if names.contains placeholder.name then names else names ++ [placeholder.name]

/-- `placeholders`. -/
def placeholders (script : Text) : List Text := (matchesOf script).foldl collect []

def slice (text : Text) (start finish : Nat) : Text := (text.drop start).take (finish - start)

/-! ### A script as one command -/

/-- The loop of `expand`, with what it has of its output. -/
def expandFrom (script : Text) (context : SnippetContext) (out : Text) (cursor : Nat) :
    List RawMatch → Except PlanError Text
  | [] => .ok (out ++ script.drop cursor)
  | placeholder :: rest =>
      if placeholder.name ∉ serverKeys then expandFrom script context out cursor rest
      else match context.get placeholder.name with
        | none => .error (.unanswerable placeholder.name)
        | some value =>
            expandFrom script context (out ++ slice script cursor placeholder.start ++ value)
              placeholder.finish rest

/-- `expand`. -/
def expand (script : Text) (context : SnippetContext) : Except PlanError Text :=
  expandFrom script context [] 0 (matchesOf script)

/-! ### A script as it is typed -/

/-- `push_text`. -/
def pushText (steps : List Step) (text : Text) : List Step :=
  if text = [] then steps
  else match steps.getLast? with
    | some (.text previous) => steps.dropLast ++ [.text (previous ++ text)]
    | _ => steps ++ [.text text]

/-- What follows the one character behind a macro's word. -/
def argument : Text → Option Text
  | [] => none
  | _ :: rest => some rest

/-- `i64::from_str`. -/
def parseSigned : Text → Option Int
  | '-' :: digits =>
      if digits.head? = some '+' then none
      else (Text.parseUnsigned (2 ^ 63) digits).map fun number => -(number : Int)
  | text => (Text.parseUnsigned (2 ^ 63 - 1) text).map fun number => (number : Int)

def sleepStep (rest : Text) : Option Step :=
  ((argument rest).bind (Text.parseUnsigned (2 ^ 64 - 1))).map fun seconds =>
    .sleep (min seconds maxSleepSeconds)

def enterStep (rest : Text) : Option Step :=
  let times := match (argument rest).bind parseSigned with
    | some number => min number.toNat (2 ^ 32 - 1)
    | none => 1
  if 0 < times then some (.enter (min times maxEnter)) else none

/-- `combo_of`. -/
def comboOf (ctrl : Bool) : Text → Option Step
  | '+' :: key :: rest => some (.combo ctrl (!ctrl) key rest)
  | _ => none

/-- The step of a macro, if it has one; nothing for a name that no macro's word begins. -/
def macroOf (name : Text) : Option (Option Step) :=
  match Text.stripPrefix "sleep" name with
  | some rest => some (sleepStep rest)
  | none =>
      match Text.stripPrefix "enter" name with
      | some rest => some (enterStep rest)
      | none =>
          match Text.stripPrefix "ctrl" name with
          | some rest => some (comboOf true rest)
          | none => (Text.stripPrefix "alt" name).map (comboOf false)

section Plan

-- `str::to_lowercase`, which may be any function of the name
variable (lowercase : Text → Text)

/-- The loop of `steps_of`. -/
def stepsFrom (script : Text) (context : SnippetContext) (steps : List Step) (cursor : Nat) :
    List RawMatch → Except PlanError (List Step)
  | [] => .ok (pushText steps (script.drop cursor))
  | placeholder :: rest =>
      let steps := pushText steps (slice script cursor placeholder.start)
      if placeholder.name ∈ serverKeys then
        match context.get placeholder.name with
        | none => .error (.unanswerable placeholder.name)
        | some value => stepsFrom script context (pushText steps value) placeholder.finish rest
      else match macroOf (lowercase placeholder.name) with
        | some step => stepsFrom script context (steps ++ step.toList) placeholder.finish rest
        | none =>
            stepsFrom script context
              (pushText steps (slice script placeholder.start placeholder.finish))
              placeholder.finish rest

/-- `plan`. -/
def plan (script : Text) (context : SnippetContext) : Except PlanError (List Step) :=
  stepsFrom lowercase script context [] 0 (matchesOf script)

end Plan

/-! ### The placeholders of a text -/

/-- A placeholder stands in a text: a name without braces, and not empty, between `$` with an
opening brace and the closing one. -/
structure StandsIn (text : Text) (placeholder : RawMatch) : Prop where
  named : placeholder.name ≠ []
  closed : '{' ∉ placeholder.name ∧ '}' ∉ placeholder.name
  spelled : ∃ before after, text = before ++ '$' :: '{' :: (placeholder.name ++ '}' :: after) ∧
    placeholder.start = before.length
  finished : placeholder.finish = placeholder.start + placeholder.name.length + 3

/-- The placeholders of a text from a position on: the leftmost one, and those behind its end. -/
inductive Leftmost (text : Text) : Nat → List RawMatch → Prop
  | done {position : Nat}
      (none : ∀ placeholder, StandsIn text placeholder → placeholder.start < position) :
      Leftmost text position []
  | next {position : Nat} {placeholder : RawMatch} {others : List RawMatch}
      (stands : StandsIn text placeholder) (reached : position ≤ placeholder.start)
      (first : ∀ other, StandsIn text other → position ≤ other.start →
        placeholder.start ≤ other.start)
      (behind : Leftmost text placeholder.finish others) :
      Leftmost text position (placeholder :: others)

theorem placeholderName_eq_some_iff {text name : Text} :
    placeholderName text = some name ↔
      name ≠ [] ∧ ('{' ∉ name ∧ '}' ∉ name) ∧
        ∃ after, text = '$' :: '{' :: (name ++ '}' :: after) := by
  constructor
  · intro found
    unfold placeholderName at found
    split at found
    next body =>
      split at found
      next before after split_ =>
        obtain ⟨rfl, lacks⟩ := Text.splitOnce_eq_some_iff.mp split_
        split at found
        next => cases found
        next plain =>
          obtain rfl := Option.some.inj found
          simp only [Bool.or_eq_true, List.isEmpty_iff, List.contains_eq_mem,
            decide_eq_true_eq, not_or] at plain
          exact ⟨plain.1, ⟨plain.2, lacks⟩, after, rfl⟩
      next => cases found
    next => cases found
  · rintro ⟨named, ⟨opens, closes⟩, after, rfl⟩
    simp [placeholderName, Text.splitOnce_append after closes, named, opens]

/-- Where one placeholder begins, no other does. -/
theorem StandsIn.unique {text : Text} {first second : RawMatch} (stands : StandsIn text first)
    (other : StandsIn text second) (same : first.start = second.start) : first = second := by
  obtain ⟨before, after, spelled, start⟩ := stands.spelled
  obtain ⟨before', after', spelled', start'⟩ := other.spelled
  have tails : '$' :: '{' :: (first.name ++ '}' :: after) =
      '$' :: '{' :: (second.name ++ '}' :: after') :=
    (List.append_inj (spelled.symm.trans spelled') (by omega)).2
  have found := placeholderName_eq_some_iff.mpr ⟨stands.named, stands.closed, after, rfl⟩
  have found' := placeholderName_eq_some_iff.mpr ⟨other.named, other.closed, after', rfl⟩
  have names : first.name = second.name := by
    rw [tails] at found
    exact Option.some.inj (found.symm.trans found')
  have finish : first.finish = second.finish := by
    rw [stands.finished, other.finished, same, names]
  cases first
  cases second
  simp_all

/-- A text has only one such list. -/
theorem Leftmost.unique {text : Text} {position : Nat} {found others : List RawMatch}
    (leftmost : Leftmost text position found) (other : Leftmost text position others) :
    found = others := by
  induction leftmost generalizing others with
  | done none =>
      cases other with
      | done => rfl
      | next stands reached => exact absurd (none _ stands) (by omega)
  | next stands reached first _ inductionHypothesis =>
      cases other with
      | done none => exact absurd (none _ stands) (by omega)
      | next stands' reached' first' behind' =>
          have start := Nat.le_antisymm (first _ stands' reached') (first' _ stands reached)
          obtain rfl := stands.unique stands' start
          rw [inductionHypothesis behind']

/-- A position that no placeholder begins at is passed over. -/
theorem Leftmost.passed {text : Text} {position : Nat} {found : List RawMatch}
    (leftmost : Leftmost text (position + 1) found)
    (free : ∀ placeholder, StandsIn text placeholder → placeholder.start ≠ position) :
    Leftmost text position found := by
  cases leftmost with
  | done none =>
      refine .done fun placeholder stands => ?_
      have := none placeholder stands
      have := free placeholder stands
      omega
  | next stands reached first behind =>
      refine .next stands (by omega) (fun other stands' reached' => ?_) behind
      have := free other stands'
      exact first other stands' (by omega)

/-- The scan finds them, whatever it has read and has still to skip. -/
theorem matchesFrom_leftmost (text : Text) (before : Text) (skip : Nat)
    (skips : skip ≤ text.length) :
    Leftmost (before ++ text) (before.length + skip)
      (matchesFrom before.length skip text) := by
  induction text generalizing before skip with
  | nil =>
      refine .done fun placeholder stands => ?_
      obtain ⟨front, after, spelled, start⟩ := stands.spelled
      have lengths := congrArg List.length spelled
      simp only [List.length_append, List.length_nil, List.length_cons] at lengths
      omega
  | cons char rest inductionHypothesis =>
      have further := inductionHypothesis (before ++ [char])
      simp only [List.length_append, List.length_singleton, List.append_assoc,
        List.singleton_append] at further
      rw [matchesFrom]
      split
      next skipping =>
        have tail := further (skip - 1) (by rw [List.length_cons] at skips; omega)
        rwa [show before.length + 1 + (skip - 1) = before.length + skip by omega] at tail
      next still =>
        obtain rfl : skip = 0 := by omega
        split
        next name found =>
          obtain ⟨named, closed, after, spelled⟩ := placeholderName_eq_some_iff.mp found
          have fits : name.length + 2 ≤ rest.length := by
            have lengths := congrArg List.length spelled
            simp only [List.length_cons, List.length_append] at lengths
            omega
          have stands : StandsIn (before ++ char :: rest)
              ⟨before.length, before.length + name.length + 3, name⟩ :=
            ⟨named, closed, ⟨before, after, by rw [spelled], rfl⟩, rfl⟩
          refine .next stands (by simp) (fun other _ reached => reached) ?_
          have tail := further (name.length + 2) fits
          rwa [show before.length + 1 + (name.length + 2) = before.length + name.length + 3 by
            omega] at tail
        next nothing =>
          refine Leftmost.passed (further 0 (Nat.zero_le _)) fun placeholder stands start => ?_
          obtain ⟨front, after, spelled, start'⟩ := stands.spelled
          have tails := (List.append_inj spelled (by omega)).2
          have found := placeholderName_eq_some_iff.mpr
            ⟨stands.named, stands.closed, after, tails⟩
          rw [nothing] at found
          cases found

theorem matchesOf_leftmost (script : Text) : Leftmost script 0 (matchesOf script) :=
  matchesFrom_leftmost script [] 0 (Nat.zero_le _)

theorem collect_nodup {names : List Text} (once : names.Nodup) (placeholder : RawMatch) :
    (collect names placeholder).Nodup := by
  unfold collect
  split
  next => exact once
  next fresh =>
    have fresh : placeholder.name ∉ names := by simpa using fresh
    refine List.nodup_append.mpr ⟨once, by simp, ?_⟩
    rintro name held other among rfl
    exact fresh (List.mem_singleton.mp among ▸ held)

theorem mem_collect (names : List Text) (placeholder : RawMatch) (name : Text) :
    name ∈ collect names placeholder ↔ name ∈ names ∨ placeholder.name = name := by
  unfold collect
  split
  next held =>
    have held : placeholder.name ∈ names := by simpa using held
    exact ⟨.inl, fun known => known.elim id fun same => same ▸ held⟩
  next => rw [List.mem_append, List.mem_singleton, eq_comm]

/-- The names are those of the placeholders, each once. -/
theorem placeholders_spec (script : Text) :
    (placeholders script).Nodup ∧
      ∀ name, name ∈ placeholders script ↔ ∃ found ∈ matchesOf script, found.name = name := by
  have collected : ∀ (found : List RawMatch) (names : List Text), names.Nodup →
      (found.foldl collect names).Nodup ∧ ∀ name, name ∈ found.foldl collect names ↔
        name ∈ names ∨ ∃ placeholder ∈ found, placeholder.name = name := by
    intro found
    induction found with
    | nil => simp
    | cons placeholder others inductionHypothesis =>
        intro names once
        obtain ⟨nodup, mem⟩ := inductionHypothesis _ (collect_nodup once placeholder)
        refine ⟨nodup, fun name => (mem name).trans ?_⟩
        simp only [mem_collect, List.mem_cons, exists_eq_or_imp, or_assoc]
  simpa [placeholders] using collected (matchesOf script) [] List.nodup_nil

end ServerBox.Script.Snippet
