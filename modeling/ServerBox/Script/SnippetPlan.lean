import ServerBox.Script.Snippet

/-!
# The plan of a snippet and its command

`plan` and `expand` walk the same placeholders. They refuse the same one, a script without macros
is typed as the one text it expands to, and what a value holds is only ever typed.
-/

namespace ServerBox.Script.Snippet

open ServerBox.Std

def Step.isText : Step → Bool
  | .text _ => true
  | _ => false

/-- What a step types, where that is all it does. -/
def Step.typed : Step → Text
  | .text written => written
  | _ => []

/-- Nothing that could be said in fewer steps: no text is empty, and no two are adjacent. -/
structure Spaced (steps : List Step) : Prop where
  apart : steps.IsChain fun step next => step.isText = false ∨ next.isText = false
  filled : .text [] ∉ steps

/-! ### Texts that are pushed -/

theorem spaced_nil : Spaced [] := ⟨.nil, by simp⟩

/-- A step that the last one does not run into goes to the end. -/
theorem Spaced.concat {steps : List Step} {step : Step} (spaced : Spaced steps)
    (solid : step ≠ .text [])
    (fits : ∀ last ∈ steps.getLast?, last.isText = false ∨ step.isText = false) :
    Spaced (steps ++ [step]) where
  apart := List.isChain_append.mpr ⟨spaced.apart, .singleton _, by simpa using fits⟩
  filled := by
    rw [List.mem_append, List.mem_singleton, not_or]
    exact ⟨spaced.filled, Ne.symm solid⟩

/-- What `push_text` does to the last step, and to a plan that does not end in a text. -/
theorem pushText_cases (steps : List Step) {text : Text} (filled : text ≠ []) :
    (∃ front previous, steps = front ++ [.text previous] ∧
      pushText steps text = front ++ [.text (previous ++ text)]) ∨
    ((∀ last ∈ steps.getLast?, last.isText = false) ∧
      pushText steps text = steps ++ [.text text]) := by
  rw [pushText, if_neg filled]
  rcases List.eq_nil_or_concat steps with rfl | ⟨front, last, rfl⟩
  · exact .inr ⟨by simp, rfl⟩
  · cases last with
    | text previous => exact .inl ⟨front, previous, by simp⟩
    | _ => exact .inr (by simp [Step.isText])

theorem Spaced.pushText {steps : List Step} (spaced : Spaced steps) (text : Text) :
    Spaced (pushText steps text) := by
  by_cases empty : text = []
  · rwa [Snippet.pushText, if_pos empty]
  · obtain ⟨front, previous, rfl, pushed⟩ | ⟨other, pushed⟩ := pushText_cases steps empty
    · rw [pushed]
      obtain ⟨front_apart, _, fits⟩ := List.isChain_append.mp spaced.apart
      have front_filled : .text [] ∉ front := fun held =>
        spaced.filled (List.mem_append_left _ held)
      refine Spaced.concat ⟨front_apart, front_filled⟩ (by simp [empty]) fun last held => ?_
      exact fits last held (.text previous) rfl
    · rw [pushed]
      exact spaced.concat (by simpa using empty) fun last held => .inl (other last held)

theorem isText_sleepStep {rest : Text} {step : Step} (made : sleepStep rest = some step) :
    step.isText = false := by
  obtain ⟨seconds, _, rfl⟩ := Option.map_eq_some_iff.mp made
  rfl

theorem isText_enterStep {rest : Text} {step : Step} (made : enterStep rest = some step) :
    step.isText = false := by
  simp only [enterStep] at made
  split at made
  all_goals
    split at made
    next => obtain rfl := Option.some.inj made; rfl
    next => cases made

theorem isText_comboOf {ctrl : Bool} {rest : Text} {step : Step}
    (made : comboOf ctrl rest = some step) : step.isText = false := by
  unfold comboOf at made
  split at made
  next => obtain rfl := Option.some.inj made; rfl
  next => cases made

/-- A macro's step types nothing by itself. -/
theorem isText_of_macroOf {name : Text} {step : Step} (isMacro : macroOf name = some (some step)) :
    step.isText = false := by
  unfold macroOf at isMacro
  split at isMacro
  next => exact isText_sleepStep (Option.some.inj isMacro)
  next =>
    split at isMacro
    next => exact isText_enterStep (Option.some.inj isMacro)
    next =>
      split at isMacro
      next => exact isText_comboOf (Option.some.inj isMacro)
      next =>
        obtain ⟨rest, _, made⟩ := Option.map_eq_some_iff.mp isMacro
        exact isText_comboOf made

/-- What is pushed is typed behind the rest. -/
theorem typed_pushText (steps : List Step) (text : Text) :
    (pushText steps text).flatMap Step.typed = steps.flatMap Step.typed ++ text := by
  by_cases empty : text = []
  · rw [pushText, if_pos empty, empty, List.append_nil]
  · obtain ⟨front, previous, rfl, pushed⟩ | ⟨_, pushed⟩ := pushText_cases steps empty
    · simp [pushed, Step.typed]
    · simp [pushed, Step.typed]

/-- The other steps are not touched. -/
theorem others_pushText (steps : List Step) (text : Text) :
    (pushText steps text).filter (!·.isText) = steps.filter (!·.isText) := by
  by_cases empty : text = []
  · rw [pushText, if_pos empty]
  · obtain ⟨front, previous, rfl, pushed⟩ | ⟨_, pushed⟩ := pushText_cases steps empty
    · simp [pushed, Step.isText]
    · simp [pushed, Step.isText]

/-- The one step that types a text; none for an empty one. -/
def typing (text : Text) : List Step := if text = [] then [] else [.text text]

theorem pushText_typing (front text : Text) :
    pushText (typing front) text = typing (front ++ text) := by
  by_cases empty : text = []
  · simp [pushText, empty]
  · by_cases start : front = []
    · simp [pushText, typing, empty, start]
    · simp [pushText, typing, empty, start]

/-! ### The words that begin a macro -/

def macroWords : List String := ["sleep", "enter", "ctrl", "alt"]

/-- A name that one of the words begins. -/
def IsMacro (name : Text) : Prop := ∃ word ∈ macroWords, word.toList <+: name

theorem stripPrefix_eq_none_iff {start : String} {text : Text} :
    Text.stripPrefix start text = none ↔ ¬ start.toList <+: text := by
  rw [Text.stripPrefix, ← List.isPrefixOf_iff_prefix]
  split
  next is => simp [is]
  next other => simp [other]

theorem macroOf_eq_none_iff {name : Text} : macroOf name = none ↔ ¬ IsMacro name := by
  have words : ¬ IsMacro name ↔ Text.stripPrefix "sleep" name = none ∧
      Text.stripPrefix "enter" name = none ∧ Text.stripPrefix "ctrl" name = none ∧
      Text.stripPrefix "alt" name = none := by
    simp [IsMacro, macroWords, stripPrefix_eq_none_iff]
  rw [words]
  unfold macroOf
  cases Text.stripPrefix "sleep" name with
  | some rest => simp
  | none =>
      cases Text.stripPrefix "enter" name with
      | some rest => simp
      | none => cases Text.stripPrefix "ctrl" name <;> simp

/-! ### The two walks -/

/-- The first server key that the caller has no value for. -/
def firstUnanswerable (context : SnippetContext) : List RawMatch → Option Text
  | [] => none
  | placeholder :: others =>
      if placeholder.name ∈ serverKeys ∧ context.get placeholder.name = none then
        some placeholder.name
      else firstUnanswerable context others

/-- `expand` refuses that key, and no other. -/
theorem expandFrom_refuses (script : Text) (context : SnippetContext) (found : List RawMatch)
    (out : Text) (cursor : Nat) :
    (∃ text, expandFrom script context out cursor found = .ok text ∧
      firstUnanswerable context found = none) ∨
    ∃ key, expandFrom script context out cursor found = .error (.unanswerable key) ∧
      firstUnanswerable context found = some key := by
  induction found generalizing out cursor with
  | nil => exact .inl ⟨_, rfl, rfl⟩
  | cons placeholder others inductionHypothesis =>
      rw [expandFrom, firstUnanswerable]
      by_cases key : placeholder.name ∈ serverKeys
      · rw [if_neg (not_not_intro key)]
        cases answer : context.get placeholder.name with
        | none => exact .inr ⟨placeholder.name, rfl, by rw [if_pos ⟨key, rfl⟩]⟩
        | some value => simpa using inductionHypothesis _ _
      · rw [if_pos key, if_neg fun both => key both.1]
        exact inductionHypothesis out cursor

section Plan

variable (lowercase : Text → Text)

/-- `plan` refuses it as well; what it accepts is spaced. -/
theorem stepsFrom_refuses (script : Text) (context : SnippetContext) (found : List RawMatch)
    {steps : List Step} (cursor : Nat) (spaced : Spaced steps) :
    (∃ planned, stepsFrom lowercase script context steps cursor found = .ok planned ∧
      Spaced planned ∧ firstUnanswerable context found = none) ∨
    ∃ key, stepsFrom lowercase script context steps cursor found = .error (.unanswerable key) ∧
      firstUnanswerable context found = some key := by
  induction found generalizing steps cursor with
  | nil => exact .inl ⟨_, rfl, spaced.pushText _, rfl⟩
  | cons placeholder others inductionHypothesis =>
      have before := spaced.pushText (slice script cursor placeholder.start)
      simp only [stepsFrom, firstUnanswerable]
      by_cases key : placeholder.name ∈ serverKeys
      · rw [if_pos key]
        cases answer : context.get placeholder.name with
        | none => exact .inr ⟨placeholder.name, rfl, by rw [if_pos ⟨key, rfl⟩]⟩
        | some value => simpa using inductionHypothesis placeholder.finish (before.pushText value)
      · rw [if_neg key, if_neg fun both => key both.1]
        cases isMacro : macroOf (lowercase placeholder.name) with
        | none => exact inductionHypothesis placeholder.finish (before.pushText _)
        | some made =>
            cases made with
            | none =>
                exact inductionHypothesis placeholder.finish (by simpa using before)
            | some step =>
                have silent := isText_of_macroOf isMacro
                have solid : step ≠ .text [] := by
                  rintro rfl
                  cases silent
                exact inductionHypothesis placeholder.finish
                  (before.concat solid fun last _ => .inr silent)

theorem slice_append_slice {script : Text} {start middle finish : Nat} (first : start ≤ middle)
    (second : middle ≤ finish) :
    slice script start middle ++ slice script middle finish = slice script start finish := by
  unfold slice
  rw [show finish - start = (middle - start) + (finish - middle) by omega, List.take_add,
    List.drop_drop, show start + (middle - start) = middle by omega]

theorem slice_append_drop {script : Text} {start middle : Nat} (first : start ≤ middle) :
    slice script start middle ++ script.drop middle = script.drop start := by
  unfold slice
  rw [show script.drop middle = (script.drop start).drop (middle - start) by
    rw [List.drop_drop, show start + (middle - start) = middle by omega],
    List.take_append_drop]

/-- Without macros the plan is the expansion, with what it passed over since the last key. -/
theorem stepsFrom_eq_expandFrom {script : Text} {context : SnippetContext}
    {found : List RawMatch} {reached : Nat} (leftmost : Leftmost script reached found)
    (plain : ∀ placeholder ∈ found, placeholder.name ∉ serverKeys →
      ¬ IsMacro (lowercase placeholder.name)) (cursor : Nat) (out : Text)
    (passed : cursor ≤ reached) :
    stepsFrom lowercase script context (typing (out ++ slice script cursor reached)) reached found =
      (expandFrom script context out cursor found).map typing := by
  induction leftmost generalizing cursor out with
  | done =>
      rw [stepsFrom, expandFrom, pushText_typing, List.append_assoc, slice_append_drop passed]
      rfl
  | @next reached placeholder others stands later first behind inductionHypothesis =>
      have rest := inductionHypothesis fun other among =>
        plain other (List.mem_cons_of_mem _ among)
      have long : placeholder.start ≤ placeholder.finish := by rw [stands.finished]; omega
      rw [stepsFrom, expandFrom, pushText_typing, List.append_assoc,
        slice_append_slice passed later]
      by_cases key : placeholder.name ∈ serverKeys
      · rw [if_pos key, if_neg (not_not_intro key)]
        cases context.get placeholder.name with
        | none => rfl
        | some value =>
            have tail := rest placeholder.finish
              (out ++ slice script cursor placeholder.start ++ value) (le_refl _)
            simpa only [pushText_typing, slice, Nat.sub_self, List.take_zero, List.append_nil]
              using tail
      · have noMacro := macroOf_eq_none_iff.mpr (plain placeholder List.mem_cons_self key)
        rw [if_neg key, if_pos key, noMacro, pushText_typing, List.append_assoc,
          slice_append_slice (passed.trans later) long]
        exact rest cursor out ((passed.trans later).trans long)

/-- For every script and every values: `plan` and `expand` refuse the first key without a value,
or both succeed. The plan is then spaced, and for a script without macros it is the one text that
`expand` returns. The placeholders are the leftmost of the script, one behind the other. -/
theorem plan_agrees_with_expand (script : Text) (context : SnippetContext) :
    (((∃ key, firstUnanswerable context (matchesOf script) = some key ∧
          plan lowercase script context = .error (.unanswerable key) ∧
          expand script context = .error (.unanswerable key)) ∨
        (firstUnanswerable context (matchesOf script) = none ∧
          ∃ steps text, plan lowercase script context = .ok steps ∧
            expand script context = .ok text)) ∧
      (∀ steps text, plan lowercase script context = .ok steps →
        expand script context = .ok text →
        (∀ placeholder ∈ matchesOf script, placeholder.name ∉ serverKeys →
          ¬ IsMacro (lowercase placeholder.name)) →
        steps = typing text)) ∧
    (Leftmost script 0 (matchesOf script) ∧
      (∀ found, Leftmost script 0 found → found = matchesOf script) ∧
      (placeholders script).Nodup ∧
      ∀ name, name ∈ placeholders script ↔ ∃ found ∈ matchesOf script, found.name = name) ∧
    ∀ steps, plan lowercase script context = .ok steps → Spaced steps := by
  have leftmost := matchesOf_leftmost script
  have planned := stepsFrom_refuses lowercase script context (matchesOf script) 0 spaced_nil
  refine ⟨⟨?_, fun steps text plans expands plain => ?_⟩,
    ⟨leftmost, fun found other => other.unique leftmost, placeholders_spec script⟩,
    fun steps plans => ?_⟩
  · rcases expandFrom_refuses script context (matchesOf script) [] 0 with
      ⟨text, expands, none⟩ | ⟨key, expands, first⟩
    · rcases planned with ⟨steps, plans, _⟩ | ⟨key, _, some⟩
      · exact .inr ⟨none, steps, text, plans, expands⟩
      · rw [none] at some
        cases some
    · rcases planned with ⟨_, _, _, none⟩ | ⟨key', plans, first'⟩
      · rw [none] at first
        cases first
      · obtain rfl := Option.some.inj (first.symm.trans first')
        exact .inl ⟨key, first, plans, expands⟩
  · have same := @stepsFrom_eq_expandFrom lowercase _ context _ _ leftmost plain 0 []
      (le_refl _)
    have whole : plan lowercase script context = (expand script context).map typing := same
    rw [plans, expands] at whole
    exact Except.ok.inj whole
  · rcases planned with ⟨steps', plans', spaced, _⟩ | ⟨key, plans', _⟩
    · rw [Except.ok.inj (plans.symm.trans plans')]
      exact spaced
    · cases plans.symm.trans plans'

/-! ### What is typed, and what is not -/

instance (name : Text) : Decidable (IsMacro name) :=
  inferInstanceAs (Decidable (∃ word ∈ macroWords, word.toList <+: name))

/-- The script from a position on, its server keys replaced and its macros left out. -/
def typedFrom (script : Text) (context : SnippetContext) (cursor : Nat) : List RawMatch → Text
  | [] => script.drop cursor
  | placeholder :: others =>
      slice script cursor placeholder.start ++
        (if placeholder.name ∈ serverKeys then (context.get placeholder.name).getD []
          else if IsMacro (lowercase placeholder.name) then []
          else slice script placeholder.start placeholder.finish) ++
        typedFrom script context placeholder.finish others

/-- The steps of the macros of a script. -/
def macroSteps : List RawMatch → List Step
  | [] => []
  | placeholder :: others =>
      (if placeholder.name ∈ serverKeys then []
        else ((macroOf (lowercase placeholder.name)).bind id).toList) ++ macroSteps others

/-- What the walk adds to a plan: those texts, and between them those steps. -/
theorem stepsFrom_types {script : Text} {context : SnippetContext} (found : List RawMatch)
    {steps planned : List Step} (cursor : Nat)
    (plans : stepsFrom lowercase script context steps cursor found = .ok planned) :
    planned.flatMap Step.typed =
        steps.flatMap Step.typed ++ typedFrom lowercase script context cursor found ∧
      planned.filter (!·.isText) = steps.filter (!·.isText) ++ macroSteps lowercase found := by
  induction found generalizing steps cursor with
  | nil =>
      obtain rfl := Except.ok.inj plans
      exact ⟨typed_pushText .., by rw [others_pushText, macroSteps, List.append_nil]⟩
  | cons placeholder others inductionHypothesis =>
      simp only [stepsFrom] at plans
      rw [typedFrom, macroSteps]
      by_cases key : placeholder.name ∈ serverKeys
      · rw [if_pos key] at plans
        cases answer : context.get placeholder.name with
        | none => rw [answer] at plans; cases plans
        | some value =>
            rw [answer] at plans
            obtain ⟨typed, silent⟩ := inductionHypothesis _ plans
            rw [typed, silent]
            simp [typed_pushText, others_pushText, key]
      · rw [if_neg key] at plans
        cases isMacro : macroOf (lowercase placeholder.name) with
        | none =>
            rw [isMacro] at plans
            obtain ⟨typed, silent⟩ := inductionHypothesis _ plans
            have plain := macroOf_eq_none_iff.mp isMacro
            rw [typed, silent]
            simp [typed_pushText, others_pushText, key, plain]
        | some made =>
            rw [isMacro] at plans
            obtain ⟨typed, silent⟩ := inductionHypothesis _ plans
            have macro_ : IsMacro (lowercase placeholder.name) := by
              by_contra plain
              rw [macroOf_eq_none_iff.mpr plain] at isMacro
              cases isMacro
            rw [typed, silent]
            cases made with
            | none => simp [typed_pushText, others_pushText, key, macro_]
            | some step =>
                have silent := isText_of_macroOf isMacro
                have nothing : step.typed = [] := by cases step <;> first | rfl | cases silent
                simp [typed_pushText, others_pushText, key, macro_, silent, nothing]

end Plan

end ServerBox.Script.Snippet
