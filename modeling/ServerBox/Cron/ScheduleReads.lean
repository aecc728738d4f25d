import ServerBox.Cron.ScheduleGrammar

/-!
# How the code reads a cron expression

Fields, signs and macros on top of the items. `readsExactly_iff` is the result: the code and the
grammar agree on every expression but those with a plus sign or with a step of 32 bits and more.
-/

namespace ServerBox.Cron

open ServerBox.Std

section Field

variable {names : List (String × Nat)} {min max : Nat}

/-! ### Fields -/

theorem parseTokens_eq_some_iff (named : Named names) (small : max < 2 ^ 32) (ordered : min ≤ max)
    {tokens : List Text}
    (solid : ∀ token ∈ tokens, ∀ char ∈ token, Text.isWhitespace char = false)
    {values : List Nat} :
    parseTokens min max names tokens = some values ↔
      ∃ items : List Item,
        (∀ item ∈ items, IsItem true names min max item ∧ item.step < 2 ^ 32) ∧
        items.map Item.text = tokens ∧ values = items.flatMap Item.values := by
  induction tokens generalizing values with
  | nil =>
      constructor
      · intro read
        exact ⟨[], nofun, rfl, (Option.some.inj read).symm⟩
      · rintro ⟨items, -, texts, rfl⟩
        rw [List.map_eq_nil_iff.mp texts]
        rfl
  | cons token tokens inductionHypothesis =>
      obtain ⟨here, rest⟩ := List.forall_mem_cons.mp solid
      have whole := Text.trim_eq_self here
      rw [parseTokens, whole]
      constructor
      · intro read
        obtain ⟨parsed, isParsed, later⟩ := Option.bind_eq_some_iff.mp read
        obtain ⟨others, isRest, same⟩ := Option.bind_eq_some_iff.mp later
        obtain ⟨item, is, bounded, rfl, rfl⟩ :=
          (parseToken_eq_some_iff named small ordered here).mp isParsed
        obtain ⟨items, are, texts, rfl⟩ := (inductionHypothesis rest).mp isRest
        refine ⟨item :: items, List.forall_mem_cons.mpr ⟨⟨is, bounded⟩, are⟩, ?_, ?_⟩
        · rw [List.map_cons, texts]
        · rw [← Option.some.inj same, List.flatMap_cons]
      · rintro ⟨items, are, texts, rfl⟩
        obtain ⟨item, items, rfl, rfl, rest'⟩ := List.map_eq_cons_iff.mp texts
        obtain ⟨⟨is, bounded⟩, are⟩ := List.forall_mem_cons.mp are
        rw [(parseToken_eq_some_iff named small ordered here).mpr ⟨item, is, bounded, rfl, rfl⟩,
          (inductionHypothesis rest).mpr ⟨items, are, rest', rfl⟩]
        rfl

theorem IsField.splitOn (named : Named names) {field : Text} {items : List Item}
    (isField : IsField true names min max field items) :
    field.splitOn ',' = items.map Item.text := by
  rw [isField.joined]
  refine List.splitOn_intercalate ',' (fun text held => ?_) (by simpa using isField.filled)
  obtain ⟨item, among, rfl⟩ := List.mem_map.mp held
  exact (isField.each item among).not_mem named (by decide) (by decide)

/-- The parts of a field have no whitespace where the field has none. -/
theorem solid_of_mem_splitOn {field token : Text}
    (solid : ∀ char ∈ field, Text.isWhitespace char = false) (among : token ∈ field.splitOn ',') :
    ∀ char ∈ token, Text.isWhitespace char = false :=
  fun char held => solid char (Text.mem_of_mem_splitOn among held)

/-- The code reads a field as the grammar does, if all its steps have 32 bits. -/
theorem parseField_eq_some_iff (named : Named names) (small : max < 2 ^ 32) (ordered : min ≤ max)
    {field : Text} (solid : ∀ char ∈ field, Text.isWhitespace char = false) {values : List Nat} :
    parseField field min max names = some values ↔
      ∃ items : List Item, IsField true names min max field items ∧
        (∀ item ∈ items, item.step < 2 ^ 32) ∧ values = sortedOnce (items.flatMap Item.values) := by
  have tokens {values : List Nat} :
      parseTokens min max names (field.splitOn ',') = some values ↔
        ∃ items : List Item,
          (∀ item ∈ items, IsItem true names min max item ∧ item.step < 2 ^ 32) ∧
          items.map Item.text = field.splitOn ',' ∧ values = items.flatMap Item.values :=
    parseTokens_eq_some_iff named small ordered fun token among => solid_of_mem_splitOn solid among
  unfold parseField
  constructor
  · intro read
    obtain ⟨parsed, isParsed, later⟩ := Option.bind_eq_some_iff.mp read
    obtain ⟨items, are, texts, rfl⟩ := tokens.mp isParsed
    split at later
    next => cases later
    next =>
      refine ⟨items, ⟨?_, fun item among => (are item among).1, ?_⟩,
        fun item among => (are item among).2, (Option.some.inj later).symm⟩
      · rintro rfl
        exact List.splitOn_ne_nil _ _ texts.symm
      · rw [texts]
        exact (List.intercalate_splitOn ',').symm
  · rintro ⟨items, isField, bounded, rfl⟩
    have read := tokens.mpr ⟨items, fun item among => ⟨isField.each item among,
      bounded item among⟩, (isField.splitOn named).symm, rfl⟩
    have filled : (items.flatMap Item.values).isEmpty = false := by
      obtain ⟨item, others, rfl⟩ := List.exists_cons_of_ne_nil isField.filled
      rw [List.isEmpty_eq_false_iff, List.flatMap_cons, Item.values, List.range_succ_eq_map]
      simp
    rw [read]
    simp only [filled, Bool.false_eq_true, if_false, Option.bind_eq_bind, Option.bind_some]

/-- A field is one list of items at most. -/
theorem IsField.unique (named : Named names) (small : max < 2 ^ 32) (ordered : min ≤ max)
    {field : Text} (solid : ∀ char ∈ field, Text.isWhitespace char = false)
    {items others : List Item} (isField : IsField true names min max field items)
    (other : IsField true names min max field others) : items = others := by
  have texts : items.map Item.text = others.map Item.text :=
    (isField.splitOn named).symm.trans (other.splitOn named)
  have solidItems : ∀ item ∈ items, ∀ char ∈ item.text, Text.isWhitespace char = false := by
    intro item among
    refine solid_of_mem_splitOn solid ?_
    rw [isField.splitOn named]
    exact List.mem_map_of_mem among
  have each := isField.each
  have each' := other.each
  clear isField other
  induction items generalizing others with
  | nil => exact (List.map_eq_nil_iff.mp texts.symm).symm
  | cons item items inductionHypothesis =>
      obtain ⟨item', others, rfl, same, texts'⟩ := List.map_eq_cons_iff.mp texts.symm
      obtain ⟨is, each⟩ := List.forall_mem_cons.mp each
      obtain ⟨is', rest'⟩ := List.forall_mem_cons.mp each'
      obtain ⟨solidItem, solidItems⟩ := List.forall_mem_cons.mp solidItems
      obtain rfl := is.unique named small ordered solidItem is' same.symm
      rw [inductionHypothesis texts'.symm solidItems each rest']

/-! ### Signs -/

theorem isValue_false_iff (named : Named names) {text : Text} {value : Nat} :
    IsValue false names min max text value ↔
      IsValue true names min max text value ∧ '+' ∉ text := by
  unfold IsValue
  rw [isNumber_false_iff]
  constructor
  · rintro ⟨⟨number, plain⟩ | ⟨name, known, same, value⟩, within_⟩
    · exact ⟨⟨.inl number, within_⟩, plain⟩
    · refine ⟨⟨.inr ⟨name, known, same, value⟩, within_⟩, fun held => ?_⟩
      rcases named.letters known same held with alpha | kelvin
      · cases alpha
      · cases kelvin
  · rintro ⟨⟨number | isName, within_⟩, plain⟩
    · exact ⟨.inl ⟨number, plain⟩, within_⟩
    · exact ⟨.inr isName, within_⟩

theorem span_false_iff (named : Named names) {text : Text} {first last toMax : Nat} :
    Span false names min max text first last toMax ↔
      Span true names min max text first last toMax ∧ '+' ∉ text := by
  constructor
  · intro span
    cases span with
    | every => exact ⟨.every, by decide⟩
    | value is =>
        obtain ⟨is, plain⟩ := (isValue_false_iff named).mp is
        exact ⟨.value is, plain⟩
    | between isLow isHigh ascending =>
        obtain ⟨isLow, plainLow⟩ := (isValue_false_iff named).mp isLow
        obtain ⟨isHigh, plainHigh⟩ := (isValue_false_iff named).mp isHigh
        exact ⟨.between isLow isHigh ascending, by simp [plainLow, plainHigh]⟩
  · rintro ⟨span, plain⟩
    cases span with
    | every => exact .every
    | value is => exact .value ((isValue_false_iff named).mpr ⟨is, plain⟩)
    | between isLow isHigh ascending =>
        simp only [List.mem_append, List.mem_cons, not_or] at plain
        exact .between ((isValue_false_iff named).mpr ⟨isLow, plain.1⟩)
          ((isValue_false_iff named).mpr ⟨isHigh, plain.2.2⟩) ascending

/-- What is read without signs is read with them, and has none. -/
theorem isItem_false_iff (named : Named names) {item : Item} :
    IsItem false names min max item ↔ IsItem true names min max item ∧ '+' ∉ item.text := by
  constructor
  · intro is
    cases is with
    | plain span =>
        obtain ⟨span, plain⟩ := (span_false_iff named).mp span
        exact ⟨.plain span, plain⟩
    | stepped span isStep positive =>
        obtain ⟨span, plain⟩ := (span_false_iff named).mp span
        obtain ⟨isStep, plainStep⟩ := isNumber_false_iff.mp isStep
        exact ⟨.stepped span isStep positive, by simp [plain, plainStep]⟩
  · rintro ⟨is, plain⟩
    cases is with
    | plain span => exact .plain ((span_false_iff named).mpr ⟨span, plain⟩)
    | stepped span isStep positive =>
        simp only [List.mem_append, List.mem_cons, not_or] at plain
        exact .stepped ((span_false_iff named).mpr ⟨span, plain.1⟩)
          (isNumber_false_iff.mpr ⟨isStep, plain.2.2⟩) positive

theorem isField_false_iff (named : Named names) {field : Text} {items : List Item} :
    IsField false names min max field items ↔
      IsField true names min max field items ∧ ∀ item ∈ items, '+' ∉ item.text := by
  constructor
  · rintro ⟨filled, each, joined⟩
    exact ⟨⟨filled, fun item among => ((isItem_false_iff named).mp (each item among)).1, joined⟩,
      fun item among => ((isItem_false_iff named).mp (each item among)).2⟩
  · rintro ⟨⟨filled, each, joined⟩, plain⟩
    exact ⟨filled, fun item among => (isItem_false_iff named).mpr
      ⟨each item among, plain item among⟩, joined⟩

end Field

/-! ### Expressions -/

theorem solid_of_mem_splitWhitespace {text word : Text} (among : word ∈ Text.splitWhitespace text) :
    ∀ char ∈ word, Text.isWhitespace char = false := by
  have pieces : ∀ piece ∈ text.splitOnP Text.isWhitespace,
      ∀ char ∈ piece, Text.isWhitespace char = false := by
    clear among
    induction text with
    | nil => simp
    | cons char rest inductionHypothesis =>
        rw [List.splitOnP_cons_eq_if_modifyHead]
        split
        next => exact List.forall_mem_cons.mpr ⟨nofun, inductionHypothesis⟩
        next solid =>
          obtain ⟨first, others, shape⟩ :=
            List.exists_cons_of_ne_nil (List.splitOnP_ne_nil Text.isWhitespace rest)
          rw [shape] at inductionHypothesis ⊢
          obtain ⟨here, later⟩ := List.forall_mem_cons.mp inductionHypothesis
          exact List.forall_mem_cons.mpr
            ⟨List.forall_mem_cons.mpr ⟨by simpa using solid, here⟩, later⟩
  exact pieces word (List.mem_filter.mp among).1

theorem mem_of_mem_splitWhitespace {text word : Text} (among : word ∈ Text.splitWhitespace text)
    {char : Char} (held : char ∈ word) : char ∈ text := by
  have pieces : ∀ piece ∈ text.splitOnP Text.isWhitespace, ∀ char ∈ piece, char ∈ text := by
    clear among held
    induction text with
    | nil => simp
    | cons first rest inductionHypothesis =>
        rw [List.splitOnP_cons_eq_if_modifyHead]
        have later : ∀ piece ∈ rest.splitOnP Text.isWhitespace, ∀ char ∈ piece,
            char ∈ first :: rest := fun piece among char held =>
          List.mem_cons_of_mem _ (inductionHypothesis piece among char held)
        split
        next => exact List.forall_mem_cons.mpr ⟨nofun, later⟩
        next =>
          obtain ⟨piece, pieces, shape⟩ :=
            List.exists_cons_of_ne_nil (List.splitOnP_ne_nil Text.isWhitespace rest)
          rw [shape] at later ⊢
          obtain ⟨here, later⟩ := List.forall_mem_cons.mp later
          exact List.forall_mem_cons.mpr
            ⟨List.forall_mem_cons.mpr ⟨List.mem_cons_self, here⟩, later⟩
  exact pieces word (List.mem_filter.mp among).1 char held

theorem isFields_false_iff {expression : Text} {items : Items} :
    IsFields false expression items ↔
      IsFields true expression items ∧ ∀ item ∈ items.all, '+' ∉ item.text := by
  simp only [IsFields, isField_false_iff named_nil, isField_false_iff named_monthNames,
    isField_false_iff named_dayNames, Items.all, List.mem_append, or_imp, forall_and]
  constructor
  · rintro ⟨minute, hour, dayOfMonth, month, dayOfWeek, words, ⟨is₁, plain₁⟩, ⟨is₂, plain₂⟩,
      ⟨is₃, plain₃⟩, ⟨is₄, plain₄⟩, is₅, plain₅⟩
    exact ⟨⟨minute, hour, dayOfMonth, month, dayOfWeek, words, is₁, is₂, is₃, is₄, is₅⟩,
      ⟨⟨⟨plain₁, plain₂⟩, plain₃⟩, plain₄⟩, plain₅⟩
  · rintro ⟨⟨minute, hour, dayOfMonth, month, dayOfWeek, words, is₁, is₂, is₃, is₄, is₅⟩,
      ⟨⟨⟨plain₁, plain₂⟩, plain₃⟩, plain₄⟩, plain₅⟩
    exact ⟨minute, hour, dayOfMonth, month, dayOfWeek, words, ⟨is₁, plain₁⟩, ⟨is₂, plain₂⟩,
      ⟨is₃, plain₃⟩, ⟨is₄, plain₄⟩, is₅, plain₅⟩

theorem IsFields.unique {expression : Text} {items others : Items}
    (isFields : IsFields true expression items) (other : IsFields true expression others) :
    items = others := by
  obtain ⟨minute, hour, dayOfMonth, month, dayOfWeek, words, is₁, is₂, is₃, is₄, is₅⟩ := isFields
  obtain ⟨_, _, _, _, _, words', is₁', is₂', is₃', is₄', is₅'⟩ := other
  rw [words] at words'
  simp only [List.cons.injEq, and_true] at words'
  obtain ⟨rfl, rfl, rfl, rfl, rfl⟩ := words'
  have solid : ∀ word ∈ [minute, hour, dayOfMonth, month, dayOfWeek], ∀ char ∈ word,
      Text.isWhitespace char = false := by
    rw [← words]
    exact fun word => solid_of_mem_splitWhitespace
  have same₁ := is₁.unique named_nil (by decide) (by decide) (solid minute (by simp)) is₁'
  have same₂ := is₂.unique named_nil (by decide) (by decide) (solid hour (by simp)) is₂'
  have same₃ := is₃.unique named_nil (by decide) (by decide) (solid dayOfMonth (by simp)) is₃'
  have same₄ := is₄.unique named_monthNames (by decide) (by decide) (solid month (by simp)) is₄'
  have same₅ := is₅.unique named_dayNames (by decide) (by decide) (solid dayOfWeek (by simp)) is₅'
  cases items
  cases others
  simp_all

theorem mem_sortedOnce_values {names : List (String × Nat)} {min max : Nat} (ordered : min ≤ max)
    {field : Text} {items : List Item} (isField : IsField true names min max field items)
    (value : Nat) : value ∈ sortedOnce (items.flatMap Item.values) ↔ Lists items value := by
  rw [mem_sortedOnce, List.mem_flatMap]
  refine exists_congr fun item => and_congr_right fun among => ?_
  obtain ⟨positive, ascending⟩ := (isField.each item among).ascending ordered
  exact Item.mem_values positive ascending

theorem le_of_lists {names : List (String × Nat)} {min max : Nat} {field : Text}
    {items : List Item} (isField : IsField true names min max field items) {value : Nat}
    (listed : Lists items value) : value ≤ max := by
  obtain ⟨item, among, place, -, most⟩ := listed
  refine most.trans ?_
  have spans {text : Text} {first last toMax : Nat}
      (span : Span true names min max text first last toMax) : last ≤ max ∧ toMax ≤ max := by
    cases span with
    | every => exact ⟨le_refl _, le_refl _⟩
    | value is => exact ⟨is.2.2, le_refl _⟩
    | between _ isHigh => exact ⟨isHigh.2.2, isHigh.2.2⟩
  cases isField.each item among with
  | plain span => exact (spans span).1
  | stepped span => exact (spans span).2

/-- The code reads five fields as the grammar does, with signs and if all steps have 32 bits. -/
theorem of_parseFields {expression : Text} {schedule : CronSchedule}
    (read : parseFields (Text.trim expression) = some schedule) :
    ∃ items, IsFields true expression items ∧ (∀ item ∈ items.all, item.step < 2 ^ 32) ∧
      schedule.Holds items := by
  unfold parseFields at read
  split at read
  next minute hour dayOfMonth month dayOfWeek words =>
    have solid : ∀ word ∈ [minute, hour, dayOfMonth, month, dayOfWeek], ∀ char ∈ word,
        Text.isWhitespace char = false := by
      rw [← words]
      exact fun word => solid_of_mem_splitWhitespace
    obtain ⟨minutes, read₁, later⟩ := Option.bind_eq_some_iff.mp read
    obtain ⟨hours, read₂, later⟩ := Option.bind_eq_some_iff.mp later
    obtain ⟨daysOfMonth, read₃, later⟩ := Option.bind_eq_some_iff.mp later
    obtain ⟨months, read₄, later⟩ := Option.bind_eq_some_iff.mp later
    obtain ⟨daysOfWeek, read₅, same⟩ := Option.bind_eq_some_iff.mp later
    obtain ⟨items₁, is₁, small₁, rfl⟩ := (parseField_eq_some_iff named_nil (by decide)
      (by decide) (solid minute (by simp))).mp read₁
    obtain ⟨items₂, is₂, small₂, rfl⟩ := (parseField_eq_some_iff named_nil (by decide)
      (by decide) (solid hour (by simp))).mp read₂
    obtain ⟨items₃, is₃, small₃, rfl⟩ := (parseField_eq_some_iff named_nil (by decide)
      (by decide) (solid dayOfMonth (by simp))).mp read₃
    obtain ⟨items₄, is₄, small₄, rfl⟩ := (parseField_eq_some_iff named_monthNames (by decide)
      (by decide) (solid month (by simp))).mp read₄
    obtain ⟨items₅, is₅, small₅, rfl⟩ := (parseField_eq_some_iff named_dayNames (by decide)
      (by decide) (solid dayOfWeek (by simp))).mp read₅
    obtain rfl := Option.some.inj same
    refine ⟨⟨items₁, items₂, items₃, items₄, items₅⟩,
      ⟨minute, hour, dayOfMonth, month, dayOfWeek, words, is₁, is₂, is₃, is₄, is₅⟩, ?_, ?_⟩
    · simp only [Items.all, List.mem_append, or_imp, forall_and]
      exact ⟨⟨⟨⟨small₁, small₂⟩, small₃⟩, small₄⟩, small₅⟩
    · refine ⟨mem_sortedOnce_values (by decide) is₁, mem_sortedOnce_values (by decide) is₂,
        mem_sortedOnce_values (by decide) is₃, mem_sortedOnce_values (by decide) is₄,
        fun value => ?_, rfl⟩
      rw [mem_sortedOnce, List.mem_map]
      refine exists_congr fun day => ?_
      rw [mem_sortedOnce_values (by decide) is₅]
      refine and_congr_right fun listed => ?_
      have most := le_of_lists is₅ listed
      rw [eq_comm]
      split <;> omega
  next => cases read

theorem parseFields_of {expression : Text} {items : Items}
    (isFields : IsFields true expression items) (small : ∀ item ∈ items.all, item.step < 2 ^ 32) :
    ∃ schedule, parseFields (Text.trim expression) = some schedule := by
  obtain ⟨minute, hour, dayOfMonth, month, dayOfWeek, words, is₁, is₂, is₃, is₄, is₅⟩ := isFields
  have solid : ∀ word ∈ [minute, hour, dayOfMonth, month, dayOfWeek], ∀ char ∈ word,
      Text.isWhitespace char = false := by
    rw [← words]
    exact fun word => solid_of_mem_splitWhitespace
  simp only [Items.all, List.mem_append, or_imp, forall_and] at small
  obtain ⟨⟨⟨⟨small₁, small₂⟩, small₃⟩, small₄⟩, small₅⟩ := small
  have read₁ := (parseField_eq_some_iff named_nil (by decide) (by decide)
    (solid minute (by simp))).mpr ⟨_, is₁, small₁, rfl⟩
  have read₂ := (parseField_eq_some_iff named_nil (by decide) (by decide)
    (solid hour (by simp))).mpr ⟨_, is₂, small₂, rfl⟩
  have read₃ := (parseField_eq_some_iff named_nil (by decide) (by decide)
    (solid dayOfMonth (by simp))).mpr ⟨_, is₃, small₃, rfl⟩
  have read₄ := (parseField_eq_some_iff named_monthNames (by decide) (by decide)
    (solid month (by simp))).mpr ⟨_, is₄, small₄, rfl⟩
  have read₅ := (parseField_eq_some_iff named_dayNames (by decide) (by decide)
    (solid dayOfWeek (by simp))).mpr ⟨_, is₅, small₅, rfl⟩
  simp only [parseFields, words, read₁, read₂, read₃, read₄, read₅, Option.bind_eq_bind,
    Option.bind_some]
  exact ⟨_, rfl⟩

/-! ### Macros -/

/-- What begins with `@` is no five fields. -/
theorem not_isFields_at {expression name : Text}
    (isMacro : Text.trim expression = '@' :: name) (items : Items) :
    ¬ IsFields true expression items := by
  rintro ⟨minute, _, _, _, _, words, isField, -⟩
  have first : minute.head? = some '@' := by
    rw [isMacro, Text.splitWhitespace, List.splitOnP_cons_eq_if_modifyHead,
      if_neg (by decide)] at words
    obtain ⟨piece, pieces, shape⟩ :=
      List.exists_cons_of_ne_nil (List.splitOnP_ne_nil Text.isWhitespace name)
    rw [shape, List.modifyHead_cons, List.filter_cons_of_pos (by rfl)] at words
    obtain ⟨rfl, -⟩ := List.cons.inj words
    rfl
  have held := List.mem_of_mem_head? first
  rw [isField.joined] at held
  rcases Text.mem_join held with comma | ⟨text, among, here⟩
  · cases comma
  · obtain ⟨item, isItem, rfl⟩ := List.mem_map.mp among
    exact (isField.each item isItem).not_mem named_nil (by decide) (by decide) here

theorem IsField.mem {names : List (String × Nat)} {min max : Nat} {field : Text}
    {items : List Item} (isField : IsField true names min max field items) {item : Item}
    (among : item ∈ items) {char : Char} (held : char ∈ item.text) : char ∈ field := by
  rw [isField.joined]
  exact Text.mem_join_of_mem ',' (List.mem_map_of_mem among) held

/-- The items of an expression are written in it. -/
theorem IsFields.mem {expression : Text} {items : Items} (isFields : IsFields true expression items)
    {item : Item} (among : item ∈ items.all) {char : Char} (held : char ∈ item.text) :
    char ∈ Text.trim expression := by
  obtain ⟨minute, hour, dayOfMonth, month, dayOfWeek, words, is₁, is₂, is₃, is₄, is₅⟩ := isFields
  have inside : ∀ word ∈ [minute, hour, dayOfMonth, month, dayOfWeek], ∀ char ∈ word,
      char ∈ Text.trim expression := by
    rw [← words]
    exact fun word among char => mem_of_mem_splitWhitespace among
  simp only [Items.all, List.mem_append] at among
  rcases among with (((among | among) | among) | among) | among
  · exact inside minute (by simp) char (is₁.mem among held)
  · exact inside hour (by simp) char (is₂.mem among held)
  · exact inside dayOfMonth (by simp) char (is₃.mem among held)
  · exact inside month (by simp) char (is₄.mem among held)
  · exact inside dayOfWeek (by simp) char (is₅.mem among held)

/-- What the macros stand for is read, and is in the grammar. -/
theorem macro_accepted {known : String × String} (among : known ∈ macros) :
    ∃ items schedule, parseFields known.2.toList = some schedule ∧
      IsFields false known.2.toList items ∧ schedule.Holds items := by
  have accepted : ∀ known ∈ macros, (parseFields known.2.toList).isSome = true ∧
      Text.trim known.2.toList = known.2.toList ∧ '+' ∉ known.2.toList := by
    decide +kernel
  obtain ⟨read, trimmed, noSign⟩ := accepted known among
  obtain ⟨schedule, read⟩ := Option.isSome_iff_exists.mp read
  obtain ⟨items, isFields, -, holds⟩ := of_parseFields (trimmed.symm ▸ read)
  have plain : ∀ item ∈ items.all, '+' ∉ item.text := fun item among sign =>
    noSign (trimmed ▸ isFields.mem among sign)
  exact ⟨items, schedule, read, isFields_false_iff.mpr ⟨isFields, plain⟩, holds⟩

theorem tryParse_at {expression name : Text} (isMacro : Text.trim expression = '@' :: name) :
    tryParse expression =
      if '@' :: lowercase name = "@reboot".toList then some reboot
      else match macros.find? fun known => known.1.toList = '@' :: lowercase name with
        | some (_, expanded) => parseFields expanded.toList
        | none => none := by
  rw [tryParse, isMacro]
  rfl

theorem tryParse_fields {expression : Text} (other : ∀ name, Text.trim expression ≠ '@' :: name) :
    tryParse expression = parseFields (Text.trim expression) := by
  rw [tryParse]
  dsimp only
  split
  next empty =>
    rw [List.isEmpty_iff.mp empty]
    rfl
  next =>
    split
    next name is => exact absurd is (other name)
    next => rfl

/-- The code reads a macro, and what begins like one, as the grammar does. -/
theorem readsExactly_at {expression name : Text}
    (isMacro : Text.trim expression = '@' :: name) : ReadsExactly expression := by
  have same {other : Text} (trim : Text.trim expression = '@' :: other) : other = name :=
    (List.cons.inj (trim.symm.trans isMacro)).2
  have read := tryParse_at isMacro
  by_cases isReboot : '@' :: lowercase name = "@reboot".toList
  · rw [if_pos isReboot] at read
    have is : IsReboot expression := ⟨name, isMacro, isReboot⟩
    refine ⟨iff_of_true ⟨reboot, read⟩ (.inl is), fun schedule accepted => ?_⟩
    obtain rfl := Option.some.inj (read.symm.trans accepted)
    exact .reboot is
  · rw [if_neg isReboot] at read
    cases found : macros.find? fun known => known.1.toList = '@' :: lowercase name with
    | some known =>
        rw [found] at read
        have among := List.mem_of_find?_eq_some found
        have is : IsMacro expression known.2.toList :=
          ⟨name, isMacro, known, among, by simpa using List.find?_some found, rfl⟩
        obtain ⟨items, schedule, expanded, isFields, holds⟩ := macro_accepted among
        refine ⟨iff_of_true ⟨schedule, read.trans expanded⟩ (.inr (.inl ⟨_, is⟩)),
          fun other accepted => ?_⟩
        obtain rfl := Option.some.inj ((read.trans expanded).symm.trans accepted)
        exact .expanded is isFields holds
    | none =>
        rw [found] at read
        refine ⟨iff_of_false ?_ ?_, fun schedule accepted => by
          rw [read] at accepted
          cases accepted⟩
        · rintro ⟨schedule, accepted⟩
          rw [read] at accepted
          cases accepted
        · rintro (⟨other, trim, is⟩ | ⟨expanded, other, trim, known, among, is, -⟩ | ⟨items, is⟩)
          · exact isReboot (same trim ▸ is)
          · have none := List.find?_eq_none.mp found known among
            simp [is, same trim] at none
          · exact not_isFields_at isMacro items (isFields_false_iff.mp is).1

/-- `try_parse` reads an expression as the grammar does if and only if, where it is five fields
with plus signs allowed, it has a plus sign exactly if it has a step that needs more than 32
bits. -/
theorem readsExactly_iff (expression : Text) :
    ReadsExactly expression ↔ ∀ items, IsFields true expression items →
      ((∃ item ∈ items.all, '+' ∈ item.text) ↔ ∃ item ∈ items.all, 2 ^ 32 ≤ item.step) := by
  by_cases isMacro : ∃ name, Text.trim expression = '@' :: name
  · obtain ⟨name, isMacro⟩ := isMacro
    exact iff_of_true (readsExactly_at isMacro) fun items isFields =>
      absurd isFields (not_isFields_at isMacro items)
  · rw [not_exists] at isMacro
    have read := tryParse_fields isMacro
    have grammar : InGrammar expression ↔ ∃ items, IsFields false expression items := by
      constructor
      · rintro (⟨name, is, -⟩ | ⟨_, name, is, -⟩ | fields)
        · exact absurd is (isMacro name)
        · exact absurd is (isMacro name)
        · exact fields
      · exact fun fields => .inr (.inr fields)
    constructor
    · intro exactly items isFields
      have accepts := exactly.accepts
      rw [read, grammar] at accepts
      constructor
      · rintro ⟨item, among, sign⟩
        by_contra small
        have small : ∀ item ∈ items.all, item.step < 2 ^ 32 := by simpa using small
        obtain ⟨items', isFields'⟩ := accepts.mp (parseFields_of isFields small)
        obtain ⟨wide, plain⟩ := isFields_false_iff.mp isFields'
        obtain rfl := wide.unique isFields
        exact plain item among sign
      · rintro ⟨item, among, long⟩
        by_contra plain
        have plain : ∀ item ∈ items.all, '+' ∉ item.text := by simpa using plain
        obtain ⟨schedule, accepted⟩ :=
          accepts.mpr ⟨items, isFields_false_iff.mpr ⟨isFields, plain⟩⟩
        obtain ⟨items', wide, small, -⟩ := of_parseFields accepted
        obtain rfl := wide.unique isFields
        exact absurd (small item among) (by omega)
    · intro agrees
      have strict {schedule : CronSchedule}
          (accepted : parseFields (Text.trim expression) = some schedule) :
          ∃ items, IsFields false expression items ∧ schedule.Holds items := by
        obtain ⟨items, wide, small, holds⟩ := of_parseFields accepted
        refine ⟨items, isFields_false_iff.mpr ⟨wide, fun item among sign => ?_⟩, holds⟩
        obtain ⟨other, among, long⟩ := (agrees items wide).mp ⟨item, among, sign⟩
        exact absurd (small other among) (by omega)
      constructor
      · rw [read, grammar]
        constructor
        · rintro ⟨schedule, accepted⟩
          obtain ⟨items, isFields, -⟩ := strict accepted
          exact ⟨items, isFields⟩
        · rintro ⟨items, isFields⟩
          obtain ⟨wide, plain⟩ := isFields_false_iff.mp isFields
          refine parseFields_of wide fun item among => ?_
          by_contra long
          obtain ⟨other, among, sign⟩ := (agrees items wide).mpr ⟨item, among, by omega⟩
          exact plain other among sign
      · intro schedule accepted
        rw [read] at accepted
        obtain ⟨items, isFields, holds⟩ := strict accepted
        exact .fields isFields holds

/-- `+5` is read as a minute. -/
theorem not_readsExactly_plus : ¬ ReadsExactly "+5 * * * *".toList := by
  intro exactly
  have accepted : (tryParse "+5 * * * *".toList).isSome = true := by decide +kernel
  have noMacro : (Text.trim "+5 * * * *".toList).head? ≠ some '@' := by decide
  have first : (Text.splitWhitespace (Text.trim "+5 * * * *".toList)).head? =
      some "+5".toList := by decide
  rcases exactly.accepts.mp (Option.isSome_iff_exists.mp accepted) with
    ⟨name, is, -⟩ | ⟨_, name, is, -⟩ | ⟨items, is⟩
  · exact noMacro (by rw [is]; rfl)
  · exact noMacro (by rw [is]; rfl)
  · obtain ⟨-, plain⟩ := isFields_false_iff.mp is
    obtain ⟨minute, _, _, _, _, words, isField, -⟩ := is
    rw [words] at first
    obtain rfl := Option.some.inj first
    have sign : '+' ∈ Text.join ',' (items.minutes.map Item.text) :=
      isField.joined ▸ (by decide : '+' ∈ "+5".toList)
    rcases Text.mem_join sign with comma | ⟨text, among, here⟩
    · cases comma
    · obtain ⟨item, isItem, rfl⟩ := List.mem_map.mp among
      exact plain item (by simp [Items.all, isItem]) here

end ServerBox.Cron
