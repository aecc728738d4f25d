import ServerBox.Cron.Schedule
import Mathlib

/-!
# The grammar of a cron expression

What `try_parse` has to accept: a macro, or five fields, each of them items with commas between,
and an item `*`, a value or two values with a dash, with a step after a slash or without. The
grammar says which values a field lists. The code reads the same grammar with its numbers wider in
one way, a plus sign may stand before their digits, and narrower in another, a step has 32 bits.
-/

namespace ServerBox.Cron

open ServerBox.Std

/-! ### The grammar -/

/-- A number in decimal digits; where signs are read, a plus sign may stand before them. -/
def IsNumber (signs : Bool) (text : Text) (number : Nat) : Prop :=
  ∃ digits, (text = digits ∨ signs = true ∧ text = '+' :: digits) ∧ digits ≠ [] ∧
    (∀ char ∈ digits, char.isDigit = true) ∧ Text.digitsValue digits = number

section Field

variable (signs : Bool) (names : List (String × Nat)) (min max : Nat)

/-- A value of a field: a number, or one of the field's names in any case, within its bounds. -/
def IsValue (text : Text) (value : Nat) : Prop :=
  (IsNumber signs text value ∨ ∃ name ∈ names, name.1.toList = lowercase text ∧ name.2 = value) ∧
    min ≤ value ∧ value ≤ max

/-- The values of a text without a step: its first, its last, and the last where a step follows. -/
inductive Span : Text → Nat → Nat → Nat → Prop
  | every : Span ['*'] min max max
  | value {text : Text} {value : Nat} (is : IsValue signs names min max text value) :
      Span text value value max
  | between {low high : Text} {first last : Nat} (isLow : IsValue signs names min max low first)
      (isHigh : IsValue signs names min max high last) (ascending : first ≤ last) :
      Span (low ++ '-' :: high) first last last

/-- One item of a field, with what it lists. -/
structure Item where
  text : Text
  first : Nat
  last : Nat
  step : Nat

/-- From the first value to the last, in steps. -/
def Item.Lists (item : Item) (value : Nat) : Prop :=
  ∃ place, value = item.first + item.step * place ∧ value ≤ item.last

inductive IsItem : Item → Prop
  | plain {text : Text} {first last toMax : Nat}
      (span : Span signs names min max text first last toMax) : IsItem ⟨text, first, last, 1⟩
  | stepped {text number : Text} {first last toMax step : Nat}
      (span : Span signs names min max text first last toMax)
      (isStep : IsNumber signs number step) (positive : 0 < step) :
      IsItem ⟨text ++ '/' :: number, first, toMax, step⟩

/-- A field: one item or more, with commas between. -/
structure IsField (field : Text) (items : List Item) : Prop where
  filled : items ≠ []
  each : ∀ item ∈ items, IsItem signs names min max item
  joined : field = Text.join ',' (items.map Item.text)

end Field

/-- The items of the five fields. -/
structure Items where
  minutes : List Item
  hours : List Item
  daysOfMonth : List Item
  months : List Item
  daysOfWeek : List Item

def Items.all (items : Items) : List Item :=
  items.minutes ++ items.hours ++ items.daysOfMonth ++ items.months ++ items.daysOfWeek

/-- Five fields. -/
def IsFields (signs : Bool) (expression : Text) (items : Items) : Prop :=
  ∃ minute hour dayOfMonth month dayOfWeek,
    Text.splitWhitespace (Text.trim expression) = [minute, hour, dayOfMonth, month, dayOfWeek] ∧
    IsField signs [] 0 59 minute items.minutes ∧
    IsField signs [] 0 23 hour items.hours ∧
    IsField signs [] 1 31 dayOfMonth items.daysOfMonth ∧
    IsField signs monthNames 1 12 month items.months ∧
    IsField signs dayNames 0 7 dayOfWeek items.daysOfWeek

/-- The union of what the items list. -/
def Lists (items : List Item) (value : Nat) : Prop := ∃ item ∈ items, item.Lists value

/-- A schedule's sets are those that its five fields list; weekday 7 is read as 0. -/
structure CronSchedule.Holds (schedule : CronSchedule) (items : Items) : Prop where
  minutes : ∀ value, value ∈ schedule.minutes ↔ Lists items.minutes value
  hours : ∀ value, value ∈ schedule.hours ↔ Lists items.hours value
  daysOfMonth : ∀ value, value ∈ schedule.daysOfMonth ↔ Lists items.daysOfMonth value
  months : ∀ value, value ∈ schedule.months ↔ Lists items.months value
  daysOfWeek : ∀ value, value ∈ schedule.daysOfWeek ↔
    ∃ day, Lists items.daysOfWeek day ∧ value = if day = 7 then 0 else day
  isReboot : schedule.isReboot = false

/-- A macro that stands for five fields. -/
def IsMacro (expression expanded : Text) : Prop :=
  ∃ name, Text.trim expression = '@' :: name ∧
    ∃ known ∈ macros, known.1.toList = '@' :: lowercase name ∧ known.2.toList = expanded

def IsReboot (expression : Text) : Prop :=
  ∃ name, Text.trim expression = '@' :: name ∧ '@' :: lowercase name = "@reboot".toList

/-- What an expression of the grammar means. -/
inductive Means (expression : Text) : CronSchedule → Prop
  | reboot (is : IsReboot expression) : Means expression reboot
  | expanded {expanded : Text} {items : Items} {schedule : CronSchedule}
      (is : IsMacro expression expanded) (fields : IsFields false expanded items)
      (holds : schedule.Holds items) : Means expression schedule
  | fields {items : Items} {schedule : CronSchedule} (fields : IsFields false expression items)
      (holds : schedule.Holds items) : Means expression schedule

/-- A known macro, or five fields. -/
def InGrammar (expression : Text) : Prop :=
  IsReboot expression ∨ (∃ expanded, IsMacro expression expanded) ∨
    ∃ items, IsFields false expression items

/-- `try_parse` accepts an expression if the grammar has it, only then, and with its meaning. -/
structure ReadsExactly (expression : Text) : Prop where
  accepts : (∃ schedule, tryParse expression = some schedule) ↔ InGrammar expression
  means : ∀ schedule, tryParse expression = some schedule → Means expression schedule

/-! ### Numbers -/

theorem parseUnsigned_eq_some_iff {bound number : Nat} {text : Text} :
    Text.parseUnsigned bound text = some number ↔ IsNumber true text number ∧ number ≤ bound := by
  constructor
  · intro parsed
    obtain ⟨digits, shape, filled, digit, value, bounded⟩ := Text.of_parseUnsigned parsed
    exact ⟨⟨digits, shape.imp id fun plus => ⟨rfl, plus⟩, filled, digit, value⟩, bounded⟩
  · rintro ⟨⟨digits, shape, filled, digit, rfl⟩, bounded⟩
    have read : (if text.head? = some '+' then text.tail else text) = digits := by
      rcases shape with rfl | ⟨-, rfl⟩
      · rw [if_neg]
        intro plus
        have := digit '+' (List.mem_of_mem_head? plus)
        cases this
      · rfl
    have valid : (!digits.isEmpty && digits.all Char.isDigit &&
        decide (Text.digitsValue digits ≤ bound)) = true := by
      simp only [Bool.and_eq_true, Bool.not_eq_true', List.isEmpty_eq_false_iff,
        List.all_eq_true, decide_eq_true_eq]
      exact ⟨⟨filled, digit⟩, bounded⟩
    rw [Text.parseUnsigned]
    rw [read, if_pos valid]

theorem IsNumber.unique {text : Text} {first second : Nat} (is : IsNumber true text first)
    (other : IsNumber true text second) : first = second := by
  have read := parseUnsigned_eq_some_iff.mpr ⟨is, Nat.le_max_left first second⟩
  have read' := parseUnsigned_eq_some_iff.mpr ⟨other, Nat.le_max_right first second⟩
  exact Option.some.inj (read.symm.trans read')

/-- Without signs: the same, for a text without a plus sign. -/
theorem isNumber_false_iff {text : Text} {number : Nat} :
    IsNumber false text number ↔ IsNumber true text number ∧ '+' ∉ text := by
  have absent {digits : Text} (digit : ∀ char ∈ digits, char.isDigit = true) : '+' ∉ digits :=
    fun held => by cases digit '+' held
  constructor
  · rintro ⟨digits, rfl | ⟨impossible, -⟩, filled, digit, value⟩
    · exact ⟨⟨text, .inl rfl, filled, digit, value⟩, absent digit⟩
    · cases impossible
  · rintro ⟨⟨digits, rfl | ⟨-, rfl⟩, filled, digit, value⟩, plain⟩
    · exact ⟨text, .inl rfl, filled, digit, value⟩
    · exact absurd List.mem_cons_self plain

theorem IsNumber.mem {signs : Bool} {text : Text} {number : Nat} (is : IsNumber signs text number)
    {char : Char} (held : char ∈ text) : char = '+' ∨ char.isDigit = true := by
  obtain ⟨digits, rfl | ⟨-, rfl⟩, -, digit, -⟩ := is
  · exact .inr (digit char held)
  · exact (List.mem_cons.mp held).imp id (digit char)

/-! ### Values -/

/-- Names that are told apart, from one another and from numbers. -/
structure Named (names : List (String × Nat)) : Prop where
  filled : ∀ name ∈ names, name.1.toList ≠ []
  lower : ∀ name ∈ names, ∀ char ∈ name.1.toList, char.isLower = true
  apart : names.Pairwise fun name other => name.1 ≠ other.1

theorem named_nil : Named [] := ⟨nofun, nofun, .nil⟩

theorem named_monthNames : Named monthNames := ⟨by decide, by decide, by decide⟩

theorem named_dayNames : Named dayNames := ⟨by decide, by decide, by decide⟩

/-- What a name is written with. -/
def IsLetter (char : Char) : Prop := char.isAlpha = true ∨ char = '\u212A'

theorem Named.letters {names : List (String × Nat)} (named : Named names) {name : String × Nat}
    (known : name ∈ names) {text : Text} (same : name.1.toList = lowercase text) {char : Char}
    (held : char ∈ text) : IsLetter char := by
  have lower := named.lower name known
  rw [same, lowercase, List.forall_mem_map] at lower
  have here := lower char held
  by_cases kelvin : char = '\u212A'
  · exact .inr kelvin
  · rw [if_neg kelvin] at here
    left
    rw [Char.isAlpha, Bool.or_eq_true]
    unfold Char.toLower at here
    split at here
    next upper =>
      left
      simpa [Char.isUpper] using upper
    next => exact .inr here

theorem IsLetter.not_isDigit {char : Char} (letter : IsLetter char) : char.isDigit = false := by
  rcases letter with alpha | rfl
  · rw [Bool.eq_false_iff]
    intro digit
    simp only [Char.isAlpha, Char.isUpper, Char.isLower, Char.isDigit, Bool.or_eq_true,
      Bool.and_eq_true, decide_eq_true_eq] at alpha digit
    have above : char.toNat ≤ 57 := UInt32.le_iff_toNat_le.mp digit.2
    rcases alpha with upper | lower
    · have below : 65 ≤ char.toNat := UInt32.le_iff_toNat_le.mp upper.1
      omega
    · have below : 97 ≤ char.toNat := UInt32.le_iff_toNat_le.mp lower.1
      omega
  · rfl

/-- A name is no number. -/
theorem Named.not_isNumber {names : List (String × Nat)} (named : Named names)
    {name : String × Nat} (known : name ∈ names) {text : Text}
    (same : name.1.toList = lowercase text) (number : Nat) : ¬ IsNumber true text number := by
  intro is
  cases text with
  | nil => exact named.filled name known same
  | cons char rest =>
      have letter := named.letters known same (List.mem_cons_self)
      rcases is.mem List.mem_cons_self with rfl | digit
      · rcases letter with alpha | kelvin
        · cases alpha
        · cases kelvin
      · rw [letter.not_isDigit] at digit
        cases digit

theorem find?_name {names : List (String × Nat)} (named : Named names) {name : String × Nat}
    (known : name ∈ names) {text : Text} (same : name.1.toList = text) :
    names.find? (fun name => name.1.toList = text) = some name := by
  have apart := named.apart
  clear named
  induction names with
  | nil => cases known
  | cons first others inductionHypothesis =>
      obtain ⟨unlike, apart⟩ := List.pairwise_cons.mp apart
      rcases List.mem_cons.mp known with rfl | later
      · simp [same]
      · have other : first.1.toList ≠ text := fun equal =>
          unlike name later (String.toList_inj.mp (equal.trans same.symm))
        rw [List.find?_cons_of_neg (by simpa using other)]
        exact inductionHypothesis later apart

section Field

variable {names : List (String × Nat)} {min max : Nat}

theorem numberOrName_eq_some_iff (named : Named names) {text : Text} {value : Nat}
    (small : value < 2 ^ 32) :
    numberOrName text names = some value ↔ IsNumber true text value ∨
      ∃ name ∈ names, name.1.toList = lowercase text ∧ name.2 = value := by
  unfold numberOrName
  constructor
  · intro read
    split at read
    next number parsed =>
      obtain rfl := Option.some.inj read
      exact .inl (parseUnsigned_eq_some_iff.mp parsed).1
    next =>
      obtain ⟨name, found, rfl⟩ := Option.map_eq_some_iff.mp read
      exact .inr ⟨name, List.mem_of_find?_eq_some found,
        by simpa using List.find?_some found, rfl⟩
  · rintro (number | ⟨name, known, same, rfl⟩)
    · have parsed : parseU32 text = some value :=
        parseUnsigned_eq_some_iff.mpr ⟨number, by omega⟩
      rw [parsed]
    · cases parsed : parseU32 text with
      | some number =>
          exact absurd (parseUnsigned_eq_some_iff.mp parsed).1 (named.not_isNumber known same _)
      | none => simp [find?_name named known same]

theorem IsValue.filled (named : Named names) {signs : Bool} {text : Text} {value : Nat}
    (is : IsValue signs names min max text value) : text ≠ [] := by
  rintro rfl
  rcases is.1 with ⟨digits, same | ⟨-, same⟩, filled, -⟩ | ⟨name, known, same, -⟩
  · exact absurd same.symm filled
  · cases same
  · exact absurd same (named.filled name known)

theorem fieldValue_eq_some_iff (named : Named names) (small : max < 2 ^ 32) {text : Text}
    (solid : ∀ char ∈ text, Text.isWhitespace char = false) {value : Nat} :
    fieldValue text names min max = some value ↔ IsValue true names min max text value := by
  have trimmed := Text.trim_eq_self solid
  unfold fieldValue IsValue
  simp only [trimmed]
  constructor
  · intro read
    split at read
    next => cases read
    next =>
      obtain ⟨number, isNumber, within_⟩ := Option.bind_eq_some_iff.mp read
      split at within_
      next => cases within_
      next inside =>
        obtain rfl := Option.some.inj within_
        exact ⟨(numberOrName_eq_some_iff named (by omega)).mp isNumber, by omega, by omega⟩
  · rintro ⟨is, least, most⟩
    have read := (numberOrName_eq_some_iff named (by omega)).mpr is
    have filled : text.isEmpty = false :=
      List.isEmpty_eq_false_iff.mpr (IsValue.filled named ⟨is, least, most⟩)
    rw [filled, read]
    simp only [Bool.false_eq_true, if_false, Option.bind_eq_bind, Option.bind_some]
    rw [if_neg (by omega)]

/-! ### Items -/

/-- What a value is written with. -/
def isPlain (char : Char) : Bool :=
  char = '+' || char.isDigit || char.isAlpha || char = '\u212A'

theorem IsValue.plain (named : Named names) {text : Text} {value : Nat}
    (is : IsValue true names min max text value) {char : Char} (held : char ∈ text) :
    isPlain char = true := by
  unfold isPlain
  rcases is.1 with number | ⟨name, known, same, -⟩
  · rcases number.mem held with rfl | digit
    · rfl
    · simp [digit]
  · rcases named.letters known same held with alpha | rfl
    · simp [alpha]
    · rfl

theorem IsValue.not_mem (named : Named names) {text : Text} {value : Nat}
    (is : IsValue true names min max text value) {char : Char} (other : isPlain char = false) :
    char ∉ text := by
  intro held
  rw [is.plain named held] at other
  cases other

theorem Span.filled (named : Named names) {signs : Bool} {text : Text} {first last toMax : Nat}
    (span : Span signs names min max text first last toMax) : text ≠ [] := by
  cases span with
  | every => exact List.cons_ne_nil _ _
  | value is => exact is.filled named
  | between => simp

/-- Slashes and commas stand between spans, not in them. -/
theorem Span.not_mem (named : Named names) {text : Text} {first last toMax : Nat}
    (span : Span true names min max text first last toMax) {char : Char}
    (other : isPlain char = false) (noDash : char ≠ '-') (noStar : char ≠ '*') : char ∉ text := by
  cases span with
  | every => simpa using noStar
  | value is => exact is.not_mem named other
  | between isLow isHigh =>
      simp only [List.mem_append, List.mem_cons, not_or]
      exact ⟨isLow.not_mem named other, noDash, isHigh.not_mem named other⟩

theorem splitOn_eq_singleton_iff {separator : Char} {text part : Text} :
    text.splitOn separator = [part] ↔ text = part ∧ separator ∉ text := by
  constructor
  · intro split
    have joined : List.intercalate [separator] (text.splitOn separator) = text :=
      List.intercalate_splitOn separator
    rw [split] at joined
    obtain rfl : part = text := by simpa using joined
    refine ⟨rfl, fun held => ?_⟩
    obtain ⟨before, after, shape, lacks⟩ := List.eq_append_cons_of_mem held
    rw [shape, List.splitOn_append_cons_self_of_not_mem lacks, List.cons.injEq] at split
    exact List.splitOn_ne_nil _ _ split.2
  · rintro ⟨rfl, lacks⟩
    exact List.splitOn_eq_singleton lacks

theorem splitOn_eq_pair {separator : Char} {text before after : Text}
    (split : text.splitOn separator = [before, after]) : text = before ++ separator :: after := by
  have joined : List.intercalate [separator] (text.splitOn separator) = text :=
    List.intercalate_splitOn separator
  rw [split] at joined
  simpa using joined.symm

/-- The code reads a span as the grammar does. -/
theorem tokenRange_iff (named : Named names) (small : max < 2 ^ 32) (ordered : min ≤ max)
    {body : Text} (solid : ∀ char ∈ body, Text.isWhitespace char = false) {stepped : Bool}
    {first last : Nat} :
    tokenRange stepped body names min max = some (first, last) ∧ first ≤ last ↔
      ∃ single toMax, Span true names min max body first single toMax ∧
        last = if stepped then toMax else single := by
  constructor
  · rintro ⟨read, ascending⟩
    unfold tokenRange at read
    split at read
    next star =>
      obtain ⟨rfl, rfl⟩ := Prod.mk.inj (Option.some.inj read)
      exact ⟨max, max, star ▸ .every, by split <;> rfl⟩
    next =>
      split at read
      next one split_ =>
        obtain ⟨rfl, -⟩ := splitOn_eq_singleton_iff.mp split_
        obtain ⟨value, isValue, same⟩ := Option.map_eq_some_iff.mp read
        obtain ⟨rfl, rfl⟩ := Prod.mk.inj same
        exact ⟨value, max, .value ((fieldValue_eq_some_iff named small solid).mp isValue), rfl⟩
      next one other split_ =>
        obtain rfl := splitOn_eq_pair split_
        obtain ⟨low, isLow, later⟩ := Option.bind_eq_some_iff.mp read
        obtain ⟨high, isHigh, same⟩ := Option.bind_eq_some_iff.mp later
        obtain ⟨rfl, rfl⟩ := Prod.mk.inj (Option.some.inj same)
        have solidLow : ∀ char ∈ one, Text.isWhitespace char = false := fun char held =>
          solid char (List.mem_append_left _ held)
        have solidHigh : ∀ char ∈ other, Text.isWhitespace char = false := fun char held =>
          solid char (List.mem_append_right _ (List.mem_cons_of_mem _ held))
        exact ⟨high, high, .between ((fieldValue_eq_some_iff named small solidLow).mp isLow)
          ((fieldValue_eq_some_iff named small solidHigh).mp isHigh) ascending, by split <;> rfl⟩
      next => cases read
  · rintro ⟨single, toMax, span, rfl⟩
    unfold tokenRange
    cases span with
    | every =>
        rw [if_pos rfl]
        exact ⟨by split <;> rfl, by split <;> exact ordered⟩
    | value is =>
        have noStar : body ≠ ['*'] := by
          rintro rfl
          exact is.not_mem named (by decide : isPlain '*' = false) List.mem_cons_self
        have noDash := is.not_mem named (by decide : isPlain '-' = false)
        rw [if_neg noStar, splitOn_eq_singleton_iff.mpr ⟨rfl, noDash⟩]
        simp only [(fieldValue_eq_some_iff named small solid).mpr is, Option.map_some]
        have within_ := is.2.2
        exact ⟨trivial, by split <;> omega⟩
    | @between low high _ _ isLow isHigh ascending =>
        have noStar : low ++ '-' :: high ≠ ['*'] := by
          intro same
          have held : '-' ∈ low ++ '-' :: high := by simp
          rw [same] at held
          simp at held
        have solidLow : ∀ char ∈ low, Text.isWhitespace char = false := fun char held =>
          solid char (List.mem_append_left _ held)
        have solidHigh : ∀ char ∈ high, Text.isWhitespace char = false := fun char held =>
          solid char (List.mem_append_right _ (List.mem_cons_of_mem _ held))
        rw [if_neg noStar, List.splitOn_append_cons_self_of_not_mem
          (isLow.not_mem named (by decide : isPlain '-' = false)),
          List.splitOn_eq_singleton (isHigh.not_mem named (by decide : isPlain '-' = false))]
        simp only [(fieldValue_eq_some_iff named small solidLow).mpr isLow,
          (fieldValue_eq_some_iff named small solidHigh).mpr isHigh, Option.bind_eq_bind,
          Option.bind_some]
        exact ⟨by split <;> rfl, by split <;> exact ascending⟩

/-- A text is one span at most. -/
theorem Span.unique (named : Named names) (small : max < 2 ^ 32) (ordered : min ≤ max) {text : Text}
    (solid : ∀ char ∈ text, Text.isWhitespace char = false)
    {first last toMax first' last' toMax' : Nat}
    (span : Span true names min max text first last toMax)
    (other : Span true names min max text first' last' toMax') :
    first = first' ∧ last = last' ∧ toMax = toMax' := by
  have range (stepped : Bool) {first last toMax : Nat}
      (span : Span true names min max text first last toMax) :
      tokenRange stepped text names min max =
        some (first, if stepped then toMax else last) :=
    ((tokenRange_iff named small ordered solid).mpr ⟨_, _, span, rfl⟩).1
  have plain := (range false span).symm.trans (range false other)
  have long := (range true span).symm.trans (range true other)
  simp only [Option.some.injEq, Prod.mk.injEq, Bool.false_eq_true, if_false, if_true] at plain long
  exact ⟨plain.1, plain.2, long.2⟩

/-- The values of an item, one after another. -/
def Item.values (item : Item) : List Nat :=
  (List.range ((item.last - item.first) / item.step + 1)).map fun place =>
    item.first + item.step * place

theorem Item.mem_values {item : Item} (positive : 0 < item.step)
    (ascending : item.first ≤ item.last) {value : Nat} :
    value ∈ item.values ↔ item.Lists value := by
  simp only [Item.values, List.mem_map, List.mem_range, Item.Lists]
  constructor
  · rintro ⟨place, inside, rfl⟩
    refine ⟨place, rfl, ?_⟩
    have steps : item.step * place ≤ item.last - item.first :=
      (Nat.mul_le_mul_left item.step (Nat.lt_succ_iff.mp inside)).trans (Nat.mul_div_le _ _)
    omega
  · rintro ⟨place, rfl, inside⟩
    refine ⟨place, ?_, rfl⟩
    rw [Nat.lt_succ_iff, Nat.le_div_iff_mul_le positive, Nat.mul_comm]
    omega

theorem IsItem.ascending (ordered : min ≤ max) {item : Item}
    (is : IsItem true names min max item) : 0 < item.step ∧ item.first ≤ item.last := by
  have spans {text : Text} {first last toMax : Nat}
      (span : Span true names min max text first last toMax) : first ≤ last ∧ first ≤ toMax := by
    cases span with
    | every => exact ⟨ordered, ordered⟩
    | value is => exact ⟨le_refl _, is.2.2⟩
    | between _ _ ascending => exact ⟨ascending, ascending⟩
  cases is with
  | plain span => exact ⟨Nat.one_pos, (spans span).1⟩
  | stepped span _ positive => exact ⟨positive, (spans span).2⟩

theorem IsItem.not_mem (named : Named names) {item : Item} (is : IsItem true names min max item)
    {char : Char} (other : isPlain char = false) (noMark : char ∉ ['-', '*', '/']) :
    char ∉ item.text := by
  simp only [List.mem_cons, not_or] at noMark
  cases is with
  | plain span => exact span.not_mem named other noMark.1 noMark.2.1
  | stepped span isStep =>
      simp only [List.mem_append, List.mem_cons, not_or]
      refine ⟨span.not_mem named other noMark.1 noMark.2.1, noMark.2.2.1, fun held => ?_⟩
      rcases isStep.mem held with rfl | digit
      · cases other
      · simp [isPlain, digit] at other

/-- A text is one item at most. -/
theorem IsItem.unique (named : Named names) (small : max < 2 ^ 32) (ordered : min ≤ max)
    {item other : Item} (solid : ∀ char ∈ item.text, Text.isWhitespace char = false)
    (is : IsItem true names min max item) (isOther : IsItem true names min max other)
    (same : item.text = other.text) : item = other := by
  have slash : isPlain '/' = false := by decide
  have noSlash {text : Text} {first last toMax : Nat}
      (span : Span true names min max text first last toMax) : '/' ∉ text :=
    span.not_mem named slash (by decide) (by decide)
  cases is with
  | plain span =>
      cases isOther with
      | plain span' =>
          obtain rfl := same
          obtain ⟨rfl, rfl, -⟩ := span.unique named small ordered solid span'
          rfl
      | stepped span' =>
          dsimp only at same
          subst same
          exact absurd (List.mem_append_right _ List.mem_cons_self) (noSlash span)
  | @stepped text number first last toMax step span isStep =>
      cases isOther with
      | plain span' =>
          dsimp only at same
          subst same
          exact absurd (List.mem_append_right _ List.mem_cons_self) (noSlash span')
      | @stepped text' number' first' last' toMax' step' span' isStep' =>
          have split := Text.splitOnce_append number (noSlash span)
          have split' := Text.splitOnce_append number' (noSlash span')
          dsimp only at same
          rw [same, split'] at split
          obtain ⟨rfl, rfl⟩ := Prod.mk.inj (Option.some.inj split)
          obtain rfl := isStep.unique isStep'
          have solidBody := fun char held => solid char (List.mem_append_left _ held)
          obtain ⟨rfl, -, rfl⟩ := span.unique named small ordered solidBody span'
          rfl

/-- The code reads an item as the grammar does, if its step has 32 bits. -/
theorem parseToken_eq_some_iff (named : Named names) (small : max < 2 ^ 32) (ordered : min ≤ max)
    {token : Text} (solid : ∀ char ∈ token, Text.isWhitespace char = false) {values : List Nat} :
    parseToken token min max names = some values ↔
      ∃ item, IsItem true names min max item ∧ item.step < 2 ^ 32 ∧ item.text = token ∧
        values = item.values := by
  constructor
  · intro read
    unfold parseToken at read
    split at read
    next => cases read
    next =>
      obtain ⟨⟨body, step⟩, isStep, later⟩ := Option.bind_eq_some_iff.mp read
      obtain ⟨⟨first, last⟩, isRange, expanded⟩ := Option.bind_eq_some_iff.mp later
      dsimp only at isRange expanded
      split at expanded
      next => cases expanded
      next ascending =>
        obtain rfl := Option.some.inj expanded
        unfold tokenStep at isStep
        split at isStep
        next whole =>
          obtain ⟨rfl, rfl⟩ := Prod.mk.inj (Option.some.inj isStep)
          have noSlash := Text.splitOnce_eq_none_iff.mp whole
          have plain : token.contains '/' = false := by simpa using noSlash
          rw [plain] at isRange
          obtain ⟨single, toMax, span, rfl⟩ :=
            (tokenRange_iff named small ordered solid).mp ⟨isRange, by omega⟩
          exact ⟨_, .plain span, (by decide : 1 < 2 ^ 32), rfl, rfl⟩
        next front rest split_ =>
          obtain ⟨rfl, -⟩ := Text.splitOnce_eq_some_iff.mp split_
          have slashed : (front ++ '/' :: rest).contains '/' = true := by simp
          rw [slashed] at isRange
          split at isStep
          next number parsed =>
            split at isStep
            next => cases isStep
            next positive =>
              obtain ⟨rfl, rfl⟩ := Prod.mk.inj (Option.some.inj isStep)
              obtain ⟨isNumber, bounded⟩ := parseUnsigned_eq_some_iff.mp parsed
              have solidBody : ∀ char ∈ front, Text.isWhitespace char = false :=
                fun char held => solid char (List.mem_append_left _ held)
              obtain ⟨single, toMax, span, rfl⟩ :=
                (tokenRange_iff named small ordered solidBody).mp ⟨isRange, by omega⟩
              refine ⟨_, .stepped span isNumber (by omega), ?_, rfl, rfl⟩
              dsimp only
              omega
          next => cases isStep
  · rintro ⟨item, is, bounded, rfl, rfl⟩
    obtain ⟨positive, ascending⟩ := is.ascending ordered
    unfold parseToken
    cases is with
    | @plain text first last toMax span =>
        have filled := List.isEmpty_eq_false_iff.mpr (span.filled named)
        have noSlash := span.not_mem named (by decide : isPlain '/' = false) (by decide) (by decide)
        have plain : text.contains '/' = false := by simpa using noSlash
        have range := ((tokenRange_iff named small ordered solid).mpr
          ⟨_, _, span, (if_neg Bool.false_ne_true).symm⟩).1
        have step : tokenStep text = some (text, 1) := by
          rw [tokenStep, Text.splitOnce_eq_none_iff.mpr noSlash]
        dsimp only at ascending ⊢
        simp only [filled, step, plain, range, Bool.false_eq_true, if_false, Option.bind_eq_bind,
          Option.bind_some]
        rw [if_neg (by omega)]
        rfl
    | @stepped text number first last toMax step span isStep =>
        have solidBody : ∀ char ∈ text, Text.isWhitespace char = false :=
          fun char held => solid char (List.mem_append_left _ held)
        have noSlash := span.not_mem named (by decide : isPlain '/' = false) (by decide) (by decide)
        have range := ((tokenRange_iff named small ordered solidBody).mpr
          ⟨_, _, span, (if_pos rfl).symm⟩).1
        dsimp only at ascending bounded positive ⊢
        have parsed : parseU32 number = some step :=
          parseUnsigned_eq_some_iff.mpr ⟨isStep, by omega⟩
        have steps : tokenStep (text ++ '/' :: number) = some (text, step) := by
          rw [tokenStep, Text.splitOnce_append number noSlash]
          dsimp only
          rw [parsed]
          dsimp only
          rw [if_neg (by omega)]
        have filled : (text ++ '/' :: number).isEmpty = false := by simp
        have slashed : (text ++ '/' :: number).contains '/' = true := by simp
        simp only [filled, steps, slashed, range, Bool.false_eq_true, if_false,
          Option.bind_eq_bind, Option.bind_some]
        rw [if_neg (by omega)]
        rfl

end Field

end ServerBox.Cron
