import ServerBox.Monitor.AppValueRead

/-!
# Which types keep their values apart

The types that `check` lets through with legal labels, the values of them without infinities,
and the condition on their labels under which no JSON name stands for two of them.
-/

namespace ServerBox.Monitor.AppValue

open ServerBox.Std

/-! ### Legal types -/

/-- What the validation of an interface asks of the labels of one type: some, and each once. -/
def areLabels (labels : List Label) : Bool :=
  !labels.isEmpty && Decidable.decide labels.Nodup

mutual

def WitType.legal : WitType → Bool
  | .list item | .fixedLengthList item _ | .option item => item.legal
  | .record fields => areLabels (fields.map Prod.fst) && legalFields fields
  | .tuple types => legalTypes types
  | .variant cases => areLabels (cases.map Prod.fst) && legalCases cases
  | .enum names | .flags names => areLabels names
  | .result ok err => legalSide ok && legalSide err
  | _ => true

def legalFields : List (Label × WitType) → Bool
  | [] => true
  | (_, ty) :: rest => ty.legal && legalFields rest

def legalTypes : List WitType → Bool
  | [] => true
  | ty :: rest => ty.legal && legalTypes rest

def legalCases : List (Label × Option WitType) → Bool
  | [] => true
  | (_, payload) :: rest => legalSide payload && legalCases rest

def legalSide : Option WitType → Bool
  | none => true
  | some ty => ty.legal

end

/-- The legal types that `check` lets through. -/
inductive Offered : WitType → Prop
  | bool : Offered .bool
  | int (kind : IntKind) : Offered (.int kind)
  | float32 : Offered .float32
  | float64 : Offered .float64
  | char : Offered .char
  | string : Offered .string
  | list {item : WitType} : Offered item → Offered (.list item)
  | fixedLengthList {item : WitType} (length : Nat) :
      Offered item → Offered (.fixedLengthList item length)
  | record {fields : List (Label × WitType)} : areLabels (fields.map Prod.fst) = true →
      (∀ field ∈ fields, Offered field.2) → Offered (.record fields)
  | tuple {types : List WitType} : (∀ ty ∈ types, Offered ty) → Offered (.tuple types)
  | variant {cases : List (Label × Option WitType)} : areLabels (cases.map Prod.fst) = true →
      (∀ case ∈ cases, ∀ ty, case.2 = some ty → Offered ty) → Offered (.variant cases)
  | enum {names : List Label} : areLabels names = true → Offered (.enum names)
  | option {payload : WitType} : (∀ inner, payload ≠ .option inner) → Offered payload →
      Offered (.option payload)
  | result {ok err : Option WitType} : (∀ ty, ok = some ty → Offered ty) →
      (∀ ty, err = some ty → Offered ty) → Offered (.result ok err)
  | flags {names : List Label} : areLabels names = true → Offered (.flags names)

theorem ok_of_atDepth {depth : Nat} {answer : Except Text Unit}
    (allowed : atDepth depth answer = .ok ()) : answer = .ok () := by
  unfold atDepth at allowed
  split at allowed
  next => cases allowed
  next => exact allowed

theorem ok_of_bind {first : Except Text Unit} {second : Except Text Unit}
    (allowed : (do first; second) = .ok ()) : first = .ok () ∧ second = .ok () := by
  cases first with
  | error _ => cases allowed
  | ok _ => exact ⟨rfl, allowed⟩

/-- The types that a check at some depth and the validation let through. -/
def Passes (ty : WitType) : Prop :=
  ∀ depth, ty.checkAt depth = .ok () → ty.legal = true → Offered ty

theorem offered_fields {fields : List (Label × WitType)} (passes : ∀ field ∈ fields, Passes field.2)
    {depth : Nat} (allowed : checkFields fields depth = .ok ()) (legal : legalFields fields = true) :
    ∀ field ∈ fields, Offered field.2 := by
  induction fields with
  | nil => exact fun _ held => nomatch held
  | cons field rest inductionHypothesis =>
      obtain ⟨here, later⟩ := List.forall_mem_cons.mp passes
      obtain ⟨first, others⟩ := ok_of_bind allowed
      obtain ⟨own, legal⟩ := Bool.and_eq_true_iff.mp legal
      exact List.forall_mem_cons.mpr
        ⟨here depth first own, inductionHypothesis later others legal⟩

theorem offered_types {types : List WitType} (passes : ∀ ty ∈ types, Passes ty)
    {depth : Nat} (allowed : checkTypes types depth = .ok ()) (legal : legalTypes types = true) :
    ∀ ty ∈ types, Offered ty := by
  induction types with
  | nil => exact fun _ held => nomatch held
  | cons ty rest inductionHypothesis =>
      obtain ⟨here, later⟩ := List.forall_mem_cons.mp passes
      obtain ⟨first, others⟩ := ok_of_bind allowed
      obtain ⟨own, legal⟩ := Bool.and_eq_true_iff.mp legal
      exact List.forall_mem_cons.mpr
        ⟨here depth first own, inductionHypothesis later others legal⟩

theorem offered_side {side : Option WitType} (passes : ∀ ty, side = some ty → Passes ty)
    {depth : Nat} (allowed : checkPayload side depth = .ok ()) (legal : legalSide side = true) :
    ∀ ty, side = some ty → Offered ty := by
  rintro ty rfl
  exact passes ty rfl depth allowed legal

theorem offered_cases {cases : List (Label × Option WitType)}
    (passes : ∀ case ∈ cases, ∀ ty, case.2 = some ty → Passes ty)
    {depth : Nat} (allowed : checkCases cases depth = .ok ()) (legal : legalCases cases = true) :
    ∀ case ∈ cases, ∀ ty, case.2 = some ty → Offered ty := by
  induction cases with
  | nil => exact fun _ held => nomatch held
  | cons case rest inductionHypothesis =>
      obtain ⟨here, later⟩ := List.forall_mem_cons.mp passes
      obtain ⟨first, others⟩ := ok_of_bind allowed
      obtain ⟨own, legal⟩ := Bool.and_eq_true_iff.mp legal
      exact List.forall_mem_cons.mpr
        ⟨offered_side here first own, inductionHypothesis later others legal⟩

theorem passes (ty : WitType) : Passes ty := by
  intro depth allowed legal
  induction ty generalizing depth with
  | bool => exact .bool
  | int kind => exact .int kind
  | float32 => exact .float32
  | float64 => exact .float64
  | char => exact .char
  | string => exact .string
  | list item inductionHypothesis =>
      exact .list (inductionHypothesis _ (ok_of_atDepth allowed) legal)
  | fixedLengthList item length inductionHypothesis =>
      exact .fixedLengthList length (inductionHypothesis _ (ok_of_atDepth allowed) legal)
  | record fields inductionHypothesis =>
      obtain ⟨labels, legal⟩ := Bool.and_eq_true_iff.mp legal
      exact .record labels (offered_fields inductionHypothesis (ok_of_atDepth allowed) legal)
  | tuple types inductionHypothesis =>
      exact .tuple (offered_types inductionHypothesis (ok_of_atDepth allowed) legal)
  | variant cases inductionHypothesis =>
      obtain ⟨labels, legal⟩ := Bool.and_eq_true_iff.mp legal
      exact .variant labels (offered_cases inductionHypothesis (ok_of_atDepth allowed) legal)
  | enum names => exact .enum legal
  | option payload inductionHypothesis =>
      unfold WitType.checkAt at allowed
      have inner := ok_of_atDepth allowed
      split at inner
      next => cases inner
      next single => exact .option single (inductionHypothesis _ inner legal)
  | result ok err okHypothesis errHypothesis =>
      obtain ⟨first, second⟩ := ok_of_bind (ok_of_atDepth allowed)
      obtain ⟨okLegal, errLegal⟩ := Bool.and_eq_true_iff.mp legal
      exact .result (offered_side okHypothesis first okLegal)
        (offered_side errHypothesis second errLegal)
  | flags names => exact .flags legal
  | map | own | borrow | future | stream | errorContext => cases ok_of_atDepth allowed

/-! ### The values without infinities -/

mutual

def Val.Finite : Val → Prop
  | .float32 value => value.IsFinite
  | .float64 value => value.IsFinite
  | .list items | .fixedLengthList items | .tuple items => FiniteItems items
  | .record fields => FiniteFields fields
  | .variant _ payload | .option payload | .ok payload | .err payload => FinitePayload payload
  | _ => True

def FiniteItems : List Val → Prop
  | [] => True
  | value :: rest => value.Finite ∧ FiniteItems rest

def FiniteFields : List (Text × Val) → Prop
  | [] => True
  | (_, value) :: rest => value.Finite ∧ FiniteFields rest

def FinitePayload : Option Val → Prop
  | none => True
  | some value => value.Finite

end

/-- A value of a type, all floats in it finite. -/
structure WitType.Carries (ty : WitType) (value : Val) : Prop where
  holds : ty.Holds value
  finite : value.Finite

/-- A field with its value. -/
def CarriesField (field : Label × WitType) (value : Text × Val) : Prop :=
  value.1 = field.1.text ∧ field.2.Carries value.2

abbrev CarriesSide : Option WitType → Option Val → Prop := Option.Rel WitType.Carries

section Carries

theorem finiteItems_iff {items : List Val} : FiniteItems items ↔ ∀ value ∈ items, value.Finite := by
  induction items with
  | nil => simp [FiniteItems]
  | cons value rest inductionHypothesis => simp [FiniteItems, inductionHypothesis]

theorem carries_types_iff {types : List WitType} {items : List Val} :
    HoldTypes types items ∧ FiniteItems items ↔ List.Forall₂ WitType.Carries types items := by
  induction types generalizing items with
  | nil => cases items <;> simp [HoldTypes, FiniteItems]
  | cons ty types inductionHypothesis =>
      cases items with
      | nil => simp [HoldTypes]
      | cons value items =>
          rw [List.forall₂_cons, ← inductionHypothesis, HoldTypes, FiniteItems]
          exact ⟨fun ⟨⟨here, later⟩, finite, rest⟩ => ⟨⟨here, finite⟩, later, rest⟩,
            fun ⟨⟨here, finite⟩, later, rest⟩ => ⟨⟨here, later⟩, finite, rest⟩⟩

theorem carries_fields_iff {fields : List (Label × WitType)} {values : List (Text × Val)} :
    HoldFields fields values ∧ FiniteFields values ↔
      List.Forall₂ CarriesField fields values := by
  induction fields generalizing values with
  | nil => cases values <;> simp [HoldFields, FiniteFields]
  | cons field fields inductionHypothesis =>
      cases values with
      | nil => simp [HoldFields]
      | cons value values =>
          rw [List.forall₂_cons, ← inductionHypothesis, HoldFields, FiniteFields]
          exact ⟨fun ⟨⟨name, here, later⟩, finite, rest⟩ => ⟨⟨name, here, finite⟩, later, rest⟩,
            fun ⟨⟨name, here, finite⟩, later, rest⟩ => ⟨⟨name, here, later⟩, finite, rest⟩⟩

theorem carriesSide_iff {side : Option WitType} {payload : Option Val} :
    HoldSide side payload ∧ FinitePayload payload ↔ CarriesSide side payload := by
  cases side <;> cases payload
  next => simp [HoldSide, FinitePayload]
  next => simp [HoldSide]
  next => simp [HoldSide]
  next ty value =>
      simp only [HoldSide, FinitePayload, Option.rel_some_some]
      exact ⟨fun both => ⟨both.1, both.2⟩, fun both => ⟨both.1, both.2⟩⟩

variable {value : Val}

theorem carries_list {item : WitType} :
    (WitType.list item).Carries value ↔
      ∃ items, value = .list items ∧ ∀ value ∈ items, item.Carries value := by
  constructor
  · rintro ⟨holds, finite⟩
    cases value with
    | list items =>
        exact ⟨items, rfl, fun value held => ⟨holds value held, finiteItems_iff.mp finite value held⟩⟩
    | _ => exact holds.elim
  · rintro ⟨items, rfl, held⟩
    exact ⟨fun value member => (held value member).holds,
      finiteItems_iff.mpr fun value member => (held value member).finite⟩

theorem carries_fixedLengthList {item : WitType} {length : Nat} :
    (WitType.fixedLengthList item length).Carries value ↔
      ∃ items, value = .fixedLengthList items ∧ items.length = length ∧
        ∀ value ∈ items, item.Carries value := by
  constructor
  · rintro ⟨holds, finite⟩
    cases value with
    | fixedLengthList items =>
        exact ⟨items, rfl, holds.1,
          fun value held => ⟨holds.2 value held, finiteItems_iff.mp finite value held⟩⟩
    | _ => exact holds.elim
  · rintro ⟨items, rfl, long, held⟩
    exact ⟨⟨long, fun value member => (held value member).holds⟩,
      finiteItems_iff.mpr fun value member => (held value member).finite⟩

theorem carries_record {fields : List (Label × WitType)} :
    (WitType.record fields).Carries value ↔
      ∃ values, value = .record values ∧ List.Forall₂ CarriesField fields values := by
  constructor
  · rintro ⟨holds, finite⟩
    cases value with
    | record values => exact ⟨values, rfl, carries_fields_iff.mp ⟨holds, finite⟩⟩
    | _ => exact holds.elim
  · rintro ⟨values, rfl, held⟩
    have ⟨holds, finite⟩ := carries_fields_iff.mpr held
    exact ⟨holds, finite⟩

theorem carries_tuple {types : List WitType} :
    (WitType.tuple types).Carries value ↔
      ∃ items, value = .tuple items ∧ List.Forall₂ WitType.Carries types items := by
  constructor
  · rintro ⟨holds, finite⟩
    cases value with
    | tuple items => exact ⟨items, rfl, carries_types_iff.mp ⟨holds, finite⟩⟩
    | _ => exact holds.elim
  · rintro ⟨items, rfl, held⟩
    have ⟨holds, finite⟩ := carries_types_iff.mpr held
    exact ⟨holds, finite⟩

theorem holdCase_iff {cases : List (Label × Option WitType)} {name : Text} {payload : Option Val} :
    HoldCase cases name payload ↔
      ∃ case ∈ cases, case.1.text = name ∧ HoldSide case.2 payload := by
  induction cases with
  | nil => simp [HoldCase]
  | cons case rest inductionHypothesis => simp [HoldCase, inductionHypothesis]

theorem carries_variant {cases : List (Label × Option WitType)} :
    (WitType.variant cases).Carries value ↔
      ∃ case ∈ cases, ∃ payload, value = .variant case.1.text payload ∧
        CarriesSide case.2 payload := by
  constructor
  · rintro ⟨holds, finite⟩
    cases value with
    | variant name payload =>
        obtain ⟨case, member, rfl, side⟩ := holdCase_iff.mp holds
        exact ⟨case, member, payload, rfl, carriesSide_iff.mp ⟨side, finite⟩⟩
    | _ => exact holds.elim
  · rintro ⟨case, member, payload, rfl, held⟩
    have ⟨holds, finite⟩ := carriesSide_iff.mpr held
    exact ⟨holdCase_iff.mpr ⟨case, member, rfl, holds⟩, finite⟩

theorem carries_enum {names : List Label} :
    (WitType.enum names).Carries value ↔ ∃ label ∈ names, value = .enum label.text := by
  constructor
  · rintro ⟨holds, -⟩
    cases value with
    | enum name =>
        obtain ⟨label, member, rfl⟩ := holds
        exact ⟨label, member, rfl⟩
    | _ => exact holds.elim
  · rintro ⟨label, member, rfl⟩
    exact ⟨⟨label, member, rfl⟩, trivial⟩

theorem carries_flags {names : List Label} :
    (WitType.flags names).Carries value ↔
      ∃ set, value = .flags set ∧ ∀ name ∈ set, ∃ label ∈ names, label.text = name := by
  constructor
  · rintro ⟨holds, -⟩
    cases value with
    | flags set => exact ⟨set, rfl, holds⟩
    | _ => exact holds.elim
  · rintro ⟨set, rfl, held⟩
    exact ⟨held, trivial⟩

theorem carries_option {ty : WitType} :
    (WitType.option ty).Carries value ↔
      ∃ payload, value = .option payload ∧ ∀ value, payload = some value → ty.Carries value := by
  constructor
  · rintro ⟨holds, finite⟩
    cases value with
    | option payload =>
        refine ⟨payload, rfl, ?_⟩
        rintro value rfl
        exact ⟨holds value rfl, finite⟩
    | _ => exact holds.elim
  · rintro ⟨payload, rfl, held⟩
    refine ⟨fun value same => (held value same).holds, ?_⟩
    cases payload with
    | none => trivial
    | some value => exact (held value rfl).finite

theorem carries_result {ok err : Option WitType} :
    (WitType.result ok err).Carries value ↔
      ∃ payload, (value = .ok payload ∧ CarriesSide ok payload) ∨
        (value = .err payload ∧ CarriesSide err payload) := by
  constructor
  · rintro ⟨holds, finite⟩
    cases value with
    | ok payload => exact ⟨payload, .inl ⟨rfl, carriesSide_iff.mp ⟨holds, finite⟩⟩⟩
    | err payload => exact ⟨payload, .inr ⟨rfl, carriesSide_iff.mp ⟨holds, finite⟩⟩⟩
    | _ => exact holds.elim
  · rintro ⟨payload, ⟨rfl, held⟩ | ⟨rfl, held⟩⟩ <;>
      exact ⟨(carriesSide_iff.mpr held).1, (carriesSide_iff.mpr held).2⟩

end Carries

/-- Whatever can be had for each can be had for all. -/
theorem exists_forall₂ {Item Value : Type} {Has : Item → Value → Prop} {items : List Item}
    (each : ∀ item ∈ items, ∃ value, Has item value) :
    ∃ values, List.Forall₂ Has items values := by
  induction items with
  | nil => exact ⟨[], .nil⟩
  | cons item rest inductionHypothesis =>
      obtain ⟨⟨value, here⟩, later⟩ := List.forall_mem_cons.mp each
      obtain ⟨values, others⟩ := inductionHypothesis later
      exact ⟨value :: values, .cons here others⟩

/-- Also with a given value at one place. -/
theorem exists_forall₂_at {Item Value : Type} {Has : Item → Value → Prop} {items : List Item}
    (each : ∀ item ∈ items, ∃ value, Has item value) {item : Item} (member : item ∈ items)
    {value : Value} (has : Has item value) :
    ∃ values, List.Forall₂ Has items values ∧
      ∀ Related : Item → Value → Prop, List.Forall₂ Related items values → Related item value := by
  obtain ⟨front, back, rfl⟩ := List.append_of_mem member
  induction front with
  | nil =>
      obtain ⟨-, later⟩ := List.forall_mem_cons.mp each
      obtain ⟨values, others⟩ := exists_forall₂ later
      exact ⟨value :: values, .cons has others, fun _ related => (List.forall₂_cons.mp related).1⟩
  | cons first front inductionHypothesis =>
      obtain ⟨⟨own, here⟩, later⟩ := List.forall_mem_cons.mp each
      obtain ⟨values, others, chosen⟩ := inductionHypothesis later (by simp)
      exact ⟨own :: values, .cons here others,
        fun _ related => chosen _ (List.forall₂_cons.mp related).2⟩

theorem exists_carriesSide {side : Option WitType}
    (each : ∀ ty, side = some ty → ∃ value, ty.Carries value) :
    ∃ payload, CarriesSide side payload := by
  cases side with
  | none => exact ⟨none, .none⟩
  | some ty =>
      obtain ⟨value, carried⟩ := each ty rfl
      exact ⟨some value, .some carried⟩

theorem exists_mem_of_areLabels {labels : List Label} (legal : areLabels labels = true) :
    ∃ label, label ∈ labels := by
  cases labels with
  | nil => cases legal
  | cons label rest => exact ⟨label, List.mem_cons_self⟩

/-- Every type on offer has a value. -/
theorem Offered.exists_carries {ty : WitType} (offered : Offered ty) :
    ∃ value, ty.Carries value := by
  induction offered with
  | bool => exact ⟨.bool true, trivial, trivial⟩
  | int kind => exact ⟨.int kind ⟨0, by cases kind <;> decide⟩, rfl, trivial⟩
  | float32 => exact ⟨.float32 ⟨false, 0, by decide⟩, trivial, show _ < _ by decide⟩
  | float64 => exact ⟨.float64 ⟨false, 0, by decide⟩, trivial, show _ < _ by decide⟩
  | char => exact ⟨.char 'a', trivial, trivial⟩
  | string => exact ⟨.string [], trivial, trivial⟩
  | list _ _ => exact ⟨.list [], carries_list.mpr ⟨[], rfl, fun _ held => nomatch held⟩⟩
  | fixedLengthList length _ inductionHypothesis =>
      obtain ⟨value, carried⟩ := inductionHypothesis
      exact ⟨_, carries_fixedLengthList.mpr ⟨List.replicate length value, rfl, by simp,
        fun _ held => (List.eq_of_mem_replicate held) ▸ carried⟩⟩
  | @record fields _ _ inductionHypothesis =>
      have each : ∀ field ∈ fields, ∃ value, CarriesField field value := fun field member =>
        have ⟨value, carried⟩ := inductionHypothesis field member
        ⟨(field.1.text, value), rfl, carried⟩
      obtain ⟨values, carried⟩ := exists_forall₂ each
      exact ⟨_, carries_record.mpr ⟨values, rfl, carried⟩⟩
  | tuple _ inductionHypothesis =>
      obtain ⟨values, carried⟩ := exists_forall₂ inductionHypothesis
      exact ⟨_, carries_tuple.mpr ⟨values, rfl, carried⟩⟩
  | variant legal _ inductionHypothesis =>
      obtain ⟨_, member⟩ := exists_mem_of_areLabels legal
      obtain ⟨case, member, -⟩ := List.mem_map.mp member
      obtain ⟨payload, carried⟩ := exists_carriesSide (inductionHypothesis case member)
      exact ⟨_, carries_variant.mpr ⟨case, member, payload, rfl, carried⟩⟩
  | enum legal =>
      obtain ⟨label, member⟩ := exists_mem_of_areLabels legal
      exact ⟨_, carries_enum.mpr ⟨label, member, rfl⟩⟩
  | option _ _ _ => exact ⟨.option none, carries_option.mpr ⟨none, rfl, fun _ held => nomatch held⟩⟩
  | result _ _ okHypothesis _ =>
      obtain ⟨payload, carried⟩ := exists_carriesSide okHypothesis
      exact ⟨_, carries_result.mpr ⟨payload, .inl ⟨rfl, carried⟩⟩⟩
  | flags _ => exact ⟨.flags [], carries_flags.mpr ⟨[], rfl, fun _ held => nomatch held⟩⟩

/-! ### Names that stand for one thing -/

/-- The text that all values of a type are written as. -/
def WitType.sole : WitType → Option Text
  | .enum [name] => some name.camel
  | _ => none

/-- The members of the object that a value of a type is written as, where these are the same
for all. -/
def WitType.members : WitType → Option (List (Text × WitType))
  | .record fields => some (fields.map fun field => (field.1.camel, field.2))
  | .variant [(label, none)] => some [("tag".toList, .enum [label])]
  | .variant [(label, some ty)] => some [("tag".toList, .enum [label]), ("val".toList, ty)]
  | _ => none

/-- The items of the array that a value of a type is written as, where these are the same
for all. -/
def WitType.elements : WitType → Option (List WitType)
  | .tuple types => some types
  | .fixedLengthList item length => some (List.replicate length item)
  | _ => none

mutual

/-- Whether a type has one value, and reads it from whatever a value of the other is written
as. -/
def WitType.fits : WitType → WitType → Bool
  | .enum [name], other => other.sole = some name.camel
  | .variant [(label, payload)], other =>
      match other.members with
      | some members =>
          Decidable.decide ((lookupLast "tag".toList members).bind WitType.sole =
            some label.camel) && fitsSide payload members
      | none => false
  | .record fields, other =>
      match other.members with
      | some members =>
          members.all (fun member => fields.any (·.1.camel = member.1)) &&
            fitsFields fields members
      | none => false
  | .tuple types, other =>
      match other.elements with
      | some others => fitsTypes types others
      | none => false
  | .fixedLengthList item length, other =>
      match other.elements with
      | some others => Decidable.decide (others.length = length) && others.all fun other => item.fits other
      | none => false
  | _, _ => false

def fitsSide : Option WitType → List (Text × WitType) → Bool
  | none, _ => true
  | some ty, members =>
      match lookupLast "val".toList members with
      | some other => ty.fits other
      | none => false

def fitsFields : List (Label × WitType) → List (Text × WitType) → Bool
  | [], _ => true
  | (label, ty) :: rest, members =>
      (match lookupLast label.camel members with
        | some other => ty.fits other
        | none => false) && fitsFields rest members

def fitsTypes : List WitType → List WitType → Bool
  | [], [] => true
  | ty :: types, other :: others => ty.fits other && fitsTypes types others
  | _, _ => false

end

def apart (labels : List Label) : Bool := Decidable.decide (labels.map Label.camel).Nodup

mutual

/-- Whether no JSON name stands for two labels of a type, but for fields of a record of which
the last leaves the others their only value. -/
def WitType.clear : WitType → Bool
  | .list item | .option item => item.clear
  | .fixedLengthList item length => length = 0 || item.clear
  | .record fields => clearFields fields
  | .tuple types => clearTypes types
  | .variant cases => apart (cases.map Prod.fst) && clearCases cases
  | .enum names | .flags names => apart names
  | .result ok err => clearSide ok && clearSide err
  | _ => true

def clearFields : List (Label × WitType) → Bool
  | [] => true
  | (label, ty) :: rest =>
      (match lookupLast label.camel (rest.map fun field => (field.1.camel, field.2)) with
        | some other => ty.fits other
        | none => ty.clear) && clearFields rest

def clearTypes : List WitType → Bool
  | [] => true
  | ty :: rest => ty.clear && clearTypes rest

def clearCases : List (Label × Option WitType) → Bool
  | [] => true
  | (_, payload) :: rest => clearSide payload && clearCases rest

def clearSide : Option WitType → Bool
  | none => true
  | some ty => ty.clear

end

example : (WitType.list .bool).fits .bool = false ∧ (WitType.list .bool).clear = true := by
  rw [WitType.fits, WitType.clear, WitType.clear] <;> simp

end ServerBox.Monitor.AppValue
