import ServerBox.Monitor.AppValue
import Mathlib.Data.List.Forall2

/-!
# What a JSON value means at a type

The reading of `from_json` without its error texts, and that what it reads is a value of
the type.
-/

namespace ServerBox.Monitor.AppValue

open ServerBox.Std

/-- Induction over a type with a hypothesis for every type inside it. -/
@[elab_as_elim, induction_eliminator]
theorem WitType.inductOn {motive : WitType → Prop} (bool : motive .bool)
    (int : ∀ kind, motive (.int kind)) (float32 : motive .float32) (float64 : motive .float64)
    (char : motive .char) (string : motive .string)
    (list : ∀ item, motive item → motive (.list item))
    (fixedLengthList : ∀ item length, motive item → motive (.fixedLengthList item length))
    (record : ∀ fields, (∀ field ∈ fields, motive field.2) → motive (.record fields))
    (tuple : ∀ types, (∀ ty ∈ types, motive ty) → motive (.tuple types))
    (variant : ∀ cases, (∀ case ∈ cases, ∀ ty, case.2 = some ty → motive ty) →
      motive (.variant cases))
    (enum : ∀ names, motive (.enum names))
    (option : ∀ payload, motive payload → motive (.option payload))
    (result : ∀ ok err, (∀ ty, ok = some ty → motive ty) → (∀ ty, err = some ty → motive ty) →
      motive (.result ok err))
    (flags : ∀ names, motive (.flags names)) (map : motive .map) (own : motive .own)
    (borrow : motive .borrow) (future : motive .future) (stream : motive .stream)
    (errorContext : motive .errorContext) (ty : WitType) : motive ty := by
  refine @WitType.rec motive
    (fun fields => ∀ field ∈ fields, motive field.2)
    (fun types => ∀ ty ∈ types, motive ty)
    (fun cases => ∀ case ∈ cases, ∀ ty, case.2 = some ty → motive ty)
    (fun payload => ∀ ty, payload = some ty → motive ty)
    (fun field => motive field.2)
    (fun case => ∀ ty, case.2 = some ty → motive ty)
    bool int float32 float64 char string list fixedLengthList record tuple variant enum option
    result flags map own borrow future stream errorContext ?_ ?_ ?_ ?_ ?_ ?_ ?_ ?_ ?_ ?_ ty
  · exact fun _ held => nomatch held
  · exact fun _ _ head tail => List.forall_mem_cons.mpr ⟨head, tail⟩
  · exact fun _ held => nomatch held
  · exact fun _ _ head tail => List.forall_mem_cons.mpr ⟨head, tail⟩
  · exact fun _ held => nomatch held
  · exact fun _ _ head tail => List.forall_mem_cons.mpr ⟨head, tail⟩
  · exact fun _ held => nomatch held
  · exact fun _ held _ same => Option.some.inj same ▸ held
  · exact fun _ _ held => held
  · exact fun _ _ held => held

mutual

/-- What a JSON value means at a type, if anything. -/
def WitType.read : WitType → Json → Option Val
  | .bool, json => json.asBool.map .bool
  | .int kind, json => (int kind json []).toOption.map (.int kind)
  | .float32, json => json.asF64.map fun value => .float32 (value.convert .binary32)
  | .float64, json => json.asF64.map .float64
  | .char, json =>
      match json with
      | .string [char] => some (.char char)
      | _ => none
  | .string, json => json.asStr.map .string
  | .list item, json => do return .list (← (← json.asArray).mapM item.read)
  | .fixedLengthList item length, json => do
      let items ← json.asArray
      if items.length ≠ length then none else return .fixedLengthList (← items.mapM item.read)
  | .record fields, json => do
      let object ← json.asObject
      if (unknownField fields object).isSome then none
      else return .record (← meanFields fields object)
  | .tuple types, json => do return .tuple (← meanTypes types (← json.asArray))
  | .variant cases, json => do
      let object ← json.asObject
      meanCase cases (← (JsonMap.get "tag".toList object).bind Json.asStr) object
  | .enum names, json => do
      let text ← json.asStr
      return .enum (← names.find? (·.camel = text)).text
  | .flags names, json => do
      return .flags (← (← json.asArray).mapM fun item => do
        let text ← item.asStr
        return (← names.find? (·.camel = text)).text)
  | .option payload, json =>
      match json with
      | .null => some (.option none)
      | json => (payload.read json).map fun value => .option (some value)
  | .result ok err, json => do
      let object ← json.asObject
      if (JsonMap.get "ok".toList object).isSome then
        return .ok (← meanSide ok "ok".toList object)
      else if (JsonMap.get "err".toList object).isSome then
        return .err (← meanSide err "err".toList object)
      else none
  | _, _ => none

def meanFields : List (Label × WitType) → JsonMap → Option (List (Text × Val))
  | [], _ => some []
  | (label, ty) :: rest, object => do
      let value ← ty.read ((JsonMap.get label.camel object).getD .null)
      return (label.text, value) :: (← meanFields rest object)

def meanTypes : List WitType → List Json → Option (List Val)
  | [], [] => some []
  | ty :: types, json :: rest => do return (← ty.read json) :: (← meanTypes types rest)
  | _, _ => none

def meanCase : List (Label × Option WitType) → Text → JsonMap → Option Val
  | [], _, _ => none
  | (label, payload) :: rest, tag, object =>
      if label.camel = tag then do
        return .variant label.text (← meanSide payload "val".toList object)
      else meanCase rest tag object

def meanSide : Option WitType → Text → JsonMap → Option (Option Val)
  | none, _, _ => some none
  | some ty, key, object => (ty.read ((JsonMap.get key object).getD .null)).map some

end

example : WitType.bool.read (.bool true) = some (.bool true) := by
  rw [WitType.read]
  rfl

/-! ### The reading without its errors -/

section ToOption

variable {Value Other : Type}

@[simp] theorem toOption_bind (value : Except Text Value) (next : Value → Except Text Other) :
    (value >>= next).toOption = value.toOption.bind fun value => (next value).toOption := by
  cases value <;> rfl

@[simp] theorem toOption_map (change : Value → Other) (value : Except Text Value) :
    (change <$> value).toOption = value.toOption.map change := by
  cases value <;> rfl

@[simp] theorem toOption_pure (value : Value) :
    (pure value : Except Text Value).toOption = some value := rfl

@[simp] theorem toOption_ok (value : Value) :
    (Except.ok value : Except Text Value).toOption = some value := rfl

@[simp] theorem toOption_error (error : Text) :
    (Except.error error : Except Text Value).toOption = none := rfl

@[simp] theorem toOption_wrong (path what : Text) :
    (wrong path what : Except Text Value).toOption = none := rfl

@[simp] theorem toOption_orError (error : Text) (value : Option Value) :
    (orError (.error error) value).toOption = value := by
  cases value <;> rfl

@[simp] theorem toOption_expected (path : Text) (what : String) (value : Option Value) :
    (expected path what value).toOption = value := by
  cases value <;> rfl

theorem eq_ok_of_toOption {value : Except Text Value} {answer : Value}
    (some : value.toOption = some answer) : value = .ok answer := by
  cases value with
  | error _ => cases some
  | ok _ => exact congrArg _ (Option.some.inj some)

end ToOption

theorem toOption_int (kind : IntKind) (json : Json) (path other : Text) :
    (int kind json path).toOption = (int kind json other).toOption := by
  simp [int]

theorem toOption_readItems {read : Json → Text → Except Text Val} {mean : Json → Option Val}
    (agrees : ∀ json path, (read json path).toOption = mean json) (path : Text) (index : Nat)
    (items : List Json) : (readItems read path index items).toOption = items.mapM mean := by
  induction items generalizing index with
  | nil => rfl
  | cons json rest inductionHypothesis =>
      simp [readItems, agrees, inductionHypothesis, Option.map_eq_bind]

theorem toOption_readFlags (names : List Label) (path : Text) (items : List Json) :
    (readFlags names path items).toOption = items.mapM fun item => do
      let text ← item.asStr
      return (← names.find? (·.camel = text)).text := by
  induction items with
  | nil => rfl
  | cons json rest inductionHypothesis =>
      simp [readFlags, inductionHypothesis, Option.bind_assoc, Option.map_eq_bind]

/-- The types whose reading, path left out, is the one of `from_json_at`. -/
def Agrees (ty : WitType) : Prop :=
  ∀ json path, (ty.fromJsonAt json path).toOption = ty.read json

theorem toOption_readFields {fields : List (Label × WitType)}
    (agrees : ∀ field ∈ fields, Agrees field.2) (object : JsonMap) (path : Text) :
    (readFields fields object path).toOption = meanFields fields object := by
  induction fields with
  | nil => rfl
  | cons field rest inductionHypothesis =>
      obtain ⟨here, later⟩ := List.forall_mem_cons.mp agrees
      simp [readFields, meanFields, here _ _, inductionHypothesis later, Option.map_eq_bind]

theorem toOption_readTypes {types : List WitType} (agrees : ∀ ty ∈ types, Agrees ty)
    (items : List Json) (path : Text) (index : Nat) (long : items.length = types.length) :
    (readTypes types items path index).toOption = meanTypes types items := by
  induction types generalizing items index with
  | nil =>
      obtain rfl := List.length_eq_zero_iff.mp long
      rfl
  | cons ty types inductionHypothesis =>
      obtain ⟨json, items, rfl⟩ := List.exists_cons_of_length_eq_add_one long
      obtain ⟨here, later⟩ := List.forall_mem_cons.mp agrees
      have shorter : items.length = types.length := Nat.succ.inj long
      simp [readTypes, meanTypes, here _ _, inductionHypothesis later items _ shorter,
        Option.map_eq_bind]

theorem toOption_readSide {payload : Option WitType}
    (agrees : ∀ ty, payload = some ty → Agrees ty) (key : Text) (object : JsonMap) (path : Text) :
    (readSide payload key object path).toOption = meanSide payload key object := by
  cases payload with
  | none => rfl
  | some ty => simp [readSide, meanSide, agrees ty rfl _ _]

theorem toOption_readCase {cases : List (Label × Option WitType)}
    (agrees : ∀ case ∈ cases, ∀ ty, case.2 = some ty → Agrees ty) (tag : Text) (object : JsonMap)
    (path : Text) : (readCase cases tag object path).toOption = meanCase cases tag object := by
  induction cases with
  | nil => rfl
  | cons case rest inductionHypothesis =>
      obtain ⟨here, later⟩ := List.forall_mem_cons.mp agrees
      rw [readCase, meanCase]
      split
      next => simp [toOption_readSide here, Option.map_eq_bind]
      next => exact inductionHypothesis later

theorem meanTypes_length {types : List WitType} {items : List Json}
    (wrong : items.length ≠ types.length) : meanTypes types items = none := by
  induction types generalizing items with
  | nil =>
      cases items with
      | nil => exact absurd rfl wrong
      | cons _ _ => rfl
  | cons ty types inductionHypothesis =>
      cases items with
      | nil => rfl
      | cons json items =>
          have shorter : items.length ≠ types.length := fun same => wrong (congrArg (· + 1) same)
          simp [meanTypes, inductionHypothesis shorter]

/-- `from_json_at` is the reading with the path to what does not fit. -/
theorem agrees (ty : WitType) : Agrees ty := by
  intro json path
  induction ty generalizing json path with
  | bool => simp [WitType.fromJsonAt, WitType.read]
  | int kind =>
      simp [WitType.fromJsonAt, WitType.read, toOption_int kind json path []]
  | float32 => simp [WitType.fromJsonAt, WitType.read]
  | float64 => simp [WitType.fromJsonAt, WitType.read]
  | char =>
      cases json with
      | string text =>
          rcases text with _ | ⟨char, _ | ⟨next, rest⟩⟩ <;> rfl
      | _ => rfl
  | string => simp [WitType.fromJsonAt, WitType.read]
  | list item inductionHypothesis =>
      simp [WitType.fromJsonAt, WitType.read, toOption_readItems inductionHypothesis,
        Option.map_eq_bind]
  | fixedLengthList item length inductionHypothesis =>
      rw [WitType.fromJsonAt, WitType.read, toOption_bind, toOption_expected]
      refine Option.bind_congr fun items _ => ?_
      split
      next => rfl
      next => simp [toOption_readItems inductionHypothesis, Option.map_eq_bind]
  | record fields inductionHypothesis =>
      rw [WitType.fromJsonAt, WitType.read, toOption_bind, toOption_expected]
      refine Option.bind_congr fun object _ => ?_
      cases unknownField fields object with
      | some extra => rfl
      | none =>
          simp [toOption_readFields inductionHypothesis, Option.map_eq_bind]
  | tuple types inductionHypothesis =>
      rw [WitType.fromJsonAt, WitType.read, toOption_bind, toOption_expected]
      refine Option.bind_congr fun items _ => ?_
      split
      next wrong => simp [meanTypes_length wrong]
      next long =>
          simp [toOption_readTypes inductionHypothesis items path 0 (not_not.mp long),
            Option.map_eq_bind]
  | variant cases inductionHypothesis =>
      simp [WitType.fromJsonAt, WitType.read, toOption_readCase inductionHypothesis]
  | enum names => simp [WitType.fromJsonAt, WitType.read, Option.map_eq_bind]
  | option payload inductionHypothesis =>
      cases json <;> simp [WitType.fromJsonAt, WitType.read, inductionHypothesis]
  | result ok err okHypothesis errHypothesis =>
      rw [WitType.fromJsonAt, WitType.read, toOption_bind, toOption_expected]
      refine Option.bind_congr fun object _ => ?_
      split
      next => simp [toOption_readSide okHypothesis, Option.map_eq_bind]
      next =>
          split
          next => simp [toOption_readSide errHypothesis, Option.map_eq_bind]
          next => rfl
  | flags names =>
      simp [WitType.fromJsonAt, WitType.read, toOption_readFlags, Option.map_eq_bind]
  | map => rfl
  | own => rfl
  | borrow => rfl
  | future => rfl
  | stream => rfl
  | errorContext => rfl

theorem fromJson_eq_ok_iff {ty : WitType} {json : Json} {value : Val} :
    fromJson ty json = .ok value ↔ ty.read json = some value := by
  rw [← agrees ty json "$".toList, fromJson]
  exact ⟨fun read => by rw [read]; rfl, eq_ok_of_toOption⟩

/-! ### The values of a type -/

mutual

/-- The values that a function of the interface takes for a type. -/
def WitType.Holds : WitType → Val → Prop
  | .bool, .bool _ | .float32, .float32 _ | .float64, .float64 _ | .char, .char _
  | .string, .string _ => True
  | .int kind, .int other _ => other = kind
  | .list item, .list items => ∀ value ∈ items, item.Holds value
  | .fixedLengthList item length, .fixedLengthList items =>
      items.length = length ∧ ∀ value ∈ items, item.Holds value
  | .record fields, .record values => HoldFields fields values
  | .tuple types, .tuple items => HoldTypes types items
  | .variant cases, .variant name payload => HoldCase cases name payload
  | .enum names, .enum name => ∃ label ∈ names, label.text = name
  | .option ty, .option payload => ∀ value, payload = some value → ty.Holds value
  | .result ok _, .ok payload => HoldSide ok payload
  | .result _ err, .err payload => HoldSide err payload
  | .flags names, .flags set => ∀ name ∈ set, ∃ label ∈ names, label.text = name
  | _, _ => False

def HoldFields : List (Label × WitType) → List (Text × Val) → Prop
  | [], [] => True
  | (label, ty) :: fields, (name, value) :: values =>
      name = label.text ∧ ty.Holds value ∧ HoldFields fields values
  | _, _ => False

def HoldTypes : List WitType → List Val → Prop
  | [], [] => True
  | ty :: types, value :: values => ty.Holds value ∧ HoldTypes types values
  | _, _ => False

def HoldCase : List (Label × Option WitType) → Text → Option Val → Prop
  | [], _, _ => False
  | (label, ty) :: cases, name, payload =>
      (label.text = name ∧ HoldSide ty payload) ∨ HoldCase cases name payload

def HoldSide : Option WitType → Option Val → Prop
  | none, none => True
  | some ty, some value => ty.Holds value
  | _, _ => False

end

/-! ### What is read is a value of the type -/

theorem mapM_eq_some_iff {Item Value : Type} {read : Item → Option Value} {items : List Item}
    {values : List Value} :
    items.mapM read = some values ↔
      List.Forall₂ (fun item value => read item = some value) items values := by
  induction items generalizing values with
  | nil => cases values <;> simp
  | cons item rest inductionHypothesis =>
      cases values with
      | nil => simp [Option.bind_eq_some_iff]
      | cons value values =>
          simp [Option.bind_eq_some_iff, inductionHypothesis]

/-- The types of which only values are read. -/
def Sound (ty : WitType) : Prop := ∀ json value, ty.read json = some value → ty.Holds value

theorem forall_mem_of_forall₂ {Item Value : Type} {Related : Item → Value → Prop}
    {Holds : Value → Prop} (holds : ∀ item value, Related item value → Holds value)
    {items : List Item} {values : List Value} (related : List.Forall₂ Related items values) :
    ∀ value ∈ values, Holds value := by
  induction related with
  | nil => exact fun _ held => nomatch held
  | cons here _ inductionHypothesis =>
      exact List.forall_mem_cons.mpr ⟨holds _ _ here, inductionHypothesis⟩

theorem holds_of_meanFields {fields : List (Label × WitType)}
    (sound : ∀ field ∈ fields, Sound field.2) {object : JsonMap} {values : List (Text × Val)}
    (mean : meanFields fields object = some values) : HoldFields fields values := by
  induction fields generalizing values with
  | nil =>
      obtain rfl := Option.some.inj mean
      trivial
  | cons field rest inductionHypothesis =>
      obtain ⟨here, later⟩ := List.forall_mem_cons.mp sound
      simp only [meanFields, Option.bind_eq_bind, Option.bind_eq_some_iff, Option.pure_def,
        Option.some.injEq] at mean
      obtain ⟨value, read, others, fields, rfl⟩ := mean
      exact ⟨rfl, here _ _ read, inductionHypothesis later fields⟩

theorem holds_of_meanTypes {types : List WitType} (sound : ∀ ty ∈ types, Sound ty)
    {items : List Json} {values : List Val} (mean : meanTypes types items = some values) :
    HoldTypes types values := by
  induction types generalizing items values with
  | nil =>
      cases items with
      | nil =>
          obtain rfl := Option.some.inj mean
          trivial
      | cons _ _ => cases mean
  | cons ty types inductionHypothesis =>
      obtain ⟨here, later⟩ := List.forall_mem_cons.mp sound
      cases items with
      | nil => cases mean
      | cons json items =>
          simp only [meanTypes, Option.bind_eq_bind, Option.bind_eq_some_iff, Option.pure_def,
            Option.some.injEq] at mean
          obtain ⟨value, read, others, rest, rfl⟩ := mean
          exact ⟨here _ _ read, inductionHypothesis later rest⟩

theorem holds_of_meanSide {side : Option WitType} (sound : ∀ ty, side = some ty → Sound ty)
    {key : Text} {object : JsonMap} {payload : Option Val}
    (mean : meanSide side key object = some payload) : HoldSide side payload := by
  cases side with
  | none =>
      obtain rfl := Option.some.inj mean
      trivial
  | some ty =>
      obtain ⟨value, read, rfl⟩ := Option.map_eq_some_iff.mp mean
      exact sound ty rfl _ _ read

theorem holds_of_meanCase {cases : List (Label × Option WitType)}
    (sound : ∀ case ∈ cases, ∀ ty, case.2 = some ty → Sound ty) {tag : Text} {object : JsonMap}
    {value : Val} (mean : meanCase cases tag object = some value) :
    (WitType.variant cases).Holds value := by
  induction cases with
  | nil => cases mean
  | cons case rest inductionHypothesis =>
      obtain ⟨here, later⟩ := List.forall_mem_cons.mp sound
      rw [meanCase] at mean
      split at mean
      next =>
          simp only [Option.bind_eq_bind, Option.bind_eq_some_iff, Option.pure_def,
            Option.some.injEq] at mean
          obtain ⟨payload, read, rfl⟩ := mean
          exact .inl ⟨rfl, holds_of_meanSide here read⟩
      next =>
          have held := inductionHypothesis later mean
          cases value with
          | variant name payload => exact .inr held
          | _ => exact held.elim

theorem sound (ty : WitType) : Sound ty := by
  intro json value mean
  induction ty generalizing json value with
  | bool | float32 | float64 | string =>
      obtain ⟨_, _, rfl⟩ := Option.map_eq_some_iff.mp mean
      trivial
  | int kind =>
      obtain ⟨_, _, rfl⟩ := Option.map_eq_some_iff.mp mean
      rfl
  | char =>
      unfold WitType.read at mean
      split at mean
      next =>
          obtain rfl := Option.some.inj mean
          trivial
      next => cases mean
  | list item inductionHypothesis =>
      simp only [WitType.read, Option.bind_eq_bind, Option.bind_eq_some_iff, Option.pure_def,
        Option.some.injEq, mapM_eq_some_iff] at mean
      obtain ⟨items, _, values, read, rfl⟩ := mean
      exact forall_mem_of_forall₂ inductionHypothesis read
  | fixedLengthList item length inductionHypothesis =>
      simp only [WitType.read, Option.bind_eq_bind, Option.bind_eq_some_iff, Option.pure_def,
        Option.some.injEq, mapM_eq_some_iff, Option.ite_none_left_eq_some] at mean
      obtain ⟨items, _, long, values, read, rfl⟩ := mean
      exact ⟨read.length_eq.symm.trans (not_not.mp long),
        forall_mem_of_forall₂ inductionHypothesis read⟩
  | record fields inductionHypothesis =>
      simp only [WitType.read, Option.bind_eq_bind, Option.bind_eq_some_iff, Option.pure_def,
        Option.some.injEq, Option.ite_none_left_eq_some] at mean
      obtain ⟨object, _, _, values, read, rfl⟩ := mean
      exact holds_of_meanFields inductionHypothesis read
  | tuple types inductionHypothesis =>
      simp only [WitType.read, Option.bind_eq_bind, Option.bind_eq_some_iff, Option.pure_def,
        Option.some.injEq] at mean
      obtain ⟨items, _, values, read, rfl⟩ := mean
      exact holds_of_meanTypes inductionHypothesis read
  | variant cases inductionHypothesis =>
      simp only [WitType.read, Option.bind_eq_bind, Option.bind_eq_some_iff] at mean
      obtain ⟨object, _, tag, _, read⟩ := mean
      exact holds_of_meanCase inductionHypothesis read
  | enum names =>
      simp only [WitType.read, Option.bind_eq_bind, Option.bind_eq_some_iff, Option.pure_def,
        Option.some.injEq] at mean
      obtain ⟨text, _, label, found, rfl⟩ := mean
      exact ⟨label, List.mem_of_find?_eq_some found, rfl⟩
  | option payload inductionHypothesis =>
      unfold WitType.read at mean
      split at mean
      next =>
          obtain rfl := Option.some.inj mean
          exact fun _ held => nomatch held
      next =>
          obtain ⟨inner, read, rfl⟩ := Option.map_eq_some_iff.mp mean
          exact fun _ held => Option.some.inj held ▸ inductionHypothesis _ _ read
  | result ok err okHypothesis errHypothesis =>
      simp only [WitType.read, Option.bind_eq_bind, Option.bind_eq_some_iff, Option.pure_def] at mean
      obtain ⟨object, _, read⟩ := mean
      split at read
      next =>
          simp only [Option.bind_eq_some_iff, Option.some.injEq] at read
          obtain ⟨payload, side, rfl⟩ := read
          exact holds_of_meanSide okHypothesis side
      next =>
          simp only [Option.ite_none_right_eq_some, Option.bind_eq_some_iff,
            Option.some.injEq] at read
          obtain ⟨_, payload, side, rfl⟩ := read
          exact holds_of_meanSide errHypothesis side
  | flags names =>
      simp only [WitType.read, Option.bind_eq_bind, Option.bind_eq_some_iff, Option.pure_def,
        Option.some.injEq, mapM_eq_some_iff] at mean
      obtain ⟨items, _, set, read, rfl⟩ := mean
      refine forall_mem_of_forall₂ (fun item name flag => ?_) read
      obtain ⟨text, _, label, found, rfl⟩ := flag
      exact ⟨label, List.mem_of_find?_eq_some found, rfl⟩
  | map | own | borrow | future | stream | errorContext => cases mean

end ServerBox.Monitor.AppValue
