import ServerBox.Monitor.AppValueNames

/-!
# The JSON of the values of a type

What the values of a type are written as, and that a type which fits another reads all of its
JSON as whatever value of its own was meant.
-/

namespace ServerBox.Monitor.AppValue

open ServerBox.Std

/-- A JSON text that some value of a type is written as. -/
def WitType.Writes (ty : WitType) (json : Json) : Prop :=
  ∃ value, ty.Carries value ∧ value.toJson = json

/-- A member of an object with its JSON. -/
def WritesMember (member : Text × WitType) (pair : Text × Json) : Prop :=
  pair.1 = member.1 ∧ member.2.Writes pair.2

def jsonFields (fields : List (Label × WitType)) : List (Text × WitType) :=
  fields.map fun field => (field.1.camel, field.2)

/-- The JSON of every value of the second type is every value of the first to the first. -/
def Absorbs (ty other : WitType) : Prop :=
  ∀ value json, ty.Carries value → other.Writes json → ty.read json = some value

theorem Offered.exists_writes {ty : WitType} (offered : Offered ty) : ∃ json, ty.Writes json :=
  have ⟨value, carried⟩ := offered.exists_carries
  ⟨_, value, carried, rfl⟩

/-! ### What is written -/

theorem writes_items {types : List WitType} {values : List Val}
    (carried : List.Forall₂ WitType.Carries types values) :
    List.Forall₂ WitType.Writes types (itemsToJson values) := by
  induction carried with
  | nil => exact .nil
  | cons here _ inductionHypothesis => exact .cons ⟨_, here, rfl⟩ inductionHypothesis

theorem exists_items {types : List WitType} {items : List Json}
    (written : List.Forall₂ WitType.Writes types items) :
    ∃ values, List.Forall₂ WitType.Carries types values ∧ itemsToJson values = items := by
  induction written with
  | nil => exact ⟨[], .nil, rfl⟩
  | cons here _ inductionHypothesis =>
      obtain ⟨value, carried, rfl⟩ := here
      obtain ⟨values, others, rfl⟩ := inductionHypothesis
      exact ⟨value :: values, .cons carried others, rfl⟩

theorem writes_fields {fields : List (Label × WitType)} {values : List (Text × Val)}
    (carried : List.Forall₂ CarriesField fields values) :
    List.Forall₂ WritesMember (jsonFields fields) (fieldsToJson values) := by
  induction carried with
  | nil => exact .nil
  | @cons field value _ _ here _ inductionHypothesis =>
      exact .cons ⟨congrArg camel here.1, value.2, here.2, rfl⟩ inductionHypothesis

theorem exists_fields {fields : List (Label × WitType)} {pairs : List (Text × Json)}
    (written : List.Forall₂ WritesMember (jsonFields fields) pairs) :
    ∃ values, List.Forall₂ CarriesField fields values ∧ fieldsToJson values = pairs := by
  induction fields generalizing pairs with
  | nil =>
      cases written
      exact ⟨[], .nil, rfl⟩
  | cons field fields inductionHypothesis =>
      cases written with
      | @cons _ pair _ _ here later =>
          obtain ⟨name, json⟩ := pair
          obtain ⟨rfl, value, carried, rfl⟩ := here
          obtain ⟨values, others, rfl⟩ := inductionHypothesis later
          exact ⟨(field.1.text, value) :: values, .cons ⟨rfl, carried⟩ others, rfl⟩

theorem writes_enum {names : List Label} {json : Json} :
    (WitType.enum names).Writes json ↔ ∃ label ∈ names, json = .string label.camel := by
  constructor
  · rintro ⟨value, carried, rfl⟩
    obtain ⟨label, member, rfl⟩ := carries_enum.mp carried
    exact ⟨label, member, rfl⟩
  · rintro ⟨label, member, rfl⟩
    exact ⟨_, carries_enum.mpr ⟨label, member, rfl⟩, rfl⟩

theorem writes_sole {ty : WitType} {text : Text} (sole : ty.sole = some text) {json : Json} :
    ty.Writes json ↔ json = .string text := by
  unfold WitType.sole at sole
  split at sole
  next name =>
      obtain rfl := Option.some.inj sole
      simp [writes_enum]
  next => cases sole

theorem writes_record {fields : List (Label × WitType)} {json : Json} :
    (WitType.record fields).Writes json ↔
      ∃ pairs, List.Forall₂ WritesMember (jsonFields fields) pairs ∧
        json = .object (JsonMap.collect pairs) := by
  constructor
  · rintro ⟨value, carried, rfl⟩
    obtain ⟨values, rfl, held⟩ := carries_record.mp carried
    exact ⟨_, writes_fields held, rfl⟩
  · rintro ⟨pairs, written, rfl⟩
    obtain ⟨values, held, rfl⟩ := exists_fields written
    exact ⟨_, carries_record.mpr ⟨values, rfl, held⟩, rfl⟩

theorem writes_tag {label : Label} {json : Json} :
    (WitType.enum [label]).Writes json ↔ json = .string label.camel := by
  simp [writes_enum]

theorem writes_members {ty : WitType} {members : List (Text × WitType)}
    (same : ty.members = some members) {json : Json} :
    ty.Writes json ↔
      ∃ pairs, List.Forall₂ WritesMember members pairs ∧ json = .object (JsonMap.collect pairs) := by
  unfold WitType.members at same
  split at same
  next fields =>
      obtain rfl := Option.some.inj same
      exact writes_record
  next label =>
      obtain rfl := Option.some.inj same
      constructor
      · rintro ⟨value, carried, rfl⟩
        obtain ⟨_, member, payload, rfl, side⟩ := carries_variant.mp carried
        obtain rfl := List.mem_singleton.mp member
        cases side
        exact ⟨[("tag".toList, .string label.camel)], .cons ⟨rfl, writes_tag.mpr rfl⟩ .nil, rfl⟩
      · rintro ⟨pairs, written, rfl⟩
        obtain ⟨⟨key, tag⟩, _, ⟨rfl, tagged⟩, rest, rfl⟩ := List.forall₂_cons_left_iff.mp written
        obtain rfl := List.forall₂_nil_left_iff.mp rest
        obtain rfl := writes_tag.mp tagged
        exact ⟨_, carries_variant.mpr ⟨_, List.mem_singleton_self _, none, rfl, .none⟩, rfl⟩
  next label payload =>
      obtain rfl := Option.some.inj same
      constructor
      · rintro ⟨value, carried, rfl⟩
        obtain ⟨_, member, side, rfl, held⟩ := carries_variant.mp carried
        obtain rfl := List.mem_singleton.mp member
        cases held with
        | @some _ value inner =>
            exact ⟨[("tag".toList, .string label.camel), ("val".toList, value.toJson)],
              .cons ⟨rfl, writes_tag.mpr rfl⟩ (.cons ⟨rfl, value, inner, rfl⟩ .nil), rfl⟩
      · rintro ⟨pairs, written, rfl⟩
        obtain ⟨⟨key, tag⟩, _, ⟨rfl, tagged⟩, rest, rfl⟩ := List.forall₂_cons_left_iff.mp written
        obtain ⟨⟨key, _⟩, _, ⟨rfl, value, inner, rfl⟩, last, rfl⟩ :=
          List.forall₂_cons_left_iff.mp rest
        obtain rfl := List.forall₂_nil_left_iff.mp last
        obtain rfl := writes_tag.mp tagged
        exact ⟨_, carries_variant.mpr ⟨_, List.mem_singleton_self _, some value, rfl, .some inner⟩,
          rfl⟩
  next => cases same

theorem forall₂_replicate_iff {Item Value : Type} {Related : Item → Value → Prop} {item : Item}
    {count : Nat} {values : List Value} :
    List.Forall₂ Related (List.replicate count item) values ↔
      values.length = count ∧ ∀ value ∈ values, Related item value := by
  induction count generalizing values with
  | zero => cases values <;> simp
  | succ count inductionHypothesis =>
      cases values with
      | nil => simp [List.replicate_succ]
      | cons value values =>
          simp only [List.replicate_succ, List.forall₂_cons, inductionHypothesis, List.length_cons,
            Nat.succ_inj, List.forall_mem_cons]
          exact ⟨fun ⟨here, long, later⟩ => ⟨long, here, later⟩,
            fun ⟨long, here, later⟩ => ⟨here, long, later⟩⟩

theorem writes_tuple {types : List WitType} {json : Json} :
    (WitType.tuple types).Writes json ↔
      ∃ items, List.Forall₂ WitType.Writes types items ∧ json = .array items := by
  constructor
  · rintro ⟨value, carried, rfl⟩
    obtain ⟨values, rfl, held⟩ := carries_tuple.mp carried
    exact ⟨_, writes_items held, rfl⟩
  · rintro ⟨items, written, rfl⟩
    obtain ⟨values, held, rfl⟩ := exists_items written
    exact ⟨_, carries_tuple.mpr ⟨values, rfl, held⟩, rfl⟩

theorem writes_fixedLengthList {item : WitType} {length : Nat} {json : Json} :
    (WitType.fixedLengthList item length).Writes json ↔
      ∃ items, List.Forall₂ WitType.Writes (List.replicate length item) items ∧
        json = .array items := by
  constructor
  · rintro ⟨value, carried, rfl⟩
    obtain ⟨values, rfl, held⟩ := carries_fixedLengthList.mp carried
    exact ⟨_, writes_items (forall₂_replicate_iff.mpr held), rfl⟩
  · rintro ⟨items, written, rfl⟩
    obtain ⟨values, held, rfl⟩ := exists_items written
    exact ⟨_, carries_fixedLengthList.mpr ⟨values, rfl, forall₂_replicate_iff.mp held⟩, rfl⟩

theorem writes_elements {ty : WitType} {elements : List WitType}
    (same : ty.elements = some elements) {json : Json} :
    ty.Writes json ↔ ∃ items, List.Forall₂ WitType.Writes elements items ∧ json = .array items := by
  unfold WitType.elements at same
  split at same
  next types =>
      obtain rfl := Option.some.inj same
      exact writes_tuple
  next item length =>
      obtain rfl := Option.some.inj same
      exact writes_fixedLengthList
  next => cases same

/-- The last JSON of a name is one of the last type of that name. -/
theorem lookupLast_of_writes {members : List (Text × WitType)} {pairs : List (Text × Json)}
    (written : List.Forall₂ WritesMember members pairs) (name : Text) :
    Option.Rel WitType.Writes (lookupLast name members) (lookupLast name pairs) := by
  induction written with
  | nil => exact .none
  | @cons member pair members pairs here _ inductionHypothesis =>
      obtain ⟨key, ty⟩ := member
      obtain ⟨own, json⟩ := pair
      obtain ⟨rfl, written⟩ := here
      rw [lookupLast, lookupLast]
      generalize lookupLast name members = last, lookupLast name pairs = found
        at inductionHypothesis ⊢
      cases inductionHypothesis with
      | some found => exact .some found
      | none =>
          by_cases same : own = name
          · simp only [same, if_true]
            exact .some written
          · simp only [same, if_false]
            exact .none

/-- The JSON found under a name, when the members have a type for it. -/
theorem exists_get {members : List (Text × WitType)} {pairs : List (Text × Json)}
    (written : List.Forall₂ WritesMember members pairs) {name : Text} {ty : WitType}
    (last : lookupLast name members = some ty) :
    ∃ json, JsonMap.get name (JsonMap.collect pairs) = some json ∧ ty.Writes json := by
  have related := lookupLast_of_writes written name
  rw [last] at related
  rw [JsonMap.get_collect]
  cases found : lookupLast name pairs with
  | none =>
      rw [found] at related
      cases related
  | some json =>
      rw [found] at related
      exact ⟨json, rfl, Option.rel_some_some.mp related⟩

theorem keys_eq_of_writes {members : List (Text × WitType)} {pairs : List (Text × Json)}
    (written : List.Forall₂ WritesMember members pairs) :
    pairs.map Prod.fst = members.map Prod.fst := by
  induction written with
  | nil => rfl
  | cons here _ inductionHypothesis => simp [here.1, inductionHypothesis]

/-! ### A type that fits another reads its JSON -/

theorem meanFields_eq_some_iff {fields : List (Label × WitType)} {object : JsonMap}
    {values : List (Text × Val)} :
    meanFields fields object = some values ↔
      List.Forall₂ (fun (field : Label × WitType) (value : Text × Val) => value.1 = field.1.text ∧
        field.2.read ((JsonMap.get field.1.camel object).getD .null) = some value.2)
        fields values := by
  induction fields generalizing values with
  | nil => cases values <;> simp [meanFields]
  | cons field fields inductionHypothesis =>
      cases values with
      | nil => simp [meanFields, Option.bind_eq_some_iff]
      | cons value values =>
          obtain ⟨name, value⟩ := value
          simp only [meanFields, Option.bind_eq_bind, Option.bind_eq_some_iff, Option.pure_def,
            Option.some.injEq, List.cons.injEq, Prod.mk.injEq, List.forall₂_cons,
            ← inductionHypothesis]
          constructor
          · rintro ⟨_, read, _, rest, ⟨rfl, rfl⟩, rfl⟩
            exact ⟨⟨rfl, read⟩, rest⟩
          · rintro ⟨⟨rfl, read⟩, rest⟩
            exact ⟨_, read, _, rest, ⟨rfl, rfl⟩, rfl⟩

theorem unknownField_eq_none_iff {fields : List (Label × WitType)} {object : JsonMap} :
    unknownField fields object = none ↔
      ∀ key ∈ object.map Prod.fst, ∃ field ∈ fields, field.1.camel = key := by
  rw [unknownField, List.find?_eq_none]
  simp

theorem unknownField_collect {fields : List (Label × WitType)} {pairs : List (Text × Json)} :
    unknownField fields (JsonMap.collect pairs) = none ↔
      ∀ key ∈ pairs.map Prod.fst, ∃ field ∈ fields, field.1.camel = key := by
  simp only [unknownField_eq_none_iff, JsonMap.mem_keys_collect]

theorem fitsFields_iff {fields : List (Label × WitType)} {members : List (Text × WitType)} :
    fitsFields fields members = true ↔
      ∀ field ∈ fields, ∃ other, lookupLast field.1.camel members = some other ∧
        field.2.fits other = true := by
  induction fields with
  | nil => simp [fitsFields]
  | cons field fields inductionHypothesis =>
      rw [fitsFields, Bool.and_eq_true_iff, inductionHypothesis, List.forall_mem_cons]
      refine and_congr_left fun _ => ?_
      cases lookupLast field.1.camel members <;> simp

/-- The types that read the JSON of every type they fit. -/
def AbsorbsFits (ty : WitType) : Prop := ∀ other, ty.fits other = true → Absorbs ty other

theorem absorbs_record {fields : List (Label × WitType)}
    (each : ∀ field ∈ fields, AbsorbsFits field.2) : AbsorbsFits (.record fields) := by
  intro other fits value json carried written
  rw [WitType.fits] at fits
  split at fits
  next members same =>
      obtain ⟨known, fits⟩ := Bool.and_eq_true_iff.mp fits
      obtain ⟨pairs, held, rfl⟩ := (writes_members same).mp written
      obtain ⟨values, rfl, inside⟩ := carries_record.mp carried
      have none : unknownField fields (JsonMap.collect pairs) = none := by
        rw [unknownField_collect, keys_eq_of_writes held]
        simpa using known
      have mean : meanFields fields (JsonMap.collect pairs) = some values := by
        have all := (List.forall₂_and_left _ _).mpr ⟨each, inside⟩
        have both := (List.forall₂_and_left _ _).mpr ⟨fitsFields_iff.mp fits, all⟩
        refine meanFields_eq_some_iff.mpr (both.imp ?_)
        rintro field value ⟨⟨other, last, fits⟩, absorbs, name, carried⟩
        obtain ⟨json, found, written⟩ := exists_get held last
        exact ⟨name, by rw [found]; exact absorbs other fits _ _ carried written⟩
      simp [WitType.read, Json.asObject, none, mean]
  next => cases fits

theorem absorbs_types {types others : List WitType} (each : ∀ ty ∈ types, AbsorbsFits ty)
    (fits : fitsTypes types others = true) {values : List Val} {items : List Json}
    (carried : List.Forall₂ WitType.Carries types values)
    (written : List.Forall₂ WitType.Writes others items) :
    meanTypes types items = some values := by
  induction types generalizing others values items with
  | nil =>
      cases others with
      | nil =>
          cases carried
          cases written
          rfl
      | cons _ _ => cases fits
  | cons ty types inductionHypothesis =>
      cases others with
      | nil => cases fits
      | cons other others =>
          obtain ⟨first, rest⟩ := Bool.and_eq_true_iff.mp fits
          obtain ⟨absorbs, later⟩ := List.forall_mem_cons.mp each
          obtain ⟨value, values, here, others, rfl⟩ := List.forall₂_cons_left_iff.mp carried
          obtain ⟨json, items, own, after, rfl⟩ := List.forall₂_cons_left_iff.mp written
          simp [meanTypes, absorbs other first _ _ here own,
            inductionHypothesis later rest others after]

theorem absorbs_items {item : WitType} (absorbs : AbsorbsFits item) {others : List WitType}
    (fits : ∀ other ∈ others, item.fits other = true) {values : List Val} {items : List Json}
    (long : values.length = others.length) (carried : ∀ value ∈ values, item.Carries value)
    (written : List.Forall₂ WitType.Writes others items) :
    items.mapM item.read = some values := by
  rw [mapM_eq_some_iff]
  induction written generalizing values with
  | nil =>
      obtain rfl := List.length_eq_zero_iff.mp long
      exact .nil
  | cons here _ inductionHypothesis =>
      obtain ⟨value, values, rfl⟩ := List.exists_cons_of_length_eq_add_one long
      obtain ⟨first, rest⟩ := List.forall_mem_cons.mp fits
      obtain ⟨own, carried⟩ := List.forall_mem_cons.mp carried
      exact .cons (absorbs _ first _ _ own here)
        (inductionHypothesis rest (Nat.succ.inj long) carried)

theorem absorbs_variant {label : Label} {payload : Option WitType}
    (each : ∀ ty, payload = some ty → AbsorbsFits ty) : AbsorbsFits (.variant [(label, payload)]) := by
  intro other fits value json carried written
  rw [WitType.fits] at fits
  split at fits
  next members same =>
      obtain ⟨tagged, fits⟩ := Bool.and_eq_true_iff.mp fits
      obtain ⟨pairs, held, rfl⟩ := (writes_members same).mp written
      obtain ⟨_, member, side, rfl, inside⟩ := carries_variant.mp carried
      obtain rfl := List.mem_singleton.mp member
      obtain ⟨tag, last, sole⟩ := Option.bind_eq_some_iff.mp (of_decide_eq_true tagged)
      obtain ⟨text, found, own⟩ := exists_get held last
      obtain rfl := (writes_sole sole).mp own
      have mean : meanSide payload "val".toList (JsonMap.collect pairs) = some side := by
        cases inside with
        | none => rfl
        | @some ty value inner =>
            rw [fitsSide] at fits
            split at fits
            next other last =>
                obtain ⟨json, found, written⟩ := exists_get held last
                rw [meanSide, found]
                exact congrArg (Option.map some) (each ty rfl other fits _ _ inner written)
            next => cases fits
      simp only [WitType.read, Json.asObject, found, Json.asStr, meanCase, mean, if_true,
        Option.bind_eq_bind, Option.bind_some, Option.pure_def]
  next => cases fits

theorem absorbs_of_fits (ty : WitType) : AbsorbsFits ty := by
  induction ty with
  | bool | int | float32 | float64 | char | string | list | option | result | flags | map | own
  | borrow | future | stream | errorContext => exact fun other fits => nomatch fits
  | fixedLengthList item length inductionHypothesis =>
      intro other fits value json carried written
      rw [WitType.fits] at fits
      split at fits
      next others same =>
          obtain ⟨count, fits⟩ := Bool.and_eq_true_iff.mp fits
          have count : others.length = length := of_decide_eq_true count
          obtain ⟨items, held, rfl⟩ := (writes_elements same).mp written
          obtain ⟨values, rfl, long, each⟩ := carries_fixedLengthList.mp carried
          have mean := absorbs_items inductionHypothesis (List.all_eq_true.mp fits)
            (long.trans count.symm) each held
          simp [WitType.read, Json.asArray, held.length_eq.symm.trans count, mean]
      next => cases fits
  | record fields inductionHypothesis => exact absorbs_record inductionHypothesis
  | tuple types inductionHypothesis =>
      intro other fits value json carried written
      rw [WitType.fits] at fits
      split at fits
      next others same =>
          obtain ⟨items, held, rfl⟩ := (writes_elements same).mp written
          obtain ⟨values, rfl, each⟩ := carries_tuple.mp carried
          simp [WitType.read, Json.asArray, absorbs_types inductionHypothesis fits each held]
      next => cases fits
  | variant cases inductionHypothesis =>
      intro other fits
      rcases cases with _ | ⟨⟨label, payload⟩, _ | _⟩
      · cases fits
      · exact absorbs_variant (inductionHypothesis _ (List.mem_singleton_self _)) other fits
      · cases fits
  | enum names =>
      intro other fits value json carried written
      rcases names with _ | ⟨name, _ | _⟩
      · cases fits
      · obtain rfl := (writes_sole (of_decide_eq_true fits)).mp written
        obtain ⟨label, member, rfl⟩ := carries_enum.mp carried
        obtain rfl := List.mem_singleton.mp member
        simp [WitType.read, Json.asStr]
      · cases fits

end ServerBox.Monitor.AppValue
