import ServerBox.Monitor.AppValueFits
import Mathlib.Data.List.Nodup

/-!
# Which values come back from JSON

Every value of a type comes back from the JSON it is written as exactly when no JSON name of
the type stands for two things, and what comes back is a value of the type in any case.
-/

namespace ServerBox.Monitor.AppValue

open ServerBox.Std

/-- The types whose values come back. -/
def RoundTrips (ty : WitType) : Prop := ∀ value, ty.Carries value → ty.read value.toJson = some value

/-! ### Numbers -/

theorem tryFrom_val {kind : IntKind} (value : kind.Value) : kind.tryFrom value.val = some value :=
  dif_pos value.property

theorem int_ofInt (kind : IntKind) (value : kind.Value) (path : Text) :
    int kind (.number (.ofInt value (kind.bounded value))) path = .ok value := by
  by_cases sign : value.val < 0
  · rw [JsonNumber.ofInt, dif_pos sign]
    simp [int, Json.asU64, Json.asI64, JsonNumber.asU64, JsonNumber.asI64, tryFrom_val, orError]
  · have same : ((value.val.toNat : Nat) : Int) = value.val := Int.toNat_of_nonneg (not_lt.mp sign)
    rw [JsonNumber.ofInt, dif_neg sign]
    simp only [int, Json.asU64, JsonNumber.asU64, same, tryFrom_val, orError]

theorem roundTrips_int (kind : IntKind) : RoundTrips (.int kind) := by
  rintro value ⟨holds, -⟩
  cases value with
  | int other value =>
      obtain rfl : other = kind := holds
      simp [WitType.read, Val.toJson, int_ofInt]
  | _ => exact holds.elim

theorem roundTrips_float32 : RoundTrips .float32 := by
  rintro value ⟨holds, finite⟩
  cases value with
  | float32 value =>
      have ⟨wide, back⟩ := BinaryFloat.convert_convert FloatFormat.binary32_embeds finite
      simp [WitType.read, Val.toJson, JsonNumber.fromF64, wide, Json.asF64, JsonNumber.asF64, back]
  | _ => exact holds.elim

theorem roundTrips_float64 : RoundTrips .float64 := by
  rintro value ⟨holds, finite⟩
  cases value with
  | float64 value =>
      have finite : value.IsFinite := finite
      simp [WitType.read, Val.toJson, JsonNumber.fromF64, finite, Json.asF64, JsonNumber.asF64]
  | _ => exact holds.elim

/-! ### Names -/

/-- Names keep items apart exactly when each item is the first of its own. -/
theorem nodup_map_iff_find? {Item : Type} {items : List Item}
    (distinct : items.Nodup) (name : Item → Text) :
    (items.map name).Nodup ↔
      ∀ item ∈ items, items.find? (fun other => name other = name item) = some item := by
  rw [List.nodup_map_iff_inj_on distinct]
  constructor
  · intro apart item member
    cases found : items.find? (fun other => name other = name item) with
    | none =>
        have none := List.find?_eq_none.mp found item member
        simp at none
    | some other =>
        have same := List.find?_some found
        exact congrArg some
          (apart other (List.mem_of_find?_eq_some found) item member (of_decide_eq_true same))
  · intro first item member other otherMember same
    have found := first item member
    rw [same, first other otherMember] at found
    exact (Option.some.inj found).symm

theorem roundTrips_enum {names : List Label} (legal : areLabels names = true) :
    RoundTrips (.enum names) ↔ apart names = true := by
  have ⟨_, distinct⟩ := of_areLabels legal
  rw [apart, decide_eq_true_iff, nodup_map_iff_find? distinct]
  constructor
  · intro roundTrips label member
    have read := roundTrips _ (carries_enum.mpr ⟨label, member, rfl⟩)
    simp only [WitType.read, Val.toJson, Json.asStr, Option.bind_eq_bind, Option.bind_some,
      Option.bind_eq_some_iff, Option.pure_def, Option.some.injEq, Val.enum.injEq] at read
    obtain ⟨other, found, text⟩ := read
    rw [Label.ext text] at found
    exact found
  · intro first value carried
    obtain ⟨label, member, rfl⟩ := carries_enum.mp carried
    have found := first label member
    rw [Label.camel] at found
    simp [WitType.read, Val.toJson, Json.asStr, found]

theorem roundTrips_flags {names : List Label} (legal : areLabels names = true) :
    RoundTrips (.flags names) ↔ apart names = true := by
  have ⟨_, distinct⟩ := of_areLabels legal
  rw [apart, decide_eq_true_iff, nodup_map_iff_find? distinct]
  have read : ∀ set : List Text, (WitType.flags names).read (Val.flags set).toJson =
      some (.flags set) ↔ ∀ name ∈ set, ∃ label,
        names.find? (fun other => other.camel = camel name) = some label ∧ label.text = name := by
    intro set
    simp only [WitType.read, Val.toJson, Json.asArray, Option.bind_eq_bind, Option.bind_some,
      Option.bind_eq_some_iff, Option.pure_def, Option.some.injEq, Val.flags.injEq,
      exists_eq_right, mapM_eq_some_iff, List.forall₂_map_left_iff, Json.asStr_eq_some_iff,
      Json.string.injEq, List.forall₂_same]
    simp
  constructor
  · intro roundTrips label member
    have back := roundTrips _
      (carries_flags.mpr ⟨[label.text], rfl, by simpa using ⟨label, member, rfl⟩⟩)
    obtain ⟨other, found, text⟩ := (read _).mp back _ (List.mem_singleton_self _)
    rw [Label.ext text] at found
    exact found
  · intro first value carried
    obtain ⟨set, rfl, held⟩ := carries_flags.mp carried
    refine (read set).mpr fun name member => ?_
    obtain ⟨label, known, rfl⟩ := held name member
    exact ⟨label, first label known, rfl⟩

/-! ### Payloads -/

theorem meanSide_of_get {side : Option WitType} (inside : ∀ ty, side = some ty → RoundTrips ty)
    {payload : Option Val} (held : CarriesSide side payload) {key : Text} {object : JsonMap}
    (found : ((JsonMap.get key object).getD .null) = (payloadToJson payload).getD .null) :
    meanSide side key object = some payload := by
  cases held with
  | none => rfl
  | @some ty value carried =>
      rw [meanSide, found]
      exact congrArg (Option.map some) (inside ty rfl value carried)

theorem read_of_meanSide {ty : WitType} {value : Val} {key : Text} {object : JsonMap}
    (found : JsonMap.get key object = some value.toJson)
    (mean : meanSide (some ty) key object = some (some value)) :
    ty.read value.toJson = some value := by
  rw [meanSide, found] at mean
  obtain ⟨_, read, shown⟩ := Option.map_eq_some_iff.mp mean
  exact Option.some.inj shown ▸ read

/-- The first case of a tag, with its payload. -/
theorem meanCase_eq (cases : List (Label × Option WitType)) (tag : Text) (object : JsonMap) :
    meanCase cases tag object =
      (cases.find? fun case => case.1.camel = tag).bind fun case =>
        (meanSide case.2 "val".toList object).map (.variant case.1.text) := by
  induction cases with
  | nil => rfl
  | cons case rest inductionHypothesis =>
      rw [meanCase, List.find?_cons]
      split
      next same => simp [same, Option.map_eq_bind]
      next other => simp [other, inductionHypothesis]

theorem toJson_variant_val (name : Text) (payload : Option Val) :
    ∃ object, (Val.variant name payload).toJson = .object object ∧
      JsonMap.get "tag".toList object = some (.string (camel name)) ∧
      JsonMap.get "val".toList object = payloadToJson payload := by
  cases payload <;> exact ⟨_, rfl, rfl, rfl⟩

theorem roundTrips_variant {cases : List (Label × Option WitType)}
    (offered : Offered (.variant cases)) :
    RoundTrips (.variant cases) ↔ apart (cases.map Prod.fst) = true ∧
      ∀ case ∈ cases, ∀ ty, case.2 = some ty → RoundTrips ty := by
  cases offered with
  | variant legal inside =>
      have ⟨_, labels⟩ := of_areLabels legal
      have distinct : cases.Nodup := List.Nodup.of_map _ labels
      have read : ∀ case ∈ cases, ∀ payload, ∃ object,
          JsonMap.get "val".toList object = payloadToJson payload ∧
          ((WitType.variant cases).read (Val.variant case.1.text payload).toJson =
            some (.variant case.1.text payload) ↔
          (cases.find? fun other => other.1.camel = case.1.camel) = some case ∧
            meanSide case.2 "val".toList object = some payload) := by
        intro case member payload
        obtain ⟨object, shown, tag, val⟩ := toJson_variant_val case.1.text payload
        refine ⟨object, val, ?_⟩
        rw [shown]
        simp only [WitType.read, Json.asObject, tag, Json.asStr, Option.bind_eq_bind,
          Option.bind_some, meanCase_eq, Option.bind_eq_some_iff, Option.map_eq_some_iff,
          Val.variant.injEq]
        constructor
        · rintro ⟨other, found, _, mean, text, rfl⟩
          have same : other = case := by
            have member' := List.mem_of_find?_eq_some found
            exact List.inj_on_of_nodup_map labels member' member (Label.ext text)
          subst same
          exact ⟨found, mean⟩
        · rintro ⟨found, mean⟩
          exact ⟨case, found, payload, mean, rfl, rfl⟩
      rw [apart, decide_eq_true_iff, List.map_map, nodup_map_iff_find? distinct]
      constructor
      · intro roundTrips
        refine ⟨fun case member => ?_, fun case member ty same value carried => ?_⟩
        · obtain ⟨payload, held⟩ := exists_carriesSide fun ty same =>
            (inside case member ty same).exists_carries
          obtain ⟨object, -, back⟩ := read case member payload
          exact (back.mp
            (roundTrips _ (carries_variant.mpr ⟨case, member, payload, rfl, held⟩))).1
        · have held : CarriesSide case.2 (some value) := same ▸ .some carried
          obtain ⟨object, val, back⟩ := read case member (some value)
          have mean := (back.mp
            (roundTrips _ (carries_variant.mpr ⟨case, member, _, rfl, held⟩))).2
          rw [same] at mean
          exact read_of_meanSide val mean
      · rintro ⟨first, each⟩ value carried
        obtain ⟨case, member, payload, rfl, held⟩ := carries_variant.mp carried
        obtain ⟨object, val, back⟩ := read case member payload
        exact back.mpr ⟨first case member, meanSide_of_get (each case member) held (by rw [val])⟩

theorem read_result_ok (ok err : Option WitType) (json : Json) :
    (WitType.result ok err).read (.object [("ok".toList, json)]) =
      (meanSide ok "ok".toList [("ok".toList, json)]).map .ok := by
  rw [Option.map_eq_bind]
  rfl

theorem read_result_err (ok err : Option WitType) (json : Json) :
    (WitType.result ok err).read (.object [("err".toList, json)]) =
      (meanSide err "err".toList [("err".toList, json)]).map .err := by
  rw [Option.map_eq_bind]
  rfl

theorem roundTrips_result {ok err : Option WitType} :
    RoundTrips (.result ok err) ↔
      (∀ ty, ok = some ty → RoundTrips ty) ∧ ∀ ty, err = some ty → RoundTrips ty := by
  constructor
  · refine fun roundTrips => ⟨?_, ?_⟩
    · rintro ty rfl value carried
      have back := roundTrips _ (carries_result.mpr ⟨some value, .inl ⟨rfl, .some carried⟩⟩)
      rw [Val.toJson] at back
      obtain ⟨_, mean, shown⟩ := Option.map_eq_some_iff.mp ((read_result_ok _ _ _).symm.trans back)
      obtain rfl := Val.ok.inj shown
      exact read_of_meanSide rfl mean
    · rintro ty rfl value carried
      have back := roundTrips _ (carries_result.mpr ⟨some value, .inr ⟨rfl, .some carried⟩⟩)
      rw [Val.toJson] at back
      obtain ⟨_, mean, shown⟩ := Option.map_eq_some_iff.mp ((read_result_err _ _ _).symm.trans back)
      obtain rfl := Val.err.inj shown
      exact read_of_meanSide rfl mean
  · rintro ⟨okEach, errEach⟩ value carried
    obtain ⟨payload, ⟨rfl, held⟩ | ⟨rfl, held⟩⟩ := carries_result.mp carried
    · refine (read_result_ok _ _ _).trans (Option.map_eq_some_iff.mpr ⟨payload, ?_, rfl⟩)
      exact meanSide_of_get okEach held rfl
    · refine (read_result_err _ _ _).trans (Option.map_eq_some_iff.mpr ⟨payload, ?_, rfl⟩)
      exact meanSide_of_get errEach held rfl

/-- Of the types without an option at their top, no finite value is `null`. -/
theorem toJson_ne_null {ty : WitType} (offered : Offered ty) (single : ∀ inner, ty ≠ .option inner)
    {value : Val} (carried : ty.Carries value) : value.toJson ≠ .null := by
  intro null
  cases offered with
  | float32 =>
      obtain ⟨holds, finite⟩ := carried
      cases value with
      | float32 value =>
          have ⟨wide, _⟩ := BinaryFloat.convert_convert FloatFormat.binary32_embeds finite
          simp [Val.toJson, JsonNumber.fromF64, wide] at null
      | _ => exact holds.elim
  | float64 =>
      obtain ⟨holds, finite⟩ := carried
      cases value with
      | float64 value =>
          have finite : value.IsFinite := finite
          simp [Val.toJson, JsonNumber.fromF64, finite] at null
      | _ => exact holds.elim
  | option _ _ => exact single _ rfl
  | _ =>
      have holds := carried.holds
      cases value <;> first | exact holds.elim | cases null

theorem read_option {ty : WitType} {json : Json} (notNull : json ≠ .null) :
    (WitType.option ty).read json = (ty.read json).map fun value => .option (some value) := by
  cases json with
  | null => exact absurd rfl notNull
  | _ => rfl

theorem roundTrips_option {ty : WitType} (single : ∀ inner, ty ≠ .option inner)
    (offered : Offered ty) : RoundTrips (.option ty) ↔ RoundTrips ty := by
  have inner : ∀ value, ty.Carries value → ((WitType.option ty).read (Val.option (some value)).toJson =
      some (.option (some value)) ↔ ty.read value.toJson = some value) := by
    intro value carried
    rw [show (Val.option (some value)).toJson = value.toJson from rfl,
      read_option (toJson_ne_null offered single carried)]
    simp
  constructor
  · intro roundTrips value carried
    exact (inner value carried).mp (roundTrips _ (carries_option.mpr ⟨some value, rfl, by simpa⟩))
  · intro roundTrips value carried
    obtain ⟨payload, rfl, held⟩ := carries_option.mp carried
    cases payload with
    | none => rfl
    | some value => exact (inner value (held value rfl)).mpr (roundTrips value (held value rfl))

/-! ### Items -/

theorem itemsToJson_eq_map (items : List Val) : itemsToJson items = items.map Val.toJson := by
  induction items with
  | nil => rfl
  | cons value rest inductionHypothesis => simp [itemsToJson, inductionHypothesis]

theorem mapM_items {item : WitType} {items values : List Val} :
    (itemsToJson items).mapM item.read = some values ↔
      List.Forall₂ (fun value back => item.read value.toJson = some back) items values := by
  rw [mapM_eq_some_iff, itemsToJson_eq_map, List.forall₂_map_left_iff]

theorem roundTrips_list {item : WitType} : RoundTrips (.list item) ↔ RoundTrips item := by
  have read : ∀ items, (WitType.list item).read (Val.list items).toJson = some (.list items) ↔
      ∀ value ∈ items, item.read value.toJson = some value := by
    intro items
    simp only [WitType.read, Val.toJson, Json.asArray, Option.bind_eq_bind, Option.bind_some,
      Option.bind_eq_some_iff, Option.pure_def, Option.some.injEq, Val.list.injEq, exists_eq_right,
      mapM_items, List.forall₂_same]
  constructor
  · intro roundTrips value carried
    exact (read [value]).mp (roundTrips _ (carries_list.mpr ⟨[value], rfl, by simpa⟩)) value
      (List.mem_singleton_self _)
  · intro roundTrips value carried
    obtain ⟨items, rfl, held⟩ := carries_list.mp carried
    exact (read items).mpr fun value member => roundTrips value (held value member)

theorem roundTrips_fixedLengthList {item : WitType} {length : Nat} :
    RoundTrips (.fixedLengthList item length) ↔ length = 0 ∨ RoundTrips item := by
  have read : ∀ items : List Val, items.length = length →
      ((WitType.fixedLengthList item length).read (Val.fixedLengthList items).toJson =
        some (.fixedLengthList items) ↔ ∀ value ∈ items, item.read value.toJson = some value) := by
    intro items long
    have long : (itemsToJson items).length = length := by simp [itemsToJson_eq_map, long]
    simp only [WitType.read, Val.toJson, Json.asArray, Option.bind_eq_bind, Option.bind_some,
      long, ne_eq, not_true_eq_false, if_false,
      Option.bind_eq_some_iff, Option.pure_def, Option.some.injEq, Val.fixedLengthList.injEq,
      exists_eq_right, mapM_items, List.forall₂_same]
  constructor
  · intro roundTrips
    refine or_iff_not_imp_left.mpr fun positive value carried => ?_
    have back := roundTrips (.fixedLengthList (List.replicate length value))
      (carries_fixedLengthList.mpr ⟨_, rfl, List.length_replicate,
        fun _ held => (List.mem_replicate.mp held).2 ▸ carried⟩)
    exact (read _ List.length_replicate).mp back value (List.mem_replicate.mpr ⟨positive, rfl⟩)
  · intro either value carried
    obtain ⟨items, rfl, long, held⟩ := carries_fixedLengthList.mp carried
    refine (read items long).mpr fun value member => ?_
    rcases either with zero | roundTrips
    · have positive := List.length_pos_of_mem member
      omega
    · exact roundTrips value (held value member)

theorem roundTrips_types {types : List WitType} (inside : ∀ ty ∈ types, Offered ty) :
    (∀ values, List.Forall₂ WitType.Carries types values →
      meanTypes types (itemsToJson values) = some values) ↔ ∀ ty ∈ types, RoundTrips ty := by
  induction types with
  | nil =>
      refine iff_of_true ?_ (by simp)
      rintro _ ⟨⟩
      rfl
  | cons ty types inductionHypothesis =>
      obtain ⟨offered, inside⟩ := List.forall_mem_cons.mp inside
      rw [List.forall_mem_cons, ← inductionHypothesis inside]
      have read : ∀ value values, meanTypes (ty :: types) (itemsToJson (value :: values)) =
          some (value :: values) ↔
            ty.read value.toJson = some value ∧ meanTypes types (itemsToJson values) = some values := by
        intro value values
        simp [meanTypes, itemsToJson, Option.bind_eq_some_iff]
      constructor
      · intro roundTrips
        obtain ⟨first, carried⟩ := offered.exists_carries
        obtain ⟨others, held⟩ := exists_forall₂ fun ty member => (inside ty member).exists_carries
        exact ⟨fun value carried => ((read _ _).mp (roundTrips _ (.cons carried held))).1,
          fun values held => ((read _ _).mp (roundTrips _ (.cons carried held))).2⟩
      · rintro ⟨here, later⟩ values held
        obtain ⟨value, values, carried, others, rfl⟩ := List.forall₂_cons_left_iff.mp held
        exact (read value values).mpr ⟨here value carried, later values others⟩

theorem roundTrips_tuple {types : List WitType} (inside : ∀ ty ∈ types, Offered ty) :
    RoundTrips (.tuple types) ↔ ∀ ty ∈ types, RoundTrips ty := by
  rw [← roundTrips_types inside]
  have read : ∀ values, (WitType.tuple types).read (Val.tuple values).toJson = some (.tuple values) ↔
      meanTypes types (itemsToJson values) = some values := by
    intro values
    simp [WitType.read, Val.toJson, Json.asArray, Option.bind_eq_some_iff]
  constructor
  · exact fun roundTrips values held =>
      (read values).mp (roundTrips _ (carries_tuple.mpr ⟨values, rfl, held⟩))
  · intro each value carried
    obtain ⟨values, rfl, held⟩ := carries_tuple.mp carried
    exact (read values).mpr (each values held)

/-! ### Fields -/

theorem meanFields_congr {fields : List (Label × WitType)} {object other : JsonMap}
    (same : ∀ field ∈ fields,
      JsonMap.get field.1.camel object = JsonMap.get field.1.camel other) :
    meanFields fields object = meanFields fields other := by
  induction fields with
  | nil => rfl
  | cons field fields inductionHypothesis =>
      obtain ⟨here, later⟩ := List.forall_mem_cons.mp same
      rw [meanFields, meanFields, here, inductionHypothesis later]

theorem keys_fieldsToJson {fields : List (Label × WitType)} {values : List (Text × Val)}
    (held : List.Forall₂ CarriesField fields values) :
    (fieldsToJson values).map Prod.fst = fields.map fun field => field.1.camel := by
  rw [keys_eq_of_writes (writes_fields held), jsonFields, List.map_map]
  rfl

/-- What comes before them does not reach the fields whose names come again. -/
theorem meanFields_cons {fields : List (Label × WitType)} {values : List (Text × Val)}
    (held : List.Forall₂ CarriesField fields values) (pair : Text × Json) :
    meanFields fields (JsonMap.collect (pair :: fieldsToJson values)) =
      meanFields fields (JsonMap.collect (fieldsToJson values)) := by
  refine meanFields_congr fun field member => ?_
  rw [JsonMap.get_collect, JsonMap.get_collect, lookupLast_cons]
  have known : field.1.camel ∈ (fieldsToJson values).map Prod.fst := by
    rw [keys_fieldsToJson held]
    exact List.mem_map_of_mem member
  cases last : lookupLast field.1.camel (fieldsToJson values) with
  | none => exact absurd known (lookupLast_eq_none_iff.mp last)
  | some json => rfl

/-- The JSON a field is read from is the one of the last field of its name. -/
theorem readsField_iff {label : Label} {ty : WitType} {rest : List (Label × WitType)}
    (offered : Offered ty) (inside : ∀ field ∈ rest, Offered field.2)
    (clear : clearFields rest = true) (here : RoundTrips ty ↔ ty.clear = true) :
    (∀ value values, ty.Carries value → List.Forall₂ CarriesField rest values →
      ty.read ((JsonMap.get label.camel (JsonMap.collect
        ((label.camel, value.toJson) :: fieldsToJson values))).getD .null) = some value) ↔
      (match lookupLast label.camel (rest.map fun field => (field.1.camel, field.2)) with
        | some other => ty.fits other
        | none => ty.clear) = true := by
  have insideMembers : ∀ member ∈ jsonFields rest, Offered member.2 := by
    intro member held
    obtain ⟨field, known, rfl⟩ := List.mem_map.mp held
    exact inside field known
  simp only [JsonMap.get_collect, lookupLast_cons, if_true]
  cases last : lookupLast label.camel (rest.map fun field => (field.1.camel, field.2)) with
  | none =>
      have none : ∀ values, List.Forall₂ CarriesField rest values →
          lookupLast label.camel (fieldsToJson values) = none := by
        intro values held
        have none := get_eq_none (writes_fields held) last
        rwa [JsonMap.get_collect] at none
      rw [← here]
      constructor
      · intro reads value carried
        obtain ⟨values, held⟩ := exists_forall₂ (exists_carriesField inside)
        simpa [none values held] using reads value values carried held
      · intro roundTrips value values carried held
        simpa [none values held] using roundTrips value carried
  | some other =>
      rw [← absorbs_iff offered (insideMembers _ (mem_of_lookupLast last))
        (clear_of_lookupLast clear last)]
      constructor
      · intro reads value json carried written
        obtain ⟨pairs, held, found⟩ := exists_pairs insideMembers last written
        obtain ⟨values, carriedRest, rfl⟩ := exists_fields held
        rw [JsonMap.get_collect] at found
        simpa [found] using reads value values carried carriedRest
      · intro absorbs value values carried held
        obtain ⟨json, found, written⟩ := exists_get (writes_fields held) last
        rw [JsonMap.get_collect] at found
        simpa [found] using absorbs value json carried written

theorem readsFields_iff {fields : List (Label × WitType)} (inside : ∀ field ∈ fields, Offered field.2)
    (each : ∀ field ∈ fields, RoundTrips field.2 ↔ field.2.clear = true) :
    (∀ values, List.Forall₂ CarriesField fields values →
      meanFields fields (JsonMap.collect (fieldsToJson values)) = some values) ↔
      clearFields fields = true := by
  induction fields with
  | nil =>
      refine iff_of_true ?_ rfl
      rintro _ ⟨⟩
      rfl
  | cons field rest inductionHypothesis =>
      obtain ⟨label, ty⟩ := field
      obtain ⟨offered, inside⟩ := List.forall_mem_cons.mp inside
      obtain ⟨here, each⟩ := List.forall_mem_cons.mp each
      have split : ∀ value values, List.Forall₂ CarriesField rest values →
          (meanFields ((label, ty) :: rest)
            (JsonMap.collect (fieldsToJson ((label.text, value) :: values))) =
              some ((label.text, value) :: values) ↔
          ty.read ((JsonMap.get label.camel (JsonMap.collect
            ((label.camel, value.toJson) :: fieldsToJson values))).getD .null) = some value ∧
              meanFields rest (JsonMap.collect (fieldsToJson values)) = some values) := by
        intro value values held
        rw [← meanFields_cons held (label.camel, value.toJson)]
        simp only [meanFields, fieldsToJson, Option.bind_eq_bind, Option.bind_eq_some_iff,
          Option.pure_def, Option.some.injEq, List.cons.injEq, Prod.mk.injEq, true_and]
        constructor
        · rintro ⟨_, read, _, mean, rfl, rfl⟩
          exact ⟨read, mean⟩
        · rintro ⟨read, mean⟩
          exact ⟨value, read, values, mean, rfl, rfl⟩
      rw [clearFields, Bool.and_eq_true_iff, and_comm]
      constructor
      · intro reads
        have both : ∀ value values, ty.Carries value → List.Forall₂ CarriesField rest values → _ :=
          fun value values carried held =>
            (split value values held).mp (reads _ (.cons ⟨rfl, carried⟩ held))
        obtain ⟨first, carried⟩ := offered.exists_carries
        have clear := (inductionHypothesis inside each).mp fun values held =>
          (both first values carried held).2
        exact ⟨clear, (readsField_iff offered inside clear here).mp
          fun value values carried held => (both value values carried held).1⟩
      · rintro ⟨clear, first⟩ values held
        obtain ⟨⟨name, value⟩, values, ⟨rfl, carried⟩, others, rfl⟩ :=
          List.forall₂_cons_left_iff.mp held
        exact (split value values others).mpr
          ⟨(readsField_iff offered inside clear here).mpr first value values carried others,
            (inductionHypothesis inside each).mpr clear values others⟩

theorem roundTrips_record {fields : List (Label × WitType)}
    (inside : ∀ field ∈ fields, Offered field.2)
    (each : ∀ field ∈ fields, RoundTrips field.2 ↔ field.2.clear = true) :
    RoundTrips (.record fields) ↔ clearFields fields = true := by
  rw [← readsFields_iff inside each]
  have read : ∀ values, List.Forall₂ CarriesField fields values →
      ((WitType.record fields).read (Val.record values).toJson = some (.record values) ↔
        meanFields fields (JsonMap.collect (fieldsToJson values)) = some values) := by
    intro values held
    have known : unknownField fields (JsonMap.collect (fieldsToJson values)) = none := by
      rw [unknownField_collect, keys_fieldsToJson held]
      exact fun key held => List.mem_map.mp held
    simp [WitType.read, Val.toJson, Json.asObject, known, Option.bind_eq_some_iff]
  constructor
  · exact fun roundTrips values held =>
      (read values held).mp (roundTrips _ (carries_record.mpr ⟨values, rfl, held⟩))
  · intro each value carried
    obtain ⟨values, rfl, held⟩ := carries_record.mp carried
    exact (read values held).mpr (each values held)

/-! ### All types -/

theorem clearCases_iff {cases : List (Label × Option WitType)} :
    clearCases cases = true ↔ ∀ case ∈ cases, clearSide case.2 = true := by
  induction cases with
  | nil => simp [clearCases]
  | cons case rest inductionHypothesis =>
      rw [clearCases, Bool.and_eq_true_iff, inductionHypothesis, List.forall_mem_cons]

theorem clearSide_iff {side : Option WitType}
    (each : ∀ ty, side = some ty → (RoundTrips ty ↔ ty.clear = true)) :
    (∀ ty, side = some ty → RoundTrips ty) ↔ clearSide side = true := by
  cases side with
  | none => simp [clearSide]
  | some ty => simpa [clearSide] using each ty rfl

/-- The values of a type on offer come back exactly when its names are kept apart. -/
theorem roundTrips_iff {ty : WitType} (offered : Offered ty) :
    RoundTrips ty ↔ ty.clear = true := by
  induction offered with
  | bool | char | string =>
      refine iff_of_true ?_ rfl
      rintro value ⟨holds, -⟩
      cases value <;> first | exact holds.elim | rfl
  | int kind => exact iff_of_true (roundTrips_int kind) rfl
  | float32 => exact iff_of_true roundTrips_float32 rfl
  | float64 => exact iff_of_true roundTrips_float64 rfl
  | list _ inductionHypothesis => rwa [roundTrips_list, WitType.clear]
  | fixedLengthList length _ inductionHypothesis =>
      rw [roundTrips_fixedLengthList, inductionHypothesis, WitType.clear]
      simp
  | record _ inside inductionHypothesis =>
      exact roundTrips_record inside inductionHypothesis
  | tuple inside inductionHypothesis =>
      rw [roundTrips_tuple inside, WitType.clear, clearTypes_iff]
      exact forall₂_congr inductionHypothesis
  | variant legal inside inductionHypothesis =>
      rw [roundTrips_variant (.variant legal inside), WitType.clear, Bool.and_eq_true_iff,
        clearCases_iff]
      exact and_congr_right fun _ =>
        forall₂_congr fun case member => clearSide_iff (inductionHypothesis case member)
  | enum legal => exact roundTrips_enum legal
  | option single offered inductionHypothesis =>
      rwa [roundTrips_option single offered, WitType.clear]
  | result _ _ okHypothesis errHypothesis =>
      rw [roundTrips_result, WitType.clear, Bool.and_eq_true_iff, clearSide_iff okHypothesis,
        clearSide_iff errHypothesis]
  | flags legal => exact roundTrips_flags legal

/-- A type survives JSON: its finite values come back, and only values of it are read. -/
def Survives (ty : WitType) : Prop :=
  (∀ value, ty.Holds value → value.Finite → fromJson ty value.toJson = .ok value) ∧
    ∀ json value, fromJson ty json = .ok value → ty.Holds value

/-- Exactly the types survive of which no JSON name stands for two labels, but for fields of
a record of which the last leaves the others their only value. -/
theorem survives_iff {ty : WitType} (legal : ty.legal = true) (offered : check ty = .ok ()) :
    Survives ty ↔ ty.clear = true := by
  rw [← roundTrips_iff (passes ty 0 offered legal)]
  constructor
  · exact fun survives value carried =>
      fromJson_eq_ok_iff.mp (survives.1 value carried.holds carried.finite)
  · intro roundTrips
    exact ⟨fun value holds finite => fromJson_eq_ok_iff.mpr (roundTrips value ⟨holds, finite⟩),
      fun json value read => sound ty json value (fromJson_eq_ok_iff.mp read)⟩

/-- The type of a file's row: its time, and whether it is one. -/
def rowType : WitType :=
  .record [(⟨"at".toList, by decide⟩, .int .s64), (⟨"is-ok".toList, by decide⟩, .bool)]

theorem survives_iff_row : Survives rowType :=
  (survives_iff (by decide) rfl).mpr (by decide)

/-- Two fields that JSON names alike. -/
def collidingType : WitType :=
  .record [(⟨"a-b-c".toList, by decide⟩, .bool), (⟨"a-BC".toList, by decide⟩, .bool)]

def collidingValue : Val := .record [("a-b-c".toList, .bool true), ("a-BC".toList, .bool false)]

/-- The second of two fields that JSON names alike is read as both. -/
theorem not_survives_colliding :
    ¬ ∀ ty : WitType, ty.legal = true → check ty = .ok () → Survives ty := by
  intro survives
  have holds : collidingType.Holds collidingValue := ⟨rfl, trivial, rfl, trivial, trivial⟩
  have finite : collidingValue.Finite := ⟨trivial, trivial, trivial⟩
  have back := (survives collidingType (by decide) rfl).1 collidingValue holds finite
  have other : fromJson collidingType collidingValue.toJson =
      .ok (.record [("a-b-c".toList, .bool false), ("a-BC".toList, .bool false)]) := by
    rfl
  cases other.symm.trans back

end ServerBox.Monitor.AppValue
