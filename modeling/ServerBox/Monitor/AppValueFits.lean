import ServerBox.Monitor.AppValueWrites

/-!
# When one type reads another's JSON as its only value

That `fits` says exactly when a type reads all the JSON of another as whatever value of its
own was meant: it has one value then, and the other's JSON never changes where it looks.
-/

namespace ServerBox.Monitor.AppValue

open ServerBox.Std

/-- A type that reads another's JSON has one value. -/
theorem Absorbs.only {ty other : WitType} (absorbs : Absorbs ty other) (offered : Offered other)
    (first second : Val) (left : ty.Carries first) (right : ty.Carries second) :
    first = second := by
  obtain ⟨json, written⟩ := offered.exists_writes
  exact Option.some.inj ((absorbs _ _ left written).symm.trans (absorbs _ _ right written))

/-- The kinds of JSON values. -/
inductive Shape
  | null
  | bool
  | number
  | string
  | array
  | object
  deriving DecidableEq

def shape : Json → Shape
  | .null => .null
  | .bool _ => .bool
  | .number _ => .number
  | .string _ => .string
  | .array _ => .array
  | .object _ => .object

/-- The kind of JSON that some value of a type is written as. -/
def WitType.shape : WitType → Shape
  | .bool => .bool
  | .int _ | .float32 | .float64 => .number
  | .char | .string | .enum _ => .string
  | .list _ | .fixedLengthList _ _ | .tuple _ | .flags _ => .array
  | .record _ | .variant _ | .result _ _ => .object
  | _ => .null

theorem Offered.exists_shape {ty : WitType} (offered : Offered ty) :
    ∃ json, ty.Writes json ∧ AppValue.shape json = ty.shape := by
  have ⟨value, carried⟩ := offered.exists_carries
  cases offered with
  | bool => exact ⟨_, ⟨.bool true, ⟨trivial, trivial⟩, rfl⟩, rfl⟩
  | int kind => exact ⟨_, ⟨.int kind ⟨0, by cases kind <;> decide⟩, ⟨rfl, trivial⟩, rfl⟩, rfl⟩
  | float32 => exact ⟨_, ⟨.float32 ⟨false, 0, by decide⟩, ⟨trivial, show _ < _ by decide⟩, rfl⟩, rfl⟩
  | float64 => exact ⟨_, ⟨.float64 ⟨false, 0, by decide⟩, ⟨trivial, show _ < _ by decide⟩, rfl⟩, rfl⟩
  | char => exact ⟨_, ⟨.char 'a', ⟨trivial, trivial⟩, rfl⟩, rfl⟩
  | string => exact ⟨_, ⟨.string [], ⟨trivial, trivial⟩, rfl⟩, rfl⟩
  | list _ =>
      obtain ⟨items, rfl, -⟩ := carries_list.mp carried
      exact ⟨_, ⟨_, carried, rfl⟩, rfl⟩
  | fixedLengthList _ _ =>
      obtain ⟨items, rfl, -⟩ := carries_fixedLengthList.mp carried
      exact ⟨_, ⟨_, carried, rfl⟩, rfl⟩
  | record _ _ =>
      obtain ⟨values, rfl, -⟩ := carries_record.mp carried
      exact ⟨_, ⟨_, carried, rfl⟩, rfl⟩
  | tuple _ =>
      obtain ⟨values, rfl, -⟩ := carries_tuple.mp carried
      exact ⟨_, ⟨_, carried, rfl⟩, rfl⟩
  | variant _ _ =>
      obtain ⟨case, -, payload, rfl, -⟩ := carries_variant.mp carried
      exact ⟨_, ⟨_, carried, rfl⟩, rfl⟩
  | enum _ =>
      obtain ⟨label, -, rfl⟩ := carries_enum.mp carried
      exact ⟨_, ⟨_, carried, rfl⟩, rfl⟩
  | option _ _ =>
      exact ⟨_, ⟨.option none, carries_option.mpr ⟨none, rfl, fun _ held => nomatch held⟩, rfl⟩, rfl⟩
  | result _ _ =>
      obtain ⟨payload, ⟨rfl, -⟩ | ⟨rfl, -⟩⟩ := carries_result.mp carried
      · exact ⟨_, ⟨_, carried, rfl⟩, rfl⟩
      · exact ⟨_, ⟨_, carried, rfl⟩, rfl⟩
  | flags _ =>
      obtain ⟨set, rfl, -⟩ := carries_flags.mp carried
      exact ⟨_, ⟨_, carried, rfl⟩, rfl⟩

theorem of_areLabels {labels : List Label} (legal : areLabels labels = true) :
    labels ≠ [] ∧ labels.Nodup := by
  simpa [areLabels] using legal

/-- Labels of one JSON name, kept apart, are one label. -/
theorem eq_singleton_of_apart {labels : List Label} (legal : areLabels labels = true)
    (clear : apart labels = true) {text : Text} (same : ∀ label ∈ labels, label.camel = text) :
    ∃ label, labels = [label] ∧ label.camel = text := by
  have distinct : (labels.map Label.camel).Nodup := of_decide_eq_true clear
  rcases labels with _ | ⟨first, _ | ⟨second, rest⟩⟩
  · exact absurd rfl (of_areLabels legal).1
  · exact ⟨first, rfl, same first List.mem_cons_self⟩
  · have equal : first.camel = second.camel :=
      (same first (by simp)).trans (same second (by simp)).symm
    simp [equal] at distinct

/-- A type all of whose values are one text has that text as its only one. -/
theorem sole_of_writes {ty : WitType} (offered : Offered ty) (clear : ty.clear = true) {text : Text}
    (same : ∀ json, ty.Writes json → json = .string text) : ty.sole = some text := by
  obtain ⟨json, written, kind⟩ := offered.exists_shape
  rw [same json written] at kind
  cases offered with
  | char =>
      have first := same _ ⟨.char 'a', ⟨trivial, trivial⟩, rfl⟩
      have second := same _ ⟨.char 'b', ⟨trivial, trivial⟩, rfl⟩
      cases first.trans second.symm
  | string =>
      have first := same _ ⟨.string [], ⟨trivial, trivial⟩, rfl⟩
      have second := same _ ⟨.string ['a'], ⟨trivial, trivial⟩, rfl⟩
      cases first.trans second.symm
  | enum legal =>
      obtain ⟨label, rfl, rfl⟩ := eq_singleton_of_apart legal clear fun label member =>
        Json.string.inj (same _ (writes_enum.mpr ⟨label, member, rfl⟩))
      rfl
  | _ => cases kind

/-- Only an option is read from `null`, and not every value of it. -/
theorem not_reads_null {ty : WitType} (offered : Offered ty)
    (reads : ∀ value, ty.Carries value → ty.read .null = some value) : False := by
  obtain ⟨value, carried⟩ := offered.exists_carries
  have read := reads value carried
  cases offered with
  | option _ inner =>
      obtain ⟨value, carried⟩ := inner.exists_carries
      have other := reads _ (carries_option.mpr ⟨some value, rfl, fun _ held => Option.some.inj held ▸ carried⟩)
      cases other
  | _ => cases read

theorem eq_singleton_of_fits_enum {ty : WitType} {names : List Label}
    (fits : ty.fits (.enum names) = true) : ∃ name, names = [name] := by
  unfold WitType.fits at fits
  split at fits
  next name =>
      rcases names with _ | ⟨name, _ | _⟩
      · cases of_decide_eq_true fits
      · exact ⟨name, rfl⟩
      · cases of_decide_eq_true fits
  all_goals cases fits

theorem offered_tag (label : Label) : Offered (.enum [label]) :=
  .enum (by simp [areLabels])

theorem offered_members {ty : WitType} (offered : Offered ty) {members : List (Text × WitType)}
    (same : ty.members = some members) : ∀ member ∈ members, Offered member.2 := by
  unfold WitType.members at same
  split at same
  next fields =>
      obtain rfl := Option.some.inj same
      cases offered with
      | record _ each =>
          intro member held
          obtain ⟨field, inside, rfl⟩ := List.mem_map.mp held
          exact each field inside
  next label =>
      obtain rfl := Option.some.inj same
      simpa using offered_tag label
  next label payload =>
      obtain rfl := Option.some.inj same
      cases offered with
      | variant _ each => simpa using ⟨offered_tag label, by simpa using each⟩
  next => cases same

theorem clear_of_lookupLast {fields : List (Label × WitType)} (clear : clearFields fields = true)
    {name : Text} {ty : WitType} (last : lookupLast name (jsonFields fields) = some ty) :
    ty.clear = true := by
  induction fields with
  | nil => cases last
  | cons field rest inductionHypothesis =>
      obtain ⟨label, ty⟩ := field
      obtain ⟨first, others⟩ := Bool.and_eq_true_iff.mp clear
      rw [jsonFields, List.map_cons, lookupLast] at last
      cases later : lookupLast name (jsonFields rest) with
      | some other =>
          rw [jsonFields] at later
          rw [later] at last
          obtain rfl := Option.some.inj last
          exact inductionHypothesis others later
      | none =>
          rw [jsonFields] at later
          simp only [later, Option.ite_none_right_eq_some, Option.some.injEq] at last
          obtain ⟨rfl, rfl⟩ := last
          rw [later] at first
          exact first

theorem clear_members {ty : WitType} (clear : ty.clear = true) {members : List (Text × WitType)}
    (same : ty.members = some members) {name : Text} {other : WitType}
    (last : lookupLast name members = some other) : other.clear = true := by
  unfold WitType.members at same
  split at same
  next fields =>
      obtain rfl := Option.some.inj same
      exact clear_of_lookupLast clear last
  next label =>
      obtain rfl := Option.some.inj same
      obtain ⟨-, rfl⟩ : _ ∧ other = .enum [label] := by simpa using mem_of_lookupLast last
      simp [WitType.clear, apart]
  next label payload =>
      obtain rfl := Option.some.inj same
      have ⟨_, clear⟩ := Bool.and_eq_true_iff.mp clear
      rcases List.mem_cons.mp (mem_of_lookupLast last) with tag | rest
      · obtain ⟨-, rfl⟩ := Prod.mk.inj tag
        simp [WitType.clear, apart]
      · obtain ⟨-, rfl⟩ := Prod.mk.inj (List.mem_singleton.mp rest)
        simpa [clearCases, clearSide] using clear
  next => cases same

theorem exists_pair {members : List (Text × WitType)}
    (each : ∀ member ∈ members, Offered member.2) :
    ∀ member ∈ members, ∃ pair, WritesMember member pair := fun member held =>
  have ⟨json, written⟩ := (each member held).exists_writes
  ⟨(member.1, json), rfl, written⟩

/-- An object of the members with a given JSON under a name. -/
theorem exists_pairs {members : List (Text × WitType)} (each : ∀ member ∈ members, Offered member.2)
    {name : Text} {ty : WitType} (last : lookupLast name members = some ty) {json : Json}
    (written : ty.Writes json) :
    ∃ pairs, List.Forall₂ WritesMember members pairs ∧
      JsonMap.get name (JsonMap.collect pairs) = some json := by
  simp only [JsonMap.get_collect]
  induction members with
  | nil => cases last
  | cons member rest inductionHypothesis =>
      obtain ⟨key, first⟩ := member
      obtain ⟨here, later⟩ := List.forall_mem_cons.mp each
      rw [lookupLast] at last
      cases found : lookupLast name rest with
      | some other =>
          obtain ⟨text, firstWritten⟩ := here.exists_writes
          rw [found] at last
          obtain ⟨pairs, held, got⟩ := inductionHypothesis later (found.trans last)
          exact ⟨(key, text) :: pairs, .cons ⟨rfl, firstWritten⟩ held, by rw [lookupLast, got]⟩
      | none =>
          simp only [found, Option.ite_none_right_eq_some, Option.some.injEq] at last
          obtain ⟨rfl, rfl⟩ := last
          obtain ⟨pairs, held⟩ := exists_forall₂ (exists_pair later)
          have absent : lookupLast key pairs = none := by
            rw [lookupLast_eq_none_iff, keys_eq_of_writes held, ← lookupLast_eq_none_iff]
            exact found
          exact ⟨(key, json) :: pairs, .cons ⟨rfl, written⟩ held, by simp [lookupLast, absent]⟩

/-- The types on offer that fit every type of which they read the JSON. -/
def FitsAbsorbed (ty : WitType) : Prop :=
  ∀ other, Offered other → other.clear = true → Absorbs ty other → ty.fits other = true

theorem toJson_variant (name : Text) (payload : Option Val) :
    ∃ object, (Val.variant name payload).toJson = .object object ∧
      JsonMap.get "tag".toList object = some (.string (camel name)) := by
  cases payload <;> exact ⟨_, rfl, rfl⟩

/-- Every label of a variant is the tag of one of its values. -/
theorem exists_tagged {cases : List (Label × Option WitType)} (offered : Offered (.variant cases))
    {label : Label} (held : label ∈ cases.map Prod.fst) :
    ∃ object, (WitType.variant cases).Writes (.object object) ∧
      JsonMap.get "tag".toList object = some (.string label.camel) := by
  cases offered with
  | variant _ each =>
      obtain ⟨case, member, rfl⟩ := List.mem_map.mp held
      obtain ⟨payload, side⟩ := exists_carriesSide fun ty same =>
        (each case member ty same).exists_carries
      obtain ⟨object, shown, tag⟩ := toJson_variant case.1.text payload
      exact ⟨object, ⟨_, carries_variant.mpr ⟨case, member, payload, rfl, side⟩, shown⟩, tag⟩

/-- The object of a result has one member. -/
theorem exists_result {ok err : Option WitType} (offered : Offered (.result ok err)) :
    (∃ json, (WitType.result ok err).Writes (.object [("ok".toList, json)])) ∧
      ∃ json, (WitType.result ok err).Writes (.object [("err".toList, json)]) := by
  cases offered with
  | result okEach errEach =>
      obtain ⟨okPayload, okSide⟩ := exists_carriesSide fun ty same => (okEach ty same).exists_carries
      obtain ⟨errPayload, errSide⟩ :=
        exists_carriesSide fun ty same => (errEach ty same).exists_carries
      exact ⟨⟨_, _, carries_result.mpr ⟨okPayload, .inl ⟨rfl, okSide⟩⟩, rfl⟩,
        ⟨_, _, carries_result.mpr ⟨errPayload, .inr ⟨rfl, errSide⟩⟩, rfl⟩⟩

theorem exists_members_of_singleton {cases : List (Label × Option WitType)} {label : Label}
    (single : cases.map Prod.fst = [label]) :
    ∃ members, (WitType.variant cases).members = some members := by
  rcases cases with _ | ⟨⟨label, _ | payload⟩, _ | _⟩
  · cases single
  · exact ⟨_, rfl⟩
  · cases single
  · exact ⟨_, rfl⟩
  · cases single

/-- An object whose tag never changes has members that never change. -/
theorem exists_members_of_tag {ty : WitType} (offered : Offered ty) (clear : ty.clear = true)
    {text : Text} (same : ∀ json, ty.Writes json →
      ∃ object, json = .object object ∧ JsonMap.get "tag".toList object = some (.string text)) :
    ∃ members, ty.members = some members := by
  obtain ⟨json, written, kind⟩ := offered.exists_shape
  obtain ⟨object, rfl, -⟩ := same json written
  cases offered with
  | record _ _ => exact ⟨_, rfl⟩
  | @variant cases legal each =>
      obtain ⟨apart, -⟩ := Bool.and_eq_true_iff.mp clear
      have tagged : ∀ label ∈ cases.map Prod.fst, label.camel = text := by
        intro label held
        obtain ⟨_, written, tag⟩ := exists_tagged (.variant legal each) held
        obtain ⟨object, shown, found⟩ := same _ written
        obtain rfl := Json.object.inj shown
        exact Json.string.inj (Option.some.inj (tag.symm.trans found))
      obtain ⟨label, single, -⟩ := eq_singleton_of_apart legal apart tagged
      exact exists_members_of_singleton single
  | result okEach errEach =>
      obtain ⟨⟨_, written⟩, -⟩ := exists_result (.result okEach errEach)
      obtain ⟨object, shown, tag⟩ := same _ written
      obtain rfl := Json.object.inj shown
      cases tag
  | _ => cases kind

theorem carries_single {label : Label} {payload : Option WitType} {side : Option Val}
    (held : CarriesSide payload side) :
    (WitType.variant [(label, payload)]).Carries (.variant label.text side) :=
  carries_variant.mpr ⟨_, List.mem_singleton_self _, side, rfl, held⟩

theorem read_single {label : Label} {payload : Option WitType} {json : Json} {side : Option Val}
    (read : (WitType.variant [(label, payload)]).read json = some (.variant label.text side)) :
    ∃ object, json = .object object ∧
      JsonMap.get "tag".toList object = some (.string label.camel) ∧
      meanSide payload "val".toList object = some side := by
  simp only [WitType.read, Option.bind_eq_bind, Option.bind_eq_some_iff, Json.asObject_eq_some_iff,
    Json.asStr_eq_some_iff, meanCase, Option.ite_none_right_eq_some, Option.pure_def,
    Option.some.injEq, Val.variant.injEq] at read
  obtain ⟨object, shown, tag, ⟨_, found, rfl⟩, rfl, side, mean, -, rfl⟩ := read
  exact ⟨object, shown, found, mean⟩

theorem get_eq_none {members : List (Text × WitType)} {pairs : List (Text × Json)}
    (written : List.Forall₂ WritesMember members pairs) {name : Text}
    (absent : lookupLast name members = none) :
    JsonMap.get name (JsonMap.collect pairs) = none := by
  rw [JsonMap.get_collect, lookupLast_eq_none_iff, keys_eq_of_writes written,
    ← lookupLast_eq_none_iff]
  exact absent

/-- A variant of one value has one case. -/
theorem exists_single {cases : List (Label × Option WitType)} (offered : Offered (.variant cases))
    {other : WitType} (otherOffered : Offered other) (absorbs : Absorbs (.variant cases) other) :
    ∃ label payload, cases = [(label, payload)] := by
  cases offered with
  | variant legal each =>
      have ⟨labelled, distinct⟩ := of_areLabels legal
      have side : ∀ case ∈ cases, ∃ payload, CarriesSide case.2 payload := fun case member =>
        exists_carriesSide fun ty same => (each case member ty same).exists_carries
      rcases cases with _ | ⟨⟨label, payload⟩, _ | ⟨⟨second, _⟩, rest⟩⟩
      · exact absurd rfl labelled
      · exact ⟨label, payload, rfl⟩
      · obtain ⟨first, firstHeld⟩ := side _ List.mem_cons_self
        obtain ⟨other, otherHeld⟩ := side _ (List.mem_cons_of_mem _ List.mem_cons_self)
        have same := absorbs.only otherOffered _ _
          (carries_variant.mpr ⟨_, List.mem_cons_self, first, rfl, firstHeld⟩)
          (carries_variant.mpr
            ⟨_, List.mem_cons_of_mem _ List.mem_cons_self, other, rfl, otherHeld⟩)
        have equal : label = second := Label.ext (Val.variant.inj same).1
        simp [equal] at distinct

theorem fits_variant {cases : List (Label × Option WitType)} (offered : Offered (.variant cases))
    (each : ∀ case ∈ cases, ∀ ty, case.2 = some ty → FitsAbsorbed ty) :
    FitsAbsorbed (.variant cases) := by
  intro other otherOffered clear absorbs
  obtain ⟨label, payload, rfl⟩ := exists_single offered otherOffered absorbs
  have reads : ∀ side, CarriesSide payload side → ∀ json, other.Writes json →
      ∃ object, json = .object object ∧
        JsonMap.get "tag".toList object = some (.string label.camel) ∧
        meanSide payload "val".toList object = some side :=
    fun side held json written => read_single (absorbs _ _ (carries_single held) written)
  have inside : ∀ ty, payload = some ty → Offered ty := by
    cases offered with
    | variant _ each => exact each _ (List.mem_singleton_self _)
  obtain ⟨side, held⟩ := exists_carriesSide fun ty same => (inside ty same).exists_carries
  obtain ⟨members, same⟩ := exists_members_of_tag otherOffered clear fun json written =>
    have ⟨object, shown, tag, _⟩ := reads side held json written
    ⟨object, shown, tag⟩
  have offeredMembers := offered_members otherOffered same
  have mean : ∀ pairs, List.Forall₂ WritesMember members pairs → ∀ side, CarriesSide payload side →
      JsonMap.get "tag".toList (JsonMap.collect pairs) = some (.string label.camel) ∧
        meanSide payload "val".toList (JsonMap.collect pairs) = some side := by
    intro pairs written side held
    obtain ⟨object, shown, mean⟩ :=
      reads side held _ ((writes_members same).mpr ⟨pairs, written, rfl⟩)
    obtain rfl := Json.object.inj shown
    exact mean
  obtain ⟨pairs, written⟩ := exists_forall₂ (exists_pair offeredMembers)
  have tagged : (lookupLast "tag".toList members).bind WitType.sole = some label.camel := by
    cases last : lookupLast "tag".toList members with
    | none =>
        have none := get_eq_none written last
        rw [(mean pairs written side held).1] at none
        cases none
    | some tag =>
        refine sole_of_writes (offeredMembers _ (mem_of_lookupLast last))
          (clear_members clear same last) fun json tagWritten => ?_
        obtain ⟨pairs, written, found⟩ := exists_pairs offeredMembers last tagWritten
        exact Option.some.inj (found.symm.trans (mean pairs written side held).1)
  have fits : fitsSide payload members = true := by
    cases payload with
    | none => rfl
    | some ty =>
        rw [fitsSide]
        cases last : lookupLast "val".toList members with
        | none =>
            refine (not_reads_null (inside ty rfl) fun value carried => ?_).elim
            have read := (mean pairs written _ (.some carried)).2
            rw [meanSide, get_eq_none written last] at read
            obtain ⟨_, read, shown⟩ := Option.map_eq_some_iff.mp read
            exact Option.some.inj shown ▸ read
        | some inner =>
            refine each _ (List.mem_singleton_self _) ty rfl inner
              (offeredMembers _ (mem_of_lookupLast last)) (clear_members clear same last) ?_
            intro value json carried innerWritten
            obtain ⟨pairs, written, found⟩ := exists_pairs offeredMembers last innerWritten
            have read := (mean pairs written _ (.some carried)).2
            rw [meanSide, found] at read
            obtain ⟨_, read, shown⟩ := Option.map_eq_some_iff.mp read
            exact Option.some.inj shown ▸ read
  rw [WitType.fits, same]
  exact Bool.and_eq_true_iff.mpr ⟨decide_eq_true tagged, fits⟩

theorem exists_carriesField {fields : List (Label × WitType)}
    (each : ∀ field ∈ fields, Offered field.2) :
    ∀ field ∈ fields, ∃ value, CarriesField field value := fun field member =>
  have ⟨value, carried⟩ := (each field member).exists_carries
  ⟨(field.1.text, value), rfl, carried⟩

/-- What a record that reads another type's JSON does with every object of it. -/
structure ReadsObjects (fields : List (Label × WitType)) (other : WitType) : Prop where
  object : ∀ json, other.Writes json → ∃ object, json = .object object
  known : ∀ object, other.Writes (.object object) → unknownField fields object = none
  field : ∀ field ∈ fields, ∀ value, field.2.Carries value → ∀ object,
    other.Writes (.object object) →
      field.2.read ((JsonMap.get field.1.camel object).getD .null) = some value

theorem Absorbs.readsObjects {fields : List (Label × WitType)}
    (each : ∀ field ∈ fields, Offered field.2) {other : WitType}
    (absorbs : Absorbs (.record fields) other) : ReadsObjects fields other := by
  have read : ∀ values, List.Forall₂ CarriesField fields values → ∀ json, other.Writes json →
      ∃ object, json = .object object ∧ unknownField fields object = none ∧
        meanFields fields object = some values := by
    intro values held json written
    have read := absorbs _ json (carries_record.mpr ⟨values, rfl, held⟩) written
    simp only [WitType.read, Option.bind_eq_bind, Option.bind_eq_some_iff,
      Json.asObject_eq_some_iff, Option.ite_none_left_eq_some, Option.pure_def,
      Option.some.injEq, Val.record.injEq] at read
    obtain ⟨object, shown, known, _, mean, rfl⟩ := read
    exact ⟨object, shown, by simpa using known, mean⟩
  obtain ⟨values, held⟩ := exists_forall₂ (exists_carriesField each)
  refine ⟨fun json written => ?_, fun object written => ?_,
    fun field member value carried object written => ?_⟩
  · obtain ⟨object, shown, -⟩ := read values held json written
    exact ⟨object, shown⟩
  · obtain ⟨_, shown, known, -⟩ := read values held _ written
    obtain rfl := Json.object.inj shown
    exact known
  · have carriedField : CarriesField field (field.1.text, value) := ⟨rfl, carried⟩
    obtain ⟨values, held, chosen⟩ :=
      exists_forall₂_at (exists_carriesField each) member carriedField
    obtain ⟨_, shown, -, mean⟩ := read values held _ written
    obtain rfl := Json.object.inj shown
    exact (chosen _ (meanFields_eq_some_iff.mp mean)).2

theorem mem_keys_of_get {object : JsonMap} {name : Text} {json : Json}
    (found : JsonMap.get name object = some json) : name ∈ object.map Prod.fst := by
  by_contra absent
  rw [JsonMap.get_eq_none_iff.mpr absent] at found
  cases found

/-- The objects that a record of single values reads have members that never change. -/
theorem exists_members_of_record {fields : List (Label × WitType)}
    (inside : ∀ field ∈ fields, Offered field.2) (each : ∀ field ∈ fields, FitsAbsorbed field.2)
    {other : WitType} (offered : Offered other) (clear : other.clear = true)
    (reads : ReadsObjects fields other) : ∃ members, other.members = some members := by
  obtain ⟨json, written, kind⟩ := offered.exists_shape
  obtain ⟨object, rfl⟩ := reads.object json written
  cases offered with
  | record _ _ => exact ⟨_, rfl⟩
  | @variant cases legal within =>
      have tagged : ∀ label ∈ cases.map Prod.fst, ∃ object,
          (WitType.variant cases).Writes (.object object) ∧
            JsonMap.get "tag".toList object = some (.string label.camel) :=
        fun label held => exists_tagged (.variant legal within) held
      obtain ⟨apart, -⟩ := Bool.and_eq_true_iff.mp clear
      obtain ⟨label, held⟩ := exists_mem_of_areLabels legal
      obtain ⟨object, written, tag⟩ := tagged label held
      -- The field that takes the tag is read from every tag, so there is only one.
      obtain ⟨field, member, name⟩ := unknownField_eq_none_iff.mp (reads.known object written) _
        (mem_keys_of_get tag)
      have absorbs : Absorbs field.2 (.enum (cases.map Prod.fst)) := by
        intro value json carried named
        obtain ⟨label, held, rfl⟩ := writes_enum.mp named
        obtain ⟨object, written, tag⟩ := tagged label held
        have read := reads.field field member value carried object written
        rw [name, tag] at read
        exact read
      obtain ⟨label, single⟩ :=
        eq_singleton_of_fits_enum (each field member _ (.enum legal) apart absorbs)
      exact exists_members_of_singleton single
  | result okEach errEach =>
      obtain ⟨⟨ok, okWritten⟩, err, errWritten⟩ := exists_result (.result okEach errEach)
      obtain ⟨field, member, name⟩ := unknownField_eq_none_iff.mp (reads.known _ okWritten) _
        List.mem_cons_self
      refine (not_reads_null (inside field member) fun value carried => ?_).elim
      have read := reads.field field member value carried _ errWritten
      rw [name] at read
      exact read
  | _ => cases kind

theorem fits_record {fields : List (Label × WitType)}
    (inside : ∀ field ∈ fields, Offered field.2) (each : ∀ field ∈ fields, FitsAbsorbed field.2) :
    FitsAbsorbed (.record fields) := by
  intro other otherOffered clear absorbs
  have reads := absorbs.readsObjects inside
  obtain ⟨members, same⟩ := exists_members_of_record inside each otherOffered clear reads
  have offeredMembers := offered_members otherOffered same
  have written : ∀ pairs, List.Forall₂ WritesMember members pairs →
      other.Writes (.object (JsonMap.collect pairs)) := fun pairs held =>
    (writes_members same).mpr ⟨pairs, held, rfl⟩
  obtain ⟨pairs, held⟩ := exists_forall₂ (exists_pair offeredMembers)
  have known : ∀ member ∈ members, ∃ field ∈ fields, field.1.camel = member.1 := by
    have keys := unknownField_collect.mp (reads.known _ (written pairs held))
    rw [keys_eq_of_writes held] at keys
    exact fun member held => keys _ (List.mem_map_of_mem held)
  have fits : fitsFields fields members = true := by
    refine fitsFields_iff.mpr fun field member => ?_
    cases last : lookupLast field.1.camel members with
    | none =>
        refine (not_reads_null (inside field member) fun value carried => ?_).elim
        have read := reads.field field member value carried _ (written pairs held)
        rw [get_eq_none held last] at read
        exact read
    | some inner =>
        refine ⟨inner, rfl, each field member inner (offeredMembers _ (mem_of_lookupLast last))
          (clear_members clear same last) fun value json carried innerWritten => ?_⟩
        obtain ⟨pairs, held, found⟩ := exists_pairs offeredMembers last innerWritten
        have read := reads.field field member value carried _ (written pairs held)
        rw [found] at read
        exact read
  rw [WitType.fits, same]
  exact Bool.and_eq_true_iff.mpr ⟨by simpa using known, fits⟩

/-- Arrays of one length have elements that never change. -/
theorem exists_elements {ty : WitType} (offered : Offered ty) {length : Nat}
    (same : ∀ json, ty.Writes json → ∃ items, json = .array items ∧ items.length = length) :
    ∃ elements, ty.elements = some elements := by
  obtain ⟨json, written, kind⟩ := offered.exists_shape
  obtain ⟨items, rfl, -⟩ := same json written
  cases offered with
  | list inside =>
      obtain ⟨value, carried⟩ := inside.exists_carries
      obtain ⟨_, shown, none⟩ := same _ ⟨.list [], carries_list.mpr ⟨[], rfl, by simp⟩, rfl⟩
      obtain rfl := Json.array.inj shown
      obtain ⟨_, shown, one⟩ :=
        same _ ⟨.list [value], carries_list.mpr ⟨[value], rfl, by simpa using carried⟩, rfl⟩
      obtain rfl := Json.array.inj shown
      cases none.trans one.symm
  | fixedLengthList _ _ => exact ⟨_, rfl⟩
  | tuple _ => exact ⟨_, rfl⟩
  | flags legal =>
      obtain ⟨label, member⟩ := exists_mem_of_areLabels legal
      obtain ⟨_, shown, none⟩ := same _ ⟨.flags [], carries_flags.mpr ⟨[], rfl, by simp⟩, rfl⟩
      obtain rfl := Json.array.inj shown
      obtain ⟨_, shown, one⟩ := same _ ⟨.flags [label.text],
        carries_flags.mpr ⟨[label.text], rfl, by simpa using ⟨label, member, rfl⟩⟩, rfl⟩
      obtain rfl := Json.array.inj shown
      cases none.trans one.symm
  | _ => cases kind

theorem clearTypes_iff {types : List WitType} :
    clearTypes types = true ↔ ∀ ty ∈ types, ty.clear = true := by
  induction types with
  | nil => simp [clearTypes]
  | cons ty types inductionHypothesis => simp [clearTypes, inductionHypothesis]

theorem offered_elements {ty : WitType} (offered : Offered ty) (clear : ty.clear = true)
    {elements : List WitType} (same : ty.elements = some elements) :
    ∀ element ∈ elements, Offered element ∧ element.clear = true := by
  unfold WitType.elements at same
  split at same
  next types =>
      obtain rfl := Option.some.inj same
      cases offered with
      | tuple inside =>
          exact fun element held => ⟨inside element held, clearTypes_iff.mp clear element held⟩
  next item length =>
      obtain rfl := Option.some.inj same
      cases offered with
      | fixedLengthList _ inside =>
          intro element held
          obtain ⟨positive, rfl⟩ := List.mem_replicate.mp held
          exact ⟨inside, by simpa [WitType.clear, positive] using clear⟩
  next => cases same

theorem exists_elements_writes {types : List WitType} (each : ∀ ty ∈ types, Offered ty) :
    ∃ items, List.Forall₂ WitType.Writes types items :=
  exists_forall₂ fun ty member => (each ty member).exists_writes

theorem fits_types {types others : List WitType} (inside : ∀ ty ∈ types, Offered ty)
    (each : ∀ ty ∈ types, FitsAbsorbed ty)
    (outside : ∀ other ∈ others, Offered other ∧ other.clear = true)
    (absorbs : ∀ values items, List.Forall₂ WitType.Carries types values →
      List.Forall₂ WitType.Writes others items → meanTypes types items = some values) :
    fitsTypes types others = true := by
  induction types generalizing others with
  | nil => 
      obtain ⟨items, written⟩ := exists_elements_writes fun other member => (outside other member).1
      have read := absorbs [] items .nil written
      cases others with
      | nil => rfl
      | cons _ _ =>
          cases written
          cases read
  | cons ty types inductionHypothesis =>
      obtain ⟨offered, inside⟩ := List.forall_mem_cons.mp inside
      obtain ⟨here, each⟩ := List.forall_mem_cons.mp each
      obtain ⟨value, carried⟩ := offered.exists_carries
      obtain ⟨values, held⟩ := exists_forall₂ fun ty member => (inside ty member).exists_carries
      cases others with
      | nil => cases absorbs _ [] (.cons carried held) .nil
      | cons other others =>
          obtain ⟨otherOffered, outside⟩ := List.forall_mem_cons.mp outside
          obtain ⟨json, written⟩ := otherOffered.1.exists_writes
          obtain ⟨items, after⟩ :=
            exists_elements_writes fun other member => (outside other member).1
          have read : ∀ value values json items, ty.Carries value → other.Writes json →
              List.Forall₂ WitType.Carries types values →
              List.Forall₂ WitType.Writes others items →
              ty.read json = some value ∧ meanTypes types items = some values := by
            intro value values json items carried written held after
            have read := absorbs _ _ (.cons carried held) (.cons written after)
            simp only [meanTypes, Option.bind_eq_bind, Option.bind_eq_some_iff, Option.pure_def,
              Option.some.injEq, List.cons.injEq] at read
            obtain ⟨_, read, _, rest, rfl, rfl⟩ := read
            exact ⟨read, rest⟩
          refine Bool.and_eq_true_iff.mpr ⟨here other otherOffered.1 otherOffered.2 ?_, ?_⟩
          · exact fun value json carried written =>
              (read value values json items carried written held after).1
          · exact inductionHypothesis inside each outside fun values items held after =>
              (read value values json items carried written held after).2

theorem fits_tuple {types : List WitType} (inside : ∀ ty ∈ types, Offered ty)
    (each : ∀ ty ∈ types, FitsAbsorbed ty) : FitsAbsorbed (.tuple types) := by
  intro other otherOffered clear absorbs
  have reads : ∀ values, List.Forall₂ WitType.Carries types values → ∀ json, other.Writes json →
      ∃ items, json = .array items ∧ meanTypes types items = some values := by
    intro values held json written
    have read := absorbs _ json (carries_tuple.mpr ⟨values, rfl, held⟩) written
    simp only [WitType.read, Option.bind_eq_bind, Option.bind_eq_some_iff,
      Json.asArray_eq_some_iff, Option.pure_def, Option.some.injEq, Val.tuple.injEq] at read
    obtain ⟨items, shown, _, mean, rfl⟩ := read
    exact ⟨items, shown, mean⟩
  obtain ⟨values, held⟩ := exists_forall₂ fun ty member => (inside ty member).exists_carries
  have long : ∀ json, other.Writes json →
      ∃ items, json = .array items ∧ items.length = types.length := by
    intro json written
    obtain ⟨items, shown, mean⟩ := reads values held json written
    refine ⟨items, shown, ?_⟩
    by_contra long
    rw [meanTypes_length long] at mean
    cases mean
  obtain ⟨elements, same⟩ := exists_elements otherOffered long
  rw [WitType.fits, same]
  refine fits_types inside each (offered_elements otherOffered clear same)
    fun values items held written => ?_
  obtain ⟨_, shown, mean⟩ :=
    reads values held _ ((writes_elements same).mpr ⟨items, written, rfl⟩)
  obtain rfl := Json.array.inj shown
  exact mean

theorem fits_fixedLengthList {item : WitType} {length : Nat} (offered : Offered item)
    (fits : FitsAbsorbed item) : FitsAbsorbed (.fixedLengthList item length) := by
  intro other otherOffered clear absorbs
  have reads : ∀ value, item.Carries value → ∀ json, other.Writes json →
      ∃ items, json = .array items ∧ items.length = length ∧
        ∀ json ∈ items, item.read json = some value := by
    intro value carried json written
    have held : (WitType.fixedLengthList item length).Carries
        (.fixedLengthList (List.replicate length value)) :=
      carries_fixedLengthList.mpr ⟨_, rfl, List.length_replicate,
        fun _ held => (List.mem_replicate.mp held).2 ▸ carried⟩
    have read := absorbs _ json held written
    simp only [WitType.read, Option.bind_eq_bind, Option.bind_eq_some_iff,
      Json.asArray_eq_some_iff, Option.ite_none_left_eq_some, not_not, Option.pure_def,
      Option.some.injEq, Val.fixedLengthList.injEq, mapM_eq_some_iff] at read
    obtain ⟨items, shown, long, _, mean, rfl⟩ := read
    exact ⟨items, shown, long, (forall₂_replicate_iff.mp mean.flip).2⟩
  obtain ⟨value, carried⟩ := offered.exists_carries
  obtain ⟨elements, same⟩ := exists_elements otherOffered fun json written => by
    obtain ⟨items, shown, long, -⟩ := reads value carried json written
    exact ⟨items, shown, long⟩
  have outside := offered_elements otherOffered clear same
  have each : ∀ element ∈ elements, ∃ json, element.Writes json := fun element member =>
    (outside element member).1.exists_writes
  have array : ∀ items, List.Forall₂ WitType.Writes elements items → items.length = length ∧
      ∀ value, item.Carries value → ∀ json ∈ items, item.read json = some value := by
    intro items held
    have written := (writes_elements same).mpr ⟨items, held, rfl⟩
    obtain ⟨_, shown, long, -⟩ := reads value carried _ written
    obtain rfl := Json.array.inj shown
    refine ⟨long, fun value carried => ?_⟩
    obtain ⟨_, shown, -, mean⟩ := reads value carried _ written
    obtain rfl := Json.array.inj shown
    exact mean
  rw [WitType.fits, same]
  refine Bool.and_eq_true_iff.mpr ⟨decide_eq_true ?_, List.all_eq_true.mpr fun element member => ?_⟩
  · obtain ⟨items, held⟩ := exists_forall₂ each
    exact held.length_eq.trans (array items held).1
  · refine fits element (outside element member).1 (outside element member).2
      fun value json carried written => ?_
    obtain ⟨items, held, chosen⟩ := exists_forall₂_at each member written
    have inItems : List.Forall₂ (fun _ json => json ∈ items) elements items :=
      ((List.forall₂_and_left _ _).mpr ⟨fun _ held => held, held.flip⟩).flip.imp fun _ _ => And.left
    exact (array items held).2 value carried json (chosen _ inItems)

theorem fits_enum {names : List Label} (legal : areLabels names = true) :
    FitsAbsorbed (.enum names) := by
  intro other otherOffered clear absorbs
  obtain ⟨label, rfl⟩ : ∃ label, names = [label] := by
    have ⟨labelled, distinct⟩ := of_areLabels legal
    rcases names with _ | ⟨first, _ | ⟨second, rest⟩⟩
    · exact absurd rfl labelled
    · exact ⟨first, rfl⟩
    · have same := absorbs.only otherOffered _ _ (carries_enum.mpr ⟨first, by simp, rfl⟩)
        (carries_enum.mpr ⟨second, by simp, rfl⟩)
      have equal : first = second := Label.ext (Val.enum.inj same)
      simp [equal] at distinct
  refine decide_eq_true (sole_of_writes otherOffered clear fun json written => ?_)
  have read := absorbs _ json (carries_enum.mpr ⟨label, by simp, rfl⟩) written
  simp only [WitType.read, Option.bind_eq_bind, Option.bind_eq_some_iff,
    Json.asStr_eq_some_iff] at read
  obtain ⟨text, rfl, found, named, -⟩ := read
  obtain rfl := List.mem_singleton.mp (List.mem_of_find?_eq_some named)
  have same := List.find?_some named
  rw [of_decide_eq_true same]

/-- Types of one value are built from enums of one name. -/
theorem fits_of_absorbs {ty : WitType} (offered : Offered ty) : FitsAbsorbed ty := by
  induction offered with
  | fixedLengthList length inside inductionHypothesis =>
      exact fits_fixedLengthList inside inductionHypothesis
  | record _ inside inductionHypothesis => exact fits_record inside inductionHypothesis
  | tuple inside inductionHypothesis => exact fits_tuple inside inductionHypothesis
  | variant legal inside inductionHypothesis =>
      exact fits_variant (.variant legal inside) inductionHypothesis
  | enum legal => exact fits_enum legal
  | bool =>
      intro other offered _ absorbs
      cases absorbs.only offered (.bool true) (.bool false) ⟨trivial, trivial⟩ ⟨trivial, trivial⟩
  | int kind =>
      intro other offered _ absorbs
      cases absorbs.only offered (.int kind ⟨0, by cases kind <;> decide⟩)
        (.int kind ⟨1, by cases kind <;> decide⟩) ⟨rfl, trivial⟩ ⟨rfl, trivial⟩
  | float32 =>
      intro other offered _ absorbs
      cases absorbs.only offered (.float32 ⟨false, 0, by decide⟩) (.float32 ⟨true, 0, by decide⟩)
        ⟨trivial, show _ < _ by decide⟩ ⟨trivial, show _ < _ by decide⟩
  | float64 =>
      intro other offered _ absorbs
      cases absorbs.only offered (.float64 ⟨false, 0, by decide⟩) (.float64 ⟨true, 0, by decide⟩)
        ⟨trivial, show _ < _ by decide⟩ ⟨trivial, show _ < _ by decide⟩
  | char =>
      intro other offered _ absorbs
      cases absorbs.only offered (.char 'a') (.char 'b') ⟨trivial, trivial⟩ ⟨trivial, trivial⟩
  | string =>
      intro other offered _ absorbs
      cases absorbs.only offered (.string []) (.string ['a']) ⟨trivial, trivial⟩ ⟨trivial, trivial⟩
  | list inside _ =>
      intro other offered _ absorbs
      obtain ⟨value, carried⟩ := inside.exists_carries
      cases absorbs.only offered (.list []) (.list [value])
        (carries_list.mpr ⟨[], rfl, by simp⟩) (carries_list.mpr ⟨[value], rfl, by simpa⟩)
  | option _ inside _ =>
      intro other offered _ absorbs
      obtain ⟨value, carried⟩ := inside.exists_carries
      cases absorbs.only offered (.option none) (.option (some value))
        (carries_option.mpr ⟨none, rfl, by simp⟩) (carries_option.mpr ⟨some value, rfl, by simpa⟩)
  | result okEach errEach _ _ =>
      intro other offered _ absorbs
      obtain ⟨ok, okHeld⟩ := exists_carriesSide fun ty same => (okEach ty same).exists_carries
      obtain ⟨err, errHeld⟩ := exists_carriesSide fun ty same => (errEach ty same).exists_carries
      cases absorbs.only offered (.ok ok) (.err err) (carries_result.mpr ⟨ok, .inl ⟨rfl, okHeld⟩⟩)
        (carries_result.mpr ⟨err, .inr ⟨rfl, errHeld⟩⟩)
  | flags legal =>
      intro other offered _ absorbs
      obtain ⟨label, member⟩ := exists_mem_of_areLabels legal
      cases absorbs.only offered (.flags []) (.flags [label.text])
        (carries_flags.mpr ⟨[], rfl, by simp⟩)
        (carries_flags.mpr ⟨[label.text], rfl, by simpa using ⟨label, member, rfl⟩⟩)

theorem absorbs_iff {ty other : WitType} (offered : Offered ty) (otherOffered : Offered other)
    (clear : other.clear = true) : Absorbs ty other ↔ ty.fits other = true :=
  ⟨fits_of_absorbs offered other otherOffered clear, absorbs_of_fits ty other⟩

end ServerBox.Monitor.AppValue
