import ServerBox.Monitor.ProxyHeaders

/-!
# What the app proxy leaves of a response's headers

The rewritten headers of a name are the readable ones, each rewritten. A header is cut at its
semicolons only, so a policy that stands behind a comma belongs to the part before it: it goes
with a `frame-ancestors` there, and keeps its own. A part of a policy or a cookie that only
begins like the proxy's own goes too.
-/

namespace ServerBox.Monitor.ProxyHeaders

open ServerBox.Std

/-! ### Texts -/

theorem mem_joinParts {parts : List Text} {char : Char} (held : char ∈ joinParts parts) :
    char = ';' ∨ char = ' ' ∨ ∃ part ∈ parts, char ∈ part := by
  induction parts with
  | nil => cases held
  | cons part parts inductionHypothesis =>
      cases parts with
      | nil =>
          have same : joinParts [part] = part := by simp [joinParts]
          exact .inr (.inr ⟨part, List.mem_cons_self, same ▸ held⟩)
      | cons next parts =>
          have shape : joinParts (part :: next :: parts) =
              part ++ ';' :: ' ' :: joinParts (next :: parts) := by
            simp [joinParts, List.intercalate]
          rw [shape, List.mem_append, List.mem_cons, List.mem_cons] at held
          rcases held with first | same | same | later
          · exact .inr (.inr ⟨part, List.mem_cons_self, first⟩)
          · exact .inl same
          · exact .inr (.inl same)
          · exact (inductionHypothesis later).imp_right fun rest => rest.imp_right
              fun ⟨found, inParts, inFound⟩ => ⟨found, List.mem_cons_of_mem _ inParts, inFound⟩

theorem trim_cons {char : Char} (blank : Text.isWhitespace char = true) (text : Text) :
    Text.trim (char :: text) = Text.trim text := by
  rw [Text.trim, Text.trimStart, List.dropWhile_cons_of_pos blank]
  rfl

/-- What was joined splits again, where no part holds a separator or a blank at an end. -/
theorem splitParts_joinParts {parts : List Text} (some : parts ≠ [])
    (plain : ∀ part ∈ parts, ';' ∉ part ∧ Text.trim part = part) :
    splitParts (joinParts parts) = parts := by
  obtain ⟨part, parts, rfl⟩ := List.exists_cons_of_ne_nil some
  have joined : joinParts (part :: parts) = [';'].intercalate (part :: parts.map (' ' :: ·)) := by
    clear some plain
    induction parts generalizing part with
    | nil => simp [joinParts]
    | cons next parts inductionHypothesis =>
        have tail := inductionHypothesis next
        simp only [joinParts, List.intercalate, List.map_cons, List.intersperse_cons_cons,
          List.flatten_cons] at tail ⊢
        rw [tail]
        cases parts <;> simp
  rw [List.forall_mem_cons] at plain
  rw [splitParts, joined, List.splitOn_intercalate ';' ?_ (List.cons_ne_nil _ _), List.map_cons,
    plain.1.2, List.map_map]
  · congr 1
    conv_rhs => rw [← List.map_id parts]
    refine List.map_congr_left fun other among => ?_
    exact (trim_cons (by decide) other).trans (plain.2 other among).2
  · rw [List.forall_mem_cons]
    refine ⟨plain.1.1, fun spaced among => ?_⟩
    obtain ⟨other, isOther, rfl⟩ := List.mem_map.mp among
    have lacks := (plain.2 other isOther).1
    simp [lacks]

theorem mem_of_mem_trim {text : Text} {char : Char} (held : char ∈ Text.trim text) : char ∈ text :=
  Text.mem_of_mem_trimStart (Text.mem_of_mem_trimEnd held)

theorem plain_of_mem_splitParts {value part : Text} (among : part ∈ splitParts value) :
    ';' ∉ part ∧ Text.trim part = part := by
  obtain ⟨raw, isRaw, rfl⟩ := List.mem_map.mp among
  exact ⟨fun held => not_mem_of_mem_splitOn isRaw (mem_of_mem_trim held), Text.trim_trim raw⟩

theorem mem_of_mem_splitParts {value part : Text} {char : Char} (among : part ∈ splitParts value)
    (held : char ∈ part) : char ∈ value := by
  obtain ⟨raw, isRaw, rfl⟩ := List.mem_map.mp among
  exact Text.mem_of_mem_splitOn isRaw (mem_of_mem_trim held)

/-! ### Headers -/

theorem getAll_remove (headers : Headers) (name : Name) :
    getAll (remove headers name) name = [] := by
  simp [getAll, remove]

theorem getAll_remove_of_ne (headers : Headers) {name other : Name} (differ : other ≠ name) :
    getAll (remove headers name) other = getAll headers other := by
  rw [getAll, getAll, remove, List.filter_filter]
  congr 1
  refine List.filter_congr fun header _ => ?_
  by_cases same : header.name = other
  · simp [same, differ]
  · simp [same]

theorem rewriteAll_eq (headers : Headers) (name : Name) (rewrite : Text → Text) :
    rewriteAll headers name rewrite =
      if (getAll headers name).filterMap toStr = [] then headers
      else rewriteEach name rewrite (remove headers name)
        ((getAll headers name).filterMap toStr) := by
  simp only [rewriteAll, List.isEmpty_iff]

theorem getAll_rewriteEach (name : Name) (rewrite : Text → Text) (headers : Headers)
    (values : List Text) :
    getAll (rewriteEach name rewrite headers values) name =
      getAll headers name ++ values.filterMap fun value => fromStr (rewrite value) := by
  induction values generalizing headers with
  | nil => simp [rewriteEach]
  | cons value values inductionHypothesis =>
      simp only [rewriteEach, List.foldl_cons] at inductionHypothesis ⊢
      rw [inductionHypothesis, List.filterMap_cons]
      cases fromStr (rewrite value) with
      | none => rfl
      | some rewritten => simp [getAll, append]

theorem getAll_rewriteEach_of_ne {name other : Name} (differ : other ≠ name)
    (rewrite : Text → Text) (headers : Headers) (values : List Text) :
    getAll (rewriteEach name rewrite headers values) other = getAll headers other := by
  induction values generalizing headers with
  | nil => rfl
  | cons value values inductionHypothesis =>
      simp only [rewriteEach, List.foldl_cons] at inductionHypothesis ⊢
      rw [inductionHypothesis]
      cases fromStr (rewrite value) with
      | none => rfl
      | some rewritten => simp [getAll, append, differ.symm]

/-- The headers of a name after they were rewritten. -/
theorem getAll_rewriteAll (headers : Headers) (name : Name) (rewrite : Text → Text) :
    getAll (rewriteAll headers name rewrite) name =
      if (getAll headers name).filterMap toStr = [] then getAll headers name
      else ((getAll headers name).filterMap toStr).filterMap
        fun value => fromStr (rewrite value) := by
  rw [rewriteAll_eq]
  split
  next => rfl
  next => rw [getAll_rewriteEach, getAll_remove, List.nil_append]

theorem getAll_rewriteAll_of_ne (headers : Headers) {name other : Name} (differ : other ≠ name)
    (rewrite : Text → Text) :
    getAll (rewriteAll headers name rewrite) other = getAll headers other := by
  rw [rewriteAll_eq]
  split
  next => rfl
  next => rw [getAll_rewriteEach_of_ne differ, getAll_remove_of_ne headers differ]

/-! ### Values that are rewritten -/

theorem isValid_of_isVisible {char : Char} (visible : isVisible char = true) :
    isValid char = true := by
  simp only [isVisible, isValid, Bool.or_eq_true, Bool.and_eq_true, decide_eq_true_eq] at visible ⊢
  exact visible.imp_right fun both => ⟨both.1, Nat.ne_of_lt both.2⟩

theorem fromStr_joinParts {parts : List Text}
    (visible : ∀ part ∈ parts, ∀ char ∈ part, isVisible char = true) :
    fromStr (joinParts parts) = some (joinParts parts) := by
  rw [fromStr, if_pos]
  rw [List.all_eq_true]
  intro char held
  rcases mem_joinParts held with rfl | rfl | ⟨part, among, inPart⟩
  · decide
  · decide
  · exact isValid_of_isVisible (visible part among char inPart)

theorem filterMap_toStr (values : List Text) :
    values.filterMap toStr = values.filter (·.all isVisible) := by
  induction values with
  | nil => rfl
  | cons value values inductionHypothesis =>
      by_cases visible : value.all isVisible = true
      · have read : toStr value = some value := if_pos visible
        rw [List.filterMap_cons_some read, List.filter_cons, if_pos visible, inductionHypothesis]
      · have read : toStr value = none := if_neg visible
        rw [List.filterMap_cons_none read, List.filter_cons, if_neg visible, inductionHypothesis]

theorem filterMap_fromStr {values : List Text} {rewrite : Text → Text}
    (readable : ∀ value ∈ values, fromStr (rewrite value) = some (rewrite value)) :
    (values.filterMap fun value => fromStr (rewrite value)) = values.map rewrite := by
  rw [← List.filterMap_eq_map]
  exact List.filterMap_congr readable

/-! ### Policies -/

/-- The directives between the commas of a policy's part. -/
def cells (part : Text) : List (List Directive) := (part.splitOn ',').map directives

theorem cells_ne_nil (part : Text) : cells part ≠ [] := by
  simp [cells, List.splitOn_ne_nil]

theorem directives_cons {char : Char} (blank : Text.isWhitespace char = true) (text : Text) :
    directives (char :: text) = directives text := by
  rw [directives, trim_cons blank]
  rfl

theorem cells_cons {char : Char} (blank : Text.isWhitespace char = true) (text : Text) :
    cells (char :: text) = cells text := by
  obtain ⟨first, others, shape⟩ := List.exists_cons_of_ne_nil (List.splitOn_ne_nil ',' text)
  have differs : ¬ (char == ',') = true := by
    rintro same
    rw [beq_iff_eq.mp same] at blank
    cases blank
  rw [cells, cells, List.splitOn_cons_eq_if_modifyHead, if_neg differs, shape]
  simp only [List.modifyHead_cons, List.map_cons, directives_cons blank]

theorem trim_concat {char : Char} (blank : Text.isWhitespace char = true) (text : Text) :
    Text.trim (text ++ [char]) = Text.trim text := by
  simp only [Text.trim, Text.trimStart, Text.trimEnd, List.dropWhile_append]
  split
  next allBlank =>
    rw [List.isEmpty_iff.mp allBlank, List.dropWhile_cons_of_pos blank]
    rfl
  next => exact List.rdropWhile_concat_pos _ _ _ blank

theorem cells_concat {char : Char} (blank : Text.isWhitespace char = true) (text : Text) :
    cells (text ++ [char]) = cells text := by
  have differs : char ≠ ',' := by
    rintro rfl
    cases blank
  have single : [char].splitOn ',' = [[char]] :=
    List.splitOn_eq_singleton (by simpa using differs.symm)
  have each : ∀ parts : List Text, parts ≠ [] →
      (glue parts [[char]]).map directives = parts.map directives := by
    intro parts some
    induction parts with
    | nil => exact absurd rfl some
    | cons part parts inductionHypothesis =>
        cases parts with
        | nil => simp [directives, trim_concat blank]
        | cons next parts =>
            rw [glue_cons_cons, List.map_cons, inductionHypothesis (List.cons_ne_nil _ _)]
            rfl
  rw [cells, cells, splitOn_append, single, each _ (List.splitOn_ne_nil ',' text)]

/-- Blanks around a part are none of its directives'. -/
theorem cells_trim (text : Text) : cells (Text.trim text) = cells text := by
  have start : ∀ text, cells (Text.trimStart text) = cells text := by
    intro text
    induction text with
    | nil => rfl
    | cons char text inductionHypothesis =>
        by_cases blank : Text.isWhitespace char = true
        · rw [cells_cons blank, ← inductionHypothesis, Text.trimStart,
            List.dropWhile_cons_of_pos blank]
          rfl
        · rw [Text.trimStart, List.dropWhile_cons_of_neg blank]
  have ending : ∀ text, cells (Text.trimEnd text) = cells text := by
    intro text
    induction text using List.reverseRecOn with
    | nil => rfl
    | append_singleton text char inductionHypothesis =>
        by_cases blank : Text.isWhitespace char = true
        · rw [cells_concat blank, ← inductionHypothesis, Text.trimEnd,
            List.rdropWhile_concat_pos _ _ _ blank]
          rfl
        · rw [Text.trimEnd, List.rdropWhile_concat_neg _ _ _ blank]
  rw [Text.trim, ending, start]

/-- The policies of a header, from its parts between the semicolons. -/
theorem policies_eq (value : Text) : policies value = glueAll ((splitParts value).map cells) := by
  have nested := map_splitOn_splitOn (by decide : ';' ≠ ',') value
  have split : policies value =
      ((value.splitOn ',').map (·.splitOn ';')).map (·.flatMap directives) := by
    rw [policies, List.map_map]
    rfl
  rw [split, nested, map_glueAll rfl fun one other => List.flatMap_append, splitParts,
    List.map_map, List.map_map]
  congr 1
  refine List.map_congr_left fun part _ => ?_
  rw [Function.comp_apply, Function.comp_apply, cells_trim, cells, List.map_map]
  refine List.map_congr_left fun segment _ => ?_
  simp

/-! ### A policy rewritten -/

section

variable (ancestors : Ancestors)

theorem Ancestors.visible_of_mem {char : Char} (held : char ∈ ancestors.text) :
    isVisible char = true := List.all_eq_true.mp ancestors.visible char held

theorem Ancestors.directives_text : directives ancestors.text = [readDirective ancestors.text] := by
  have some : ancestors.text ≠ [] := by
    intro empty
    have named := ancestors.named
    rw [empty] at named
    exact absurd named (by decide)
  rw [directives, ancestors.trimmed, if_neg (by simpa using some)]

theorem Ancestors.cells_text : cells ancestors.text = [[readDirective ancestors.text]] := by
  rw [cells, List.splitOn_eq_singleton ancestors.single.1, List.map_singleton,
    ancestors.directives_text]

/-- The parts of a policy that are kept. -/
def keptParts (policy : Text) : List Text :=
  (splitParts policy).filter fun part => !part.isEmpty && !isFraming part

theorem rewritePolicy_eq (policy : Text) :
    rewritePolicy ancestors.text policy = joinParts (keptParts policy ++ [ancestors.text]) := rfl

theorem splitParts_rewritePolicy (policy : Text) :
    splitParts (rewritePolicy ancestors.text policy) = keptParts policy ++ [ancestors.text] := by
  refine splitParts_joinParts (by simp) fun part among => ?_
  rcases List.mem_append.mp among with kept | own
  · exact plain_of_mem_splitParts (List.mem_of_mem_filter kept)
  · rw [List.mem_singleton.mp own]
    exact ⟨ancestors.single.2, ancestors.trimmed⟩

theorem fromStr_rewritePolicy {policy : Text} (visible : policy.all isVisible = true) :
    fromStr (rewritePolicy ancestors.text policy) = some (rewritePolicy ancestors.text policy) := by
  refine fromStr_joinParts fun part among char held => ?_
  rcases List.mem_append.mp among with kept | own
  · exact List.all_eq_true.mp visible char
      (mem_of_mem_splitParts (List.mem_of_mem_filter kept) held)
  · exact ancestors.visible_of_mem (List.mem_singleton.mp own ▸ held)

/-- The policies of a rewritten header: those of the kept parts, the last with the ancestors. -/
theorem policies_rewritePolicy (policy : Text) :
    policies (rewritePolicy ancestors.text policy) =
      glueAll ((keptParts policy).map cells ++ [[[readDirective ancestors.text]]]) := by
  rw [policies_eq, splitParts_rewritePolicy, List.map_append, List.map_singleton,
    ancestors.cells_text]

/-! ### The other directives -/

/-- The directives of a part that are not the proxy's own, between its commas. -/
def otherCells (part : Text) : List (List Directive) := (cells part).map others

theorem otherCells_ne_nil (part : Text) : otherCells part ≠ [] := by
  simp [otherCells, cells_ne_nil]

theorem others_append (policy more : List Directive) :
    others (policy ++ more) = others policy ++ others more := List.filter_append policy more

theorem map_others_policies (value : Text) :
    (policies value).map others = glueAll ((splitParts value).map otherCells) := by
  rw [policies_eq, map_glueAll rfl others_append, List.map_map]
  rfl

theorem Ancestors.otherCells_text : otherCells ancestors.text = [[]] := by
  simp [otherCells, ancestors.cells_text, others, ancestors.named]

theorem map_others_rewritePolicy (policy : Text) :
    (policies (rewritePolicy ancestors.text policy)).map others =
      glueAll ((keptParts policy).map otherCells) := by
  rw [map_others_policies, splitParts_rewritePolicy, List.map_append, List.map_singleton,
    ancestors.otherCells_text, glueAll_concat_empty]

/-- A part that is taken for `frame-ancestors` goes alone when it is that and nothing else. -/
theorem otherCells_eq_empty_iff {part : Text} (trimmed : Text.trim part = part) (some : part ≠ []) :
    otherCells part = [[]] ↔ ',' ∉ part ∧ (readDirective part).isFrameAncestors = true := by
  constructor
  · intro empty
    have single : (part.splitOn ',').length = 1 := by
      have length := congrArg List.length empty
      simpa [otherCells, cells] using length
    have noComma : ',' ∉ part := by
      intro held
      obtain ⟨front, back, rfl⟩ := List.append_of_mem held
      rw [List.splitOn_append_cons_self, List.length_append] at single
      have one := List.length_pos_iff.mpr (List.splitOn_ne_nil ',' front)
      have other := List.length_pos_iff.mpr (List.splitOn_ne_nil ',' back)
      omega
    refine ⟨noComma, ?_⟩
    have whole : directives part = [readDirective part] := by
      rw [directives, trimmed, if_neg (by simpa using some)]
    rw [otherCells, cells, List.splitOn_eq_singleton noComma, List.map_singleton, whole,
      List.map_singleton] at empty
    by_contra other
    simp [others, other] at empty
  · rintro ⟨noComma, framing⟩
    have whole : directives part = [readDirective part] := by
      rw [directives, trimmed, if_neg (by simpa using some)]
    simp [otherCells, cells, List.splitOn_eq_singleton noComma, whole, others, framing]

theorem light_rewritePolicy (policy : Text) :
    glueWeight ((policies (rewritePolicy ancestors.text policy)).map others) ≤
      glueWeight ((policies policy).map others) := by
  rw [map_others_rewritePolicy, map_others_policies]
  exact Nat.le_of_add_right_le
    (glueWeight_filter (fun part _ => otherCells_ne_nil part) _).symm.le

/-- What a header's policies lose is what stood in the parts that went. -/
theorem weight_rewritePolicy (policy : Text) :
    glueWeight ((policies policy).map others) =
        glueWeight ((policies (rewritePolicy ancestors.text policy)).map others) ↔
      ∀ part ∈ splitParts policy, isFraming part = true →
        ',' ∉ part ∧ (readDirective part).isFrameAncestors = true := by
  rw [map_others_policies, map_others_rewritePolicy, keptParts,
    glueAll_filter_iff fun part _ => otherCells_ne_nil part]
  refine forall₂_congr fun part among => ?_
  have trimmed := (plain_of_mem_splitParts among).2
  by_cases empty : part = []
  · subst empty
    exact ⟨fun _ framing => absurd framing (by decide), fun _ _ => rfl⟩
  · rw [← otherCells_eq_empty_iff trimmed empty]
    simp [empty]

/-! ### Who may frame -/

theorem length_trim_le (text : Text) : (Text.trim text).length ≤ text.length :=
  (List.rdropWhile_prefix _ _).length_le.trans (List.length_dropWhile_le _ _)

theorem isWhitespace_head {char : Char} {text : Text}
    (trimmed : Text.trim (char :: text) = char :: text) : Text.isWhitespace char = false := by
  by_contra blank
  have length := length_trim_le text
  rw [← trim_cons (by simpa using blank), trimmed, List.length_cons] at length
  omega

/-- No `frame-ancestors` stands before the first comma of a part that does not begin so. -/
theorem not_isFrameAncestors_first {part first : Text} {rest : List Text}
    (trimmed : Text.trim part = part) (other : isFraming part = false)
    (split : part.splitOn ',' = first :: rest) {directive : Directive}
    (among : directive ∈ directives first) : directive.isFrameAncestors = false := by
  by_contra framing
  have begins : first <+: part := prefix_of_splitOn split
  have started : Text.trim first <+: first := by
    cases first with
    | nil => exact List.prefix_refl _
    | cons char text =>
        obtain ⟨tail, rfl⟩ := begins
        have solid : Text.isWhitespace char = false := isWhitespace_head trimmed
        rw [Text.trim, Text.trimStart, List.dropWhile_cons_of_neg (by simp [solid])]
        exact List.rdropWhile_prefix _ _
  rw [directives] at among
  split at among
  · cases among
  · rw [List.mem_singleton.mp among] at framing
    have named : toAsciiLowercase ((Text.trim first).takeWhile (!Text.isWhitespace ·)) =
        frameAncestorsName := of_decide_eq_true ((Bool.not_eq_false _).mp framing)
    have whole : frameAncestorsName <+: toAsciiLowercase part := by
      rw [← named]
      exact (((List.takeWhile_prefix _).trans started).trans begins).map _
    rw [isFraming, List.isPrefixOf_iff_prefix.mpr whole] at other
    cases other

theorem eq_singleton_of_mem_directives {segment : Text} {directive : Directive}
    (held : directive ∈ directives segment) : directives segment = [directive] := by
  rw [directives] at held ⊢
  split at held
  next => cases held
  next some => rw [if_neg some, List.mem_singleton.mp held]

/-- No directive but the ancestors says who may frame, behind the comma of a kept part either. -/
def OnlyOwn (policy : Text) : Prop :=
  ∀ part ∈ splitParts policy, isFraming part = false → ∀ segment ∈ (part.splitOn ',').tail,
    ∀ directive ∈ directives segment, directive.isFrameAncestors = true →
      directive = readDirective ancestors.text

theorem isFrameAncestors_rewritePolicy {policy : Text} (own : OnlyOwn ancestors policy)
    {directive : Directive}
    (held : directive ∈ (policies (rewritePolicy ancestors.text policy)).flatten)
    (framing : directive.isFrameAncestors = true) : directive = readDirective ancestors.text := by
  rw [policies_rewritePolicy, flatten_glueAll, List.flatMap_append, List.mem_append] at held
  rcases held with kept | last
  · obtain ⟨_, isRow, held⟩ := List.mem_flatMap.mp kept
    obtain ⟨part, isPart, rfl⟩ := List.mem_map.mp isRow
    obtain ⟨isPart, stays⟩ := List.mem_filter.mp isPart
    have other : isFraming part = false := by
      simp only [Bool.and_eq_true, Bool.not_eq_true'] at stays
      exact stays.2
    obtain ⟨_, isCell, held⟩ := List.mem_flatten.mp held
    obtain ⟨segment, isSegment, rfl⟩ := List.mem_map.mp isCell
    obtain ⟨first, rest, split⟩ := List.exists_cons_of_ne_nil (List.splitOn_ne_nil ',' part)
    rw [split] at isSegment
    rcases List.mem_cons.mp isSegment with rfl | behind
    · have noOwn := not_isFrameAncestors_first (plain_of_mem_splitParts isPart).2 other split held
      exact absurd framing (by simp [noOwn])
    · exact own part isPart other segment (by rw [split]; exact behind) directive held framing
  · simpa using last

theorem only_rewritePolicy (policy : Text) :
    (∀ each ∈ policies (rewritePolicy ancestors.text policy), ∀ directive ∈ framing each,
      directive = readDirective ancestors.text) ↔ OnlyOwn ancestors policy := by
  constructor
  · intro only part isPart other segment behind directive held isFraming
    have kept : part ∈ keptParts policy := by
      refine List.mem_filter.mpr ⟨isPart, ?_⟩
      have some : part ≠ [] := by
        rintro rfl
        cases behind
      simp [some, other]
    have isRow : cells part ∈ (keptParts policy).map cells ++ [[[readDirective ancestors.text]]] :=
      List.mem_append_left _ (List.mem_map_of_mem kept)
    have isCell : directives segment ∈ (cells part).tail := by
      rw [cells, ← List.map_tail]
      exact List.mem_map_of_mem behind
    obtain ⟨each, isEach, begins⟩ := exists_prefix_of_mem_rows isRow isCell
    rw [← policies_rewritePolicy] at isEach
    refine only each (List.mem_of_mem_tail isEach) directive ?_
    obtain ⟨tail, rfl⟩ := begins
    rw [eq_singleton_of_mem_directives held]
    exact List.find?_cons_of_pos isFraming
  · intro own each isEach directive framed
    exact isFrameAncestors_rewritePolicy ancestors own
      (List.mem_flatten.mpr ⟨each, isEach, List.mem_of_find?_eq_some framed⟩)
      (List.find?_some framed)

theorem limited_rewritePolicy (policy : Text) :
    ∃ each ∈ policies (rewritePolicy ancestors.text policy), (framing each).isSome = true := by
  have held : readDirective ancestors.text ∈
      (policies (rewritePolicy ancestors.text policy)).flatten := by
    rw [policies_rewritePolicy, flatten_glueAll, List.flatMap_append]
    simp
  obtain ⟨each, isEach, inEach⟩ := List.mem_flatten.mp held
  exact ⟨each, isEach, List.find?_isSome.mpr ⟨_, inEach, ancestors.named⟩⟩

end

/-! ### A cookie rewritten -/

theorem splitParts_ne_nil (value : Text) : splitParts value ≠ [] := by
  simp [splitParts, List.splitOn_ne_nil]

theorem plain_of_mem_crossSiteParts {part : Text} (among : part ∈ crossSiteParts) :
    ';' ∉ part ∧ Text.trim part = part ∧ (∀ char ∈ part, isVisible char = true) ∧
      isSiteAttribute part = true ∧ staysInCookie part = false := by
  revert part
  decide

theorem splitParts_rewriteCookie (cookie : Text) :
    splitParts (rewriteCookie cookie) =
      (splitParts cookie).filter staysInCookie ++ crossSiteParts := by
  refine splitParts_joinParts (by simp [crossSiteParts]) fun part among => ?_
  rcases List.mem_append.mp among with kept | own
  · exact plain_of_mem_splitParts (List.mem_of_mem_filter kept)
  · have plain := plain_of_mem_crossSiteParts own
    exact ⟨plain.1, plain.2.1⟩

theorem fromStr_rewriteCookie {cookie : Text} (visible : cookie.all isVisible = true) :
    fromStr (rewriteCookie cookie) = some (rewriteCookie cookie) := by
  refine fromStr_joinParts fun part among char held => ?_
  rcases List.mem_append.mp among with kept | own
  · exact List.all_eq_true.mp visible char
      (mem_of_mem_splitParts (List.mem_of_mem_filter kept) held)
  · exact (plain_of_mem_crossSiteParts own).2.2.1 char held

/-- A part that does not stay says where the cookie is sent, or begins like `SameSite`. -/
def beginsSameSite (part : Text) : Bool :=
  "samesite".toList.isPrefixOf (toAsciiLowercase part)

/-- Whether a cookie's own name and value stay, and what begins like `SameSite` says where the
cookie is sent. -/
def CookieFaithful (cookie : Text) : Prop :=
  staysInCookie (readCookie cookie).pair = true ∧
    ∀ part ∈ (readCookie cookie).attributes, beginsSameSite part = true →
      isSiteAttribute part = true

theorem not_stays_of_begins {part : Text} (begins : beginsSameSite part = true) :
    staysInCookie part = false := by
  rw [beginsSameSite] at begins
  simp only [staysInCookie, begins, Bool.not_true, Bool.false_and]

/-- A part without a value has its whole text for a name. -/
theorem attributeName_of_lower {part name : Text} (trimmed : Text.trim part = part)
    (lower : toAsciiLowercase part = name) (noValue : '=' ∉ name) : attributeName part = name := by
  have whole : part.takeWhile (· ≠ '=') = part := by
    refine List.takeWhile_eq_self_iff.mpr fun char held => ?_
    rw [decide_eq_true_eq]
    rintro rfl
    refine noValue (lower ▸ ?_)
    exact List.mem_map.mpr ⟨'=', held, by decide⟩
  rw [attributeName, whole, trimmed, lower]

theorem stays_of_other {part : Text} (trimmed : Text.trim part = part)
    (other : isSiteAttribute part = false) (begins : beginsSameSite part = false) :
    staysInCookie part = true := by
  rw [beginsSameSite] at begins
  simp only [isSiteAttribute, decide_eq_false_iff_not, List.mem_cons, List.not_mem_nil, or_false,
    not_or] at other
  simp only [staysInCookie, begins, Bool.not_false, Bool.true_and, Bool.and_eq_true,
    decide_eq_true_eq]
  exact ⟨fun same => other.2.1 (attributeName_of_lower trimmed same (by decide)),
    fun same => other.2.2 (attributeName_of_lower trimmed same (by decide))⟩

theorem readCookie_of_splitParts {value pair : Text} {attributes : List Text}
    (split : splitParts value = pair :: attributes) : readCookie value = ⟨pair, attributes⟩ := by
  rw [readCookie, split]

theorem crossSite_append (pair : Text) (attributes : List Text) :
    Cookie.crossSite ⟨pair, attributes ++ crossSiteParts⟩ = true := by
  have sameSite : crossSiteParts.filter (fun part => attributeName part = "samesite".toList) =
      ["SameSite=None".toList] := by decide
  have secure : crossSiteParts.any (fun part => attributeName part = "secure".toList) = true := by
    decide
  have partitioned :
      crossSiteParts.any (fun part => attributeName part = "partitioned".toList) = true := by
    decide
  simp only [Cookie.crossSite, List.filter_append, sameSite, List.any_append, secure, partitioned,
    Bool.or_true, Bool.and_true, List.getLast?_concat]
  decide

theorem cookieKept_rewriteCookie (cookie : Text) :
    CookieKept cookie (rewriteCookie cookie) ↔ CookieFaithful cookie := by
  obtain ⟨pair, attributes, split⟩ := List.exists_cons_of_ne_nil (splitParts_ne_nil cookie)
  have before := readCookie_of_splitParts split
  have after := splitParts_rewriteCookie cookie
  rw [split] at after
  have trimmed : ∀ part ∈ attributes, Text.trim part = part := fun part among =>
    (plain_of_mem_splitParts (split ▸ List.mem_cons_of_mem _ among)).2
  by_cases stays : staysInCookie pair = true
  · rw [List.filter_cons_of_pos stays, List.cons_append] at after
    have read := readCookie_of_splitParts after
    have othersAfter : (readCookie (rewriteCookie cookie)).others =
        attributes.filter fun part => !isSiteAttribute part && staysInCookie part := by
      have noOwn : crossSiteParts.filter (!isSiteAttribute ·) = [] := by decide
      rw [read, Cookie.others, List.filter_append, noOwn, List.append_nil, List.filter_filter]
    have othersBefore : (readCookie cookie).others =
        attributes.filter fun part => !isSiteAttribute part := by
      rw [before, Cookie.others]
    constructor
    · intro kept
      refine ⟨by rw [before]; exact stays, fun part among begins => ?_⟩
      rw [before] at among
      by_contra other
      have same := kept.others
      rw [othersAfter, othersBefore] at same
      have held : part ∈ attributes.filter fun part => !isSiteAttribute part :=
        List.mem_filter.mpr ⟨among, by simpa using other⟩
      rw [← same] at held
      have staysToo := (List.mem_filter.mp held).2
      rw [not_stays_of_begins begins, Bool.and_false] at staysToo
      cases staysToo
    · rintro ⟨-, only⟩
      rw [before] at only
      refine ⟨by rw [read, before], ?_, by rw [read]; exact crossSite_append _ _⟩
      rw [othersAfter, othersBefore]
      refine List.filter_congr fun part among => ?_
      cases other : isSiteAttribute part with
      | true => rfl
      | false =>
          have begins : beginsSameSite part = false := by
            by_contra begins
            rw [only part among (by simpa using begins)] at other
            cases other
          rw [stays_of_other (trimmed part among) other begins]
          rfl
  · constructor
    · intro kept
      exfalso
      rw [List.filter_cons_of_neg stays] at after
      cases rest : attributes.filter staysInCookie with
      | nil =>
          rw [rest] at after
          have cross := kept.crossSite
          rw [readCookie_of_splitParts after] at cross
          exact absurd cross (by decide)
      | cons first others =>
          rw [rest] at after
          have same := kept.pair
          rw [readCookie_of_splitParts after, before] at same
          change first = pair at same
          have firstStays : first ∈ attributes.filter staysInCookie := rest ▸ List.mem_cons_self
          exact stays (same ▸ (List.mem_filter.mp firstStays).2)
    · rintro ⟨staysToo, -⟩
      rw [before] at staysToo
      exact absurd staysToo stays

/-! ### The response -/

/-- The headers whose policies are as their grammar has them, of visible ASCII characters. -/
def Grammatical (headers : Headers) : Prop :=
  ∀ value ∈ getAll headers .contentSecurityPolicy, value.all isVisible = true

/-- A policy that is cut at its semicolons as it is cut at its commas. -/
structure PolicyFaithful (ancestors : Ancestors) (policy : Text) : Prop where
  framing : ∀ part ∈ splitParts policy, isFraming part = true →
    ',' ∉ part ∧ (readDirective part).isFrameAncestors = true
  only : OnlyOwn ancestors policy

/-- A response with a policy, whose policies and cookies can be read and are the proxy's own in
what begins so; or whose cookies cannot be read and need no change. -/
structure Faithful (ancestors : Ancestors) (secure : Bool) (headers : Headers) : Prop where
  policy : getAll headers .contentSecurityPolicy ≠ []
  policies : ∀ policy ∈ getAll headers .contentSecurityPolicy, PolicyFaithful ancestors policy
  cookies : secure = true →
    (∀ cookie ∈ getAll headers .setCookie, cookie.all isVisible = true ∧ CookieFaithful cookie) ∨
      ∀ cookie ∈ getAll headers .setCookie, cookie.all isVisible = false ∧
        (readCookie cookie).crossSite = true

section

variable (ancestors : Ancestors) (headers : Headers)

theorem getAll_rewritten_of_ne (secure : Bool) {name : Name}
    (noPolicy : name ≠ .contentSecurityPolicy)
    (noCookie : name ≠ .setCookie ∨ secure = false) :
    getAll (rewriteResponseHeaders headers ancestors.text secure) name =
      getAll (remove headers .xFrameOptions) name := by
  simp only [rewriteResponseHeaders]
  split
  next isSecure =>
    have differ : name ≠ .setCookie := noCookie.resolve_right (by simp [isSecure])
    rw [getAll_rewriteAll_of_ne _ differ, getAll_rewriteAll_of_ne _ noPolicy]
  next => rw [getAll_rewriteAll_of_ne _ noPolicy]

theorem getAll_rewritten_policies (secure : Bool) (grammatical : Grammatical headers) :
    getAll (rewriteResponseHeaders headers ancestors.text secure) .contentSecurityPolicy =
      (getAll headers .contentSecurityPolicy).map (rewritePolicy ancestors.text) := by
  have first : getAll (rewriteAll (remove headers .xFrameOptions) .contentSecurityPolicy
      (rewritePolicy ancestors.text)) .contentSecurityPolicy =
        (getAll headers .contentSecurityPolicy).map (rewritePolicy ancestors.text) := by
    have readable : (getAll headers .contentSecurityPolicy).filterMap toStr =
        getAll headers .contentSecurityPolicy := by
      rw [filterMap_toStr, List.filter_eq_self]
      exact grammatical
    rw [getAll_rewriteAll, getAll_remove_of_ne headers (by decide), readable, filterMap_fromStr
      fun policy held => fromStr_rewritePolicy ancestors (grammatical policy held)]
    split
    next none => rw [none, List.map_nil]
    next => rfl
  simp only [rewriteResponseHeaders]
  split
  next => rw [getAll_rewriteAll_of_ne _ (by decide), first]
  next => exact first

theorem getAll_rewritten_cookies :
    getAll (rewriteResponseHeaders headers ancestors.text true) .setCookie =
      if (getAll headers .setCookie).filter (·.all isVisible) = [] then getAll headers .setCookie
      else ((getAll headers .setCookie).filter (·.all isVisible)).map rewriteCookie := by
  have before : getAll (rewriteAll (remove headers .xFrameOptions) .contentSecurityPolicy
      (rewritePolicy ancestors.text)) .setCookie = getAll headers .setCookie := by
    rw [getAll_rewriteAll_of_ne _ (by decide), getAll_remove_of_ne _ (by decide)]
  simp only [rewriteResponseHeaders, if_true]
  rw [getAll_rewriteAll, before, filterMap_toStr, filterMap_fromStr fun cookie held =>
    fromStr_rewriteCookie (List.mem_filter.mp held).2]

/-- Just those ancestors may frame the response when it had a policy and no other ancestors are
left behind a comma. -/
theorem framedBy_rewritten_iff (secure : Bool) (grammatical : Grammatical headers) :
    FramedBy ancestors (rewriteResponseHeaders headers ancestors.text secure) ↔
      getAll headers .contentSecurityPolicy ≠ [] ∧
        ∀ policy ∈ getAll headers .contentSecurityPolicy, OnlyOwn ancestors policy := by
  have after : allPolicies (rewriteResponseHeaders headers ancestors.text secure) =
      (getAll headers .contentSecurityPolicy).flatMap fun policy =>
        policies (rewritePolicy ancestors.text policy) := by
    rw [allPolicies, getAll_rewritten_policies ancestors headers secure grammatical,
      List.flatMap_map]
  constructor
  · intro framed
    refine ⟨fun none => ?_, fun policy held => ?_⟩
    · obtain ⟨each, isEach, -⟩ := framed.limited
      rw [after, none] at isEach
      cases isEach
    · refine (only_rewritePolicy ancestors policy).mp fun each isEach => framed.only each ?_
      rw [after]
      exact List.mem_flatMap.mpr ⟨policy, held, isEach⟩
  · rintro ⟨some, only⟩
    refine ⟨?_, ?_, fun each isEach => ?_⟩
    · rw [getAll_rewritten_of_ne ancestors headers secure (by decide) (.inl (by decide)),
        getAll_remove]
    · obtain ⟨policy, rest, shape⟩ := List.exists_cons_of_ne_nil some
      obtain ⟨each, isEach, limited⟩ := limited_rewritePolicy ancestors policy
      refine ⟨each, ?_, limited⟩
      rw [after, shape]
      exact List.mem_flatMap.mpr ⟨policy, List.mem_cons_self, isEach⟩
    · rw [after] at isEach
      obtain ⟨policy, held, isEach⟩ := List.mem_flatMap.mp isEach
      exact (only_rewritePolicy ancestors policy).mpr (only policy held) each isEach

/-- The other directives stay when what goes is `frame-ancestors` directives and nothing else. -/
theorem others_rewritten_iff (secure : Bool) (grammatical : Grammatical headers) :
    (allPolicies (rewriteResponseHeaders headers ancestors.text secure)).map others =
        (allPolicies headers).map others ↔
      ∀ policy ∈ getAll headers .contentSecurityPolicy, ∀ part ∈ splitParts policy,
        isFraming part = true → ',' ∉ part ∧ (readDirective part).isFrameAncestors = true := by
  have ne_nil : ∀ value, (policies value).map others ≠ [] := fun value => by
    rw [map_others_policies]
    exact glueAll_ne_nil _
  have weights : ∀ policy,
      glueWeight ((policies (rewritePolicy ancestors.text policy)).map others) =
          glueWeight ((policies policy).map others) ↔
        ∀ part ∈ splitParts policy, isFraming part = true →
          ',' ∉ part ∧ (readDirective part).isFrameAncestors = true :=
    fun policy => eq_comm.trans (weight_rewritePolicy ancestors policy)
  rw [allPolicies, allPolicies, getAll_rewritten_policies ancestors headers secure grammatical,
    List.flatMap_map, List.map_flatMap, List.map_flatMap,
    flatMap_eq_iff (fun policy _ => ⟨ne_nil _, ne_nil _⟩)
      (fun policy _ => light_rewritePolicy ancestors policy)]
  · exact forall₂_congr fun policy _ => weights policy
  · intro policy _ same
    have alone := (weights policy).mp same
    rw [map_others_rewritePolicy, map_others_policies]
    refine glueAll_filter fun part among gone => ?_
    by_cases empty : part = []
    · rw [empty]
      rfl
    · refine (otherCells_eq_empty_iff (plain_of_mem_splitParts among).2 empty).mpr
        (alone part among ?_)
      simpa [empty] using gone

theorem cookies_rewritten_iff :
    List.Forall₂ CookieKept (getAll headers .setCookie)
        (getAll (rewriteResponseHeaders headers ancestors.text true) .setCookie) ↔
      (∀ cookie ∈ getAll headers .setCookie, cookie.all isVisible = true ∧ CookieFaithful cookie) ∨
        ∀ cookie ∈ getAll headers .setCookie, cookie.all isVisible = false ∧
          (readCookie cookie).crossSite = true := by
  rw [getAll_rewritten_cookies]
  generalize getAll headers .setCookie = cookies
  have rewritten : ∀ values : List Text, List.Forall₂ CookieKept values (values.map rewriteCookie) ↔
      ∀ cookie ∈ values, CookieFaithful cookie := fun values => by
    rw [List.forall₂_map_right_iff, List.forall₂_same]
    exact forall₂_congr fun cookie _ => cookieKept_rewriteCookie cookie
  split
  next hidden =>
    have unreadable : ∀ cookie ∈ cookies, cookie.all isVisible = false := by
      simpa only [List.filter_eq_nil_iff, Bool.not_eq_true] using hidden
    rw [List.forall₂_same]
    constructor
    · exact fun kept => .inr fun cookie held =>
        ⟨unreadable cookie held, (kept cookie held).crossSite⟩
    · rintro (readable | ready) cookie held
      · exact absurd (readable cookie held).1 (by simp [unreadable cookie held])
      · exact ⟨rfl, rfl, (ready cookie held).2⟩
  next some =>
    constructor
    · intro kept
      -- As many are left as there were, so each was readable.
      have length := kept.length_eq
      rw [List.length_map] at length
      have readable := List.length_filter_eq_length_iff.mp length.symm
      rw [List.filter_eq_self.mpr readable, rewritten] at kept
      exact .inl fun cookie held => ⟨readable cookie held, kept cookie held⟩
    · rintro (faithful | hidden)
      · rw [List.filter_eq_self.mpr fun cookie held => (faithful cookie held).1, rewritten]
        exact fun cookie held => (faithful cookie held).2
      · refine absurd (List.filter_eq_nil_iff.mpr fun cookie held => ?_) some
        rw [(hidden cookie held).1]
        exact Bool.false_ne_true

/-- The response is rewritten in what is the proxy's own, and in nothing else, just when its
policies and cookies are cut as they read. -/
theorem rewrittenOwn_iff {headers : Headers} (grammatical : Grammatical headers)
    (ancestors : Ancestors) (secure : Bool) :
    RewrittenOwn ancestors secure headers
        (rewriteResponseHeaders headers ancestors.text secure) ↔
      Faithful ancestors secure headers := by
  have framed := framedBy_rewritten_iff ancestors headers secure grammatical
  have kept := others_rewritten_iff ancestors headers secure grammatical
  constructor
  · intro own
    have limited := framed.mp own.framed
    have alone := kept.mp own.policies
    refine ⟨limited.1, fun policy held => ⟨alone policy held, limited.2 policy held⟩, ?_⟩
    rintro rfl
    exact (cookies_rewritten_iff ancestors headers).mp own.cookies
  · intro faithful
    refine ⟨framed.mpr ⟨faithful.policy, fun policy held => (faithful.policies policy held).only⟩,
      kept.mpr fun policy held => (faithful.policies policy held).framing, ?_, fun name => ?_⟩
    · cases secure with
      | true => exact (cookies_rewritten_iff ancestors headers).mpr (faithful.cookies rfl)
      | false =>
          rw [if_neg Bool.false_ne_true, getAll_rewritten_of_ne ancestors headers false (by decide)
            (.inr rfl), getAll_remove_of_ne headers (by decide)]
    · rw [getAll_rewritten_of_ne ancestors headers secure (by simp) (.inl (by simp)),
        getAll_remove_of_ne headers (by simp)]

end

/-! ### What `frame_ancestors` makes -/

/-- A word that no separator of a policy's stands in. -/
structure IsWord (word : Text) : Prop where
  some : word ≠ []
  plain : ∀ char ∈ word, isVisible char = true ∧ Text.isWhitespace char = false ∧
    char ≠ ',' ∧ char ≠ ';'

theorem exists_last_join {words : List Text} (some : words ≠ [])
    (isWord : ∀ word ∈ words, IsWord word) :
    ∃ front char, Text.join ' ' words = front ++ [char] ∧ Text.isWhitespace char = false := by
  induction words with
  | nil => exact absurd rfl some
  | cons word words inductionHypothesis =>
      rw [List.forall_mem_cons] at isWord
      cases words with
      | nil =>
          refine ⟨word.dropLast, word.getLast isWord.1.some, ?_,
            (isWord.1.plain _ (List.getLast_mem _)).2.1⟩
          rw [Text.join_singleton, List.dropLast_append_getLast]
      | cons next words =>
          obtain ⟨front, char, shape, solid⟩ :=
            inductionHypothesis (List.cons_ne_nil _ _) isWord.2
          refine ⟨word ++ ' ' :: front, char, ?_, solid⟩
          rw [Text.join_cons_cons, shape]
          simp

/-- The directive of any words. -/
def ancestorsOf (words : List Text) (some : words ≠ []) (isWord : ∀ word ∈ words, IsWord word) :
    Ancestors where
  text := frameAncestorsName ++ ' ' :: Text.join ' ' words
  visible := by
    rw [List.all_eq_true]
    intro char held
    rcases List.mem_append.mp held with named | behind
    · exact List.all_eq_true.mp (by decide : frameAncestorsName.all isVisible = true) char named
    · rcases List.mem_cons.mp behind with rfl | inWords
      · decide
      · rcases Text.mem_join inWords with rfl | ⟨word, among, inWord⟩
        · decide
        · exact ((isWord word among).plain char inWord).1
  single := by
    have lacks : ∀ char, (char = ',' ∨ char = ';') →
        char ∉ frameAncestorsName ++ ' ' :: Text.join ' ' words := by
      intro char separates held
      rcases List.mem_append.mp held with named | behind
      · rcases separates with rfl | rfl <;> exact absurd named (by decide)
      · rcases List.mem_cons.mp behind with rfl | inWords
        · exact absurd separates (by decide)
        · rcases Text.mem_join inWords with rfl | ⟨word, among, inWord⟩
          · exact absurd separates (by decide)
          · have plain := ((isWord word among).plain char inWord).2.2
            exact separates.elim plain.1 plain.2
    exact ⟨lacks ',' (.inl rfl), lacks ';' (.inr rfl)⟩
  trimmed := by
    obtain ⟨front, char, shape, solid⟩ := exists_last_join some isWord
    have start : frameAncestorsName = 'f' :: frameAncestorsName.tail := by decide
    rw [shape, start, List.cons_append]
    have ends := Text.trim_append_cons [] (frameAncestorsName.tail ++ ' ' :: (front ++ [char]))
      (by decide : Text.isWhitespace 'f' = false)
    rw [List.nil_append] at ends
    have back := Text.trimEnd_append_cons (frameAncestorsName.tail ++ ' ' :: front) [] solid
    rw [List.append_assoc, List.cons_append] at back
    rw [ends, back]
    rfl
  named := by
    have name : (frameAncestorsName ++ ' ' :: Text.join ' ' words).takeWhile
        (!Text.isWhitespace ·) = frameAncestorsName := by
      rw [List.takeWhile_append_of_pos (by decide), List.takeWhile_cons_of_neg (by decide),
        List.append_nil]
    simp only [Directive.isFrameAncestors, readDirective, name]
    decide

theorem foldl_words (start : Text) (words : List Text) :
    words.foldl (fun out word => out ++ ' ' :: word) start = start ++ words.flatMap (' ' :: ·) := by
  induction words generalizing start with
  | nil => simp
  | cons word words inductionHypothesis => simp [inductionHypothesis]

theorem join_cons_eq (word : Text) (words : List Text) :
    Text.join ' ' (word :: words) = word ++ words.flatMap (' ' :: ·) := by
  induction words generalizing word with
  | nil => simp [Text.join_singleton]
  | cons next words inductionHypothesis =>
      rw [Text.join_cons_cons, inductionHypothesis]
      rfl

/-- The agent's own host on any port. -/
def ownHost (host : Text) (secure : Bool) : Text :=
  (if secure then "https".toList else "http".toList) ++ "://".toList ++
    (if host.head? = some '[' ∧ ']' ∈ host then host.takeWhile (· ≠ ']') ++ [']']
      else host.takeWhile (· ≠ ':')) ++ ":*".toList

theorem frameAncestors_eq (host : Text) (secure : Bool) (origins : List Text) :
    frameAncestors host secure origins = frameAncestorsName ++ ' ' ::
      Text.join ' ' ("'self'".toList :: ownHost host secure :: origins) := by
  have start : "frame-ancestors 'self' ".toList =
      frameAncestorsName ++ ' ' :: ("'self'".toList ++ [' ']) := by decide
  rw [frameAncestors, foldl_words, start, join_cons_eq]
  simp only [ownHost, List.flatMap_cons, List.append_assoc, List.cons_append, List.nil_append]

theorem isWord_ownHost {host : Text} (isHost : IsWord host) (secure : Bool) :
    IsWord (ownHost host secure) := by
  have literal : ∀ word : Text, word.all (fun char => isVisible char && !Text.isWhitespace char &&
      char ≠ ',' && char ≠ ';') = true → ∀ char ∈ word, isVisible char = true ∧
        Text.isWhitespace char = false ∧ char ≠ ',' ∧ char ≠ ';' := by
    intro word all char held
    have each := List.all_eq_true.mp all char held
    simp only [Bool.and_eq_true, Bool.not_eq_true', decide_eq_true_eq] at each
    exact ⟨each.1.1.1, each.1.1.2, each.1.2, each.2⟩
  refine ⟨by simp [ownHost], fun char held => ?_⟩
  simp only [ownHost, List.mem_append] at held
  rcases held with ((scheme | slashes) | bare) | port
  · cases secure with
    | true => exact literal _ (by decide) char scheme
    | false => exact literal _ (by decide) char scheme
  · exact literal _ (by decide) char slashes
  · split at bare
    · rcases List.mem_append.mp bare with inHost | bracket
      · exact isHost.plain char ((List.takeWhile_prefix _).subset inHost)
      · exact literal _ (by decide) char bracket
    · exact isHost.plain char ((List.takeWhile_prefix _).subset bare)
  · exact literal _ (by decide) char port

/-- The proxy's own directive is one, for a host and origins of plain words. -/
theorem exists_ancestors {host : Text} {origins : List Text} (secure : Bool)
    (isHost : IsWord host) (isOrigin : ∀ origin ∈ origins, IsWord origin) :
    ∃ ancestors : Ancestors, ancestors.text = frameAncestors host secure origins := by
  have self : IsWord "'self'".toList := ⟨by decide, by decide⟩
  have words : ∀ word ∈ "'self'".toList :: ownHost host secure :: origins, IsWord word := by
    rw [List.forall_mem_cons, List.forall_mem_cons]
    exact ⟨self, isWord_ownHost isHost secure, isOrigin⟩
  exact ⟨ancestorsOf _ (List.cons_ne_nil _ _) words, (frameAncestors_eq host secure origins).symm⟩

/-! ### Responses -/

def ownAncestors : Ancestors where
  text := "frame-ancestors 'self'".toList
  visible := by decide
  single := by decide
  trimmed := by decide
  named := by decide

def response : Headers :=
  [⟨.xFrameOptions, "DENY".toList⟩,
    ⟨.contentSecurityPolicy, "default-src 'self'; frame-ancestors 'none'".toList⟩,
    ⟨.setCookie, "t=x; Path=/; SameSite=Lax".toList⟩]

theorem rewrittenOwn_response :
    RewrittenOwn ownAncestors true response
      (rewriteResponseHeaders response ownAncestors.text true) := by
  have grammatical : Grammatical response := by
    unfold Grammatical
    decide
  refine (rewrittenOwn_iff grammatical ownAncestors true).mpr ⟨by decide, fun policy held => ?_,
    fun _ => .inl ?_⟩
  · obtain rfl : policy = "default-src 'self'; frame-ancestors 'none'".toList := by
      simpa [response, getAll] using held
    refine ⟨by decide, ?_⟩
    unfold OnlyOwn
    decide
  · unfold CookieFaithful
    decide

/-- Without a policy anyone may frame the response. -/
def withoutPolicy : Headers := [⟨.xFrameOptions, "DENY".toList⟩]

/-- A policy behind a `frame-ancestors` goes with it. -/
def behindComma : Headers :=
  [⟨.contentSecurityPolicy, "frame-ancestors 'none', default-src 'self'".toList⟩]

/-- A cookie whose name begins like `SameSite` goes. -/
def namedAlike : Headers :=
  [⟨.contentSecurityPolicy, "default-src 'self'".toList⟩, ⟨.setCookie, "samesite_seen=1".toList⟩]

theorem not_rewrittenOwn :
    ¬ RewrittenOwn ownAncestors true withoutPolicy
        (rewriteResponseHeaders withoutPolicy ownAncestors.text true) ∧
      ¬ RewrittenOwn ownAncestors true behindComma
        (rewriteResponseHeaders behindComma ownAncestors.text true) ∧
      ¬ RewrittenOwn ownAncestors true namedAlike
        (rewriteResponseHeaders namedAlike ownAncestors.text true) := by
  refine ⟨fun own => ?_, fun own => ?_, fun own => ?_⟩
  · have none : allPolicies (rewriteResponseHeaders withoutPolicy ownAncestors.text true) = [] := by
      decide
    obtain ⟨policy, held, -⟩ := own.framed.limited
    rw [none] at held
    cases held
  · exact absurd own.policies (by decide)
  · have after : getAll (rewriteResponseHeaders namedAlike ownAncestors.text true) .setCookie =
        ["SameSite=None; Secure; Partitioned".toList] := by decide
    have kept := own.cookies
    rw [if_pos rfl, after] at kept
    cases kept with
    | cons first rest => exact absurd first.pair (by decide)

end ServerBox.Monitor.ProxyHeaders
