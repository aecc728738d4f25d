import ServerBox.Std.Text

/-!
# References in a push channel's credentials

`expand` and `literal` of `src/monitor/src/monitoring/push/mod.rs`: a credential in
`config.toml` may name variables of the environment, which are put in at each send, and one
that was meant as typed is escaped once. A text is read from left to right as escapes,
references and single characters, in one way only.
-/

namespace ServerBox.Monitor.PushCredentials

open ServerBox.Std

/-! ### The code -/

def isEnvName : Text → Bool
  | [] => false
  | first :: others =>
      (first.isAlpha || first = '_') && others.all fun char => char.isAlphanum || char = '_'

/-- The name of a reference and what comes after it, where `after` stands behind a `$`. -/
def reference (after : Text) : Option (Text × Text) := do
  let inside ← Text.stripPrefix "\x7b" after
  let (name, rest) ← Text.splitOnce '}' inside
  if isEnvName name then some (name, rest) else none

/-- A variable's value, which an empty one has not. -/
def value (env : Text → Option Text) (name : Text) : Except Text Text :=
  match (env name).filter fun value => !value.isEmpty with
  | some value => .ok value
  | none => .error name

theorem length_of_stripPrefix {start : String} {text rest : Text}
    (stripped : Text.stripPrefix start text = some rest) : rest.length ≤ text.length := by
  rw [Text.of_stripPrefix stripped, List.length_append]
  exact Nat.le_add_left ..

theorem length_of_splitOnce {separator : Char} {text before after : Text}
    (split : Text.splitOnce separator text = some (before, after)) :
    after.length < text.length := by
  obtain ⟨rfl, -⟩ := Text.splitOnce_eq_some_iff.mp split
  simp only [List.length_append, List.length_cons]
  omega

theorem of_reference {after name rest : Text} (found : reference after = some (name, rest)) :
    after = '{' :: (name ++ '}' :: rest) ∧ isEnvName name = true := by
  obtain ⟨inside, stripped, found⟩ := Option.bind_eq_some_iff.mp found
  obtain ⟨⟨first, second⟩, split, found⟩ := Option.bind_eq_some_iff.mp found
  obtain ⟨valid, same⟩ : isEnvName first = true ∧ some (first, second) = some (name, rest) :=
    Option.ite_none_right_eq_some.mp found
  obtain ⟨rfl, rfl⟩ := Prod.mk.inj (Option.some.inj same)
  obtain ⟨rfl, -⟩ := Text.splitOnce_eq_some_iff.mp split
  exact ⟨Text.of_stripPrefix stripped, valid⟩

/-- The scan of `expand`, with what it put out so far. -/
def expandFrom (env : Text → Option Text) (out rest : Text) : Except Text Text :=
  match _split : Text.splitOnce '$' rest with
  | none => .ok (out ++ rest)
  | some (before, after) =>
      match _stripped : Text.stripPrefix "$\x7b" after with
      | some behind => expandFrom env (out ++ before ++ ['$', '{']) behind
      | none =>
          match _found : reference after with
          | some (name, behind) =>
              match value env name with
              | .ok value => expandFrom env (out ++ before ++ value) behind
              | .error name => .error name
          | none => expandFrom env (out ++ before ++ ['$']) after
termination_by rest.length
decreasing_by
  · exact Nat.lt_of_le_of_lt (length_of_stripPrefix _stripped) (length_of_splitOnce _split)
  · have shorter := length_of_splitOnce _split
    rw [(of_reference _found).1] at shorter
    simp only [List.length_cons, List.length_append] at shorter
    omega
  · exact length_of_splitOnce _split

/-- A text with its references replaced from the environment, or the first name that is unset
or empty. -/
def expand (env : Text → Option Text) (text : Text) : Except Text Text := expandFrom env [] text

/-- A text as `expand` gives it back unchanged: `${` replaced by `$${`. -/
def literal : Text → Text
  | [] => []
  | char :: rest =>
      if char = '$' && rest.head? = some '{' then '$' :: '$' :: literal rest
      else char :: literal rest

/-! ### How a text reads -/

inductive Piece where
  | plain (char : Char)
  | escape
  | reference (name : Text)
deriving DecidableEq

def Piece.written : Piece → Text
  | .plain char => [char]
  | .escape => ['$', '$', '{']
  | .reference name => '$' :: '{' :: (name ++ ['}'])

/-- What comes out for a piece. -/
def Piece.expanded (env : Text → Option Text) : Piece → Except Text Text
  | .plain char => .ok [char]
  | .escape => .ok ['$', '{']
  | .reference name => value env name

/-- Whether an escape or a reference to a valid name stands at the start of a text. -/
def Begins (text : Text) : Prop :=
  Piece.written .escape <+: text ∨
    ∃ name, isEnvName name = true ∧ Piece.written (.reference name) <+: text

/-- Whether a piece is what stands at the start of its text and `rest`. -/
def Piece.Fits (rest : Text) : Piece → Prop
  | .plain char => ¬ Begins (Piece.written (.plain char) ++ rest)
  | .escape => True
  | .reference name => isEnvName name = true

/-- The pieces of a text, read from left to right. -/
inductive Reads : Text → List Piece → Prop
  | nil : Reads [] []
  | cons {piece : Piece} {rest pieces} (fits : piece.Fits rest) (reads : Reads rest pieces) :
      Reads (piece.written ++ rest) (piece :: pieces)

/-- What a text of these pieces expands to: the pieces in order, or the first name that has no
value. -/
def expandAll (env : Text → Option Text) : List Piece → Except Text Text
  | [] => .ok []
  | piece :: pieces => do
      let front ← piece.expanded env
      let back ← expandAll env pieces
      .ok (front ++ back)

theorem not_mem_of_isEnvName {name : Text} (valid : isEnvName name = true) {char : Char}
    (other : (char.isAlphanum || char = '_') = false) : char ∉ name := by
  intro held
  cases name with
  | nil => cases held
  | cons first others =>
      simp only [isEnvName, Bool.and_eq_true, List.all_eq_true] at valid
      rcases List.mem_cons.mp held with rfl | inOthers
      · have start : (char.isAlphanum || char = '_') = true := by
          simp only [Char.isAlphanum, Bool.or_eq_true] at valid ⊢
          exact valid.1.imp .inl id
        exact Bool.false_ne_true (other.symm.trans start)
      · exact Bool.false_ne_true (other.symm.trans (valid.2 char inOthers))

theorem reference_written {name : Text} (valid : isEnvName name = true) (rest : Text) :
    reference ('{' :: (name ++ '}' :: rest)) = some (name, rest) := by
  have noBrace : '}' ∉ name := not_mem_of_isEnvName valid (by decide)
  have stripped : Text.stripPrefix "\x7b" ('{' :: (name ++ '}' :: rest)) =
      some (name ++ '}' :: rest) :=
    Text.stripPrefix_append "\x7b" _
  simp only [reference, stripped, Option.bind_eq_bind, Option.bind_some,
    Text.splitOnce_append rest noBrace, valid, if_true]

/-- A reference stands behind a `$` just when one begins there. -/
theorem reference_eq_none {after : Text} (none : ¬ Begins ('$' :: after)) :
    reference after = Option.none := by
  rw [Option.eq_none_iff_forall_ne_some]
  rintro ⟨name, rest⟩ found
  obtain ⟨rfl, valid⟩ := of_reference found
  exact none (.inr ⟨name, valid, rest, by simp [Piece.written]⟩)

theorem stripPrefix_eq_none {after : Text} (none : ¬ Begins ('$' :: after)) :
    Text.stripPrefix "$\x7b" after = Option.none := by
  rw [Option.eq_none_iff_forall_ne_some]
  intro rest stripped
  exact none (.inl ⟨rest, congrArg ('$' :: ·) (Text.of_stripPrefix stripped).symm⟩)

/-! ### The scan, piece by piece -/

section

variable {env : Text → Option Text} {out : Text}

/-- One turn of the scan, without the proofs that it comes to an end. -/
theorem expandFrom_eq (rest : Text) :
    expandFrom env out rest =
      match Text.splitOnce '$' rest with
      | none => .ok (out ++ rest)
      | some (before, after) =>
          match Text.stripPrefix "$\x7b" after with
          | some behind => expandFrom env (out ++ before ++ ['$', '{']) behind
          | none =>
              match reference after with
              | some (name, behind) =>
                  match value env name with
                  | .ok value => expandFrom env (out ++ before ++ value) behind
                  | .error name => .error name
              | none => expandFrom env (out ++ before ++ ['$']) after := by
  rw [expandFrom]
  split
  next split => rw [split]
  next before after split =>
    rw [split]
    dsimp only
    split
    next behind stripped => rw [stripped]
    next stripped =>
      rw [stripped]
      dsimp only
      split
      next name behind found => rw [found]
      next found => rw [found]

theorem expandFrom_nil : expandFrom env out [] = .ok out := by
  rw [expandFrom_eq]
  simp [Text.splitOnce]

theorem expandFrom_other {char : Char} (other : char ≠ '$') (rest : Text) :
    expandFrom env out (char :: rest) = expandFrom env (out ++ [char]) rest := by
  rw [expandFrom_eq, expandFrom_eq, Text.splitOnce, if_neg other]
  cases Text.splitOnce '$' rest with
  | none => simp
  | some parts => simp

theorem splitOnce_dollar (after : Text) : Text.splitOnce '$' ('$' :: after) = some ([], after) :=
  Text.splitOnce_append after List.not_mem_nil

theorem expandFrom_escape (rest : Text) :
    expandFrom env out (Piece.written .escape ++ rest) =
      expandFrom env (out ++ ['$', '{']) rest := by
  have stripped : Text.stripPrefix "$\x7b" ('$' :: '{' :: rest) = some rest :=
    Text.stripPrefix_append "$\x7b" rest
  simp only [Piece.written, List.cons_append, List.nil_append]
  rw [expandFrom_eq, splitOnce_dollar]
  simp only [stripped, List.append_nil]

theorem expandFrom_reference {name : Text} (valid : isEnvName name = true) (rest : Text) :
    expandFrom env out (Piece.written (.reference name) ++ rest) =
      (value env name).bind fun value => expandFrom env (out ++ value) rest := by
  have stripped : Text.stripPrefix "$\x7b" ('{' :: (name ++ '}' :: rest)) = none := rfl
  simp only [Piece.written, List.cons_append, List.append_assoc, List.nil_append]
  rw [expandFrom_eq, splitOnce_dollar]
  simp only [stripped, reference_written valid, List.append_nil]
  cases value env name <;> rfl

theorem expandFrom_dollar {rest : Text} (none : ¬ Begins ('$' :: rest)) :
    expandFrom env out ('$' :: rest) = expandFrom env (out ++ ['$']) rest := by
  rw [expandFrom_eq, splitOnce_dollar]
  simp only [stripPrefix_eq_none none, reference_eq_none none, List.append_nil]

theorem expandAll_cons (piece : Piece) (pieces : List Piece) :
    (expandAll env (piece :: pieces)).map (out ++ ·) =
      (piece.expanded env).bind fun front =>
        (expandAll env pieces).map (out ++ front ++ ·) := by
  rw [expandAll]
  cases piece.expanded env with
  | error name => rfl
  | ok front =>
      cases expandAll env pieces with
      | error name => rfl
      | ok back => exact congrArg Except.ok (List.append_assoc ..).symm

/-- One turn of the scan takes one piece. -/
theorem expandFrom_piece {piece : Piece} {rest : Text} (fits : piece.Fits rest) :
    expandFrom env out (piece.written ++ rest) =
      (piece.expanded env).bind fun front => expandFrom env (out ++ front) rest := by
  cases piece with
  | escape => exact expandFrom_escape rest
  | reference name => exact expandFrom_reference fits rest
  | plain char =>
      by_cases dollar : char = '$'
      · subst dollar
        exact expandFrom_dollar fits
      · exact expandFrom_other dollar rest

/-- The scan puts out what the pieces of the rest come to. -/
theorem expandFrom_of_reads {text : Text} {pieces : List Piece} (reads : Reads text pieces) :
    expandFrom env out text = (expandAll env pieces).map (out ++ ·) := by
  induction reads generalizing out with
  | nil => rw [expandFrom_nil, expandAll, Except.map, List.append_nil]
  | cons fits reads inductionHypothesis =>
      rw [expandFrom_piece fits, expandAll_cons]
      simp only [inductionHypothesis]

end

/-! ### One reading -/

theorem begins_reference {name : Text} (valid : isEnvName name = true) (rest : Text) :
    Begins (Piece.written (.reference name) ++ rest) := .inr ⟨name, valid, List.prefix_append ..⟩

theorem begins_escape (rest : Text) : Begins (Piece.written .escape ++ rest) :=
  .inl (List.prefix_append ..)

/-- Of the pieces a text may begin with, one fits. -/
theorem Piece.Fits.unique {piece other : Piece} {rest otherRest : Text} (fits : piece.Fits rest)
    (fitsToo : other.Fits otherRest) (same : piece.written ++ rest = other.written ++ otherRest) :
    piece = other ∧ rest = otherRest := by
  cases piece with
  | plain char =>
      cases other with
      | plain char =>
          obtain ⟨rfl, rfl⟩ := List.cons.inj same
          exact ⟨rfl, rfl⟩
      | escape => exact absurd (same ▸ begins_escape otherRest) fits
      | reference name => exact absurd (same ▸ begins_reference fitsToo otherRest) fits
  | escape =>
      cases other with
      | plain char => exact absurd (same.symm ▸ begins_escape rest) fitsToo
      | escape => exact ⟨rfl, List.append_cancel_left same⟩
      | reference name => simp [Piece.written] at same
  | reference name =>
      cases other with
      | plain char => exact absurd (same.symm ▸ begins_reference fits rest) fitsToo
      | escape => simp [Piece.written] at same
      | reference name =>
          -- Each name ends at the first brace behind it.
          simp only [Piece.written, List.cons_append, List.append_assoc, List.nil_append] at same
          have tails := (List.cons.inj same).2
          have one := reference_written fits rest
          rw [tails, reference_written fitsToo] at one
          obtain ⟨rfl, rfl⟩ := Prod.mk.inj (Option.some.inj one)
          exact ⟨rfl, rfl⟩

/-- A text reads in one way only. -/
theorem Reads.unique {text : Text} {pieces others : List Piece} (reads : Reads text pieces)
    (readsToo : Reads text others) : pieces = others := by
  induction reads generalizing others with
  | nil =>
      generalize shape : ([] : Text) = text at readsToo
      cases readsToo with
      | nil => rfl
      | @cons piece => cases piece <;> cases shape
  | @cons piece rest pieces fits reads inductionHypothesis =>
      generalize shape : piece.written ++ rest = text at readsToo
      cases readsToo with
      | nil => cases piece <;> cases shape
      | cons fitsToo readsToo =>
          obtain ⟨rfl, rfl⟩ := fits.unique fitsToo shape
          rw [inductionHypothesis readsToo]

theorem exists_fits {text : Text} (some : text ≠ []) :
    ∃ (piece : Piece) (rest : Text), piece.Fits rest ∧ text = piece.written ++ rest := by
  by_cases begins : Begins text
  · rcases begins with ⟨rest, rfl⟩ | ⟨name, valid, rest, rfl⟩
    · exact ⟨.escape, rest, trivial, rfl⟩
    · exact ⟨.reference name, rest, valid, rfl⟩
  · obtain ⟨char, rest, rfl⟩ := List.exists_cons_of_ne_nil some
    exact ⟨.plain char, rest, begins, rfl⟩

theorem Piece.length_written_pos (piece : Piece) : 0 < piece.written.length := by
  cases piece <;> exact Nat.succ_pos _

/-- Every text reads in some way. -/
theorem exists_reads (text : Text) : ∃ pieces, Reads text pieces := by
  induction size : text.length using Nat.strong_induction_on generalizing text with
  | _ length inductionHypothesis =>
      by_cases empty : text = []
      · exact ⟨[], empty ▸ .nil⟩
      · obtain ⟨piece, rest, fits, rfl⟩ := exists_fits empty
        have positive := piece.length_written_pos
        have shorter : rest.length < length := by
          rw [← size, List.length_append]
          omega
        obtain ⟨pieces, reads⟩ := inductionHypothesis rest.length shorter rest rfl
        exact ⟨piece :: pieces, .cons fits reads⟩

/-! ### What was typed comes back -/

theorem head?_literal (text : Text) : (literal text).head? = text.head? := by
  cases text with
  | nil => rfl
  | cons char rest =>
      rw [literal]
      split
      next escaped =>
        simp only [Bool.and_eq_true, decide_eq_true_eq] at escaped
        rw [escaped.1]
        rfl
      next => rfl

theorem literal_escaped (rest : Text) :
    literal ('$' :: '{' :: rest) = Piece.written .escape ++ literal rest := by
  rw [literal, if_pos (by rfl), literal, if_neg (by simp)]
  rfl

theorem literal_single {char : Char} {rest : Text}
    (single : ¬ (char = '$' ∧ rest.head? = some '{')) :
    literal (char :: rest) = char :: literal rest := by
  rw [literal, if_neg]
  simpa using single

/-- No escape or reference begins at a character that was written as it is. -/
theorem not_begins_literal {char : Char} {rest : Text}
    (single : ¬ (char = '$' ∧ rest.head? = some '{')) : ¬ Begins (char :: literal rest) := by
  rintro (⟨back, same⟩ | ⟨name, valid, back, same⟩)
  · obtain ⟨rfl, shape⟩ := List.cons.inj same
    have isDollar : rest.head? = some '$' := by rw [← head?_literal, ← shape]; rfl
    obtain ⟨tail, rfl⟩ := List.head?_eq_some_iff.mp isDollar
    by_cases escaped : tail.head? = some '{'
    · obtain ⟨last, rfl⟩ := List.head?_eq_some_iff.mp escaped
      rw [literal_escaped] at shape
      simp [Piece.written] at shape
    · rw [literal_single fun both => escaped both.2] at shape
      refine escaped ?_
      rw [← head?_literal, ← (List.cons.inj shape).2]
      rfl
  · obtain ⟨rfl, shape⟩ := List.cons.inj same
    refine single ⟨rfl, ?_⟩
    rw [← head?_literal, ← shape]
    rfl

/-- An escaped text reads as escapes and single characters, which stand for what it was. -/
theorem exists_reads_literal (text : Text) :
    ∃ pieces, Reads (literal text) pieces ∧ ∀ env, expandAll env pieces = .ok text := by
  induction size : text.length using Nat.strong_induction_on generalizing text with
  | _ length inductionHypothesis =>
      cases text with
      | nil => exact ⟨[], .nil, fun env => rfl⟩
      | cons char rest =>
          by_cases escaped : char = '$' ∧ rest.head? = some '{'
          · obtain ⟨rfl, brace⟩ := escaped
            obtain ⟨tail, rfl⟩ := List.head?_eq_some_iff.mp brace
            obtain ⟨pieces, reads, comes⟩ :=
              inductionHypothesis tail.length (by simp at size; omega) tail rfl
            refine ⟨.escape :: pieces, ?_, fun env => ?_⟩
            · rw [literal_escaped]
              exact .cons trivial reads
            · rw [expandAll, comes env]
              rfl
          · obtain ⟨pieces, reads, comes⟩ :=
              inductionHypothesis rest.length (by simp at size; omega) rest rfl
            refine ⟨.plain char :: pieces, ?_, fun env => ?_⟩
            · have fits : (Piece.plain char).Fits (literal rest) := not_begins_literal escaped
              rw [literal_single escaped]
              exact .cons fits reads
            · rw [expandAll, comes env]
              rfl

theorem expand_of_literal (env : Text → Option Text) (text : Text) :
    expand env (literal text) = .ok text := by
  obtain ⟨pieces, reads, comes⟩ := exists_reads_literal text
  rw [expand, expandFrom_of_reads reads, comes env]
  rfl

/-- What a text expands to is what its pieces come to. -/
theorem expand_of_reads (env : Text → Option Text) {text : Text} {pieces : List Piece}
    (reads : Reads text pieces) : expand env text = expandAll env pieces := by
  rw [expand, expandFrom_of_reads reads]
  cases expandAll env pieces <;> rfl

/-- An escaped text comes back as typed. Every text reads in one way as escapes, references and
single characters, and expands to these in their order: an escape as `${`, a reference as its
variable's value (or the error of the first that has none), a character as it is. -/
theorem expands_as_read (env : Text → Option Text) (text : Text) :
    expand env (literal text) = .ok text ∧
      ∃ pieces, (∀ others, Reads text others ↔ others = pieces) ∧
        expand env text = expandAll env pieces := by
  obtain ⟨pieces, reads⟩ := exists_reads text
  refine ⟨expand_of_literal env text, pieces, fun others => ⟨fun readsToo => ?_, ?_⟩,
    expand_of_reads env reads⟩
  · exact readsToo.unique reads
  · rintro rfl
    exact reads

/-- What stands for a piece when an escape stays as it is written. -/
def Piece.replaced (env : Text → Option Text) : Piece → Text
  | .reference name => (env name).getD []
  | piece => piece.written

/-- An escape loses a `$`: not every character outside the references is left as it is. -/
theorem escape_not_left :
    ¬ ∀ (env : Text → Option Text) (text : Text) (pieces : List Piece), Reads text pieces →
      expand env text = .ok (pieces.flatMap (Piece.replaced env)) := by
  intro leaves
  have fits : Piece.Fits [] .escape := trivial
  have reads : Reads ['$', '$', '{'] [.escape] := .cons fits .nil
  have left := leaves (fun _ => none) _ _ reads
  rw [expand_of_reads _ reads] at left
  have same : ['$', '{'] = ['$', '$', '{'] := Except.ok.inj left
  exact absurd same (by decide)

end ServerBox.Monitor.PushCredentials
