import ServerBox.Std.JsonText
import ServerBox.Std.TextLines

/-!
# The YAML of a seed

The reader in `src/crates/sbm_virt/src/libvirt/cloud_init.rs` of the subset of YAML that a seed is
written in: block mappings and sequences by their indentation, flow sequences of scalars, and
scalars plain or quoted. `Written` says what lines a block may be written in, and `Written.block`
that they are read as that block.
-/

namespace ServerBox.Virt

open ServerBox.Std

/-- `Y`: a value, as far as the files of a seed need one. -/
inductive Yaml where
  | map (entries : List (Text × Yaml))
  | seq (items : List Yaml)
  | str (text : Text)
  | null

namespace Yaml

/-- The first value under a key. -/
def get (key : Text) : Yaml → Option Yaml
  | map entries => (entries.find? fun entry => entry.1 = key).map Prod.snd
  | _ => none

def asStr : Yaml → Option Text
  | str text => some text
  | _ => none

def keys : Yaml → List Text
  | map entries => entries.map Prod.fst
  | _ => []

def strs : Yaml → Option (List Text)
  | seq items => items.mapM asStr
  | _ => none

def isNull : Yaml → Bool
  | null => true
  | _ => false

end Yaml

/-! ### Scalars -/

/-- `''` is one quote inside single quotes. -/
def joinQuotes : Text → Text
  | '\'' :: '\'' :: rest => '\'' :: joinQuotes rest
  | char :: rest => char :: joinQuotes rest
  | [] => []

/-- A text up to a comment. -/
def uncommented : Text → Text
  | ' ' :: '#' :: _ => []
  | char :: rest => char :: uncommented rest
  | [] => []

/-- The strings of a JSON array that holds nothing else. -/
def jsonStrings : Option JsonText.Node → Option (List Text)
  | some (.array items) => items.mapM fun
      | .string text => some text
      | _ => none
  | _ => none

/-- A scalar in double quotes or single ones; none where it has neither. -/
def yamlQuoted (text : Text) : Option Yaml :=
  if text.head? = some '"' then
    match JsonText.fromStr text with
    | some (.string value) => some (.str value)
    | _ => some (.str text)
  else
    ((Text.stripPrefix "'" text).bind (Text.stripSuffix "'")).map fun inner =>
      .str (joinQuotes inner)

/-- A plain scalar; none where it starts as something that the subset does not read. -/
def yamlPlain (text : Text) : Option Yaml :=
  if text.head?.any (· ∈ "[]\x7b\x7d&*!|>%@\x60".toList) then none
  else
    let text := Text.trimEnd (uncommented text)
    if text = [] ∨ text = "~".toList ∨ text = "null".toList then some .null else some (.str text)

/-- `yaml_value` inside a flow sequence, which does not nest. -/
def yamlItem (text : Text) : Option Yaml :=
  let text := Text.trim text
  (yamlQuoted text).or (yamlPlain text)

/-- `yaml_scalar`: none for what the subset does not read. -/
def yamlScalar (text : Text) : Option Yaml :=
  let text := Text.trim text
  match yamlQuoted text with
  | some value => some value
  | none =>
      match (Text.stripPrefix "[" text).bind (Text.stripSuffix "]") with
      | none => yamlPlain text
      | some inner =>
          match jsonStrings (JsonText.fromStr text) with
          | some texts => some (.seq (texts.map .str))
          | none =>
              ((((inner.splitOn ',').map Text.trim).filter (· ≠ [])).mapM yamlItem).map .seq

/-- A text split at its first colon with a space or nothing after it. -/
def splitAtKey : Text → Option (Text × Text)
  | [] => none
  | char :: rest =>
      if char = ':' ∧ rest.head?.getD ' ' = ' ' then some ([], rest)
      else (splitAtKey rest).map fun (key, rest) => (char :: key, rest)

/-- `yaml_key`: the key of a line of a mapping, which is plain, and the rest. -/
def yamlKey (line : Text) : Option (Text × Text) :=
  if line.head?.any (· ∈ "\"'[".toList) then none
  else (splitAtKey line).map fun (key, rest) => (Text.trim key, Text.trim rest)

/-! ### Blocks -/

/-- A line of a document: its indentation and what it says. -/
abbrev YamlLine := Nat × Text

/-- `YLines::new`. -/
def yamlLines (text : Text) : List YamlLine :=
  ((Text.lines text).filter fun line =>
    let said := Text.trim line
    said ≠ [] ∧ said.head? ≠ some '#' ∧ said ≠ "---".toList).map fun line =>
      ((line.takeWhile (· = ' ')).length, Text.trim line)

/-- Whether a line is an item of a sequence. -/
def isItem (line : Text) : Bool := line = ['-'] || line.take 2 = ['-', ' ']

def yamlMaxDepth : Nat := 16

mutual

/-- `YLines::block`: the block at an indentation, and the lines after it. None once something was
met that the subset does not read (`bad`): the document is none then, whatever follows. The fuel
is for three calls to a line. -/
def yamlBlock : Nat → Nat → Nat → List YamlLine → Option (Yaml × List YamlLine)
  | 0, _, _, _ => none
  | fuel + 1, depth, indent, lines =>
      if yamlMaxDepth ≤ depth then none
      else
        match lines with
        | [] => some (.null, [])
        | (at_, line) :: _ =>
            if at_ ≠ indent then some (.null, lines)
            else if isItem line then
              (yamlSeq fuel (depth + 1) indent lines).map fun (items, rest) => (.seq items, rest)
            else
              (yamlMap fuel (depth + 1) indent none lines).map fun (entries, rest) =>
                (.map entries, rest)

/-- `YLines::seq`. -/
def yamlSeq : Nat → Nat → Nat → List YamlLine → Option (List Yaml × List YamlLine)
  | 0, _, _, _ => none
  | _ + 1, _, _, [] => some ([], [])
  | fuel + 1, depth, indent, (at_, line) :: rest => do
      if at_ ≠ indent ∨ isItem line = false then return ([], (at_, line) :: rest)
      let said := Text.trim (line.drop 1)
      let (item, rest) ←
        if said = [] then
          match rest with
          | (deeper, _) :: _ =>
              if indent < deeper then yamlBlock fuel depth deeper rest else some (.null, rest)
          | [] => some (.null, [])
        else
          match yamlKey said with
          | some first =>
              -- A mapping item: its first key is on the line of the dash.
              if yamlMaxDepth ≤ depth then none
              else
                (yamlMap fuel (depth + 1) (indent + 2) (some first) rest).map
                  fun (entries, rest) => (.map entries, rest)
          | none => (yamlScalar said).map fun value => (value, rest)
      let (items, rest) ← yamlSeq fuel depth indent rest
      return (item :: items, rest)

/-- `YLines::map`, with a first key and its value already read or none. -/
def yamlMap : Nat → Nat → Nat → Option (Text × Text) → List YamlLine →
    Option (List (Text × Yaml) × List YamlLine)
  | 0, _, _, _, _ => none
  | fuel + 1, depth, indent, first, lines => do
      let entry := match first, lines with
        | some entry, _ => some (entry, lines)
        | none, [] => none
        | none, (at_, line) :: rest =>
            if at_ ≠ indent ∨ isItem line then none
            else some ((yamlKey line).getD (line, []), rest)
      match entry with
      | none => return ([], lines)
      | some ((key, said), rest) =>
          let (value, rest) ←
            if said = [] then
              match rest with
              | (deeper, line) :: _ =>
                  if indent < deeper then yamlBlock fuel depth deeper rest
                  else if deeper = indent ∧ isItem line then
                    -- `key:` and the items at its own indentation.
                    if yamlMaxDepth ≤ depth then none
                    else
                      (yamlSeq fuel (depth + 1) deeper rest).map
                        fun (items, rest) => (.seq items, rest)
                  else some (.null, rest)
              | [] => some (.null, [])
            else (yamlScalar said).map fun value => (value, rest)
          let (entries, rest) ← yamlMap fuel depth indent none rest
          return ((key, value) :: entries, rest)

end

/-- `yaml`: the document, or nothing where any of it is outside the subset. -/
def yaml (text : Text) : Yaml :=
  let lines := yamlLines text
  match yamlBlock (3 * lines.length + 3) 0 (lines.head?.elim 0 Prod.fst) lines with
  | some (value, []) => value
  | _ => .null

/-! ### What is written is read back -/

/-- A part of a block: entries of a mapping, items of a sequence, or the whole. -/
inductive YamlPart where
  | entries (entries : List (Text × Yaml))
  | items (items : List Yaml)
  | block (value : Yaml)

/-- The lines that a part may be written in: each block of it at one indentation, what is under a
line deeper, and no more than `height` blocks inside one another. -/
inductive Written : Nat → Nat → List YamlLine → YamlPart → Prop
  | noEntries {height indent : Nat} : Written height indent [] (.entries [])
  | scalarEntry {height indent : Nat} {line key said : Text} {value : Yaml}
      {lines : List YamlLine} {entries : List (Text × Yaml)}
      (isEntry : isItem line = false) (reads : yamlKey line = some (key, said))
      (spoken : said ≠ []) (scalar : yamlScalar said = some value)
      (later : Written height indent lines (.entries entries)) :
      Written height indent ((indent, line) :: lines) (.entries ((key, value) :: entries))
  | blockEntry {height indent deeper : Nat} {line key : Text} {value : Yaml}
      {under lines : List YamlLine} {entries : List (Text × Yaml)}
      (isEntry : isItem line = false) (reads : yamlKey line = some (key, []))
      (isDeeper : indent < deeper) (block : Written height deeper under (.block value))
      (later : Written height indent lines (.entries entries)) :
      Written height indent ((indent, line) :: (under ++ lines))
        (.entries ((key, value) :: entries))
  | noItems {height indent : Nat} : Written height indent [] (.items [])
  | scalarItem {height indent : Nat} {said : Text} {value : Yaml} {lines : List YamlLine}
      {items : List Yaml} (trimmed : Text.trim said = said) (spoken : said ≠ [])
      (isScalar : yamlKey said = none) (scalar : yamlScalar said = some value)
      (later : Written height indent lines (.items items)) :
      Written height indent ((indent, '-' :: ' ' :: said) :: lines) (.items (value :: items))
  | mapItem {height indent : Nat} {line key said : Text} {value : Yaml}
      {under lines : List YamlLine} {entries : List (Text × Yaml)} {items : List Yaml}
      (trimmed : Text.trim line = line) (reads : yamlKey line = some (key, said))
      (spoken : said ≠ []) (scalar : yamlScalar said = some value)
      (others : Written height (indent + 2) under (.entries entries))
      (later : Written (height + 1) indent lines (.items items)) :
      Written (height + 1) indent ((indent, '-' :: ' ' :: line) :: (under ++ lines))
        (.items (.map ((key, value) :: entries) :: items))
  | mapBlock {height indent : Nat} {lines : List YamlLine} {entries : List (Text × Yaml)}
      (some : lines ≠ []) (within_ : Written height indent lines (.entries entries)) :
      Written (height + 1) indent lines (.block (.map entries))
  | seqBlock {height indent : Nat} {lines : List YamlLine} {items : List Yaml}
      (some : lines ≠ []) (within_ : Written height indent lines (.items items)) :
      Written (height + 1) indent lines (.block (.seq items))

/-- Whether the lines after a block are outside it. -/
def Outside (indent : Nat) (rest : List YamlLine) : Prop :=
  ∀ line, rest.head? = some line → line.1 < indent

namespace YamlPart

/-- Whether a line is one that the part may begin with. -/
def Begins : YamlPart → Text → Prop
  | entries _, line => isItem line = false
  | items _, line => isItem line = true
  | block _, _ => True

/-- How often the reader is called before the first line of the part is taken. -/
def calls : YamlPart → Nat
  | entries _ => 1
  | items _ => 1
  | block _ => 2

/-- Whether lines are read as the part, up to the rest. -/
def IsRead (fuel depth indent : Nat) (lines rest : List YamlLine) : YamlPart → Prop
  | .entries read => yamlMap fuel depth indent none lines = some (read, rest)
  | .items read => yamlSeq fuel depth indent lines = some (read, rest)
  | .block value => yamlBlock fuel depth indent lines = some (value, rest)

end YamlPart

@[simp] theorem isItem_dash (said : Text) : isItem ('-' :: ' ' :: said) = true := rfl

namespace Written

variable {height indent : Nat} {lines more : List YamlLine} {part : YamlPart}

theorem head (written : Written height indent lines part) {line : YamlLine}
    (first : lines.head? = some line) : line.1 = indent ∧ part.Begins line.2 := by
  induction written with
  | noEntries => cases first
  | scalarEntry isEntry _ _ _ _ _ =>
      obtain rfl := Option.some.inj first
      exact ⟨rfl, isEntry⟩
  | blockEntry isEntry _ _ _ _ _ _ =>
      obtain rfl := Option.some.inj first
      exact ⟨rfl, isEntry⟩
  | noItems => cases first
  | scalarItem =>
      obtain rfl := Option.some.inj first
      exact ⟨rfl, isItem_dash _⟩
  | mapItem =>
      obtain rfl := Option.some.inj first
      exact ⟨rfl, isItem_dash _⟩
  | mapBlock _ _ inductionHypothesis => exact ⟨(inductionHypothesis first).1, trivial⟩
  | seqBlock _ _ inductionHypothesis => exact ⟨(inductionHypothesis first).1, trivial⟩

theorem ne_nil {value : Yaml} (written : Written height indent lines (.block value)) :
    lines ≠ [] := by
  cases written with
  | mapBlock some _ => exact some
  | seqBlock some _ => exact some

/-- Entries, and more of them. -/
theorem append {entries others : List (Text × Yaml)}
    (written : Written height indent lines (.entries entries))
    (later : Written height indent more (.entries others)) :
    Written height indent (lines ++ more) (.entries (entries ++ others)) := by
  generalize same : YamlPart.entries entries = part at written
  induction written generalizing entries with
  | noEntries =>
      obtain rfl := YamlPart.entries.inj same
      exact later
  | scalarEntry isEntry reads spoken scalar _ inductionHypothesis =>
      obtain rfl := YamlPart.entries.inj same
      exact .scalarEntry isEntry reads spoken scalar (inductionHypothesis later rfl)
  | blockEntry isEntry reads isDeeper block _ _ inductionHypothesis =>
      obtain rfl := YamlPart.entries.inj same
      rw [List.cons_append, List.append_assoc]
      exact .blockEntry isEntry reads isDeeper block (inductionHypothesis later rfl)
  | noItems => cases same
  | scalarItem => cases same
  | mapItem => cases same
  | mapBlock => cases same
  | seqBlock => cases same

/-- What follows a block inside another is outside it. -/
theorem outside_append {deeper : Nat} {rest : List YamlLine}
    (written : Written height indent lines part) (isDeeper : indent < deeper)
    (outside : Outside indent rest) : Outside deeper (lines ++ rest) := by
  intro line first
  cases lines with
  | nil => exact (outside line first).trans isDeeper
  | cons => exact (written.head first).1 ▸ isDeeper

end Written

theorem yamlMap_outside {fuel depth indent : Nat} {rest : List YamlLine}
    (outside : Outside indent rest) :
    yamlMap (fuel + 1) depth indent none rest = some ([], rest) := by
  cases rest with
  | nil => rw [yamlMap]; rfl
  | cons line rest =>
      have other : line.1 ≠ indent := (outside line rfl).ne
      rw [yamlMap]
      simp [other]

/-- A mapping whose first entry is on the line of a dash. -/
theorem yamlMap_first {fuel depth indent : Nat} {key said : Text} {value : Yaml}
    {lines rest : List YamlLine} {entries : List (Text × Yaml)} (spoken : said ≠ [])
    (scalar : yamlScalar said = some value)
    (others : yamlMap fuel depth indent none lines = some (entries, rest)) :
    yamlMap (fuel + 1) depth indent (some (key, said)) lines =
      some ((key, value) :: entries, rest) := by
  rw [yamlMap.eq_def]
  simp [spoken, scalar, others]

theorem yamlSeq_outside {fuel depth indent : Nat} {rest : List YamlLine}
    (outside : Outside indent rest) :
    yamlSeq (fuel + 1) depth indent rest = some ([], rest) := by
  cases rest with
  | nil => rw [yamlSeq]
  | cons line rest =>
      have other : line.1 ≠ indent := (outside line rfl).ne
      rw [yamlSeq]
      simp [other]

theorem trim_dash {said : Text} (trimmed : Text.trim said = said) :
    Text.trim (List.drop 1 ('-' :: ' ' :: said)) = said := by
  rw [List.drop_one, List.tail_cons, Text.trim, Text.trimStart,
    List.dropWhile_cons_of_pos (by decide)]
  exact trimmed

/-- Lines are read as the part that is written in them, whatever follows outside it. -/
theorem Written.isRead {height indent : Nat} {lines : List YamlLine} {part : YamlPart}
    (written : Written height indent lines part) {fuel depth : Nat} {rest : List YamlLine}
    (shallow : depth + height ≤ yamlMaxDepth) (outside : Outside indent rest)
    (enough : 3 * lines.length + part.calls ≤ fuel) :
    part.IsRead fuel depth indent (lines ++ rest) rest := by
  induction written generalizing fuel depth rest with
  | noEntries =>
      obtain ⟨fuel, rfl⟩ := Nat.exists_eq_add_of_le' enough
      exact yamlMap_outside outside
  | noItems =>
      obtain ⟨fuel, rfl⟩ := Nat.exists_eq_add_of_le' enough
      exact yamlSeq_outside outside
  | scalarEntry isEntry reads spoken scalar _ inductionHypothesis =>
      simp only [List.length_cons, YamlPart.calls] at enough inductionHypothesis
      obtain ⟨fuel, rfl⟩ := Nat.exists_eq_add_of_le' (show 1 ≤ fuel by omega)
      have others := inductionHypothesis shallow outside (show _ ≤ fuel by omega)
      change yamlMap _ _ _ _ _ = _ at others
      change yamlMap _ _ _ _ _ = _
      rw [List.cons_append, yamlMap]
      simp [isEntry, reads, spoken, scalar, others]
  | @blockEntry _ _ deeper _ _ _ under _ _ isEntry reads isDeeper block later blockRead
      inductionHypothesis =>
      simp only [List.length_cons, List.length_append, YamlPart.calls]
        at enough blockRead inductionHypothesis
      obtain ⟨fuel, rfl⟩ := Nat.exists_eq_add_of_le' (show 1 ≤ fuel by omega)
      have inside := blockRead shallow (later.outside_append isDeeper outside)
        (show _ ≤ fuel by omega)
      have others := inductionHypothesis shallow outside (show _ ≤ fuel by omega)
      change yamlBlock _ _ _ _ = _ at inside
      change yamlMap _ _ _ _ _ = _ at others
      change yamlMap _ _ _ _ _ = _
      obtain ⟨first, tail, rfl⟩ := List.exists_cons_of_ne_nil block.ne_nil
      have isAt : first.1 = deeper := (block.head rfl).1
      rw [List.cons_append, List.append_assoc, yamlMap]
      rw [List.cons_append] at inside ⊢
      obtain ⟨at_, line⟩ := first
      obtain rfl : at_ = deeper := isAt
      simp [isEntry, reads, isDeeper, inside, others]
  | scalarItem trimmed spoken isScalar scalar _ inductionHypothesis =>
      simp only [List.length_cons, YamlPart.calls] at enough inductionHypothesis
      obtain ⟨fuel, rfl⟩ := Nat.exists_eq_add_of_le' (show 1 ≤ fuel by omega)
      have others := inductionHypothesis shallow outside (show _ ≤ fuel by omega)
      change yamlSeq _ _ _ _ = _ at others
      change yamlSeq _ _ _ _ = _
      rw [List.cons_append, yamlSeq]
      simp only [trim_dash trimmed]
      simp [spoken, isScalar, scalar, others]
  | @mapItem _ _ line key _ _ _ _ _ _ trimmed reads spoken scalar _ later othersRead
      inductionHypothesis =>
      simp only [List.length_cons, List.length_append, YamlPart.calls]
        at enough othersRead inductionHypothesis
      obtain ⟨fuel, rfl⟩ := Nat.exists_eq_add_of_le' (show 2 ≤ fuel by omega)
      have inside := @othersRead fuel (depth + 1) _ (by omega)
        (later.outside_append (Nat.lt_add_of_pos_right (by decide)) outside) (by omega)
      have others := inductionHypothesis shallow outside (show _ ≤ fuel + 1 by omega)
      change yamlMap _ _ _ _ _ = _ at inside
      change yamlSeq _ _ _ _ = _ at others
      change yamlSeq _ _ _ _ = _
      have isLine : line ≠ [] := by
        rintro rfl
        cases reads
      have notDeep : ¬ yamlMaxDepth ≤ depth := by omega
      have item := @yamlMap_first _ _ _ key _ _ _ _ _ spoken scalar inside
      rw [List.cons_append, yamlSeq]
      simp only [trim_dash trimmed, List.append_assoc]
      simp [isLine, reads, notDeep, item, others]
  | mapBlock some within_ inductionHypothesis =>
      simp only [YamlPart.calls] at enough inductionHypothesis
      obtain ⟨fuel, rfl⟩ := Nat.exists_eq_add_of_le' (show 1 ≤ fuel by omega)
      have inside := @inductionHypothesis fuel (depth + 1) rest (by omega) outside (by omega)
      change yamlMap _ _ _ _ _ = _ at inside
      change yamlBlock _ _ _ _ = _
      obtain ⟨first, tail, rfl⟩ := List.exists_cons_of_ne_nil some
      obtain ⟨isAt, begins⟩ := within_.head rfl
      have notDeep : ¬ yamlMaxDepth ≤ depth := by omega
      obtain ⟨at_, line⟩ := first
      change at_ = _ at isAt
      subst isAt
      rw [List.cons_append] at inside ⊢
      rw [yamlBlock]
      simp [notDeep, show isItem line = false from begins, inside]
  | seqBlock some within_ inductionHypothesis =>
      simp only [YamlPart.calls] at enough inductionHypothesis
      obtain ⟨fuel, rfl⟩ := Nat.exists_eq_add_of_le' (show 1 ≤ fuel by omega)
      have inside := @inductionHypothesis fuel (depth + 1) rest (by omega) outside (by omega)
      change yamlSeq _ _ _ _ = _ at inside
      change yamlBlock _ _ _ _ = _
      obtain ⟨first, tail, rfl⟩ := List.exists_cons_of_ne_nil some
      obtain ⟨isAt, begins⟩ := within_.head rfl
      have notDeep : ¬ yamlMaxDepth ≤ depth := by omega
      obtain ⟨at_, line⟩ := first
      change at_ = _ at isAt
      subst isAt
      rw [List.cons_append] at inside ⊢
      rw [yamlBlock]
      simp [notDeep, show isItem line = true from begins, inside]

/-! ### A document of lines -/

/-- What a line of a document may say. -/
structure Says (said : Text) : Prop where
  trimmed : Text.trim said = said
  some : said ≠ []
  notComment : said.head? ≠ Option.some '#'
  notMarker : said ≠ "---".toList
  oneLine : '\n' ∉ said

/-- The text of lines. -/
def document (lines : List YamlLine) : Text :=
  lines.flatMap fun line => List.replicate line.1 ' ' ++ line.2 ++ ['\n']

theorem dropWhile_replicate_append {char : Char} {drops : Char → Bool} (holds : drops char = true)
    (count : Nat) (rest : Text) :
    (List.replicate count char ++ rest).dropWhile drops = rest.dropWhile drops := by
  induction count with
  | zero => rfl
  | succ count inductionHypothesis =>
      rw [List.replicate_succ, List.cons_append, List.dropWhile_cons_of_pos holds,
        inductionHypothesis]

/-- A text is as it is trimmed where it neither starts nor ends with a space. -/
theorem trim_eq_self_iff {text : Text} : Text.trim text = text ↔
    (∀ char, text.head? = some char → Text.isWhitespace char = false) ∧
      ∀ char, text.getLast? = some char → Text.isWhitespace char = false := by
  constructor
  · intro trimmed
    constructor
    · intro char first
      obtain ⟨rest, rfl⟩ := List.head?_eq_some_iff.mp first
      by_contra space
      rw [Bool.not_eq_false] at space
      have shorter : (Text.trim (char :: rest)).length ≤ rest.length := by
        rw [Text.trim, Text.trimStart, List.dropWhile_cons_of_pos space]
        exact (List.rdropWhile_prefix _ _).length_le.trans (List.dropWhile_suffix _).length_le
      rw [trimmed, List.length_cons] at shorter
      omega
    · intro char last
      rw [Text.trim, Text.trimEnd] at trimmed
      have nonempty : (Text.trimStart text).rdropWhile Text.isWhitespace ≠ [] := by
        rw [trimmed]
        exact List.ne_nil_of_mem (List.mem_of_getLast? last)
      have solid := List.rdropWhile_last_not _ _ nonempty
      rw [← trimmed, List.getLast?_eq_some_getLast nonempty, Option.some_inj] at last
      rwa [last, Bool.not_eq_true] at solid
  · rintro ⟨starts, ends⟩
    have noStart : Text.trimStart text = text := by
      cases text with
      | nil => rfl
      | cons char rest => exact List.dropWhile_cons_of_neg (by simp [starts char rfl])
    rw [Text.trim, noStart, Text.trimEnd, List.rdropWhile_eq_self_iff]
    intro nonempty
    rw [ends _ (List.getLast?_eq_some_getLast nonempty)]
    exact Bool.false_ne_true

theorem Says.last {said : Text} (spoken : Says said) : said.getLast? ≠ Option.some '\r' :=
  fun last => absurd ((trim_eq_self_iff.mp spoken.trimmed).2 _ last) (by decide)

theorem yamlLines_cons {said : Text} (spoken : Says said) (indent : Nat) (rest : Text) :
    yamlLines (List.replicate indent ' ' ++ said ++ '\n' :: rest) =
      (indent, said) :: yamlLines rest := by
  have oneLine : '\n' ∉ List.replicate indent ' ' ++ said := by
    intro held
    rcases List.mem_append.mp held with inIndent | inSaid
    · exact absurd (List.eq_of_mem_replicate inIndent) (by decide)
    · exact spoken.oneLine inSaid
  have noReturn : (List.replicate indent ' ' ++ said).getLast? ≠ some '\r' := by
    rw [List.getLast?_append_of_ne_nil _ spoken.some]
    exact spoken.last
  have trims : Text.trim (List.replicate indent ' ' ++ said) = said := by
    rw [Text.trim, Text.trimStart, dropWhile_replicate_append (by decide)]
    exact spoken.trimmed
  obtain ⟨char, chars, shape⟩ := List.exists_cons_of_ne_nil spoken.some
  have notSpace : char ≠ ' ' := by
    rintro rfl
    exact absurd ((trim_eq_self_iff.mp spoken.trimmed).1 ' ' (shape ▸ rfl)) (by decide)
  have counts : ((List.replicate indent ' ' ++ said).takeWhile (· = ' ')).length = indent := by
    rw [List.takeWhile_append_of_pos (by simp [List.mem_replicate]), shape,
      List.takeWhile_cons_of_neg (by simpa using notSpace), List.append_nil,
      List.length_replicate]
  rw [yamlLines, Text.lines_append oneLine, Text.withoutReturn_eq_self noReturn,
    List.filter_cons_of_pos, List.map_cons, counts, trims]
  · rfl
  · simp only [trims, decide_eq_true_eq]
    exact ⟨spoken.some, spoken.notComment, spoken.notMarker⟩

theorem yamlLines_document {lines : List YamlLine} (spoken : ∀ line ∈ lines, Says line.2) :
    yamlLines (document lines) = lines := by
  induction lines with
  | nil => rfl
  | cons line lines inductionHypothesis =>
      obtain ⟨first, later⟩ := List.forall_mem_cons.mp spoken
      rw [document, List.flatMap_cons, List.append_assoc, List.singleton_append,
        yamlLines_cons first]
      exact congrArg _ (inductionHypothesis later)

/-- A document is read as the block that is written in its lines. -/
theorem yaml_of_written {height indent : Nat} {lines : List YamlLine} {value : Yaml} {text : Text}
    (written : Written height indent lines (.block value)) (shallow : height ≤ yamlMaxDepth)
    (isText : yamlLines text = lines) : yaml text = value := by
  obtain ⟨first, rest, rfl⟩ := List.exists_cons_of_ne_nil written.ne_nil
  have isAt : first.1 = indent := (written.head rfl).1
  have read : yamlBlock (3 * (first :: rest).length + 3) 0 indent ((first :: rest) ++ []) =
      some (value, []) :=
    written.isRead (by omega) nofun (by simp only [YamlPart.calls]; omega)
  rw [List.append_nil] at read
  rw [yaml, isText]
  simp only [List.head?_cons, Option.elim_some, isAt, read]

end ServerBox.Virt
