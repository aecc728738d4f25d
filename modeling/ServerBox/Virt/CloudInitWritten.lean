import ServerBox.Virt.CloudInit

/-!
# The files of a seed read as YAML

The user data, the meta data and the network configuration of a `VirtCloudInit` are read as the
values that they are meant to say, whatever its strings hold: `Writes` composes a text of the lines
that a block is written in.
-/

namespace ServerBox.Virt

open ServerBox.Std

/-! ### Keys and values -/

/-- A key that needs no quotes. -/
structure IsKey (key : Text) : Prop where
  nonempty : key ≠ []
  plain : ∀ char ∈ key, char.isAlphanum ∨ char = '_' ∨ char = '-'
  isName : key.head? ≠ some '-'

instance (key : Text) : Decidable (IsKey key) :=
  decidable_of_iff (key ≠ [] ∧ (∀ char ∈ key, char.isAlphanum ∨ char = '_' ∨ char = '-') ∧
      key.head? ≠ some '-')
    ⟨fun ⟨nonempty, plain, isName⟩ => ⟨nonempty, plain, isName⟩,
      fun isKey => ⟨isKey.nonempty, isKey.plain, isKey.isName⟩⟩

/-- A value that stands on the line of its key. -/
structure IsValue (said : Text) (value : Yaml) : Prop where
  trimmed : Text.trim said = said
  nonempty : said ≠ []
  oneLine : '\n' ∉ said
  scalar : yamlScalar said = some value

variable {key said : Text} {value : Yaml}

namespace IsKey

theorem trim_eq (isKey : IsKey key) : Text.trim key = key := by
  refine Text.trim_eq_self fun char held => ?_
  rcases isKey.plain char held with alphanumeric | rfl | rfl
  · exact Text.not_isWhitespace_of_isAlphanum alphanumeric
  · decide
  · decide

theorem ne_of_mem (isKey : IsKey key) {char barred : Char} (held : char ∈ key)
    (isBarred : barred.isAlphanum = false ∧ barred ≠ '_' ∧ barred ≠ '-') : char ≠ barred := by
  rintro rfl
  rcases isKey.plain char held with alphanumeric | same | same
  · rw [isBarred.1] at alphanumeric
    cases alphanumeric
  · exact isBarred.2.1 same
  · exact isBarred.2.2 same

theorem head (isKey : IsKey key) : ∃ char rest, key = char :: rest ∧ char ∈ key ∧ char ≠ '-' := by
  obtain ⟨char, rest, rfl⟩ := List.exists_cons_of_ne_nil isKey.nonempty
  exact ⟨char, rest, rfl, List.mem_cons_self, fun same => isKey.isName (same ▸ rfl)⟩

theorem splitAtKey_append (bare : ':' ∉ key) (rest : Text) (ends : rest.head?.getD ' ' = ' ') :
    splitAtKey (key ++ ':' :: rest) = some (key, rest) := by
  induction key with
  | nil => simp [splitAtKey, ends]
  | cons char key inductionHypothesis =>
      obtain ⟨other, later⟩ := List.ne_and_not_mem_of_not_mem_cons bare
      rw [List.cons_append, splitAtKey, if_neg fun isColon => other isColon.1.symm,
        inductionHypothesis later]
      rfl

theorem yamlKey_append (isKey : IsKey key) (rest : Text) (ends : rest.head?.getD ' ' = ' ') :
    yamlKey (key ++ ':' :: rest) = some (key, Text.trim rest) := by
  obtain ⟨char, chars, shape, held, -⟩ := isKey.head
  have first : (key ++ ':' :: rest).head? = some char := by rw [shape]; rfl
  have barred : ∀ quote ∈ "\"'[".toList,
      quote.isAlphanum = false ∧ quote ≠ '_' ∧ quote ≠ '-' := by decide
  have notQuote : char ∉ "\"'[".toList := fun isQuote =>
    isKey.ne_of_mem held (barred _ isQuote) rfl
  have bare : ':' ∉ key := fun isColon => isKey.ne_of_mem isColon (by decide) rfl
  rw [yamlKey, first, if_neg (by simpa using notQuote), splitAtKey_append bare rest ends]
  exact congrArg (fun key => some (key, Text.trim rest)) isKey.trim_eq

theorem isItem_append (isKey : IsKey key) (rest : Text) : isItem (key ++ rest) = false := by
  obtain ⟨char, chars, shape, -, notDash⟩ := isKey.head
  rw [shape, isItem]
  simp [notDash]

/-- A line that starts with a key and ends in what is no space. -/
theorem says_append (isKey : IsKey key) {rest : Text} (oneLine : '\n' ∉ rest)
    (ends : ∀ char, (key ++ rest).getLast? = some char → Text.isWhitespace char = false) :
    Says (key ++ rest) := by
  obtain ⟨first, chars, shape, held, notDash⟩ := isKey.head
  have starts : (key ++ rest).head? = some first := by rw [shape]; rfl
  refine ⟨trim_eq_self_iff.mpr ⟨fun char isFirst => ?_, ends⟩, ?_, ?_, ?_, ?_⟩
  · obtain rfl : first = char := Option.some.inj (starts.symm.trans isFirst)
    rcases isKey.plain first held with alphanumeric | rfl | rfl
    · exact Text.not_isWhitespace_of_isAlphanum alphanumeric
    · decide
    · decide
  · exact fun empty => isKey.nonempty (List.append_eq_nil_iff.mp empty).1
  · rw [starts]
    exact fun same => isKey.ne_of_mem held (by decide) (Option.some.inj same)
  · intro isMarker
    rw [isMarker] at starts
    exact notDash (Option.some.inj starts).symm
  · intro inLine
    rcases List.mem_append.mp inLine with inKey | inRest
    · exact isKey.ne_of_mem inKey (by decide) rfl
    · exact oneLine inRest

end IsKey

namespace IsValue

/-- What ends in a value ends in no space. -/
theorem ends (isValue : IsValue said value) (front : Text) {char : Char}
    (last : (front ++ said).getLast? = some char) : Text.isWhitespace char = false := by
  rw [List.getLast?_append_of_ne_nil _ isValue.nonempty] at last
  exact (trim_eq_self_iff.mp isValue.trimmed).2 char last

theorem says_entry (isValue : IsValue said value) (isKey : IsKey key) :
    Says (key ++ ':' :: ' ' :: said) := by
  refine isKey.says_append ?_ fun char last => ?_
  · simpa using isValue.oneLine
  · have shape : key ++ ':' :: ' ' :: said = (key ++ [':', ' ']) ++ said := by simp
    rw [shape] at last
    exact isValue.ends _ last

theorem yamlKey_entry (isValue : IsValue said value) (isKey : IsKey key) :
    yamlKey (key ++ ':' :: ' ' :: said) = some (key, said) := by
  rw [isKey.yamlKey_append _ rfl, Text.trim, Text.trimStart,
    List.dropWhile_cons_of_pos (by decide)]
  exact congrArg (fun said => some (key, said)) isValue.trimmed

/-- What is said after a dash. -/
theorem says_dash (front : Text) (oneLine : '\n' ∉ front) (isValue : IsValue said value) :
    Says ('-' :: ' ' :: (front ++ said)) := by
  refine ⟨trim_eq_self_iff.mpr ⟨fun char isFirst => ?_, fun char last => ?_⟩, List.cons_ne_nil _ _,
    by simp, ?_, ?_⟩
  · rw [← Option.some.inj isFirst]
    decide
  · exact isValue.ends ('-' :: ' ' :: front) last
  · intro isMarker
    exact absurd (List.cons.inj (List.cons.inj isMarker).2).1 (by decide)
  · simpa [not_or] using ⟨oneLine, isValue.oneLine⟩

end IsValue

/-! ### Strings -/

open VirtCloudInit

theorem newline_not_mem_json (text : Text) : '\n' ∉ json text := by
  intro held
  rcases JsonText.mem_string held with visible | ⟨-, above⟩
  · exact absurd visible.1 (by decide)
  · exact absurd above (by decide)

theorem trim_json (text : Text) : Text.trim (json text) = json text := by
  refine trim_eq_self_iff.mpr ⟨fun char first => ?_, fun char last => ?_⟩
  · rw [← Option.some.inj first]
    decide
  · rw [json, JsonText.string, ← List.cons_append, List.getLast?_concat] at last
    rw [← Option.some.inj last]
    decide

/-- Whatever a string holds, it is read back. -/
theorem isValue_json (text : Text) : IsValue (json text) (.str text) where
  trimmed := trim_json text
  nonempty := List.cons_ne_nil _ _
  oneLine := newline_not_mem_json text
  scalar := by
    have quoted : yamlQuoted (json text) = some (.str text) := by
      have starts : (json text).head? = some '"' := rfl
      rw [yamlQuoted, if_pos starts, json, (JsonText.reads_string text).fromStr]
    simp only [yamlScalar, trim_json, quoted]

theorem yamlKey_json (text : Text) : yamlKey (json text) = none := by
  rw [yamlKey, if_pos]
  rfl

/-- A flow sequence of strings, as `network_config` writes it. -/
def flow (values : List Text) : Text :=
  '[' :: (", ".toList.intercalate (values.map json) ++ [']'])

theorem fromStr_flow (values : List Text) :
    JsonText.fromStr (flow values) = some (.array (values.map .string)) := by
  have reads : List.Forall₂ JsonText.Reads (values.map json) (values.map .string) := by
    induction values with
    | nil => exact .nil
    | cons first values inductionHypothesis =>
        exact .cons (JsonText.reads_string first) inductionHypothesis
  exact (@JsonText.reads_spacedArray [' '] (by decide) _ _ reads).fromStr

theorem jsonStrings_array (values : List Text) :
    jsonStrings (some (.array (values.map .string))) = some values := by
  rw [jsonStrings, List.mapM_map]
  induction values with
  | nil => rfl
  | cons first values inductionHypothesis =>
      rw [List.mapM_cons, inductionHypothesis]
      rfl

theorem trim_flow (values : List Text) : Text.trim (flow values) = flow values := by
  refine trim_eq_self_iff.mpr ⟨fun char first => ?_, fun char last => ?_⟩
  · rw [← Option.some.inj first]
    decide
  · rw [flow, ← List.cons_append, List.getLast?_concat] at last
    rw [← Option.some.inj last]
    decide

theorem newline_not_mem_flow (values : List Text) : '\n' ∉ flow values := by
  have inside (texts : List Text) (bare : ∀ text ∈ texts, '\n' ∉ text) :
      '\n' ∉ ", ".toList.intercalate texts := by
    induction texts with
    | nil => exact List.not_mem_nil
    | cons first texts inductionHypothesis =>
        obtain ⟨here, later⟩ := List.forall_mem_cons.mp bare
        cases texts with
        | nil => simpa using here
        | cons next texts =>
            rw [List.intercalate_cons_cons, List.mem_append, List.mem_append, not_or, not_or]
            exact ⟨⟨here, by decide⟩, inductionHypothesis later⟩
  intro held
  rcases List.mem_cons.mp held with same | later
  · exact absurd same (by decide)
  rcases List.mem_append.mp later with among | last
  · refine inside _ (fun text isText => ?_) among
    obtain ⟨value, -, rfl⟩ := List.mem_map.mp isText
    exact newline_not_mem_json value
  · exact absurd (List.mem_singleton.mp last) (by decide)

theorem isValue_flow (values : List Text) : IsValue (flow values) (.seq (values.map .str)) where
  trimmed := trim_flow values
  nonempty := List.cons_ne_nil _ _
  oneLine := newline_not_mem_flow values
  scalar := by
    have notQuoted : yamlQuoted (flow values) = none := rfl
    have isFlow : (Text.stripPrefix "[" (flow values)).bind (Text.stripSuffix "]") =
        some (", ".toList.intercalate (values.map json)) :=
      Text.stripSuffix_append "]" _
    simp only [yamlScalar, trim_flow, notQuoted, isFlow, fromStr_flow, jsonStrings_array]

/-! ### Texts that write a block -/

/-- Whether a text writes a part of a block, line by line. -/
def Writes (height indent : Nat) (text : Text) (part : YamlPart) : Prop :=
  ∃ lines, Written height indent lines part ∧ (∀ line ∈ lines, Says line.2) ∧
    text = document lines

variable {height indent : Nat} {text more start : Text} {entries others : List (Text × Yaml)}
  {items : List Yaml}

theorem document_cons (indent : Nat) (said : Text) (lines : List YamlLine) :
    document ((indent, said) :: lines) =
      List.replicate indent ' ' ++ said ++ '\n' :: document lines := by
  rw [document, List.flatMap_cons, List.append_assoc, List.singleton_append]
  rfl

theorem document_append (lines others : List YamlLine) :
    document (lines ++ others) = document lines ++ document others := List.flatMap_append

namespace Writes

theorem nothing : Writes height indent [] (.entries []) := ⟨[], .noEntries, nofun, rfl⟩

theorem append (writes : Writes height indent text (.entries entries))
    (later : Writes height indent more (.entries others)) :
    Writes height indent (text ++ more) (.entries (entries ++ others)) := by
  obtain ⟨lines, written, said, rfl⟩ := writes
  obtain ⟨after, writtenAfter, saidAfter, rfl⟩ := later
  exact ⟨lines ++ after, written.append writtenAfter,
    List.forall_mem_append.mpr ⟨said, saidAfter⟩, (document_append _ _).symm⟩

/-- An entry on one line. -/
theorem entry (isKey : IsKey key) (isValue : IsValue said value)
    (isStart : start = List.replicate indent ' ' ++ key ++ ": ".toList) :
    Writes height indent (start ++ said ++ ['\n']) (.entries [(key, value)]) := by
  refine ⟨[(indent, key ++ ':' :: ' ' :: said)],
    .scalarEntry (isKey.isItem_append _) (isValue.yamlKey_entry isKey) isValue.nonempty
      isValue.scalar .noEntries, ?_, ?_⟩
  · exact List.forall_mem_singleton.mpr (isValue.says_entry isKey)
  · rw [document_cons, isStart]
    simp [document]

/-- A string on the line of its key. -/
theorem jsonEntry {start : String} (isKey : IsKey key)
    (isStart : start.toList = List.replicate indent ' ' ++ key ++ ": ".toList) (value : Text) :
    Writes height indent (jsonLine start value) (.entries [(key, .str value)]) :=
  entry isKey (isValue_json value) isStart

/-- A block under its key. -/
theorem under {deeper : Nat} (block : Writes height deeper text (.block value))
    (isKey : IsKey key) (isDeeper : indent < deeper)
    (isStart : start = List.replicate indent ' ' ++ key ++ ":\n".toList) :
    Writes height indent (start ++ text) (.entries [(key, value)]) := by
  obtain ⟨lines, written, said, rfl⟩ := block
  refine ⟨(indent, key ++ [':']) :: (lines ++ []),
    .blockEntry (isKey.isItem_append _) (isKey.yamlKey_append [] rfl) isDeeper written .noEntries,
    ?_, ?_⟩
  · rw [List.append_nil]
    refine List.forall_mem_cons.mpr ⟨isKey.says_append (by decide) fun char last => ?_, said⟩
    rw [List.getLast?_concat] at last
    rw [← Option.some.inj last]
    decide
  · rw [List.append_nil, document_cons, isStart]
    simp

theorem ne_nil (writes : Writes height indent text (.entries ((key, value) :: entries))) :
    ∃ lines, lines ≠ [] ∧ Written height indent lines (.entries ((key, value) :: entries)) ∧
      (∀ line ∈ lines, Says line.2) ∧ text = document lines := by
  obtain ⟨lines, written, said, rfl⟩ := writes
  refine ⟨lines, ?_, written, said, rfl⟩
  rintro rfl
  cases written

/-- Entries, one at least, are a mapping. -/
theorem map (writes : Writes height indent text (.entries ((key, value) :: entries))) :
    Writes (height + 1) indent text (.block (.map ((key, value) :: entries))) := by
  obtain ⟨lines, some, written, said, rfl⟩ := writes.ne_nil
  exact ⟨lines, .mapBlock some written, said, rfl⟩

theorem noItems : Writes height indent [] (.items []) := ⟨[], .noItems, nofun, rfl⟩

/-- A string after a dash. -/
theorem jsonItem {start : String} (later : Writes height indent text (.items items))
    (isStart : start.toList = List.replicate indent ' ' ++ "- ".toList) (value : Text) :
    Writes height indent (jsonLine start value ++ text) (.items (.str value :: items)) := by
  obtain ⟨lines, written, said, rfl⟩ := later
  have isValue := isValue_json value
  refine ⟨(indent, '-' :: ' ' :: json value) :: lines,
    .scalarItem isValue.trimmed isValue.nonempty (yamlKey_json value) isValue.scalar written,
    ?_, ?_⟩
  · exact List.forall_mem_cons.mpr ⟨isValue.says_dash [] List.not_mem_nil, said⟩
  · rw [document_cons, jsonLine, isStart]
    simp

/-- A mapping after a dash, its first entry on the line of the dash. -/
theorem mapItem {start : String} (later : Writes height (indent + 2) text (.entries entries))
    (isKey : IsKey key)
    (isStart : start.toList = List.replicate indent ' ' ++ "- ".toList ++ key ++ ": ".toList)
    (value : Text) :
    Writes (height + 1) indent (jsonLine start value ++ text)
      (.items [.map ((key, .str value) :: entries)]) := by
  obtain ⟨lines, written, said, rfl⟩ := later
  have isValue := isValue_json value
  have spoken := isValue.says_entry isKey
  refine ⟨(indent, '-' :: ' ' :: (key ++ ':' :: ' ' :: json value)) :: (lines ++ []),
    .mapItem spoken.trimmed (isValue.yamlKey_entry isKey) isValue.nonempty isValue.scalar written
      .noItems, ?_, ?_⟩
  · have dashed := isValue.says_dash (key ++ [':', ' ']) (by
      rw [List.mem_append, not_or]
      exact ⟨fun inKey => isKey.ne_of_mem inKey (by decide) rfl, by decide⟩)
    rw [List.append_assoc] at dashed
    rw [List.append_nil]
    exact List.forall_mem_cons.mpr ⟨dashed, said⟩
  · rw [List.append_nil, document_cons, jsonLine, isStart]
    simp

/-- Items, one at least, are a sequence. -/
theorem seq (writes : Writes height indent text (.items (value :: items))) :
    Writes (height + 1) indent text (.block (.seq (value :: items))) := by
  obtain ⟨lines, written, said, rfl⟩ := writes
  have some : lines ≠ [] := by
    rintro rfl
    cases written
  exact ⟨lines, .seqBlock some written, said, rfl⟩

/-- A document is read as the mapping that it writes. -/
theorem yaml_eq (writes : Writes height indent text (.block value))
    (shallow : height ≤ yamlMaxDepth) : yaml text = value := by
  obtain ⟨lines, written, said, rfl⟩ := writes
  exact yaml_of_written written shallow (yamlLines_document said)

end Writes

/-- A text of one word that is no other scalar. -/
theorem isValue_word {word : String} (trimmed : Text.trim word.toList = word.toList)
    (nonempty : word.toList ≠ []) (oneLine : '\n' ∉ word.toList)
    (scalar : yamlScalar word.toList = some (.str word.toList)) :
    IsValue word.toList (.str word.toList) := ⟨trimmed, nonempty, oneLine, scalar⟩

theorem isValue_true : IsValue "true".toList (.str "true".toList) :=
  isValue_word (by decide) (by decide) (by decide) rfl

theorem isValue_false : IsValue "false".toList (.str "false".toList) :=
  isValue_word (by decide) (by decide) (by decide) rfl

theorem isValue_two : IsValue "2".toList (.str "2".toList) :=
  isValue_word (by decide) (by decide) (by decide) rfl

theorem isValue_hash : IsValue "hash".toList (.str "hash".toList) :=
  isValue_word (by decide) (by decide) (by decide) rfl

/-- A word on the line of its key. -/
theorem Writes.wordEntry {line word : String} (isKey : IsKey key)
    (isValue : IsValue word.toList (.str word.toList))
    (isLine : line.toList =
      List.replicate indent ' ' ++ key ++ ": ".toList ++ word.toList ++ ['\n']) :
    Writes height indent line.toList (.entries [(key, .str word.toList)]) :=
  isLine ▸ .entry isKey isValue rfl

/-- The first line of the user data is a comment. -/
theorem yaml_cloudConfig (text : Text) : yaml ("#cloud-config\n".toList ++ text) = yaml text := by
  have shape : "#cloud-config\n".toList ++ text = "#cloud-config".toList ++ '\n' :: text := rfl
  have lines : yamlLines ("#cloud-config\n".toList ++ text) = yamlLines text := by
    rw [shape, yamlLines, Text.lines_append (by decide), List.filter_cons_of_neg (by decide)]
    rfl
  rw [yaml, yaml, lines]

/-! ### The user data -/

/-- The password of an account. -/
def ofHash : Option Text → List (Text × Yaml)
  | some hash => [("lock_passwd".toList, .str "false".toList), ("hashed_passwd".toList, .str hash)]
  | none => [("lock_passwd".toList, .str "true".toList)]

/-- The keys of an account. -/
def ofKeys (keys : List Text) : List (Text × Yaml) :=
  if keys.isEmpty then [] else [("ssh_authorized_keys".toList, .seq (keys.map .str))]

/-- The expiry of a password. -/
def ofExpiry (user : Text) : Option Text → Bool → List (Text × Yaml)
  | some hash, true =>
      [("chpasswd".toList, .map [("expire".toList, .str "true".toList),
        ("users".toList, .seq [.map [("name".toList, .str user), ("password".toList, .str hash),
          ("type".toList, .str "hash".toList)]])])]
  | _, _ => []

/-- The account of a seed. -/
def accountEntries (ci : VirtCloudInit) : List (Text × Yaml) :=
  ("name".toList, .str ci.user) ::
    ("sudo".toList, .str "ALL=(ALL) NOPASSWD:ALL".toList) ::
      (ofHash ci.passwordHash ++ ofKeys ci.sshKeys)

/-- What the user data say. -/
def userEntries (ci : VirtCloudInit) : List (Text × Yaml) :=
  ("hostname".toList, .str ci.hostname) ::
    ("manage_etc_hosts".toList, .str "true".toList) ::
      ("user".toList, .map (accountEntries ci)) ::
        ("ssh_pwauth".toList,
          .str (if ci.passwordHash.isSome then "true".toList else "false".toList)) ::
          ofExpiry ci.user ci.passwordHash ci.passwordExpire

theorem writes_hash (hash : Option Text) :
    Writes height 2 (match hash with
      | some hash => "  lock_passwd: false\n".toList ++ jsonLine "  hashed_passwd: " hash
      | none => "  lock_passwd: true\n".toList) (.entries (ofHash hash)) := by
  cases hash with
  | none => exact .wordEntry (by decide) isValue_true rfl
  | some hash =>
      have locked : Writes height 2 "  lock_passwd: false\n".toList
          (.entries [("lock_passwd".toList, .str "false".toList)]) :=
        .wordEntry (by decide) isValue_false rfl
      exact locked.append (.jsonEntry (by decide) rfl hash)

theorem writes_items (keys : List Text) :
    Writes height 4 (keys.flatMap (jsonLine "    - ")) (.items (keys.map .str)) := by
  induction keys with
  | nil => exact .noItems
  | cons key keys inductionHypothesis => exact inductionHypothesis.jsonItem rfl key

theorem writes_keys (keys : List Text) :
    Writes (height + 1) 2 (if keys.isEmpty then []
      else "  ssh_authorized_keys:\n".toList ++ keys.flatMap (jsonLine "    - "))
      (.entries (ofKeys keys)) := by
  cases keys with
  | nil => exact .nothing
  | cons key keys => exact (writes_items (key :: keys)).seq.under (by decide) (by decide) rfl

theorem writes_expiry (user : Text) (hash : Option Text) (expire : Bool) :
    Writes (height + 3) 0 (match hash, expire with
      | some hash, true =>
          "chpasswd:\n  expire: true\n  users:\n".toList ++
            jsonLine "    - name: " user ++
            jsonLine "      password: " hash ++
            "      type: hash\n".toList
      | _, _ => []) (.entries (ofExpiry user hash expire)) := by
  cases hash with
  | none => exact .nothing
  | some hash =>
      cases expire with
      | false => exact .nothing
      | true =>
          have type : Writes height 6 "      type: hash\n".toList
              (.entries [("type".toList, .str "hash".toList)]) :=
            .wordEntry (by decide) isValue_hash rfl
          have password : Writes height 6 (jsonLine "      password: " hash)
              (.entries [("password".toList, .str hash)]) := .jsonEntry (by decide) rfl hash
          have isName : IsKey "name".toList := by decide
          have isUsers : IsKey "users".toList := by decide
          have isChpasswd : IsKey "chpasswd".toList := by decide
          have account := ((password.append type).mapItem isName
            (show "    - name: ".toList = _ from rfl) user).seq
          have users := account.under isUsers (show 2 < 4 by decide)
            (show "  users:\n".toList = _ from rfl)
          have expires : Writes (height + 1 + 1) 2 "  expire: true\n".toList
              (.entries [("expire".toList, .str "true".toList)]) :=
            .wordEntry (by decide) isValue_true rfl
          have whole := (expires.append users).map.under isChpasswd (show 0 < 2 by decide)
            (show "chpasswd:\n".toList = _ from rfl)
          have literal : "chpasswd:\n  expire: true\n  users:\n".toList =
              "chpasswd:\n".toList ++ ("  expire: true\n".toList ++ "  users:\n".toList) := rfl
          simp only [literal, List.append_assoc] at whole ⊢
          exact whole

/-- The user data are read as what they say, where the keys are as they are trimmed. -/
theorem yaml_userData {ci : VirtCloudInit}
    (keys : ∀ key ∈ ci.sshKeys, Text.trim key = key ∧ key ≠ []) :
    yaml ci.userData = .map (userEntries ci) := by
  have sameKeys : (ci.sshKeys.map Text.trim).filter (!·.isEmpty) = ci.sshKeys := by
    rw [List.map_congr_left fun key isKey => (keys key isKey).1, List.map_id',
      List.filter_eq_self]
    simpa using fun key isKey => (keys key isKey).2
  have hostname : Writes 3 0 (jsonLine "hostname: " ci.hostname)
      (.entries [("hostname".toList, .str ci.hostname)]) := .jsonEntry (by decide) rfl _
  have manages : Writes 3 0 "manage_etc_hosts: true\n".toList
      (.entries [("manage_etc_hosts".toList, .str "true".toList)]) :=
    .wordEntry (by decide) isValue_true rfl
  have name : Writes 2 2 (jsonLine "  name: " ci.user)
      (.entries [("name".toList, .str ci.user)]) := .jsonEntry (by decide) rfl _
  have elevated : Writes 2 2 "  sudo: \"ALL=(ALL) NOPASSWD:ALL\"\n".toList
      (.entries [("sudo".toList, .str "ALL=(ALL) NOPASSWD:ALL".toList)]) :=
    show Writes 2 2 (jsonLine "  sudo: " "ALL=(ALL) NOPASSWD:ALL".toList) _ from
      .jsonEntry (by decide) rfl _
  have isUser : IsKey "user".toList := by decide
  have account := (name.append (elevated.append ((writes_hash ci.passwordHash).append
    (writes_keys ci.sshKeys)))).map.under isUser (show 0 < 2 by decide)
      (show "user:\n".toList = _ from rfl)
  have pwauth : Writes 3 0 (if ci.passwordHash.isSome then "ssh_pwauth: true\n".toList
      else "ssh_pwauth: false\n".toList) (.entries [("ssh_pwauth".toList,
        .str (if ci.passwordHash.isSome then "true".toList else "false".toList))]) := by
    cases ci.passwordHash with
    | none => exact .wordEntry (by decide) isValue_false rfl
    | some hash => exact .wordEntry (by decide) isValue_true rfl
  have whole := (hostname.append (manages.append (account.append (pwauth.append
    (writes_expiry ci.user ci.passwordHash ci.passwordExpire))))).map.yaml_eq (by decide)
  simp only [List.append_assoc] at whole
  unfold userData
  simp only [sameKeys, List.append_assoc]
  exact (yaml_cloudConfig _).trans whole

/-! ### The meta data and the network -/

theorem yaml_metaData (ci : VirtCloudInit) :
    yaml ci.metaData = .map [("instance-id".toList, .str ci.instanceId),
      ("local-hostname".toList, .str ci.hostname)] := by
  have instanceId : Writes 0 0 (jsonLine "instance-id: " ci.instanceId)
      (.entries [("instance-id".toList, .str ci.instanceId)]) := .jsonEntry (by decide) rfl _
  have hostname : Writes 0 0 (jsonLine "local-hostname: " ci.hostname)
      (.entries [("local-hostname".toList, .str ci.hostname)]) := .jsonEntry (by decide) rfl _
  exact (instanceId.append hostname).map.yaml_eq (by decide)

/-- A route to everywhere. -/
def ofGateway : Option Text → List (Text × Yaml)
  | none => []
  | some gateway =>
      [("routes".toList,
        .seq [.map [("to".toList, .str "0.0.0.0/0".toList), ("via".toList, .str gateway)]])]

/-- The addressing of a NIC. -/
def ofIpv4 : Option VirtCiIpv4 → List (Text × Yaml)
  | none => [("dhcp4".toList, .str "true".toList)]
  | some ip =>
      ("dhcp4".toList, .str "false".toList) ::
        ("addresses".toList, .seq ([ip.address].map .str)) :: ofGateway ip.gateway

/-- A list under its key, where it has anything. -/
def ofList (key : String) (values : List Text) : List (Text × Yaml) :=
  if values.isEmpty then [] else [(key.toList, .seq (values.map .str))]

/-- The name servers and search domains of a NIC. -/
def ofNameservers (dns search : List Text) : List (Text × Yaml) :=
  if dns.isEmpty && search.isEmpty then []
  else [("nameservers".toList, .map (ofList "addresses" dns ++ ofList "search" search))]

/-- What the network configuration says of a NIC. -/
def nicEntries (network : VirtCiNetwork) : List (Text × Yaml) :=
  ("match".toList, .map [("macaddress".toList, .str (asciiLowercase network.mac))]) ::
    (ofIpv4 network.ipv4 ++ ofNameservers network.dns network.search)

/-- The NICs under their names, in order. -/
def nicsEntries (nics : List (VirtCiNetwork × Nat)) : List (Text × Yaml) :=
  nics.map fun (network, index) => ("nic".toList ++ Text.decimal index, .map (nicEntries network))

theorem isKey_nic (index : Nat) : IsKey ("nic".toList ++ Text.decimal index) where
  nonempty := List.cons_ne_nil _ _
  plain := by
    intro char held
    rcases List.mem_append.mp held with inName | inIndex
    · exact .inl ((show ∀ char ∈ "nic".toList, char.isAlphanum = true by decide) char inName)
    · exact .inl (by simp [Char.isAlphanum, Text.isDigit_of_mem_decimal inIndex])
  isName := by simp

/-- A list of strings on the line of its key. -/
theorem Writes.listEntry {start : String} (isKey : IsKey key)
    (isStart : start.toList = List.replicate indent ' ' ++ key ++ ": ".toList)
    (values : List Text) :
    Writes height indent (jsonList start values) (.entries [(key, .seq (values.map .str))]) := by
  have shape : jsonList start values = start.toList ++ flow values ++ ['\n'] := by
    have ending : "]\n".toList = [']'] ++ ['\n'] := rfl
    rw [jsonList, flow, ending]
    simp only [List.append_assoc, List.cons_append]
  rw [shape]
  exact .entry isKey (isValue_flow values) isStart

theorem writes_gateway (gateway : Option Text) :
    Writes 2 4 (match gateway with
      | none => []
      | some gateway =>
          "    routes:\n      - to: \"0.0.0.0/0\"\n".toList ++ jsonLine "        via: " gateway)
      (.entries (ofGateway gateway)) := by
  cases gateway with
  | none => exact .nothing
  | some gateway =>
      have isTo : IsKey "to".toList := by decide
      have isRoutes : IsKey "routes".toList := by decide
      have via : Writes 0 8 (jsonLine "        via: " gateway)
          (.entries [("via".toList, .str gateway)]) := .jsonEntry (by decide) rfl gateway
      have route := (via.mapItem isTo (show "      - to: ".toList = _ from rfl)
        "0.0.0.0/0".toList).seq
      have whole := route.under isRoutes (show 4 < 6 by decide)
        (show "    routes:\n".toList = _ from rfl)
      have literal : "    routes:\n      - to: \"0.0.0.0/0\"\n".toList =
          "    routes:\n".toList ++ jsonLine "      - to: " "0.0.0.0/0".toList := rfl
      simp only [literal, List.append_assoc]
      exact whole

theorem writes_ipv4 (ipv4 : Option VirtCiIpv4) :
    Writes 2 4 (match ipv4 with
      | none => "    dhcp4: true\n".toList
      | some ip =>
          "    dhcp4: false\n".toList ++ jsonList "    addresses: " [ip.address] ++
            (match ip.gateway with
              | none => []
              | some gateway =>
                  "    routes:\n      - to: \"0.0.0.0/0\"\n".toList ++
                    jsonLine "        via: " gateway)) (.entries (ofIpv4 ipv4)) := by
  cases ipv4 with
  | none => exact .wordEntry (by decide) isValue_true rfl
  | some ip =>
      have dhcp : Writes 2 4 "    dhcp4: false\n".toList
          (.entries [("dhcp4".toList, .str "false".toList)]) :=
        .wordEntry (by decide) isValue_false rfl
      have addresses : Writes 2 4 (jsonList "    addresses: " [ip.address])
          (.entries [("addresses".toList, .seq ([ip.address].map .str))]) :=
        .listEntry (by decide) rfl _
      exact (dhcp.append addresses).append (writes_gateway ip.gateway)

theorem writes_list {start key : String} (isKey : IsKey key.toList)
    (isStart : start.toList = List.replicate indent ' ' ++ key.toList ++ ": ".toList)
    (values : List Text) :
    Writes height indent (if values.isEmpty then [] else jsonList start values)
      (.entries (ofList key values)) := by
  cases values with
  | nil => exact .nothing
  | cons first values => exact .listEntry isKey isStart (first :: values)

theorem writes_nameservers (dns search : List Text) :
    Writes 2 4 (if dns.isEmpty && search.isEmpty then []
      else
        "    nameservers:\n".toList ++
          (if dns.isEmpty then [] else jsonList "      addresses: " dns) ++
          (if search.isEmpty then [] else jsonList "      search: " search))
      (.entries (ofNameservers dns search)) := by
  have isNameservers : IsKey "nameservers".toList := by decide
  have addresses : Writes 1 6 (if dns.isEmpty then [] else jsonList "      addresses: " dns)
      (.entries (ofList "addresses" dns)) := writes_list (by decide) rfl dns
  have domains : Writes 1 6 (if search.isEmpty then [] else jsonList "      search: " search)
      (.entries (ofList "search" search)) := writes_list (by decide) rfl search
  have both := addresses.append domains
  rw [ofNameservers]
  cases dns with
  | nil =>
      cases search with
      | nil => exact .nothing
      | cons domain search =>
          exact both.map.under isNameservers (show 4 < 6 by decide) rfl
  | cons address dns =>
      rw [List.append_assoc]
      exact both.map.under isNameservers (show 4 < 6 by decide) rfl

theorem writes_nic (network : VirtCiNetwork) (index : Nat) :
    Writes 3 2 (networkEntry index network)
      (.entries [("nic".toList ++ Text.decimal index, .map (nicEntries network))]) := by
  have isMatch : IsKey "match".toList := by decide
  have mac : Writes 1 6 (jsonLine "      macaddress: " (asciiLowercase network.mac))
      (.entries [("macaddress".toList, .str (asciiLowercase network.mac))]) :=
    .jsonEntry (by decide) rfl _
  have matched := mac.map.under isMatch (show 4 < 6 by decide)
    (show "    match:\n".toList = _ from rfl)
  have whole := (matched.append ((writes_ipv4 network.ipv4).append
    (writes_nameservers network.dns network.search))).map.under (isKey_nic index)
      (show 2 < 4 by decide)
      (show "  nic".toList ++ Text.decimal index ++ ":\n".toList = _ from rfl)
  unfold networkEntry
  simp only [List.append_assoc] at whole ⊢
  exact whole

theorem writes_nics (nics : List (VirtCiNetwork × Nat)) :
    Writes 3 2 (nics.flatMap fun (network, index) => networkEntry index network)
      (.entries (nicsEntries nics)) := by
  induction nics with
  | nil => exact .nothing
  | cons nic nics inductionHypothesis =>
      exact (writes_nic nic.1 nic.2).append inductionHypothesis

/-- The network configuration is read as what it says. -/
theorem yaml_networkConfig {ci : VirtCloudInit} {text : Text}
    (isText : ci.networkConfig = some text) :
    yaml text = .map [("version".toList, .str "2".toList),
      ("ethernets".toList, .map (nicsEntries ci.networks.zipIdx))] := by
  rw [networkConfig, Option.map_eq_some_iff] at isText
  obtain ⟨first, isFirst, rfl⟩ := isText
  have isEthernets : IsKey "ethernets".toList := by decide
  have version : Writes 4 0 "version: 2\n".toList
      (.entries [("version".toList, .str "2".toList)]) := .wordEntry (by decide) isValue_two rfl
  have nics := writes_nics ci.networks.zipIdx
  rw [networks, isFirst] at nics ⊢
  have whole := (version.append (nics.map.under isEthernets (show 0 < 2 by decide)
    (show "ethernets:\n".toList = _ from rfl))).map.yaml_eq (by decide)
  exact whole

end ServerBox.Virt
