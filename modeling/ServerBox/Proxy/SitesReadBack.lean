import Mathlib.Data.List.Forall2
import ServerBox.Proxy.Sites

/-!
# Sites read back from a proxy's file

A site is read from its own JSON as it was written, and from a line that is its comment;
from any other line of the file none is. No line holds a line end of its own, whatever the
site's values.
-/

namespace ServerBox.Proxy

open ServerBox.Std
open ServerBox.Std.JsonText (Node)

/-! ### A site from its JSON -/

/-- The members that a site is written as. -/
def Site.nodes (site : Site) : List (Text × Node) :=
  [("name".toList, Node.string site.name),
    ("domains".toList, Node.array (site.domains.map Node.string)),
    ("upstream".toList, Node.string site.upstream),
    ("tls".toList, Node.bool site.tls)] ++
    optional "cert" (site.cert.map Node.string) ++
    optional "key" (site.key.map Node.string) ++
    optional "maxBodyMb" (site.maxBodyMb.map fun size => Node.number (Text.decimal size)) ++
    optional "waf" (if site.waf then some (Node.bool true) else none) ++
    [("managed".toList, Node.bool site.managed)]

theorem reads_optional (name : String) {Value : Type} {value : Option Value}
    {write : Value → Text} {node : Value → Node}
    (reads : ∀ value, JsonText.Reads (write value) (node value)) :
    List.Forall₂ JsonText.ReadsEntry (optional name (value.map write))
      (optional name (value.map node)) := by
  cases value with
  | none => exact .nil
  | some value => exact .cons ⟨rfl, reads value⟩ .nil

theorem reads_toText (site : Site) : JsonText.Reads site.toText (.object site.nodes) := by
  refine JsonText.reads_object ?_
  have strings : List.Forall₂ JsonText.Reads (site.domains.map JsonText.string)
      (site.domains.map .string) := by
    rw [List.forall₂_map_left_iff, List.forall₂_map_right_iff]
    exact List.forall₂_same.mpr fun domain _ => JsonText.reads_string domain
  have waf : List.Forall₂ JsonText.ReadsEntry
      (optional "waf" (if site.waf then some (JsonText.bool true) else none))
      (optional "waf" (if site.waf then some (.bool true) else none)) := by
    cases site.waf with
    | false => exact .nil
    | true => exact .cons ⟨rfl, JsonText.reads_bool true⟩ .nil
  refine List.rel_append (List.rel_append (List.rel_append (List.rel_append (List.rel_append ?_
    (reads_optional "cert" JsonText.reads_string))
    (reads_optional "key" JsonText.reads_string))
    (reads_optional "maxBodyMb" JsonText.reads_number)) waf)
    (.cons ⟨rfl, JsonText.reads_bool _⟩ .nil)
  exact .cons ⟨rfl, JsonText.reads_string _⟩ (.cons ⟨rfl, JsonText.reads_array strings⟩
    (.cons ⟨rfl, JsonText.reads_string _⟩ (.cons ⟨rfl, JsonText.reads_bool _⟩ .nil)))

theorem filter_optional {Value : Type} (target name : String) (value : Option Value) :
    (optional name value).filter (fun member => target.toList = member.1) =
      if target = name then optional name value else [] := by
  cases value with
  | none =>
      split <;> rfl
  | some value =>
      by_cases same : target = name
      · simp [optional, same]
      · simp [optional, same, String.toList_inj]

theorem mapM_readText (texts : List Text) :
    (texts.map Node.string).mapM readText = some texts := by
  induction texts with
  | nil => rfl
  | cons text texts inductionHypothesis =>
      rw [List.map_cons, List.mapM_cons, inductionHypothesis]
      rfl

theorem readNumber_decimal {size : Nat} (bounded : size < 2 ^ 32) :
    readNumber (.number (Text.decimal size)) = some size := by
  have digits : (Text.decimal size).all Char.isDigit = true :=
    List.all_eq_true.mpr fun _ => Text.isDigit_of_mem_decimal
  rw [readNumber, digits, Text.digitsValue_decimal, Bool.true_and,
    if_pos (decide_eq_true bounded)]

theorem given_nodes (site : Site) (place : Nat) :
    given site.nodes place =
      let name := fieldNames.getD place ""
      (if name = "name" then [("name".toList, Node.string site.name)] else []) ++
      (if name = "domains" then
        [("domains".toList, Node.array (site.domains.map Node.string))]
      else []) ++
      (if name = "upstream" then [("upstream".toList, Node.string site.upstream)] else []) ++
      (if name = "tls" then [("tls".toList, Node.bool site.tls)] else []) ++
      (if name = "cert" then optional "cert" (site.cert.map Node.string) else []) ++
      (if name = "key" then optional "key" (site.key.map Node.string) else []) ++
      (if name = "maxBodyMb" then
        optional "maxBodyMb" (site.maxBodyMb.map fun size => Node.number (Text.decimal size))
      else []) ++
      (if name = "waf" then
        optional "waf" (if site.waf then some (Node.bool true) else none)
      else []) ++
      (if name = "managed" then [("managed".toList, Node.bool site.managed)] else []) := by
  have one : ∀ (name target : String) (node : Node),
      [(name.toList, node)].filter (fun member => target.toList = member.1) =
        if target = name then [(name.toList, node)] else [] :=
    fun name target node => filter_optional target name (some node)
  have spread : ∀ (first second third fourth : Text × Node),
      [first, second, third, fourth] = [first] ++ [second] ++ [third] ++ [fourth] :=
    fun _ _ _ _ => rfl
  simp only [given, Site.nodes, spread, List.filter_append, one, filter_optional]

theorem ofNode_nodes {site : Site} (bounded : ∀ size ∈ site.maxBodyMb, size < 2 ^ 32) :
    Site.ofNode (.object site.nodes) = some site := by
  have name : given site.nodes 0 = [("name".toList, .string site.name)] := by
    simp [given_nodes, fieldNames]
  have domains : given site.nodes 1 = [("domains".toList, .array (site.domains.map .string))] := by
    simp [given_nodes, fieldNames]
  have upstream : given site.nodes 2 = [("upstream".toList, .string site.upstream)] := by
    simp [given_nodes, fieldNames]
  have tls : given site.nodes 3 = [("tls".toList, .bool site.tls)] := by
    simp [given_nodes, fieldNames]
  have cert : given site.nodes 4 = optional "cert" (site.cert.map .string) := by
    simp [given_nodes, fieldNames]
  have key : given site.nodes 5 = optional "key" (site.key.map .string) := by
    simp [given_nodes, fieldNames]
  have maxBodyMb : given site.nodes 6 =
      optional "maxBodyMb" (site.maxBodyMb.map fun size => .number (Text.decimal size)) := by
    simp [given_nodes, fieldNames]
  have waf : given site.nodes 7 =
      optional "waf" (if site.waf then some (.bool true) else none) := by
    simp [given_nodes, fieldNames]
  have managed : given site.nodes 8 = [("managed".toList, .bool site.managed)] := by
    simp [given_nodes, fieldNames]
  have once : ∀ {Value : Type} (name : String) (value : Option Value),
      (optional name value).length ≤ 1 := by
    intro Value name value
    cases value with
    | none => exact Nat.zero_le 1
    | some value => exact Nat.le_refl 1
  have only : (List.range fieldNames.length).all
      (fun place => (given site.nodes place).length ≤ 1) = true := by
    rw [List.all_eq_true]
    intro place held
    rw [decide_eq_true_eq]
    have below : place < 9 := List.mem_range.mp held
    match place, below with
    | 0, _ => rw [name]; exact Nat.le_refl 1
    | 1, _ => rw [domains]; exact Nat.le_refl 1
    | 2, _ => rw [upstream]; exact Nat.le_refl 1
    | 3, _ => rw [tls]; exact Nat.le_refl 1
    | 4, _ => rw [cert]; exact once _ _
    | 5, _ => rw [key]; exact once _ _
    | 6, _ => rw [maxBodyMb]; exact once _ _
    | 7, _ => rw [waf]; exact once _ _
    | 8, _ => rw [managed]; exact Nat.le_refl 1
  have head : ∀ {Value : Type} (name : String) (value : Option Value),
      (optional name value).head?.map Prod.snd = value := by
    intro Value name value
    cases value <;> rfl
  have path : ∀ value : Option Text,
      readOr (readOption readText) none (value.map .string) = some value := by
    intro value
    cases value <;> rfl
  have size : readOr (readOption readNumber) none
      (site.maxBodyMb.map fun size => .number (Text.decimal size)) = some site.maxBodyMb := by
    cases shape : site.maxBodyMb with
    | none => rfl
    | some size =>
        rw [Option.map_some, readOr, readOption, readNumber_decimal (bounded size shape)]
        · rfl
        · nofun
  have firewall : readOr readBool false (if site.waf then some (.bool true) else none) =
      some site.waf := by
    cases site.waf <;> rfl
  have flag : ∀ value : Bool, readOr readBool false (some (.bool value)) = some value :=
    fun _ => rfl
  rw [Site.ofNode, if_pos only]
  simp only [Site.ofFields, name, domains, upstream, tls, cert, key, maxBodyMb, waf, managed, head,
    List.head?_cons, Option.map_some, Option.bind_some, Option.bind_eq_bind, readText, readTexts,
    mapM_readText, path, size, firewall, flag]

theorem ofText_toText {site : Site} (bounded : ∀ size ∈ site.maxBodyMb, size < 2 ^ 32) :
    Site.ofText site.toText = some site := by
  rw [Site.ofText, (reads_toText site).fromStr, Option.bind_some, ofNode_nodes bounded]

/-! ### What a site's JSON holds -/

def Site.texts (site : Site) : List Text :=
  site.name :: site.upstream :: (site.domains ++ (site.cert.toList ++ site.key.toList))

theorem mem_optional {Value : Type} {name : String} {value : Option Value} {member : Text × Value}
    (held : member ∈ optional name value) : member.1 = name.toList ∧ value = some member.2 := by
  cases value with
  | none => cases held
  | some value =>
      obtain rfl := List.mem_singleton.mp held
      exact ⟨rfl, rfl⟩

theorem visible_of_mem_name {name : String} (known : name ∈ fieldNames) {char : Char}
    (held : char ∈ name.toList) : JsonText.Visible char := by
  have all : ∀ name ∈ fieldNames, ∀ char ∈ name.toList,
      0x20 ≤ char.toNat ∧ char.toNat < 0x7F := by
    decide +kernel
  exact all name known char held

theorem visible_of_isDigit {char : Char} (digit : char.isDigit = true) :
    JsonText.Visible char := by
  simp only [Char.isDigit, Bool.and_eq_true, decide_eq_true_eq] at digit
  have above : 48 ≤ char.toNat := UInt32.le_iff_toNat_le.mp digit.1
  have below : char.toNat ≤ 57 := UInt32.le_iff_toNat_le.mp digit.2
  exact ⟨by omega, by omega⟩

/-- A character of a site's JSON is visible, or one of the site's own. -/
theorem mem_toText {site : Site} {char : Char} (held : char ∈ site.toText) :
    JsonText.Visible char ∨ 0x20 ≤ char.toNat ∧ ∃ text ∈ site.texts, char ∈ text := by
  have own : ∀ text ∈ site.texts, char ∈ JsonText.string text →
      JsonText.Visible char ∨ 0x20 ≤ char.toNat ∧ ∃ text ∈ site.texts, char ∈ text :=
    fun text isOwn inString => (JsonText.mem_string inString).imp_right
      fun ⟨inText, above⟩ => ⟨above, text, isOwn, inText⟩
  have flag : ∀ value, char ∈ JsonText.bool value → JsonText.Visible char := by
    have all : ∀ value, ∀ char ∈ JsonText.bool value, 0x20 ≤ char.toNat ∧ char.toNat < 0x7F := by
      decide
    exact fun value inBool => all value char inBool
  rcases JsonText.mem_object held with visible | ⟨member, inMembers, inMember⟩
  · exact .inl visible
  have named : ∃ name ∈ fieldNames, member.1 = name.toList ∧ (char ∈ member.2 →
      JsonText.Visible char ∨ 0x20 ≤ char.toNat ∧ ∃ text ∈ site.texts, char ∈ text) := by
    simp only [List.mem_append, List.mem_cons, List.not_mem_nil, or_false] at inMembers
    rcases inMembers with
      ((((((rfl | rfl | rfl | rfl) | path) | path) | size) | waf) | rfl)
    · exact ⟨"name", by decide, rfl, own _ (by simp [Site.texts])⟩
    · refine ⟨"domains", by decide, rfl, fun inArray => ?_⟩
      rcases JsonText.mem_array inArray with visible | ⟨item, inItems, inItem⟩
      · exact .inl visible
      · obtain ⟨domain, inDomains, rfl⟩ := List.mem_map.mp inItems
        exact own domain (by simp [Site.texts, inDomains]) inItem
    · exact ⟨"upstream", by decide, rfl, own _ (by simp [Site.texts])⟩
    · exact ⟨"tls", by decide, rfl, fun inBool => .inl (flag _ inBool)⟩
    · obtain ⟨same, some⟩ := mem_optional path
      obtain ⟨text, cert, wrote⟩ := Option.map_eq_some_iff.mp some
      exact ⟨"cert", by decide, same, fun inText => own text (by simp [Site.texts, cert])
        (wrote ▸ inText)⟩
    · obtain ⟨same, some⟩ := mem_optional path
      obtain ⟨text, key, wrote⟩ := Option.map_eq_some_iff.mp some
      exact ⟨"key", by decide, same, fun inText => own text (by simp [Site.texts, key])
        (wrote ▸ inText)⟩
    · obtain ⟨same, some⟩ := mem_optional size
      obtain ⟨number, -, wrote⟩ := Option.map_eq_some_iff.mp some
      refine ⟨"maxBodyMb", by decide, same, fun inText => .inl ?_⟩
      exact visible_of_isDigit (Text.isDigit_of_mem_decimal (wrote ▸ inText))
    · obtain ⟨same, some⟩ := mem_optional waf
      refine ⟨"waf", by decide, same, fun inText => .inl ?_⟩
      split at some
      · exact flag true (Option.some.inj some ▸ inText)
      · cases some
    · exact ⟨"managed", by decide, rfl, fun inBool => .inl (flag _ inBool)⟩
  obtain ⟨name, known, same, inValue⟩ := named
  rcases inMember with inName | inText
  · exact .inl (visible_of_mem_name known (same ▸ inName))
  · exact inValue inText

theorem mem_toText_of_path {site : Site} {path : Option Text}
    (isPath : path = site.cert ∨ path = site.key) {text : Text} (given : text ∈ path) {char : Char} (held : char ∈ text)
    (other : 0x7F ≤ char.toNat) : char ∈ site.toText := by
  have inString := JsonText.mem_string_of_mem held other
  rcases isPath with rfl | rfl
  · refine @JsonText.mem_object_of_mem _ ("cert".toList, JsonText.string text) _ ?_ inString
    simp [optional, Option.mem_def.mp given]
  · refine @JsonText.mem_object_of_mem _ ("key".toList, JsonText.string text) _ ?_ inString
    simp [optional, Option.mem_def.mp given]

/-! ### The lines of a file -/

/-- A line whose first character other than a space is one, and not a comment's. -/
def startsVisible (line : Text) : Bool :=
  match line.dropWhile (· = ' ') with
  | char :: _ => char ≠ '#' && !Text.isWhitespace char
  | [] => false

theorem startsVisible_append {front : Text} (visible : startsVisible front = true) (back : Text) :
    startsVisible (front ++ back) = true := by
  unfold startsVisible at visible
  split at visible
  next char rest dropped =>
    have whole : (front ++ back).dropWhile (· = ' ') = char :: (rest ++ back) := by
      rw [List.dropWhile_append, dropped]
      rfl
    rw [startsVisible, whole]
    exact visible
  next => cases visible

theorem toList_metaStart : metaStart.toList =
    ['#', ' ', 's', 'e', 'r', 'v', 'e', 'r', 'b', 'o', 'x', ':'] := by
  simp [metaStart]

/-- No site is read from it. -/
theorem siteOf_visible {line : Text} (visible : startsVisible line = true) :
    siteOf line = none := by
  have spaces : ∀ text : Text, Text.trimStart text =
      Text.trimStart (text.dropWhile (· = ' ')) := by
    intro text
    induction text with
    | nil => rfl
    | cons char text inductionHypothesis =>
        by_cases space : char = ' '
        · subst space
          rw [List.dropWhile_cons_of_pos (by decide), ← inductionHypothesis, Text.trimStart,
            List.dropWhile_cons_of_pos (by decide)]
          rfl
        · rw [List.dropWhile_cons_of_neg (by simpa using space)]
  unfold startsVisible at visible
  split at visible
  next char rest dropped =>
    simp only [Bool.and_eq_true, decide_eq_true_eq, Bool.not_eq_true'] at visible
    obtain ⟨notComment, solid⟩ := visible
    have trimmed : ∃ after, Text.trim line = char :: after := by
      refine ⟨Text.trimEnd rest, ?_⟩
      rw [Text.trim, spaces, dropped, Text.trimStart, List.dropWhile_cons_of_neg (by simp [solid])]
      exact Text.trimEnd_append_cons [] rest solid
    obtain ⟨after, trimmed⟩ := trimmed
    have other : Text.stripPrefix metaStart (Text.trim line) = none := by
      rw [trimmed, Text.stripPrefix, toList_metaStart, if_neg]
      simp [List.isPrefixOf, Ne.symm notComment]
    rw [siteOf, other]
    rfl
  next => cases visible

theorem trimStart_blanks {front : Text} (blanks : ∀ char ∈ front, Text.isWhitespace char = true) :
    Text.trimStart front = [] := by
  rw [Text.trimStart, List.dropWhile_eq_nil_iff]
  exact blanks

/-- What a text trims to when it begins and ends with characters that stay. -/
theorem trim_between {front middle : Text} {first last : Char}
    (blanks : ∀ char ∈ front, Text.isWhitespace char = true)
    (begins : Text.isWhitespace first = false) (ends : Text.isWhitespace last = false) :
    Text.trim (front ++ first :: (middle ++ [last])) = first :: (middle ++ [last]) := by
  have back : Text.trimEnd (middle ++ [last]) = middle ++ [last] :=
    Text.trimEnd_append_cons middle [] ends
  rw [Text.trim_append_cons front _ begins, trimStart_blanks blanks, back, List.nil_append]

/-- A site's comment holds the site, however far it is indented. -/
theorem siteOf_note {site : Site} (bounded : ∀ size ∈ site.maxBodyMb, size < 2 ^ 32) {front : Text}
    (blanks : ∀ char ∈ front, Text.isWhitespace char = true) :
    siteOf (front ++ note site) = some { site with managed := true } := by
  obtain ⟨body, shape⟩ : ∃ body, { site with managed := false }.toText = '{' :: (body ++ ['}']) :=
    ⟨_, rfl⟩
  obtain ⟨start, starts⟩ : ∃ start, metaStart.toList = '#' :: start :=
    ⟨_, toList_metaStart⟩
  have noteShape : front ++ note site = front ++ '#' :: ((start ++ ' ' :: '{' :: body) ++ ['}']) := by
    simp [note, shape, starts]
  have trimmed : Text.trim (front ++ note site) =
      metaStart.toList ++ ' ' :: { site with managed := false }.toText := by
    rw [noteShape, trim_between blanks (by decide) (by decide), starts, shape]
    simp
  have json : Text.trim (' ' :: { site with managed := false }.toText) =
      { site with managed := false }.toText := by
    rw [shape]
    exact @trim_between [' '] body '{' '}' (by decide) (by decide) (by decide)
  rw [siteOf, trimmed, Text.stripPrefix_append]
  have read := @ofText_toText { site with managed := false } bounded
  simp only [Option.bind_eq_bind, Option.bind_some, json, read]

theorem siteOf_title : siteOf title = none :=
  @Text.of_literal (fun text => siteOf text = none) _ (by decide +kernel)

/-- A line that holds no line end of its own. -/
def OneLine (line : Text) : Prop := ∀ char ∈ line, char ≠ '\n' ∧ char ≠ '\r'

instance (line : Text) : Decidable (OneLine line) :=
  inferInstanceAs (Decidable (∀ char ∈ line, char ≠ '\n' ∧ char ≠ '\r'))

theorem lines_unlines {lines : List Text} (oneLine : ∀ line ∈ lines, OneLine line) :
    Text.lines (unlines lines) = lines := by
  induction lines with
  | nil => rfl
  | cons line lines inductionHypothesis =>
      obtain ⟨first, later⟩ := List.forall_mem_cons.mp oneLine
      rw [unlines, List.flatMap_cons, List.append_assoc, List.singleton_append,
        Text.lines_append fun held => (first _ held).1 rfl,
        Text.withoutReturn_eq_self fun last => (first _ (List.mem_of_getLast? last)).2 rfl]
      rw [← unlines, inductionHypothesis later]

theorem managedSites_unlines {lines : List Text} (oneLine : ∀ line ∈ lines, OneLine line) :
    managedSites (unlines lines) = lines.filterMap siteOf := by
  rw [managedSites, lines_unlines oneLine]

theorem oneLine_append {front back : Text} (first : OneLine front) (second : OneLine back) :
    OneLine (front ++ back) :=
  fun char held => (List.mem_append.mp held).elim (first char) (second char)

/-! ### What is checked of a site -/

/-- The characters of a domain, and of a port after its colon. -/
def isDomainChar (char : Char) : Bool := isNameChar char || char ∈ ['.', '*', ':', '+']

/-- What a site that is written was checked for. -/
structure Checked (server : Server) (site : Site) : Prop where
  name : site.name ≠ [] ∧ ∀ char ∈ site.name, isNameChar char = true
  domains : site.domains ≠ []
  domain : ∀ domain ∈ site.domains, domain ≠ [] ∧ ∀ char ∈ domain, isDomainChar char = true
  upstream : site.upstream ≠ [] ∧ ∀ char ∈ site.upstream, isSafe char = true
  path : server = .nginx → site.tls = true → ∀ path, path = site.cert ∨ path = site.key →
    path.getD [] ≠ [] ∧ ∀ char ∈ path.getD [], isSafe char = true
  size : ∀ size ∈ site.maxBodyMb, size ≤ 100000

theorem of_safe {text : Text} (isSafe : safe text = true) :
    text ≠ [] ∧ ∀ char ∈ text, Proxy.isSafe char = true := by
  simp only [safe, Bool.and_eq_true, Bool.not_eq_true', List.isEmpty_eq_false_iff,
    List.all_eq_true] at isSafe
  exact ⟨isSafe.1.1, isSafe.2⟩

theorem ne_nil_of_byteLength {text : Text} (some : 1 ≤ byteLength text) : text ≠ [] := by
  rintro rfl
  exact absurd some (by decide)

theorem of_domainOk {server : Server} {domain : Text} (ok : domainOk domain server = true) :
    domain ≠ [] ∧ ∀ char ∈ domain, isDomainChar char = true := by
  have digits : ∀ {char : Char}, char.isDigit = true → isDomainChar char = true := by
    intro char digit
    simp [isDomainChar, isNameChar, digit]
  unfold domainOk at ok
  split at ok
  next isPort =>
    simp only [Bool.and_eq_true, decide_eq_true_eq] at isPort
    split at ok
    next port parsed =>
      cases domain with
      | nil => exact absurd isPort.2 (by simp)
      | cons first rest =>
          obtain rfl : first = ':' := Option.some.inj isPort.2
          refine ⟨List.cons_ne_nil _ _, fun char held => ?_⟩
          rcases List.mem_cons.mp held with rfl | later
          · decide
          obtain ⟨number, shape, -, digit, -, -⟩ := Text.of_parseUnsigned parsed
          rcases shape with rfl | rest
          · exact digits (digit char later)
          · have inRest : char ∈ '+' :: number := rest ▸ later
            rcases List.mem_cons.mp inRest with rfl | inNumber
            · decide
            · exact digits (digit char inNumber)
    next => cases ok
  next =>
    simp only [Bool.and_eq_true, decide_eq_true_eq, List.all_eq_true] at ok
    obtain ⟨⟨⟨some, -⟩, -⟩, chars⟩ := ok
    have hostChars : ∀ {host : Text}, (∀ char ∈ host, (isNameChar char || char = '.') = true) →
        ∀ char ∈ host, isDomainChar char = true := by
      intro host chars char held
      have known := chars char held
      simp only [Bool.or_eq_true, decide_eq_true_eq] at known
      rcases known with isName | rfl
      · simp [isDomainChar, isName]
      · decide
    cases stripped : Text.stripPrefix "*." domain with
    | none =>
        rw [stripped] at some chars
        exact ⟨ne_nil_of_byteLength some, hostChars chars⟩
    | some host =>
        rw [stripped] at chars
        have whole := Text.of_stripPrefix stripped
        have star : "*.".toList = ['*', '.'] := by simp
        rw [star] at whole
        rw [whole]
        refine ⟨List.cons_ne_nil _ _, fun char held => ?_⟩
        rcases List.mem_cons.mp held with rfl | held
        · decide
        rcases List.mem_cons.mp held with rfl | held
        · decide
        · exact hostChars chars char held

theorem checked_of_checkSite {server : Server} {site : Site}
    (ok : checkSite site server = .ok ()) : Checked server site := by
  unfold checkSite at ok
  split at ok
  next => cases ok
  next nameOk =>
  split at ok
  next => cases ok
  next domainsOk =>
  split at ok
  next => cases ok
  next upstreamOk =>
  split at ok
  next => cases ok
  next pathsOk =>
  split at ok
  next => cases ok
  next sizeOk =>
  simp only [Bool.or_eq_true, Bool.not_eq_true', not_or, Bool.not_eq_false, Bool.and_eq_true,
    decide_eq_true_eq, List.all_eq_true, List.isEmpty_iff] at nameOk domainsOk
  simp only [Bool.not_eq_true', Bool.not_eq_false, Proxy.upstreamOk, Bool.and_eq_true]
    at upstreamOk
  refine ⟨⟨ne_nil_of_byteLength nameOk.1.1, nameOk.2⟩, domainsOk.1.1,
    fun domain held => of_domainOk (domainsOk.2 domain held), of_safe upstreamOk.1.1, ?_, ?_⟩
  · intro isNginx tls path isPath
    have ok : pathOk path = true := by
      simp only [isNginx, tls, decide_true, Bool.and_self, Bool.true_and, Bool.or_eq_true,
        Bool.not_eq_true', not_or, Bool.not_eq_false] at pathsOk
      rcases isPath with rfl | rfl
      · exact pathsOk.1
      · exact pathsOk.2
    cases path with
    | none => cases ok
    | some path =>
        simp only [pathOk, Bool.and_eq_true] at ok
        exact of_safe ok.1.2
  · intro size given
    rw [Option.mem_def.mp given] at sizeOk
    simp only [Option.any_some, Bool.or_eq_true, decide_eq_true_eq, not_or] at sizeOk
    omega

theorem checked_of_checkSites {server : Server} {tlsResolver : Bool} {names : List Text}
    {sites : List Site} (ok : checkSites server tlsResolver names sites = .ok ()) :
    ∀ site ∈ sites, Checked server site := by
  induction sites generalizing names with
  | nil => nofun
  | cons site sites inductionHypothesis =>
      unfold checkSites at ok
      split at ok
      next => cases ok
      next checked =>
      split at ok
      next => cases ok
      next =>
      split at ok
      next => cases ok
      next =>
      exact List.forall_mem_cons.mpr ⟨checked_of_checkSite checked, inductionHypothesis ok⟩

/-- What is rendered was checked, and is the title and the blocks. -/
theorem of_render {server : Server} {sites : List Site} {tlsResolver : Bool} {file : Text}
    (rendered : render server sites tlsResolver = .ok file) :
    (∀ site ∈ sites, Checked server site) ∧ file = unlines (title :: blocks server note sites) := by
  unfold render at rendered
  cases checks : checkSites server tlsResolver [] sites with
  | error error =>
      rw [checks] at rendered
      cases rendered
  | ok =>
      rw [checks] at rendered
      exact ⟨checked_of_checkSites checks, (Except.ok.inj rendered).symm⟩

end ServerBox.Proxy
