import ServerBox.Proxy.SitesLines

/-!
# A proxy's file holds its sites

What `render` writes is read back as the sites it was given. Read as the server reads it,
comments removed, the file is a block for each site and nothing more, where each value of the
site is one word or one quoted string. In Traefik's YAML a comment also ends at characters that
JSON leaves as they are, and a path that is not checked for Traefik can hold one:
`holdsSites_iff` is when none does.
-/

namespace ServerBox.Proxy

open ServerBox.Std

/-- The file holds the sites and nothing else. -/
structure HoldsSites (server : Server) (sites : List Site) (file : Text) : Prop where
  /-- They are read back from it. -/
  readBack : managedSites file = sites.map fun site => { site with managed := true }
  /-- Without its comments it is a block for each. -/
  uncommented : server.lexis.uncomment file = unlines ([] :: blocks server (fun _ => []) sites)
  /-- In which each value is a word or a quoted string. -/
  tokens : server.lexis.tokens file = some (fileTokens server sites).flatten

/-- A path in which nothing ends a comment of YAML's: the breaks that JSON does not escape. -/
def Unbroken (path : Option Text) : Prop :=
  ∀ text ∈ path, ∀ char ∈ text, char.toNat ≠ 0x85 ∧ char.toNat ≠ 0x2028 ∧ char.toNat ≠ 0x2029

/-! ### The reading of a file -/

/-- Lines that are read as others, from the start of a line to the start of one. -/
def ReadsAs (lexis : Lexis) (lines kept : List Text) (tokens : List Token) : Prop :=
  lexis.read (.start 0) (unlines lines) = ⟨.start 0, unlines kept, tokens⟩

theorem readsAs_nil (lexis : Lexis) : ReadsAs lexis [] [] [] := rfl

theorem unlines_append (first second : List Text) :
    unlines (first ++ second) = unlines first ++ unlines second := List.flatMap_append

theorem ReadsAs.append {lexis : Lexis} {lines linesToo kept keptToo : List Text}
    {tokens tokensToo : List Token} (first : ReadsAs lexis lines kept tokens)
    (second : ReadsAs lexis linesToo keptToo tokensToo) :
    ReadsAs lexis (lines ++ linesToo) (kept ++ keptToo) (tokens ++ tokensToo) := by
  rw [ReadsAs, unlines_append, unlines_append]
  exact Lexis.read_append_eq first second

theorem ReadsAs.of_lines {lexis : Lexis} {lines : List Text} {tokens : List (List Token)}
    (reads : List.Forall₂ (Line lexis) lines tokens) :
    ReadsAs lexis lines lines tokens.flatten := by
  induction reads with
  | nil => exact readsAs_nil lexis
  | @cons line tokens lines more read _ inductionHypothesis =>
      have one : ReadsAs lexis [line] [line] tokens := by
        rw [ReadsAs, unlines, List.flatMap_singleton]
        exact read.reads
      exact one.append inductionHypothesis

theorem ReadsAs.flatMap {lexis : Lexis} {sites : List Site} {lines kept : Site → List Text}
    {tokens : Site → List Token}
    (each : ∀ site ∈ sites, ReadsAs lexis (lines site) (kept site) (tokens site)) :
    ReadsAs lexis (sites.flatMap lines) (sites.flatMap kept) (sites.flatMap tokens) := by
  induction sites with
  | nil => exact readsAs_nil lexis
  | cons site sites inductionHypothesis =>
      obtain ⟨first, later⟩ := List.forall_mem_cons.mp each
      exact first.append (inductionHypothesis later)

/-- A comment after a front of blanks leaves the blanks. -/
theorem readsAs_comment {lexis : Lexis} {front comment : Text} {indent : Nat}
    (blanks : lexis.read (.start 0) front = ⟨.start indent, front, []⟩)
    (begins : lexis.step (.start indent) '#' = (.comment, []))
    (unbroken : ∀ char ∈ comment, lexis.isBreak char = false)
    (newline : lexis.isBreak '\n' = true) :
    ReadsAs lexis [front ++ '#' :: comment] [front] [] := by
  have last : lexis.read (.start indent) ('#' :: (comment ++ ['\n'])) = ⟨.start 0, ['\n'], []⟩ := by
    have ends : lexis.read .comment ['\n'] = ⟨.start 0, ['\n'], []⟩ := by
      simp [Lexis.read, Lexis.step, newline]
    rw [Lexis.read, begins]
    simp only [Lexis.read_append_eq (Lexis.read_comment unbroken) ends]
    rfl
  have whole : front ++ '#' :: comment ++ ['\n'] = front ++ '#' :: (comment ++ ['\n']) := by
    simp
  rw [ReadsAs, unlines, List.flatMap_singleton, unlines, List.flatMap_singleton, whole]
  exact Lexis.read_append_eq blanks last

theorem not_isYamlBreak_of_visible {char : Char} (visible : JsonText.Visible char) :
    isYamlBreak char = false := by
  rw [isYamlBreak, decide_eq_false_iff_not]
  simp only [List.mem_cons, List.not_mem_nil, or_false, not_or]
  obtain ⟨above, below⟩ := visible
  refine ⟨?_, ?_, ?_, ?_, ?_⟩
  · rintro rfl
    exact absurd above (by decide)
  · rintro rfl
    exact absurd above (by decide)
  · rintro rfl
    exact absurd below (by decide)
  · rintro rfl
    exact absurd below (by decide)
  · rintro rfl
    exact absurd below (by decide)

theorem note_shape (site : Site) : ∃ comment, note site = '#' :: comment ∧
    ∀ char ∈ comment, JsonText.Visible char ∨ char ∈ { site with managed := false }.toText := by
  refine ⟨_, by rw [note, toList_metaStart]; rfl, fun char held => ?_⟩
  rcases List.mem_append.mp held with start | rest
  · exact .inl (by
      have all : ∀ char ∈ [' ', 's', 'e', 'r', 'v', 'e', 'r', 'b', 'o', 'x', ':'],
          0x20 ≤ char.toNat ∧ char.toNat < 0x7F := by decide
      exact all char start)
  · rcases List.mem_cons.mp rest with rfl | inText
    · exact .inl ⟨by decide, by decide⟩
    · exact .inr inText

/-- A line of a site's file: no server but Traefik breaks its comment. -/
theorem newline_not_mem_toText (site : Site) : ∀ char ∈ site.toText, 0x20 ≤ char.toNat :=
  fun _ held => (mem_toText held).elim (fun visible => visible.1) fun found => found.1

/-- Where Traefik would break a site's JSON. -/
theorem isYamlBreak_toText {site : Site} (checked : Checked .traefik site)
    (unbroken : Unbroken site.cert ∧ Unbroken site.key) :
    ∀ char ∈ site.toText, isYamlBreak char = false := by
  intro char held
  rcases mem_toText held with visible | ⟨above, text, isOwn, inText⟩
  · exact not_isYamlBreak_of_visible visible
  have path : ∀ path, Unbroken path → text ∈ path → isYamlBreak char = false := by
    intro path unbroken given
    obtain ⟨notNext, notLine, notParagraph⟩ := unbroken text given char inText
    rw [isYamlBreak, decide_eq_false_iff_not]
    simp only [List.mem_cons, List.not_mem_nil, or_false, not_or]
    refine ⟨?_, ?_, ?_, ?_, ?_⟩
    · rintro rfl
      exact absurd above (by decide)
    · rintro rfl
      exact absurd above (by decide)
    · rintro rfl
      exact notNext (by decide)
    · rintro rfl
      exact notLine (by decide)
    · rintro rfl
      exact notParagraph (by decide)
  simp only [Site.texts, List.mem_cons, List.mem_append, Option.mem_toList] at isOwn
  rcases isOwn with rfl | rfl | inDomains | isCert | isKey
  · exact whole_of_isSafe (fun char inName => isSafe_of_isDomainChar
      (isDomainChar_of_isNameChar (checked.name.2 char inName))) char inText
  · exact whole_of_isSafe checked.upstream.2 char inText
  · exact whole_of_isSafe (fun char inDomain =>
      isSafe_of_isDomainChar ((checked.domain text inDomains).2 char inDomain)) char inText
  · exact path _ unbroken.1 isCert
  · exact path _ unbroken.2 isKey

/-- The comment before a site is read as nothing. -/
theorem readsAs_note {server : Server} {site : Site} (checked : Checked server site)
    (unbroken : server = .traefik → Unbroken site.cert ∧ Unbroken site.key) (front : Text)
    {indent : Nat} (blanks : server.lexis.read (.start 0) front = ⟨.start indent, front, []⟩) :
    ReadsAs server.lexis [front ++ note site] [front] [] := by
  obtain ⟨comment, shape, chars⟩ := note_shape site
  have low : ∀ char ∈ comment, 0x20 ≤ char.toNat := fun char held =>
    (chars char held).elim (fun visible => visible.1) (newline_not_mem_toText _ char)
  have notNewline : ∀ char ∈ comment, (char = '\n') = False := by
    intro char held
    refine eq_false fun isNewline => absurd (low char held) ?_
    rw [isNewline]
    decide
  rw [shape]
  refine readsAs_comment blanks ?_ ?_ ?_
  · cases server <;> rfl
  · intro char held
    cases server with
    | nginx => exact decide_eq_false (by simp [notNewline char held])
    | caddy => exact decide_eq_false (by simp [notNewline char held])
    | traefik =>
        rcases chars char held with visible | inText
        · exact not_isYamlBreak_of_visible visible
        · exact @isYamlBreak_toText { site with managed := false }
            ⟨checked.name, checked.domains, checked.domain, checked.upstream, nofun, checked.size⟩
            (unbroken rfl) char inText
  · cases server <;> rfl

theorem readsAs_title (server : Server) : ReadsAs server.lexis [title] [[]] [] := by
  have reads : ∀ server : Server, server.lexis.read (.start 0) (title ++ ['\n']) =
      ⟨.start 0, ['\n'], []⟩ := by
    intro server
    refine @Text.of_literal (fun text => server.lexis.read (.start 0) (text ++ ['\n']) =
      ⟨.start 0, ['\n'], []⟩) _ ?_
    cases server <;> decide
  rw [ReadsAs, unlines, List.flatMap_singleton]
  exact reads server

theorem flatten_flatMap {Value Item : Type} (values : List Value) (each : Value → List (List Item)) :
    (values.flatMap each).flatten = values.flatMap fun value => (each value).flatten := by
  induction values with
  | nil => rfl
  | cons value values inductionHypothesis =>
      rw [List.flatMap_cons, List.flatten_append, inductionHypothesis, List.flatMap_cons]

/-- The blocks of the sites are read as blocks without comments. -/
theorem blocks_readsAs {server : Server} {sites : List Site}
    (checked : ∀ site ∈ sites, Checked server site)
    (unbroken : server = .traefik → ∀ site ∈ sites, Unbroken site.cert ∧ Unbroken site.key) :
    ReadsAs server.lexis (blocks server note sites) (blocks server (fun _ => []) sites)
      (fileTokens server sites).flatten := by
  cases server with
  | nginx =>
      rw [fileTokens, flatten_flatMap]
      exact ReadsAs.flatMap fun site held =>
        (readsAs_note (checked site held) nofun [] rfl).append
          (.of_lines (nginx_lines (checked site held)))
  | caddy =>
      rw [fileTokens, flatten_flatMap]
      exact ReadsAs.flatMap fun site held =>
        (readsAs_note (checked site held) nofun [] rfl).append
          (.of_lines (caddy_lines (checked site held)))
  | traefik =>
      cases sites with
      | nil => exact .of_lines traefikNone_lines
      | cons site sites =>
          have routers : ReadsAs Server.traefik.lexis
              ((site :: sites).flatMap (traefikRouter note))
              ((site :: sites).flatMap (traefikRouter fun _ => []))
              ((site :: sites).flatMap traefikRouterTokens).flatten := by
            rw [flatten_flatMap]
            exact ReadsAs.flatMap fun site held =>
              (@readsAs_note .traefik site (checked site held) (fun _ => unbroken rfl site held)
                "    ".toList 4 (by decide)).append
                (.of_lines (traefikRouter_lines (checked site held)))
          have services : ReadsAs Server.traefik.lexis ((site :: sites).flatMap traefikService)
              ((site :: sites).flatMap traefikService)
              ((site :: sites).flatMap traefikServiceTokens).flatten := by
            rw [flatten_flatMap]
            exact ReadsAs.flatMap fun site held => .of_lines (traefikService_lines (checked site held))
          have http : List.Forall₂ (Line Server.traefik.lexis)
              ["http:".toList, "  routers:".toList]
              [[.line 0, .word "http:".toList], [.line 2, .word "routers:".toList]] :=
            .cons (.literal (by decide)) (.cons (.literal (by decide)) .nil)
          have service : List.Forall₂ (Line Server.traefik.lexis) ["  services:".toList]
              [[.line 2, .word "services:".toList]] :=
            .cons (.literal (by decide)) .nil
          have whole := ((ReadsAs.of_lines http).append routers).append
            ((ReadsAs.of_lines service).append services)
          simpa only [blocks, fileTokens, List.isEmpty_cons, Bool.false_eq_true, if_false,
            List.flatten_append, List.singleton_append, List.flatten_cons, List.flatten_nil,
            List.append_nil] using whole

/-! ### What the file holds -/

/-- The sites that lines hold, each line by itself. -/
def Hold (lines : List Text) (sites : List Site) : Prop :=
  (∀ line ∈ lines, OneLine line) ∧
    lines.filterMap siteOf = sites.map fun site => { site with managed := true }

theorem Hold.append {lines linesToo : List Text} {sites sitesToo : List Site}
    (first : Hold lines sites) (second : Hold linesToo sitesToo) :
    Hold (lines ++ linesToo) (sites ++ sitesToo) := by
  constructor
  · intro line held
    exact (List.mem_append.mp held).elim (first.1 line) (second.1 line)
  · rw [List.filterMap_append, first.2, second.2, List.map_append]

theorem Hold.of_lines {lexis : Lexis} {lines : List Text} {tokens : List (List Token)}
    (reads : List.Forall₂ (Line lexis) lines tokens) : Hold lines [] := by
  induction reads with
  | nil => exact ⟨nofun, rfl⟩
  | @cons line tokens lines more read _ inductionHypothesis =>
      refine @Hold.append [line] _ [] [] ⟨?_, ?_⟩ inductionHypothesis
      · intro one held
        rw [List.mem_singleton.mp held]
        exact read.whole.oneLine
      · rw [List.filterMap_cons_none (siteOf_visible read.visible)]
        rfl

theorem Hold.flatMap {sites : List Site} {lines : Site → List Text} {held : Site → List Site}
    (each : ∀ site ∈ sites, Hold (lines site) (held site)) :
    Hold (sites.flatMap lines) (sites.flatMap held) := by
  induction sites with
  | nil => exact ⟨nofun, rfl⟩
  | cons site sites inductionHypothesis =>
      obtain ⟨first, later⟩ := List.forall_mem_cons.mp each
      exact first.append (inductionHypothesis later)

theorem hold_note {server : Server} {site : Site} (checked : Checked server site) {front : Text}
    (spaces : ∀ char ∈ front, char = ' ') : Hold [front ++ note site] [site] := by
  have bounded : ∀ size ∈ site.maxBodyMb, size < 2 ^ 32 := by
    intro size given
    have small := checked.size size given
    omega
  obtain ⟨comment, shape, chars⟩ := note_shape site
  constructor
  · intro line held
    rw [List.mem_singleton.mp held]
    have low : ∀ char ∈ front ++ note site, 0x20 ≤ char.toNat := by
      intro char inLine
      rcases List.mem_append.mp inLine with inFront | inNote
      · rw [spaces char inFront]
        decide
      · rw [shape] at inNote
        rcases List.mem_cons.mp inNote with rfl | inComment
        · decide
        · exact (chars char inComment).elim (fun visible => visible.1)
            (newline_not_mem_toText _ char)
    intro char inLine
    constructor
    · rintro rfl
      exact absurd (low _ inLine) (by decide)
    · rintro rfl
      exact absurd (low _ inLine) (by decide)
  · have read := @siteOf_note site bounded front fun char held => by
      rw [spaces char held]
      rfl
    rw [List.filterMap_cons_some read]
    rfl

/-- The blocks of the sites hold them. -/
theorem hold_blocks {server : Server} {sites : List Site}
    (checked : ∀ site ∈ sites, Checked server site) : Hold (blocks server note sites) sites := by
  have one : ∀ sites : List Site, sites.flatMap (fun site => [site]) = sites := by
    intro sites
    rw [List.flatMap_singleton']
  cases server with
  | nginx =>
      have whole := @Hold.flatMap sites (nginxBlock note) (fun site => [site]) fun site held =>
        (@hold_note _ _ (checked site held) [] nofun).append (.of_lines (nginx_lines (checked site held)))
      rwa [one] at whole
  | caddy =>
      have whole := @Hold.flatMap sites (caddyBlock note) (fun site => [site]) fun site held =>
        (@hold_note _ _ (checked site held) [] nofun).append (.of_lines (caddy_lines (checked site held)))
      rwa [one] at whole
  | traefik =>
      cases sites with
      | nil => exact .of_lines traefikNone_lines
      | cons site sites =>
          have routers := @Hold.flatMap (site :: sites) (traefikRouter note) (fun site => [site])
            fun site held => (@hold_note _ _ (checked site held) "    ".toList
              (by decide)).append (.of_lines (traefikRouter_lines (checked site held)))
          have services := @Hold.flatMap (site :: sites) traefikService (fun _ => [])
            fun site held => .of_lines (traefikService_lines (checked site held))
          have nothing : (site :: sites).flatMap (fun _ : Site => ([] : List Site)) = [] := by
            simp
          rw [one] at routers
          rw [nothing] at services
          have http : List.Forall₂ (Line Server.traefik.lexis)
              ["http:".toList, "  routers:".toList]
              [[.line 0, .word "http:".toList], [.line 2, .word "routers:".toList]] :=
            .cons (.literal (by decide)) (.cons (.literal (by decide)) .nil)
          have service : List.Forall₂ (Line Server.traefik.lexis) ["  services:".toList]
              [[.line 2, .word "services:".toList]] :=
            .cons (.literal (by decide)) .nil
          have whole := ((Hold.of_lines http).append routers).append
            ((Hold.of_lines service).append services)
          simpa only [blocks, List.isEmpty_cons, Bool.false_eq_true, if_false,
            List.nil_append, List.singleton_append, List.append_nil] using whole

/-- What is read back from a file are its sites. -/
theorem managedSites_file {server : Server} {sites : List Site}
    (checked : ∀ site ∈ sites, Checked server site) :
    managedSites (unlines (title :: blocks server note sites)) =
      sites.map fun site => { site with managed := true } := by
  have held := hold_blocks checked
  have first : OneLine title := @Text.of_literal OneLine _ (by decide)
  rw [managedSites_unlines (List.forall_mem_cons.mpr ⟨first, held.1⟩),
    List.filterMap_cons_none siteOf_title, held.2]

/-! ### What breaks a comment -/

theorem whole_of_lines {lines : List Text} {tokens : List (List Token)} {lexis : Lexis}
    (reads : List.Forall₂ (Line lexis) lines tokens) : ∀ line ∈ lines, Whole line := by
  induction reads with
  | nil => nofun
  | cons read _ inductionHypothesis => exact List.forall_mem_cons.mpr ⟨read.whole, inductionHypothesis⟩

/-- A character that ends a line in YAML, and that JSON does not escape. -/
def BreaksYaml (char : Char) : Prop := isYamlBreak char = true ∧ 0x20 ≤ char.toNat

theorem breaksYaml_of_toNat {char : Char}
    (code : char.toNat = 0x85 ∨ char.toNat = 0x2028 ∨ char.toNat = 0x2029) : BreaksYaml char := by
  rw [← Char.ofNat_toNat char]
  rcases code with code | code | code <;> rw [code] <;> exact ⟨by decide, by decide⟩

/-- A path that is not unbroken has a character that breaks the site's JSON. -/
theorem breaks_of_not_unbroken {site : Site}
    (broken : ¬(Unbroken site.cert ∧ Unbroken site.key)) :
    ∃ char ∈ { site with managed := false }.toText, BreaksYaml char := by
  have path : ∀ path, path = site.cert ∨ path = site.key → ¬Unbroken path →
      ∃ char ∈ { site with managed := false }.toText, BreaksYaml char := by
    intro path isPath broken
    simp only [Unbroken, not_forall] at broken
    obtain ⟨text, given, char, held, breaks⟩ := broken
    have code : char.toNat = 0x85 ∨ char.toNat = 0x2028 ∨ char.toNat = 0x2029 := by omega
    exact ⟨char, @mem_toText_of_path { site with managed := false } path isPath text given char held
      (by omega), breaksYaml_of_toNat code⟩
  rcases not_and_or.mp broken with cert | key
  · exact path _ (.inl rfl) cert
  · exact path _ (.inr rfl) key

/-- A comment that is broken shows in what is left of a file. -/
theorem broken_mem_kept {site : Site} (broken : ¬(Unbroken site.cert ∧ Unbroken site.key))
    (rest : Text) : ∃ first, BreaksYaml first ∧ first ∈ (Server.traefik.lexis.read (.start 0)
      ("    ".toList ++ note site ++ rest)).kept := by
  obtain ⟨char, inText, breaks⟩ := breaks_of_not_unbroken broken
  obtain ⟨comment, shape, chars⟩ := note_shape site
  have held : char ∈ comment := by
    have inNote : char ∈ note site :=
      List.mem_append_right _ (List.mem_cons_of_mem _ inText)
    rw [shape] at inNote
    rcases List.mem_cons.mp inNote with rfl | held
    · exact absurd breaks.1 (by decide)
    · exact held
  obtain ⟨first, inComment, firstBreaks, kept⟩ :=
    @Lexis.mem_kept_of_break Server.traefik.lexis comment char held breaks.1
  have low : 0x20 ≤ first.toNat := (chars first inComment).elim (fun visible => visible.1)
    (newline_not_mem_toText _ first)
  refine ⟨first, ⟨firstBreaks, low⟩, ?_⟩
  have blanks : Server.traefik.lexis.read (.start 0) "    ".toList =
      ⟨.start 4, "    ".toList, []⟩ := by decide
  have begins : Server.traefik.lexis.step (.start 4) '#' = (.comment, []) := rfl
  rw [shape, List.append_assoc, Lexis.read_append, blanks]
  refine List.mem_append_right _ ?_
  rw [List.cons_append, Lexis.read, begins, Lexis.read_append]
  exact List.mem_append_left _ kept

theorem broken_mem_routers {sites : List Site} (checked : ∀ site ∈ sites, Checked .traefik site)
    {broken : Site} (held : broken ∈ sites)
    (breaks : ¬(Unbroken broken.cert ∧ Unbroken broken.key)) (rest : Text) :
    ∃ first, BreaksYaml first ∧ first ∈ (Server.traefik.lexis.read (.start 0)
      (unlines (sites.flatMap (traefikRouter note)) ++ rest)).kept := by
  induction sites with
  | nil => cases held
  | cons site sites inductionHypothesis =>
      obtain ⟨first, later⟩ := List.forall_mem_cons.mp checked
      rw [List.flatMap_cons, unlines_append, List.append_assoc]
      by_cases unbroken : Unbroken site.cert ∧ Unbroken site.key
      · have inSites : broken ∈ sites := by
          rcases List.mem_cons.mp held with rfl | inSites
          · exact absurd unbroken breaks
          · exact inSites
        have router : ReadsAs Server.traefik.lexis (traefikRouter note site)
            (traefikRouter (fun _ => []) site) (traefikRouterTokens site).flatten :=
          (@readsAs_note .traefik site first (fun _ => unbroken) "    ".toList 4
            (by decide)).append (.of_lines (traefikRouter_lines first))
        obtain ⟨found, foundBreaks, kept⟩ := inductionHypothesis later inSites
        refine ⟨found, foundBreaks, ?_⟩
        rw [Lexis.read_append, router]
        exact List.mem_append_right _ kept
      · have shape : ∃ more, unlines (traefikRouter note site) =
            "    ".toList ++ note site ++ more :=
          ⟨_, by rw [traefikRouter, List.append_assoc, List.cons_append, unlines,
            List.flatMap_cons, List.append_assoc]⟩
        obtain ⟨more, shape⟩ := shape
        rw [shape, List.append_assoc]
        exact broken_mem_kept unbroken _

/-- A file without its comments has no such character of its own. -/
theorem not_breaksYaml_of_mem_blocks {sites : List Site}
    (checked : ∀ site ∈ sites, Checked .traefik site) :
    ∀ char ∈ unlines ([] :: blocks .traefik (fun _ => []) sites), ¬BreaksYaml char := by
  have lines : ∀ line ∈ blocks .traefik (fun _ => []) sites, Whole line := by
    cases sites with
    | nil => exact whole_of_lines traefikNone_lines
    | cons site sites =>
        have fixed : ∀ line ∈ ["http:".toList, "  routers:".toList, "  services:".toList,
            "    ".toList], Whole line := by
          decide
        intro line held
        rcases List.mem_append.mp held with front | back
        · rcases List.mem_append.mp front with header | inRouters
          · exact fixed line (by
              rcases List.mem_cons.mp header with rfl | last
              · exact List.mem_cons_self
              · rw [List.mem_singleton.mp last]
                exact List.mem_cons_of_mem _ List.mem_cons_self)
          · obtain ⟨one, inSites, inRouter⟩ := List.mem_flatMap.mp inRouters
            rcases List.mem_cons.mp inRouter with rfl | later
            · exact fixed _ (by simp)
            · exact whole_of_lines (traefikRouter_lines (checked one inSites)) line later
        · rcases List.mem_cons.mp back with rfl | inServices
          · exact fixed _ (by simp)
          · obtain ⟨one, inSites, inService⟩ := List.mem_flatMap.mp inServices
            exact whole_of_lines (traefikService_lines (checked one inSites)) line inService
  intro char held breaks
  obtain ⟨line, inLines, inLine⟩ := List.mem_flatMap.mp held
  rcases List.mem_append.mp inLine with inside | last
  · rcases List.mem_cons.mp inLines with rfl | inBlocks
    · cases inside
    · have notBreak := lines line inBlocks char inside
      rw [breaks.1] at notBreak
      cases notBreak
  · rw [List.mem_singleton.mp last] at breaks
    exact absurd breaks.2 (by decide)

/-- What Traefik's file needs of its sites to be their blocks without its comments. -/
theorem unbroken_of_uncommented {sites : List Site}
    (checked : ∀ site ∈ sites, Checked .traefik site)
    (uncommented : Server.traefik.lexis.uncomment (unlines (title :: blocks .traefik note sites)) =
      unlines ([] :: blocks .traefik (fun _ => []) sites)) :
    ∀ site ∈ sites, Unbroken site.cert ∧ Unbroken site.key := by
  intro broken held
  by_contra breaks
  have http : List.Forall₂ (Line Server.traefik.lexis) ["http:".toList, "  routers:".toList]
      [[.line 0, .word "http:".toList], [.line 2, .word "routers:".toList]] :=
    .cons (.literal (by decide)) (.cons (.literal (by decide)) .nil)
  have start := (readsAs_title .traefik).append (.of_lines http)
  obtain ⟨site, sites, rfl⟩ := List.exists_cons_of_ne_nil (List.ne_nil_of_mem held)
  have shape : unlines (title :: blocks .traefik note (site :: sites)) =
      unlines ([title] ++ ["http:".toList, "  routers:".toList]) ++
        (unlines ((site :: sites).flatMap (traefikRouter note)) ++
          unlines ("  services:".toList :: (site :: sites).flatMap traefikService)) := by
    rw [← unlines_append, ← unlines_append]
    rfl
  obtain ⟨first, firstBreaks, kept⟩ := broken_mem_routers checked held breaks
    (unlines ("  services:".toList :: (site :: sites).flatMap traefikService))
  refine not_breaksYaml_of_mem_blocks checked first ?_ firstBreaks
  rw [← uncommented, Lexis.uncomment, shape, Lexis.read_append, start]
  exact List.mem_append_right _ kept

/-- A file that was rendered holds its sites and nothing else, unless it is Traefik's and a
path of a certificate breaks the comment that holds it. -/
theorem holdsSites_iff {server : Server} {sites : List Site} {tlsResolver : Bool} {file : Text}
    (rendered : render server sites tlsResolver = .ok file) :
    HoldsSites server sites file ↔
      (server = .traefik → ∀ site ∈ sites, Unbroken site.cert ∧ Unbroken site.key) := by
  obtain ⟨checked, rfl⟩ := of_render rendered
  constructor
  · rintro holds rfl
    exact unbroken_of_uncommented checked holds.uncommented
  · intro unbroken
    have reads := (readsAs_title server).append (blocks_readsAs checked unbroken)
    refine ⟨managedSites_file checked, ?_, ?_⟩
    · exact congrArg Reading.kept reads
    · rw [Lexis.tokens]
      have whole : server.lexis.read (.start 0) (unlines (title :: blocks server note sites)) = _ :=
        reads
      rw [whole]
      rfl

/-- A site that each server takes. -/
def appSite : Site where
  name := "app".toList
  domains := ["a.example".toList]
  upstream := "http://127.0.0.1:80".toList
  tls := false
  cert := none
  key := none
  maxBodyMb := some 5
  waf := false
  managed := false

theorem holdsSites_appSite : ∃ file, render .traefik [appSite] true = .ok file ∧
    HoldsSites .traefik [appSite] file :=
  have rendered : render .traefik [appSite] true =
      .ok (unlines (title :: blocks .traefik note [appSite])) := by
    have checks : checkSites .traefik true [] [appSite] = .ok () := by
      rfl
    rw [render, checks]
    rfl
  ⟨_, rendered, (holdsSites_iff rendered).mpr fun _ site held =>
    List.mem_singleton.mp held ▸ ⟨nofun, nofun⟩⟩

/-- The same with a certificate's path that is of no use to Traefik, and not checked. -/
def brokenSite : Site := { appSite with cert := some [Char.ofNat 0x2028] }

/-- Its comment ends in the middle of its JSON. -/
theorem not_holdsSites_brokenSite :
    ¬ ∀ server sites tlsResolver file, render server sites tlsResolver = .ok file →
      HoldsSites server sites file := by
  intro always
  have rendered : render .traefik [brokenSite] true =
      .ok (unlines (title :: blocks .traefik note [brokenSite])) := by
    have checks : checkSites .traefik true [] [brokenSite] = .ok () := by
      rfl
    rw [render, checks]
    rfl
  have holds := always _ _ _ _ rendered
  have unbroken := unbroken_of_uncommented (of_render rendered).1 holds.uncommented brokenSite
    (List.mem_singleton_self _)
  exact (unbroken.1 _ rfl (Char.ofNat 0x2028) (List.mem_singleton_self _)).2.1 (by decide)

end ServerBox.Proxy
