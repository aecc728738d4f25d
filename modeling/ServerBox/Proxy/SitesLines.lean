import ServerBox.Proxy.SitesReadBack
import ServerBox.Std.Lexical

/-!
# The lines of a proxy's file, as the servers read them

How nginx, Caddy and Traefik read a file, and what each reads of a site's block: every value is
one word or one quoted string of its line. A value that was checked has no character that could
be more than that.
-/

namespace ServerBox.Proxy

open ServerBox.Std

/-! ### How the servers read a file -/

/-- What ends a line, and a comment, in YAML. -/
def isYamlBreak (char : Char) : Bool :=
  char ∈ ['\n', '\r', Char.ofNat 0x85, Char.ofNat 0x2028, Char.ofNat 0x2029]

def backtick : Char := Char.ofNat 0x60

def Server.lexis : Server → Lexis
  | .nginx =>
    { isBlank := fun char => char ∈ [' ', '\t', '\r']
      isBreak := fun char => char = '\n'
      isMark := fun char => char ∈ [';', '{', '}']
      isQuote := fun char => char ∈ ['"', '\'']
      escapes := fun _ => true }
  | .caddy =>
    { isBlank := fun char => Text.isWhitespace char && char ≠ '\n'
      isBreak := fun char => char = '\n'
      isMark := fun _ => false
      isQuote := fun char => char ∈ ['"', backtick]
      escapes := fun quote => quote ≠ some backtick }
  | .traefik =>
    { isBlank := fun char => char ∈ [' ', '\t']
      isBreak := isYamlBreak
      isMark := fun char => char ∈ ['[', ']', '{', '}', ',']
      isQuote := fun char => char ∈ ['"', '\'']
      escapes := fun quote => quote = some '"' }

/-- A directive of nginx's. -/
def directive (words : List Text) : List Token := .line 4 :: words.map .word ++ [.mark ';']

/-- What nginx reads of a site, line by line. -/
def nginxTokens (site : Site) : List (List Token) :=
  [.line 0, .word "server".toList, .mark '{'] ::
    ((if site.tls then
      [directive ["listen".toList, "443".toList, "ssl".toList],
        directive ["listen".toList, "[::]:443".toList, "ssl".toList],
        directive ["ssl_certificate".toList, site.cert.getD []],
        directive ["ssl_certificate_key".toList, site.key.getD []]]
    else
      [directive ["listen".toList, "80".toList], directive ["listen".toList, "[::]:80".toList]]) ++
    [directive ("server_name".toList :: site.domains)] ++
    (match site.maxBodyMb with
      | some size =>
          [directive ["client_max_body_size".toList, Text.decimal size ++ ['m']]]
      | none => []) ++
    (if site.waf then
      [directive ["modsecurity".toList, "on".toList],
        directive ["modsecurity_rules_file".toList, nginxRules.toList]]
    else []) ++
    [[.line 4, .word "location".toList, .word "/".toList, .mark '{'],
      passes ["proxy_pass".toList, site.upstream],
      passes ["proxy_http_version".toList, "1.1".toList],
      passes ["proxy_set_header".toList, "Host".toList, "$host".toList],
      passes ["proxy_set_header".toList, "X-Real-IP".toList, "$remote_addr".toList],
      passes ["proxy_set_header".toList, "X-Forwarded-For".toList,
        "$proxy_add_x_forwarded_for".toList],
      passes ["proxy_set_header".toList, "X-Forwarded-Proto".toList, "$scheme".toList],
      passes ["proxy_set_header".toList, "Upgrade".toList, "$http_upgrade".toList],
      passes ["proxy_set_header".toList, "Connection".toList, "$http_connection".toList],
      passes ["proxy_read_timeout".toList, "1h".toList],
      [.line 4, .mark '}'],
      [.line 0, .mark '}']])
where
  passes (words : List Text) : List Token := .line 8 :: words.map .word ++ [.mark ';']

/-- Addresses, each but the last with a comma. -/
def addressWords : List Text → List Token
  | [] => []
  | [address] => [.word address]
  | address :: addresses => .word (address ++ [',']) :: addressWords addresses

def caddyTokens (site : Site) : List (List Token) :=
  [.line 0 :: addressWords (site.domains.map (caddyAddress site)) ++ [.word ['{']],
    [.line 4, .word "reverse_proxy".toList, .word site.upstream],
    [.line 0, .word ['}']]]

/-- What a site's router and its service are called. -/
def routerName (site : Site) : Text := "sbm-".toList ++ site.name

def traefikRouterTokens (site : Site) : List (List Token) :=
  [[Token.line 4, Token.word (routerName site ++ [':'])],
    [Token.line 6, Token.word "rule:".toList, Token.quoted (traefikRule site)],
    [Token.line 6, Token.word "entryPoints:".toList, Token.mark '[',
      Token.quoted (entryPoint site).toList, Token.mark ']'],
    [Token.line 6, Token.word "service:".toList, Token.word (routerName site)]] ++
  (if site.waf then
    [[Token.line 6, Token.word "middlewares:".toList, Token.mark '[',
      Token.quoted traefikMiddleware.toList, Token.mark ']']]
  else []) ++
  (if site.tls then
    [[Token.line 6, Token.word "tls:".toList],
      [Token.line 8, Token.word "certResolver:".toList, Token.word traefikResolver.toList]]
  else [])

def traefikServiceTokens (site : Site) : List (List Token) :=
  [[.line 4, .word (routerName site ++ [':'])],
    [.line 6, .word "loadBalancer:".toList],
    [.line 8, .word "servers:".toList],
    [.line 10, .word ['-'], .word "url:".toList, .quoted site.upstream]]

def traefikNoneTokens : List (List Token) :=
  [[.line 0, .word "http:".toList],
    [.line 2, .word "middlewares:".toList],
    [.line 4, .word "sbm-none:".toList],
    [.line 6, .word "headers:".toList],
    [.line 8, .word "customResponseHeaders:".toList],
    [.line 10, .word "X-Serverbox-None:".toList, .quoted []]]

/-- What a server reads of a file that holds the sites and nothing else. -/
def fileTokens (server : Server) (sites : List Site) : List (List Token) :=
  match server with
  | .nginx => sites.flatMap nginxTokens
  | .caddy => sites.flatMap caddyTokens
  | .traefik =>
      if sites.isEmpty then traefikNoneTokens
      else
        [[.line 0, .word "http:".toList], [.line 2, .word "routers:".toList]] ++
          sites.flatMap traefikRouterTokens ++
            [.line 2, .word "services:".toList] :: sites.flatMap traefikServiceTokens

/-! ### The characters of the values -/

theorem isSafe_of_isDomainChar {char : Char} (known : isDomainChar char = true) :
    isSafe char = true := by
  have all : ∀ code < 128, isDomainChar (Char.ofNat code) = true →
      isSafe (Char.ofNat code) = true := by
    decide
  have ascii : char.toNat < 128 := by
    simp only [isDomainChar, isNameChar, isLowercase, Bool.or_eq_true, Bool.and_eq_true,
      decide_eq_true_eq] at known
    rcases known with ((lower | digit) | rfl) | listed
    · have below : char.toNat ≤ 122 := UInt32.le_iff_toNat_le.mp lower.2
      omega
    · have visible := (visible_of_isDigit digit).2
      omega
    · decide
    · simp only [List.mem_cons, List.not_mem_nil, or_false] at listed
      rcases listed with rfl | rfl | rfl | rfl <;> decide
  have held := all char.toNat ascii
  rw [Char.ofNat_toNat] at held
  exact held known

theorem isDomainChar_of_isNameChar {char : Char} (known : isNameChar char = true) :
    isDomainChar char = true := by
  rw [isDomainChar, known, Bool.true_or]

theorem ne_of_isSafe {char barred : Char} (safe : isSafe char = true)
    (isBarred : isSafe barred = false) : char ≠ barred := by
  rintro rfl
  rw [safe] at isBarred
  cases isBarred

/-- A text that no server breaks into lines. -/
def Whole (text : Text) : Prop := ∀ char ∈ text, isYamlBreak char = false

instance (text : Text) : Decidable (Whole text) :=
  inferInstanceAs (Decidable (∀ char ∈ text, isYamlBreak char = false))

theorem whole_append {front back : Text} (first : Whole front) (second : Whole back) :
    Whole (front ++ back) :=
  fun char held => (List.mem_append.mp held).elim (first char) (second char)

theorem Whole.oneLine {text : Text} (whole : Whole text) : OneLine text := by
  intro char held
  have notBreak := whole char held
  constructor
  · rintro rfl
    exact absurd notBreak (by decide)
  · rintro rfl
    exact absurd notBreak (by decide)

theorem whole_of_isSafe {text : Text} (safe : ∀ char ∈ text, isSafe char = true) :
    Whole text := by
  intro char held
  have other : ∀ {barred : Char}, isSafe barred = false → char ≠ barred :=
    ne_of_isSafe (safe char held)
  rw [isYamlBreak, decide_eq_false_iff_not]
  simp only [List.mem_cons, List.not_mem_nil, or_false, not_or]
  exact ⟨other (by decide), other (by decide), other (by decide), other (by decide),
    other (by decide)⟩

theorem not_isWhitespace_of_isSafe {char : Char} (safe : isSafe char = true) :
    Text.isWhitespace char = false := by
  simp only [isSafe, Bool.not_eq_true', Bool.or_eq_false_iff] at safe
  exact safe.1.2

theorem nginx_isPlain {char : Char} (safe : isSafe char = true) :
    Server.nginx.lexis.isPlain char = true := by
  have other : ∀ {barred : Char}, isSafe barred = false → char ≠ barred := ne_of_isSafe safe
  simp [Lexis.isPlain, Server.lexis, other (show isSafe '\n' = false by decide),
    other (show isSafe ' ' = false by decide), other (show isSafe '\t' = false by decide),
    other (show isSafe '\r' = false by decide), other (show isSafe ';' = false by decide),
    other (show isSafe '{' = false by decide), other (show isSafe '}' = false by decide),
    other (show isSafe '"' = false by decide), other (show isSafe '\'' = false by decide),
    other (show isSafe '\\' = false by decide), other (show isSafe '#' = false by decide)]

theorem caddy_isPlain {char : Char} (safe : isSafe char = true) :
    Server.caddy.lexis.isPlain char = true := by
  have other : ∀ {barred : Char}, isSafe barred = false → char ≠ barred := ne_of_isSafe safe
  simp [Lexis.isPlain, Server.lexis, not_isWhitespace_of_isSafe safe,
    other (show isSafe '\n' = false by decide), other (show isSafe '"' = false by decide),
    other (show isSafe backtick = false by decide), other (show isSafe '\\' = false by decide),
    other (show isSafe '#' = false by decide)]

theorem traefik_isPlain {char : Char} (known : isNameChar char = true) :
    Server.traefik.lexis.isPlain char = true := by
  have other : ∀ {barred : Char}, isNameChar barred = false → char ≠ barred := by
    rintro barred isBarred rfl
    rw [known] at isBarred
    cases isBarred
  have notBreak : isYamlBreak char = false := by
    rw [isYamlBreak, decide_eq_false_iff_not]
    simp only [List.mem_cons, List.not_mem_nil, or_false, not_or]
    exact ⟨other (by decide), other (by decide), other (by decide), other (by decide),
      other (by decide)⟩
  simp [Lexis.isPlain, Server.lexis, notBreak, other (show isNameChar ' ' = false by decide),
    other (show isNameChar '\t' = false by decide), other (show isNameChar '[' = false by decide),
    other (show isNameChar ']' = false by decide), other (show isNameChar '{' = false by decide),
    other (show isNameChar '}' = false by decide), other (show isNameChar ',' = false by decide),
    other (show isNameChar '"' = false by decide), other (show isNameChar '\'' = false by decide),
    other (show isNameChar '\\' = false by decide), other (show isNameChar '#' = false by decide)]

/-! ### The reading of a line -/

/-- A line that is read from its start to the start of the next, all of it kept. -/
structure Line (lexis : Lexis) (line : Text) (tokens : List Token) : Prop where
  reads : lexis.read (.start 0) (line ++ ['\n']) = ⟨.start 0, line ++ ['\n'], tokens⟩
  whole : Whole line
  visible : startsVisible line = true

/-- What a line begins with. -/
structure Opens (lexis : Lexis) (front : Text) (place : Place) (tokens : List Token) : Prop where
  reads : lexis.read (.start 0) front = ⟨place, front, tokens⟩
  whole : Whole front
  visible : startsVisible front = true

instance (lexis : Lexis) (line : Text) (tokens : List Token) :
    Decidable (Line lexis line tokens) :=
  decidable_of_iff (lexis.read (.start 0) (line ++ ['\n']) = ⟨.start 0, line ++ ['\n'], tokens⟩ ∧
    Whole line ∧ startsVisible line = true)
    ⟨fun ⟨reads, whole, visible⟩ => ⟨reads, whole, visible⟩,
      fun line => ⟨line.reads, line.whole, line.visible⟩⟩

instance (lexis : Lexis) (front : Text) (place : Place) (tokens : List Token) :
    Decidable (Opens lexis front place tokens) :=
  decidable_of_iff (lexis.read (.start 0) front = ⟨place, front, tokens⟩ ∧
    Whole front ∧ startsVisible front = true)
    ⟨fun ⟨reads, whole, visible⟩ => ⟨reads, whole, visible⟩,
      fun opens => ⟨opens.reads, opens.whole, opens.visible⟩⟩

theorem Line.literal {lexis : Lexis} {chars : List Char} {tokens : List Token}
    (line : Line lexis chars tokens) : Line lexis (String.ofList chars).toList tokens :=
  @Text.of_literal (fun text => Line lexis text tokens) chars line

theorem Opens.literal {lexis : Lexis} {chars : List Char} {place : Place} {tokens : List Token}
    (opens : Opens lexis chars place tokens) :
    Opens lexis (String.ofList chars).toList place tokens :=
  @Text.of_literal (fun text => Opens lexis text place tokens) chars opens

/-- A line from what it begins with and the rest. -/
theorem Opens.line {lexis : Lexis} {front rest : Text} {place : Place}
    {tokens tokensToo : List Token} (opens : Opens lexis front place tokens)
    (reads : lexis.read place (rest ++ ['\n']) = ⟨.start 0, rest ++ ['\n'], tokensToo⟩)
    (whole : Whole rest) : Line lexis (front ++ rest) (tokens ++ tokensToo) where
  reads := by
    rw [List.append_assoc, Lexis.read_append_eq opens.reads reads]
  whole := whole_append opens.whole whole
  visible := startsVisible_append opens.visible rest

/-- A directive with a value. -/
theorem nginx_value {front name value : Text} {indent : Nat}
    (opens : Opens Server.nginx.lexis front .between [.line indent, .word name])
    (valueOk : value ≠ [] ∧ ∀ char ∈ value, isSafe char = true) :
    Line Server.nginx.lexis (front ++ value ++ [';'])
      (.line indent :: [name, value].map .word ++ [.mark ';']) := by
  have read := @Lexis.read_between_plain Server.nginx.lexis value valueOk.1
    fun char held => nginx_isPlain (valueOk.2 char held)
  have reads : Server.nginx.lexis.read .between (value ++ [';'] ++ ['\n']) =
      ⟨.start 0, value ++ [';'] ++ ['\n'], [.word value, .mark ';']⟩ := by
    rw [List.append_assoc]
    exact Lexis.read_append_eq read rfl
  rw [List.append_assoc]
  exact opens.line reads (whole_append (whole_of_isSafe valueOk.2) (by decide))

theorem nginx_values {front name : Text} {values : List Text} {indent : Nat}
    (opens : Opens Server.nginx.lexis front .between [.line indent, .word name])
    (some : values ≠ [])
    (valuesOk : ∀ value ∈ values, value ≠ [] ∧ ∀ char ∈ value, isSafe char = true) :
    Line Server.nginx.lexis (front ++ Text.join ' ' values ++ [';'])
      (.line indent :: (name :: values).map .word ++ [.mark ';']) := by
  have whole : Whole (Text.join ' ' values) := by
    intro char held
    rcases Text.mem_join held with rfl | ⟨value, inValues, inValue⟩
    · decide
    · exact whole_of_isSafe (valuesOk value inValues).2 char inValue
  have reads : Server.nginx.lexis.read .between (Text.join ' ' values ++ [';'] ++ ['\n']) =
      ⟨.start 0, Text.join ' ' values ++ [';'] ++ ['\n'], values.map .word ++ [.mark ';']⟩ := by
    rw [List.append_assoc]
    exact Lexis.read_join some (fun value held => ⟨(valuesOk value held).1,
      fun char inValue => nginx_isPlain ((valuesOk value held).2 char inValue)⟩) rfl rfl
        fun _ => rfl
  rw [List.append_assoc]
  exact opens.line reads (whole_append whole (by decide))

/-- The lines of a site in nginx's file, its comment apart. -/
theorem nginx_lines {site : Site} (checked : Checked .nginx site) :
    List.Forall₂ (Line Server.nginx.lexis) (nginxBlock (fun _ => []) site).tail
      (nginxTokens site) := by
  have domains : ∀ domain ∈ site.domains, domain ≠ [] ∧ ∀ char ∈ domain, isSafe char = true :=
    fun domain held => ⟨(checked.domain domain held).1,
      fun char inDomain => isSafe_of_isDomainChar ((checked.domain domain held).2 char inDomain)⟩
  refine .cons (.literal (by decide +kernel)) (List.rel_append (List.rel_append (List.rel_append
    (List.rel_append ?_ ?_) ?_) ?_) ?_)
  · cases tls : site.tls with
    | false =>
        exact .cons (.literal (by decide +kernel)) (.cons (.literal (by decide +kernel)) .nil)
    | true =>
        exact .cons (.literal (by decide +kernel)) (.cons (.literal (by decide +kernel))
          (.cons (nginx_value (.literal (by decide +kernel)) (checked.path rfl tls _ (.inl rfl)))
            (.cons (nginx_value (.literal (by decide +kernel))
              (checked.path rfl tls _ (.inr rfl))) .nil)))
  · exact .cons (nginx_values (.literal (by decide +kernel)) checked.domains domains) .nil
  · cases site.maxBodyMb with
    | none => exact .nil
    | some size =>
        have digits : ∀ char ∈ Text.decimal size ++ ['m'], isSafe char = true := by
          intro char held
          rcases List.mem_append.mp held with digit | last
          · refine isSafe_of_isDomainChar ?_
            simp [isDomainChar, isNameChar, Text.isDigit_of_mem_decimal digit]
          · rw [List.mem_singleton.mp last]
            decide
        have line := @nginx_value "    client_max_body_size ".toList "client_max_body_size".toList
          (Text.decimal size ++ ['m']) 4 (.literal (by decide +kernel)) ⟨by simp, digits⟩
        rw [List.append_assoc, List.append_assoc, List.singleton_append, ← List.append_assoc] at line
        exact .cons line .nil
  · cases site.waf with
    | false => exact .nil
    | true =>
        have rules : nginxRules.toList ≠ [] ∧ ∀ char ∈ nginxRules.toList, isSafe char = true :=
          @Text.of_literal (fun text => text ≠ [] ∧ ∀ char ∈ text, isSafe char = true) _
            (by decide +kernel)
        exact .cons (.literal (by decide +kernel))
          (.cons (nginx_value (.literal (by decide +kernel)) rules) .nil)
  · exact .cons (.literal (by decide +kernel))
      (.cons (nginx_value (.literal (by decide +kernel)) checked.upstream)
      (.cons (.literal (by decide +kernel)) (.cons (.literal (by decide +kernel))
      (.cons (.literal (by decide +kernel)) (.cons (.literal (by decide +kernel))
      (.cons (.literal (by decide +kernel)) (.cons (.literal (by decide +kernel))
      (.cons (.literal (by decide +kernel)) (.cons (.literal (by decide +kernel))
      (.cons (.literal (by decide +kernel)) (.cons (.literal (by decide +kernel)) .nil)))))))))))

theorem caddyAddress_isSafe {site : Site} (checked : Checked .caddy site) :
    ∀ address ∈ site.domains.map (caddyAddress site),
      address ≠ [] ∧ ∀ char ∈ address, isSafe char = true := by
  intro address held
  obtain ⟨domain, inDomains, rfl⟩ := List.mem_map.mp held
  obtain ⟨some, chars⟩ := checked.domain domain inDomains
  have safe : ∀ char ∈ domain, isSafe char = true :=
    fun char inDomain => isSafe_of_isDomainChar (chars char inDomain)
  have scheme : ∀ char ∈ "http://".toList, isSafe char = true := by
    decide +kernel
  unfold caddyAddress
  split
  next => exact ⟨some, safe⟩
  next =>
    exact ⟨List.append_ne_nil_of_right_ne_nil _ some, fun char inBoth =>
      (List.mem_append.mp inBoth).elim (scheme char) (safe char)⟩

theorem forall_mem_intercalate {holds : Char → Prop} {separator : Text} {parts : List Text}
    (ofSeparator : ∀ char ∈ separator, holds char)
    (ofParts : ∀ part ∈ parts, ∀ char ∈ part, holds char) :
    ∀ char ∈ List.intercalate separator parts, holds char := by
  induction parts with
  | nil => nofun
  | cons part parts inductionHypothesis =>
      obtain ⟨first, later⟩ := List.forall_mem_cons.mp ofParts
      cases parts with
      | nil => rwa [List.intercalate_singleton]
      | cons next parts =>
          have shape : List.intercalate separator (part :: next :: parts) =
              part ++ (separator ++ List.intercalate separator (next :: parts)) := by
            simp [List.intercalate]
          rw [shape]
          intro char held
          rcases List.mem_append.mp held with inPart | held
          · exact first char inPart
          · exact (List.mem_append.mp held).elim (ofSeparator char)
              (inductionHypothesis later char)

/-- Addresses with a comma after each but the last. -/
theorem read_addresses {addresses : List Text} (some : addresses ≠ [])
    (each : ∀ address ∈ addresses, address ≠ [] ∧ ∀ char ∈ address, isSafe char = true)
    {rest : Text} {place : Place} {tokens : List Token}
    (ends : ∀ begun, Server.caddy.lexis.read (.word begun) rest =
      ⟨place, rest, .word begun :: tokens⟩) :
    Server.caddy.lexis.read .between (List.intercalate [',', ' '] addresses ++ rest) =
      ⟨place, List.intercalate [',', ' '] addresses ++ rest, addressWords addresses ++ tokens⟩ := by
  induction addresses with
  | nil => exact absurd rfl some
  | cons address addresses inductionHypothesis =>
      obtain ⟨⟨someAddress, safe⟩, later⟩ := List.forall_mem_cons.mp each
      have plain : ∀ char ∈ address, Server.caddy.lexis.isPlain char = true :=
        fun char held => caddy_isPlain (safe char held)
      cases addresses with
      | nil =>
          rw [List.intercalate_singleton,
            Lexis.read_append_eq (Lexis.read_between_plain someAddress plain) (ends address)]
          rfl
      | cons next addresses =>
          have others := inductionHypothesis (List.cons_ne_nil _ _) later
          have shape : List.intercalate [',', ' '] (address :: next :: addresses) ++ rest =
              (address ++ [',']) ++
                ' ' :: (List.intercalate [',', ' '] (next :: addresses) ++ rest) := by
            simp [List.intercalate]
          have comma : ∀ char ∈ address ++ [','], Server.caddy.lexis.isPlain char = true := by
            intro char held
            rcases List.mem_append.mp held with inAddress | last
            · exact plain char inAddress
            · rw [List.mem_singleton.mp last]
              decide
          have first := Lexis.read_between_plain
            (List.append_ne_nil_of_left_ne_nil someAddress [',']) comma
          have next : Server.caddy.lexis.read (.word (address ++ [',']))
              (' ' :: (List.intercalate [',', ' '] (next :: addresses) ++ rest)) =
              ⟨place, ' ' :: (List.intercalate [',', ' '] (next :: addresses) ++ rest),
                .word (address ++ [',']) :: (addressWords (next :: addresses) ++ tokens)⟩ := by
            have step : Server.caddy.lexis.step (.word (address ++ [','])) ' ' =
                (.between, [.word (address ++ [','])]) := rfl
            rw [Lexis.read, step, others]
            rfl
          rw [shape, Lexis.read_append_eq first next]
          rfl

theorem caddy_addresses {addresses : List Text} (some : addresses ≠ [])
    (each : ∀ address ∈ addresses, address ≠ [] ∧ ∀ char ∈ address, isSafe char = true) :
    Line Server.caddy.lexis (List.intercalate [',', ' '] addresses ++ [' ', '{'])
      (.line 0 :: addressWords addresses ++ [.word ['{']]) := by
  obtain ⟨char, rest, shape, safe⟩ : ∃ char rest,
      List.intercalate [',', ' '] addresses = char :: rest ∧ isSafe char = true := by
    obtain ⟨address, addresses, rfl⟩ := List.exists_cons_of_ne_nil some
    obtain ⟨someAddress, safe⟩ := each address List.mem_cons_self
    obtain ⟨char, chars, rfl⟩ := List.exists_cons_of_ne_nil someAddress
    cases addresses with
    | nil => exact ⟨char, chars, List.intercalate_singleton .., safe char List.mem_cons_self⟩
    | cons next addresses =>
        exact ⟨char, _, by simp [List.intercalate]; rfl, safe char List.mem_cons_self⟩
  constructor
  · have read := @read_addresses addresses some each ([' ', '{'] ++ ['\n']) (.start 0)
      [.word ['{']] fun _ => rfl
    rw [shape, List.cons_append] at read
    rw [shape, List.append_assoc, List.cons_append, Lexis.read_start_plain (caddy_isPlain safe),
      read]
    rfl
  · refine whole_append (forall_mem_intercalate (by decide) fun address held => ?_) (by decide)
    exact whole_of_isSafe (each address held).2
  · refine startsVisible_append ?_ _
    have notBlank := ne_of_isSafe safe (show isSafe ' ' = false by decide)
    have notComment := ne_of_isSafe safe (show isSafe '#' = false by decide)
    rw [shape, startsVisible, List.dropWhile_cons_of_neg (by simpa using notBlank)]
    simp [notComment, not_isWhitespace_of_isSafe safe]

/-- The lines of a site in Caddy's file, its comment apart. -/
theorem caddy_lines {site : Site} (checked : Checked .caddy site) :
    List.Forall₂ (Line Server.caddy.lexis) (caddyBlock (fun _ => []) site).tail
      (caddyTokens site) := by
  have some : site.domains.map (caddyAddress site) ≠ [] := by
    rw [ne_eq, List.map_eq_nil_iff]
    exact checked.domains
  have upstream : Line Server.caddy.lexis ("    reverse_proxy ".toList ++ site.upstream)
      ([.line 4, .word "reverse_proxy".toList] ++ [.word site.upstream]) := by
    have opens : Opens Server.caddy.lexis "    reverse_proxy ".toList .between
        [.line 4, .word "reverse_proxy".toList] := .literal (by decide +kernel)
    have read := @Lexis.read_between_plain Server.caddy.lexis site.upstream checked.upstream.1
      fun char held => caddy_isPlain (checked.upstream.2 char held)
    exact opens.line (Lexis.read_append_eq read rfl) (whole_of_isSafe checked.upstream.2)
  exact .cons (caddy_addresses some (caddyAddress_isSafe checked))
    (.cons upstream (.cons (.literal (by decide +kernel)) .nil))

/-! #### Traefik -/

/-- A character that stays inside quotes, and on its line. -/
def Quotable (char : Char) : Prop := Whole [char] ∧ char ≠ '"' ∧ char ≠ '\\'

instance (char : Char) : Decidable (Quotable char) :=
  inferInstanceAs (Decidable (Whole [char] ∧ char ≠ '"' ∧ char ≠ '\\'))

theorem quotable_of_isSafe {char : Char} (safe : isSafe char = true) : Quotable char := by
  refine ⟨whole_of_isSafe fun one held => ?_, ne_of_isSafe safe (by decide),
    ne_of_isSafe safe (by decide)⟩
  rwa [List.mem_singleton.mp held]

/-- A value inside quotes. -/
theorem traefik_quoted {front value back : Text} {tokens tokensToo : List Token}
    (opens : Opens Server.traefik.lexis front (.quoted '"' []) tokens)
    (valueOk : ∀ char ∈ value, Quotable char)
    (closes : Server.traefik.lexis.read .between (back ++ ['\n']) =
      ⟨.start 0, back ++ ['\n'], tokensToo⟩) (whole : Whole back) :
    Line Server.traefik.lexis (front ++ value ++ '"' :: back)
      (tokens ++ .quoted value :: tokensToo) := by
  have read := @Lexis.read_quoted Server.traefik.lexis value '"'
    (fun char held => (valueOk char held).2) []
  have last : Server.traefik.lexis.read (.quoted '"' ([] ++ value)) ('"' :: (back ++ ['\n'])) =
      ⟨.start 0, '"' :: (back ++ ['\n']), .quoted value :: tokensToo⟩ := by
    rw [Lexis.read]
    simp only [Lexis.step, if_true, closes]
    rfl
  have reads : Server.traefik.lexis.read (.quoted '"' []) (value ++ '"' :: back ++ ['\n']) =
      ⟨.start 0, value ++ '"' :: back ++ ['\n'], .quoted value :: tokensToo⟩ := by
    rw [List.append_assoc, List.cons_append, Lexis.read_append_eq read last]
    rfl
  rw [List.append_assoc]
  refine opens.line reads (whole_append (fun char held => ?_) fun char held => ?_)
  · exact (valueOk char held).1 char (List.mem_singleton_self char)
  · rcases List.mem_cons.mp held with rfl | inBack
    · decide
    · exact whole char inBack

/-- A name inside a word. -/
theorem traefik_named {front begun back : Text} {tokens : List Token} {site : Site}
    (checked : Checked .traefik site)
    (opens : Opens Server.traefik.lexis front (.word begun) tokens)
    (plain : ∀ char ∈ back, Server.traefik.lexis.isPlain char = true) (whole : Whole back) :
    Line Server.traefik.lexis (front ++ (site.name ++ back))
      (tokens ++ [.word (begun ++ (site.name ++ back))]) := by
  have allPlain : ∀ char ∈ site.name ++ back, Server.traefik.lexis.isPlain char = true :=
    fun char held => (List.mem_append.mp held).elim
      (fun inName => traefik_isPlain (checked.name.2 char inName)) (plain char)
  have name : Whole site.name := whole_of_isSafe fun char held =>
    isSafe_of_isDomainChar (isDomainChar_of_isNameChar (checked.name.2 char held))
  exact opens.line (Lexis.read_append_eq (Lexis.read_word_plain allPlain begun) rfl)
    (whole_append name whole)

theorem traefik_header {site : Site} (checked : Checked .traefik site) :
    Line Server.traefik.lexis ("    sbm-".toList ++ site.name ++ [':'])
      [.line 4, .word (routerName site ++ [':'])] := by
  have line := @traefik_named "    sbm-".toList "sbm-".toList [':'] [.line 4] site checked
    (.literal (by decide +kernel)) (by decide) (by decide)
  rw [← List.append_assoc, ← List.append_assoc] at line
  exact line

theorem traefikRule_quotable {site : Site} (checked : Checked .traefik site) :
    ∀ char ∈ traefikRule site, Quotable char := by
  refine forall_mem_intercalate (by decide +kernel) fun part held => ?_
  obtain ⟨domain, inDomains, rfl⟩ := List.mem_map.mp held
  have front : ∀ char ∈ "Host(`".toList, Quotable char := by decide +kernel
  have back : ∀ char ∈ "`)".toList, Quotable char := by decide +kernel
  intro char inPart
  rcases List.mem_append.mp inPart with inFront | inBack
  · rcases List.mem_append.mp inFront with inFront | inDomain
    · exact front char inFront
    · exact quotable_of_isSafe
        (isSafe_of_isDomainChar ((checked.domain domain inDomains).2 char inDomain))
  · exact back char inBack

theorem traefik_bracketed {front value : Text} {tokens : List Token}
    (opens : Opens Server.traefik.lexis front (.quoted '"' []) tokens)
    (valueOk : ∀ char ∈ value, Quotable char) :
    Line Server.traefik.lexis (front ++ value ++ "\"]".toList)
      (tokens ++ [.quoted value, .mark ']']) := by
  have bracket : "\"]".toList = ['"', ']'] := by simp
  rw [bracket]
  exact traefik_quoted opens valueOk rfl (by decide)

/-- The lines of a site's router, its comment apart. -/
theorem traefikRouter_lines {site : Site} (checked : Checked .traefik site) :
    List.Forall₂ (Line Server.traefik.lexis) (traefikRouter (fun _ => []) site).tail
      (traefikRouterTokens site) := by
  have entry : ∀ char ∈ (entryPoint site).toList, Quotable char := by
    unfold entryPoint
    cases site.tls <;> decide +kernel
  have rule : Line Server.traefik.lexis ("      rule: \"".toList ++ traefikRule site ++ ['"'])
      [.line 6, .word "rule:".toList, .quoted (traefikRule site)] :=
    @traefik_quoted _ _ [] [.line 6, .word "rule:".toList] [] (.literal (by decide +kernel))
      (traefikRule_quotable checked) rfl (by decide)
  have entryPoints : Line Server.traefik.lexis
      ("      entryPoints: [\"".toList ++ (entryPoint site).toList ++ "\"]".toList)
      [.line 6, .word "entryPoints:".toList, .mark '[', .quoted (entryPoint site).toList,
        .mark ']'] :=
    @traefik_bracketed _ _ [.line 6, .word "entryPoints:".toList, .mark '[']
      (.literal (by decide +kernel)) entry
  have service : Line Server.traefik.lexis ("      service: sbm-".toList ++ site.name)
      [.line 6, .word "service:".toList, .word (routerName site)] := by
    have line := @traefik_named "      service: sbm-".toList "sbm-".toList []
      [.line 6, .word "service:".toList] site checked (.literal (by decide +kernel)) nofun nofun
    rw [List.append_nil] at line
    exact line
  refine List.rel_append (List.rel_append (.cons (traefik_header checked) (.cons rule
    (.cons entryPoints (.cons service .nil)))) ?_) ?_
  · cases site.waf with
    | false => exact .nil
    | true =>
        have middleware : ∀ char ∈ traefikMiddleware.toList, Quotable char :=
          @Text.of_literal (fun text => ∀ char ∈ text, Quotable char) _ (by decide +kernel)
        exact .cons (@traefik_bracketed _ _ [.line 6, .word "middlewares:".toList, .mark '[']
          (.literal (by decide +kernel)) middleware) .nil
  · cases site.tls with
    | false => exact .nil
    | true =>
        have resolver : Line Server.traefik.lexis
            ("        certResolver: ".toList ++ traefikResolver.toList)
            [.line 8, .word "certResolver:".toList, .word traefikResolver.toList] := by
          decide +kernel
        exact .cons (.literal (by decide +kernel)) (.cons resolver .nil)

theorem traefikService_lines {site : Site} (checked : Checked .traefik site) :
    List.Forall₂ (Line Server.traefik.lexis) (traefikService site) (traefikServiceTokens site) := by
  have url : Line Server.traefik.lexis ("          - url: \"".toList ++ site.upstream ++ ['"'])
      [.line 10, .word ['-'], .word "url:".toList, .quoted site.upstream] :=
    @traefik_quoted _ _ [] [.line 10, .word ['-'], .word "url:".toList] []
      (.literal (by decide +kernel))
      (fun char held => quotable_of_isSafe (checked.upstream.2 char held)) rfl (by decide)
  exact .cons (traefik_header checked) (.cons (.literal (by decide +kernel))
    (.cons (.literal (by decide +kernel)) (.cons url .nil)))

theorem traefikNone_lines :
    List.Forall₂ (Line Server.traefik.lexis) traefikNone traefikNoneTokens :=
  .cons (.literal (by decide +kernel)) (.cons (.literal (by decide +kernel))
    (.cons (.literal (by decide +kernel)) (.cons (.literal (by decide +kernel))
      (.cons (.literal (by decide +kernel)) (.cons (.literal (by decide +kernel)) .nil)))))

end ServerBox.Proxy
