import ServerBox.Std.JsonText
import ServerBox.Std.TextLines
import ServerBox.Std.Utf8

/-!
# The sites of a reverse proxy

`src/crates/sbm_parser/src/proxy.rs`: the sites that ServerBox makes for nginx, Caddy and
Traefik, what is checked of each (`check_site`), the file they are written to (`render`), each
after a comment that holds it as JSON, and how they are read back (`managed_sites`).
-/

namespace ServerBox.Proxy

open ServerBox.Std

/-- `Server`. -/
inductive Server where
  | nginx
  | caddy
  | traefik
  deriving DecidableEq

structure Site where
  name : Text
  domains : List Text
  upstream : Text
  tls : Bool
  cert : Option Text
  key : Option Text
  maxBodyMb : Option Nat
  waf : Bool
  managed : Bool
  deriving DecidableEq

/-- `META`, without its last space. -/
def metaStart : String := "# serverbox:"

/-! ### A site as JSON -/

/-- A member that is written only where there is a value. -/
def optional {Value : Type} (name : String) (value : Option Value) : List (Text × Value) :=
  match value with
  | some value => [(name.toList, value)]
  | none => []

/-- `serde_json::to_string`: the certificate's paths and the body size only where they are
given, the firewall only where it is on. -/
def Site.toText (site : Site) : Text :=
  JsonText.object
    ([("name".toList, JsonText.string site.name),
      ("domains".toList, JsonText.array (site.domains.map JsonText.string)),
      ("upstream".toList, JsonText.string site.upstream),
      ("tls".toList, JsonText.bool site.tls)] ++
      optional "cert" (site.cert.map JsonText.string) ++
      optional "key" (site.key.map JsonText.string) ++
      optional "maxBodyMb" (site.maxBodyMb.map Text.decimal) ++
      optional "waf" (if site.waf then some (JsonText.bool true) else none) ++
      [("managed".toList, JsonText.bool site.managed)])

/-- The fields, in the order that an array is read in. -/
def fieldNames : List String :=
  ["name", "domains", "upstream", "tls", "cert", "key", "maxBodyMb", "waf", "managed"]

def readText : JsonText.Node → Option Text
  | .string text => some text
  | _ => none

def readTexts : JsonText.Node → Option (List Text)
  | .array items => items.mapM readText
  | _ => none

def readBool : JsonText.Node → Option Bool
  | .bool value => some value
  | _ => none

/-- A `u32`. -/
def readNumber : JsonText.Node → Option Nat
  | .number token =>
      if token.all Char.isDigit && Text.digitsValue token < 2 ^ 32 then
        some (Text.digitsValue token)
      else none
  | _ => none

/-- A field that may be missing, as `#[serde(default)]` takes it. -/
def readOr {Value : Type} (read : JsonText.Node → Option Value) (default : Value) :
    Option JsonText.Node → Option Value
  | none => some default
  | some node => read node

/-- `null` is no value. -/
def readOption {Value : Type} (read : JsonText.Node → Option Value) :
    JsonText.Node → Option (Option Value)
  | .null => some none
  | node => (read node).map some

/-- A site from its fields, by their places in `fieldNames`. -/
def Site.ofFields (field : Nat → Option JsonText.Node) : Option Site := do
  let name ← (field 0).bind readText
  let domains ← (field 1).bind readTexts
  let upstream ← (field 2).bind readText
  let tls ← readOr readBool false (field 3)
  let cert ← readOr (readOption readText) none (field 4)
  let key ← readOr (readOption readText) none (field 5)
  let maxBodyMb ← readOr (readOption readNumber) none (field 6)
  let waf ← readOr readBool false (field 7)
  let managed ← readOr readBool false (field 8)
  some { name, domains, upstream, tls, cert, key, maxBodyMb, waf, managed }

/-- The members of an object with one of the site's names. -/
def given (members : List (Text × JsonText.Node)) (place : Nat) : List (Text × JsonText.Node) :=
  members.filter fun member => (fieldNames.getD place "").toList = member.1

/-- A name given twice is an error, one that is not the site's is ignored. -/
def Site.ofNode : JsonText.Node → Option Site
  | .object members =>
      if (List.range fieldNames.length).all fun place => (given members place).length ≤ 1 then
        Site.ofFields fun place => (given members place).head?.map Prod.snd
      else none
  | .array items =>
      if items.length ≤ fieldNames.length then Site.ofFields fun place => items[place]? else none
  | _ => none

/-- `serde_json::from_str::<Site>`. -/
def Site.ofText (text : Text) : Option Site := (JsonText.fromStr text).bind Site.ofNode

/-- The site that a line holds. -/
def siteOf (line : Text) : Option Site := do
  let json ← Text.stripPrefix metaStart (Text.trim line)
  let site ← Site.ofText (Text.trim json)
  some { site with managed := true }

/-- The sites of a file: each line that holds one. -/
def managedSites (text : Text) : List Site := (Text.lines text).filterMap siteOf

/-! ### What is checked -/

/-- `str::len`. -/
def byteLength (text : Text) : Nat := (Utf8.encode text).length

/-- `char::is_control`. -/
def isControl (char : Char) : Bool :=
  char.toNat < 0x20 || (0x7F ≤ char.toNat && char.toNat < 0xA0)

def isSafe (char : Char) : Bool :=
  !(isControl char || Text.isWhitespace char ||
    char ∈ ['"', '\'', Char.ofNat 0x60, '\\', '{', '}', ';', '$', '#'])

def safe (text : Text) : Bool :=
  !text.isEmpty && byteLength text ≤ 2048 && text.all isSafe

def isLowercase (char : Char) : Bool := 'a' ≤ char && char ≤ 'z'

def isNameChar (char : Char) : Bool := isLowercase char || char.isDigit || char = '-'

def domainOk (domain : Text) (server : Server) : Bool :=
  if server = .caddy && domain.head? = some ':' then
    match Text.parseUnsigned 65535 domain.tail with
    | some port => port > 0
    | none => false
  else
    let host := (Text.stripPrefix "*." domain).getD domain
    1 ≤ byteLength host && byteLength host ≤ 253 &&
      (host.splitOn '.').all (fun label =>
        1 ≤ byteLength label && byteLength label ≤ 63 && label.head? ≠ some '-' &&
          label.getLast? ≠ some '-') &&
      host.all fun char => isNameChar char || char = '.'

/-- `str::split("://").nth(1)`. -/
def afterScheme (text : Text) : Option Text :=
  match text with
  | [] => none
  | char :: rest =>
      match Text.stripPrefix "://" (char :: rest) with
      | some after => some (beforeScheme after)
      | none => afterScheme rest
where
  /-- A text up to the next `://`. -/
  beforeScheme : Text → Text
    | [] => []
    | char :: rest =>
        if "://".toList.isPrefixOf (char :: rest) then [] else char :: beforeScheme rest

def upstreamOk (upstream : Text) : Bool :=
  safe upstream &&
    ("http://".toList.isPrefixOf upstream || "https://".toList.isPrefixOf upstream) &&
    match afterScheme upstream with
    | some rest => !rest.isEmpty && rest.head? ≠ some '/'
    | none => false

def pathOk : Option Text → Bool
  | some path =>
      path.head? = some '/' && safe path && !(path.splitOn '/').any (· = ['.', '.'])
  | none => false

def checkSite (site : Site) (server : Server) : Except String Unit :=
  if !(1 ≤ byteLength site.name && byteLength site.name ≤ 40) || !site.name.all isNameChar then
    .error "invalidName"
  else if site.domains.isEmpty || site.domains.length > 16 ||
      !site.domains.all (domainOk · server) then
    .error "invalidDomain"
  else if !upstreamOk site.upstream then .error "invalidUpstream"
  else if server = .nginx && site.tls && (!pathOk site.cert || !pathOk site.key) then
    .error "needsCertificate"
  else if site.maxBodyMb.any fun size => size = 0 || size > 100000 then .error "invalidBodySize"
  else if site.waf && server = .caddy then .error "wafUnsupported"
  else .ok ()

structure SiteError where
  error : String
  site : Text

/-- The checks of `render`, of each site in turn after those of the names given. -/
def checkSites (server : Server) (tlsResolver : Bool) :
    List Text → List Site → Except SiteError Unit
  | _, [] => .ok ()
  | names, site :: sites =>
      match checkSite site server with
      | .error error => .error ⟨error, site.name⟩
      | .ok () =>
          if site.name ∈ names then .error ⟨"duplicate", site.name⟩
          else if server = .traefik && site.tls && !tlsResolver then
            .error ⟨"needsResolver", site.name⟩
          else checkSites server tlsResolver (site.name :: names) sites

/-! ### What is written -/

/-- `waf::NGINX_RULES`. -/
def nginxRules : String := "/etc/nginx/modsecurity/serverbox.conf"

/-- `waf::TRAEFIK_MIDDLEWARE`. -/
def traefikMiddleware : String := "sbm-waf@file"

def traefikResolver : String := "serverbox"

/-- The first line of every file. -/
def title : Text :=
  "# Sites made in ServerBox. Rewritten by it: changes here are lost.".toList

/-- The comment before a site. -/
def note (site : Site) : Text :=
  metaStart.toList ++ ' ' :: { site with managed := false }.toText

/-- The lines of a site in nginx's file, after the one given. -/
def nginxBlock (note : Site → Text) (site : Site) : List Text :=
  note site :: "server \x7b".toList ::
    ((if site.tls then
      ["    listen 443 ssl;".toList,
        "    listen [::]:443 ssl;".toList,
        "    ssl_certificate ".toList ++ site.cert.getD [] ++ [';'],
        "    ssl_certificate_key ".toList ++ site.key.getD [] ++ [';']]
    else ["    listen 80;".toList, "    listen [::]:80;".toList]) ++
    ["    server_name ".toList ++ Text.join ' ' site.domains ++ [';']] ++
    (match site.maxBodyMb with
      | some size => ["    client_max_body_size ".toList ++ Text.decimal size ++ ['m', ';']]
      | none => []) ++
    (if site.waf then
      ["    modsecurity on;".toList,
        "    modsecurity_rules_file ".toList ++ nginxRules.toList ++ [';']]
    else []) ++
    ["    location / \x7b".toList,
      "        proxy_pass ".toList ++ site.upstream ++ [';'],
      "        proxy_http_version 1.1;".toList,
      "        proxy_set_header Host $host;".toList,
      "        proxy_set_header X-Real-IP $remote_addr;".toList,
      "        proxy_set_header X-Forwarded-For $proxy_add_x_forwarded_for;".toList,
      "        proxy_set_header X-Forwarded-Proto $scheme;".toList,
      "        proxy_set_header Upgrade $http_upgrade;".toList,
      "        proxy_set_header Connection $http_connection;".toList,
      "        proxy_read_timeout 1h;".toList,
      "    \x7d".toList,
      "\x7d".toList])

/-- A domain as Caddy's site address: over HTTP alone where the site has no TLS. -/
def caddyAddress (site : Site) (domain : Text) : Text :=
  if site.tls || domain.head? = some ':' then domain else "http://".toList ++ domain

def caddyBlock (note : Site → Text) (site : Site) : List Text :=
  [note site,
    List.intercalate [',', ' '] (site.domains.map (caddyAddress site)) ++ [' ', '{'],
    "    reverse_proxy ".toList ++ site.upstream,
    "\x7d".toList]

/-- The rule of a site's router. -/
def traefikRule (site : Site) : Text :=
  List.intercalate " || ".toList
    (site.domains.map fun domain => "Host(`".toList ++ domain ++ "`)".toList)

/-- Where a site's router takes its requests. -/
def entryPoint (site : Site) : String := if site.tls then "websecure" else "web"

def traefikRouter (note : Site → Text) (site : Site) : List Text :=
  ["    ".toList ++ note site,
    "    sbm-".toList ++ site.name ++ [':'],
    "      rule: \"".toList ++ traefikRule site ++ ['"'],
    "      entryPoints: [\"".toList ++ (entryPoint site).toList ++ "\"]".toList,
    "      service: sbm-".toList ++ site.name] ++
  (if site.waf then
    ["      middlewares: [\"".toList ++ traefikMiddleware.toList ++ "\"]".toList]
  else []) ++
  (if site.tls then
    ["      tls:".toList, "        certResolver: ".toList ++ traefikResolver.toList]
  else [])

def traefikService (site : Site) : List Text :=
  ["    sbm-".toList ++ site.name ++ [':'],
    "      loadBalancer:".toList,
    "        servers:".toList,
    "          - url: \"".toList ++ site.upstream ++ ['"']]

/-- `TRAEFIK_NONE`. -/
def traefikNone : List Text :=
  ["http:".toList,
    "  middlewares:".toList,
    "    sbm-none:".toList,
    "      headers:".toList,
    "        customResponseHeaders:".toList,
    "          X-Serverbox-None: \"\"".toList]

/-- The lines of the file after its first, each site's after the one given. -/
def blocks (server : Server) (note : Site → Text) (sites : List Site) : List Text :=
  match server with
  | .nginx => sites.flatMap (nginxBlock note)
  | .caddy => sites.flatMap (caddyBlock note)
  | .traefik =>
      if sites.isEmpty then traefikNone
      else
        ["http:".toList, "  routers:".toList] ++ sites.flatMap (traefikRouter note) ++
          "  services:".toList :: sites.flatMap traefikService

/-- Each line with its end. -/
def unlines (lines : List Text) : Text := lines.flatMap fun line => line ++ ['\n']

def render (server : Server) (sites : List Site) (tlsResolver : Bool) : Except SiteError Text := do
  checkSites server tlsResolver [] sites
  .ok (unlines (title :: blocks server note sites))

end ServerBox.Proxy
