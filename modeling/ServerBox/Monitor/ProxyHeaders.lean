import ServerBox.Std.Glue
import Mathlib.Data.List.Forall2

/-!
# A proxied app's response headers

`frame_ancestors` and `rewrite_response_headers` of `src/monitor/src/stacks/proxy.rs`: a
service's answer loses its `X-Frame-Options`, its policies get the panel's origins to be
framed by, and over TLS its cookies are made to be sent in a frame on another site. The
headers are then read as a browser reads them.
-/

namespace ServerBox.Monitor.ProxyHeaders

open ServerBox.Std

/-! ### Headers -/

/-- A header's name, in lower case. -/
inductive Name where
  | xFrameOptions
  | contentSecurityPolicy
  | setCookie
  | other (name : Text)
deriving DecidableEq

/-- A header, with the bytes of its value as characters. -/
structure Header where
  name : Name
  value : Text
deriving DecidableEq

abbrev Headers := List Header

/-- `HeaderMap::get_all`. -/
def getAll (headers : Headers) (name : Name) : List Text :=
  (headers.filter fun header => header.name = name).map Header.value

/-- `HeaderMap::remove`. -/
def remove (headers : Headers) (name : Name) : Headers :=
  headers.filter fun header => header.name ≠ name

/-- `HeaderMap::append`. -/
def append (headers : Headers) (name : Name) (value : Text) : Headers := headers ++ [⟨name, value⟩]

def isVisible (char : Char) : Bool := char = '\t' || (0x20 ≤ char.toNat && char.toNat < 0x7F)

/-- `HeaderValue::to_str`: a value of visible ASCII characters, blanks and tabs. -/
def toStr (value : Text) : Option Text := if value.all isVisible then some value else none

def isValid (char : Char) : Bool := char = '\t' || (0x20 ≤ char.toNat && char.toNat ≠ 0x7F)

/-- `HeaderValue::from_str`. -/
def fromStr (text : Text) : Option Text := if text.all isValid then some text else none

/-! ### The code -/

/-- `to_ascii_lowercase`. -/
def toAsciiLowercase (text : Text) : Text := text.map Char.toLower

/-- `split(';')`, each part trimmed. -/
def splitParts (value : Text) : List Text := (value.splitOn ';').map Text.trim

/-- `join("; ")`. -/
def joinParts (parts : List Text) : Text := [';', ' '].intercalate parts

/-- Values rewritten and appended one after the other. -/
def rewriteEach (name : Name) (rewrite : Text → Text) (headers : Headers) (values : List Text) :
    Headers :=
  values.foldl (fun headers value =>
    match fromStr (rewrite value) with
    | some rewritten => append headers name rewritten
    | none => headers) headers

/-- Every readable header of a name, rewritten. -/
def rewriteAll (headers : Headers) (name : Name) (rewrite : Text → Text) : Headers :=
  let values := (getAll headers name).filterMap toStr
  if values.isEmpty then headers
  else rewriteEach name rewrite (remove headers name) values

/-- `frame-ancestors`, with the agent's own host on any port and the origins. -/
def frameAncestors (host : Text) (secure : Bool) (origins : List Text) : Text :=
  let scheme := if secure then "https".toList else "http".toList
  let bare :=
    if host.head? = some '[' ∧ ']' ∈ host then host.takeWhile (· ≠ ']') ++ [']']
    else host.takeWhile (· ≠ ':')
  origins.foldl (fun out origin => out ++ ' ' :: origin)
    ("frame-ancestors 'self' ".toList ++ scheme ++ "://".toList ++ bare ++ ":*".toList)

def frameAncestorsName : Text := "frame-ancestors".toList

/-- Whether a part of a policy is taken for its `frame-ancestors`. -/
def isFraming (part : Text) : Bool := frameAncestorsName.isPrefixOf (toAsciiLowercase part)

def rewritePolicy (ancestors policy : Text) : Text :=
  joinParts ((splitParts policy).filter (fun part => !part.isEmpty && !isFraming part) ++
    [ancestors])

/-- Whether a part of a cookie is kept. -/
def staysInCookie (part : Text) : Bool :=
  let lower := toAsciiLowercase part
  !"samesite".toList.isPrefixOf lower && lower ≠ "secure".toList && lower ≠ "partitioned".toList

/-- The attributes that every cookie is given. -/
def crossSiteParts : List Text := ["SameSite=None".toList, "Secure".toList, "Partitioned".toList]

def rewriteCookie (cookie : Text) : Text :=
  joinParts ((splitParts cookie).filter staysInCookie ++ crossSiteParts)

def rewriteResponseHeaders (headers : Headers) (ancestors : Text) (secure : Bool) : Headers :=
  let headers := remove headers .xFrameOptions
  let headers := rewriteAll headers .contentSecurityPolicy (rewritePolicy ancestors)
  if secure then rewriteAll headers .setCookie rewriteCookie else headers

/-! ### What a browser reads -/

/-- A policy's directive: its name in lower case, and its value's words. -/
structure Directive where
  name : Text
  words : List Text
deriving DecidableEq

def readDirective (text : Text) : Directive :=
  ⟨toAsciiLowercase (text.takeWhile (!Text.isWhitespace ·)),
    Text.splitWhitespace (text.dropWhile (!Text.isWhitespace ·))⟩

/-- The directive between two separators, if one stands there. -/
def directives (text : Text) : List Directive :=
  let text := Text.trim text
  if text.isEmpty then [] else [readDirective text]

/-- The policies of a header, each with its directives. -/
def policies (value : Text) : List (List Directive) :=
  (value.splitOn ',').map fun policy => (policy.splitOn ';').flatMap directives

def Directive.isFrameAncestors (directive : Directive) : Bool := directive.name = frameAncestorsName

/-- The directive that says who may frame a response, which is the first of a policy's. -/
def framing (policy : List Directive) : Option Directive :=
  policy.find? Directive.isFrameAncestors

def others (policy : List Directive) : List Directive :=
  policy.filter (!·.isFrameAncestors)

/-- The policies of a response. -/
def allPolicies (headers : Headers) : List (List Directive) :=
  (getAll headers .contentSecurityPolicy).flatMap policies

/-- A cookie's attribute's name, in lower case. -/
def attributeName (part : Text) : Text :=
  toAsciiLowercase (Text.trim (part.takeWhile (· ≠ '=')))

def attributeValue (part : Text) : Text := Text.trim ((part.dropWhile (· ≠ '=')).drop 1)

structure Cookie where
  /-- The cookie's name and its value. -/
  pair : Text
  attributes : List Text
deriving DecidableEq

def readCookie (value : Text) : Cookie :=
  match splitParts value with
  | [] => ⟨[], []⟩
  | pair :: attributes => ⟨pair, attributes⟩

/-- The attributes that say where a cookie is sent. -/
def isSiteAttribute (part : Text) : Bool :=
  attributeName part ∈ ["samesite".toList, "secure".toList, "partitioned".toList]

def Cookie.others (cookie : Cookie) : List Text := cookie.attributes.filter (!isSiteAttribute ·)

/-- `SameSite=None; Secure; Partitioned`: of several `SameSite` the last one holds. -/
def Cookie.crossSite (cookie : Cookie) : Bool :=
  ((cookie.attributes.filter fun part => attributeName part = "samesite".toList).getLast?.any
    fun part => toAsciiLowercase (attributeValue part) = "none".toList) &&
  (cookie.attributes.any fun part => attributeName part = "secure".toList) &&
  cookie.attributes.any fun part => attributeName part = "partitioned".toList

/-! ### The property -/

/-- A `frame-ancestors` directive. -/
structure Ancestors where
  text : Text
  visible : text.all isVisible = true
  single : ',' ∉ text ∧ ';' ∉ text
  trimmed : Text.trim text = text
  named : (readDirective text).isFrameAncestors = true

/-- Whether just those ancestors may frame a response. -/
structure FramedBy (ancestors : Ancestors) (headers : Headers) : Prop where
  options : getAll headers .xFrameOptions = []
  limited : ∃ policy ∈ allPolicies headers, (framing policy).isSome
  only : ∀ policy ∈ allPolicies headers, ∀ directive ∈ framing policy,
    directive = readDirective ancestors.text

/-- Whether a cookie is the same but for where it is sent, which is in frames of any site. -/
structure CookieKept (before after : Text) : Prop where
  pair : (readCookie after).pair = (readCookie before).pair
  others : (readCookie after).others = (readCookie before).others
  crossSite : (readCookie after).crossSite = true

/-- Whether a response was rewritten in what is the proxy's own and in nothing else. -/
structure RewrittenOwn (ancestors : Ancestors) (secure : Bool) (before after : Headers) :
    Prop where
  framed : FramedBy ancestors after
  policies : (allPolicies after).map ProxyHeaders.others =
    (allPolicies before).map ProxyHeaders.others
  cookies : if secure then
      List.Forall₂ CookieKept (getAll before .setCookie) (getAll after .setCookie)
    else getAll after .setCookie = getAll before .setCookie
  rest : ∀ name, getAll after (.other name) = getAll before (.other name)

end ServerBox.Monitor.ProxyHeaders
