import Mathlib.Data.List.Sort
import ServerBox.Firewall.Ufw
import ServerBox.Std.Table

/-!
# firewalld's zones

`src/crates/sbm_parser/src/firewall/firewalld.rs`: rich rules read, what a zone says of a new
connection, the zones that one may be handled by, and what a snapshot of both configurations
says of an access.
-/

namespace ServerBox.Firewall

open ServerBox.Std

/-- What a zone does with what nothing in it matched. -/
inductive FirewalldTarget where
  | defaultTarget
  | accept
  | drop
  | reject
deriving DecidableEq, Repr

structure FirewalldPort where
  port : Text
  protocol : Text
deriving DecidableEq, Repr

def tcp : Text := "tcp".toList

def FirewalldPort.covers (spec : FirewalldPort) (port : Nat) (protocol : Text) : Bool :=
  spec.protocol = protocol && portSpecCovers (some spec.port) port

/-- The ports of each service, by name. -/
abbrev FirewalldServices := Table Text (List FirewalldPort)

/-! ### Rich rules -/

structure FirewalldRichRule where
  raw : Text
  priority : Int
  family : Option Text
  source : Option Text
  sourceNot : Bool
  /-- A source by ipset or MAC. -/
  sourceOther : Bool
  destination : Option Text
  destinationNot : Bool
  element : Option Text
  service : Option Text
  port : Option Text
  protocol : Option Text
  action : Option Text
  /-- The action has a `limit`. -/
  limited : Bool
deriving DecidableEq, Repr

/-- What `TOKEN` matches: `name="value"`, or else a word. -/
inductive RichToken where
  | attribute (name value : Text)
  | word (text : Text)
deriving DecidableEq, Repr

def isAttributeChar (char : Char) : Bool := char.isAlphanum || char = '_' || char = '-'

/-- `name="value"` at the start of a text, and what follows it. -/
def readAttribute (text : Text) : Option (RichToken × Text) :=
  let name := text.takeWhile isAttributeChar
  match name, text.drop name.length with
  | _ :: _, '=' :: '"' :: rest =>
      let value := rest.takeWhile (· ≠ '"')
      match rest.drop value.length with
      | _ :: rest => some (.attribute name value, rest)
      | [] => none
  | _, _ => none

/-- The matches in a text of at most `fuel` characters. -/
def richTokens : Nat → Text → List RichToken
  | 0, _ => []
  | _, [] => []
  | fuel + 1, char :: rest =>
      if Text.isWhitespace char then richTokens fuel rest
      else match readAttribute (char :: rest) with
        | some (token, rest) => token :: richTokens fuel rest
        | none =>
            .word ((char :: rest).takeWhile fun char => !Text.isWhitespace char) ::
              richTokens fuel ((char :: rest).dropWhile fun char => !Text.isWhitespace char)

/-- `i32::from_str`. -/
def parsePriority : Text → Option Int
  | '-' :: digits =>
      if digits.head? = some '+' then none
      else (Text.parseUnsigned (2 ^ 31) digits).map fun value => -(value : Int)
  | text => (Text.parseUnsigned (2 ^ 31 - 1) text).map fun value => (value : Int)

namespace FirewalldRichRule

def elements : List String :=
  ["service", "port", "protocol", "icmp-block", "icmp-type", "masquerade", "forward-port",
    "source-port", "tcp-mss-clamp"]

def actions : List String := ["accept", "reject", "drop", "mark"]

def isOneOf (names : List String) (word : Text) : Bool := names.any fun name => name.toList = word

/-- A word of a rule, after `context`: the rule with it, and the context of what follows. -/
def readWord (context : Option Text) (rule : FirewalldRichRule) (word : Text) :
    FirewalldRichRule × Option Text :=
  if word = "not".toList then
    if context = some "source".toList then ({ rule with sourceNot := true }, context)
    else if context = some "destination".toList then ({ rule with destinationNot := true }, context)
    else (rule, context)
  else if word = "limit".toList then
    ({ rule with limited := rule.limited || context.any (isOneOf actions) }, some word)
  else
    ({ rule with
        element := if isOneOf elements word then some word else rule.element
        action := if isOneOf actions word then some word else rule.action }, some word)

def readValue (context : Option Text) (rule : FirewalldRichRule) (name value : Text) :
    FirewalldRichRule :=
  let named (word key : String) : Bool := context = some word.toList && name = key.toList
  if named "rule" "priority" then { rule with priority := (parsePriority value).getD 0 }
  else if named "rule" "family" then { rule with family := some value }
  else if named "source" "address" then { rule with source := some value }
  else if named "source" "ipset" || named "source" "mac" then { rule with sourceOther := true }
  else if named "destination" "address" then { rule with destination := some value }
  else if named "service" "name" then { rule with service := some value }
  else if named "port" "port" then { rule with port := some value }
  else if named "port" "protocol" || named "protocol" "value" then
    { rule with protocol := some value }
  else rule

def readTokens (context : Option Text) (rule : FirewalldRichRule) :
    List RichToken → FirewalldRichRule
  | [] => rule
  | .word word :: tokens =>
      let (rule, context) := readWord context rule word
      readTokens context rule tokens
  | .attribute name value :: tokens => readTokens context (readValue context rule name value) tokens

def parse (raw : Text) : FirewalldRichRule :=
  readTokens none
    { raw, priority := 0, family := none, source := none, sourceNot := false
      sourceOther := false, destination := none, destinationNot := false, element := none
      service := none, port := none, protocol := none, action := none, limited := false }
    (richTokens raw.length raw)

/-- What a rule's action does to what it matches; none where it decides nothing. -/
def verdict (rule : FirewalldRichRule) : Option FirewallReach :=
  if rule.action = some "accept".toList then some (if rule.limited then .limited else .open)
  else if rule.action = some "reject".toList ∨ rule.action = some "drop".toList then some .blocked
  else none

def familyName (address : IpAddr) : Text := if address.isIpv6 then "ipv6".toList else "ipv4".toList

/-- Whether a rule's family is a client's, as far as the client is known. -/
def familyHolds (family : Option Text) (client : Option IpAddr) : Option Bool :=
  match client, family with
  | _, none => some true
  | some client, some family => some (family = familyName client)
  | none, some _ => none

/-- Whether an end's network, or what is not in it, holds an address. -/
def endHolds (network : Option Text) (isNot : Bool) (address : Option IpAddr) : Option Bool :=
  match network with
  | none => some true
  | some network => (holds network address).map fun contains => contains != isNot

/-- Whether a rule's element is one of a TCP connection to a port. -/
def elementHolds (rule : FirewalldRichRule) (services : FirewalldServices) (port : Nat) :
    Option Bool :=
  match rule.element with
  | none => some true
  | some element =>
      if element = "service".toList then
        (rule.service.bind (services.lookup ·)).map fun ports => ports.any (·.covers port tcp)
      else if element = "port".toList then
        some (rule.protocol = some tcp && portSpecCovers rule.port port)
      else if element = "protocol".toList then some (rule.protocol = some tcp)
      else if element = "source-port".toList then none
      else some false

/-- What `judge` asks of a rule: each holds, does not, or is not known. -/
def questions (rule : FirewalldRichRule) (access : FirewallAccess) (services : FirewalldServices) :
    List (Option Bool) :=
  [familyHolds rule.family access.clientIp,
    if rule.sourceOther then none else some true,
    endHolds rule.source rule.sourceNot access.clientIp,
    endHolds rule.destination rule.destinationNot access.serverIp,
    rule.elementHolds services access.port]

/-- What a rule decides for a new connection like an access; none when it surely does not apply,
or decides nothing. -/
def judge (rule : FirewalldRichRule) (access : FirewallAccess) (services : FirewalldServices) :
    Option Judged := do
  let verdict ← rule.verdict
  let questions := rule.questions access services
  if some false ∈ questions then none
  else some { verdict, sure := questions.all Option.isSome }

end FirewalldRichRule

/-! ### Zones -/

/-- A zone as one configuration has it, as far as it decides what gets through. -/
structure FirewalldZone where
  name : Text
  target : FirewalldTarget
  interfaces : List Text
  sources : List Text
  services : List Text
  ports : List FirewalldPort
  protocols : List Text
  sourcePorts : List FirewalldPort
  forwardPorts : List Text
  richRules : List FirewalldRichRule
deriving DecidableEq, Repr

/-- The last value of a key of `port=80:proto=tcp:toport=8080:toaddr=`. -/
def forwardField (spec : Text) (key : String) : Option Text :=
  let fields := (spec.splitOn ':').filterMap fun part =>
    (Text.splitOnce '=' part).filter fun field => !field.1.isEmpty
  fields.reverse.lookup key.toList

/-- Whether a forwarded port is of the TCP connections to a port. -/
def forwards (port : Nat) (spec : Text) : Bool :=
  forwardField spec "proto" = some tcp && portSpecCovers (forwardField spec "port") port

namespace FirewalldZone

variable (zone : FirewalldZone)

/-- The rich rules by their priority, those of one in their order. -/
def sorted : List FirewalldRichRule :=
  zone.richRules.insertionSort fun left right => left.priority ≤ right.priority

/-- What the rules of some priorities decide. -/
def judged (access : FirewallAccess) (services : FirewalldServices) (pick : Int → Bool) :
    List Judged :=
  (zone.sorted.filter fun rule => pick rule.priority).filterMap (·.judge access services)

/-- Whether the zone's own protocols, ports and services let a port in. -/
def admitted (services : FirewalldServices) (port : Nat) : Bool :=
  zone.protocols.any (· = tcp) || zone.ports.any (·.covers port tcp) ||
    services.entries.any fun entry => entry.1 ∈ zone.services && entry.2.any (·.covers port tcp)

/-- What the zone's own entries let in, for sure and maybe. -/
def ownChecks (services : FirewalldServices) (port : Nat) : List Judged :=
  (if zone.admitted services port then [⟨.open, true⟩] else []) ++
  (if zone.services.any fun name => name ∉ services then [⟨.open, false⟩] else []) ++
  (if zone.sourcePorts.any fun spec => spec.protocol = tcp then [⟨.open, false⟩] else [])

/-- What is asked of a connection, in firewalld's order. -/
def checks (access : FirewallAccess) (services : FirewalldServices) : List Judged :=
  let atZero := zone.judged access services (· = 0)
  (zone.forwardPorts.filter (forwards access.port)).map (fun _ => ⟨.blocked, false⟩) ++
    zone.judged access services (· < 0) ++
    atZero.filter (fun check => check.verdict = .blocked) ++
    zone.ownChecks services access.port ++
    atZero.filter (fun check => check.verdict ≠ .blocked) ++
    zone.judged access services (0 < ·)

def fallback : FirewallReach := if zone.target = .accept then .open else .blocked

/-- Whether a new connection that the zone handles gets through. -/
def reach (access : FirewallAccess) (services : FirewalldServices) : FirewallReach :=
  decide (zone.checks access services) zone.fallback

end FirewalldZone

/-! ### Snapshots -/

/-- An active policy, as far as it can decide what reaches the host. -/
structure FirewalldPolicy where
  egressHost : Bool
  decides : Bool
deriving DecidableEq, Repr

structure FirewalldSnapshot where
  running : Bool
  defaultZone : Option Text
  panic : Bool
  /-- None while the daemon is down. -/
  runtime : Option (List FirewalldZone)
  permanent : List FirewalldZone
  services : FirewalldServices
  policies : List FirewalldPolicy

namespace FirewalldSnapshot

variable (snapshot : FirewalldSnapshot)

/-- What is in force. -/
def zones : List FirewalldZone := snapshot.runtime.getD snapshot.permanent

/-- The places of the zones that meet a test. -/
def placesOf (zones : List FirewalldZone) (test : FirewalldZone → Bool) : List Nat :=
  (List.range zones.length).filter fun place => (zones[place]?).any test

/-- Each place once, where it comes first. -/
def distinct (places : List Nat) : List Nat :=
  places.foldl (fun kept place => if place ∈ kept then kept else kept ++ [place]) []

/-- Whether an interface, or one that is not known, may be a zone's. -/
def mayHave (iface : Option Text) (zone : FirewalldZone) : Bool :=
  match iface with
  | none => !zone.interfaces.isEmpty
  | some name => name ∈ zone.interfaces

/-- The places of the zones that a connection like an access may be handled by. -/
def candidates (access : FirewallAccess) (zones : List FirewalldZone) (defaultZone : Option Text) :
    List Nat :=
  let client := access.clientIp
  let bySource := placesOf zones fun zone => zone.sources.any (holds · client = some true)
  let sourceUnknown := zones.any fun zone => zone.sources.any (holds · client = none)
  if !bySource.isEmpty && !sourceUnknown then bySource
  else
    let byInterface := placesOf zones (mayHave access.iface)
    let fallback := zones.findIdx? fun zone => some zone.name = defaultZone
    distinct (bySource ++
      (if sourceUnknown then placesOf zones fun zone => !zone.sources.isEmpty else []) ++
      byInterface ++
      (if access.iface.isNone || byInterface.isEmpty then fallback.toList else []))

/-- `zones_for`. `zones` and `defaultZone` stand in for the snapshot's own. -/
def zonesFor (access : FirewallAccess) (zones : Option (List FirewalldZone))
    (defaultZone : Option Text) : List FirewalldZone :=
  let list := zones.getD snapshot.zones
  (candidates access list (defaultZone.or snapshot.defaultZone)).filterMap (list[·]?)

/-- What the zones a connection may be handled by say together. -/
def together : List FirewallReach → FirewallReach
  | [] => .unknown
  | reach :: reaches =>
      if reaches.all (· = reach) then reach
      else if (reach :: reaches).all (·.admits) then .limited
      else .unknown

/-- Whether a policy decides what reaches the host. -/
def policyDecides : Bool := snapshot.policies.any fun policy => policy.egressHost && policy.decides

/-- Whether a new connection like an access gets through. `running`, `panic`, `zones` and
`defaultZone` stand in for the snapshot's own. -/
def reach (access : FirewallAccess) (running panic : Option Bool)
    (zones : Option (List FirewalldZone)) (defaultZone : Option Text) : FirewallReach :=
  if !running.getD snapshot.running then .open
  else if panic.getD snapshot.panic then .blocked
  else
    let reach := together ((snapshot.zonesFor access zones defaultZone).map
      (·.reach access snapshot.services))
    if reach.admits && snapshot.policyDecides then .unknown else reach

end FirewalldSnapshot

end ServerBox.Firewall
