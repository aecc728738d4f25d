import ServerBox.Std.IpAddress
import ServerBox.Std.Utf8

/-!
# ufw's rules

`src/crates/sbm_parser/src/firewall/ufw.rs` and `mod.rs`: the tuple lines of ufw's two rule
files read and folded into one list, and what that list says of a new connection.
-/

namespace ServerBox.Firewall

open ServerBox.Std

/-! ### Accesses -/

inductive FirewallAccessVia where
  | ssh
  | monitor
deriving DecidableEq, Repr

/-- One way the app reaches a server. -/
structure FirewallAccess where
  via : FirewallAccessVia
  port : Nat
  client : Option Text
  server : Option Text
  iface : Option Text
deriving DecidableEq, Repr

namespace FirewallAccess

def clientIp (access : FirewallAccess) : Option IpAddr := access.client.bind IpAddr.parse

def serverIp (access : FirewallAccess) : Option IpAddr := access.server.bind IpAddr.parse

end FirewallAccess

/-- Whether a new connection like an access would get through. -/
inductive FirewallReach where
  | open
  | limited
  | unknown
  | blocked
deriving DecidableEq, Repr

def FirewallReach.admits (reach : FirewallReach) : Bool := reach = .open || reach = .limited

/-- A rule's verdict on a connection, and whether it surely applies or only might. -/
structure Judged where
  verdict : FirewallReach
  sure : Bool
deriving DecidableEq, Repr

/-- The loop of `decide`: the verdicts before the first sure one, and that one. -/
def weigh : List Judged → List FirewallReach × Option FirewallReach
  | [] => ([], none)
  | check :: checks =>
      if check.sure then ([], some check.verdict)
      else
        let (maybes, decided) := weigh checks
        (check.verdict :: maybes, decided)

/-- The first sure verdict, else `fallback`; unknown where a check that only might apply would
decide otherwise. -/
def decide (checks : List Judged) (fallback : FirewallReach) : FirewallReach :=
  let (maybes, decided) := weigh checks
  let verdict := decided.getD fallback
  if maybes.any fun maybe => maybe.admits != verdict.admits then .unknown else verdict

/-- `i64::from_str` where there is no minus. -/
def parseBound (text : Text) : Option Nat := Text.parseUnsigned (2 ^ 63 - 1) text

/-- Whether a port spec (`22`, `80,443`, `6000:6010`) names a port. None is any port. -/
def portSpecCovers (spec : Option Text) (port : Nat) : Bool :=
  match spec with
  | none => true
  | some spec =>
      (spec.splitOn ',').any fun part =>
        let range := (Text.trim part).splitOnP (· ∈ [':', '-'])
        match range.head?.bind parseBound, range.getLast?.bind parseBound with
        | some first, some last => first ≤ port && port ≤ last
        | _, _ => false

/-- Whether a network holds an address; none when it is neither an address nor a network. -/
def networkContains (network : Text) (address : IpAddr) : Option Bool := do
  let (base, suffix) := match Text.splitOnce '/' network with
    | some (base, suffix) => (base, some suffix)
    | none => (network, none)
  let length (bits : Nat) : Option Nat := match suffix with
    | none => some bits
    | some suffix => (Text.parseUnsigned (2 ^ 64 - 1) suffix).filter (· ≤ bits)
  match ← IpAddr.parse base, address with
  | .v4 base, .v4 address => return IpAddr.agree (← length 32) base address
  | .v6 base, .v6 address => return IpAddr.agree (← length 128) base address
  | _, _ => return false

/-- The same of an address that may not be known. -/
def holds (network : Text) (address : Option IpAddr) : Option Bool :=
  address.bind (networkContains network)

/-! ### Rules -/

inductive UfwAction where
  | allow
  | deny
  | reject
  | limit
deriving DecidableEq, Repr

namespace UfwAction

def name : UfwAction → Text
  | allow => "allow".toList
  | deny => "deny".toList
  | reject => "reject".toList
  | limit => "limit".toList

def fromName (value : Text) : Option UfwAction :=
  [allow, deny, reject, limit].find? (·.name == value)

end UfwAction

inductive UfwDirection where
  | incoming
  | outgoing
deriving DecidableEq, Repr

namespace UfwDirection

def token : UfwDirection → Text
  | incoming => "in".toList
  | outgoing => "out".toList

def fromToken (value : Text) : Option UfwDirection :=
  [incoming, outgoing].find? (·.token == value)

end UfwDirection

inductive UfwPolicy where
  | allow
  | deny
  | reject
deriving DecidableEq, Repr

inductive UfwIpVersion where
  | v4
  | v6
  | both
deriving DecidableEq, Repr

inductive UfwLog where
  | log
  | logAll
deriving DecidableEq, Repr

namespace UfwLog

def token : UfwLog → Text
  | log => "log".toList
  | logAll => "log-all".toList

def fromToken (value : Text) : Option UfwLog := [log, logAll].find? (·.token == value)

end UfwLog

/-- One end of a rule; none is any. -/
structure UfwEndpoint where
  address : Option Text
  port : Option Text
  app : Option Text
deriving DecidableEq, Repr

structure UfwRule where
  action : UfwAction
  direction : UfwDirection
  routed : Bool
  log : Option UfwLog
  protocol : Option Text
  dest : UfwEndpoint
  source : UfwEndpoint
  interfaceIn : Option Text
  interfaceOut : Option Text
  comment : Option Text
  ipVersion : UfwIpVersion
  tuples : List Text
deriving DecidableEq, Repr

namespace UfwRule

/-- Whether an end's network holds an address, as far as it is known; an end that names none
holds every one. -/
def endHolds (network : Option Text) (address : Option IpAddr) : Option Bool :=
  match network with
  | none => some true
  | some network => holds network address

/-- The family a client's rules are not of. -/
def otherVersion (client : IpAddr) : UfwIpVersion := if client.isIpv6 then .v4 else .v6

def verdict (rule : UfwRule) : FirewallReach :=
  match rule.action with
  | .allow => .open
  | .limit => .limited
  | .deny | .reject => .blocked

/-- What a rule does to a new connection like an access; none when it surely does not apply. -/
def judge (rule : UfwRule) (access : FirewallAccess) : Option Judged :=
  if rule.routed || rule.direction ≠ .incoming then none
  else if rule.protocol.any (· ≠ "tcp".toList) then none
  else if !portSpecCovers rule.dest.port access.port then none
  else if access.clientIp.any fun client => rule.ipVersion = otherVersion client then none
  else
    let holdsClient := endHolds rule.source.address access.clientIp
    let holdsServer := endHolds rule.dest.address access.serverIp
    if holdsClient = some false || holdsServer = some false then none
    else some
      { verdict := rule.verdict
        sure := rule.interfaceIn.isNone && rule.source.port.isNone && holdsClient.isSome &&
          holdsServer.isSome }

end UfwRule

/-! ### Tuple lines -/

def tuplePrefix : String := "### tuple ### "
def any4 : Text := "0.0.0.0/0".toList
def any6 : Text := "::/0".toList

/-- `u8::from_str_radix` of two characters, base 16. -/
def hexByte (high low : Char) : Option UInt8 :=
  if high = '+' then (IpAddr.toDigit 16 low).map UInt8.ofNat
  else do return UInt8.ofNat ((← IpAddr.toDigit 16 high) * 16 + (← IpAddr.toDigit 16 low))

def hexBytes : Text → Option (List UInt8)
  | [] => some []
  | [_] => none
  | high :: low :: rest => do return (← hexByte high low) :: (← hexBytes rest)

/-- ufw keeps a comment hex-encoded. -/
def decodeComment (hex : Text) : Option Text :=
  if hex.isEmpty then none else (hexBytes hex).map Utf8.decode

/-- The interfaces of a direction field (`in_eth0!out_eth1`), each with its direction. -/
def parseInterfaces (field : Text) : Option (List (UfwDirection × Option Text)) :=
  (field.splitOn '!').mapM fun part =>
    let (direction, interface) := match Text.splitOnce '_' part with
      | some (direction, interface) => (direction, some interface)
      | none => (part, none)
    (UfwDirection.fromToken direction).map fun direction => (direction, interface)

/-- The interface last given for a direction. -/
def interfaceOf (direction : UfwDirection) (interfaces : List (UfwDirection × Option Text)) :
    Option Text :=
  ((interfaces.reverse.find? (·.1 = direction)).bind (·.2))

/-- ufw writes a profile's spaces as `%20`. -/
def withSpaces : Text → Text
  | '%' :: '2' :: '0' :: rest => ' ' :: withSpaces rest
  | char :: rest => char :: withSpaces rest
  | [] => []

/-- The fields without the comment at their end, and the comment. -/
def splitComment (fields : List Text) : List Text × Option Text :=
  match fields.getLast?.bind (Text.stripPrefix "comment=") with
  | some hex => (fields.dropLast, decodeComment hex)
  | none => (fields, none)

/-- Whether the first field is a routed rule's, and what follows. -/
def splitRoute (field : Text) : Bool × Text :=
  match Text.stripPrefix "route:" field with
  | some head => (true, head)
  | none => (false, field)

/-- An action and what it logs; a logging suffix that is not known is a rule that is not. -/
def parseAction (head : Text) : Option (UfwAction × Option UfwLog) :=
  match Text.splitOnce '_' head with
  | some (action, token) => do
      return (← UfwAction.fromName action, some (← UfwLog.fromToken token))
  | none => (UfwAction.fromName head).map fun action => (action, none)

def orNone (value : Text) : Option Text := if value = "any".toList then none else some value

def addressOf (value : Text) : Option Text :=
  if value = any4 ∨ value = any6 then none else some value

def appOf (value : Text) : Option Text :=
  if value = "-".toList then none else some (withSpaces value)

/-- The rule of a line's fields: `<action>[_<log>] <proto> <dport> <dst> <sport> <src>
[<dapp> <sapp>] <direction>[_<iface>][!out_<iface>]`. -/
def parseFields (fields : List Text) (comment : Option Text) (ipVersion : UfwIpVersion)
    (tuples : List Text) : Option UfwRule :=
  let field (index : Nat) : Text := fields.getD index []
  let apps := fields.length = 9
  if fields.length ≠ 7 ∧ fields.length ≠ 9 then none
  else do
    let (action, log) ← parseAction (splitRoute (field 0)).2
    let interfaces ← parseInterfaces (field (fields.length - 1))
    let (direction, _) ← interfaces.head?
    return {
      action, log, direction
      routed := (splitRoute (field 0)).1
      protocol := orNone (field 1)
      dest := {
        port := orNone (field 2)
        address := addressOf (field 3)
        app := if apps then appOf (field 6) else none }
      source := {
        port := orNone (field 4)
        address := addressOf (field 5)
        app := if apps then appOf (field 7) else none }
      interfaceIn := interfaceOf .incoming interfaces
      interfaceOut := interfaceOf .outgoing interfaces
      comment, ipVersion, tuples }

/-- Reads one rule from its tuple lines, the first of which says what it is. -/
def parseTuple (tuples : List Text) (ipVersion : UfwIpVersion) : Option UfwRule := do
  let rest ← Text.stripPrefix tuplePrefix (← tuples.head?)
  let (fields, comment) := splitComment ((Text.trim rest).splitOn ' ')
  parseFields fields comment ipVersion tuples

/-- A v6 tuple with its any-addresses written as v4's. -/
def v4Twin (v6Tuple : Text) : Text :=
  match Text.stripPrefix tuplePrefix v6Tuple with
  | none => v6Tuple
  | some rest =>
      let fields := rest.splitOn ' '
      if fields.length < 7 then v6Tuple
      else
        let written := fields.mapIdx fun index field =>
          if (index = 3 ∨ index = 5) ∧ field = any6 then any4 else field
        tuplePrefix.toList ++ Text.join ' ' written

/-- The v6 line that a v4 one is the twin of: the last, where there are more. -/
def twin? (v6 : List Text) (tuple : Text) : Option Text :=
  v6.reverse.find? fun line => v4Twin line = tuple

/-- The rule of a v4 line, with its twin's where it has one. -/
def foldedRule (v6 : List Text) (tuple : Text) : Option UfwRule :=
  match twin? v6 tuple with
  | some twin => parseTuple [tuple, twin] .both
  | none => parseTuple [tuple] .v4

/-- The v6 lines folded into v4 ones. -/
def merged (v4 v6 : List Text) : List Text :=
  v4.filterMap fun tuple => (foldedRule v6 tuple).bind fun _ => twin? v6 tuple

/-- The rules of both files: v4's in order, then v6's, without those that only repeat a v4
one. -/
def mergeRules (v4 v6 : List Text) : List UfwRule :=
  v4.filterMap (foldedRule v6) ++
    (v6.filter (· ∉ merged v4 v6)).filterMap fun tuple => parseTuple [tuple] .v6

/-! ### Reach -/

/-- What a read of ufw found, as far as it decides what gets through. -/
structure UfwSnapshot where
  active : Option Bool
  ipv6 : Bool
  /-- The policy for incoming connections, where it could be read. -/
  incoming : Option UfwPolicy
  rules : List UfwRule

/-- What is left to a policy that may not be known. -/
def fallback : Option UfwPolicy → FirewallReach
  | some .allow => .open
  | some .deny | some .reject => .blocked
  | none => .unknown

/-- Whether a new connection like an access gets through. `active`, `rules` and `incoming`
stand in for the snapshot's own. -/
def UfwSnapshot.reach (snapshot : UfwSnapshot) (access : FirewallAccess) (active : Option Bool)
    (rules : Option (List UfwRule)) (incoming : Option UfwPolicy) : FirewallReach :=
  if active.or snapshot.active = some false then .open
  else if !snapshot.ipv6 && access.clientIp.any IpAddr.isIpv6 then .open
  else decide ((rules.getD snapshot.rules).filterMap (·.judge access))
    (fallback (incoming.or snapshot.incoming))

example : mergeRules ["### tuple ### allow tcp 22 0.0.0.0/0 any 0.0.0.0/0 in".toList]
    ["### tuple ### allow tcp 22 ::/0 any ::/0 in".toList] =
    [{ action := .allow, direction := .incoming, routed := false, log := none
       protocol := some "tcp".toList, dest := ⟨none, some "22".toList, none⟩
       source := ⟨none, none, none⟩, interfaceIn := none, interfaceOut := none, comment := none
       ipVersion := .both
       tuples := ["### tuple ### allow tcp 22 0.0.0.0/0 any 0.0.0.0/0 in".toList,
         "### tuple ### allow tcp 22 ::/0 any ::/0 in".toList] }] := by decide

end ServerBox.Firewall
