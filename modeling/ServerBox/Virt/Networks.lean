import ServerBox.Std.System
import ServerBox.Virt.Resource

/-!
# Networks under accepted changes

What an accepted change makes of a host's networks. libvirt:
`src/crates/sbm_virt/src/libvirt/{host,manage,net}.rs`, whose changes write the saved
definition that a listing is read from. PVE: `src/crates/sbm_virt/src/pve/client/storage.rs`,
whose changes wait in a node's pending configuration, the one it lists, until applied. A
definition is taken as its elements, not as its XML.
-/

namespace ServerBox.Virt

open ServerBox.Std

/-! ### libvirt definitions -/

/-- One `<ip>`: the host's address, the DHCP ranges and the static entries under it. -/
structure Ip where
  v6 : Bool
  address : Text
  length : Option Nat
  ranges : List (Text × Text)
  hosts : List NetHost
deriving DecidableEq, Repr

def Ip.cidr (ip : Ip) : Text :=
  match ip.length with
  | some length => ip.address ++ '/' :: Text.decimal length
  | none => ip.address

/-- A saved definition. -/
structure Definition where
  name : Text
  mode : Text
  bridge : Option Text
  ips : List Ip
deriving DecidableEq, Repr

/-- The first IPv4 `<ip>`, which the form shows and edits. -/
def Definition.first4 (definition : Definition) : Option Ip :=
  definition.ips.find? fun ip => !ip.v6

/-- `trimmed`: a text without the blanks around it, when any is left. -/
def trimmed (text : Option Text) : Option Text :=
  (text.map Text.trim).filter (!·.isEmpty)

/-! ### Making one -/

/-- The standard library's own `Ipv4Addr::from_str`. -/
def strictIpv4 (text : Text) : Option Address :=
  let parts := text.splitOn '.'
  if parts.any fun part => part.head? = some '0' && decide (part.length > 1) then none
  else if parts.length ≠ 4 then none
  else parts.foldlM (fun address part =>
    (parseOctet part).map fun number => address <<< 8 ||| BitVec.ofNat 32 number) 0#32

/-- What `VirtNetIpv4::check` and `VirtNetEdit::check` take as an address with its range. -/
def checkAddressing (address : Text) (length : Nat) (start finish : Option Text)
    (hosts : List NetHost) : Bool :=
  match strictIpv4 address with
  | none => false
  | some parsed =>
      let m := mask length
      let net := parsed &&& m
      let broadcast := net ||| ~~~m
      decide (8 ≤ length) && decide (length ≤ 30) && parsed != net && parsed != broadcast &&
        (hosts.all fun entry =>
          match strictIpv4 entry.ip with
          | none => false
          | some ip => ip &&& m == net && ip != net && ip != broadcast && ip != parsed) &&
        match start, finish with
        | none, none => true
        | some start, some finish =>
            match strictIpv4 start, strictIpv4 finish with
            | some first, some last =>
                decide (first ≤ last) && first &&& m == net && last &&& m == net &&
                  first != net && last != broadcast &&
                  !(decide (first ≤ parsed) && decide (parsed ≤ last))
            | _, _ => false
        | _, _ => false

/-- `manage::is_name`. -/
def isName (name : Text) : Bool :=
  !name.isEmpty && decide (name.length ≤ 64) && name.head? ≠ some '.' && name.head? ≠ some '-' &&
    name.all fun char => char.isAlphanum || char ∈ ['.', '_', '-']

/-- `is_ifname`. -/
def isIfname (name : Text) : Bool :=
  !name.isEmpty && decide (name.length ≤ 15) && name.head? ≠ some '-' &&
    name.all fun char => char.isAlphanum || char ∈ ['.', '_', '-']

/-- `VirtResourceOp::NetCreate`. -/
structure NetCreate where
  name : Text
  mode : Text
  bridge : Option Text
  ipv4 : Option Ip
deriving DecidableEq, Repr

/-- The create that `resource_script` asks for. -/
def netCreate (name mode : Text) (bridge cidr dhcpStart dhcpEnd : Option Text) : NetCreate where
  name
  mode
  bridge := if mode = modeBridge then trimmed bridge else none
  ipv4 :=
    match trimmed cidr with
    | some c =>
        if mode = modeBridge then none
        else
          let (address, length) := (Text.splitOnce '/' c).getD (c, [])
          some {
            v6 := false, address, length := some ((Text.parseUnsigned 255 length).getD 0)
            ranges := match dhcpStart, dhcpEnd with
              | some start, some finish => [(start, finish)]
              | _, _ => []
            hosts := [] }
    | none => none

/-- `VirtResourceOp::check` of a create; a lone end of a range is not one. -/
def NetCreate.check (create : NetCreate) (dhcpStart dhcpEnd : Option Text) : Bool :=
  let addressed (ip : Ip) : Bool :=
    checkAddressing ip.address (ip.length.getD 0) dhcpStart dhcpEnd []
  isName create.name &&
    if create.mode = modeBridge then create.bridge.any isIfname && create.ipv4.isNone
    else if create.mode = modeNat || create.mode = modeRoute then
      create.bridge.isNone && create.ipv4.any addressed
    else if create.mode = modeIsolated then create.bridge.isNone && create.ipv4.all addressed
    else false

/-- The definition of `network_xml`. -/
def NetCreate.definition (create : NetCreate) : Definition where
  name := create.name
  mode := create.mode
  bridge := create.bridge
  ips := create.ipv4.toList

/-! ### Editing one -/

/-- `VirtNetEdit`. -/
structure NetEdit where
  mode : Text
  bridge : Option Text
  address : Option Text
  length : Option Nat
  dhcpStart : Option Text
  dhcpEnd : Option Text
  hosts : List NetHost
deriving DecidableEq, Repr

/-- The edit that `resource_script` asks for. -/
def netEdit (mode : Text) (bridge address : Option Text) (length : Option Nat)
    (dhcpStart dhcpEnd : Option Text) (hosts : List NetHost) : NetEdit where
  mode
  bridge := if mode = modeBridge then trimmed bridge else none
  address := trimmed address
  length
  dhcpStart := trimmed dhcpStart
  dhcpEnd := trimmed dhcpEnd
  hosts := hosts.map fun entry =>
    { entry with mac := asciiLowercase entry.mac, name := entry.name.filter (!·.isEmpty) }

/-- `net::is_host_name`. -/
def isHostName (name : Text) : Bool :=
  !name.isEmpty && decide (name.length ≤ 63) && name.head? ≠ some '-' &&
    name.getLast? ≠ some '-' && name.all fun char => char.isAlphanum || char = '-' || char = '_'

def sameMac (left right : NetHost) : Bool := asciiLowercase left.mac == asciiLowercase right.mac

/-- No two entries have one MAC or one address. -/
def distinctHosts : List NetHost → Bool
  | [] => true
  | entry :: rest =>
      (rest.all fun other => !sameMac other entry && other.ip != entry.ip) && distinctHosts rest

/-- `VirtNetEdit::check`. -/
def NetEdit.check (edit : NetEdit) : Bool :=
  let addressing : Bool :=
    if edit.mode = modeBridge then
      edit.bridge.any isIfname && edit.address.isNone && edit.length.isNone &&
        edit.dhcpStart.isNone && edit.dhcpEnd.isNone && edit.hosts.isEmpty
    else if edit.mode = modeNat || edit.mode = modeRoute || edit.mode = modeIsolated then
      edit.bridge.isNone &&
        match edit.address, edit.length with
        | some address, some length =>
            checkAddressing address length edit.dhcpStart edit.dhcpEnd edit.hosts
        | none, none =>
            edit.dhcpStart.isNone && edit.dhcpEnd.isNone && edit.hosts.isEmpty &&
              edit.mode = modeIsolated
        | _, _ => false
    else false
  addressing && (edit.hosts.all fun entry => isMac entry.mac && (strictIpv4 entry.ip).isSome &&
    entry.name.all isHostName) && distinctHosts edit.hosts

/-- `VirtNetEdit::needs_restart`. -/
def NetEdit.needsRestart (edit : NetEdit) (base : Definition) : Bool :=
  let first4 := base.first4
  let range := first4.bind fun ip => ip.ranges.head?
  edit.mode != base.mode || edit.address != first4.map (·.address) ||
    edit.length != first4.bind (·.length) || edit.dhcpStart != range.map (·.1) ||
    edit.dhcpEnd != range.map (·.2) || (edit.mode == modeBridge && edit.bridge != base.bridge)

/-- The same entry, whatever the case its MAC is written in. -/
def sameHost (left right : NetHost) : Bool :=
  sameMac left right && left.ip == right.ip && left.name == right.name

/-- The entries as `ip_element` writes them: the ones there were in their places, then the
new ones. The MACs of a checked edit differ, so an entry is written when an old one has its. -/
def writtenHosts (old new : List NetHost) : List NetHost :=
  (old.filterMap fun entry => (new.find? (sameMac entry)).map fun edited =>
    if sameHost entry edited then entry else edited) ++
  new.filter fun entry => !old.any (sameMac entry)

/-- The entries after the `net-update` steps of `host_changes`. -/
def updatedHosts (old new : List NetHost) : List NetHost :=
  let unchanged (entry : NetHost) : Bool :=
    (old.find? (sameMac entry)).any fun before => sameHost before entry
  let deletes (before : NetHost) : Bool :=
    match new.find? (sameMac before) with
    | some entry => !sameHost before entry
    | none => true
  (old.filter fun before => !deletes before) ++ new.filter fun entry => !unchanged entry

/-- `ip_element`: a second range, and what else is under the element, stays. -/
def ipElement (base : Option Ip) (edit : NetEdit) (address : Text) : Ip where
  v6 := false
  address
  length := some (edit.length.getD 24)
  ranges := (match edit.dhcpStart, edit.dhcpEnd with
    | some start, some finish => [(start, finish)]
    | _, _ => []) ++ ((base.map (·.ranges)).getD []).drop 1
  hosts := writtenHosts ((base.map (·.hosts)).getD []) edit.hosts

/-- The addresses with the first IPv4 one changed, or taken out. -/
def alterFirst4 (change : Ip → Option Ip) : List Ip → List Ip
  | [] => []
  | ip :: rest => if ip.v6 then ip :: alterFirst4 change rest else (change ip).toList ++ rest

/-- The addressing of `edit_network_xml`. -/
def editedIps (base : Definition) (edit : NetEdit) : List Ip :=
  if edit.mode = modeBridge then []
  else
    match base.first4, edit.address with
    | some _, some address =>
        alterFirst4 (fun ip => some (ipElement (some ip) edit address)) base.ips
    | some _, none => alterFirst4 (fun _ => none) base.ips
    | none, some address => ipElement none edit address :: base.ips
    | none, none => base.ips

/-- The definition after `net_change_script`: written again, or its entries updated. -/
def NetEdit.definition (edit : NetEdit) (base : Definition) : Definition :=
  if edit.needsRestart base then
    { base with
      mode := edit.mode
      bridge := if edit.mode = modeBridge then edit.bridge
        else if base.mode = modeBridge then none else base.bridge
      ips := editedIps base edit }
  else
    { base with
      ips := alterFirst4 (fun ip => some { ip with hosts := updatedHosts ip.hosts edit.hosts })
        base.ips }

/-! ### PVE interfaces -/

/-- An interface of a node's configuration. -/
structure Iface where
  node : Text
  name : Text
  mode : Text
  cidr : Option Text
  cidr6 : Option Text
deriving DecidableEq, Repr

/-- The bridge that a create adds to its node. -/
def createdBridge (name : Text) (node cidr : Option Text) : Iface where
  node := node.getD []
  name
  mode := modeBridge
  cidr := trimmed cidr
  cidr6 := none

/-- `edit_bridge`: an address not sent is the one it has, an empty one clears it. -/
def editedBridge (cidr : Option Text) (iface : Iface) : Iface :=
  { iface with cidr := ((cidr.map Text.trim).or iface.cidr).filter (!·.isEmpty) }

/-! ### Hosts -/

/-- What a listing says beside the configuration: the guests on each network, and, on PVE,
which interfaces carry the node's management traffic. -/
structure Seen where
  users : Text → List Text
  management : Text → Bool

def Definition.network (seen : Seen) (definition : Definition) : Network where
  id := definition.name
  name := definition.name
  node := none
  mode := definition.mode
  cidrs := definition.ips.map Ip.cidr
  managementEditable := true
  users := seen.users definition.name

def Iface.id (iface : Iface) : Text := iface.node ++ '/' :: iface.name

def Iface.network (seen : Seen) (iface : Iface) : Network where
  id := iface.id
  name := iface.name
  node := some iface.node
  mode := iface.mode
  cidrs := iface.cidr.toList ++ iface.cidr6.toList
  managementEditable := decide (iface.mode = modeBridge) && !seen.management iface.id
  users := seen.users iface.id

/-- A host's configuration: libvirt's saved definitions, or the interfaces that PVE lists and
those its nodes run on. -/
inductive Host where
  | libvirt (saved : List Definition)
  | pve (pending running : List Iface)
deriving DecidableEq, Repr

namespace Host

def kind : Host → HostKind
  | libvirt _ => .libvirt
  | pve _ _ => .pve

/-- The networks as a change is checked against them. -/
def networks (seen : Seen) : Host → List Network
  | libvirt saved => saved.map (Definition.network seen)
  | pve pending _ => pending.map (Iface.network seen)

/-- Every `<ip>` whose ranges and entries the host serves. -/
def ips : Host → List Ip
  | libvirt saved => saved.flatMap (·.ips)
  | pve _ _ => []

end Host

/-- A change as it is made: what is listed then, and whether the host takes it. -/
structure Made where
  change : Change
  seen : Seen
  takes : Bool

/-- The values of one key changed. -/
def replace {α κ : Type} [DecidableEq κ] (key : α → κ) (wanted : κ)
    (change : α → α) (values : List α) : List α :=
  values.map fun value => if key value = wanted then change value else value

def isControl (char : Char) : Bool :=
  decide (char.toNat < 0x20) || (decide (0x7F ≤ char.toNat) && decide (char.toNat ≤ 0x9F))

/-- `is_net_name`: whatever libvirt named it, one line. -/
def isNetName (name : Text) : Bool := !name.isEmpty && !name.any isControl

/-- What a change that libvirt takes makes of its definitions. -/
def libvirtChange (saved : List Definition) : Change → List Definition
  | .networkCreate name mode _ bridge cidr dhcpStart dhcpEnd =>
      let create := netCreate name mode bridge cidr dhcpStart dhcpEnd
      if create.check dhcpStart dhcpEnd then saved ++ [create.definition] else saved
  | .networkEdit id mode bridge address length dhcpStart dhcpEnd hosts =>
      let edit := netEdit mode bridge address length dhcpStart dhcpEnd hosts
      if edit.check && isNetName id then replace Definition.name id edit.definition saved else saved
  | .networkDelete id =>
      if isNetName id then saved.filter fun definition => definition.name ≠ id else saved
  | _ => saved

/-- What a change that PVE takes makes of the pending and the running interfaces. -/
def pveChange (pending running : List Iface) : Change → Host
  | .networkCreate name _ node _ cidr _ _ =>
      .pve (pending ++ [createdBridge name node cidr]) running
  | .networkEditBridge id cidr _ =>
      match pending.find? fun iface => iface.id == id with
      | none => .pve pending running
      | some found =>
          .pve (replace (fun iface => (iface.node, iface.name)) (found.node, found.name)
            (editedBridge cidr) pending) running
  | .networkDelete id =>
      match pending.find? fun iface => iface.id == id with
      | none => .pve pending running
      | some found =>
          .pve (pending.filter fun iface => (iface.node, iface.name) ≠ (found.node, found.name))
            running
  | .networkApply node =>
      .pve pending ((running.filter fun iface => iface.node ≠ node) ++
        pending.filter fun iface => iface.node = node)
  | .networkRevert node =>
      .pve ((pending.filter fun iface => iface.node ≠ node) ++
        running.filter fun iface => iface.node = node) running
  | _ => .pve pending running

/-- A change, once `issue` accepts it; what the host refuses after that leaves it as it was. -/
def Host.next (host : Host) (made : Made) : Option Host :=
  if (issue made.change host.kind (host.networks made.seen)).isSome then none
  else if !made.takes then some host
  else
    match host with
    | libvirt saved => some (.libvirt (libvirtChange saved made.change))
    | pve pending running => some (pveChange pending running made.change)

end ServerBox.Virt
