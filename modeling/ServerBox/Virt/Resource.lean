import ServerBox.Virt.Ipv4

/-!
# Changes to a host's networks

`src/crates/sbm_virt/src/resource/mod.rs`: what a network is as a host lists it, the changes
a client asks for, and the rules a change is checked by before anything is sent (`issue`).
Pools and volumes have rules of their own, which no network is checked against.
-/

namespace ServerBox.Virt

open ServerBox.Std

inductive HostKind where
  | libvirt
  | pve
deriving DecidableEq, Repr

/-- A static DHCP entry: one address handed to one MAC. -/
structure NetHost where
  mac : Text
  ip : Text
  name : Option Text
deriving DecidableEq, Repr

/-- A network as a host lists it; `id` is libvirt's name, PVE's `<node>/<iface>`. -/
structure Network where
  id : Text
  name : Text
  node : Option Text
  mode : Text
  cidrs : List Text
  managementEditable : Bool
  users : List Text
deriving DecidableEq, Repr

inductive Change where
  | networkCreate (name mode : Text) (node bridge cidr dhcpStart dhcpEnd : Option Text)
  | networkEdit (network mode : Text) (bridge address : Option Text) (length : Option Nat)
      (dhcpStart dhcpEnd : Option Text) (hosts : List NetHost)
  | networkEditBridge (network : Text) (cidr gateway : Option Text)
  | networkRestart (network : Text)
  | networkSetActive (network : Text) (active : Bool)
  | networkSetAutostart (network : Text) (on : Bool)
  | networkDelete (network : Text)
  | networkApply (node : Text)
  | networkRevert (node : Text)
deriving DecidableEq, Repr

inductive Issue where
  | nameEmpty
  | nameInvalid
  | nameTaken
  | cidrInvalid
  | dhcpInvalid
  | subnetTaken
  | bridgeInvalid
  | inUse
  | hostInvalid
  | managementIface
  | notFound
  | unsupported
deriving DecidableEq, Repr

/-! ### Modes -/

def modeBridge : Text := "bridge".toList

def modeNat : Text := "nat".toList

def modeRoute : Text := "route".toList

def modeIsolated : Text := "isolated".toList

/-! ### Names -/

/-- `first`, then up to `longest - 1` of `others`. -/
def shaped (first others : Char → Bool) (longest : Nat) : Text → Bool
  | [] => false
  | char :: rest => decide (rest.length + 1 ≤ longest) && first char && rest.all others

def libvirtResourceName : Text → Bool :=
  shaped Char.isAlphanum (fun char => char.isAlphanum || char ∈ ['.', '_', '-']) 64

/-- PVE interface names, within Linux's 15 characters. -/
def pveBridgeName (name : Text) : Bool :=
  decide (2 ≤ name.length) &&
    shaped Char.isAlpha (fun char => char.isAlphanum || char = '_') 15 name

/-- A host interface name, as a bridge's port or a host bridge. -/
def ifname : Text → Bool :=
  shaped Char.isAlphanum (fun char => char.isAlphanum || char ∈ ['_', '.', '-']) 15

/-- A dnsmasq host name. -/
def hostName : Text → Bool :=
  shaped (fun char => char.isAlphanum || char = '_')
    (fun char => char.isAlphanum || char = '_' || char = '-') 63

def isHexDigit (char : Char) : Bool :=
  char.isDigit || ('a' ≤ char && char ≤ 'f') || ('A' ≤ char && char ≤ 'F')

def isMac (text : Text) : Bool :=
  let parts := text.splitOn ':'
  parts.length == 6 && parts.all fun part => part.length == 2 && part.all isHexDigit

/-- `to_ascii_lowercase`. -/
def asciiLowercase (text : Text) : Text := text.map Char.toLower

/-! ### The rules -/

def find (networks : List Network) (id : Text) : Option Network :=
  networks.find? fun network => network.id == id

/-- Whether a network listed already is on a subnet that overlaps `cidr`. -/
def taken (networks : List Network) (cidr : Text) : Bool :=
  networks.any fun network => network.cidrs.any fun other => overlaps other cidr

def issueCreate (host : HostKind) (networks : List Network) (name mode : Text)
    (node bridge cidr dhcpStart dhcpEnd : Option Text) : Option Issue :=
  let pve := host == .pve
  if name.isEmpty then some .nameEmpty
  else if !(if pve then pveBridgeName name else libvirtResourceName name) then some .nameInvalid
  else if pve && (mode != modeBridge || node.isNone) then some .unsupported
  else if networks.any fun other => other.name == name && (!pve || other.node == node) then
    some .nameTaken
  else
    let ports := Text.trim (bridge.getD [])
    if !pve && mode == modeBridge then
      if !ifname ports then some .bridgeInvalid else none
    else if pve && !ports.isEmpty && !(Text.splitWhitespace ports).all ifname then
      some .bridgeInvalid
    else
      let c := Text.trim (cidr.getD [])
      if c.isEmpty then
        if !pve && (mode == modeNat || mode == modeRoute) then some .cidrInvalid
        else if !pve && (dhcpStart.isSome || dhcpEnd.isSome) then some .dhcpInvalid
        else none
      else
        match parseCidr c with
        | none => some .cidrInvalid
        | some (address, length) =>
            if taken (networks.filter fun other => !pve || other.node == node) c then
              some .subnetTaken
            else if pve || (dhcpStart.isNone && dhcpEnd.isNone) then none
            else if !dhcpFits address length dhcpStart dhcpEnd then some .dhcpInvalid
            else none

/-- Whether an entry's address is one dnsmasq hands out on `subnet`. -/
def inSubnet (subnet : Option (Address × Nat)) (ip : Option Address) : Bool :=
  match subnet, ip with
  | some (address, length), some ip =>
      let m := mask length
      ip &&& m == address &&& m && ip != address && ip != address &&& m &&
        ip != (address &&& m ||| ~~~m)
  | _, _ => false

/-- The static entries checked one by one; `ips` and `macs` hold those seen before. -/
def hostsInvalid (subnet : Option (Address × Nat)) (ips : List (Option Address))
    (macs : List Text) : List NetHost → Bool
  | [] => false
  | entry :: rest =>
      let ip := parseIpv4 entry.ip
      let named := entry.name.all fun name => name.isEmpty || hostName name
      if !isMac entry.mac || !inSubnet subnet ip || decide (ip ∈ ips) ||
          decide (asciiLowercase entry.mac ∈ macs) || !named then true
      else hostsInvalid subnet (ip :: ips) (asciiLowercase entry.mac :: macs) rest

/-- The address and the prefix of an edit, as the one CIDR they make. -/
def editedCidr (address : Option Text) (length : Option Nat) : Text :=
  let bare := Text.trim (address.getD [])
  if bare.isEmpty then [] else bare ++ '/' :: (length.map Text.decimal).getD []

/-- The addressing of an edit: its subnet, or why it has none to serve. -/
def issueAddressing (others : List Network) (mode c : Text) (dhcpStart dhcpEnd : Option Text) :
    Except Issue (Option (Address × Nat)) :=
  if mode == modeBridge then .ok none
  else if c.isEmpty then
    if mode != modeIsolated then .error .cidrInvalid
    else if dhcpStart.isSome || dhcpEnd.isSome then .error .dhcpInvalid
    else .ok none
  else
    match parseCidr c with
    | none => .error .cidrInvalid
    | some (address, length) =>
        if taken others c then .error .subnetTaken
        else if (dhcpStart.isSome || dhcpEnd.isSome) &&
            !dhcpFits address length dhcpStart dhcpEnd then .error .dhcpInvalid
        else .ok (some (address, length))

def issueEdit (host : HostKind) (networks : List Network) (id mode : Text)
    (bridge address : Option Text) (length : Option Nat) (dhcpStart dhcpEnd : Option Text)
    (hosts : List NetHost) : Option Issue :=
  match find networks id with
  | none => some .notFound
  | some network =>
      if host == .pve then some .unsupported
      else if mode == modeBridge && !ifname (Text.trim (bridge.getD [])) then
        some .bridgeInvalid
      else
        -- Its own subnet is not somebody else's.
        match issueAddressing (networks.filter fun other => other.id != network.id) mode
            (editedCidr address length) dhcpStart dhcpEnd with
        | .error issue => some issue
        | .ok subnet =>
            if hostsInvalid subnet [] [] hosts then some .hostInvalid
            else if !hosts.isEmpty && mode == modeBridge then some .hostInvalid
            else none

def issueEditBridge (host : HostKind) (networks : List Network) (id : Text)
    (cidr gateway : Option Text) : Option Issue :=
  match find networks id with
  | none => some .notFound
  | some network =>
      if host != .pve then some .unsupported
      else if !network.managementEditable then some .managementIface
      else
        let c := (cidr.map Text.trim).getD []
        if !c.isEmpty && (parseCidr c).isNone then some .cidrInvalid
        else if gateway.any fun address => !address.isEmpty && (parseIpv4 address).isNone then
          some .cidrInvalid
        else none

/-- Why `change` cannot be made on a host that lists `networks`. -/
def issue (change : Change) (host : HostKind) (networks : List Network) : Option Issue :=
  match change with
  | .networkCreate name mode node bridge cidr dhcpStart dhcpEnd =>
      issueCreate host networks name mode node bridge cidr dhcpStart dhcpEnd
  | .networkEdit id mode bridge address length dhcpStart dhcpEnd hosts =>
      issueEdit host networks id mode bridge address length dhcpStart dhcpEnd hosts
  | .networkEditBridge id cidr gateway => issueEditBridge host networks id cidr gateway
  | .networkDelete id =>
      match find networks id with
      | none => some .notFound
      | some network =>
          if !network.users.isEmpty then some .inUse
          else if !network.managementEditable then some .managementIface
          else none
  | .networkSetActive id active =>
      match find networks id with
      | none => some .notFound
      | some network =>
          if host == .pve then some .unsupported
          else if !active && !network.users.isEmpty then some .inUse
          else none
  | .networkSetAutostart id _ | .networkRestart id =>
      match find networks id with
      | none => some .notFound
      | some _ => if host == .pve then some .unsupported else none
  | .networkApply _ | .networkRevert _ => if host != .pve then some .unsupported else none

/-! ### What acceptance says -/

/-- No subnet of the networks looked at overlaps a `cidr` that is not taken. -/
theorem overlaps_of_not_taken {networks : List Network} {cidr other : Text}
    (free : taken networks cidr = false) {network : Network} (listed : network ∈ networks)
    (held : other ∈ network.cidrs) : overlaps other cidr = false := by
  simp only [taken, List.any_eq_false, Bool.not_eq_true] at free
  exact free network listed other held

/-- A rule that does not apply leaves the rules after it. -/
theorem refused_else_eq_none {applies : Prop} [Decidable applies] {refusal : Issue}
    {rest : Option Issue} :
    (if applies then some refusal else rest) = none ↔ ¬ applies ∧ rest = none := by
  by_cases holds : applies <;> simp [holds]

/-- A new network has a name of its own, and a subnet of its own where it has one. -/
theorem issueCreate_eq_none {host : HostKind} {networks : List Network} {name mode : Text}
    {node bridge cidr dhcpStart dhcpEnd : Option Text}
    (accepted : issueCreate host networks name mode node bridge cidr dhcpStart dhcpEnd = none) :
    (∀ other ∈ networks, other.name = name → host = .pve ∧ other.node ≠ node) ∧
      (host = .pve → node.isSome = true) ∧
      (Text.trim (cidr.getD []) = [] ∨ (host = .libvirt ∧ mode = modeBridge) ∨
        ∃ address length, parseCidr (Text.trim (cidr.getD [])) = some (address, length) ∧
          (∀ other ∈ networks, (host = .pve → other.node = node) →
            ∀ held ∈ other.cidrs, overlaps held (Text.trim (cidr.getD [])) = false) ∧
          (host = .libvirt → dhcpStart = none ∧ dhcpEnd = none ∨
            dhcpFits address length dhcpStart dhcpEnd = true)) := by
  simp only [issueCreate, refused_else_eq_none] at accepted
  obtain ⟨-, -, supported, free, rules⟩ := accepted
  refine ⟨?_, ?_, ?_⟩
  · intro other listed sameName
    have apart : ¬ (host ≠ .pve ∨ other.node = node) := by
      intro clash
      exact free (List.any_eq_true.mpr ⟨other, listed, by simpa [sameName] using clash⟩)
    exact ⟨by_contra fun differs => apart (.inl differs), fun same => apart (.inr same)⟩
  · rintro rfl
    cases node with
    | none => exact absurd (by simp) supported
    | some node => rfl
  · split at rules
    next bridged => exact .inr (.inl (by cases host <;> simp_all))
    next =>
        rw [refused_else_eq_none] at rules
        replace rules := rules.2
        split at rules
        next blank => exact .inl (List.isEmpty_iff.mp blank)
        next =>
            split at rules
            next => cases rules
            next address length parsed =>
                simp only [refused_else_eq_none] at rules
                obtain ⟨notTaken, dhcp⟩ := rules
                refine .inr (.inr ⟨address, length, parsed, ?_, ?_⟩)
                · intro other listed sameNode held isHeld
                  refine overlaps_of_not_taken (Bool.not_eq_true _ ▸ notTaken)
                    (List.mem_filter.mpr ⟨listed, ?_⟩) isHeld
                  cases host with
                  | libvirt => rfl
                  | pve => simpa using sameNode rfl
                · rintro rfl
                  split at dhcp
                  next absent => exact .inl (by simpa using absent)
                  next => exact .inr (by simpa using dhcp)

/-- The subnet of an accepted edit is its own, and what it serves fits it. -/
theorem issueAddressing_eq_ok {others : List Network} {mode c : Text}
    {dhcpStart dhcpEnd : Option Text} {subnet : Option (Address × Nat)}
    (addressed : issueAddressing others mode c dhcpStart dhcpEnd = .ok subnet) :
    (subnet = none ∧ (mode = modeBridge ∨ c = [])) ∨
      ∃ address length, subnet = some (address, length) ∧ mode ≠ modeBridge ∧
        parseCidr c = some (address, length) ∧
        (∀ other ∈ others, ∀ held ∈ other.cidrs, overlaps held c = false) ∧
        (dhcpStart = none ∧ dhcpEnd = none ∨
          dhcpFits address length dhcpStart dhcpEnd = true) := by
  simp only [issueAddressing] at addressed
  split at addressed
  next bridged => exact .inl ⟨(Except.ok.inj addressed).symm, .inl (by simpa using bridged)⟩
  next plain =>
      split at addressed
      next blank =>
          split at addressed
          next => cases addressed
          next =>
              split at addressed
              next => cases addressed
              next =>
                  exact .inl ⟨(Except.ok.inj addressed).symm, .inr (List.isEmpty_iff.mp blank)⟩
      next =>
          split at addressed
          next => cases addressed
          next address length parsed =>
              split at addressed
              next => cases addressed
              next free =>
                  split at addressed
                  next => cases addressed
                  next dhcp =>
                      refine .inr ⟨address, length, (Except.ok.inj addressed).symm, ?_, parsed,
                        ?_, ?_⟩
                      · simpa using plain
                      · intro other listed held isHeld
                        exact overlaps_of_not_taken (Bool.not_eq_true _ ▸ free) listed isHeld
                      · cases dhcpStart <;> cases dhcpEnd <;> simp_all

/-- Every static entry that passes is handed out on the subnet. -/
theorem inSubnet_of_hostsInvalid {subnet : Option (Address × Nat)}
    {ips : List (Option Address)} {macs : List Text} {hosts : List NetHost}
    (valid : hostsInvalid subnet ips macs hosts = false) {entry : NetHost}
    (held : entry ∈ hosts) : inSubnet subnet (parseIpv4 entry.ip) = true := by
  induction hosts generalizing ips macs with
  | nil => cases held
  | cons first rest inductionHypothesis =>
      simp only [hostsInvalid] at valid
      split at valid
      next => cases valid
      next passes =>
          rcases List.mem_cons.mp held with rfl | later
          · simp only [Bool.or_eq_true, not_or] at passes
            simpa using passes.1.1.1.2
          · exact inductionHypothesis valid later

/-- An accepted edit is to a listed network, on a subnet of its own that its entries are on. -/
theorem issueEdit_eq_none {host : HostKind} {networks : List Network} {id mode : Text}
    {bridge address : Option Text} {length : Option Nat} {dhcpStart dhcpEnd : Option Text}
    {hosts : List NetHost}
    (accepted : issueEdit host networks id mode bridge address length dhcpStart dhcpEnd hosts =
      none) :
    ∃ network subnet, find networks id = some network ∧ host = .libvirt ∧
      issueAddressing (networks.filter fun other => other.id != network.id) mode
        (editedCidr address length) dhcpStart dhcpEnd = .ok subnet ∧
      ∀ entry ∈ hosts, inSubnet subnet (parseIpv4 entry.ip) = true := by
  simp only [issueEdit] at accepted
  split at accepted
  next => cases accepted
  next network found =>
      simp only [refused_else_eq_none] at accepted
      obtain ⟨supported, -, rules⟩ := accepted
      split at rules
      next => cases rules
      next subnet addressed =>
          rw [refused_else_eq_none] at rules
          refine ⟨network, subnet, found, ?_, addressed, ?_⟩
          · cases host with
            | libvirt => rfl
            | pve => exact absurd rfl supported
          · intro entry held
            exact inSubnet_of_hostsInvalid (Bool.not_eq_true _ ▸ rules.1) held

/-- An accepted edit of a bridge is to a listed one of a PVE node. -/
theorem issueEditBridge_eq_none {host : HostKind} {networks : List Network} {id : Text}
    {cidr gateway : Option Text}
    (accepted : issueEditBridge host networks id cidr gateway = none) :
    ∃ network, find networks id = some network ∧ host = .pve := by
  simp only [issueEditBridge] at accepted
  split at accepted
  next => cases accepted
  next network found =>
      rw [refused_else_eq_none] at accepted
      refine ⟨network, found, ?_⟩
      cases host with
      | libvirt => exact absurd rfl accepted.1
      | pve => rfl

end ServerBox.Virt
