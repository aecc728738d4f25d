import ServerBox.Virt.Networks
import Mathlib

/-!
# Networks stay disjoint

Over a run of accepted changes no two networks of a host (on PVE, of a node) share an
address, and what a network serves by DHCP stays on its own subnet. A create and an edit of
a libvirt network check this against the others; an edit of a PVE bridge does not.
-/

namespace ServerBox.Virt

open ServerBox.Std

/-! ### What a sound host is -/

/-- Two networks of one node share no address. -/
def Apart (left right : Network) : Prop :=
  left.node = right.node → ∀ leftCidr ∈ left.cidrs, ∀ rightCidr ∈ right.cidrs,
    ∀ leftNet rightNet, subnetOf leftCidr = some leftNet → subnetOf rightCidr = some rightNet →
      Disjoint leftNet.addresses rightNet.addresses

/-- A range whose every address is on the subnet and is not the gateway's. -/
def RangeInside (subnet : Subnet) (range : Text × Text) : Prop :=
  ∃ first last, parseIpv4 range.1 = some first ∧ parseIpv4 range.2 = some last ∧ first ≤ last ∧
    ∀ address, first ≤ address → address ≤ last →
      address ∈ subnet.addresses ∧ address ≠ subnet.address

/-- A static entry whose address is on the subnet and is not the gateway's. -/
def EntryInside (subnet : Subnet) (entry : NetHost) : Prop :=
  ∃ address, parseIpv4 entry.ip = some address ∧ address ∈ subnet.addresses ∧
    address ≠ subnet.address

/-- What an IPv4 `<ip>` serves is on its own subnet. -/
def Ip.Served (ip : Ip) : Prop :=
  ip.v6 = false →
    (∀ range ∈ ip.ranges, ∃ subnet, subnetOf ip.cidr = some subnet ∧ RangeInside subnet range) ∧
    ∀ entry ∈ ip.hosts, ∃ subnet, subnetOf ip.cidr = some subnet ∧ EntryInside subnet entry

structure Host.Sound (host : Host) : Prop where
  disjoint : ∀ seen, (host.networks seen).Pairwise Apart
  served : ∀ ip ∈ host.ips, ip.Served

/-- A host with sound networks to start from, each with a name of its own. -/
def Host.Start : Host → Prop
  | libvirt saved => (saved.map (·.name)).Nodup ∧ (libvirt saved).Sound
  | pve pending running =>
      (pending.map fun iface => (iface.node, iface.name)).Nodup ∧
        (running.map fun iface => (iface.node, iface.name)).Nodup ∧
        (pve pending running).Sound ∧ (pve running running).Sound

/-! ### When a change keeps it sound -/

/-- Whether dnsmasq serves a range on the subnet of `cidr`. -/
def serves (cidr : Text) (range : Text × Text) : Bool :=
  match subnetOf cidr, parseIpv4 range.1, parseIpv4 range.2 with
  | some subnet, some first, some last =>
      decide (first ≤ last) && first &&& mask subnet.length == subnet.net &&
        last &&& mask subnet.length == subnet.net &&
        !(decide (first ≤ subnet.address) && decide (subnet.address ≤ last))
  | _, _, _ => false

/-- An edit of a PVE bridge gives it an address that overlaps no other network of the node,
and an edit of a libvirt network leaves no further range of its definition off the subnet. -/
def Made.clear (host : Host) (made : Made) : Bool :=
  !made.takes ||
    match host, made.change with
    | .libvirt saved, .networkEdit id mode _ address length _ _ _ =>
        let c := editedCidr address length
        mode == modeBridge || c.isEmpty || saved.all fun definition =>
          definition.name != id || definition.first4.all fun ip => (ip.ranges.drop 1).all (serves c)
    | .pve pending _, .networkEditBridge id (some cidr) _ =>
        match pending.find? fun iface => iface.id == id with
        | none => true
        | some found => pending.all fun other =>
            other.node != found.node || other.name == found.name ||
              (other.cidr.toList ++ other.cidr6.toList).all fun held =>
                !overlaps held (Text.trim cidr)
    | _, _ => true

/-! ### Ranges and entries -/

theorem rangeInside_of_serves {cidr : Text} {range : Text × Text}
    (served : serves cidr range = true) :
    ∃ subnet, subnetOf cidr = some subnet ∧ RangeInside subnet range := by
  simp only [serves] at served
  split at served
  next subnet first last isSubnet isFirst isLast =>
      simp only [Bool.and_eq_true, decide_eq_true_eq, beq_iff_eq, Bool.not_eq_eq_eq_not,
        Bool.not_true, Bool.and_eq_false_iff, decide_eq_false_iff_not] at served
      obtain ⟨⟨⟨ordered, firstIn⟩, lastIn⟩, off⟩ := served
      refine ⟨subnet, isSubnet, first, last, isFirst, isLast, ordered, ?_⟩
      intro address above below
      refine ⟨and_mask_between subnet.bounded firstIn lastIn above below, ?_⟩
      rintro rfl
      exact off.elim (fun outside => outside above) fun outside => outside below
  next => cases served

/-- A range that the form's rule takes is served. -/
theorem serves_of_dhcpFits {cidr start finish : Text} {address : Address} {length : Nat}
    (parsed : parseCidr cidr = some (address, length))
    (fits : dhcpFits address length (some start) (some finish) = true) :
    serves cidr (start, finish) = true := by
  obtain ⟨bounded, isSubnet⟩ := subnetOf_of_parseCidr parsed
  simp only [dhcpFits, Option.bind_some] at fits
  split at fits
  next first last isFirst isLast =>
      simp only [Bool.and_eq_true] at fits
      obtain ⟨⟨⟨⟨⟨ordered, firstIn⟩, lastIn⟩, -⟩, -⟩, off⟩ := fits
      simp only [serves, isSubnet, isFirst, isLast, Bool.and_eq_true]
      exact ⟨⟨⟨ordered, firstIn⟩, lastIn⟩, off⟩
  next => cases fits

theorem entryInside_of_inSubnet {cidr : Text} {address : Address} {length : Nat}
    (parsed : parseCidr cidr = some (address, length)) {entry : NetHost}
    (inside : inSubnet (some (address, length)) (parseIpv4 entry.ip) = true) :
    ∃ subnet, subnetOf cidr = some subnet ∧ EntryInside subnet entry := by
  obtain ⟨bounded, isSubnet⟩ := subnetOf_of_parseCidr parsed
  cases isIp : parseIpv4 entry.ip with
  | none => simp [inSubnet, isIp] at inside
  | some ip =>
      simp only [inSubnet, isIp, Bool.and_eq_true, beq_iff_eq, bne_iff_ne] at inside
      exact ⟨_, isSubnet, ip, isIp, inside.1.1.1, inside.1.1.2⟩

/-- The blanks around the ends of a range do not matter. -/
theorem serves_trim (cidr start finish : Text) :
    serves cidr (Text.trim start, Text.trim finish) = serves cidr (start, finish) := by
  simp only [serves, parseIpv4_congr (Text.trim_trim start),
    parseIpv4_congr (Text.trim_trim finish)]

/-- The range of an accepted change is served, when it has one. -/
theorem serves_of_range {cidr : Text} {address : Address} {length : Nat}
    {dhcpStart dhcpEnd : Option Text} (parsed : parseCidr cidr = some (address, length))
    (dhcp : dhcpStart = none ∧ dhcpEnd = none ∨ dhcpFits address length dhcpStart dhcpEnd = true)
    {start finish : Text} (starts : dhcpStart = some start) (ends : dhcpEnd = some finish) :
    serves cidr (start, finish) = true := by
  subst starts ends
  rcases dhcp with ⟨absent, -⟩ | fits
  · cases absent
  · exact serves_of_dhcpFits parsed fits

/-! ### The invariant -/

/-- Two networks told apart by their names whose subnets, on one node, do not overlap. -/
def Network.Clear (left right : Network) : Prop :=
  (left.node, left.name) ≠ (right.node, right.name) ∧
    (left.node = right.node → ∀ leftCidr ∈ left.cidrs, ∀ rightCidr ∈ right.cidrs,
      overlaps leftCidr rightCidr = false)

theorem Network.Clear.symm {left right : Network} (clear : left.Clear right) :
    right.Clear left := by
  refine ⟨clear.1.symm, fun sameNode rightCidr isRight leftCidr isLeft => ?_⟩
  rw [overlaps_comm]
  exact clear.2 sameNode.symm leftCidr isLeft rightCidr isRight

theorem Network.Clear.apart {left right : Network} (clear : left.Clear right) :
    Apart left right :=
  fun sameNode leftCidr isLeft rightCidr isRight _ _ leftIs rightIs =>
    disjoint_of_not_overlaps (clear.2 sameNode leftCidr isLeft rightCidr isRight) leftIs rightIs

instance : Std.Symm Apart where
  symm _ _ apart sameNode leftCidr isLeft rightCidr isRight leftNet rightNet leftIs rightIs :=
    (apart sameNode.symm rightCidr isRight leftCidr isLeft rightNet leftNet rightIs leftIs).symm

theorem Network.clear_of_apart {left right : Network}
    (named : (left.node, left.name) ≠ (right.node, right.name)) (apart : Apart left right) :
    left.Clear right := by
  refine ⟨named, fun sameNode leftCidr isLeft rightCidr isRight => ?_⟩
  rw [Bool.eq_false_iff]
  intro overlap
  obtain ⟨leftNet, rightNet, leftIs, rightIs, meet⟩ := overlaps_eq_true_iff.mp overlap
  exact meet (apart sameNode leftCidr isLeft rightCidr isRight leftNet rightNet leftIs rightIs)

def Seen.nothing : Seen where
  users _ := []
  management _ := false

/-- Names and subnets of a definition are the same in every listing. -/
def Definition.Clear (left right : Definition) : Prop :=
  (left.network .nothing).Clear (right.network .nothing)

def Iface.Clear (left right : Iface) : Prop :=
  (left.network .nothing).Clear (right.network .nothing)

instance : Std.Symm Definition.Clear where
  symm _ _ clear := Network.Clear.symm clear

instance : Std.Symm Iface.Clear where
  symm _ _ clear := Network.Clear.symm clear

theorem Definition.Clear.name_ne {left right : Definition} (clear : left.Clear right) :
    left.name ≠ right.name :=
  fun same => clear.1 (Prod.ext rfl same)

theorem Iface.Clear.key_ne {left right : Iface} (clear : left.Clear right) :
    (left.node, left.name) ≠ (right.node, right.name) :=
  fun same => clear.1 (Prod.ext (congrArg some (Prod.mk.inj same).1) (Prod.mk.inj same).2)

def Host.Kept : Host → Prop
  | libvirt saved =>
      saved.Pairwise Definition.Clear ∧ ∀ definition ∈ saved, ∀ ip ∈ definition.ips, ip.Served
  | pve pending running => pending.Pairwise Iface.Clear ∧ running.Pairwise Iface.Clear

/-- Names of their own and sound subnets are what the invariant asks of a list. -/
theorem pairwise_clear {α : Type} (network : α → Network) {values : List α}
    (named : (values.map fun value => ((network value).node, (network value).name)).Nodup)
    (apart : (values.map network).Pairwise Apart) :
    values.Pairwise fun left right => (network left).Clear (network right) := by
  have names := List.pairwise_map.mp named
  have subnets := List.pairwise_map.mp apart
  exact (names.and subnets).imp fun both => Network.clear_of_apart both.1 both.2

theorem Host.Start.kept {host : Host} (start : host.Start) : host.Kept := by
  cases host with
  | libvirt saved =>
      refine ⟨pairwise_clear (Definition.network .nothing) ?_ (start.2.disjoint .nothing), ?_⟩
      · have names := List.pairwise_map.mp start.1
        exact List.pairwise_map.mpr (names.imp fun differ same => differ (Prod.mk.inj same).2)
      · intro definition held ip isIp
        exact start.2.served ip (List.mem_flatMap.mpr ⟨definition, held, isIp⟩)
  | pve pending running =>
      have keyed : ∀ ifaces : List Iface, (ifaces.map fun iface => (iface.node, iface.name)).Nodup →
          (ifaces.map fun iface => ((iface.network .nothing).node,
            (iface.network .nothing).name)).Nodup := by
        intro ifaces named
        have names := List.pairwise_map.mp named
        refine List.pairwise_map.mpr (names.imp fun differ same => differ ?_)
        have parts := Prod.mk.inj same
        exact Prod.ext (Option.some.inj parts.1) parts.2
      obtain ⟨pendingNamed, runningNamed, pendingSound, runningSound⟩ := start
      exact ⟨pairwise_clear (Iface.network .nothing) (keyed _ pendingNamed)
          (pendingSound.disjoint .nothing),
        pairwise_clear (Iface.network .nothing) (keyed _ runningNamed)
          (runningSound.disjoint .nothing)⟩

theorem Host.Kept.sound {host : Host} (kept : host.Kept) : host.Sound := by
  cases host with
  | libvirt saved =>
      refine ⟨fun seen => List.pairwise_map.mpr (kept.1.imp fun clear => clear.apart), ?_⟩
      intro ip held
      obtain ⟨definition, isDefinition, isIp⟩ := List.mem_flatMap.mp held
      exact kept.2 definition isDefinition ip isIp
  | pve pending running =>
      refine ⟨fun seen => List.pairwise_map.mpr (kept.1.imp fun clear => clear.apart), ?_⟩
      intro ip held
      cases held

/-! ### Lists of which one is changed -/

section Lists

variable {α κ : Type} [DecidableEq κ] {Rel : α → α → Prop} [Std.Symm Rel] {key : α → κ}
  {values : List α}

/-- What is related to all the others stays so after a change that keeps to it. -/
theorem pairwise_replace (related : values.Pairwise Rel)
    (named : ∀ left right, Rel left right → key left ≠ key right) (wanted : κ) (change : α → α)
    (keeps : ∀ value ∈ values, key value = wanted → ∀ other ∈ values, key other ≠ wanted →
      Rel (change value) other) :
    (replace key wanted change values).Pairwise Rel := by
  refine List.pairwise_map.mpr (related.imp_of_mem ?_)
  intro left right isLeft isRight rel
  by_cases leftIs : key left = wanted
  · have rightIsNot : key right ≠ wanted := fun rightIs =>
      named left right rel (leftIs.trans rightIs.symm)
    rw [if_pos leftIs, if_neg rightIsNot]
    exact keeps left isLeft leftIs right isRight rightIsNot
  · rw [if_neg leftIs]
    by_cases rightIs : key right = wanted
    · rw [if_pos rightIs]
      exact Std.Symm.symm _ _ (keeps right isRight rightIs left isLeft leftIs)
    · rw [if_neg rightIs]
      exact rel

theorem pairwise_append_new (related : values.Pairwise Rel) {new : α}
    (clear : ∀ value ∈ values, Rel new value) :
    (values ++ [new]).Pairwise Rel :=
  List.pairwise_append.mpr ⟨related, List.pairwise_singleton _ _, fun value held _ isNew =>
    List.mem_singleton.mp isNew ▸ Std.Symm.symm _ _ (clear value held)⟩

theorem mem_replace {wanted : κ} {change : α → α} {value : α}
    (held : value ∈ replace key wanted change values) :
    value ∈ values ∨ ∃ before ∈ values, key before = wanted ∧ value = change before := by
  obtain ⟨before, isBefore, rfl⟩ := List.mem_map.mp held
  split
  next found => exact .inr ⟨before, isBefore, found, rfl⟩
  next => exact .inl isBefore

end Lists

/-! ### PVE -/

/-- A trimmed text is one that is not blank. -/
theorem trimmed_eq_some_iff {text : Option Text} {kept : Text} :
    trimmed text = some kept ↔ Text.trim (text.getD []) = kept ∧ kept ≠ [] := by
  cases text with
  | none =>
      simp only [trimmed, Option.map_none, Option.filter_none, reduceCtorEq, Option.getD_none,
        false_iff, not_and, not_not]
      exact fun same => same.symm
  | some text =>
      simp only [trimmed, Option.map_some, Option.filter_eq_some_iff, Option.some.injEq,
        Option.getD_some, Bool.not_eq_eq_eq_not, Bool.not_true, List.isEmpty_eq_false_iff]

theorem Iface.mem_cidrs {seen : Seen} {iface : Iface} {cidr : Text} :
    cidr ∈ (iface.network seen).cidrs ↔ iface.cidr = some cidr ∨ iface.cidr6 = some cidr := by
  simp [Iface.network]

theorem pve_create_clear {pending : List Iface} {seen : Seen} {name mode : Text}
    {node bridge cidr dhcpStart dhcpEnd : Option Text}
    (accepted : issueCreate .pve (pending.map (Iface.network seen)) name mode node bridge cidr
      dhcpStart dhcpEnd = none) (other : Iface) (listed : other ∈ pending) :
    (createdBridge name node cidr).Clear other := by
  obtain ⟨fresh, hasNode, subnet⟩ := issueCreate_eq_none accepted
  obtain ⟨node, rfl⟩ := Option.isSome_iff_exists.mp (hasNode rfl)
  have isNetwork : other.network seen ∈ pending.map (Iface.network seen) :=
    List.mem_map_of_mem listed
  constructor
  · intro same
    have parts := Prod.mk.inj same
    exact (fresh _ isNetwork parts.2.symm).2 parts.1.symm
  · intro sameNode held isHeld otherCidr isOther
    have isNew : trimmed cidr = some held := by
      simpa [createdBridge] using Iface.mem_cidrs.mp isHeld
    obtain ⟨isTrim, some⟩ := trimmed_eq_some_iff.mp isNew
    rcases subnet with blank | ⟨isLibvirt, -⟩ | ⟨address, length, parsed, apart, -⟩
    · exact absurd (isTrim.symm.trans blank) some
    · cases isLibvirt
    · rw [overlaps_comm, ← isTrim]
      exact apart _ isNetwork (fun _ => sameNode.symm) otherCidr isOther

theorem pve_edit_clear {pending : List Iface} (related : pending.Pairwise Iface.Clear)
    {cidr : Option Text} {iface other : Iface} (isIface : iface ∈ pending)
    (isOther : other ∈ pending) (differ : (iface.node, iface.name) ≠ (other.node, other.name))
    (clear : ∀ new, cidr = some new → iface.node = other.node → ∀ held,
      other.cidr = some held ∨ other.cidr6 = some held → overlaps held (Text.trim new) = false) :
    (editedBridge cidr iface).Clear other := by
  have before : iface.Clear other :=
    related.forall isIface isOther fun same => differ (by rw [same])
  refine ⟨before.1, fun sameNode held isHeld otherCidr isOtherCidr => ?_⟩
  have same : iface.node = other.node := Option.some.inj sameNode
  have old : ∀ kept, iface.cidr = some kept ∨ iface.cidr6 = some kept →
      overlaps kept otherCidr = false := fun kept isKept =>
    before.2 sameNode kept (Iface.mem_cidrs.mpr isKept) otherCidr isOtherCidr
  rcases Iface.mem_cidrs.mp isHeld with four | six
  · have address := (Option.filter_eq_some_iff.mp four).1
    cases cidr with
    | none => exact old held (.inl address)
    | some new =>
        have isNew : Text.trim new = held := Option.some.inj address
        rw [overlaps_comm, ← isNew]
        exact clear new rfl same otherCidr (Iface.mem_cidrs.mp isOtherCidr)
  · exact old held (.inr six)

/-- The interfaces of one node taken from another configuration. -/
theorem pairwise_merge {left right : List Iface} (leftRelated : left.Pairwise Iface.Clear)
    (rightRelated : right.Pairwise Iface.Clear) (node : Text) :
    ((left.filter fun iface => iface.node ≠ node) ++
      right.filter fun iface => iface.node = node).Pairwise Iface.Clear := by
  refine List.pairwise_append.mpr ⟨leftRelated.filter _, rightRelated.filter _, ?_⟩
  intro one isOne other isOther
  have oneNode : one.node ≠ node := by simpa using (List.mem_filter.mp isOne).2
  have otherNode : other.node = node := by simpa using (List.mem_filter.mp isOther).2
  have differ : some one.node ≠ some other.node := fun same =>
    oneNode ((Option.some.inj same).trans otherNode)
  exact ⟨fun same => differ (Prod.mk.inj same).1, fun same => absurd same differ⟩

theorem Host.Kept.pve_step {pending running : List Iface} {made : Made}
    (kept : (Host.pve pending running).Kept) (clear : made.clear (.pve pending running) = true)
    (accepted : issue made.change .pve (pending.map (Iface.network made.seen)) = none)
    (takes : made.takes = true) : (pveChange pending running made.change).Kept := by
  obtain ⟨pendingRelated, runningRelated⟩ := kept
  cases isChange : made.change with
  | networkCreate name mode node bridge cidr dhcpStart dhcpEnd =>
      rw [isChange] at accepted
      exact ⟨pairwise_append_new pendingRelated (pve_create_clear accepted),
        runningRelated⟩
  | networkEditBridge id cidr gateway =>
      simp only [pveChange]
      split
      next => exact ⟨pendingRelated, runningRelated⟩
      next found isFound =>
          refine ⟨?_, runningRelated⟩
          refine pairwise_replace pendingRelated (fun _ _ => Iface.Clear.key_ne) _ _ ?_
          intro iface isIface isWanted other isOther isNot
          refine pve_edit_clear pendingRelated isIface isOther
            (fun same => isNot (same ▸ isWanted)) ?_
          rintro new rfl sameNode held isHeld
          have wantedParts := Prod.mk.inj isWanted
          simp only [Made.clear, takes, isChange, isFound, Bool.not_true, Bool.false_or,
            List.all_eq_true, Bool.or_eq_true, bne_iff_ne, beq_iff_eq] at clear
          rcases clear other isOther with (node | name) | apart
          · exact absurd (sameNode.symm.trans wantedParts.1) node
          · exact absurd (Prod.ext (sameNode.symm.trans wantedParts.1) name) isNot
          · simpa using apart held (by simpa using isHeld)
  | networkDelete id =>
      simp only [pveChange]
      split
      next => exact ⟨pendingRelated, runningRelated⟩
      next => exact ⟨pendingRelated.filter _, runningRelated⟩
  | networkApply node => exact ⟨pendingRelated, pairwise_merge runningRelated pendingRelated node⟩
  | networkRevert node => exact ⟨pairwise_merge pendingRelated runningRelated node, runningRelated⟩
  | networkEdit => exact ⟨pendingRelated, runningRelated⟩
  | networkRestart => exact ⟨pendingRelated, runningRelated⟩
  | networkSetActive => exact ⟨pendingRelated, runningRelated⟩
  | networkSetAutostart => exact ⟨pendingRelated, runningRelated⟩

/-! ### A libvirt network made -/

/-- A prefix written in decimal is read back. -/
theorem decimal_prefix : ∀ length ≤ 30, '/' ∉ Text.decimal length ∧
    Text.parseUnsigned 255 (Text.trim (Text.decimal length)) = some length := by
  decide

theorem length_of_checkAddressing {address : Text} {length : Nat} {start finish : Option Text}
    {hosts : List NetHost} (checked : checkAddressing address length start finish hosts = true) :
    8 ≤ length ∧ length ≤ 30 := by
  simp only [checkAddressing] at checked
  split at checked
  next => cases checked
  next =>
      simp only [Bool.and_eq_true, decide_eq_true_eq] at checked
      exact ⟨checked.1.1.1.1.1, checked.1.1.1.1.2⟩

/-- A create that passes its check has its address checked. -/
theorem NetCreate.check_ipv4 {create : NetCreate} {dhcpStart dhcpEnd : Option Text}
    (checked : create.check dhcpStart dhcpEnd = true) {ip : Ip} (isIp : create.ipv4 = some ip) :
    checkAddressing ip.address (ip.length.getD 0) dhcpStart dhcpEnd [] = true := by
  simp only [NetCreate.check, isIp, Bool.and_eq_true] at checked
  replace checked := checked.2
  split at checked
  next => simp at checked
  next =>
      split at checked
      next => simpa using (Bool.and_eq_true _ _ ▸ checked).2
      next =>
          split at checked
          next => simpa using (Bool.and_eq_true _ _ ▸ checked).2
          next => cases checked

/-- The `<ip>` of a checked create names the subnet of the address asked for. -/
theorem netCreate_ip {name mode : Text} {bridge cidr dhcpStart dhcpEnd : Option Text}
    (checked : (netCreate name mode bridge cidr dhcpStart dhcpEnd).check dhcpStart dhcpEnd = true)
    {ip : Ip} (isIp : (netCreate name mode bridge cidr dhcpStart dhcpEnd).ipv4 = some ip) :
    mode ≠ modeBridge ∧ Text.trim (cidr.getD []) ≠ [] ∧
      split ip.cidr = split (Text.trim (cidr.getD [])) ∧ ip.hosts = [] ∧
      ∀ range ∈ ip.ranges, dhcpStart = some range.1 ∧ dhcpEnd = some range.2 := by
  obtain ⟨atLeast, atMost⟩ := length_of_checkAddressing (NetCreate.check_ipv4 checked isIp)
  simp only [netCreate] at isIp
  split at isIp
  next c isC =>
      obtain ⟨isTrim, some⟩ := trimmed_eq_some_iff.mp isC
      split at isIp
      next => cases isIp
      next plain =>
          cases isIp
          simp only [Option.getD_some] at atLeast atMost
          rw [isTrim]
          refine ⟨plain, some, ?_, rfl, ?_⟩
          · -- The check leaves only a prefix that was read, and it is written as it was read.
            cases isSplit : Text.splitOnce '/' c with
            | none => simp [isSplit, Text.parseUnsigned] at atLeast
            | some parts =>
                obtain ⟨address, written⟩ := parts
                obtain ⟨rfl, bare⟩ := Text.splitOnce_eq_some_iff.mp isSplit
                cases isLength : Text.parseUnsigned 255 written with
                | none => simp [isSplit, isLength] at atLeast
                | some length =>
                    simp only [isSplit, isLength, Option.getD_some] at atMost
                    obtain ⟨plainDecimal, back⟩ := decimal_prefix length atMost
                    have solid := Text.solid_of_parseUnsigned isLength
                    have plainWritten : '/' ∉ written := Text.not_mem_of_parseUnsigned isLength
                      (by decide) (by decide)
                    simp only [Ip.cidr, isLength, Option.getD_some]
                    rw [split_append bare, split_append bare, if_neg plainDecimal,
                      if_neg plainWritten, back, Text.trim_eq_self solid, isLength]
          · intro range held
            cases dhcpStart with
            | none => cases held
            | some start =>
                cases dhcpEnd with
                | none => cases held
                | some finish =>
                    rw [List.mem_singleton.mp held]
                    exact ⟨rfl, rfl⟩
  next => cases isIp

/-- A network that libvirt is given by a create keeps clear of those it has. -/
theorem libvirt_create_clear {saved : List Definition} {seen : Seen} {name mode : Text}
    {node bridge cidr dhcpStart dhcpEnd : Option Text}
    (accepted : issueCreate .libvirt (saved.map (Definition.network seen)) name mode node bridge
      cidr dhcpStart dhcpEnd = none)
    (checked : (netCreate name mode bridge cidr dhcpStart dhcpEnd).check dhcpStart dhcpEnd = true)
    (other : Definition) (listed : other ∈ saved) :
    (netCreate name mode bridge cidr dhcpStart dhcpEnd).definition.Clear other := by
  obtain ⟨fresh, -, subnet⟩ := issueCreate_eq_none accepted
  have isNetwork : other.network seen ∈ saved.map (Definition.network seen) :=
    List.mem_map_of_mem listed
  constructor
  · intro same
    cases (fresh _ isNetwork (Prod.mk.inj same).2.symm).1
  · intro sameNode held isHeld otherCidr isOther
    obtain ⟨ip, isIp, rfl⟩ := List.mem_map.mp isHeld
    obtain ⟨plain, some, sameSplit, -, -⟩ := netCreate_ip checked (Option.mem_toList.mp isIp)
    rcases subnet with blank | ⟨-, bridged⟩ | ⟨address, length, parsed, apart, -⟩
    · exact absurd blank some
    · exact absurd bridged plain
    · rw [overlaps_comm, overlaps_congr sameSplit]
      exact apart _ isNetwork (fun isPve => nomatch isPve) otherCidr isOther

theorem libvirt_create_served {networks : List Network} {name mode : Text}
    {node bridge cidr dhcpStart dhcpEnd : Option Text}
    (accepted : issueCreate .libvirt networks name mode node bridge cidr dhcpStart dhcpEnd = none)
    (checked : (netCreate name mode bridge cidr dhcpStart dhcpEnd).check dhcpStart dhcpEnd = true)
    {ip : Ip} (isIp : (netCreate name mode bridge cidr dhcpStart dhcpEnd).ipv4 = some ip) :
    ip.Served := by
  intro _
  obtain ⟨plain, some, sameSplit, noHosts, ranges⟩ := netCreate_ip checked isIp
  obtain ⟨-, -, subnet⟩ := issueCreate_eq_none accepted
  rcases subnet with blank | ⟨-, bridged⟩ | ⟨address, length, parsed, -, dhcp⟩
  · exact absurd blank some
  · exact absurd bridged plain
  · constructor
    · intro range held
      obtain ⟨starts, ends⟩ := ranges range held
      exact rangeInside_of_serves (serves_of_range ((parseCidr_congr sameSplit).trans parsed)
        (dhcp rfl) starts ends)
    · intro entry held
      rw [noHosts] at held
      cases held

/-! ### A libvirt network edited -/

theorem mem_alterFirst4 {change : Ip → Option Ip} {ips : List Ip} {ip : Ip}
    (held : ip ∈ alterFirst4 change ips) :
    ip ∈ ips ∨ ∃ first, ips.find? (fun ip => !ip.v6) = some first ∧ change first = some ip := by
  induction ips with
  | nil => cases held
  | cons head rest inductionHypothesis =>
      rw [alterFirst4] at held
      split at held
      next six =>
          rcases List.mem_cons.mp held with rfl | later
          · exact .inl List.mem_cons_self
          · rcases inductionHypothesis later with kept | ⟨first, isFirst, changed⟩
            · exact .inl (List.mem_cons_of_mem _ kept)
            · exact .inr ⟨first, by rw [List.find?_cons_of_neg (by simpa using six)]; exact isFirst,
                changed⟩
      next four =>
          rcases List.mem_append.mp held with new | kept
          · exact .inr ⟨head, List.find?_cons_of_pos (by simpa using four),
              Option.mem_toList.mp new⟩
          · exact .inl (List.mem_cons_of_mem _ kept)

/-- Where an `<ip>` of an edited definition comes from. -/
inductive FromEdit (base : Definition) (edit : NetEdit) : Ip → Prop where
  | kept {ip} (held : ip ∈ base.ips) : FromEdit base edit ip
  | written {address} (isAddress : edit.address = some address) :
      FromEdit base edit (ipElement base.first4 edit address)
  | updated {ip} (held : base.first4 = some ip) (unchanged : edit.needsRestart base = false) :
      FromEdit base edit { ip with hosts := updatedHosts ip.hosts edit.hosts }

theorem NetEdit.fromEdit {edit : NetEdit} {base : Definition} {ip : Ip}
    (held : ip ∈ (edit.definition base).ips) : FromEdit base edit ip := by
  simp only [NetEdit.definition] at held
  split at held
  next =>
      simp only [editedIps] at held
      split at held
      next => cases held
      next =>
          split at held
          next first address isFirst isAddress =>
              rcases mem_alterFirst4 held with kept | ⟨first', isFirst', changed⟩
              · exact .kept kept
              · have same : first' = first := Option.some.inj (isFirst'.symm.trans isFirst)
                rw [← Option.some.inj changed, same, ← isFirst]
                exact .written isAddress
          next =>
              rcases mem_alterFirst4 held with kept | ⟨_, _, changed⟩
              · exact .kept kept
              · cases changed
          next address isFirst isAddress =>
              rcases List.mem_cons.mp held with rfl | kept
              · rw [← isFirst]
                exact .written isAddress
              · exact .kept kept
          next => exact .kept held
  next unchanged =>
      rcases mem_alterFirst4 held with kept | ⟨first, isFirst, changed⟩
      · exact .kept kept
      · rw [← Option.some.inj changed]
        exact .updated isFirst (Bool.not_eq_true _ ▸ unchanged)

/-- Every entry written has the address of one asked for. -/
theorem ip_of_mem_writtenHosts {old new : List NetHost} {entry : NetHost}
    (held : entry ∈ writtenHosts old new) : ∃ asked ∈ new, asked.ip = entry.ip := by
  rcases List.mem_append.mp held with rewritten | added
  · obtain ⟨before, -, isEntry⟩ := List.mem_filterMap.mp rewritten
    obtain ⟨edited, isEdited, result⟩ := Option.map_eq_some_iff.mp isEntry
    refine ⟨edited, List.mem_of_find?_eq_some isEdited, ?_⟩
    split at result
    next same =>
        subst result
        simp only [sameHost, Bool.and_eq_true, beq_iff_eq] at same
        exact same.1.2.symm
    next => rw [result]
  · exact ⟨entry, (List.mem_filter.mp added).1, rfl⟩

/-- Every entry left by the updates has the address of one asked for. -/
theorem ip_of_mem_updatedHosts {old new : List NetHost} {entry : NetHost}
    (held : entry ∈ updatedHosts old new) : ∃ asked ∈ new, asked.ip = entry.ip := by
  rcases List.mem_append.mp held with stays | added
  · have kept := (List.mem_filter.mp stays).2
    cases isAsked : new.find? (sameMac entry) with
    | none => simp [isAsked] at kept
    | some asked =>
        refine ⟨asked, List.mem_of_find?_eq_some isAsked, ?_⟩
        simp only [isAsked, Bool.not_not, sameHost, Bool.and_eq_true, beq_iff_eq] at kept
        exact kept.1.2.symm
  · exact ⟨entry, (List.mem_filter.mp added).1, rfl⟩

/-- A checked edit has an address with its prefix, or nothing to serve. -/
theorem NetEdit.check_addressing {edit : NetEdit} (checked : edit.check = true) :
    (edit.address = none ∧ edit.hosts = []) ∨
      edit.mode ≠ modeBridge ∧ ∃ address length, edit.address = some address ∧
        edit.length = some length := by
  simp only [NetEdit.check, Bool.and_eq_true] at checked
  replace checked := checked.1.1
  split at checked
  next =>
      simp only [Bool.and_eq_true, Option.isNone_iff_eq_none, List.isEmpty_iff] at checked
      exact .inl ⟨checked.1.1.1.1.2, checked.2⟩
  next plain =>
      split at checked
      next =>
          replace checked := (Bool.and_eq_true _ _ ▸ checked).2
          split at checked
          next address length isAddress isLength =>
              exact .inr ⟨plain, address, length, isAddress, isLength⟩
          next isAddress _ =>
              simp only [Bool.and_eq_true, List.isEmpty_iff] at checked
              exact .inl ⟨isAddress, checked.1.2⟩
          next => cases checked
      next => cases checked

theorem ipElement_cidr {base : Option Ip} {edit : NetEdit} {address : Text} {number : Nat}
    (isLength : edit.length = some number) :
    (ipElement base edit address).cidr = address ++ '/' :: Text.decimal number := by
  simp [ipElement, Ip.cidr, isLength]

/-- The range an edit writes is the one asked for, without blanks around its ends. -/
theorem mem_editRange {start finish : Option Text} {range : Text × Text}
    (held : range ∈ (match trimmed start, trimmed finish with
      | some start, some finish => [(start, finish)]
      | _, _ => [])) :
    ∃ first last, start = some first ∧ finish = some last ∧
      range = (Text.trim first, Text.trim last) := by
  split at held
  next first last isFirst isLast =>
      cases start with
      | none => cases isFirst
      | some start =>
          cases finish with
          | none => cases isLast
          | some finish =>
              refine ⟨start, finish, rfl, rfl, (List.mem_singleton.mp held).trans ?_⟩
              exact Prod.ext (trimmed_eq_some_iff.mp isFirst).1.symm
                (trimmed_eq_some_iff.mp isLast).1.symm
  next => cases held

/-- An edit that needs no restart asks for the address there is. -/
theorem NetEdit.cidr_of_unchanged {edit : NetEdit} {base : Definition} {first : Ip}
    (unchanged : edit.needsRestart base = false) (isFirst : base.first4 = some first)
    {number : Nat} (isLength : edit.length = some number) :
    ∃ address, edit.address = some address ∧
      first.cidr = address ++ '/' :: Text.decimal number := by
  simp only [NetEdit.needsRestart, isFirst, Bool.or_eq_false_iff, bne_eq_false_iff_eq,
    Option.map_some, Option.bind_some] at unchanged
  obtain ⟨⟨⟨⟨⟨-, sameAddress⟩, sameLength⟩, -⟩, -⟩, -⟩ := unchanged
  exact ⟨first.address, sameAddress, by simp [Ip.cidr, ← sameLength, isLength]⟩

section Edit

variable {saved : List Definition} {seen : Seen} {id mode : Text} {bridge address : Option Text}
  {length : Option Nat} {dhcpStart dhcpEnd : Option Text} {hosts : List NetHost}

/-- The address of an accepted and checked edit: as it is written, on a subnet of its own, with
its range and its entries inside. -/
theorem edit_addressed
    (accepted : issueEdit .libvirt (saved.map (Definition.network seen)) id mode bridge address
      length dhcpStart dhcpEnd hosts = none)
    (checked : (netEdit mode bridge address length dhcpStart dhcpEnd hosts).check = true)
    {bare : Text} (isAddress : trimmed address = some bare) :
    ∃ number parsed, length = some number ∧ mode ≠ modeBridge ∧
      editedCidr address length = bare ++ '/' :: Text.decimal number ∧
      parseCidr (editedCidr address length) = some parsed ∧
      (∀ other ∈ saved, other.name ≠ id → ∀ held ∈ other.ips,
        overlaps held.cidr (editedCidr address length) = false) ∧
      (dhcpStart = none ∧ dhcpEnd = none ∨
        dhcpFits parsed.1 parsed.2 dhcpStart dhcpEnd = true) ∧
      ∀ entry ∈ hosts, inSubnet (some parsed) (parseIpv4 entry.ip) = true := by
  obtain ⟨isTrim, some⟩ := trimmed_eq_some_iff.mp isAddress
  rcases NetEdit.check_addressing checked with ⟨none, -⟩ | ⟨plain, _, number, -, isLength⟩
  · cases isAddress.symm.trans none
  · replace isLength : length = Option.some number := isLength
    have isCidr : editedCidr address length = bare ++ '/' :: Text.decimal number := by
      simp [editedCidr, isTrim, some, isLength]
    obtain ⟨network, subnet, found, -, addressed, inside⟩ := issueEdit_eq_none accepted
    rcases issueAddressing_eq_ok addressed with ⟨-, bridged | blank⟩ |
      ⟨parsedAddress, parsedLength, rfl, -, parsed, apart, dhcp⟩
    · exact absurd bridged plain
    · rw [isCidr] at blank
      cases bare <;> cases blank
    · refine ⟨number, (parsedAddress, parsedLength), isLength, plain, isCidr, parsed, ?_, dhcp,
        inside⟩
      intro other listed named held isHeld
      have isId : network.id = id := by simpa using List.find?_some found
      refine apart (other.network seen) (List.mem_filter.mpr ⟨List.mem_map_of_mem listed, ?_⟩)
        held.cidr (List.mem_map_of_mem isHeld)
      rw [isId]
      exact bne_iff_ne.mpr named

/-- The subnets of an edited definition keep clear of the others'. -/
theorem libvirt_edit_clear (related : saved.Pairwise Definition.Clear)
    (accepted : issueEdit .libvirt (saved.map (Definition.network seen)) id mode bridge address
      length dhcpStart dhcpEnd hosts = none)
    (checked : (netEdit mode bridge address length dhcpStart dhcpEnd hosts).check = true)
    {base other : Definition} (isBase : base ∈ saved) (isOther : other ∈ saved)
    (named : base.name = id) (otherNamed : other.name ≠ id) :
    ((netEdit mode bridge address length dhcpStart dhcpEnd hosts).definition base).Clear other := by
  have differ : base.name ≠ other.name := fun same => otherNamed (same ▸ named)
  have before : base.Clear other :=
    related.forall isBase isOther fun same => differ (congrArg _ same)
  have sameName : ((netEdit mode bridge address length dhcpStart dhcpEnd hosts).definition
      base).name = base.name := by
    simp only [NetEdit.definition]
    split <;> rfl
  constructor
  · intro same
    exact differ (sameName.symm.trans (Prod.mk.inj same).2)
  · intro _ held isHeld otherCidr isOtherCidr
    obtain ⟨ip, isIp, rfl⟩ := List.mem_map.mp isHeld
    have old : ∀ kept ∈ base.ips, overlaps kept.cidr otherCidr = false := fun kept isKept =>
      before.2 rfl kept.cidr (List.mem_map_of_mem isKept) otherCidr isOtherCidr
    cases NetEdit.fromEdit isIp with
    | kept isKept => exact old ip isKept
    | written isAddress =>
        obtain ⟨number, -, isLength, -, isCidr, -, apart, -⟩ :=
          edit_addressed accepted checked isAddress
        obtain ⟨otherIp, isOtherIp, rfl⟩ := List.mem_map.mp isOtherCidr
        rw [ipElement_cidr isLength, ← isCidr, overlaps_comm]
        exact apart other isOther otherNamed otherIp isOtherIp
    | @updated first isFirst _ => exact old first (List.mem_of_find?_eq_some isFirst)

/-- What an edited definition serves is on its subnets, when the ranges it keeps are. -/
theorem libvirt_edit_served
    (accepted : issueEdit .libvirt (saved.map (Definition.network seen)) id mode bridge address
      length dhcpStart dhcpEnd hosts = none)
    (checked : (netEdit mode bridge address length dhcpStart dhcpEnd hosts).check = true)
    {base : Definition} (served : ∀ ip ∈ base.ips, ip.Served)
    (keptServed : ∀ ip, base.first4 = some ip → mode ≠ modeBridge →
      editedCidr address length ≠ [] → ∀ range ∈ ip.ranges.drop 1,
        serves (editedCidr address length) range = true)
    {ip : Ip} (isIp : ip ∈ ((netEdit mode bridge address length dhcpStart dhcpEnd
      hosts).definition base).ips) : ip.Served := by
  have asked : ∀ entry ∈ (netEdit mode bridge address length dhcpStart dhcpEnd hosts).hosts,
      ∃ change ∈ hosts, change.ip = entry.ip := by
    intro entry held
    obtain ⟨change, isChange, rfl⟩ := List.mem_map.mp held
    exact ⟨change, isChange, rfl⟩
  cases NetEdit.fromEdit isIp with
  | kept isKept => exact served ip isKept
  | @written bare isAddress =>
      obtain ⟨number, parsed, isLength, plain, isCidr, isParsed, -, dhcp, inside⟩ :=
        edit_addressed accepted checked isAddress
      intro _
      rw [ipElement_cidr isLength, ← isCidr]
      constructor
      · intro range held
        apply rangeInside_of_serves
        rcases List.mem_append.mp held with new | keptRange
        · obtain ⟨first, last, rfl, rfl, rfl⟩ := mem_editRange new
          rw [serves_trim]
          exact serves_of_range isParsed dhcp rfl rfl
        · cases isFirst : base.first4 with
          | none => simp [isFirst] at keptRange
          | some first =>
              refine keptServed first isFirst plain ?_ range (by simpa [isFirst] using keptRange)
              rw [isCidr]
              simp
      · intro entry held
        obtain ⟨edited, isEdited, sameIp⟩ := ip_of_mem_writtenHosts held
        obtain ⟨change, isChange, changeIp⟩ := asked edited isEdited
        apply entryInside_of_inSubnet isParsed
        rw [← sameIp, ← changeIp]
        exact inside change isChange
  | @updated old isFirst unchanged =>
      intro four
      refine ⟨(served old (List.mem_of_find?_eq_some isFirst) four).1, ?_⟩
      intro entry held
      obtain ⟨edited, isEdited, sameIp⟩ := ip_of_mem_updatedHosts held
      obtain ⟨change, isChange, changeIp⟩ := asked edited isEdited
      rcases NetEdit.check_addressing checked with ⟨-, noHosts⟩ | ⟨-, bare, number, isAddress, isLength⟩
      · rw [noHosts] at isEdited
        cases isEdited
      · obtain ⟨number', parsed, isLength', -, isCidr, isParsed, -, -, inside⟩ :=
          edit_addressed accepted checked isAddress
        obtain ⟨address', isAddress', sameCidr⟩ :=
          NetEdit.cidr_of_unchanged unchanged isFirst isLength'
        have sameBare : address' = bare := Option.some.inj (isAddress'.symm.trans isAddress)
        have sameText : old.cidr = editedCidr address length := by rw [sameCidr, isCidr, sameBare]
        have isInside := inside change isChange
        rw [changeIp, sameIp] at isInside
        exact sameText ▸ entryInside_of_inSubnet isParsed isInside

end Edit

theorem Host.Kept.libvirt_step {saved : List Definition} {made : Made}
    (kept : (Host.libvirt saved).Kept) (clear : made.clear (.libvirt saved) = true)
    (accepted : issue made.change .libvirt (saved.map (Definition.network made.seen)) = none)
    (takes : made.takes = true) : (Host.libvirt (libvirtChange saved made.change)).Kept := by
  obtain ⟨related, served⟩ := kept
  cases isChange : made.change with
  | networkCreate name mode node bridge cidr dhcpStart dhcpEnd =>
      rw [isChange] at accepted
      simp only [libvirtChange]
      split
      next checked =>
          refine ⟨pairwise_append_new related (libvirt_create_clear accepted checked), ?_⟩
          intro definition held ip isIp
          rcases List.mem_append.mp held with old | new
          · exact served definition old ip isIp
          · rw [List.mem_singleton.mp new] at isIp
            exact libvirt_create_served accepted checked (Option.mem_toList.mp isIp)
      next => exact ⟨related, served⟩
  | networkEdit id mode bridge address length dhcpStart dhcpEnd hosts =>
      rw [isChange] at accepted
      simp only [libvirtChange]
      split
      next checks =>
          have checked := (Bool.and_eq_true _ _ ▸ checks).1
          constructor
          · refine pairwise_replace related (fun _ _ => Definition.Clear.name_ne) _ _ ?_
            intro base isBase named other isOther otherNamed
            exact libvirt_edit_clear related accepted checked isBase isOther named otherNamed
          · intro definition held ip isIp
            rcases mem_replace held with old | ⟨base, isBase, named, rfl⟩
            · exact served definition old ip isIp
            · refine libvirt_edit_served accepted checked (served base isBase) ?_ isIp
              intro first isFirst plain some range isRange
              simp only [Made.clear, takes, isChange, Bool.not_true, Bool.false_or, Bool.or_eq_true,
                beq_iff_eq, plain, List.isEmpty_iff, some, List.all_eq_true, bne_iff_ne,
                false_or] at clear
              have fits := (clear base isBase).resolve_left fun differs => differs named
              rw [isFirst] at fits
              exact List.all_eq_true.mp fits range isRange
      next => exact ⟨related, served⟩
  | networkDelete id =>
      simp only [libvirtChange]
      split
      next =>
          exact ⟨related.filter _, fun definition held => served definition
            (List.mem_filter.mp held).1⟩
      next => exact ⟨related, served⟩
  | networkEditBridge => exact ⟨related, served⟩
  | networkRestart => exact ⟨related, served⟩
  | networkSetActive => exact ⟨related, served⟩
  | networkSetAutostart => exact ⟨related, served⟩
  | networkApply => exact ⟨related, served⟩
  | networkRevert => exact ⟨related, served⟩

/-! ### Runs -/

/-- A host under changes that are each accepted. -/
abbrev Host.system : System Host Made := .ofNext Host.Start Host.next

/-- An accepted change keeps the invariant. -/
theorem Host.Kept.step {host next : Host} {made : Made} (kept : host.Kept)
    (clear : made.clear host = true) (step : host.next made = some next) : next.Kept := by
  simp only [Host.next] at step
  split at step
  next => cases step
  next accepted =>
      replace accepted := Option.not_isSome_iff_eq_none.mp accepted
      split at step
      next => exact Option.some.inj step ▸ kept
      next takes =>
          replace takes : made.takes = true := by simpa using takes
          cases host with
          | libvirt saved => exact Option.some.inj step ▸ kept.libvirt_step clear accepted takes
          | pve pending running => exact Option.some.inj step ▸ kept.pve_step clear accepted takes

instance : DecidableRel Network.Clear := fun left right =>
  inferInstanceAs (Decidable ((left.node, left.name) ≠ (right.node, right.name) ∧
    (left.node = right.node → ∀ leftCidr ∈ left.cidrs, ∀ rightCidr ∈ right.cidrs,
      overlaps leftCidr rightCidr = false)))

instance : DecidableRel Iface.Clear := fun left right =>
  inferInstanceAs (Decidable ((left.network .nothing).Clear (right.network .nothing)))

/-- A bridge that an edit gives an address on another's subnet shares addresses with it. -/
theorem bridge_edit_overlaps {pending : List Iface} {id new : Text} {found other : Iface}
    (isFound : pending.find? (fun iface => iface.id == id) = some found)
    (isOther : other ∈ pending) (sameNode : other.node = found.node)
    (named : other.name ≠ found.name) {held : Text}
    (isHeld : other.cidr = some held ∨ other.cidr6 = some held)
    (overlap : overlaps held (Text.trim new) = true) (running : List Iface) {change : Change}
    {gateway : Option Text} (isChange : change = .networkEditBridge id (some new) gateway) :
    ¬ (pveChange pending running change).Sound := by
  intro sound
  simp only [isChange, pveChange, isFound] at sound
  obtain ⟨heldNet, newNet, heldIs, newIs, meet⟩ := overlaps_eq_true_iff.mp overlap
  have isEdited : (editedBridge (some new) found).network .nothing ∈
      (replace (fun iface => (iface.node, iface.name)) (found.node, found.name)
        (editedBridge (some new)) pending).map (Iface.network .nothing) :=
    List.mem_map_of_mem (List.mem_map.mpr ⟨found, List.mem_of_find?_eq_some isFound, if_pos rfl⟩)
  have isListed : other.network .nothing ∈
      (replace (fun iface => (iface.node, iface.name)) (found.node, found.name)
        (editedBridge (some new)) pending).map (Iface.network .nothing) :=
    List.mem_map_of_mem (List.mem_map.mpr
      ⟨other, isOther, if_neg fun same => named (Prod.mk.inj same).2⟩)
  have apart : Apart (other.network .nothing) ((editedBridge (some new) found).network .nothing) :=
    (sound.disjoint .nothing).forall isListed isEdited fun same => named (congrArg Network.name same)
  refine meet (apart (congrArg some sameNode) held (Iface.mem_cidrs.mpr isHeld) (Text.trim new)
    (Iface.mem_cidrs.mpr (.inl ?_)) heldNet newNet heldIs newIs)
  change (some (Text.trim new)).filter (!·.isEmpty) = some (Text.trim new)
  refine Option.filter_eq_some_iff.mpr ⟨rfl, ?_⟩
  cases blank : Text.trim new with
  | nil =>
      rw [blank] at newIs
      cases newIs
  | cons => rfl

/-- Two bridges of one node, each with a subnet. -/
def twoBridges : List Iface :=
  [{ node := "pve1".toList, name := "vmbr0".toList, mode := modeBridge,
     cidr := some "10.0.0.1/24".toList, cidr6 := none },
   { node := "pve1".toList, name := "vmbr1".toList, mode := modeBridge,
     cidr := some "10.0.1.1/24".toList, cidr6 := none }]

theorem twoBridges_start : (Host.pve twoBridges twoBridges).Start := by
  have kept : (Host.pve twoBridges twoBridges).Kept := by
    constructor <;> decide
  exact ⟨by decide, by decide, kept.sound, kept.sound⟩

/-- The second bridge moved into the subnet of the first. -/
def moveBridge : Made where
  change := .networkEditBridge "pve1/vmbr1".toList (some "10.0.0.2/24".toList) none
  seen := .nothing
  takes := true

theorem moveBridge_accepted : issue moveBridge.change .pve
    ((Host.pve twoBridges twoBridges).networks moveBridge.seen) = none := by
  decide

theorem moveBridge_next : (Host.pve twoBridges twoBridges).next moveBridge =
    some (pveChange twoBridges twoBridges moveBridge.change) := by
  rw [Host.next, if_neg]
  · rfl
  · rw [show (Host.pve twoBridges twoBridges).kind = .pve from rfl, moveBridge_accepted]
    decide

theorem moveBridge_not_sound : ¬ (pveChange twoBridges twoBridges moveBridge.change).Sound := by
  have isOther : twoBridges[0] ∈ twoBridges := List.getElem_mem (by decide)
  have sameNode : twoBridges[0].node = twoBridges[1].node := by
    decide
  have named : twoBridges[0].name ≠ twoBridges[1].name := by
    decide
  have isFound : twoBridges.find? (fun iface => iface.id == "pve1/vmbr1".toList) =
      some twoBridges[1] := by
    decide
  have isHeld : twoBridges[0].cidr = some "10.0.0.1/24".toList ∨
      twoBridges[0].cidr6 = some "10.0.0.1/24".toList := .inl rfl
  have overlap : overlaps "10.0.0.1/24".toList (Text.trim "10.0.0.2/24".toList) = true := by
    decide
  exact bridge_edit_overlaps isFound isOther sameNode named isHeld overlap twoBridges rfl

/-- libvirt's own network, as it is installed. -/
def defaultNetwork : Definition where
  name := "default".toList
  mode := modeNat
  bridge := some "virbr0".toList
  ips := [{
    v6 := false, address := "192.168.122.1".toList, length := some 24
    ranges := [("192.168.122.2".toList, "192.168.122.254".toList)], hosts := [] }]

theorem defaultNetwork_start : (Host.libvirt [defaultNetwork]).Start := by
  have kept : (Host.libvirt [defaultNetwork]).Kept := by
    refine ⟨List.pairwise_singleton _ _, ?_⟩
    intro definition held ip isIp _
    obtain rfl := List.mem_singleton.mp held
    obtain rfl := List.mem_singleton.mp isIp
    constructor
    · intro range isRange
      obtain rfl := List.mem_singleton.mp isRange
      exact rangeInside_of_serves (by decide)
    · intro entry isEntry
      cases isEntry
  exact ⟨by decide, kept.sound⟩

/-- A second network made beside it, and then given another subnet with a static entry. -/
def makeLab : List Made :=
  [{ change := .networkCreate "lab".toList modeNat none none (some " 10.0.0.1/24".toList)
       (some "10.0.0.100".toList) (some "10.0.0.200".toList)
     seen := .nothing, takes := true },
   { change := .networkEdit "lab".toList modeRoute none (some "10.0.1.1".toList) (some 24)
       (some "10.0.1.100".toList) (some "10.0.1.200".toList)
       [{ mac := "52:54:00:aa:bb:01".toList, ip := "10.0.1.10".toList, name := none }]
     seen := .nothing, takes := true }]

def labMade : Host :=
  (System.follow (fun host made => made.clear host) Host.next (.libvirt [defaultNetwork])
    makeLab).get (by decide)

end ServerBox.Virt
