import ServerBox.Std.Text
import Mathlib

/-!
# IPv4 addresses and subnets

`src/crates/sbm_virt/src/resource/ipv4.rs`: an address with its prefix, the subnet it names,
and whether two subnets overlap.
-/

namespace ServerBox.Virt

open ServerBox.Std

abbrev Address := BitVec 32

/-! ### Masks -/

/-- The address bits that a prefix fixes. -/
def mask (length : Nat) : Address :=
  if length = 0 then 0#32 else BitVec.allOnes 32 <<< (32 - min length 32)

theorem getLsbD_mask {length : Nat} (bounded : length ≤ 32) (index : Nat) :
    (mask length).getLsbD index = (decide (index < 32) && decide (32 - length ≤ index)) := by
  rw [mask]
  split
  next none =>
      subst none
      by_cases inside : index < 32 <;> simp [inside]
  next =>
      rw [BitVec.getLsbD_shiftLeft, Nat.min_eq_left bounded, BitVec.getLsbD_allOnes]
      by_cases inside : index < 32 <;> by_cases high : 32 - length ≤ index <;>
        simp [inside, high]
      all_goals omega

/-- The shorter prefix fixes the fewer bits. -/
theorem mask_and_mask {short long : Nat} (ordered : short ≤ long) (bounded : long ≤ 32) :
    mask long &&& mask short = mask short := by
  apply BitVec.eq_of_getLsbD_eq
  intro index inside
  rw [BitVec.getLsbD_and, getLsbD_mask bounded, getLsbD_mask (by omega)]
  by_cases high : 32 - short ≤ index <;> simp [inside, high]
  omega

/-- The bits above the host's own are what the mask leaves. -/
theorem and_mask_eq_iff {length : Nat} (bounded : length ≤ 32) {left right : Address} :
    left &&& mask length = right &&& mask length ↔
      left >>> (32 - length) = right >>> (32 - length) := by
  constructor
  · intro same
    apply BitVec.eq_of_getLsbD_eq
    intro index inside
    have bit := congrArg (fun masked => masked.getLsbD (32 - length + index)) same
    simp only [BitVec.getLsbD_and, getLsbD_mask bounded] at bit
    rw [BitVec.getLsbD_ushiftRight, BitVec.getLsbD_ushiftRight]
    by_cases within : 32 - length + index < 32
    · simpa [within] using bit
    · rw [BitVec.getLsbD_of_ge _ _ (by omega), BitVec.getLsbD_of_ge _ _ (by omega)]
  · intro same
    apply BitVec.eq_of_getLsbD_eq
    intro index inside
    rw [BitVec.getLsbD_and, BitVec.getLsbD_and, getLsbD_mask bounded]
    by_cases high : 32 - length ≤ index
    · have bit := congrArg (fun shifted => shifted.getLsbD (index - (32 - length))) same
      simp only [BitVec.getLsbD_ushiftRight] at bit
      rw [Nat.add_sub_cancel' high] at bit
      rw [bit]
    · simp [high]

/-- What lies between two addresses of a subnet is in it. -/
theorem and_mask_between {length : Nat} (bounded : length ≤ 32) {first last between net : Address}
    (firstIn : first &&& mask length = net &&& mask length)
    (lastIn : last &&& mask length = net &&& mask length) (above : first ≤ between)
    (below : between ≤ last) : between &&& mask length = net &&& mask length := by
  rw [and_mask_eq_iff bounded] at firstIn lastIn ⊢
  have firstNat := congrArg BitVec.toNat firstIn
  have lastNat := congrArg BitVec.toNat lastIn
  rw [BitVec.toNat_ushiftRight, BitVec.toNat_ushiftRight, Nat.shiftRight_eq_div_pow,
    Nat.shiftRight_eq_div_pow] at firstNat lastNat
  apply BitVec.eq_of_toNat_eq
  rw [BitVec.toNat_ushiftRight, BitVec.toNat_ushiftRight, Nat.shiftRight_eq_div_pow,
    Nat.shiftRight_eq_div_pow]
  have lower := Nat.div_le_div_right (c := 2 ^ (32 - length)) (BitVec.le_def.mp above)
  have upper := Nat.div_le_div_right (c := 2 ^ (32 - length)) (BitVec.le_def.mp below)
  omega

/-! ### Subnets -/

/-- An address with its prefix. -/
structure Subnet where
  address : Address
  length : Nat
  bounded : length ≤ 32
deriving DecidableEq

namespace Subnet

/-- The network's own address. -/
def net (subnet : Subnet) : Address := subnet.address &&& mask subnet.length

def addresses (subnet : Subnet) : Set Address :=
  {address | address &&& mask subnet.length = subnet.net}

/-- Two subnets share an address when they agree on what the shorter prefix fixes. -/
theorem not_disjoint_iff (left right : Subnet) :
    ¬ Disjoint left.addresses right.addresses ↔
      left.address &&& mask (min left.length right.length) =
        right.address &&& mask (min left.length right.length) := by
  -- Both directions are about which prefix is the shorter one.
  have oneWay : ∀ short long : Subnet, short.length ≤ long.length →
      (¬ Disjoint short.addresses long.addresses ↔
        short.address &&& mask short.length = long.address &&& mask short.length) := by
    intro short long ordered
    have narrowed : ∀ address : Address, address &&& mask long.length &&& mask short.length =
        address &&& mask short.length := fun address => by
      rw [BitVec.and_assoc, mask_and_mask ordered long.bounded]
    constructor
    · intro meet
      obtain ⟨shared, inShort, inLong⟩ := Set.not_disjoint_iff.mp meet
      have cut := congrArg (fun masked => masked &&& mask short.length) inLong
      simp only [net, narrowed] at cut
      exact inShort.symm.trans cut
    · intro agree
      exact Set.not_disjoint_iff.mpr ⟨long.address, agree.symm, rfl⟩
  rcases Nat.le_total left.length right.length with ordered | ordered
  · rw [Nat.min_eq_left ordered]
    exact oneWay left right ordered
  · rw [Nat.min_eq_right ordered, disjoint_comm, oneWay right left ordered]
    exact eq_comm

end Subnet

/-! ### Reading them -/

def parseOctet (part : Text) : Option Nat :=
  if part.isEmpty || decide (part.length > 3) || !part.all Char.isDigit then none
  else
    let number := Text.digitsValue part
    if number > 255 then none else some number

/-- `a.b.c.d`, each part one to three digits; a leading zero is taken. -/
def parseIpv4 (text : Text) : Option Address :=
  let parts := (Text.trim text).splitOn '.'
  if parts.length ≠ 4 then none
  else parts.foldlM (fun address part =>
    (parseOctet part).map fun number => address <<< 8 ||| BitVec.ofNat 32 number) 0#32

/-- What trims to the same is read as the same. -/
theorem parseIpv4_congr {left right : Text} (same : Text.trim left = Text.trim right) :
    parseIpv4 left = parseIpv4 right := by
  rw [parseIpv4, parseIpv4, same]

/-- `ipv4::split`. -/
def split (cidr : Text) : Option (Address × Nat) := do
  let (address, length) ← Text.splitOnce '/' (Text.trim cidr)
  if '/' ∈ length then none
  else return (← parseIpv4 address, ← Text.parseUnsigned 255 (Text.trim length))

/-- An address and a prefix with one `/` between them are read as the two. -/
theorem split_append {address length : Text} (bare : '/' ∉ address) :
    split (address ++ '/' :: length) =
      if '/' ∈ length then none
      else (parseIpv4 address).bind fun parsed =>
        (Text.parseUnsigned 255 (Text.trim length)).map fun number => (parsed, number) := by
  have bareStart : '/' ∉ Text.trimStart address :=
    fun held => bare (Text.mem_of_mem_trimStart held)
  have slash : '/' ∈ Text.trimEnd length ↔ '/' ∈ length := by
    constructor
    · exact Text.mem_of_mem_trimEnd
    · intro held
      obtain ⟨front, back, rfl⟩ := List.append_of_mem held
      rw [Text.trimEnd_append_cons front back (by decide)]
      exact List.mem_append_right _ List.mem_cons_self
  rw [split, Text.trim_append_cons address length (by decide),
    Text.splitOnce_append _ bareStart]
  simp only [Option.bind_eq_bind, Option.bind_some, slash, Text.trim_trimEnd,
    parseIpv4_congr (Text.trim_trimStart address), Option.pure_def]
  split
  next => rfl
  next =>
      cases parseIpv4 address with
      | none => rfl
      | some parsed => cases Text.parseUnsigned 255 (Text.trim length) <;> rfl

/-- `a.b.c.d/prefix` with a host address that can be used, prefix 8 to 30. -/
def parseCidr (cidr : Text) : Option (Address × Nat) := do
  let (address, length) ← split cidr
  if ¬ (8 ≤ length ∧ length ≤ 30) then none
  else
    let m := mask length
    let net := address &&& m
    if address = net || address = net ||| ~~~m then none else return (address, length)

/-- Whether two `a.b.c.d/prefix` subnets overlap; `false` when either is not one. -/
def overlaps (left right : Text) : Bool :=
  match split left, split right with
  | some (x, leftLength), some (y, rightLength) =>
      if leftLength > 32 || rightLength > 32 then false
      else
        let m := mask (min leftLength rightLength)
        x &&& m == y &&& m
  | _, _ => false

/-- The subnet that a listed address names, when it names one. -/
def subnetOf (cidr : Text) : Option Subnet :=
  match split cidr with
  | some (address, length) =>
      if bounded : length ≤ 32 then some ⟨address, length, bounded⟩ else none
  | none => none

/-- Two texts that are read as one address with its prefix name one subnet. -/
theorem parseCidr_congr {left right : Text} (same : split left = split right) :
    parseCidr left = parseCidr right := by
  rw [parseCidr, parseCidr, same]

theorem subnetOf_congr {left right : Text} (same : split left = split right) :
    subnetOf left = subnetOf right := by
  rw [subnetOf, subnetOf, same]

theorem overlaps_congr {left right : Text} (same : split left = split right) (other : Text) :
    overlaps other left = overlaps other right := by
  rw [overlaps, overlaps, same]

/-- Overlapping is sharing an address. -/
theorem overlaps_eq_true_iff {left right : Text} :
    overlaps left right = true ↔ ∃ leftNet rightNet, subnetOf left = some leftNet ∧
      subnetOf right = some rightNet ∧ ¬ Disjoint leftNet.addresses rightNet.addresses := by
  simp only [Subnet.not_disjoint_iff]
  cases leftSplit : split left with
  | none => simp [overlaps, subnetOf, leftSplit]
  | some leftParts =>
      cases rightSplit : split right with
      | none => simp [overlaps, subnetOf, leftSplit, rightSplit]
      | some rightParts =>
          by_cases leftFits : leftParts.2 ≤ 32 <;> by_cases rightFits : rightParts.2 ≤ 32 <;>
            simp [overlaps, subnetOf, leftSplit, rightSplit, leftFits, rightFits,
              Nat.lt_of_not_le]

/-- Subnets that do not overlap share no address. -/
theorem disjoint_of_not_overlaps {left right : Text} {leftNet rightNet : Subnet}
    (apart : overlaps left right = false) (leftIs : subnetOf left = some leftNet)
    (rightIs : subnetOf right = some rightNet) :
    Disjoint leftNet.addresses rightNet.addresses := by
  by_contra meet
  have overlap := overlaps_eq_true_iff.mpr ⟨leftNet, rightNet, leftIs, rightIs, meet⟩
  rw [apart] at overlap
  cases overlap

theorem overlaps_comm (left right : Text) : overlaps left right = overlaps right left := by
  rw [Bool.eq_iff_iff, overlaps_eq_true_iff, overlaps_eq_true_iff]
  constructor
  · rintro ⟨leftNet, rightNet, leftIs, rightIs, meet⟩
    exact ⟨rightNet, leftNet, rightIs, leftIs, fun apart => meet apart.symm⟩
  · rintro ⟨rightNet, leftNet, rightIs, leftIs, meet⟩
    exact ⟨leftNet, rightNet, leftIs, rightIs, fun apart => meet apart.symm⟩

/-- An accepted address names a subnet. -/
theorem subnetOf_of_parseCidr {cidr : Text} {address : Address} {length : Nat}
    (parsed : parseCidr cidr = some (address, length)) :
    ∃ bounded, subnetOf cidr = some ⟨address, length, bounded⟩ := by
  simp only [parseCidr, Option.bind_eq_bind, Option.bind_eq_some_iff, Prod.exists] at parsed
  obtain ⟨splitAddress, splitLength, isSplit, checks⟩ := parsed
  split at checks
  next => cases checks
  next fits =>
      split at checks
      next => cases checks
      next =>
          have same := Option.some.inj checks
          obtain ⟨rfl, rfl⟩ := Prod.mk.inj same
          have bounded : splitLength ≤ 32 := by omega
          exact ⟨bounded, by simp [subnetOf, isSplit, bounded]⟩

/-! ### DHCP -/

/-- Whether `start..=end` is a range dnsmasq serves on the subnet of `address`. -/
def dhcpFits (address : Address) (length : Nat) (start finish : Option Text) : Bool :=
  let m := mask length
  let net := address &&& m
  let broadcast := net ||| ~~~m
  match start.bind parseIpv4, finish.bind parseIpv4 with
  | some first, some last =>
      decide (first ≤ last) && first &&& m == net && last &&& m == net && first != net &&
        last != broadcast && !(decide (first ≤ address) && decide (address ≤ last))
  | _, _ => false

end ServerBox.Virt
