import ServerBox.Virt.Ipv4
import Mathlib.Data.Nat.Digits.Defs

/-!
# The DHCP range a form offers

`format_ipv4` and `default_dhcp_range` of `src/crates/sbm_virt/src/resource/ipv4.rs`. The range
is computed in `u64`, where a sum or a difference out of range panics; `Checked` says where.
-/

namespace ServerBox.Virt

open ServerBox.Std

/-! ### Addresses written -/

/-- The octets of an address, the highest first. -/
def octets (address : Address) : List Nat :=
  [address.toNat / 2 ^ 24, address.toNat / 2 ^ 16 % 256, address.toNat / 2 ^ 8 % 256,
    address.toNat % 256]

/-- `Ipv4Addr`'s `Display`. -/
def formatIpv4 (address : Address) : Text := Text.join '.' ((octets address).map Text.decimal)

theorem octets_lt {address : Address} {octet : Nat} (held : octet ∈ octets address) :
    octet < 256 := by
  have bounded := address.isLt
  simp only [octets, List.mem_cons, List.not_mem_nil, or_false] at held
  omega

theorem parseOctet_decimal {number : Nat} (small : number < 256) :
    parseOctet (Text.decimal number) = some number := by
  have short : (Text.decimal number).length ≤ 3 :=
    Nat.toDigits_length 10 number 3 (by decide) (by omega)
  have digits : (Text.decimal number).all Char.isDigit = true :=
    List.all_eq_true.mpr fun _ => Text.isDigit_of_mem_decimal
  rw [parseOctet, Text.digitsValue_decimal]
  simp [short, digits, Text.decimal_ne_nil, Nat.le_of_lt_succ small]

/-- An octet shifted in below three others. -/
theorem toNat_shiftIn {read : Address} {number : Nat} (room : read.toNat < 2 ^ 24)
    (small : number < 256) :
    (read <<< 8 ||| BitVec.ofNat 32 number).toNat = read.toNat * 256 + number := by
  have shifted : (read <<< 8).toNat = read.toNat <<< 8 := by
    rw [BitVec.toNat_shiftLeft, Nat.mod_eq_of_lt]
    rw [Nat.shiftLeft_eq]
    omega
  rw [BitVec.toNat_or, BitVec.toNat_ofNat, Nat.mod_eq_of_lt (by omega : number < 2 ^ 32), shifted,
    ← Nat.shiftLeft_add_eq_or_of_lt (by omega : number < 2 ^ 8), Nat.shiftLeft_eq]

/-- Four octets shifted in one after another are the address they were taken from. -/
theorem foldl_octets (address : Address) :
    (octets address).foldl (fun (read : Address) number => read <<< 8 ||| BitVec.ofNat 32 number)
      0#32 = address := by
  have bounded := address.isLt
  apply BitVec.eq_of_toNat_eq
  simp only [octets, List.foldl_cons, List.foldl_nil]
  have first := @toNat_shiftIn 0#32 (address.toNat / 2 ^ 24) (by simp) (by omega)
  rw [BitVec.toNat_zero, Nat.zero_mul, Nat.zero_add] at first
  have second := @toNat_shiftIn _ (address.toNat / 2 ^ 16 % 256)
    (show _ < 2 ^ 24 by rw [first]; omega) (by omega)
  rw [first] at second
  have third := @toNat_shiftIn _ (address.toNat / 2 ^ 8 % 256)
    (show _ < 2 ^ 24 by rw [second]; omega) (by omega)
  rw [second] at third
  have fourth := @toNat_shiftIn _ (address.toNat % 256)
    (show _ < 2 ^ 24 by rw [third]; omega) (by omega)
  rw [third] at fourth
  rw [fourth]
  omega

/-- An address that was written is read back. -/
theorem parseIpv4_formatIpv4 (address : Address) :
    parseIpv4 (formatIpv4 address) = some address := by
  have digits : ∀ part ∈ (octets address).map Text.decimal, ∀ char ∈ part,
      char.isDigit = true := by
    intro part held char inPart
    obtain ⟨octet, -, rfl⟩ := List.mem_map.mp held
    exact Text.isDigit_of_mem_decimal inPart
  have solid : ∀ char ∈ formatIpv4 address, Text.isWhitespace char = false := by
    intro char held
    rcases Text.mem_join held with rfl | ⟨part, isPart, inPart⟩
    · decide
    · exact Text.not_isWhitespace_of_isDigit (digits part isPart char inPart)
  have noDot : ∀ part ∈ (octets address).map Text.decimal, '.' ∉ part :=
    fun part isPart inPart => by cases digits part isPart '.' inPart
  have parts : (formatIpv4 address).splitOn '.' = (octets address).map Text.decimal :=
    List.splitOn_intercalate '.' noDot (by simp [octets])
  have read : ∀ (numbers : List Nat) (start : Address), (∀ number ∈ numbers, number < 256) →
      (numbers.map Text.decimal).foldlM (fun (address : Address) part =>
        (parseOctet part).map fun number => address <<< 8 ||| BitVec.ofNat 32 number) start =
      some (numbers.foldl (fun (read : Address) number =>
        read <<< 8 ||| BitVec.ofNat 32 number) start) := by
    intro numbers start small
    induction numbers generalizing start with
    | nil => rfl
    | cons number numbers inductionHypothesis =>
        rw [List.map_cons, List.foldlM_cons, parseOctet_decimal (small _ List.mem_cons_self),
          Option.map_some, Option.bind_eq_bind, Option.bind_some,
          inductionHypothesis _ fun _ held => small _ (List.mem_cons_of_mem _ held),
          List.foldl_cons]
  rw [parseIpv4, Text.trim_eq_self solid, parts, if_neg (by simp [octets]),
    read _ _ fun _ => octets_lt, foldl_octets]

/-! ### The range -/

/-- A computation in `u64`: nothing where it panics. -/
abbrev Checked := Option

def add64 (left right : Nat) : Checked Nat :=
  if left + right < 2 ^ 64 then some (left + right) else none

def sub64 (left right : Nat) : Checked Nat := if right ≤ left then some (left - right) else none

def mul64 (left right : Nat) : Checked Nat :=
  if left * right < 2 ^ 64 then some (left * right) else none

/-- `Ord::clamp`, which panics on bounds out of order. -/
def clamp (value low high : Nat) : Checked Nat :=
  if low ≤ high then some (max low (min value high)) else none

/-- `as u32` of a number that it leaves as it is. -/
def asU32 (value : Nat) : Checked Address :=
  if value < 2 ^ 32 then some (BitVec.ofNat 32 value) else none

/-- What lies at a share of the subnet, in parts of 256. -/
def atShare (net size share : Nat) : Checked Nat := do
  add64 net (← clamp ((← mul64 size share) / 256) 1 (← sub64 size 2))

/-- The range from `start` to `finish` without the host's own address: the longer side of it. -/
def clearOf (address net size start finish : Nat) : Checked (Nat × Nat) := do
  if start ≤ address ∧ address ≤ finish then
    if (← sub64 address net) < size / 2 then return (← add64 address 1, finish)
    else return (start, ← sub64 address 1)
  else return (start, finish)

/-- The DHCP range a form offers for `cidr`: .100 to .200 of a /24, and the same share of any
other size, clear of the host's own address. -/
def defaultDhcpRange (cidr : Text) : Checked (Option (Text × Text)) :=
  match parseCidr cidr with
  | none => some none
  | some (address, length) => do
      let m := mask length
      let net := (address &&& m).toNat
      let size ← add64 (~~~m).toNat 1
      let (start, finish) ← clearOf address.toNat net size (← atShare net size 100)
        (← atShare net size 200)
      if start > finish then return none
      else return some (formatIpv4 (← asU32 start), formatIpv4 (← asU32 finish))

example : defaultDhcpRange "10.0.0.150/24".toList =
    some (some ("10.0.0.100".toList, "10.0.0.149".toList)) := by decide +kernel

/-! ### It fits -/

theorem toNat_not_mask {length : Nat} (bounded : length ≤ 32) :
    (~~~mask length).toNat = 2 ^ (32 - length) - 1 := by
  revert length
  decide

theorem toNat_and_mask {length : Nat} (bounded : length ≤ 32) (address : Address) :
    (address &&& mask length).toNat =
      address.toNat / 2 ^ (32 - length) * 2 ^ (32 - length) := by
  have cut : address &&& mask length = address >>> (32 - length) <<< (32 - length) := by
    apply BitVec.eq_of_getLsbD_eq
    intro index inside
    rw [BitVec.getLsbD_and, getLsbD_mask bounded, BitVec.getLsbD_shiftLeft,
      BitVec.getLsbD_ushiftRight]
    by_cases high : 32 - length ≤ index
    · simp [inside, high]
    · simp [inside, high, Nat.lt_of_not_le high]
  have floor := Nat.div_mul_le_self address.toNat (2 ^ (32 - length))
  rw [cut, BitVec.toNat_shiftLeft, BitVec.toNat_ushiftRight, Nat.shiftRight_eq_div_pow,
    Nat.shiftLeft_eq, Nat.mod_eq_of_lt (lt_of_le_of_lt floor address.isLt)]

/-- The broadcast address is the last of the subnet. -/
theorem toNat_broadcast {length : Nat} (bounded : length ≤ 32) (address : Address) :
    (address &&& mask length ||| ~~~mask length).toNat =
      (address &&& mask length).toNat + (2 ^ (32 - length) - 1) := by
  have positive := Nat.two_pow_pos (32 - length)
  rw [BitVec.toNat_or, toNat_and_mask bounded, toNat_not_mask bounded, ← Nat.shiftLeft_eq,
    Nat.shiftLeft_add_eq_or_of_lt (by omega)]

/-- A subnet's addresses follow one another. -/
theorem and_mask_eq_of_between {length : Nat} (bounded : length ≤ 32) {address given : Address}
    (from_net : (address &&& mask length).toNat ≤ given.toNat)
    (within : given.toNat < (address &&& mask length).toNat + 2 ^ (32 - length)) :
    given &&& mask length = address &&& mask length := by
  apply BitVec.eq_of_toNat_eq
  rw [toNat_and_mask bounded] at from_net within
  rw [toNat_and_mask bounded, toNat_and_mask bounded,
    Nat.div_eq_of_lt_le from_net (by rw [Nat.add_mul, Nat.one_mul]; exact within)]

theorem add64_eq {left right : Nat} (fits : left + right < 2 ^ 64) :
    add64 left right = some (left + right) := if_pos fits

theorem sub64_eq {left right : Nat} (ordered : right ≤ left) :
    sub64 left right = some (left - right) := if_pos ordered

theorem atShare_eq {net size share : Nat} (four : 4 ≤ size) (inside : net + size ≤ 2 ^ 32)
    (small : share ≤ 256) :
    atShare net size share = some (net + max 1 (min (size * share / 256) (size - 2))) := by
  have product : size * share ≤ size * 256 := Nat.mul_le_mul_left size small
  have scaled : mul64 size share = some (size * share) := if_pos (by omega)
  have clamped : clamp (size * share / 256) 1 (size - 2) =
      some (max 1 (min (size * share / 256) (size - 2))) := if_pos (by omega)
  simp only [atShare, scaled, sub64_eq (show 2 ≤ size by omega), clamped, Option.bind_eq_bind,
    Option.bind_some]
  exact add64_eq (by omega)

/-- Every subnet that leaves two hosts has room for a range beside either. -/
theorem clearOf_fits {address net size : Nat} (four : 4 ≤ size) (even : size % 2 = 0)
    (inside : net + size ≤ 2 ^ 32) (above : net < address) (below : address + 1 < net + size) :
    ∃ start finish, clearOf address net size (net + max 1 (min (size * 100 / 256) (size - 2)))
        (net + max 1 (min (size * 200 / 256) (size - 2))) = some (start, finish) ∧
      net < start ∧ start ≤ finish ∧ finish + 1 < net + size ∧
      ¬(start ≤ address ∧ address ≤ finish) := by
  simp only [clearOf, sub64_eq (Nat.le_of_lt above), add64_eq (show address + 1 < 2 ^ 64 by omega),
    sub64_eq (show 1 ≤ address by omega), Option.bind_eq_bind, Option.bind_some, Option.pure_def]
  split
  next crossed =>
      split
      next lower => exact ⟨_, _, rfl, by omega, by omega, by omega, by omega⟩
      next upper => exact ⟨_, _, rfl, by omega, by omega, by omega, by omega⟩
  next clear => exact ⟨_, _, rfl, by omega, by omega, by omega, clear⟩

/-- What an accepted address is in its subnet: neither the first address nor the last. -/
theorem of_parseCidr {cidr : Text} {address : Address} {length : Nat}
    (parsed : parseCidr cidr = some (address, length)) :
    8 ≤ length ∧ length ≤ 30 ∧ address ≠ address &&& mask length ∧
      address ≠ address &&& mask length ||| ~~~mask length := by
  simp only [parseCidr, Option.bind_eq_bind, Option.bind_eq_some_iff, Prod.exists] at parsed
  obtain ⟨splitAddress, splitLength, -, checks⟩ := parsed
  split at checks
  next => cases checks
  next fits =>
      split at checks
      next => cases checks
      next usable =>
          obtain ⟨rfl, rfl⟩ := Prod.mk.inj (Option.some.inj checks)
          simp only [Bool.or_eq_true, decide_eq_true_eq, not_or] at usable
          exact ⟨by omega, by omega, usable.1, usable.2⟩

/-- Every address that is accepted is offered a range, computed without an overflow, that is
read back as it was computed and fits: it lies in the subnet and holds neither the network's own
address nor the broadcast nor the host's. -/
theorem default_dhcp_range_fits {cidr : Text} {address : Address} {length : Nat}
    (accepted : parseCidr cidr = some (address, length)) :
    ∃ first last : Address,
      defaultDhcpRange cidr = some (some (formatIpv4 first, formatIpv4 last)) ∧
      dhcpFits address length (some (formatIpv4 first)) (some (formatIpv4 last)) = true ∧
      first ≤ last ∧
      (∀ given, first ≤ given → given ≤ last →
        given &&& mask length = address &&& mask length ∧ given ≠ address &&& mask length ∧
          given ≠ address &&& mask length ||| ~~~mask length ∧ given ≠ address) ∧
      ∀ given : Address, parseIpv4 (formatIpv4 given) = some given := by
  obtain ⟨least, most, notNet, notBroadcast⟩ := of_parseCidr accepted
  have bounded : length ≤ 32 := by omega
  have broadcastIs := toNat_broadcast bounded address
  obtain ⟨half, size⟩ : ∃ half, 2 ^ (32 - length) = 4 * half :=
    ⟨2 ^ (30 - length), by rw [show 32 - length = 2 + (30 - length) by omega, pow_add]; rfl⟩
  have positive : 0 < half := by have := Nat.two_pow_pos (32 - length); omega
  have floor : (address &&& mask length).toNat ≤ address.toNat := by
    rw [toNat_and_mask bounded]
    exact Nat.div_mul_le_self _ _
  have inside := (address &&& mask length ||| ~~~mask length).isLt
  have upTo : address.toNat < (address &&& mask length).toNat + 2 ^ (32 - length) := by
    rw [toNat_and_mask bounded]
    exact Nat.lt_div_mul_add (Nat.two_pow_pos _)
  have above : (address &&& mask length).toNat ≠ address.toNat :=
    fun same => notNet (BitVec.eq_of_toNat_eq same.symm)
  have below : (address &&& mask length ||| ~~~mask length).toNat ≠ address.toNat :=
    fun same => notBroadcast (BitVec.eq_of_toNat_eq same.symm)
  have sizeIs : add64 (~~~mask length).toNat 1 = some (2 ^ (32 - length)) := by
    rw [toNat_not_mask bounded, add64_eq (by omega), Nat.sub_add_cancel (by omega)]
  obtain ⟨start, finish, clear, afterNet, ordered, beforeEnd, hostOut⟩ :=
    @clearOf_fits address.toNat (address &&& mask length).toNat (2 ^ (32 - length)) (by omega) (by omega) (by omega) (by omega) (by omega)
  have startNat : (BitVec.ofNat 32 start).toNat = start := Nat.mod_eq_of_lt (by omega)
  have finishNat : (BitVec.ofNat 32 finish).toNat = finish := Nat.mod_eq_of_lt (by omega)
  have between : ∀ given : Address, start ≤ given.toNat → given.toNat ≤ finish →
      given &&& mask length = address &&& mask length ∧ given ≠ address &&& mask length ∧
        given ≠ address &&& mask length ||| ~~~mask length ∧ given ≠ address := by
    intro given from_start to_finish
    refine ⟨and_mask_eq_of_between bounded (by omega) (by omega), ?_, ?_, ?_⟩ <;>
    · intro same
      have sameNat := congrArg BitVec.toNat same
      omega
  obtain ⟨startIn, startNotNet, -, -⟩ :=
    between (BitVec.ofNat 32 start) (by omega) (by omega)
  obtain ⟨finishIn, -, finishNotBroadcast, -⟩ :=
    between (BitVec.ofNat 32 finish) (by omega) (by omega)
  refine ⟨BitVec.ofNat 32 start, BitVec.ofNat 32 finish, ?_, ?_, ?_, ?_, parseIpv4_formatIpv4⟩
  · have narrow : ∀ {value : Nat}, value < 2 ^ 32 →
        asU32 value = some (BitVec.ofNat 32 value) := fun fits => if_pos fits
    simp only [defaultDhcpRange, accepted, sizeIs, Option.bind_eq_bind, Option.bind_some]
    rw [atShare_eq (by omega) (by omega) (by decide), Option.bind_some,
      atShare_eq (by omega) (by omega) (by decide), Option.bind_some, clear, Option.bind_some,
      if_neg (by omega), narrow (by omega), Option.bind_some, narrow (by omega)]
    rfl
  · simp only [dhcpFits, Option.bind_some, parseIpv4_formatIpv4, startIn, finishIn,
      Bool.and_eq_true, Bool.not_eq_true', Bool.and_eq_false_iff, decide_eq_true_eq,
      decide_eq_false_iff_not, BitVec.le_def, startNat, finishNat, beq_self_eq_true, bne_iff_ne,
      and_true]
    exact ⟨⟨⟨ordered, startNotNet⟩, finishNotBroadcast⟩, not_and_or.mp hostOut⟩
  · rw [BitVec.le_def, startNat, finishNat]
    exact ordered
  · intro given from_start to_finish
    rw [BitVec.le_def, startNat] at from_start
    rw [BitVec.le_def, finishNat] at to_finish
    exact between given from_start to_finish

theorem default_dhcp_range_fits_smallest :
    parseCidr "10.0.0.2/30".toList = some (0x0a000002#32, 30) ∧
      ∃ first last : Address,
        defaultDhcpRange "10.0.0.2/30".toList = some (some (formatIpv4 first, formatIpv4 last)) ∧
        dhcpFits 0x0a000002#32 30 (some (formatIpv4 first)) (some (formatIpv4 last)) = true := by
  have accepted : parseCidr "10.0.0.2/30".toList = some (0x0a000002#32, 30) := by decide
  obtain ⟨first, last, offered, fits, -⟩ := default_dhcp_range_fits accepted
  exact ⟨accepted, first, last, offered, fits⟩

end ServerBox.Virt
