import ServerBox.Std.Text
import Mathlib.Algebra.Order.Ring.Nat

/-!
# IP addresses

Rust's `IpAddr` and its `FromStr`: a dotted IPv4 address, or an IPv6 one with at most one
`::` and an IPv4 address at its end if it has one. An address is its bits, the first octet's
highest first.
-/

namespace ServerBox.Std

inductive IpAddr where
  | v4 (bits : BitVec 32)
  | v6 (bits : BitVec 128)
deriving DecidableEq, Repr

namespace IpAddr

def isIpv6 : IpAddr → Bool
  | v4 _ => false
  | v6 _ => true

/-! ### Reading -/

/-- What is left to read, after what was read. -/
abbrev Reader (α : Type) := Text → Option (α × Text)

/-- `char::to_digit`, up to hexadecimal. -/
def toDigit (radix : Nat) (char : Char) : Option Nat :=
  let value :=
    if char.isDigit then some (char.toNat - '0'.toNat)
    else if 'a' ≤ char ∧ char ≤ 'f' then some (char.toNat - 'a'.toNat + 10)
    else if 'A' ≤ char ∧ char ≤ 'F' then some (char.toNat - 'A'.toNat + 10)
    else none
  value.filter (· < radix)

/-- `Parser::read_number`: every digit there is, if they are at most `maxDigits`. -/
def readNumber (radix maxDigits bound : Nat) (allowZeroPrefix : Bool) : Reader Nat := fun text =>
  let digits := text.takeWhile fun char => (toDigit radix char).isSome
  let value := digits.foldl (fun value char => value * radix + (toDigit radix char).getD 0) 0
  if digits.isEmpty || decide (digits.length > maxDigits) ||
      (!allowZeroPrefix && digits.head? == some '0' && decide (digits.length > 1)) ||
      decide (value > bound) then none
  else some (value, text.drop digits.length)

/-- `Parser::read_separator`: the separator first, unless it is the first of its kind. -/
def readSeparator {α : Type} (separator : Char) (index : Nat) (inner : Reader α) : Reader α :=
  fun text =>
    if index = 0 then inner text
    else match text with
      | char :: rest => if char = separator then inner rest else none
      | [] => none

/-- The octets of an IPv4 address from the `index`th on. -/
def readOctets (index : Nat) : Nat → Reader (List Nat)
  | 0, text => some ([], text)
  | count + 1, text => do
      let (octet, rest) ← readSeparator '.' index (readNumber 10 3 255 false) text
      let (octets, rest) ← readOctets (index + 1) count rest
      return (octet :: octets, rest)

def bitsOf (width step : Nat) (parts : List Nat) : BitVec width :=
  BitVec.ofNat width (parts.foldl (fun value part => value * 2 ^ step + part) 0)

def readIpv4 : Reader (BitVec 32) := fun text =>
  (readOctets 0 4 text).map fun (octets, rest) => (bitsOf 32 8 octets, rest)

/-- `read_groups`: up to `limit` groups of 16 bits, the last two maybe as an IPv4 address, and
whether they were. -/
def readGroups (index : Nat) : Nat → Text → List Nat × Bool × Text
  | 0, text => ([], false, text)
  | limit + 1, text =>
      let ipv4 := if limit = 0 then none else readSeparator ':' index readIpv4 text
      match ipv4 with
      | some (bits, rest) => ([bits.toNat / 2 ^ 16, bits.toNat % 2 ^ 16], true, rest)
      | none =>
          match readSeparator ':' index (readNumber 16 4 0xffff true) text with
          | none => ([], false, text)
          | some (group, rest) =>
              let (groups, hasIpv4, rest) := readGroups (index + 1) limit rest
              (group :: groups, hasIpv4, rest)

def readIpv6 : Reader (BitVec 128) := fun text =>
  let (head, headIpv4, rest) := readGroups 0 8 text
  if head.length = 8 then some (bitsOf 128 16 head, rest)
  else if headIpv4 then none
  else match rest with
    | ':' :: ':' :: rest =>
        let (tail, _, rest) := readGroups 0 (8 - (head.length + 1)) rest
        let zeros := List.replicate (8 - head.length - tail.length) 0
        some (bitsOf 128 16 (head ++ zeros ++ tail), rest)
    | _ => none

/-- `IpAddr::from_str`. -/
def parse (text : Text) : Option IpAddr :=
  let address := ((readIpv4 text).map fun (bits, rest) => (v4 bits, rest)).or
    ((readIpv6 text).map fun (bits, rest) => (v6 bits, rest))
  match address with
  | some (address, []) => some address
  | _ => none

example : parse "10.0.0.1".toList = some (v4 0x0a000001#32) ∧
    parse "2001:db8::1".toList = some (v6 0x20010db8000000000000000000000001#128) ∧
    parse "::ffff:1.2.3.4".toList = some (v6 0xffff01020304#128) ∧
    parse "10.0.0.01".toList = none := by decide

/-! ### Networks -/

/-- Whether the first `length` bits are the same. -/
def agree {width : Nat} (length : Nat) (left right : BitVec width) : Bool :=
  (List.range length).all fun bit => left.getMsbD bit == right.getMsbD bit

end IpAddr

end ServerBox.Std
