import ServerBox.Std.Text
import Mathlib.Data.Option.Basic

/-!
# Base64

Octets written in groups of three as four symbols, the last group padded, over any alphabet
of 64 symbols; and read back, where only what `encode` writes is read: padding at the end
alone, and no bits left over. `decode_encode` is the round trip.
-/

namespace ServerBox.Std.Base64

/-- 64 symbols, none of them the padding. -/
structure Alphabet where
  symbol : Nat → Char
  value : Char → Option Nat
  value_symbol : ∀ n < 64, value (symbol n) = some n
  value_pad : value '=' = none

/-- Letters and digits, and two symbols more. -/
def symbolOf (last : Char × Char) (n : Nat) : Char :=
  if n < 26 then Char.ofNat (65 + n)
  else if n < 52 then Char.ofNat (97 + (n - 26))
  else if n < 62 then Char.ofNat (48 + (n - 52))
  else if n = 62 then last.1
  else last.2

def valueOf (last : Char × Char) (char : Char) : Option Nat :=
  if char.isUpper then some (char.toNat - 65)
  else if char.isLower then some (char.toNat - 97 + 26)
  else if char.isDigit then some (char.toNat - 48 + 52)
  else if char = last.1 then some 62
  else if char = last.2 then some 63
  else none

def standard : Alphabet where
  symbol := symbolOf ('+', '/')
  value := valueOf ('+', '/')
  value_symbol := by decide
  value_pad := by decide

def urlSafe : Alphabet where
  symbol := symbolOf ('-', '_')
  value := valueOf ('-', '_')
  value_symbol := by decide
  value_pad := by decide

def encode (alphabet : Alphabet) : List UInt8 → Text
  | [] => []
  | [a] => [alphabet.symbol (a.toNat / 4), alphabet.symbol (a.toNat % 4 * 16), '=', '=']
  | [a, b] =>
      [alphabet.symbol (a.toNat / 4), alphabet.symbol (a.toNat % 4 * 16 + b.toNat / 16),
        alphabet.symbol (b.toNat % 16 * 4), '=']
  | a :: b :: c :: rest =>
      alphabet.symbol (a.toNat / 4) :: alphabet.symbol (a.toNat % 4 * 16 + b.toNat / 16) ::
        alphabet.symbol (b.toNat % 16 * 4 + c.toNat / 64) :: alphabet.symbol (c.toNat % 64) ::
          encode alphabet rest

def decode (alphabet : Alphabet) : Text → Option (List UInt8)
  | [] => some []
  | w :: x :: y :: z :: rest => do
      let p ← alphabet.value w
      let q ← alphabet.value x
      if z = '=' ∧ rest = [] then
        if y = '=' then
          guard (q % 16 = 0)
          some [UInt8.ofNat (p * 4 + q / 16)]
        else
          let r ← alphabet.value y
          guard (r % 4 = 0)
          some [UInt8.ofNat (p * 4 + q / 16), UInt8.ofNat (q % 16 * 16 + r / 4)]
      else
        let r ← alphabet.value y
        let s ← alphabet.value z
        let octets ← decode alphabet rest
        some (UInt8.ofNat (p * 4 + q / 16) :: UInt8.ofNat (q % 16 * 16 + r / 4) ::
          UInt8.ofNat (r % 4 * 64 + s) :: octets)
  | _ => none

section

variable (alphabet : Alphabet)

theorem symbol_ne_pad {n : Nat} (small : n < 64) : alphabet.symbol n ≠ '=' := by
  intro same
  have value := alphabet.value_symbol n small
  rw [same, alphabet.value_pad] at value
  cases value

theorem ofNat_eq {n : Nat} {octet : UInt8} (same : n = octet.toNat) : UInt8.ofNat n = octet := by
  rw [same, UInt8.ofNat_toNat]

/-- What was encoded is read back. -/
theorem decode_encode (octets : List UInt8) :
    decode alphabet (encode alphabet octets) = some octets := by
  induction octets using encode.induct with
  | case1 => rfl
  | case2 a =>
      have small := a.toNat_lt
      have first := alphabet.value_symbol (a.toNat / 4) (by omega)
      have second := alphabet.value_symbol (a.toNat % 4 * 16) (by omega)
      have octet : UInt8.ofNat (a.toNat / 4 * 4 + a.toNat % 4 * 16 / 16) = a :=
        ofNat_eq (by omega)
      have left : a.toNat % 4 * 16 % 16 = 0 := by omega
      simp only [encode, decode, first, second, octet, left, and_self, if_true, guard,
        Option.bind_eq_bind, Option.bind_some, Option.pure_def]
  | case3 a b =>
      have small := a.toNat_lt
      have small' := b.toNat_lt
      have first := alphabet.value_symbol (a.toNat / 4) (by omega)
      have second := alphabet.value_symbol (a.toNat % 4 * 16 + b.toNat / 16) (by omega)
      have third := alphabet.value_symbol (b.toNat % 16 * 4) (by omega)
      have noPad := symbol_ne_pad alphabet (n := b.toNat % 16 * 4) (by omega)
      have octet : UInt8.ofNat
          (a.toNat / 4 * 4 + (a.toNat % 4 * 16 + b.toNat / 16) / 16) = a :=
        ofNat_eq (by omega)
      have other : UInt8.ofNat
          ((a.toNat % 4 * 16 + b.toNat / 16) % 16 * 16 + b.toNat % 16 * 4 / 4) = b :=
        ofNat_eq (by omega)
      have left : b.toNat % 16 * 4 % 4 = 0 := by omega
      simp only [encode, decode, first, second, third, noPad, octet, other, left, and_self,
        if_true, if_false, guard, Option.bind_eq_bind, Option.bind_some, Option.pure_def]
  | case4 a b c rest inductionHypothesis =>
      have small := a.toNat_lt
      have small' := b.toNat_lt
      have small'' := c.toNat_lt
      have first := alphabet.value_symbol (a.toNat / 4) (by omega)
      have second := alphabet.value_symbol (a.toNat % 4 * 16 + b.toNat / 16) (by omega)
      have third := alphabet.value_symbol (b.toNat % 16 * 4 + c.toNat / 64) (by omega)
      have fourth := alphabet.value_symbol (c.toNat % 64) (by omega)
      have noPad := symbol_ne_pad alphabet (n := c.toNat % 64) (by omega)
      have octet : UInt8.ofNat
          (a.toNat / 4 * 4 + (a.toNat % 4 * 16 + b.toNat / 16) / 16) = a :=
        ofNat_eq (by omega)
      have other : UInt8.ofNat ((a.toNat % 4 * 16 + b.toNat / 16) % 16 * 16 +
          (b.toNat % 16 * 4 + c.toNat / 64) / 4) = b :=
        ofNat_eq (by omega)
      have last : UInt8.ofNat ((b.toNat % 16 * 4 + c.toNat / 64) % 4 * 64 + c.toNat % 64) = c :=
        ofNat_eq (by omega)
      simp only [encode, decode, first, second, third, fourth, noPad, octet, other, last,
        false_and, if_false, Option.bind_eq_bind, Option.bind_some, inductionHypothesis]

/-- How many symbols are written, without the padding. -/
theorem length_unpadded (octets : List UInt8) :
    ((encode alphabet octets).filter (· ≠ '=')).length = (4 * octets.length + 2) / 3 := by
  have kept (n : Nat) (small : n < 64) (rest : Text) :
      (alphabet.symbol n :: rest).filter (· ≠ '=') = alphabet.symbol n :: rest.filter (· ≠ '=') :=
    List.filter_cons_of_pos (decide_eq_true (symbol_ne_pad alphabet small))
  induction octets using encode.induct with
  | case1 => rfl
  | case2 a =>
      have small := a.toNat_lt
      simp (disch := omega) only [encode, kept, List.length_cons, List.length_nil]
      rfl
  | case3 a b =>
      have small := a.toNat_lt
      have small' := b.toNat_lt
      simp (disch := omega) only [encode, kept, List.length_cons, List.length_nil]
      rfl
  | case4 a b c rest inductionHypothesis =>
      have small := a.toNat_lt
      have small' := b.toNat_lt
      have small'' := c.toNat_lt
      simp (disch := omega) only [encode, kept, List.length_cons, inductionHypothesis]
      omega

/-- A character that is neither a symbol nor the padding. -/
def Foreign (char : Char) : Prop := alphabet.value char = none ∧ char ≠ '='

variable {alphabet} {char : Char}

theorem Foreign.ne_symbol (foreign : Foreign alphabet char) {n : Nat} (small : n < 64) :
    char ≠ alphabet.symbol n := by
  rintro rfl
  have value := alphabet.value_symbol n small
  rw [foreign.1] at value
  cases value

theorem Foreign.not_mem_encode (foreign : Foreign alphabet char) (octets : List UInt8) :
    char ∉ encode alphabet octets := by
  induction octets using encode.induct with
  | case1 => exact List.not_mem_nil
  | case2 a =>
      have small := a.toNat_lt
      simp only [encode, List.mem_cons, List.not_mem_nil, or_false, not_or]
      exact ⟨foreign.ne_symbol (by omega), foreign.ne_symbol (by omega), foreign.2, foreign.2⟩
  | case3 a b =>
      have small := a.toNat_lt
      have small' := b.toNat_lt
      simp only [encode, List.mem_cons, List.not_mem_nil, or_false, not_or]
      exact ⟨foreign.ne_symbol (by omega), foreign.ne_symbol (by omega),
        foreign.ne_symbol (by omega), foreign.2⟩
  | case4 a b c rest inductionHypothesis =>
      have small := a.toNat_lt
      have small' := b.toNat_lt
      have small'' := c.toNat_lt
      simp only [encode, List.mem_cons, not_or]
      exact ⟨foreign.ne_symbol (by omega), foreign.ne_symbol (by omega),
        foreign.ne_symbol (by omega), foreign.ne_symbol (by omega), inductionHypothesis⟩

/-- A text that reads back holds symbols and padding only. -/
theorem Foreign.not_mem_of_decode (foreign : Foreign alphabet char) {text : Text}
    {octets : List UInt8} (decoded : decode alphabet text = some octets) : char ∉ text := by
  have ne_of_value : ∀ {other n}, alphabet.value other = some n → char ≠ other := by
    rintro other n value rfl
    rw [foreign.1] at value
    cases value
  induction text using decode.induct generalizing octets with
  | case1 => exact List.not_mem_nil
  | case2 w x y z rest inductionHypothesis =>
      rw [decode] at decoded
      obtain ⟨p, isP, later⟩ := Option.bind_eq_some_iff.mp decoded
      obtain ⟨q, isQ, leads⟩ := Option.bind_eq_some_iff.mp later
      simp only [List.mem_cons, not_or]
      refine ⟨ne_of_value isP, ne_of_value isQ, ?_⟩
      by_cases padded : z = '=' ∧ rest = []
      · rw [if_pos padded] at leads
        obtain ⟨rfl, rfl⟩ := padded
        by_cases isPad : y = '='
        · rw [isPad]
          exact ⟨foreign.2, foreign.2, List.not_mem_nil⟩
        · rw [if_neg isPad] at leads
          obtain ⟨r, isR, -⟩ := Option.bind_eq_some_iff.mp leads
          exact ⟨ne_of_value isR, foreign.2, List.not_mem_nil⟩
      · rw [if_neg padded] at leads
        obtain ⟨r, isR, others⟩ := Option.bind_eq_some_iff.mp leads
        obtain ⟨s, isS, tail⟩ := Option.bind_eq_some_iff.mp others
        obtain ⟨more, isRest, -⟩ := Option.bind_eq_some_iff.mp tail
        exact ⟨ne_of_value isR, ne_of_value isS, inductionHypothesis isRest⟩
  | case3 text noFour =>
      cases text with
      | nil => exact List.not_mem_nil
      | cons w rest => simp [decode] at decoded

end

end ServerBox.Std.Base64
