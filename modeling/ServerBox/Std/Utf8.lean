import Mathlib.Data.List.Basic
import Mathlib.Tactic.Linarith

/-!
# A decoder of UTF-8 that never fails

The decoder of the WHATWG encoding standard: octets are read one at a time, a
sequence cut short by an octet which cannot continue it becomes one U+FFFD, and
that octet is read again as the start of the next. `decodeFrom_encode` is the
round trip: what `String.utf8EncodeChar` wrote is read back, from any point
between two scalars.
-/

namespace ServerBox.Std.Utf8

/-- U+FFFD, what a malformed sequence is read as. -/
def replacement : Char := '\uFFFD'

/-- A scalar of which the first octets are read. `lower` and `upper` bound the
next octet only; every later one is a plain continuation. -/
structure Pending where
  needed : Nat
  lower : Nat
  upper : Nat
  value : Nat
deriving DecidableEq, Repr

/-- What an octet means between two scalars. -/
inductive Lead where
  | scalar (c : Char)
  | pending (p : Pending)
  | malformed
deriving DecidableEq, Repr

/-- The first octet of a scalar. -/
def lead (octet : UInt8) : Lead :=
  let b := octet.toNat
  if b ≤ 0x7f then .scalar (Char.ofNat b)
  else if b < 0xc2 then .malformed
  else if b ≤ 0xdf then .pending ⟨1, 0x80, 0xbf, b - 0xc0⟩
  else if b = 0xe0 then .pending ⟨2, 0xa0, 0xbf, 0⟩
  else if b = 0xed then .pending ⟨2, 0x80, 0x9f, 0xd⟩
  else if b ≤ 0xef then .pending ⟨2, 0x80, 0xbf, b - 0xe0⟩
  else if b = 0xf0 then .pending ⟨3, 0x90, 0xbf, 0⟩
  else if b = 0xf4 then .pending ⟨3, 0x80, 0x8f, 4⟩
  else if b ≤ 0xf3 then .pending ⟨3, 0x80, 0xbf, b - 0xf0⟩
  else .malformed

/-- Read the rest of the octets, inside the scalar `pending` when there is one. -/
def decodeFrom : Option Pending → List UInt8 → List Char
  | none, [] => []
  | some _, [] => [replacement]
  | none, octet :: rest =>
      match lead octet with
      | .scalar c => c :: decodeFrom none rest
      | .pending p => decodeFrom (some p) rest
      | .malformed => replacement :: decodeFrom none rest
  | some p, octet :: rest =>
      if p.lower ≤ octet.toNat ∧ octet.toNat ≤ p.upper then
        let value := p.value * 64 + (octet.toNat - 0x80)
        if p.needed = 1 then Char.ofNat value :: decodeFrom none rest
        else decodeFrom (some ⟨p.needed - 1, 0x80, 0xbf, value⟩) rest
      else
        -- The sequence ends here: this octet starts the next.
        replacement :: match lead octet with
          | .scalar c => c :: decodeFrom none rest
          | .pending p' => decodeFrom (some p') rest
          | .malformed => replacement :: decodeFrom none rest

/-- The scalars of a whole sequence of octets. -/
def decode (octets : List UInt8) : List Char := decodeFrom none octets

example : decode [0x41] = ['A'] := by
  rw [decode, decodeFrom]
  rfl

/-- The octets of a text. -/
def encode (text : List Char) : List UInt8 := text.flatMap String.utf8EncodeChar

@[simp] theorem encode_nil : encode [] = [] := rfl

@[simp] theorem encode_cons (c : Char) (text : List Char) :
    encode (c :: text) = String.utf8EncodeChar c ++ encode text := rfl

theorem encode_append (first second : List Char) :
    encode (first ++ second) = encode first ++ encode second :=
  List.flatMap_append

/-- One continuation octet which the sequence takes, with more to come. -/
theorem decodeFrom_some_more {p : Pending} {octet : UInt8} {rest : List UInt8}
    (low : p.lower ≤ octet.toNat) (high : octet.toNat ≤ p.upper) (more : p.needed ≠ 1) :
    decodeFrom (some p) (octet :: rest) =
      decodeFrom (some ⟨p.needed - 1, 0x80, 0xbf, p.value * 64 + (octet.toNat - 0x80)⟩) rest := by
  simp [decodeFrom, low, high, more]

/-- The last continuation octet of a sequence. -/
theorem decodeFrom_some_last {p : Pending} {octet : UInt8} {rest : List UInt8}
    (low : p.lower ≤ octet.toNat) (high : octet.toNat ≤ p.upper) (last : p.needed = 1) :
    decodeFrom (some p) (octet :: rest) =
      Char.ofNat (p.value * 64 + (octet.toNat - 0x80)) :: decodeFrom none rest := by
  simp [decodeFrom, low, high, last]

/-- An octet that opens a sequence of several. -/
theorem decodeFrom_none_pending {octet : UInt8} {rest : List UInt8} {p : Pending}
    (opens : lead octet = .pending p) :
    decodeFrom none (octet :: rest) = decodeFrom (some p) rest := by
  simp [decodeFrom, opens]

/-- An octet that is a scalar of its own. -/
theorem decodeFrom_none_scalar {octet : UInt8} {rest : List UInt8} {c : Char}
    (opens : lead octet = .scalar c) :
    decodeFrom none (octet :: rest) = c :: decodeFrom none rest := by
  simp [decodeFrom, opens]

/-- A scalar value is no surrogate and at most U+10FFFF. -/
theorem toNat_valid (c : Char) : c.toNat < 0xd800 ∨ (0xdfff < c.toNat ∧ c.toNat < 0x110000) := by
  have valid := c.valid
  simp only [UInt32.isValidChar, Nat.isValidChar] at valid
  simp only [Char.toNat]
  omega

private theorem toNat_ofNat {n : Nat} (small : n < 256) : (UInt8.ofNat n).toNat = n :=
  UInt8.toNat_ofNat_of_lt' small

/-- The first octet of a sequence of two. -/
theorem lead_two {octet : UInt8} (low : 0xc2 ≤ octet.toNat) (high : octet.toNat ≤ 0xdf) :
    lead octet = .pending ⟨1, 0x80, 0xbf, octet.toNat - 0xc0⟩ := by
  unfold lead
  rw [if_neg (by omega), if_neg (by omega), if_pos high]

/-- The first octet of a sequence of three: after 0xe0 the next is no overlong
form, and after 0xed it is no surrogate. -/
theorem lead_three {octet : UInt8} (low : 0xe0 ≤ octet.toNat) (high : octet.toNat ≤ 0xef) :
    lead octet = .pending ⟨2, if octet.toNat = 0xe0 then 0xa0 else 0x80,
      if octet.toNat = 0xed then 0x9f else 0xbf, octet.toNat - 0xe0⟩ := by
  unfold lead
  rw [if_neg (by omega), if_neg (by omega), if_neg (by omega)]
  by_cases overlong : octet.toNat = 0xe0
  · simp [overlong]
  · by_cases surrogate : octet.toNat = 0xed
    · simp [surrogate]
    · simp [overlong, surrogate, high]

/-- The first octet of a sequence of four: after 0xf0 the next is no overlong
form, and after 0xf4 the scalar is at most U+10FFFF. -/
theorem lead_four {octet : UInt8} (low : 0xf0 ≤ octet.toNat) (high : octet.toNat ≤ 0xf4) :
    lead octet = .pending ⟨3, if octet.toNat = 0xf0 then 0x90 else 0x80,
      if octet.toNat = 0xf4 then 0x8f else 0xbf, octet.toNat - 0xf0⟩ := by
  unfold lead
  rw [if_neg (by omega), if_neg (by omega), if_neg (by omega), if_neg (by omega),
    if_neg (by omega), if_neg (by omega)]
  by_cases overlong : octet.toNat = 0xf0
  · simp [overlong]
  · by_cases last : octet.toNat = 0xf4
    · simp [last]
    · simp only [overlong, last, if_false]
      rw [if_pos (by omega)]

/-- A scalar is read back from its octets, whatever follows. -/
theorem decodeFrom_encodeChar (c : Char) (rest : List UInt8) :
    decodeFrom none (String.utf8EncodeChar c ++ rest) = c :: decodeFrom none rest := by
  have valid := toNat_valid c
  have self : Char.ofNat c.toNat = c := Char.ofNat_toNat c
  have unfolded : c.val.toNat = c.toNat := rfl
  unfold String.utf8EncodeChar
  simp only [unfolded]
  by_cases one : c.toNat ≤ 0x7f
  · have first : (UInt8.ofNat c.toNat).toNat = c.toNat := toNat_ofNat (by omega)
    have opens : lead (UInt8.ofNat c.toNat) = .scalar c := by
      simp [lead, first, one]
    simp only [one, if_true, List.cons_append, List.nil_append]
    exact decodeFrom_none_scalar opens
  · by_cases two : c.toNat ≤ 0x7ff
    · have first := toNat_ofNat (n := c.toNat / 64 % 0x20 + 0xc0) (by omega)
      have second := toNat_ofNat (n := c.toNat % 0x40 + 0x80) (by omega)
      simp only [one, two, if_true, if_false, List.cons_append, List.nil_append]
      rw [decodeFrom_none_pending (lead_two (by omega) (by omega)),
        decodeFrom_some_last (by simp only [second]; omega) (by simp only [second]; omega) rfl]
      simp only [first, second]
      rw [show (c.toNat / 64 % 0x20 + 0xc0 - 0xc0) * 64 + (c.toNat % 0x40 + 0x80 - 0x80) = c.toNat
        by omega, self]
    · by_cases three : c.toNat ≤ 0xffff
      · have first := toNat_ofNat (n := c.toNat / 4096 % 0x10 + 0xe0) (by omega)
        have second := toNat_ofNat (n := c.toNat / 64 % 0x40 + 0x80) (by omega)
        have third := toNat_ofNat (n := c.toNat % 0x40 + 0x80) (by omega)
        simp only [one, two, three, if_true, if_false, List.cons_append, List.nil_append]
        rw [decodeFrom_none_pending (lead_three (by omega) (by omega)),
          decodeFrom_some_more (by simp only [first, second]; split <;> omega)
            (by simp only [first, second]; split <;> omega) (by simp),
          decodeFrom_some_last (by simp only [third]; omega) (by simp only [third]; omega) rfl]
        simp only [first, second, third]
        rw [show ((c.toNat / 4096 % 0x10 + 0xe0 - 0xe0) * 64 +
            (c.toNat / 64 % 0x40 + 0x80 - 0x80)) * 64 + (c.toNat % 0x40 + 0x80 - 0x80) = c.toNat
          by omega, self]
      · have first := toNat_ofNat (n := c.toNat / 262144 % 0x08 + 0xf0) (by omega)
        have second := toNat_ofNat (n := c.toNat / 4096 % 0x40 + 0x80) (by omega)
        have third := toNat_ofNat (n := c.toNat / 64 % 0x40 + 0x80) (by omega)
        have fourth := toNat_ofNat (n := c.toNat % 0x40 + 0x80) (by omega)
        simp only [one, two, three, if_false, List.cons_append, List.nil_append]
        rw [decodeFrom_none_pending (lead_four (by omega) (by omega)),
          decodeFrom_some_more (by simp only [first, second]; split <;> omega)
            (by simp only [first, second]; split <;> omega) (by simp),
          decodeFrom_some_more (by simp only [third]; omega) (by simp only [third]; omega)
            (by simp),
          decodeFrom_some_last (by simp only [fourth]; omega) (by simp only [fourth]; omega) rfl]
        simp only [first, second, third, fourth]
        rw [show (((c.toNat / 262144 % 0x08 + 0xf0 - 0xf0) * 64 +
            (c.toNat / 4096 % 0x40 + 0x80 - 0x80)) * 64 +
            (c.toNat / 64 % 0x40 + 0x80 - 0x80)) * 64 + (c.toNat % 0x40 + 0x80 - 0x80) = c.toNat
          by omega, self]

/-- A text is read back from its octets, whatever follows. -/
theorem decodeFrom_encode (text : List Char) (rest : List UInt8) :
    decodeFrom none (encode text ++ rest) = text ++ decodeFrom none rest := by
  induction text with
  | nil => rfl
  | cons c text inductionHypothesis =>
      rw [encode_cons, List.append_assoc, decodeFrom_encodeChar, inductionHypothesis,
        List.cons_append]

/-- Decoding inverts encoding. -/
@[simp] theorem decode_encode (text : List Char) : decode (encode text) = text := by
  have whole := decodeFrom_encode text []
  simpa [decode, decodeFrom] using whole

/-- Different texts have different octets. -/
theorem encode_injective : Function.Injective encode := by
  intro first second equal
  rw [← decode_encode first, equal, decode_encode]

/-- Every octet of an encoded scalar is below 0x80 only when the scalar is. -/
theorem mem_encodeChar_ascii {c : Char} {octet : UInt8} (member : octet ∈ String.utf8EncodeChar c)
    (ascii : octet.toNat < 0x80) : c.toNat = octet.toNat := by
  have unfolded : c.val.toNat = c.toNat := rfl
  unfold String.utf8EncodeChar at member
  simp only [unfolded] at member
  split at member
  · rw [List.mem_singleton] at member
    rw [member, toNat_ofNat (by omega)]
  · exfalso
    have high : ∀ n, 0x80 ≤ n → n < 256 → octet = UInt8.ofNat n → False := by
      intro n low small equal
      rw [equal, toNat_ofNat small] at ascii
      omega
    split at member
    · simp only [List.mem_cons, List.not_mem_nil, or_false] at member
      rcases member with equal | equal
      · exact high _ (by omega) (by omega) equal
      · exact high _ (by omega) (by omega) equal
    · split at member
      · simp only [List.mem_cons, List.not_mem_nil, or_false] at member
        rcases member with equal | equal | equal
        all_goals exact high _ (by omega) (by omega) equal
      · simp only [List.mem_cons, List.not_mem_nil, or_false] at member
        rcases member with equal | equal | equal | equal
        all_goals exact high _ (by omega) (by omega) equal

/-- An ASCII octet is in an encoded text exactly when its scalar is in the text. -/
theorem mem_encode_ascii {text : List Char} {octet : UInt8} (ascii : octet.toNat < 0x80) :
    octet ∈ encode text ↔ Char.ofNat octet.toNat ∈ text := by
  constructor
  · intro member
    obtain ⟨c, inText, inChar⟩ := List.mem_flatMap.mp member
    rw [← mem_encodeChar_ascii inChar ascii, Char.ofNat_toNat]
    exact inText
  · intro member
    refine List.mem_flatMap.mpr ⟨_, member, ?_⟩
    have value : (Char.ofNat octet.toNat).val.toNat = octet.toNat := by
      have small : octet.toNat.isValidChar := Or.inl (by omega)
      unfold Char.ofNat
      rw [dif_pos small]
      rfl
    unfold String.utf8EncodeChar
    simp only [value]
    rw [if_pos (by omega)]
    simp

end ServerBox.Std.Utf8
