import Mathlib.Data.List.DropRight

/-!
# Operations on a Latin-1 string

A Latin-1 string and its octets are the same list, so the string operations a
byte protocol is parsed with are list operations here: the first place of a
pattern, the text between white space, and what a line is when its carriage
return is taken off.
-/

namespace ServerBox.Std.Latin1

/-- The first place at which `pattern` stands in a list. -/
def indexOf? {α : Type} [BEq α] (pattern : List α) : List α → Option Nat
  | [] => if pattern.isEmpty then some 0 else none
  | item :: rest =>
      if pattern.isPrefixOf (item :: rest) then some 0
      else (indexOf? pattern rest).map (· + 1)

/-- A single item stands first right after what does not hold it. -/
theorem indexOf?_singleton {α : Type} [BEq α] [LawfulBEq α] {item : α} {before after : List α}
    (absent : item ∉ before) :
    indexOf? [item] (before ++ item :: after) = some before.length := by
  induction before with
  | nil => simp [indexOf?]
  | cons head tail inductionHypothesis =>
      have headNe : item ≠ head := fun equal => absent (by simp [equal])
      have tailAbsent : item ∉ tail := fun member => absent (by simp [member])
      simp [indexOf?, headNe, inductionHypothesis tailAbsent]

/-- An item that is not there has no place. -/
theorem indexOf?_singleton_none {α : Type} [BEq α] [LawfulBEq α] {item : α} {text : List α}
    (absent : item ∉ text) : indexOf? [item] text = none := by
  induction text with
  | nil => simp [indexOf?]
  | cons head tail inductionHypothesis =>
      have headNe : item ≠ head := fun equal => absent (by simp [equal])
      have tailAbsent : item ∉ tail := fun member => absent (by simp [member])
      simp [indexOf?, headNe, inductionHypothesis tailAbsent]

/-- Nothing in `before` starts the pattern, whatever `before` runs into, and
the pattern stands after it: that is its first place. -/
theorem indexOf?_append {α : Type} [BEq α] {pattern before after : List α}
    (absent : ∀ skipped rest, before = skipped ++ rest → rest ≠ [] →
      pattern.isPrefixOf (rest ++ after) = false)
    (here : pattern.isPrefixOf after = true) :
    indexOf? pattern (before ++ after) = some before.length := by
  induction before with
  | nil =>
      cases after with
      | nil =>
          have empty : pattern = [] := by
            cases pattern with
            | nil => rfl
            | cons head tail => simp at here
          simp [indexOf?, empty]
      | cons head tail => simp [indexOf?, here]
  | cons head tail inductionHypothesis =>
      have headAbsent := absent [] (head :: tail) rfl (by simp)
      have later := inductionHypothesis fun skipped rest equal nonempty =>
        absent (head :: skipped) rest (by simp [equal]) nonempty
      rw [List.cons_append] at headAbsent ⊢
      simp [indexOf?, headAbsent, later]

/-- White space as `String.trim` knows it, below U+0100. -/
def isWhitespace (octet : UInt8) : Bool :=
  (0x09 ≤ octet && octet ≤ 0x0d) || octet == 0x20 || octet == 0x85 || octet == 0xa0

/-- A text without the white space at its ends. -/
def trim (text : List UInt8) : List UInt8 :=
  (text.dropWhile isWhitespace).rdropWhile isWhitespace

/-- What neither starts nor ends in white space is what `trim` leaves of it
behind one space. -/
theorem trim_space {text : List UInt8} (nonempty : text ≠ [])
    (first : isWhitespace (text.head nonempty) = false)
    (last : isWhitespace (text.getLast nonempty) = false) :
    trim (0x20 :: text) = text := by
  have front : List.dropWhile isWhitespace (0x20 :: text) = text := by
    rw [List.dropWhile_cons_of_pos (by decide)]
    cases text with
    | nil => exact absurd rfl nonempty
    | cons head tail => exact List.dropWhile_cons_of_neg (by simpa using first)
  rw [trim, front, List.rdropWhile_eq_self_iff]
  intro _
  simp [last]

end ServerBox.Std.Latin1
