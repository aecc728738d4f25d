import ServerBox.Terminal.Tmux.OutputNormalizerSteps

/-!
# The sequences of a stream

A stream as its plain octets and its sequences, of any length: CSI sequences, escapes, string
controls, and those begun and given up at an octet that cannot stand in them. The body of a tmux
passthrough is read behind it, as the normalizer feeds it.
-/

namespace ServerBox.Terminal.Tmux.TmuxOutputNormalizer

/-- The octets that end an escape with intermediates. -/
def endsIntermediate (byte : UInt8) : Bool := 0x30 ≤ byte && byte ≤ 0x7e

/-- What a stream is made of. -/
inductive Token where
  | plain (byte : UInt8)
  | broken (held : List UInt8)
  | csi (middle : List UInt8) (final : UInt8)
  | escape (intermediates : List UInt8) (final : UInt8)
  | string (kind : ParserState) (body : List UInt8) (bell : Bool)
deriving DecidableEq

namespace Token

/-- The octets before the one that ends a token; nothing ends one given up. -/
def front : Token → List UInt8
  | plain _ => []
  | broken held => held
  | csi middle _ => 0x1b :: 0x5b :: middle
  | escape intermediates _ => 0x1b :: intermediates
  | string kind body bell => introducerFor kind ++ body ++ if bell then [] else [0x1b]

def last : Token → Option UInt8
  | plain byte => some byte
  | broken _ => none
  | csi _ final => some final
  | escape _ final => some final
  | string _ _ bell => some (if bell then 0x07 else 0x5c)

def octets (token : Token) : List UInt8 := token.front ++ token.last.toList

/-- What is read behind a token before the octets that follow it: the body of a passthrough, when
the normalizer can hold it. -/
def again : Token → List UInt8
  | string .dcs body _ =>
      if body.length ≤ maxPayloadBytes ∧ passthroughPrefix.isPrefixOf body then
        undoubleEscapes (body.drop passthroughPrefix.length)
      else []
  | _ => []

/-- A plain octet, or a sequence with the octet that ends it. -/
inductive Whole : Token → Prop where
  | plain {byte : UInt8} : byte ≠ 0x1b → Whole (plain byte)
  | csi {middle : List UInt8} {final : UInt8} :
      (∀ byte ∈ middle, isParameter byte || isIntermediate byte) → isFinal final →
      Whole (csi middle final)
  | pair {final : UInt8} : final ≠ 0x1b → final ≠ 0x5b → stringIntroducer final = none →
      isIntermediate final = false → Whole (escape [] final)
  | escape {intermediates : List UInt8} {final : UInt8} : intermediates ≠ [] →
      (∀ byte ∈ intermediates, isIntermediate byte) → endsIntermediate final →
      Whole (escape intermediates final)
  | string {kind : ParserState} {body : List UInt8} {bell : Bool} : readsString kind →
      Body kind body → (bell = true → kind ≠ .dcs) → Whole (string kind body bell)

end Token

/-- The octets of a sequence begun, and an octet that cannot stand in it. -/
inductive GivenUp : List UInt8 → UInt8 → Prop where
  | escape : GivenUp [0x1b] 0x1b
  | intermediate {middle : List UInt8} {byte : UInt8} : middle ≠ [] →
      (∀ octet ∈ middle, isIntermediate octet) → isIntermediate byte = false →
      endsIntermediate byte = false → GivenUp (0x1b :: middle) byte
  | csi {middle : List UInt8} {byte : UInt8} :
      (∀ octet ∈ middle, isParameter octet || isIntermediate octet) →
      (isParameter byte || isIntermediate byte) = false → isFinal byte = false →
      GivenUp (0x1b :: 0x5b :: middle) byte

/-- The octets of a sequence that the stream ends in. -/
inductive Begun : List UInt8 → Prop where
  | nothing : Begun []
  | escape {middle : List UInt8} : (∀ byte ∈ middle, isIntermediate byte) → Begun (0x1b :: middle)
  | csi {middle : List UInt8} : (∀ byte ∈ middle, isParameter byte || isIntermediate byte) →
      Begun (0x1b :: 0x5b :: middle)
  | string {kind : ParserState} {body : List UInt8} (waiting : Bool) : readsString kind →
      Body kind body → Begun (introducerFor kind ++ body ++ if waiting then [0x1b] else [])

/-- A stream, the tokens it is made of, and the sequence it ends in. -/
inductive Reads : List UInt8 → List Token → List UInt8 → Prop where
  | begun {tail : List UInt8} : Begun tail → Reads tail [] tail
  | whole {token : Token} {rest tail : List UInt8} {tokens : List Token} : token.Whole →
      Reads (token.again ++ rest) tokens tail → Reads (token.octets ++ rest) (token :: tokens) tail
  | broken {held rest tail : List UInt8} {byte : UInt8} {tokens : List Token} :
      GivenUp held byte → Reads (byte :: rest) tokens tail →
      Reads (held ++ byte :: rest) (.broken held :: tokens) tail

/-! ### Every stream is read -/

/-- The octets of a kind that a text begins with, and the one of another kind behind them. -/
theorem exists_split (kind : UInt8 → Bool) (text : List UInt8) :
    ∃ middle, (∀ byte ∈ middle, kind byte) ∧
      (text = middle ∨ ∃ byte rest, text = middle ++ byte :: rest ∧ kind byte = false) := by
  refine ⟨text.takeWhile kind, fun byte => List.mem_takeWhile_imp, ?_⟩
  cases left : text.dropWhile kind with
  | nil =>
      have same := List.takeWhile_append_dropWhile (p := kind) (l := text)
      rw [left, List.append_nil] at same
      exact .inl same.symm
  | cons byte rest =>
      refine .inr ⟨byte, rest, ?_, ?_⟩
      · rw [← left, List.takeWhile_append_dropWhile]
      · have stops := List.head?_dropWhile_not kind text
        simpa only [left, List.head?_cons] using stops

/-- A string control ends, or the stream ends in it. -/
theorem exists_body {kind : ParserState} {done : List UInt8} (isBody : Body kind done)
    (text : List UInt8) :
    (∃ body, ∃ waiting : Bool, Body kind body ∧
        done ++ text = body ++ if waiting then [0x1b] else []) ∨
      ∃ body bell rest, Body kind body ∧ (bell = true → kind ≠ .dcs) ∧
        done ++ text = body ++ terminator bell ++ rest := by
  match text with
  | [] => exact .inl ⟨done, false, isBody, rfl⟩
  | [byte] =>
      by_cases isEscape : byte = 0x1b
      · exact .inl ⟨done, true, isBody, by rw [isEscape, if_pos rfl]⟩
      · by_cases bell : byte = 0x07 ∧ kind ≠ .dcs
        · exact .inr ⟨done, true, [], isBody, fun _ => bell.2, by
            rw [bell.1, List.append_nil]; rfl⟩
        · exact .inl ⟨done ++ [byte], false, .plain isBody isEscape bell, by simp⟩
  | byte :: next :: rest =>
      by_cases isEscape : byte = 0x1b
      · by_cases ends : next = 0x5c
        · refine .inr ⟨done, false, rest, isBody, (fun isTrue => nomatch isTrue), ?_⟩
          rw [isEscape, ends, List.append_assoc]
          rfl
        · have later := exists_body (.escaped isBody ends) rest
          rw [isEscape]
          rwa [List.append_assoc] at later
      · by_cases bell : byte = 0x07 ∧ kind ≠ .dcs
        · refine .inr ⟨done, true, next :: rest, isBody, fun _ => bell.2, ?_⟩
          rw [bell.1, List.append_assoc]
          rfl
        · have later := exists_body (.plain isBody isEscape bell) (next :: rest)
          rwa [List.append_assoc] at later
termination_by text.length

/-- A stream is the begin of a sequence, or begins with a token. -/
def Starts (text : List UInt8) : Prop :=
  Begun text ∨ (∃ token rest, Token.Whole token ∧ text = token.octets ++ rest) ∨
    ∃ held byte rest, GivenUp held byte ∧ text = held ++ byte :: rest

theorem starts_csi (text : List UInt8) : Starts (0x1b :: 0x5b :: text) := by
  obtain ⟨middle, inside, rfl | ⟨byte, rest, rfl, outside⟩⟩ :=
    exists_split (fun byte => isParameter byte || isIntermediate byte) text
  · exact .inl (.csi inside)
  · cases final : isFinal byte with
    | true =>
        refine .inr (.inl ⟨.csi middle byte, rest, .csi inside final, ?_⟩)
        simp [Token.octets, Token.front, Token.last]
    | false => exact .inr (.inr ⟨_, byte, rest, .csi inside outside final, rfl⟩)

theorem starts_string {second : UInt8} {kind : ParserState}
    (introduced : stringIntroducer second = some kind) (text : List UInt8) :
    Starts (0x1b :: second :: text) := by
  obtain ⟨introducer, string⟩ := stringIntroducer_some introduced
  obtain ⟨body, waiting, isBody, same⟩ | ⟨body, bell, rest, isBody, allowed, same⟩ :=
    exists_body (@Body.nil kind) text
  · have begun := Begun.string waiting string isBody
    rw [List.append_assoc, ← same, introducer] at begun
    exact .inl begun
  · refine .inr (.inl ⟨.string kind body bell, rest, .string string isBody allowed, ?_⟩)
    rw [List.nil_append] at same
    rw [same, Token.octets, Token.front, introducer]
    cases bell <;> simp [Token.last, terminator]

theorem starts_intermediate {second : UInt8} (intermediate : isIntermediate second)
    (text : List UInt8) : Starts (0x1b :: second :: text) := by
  obtain ⟨middle, inside, split⟩ := exists_split isIntermediate text
  have all : ∀ byte ∈ second :: middle, isIntermediate byte := by
    rintro byte (_ | ⟨_, member⟩)
    · exact intermediate
    · exact inside byte member
  have nonempty := List.cons_ne_nil second middle
  obtain rfl | ⟨byte, rest, rfl, outside⟩ := split
  · exact .inl (.escape all)
  · cases ends : endsIntermediate byte with
    | true =>
        refine .inr (.inl ⟨.escape (second :: middle) byte, rest, .escape nonempty all ends, ?_⟩)
        simp [Token.octets, Token.front, Token.last]
    | false =>
        exact .inr (.inr ⟨_, byte, rest, .intermediate nonempty all outside ends, rfl⟩)

theorem starts (text : List UInt8) : Starts text := by
  match text with
  | [] => exact .inl .nothing
  | first :: text =>
      by_cases isEscape : first = 0x1b
      · subst isEscape
        match text with
        | [] => exact .inl (@Begun.escape [] fun byte member => nomatch member)
        | second :: rest =>
            by_cases again : second = 0x1b
            · subst again
              exact .inr (.inr ⟨_, _, rest, .escape, rfl⟩)
            · by_cases isCsi : second = 0x5b
              · subst isCsi
                exact starts_csi rest
              · cases introduced : stringIntroducer second with
                | some kind => exact starts_string introduced rest
                | none =>
                    cases intermediate : isIntermediate second with
                    | false =>
                        exact .inr (.inl ⟨.escape [] second, rest,
                          .pair again isCsi introduced intermediate, rfl⟩)
                    | true => exact starts_intermediate intermediate rest
      · exact .inr (.inl ⟨.plain first, text, .plain isEscape, rfl⟩)

/-- A passthrough is longer than its body. -/
theorem Token.Whole.again_lt {token : Token} (whole : token.Whole) :
    token.again.length < token.octets.length := by
  cases whole with
  | @string kind body bell string isBody allowed =>
      obtain ⟨byte, introducer, -⟩ := stringIntroducer_introducerFor string
      have longer : body.length < (Token.string kind body bell).octets.length := by
        simp only [octets, front, introducer, List.length_append, List.length_cons]
        omega
      refine lt_of_le_of_lt ?_ longer
      cases kind with
      | dcs =>
          rw [again]
          split
          · have shorter := length_undoubleEscapes (body.drop passthroughPrefix.length)
            rw [List.length_drop] at shorter
            omega
          · exact Nat.zero_le _
      | _ => exact Nat.zero_le _
  | _ => simp [again, octets, front, last]

theorem exists_reads (stream : List UInt8) : ∃ tokens tail, Reads stream tokens tail := by
  obtain begun | ⟨token, rest, whole, same⟩ | ⟨held, byte, rest, givenUp, same⟩ :=
    starts stream
  · exact ⟨[], stream, .begun begun⟩
  · have shorter := whole.again_lt
    have less : (token.again ++ rest).length < stream.length := by
      rw [same, List.length_append, List.length_append]
      omega
    obtain ⟨tokens, tail, reads⟩ := exists_reads (token.again ++ rest)
    exact ⟨token :: tokens, tail, same ▸ .whole whole reads⟩
  · have less : (byte :: rest).length < stream.length := by
      rw [same, List.length_append]
      cases givenUp <;> simp
    obtain ⟨tokens, tail, reads⟩ := exists_reads (byte :: rest)
    exact ⟨.broken held :: tokens, tail, same ▸ .broken givenUp reads⟩
termination_by stream.length
decreasing_by
  · simpa only [List.length_append] using less
  · exact less

end ServerBox.Terminal.Tmux.TmuxOutputNormalizer
