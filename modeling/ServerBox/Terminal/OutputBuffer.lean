import Mathlib.Data.List.Infix
import ServerBox.Std.Utf16
import Mathlib.Algebra.Order.Ring.Nat

/-!
# What a terminal still has to show

`src/lib/data/terminal/terminal_output_buffer.dart`: output that waits to be shown, in chunks, at
most `maxBufferedChars` of it. What is too much drops the oldest.

After every calls the counters agree with the chunks and with what came and went, and well-formed
texts come out well formed. What is held is a suffix of what was received until a text longer than
the whole buffer is cut inside a surrogate pair: the cut takes one unit more than the buffer has
to lose, and the last unit that was held before stays in front of the gap.
-/

namespace ServerBox.Terminal.OutputBuffer

open ServerBox.Std ServerBox.Std.Utf16

/-! ### The buffer -/

def maxBufferedChars : Nat := 32 * 1024

structure TerminalOutputBuffer where
  chunks : List CodeUnits := []
  pendingChars : Int := 0
  droppedChars : Nat := 0

/-- `_isHighSurrogateBoundary`. -/
def isHighSurrogateBoundary (value : CodeUnits) (index : Nat) : Bool :=
  if index = 0 || value.length ≤ index then false
  else (value[index - 1]?).any isHighSurrogate

/-- `_isLowSurrogate`. -/
def isLowSurrogateAt (value : CodeUnits) (index : Nat) : Bool := (value[index]?).any isLowSurrogate

/-- `_trimLeadingToCap`: how many units it drops. -/
def trimmed (value : CodeUnits) : Nat :=
  if value.length ≤ maxBufferedChars then 0
  else
    let start := value.length - maxBufferedChars
    if isLowSurrogateAt value start then start + 1 else start

/-- The loop of `_dropOldestChars` over the chunks, with the two counters. -/
def dropOldest (pending : Int) (dropped : Nat) : Nat → List CodeUnits → TerminalOutputBuffer
  | _, [] => ⟨[], pending, dropped⟩
  | count, chunk :: chunks =>
      if count = 0 then ⟨chunk :: chunks, pending, dropped⟩
      else if chunk.length ≤ count then
        dropOldest (pending - chunk.length) (dropped + chunk.length) (count - chunk.length) chunks
      else
        let splitAt := if isHighSurrogateBoundary chunk count then count + 1 else count
        let drops := min splitAt chunk.length
        ⟨chunk.drop drops :: chunks, pending - drops, dropped + drops⟩

/-- `add`. -/
def TerminalOutputBuffer.add (buffer : TerminalOutputBuffer) (data : CodeUnits) :
    TerminalOutputBuffer :=
  if data = [] then buffer
  else
    let kept := data.drop (trimmed data)
    let dropped := buffer.droppedChars + trimmed data
    if kept = [] then { buffer with droppedChars := dropped }
    else
      let overflow := buffer.pendingChars + kept.length - maxBufferedChars
      let buffer :=
        if 0 < overflow then dropOldest buffer.pendingChars dropped overflow.toNat buffer.chunks
        else { buffer with droppedChars := dropped }
      { buffer with
        chunks := buffer.chunks ++ [kept]
        pendingChars := buffer.pendingChars + kept.length }

/-- The loop of `take`, with what it has written. -/
def takeFrom (written : CodeUnits) (pending : Int) :
    Nat → List CodeUnits → CodeUnits × List CodeUnits × Int
  | _, [] => (written, [], pending)
  | remaining, chunk :: chunks =>
      if remaining = 0 then (written, chunk :: chunks, pending)
      else if chunk.length ≤ remaining then
        takeFrom (written ++ chunk) (pending - chunk.length) (remaining - chunk.length) chunks
      else
        let splitAt := if isHighSurrogateBoundary chunk remaining then remaining - 1 else remaining
        if splitAt = 0 then (written, chunk :: chunks, pending)
        else (written ++ chunk.take splitAt, chunk.drop splitAt :: chunks, pending - splitAt)

/-- `take`. -/
def TerminalOutputBuffer.take (buffer : TerminalOutputBuffer) (maxChars : Int) :
    CodeUnits × TerminalOutputBuffer :=
  if maxChars ≤ 0 ∨ buffer.pendingChars = 0 then ([], buffer)
  else
    let (text, chunks, pending) := takeFrom [] buffer.pendingChars maxChars.toNat buffer.chunks
    (text, { buffer with chunks, pendingChars := pending })

/-! ### Its calls -/

inductive Call where
  | add (data : CodeUnits)
  | take (maxChars : Int)

/-- A buffer with what it received and what was taken from it. -/
structure History where
  buffer : TerminalOutputBuffer := {}
  received : CodeUnits := []
  taken : List CodeUnits := []

def History.call (history : History) : Call → History
  | .add data =>
      { history with buffer := history.buffer.add data, received := history.received ++ data }
  | .take maxChars =>
      let (text, buffer) := history.buffer.take maxChars
      { history with buffer, taken := history.taken ++ [text] }

def run (calls : List Call) : History := calls.foldl History.call {}

/-- What the buffer holds. -/
abbrev TerminalOutputBuffer.held (buffer : TerminalOutputBuffer) : CodeUnits :=
  buffer.chunks.flatten

/-! ### What dropping does -/

theorem isHighSurrogateBoundary_iff {value : CodeUnits} {index : Nat} :
    isHighSurrogateBoundary value index = true ↔
      0 < index ∧ index < value.length ∧ ∃ unit, value[index - 1]? = some unit ∧
        isHighSurrogate unit = true := by
  unfold isHighSurrogateBoundary
  split
  next outside =>
    simp only [Bool.or_eq_true, decide_eq_true_eq] at outside
    constructor
    · intro impossible
      cases impossible
    · omega
  next inside =>
    simp only [Bool.or_eq_true, decide_eq_true_eq, not_or] at inside
    simp only [Option.any_eq_true]
    constructor
    · exact fun high => ⟨by omega, by omega, high⟩
    · rintro ⟨-, -, high⟩
      exact high

/-- Anywhere else the unit before a cut is no high surrogate. -/
theorem not_high_of_between {value : CodeUnits} {index : Nat}
    (between : ¬ isHighSurrogateBoundary value index) (inside : index < value.length) :
    ∀ unit ∈ (value.take index).getLast?, isHighSurrogate unit = false := by
  intro unit held
  rw [List.getLast?_take] at held
  split at held
  next => cases held
  next later =>
    obtain found | ⟨outside, _⟩ := Option.or_eq_some_iff.mp held
    · rw [Bool.eq_false_iff]
      intro high
      exact between (isHighSurrogateBoundary_iff.mpr ⟨by omega, inside, unit, found, high⟩)
    · rw [List.getElem?_eq_none_iff] at outside
      omega

/-- Dropping takes whole units from the front, as many as were asked for or one more, and counts
them. -/
theorem dropOldest_spec (chunks : List CodeUnits) (pending : Int) (dropped count : Nat) :
    ∃ drops, min count chunks.flatten.length ≤ drops ∧ drops ≤ chunks.flatten.length ∧
      (dropOldest pending dropped count chunks).held = chunks.flatten.drop drops ∧
      (dropOldest pending dropped count chunks).pendingChars = pending - drops ∧
      (dropOldest pending dropped count chunks).droppedChars = dropped + drops := by
  induction chunks generalizing pending dropped count with
  | nil => exact ⟨0, by simp, by simp, rfl, by simp [dropOldest], rfl⟩
  | cons chunk chunks inductionHypothesis =>
      rw [dropOldest]
      simp only [List.flatten_cons, List.length_append]
      split
      next none => exact ⟨0, by omega, by omega, rfl, by simp, rfl⟩
      next some =>
        split
        next whole =>
          obtain ⟨drops, least, most, held, counted, lost⟩ :=
            inductionHypothesis (pending - chunk.length) (dropped + chunk.length)
              (count - chunk.length)
          refine ⟨chunk.length + drops, by omega, by omega, ?_, ?_, ?_⟩
          · rw [held, List.drop_length_add_append]
          · rw [counted]
            push_cast
            omega
          · rw [lost]
            omega
        next part =>
          refine ⟨min (if isHighSurrogateBoundary chunk count then count + 1 else count)
            chunk.length, ?_, by omega, ?_, rfl, rfl⟩
          · split <;> omega
          · rw [List.drop_append_of_le_length (by omega)]
            rfl

theorem dropOldest_wellFormed {chunks : List CodeUnits}
    (wellFormed : ∀ chunk ∈ chunks, WellFormed chunk) (pending : Int) (dropped count : Nat) :
    ∀ chunk ∈ (dropOldest pending dropped count chunks).chunks, WellFormed chunk := by
  induction chunks generalizing pending dropped count with
  | nil => exact wellFormed
  | cons chunk chunks inductionHypothesis =>
      obtain ⟨here, rest⟩ := List.forall_mem_cons.mp wellFormed
      rw [dropOldest]
      split
      next => exact wellFormed
      next some =>
        split
        next => exact inductionHypothesis rest _ _ _
        next part =>
          refine List.forall_mem_cons.mpr ⟨?_, rest⟩
          split
          next boundary =>
            -- the unit behind the high surrogate is the low one, and goes with it
            obtain ⟨_, inside, unit, found, high⟩ := isHighSurrogateBoundary_iff.mp boundary
            obtain ⟨low, next, isLow⟩ := here.low_of_high found high
            rw [show count - 1 + 1 = count by omega] at next
            rw [show min (count + 1) chunk.length = count + 1 by omega]
            refine (here.cut fun last held => ?_).2
            rw [List.getLast?_take, if_neg (by omega), Nat.add_sub_cancel, next] at held
            obtain rfl := Option.some.inj held
            exact not_high_of_low isLow
          next between =>
            rw [show min count chunk.length = count by omega]
            exact (here.cut (not_high_of_between between (by omega))).2

/-- Whoever drops all units but one keeps the last, unless that one ends a surrogate pair. -/
theorem dropOldest_all_but_one {chunks : List CodeUnits} (pending : Int) (dropped count : Nat)
    (oneMore : chunks.flatten.length = count + 1) {last : CodeUnits}
    (isLast : chunks.getLast? = some last) (filled : last ≠ []) :
    (dropOldest pending dropped count chunks).held =
      if isHighSurrogateBoundary last (last.length - 1) then [] else last.getLast?.toList := by
  have long : 0 < last.length := List.length_pos_iff.mpr filled
  have ending : last.getLast?.toList = last.drop (last.length - 1) := by
    rw [List.drop_length_sub_one filled, List.getLast?_eq_some_getLast filled]
    rfl
  induction chunks generalizing pending dropped count with
  | nil => cases isLast
  | cons chunk chunks inductionHypothesis =>
      rw [dropOldest]
      split
      next none =>
        obtain ⟨front, shape⟩ := List.getLast?_eq_some_iff.mp isLast
        rw [shape, List.flatten_append, List.flatten_singleton, List.length_append] at oneMore
        have nothing : front.flatten = [] := List.length_eq_zero_iff.mp (by omega)
        have single : last.length - 1 = 0 := by omega
        have noPair : isHighSurrogateBoundary last 0 = false := rfl
        rw [TerminalOutputBuffer.held, shape, List.flatten_append, nothing, ending, single, noPair]
        simp
      next some =>
        rw [List.flatten_cons, List.length_append] at oneMore
        split
        next whole =>
          have more : chunks ≠ [] := by
            rintro rfl
            simp only [List.flatten_nil, List.length_nil] at oneMore
            omega
          refine inductionHypothesis _ _ _ (by omega) ?_
          rwa [List.getLast?_cons_of_ne_nil more] at isLast
        next part =>
          have nothing : chunks.flatten = [] := List.length_eq_zero_iff.mp (by omega)
          have alone : chunks = [] := by
            by_contra more
            rw [List.getLast?_cons_of_ne_nil more] at isLast
            exact filled (List.flatten_eq_nil_iff.mp nothing last (List.mem_of_getLast? isLast))
          subst alone
          obtain rfl : chunk = last := Option.some.inj isLast
          have all : chunk.length - 1 = count := by omega
          rw [ending, all]
          split
          next boundary => simp [TerminalOutputBuffer.held]; omega
          next between =>
            have size : min count chunk.length = count := by omega
            simp [TerminalOutputBuffer.held, size]

theorem dropOldest_zero (chunks : List CodeUnits) (pending : Int) (dropped : Nat) :
    dropOldest pending dropped 0 chunks = ⟨chunks, pending, dropped⟩ := by
  cases chunks with
  | nil => rfl
  | cons chunk chunks => rw [dropOldest, if_pos rfl]

/-! ### What taking does -/

/-- Taking cuts what is held in two, and counts the first part. -/
theorem takeFrom_spec (chunks : List CodeUnits) (written : CodeUnits) (pending : Int)
    (remaining : Nat) :
    ∃ text, (takeFrom written pending remaining chunks).1 = written ++ text ∧
      chunks.flatten = text ++ (takeFrom written pending remaining chunks).2.1.flatten ∧
      (takeFrom written pending remaining chunks).2.2 = pending - text.length := by
  induction chunks generalizing written pending remaining with
  | nil => exact ⟨[], by simp [takeFrom], rfl, by simp [takeFrom]⟩
  | cons chunk chunks inductionHypothesis =>
      rw [takeFrom]
      split
      next => exact ⟨[], by simp, rfl, by simp⟩
      next =>
        split
        next =>
          obtain ⟨text, wrote, rest, counted⟩ := inductionHypothesis (written ++ chunk)
            (pending - chunk.length) (remaining - chunk.length)
          refine ⟨chunk ++ text, by rw [wrote, List.append_assoc], ?_, ?_⟩
          · rw [List.flatten_cons, rest, List.append_assoc]
          · rw [counted, List.length_append]
            push_cast
            omega
        next part =>
          dsimp only
          generalize split : (if isHighSurrogateBoundary chunk remaining then remaining - 1
            else remaining) = splitAt
          have inside : splitAt ≤ chunk.length := by
            rw [← split]
            split <;> omega
          split
          next => exact ⟨[], by simp, rfl, by simp⟩
          next =>
            refine ⟨chunk.take splitAt, rfl, ?_, ?_⟩
            · rw [List.flatten_cons, List.flatten_cons, ← List.append_assoc,
                List.take_append_drop]
            · rw [List.length_take, Nat.min_eq_left inside]

theorem takeFrom_wellFormed {chunks : List CodeUnits}
    (wellFormed : ∀ chunk ∈ chunks, WellFormed chunk) {written : CodeUnits}
    (before : WellFormed written) (pending : Int) (remaining : Nat) :
    WellFormed (takeFrom written pending remaining chunks).1 ∧
      ∀ chunk ∈ (takeFrom written pending remaining chunks).2.1, WellFormed chunk := by
  induction chunks generalizing written pending remaining with
  | nil => exact ⟨before, wellFormed⟩
  | cons chunk chunks inductionHypothesis =>
      obtain ⟨here, rest⟩ := List.forall_mem_cons.mp wellFormed
      rw [takeFrom]
      split
      next => exact ⟨before, wellFormed⟩
      next some =>
        split
        next => exact inductionHypothesis rest (before.append here) _ _
        next part =>
          dsimp only
          generalize splits : (if isHighSurrogateBoundary chunk remaining then remaining - 1
            else remaining) = splitAt
          split
          next => exact ⟨before, wellFormed⟩
          next =>
            have ⟨front, back⟩ : WellFormed (chunk.take splitAt) ∧
                WellFormed (chunk.drop splitAt) := by
              subst splits
              split
              next boundary =>
                -- the cut goes before the high surrogate
                obtain ⟨_, _, unit, found, high⟩ := isHighSurrogateBoundary_iff.mp boundary
                refine here.cut_before fun other held => ?_
                obtain rfl := Option.some.inj (held.symm.trans found)
                rw [Bool.eq_false_iff]
                intro low
                rw [not_high_of_low low] at high
                cases high
              next between =>
                exact here.cut (not_high_of_between between (by omega))
            exact ⟨before.append front, List.forall_mem_cons.mpr ⟨back, rest⟩⟩

/-- What stays ends in the last chunk, or in a part of it. -/
theorem takeFrom_filled {chunks : List CodeUnits} (filled : ∀ last ∈ chunks.getLast?, last ≠ [])
    (written : CodeUnits) (pending : Int) (remaining : Nat) :
    ∀ last ∈ (takeFrom written pending remaining chunks).2.1.getLast?, last ≠ [] := by
  induction chunks generalizing written pending remaining with
  | nil => exact filled
  | cons chunk chunks inductionHypothesis =>
      have rest : ∀ last ∈ chunks.getLast?, last ≠ [] := by
        cases chunks with
        | nil => simp
        | cons => simpa using filled
      rw [takeFrom]
      split
      next => exact filled
      next =>
        split
        next => exact inductionHypothesis rest _ _ _
        next part =>
          dsimp only
          generalize splits : (if isHighSurrogateBoundary chunk remaining then remaining - 1
            else remaining) = splitAt
          split
          next => exact filled
          next =>
            cases chunks with
            | nil =>
                intro last held
                have same : chunk.drop splitAt = last := Option.some.inj held
                rw [← same, Ne, List.drop_eq_nil_iff]
                split at splits <;> omega
            | cons => simpa using filled

/-! ### What adding does -/

/-- A text of at most the cap is kept whole. Of a longer one the last units are kept, one less
than the cap where the first of them would be a low surrogate. -/
theorem trimmed_cases (data : CodeUnits) :
    (data.length ≤ maxBufferedChars ∧ trimmed data = 0) ∨
    (maxBufferedChars < data.length ∧
      isLowSurrogateAt data (data.length - maxBufferedChars) = false ∧
      trimmed data = data.length - maxBufferedChars) ∨
    (maxBufferedChars < data.length ∧
      isLowSurrogateAt data (data.length - maxBufferedChars) = true ∧
      trimmed data = data.length - maxBufferedChars + 1) := by
  unfold trimmed
  split
  next fits => exact .inl ⟨fits, rfl⟩
  next long =>
    dsimp only
    split
    next low => exact .inr (.inr ⟨by omega, low, rfl⟩)
    next other => exact .inr (.inl ⟨by omega, by simpa using other, rfl⟩)

theorem kept_length (data : CodeUnits) (filled : data ≠ []) :
    0 < (data.drop (trimmed data)).length ∧
      (data.drop (trimmed data)).length ≤ maxBufferedChars := by
  have some := List.length_pos_iff.mpr filled
  rw [List.length_drop]
  unfold maxBufferedChars
  obtain ⟨fits, none⟩ | ⟨long, _, start⟩ | ⟨long, _, start⟩ := trimmed_cases data <;>
    unfold maxBufferedChars at * <;> omega

/-- A text that is not empty goes behind what the drop leaves. -/
theorem add_eq (buffer : TerminalOutputBuffer) {data : CodeUnits} (filled : data ≠ []) :
    buffer.add data =
      let kept := data.drop (trimmed data)
      let left := dropOldest buffer.pendingChars (buffer.droppedChars + trimmed data)
        (buffer.pendingChars + kept.length - maxBufferedChars).toNat buffer.chunks
      { left with
        chunks := left.chunks ++ [kept]
        pendingChars := left.pendingChars + kept.length } := by
  have some : data.drop (trimmed data) ≠ [] :=
    List.length_pos_iff.mp (kept_length data filled).1
  unfold TerminalOutputBuffer.add
  dsimp only
  rw [if_neg filled, if_neg some]
  split
  next => rfl
  next fits => rw [Int.toNat_of_nonpos (by omega), dropOldest_zero]

theorem trimmed_wellFormed {data : CodeUnits} (wellFormed : WellFormed data) :
    WellFormed (data.drop (trimmed data)) := by
  obtain ⟨_, start⟩ | ⟨_, other, start⟩ | ⟨long, low, start⟩ := trimmed_cases data
  · rwa [start]
  · rw [start]
    refine (wellFormed.cut_before fun unit held => ?_).2
    unfold isLowSurrogateAt at other
    rw [Option.mem_def.mp held] at other
    simpa using other
  · rw [start]
    refine (wellFormed.cut fun unit held => ?_).2
    obtain ⟨first, found, isLow⟩ := (Option.any_eq_true _ _).mp low
    rw [List.getLast?_take, if_neg (by omega), Nat.add_sub_cancel, found] at held
    obtain rfl := Option.some.inj held
    exact not_high_of_low isLow

/-! ### What every run keeps -/

/-- The counters agree with the chunks, and with what came and went. -/
structure Counted (history : History) : Prop where
  pending : history.buffer.pendingChars = (history.buffer.chunks.map List.length).sum
  capped : history.buffer.pendingChars ≤ maxBufferedChars
  balanced : (history.received.length : Int) =
    history.taken.flatten.length + history.buffer.droppedChars + history.buffer.pendingChars

/-- The last chunk is never empty. -/
def Filled (history : History) : Prop := ∀ last ∈ history.buffer.chunks.getLast?, last ≠ []

theorem Counted.held {history : History} (counted : Counted history) :
    history.buffer.pendingChars = history.buffer.held.length := by
  rw [counted.pending, TerminalOutputBuffer.held, List.length_flatten]

theorem counted_call {history : History} (counted : Counted history) (call : Call) :
    Counted (history.call call) := by
  have pending := counted.held
  have capped := counted.capped
  have balanced := counted.balanced
  cases call with
  | add data =>
      by_cases filled : data = []
      · subst filled
        refine ⟨counted.pending, capped, ?_⟩
        simpa [History.call, TerminalOutputBuffer.add] using balanced
      · obtain ⟨some, fits⟩ := kept_length data filled
        have whole : (data.drop (trimmed data)).length = data.length - trimmed data :=
          List.length_drop
        obtain ⟨drops, least, most, held, counts, lost⟩ := dropOldest_spec history.buffer.chunks
          history.buffer.pendingChars (history.buffer.droppedChars + trimmed data)
          (history.buffer.pendingChars + (data.drop (trimmed data)).length -
            maxBufferedChars).toNat
        have heldLength := (congrArg List.length held).trans List.length_drop
        rw [TerminalOutputBuffer.held] at heldLength
        rw [TerminalOutputBuffer.held] at pending
        simp only [History.call, add_eq _ filled]
        generalize dropOldest history.buffer.pendingChars _ _ _ = left at *
        constructor
        · simp only [List.map_append, List.sum_append, List.map_singleton, List.sum_singleton,
            ← List.length_flatten]
          omega
        · dsimp only
          omega
        · simp only [List.length_append]
          omega
  | take maxChars =>
      simp only [History.call, TerminalOutputBuffer.take]
      split
      next => exact ⟨counted.pending, capped, by simpa using balanced⟩
      next =>
        have spec := takeFrom_spec history.buffer.chunks [] history.buffer.pendingChars
          maxChars.toNat
        rcases result : takeFrom [] history.buffer.pendingChars maxChars.toNat
          history.buffer.chunks with ⟨text, chunks, left⟩
        rw [result] at spec
        obtain ⟨text', wrote, rest, counts⟩ := spec
        obtain rfl : text = text' := by simpa using wrote
        have lengths := congrArg List.length rest
        rw [List.length_append] at lengths
        rw [TerminalOutputBuffer.held] at pending
        dsimp only at counts lengths
        constructor
        · dsimp only
          rw [← List.length_flatten]
          omega
        · dsimp only
          omega
        · simp only [List.flatten_append, List.flatten_singleton, List.length_append]
          omega

theorem filled_call {history : History} (filled : Filled history) (call : Call) :
    Filled (history.call call) := by
  cases call with
  | add data =>
      by_cases some : data = []
      · subst some
        exact filled
      · have kept := (kept_length data some).1
        simp only [Filled, History.call, add_eq _ some, List.getLast?_concat]
        intro last held
        obtain rfl := Option.some.inj held
        exact List.length_pos_iff.mp kept
  | take maxChars =>
      simp only [Filled, History.call, TerminalOutputBuffer.take]
      split
      next => exact filled
      next => exact takeFrom_filled filled _ _ _

theorem wellFormed_call {history : History}
    (wellFormed : (∀ chunk ∈ history.buffer.chunks, WellFormed chunk) ∧
      ∀ text ∈ history.taken, WellFormed text) {call : Call}
    (added : ∀ data, call = .add data → WellFormed data) :
    (∀ chunk ∈ (history.call call).buffer.chunks, WellFormed chunk) ∧
      ∀ text ∈ (history.call call).taken, WellFormed text := by
  obtain ⟨chunks, taken⟩ := wellFormed
  cases call with
  | add data =>
      by_cases some : data = []
      · subst some
        exact ⟨chunks, taken⟩
      · refine ⟨?_, taken⟩
        simp only [History.call, add_eq _ some]
        intro chunk held
        rcases List.mem_append.mp held with held | held
        · exact dropOldest_wellFormed chunks _ _ _ chunk held
        · rw [List.mem_singleton.mp held]
          exact trimmed_wellFormed (added data rfl)
  | take maxChars =>
      simp only [History.call, TerminalOutputBuffer.take]
      split
      next =>
        exact ⟨chunks, fun text held => (List.mem_append.mp held).elim (taken text)
          fun single => List.mem_singleton.mp single ▸ .nil⟩
      next =>
        obtain ⟨text, rest⟩ := takeFrom_wellFormed chunks .nil history.buffer.pendingChars
          maxChars.toNat
        exact ⟨rest, fun other held => (List.mem_append.mp held).elim (taken other)
          fun single => List.mem_singleton.mp single ▸ text⟩

/-! ### What is held is a suffix -/

/-- A call that leaves nothing older before a gap: a text that is cut inside a surrogate pair
comes to an empty buffer, or to one whose last chunk ends in a pair, or in the unit that goes. -/
def LeavesNoneBehind (buffer : TerminalOutputBuffer) : Call → Prop
  | .add data =>
      maxBufferedChars < data.length →
        isLowSurrogateAt data (data.length - maxBufferedChars) = true →
        ∀ last ∈ buffer.chunks.getLast?,
          isHighSurrogateBoundary last (last.length - 1) = true ∨
            last.getLast? = data[data.length - maxBufferedChars]?
  | .take _ => True

/-- Two suffixes of one text that are as long are the same. -/
theorem suffix_unique {first second text : CodeUnits} (isFirst : first <:+ text)
    (isSecond : second <:+ text) (same : first.length = second.length) : first = second :=
  (List.suffix_of_suffix_length_le isFirst isSecond same.le).eq_of_length same

/-- The one unit before a cut has to be the one that was there. -/
theorem unit_suffix_iff {data text : CodeUnits} {cut : Nat} (inside : cut < data.length)
    {unit : UInt16} :
    unit :: data.drop (cut + 1) <:+ text ++ data ↔ some unit = data[cut]? := by
  have there : data.drop cut <:+ text ++ data :=
    (List.drop_suffix cut data).trans (List.suffix_append text data)
  rw [List.drop_eq_getElem_cons inside] at there
  rw [List.getElem?_eq_getElem inside, Option.some_inj]
  constructor
  · intro isSuffix
    exact List.head_eq_of_cons_eq (suffix_unique isSuffix there rfl)
  · rintro rfl
    exact there

/-- A call keeps the suffix if and only if it leaves nothing older before a gap. -/
theorem suffix_call {history : History} (counted : Counted history) (filled : Filled history)
    (suffix : history.buffer.held <:+ history.received) (call : Call) :
    (history.call call).buffer.held <:+ (history.call call).received ↔
      LeavesNoneBehind history.buffer call := by
  have pending := counted.held
  have capped := counted.capped
  cases call with
  | add data =>
      by_cases empty : data = []
      · subst empty
        simpa [History.call, TerminalOutputBuffer.add, LeavesNoneBehind] using suffix
      · obtain ⟨drops, least, most, held, -⟩ := dropOldest_spec history.buffer.chunks
          history.buffer.pendingChars (history.buffer.droppedChars + trimmed data)
          (history.buffer.pendingChars + (data.drop (trimmed data)).length -
            maxBufferedChars).toNat
        have after : (history.call (.add data)).buffer.held =
            history.buffer.held.drop drops ++ data.drop (trimmed data) := by
          simp only [History.call, add_eq _ empty, TerminalOutputBuffer.held,
            List.flatten_append, List.flatten_singleton, ← held]
        have received : (history.call (.add data)).received = history.received ++ data := rfl
        rw [received]
        have kept : data.drop (trimmed data) <:+ history.received ++ data :=
          (List.drop_suffix _ _).trans (List.suffix_append _ _)
        have length : (data.drop (trimmed data)).length = data.length - trimmed data :=
          List.length_drop
        obtain ⟨fits, start⟩ | ⟨long, other, start⟩ | ⟨long, low, start⟩ := trimmed_cases data
        · refine iff_of_true ?_ fun long => absurd fits (by omega)
          rw [after, start, List.drop_zero]
          exact List.suffix_append_self_iff.mpr ((List.drop_suffix _ _).trans suffix)
        · refine iff_of_true ?_ fun _ low => by rw [other] at low; cases low
          have gone : history.buffer.held.drop drops = [] := by
            rw [List.drop_eq_nil_iff, TerminalOutputBuffer.held]
            rw [TerminalOutputBuffer.held] at pending
            omega
          rw [after, gone, List.nil_append]
          exact kept
        · -- the cut leaves room for one unit of what was held
          cases isLast : history.buffer.chunks.getLast? with
          | none =>
              have nothing : history.buffer.held = [] := by
                rw [TerminalOutputBuffer.held, List.getLast?_eq_none_iff.mp isLast]
                rfl
              refine iff_of_true ?_ fun _ _ last held => by rw [isLast] at held; cases held
              rw [after, nothing, List.drop_nil, List.nil_append]
              exact kept
          | some last =>
              have some := filled last isLast
              have nonempty : 0 < history.buffer.held.length := by
                obtain ⟨front, shape⟩ := List.getLast?_eq_some_iff.mp isLast
                rw [TerminalOutputBuffer.held, shape, List.flatten_append, List.length_append,
                  List.flatten_singleton]
                have := List.length_pos_iff.mpr some
                omega
              have left := dropOldest_all_but_one history.buffer.pendingChars
                (history.buffer.droppedChars + trimmed data) (history.buffer.held.length - 1)
                (show history.buffer.chunks.flatten.length = _ by
                  rw [TerminalOutputBuffer.held] at *
                  omega) isLast some
              have count : (history.buffer.pendingChars + (data.drop (trimmed data)).length -
                  maxBufferedChars).toNat = history.buffer.held.length - 1 := by omega
              rw [count] at held
              rw [after, ← held, left]
              obtain ⟨unit, found⟩ : ∃ unit, last.getLast? = .some unit :=
                ⟨_, List.getLast?_eq_some_getLast some⟩
              have leaves : LeavesNoneBehind history.buffer (.add data) ↔
                  isHighSurrogateBoundary last (last.length - 1) = true ∨
                    .some unit = data[data.length - maxBufferedChars]? := by
                simp [LeavesNoneBehind, long, low, isLast, found]
              rw [leaves]
              split
              next pair => exact iff_of_true kept (.inl pair)
              next single =>
                rw [found, start, or_iff_right single]
                exact unit_suffix_iff (by omega)
  | take maxChars =>
      refine iff_of_true ?_ trivial
      simp only [History.call, TerminalOutputBuffer.take]
      split
      next => exact suffix
      next =>
        obtain ⟨text, _, rest, _⟩ := takeFrom_spec history.buffer.chunks []
          history.buffer.pendingChars maxChars.toNat
        exact (List.suffix_append text _).trans (rest ▸ suffix)

/-! ### Every run -/

theorem run_concat (calls : List Call) (call : Call) :
    run (calls ++ [call]) = (run calls).call call := by
  simp [run]

theorem counted_run (calls : List Call) : Counted (run calls) ∧ Filled (run calls) := by
  induction calls using List.reverseRecOn with
  | nil => exact ⟨⟨rfl, by decide, rfl⟩, by simp [Filled, run]⟩
  | append_singleton calls call inductionHypothesis =>
      rw [run_concat]
      exact ⟨counted_call inductionHypothesis.1 call, filled_call inductionHypothesis.2 call⟩

theorem wellFormed_run (calls : List Call) (added : ∀ data, .add data ∈ calls → WellFormed data) :
    (∀ chunk ∈ (run calls).buffer.chunks, WellFormed chunk) ∧
      ∀ text ∈ (run calls).taken, WellFormed text := by
  induction calls using List.reverseRecOn with
  | nil => simp [run]
  | append_singleton calls call inductionHypothesis =>
      rw [run_concat]
      refine wellFormed_call (inductionHypothesis fun data held => ?_) fun data same => ?_
      · exact added data (List.mem_append_left _ held)
      · exact added data (List.mem_append_right _ (List.mem_singleton.mpr same.symm))

/-- What holds of a buffer after its calls: the counters, the pairs, and the suffix. -/
structure KeepsSuffix (calls : List Call) : Prop where
  counted : Counted (run calls)
  wellFormed : (∀ data, .add data ∈ calls → WellFormed data) →
    ∀ text ∈ (run calls).taken, WellFormed text
  suffix : (run calls).buffer.held <:+ (run calls).received

/-- It holds after each of a run's calls if and only if each of them leaves nothing older before
a gap. -/
theorem keeps_suffix_iff (calls : List Call) :
    (∀ front, front <+: calls → KeepsSuffix front) ↔
      ∀ front call, front ++ [call] <+: calls → LeavesNoneBehind (run front).buffer call := by
  have step (front : List Call) (call : Call)
      (suffix : (run front).buffer.held <:+ (run front).received) :=
    suffix_call (counted_run front).1 (counted_run front).2 suffix call
  constructor
  · intro keeps front call isPrefix
    have before := (keeps front ((List.prefix_append _ _).trans isPrefix)).suffix
    have after := (keeps _ isPrefix).suffix
    rw [run_concat] at after
    exact (step front call before).mp after
  · intro leaves front isPrefix
    refine ⟨(counted_run front).1, fun added => (wellFormed_run front added).2, ?_⟩
    induction front using List.reverseRecOn with
    | nil => exact List.suffix_refl _
    | append_singleton front call inductionHypothesis =>
        rw [run_concat]
        have before := inductionHypothesis ((List.prefix_append _ _).trans isPrefix)
        exact (step front call before).mpr (leaves front call isPrefix)

/-- A pair, and one unit less than fills the buffer. -/
def pairTooLong : CodeUnits := 0xD83D :: 0xDE00 :: List.replicate (maxBufferedChars - 1) 0x61

theorem pairTooLong_length : pairTooLong.length = maxBufferedChars + 1 := by
  rw [pairTooLong, List.length_cons, List.length_cons, List.length_replicate]
  unfold maxBufferedChars
  omega

/-- Where `ab` waits the pair goes, and `b` stays. -/
theorem not_keeps_suffix_pairTooLong :
    ¬ (run [.add [0x61, 0x62], .add pairTooLong]).buffer.held <:+
      (run [.add [0x61, 0x62], .add pairTooLong]).received := by
  have first : (run [.add [0x61, 0x62]]).buffer.chunks = [[0x61, 0x62]] := by
    simp [run, History.call, TerminalOutputBuffer.add, trimmed, maxBufferedChars]
  have suffix : (run [.add [0x61, 0x62]]).buffer.held <:+ (run [.add [0x61, 0x62]]).received := by
    rw [TerminalOutputBuffer.held, first]
    exact List.suffix_refl _
  have both := run_concat [.add [0x61, 0x62]] (.add pairTooLong)
  rw [List.singleton_append] at both
  rw [both, suffix_call (counted_run _).1 (counted_run _).2 suffix]
  intro leaves
  have excess : pairTooLong.length - maxBufferedChars = 1 := by
    rw [pairTooLong_length, Nat.add_sub_cancel_left]
  have kept := leaves (by rw [pairTooLong_length]; omega) (by rw [excess]; rfl) [0x61, 0x62]
    (by rw [first]; rfl)
  rw [excess] at kept
  rcases kept with pair | same
  · cases pair
  · cases same

end ServerBox.Terminal.OutputBuffer
