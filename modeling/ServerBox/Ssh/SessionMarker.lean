import Mathlib.Data.List.TakeDrop
import ServerBox.Std.Latin1
import Mathlib.Algebra.Order.Ring.Nat

/-!
# The session marker taken out of a stream

`find_marker` of `src/crates/sbm_parser/src/exec_session.rs` finds the line in which a command
says its session id. `_stripSessionId` of `src/lib/core/ssh/exec.dart` takes it out of stderr as
it comes, and searches each chunk with `MARKER_MAX` octets of what came before. A marker whose id
has more zeros before it than that can be cut so that no search sees all of it.
-/

namespace ServerBox.Ssh.ExecSession

open ServerBox.Std

abbrev Octets := List UInt8

/-! ### Finding a marker -/

/-- `MARKER_START`: U+001E and `sbm-sid:`. -/
def markerStart : Octets := [0x1e, 0x73, 0x62, 0x6d, 0x2d, 0x73, 0x69, 0x64, 0x3a]

/-- `MARKER_END`. -/
def markerEnd : Octets := [0x1e, 0x0a]

/-- `MARKER_MAX`. -/
def markerMax : Nat := markerStart.length + 10 + markerEnd.length

structure SessionMarker where
  start : Nat
  finish : Nat
  id : Nat
deriving DecidableEq, Repr

def isDigit (octet : UInt8) : Bool := 0x30 ≤ octet && octet ≤ 0x39

def value (digits : Octets) : Nat :=
  digits.foldl (fun value digit => value * 10 + (digit.toNat - 0x30)) 0

/-- The digits as a `u32`. -/
def parseId (digits : Octets) : Option Nat :=
  if value digits < 2 ^ 32 then some (value digits) else none

/-- Where a pattern stands first. -/
theorem indexOf?_eq_some {pattern text : Octets} {place : Nat}
    (found : Latin1.indexOf? pattern text = some place) :
    pattern <+: text.drop place ∧ ∀ earlier < place, ¬ pattern <+: text.drop earlier := by
  induction text generalizing place with
  | nil =>
      rw [Latin1.indexOf?, Option.ite_none_right_eq_some, List.isEmpty_iff] at found
      obtain ⟨rfl, atStart⟩ := found
      obtain rfl := Option.some.inj atStart
      exact ⟨List.nil_prefix, fun _ before => absurd before (Nat.not_lt_zero _)⟩
  | cons octet text inductionHypothesis =>
      rw [Latin1.indexOf?] at found
      split at found
      next here =>
          obtain rfl := Option.some.inj found
          exact ⟨List.isPrefixOf_iff_prefix.mp here,
            fun _ before => absurd before (Nat.not_lt_zero _)⟩
      next notHere =>
          obtain ⟨later, there, rfl⟩ := Option.map_eq_some_iff.mp found
          obtain ⟨stands, first⟩ := inductionHypothesis there
          refine ⟨stands, fun earlier before => ?_⟩
          cases earlier with
          | zero => exact fun here => notHere (List.isPrefixOf_iff_prefix.mpr here)
          | succ earlier => exact first earlier (by omega)

theorem indexOf?_eq_none {pattern text : Octets} (nowhere : Latin1.indexOf? pattern text = none)
    (place : Nat) : ¬ pattern <+: text.drop place := by
  induction text generalizing place with
  | nil =>
      intro stands
      rw [List.drop_nil, List.prefix_nil] at stands
      simp [Latin1.indexOf?, stands] at nowhere
  | cons octet text inductionHypothesis =>
      rw [Latin1.indexOf?] at nowhere
      split at nowhere
      next => cases nowhere
      next notHere =>
          cases place with
          | zero => exact fun here => notHere (List.isPrefixOf_iff_prefix.mpr here)
          | succ place => exact inductionHypothesis (Option.map_eq_none_iff.mp nowhere) place

/-- The body of the loop of `find_marker`, at a place where `MARKER_START` stands. -/
def markerAt (head : Octets) (start : Nat) : Option SessionMarker :=
  let digits := start + markerStart.length
  let len := ((head.drop digits).takeWhile isDigit).length
  let after := digits + len
  if 0 < len ∧ markerEnd.isPrefixOf (head.drop after) then
    -- An id too large for a pid is not this marker.
    (parseId ((head.drop digits).take len)).map fun id => ⟨start, after + markerEnd.length, id⟩
  else none

/-- The loop of `find_marker`, from a place on. -/
def findMarkerFrom (head : Octets) (from_ : Nat) : Option SessionMarker :=
  match _found : Latin1.indexOf? markerStart (head.drop from_) with
  | none => none
  | some at_ =>
      match markerAt head (from_ + at_) with
      | some marker => some marker
      | none => findMarkerFrom head (from_ + at_ + 1)
termination_by head.length - from_
decreasing_by
  have inside := (indexOf?_eq_some _found).1.length_le
  simp only [List.length_drop, show markerStart.length = 9 from rfl] at inside
  omega

/-- `find_marker`. -/
def findMarker (head : Octets) : Option SessionMarker := findMarkerFrom head 0

/-! ### Taking it out of a stream -/

/-- What `_stripSessionId` holds, with what it told and let through. -/
structure Stripping where
  head : Octets := []
  decided : Bool := false
  id : Option Nat := none
  refused : Bool := false
  passed : Octets := []
deriving DecidableEq, Repr

/-- `handleData`. -/
def Stripping.handleData (stripping : Stripping) (chunk : Octets) : Stripping :=
  if stripping.decided then { stripping with passed := stripping.passed ++ chunk }
  else
    let from_ := stripping.head.length - markerMax
    let head := stripping.head ++ chunk
    match findMarker (head.drop from_) with
    | none => { stripping with head }
    | some marker =>
        { stripping with
          head, decided := true, id := some marker.id
          passed := stripping.passed ++
            (head.take (from_ + marker.start) ++ head.drop (from_ + marker.finish)) }

/-- `handleDone`. -/
def Stripping.handleDone (stripping : Stripping) : Stripping :=
  if stripping.decided then stripping
  else
    { stripping with
      decided := true, refused := true, passed := stripping.passed ++ stripping.head }

/-- The id told and the octets let through, of a stderr that came in these chunks. -/
def stripSessionId (chunks : List Octets) : Option Nat × Octets :=
  let stripping := (chunks.foldl Stripping.handleData {}).handleDone
  (stripping.id, stripping.passed)

/-- What the whole stderr is without its marker. -/
def stripped (stderr : Octets) : Option Nat × Octets :=
  match findMarker stderr with
  | none => (none, stderr)
  | some marker => (some marker.id, stderr.take marker.start ++ stderr.drop marker.finish)

/-! ### The markers of a text -/

/-- The digits of an id that a marker can carry. -/
structure IsId (digits : Octets) : Prop where
  nonempty : digits ≠ []
  digit : ∀ octet ∈ digits, isDigit octet = true
  small : value digits < 2 ^ 32

def markerText (digits : Octets) : Octets := markerStart ++ digits ++ markerEnd

/-- A marker stands at a place of a text. -/
structure Stands (text : Octets) (place : Nat) (digits : Octets) : Prop where
  isId : IsId digits
  isPrefix : markerText digits <+: text.drop place

theorem length_markerText (digits : Octets) : (markerText digits).length = digits.length + 11 := by
  simp only [markerText, List.length_append, show markerStart.length = 9 from rfl,
    show markerEnd.length = 2 from rfl]
  omega

/-- The digits of a marker end at the octet behind them. -/
theorem takeWhile_digits {digits : Octets} (digit : ∀ octet ∈ digits, isDigit octet = true)
    (rest : Octets) : (digits ++ markerEnd ++ rest).takeWhile isDigit = digits := by
  rw [List.append_assoc, List.takeWhile_append_of_pos digit]
  simp [markerEnd, isDigit]

theorem Stands.length_le {text : Octets} {place : Nat} {digits : Octets}
    (stands : Stands text place digits) :
    place + (markerText digits).length ≤ text.length := by
  have inside := stands.isPrefix.length_le
  rw [List.length_drop, length_markerText] at inside
  rw [length_markerText]
  omega

theorem Stands.opens {text : Octets} {place : Nat} {digits : Octets}
    (stands : Stands text place digits) : markerStart <+: text.drop place :=
  .trans ⟨digits ++ markerEnd, (List.append_assoc _ _ _).symm⟩ stands.isPrefix

/-- One marker stands at a place. -/
theorem Stands.unique {text : Octets} {place : Nat} {digits others : Octets}
    (stands : Stands text place digits) (alsoStands : Stands text place others) :
    digits = others := by
  obtain ⟨rest, same⟩ := stands.isPrefix
  obtain ⟨otherRest, otherSame⟩ := alsoStands.isPrefix
  have equal := same.trans otherSame.symm
  simp only [markerText, List.append_assoc] at equal
  have behind := List.append_cancel_left equal
  rw [← takeWhile_digits stands.isId.digit rest, ← takeWhile_digits alsoStands.isId.digit otherRest,
    List.append_assoc, behind, List.append_assoc]

/-- What stands at the places of a marker: U+001E first and last but one. -/
theorem getElem?_markerText {digits : Octets} (isId : IsId digits) {place : Nat}
    (isRecord : (markerText digits)[place]? = some 0x1e) :
    place = 0 ∨ place = digits.length + 9 := by
  rcases Nat.lt_or_ge place 9 with atStart | behind
  · rw [markerText, List.append_assoc, List.getElem?_append_left atStart] at isRecord
    have which : ∀ place < 9, markerStart[place]? = some 0x1e → place = 0 := by decide
    exact .inl (which place atStart isRecord)
  · rw [markerText, List.append_assoc, List.getElem?_append_right behind,
      show markerStart.length = 9 from rfl] at isRecord
    rcases Nat.lt_or_ge (place - 9) digits.length with inDigits | atEnd
    · rw [List.getElem?_append_left inDigits] at isRecord
      have digit := isId.digit _ (List.mem_of_getElem? isRecord)
      cases digit
    · rw [List.getElem?_append_right atEnd] at isRecord
      obtain ⟨inside, -⟩ := List.getElem?_eq_some_iff.mp isRecord
      have which : ∀ place < 2, markerEnd[place]? = some 0x1e → place = 0 := by decide
      have first := which _ inside isRecord
      omega

theorem getElem?_markerText_last (digits : Octets) :
    (markerText digits)[digits.length + 10]? = some 0x0a := by
  have front : (markerStart ++ digits).length = digits.length + 9 := by
    rw [List.length_append, Nat.add_comm]
    rfl
  rw [markerText, List.getElem?_append_right (by omega), front, Nat.add_sub_add_left]
  rfl

/-- Two markers of a text do not overlap. -/
theorem Stands.disjoint {text : Octets} {place later : Nat} {digits others : Octets}
    (stands : Stands text place digits) (alsoStands : Stands text later others)
    (ordered : place < later) : place + (markerText digits).length ≤ later := by
  by_contra overlap
  obtain ⟨rest, same⟩ := stands.isPrefix
  obtain ⟨otherRest, otherSame⟩ := alsoStands.isPrefix
  have octetAt : ∀ offset, later - place + offset < (markerText digits).length →
      (markerText digits)[later - place + offset]? = (text.drop later)[offset]? := by
    intro offset inside
    have whole : (text.drop place)[later - place + offset]? = (text.drop later)[offset]? := by
      rw [List.getElem?_drop, List.getElem?_drop]
      congr 1
      omega
    rw [← whole, ← same, List.getElem?_append_left inside]
  rw [length_markerText] at overlap octetAt
  have record := octetAt 0 (by omega)
  rw [← otherSame] at record
  have isLast := (@getElem?_markerText _ stands.isId (later - place) record).resolve_left
    (by omega)
  have next := octetAt 1 (by omega)
  rw [← otherSame, isLast, getElem?_markerText_last] at next
  cases next

/-! ### What is found -/

/-- What a search from a place on finds: the first marker there. -/
structure IsFirst (head : Octets) (from_ : Nat) (marker : SessionMarker) (digits : Octets) :
    Prop where
  stands : Stands head marker.start digits
  after : from_ ≤ marker.start
  finish : marker.finish = marker.start + (markerText digits).length
  id : marker.id = value digits
  first : ∀ earlier others, from_ ≤ earlier → earlier < marker.start →
    ¬ Stands head earlier others

/-- A marker is read at each place where one stands. -/
theorem Stands.markerAt_eq {head : Octets} {start : Nat} {digits : Octets}
    (stands : Stands head start digits) :
    markerAt head start =
      some ⟨start, start + (markerText digits).length, value digits⟩ := by
  obtain ⟨rest, same⟩ := stands.isPrefix
  have behind : head.drop (start + markerStart.length) = digits ++ (markerEnd ++ rest) := by
    rw [← List.drop_drop, ← same, markerText, List.append_assoc, List.append_assoc,
      List.drop_left]
  have digitsRead : (digits ++ (markerEnd ++ rest)).takeWhile isDigit = digits := by
    rw [← List.append_assoc, takeWhile_digits stands.isId.digit]
  have closes : markerEnd.isPrefixOf (head.drop (start + markerStart.length + digits.length)) := by
    rw [← List.drop_drop, behind, List.drop_left, List.isPrefixOf_iff_prefix]
    exact List.prefix_append _ _
  have some_ := List.length_pos_of_ne_nil stands.isId.nonempty
  unfold markerAt
  dsimp only
  rw [behind, digitsRead, if_pos ⟨some_, closes⟩, List.take_left, parseId,
    if_pos stands.isId.small, Option.map_some, length_markerText,
    show markerStart.length = 9 from rfl, show markerEnd.length = 2 from rfl]
  congr 2
  omega

/-- A marker stands where one is read. -/
theorem stands_of_markerAt {head : Octets} {start : Nat} {marker : SessionMarker}
    (opens : markerStart <+: head.drop start) (read : markerAt head start = some marker) :
    ∃ digits, Stands head start digits := by
  obtain ⟨behind, sameStart⟩ := opens
  have afterStart : head.drop (start + markerStart.length) = behind := by
    rw [← List.drop_drop, ← sameStart, List.drop_left]
  have digitsFirst := List.prefix_iff_eq_take.mp (List.takeWhile_prefix isDigit (l := behind))
  unfold markerAt at read
  dsimp only at read
  rw [Option.ite_none_right_eq_some, afterStart, ← digitsFirst, parseId] at read
  obtain ⟨⟨nonempty, closes⟩, isRead⟩ := read
  obtain ⟨id, small, -⟩ := Option.map_eq_some_iff.mp isRead
  rw [Option.ite_none_right_eq_some] at small
  obtain ⟨rest, sameEnd⟩ := List.isPrefixOf_iff_prefix.mp closes
  rw [← List.drop_drop, afterStart] at sameEnd
  refine ⟨behind.takeWhile isDigit, ⟨List.ne_nil_of_length_pos nonempty,
    fun octet held => List.mem_takeWhile_imp held, small.1⟩, rest, ?_⟩
  rw [markerText, List.append_assoc, List.append_assoc, sameEnd, ← sameStart]
  congr 1
  conv_rhs => rw [← List.take_append_drop (behind.takeWhile isDigit).length behind, ← digitsFirst]

/-- `find_marker` finds the first marker from a place on, or there is none. -/
theorem findMarkerFrom_spec (head : Octets) (from_ : Nat) :
    (∃ marker digits, findMarkerFrom head from_ = some marker ∧ IsFirst head from_ marker digits) ∨
      findMarkerFrom head from_ = none ∧ ∀ place digits, from_ ≤ place →
        ¬ Stands head place digits := by
  have opensFrom : ∀ {from_ place : Nat} {digits : Octets}, from_ ≤ place →
      Stands head place digits → markerStart <+: (head.drop from_).drop (place - from_) := by
    intro from_ place digits above stands
    rw [List.drop_drop, Nat.add_sub_cancel' above]
    exact stands.opens
  induction from_ using findMarkerFrom.induct head with
  | case1 from_ nowhere =>
      refine .inr ⟨by rw [findMarkerFrom, nowhere], fun place digits above stands => ?_⟩
      exact indexOf?_eq_none nowhere _ (opensFrom above stands)
  | case2 from_ at_ found marker read =>
      obtain ⟨opens, first⟩ := indexOf?_eq_some found
      rw [List.drop_drop] at opens
      obtain ⟨digits, stands⟩ := stands_of_markerAt opens read
      have finds : findMarkerFrom head from_ = some marker := by
        rw [findMarkerFrom, found]
        dsimp only
        rw [read]
      obtain rfl := Option.some.inj (stands.markerAt_eq.symm.trans read)
      refine .inl ⟨_, digits, finds, stands, Nat.le_add_right _ _, rfl, rfl,
        fun earlier others above below otherStands => ?_⟩
      exact first (earlier - from_) (by dsimp only at below; omega) (opensFrom above otherStands)
  | case3 from_ at_ found notRead inductionHypothesis =>
      have unfolded : findMarkerFrom head from_ = findMarkerFrom head (from_ + at_ + 1) := by
        rw [findMarkerFrom, found]
        dsimp only
        rw [notRead]
      have nothingBefore : ∀ place digits, from_ ≤ place → place < from_ + at_ + 1 →
          ¬ Stands head place digits := by
        intro place digits above below stands
        rcases Nat.lt_or_ge (place - from_) at_ with before | here
        · exact (indexOf?_eq_some found).2 _ before (opensFrom above stands)
        · obtain rfl : place = from_ + at_ := by omega
          rw [stands.markerAt_eq] at notRead
          cases notRead
      rw [unfolded]
      refine inductionHypothesis.imp ?_ ?_
      · rintro ⟨marker, digits, read, isFirst⟩
        refine ⟨marker, digits, read, isFirst.stands, by have := isFirst.after; omega,
          isFirst.finish, isFirst.id, fun earlier others above below => ?_⟩
        rcases Nat.lt_or_ge earlier (from_ + at_ + 1) with before | behind
        · exact nothingBefore earlier others above before
        · exact isFirst.first earlier others behind below
      · rintro ⟨nothing, nowhere⟩
        refine ⟨nothing, fun place digits above => ?_⟩
        rcases Nat.lt_or_ge place (from_ + at_ + 1) with before | behind
        · exact nothingBefore place digits above before
        · exact nowhere place digits behind

/-- `find_marker` of a whole text. -/
theorem findMarker_spec (text : Octets) :
    (∃ marker digits, findMarker text = some marker ∧ IsFirst text 0 marker digits) ∨
      findMarker text = none ∧ ∀ place digits, ¬ Stands text place digits := by
  refine (findMarkerFrom_spec text 0).imp_right ?_
  rintro ⟨nothing, nowhere⟩
  exact ⟨nothing, fun place digits => nowhere place digits (Nat.zero_le _)⟩

/-! ### What is seen of a stream -/

/-- The window that the chunk in which a marker ends is searched in holds all of the marker. -/
def Seen (held : Nat) (chunks : List Octets) (start length : Nat) : Prop :=
  ∃ before chunk after, chunks = before ++ chunk :: after ∧
    held + before.flatten.length < start + length ∧
    start + length ≤ held + before.flatten.length + chunk.length ∧
    held + before.flatten.length ≤ start + markerMax

/-- A text without one marker of it. -/
def without (text : Octets) (start : Nat) (digits : Octets) : Option Nat × Octets :=
  (some (value digits), text.take start ++ text.drop (start + (markerText digits).length))

/-- `_stripSessionId` from what it holds on, undecided. -/
def stripFrom (head : Octets) : List Octets → Option Nat × Octets
  | [] => (none, head)
  | chunk :: chunks =>
      match findMarker ((head ++ chunk).drop (head.length - markerMax)) with
      | none => stripFrom (head ++ chunk) chunks
      | some marker =>
          (some marker.id, (head ++ chunk).take (head.length - markerMax + marker.start) ++
            (head ++ chunk).drop (head.length - markerMax + marker.finish) ++ chunks.flatten)

theorem foldl_decided (chunks : List Octets) {stripping : Stripping}
    (decided : stripping.decided = true) :
    chunks.foldl Stripping.handleData stripping =
      { stripping with passed := stripping.passed ++ chunks.flatten } := by
  induction chunks generalizing stripping with
  | nil => simp
  | cons chunk chunks inductionHypothesis =>
      rw [List.foldl_cons, Stripping.handleData, if_pos decided,
        inductionHypothesis (by exact decided), List.flatten_cons, List.append_assoc]

/-- The stream is stripped from its start, with nothing held. -/
theorem stripSessionId_eq (chunks : List Octets) : stripSessionId chunks = stripFrom [] chunks := by
  have fromHead : ∀ head : Octets,
      ((chunks.foldl Stripping.handleData { head }).handleDone.id,
        (chunks.foldl Stripping.handleData { head }).handleDone.passed) =
        stripFrom head chunks := by
    induction chunks with
    | nil => intro head; rfl
    | cons chunk chunks inductionHypothesis =>
        intro head
        rw [List.foldl_cons, Stripping.handleData, if_neg (by simp), stripFrom]
        dsimp only
        cases findMarker ((head ++ chunk).drop (head.length - markerMax)) with
        | none => exact inductionHypothesis _
        | some marker =>
            dsimp only
            rw [foldl_decided chunks rfl]
            simp [Stripping.handleDone]
  exact fromHead []

theorem stands_drop {text : Octets} {from_ place : Nat} {digits : Octets} :
    Stands (text.drop from_) place digits ↔ Stands text (from_ + place) digits := by
  constructor
  · rintro ⟨isId, isPrefix⟩
    exact ⟨isId, List.drop_drop ▸ isPrefix⟩
  · rintro ⟨isId, isPrefix⟩
    exact ⟨isId, List.drop_drop ▸ isPrefix⟩

/-- A marker stands in a text when it stands in what the text begins with. -/
theorem Stands.append {text : Octets} {place : Nat} {digits : Octets}
    (stands : Stands text place digits) (more : Octets) : Stands (text ++ more) place digits := by
  refine ⟨stands.isId, ?_⟩
  rw [List.drop_append_of_le_length (by have := stands.length_le; omega)]
  exact stands.isPrefix.trans (List.prefix_append _ _)

theorem Stands.of_append {text more : Octets} {place : Nat} {digits : Octets}
    (stands : Stands (text ++ more) place digits)
    (inside : place + (markerText digits).length ≤ text.length) : Stands text place digits := by
  refine ⟨stands.isId, ?_⟩
  have isPrefix := stands.isPrefix
  rw [List.drop_append_of_le_length (by omega)] at isPrefix
  exact List.prefix_of_prefix_length_le isPrefix (List.prefix_append _ _)
    (by rw [List.length_drop]; omega)

theorem seen_cons {held start length : Nat} {chunk : Octets} {chunks : List Octets} :
    Seen held (chunk :: chunks) start length ↔
      (held < start + length ∧ start + length ≤ held + chunk.length ∧ held ≤ start + markerMax) ∨
        Seen (held + chunk.length) chunks start length := by
  constructor
  · rintro ⟨before, last, after, isCut, begun, ended, near⟩
    cases before with
    | nil =>
        obtain ⟨rfl, rfl⟩ := List.cons.inj isCut
        exact .inl ⟨begun, ended, near⟩
    | cons first before =>
        obtain ⟨rfl, rfl⟩ := List.cons.inj isCut
        rw [List.flatten_cons, List.length_append, ← Nat.add_assoc] at begun ended near
        exact .inr ⟨before, last, after, rfl, begun, ended, near⟩
  · rintro (⟨begun, ended, near⟩ | ⟨before, last, after, rfl, begun, ended, near⟩)
    · exact ⟨[], chunk, chunks, rfl, begun, ended, near⟩
    · refine ⟨chunk :: before, last, after, rfl, ?_, ?_, ?_⟩ <;>
        rw [List.flatten_cons, List.length_append, ← Nat.add_assoc] <;> assumption

/-- What is stripped is the first marker that a search saw all of, if any. -/
theorem stripFrom_spec (chunks : List Octets) (head : Octets)
    (passedBy : ∀ place digits, Stands head place digits → place + markerMax < head.length) :
    (stripFrom head chunks = (none, head ++ chunks.flatten) ∧
      ∀ place digits, Stands (head ++ chunks.flatten) place digits →
        ¬ Seen head.length chunks place (markerText digits).length) ∨
    ∃ place digits, Stands (head ++ chunks.flatten) place digits ∧
      Seen head.length chunks place (markerText digits).length ∧
      stripFrom head chunks = without (head ++ chunks.flatten) place digits ∧
      ∀ earlier others, Stands (head ++ chunks.flatten) earlier others →
        Seen head.length chunks earlier (markerText others).length → place ≤ earlier := by
  induction chunks generalizing head with
  | nil =>
      refine .inl ⟨by simp [stripFrom], fun place digits _ seen => ?_⟩
      obtain ⟨before, chunk, after, isCut, -⟩ := seen
      exact absurd isCut.symm (by simp)
  | cons chunk chunks inductionHypothesis =>
      rw [List.flatten_cons, ← List.append_assoc, stripFrom]
      have whole : (head ++ chunk).length = head.length + chunk.length := List.length_append
      -- A marker that this search could see stands in the window.
      have inWindow : ∀ {place digits}, Stands (head ++ chunk) place digits →
          head.length - markerMax ≤ place →
          Stands ((head ++ chunk).drop (head.length - markerMax))
            (place - (head.length - markerMax)) digits := by
        intro place digits stands above
        rw [stands_drop, Nat.add_sub_cancel' above]
        exact stands
      have seenHere : ∀ {place digits}, Stands (head ++ chunk ++ chunks.flatten) place digits →
          place + (markerText digits).length ≤ head.length + chunk.length →
          Stands (head ++ chunk) place digits :=
        fun stands ended => stands.of_append (by omega)
      rcases findMarker_spec ((head ++ chunk).drop (head.length - markerMax)) with
        ⟨marker, digits, found, isFirst⟩ | ⟨nothing, nowhere⟩
      · rw [found]
        dsimp only
        have stands := stands_drop.mp isFirst.stands
        have ended := stands.length_le
        have standsIn := stands.append chunks.flatten
        refine .inr ⟨_, digits, standsIn, seen_cons.mpr (.inl ⟨?_, by omega, by omega⟩), ?_, ?_⟩
        · by_contra before
          have early := passedBy _ _ (stands.of_append (by omega))
          omega
        · have front : (head ++ chunk ++ chunks.flatten).take
              (head.length - markerMax + marker.start) =
                (head ++ chunk).take (head.length - markerMax + marker.start) :=
            List.take_append_of_le_length (by omega)
          rw [without, isFirst.id, isFirst.finish, front, ← Nat.add_assoc,
            List.drop_append_of_le_length ended, List.append_assoc]
        · intro earlier others otherStands seen
          by_contra ordered
          rcases seen_cons.mp seen with ⟨-, otherEnded, near⟩ | later
          · exact isFirst.first _ others (Nat.zero_le _) (by omega)
              (inWindow (seenHere otherStands otherEnded) (by omega))
          · obtain ⟨before, last, after, -, begun, -⟩ := later
            have apart := otherStands.disjoint standsIn (by omega)
            omega
      · rw [nothing]
        dsimp only
        rw [← whole] at seenHere
        have next := inductionHypothesis (head ++ chunk) fun place digits stands => by
          by_contra near
          exact nowhere _ _ (inWindow stands (by omega))
        rw [whole] at next
        have notHere : ∀ place digits, Stands (head ++ chunk ++ chunks.flatten) place digits →
            (Seen head.length (chunk :: chunks) place (markerText digits).length ↔
              Seen (head.length + chunk.length) chunks place (markerText digits).length) := by
          intro place digits stands
          rw [seen_cons, or_iff_right]
          rintro ⟨-, ended, near⟩
          exact nowhere _ _ (inWindow (seenHere stands (by omega)) (by omega))
        rcases next with ⟨same, unseen⟩ | ⟨place, digits, stands, seen, same, least⟩
        · exact .inl ⟨same, fun place digits stands =>
            (notHere place digits stands).not.mpr (unseen place digits stands)⟩
        · exact .inr ⟨place, digits, stands, (notHere _ _ stands).mpr seen, same,
            fun earlier others otherStands otherSeen =>
              least earlier others otherStands ((notHere _ _ otherStands).mp otherSeen)⟩

/-! ### When the stream is stripped as the whole is -/

/-- Copies of one marker stand in a row. -/
def Row (text : Octets) (place copies : Nat) (digits : Octets) : Prop :=
  ∀ copy ≤ copies, Stands text (place + copy * (markerText digits).length) digits

/-- The first marker is seen, or a later one of a row of its copies. -/
def Reached (chunks : List Octets) : Prop :=
  ∀ place digits, Stands chunks.flatten place digits →
    (∀ earlier others, earlier < place → ¬ Stands chunks.flatten earlier others) →
    ∃ copies, Row chunks.flatten place copies digits ∧
      Seen 0 chunks (place + copies * (markerText digits).length) (markerText digits).length

/-- Of two copies next to each other it is the same which is taken out. -/
theorem without_next {text : Octets} {place : Nat} {digits : Octets}
    (stands : Stands text place digits)
    (next : Stands text (place + (markerText digits).length) digits) :
    without text (place + (markerText digits).length) digits = without text place digits := by
  obtain ⟨behind, same⟩ := stands.isPrefix
  obtain ⟨rest, sameNext⟩ := next.isPrefix
  have front : text.take (place + (markerText digits).length) =
      text.take place ++ markerText digits := by
    rw [List.take_add, ← same, List.take_left]
  rw [without, without, front, ← List.drop_drop, ← sameNext, List.drop_left, List.append_assoc]

theorem Row.without_eq {text : Octets} {place copies : Nat} {digits : Octets}
    (row : Row text place copies digits) :
    without text (place + copies * (markerText digits).length) digits =
      without text place digits := by
  induction copies with
  | zero => rw [Nat.zero_mul, Nat.add_zero]
  | succ copies inductionHypothesis =>
      have last := row (copies + 1) (Nat.le_refl _)
      rw [Nat.succ_mul, ← Nat.add_assoc] at last ⊢
      rw [without_next (row copies (Nat.le_succ _)) last]
      exact inductionHypothesis fun copy below => row copy (Nat.le_succ_of_le below)

/-- A marker that stands within a row is one of its copies. -/
theorem Row.eq_copy {text : Octets} {place copies within_ : Nat} {digits others : Octets}
    (row : Row text place copies digits) (stands : Stands text within_ others)
    (above : place ≤ within_)
    (below : within_ < place + (copies + 1) * (markerText digits).length) :
    others = digits ∧ ∃ copy ≤ copies, within_ = place + copy * (markerText digits).length := by
  have positive : 0 < (markerText digits).length := by
    rw [length_markerText]
    omega
  have few : (within_ - place) / (markerText digits).length < copies + 1 :=
    Nat.div_lt_of_lt_mul (by rw [Nat.mul_comm]; omega)
  have copyStands := row _ (Nat.le_of_lt_succ few)
  have floor := Nat.div_mul_le_self (within_ - place) (markerText digits).length
  have next := Nat.lt_div_mul_add (a := within_ - place) positive
  have here : within_ =
      place + (within_ - place) / (markerText digits).length * (markerText digits).length := by
    by_contra differs
    have apart := copyStands.disjoint stands (by omega)
    omega
  exact ⟨(here ▸ stands).unique copyStands, _, Nat.le_of_lt_succ few, here⟩

/-- Where taking out a later marker leaves the same as taking out the first, copies of the first
stand in a row up to the later one. -/
theorem row_of_without_eq {text : Octets} {place later : Nat} {digits others : Octets}
    (stands : Stands text place digits) (alsoStands : Stands text later others)
    (ordered : place ≤ later) (same : without text later others = without text place digits) :
    others = digits ∧ ∃ copies, later = place + copies * (markerText digits).length ∧
      Row text place copies digits := by
  have inside := alsoStands.length_le
  have rests : text.take later ++ text.drop (later + (markerText others).length) =
      text.take place ++ text.drop (place + (markerText digits).length) := (Prod.mk.inj same).2
  -- Before the later marker, a copy is followed by the next.
  have next : ∀ copy, place + (copy + 1) * (markerText digits).length ≤ later →
      Stands text (place + copy * (markerText digits).length) digits →
      Stands text (place + (copy + 1) * (markerText digits).length) digits := by
    intro copy before copyStands
    rw [Nat.succ_mul] at before ⊢
    refine ⟨copyStands.isId, ?_⟩
    have inFront : markerText digits <+:
        (text.take later).drop (place + copy * (markerText digits).length) := by
      rw [List.drop_take, List.prefix_take_iff]
      exact ⟨copyStands.isPrefix, by omega⟩
    have shifted : (text.take place ++ text.drop (place + (markerText digits).length)).drop
        (place + copy * (markerText digits).length) =
        text.drop (place + (copy * (markerText digits).length + (markerText digits).length)) := by
      have placeIs : (text.take place).length = place := by
        rw [List.length_take]
        omega
      rw [← List.drop_drop, List.drop_left' placeIs, List.drop_drop]
      congr 1
      omega
    rw [← shifted, ← rests]
    rw [List.drop_append_of_le_length (by rw [List.length_take]; omega)]
    exact inFront.trans (List.prefix_append _ _)
  have row : ∀ copies, place + copies * (markerText digits).length ≤ later →
      Row text place copies digits := by
    intro copies
    induction copies with
    | zero =>
        intro _ copy below
        obtain rfl := Nat.le_zero.mp below
        rw [Nat.zero_mul]
        exact stands
    | succ copies inductionHypothesis =>
        intro before copy below
        have earlier := inductionHypothesis (by rw [Nat.succ_mul] at before; omega)
        rcases Nat.lt_or_ge copies copy with isLast | isEarlier
        · obtain rfl : copy = copies + 1 := by omega
          exact next copies before (earlier copies (Nat.le_refl _))
        · exact earlier copy isEarlier
  have positive : 0 < (markerText digits).length := by
    rw [length_markerText]
    omega
  have floor := Nat.div_mul_le_self (later - place) (markerText digits).length
  have above := Nat.lt_div_mul_add (a := later - place) positive
  have upTo := row ((later - place) / (markerText digits).length) (by omega)
  obtain ⟨isSame, copy, few, rfl⟩ := upTo.eq_copy alsoStands ordered
    (by rw [Nat.succ_mul]; omega)
  exact ⟨isSame, copy, rfl, fun earlier below => upTo earlier (by omega)⟩

/-- A marker that is no longer than `MARKER_MAX` is seen however the text is cut. -/
theorem seen_of_short {chunks : List Octets} {held start length : Nat}
    (short : length ≤ markerMax) (begun : held < start + length)
    (ended : start + length ≤ held + chunks.flatten.length) : Seen held chunks start length := by
  induction chunks generalizing held with
  | nil => simp at ended; omega
  | cons chunk chunks inductionHypothesis =>
      rw [List.flatten_cons, List.length_append] at ended
      rw [seen_cons]
      by_cases here : start + length ≤ held + chunk.length
      · exact .inl ⟨begun, here, by omega⟩
      · exact .inr (inductionHypothesis (by omega) (by omega))

/-- So the cut is of no matter to an id written without zeros before it. -/
theorem reached_of_short {chunks : List Octets}
    (short : ∀ place digits, Stands chunks.flatten place digits → digits.length ≤ 10) :
    Reached chunks := by
  intro place digits stands first
  refine ⟨0, fun copy below => ?_, seen_of_short ?_ ?_ ?_⟩
  · obtain rfl := Nat.le_zero.mp below
    rw [Nat.zero_mul]
    exact stands
  · have := short place digits stands
    rw [length_markerText, show markerMax = 21 from rfl]
    omega
  · rw [length_markerText]
    omega
  · have := stands.length_le
    omega

/-- The id told and the octets let through are those of the whole stderr just when the first
marker, or a later one of a row of its copies, begins at most `MARKER_MAX` octets before the chunk
that it ends in. -/
theorem strips_as_whole_iff (chunks : List Octets) :
    stripSessionId chunks = stripped chunks.flatten ↔ Reached chunks := by
  have outcome := stripFrom_spec chunks [] fun place digits stands => by
    have := stands.length_le
    rw [length_markerText] at this
    simp at this
  rw [List.nil_append, List.length_nil] at outcome
  rw [stripSessionId_eq, stripped]
  rcases findMarker_spec chunks.flatten with ⟨marker, digits, found, isFirst⟩ | ⟨nothing, nowhere⟩
  · have wholeIs : (some marker.id, chunks.flatten.take marker.start ++
        chunks.flatten.drop marker.finish) = without chunks.flatten marker.start digits := by
      rw [without, isFirst.id, isFirst.finish]
    have least : ∀ {place digits}, Stands chunks.flatten place digits → marker.start ≤ place := by
      intro place digits stands
      by_contra before
      exact isFirst.first _ _ (Nat.zero_le _) (by omega) stands
    rw [found]
    dsimp only
    rw [wholeIs]
    constructor
    · intro same place others stands first
      obtain rfl : place = marker.start := by
        by_contra differs
        exact first _ _ (by have := least stands; omega) isFirst.stands
      obtain rfl := stands.unique isFirst.stands
      rcases outcome with ⟨none, -⟩ | ⟨later, found, laterStands, seen, strips, -⟩
      · rw [none, without] at same
        cases same
      · obtain ⟨rfl, copies, rfl, row⟩ :=
          row_of_without_eq stands laterStands (least laterStands) (strips.symm.trans same)
        exact ⟨copies, row, seen⟩
    · intro reached
      obtain ⟨copies, row, seen⟩ := reached marker.start digits isFirst.stands
        fun earlier others before stands => by have := least stands; omega
      rcases outcome with ⟨-, unseen⟩ | ⟨place, others, stands, -, strips, first⟩
      · exact absurd seen (unseen _ _ (row copies (Nat.le_refl _)))
      · obtain ⟨rfl, copy, few, rfl⟩ := row.eq_copy stands (least stands)
          (Nat.lt_of_le_of_lt (first _ _ (row copies (Nat.le_refl _)) seen)
            (by rw [Nat.succ_mul, length_markerText]; omega))
        rw [strips]
        exact Row.without_eq fun copy below => row copy (by omega)
  · rw [nothing]
    dsimp only
    rcases outcome with ⟨none, -⟩ | ⟨place, digits, stands, -⟩
    · exact iff_of_true none fun place digits stands => absurd stands (nowhere place digits)
    · exact absurd stands (nowhere place digits)

/-- The marker of session 42, its id written with thirteen digits, up to its line end. -/
def paddedMarker : Octets :=
  markerStart ++ List.replicate 11 0x30 ++ [0x34, 0x32, 0x1e]

theorem not_strips_as_whole_padded :
    stripSessionId [paddedMarker, [0x0a]] = (none, paddedMarker ++ [0x0a]) ∧
      stripped (paddedMarker ++ [0x0a]) = (some 42, []) ∧
      ¬ ∀ chunks, stripSessionId chunks = stripped chunks.flatten := by
  have notYet : findMarker paddedMarker = none := by
    have atStart : Latin1.indexOf? markerStart (paddedMarker.drop 0) = some 0 := by decide
    have behind : Latin1.indexOf? markerStart (paddedMarker.drop 1) = none := by decide
    have unread : markerAt paddedMarker 0 = none := by decide
    rw [findMarker, findMarkerFrom, atStart]
    dsimp only
    rw [unread, findMarkerFrom, behind]
  have cut : findMarker ((paddedMarker ++ [0x0a]).drop 2) = none := by
    have nowhere :
        Latin1.indexOf? markerStart (((paddedMarker ++ [0x0a]).drop 2).drop 0) = none := by decide
    rw [findMarker, findMarkerFrom, nowhere]
  have whole : findMarker (paddedMarker ++ [0x0a]) = some ⟨0, 24, 42⟩ := by
    have atStart : Latin1.indexOf? markerStart ((paddedMarker ++ [0x0a]).drop 0) = some 0 := by
      decide
    have read : markerAt (paddedMarker ++ [0x0a]) 0 = some ⟨0, 24, 42⟩ := by decide
    rw [findMarker, findMarkerFrom, atStart]
    dsimp only
    rw [read]
  have streamed : stripSessionId [paddedMarker, [0x0a]] = (none, paddedMarker ++ [0x0a]) := by
    have first : Stripping.handleData {} paddedMarker = { head := paddedMarker } := by
      rw [Stripping.handleData, if_neg (by decide)]
      dsimp only
      rw [show (([] : Octets).length - markerMax) = 0 from rfl, List.nil_append, List.drop_zero,
        notYet]
    have second : Stripping.handleData { head := paddedMarker } [0x0a] =
        { head := paddedMarker ++ [0x0a] } := by
      rw [Stripping.handleData, if_neg (by decide)]
      dsimp only
      rw [show paddedMarker.length - markerMax = 2 from rfl, cut]
    rw [stripSessionId, List.foldl_cons, first, List.foldl_cons, second]
    rfl
  have wholeStripped : stripped (paddedMarker ++ [0x0a]) = (some 42, []) := by
    rw [stripped, whole]
    rfl
  refine ⟨streamed, wholeStripped, fun all => ?_⟩
  have same := all [paddedMarker, [0x0a]]
  rw [streamed, show [paddedMarker, [0x0a]].flatten = paddedMarker ++ [0x0a] from rfl,
    wholeStripped] at same
  cases same

end ServerBox.Ssh.ExecSession
