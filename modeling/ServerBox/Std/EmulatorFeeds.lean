import ServerBox.Std.Emulator

/-!
# What a terminal makes of a text

What is read from one part of a text to the next: control sequences (`feed_control`), lines of
characters and graphics selections drawn on one row (`feed_line`) and on row after row
(`feed_rows`), and line feeds on the bottom row (`feed_lineFeeds`).
-/

namespace ServerBox.Std.Emulator

variable {Pen : Type} (renderer : Renderer Pen)

/-! ### Control sequences -/

/-- A control sequence as it is written. -/
def controlText (parameters : Text) (final : Char) : Text :=
  '\x1b' :: '[' :: (parameters ++ [final])

theorem feed_parameters (screen : Screen Pen) (before : Text) {parameters : Text} {final : Char}
    (inside : ∀ char ∈ parameters, isFinal char = false) (ends : isFinal final = true) :
    feed renderer ⟨.sequence before, screen⟩ (parameters ++ [final]) =
      ⟨.ground, screen.control renderer (before ++ parameters) final⟩ := by
  induction parameters generalizing before with
  | nil => simp [feed, readChar, ends]
  | cons char parameters inductionHypothesis =>
      have further := inside char List.mem_cons_self
      have step : readChar renderer ⟨.sequence before, screen⟩ char =
          ⟨.sequence (before ++ [char]), screen⟩ := by simp [readChar, further]
      rw [List.cons_append, feed, List.foldl_cons, step, ← feed,
        inductionHypothesis _ fun other held => inside other (List.mem_cons_of_mem _ held),
        List.append_assoc, List.singleton_append]

theorem feed_control (screen : Screen Pen) {parameters : Text} {final : Char}
    (inside : ∀ char ∈ parameters, isFinal char = false) (ends : isFinal final = true) :
    feed renderer ⟨.ground, screen⟩ (controlText parameters final) =
      ⟨.ground, screen.control renderer parameters final⟩ :=
  feed_parameters renderer screen [] inside ends

theorem not_isFinal_of_isDigit {char : Char} (digit : char.isDigit = true) :
    isFinal char = false := by
  have bounds : char.toNat ≤ 57 := by
    simp only [Char.isDigit, Bool.and_eq_true, decide_eq_true_eq] at digit
    exact digit.2
  have below : ¬ '@' ≤ char := by
    intro above
    have : 64 ≤ char.toNat := above
    omega
  simp [isFinal, below]

theorem not_isFinal_of_mem_decimal {number : Nat} {char : Char}
    (held : char ∈ Text.decimal number) : isFinal char = false :=
  not_isFinal_of_isDigit (Text.isDigit_of_mem_decimal held)

/-- `CUP`. -/
def cursorTo (row column : Nat) : Text :=
  controlText (Text.decimal row ++ ';' :: Text.decimal column) 'H'

theorem semicolon_not_mem_decimal (number : Nat) : ';' ∉ Text.decimal number := by
  intro held
  exact absurd (Text.isDigit_of_mem_decimal held) (by decide)

@[simp] theorem feed_cursorTo (screen : Screen Pen) (row column : Nat) :
    feed renderer ⟨.ground, screen⟩ (cursorTo row column) =
      ⟨.ground, screen.moveTo row column⟩ := by
  have inside : ∀ char ∈ Text.decimal row ++ ';' :: Text.decimal column,
      isFinal char = false := by
    intro char held
    rcases List.mem_append.mp held with digit | rest
    · exact not_isFinal_of_mem_decimal digit
    · rcases List.mem_cons.mp rest with rfl | digit
      · decide
      · exact not_isFinal_of_mem_decimal digit
  rw [cursorTo, feed_control renderer screen inside (by decide), Screen.control, if_pos rfl,
    Text.splitOnce_append _ (semicolon_not_mem_decimal row)]
  simp [Text.digitsValue_decimal]

/-- `SM` and `RM`, for a DEC private mode. -/
def decMode (mode : Nat) (enabled : Bool) : Text :=
  controlText ('?' :: Text.decimal mode) (if enabled then 'h' else 'l')

@[simp] theorem feed_decMode (screen : Screen Pen) (mode : Nat) (enabled : Bool) :
    feed renderer ⟨.ground, screen⟩ (decMode mode enabled) =
      ⟨.ground, screen.setDec mode enabled⟩ := by
  have inside : ∀ char ∈ '?' :: Text.decimal mode, isFinal char = false := by
    intro char held
    rcases List.mem_cons.mp held with rfl | digit
    · decide
    · exact not_isFinal_of_mem_decimal digit
  cases enabled <;>
    · rw [decMode, feed_control renderer screen inside (by decide)]
      simp [Screen.control, Screen.setMode, Text.digitsValue_decimal]

/-- `SM` and `RM`. -/
def ansiMode (mode : Nat) (enabled : Bool) : Text :=
  controlText (Text.decimal mode) (if enabled then 'h' else 'l')

@[simp] theorem feed_ansiMode (screen : Screen Pen) (mode : Nat) (enabled : Bool) :
    feed renderer ⟨.ground, screen⟩ (ansiMode mode enabled) =
      ⟨.ground, screen.setAnsi mode enabled⟩ := by
  have inside : ∀ char ∈ Text.decimal mode, isFinal char = false :=
    fun char held => not_isFinal_of_mem_decimal held
  have plain : ∀ enabled, screen.setMode (Text.decimal mode) enabled =
      screen.setAnsi mode enabled := by
    intro enabled
    unfold Screen.setMode
    split
    next parameters others shape =>
        have held : '?' ∈ Text.decimal mode := shape ▸ List.mem_cons_self
        exact absurd (Text.isDigit_of_mem_decimal held) (by decide)
    next => rw [Text.digitsValue_decimal]
  cases enabled <;>
    · rw [ansiMode, feed_control renderer screen inside (by decide)]
      simp [Screen.control, plain]

/-- `DECSCUSR`. -/
def cursorStyle (style : Nat) : Text := controlText (Text.decimal style ++ [' ']) 'q'

@[simp] theorem feed_cursorStyle (screen : Screen Pen) (style : Nat) :
    feed renderer ⟨.ground, screen⟩ (cursorStyle style) =
      ⟨.ground, { screen with modes := { screen.modes with cursorStyle := some style } }⟩ := by
  have inside : ∀ char ∈ Text.decimal style ++ [' '], isFinal char = false := by
    intro char held
    rcases List.mem_append.mp held with digit | space
    · exact not_isFinal_of_mem_decimal digit
    · rw [List.mem_singleton.mp space]
      decide
  have lacks : ' ' ∉ Text.decimal style := fun held =>
    absurd (Text.isDigit_of_mem_decimal held) (by decide)
  rw [cursorStyle, feed_control renderer screen inside (by decide)]
  simp [Screen.control, Text.splitOnce_append [] lacks, Text.digitsValue_decimal]

/-! ### Lines -/

/-- A character, or a sequence that selects graphics. -/
inductive Piece where
  | glyph (char : Char)
  | select (parameters : Text)
deriving DecidableEq, Repr

def Piece.text : Piece → Text
  | .glyph char => [char]
  | .select parameters => controlText parameters 'm'

def Piece.Drawable : Piece → Prop
  | .glyph char => ' ' ≤ char
  | .select parameters => ∀ char ∈ parameters, isFinal char = false

instance : DecidablePred Piece.Drawable
  | .glyph char => inferInstanceAs (Decidable (' ' ≤ char))
  | .select parameters =>
      inferInstanceAs (Decidable (∀ char ∈ parameters, isFinal char = false))

def Piece.width : Piece → Nat
  | .glyph char => renderer.furtherColumns char + 1
  | .select _ => 0

/-- Characters with nothing but graphics selections between them. -/
structure Line where
  pieces : List Piece
  drawable : ∀ piece ∈ pieces, piece.Drawable

def Line.text (line : Line) : Text := line.pieces.flatMap Piece.text

/-- How many columns a line takes. -/
def Line.width (line : Line) : Nat := (line.pieces.map (Piece.width renderer)).sum

/-- The cells that pieces are drawn as from a pen, and the pen after them. -/
def draw (pen : Pen) : List Piece → Row Pen × Pen
  | [] => ([], pen)
  | .glyph char :: pieces =>
      (Screen.cells renderer pen char ++ (draw pen pieces).1, (draw pen pieces).2)
  | .select parameters :: pieces => draw (renderer.select parameters pen) pieces

/-- Lines one below the other: the pen goes on from one to the next. -/
def drawLines (pen : Pen) : List Line → List (Row Pen) × Pen
  | [] => ([], pen)
  | line :: lines =>
      ((draw renderer pen line.pieces).1 ::
          (drawLines (draw renderer pen line.pieces).2 lines).1,
        (drawLines (draw renderer pen line.pieces).2 lines).2)

theorem length_draw (pen : Pen) (pieces : List Piece) :
    (draw renderer pen pieces).1.length = (pieces.map (Piece.width renderer)).sum := by
  induction pieces generalizing pen with
  | nil => rfl
  | cons piece pieces inductionHypothesis =>
      cases piece with
      | glyph char =>
          simp only [draw, Screen.cells, List.length_append, List.length_cons,
            List.length_replicate, inductionHypothesis, List.map_cons, Piece.width, List.sum_cons]
      | select parameters => simp [draw, Piece.width, inductionHypothesis]

@[simp] theorem length_drawLines (pen : Pen) (lines : List Line) :
    (drawLines renderer pen lines).1.length = lines.length := by
  induction lines generalizing pen with
  | nil => rfl
  | cons line lines inductionHypothesis => simp [drawLines, inductionHypothesis]

theorem drawLines_append (pen : Pen) (front back : List Line) :
    drawLines renderer pen (front ++ back) =
      ((drawLines renderer pen front).1 ++
          (drawLines renderer (drawLines renderer pen front).2 back).1,
        (drawLines renderer (drawLines renderer pen front).2 back).2) := by
  induction front generalizing pen with
  | nil => rfl
  | cons line front inductionHypothesis =>
      simp only [List.cons_append, drawLines, inductionHypothesis]

theorem take_drawLines (pen : Pen) (lines : List Line) (count : Nat) :
    (drawLines renderer pen lines).1.take count =
      (drawLines renderer pen (lines.take count)).1 := by
  induction lines generalizing pen count with
  | nil => simp [drawLines]
  | cons line lines inductionHypothesis =>
      cases count with
      | zero => rfl
      | succ count => simp [drawLines, inductionHypothesis]

theorem drop_drawLines (pen : Pen) (lines : List Line) (count : Nat) :
    (drawLines renderer pen lines).1.drop count =
      (drawLines renderer (drawLines renderer pen (lines.take count)).2 (lines.drop count)).1 := by
  induction lines generalizing pen count with
  | nil => simp [drawLines]
  | cons line lines inductionHypothesis =>
      cases count with
      | zero => rfl
      | succ count => simp [drawLines, inductionHypothesis]

/-- A row drawn up to the cursor, with room for more. -/
structure AtEnd (screen : Screen Pen) (content : Row Pen) (further : Nat) : Prop where
  here : screen.rows[screen.row]? = some content
  column : content.length = screen.column
  fits : screen.column + further ≤ screen.columns

theorem putCells_end (insert : Bool) {columns : Nat} {put content : Row Pen}
    (fits : content.length + put.length ≤ columns) :
    Screen.putCells insert columns content.length put content = content ++ put := by
  cases insert with
  | false => simp [Screen.putCells]
  | true =>
      have whole : (content ++ put).take columns = content ++ put :=
        List.take_of_length_le (by simpa using fits)
      simpa [Screen.putCells] using whole

/-- The screen with more cells on the cursor's row. -/
def Screen.drawn (screen : Screen Pen) (content : Row Pen) (pen : Pen) : Screen Pen :=
  { screen with
    rows := screen.rows.set screen.row content
    column := content.length
    pen }

theorem modify_eq_set {α : Type} {values : List α} {index : Nat} {value : α}
    (held : values[index]? = some value) (change : α → α) :
    values.modify index change = values.set index (change value) := by
  apply List.ext_getElem?
  intro other
  by_cases same : index = other
  · subst same
    obtain ⟨inside, here⟩ := List.getElem?_eq_some_iff.mp held
    simp [inside, here]
  · simp [same]

theorem put_end {screen : Screen Pen} {content : Row Pen} {char : Char}
    (atEnd : AtEnd screen content (Screen.cells renderer screen.pen char).length) :
    screen.put renderer char =
      screen.drawn (content ++ Screen.cells renderer screen.pen char) screen.pen := by
  have room : screen.makeRoom (Screen.cells renderer screen.pen char).length = screen :=
    if_pos atEnd.fits
  have fits := atEnd.fits
  unfold Screen.put Screen.drawn
  simp only [room]
  rw [← atEnd.column] at fits
  rw [← atEnd.column, modify_eq_set atEnd.here, putCells_end _ fits, List.length_append]

theorem AtEnd.drawn {screen : Screen Pen} {content put : Row Pen} {further : Nat} (pen : Pen)
    (atEnd : AtEnd screen content (put.length + further)) :
    AtEnd (screen.drawn (content ++ put) pen) (content ++ put) further where
  here := by
    have inside : screen.row < screen.rows.length := (List.getElem?_eq_some_iff.mp atEnd.here).1
    simp [Screen.drawn, inside]
  column := rfl
  fits := by
    have fits := atEnd.fits
    have column := atEnd.column
    simp only [Screen.drawn, List.length_append]
    omega

theorem readChar_put (screen : Screen Pen) {char : Char} (shown : ' ' ≤ char) :
    readChar renderer ⟨.ground, screen⟩ char = ⟨.ground, screen.put renderer char⟩ := by
  have above : 32 ≤ char.toNat := shown
  have ne : ∀ other : Char, other.toNat < 32 → char ≠ other := by
    rintro other below rfl
    omega
  have notBelow : ¬ char < ' ' := by
    intro below
    have : char.toNat < 32 := below
    omega
  simp [readChar, ne '\x1b' (by decide), ne '\r' (by decide), ne '\n' (by decide), notBelow]

/-- Pieces are drawn after what the row has. -/
theorem feed_pieces {pieces : List Piece} {screen : Screen Pen} {content : Row Pen}
    (drawable : ∀ piece ∈ pieces, piece.Drawable)
    (atEnd : AtEnd screen content (pieces.map (Piece.width renderer)).sum) :
    feed renderer ⟨.ground, screen⟩ (pieces.flatMap Piece.text) =
      ⟨.ground, screen.drawn (content ++ (draw renderer screen.pen pieces).1)
        (draw renderer screen.pen pieces).2⟩ := by
  induction pieces generalizing screen content with
  | nil =>
      have same : screen.rows.set screen.row content = screen.rows := by
        obtain ⟨inside, held⟩ := List.getElem?_eq_some_iff.mp atEnd.here
        rw [← held, List.set_getElem_self]
      simp [feed, draw, Screen.drawn, same, atEnd.column]
  | cons piece pieces inductionHypothesis =>
      have rest : ∀ other ∈ pieces, other.Drawable :=
        fun other held => drawable other (List.mem_cons_of_mem _ held)
      have first := drawable piece List.mem_cons_self
      rw [List.flatMap_cons, feed_append]
      cases piece with
      | glyph char =>
          have room : AtEnd screen content
              ((Screen.cells renderer screen.pen char).length +
                (pieces.map (Piece.width renderer)).sum) := by
            simpa [Screen.cells, Piece.width, Nat.add_comm, Nat.add_left_comm] using atEnd
          have put : screen.put renderer char =
              screen.drawn (content ++ Screen.cells renderer screen.pen char) screen.pen :=
            put_end renderer ⟨room.here, room.column, by have := room.fits; omega⟩
          have step : feed renderer ⟨.ground, screen⟩ (Piece.glyph char).text =
              ⟨.ground, screen.put renderer char⟩ := readChar_put renderer screen first
          rw [step, put, inductionHypothesis rest (room.drawn screen.pen)]
          simp [Screen.drawn, draw, List.append_assoc]
      | select parameters =>
          have step : feed renderer ⟨.ground, screen⟩ (Piece.select parameters).text =
              ⟨.ground, { screen with pen := renderer.select parameters screen.pen }⟩ := by
            rw [Piece.text, feed_control renderer screen first (by decide)]
            simp [Screen.control]
          have room : AtEnd { screen with pen := renderer.select parameters screen.pen } content
              (pieces.map (Piece.width renderer)).sum :=
            ⟨atEnd.here, atEnd.column, by simpa [Piece.width] using atEnd.fits⟩
          rw [step, inductionHypothesis rest room]
          rfl

/-- A line is drawn on the blank row whose start it is written at. -/
theorem feed_line (screen : Screen Pen) (line : Line)
    (blank : screen.rows[screen.row]? = some []) (start : screen.column = 0)
    (fits : line.width renderer ≤ screen.columns) :
    feed renderer ⟨.ground, screen⟩ line.text =
      ⟨.ground, screen.drawn (draw renderer screen.pen line.pieces).1
        (draw renderer screen.pen line.pieces).2⟩ := by
  have atEnd : AtEnd screen [] (line.pieces.map (Piece.width renderer)).sum :=
    ⟨blank, start.symm, by rw [start, Nat.zero_add]; exact fits⟩
  rw [Line.text, feed_pieces renderer line.drawable atEnd, List.nil_append]

/-! ### Rows -/

/-- Lines, each written at the start of its row: the first one at the row after so many. -/
def rowsText (above : Nat) : List Line → Text
  | [] => []
  | line :: lines => cursorTo (above + 1) 1 ++ line.text ++ rowsText (above + 1) lines

/-- Lines are drawn below the rows that are, and the rows below them stay blank. -/
theorem feed_rows {lines : List Line} {screen : Screen Pen} {above : List (Row Pen)} {below : Nat}
    (rows : screen.rows = above ++ List.replicate (lines.length + below) [])
    (height : screen.rows.length = screen.height)
    (fits : ∀ line ∈ lines, line.width renderer ≤ screen.columns) :
    ∃ row column,
      feed renderer ⟨.ground, screen⟩ (rowsText above.length lines) =
        ⟨.ground, { screen with
          rows := above ++ (drawLines renderer screen.pen lines).1 ++ List.replicate below []
          pen := (drawLines renderer screen.pen lines).2
          row, column }⟩ := by
  induction lines generalizing screen above with
  | nil =>
      refine ⟨screen.row, screen.column, ?_⟩
      simp only [List.length_nil, Nat.zero_add] at rows
      simp [rowsText, feed, drawLines, ← rows]
  | cons line lines inductionHypothesis =>
      have heightEq : screen.height = above.length + (lines.length + 1 + below) := by
        rw [← height, rows]
        simp
      have moved : screen.moveTo (above.length + 1) 1 =
          { screen with row := above.length, column := 0 } := by
        have inside : min above.length (screen.height - 1) = above.length := by omega
        simp [Screen.moveTo, inside]
      have blank : screen.rows[above.length]? = some [] := by
        rw [rows, List.getElem?_append_right (Nat.le_refl _), Nat.sub_self,
          List.getElem?_replicate, if_pos (by rw [List.length_cons]; omega)]
      have drawn := feed_line renderer { screen with row := above.length, column := 0 } line blank
        rfl (fits line List.mem_cons_self)
      have next : screen.rows.set above.length (draw renderer screen.pen line.pieces).1 =
          (above ++ [(draw renderer screen.pen line.pieces).1]) ++
            List.replicate (lines.length + below) [] := by
        have split : List.replicate (line :: lines).length ([] : Row Pen) ++
            List.replicate below [] = [] :: List.replicate (lines.length + below) [] := by
          rw [← List.replicate_add, ← List.replicate_succ]
          congr 1
          simp only [List.length_cons]
          omega
        rw [rows, List.replicate_add, split, List.set_append_right _ _ (Nat.le_refl _),
          Nat.sub_self, List.set_cons_zero]
        simp
      obtain ⟨row, column, rest⟩ := @inductionHypothesis
        (Screen.drawn { screen with row := above.length, column := 0 }
          (draw renderer screen.pen line.pieces).1 (draw renderer screen.pen line.pieces).2)
        (above ++ [(draw renderer screen.pen line.pieces).1]) next (by simp only [Screen.drawn, List.length_set]; exact height)
        fun other held => fits other (List.mem_cons_of_mem _ held)
      refine ⟨row, column, ?_⟩
      rw [List.length_append, List.length_singleton] at rest
      rw [rowsText, feed_append, feed_append, feed_cursorTo, moved, drawn, rest]
      simp [Screen.drawn, drawLines]

/-! ### Line feeds -/

def lineFeeds (count : Nat) : Text := (List.replicate count ['\r', '\n']).flatten

/-- On the bottom row each line feed scrolls a row off. -/
theorem feed_lineFeeds {count : Nat} {screen : Screen Pen} (few : count ≤ screen.rows.length)
    (bottom : screen.row + 1 = screen.height) (start : screen.column = 0) :
    feed renderer ⟨.ground, screen⟩ (lineFeeds count) =
      ⟨.ground, { screen with
        rows := screen.rows.drop count ++ List.replicate count []
        scrollback :=
          if screen.main.isSome then screen.scrollback
          else screen.scrollback ++ screen.rows.take count }⟩ := by
  induction count generalizing screen with
  | zero => simp [lineFeeds, feed]
  | succ count inductionHypothesis =>
      have fed : feed renderer ⟨.ground, screen⟩ ['\r', '\n'] = ⟨.ground, screen.scroll⟩ := by
        have still : { screen with column := 0 } = screen := by
          rw [← start]
        have scrolls : screen.lineFeed = screen.scroll := if_neg (by omega)
        simp [feed, readChar, Screen.carriageReturn, still, scrolls]
      have split : lineFeeds (count + 1) = ['\r', '\n'] ++ lineFeeds count := by
        simp [lineFeeds, List.replicate_succ]
      have further := @inductionHypothesis screen.scroll
        (by simp only [Screen.scroll, List.length_append, List.length_drop, List.length_singleton]
            omega)
        bottom start
      rw [split, feed_append, fed, further]
      obtain ⟨top, rest, shape⟩ := List.exists_cons_of_length_pos (l := screen.rows) (by omega)
      have many : count ≤ rest.length := by
        rw [shape, List.length_cons] at few
        omega
      simp only [Screen.scroll, shape, List.drop_succ_cons, List.drop_zero, List.take_succ_cons,
        List.take_zero, List.drop_append_of_le_length many, List.take_append_of_le_length many,
        List.append_assoc]
      cases screen.main with
      | none => simp [List.replicate_succ]
      | some saved => simp [List.replicate_succ]

end ServerBox.Std.Emulator
