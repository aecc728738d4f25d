import ServerBox.Std.Text
import Mathlib.Algebra.Order.Ring.Nat

/-!
# A terminal

A terminal of so many rows and columns that reads text: characters are drawn at the cursor with
the pen in use, a line feed on the bottom row scrolls the top one into the scrollback (the
alternate screen keeps none), and control sequences move the cursor, change the pen and set the
modes. What a sequence makes of a pen, and how wide a character is, are a renderer's.
-/

namespace ServerBox.Std

/-- How characters look. -/
structure Renderer (Pen : Type) where
  /-- The pen after a reset. -/
  plain : Pen
  /-- The pen after `CSI … m`, by its parameters. -/
  select : Text → Pen → Pen
  /-- How many columns a character takes after its first. -/
  furtherColumns : Char → Nat

namespace Emulator

inductive Cell (Pen : Type) where
  | blank
  | glyph (char : Char) (pen : Pen)
  /-- A further column of a wide character. -/
  | spacer
deriving DecidableEq, Repr

/-- The cells of a row up to the last one written; what follows them is blank. -/
abbrev Row (Pen : Type) := List (Cell Pen)

/-- The modes that sequences set. -/
structure Modes where
  insert : Bool
  applicationKeypad : Bool
  /-- The DEC private modes that are set, but for the alternate screen. -/
  dec : List Nat
  /-- The cursor's style, if one was set. -/
  cursorStyle : Option Nat
deriving DecidableEq, Repr

/-- Wrapping and a visible cursor. -/
def Modes.initial : Modes := ⟨false, false, [7, 25], none⟩

def Modes.setDec (modes : Modes) (mode : Nat) (enabled : Bool) : Modes :=
  let others := modes.dec.filter (· ≠ mode)
  { modes with dec := if enabled then others ++ [mode] else others }

theorem Modes.mem_setDec (modes : Modes) (mode other : Nat) (enabled : Bool) :
    other ∈ (modes.setDec mode enabled).dec ↔
      if other = mode then enabled = true else other ∈ modes.dec := by
  unfold setDec
  cases enabled <;> by_cases same : other = mode <;> simp [same]

/-- What the alternate screen keeps of the main one. -/
structure SavedScreen (Pen : Type) where
  rows : List (Row Pen)
  row : Nat
  column : Nat
deriving DecidableEq, Repr

structure Screen (Pen : Type) where
  height : Nat
  columns : Nat
  rows : List (Row Pen)
  /-- The oldest first. -/
  scrollback : List (Row Pen)
  row : Nat
  column : Nat
  pen : Pen
  modes : Modes
  /-- The main screen, under the alternate one. -/
  main : Option (SavedScreen Pen)
deriving DecidableEq, Repr

namespace Screen

variable {Pen : Type} (renderer : Renderer Pen) (screen : Screen Pen)

def blank (height columns : Nat) : Screen Pen where
  height
  columns
  rows := List.replicate height []
  scrollback := []
  row := 0
  column := 0
  pen := renderer.plain
  modes := .initial
  main := none

/-- `RIS`. -/
def reset : Screen Pen :=
  { blank renderer screen.height screen.columns with scrollback := screen.scrollback }

/-! ### Drawing -/

def cells (pen : Pen) (char : Char) : Row Pen :=
  .glyph char pen :: List.replicate (renderer.furtherColumns char) .spacer

/-- Cells put over a row, or into it, at a column. -/
def putCells (insert : Bool) (columns column : Nat) (put row : Row Pen) : Row Pen :=
  let before := row.take column ++ List.replicate (column - row.length) .blank
  if insert then (before ++ put ++ row.drop column).take columns
  else before ++ put ++ row.drop (column + put.length)

/-- The top row scrolls off. -/
def scroll : Screen Pen :=
  { screen with
    rows := screen.rows.drop 1 ++ [[]]
    scrollback :=
      if screen.main.isSome then screen.scrollback else screen.scrollback ++ screen.rows.take 1 }

def lineFeed : Screen Pen :=
  if screen.row + 1 < screen.height then { screen with row := screen.row + 1 } else screen.scroll

def carriageReturn : Screen Pen := { screen with column := 0 }

/-- Room for a character at the cursor: on the next row where the modes wrap. -/
def makeRoom (width : Nat) : Screen Pen :=
  if screen.column + width ≤ screen.columns then screen
  else if 7 ∈ screen.modes.dec then screen.lineFeed.carriageReturn
  else { screen with column := screen.columns - width }

def put (char : Char) : Screen Pen :=
  let put := cells renderer screen.pen char
  let room := screen.makeRoom put.length
  { room with
    rows := room.rows.modify room.row (putCells room.modes.insert room.columns room.column put)
    column := room.column + put.length }

/-! ### Control sequences -/

/-- To a row and a column, each counted from one. -/
def moveTo (row column : Nat) : Screen Pen :=
  { screen with
    row := min (row - 1) (screen.height - 1)
    column := min (column - 1) (screen.columns - 1) }

/-- The alternate screen, blank, over the main one. -/
def enterAlternate : Screen Pen :=
  match screen.main with
  | some _ => screen
  | none =>
      { screen with
        rows := List.replicate screen.height []
        main := some ⟨screen.rows, screen.row, screen.column⟩ }

def leaveAlternate : Screen Pen :=
  match screen.main with
  | some saved =>
      { screen with rows := saved.rows, row := saved.row, column := saved.column, main := none }
  | none => screen

/-- A DEC private mode. -/
def setDec (mode : Nat) (enabled : Bool) : Screen Pen :=
  if mode = 1049 then (if enabled then screen.enterAlternate else screen.leaveAlternate)
  else { screen with modes := screen.modes.setDec mode enabled }

def setAnsi (mode : Nat) (enabled : Bool) : Screen Pen :=
  if mode = 4 then { screen with modes := { screen.modes with insert := enabled } } else screen

def setMode (parameters : Text) (enabled : Bool) : Screen Pen :=
  match parameters with
  | '?' :: mode => screen.setDec (Text.digitsValue mode) enabled
  | mode => screen.setAnsi (Text.digitsValue mode) enabled

/-- `CSI`, parameters and a last character. -/
def control (parameters : Text) (final : Char) : Screen Pen :=
  if final = 'H' then
    match Text.splitOnce ';' parameters with
    | some (row, column) => screen.moveTo (Text.digitsValue row) (Text.digitsValue column)
    | none => screen.moveTo (Text.digitsValue parameters) 1
  else if final = 'm' then { screen with pen := renderer.select parameters screen.pen }
  else if final = 'h' then screen.setMode parameters true
  else if final = 'l' then screen.setMode parameters false
  else if final = 'q' then
    match Text.splitOnce ' ' parameters with
    | some (style, _) =>
        { screen with
          modes := { screen.modes with cursorStyle := some (Text.digitsValue style) } }
    | none => screen
  else screen

end Screen

/-! ### Reading -/

inductive Reading where
  | ground
  | escape
  | sequence (parameters : Text)
deriving DecidableEq, Repr

end Emulator

/-- A terminal and how far it is in a sequence. -/
structure Emulator (Pen : Type) where
  reading : Emulator.Reading
  screen : Emulator.Screen Pen
deriving DecidableEq, Repr

namespace Emulator

variable {Pen : Type} (renderer : Renderer Pen)

/-- The characters that end a control sequence. -/
def isFinal (char : Char) : Bool := '@' ≤ char && char ≤ '~'

def readChar (emulator : Emulator Pen) (char : Char) : Emulator Pen :=
  let screen := emulator.screen
  match emulator.reading with
  | .ground =>
      if char = '\x1b' then ⟨.escape, screen⟩
      else if char = '\r' then ⟨.ground, screen.carriageReturn⟩
      else if char = '\n' then ⟨.ground, screen.lineFeed⟩
      else if char < ' ' then emulator
      else ⟨.ground, screen.put renderer char⟩
  | .escape =>
      if char = '[' then ⟨.sequence [], screen⟩
      else if char = 'c' then ⟨.ground, screen.reset renderer⟩
      else if char = '=' then
        ⟨.ground, { screen with modes := { screen.modes with applicationKeypad := true } }⟩
      else if char = '>' then
        ⟨.ground, { screen with modes := { screen.modes with applicationKeypad := false } }⟩
      else ⟨.ground, screen⟩
  | .sequence parameters =>
      if isFinal char then ⟨.ground, screen.control renderer parameters char⟩
      else ⟨.sequence (parameters ++ [char]), screen⟩

def feed (emulator : Emulator Pen) (text : Text) : Emulator Pen :=
  text.foldl (readChar renderer) emulator

theorem feed_append (emulator : Emulator Pen) (front back : Text) :
    feed renderer emulator (front ++ back) = feed renderer (feed renderer emulator front) back :=
  List.foldl_append

end Emulator

end ServerBox.Std
