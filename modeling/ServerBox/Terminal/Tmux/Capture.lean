import ServerBox.Terminal.Tmux.PaneMode

/-!
# A captured pane, replayed

`_captureActivePane` of `lib/data/terminal/tmux/tmux_control_client.dart`, from the captured lines
to what the terminal is given: the history in chunks of a view each, which line feeds scroll off,
then the rows of the screen and the cursor. The text is encoded as UTF-8 on its way and decoded by
the terminal, which is no part of this.
-/

namespace ServerBox.Terminal.Tmux

open ServerBox.Std ServerBox.Std.Emulator

/-- What the replay reads of `TmuxControlPane`. -/
structure TmuxControlPane where
  cursorX : Nat
  cursorY : Nat
  height : Nat
deriving DecidableEq, Repr

/-- What a capture was asked with, and the lines it gave. -/
structure Capture where
  mode : TmuxPaneModeSnapshot
  activePane : Option TmuxControlPane
  /-- `_historyLimit`. -/
  historyLimit : Nat
  maxScrollbackLines : Nat
  /-- `_viewHeight`, from the last `resizeWindow`. -/
  view : Option Nat
  lines : List Line

namespace Capture

variable (capture : Capture)

/-! ### What is shown -/

def paneHeight : Nat := (capture.activePane.map TmuxControlPane.height).getD 24

def cursorX : Nat := (capture.activePane.map TmuxControlPane.cursorX).getD 0

def cursorY : Nat := (capture.activePane.map TmuxControlPane.cursorY).getD 0

def captureHistory : Bool :=
  !capture.mode.alternateScreen && 0 < min capture.historyLimit capture.maxScrollbackLines

def viewHeight : Nat := capture.view.getD capture.paneHeight

def historyCount : Nat :=
  if capture.captureHistory && capture.lines.length > capture.paneHeight then
    capture.lines.length - capture.paneHeight
  else 0

def screenCount : Nat := capture.lines.length - capture.historyCount

/-- A difference below zero is zero here, and by `math.max` in the source. -/
def shift : Nat := min (capture.screenCount - capture.viewHeight) capture.cursorY

def screenStart : Nat := capture.historyCount + capture.shift

def screenEnd : Nat := min capture.lines.length (capture.screenStart + capture.viewHeight)

def scrolledOff : Nat :=
  if capture.mode.alternateScreen then capture.historyCount else capture.screenStart

/-- `sublist`. -/
def sublist (start finish : Nat) : List Line := (capture.lines.take finish).drop start

/-! ### What is written -/

def chunkText (chunk : List Line) : Text :=
  rowsText 0 chunk ++ cursorTo capture.viewHeight 1 ++ lineFeeds chunk.length

/-- The chunks from one line on, each of as many turns of the loop; nothing where there are more. -/
def historyText (turns start : Nat) : Option Text :=
  match turns with
  | 0 => none
  | turns + 1 =>
      if start < capture.scrolledOff then
        let chunk :=
          capture.sublist start (min (start + capture.viewHeight) capture.scrolledOff)
        (historyText turns (start + capture.viewHeight)).map fun later =>
          capture.chunkText chunk ++ later
      else some []

/-- What the pane's terminal is given. Each turn that ends takes a line, so that a loop which is
not over after one turn more than there are lines never is. -/
def replay : Option Text :=
  (capture.historyText (capture.lines.length + 1) 0).map fun captured =>
    ['\x1b', 'c'] ++ capture.mode.restorePrefix ++ captured ++
      rowsText 0 (capture.sublist capture.screenStart capture.screenEnd) ++
      cursorTo (capture.cursorY - capture.shift + 1) (capture.cursorX + 1)

/-! ### How it looks -/

variable {Pen : Type} (renderer : Renderer Pen)

/-- The captured lines as the pane shows them. -/
def look : List (Row Pen) := (drawLines renderer renderer.plain capture.lines).1

/-- Rows from the top of a view, and blank ones below them. -/
def padded (height : Nat) (rows : List (Row Pen)) : List (Row Pen) :=
  rows ++ List.replicate (height - rows.length) []

/-- A screen looks as the pane does: its rows from the first one shown on, among them the cursor's,
and, of the main screen, the lines above them in the scrollback. -/
structure Looks (screen : Screen Pen) : Prop where
  rows : screen.rows =
    padded capture.viewHeight
      (((capture.look renderer).drop capture.screenStart).take capture.viewHeight)
  scrollback : screen.scrollback =
    if capture.mode.alternateScreen then [] else (capture.look renderer).take capture.screenStart
  among : capture.screenStart ≤ capture.historyCount + capture.cursorY ∧
    capture.historyCount + capture.cursorY < capture.screenStart + capture.viewHeight
  row : capture.screenStart + screen.row = capture.historyCount + capture.cursorY
  column : screen.column = capture.cursorX

/-- The replay ends, and a blank terminal of the view's height that reads it looks as the pane. -/
def LooksAsPane (columns : Nat) : Prop :=
  ∃ text, capture.replay = some text ∧
    capture.Looks renderer
      (feed renderer ⟨.ground, .blank renderer capture.viewHeight columns⟩ text).screen

/-- The lines that are shown. -/
def shown : List Line := (capture.lines.drop capture.screenStart).take capture.viewHeight

/-- The view has the cursor's row, or the lines reach it; the cursor's column is one of the
terminal's; and of the alternate screen the rows shown do not go on in a pen that rows above them,
which are not written, have changed. -/
structure Fits (columns : Nat) : Prop where
  view : 0 < capture.viewHeight
  cursorY : capture.cursorY < max capture.viewHeight capture.screenCount
  cursorX : capture.cursorX ≤ columns - 1
  pen : capture.mode.alternateScreen = true →
    (drawLines renderer
        (drawLines renderer renderer.plain (capture.lines.take capture.screenStart)).2
        capture.shown).1 =
      (drawLines renderer renderer.plain capture.shown).1

end Capture

end ServerBox.Terminal.Tmux
