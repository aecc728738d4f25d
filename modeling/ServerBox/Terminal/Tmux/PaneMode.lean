import ServerBox.Std.EmulatorFeeds

/-!
# The modes of a tmux pane

`lib/data/terminal/tmux/tmux_pane_mode_snapshot.dart`: what tmux prints of a pane's modes, read into
a snapshot, and the sequences that put a terminal into the same modes before the pane's screen is
written to it.
-/

namespace ServerBox.Terminal.Tmux

open ServerBox.Std ServerBox.Std.Emulator

structure TmuxPaneModeSnapshot where
  alternateScreen : Bool := false
  alternateSavedX : Nat := 0
  alternateSavedY : Nat := 0
  cursorVisible : Bool := true
  cursorBlinking : Bool := false
  cursorShape : Text := "default".toList
  cursorVeryVisible : Bool := false
  insertMode : Bool := false
  originMode : Bool := false
  wrapMode : Bool := true
  applicationCursorKeys : Bool := false
  applicationKeypad : Bool := false
  bracketedPaste : Bool := false
  mouseStandard : Bool := false
  mouseButton : Bool := false
  mouseAny : Bool := false
  mouseAll : Bool := false
  mouseSgr : Bool := false
  mouseUtf8 : Bool := false
  extendedKeyMode : Text := "VT10x".toList
deriving DecidableEq, Repr

namespace TmuxPaneModeSnapshot

/-! ### What tmux prints -/

/-- `int.tryParse` of a number in decimal digits. -/
def parseInt (text : Text) : Option Int :=
  match text with
  | '-' :: '+' :: _ => none
  | '-' :: digits => (Text.parseUnsigned (2 ^ 63) digits).map fun value : Nat => -(value : Int)
  | digits => (Text.parseUnsigned (2 ^ 63 - 1) digits).map fun value : Nat => (value : Int)

/-- `toLowerCase`, of ASCII letters. -/
def toLowerCase (text : Text) : Text := text.map Char.toLower

section

variable (fields : List Text) (index : Nat)

def field : Text := Text.trim (fields.getD index [])

def number (fallback : Int) : Int := (parseInt (field fields index)).getD fallback

def flag (fallback : Bool) : Bool :=
  let value := toLowerCase (field fields index)
  if value.isEmpty then fallback
  else value = "1".toList || value = "true".toList || value = "yes".toList

def word (fallback : Text) : Text :=
  if (field fields index).isEmpty then fallback else field fields index

end

def savedCursor (value : Int) : Nat := if value < 0 ∨ value ≥ 0x7fffffff then 0 else value.toNat

def parse (line : Text) : TmuxPaneModeSnapshot :=
  let fields := line.splitOn '\t'
  if fields.length < 20 then {}
  else
    { alternateScreen := flag fields 0 false
      alternateSavedX := savedCursor (number fields 1 0)
      alternateSavedY := savedCursor (number fields 2 0)
      cursorVisible := flag fields 3 true
      cursorBlinking := flag fields 4 false
      cursorShape := word fields 5 "default".toList
      cursorVeryVisible := flag fields 6 false
      insertMode := flag fields 7 false
      originMode := flag fields 8 false
      wrapMode := flag fields 9 true
      applicationCursorKeys := flag fields 10 false
      applicationKeypad := flag fields 11 false
      bracketedPaste := flag fields 12 false
      mouseStandard := flag fields 13 false
      mouseButton := flag fields 14 false
      mouseAny := flag fields 15 false
      mouseAll := flag fields 16 false
      mouseSgr := flag fields 17 false
      mouseUtf8 := flag fields 18 false
      extendedKeyMode := word fields 19 "VT10x".toList }

/-! ### The sequences that restore them -/

def cursorShapeCode (mode : TmuxPaneModeSnapshot) : Option Nat :=
  let shape := toLowerCase mode.cursorShape
  let base :=
    if shape = "block".toList then some 1
    else if shape = "underline".toList then some 3
    else if shape = "bar".toList then some 5
    else none
  base.map fun base => if mode.cursorBlinking then base else base + 1

/-- tmux's flags name the tracking mode; `mouse_any_flag` is set by any of them. -/
def mouseMode (mode : TmuxPaneModeSnapshot) : Option Nat :=
  if mode.mouseAll then some 1003
  else if mode.mouseButton then some 1002
  else if mode.mouseStandard then some 1000
  else none

def mousePrefix (mode : TmuxPaneModeSnapshot) : Text :=
  match mode.mouseMode with
  | none => []
  | some tracking =>
      decMode tracking true ++
        (if mode.mouseSgr then decMode 1006 true
          else if mode.mouseUtf8 then decMode 1005 true
          else [])

def shapePrefix (mode : TmuxPaneModeSnapshot) : Text :=
  match mode.cursorShapeCode with
  | some code => cursorStyle code
  | none => []

def restorePrefix (mode : TmuxPaneModeSnapshot) : Text :=
  ansiMode 4 mode.insertMode ++ decMode 1 mode.applicationCursorKeys ++
    decMode 6 mode.originMode ++ decMode 7 mode.wrapMode ++ decMode 25 mode.cursorVisible ++
    decMode 12 mode.cursorBlinking ++ decMode 2004 mode.bracketedPaste ++
    mode.shapePrefix ++ mode.mousePrefix ++ ['\x1b', if mode.applicationKeypad then '=' else '>'] ++
    -- Last, since it saves the cursor and clears the screen that is shown from then on.
    (if mode.alternateScreen then
      cursorTo (mode.alternateSavedY + 1) (mode.alternateSavedX + 1) ++ decMode 1049 true
    else [])

/-! ### What a terminal makes of them -/

variable (mode : TmuxPaneModeSnapshot)

def trackedModes (modes : Modes) : Modes :=
  match mode.mouseMode with
  | none => modes
  | some tracking =>
      if mode.mouseSgr then (modes.setDec tracking true).setDec 1006 true
      else if mode.mouseUtf8 then (modes.setDec tracking true).setDec 1005 true
      else modes.setDec tracking true

def restoredModes (modes : Modes) : Modes :=
  let set := (((((({ modes with insert := mode.insertMode }.setDec 1
    mode.applicationCursorKeys).setDec 6 mode.originMode).setDec 7 mode.wrapMode).setDec 25
    mode.cursorVisible).setDec 12 mode.cursorBlinking).setDec 2004 mode.bracketedPaste)
  let shaped := { set with cursorStyle := mode.cursorShapeCode.or set.cursorStyle }
  { mode.trackedModes shaped with applicationKeypad := mode.applicationKeypad }

/-- A screen in the pane's modes. -/
def restored {Pen : Type} (screen : Screen Pen) : Screen Pen :=
  let set := { screen with modes := mode.restoredModes screen.modes }
  if mode.alternateScreen then
    (set.moveTo (mode.alternateSavedY + 1) (mode.alternateSavedX + 1)).enterAlternate
  else set

variable {Pen : Type} (renderer : Renderer Pen)

theorem feed_reset (screen : Screen Pen) :
    feed renderer ⟨.ground, screen⟩ ['\x1b', 'c'] = ⟨.ground, screen.reset renderer⟩ := by
  simp [feed, readChar]

theorem feed_keypad (screen : Screen Pen) (application : Bool) :
    feed renderer ⟨.ground, screen⟩ ['\x1b', if application then '=' else '>'] =
      ⟨.ground, { screen with
        modes := { screen.modes with applicationKeypad := application } }⟩ := by
  cases application <;> simp [feed, readChar]

theorem feed_shapePrefix (screen : Screen Pen) :
    feed renderer ⟨.ground, screen⟩ mode.shapePrefix =
      ⟨.ground, { screen with
        modes := { screen.modes with
          cursorStyle := mode.cursorShapeCode.or screen.modes.cursorStyle } }⟩ := by
  unfold shapePrefix
  cases mode.cursorShapeCode with
  | none => rfl
  | some code => exact feed_cursorStyle renderer screen code

theorem mouseMode_ne {tracking : Nat} (tracks : mode.mouseMode = some tracking) :
    tracking ≠ 1049 := by
  unfold mouseMode at tracks
  grind

theorem setDec_of_ne (screen : Screen Pen) {number : Nat} (other : number ≠ 1049)
    (enabled : Bool) :
    screen.setDec number enabled =
      { screen with modes := screen.modes.setDec number enabled } := if_neg other

theorem feed_mousePrefix (screen : Screen Pen) :
    feed renderer ⟨.ground, screen⟩ mode.mousePrefix =
      ⟨.ground, { screen with modes := mode.trackedModes screen.modes }⟩ := by
  unfold mousePrefix trackedModes
  cases tracks : mode.mouseMode with
  | none => rfl
  | some tracking =>
      have other := mode.mouseMode_ne tracks
      rw [feed_append, feed_decMode, setDec_of_ne screen other]
      dsimp only
      split
      next => rw [feed_decMode, setDec_of_ne _ (by decide)]
      next =>
        split
        next => rw [feed_decMode, setDec_of_ne _ (by decide)]
        next => rfl

/-- A terminal that reads the prefix is in the pane's modes. -/
theorem feed_restorePrefix (screen : Screen Pen) :
    feed renderer ⟨.ground, screen⟩ mode.restorePrefix = ⟨.ground, mode.restored screen⟩ := by
  unfold restorePrefix restored restoredModes
  simp only [feed_append, feed_ansiMode, feed_decMode, feed_shapePrefix, feed_mousePrefix,
    feed_keypad, Screen.setAnsi, if_true, setDec_of_ne _ (show (1 : Nat) ≠ 1049 by decide),
    setDec_of_ne _ (show (6 : Nat) ≠ 1049 by decide),
    setDec_of_ne _ (show (7 : Nat) ≠ 1049 by decide),
    setDec_of_ne _ (show (25 : Nat) ≠ 1049 by decide),
    setDec_of_ne _ (show (12 : Nat) ≠ 1049 by decide),
    setDec_of_ne _ (show (2004 : Nat) ≠ 1049 by decide)]
  cases mode.alternateScreen with
  | false => rfl
  | true =>
      simp only [if_true, feed_append, feed_cursorTo, feed_decMode]
      rfl

/-! ### The same modes -/

/-- The DEC private modes that a terminal is in with the pane. -/
def sets (number : Nat) : Bool :=
  match number with
  | 1 => mode.applicationCursorKeys
  | 6 => mode.originMode
  | 7 => mode.wrapMode
  | 12 => mode.cursorBlinking
  | 25 => mode.cursorVisible
  | 1005 => mode.mouseMode.isSome && !mode.mouseSgr && mode.mouseUtf8
  | 1006 => mode.mouseMode.isSome && mode.mouseSgr
  | 2004 => mode.bracketedPaste
  | number => mode.mouseMode == some number

theorem mem_trackedModes (modes : Modes) (number : Nat) :
    number ∈ (mode.trackedModes modes).dec ↔
      mode.mouseMode = some number ∨ number ∈ modes.dec ∨
        (number = 1006 ∧ mode.mouseMode.isSome = true ∧ mode.mouseSgr = true) ∨
        (number = 1005 ∧ mode.mouseMode.isSome = true ∧ mode.mouseSgr = false ∧
          mode.mouseUtf8 = true) := by
  unfold trackedModes
  cases mode.mouseMode with
  | none => simp
  | some tracking =>
      cases mode.mouseSgr <;> cases mode.mouseUtf8 <;>
        simp [Modes.mem_setDec] <;> grind

theorem trackedModes_keeps (modes : Modes) :
    (mode.trackedModes modes).insert = modes.insert ∧
      (mode.trackedModes modes).cursorStyle = modes.cursorStyle := by
  unfold trackedModes
  split
  next => exact ⟨rfl, rfl⟩
  next =>
    split
    next => exact ⟨rfl, rfl⟩
    next => split <;> exact ⟨rfl, rfl⟩

theorem mouseMode_mem {tracking : Nat} (tracks : mode.mouseMode = some tracking) :
    tracking = 1000 ∨ tracking = 1002 ∨ tracking = 1003 := by
  unfold mouseMode at tracks
  grind

theorem mem_restoredModes (number : Nat) :
    number ∈ (mode.restoredModes .initial).dec ↔ mode.sets number = true := by
  have tracking := @mouseMode_mem mode number
  unfold restoredModes
  rw [mem_trackedModes]
  simp only [Modes.mem_setDec, Modes.initial]
  unfold sets
  split <;> grind

/-! ### From tmux's words to the terminal's modes -/

def flagText (value : Bool) : Text := if value then ['1'] else ['0']

/-- The fields of `queryFormat`. -/
def fields : List Text :=
  [flagText mode.alternateScreen, Text.decimal mode.alternateSavedX,
    Text.decimal mode.alternateSavedY, flagText mode.cursorVisible, flagText mode.cursorBlinking,
    mode.cursorShape, flagText mode.cursorVeryVisible, flagText mode.insertMode,
    flagText mode.originMode, flagText mode.wrapMode, flagText mode.applicationCursorKeys,
    flagText mode.applicationKeypad, flagText mode.bracketedPaste, flagText mode.mouseStandard,
    flagText mode.mouseButton, flagText mode.mouseAny, flagText mode.mouseAll,
    flagText mode.mouseSgr, flagText mode.mouseUtf8, mode.extendedKeyMode]

/-- What tmux prints of a pane. -/
def printed : Text := Text.join '\t' mode.fields

/-- The words that tmux names modes with, and positions of a cursor that was saved. -/
structure Printable : Prop where
  shape : mode.cursorShape ≠ [] ∧
    ∀ char ∈ mode.cursorShape, Text.isWhitespace char = false
  keys : mode.extendedKeyMode ≠ [] ∧
    ∀ char ∈ mode.extendedKeyMode, Text.isWhitespace char = false
  savedX : mode.alternateSavedX < 0x7fffffff
  savedY : mode.alternateSavedY < 0x7fffffff

section

variable {fields : List Text} {index : Nat}

theorem flag_of_getD {value fallback : Bool} (held : fields.getD index [] = flagText value) :
    flag fields index fallback = value := by
  unfold flag field
  rw [held]
  cases value <;> rfl

theorem word_of_getD {value fallback : Text} (held : fields.getD index [] = value)
    (nonempty : value ≠ []) (solid : ∀ char ∈ value, Text.isWhitespace char = false) :
    word fields index fallback = value := by
  unfold word field
  rw [held, Text.trim_eq_self solid, if_neg (by simpa using nonempty)]

theorem parseInt_decimal {value : Nat} (bounded : value ≤ 2 ^ 63 - 1) :
    parseInt (Text.decimal value) = some (value : Int) := by
  have digit : ∀ char ∈ Text.decimal value, char.isDigit = true := fun _ held =>
    Text.isDigit_of_mem_decimal held
  have noSign : (Text.decimal value).head? ≠ some '+' := fun sign =>
    absurd (digit '+' (List.mem_of_head? sign)) (by decide)
  have parsed : Text.parseUnsigned (2 ^ 63 - 1) (Text.decimal value) = some value := by
    have nonempty : (!(Text.decimal value).isEmpty) = true := by
      rw [Bool.not_eq_true', List.isEmpty_eq_false_iff]
      exact Text.decimal_ne_nil value
    unfold Text.parseUnsigned
    rw [if_neg noSign]
    dsimp only
    rw [Text.digitsValue_decimal, if_pos]
    rw [Bool.and_eq_true, Bool.and_eq_true, List.all_eq_true, decide_eq_true_eq]
    exact ⟨⟨nonempty, digit⟩, bounded⟩
  unfold parseInt
  split
  next rest shape => exact absurd (digit '-' (shape ▸ List.mem_cons_self)) (by decide)
  next rest _ shape => exact absurd (digit '-' (shape ▸ List.mem_cons_self)) (by decide)
  next => rw [parsed, Option.map_some]

theorem savedCursor_of_getD {value : Nat} (held : fields.getD index [] = Text.decimal value)
    (bounded : value < 0x7fffffff) : savedCursor (number fields index 0) = value := by
  have solid : ∀ char ∈ Text.decimal value, Text.isWhitespace char = false := fun _ digit =>
    Text.not_isWhitespace_of_isDigit (Text.isDigit_of_mem_decimal digit)
  unfold number field
  rw [held, Text.trim_eq_self solid, parseInt_decimal (by omega), Option.getD_some, savedCursor,
    if_neg (by omega), Int.toNat_natCast]

end

theorem not_mem_of_solid {text : Text} (solid : ∀ char ∈ text, Text.isWhitespace char = false) :
    '\t' ∉ text := fun held => absurd (solid '\t' held) (by decide)

/-- What tmux prints is read as the modes it is printed for. -/
theorem parse_printed (printable : mode.Printable) : parse mode.printed = mode := by
  obtain ⟨⟨shape, solidShape⟩, ⟨keys, solidKeys⟩, savedX, savedY⟩ := printable
  have noTab : ∀ value, '\t' ∉ flagText value := by decide
  have noTabDecimal : ∀ value, '\t' ∉ Text.decimal value := fun value held =>
    absurd (Text.isDigit_of_mem_decimal held) (by decide)
  have split : mode.printed.splitOn '\t' = mode.fields := List.splitOn_intercalate '\t' (by
    simp [fields, noTab, noTabDecimal, not_mem_of_solid solidShape, not_mem_of_solid solidKeys])
    (List.cons_ne_nil _ _)
  have flags := @flag_of_getD mode.fields
  have words := @word_of_getD mode.fields
  have saved := @savedCursor_of_getD mode.fields
  have enough : ¬ mode.fields.length < 20 := Nat.lt_irrefl 20
  unfold parse
  rw [split]
  dsimp only
  rw [if_neg enough, @flags 0 mode.alternateScreen false rfl,
    @saved 1 mode.alternateSavedX rfl savedX, @saved 2 mode.alternateSavedY rfl savedY,
    @flags 3 mode.cursorVisible true rfl, @flags 4 mode.cursorBlinking false rfl,
    @words 5 mode.cursorShape "default".toList rfl shape solidShape,
    @flags 6 mode.cursorVeryVisible false rfl, @flags 7 mode.insertMode false rfl,
    @flags 8 mode.originMode false rfl, @flags 9 mode.wrapMode true rfl,
    @flags 10 mode.applicationCursorKeys false rfl, @flags 11 mode.applicationKeypad false rfl,
    @flags 12 mode.bracketedPaste false rfl, @flags 13 mode.mouseStandard false rfl,
    @flags 14 mode.mouseButton false rfl, @flags 15 mode.mouseAny false rfl,
    @flags 16 mode.mouseAll false rfl, @flags 17 mode.mouseSgr false rfl,
    @flags 18 mode.mouseUtf8 false rfl,
    @words 19 mode.extendedKeyMode "VT10x".toList rfl keys solidKeys]

/-- An editor on the alternate screen that follows the mouse. -/
def editor : TmuxPaneModeSnapshot :=
  { alternateScreen := true
    alternateSavedY := 7
    cursorShape := "bar".toList
    applicationKeypad := true
    mouseButton := true
    mouseAny := true
    mouseSgr := true }

/-- A renderer whose pen is the last selection. -/
def lastSelection : Renderer Text := ⟨[], fun parameters _ => parameters, fun _ => 0⟩

end TmuxPaneModeSnapshot

end ServerBox.Terminal.Tmux
