import ServerBox.Terminal.Tmux.Capture

/-!
# A replayed capture looks as the pane

What a blank terminal of the view's height has after the replay (`exists_replay`): the history is
pushed chunk by chunk, each once and in order, and the rows shown are drawn from the pen that the
lines above them leave. So it looks as the pane exactly when the cursor's row is in the view or the
lines reach it, the terminal has its column, and no pen is lost with rows that are not written
(`looksAsPane_iff`).
-/

namespace ServerBox.Terminal.Tmux.Capture

open ServerBox.Std ServerBox.Std.Emulator

variable (capture : Capture)

/-! ### The sizes add up -/

theorem historyCount_le : capture.historyCount ≤ capture.lines.length := by
  unfold historyCount
  split <;> omega

theorem historyCount_eq_zero (alternate : capture.mode.alternateScreen = true) :
    capture.historyCount = 0 := by
  simp [historyCount, captureHistory, alternate]

theorem screenStart_le : capture.screenStart ≤ capture.lines.length := by
  have history := capture.historyCount_le
  unfold screenStart shift screenCount
  omega

theorem scrolledOff_eq (main : capture.mode.alternateScreen = false) :
    capture.scrolledOff = capture.screenStart := by
  simp [scrolledOff, main]

theorem scrolledOff_eq_zero (alternate : capture.mode.alternateScreen = true) :
    capture.scrolledOff = 0 := by
  simp [scrolledOff, alternate, capture.historyCount_eq_zero alternate]

theorem scrolledOff_le : capture.scrolledOff ≤ capture.lines.length := by
  cases alternate : capture.mode.alternateScreen with
  | true =>
      rw [capture.scrolledOff_eq_zero alternate]
      omega
  | false => exact capture.scrolledOff_eq alternate ▸ capture.screenStart_le

theorem shift_le_cursorY : capture.shift ≤ capture.cursorY := Nat.min_le_right _ _

/-- The cursor's row is in the view exactly when the view has it from the top, or the lines reach
it. -/
theorem cursorY_in_view (view : 0 < capture.viewHeight) :
    capture.cursorY < capture.shift + capture.viewHeight ↔
      capture.cursorY < max capture.viewHeight capture.screenCount := by
  unfold shift
  omega

theorem sublist_shown : capture.sublist capture.screenStart capture.screenEnd = capture.shown := by
  have start := capture.screenStart_le
  unfold sublist screenEnd shown
  rw [List.drop_take, List.take_eq_take_iff, List.length_drop]
  omega

theorem length_shown_le : capture.shown.length ≤ capture.viewHeight := by
  rw [shown, List.length_take]
  exact Nat.min_le_left _ _

/-! ### What is read of it -/

variable {Pen : Type} (renderer : Renderer Pen)

/-- A screen of the view's height with nothing on it. -/
structure Cleared (screen : Screen Pen) : Prop where
  rows : screen.rows = List.replicate capture.viewHeight []
  height : screen.height = capture.viewHeight
  fits : ∀ line ∈ capture.lines, line.width renderer ≤ screen.columns

variable {capture renderer} {screen : Screen Pen}

/-- Lines written from the top of a cleared screen. -/
theorem Cleared.feed_rows (cleared : capture.Cleared renderer screen) (lines : List Line)
    (ours : ∀ line ∈ lines, line ∈ capture.lines) (few : lines.length ≤ capture.viewHeight) :
    ∃ row column,
      feed renderer ⟨.ground, screen⟩ (rowsText 0 lines) =
        ⟨.ground, { screen with
          rows := padded capture.viewHeight (drawLines renderer screen.pen lines).1
          pen := (drawLines renderer screen.pen lines).2
          row, column }⟩ := by
  have rows : screen.rows =
      [] ++ List.replicate (lines.length + (capture.viewHeight - lines.length)) [] := by
    rw [cleared.rows, Nat.add_sub_cancel' few, List.nil_append]
  have height : screen.rows.length = screen.height := by
    rw [cleared.rows, List.length_replicate, cleared.height]
  obtain ⟨row, column, drawn⟩ := Emulator.feed_rows renderer rows height
    fun line held => cleared.fits line (ours line held)
  exact ⟨row, column, by simpa [padded] using drawn⟩

/-- A chunk goes into the scrollback, and the screen is cleared again. -/
theorem Cleared.feed_chunk (cleared : capture.Cleared renderer screen) {chunk : List Line}
    (ours : ∀ line ∈ chunk, line ∈ capture.lines) (few : chunk.length ≤ capture.viewHeight)
    (view : 0 < capture.viewHeight) (main : screen.main = none) :
    ∃ row column,
      feed renderer ⟨.ground, screen⟩ (capture.chunkText chunk) =
        ⟨.ground, { screen with
          scrollback := screen.scrollback ++ (drawLines renderer screen.pen chunk).1
          pen := (drawLines renderer screen.pen chunk).2
          row, column }⟩ := by
  obtain ⟨row, column, drawn⟩ := cleared.feed_rows chunk ours few
  have bottom : min (capture.viewHeight - 1) (screen.height - 1) + 1 = screen.height := by
    rw [cleared.height]
    omega
  have length : chunk.length = (drawLines renderer screen.pen chunk).1.length := by simp
  refine ⟨min (capture.viewHeight - 1) (screen.height - 1), 0, ?_⟩
  rw [chunkText, feed_append, feed_append, drawn, feed_cursorTo,
    feed_lineFeeds renderer (by simp [Screen.moveTo, padded]) bottom (by simp [Screen.moveTo])]
  have scrolled : (padded capture.viewHeight (drawLines renderer screen.pen chunk).1).drop
      chunk.length ++ List.replicate chunk.length [] = screen.rows := by
    rw [padded, length, List.drop_left, ← List.replicate_add, cleared.rows]
    congr 1
    omega
  have pushed : (padded capture.viewHeight (drawLines renderer screen.pen chunk).1).take
      chunk.length = (drawLines renderer screen.pen chunk).1 := by
    rw [padded, length, List.take_left]
  simp [Screen.moveTo, scrolled, pushed, main]

theorem sublist_eq_append {start : Nat} (more : start < capture.scrolledOff) :
    capture.sublist start capture.scrolledOff =
      capture.sublist start (min (start + capture.viewHeight) capture.scrolledOff) ++
        capture.sublist (start + capture.viewHeight) capture.scrolledOff := by
  unfold sublist
  rw [List.drop_take, List.drop_take, List.drop_take, ← List.drop_drop]
  by_cases whole : start + capture.viewHeight ≤ capture.scrolledOff
  · have first : min (start + capture.viewHeight) capture.scrolledOff - start =
        capture.viewHeight := by omega
    have all : capture.scrolledOff - start =
        capture.viewHeight + (capture.scrolledOff - (start + capture.viewHeight)) := by omega
    rw [first, all, List.take_add]
  · have first : min (start + capture.viewHeight) capture.scrolledOff = capture.scrolledOff := by
      omega
    have last : capture.scrolledOff - (start + capture.viewHeight) = 0 := by omega
    rw [first, last, List.take_zero, List.append_nil]

theorem mem_of_mem_sublist {start finish : Nat} {line : Line}
    (held : line ∈ capture.sublist start finish) : line ∈ capture.lines :=
  List.mem_of_mem_take (List.mem_of_mem_drop held)

/-- The loop pushes the lines from its start on, each once and in order. -/
theorem Cleared.exists_history (cleared : capture.Cleared renderer screen)
    (view : 0 < capture.viewHeight) (main : 0 < capture.scrolledOff → screen.main = none)
    (turns start : Nat) (turn : 0 < turns) (enough : capture.scrolledOff < start + turns) :
    ∃ text row column, capture.historyText turns start = some text ∧
      feed renderer ⟨.ground, screen⟩ text =
        ⟨.ground, { screen with
          scrollback := screen.scrollback ++
            (drawLines renderer screen.pen (capture.sublist start capture.scrolledOff)).1
          pen := (drawLines renderer screen.pen (capture.sublist start capture.scrolledOff)).2
          row, column }⟩ := by
  induction turns generalizing start screen with
  | zero => exact absurd turn (Nat.lt_irrefl 0)
  | succ turns inductionHypothesis =>
      rw [historyText]
      by_cases more : start < capture.scrolledOff
      · have few : (capture.sublist start
            (min (start + capture.viewHeight) capture.scrolledOff)).length ≤
              capture.viewHeight := by
          rw [sublist, List.length_drop, List.length_take]
          omega
        obtain ⟨row, column, chunk⟩ := cleared.feed_chunk (fun _ => mem_of_mem_sublist) few view
          (main (by omega))
        obtain ⟨text, row, column, later, rest⟩ := @inductionHypothesis
          { screen with
            scrollback := screen.scrollback ++ (drawLines renderer screen.pen (capture.sublist
              start (min (start + capture.viewHeight) capture.scrolledOff))).1
            pen := (drawLines renderer screen.pen (capture.sublist start
              (min (start + capture.viewHeight) capture.scrolledOff))).2
            row, column }
          ⟨cleared.rows, cleared.height, cleared.fits⟩ main (start + capture.viewHeight) (by omega)
          (by omega)
        refine ⟨_, row, column, by rw [if_pos more, later]; rfl, ?_⟩
        rw [feed_append, chunk, rest, sublist_eq_append more, drawLines_append]
        simp
      · have none : capture.sublist start capture.scrolledOff = [] := by
          rw [sublist, List.drop_eq_nil_iff, List.length_take]
          omega
        refine ⟨[], screen.row, screen.column, if_neg more, ?_⟩
        simp [feed, none, drawLines]

variable (capture renderer)

/-- The screen the pane's modes leave is cleared, and has the alternate screen's room for rows that
scroll off exactly when the pane does. -/
theorem cleared_restored {columns : Nat}
    (fits : ∀ line ∈ capture.lines, line.width renderer ≤ columns) :
    capture.Cleared renderer
      (capture.mode.restored (Screen.blank renderer capture.viewHeight columns)) := by
  unfold TmuxPaneModeSnapshot.restored
  cases capture.mode.alternateScreen with
  | true => exact ⟨rfl, rfl, fits⟩
  | false => exact ⟨rfl, rfl, fits⟩

theorem main_restored {columns : Nat} (scrolls : 0 < capture.scrolledOff) :
    (capture.mode.restored (Screen.blank renderer capture.viewHeight columns)).main = none := by
  cases alternate : capture.mode.alternateScreen with
  | true =>
      rw [capture.scrolledOff_eq_zero alternate] at scrolls
      exact absurd scrolls (Nat.lt_irrefl 0)
  | false => simp [TmuxPaneModeSnapshot.restored, alternate, Screen.blank]

theorem restored_plain (columns : Nat) :
    (capture.mode.restored (Screen.blank renderer capture.viewHeight columns)).scrollback = [] ∧
    (capture.mode.restored (Screen.blank renderer capture.viewHeight columns)).pen =
      renderer.plain ∧
    (capture.mode.restored (Screen.blank renderer capture.viewHeight columns)).columns = columns ∧
    (capture.mode.restored (Screen.blank renderer capture.viewHeight columns)).height =
      capture.viewHeight := by
  unfold TmuxPaneModeSnapshot.restored
  cases capture.mode.alternateScreen with
  | true => exact ⟨rfl, rfl, rfl, rfl⟩
  | false => exact ⟨rfl, rfl, rfl, rfl⟩

/-- The lines that are pushed, drawn, and the pen they leave. -/
def pushed : List (Row Pen) × Pen :=
  drawLines renderer renderer.plain (capture.lines.take capture.scrolledOff)

/-- What the terminal has after the replay. -/
theorem exists_replay {columns : Nat} (view : 0 < capture.viewHeight)
    (fits : ∀ line ∈ capture.lines, line.width renderer ≤ columns) :
    ∃ text screen, capture.replay = some text ∧
      feed renderer ⟨.ground, .blank renderer capture.viewHeight columns⟩ text =
        ⟨.ground, screen⟩ ∧
      screen.rows = padded capture.viewHeight
        (drawLines renderer (capture.pushed renderer).2 capture.shown).1 ∧
      screen.scrollback = (capture.pushed renderer).1 ∧
      screen.row = min (capture.cursorY - capture.shift) (capture.viewHeight - 1) ∧
      screen.column = min capture.cursorX (columns - 1) := by
  have cleared := capture.cleared_restored renderer fits
  obtain ⟨scrollback, pen, width, height⟩ :=
    capture.restored_plain renderer columns
  obtain ⟨history, row, column, captured, pushes⟩ := cleared.exists_history view
    (capture.main_restored renderer) (capture.lines.length + 1) 0 (Nat.succ_pos _)
    (by have := capture.scrolledOff_le; omega)
  have all : capture.sublist 0 capture.scrolledOff = capture.lines.take capture.scrolledOff := rfl
  rw [scrollback, pen, all, List.nil_append, ← pushed] at pushes
  have after : capture.Cleared renderer
      { capture.mode.restored (Screen.blank renderer capture.viewHeight columns) with
        scrollback := (capture.pushed renderer).1
        pen := (capture.pushed renderer).2
        row, column } := ⟨cleared.rows, cleared.height, cleared.fits⟩
  obtain ⟨row', column', rows⟩ := after.feed_rows capture.shown
    (fun line held => List.mem_of_mem_drop (List.mem_of_mem_take held)) capture.length_shown_le
  have ends : capture.replay = some (['\x1b', 'c'] ++ capture.mode.restorePrefix ++ history ++
      rowsText 0 (capture.sublist capture.screenStart capture.screenEnd) ++
      cursorTo (capture.cursorY - capture.shift + 1) (capture.cursorX + 1)) := by
    rw [replay, captured]
    rfl
  refine ⟨_, Screen.moveTo
    { capture.mode.restored (Screen.blank renderer capture.viewHeight columns) with
      rows := padded capture.viewHeight
        (drawLines renderer (capture.pushed renderer).2 capture.shown).1
      scrollback := (capture.pushed renderer).1
      pen := (drawLines renderer (capture.pushed renderer).2 capture.shown).2
      row := row'
      column := column' }
    (capture.cursorY - capture.shift + 1) (capture.cursorX + 1), ends, ?_, rfl, rfl, ?_, ?_⟩
  · rw [feed_append, feed_append, feed_append, feed_append, TmuxPaneModeSnapshot.feed_reset]
    have blank : (Screen.blank renderer capture.viewHeight columns).reset renderer =
        Screen.blank renderer capture.viewHeight columns := rfl
    rw [blank, TmuxPaneModeSnapshot.feed_restorePrefix, pushes, capture.sublist_shown, rows,
      feed_cursorTo]
  · simp [Screen.moveTo, height]
  · simp [Screen.moveTo, width]

/-! ### As the pane -/

/-- The rows of the pane that are shown. -/
theorem look_shown :
    ((capture.look renderer).drop capture.screenStart).take capture.viewHeight =
      (drawLines renderer
        (drawLines renderer renderer.plain (capture.lines.take capture.screenStart)).2
        capture.shown).1 := by
  rw [look, drop_drawLines, take_drawLines, shown]

theorem pushed_main (main : capture.mode.alternateScreen = false) :
    capture.pushed renderer =
      drawLines renderer renderer.plain (capture.lines.take capture.screenStart) := by
  rw [pushed, capture.scrolledOff_eq main]

theorem pushed_alternate (alternate : capture.mode.alternateScreen = true) :
    capture.pushed renderer = ([], renderer.plain) := by
  rw [pushed, capture.scrolledOff_eq_zero alternate, List.take_zero]
  rfl

variable {capture} in
theorem padded_inj {rows other : List (Row Pen)} (same : rows.length = other.length) :
    padded capture.viewHeight rows = padded capture.viewHeight other ↔ rows = other := by
  constructor
  · exact fun padded => (List.append_inj padded same).1
  · rintro rfl
    rfl

/-- The rows that are drawn are those the pane shows exactly when no pen is lost. -/
theorem drawn_iff :
    padded capture.viewHeight (drawLines renderer (capture.pushed renderer).2 capture.shown).1 =
      padded capture.viewHeight
        (((capture.look renderer).drop capture.screenStart).take capture.viewHeight) ↔
    (capture.mode.alternateScreen = true →
      (drawLines renderer
          (drawLines renderer renderer.plain (capture.lines.take capture.screenStart)).2
          capture.shown).1 =
        (drawLines renderer renderer.plain capture.shown).1) := by
  rw [capture.look_shown renderer, padded_inj (by simp)]
  cases alternate : capture.mode.alternateScreen with
  | true =>
      rw [capture.pushed_alternate renderer alternate]
      exact ⟨fun same _ => same.symm, fun same => (same rfl).symm⟩
  | false =>
      rw [capture.pushed_main renderer alternate]
      exact ⟨fun _ wrong => absurd wrong (by decide), fun _ => rfl⟩

theorem scrollback_eq : (capture.pushed renderer).1 =
    if capture.mode.alternateScreen then []
    else (capture.look renderer).take capture.screenStart := by
  cases alternate : capture.mode.alternateScreen with
  | true => rw [capture.pushed_alternate renderer alternate, if_pos rfl]
  | false =>
      rw [capture.pushed_main renderer alternate, if_neg (by decide), look, take_drawLines]

/-- A capture, each line of which a row holds, is replayed as the pane looks exactly when it
fits. -/
theorem looksAsPane_iff {columns : Nat}
    (rowsHold : ∀ line ∈ capture.lines, line.width renderer ≤ columns) :
    capture.LooksAsPane renderer columns ↔ capture.Fits renderer columns := by
  have start : capture.screenStart = capture.historyCount + capture.shift := rfl
  have shift := capture.shift_le_cursorY
  constructor
  · rintro ⟨text, ends, looks⟩
    have among := looks.among
    have view : 0 < capture.viewHeight := by omega
    obtain ⟨same, screen, again, fed, rows, scrollback, row, column⟩ :=
      capture.exists_replay renderer view rowsHold
    obtain rfl : text = same := Option.some.inj (ends.symm.trans again)
    rw [fed] at looks
    have inside : min capture.cursorX (columns - 1) = capture.cursorX :=
      column.symm.trans looks.column
    exact {
      view
      cursorY := (capture.cursorY_in_view view).mp (by omega)
      cursorX := by omega
      pen := (capture.drawn_iff renderer).mp (rows.symm.trans looks.rows) }
  · intro fitting
    obtain ⟨text, screen, ends, fed, rows, scrollback, row, column⟩ :=
      capture.exists_replay renderer fitting.view rowsHold
    have inView := (capture.cursorY_in_view fitting.view).mpr fitting.cursorY
    have shown : (feed renderer ⟨.ground, .blank renderer capture.viewHeight columns⟩ text).screen =
        screen := congrArg Emulator.screen fed
    refine ⟨text, ends, ?_⟩
    rw [shown]
    exact {
      rows := rows.trans ((capture.drawn_iff renderer).mpr fitting.pen)
      scrollback := scrollback.trans (capture.scrollback_eq renderer)
      among := ⟨by omega, by omega⟩
      row := by omega
      column := column.trans (Nat.min_eq_left fitting.cursorX) }

def line (text : Text) (drawable : ∀ char ∈ text, ' ' ≤ char) : Line where
  pieces := text.map .glyph
  drawable := by
    intro piece held
    obtain ⟨char, inside, rfl⟩ := List.mem_map.mp held
    exact drawable char inside

/-- A shell's pane of three rows with a line of history, in a view of two. -/
def tallPane : Capture where
  mode := {}
  activePane := some ⟨1, 2, 3⟩
  historyLimit := 2000
  maxScrollbackLines := 1000
  view := some 2
  lines := [line "a".toList (by decide), line "b".toList (by decide),
    line "c".toList (by decide), line "$".toList (by decide)]

theorem looksAsPane_tallPane :
    tallPane.LooksAsPane TmuxPaneModeSnapshot.lastSelection 80 :=
  (tallPane.looksAsPane_iff TmuxPaneModeSnapshot.lastSelection (by decide)).mpr
    ⟨by decide, by decide, by decide, fun alternate => absurd alternate (by decide)⟩

/-- A pane of four rows on the alternate screen, its cursor on the last, of which tmux captured two
rows since it was made smaller after its cursor was read. -/
def shrunkPane : Capture where
  mode := { alternateScreen := true }
  activePane := some ⟨0, 3, 4⟩
  historyLimit := 2000
  maxScrollbackLines := 1000
  view := some 2
  lines := [line "a".toList (by decide), line "b".toList (by decide)]

/-- The cursor's row is not among those shown. -/
theorem not_looksAsPane_shrunkPane :
    (∀ line ∈ shrunkPane.lines, line.width TmuxPaneModeSnapshot.lastSelection ≤ 80) ∧
      0 < shrunkPane.viewHeight ∧ shrunkPane.cursorY < shrunkPane.paneHeight ∧
      shrunkPane.cursorX < 80 ∧
      ¬ shrunkPane.LooksAsPane TmuxPaneModeSnapshot.lastSelection 80 := by
  refine ⟨by decide, by decide, by decide, by decide, ?_⟩
  rintro ⟨text, -, looks⟩
  exact absurd looks.among (by decide)

end ServerBox.Terminal.Tmux.Capture
