import Sodex.TermFrame
import Sodex.TermRows

/-!
# The invariant of the screen

Cursors and scroll region lie on the screen, the dirty cells are counted, and every cell of width 2
is followed by its continuation cell. Erasing a part of a row cuts a wide character that lies across
its end, and a tab near the right margin does not return; scrolling and putting characters keep the
invariant.
-/
namespace Sodex.Term

open CInt

/-- A cursor lies on a screen. -/
structure Cursor.Within (cur : Cursor) (cols rows : ℕ) : Prop where
  col : cur.col < cols
  row : cur.row < rows

/-- The region has two rows or more, or it is the only row. -/
def RegionOk (rows top bottom : ℕ) : Prop :=
  (top < bottom ∧ bottom < rows) ∨ (rows = 1 ∧ top = 0 ∧ bottom = 0)

def RowsOk (cols rows : ℕ) (cells : ℕ → ℕ → Cell) : Prop := ∀ r < rows, RowOk cols (cells r)

namespace Surface

/-- The invariant. -/
structure Fits (s : Surface) : Prop where
  cols_pos : 0 < s.cols
  rows_pos : 0 < s.rows
  small : s.cols * s.rows < 2147483648
  cursor : s.cursor.Within s.cols s.rows
  saved : s.saved.Within s.cols s.rows
  primaryCursor : s.primaryCursor.Within s.cols s.rows
  primarySaved : s.primarySaved.Within s.cols s.rows
  region : RegionOk s.rows s.scrollTop s.scrollBottom
  buffer : s.alternateActive = true → s.hasAlternate = true
  counted : Counted s
  shown : RowsOk s.cols s.rows s.screen.cells
  primary : RowsOk s.cols s.rows s.primary.cells

variable {s t : Surface} {style fill : Cell} {cells : ℕ → ℕ → Cell} {width : ℕ} (cols : ℕ)

theorem Fits.home (h : Fits s) : Cursor.home.Within s.cols s.rows := ⟨h.cols_pos, h.rows_pos⟩

theorem Fits.bottom_lt (h : Fits s) : s.scrollBottom < s.rows := by
  rcases h.region with hregion | hregion <;> omega

theorem Fits.setCursor (h : Fits s) {cur : Cursor} (hcur : cur.Within s.cols s.rows) :
    Fits { s with cursor := cur } :=
  { h with cursor := hcur }

theorem Fits.of_keeps (h : Fits s) (hkeeps : Keeps s t) (hcursor : t.cursor = s.cursor)
    (hsaved : t.saved = s.saved) (hcounted : Counted t)
    (hshown : RowsOk s.cols s.rows t.screen.cells) : Fits t where
  cols_pos := hkeeps.cols ▸ h.cols_pos
  rows_pos := hkeeps.rows ▸ h.rows_pos
  small := by rw [hkeeps.cols, hkeeps.rows]; exact h.small
  cursor := by rw [hcursor, hkeeps.cols, hkeeps.rows]; exact h.cursor
  saved := by rw [hsaved, hkeeps.cols, hkeeps.rows]; exact h.saved
  primaryCursor := by rw [hkeeps.primaryCursor, hkeeps.cols, hkeeps.rows]; exact h.primaryCursor
  primarySaved := by rw [hkeeps.primarySaved, hkeeps.cols, hkeeps.rows]; exact h.primarySaved
  region := by rw [hkeeps.rows, hkeeps.scrollTop, hkeeps.scrollBottom]; exact h.region
  buffer := by rw [hkeeps.alternateActive, hkeeps.hasAlternate]; exact h.buffer
  counted := hcounted
  shown := by rw [hkeeps.cols, hkeeps.rows]; exact hshown
  primary := by
    rw [hkeeps.cols, hkeeps.rows]
    cases hactive : s.alternateActive with
    | true => rw [hkeeps.primary hactive]; exact h.primary
    | false =>
      have hscreen : t.screen = t.primary := by
        rw [Surface.screen, hkeeps.alternateActive, hactive]
        rfl
      rw [← hscreen]
      exact hshown

theorem Fits.painted (h : Fits s) (hpainted : Painted s t)
    (hshown : RowsOk s.cols s.rows t.screen.cells) : Fits t :=
  have hr := hpainted.repaints
  h.of_keeps hr.keeps hr.cursor hr.saved (hr.counted h.counted) hshown

theorem Fits.toInt_area (h : Fits s) : toInt (s.cols * s.rows) = (s.cols * s.rows : ℕ) := by
  have := h.small
  exact toInt_of_range (by omega) (by omega)

theorem rowOk_blank (fill : Cell) : RowOk cols fun _ => blankCell fill :=
  have hblank := narrow_blankCell fill
  .of_single (fun _ _ _ => hblank.whole) (fun _ _ _ => hblank.not_lead)
    (fun _ _ _ => hblank.not_rest) (Nat.zero_le _)

theorem Fits.withScreen (h : Fits s) {screen : Screen} {count : ℤ}
    (hcount : count = countDirty s.cols s.rows screen.dirty)
    (hcells : RowsOk s.cols s.rows screen.cells) : Fits (s.withScreen screen count) := by
  have hkeeps := keeps_withScreen s screen count
  refine h.of_keeps hkeeps (cursor_withScreen ..) (saved_withScreen ..) ?_ ?_
  · unfold Counted
    rw [dirtyCount_withScreen, screen_withScreen, hkeeps.cols, hkeeps.rows, hcount]
  · rw [screen_withScreen]
    exact hcells

theorem Fits.allDirty (h : Fits s) (hcells : RowsOk s.cols s.rows cells) :
    Fits (s.withScreen ⟨cells, fun _ _ => true⟩ (toInt (s.cols * s.rows))) :=
  h.withScreen (by rw [countDirty_all, h.toInt_area]) hcells

theorem Fits.clear (h : Fits s) (fill : Cell) : Fits (s.clear fill) :=
  h.allDirty fun _ _ => rowOk_blank s.cols fill

theorem Fits.markAllDirty (h : Fits s) : Fits s.markAllDirty := h.allDirty h.shown

theorem regionOk_all {rows : ℕ} (hrows : 0 < rows) : RegionOk rows 0 (rows - 1) := by
  unfold RegionOk
  omega

theorem Fits.reset (h : Fits s) (fill : Cell) : Fits (s.reset fill) := by
  apply Fits.clear
  exact { h with cursor := h.home, saved := h.home, region := regionOk_all h.rows_pos }

/-- A rectangle is cleared whose sides cut no wide character. -/
theorem Fits.clearRegion (h : Fits s) {left top right bottom : ℕ} (hright : right < s.cols)
    (hlr : left ≤ right) (hbottom : bottom < s.rows) (htop : top < s.rows)
    (hleft : ∀ r, top ≤ r → r ≤ bottom → ¬(s.cell r left).isContinuation = true)
    (hlead : ∀ r, top ≤ r → r ≤ bottom → (s.cell r right).width ≠ 2) (fill : Cell) :
    Fits (s.clearRegion left top right bottom fill) := by
  refine h.painted (painted_clearRegion h.cols_pos h.rows_pos _ _ _ _ fill) fun r hr => ?_
  have hcells : ∀ c, (s.clearRegion left top right bottom fill).screen.cells r c =
      if (top ≤ r ∧ r ≤ bottom) ∧ left ≤ c ∧ c ≤ right then blankCell fill
      else s.screen.cells r c := by
    intro c
    rw [cells_clearRegion, min_eq_left (by omega : left ≤ s.cols - 1),
      min_eq_left (by omega : right ≤ s.cols - 1),
      min_eq_left (by omega : bottom ≤ s.rows - 1),
      min_eq_left (by omega : top ≤ s.rows - 1)]
  by_cases hin : top ≤ r ∧ r ≤ bottom
  · have hrow : (s.clearRegion left top right bottom fill).screen.cells r =
        fun c => if left ≤ c ∧ c ≤ right then blankCell fill else s.screen.cells r c := by
      funext c
      simp [hcells, hin]
    rw [hrow]
    exact (h.shown r hr).erase hlr hright (hleft r hin.1 hin.2) (hlead r hin.1 hin.2) fill
  · have hrow : (s.clearRegion left top right bottom fill).screen.cells r = s.screen.cells r := by
      funext c
      rw [hcells, if_neg (fun h => hin h.1)]
    rw [hrow]
    exact h.shown r hr

theorem Fits.clearRows (h : Fits s) {top bottom : ℕ} (hbottom : bottom < s.rows)
    (htop : top < s.rows) (fill : Cell) :
    Fits (s.clearRegion 0 top (s.cols - 1) bottom fill) := by
  have := h.cols_pos
  apply h.clearRegion (by omega) (Nat.zero_le _) hbottom htop
  · exact fun r _ hr => (h.shown r (by omega)).first
  · exact fun r _ hr => (h.shown r (by omega)).last

theorem foldl_captureRow (ns : List ℕ) (s : Surface) :
    ∃ rows, ns.foldl captureRow s = { s with scrollback := rows } := by
  induction ns generalizing s with
  | nil => exact ⟨s.scrollback, rfl⟩
  | cons n ns ih =>
    have hrow : ∃ rows, s.captureRow n = { s with scrollback := rows } := ⟨_, rfl⟩
    obtain ⟨rows, hrow⟩ := hrow
    obtain ⟨rows', hrows'⟩ := ih (s.captureRow n)
    exact ⟨rows', by rw [List.foldl_cons, hrows', hrow]⟩

/-- Rows are captured without a change of the screen. -/
theorem captureLines_eq (s : Surface) (lines : ℕ) :
    ∃ rows, s.captureLines lines = { s with scrollback := rows } := by
  unfold captureLines
  split
  · exact foldl_captureRow _ s
  · exact ⟨s.scrollback, rfl⟩

theorem rowsOk_shiftRows {cols rows top bottom lines : ℕ} {screen : Screen} (fill : Cell)
    (h : RowsOk cols rows screen.cells) (hbottom : bottom < rows) :
    RowsOk cols rows (shiftRows screen top bottom lines fill).cells := by
  intro r hr
  unfold Surface.shiftRows
  dsimp only
  split
  · exact h (r + lines) (by omega)
  · split
    · exact rowOk_blank cols fill
    · exact h r hr

section

variable (h : Fits s)
include h

theorem Fits.regionBottom : s.regionBottom = s.scrollBottom := by
  have := h.bottom_lt
  unfold Surface.regionBottom
  omega

theorem Fits.top_lt : s.scrollTop < s.rows := by
  rcases h.region with hregion | hregion <;> omega

theorem Fits.moveLines (lines : ℕ) (fill : Cell) : Fits (s.moveLines lines fill) := by
  unfold Surface.moveLines
  rw [h.regionBottom]
  split
  · exact h.clearRows h.bottom_lt h.top_lt fill
  · exact h.withScreen rfl (rowsOk_shiftRows fill h.shown h.bottom_lt)

theorem Fits.cursor_moveLines (lines : ℕ) (fill : Cell) :
    (s.moveLines lines fill).cursor = s.cursor := by
  unfold Surface.moveLines
  split
  · exact (painted_clearRegion h.cols_pos h.rows_pos _ _ _ _ fill).repaints.cursor
  · exact cursor_withScreen ..

theorem Fits.scrollUp (lines : ℕ) (fill : Cell) : Fits (s.scrollUp lines fill) ∧
      (s.scrollUp lines fill).cursor.col = s.cursor.col ∧
      (0 < lines → (s.scrollUp lines fill).cursor.wrapPending = false) := by
  unfold Surface.scrollUp
  split
  · exact ⟨h, rfl, fun hlines => by omega⟩
  · have hdrop : Fits s.dropWrap := h.setCursor ⟨h.cursor.col, h.cursor.row⟩
    obtain ⟨rows, hrows⟩ := captureLines_eq s.dropWrap lines
    rw [hrows]
    have hcount : Fits (countLines { s.dropWrap with scrollback := rows } lines) := { hdrop with }
    refine ⟨hcount.moveLines lines fill, ?_, fun _ => ?_⟩
    · rw [hcount.cursor_moveLines]
      rfl
    · rw [hcount.cursor_moveLines]
      rfl

theorem Fits.carriageReturn : Fits s.carriageReturn :=
  h.setCursor ⟨h.cols_pos, h.cursor.row⟩

theorem Fits.newline (fill : Cell) : Fits (s.newline fill) := by
  have hreturn := h.carriageReturn
  unfold Surface.newline
  dsimp only
  split
  · have hscroll := hreturn.scrollUp 1 fill
    have hrows := (keeps_scrollUp s.carriageReturn 1 fill).rows
    exact hscroll.1.setCursor ⟨hscroll.1.cursor.col, hrows ▸ hreturn.bottom_lt⟩
  · rename_i hrow
    have hbottom := hreturn.bottom_lt
    exact hreturn.setCursor ⟨hreturn.cursor.col, by dsimp only; omega⟩

theorem Fits.cursor_newline (fill : Cell) :
    (s.newline fill).cursor.col = 0 ∧ (s.newline fill).cursor.wrapPending = false := by
  unfold Surface.newline
  dsimp only
  split
  · have hscroll := h.carriageReturn.scrollUp 1 fill
    exact ⟨hscroll.2.1, hscroll.2.2 Nat.one_pos⟩
  · exact ⟨rfl, rfl⟩

end

theorem rowsOk_update {cols rows row : ℕ} {f : ℕ → Cell}
    (h : RowsOk cols rows cells) (hf : RowOk cols f) :
    RowsOk cols rows (Function.update cells row f) := by
  intro r hr
  by_cases hat : r = row
  · rw [hat, Function.update_self]
    exact hf
  · rw [Function.update_of_ne hat]
    exact h r hr

theorem Fits.wrapForOutput (h : Fits s) (fill : Cell) :
    Fits (s.wrapForOutput fill) ∧ (s.wrapForOutput fill).cursor.wrapPending = false := by
  unfold Surface.wrapForOutput
  split
  · exact ⟨h.newline fill, (h.cursor_newline fill).2⟩
  · rename_i hwrap
    exact ⟨h, by simpa using hwrap⟩

theorem Fits.roomFor (h : Fits s) (hwidth : width = 2 → 2 ≤ s.cols) (style : Cell) :
    Fits (s.roomFor width style) ∧
      (width = 2 → (s.roomFor width style).cursor.col + 1 < (s.roomFor width style).cols) := by
  unfold Surface.roomFor
  split
  · rename_i hlast
    refine ⟨h.newline style, fun _ => ?_⟩
    rw [(h.cursor_newline style).1, ((local_start s).newline style).keeps.cols]
    exact hwidth hlast.1
  · rename_i hroom
    refine ⟨h, fun hwide => ?_⟩
    omega

theorem Fits.putCharacter (h : Fits s) (hwidth : width = 1 ∨ width = 2)
    (hroom : width = 2 → s.cursor.col + 1 < s.cols) (codepoint : UInt32) (style : Cell) :
    Fits (s.putCharacter codepoint width style) := by
  have hcur := h.cursor
  have hlead := normalizeCell_leadCell codepoint style hwidth
  refine h.painted (painted_putCharacter s codepoint width style) ?_
  unfold Surface.putCharacter
  dsimp only
  split
  · rename_i hwide
    subst hwide
    generalize hfirst : s.putCell s.cursor.col s.cursor.row (leadCell codepoint 2 style) = t
    have hput := painted_putCell s s.cursor.col s.cursor.row (leadCell codepoint 2 style)
    rw [hfirst] at hput
    have hkeeps := hput.repaints.keeps
    rw [hput.repaints.cursor, cells_putCell (hkeeps.cols ▸ hroom rfl) (hkeeps.rows ▸ hcur.row),
      ← hfirst, cells_putCell hcur.col hcur.row, hfirst, hkeeps.cols, Function.update_self,
      Function.update_idem]
    exact rowsOk_update h.shown ((h.shown _ hcur.row).putWide (hroom rfl) _ _ hlead
      (normalizeCell_continuationCell style))
  · rename_i hnarrow
    obtain rfl : width = 1 := by omega
    rw [cells_putCell hcur.col hcur.row]
    exact rowsOk_update h.shown ((h.shown _ hcur.row).put hcur.col _ ⟨hlead.2, hlead.1⟩)

theorem Fits.advance (h : Fits s) (width : ℕ) : Fits (s.advance width) := by
  have := h.cols_pos
  unfold Surface.advance
  split
  · exact h.setCursor ⟨by dsimp only; omega, h.cursor.row⟩
  · exact h.setCursor ⟨by dsimp only; omega, h.cursor.row⟩

theorem effectiveWidth_cases (hwidth : width ≠ 0) :
    (effectiveWidth cols width = 1 ∨ effectiveWidth cols width = 2) ∧
      (effectiveWidth cols width = 2 → 2 ≤ cols) := by
  unfold effectiveWidth
  split
  · omega
  · split <;> omega

theorem Fits.writeCodepoint (h : Fits s) (codepoint : UInt32) (width : ℕ) (style : Cell) :
    Fits (s.writeCodepoint codepoint width style) := by
  unfold Surface.writeCodepoint
  split
  · exact h
  · rename_i hwidth
    obtain ⟨hcases, hcols⟩ := effectiveWidth_cases s.cols hwidth
    have hwrap := h.wrapForOutput style
    have hkeeps := ((local_start s).wrapForOutput style).keeps
    have hroom := hwrap.1.roomFor (by rwa [hkeeps.cols]) style
    exact (hroom.1.putCharacter hcases hroom.2 codepoint style).advance _

/-- The column after a narrow character. -/
theorem Fits.col_write (h : Fits s) (codepoint : UInt32) (style : Cell) :
    (s.writeCodepoint codepoint 1 style).cursor.col =
      min ((s.wrapForOutput style).cursor.col + 1) (s.cols - 1) ∧
    ((s.wrapForOutput style).cursor.col + 1 < s.cols →
      (s.writeCodepoint codepoint 1 style).cursor.wrapPending = false) := by
  have hwidth : effectiveWidth s.cols 1 = 1 := by simp [effectiveWidth]
  have hwrap := (h.wrapForOutput style).1
  have hcols := ((local_start s).wrapForOutput style).keeps.cols
  have hpos := h.cols_pos
  unfold Surface.writeCodepoint
  rw [if_neg Nat.one_ne_zero]
  dsimp only
  rw [hwidth]
  generalize s.wrapForOutput style = t at hwrap hcols ⊢
  have hroom : t.roomFor 1 style = t := if_neg (by omega)
  have hput := (painted_putCharacter t codepoint 1 style).repaints
  have hlt := hwrap.cursor.col
  rw [hroom]
  unfold Surface.advance
  rw [hput.cursor, hput.keeps.cols, hcols]
  rw [hcols] at hlt
  split
  · exact ⟨by dsimp only; omega, fun hroom => by omega⟩
  · exact ⟨by dsimp only; omega, fun _ => rfl⟩

theorem Fits.tabLoop (h : Fits s) {stop : ℕ} (rounds : ℕ)
    (hloop : Surface.tabLoop style stop rounds s = some t) : Fits t := by
  induction rounds generalizing s with
  | zero =>
    unfold Surface.tabLoop at hloop
    split at hloop
    · cases hloop
    · exact Option.some.inj hloop ▸ h
  | succ rounds ih =>
    have hwrite := h.writeCodepoint 32 1 style
    unfold Surface.tabLoop at hloop
    split at hloop
    · dsimp only at hloop
      split at hloop
      · exact Option.some.inj hloop ▸ hwrite
      · exact ih hwrite hloop
    · exact Option.some.inj hloop ▸ h

/-- The loop ends at a tab stop left of the last column. -/
theorem Fits.tabLoop_returns (h : Fits s) {stop rounds : ℕ} (hwrap : s.cursor.wrapPending = false)
    (hstop : stop < s.cols) (hrounds : stop ≤ s.cursor.col + rounds) :
    (Surface.tabLoop style stop rounds s).isSome = true := by
  induction rounds generalizing s with
  | zero =>
    unfold Surface.tabLoop
    rw [if_neg (by omega)]
    rfl
  | succ rounds ih =>
    have hstay : s.wrapForOutput style = s := if_neg (by simp [hwrap])
    obtain ⟨hcol, hpending⟩ := h.col_write 32 style
    have hcols := ((local_start s).writeCodepoint 32 1 style).keeps.cols
    rw [hstay] at hcol hpending
    unfold Surface.tabLoop
    split
    · dsimp only
      rw [if_neg (by omega)]
      exact ih (h.writeCodepoint 32 1 style) (hpending (by omega)) (by omega) (by omega)
    · rfl

/-- At the only column the loop ends after one character. -/
theorem Fits.tabLoop_one (h : Fits s) {stop : ℕ} (hcols : s.cols = 1) (rounds : ℕ) :
    (Surface.tabLoop style stop (rounds + 1) s).isSome = true := by
  have hcol := (h.col_write 32 style).1
  unfold Surface.tabLoop
  split
  · dsimp only
    rw [if_pos (by omega)]
    rfl
  · rfl

/-- Towards a tab stop behind the last column the loop never ends. -/
theorem Fits.tabLoop_forever (h : Fits s) {stop : ℕ} (hcols : 1 < s.cols) (hstop : s.cols ≤ stop)
    (rounds : ℕ) : Surface.tabLoop style stop rounds s = none := by
  have hlt := h.cursor.col
  induction rounds generalizing s with
  | zero =>
    unfold Surface.tabLoop
    rw [if_pos (by omega)]
  | succ rounds ih =>
    have hcol := (h.col_write 32 style).1
    have hkeep := ((local_start s).writeCodepoint 32 1 style).keeps.cols
    have hwrite := h.writeCodepoint 32 1 style
    unfold Surface.tabLoop
    rw [if_pos (by omega)]
    dsimp only
    rw [if_neg (by omega)]
    exact ih hwrite (by omega) (by omega) hwrite.cursor.col

/-- The next tab stop lies on the screen, or there is only one column. -/
def TabReturns (s : Surface) (style : Cell) : Prop :=
  (s.wrapForOutput style).nextStop < s.cols ∨ s.cols = 1

instance (s : Surface) (style : Cell) : Decidable (TabReturns s style) :=
  inferInstanceAs (Decidable (_ ∨ _))

theorem nextStop_bounds (s : Surface) :
    s.cursor.col < s.nextStop ∧ s.nextStop ≤ s.cursor.col + TERM_TAB_WIDTH := by
  unfold nextStop TERM_TAB_WIDTH
  omega

/-- `terminal_surface_tab` returns in exactly these cases. -/
theorem Fits.tab_returns_iff (h : Fits s) (style : Cell) :
    (s.tab style).isSome = true ↔ TabReturns s style := by
  have hwrap := h.wrapForOutput style
  have hcols := ((local_start s).wrapForOutput style).keeps.cols
  have hbounds := nextStop_bounds (s.wrapForOutput style)
  unfold Surface.tab TabReturns
  dsimp only
  constructor
  · intro hreturns
    by_contra hnot
    have hpos := h.cols_pos
    rw [hwrap.1.tabLoop_forever (by omega) (by omega)] at hreturns
    cases hreturns
  · rintro (hstop | hone)
    · exact hwrap.1.tabLoop_returns hwrap.2 (by omega) hbounds.2
    · exact hwrap.1.tabLoop_one (by omega) 7

end Surface

end Sodex.Term
