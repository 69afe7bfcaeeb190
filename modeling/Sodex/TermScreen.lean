import Sodex.Runs
import Sodex.TermInvariant

/-!
# Runs of the terminal

Every call of the parser keeps the invariant of the screen, except that erasing may cut a wide
character and a tab may not return. A change of the size cuts the wide characters across the new
last column and leaves the scroll region as it is.
-/
namespace Sodex.Term

open Runs CInt

namespace Surface

variable {s t : Surface} {style fill : Cell}

theorem clamp_lt (value : ℤ) {size : ℕ} (hsize : 0 < size) : clamp value size < size := by
  unfold clamp
  omega

theorem Fits.moveTo (h : Fits s) (col row : ℤ) : Fits (s.setCursor col row) :=
  Fits.setCursor h ⟨clamp_lt col h.cols_pos, clamp_lt row h.rows_pos⟩

theorem Fits.backspace (h : Fits s) : Fits s.backspace := by
  have hcur := h.cursor
  unfold Surface.backspace
  split
  · exact Fits.setCursor h ⟨hcur.col, hcur.row⟩
  · exact Fits.setCursor h ⟨lt_of_le_of_lt (Nat.sub_le _ _) hcur.col, hcur.row⟩

theorem regionFor_ok {rows : ℕ} {top bottom : ℤ} {region : ℕ × ℕ}
    (h : regionFor rows top bottom = some region) : RegionOk rows region.1 region.2 := by
  unfold regionFor at h
  dsimp only at h
  split at h
  · cases h
  · obtain rfl := Option.some.inj h
    left
    omega

theorem Fits.setScrollRegion (h : Fits s) (top bottom : ℤ) : Fits (s.setScrollRegion top bottom) := by
  unfold Surface.setScrollRegion
  split
  · exact h
  · rename_i region hregion
    exact { h with cursor := h.home, region := regionFor_ok hregion }

theorem Fits.enterAlternate (h : Fits s) (granted : Bool) (fill : Cell) :
    Fits (s.enterAlternate granted fill) := by
  unfold Surface.enterAlternate
  split
  · exact h.reset fill
  · split
    · exact h
    · exact { h with
        cursor := h.home
        saved := h.home
        primaryCursor := h.cursor
        primarySaved := h.saved
        buffer := fun _ => rfl
        counted := by
          unfold Counted
          rw [Surface.screen, if_pos rfl, countDirty_all]
          exact h.toInt_area
        shown := fun _ _ => rowOk_blank s.cols fill }

theorem Fits.leaveAlternate (h : Fits s) : Fits s.leaveAlternate := by
  unfold Surface.leaveAlternate
  split
  · -- the number that is overwritten next does not matter
    have hprimary : Fits { s with
        alternateActive := false, cursor := s.primaryCursor, saved := s.primarySaved
        dirtyCount := countDirty s.cols s.rows s.primary.dirty } :=
      { h with
        cursor := h.primaryCursor
        saved := h.primarySaved
        buffer := nofun
        counted := rfl
        shown := h.primary }
    exact hprimary.markAllDirty
  · exact h

/-- The row of the cursor is not cut within a wide character by what an erase mode leaves. -/
structure CutsNothing (s : Surface) (mode : ℤ) : Prop where
  right : mode = 0 → ¬(s.cell s.cursor.row s.cursor.col).isContinuation = true
  left : mode = 1 → (s.cell s.cursor.row s.cursor.col).width ≠ 2

instance (s : Surface) (mode : ℤ) : Decidable (CutsNothing s mode) :=
  decidable_of_iff (_ ∧ _) ⟨fun h => ⟨h.1, h.2⟩, fun h => ⟨h.1, h.2⟩⟩

end Surface

open Surface

variable {s t : Surface} {style fill : Cell}

section

variable (h : Fits s)
include h

theorem fits_eraseRight
    (hcell : ¬(s.cell s.cursor.row s.cursor.col).isContinuation = true) (blank : Cell) :
    Fits (eraseRight s blank) := by
  have hcol := h.cursor.col
  refine h.clearRegion (by omega) (by omega) h.cursor.row h.cursor.row ?_ ?_ blank
  · intro r hl hr
    obtain rfl : r = s.cursor.row := by omega
    exact hcell
  · intro r hl hr
    obtain rfl : r = s.cursor.row := by omega
    exact (h.shown _ h.cursor.row).last

theorem fits_eraseLeft (hcell : (s.cell s.cursor.row s.cursor.col).width ≠ 2)
    (blank : Cell) : Fits (eraseLeft s blank) := by
  refine h.clearRegion h.cursor.col (Nat.zero_le _) h.cursor.row h.cursor.row ?_ ?_ blank
  · intro r hl hr
    obtain rfl : r = s.cursor.row := by omega
    exact (h.shown _ h.cursor.row).first
  · intro r hl hr
    obtain rfl : r = s.cursor.row := by omega
    exact hcell

theorem fits_eraseRowsBelow (blank : Cell) : Fits (eraseRowsBelow s blank) := by
  unfold eraseRowsBelow
  split
  · exact h.clearRows (by omega) (by omega) blank
  · exact h

theorem fits_eraseRowsAbove (blank : Cell) : Fits (eraseRowsAbove s blank) := by
  have hrow := h.cursor.row
  unfold eraseRowsAbove
  split
  · exact h.clearRows (by omega) (by omega) blank
  · exact h

theorem cell_eraseRowsAbove (blank : Cell) :
    (eraseRowsAbove s blank).cursor = s.cursor ∧
      (eraseRowsAbove s blank).screen.cells s.cursor.row = s.screen.cells s.cursor.row := by
  unfold eraseRowsAbove
  split
  · rename_i hrow
    refine ⟨(painted_clearRegion h.cols_pos h.rows_pos _ _ _ _ blank).repaints.cursor, ?_⟩
    funext c
    rw [cells_clearRegion, if_neg (by omega)]
  · exact ⟨rfl, rfl⟩

theorem fits_eraseDisplay {mode : ℤ} (hcut : s.CutsNothing mode) (blank : Cell) :
    Fits (eraseDisplay s mode blank) := by
  unfold eraseDisplay
  split
  · rename_i hmode
    exact fits_eraseRowsBelow (fits_eraseRight h (hcut.right hmode) blank) blank
  · split
    · rename_i hmode
      obtain ⟨hcursor, hcells⟩ := cell_eraseRowsAbove h blank
      apply fits_eraseLeft (fits_eraseRowsAbove h blank)
      rw [hcursor, Surface.cell, hcells]
      exact hcut.left hmode
    · split
      · exact h.clear blank
      · exact h

theorem fits_eraseLine {mode : ℤ} (hcut : s.CutsNothing mode) (blank : Cell) :
    Fits (eraseLine s mode blank) := by
  unfold eraseLine
  split
  · rename_i hmode
    exact fits_eraseRight h (hcut.right hmode) blank
  · split
    · rename_i hmode
      exact fits_eraseLeft h (hcut.left hmode) blank
    · split
      · exact h.clearRows h.cursor.row h.cursor.row blank
      · exact h

end

/-- A call that keeps the screen in order. -/
def OpSafe (s : Surface) : Op → Prop
  | .tab style => s.TabReturns style
  | .eraseDisplay mode _ => s.CutsNothing mode
  | .eraseLine mode _ => s.CutsNothing mode
  | _ => True

instance (s : Surface) : ∀ op, Decidable (OpSafe s op)
  | .tab style => inferInstanceAs (Decidable (s.TabReturns style))
  | .eraseDisplay mode _ => inferInstanceAs (Decidable (s.CutsNothing mode))
  | .eraseLine mode _ => inferInstanceAs (Decidable (s.CutsNothing mode))
  | .carriageReturn | .newline _ | .backspace | .write .. | .moveCursor .. | .setCursor ..
  | .saveCursor | .restoreCursor | .setRegion .. | .enterAlternate _ | .leaveAlternate =>
    inferInstanceAs (Decidable True)

/-- A safe call returns and keeps the invariant. -/
theorem Surface.Fits.applyOp (h : Fits s) {op : Op} (hop : OpSafe s op) (granted : Bool) :
    ∃ t, Term.applyOp granted s op = some t ∧ Fits t := by
  cases op with
  | carriageReturn => exact ⟨_, rfl, h.carriageReturn⟩
  | newline fill => exact ⟨_, rfl, h.newline fill⟩
  | backspace => exact ⟨_, rfl, h.backspace⟩
  | tab style =>
    obtain ⟨t, ht⟩ := Option.isSome_iff_exists.mp ((h.tab_returns_iff style).mpr hop)
    exact ⟨t, ht, (h.wrapForOutput style).1.tabLoop _ ht⟩
  | write codepoint width style => exact ⟨_, rfl, h.writeCodepoint codepoint width style⟩
  | moveCursor dcol drow => exact ⟨_, rfl, h.moveTo _ _⟩
  | setCursor col row => exact ⟨_, rfl, h.moveTo _ _⟩
  | eraseDisplay mode blank => exact ⟨_, rfl, fits_eraseDisplay h hop blank⟩
  | eraseLine mode blank => exact ⟨_, rfl, fits_eraseLine h hop blank⟩
  | saveCursor => exact ⟨_, rfl, { h with saved := h.cursor }⟩
  | restoreCursor => exact ⟨_, rfl, Fits.setCursor h h.saved⟩
  | setRegion top bottom => exact ⟨_, rfl, h.setScrollRegion _ _⟩
  | enterAlternate blank => exact ⟨_, rfl, h.enterAlternate granted blank⟩
  | leaveAlternate => exact ⟨_, rfl, h.leaveAlternate⟩

instance (rows top bottom : ℕ) : Decidable (RegionOk rows top bottom) :=
  inferInstanceAs (Decidable (_ ∨ _))

/-- No wide character lies across the new last column. -/
def KeepsPairs (s : Surface) (cells : ℕ → ℕ → Cell) (cols rows : ℕ) : Prop :=
  cols < s.cols → ∀ r < min s.rows rows, (cells r (cols - 1)).width ≠ 2

instance (s : Surface) (cells : ℕ → ℕ → Cell) (cols rows : ℕ) :
    Decidable (KeepsPairs s cells cols rows) :=
  inferInstanceAs (Decidable (_ → _))

/-- A size for which the scroll region is one and which cuts no wide character. -/
structure ResizeSafe (s : Surface) (cols rows : ℕ) : Prop where
  small : cols * rows < 2147483648
  region : RegionOk rows s.scrollTop s.scrollBottom
  shown : KeepsPairs s s.screen.cells cols rows
  primary : KeepsPairs s s.primary.cells cols rows

instance (s : Surface) (cols rows : ℕ) : Decidable (ResizeSafe s cols rows) :=
  decidable_of_iff (_ ∧ _ ∧ _ ∧ _)
    ⟨fun h => ⟨h.1, h.2.1, h.2.2.1, h.2.2.2⟩, fun h => ⟨h.1, h.2, h.3, h.4⟩⟩

theorem within_clampCursor (cur : Cursor) {cols rows : ℕ} (hcols : 0 < cols) (hrows : 0 < rows) :
    (clampCursor cur cols rows).Within cols rows := by
  constructor
  · exact lt_of_le_of_lt (min_le_right _ _) (Nat.sub_lt hcols Nat.one_pos)
  · exact lt_of_le_of_lt (min_le_right _ _) (Nat.sub_lt hrows Nat.one_pos)

theorem rowsOk_resizeBuffer (h : Fits s) {screen : Screen} {cols rows : ℕ} (hcols : 0 < cols)
    (hrowsOk : RowsOk s.cols s.rows screen.cells) (hpairs : KeepsPairs s screen.cells cols rows)
    (fill : Cell) : RowsOk cols rows (resizeBuffer screen s.cols s.rows cols rows fill).cells := by
  intro r hr
  unfold resizeBuffer
  by_cases hold : r < min s.rows rows
  · simp only [hold, true_and]
    exact (hrowsOk r (by omega)).resize h.cols_pos hcols (fun hlt => hpairs hlt r hold) fill
  · simp only [hold, false_and, if_false]
    exact rowOk_blank cols fill

/-- The screen that is shown after a change of the size. -/
theorem screen_resize (h : Fits s) {cols rows : ℕ} (hcols : 0 < cols) (hrows : 0 < rows)
    (fill : Cell) :
    (s.resize cols rows fill).screen = resizeBuffer s.screen s.cols s.rows cols rows fill := by
  rw [resize, if_neg (by omega)]
  cases hactive : s.alternateActive with
  | true =>
    have hbuffer := h.buffer hactive
    simp [Surface.screen, hactive, hbuffer]
  | false => simp [Surface.screen, hactive]

theorem Surface.Fits.resize (h : Fits s) {cols rows : ℕ} (hcols : 0 < cols) (hrows : 0 < rows)
    (hsafe : ResizeSafe s cols rows) (fill : Cell) : Fits (s.resize cols rows fill) := by
  have hscreen := screen_resize h hcols hrows fill
  have hshown := rowsOk_resizeBuffer h hcols h.shown hsafe.shown fill
  have hprimary := rowsOk_resizeBuffer h hcols h.primary hsafe.primary fill
  have hcount : toInt (cols * rows) = (cols * rows : ℕ) := by
    have := hsafe.small
    exact toInt_of_range (by omega) (by omega)
  rw [← hscreen] at hshown
  have hdirty : (s.resize cols rows fill).screen.dirty = fun _ _ => true := by
    rw [hscreen]
    rfl
  revert hshown hdirty
  rw [Surface.resize, if_neg (by omega)]
  intro hshown hdirty
  exact {
    cols_pos := hcols
    rows_pos := hrows
    small := hsafe.small
    cursor := within_clampCursor s.cursor hcols hrows
    saved := within_clampCursor s.saved hcols hrows
    primaryCursor := within_clampCursor s.primaryCursor hcols hrows
    primarySaved := within_clampCursor s.primarySaved hcols hrows
    region := hsafe.region
    buffer := h.buffer
    counted := by
      unfold Counted
      rw [hdirty, countDirty_all]
      exact hcount
    shown := hshown
    primary := hprimary }

/-- What is done to the terminal: a byte is fed, with the answer to a request for memory, the size
is changed, or the screen is reset. -/
inductive Input where
  | byte (granted : Bool) (b : UInt8)
  | resize (cols rows : ℕ) (fill : Cell)
  | reset (fill : Cell)
  deriving DecidableEq, Repr

def termStep (x : VtParser × Surface) : Input → Option (VtParser × Surface)
  | .byte granted b => feed x (granted, b)
  | .resize cols rows fill => some (x.1, x.2.resize cols rows fill)
  | .reset fill => some (x.1, x.2.reset fill)

/-- The calls that a byte makes are safe, and so is the new size. -/
def InputSafe (x : VtParser × Surface) : Input → Prop
  | .byte granted b => Along (applyOp granted) OpSafe x.2 (x.1.feedByte b).2
  | .resize cols rows _ => 0 < cols ∧ 0 < rows → ResizeSafe x.2 cols rows
  | .reset _ => True

instance (x : VtParser × Surface) : ∀ i, Decidable (InputSafe x i)
  | .byte granted b =>
    inferInstanceAs (Decidable (Along (applyOp granted) OpSafe x.2 (x.1.feedByte b).2))
  | .resize cols rows _ =>
    inferInstanceAs (Decidable (0 < cols ∧ 0 < rows → ResizeSafe x.2 cols rows))
  | .reset _ => inferInstanceAs (Decidable True)

theorem fits_init {cols rows : ℕ} (hcols : 0 < cols) (hrows : 0 < rows)
    (hsmall : cols * rows < 2147483648) : Fits (Surface.init cols rows) := by
  have hhome : Cursor.home.Within cols rows := ⟨hcols, hrows⟩
  have hblank : ∀ r < rows, RowOk cols fun _ => defaultCell := fun _ _ =>
    rowOk_blank cols defaultCell
  -- the state before the reset is in order but for its region, which the reset sets
  have hreset : ∀ s : Surface, Fits { s with scrollTop := 0, scrollBottom := s.rows - 1 } →
      Fits (s.reset defaultCell) := fun s h => h.reset defaultCell
  apply hreset
  exact {
    cols_pos := hcols
    rows_pos := hrows
    small := hsmall
    cursor := hhome
    saved := hhome
    primaryCursor := hhome
    primarySaved := hhome
    region := regionOk_all hrows
    buffer := nofun
    counted := by
      exact congrArg Nat.cast (countDirty_none cols rows).symm
    shown := hblank
    primary := hblank }

theorem fits_termStep (x : VtParser × Surface) (i : Input) (h : Fits x.2) (hsafe : InputSafe x i) :
    ∃ y, termStep x i = some y ∧ Fits y.2 := by
  cases i with
  | byte granted b =>
    have hrun : ∃ t, run (applyOp granted) x.2 (x.1.feedByte b).2 = some t ∧ Fits t :=
      run_invariant (fun s op hs hop => Surface.Fits.applyOp hs hop granted) _ x.2 h hsafe
    obtain ⟨t, ht, hfits⟩ := hrun
    exact ⟨((x.1.feedByte b).1, t), feed_eq_some.mpr ⟨rfl, ht⟩, hfits⟩
  | resize cols rows fill =>
    refine ⟨_, rfl, ?_⟩
    by_cases hpos : 0 < cols ∧ 0 < rows
    · exact h.resize hpos.1 hpos.2 (hsafe hpos) fill
    · dsimp only
      rw [resize, if_pos (by omega)]
      exact h
  | reset fill => exact ⟨_, rfl, h.reset fill⟩

structure ScreenOk (s : Surface) : Prop where
  cursor : s.cursor.col < s.cols ∧ s.cursor.row < s.rows
  saved : s.saved.col < s.cols ∧ s.saved.row < s.rows
  primaryCursor : s.primaryCursor.col < s.cols ∧ s.primaryCursor.row < s.rows
  primarySaved : s.primarySaved.col < s.cols ∧ s.primarySaved.row < s.rows
  region : RegionOk s.rows s.scrollTop s.scrollBottom
  count : s.dirtyCount = countDirty s.cols s.rows s.screen.dirty
  wide : ∀ r < s.rows, ∀ c < s.cols,
    ((s.cell r c).width = 2 ↔ c + 1 < s.cols ∧ (s.cell r (c + 1)).isContinuation = true)

theorem Surface.Fits.screenOk (h : Fits s) : ScreenOk s where
  cursor := ⟨h.cursor.col, h.cursor.row⟩
  saved := ⟨h.saved.col, h.saved.row⟩
  primaryCursor := ⟨h.primaryCursor.col, h.primaryCursor.row⟩
  primarySaved := ⟨h.primarySaved.col, h.primarySaved.row⟩
  region := h.region
  count := h.counted
  wide := by
    intro r hr c hc
    have hrow := h.shown r hr
    constructor
    · exact hrow.rest_of_lead hc
    · rintro ⟨hnext, hrest⟩
      exact (hrow.lead_of_rest hnext hrest).2

/-- Every run of safe steps from a new screen returns, and the screen is in order at its end. -/
theorem screen_invariant (cols rows : ℕ) (hcols : 0 < cols) (hrows : 0 < rows)
    (hsmall : cols * rows < 2147483648) (inputs : List Input)
    (hsafe : Along termStep InputSafe (VtParser.init, Surface.init cols rows) inputs) :
    ∃ x, run termStep (VtParser.init, Surface.init cols rows) inputs = some x ∧ ScreenOk x.2 := by
  obtain ⟨x, hx, hfits⟩ := run_invariant fits_termStep inputs
    (VtParser.init, Surface.init cols rows) (fits_init hcols hrows hsmall) hsafe
  exact ⟨x, hx, hfits.screenOk⟩

/-- A wide character and a letter over its right half, in two columns. -/
def wideAndOver : List Input :=
  [0xe3, 0x81, 0x82, 13, 27, 91, 67, 65].map (.byte true)

theorem wideAndOver_ok :
    ∃ x, run termStep (VtParser.init, Surface.init 4 2) wideAndOver = some x ∧ ScreenOk x.2 :=
  screen_invariant 4 2 (by decide) (by decide) (by decide) wideAndOver (by decide +kernel)

/-- The screen loses its last row, then two line feeds arrive. -/
def shrinkAndFeed : List Input := [.resize 4 2 defaultCell, .byte true 10, .byte true 10]

/-- The cursor leaves the screen, because the scroll region still ends at the row that is gone. -/
theorem cursor_leaves_screen :
    ∃ x, run termStep (VtParser.init, Surface.init 4 3) shrinkAndFeed = some x ∧
      x.2.rows = 2 ∧ x.2.cursor.row = 2 ∧ ¬ScreenOk x.2 := by
  have hrun : (run termStep (VtParser.init, Surface.init 4 3) shrinkAndFeed).map
      (fun x => (x.2.rows, x.2.cursor.row)) = some (2, 2) := by
    decide +kernel
  obtain ⟨x, hx, hend⟩ := Option.map_eq_some_iff.mp hrun
  obtain ⟨hrows, hrow⟩ := Prod.mk.inj hend
  refine ⟨x, hx, hrows, hrow, fun hok => ?_⟩
  have := hok.cursor.2
  omega

end Sodex.Term
