import Mathlib.Algebra.BigOperators.Group.List.Basic
import Mathlib.Algebra.GroupWithZero.Nat
import Mathlib.Data.List.DropRight
import Sodex.CInt

/-!
# The screen of the terminal

`terminal_surface.c`: a primary and an alternate screen of cells with dirty flags, of which one is
shown, a cursor with a pending wrap, a scroll region, and the rows that were scrolled off. A wide
character takes a cell of width 2 and a continuation cell to its right.
-/
namespace Sodex.Term

open CInt

/-- `struct term_cell`. -/
structure Cell where
  ch : UInt32
  fg : UInt8
  bg : UInt8
  attr : UInt8
  width : UInt8
  deriving DecidableEq, Repr

def TERM_ATTR_BOLD : UInt8 := 1
def TERM_ATTR_REVERSE : UInt8 := 2
def TERM_ATTR_CONTINUATION : UInt8 := 4
def TERM_TAB_WIDTH : ℕ := 8
def TERM_SCROLLBACK_ROWS : ℕ := 512
def TERM_SCROLLBACK_MAX_COLS : ℕ := 320

/-- The right half of a wide character. -/
def Cell.isContinuation (c : Cell) : Bool := c.attr &&& TERM_ATTR_CONTINUATION ≠ 0

def blankCell (fill : Cell) : Cell :=
  { fill with ch := 32, attr := fill.attr &&& ~~~TERM_ATTR_CONTINUATION, width := 1 }

/-- The cells of a screen and their flags, by row and column. -/
structure Screen where
  cells : ℕ → ℕ → Cell
  dirty : ℕ → ℕ → Bool

structure Cursor where
  col : ℕ
  row : ℕ
  wrapPending : Bool
  deriving DecidableEq, Repr

def Cursor.home : Cursor := ⟨0, 0, false⟩

/-- `struct terminal_surface`. The rows that were scrolled off are kept from the oldest on. -/
structure Surface where
  cols : ℕ
  rows : ℕ
  cursor : Cursor
  saved : Cursor
  primary : Screen
  alternate : Screen
  hasAlternate : Bool
  alternateActive : Bool
  dirtyCount : ℤ
  scrollCount : ℤ
  primaryCursor : Cursor
  primarySaved : Cursor
  scrollTop : ℕ
  scrollBottom : ℕ
  scrollback : List (List Cell)

/-- One place of a table is replaced. -/
def update {α : Type*} (f : ℕ → ℕ → α) (row col : ℕ) (v : α) : ℕ → ℕ → α :=
  fun r c => if r = row ∧ c = col then v else f r c

/-- The places of a rectangle, row by row. -/
def places (left top right bottom : ℕ) : List (ℕ × ℕ) :=
  (List.range' top (bottom + 1 - top)).flatMap fun r =>
    (List.range' left (right + 1 - left)).map fun c => (r, c)

/-- The number of dirty flags that are set. -/
def countDirty (cols rows : ℕ) (dirty : ℕ → ℕ → Bool) : ℕ :=
  ((List.range rows).map fun r => (List.range cols).countP (dirty r)).sum

namespace Surface

/-- The screen that `cells` and `dirty` point to. -/
def screen (s : Surface) : Screen := if s.alternateActive then s.alternate else s.primary

/-- The screen that is shown is replaced, with the number of its dirty cells. -/
def withScreen (s : Surface) (screen : Screen) (count : ℤ) : Surface :=
  if s.alternateActive then { s with alternate := screen, dirtyCount := count }
  else { s with primary := screen, dirtyCount := count }

def cell (s : Surface) (row col : ℕ) : Cell := s.screen.cells row col

/-- A cell is replaced and marked with `terminal_surface_mark_dirty`. -/
def store (s : Surface) (row col : ℕ) (cell : Cell) : Surface :=
  s.withScreen ⟨update s.screen.cells row col cell, update s.screen.dirty row col true⟩
    (if s.screen.dirty row col then s.dirtyCount else s.dirtyCount + 1)

def clear (s : Surface) (fill : Cell) : Surface :=
  s.withScreen ⟨fun _ _ => blankCell fill, fun _ _ => true⟩ (toInt (s.cols * s.rows))

def reset (s : Surface) (fill : Cell) : Surface :=
  clear { s with
    cursor := .home
    saved := .home
    scrollCount := 0
    scrollTop := 0
    scrollBottom := s.rows - 1
    scrollback := [] } fill

def clearRegion (s : Surface) (left top right bottom : ℕ) (fill : Cell) : Surface :=
  let left := min left (s.cols - 1)
  let right := min right (s.cols - 1)
  let top := min top (s.rows - 1)
  let bottom := min bottom (s.rows - 1)
  (places left top right bottom).foldl (fun s p => s.store p.1 p.2 (blankCell fill)) s

def markAllDirty (s : Surface) : Surface :=
  s.withScreen { s.screen with dirty := fun _ _ => true } (toInt (s.cols * s.rows))

def clearDamage (s : Surface) : Surface :=
  s.withScreen { s.screen with dirty := fun _ _ => false } 0

/-- A value that `terminal_surface_clamp` brings between zero and a size. -/
def clamp (value : ℤ) (size : ℕ) : ℕ := min value.toNat (size - 1)

def setCursor (s : Surface) (col row : ℤ) : Surface :=
  { s with cursor := ⟨clamp col s.cols, clamp row s.rows, false⟩ }

def moveCursor (s : Surface) (dcol drow : ℤ) : Surface :=
  s.setCursor (toInt (s.cursor.col + dcol)) (toInt (s.cursor.row + drow))

def saveCursor (s : Surface) : Surface := { s with saved := s.cursor }

def restoreCursor (s : Surface) : Surface := { s with cursor := s.saved }

/-- `terminal_surface_enter_alternate`; `granted` tells whether memory can be allocated. -/
def enterAlternate (s : Surface) (granted : Bool) (fill : Cell) : Surface :=
  if s.alternateActive then s.reset fill
  else if !s.hasAlternate && !granted then s
  else
    { s with
      hasAlternate := true
      primaryCursor := s.cursor
      primarySaved := s.saved
      alternate := ⟨fun _ _ => blankCell fill, fun _ _ => true⟩
      alternateActive := true
      cursor := .home
      saved := .home
      scrollCount := 0
      dirtyCount := toInt (s.cols * s.rows) }

def leaveAlternate (s : Surface) : Surface :=
  if s.alternateActive then
    markAllDirty { s with
      alternateActive := false
      cursor := s.primaryCursor
      saved := s.primarySaved }
  else s

/-- The region that `terminal_surface_set_scroll_region` sets, if it sets one. -/
def regionFor (rows : ℕ) (top bottom : ℤ) : Option (ℕ × ℕ) :=
  let top := max top 0
  let bottom := min bottom ((rows : ℤ) - 1)
  if bottom ≤ top then none else some (top.toNat, bottom.toNat)

def setScrollRegion (s : Surface) (top bottom : ℤ) : Surface :=
  match regionFor s.rows top bottom with
  | none => s
  | some region => { s with scrollTop := region.1, scrollBottom := region.2, cursor := .home }

/-- The cells of a row that are kept when it is scrolled off. -/
def capturedCells (s : Surface) (row : ℕ) : List Cell :=
  (List.range (min s.cols TERM_SCROLLBACK_MAX_COLS)).map (s.cell row)

/-- `terminal_surface_capture_scrollback_row`; the oldest row makes room for a new one. -/
def captureRow (s : Surface) (row : ℕ) : Surface :=
  { s with scrollback := (s.scrollback ++ [s.capturedCells row]).rtake TERM_SCROLLBACK_ROWS }

/-- The rows of a region are moved up from the top on, with their flags; the rows that become free
are blank and dirty. -/
def shiftRows (screen : Screen) (top bottom lines : ℕ) (fill : Cell) : Screen where
  cells := fun r c =>
    if top ≤ r ∧ r + lines ≤ bottom then screen.cells (r + lines) c
    else if top ≤ r ∧ r ≤ bottom then blankCell fill
    else screen.cells r c
  dirty := fun r c =>
    if top ≤ r ∧ r + lines ≤ bottom then screen.dirty (r + lines) c
    else if top ≤ r ∧ r ≤ bottom then true
    else screen.dirty r c

/-- The last row that is scrolled. -/
def regionBottom (s : Surface) : ℕ := min s.scrollBottom (s.rows - 1)

/-- The number of rows that are scrolled. -/
def regionSize (s : Surface) : ℕ := s.regionBottom + 1 - s.scrollTop

/-- The rows that leave the primary screen at its top are captured. -/
def captureLines (s : Surface) (lines : ℕ) : Surface :=
  if !s.alternateActive ∧ s.scrollTop = 0 ∧ s.regionBottom = s.rows - 1 then
    (List.range (min lines s.regionSize)).foldl captureRow s
  else s

/-- The lines that were scrolled are counted. -/
def countLines (s : Surface) (lines : ℕ) : Surface :=
  { s with scrollCount := toInt (s.scrollCount + lines) }

/-- The rows of the region are moved or, if none is left, cleared. -/
def moveLines (s : Surface) (lines : ℕ) (fill : Cell) : Surface :=
  if s.regionSize ≤ lines then s.clearRegion 0 s.scrollTop (s.cols - 1) s.regionBottom fill
  else
    let screen := shiftRows s.screen s.scrollTop s.regionBottom lines fill
    s.withScreen screen (countDirty s.cols s.rows screen.dirty)

def dropWrap (s : Surface) : Surface := { s with cursor := { s.cursor with wrapPending := false } }

def scrollUp (s : Surface) (lines : ℕ) (fill : Cell) : Surface :=
  if lines = 0 then s else ((s.dropWrap.captureLines lines).countLines lines).moveLines lines fill

def blankOut (s : Surface) (col row : ℕ) (fill : Cell) : Surface :=
  if col < s.cols ∧ row < s.rows then
    if s.cell row col = blankCell fill then s else s.store row col (blankCell fill)
  else s

/-- The cell that `terminal_surface_put_cell` stores. -/
def normalizeCell (cell : Cell) : Cell :=
  if cell.isContinuation then { cell with ch := 0, width := 0 }
  else
    { cell with
      ch := if cell.ch = 0 then 32 else cell.ch
      width := if cell.width = 0 then 1 else cell.width }

/-- The other half of a wide character is blanked. -/
def splitWide (s : Surface) (col row : ℕ) (fill : Cell) : Surface :=
  if (s.cell row col).isContinuation ∧ 0 < col then s.blankOut (col - 1) row fill
  else if 1 < (s.cell row col).width ∧ col + 1 < s.cols then s.blankOut (col + 1) row fill
  else s

/-- A cell is stored if it differs. -/
def change (s : Surface) (col row : ℕ) (next : Cell) : Surface :=
  if s.cell row col = next then s else s.store row col next

def putCell (s : Surface) (col row : ℕ) (cell : Cell) : Surface :=
  if col < s.cols ∧ row < s.rows then
    (s.splitWide col row (normalizeCell cell)).change col row (normalizeCell cell)
  else s

def carriageReturn (s : Surface) : Surface := { s with cursor := ⟨0, s.cursor.row, false⟩ }

def atRow (s : Surface) (row : ℕ) : Surface := { s with cursor := { s.cursor with row := row } }

def newline (s : Surface) (fill : Cell) : Surface :=
  let s := s.carriageReturn
  if s.scrollBottom ≤ s.cursor.row then (s.scrollUp 1 fill).atRow s.scrollBottom
  else s.atRow (s.cursor.row + 1)

/-- `terminal_surface_wrap_for_output`, which does the same as a line feed if a wrap is pending. -/
def wrapForOutput (s : Surface) (fill : Cell) : Surface :=
  if s.cursor.wrapPending then s.newline fill else s

/-- The width that `terminal_surface_write_codepoint` uses. -/
def effectiveWidth (cols width : ℕ) : ℕ :=
  if 2 < width then 1 else if width = 2 ∧ cols < 2 then 1 else width

/-- The right half of a wide character. -/
def continuationCell (style : Cell) : Cell :=
  { blankCell style with
    ch := 0, attr := (blankCell style).attr ||| TERM_ATTR_CONTINUATION, width := 0 }

/-- The cursor moves on behind a character. -/
def advance (s : Surface) (width : ℕ) : Surface :=
  if s.cols - width ≤ s.cursor.col then
    { s with cursor := { s.cursor with col := s.cols - 1, wrapPending := true } }
  else { s with cursor := { s.cursor with col := s.cursor.col + width, wrapPending := false } }

/-- A wide character does not start in the last column. -/
def roomFor (s : Surface) (width : ℕ) (style : Cell) : Surface :=
  if width = 2 ∧ s.cols - 1 ≤ s.cursor.col then s.newline style else s

/-- The left half of a wide character, or a narrow one. -/
def leadCell (codepoint : UInt32) (width : ℕ) (style : Cell) : Cell :=
  { blankCell style with ch := if codepoint = 0 then 32 else codepoint, width := width.toUInt8 }

def putCharacter (s : Surface) (codepoint : UInt32) (width : ℕ) (style : Cell) : Surface :=
  let s := s.putCell s.cursor.col s.cursor.row (leadCell codepoint width style)
  if width = 2 then s.putCell (s.cursor.col + 1) s.cursor.row (continuationCell style) else s

def writeCodepoint (s : Surface) (codepoint : UInt32) (width : ℕ) (style : Cell) : Surface :=
  if width = 0 then s
  else
    let width := effectiveWidth s.cols width
    (((s.wrapForOutput style).roomFor width style).putCharacter codepoint width style).advance width

def backspace (s : Surface) : Surface :=
  if s.cursor.wrapPending then { s with cursor := { s.cursor with wrapPending := false } }
  else { s with cursor := { s.cursor with col := s.cursor.col - 1 } }

/-- The loop of `terminal_surface_tab`; `none` if it has not ended after so many rounds. -/
def tabLoop (style : Cell) (nextStop : ℕ) : ℕ → Surface → Option Surface
  | 0, s => if s.cursor.col < nextStop then none else some s
  | rounds + 1, s =>
    if s.cursor.col < nextStop then
      let s := s.writeCodepoint 32 1 style
      if s.cursor.col = 0 then some s else tabLoop style nextStop rounds s
    else some s

def nextStop (s : Surface) : ℕ := (s.cursor.col / TERM_TAB_WIDTH + 1) * TERM_TAB_WIDTH

/-- `terminal_surface_tab`; `none` if it never returns. A loop that has not ended after the width
of a tab never ends. -/
def tab (s : Surface) (style : Cell) : Option Surface :=
  let s := s.wrapForOutput style
  tabLoop style s.nextStop TERM_TAB_WIDTH s

/-- A screen that `terminal_surface_resize_buffer` makes. -/
def resizeBuffer (screen : Screen) (oldCols oldRows cols rows : ℕ) (fill : Cell) : Screen where
  cells := fun r c =>
    if r < min oldRows rows ∧ c < min oldCols cols then screen.cells r c else blankCell fill
  dirty := fun _ _ => true

/-- A cursor after a change of the size. -/
def clampCursor (cur : Cursor) (cols rows : ℕ) : Cursor where
  col := min cur.col (cols - 1)
  row := min cur.row (rows - 1)
  wrapPending := cur.wrapPending && min cur.col (cols - 1) = cols - 1

/-- `terminal_surface_resize`, when memory can be allocated. The scroll region stays as it is. -/
def resize (s : Surface) (cols rows : ℕ) (fill : Cell) : Surface :=
  if cols = 0 ∨ rows = 0 then s
  else
    { s with
      cols := cols
      rows := rows
      primary := resizeBuffer s.primary s.cols s.rows cols rows fill
      alternate := if s.hasAlternate then resizeBuffer s.alternate s.cols s.rows cols rows fill
        else s.alternate
      scrollback := []
      cursor := clampCursor s.cursor cols rows
      saved := clampCursor s.saved cols rows
      primaryCursor := clampCursor s.primaryCursor cols rows
      primarySaved := clampCursor s.primarySaved cols rows
      dirtyCount := toInt (cols * rows) }

end Surface

/-- The cell of `terminal_surface_blank_cell(NULL)`. -/
def defaultCell : Cell := ⟨32, 7, 0, 0, 1⟩

/-- `terminal_surface_init`, when memory can be allocated. -/
def Surface.init (cols rows : ℕ) : Surface :=
  Surface.reset
    { cols, rows, cursor := .home, saved := .home
      primary := ⟨fun _ _ => defaultCell, fun _ _ => false⟩
      alternate := ⟨fun _ _ => defaultCell, fun _ _ => false⟩
      hasAlternate := false, alternateActive := false, dirtyCount := 0, scrollCount := 0
      primaryCursor := .home, primarySaved := .home, scrollTop := 0, scrollBottom := 0
      scrollback := [] } defaultCell

end Sodex.Term
