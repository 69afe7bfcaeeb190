import Sodex.TermDamage

/-!
# Rendering the screen

`render_surface` of the terminal with its two back ends. On the framebuffer a picture is kept as one
tile for each cell: what `cell_renderer_draw_cell` puts there, which for a wide character reaches
into the next cell. On the text console a cell is a character with its colour. Only dirty cells are
drawn again, and on the framebuffer also the cell that the cursor has left; after lines were
scrolled the framebuffer, but not the console, is drawn anew.
-/
namespace Sodex.Term

open Runs CInt Surface

/-- What the display shows in the place of a cell. Colours are indices of the palette. -/
inductive Tile where
  | cleared
  /-- A continuation cell that is drawn alone. -/
  | fill (bg : UInt8)
  /-- The column `part` of a character that is `width` columns wide. -/
  | glyph (ch : UInt32) (fg bg : UInt8) (width part : ℕ)
  /-- A character of the text console. -/
  | text (color ch : UInt8)
  deriving DecidableEq, Repr

def resolveColors (cell : Cell) (cursor : Bool) : UInt8 × UInt8 :=
  let fg := cell.fg &&& 0x0f
  let bg := cell.bg &&& 0x0f
  let fg := if cell.attr &&& TERM_ATTR_BOLD ≠ 0 ∧ fg < 8 then fg + 8 else fg
  let (fg, bg) := if cell.attr &&& TERM_ATTR_REVERSE ≠ 0 then (bg, fg) else (fg, bg)
  if cursor then (bg, fg) else (fg, bg)

/-- The number of columns that a cell is drawn over. -/
def drawnWidth (cell : Cell) : ℕ := if cell.width = 0 then 1 else cell.width.toNat

/-- A column of the character of a cell. -/
def glyphTile (cell : Cell) (cursor : Bool) (part : ℕ) : Tile :=
  let (fg, bg) := resolveColors cell cursor
  .glyph (if cell.ch = 0 then 32 else cell.ch) fg bg (drawnWidth cell) part

/-- What `cell_renderer_draw_cell` puts at a column, if it reaches it. -/
def drawnTile (cell : Cell) (cursor : Bool) (col c : ℕ) : Option Tile :=
  if cell.isContinuation then if c = col then some (.fill (resolveColors cell cursor).2) else none
  else if col ≤ c ∧ c < col + drawnWidth cell then some (glyphTile cell cursor (c - col)) else none

/-- `cell_renderer_draw_cell` on a display as large as the screen. -/
def drawCell (s : Surface) (picture : ℕ → ℕ → Tile) (col row : ℕ) (cursor : Bool) :
    ℕ → ℕ → Tile := fun r c =>
  if col < s.cols ∧ row < s.rows ∧ r = row then
    (drawnTile (s.cell row col) cursor col c).getD (picture r c)
  else picture r c

/-- The places of the screen, row by row. -/
def screenPlaces (s : Surface) : List (ℕ × ℕ) :=
  (List.range s.rows).flatMap fun r => (List.range s.cols).map fun c => (r, c)

/-- A continuation cell stands right of a wide one. -/
def hasLead (f : ℕ → Cell) (c : ℕ) : Prop :=
  (f c).isContinuation = true ∧ 0 < c ∧ (f (c - 1)).isContinuation = false ∧ 1 < (f (c - 1)).width

instance (f : ℕ → Cell) (c : ℕ) : Decidable (hasLead f c) :=
  inferInstanceAs (Decidable (_ ∧ _ ∧ _ ∧ _))

/-- One round of the loop over the cells of the framebuffer. -/
def drawPlace (s : Surface) (force : Bool) (picture : ℕ → ℕ → Tile) (p : ℕ × ℕ) : ℕ → ℕ → Tile :=
  if force = false ∧ s.screen.dirty p.1 p.2 = false then picture
  else if hasLead (s.screen.cells p.1) p.2 then drawCell s picture (p.2 - 1) p.1 false
  else drawCell s picture p.2 p.1 false

def renderColor (cell : Cell) : UInt8 :=
  let fg := cell.fg &&& 0x0f
  let bg := cell.bg &&& 0x0f
  let fg := if cell.attr &&& TERM_ATTR_BOLD ≠ 0 ∧ fg < 8 then fg + 8 else fg
  let (fg, bg) := if cell.attr &&& TERM_ATTR_REVERSE ≠ 0 then (bg, fg) else (fg, bg)
  let bg := if 8 ≤ bg then bg - 8 else bg
  (bg <<< 4) ||| (fg &&& 0x0f)

def renderChar (cell : Cell) : UInt8 :=
  if cell.ch = 0 ∨ cell.isContinuation then 32
  else if cell.ch < 0x20 ∨ 0x7e < cell.ch then 63
  else cell.ch.toUInt8

/-- What the console shows of a cell. -/
def textTile (cell : Cell) : Tile := .text (renderColor cell) (renderChar cell)

/-- One round of the loop over the cells of the console. -/
def putPlace (s : Surface) (force : Bool) (picture : ℕ → ℕ → Tile) (p : ℕ × ℕ) : ℕ → ℕ → Tile :=
  if force = false ∧ s.screen.dirty p.1 p.2 = false then picture
  else update picture p.1 p.2 (textTile (s.cell p.1 p.2))

/-- `struct term_app`. -/
structure App where
  parser : VtParser
  surface : Surface
  useFramebuffer : Bool
  picture : ℕ → ℕ → Tile
  lastScrollCount : ℤ
  lastCol : ℕ
  lastRow : ℕ
  cursorValid : Bool

namespace App

def scrollDelta (app : App) : ℤ := toInt (app.surface.scrollCount - app.lastScrollCount)

/-- The framebuffer is drawn anew. -/
def redraws (app : App) (force : Bool) : Bool := force || 0 < app.scrollDelta

/-- The cursor was drawn elsewhere before. -/
def cursorMoved (app : App) : Prop :=
  app.cursorValid = true ∧
    (app.lastCol ≠ app.surface.cursor.col ∨ app.lastRow ≠ app.surface.cursor.row)

instance (app : App) : Decidable app.cursorMoved := inferInstanceAs (Decidable (_ ∧ _))

/-- The framebuffer with all cells that are to be drawn. -/
def drawCells (app : App) (force : Bool) : ℕ → ℕ → Tile :=
  (screenPlaces app.surface).foldl (drawPlace app.surface (app.redraws force))
    (if app.redraws force then fun _ _ => .cleared else app.picture)

/-- The cell that the cursor has left is drawn again. -/
def drawLeft (app : App) (picture : ℕ → ℕ → Tile) : ℕ → ℕ → Tile :=
  if app.cursorMoved then drawCell app.surface picture app.lastCol app.lastRow false else picture

def framePicture (app : App) (force : Bool) : ℕ → ℕ → Tile :=
  drawCell app.surface (app.drawLeft (app.drawCells force)) app.surface.cursor.col
    app.surface.cursor.row true

def consolePicture (app : App) (force : Bool) : ℕ → ℕ → Tile :=
  (screenPlaces app.surface).foldl (putPlace app.surface force) app.picture

def renderSurface (app : App) (force : Bool) : App :=
  if app.useFramebuffer then
    { app with
      picture := app.framePicture force
      lastCol := app.surface.cursor.col
      lastRow := app.surface.cursor.row
      cursorValid := true
      lastScrollCount := app.surface.scrollCount
      surface := app.surface.clearDamage }
  else
    { app with
      picture := app.consolePicture force
      lastScrollCount := app.surface.scrollCount
      surface := app.surface.clearDamage }

/-- A new terminal on a display that shows anything. -/
def new (cols rows : ℕ) (useFramebuffer : Bool) (picture : ℕ → ℕ → Tile) : App where
  parser := .init
  surface := .init cols rows
  useFramebuffer := useFramebuffer
  picture := picture
  lastScrollCount := 0
  lastCol := 0
  lastRow := 0
  cursorValid := false

end App

/-- A byte is fed, with the answer to a request for memory, or the screen is rendered. -/
inductive AppInput where
  | feed (granted : Bool) (b : UInt8)
  | render (force : Bool)
  deriving DecidableEq, Repr

def appStep (app : App) : AppInput → Option App
  | .feed granted b => (feed (app.parser, app.surface) (granted, b)).map fun x =>
    { app with parser := x.1, surface := x.2 }
  | .render force => some (app.renderSurface force)

section Row

variable {cols col c : ℕ} {f g : ℕ → Cell}

/-- What a full redraw shows at a column of a row. -/
def rowTile (f : ℕ → Cell) (c : ℕ) : Tile :=
  if hasLead f c then glyphTile (f (c - 1)) false 1
  else if (f c).isContinuation then .fill (resolveColors (f c) false).2
  else glyphTile (f c) false 0

theorem RowOk.hasLead_iff (h : RowOk cols f) (hc : c < cols) :
    hasLead f c ↔ (f c).isContinuation = true := by
  constructor
  · exact fun hlead => hlead.1
  · intro hrest
    obtain ⟨hpos, hlead⟩ := h.lead_of_rest hc hrest
    have hwhole := h.whole (lt_of_le_of_lt (Nat.sub_le c 1) hc)
    refine ⟨hrest, hpos, ?_, by rw [hlead]; decide⟩
    simpa using hwhole.not_rest hlead

theorem drawnWidth_wide {cell : Cell} (h : cell.width = 2) : drawnWidth cell = 2 := by
  simp [drawnWidth, h]

theorem RowOk.drawnWidth_narrow (h : RowOk cols f) (hc : c < cols) (hnarrow : (f c).width ≠ 2) :
    drawnWidth (f c) = 1 := by
  have hle : (f c).width.toNat ≤ 2 := (h.whole hc).1
  have hne : (f c).width.toNat ≠ 2 := fun heq => hnarrow (UInt8.toNat_inj.mp heq)
  unfold drawnWidth
  split
  · rfl
  · rename_i hzero
    have : (f c).width.toNat ≠ 0 := fun heq => hzero (UInt8.toNat_inj.mp heq)
    omega

/-- A cell that is no continuation cell is drawn as in a full redraw. -/
theorem RowOk.drawnTile_eq (h : RowOk cols f) (hcol : col < cols)
    (hrest : ¬(f col).isContinuation = true) {t : Tile}
    (ht : drawnTile (f col) false col c = some t) : t = rowTile f c := by
  unfold drawnTile at ht
  rw [if_neg hrest] at ht
  split at ht
  · rename_i hin
    obtain rfl := Option.some.inj ht
    by_cases hwide : (f col).width = 2
    · rw [drawnWidth_wide hwide] at hin
      obtain rfl | rfl : c = col ∨ c = col + 1 := by omega
      · rw [rowTile, if_neg (fun hlead => hrest hlead.1), if_neg hrest, Nat.sub_self]
      · obtain ⟨hnext, hrest'⟩ := h.rest_of_lead hcol hwide
        rw [rowTile, if_pos ((h.hasLead_iff hnext).mpr hrest')]
        simp
    · rw [h.drawnWidth_narrow hcol hwide] at hin
      obtain rfl : c = col := by omega
      rw [rowTile, if_neg (fun hlead => hrest hlead.1), if_neg hrest, Nat.sub_self]
  · cases ht

/-- Which columns the drawing of a cell reaches. -/
theorem RowOk.drawnTile_isSome (h : RowOk cols f) (hcol : col < cols) (cursor : Bool) :
    (drawnTile (f col) cursor col c).isSome = true ↔
      c = col ∨ (c = col + 1 ∧ (f col).width = 2) := by
  unfold drawnTile
  split
  · rename_i hrest
    have hlead := (h.whole hcol).not_lead hrest
    split <;> simp_all
  · by_cases hwide : (f col).width = 2
    · rw [drawnWidth_wide hwide]
      split
      · simp [hwide]
        omega
      · simp [hwide]
        omega
    · rw [h.drawnWidth_narrow hcol hwide]
      split
      · simp [hwide]
        omega
      · simp [hwide]
        omega

end Row

end Sodex.Term
