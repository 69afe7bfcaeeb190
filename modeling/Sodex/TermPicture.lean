import Sodex.TermRender

/-!
# The picture of the screen

As long as every wide character has both halves, each single drawing puts tiles of the full picture.
A picture of the screen as it was at the last rendering is thus brought up to date by drawing the
cells that are dirty and the one the cursor has left, unless that one is the right half of a wide
character, which is drawn alone then. On the console a cell that was scrolled without being dirty
is not drawn.
-/
namespace Sodex.Term

open Runs CInt Surface List Option

section Draw

variable {s : Surface} {picture : ℕ → ℕ → Tile} {force : Bool} {ps : List (ℕ × ℕ)} {p : ℕ × ℕ}

/-- The columns that the drawing of a cell reaches in a row in order. -/
def Reaches (f : ℕ → Cell) (col c : ℕ) : Prop := c = col ∨ (c = col + 1 ∧ (f col).width = 2)

section

variable (h : RowsOk s.cols s.rows s.screen.cells)
include h

theorem drawCell_reached {col row c : ℕ}
    (hcol : col < s.cols) (hrow : row < s.rows) (hrest : ¬(s.cell row col).isContinuation = true)
    (hreach : Reaches (s.screen.cells row) col c) :
    drawCell s picture col row false row c = rowTile (s.screen.cells row) c := by
  have hsome := ((h row hrow).drawnTile_isSome hcol false).mpr hreach
  obtain ⟨t, ht⟩ := isSome_iff_exists.mp hsome
  rw [drawCell, if_pos ⟨hcol, hrow, rfl⟩, Surface.cell, ht]
  exact (h row hrow).drawnTile_eq hcol hrest ht

theorem drawCell_unreached {col row r c : ℕ}
    (hreach : ¬(r = row ∧ Reaches (s.screen.cells row) col c)) (cursor : Bool) :
    drawCell s picture col row cursor r c = picture r c := by
  unfold drawCell
  split
  · rename_i hin
    have hnone := mt ((h row hin.2.1).drawnTile_isSome hin.1 cursor).mp
      (fun hreach' => hreach ⟨hin.2.2, hreach'⟩)
    rw [Surface.cell, not_isSome_iff_eq_none.mp hnone]
    rfl
  · rfl

/-- What the drawing of a cell puts does not depend on what was there. -/
theorem drawCell_congr {col row r c : ℕ} {picture' : ℕ → ℕ → Tile}
    (cursor : Bool)
    (heq : ¬(r = row ∧ Reaches (s.screen.cells row) col c) → picture r c = picture' r c)
    (hcol : col < s.cols) (hrow : row < s.rows) :
    drawCell s picture col row cursor r c = drawCell s picture' col row cursor r c := by
  by_cases hreach : r = row ∧ Reaches (s.screen.cells row) col c
  · have hsome := ((h row hrow).drawnTile_isSome hcol cursor).mpr hreach.2
    obtain ⟨t, ht⟩ := isSome_iff_exists.mp hsome
    simp only [drawCell, Surface.cell, hcol, hrow, hreach.1, ht, and_self, if_true, getD_some]
  · rw [drawCell_unreached h hreach, drawCell_unreached h hreach, heq hreach]

end

/-- The columns that are drawn with the cell at a column. -/
def Touches (f : ℕ → Cell) (col c : ℕ) : Prop :=
  c = col ∨ (c = col + 1 ∧ (f col).width = 2) ∨ (c + 1 = col ∧ (f col).isContinuation = true)

/-- A place that is drawn in the loop. -/
def DrawsAt (s : Surface) (force : Bool) (p : ℕ × ℕ) (r c : ℕ) : Prop :=
  (force = true ∨ s.screen.dirty p.1 p.2 = true) ∧ r = p.1 ∧ Touches (s.screen.cells p.1) p.2 c

theorem drawPlace_drawn {r c : ℕ} (h : RowsOk s.cols s.rows s.screen.cells)
    (hp : p.1 < s.rows ∧ p.2 < s.cols) (hdraws : DrawsAt s force p r c) :
    drawPlace s force picture p r c = rowTile (s.screen.cells r) c := by
  obtain ⟨hdrawn, rfl, htouches⟩ := hdraws
  have hrow := h p.1 hp.1
  have hclean : ¬(force = false ∧ s.screen.dirty p.1 p.2 = false) := by
    rintro ⟨hforce, hclean⟩
    rcases hdrawn with hdrawn | hdrawn
    · rw [hforce] at hdrawn
      cases hdrawn
    · rw [hclean] at hdrawn
      cases hdrawn
  unfold drawPlace
  rw [if_neg hclean]
  by_cases hrest : (s.screen.cells p.1 p.2).isContinuation = true
  · have hlead := (hrow.hasLead_iff hp.2).mpr hrest
    have hwide := (hrow.lead_of_rest hp.2 hrest).2
    rw [if_pos hlead]
    apply drawCell_reached h (by omega) hp.1
    · exact (hrow.whole (by omega)).not_rest hwide
    · have hpos := hlead.2.1
      have hnot := (hrow.whole hp.2).not_lead hrest
      rcases htouches with rfl | ⟨-, hwide'⟩ | ⟨hprev, -⟩
      · exact .inr ⟨by omega, hwide⟩
      · exact absurd hwide' hnot
      · exact .inl (by omega)
  · rw [if_neg (fun hlead => hrest hlead.1)]
    apply drawCell_reached h hp.2 hp.1 hrest
    rcases htouches with hat | hnext | ⟨-, hrest'⟩
    · exact .inl hat
    · exact .inr hnext
    · exact absurd hrest' hrest

theorem drawPlace_other {r c : ℕ} (h : RowsOk s.cols s.rows s.screen.cells)
    (hp : p.1 < s.rows ∧ p.2 < s.cols) (hdraws : ¬DrawsAt s force p r c) :
    drawPlace s force picture p r c = picture r c := by
  have hrow := h p.1 hp.1
  unfold drawPlace
  split
  · rfl
  · rename_i hdrawn
    have hdrawn : force = true ∨ s.screen.dirty p.1 p.2 = true := by
      cases force <;> simp_all
    split
    · rename_i hlead
      have hpos := hlead.2.1
      apply drawCell_unreached h
      rintro ⟨rfl, hreach⟩
      refine hdraws ⟨hdrawn, rfl, ?_⟩
      rcases hreach with hat | ⟨hnext, -⟩
      · exact .inr (.inr ⟨by omega, hlead.1⟩)
      · exact .inl (by omega)
    · apply drawCell_unreached h
      rintro ⟨rfl, hreach⟩
      refine hdraws ⟨hdrawn, rfl, ?_⟩
      rcases hreach with hat | hnext
      · exact .inl hat
      · exact .inr (.inl hnext)

theorem foldl_drawPlace {r c : ℕ} (h : RowsOk s.cols s.rows s.screen.cells)
    (hps : ∀ p ∈ ps, p.1 < s.rows ∧ p.2 < s.cols) :
    ((∃ p ∈ ps, DrawsAt s force p r c) →
      ps.foldl (drawPlace s force) picture r c = rowTile (s.screen.cells r) c) ∧
    ((∀ p ∈ ps, ¬DrawsAt s force p r c) →
      ps.foldl (drawPlace s force) picture r c = picture r c) := by
  induction ps generalizing picture with
  | nil => exact ⟨fun hdraws => by simp at hdraws, fun _ => rfl⟩
  | cons p ps ih =>
    have hp := hps p mem_cons_self
    obtain ⟨hdrawn, hother⟩ := @ih (drawPlace s force picture p)
      fun q hq => hps q (mem_cons_of_mem p hq)
    rw [foldl_cons]
    constructor
    · rintro ⟨q, hq, hdraws⟩
      by_cases hlater : ∃ q ∈ ps, DrawsAt s force q r c
      · exact hdrawn hlater
      · rw [hother fun q hq hdraws => hlater ⟨q, hq, hdraws⟩]
        rcases mem_cons.mp hq with rfl | hq
        · exact drawPlace_drawn h hp hdraws
        · exact absurd ⟨q, hq, hdraws⟩ hlater
    · intro hnone
      rw [hother fun q hq => hnone q (mem_cons_of_mem p hq)]
      exact drawPlace_other h hp (hnone p mem_cons_self)

theorem mem_screenPlaces {r c : ℕ} : (r, c) ∈ screenPlaces s ↔ r < s.rows ∧ c < s.cols := by
  simp [screenPlaces]

theorem foldl_putPlace {r c : ℕ} : ps.foldl (putPlace s force) picture r c =
      if (r, c) ∈ ps ∧ (force = true ∨ s.screen.dirty r c = true) then textTile (s.cell r c)
      else picture r c := by
  induction ps generalizing picture with
  | nil => simp
  | cons p ps ih =>
    rw [foldl_cons, ih]
    by_cases hps : (r, c) ∈ ps ∧ (force = true ∨ s.screen.dirty r c = true)
    · simp [hps]
    · rw [if_neg hps, putPlace]
      by_cases hp : (r, c) = p
      · subst hp
        by_cases hdrawn : force = true ∨ s.screen.dirty r c = true
        · have hclean : ¬(force = false ∧ s.screen.dirty r c = false) := by
            cases force <;> simp_all
          rw [if_neg hclean, if_pos ⟨mem_cons_self, hdrawn⟩]
          simp [update]
        · have hclean : force = false ∧ s.screen.dirty r c = false := by
            cases force <;> simp_all
          rw [if_pos hclean, if_neg (fun hin => hdrawn hin.2)]
      · have hnot : ¬(r = p.1 ∧ c = p.2) := fun hat => hp (Prod.ext hat.1 hat.2)
        have hmem : ¬((r, c) ∈ p :: ps ∧ (force = true ∨ s.screen.dirty r c = true)) := by
          rintro ⟨hin, hdrawn⟩
          rcases mem_cons.mp hin with hin | hin
          · exact hp hin
          · exact hps ⟨hin, hdrawn⟩
        split
        · rfl
        · simp [update, hnot]

end Draw

namespace App

variable {app : App} {force : Bool} {shown : ℕ → ℕ → Cell} {r c : ℕ} (s : Surface)

/-- The framebuffer shows `shown`, except where the cursor was drawn. -/
structure FrameShows (app : App) (shown : ℕ → ℕ → Cell) : Prop where
  valid : app.cursorValid = true
  lastCol : app.lastCol < app.surface.cols
  lastRow : app.lastRow < app.surface.rows
  tiles : ∀ r < app.surface.rows, ∀ c < app.surface.cols,
    ¬(r = app.lastRow ∧ Reaches (shown r) app.lastCol c) → app.picture r c = rowTile (shown r) c

/-- The display shows `shown`, and what is clean has not changed since. -/
structure Current (app : App) (shown : ℕ → ℕ → Cell) : Prop where
  rowsOk : RowsOk app.surface.cols app.surface.rows shown
  clean : ∀ r < app.surface.rows, ∀ c < app.surface.cols,
    app.surface.screen.dirty r c = false → app.surface.screen.cells r c = shown r c
  delta : app.scrollDelta = 0
  frame : app.useFramebuffer = true → FrameShows app shown
  text : app.useFramebuffer = false →
    ∀ r < app.surface.rows, ∀ c < app.surface.cols, app.picture r c = textTile (shown r c)

/-- The next rendering draws what has changed. -/
structure Ready (app : App) : Prop where
  fits : Fits app.surface
  damage : AllDirty app.surface ∨ 0 < app.scrollDelta ∨ ∃ shown, Current app shown

/-- The cell that the cursor has left is no right half of a wide character, unless the cursor is on
the left half now. -/
def CursorSafe (app : App) : Prop :=
  app.cursorMoved → (app.surface.cell app.lastRow app.lastCol).isContinuation = true →
    app.surface.cursor.row = app.lastRow ∧ app.surface.cursor.col + 1 = app.lastCol

instance (app : App) : Decidable app.CursorSafe := inferInstanceAs (Decidable (_ → _ → _))

/-- What a rendering needs. On the console either no line was scrolled since the last one, or every
cell is dirty. -/
def RenderSafe (app : App) : Prop :=
  if app.useFramebuffer then app.CursorSafe else app.scrollDelta = 0 ∨ AllDirty app.surface

instance (app : App) : Decidable app.RenderSafe := inferInstanceAs (Decidable (ite _ _ _))

/-- Where the cursor was drawn at the last rendering. -/
def Stale (app : App) (r c : ℕ) : Prop :=
  app.cursorValid = true ∧ r = app.lastRow ∧
    Reaches (app.surface.screen.cells r) app.lastCol c

theorem drawCells_all (h : Fits app.surface)
    (hall : app.redraws force = true ∨ app.surface.screen.dirty r c = true)
    (hr : r < app.surface.rows) (hc : c < app.surface.cols) :
    app.drawCells force r c = rowTile (app.surface.screen.cells r) c := by
  refine (foldl_drawPlace h.shown fun p hp => mem_screenPlaces.mp hp).1 ?_
  exact ⟨(r, c), mem_screenPlaces.mpr ⟨hr, hc⟩, hall, rfl, .inl rfl⟩

/-- A tile of the old picture that is still right. -/
theorem Current.rowTile_eq (h : Fits app.surface) (hcurrent : Current app shown)
    (hr : r < app.surface.rows) (hc : c < app.surface.cols)
    (hnone : ∀ p ∈ screenPlaces app.surface, ¬DrawsAt app.surface force p r c) :
    rowTile (shown r) c = rowTile (app.surface.screen.cells r) c := by
  have hclean : ∀ d < app.surface.cols, Touches (app.surface.screen.cells r) d c →
      app.surface.screen.cells r d = shown r d := by
    intro d hd htouches
    apply hcurrent.clean r hr d hd
    by_contra hdirty
    exact hnone (r, d) (mem_screenPlaces.mpr ⟨hr, hd⟩) ⟨.inr (by simpa using hdirty), rfl, htouches⟩
  have hcell := hclean c hc (.inl rfl)
  have hnow := h.shown r hr
  have hthen := hcurrent.rowsOk r hr
  unfold rowTile
  by_cases hrest : (app.surface.screen.cells r c).isContinuation = true
  · obtain ⟨hpos, hlead⟩ := hnow.lead_of_rest hc hrest
    have hleft := hclean (c - 1) (by omega) (.inr (.inl ⟨by omega, hlead⟩))
    rw [if_pos ((hnow.hasLead_iff hc).mpr hrest),
      if_pos ((hthen.hasLead_iff hc).mpr (hcell ▸ hrest)), hleft]
  · have hrest' : ¬(shown r c).isContinuation = true := hcell ▸ hrest
    have hlead : ¬hasLead (app.surface.screen.cells r) c := fun hlead => hrest hlead.1
    have hlead' : ¬hasLead (shown r) c := fun hlead => hrest' hlead.1
    rw [if_neg hlead, if_neg hlead', if_neg hrest, if_neg hrest', hcell]

/-- The clean cells that the cursor was drawn over are the ones it would be drawn over now. -/
theorem Current.stale (h : Fits app.surface) (hcurrent : Current app shown)
    (hframe : FrameShows app shown) (hr : r < app.surface.rows) (hc : c < app.surface.cols)
    (hclean : app.surface.screen.dirty r c = false) (hlast : r = app.lastRow)
    (hreach : Reaches (shown r) app.lastCol c) : app.Stale r c := by
  refine ⟨hframe.valid, hlast, ?_⟩
  rcases hreach with hat | ⟨hnext, hwide⟩
  · exact .inl hat
  · subst hnext
    have hrest := ((hcurrent.rowsOk r hr).rest_of_lead hframe.lastCol hwide).2
    rw [← hcurrent.clean r hr _ hc hclean] at hrest
    exact .inr ⟨rfl, ((h.shown r hr).lead_of_rest hc hrest).2⟩

/-- After the loop every tile is right, except where the cursor was drawn. -/
theorem Ready.drawCells (h : Ready app) (hframe : app.useFramebuffer = true)
    (hr : r < app.surface.rows) (hc : c < app.surface.cols) :
    app.drawCells force r c = rowTile (app.surface.screen.cells r) c ∨ app.Stale r c := by
  rcases h.damage with hall | hdelta | ⟨shown, hcurrent⟩
  · exact .inl (drawCells_all h.fits (.inr (hall r hr c hc)) hr hc)
  · exact .inl (drawCells_all h.fits (.inl (by simp [redraws, hdelta])) hr hc)
  · by_cases hredraws : app.redraws force = true
    · exact .inl (drawCells_all h.fits (.inl hredraws) hr hc)
    · have hshows := hcurrent.frame hframe
      obtain ⟨hdrawn, hother⟩ := @foldl_drawPlace app.surface app.picture (app.redraws force)
        (screenPlaces app.surface) r c h.fits.shown fun p hp => mem_screenPlaces.mp hp
      have hstart : app.drawCells force = (screenPlaces app.surface).foldl
          (drawPlace app.surface (app.redraws force)) app.picture := by
        rw [App.drawCells, if_neg hredraws]
      rw [hstart]
      by_cases hdraws : ∃ p ∈ screenPlaces app.surface,
          DrawsAt app.surface (app.redraws force) p r c
      · exact .inl (hdrawn hdraws)
      · have hnone : ∀ p ∈ screenPlaces app.surface,
            ¬DrawsAt app.surface (app.redraws force) p r c := fun p hp hd => hdraws ⟨p, hp, hd⟩
        rw [hother hnone]
        by_cases hreach : r = app.lastRow ∧ Reaches (shown r) app.lastCol c
        · have hclean : app.surface.screen.dirty r c = false := by
            by_contra hdirty
            exact hnone (r, c) (mem_screenPlaces.mpr ⟨hr, hc⟩)
              ⟨.inr (by simpa using hdirty), rfl, .inl rfl⟩
          exact .inr (hcurrent.stale h.fits hshows hr hc hclean hreach.1 hreach.2)
        · left
          rw [hshows.tiles r hr c hc hreach]
          exact hcurrent.rowTile_eq h.fits hr hc hnone

theorem Ready.drawLeft (h : Ready app) (hframe : app.useFramebuffer = true)
    (hcursor : app.CursorSafe) (hr : r < app.surface.rows) (hc : c < app.surface.cols)
    (hunder : ¬(r = app.surface.cursor.row ∧
      Reaches (app.surface.screen.cells app.surface.cursor.row) app.surface.cursor.col c)) :
    app.drawLeft (app.drawCells force) r c = rowTile (app.surface.screen.cells r) c := by
  have hcells := @Ready.drawCells app force r c h hframe hr hc
  have hrows := h.fits.shown
  unfold App.drawLeft
  split
  · rename_i hmoved
    by_cases hlast : r = app.lastRow ∧
        Reaches (app.surface.screen.cells app.lastRow) app.lastCol c
    · obtain ⟨rfl, hreach⟩ := hlast
      have hcol : app.lastCol < app.surface.cols := by
        rcases hreach with hat | hnext <;> omega
      by_cases hrest : (app.surface.cell app.lastRow app.lastCol).isContinuation = true
      · -- the cursor is on the left half and covers both halves
        obtain ⟨hrow, hleft⟩ := hcursor hmoved hrest
        have hlead := ((hrows _ hr).lead_of_rest hcol hrest).2
        rcases hreach with hat | ⟨-, hwide⟩
        · refine absurd ⟨hrow.symm, .inr ⟨by omega, ?_⟩⟩ hunder
          rw [hrow]
          rwa [← hleft, Nat.add_sub_cancel] at hlead
        · exact absurd hwide (((hrows _ hr).whole hcol).not_lead hrest)
      · exact drawCell_reached hrows hcol hr hrest hreach
    · rw [drawCell_unreached hrows hlast]
      refine hcells.resolve_right fun hstale => hlast ⟨hstale.2.1, ?_⟩
      rw [← hstale.2.1]
      exact hstale.2.2
  · rename_i hmoved
    refine hcells.resolve_right fun hstale => hunder ?_
    have hsame : app.lastCol = app.surface.cursor.col ∧ app.lastRow = app.surface.cursor.row := by
      by_contra hother
      exact hmoved ⟨hstale.1, by omega⟩
    rw [← hsame.1, ← hsame.2, ← hstale.2.1]
    exact ⟨rfl, hstale.2.2⟩

/-- What a full redraw of a screen shows. -/
def fullPicture (s : Surface) (framebuffer : Bool) : ℕ → ℕ → Tile :=
  if framebuffer then
    drawCell s (fun r c => rowTile (s.screen.cells r) c) s.cursor.col s.cursor.row true
  else fun r c => textTile (s.cell r c)

theorem Ready.framePicture (h : Ready app) (hframe : app.useFramebuffer = true)
    (hcursor : app.CursorSafe) (hr : r < app.surface.rows) (hc : c < app.surface.cols) :
    app.framePicture force r c = fullPicture app.surface true r c := by
  rw [fullPicture, if_pos rfl, App.framePicture]
  exact drawCell_congr h.fits.shown true (fun hunder => h.drawLeft hframe hcursor hr hc hunder)
    h.fits.cursor.col h.fits.cursor.row

theorem Ready.consolePicture (h : Ready app) (hframe : app.useFramebuffer = false)
    (hsafe : app.scrollDelta = 0 ∨ AllDirty app.surface) (hr : r < app.surface.rows)
    (hc : c < app.surface.cols) :
    app.consolePicture force r c = fullPicture app.surface false r c := by
  have hmem : (r, c) ∈ screenPlaces app.surface := mem_screenPlaces.mpr ⟨hr, hc⟩
  rw [App.consolePicture, foldl_putPlace]
  split
  · rfl
  · rename_i hclean
    have hdirty : app.surface.screen.dirty r c = false := by
      by_contra hdirty
      exact hclean ⟨hmem, .inr (by simpa using hdirty)⟩
    have hnot : ¬AllDirty app.surface := fun hall => by simp [hall r hr c hc] at hdirty
    rcases h.damage with hall | hdelta | ⟨shown, hcurrent⟩
    · exact absurd hall hnot
    · have := hsafe.resolve_right hnot
      omega
    · rw [hcurrent.text hframe r hr c hc, ← hcurrent.clean r hr c hc hdirty]
      rfl

theorem Ready.picture (h : Ready app) (hsafe : app.RenderSafe) (hr : r < app.surface.rows)
    (hc : c < app.surface.cols) :
    (app.renderSurface force).picture r c = fullPicture app.surface app.useFramebuffer r c := by
  unfold RenderSafe at hsafe
  unfold renderSurface
  cases hframe : app.useFramebuffer with
  | true => exact h.framePicture hframe (by simpa [hframe] using hsafe) hr hc
  | false => exact h.consolePicture hframe (by simpa [hframe] using hsafe) hr hc

theorem fits_clearDamage {s : Surface} (h : Fits s) : Fits s.clearDamage :=
  h.withScreen (by rw [countDirty_none]; rfl) h.shown

theorem keeps_clearDamage : Keeps s s.clearDamage := keeps_withScreen ..

theorem surface_render (app : App) (force : Bool) :
    (app.renderSurface force).surface = app.surface.clearDamage ∧
      (app.renderSurface force).useFramebuffer = app.useFramebuffer := by
  unfold renderSurface
  split <;> exact ⟨rfl, rfl⟩

theorem scrollDelta_render (app : App) (force : Bool) :
    (app.renderSurface force).scrollDelta = 0 := by
  have hscroll : app.surface.clearDamage.scrollCount = app.surface.scrollCount :=
    scrollCount_withScreen ..
  unfold renderSurface scrollDelta
  split
  · rw [hscroll, sub_self]
    rfl
  · rw [hscroll, sub_self]
    rfl

theorem screen_clearDamage : s.clearDamage.screen = ⟨s.screen.cells, fun _ _ => false⟩ := by
  rw [clearDamage, screen_withScreen]

theorem fullPicture_clearDamage (framebuffer : Bool) :
    fullPicture s.clearDamage framebuffer = fullPicture s framebuffer := by
  have hcursor : s.clearDamage.cursor = s.cursor := cursor_withScreen ..
  unfold fullPicture drawCell Surface.cell
  rw [screen_clearDamage, (keeps_clearDamage s).cols, (keeps_clearDamage s).rows, hcursor]

/-- After a rendering the display shows the screen. -/
theorem Ready.render (h : Ready app) (hsafe : app.RenderSafe)
    (force : Bool) : Ready (app.renderSurface force) := by
  obtain ⟨hsurface, hback⟩ := surface_render app force
  have hcols := (keeps_clearDamage app.surface).cols
  have hrows := (keeps_clearDamage app.surface).rows
  refine ⟨hsurface ▸ fits_clearDamage h.fits, .inr (.inr ⟨app.surface.screen.cells, ?_⟩)⟩
  constructor
  · rw [hsurface, hcols, hrows]
    exact h.fits.shown
  · intro r _ c _ _
    rw [hsurface, screen_clearDamage]
  · exact scrollDelta_render app force
  · intro hframe
    rw [hback] at hframe
    have hrender : app.renderSurface force = { app with
        picture := app.framePicture force, lastCol := app.surface.cursor.col
        lastRow := app.surface.cursor.row, cursorValid := true
        lastScrollCount := app.surface.scrollCount, surface := app.surface.clearDamage } := by
      rw [renderSurface, if_pos hframe]
    rw [hrender]
    refine ⟨rfl, hcols ▸ h.fits.cursor.col, hrows ▸ h.fits.cursor.row, ?_⟩
    intro r hr c hc hunder
    rw [hrows] at hr
    rw [hcols] at hc
    dsimp only at hunder ⊢
    rw [RenderSafe, if_pos hframe] at hsafe
    rw [h.framePicture hframe hsafe hr hc, fullPicture, if_pos rfl]
    apply drawCell_unreached h.fits.shown
    rintro ⟨rfl, hreach⟩
    exact hunder ⟨rfl, hreach⟩
  · intro hframe r hr c hc
    rw [hsurface, hrows] at hr
    rw [hsurface, hcols] at hc
    rw [hback] at hframe
    rw [h.picture hsafe hr hc, fullPicture, hframe]
    rfl

/-- A full redraw right after a rendering shows the same. -/
theorem Ready.render_full (h : Ready app) (hsafe : app.RenderSafe) (hr : r < app.surface.rows)
    (hc : c < app.surface.cols) :
    (app.renderSurface force).picture r c =
      ((app.renderSurface force).renderSurface true).picture r c := by
  obtain ⟨hsurface, hback⟩ := surface_render app force
  have hkeeps := keeps_clearDamage app.surface
  have hstays : (app.renderSurface force).RenderSafe := by
    unfold RenderSafe
    split
    · rename_i hframe
      intro hmoved
      rw [hback] at hframe
      rw [renderSurface, if_pos hframe] at hmoved
      have hcur : app.surface.clearDamage.cursor = app.surface.cursor := cursor_withScreen ..
      obtain ⟨-, hmoved⟩ := hmoved
      simp [hcur] at hmoved
    · exact .inl (scrollDelta_render app force)
  rw [h.picture hsafe hr hc, (h.render hsafe force).picture hstays, hsurface, hback,
    fullPicture_clearDamage]
  · rw [hsurface]
    exact hkeeps.rows ▸ hr
  · rw [hsurface]
    exact hkeeps.cols ▸ hc

end App

/-- Bytes whose calls are safe, while the lines since the last rendering do not pass the largest
`int` or everything is to be drawn anyhow. -/
def AppSafe (app : App) : AppInput → Prop
  | .feed granted b => Along (applyOp granted) OpSafe app.surface (app.parser.feedByte b).2 ∧
    (app.scrollDelta < 2147483600 ∨ AllDirty app.surface)
  | .render _ => app.RenderSafe

instance (app : App) : ∀ i, Decidable (AppSafe app i)
  | .feed granted _ =>
    inferInstanceAs (Decidable (Along (applyOp granted) OpSafe app.surface _ ∧ _))
  | .render _ => inferInstanceAs (Decidable app.RenderSafe)

theorem ready_new {cols rows : ℕ} (hcols : 0 < cols) (hrows : 0 < rows)
    (hsmall : cols * rows < 2147483648) (framebuffer : Bool) (picture : ℕ → ℕ → Tile) :
    (App.new cols rows framebuffer picture).Ready :=
  ⟨fits_init hcols hrows hsmall, .inl (allDirty_clear _ defaultCell)⟩

/-- Bytes leave the next rendering with all it has to draw. -/
theorem App.Ready.feed {app : App} (h : app.Ready) {t : Surface} (hfits : Fits t)
    (hmoves : Moves 34 app.surface t) (p : VtParser)
    (hbound : app.scrollDelta < 2147483600 ∨ AllDirty app.surface) :
    App.Ready { app with parser := p, surface := t } := by
  refine ⟨hfits, ?_⟩
  rcases hmoves.damage with hall | ⟨n, hn, hdamaged⟩
  · exact .inl hall
  have hlines := hdamaged.lines
  rcases h.damage with hall | hdelta | ⟨shown, hcurrent⟩
  · exact .inl (hdamaged.all hall)
  · -- lines were scrolled before
    rcases hbound with hbound | hall
    · refine .inr (.inl ?_)
      unfold App.scrollDelta toInt at hdelta hbound ⊢
      dsimp only
      omega
    · exact .inl (hdamaged.all hall)
  · have hzero := hcurrent.delta
    unfold App.scrollDelta toInt at hzero
    by_cases hscrolled : n = 0
    · -- no line was scrolled
      refine .inr (.inr ⟨shown, ?_, ?_, ?_, ?_, ?_⟩)
      · rw [hmoves.cols, hmoves.rows]
        exact hcurrent.rowsOk
      · intro r hr c hc hclean
        obtain ⟨hclean', hcell⟩ := hdamaged.clean hscrolled r c hclean
        rw [hcell]
        exact hcurrent.clean r (hmoves.rows ▸ hr) c (hmoves.cols ▸ hc) hclean'
      · unfold App.scrollDelta toInt
        dsimp only
        omega
      · intro hframe
        have hshows := hcurrent.frame hframe
        refine ⟨hshows.valid, ?_, ?_, ?_⟩
        · rw [hmoves.cols]
          exact hshows.lastCol
        · rw [hmoves.rows]
          exact hshows.lastRow
        · rw [hmoves.rows, hmoves.cols]
          exact hshows.tiles
      · rw [hmoves.rows, hmoves.cols]
        exact hcurrent.text
    · refine .inr (.inl ?_)
      unfold App.scrollDelta toInt
      dsimp only
      omega

theorem ready_appStep (app : App) (i : AppInput) (h : app.Ready) (hsafe : AppSafe app i) :
    ∃ app', appStep app i = some app' ∧ app'.Ready := by
  cases i with
  | feed granted b =>
    obtain ⟨hops, hbound⟩ := hsafe
    obtain ⟨t, ht, hfits, hmoves⟩ := fits_moves_run h.fits hops
    have hlength := (calls_feedByte app.parser b).length_le
    have hfeed : feed (app.parser, app.surface) (granted, b) =
        some ((app.parser.feedByte b).1, t) := feed_eq_some.mpr ⟨rfl, ht⟩
    refine ⟨_, by rw [appStep, hfeed, map_some], ?_⟩
    exact h.feed hfits (hmoves.mono (by omega)) _ hbound
  | render force => exact ⟨_, rfl, h.render hsafe force⟩

/-- After every rendering in a run of safe steps from a new terminal the display shows what a full
redraw would show. -/
theorem rendered_equals_full (cols rows : ℕ) (hcols : 0 < cols) (hrows : 0 < rows)
    (hsmall : cols * rows < 2147483648) (framebuffer : Bool) (picture : ℕ → ℕ → Tile)
    (inputs : List AppInput) (force : Bool)
    (hsafe : Along appStep AppSafe (App.new cols rows framebuffer picture)
      (inputs ++ [.render force])) :
    ∃ app, run appStep (App.new cols rows framebuffer picture) (inputs ++ [.render force]) =
        some app ∧
      ∀ r < app.surface.rows, ∀ c < app.surface.cols,
        app.picture r c = (app.renderSurface true).picture r c := by
  obtain ⟨hbefore, hlast⟩ := hsafe.of_append
  obtain ⟨app, hrun, hready⟩ := run_invariant ready_appStep inputs _
    (ready_new hcols hrows hsmall framebuffer picture) hbefore
  have hrender := (hlast app hrun).1
  refine ⟨app.renderSurface force, ?_, ?_⟩
  · rw [run_append, hrun]
    rfl
  · obtain ⟨hsurface, -⟩ := App.surface_render app force
    have hkeeps := App.keeps_clearDamage app.surface
    intro r hr c hc
    rw [hsurface] at hr hc
    exact hready.render_full hrender (hkeeps.rows ▸ hr) (hkeeps.cols ▸ hc)

def feedAll (bytes : List UInt8) : List AppInput := bytes.map (.feed true)

/-- A wide character, a letter, a line feed, and a rendering after each. -/
def wideThenLetter : List AppInput :=
  .render true :: feedAll [0xe3, 0x81, 0x82] ++ .render false :: feedAll [65] ++
    .render false :: feedAll [10]

theorem wideThenLetter_rendered : ∃ app, run appStep (App.new 4 2 true fun _ _ => .cleared)
        (wideThenLetter ++ [.render false]) = some app ∧
      ∀ r < app.surface.rows, ∀ c < app.surface.cols,
        app.picture r c = (app.renderSurface true).picture r c :=
  rendered_equals_full 4 2 (by decide) (by decide) (by decide) true (fun _ _ => .cleared)
    wideThenLetter false (by decide +kernel)

/-- A letter that is rendered, and two line feeds that scroll it off. -/
def scrolledOff : List AppInput :=
  .render true :: feedAll [65] ++ .render false :: feedAll [10, 10] ++ [.render false]

/-- A wide character with the cursor on its right half, which then moves on. -/
def leftHalf : List AppInput :=
  .render true :: feedAll [0xe3, 0x81, 0x82, 27, 91, 68] ++ .render false :: feedAll [27, 91, 67] ++
    [.render false]

/-- The console still shows a letter that was scrolled off, and the framebuffer loses the right half
of a wide character that the cursor has left. -/
theorem stale_tiles :
    (∃ app, run appStep (App.new 2 2 false fun _ _ => .cleared) scrolledOff = some app ∧
      app.picture 0 0 = .text 7 65 ∧ (app.renderSurface true).picture 0 0 = .text 7 32) ∧
    ∃ app, run appStep (App.new 4 2 true fun _ _ => .cleared) leftHalf = some app ∧
      (app.surface.cursor.row, app.surface.cursor.col) = (0, 2) ∧ app.picture 0 1 = .fill 0 ∧
        (app.renderSurface true).picture 0 1 = .glyph 0x3042 7 0 2 1 := by
  have hconsole : (run appStep (App.new 2 2 false fun _ _ => .cleared) scrolledOff).map
      (fun app => decide (app.picture 0 0 = .text 7 65 ∧
        (app.renderSurface true).picture 0 0 = .text 7 32)) = some true := by
    decide +kernel
  have hframe : (run appStep (App.new 4 2 true fun _ _ => .cleared) leftHalf).map
      (fun app => decide ((app.surface.cursor.row, app.surface.cursor.col) = (0, 2) ∧
        app.picture 0 1 = .fill 0 ∧
        (app.renderSurface true).picture 0 1 = .glyph 0x3042 7 0 2 1)) = some true := by
    decide +kernel
  obtain ⟨app, hrun, hend⟩ := map_eq_some_iff.mp hconsole
  obtain ⟨app', hrun', hend'⟩ := map_eq_some_iff.mp hframe
  exact ⟨⟨app, hrun, of_decide_eq_true hend⟩, app', hrun', of_decide_eq_true hend'⟩

end Sodex.Term
