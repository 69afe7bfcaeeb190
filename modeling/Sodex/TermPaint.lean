import Mathlib.Logic.Relation
import Sodex.TermSurface

/-!
# Cells that are stored

A change of the screen that is shown keeps the other one and the rows scrolled off. Clearing a
rectangle and putting a character are sequences of single stores, each of which marks its cell and
counts it. What holds of one store is carried over to all of them here; which cells the sequences
leave is said at the end.
-/
namespace Sodex.Term

open List

theorem update_self {α : Type*} (f : ℕ → ℕ → α) (row col : ℕ) :
    update f row col (f row col) = f := by
  funext r c
  unfold update
  split
  · rename_i h
    rw [h.1, h.2]
  · rfl

theorem countP_range_update {d : ℕ → Bool} {n col : ℕ} (hcol : col < n) :
    (range n).countP (fun c => if c = col then true else d c) =
      (range n).countP d + if d col then 0 else 1 := by
  induction n with
  | zero => omega
  | succ n ih =>
    rw [range_succ, countP_append, countP_append]
    rcases Nat.lt_succ_iff_lt_or_eq.mp hcol with hlt | rfl
    · have hne : n ≠ col := by omega
      rw [ih hlt]
      simp [countP_cons, hne]
      omega
    · -- the columns before the last one are the same
      have hsame : (range col).countP (fun c => if c = col then true else d c) =
          (range col).countP d := by
        apply countP_congr
        intro c hc
        have hne : c ≠ col := (mem_range.mp hc).ne
        simp [hne]
      rw [hsame]
      cases hd : d col <;> simp [hd]

theorem sum_range_update {f g : ℕ → ℕ} {n row k : ℕ} (hrow : row < n) (hat : g row = f row + k)
    (hother : ∀ r, r ≠ row → g r = f r) :
    ((range n).map g).sum = ((range n).map f).sum + k := by
  induction n with
  | zero => omega
  | succ n ih =>
    simp only [range_succ, map_append, sum_append, map_cons, map_nil,
      sum_cons, sum_nil]
    rcases Nat.lt_succ_iff_lt_or_eq.mp hrow with hlt | rfl
    · rw [ih hlt, hother n (by omega)]
      omega
    · have hsame : (range row).map g = (range row).map f := by
        apply map_congr_left
        intro r hr
        exact hother r (mem_range.mp hr).ne
      rw [hsame, hat]
      omega

/-- A flag that is set counts once. -/
theorem countDirty_update {cols rows row col : ℕ} (dirty : ℕ → ℕ → Bool) (hrow : row < rows)
    (hcol : col < cols) : countDirty cols rows (update dirty row col true) =
      countDirty cols rows dirty + if dirty row col then 0 else 1 := by
  have hat : update dirty row col true row = fun c => if c = col then true else dirty row c := by
    funext c
    simp [update]
  have hother : ∀ r, r ≠ row → update dirty row col true r = dirty r := by
    intro r hr
    funext c
    simp [update, hr]
  apply sum_range_update hrow
  · rw [hat, countP_range_update hcol]
  · intro r hr
    rw [hother r hr]

theorem countDirty_all (cols rows : ℕ) : countDirty cols rows (fun _ _ => true) = cols * rows := by
  simp [countDirty, mul_comm]

theorem countDirty_none (cols rows : ℕ) : countDirty cols rows (fun _ _ => false) = 0 := by
  simp [countDirty]

namespace Surface

variable {s t u : Surface}

/-- Only the screen that is shown, the cursors and the counters differ, and the rows scrolled off
as long as the primary screen is shown. -/
structure Keeps (s t : Surface) : Prop where
  cols : t.cols = s.cols
  rows : t.rows = s.rows
  alternateActive : t.alternateActive = s.alternateActive
  hasAlternate : t.hasAlternate = s.hasAlternate
  primaryCursor : t.primaryCursor = s.primaryCursor
  primarySaved : t.primarySaved = s.primarySaved
  scrollTop : t.scrollTop = s.scrollTop
  scrollBottom : t.scrollBottom = s.scrollBottom
  primary : s.alternateActive = true → t.primary = s.primary
  scrollback : s.alternateActive = true → t.scrollback = s.scrollback

theorem Keeps.refl (s : Surface) : Keeps s s :=
  ⟨rfl, rfl, rfl, rfl, rfl, rfl, rfl, rfl, fun _ => rfl, fun _ => rfl⟩

theorem Keeps.trans (h : Keeps s t) (h' : Keeps t u) : Keeps s u where
  cols := h'.cols.trans h.cols
  rows := h'.rows.trans h.rows
  alternateActive := h'.alternateActive.trans h.alternateActive
  hasAlternate := h'.hasAlternate.trans h.hasAlternate
  primaryCursor := h'.primaryCursor.trans h.primaryCursor
  primarySaved := h'.primarySaved.trans h.primarySaved
  scrollTop := h'.scrollTop.trans h.scrollTop
  scrollBottom := h'.scrollBottom.trans h.scrollBottom
  primary := fun ha => (h'.primary (h.alternateActive.trans ha)).trans (h.primary ha)
  scrollback := fun ha => (h'.scrollback (h.alternateActive.trans ha)).trans (h.scrollback ha)

theorem keeps_cursors (s : Surface) (cursor saved : Cursor) :
    Keeps s { s with cursor := cursor, saved := saved } :=
  ⟨rfl, rfl, rfl, rfl, rfl, rfl, rfl, rfl, fun _ => rfl, fun _ => rfl⟩

theorem keeps_withScreen (s : Surface) (screen : Screen) (count : ℤ) :
    Keeps s (s.withScreen screen count) := by
  unfold withScreen
  split
  · exact ⟨rfl, rfl, rfl, rfl, rfl, rfl, rfl, rfl, fun _ => rfl, fun _ => rfl⟩
  · rename_i h
    exact ⟨rfl, rfl, rfl, rfl, rfl, rfl, rfl, rfl, fun ha => absurd ha h, fun _ => rfl⟩

theorem keeps_store (s : Surface) (row col : ℕ) (cell : Cell) : Keeps s (s.store row col cell) :=
  keeps_withScreen s _ _

theorem keeps_clear (s : Surface) (fill : Cell) : Keeps s (s.clear fill) := keeps_withScreen s _ _

@[simp] theorem screen_withScreen (s : Surface) (screen : Screen) (count : ℤ) :
    (s.withScreen screen count).screen = screen := by
  cases h : s.alternateActive <;> simp [withScreen, Surface.screen, h]

@[simp] theorem dirtyCount_withScreen (s : Surface) (screen : Screen) (count : ℤ) :
    (s.withScreen screen count).dirtyCount = count := by
  unfold withScreen
  split <;> rfl

@[simp] theorem cursor_withScreen (s : Surface) (screen : Screen) (count : ℤ) :
    (s.withScreen screen count).cursor = s.cursor := by
  unfold withScreen
  split <;> rfl

@[simp] theorem saved_withScreen (s : Surface) (screen : Screen) (count : ℤ) :
    (s.withScreen screen count).saved = s.saved := by
  unfold withScreen
  split <;> rfl

@[simp] theorem scrollCount_withScreen (s : Surface) (screen : Screen) (count : ℤ) :
    (s.withScreen screen count).scrollCount = s.scrollCount := by
  unfold withScreen
  split <;> rfl

/-- `dirty_count` is the number of flags that are set. -/
def Counted (s : Surface) : Prop := s.dirtyCount = countDirty s.cols s.rows s.screen.dirty

theorem counted_store (h : Counted s) {row col : ℕ} (hrow : row < s.rows) (hcol : col < s.cols)
    (cell : Cell) : Counted (s.store row col cell) := by
  have hkeeps := keeps_store s row col cell
  unfold Counted at h ⊢
  rw [hkeeps.cols, hkeeps.rows]
  unfold store
  rw [screen_withScreen, dirtyCount_withScreen, countDirty_update _ hrow hcol, h]
  split <;> simp

theorem clean_store (s : Surface) (row col : ℕ) (cell : Cell) (r c : ℕ)
    (hclean : (s.store row col cell).screen.dirty r c = false) :
    s.screen.dirty r c = false ∧ (s.store row col cell).screen.cells r c = s.screen.cells r c := by
  rw [store, screen_withScreen] at hclean ⊢
  by_cases hat : r = row ∧ c = col
  · simp [update, hat] at hclean
  · simp only [update, hat, if_false] at hclean ⊢
    exact ⟨hclean, trivial⟩

/-- A cell of the screen is stored. -/
def Stroke (s t : Surface) : Prop :=
  ∃ row col cell, row < s.rows ∧ col < s.cols ∧ t = s.store row col cell

/-- Cells of the screen are stored. -/
def Painted : Surface → Surface → Prop := Relation.ReflTransGen Stroke

theorem painted_store {row col : ℕ} (hrow : row < s.rows) (hcol : col < s.cols) (cell : Cell) :
    Painted s (s.store row col cell) :=
  .single ⟨row, col, cell, hrow, hcol, rfl⟩

/-- What a sequence of stores leaves alone, and that a cell that is clean was not stored. -/
structure Repaints (s t : Surface) : Prop where
  keeps : Keeps s t
  cursor : t.cursor = s.cursor
  saved : t.saved = s.saved
  scrollCount : t.scrollCount = s.scrollCount
  counted : Counted s → Counted t
  clean : ∀ r c, t.screen.dirty r c = false →
    s.screen.dirty r c = false ∧ t.screen.cells r c = s.screen.cells r c

theorem repaints_refl (s : Surface) : Repaints s s :=
  ⟨.refl s, rfl, rfl, rfl, id, fun _ _ h => ⟨h, rfl⟩⟩

theorem Repaints.stroke (h : Repaints s t) (hstroke : Stroke t u) : Repaints s u := by
  obtain ⟨row, col, cell, hrow, hcol, rfl⟩ := hstroke
  refine ⟨h.keeps.trans (keeps_store t row col cell), ?_, ?_, ?_, ?_, ?_⟩
  · rw [store, cursor_withScreen, h.cursor]
  · rw [store, saved_withScreen, h.saved]
  · rw [store, scrollCount_withScreen, h.scrollCount]
  · exact fun hcounted => counted_store (h.counted hcounted) hrow hcol cell
  · intro r c hclean
    obtain ⟨hclean, hcell⟩ := clean_store t row col cell r c hclean
    exact ⟨(h.clean r c hclean).1, hcell.trans (h.clean r c hclean).2⟩

theorem Painted.repaints (h : Painted s t) : Repaints s t := by
  induction h with
  | refl => exact repaints_refl s
  | tail _ hstroke ih => exact ih.stroke hstroke

theorem painted_foldl_store {ps : List (ℕ × ℕ)} (cell : Cell)
    (hps : ∀ p ∈ ps, p.1 < s.rows ∧ p.2 < s.cols) :
    Painted s (ps.foldl (fun s p => s.store p.1 p.2 cell) s) := by
  induction ps generalizing s with
  | nil => exact .refl
  | cons p ps ih =>
    have hkeeps := keeps_store s p.1 p.2 cell
    have hp := hps p mem_cons_self
    refine .trans (painted_store hp.1 hp.2 cell) (ih fun q hq => ?_)
    rw [hkeeps.rows, hkeeps.cols]
    exact hps q (mem_cons_of_mem p hq)

theorem mem_places {left top right bottom r c : ℕ} : (r, c) ∈ places left top right bottom ↔
      (top ≤ r ∧ r ≤ bottom) ∧ left ≤ c ∧ c ≤ right := by
  simp only [places, mem_flatMap, mem_map, mem_range'_1, Prod.mk.injEq]
  constructor
  · rintro ⟨r', hr, c', hc, rfl, rfl⟩
    omega
  · rintro ⟨hr, hc⟩
    exact ⟨r, by omega, c, by omega, rfl, rfl⟩

theorem painted_clearRegion (hcols : 0 < s.cols) (hrows : 0 < s.rows)
    (left top right bottom : ℕ) (fill : Cell) :
    Painted s (s.clearRegion left top right bottom fill) := by
  apply painted_foldl_store
  rintro ⟨r, c⟩ hp
  rw [mem_places] at hp
  omega

theorem painted_blankOut (s : Surface) (col row : ℕ) (fill : Cell) :
    Painted s (s.blankOut col row fill) := by
  unfold blankOut
  split
  · rename_i hin
    split
    · exact .refl
    · exact painted_store hin.2 hin.1 _
  · exact .refl

theorem painted_splitWide (s : Surface) (col row : ℕ) (fill : Cell) :
    Painted s (s.splitWide col row fill) := by
  unfold splitWide
  split
  · exact painted_blankOut s _ row fill
  · split
    · exact painted_blankOut s _ row fill
    · exact .refl

theorem painted_change {col row : ℕ} (hcol : col < s.cols) (hrow : row < s.rows) (next : Cell) :
    Painted s (s.change col row next) := by
  unfold change
  split
  · exact .refl
  · exact painted_store hrow hcol next

theorem painted_putCell (s : Surface) (col row : ℕ) (cell : Cell) :
    Painted s (s.putCell col row cell) := by
  unfold putCell
  split
  · rename_i hin
    have hsplit := painted_splitWide s col row (normalizeCell cell)
    have hkeeps := hsplit.repaints.keeps
    exact hsplit.trans (painted_change (hkeeps.cols ▸ hin.1) (hkeeps.rows ▸ hin.2) _)
  · exact .refl

theorem painted_putCharacter (s : Surface) (codepoint : UInt32) (width : ℕ) (style : Cell) :
    Painted s (s.putCharacter codepoint width style) := by
  unfold putCharacter
  split
  · exact (painted_putCell s _ _ _).trans (painted_putCell _ _ _ _)
  · exact painted_putCell s _ _ _

theorem cells_store (s : Surface) (row col : ℕ) (cell : Cell) :
    (s.store row col cell).screen.cells = update s.screen.cells row col cell := by
  rw [store, screen_withScreen]

theorem cells_foldl_store (ps : List (ℕ × ℕ)) (cell : Cell) (s : Surface) (r c : ℕ) :
    (ps.foldl (fun s p => s.store p.1 p.2 cell) s).screen.cells r c =
      if (r, c) ∈ ps then cell else s.screen.cells r c := by
  induction ps generalizing s with
  | nil => simp
  | cons p ps ih =>
    rw [foldl_cons, ih, cells_store]
    by_cases hps : (r, c) ∈ ps
    · simp [hps]
    · by_cases hp : r = p.1 ∧ c = p.2
      · simp [update, hp]
      · have hne : (r, c) ≠ p := fun h => hp (by simp [← h])
        simp [update, hps, hp, hne]

theorem cells_clearRegion (s : Surface) (left top right bottom : ℕ) (fill : Cell) (r c : ℕ) :
    (s.clearRegion left top right bottom fill).screen.cells r c =
      if (min top (s.rows - 1) ≤ r ∧ r ≤ min bottom (s.rows - 1)) ∧
          min left (s.cols - 1) ≤ c ∧ c ≤ min right (s.cols - 1) then blankCell fill
      else s.screen.cells r c := by
  unfold clearRegion
  rw [cells_foldl_store]
  simp only [mem_places]

theorem cells_blankOut {col row : ℕ} (hcol : col < s.cols) (hrow : row < s.rows) (fill : Cell) :
    (s.blankOut col row fill).screen.cells = update s.screen.cells row col (blankCell fill) := by
  rw [blankOut, if_pos ⟨hcol, hrow⟩]
  split
  · rename_i heq
    rw [← heq]
    exact (update_self s.screen.cells row col).symm
  · exact cells_store s row col _

theorem cells_change (s : Surface) (col row : ℕ) (next : Cell) :
    (s.change col row next).screen.cells = update s.screen.cells row col next := by
  unfold change
  split
  · rename_i heq
    rw [← heq]
    exact (update_self s.screen.cells row col).symm
  · exact cells_store s row col next

/-- A row in which the other half of the cell at a column is blank. -/
def splitRow (cols : ℕ) (f : ℕ → Cell) (col : ℕ) (fill : Cell) : ℕ → Cell :=
  if (f col).isContinuation ∧ 0 < col then Function.update f (col - 1) (blankCell fill)
  else if 1 < (f col).width ∧ col + 1 < cols then Function.update f (col + 1) (blankCell fill)
  else f

def putRow (cols : ℕ) (f : ℕ → Cell) (col : ℕ) (cell : Cell) : ℕ → Cell :=
  Function.update (splitRow cols f col (normalizeCell cell)) col (normalizeCell cell)

theorem update_eq_row {α : Type*} (f : ℕ → ℕ → α) (row col : ℕ) (v : α) :
    update f row col v = Function.update f row (Function.update (f row) col v) := by
  funext r c
  by_cases hr : r = row
  · subst hr
    by_cases hc : c = col <;> simp [update, hc]
  · simp [update, hr]

theorem cells_splitWide {col row : ℕ} (hcol : col < s.cols) (hrow : row < s.rows) (fill : Cell) :
    (s.splitWide col row fill).screen.cells =
      Function.update s.screen.cells row (splitRow s.cols (s.screen.cells row) col fill) := by
  unfold splitWide splitRow cell
  split
  · rw [cells_blankOut (by omega) hrow, update_eq_row]
  · split
    · rename_i hwide
      rw [cells_blankOut hwide.2 hrow, update_eq_row]
    · rw [Function.update_eq_self]

theorem cells_putCell {col row : ℕ} (hcol : col < s.cols) (hrow : row < s.rows) (cell : Cell) :
    (s.putCell col row cell).screen.cells =
      Function.update s.screen.cells row (putRow s.cols (s.screen.cells row) col cell) := by
  rw [putCell, if_pos ⟨hcol, hrow⟩, cells_change, cells_splitWide hcol hrow, update_eq_row]
  simp [putRow]

end Surface

end Sodex.Term
