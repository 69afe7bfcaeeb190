import Sodex.PairedCells
import Sodex.TermPaint

/-!
# Rows of the screen

In a row in order every cell of width 2 is followed by its continuation cell. Putting a character
keeps a row in order, because the other half of what it replaces is blanked; erasing a part of a row
does only if the part cuts no wide character.
-/
namespace Sodex.Term

open PairedCells Surface

/-- A cell is at most two columns wide and a continuation cell has no width. -/
def Cell.Whole (c : Cell) : Prop := c.width ≤ 2 ∧ (c.isContinuation = true → c.width = 0)

/-- In a row the cells of width 2 are the ones followed by a continuation cell. -/
def RowOk (cols : ℕ) (f : ℕ → Cell) : Prop :=
  Paired Cell.Whole (fun c => c.width = 2) (fun c => c.isContinuation = true) f 0 (cols - 1)

/-- Neither half of a wide character. -/
structure Cell.Narrow (c : Cell) : Prop where
  width : c.width = 1
  single : c.isContinuation = false

namespace Cell

variable {c : Cell}

theorem Narrow.whole (h : c.Narrow) : c.Whole :=
  ⟨by rw [h.width]; decide, fun hrest => absurd (h.single ▸ hrest) nofun⟩

theorem Narrow.not_lead (h : c.Narrow) : c.width ≠ 2 := by
  rw [h.width]
  decide

theorem Narrow.not_rest (h : c.Narrow) : ¬c.isContinuation = true := by
  simp [h.single]

theorem Whole.not_rest (h : c.Whole) (hlead : c.width = 2) : ¬c.isContinuation = true := by
  intro hrest
  have := h.2 hrest
  rw [hlead] at this
  cases this

theorem Whole.not_lead (h : c.Whole) (hrest : c.isContinuation = true) : c.width ≠ 2 :=
  fun hlead => h.not_rest hlead hrest

theorem Whole.lead (h : c.Whole) (hwide : 1 < c.width) : c.width = 2 := by
  have h2 : c.width.toNat ≤ 2 := h.1
  have h1 : 1 < c.width.toNat := hwide
  exact UInt8.toNat_inj.mp (by simp; omega)

end Cell

theorem and_not_continuation (a : UInt8) :
    a &&& ~~~TERM_ATTR_CONTINUATION &&& TERM_ATTR_CONTINUATION = 0 := by
  rw [UInt8.and_assoc, show ~~~TERM_ATTR_CONTINUATION &&& TERM_ATTR_CONTINUATION = 0 by decide,
    UInt8.and_zero]

theorem or_continuation (a : UInt8) :
    (a ||| TERM_ATTR_CONTINUATION) &&& TERM_ATTR_CONTINUATION = TERM_ATTR_CONTINUATION := by
  apply UInt8.eq_of_toBitVec_eq
  ext i hi
  simp only [UInt8.toBitVec_and, UInt8.toBitVec_or, BitVec.getElem_and, BitVec.getElem_or]
  exact Bool.and_eq_right_iff_imp.mpr fun h => by simp [h]

theorem narrow_blankCell (fill : Cell) : (blankCell fill).Narrow :=
  ⟨rfl, by simp [Cell.isContinuation, blankCell, and_not_continuation]⟩

theorem normalizeCell_leadCell (codepoint : UInt32) {width : ℕ} (style : Cell)
    (hwidth : width = 1 ∨ width = 2) :
    (normalizeCell (leadCell codepoint width style)).isContinuation = false ∧
      (normalizeCell (leadCell codepoint width style)).width = width.toUInt8 := by
  have hsingle : (leadCell codepoint width style).isContinuation = false :=
    (narrow_blankCell style).single
  have hpos : width.toUInt8 ≠ 0 := by
    rcases hwidth with rfl | rfl <;> decide
  unfold normalizeCell
  rw [if_neg (by simp [hsingle])]
  exact ⟨hsingle, if_neg hpos⟩

theorem normalizeCell_continuationCell (style : Cell) :
    (normalizeCell (continuationCell style)).isContinuation = true ∧
      (normalizeCell (continuationCell style)).width = 0 := by
  have hrest : (continuationCell style).isContinuation = true := by
    simp only [Cell.isContinuation, continuationCell, or_continuation]
    decide
  unfold normalizeCell
  rw [if_pos hrest]
  exact ⟨hrest, rfl⟩

section Rows

variable {cols l r col : ℕ} {f : ℕ → Cell} {x : Cell}

section

variable (h : RowOk cols f)
include h

/-- A span that cuts no wide character is filled with narrow cells. -/
theorem RowOk.narrow {g : ℕ → Cell} (hlr : l ≤ r) (hr : r < cols)
    (hl : ¬(f l).isContinuation = true) (hlead : (f r).width ≠ 2)
    (hin : ∀ c, l ≤ c → c ≤ r → (g c).Narrow) (hout : ∀ c, c < l ∨ r < c → g c = f c) :
    RowOk cols g :=
  Paired.replace h
    (.of_single (fun c hcl hcr => (hin c hcl hcr).whole) (fun c hcl hcr => (hin c hcl hcr).not_lead)
      (fun c hcl hcr => (hin c hcl hcr).not_rest) hlr)
    (Nat.zero_le l) hlr (by omega) hl hlead hout

theorem RowOk.erase (hlr : l ≤ r) (hr : r < cols)
    (hl : ¬(f l).isContinuation = true) (hlead : (f r).width ≠ 2) (fill : Cell) :
    RowOk cols (fun c => if l ≤ c ∧ c ≤ r then blankCell fill else f c) := by
  refine h.narrow hlr hr hl hlead (fun c hcl hcr => ?_) fun c hc => if_neg (by omega)
  rw [if_pos ⟨hcl, hcr⟩]
  exact narrow_blankCell fill

theorem RowOk.whole (hcol : col < cols) : (f col).Whole :=
  Paired.whole h col (Nat.zero_le col) (by omega)

/-- A continuation cell stands right of a wide one. -/
theorem RowOk.lead_of_rest (hcol : col < cols)
    (hrest : (f col).isContinuation = true) : 0 < col ∧ (f (col - 1)).width = 2 := by
  cases col with
  | zero => exact absurd hrest h.first
  | succ c => exact ⟨c.succ_pos, (h.next c (Nat.zero_le c) (by omega)).mpr hrest⟩

/-- A wide cell stands left of a continuation cell. -/
theorem RowOk.rest_of_lead (hcol : col < cols) (hlead : (f col).width = 2) :
    col + 1 < cols ∧ (f (col + 1)).isContinuation = true := by
  have hlast : col ≠ cols - 1 := fun hlast => h.last (hlast ▸ hlead)
  have hlt : col < cols - 1 := by omega
  exact ⟨by omega, (h.next col (Nat.zero_le col) hlt).mp hlead⟩

/-- A narrow cell is put in place of a cell whose other half is blanked. -/
theorem RowOk.put (hcol : col < cols) (fill : Cell) (hx : x.Narrow) :
    RowOk cols (Function.update (splitRow cols f col fill) col x) := by
  have hwhole := h.whole hcol
  have hblank := narrow_blankCell fill
  unfold splitRow
  split
  · -- the right half of a wide character
    rename_i hrest
    have hlead := (h.lead_of_rest hcol hrest.1).2
    have hne : col - 1 ≠ col := by omega
    refine h.narrow (Nat.sub_le col 1) hcol ((h.whole (by omega)).not_rest hlead)
      (hwhole.not_lead hrest.1) (fun c hcl hcr => ?_) fun c hc => ?_
    · obtain rfl | rfl : c = col - 1 ∨ c = col := by omega
      · rw [Function.update_of_ne hne, Function.update_self]
        exact hblank
      · rw [Function.update_self]
        exact hx
    · rw [Function.update_of_ne (by omega), Function.update_of_ne (by omega)]
  · rename_i hsingle
    have hsingle : ¬(f col).isContinuation = true :=
      fun hrest => hsingle ⟨hrest, (h.lead_of_rest hcol hrest).1⟩
    split
    · -- the left half
      rename_i hwide
      have hrest := (h.rest_of_lead hcol (hwhole.lead hwide.1)).2
      refine h.narrow (Nat.le_succ col) hwide.2 hsingle ((h.whole hwide.2).not_lead hrest)
        (fun c hcl hcr => ?_) fun c hc => ?_
      · obtain rfl | rfl : c = col ∨ c = col + 1 := by omega
        · rw [Function.update_self]
          exact hx
        · rw [Function.update_of_ne (by omega), Function.update_self]
          exact hblank
      · rw [Function.update_of_ne (by omega), Function.update_of_ne (by omega)]
    · rename_i hnarrow
      have hlead : (f col).width ≠ 2 := fun hlead =>
        hnarrow ⟨by rw [hlead]; decide, (h.rest_of_lead hcol hlead).1⟩
      refine h.narrow le_rfl hcol hsingle hlead (fun c hcl hcr => ?_) fun c hc => ?_
      · obtain rfl : c = col := by omega
        rw [Function.update_self]
        exact hx
      · rw [Function.update_of_ne (by omega)]

end

theorem splitRow_update {fill : Cell} (hrest : ¬(f (col + 1)).isContinuation = true) (x : Cell) :
    splitRow cols (Function.update f col x) (col + 1) fill =
      Function.update (splitRow cols f (col + 1) fill) col x := by
  have hat : Function.update f col x (col + 1) = f (col + 1) := Function.update_of_ne (by omega) _ _
  have hsplit : ¬((f (col + 1)).isContinuation = true ∧ 0 < col + 1) := fun h => hrest h.1
  unfold splitRow
  rw [hat, if_neg hsplit, if_neg hsplit]
  split
  · rw [Function.update_comm (by omega)]
  · rfl

/-- The two halves of a wide character are put. -/
theorem RowOk.putWide (h : RowOk cols f) (hcol : col + 1 < cols) (fill fill' : Cell) {y : Cell}
    (hx : x.isContinuation = false ∧ x.width = 2) (hy : y.isContinuation = true ∧ y.width = 0) :
    RowOk cols (Function.update
      (splitRow cols (Function.update (splitRow cols f col fill) col x) (col + 1) fill')
      (col + 1) y) := by
  -- with narrow cells in place of the halves the row is in order after each of the two
  have hblank := narrow_blankCell fill
  have hfirst := h.put (Nat.lt_of_succ_lt hcol) fill hblank
  have hidem : Function.update (splitRow cols f col fill) col x =
      Function.update (Function.update (splitRow cols f col fill) col (blankCell fill)) col x := by
    rw [Function.update_idem]
  rw [hidem]
  generalize hg : Function.update (splitRow cols f col fill) col (blankCell fill) = g at hfirst
  have hgcol : (g col).Narrow := by
    rw [← hg, Function.update_self]
    exact hblank
  have hrest : ¬(g (col + 1)).isContinuation = true := fun hrest =>
    hgcol.not_lead (hfirst.lead_of_rest hcol hrest).2
  have hsecond := hfirst.put hcol fill' hblank
  rw [splitRow_update hrest]
  generalize hk : splitRow cols g (col + 1) fill' = k at hsecond ⊢
  have hkcol : k col = g col := by
    rw [← hk, splitRow, if_neg (fun h => hrest h.1)]
    split
    · exact Function.update_of_ne (by omega) _ _
    · rfl
  refine Paired.replace hsecond (.pair ?_ ?_ ?_ ?_ ?_ ?_) (Nat.zero_le col) (Nat.le_succ col)
    (by omega) ?_ ?_ fun c hc => ?_
  · rw [Function.update_of_ne (by omega), Function.update_self]
    exact hx.2
  · rw [Function.update_self]
    exact hy.1
  · rw [Function.update_of_ne (by omega), Function.update_self]
    simp [hx.1]
  · rw [Function.update_self, hy.2]
    decide
  · rw [Function.update_of_ne (by omega), Function.update_self]
    exact ⟨by rw [hx.2]; decide, fun hrest => absurd (hx.1 ▸ hrest) nofun⟩
  · rw [Function.update_self]
    exact ⟨by rw [hy.2]; decide, fun _ => hy.2⟩
  · rw [Function.update_of_ne (by omega), hkcol]
    exact hgcol.not_rest
  · rw [Function.update_self]
    exact hblank.not_lead
  · rw [Function.update_of_ne (by omega), Function.update_of_ne (by omega),
      Function.update_of_ne (by omega)]

/-- A row is cut off or filled up with blank cells. -/
theorem RowOk.resize {old : ℕ} (h : RowOk old f) (hold : 0 < old) (hcols : 0 < cols)
    (hcut : cols < old → (f (cols - 1)).width ≠ 2) (fill : Cell) :
    RowOk cols (fun c => if c < min old cols then f c else blankCell fill) := by
  by_cases hle : cols ≤ old
  · have hlast : (f (cols - 1)).width ≠ 2 := by
      rcases hle.eq_or_lt with rfl | hlt
      · exact h.last
      · exact hcut hlt
    exact (Paired.take h (by omega) hlast).congr (Nat.zero_le _) fun c _ hc => if_pos (by omega)
  · have hkeep : RowOk old (fun c => if c < min old cols then f c else blankCell fill) :=
      Paired.congr h (Nat.zero_le _) fun c _ hc => if_pos (by omega)
    have hnew : ∀ c, old - 1 + 1 ≤ c → c ≤ cols - 1 →
        (if c < min old cols then f c else blankCell fill).Narrow := by
      intro c hl hr
      rw [if_neg (by omega)]
      exact narrow_blankCell fill
    exact hkeep.append (.of_single (fun c hl hr => (hnew c hl hr).whole)
      (fun c hl hr => (hnew c hl hr).not_lead) (fun c hl hr => (hnew c hl hr).not_rest) (by omega))

end Rows

end Sodex.Term
