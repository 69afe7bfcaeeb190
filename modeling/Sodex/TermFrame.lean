import Sodex.TermPaint
import Sodex.VtParser

/-!
# What the operations of the screen leave alone

All operations but a change of the screen, of the region or of the size store cells, move the
cursor or scroll the screen that is shown. While the alternate screen is shown, the primary screen
and the rows scrolled off stay as they are.
-/
namespace Sodex.Term

open List Option

namespace Surface

variable {s t u : Surface} {style : Cell} {n m : ℕ}

theorem keeps_foldl_store (ps : List (ℕ × ℕ)) (cell : Cell) (s : Surface) :
    Keeps s (ps.foldl (fun s p => s.store p.1 p.2 cell) s) := by
  induction ps generalizing s with
  | nil => exact .refl s
  | cons p ps ih => exact (keeps_store s p.1 p.2 cell).trans (ih _)

theorem keeps_captureRow (h : s.alternateActive = false) (row : ℕ) :
    Keeps s (s.captureRow row) := by
  have hactive : s.alternateActive ≠ true := by simp [h]
  unfold captureRow
  exact ⟨rfl, rfl, rfl, rfl, rfl, rfl, rfl, rfl, fun _ => rfl, fun ha => absurd ha hactive⟩

/-- Rows are captured from the primary screen only. -/
theorem keeps_captureLines (s : Surface) (lines : ℕ) : Keeps s (s.captureLines lines) := by
  unfold captureLines
  split
  · rename_i hcapture
    have hprimary : s.alternateActive = false := by simpa using hcapture.1
    generalize min lines s.regionSize = n
    induction n with
    | zero => exact .refl s
    | succ n ih =>
      rw [range_succ, foldl_append, foldl_cons, foldl_nil]
      exact ih.trans (keeps_captureRow (ih.alternateActive.trans hprimary) n)
  · exact .refl s

theorem keeps_countLines (s : Surface) (lines : ℕ) : Keeps s (s.countLines lines) :=
  ⟨rfl, rfl, rfl, rfl, rfl, rfl, rfl, rfl, fun _ => rfl, fun _ => rfl⟩

theorem keeps_moveLines (s : Surface) (lines : ℕ) (fill : Cell) :
    Keeps s (s.moveLines lines fill) := by
  unfold moveLines
  split
  · exact keeps_foldl_store _ _ s
  · exact keeps_withScreen s _ _

theorem keeps_scrollUp (s : Surface) (lines : ℕ) (fill : Cell) :
    Keeps s (s.scrollUp lines fill) := by
  unfold scrollUp
  split
  · exact .refl s
  · have hdrop : Keeps s s.dropWrap := keeps_cursors s _ s.saved
    exact ((hdrop.trans (keeps_captureLines _ lines)).trans (keeps_countLines _ lines)).trans
      (keeps_moveLines _ lines fill)

/-- Cells, cursors and at most `n` lines that are scrolled lead from `s` to another surface. -/
inductive Local (s : Surface) : ℕ → Surface → Prop where
  | refl {n : ℕ} : Local s n s
  | cursors {n : ℕ} {t : Surface} (cursor saved : Cursor) (h : Local s n t) :
      Local s n { t with cursor := cursor, saved := saved }
  | store {n : ℕ} {t : Surface} (row col : ℕ) (cell : Cell) (h : Local s n t) :
      Local s n (t.store row col cell)
  | clear {n : ℕ} {t : Surface} (fill : Cell) (h : Local s n t) : Local s n (t.clear fill)
  | scroll {n : ℕ} {t : Surface} (lines : ℕ) (fill : Cell) (h : Local s n t) :
      Local s (n + lines) (t.scrollUp lines fill)

theorem local_start (s : Surface) : Local s 0 s := .refl

section

variable (h : Local s n t)
include h

theorem Local.keeps : Keeps s t := by
  induction h with
  | refl => exact .refl s
  | cursors cursor saved _ ih => exact ih.trans (keeps_cursors _ cursor saved)
  | store row col cell _ ih => exact ih.trans (keeps_store _ row col cell)
  | clear fill _ ih => exact ih.trans (keeps_clear _ fill)
  | scroll lines fill _ ih => exact ih.trans (keeps_scrollUp _ lines fill)

theorem Local.mono (hnm : n ≤ m) : Local s m t := by
  induction h generalizing m with
  | refl => exact .refl
  | cursors cursor saved _ ih => exact (ih hnm).cursors cursor saved
  | store row col cell _ ih => exact (ih hnm).store row col cell
  | clear fill _ ih => exact (ih hnm).clear fill
  | @scroll n _ lines fill _ ih =>
    obtain ⟨k, rfl⟩ := Nat.exists_eq_add_of_le' hnm
    rw [← add_assoc]
    exact (ih (Nat.le_add_left n k)).scroll lines fill

theorem Local.painted (hpainted : Painted t u) : Local s n u := by
  induction hpainted with
  | refl => exact h
  | tail _ hstroke ih =>
    obtain ⟨row, col, cell, -, -, rfl⟩ := hstroke
    exact ih.store row col cell

theorem Local.clearRegion (left top right bottom : ℕ) (fill : Cell) :
    Local s n (t.clearRegion left top right bottom fill) := by
  unfold Surface.clearRegion
  dsimp only
  generalize places _ _ _ _ = ps
  induction ps generalizing t with
  | nil => exact h
  | cons p ps ih => exact ih (h.store p.1 p.2 _)

theorem Local.newline (fill : Cell) : Local s (n + 1) (t.newline fill) := by
  have hreturn : Local s n t.carriageReturn := h.cursors _ t.saved
  unfold Surface.newline
  dsimp only
  split
  · exact (hreturn.scroll 1 fill).cursors _ _
  · exact (hreturn.mono (Nat.le_succ n)).cursors _ _

theorem Local.wrapForOutput (fill : Cell) :
    Local s (n + 1) (t.wrapForOutput fill) := by
  unfold Surface.wrapForOutput
  split
  · exact h.newline fill
  · exact h.mono (Nat.le_succ n)

theorem Local.roomFor (width : ℕ) (style : Cell) :
    Local s (n + 1) (t.roomFor width style) := by
  unfold Surface.roomFor
  split
  · exact h.newline style
  · exact h.mono (Nat.le_succ n)

theorem Local.advance (width : ℕ) : Local s n (t.advance width) := by
  unfold Surface.advance
  split <;> exact h.cursors _ t.saved

theorem Local.writeCodepoint (codepoint : UInt32) (width : ℕ) (style : Cell) :
    Local s (n + 2) (t.writeCodepoint codepoint width style) := by
  unfold Surface.writeCodepoint
  split
  · exact h.mono (Nat.le_add_right n 2)
  · have hroom := (h.wrapForOutput style).roomFor (effectiveWidth t.cols width) style
    exact (hroom.painted (painted_putCharacter ..)).advance _

end

theorem Local.tabLoop {stop : ℕ} (rounds : ℕ) (h : Local s n t)
    (hloop : Surface.tabLoop style stop rounds t = some u) : Local s (n + 2 * rounds) u := by
  induction rounds generalizing n t with
  | zero =>
    unfold Surface.tabLoop at hloop
    split at hloop
    · cases hloop
    · exact some.inj hloop ▸ h
  | succ rounds ih =>
    have hwrite := h.writeCodepoint 32 1 style
    unfold Surface.tabLoop at hloop
    split at hloop
    · dsimp only at hloop
      split at hloop
      · exact some.inj hloop ▸ hwrite.mono (by omega)
      · exact (ih hwrite hloop).mono (by omega)
    · exact some.inj hloop ▸ h.mono (by omega)

end Surface

open Surface

theorem local_eraseDisplay (s : Surface) (mode : ℤ) (blank : Cell) :
    Local s 0 (eraseDisplay s mode blank) := by
  unfold eraseDisplay
  split
  · have hright : Local s 0 (eraseRight s blank) := Local.refl.clearRegion _ _ _ _ blank
    unfold eraseRowsBelow
    split
    · exact hright.clearRegion _ _ _ _ blank
    · exact hright
  · split
    · have habove : Local s 0 (eraseRowsAbove s blank) := by
        unfold eraseRowsAbove
        split
        · exact Local.refl.clearRegion _ _ _ _ blank
        · exact .refl
      exact habove.clearRegion _ _ _ _ blank
    · split
      · exact Local.refl.clear blank
      · exact .refl

theorem local_eraseLine (s : Surface) (mode : ℤ) (blank : Cell) :
    Local s 0 (eraseLine s mode blank) := by
  unfold eraseLine
  split
  · exact Local.refl.clearRegion _ _ _ _ blank
  · split
    · exact Local.refl.clearRegion _ _ _ _ blank
    · split
      · exact Local.refl.clearRegion _ _ _ _ blank
      · exact .refl

/-- Calls that do not choose another screen or region. -/
def Op.isLocal : Op → Bool
  | .setRegion .. | .enterAlternate _ | .leaveAlternate => false
  | _ => true

/-- A call scrolls at most 17 lines, as a tab that starts with a wrap could. -/
theorem local_applyOp {granted : Bool} {s t : Surface} {op : Op} (hop : op.isLocal = true)
    (h : applyOp granted s op = some t) : Local s 17 t := by
  cases op with
  | tab style => exact ((local_start s).wrapForOutput style).tabLoop _ h
  | setRegion top bottom => cases hop
  | enterAlternate blank => cases hop
  | leaveAlternate => cases hop
  | carriageReturn => exact some.inj h ▸ Local.refl.cursors _ s.saved
  | newline fill => exact some.inj h ▸ ((local_start s).newline fill).mono (by omega)
  | backspace =>
    refine some.inj h ▸ ?_
    unfold Surface.backspace
    split <;> exact Local.refl.cursors _ s.saved
  | write codepoint width style =>
    exact some.inj h ▸
      ((local_start s).writeCodepoint codepoint width style).mono (by omega)
  | moveCursor dcol drow => exact some.inj h ▸ Local.refl.cursors _ s.saved
  | setCursor col row => exact some.inj h ▸ Local.refl.cursors _ s.saved
  | eraseDisplay mode blank =>
    exact some.inj h ▸ (local_eraseDisplay s mode blank).mono (Nat.zero_le _)
  | eraseLine mode blank =>
    exact some.inj h ▸ (local_eraseLine s mode blank).mono (Nat.zero_le _)
  | saveCursor => exact some.inj h ▸ Local.refl.cursors s.cursor _
  | restoreCursor => exact some.inj h ▸ Local.refl.cursors _ s.saved

theorem feed_eq_some {p p' : VtParser} {s t : Surface} {b : Bool × UInt8} :
    feed (p, s) b = some (p', t) ↔
      p' = (p.feedByte b.2).1 ∧ Runs.run (applyOp b.1) s (p.feedByte b.2).2 = some t := by
  unfold feed
  simp only [map_eq_some_iff, Prod.mk.injEq]
  constructor
  · rintro ⟨u, hrun, rfl, rfl⟩
    exact ⟨rfl, hrun⟩
  · rintro ⟨rfl, hrun⟩
    exact ⟨t, hrun, rfl, rfl⟩

end Sodex.Term
