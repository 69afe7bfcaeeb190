import Sodex.TermScreen

/-!
# Damage of the screen

What the calls of the parser leave of the dirty flags and of the number of lines scrolled: unless
all cells become dirty, the lines scrolled are counted, and as long as there are none, a cell that
is clean is one that has not changed.
-/
namespace Sodex.Term

open Runs CInt Surface

namespace Surface

variable {s t u : Surface} {style fill : Cell} {k l n m : ℕ}

/-- Every cell of the screen is dirty. -/
def AllDirty (s : Surface) : Prop := ∀ r < s.rows, ∀ c < s.cols, s.screen.dirty r c = true

instance (s : Surface) : Decidable (AllDirty s) :=
  inferInstanceAs (Decidable (∀ r < s.rows, ∀ c < s.cols, _))

/-- `n` lines were scrolled. -/
structure Damaged (n : ℕ) (s t : Surface) : Prop where
  cols : t.cols = s.cols
  rows : t.rows = s.rows
  lines : (t.scrollCount - s.scrollCount - n) % 4294967296 = 0
  clean : n = 0 → ∀ r c, t.screen.dirty r c = false →
    s.screen.dirty r c = false ∧ t.screen.cells r c = s.screen.cells r c
  all : AllDirty s → AllDirty t

theorem Damaged.refl (s : Surface) : Damaged 0 s s :=
  ⟨rfl, rfl, by simp, fun _ _ _ h => ⟨h, rfl⟩, id⟩

theorem Damaged.cursors (h : Damaged n s t) (cursor saved : Cursor) :
    Damaged n s { t with cursor := cursor, saved := saved } :=
  ⟨h.cols, h.rows, h.lines, h.clean, h.all⟩

theorem Damaged.trans (h : Damaged n s t) (h' : Damaged m t u) : Damaged (n + m) s u where
  cols := h'.cols.trans h.cols
  rows := h'.rows.trans h.rows
  lines := by
    have := h.lines
    have := h'.lines
    omega
  clean := by
    intro hnone r c hclean
    obtain ⟨hclean', hcell'⟩ := h'.clean (by omega) r c hclean
    obtain ⟨hclean'', hcell⟩ := h.clean (by omega) r c hclean'
    exact ⟨hclean'', hcell'.trans hcell⟩
  all := fun hall => h'.all (h.all hall)

/-- Without scrolling, a cell becomes clean only by drawing it. -/
theorem Damaged.of_clean (hkeeps : Keeps s t) (hcount : t.scrollCount = s.scrollCount)
    (hclean : ∀ r c, t.screen.dirty r c = false →
      s.screen.dirty r c = false ∧ t.screen.cells r c = s.screen.cells r c) : Damaged 0 s t := by
  refine ⟨hkeeps.cols, hkeeps.rows, by simp [hcount], fun _ => hclean, ?_⟩
  intro hall r hrow c hcol
  rw [hkeeps.rows] at hrow
  rw [hkeeps.cols] at hcol
  by_contra hnot
  have hdirty := (hclean r c (by simpa using hnot)).1
  rw [hall r hrow c hcol] at hdirty
  cases hdirty

theorem Painted.damaged (h : Painted s t) : Damaged 0 s t :=
  have hr := h.repaints
  .of_clean hr.keeps hr.scrollCount hr.clean

theorem damaged_store (s : Surface) (row col : ℕ) (cell : Cell) :
    Damaged 0 s (s.store row col cell) :=
  .of_clean (keeps_store s row col cell) (scrollCount_withScreen ..) (clean_store s row col cell)

/-- Everything is dirty or at most `k` lines were scrolled. -/
structure Moves (k : ℕ) (s t : Surface) : Prop where
  cols : t.cols = s.cols
  rows : t.rows = s.rows
  damage : AllDirty t ∨ ∃ n ≤ k, Damaged n s t

theorem Damaged.moves (h : Damaged n s t) (hn : n ≤ k) : Moves k s t :=
  ⟨h.cols, h.rows, .inr ⟨n, hn, h⟩⟩

theorem Moves.refl (s : Surface) : Moves k s s := (Damaged.refl s).moves (Nat.zero_le k)

theorem Moves.mono (h : Moves k s t) (hkl : k ≤ l) : Moves l s t := by
  refine ⟨h.cols, h.rows, ?_⟩
  obtain hall | ⟨n, hn, hdamaged⟩ := h.damage
  · exact .inl hall
  · exact .inr ⟨n, hn.trans hkl, hdamaged⟩

theorem Moves.trans (h : Moves k s t) (h' : Moves l t u) : Moves (k + l) s u := by
  refine ⟨h'.cols.trans h.cols, h'.rows.trans h.rows, ?_⟩
  obtain hall' | ⟨m, hm, hdamaged'⟩ := h'.damage
  · exact .inl hall'
  · obtain hall | ⟨n, hn, hdamaged⟩ := h.damage
    · exact .inl (hdamaged'.all hall)
    · exact .inr ⟨n + m, by omega, hdamaged.trans hdamaged'⟩

/-- The screen and its region have rows, and the screen has columns. -/
structure Sized (s : Surface) : Prop where
  cols_pos : 0 < s.cols
  rows_pos : 0 < s.rows
  bottom_lt : s.scrollBottom < s.rows

theorem Fits.sized (h : Fits s) : Sized s := ⟨h.cols_pos, h.rows_pos, h.bottom_lt⟩

theorem Sized.keeps (h : Sized s) (hkeeps : Keeps s t) : Sized t := by
  refine ⟨hkeeps.cols ▸ h.cols_pos, hkeeps.rows ▸ h.rows_pos, ?_⟩
  rw [hkeeps.rows, hkeeps.scrollBottom]
  exact h.bottom_lt

theorem allDirty_shiftRows (hall : AllDirty s) {top bottom lines : ℕ} (hbottom : bottom < s.rows)
    (r c : ℕ) (hr : r < s.rows) (hc : c < s.cols) :
    (shiftRows s.screen top bottom lines fill).dirty r c = true := by
  unfold shiftRows
  dsimp only
  split
  · exact hall _ (by omega) c hc
  · split
    · rfl
    · exact hall r hr c hc

theorem Sized.allDirty_moveLines (h : Sized s) (hall : AllDirty s) (lines : ℕ) (fill : Cell) :
    AllDirty (s.moveLines lines fill) := by
  have hkeeps := keeps_moveLines s lines fill
  intro r hr c hc
  rw [hkeeps.rows] at hr
  rw [hkeeps.cols] at hc
  unfold Surface.moveLines at hkeeps ⊢
  split
  · have hpainted := painted_clearRegion h.cols_pos h.rows_pos 0 s.scrollTop (s.cols - 1)
      s.regionBottom fill
    have hdamaged := hpainted.damaged
    exact hdamaged.all hall r (by rwa [hdamaged.rows]) c (by rwa [hdamaged.cols])
  · rw [screen_withScreen]
    exact allDirty_shiftRows hall ((min_le_left ..).trans_lt h.bottom_lt) r c hr hc

theorem Sized.scrollCount_moveLines (h : Sized s) (lines : ℕ) (fill : Cell) :
    (s.moveLines lines fill).scrollCount = s.scrollCount := by
  unfold Surface.moveLines
  split
  · exact (painted_clearRegion h.cols_pos h.rows_pos _ _ _ _ fill).repaints.scrollCount
  · exact scrollCount_withScreen ..

theorem Sized.moves_scrollUp (h : Sized s) (lines : ℕ) (fill : Cell) :
    Moves lines s (s.scrollUp lines fill) := by
  have hkeeps := keeps_scrollUp s lines fill
  refine ⟨hkeeps.cols, hkeeps.rows, .inr ⟨lines, le_rfl, hkeeps.cols, hkeeps.rows, ?_, ?_, ?_⟩⟩
  all_goals
    unfold Surface.scrollUp
    split
  · rename_i hnone
    simp [hnone]
  · rename_i hlines
    obtain ⟨rows, hrows⟩ := captureLines_eq s.dropWrap lines
    have hcount : Sized (countLines { s.dropWrap with scrollback := rows } lines) := { h with }
    rw [hrows, hcount.scrollCount_moveLines]
    simp only [countLines, dropWrap, toInt]
    omega
  · exact fun _ r c hclean => ⟨hclean, rfl⟩
  · rename_i hlines
    exact fun hnone => absurd hnone hlines
  · exact id
  · obtain ⟨rows, hrows⟩ := captureLines_eq s.dropWrap lines
    have hcount : Sized (countLines { s.dropWrap with scrollback := rows } lines) := { h with }
    rw [hrows]
    exact fun hall => hcount.allDirty_moveLines hall lines fill

theorem allDirty_clear (s : Surface) (fill : Cell) : AllDirty (s.clear fill) := by
  intro r _ c _
  rw [clear, screen_withScreen]

theorem allDirty_markAllDirty (s : Surface) : AllDirty s.markAllDirty := by
  intro r _ c _
  rw [markAllDirty, screen_withScreen]

theorem moves_clear (s : Surface) (fill : Cell) : Moves k s (s.clear fill) :=
  ⟨(keeps_clear s fill).cols, (keeps_clear s fill).rows, .inl (allDirty_clear s fill)⟩

theorem moves_enterAlternate (s : Surface) (granted : Bool) (fill : Cell) :
    Moves k s (s.enterAlternate granted fill) := by
  unfold Surface.enterAlternate
  split
  · have hkeeps := keeps_clear { s with
      cursor := .home, saved := .home, scrollCount := 0, scrollTop := 0
      scrollBottom := s.rows - 1, scrollback := [] } fill
    exact ⟨hkeeps.cols, hkeeps.rows, .inl (allDirty_clear _ fill)⟩
  · split
    · exact .refl s
    · exact ⟨rfl, rfl, .inl fun _ _ _ _ => rfl⟩

theorem moves_leaveAlternate (s : Surface) : Moves k s s.leaveAlternate := by
  unfold Surface.leaveAlternate
  split
  · have hkeeps := keeps_withScreen { s with
      alternateActive := false, cursor := s.primaryCursor, saved := s.primarySaved }
      ⟨s.primary.cells, fun _ _ => true⟩ (toInt (s.cols * s.rows))
    exact ⟨hkeeps.cols, hkeeps.rows, .inl (allDirty_markAllDirty _)⟩
  · exact .refl s

/-- Local changes scroll the lines they may scroll. -/
theorem Local.moves (h : Local s n t) (hs : Sized s) : Moves n s t := by
  induction h with
  | refl => exact .refl s
  | cursors cursor saved _ ih =>
    exact ih.trans (((Damaged.refl _).cursors cursor saved).moves le_rfl)
  | store row col cell _ ih => exact ih.trans ((damaged_store _ row col cell).moves le_rfl)
  | clear fill _ ih => exact ih.trans (l := 0) (moves_clear _ fill)
  | scroll lines fill ht ih => exact ih.trans ((hs.keeps ht.keeps).moves_scrollUp lines fill)

end Surface

variable {s t : Surface}

/-- A call scrolls at most 17 lines. -/
theorem moves_applyOp (h : Sized s) {op : Op} {granted : Bool}
    (happly : applyOp granted s op = some t) : Moves 17 s t := by
  cases hlocal : op.isLocal with
  | true => exact (local_applyOp hlocal happly).moves h
  | false =>
    cases op with
    | setRegion top bottom =>
      refine Option.some.inj happly ▸ Damaged.moves ?_ (Nat.zero_le _)
      unfold Surface.setScrollRegion
      split
      · exact .refl s
      · exact ⟨rfl, rfl, by simp, fun _ _ _ hclean => ⟨hclean, rfl⟩, id⟩
    | enterAlternate blank => exact Option.some.inj happly ▸ moves_enterAlternate s granted blank
    | leaveAlternate => exact Option.some.inj happly ▸ moves_leaveAlternate s
    | _ => cases hlocal

/-- The calls of a byte return and keep the invariant, and every call scrolls at most 17 lines. -/
theorem fits_moves_run (h : Fits s) {granted : Bool} {ops : List Op}
    (hsafe : Along (applyOp granted) OpSafe s ops) :
    ∃ t, run (applyOp granted) s ops = some t ∧ Fits t ∧ Moves (17 * ops.length) s t := by
  induction ops generalizing s with
  | nil => exact ⟨s, rfl, h, .refl s⟩
  | cons op ops ih =>
    obtain ⟨hop, hrest⟩ := hsafe
    obtain ⟨t, ht, hfits⟩ := Surface.Fits.applyOp h hop granted
    obtain ⟨u, hu, hfits', hmoves⟩ := ih hfits (hrest t ht)
    refine ⟨u, by rw [run, ht]; exact hu, hfits', ?_⟩
    rw [List.length_cons, Nat.mul_succ, add_comm]
    exact (moves_applyOp h.sized ht).trans hmoves

end Sodex.Term
