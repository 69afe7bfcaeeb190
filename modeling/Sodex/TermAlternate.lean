import Mathlib.Data.List.Infix
import Sodex.TermFrame

/-!
# Leaving the alternate screen

The primary screen and its cursors are kept apart while the alternate screen is shown, but both
screens share the scroll region and the rows scrolled off. What the bytes between entering and
leaving do to these two depends on the bytes alone.
-/
namespace Sodex.Term

open Surface Runs List Option

/-- The calls that a string of bytes makes. -/
def VtParser.ops : VtParser → List UInt8 → List Op
  | _, [] => []
  | p, b :: bytes => (p.feedByte b).2 ++ (p.feedByte b).1.ops bytes

def Op.isEnter : Op → Bool
  | .enterAlternate _ => true
  | _ => false

/-- The scroll region after a call on the alternate screen. Entering it again resets the region. -/
def Op.region (rows : ℕ) (region : ℕ × ℕ) : Op → ℕ × ℕ
  | .setRegion top bottom => (regionFor rows top (bottom.getD ((rows : ℤ) - 1))).getD region
  | .enterAlternate _ => (0, rows - 1)
  | _ => region

/-- The scroll region after calls on the alternate screen. -/
def regionAfter (rows : ℕ) (region : ℕ × ℕ) (ops : List Op) : ℕ × ℕ :=
  ops.foldl (Op.region rows) region

/-- The primary screen and what belongs to it are as before. -/
structure Restored (s t : Surface) : Prop where
  cells : t.primary.cells = s.primary.cells
  scrollback : t.scrollback = s.scrollback
  cursor : t.cursor = s.cursor
  saved : t.saved = s.saved
  region : (t.scrollTop, t.scrollBottom) = (s.scrollTop, s.scrollBottom)

/-- The alternate screen was entered from `s`, and the calls `ops` were made since. -/
structure Inside (s : Surface) (ops : List Op) (t : Surface) : Prop where
  active : t.alternateActive = true
  rows : t.rows = s.rows
  cells : t.primary.cells = s.primary.cells
  cursor : t.primaryCursor = s.cursor
  saved : t.primarySaved = s.saved
  region : (t.scrollTop, t.scrollBottom) = regionAfter s.rows (s.scrollTop, s.scrollBottom) ops
  scrollback : t.scrollback = if ops.any Op.isEnter then [] else s.scrollback

section Inside

variable {s t u : Surface} {ops : List Op} {granted : Bool} {fill : Cell}

theorem inside_enterAlternate (hprimary : s.alternateActive = false)
    (hentered : (s.enterAlternate granted fill).alternateActive = true) :
    Inside s [] (s.enterAlternate granted fill) := by
  unfold enterAlternate at hentered ⊢
  simp only [hprimary, Bool.false_eq_true, if_false] at hentered ⊢
  split
  · rename_i hdenied
    rw [if_pos hdenied, hprimary] at hentered
    cases hentered
  · exact ⟨rfl, rfl, rfl, rfl, rfl, rfl, rfl⟩

variable (h : Inside s ops t)
include h

theorem Inside.keeps (hkeeps : Keeps t u) {op : Op} (hop : op.isLocal = true) :
    Inside s (ops ++ [op]) u where
  active := hkeeps.alternateActive.trans h.active
  rows := hkeeps.rows.trans h.rows
  cells := by rw [hkeeps.primary h.active, h.cells]
  cursor := hkeeps.primaryCursor.trans h.cursor
  saved := hkeeps.primarySaved.trans h.saved
  region := by
    have hregion : regionAfter s.rows (s.scrollTop, s.scrollBottom) (ops ++ [op]) =
        regionAfter s.rows (s.scrollTop, s.scrollBottom) ops := by
      cases op <;> first | (simp [regionAfter, Op.region]; done) | cases hop
    rw [hregion, hkeeps.scrollTop, hkeeps.scrollBottom, h.region]
  scrollback := by
    have henter : op.isEnter = false := by cases op <;> first | rfl | cases hop
    rw [hkeeps.scrollback h.active, h.scrollback, any_append]
    simp [henter]

theorem Inside.setScrollRegion (top : ℤ) (bottom : Option ℤ) :
    Inside s (ops ++ [.setRegion top bottom])
      (t.setScrollRegion top (bottom.getD ((t.rows : ℤ) - 1))) := by
  have hregion : regionAfter s.rows (s.scrollTop, s.scrollBottom) (ops ++ [.setRegion top bottom]) =
      (regionFor s.rows top (bottom.getD ((s.rows : ℤ) - 1))).getD (t.scrollTop, t.scrollBottom) := by
    rw [h.region]
    simp [regionAfter, Op.region]
  have hscrollback : t.scrollback =
      if (ops ++ [Op.setRegion top bottom]).any Op.isEnter then [] else s.scrollback := by
    have hany : (ops ++ [Op.setRegion top bottom]).any Op.isEnter = ops.any Op.isEnter := by
      simp [Op.isEnter]
    rw [h.scrollback, hany]
  unfold Surface.setScrollRegion
  rw [← h.rows] at hregion
  cases hfor : regionFor t.rows top (bottom.getD ((t.rows : ℤ) - 1)) with
  | none =>
    rw [hfor, h.rows] at hregion
    exact ⟨h.active, h.rows, h.cells, h.cursor, h.saved, hregion.symm, hscrollback⟩
  | some region =>
    rw [hfor, h.rows] at hregion
    exact ⟨h.active, h.rows, h.cells, h.cursor, h.saved, hregion.symm, hscrollback⟩

/-- Entering again resets the region and drops the rows scrolled off. -/
theorem Inside.enterAgain (granted : Bool) (fill : Cell) :
    Inside s (ops ++ [.enterAlternate fill]) (t.enterAlternate granted fill) := by
  have hagain : t.enterAlternate granted fill = t.reset fill := by
    rw [enterAlternate, if_pos h.active]
  rw [hagain]
  unfold reset
  have hkeeps := keeps_clear { t with
    cursor := .home, saved := .home, scrollCount := 0, scrollTop := 0, scrollBottom := t.rows - 1
    scrollback := [] } fill
  constructor
  · exact hkeeps.alternateActive.trans h.active
  · exact hkeeps.rows.trans h.rows
  · rw [hkeeps.primary h.active, ← h.cells]
  · exact hkeeps.primaryCursor.trans h.cursor
  · exact hkeeps.primarySaved.trans h.saved
  · rw [hkeeps.scrollTop, hkeeps.scrollBottom]
    simp [regionAfter, Op.region, h.rows]
  · rw [hkeeps.scrollback h.active, any_append]
    simp [Op.isEnter]

theorem Inside.applyOp {op : Op} (hop : op ≠ .leaveAlternate)
    (happly : applyOp granted t op = some u) : Inside s (ops ++ [op]) u := by
  by_cases hlocal : op.isLocal = true
  · exact h.keeps (local_applyOp hlocal happly).keeps hlocal
  · cases op with
    | setRegion top bottom => exact some.inj happly ▸ h.setScrollRegion top bottom
    | enterAlternate fill => exact some.inj happly ▸ h.enterAgain granted fill
    | leaveAlternate => exact absurd rfl hop
    | _ => exact absurd rfl hlocal

theorem Inside.run {more : List Op} (hmore : Op.leaveAlternate ∉ more)
    (hrun : Runs.run (Term.applyOp granted) t more = some u) : Inside s (ops ++ more) u := by
  induction more generalizing t ops with
  | nil =>
    rw [append_nil]
    exact some.inj hrun ▸ h
  | cons op more ih =>
    obtain ⟨v, hv, hrest⟩ := bind_eq_some_iff.mp hrun
    have hnext := h.applyOp (fun hop => hmore (hop ▸ mem_cons_self)) hv
    have := ih hnext (fun hmem => hmore (mem_cons_of_mem op hmem)) hrest
    rwa [append_assoc] at this

/-- The state from which the alternate screen is left for the first time. -/
theorem Inside.left {p p' : VtParser} {w : List (Bool × UInt8)}
    (hrun : Runs.run feed (p, t) w = some (p', u)) (hleft : u.alternateActive = false)
    (hfirst : ∀ v, v <+: w → v ≠ w → ∀ x, Runs.run feed (p, t) v = some x →
      x.2.alternateActive = true) :
    ∃ before v, p.ops (w.map Prod.snd) = before ++ [.leaveAlternate] ∧ Inside s (ops ++ before) v ∧
      u = v.leaveAlternate := by
  induction w generalizing p t ops with
  | nil =>
    obtain ⟨-, rfl⟩ := Prod.mk.inj (some.inj hrun)
    rw [h.active] at hleft
    cases hleft
  | cons b w ih =>
    obtain ⟨⟨p₁, t₁⟩, hfeed, hrest⟩ := bind_eq_some_iff.mp hrun
    obtain ⟨hparser, hops⟩ := feed_eq_some.mp hfeed
    by_cases hleave : Op.leaveAlternate ∈ (p.feedByte b.2).2
    · have hone := (calls_feedByte p b.2).leave hleave
      rw [hone] at hops
      have hleave₁ : t₁ = t.leaveAlternate := by
        simpa [Runs.run, Term.applyOp] using hops.symm
      have hgone : t₁.alternateActive = false := by
        rw [hleave₁, leaveAlternate, if_pos h.active]
        exact (keeps_withScreen _ _ _).alternateActive
      -- no byte follows, as the screen is left for the first time
      have hend : w = [] := by
        by_contra hne
        have hstay := hfirst [b] ⟨w, rfl⟩ (by simpa using Ne.symm hne) (p₁, t₁)
          (by rw [Runs.run, hfeed]; rfl)
        rw [hgone] at hstay
        cases hstay
      subst hend
      obtain ⟨-, rfl⟩ := Prod.mk.inj (some.inj hrest)
      exact ⟨[], t, by simp [VtParser.ops, hone], by simpa using h, hleave₁⟩
    · have hinside := h.run hleave hops
      obtain ⟨before, v, hbefore, hv, hu⟩ := ih hinside hrest fun v hv hne x hx =>
        hfirst (b :: v) (by simpa using hv) (by simpa using hne) x (by
          rw [Runs.run, hfeed]
          exact hx)
      refine ⟨(p.feedByte b.2).2 ++ before, v, ?_, by rwa [← append_assoc], hu⟩
      rw [hparser] at hbefore
      simp [VtParser.ops, hbefore]

end Inside

/-- After the alternate screen was entered from any state of the primary one and bytes were fed until
it is left for the first time, everything is restored exactly if the alternate screen was not
entered again, or no rows had been scrolled off, and the last region that was set is the old one. -/
theorem alternate_restores_iff (p p' : VtParser) (s t : Surface) (granted : Bool) (fill : Cell)
    (w : List (Bool × UInt8)) (hprimary : s.alternateActive = false)
    (hentered : (s.enterAlternate granted fill).alternateActive = true)
    (hrun : run feed (p, s.enterAlternate granted fill) w = some (p', t))
    (hleft : t.alternateActive = false)
    (hfirst : ∀ v, v <+: w → v ≠ w → ∀ x,
      run feed (p, s.enterAlternate granted fill) v = some x → x.2.alternateActive = true) :
    Restored s t ↔
      ((p.ops (w.map Prod.snd)).any Op.isEnter = false ∨ s.scrollback = []) ∧
        regionAfter s.rows (s.scrollTop, s.scrollBottom) (p.ops (w.map Prod.snd)) =
          (s.scrollTop, s.scrollBottom) := by
  obtain ⟨before, v, hops, hinside, rfl⟩ :=
    (inside_enterAlternate hprimary hentered).left hrun hleft hfirst
  rw [nil_append] at hinside
  have hlast : regionAfter s.rows (s.scrollTop, s.scrollBottom) (before ++ [.leaveAlternate]) =
      regionAfter s.rows (s.scrollTop, s.scrollBottom) before := by
    simp [regionAfter, Op.region]
  have hany : (before ++ [Op.leaveAlternate]).any Op.isEnter = before.any Op.isEnter := by
    simp [Op.isEnter]
  have hleave : v.leaveAlternate = markAllDirty { v with
      alternateActive := false, cursor := v.primaryCursor, saved := v.primarySaved } := by
    rw [leaveAlternate, if_pos hinside.active]
  rw [hops, hlast, hany, hleave, ← hinside.region]
  have hscrollback := hinside.scrollback
  constructor
  · rintro ⟨-, hrows, -, -, hregion⟩
    refine ⟨?_, hregion⟩
    cases hagain : before.any Op.isEnter with
    | false => exact .inl rfl
    | true =>
      rw [hagain] at hscrollback
      exact .inr (hrows.symm.trans hscrollback)
  · rintro ⟨hrows, hregion⟩
    refine ⟨hinside.cells, ?_, hinside.cursor, hinside.saved, hregion⟩
    refine Eq.trans hscrollback ?_
    rcases hrows with hagain | hempty
    · simp [hagain]
    · simp [hempty]

def granting (bytes : List UInt8) : List (Bool × UInt8) := bytes.map (true, ·)

/-- A letter in the alternate screen, which is then left by `ESC[?1049l`. -/
def letterAndLeave : List (Bool × UInt8) :=
  granting [65, 27, 91, 63, 49, 48, 52, 57, 108]

theorem letterAndLeave_restores :
    ∃ p t, run feed (VtParser.init, (Surface.init 8 4).enterAlternate true defaultCell)
        letterAndLeave = some (p, t) ∧ Restored (Surface.init 8 4) t := by
  have hrun : (run feed (VtParser.init, (Surface.init 8 4).enterAlternate true defaultCell)
      letterAndLeave).map (fun x => x.2.alternateActive) = some false := by
    decide +kernel
  have hbefore : ∀ v ∈ letterAndLeave.inits, v ≠ letterAndLeave →
      (run feed (VtParser.init, (Surface.init 8 4).enterAlternate true defaultCell) v).map
        (fun x => x.2.alternateActive) = some true := by
    decide +kernel
  obtain ⟨⟨p, t⟩, hs, hleft⟩ := map_eq_some_iff.mp hrun
  refine ⟨p, t, hs, (alternate_restores_iff VtParser.init p (Surface.init 8 4) t true defaultCell
    letterAndLeave (by decide +kernel) (by decide +kernel) hs hleft ?_).mpr
      ⟨.inl (by decide +kernel), by decide +kernel⟩⟩
  intro v hv hne x hx
  have hactive := hbefore v ((mem_inits _ _).mpr hv) hne
  rw [hx] at hactive
  exact some.inj hactive

/-- `ESC[?1049h`, `ESC[2;3r` and `ESC[?1049l`. -/
def regionInside : List (Bool × UInt8) :=
  granting ([27, 91, 63, 49, 48, 52, 57, 104] ++ [27, 91, 50, 59, 51, 114] ++
    [27, 91, 63, 49, 48, 52, 57, 108])

/-- The scroll region that a program sets on the alternate screen stays on the primary one. -/
theorem region_survives_alternate : (Surface.init 8 4).alternateActive = false ∧
      ∃ p t, run feed (VtParser.init, Surface.init 8 4) regionInside = some (p, t) ∧
        t.alternateActive = false ∧ (t.scrollTop, t.scrollBottom) = (1, 2) ∧
          ¬Restored (Surface.init 8 4) t := by
  have hrun : (run feed (VtParser.init, Surface.init 8 4) regionInside).map
      (fun x => decide (x.2.alternateActive = false ∧
        (x.2.scrollTop, x.2.scrollBottom) = (1, 2))) = some true := by
    decide +kernel
  obtain ⟨⟨p, t⟩, hs, hend⟩ := map_eq_some_iff.mp hrun
  obtain ⟨hleft, hregion⟩ := of_decide_eq_true hend
  refine ⟨by decide +kernel, p, t, hs, hleft, hregion, fun hrestored => ?_⟩
  have hsame := hregion.symm.trans hrestored.region
  revert hsame
  decide +kernel

end Sodex.Term
