import Mathlib.Order.Nat
import Mathlib.Tactic.Common

/-!
# Spans of cells with pairs

A span of cells from `l` to `r` in which some cells are the left half of a pair and the cell right
of each is the right half. A span of a larger one can be replaced by another such span if its ends
do not cut a pair.
-/
namespace Sodex.PairedCells

variable {α : Type*} {whole lead rest : α → Prop} {f g : ℕ → α} {l r left right : ℕ}

/-- Every left half in the span from `l` to `r` is followed by its right half, no right half stands
alone, and every cell is whole. -/
structure Paired (whole lead rest : α → Prop) (f : ℕ → α) (l r : ℕ) : Prop where
  whole : ∀ c, l ≤ c → c ≤ r → whole (f c)
  first : ¬rest (f l)
  next : ∀ c, l ≤ c → c < r → (lead (f c) ↔ rest (f (c + 1)))
  last : ¬lead (f r)

theorem Paired.of_single (hwhole : ∀ c, l ≤ c → c ≤ r → whole (f c))
    (hlead : ∀ c, l ≤ c → c ≤ r → ¬lead (f c)) (hrest : ∀ c, l ≤ c → c ≤ r → ¬rest (f c))
    (hlr : l ≤ r) : Paired whole lead rest f l r where
  whole := hwhole
  first := hrest l le_rfl hlr
  next := fun c hl hr =>
    ⟨fun h => absurd h (hlead c hl hr.le), fun h => absurd h (hrest (c + 1) (by omega) hr)⟩
  last := hlead r hlr le_rfl

theorem Paired.pair {c : ℕ} (hlead : lead (f c)) (hrest : rest (f (c + 1))) (hleft : ¬rest (f c))
    (hright : ¬lead (f (c + 1))) (hwhole : whole (f c)) (hwhole' : whole (f (c + 1))) :
    Paired whole lead rest f c (c + 1) where
  whole := by
    intro d hl hr
    obtain rfl | rfl : d = c ∨ d = c + 1 := by omega
    · exact hwhole
    · exact hwhole'
  first := hleft
  next := by
    intro d hl hr
    obtain rfl : d = c := by omega
    exact iff_of_true hlead hrest
  last := hright

theorem Paired.congr (h : Paired whole lead rest f l r) (hlr : l ≤ r)
    (heq : ∀ c, l ≤ c → c ≤ r → g c = f c) : Paired whole lead rest g l r where
  whole := fun c hl hr => heq c hl hr ▸ h.whole c hl hr
  first := heq l le_rfl hlr ▸ h.first
  next := by
    intro c hl hr
    rw [heq c hl hr.le, heq (c + 1) (by omega) hr]
    exact h.next c hl hr
  last := heq r hlr le_rfl ▸ h.last

/-- The first cells of a span, up to one that is no left half. -/
theorem Paired.take {m : ℕ} (h : Paired whole lead rest f l r) (hm : m ≤ r) (hlast : ¬lead (f m)) :
    Paired whole lead rest f l m where
  whole := fun c hl hc => h.whole c hl (hc.trans hm)
  first := h.first
  next := fun c hl hc => h.next c hl (hc.trans_le hm)
  last := hlast

/-- Two spans side by side. -/
theorem Paired.append {m : ℕ} (h : Paired whole lead rest f l m)
    (h' : Paired whole lead rest f (m + 1) r) : Paired whole lead rest f l r where
  whole := by
    intro c hl hr
    by_cases hc : c ≤ m
    · exact h.whole c hl hc
    · exact h'.whole c (by omega) hr
  first := h.first
  next := by
    intro c hl hr
    rcases lt_trichotomy c m with hc | rfl | hc
    · exact h.next c hl hc
    · exact iff_of_false h.last h'.first
    · exact h'.next c (by omega) hr
  last := h'.last

/-- A span whose ends do not cut a pair is replaced. -/
theorem Paired.replace (hf : Paired whole lead rest f left right)
    (hg : Paired whole lead rest g l r) (hleft : left ≤ l) (hlr : l ≤ r) (hright : r ≤ right)
    (hl : ¬rest (f l)) (hr : ¬lead (f r)) (hout : ∀ c, c < l ∨ r < c → g c = f c) :
    Paired whole lead rest g left right where
  whole := by
    intro c hcl hcr
    by_cases hc : c < l ∨ r < c
    · rw [hout c hc]
      exact hf.whole c hcl hcr
    · exact hg.whole c (by omega) (by omega)
  first := by
    rcases hleft.eq_or_lt with rfl | hlt
    · exact hg.first
    · rw [hout left (.inl hlt)]
      exact hf.first
  next := by
    intro c hcl hcr
    rcases lt_trichotomy (c + 1) l with hc | hc | hc
    · rw [hout c (.inl (by omega)), hout (c + 1) (.inl hc)]
      exact hf.next c hcl hcr
    · -- the cell left of the span
      have hlead : ¬lead (f c) := fun hlead => hl (hc ▸ (hf.next c hcl hcr).mp hlead)
      rw [hout c (.inl (by omega)), hc]
      exact iff_of_false hlead hg.first
    · rcases lt_trichotomy c r with hcr' | rfl | hcr'
      · exact hg.next c (by omega) hcr'
      · rw [hout (c + 1) (.inr (by omega))]
        exact iff_of_false hg.last fun hrest => hr ((hf.next c hcl hcr).mpr hrest)
      · rw [hout c (.inr hcr'), hout (c + 1) (.inr (by omega))]
        exact hf.next c hcl hcr
  last := by
    rcases hright.eq_or_lt with rfl | hlt
    · exact hg.last
    · rw [hout right (.inr hlt)]
      exact hf.last

end Sodex.PairedCells
