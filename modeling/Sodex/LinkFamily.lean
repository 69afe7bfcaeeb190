import Sodex.LinkRing

/-!
# Families of rings

Each parent of a family heads a ring of its kids, and every kid is on one ring at
most. The heads and the items are nodes inside the parents and kids, so a parent
can itself be a kid of another. The edits of a family are those of its rings; the
other rings do not notice them.
-/
namespace Sodex.LinkFamily

open LinkRing List Function

variable {ν τ : Type*}

/-- Heads and items are pairwise different nodes. -/
structure Layout (head item : τ → ν) : Prop where
  head_inj : Function.Injective head
  item_inj : Function.Injective item
  head_ne_item : ∀ p x, head p ≠ item x

/-- Every parent in `P` heads the ring of its kids. -/
structure Family (L : Links ν) (head item : τ → ν) (P : τ → Prop) (kids : τ → List τ) : Prop where
  ring : ∀ p, P p → Ring L (head p) ((kids p).map item)
  apart : ∀ p q x, P p → P q → x ∈ kids p → x ∈ kids q → p = q

section

variable {L : Links ν} {head item : τ → ν} {P Q : τ → Prop} {kids : τ → List τ} {p q x t : τ}

section

variable (hf : Family L head item P kids)
include hf

theorem Family.nodup (hp : P p) : (kids p).Nodup :=
  List.Nodup.of_map _ (nodup_cons.mp (hf.ring p hp).nodup).2

theorem Family.mono (h : ∀ p, Q p → P p) :
    Family L head item Q kids :=
  ⟨fun p hp => hf.ring p (h p hp), fun p q x hp hq => hf.apart p q x (h p hp) (h q hq)⟩

theorem Family.disjoint (hl : Layout head item) (hp : P p)
    (hq : P q) (hne : p ≠ q) :
    (head p :: (kids p).map item).Disjoint (head q :: (kids q).map item) := by
  intro u hu hv
  simp only [mem_cons, mem_map] at hu hv
  rcases hu with rfl | ⟨x, hx, rfl⟩ <;> rcases hv with hv | ⟨y, hy, hv⟩
  · exact hne (hl.head_inj hv)
  · exact hl.head_ne_item _ _ hv.symm
  · exact hl.head_ne_item _ _ hv.symm
  · obtain rfl := hl.item_inj hv
    exact hne (hf.apart _ _ _ hp hq hx hy)

end

/-- A node that is neither a head nor an item. -/
def Foreign (head item : τ → ν) (u : ν) : Prop := (∀ p, u ≠ head p) ∧ ∀ x, u ≠ item x

theorem disjoint_foreign {u : ν} {us : List ν} (h : ∀ v ∈ u :: us, Foreign head item v)
    (p : τ) (xs : List τ) : (head p :: xs.map item).Disjoint (u :: us) := by
  intro v hv hu
  rcases mem_cons.mp hv with rfl | hv
  · exact (h _ hu).1 p rfl
  · obtain ⟨x, -, rfl⟩ := mem_map.mp hv
    exact (h _ hu).2 x rfl

theorem item_not_mem (hl : Layout head item) (hx : x ∉ kids q) :
    item x ∉ head q :: (kids q).map item := by
  intro h
  rcases mem_cons.mp h with h | h
  · exact hl.head_ne_item _ _ h.symm
  · obtain ⟨y, hy, h⟩ := mem_map.mp h
    exact hx (hl.item_inj h ▸ hy)

/-- Edits of nodes outside the rings of the family. -/
theorem Family.frame {L' : Links ν} (hf : Family L head item P kids)
    (h : ∀ p, P p → Ring L (head p) ((kids p).map item) → Ring L' (head p) ((kids p).map item)) :
    Family L' head item P kids :=
  ⟨fun p hp => h p hp (hf.ring p hp), hf.apart⟩

end

section Frames

variable [DecidableEq ν] {L : Links ν} {head item : τ → ν} {P : τ → Prop} {kids : τ → List τ}
  {p x : τ} {g : ν} {ys : List ν}

variable (hf : Family L head item P kids)
include hf

theorem Family.insert_frame (hp : P p) (hg : Ring L g ys)
    (hforeign : ∀ u ∈ g :: ys, Foreign head item u) :
    Ring (L.insertAfter (item x) (head p)) g ys :=
  (hf.ring p hp).insertAfter_frame (by simp) hg (fun h => (hforeign _ h).2 x rfl)
    (disjoint_foreign hforeign p _)

theorem Family.remove_frame (hp : P p) (hx : x ∈ kids p)
    (hg : Ring L g ys) (hforeign : ∀ u ∈ g :: ys, Foreign head item u) :
    Ring (L.unlink (item x)) g ys :=
  (hf.ring p hp).unlink_frame (mem_map_of_mem hx) hg (disjoint_foreign hforeign p _)

theorem Family.init_item (hl : Layout head item)
    (hx : ∀ q, P q → x ∉ kids q) : Family (L.init (item x)) head item P kids :=
  hf.frame fun p hp hring => hring.init_frame (item_not_mem hl (hx p hp))

end Frames

section Edits

variable [DecidableEq ν] [DecidableEq τ] {L : Links ν} {head item : τ → ν} {P : τ → Prop}
  {kids : τ → List τ} {p q x y t : τ}

theorem mem_update_cons : y ∈ update kids p (x :: kids p) q ↔ q = p ∧ y = x ∨ y ∈ kids q := by
  by_cases hqp : q = p
  · subst hqp
    simp
  · simp [hqp]

theorem mem_update_erase (hnd : (kids p).Nodup) :
    y ∈ update kids p ((kids p).erase x) q ↔ ¬(q = p ∧ y = x) ∧ y ∈ kids q := by
  by_cases hqp : q = p
  · subst hqp
    simp [hnd.mem_erase_iff]
  · simp [hqp]

theorem mem_update_nil : y ∈ update kids t [] q ↔ q ≠ t ∧ y ∈ kids q := by
  by_cases hqt : q = t
  · subst hqt
    simp
  · simp [hqt]

variable (hf : Family L head item P kids)
include hf

theorem Family.insert (hl : Layout head item) (hp : P p)
    (hx : ∀ q, P q → x ∉ kids q) :
    Family (L.insertAfter (item x) (head p)) head item P
      (update kids p (x :: kids p)) := by
  refine ⟨fun q hq => ?_, fun q r y hq hr hyq hyr => ?_⟩
  · by_cases hqp : q = p
    · subst hqp
      rw [update_self, map_cons]
      exact (hf.ring q hq).insertAfter_head (item_not_mem hl (hx q hq))
    · rw [update_of_ne hqp]
      exact (hf.ring p hp).insertAfter_frame (by simp) (hf.ring q hq)
        (item_not_mem hl (hx q hq)) (hf.disjoint hl hp hq (Ne.symm hqp))
  · rcases mem_update_cons.mp hyq with ⟨hqp, hyx⟩ | hyq <;>
      rcases mem_update_cons.mp hyr with ⟨hrp, hyx'⟩ | hyr
    · exact hqp.trans hrp.symm
    · exact absurd (hyx ▸ hyr) (hx r hr)
    · exact absurd (hyx' ▸ hyq) (hx q hq)
    · exact hf.apart _ _ _ hq hr hyq hyr

/-- A kid is taken off the ring of `p`. -/
theorem Family.remove (hl : Layout head item) (hp : P p)
    (hx : x ∈ kids p) :
    Family (L.unlink (item x)) head item P (update kids p ((kids p).erase x)) := by
  have hmem : item x ∈ (kids p).map item := mem_map_of_mem hx
  have hnd := hf.nodup hp
  refine ⟨fun q hq => ?_, fun q r y hq hr hyq hyr => hf.apart _ _ _ hq hr
    ((mem_update_erase hnd).mp hyq).2 ((mem_update_erase hnd).mp hyr).2⟩
  by_cases hqp : q = p
  · subst hqp
    rw [update_self]
    obtain ⟨as, bs, hsplit⟩ := append_of_mem hx
    have hring := hf.ring q hq
    have hnot : x ∉ as := by rw [hsplit] at hnd; grind
    rw [hsplit, map_append, map_cons] at hring
    rw [hsplit, erase_append_right _ hnot, erase_cons_head, map_append]
    exact hring.unlink
  · rw [update_of_ne hqp]
    exact (hf.ring p hp).unlink_frame hmem (hf.ring q hq) (hf.disjoint hl hp hq (Ne.symm hqp))

/-- A new parent without kids. -/
theorem Family.birth (hl : Layout head item) (ht : ¬ P t) :
    Family (L.init (head t)) head item (fun p => P p ∨ p = t) (update kids t []) := by
  refine ⟨fun q hq => ?_, fun q r y hq hr hyq hyr => ?_⟩
  · by_cases hqt : q = t
    · subst hqt
      rw [update_self]
      exact ring_init L _
    · rw [update_of_ne hqt]
      refine (hf.ring q (hq.resolve_right hqt)).init_frame fun h => ?_
      rcases mem_cons.mp h with h | h
      · exact hqt (hl.head_inj h).symm
      · obtain ⟨y, -, h⟩ := mem_map.mp h
        exact hl.head_ne_item _ _ h.symm
  · obtain ⟨hqt, hyq⟩ := mem_update_nil.mp hyq
    obtain ⟨hrt, hyr⟩ := mem_update_nil.mp hyr
    exact hf.apart _ _ _ (hq.resolve_right hqt) (hr.resolve_right hrt) hyq hyr

end Edits

end Sodex.LinkFamily
