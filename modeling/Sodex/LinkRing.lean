import Mathlib.Data.List.Nodup
import Mathlib.Logic.Function.Basic
import Mathlib.Tactic

/-!
# Circular doubly linked lists with a head node

Nodes of an arbitrary type carry one `next` and one `prev` field. A ring is a
head node together with the nodes reached from it. The edits below are the
pointer assignments of the usual C macros, in their textual order. Removing a
node leaves its own two fields as they were, so a removed node still points at
its former neighbours.

`Seg` describes the path between two nodes. It splits at any inner node, and it
reads only the `next` fields of its start and the `prev` fields of its end.
-/
namespace Sodex.LinkRing

open List Function

/-- The two link fields of all nodes. -/
structure Links (ν : Type*) where
  next : ν → ν
  prev : ν → ν

variable {ν : Type*}

/-- `b` is reached from `a` through exactly the inner nodes `xs`, both ways. -/
def Seg (L : Links ν) : ν → List ν → ν → Prop
  | a, [], b => L.next a = b ∧ L.prev b = a
  | a, x :: xs, b => L.next a = x ∧ L.prev x = a ∧ Seg L x xs b

/-- The head `h` owns the members `xs`, without repetition. -/
structure Ring (L : Links ν) (h : ν) (xs : List ν) : Prop where
  seg : Seg L h xs h
  nodup : (h :: xs).Nodup

section Segments

variable {L L' : Links ν} {a b h x e : ν} {xs ys as bs : List ν}

@[simp] theorem seg_nil : Seg L a [] b ↔ L.next a = b ∧ L.prev b = a := Iff.rfl

@[simp] theorem seg_cons :
    Seg L a (x :: xs) b ↔ L.next a = x ∧ L.prev x = a ∧ Seg L x xs b := Iff.rfl

theorem seg_append (xs : List ν) : Seg L a (xs ++ x :: ys) b ↔ Seg L a xs x ∧ Seg L x ys b := by
  induction xs generalizing a with
  | nil => simp [Seg, and_assoc]
  | cons y xs ih => simp [Seg, ih, and_assoc]

/-- A segment reads `next` before its end and `prev` after its start. -/
theorem Seg.congr (hs : Seg L a xs b) (hn : ∀ u ∈ a :: xs, L'.next u = L.next u)
    (hp : ∀ u ∈ xs ++ [b], L'.prev u = L.prev u) : Seg L' a xs b := by
  induction xs generalizing a with
  | nil =>
    simp only [mem_singleton, forall_eq, nil_append] at hn hp
    exact ⟨hn.trans hs.1, hp.trans hs.2⟩
  | cons x xs ih =>
    obtain ⟨h₁, h₂, h₃⟩ := hs
    refine ⟨(hn a (by simp)).trans h₁, (hp x (by simp)).trans h₂, ih h₃ ?_ ?_⟩
    · exact fun u hu => hn u (mem_cons_of_mem _ hu)
    · exact fun u hu => hp u (by simpa using .inr (by simpa using hu))

/-- The first step of a segment. -/
theorem Seg.next_eq (hs : Seg L a xs b) : L.next a = xs.headD b := by
  cases xs with
  | nil => exact hs.1
  | cons x xs => exact hs.1

theorem Seg.prev_eq (hs : Seg L a xs b) : L.prev b = xs.getLastD a := by
  induction xs generalizing a with
  | nil => exact hs.2
  | cons x xs ih => rw [ih hs.2.2, getLastD_cons]

end Segments

section Rings

variable {L L' : Links ν} {h g x e : ν} {xs ys as bs : List ν}

/-- A ring survives any edit away from its nodes. -/
theorem Ring.congr (hr : Ring L h xs) (hn : ∀ u ∈ h :: xs, L'.next u = L.next u)
    (hp : ∀ u ∈ h :: xs, L'.prev u = L.prev u) : Ring L' h xs := by
  refine ⟨hr.seg.congr hn fun u hu => hp u ?_, hr.nodup⟩
  simp only [mem_append, mem_cons, not_mem_nil, or_false] at hu ⊢
  exact hu.symm

theorem Ring.next_head (hr : Ring L h xs) : L.next h = xs.headD h := hr.seg.next_eq

theorem Ring.next_mem (hr : Ring L h (as ++ x :: bs)) : L.next x = bs.headD h :=
  ((seg_append as).mp hr.seg).2.next_eq

theorem Ring.prev_mem (hr : Ring L h (as ++ x :: bs)) : L.prev x = as.getLastD h :=
  ((seg_append as).mp hr.seg).1.prev_eq

theorem Ring.rotate (hr : Ring L h (as ++ e :: bs)) : Ring L e (bs ++ h :: as) := by
  have hs := (seg_append as).mp hr.seg
  have hnd := hr.nodup
  exact ⟨(seg_append bs).mpr ⟨hs.2, hs.1⟩, by grind⟩

/-- The neighbours of a member belong to the ring. -/
theorem Ring.next_in (hr : Ring L h xs) (hx : x ∈ h :: xs) : L.next x ∈ h :: xs := by
  rcases mem_cons.mp hx with rfl | hx
  · rw [hr.next_head]
    cases xs <;> simp
  · obtain ⟨as, bs, rfl⟩ := append_of_mem hx
    rw [hr.next_mem]
    cases bs <;> simp

theorem Ring.prev_in (hr : Ring L h xs) (hx : x ∈ h :: xs) : L.prev x ∈ h :: xs := by
  have hlast : ∀ l : List ν, l.getLastD h ∈ h :: l := by
    intro l
    cases l using reverseRecOn with
    | nil => simp
    | append_singleton l p => simp
  rcases mem_cons.mp hx with rfl | hx
  · rw [hr.seg.prev_eq]
    exact hlast xs
  · obtain ⟨as, bs, rfl⟩ := append_of_mem hx
    rw [hr.prev_mem]
    exact cons_subset_cons h (subset_append_left as _) (hlast as)

end Rings

section Edits

variable [DecidableEq ν]

/-- `h->prev = h; h->next = h`. -/
def Links.init (L : Links ν) (h : ν) : Links ν where
  next := update L.next h h
  prev := update L.prev h h

/-- `p->next->prev = p->prev; p->prev->next = p->next`. -/
def Links.unlink (L : Links ν) (p : ν) : Links ν where
  next := update L.next (L.prev p) (L.next p)
  prev := update L.prev (L.next p) (L.prev p)

/-- `e->next->prev = p; p->next = e->next; e->next = p; p->prev = e`. -/
def Links.insertAfter (L : Links ν) (p e : ν) : Links ν where
  next := update (update L.next p (L.next e)) e p
  prev := update (update L.prev (L.next e) p) p e

/-- `e->prev->next = p; p->prev = e->prev; e->prev = p; p->next = e`. -/
def Links.insertBefore (L : Links ν) (p e : ν) : Links ν where
  next := update (update L.next (L.prev e) p) p e
  prev := update (update L.prev p (L.prev e)) e p

/-- The nodes met from `p` before `stop`. The fuel bounds the walk; a walk over
a ring never uses it up. -/
def Links.walk (L : Links ν) (stop : ν) : ℕ → ν → List ν
  | 0, _ => []
  | fuel + 1, p => if p = stop then [] else p :: L.walk stop fuel (L.next p)

/-- Traversal from a head, as `for (p = h->next; p != h; p = p->next)`. -/
def Links.members (L : Links ν) (fuel : ℕ) (h : ν) : List ν := L.walk h fuel (L.next h)

variable {L : Links ν} {h g x e : ν} {xs ys as bs : List ν}

theorem ring_init (L : Links ν) (h : ν) : Ring (L.init h) h [] := by
  refine ⟨⟨?_, ?_⟩, by simp⟩ <;> simp [Links.init]

theorem Ring.unlink_first (hr : Ring L h (x :: xs)) : Ring (L.unlink x) h xs := by
  have hnd := hr.nodup
  have hs := hr.seg
  have hn : L.next x = xs.headD h := hs.2.2.next_eq
  have hp : L.prev x = h := hs.2.1
  refine ⟨?_, by grind⟩
  cases xs with
  | nil => simp_all [Links.unlink]
  | cons n ns =>
    refine ⟨by simp [Links.unlink, hn, hp], by simp [Links.unlink, hn, hp],
      hs.2.2.2.2.congr ?_ ?_⟩ <;> intro u hu <;>
      simp only [Links.unlink, hn, hp] <;> rw [update_of_ne] <;> grind

/-- Unlinking a member drops exactly that member. -/
theorem Ring.unlink (hr : Ring L h (as ++ x :: bs)) : Ring (L.unlink x) h (as ++ bs) := by
  cases as using reverseRecOn with
  | nil => exact hr.unlink_first
  | append_singleton as p =>
    -- The ring is turned until the member stands first.
    rw [append_assoc] at hr ⊢
    have hturned : Ring L p (x :: (bs ++ h :: as)) := hr.rotate
    exact hturned.unlink_first.rotate

/-- Unlinking a member of one ring leaves a disjoint ring alone. -/
theorem Ring.unlink_frame (hr : Ring L h xs) (hx : x ∈ xs) (hg : Ring L g ys)
    (hd : (h :: xs).Disjoint (g :: ys)) : Ring (L.unlink x) g ys := by
  have hn := hr.next_in (mem_cons_of_mem h hx)
  have hp := hr.prev_in (mem_cons_of_mem h hx)
  refine hg.congr ?_ ?_ <;> intro u hu <;> simp only [Links.unlink] <;>
    rw [update_of_ne] <;> rintro rfl
  · exact hd hp hu
  · exact hd hn hu

/-- Insertion behind the head puts the new node first. -/
theorem Ring.insertAfter_head (hr : Ring L h xs) (hx : x ∉ h :: xs) :
    Ring (L.insertAfter x h) h (x :: xs) := by
  have hn := hr.next_head
  have hnd := hr.nodup
  have hs := hr.seg
  refine ⟨?_, by grind⟩
  cases xs with
  | nil =>
    simp only [mem_cons, not_mem_nil, or_false] at hx
    simp [Links.insertAfter, hn, Ne.symm hx, hx]
  | cons n ns =>
    simp only [mem_cons, not_or] at hx
    refine ⟨by simp [Links.insertAfter], by simp [Links.insertAfter],
      by simp [Links.insertAfter, hn, hx.1], by simp [Links.insertAfter, hn, Ne.symm hx.2.1],
      hs.2.2.congr ?_ ?_⟩ <;> intro u hu <;> simp only [Links.insertAfter, hn] <;>
      rw [update_of_ne, update_of_ne] <;> grind

/-- Insertion behind a member. -/
theorem Ring.insertAfter_mem (hr : Ring L h (as ++ e :: bs)) (hx : x ∉ h :: (as ++ e :: bs)) :
    Ring (L.insertAfter x e) h (as ++ e :: x :: bs) := by
  have hhead := hr.rotate.insertAfter_head (x := x) (by grind)
  exact hhead.rotate

theorem Ring.insertAfter_frame (hr : Ring L h xs) (he : e ∈ h :: xs) (hg : Ring L g ys)
    (hx : x ∉ g :: ys) (hd : (h :: xs).Disjoint (g :: ys)) : Ring (L.insertAfter x e) g ys := by
  have hn := hr.next_in he
  refine hg.congr ?_ ?_ <;> intro u hu <;> simp only [Links.insertAfter] <;>
    rw [update_of_ne, update_of_ne] <;> rintro rfl
  · exact hx hu
  · exact hd he hu
  · exact hd hn hu
  · exact hx hu

/-- Insertion before a node is insertion behind the one in front of it. -/
theorem Links.insertBefore_eq (hx : x ≠ e) (hp : x ≠ L.prev e) (hn : L.next (L.prev e) = e) :
    L.insertBefore x e = L.insertAfter x (L.prev e) := by
  rw [Links.insertBefore, Links.insertAfter, hn, update_comm hp,
    update_comm hx]

/-- Insertion before the head puts the new node last. -/
theorem Ring.insertBefore_head (hr : Ring L h xs) (hx : x ∉ h :: xs) :
    Ring (L.insertBefore x h) h (xs ++ [x]) := by
  cases xs using reverseRecOn with
  | nil =>
    have hp : L.prev h = h := hr.seg.2
    rw [Links.insertBefore_eq (by grind) (by grind) (by rw [hp]; exact hr.seg.1), hp]
    exact hr.insertAfter_head hx
  | append_singleton xs p =>
    have hp : L.prev h = p := by
      rw [hr.seg.prev_eq, getLastD_concat]
    rw [Links.insertBefore_eq (by grind) (by grind) (by rw [hp]; exact hr.next_mem), hp]
    simpa using hr.insertAfter_mem hx

theorem Ring.insertBefore (hr : Ring L h (as ++ e :: bs)) (hx : x ∉ h :: (as ++ e :: bs)) :
    Ring (L.insertBefore x e) h (as ++ x :: e :: bs) := by
  have hhead := hr.rotate.insertBefore_head (x := x) (by grind)
  rw [append_assoc, cons_append] at hhead
  simpa using hhead.rotate

theorem Ring.insertBefore_frame (hr : Ring L h xs) (he : e ∈ h :: xs) (hg : Ring L g ys)
    (hx : x ∉ g :: ys) (hd : (h :: xs).Disjoint (g :: ys)) : Ring (L.insertBefore x e) g ys := by
  have hp := hr.prev_in he
  refine hg.congr ?_ ?_ <;> intro u hu <;> simp only [Links.insertBefore] <;>
    rw [update_of_ne, update_of_ne] <;> rintro rfl
  · exact hd hp hu
  · exact hx hu
  · exact hx hu
  · exact hd he hu

theorem Ring.init_frame (hg : Ring L g ys) (hx : x ∉ g :: ys) : Ring (L.init x) g ys := by
  refine hg.congr ?_ ?_ <;> intro u hu <;> simp only [Links.init] <;>
    rw [update_of_ne] <;> rintro rfl <;> exact hx hu

/-- Moving a member of one ring behind the head of another. -/
theorem Ring.move (ha : Ring L g (as ++ x :: bs)) (hb : Ring L h ys)
    (hd : (g :: (as ++ x :: bs)).Disjoint (h :: ys)) :
    Ring ((L.unlink x).insertAfter x h) g (as ++ bs) ∧
      Ring ((L.unlink x).insertAfter x h) h (x :: ys) := by
  have hx : x ∈ as ++ x :: bs := by simp
  have ha' := ha.unlink
  have hb' := ha.unlink_frame hx hb hd
  have hnd := ha.nodup
  have hd' : (h :: ys).Disjoint (g :: (as ++ bs)) := fun u hu hv => hd (by grind) hu
  exact ⟨hb'.insertAfter_frame (by simp) ha' (by grind) hd',
    hb'.insertAfter_head fun hm => hd (mem_cons_of_mem g hx) hm⟩

/-- A third ring does not notice the move. -/
theorem Ring.move_frame {k : ν} {zs : List ν} (ha : Ring L g (as ++ x :: bs)) (hb : Ring L h ys)
    (hc : Ring L k zs) (hd : (g :: (as ++ x :: bs)).Disjoint (h :: ys))
    (hac : (g :: (as ++ x :: bs)).Disjoint (k :: zs)) (hbc : (h :: ys).Disjoint (k :: zs)) :
    Ring ((L.unlink x).insertAfter x h) k zs := by
  have hx : x ∈ as ++ x :: bs := by simp
  have hb' := ha.unlink_frame hx hb hd
  have hc' := ha.unlink_frame hx hc hac
  exact hb'.insertAfter_frame (by simp) hc' (fun hm => hac (mem_cons_of_mem g hx) hm) hbc

/-- With enough fuel the walk from an inner node visits the rest of the segment. -/
theorem Seg.walk_eq (hs : Seg L x xs h) (hx : h ∉ x :: xs) {fuel : ℕ}
    (hf : xs.length < fuel) : L.walk h (fuel + 1) x = x :: xs := by
  induction xs generalizing x fuel with
  | nil =>
    obtain ⟨fuel, rfl⟩ : ∃ k, fuel = k + 1 := ⟨fuel - 1, by simp at hf; omega⟩
    simp only [mem_singleton] at hx
    simp [Links.walk, Ne.symm hx, hs.1]
  | cons y ys ih =>
    obtain ⟨fuel, rfl⟩ : ∃ k, fuel = k + 1 := ⟨fuel - 1, by simp at hf; omega⟩
    have hxy : x ≠ h := by rintro rfl; simp at hx
    have hy := ih hs.2.2 (fun hm => hx (mem_cons_of_mem _ hm)) (by simpa using hf)
    rw [Links.walk, if_neg hxy, hs.1, hy]

/-- Traversal of a ring returns its members in order. -/
theorem Ring.members_eq (hr : Ring L h xs) {fuel : ℕ} (hf : xs.length < fuel) :
    L.members fuel h = xs := by
  have hnd := hr.nodup
  have hs := hr.seg
  obtain ⟨fuel, rfl⟩ : ∃ k, fuel = k + 1 := ⟨fuel - 1, by omega⟩
  cases xs with
  | nil => simp [Links.members, Links.walk, hs.1]
  | cons x xs =>
    rw [Links.members, hs.1]
    obtain ⟨fuel, rfl⟩ : ∃ k, fuel = k + 1 := ⟨fuel - 1, by simp at hf; omega⟩
    exact hs.2.2.walk_eq (by grind) (by simpa using hf)

end Edits

end Sodex.LinkRing
