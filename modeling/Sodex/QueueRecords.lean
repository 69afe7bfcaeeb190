import Mathlib.Data.Set.Insert
import Mathlib.Data.List.Nodup
import Mathlib.Logic.Function.Basic
import Mathlib.Tactic.Common

/-!
# Queues recorded on both sides

Elements wait in queues, and an element that waits also records the queue it is in. The
two records agree, except for the elements of a set `D` that have left their queue without
being finished with. Elements may also carry tickets, numbered in the order in which they
were issued, and the tickets that were taken are listed.
-/
namespace Sodex.QueueRecords

open List Option Function

variable {α β : Type*} {code : α → β}

/-- The queues and the records of the elements agree outside `D`. -/
structure Linked (code : α → β) (queue : α → List α) (parent : α → β) (pending : α → Bool)
    (D : Set α) : Prop where
  child : ∀ p, ∀ i ∈ queue p, i ≠ p ∧ parent i = code p ∧ pending i = true
  nodup : ∀ p, (queue p).Nodup
  queued : ∀ i, i ∉ D → pending i = true → ∃ p, parent i = code p ∧ i ∈ queue p
  unlisted : ∀ i ∈ D, ∀ p, i ∉ queue p

section Linked

variable {queue : α → List α} {parent : α → β} {pending : α → Bool} {D D' : Set α} {i p : α}

theorem Linked.queue_unique (hcode : Function.Injective code)
    (h : Linked code queue parent pending D) {q : α} (hp : i ∈ queue p) (hq : i ∈ queue q) :
    p = q :=
  hcode ((h.child p i hp).2.1.symm.trans (h.child q i hq).2.1)

theorem Linked.not_mem_of_not_pending (h : Linked code queue parent pending D)
    (hi : pending i = false) (q : α) : i ∉ queue q := by
  intro hq
  exact absurd ((h.child q i hq).2.2.symm.trans hi) (by decide)

variable [DecidableEq α]

variable (h : Linked code queue parent pending D)
include h

theorem Linked.record (hi : ∀ q, i ∉ queue q)
    (hD : ∀ j, j ≠ i → (j ∈ D' ↔ j ∈ D)) (x : β) {b : Bool} (hb : b = true → i ∈ D') :
    Linked code queue (update parent i x) (update pending i b) D' := by
  constructor
  · intro q j hj
    have hji : j ≠ i := fun hji => hi q (hji ▸ hj)
    rw [update_of_ne hji, update_of_ne hji]
    exact h.child q j hj
  · exact h.nodup
  · intro j hj hpend
    by_cases hji : j = i
    · subst hji
      rw [update_self] at hpend
      exact absurd (hb hpend) hj
    · rw [update_of_ne hji] at hpend ⊢
      exact h.queued j (fun hjD => hj ((hD j hji).mpr hjD)) hpend
  · intro j hj q hjq
    exact h.unlisted j ((hD j fun hji => hi q (hji ▸ hjq)).mp hj) q hjq

/-- An element with its record written joins the end of a queue. -/
theorem Linked.push (hi : i ∈ D) (hne : i ≠ p)
    (hparent : parent i = code p) (hpend : pending i = true) :
    Linked code (update queue p (queue p ++ [i])) parent pending (D \ {i}) := by
  have hlist := h.unlisted i hi
  have hmem : ∀ q j, j ∈ update queue p (queue p ++ [i]) q ↔
      j ∈ queue q ∨ q = p ∧ j = i := by
    intro q j
    by_cases hq : q = p
    · subst hq
      simp
    · simp [hq]
  constructor
  · intro q j hj
    rcases (hmem q j).mp hj with hj | ⟨rfl, rfl⟩
    · exact h.child q j hj
    · exact ⟨hne, hparent, hpend⟩
  · intro q
    by_cases hq : q = p
    · subst hq
      rw [update_self, nodup_append_comm, singleton_append]
      exact nodup_cons.mpr ⟨hlist q, h.nodup q⟩
    · rw [update_of_ne hq]
      exact h.nodup q
  · intro j hj hpend
    by_cases hji : j = i
    · subst hji
      exact ⟨p, hparent, (hmem p j).mpr (.inr ⟨rfl, rfl⟩)⟩
    · obtain ⟨q, hq, hjq⟩ := h.queued j (fun hjD => hj ⟨hjD, hji⟩) hpend
      exact ⟨q, hq, (hmem q j).mpr (.inl hjq)⟩
  · rintro j ⟨hjD, hji⟩ q hjq
    rcases (hmem q j).mp hjq with hjq | ⟨-, rfl⟩
    · exact h.unlisted j hjD q hjq
    · exact hji rfl

/-- A queue is shortened; the elements that leave it have to be finished with. -/
theorem Linked.shorten {l : List α}
    (hl : l.Sublist (queue p)) (hleft : ∀ j, j ∈ D ∨ j ∈ queue p ∧ j ∉ l → j ∈ D')
    (hout : ∀ j ∈ D', j ∈ D ∨ j ∉ l ∧ ∀ q, j ∈ queue q → q = p) :
    Linked code (update queue p l) parent pending D' := by
  have hmem : ∀ q j, j ∈ update queue p l q → j ∈ queue q ∧ (q = p → j ∈ l) := by
    intro q j hj
    by_cases hq : q = p
    · subst hq
      rw [update_self] at hj
      exact ⟨hl.subset hj, fun _ => hj⟩
    · rw [update_of_ne hq] at hj
      exact ⟨hj, fun hqp => absurd hqp hq⟩
  constructor
  · exact fun q j hj => h.child q j (hmem q j hj).1
  · intro q
    by_cases hq : q = p
    · rw [hq, update_self]
      exact (h.nodup p).sublist hl
    · rw [update_of_ne hq]
      exact h.nodup q
  · intro j hj hpend
    obtain ⟨q, hq, hjq⟩ := h.queued j (fun hjD => hj (hleft j (.inl hjD))) hpend
    refine ⟨q, hq, ?_⟩
    by_cases hqp : q = p
    · subst hqp
      rw [update_self]
      exact not_not.mp fun hjl => hj (hleft j (.inr ⟨hjq, hjl⟩))
    · rwa [update_of_ne hqp]
  · intro j hj q hjq
    obtain ⟨hq, hjl⟩ := hmem q j hjq
    rcases hout j hj with hj | ⟨hnot, honly⟩
    · exact h.unlisted j hj q hq
    · exact hnot (hjl (honly q hq))

end Linked

/-- Tickets: each is held by one element at most, and those taken are listed once. A holder
outside `D` waits, or its ticket has been taken. -/
structure Tickets (serial : α → Option ℕ) (next : ℕ) (taken : List ℕ) (pending : α → Bool)
    (D : Set α) : Prop where
  issued : ∀ i k, serial i = some k → k < next
  inj : ∀ i j k, serial i = some k → serial j = some k → i = j
  born : ∀ i, pending i = true → (serial i).isSome
  past : ∀ k ∈ taken, k < next
  once : taken.Nodup
  waiting : ∀ i k, serial i = some k → pending i = true → k ∉ taken
  reach : ∀ i, i ∉ D → ∀ k, serial i = some k → pending i = true ∨ k ∈ taken

section Tickets

variable {serial : α → Option ℕ} {next : ℕ} {taken : List ℕ} {pending : α → Bool}
  {D D' : Set α} {i : α}

/-- More elements are left to be finished with. -/
theorem Tickets.mono (h : Tickets serial next taken pending D) (hD : D ⊆ D') :
    Tickets serial next taken pending D' :=
  ⟨h.issued, h.inj, h.born, h.past, h.once, h.waiting,
    fun i hi => h.reach i fun hiD => hi (hD hiD)⟩

/-- An element that waits is finished with. -/
theorem Tickets.settle (h : Tickets serial next taken pending D) (hi : pending i = true) :
    Tickets serial next taken pending (D \ {i}) := by
  refine ⟨h.issued, h.inj, h.born, h.past, h.once, h.waiting, fun j hj k hk => ?_⟩
  by_cases hji : j = i
  · exact .inl (hji ▸ hi)
  · exact h.reach j (fun hjD => hj ⟨hjD, hji⟩) k hk

variable [DecidableEq α]

/-- An element gets the next ticket and starts to wait. -/
theorem Tickets.issue (h : Tickets serial next taken pending D) :
    Tickets (update serial i (some next)) (next + 1) taken
      (update pending i true) D := by
  have hother : ∀ j k, j ≠ i → update serial i (some next) j = some k →
      serial j = some k := fun j k hj hk => by rwa [update_of_ne hj] at hk
  have hnew : ∀ k, update serial i (some next) i = some k → k = next := by
    intro k hk
    rw [update_self] at hk
    exact (some.inj hk).symm
  constructor
  · intro j k hk
    by_cases hj : j = i
    · have := hnew k (hj ▸ hk)
      omega
    · have := h.issued j k (hother j k hj hk)
      omega
  · intro j j' k hk hk'
    by_cases hj : j = i
    · have hk₀ := hnew k (hj ▸ hk)
      by_cases hj' : j' = i
      · rw [hj, hj']
      · have := h.issued j' k (hother j' k hj' hk')
        omega
    · by_cases hj' : j' = i
      · have hk₀ := hnew k (hj' ▸ hk')
        have := h.issued j k (hother j k hj hk)
        omega
      · exact h.inj j j' k (hother j k hj hk) (hother j' k hj' hk')
  · intro j hpend
    by_cases hj : j = i
    · subst hj
      simp
    · rw [update_of_ne hj] at hpend ⊢
      exact h.born j hpend
  · intro k hk
    have := h.past k hk
    omega
  · exact h.once
  · intro j k hk hpend htaken
    by_cases hj : j = i
    · have := hnew k (hj ▸ hk)
      have := h.past k htaken
      omega
    · rw [update_of_ne hj] at hpend
      exact h.waiting j k (hother j k hj hk) hpend htaken
  · intro j hjD k hk
    by_cases hj : j = i
    · subst hj
      exact .inl (update_self ..)
    · rw [update_of_ne hj]
      exact h.reach j hjD k (hother j k hj hk)

theorem of_update_false {j : α} (h : update pending i false j = true) :
    j ≠ i ∧ pending j = true := by
  by_cases hji : j = i
  · subst hji
    simp at h
  · rw [update_of_ne hji] at h
    exact ⟨hji, h⟩

variable (h : Tickets serial next taken pending D)
include h

/-- An element stops waiting without its ticket being taken. -/
theorem Tickets.drop
    (hD : ∀ j, j ≠ i → j ∈ D → j ∈ D') (hi : i ∈ D') :
    Tickets serial next taken (update pending i false) D' := by
  constructor
  · exact h.issued
  · exact h.inj
  · exact fun j hj => h.born j (of_update_false hj).2
  · exact h.past
  · exact h.once
  · exact fun j k hk hj => h.waiting j k hk (of_update_false hj).2
  · intro j hj k hk
    have hji : j ≠ i := fun hji => hj (hji ▸ hi)
    rw [update_of_ne hji]
    exact h.reach j (fun hjD => hj (hD j hji hjD)) k hk

/-- An element gives its ticket back. -/
theorem Tickets.free (hD : ∀ j, j ≠ i → j ∈ D → j ∈ D') :
    Tickets (update serial i none) next taken (update pending i false) D' := by
  have hother : ∀ j k, update serial i none j = some k → j ≠ i ∧ serial j = some k := by
    intro j k hk
    by_cases hj : j = i
    · subst hj
      simp at hk
    · rw [update_of_ne hj] at hk
      exact ⟨hj, hk⟩
  constructor
  · exact fun j k hk => h.issued j k (hother j k hk).2
  · exact fun j j' k hk hk' => h.inj j j' k (hother j k hk).2 (hother j' k hk').2
  · intro j hj
    obtain ⟨hji, hj⟩ := of_update_false hj
    rw [update_of_ne hji]
    exact h.born j hj
  · exact h.past
  · exact h.once
  · exact fun j k hk hj => h.waiting j k (hother j k hk).2 (of_update_false hj).2
  · intro j hj k hk
    obtain ⟨hji, hk⟩ := hother j k hk
    rw [update_of_ne hji]
    exact h.reach j (fun hjD => hj (hD j hji hjD)) k hk

theorem Tickets.take (hi : pending i = true) :
    Tickets serial next (taken ++ (serial i).toList) (update pending i false) D := by
  obtain ⟨k, hk⟩ := isSome_iff_exists.mp (h.born i hi)
  rw [hk, toList_some]
  constructor
  · exact h.issued
  · exact h.inj
  · exact fun j hj => h.born j (of_update_false hj).2
  · intro k' hk'
    rcases mem_append.mp hk' with hk' | hk'
    · exact h.past k' hk'
    · rw [mem_singleton.mp hk']
      exact h.issued i k hk
  · refine nodup_append.mpr ⟨h.once, nodup_singleton k, ?_⟩
    intro a ha b hb hab
    rw [mem_singleton.mp hb] at hab
    exact h.waiting i k hk hi (hab ▸ ha)
  · intro j k' hk' hj htaken
    obtain ⟨hji, hj⟩ := of_update_false hj
    rcases mem_append.mp htaken with htaken | htaken
    · exact h.waiting j k' hk' hj htaken
    · rw [mem_singleton.mp htaken] at hk'
      exact hji (h.inj j i k hk' hk)
  · intro j hjD k' hk'
    by_cases hji : j = i
    · subst hji
      right
      rw [hk] at hk'
      simp [some.inj hk']
    · rw [update_of_ne hji]
      rcases h.reach j hjD k' hk' with hwait | htaken
      · exact .inl hwait
      · exact .inr (mem_append_left _ htaken)

end Tickets

end Sodex.QueueRecords
