import Sodex.Ext3Fs

/-!
# The kernel heap under the calls of `ext3fs.c`

Buffers are numbered in the order of the requests, and a function frees only buffers that
it requested itself. So the buffers requested before a call are live after it exactly when
they were before.
-/
namespace Sodex.Ext3

open ByteMem LinkRing Dlist

/-- From `m` to `m'` only buffers requested after `m` were freed. -/
structure Keeps (m m' : Store) : Prop where
  clock : m.clock ≤ m'.clock
  kallocOk : m'.kallocOk = m.kallocOk
  older : ∀ p < m.clock, p ∈ m'.live ↔ p ∈ m.live

section Keeps

variable {m m' m'' : Store} {ino iblock : UInt32} {p : ℕ}

theorem Keeps.refl (m : Store) : Keeps m m := ⟨le_refl _, rfl, fun _ _ => Iff.rfl⟩

theorem Keeps.trans (h : Keeps m m') (h' : Keeps m' m'') : Keeps m m'' where
  clock := h.clock.trans h'.clock
  kallocOk := h'.kallocOk.trans h.kallocOk
  older p hp := (h'.older p (by have := h.clock; omega)).trans (h.older p hp)

/-- A step that leaves the heap alone. -/
theorem Keeps.of_eq (hclock : m'.clock = m.clock) (hok : m'.kallocOk = m.kallocOk)
    (hlive : m'.live = m.live) : Keeps m m' :=
  ⟨hclock.ge, hok, fun _ _ => by rw [hlive]⟩

theorem keeps_kalloc (m : Store) : Keeps m (kalloc m).2 := by
  unfold kalloc
  split_ifs
  · refine ⟨Nat.le_succ _, rfl, fun p hp => ?_⟩
    simp only [List.mem_cons]
    constructor
    · intro h
      exact h.resolve_left (by omega)
    · exact .inr
  · exact ⟨Nat.le_succ _, rfl, fun _ _ => Iff.rfl⟩

/-- Freeing a buffer that was requested after `m`. -/
theorem Keeps.kfree (h : Keeps m m') (hp : m.clock ≤ p) : Keeps m (kfree m' p) where
  clock := h.clock
  kallocOk := h.kallocOk
  older q hq := by
    have hne : q ≠ p := by omega
    rw [← h.older q hq]
    exact List.mem_erase_of_ne hne

theorem kalloc_clock (m : Store) : (kalloc m).2.clock = m.clock + 1 := by
  unfold kalloc
  split_ifs <;> rfl

theorem kalloc_isSome (m : Store) : (kalloc m).1.isSome = m.kallocOk m.clock := by
  unfold kalloc
  split_ifs with h <;> simp [h]

theorem kalloc_some (h : (kalloc m).1 = some p) : p = m.clock ∧ m.kallocOk m.clock = true := by
  refine ⟨?_, by rw [← kalloc_isSome, h]; rfl⟩
  unfold kalloc at h
  split_ifs at h
  exact (Option.some.inj h).symm

theorem allocIno_kalloc (m : Store) : (allocIno (kalloc m).2).1 = (allocIno m).1 := by
  obtain ⟨hfirst, hbitmap⟩ : firstIno (kalloc m).2 = firstIno m ∧
      (kalloc m).2.inodeBitmap = m.inodeBitmap := by
    unfold kalloc
    split_ifs <;> exact ⟨rfl, rfl⟩
  unfold allocIno
  simp only [hfirst, hbitmap]
  split <;> rfl

theorem keeps_allocIno (m : Store) : Keeps m (allocIno m).2 := by
  unfold allocIno
  dsimp only
  split
  · exact Keeps.refl m
  · exact Keeps.of_eq rfl rfl rfl

theorem allocIno_clock (m : Store) : (allocIno m).2.clock = m.clock := by
  unfold allocIno
  dsimp only
  split <;> rfl

theorem keeps_freeBlock (m : Store) (block : UInt32) : Keeps m (freeBlock m block) := by
  unfold freeBlock
  split_ifs
  · exact Keeps.refl m
  · exact Keeps.refl m
  · exact Keeps.of_eq rfl rfl rfl

theorem keeps_markInodeDirty (m : Store) (ino : UInt32) : Keeps m (markInodeDirty m ino) := by
  have h := keeps_kalloc m
  unfold markInodeDirty
  rcases hk : kalloc m with ⟨_ | p, m'⟩ <;> rw [hk] at h
  · exact h
  · exact h.trans (Keeps.of_eq rfl rfl rfl)

theorem keeps_markBlockDirty (m : Store) (iblock : UInt32) (b : Pblock) :
    Keeps m (markBlockDirty m iblock b) := by
  have h := keeps_kalloc m
  unfold markBlockDirty
  rcases hk : kalloc m with ⟨_ | p, m'⟩ <;> rw [hk] at h
  · exact h
  · exact h.trans (Keeps.of_eq rfl rfl rfl)

theorem markInodeDirty_clock (m : Store) (ino : UInt32) :
    (markInodeDirty m ino).clock = m.clock + 1 := by
  rw [← kalloc_clock m]
  unfold markInodeDirty
  rcases kalloc m with ⟨_ | p, m'⟩ <;> rfl

theorem markBlockDirty_clock (m : Store) (iblock : UInt32) (b : Pblock) :
    (markBlockDirty m iblock b).clock = m.clock + 1 := by
  rw [← kalloc_clock m]
  unfold markBlockDirty
  rcases kalloc m with ⟨_ | p, m'⟩ <;> rfl

/-- A table that was read lies in a buffer requested for it. -/
theorem keeps_loadBlockTable (m : Store) (iblock : UInt32) : Keeps m (loadBlockTable m iblock).2 ∧
      ∀ p table, (loadBlockTable m iblock).1 = some (p, table) → m.clock ≤ p := by
  unfold loadBlockTable
  split_ifs
  · exact ⟨Keeps.refl m, nofun⟩
  · have h := keeps_kalloc m
    rcases hk : kalloc m with ⟨_ | q, m'⟩
    · rw [hk] at h
      exact ⟨h, nofun⟩
    · rw [hk] at h
      have hq : q = m.clock := (kalloc_some (by rw [hk])).1
      refine ⟨h, fun p table hp => ?_⟩
      obtain rfl : q = p := congrArg Prod.fst (Option.some.inj hp)
      exact hq.ge

theorem keeps_foldl {α : Type*} (f : Store → α → Store) (hf : ∀ m a, Keeps m (f m a)) :
    ∀ (l : List α) (m : Store), Keeps m (l.foldl f m) := by
  intro l
  induction l with
  | nil => exact Keeps.refl
  | cons a l ih =>
    intro m
    exact (hf m a).trans (ih _)

theorem keeps_freeEntries (m : Store) (table : Bytes) : Keeps m (freeEntries m table) := by
  apply keeps_foldl
  intro m e
  split_ifs
  · exact keeps_freeBlock _ _
  · exact Keeps.refl m

theorem keeps_freeLeaves (table : Bytes) (is : List ℕ) :
    ∀ m : Store, Keeps m (freeLeaves table is m).2 := by
  induction is with
  | nil => exact Keeps.refl
  | cons i is ih =>
    intro m
    rw [freeLeaves]
    split_ifs
    · exact ih m
    · obtain ⟨hload, hbuf⟩ := keeps_loadBlockTable m (entryAt table i)
      rcases hl : loadBlockTable m (entryAt table i) with ⟨_ | ⟨p, leaf⟩, m'⟩
      · rw [hl] at hload
        exact hload
      · rw [hl] at hload hbuf
        have hfree := (hload.trans (keeps_freeEntries m' leaf)).kfree (hbuf p leaf rfl)
        exact (hfree.trans (keeps_freeBlock _ _)).trans (ih _)

theorem keeps_setIBlock (m : Store) (ino : UInt32) (k : ℕ) (v : UInt32) :
    Keeps m (setIBlock m ino k v) := Keeps.of_eq rfl rfl rfl

theorem keeps_releaseDirect (m : Store) (ino : UInt32) : Keeps m (releaseDirect m ino) := by
  apply keeps_foldl
  intro m i
  split_ifs
  · exact (keeps_freeBlock m _).trans (keeps_setIBlock _ _ _ _)
  · exact Keeps.refl m

theorem keeps_releaseIndirect (m : Store) (ino : UInt32) : Keeps m (releaseIndirect m ino).2 := by
  unfold releaseIndirect
  split_ifs
  · exact Keeps.refl m
  · have h := keeps_kalloc m
    rcases hk : kalloc m with ⟨_ | p, m'⟩
    · rw [hk] at h
      exact h
    · rw [hk] at h
      have hp : p = m.clock := (kalloc_some (by rw [hk])).1
      have hentries := keeps_freeEntries m' (readBlock m' (iBlock m' ino EXT3_IND_BLOCK))
      have hfree := (h.trans hentries).kfree hp.ge
      exact (hfree.trans (keeps_freeBlock _ _)).trans (keeps_setIBlock _ _ _ _)

theorem keeps_releaseDouble (m : Store) (ino : UInt32) : Keeps m (releaseDouble m ino).2 := by
  unfold releaseDouble
  split_ifs
  · exact Keeps.refl m
  · obtain ⟨hload, hbuf⟩ := keeps_loadBlockTable m (iBlock m ino EXT3_DIND_BLOCK)
    rcases hl : loadBlockTable m (iBlock m ino EXT3_DIND_BLOCK) with ⟨_ | ⟨p, table⟩, m'⟩
    · rw [hl] at hload
      exact hload
    · rw [hl] at hload hbuf
      dsimp only
      generalize List.range 1024 = is
      have hleaves := hload.trans (keeps_freeLeaves table is m')
      rcases hf : freeLeaves table is m' with ⟨_ | _, m''⟩
      · rw [hf] at hleaves
        exact hleaves.kfree (hbuf p table rfl)
      · rw [hf] at hleaves
        have hfree := hleaves.kfree (hbuf p table rfl)
        exact (hfree.trans (keeps_freeBlock _ _)).trans (keeps_setIBlock _ _ _ _)

theorem keeps_releaseInodeBlocks (m : Store) (ino : UInt32) :
    Keeps m (releaseInodeBlocks m ino) := by
  unfold releaseInodeBlocks
  split_ifs
  · exact Keeps.refl m
  · have h₁ := (keeps_releaseDirect m ino).trans (keeps_releaseIndirect _ ino)
    rcases hi : releaseIndirect (releaseDirect m ino) ino with ⟨_ | _, m'⟩
    · rw [hi] at h₁
      exact h₁
    · rw [hi] at h₁
      have h₂ := h₁.trans (keeps_releaseDouble m' ino)
      dsimp only
      rcases hd : releaseDouble m' ino with ⟨_ | _, m''⟩
      · rw [hd] at h₂
        exact h₂
      · rw [hd] at h₂
        have h₃ : Keeps m (setIBlocks (setISize m'' ino 0) ino 0) :=
          h₂.trans (Keeps.of_eq rfl rfl rfl)
        exact h₃.trans (keeps_markInodeDirty _ ino)

end Keeps

end Sodex.Ext3
