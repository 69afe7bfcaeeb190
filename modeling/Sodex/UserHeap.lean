import Sodex.HeapOwnership

/-!
# The heap of a user process

`malloc.c` keeps the regions of a process as the kernel keeps those of its heap, with lists and
descriptors of the same kind. Memory comes from `sbrk`, whose replies are inputs here.
-/
namespace Sodex.KernelHeap

open LinkRing

section Extend

variable {m m' : Mem} {R R' : ℕ → Prop} [DecidablePred R] [DecidablePred R']
  {fs us hs fs' us' : List Hole} {n : Hole}

theorem HeapInv.region_congr (hm : HeapInv m R fs us hs) (h : ∀ a, R' a ↔ R a) :
    HeapInv m R' fs us hs :=
  { hm with
    range := fun a ha => hm.range a ((h a).mp ha)
    freePositive := fun hsome => hm.freePositive (hsome.imp fun a => (h a).mp)
    tiles := fun a => by simp only [hm.tiles a, h a] }

/-- A spare descriptor goes to one of the other lists, for addresses that had no region. -/
theorem HeapInv.extend (hm : HeapInv m R fs us (n :: hs)) (hsome : ∃ a, R a)
    (hfree : Ring m'.links .mfreeList fs') (hused : Ring m'.links .museList us')
    (hspare : Ring m'.links .mholeList hs) (hperm : (fs' ++ us').Perm (n :: (fs ++ us)))
    (hfs : ∀ p ∈ fs', p = n ∨ p ∈ fs) (hus : ∀ p ∈ us', p = n ∨ p ∈ us)
    (hother : ∀ p, p ≠ n → m'.hole p = m.hole p) (hpos : 0 < (m'.size n).toNat)
    (hnew : ∀ a, Covers m' a n → ¬R a ∧ 0 < a ∧ a < 2 ^ 32)
    (hR : ∀ a, R' a ↔ R a ∨ Covers m' a n) : HeapInv m' R' fs' us' hs := by
  have hnd := hm.nodup
  have hperm' : (fs' ++ us' ++ hs).Perm (fs ++ us ++ n :: hs) :=
    (hperm.append_right hs).trans List.perm_middle.symm
  refine ⟨fun a ha => ?_, hfree, hused, hspare, hperm'.nodup_iff.mpr hnd,
    fun p hp => hm.array p (hperm'.mem_iff.mp hp), ?_, fun p hp => ?_, fun _ p hp => ?_, fun a => ?_⟩
  · rcases (hR a).mp ha with ha | ha
    · exact hm.range a ha
    · exact (hnew a ha).2
  · have hhead : Hole.mfreeList ≠ n := (hm.ne_head (p := n) (by simp)).1.symm
    simp only [Mem.base, Mem.size, hother _ hhead]
    exact hm.freeHead
  · rcases hus p hp with rfl | hp
    · exact hpos
    · rw [Mem.size, hother p (by rintro rfl; grind)]
      exact hm.usedPositive p hp
  · rcases hfs p hp with rfl | hp
    · exact hpos
    · rw [Mem.size, hother p (by rintro rfl; grind)]
      exact hm.freePositive hsome p hp
  · have hsame : (fs ++ us).countP (Covers m' a) = (fs ++ us).countP (Covers m a) := by
      refine List.countP_congr fun p hp => ?_
      have := hother p (by rintro rfl; grind)
      simpa using covers_congr (congrArg MemHole.base this) (congrArg MemHole.size this)
    rw [hperm.countP_eq, List.countP_cons, hsame, hm.tiles a]
    simp only [decide_eq_true_eq, hR a]
    by_cases hcov : Covers m' a n
    · simp [hcov, (hnew a hcov).1]
    · simp [hcov]

variable {b sz : UInt32}

/-- A spare descriptor takes over a region, on the list in use. -/
def addUsed (m : Mem) (n : Hole) (b sz : UInt32) : Mem :=
  ((m.mholeRemove n).modify n fun h => { h with base := b, size := sz }).mholeInsertHead n .museList

/-- A spare descriptor takes over a region, at the end of the free list. -/
def addFree (m : Mem) (n : Hole) (b sz : UInt32) : Mem :=
  ((m.mholeRemove n).modify n fun h => { h with base := b, size := sz }).mholeInsertBefore n
    .mfreeList

theorem covers_addUsed {a : ℕ} :
    Covers (addUsed m n b sz) a n ↔ Between b.toNat (b.toNat + sz.toNat) a := by
  simp [Covers, Between, Mem.base, Mem.size, addUsed, Mem.mholeInsertHead]

theorem covers_addFree {a : ℕ} :
    Covers (addFree m n b sz) a n ↔ Between b.toNat (b.toNat + sz.toNat) a := by
  simp [Covers, Between, Mem.base, Mem.size, addFree, Mem.mholeInsertBefore]

theorem HeapInv.addUsed (hm : HeapInv m R fs us (n :: hs)) (hsome : ∃ a, R a)
    (hpos : 0 < sz.toNat) (hb : 0 < b.toNat) (hfit : b.toNat + sz.toNat ≤ 2 ^ 32)
    (hnew : ∀ a, Between b.toNat (b.toNat + sz.toNat) a → ¬R a)
    (hR : ∀ a, R' a ↔ R a ∨ Between b.toNat (b.toNat + sz.toNat) a) :
    HeapInv (addUsed m n b sz) R' fs (n :: us) hs := by
  have hspare : Ring m.links .mholeList ([] ++ n :: hs) := hm.spare
  have hmove := hspare.move hm.used hm.disjoint.2.2.symm
  refine hm.extend hsome ?_ hmove.2 hmove.1 List.perm_middle (fun p hp => .inr hp)
    (fun p hp => List.mem_cons.mp hp) (fun p hp => ?_) ?_ (fun a ha => ?_) (fun a => ?_)
  · exact hspare.move_frame hm.used hm.free hm.disjoint.2.2.symm
      hm.disjoint.2.1.symm hm.disjoint.1.symm
  · simp [KernelHeap.addUsed, hp]
  · simpa [KernelHeap.addUsed, Mem.size] using hpos
  · have hin := covers_addUsed.mp ha
    exact ⟨hnew a hin, hb.trans_le hin.1, hin.2.trans_le hfit⟩
  · rw [covers_addUsed]
    exact hR a

theorem HeapInv.addFree (hm : HeapInv m R fs us (n :: hs)) (hsome : ∃ a, R a)
    (hpos : 0 < sz.toNat) (hb : 0 < b.toNat) (hfit : b.toNat + sz.toNat ≤ 2 ^ 32)
    (hnew : ∀ a, Between b.toNat (b.toNat + sz.toNat) a → ¬R a)
    (hR : ∀ a, R' a ↔ R a ∨ Between b.toNat (b.toNat + sz.toNat) a) :
    HeapInv (addFree m n b sz) R' (fs ++ [n]) us hs := by
  have hnd := hm.nodup
  have hne := hm.ne_head (p := n) (by simp)
  have hfs := hm.disjoint.2.1.symm
  have hus := hm.disjoint.2.2.symm
  have hspare := hm.spare.unlink_first
  have hfree := hm.spare.unlink_frame (x := n) (by simp) hm.free hfs
  have hused := hm.spare.unlink_frame (x := n) (by simp) hm.used hus
  refine hm.extend hsome (hfree.insertBefore_head (by grind)) ?_ ?_ ?_ (fun p hp => ?_)
    (fun p hp => .inr hp) (fun p hp => ?_) ?_ (fun a ha => ?_) (fun a => ?_)
  · exact hfree.insertBefore_frame (by simp) hused (by grind) hm.disjoint.1
  · exact hfree.insertBefore_frame (by simp) hspare (by grind) fun u hu hv => hfs (by grind) hu
  · rw [List.append_assoc]
    exact List.perm_middle
  · simpa [or_comm] using hp
  · simp [KernelHeap.addFree, Mem.mholeInsertBefore, hp]
  · simpa [KernelHeap.addFree, Mem.size, Mem.mholeInsertBefore] using hpos
  · have hin := covers_addFree.mp ha
    exact ⟨hnew a hin, hb.trans_le hin.1, hin.2.trans_le hfit⟩
  · rw [covers_addFree]
    exact hR a

end Extend

end Sodex.KernelHeap

namespace Sodex.UserHeap

open KernelHeap Runs List

def MAX_MHOLES : ℕ := 512
def BLOCK_SIZE : UInt32 := 4096
def SBRK_RESERVE_SIZE : UInt32 := 1048576
def INITIAL_MEMSIZE : UInt32 := 1048576

/-- The heap of a process; `obtained` and `live` record what `sbrk` has given and what `malloc` has
given and not got back, as addresses with lengths. -/
structure Heap where
  mem : Mem
  started : Bool
  obtained : List (UInt32 × UInt32)
  live : List (UInt32 × UInt32)

/-- `init_mem` at the first `malloc`. It does not look at what `sbrk` replies. -/
def Heap.start (allocpoint : UInt32) (s : Heap) (reply : UInt32) : Heap :=
  if s.started then s
  else
    { s with
      mem := initHolePool s.mem MAX_MHOLES allocpoint INITIAL_MEMSIZE
      started := true
      obtained := if reply = 0 then [] else [(reply, INITIAL_MEMSIZE)] }

/-- The loop of `malloc` over the free list. -/
def firstFit (m : Mem) (size : UInt32) : Option (UInt32 × Mem) :=
  (m.freeList.find? fun i => size ≤ m.size i).map fun i =>
    if MIN_MEMSIZE < m.size i - size then
      let (new, m) := newMhole m
      let m := m.modify new fun h => { h with base := m.base i, size := size }
      let m := m.modify i fun h => { h with base := h.base + size, size := h.size - size }
      let m := m.mholeInsertHead new .museList
      (m.base new, m)
    else
      let m := m.mholeRemove i
      let m := m.mholeInsertHead i .museList
      (m.base i, m)

/-- `new_reserve_size`; the product and the sum in `CEIL` may wrap. -/
def reserveSize (size : UInt32) : UInt32 :=
  if size * 2 < SBRK_RESERVE_SIZE then SBRK_RESERVE_SIZE
  else (size * 2 &&& ~~~(BLOCK_SIZE - 1)) + BLOCK_SIZE

/-- The end of `malloc`, with a new region at `addr`. -/
def grow (m : Mem) (size addr : UInt32) : UInt32 × Mem :=
  let (used, m) := newMhole m
  let m := m.modify used fun h => { h with base := addr, size := size }
  let m := m.mholeInsertHead used .museList
  let m :=
    if size < reserveSize size then
      let (freeHole, m) := newMhole m
      let m := m.modify freeHole fun h =>
        { h with base := addr + size, size := reserveSize size - size }
      m.mholeInsertBefore freeHole .mfreeList
    else m
  (m.base used, m)

/-- `malloc`, with the replies of `sbrk` in `init_mem` and at the end. -/
def malloc (allocpoint : UInt32) (s : Heap) (size first more : UInt32) : UInt32 × Heap :=
  let s := s.start allocpoint first
  match firstFit s.mem size with
  | some (ptr, m) => (ptr, { s with mem := m, live := (ptr, size) :: s.live })
  | none =>
    if more = 0 then (0, s)
    else
      let (ptr, m) := grow s.mem size more
      (ptr, { s with mem := m, obtained := (more, reserveSize size) :: s.obtained,
                     live := (ptr, size) :: s.live })

/-- `free`, which is `kfree` without a result. -/
def free (s : Heap) (ptr : UInt32) : Heap :=
  if ptr = 0 then s
  else { s with mem := (kfree s.mem ptr).2, live := s.live.filter (·.1 ≠ ptr) }

inductive HeapCall where
  | malloc (size first more : UInt32)
  | free (ptr : UInt32)

def heapCall (allocpoint : UInt32) (s : Heap) : HeapCall → Option Heap
  | .malloc size first more => some (malloc allocpoint s size first more).2
  | .free ptr => some (free s ptr)

/-- The bytes of a block or region. -/
def Bytes (b : UInt32 × UInt32) : ℕ → Prop := Between b.1.toNat (b.1.toNat + b.2.toNat)

instance (b : UInt32 × UInt32) : DecidablePred (Bytes b) :=
  inferInstanceAs (DecidablePred (Between _ _))

/-- The memory that `sbrk` has given. -/
def Obtained (regions : List (UInt32 × UInt32)) (a : ℕ) : Prop := ∃ r ∈ regions, Bytes r a

instance (regions : List (UInt32 × UInt32)) : DecidablePred (Obtained regions) :=
  fun a => decidableBEx (fun r => Bytes r a) regions

theorem obtained_cons {r : UInt32 × UInt32} {regions : List (UInt32 × UInt32)} {a : ℕ} :
    Obtained (r :: regions) a ↔ Obtained regions a ∨ Bytes r a := by
  rw [Obtained, exists_mem_cons_iff, or_comm]
  rfl

/-- The blocks given out lie in memory from `sbrk` and apart from each other. -/
structure BlocksOk (s : Heap) : Prop where
  inside : ∀ b ∈ s.live, ∀ a, Bytes b a → Obtained s.obtained a
  disjoint : s.live.Pairwise fun b c => ∀ a, ¬(Bytes b a ∧ Bytes c a)

/-- After `free(ptr)`, a `malloc` of the size succeeds whatever `sbrk` would reply. -/
def Refills (allocpoint : UInt32) (s : Heap) (ptr size : UInt32) : Prop :=
  ∃ r s', r ≠ 0 ∧ s'.obtained = s.obtained ∧
    ∀ first more, malloc allocpoint (free s ptr) size first more = (r, s')

/-- A fresh region above all earlier ones. -/
def Fresh (regions : List (UInt32 × UInt32)) (addr size : UInt32) : Prop :=
  0 < addr ∧ addr.toNat + size.toNat ≤ 2 ^ 32 ∧
    ∀ r ∈ regions, r.1.toNat + r.2.toNat ≤ addr.toNat

instance (regions : List (UInt32 × UInt32)) (addr size : UInt32) :
    Decidable (Fresh regions addr size) :=
  have : Decidable (∀ r ∈ regions, r.1.toNat + r.2.toNat ≤ addr.toNat) :=
    decidableBAll (fun r => r.1.toNat + r.2.toNat ≤ addr.toNat) regions
  inferInstanceAs (Decidable (_ ∧ _ ∧ _))

/-- There are descriptors for the call: one if a hole is split, two for a new region. -/
def Described (m : Mem) (size : UInt32) : Prop :=
  ¬Exhausts m (fun _ => size) ∧
    (firstFit m size = none → 2 ≤ (m.members .mholeList).length)

instance (m : Mem) (size : UInt32) : Decidable (Described m size) :=
  inferInstanceAs (Decidable (_ ∧ _))

/-- What is assumed: sizes are positive, `sbrk` replies with fresh regions or `NULL`, the first one
where the process has its allocation point, and the descriptors do not run out. -/
def Assumed (allocpoint : UInt32) (s : Heap) : HeapCall → Prop
  | .malloc size first more => 0 < size ∧ (first = 0 ∨ first = allocpoint) ∧
      (more = 0 ∨ Fresh (s.start allocpoint first).obtained more (reserveSize size)) ∧
      Described (s.start allocpoint first).mem size
  | .free _ => True

/-- The first `sbrk` succeeds, what is asked of `sbrk` later has not wrapped, `free` does not come
first, and a block is freed below some hole. -/
def Sparing (allocpoint : UInt32) (s : Heap) : HeapCall → Prop
  | .malloc size first more => (s.started = true ∨ first ≠ 0) ∧
      (firstFit (s.start allocpoint first).mem size = none → more ≠ 0 → size < reserveSize size)
  | .free ptr => ptr ≠ 0 → s.started = true ∧
      ∀ d ∈ searchUsedMhole s.mem ptr, HasHoleAbove s.mem d

instance (allocpoint : UInt32) (s : Heap) : DecidablePred (Assumed allocpoint s)
  | .malloc _ _ _ => inferInstanceAs (Decidable (_ ∧ _))
  | .free _ => inferInstanceAs (Decidable True)

instance (allocpoint : UInt32) (s : Heap) : DecidablePred (Sparing allocpoint s)
  | .malloc _ _ _ => inferInstanceAs (Decidable (_ ∧ _))
  | .free _ => inferInstanceAs (Decidable (_ → _))

/-- A region in use for every block given out. -/
structure Kept (m : Mem) (us : List Hole) (live : List (UInt32 × UInt32)) : Prop where
  found : ∀ b ∈ live, ∃ u ∈ us, m.base u = b.1 ∧ b.2 ≤ m.size u
  nodup : (live.map Prod.fst).Nodup

section Calls

variable {m m' : Mem} {R : ℕ → Prop} [DecidablePred R] {fs us hs : List Hole} {u d : Hole}
  {size addr : UInt32} {live regions : List (UInt32 × UInt32)}

theorem Kept.grant (h : Kept m us live) (hm : HeapInv m' R fs (u :: us) hs)
    (hsame : ∀ v ∈ us, m'.hole v = m.hole v) (hsize : size ≤ m'.size u) :
    Kept m' (u :: us) ((m'.base u, size) :: live) := by
  have hfound : ∀ b ∈ live, ∃ v ∈ us, m'.base v = b.1 ∧ b.2 ≤ m'.size v := by
    intro b hb
    obtain ⟨v, hv, hbase, hfit⟩ := h.found b hb
    exact ⟨v, hv, by rw [Mem.base, hsame v hv]; exact hbase, by rw [Mem.size, hsame v hv]; exact hfit⟩
  refine ⟨forall_mem_cons.mpr ⟨⟨u, by simp, rfl, hsize⟩, fun b hb => ?_⟩, ?_⟩
  · obtain ⟨v, hv, hrest⟩ := hfound b hb
    exact ⟨v, mem_cons_of_mem _ hv, hrest⟩
  · refine nodup_cons.mpr ⟨fun hmem => ?_, h.nodup⟩
    obtain ⟨b, hb, hptr⟩ := mem_map.mp hmem
    obtain ⟨v, hv, hbase, -⟩ := hfound b hb
    -- Two regions in use with the same base would overlap.
    have hupos := hm.usedPositive u (by simp)
    have hvpos := hm.usedPositive v (by simp [hv])
    have hsame' : m'.base v = m'.base u := hbase.trans hptr
    have heq : u = v := hm.eq_of_covers (by simp) (by simp [hv])
      (a := (m'.base u).toNat) ⟨le_rfl, by omega⟩ (by rw [Covers, hsame']; omega)
    exact (nodup_cons.mp (nodup_cons.mp hm.used.nodup).2).1 (heq ▸ hv)

theorem Kept.release (h : Kept m us live) (huse : m.useList = us) (hrel : Released m m' R d) :
    Kept m' (us.erase d) (live.filter (·.1 ≠ m.base d)) := by
  refine ⟨fun b hb => ?_, h.nodup.sublist (filter_sublist.map _)⟩
  obtain ⟨hb, hne⟩ := mem_filter.mp hb
  obtain ⟨u, hu, hbase, hfit⟩ := h.found b hb
  have hud : u ≠ d := by
    rintro rfl
    simp [hbase] at hne
  have hmem : u ∈ us.erase d := (mem_erase_of_ne hud).mpr hu
  have hsame := hrel.frame u (huse ▸ hmem)
  exact ⟨u, hmem, by rw [Mem.base, hsame]; exact hbase, by rw [Mem.size, hsame]; exact hfit⟩

/-- A hole that is large enough is used. -/
theorem firstFit_cases (hm : HeapInv m R fs us hs) (hpos : 0 < size.toNat)
    (hex : ¬Exhausts m fun _ => size) :
    firstFit m size = none ∧ (∀ f ∈ fs, ¬size ≤ m.size f) ∨ ∃ u m' fs' hs',
      firstFit m size = some (m'.base u, m') ∧ HeapInv m' R fs' (u :: us) hs' ∧ size ≤ m'.size u ∧
        ∀ v ∈ us, m'.hole v = m.hole v := by
  rw [firstFit, hm.freeList_eq]
  cases hfind : fs.find? (fun i => size ≤ m.size i) with
  | none => exact .inl ⟨rfl, by simpa using hfind⟩
  | some i =>
    obtain ⟨hfit, as, bs, rfl, -⟩ := find?_eq_some_iff_append.mp hfind
    simp only [decide_eq_true_eq] at hfit
    rw [Option.map_some]
    right
    split_ifs with hsplit
    · obtain ⟨fs', hs', hinv, hne, hsame⟩ :=
        hm.carve_first hfind hpos hsplit hex (m.alignBase (m.links.next .mholeList))
      refine ⟨_, carve m i _ size _, fs', hs', rfl, hinv, ?_, hsame⟩
      rw [Mem.size, hole_carve_new hne]
      exact UInt32.le_refl _
    · rw [UInt32.le_iff_toNat_le] at hfit
      exact ⟨i, _, _, _, rfl, hm.handOver (by omega), UInt32.le_iff_toNat_le.mpr hfit,
        fun _ _ => rfl⟩

/-- A new region is one block in use and one hole. -/
theorem grow_cases (hm : HeapInv m (Obtained regions) fs us hs) (hsome : ∃ a, Obtained regions a)
    (hspare : 2 ≤ (m.members .mholeList).length) (hpos : 0 < size.toNat)
    (hfresh : Fresh regions addr (reserveSize size)) (hlt : size < reserveSize size) :
    ∃ u m' fs' hs', grow m size addr = (m'.base u, m') ∧
      HeapInv m' (Obtained ((addr, reserveSize size) :: regions)) fs' (u :: us) hs' ∧
      size ≤ m'.size u ∧ ∀ v ∈ us, m'.hole v = m.hole v := by
  obtain ⟨haddr, hfit, habove⟩ := hfresh
  have haddr' : 0 < addr.toNat := UInt32.lt_iff_toNat_lt.mp haddr
  have hlt' : size.toNat < (reserveSize size).toNat := UInt32.lt_iff_toNat_lt.mp hlt
  have hrest : (reserveSize size - size).toNat = (reserveSize size).toNat - size.toNat :=
    UInt32.toNat_sub_of_le _ _ (UInt32.le_of_lt hlt)
  have hend : (addr + size).toNat = addr.toNat + size.toNat := by
    rw [UInt32.toNat_add, Nat.mod_eq_of_lt (by omega)]
  have hold : ∀ a, Obtained regions a → a < addr.toNat := by
    rintro a ⟨r, hr, -, ha⟩
    exact ha.trans_le (habove r hr)
  have hlength := hm.length_le
  simp only [length_append] at hlength
  rw [Mem.members, hm.spare.members_eq (by omega)] at hspare
  obtain ⟨n₁, n₂, hs, rfl⟩ : ∃ n₁ n₂ hs', hs = n₁ :: n₂ :: hs' := by
    match hs, hspare with
    | n₁ :: n₂ :: hs, _ => exact ⟨n₁, n₂, hs, rfl⟩
  let Used (a : ℕ) : Prop := Obtained regions a ∨ Between addr.toNat (addr.toNat + size.toNat) a
  have : DecidablePred Used := fun a => inferInstanceAs (Decidable (_ ∨ _))
  have hm₁ : HeapInv (addUsed m n₁ addr size) Used fs (n₁ :: us) (n₂ :: hs) :=
    hm.addUsed hsome hpos haddr' (by omega)
      (fun a ha ho => absurd (hold a ho) (Nat.not_lt.mpr ha.1)) fun _ => Iff.rfl
  have hm₂ : HeapInv (addFree (addUsed m n₁ addr size) n₂ (addr + size) (reserveSize size - size))
      (Obtained ((addr, reserveSize size) :: regions)) (fs ++ [n₂]) (n₁ :: us) hs := by
    refine hm₁.addFree (hsome.imp fun _ => .inl) (by omega) (by omega) (by omega) ?_ fun a => ?_
    · rintro a ha (ho | ho)
      · have := hold a ho
        have := ha.1
        omega
      · exact absurd ho.2 (by have := ha.1; omega)
    · have hsplit : Bytes (addr, reserveSize size) a ↔
          Between addr.toNat (addr.toNat + size.toNat) a ∨ Between (addr + size).toNat
            ((addr + size).toNat + (reserveSize size - size).toNat) a := by
        simp only [Bytes, Between, hend, hrest]
        omega
      rw [obtained_cons, hsplit]
      exact or_assoc.symm
  have hnd := hm.nodup
  have hne : n₁ ≠ n₂ := by rintro rfl; grind
  refine ⟨n₁, _, _, _, ?_, hm₂, ?_, fun v hv => ?_⟩
  · have hfirst : newMhole m = (n₁, m.mholeRemove n₁) := by
      rw [newMhole, hm.spare.next_head]
      rfl
    have hsecond : newMhole (addUsed m n₁ addr size) =
        (n₂, (addUsed m n₁ addr size).mholeRemove n₂) := by
      rw [newMhole, hm₁.spare.next_head]
      rfl
    rw [addUsed] at hsecond
    simp only [grow, hfirst, if_pos hlt, hsecond]
    rfl
  · simp [addFree, addUsed, Mem.size, Mem.mholeInsertBefore, hne]
  · have hv₁ : v ≠ n₁ := by rintro rfl; grind
    have hv₂ : v ≠ n₂ := by rintro rfl; grind
    simp [addFree, addUsed, Mem.mholeInsertBefore, hv₁, hv₂]

end Calls

/-- Before the first call there is nothing; then the regions cover the memory from `sbrk`. -/
def HeapOk (s : Heap) : Prop :=
  s.started = false ∧ s.live = [] ∧ s.obtained = [] ∨
    s.started = true ∧ (∃ a, Obtained s.obtained a) ∧ ∃ fs us hs,
      HeapInv s.mem (Obtained s.obtained) fs us hs ∧ Kept s.mem us s.live

section Runs

variable {s : Heap} {allocpoint size first more ptr : UInt32}

theorem HeapOk.start (h : HeapOk s) (hpoint : 0 < allocpoint)
    (hfit : allocpoint.toNat + INITIAL_MEMSIZE.toNat ≤ 2 ^ 32)
    (hreply : first = 0 ∨ first = allocpoint) (hfirst : s.started = true ∨ first ≠ 0) :
    (s.start allocpoint first).started = true ∧ HeapOk (s.start allocpoint first) := by
  rcases h with ⟨hstarted, hlive, -⟩ | h
  · have hgiven := hreply.resolve_left (hfirst.resolve_left (by simp [hstarted]))
    have hzero : allocpoint ≠ 0 := (UInt32.ne_of_lt hpoint).symm
    have hregion : ∀ a, Obtained [(allocpoint, INITIAL_MEMSIZE)] a ↔
        Between allocpoint.toNat (allocpoint.toNat + INITIAL_MEMSIZE.toNat) a := by
      simp [Obtained, Bytes]
    simp only [Heap.start, hstarted, hgiven, hzero, Bool.false_eq_true, if_false]
    have hinit := heapInv_initHolePool s.mem (by decide : MAX_MHOLES - 1 < _) hpoint hfit
    refine ⟨trivial, .inr ⟨rfl, ⟨allocpoint.toNat, (hregion _).mpr ⟨le_rfl, ?_⟩⟩, _, _, _,
      hinit.region_congr hregion, ?_⟩⟩
    · exact Nat.lt_add_of_pos_right (by decide)
    · rw [hlive]
      exact ⟨nofun, nodup_nil⟩
  · rw [Heap.start, if_pos h.1]
    exact ⟨h.1, .inr h⟩

theorem HeapOk.malloc (h : HeapOk s) (hpoint : 0 < allocpoint)
    (hfit : allocpoint.toNat + INITIAL_MEMSIZE.toNat ≤ 2 ^ 32)
    (ha : Assumed allocpoint s (.malloc size first more))
    (hs : Sparing allocpoint s (.malloc size first more)) :
    HeapOk (malloc allocpoint s size first more).2 := by
  obtain ⟨hsize, hreply, hmore, hex, htwo⟩ := ha
  have hpos : 0 < size.toNat := UInt32.lt_iff_toNat_lt.mp hsize
  obtain ⟨hstarted, hok⟩ := h.start hpoint hfit hreply hs.1
  have hgrow := hs.2
  rw [UserHeap.malloc]
  generalize s.start allocpoint first = s at hmore hex htwo hstarted hok hgrow
  obtain ⟨hno, -⟩ | ⟨-, hsome, fs, us, hs', hm, hkept⟩ := hok
  · simp [hstarted] at hno
  obtain ⟨hfull, -⟩ | ⟨u, m', fs', hs'', hcall, hm', hroom, hsame⟩ := firstFit_cases hm hpos hex
  · dsimp only
    rw [hfull]
    split_ifs with hzero
    · exact .inr ⟨hstarted, hsome, fs, us, hs', hm, hkept⟩
    · obtain ⟨u, m', fs', hs'', hcall, hm', hroom, hsame⟩ := grow_cases hm hsome (htwo hfull) hpos
        (hmore.resolve_left hzero) (hgrow hfull hzero)
      simp only [hcall]
      exact .inr ⟨hstarted, hsome.imp fun a => obtained_cons.mpr ∘ .inl, fs', _, hs'', hm',
        hkept.grant hm' hsame hroom⟩
  · dsimp only
    rw [hcall]
    exact .inr ⟨hstarted, hsome, fs', _, hs'', hm', hkept.grant hm' hsame hroom⟩

theorem HeapOk.free (h : HeapOk s) (hs : Sparing allocpoint s (.free ptr)) : HeapOk (free s ptr) := by
  rw [UserHeap.free]
  split_ifs with hzero
  · exact h
  obtain ⟨hstarted, habove⟩ := hs hzero
  obtain ⟨hno, -⟩ | ⟨-, hsome, fs, us, hs', hm, hkept⟩ := h
  · simp [hstarted] at hno
  refine .inr ⟨hstarted, hsome, ?_⟩
  rw [kfree]
  cases hfind : searchUsedMhole s.mem ptr with
  | none =>
    exact ⟨fs, us, hs', hm, fun b hb => hkept.found b (mem_of_mem_filter hb),
      hkept.nodup.sublist (filter_sublist.map _)⟩
  | some d =>
    have hd : d ∈ us := hm.useList_eq ▸ mem_of_find?_eq_some hfind
    obtain rfl : s.mem.base d = ptr := by simpa using find?_some hfind
    have hrel := (hm.freeFound hd (habove d hfind)).2
    obtain ⟨fs', hs'', hm'⟩ := hrel.inv
    rw [hm.useList_eq] at hm'
    exact ⟨fs', _, hs'', hm', hkept.release hm.useList_eq hrel⟩

theorem HeapOk.blocksOk (h : HeapOk s) : BlocksOk s := by
  obtain ⟨-, hlive, -⟩ | ⟨-, -, fs, us, hs', hm, hkept⟩ := h
  · constructor <;> simp [hlive]
  have hcovers : ∀ b ∈ s.live, ∃ u ∈ us, s.mem.base u = b.1 ∧ ∀ a, Bytes b a → Covers s.mem a u := by
    intro b hb
    obtain ⟨u, hu, hbase, hfit⟩ := hkept.found b hb
    rw [UInt32.le_iff_toNat_le] at hfit
    refine ⟨u, hu, hbase, fun a ha => ?_⟩
    rw [Covers, hbase]
    exact ⟨ha.1, ha.2.trans_le (by omega)⟩
  refine ⟨fun b hb a ha => ?_, ?_⟩
  · obtain ⟨u, hu, -, hcov⟩ := hcovers b hb
    exact hm.bounds (mem_append_right _ hu) (hcov a ha)
  · refine (pairwise_map.mp hkept.nodup).imp_of_mem fun {b c} hb hc hne a hboth => ?_
    obtain ⟨u, hu, hbu, hcovu⟩ := hcovers b hb
    obtain ⟨v, hv, hcv, hcovv⟩ := hcovers c hc
    have heq := hm.eq_of_covers (mem_append_right _ hu) (mem_append_right _ hv)
      (hcovu a hboth.1) (hcovv a hboth.2)
    exact hne (hbu.symm.trans (heq ▸ hcv))

/-- The room of a block that is freed is in one hole. -/
theorem HeapOk.refills (h : HeapOk s) (hlive : (ptr, size) ∈ s.live) (hsize : 0 < size)
    (hs : Sparing allocpoint s (.free ptr)) (hex : ¬Exhausts (UserHeap.free s ptr).mem fun _ => size) :
    Refills allocpoint s ptr size := by
  obtain ⟨-, hno, -⟩ | ⟨hstarted, -, fs, us, hs', hm, hkept⟩ := h
  · simp [hno] at hlive
  obtain ⟨u, hu, rfl, hfit⟩ := hkept.found _ hlive
  have hne : s.mem.base u ≠ 0 := by
    intro hzero
    have := hm.base_pos (mem_append_right _ hu) (hm.usedPositive u hu)
    simp [hzero] at this
  have hfind := hm.searchUsedMhole_eq hu
  obtain ⟨fs', hs'', hm'⟩ := (hm.freeFound hu ((hs hne).2 u hfind)).2.inv
  obtain ⟨f, hf, hroom⟩ := (hm.freeFound hu ((hs hne).2 u hfind)).2.room
  rw [hm'.freeList_eq] at hf
  have hfree : UserHeap.free s (s.mem.base u) = { s with
      mem := (freeFound s.mem (some u)).2, live := s.live.filter (·.1 ≠ s.mem.base u) } := by
    rw [UserHeap.free, if_neg hne, kfree, hfind]
  rw [hfree] at hex
  obtain ⟨-, hnone⟩ | ⟨v, m', _, _, hcall, hm'', -, -⟩ :=
    firstFit_cases hm' (UInt32.lt_iff_toNat_lt.mp hsize) hex
  · exact absurd (UInt32.le_trans hfit hroom) (hnone f hf)
  · refine ⟨m'.base v, { s with
        mem := m', live := (m'.base v, size) :: s.live.filter (·.1 ≠ s.mem.base u) },
      fun hzero => ?_, rfl, fun first more => ?_⟩
    · have := hm''.base_pos (p := v) (by simp) (hm''.usedPositive v (by simp))
      simp [hzero] at this
    · rw [UserHeap.malloc, hfree, Heap.start, if_pos hstarted]
      dsimp only
      rw [hcall]

end Runs

/-- A process before its first call. -/
def idle (m₀ : Mem) : Heap := ⟨m₀, false, [], []⟩

/-- In every run whose calls meet the conditions, blocks lie in memory from `sbrk` and apart from each
other, and the room of a block that is freed below some hole can be had again. -/
theorem user_heap_sound (m₀ : Mem) (allocpoint : UInt32) (hpoint : 0 < allocpoint)
    (hfit : allocpoint.toNat + INITIAL_MEMSIZE.toNat ≤ 2 ^ 32) (calls : List HeapCall)
    (hcalls : Along (heapCall allocpoint) (fun s c => Assumed allocpoint s c ∧ Sparing allocpoint s c)
      (idle m₀) calls) :
    ∃ s, run (heapCall allocpoint) (idle m₀) calls = some s ∧ BlocksOk s ∧
      ∀ ptr size, (ptr, size) ∈ s.live → 0 < size → Sparing allocpoint s (.free ptr) →
        ¬Exhausts (free s ptr).mem (fun _ => size) → Refills allocpoint s ptr size := by
  have hstep : ∀ s c, HeapOk s → Assumed allocpoint s c ∧ Sparing allocpoint s c →
      ∃ s', heapCall allocpoint s c = some s' ∧ HeapOk s' := by
    rintro s c hok ⟨ha, hs⟩
    cases c with
    | malloc size first more => exact ⟨_, rfl, hok.malloc hpoint hfit ha hs⟩
    | free ptr => exact ⟨_, rfl, hok.free hs⟩
  obtain ⟨s, hrun, hok⟩ := run_invariant hstep calls _ (.inl ⟨rfl, rfl, rfl⟩) hcalls
  exact ⟨s, hrun, hok.blocksOk, fun _ _ hlive hsize hs hex => hok.refills hlive hsize hs hex⟩

/-- Two small blocks, a large one in a region of its own, and the first block given back. -/
theorem user_heap_sound_grown :
    ∃ s, run (heapCall 0x8050000) (idle blankMem) [.malloc 100 0x8050000 0, .malloc 2000 0 0,
        .malloc 2000000 0 0x8150000, .free 0x8050000] = some s ∧ BlocksOk s := by
  obtain ⟨s, hrun, hok, -⟩ := user_heap_sound blankMem 0x8050000 (by decide) (by decide)
    [.malloc 100 0x8050000 0, .malloc 2000 0 0, .malloc 2000000 0 0x8150000, .free 0x8050000]
    (by decide +kernel)
  exact ⟨s, hrun, hok⟩

/-- A request for more than half the address space is met with a megabyte; and a block above every
hole is lost when it is freed. -/
theorem malloc_wraps_and_free_loses :
    (∃ s, Along (heapCall 0x8050000) (Assumed 0x8050000) (idle blankMem)
        [.malloc 0x80000001 0x8050000 0x8150000] ∧
      run (heapCall 0x8050000) (idle blankMem) [.malloc 0x80000001 0x8050000 0x8150000] = some s ∧
      ¬BlocksOk s) ∧
    ∃ s, Along (heapCall 0x8050000) (Assumed 0x8050000) (idle blankMem)
        [.malloc 1048576 0x8050000 0, .free 0x8050000, .malloc 1048576 0 0] ∧
      run (heapCall 0x8050000) (idle blankMem) [.malloc 1048576 0x8050000 0] = some s ∧
      (0x8050000, 1048576) ∈ s.live ∧ ¬Refills 0x8050000 s 0x8050000 1048576 := by
  refine ⟨⟨_, by decide +kernel, rfl, fun h => ?_⟩, _, by decide +kernel, rfl, by decide +kernel, ?_⟩
  · have := h.inside (0x8150000, 0x80000001) (by decide +kernel) 0x8250000 (by decide)
    revert this
    decide +kernel
  · rintro ⟨r, s', hr, -, hcall⟩
    have hnull := congrArg Prod.fst (hcall 0 0)
    exact hr (hnull.symm.trans (by decide +kernel))

end Sodex.UserHeap
