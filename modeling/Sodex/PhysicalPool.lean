import Sodex.HeapCalls

/-!
# The pool of physical pages

`palloc` and `pfree` work on descriptors and lists of their own, kept as those of the kernel heap.
Only the descriptors of merged holes go to the spare list of the kernel heap, where that of number
`j` stands behind the kernel's own.
-/
namespace Sodex.KernelHeap

open LinkRing Runs List

def MAX_PMHOLES : ℕ := 1024
def BLOCK_SIZE : UInt32 := 4096

structure Pools where
  kernel : Mem
  pool : Mem

/-- A descriptor or list head of the pool, where the kernel heap has it on a list. -/
def Hole.toKernel : Hole → Hole
  | .memhole j => .memhole (MAX_MHOLES + j)
  | .mholeList => .memhole (MAX_MHOLES + MAX_PMHOLES)
  | .mfreeList => .memhole (MAX_MHOLES + MAX_PMHOLES + 1)
  | .museList => .memhole (MAX_MHOLES + MAX_PMHOLES + 2)

def initPmem (m : Mem) (base size : UInt32) : Mem := initHolePool m MAX_PMHOLES base size

/-- The `block_size` of `palloc`. -/
def blockSize (size : UInt32) : UInt32 :=
  if size &&& ~~~(BLOCK_SIZE - 1) = 0 then (size &&& ~~~(BLOCK_SIZE - 1)) + BLOCK_SIZE
  else size &&& ~~~(BLOCK_SIZE - 1)

def palloc (m : Mem) (size : UInt32) : UInt32 × Mem :=
  match m.freeList.find? (fun i => blockSize size ≤ m.size i) with
  | none => (0, m)
  | some i =>
    if blockSize size < m.size i then
      let (new, m) := newMhole m
      let m := m.modify new fun h => { h with base := m.base i, size := blockSize size }
      let m := m.modify i fun h =>
        { h with base := h.base + blockSize size, size := h.size - blockSize size }
      let m := m.mholeInsertHead new .museList
      (m.base new, m)
    else
      let m := m.mholeRemove i
      let m := m.mholeInsertHead i .museList
      (m.base i, m)

/-- Second loop of `merge_hole`, on holes of the pool. -/
def poolReclaim (s : Pools) (stop : Hole) : ℕ → Hole → Pools
  | 0, _ => s
  | fuel + 1, i =>
    if i = stop then s
    else
      let spare : MemHole := ⟨0, s.pool.alignBase i, 0⟩
      poolReclaim
        { kernel := (s.kernel.modify i.toKernel fun _ => spare).mholeInsertHead i.toKernel .mholeList
          pool := s.pool.mholeRemove i }
        stop fuel (s.pool.links.next i)

/-- `merge_hole` on holes of the pool. -/
def poolMergeHole (s : Pools) (memfrom memto : Hole) : Pools :=
  let stop := s.pool.links.next memto
  let first := s.pool.links.next memfrom
  let pool := mergeSizes s.pool memfrom stop (MAX_MHOLES + 1) first
  poolReclaim { s with pool := pool } stop (MAX_MHOLES + 1) first

/-- The merge decision at the end of `pfree`. -/
def poolMergeNeighbours (s : Pools) (mem : Hole) : Pools :=
  let m := s.pool
  let prev := m.links.prev mem
  let next := m.links.next mem
  if m.base prev + m.size prev = m.base mem ∧ m.base mem + m.size mem = m.base next then
    poolMergeHole s prev next
  else if m.base prev + m.size prev = m.base mem then poolMergeHole s prev mem
  else if m.base mem + m.size mem = m.base next then poolMergeHole s mem next
  else s

def pfree (s : Pools) (ptr : UInt32) : FreeStatus × Pools :=
  match searchUsedMhole s.pool ptr with
  | none => (.notMhole, s)
  | some mem =>
    let m := s.pool.mholeRemove mem
    match m.freeList.find? (fun i => m.base mem < m.base i) with
    | some i =>
      if m.base i < m.base mem + m.size mem then (.illegal, { s with pool := m })
      else (.ok, poolMergeNeighbours { s with pool := m.mholeInsertBefore mem i } mem)
    | none => (.ok, poolMergeNeighbours { s with pool := m } mem)

inductive PoolOp where
  | palloc (size : UInt32)
  | pfree (ptr : UInt32)

def poolStep (s : Pools) : PoolOp → Option Pools
  | .palloc size => some { s with pool := (palloc s.pool size).2 }
  | .pfree ptr => some (pfree s ptr).2

/-- The descriptors on the three lists. -/
def Mem.descriptors (m : Mem) : ℕ :=
  (m.members .mholeList).length + m.freeList.length + m.useList.length

/-- The blocks in use are aligned and apart from each other, and no descriptor has gone astray. -/
structure PoolOk (s : Pools) : Prop where
  aligned : ∀ u ∈ s.pool.useList, 4096 ∣ (s.pool.base u).toNat
  disjoint : s.pool.useList.Pairwise fun p q => ∀ a, ¬(Covers s.pool a p ∧ Covers s.pool a q)
  pool : s.pool.descriptors = MAX_PMHOLES
  kernel : s.kernel.descriptors = MAX_MHOLES

/-- What a call of `palloc` gives: nothing, or a block of its own that is long enough. -/
def Granted (m : Mem) (size : UInt32) : UInt32 × Mem → Prop
  | (ptr, m') => ptr = 0 ∧ m' = m ∨ 4096 ∣ ptr.toNat ∧ ∃ u ∈ m'.useList, m'.base u = ptr ∧
      size ≤ m'.size u ∧ ∀ v ∈ m.useList, ∀ a, ¬(Covers m' a u ∧ Covers m a v)

/-- The descriptor stands below some hole and next to none. -/
def Lone (m : Mem) (d : Hole) : Prop :=
  HasHoleAbove m d ∧ ∀ f ∈ m.freeList,
    m.base f + m.size f ≠ m.base d ∧ m.base d + m.size d ≠ m.base f

instance (m : Mem) (d : Hole) : Decidable (Lone m d) := inferInstanceAs (Decidable (_ ∧ _))

/-- The first hole that fits has to be split, and there is no descriptor for it. -/
def PoolExhausts (m : Mem) (size : UInt32) : Prop :=
  m.links.next .mholeList = .mholeList ∧
    ∃ i ∈ m.freeList.find? (fun i => blockSize size ≤ m.size i), blockSize size < m.size i

instance (m : Mem) (size : UInt32) : Decidable (PoolExhausts m size) :=
  inferInstanceAs (Decidable (_ ∧ _))

/-- A size is at most a block or a number of whole blocks, there is a descriptor for what is split,
and a block that is freed lies below some hole and next to none. -/
def PoolCareful (s : Pools) : PoolOp → Prop
  | .palloc size => (size ≤ BLOCK_SIZE ∨ size.toNat % 4096 = 0) ∧ ¬PoolExhausts s.pool size
  | .pfree ptr => ∀ d ∈ searchUsedMhole s.pool ptr, Lone s.pool d

instance (s : Pools) : DecidablePred (PoolCareful s)
  | .palloc _ => inferInstanceAs (Decidable (_ ∧ _))
  | .pfree _ => inferInstanceAs (Decidable (∀ d ∈ searchUsedMhole _ _, Lone _ d))

section Blocks

variable {size : UInt32}

theorem toNat_blockSize : (blockSize size).toNat =
    if size.toNat < 4096 then 4096 else size.toNat - size.toNat % 4096 := by
  have hmask : (size &&& ~~~(BLOCK_SIZE - 1)).toNat = size.toNat - size.toNat % 4096 :=
    toNat_and_not_mask (k := 12) rfl
  have hzero : size &&& ~~~(BLOCK_SIZE - 1) = 0 ↔ size.toNat < 4096 := by
    rw [← UInt32.toNat_inj, hmask]
    change size.toNat - size.toNat % 4096 = 0 ↔ _
    omega
  unfold blockSize
  simp only [hzero]
  split
  case isTrue hlt =>
    rw [hzero.mpr hlt]
    rfl
  case isFalse => exact hmask

theorem dvd_blockSize : 4096 ∣ (blockSize size).toNat := by
  rw [toNat_blockSize]
  split <;> omega

theorem blockSize_pos : 0 < (blockSize size).toNat := by
  rw [toNat_blockSize]
  split <;> omega

theorem le_blockSize (h : size ≤ BLOCK_SIZE ∨ size.toNat % 4096 = 0) : size ≤ blockSize size := by
  rw [UInt32.le_iff_toNat_le] at h ⊢
  have hblock : BLOCK_SIZE.toNat = 4096 := rfl
  rw [toNat_blockSize]
  split <;> omega

end Blocks

/-- The pool tiles its region with aligned blocks and has all its descriptors. -/
structure PoolInv (m : Mem) (R : ℕ → Prop) [DecidablePred R] (fs us hs : List Hole) : Prop where
  heap : HeapInv m R fs us hs
  aligned : ∀ p ∈ fs ++ us, 4096 ∣ (m.base p).toNat
  count : (fs ++ us ++ hs).length = MAX_PMHOLES

section Calls

variable {m : Mem} {R : ℕ → Prop} [DecidablePred R] {fs us hs : List Hole} {size : UInt32}

theorem HeapInv.descriptors_eq (hm : HeapInv m R fs us hs) :
    m.descriptors = (fs ++ us ++ hs).length := by
  have hlength := hm.length_le
  have hspare : m.members .mholeList = hs := by
    simp only [length_append] at hlength
    exact hm.spare.members_eq (by omega)
  rw [Mem.descriptors, hm.freeList_eq, hm.useList_eq, hspare]
  simp only [length_append]
  omega

/-- `palloc` fails and changes nothing, or adds one block in use. -/
theorem PoolInv.palloc (h : PoolInv m R fs us hs) (hex : ¬PoolExhausts m size) :
    palloc m size = (0, m) ∨ ∃ u m' fs' hs', palloc m size = (m'.base u, m') ∧
      PoolInv m' R fs' (u :: us) hs' ∧ blockSize size ≤ m'.size u ∧
      ∀ v ∈ us, m'.hole v = m.hole v := by
  have hm := h.heap
  rw [PoolExhausts, hm.freeList_eq] at hex
  rw [KernelHeap.palloc, hm.freeList_eq]
  cases hfind : fs.find? (fun i => blockSize size ≤ m.size i) with
  | none => exact .inl rfl
  | some i =>
    rw [hfind] at hex
    obtain ⟨hfit, as, bs, rfl, -⟩ := find?_eq_some_iff_append.mp hfind
    simp only [decide_eq_true_eq] at hfit
    have hnd := hm.nodup
    have hpos : 0 < (m.size i).toNat := by
      have := @blockSize_pos size
      rw [UInt32.le_iff_toNat_le] at hfit
      omega
    right
    dsimp only
    split_ifs with hsplit
    · obtain ⟨hs', hhs⟩ := hm.spare_eq_cons fun hnext => hex ⟨hnext, i, rfl, hsplit⟩
      refine ⟨m.links.next .mholeList,
        carve m i (m.links.next .mholeList) (blockSize size) (m.alignBase (m.links.next .mholeList)),
        as ++ i :: bs, hs', rfl, ?_⟩
      generalize m.links.next .mholeList = fresh at *
      subst hhs
      have hni : fresh ≠ i := by rintro rfl; grind
      have hnew := @hole_carve_new m i fresh (blockSize size) (m.alignBase fresh) hni
      have hrest := @hole_carve_rest m i fresh (blockSize size) (m.alignBase fresh) hni
      have hother : ∀ v, v ≠ i → v ≠ fresh → (carve m i fresh (blockSize size)
          (m.alignBase fresh)).hole v = m.hole v := fun v => hole_carve_of_ne
      have hbase := h.aligned i (by simp)
      refine ⟨⟨hm.carve blockSize_pos hsplit, fun p hp => ?_, ?_⟩, ?_, fun v hv => ?_⟩
      · by_cases hpn : p = fresh
        · rw [hpn, Mem.base, hnew]
          exact hbase
        by_cases hpi : p = i
        · rw [hpi, Mem.base, hrest, UInt32.toNat_add]
          exact (Nat.dvd_mod_iff (by decide)).mpr (hbase.add dvd_blockSize)
        · rw [Mem.base, hother p hpi hpn]
          exact h.aligned p (by grind)
      · have := h.count
        simp only [length_append, length_cons] at this ⊢
        omega
      · rw [Mem.size, hnew]
        exact UInt32.le_refl _
      · exact hother v (by rintro rfl; grind) (by rintro rfl; grind)
    · refine ⟨i, handOver m i, as ++ bs, hs, rfl, ⟨hm.handOver hpos, fun p hp => ?_, ?_⟩, hfit,
        fun _ _ => rfl⟩
      · exact h.aligned p (by grind)
      · have := h.count
        simp only [length_append, length_cons] at this ⊢
        omega

theorem PoolInv.granted (h : PoolInv m R fs us hs) (hsize : size ≤ blockSize size)
    (hex : ¬PoolExhausts m size) : Granted m size (KernelHeap.palloc m size) := by
  rcases h.palloc hex with hcall | ⟨u, m', fs', hs', hcall, h', hfit, hother⟩
  · rw [hcall]
    exact .inl ⟨rfl, rfl⟩
  rw [hcall, Granted, h.heap.useList_eq, h'.heap.useList_eq]
  refine .inr ⟨h'.aligned u (by simp), u, by simp, rfl, UInt32.le_trans hsize hfit, ?_⟩
  rintro v hv a ⟨hua, hva⟩
  have hva' : Covers m' a v :=
    (covers_congr (congrArg MemHole.base (hother v hv)) (congrArg MemHole.size (hother v hv))).mpr hva
  have heq := h'.heap.eq_of_covers (by simp) (by simp [hv]) hua hva'
  have hnd := (nodup_cons.mp h'.heap.used.nodup).2
  exact (nodup_cons.mp hnd).1 (heq ▸ hv)

theorem poolMergeNeighbours_apart {s : Pools} {d : Hole}
    (hprev : s.pool.base (s.pool.links.prev d) + s.pool.size (s.pool.links.prev d) ≠ s.pool.base d)
    (hnext : s.pool.base d + s.pool.size d ≠ s.pool.base (s.pool.links.next d)) :
    poolMergeNeighbours s d = s := by
  simp only [poolMergeNeighbours, hprev, hnext, and_false, if_false]

/-- A block that is next to no hole is put back as it is. -/
theorem PoolInv.pfree {s : Pools} {ptr : UInt32} (h : PoolInv s.pool R fs us hs)
    (hlone : ∀ d ∈ searchUsedMhole s.pool ptr, Lone s.pool d) :
    (pfree s ptr).2.kernel = s.kernel ∧
      ∃ fs' us' hs', PoolInv (pfree s ptr).2.pool R fs' us' hs' := by
  have hm := h.heap
  cases hfind : searchUsedMhole s.pool ptr with
  | none =>
    rw [KernelHeap.pfree, hfind]
    exact ⟨rfl, fs, us, hs, h⟩
  | some d =>
    obtain ⟨habove, hapart⟩ := hlone d hfind
    rw [HasHoleAbove, hm.freeList_eq] at habove
    rw [hm.freeList_eq] at hapart
    have hd : d ∈ us := hm.useList_eq ▸ mem_of_find?_eq_some hfind
    obtain ⟨cs, i, ds, rfl, hi, hlegal⟩ := hm.hole_above hd habove
    obtain ⟨as, bs, rfl⟩ := append_of_mem hd
    have hreleased := hm.release
    -- In the free list, the neighbours of the block are holes or the head of the list.
    have hnext : (release s.pool d i).links.next d = i := hreleased.free.next_mem
    have hprev : s.pool.base ((release s.pool d i).links.prev d) +
        s.pool.size ((release s.pool d i).links.prev d) ≠ s.pool.base d := by
      rw [hreleased.free.prev_mem]
      rcases eq_nil_or_concat' cs with rfl | ⟨cs, p, rfl⟩
      · have hbase := hm.base_pos (p := d) (by simp) (hm.usedPositive d hd)
        rw [getLastD_nil, hm.freeHead.1, hm.freeHead.2]
        intro hzero
        rw [← hzero] at hbase
        exact absurd hbase (by simp)
      · rw [getLastD_concat]
        exact (hapart p (by simp)).1
    have hval : KernelHeap.pfree s ptr = (.ok, { s with pool := release s.pool d i }) := by
      rw [KernelHeap.pfree, hfind]
      dsimp only
      rw [hi]
      refine (if_neg hlegal).trans (congrArg _ (poolMergeNeighbours_apart hprev ?_))
      change s.pool.base d + s.pool.size d ≠ s.pool.base ((release s.pool d i).links.next d)
      rw [hnext]
      exact (hapart i (by simp)).2
    rw [hval]
    refine ⟨rfl, _, _, _, hreleased, fun p hp => ?_, ?_⟩
    · exact h.aligned p (by grind)
    · have := h.count
      simp only [length_append, length_cons] at this ⊢
      omega

end Calls

/-- In every run whose calls meet the conditions, what `palloc` gives out is aligned, long enough and
nobody else's, and both pools keep their descriptors. -/
theorem pool_run_sound (kernel m₀ : Mem) (base size : UInt32) (hkernel : kernel.descriptors = MAX_MHOLES)
    (hbase : 0 < base) (hpage : base.toNat % 4096 = 0) (hwrap : base.toNat + size.toNat ≤ 2 ^ 32)
    (ops : List PoolOp) (hops : Along poolStep PoolCareful ⟨kernel, initPmem m₀ base size⟩ ops) :
    ∃ s, run poolStep ⟨kernel, initPmem m₀ base size⟩ ops = some s ∧ PoolOk s ∧
      ∀ n, PoolCareful s (.palloc n) → Granted s.pool n (palloc s.pool n) := by
  let Inv (s : Pools) : Prop := s.kernel = kernel ∧
    ∃ fs us hs, PoolInv s.pool (Between base.toNat (base.toNat + size.toNat)) fs us hs
  have hinit : Inv ⟨kernel, initPmem m₀ base size⟩ := by
    refine ⟨rfl, _, _, _, heapInv_initHolePool m₀ (by decide) hbase hwrap, fun p hp => ?_, ?_⟩
    · obtain rfl : p = .memhole 0 := by simpa using hp
      exact Nat.dvd_of_mod_eq_zero hpage
    · simp [MAX_PMHOLES]
  have hstep : ∀ s op, Inv s → PoolCareful s op → ∃ s', poolStep s op = some s' ∧ Inv s' := by
    rintro s op ⟨hsame, fs, us, hs, h⟩ hop
    cases op with
    | palloc n =>
      rcases h.palloc hop.2 with hcall | ⟨u, m', fs', hs', hcall, h', -, -⟩
      · exact ⟨_, rfl, hsame, fs, us, hs, by simpa only [hcall] using h⟩
      · exact ⟨_, rfl, hsame, fs', _, hs', by simpa only [hcall] using h'⟩
    | pfree ptr => exact ⟨_, rfl, (h.pfree hop).1.trans hsame, (h.pfree hop).2⟩
  obtain ⟨s, hrun, hsame, fs, us, hs, h⟩ := run_invariant hstep ops _ hinit hops
  have hm := h.heap
  refine ⟨s, hrun, ⟨fun u hu => ?_, ?_, ?_, hsame ▸ hkernel⟩, fun n hn => ?_⟩
  · rw [hm.useList_eq] at hu
    exact h.aligned u (mem_append_right _ hu)
  · exact (pairwise_append.mp hm.tiled.disjoint).2.1
  · rw [hm.descriptors_eq, h.count]
  · exact h.granted (le_blockSize hn.1) hn.2

/-- Three blocks, of which the lowest is freed. -/
theorem pool_run_sound_frees_lowest :
    ∃ s, run poolStep ⟨initMemCore blankMem 0x1000 0x4000, initPmem blankMem 0x2000000 0x10000⟩
        [.palloc 100, .palloc 8192, .palloc 4096, .pfree 0x2000000] = some s ∧ PoolOk s := by
  have hkernel : (initMemCore blankMem 0x1000 0x4000).descriptors = MAX_MHOLES := by
    rw [(heapInv_initMemCore blankMem (by decide) (by decide)).descriptors_eq]
    simp [MAX_MHOLES]
  obtain ⟨s, hrun, hok, -⟩ := pool_run_sound _ blankMem 0x2000000 0x10000 hkernel (by decide)
    (by decide) (by decide) [.palloc 100, .palloc 8192, .palloc 4096, .pfree 0x2000000]
    (by decide +kernel)
  exact ⟨s, hrun, hok⟩

/-- A request for a byte more than a block gets one block; and a block that is freed next to a hole
takes a descriptor out of the pool. -/
theorem palloc_short_and_descriptor_lost :
    (∃ u m', palloc (initPmem blankMem 0x2000000 0x10000) 4097 = (m'.base u, m') ∧
      m'.useList = [u] ∧ m'.size u = 4096) ∧
    ∃ s, run poolStep ⟨initMemCore blankMem 0x1000 0x4000, initPmem blankMem 0x2000000 0x10000⟩
        [.palloc 4096, .pfree 0x2000000] = some s ∧ s.pool.descriptors ≠ MAX_PMHOLES :=
  ⟨⟨.memhole 1, _, rfl, by decide +kernel, by decide +kernel⟩, _, rfl, by decide +kernel⟩

end Sodex.KernelHeap
