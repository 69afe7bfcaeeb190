import Sodex.HeapTiling
import Sodex.Runs

/-!
# The calls of the kernel heap keep the tiling

Each call is reduced to the elementary moves of the tiling invariant. `kfree` and
`afree` need a free hole above the released region; `aalloc` needs the rounded
size not to wrap.
-/
namespace Sodex.KernelHeap

open LinkRing Runs List

section Merge

variable {m : Mem} {R : ℕ → Prop} [DecidablePred R] {cs ds us hs : List Hole} {p q r d i : Hole}

theorem mergeSizes_single (fuel : ℕ) (hne : q ≠ r) (hq : m.links.next q = r) :
    mergeSizes m p r (fuel + 2) q = m.modify p fun h => { h with size := h.size + m.size q } := by
  simp only [mergeSizes, if_neg hne, hq, if_true]

theorem mergeReclaim_single (fuel : ℕ) (hne : q ≠ r) (hq : m.links.next q = r) :
    mergeReclaim m r (fuel + 2) q = ((m.mholeRemove q).mholeClean q).mholeInsertHead q .mholeList := by
  simp only [mergeReclaim, if_neg hne, hq, if_true]

theorem mergeHole_pair (hp : m.links.next p = q) (hq : m.links.next q ≠ q) :
    mergeHole m p q = absorb m p q := by
  unfold mergeHole
  rw [hp, show MAX_MHOLES + 1 = 8191 + 2 from rfl, mergeSizes_single 8191 hq.symm rfl]
  simp only [links_modify]
  rw [hp, mergeReclaim_single 8191 hq.symm (by simp)]
  rfl

theorem mergeSizes_double {s : Hole} (fuel : ℕ) (hqs : q ≠ s) (hrs : r ≠ s)
    (hq : m.links.next q = r) (hr : m.links.next r = s) (hpr : p ≠ r) :
    mergeSizes m p s (fuel + 3) q =
      m.modify p fun h => { h with size := h.size + m.size q + m.size r } := by
  simp only [mergeSizes, if_neg hqs, hq, links_modify, if_neg hrs, hr, if_true]
  simp [Mem.modify, Mem.size, hpr.symm]

theorem mergeReclaim_double {s : Hole} (fuel : ℕ) (hqs : q ≠ s) (hrs : r ≠ s)
    (hq : m.links.next q = r)
    (hr : (((m.mholeRemove q).mholeClean q).mholeInsertHead q .mholeList).links.next r = s) :
    mergeReclaim m s (fuel + 3) q =
      (((((m.mholeRemove q).mholeClean q).mholeInsertHead q .mholeList).mholeRemove r).mholeClean
        r).mholeInsertHead r .mholeList := by
  simp only [mergeReclaim, if_neg hqs, hq, if_neg hrs, hr, if_true]

/-- `merge_hole` on three holes in a row is the same as merging twice. -/
theorem mergeHole_triple (hp : m.links.next p = q) (hq : m.links.next q = r)
    (hqr : q ≠ r) (hpq : p ≠ q) (hpr : p ≠ r) (hrh : r ≠ .mholeList)
    (hr : m.links.next r ≠ r) (hr' : m.links.next r ≠ q) (hback : m.links.prev q = p) :
    mergeHole m p r = absorb (absorb m p q) p r := by
  unfold mergeHole
  rw [hp, show MAX_MHOLES + 1 = 8190 + 3 from rfl,
    mergeSizes_double 8190 hr'.symm hr.symm hq rfl hpr]
  simp only [links_modify]
  rw [hp, mergeReclaim_double 8190 hr'.symm hr.symm (by simpa using hq)]
  · -- The links agree on the nose; the data fields differ in the order of the writes.
    refine Mem.ext ?_ rfl
    funext x
    by_cases hxr : x = r
    · subst hxr
      rw [hole_absorb_absorbed hpr, Mem.alignBase, hole_absorb_of_ne hpr.symm hqr.symm]
      simp [Mem.mholeClean, hpr.symm, hqr.symm]
    by_cases hxp : x = p
    · subst hxp
      rw [hole_absorb_self hpr]
      simp only [Mem.base, Mem.size, Mem.alignBase, hole_absorb_self hpq,
        hole_absorb_of_ne hpr.symm hqr.symm]
      simp [Mem.mholeClean, hpr, hpq]
    rw [hole_absorb_of_ne hxp hxr]
    by_cases hxq : x = q
    · subst hxq
      rw [hole_absorb_absorbed hpq]
      simp [Mem.mholeClean, hpq.symm, hqr, Mem.alignBase]
    · rw [hole_absorb_of_ne hxp hxq]
      simp [Mem.mholeClean, hxp, hxq, hxr]
  · simp [Mem.mholeRemove, Mem.mholeInsertHead, Mem.mholeClean, Mem.modify, Links.unlink,
      Links.insertAfter, hback, hqr.symm, hpr.symm, hrh]

/-- The merge decision on a region that stands in the free list in front of `i`. One hole has room
for the region afterwards. -/
theorem HeapInv.mergeNeighbours (hm : HeapInv m R (cs ++ d :: i :: ds) us hs) (hlt : ∃ a, R a) :
    ∃ fs' hs', HeapInv (mergeNeighbours m d) R fs' us hs' ∧
      (∃ f ∈ fs', m.size d ≤ (mergeNeighbours m d).size f) ∧
      ∀ u ∈ us, (mergeNeighbours m d).hole u = m.hole u := by
  obtain ⟨hdi_ne, hne⟩ := hm.ne_of_neighbours
  have hd : d ∈ (cs ++ d :: i :: ds) ++ us := by simp
  have hdpos := hm.freePositive hlt d (by simp)
  have hbd := hm.base_pos hd hdpos
  have hfree' : Ring m.links .mfreeList ((cs ++ [d]) ++ i :: ds) := by simpa using hm.free
  have hnd' : m.links.next d = i := hm.free.next_mem
  have hni : m.links.next i = ds.headD .mfreeList := hfree'.next_mem
  have hheadi := hm.ne_head (p := i) (by simp)
  have hheadd := hm.ne_head (p := d) (by simp)
  have hni_ne : m.links.next i ≠ i ∧ m.links.next i ≠ d := by
    rw [hni]
    cases ds with
    | nil => exact ⟨hheadi.1.symm, hheadd.1.symm⟩
    | cons e ds => exact (hne e (by simp)).symm
  -- Merging with the following hole only.
  have hforward : m.base d + m.size d = m.base i → ∃ fs' hs',
      HeapInv (mergeHole m d i) R fs' us hs' ∧ (∃ f ∈ fs', m.size d ≤ (mergeHole m d i).size f) ∧
      ∀ u ∈ us, (mergeHole m d i).hole u = m.hole u := by
    intro hadj
    rw [mergeHole_pair hnd' hni_ne.1]
    exact ⟨_, _, hm.absorb hlt hadj,
      ⟨d, by simp, (hm.le_absorb hlt (by simp) (by simp) hdi_ne hadj).1⟩,
      fun u hu => hole_absorb_of_ne (hne u (by simp [hu])).1 (hne u (by simp [hu])).2⟩
  unfold KernelHeap.mergeNeighbours
  rw [hnd', hm.free.prev_mem]
  rcases eq_nil_or_concat' cs with rfl | ⟨cs, p, rfl⟩
  · -- The list head has base and size zero, so it never looks adjacent.
    have hno : m.base .mfreeList + m.size .mfreeList ≠ m.base d := by
      rw [hm.freeHead.1, hm.freeHead.2]
      intro h
      rw [← h] at hbd
      exact absurd hbd (by simp)
    simp only [getLastD_nil, hno, false_and, if_false]
    split_ifs with hadj
    · exact hforward hadj
    · exact ⟨_, _, hm, ⟨d, by simp, UInt32.le_refl _⟩, fun _ _ => rfl⟩
  · have hm' : HeapInv m R (cs ++ p :: d :: i :: ds) us hs := by simpa using hm
    have hpd : m.links.next p = d := hm'.free.next_mem
    obtain ⟨hpd_ne, hne'⟩ := hm'.ne_of_neighbours
    have hpi_ne : p ≠ i := (hne p (by simp)).2
    have hfits : m.base p + m.size p = m.base d → m.size d ≤ (KernelHeap.absorb m p d).size p :=
      fun hadj => (hm'.le_absorb hlt (by simp) (by simp) hpd_ne hadj).2
    simp only [getLastD_concat]
    split_ifs with hboth hprev hadj
    · have hback : m.links.prev d = p := by
        rw [hm.free.prev_mem]
        simp
      rw [mergeHole_triple hpd hnd' hdi_ne hpd_ne hpi_ne hheadi.2.2 hni_ne.1 hni_ne.2 hback]
      have hadj : (KernelHeap.absorb m p d).base p + (KernelHeap.absorb m p d).size p =
          (KernelHeap.absorb m p d).base i := by
        simp only [Mem.base, Mem.size, hole_absorb_self hpd_ne,
          hole_absorb_of_ne hpi_ne.symm hdi_ne.symm]
        rw [← UInt32.add_assoc]
        exact hboth.1 ▸ hboth.2
      have hjoined := hm'.absorb hlt hboth.1
      refine ⟨_, _, hjoined.absorb hlt hadj, ⟨p, by simp, ?_⟩, fun u hu => ?_⟩
      · exact UInt32.le_trans (hfits hboth.1)
          (hjoined.le_absorb hlt (by simp) (by simp) hpi_ne hadj).1
      have hup := hne' u (by simp [hu])
      rw [hole_absorb_of_ne hup.1 (hne u (by simp [hu])).2, hole_absorb_of_ne hup.1 hup.2]
    · rw [mergeHole_pair hpd (by rw [hnd']; exact hdi_ne.symm)]
      exact ⟨_, _, hm'.absorb hlt hprev, ⟨p, by simp, hfits hprev⟩,
        fun u hu => hole_absorb_of_ne (hne' u (by simp [hu])).1 (hne' u (by simp [hu])).2⟩
    · exact hforward hadj
    · exact ⟨_, _, hm, ⟨d, by simp, UInt32.le_refl _⟩, fun _ _ => rfl⟩

/-- The search of a free function finds a hole above the region, and the region ends below it. -/
theorem HeapInv.hole_above {fs us : List Hole} (hm : HeapInv m R fs us hs) (hd : d ∈ us)
    (habove : ∃ f ∈ fs, m.base d < m.base f) : ∃ cs i ds, fs = cs ++ i :: ds ∧
      (m.mholeRemove d).freeList.find? (fun i => (m.mholeRemove d).base d <
        (m.mholeRemove d).base i) = some i ∧ ¬ m.base i < m.base d + m.size d := by
  have hlt := hm.exists_of_used hd
  have hlen := hm.length_le
  simp only [length_append] at hlen
  obtain ⟨as, bs, rfl⟩ := append_of_mem hd
  have hlist : (m.mholeRemove d).freeList = fs :=
    (hm.used.unlink_frame hd hm.free hm.disjoint.1.symm).members_eq (by omega)
  have hsome : (fs.find? fun i => m.base d < m.base i).isSome := by
    simpa using habove
  obtain ⟨i, hfind⟩ := Option.isSome_iff_exists.mp hsome
  obtain ⟨hi, cs, ds, rfl, -⟩ := find?_eq_some_iff_append.mp hfind
  simp only [decide_eq_true_eq] at hi
  refine ⟨cs, i, ds, rfl, by rw [hlist]; exact hfind, ?_⟩
  -- Two regions of the tiling do not overlap, so the check for an illegal free passes.
  have hdpos := hm.usedPositive d hd
  have hi_mem : i ∈ (cs ++ i :: ds) ++ (as ++ d :: bs) := by simp
  have hd_mem : d ∈ (cs ++ i :: ds) ++ (as ++ d :: bs) := by simp
  have hipos := hm.freePositive hlt i (by simp)
  rw [UInt32.lt_iff_toNat_lt] at hi
  have hle : (m.base d).toNat + (m.size d).toNat ≤ (m.base i).toNat := by
    by_contra hover
    have heq := hm.eq_of_covers hi_mem hd_mem (a := (m.base i).toNat) ⟨le_rfl, by omega⟩
      ⟨hi.le, by omega⟩
    rw [heq] at hi
    exact lt_irrefl _ hi
  rw [UInt32.lt_iff_toNat_lt, UInt32.toNat_add,
    Nat.mod_eq_of_lt (lt_of_le_of_lt hle (m.base i).toNat_lt)]
  omega

/-- Releasing a region in use below some free hole keeps the tiling and returns
`KFREE_OK`; the other regions in use are not written. -/
theorem HeapInv.internalCommonMerge {fs as bs : List Hole}
    (hm : HeapInv m R fs (as ++ d :: bs) hs) (habove : ∃ f ∈ fs, m.base d < m.base f) :
    (internalCommonMerge m d).1 = .ok ∧ ∃ fs' hs',
      HeapInv (internalCommonMerge m d).2 R fs' (as ++ bs) hs' ∧
      (∃ f ∈ fs', m.size d ≤ (internalCommonMerge m d).2.size f) ∧
      ∀ u ∈ as ++ bs, (internalCommonMerge m d).2.hole u = m.hole u := by
  have hd : d ∈ as ++ d :: bs := by simp
  obtain ⟨cs, i, ds, rfl, hfind, hlegal⟩ := hm.hole_above hd habove
  have hval : KernelHeap.internalCommonMerge m d =
      (.ok, KernelHeap.mergeNeighbours (KernelHeap.release m d i) d) := by
    unfold KernelHeap.internalCommonMerge
    dsimp only
    rw [hfind]
    exact if_neg hlegal
  rw [hval]
  exact ⟨rfl, hm.release.mergeNeighbours (hm.exists_of_used hd)⟩

end Merge

section Rounding

variable {x n block : UInt32} {k : ℕ}

/-- Bytes needed to reach the next multiple of `2 ^ k`. -/
def padding (k x : ℕ) : ℕ := (2 ^ k - x % 2 ^ k) % 2 ^ k

theorem toNat_and_mask (hblock : block.toNat = 2 ^ k) :
    (x &&& (block - 1)).toNat = x.toNat % 2 ^ k := by
  have hone : (1 : UInt32) ≤ block := by
    rw [UInt32.le_iff_toNat_le, hblock]
    exact Nat.one_le_two_pow
  rw [UInt32.toNat_and, UInt32.toNat_sub_of_le _ _ hone, hblock]
  exact Nat.and_two_pow_sub_one_eq_mod _ _

theorem toNat_and_not_mask (hblock : block.toNat = 2 ^ k) :
    (x &&& ~~~(block - 1)).toNat = x.toNat - x.toNat % 2 ^ k := by
  have hsplit : (x &&& ~~~(block - 1)) + (x &&& (block - 1)) = x := by
    apply UInt32.toBitVec_inj.mp
    rw [UInt32.toBitVec_add, BitVec.add_eq_or_of_and_eq_zero]
    all_goals
      ext i hi
      simp [UInt32.toBitVec_and, UInt32.toBitVec_not]
      grind
  have hlt := (x &&& (block - 1)).toNat_lt
  have hle := Nat.mod_le x.toNat (2 ^ k)
  have hx := x.toNat_lt
  have hz := (x &&& ~~~(block - 1)).toNat_lt
  have hmask := @toNat_and_mask x block k hblock
  have h := congrArg UInt32.toNat hsplit
  rw [UInt32.toNat_add, hmask] at h
  have hand : (x &&& ~~~(block - 1)).toNat ≤ x.toNat := by
    rw [UInt32.toNat_and]
    exact Nat.and_le_left
  omega

theorem toNat_roundUp (hblock : block.toNat = 2 ^ k) :
    (roundUp x block).toNat = (x.toNat + padding k x.toNat) % 2 ^ 32 := by
  have hle := Nat.mod_le x.toNat (2 ^ k)
  have hx := x.toNat_lt
  unfold roundUp padding
  split_ifs with hzero
  · have hz : x.toNat % 2 ^ k = 0 := by rw [← toNat_and_mask hblock, hzero]; rfl
    rw [hz, Nat.sub_zero, Nat.mod_self, Nat.add_zero, Nat.mod_eq_of_lt hx]
  · have hnz : x.toNat % 2 ^ k ≠ 0 := by
      rw [← toNat_and_mask hblock]
      exact fun h => hzero (UInt32.toNat_inj.mp h)
    rw [UInt32.toNat_add, toNat_and_not_mask hblock, hblock,
      Nat.mod_eq_of_lt (by omega : 2 ^ k - x.toNat % 2 ^ k < 2 ^ k)]
    congr 1
    omega

/-- A size that leaves room for a block of the alignment is rounded up without wrap-around. -/
theorem add_padding_le {n : ℕ} (hn : n + 2 ^ k ≤ 2 ^ 32) : n + padding k n ≤ 2 ^ 32 - 2 ^ k := by
  have hpow : 0 < 2 ^ k := Nat.two_pow_pos k
  have hk : k ≤ 32 := by
    by_contra hlt
    have := Nat.pow_le_pow_right two_pos (by omega : 33 ≤ k)
    omega
  obtain ⟨c, hc⟩ : 2 ^ k ∣ 2 ^ 32 := Nat.pow_dvd_pow 2 hk
  have hdm := Nat.div_add_mod n (2 ^ k)
  have hmod := Nat.mod_lt n hpow
  unfold padding
  rcases Nat.eq_zero_or_pos (n % 2 ^ k) with hz | hp
  · simp only [hz, Nat.sub_zero, Nat.mod_self]
    omega
  · rw [Nat.mod_eq_of_lt (by omega)]
    have hq : n / 2 ^ k + 1 < c := by
      by_contra hge
      have := Nat.mul_le_mul_left (2 ^ k) (not_lt.mp hge)
      rw [← hc, Nat.mul_add, Nat.mul_one] at this
      omega
    have := Nat.mul_le_mul_left (2 ^ k) hq
    rw [Nat.succ_eq_add_one, Nat.mul_add, Nat.mul_add, ← hc, Nat.mul_one] at this
    omega

/-- Without wrap-around of the rounded size, an aligned request takes the padding in front of the
aligned address and the rounded size. -/
theorem toNat_allocSize (hblock : block.toNat = 2 ^ k) (hn : n.toNat + 2 ^ k ≤ 2 ^ 32) :
    (allocSize x n block).toNat = padding k x.toNat + (n.toNat + padding k n.toNat) := by
  have hpow : 0 < 2 ^ k := Nat.two_pow_pos k
  have hx := x.toNat_lt
  have hpx : padding k x.toNat < 2 ^ k := Nat.mod_lt _ hpow
  have hpn := add_padding_le hn
  unfold allocSize
  rw [UInt32.toNat_sub, UInt32.toNat_add, toNat_roundUp hblock, toNat_roundUp hblock]
  omega

theorem le_toNat_allocSize (hblock : block.toNat = 2 ^ k) (hn : n.toNat + 2 ^ k ≤ 2 ^ 32) :
    n.toNat ≤ (allocSize x n block).toNat := by
  rw [toNat_allocSize hblock hn]
  omega

end Rounding

section Allocate

variable {m : Mem} {R : ℕ → Prop} [DecidablePred R] {fs us hs : List Hole} {i : Hole} {n : UInt32}
  {alignBit : UInt8}

/-- A request whose first fitting hole has to be split finds no spare descriptor. -/
def Exhausts (m : Mem) (need : Hole → UInt32) : Prop :=
  m.links.next .mholeList = .mholeList ∧
    ∃ i ∈ m.freeList.find? (fun i => need i ≤ m.size i), MIN_MEMSIZE < m.size i - need i

instance (m : Mem) (need : Hole → UInt32) : Decidable (Exhausts m need) :=
  inferInstanceAs (Decidable (_ ∧ _))

section

variable (hm : HeapInv m R fs us hs)
include hm

theorem HeapInv.usedCheck_eq_false (hi : i ∈ fs)
    (hpos : 0 < (m.size i).toNat) : usedCheck m i = false := by
  rw [usedCheck, hm.useList_eq, any_eq_false]
  intro u hu
  simp only [decide_eq_true_eq]
  intro hbase
  have hupos := hm.usedPositive u hu
  have hcu : Covers m (m.base i).toNat u := ⟨by rw [hbase], by rw [hbase]; omega⟩
  have heq := hm.eq_of_covers (mem_append_left _ hi) (mem_append_right _ hu)
    ⟨le_rfl, by omega⟩ hcu
  exact hm.disjoint.1 (mem_cons_of_mem _ hi) (heq ▸ mem_cons_of_mem _ hu)

theorem HeapInv.spare_eq_cons
    (h : m.links.next .mholeList ≠ .mholeList) : ∃ hs', hs = m.links.next .mholeList :: hs' := by
  have hnext := hm.spare.next_head
  cases hs with
  | nil => exact absurd hnext h
  | cons x hs => exact ⟨hs, by rw [hnext]; rfl⟩

/-- Splitting the first fitting hole puts a fresh descriptor at the head of the
list in use and leaves the regions in use before as they were. -/
theorem HeapInv.carve_first {need : Hole → UInt32}
    (hfind : fs.find? (fun i => need i ≤ m.size i) = some i)
    (hpos : 0 < (need i).toNat) (hsplit : MIN_MEMSIZE < m.size i - need i)
    (hex : ¬ Exhausts m need) (al : UInt32) :
    ∃ fs' hs', HeapInv (KernelHeap.carve m i (m.links.next .mholeList) (need i) al) R fs'
        (m.links.next .mholeList :: us) hs' ∧
      m.links.next .mholeList ≠ i ∧
      ∀ v ∈ us, (KernelHeap.carve m i (m.links.next .mholeList) (need i) al).hole v = m.hole v := by
  have hspare : m.links.next .mholeList ≠ .mholeList :=
    fun h => hex ⟨h, i, by rw [hm.freeList_eq]; exact hfind, hsplit⟩
  obtain ⟨hs', hhs⟩ := hm.spare_eq_cons hspare
  obtain ⟨hfit, as, bs, rfl, -⟩ := find?_eq_some_iff_append.mp hfind
  simp only [decide_eq_true_eq] at hfit
  generalize m.links.next .mholeList = fresh at *
  subst hhs
  have hlt : need i < m.size i := by
    rw [UInt32.lt_iff_toNat_lt, UInt32.toNat_sub_of_le _ _ hfit] at hsplit
    rw [UInt32.lt_iff_toNat_lt]
    omega
  obtain ⟨hni, hne⟩ := hm.ne_of_spare
  exact ⟨_, hs', hm.carve hpos hlt, hni,
    fun v hv => hole_carve_of_ne (hne v (by simp [hv])).2 (hne v (by simp [hv])).1⟩

/-- `kalloc` returns. It either fails and changes nothing, or adds one region in
use, whose base is the result. -/
theorem HeapInv.kalloc (hn : 0 < n.toNat)
    (hex : ¬ Exhausts m fun _ => n) :
    ∃ r m', kalloc m n = some (r, m') ∧ (r = 0 ∧ m' = m ∨ ∃ u fs' hs',
      HeapInv m' R fs' (u :: us) hs' ∧ r = m'.base u ∧ ∀ v ∈ us, m'.hole v = m.hole v) := by
  unfold KernelHeap.kalloc
  rw [hm.freeList_eq]
  cases hfind : fs.find? (fun i => n ≤ m.size i) with
  | none => exact ⟨0, m, rfl, .inl ⟨rfl, rfl⟩⟩
  | some i =>
    obtain ⟨hfit, as, bs, rfl, -⟩ := find?_eq_some_iff_append.mp hfind
    simp only [decide_eq_true_eq, UInt32.le_iff_toNat_le] at hfit
    have hsize : 0 < (m.size i).toNat := by omega
    simp only [hm.usedCheck_eq_false (by simp) hsize, Bool.false_eq_true, if_false]
    split_ifs with hsplit
    · obtain ⟨fs', hs', hinv, hne, hsame⟩ :=
        hm.carve_first hfind hn hsplit hex (m.alignBase (m.links.next .mholeList))
      exact ⟨_, _, rfl, .inr ⟨m.links.next .mholeList, fs', hs', hinv, rfl, hsame⟩⟩
    · exact ⟨_, _, rfl, .inr ⟨i, _, _, hm.handOver hsize, rfl, fun _ _ => rfl⟩⟩

end

theorem toNat_block : ((1 : UInt32) <<< alignBit.toUInt32).toNat = 2 ^ (alignBit.toNat % 32) := by
  have hlt : 2 ^ (alignBit.toNat % 32) < 2 ^ 32 :=
    Nat.pow_lt_pow_right (by decide) (Nat.mod_lt _ (by decide))
  rw [UInt32.toNat_shiftLeft, UInt8.toNat_toUInt32, UInt32.toNat_one, Nat.one_shiftLeft,
    Nat.mod_eq_of_lt hlt]

/-- The bytes an aligned request takes from each hole. -/
def alignedNeed (m : Mem) (size : UInt32) (alignBit : UInt8) (i : Hole) : UInt32 :=
  allocSize (m.base i) size (1 <<< alignBit.toUInt32)

/-- The size rounded up to the alignment fits in 32 bits. -/
def RoundsWithin (size : UInt32) (alignBit : UInt8) : Prop :=
  alignBit ≤ 32 → size.toNat + 2 ^ (alignBit.toNat % 32) ≤ 2 ^ 32

instance (size : UInt32) (alignBit : UInt8) : Decidable (RoundsWithin size alignBit) :=
  inferInstanceAs (Decidable (_ → _))

/-- `aalloc` returns. It either fails and changes nothing, or adds one region in
use, whose aligned base is the result. -/
theorem HeapInv.aalloc (hm : HeapInv m R fs us hs) (hn : 0 < n.toNat)
    (hround : RoundsWithin n alignBit) (hex : ¬ Exhausts m (alignedNeed m n alignBit)) :
    ∃ r m', aalloc m n alignBit = some (r, m') ∧ (r = 0 ∧ m' = m ∨ ∃ u fs' hs',
      HeapInv m' R fs' (u :: us) hs' ∧ r = m'.alignBase u ∧ ∀ v ∈ us, m'.hole v = m.hole v) := by
  unfold KernelHeap.aalloc
  by_cases hbit : 32 < alignBit
  · exact ⟨0, m, if_pos hbit, .inl ⟨rfl, rfl⟩⟩
  have hround := hround (UInt8.not_lt.mp hbit)
  rw [if_neg hbit, hm.freeList_eq]
  dsimp only
  cases hfind : fs.find?
      (fun i => allocSize (m.base i) n (1 <<< alignBit.toUInt32) ≤ m.size i) with
  | none => exact ⟨0, m, rfl, .inl ⟨rfl, rfl⟩⟩
  | some i =>
    have hpos : 0 < (alignedNeed m n alignBit i).toNat :=
      hn.trans_le (le_toNat_allocSize toNat_block hround)
    have hfind' : fs.find? (fun i => alignedNeed m n alignBit i ≤ m.size i) = some i := hfind
    obtain ⟨hfit, as, bs, rfl, -⟩ := find?_eq_some_iff_append.mp hfind'
    simp only [decide_eq_true_eq, UInt32.le_iff_toNat_le] at hfit
    have hsize : 0 < (m.size i).toNat := by omega
    simp only [hm.usedCheck_eq_false (by simp) hsize, Bool.false_eq_true, if_false]
    split_ifs with hsplit
    · obtain ⟨fs', hs', hinv, hne, hsame⟩ := hm.carve_first hfind' hpos hsplit hex _
      exact ⟨_, _, rfl, .inr ⟨m.links.next .mholeList, fs', hs', hinv, rfl, hsame⟩⟩
    · -- The whole hole is handed over, and then its aligned base is written.
      have hother : ∀ v, v ≠ i → (((m.mholeRemove i).mholeInsertHead i .museList).modify i
          fun h => { h with alignBase := roundUp (m.base i) (1 <<< alignBit.toUInt32) }).hole v =
          m.hole v := fun v hv => by simp [hv]
      have hne : ∀ v ∈ us, v ≠ i := by
        rintro v hv rfl
        exact hm.disjoint.1 (mem_cons_of_mem _ (by simp)) (mem_cons_of_mem _ hv)
      refine ⟨_, _, rfl, .inr ⟨i, _, _, (hm.handOver hsize).congr rfl (fun v => ?_) fun v => ?_,
        rfl, fun v hv => hother v (hne v hv)⟩⟩
      · by_cases hv : v = i
        · subst hv
          simp [Mem.base, KernelHeap.handOver]
        · exact congrArg MemHole.base (hother v hv)
      · by_cases hv : v = i
        · subst hv
          simp [Mem.size, KernelHeap.handOver]
        · exact congrArg MemHole.size (hother v hv)

end Allocate

section Init

/-- The chain of descriptors behind number `i`. -/
theorem seg_holeLinks {count : ℕ} (n i : ℕ) (h : i + n + 1 = count) :
    Seg (holeLinks count) (.memhole i) ((range' (i + 1) n).map .memhole) .mholeList := by
  induction n generalizing i with
  | zero =>
    have hi : i = count - 1 := by omega
    simp [holeLinks, hi]
  | succ n ih =>
    have hi : i ≠ count - 1 := by omega
    rw [range'_succ, map_cons, seg_cons]
    exact ⟨by simp [holeLinks, hi], by simp [holeLinks], ih (i + 1) (by omega)⟩

theorem ring_holeLinks (n : ℕ) : Ring (holeLinks (n + 1)) .mholeList
      ([] ++ .memhole 0 :: (range' 1 n).map .memhole) := by
  refine ⟨⟨rfl, rfl, seg_holeLinks n 0 (by omega)⟩, ?_⟩
  have hnd : ((range' 0 (n + 1)).map Hole.memhole).Nodup := by
    rw [← range_eq_range']
    exact nodup_range.map fun a b h => Hole.memhole.inj h
  rw [nodup_cons]
  exact ⟨by simp, by rwa [range'_succ] at hnd⟩

/-- `init_hole_pool` starts with one free region that is the whole pool. -/
theorem heapInv_initHolePool (m : Mem) {n : ℕ} (hn : n < MAX_MHOLES) {base size : UInt32}
    (hbase : 0 < base) (hwrap : base.toNat + size.toNat ≤ 2 ^ 32) :
    HeapInv (initHolePool m (n + 1) base size) (Between base.toNat (base.toNat + size.toNat))
      [.memhole 0] [] ((range' 1 n).map .memhole) := by
  have hpool := ring_holeLinks n
  have hfree : Ring (holeLinks (n + 1)) .mfreeList ([] : List Hole) := ⟨⟨rfl, rfl⟩, by simp⟩
  have hused : Ring (holeLinks (n + 1)) .museList ([] : List Hole) := ⟨⟨rfl, rfl⟩, by simp⟩
  have hmove := hpool.move hfree (by simp)
  have hlinks : (initHolePool m (n + 1) base size).links =
      ((holeLinks (n + 1)).unlink (.memhole 0)).insertAfter (.memhole 0) .mfreeList := rfl
  have hfirst : (initHolePool m (n + 1) base size).hole (.memhole 0) =
      { m.hole (.memhole 0) with base := base, size := size } := rfl
  have hpos : 0 < base.toNat := UInt32.lt_iff_toNat_lt.mp hbase
  refine ⟨fun a ha => ⟨hpos.trans_le ha.1, ha.2.trans_le hwrap⟩, hlinks ▸ hmove.2, ?_, hlinks ▸ hmove.1,
    ?_, ?_, ⟨rfl, rfl⟩, by simp, ?_, ?_⟩
  · exact hlinks ▸ hpool.move_frame hfree hused (by simp) (by simp) (by simp)
  · exact (nodup_cons.mp hpool.nodup).2
  · intro p hp
    simp only [append_nil, cons_append, nil_append, mem_cons, mem_map,
      mem_range'_1] at hp
    rcases hp with rfl | ⟨i, hi, rfl⟩
    · exact ⟨0, by decide, rfl⟩
    · exact ⟨i, by omega, rfl⟩
  · intro hlt p hp
    rw [mem_singleton.mp hp, Mem.size, hfirst]
    obtain ⟨a, ha⟩ := hlt
    unfold Between at ha
    show 0 < size.toNat
    omega
  · intro a
    simp only [append_nil, countP_singleton, Covers, Mem.base, Mem.size, hfirst,
      decide_eq_true_eq]
    rfl

theorem heapInv_initMemCore (m : Mem) {base size : UInt32} (hbase : 0 < base)
    (hwrap : base.toNat + size.toNat ≤ 2 ^ 32) :
    HeapInv (initMemCore m base size) (Between base.toNat (base.toNat + size.toNat))
      [.memhole 0] [] ((range' 1 (MAX_MHOLES - 1)).map .memhole) := by
  exact heapInv_initHolePool m (by decide : MAX_MHOLES - 1 < MAX_MHOLES) hbase hwrap

end Init

section Free

variable {m : Mem} {R : ℕ → Prop} [DecidablePred R] {fs us hs : List Hole} {d : Hole} {a : ℕ}

/-- Some free hole has a higher base than `d`. -/
def HasHoleAbove (m : Mem) (d : Hole) : Prop := ∃ f ∈ m.freeList, m.base d < m.base f

instance (m : Mem) (d : Hole) : Decidable (HasHoleAbove m d) :=
  inferInstanceAs (Decidable (∃ f ∈ m.freeList, m.base d < m.base f))

/-- The address `a` lies in a region of the free list. -/
def FreeByte (m : Mem) (a : ℕ) : Prop := ∃ f ∈ m.freeList, Covers m a f

instance (m : Mem) (a : ℕ) : Decidable (FreeByte m a) :=
  inferInstanceAs (Decidable (∃ f ∈ m.freeList, Covers m a f))

/-- A pool address is free exactly when no region in use contains it. -/
theorem HeapInv.freeByte_iff (hm : HeapInv m R fs us hs) :
    FreeByte m a ↔ R a ∧ ∀ u ∈ us, ¬ Covers m a u := by
  rw [FreeByte, hm.freeList_eq]
  constructor
  · rintro ⟨f, hf, hfa⟩
    refine ⟨hm.bounds (mem_append_left _ hf) hfa, fun u hu hua => ?_⟩
    have heq := hm.eq_of_covers (mem_append_left _ hf) (mem_append_right _ hu) hfa hua
    exact hm.disjoint.1 (mem_cons_of_mem _ hf) (heq ▸ mem_cons_of_mem _ hu)
  · rintro ⟨hin, hused⟩
    have ht := hm.tiles a
    rw [if_pos hin] at ht
    obtain ⟨f, hf, hfa⟩ := countP_pos_iff.mp (ht ▸ Nat.one_pos)
    simp only [decide_eq_true_eq] at hfa
    rcases mem_append.mp hf with hf | hf
    · exact ⟨f, hf, hfa⟩
    · exact absurd hfa (hused f hf)

/-- What releasing the region `d` does: its bytes, and no others, become free, and
the other regions in use keep their order and their records. -/
structure Released (m m' : Mem) (R : ℕ → Prop) [DecidablePred R] (d : Hole) : Prop where
  inv : ∃ fs hs, HeapInv m' R fs (m.useList.erase d) hs
  room : ∃ f ∈ m'.freeList, m.size d ≤ m'.size f
  frame : ∀ u ∈ m.useList.erase d, m'.hole u = m.hole u
  freed : ∀ a, FreeByte m' a ↔ FreeByte m a ∨ Covers m a d

/-- Both free functions on the descriptor their search has found. -/
theorem HeapInv.freeFound (hm : HeapInv m R fs us hs) (hd : d ∈ us) (habove : HasHoleAbove m d) :
    (freeFound m (some d)).1 = .ok ∧ Released m (freeFound m (some d)).2 R d := by
  obtain ⟨as, bs, rfl⟩ := append_of_mem hd
  have hnd : (as ++ d :: bs).Nodup := (nodup_cons.mp hm.used.nodup).2
  have herase : m.useList.erase d = as ++ bs := by
    rw [hm.useList_eq, erase_append_right _ (by grind), erase_cons_head]
  rw [HasHoleAbove, hm.freeList_eq] at habove
  obtain ⟨hok, fs', hs', hinv, hroom, hsame⟩ := hm.internalCommonMerge habove
  refine ⟨hok, ⟨fs', hs', herase ▸ hinv⟩, hinv.freeList_eq ▸ hroom, herase ▸ hsame, fun a => ?_⟩
  have hcov : ∀ u ∈ as ++ bs,
      Covers (KernelHeap.internalCommonMerge m d).2 a u ↔ Covers m a u :=
    fun u hu => covers_congr (by simp only [Mem.base, hsame u hu])
      (by simp only [Mem.size, hsame u hu])
  change FreeByte (KernelHeap.internalCommonMerge m d).2 a ↔ _
  rw [hinv.freeByte_iff, hm.freeByte_iff]
  constructor
  · rintro ⟨hin, hno⟩
    by_cases hda : Covers m a d
    · exact .inr hda
    · refine .inl ⟨hin, fun u hu hua => ?_⟩
      by_cases hud : u = d
      · exact hda (hud ▸ hua)
      · have hu' : u ∈ as ++ bs := by grind
        exact hno u hu' ((hcov u hu').mpr hua)
  · rintro (⟨hin, hno⟩ | hda)
    · exact ⟨hin, fun u hu hua => hno u (by grind) ((hcov u hu).mp hua)⟩
    · refine ⟨hm.bounds (by simp) hda, fun u hu hua => ?_⟩
      have heq := hm.eq_of_covers (p := d) (q := u) (by simp) (by grind) hda ((hcov u hu).mp hua)
      grind

end Free

section Run

variable {m : Mem} {R : ℕ → Prop} [DecidablePred R] {fs us hs : List Hole} {ptr : UInt32} {d : Hole}
  {op : HeapOp}

/-- Requests are for at least one byte and do not run out of descriptors. -/
def Legal (m : Mem) : HeapOp → Prop
  | .kalloc size => 0 < size ∧ ¬ Exhausts m fun _ => size
  | .aalloc size alignBit => 0 < size ∧ ¬ Exhausts m (alignedNeed m size alignBit)
  | .kfree _ => True
  | .afree _ => True

/-- The calls on which the source keeps the tiling: a rounded size fits in 32 bits,
and a region is released only below some free hole. -/
def Careful (m : Mem) : HeapOp → Prop
  | .kalloc _ => True
  | .aalloc size alignBit => RoundsWithin size alignBit
  | .kfree ptr => ∀ d ∈ searchUsedMhole m ptr, HasHoleAbove m d
  | .afree ptr => ∀ d ∈ searchUsedAlignMhole m ptr, HasHoleAbove m d

instance (m : Mem) : DecidablePred (Legal m)
  | .kalloc _ => inferInstanceAs (Decidable (_ ∧ _))
  | .aalloc _ _ => inferInstanceAs (Decidable (_ ∧ _))
  | .kfree _ => inferInstanceAs (Decidable True)
  | .afree _ => inferInstanceAs (Decidable True)

instance (m : Mem) : DecidablePred (Careful m)
  | .kalloc _ => inferInstanceAs (Decidable True)
  | .aalloc size alignBit => inferInstanceAs (Decidable (RoundsWithin size alignBit))
  | .kfree ptr => inferInstanceAs (Decidable (∀ d ∈ searchUsedMhole m ptr, HasHoleAbove m d))
  | .afree ptr => inferInstanceAs (Decidable (∀ d ∈ searchUsedAlignMhole m ptr, HasHoleAbove m d))

/-- A call inside the conditions returns and keeps the invariant. -/
theorem heapStep_inv (hm : ∃ fs us hs, HeapInv m R fs us hs) (hlegal : Legal m op)
    (hcare : Careful m op) :
    ∃ m', heapStep m op = some m' ∧ ∃ fs us hs, HeapInv m' R fs us hs := by
  obtain ⟨fs, us, hs, hm⟩ := hm
  have hfree : ∀ o : Option Hole, (∀ d ∈ o, d ∈ us) → (∀ d ∈ o, HasHoleAbove m d) →
      ∃ fs us hs, HeapInv (freeFound m o).2 R fs us hs := by
    intro o hin habove
    cases o with
    | none => exact ⟨fs, us, hs, hm⟩
    | some d =>
      obtain ⟨fs', hs', h⟩ := (hm.freeFound (hin d rfl) (habove d rfl)).2.inv
      exact ⟨fs', _, hs', h⟩
  cases op with
  | kalloc size =>
    obtain ⟨r, m', hcall, ⟨-, rfl⟩ | ⟨u, fs', hs', h, -⟩⟩ :=
      hm.kalloc (UInt32.lt_iff_toNat_lt.mp hlegal.1) hlegal.2
    · exact ⟨_, by simp only [heapStep, hcall, Option.map_some], fs, us, hs, hm⟩
    · exact ⟨m', by simp only [heapStep, hcall, Option.map_some], fs', _, hs', h⟩
  | aalloc size alignBit =>
    obtain ⟨r, m', hcall, ⟨-, rfl⟩ | ⟨u, fs', hs', h, -⟩⟩ :=
      hm.aalloc (UInt32.lt_iff_toNat_lt.mp hlegal.1) hcare hlegal.2
    · exact ⟨_, by simp only [heapStep, hcall, Option.map_some], fs, us, hs, hm⟩
    · exact ⟨m', by simp only [heapStep, hcall, Option.map_some], fs', _, hs', h⟩
  | kfree ptr =>
    refine ⟨_, rfl, hfree (searchUsedMhole m ptr) (fun d hd => ?_) hcare⟩
    exact hm.useList_eq ▸ mem_of_find?_eq_some hd
  | afree ptr =>
    refine ⟨_, rfl, hfree (searchUsedAlignMhole m ptr) (fun d hd => ?_) hcare⟩
    exact hm.useList_eq ▸ mem_of_find?_eq_some hd

/-- The linked regions are pairwise disjoint and make up exactly `[lo, hi)`. -/
structure Tiled (m : Mem) (lo hi : ℕ) : Prop where
  disjoint : (m.freeList ++ m.useList).Pairwise fun p q => ∀ a, ¬ (Covers m a p ∧ Covers m a q)
  exact : ∀ a, (∃ p ∈ m.freeList ++ m.useList, Covers m a p) ↔ lo ≤ a ∧ a < hi

theorem HeapInv.pairwise (hm : HeapInv m R fs us hs) :
    (fs ++ us).Pairwise fun p q => ∀ a, ¬ (Covers m a p ∧ Covers m a q) := by
  have hnd := (nodup_append.mp hm.nodup).1
  exact hnd.imp_of_mem fun hp hq hne a hpq => hne (hm.eq_of_covers hp hq hpq.1 hpq.2)

theorem HeapInv.tiled {lo hi : ℕ} (hm : HeapInv m (Between lo hi) fs us hs) : Tiled m lo hi := by
  refine ⟨?_, fun a => ?_⟩
  · rw [hm.freeList_eq, hm.useList_eq]
    exact hm.pairwise
  · rw [hm.freeList_eq, hm.useList_eq]
    refine ⟨fun ⟨p, hp, hpa⟩ => hm.bounds hp hpa, fun hin => ?_⟩
    have ht := hm.tiles a
    rw [if_pos (show Between lo hi a from hin)] at ht
    obtain ⟨f, hf, hfa⟩ := countP_pos_iff.mp (ht ▸ Nat.one_pos)
    exact ⟨f, hf, by simpa using hfa⟩

/-- Along every run whose calls meet the conditions all calls return, the free and
used regions tile the pool, and freeing a region below a free hole moves exactly
its bytes to the free list. -/
theorem heap_run_tiled (m₀ : Mem) (base size : UInt32) (hbase : 0 < base)
    (hwrap : base.toNat + size.toNat ≤ 2 ^ 32) (ops : List HeapOp)
    (hops : Along heapStep (fun m op => Legal m op ∧ Careful m op) (initMemCore m₀ base size) ops) :
    ∃ m, run heapStep (initMemCore m₀ base size) ops = some m ∧
      Tiled m base.toNat (base.toNat + size.toNat) ∧
      ∀ d ptr, HasHoleAbove m d →
        (searchUsedMhole m ptr = some d → (kfree m ptr).1 = .ok ∧
          ∀ a, FreeByte (kfree m ptr).2 a ↔ FreeByte m a ∨ Covers m a d) ∧
        (searchUsedAlignMhole m ptr = some d → (afree m ptr).1 = .ok ∧
          ∀ a, FreeByte (afree m ptr).2 a ↔ FreeByte m a ∨ Covers m a d) := by
  obtain ⟨m, hrun, fs, us, hs, hm⟩ := run_invariant
    (fun m op hm hop => heapStep_inv hm hop.1 hop.2) ops _
    ⟨_, _, _, heapInv_initMemCore m₀ hbase hwrap⟩ hops
  refine ⟨m, hrun, hm.tiled, fun d ptr habove => ⟨fun hfind => ?_, fun hfind => ?_⟩⟩
  · have hd : d ∈ us := hm.useList_eq ▸ mem_of_find?_eq_some hfind
    rw [kfree, hfind]
    exact ⟨(hm.freeFound hd habove).1, (hm.freeFound hd habove).2.freed⟩
  · have hd : d ∈ us := hm.useList_eq ▸ mem_of_find?_eq_some hfind
    rw [afree, hfind]
    exact ⟨(hm.freeFound hd habove).1, (hm.freeFound hd habove).2.freed⟩

/-- A heap before `init_mem_core`, with all fields zero. -/
def blankMem : Mem where
  hole _ := ⟨0, 0, 0⟩
  links := ⟨id, id⟩

/-- Two allocations, an aligned one, and the release of the first and the second. -/
theorem heap_run_tiled_frees_middle : ∃ m, run heapStep (initMemCore blankMem 0x1000 0x4000)
        [.kalloc 100, .kalloc 64, .aalloc 200 8, .kfree 0x1000, .kfree 0x1064] = some m ∧
      Tiled m 0x1000 (0x1000 + 0x4000) := by
  obtain ⟨m, hrun, htiled, -⟩ := heap_run_tiled blankMem 0x1000 0x4000 (by decide) (by decide)
    [.kalloc 100, .kalloc 64, .aalloc 200 8, .kfree 0x1000, .kfree 0x1064] (by decide +kernel)
  exact ⟨m, hrun, htiled⟩

/-- When the whole pool is one region in use, freeing it reports success and leaves
the region on no list. -/
theorem heap_loses_topmost_region :
    Along heapStep Legal (initMemCore blankMem 0x1000 100) [.kalloc 100, .kfree 0x1000] ∧
    ∃ m, run heapStep (initMemCore blankMem 0x1000 100) [.kalloc 100] = some m ∧
      searchUsedMhole m 0x1000 = some (.memhole 0) ∧ (kfree m 0x1000).1 = .ok ∧
      ¬ Tiled (kfree m 0x1000).2 0x1000 (0x1000 + 100) ∧ ¬ FreeByte (kfree m 0x1000).2 0x1000 := by
  refine ⟨by decide +kernel, _, rfl, by decide +kernel, by decide +kernel, fun h => ?_,
    by decide +kernel⟩
  exact absurd ((h.exact 0x1000).mpr (by decide)) (by decide +kernel)

end Run

end Sodex.KernelHeap
