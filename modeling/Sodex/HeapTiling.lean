import Sodex.KernelHeap

/-!
# The free and used regions tile the kernel heap

The invariant counts, for every address, the linked regions that contain it.
Splitting, handing over and merging keep that count, so it stays one inside the
pool and zero outside. Inserting a freed region needs a free hole of higher base;
the source drops the region otherwise.
-/
namespace Sodex.KernelHeap

open LinkRing List

/-- The region described by `p` contains the address `a`. -/
def Covers (m : Mem) (a : ℕ) (p : Hole) : Prop :=
  (m.base p).toNat ≤ a ∧ a < (m.base p).toNat + (m.size p).toNat

instance (m : Mem) (a : ℕ) : DecidablePred (Covers m a) :=
  fun _ => inferInstanceAs (Decidable (_ ∧ _))

section Fields

variable (m : Mem) (p q e : Hole) (f : MemHole → MemHole)

@[simp] theorem base_mholeRemove : (m.mholeRemove p).base q = m.base q := rfl
@[simp] theorem size_mholeRemove : (m.mholeRemove p).size q = m.size q := rfl
@[simp] theorem alignBase_mholeRemove : (m.mholeRemove p).alignBase q = m.alignBase q := rfl
@[simp] theorem base_mholeInsertHead : (m.mholeInsertHead p e).base q = m.base q := rfl
@[simp] theorem size_mholeInsertHead : (m.mholeInsertHead p e).size q = m.size q := rfl
@[simp] theorem alignBase_mholeInsertHead :
    (m.mholeInsertHead p e).alignBase q = m.alignBase q := rfl
@[simp] theorem base_mholeInsertBefore : (m.mholeInsertBefore p e).base q = m.base q := rfl
@[simp] theorem size_mholeInsertBefore : (m.mholeInsertBefore p e).size q = m.size q := rfl
@[simp] theorem alignBase_mholeInsertBefore :
    (m.mholeInsertBefore p e).alignBase q = m.alignBase q := rfl

@[simp] theorem links_modify : (m.modify p f).links = m.links := rfl

@[simp] theorem hole_modify_self : (m.modify p f).hole p = f (m.hole p) := by simp [Mem.modify]

@[simp] theorem hole_modify_of_ne (h : q ≠ p) : (m.modify p f).hole q = m.hole q := by
  simp [Mem.modify, h]

@[simp] theorem hole_mholeRemove : (m.mholeRemove p).hole = m.hole := rfl
@[simp] theorem hole_mholeInsertHead : (m.mholeInsertHead p e).hole = m.hole := rfl

end Fields

/-- The addresses from `lo` up to `hi`. -/
def Between (lo hi a : ℕ) : Prop := lo ≤ a ∧ a < hi

instance (lo hi : ℕ) : DecidablePred (Between lo hi) := fun _ => inferInstanceAs (Decidable (_ ∧ _))

/-- Regions `fs` are free, `us` are in use, and the descriptors `hs` are spare.
Each address in `R` lies in exactly one region, and no other address in any. -/
structure HeapInv (m : Mem) (R : ℕ → Prop) [DecidablePred R] (fs us hs : List Hole) : Prop where
  range : ∀ a, R a → 0 < a ∧ a < 2 ^ 32
  free : Ring m.links .mfreeList fs
  used : Ring m.links .museList us
  spare : Ring m.links .mholeList hs
  nodup : (fs ++ us ++ hs).Nodup
  array : ∀ p ∈ fs ++ us ++ hs, ∃ i < MAX_MHOLES, p = .memhole i
  freeHead : m.base .mfreeList = 0 ∧ m.size .mfreeList = 0
  usedPositive : ∀ p ∈ us, 0 < (m.size p).toNat
  freePositive : (∃ a, R a) → ∀ p ∈ fs, 0 < (m.size p).toNat
  tiles : ∀ a, (fs ++ us).countP (Covers m a) = if R a then 1 else 0

namespace HeapInv

variable {m : Mem} {R : ℕ → Prop} [DecidablePred R] {fs us hs : List Hole} {p q : Hole} {a : ℕ}

variable (hm : HeapInv m R fs us hs)
include hm

theorem ne_head (hp : p ∈ fs ++ us ++ hs) :
    p ≠ .mfreeList ∧ p ≠ .museList ∧ p ≠ .mholeList := by
  obtain ⟨i, -, rfl⟩ := hm.array p hp
  simp

theorem disjoint : (Hole.mfreeList :: fs).Disjoint (.museList :: us) ∧
      (Hole.mfreeList :: fs).Disjoint (.mholeList :: hs) ∧
      (Hole.museList :: us).Disjoint (.mholeList :: hs) := by
  have hnd := hm.nodup
  refine ⟨?_, ?_, ?_⟩ <;> intro x hx hy <;> have hh := fun hx => hm.ne_head (p := x) hx <;>
    simp only [mem_cons, mem_append] at hx hy hh <;> grind

/-- No list is longer than the descriptor array. -/
theorem length_le : (fs ++ us ++ hs).length ≤ MAX_MHOLES := by
  have hsub : (fs ++ us ++ hs).toFinset ⊆ (Finset.range MAX_MHOLES).image Hole.memhole := by
    intro p hp
    obtain ⟨i, hi, rfl⟩ := hm.array p (mem_toFinset.mp hp)
    exact Finset.mem_image_of_mem _ (Finset.mem_range.mpr hi)
  have hcard := Finset.card_le_card hsub
  rw [toFinset_card_of_nodup hm.nodup] at hcard
  exact hcard.trans (Finset.card_image_le.trans (by simp))

theorem freeList_eq : m.freeList = fs := by
  have h := hm.length_le
  simp only [length_append] at h
  exact hm.free.members_eq (by omega)

theorem useList_eq : m.useList = us := by
  have h := hm.length_le
  simp only [length_append] at h
  exact hm.used.members_eq (by omega)

/-- A covered address lies in the pool. -/
theorem bounds (hp : p ∈ fs ++ us) (ha : Covers m a p) : R a := by
  by_contra h
  have ht := hm.tiles a
  rw [if_neg h, countP_eq_zero] at ht
  exact ht p hp (by simpa using ha)

/-- Two regions never share an address. -/
theorem eq_of_covers (hp : p ∈ fs ++ us) (hq : q ∈ fs ++ us)
    (hpa : Covers m a p) (hqa : Covers m a q) : p = q := by
  by_contra hne
  have hperm := perm_cons_erase hp
  have hq' : q ∈ (fs ++ us).erase p := (mem_erase_of_ne (Ne.symm hne)).mpr hq
  have ht := hm.tiles a
  rw [hperm.countP_eq, countP_cons_of_pos (by simpa using hpa)] at ht
  have hpos : 0 < ((fs ++ us).erase p).countP (Covers m a) :=
    countP_pos_iff.mpr ⟨q, hq', by simpa using hqa⟩
  split_ifs at ht
  all_goals omega

theorem base_pos (hp : p ∈ fs ++ us)
    (hs : 0 < (m.size p).toNat) : 0 < (m.base p).toNat :=
  (hm.range _ (hm.bounds hp ⟨le_rfl, by omega⟩)).1

theorem end_le (hp : p ∈ fs ++ us)
    (hs : 0 < (m.size p).toNat) : (m.base p).toNat + (m.size p).toNat ≤ 2 ^ 32 := by
  have hlast := hm.bounds hp (a := (m.base p).toNat + (m.size p).toNat - 1) ⟨by omega, by omega⟩
  have := (hm.range _ hlast).2
  omega

/-- A region in use makes the pool nonempty. -/
theorem exists_of_used (hp : p ∈ us) : ∃ a, R a :=
  have hpos := hm.usedPositive p hp
  ⟨_, hm.bounds (mem_append_right _ hp) ⟨le_rfl, by omega⟩⟩

end HeapInv

section Steps

variable {m m' : Mem} {R : ℕ → Prop} [DecidablePred R] {fs us hs as bs : List Hole} {i n p q d : Hole}
  {amount al : UInt32} {a : ℕ}

theorem covers_congr (hb : m'.base p = m.base p) (hs : m'.size p = m.size p) :
    Covers m' a p ↔ Covers m a p := by simp only [Covers, hb, hs]

/-- Both allocators split a hole `i` by giving its first bytes to the spare
descriptor `n`. -/
def carve (m : Mem) (i n : Hole) (amount al : UInt32) : Mem :=
  (((m.mholeRemove n).modify n fun _ => ⟨m.base i, al, amount⟩).modify i fun h =>
    { h with base := h.base + amount, size := h.size - amount }).mholeInsertHead n .museList

/-- Both allocators hand over a whole hole `i`. -/
def handOver (m : Mem) (i : Hole) : Mem := (m.mholeRemove i).mholeInsertHead i .museList

theorem hole_carve_of_ne (hqi : q ≠ i) (hqn : q ≠ n) :
    (carve m i n amount al).hole q = m.hole q := by simp [carve, hqi, hqn]

theorem hole_carve_new (hni : n ≠ i) : (carve m i n amount al).hole n = ⟨m.base i, al, amount⟩ := by
  simp [carve, hni]

theorem hole_carve_rest (hni : n ≠ i) : (carve m i n amount al).hole i =
    ⟨m.base i + amount, m.alignBase i, m.size i - amount⟩ := by
  simp [carve, hni.symm, Mem.base, Mem.size, Mem.alignBase]

theorem ne_of_nodup_cons_cons {l : List Hole} (h : (p :: q :: l).Nodup) :
    p ≠ q ∧ ∀ x ∈ l, x ≠ p ∧ x ≠ q := by
  simp only [nodup_cons, mem_cons, not_or] at h
  exact ⟨h.1.1, fun x hx => ⟨fun e => h.1.2 (e ▸ hx), fun e => h.2.1 (e ▸ hx)⟩⟩

theorem HeapInv.ne_of_spare (hm : HeapInv m R (as ++ i :: bs) us (n :: hs)) :
    n ≠ i ∧ ∀ x ∈ as ++ bs ++ us ++ hs, x ≠ n ∧ x ≠ i := by
  have hperm : ((as ++ i :: bs) ++ us ++ n :: hs).Perm (n :: i :: (as ++ bs ++ us ++ hs)) :=
    perm_iff_count.mpr fun x => by simp only [count_append, count_cons]; omega
  exact ne_of_nodup_cons_cons (hperm.nodup_iff.mp hm.nodup)

theorem HeapInv.ne_of_neighbours (hm : HeapInv m R (as ++ p :: q :: bs) us hs) :
    p ≠ q ∧ ∀ x ∈ as ++ bs ++ us ++ hs, x ≠ p ∧ x ≠ q := by
  have hperm : ((as ++ p :: q :: bs) ++ us ++ hs).Perm (p :: q :: (as ++ bs ++ us ++ hs)) :=
    perm_iff_count.mpr fun x => by simp only [count_append, count_cons]; omega
  exact ne_of_nodup_cons_cons (hperm.nodup_iff.mp hm.nodup)

/-- A move rewrites the regions `xs` as `ys`, which cover the same addresses as
often, and leaves the regions `rest` as they were. -/
theorem HeapInv.exchange {fs' us' hs' : List Hole} (hm : HeapInv m R fs us hs)
    (xs ys rest : List Hole)
    (hfree : Ring m'.links .mfreeList fs') (hused : Ring m'.links .museList us')
    (hspare : Ring m'.links .mholeList hs') (hperm : (fs' ++ us' ++ hs').Perm (fs ++ us ++ hs))
    (hold : (fs ++ us).Perm (xs ++ rest)) (hnew : (fs' ++ us').Perm (ys ++ rest))
    (hus : ∀ p ∈ us', p ∈ ys ∨ p ∈ us) (hhead : m'.hole .mfreeList = m.hole .mfreeList)
    (hrest : ∀ p ∈ rest, m'.hole p = m.hole p) (hpos : ∀ p ∈ ys, 0 < (m'.size p).toNat)
    (hcount : ∀ a, ys.countP (Covers m' a) = xs.countP (Covers m a)) :
    HeapInv m' R fs' us' hs' where
  range := hm.range
  free := hfree
  used := hused
  spare := hspare
  nodup := hperm.nodup_iff.mpr hm.nodup
  array p hp := hm.array p (hperm.mem_iff.mp hp)
  freeHead := by simpa only [Mem.base, Mem.size, hhead] using hm.freeHead
  usedPositive p hp := by
    rcases mem_append.mp (hnew.mem_iff.mp (mem_append_right fs' hp)) with hy | hr
    · exact hpos p hy
    · rcases hus p hp with hy | hu
      · exact hpos p hy
      · rw [Mem.size, hrest p hr]
        exact hm.usedPositive p hu
  freePositive hlt p hp := by
    rcases mem_append.mp (hnew.mem_iff.mp (mem_append_left us' hp)) with hy | hr
    · exact hpos p hy
    · rw [Mem.size, hrest p hr]
      rcases mem_append.mp (hold.mem_iff.mpr (mem_append_right xs hr)) with hf | hu
      · exact hm.freePositive hlt p hf
      · exact hm.usedPositive p hu
  tiles a := by
    have hsame : rest.countP (Covers m' a) = rest.countP (Covers m a) :=
      countP_congr fun x hx => by
        simpa using covers_congr (congrArg MemHole.base (hrest x hx))
          (congrArg MemHole.size (hrest x hx))
    rw [← hm.tiles a, hnew.countP_eq, hold.countP_eq, countP_append, countP_append, hcount, hsame]

theorem HeapInv.carve (hm : HeapInv m R (as ++ i :: bs) us (n :: hs))
    (hpos : 0 < amount.toNat) (hlt : amount < m.size i) :
    HeapInv (carve m i n amount al) R (as ++ i :: bs) (n :: us) hs := by
  obtain ⟨hni, hne⟩ := hm.ne_of_spare
  have hlt' : amount.toNat < (m.size i).toNat := UInt32.lt_iff_toNat_lt.mp hlt
  have hend := hm.end_le (p := i) (by simp) (by omega)
  -- The two parts of the split hole share out the addresses it had.
  have hn : (KernelHeap.carve m i n amount al).base n = m.base i ∧
      (KernelHeap.carve m i n amount al).size n = amount := by
    simp only [Mem.base, Mem.size, hole_carve_new hni, and_self]
  have hi : (KernelHeap.carve m i n amount al).base i = m.base i + amount ∧
      (KernelHeap.carve m i n amount al).size i = m.size i - amount := by
    rw [Mem.base, Mem.size, hole_carve_rest hni]
    exact ⟨rfl, rfl⟩
  have hbase : (m.base i + amount).toNat = (m.base i).toNat + amount.toNat := by
    rw [UInt32.toNat_add, Nat.mod_eq_of_lt (by omega)]
  have hsize : (m.size i - amount).toNat = (m.size i).toNat - amount.toNat :=
    UInt32.toNat_sub_of_le _ _ (UInt32.le_of_lt hlt)
  have hspare : Ring m.links .mholeList ([] ++ n :: hs) := hm.spare
  have hmove := hspare.move hm.used hm.disjoint.2.2.symm
  have hframe := hspare.move_frame hm.used hm.free hm.disjoint.2.2.symm hm.disjoint.2.1.symm
    hm.disjoint.1.symm
  have hhead : (KernelHeap.carve m i n amount al).hole .mfreeList = m.hole .mfreeList :=
    hole_carve_of_ne (hm.ne_head (p := i) (by simp)).1.symm (hm.ne_head (p := n) (by simp)).1.symm
  refine hm.exchange [i] [n, i] (as ++ bs ++ us) hframe hmove.2 hmove.1
    ?hperm ?hold ?hnew ?_ hhead ?_ ?_ ?_
  case hperm | hold | hnew =>
    exact perm_iff_count.mpr fun x => by simp only [count_append, count_cons, count_nil]; omega
  · simp only [mem_cons]
    tauto
  · intro p hp
    have hpn := hne p (mem_append_left hs hp)
    exact hole_carve_of_ne hpn.2 hpn.1
  · simp only [forall_mem_cons, hn.2, hi.2, hsize]
    exact ⟨hpos, by omega, by simp⟩
  · intro a
    simp only [countP_cons, countP_nil, decide_eq_true_eq]
    simp only [Covers, hn.1, hn.2, hi.1, hi.2, hbase, hsize]
    grind

/-- Data fields other than base and size do not enter the invariant. -/
theorem HeapInv.congr (hm : HeapInv m R fs us hs) (hl : m'.links = m.links)
    (hb : ∀ p, m'.base p = m.base p) (hs' : ∀ p, m'.size p = m.size p) :
    HeapInv m' R fs us hs where
  range := hm.range
  free := by rw [hl]; exact hm.free
  used := by rw [hl]; exact hm.used
  spare := by rw [hl]; exact hm.spare
  nodup := hm.nodup
  array := hm.array
  freeHead := by rw [hb, hs']; exact hm.freeHead
  usedPositive p hp := by rw [hs']; exact hm.usedPositive p hp
  freePositive hlt p hp := by rw [hs']; exact hm.freePositive hlt p hp
  tiles a := by
    rw [← hm.tiles a]
    exact countP_congr fun x _ => by simpa using covers_congr (hb x) (hs' x)

theorem HeapInv.handOver (hm : HeapInv m R (as ++ i :: bs) us hs)
    (hpos : 0 < (m.size i).toNat) : HeapInv (handOver m i) R (as ++ bs) (i :: us) hs := by
  have hmove := hm.free.move hm.used hm.disjoint.1
  have hframe := hm.free.move_frame hm.used hm.spare hm.disjoint.1 hm.disjoint.2.1
    hm.disjoint.2.2
  refine hm.exchange [i] [i] (as ++ bs ++ us) hmove.1 hmove.2 hframe
    ?hperm ?hold ?hnew (by simp) rfl (fun _ _ => rfl) (fun _ hp => mem_singleton.mp hp ▸ hpos)
    fun a => countP_congr fun _ _ => Iff.rfl
  case hperm | hold | hnew =>
    exact perm_iff_count.mpr fun x => by simp only [count_append, count_cons, count_nil]; omega

/-- The freed descriptor `d` is put in front of the first hole of higher base. -/
def release (m : Mem) (d i : Hole) : Mem := (m.mholeRemove d).mholeInsertBefore d i

theorem HeapInv.release {cs ds : List Hole} (hm : HeapInv m R (cs ++ i :: ds) (as ++ d :: bs) hs) :
    HeapInv (release m d i) R (cs ++ d :: i :: ds) (as ++ bs) hs := by
  have hne := hm.ne_head (p := d) (by simp)
  have hd : d ∈ as ++ d :: bs := by simp
  have hi : i ∈ Hole.mfreeList :: (cs ++ i :: ds) := by simp
  obtain ⟨hfu, hfs, husp⟩ := hm.disjoint
  have hfree := hm.used.unlink_frame hd hm.free hfu.symm
  have hused := hm.used.unlink
  have hspare := hm.used.unlink_frame hd hm.spare husp
  have hdf : d ∉ Hole.mfreeList :: (cs ++ i :: ds) := fun h => hfu h (mem_cons_of_mem _ hd)
  have hdu : (d :: (as ++ bs)).Nodup := perm_middle.nodup_iff.mp (nodup_cons.mp hm.used.nodup).2
  have hds : d ∉ Hole.mholeList :: hs := fun h => husp (mem_cons_of_mem _ hd) h
  have hsub : Hole.museList :: (as ++ bs) ⊆ .museList :: (as ++ d :: bs) :=
    cons_subset_cons _ (append_subset.mpr ⟨subset_append_left _ _, by simp⟩)
  refine hm.exchange [d] [d] (cs ++ i :: ds ++ (as ++ bs))
    (hfree.insertBefore hdf)
    (hfree.insertBefore_frame hi hused ?_ fun _ hu hv => hfu hu (hsub hv))
    (hfree.insertBefore_frame hi hspare hds hfs) ?hperm ?hold ?hnew ?_ rfl (fun _ _ => rfl)
    (fun _ hp => mem_singleton.mp hp ▸ hm.usedPositive d hd) fun a => countP_congr fun _ _ => Iff.rfl
  · exact not_mem_cons_of_ne_of_not_mem hne.2.1 (nodup_cons.mp hdu).1
  case hperm | hold | hnew =>
    exact perm_iff_count.mpr fun x => by simp only [count_append, count_cons, count_nil]; omega
  · simp only [mem_append, mem_cons]
    tauto

/-- Merging two adjacent holes: `p` takes the bytes and `q` becomes spare. -/
def absorb (m : Mem) (p q : Hole) : Mem :=
  (((m.modify p fun h => { h with size := h.size + m.size q }).mholeRemove q).mholeClean
    q).mholeInsertHead q .mholeList

theorem hole_absorb_of_ne {x : Hole} (hxp : x ≠ p) (hxq : x ≠ q) :
    (absorb m p q).hole x = m.hole x := by simp [absorb, Mem.mholeClean, hxp, hxq]

theorem hole_absorb_self (hpq : p ≠ q) :
    (absorb m p q).hole p = ⟨m.base p, m.alignBase p, m.size p + m.size q⟩ := by
  simp [absorb, Mem.mholeClean, hpq, Mem.base, Mem.size, Mem.alignBase]

theorem hole_absorb_absorbed (hpq : p ≠ q) : (absorb m p q).hole q = ⟨0, m.alignBase q, 0⟩ := by
  simp [absorb, Mem.mholeClean, hpq.symm, Mem.alignBase]

/-- The end of `p` cannot wrap to zero, since `q` starts inside the pool. -/
theorem HeapInv.toNat_join (hm : HeapInv m R fs us hs) (hlt : ∃ a, R a) (hp : p ∈ fs) (hq : q ∈ fs)
    (hadj : m.base p + m.size p = m.base q) :
    (m.base p).toNat + (m.size p).toNat = (m.base q).toNat ∧
      (m.size p + m.size q).toNat = (m.size p).toNat + (m.size q).toNat := by
  have hsp := hm.freePositive hlt p hp
  have hsq := hm.freePositive hlt q hq
  have hep := hm.end_le (mem_append_left _ hp) hsp
  have heq := hm.end_le (mem_append_left _ hq) hsq
  have hbp := hm.base_pos (mem_append_left _ hp) hsp
  have hbq := hm.base_pos (mem_append_left _ hq) hsq
  have h := congrArg UInt32.toNat hadj
  rw [UInt32.toNat_add] at h
  rw [UInt32.toNat_add]
  rcases Nat.lt_or_ge ((m.base p).toNat + (m.size p).toNat) (2 ^ 32) with hw | hw
  · rw [Nat.mod_eq_of_lt hw] at h
    exact ⟨h, Nat.mod_eq_of_lt (by omega)⟩
  · have : (m.base p).toNat + (m.size p).toNat = 2 ^ 32 := by omega
    rw [this, Nat.mod_self] at h
    omega

/-- The hole that is left is as large as either. -/
theorem HeapInv.le_absorb (hm : HeapInv m R fs us hs) (hlt : ∃ a, R a) (hp : p ∈ fs) (hq : q ∈ fs)
    (hpq : p ≠ q) (hadj : m.base p + m.size p = m.base q) :
    m.size p ≤ (absorb m p q).size p ∧ m.size q ≤ (absorb m p q).size p := by
  have hsize := (hm.toNat_join hlt hp hq hadj).2
  simp only [Mem.size, hole_absorb_self hpq, UInt32.le_iff_toNat_le] at hsize ⊢
  omega

theorem HeapInv.absorb {cs ds : List Hole} (hm : HeapInv m R (cs ++ p :: q :: ds) us hs)
    (hlt : ∃ a, R a) (hadj : m.base p + m.size p = m.base q) :
    HeapInv (absorb m p q) R (cs ++ p :: ds) us (q :: hs) := by
  obtain ⟨hpq, hne⟩ := hm.ne_of_neighbours
  have hsp := hm.freePositive hlt p (by simp)
  obtain ⟨hadj', hsize⟩ := hm.toNat_join hlt (by simp) (by simp) hadj
  have hp : (KernelHeap.absorb m p q).base p = m.base p ∧
      (KernelHeap.absorb m p q).size p = m.size p + m.size q := by
    rw [Mem.base, Mem.size, hole_absorb_self hpq]
    exact ⟨rfl, rfl⟩
  have happ : ∀ l, cs ++ p :: l = (cs ++ [p]) ++ l := fun l => by simp
  have hfree : Ring m.links .mfreeList ((cs ++ [p]) ++ q :: ds) := happ (q :: ds) ▸ hm.free
  have hdis : (Hole.mfreeList :: ((cs ++ [p]) ++ q :: ds)).Disjoint (.mholeList :: hs) := by
    simpa using hm.disjoint.2.1
  have hdis' : (Hole.mfreeList :: ((cs ++ [p]) ++ q :: ds)).Disjoint (.museList :: us) := by
    simpa using hm.disjoint.1
  have hmove := hfree.move hm.spare hdis
  have hframe := hfree.move_frame hm.spare hm.used hdis hdis' hm.disjoint.2.2.symm
  have hhead := hole_absorb_of_ne (m := m) (hm.ne_head (p := p) (by simp)).1.symm
    (hm.ne_head (p := q) (by simp)).1.symm
  refine hm.exchange [p, q] [p] (cs ++ ds ++ us) (happ ds ▸ hmove.1) hframe
    hmove.2 ?hperm ?hold ?hnew (fun _ => .inr) hhead ?_ ?_ ?_
  case hperm | hold | hnew =>
    exact perm_iff_count.mpr fun x => by simp only [count_append, count_cons, count_nil]; omega
  · intro x hx
    have hxp := hne x (mem_append_left hs hx)
    exact hole_absorb_of_ne hxp.1 hxp.2
  · simp only [forall_mem_cons, hp.2, hsize]
    exact ⟨by omega, by simp⟩
  · intro a
    simp only [countP_cons, countP_nil, decide_eq_true_eq]
    simp only [Covers, hp.1, hp.2, hsize]
    grind

end Steps

end Sodex.KernelHeap
