import Sodex.HeapCalls

/-!
# Aligned allocation

Where a block of `aalloc` lies, for calls whose size does not wrap when it is rounded up.
-/
namespace Sodex.KernelHeap

open Runs

theorem dvd_add_padding (k x : ℕ) : 2 ^ k ∣ x + padding k x := by
  have hpow : 0 < 2 ^ k := Nat.two_pow_pos k
  have hdm := Nat.div_add_mod x (2 ^ k)
  rcases eq_zero_or_pos (x % 2 ^ k) with hz | hp
  · rw [padding, hz, Nat.sub_zero, Nat.mod_self, add_zero]
    exact Nat.dvd_of_mod_eq_zero hz
  · rw [padding, Nat.mod_eq_of_lt (by omega)]
    refine ⟨x / 2 ^ k + 1, ?_⟩
    rw [mul_add, mul_one]
    omega

theorem add_padding_le_wrap {k x : ℕ} (hk : k ≤ 32) (hx : x < 2 ^ 32) :
    x + padding k x ≤ 2 ^ 32 := by
  have hpow : 0 < 2 ^ k := Nat.two_pow_pos k
  have hpad : padding k x < 2 ^ k := Nat.mod_lt _ hpow
  obtain ⟨c, hc⟩ := dvd_add_padding k x
  obtain ⟨d, hd⟩ : 2 ^ k ∣ 2 ^ 32 := pow_dvd_pow 2 hk
  have hlt : 2 ^ k * c < 2 ^ k * (d + 1) := by
    rw [← hc, mul_add, ← hd, mul_one]
    omega
  have hcd : c ≤ d := Nat.lt_succ_iff.mp (Nat.lt_of_mul_lt_mul_left hlt)
  rw [hc, hd]
  exact Nat.mul_le_mul_left _ hcd

/-- The bytes from `p` on, as many as the size rounded up to the alignment, lie in the hole. -/
def Holds (m : Mem) (i : Hole) (size : UInt32) (k p : ℕ) : Prop :=
  2 ^ k ∣ p ∧ (m.base i).toNat ≤ p ∧
    p + (size.toNat + padding k size.toNat) ≤ (m.base i).toNat + (m.size i).toNat

section Aligned

variable {m : Mem} {R : ℕ → Prop} [DecidablePred R] {fs us hs : List Hole} {size : UInt32}
  {alignBit : UInt8}

/-- A call of `aalloc` that gives out memory gives out the aligned base of a hole that is large
enough. -/
theorem aalloc_result {r : UInt32} {m' : Mem} (hcall : aalloc m size alignBit = some (r, m'))
    (hr : r ≠ 0) : ∃ i ∈ m.freeList, r = roundUp (m.base i) (1 <<< alignBit.toUInt32) ∧
      alignedNeed m size alignBit i ≤ m.size i := by
  unfold aalloc at hcall
  split at hcall
  · exact absurd (congrArg Prod.fst (Option.some.inj hcall)).symm hr
  dsimp only at hcall
  split at hcall
  · exact absurd (congrArg Prod.fst (Option.some.inj hcall)).symm hr
  rename_i i hfind
  have hfit := List.find?_some hfind
  refine ⟨i, List.mem_of_find?_eq_some hfind, ?_, of_decide_eq_true hfit⟩
  split at hcall
  · exact nomatch hcall
  split at hcall
  · refine (congrArg Prod.fst (Option.some.inj hcall)).symm.trans ?_
    by_cases hi : m.links.next .mholeList = i
    · simp [Mem.alignBase, newMhole, hi]
    · simp [Mem.alignBase, newMhole, hi]
  · refine (congrArg Prod.fst (Option.some.inj hcall)).symm.trans ?_
    simp [Mem.alignBase]

theorem HeapInv.usedCheck_free (hm : HeapInv m R fs us hs) {i : Hole} (hfree : i ∈ fs) :
    usedCheck m i = false := by
  by_cases hsome : ∃ a, R a
  · exact hm.usedCheck_eq_false hfree (hm.freePositive hsome i hfree)
  · -- In an empty pool nothing is in use.
    rw [usedCheck, hm.useList_eq, List.any_eq_false]
    intro u hu
    exact absurd (hm.exists_of_used hu) hsome

theorem HeapInv.aalloc_returns (hm : HeapInv m R fs us hs) :
    ∃ out, KernelHeap.aalloc m size alignBit = some out := by
  unfold KernelHeap.aalloc
  split
  · exact ⟨_, rfl⟩
  dsimp only
  split
  · exact ⟨_, rfl⟩
  rename_i i hfind
  have hfree : i ∈ fs := hm.freeList_eq ▸ List.mem_of_find?_eq_some hfind
  simp only [hm.usedCheck_free hfree, Bool.false_eq_true, if_false]
  split
  · exact ⟨_, rfl⟩
  · exact ⟨_, rfl⟩

/-- In a heap whose regions tile the pool, a call that does not wrap gives out bytes of one free hole,
starting at a multiple of the alignment, and nothing if no hole can hold them. -/
theorem HeapInv.aalloc_placed (hm : HeapInv m R fs us hs) (hbit : alignBit ≤ 31)
    (hround : size.toNat + 2 ^ alignBit.toNat ≤ 2 ^ 32) {r : UInt32} {m' : Mem}
    (hcall : KernelHeap.aalloc m size alignBit = some (r, m')) :
    (r ≠ 0 → ∃ i ∈ m.freeList, Holds m i size alignBit.toNat r.toNat ∧
      ∀ a, r.toNat ≤ a → a < r.toNat + size.toNat → ∀ u ∈ m.useList, ¬ Covers m a u) ∧
    ((∀ i ∈ m.freeList, ∀ p, ¬ Holds m i size alignBit.toNat p) → r = 0) := by
  have hplaced : r ≠ 0 → ∃ i ∈ m.freeList, Holds m i size alignBit.toNat r.toNat := by
    intro hr
    obtain ⟨i, hi, hres, hfit⟩ := aalloc_result hcall hr
    have hbit' : alignBit.toNat < 32 := Nat.lt_succ_of_le (UInt8.le_iff_toNat_le.mp hbit)
    have hblock : ((1 : UInt32) <<< alignBit.toUInt32).toNat = 2 ^ alignBit.toNat := by
      rw [toNat_block, Nat.mod_eq_of_lt hbit']
    have hneed := toNat_allocSize (x := m.base i) hblock hround
    have hrnat := congrArg UInt32.toNat hres
    have hdvd := dvd_add_padding alignBit.toNat (m.base i).toNat
    rw [toNat_roundUp hblock] at hrnat
    rw [UInt32.le_iff_toNat_le, alignedNeed, hneed] at hfit
    have hle := add_padding_le_wrap hbit'.le (m.base i).toNat_lt
    have hne : r.toNat ≠ 0 := fun h => hr (UInt32.toNat_inj.mp h)
    have hr' : r.toNat = (m.base i).toNat + padding alignBit.toNat (m.base i).toNat := by omega
    exact ⟨i, hi, hr' ▸ hdvd, by omega, by omega⟩
  refine ⟨fun hr => ?_, fun hnone => ?_⟩
  · obtain ⟨i, hi, hholds⟩ := hplaced hr
    refine ⟨i, hi, hholds, fun a hle hlt u hu hcov => ?_⟩
    have hfree : Covers m a i := by
      obtain ⟨-, hbase, htop⟩ := hholds
      exact ⟨hbase.trans hle, by omega⟩
    exact ((hm.freeByte_iff).mp ⟨i, hi, hfree⟩).2 u (hm.useList_eq ▸ hu) hcov
  · by_contra hr
    obtain ⟨i, hi, hholds⟩ := hplaced hr
    exact hnone i hi _ hholds

end Aligned

/-- After every run whose calls meet the conditions, an aligned request that does not wrap returns.
If it gives out memory, this is aligned, part of one free hole and of nothing in use; if no free hole
can hold the rounded size, it gives out none. -/
theorem heap_run_aligned (m₀ : Mem) (base size : UInt32) (hbase : 0 < base)
    (hwrap : base.toNat + size.toNat ≤ 2 ^ 32) (ops : List HeapOp)
    (hops : Along heapStep (fun m op => Legal m op ∧ Careful m op) (initMemCore m₀ base size) ops)
    (n : UInt32) (alignBit : UInt8) (hbit : alignBit ≤ 31)
    (hround : n.toNat + 2 ^ alignBit.toNat ≤ 2 ^ 32) :
    ∃ m r m', run heapStep (initMemCore m₀ base size) ops = some m ∧
      aalloc m n alignBit = some (r, m') ∧
      (r ≠ 0 → ∃ i ∈ m.freeList, Holds m i n alignBit.toNat r.toNat ∧
        ∀ a, r.toNat ≤ a → a < r.toNat + n.toNat → ∀ u ∈ m.useList, ¬ Covers m a u) ∧
      ((∀ i ∈ m.freeList, ∀ p, ¬ Holds m i n alignBit.toNat p) → r = 0) := by
  obtain ⟨m, hrun, fs, us, hs, hm⟩ := run_invariant
    (fun m op hm hop => heapStep_inv hm hop.1 hop.2) ops _
    ⟨_, _, _, heapInv_initMemCore m₀ hbase hwrap⟩ hops
  obtain ⟨⟨r, m'⟩, hcall⟩ : ∃ out, aalloc m n alignBit = some out := hm.aalloc_returns
  exact ⟨m, r, m', hrun, hcall, hm.aalloc_placed hbit hround hcall⟩

/-- A page is requested after a block of 100 bytes. -/
theorem heap_run_aligned_page :
    ∃ m r m', run heapStep (initMemCore blankMem 0x1000 0x4000) [.kalloc 100] = some m ∧
      aalloc m 0x1000 12 = some (r, m') ∧
      (r ≠ 0 → ∃ i ∈ m.freeList, Holds m i 0x1000 12 r.toNat) := by
  obtain ⟨m, r, m', hrun, hcall, hplaced, -⟩ := heap_run_aligned blankMem 0x1000 0x4000 (by decide)
    (by decide) [.kalloc 100] (by decide +kernel) 0x1000 12 (by decide) (by decide)
  refine ⟨m, r, m', hrun, hcall, fun hr => ?_⟩
  obtain ⟨i, hi, hholds, -⟩ := hplaced hr
  exact ⟨i, hi, hholds⟩

/-- A size that wraps to zero when it is rounded up is given memory that cannot hold it, and with an
alignment of 32 bits memory is given out that is not aligned. -/
theorem aalloc_of_impossible :
    (∃ m', aalloc (initMemCore blankMem 0x1000 0x4000) 0xffffff01 8 = some (0x1000, m')) ∧
      (0x1000 : UInt32).toNat + (0xffffff01 : UInt32).toNat > 2 ^ 32 ∧
      (∃ m', aalloc (initMemCore blankMem 0x1000 0x4000) 16 32 = some (0x1000, m')) ∧
      ¬ 2 ^ 32 ∣ (0x1000 : UInt32).toNat :=
  ⟨⟨_, rfl⟩, by decide, ⟨_, rfl⟩, by decide⟩

end Sodex.KernelHeap
