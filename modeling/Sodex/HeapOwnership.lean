import Sodex.HeapCalls

/-!
# A free call releases the block of its pointer

The heap is run together with a ledger of the pointers that callers hold. A
pointer enters the ledger when an allocator returns it, with the descriptor at
the head of `muse_list` and its record, and leaves it when it is passed to the
free function of its allocator.

`afree` looks a pointer up by `align_base`, which nothing resets. So it needs,
besides a free hole above the block, that no other region in use carries the
same `align_base`.
-/
namespace Sodex.KernelHeap

open LinkRing Runs List Option

/-- A pointer held by a caller, with the region recorded when it was handed out. -/
structure Block where
  ptr : UInt32
  aligned : Bool
  node : Hole
  base : UInt32
  size : UInt32
  deriving DecidableEq, Repr

/-- The heap and the pointers handed out and not yet freed. -/
structure Owned where
  mem : Mem
  live : List Block

/-- The entry for a pointer that was just returned. -/
def newBlock (m : Mem) (ptr : UInt32) (aligned : Bool) : Block :=
  let u := m.links.next .museList
  ⟨ptr, aligned, u, m.base u, m.size u⟩

/-- Record the result of an allocator; zero is `NULL`. -/
def Owned.grant (s : Owned) (aligned : Bool) (out : UInt32 × Mem) : Owned where
  mem := out.2
  live := if out.1 = 0 then s.live else newBlock out.2 out.1 aligned :: s.live

/-- Drop the entry of a pointer that was passed to a free function. -/
def Owned.giveUp (s : Owned) (aligned : Bool) (ptr : UInt32) (m : Mem) : Owned where
  mem := m
  live := s.live.filter fun b => ¬ (b.ptr = ptr ∧ b.aligned = aligned)

/-- A call on the heap, with its effect on the ledger. -/
def ownStep (s : Owned) : HeapOp → Option Owned
  | .kalloc size => (kalloc s.mem size).map (s.grant false)
  | .aalloc size alignBit => (aalloc s.mem size alignBit).map (s.grant true)
  | .kfree ptr => some (s.giveUp false ptr (kfree s.mem ptr).2)
  | .afree ptr => some (s.giveUp true ptr (afree s.mem ptr).2)

/-- No region in use other than `d` carries the aligned base `ptr`. -/
def OnlyAligned (m : Mem) (ptr : UInt32) (d : Hole) : Prop :=
  ∀ u ∈ m.useList, m.alignBase u = ptr → u = d

instance (m : Mem) (ptr : UInt32) (d : Hole) : Decidable (OnlyAligned m ptr d) :=
  inferInstanceAs (Decidable (∀ u ∈ m.useList, m.alignBase u = ptr → u = d))

/-- A free call that finds a region is passed a pointer the caller holds from the
matching allocator, the region lies below some free hole, and for `afree` no
other region in use has the same aligned base. -/
def Rightful (s : Owned) : HeapOp → Prop
  | .kalloc _ => True
  | .aalloc size alignBit => RoundsWithin size alignBit
  | .kfree ptr => ∀ d ∈ searchUsedMhole s.mem ptr,
      HasHoleAbove s.mem d ∧ ∃ b ∈ s.live, b.ptr = ptr ∧ b.aligned = false
  | .afree ptr => ∀ d ∈ searchUsedAlignMhole s.mem ptr,
      HasHoleAbove s.mem d ∧ (∃ b ∈ s.live, b.ptr = ptr ∧ b.aligned = true) ∧
        OnlyAligned s.mem ptr d

instance (s : Owned) : DecidablePred (Rightful s)
  | .kalloc _ => inferInstanceAs (Decidable True)
  | .aalloc size alignBit => inferInstanceAs (Decidable (RoundsWithin size alignBit))
  | .kfree ptr => inferInstanceAs (Decidable (∀ d ∈ searchUsedMhole s.mem ptr, _ ∧ _))
  | .afree ptr => inferInstanceAs (Decidable (∀ d ∈ searchUsedAlignMhole s.mem ptr, _ ∧ _ ∧ _))

/-- The descriptor of a ledger entry is in use and still holds what was recorded. -/
structure Block.Kept (b : Block) (m : Mem) : Prop where
  used : b.node ∈ m.useList
  base : m.base b.node = b.base
  size : m.size b.node = b.size

/-- The ledger agrees with the heap: every entry is kept, its pointer is the field
its free function searches, and no two entries share a descriptor. -/
structure OwnInv (s : Owned) (R : ℕ → Prop) [DecidablePred R] : Prop where
  heap : ∃ fs us hs, HeapInv s.mem R fs us hs
  kept : ∀ b ∈ s.live, b.Kept s.mem
  lookup : ∀ b ∈ s.live, b.ptr = if b.aligned then s.mem.alignBase b.node else s.mem.base b.node
  nodup : (s.live.map Block.node).Nodup

section Steps

variable {s : Owned} {m : Mem} {R : ℕ → Prop} [DecidablePred R] {fs us hs : List Hole} {b b' : Block}
  {d u : Hole}
  {ptr r : UInt32}

theorem Block.Kept.congr (hb : b.Kept m) {m' : Mem} (hu : b.node ∈ m'.useList)
    (hsame : m'.hole b.node = m.hole b.node) : b.Kept m' :=
  ⟨hu, by rw [← hb.base, Mem.base, Mem.base, hsame], by rw [← hb.size, Mem.size, Mem.size, hsame]⟩

/-- The region in use with a given base is unique. -/
theorem HeapInv.searchUsedMhole_eq (hm : HeapInv m R fs us hs) (hu : u ∈ us) :
    searchUsedMhole m (m.base u) = some u := by
  have hsome : (us.find? fun p => m.base p = m.base u).isSome := by
    rw [find?_isSome]
    exact ⟨u, hu, by simp⟩
  obtain ⟨d, hd⟩ := isSome_iff_exists.mp hsome
  have hdu : d ∈ us := mem_of_find?_eq_some hd
  have hbase : m.base d = m.base u := by simpa using find?_some hd
  have hdpos := hm.usedPositive d hdu
  have hupos := hm.usedPositive u hu
  have heq : d = u := hm.eq_of_covers (mem_append_right _ hdu)
    (mem_append_right _ hu) ⟨by rw [hbase], by rw [hbase]; omega⟩ ⟨le_rfl, by omega⟩
  rw [searchUsedMhole, hm.useList_eq, hd, heq]

/-- With a single region of that aligned base, `afree` finds it. -/
theorem searchUsedAlignMhole_eq (hu : u ∈ m.useList) (honly : OnlyAligned m (m.alignBase u) u) :
    searchUsedAlignMhole m (m.alignBase u) = some u := by
  have hsome : (m.useList.find? fun p => m.alignBase p = m.alignBase u).isSome := by
    rw [find?_isSome]
    exact ⟨u, hu, by simp⟩
  obtain ⟨d, hd⟩ := isSome_iff_exists.mp hsome
  have heq := honly d (mem_of_find?_eq_some hd) (by simpa using find?_some hd)
  rw [searchUsedAlignMhole, hd, heq]

/-- A new region in use at the head of the list, handed out as `r`. -/
theorem OwnInv.grant {fs' hs' : List Hole} {aligned : Bool} (hs : OwnInv s R)
    (huse : s.mem.useList = us) (hm : HeapInv m R fs' (u :: us) hs')
    (hsame : ∀ v ∈ us, m.hole v = s.mem.hole v)
    (hr : r = if aligned then m.alignBase u else m.base u) :
    OwnInv (s.grant aligned (r, m)) R := by
  have hnd : (u :: us).Nodup := (nodup_cons.mp hm.used.nodup).2
  have hhead : m.links.next .museList = u := hm.used.next_head
  -- The entries held before are kept: their descriptors stay in use, unwritten.
  have hkept : ∀ b ∈ s.live, b.node ∈ us ∧ m.hole b.node = s.mem.hole b.node := by
    intro b hb
    have hmem := huse ▸ (hs.kept b hb).used
    exact ⟨hmem, hsame _ hmem⟩
  have hold : ∀ b ∈ s.live, b.Kept m ∧
      b.ptr = if b.aligned then m.alignBase b.node else m.base b.node := by
    intro b hb
    obtain ⟨hmem, heq⟩ := hkept b hb
    refine ⟨(hs.kept b hb).congr (by rw [hm.useList_eq]; exact mem_cons_of_mem _ hmem) heq, ?_⟩
    rw [hs.lookup b hb, Mem.alignBase, Mem.alignBase, Mem.base, Mem.base, heq]
  by_cases hzero : r = 0
  · have hlive : (s.grant aligned (r, m)).live = s.live := if_pos hzero
    exact ⟨⟨_, _, _, hm⟩, fun b hb => (hold b (hlive ▸ hb)).1, fun b hb => (hold b (hlive ▸ hb)).2,
      hlive ▸ hs.nodup⟩
  · have hlive : (s.grant aligned (r, m)).live = newBlock m r aligned :: s.live := if_neg hzero
    have hnode : (newBlock m r aligned).node = u := hhead
    refine ⟨⟨_, _, _, hm⟩, ?_, ?_, ?_⟩
    · rw [hlive, forall_mem_cons]
      refine ⟨⟨?_, rfl, rfl⟩, fun b hb => (hold b hb).1⟩
      rw [hnode]
      show u ∈ m.useList
      rw [hm.useList_eq]
      exact mem_cons_self
    · rw [hlive, forall_mem_cons]
      refine ⟨?_, fun b hb => (hold b hb).2⟩
      rw [hnode]
      exact hr
    · rw [hlive, map_cons, nodup_cons, hnode]
      refine ⟨fun hin => ?_, hs.nodup⟩
      obtain ⟨b, hb, rfl⟩ := mem_map.mp hin
      exact (nodup_cons.mp hnd).1 (hkept b hb).1

/-- Entries other than the freed one are kept when its descriptor is released. -/
theorem OwnInv.kept_of_released (hs : OwnInv s R) (hrel : Released s.mem m R b.node)
    (hb : b ∈ s.live) (hb' : b' ∈ s.live) (hne : b' ≠ b) :
    b'.Kept m ∧ b'.ptr = if b'.aligned then m.alignBase b'.node else m.base b'.node := by
  have hnode : b'.node ≠ b.node := fun h => hne (inj_on_of_nodup_map hs.nodup hb' hb h)
  obtain ⟨fs, hs', hm⟩ := hrel.inv
  have hmem : b'.node ∈ s.mem.useList.erase b.node :=
    (mem_erase_of_ne hnode).mpr (hs.kept b' hb').used
  have heq := hrel.frame _ hmem
  refine ⟨(hs.kept b' hb').congr (by rw [hm.useList_eq]; exact hmem) heq, ?_⟩
  rw [hs.lookup b' hb', Mem.alignBase, Mem.alignBase, Mem.base, Mem.base, heq]

/-- Releasing the block of a held pointer. -/
theorem OwnInv.giveUp (hs : OwnInv s R) (hb : b ∈ s.live)
    (hrel : Released s.mem m R b.node) : OwnInv (s.giveUp b.aligned b.ptr m) R := by
  have hother : ∀ b' ∈ (s.giveUp b.aligned b.ptr m).live, b' ∈ s.live ∧ b' ≠ b := by
    intro b' hb'
    obtain ⟨hmem, hne⟩ := mem_filter.mp hb'
    exact ⟨hmem, by rintro rfl; simp at hne⟩
  obtain ⟨fs, hs', hm⟩ := hrel.inv
  refine ⟨⟨_, _, _, hm⟩, fun b' hb' => ?_, fun b' hb' => ?_, ?_⟩
  · exact (hs.kept_of_released hrel hb (hother b' hb').1 (hother b' hb').2).1
  · exact (hs.kept_of_released hrel hb (hother b' hb').1 (hother b' hb').2).2
  · exact hs.nodup.sublist (filter_sublist.map _)

/-- Giving up a pointer that the heap does not know. -/
theorem OwnInv.giveUp_unknown {aligned : Bool} (hs : OwnInv s R) :
    OwnInv (s.giveUp aligned ptr s.mem) R :=
  ⟨hs.heap, fun b hb => hs.kept b (mem_of_mem_filter hb),
    fun b hb => hs.lookup b (mem_of_mem_filter hb), hs.nodup.sublist (filter_sublist.map _)⟩

/-- What freeing a held pointer does, for both free functions. -/
def FreesBlock (s : Owned) (b : Block) (out : FreeStatus × Mem) : Prop :=
  out.1 = .ok ∧
  (∀ a, FreeByte out.2 a ↔ FreeByte s.mem a ∨
    (b.base.toNat ≤ a ∧ a < b.base.toNat + b.size.toNat)) ∧
  out.2.useList = s.mem.useList.erase b.node ∧
  ∀ b' ∈ s.live, b' ≠ b → b'.Kept s.mem ∧ b'.Kept out.2

/-- The call that frees a held pointer. -/
def freeBlock (m : Mem) (b : Block) : FreeStatus × Mem :=
  if b.aligned then afree m b.ptr else kfree m b.ptr

/-- A held pointer is found at its own descriptor. -/
theorem OwnInv.freeBlock_eq (hs : OwnInv s R) (hb : b ∈ s.live)
    (honly : b.aligned = true → OnlyAligned s.mem b.ptr b.node) :
    freeBlock s.mem b = freeFound s.mem (some b.node) := by
  obtain ⟨fs, us, hs', hm⟩ := hs.heap
  have hlook := hs.lookup b hb
  have hused := (hs.kept b hb).used
  cases halign : b.aligned with
  | false =>
    rw [halign] at hlook
    rw [freeBlock, halign, if_neg Bool.false_ne_true, kfree, hlook, if_neg Bool.false_ne_true,
      hm.searchUsedMhole_eq (hm.useList_eq ▸ hused)]
  | true =>
    rw [halign, if_pos rfl] at hlook
    have honly := honly halign
    rw [hlook] at honly
    rw [freeBlock, halign, if_pos rfl, afree, hlook, searchUsedAlignMhole_eq hused honly]

/-- Freeing a held pointer below a free hole releases its region and no other. -/
theorem OwnInv.freesBlock (hs : OwnInv s R) (hb : b ∈ s.live) (habove : HasHoleAbove s.mem b.node)
    (honly : b.aligned = true → OnlyAligned s.mem b.ptr b.node) :
    Released s.mem (freeBlock s.mem b).2 R b.node ∧ FreesBlock s b (freeBlock s.mem b) := by
  obtain ⟨fs, us, hs', hm⟩ := hs.heap
  have hkept := hs.kept b hb
  have hused : b.node ∈ us := hm.useList_eq ▸ hkept.used
  rw [hs.freeBlock_eq hb honly]
  obtain ⟨hok, hrel⟩ := hm.freeFound hused habove
  refine ⟨hrel, hok, fun a => ?_, ?_, fun b' hb' hne => ?_⟩
  · rw [hrel.freed a, Covers, hkept.base, hkept.size]
  · obtain ⟨fs', hs'', hm'⟩ := hrel.inv
    exact hm'.useList_eq
  · exact ⟨hs.kept b' hb', (hs.kept_of_released hrel hb hb' hne).1⟩

/-- A call inside the conditions returns and keeps ledger and heap in agreement. -/
theorem ownStep_inv {op : HeapOp} (hs : OwnInv s R) (hlegal : Legal s.mem op)
    (hright : Rightful s op) : ∃ s', ownStep s op = some s' ∧ OwnInv s' R := by
  obtain ⟨fs, us, hs', hm⟩ := hs.heap
  cases op with
  | kalloc size =>
    obtain ⟨r, m', hcall, hout⟩ := hm.kalloc (UInt32.lt_iff_toNat_lt.mp hlegal.1) hlegal.2
    refine ⟨s.grant false (r, m'), by simp only [ownStep, hcall, map_some], ?_⟩
    rcases hout with ⟨rfl, rfl⟩ | ⟨u, fs', hs'', hm', hr, hsame⟩
    · exact hs
    · exact hs.grant hm.useList_eq hm' hsame hr
  | aalloc size alignBit =>
    obtain ⟨r, m', hcall, hout⟩ := hm.aalloc (UInt32.lt_iff_toNat_lt.mp hlegal.1) hright hlegal.2
    refine ⟨s.grant true (r, m'), by simp only [ownStep, hcall, map_some], ?_⟩
    rcases hout with ⟨rfl, rfl⟩ | ⟨u, fs', hs'', hm', hr, hsame⟩
    · exact hs
    · exact hs.grant hm.useList_eq hm' hsame hr
  | kfree ptr =>
    refine ⟨_, rfl, ?_⟩
    cases hfind : searchUsedMhole s.mem ptr with
    | none =>
      rw [kfree, hfind]
      exact hs.giveUp_unknown
    | some d =>
      obtain ⟨habove, b, hb, rfl, halign⟩ := hright d hfind
      have hkfree : kfree s.mem b.ptr = freeBlock s.mem b := by rw [freeBlock, halign]; rfl
      have hd : b.node = d := by
        have hlook := hs.lookup b hb
        rw [halign] at hlook
        rw [hlook, if_neg Bool.false_ne_true,
          hm.searchUsedMhole_eq (hm.useList_eq ▸ (hs.kept b hb).used)] at hfind
        exact some.inj hfind
      rw [hkfree, ← halign]
      exact hs.giveUp hb (hs.freesBlock hb (hd ▸ habove) (by simp [halign])).1
  | afree ptr =>
    refine ⟨_, rfl, ?_⟩
    cases hfind : searchUsedAlignMhole s.mem ptr with
    | none =>
      rw [afree, hfind]
      exact hs.giveUp_unknown
    | some d =>
      obtain ⟨habove, ⟨b, hb, rfl, halign⟩, honly⟩ := hright d hfind
      have hafree : afree s.mem b.ptr = freeBlock s.mem b := by rw [freeBlock, halign]; rfl
      have hd : b.node = d := by
        have hlook := hs.lookup b hb
        rw [halign, if_pos rfl] at hlook
        exact honly b.node (hs.kept b hb).used hlook.symm
      subst hd
      rw [hafree, ← halign]
      exact hs.giveUp hb (hs.freesBlock hb habove fun _ => honly).1

theorem ownInv_run (m₀ : Mem) {base size : UInt32} (hbase : 0 < base)
    (hwrap : base.toNat + size.toNat ≤ 2 ^ 32) {ops : List HeapOp}
    (hops : Along ownStep (fun s op => Legal s.mem op ∧ Rightful s op)
      ⟨initMemCore m₀ base size, []⟩ ops) :
    ∃ s, run ownStep ⟨initMemCore m₀ base size, []⟩ ops = some s ∧
      OwnInv s (Between base.toNat (base.toNat + size.toNat)) :=
  run_invariant (fun _ _ hs hop => ownStep_inv hs hop.1 hop.2) ops _
    ⟨⟨_, _, _, heapInv_initMemCore m₀ hbase hwrap⟩, by simp, by simp, by simp⟩ hops

/-- Along every run whose calls meet the conditions, freeing any held pointer whose
block lies below a free hole, and whose aligned base is shared by no other region
in use if it came from `aalloc`, succeeds, makes exactly the recorded bytes free,
takes exactly its descriptor off `muse_list`, and keeps every other record. -/
theorem held_pointer_frees_own_block (m₀ : Mem) (base size : UInt32) (hbase : 0 < base)
    (hwrap : base.toNat + size.toNat ≤ 2 ^ 32) (ops : List HeapOp)
    (hops : Along ownStep (fun s op => Legal s.mem op ∧ Rightful s op)
      ⟨initMemCore m₀ base size, []⟩ ops) :
    ∃ s, run ownStep ⟨initMemCore m₀ base size, []⟩ ops = some s ∧
      ∀ b ∈ s.live, HasHoleAbove s.mem b.node →
        (b.aligned = true → OnlyAligned s.mem b.ptr b.node) →
        FreesBlock s b (freeBlock s.mem b) := by
  obtain ⟨s, hrun, hs⟩ := ownInv_run m₀ hbase hwrap hops
  exact ⟨s, hrun, fun b hb habove honly => (hs.freesBlock hb habove honly).2⟩

/-- Calls after which the pointer `0x1100` of `aalloc` is held. -/
def alignedRun : List HeapOp := [.kalloc 0xf0, .aalloc 0x100 8, .kfree 0x1010, .kalloc 0x20]

theorem held_pointer_frees_own_block_aligned :
    ∃ s, run ownStep ⟨initMemCore blankMem 0x1010 0x4000, []⟩ alignedRun = some s ∧
      ⟨0x1100, true, .memhole 2, 0x1100, 0x100⟩ ∈ s.live ∧
      FreesBlock s ⟨0x1100, true, .memhole 2, 0x1100, 0x100⟩ (afree s.mem 0x1100) := by
  obtain ⟨s, hrun, hs⟩ := held_pointer_frees_own_block blankMem 0x1010 0x4000 (by decide)
    (by decide) alignedRun (by decide +kernel)
  have hfacts : ∀ s ∈ run ownStep ⟨initMemCore blankMem 0x1010 0x4000, []⟩ alignedRun,
      ⟨0x1100, true, .memhole 2, 0x1100, 0x100⟩ ∈ s.live ∧ HasHoleAbove s.mem (.memhole 2) ∧
      OnlyAligned s.mem 0x1100 (.memhole 2) := by decide +kernel
  obtain ⟨hb, habove, honly⟩ := hfacts s hrun
  exact ⟨s, hrun, hb, hs _ hb habove fun _ => honly⟩

/-- A block of `aalloc` is freed and merged on both sides, so its descriptor becomes
spare with its `align_base`. The next `aalloc` returns the same address in another
descriptor, and the next `kalloc` takes the old one. -/
def staleRun : List HeapOp :=
  [.kalloc 0xf0, .aalloc 0x100 8, .kfree 0x1010, .afree 0x1100, .aalloc 0x100 8, .kalloc 0x20]

/-- `afree` of the held pointer `0x1100` then releases the block of the `kalloc`
pointer `0x1200` and leaves its own block in use. -/
theorem afree_releases_stale_block : Along ownStep (fun s op => Legal s.mem op ∧ Rightful s op)
      ⟨initMemCore blankMem 0x1010 0x4000, []⟩ staleRun ∧
    ∃ s ∈ run ownStep ⟨initMemCore blankMem 0x1010 0x4000, []⟩ staleRun,
      s.live = [⟨0x1200, false, .memhole 2, 0x1200, 0x20⟩,
        ⟨0x1100, true, .memhole 0, 0x1010, 0x1f0⟩] ∧
      HasHoleAbove s.mem (.memhole 0) ∧ (afree s.mem 0x1100).1 = .ok ∧
      (afree s.mem 0x1100).2.useList = [.memhole 0] ∧
      FreeByte (afree s.mem 0x1100).2 0x1200 ∧ ¬ FreeByte (afree s.mem 0x1100).2 0x1100 := by
  decide +kernel

end Steps

/-- The byte at `a` belongs to the block. -/
def Block.Holds (b : Block) (a : ℕ) : Prop :=
  b.base.toNat ≤ a ∧ a < b.base.toNat + b.size.toNat

/-- Along every run whose calls meet the conditions, no two callers hold the same byte, and what
they hold is in the pool and not free. -/
theorem held_blocks_apart (m₀ : Mem) (base size : UInt32) (hbase : 0 < base)
    (hwrap : base.toNat + size.toNat ≤ 2 ^ 32) (ops : List HeapOp)
    (hops : Along ownStep (fun s op => Legal s.mem op ∧ Rightful s op)
      ⟨initMemCore m₀ base size, []⟩ ops) :
    ∃ s, run ownStep ⟨initMemCore m₀ base size, []⟩ ops = some s ∧
      s.live.Pairwise (fun b b' => ∀ a, ¬ (b.Holds a ∧ b'.Holds a)) ∧
      ∀ b ∈ s.live, ∀ a, b.Holds a →
        Between base.toNat (base.toNat + size.toNat) a ∧ ¬ FreeByte s.mem a := by
  obtain ⟨s, hrun, hs⟩ := ownInv_run m₀ hbase hwrap hops
  obtain ⟨fs, us, hs', hm⟩ := hs.heap
  have hcovers : ∀ b ∈ s.live, ∀ a, b.Holds a → b.node ∈ us ∧ Covers s.mem a b.node := by
    intro b hb a ha
    obtain ⟨hused, hbase, hsize⟩ := hs.kept b hb
    exact ⟨hm.useList_eq ▸ hused, by rw [Covers, hbase, hsize]; exact ha⟩
  refine ⟨s, hrun, ?_, fun b hb a ha => ?_⟩
  · refine (pairwise_map.mp hs.nodup).imp_of_mem fun hb hb' hne a ha => ?_
    obtain ⟨hu, hua⟩ := hcovers _ hb a ha.1
    obtain ⟨hu', hua'⟩ := hcovers _ hb' a ha.2
    exact hne (hm.eq_of_covers (mem_append_right _ hu) (mem_append_right _ hu') hua hua')
  · obtain ⟨hu, hua⟩ := hcovers b hb a ha
    refine ⟨hm.bounds (mem_append_right _ hu) hua, fun hfree => ?_⟩
    exact (hm.freeByte_iff.mp hfree).2 _ hu hua

theorem held_blocks_apart_aligned :
    ∃ s, run ownStep ⟨initMemCore blankMem 0x1010 0x4000, []⟩ alignedRun = some s ∧
      s.live.Pairwise fun b b' => ∀ a, ¬ (b.Holds a ∧ b'.Holds a) := by
  obtain ⟨s, hrun, hs, -⟩ := held_blocks_apart blankMem 0x1010 0x4000 (by decide)
    (by decide) alignedRun (by decide +kernel)
  exact ⟨s, hrun, hs⟩

end Sodex.KernelHeap
