import Mathlib.Algebra.Group.Nat.Defs
import Mathlib.Order.CompletePartialOrder
import Mathlib.Order.Interval.Set.Disjoint

/-!
# The layout of physical memory

`memory_info_from_boot_raw` and `memory_layout_build`: whatever the boot loader reports, memory is
taken to end at a multiple of 4 MB between 768 MB and 1 GB. The kernel heap starts behind the kernel
image and ends where the process pool may start; the pool is the largest usable part of the rest.
-/
namespace Sodex.Layout

def BLOCK_SIZE : ℕ := 4096
def PAGE_OFFSET : ℕ := 0xC0000000
def BOOT_E820_MAX_ENTRIES : ℕ := 32
def LOW_RESERVED_BYTES : ℕ := 0x00100000
def DEFAULT_RAM_BYTES : ℕ := 0x30000000
def MAX_RAM_BYTES : ℕ := 0x40000000
def MIN_POOL_BASE : ℕ := 0x02000000
def PDE_BYTES : ℕ := 0x00400000
def KERNEL_PDE_BASE : ℕ := 768
def E820_TYPE_USABLE : UInt32 := 1

structure E820Entry where
  baseLow : UInt32
  baseHigh : UInt32
  lengthLow : UInt32
  lengthHigh : UInt32
  type : UInt32

/-- `boot_memory_info_t` as far as the layout depends on it. -/
structure BootMemoryInfo where
  detectedRamMb : UInt16
  e820EntryCount : UInt16
  e820Entries : ℕ → E820Entry

structure MemoryRange where
  base : ℕ
  size : ℕ
  deriving DecidableEq, Repr

/-- `memory_info_t` as far as the layout depends on it. -/
structure MemoryInfo where
  detectedRamBytes : ℕ
  usableRanges : List MemoryRange

structure MemoryLayoutPolicy where
  configuredCapBytes : ℕ
  effectiveRamBytes : ℕ
  directMapBytes : ℕ
  kernelPdeEnd : ℕ
  kernelHeap : MemoryRange
  processPool : MemoryRange
  deriving DecidableEq, Repr

/-- `align_down`; every alignment is a power of two. -/
def alignDown (value align : ℕ) : ℕ := value / align * align

def alignUp (value align : ℕ) : ℕ :=
  if value % align = 0 then value else (alignDown value align + align) % 2 ^ 32

def appendRange (ranges : List MemoryRange) (range : MemoryRange) : List MemoryRange :=
  if range.size = 0 ∨ BOOT_E820_MAX_ENTRIES ≤ ranges.length then ranges else ranges ++ [range]

def bootDetectedBytes (boot : BootMemoryInfo) : ℕ :=
  max (boot.detectedRamMb.toNat * 1024 * 1024 % 2 ^ 32) DEFAULT_RAM_BYTES

def sanitizeDetectedBytes (detected : ℕ) : ℕ :=
  max (alignDown (min detected MAX_RAM_BYTES) PDE_BYTES) DEFAULT_RAM_BYTES

/-- A turn of the loop over the entries, with the usable ranges and the highest end so far. -/
def readEntry (found : List MemoryRange × ℕ) (entry : E820Entry) : List MemoryRange × ℕ :=
  let base := entry.baseLow.toNat
  let size := entry.lengthLow.toNat
  let stop := (base + size) % 2 ^ 32
  if size = 0 ∨ entry.baseHigh ≠ 0 ∨ entry.lengthHigh ≠ 0 ∨ stop < base then found
  else if entry.type = E820_TYPE_USABLE then
    (appendRange found.1 ⟨base, size⟩, max stop found.2)
  else found

def memoryInfoFromBootRaw (boot : BootMemoryInfo) : MemoryInfo :=
  let count := min boot.e820EntryCount.toNat BOOT_E820_MAX_ENTRIES
  let (usable, highest) := ((List.range count).map boot.e820Entries).foldl readEntry ([], 0)
  if usable ≠ [] then ⟨sanitizeDetectedBytes highest, usable⟩
  else
    let detected := sanitizeDetectedBytes (bootDetectedBytes boot)
    ⟨detected, if LOW_RESERVED_BYTES < detected then
      appendRange [] ⟨LOW_RESERVED_BYTES, detected - LOW_RESERVED_BYTES⟩ else []⟩

/-- A turn of the loop of `select_process_pool`. -/
def selectStep (start stop : ℕ) (best range : MemoryRange) : MemoryRange :=
  let clippedBase := max range.base start
  let clippedEnd := min ((range.base + range.size) % 2 ^ 32) stop
  if clippedEnd ≤ clippedBase then best
  else if best.size < clippedEnd - clippedBase then ⟨clippedBase, clippedEnd - clippedBase⟩
  else best

def selectProcessPool (ranges : List MemoryRange) (start stop : ℕ) : MemoryRange :=
  if stop ≤ start then ⟨start, 0⟩
  else
    let best := ranges.foldl (selectStep start stop) ⟨start, 0⟩
    if best.size = 0 then ⟨start, stop - start⟩ else best

/-- `process_pool_base` of `memory_layout_build`. -/
def processPoolBase (effective heapBase : ℕ) : ℕ :=
  let reserved := alignUp (max MIN_POOL_BASE (effective / 8)) PDE_BYTES
  let base := min reserved effective
  min (if base < heapBase then alignUp heapBase PDE_BYTES else base) effective

/-- `effective_bytes` of `memory_layout_build`, with a cap of zero for none. -/
def effectiveBytes (detected cap : ℕ) : ℕ := if cap ≠ 0 then min detected cap else detected

def memoryLayoutBuild (info : MemoryInfo) (kernelEnd cap : ℕ) : MemoryLayoutPolicy :=
  let cap := if cap ≠ 0 then sanitizeDetectedBytes cap else 0
  let effective := effectiveBytes (sanitizeDetectedBytes info.detectedRamBytes) cap
  let heapBase := alignUp kernelEnd BLOCK_SIZE
  let poolBase := processPoolBase effective heapBase
  { configuredCapBytes := cap
    effectiveRamBytes := effective
    directMapBytes := effective
    kernelPdeEnd := KERNEL_PDE_BASE + effective / PDE_BYTES
    kernelHeap := ⟨(PAGE_OFFSET + heapBase) % 2 ^ 32, poolBase - heapBase⟩
    processPool := selectProcessPool info.usableRanges poolBase effective }

theorem sanitizeDetectedBytes_le (detected : ℕ) :
    sanitizeDetectedBytes detected ≤ MAX_RAM_BYTES := by
  unfold sanitizeDetectedBytes alignDown DEFAULT_RAM_BYTES MAX_RAM_BYTES PDE_BYTES
  omega

theorem effectiveBytes_le (detected cap : ℕ) :
    effectiveBytes (sanitizeDetectedBytes detected) cap ≤ MAX_RAM_BYTES := by
  have hle := sanitizeDetectedBytes_le detected
  unfold effectiveBytes
  split
  · exact (min_le_left ..).trans hle
  · exact hle

def Unwrapped (ranges : List MemoryRange) : Prop := ∀ r ∈ ranges, r.base + r.size < 2 ^ 32

theorem Unwrapped.append {ranges : List MemoryRange} {range : MemoryRange}
    (h : Unwrapped ranges) (hrange : range.base + range.size < 2 ^ 32) :
    Unwrapped (appendRange ranges range) := by
  unfold appendRange
  split
  · exact h
  · intro r hr
    rcases List.mem_append.mp hr with hr | hr
    · exact h r hr
    · rwa [List.mem_singleton.mp hr]

theorem Unwrapped.readEntry {found : List MemoryRange × ℕ} (h : Unwrapped found.1)
    (entry : E820Entry) : Unwrapped (readEntry found entry).1 := by
  unfold Layout.readEntry
  dsimp only
  split
  · exact h
  · rename_i hskip
    split
    · have hbase := entry.baseLow.toNat_lt
      have hsize := entry.lengthLow.toNat_lt
      exact h.append (by dsimp only; omega)
    · exact h

theorem unwrapped_memoryInfoFromBootRaw (boot : BootMemoryInfo) :
    Unwrapped (memoryInfoFromBootRaw boot).usableRanges := by
  have hread : ∀ (entries : List E820Entry) (found : List MemoryRange × ℕ), Unwrapped found.1 →
      Unwrapped (entries.foldl readEntry found).1 := by
    intro entries
    induction entries with
    | nil => exact fun _ h => h
    | cons entry entries ih => exact fun _ h => ih _ (h.readEntry entry)
  have hnil : Unwrapped [] := nofun
  unfold memoryInfoFromBootRaw
  dsimp only
  split
  · exact hread _ _ hnil
  · have hle := sanitizeDetectedBytes_le (bootDetectedBytes boot)
    unfold MAX_RAM_BYTES at hle
    dsimp only
    split
    · exact hnil.append (by dsimp only; omega)
    · exact hnil

/-- The part of a range between two addresses. -/
def MemoryRange.clip (r : MemoryRange) (start stop : ℕ) : MemoryRange :=
  ⟨max r.base start, min (r.base + r.size) stop - max r.base start⟩

theorem selectStep_eq {r : MemoryRange} (h : r.base + r.size < 2 ^ 32) (start stop : ℕ)
    (best : MemoryRange) : selectStep start stop best r =
      if best.size < (r.clip start stop).size then r.clip start stop else best := by
  unfold selectStep MemoryRange.clip
  dsimp only
  rw [Nat.mod_eq_of_lt h]
  split
  · rw [if_neg (by omega)]
  · rfl

/-- The loop ends with the range it started with or a part of one, and no part is larger. -/
theorem foldl_selectStep {ranges : List MemoryRange} (h : Unwrapped ranges) (start stop : ℕ)
    (best : MemoryRange) :
    let last := ranges.foldl (selectStep start stop) best
    (last = best ∨ ∃ r ∈ ranges, last = r.clip start stop) ∧ best.size ≤ last.size ∧
      ∀ r ∈ ranges, (r.clip start stop).size ≤ last.size := by
  induction ranges generalizing best with
  | nil => exact ⟨.inl rfl, le_rfl, nofun⟩
  | cons r ranges ih =>
    obtain ⟨hr, hranges⟩ := List.forall_mem_cons.mp h
    obtain ⟨hlast, hbest, hall⟩ := ih hranges (selectStep start stop best r)
    rw [List.foldl_cons]
    generalize ranges.foldl _ _ = last at hlast hbest hall
    rw [selectStep_eq hr] at hlast hbest
    simp
    split at hlast
    · rename_i hless
      rw [if_pos hless] at hbest
      exact ⟨.inr hlast, by omega, hbest, hall⟩
    · rename_i hmore
      rw [if_neg hmore] at hbest
      exact ⟨hlast.imp_right .inr, hbest, by omega, hall⟩

def MemoryRange.stop (r : MemoryRange) : ℕ := r.base + r.size

/-- If a usable range meets the addresses, the pool is the largest part of one between them. -/
structure Largest (ranges : List MemoryRange) (start stop : ℕ) (pool : MemoryRange) : Prop where
  usable : (∃ r ∈ ranges, 0 < (r.clip start stop).size) →
    ∃ r ∈ ranges, pool = r.clip start stop ∧ r.base ≤ pool.base ∧ pool.stop ≤ r.stop
  size_le : ∀ r ∈ ranges, (r.clip start stop).size ≤ pool.size

theorem selectProcessPool_spec {ranges : List MemoryRange} (h : Unwrapped ranges) {start stop : ℕ}
    (hstop : start ≤ stop) :
    let pool := selectProcessPool ranges start stop
    start ≤ pool.base ∧ pool.stop ≤ stop ∧ Largest ranges start stop pool := by
  obtain ⟨hlast, -, hall⟩ := foldl_selectStep h start stop ⟨start, 0⟩
  have hclip : ∀ r : MemoryRange, (r.clip start stop).size ≤ stop - start := fun r => by
    rw [MemoryRange.clip]
    dsimp only
    omega
  unfold selectProcessPool
  split
  · have hnone : ∀ r : MemoryRange, (r.clip start stop).size ≤ 0 := fun r => by
      have := hclip r
      omega
    exact ⟨le_rfl, hstop, fun ⟨r, _, hr⟩ => absurd (hnone r) (by omega), fun r _ => hnone r⟩
  · dsimp only
    generalize ranges.foldl _ _ = last at hlast hall
    split
    · rename_i hzero
      refine ⟨le_rfl, ?_, fun ⟨r, hr, hpos⟩ => ?_, fun r _ => hclip r⟩
      · exact (Nat.add_sub_cancel' hstop).le
      · have := hall r hr
        omega
    · rename_i hsize
      rcases hlast with rfl | ⟨r, hr, rfl⟩
      · exact absurd rfl hsize
      · have hin : start ≤ (r.clip start stop).base ∧ (r.clip start stop).stop ≤ stop ∧
            r.base ≤ (r.clip start stop).base ∧ (r.clip start stop).stop ≤ r.stop := by
          unfold MemoryRange.stop MemoryRange.clip at *
          dsimp only at *
          omega
        exact ⟨hin.1, hin.2.1, fun _ => ⟨r, hr, rfl, hin.2.2⟩, hall⟩

/-- The physical addresses of the kernel heap. -/
def MemoryLayoutPolicy.heap (policy : MemoryLayoutPolicy) : MemoryRange :=
  ⟨policy.kernelHeap.base - PAGE_OFFSET, policy.kernelHeap.size⟩

/-- Heap and pool of a layout, for a kernel image that ends at `kernelEnd`. -/
structure LayoutOk (info : MemoryInfo) (kernelEnd : ℕ) (policy : MemoryLayoutPolicy) : Prop where
  disjoint : Disjoint (Set.Ico policy.heap.base policy.heap.stop)
    (Set.Ico policy.processPool.base policy.processPool.stop)
  pool_le : policy.processPool.stop ≤ policy.effectiveRamBytes
  kernel_le : kernelEnd ≤ policy.heap.base
  pde_le : policy.kernelPdeEnd ≤ 1024
  heap_empty : policy.effectiveRamBytes < kernelEnd → policy.heap.size = 0
  largest : Largest info.usableRanges (processPoolBase policy.effectiveRamBytes policy.heap.base)
    policy.effectiveRamBytes policy.processPool

/-- Whatever the memory map and the cap, the layout is in order up to the end of the heap, and that
lies in memory just when the end of the kernel image does. -/
theorem memoryLayout_sound (boot : BootMemoryInfo) (kernelEnd cap : ℕ)
    (haligned : kernelEnd % BLOCK_SIZE = 0) (hend : kernelEnd < 2 ^ 30) :
    let info := memoryInfoFromBootRaw boot
    let policy := memoryLayoutBuild info kernelEnd cap
    LayoutOk info kernelEnd policy ∧
      (policy.heap.stop ≤ policy.effectiveRamBytes ↔ kernelEnd ≤ policy.effectiveRamBytes) := by
  intro info policy
  have hup : alignUp kernelEnd BLOCK_SIZE = kernelEnd := if_pos haligned
  have hmod : (PAGE_OFFSET + kernelEnd) % 2 ^ 32 - PAGE_OFFSET = kernelEnd := by
    unfold PAGE_OFFSET
    omega
  have hheap : policy.heap = ⟨kernelEnd,
      processPoolBase policy.effectiveRamBytes kernelEnd - kernelEnd⟩ := by
    simp only [policy, MemoryLayoutPolicy.heap, memoryLayoutBuild, hup, hmod]
  have hpool : policy.processPool = selectProcessPool info.usableRanges
      (processPoolBase policy.effectiveRamBytes kernelEnd) policy.effectiveRamBytes := by
    simp [policy, memoryLayoutBuild, hup]
  have hpde : policy.kernelPdeEnd = KERNEL_PDE_BASE + policy.effectiveRamBytes / PDE_BYTES := rfl
  have hmax : policy.effectiveRamBytes ≤ MAX_RAM_BYTES := effectiveBytes_le _ _
  clear_value policy
  have hbase : processPoolBase policy.effectiveRamBytes kernelEnd ≤ policy.effectiveRamBytes :=
    min_le_right ..
  obtain ⟨hstart, hstop, hlargest⟩ :=
    selectProcessPool_spec (unwrapped_memoryInfoFromBootRaw boot) hbase
  rw [← hpool] at hstart hstop hlargest
  refine ⟨⟨?_, hstop, by rw [hheap], ?_, fun habove => ?_, by rwa [hheap]⟩, ?_⟩
  · rw [hheap, Set.Ico_disjoint_Ico, MemoryRange.stop]
    dsimp only
    omega
  · rw [hpde]
    unfold KERNEL_PDE_BASE PDE_BYTES MAX_RAM_BYTES at *
    omega
  · rw [hheap]
    dsimp only
    omega
  · rw [hheap, MemoryRange.stop]
    dsimp only
    omega

/-- A machine with 768 MB and no memory map. -/
def plainBoot : BootMemoryInfo := ⟨768, 0, fun _ => ⟨0, 0, 0, 0, 0⟩⟩

theorem plainBoot_sound : LayoutOk (memoryInfoFromBootRaw plainBoot) 0x800000
    (memoryLayoutBuild (memoryInfoFromBootRaw plainBoot) 0x800000 0) :=
  (memoryLayout_sound plainBoot 0x800000 0 (by decide) (by decide)).1

/-- The heap of a kernel image that ends above the memory is empty and lies there, too. -/
theorem heap_above_memory :
    let policy := memoryLayoutBuild (memoryInfoFromBootRaw plainBoot) 0x38000000 0
    policy.effectiveRamBytes = 0x30000000 ∧ policy.heap = ⟨0x38000000, 0⟩ ∧
      ¬policy.heap.stop ≤ policy.effectiveRamBytes := by decide

end Sodex.Layout
