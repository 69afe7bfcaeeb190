import Sodex.LinkRing

/-!
# The kernel heap of `memory.c`

Every region of the heap is described by one `MemHole` of the static array
`memhole`. A descriptor is linked into one of three circular lists: the free
regions `mfree_list`, the regions in use `muse_list`, and the unused
descriptors `mhole_list`. Addresses and sizes are `u_int32_t`, so all sums wrap.

A call that never returns is `none`: with `MEMDEBUG` the allocators spin forever
when a region in use has the base of the hole they are about to hand out.
-/
namespace Sodex.KernelHeap

open LinkRing

/-- Number of descriptors in the static array. -/
def MAX_MHOLES : ℕ := 8192

/-- A remainder of at most this size stays with the allocated region. -/
def MIN_MEMSIZE : UInt32 := 32

/-- The addressable `MemHole` objects: three list heads and the array. -/
inductive Hole where
  | mholeList
  | mfreeList
  | museList
  | memhole (i : ℕ)
  deriving DecidableEq, Repr

/-- The data fields of a `MemHole`. -/
structure MemHole where
  base : UInt32
  alignBase : UInt32
  size : UInt32
  deriving DecidableEq, Repr

/-- The state of `memory.c`: the data fields and the link fields of all holes. -/
@[ext]
structure Mem where
  hole : Hole → MemHole
  links : Links Hole

/-- Status codes of the two free functions. -/
inductive FreeStatus where
  | ok
  | notMhole
  | illegal
  deriving DecidableEq, Repr

namespace Mem

def base (m : Mem) (p : Hole) : UInt32 := (m.hole p).base
def size (m : Mem) (p : Hole) : UInt32 := (m.hole p).size
def alignBase (m : Mem) (p : Hole) : UInt32 := (m.hole p).alignBase

/-- Overwrite the data fields of one hole. -/
def modify (m : Mem) (p : Hole) (f : MemHole → MemHole) : Mem :=
  { m with hole := Function.update m.hole p (f (m.hole p)) }

def mholeRemove (m : Mem) (p : Hole) : Mem := { m with links := m.links.unlink p }

def mholeInsertHead (m : Mem) (p head : Hole) : Mem := { m with links := m.links.insertAfter p head }

def mholeInsertBefore (m : Mem) (p e : Hole) : Mem := { m with links := m.links.insertBefore p e }

/-- `MHOLE_CLEAN` resets base and size; the aligned base is left as it is. -/
def mholeClean (m : Mem) (p : Hole) : Mem :=
  m.modify p fun h => { h with base := 0, size := 0 }

/-- The descriptors found by a traversal of a list. -/
def members (m : Mem) (head : Hole) : List Hole := m.links.members (MAX_MHOLES + 1) head

def freeList (m : Mem) : List Hole := m.members .mfreeList
def useList (m : Mem) : List Hole := m.members .museList

end Mem

/-- The links of the first loop of `init_hole_pool`, for an array of any length. -/
def holeLinks (count : ℕ) : Links Hole where
  next
    | .mholeList => .memhole 0
    | .memhole i => if i = count - 1 then .mholeList else .memhole (i + 1)
    | head => head
  prev
    | .mholeList => .memhole (count - 1)
    | .memhole i => if i = 0 then .mholeList else .memhole (i - 1)
    | head => head

/-- `init_hole_pool`. The array keeps whatever its data fields held before; only
the three heads and the first descriptor are written. -/
def initHolePool (m : Mem) (count : ℕ) (base size : UInt32) : Mem :=
  let m : Mem := { m with links := holeLinks count }
  let m := m.modify .mholeList fun h => { h with base := 0, size := 0 }
  let m := m.modify .mfreeList fun h => { h with base := 0, size := 0 }
  let m := m.modify .museList fun h => { h with base := 0, size := 0 }
  let mem := m.links.next .mholeList
  let m := m.mholeRemove mem
  let m := m.mholeInsertHead mem .mfreeList
  m.modify (m.links.next .mfreeList) fun h => { h with base := base, size := size }

/-- `init_mem_core`. -/
def initMemCore (m : Mem) (base size : UInt32) : Mem := initHolePool m MAX_MHOLES base size

/-- `new_mhole`: unlink whatever follows the head of the spare list. -/
def newMhole (m : Mem) : Hole × Mem :=
  let ret := m.links.next .mholeList
  (ret, m.mholeRemove ret)

/-- `used_check`: some region in use starts where the hole starts. -/
def usedCheck (m : Mem) (i : Hole) : Bool := m.useList.any fun u => m.base u = m.base i

/-- `kalloc`: first fit. The hole is split only when more than `MIN_MEMSIZE`
bytes would remain. The result is the address, zero for `NULL`. -/
def kalloc (m : Mem) (size : UInt32) : Option (UInt32 × Mem) :=
  match m.freeList.find? (fun i => size ≤ m.size i) with
  | none => some (0, m)
  | some i =>
    if usedCheck m i then none
    else if MIN_MEMSIZE < m.size i - size then
      let (new, m) := newMhole m
      let m := m.modify new fun h => { h with base := m.base i, size := size }
      let m := m.modify i fun h => { h with base := h.base + size, size := h.size - size }
      let m := m.mholeInsertHead new .museList
      some (m.base new, m)
    else
      let m := m.mholeRemove i
      let m := m.mholeInsertHead i .museList
      some (m.base i, m)

/-- Round up to a multiple of the power of two `block`; the sum may wrap. -/
def roundUp (x block : UInt32) : UInt32 :=
  if x &&& (block - 1) = 0 then x else (x &&& ~~~(block - 1)) + block

/-- Bytes taken from a hole starting at `base` for an aligned request. -/
def allocSize (base size block : UInt32) : UInt32 :=
  roundUp base block + roundUp size block - base

/-- `aalloc`: as `kalloc`, with the padding in front of the aligned address
counted into the region. -/
def aalloc (m : Mem) (size : UInt32) (alignBit : UInt8) : Option (UInt32 × Mem) :=
  if 32 < alignBit then some (0, m)
  else
    let block : UInt32 := 1 <<< alignBit.toUInt32
    match m.freeList.find? (fun i => allocSize (m.base i) size block ≤ m.size i) with
    | none => some (0, m)
    | some i =>
      let alignBase := roundUp (m.base i) block
      let allocSize := allocSize (m.base i) size block
      if usedCheck m i then none
      else if MIN_MEMSIZE < m.size i - allocSize then
        let (new, m) := newMhole m
        let m := m.modify new fun h =>
          { h with base := m.base i, alignBase := alignBase, size := allocSize }
        let m := m.modify i fun h => { h with base := h.base + allocSize, size := h.size - allocSize }
        let m := m.mholeInsertHead new .museList
        some (m.alignBase new, m)
      else
        let m := m.mholeRemove i
        let m := m.mholeInsertHead i .museList
        let m := m.modify i fun h => { h with alignBase := alignBase }
        some (m.alignBase i, m)

/-- First loop of `merge_hole`: add the sizes of the absorbed holes. -/
def mergeSizes (m : Mem) (memfrom stop : Hole) : ℕ → Hole → Mem
  | 0, _ => m
  | fuel + 1, i =>
    if i = stop then m
    else mergeSizes (m.modify memfrom fun h => { h with size := h.size + m.size i }) memfrom stop
      fuel (m.links.next i)

/-- Second loop of `merge_hole`: hand the absorbed descriptors back. -/
def mergeReclaim (m : Mem) (stop : Hole) : ℕ → Hole → Mem
  | 0, _ => m
  | fuel + 1, i =>
    if i = stop then m
    else
      let j := m.links.next i
      mergeReclaim (((m.mholeRemove i).mholeClean i).mholeInsertHead i .mholeList) stop fuel j

def mergeHole (m : Mem) (memfrom memto : Hole) : Mem :=
  let m := mergeSizes m memfrom (m.links.next memto) (MAX_MHOLES + 1) (m.links.next memfrom)
  mergeReclaim m (m.links.next memto) (MAX_MHOLES + 1) (m.links.next memfrom)

/-- The merge decision at the end of `_internal_common_merge`. It looks at the
link fields of `mem` whether or not `mem` was put into the free list. -/
def mergeNeighbours (m : Mem) (mem : Hole) : Mem :=
  let prev := m.links.prev mem
  let next := m.links.next mem
  if m.base prev + m.size prev = m.base mem ∧ m.base mem + m.size mem = m.base next then
    mergeHole m prev next
  else if m.base prev + m.size prev = m.base mem then mergeHole m prev mem
  else if m.base mem + m.size mem = m.base next then mergeHole m mem next
  else m

/-- `_internal_common_merge`. Without a free hole of higher base nothing is
inserted, and the merge step runs on the old links of `mem`. -/
def internalCommonMerge (m : Mem) (mem : Hole) : FreeStatus × Mem :=
  let m := m.mholeRemove mem
  match m.freeList.find? (fun i => m.base mem < m.base i) with
  | some i =>
    if m.base i < m.base mem + m.size mem then (.illegal, m)
    else (.ok, mergeNeighbours (m.mholeInsertBefore mem i) mem)
  | none => (.ok, mergeNeighbours m mem)

def searchUsedMhole (m : Mem) (ptr : UInt32) : Option Hole :=
  m.useList.find? fun p => m.base p = ptr

def searchUsedAlignMhole (m : Mem) (ptr : UInt32) : Option Hole :=
  m.useList.find? fun p => m.alignBase p = ptr

/-- Free the descriptor a search has found. -/
def freeFound (m : Mem) : Option Hole → FreeStatus × Mem
  | none => (.notMhole, m)
  | some mem => internalCommonMerge m mem

def kfree (m : Mem) (ptr : UInt32) : FreeStatus × Mem := freeFound m (searchUsedMhole m ptr)

def afree (m : Mem) (ptr : UInt32) : FreeStatus × Mem := freeFound m (searchUsedAlignMhole m ptr)

/-- One call of the allocator interface. -/
inductive HeapOp where
  | kalloc (size : UInt32)
  | aalloc (size : UInt32) (alignBit : UInt8)
  | kfree (ptr : UInt32)
  | afree (ptr : UInt32)
  deriving DecidableEq, Repr

/-- Effect of one call on the heap; `none` when the call does not return. -/
def heapStep (m : Mem) : HeapOp → Option Mem
  | .kalloc size => (kalloc m size).map Prod.snd
  | .aalloc size alignBit => (aalloc m size alignBit).map Prod.snd
  | .kfree ptr => some (kfree m ptr).2
  | .afree ptr => some (afree m ptr).2

end Sodex.KernelHeap
