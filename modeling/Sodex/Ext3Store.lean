import Sodex.ByteMem

/-!
# The volume of `ext3fs.c`: inodes, bitmaps and block pointers

The static tables of the file system are byte arrays with the layout of the structures
in `ext3fs.h`, and so is the device. A block has 4096 bytes and 8 sectors, an inode 128
bytes, a pointer table 1024 entries; there are 256 inodes and `BLOCK_MAX` = 4096 blocks.
Super block, group descriptors, block bitmap, inode bitmap and inode table lie at the
byte addresses 1024, 4096, 8192, 12288 and 16384 of the device.

Buffers from `kalloc` are named by the number of the request that returned them.
-/
namespace Sodex.Ext3

open ByteMem

def SODEX_FIRST_INO : UInt32 := 16
def EXT3_IND_BLOCK : ℕ := 12
def EXT3_DIND_BLOCK : ℕ := 13

/-- What a dirty block points to: a buffer of its own, or the `d_dirblock` of a dentry. -/
inductive Pblock where
  | buffer (content : Bytes)
  | dirblock (d : ℕ)

/-- The volume with its static tables, the dirty lists, and the kernel heap. -/
structure Store where
  disk : Bytes
  super : Bytes
  groups : Bytes
  inodes : Bytes
  inodeBitmap : Bytes
  blockBitmap : Bytes
  dSuper : Bool
  dGroup : Bool
  dInobmp : Bool
  dBlkbmp : Bool
  /-- `d_inodirty`, first entry first. -/
  inodirty : List UInt32
  /-- `d_blkdirty`, first entry first. -/
  blkdirty : List (UInt32 × Pblock)
  /-- A call of `__alloc_block` has found no clear bit below `BLOCK_MAX`. -/
  short : Bool
  /-- Whether the `n`-th request to `kalloc` is granted. -/
  kallocOk : ℕ → Bool
  clock : ℕ
  live : List ℕ

def kalloc (m : Store) : Option ℕ × Store :=
  if m.kallocOk m.clock then
    (some m.clock, { m with clock := m.clock + 1, live := m.clock :: m.live })
  else (none, { m with clock := m.clock + 1 })

def kfree (m : Store) (p : ℕ) : Store := { m with live := m.live.erase p }

/-- `raw_write` of whole sectors. -/
def rawWrite (disk : Bytes) (lba sects : ℕ) (buf : Bytes) : Bytes :=
  copy disk (lba * 512) buf 0 (sects * 512)

/-- `raw_read` of the 8 sectors of a block. -/
def readBlock (m : Store) (iblock : UInt32) : Bytes :=
  fun i => m.disk ((iblock * 4096 / 512).toNat * 512 + i)

def freeBlocksCount (m : Store) : UInt32 := get32 m.super 12
def freeInodesCount (m : Store) : UInt32 := get32 m.super 16
def firstIno (m : Store) : UInt32 := get32 m.super 84
def bgFreeBlocksCount (m : Store) : UInt16 := get16 m.groups 12
def bgFreeInodesCount (m : Store) : UInt16 := get16 m.groups 14

/-- `ext3_get_inode`, as an offset into the table. -/
def inodeAt (ino : UInt32) : ℕ := (ino.toNat - 1) * 128

def iSize (m : Store) (ino : UInt32) : UInt32 := get32 m.inodes (inodeAt ino + 4)
def iBlock (m : Store) (ino : UInt32) (k : ℕ) : UInt32 := get32 m.inodes (inodeAt ino + 40 + 4 * k)

def setIMode (m : Store) (ino : UInt32) (v : UInt16) : Store :=
  { m with inodes := set16 m.inodes (inodeAt ino) v }
def setISize (m : Store) (ino : UInt32) (v : UInt32) : Store :=
  { m with inodes := set32 m.inodes (inodeAt ino + 4) v }
def setILinksCount (m : Store) (ino : UInt32) (v : UInt16) : Store :=
  { m with inodes := set16 m.inodes (inodeAt ino + 26) v }
def setIBlocks (m : Store) (ino : UInt32) (v : UInt32) : Store :=
  { m with inodes := set32 m.inodes (inodeAt ino + 28) v }
def setIBlock (m : Store) (ino : UInt32) (k : ℕ) (v : UInt32) : Store :=
  { m with inodes := set32 m.inodes (inodeAt ino + 40 + 4 * k) v }

/-- `memset` of an inode. -/
def clearInode (m : Store) (ino : UInt32) : Store :=
  { m with inodes := fill m.inodes (inodeAt ino) 128 0 }

/-- `__get_free_bitmap_range`; `none` for -1. -/
def getFreeBitmapRange (bitmap : Bytes) (startBit endBit : ℤ) : Option ℕ :=
  let startBit := max startBit 0
  let endBit := min endBit 32767
  (List.range' startBit.toNat (endBit + 1 - startBit).toNat).find? fun i => !bit bitmap i

/-- `__alloc_ino`; `none` for -1. -/
def allocIno (m : Store) : Option UInt32 × Store :=
  let nextBit : ℤ := if SODEX_FIRST_INO < firstIno m then (firstIno m).toInt32.toInt - 1 else 15
  let found :=
    match getFreeBitmapRange m.inodeBitmap nextBit 255 with
    | some i => some i
    | none => if nextBit > 15 then getFreeBitmapRange m.inodeBitmap 15 (nextBit - 1) else none
  match found with
  | none => (none, m)
  | some i =>
    let super := set32 m.super 16 (freeInodesCount m - 1)
    (some (UInt32.ofNat (i + 1)),
      { m with
        super := set32 super 84 (if i + 2 > 256 then SODEX_FIRST_INO else UInt32.ofNat (i + 2))
        groups := set16 m.groups 14 (bgFreeInodesCount m - 1)
        inodeBitmap := setBit m.inodeBitmap i
        dSuper := true
        dGroup := true
        dInobmp := true })

def freeBlock (m : Store) (block : UInt32) : Store :=
  if block = 0 then m
  else if bit m.blockBitmap block.toNat = false then m
  else
    { m with
      super := set32 m.super 12 (freeBlocksCount m + 1)
      groups := set16 m.groups 12 (bgFreeBlocksCount m + 1)
      blockBitmap := clearBit m.blockBitmap block.toNat
      dSuper := true
      dGroup := true
      dBlkbmp := true }

/-- `ext3_mark_inode_dirty`, for the dentry's inode number. -/
def markInodeDirty (m : Store) (ino : UInt32) : Store :=
  match kalloc m with
  | (none, m) => m
  | (some _, m) => { m with inodirty := ino :: m.inodirty }

def markBlockDirty (m : Store) (iblock : UInt32) (block : Pblock) : Store :=
  match kalloc m with
  | (none, m) => m
  | (some _, m) => { m with blkdirty := (iblock, block) :: m.blkdirty }

/-- The sector of the inode table with this inode is written. -/
def flushInode (inodes disk : Bytes) (ino : UInt32) : Bytes :=
  let sector := (ino.toNat - 1) * 128 / 512
  rawWrite disk (32 + sector) 1 fun i => inodes (sector * 512 + i)

/-- The content of a dirty block; `dirblock` gives those of the dentries. -/
def Pblock.content (dirblock : ℕ → Bytes) : Pblock → Bytes
  | .buffer content => content
  | .dirblock d => dirblock d

def flushBlock (dirblock : ℕ → Bytes) (disk : Bytes) (e : UInt32 × Pblock) : Bytes :=
  rawWrite disk (e.1 * 8).toNat 8 (e.2.content dirblock)

def flush (dirblock : ℕ → Bytes) (m : Store) : Store :=
  let disk := m.disk
  let disk := if m.dSuper then rawWrite disk 2 2 m.super else disk
  let disk := if m.dGroup then rawWrite disk 8 8 m.groups else disk
  let disk := if m.dBlkbmp then rawWrite disk 16 8 m.blockBitmap else disk
  let disk := if m.dInobmp then rawWrite disk 24 8 m.inodeBitmap else disk
  let disk := m.inodirty.foldl (flushInode m.inodes) disk
  let disk := m.blkdirty.foldl (flushBlock dirblock) disk
  { m with disk, dSuper := false, dGroup := false, dInobmp := false, dBlkbmp := false,
           inodirty := [], blkdirty := [] }

def entryAt (table : Bytes) (e : ℕ) : UInt32 := get32 table (4 * e)

def zeroTable : Bytes := fun _ => 0

def loadBlockTable (m : Store) (iblock : UInt32) : Option (ℕ × Bytes) × Store :=
  if iblock = 0 then (none, m)
  else
    match kalloc m with
    | (none, m) => (none, m)
    | (some p, m) => (some (p, readBlock m iblock), m)

/-- Free every block named in a table. -/
def freeEntries (m : Store) (table : Bytes) : Store :=
  (List.range 1024).foldl
    (fun m e => if entryAt table e ≠ 0 then freeBlock m (entryAt table e) else m) m

/-- The loop over the leaves of a double indirect table; `false` when it gives up. -/
def freeLeaves (table : Bytes) : List ℕ → Store → Bool × Store
  | [], m => (true, m)
  | i :: is, m =>
    if entryAt table i = 0 then freeLeaves table is m
    else
      match loadBlockTable m (entryAt table i) with
      | (none, m) => (false, m)
      | (some (p, leaf), m) =>
        freeLeaves table is (freeBlock (kfree (freeEntries m leaf) p) (entryAt table i))

/-- The direct blocks of `ext3_release_inode_blocks`. -/
def releaseDirect (m : Store) (ino : UInt32) : Store :=
  (List.range 12).foldl
    (fun m i =>
      if iBlock m ino i ≠ 0 then setIBlock (freeBlock m (iBlock m ino i)) ino i 0 else m) m

/-- The single indirect blocks; `false` when the table cannot be read. -/
def releaseIndirect (m : Store) (ino : UInt32) : Bool × Store :=
  if iBlock m ino EXT3_IND_BLOCK = 0 then (true, m)
  else
    match kalloc m with
    | (none, m) => (false, m)
    | (some p, m) =>
      let m := kfree (freeEntries m (readBlock m (iBlock m ino EXT3_IND_BLOCK))) p
      (true, setIBlock (freeBlock m (iBlock m ino EXT3_IND_BLOCK)) ino EXT3_IND_BLOCK 0)

/-- The double indirect blocks; `false` when a table cannot be read. -/
def releaseDouble (m : Store) (ino : UInt32) : Bool × Store :=
  if iBlock m ino EXT3_DIND_BLOCK = 0 then (true, m)
  else
    match loadBlockTable m (iBlock m ino EXT3_DIND_BLOCK) with
    | (none, m) => (false, m)
    | (some (p, table), m) =>
      match freeLeaves table (List.range 1024) m with
      | (false, m) => (false, kfree m p)
      | (true, m) =>
        let m := kfree m p
        (true, setIBlock (freeBlock m (iBlock m ino EXT3_DIND_BLOCK)) ino EXT3_DIND_BLOCK 0)

def releaseInodeBlocks (m : Store) (ino : UInt32) : Store :=
  if ino = 0 then m
  else
    match releaseIndirect (releaseDirect m ino) ino with
    | (false, m) => m
    | (true, m) =>
      match releaseDouble m ino with
      | (false, m) => m
      | (true, m) => markInodeDirty (setIBlocks (setISize m ino 0) ino 0) ino

end Sodex.Ext3
