import Sodex.Dlist
import Sodex.Ext3Store

/-!
# Dentries, paths and calls of `ext3fs.c`

A dentry is named by its buffer from `kalloc`. Its list nodes `d_child` and `d_subdirs`
are linked as in the source. A path is the list of its bytes up to the terminating zero,
and `d_name` is the content of its buffer.
-/
namespace Sodex.Ext3

open ByteMem LinkRing Dlist

def FTYPE_FILE : UInt8 := 1
def FTYPE_DIR : UInt8 := 2
def SODEX_S_IFREG : UInt16 := 0x8000
def SODEX_S_IFDIR : UInt16 := 0x4000
def O_CREAT : UInt32 := 0x40
def O_TRUNC : UInt32 := 0x200
def O_APPEND : UInt32 := 0x400
def O_DIRECTORY : UInt32 := 0x10000

/-- The list nodes inside a dentry. -/
inductive DNode where
  | child (d : ℕ)
  | subdirs (d : ℕ)
  deriving DecidableEq, Repr

/-- `dlist_entry`. -/
def DNode.owner : DNode → ℕ
  | .child d => d
  | .subdirs d => d

structure Dentry where
  inonum : UInt32
  namelen : UInt8
  filetype : UInt8
  name : Bytes
  parent : Option ℕ
  dirblock : Option Bytes

structure File where
  dentry : ℕ
  flags : UInt32
  pos : UInt32

structure Fs extends Store where
  /-- The dentries made so far; none is ever freed. -/
  dentries : List ℕ
  dentry : ℕ → Dentry
  links : Links DNode
  rootdir : ℕ
  /-- `current->dentry`. -/
  cwd : ℕ
  file : ℕ → File
  /-- `current->files->fs_fd`. -/
  fsFd : ℕ → Option ℕ
  /-- The dentries that other tasks have open. -/
  otherOpen : List ℕ
  /-- A call has written past a buffer or through a null pointer, and the heap holds anything. -/
  overrun : Bool

namespace Fs

def modify (s : Fs) (d : ℕ) (f : Dentry → Dentry) : Fs :=
  { s with dentry := Function.update s.dentry d (f (s.dentry d)) }

/-- The dentries on the list `d_subdirs` of `d`; each has got a buffer of its own. -/
def subdirsOf (s : Fs) (d : ℕ) : List ℕ :=
  (s.links.members (s.clock + 1) (.subdirs d)).map DNode.owner

/-- The content of `d_dirblock`. -/
def dirblockOf (s : Fs) (d : ℕ) : Bytes := (s.dentry d).dirblock.getD zeroTable

def flush (s : Fs) : Fs := { s with toStore := Ext3.flush s.dirblockOf s.toStore }

end Fs

def slash : UInt8 := 47

/-- The bytes of a string in a buffer that was cleared before. -/
def nameBytes (name : List UInt8) : Bytes := fun i => name.getD i 0

def dotName : List UInt8 := [46]
def dotdotName : List UInt8 := [46, 46]

/-- The loop of `ext3_trim_trailing_slash`. -/
def trimLoop : ℕ → List UInt8 → List UInt8
  | 0, path => path
  | fuel + 1, path =>
    if 1 < path.length ∧ path.getLast? = some slash then trimLoop fuel path.dropLast else path

def trimTrailingSlash (path : List UInt8) : List UInt8 := trimLoop path.length path

/-- `strrchr(path, '/')`, as an index. -/
def lastSlash (path : List UInt8) : Option ℕ :=
  (List.range path.length).reverse.find? fun i => path.getD i 0 = slash

def nameEqual (name : List UInt8) (e : Dentry) : Bool :=
  name.length = e.namelen.toNat &&
    (List.range name.length).all fun i => nameBytes name i = e.name i

def getDentry (s : Fs) (filename : List UInt8) (d : ℕ) : Option ℕ :=
  (s.subdirsOf d).find? fun c => nameEqual filename (s.dentry c)

def walkComponent (s : Fs) (name : List UInt8) (d : ℕ) : Option ℕ :=
  if name = [] then some d
  else if name = dotName then some d
  else if name = dotdotName then some ((s.dentry d).parent.getD d)
  else if 256 ≤ name.length then none
  else getDentry s name d

def dirWalk (s : Fs) : ℕ → List UInt8 → ℕ → Option ℕ
  | 0, _, d => some d
  | fuel + 1, path, d =>
    let path := path.dropWhile (· = slash)
    if path = [] then some d
    else
      match walkComponent s (path.takeWhile (· ≠ slash)) d with
      | none => none
      | some d =>
        match path.dropWhile (· ≠ slash) with
        | [] => some d
        | _ :: rest => dirWalk s fuel rest d

def resolvePath (s : Fs) (path : List UInt8) : Option ℕ :=
  if path = [] then some s.cwd
  else
    let path := trimTrailingSlash path
    if path = [slash] then some s.rootdir
    else if path.head? = some slash then dirWalk s (path.length + 1) path s.rootdir
    else dirWalk s (path.length + 1) path s.cwd

/-- `ext3_resolve_parent`, with the name it leaves in `name_out`. -/
def resolveParent (s : Fs) (path : List UInt8) : Option ℕ × List UInt8 :=
  let path := trimTrailingSlash path
  match lastSlash path with
  | none => (some s.cwd, path)
  | some i =>
    if i = 0 then (some s.rootdir, path.drop 1)
    else (resolvePath s (path.take i), path.drop (i + 1))

/-- A C string: what stands before the first zero. -/
def cstr (path : List UInt8) : List UInt8 := path.takeWhile (· ≠ 0)

def paddedNameLen (len : ℕ) : ℕ := if len % 4 ≠ 0 then len + (4 - len % 4) else len

/-- The room for the entry of a dentry in the block of its directory. -/
def Dentry.recLen (e : Dentry) : ℕ := 8 + paddedNameLen e.namelen.toNat

def direntsSize (es : List Dentry) : ℕ := (es.map Dentry.recLen).sum

/-- `ext3_write_dirent`, at the offset `off` of the block. -/
def writeDirent (block : Bytes) (off : ℕ) (e : Dentry) (recLen : UInt16) : Bytes :=
  let block := fill block off recLen.toNat 0
  let block := set32 block off e.inonum
  let block := set16 block (off + 4) recLen
  let block := Function.update block (off + 6) e.namelen
  let block := Function.update block (off + 7) e.filetype
  copy block (off + 8) e.name 0 (paddedNameLen e.namelen.toNat)

/-- The loop of `ext3_rebuild_dirblock`. The last record reaches to the end of the block, if the others
leave room for it; what is written from byte 4096 on lies in other buffers. -/
def writeDirents : List Dentry → Bytes → ℕ → Bytes
  | [], block, _ => block
  | [e], block, off => writeDirent block off e (UInt16.ofInt (4096 - off))
  | e :: es, block, off =>
    writeDirents es (writeDirent block off e (UInt16.ofNat e.recLen)) (off + e.recLen)

/-- `ext3_rebuild_dirblock`: the offset is not checked. -/
def rebuildDirblock (s : Fs) (parent : Option ℕ) : Fs :=
  match parent with
  | none => s
  | some d =>
    match (s.dentry d).dirblock with
    | none => s
    | some _ =>
      let entries := (s.subdirsOf d).map s.dentry
      let s := s.modify d fun e => { e with dirblock := some (writeDirents entries zeroTable 0) }
      let iblock := iBlock s.toStore (s.dentry d).inonum 0
      { s with
        toStore := markBlockDirty s.toStore iblock (.dirblock d)
        overrun := s.overrun || decide (4096 < direntsSize entries) }

def initDentryLists (L : Links DNode) (d : ℕ) : Links DNode :=
  (L.init (.child d)).init (.subdirs d)

/-- Put a dentry in front of the children of its parent. -/
def linkChild (s : Fs) (d parent : ℕ) : Fs :=
  { s with links := dlistInsertAfter s.links (.child d) (.subdirs parent) }

/-- The new inode of `__create_file`. -/
def setUpInode (m : Store) (ino : UInt32) (flags : UInt32) (mode : UInt16) : Store :=
  let isDir := flags &&& O_DIRECTORY ≠ 0
  let m := clearInode m ino
  let m := setIMode m ino ((if isDir then SODEX_S_IFDIR else SODEX_S_IFREG) ||| (mode &&& 0x1ff))
  setILinksCount m ino (if isDir then 2 else 1)

/-- The new dentry of `__create_file`. -/
def newDentry (newino : UInt32) (filename : List UInt8) (flags : UInt32) (parentdir : ℕ) : Dentry :=
  { inonum := newino
    namelen := UInt8.ofNat filename.length
    filetype := if flags &&& O_DIRECTORY ≠ 0 then FTYPE_DIR else FTYPE_FILE
    name := nameBytes filename
    parent := some parentdir
    dirblock := none }

/-- A dentry is set up and put on the list of its parent. -/
def enterDentry (s : Fs) (d : ℕ) (e : Dentry) (parent : ℕ) : Fs :=
  linkChild
    { s with
      dentries := d :: s.dentries
      dentry := Function.update s.dentry d e
      links := initDentryLists s.links d } d parent

def createFile (s : Fs) (pathname : List UInt8) (flags : UInt32) (mode : UInt16) :
    Option ℕ × Fs :=
  match kalloc s.toStore with
  | (none, m) => (none, { s with toStore := m })
  | (some namebuf, m) =>
    let s := { s with toStore := m }
    match resolveParent s pathname with
    | (none, _) => (none, s)
    | (some parentdir, filename) =>
      if filename = [] then (none, s)
      else if (getDentry s filename parentdir).isSome then (none, s)
      else
        match allocIno s.toStore with
        | (none, m) => (none, { s with toStore := m })
        | (some newino, m) =>
          match kalloc (setUpInode m newino flags mode) with
          | (none, m) => (none, { s with toStore := m })
          | (some d, m) =>
            match kalloc m with
            | (none, m) => (none, { s with toStore := m })
            | (some _, m) =>
              let e := newDentry newino filename flags parentdir
              let s := enterDentry { s with toStore := m } d e parentdir
              let s := { s with toStore := markInodeDirty s.toStore newino }
              let s := rebuildDirblock s (some parentdir)
              (some d, { s with toStore := kfree s.toStore namebuf })

/-- `files_alloc_fd`; `none` for -1. -/
def filesAllocFd (s : Fs) (file : ℕ) : Option ℕ × Fs :=
  match (List.range 32).find? fun fd => (s.fsFd fd).isNone with
  | none => (none, s)
  | some fd => (some fd, { s with fsFd := Function.update s.fsFd fd (some file) })

/-- The truncation of an existing file by `ext3_open`. -/
def truncateFile (s : Fs) (d : ℕ) (flags : UInt32) : Fs :=
  if flags &&& O_TRUNC ≠ 0 ∧ (s.dentry d).filetype = FTYPE_FILE then
    Fs.flush { s with toStore := releaseInodeBlocks s.toStore (s.dentry d).inonum }
  else s

/-- `ext3_open` from the request of its `struct file` on; `none` for `FS_OPEN_FAIL`. -/
def attachFile (s : Fs) (pathbuf d : ℕ) (flags : UInt32) : Option ℕ × Fs :=
  match kalloc s.toStore with
  | (none, m) => (none, { s with toStore := m })
  | (some file, m) =>
    let pos := if flags &&& O_APPEND ≠ 0 then iSize m (s.dentry d).inonum else 0
    let s := { s with
      toStore := m
      file := Function.update s.file file { dentry := d, flags := flags, pos := pos } }
    match filesAllocFd s file with
    | (none, s) => (none, { s with toStore := kfree (kfree s.toStore pathbuf) file })
    | (some fd, s) => (some fd, { s with toStore := kfree s.toStore pathbuf })

/-- `ext3_open` once it has a dentry. -/
def openDentry (s : Fs) (pathbuf d : ℕ) (flags : UInt32) : Option ℕ × Fs :=
  attachFile (truncateFile s d flags) pathbuf d flags

def ext3Open (s : Fs) (pathname : List UInt8) (flags : UInt32) (mode : UInt16) :
    Option ℕ × Fs :=
  let pathname := cstr pathname
  match kalloc s.toStore with
  | (none, m) => (none, { s with toStore := m })
  | (some pathbuf, m) =>
    let s := { s with toStore := m }
    match resolvePath s (trimTrailingSlash pathname) with
    | some d => openDentry s pathbuf d flags
    | none =>
      if flags &&& O_CREAT ≠ 0 then
        match createFile s pathname flags mode with
        | (none, s) => (none, s)
        | (some d, s) => openDentry s.flush pathbuf d flags
      else (none, s)

end Sodex.Ext3
