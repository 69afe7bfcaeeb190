import Sodex.Tally
import Sodex.Runs

/-!
# Open files: `fs.c`, `pipe.c`, `tty.c`

The open files of the kernel, the descriptor tables of the processes, the pipes and the
terminals, and the calls that make, share and drop open files. A call runs to its end
before the next one starts.

Not in the source are: the marks that a file or a pipe is still allocated, that the call
that made a file has returned its descriptor, and the counts of runs of a file's close
operation and of releases of a pipe's buffer.
-/
namespace Sodex.Files

open Runs Tally

def FILEDESC_MAX : ℕ := 32
def TTY_POOL_MAX : ℕ := 4

/-- The console, or an entry of the pool of terminals. -/
inductive TtyRef where
  | console
  | pty (i : ℕ)
  deriving DecidableEq, Repr

/-- `struct tty`, as far as opening and closing goes. -/
structure Tty where
  active : Bool
  hasMaster : Bool
  refcount : ℕ
  slaveRefs : ℕ
  deriving DecidableEq, Repr

/-- What an open file is: `f_stdioflag` and `private_data`. -/
inductive Kind where
  | file
  | ttyMaster (tty : TtyRef)
  | ttySlave (tty : TtyRef)
  | pipeRead (pipe : ℕ)
  | pipeWrite (pipe : ℕ)
  deriving DecidableEq, Repr

/-- Files of the file system have no operations. -/
def Kind.hasClose : Kind → Bool
  | .file => false
  | _ => true

structure OpenFile where
  kind : Kind
  refcount : ℕ
  live : Bool
  opened : Bool
  closes : ℕ
  deriving DecidableEq, Repr

/-- `struct pipe_info`. -/
structure Pipe where
  readOpen : ℕ
  writeOpen : ℕ
  live : Bool
  released : ℕ
  deriving DecidableEq, Repr

structure FilesStruct where
  fd : List (Option ℕ)
  freefd : ℕ
  size : fd.length = FILEDESC_MAX
  deriving DecidableEq

namespace FilesStruct

def empty : FilesStruct := ⟨List.replicate FILEDESC_MAX none, 0, List.length_replicate⟩

def setSlot (t : FilesStruct) (fd : ℕ) (v : Option ℕ) : FilesStruct :=
  ⟨t.fd.set fd v, t.freefd, List.length_set.trans t.size⟩

def setFreefd (t : FilesStruct) (fd : ℕ) : FilesStruct := ⟨t.fd, fd, t.size⟩

/-- `fs_fd[fd]`, for a descriptor of the table. -/
def slot (t : FilesStruct) (fd : ℕ) : Option ℕ := (t.fd[fd]?).join

end FilesStruct

/-- A process with its descriptor table. -/
structure Task where
  alive : Bool
  files : FilesStruct
  deriving DecidableEq

structure Kernel where
  files : List OpenFile
  pipes : List Pipe
  console : Tty
  ptys : List Tty
  tasks : List Task
  deriving DecidableEq

def resetTty : Tty := ⟨false, false, 0, 0⟩

/-- The kernel after `init_tty`, without any process. -/
def boot : Kernel :=
  ⟨[], [], { resetTty with active := true }, List.replicate TTY_POOL_MAX resetTty, []⟩

namespace Kernel

def table (k : Kernel) (pid : ℕ) : FilesStruct :=
  (k.tasks[pid]?.map Task.files).getD FilesStruct.empty

def setTable (k : Kernel) (pid : ℕ) (t : FilesStruct) : Kernel :=
  { k with tasks := k.tasks.modify pid fun task => { task with files := t } }

def file (k : Kernel) (id : ℕ) : Option OpenFile := k.files[id]?

def updateFile (k : Kernel) (id : ℕ) (f : OpenFile → OpenFile) : Kernel :=
  { k with files := k.files.modify id f }

def updateTty (k : Kernel) (tty : TtyRef) (f : Tty → Tty) : Kernel :=
  match tty with
  | .console => { k with console := f k.console }
  | .pty i => { k with ptys := k.ptys.modify i f }

/-- Does the process run? -/
def running (k : Kernel) (pid : ℕ) : Bool := (k.tasks[pid]?.map Task.alive).getD false

/-- A new `struct file` with one reference. -/
def newFile (k : Kernel) (kind : Kind) : Kernel :=
  { k with files := k.files ++ [⟨kind, 1, true, false, 0⟩] }

/-- `kfree` of a file. -/
def freeFile (k : Kernel) (id : ℕ) : Kernel := k.updateFile id fun f => { f with live := false }

/-- The call that made the file returns its descriptor. -/
def publish (k : Kernel) (id : ℕ) : Kernel := k.updateFile id fun f => { f with opened := true }

end Kernel

def filesFindFreeFd (t : FilesStruct) (start : ℕ) : Option ℕ :=
  match (t.fd.drop start).findIdx? Option.isNone with
  | some i => some (start + i)
  | none => (t.fd.take start).findIdx? Option.isNone

def filesAllocFd (t : FilesStruct) (id : ℕ) : Option (ℕ × FilesStruct) :=
  (filesFindFreeFd t 0).map fun fd => (fd, (t.setSlot fd (some id)).setFreefd (fd + 1))

def fileGet (k : Kernel) (id : ℕ) : Kernel :=
  k.updateFile id fun f => { f with refcount := f.refcount + 1 }

def ttyRelease (k : Kernel) (tty : TtyRef) : Kernel :=
  k.updateTty tty fun t =>
    let t := { t with refcount := t.refcount - 1 }
    if tty = .console then t else if t.refcount = 0 then resetTty else t

def ttySlaveFileClose (k : Kernel) (tty : TtyRef) : Kernel :=
  ttyRelease (k.updateTty tty fun t => { t with slaveRefs := t.slaveRefs - 1 }) tty

def ttyMasterFileClose (k : Kernel) (tty : TtyRef) : Kernel :=
  ttyRelease (k.updateTty tty fun t => { t with hasMaster := false }) tty

/-- One end of a pipe less; the pipe goes with its last end. -/
def Pipe.close (pipe : Pipe) (read : Bool) : Pipe :=
  let pipe :=
    if read then { pipe with readOpen := pipe.readOpen - 1 }
    else { pipe with writeOpen := pipe.writeOpen - 1 }
  if pipe.readOpen = 0 ∧ pipe.writeOpen = 0 then
    { pipe with live := false, released := pipe.released + 1 }
  else pipe

def pipeClose (k : Kernel) (p : ℕ) (read : Bool) : Kernel :=
  { k with pipes := k.pipes.modify p fun pipe => pipe.close read }

/-- `f_ops->close`. -/
def closeOperation (k : Kernel) : Kind → Kernel
  | .file => k
  | .ttyMaster tty => ttyMasterFileClose k tty
  | .ttySlave tty => ttySlaveFileClose k tty
  | .pipeRead p => pipeClose k p true
  | .pipeWrite p => pipeClose k p false

def filePut (k : Kernel) (id : ℕ) : Kernel :=
  match k.file id with
  | none => k
  | some f =>
    let refcount := f.refcount - 1
    if 0 < refcount then k.updateFile id fun f => { f with refcount := refcount }
    else
      (closeOperation (k.updateFile id fun f => { f with
        refcount := refcount
        closes := f.closes + if f.kind.hasClose then 1 else 0 }) f.kind).freeFile id

def filesDup (k : Kernel) (pid : ℕ) (oldfd : ℤ) : ℤ × Kernel :=
  if oldfd < 0 ∨ (FILEDESC_MAX : ℤ) ≤ oldfd then (-1, k)
  else
    match (k.table pid).slot oldfd.toNat with
    | none => (-1, k)
    | some id =>
      let k := fileGet k id
      match filesAllocFd (k.table pid) id with
      | none => (-1, k)
      | some (fd, t) => (fd, k.setTable pid t)

/-- The loop of `files_clone` and `files_clone_stdio` over some descriptors. -/
def cloneSlots (k : Kernel) (dst src : ℕ) (fds : List ℕ) : Kernel :=
  fds.foldl (fun k fd =>
    match (k.table src).slot fd with
    | none => k
    | some id => (fileGet k id).setTable dst ((k.table dst).setSlot fd (some id))) k

def filesClone (k : Kernel) (dst src : ℕ) : Kernel :=
  let k := cloneSlots (k.setTable dst FilesStruct.empty) dst src (List.range FILEDESC_MAX)
  k.setTable dst ((k.table dst).setFreefd (k.table src).freefd)

def filesCloneStdio (k : Kernel) (dst src : ℕ) : Kernel :=
  let k := cloneSlots (k.setTable dst FilesStruct.empty) dst src (List.range 3)
  k.setTable dst ((k.table dst).setFreefd 3)

/-- The loop of `files_close_all` over some descriptors. -/
def closeSlots (k : Kernel) (pid : ℕ) (fds : List ℕ) : Kernel :=
  fds.foldl (fun k fd =>
    match (k.table pid).slot fd with
    | none => k
    | some id =>
      let k := filePut k id
      k.setTable pid ((k.table pid).setSlot fd none)) k

def filesCloseAll (k : Kernel) (pid : ℕ) : Kernel :=
  let k := closeSlots k pid (List.range FILEDESC_MAX)
  k.setTable pid ((k.table pid).setFreefd 0)

def close (k : Kernel) (pid : ℕ) (fd : ℤ) : ℤ × Kernel :=
  if fd < 0 ∨ (FILEDESC_MAX : ℤ) ≤ fd then (0, k)
  else
    match (k.table pid).slot fd.toNat with
    | none => (1, k)
    | some id => (1, filePut (k.setTable pid ((k.table pid).setSlot fd.toNat none)) id)

/-- `ext3_open` from the point where the path is resolved; `found` says whether it led to a
directory entry, `granted` whether there is memory for the file. -/
def ext3Open (k : Kernel) (pid : ℕ) (found granted : Bool) : ℤ × Kernel :=
  if !found ∨ !granted then (-1, k)
  else
    let id := k.files.length
    let k := k.newFile .file
    match filesAllocFd (k.table pid) id with
    | none => (-1, k.freeFile id)
    | some (fd, t) => (fd, (k.setTable pid t).publish id)

/-- `pipe`; the flags say whether there is memory for the pipe, its buffer and the files of its
two ends. -/
def pipe (k : Kernel) (pid : ℕ) (info buffer readGranted writeGranted : Bool) : ℤ × Kernel :=
  if !info ∨ !buffer then (-1, k)
  else
    let p := k.pipes.length
    let freePipe (k : Kernel) : Kernel :=
      { k with pipes := k.pipes.modify p fun pipe => { pipe with live := false, released := 1 } }
    let k := { k with pipes := k.pipes ++ [⟨1, 1, true, 0⟩] }
    let readFile := k.files.length
    if !readGranted ∨ !writeGranted then
      if readGranted then (-1, freePipe ((k.newFile (.pipeRead p)).freeFile readFile))
      else if writeGranted then (-1, freePipe ((k.newFile (.pipeWrite p)).freeFile readFile))
      else (-1, freePipe k)
    else
      let writeFile := readFile + 1
      let k := (k.newFile (.pipeRead p)).newFile (.pipeWrite p)
      let freeAll (k : Kernel) : Kernel := freePipe ((k.freeFile readFile).freeFile writeFile)
      match filesAllocFd (k.table pid) readFile with
      | none => (-1, freeAll k)
      | some (readFd, t) =>
        let k := k.setTable pid t
        match filesAllocFd (k.table pid) writeFile with
        | none => (-1, freeAll (k.setTable pid ((k.table pid).setSlot readFd none)))
        | some (_, t) => (0, ((k.setTable pid t).publish readFile).publish writeFile)

def ttyAllocPty (k : Kernel) : Option (TtyRef × Kernel) :=
  (k.ptys.findIdx? fun t => !t.active).map fun i =>
    (.pty i, k.updateTty (.pty i) fun _ => ⟨true, true, 1, 0⟩)

/-- `tty_new_file` when there is memory. -/
def ttyNewFile (k : Kernel) (master : Bool) (tty : TtyRef) : Kernel :=
  (k.newFile (if master then .ttyMaster tty else .ttySlave tty)).updateTty tty fun t =>
    { t with
      slaveRefs := if master then t.slaveRefs else t.slaveRefs + 1
      refcount := t.refcount + 1 }

def ttyOpenpty (k : Kernel) (pid : ℕ) (granted : Bool) : ℤ × Kernel :=
  match ttyAllocPty k with
  | none => (-1, k)
  | some (tty, k) =>
    if !granted then (-1, ttyRelease k tty)
    else
      let id := k.files.length
      let k := ttyNewFile k true tty
      match filesAllocFd (k.table pid) id with
      | none => (-1, ttyRelease (filePut k id) tty)
      | some (fd, t) => (fd, ttyRelease ((k.setTable pid t).publish id) tty)

/-- A file that was just made gets a descriptor, if there is one. -/
def installFile (k : Kernel) (pid id : ℕ) : Kernel :=
  match filesAllocFd (k.table pid) id with
  | none => k
  | some (_, t) => (k.setTable pid t).publish id

/-- `tty_install_stdio`: three files, and then the first three descriptors of a new table. The
flags say for which files there is memory. -/
def ttyInstallStdio (k : Kernel) (pid : ℕ) (tty : TtyRef) (granted : Bool × Bool × Bool) : Kernel :=
  let first := k.files.length
  let k := if granted.1 then ttyNewFile k false tty else k
  let k := if granted.2.1 then ttyNewFile k false tty else k
  let k := if granted.2.2 then ttyNewFile k false tty else k
  if !granted.1 ∨ !granted.2.1 ∨ !granted.2.2 then k
  else
    [first, first + 1, first + 2].foldl (fun k id => installFile k pid id) k

def ttyLookupMaster (k : Kernel) (pid : ℕ) (fd : ℤ) : Option TtyRef :=
  if fd < 0 ∨ (FILEDESC_MAX : ℤ) ≤ fd then none
  else
    match ((k.table pid).slot fd.toNat).bind k.file with
    | some ⟨.ttyMaster tty, _, _, _, _⟩ => some tty
    | _ => none

/-- A new process with an empty table. -/
def newTask (k : Kernel) : Kernel := { k with tasks := k.tasks ++ [⟨true, FilesStruct.empty⟩] }

/-- The end of a process: `_exit`, `reap_child`, or `cleanup_exec_task` of one that was not
completed. -/
def endTask (k : Kernel) (pid : ℕ) : Kernel :=
  let k := filesCloseAll k pid
  { k with tasks := k.tasks.modify pid fun task => { task with alive := false } }

/-- A new process that gets its files from `give`, and ends again if it is not completed. -/
def startTask (k : Kernel) (completes : Bool) (give : Kernel → ℕ → Kernel) : Kernel :=
  let child := k.tasks.length
  let k := give (newTask k) child
  if completes then k else endTask k child

/-- The calls of the processes, and of the kernel for the first process. -/
inductive Call where
  | open_ (pid : ℕ) (found granted : Bool)
  | pipe (pid : ℕ) (info buffer readGranted writeGranted : Bool)
  | openpty (pid : ℕ) (granted : Bool)
  | dup (pid : ℕ) (oldfd : ℤ)
  | close (pid : ℕ) (fd : ℤ)
  /-- `sys_fork`. -/
  | fork (pid : ℕ) (completes : Bool)
  /-- `sys_execve`. -/
  | exec (pid : ℕ) (completes : Bool)
  /-- `sys_execve_pty`. -/
  | execPty (pid : ℕ) (masterFd : ℤ) (granted : Bool × Bool × Bool) (completes : Bool)
  /-- `kernel_execve_tty`, and `kernel_execve` with the console. -/
  | execTty (tty : TtyRef) (granted : Bool × Bool × Bool) (completes : Bool)
  | exit (pid : ℕ)
  /-- `reap_child`, for a process that has ended. -/
  | reap (pid : ℕ)

/-- The process that makes the call; the kernel makes `execTty` and `reap`. -/
def Call.caller : Call → Option ℕ
  | open_ pid _ _ | pipe pid _ _ _ _ | openpty pid _ | dup pid _ | close pid _ | fork pid _
  | exec pid _ | execPty pid _ _ _ | exit pid => some pid
  | execTty _ _ _ | reap _ => none

/-- The state after a call of a running process. -/
def perform (k : Kernel) : Call → Kernel
  | .open_ pid found granted => (ext3Open k pid found granted).2
  | .pipe pid info buffer r w => (pipe k pid info buffer r w).2
  | .openpty pid granted => (ttyOpenpty k pid granted).2
  | .dup pid oldfd => (filesDup k pid oldfd).2
  | .close pid fd => (close k pid fd).2
  | .fork pid completes => startTask k completes fun k child => filesClone k child pid
  | .exec pid completes => startTask k completes fun k child => filesCloneStdio k child pid
  | .execPty pid masterFd granted completes =>
    match ttyLookupMaster k pid masterFd with
    | none => k
    | some tty => startTask k completes fun k child => ttyInstallStdio k child tty granted
  | .execTty tty granted completes =>
    startTask k completes fun k child => ttyInstallStdio k child tty granted
  | .exit pid | .reap pid => endTask k pid

/-- A call; only running processes make calls. -/
def step (k : Kernel) (call : Call) : Option Kernel :=
  if (call.caller.map k.running).getD true then some (perform k call) else none

end Sodex.Files
