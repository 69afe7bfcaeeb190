import Sodex.OpenFiles
import Mathlib.Data.List.Count

/-!
# References to open files

A call in progress may hold references that stand in no descriptor table: to a file it has
just made, to one it is about to share, or to one it has just taken out of a table. The
books are kept for a kernel state together with the references held, and every primitive
moves a reference between a table and the call, makes one or gives one up.
-/
namespace Sodex.Files

open Runs Tally List Option

namespace Kernel

/-- The descriptor tables of all processes. -/
def tables (k : Kernel) : List (List (Option ℕ)) := k.tasks.map fun task => task.files.fd

/-- The number of descriptors, over all processes, that stand for the file. -/
def refs (k : Kernel) (id : ℕ) : ℕ := Tally.refs k.tables id

end Kernel

/-- The end of a pipe that an open file is: which end, and of which pipe. -/
def Kind.pipeEnd : Kind → Option (Bool × ℕ)
  | .pipeRead p => some (true, p)
  | .pipeWrite p => some (false, p)
  | _ => none

/-- Is the file an end of the pipe that is still open? -/
def isEnd (read : Bool) (p : ℕ) (f : OpenFile) : ℕ :=
  if f.live ∧ f.kind.pipeEnd = some (read, p) then 1 else 0

/-- The open read ends, or the open write ends, of a pipe. -/
def ends (files : List OpenFile) (read : Bool) (p : ℕ) : ℕ := tally (isEnd read p) files

/-- A file that `n` references stand for: it lives as long as there is one, and its close
operation runs when it goes. -/
def FileCounted (f : OpenFile) (n : ℕ) : Prop :=
  if f.live then f.refcount = n ∧ 0 < n ∧ f.closes = 0
  else n = 0 ∧ (f.opened = true → f.closes = if f.kind.hasClose then 1 else 0)

/-- A pipe with `r` open read ends and `w` open write ends: its buffer is kept as long as there
is one, and is released once. -/
def PipeCounted (q : Pipe) (r w : ℕ) : Prop :=
  if q.live then q.readOpen = r ∧ q.writeOpen = w ∧ 0 < r + w ∧ q.released = 0
  else r = 0 ∧ w = 0 ∧ q.released = 1

/-- The books of the open files, with the references that the call in progress holds. -/
structure Counted (k : Kernel) (held : List ℕ) : Prop where
  known : ∀ id, k.files.length ≤ id → k.refs id + held.count id = 0
  file : ∀ id f, k.files[id]? = some f → FileCounted f (k.refs id + held.count id)
  pipe : ∀ p q, k.pipes[p]? = some q → PipeCounted q (ends k.files true p) (ends k.files false p)
  fresh : ∀ read p, k.pipes.length ≤ p → ends k.files read p = 0

variable {k k' : Kernel} {held : List ℕ} {id pid fd : ℕ} {f : OpenFile} {t : FilesStruct}

namespace Kernel

theorem tables_getElem (k : Kernel) (pid : ℕ) (hpid : pid < k.tasks.length) :
    k.tables[pid]? = some (k.table pid).fd := by
  simp [tables, table, getElem?_eq_getElem hpid]

@[simp] theorem setTable_tables (k : Kernel) (pid : ℕ) (t : FilesStruct) :
    (k.setTable pid t).tables = k.tables.set pid t.fd := by
  ext1 i
  simp only [setTable, tables, getElem?_map, getElem?_modify, getElem?_set,
    length_map]
  by_cases hi : pid = i
  · subst hi
    by_cases hlt : pid < k.tasks.length
    · simp [hlt]
    · simp [hlt]
  · simp [hi]

theorem tables_set_self (k : Kernel) (pid : ℕ) : k.tables.set pid (k.table pid).fd = k.tables := by
  by_cases hpid : pid < k.tasks.length
  · ext1 i
    rw [getElem?_set]
    split
    · rename_i hi
      rw [← hi, k.tables_getElem pid hpid, if_pos (by simpa [tables] using hpid)]
    · rfl
  · exact set_eq_of_length_le (by simpa [tables] using hpid)

@[simp] theorem setTable_files (k : Kernel) (pid : ℕ) (t : FilesStruct) :
    (k.setTable pid t).files = k.files := rfl

@[simp] theorem setTable_pipes (k : Kernel) (pid : ℕ) (t : FilesStruct) :
    (k.setTable pid t).pipes = k.pipes := rfl

@[simp] theorem setTable_length (k : Kernel) (pid : ℕ) (t : FilesStruct) :
    (k.setTable pid t).tasks.length = k.tasks.length := by
  simp [setTable]

theorem setTable_table (k : Kernel) (t : FilesStruct) (hpid : pid < k.tasks.length) :
    (k.setTable pid t).table pid = t := by
  simp [setTable, table, getElem?_eq_getElem hpid]

end Kernel

theorem setFreefd_fd (t : FilesStruct) (n : ℕ) : (t.setFreefd n).fd = t.fd := rfl

@[simp] theorem setFreefd_slot (t : FilesStruct) (n fd : ℕ) : (t.setFreefd n).slot fd = t.slot fd :=
  rfl

theorem slot_eq (t : FilesStruct) (hfd : fd < FILEDESC_MAX) : t.fd[fd]? = some (t.slot fd) := by
  have hlt : fd < t.fd.length := t.size ▸ hfd
  simp [FilesStruct.slot, getElem?_eq_getElem hlt]

theorem lt_of_slot (h : t.slot fd = some id) : fd < FILEDESC_MAX := by
  by_contra hfd
  have hnone : t.fd[fd]? = none := getElem?_eq_none (by rw [t.size]; omega)
  simp [FilesStruct.slot, hnone] at h

/-- A descriptor of a process that exists. -/
theorem lt_of_table_slot (h : (k.table pid).slot fd = some id) : pid < k.tasks.length := by
  by_contra hpid
  have hnone : k.tasks[pid]? = none := getElem?_eq_none (Nat.le_of_not_lt hpid)
  have hempty : k.table pid = FilesStruct.empty := by simp [Kernel.table, hnone]
  have hslot : FilesStruct.empty.slot fd = none := by
    unfold FilesStruct.slot FilesStruct.empty
    by_cases hfd : fd < FILEDESC_MAX <;> simp [hfd]
  simp [hempty, hslot] at h

theorem setSlot_slot (t : FilesStruct) (hfd : fd < FILEDESC_MAX) (v : Option ℕ) :
    (t.setSlot fd v).slot fd = v := by
  have hlt : fd < t.fd.length := t.size ▸ hfd
  simp [FilesStruct.setSlot, FilesStruct.slot, hlt]

theorem setSlot_slot_ne (t : FilesStruct) {other : ℕ} (h : fd ≠ other) (v : Option ℕ) :
    (t.setSlot fd v).slot other = t.slot other := by
  simp [FilesStruct.setSlot, FilesStruct.slot, h]

/-- A descriptor is cleared that was free before it was set. -/
theorem clear_setSlot (t : FilesStruct) (hfd : fd < FILEDESC_MAX) (hfree : t.slot fd = none)
    (v : Option ℕ) : ((t.setSlot fd v).setSlot fd none).fd = t.fd := by
  have hget : t.fd[fd]? = some none := by rw [slot_eq t hfd, hfree]
  obtain ⟨hlt, hnone⟩ := List.getElem?_eq_some_iff.mp hget
  simp only [FilesStruct.setSlot, set_set]
  rw [← hnone, set_getElem_self]

theorem filesFindFreeFd_free (h : filesFindFreeFd t 0 = some fd) :
    fd < FILEDESC_MAX ∧ t.slot fd = none := by
  have hfind : t.fd.findIdx? isNone = some fd := by
    cases hi : t.fd.findIdx? isNone with
    | none => simp [filesFindFreeFd, hi] at h
    | some i => simpa [filesFindFreeFd, hi] using h
  obtain ⟨hlt, hnone, -⟩ := findIdx?_eq_some_iff_getElem.mp hfind
  exact ⟨t.size ▸ hlt, by simpa [FilesStruct.slot, getElem?_eq_getElem hlt] using hnone⟩

theorem filesFindFreeFd_first (hfd : fd < FILEDESC_MAX) (hused : ∀ i < fd, t.slot i ≠ none)
    (hfree : t.slot fd = none) : filesFindFreeFd t 0 = some fd := by
  have hlt : fd < t.fd.length := t.size ▸ hfd
  have hfind : t.fd.findIdx? isNone = some fd := by
    refine findIdx?_eq_some_iff_getElem.mpr ⟨hlt, ?_, fun i hi => ?_⟩
    · simpa [FilesStruct.slot, getElem?_eq_getElem hlt] using hfree
    · simpa [FilesStruct.slot, getElem?_eq_getElem (Nat.lt_trans hi hlt)] using hused i hi
  simp [filesFindFreeFd, hfind]

/-- A descriptor that `files_alloc_fd` returns was free and stands for the file now. -/
theorem filesAllocFd_some {t' : FilesStruct} (h : filesAllocFd t id = some (fd, t')) :
    fd < FILEDESC_MAX ∧ t.slot fd = none ∧ t'.fd = (t.setSlot fd (some id)).fd := by
  simp only [filesAllocFd, map_eq_some_iff, Prod.mk.injEq] at h
  obtain ⟨fd, hfind, rfl, rfl⟩ := h
  obtain ⟨hfd, hfree⟩ := filesFindFreeFd_free hfind
  exact ⟨hfd, hfree, rfl⟩

/-- A descriptor that was just allocated is cleared again. -/
theorem tables_uninstall (hpid : pid < k.tasks.length)
    (halloc : filesAllocFd (k.table pid) id = some (fd, t)) :
    ((k.setTable pid t).setTable pid (((k.setTable pid t).table pid).setSlot fd none)).tables =
      k.tables := by
  obtain ⟨hfd, hfree, ht⟩ := filesAllocFd_some halloc
  have hclear : (t.setSlot fd none).fd = (k.table pid).fd := by
    rw [← clear_setSlot (k.table pid) hfd hfree (some id)]
    exact congrArg (set · fd none) ht
  rw [Kernel.setTable_table k t hpid, Kernel.setTable_tables, Kernel.setTable_tables, set_set,
    hclear, Kernel.tables_set_self]

/-- One descriptor of one process is changed. -/
theorem refs_setTable (hpid : pid < k.tasks.length) (hfd : fd < FILEDESC_MAX) (v : Option ℕ)
    (ht : t.fd = ((k.table pid).setSlot fd v).fd) (id : ℕ) :
    (k.setTable pid t).refs id + hit id ((k.table pid).slot fd) = k.refs id + hit id v := by
  unfold Kernel.refs
  rw [Kernel.setTable_tables, ht]
  exact refs_set (k.tables_getElem pid hpid) (slot_eq _ hfd) v id

namespace Counted

/-- References move between the tables and the call. -/
theorem move {held' : List ℕ} (h : Counted k held) (hfiles : k'.files = k.files)
    (hpipes : k'.pipes = k.pipes)
    (hrefs : ∀ id, k'.refs id + held'.count id = k.refs id + held.count id) :
    Counted k' held' := by
  refine ⟨fun id hid => ?_, fun id f hf => ?_, fun p q hq => ?_, fun read p hp => ?_⟩
  · rw [hrefs]
    exact h.known id (hfiles ▸ hid)
  · rw [hrefs]
    exact h.file id f (hfiles ▸ hf)
  · rw [hfiles]
    exact h.pipe p q (hpipes ▸ hq)
  · rw [hfiles]
    exact h.fresh read p (hpipes ▸ hp)

theorem perm {held' : List ℕ} (h : Counted k held) (hperm : held'.Perm held) : Counted k held' :=
  h.move rfl rfl fun id => by rw [hperm.count_eq id]

/-- The books depend on the files, the pipes and the tables only. -/
theorem congr (h : Counted k held) (hfiles : k'.files = k.files) (hpipes : k'.pipes = k.pipes)
    (htables : k'.tables = k.tables) : Counted k' held :=
  h.move hfiles hpipes fun id => by rw [Kernel.refs, htables, ← Kernel.refs]

theorem count_cons_hit (id id' : ℕ) (held : List ℕ) :
    (id :: held).count id' = held.count id' + hit id' (some id) := by
  by_cases hid : id = id'
  · subst hid
    simp
  · rw [count_cons_of_ne hid, hit_of_ne hid, add_zero]

/-- A reference that the call holds goes to a free descriptor. -/
theorem place (h : Counted k (id :: held)) (hpid : pid < k.tasks.length) (hfd : fd < FILEDESC_MAX)
    (hfree : (k.table pid).slot fd = none) (ht : t.fd = ((k.table pid).setSlot fd (some id)).fd) :
    Counted (k.setTable pid t) held := by
  refine h.move rfl rfl fun id' => ?_
  have hmoved := refs_setTable hpid hfd (some id) ht id'
  rw [hfree, hit_none] at hmoved
  rw [count_cons_hit]
  omega

/-- `files_alloc_fd` for a file that the call holds. -/
theorem install (h : Counted k (id :: held)) (hpid : pid < k.tasks.length)
    (halloc : filesAllocFd (k.table pid) id = some (fd, t)) :
    Counted (k.setTable pid t) held := by
  obtain ⟨hfd, hfree, ht⟩ := filesAllocFd_some halloc
  exact h.place hpid hfd hfree ht

/-- A descriptor is cleared, and the call holds its reference. -/
theorem vacate (h : Counted k held) (hslot : (k.table pid).slot fd = some id)
    (ht : t.fd = ((k.table pid).setSlot fd none).fd) :
    Counted (k.setTable pid t) (id :: held) := by
  refine h.move rfl rfl fun id' => ?_
  have hmoved := refs_setTable (lt_of_table_slot hslot) (lt_of_slot hslot) none ht id'
  rw [hslot, hit_none] at hmoved
  rw [count_cons_hit]
  omega

/-- A table changes only in `fs_freefd`. -/
theorem sameSlots (h : Counted k held) (pid : ℕ) (t : FilesStruct) (ht : t.fd = (k.table pid).fd) :
    Counted (k.setTable pid t) held :=
  h.congr rfl rfl (by rw [Kernel.setTable_tables, ht, Kernel.tables_set_self])

/-- What the tables refer to is there and lives. -/
theorem live_of_pos (h : Counted k held) (hpos : 0 < k.refs id + held.count id) :
    ∃ f, k.files[id]? = some f ∧ f.live = true ∧ f.refcount = k.refs id + held.count id ∧
      f.closes = 0 := by
  have hlt : id < k.files.length := by
    by_contra hge
    exact (Nat.ne_of_gt hpos) (h.known id (Nat.le_of_not_lt hge))
  refine ⟨k.files[id], getElem?_eq_getElem hlt, ?_⟩
  have hcounted := h.file id _ (getElem?_eq_getElem hlt)
  unfold FileCounted at hcounted
  split at hcounted
  · exact ⟨‹_›, hcounted.1, hcounted.2.2⟩
  · exact absurd hcounted.1 (Nat.ne_of_gt hpos)

theorem refs_pos_of_slot (hslot : (k.table pid).slot fd = some id) : 0 < k.refs id :=
  refs_pos (k.tables_getElem pid (lt_of_table_slot hslot))
    (by rw [slot_eq _ (lt_of_slot hslot), hslot])

/-- The entry of one file changes, and with it the references the call holds to it. -/
theorem setFile {held' : List ℕ} {f' : OpenFile} (h : Counted k held) (hf : k.files[id]? = some f)
    (hfiles : k'.files = k.files.set id f') (htables : k'.tables = k.tables)
    (hheld : ∀ id', id' ≠ id → held'.count id' = held.count id')
    (hcounted : FileCounted f' (k.refs id + held'.count id))
    (hpipe : ∀ p q, k'.pipes[p]? = some q →
      PipeCounted q (ends k'.files true p) (ends k'.files false p))
    (hfresh : ∀ read p, k'.pipes.length ≤ p → ends k'.files read p = 0) : Counted k' held' := by
  have hrefs (id' : ℕ) : k'.refs id' = k.refs id' := by
    rw [Kernel.refs, htables, ← Kernel.refs]
  have hlt : id < k.files.length := (List.getElem?_eq_some_iff.mp hf).1
  refine ⟨fun id' hid' => ?_, fun id' g hg => ?_, hpipe, hfresh⟩
  · rw [hfiles, length_set] at hid'
    rw [hrefs, hheld id' (by omega)]
    exact h.known id' hid'
  · rw [hrefs]
    rw [hfiles] at hg
    by_cases hid : id' = id
    · subst hid
      rw [getElem?_set_self hlt] at hg
      exact some.inj hg ▸ hcounted
    · rw [getElem?_set_ne (Ne.symm hid)] at hg
      rw [hheld id' hid]
      exact h.file id' g hg

/-- The entry of one file changes, but not what pipe end it is. -/
theorem setFile_same {held' : List ℕ} {f' : OpenFile} (h : Counted k held)
    (hf : k.files[id]? = some f) (hfiles : k'.files = k.files.set id f')
    (hpipes : k'.pipes = k.pipes) (htables : k'.tables = k.tables)
    (hheld : ∀ id', id' ≠ id → held'.count id' = held.count id')
    (hcounted : FileCounted f' (k.refs id + held'.count id))
    (hend : ∀ read p, isEnd read p f' = isEnd read p f) : Counted k' held' := by
  have hends (read : Bool) (p : ℕ) : ends k'.files read p = ends k.files read p := by
    rw [hfiles]
    exact tally_congr_set hf (hend read p)
  refine h.setFile hf hfiles htables hheld hcounted (fun p q hq => ?_) fun read p hp => ?_
  · rw [hends, hends]
    exact h.pipe p q (hpipes ▸ hq)
  · rw [hends]
    exact h.fresh read p (hpipes ▸ hp)

end Counted

theorem updateFile_files (k : Kernel) (g : OpenFile → OpenFile) (hf : k.files[id]? = some f) :
    (k.updateFile id g).files = k.files.set id (g f) := by
  obtain ⟨hlt, rfl⟩ := List.getElem?_eq_some_iff.mp hf
  ext1 i
  simp only [Kernel.updateFile, List.getElem?_modify, List.getElem?_set]
  by_cases hi : id = i
  · subst hi
    simp [hlt]
  · simp [hi]

namespace Counted

theorem get (h : Counted k held) (hpos : 0 < k.refs id) : Counted (fileGet k id) (id :: held) := by
  obtain ⟨f, hf, hlive, hcount, hcloses⟩ := h.live_of_pos (by omega : 0 < k.refs id + held.count id)
  refine h.setFile_same hf (updateFile_files k _ hf) rfl rfl
    (fun id' hid' => count_cons_of_ne (Ne.symm hid')) ?_ fun read p => rfl
  simp only [FileCounted, hlive, if_true, count_cons_self, hcloses, and_true]
  omega

/-- The call that made a file returns its descriptor. -/
theorem publish (h : Counted k held) (id : ℕ) (hmem : id ∈ held) : Counted (k.publish id) held := by
  have hpos : 0 < k.refs id + held.count id :=
    Nat.add_pos_right _ (count_pos_iff.mpr hmem)
  obtain ⟨f, hf, hlive, hcount, hcloses⟩ := h.live_of_pos hpos
  refine h.setFile_same hf (updateFile_files k _ hf) rfl rfl (fun _ _ => rfl) ?_ fun read p => rfl
  simp only [FileCounted, hlive, if_true, hcloses, and_true]
  exact ⟨hcount, hpos⟩

end Counted

section TtyFrame

variable (tty : TtyRef) (g : Tty → Tty)

@[simp] theorem updateTty_files : (k.updateTty tty g).files = k.files := by
  cases tty <;> rfl

@[simp] theorem updateTty_pipes : (k.updateTty tty g).pipes = k.pipes := by
  cases tty <;> rfl

@[simp] theorem updateTty_tasks : (k.updateTty tty g).tasks = k.tasks := by
  cases tty <;> rfl

end TtyFrame

/-- The pipes after the close operation of a file. -/
def Kind.closePipe (kind : Kind) (pipes : List Pipe) : List Pipe :=
  match kind.pipeEnd with
  | none => pipes
  | some (read, p) => pipes.modify p fun pipe => pipe.close read

section CloseOperation

variable (k) (kind : Kind)

@[simp] theorem closeOperation_files : (closeOperation k kind).files = k.files := by
  cases kind <;>
    simp [closeOperation, ttyMasterFileClose, ttySlaveFileClose, ttyRelease, pipeClose]

@[simp] theorem closeOperation_tasks : (closeOperation k kind).tasks = k.tasks := by
  cases kind <;>
    simp [closeOperation, ttyMasterFileClose, ttySlaveFileClose, ttyRelease, pipeClose]

@[simp] theorem closeOperation_pipes : (closeOperation k kind).pipes = kind.closePipe k.pipes := by
  cases kind <;>
    simp [closeOperation, ttyMasterFileClose, ttySlaveFileClose, ttyRelease, pipeClose,
      Kind.closePipe, Kind.pipeEnd]

end CloseOperation

/-- A file without references left. -/
def OpenFile.closed (f : OpenFile) : OpenFile :=
  { f with
    refcount := 0
    closes := f.closes + if f.kind.hasClose then 1 else 0
    live := false }

@[simp] theorem filePut_tasks (k : Kernel) (id : ℕ) : (filePut k id).tasks = k.tasks := by
  unfold filePut
  cases k.file id with
  | none => rfl
  | some f =>
    dsimp only
    split
    · rfl
    · simp [Kernel.freeFile, Kernel.updateFile]

theorem filePut_last (hf : k.files[id]? = some f) (hcount : f.refcount = 1) :
    (filePut k id).files = k.files.set id f.closed ∧
      (filePut k id).pipes = f.kind.closePipe k.pipes := by
  have hlt : id < k.files.length := (List.getElem?_eq_some_iff.mp hf).1
  simp only [filePut, Kernel.file, hf, hcount, Nat.sub_self, Nat.lt_irrefl, if_false]
  constructor
  · rw [Kernel.freeFile, updateFile_files (f := { f.closed with live := f.live })]
    · rw [closeOperation_files, updateFile_files k _ hf, set_set]
      rfl
    · rw [closeOperation_files, updateFile_files k _ hf, getElem?_set_self hlt]
      rfl
  · exact closeOperation_pipes _ _

theorem filePut_more (hf : k.files[id]? = some f) (hcount : 1 < f.refcount) :
    (filePut k id).files = k.files.set id { f with refcount := f.refcount - 1 } ∧
      (filePut k id).pipes = k.pipes := by
  have hmore : 0 < f.refcount - 1 := by omega
  simp only [filePut, Kernel.file, hf, if_pos hmore]
  exact ⟨updateFile_files k _ hf, rfl⟩

theorem PipeCounted.close {q : Pipe} {r w r' w' : ℕ} (h : PipeCounted q r w) (read : Bool)
    (hr : r = r' + if read then 1 else 0) (hw : w = w' + if read then 0 else 1) :
    PipeCounted (q.close read) r' w' := by
  cases read <;> cases hlive : q.live <;>
    simp only [PipeCounted, Pipe.close, hlive, if_true, if_false, Bool.false_eq_true] at h ⊢
  all_goals grind

theorem ends_closed {files : List OpenFile} (hf : files[id]? = some f) (read : Bool) (p : ℕ) :
    ends (files.set id f.closed) read p + isEnd read p f = ends files read p := by
  have hset := tally_set (g := isEnd read p) hf f.closed
  have hzero : isEnd read p f.closed = 0 := by simp [isEnd, OpenFile.closed]
  rw [hzero] at hset
  exact hset

theorem isEnd_of_pipeEnd_ne {read : Bool} {p : ℕ} (h : f.kind.pipeEnd ≠ some (read, p)) :
    isEnd read p f = 0 :=
  if_neg fun hend => h hend.2

theorem isEnd_of_live {read : Bool} {p : ℕ} (hlive : f.live = true)
    (h : f.kind.pipeEnd = some (read, p)) : isEnd read p f = 1 :=
  if_pos ⟨hlive, h⟩

namespace Counted

theorem pipe_closed (h : Counted k held) (hf : k.files[id]? = some f) (hlive : f.live = true)
    {p : ℕ} {q : Pipe} (hq : (f.kind.closePipe k.pipes)[p]? = some q) :
    PipeCounted q (ends (k.files.set id f.closed) true p)
      (ends (k.files.set id f.closed) false p) := by
  have hread := ends_closed hf true p
  have hwrite := ends_closed hf false p
  by_cases hend : ∃ read, f.kind.pipeEnd = some (read, p)
  · obtain ⟨read, hend⟩ := hend
    simp only [Kind.closePipe, hend, List.getElem?_modify_eq, Option.map_eq_map,
      map_eq_some_iff] at hq
    obtain ⟨q, hq, rfl⟩ := hq
    refine (h.pipe p q hq).close read ?_ ?_
    · cases read
      · rw [isEnd_of_pipeEnd_ne (by simp [hend])] at hread
        simpa using hread.symm
      · rw [isEnd_of_live hlive hend] at hread
        exact hread.symm
    · cases read
      · rw [isEnd_of_live hlive hend] at hwrite
        exact hwrite.symm
      · rw [isEnd_of_pipeEnd_ne (by simp [hend])] at hwrite
        simpa using hwrite.symm
  · -- another pipe, or none: neither the pipe nor its ends change
    rw [isEnd_of_pipeEnd_ne fun he => hend ⟨_, he⟩] at hread hwrite
    have hsame : (f.kind.closePipe k.pipes)[p]? = k.pipes[p]? := by
      unfold Kind.closePipe
      split
      · rfl
      · rename_i read p' he
        exact getElem?_modify_ne _ _ fun hp => hend ⟨read, hp ▸ he⟩
    have hcounted := h.pipe p q (hsame ▸ hq)
    rwa [← hread, ← hwrite] at hcounted

@[simp] theorem closePipe_length (kind : Kind) (pipes : List Pipe) :
    (kind.closePipe pipes).length = pipes.length := by
  unfold Kind.closePipe
  split <;> simp

/-- `file_put` of a reference that the call holds. -/
theorem put (h : Counted k (id :: held)) : Counted (filePut k id) held := by
  obtain ⟨f, hf, hlive, hcount, hcloses⟩ := h.live_of_pos
    (by rw [count_cons_self]; omega : 0 < k.refs id + (id :: held).count id)
  have hheld : ∀ id', id' ≠ id → held.count id' = (id :: held).count id' :=
    fun id' hid' => (count_cons_of_ne (Ne.symm hid')).symm
  rw [count_cons_self] at hcount
  have htables : (filePut k id).tables = k.tables := by simp [Kernel.tables]
  by_cases hlast : f.refcount = 1
  · obtain ⟨hfiles, hpipes⟩ := filePut_last hf hlast
    refine h.setFile hf hfiles htables hheld ?_ ?_ ?_
    · refine (if_neg (by simp [OpenFile.closed])).mpr ⟨by omega, fun _ => ?_⟩
      simp [OpenFile.closed, hcloses]
    · rw [hfiles, hpipes]
      exact fun p q hq => h.pipe_closed hf hlive hq
    · intro read p hp
      rw [hpipes, closePipe_length] at hp
      have hends := ends_closed hf read p
      rw [h.fresh read p hp] at hends
      rw [hfiles]
      omega
  · obtain ⟨hfiles, hpipes⟩ := filePut_more (k := k) hf (by omega)
    refine h.setFile_same hf hfiles hpipes htables hheld ?_ fun read p => rfl
    exact (if_pos hlive).mpr ⟨by simp only; omega, by omega, hcloses⟩

/-- New files and new pipes; the call holds references to the new files. -/
theorem grow (h : Counted k held) (F : List OpenFile) (P : List Pipe) (new : List ℕ)
    (hfiles : k'.files = k.files ++ F) (hpipes : k'.pipes = k.pipes ++ P)
    (htables : k'.tables = k.tables)
    (hnew : ∀ id ∈ new, k.files.length ≤ id ∧ id < k.files.length + F.length)
    (hfile : ∀ i f, F[i]? = some f → FileCounted f (new.count (k.files.length + i)))
    (hpipe : ∀ i q, P[i]? = some q → PipeCounted q (ends F true (k.pipes.length + i))
      (ends F false (k.pipes.length + i)))
    (hends : ∀ read p, p < k.pipes.length ∨ k.pipes.length + P.length ≤ p → ends F read p = 0) :
    Counted k' (new ++ held) := by
  have hrefs (id : ℕ) : k'.refs id = k.refs id := by
    rw [Kernel.refs, htables, ← Kernel.refs]
  have hold {id : ℕ} (hid : id ∉ new) : (new ++ held).count id = held.count id := by
    rw [count_append, count_eq_zero_of_not_mem hid, Nat.zero_add]
  have hsum (read : Bool) (p : ℕ) :
      ends k'.files read p = ends k.files read p + ends F read p := by
    rw [hfiles, ends, tally_append, ← ends, ← ends]
  refine ⟨fun id hid => ?_, fun id f hf => ?_, fun p q hq => ?_, fun read p hp => ?_⟩
  · rw [hfiles, length_append] at hid
    rw [hrefs, hold fun hmem => absurd (hnew id hmem).2 (by omega)]
    exact h.known id (by omega)
  · rw [hrefs]
    rw [hfiles] at hf
    by_cases hlt : id < k.files.length
    · rw [getElem?_append_left hlt] at hf
      rw [hold fun hmem => absurd (hnew id hmem).1 (by omega)]
      exact h.file id f hf
    · have hge : k.files.length ≤ id := Nat.le_of_not_lt hlt
      rw [getElem?_append_right hge] at hf
      have hzero := h.known id hge
      have hcounted := hfile _ f hf
      rw [Nat.add_sub_cancel' hge] at hcounted
      rw [count_append, show k.refs id + (new.count id + held.count id) = new.count id by omega]
      exact hcounted
  · rw [hsum, hsum]
    rw [hpipes] at hq
    by_cases hlt : p < k.pipes.length
    · rw [getElem?_append_left hlt] at hq
      rw [hends true p (.inl hlt), hends false p (.inl hlt)]
      exact h.pipe p q hq
    · have hge : k.pipes.length ≤ p := Nat.le_of_not_lt hlt
      rw [getElem?_append_right hge] at hq
      have hcounted := hpipe _ q hq
      rw [Nat.add_sub_cancel' hge] at hcounted
      rw [h.fresh true p hge, h.fresh false p hge, Nat.zero_add, Nat.zero_add]
      exact hcounted
  · rw [hpipes, length_append] at hp
    rw [hsum, h.fresh read p (by omega), hends read p (.inr hp)]

end Counted

end Sodex.Files
