import Sodex.OpenFileCounts

/-!
# Reference counts over runs of calls

Every call leaves the books of the open files right when it ends, as long as `files_dup`
finds a free descriptor for an open file and `tty_install_stdio` gets memory for all of its
files or for none.
-/
namespace Sodex.Files

open Runs Tally List

variable {k : Kernel} {id pid fd : ℕ} {held : List ℕ}

namespace Counted

/-- A file is made, and the call holds its reference. -/
theorem newFile (h : Counted k held) (kind : Kind) (hkind : kind.pipeEnd = none) :
    Counted (k.newFile kind) (k.files.length :: held) := by
  refine h.grow [⟨kind, 1, true, false, 0⟩] [] [k.files.length] rfl (append_nil _).symm rfl
    (by simp) ?_ (by simp) ?_
  · intro i f hf
    obtain ⟨rfl, rfl⟩ : i = 0 ∧ f = ⟨kind, 1, true, false, 0⟩ := by
      cases i <;> simp_all
    simp [FileCounted]
  · intro read p _
    simp [ends, isEnd, hkind]

/-- Files and pipes that were given up before anything could refer to them. -/
theorem discard (h : Counted k held) {k' : Kernel} (F : List OpenFile) (P : List Pipe)
    (hfiles : k'.files = k.files ++ F) (hpipes : k'.pipes = k.pipes ++ P)
    (htables : k'.tables = k.tables) (hF : ∀ f ∈ F, f.live = false ∧ f.opened = false)
    (hP : ∀ q ∈ P, q.live = false ∧ q.released = 1) : Counted k' held := by
  have hnone (read : Bool) (p : ℕ) : ends F read p = 0 :=
    tally_eq_zero fun f hf => by simp [isEnd, (hF f hf).1]
  refine h.grow F P [] hfiles hpipes htables (by simp) (fun i f hf => ?_) (fun i q hq => ?_)
    fun read p _ => hnone read p
  · simp [FileCounted, hF f (mem_of_getElem? hf)]
  · simp [PipeCounted, hP q (mem_of_getElem? hq), hnone]

/-- A pipe and its two ends are made, and the call holds their references. -/
theorem newPipe (h : Counted k held) :
    Counted (({ k with pipes := k.pipes ++ [⟨1, 1, true, 0⟩] } : Kernel).newFile
      (.pipeRead k.pipes.length) |>.newFile (.pipeWrite k.pipes.length))
      (k.files.length :: (k.files.length + 1) :: held) := by
  refine h.grow [⟨.pipeRead k.pipes.length, 1, true, false, 0⟩,
    ⟨.pipeWrite k.pipes.length, 1, true, false, 0⟩] [⟨1, 1, true, 0⟩]
    [k.files.length, k.files.length + 1] (append_assoc _ _ _) rfl rfl (by simp) ?_ ?_ ?_
  · intro i f hf
    rcases i with _ | _ | i
    · obtain rfl := Option.some.inj hf
      simp [FileCounted]
    · obtain rfl := Option.some.inj hf
      simp [FileCounted]
    · simp at hf
  · intro i q hq
    rcases i with _ | i
    · obtain rfl := Option.some.inj hq
      simp [PipeCounted, ends, isEnd, Kind.pipeEnd]
    · simp at hq
  · intro read p hp
    have hne : k.pipes.length ≠ p := by
      simp only [length_singleton] at hp
      omega
    simp [ends, isEnd, Kind.pipeEnd, hne]

/-- A pipe that could not be completed, with the files made for it. -/
theorem discardPipe (h : Counted k held) {k' : Kernel} (F : List OpenFile)
    (hfiles : k'.files = k.files ++ F)
    (hpipes : k'.pipes = (k.pipes ++ [(⟨1, 1, true, 0⟩ : Pipe)]).modify k.pipes.length
      fun pipe => { pipe with live := false, released := 1 })
    (htables : k'.tables = k.tables) (hF : ∀ f ∈ F, f.live = false ∧ f.opened = false) :
    Counted k' held :=
  h.discard F [⟨1, 1, false, 1⟩] hfiles (hpipes.trans (modify_append_length _ _ _)) htables hF
    (by simp)

end Counted

theorem ext3Open_counted (h : Counted k []) (hpid : pid < k.tasks.length) (found granted : Bool) :
    Counted (ext3Open k pid found granted).2 [] := by
  unfold ext3Open
  split
  · exact h
  · dsimp only
    split
    · exact h.discard [⟨.file, 1, false, false, 0⟩] [] (modify_append_length _ _ _)
        (append_nil _).symm rfl (by simp) (by simp)
    · rename_i fd t halloc
      exact ((h.newFile .file rfl).publish k.files.length (by simp)).install hpid halloc

/-- Both files of a pipe are freed. -/
theorem free_two (files : List OpenFile) (f g : OpenFile) (c : OpenFile → OpenFile) :
    ((files ++ [f] ++ [g]).modify files.length c).modify (files.length + 1) c =
      files ++ [c f, c g] := by
  rw [append_assoc, modify_append_length, modify_append_add]
  rfl

theorem pipe_counted (h : Counted k []) (hpid : pid < k.tasks.length) (info buffer r w : Bool) :
    Counted (pipe k pid info buffer r w).2 [] := by
  unfold pipe
  split
  · exact h
  · dsimp only
    split
    · -- no memory for both files
      split
      · exact h.discardPipe [⟨.pipeRead k.pipes.length, 1, false, false, 0⟩]
          (modify_append_length _ _ _) rfl rfl (by simp)
      · split
        · exact h.discardPipe [⟨.pipeWrite k.pipes.length, 1, false, false, 0⟩]
            (modify_append_length _ _ _) rfl rfl (by simp)
        · exact h.discardPipe [] (append_nil _).symm rfl rfl (by simp)
    · split
      · exact h.discardPipe [⟨.pipeRead k.pipes.length, 1, false, false, 0⟩,
          ⟨.pipeWrite k.pipes.length, 1, false, false, 0⟩] (free_two _ _ _ _) rfl rfl (by simp)
      · rename_i readFd t hread
        split
        · -- the descriptor of the read end is cleared again
          exact h.discardPipe [⟨.pipeRead k.pipes.length, 1, false, false, 0⟩,
            ⟨.pipeWrite k.pipes.length, 1, false, false, 0⟩] (free_two _ _ _ _) rfl
            (tables_uninstall hpid hread) (by simp)
        · rename_i writeFd t' hwrite
          have hnew := (h.newPipe.publish k.files.length (by simp)).publish (k.files.length + 1)
            (by simp)
          have hpid' : pid < (k.setTable pid t).tasks.length :=
            Nat.lt_of_lt_of_eq hpid (k.setTable_length pid t).symm
          exact (hnew.install hpid hread).install hpid' hwrite

/-- The terminals have no part in the books. -/
theorem Counted.updateTty (h : Counted k held) (tty : TtyRef) (g : Tty → Tty) :
    Counted (k.updateTty tty g) held :=
  h.congr (by simp) (by simp) (by simp [Kernel.tables])

theorem Counted.ttyRelease (h : Counted k held) (tty : TtyRef) : Counted (ttyRelease k tty) held :=
  h.updateTty tty _

theorem Counted.ttyNewFile (h : Counted k held) (master : Bool) (tty : TtyRef) :
    Counted (ttyNewFile k master tty) (k.files.length :: held) := by
  refine Counted.updateTty (h.newFile _ ?_) tty _
  cases master <;> rfl

@[simp] theorem ttyNewFile_tasks (k : Kernel) (master : Bool) (tty : TtyRef) :
    (ttyNewFile k master tty).tasks = k.tasks := by
  simp [ttyNewFile, Kernel.newFile]

@[simp] theorem ttyNewFile_length (k : Kernel) (master : Bool) (tty : TtyRef) :
    (ttyNewFile k master tty).files.length = k.files.length + 1 := by
  simp [ttyNewFile, Kernel.newFile]

theorem ttyAllocPty_counted {tty : TtyRef} {k' : Kernel} (h : Counted k held)
    (halloc : ttyAllocPty k = some (tty, k')) : Counted k' held ∧ k'.tasks = k.tasks := by
  simp only [ttyAllocPty, Option.map_eq_some_iff, Prod.mk.injEq] at halloc
  obtain ⟨i, -, rfl, rfl⟩ := halloc
  exact ⟨h.updateTty _ _, by simp⟩

theorem ttyOpenpty_counted (h : Counted k []) (hpid : pid < k.tasks.length) (granted : Bool) :
    Counted (ttyOpenpty k pid granted).2 [] := by
  unfold ttyOpenpty
  split
  · exact h
  · rename_i tty k₁ hpty
    obtain ⟨h₁, htasks⟩ := ttyAllocPty_counted h hpty
    split
    · exact h₁.ttyRelease tty
    · dsimp only
      have hnew := h₁.ttyNewFile true tty
      split
      · exact hnew.put.ttyRelease tty
      · rename_i fd t halloc
        have hpid' : pid < (ttyNewFile k₁ true tty).tasks.length := by simpa [htasks] using hpid
        exact ((hnew.publish k₁.files.length (by simp)).install hpid' halloc).ttyRelease tty

/-- `files_dup` of an open file finds a free descriptor. -/
def Sharable (k : Kernel) (pid : ℕ) (oldfd : ℤ) : Prop :=
  oldfd < 0 ∨ (FILEDESC_MAX : ℤ) ≤ oldfd ∨ (k.table pid).slot oldfd.toNat = none ∨
    filesFindFreeFd (k.table pid) 0 ≠ none

instance (k : Kernel) (pid : ℕ) (oldfd : ℤ) : Decidable (Sharable k pid oldfd) :=
  inferInstanceAs (Decidable (_ ∨ _))

theorem filesDup_counted (h : Counted k []) {oldfd : ℤ} (hshare : Sharable k pid oldfd) :
    Counted (filesDup k pid oldfd).2 [] := by
  unfold filesDup
  split
  · exact h
  · rename_i hrange
    cases hslot : (k.table pid).slot oldfd.toNat with
    | none => exact h
    | some id =>
      have hget := h.get (Counted.refs_pos_of_slot hslot)
      dsimp only
      split
      · rename_i hfull
        have hfree : filesFindFreeFd (k.table pid) 0 = none := Option.map_eq_none_iff.mp hfull
        unfold Sharable at hshare
        simp only [hslot, hfree] at hshare
        simp at hshare
        omega
      · rename_i fd t halloc
        exact hget.install (lt_of_table_slot hslot) halloc

theorem close_counted (h : Counted k []) (pid : ℕ) (fd : ℤ) : Counted (close k pid fd).2 [] := by
  unfold close
  split
  · exact h
  · cases hslot : (k.table pid).slot fd.toNat with
    | none => exact h
    | some id => exact (h.vacate hslot rfl).put

theorem closeOperation_setTable (k : Kernel) (pid : ℕ) (t : FilesStruct) (kind : Kind) :
    closeOperation (k.setTable pid t) kind = (closeOperation k kind).setTable pid t := by
  cases kind with
  | ttyMaster tty => cases tty <;> rfl
  | ttySlave tty => cases tty <;> rfl
  | file | pipeRead p | pipeWrite p => rfl

/-- `file_put` does not look at the tables. -/
theorem filePut_setTable (k : Kernel) (pid id : ℕ) (t : FilesStruct) :
    filePut (k.setTable pid t) id = (filePut k id).setTable pid t := by
  unfold filePut
  simp only [Kernel.file, Kernel.setTable_files]
  cases k.files[id]? with
  | none => rfl
  | some f =>
    dsimp only
    split
    · rfl
    · exact congrArg (Kernel.freeFile · id) (closeOperation_setTable (k.updateFile id _) pid t f.kind)

theorem filePut_table (k : Kernel) (pid id : ℕ) : (filePut k id).table pid = k.table pid := by
  simp [Kernel.table]

/-- The loop of `files_close_all`: `file_put` comes before the descriptor is cleared. -/
theorem closeSlots_counted (h : Counted k held) (pid : ℕ) (fds : List ℕ) :
    Counted (closeSlots k pid fds) held := by
  induction fds generalizing k with
  | nil => exact h
  | cons fd fds ih =>
    unfold closeSlots
    rw [foldl_cons]
    refine ih ?_
    cases hslot : (k.table pid).slot fd with
    | none => exact h
    | some id =>
      dsimp only
      rw [filePut_table, ← filePut_setTable]
      exact (h.vacate hslot rfl).put

theorem filesCloseAll_counted (h : Counted k held) (pid : ℕ) : Counted (filesCloseAll k pid) held := by
  unfold filesCloseAll
  exact (closeSlots_counted h pid _).sameSlots _ _ (setFreefd_fd _ _)

/-- The loop of `files_clone`: the descriptors still to come are free in the new table. -/
theorem cloneSlots_counted {dst src : ℕ} {fds : List ℕ} (h : Counted k held)
    (hdst : dst < k.tasks.length) (hfds : fds.Nodup)
    (hfree : ∀ fd ∈ fds, (k.table dst).slot fd = none) :
    Counted (cloneSlots k dst src fds) held := by
  induction fds generalizing k with
  | nil => exact h
  | cons fd fds ih =>
    obtain ⟨hfd, hrest⟩ := nodup_cons.mp hfds
    unfold cloneSlots
    rw [foldl_cons]
    cases hslot : (k.table src).slot fd with
    | none => exact ih h hdst hrest fun i hi => hfree i (mem_cons_of_mem fd hi)
    | some id =>
      dsimp only
      have hget := h.get (Counted.refs_pos_of_slot hslot)
      refine ih (hget.place hdst (lt_of_slot hslot) (hfree fd mem_cons_self) rfl) ?_ hrest ?_
      · rw [Kernel.setTable_length]
        exact hdst
      · intro i hi
        rw [Kernel.setTable_table (fileGet k id) _ hdst,
          setSlot_slot_ne _ (ne_of_mem_of_not_mem hi hfd).symm]
        exact hfree i (mem_cons_of_mem fd hi)

theorem newTask_counted (h : Counted k held) : Counted (newTask k) held := by
  refine h.move rfl rfl fun id => ?_
  have hrefs : (newTask k).refs id = k.refs id := by
    unfold Kernel.refs Kernel.tables newTask
    rw [map_append]
    exact refs_append_empty (by simp [FilesStruct.empty]) id
  rw [hrefs]

theorem newTask_table (k : Kernel) : (newTask k).table k.tasks.length = FilesStruct.empty := by
  simp [newTask, Kernel.table]

theorem empty_slot (fd : ℕ) : FilesStruct.empty.slot fd = none := by
  unfold FilesStruct.slot FilesStruct.empty
  by_cases hfd : fd < FILEDESC_MAX <;> simp [hfd]

/-- Descriptors are copied to a new process. -/
theorem clone_newTask_counted (h : Counted k held) (src : ℕ) {fds : List ℕ} (hfds : fds.Nodup) :
    Counted (cloneSlots ((newTask k).setTable k.tasks.length FilesStruct.empty) k.tasks.length src
      fds) held := by
  have hlt : k.tasks.length < (newTask k).tasks.length := by simp [newTask]
  have hempty := (newTask_counted h).sameSlots k.tasks.length FilesStruct.empty
    (by rw [newTask_table])
  refine cloneSlots_counted hempty ?_ hfds fun fd _ => ?_
  · rw [Kernel.setTable_length]
    exact hlt
  · rw [Kernel.setTable_table _ _ hlt]
    exact empty_slot fd

theorem filesClone_counted (h : Counted k held) (src : ℕ) :
    Counted (filesClone (newTask k) k.tasks.length src) held := by
  unfold filesClone
  exact (clone_newTask_counted h src nodup_range).sameSlots _ _ (setFreefd_fd _ _)

theorem filesCloneStdio_counted (h : Counted k held) (src : ℕ) :
    Counted (filesCloneStdio (newTask k) k.tasks.length src) held := by
  unfold filesCloneStdio
  exact (clone_newTask_counted h src nodup_range).sameSlots _ _ (setFreefd_fd _ _)

theorem endTask_counted (h : Counted k held) (pid : ℕ) : Counted (endTask k pid) held := by
  have hall := filesCloseAll_counted h pid
  unfold endTask
  generalize filesCloseAll k pid = k₁ at hall
  refine hall.congr rfl rfl ?_
  ext1 i
  simp only [Kernel.tables, getElem?_map, getElem?_modify]
  by_cases hi : pid = i
  · subst hi
    cases k₁.tasks[pid]? <;> simp
  · simp [hi]

/-- Files that the call holds go to the first descriptors that are free. -/
theorem installAll_counted {ids : List ℕ} (n : ℕ) (h : Counted k ids)
    (hpid : pid < k.tasks.length) (hroom : n + ids.length ≤ FILEDESC_MAX)
    (hused : ∀ i < n, (k.table pid).slot i ≠ none)
    (hfree : ∀ i, n ≤ i → (k.table pid).slot i = none) :
    Counted (ids.foldl (fun k id => installFile k pid id) k) [] := by
  induction ids generalizing k n with
  | nil => exact h
  | cons id ids ih =>
    rw [length_cons] at hroom
    have hn : n < FILEDESC_MAX := by omega
    have halloc : filesAllocFd (k.table pid) id =
        some (n, ((k.table pid).setSlot n (some id)).setFreefd (n + 1)) := by
      simp [filesAllocFd, filesFindFreeFd_first hn hused (hfree n (Nat.le_refl n))]
    have hinstall : installFile k pid id =
        (k.publish id).setTable pid (((k.table pid).setSlot n (some id)).setFreefd (n + 1)) := by
      rw [installFile, halloc]
      rfl
    have htable := (k.publish id).setTable_table
      (((k.table pid).setSlot n (some id)).setFreefd (n + 1)) hpid
    rw [foldl_cons, hinstall]
    refine ih (n + 1) ((h.publish id (by simp)).install hpid halloc) ?_ (by omega)
      (fun i hi => ?_) fun i hi => ?_
    · rw [Kernel.setTable_length]
      exact hpid
    · rw [htable, setFreefd_slot]
      rcases Nat.lt_succ_iff_lt_or_eq.mp hi with hlt | rfl
      · rw [setSlot_slot_ne _ (Nat.ne_of_gt hlt)]
        exact hused i hlt
      · simp [setSlot_slot _ hn]
    · rw [htable, setFreefd_slot, setSlot_slot_ne _ (by omega)]
      exact hfree i (by omega)

/-- There is memory for all three standard files or for none. -/
def AllOrNone (granted : Bool × Bool × Bool) : Prop :=
  granted = (true, true, true) ∨ granted = (false, false, false)

instance (granted : Bool × Bool × Bool) : Decidable (AllOrNone granted) :=
  inferInstanceAs (Decidable (_ ∨ _))

theorem ttyInstallStdio_counted (h : Counted k []) (tty : TtyRef) {granted : Bool × Bool × Bool}
    (hgranted : AllOrNone granted) :
    Counted (ttyInstallStdio (newTask k) k.tasks.length tty granted) [] := by
  have hnew := newTask_counted h
  obtain rfl | rfl := hgranted
  · simp only [ttyInstallStdio, if_true, Bool.not_true, Bool.false_eq_true, or_self, if_false]
    have hfiles := ((hnew.ttyNewFile false tty).ttyNewFile false tty).ttyNewFile false tty
    have htasks : (ttyNewFile (ttyNewFile (ttyNewFile (newTask k) false tty) false tty) false
        tty).tasks = (newTask k).tasks := by simp
    simp only [ttyNewFile_length] at hfiles
    generalize ttyNewFile (ttyNewFile (ttyNewFile (newTask k) false tty) false tty) false tty = k₁
      at hfiles htasks
    refine installAll_counted 0 (hfiles.perm ?_) ?_ ?_ (fun i hi => absurd hi (Nat.not_lt_zero i))
      fun i _ => ?_
    · exact (reverse_perm [_, _, _]).symm
    · simp [htasks, newTask]
    · simp [FILEDESC_MAX]
    · rw [Kernel.table, htasks, ← Kernel.table, newTask_table]
      exact empty_slot i
  · exact hnew

theorem startTask_counted {give : Kernel → ℕ → Kernel}
    (h : Counted (give (newTask k) k.tasks.length) []) (completes : Bool) :
    Counted (startTask k completes give) [] := by
  unfold startTask
  split
  · exact h
  · exact endTask_counted h _

/-- What the calls need: `files_dup` of an open file finds a free descriptor, and there is memory
for all or for none of the files of `tty_install_stdio`. -/
def Allowed (k : Kernel) : Call → Prop
  | .dup pid oldfd => Sharable k pid oldfd
  | .execPty _ _ granted _ | .execTty _ granted _ => AllOrNone granted
  | _ => True

instance : ∀ (k : Kernel) (call : Call), Decidable (Allowed k call)
  | k, .dup pid oldfd => inferInstanceAs (Decidable (Sharable k pid oldfd))
  | _, .execPty _ _ granted _ | _, .execTty _ granted _ =>
    inferInstanceAs (Decidable (AllOrNone granted))
  | _, .open_ .. | _, .pipe .. | _, .openpty .. | _, .close .. | _, .fork .. | _, .exec ..
  | _, .exit .. | _, .reap .. => inferInstanceAs (Decidable True)

theorem lt_of_running (h : k.running pid = true) : pid < k.tasks.length := by
  by_contra hge
  simp [Kernel.running, getElem?_eq_none (Nat.le_of_not_lt hge)] at h

/-- A call leaves the books right. -/
theorem perform_counted (h : Counted k []) {call : Call} (hallowed : Allowed k call)
    (hcaller : ∀ pid ∈ call.caller, k.running pid = true) : Counted (perform k call) [] := by
  cases call with
  | open_ pid found granted =>
    exact ext3Open_counted h (lt_of_running (hcaller pid rfl)) found granted
  | pipe pid info buffer r w =>
    exact pipe_counted h (lt_of_running (hcaller pid rfl)) info buffer r w
  | openpty pid granted => exact ttyOpenpty_counted h (lt_of_running (hcaller pid rfl)) granted
  | dup pid oldfd => exact filesDup_counted h hallowed
  | close pid fd => exact close_counted h pid fd
  | fork pid completes =>
    unfold perform
    exact startTask_counted (filesClone_counted h pid) completes
  | exec pid completes =>
    unfold perform
    exact startTask_counted (filesCloneStdio_counted h pid) completes
  | execPty pid masterFd granted completes =>
    cases hmaster : ttyLookupMaster k pid masterFd with
    | none => simpa [perform, hmaster] using h
    | some tty =>
      simp only [perform, hmaster]
      exact startTask_counted (ttyInstallStdio_counted h tty hallowed) completes
  | execTty tty granted completes =>
    unfold perform
    exact startTask_counted (ttyInstallStdio_counted h tty hallowed) completes
  | exit pid | reap pid =>
    unfold perform
    exact endTask_counted h pid

theorem step_counted (k : Kernel) (call : Call) (k' : Kernel) (h : Counted k [])
    (hallowed : Allowed k call) (hstep : step k call = some k') : Counted k' [] := by
  unfold step at hstep
  split at hstep
  · rename_i hcaller
    rw [← Option.some.inj hstep]
    refine perform_counted h hallowed fun pid hpid => ?_
    rw [Option.mem_def] at hpid
    simpa [hpid] using hcaller
  · cases hstep

theorem boot_counted : Counted boot [] := by
  refine ⟨fun _ _ => rfl, ?_, ?_, fun _ _ _ => rfl⟩ <;> simp [boot]

/-- In every run in which `files_dup` of an open file always finds a free descriptor, and
`tty_install_stdio` gets memory for all of its files or for none: a file lives exactly as long as
descriptors stand for it and counts them; its close operation runs once, with the last of them;
and the buffer of a pipe is released once, when the last of its ends has been closed. -/
theorem files_counted (calls : List Call) (k : Kernel) (hrun : run step boot calls = some k)
    (hallowed : Along step Allowed boot calls) :
    (∀ id f, k.files[id]? = some f → FileCounted f (k.refs id)) ∧
      ∀ p q, k.pipes[p]? = some q → PipeCounted q (ends k.files true p) (ends k.files false p) := by
  have h := run_preserves step_counted calls boot k boot_counted hallowed hrun
  exact ⟨fun id f hf => h.file id f hf, h.pipe⟩

/-- A shell makes a pipe, forks a child that moves the write end and leaves, and closes its own
ends. -/
def pipeline : List Call :=
  [.execTty .console (true, true, true) true, .pipe 0 true true true true, .fork 0 true,
    .dup 1 4, .close 1 4, .exit 1, .close 0 4, .close 0 3]

theorem pipeline_counted : ∃ k, run step boot pipeline = some k ∧
      (∀ id f, k.files[id]? = some f → FileCounted f (k.refs id)) ∧
      ∀ p q, k.pipes[p]? = some q → PipeCounted q (ends k.files true p) (ends k.files false p) :=
  ⟨(run step boot pipeline).get (by decide +kernel), Option.some_get _ |>.symm,
    files_counted pipeline _ (Option.some_get _).symm (by decide +kernel)⟩

/-- A process makes a pipe, fills its table with files, and duplicates the write end. -/
def fullTable : List Call :=
  [.execTty .console (true, true, true) true, .pipe 0 true true true true] ++
    replicate 27 (.open_ 0 true true) ++ [.dup 0 4]

/-- On a full table `files_dup` keeps the reference it took: the write end, with one descriptor,
counts two. When both ends are closed, the write end lives on without a descriptor, its close
operation does not run and the buffer of the pipe is not released. -/
theorem full_table_dup_miscounts :
    (∃ k f, run step boot fullTable = some k ∧ k.files[4]? = some f ∧ f.live = true ∧
      f.refcount = 2 ∧ k.refs 4 = 1) ∧
    ∃ k f q, run step boot (fullTable ++ [.close 0 4, .close 0 3]) = some k ∧
      k.files[4]? = some f ∧ f.live = true ∧ f.refcount = 1 ∧ k.refs 4 = 0 ∧ f.closes = 0 ∧
      k.refs 3 = 0 ∧ k.pipes[0]? = some q ∧ q.live = true ∧ q.released = 0 := by
  refine ⟨⟨(run step boot fullTable).get (by decide +kernel), ⟨.pipeWrite 0, 2, true, true, 0⟩,
    (Option.some_get _).symm, ?_⟩, ⟨(run step boot (fullTable ++ [.close 0 4, .close 0 3])).get
    (by decide +kernel), ⟨.pipeWrite 0, 1, true, true, 0⟩, ⟨0, 1, true, 0⟩,
    (Option.some_get _).symm, ?_⟩⟩ <;> decide +kernel

end Sodex.Files
