import Sodex.Process
import Sodex.LinkFamily

/-!
# The process tree

The tasks on `run_list` form a tree under the init task: each is on the children
list of its parent, and parents are on `run_list` too. Creating a task adds a leaf,
`_exit` hands the children over to init before it removes the task, and reaping
removes a zombie without looking at its children.
-/
namespace Sodex.Process

open LinkRing LinkFamily Dlist Runs List Option Function

/-- The bits of the signals that stop a task: `SIGSTOP` to `SIGTTOU`. -/
def stopBits : UInt32 := 0x3c0000

/-- The init task is not about to leave through `_exit`. -/
structure RootOk (k : TaskStruct) : Prop where
  autoReap : k.autoReap = false
  state : k.state ≠ .stopped
  signal : k.signal &&& stopBits = 0

theorem layout_task : Layout Node.children Node.sibling where
  head_inj _ _ h := Node.children.inj h
  item_inj _ _ h := Node.sibling.inj h
  head_ne_item _ _ h := nomatch h

/-- The tasks `rs` besides init are on `run_list`, and `cs` are the children lists. -/
structure TreeCore (s : Kernel) (rs : List ℕ) (cs : ℕ → List ℕ) : Prop where
  run : Ring s.links (.runList s.initTask) (rs.map .runList)
  kids : Family s.links Node.children Node.sibling (· ∈ s.initTask :: rs) cs
  child : ∀ p ∈ s.initTask :: rs, ∀ c, c ∈ cs p ↔ c ∈ rs ∧ (s.task c).parent = p
  parent : ∀ c ∈ rs, (s.task c).parent ∈ s.initTask :: rs
  root : (s.task s.initTask).parent = s.initTask
  live : ∀ t, s.live t = true ↔ t ∈ s.initTask :: rs
  size : rs.length < s.nextPid
  rootOk : RootOk (s.task s.initTask)

/-- The tree, with the current task in it. -/
def TreeInv (s : Kernel) : Prop :=
  ∃ rs cs, TreeCore s rs cs ∧ s.current ∈ s.initTask :: rs

section Quiet

variable {s s' s'' : Kernel} {rs : List ℕ} {cs : ℕ → List ℕ} {t : ℕ}

/-- `s'` differs from `s` only in fields the tree does not depend on. -/
structure Quiet (s s' : Kernel) : Prop where
  links : s'.links = s.links
  live : s'.live = s.live
  current : s'.current = s.current
  initTask : s'.initTask = s.initTask
  nextPid : s'.nextPid = s.nextPid
  parent : ∀ t, (s'.task t).parent = (s.task t).parent
  rootOk : RootOk (s.task s.initTask) → RootOk (s'.task s.initTask)

theorem Quiet.refl (s : Kernel) : Quiet s s := ⟨rfl, rfl, rfl, rfl, rfl, fun _ => rfl, id⟩

theorem Quiet.trans (h : Quiet s s') (h' : Quiet s' s'') : Quiet s s'' where
  links := h'.links.trans h.links
  live := h'.live.trans h.live
  current := h'.current.trans h.current
  initTask := h'.initTask.trans h.initTask
  nextPid := h'.nextPid.trans h.nextPid
  parent t := (h'.parent t).trans (h.parent t)
  rootOk hr := by
    have := h'.rootOk
    rw [h.initTask] at this
    exact this (h.rootOk hr)

theorem TreeCore.quiet (h : TreeCore s rs cs) (hq : Quiet s s') : TreeCore s' rs cs where
  run := by rw [hq.links, hq.initTask]; exact h.run
  kids := by rw [hq.links, hq.initTask]; exact h.kids
  child p hp c := by
    rw [hq.initTask] at hp
    rw [hq.parent]
    exact h.child p hp c
  parent c hc := by
    rw [hq.initTask, hq.parent]
    exact h.parent c hc
  root := by rw [hq.initTask, hq.parent]; exact h.root
  live t := by rw [hq.live, hq.initTask]; exact h.live t
  size := by rw [hq.nextPid]; exact h.size
  rootOk := by rw [hq.initTask]; exact hq.rootOk h.rootOk

theorem TreeInv.quiet (h : TreeInv s) (hq : Quiet s s') : TreeInv s' := by
  obtain ⟨rs, cs, hcore, hcur⟩ := h
  exact ⟨rs, cs, hcore.quiet hq, by rw [hq.current, hq.initTask]; exact hcur⟩

@[simp] theorem task_modify_self (s : Kernel) (t : ℕ) (f : TaskStruct → TaskStruct) :
    (s.modify t f).task t = f (s.task t) := by simp [Kernel.modify]

theorem task_modify_of_ne (s : Kernel) {t u : ℕ} (f : TaskStruct → TaskStruct) (h : u ≠ t) :
    (s.modify t f).task u = s.task u := by simp [Kernel.modify, h]

theorem quiet_modify (s : Kernel) (t : ℕ) (f : TaskStruct → TaskStruct)
    (hparent : (f (s.task t)).parent = (s.task t).parent)
    (hroot : t = s.initTask → RootOk (s.task t) → RootOk (f (s.task t))) :
    Quiet s (s.modify t f) := by
  refine ⟨rfl, rfl, rfl, rfl, rfl, fun u => ?_, fun hr => ?_⟩
  · by_cases hu : u = t
    · subst hu
      rw [task_modify_self, hparent]
    · rw [task_modify_of_ne _ _ hu]
  · by_cases hu : s.initTask = t
    · rw [hu] at hr ⊢
      rw [task_modify_self]
      exact hroot hu.symm hr
    · rwa [task_modify_of_ne _ _ hu]

theorem quiet_setState {state : TaskState} (s : Kernel) (t : ℕ) (h : state ≠ .stopped) :
    Quiet s (s.setState t state) :=
  quiet_modify s t _ rfl fun _ hr => ⟨hr.autoReap, h, hr.signal⟩

theorem quiet_wakeTasks (s : Kernel) (ts : List ℕ) : Quiet s (wakeTasks s ts) := by
  induction ts generalizing s with
  | nil => exact Quiet.refl s
  | cons t ts ih => exact (quiet_setState s t (by simp)).trans (ih _)

theorem quiet_wakeupChildWait (s : Kernel) (t : ℕ) : Quiet s (wakeupChildWait s t) :=
  (quiet_wakeTasks s _).trans
    (quiet_modify _ t _ rfl fun _ hr => ⟨hr.autoReap, hr.state, hr.signal⟩)

theorem quiet_wakeupQueue (s : Kernel) (q : ℕ) : Quiet s (wakeupQueue s q) := by
  have h := quiet_wakeTasks s (s.queue q)
  exact ⟨h.links, h.live, h.current, h.initTask, h.nextPid, h.parent, h.rootOk⟩

theorem quiet_wakeupParentWaiters (s : Kernel) : Quiet s (wakeupParentWaiters s) := by
  unfold wakeupParentWaiters
  dsimp only
  split_ifs
  · exact Quiet.refl s
  · exact quiet_wakeupChildWait s _

theorem quiet_sysExit (s : Kernel) (status : ℤ) : Quiet s (sysExit s status) :=
  quiet_modify s _ _ rfl fun _ hr => ⟨hr.autoReap, by simp, hr.signal⟩

theorem quiet_sleepOn (s : Kernel) (q : ℕ) (timed : Bool) : Quiet s (sleepOn s q timed) := by
  have h := quiet_modify s s.current
    (fun k => { k with state := .interruptible, mode := .sleeping q timed }) rfl
    fun _ hr => ⟨hr.autoReap, by simp, hr.signal⟩
  exact ⟨h.links, h.live, h.current, h.initTask, h.nextPid, h.parent, h.rootOk⟩

theorem or_and_eq_zero {a b c : UInt32} (ha : a &&& c = 0) (hb : b &&& c = 0) :
    (a ||| b) &&& c = 0 := by
  rw [← UInt32.toBitVec_inj, UInt32.toBitVec_and] at *
  rw [UInt32.toBitVec_or, BitVec.and_comm, BitVec.and_or_distrib_left, BitVec.and_comm, ha,
    BitVec.and_comm, hb]
  rfl

/-- The kill does not send a stop signal to init. -/
def SparesInit (s : Kernel) (pid : Int16) (signum : ℤ) : Prop :=
  processFindPid s pid = some s.initTask → signum ≠ 0 → signalBit signum &&& stopBits = 0

instance (s : Kernel) (pid : Int16) (signum : ℤ) : Decidable (SparesInit s pid signum) :=
  inferInstanceAs (Decidable (_ → _ → _))

theorem quiet_sysKill {pid : Int16} {signum : ℤ} (h : SparesInit s pid signum) :
    Quiet s (sysKill s pid signum).2 := by
  unfold sysKill
  cases hfind : processFindPid s pid with
  | none => exact Quiet.refl s
  | some proc =>
    by_cases hzero : signum = 0
    · simp only [if_pos hzero]
      exact Quiet.refl s
    · simp only [if_neg hzero]
      exact quiet_modify s proc _ rfl fun hproc hr => ⟨hr.autoReap, by simp,
        or_and_eq_zero hr.signal (h (hproc ▸ hfind) hzero)⟩

end Quiet

section Signals

variable {k : TaskStruct} {i : ℕ}

/-- What the delivery of a signal leaves alone. -/
theorem deliverSignal_keeps (k : TaskStruct) (i : ℕ) :
    (deliverSignal k i).parent = k.parent ∧ (deliverSignal k i).serial = k.serial ∧
      (deliverSignal k i).childWait = k.childWait ∧ (deliverSignal k i).mode = k.mode := by
  unfold deliverSignal
  dsimp only
  split_ifs
  · exact ⟨rfl, rfl, rfl, rfl⟩
  · exact ⟨rfl, rfl, rfl, rfl⟩
  · cases k.sigactions i <;> exact ⟨rfl, rfl, rfl, rfl⟩

theorem signalLoop_preserves {I : TaskStruct → Prop}
    (hI : ∀ k i, maxsignal k.signal = some i → I k → I (deliverSignal k i)) (fuel : ℕ) (h : I k) :
    I (signalLoop fuel k) := by
  induction fuel generalizing k with
  | zero => exact h
  | succ fuel ih =>
    rw [signalLoop]
    cases hi : maxsignal k.signal with
    | none => exact h
    | some i => exact ih (hI k i hi h)

theorem signalLoop_serial (fuel : ℕ) : (signalLoop fuel k).serial = k.serial :=
  signalLoop_preserves
    (fun k' i _ h => (deliverSignal_keeps k' i).2.1.trans h) fuel rfl

theorem signalLoop_parent (fuel : ℕ) : (signalLoop fuel k).parent = k.parent :=
  signalLoop_preserves
    (fun k' i _ h => (deliverSignal_keeps k' i).1.trans h) fuel rfl

/-- A stop bit that is not pending is not delivered. -/
theorem RootOk.not_stop (hr : RootOk k) (hi : maxsignal k.signal = some i) :
    ¬ (i + 1 = 19 ∨ i + 1 = 20 ∨ i + 1 = 21 ∨ i + 1 = 22) := by
  have hbit : k.signal &&& (1 <<< i.toUInt32) ≠ 0 := by simpa using find?_some hi
  have hzero : ∀ b : UInt32, stopBits &&& b = b → k.signal &&& b = 0 := by
    intro b hb
    rw [← hb, ← UInt32.and_assoc, hr.signal, UInt32.zero_and]
  rintro (h | h | h | h)
  all_goals
    obtain rfl : i = _ := Nat.succ.inj h
    exact hbit (hzero _ (by decide))

theorem RootOk.deliverSignal (hr : RootOk k) (hi : maxsignal k.signal = some i) :
    RootOk (deliverSignal k i) := by
  have hsig : (k.signal &&& ~~~(1 <<< i.toUInt32)) &&& stopBits = 0 := by
    rw [UInt32.and_assoc, UInt32.and_comm _ stopBits, ← UInt32.and_assoc, hr.signal,
      UInt32.zero_and]
  unfold Process.deliverSignal
  simp only [if_neg (hr.not_stop hi)]
  split_ifs
  · exact ⟨hr.autoReap, by simp, hsig⟩
  · cases k.sigactions i
    · exact ⟨hr.autoReap, by simp, hsig⟩
    · exact ⟨hr.autoReap, hr.state, hsig⟩
    · exact ⟨hr.autoReap, hr.state, hsig⟩
    · exact ⟨hr.autoReap, by simp, hsig⟩

theorem quiet_signals (s : Kernel) (fuel : ℕ) : Quiet s (s.modify s.current (signalLoop fuel)) :=
  quiet_modify s _ _ (signalLoop_parent fuel) fun _ =>
    signalLoop_preserves (fun _ _ hi hr => RootOk.deliverSignal hr hi) fuel

end Signals

section Create

variable {s : Kernel} {rs : List ℕ} {cs : ℕ → List ℕ} {t : ℕ} {sa : ℕ → Handler}

/-- The nodes of `run_list` are neither heads nor items of children lists. -/
theorem foreign_runList (r : ℕ) (rs : List ℕ) :
    ∀ u ∈ Node.runList r :: rs.map .runList, Foreign Node.children Node.sibling u := by
  intro u hu
  rw [← map_cons] at hu
  obtain ⟨x, -, rfl⟩ := mem_map.mp hu
  constructor <;> intro y h <;> cases h

theorem not_mem_of_not_live (h : TreeCore s rs cs) (ht : s.live t = false) :
    t ∉ s.initTask :: rs := fun hmem => by simp [(h.live t).mpr hmem] at ht

/-- A task outside the tree is nobody's child. -/
theorem TreeCore.no_parent (h : TreeCore s rs cs) (ht : t ∉ s.initTask :: rs) :
    ∀ q, q ∈ s.initTask :: rs ∨ q = t → t ∉ update cs t [] q := by
  intro q hq hmem
  obtain ⟨hqt, hmem⟩ := mem_update_nil.mp hmem
  exact ht (mem_cons_of_mem _ ((h.child q (hq.resolve_right hqt) t).mp hmem).1)

/-- A new task with its own nodes, on no list yet. -/
theorem TreeCore.setUpTask (h : TreeCore s rs cs) (ht : s.live t = false) :
    Ring (setUpTask s t sa).links (.runList s.initTask) (rs.map .runList) ∧
    Family (setUpTask s t sa).links Node.children Node.sibling
      (fun p => p ∈ s.initTask :: rs ∨ p = t) (update cs t []) := by
  have hnew := not_mem_of_not_live h ht
  constructor
  · refine ((h.run.init_frame ?_).init_frame ?_).init_frame ?_
    · rw [← map_cons]
      intro hmem
      obtain ⟨x, hx, hxt⟩ := mem_map.mp hmem
      exact hnew (Node.runList.inj hxt ▸ hx)
    · exact fun hmem => (foreign_runList _ _ _ hmem).1 t rfl
    · exact fun hmem => (foreign_runList _ _ _ hmem).2 t rfl
  · have hrun : Family (s.links.init (.runList t)) Node.children Node.sibling
        (· ∈ s.initTask :: rs) cs := h.kids.frame fun p _ hring => hring.init_frame (by simp)
    exact (hrun.birth layout_task hnew).init_item layout_task (h.no_parent hnew)

/-- Insertion into `run_list` behind any task on it. -/
theorem ring_insert_run {L : Links Node} {r c : ℕ}
    (hr : Ring L (.runList r) (rs.map .runList)) (hc : c ∈ r :: rs) (ht : t ∉ r :: rs) :
    ∃ rs' : List ℕ,
      Ring (L.insertAfter (.runList t) (.runList c)) (.runList r) (rs'.map .runList) ∧
      rs'.Perm (t :: rs) := by
  have hnew : Node.runList t ∉ .runList r :: rs.map .runList := by
    rw [← map_cons]
    intro h
    obtain ⟨x, hx, hxt⟩ := mem_map.mp h
    exact ht (Node.runList.inj hxt ▸ hx)
  rcases mem_cons.mp hc with rfl | hc
  · exact ⟨t :: rs, hr.insertAfter_head hnew, List.Perm.refl _⟩
  · obtain ⟨as, bs, rfl⟩ := append_of_mem hc
    refine ⟨as ++ c :: t :: bs, ?_, ?_⟩
    · simp only [map_append, map_cons] at hr hnew ⊢
      exact hr.insertAfter_mem hnew
    · exact perm_iff_count.mpr fun x => by
        simp only [count_append, count_cons]
        omega

/-- A task created and linked by the current one becomes a leaf of the tree. -/
theorem TreeInv.create (h : TreeInv s) (ht : s.live t = false) :
    TreeInv (linkRun (linkSibling (setUpTask s t sa) t) t) := by
  obtain ⟨rs, cs, h, hcur⟩ := h
  have hnew := not_mem_of_not_live h ht
  have hti : s.initTask ≠ t := fun e => hnew (by simp [e])
  have htc : s.current ≠ t := fun e => hnew (e ▸ hcur)
  obtain ⟨hrun, hkids⟩ := @TreeCore.setUpTask s rs cs t sa h ht
  -- The task joins the children of the current task, then `run_list`.
  have hnokid := h.no_parent hnew
  have hkids₂ := hkids.insert layout_task (.inl hcur) hnokid
  have hrun₂ := hkids.insert_frame (x := t) (.inl hcur) hrun (foreign_runList _ _)
  obtain ⟨rs', hrun₃, hperm⟩ := ring_insert_run hrun₂ hcur hnew
  have hkids₃ := hkids₂.frame fun p hp hring => hrun₂.insertAfter_frame
    (e := .runList s.current) (x := .runList t) (by simpa using hcur) hring (by simp)
    (disjoint_foreign (foreign_runList _ _) _ _).symm
  have hmem : ∀ x, x ∈ rs' ↔ x = t ∨ x ∈ rs := fun x => by rw [hperm.mem_iff, mem_cons]
  have hmem' : ∀ x, x ∈ s.initTask :: rs' ↔ x ∈ s.initTask :: rs ∨ x = t := by
    intro x
    simp only [mem_cons, hmem]
    tauto
  have hlinks : (linkRun (linkSibling (Process.setUpTask s t sa) t) t).links =
      (((Process.setUpTask s t sa).links.insertAfter (.sibling t) (.children s.current)).insertAfter
        (.runList t) (.runList s.current)) := by
    have hne : Node.runList t ≠ .runList (Process.setUpTask s t sa).current :=
      fun e => htc (Node.runList.inj e).symm
    simp only [linkRun, linkSibling]
    rw [dlistInsertAfter_eq hne, dlistInsertAfter_eq (by simp)]
    rfl
  have htask : ∀ x, x ≠ t →
      (linkRun (linkSibling (Process.setUpTask s t sa) t) t).task x = s.task x :=
    fun x hx => update_of_ne hx _ _
  have hself : (linkRun (linkSibling (Process.setUpTask s t sa) t) t).task t =
      newTask s.nextPid s.current sa := update_self _ _ _
  refine ⟨rs', _, ⟨hlinks ▸ hrun₃, (hlinks ▸ hkids₃).mono fun p hp => (hmem' p).mp hp,
    fun p hp c => ?_, fun c hc => ?_, (congrArg TaskStruct.parent (htask _ hti)).trans h.root,
    fun x => ?_, ?_, (htask _ hti).symm ▸ h.rootOk⟩, (hmem' _).mpr (.inl hcur)⟩
  · rw [mem_update_cons, mem_update_nil, hmem c]
    by_cases hct : c = t
    · subst hct
      have hnot := mt mem_update_nil.mpr (hnokid p ((hmem' p).mp hp))
      simp [hself, newTask, hnot, eq_comm]
    · rw [htask c hct]
      by_cases hpt : p = t
      · subst hpt
        have hout : c ∈ rs → (s.task c).parent ≠ p := fun hc e => hnew (e ▸ h.parent c hc)
        simpa [hct] using hout
      · simpa [hct, hpt] using h.child p (((hmem' p).mp hp).resolve_right hpt) c
  · rcases (hmem c).mp hc with rfl | hcr
    · rw [hself]
      exact (hmem' _).mpr (.inl hcur)
    · rw [htask c fun e => hnew (e ▸ mem_cons_of_mem _ hcr)]
      exact (hmem' _).mpr (.inl (h.parent c hcr))
  · show update s.live t true x = true ↔ x ∈ s.initTask :: rs'
    rw [hmem']
    by_cases hxt : x = t
    · simp [hxt]
    · rw [update_of_ne hxt, h.live, or_iff_left hxt]
  · have hlen := hperm.length_eq
    have hsize := h.size
    rw [length_cons] at hlen
    show rs'.length < s.nextPid + 1
    omega

/-- A task that is freed before it is linked leaves the tree as it was. -/
theorem TreeInv.abandon (h : TreeInv s) (ht : s.live t = false) :
    TreeInv (freeTask (setUpTask s t sa) t) := by
  obtain ⟨rs, cs, h, hcur⟩ := h
  have hnew := not_mem_of_not_live h ht
  have hne : ∀ x ∈ s.initTask :: rs, x ≠ t := fun x hx e => hnew (e ▸ hx)
  obtain ⟨hrun, hkids⟩ := @TreeCore.setUpTask s rs cs t sa h ht
  have htask : ∀ x ∈ s.initTask :: rs,
      (freeTask (Process.setUpTask s t sa) t).task x = s.task x :=
    fun x hx => update_of_ne (hne x hx) _ _
  refine ⟨rs, update cs t [], ⟨hrun, hkids.mono fun p hp => .inl hp, fun p hp c => ?_,
    fun c hc => ?_, (congrArg TaskStruct.parent (htask s.initTask (by simp))).trans h.root,
    fun x => ?_, Nat.lt_succ_of_lt h.size, (htask s.initTask (by simp)).symm ▸ h.rootOk⟩, hcur⟩
  · rw [mem_update_nil, h.child p hp c, and_iff_right (hne p hp)]
    exact and_congr_right fun hc => by rw [htask c (mem_cons_of_mem _ hc)]
  · rw [htask c (mem_cons_of_mem _ hc)]
    exact h.parent c hc
  · show update (update s.live t true) t false x = true ↔ x ∈ s.initTask :: rs
    by_cases hxt : x = t
    · simpa [hxt] using hnew
    · rw [update_of_ne hxt, update_of_ne hxt, h.live]

end Create

section Remove

variable {s : Kernel} {rs l : List ℕ} {cs : ℕ → List ℕ} {t c : ℕ}

theorem TreeCore.nodup (h : TreeCore s rs cs) : (s.initTask :: rs).Nodup := by
  have hnd := h.run.nodup
  rw [← map_cons] at hnd
  exact List.Nodup.of_map _ hnd

theorem TreeCore.ne_init (h : TreeCore s rs cs) (ht : t ∈ rs) : t ≠ s.initTask :=
  fun e => (nodup_cons.mp h.nodup).1 (e ▸ ht)

/-- A task without children is taken off its lists and freed. -/
theorem TreeCore.removeTask (h : TreeCore s rs cs) (ht : t ∈ rs) (hleaf : cs t = []) :
    ∃ cs', TreeCore (removeTask s t) (rs.erase t) cs' := by
  have hti := h.ne_init ht
  have hp := h.parent t ht
  have hmem := (h.child _ hp t).mpr ⟨ht, rfl⟩
  have hkids := h.kids.remove layout_task hp hmem
  have hrun := h.kids.remove_frame hp hmem h.run (foreign_runList _ _)
  have hrun₂ : Ring ((s.links.unlink (.sibling t)).unlink (.runList t)) (.runList s.initTask)
      ((rs.erase t).map .runList) := by
    have hnd := (nodup_cons.mp h.nodup).2
    obtain ⟨as, bs, rfl⟩ := append_of_mem ht
    have hnot : t ∉ as := by grind
    rw [map_append, map_cons] at hrun
    rw [erase_append_right _ hnot, erase_cons_head, map_append]
    exact hrun.unlink
  have hkids₂ := hkids.frame fun p hp hring => hrun.unlink_frame (x := .runList t)
    (mem_map_of_mem ht) hring (disjoint_foreign (foreign_runList _ _) _ _).symm
  have herase : ∀ x, x ∈ rs.erase t ↔ x ≠ t ∧ x ∈ rs :=
    fun x => (nodup_cons.mp h.nodup).2.mem_erase_iff
  have hsub : ∀ x, x ∈ s.initTask :: rs.erase t ↔ x ≠ t ∧ x ∈ s.initTask :: rs := by
    intro x
    rw [mem_cons, mem_cons, herase]
    by_cases hx : x = s.initTask
    · simp [hx, Ne.symm hti]
    · simp [hx]
  refine ⟨_, hrun₂, hkids₂.mono fun p hp => ((hsub p).mp hp).2, fun q hq c => ?_, fun c hc => ?_,
    h.root, fun x => ?_, ?_, h.rootOk⟩
  · have hp' := ((hsub q).mp hq).2
    show _ ↔ c ∈ rs.erase t ∧ (s.task c).parent = q
    rw [mem_update_erase (h.kids.nodup hp), h.child q hp' c, herase]
    by_cases hct : c = t
    · subst hct
      simpa [eq_comm] using fun hq _ => hq
    · simp [hct]
  · obtain ⟨hct, hcr⟩ := (herase c).mp hc
    refine (hsub _).mpr ⟨fun hpt => ?_, h.parent c hcr⟩
    have hcs := (h.child t (mem_cons_of_mem _ ht) c).mpr ⟨hcr, hpt⟩
    rw [hleaf] at hcs
    cases hcs
  · show update s.live t false x = true ↔ x ∈ s.initTask :: rs.erase t
    rw [hsub]
    by_cases hxt : x = t
    · simp [hxt]
    · rw [update_of_ne hxt, h.live, and_iff_right hxt]
  · have := h.size
    show (rs.erase t).length < s.nextPid
    rw [length_erase_of_mem ht]
    omega

/-- `reparent_children` for one child, without the wake-up. -/
def moveToInit (s : Kernel) (c : ℕ) : Kernel :=
  let s := { s with links := s.links.unlink (.sibling c) }
  let s := s.modify c fun k => { k with parent := s.initTask }
  { s with links := dlistInsertAfter s.links (.sibling c) (.children s.initTask) }

theorem quiet_adoptChild (s : Kernel) (c : ℕ) : Quiet (moveToInit s c) (adoptChild s c) := by
  change Quiet (moveToInit s c) (if ((moveToInit s c).task c).state = .zombie then
    wakeupChildWait (moveToInit s c) (moveToInit s c).initTask else moveToInit s c)
  split_ifs
  · exact quiet_wakeupChildWait _ _
  · exact Quiet.refl _

/-- A child of a task goes to init. -/
theorem TreeCore.adoptChild (h : TreeCore s rs cs) (ht : t ∈ rs) (hc : c ∈ cs t) :
    ∃ cs', TreeCore (adoptChild s c) rs cs' ∧ cs' t = (cs t).erase c := by
  have hti := h.ne_init ht
  have htmem : t ∈ s.initTask :: rs := mem_cons_of_mem _ ht
  have himem : s.initTask ∈ s.initTask :: rs := mem_cons_self
  obtain ⟨hcr, hcp⟩ := (h.child t htmem c).mp hc
  have hci := h.ne_init hcr
  have hnd := h.kids.nodup htmem
  have hkids := h.kids.remove layout_task htmem hc
  have hrun := h.kids.remove_frame htmem hc h.run (foreign_runList _ _)
  have hkids₂ := hkids.insert (x := c) layout_task himem fun q hq hmem => by
    obtain ⟨hqt, hmem⟩ := (mem_update_erase hnd).mp hmem
    exact hqt ⟨((h.child q hq c).mp hmem).2.symm.trans hcp, rfl⟩
  have hrun₂ := hkids.insert_frame (x := c) himem hrun (foreign_runList _ _)
  have hlinks : (moveToInit s c).links =
      (s.links.unlink (.sibling c)).insertAfter (.sibling c) (.children s.initTask) :=
    dlistInsertAfter_eq (by simp)
  have htask : ∀ x, x ≠ c → (moveToInit s c).task x = s.task x :=
    fun x hx => update_of_ne hx _ _
  have hself : ((moveToInit s c).task c).parent = s.initTask := by
    simp [moveToInit, Kernel.modify]
  refine ⟨_, TreeCore.quiet (s := moveToInit s c) ⟨hlinks ▸ hrun₂, hlinks ▸ hkids₂,
    fun p hp x => ?_, fun x hx => ?_,
    (congrArg TaskStruct.parent (htask _ (Ne.symm hci))).trans h.root, h.live, h.size,
    (htask s.initTask (Ne.symm hci)).symm ▸ h.rootOk⟩ (quiet_adoptChild s c), ?_⟩
  · rw [mem_update_cons, mem_update_erase hnd, h.child p hp x]
    by_cases hxc : x = c
    · subst hxc
      rw [hself, hcp]
      grind
    · simp [hxc, htask x hxc]
  · by_cases hxc : x = c
    · subst hxc
      rw [hself]
      exact himem
    · rw [htask x hxc]
      exact h.parent x hx
  · rw [update_of_ne hti, update_self]

theorem adoptChild_current (s : Kernel) (c : ℕ) :
    (adoptChild s c).current = s.current := (quiet_adoptChild s c).current

theorem adoptChild_initTask (s : Kernel) (c : ℕ) :
    (adoptChild s c).initTask = s.initTask := (quiet_adoptChild s c).initTask

/-- The loop hands all children over to init. -/
theorem TreeCore.adoptChildren (ht : t ∈ rs) (l : List ℕ) :
    ∀ {s : Kernel} {cs : ℕ → List ℕ} {fuel : ℕ}, TreeCore s rs cs → cs t = l → l.length < fuel →
      ∃ cs' s', Process.adoptChildren s (.children t) fuel
          ((l.map Node.sibling).headD (.children t)) = s' ∧
        TreeCore s' rs cs' ∧ cs' t = [] ∧ s'.current = s.current ∧ s'.initTask = s.initTask := by
  induction l with
  | nil =>
    intro s cs fuel h hcs hfuel
    obtain ⟨fuel, rfl⟩ := Nat.exists_eq_add_of_lt hfuel
    exact ⟨cs, s, by simp [Process.adoptChildren], h, hcs, rfl, rfl⟩
  | cons c l ih =>
    intro s cs fuel h hcs hfuel
    obtain ⟨fuel, rfl⟩ : ∃ n, fuel = n + 1 := ⟨fuel - 1, by omega⟩
    have hnext : s.links.next (.sibling c) = (l.map Node.sibling).headD (.children t) := by
      have hring := h.kids.ring t (mem_cons_of_mem _ ht)
      rw [hcs] at hring
      exact (show Ring _ _ ([] ++ _ :: _) from hring).next_mem
    obtain ⟨cs₁, h₁, hcs₁⟩ := h.adoptChild ht (c := c) (by simp [hcs])
    rw [hcs, erase_cons_head] at hcs₁
    obtain ⟨cs', s', heq, hcore, hempty, hcur, hinit⟩ :=
      ih h₁ hcs₁ (Nat.lt_of_succ_lt_succ hfuel)
    refine ⟨cs', s', ?_, hcore, hempty, hcur.trans (adoptChild_current s c),
      hinit.trans (adoptChild_initTask s c)⟩
    rw [← heq, ← hnext]
    simp [Process.adoptChildren, Node.owner]

section

variable (h : TreeCore s rs cs)
include h

/-- Every children list is shorter than the bound on traversals. -/
theorem TreeCore.kids_length (ht : t ∈ s.initTask :: rs) :
    (cs t).length < s.fuel := by
  have hsub : (cs t).Subperm rs :=
    subperm_of_subset (h.kids.nodup ht) fun c hc => ((h.child t ht c).mp hc).1
  have hsize := h.size
  have hlen := hsub.length_le
  unfold Kernel.fuel
  omega

theorem TreeCore.reparentChildren (ht : t ∈ rs) :
    ∃ cs' s', reparentChildren s t = s' ∧ TreeCore s' rs cs' ∧ cs' t = [] ∧
      s'.current = s.current ∧ s'.initTask = s.initTask := by
  have hmem : t ∈ s.initTask :: rs := mem_cons_of_mem _ ht
  unfold Process.reparentChildren
  rw [if_neg (h.ne_init ht), (h.kids.ring t hmem).next_head]
  exact TreeCore.adoptChildren ht (cs t) h rfl (h.kids_length hmem)

theorem TreeCore.next_mem (ht : t ∈ s.initTask :: rs) :
    (s.links.next (.runList t)).owner ∈ s.initTask :: rs := by
  have hnext := h.run.next_in (x := .runList t) (by simpa using ht)
  rw [← map_cons] at hnext
  obtain ⟨x, hx, he⟩ := mem_map.mp hnext
  rw [← he]
  exact hx

/-- Init is on `run_list` too, so no other task follows itself. -/
theorem TreeCore.next_ne (ht : t ∈ rs) :
    (s.links.next (.runList t)).owner ≠ t := by
  have hnd := h.nodup
  have hrun := h.run
  obtain ⟨as, bs, rfl⟩ := append_of_mem ht
  rw [map_append, map_cons] at hrun
  rw [hrun.next_mem]
  cases bs with
  | nil => exact (h.ne_init ht).symm
  | cons b bs =>
    rintro rfl
    simp only [map_cons, headD_cons, Node.owner] at hnd
    grind

end

theorem TreeInv.schedule (h : TreeInv s) : TreeInv (schedule s) := by
  obtain ⟨rs, cs, h, hcur⟩ := h
  exact ⟨rs, cs, ⟨h.run, h.kids, h.child, h.parent, h.root, h.live, h.size, h.rootOk⟩,
    h.next_mem hcur⟩

theorem TreeInv.exitCurrent (h : TreeInv s) (hne : s.current ≠ s.initTask) :
    TreeInv (exitCurrent s) := by
  obtain ⟨rs, cs, h, hcur⟩ := h
  have hmem := (mem_cons.mp hcur).resolve_left hne
  obtain ⟨cs₁, s₁, heq, h₁, hleaf, -, hinit₁⟩ := h.reparentChildren hmem
  obtain ⟨cs₂, h₂⟩ := h₁.removeTask hmem hleaf
  have hnext : (s.links.next (.runList s.current)).owner ∈ s₁.initTask :: rs.erase s.current := by
    rw [hinit₁]
    rcases mem_cons.mp (h.next_mem hcur) with hi | hr
    · exact mem_cons.mpr (.inl hi)
    · exact mem_cons_of_mem _ ((mem_erase_of_ne (h.next_ne hmem)).mpr hr)
  unfold Process.exitCurrent
  rw [heq]
  exact TreeInv.schedule ⟨_, cs₂, ⟨h₂.run, h₂.kids, h₂.child, h₂.parent, h₂.root, h₂.live,
    h₂.size, h₂.rootOk⟩, hnext⟩

end Remove

section Steps

variable {s s' : Kernel} {rs : List ℕ} {cs : ℕ → List ℕ} {t : ℕ} {wantStatus : Bool}
  {out : Creation} {r : Int16 × Kernel} {options : ℤ}

/-- The lists of the model, read off the links. -/
theorem TreeCore.childrenOf_eq (h : TreeCore s rs cs) (ht : t ∈ s.initTask :: rs) :
    s.childrenOf t = cs t := by
  unfold Kernel.childrenOf
  rw [(h.kids.ring t ht).members_eq (by simpa using h.kids_length ht), List.map_map]
  exact map_id _

theorem TreeCore.runTasks_eq (h : TreeCore s rs cs) : s.runTasks s.initTask = s.initTask :: rs := by
  have hlen : (rs.map Node.runList).length < s.fuel := by
    have hsize := h.size
    unfold Kernel.fuel
    simp only [length_map]
    omega
  unfold Kernel.runTasks
  rw [h.run.members_eq hlen, List.map_map]
  exact congrArg _ (map_id _)

/-- The four ways through the end of the timer interrupt. -/
theorem timerTail_cases (s : Kernel) : ∃ s₁, s₁ = s.modify s.current (signalLoop 32) ∧
      ((s₁.task s₁.current).state = .stopped ∧ timerTail s = exitCurrent s₁ ∨
       (s₁.task s₁.current).state = .zombie ∧
        ((wakeupParentWaiters s₁).task (wakeupParentWaiters s₁).current).autoReap = true ∧
          timerTail s = exitCurrent (wakeupParentWaiters s₁) ∨
       (s₁.task s₁.current).state = .zombie ∧ timerTail s = schedule (wakeupParentWaiters s₁) ∨
       timerTail s = schedule s₁) := by
  refine ⟨_, rfl, ?_⟩
  unfold timerTail
  dsimp only
  generalize s.modify s.current (signalLoop 32) = s₁
  cases (s₁.task s₁.current).state with
  | stopped => exact .inl ⟨rfl, rfl⟩
  | zombie =>
    by_cases hauto : ((wakeupParentWaiters s₁).task (wakeupParentWaiters s₁).current).autoReap
    · exact .inr (.inl ⟨rfl, hauto, if_pos hauto⟩)
    · exact .inr (.inr (.inl ⟨rfl, if_neg hauto⟩))
  | running => exact .inr (.inr (.inr rfl))
  | interruptible => exact .inr (.inr (.inr rfl))
  | uninterruptible => exact .inr (.inr (.inr rfl))

theorem TreeInv.rootOk (h : TreeInv s) (he : s.current = s.initTask) :
    RootOk (s.task s.current) := by
  obtain ⟨rs, cs, h, -⟩ := h
  exact he ▸ h.rootOk

theorem TreeInv.timerTail (h : TreeInv s) : TreeInv (timerTail s) := by
  obtain ⟨s₁, rfl, hcases⟩ := timerTail_cases s
  have hs := h.quiet (quiet_signals s 32)
  have hs₂ := hs.quiet (quiet_wakeupParentWaiters _)
  rcases hcases with ⟨hstate, heq⟩ | ⟨-, hauto, heq⟩ | ⟨-, heq⟩ | heq
  · exact heq ▸ hs.exitCurrent fun he => (hs.rootOk he).state hstate
  · exact heq ▸ hs₂.exitCurrent fun he => by simp [(hs₂.rootOk he).autoReap] at hauto
  · exact heq ▸ hs₂.schedule
  · exact heq ▸ hs.schedule

/-- The child that `sys_waitpid` would reap has no children of its own. -/
def ReapsLeaf (s : Kernel) (pid : Int16) : Prop :=
  ∀ z ∈ s.childrenOf s.current, matchChild s pid (s.childrenOf s.current) = some (z, true) →
    s.childrenOf z = []

instance (s : Kernel) (pid : Int16) : Decidable (ReapsLeaf s pid) :=
  inferInstanceAs (Decidable (∀ z ∈ _, _ → _))

theorem matchChild_mem {pid : Int16} {l : List ℕ} {z : ℕ} {b : Bool}
    (h : matchChild s pid l = some (z, b)) : z ∈ l := by
  unfold matchChild at h
  split_ifs at h
  · split at h
    · rename_i c hfind
      obtain rfl : c = z := congrArg Prod.fst (some.inj h)
      exact mem_of_find?_eq_some hfind
    · obtain ⟨c, hc, he⟩ := map_eq_some_iff.mp h
      obtain rfl : c = z := congrArg Prod.fst he
      exact mem_of_getLast? hc
  · obtain ⟨c, hc, he⟩ := map_eq_some_iff.mp h
    obtain rfl : c = z := congrArg Prod.fst he
    exact mem_of_find?_eq_some hc

/-- The search reads only the pids of the tasks and which of them are zombies. -/
theorem matchChild_congr (pid : Int16) (l : List ℕ)
    (h : ∀ c ∈ l, ((s'.task c).state = .zombie ↔ (s.task c).state = .zombie) ∧
      (s'.task c).serial = (s.task c).serial) :
    matchChild s' pid l = matchChild s pid l := by
  have hstate : (l.find? fun c => (s'.task c).state = .zombie) =
      l.find? fun c => (s.task c).state = .zombie :=
    find?_congr fun c hc => by simp only [(h c hc).1]
  have hpid : (l.find? fun c => (s'.task c).pid = pid) = l.find? fun c => (s.task c).pid = pid :=
    find?_congr fun c hc => by
      rw [show (s'.task c).pid = (s.task c).pid from congrArg Int16.ofNat (h c hc).2]
  unfold matchChild
  rw [hstate, hpid]
  refine congrArg (fun o => ite _ _ o) (Option.map_congr fun c hc => ?_)
  simp only [(h c (mem_of_find?_eq_some hc)).1]

theorem matchChild_modify {f : TaskStruct → TaskStruct} (pid : Int16) (l : List ℕ)
    (hf : ((f (s.task t)).state = .zombie ↔ (s.task t).state = .zombie) ∧
      (f (s.task t)).serial = (s.task t).serial) :
    matchChild (s.modify t f) pid l = matchChild s pid l := by
  refine matchChild_congr pid l fun c _ => ?_
  by_cases hc : c = t
  · subst hc
    rw [task_modify_self]
    exact hf
  · rw [task_modify_of_ne _ _ hc]
    exact ⟨Iff.rfl, rfl⟩

theorem TreeInv.reapChild (h : TreeInv s) (ht : t ∈ s.childrenOf s.current)
    (hleaf : s.childrenOf t = []) : TreeInv (reapChild s t wantStatus).2 := by
  obtain ⟨rs, cs, h, hcur⟩ := h
  rw [h.childrenOf_eq hcur] at ht
  have htr := ((h.child _ hcur t).mp ht).1
  rw [h.childrenOf_eq (mem_cons_of_mem _ htr)] at hleaf
  have hne : s.current ≠ t := by
    rintro rfl
    simp [hleaf] at ht
  have hlog : TreeCore ({ s with waitLog := s.waitLog ++ [⟨s.current, (s.task t).parent,
      (s.task t).serial, if wantStatus then some (s.task t).exitStatus else none⟩] }) rs cs :=
    ⟨h.run, h.kids, h.child, h.parent, h.root, h.live, h.size, h.rootOk⟩
  have hstop := quiet_modify _ t (fun k => { k with state := .stopped }) rfl
    fun hi => absurd hi (hlog.ne_init htr)
  obtain ⟨cs', h'⟩ := (hlog.quiet hstop).removeTask htr hleaf
  refine ⟨_, cs', h', ?_⟩
  rcases mem_cons.mp hcur with hi | hr
  · exact mem_cons.mpr (.inl hi)
  · exact mem_cons_of_mem _ ((mem_erase_of_ne hne).mpr hr)

/-- The outcomes of one turn of `sys_waitpid`: an answer without a child to reap, a
reaped child, or a sleep. -/
theorem waitTurn_cases (s : Kernel) (pid : Int16) (options : ℤ) (wantStatus : Bool) :
    ∃ s₁, s₁ = (s.modify s.current fun k => { k with mode := .user }) ∧
      ((∀ z, matchChild s pid (s.childrenOf s.current) ≠ some (z, true)) ∧
        (∃ r, waitTurn s pid options wantStatus = (some r, s₁)) ∨
       (∃ z, matchChild s pid (s.childrenOf s.current) = some (z, true) ∧
        waitTurn s pid options wantStatus =
          (some (reapChild s₁ z wantStatus).1, (reapChild s₁ z wantStatus).2)) ∨
       (∀ z, matchChild s pid (s.childrenOf s.current) ≠ some (z, true)) ∧
        waitTurn s pid options wantStatus = (none, s₁.modify s.current fun k =>
        { k with childWait := s.current :: k.childWait, state := .interruptible,
                 mode := .waiting pid options wantStatus })) := by
  refine ⟨_, rfl, ?_⟩
  have hmatch := @matchChild_modify s s.current (fun k => { k with mode := .user }) pid
    (s.childrenOf s.current) ⟨Iff.rfl, rfl⟩
  have hcur : (s.modify s.current fun k => { k with mode := .user }).current = s.current := rfl
  have hkids : (s.modify s.current fun k => { k with mode := .user }).childrenOf s.current =
    s.childrenOf s.current := rfl
  unfold waitTurn
  dsimp only
  rw [hcur, hkids, hmatch]
  generalize (s.modify s.current fun k => { k with mode := .user }) = s₁
  rcases matchChild s pid (s.childrenOf s.current) with _ | ⟨z, _ | _⟩
  · exact .inl ⟨nofun, ERROR_WAITPID, rfl⟩
  · by_cases hopt : options % 2 = WNOHANG
    · exact .inl ⟨by simp, 0, if_pos hopt⟩
    · exact .inr (.inr ⟨by simp, if_neg hopt⟩)
  · exact .inr (.inl ⟨z, rfl, rfl⟩)

theorem TreeInv.waitTurn {pid : Int16} (h : TreeInv s)
    (hleaf : ReapsLeaf s pid) : TreeInv (waitTurn s pid options wantStatus).2 := by
  obtain ⟨s₁, rfl, hcases⟩ := waitTurn_cases s pid options wantStatus
  have hs := h.quiet (quiet_modify s s.current (fun k => { k with mode := .user }) rfl
    fun _ hr => ⟨hr.autoReap, hr.state, hr.signal⟩)
  rcases hcases with ⟨-, r, heq⟩ | ⟨z, hm, heq⟩ | ⟨-, heq⟩
  · exact heq ▸ hs
  · have hz := matchChild_mem hm
    exact heq ▸ TreeInv.reapChild hs hz (hleaf z hz hm)
  · rw [heq]
    exact hs.quiet (quiet_modify _ s.current (fun k =>
      { k with childWait := s.current :: k.childWait, state := .interruptible,
               mode := .waiting pid options wantStatus }) rfl
      fun _ hr => ⟨hr.autoReap, nofun, hr.signal⟩)

theorem endSleep_keeps (k : TaskStruct) :
    (endSleep k).serial = k.serial ∧ (endSleep k).parent = k.parent ∧
      ((endSleep k).state = .zombie ↔ k.state = .zombie) ∧ (RootOk k → RootOk (endSleep k)) := by
  unfold endSleep
  split_ifs with h
  · exact ⟨rfl, rfl, by simp [h], fun hr => ⟨hr.autoReap, nofun, hr.signal⟩⟩
  · exact ⟨rfl, rfl, Iff.rfl, id⟩

/-- A task that resumes inside `sys_waitpid` reaps only a childless task. -/
def ResumesLeaf (s : Kernel) (expired : Bool) : Prop :=
  leavesSleep (s.task s.current) expired = true →
    match (s.task s.current).mode with
    | .waiting pid _ _ => ReapsLeaf s pid
    | _ => True

instance (s : Kernel) (expired : Bool) : Decidable (ResumesLeaf s expired) := by
  unfold ResumesLeaf
  cases (s.task s.current).mode <;> infer_instance

/-- A task outside a sleep, or one that sleeps on, changes nothing; a sleeper leaves its
queue; and a waiting parent looks at its children again. -/
theorem resume_cases (s : Kernel) (expired : Bool) : resume s expired = s ∨
    (∃ q timed, (s.task s.current).mode = .sleeping q timed ∧ resume s expired =
      { s.modify s.current fun k => { endSleep k with mode := .user } with
        queue := update s.queue q ((s.queue q).erase s.current) }) ∨
    (∃ pid options wantStatus, (s.task s.current).mode = .waiting pid options wantStatus ∧
      leavesSleep (s.task s.current) expired = true ∧ resume s expired =
        (waitTurn (s.modify s.current fun k =>
          { endSleep k with childWait := k.childWait.erase s.current })
          pid options wantStatus).2) := by
  unfold resume
  dsimp only
  by_cases hleaves : leavesSleep (s.task s.current) expired = true
  · rw [if_pos hleaves]
    cases (s.task s.current).mode with
    | user => exact .inl rfl
    | exited => exact .inl rfl
    | sleeping q timed => exact .inr (.inl ⟨q, timed, rfl, rfl⟩)
    | waiting pid options wantStatus =>
      exact .inr (.inr ⟨pid, options, wantStatus, rfl, hleaves, rfl⟩)
  · rw [if_neg hleaves]
    exact .inl rfl

theorem TreeInv.resume {expired : Bool} (h : TreeInv s) (hleaf : ResumesLeaf s expired) :
    TreeInv (resume s expired) := by
  obtain ⟨hserial, hparent, hstate, hroot⟩ := endSleep_keeps (s.task s.current)
  rcases resume_cases s expired with heq | ⟨q, timed, -, heq⟩ |
    ⟨pid, options, wantStatus, hm, hleaves, heq⟩
  · rw [heq]
    exact h
  · have hq := quiet_modify s s.current (fun k => { endSleep k with mode := .user })
      hparent fun _ hr => ⟨(hroot hr).autoReap, (hroot hr).state, (hroot hr).signal⟩
    rw [heq]
    exact (h.quiet hq).quiet ⟨rfl, rfl, rfl, rfl, rfl, fun _ => rfl, id⟩
  · have hmode := hleaf hleaves
    rw [hm] at hmode
    have hq := quiet_modify s s.current
      (fun k => { endSleep k with childWait := k.childWait.erase s.current }) hparent
      fun _ hr => ⟨(hroot hr).autoReap, (hroot hr).state, (hroot hr).signal⟩
    have hsame := @matchChild_modify s s.current
      (fun k => { endSleep k with childWait := k.childWait.erase s.current }) pid
      (s.childrenOf s.current) ⟨hstate, hserial⟩
    rw [heq]
    exact (h.quiet hq).waitTurn fun z hz hmatch => hmode z hz (hsame.symm.trans hmatch)

theorem TreeInv.sysWaitpid {pid : Int16} (h : TreeInv s)
    (hleaf : ReapsLeaf s pid) : TreeInv (sysWaitpid s pid options wantStatus).2 := by
  unfold Process.sysWaitpid
  split_ifs
  · exact h
  · exact h.waitTurn hleaf

theorem TreeInv.sysFork (h : TreeInv s) (hr : sysFork s out = some r) : TreeInv r.2 := by
  cases out with
  | fails => exact some.inj hr ▸ h
  | orphaned t => cases hr
  | abandoned t =>
    simp only [Process.sysFork] at hr
    split_ifs at hr with hlive
    exact some.inj hr ▸ h.abandon (by simpa using hlive)
  | succeeds t =>
    simp only [Process.sysFork] at hr
    split_ifs at hr with hlive
    exact some.inj hr ▸ h.create (by simpa using hlive)

theorem TreeInv.sysExecve {autoReap : Bool} (h : TreeInv s)
    (hout : ∀ t, out ≠ .orphaned t) (hr : sysExecve s autoReap out = some r) : TreeInv r.2 := by
  cases out with
  | fails => exact some.inj hr ▸ h
  | orphaned t => exact absurd rfl (hout t)
  | abandoned t => cases hr
  | succeeds t =>
    simp only [Process.sysExecve] at hr
    split_ifs at hr with hlive
    have hnew := @TreeInv.create s t defaultSigaction h (by simpa using hlive)
    have hne : t ≠ s.initTask := by
      rintro rfl
      obtain ⟨rs, cs, h, -⟩ := h
      exact hlive ((h.live _).mpr mem_cons_self)
    exact some.inj hr ▸ hnew.quiet
      (quiet_modify _ t (fun k => { k with autoReap := autoReap }) rfl fun hi => absurd hi hne)

/-- The creation of a task does not fail after the task was put into its parent's list. -/
def Completes : Creation → Prop
  | .orphaned _ => False
  | _ => True

instance : DecidablePred Completes := fun out => by
  cases out <;> unfold Completes <;> infer_instance

theorem Completes.ne_orphaned (h : Completes out) (t : ℕ) : out ≠ .orphaned t := by
  rintro rfl
  exact h

def OrderlyServer (s : Kernel) : ServerAction → Prop
  | .spawn out => Completes out
  | .kill pid signum => SparesInit s pid signum
  | .wake _ => True

instance (s : Kernel) : DecidablePred (OrderlyServer s) := fun a => by
  cases a <;> unfold OrderlyServer <;> infer_instance

theorem serverStep_inv {a : ServerAction} (h : TreeInv s) (ha : OrderlyServer s a)
    (hstep : serverStep s a = some s') : TreeInv s' := by
  cases a with
  | spawn out =>
    obtain ⟨r, hr, rfl⟩ := map_eq_some_iff.mp hstep
    exact h.sysExecve (Completes.ne_orphaned ha) hr
  | kill pid signum => exact some.inj hstep ▸ h.quiet (quiet_sysKill ha)
  | wake q => exact some.inj hstep ▸ h.quiet (quiet_wakeupQueue s q)

/-- What a step must not do: fail late in `__execve`, stop init, or reap a zombie that
still has children. -/
def Orderly (s : Kernel) : ProcEvent → Prop
  | .execve out => Completes out
  | .kill pid signum => SparesInit s pid signum
  | .waitpid pid _ _ => ReapsLeaf s pid
  | .resume expired => ResumesLeaf s expired
  | .tick actions => Along serverStep OrderlyServer s actions
  | _ => True

instance (s : Kernel) : DecidablePred (Orderly s) := fun e => by
  cases e <;> unfold Orderly <;> infer_instance

theorem syscall_eq {out : Option Kernel} (h : syscall s out = some s') : out = some s' := by
  unfold syscall at h
  split_ifs at h
  exact h

theorem signalBit_interrupt : signalBit SIGINT &&& stopBits = 0 := by decide

theorem procStep_inv {e : ProcEvent} (h : TreeInv s) (he : Orderly s e)
    (hstep : procStep s e = some s') : TreeInv s' := by
  cases e with
  | fork out =>
    obtain ⟨r, hr, rfl⟩ := map_eq_some_iff.mp (syscall_eq hstep)
    exact h.sysFork hr
  | execve out =>
    obtain ⟨r, hr, rfl⟩ := map_eq_some_iff.mp (syscall_eq hstep)
    exact h.sysExecve (Completes.ne_orphaned he) hr
  | exit status => exact some.inj (syscall_eq hstep) ▸ h.quiet (quiet_sysExit s status)
  | kill pid signum => exact some.inj (syscall_eq hstep) ▸ h.quiet (quiet_sysKill he)
  | waitpid pid options wantStatus =>
    exact some.inj (syscall_eq hstep) ▸ h.sysWaitpid he
  | sleepOn q timed => exact some.inj (syscall_eq hstep) ▸ h.quiet (quiet_sleepOn s q timed)
  | resume expired => exact some.inj hstep ▸ h.resume he
  | wakeup q => exact some.inj hstep ▸ h.quiet (quiet_wakeupQueue s q)
  | ttyInterrupt pid =>
    simp only [procStep] at hstep
    split_ifs at hstep
    · exact some.inj hstep ▸ h
    · exact some.inj hstep ▸ h.quiet (quiet_sysKill fun _ _ => signalBit_interrupt)
  | tick actions =>
    obtain ⟨m, hm, rfl⟩ := map_eq_some_iff.mp hstep
    exact (run_preserves (fun _ _ _ hs ha h' => serverStep_inv hs ha h') actions s m h he hm).timerTail

end Steps

section Run

variable {s : Kernel} {t : ℕ}

theorem TreeInv.boot (t : ℕ) : TreeInv (bootKernel t) := by
  have hrun : Ring (bootKernel t).links (.runList t) [] :=
    ((ring_init _ _).init_frame (by simp)).init_frame (by simp)
  have hkids : Ring (bootKernel t).links (.children t) [] := (ring_init _ _).init_frame (by simp)
  refine ⟨[], fun _ => [], ⟨hrun, ⟨fun p hp => ?_, nofun⟩, by simp, nofun, rfl, fun x => ?_,
    Nat.zero_lt_one, ⟨rfl, nofun, UInt32.zero_and⟩⟩, mem_cons_self⟩
  · obtain rfl := mem_singleton.mp hp
    exact hkids
  · exact decide_eq_true_iff.trans mem_singleton.symm

/-- The tree as the lists show it: every task on `run_list` has its parent there and, init
apart, is on the children list of that parent and of no other task; every task on a
children list is on `run_list` and allocated. -/
structure TreeOk (s : Kernel) : Prop where
  parent : ∀ t ∈ s.runTasks s.initTask, (s.task t).parent ∈ s.runTasks s.initTask
  root : (s.task s.initTask).parent = s.initTask
  child : ∀ t ∈ s.runTasks s.initTask, t ≠ s.initTask → ∀ p ∈ s.runTasks s.initTask,
    t ∈ s.childrenOf p ↔ p = (s.task t).parent
  nodup : ∀ p ∈ s.runTasks s.initTask, (s.childrenOf p).Nodup
  alive : ∀ p ∈ s.runTasks s.initTask, ∀ c ∈ s.childrenOf p,
    c ∈ s.runTasks s.initTask ∧ s.live c = true

theorem TreeInv.treeOk (h : TreeInv s) : TreeOk s := by
  obtain ⟨rs, cs, h, -⟩ := h
  have hrun := h.runTasks_eq
  refine ⟨fun t ht => ?_, h.root, fun t ht hne p hp => ?_, fun p hp => ?_, fun p hp c hc => ?_⟩
  · rw [hrun] at ht ⊢
    rcases mem_cons.mp ht with rfl | ht
    · rw [h.root]
      exact mem_cons_self
    · exact h.parent t ht
  · rw [hrun] at ht hp
    have htr := (mem_cons.mp ht).resolve_left hne
    rw [h.childrenOf_eq hp, h.child p hp t, and_iff_right htr, eq_comm]
  · rw [hrun] at hp
    rw [h.childrenOf_eq hp]
    exact h.kids.nodup hp
  · rw [hrun] at hp ⊢
    rw [h.childrenOf_eq hp] at hc
    have hcr : c ∈ s.initTask :: rs := mem_cons_of_mem _ ((h.child p hp c).mp hc).1
    exact ⟨hcr, (h.live c).mpr hcr⟩

/-- In every run from init alone whose steps are orderly, the tree is sound at the end. -/
theorem orderly_run_keeps_tree (t : ℕ) (events : List ProcEvent) (s : Kernel)
    (horderly : Along procStep Orderly (bootKernel t) events)
    (hrun : run procStep (bootKernel t) events = some s) : TreeOk s :=
  (run_preserves (fun _ _ _ h he hstep => procStep_inv h he hstep) events _ s (.boot t)
    horderly hrun).treeOk

/-- A stopped parent leaves through `_exit`, which hands its child over to init; there the
child exits and is reaped. -/
theorem orderly_run_keeps_tree_handed_over : ∃ s ∈ run procStep (bootKernel 0)
        [.fork (.succeeds 1), .tick [], .fork (.succeeds 2), .kill 1 19, .tick [], .tick [],
         .exit 7, .tick [], .waitpid (-1) 0 true],
      s.waitLog = [⟨0, 0, 2, some 7⟩] ∧ TreeOk s := by
  have hrun : ∃ s ∈ run procStep (bootKernel 0)
        [.fork (.succeeds 1), .tick [], .fork (.succeeds 2), .kill 1 19, .tick [], .tick [],
         .exit 7, .tick [], .waitpid (-1) 0 true],
      s.waitLog = [⟨0, 0, 2, some 7⟩] := by
    decide +kernel
  obtain ⟨s, hs, hlog⟩ := hrun
  exact ⟨s, hs, hlog, orderly_run_keeps_tree 0 _ s (by decide +kernel) hs⟩

/-- Reaping a zombie leaves its child with a parent that no longer exists. -/
theorem reaped_parent_dangles : ∃ s ∈ run procStep (bootKernel 0)
        [.fork (.succeeds 1), .tick [], .fork (.succeeds 2), .exit 0, .tick [], .tick [],
         .waitpid (-1) 0 true],
      2 ∈ s.runTasks s.initTask ∧ (s.task 2).parent = 1 ∧ 1 ∉ s.runTasks s.initTask ∧
        s.live 1 = false := by
  decide +kernel

end Run

/-- The turns along a stretch of `run_list`. -/
theorem iterate_schedule {s : Kernel} (ts : List ℕ) {last : Node}
    (h : Seg s.links (.runList s.current) (ts.map .runList) last) :
    (iterate schedule s (ts.length + 1)).map Kernel.current = s.current :: ts := by
  induction ts generalizing s with
  | nil => rfl
  | cons t ts ih =>
    have hnext : (schedule s).current = t := congrArg Node.owner h.1
    have hrest := @ih (schedule s) (by rw [hnext]; exact h.2.2)
    rw [length_cons, iterate, map_cons, hrest, hnext]

/-- In every orderly run, as many turns as there are tasks, the current one and those that
`schedule` gives, are one for each task. -/
theorem schedule_round_robin (t : ℕ) (events : List ProcEvent) (s : Kernel)
    (horderly : Along procStep Orderly (bootKernel t) events)
    (hrun : run procStep (bootKernel t) events = some s) : (s.runTasks s.initTask).Nodup ∧
      (iterate schedule s (s.runTasks s.initTask).length).map Kernel.current ~
        s.runTasks s.initTask := by
  obtain ⟨rs, cs, h, hcur⟩ := run_preserves (fun _ _ _ h he hstep => procStep_inv h he hstep) events
    _ s (.boot t) horderly hrun
  have hring := h.run
  rw [h.runTasks_eq]
  refine ⟨h.nodup, ?_⟩
  rcases mem_cons.mp hcur with hinit | hmem
  · rw [← hinit] at hring ⊢
    rw [length_cons, iterate_schedule rs hring.seg]
  · -- the turn starts in the middle of the list
    obtain ⟨as, bs, rfl⟩ := append_of_mem hmem
    rw [map_append, map_cons] at hring
    have hturns := iterate_schedule (bs ++ s.initTask :: as) (by simpa using hring.rotate.seg)
    have hlen : (s.initTask :: (as ++ s.current :: bs)).length =
        (bs ++ s.initTask :: as).length + 1 := by
      simp only [length_cons, length_append]
      omega
    rw [hlen, hturns]
    exact @perm_append_comm _ (s.current :: bs) (s.initTask :: as)

theorem schedule_round_robin_forked : ∃ s ∈ run procStep (bootKernel 0)
        [.fork (.succeeds 1), .fork (.succeeds 2), .tick []],
      (iterate schedule s (s.runTasks s.initTask).length).map Kernel.current ~
        s.runTasks s.initTask := by
  have hrun : (run procStep (bootKernel 0)
      [.fork (.succeeds 1), .fork (.succeeds 2), .tick []]).isSome := by decide +kernel
  obtain ⟨s, hs⟩ := isSome_iff_exists.mp hrun
  exact ⟨s, hs, (schedule_round_robin 0 _ s (by decide +kernel) hs).2⟩

end Sodex.Process
