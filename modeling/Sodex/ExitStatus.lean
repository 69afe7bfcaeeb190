import Sodex.ProcessTree

/-!
# The exit status of a task

A task that has called `sys_exit` waits as a zombie for its parent. Every task has a
serial number of its own, so the results of `sys_waitpid` name a task at most once. A
wait queue `child_wait` holds at most its own task, and only while that task is inside
`sys_waitpid`; a task that has exited is on none.
-/
namespace Sodex.Process

open LinkRing LinkFamily Dlist Runs List Option Function

section Serials

variable {s s' s'' : Kernel} {t : ℕ} {r : Int16 × Kernel} {out : Creation}

/-- Serial numbers identify the allocated tasks, and `waitLog` names none of these. -/
structure SerialInv (s : Kernel) : Prop where
  fresh : ∀ a, s.live a = true → (s.task a).serial < s.nextPid
  inj : ∀ a b, s.live a = true → s.live b = true →
    (s.task a).serial = (s.task b).serial → a = b
  logFresh : ∀ r ∈ s.waitLog, r.serial < s.nextPid
  logGone : ∀ r ∈ s.waitLog, ∀ a, s.live a = true → (s.task a).serial ≠ r.serial
  logOnce : (s.waitLog.map WaitResult.serial).Nodup

/-- From `s` to `s'` tasks may be freed, and no result is recorded. -/
structure Shrinks (s s' : Kernel) : Prop where
  live : ∀ a, s'.live a = true → s.live a = true
  serial : ∀ a, (s'.task a).serial = (s.task a).serial
  nextPid : s'.nextPid = s.nextPid
  waitLog : s'.waitLog = s.waitLog

theorem Shrinks.trans (h : Shrinks s s') (h' : Shrinks s' s'') : Shrinks s s'' where
  live a ha := h.live a (h'.live a ha)
  serial a := (h'.serial a).trans (h.serial a)
  nextPid := h'.nextPid.trans h.nextPid
  waitLog := h'.waitLog.trans h.waitLog

theorem SerialInv.shrinks (h : SerialInv s) (hs : Shrinks s s') : SerialInv s' where
  fresh a ha := by
    rw [hs.serial, hs.nextPid]
    exact h.fresh a (hs.live a ha)
  inj a b ha hb hab := by
    rw [hs.serial, hs.serial] at hab
    exact h.inj a b (hs.live a ha) (hs.live b hb) hab
  logFresh r hr := by
    rw [hs.waitLog] at hr
    rw [hs.nextPid]
    exact h.logFresh r hr
  logGone r hr a ha := by
    rw [hs.waitLog] at hr
    rw [hs.serial]
    exact h.logGone r hr a (hs.live a ha)
  logOnce := by
    rw [hs.waitLog]
    exact h.logOnce

/-- From `s` to `s'` a task was set up at the address `t`. -/
structure Adds (s s' : Kernel) (t : ℕ) : Prop where
  unused : s.live t = false
  other : ∀ a, a ≠ t → s'.task a = s.task a
  otherLive : ∀ a, a ≠ t → s'.live a = s.live a
  serial : (s'.task t).serial = s.nextPid
  childWait : (s'.task t).childWait = []
  nextPid : s'.nextPid = s.nextPid + 1
  waitLog : s'.waitLog = s.waitLog

theorem adds_setUpTask {sa : ℕ → Handler} (h : s.live t = false) : Adds s (setUpTask s t sa) t where
  unused := h
  other _ ha := update_of_ne ha _ _
  otherLive _ ha := update_of_ne ha _ _
  serial := congrArg TaskStruct.serial (update_self t _ s.task)
  childWait := congrArg TaskStruct.childWait (update_self t _ s.task)
  nextPid := rfl
  waitLog := rfl

theorem Adds.freeTask (h : Adds s s' t) : Adds s (freeTask s' t) t :=
  ⟨h.unused, h.other, fun a ha => (update_of_ne ha _ _).trans (h.otherLive a ha),
    h.serial, h.childWait, h.nextPid, h.waitLog⟩

/-- Linking the new task changes no field of a task. -/
theorem Adds.links {L : Links Node} (h : Adds s s' t) : Adds s { s' with links := L } t :=
  ⟨h.unused, h.other, h.otherLive, h.serial, h.childWait, h.nextPid, h.waitLog⟩

theorem Adds.autoReap {b : Bool} (h : Adds s s' t) :
    Adds s (s'.modify t fun k => { k with autoReap := b }) t := by
  refine ⟨h.unused, fun a ha => ?_, h.otherLive, ?_, ?_, h.nextPid, h.waitLog⟩
  · rw [task_modify_of_ne _ _ ha]
    exact h.other a ha
  · rw [task_modify_self]
    exact h.serial
  · rw [task_modify_self]
    exact h.childWait

theorem sysFork_adds (hr : sysFork s out = some r) : r.2 = s ∨ ∃ t, Adds s r.2 t := by
  cases out with
  | fails => exact .inl (some.inj hr ▸ rfl)
  | orphaned t => cases hr
  | abandoned t =>
    simp only [sysFork] at hr
    split_ifs at hr with hlive
    exact .inr ⟨t, some.inj hr ▸ (adds_setUpTask (by simpa using hlive)).freeTask⟩
  | succeeds t =>
    simp only [sysFork] at hr
    split_ifs at hr with hlive
    exact .inr ⟨t, some.inj hr ▸ (adds_setUpTask (by simpa using hlive)).links.links⟩

theorem sysExecve_adds {autoReap : Bool}
    (hr : sysExecve s autoReap out = some r) : r.2 = s ∨ ∃ t, Adds s r.2 t := by
  cases out with
  | fails => exact .inl (some.inj hr ▸ rfl)
  | abandoned t => cases hr
  | orphaned t =>
    simp only [sysExecve] at hr
    split_ifs at hr with hlive
    exact .inr ⟨t, some.inj hr ▸ (adds_setUpTask (by simpa using hlive)).links.freeTask⟩
  | succeeds t =>
    simp only [sysExecve] at hr
    split_ifs at hr with hlive
    exact .inr ⟨t, some.inj hr ▸
      (adds_setUpTask (by simpa using hlive)).links.links.autoReap⟩

/-- A new task takes the next serial number. -/
theorem SerialInv.adds (h : SerialInv s) (hn : Adds s s' t) : SerialInv s' := by
  have hlive : ∀ a, a ≠ t → s'.live a = true → s.live a = true :=
    fun a ha hla => hn.otherLive a ha ▸ hla
  have hold : ∀ a, a ≠ t → s'.live a = true → (s'.task a).serial < s.nextPid := by
    intro a ha hla
    rw [hn.other a ha]
    exact h.fresh a (hlive a ha hla)
  constructor
  · intro a ha
    rw [hn.nextPid]
    by_cases hat : a = t
    · rw [hat, hn.serial]
      exact Nat.lt_succ_self _
    · exact Nat.lt_succ_of_lt (hold a hat ha)
  · intro a b ha hb hab
    by_cases hat : a = t
    · by_cases hbt : b = t
      · exact hat.trans hbt.symm
      · have hlt := hold b hbt hb
        rw [← hab, hat, hn.serial] at hlt
        exact absurd hlt (lt_irrefl _)
    · by_cases hbt : b = t
      · have hlt := hold a hat ha
        rw [hab, hbt, hn.serial] at hlt
        exact absurd hlt (lt_irrefl _)
      · rw [hn.other a hat, hn.other b hbt] at hab
        exact h.inj a b (hlive a hat ha) (hlive b hbt hb) hab
  · intro r hr
    rw [hn.waitLog] at hr
    rw [hn.nextPid]
    exact Nat.lt_succ_of_lt (h.logFresh r hr)
  · intro r hr a ha
    rw [hn.waitLog] at hr
    by_cases hat : a = t
    · rw [hat, hn.serial]
      exact (h.logFresh r hr).ne'
    · rw [hn.other a hat]
      exact h.logGone r hr a (hlive a hat ha)
  · rw [hn.waitLog]
    exact h.logOnce

theorem filter_serial_eq {l : List WaitResult} {r : WaitResult}
    (hnd : (l.map WaitResult.serial).Nodup) (hr : r ∈ l) :
    l.filter (fun x => x.serial = r.serial) = [r] := by
  induction l with
  | nil => cases hr
  | cons x l ih =>
    rw [map_cons, nodup_cons] at hnd
    rcases mem_cons.mp hr with hx | hr
    · subst hx
      rw [filter_cons_of_pos (by simp), filter_eq_nil_iff.mpr]
      intro y hy
      simp only [decide_eq_true_eq]
      exact fun he => hnd.1 (he ▸ mem_map_of_mem hy)
    · have hne : x.serial ≠ r.serial := fun he => hnd.1 (he ▸ mem_map_of_mem hr)
      rw [filter_cons_of_neg (by simpa using hne)]
      exact ih hnd.2 hr

/-- Reaping records the serial number of a task that is freed at the same time. -/
theorem SerialInv.reapChild {wantStatus : Bool} (h : SerialInv s) (ht : s.live t = true) :
    SerialInv (reapChild s t wantStatus).2 := by
  have hserial : ∀ a, ((Process.reapChild s t wantStatus).2.task a).serial =
      (s.task a).serial := by
    intro a
    by_cases hat : a = t
    · subst hat
      simp [Process.reapChild, removeTask, freeTask, Kernel.setState, Kernel.modify]
    · simp [Process.reapChild, removeTask, freeTask, Kernel.setState, Kernel.modify, hat]
  have hlive : ∀ a, (Process.reapChild s t wantStatus).2.live a = true →
      a ≠ t ∧ s.live a = true := by
    intro a ha
    by_cases hat : a = t
    · subst hat
      simp [Process.reapChild, removeTask, freeTask] at ha
    · refine ⟨hat, ?_⟩
      simpa [Process.reapChild, removeTask, freeTask, Kernel.setState, Kernel.modify, hat] using ha
  have hlog : (Process.reapChild s t wantStatus).2.waitLog = s.waitLog ++
      [⟨s.current, (s.task t).parent, (s.task t).serial,
        if wantStatus then some (s.task t).exitStatus else none⟩] := rfl
  constructor
  · intro a ha
    rw [hserial]
    exact h.fresh a (hlive a ha).2
  · intro a b ha hb hab
    rw [hserial, hserial] at hab
    exact h.inj a b (hlive a ha).2 (hlive b hb).2 hab
  · intro r hr
    rw [hlog, mem_append, mem_singleton] at hr
    rcases hr with hr | rfl
    · exact h.logFresh r hr
    · exact h.fresh t ht
  · intro r hr a ha
    rw [hlog, mem_append, mem_singleton] at hr
    rw [hserial]
    obtain ⟨hat, hla⟩ := hlive a ha
    rcases hr with hr | rfl
    · exact h.logGone r hr a hla
    · exact fun hab => hat (h.inj a t hla ht hab)
  · rw [hlog, map_append, nodup_append]
    refine ⟨h.logOnce, nodup_singleton _, ?_⟩
    intro x hx y hy hxy
    obtain ⟨r, hr, rfl⟩ := mem_map.mp hx
    obtain rfl := mem_singleton.mp hy
    exact h.logGone r hr t ht hxy.symm

end Serials

section Waiting

variable {s s' : Kernel} {t u a : ℕ} {k : TaskStruct}

/-- The queue `child_wait` of the task at address `a`. -/
def WaitOk (a : ℕ) (k : TaskStruct) : Prop :=
  k.childWait = [] ∨ k.childWait = [a] ∧ ∃ pid options wantStatus,
    k.mode = .waiting pid options wantStatus

def WaitInv (s : Kernel) : Prop := ∀ a, WaitOk a (s.task a)

theorem WaitOk.congr {k' : TaskStruct} (h : WaitOk a k)
    (hwait : k'.childWait = k.childWait) (hmode : k'.mode = k.mode) : WaitOk a k' := by
  unfold WaitOk
  rw [hwait, hmode]
  exact h

/-- Outside `sys_waitpid` the queue is empty. -/
theorem WaitOk.childWait_eq (h : WaitOk a k)
    (hmode : ∀ pid options wantStatus, k.mode ≠ .waiting pid options wantStatus) :
    k.childWait = [] := by
  rcases h with h | ⟨-, pid, options, wantStatus, hw⟩
  · exact h
  · exact absurd hw (hmode pid options wantStatus)

theorem WaitInv.modify (h : WaitInv s) (f : TaskStruct → TaskStruct)
    (hf : WaitOk t (f (s.task t))) : WaitInv (s.modify t f) := by
  intro a
  by_cases hat : a = t
  · subst hat
    rw [task_modify_self]
    exact hf
  · rw [task_modify_of_ne _ _ hat]
    exact h a

theorem WaitInv.adds (h : WaitInv s) (hn : Adds s s' t) : WaitInv s' := by
  intro a
  by_cases hat : a = t
  · rw [hat]
    exact .inl hn.childWait
  · rw [hn.other a hat]
    exact h a

theorem WaitOk.signalLoop (fuel : ℕ) (h : WaitOk a k) : WaitOk a (signalLoop fuel k) :=
  signalLoop_preserves (fun k i _ h => h.congr (deliverSignal_keeps k i).2.2.1
    (deliverSignal_keeps k i).2.2.2) fuel h

theorem endSleep_waits (k : TaskStruct) :
    (endSleep k).childWait = k.childWait ∧ (endSleep k).mode = k.mode := by
  unfold endSleep
  split_ifs
  · exact ⟨rfl, rfl⟩
  · exact ⟨rfl, rfl⟩

theorem WaitInv.erase_eq (h : WaitInv s) : (s.task s.current).childWait.erase s.current = [] := by
  rcases h s.current with hw | ⟨hw, -⟩
  · simp [hw]
  · simp [hw]

end Waiting

section Awaits

variable {s s' : Kernel} {t n i : ℕ} {status : ℤ} {k : TaskStruct}

/-- The delivery of signal `i + 1` changes neither the state of a zombie nor its status. -/
def Ignores (k : TaskStruct) (i : ℕ) : Prop :=
  ¬ (i + 1 = 19 ∨ i + 1 = 20 ∨ i + 1 = 21 ∨ i + 1 = 22) ∧
    (i + 1 = SIGKILL ∨ k.sigactions i = .signalDummy ∨ k.sigactions i = .coreDump)

/-- Every pending signal is one that a zombie ignores. -/
def Harmless (k : TaskStruct) : Prop :=
  ∀ i : ℕ, i < 32 → k.signal &&& (1 <<< i.toUInt32) ≠ 0 → Ignores k i

instance (k : TaskStruct) (i : ℕ) : Decidable (Ignores k i) := inferInstanceAs (Decidable (_ ∧ _))

instance (k : TaskStruct) : Decidable (Harmless k) :=
  inferInstanceAs (Decidable (∀ i : ℕ, i < 32 → _ → _))

/-- A task that has exited and was not reaped yet. -/
structure Awaits (n : ℕ) (status : ℤ) (k : TaskStruct) : Prop where
  serial : k.serial = n
  mode : k.mode = .exited
  state : k.state = .zombie
  exitStatus : k.exitStatus = status
  autoReap : k.autoReap = false
  harmless : Harmless k

theorem maxsignal_spec {signal : UInt32} (h : maxsignal signal = some i) :
    i < 32 ∧ signal &&& (1 <<< i.toUInt32) ≠ 0 := by
  constructor
  · have hmem := mem_of_find?_eq_some h
    simpa using hmem
  · simpa using find?_some h

theorem deliverSignal_of_ignores (hi : Ignores k i) (hstate : k.state = .zombie) :
    deliverSignal k i = { k with signal := k.signal &&& ~~~(1 <<< i.toUInt32) } := by
  obtain ⟨hstop, hrest⟩ := hi
  unfold deliverSignal
  simp only [if_neg hstop]
  by_cases hkill : i + 1 = SIGKILL
  · rw [if_pos hkill]
    cases k
    rw [hstate]
  · rw [if_neg hkill]
    rcases hrest.resolve_left hkill with h | h
    · rw [h]
    · rw [h]

theorem Awaits.deliverSignal (h : Awaits n status k) (hi : maxsignal k.signal = some i) :
    Awaits n status (deliverSignal k i) := by
  obtain ⟨hlt, hbit⟩ := maxsignal_spec hi
  rw [deliverSignal_of_ignores (h.harmless i hlt hbit) h.state]
  refine ⟨h.serial, h.mode, h.state, h.exitStatus, h.autoReap, fun j hj hjbit => ?_⟩
  -- The delivery only clears bits.
  refine h.harmless j hj fun hzero => hjbit ?_
  show (k.signal &&& ~~~(1 <<< i.toUInt32)) &&& (1 <<< j.toUInt32) = 0
  rw [UInt32.and_assoc, UInt32.and_comm (~~~ _), ← UInt32.and_assoc, hzero, UInt32.zero_and]

/-- The task waits to be reaped. -/
structure Standing (s : Kernel) (t n : ℕ) (status : ℤ) : Prop where
  live : s.live t = true
  awaits : Awaits n status (s.task t)

end Awaits

section Steady

variable {s s' s'' : Kernel} {H : Set ℕ} {t u n : ℕ} {status : ℤ}

/-- No task is made or reaped, and a task that has exited stays as it is, unless its address is
in `H`. -/
structure Steady (H : Set ℕ) (s s' : Kernel) : Prop extends Shrinks s s' where
  waits : WaitInv s → WaitInv s'
  standing : ∀ t n status, t ∉ H → WaitInv s → Standing s t n status → Standing s' t n status

theorem Steady.trans (h : Steady H s s') (h' : Steady H s' s'') : Steady H s s'' :=
  ⟨h.toShrinks.trans h'.toShrinks, fun hw => h'.waits (h.waits hw), fun t n status ht hw hs =>
    h'.standing t n status ht (h.waits hw) (h.standing t n status ht hw hs)⟩

/-- Fields other than these are not looked at. -/
theorem Steady.congr (h : Steady H s s') (htask : s''.task = s'.task) (hlive : s''.live = s'.live)
    (hnext : s''.nextPid = s'.nextPid) (hlog : s''.waitLog = s'.waitLog) : Steady H s s'' := by
  refine ⟨⟨?_, ?_, hnext.trans h.nextPid, hlog.trans h.waitLog⟩, fun hw => ?_,
    fun t n status ht hw hs => ⟨?_, ?_⟩⟩
  · rw [hlive]
    exact h.live
  · rw [htask]
    exact h.serial
  · unfold WaitInv
    rw [htask]
    exact h.waits hw
  · rw [hlive]
    exact (h.standing t n status ht hw hs).live
  · rw [htask]
    exact (h.standing t n status ht hw hs).awaits

theorem Steady.refl (s : Kernel) : Steady H s s :=
  ⟨⟨fun _ h => h, fun _ => rfl, rfl, rfl⟩, id, fun _ _ _ _ _ h => h⟩

theorem Steady.mono {H' : Set ℕ} (h : Steady H s s') (hH : ∀ a ∈ H, a ∈ H') : Steady H' s s' :=
  ⟨h.toShrinks, h.waits, fun t n status ht => h.standing t n status fun htH => ht (hH t htH)⟩

theorem steady_modify (s : Kernel) (u : ℕ) (f : TaskStruct → TaskStruct)
    (hserial : (f (s.task u)).serial = (s.task u).serial)
    (hwait : WaitOk u (s.task u) → WaitOk u (f (s.task u)))
    (hawaits : u ∉ H → ∀ n status, Awaits n status (s.task u) → Awaits n status (f (s.task u))) :
    Steady H s (s.modify u f) := by
  refine ⟨⟨fun _ h => h, fun a => ?_, rfl, rfl⟩, fun hw => hw.modify f (hwait (hw u)),
    fun t n status ht _ h => ⟨h.live, ?_⟩⟩
  · by_cases hau : a = u
    · rw [hau, task_modify_self, hserial]
    · rw [task_modify_of_ne _ _ hau]
  · by_cases htu : t = u
    · subst htu
      rw [task_modify_self]
      exact hawaits ht n status h.awaits
    · rw [task_modify_of_ne _ _ htu]
      exact h.awaits

theorem steady_wakeTasks (ts : List ℕ) (s : Kernel) : Steady {a | a ∈ ts} s (wakeTasks s ts) := by
  induction ts generalizing s with
  | nil => exact .refl s
  | cons u ts ih =>
    have hfirst : Steady {a | a ∈ u :: ts} s (s.setState u .running) :=
      steady_modify s u _ rfl (fun h => h.congr rfl rfl) fun hu => absurd mem_cons_self hu
    exact hfirst.trans ((ih _).mono fun a ha => mem_cons_of_mem u ha)

theorem steady_wakeupQueue (s : Kernel) (q : ℕ) : Steady {a | a ∈ s.queue q} s (wakeupQueue s q) :=
  (steady_wakeTasks (s.queue q) s).congr rfl rfl rfl rfl

/-- A task that has exited is on no queue `child_wait`. -/
theorem steady_wakeupChildWait (s : Kernel) (p : ℕ) : Steady H s (wakeupChildWait s p) := by
  have hwake := steady_wakeTasks (s.task p).childWait s
  have hclear : Steady H (wakeTasks s (s.task p).childWait) (wakeupChildWait s p) :=
    steady_modify _ p _ rfl (fun _ => .inl rfl) fun _ _ _ h =>
      ⟨h.serial, h.mode, h.state, h.exitStatus, h.autoReap, h.harmless⟩
  refine ⟨hwake.toShrinks.trans hclear.toShrinks, fun hw => hclear.waits (hwake.waits hw),
    fun t n status ht hw h => hclear.standing t n status ht (hwake.waits hw)
      (hwake.standing t n status (fun hmem => ?_) hw h)⟩
  rcases hw p with hp | ⟨hp, pid, options, wantStatus, hmode⟩
  · simp [hp] at hmem
  · rw [Set.mem_ofPred_eq, hp, mem_singleton] at hmem
    rw [← hmem, h.awaits.mode] at hmode
    cases hmode

theorem steady_wakeupParentWaiters (s : Kernel) : Steady H s (wakeupParentWaiters s) := by
  unfold wakeupParentWaiters
  dsimp only
  split_ifs
  · exact .refl s
  · exact steady_wakeupChildWait s _

theorem steady_sysKill (s : Kernel) (pid : Int16) (signum : ℤ) :
    Steady {a | processFindPid s pid = some a ∧ signum ≠ 0} s (sysKill s pid signum).2 := by
  unfold sysKill
  cases hfind : processFindPid s pid with
  | none => exact .refl s
  | some proc =>
    by_cases hzero : signum = 0
    · simp only [if_pos hzero]
      exact .refl s
    · simp only [if_neg hzero]
      exact steady_modify s proc _ rfl (fun h => h.congr rfl rfl) fun hno => absurd ⟨rfl, hzero⟩ hno

theorem steady_adoptChild (s : Kernel) (c : ℕ) : Steady H s (adoptChild s c) := by
  have hmodify : Steady H s (s.modify c fun k => { k with parent := s.initTask }) :=
    steady_modify s c _ rfl (fun h => h.congr rfl rfl) fun _ _ _ h =>
      ⟨h.serial, h.mode, h.state, h.exitStatus, h.autoReap, h.harmless⟩
  have hmove : Steady H s (moveToInit s c) := hmodify.congr rfl rfl rfl rfl
  change Steady H s (if ((moveToInit s c).task c).state = .zombie then
    wakeupChildWait (moveToInit s c) (moveToInit s c).initTask else moveToInit s c)
  split_ifs
  · exact hmove.trans (steady_wakeupChildWait _ _)
  · exact hmove

theorem steady_adoptChildren (stop : Node) (fuel : ℕ) (s : Kernel) (pos : Node) :
    Steady H s (adoptChildren s stop fuel pos) := by
  induction fuel generalizing s pos with
  | zero => exact .refl s
  | succ fuel ih =>
    rw [adoptChildren]
    split_ifs
    · exact .refl s
    · exact (steady_adoptChild s _).trans (ih _ _)

theorem steady_freeTask (s : Kernel) (u : ℕ) : Steady {u} s (freeTask s u) := by
  refine ⟨⟨fun a ha => ?_, fun _ => rfl, rfl, rfl⟩, id, fun t n status ht _ h => ⟨?_, h.awaits⟩⟩
  · by_cases hau : a = u
    · subst hau
      simp [freeTask] at ha
    · simpa [freeTask, hau] using ha
  · exact (update_of_ne ht _ _).trans h.live

theorem steady_exitCurrent (s : Kernel) : Steady {s.current} s (exitCurrent s) := by
  have hreparent : Steady {s.current} s (reparentChildren s s.current) := by
    unfold reparentChildren
    split_ifs
    · exact .refl s
    · exact steady_adoptChildren _ _ _ _
  exact (hreparent.trans (steady_freeTask _ _)).congr rfl rfl rfl rfl

/-- The interrupt leaves a task that has exited a zombie, also when it strikes while the task
spins. -/
theorem steady_timerTail (s : Kernel) : Steady H s (timerTail s) := by
  obtain ⟨s₁, hs₁, hcases⟩ := timerTail_cases s
  have h₁ : Steady H s s₁ := hs₁ ▸ steady_modify s s.current _ (signalLoop_serial 32)
    (fun h => h.signalLoop 32) fun _ _ _ h =>
      signalLoop_preserves (fun _ _ hi h => h.deliverSignal hi) 32 h
  have h₂ := h₁.trans (steady_wakeupParentWaiters s₁)
  -- A task that leaves through `_exit` is stopped or reaps itself, so it has not exited.
  have hexit : ∀ m, Steady H s m → (∀ n status, ¬Awaits n status (m.task m.current)) →
      Steady H s (exitCurrent m) := by
    intro m hm hnot
    have hleave := steady_exitCurrent m
    refine ⟨hm.toShrinks.trans hleave.toShrinks, fun hw => hleave.waits (hm.waits hw),
      fun t n status ht hw h => ?_⟩
    have hstands := hm.standing t n status ht hw h
    refine hleave.standing t n status (fun htm => ?_) (hm.waits hw) hstands
    rw [Set.mem_singleton_iff] at htm
    exact hnot n status (htm ▸ hstands.awaits)
  rcases hcases with ⟨hstate, heq⟩ | ⟨-, hauto, heq⟩ | ⟨-, heq⟩ | heq
  · exact heq ▸ hexit _ h₁ fun n status h => by simp [h.state] at hstate
  · exact heq ▸ hexit _ h₂ fun n status h => by simp [h.autoReap] at hauto
  · exact heq ▸ h₂.congr rfl rfl rfl rfl
  · exact heq ▸ h₁.congr rfl rfl rfl rfl

end Steady

section Delivery

variable {s s' : Kernel} {t u n : ℕ} {status : ℤ} {e : ProcEvent}

/-- The task with serial number `n` is still allocated at the address `t`. -/
def Present (s : Kernel) (t n : ℕ) : Prop := s.live t = true ∧ (s.task t).serial = n

instance (s : Kernel) (t n : ℕ) : Decidable (Present s t n) := inferInstanceAs (Decidable (_ ∧ _))

/-- The kill sends no signal to the task. -/
def SparesKill (t n : ℕ) (s : Kernel) (pid : Int16) (signum : ℤ) : Prop :=
  Present s t n → signum ≠ 0 → processFindPid s pid ≠ some t

instance (t n : ℕ) (s : Kernel) (pid : Int16) (signum : ℤ) :
    Decidable (SparesKill t n s pid signum) := inferInstanceAs (Decidable (_ → _ → _))

/-- The queue has no entry with the address of the task. -/
def SparesWake (t n : ℕ) (s : Kernel) (q : ℕ) : Prop := Present s t n → t ∉ s.queue q

instance (t n : ℕ) (s : Kernel) (q : ℕ) : Decidable (SparesWake t n s q) :=
  inferInstanceAs (Decidable (_ → _))

def SparesServer (t n : ℕ) (s : Kernel) : ServerAction → Prop
  | .spawn _ => True
  | .kill pid signum => SparesKill t n s pid signum
  | .wake q => SparesWake t n s q

instance (t n : ℕ) (s : Kernel) : DecidablePred (SparesServer t n s)
  | .spawn _ => inferInstanceAs (Decidable True)
  | .kill pid signum => inferInstanceAs (Decidable (SparesKill t n s pid signum))
  | .wake q => inferInstanceAs (Decidable (SparesWake t n s q))

/-- While the task is there, no signal is sent to it and no queue with an old entry of its
address is woken. -/
def Spares (t n : ℕ) (s : Kernel) : ProcEvent → Prop
  | .kill pid signum => SparesKill t n s pid signum
  | .ttyInterrupt pid => 0 < pid → SparesKill t n s pid SIGINT
  | .wakeup q => SparesWake t n s q
  | .tick actions => Along serverStep (SparesServer t n) s actions
  | _ => True

instance (t n : ℕ) (s : Kernel) : DecidablePred (Spares t n s)
  | .kill pid signum => inferInstanceAs (Decidable (SparesKill t n s pid signum))
  | .ttyInterrupt pid => inferInstanceAs (Decidable (0 < pid → SparesKill t n s pid SIGINT))
  | .wakeup q => inferInstanceAs (Decidable (SparesWake t n s q))
  | .tick actions => inferInstanceAs (Decidable (Along serverStep (SparesServer t n) s actions))
  | .fork _ | .execve _ | .exit _ | .waitpid .. | .sleepOn .. | .resume _ =>
    inferInstanceAs (Decidable True)

/-- The task was reaped by its parent, with its status if the parent asked for it. -/
def Recorded (s : Kernel) (n : ℕ) (status : ℤ) : Prop :=
  ∃ r ∈ s.waitLog, r.serial = n ∧ r.caller = r.parent ∧ ∃ wantStatus : Bool,
    r.status = if wantStatus then some status else none

theorem Standing.present (h : Standing s t n status) : Present s t n := ⟨h.live, h.awaits.serial⟩

/-- The serial numbers and the queues of parents are in order. -/
structure Ledger (s : Kernel) : Prop where
  serials : SerialInv s
  waits : WaitInv s

/-- What a step does: it makes and reaps no task, it makes one, or it reaps one. -/
inductive Effect (H : Set ℕ) (s s' : Kernel) : Prop where
  | steady (h : Steady H s s')
  | adds (u : ℕ) (h : Adds s s' u)
  | reaps (s₁ : Kernel) (z : ℕ) (wantStatus : Bool) (h : Steady H s s₁)
      (hchild : s₁.live z = true ∧ (s₁.task z).parent = s₁.current)
      (heq : s' = (reapChild s₁ z wantStatus).2)

section Effects

variable {H : Set ℕ}

theorem Effect.of_adds (h : s' = s ∨ ∃ u, Adds s s' u) : Effect H s s' := by
  rcases h with rfl | ⟨u, hn⟩
  · exact .steady (.refl s')
  · exact .adds u hn

theorem Ledger.effect (h : Ledger s) (he : Effect H s s') : Ledger s' := by
  cases he with
  | steady hs => exact ⟨h.serials.shrinks hs.toShrinks, hs.waits h.waits⟩
  | adds u hn => exact ⟨h.serials.adds hn, h.waits.adds hn⟩
  | reaps s₁ z wantStatus hs hchild heq =>
    subst heq
    have hw := hs.waits h.waits
    exact ⟨(h.serials.shrinks hs.toShrinks).reapChild hchild.1,
      hw.modify (fun k => { k with state := .stopped }) ((hw z).congr rfl rfl)⟩

/-- A task that has exited stays as it is, or it is reaped. Results of `sys_waitpid` are never taken
back. -/
theorem Effect.outcome (he : Effect H s s') (hw : WaitInv s) (hH : Standing s t n status → t ∉ H)
    (h : Standing s t n status ∨ Recorded s n status) :
    Standing s' t n status ∨ Recorded s' n status := by
  rcases h with h | ⟨r, hr, hrest⟩
  · cases he with
    | steady hs => exact .inl (hs.standing t n status (hH h) hw h)
    | adds u hn =>
      have htu : t ≠ u := by
        rintro rfl
        exact absurd h.live (by simp [hn.unused])
      exact .inl ⟨(hn.otherLive t htu).trans h.live, (hn.other t htu).symm ▸ h.awaits⟩
    | reaps s₁ z wantStatus hs hchild heq =>
      have h₁ := hs.standing t n status (hH h) hw h
      subst heq
      by_cases htz : t = z
      · right
        subst htz
        refine ⟨_, mem_append_right _ (mem_singleton.mpr rfl), h₁.awaits.serial,
          hchild.2.symm, wantStatus, ?_⟩
        rw [h₁.awaits.exitStatus]
      · left
        refine ⟨(update_of_ne htz _ _).trans h₁.live, ?_⟩
        exact (task_modify_of_ne s₁ (fun k => { k with state := .stopped }) htz).symm ▸ h₁.awaits
  · refine .inr ⟨r, ?_, hrest⟩
    cases he with
    | steady hs => exact hs.waitLog ▸ hr
    | adds u hn => exact hn.waitLog ▸ hr
    | reaps s₁ z wantStatus hs hchild heq =>
      subst heq
      exact mem_append_left _ (hs.waitLog ▸ hr)

theorem TreeInv.live_child (h : TreeInv s) (ht : t ∈ s.childrenOf s.current) :
    s.live t = true ∧ (s.task t).parent = s.current := by
  obtain ⟨rs, cs, h, hcur⟩ := h
  rw [h.childrenOf_eq hcur] at ht
  obtain ⟨hmem, hparent⟩ := (h.child _ hcur t).mp ht
  exact ⟨(h.live t).mpr (mem_cons_of_mem _ hmem), hparent⟩

/-- A turn of `sys_waitpid` starts with an empty queue. -/
theorem waitTurn_effect {s₀ : Kernel} {pid : Int16} {options : ℤ} {wantStatus : Bool}
    (hs : Steady H s₀ s) (ht : TreeInv s) (hempty : (s.task s.current).childWait = [])
    (hcur : s.current ∈ H) : Effect H s₀ (waitTurn s pid options wantStatus).2 := by
  obtain ⟨s₁, hs₁, hcases⟩ := waitTurn_cases s pid options wantStatus
  have h₁ : Steady H s₀ s₁ := hs.trans (hs₁ ▸ steady_modify s s.current _ rfl
    (fun _ => .inl hempty) fun hno => absurd hcur hno)
  rcases hcases with ⟨-, r, heq⟩ | ⟨z, hm, heq⟩ | ⟨-, heq⟩
  · rw [heq]
    exact .steady h₁
  · obtain ⟨hlive, hparent⟩ := ht.live_child (matchChild_mem hm)
    have hz : (s₁.task z).parent = (s.task z).parent := by
      rw [hs₁]
      by_cases hzc : z = s.current
      · rw [hzc, task_modify_self]
      · rw [task_modify_of_ne _ _ hzc]
    rw [heq]
    exact .reaps s₁ z wantStatus h₁ ⟨hs₁ ▸ hlive, hz.trans (hs₁ ▸ hparent)⟩ rfl
  · rw [heq]
    have hqueue : (s₁.task s.current).childWait = [] := by
      rw [hs₁, task_modify_self]
      exact hempty
    exact .steady (h₁.trans (steady_modify s₁ s.current (fun k =>
      { k with childWait := s.current :: k.childWait, state := .interruptible,
               mode := .waiting pid options wantStatus }) rfl
      (fun _ => .inr ⟨congrArg _ hqueue, pid, options, wantStatus, rfl⟩) fun hno => absurd hcur hno))

theorem resume_effect (ht : TreeInv s) (hw : WaitInv s)
    (hcur : (s.task s.current).mode ≠ .exited → s.current ∈ H) (expired : Bool) :
    Effect H s (resume s expired) := by
  obtain ⟨hserial, hparent, -, hroot⟩ := endSleep_keeps (s.task s.current)
  rcases resume_cases s expired with heq | ⟨q, timed, hm, heq⟩ |
    ⟨pid, options, wantStatus, hm, -, heq⟩
  · rw [heq]
    exact .steady (.refl s)
  · have hempty := (hw s.current).childWait_eq (by simp [hm])
    have hmodify : Steady H s (s.modify s.current fun k => { endSleep k with mode := .user }) :=
      steady_modify s s.current _ hserial (fun _ => .inl ((endSleep_waits _).1.trans hempty))
        fun hno => absurd (hcur (by simp [hm])) hno
    rw [heq]
    exact .steady (hmodify.congr rfl rfl rfl rfl)
  · have herase := hw.erase_eq
    have hcur' := hcur (by simp [hm])
    have hq := quiet_modify s s.current
      (fun k => { endSleep k with childWait := k.childWait.erase s.current }) hparent
      fun _ hr => ⟨(hroot hr).autoReap, (hroot hr).state, (hroot hr).signal⟩
    rw [heq]
    refine waitTurn_effect (steady_modify s s.current _ hserial (fun _ => .inl herase)
      fun hno => absurd hcur' hno) (ht.quiet hq) ?_ hcur'
    exact (congrArg TaskStruct.childWait (task_modify_self s s.current _)).trans herase

theorem serverStep_effect {a : ServerAction}
    (hH : ∀ t ∉ H, Present s t (s.task t).serial ∧ SparesServer t (s.task t).serial s a)
    (hstep : serverStep s a = some s') : Effect H s s' := by
  cases a with
  | spawn out =>
    obtain ⟨r, hr, rfl⟩ := map_eq_some_iff.mp hstep
    exact .of_adds (sysExecve_adds hr)
  | kill pid signum =>
    refine some.inj hstep ▸ .steady ((steady_sysKill s pid signum).mono fun u hu => ?_)
    by_contra hno
    exact (hH u hno).2 (hH u hno).1 hu.2 hu.1
  | wake q =>
    refine some.inj hstep ▸ .steady ((steady_wakeupQueue s q).mono fun u hu => ?_)
    by_contra hno
    exact (hH u hno).2 (hH u hno).1 hu

/-- A tick apart, which is a run of its own. -/
theorem procStep_effect {e : ProcEvent} (ht : TreeInv s) (hw : WaitInv s)
    (htick : ∀ actions, e ≠ .tick actions)
    (hH : ∀ t ∉ H, (s.task t).mode = .exited ∧ Present s t (s.task t).serial ∧
      Spares t (s.task t).serial s e)
    (hstep : procStep s e = some s') : Effect H s s' := by
  have hcur : (s.task s.current).mode ≠ .exited → s.current ∈ H := fun hmode =>
    not_not.mp fun hno => hmode (hH _ hno).1
  -- A system call starts outside `sys_waitpid`, so no one sleeps for a child.
  have hcall : ∀ out, syscall s out = some s' →
      out = some s' ∧ (s.task s.current).childWait = [] ∧ s.current ∈ H := by
    intro out hout
    unfold syscall at hout
    split_ifs at hout with hmode
    exact ⟨hout, (hw s.current).childWait_eq (by simp [hmode]), hcur (by simp [hmode])⟩
  have hkill : ∀ pid signum, (∀ t ∉ H, SparesKill t (s.task t).serial s pid signum) →
      Effect H s (sysKill s pid signum).2 := by
    intro pid signum hspares
    refine .steady ((steady_sysKill s pid signum).mono fun u hu => ?_)
    by_contra hno
    exact hspares u hno (hH u hno).2.1 hu.2 hu.1
  cases e with
  | fork out =>
    obtain ⟨r, hr, rfl⟩ := map_eq_some_iff.mp (syscall_eq hstep)
    exact .of_adds (sysFork_adds hr)
  | execve out =>
    obtain ⟨r, hr, rfl⟩ := map_eq_some_iff.mp (syscall_eq hstep)
    exact .of_adds (sysExecve_adds hr)
  | exit status =>
    obtain ⟨heq, hempty, hmem⟩ := hcall _ hstep
    exact some.inj heq ▸ .steady (steady_modify s s.current _ rfl (fun _ => .inl hempty)
      fun hno => absurd hmem hno)
  | kill pid signum =>
    exact some.inj (syscall_eq hstep) ▸ hkill pid signum fun u hu => (hH u hu).2.2
  | waitpid pid options wantStatus =>
    obtain ⟨heq, hempty, hmem⟩ := hcall _ hstep
    refine some.inj heq ▸ ?_
    unfold sysWaitpid
    split_ifs
    · exact .steady (.refl s)
    · exact waitTurn_effect (.refl s) ht hempty hmem
  | sleepOn q timed =>
    obtain ⟨heq, hempty, hmem⟩ := hcall _ hstep
    have hmodify : Steady H s (s.modify s.current fun k =>
        { k with state := .interruptible, mode := .sleeping q timed }) :=
      steady_modify s s.current _ rfl (fun _ => .inl hempty) fun hno => absurd hmem hno
    exact some.inj heq ▸ .steady (hmodify.congr rfl rfl rfl rfl)
  | resume expired => exact some.inj hstep ▸ resume_effect ht hw hcur expired
  | wakeup q =>
    refine some.inj hstep ▸ .steady ((steady_wakeupQueue s q).mono fun u hu => ?_)
    by_contra hno
    exact (hH u hno).2.2 (hH u hno).2.1 hu
  | ttyInterrupt pid =>
    simp only [procStep] at hstep
    split_ifs at hstep with hpid
    · exact some.inj hstep ▸ .steady (.refl s)
    · exact some.inj hstep ▸ hkill pid SIGINT fun u hu =>
        (hH u hu).2.2 (Int16.not_le.mp hpid)
  | tick actions => exact absurd rfl (htick actions)

end Effects

theorem procStep_ledger (ht : TreeInv s) (h : Ledger s) (he : Orderly s e)
    (hstep : procStep s e = some s') : Ledger s' := by
  by_cases htick : ∃ actions, e = .tick actions
  · obtain ⟨actions, rfl⟩ := htick
    obtain ⟨m, hm, rfl⟩ := map_eq_some_iff.mp hstep
    have hserver : Ledger m := run_preserves (fun _ a _ hs _ h' => Ledger.effect hs
      (serverStep_effect (H := Set.univ) (a := a) (fun t ht => absurd trivial ht) h')) actions s m h he hm
    exact hserver.effect (.steady (H := ∅) (steady_timerTail m))
  · exact h.effect (procStep_effect (H := Set.univ) ht h.waits (fun a ha => htick ⟨a, ha⟩)
      (fun t ht => absurd trivial ht) hstep)

/-- All addresses but that of the task, while it waits to be reaped. -/
def others (s : Kernel) (t n : ℕ) (status : ℤ) : Set ℕ := {u | Standing s t n status → u ≠ t}

theorem not_mem_others (h : u ∉ others s t n status) : Standing s t n status ∧ u = t := by
  simpa [others] using h

theorem Effect.outcome_others (he : Effect (others s t n status) s s') (hw : WaitInv s)
    (h : Standing s t n status ∨ Recorded s n status) :
    Standing s' t n status ∨ Recorded s' n status :=
  he.outcome hw (fun hs hmem => hmem hs rfl) h

theorem procStep_outcome (ht : TreeInv s) (hl : Ledger s) (he : Spares t n s e)
    (h : Standing s t n status ∨ Recorded s n status) (hstep : procStep s e = some s') :
    Standing s' t n status ∨ Recorded s' n status := by
  by_cases htick : ∃ actions, e = .tick actions
  · obtain ⟨actions, rfl⟩ := htick
    obtain ⟨m, hm, rfl⟩ := map_eq_some_iff.mp hstep
    have hserver := @run_preserves _ _ serverStep (SparesServer t n)
      (fun s => Ledger s ∧ (Standing s t n status ∨ Recorded s n status)) ?_ actions s m ⟨hl, h⟩ he hm
    · exact (Effect.steady (steady_timerTail m)).outcome_others hserver.1.waits hserver.2
    intro s a s' hs ha hstep'
    have heffect : Effect (others s t n status) s s' := by
      refine serverStep_effect (fun u hu => ?_) hstep'
      obtain ⟨hstands, rfl⟩ := not_mem_others hu
      exact ⟨⟨hstands.live, rfl⟩, hstands.awaits.serial.symm ▸ ha⟩
    exact ⟨hs.1.effect heffect, heffect.outcome_others hs.1.waits hs.2⟩
  · have heffect : Effect (others s t n status) s s' := by
      refine procStep_effect ht hl.waits (fun a ha => htick ⟨a, ha⟩) (fun u hu => ?_) hstep
      obtain ⟨hstands, rfl⟩ := not_mem_others hu
      exact ⟨hstands.awaits.mode, ⟨hstands.live, rfl⟩, hstands.awaits.serial.symm ▸ he⟩
    exact heffect.outcome_others hl.waits h

/-- The parent of the task is in user code and no other of its children has the same pid:
`sys_waitpid` on this pid reaps the task at once and gives its status. -/
def Obtainable (s : Kernel) (t n : ℕ) (status : ℤ) : Prop :=
  s.current = (s.task t).parent → (s.task s.current).mode = .user → (s.task t).pid ≠ -1 →
    (∀ c ∈ s.childrenOf s.current, (s.task c).pid = (s.task t).pid → c = t) →
    ∀ options : ℤ, options = 0 ∨ options = WNOHANG → ∀ wantStatus : Bool,
      (sysWaitpid s (s.task t).pid options wantStatus).1 = some (s.task t).pid ∧
      (sysWaitpid s (s.task t).pid options wantStatus).2.waitLog = s.waitLog ++
        [⟨s.current, s.current, n, if wantStatus then some status else none⟩]

/-- The task is still a zombie with its status, ready for its parent; or exactly one
`sys_waitpid` has reaped it, that of its parent, and that one gave its status. -/
def Delivered (s : Kernel) (t n : ℕ) (status : ℤ) : Prop :=
  Present s t n ∧ (s.task t).state = .zombie ∧ (s.task t).exitStatus = status ∧
      s.waitLog.filter (fun r => r.serial = n) = [] ∧ Obtainable s t n status ∨
    ¬ Present s t n ∧ ∃ parent, ∃ wantStatus : Bool,
      s.waitLog.filter (fun r => r.serial = n) =
        [⟨parent, parent, n, if wantStatus then some status else none⟩]

theorem find?_eq_of_unique {l : List ℕ} {p : ℕ → Int16} (ht : t ∈ l)
    (hunique : ∀ c ∈ l, p c = p t → c = t) : l.find? (fun c => p c = p t) = some t := by
  cases hfind : l.find? (fun c => p c = p t) with
  | none => simpa using find?_eq_none.mp hfind t ht
  | some c =>
    have hpc : p c = p t := by simpa using find?_some hfind
    exact congrArg some (hunique c (mem_of_find?_eq_some hfind) hpc)

theorem Standing.obtainable (ht : TreeInv s) (h : Standing s t n status) :
    Obtainable s t n status := by
  intro hcur hmode hpid hunique options hoptions wantStatus
  have hmem : t ∈ s.childrenOf s.current := by
    obtain ⟨rs, cs, ht, hcurmem⟩ := ht
    rw [ht.childrenOf_eq hcurmem]
    rcases mem_cons.mp ((ht.live t).mp h.live) with hti | htr
    · -- Init is its own parent and has exited, so it is not in user code.
      rw [hti, ht.root] at hcur
      rw [hcur, ← hti, h.awaits.mode] at hmode
      cases hmode
    · exact (ht.child _ hcurmem t).mpr ⟨htr, hcur.symm⟩
  have hmatch : matchChild s (s.task t).pid (s.childrenOf s.current) = some (t, true) := by
    unfold matchChild
    rw [if_neg hpid, find?_eq_of_unique hmem hunique, map_some, h.awaits.state]
    rfl
  have hturn : sysWaitpid s (s.task t).pid options wantStatus =
      Process.waitTurn s (s.task t).pid options wantStatus := by
    unfold sysWaitpid
    rw [if_neg]
    rcases hoptions with h0 | h1
    · exact fun hne => hne.1 h0
    · exact fun hne => hne.2 h1
  have htc : t ≠ s.current := by
    intro htc
    rw [← htc, h.awaits.mode] at hmode
    cases hmode
  rw [hturn]
  obtain ⟨s₁, hs₁, hcases⟩ := waitTurn_cases s (s.task t).pid options wantStatus
  have hsame : s₁.task t = s.task t := hs₁ ▸ task_modify_of_ne s _ htc
  rcases hcases with ⟨hnone, -⟩ | ⟨z, hz, heq⟩ | ⟨hnone, -⟩
  · exact absurd hmatch (hnone t)
  · obtain rfl : t = z := congrArg Prod.fst (some.inj (hmatch.symm.trans hz))
    rw [heq]
    refine ⟨congrArg (fun k => some k.pid) hsame, ?_⟩
    have hlog : (reapChild s₁ t wantStatus).2.waitLog = s₁.waitLog ++
      [⟨s₁.current, (s₁.task t).parent, (s₁.task t).serial,
        if wantStatus then some (s₁.task t).exitStatus else none⟩] := rfl
    rw [hlog, hsame, h.awaits.serial, h.awaits.exitStatus, ← hcur, hs₁]
    rfl
  · exact absurd hmatch (hnone t)

theorem Standing.delivered (ht : TreeInv s) (hl : Ledger s) (h : Standing s t n status) :
    Delivered s t n status := by
  refine .inl ⟨h.present, h.awaits.state, h.awaits.exitStatus, ?_, h.obtainable ht⟩
  rw [filter_eq_nil_iff]
  intro r hr
  have hne := hl.serials.logGone r hr t h.live
  rw [h.awaits.serial] at hne
  simpa using Ne.symm hne

theorem Recorded.delivered (hl : Ledger s) (h : Recorded s n status) : Delivered s t n status := by
  obtain ⟨⟨caller, parent, serial, given⟩, hr, rfl, hparent, wantStatus, hgiven⟩ := h
  obtain rfl : caller = parent := hparent
  obtain rfl : given = if wantStatus then some status else none := hgiven
  refine .inr ⟨fun hpresent => ?_, caller, wantStatus, filter_serial_eq hl.serials.logOnce hr⟩
  exact hl.serials.logGone _ hr t hpresent.1 hpresent.2

/-- The invariants of a run, and where the task stands. -/
structure RunInv (t n : ℕ) (status : ℤ) (s : Kernel) : Prop where
  tree : TreeInv s
  ledger : Ledger s
  outcome : Standing s t n status ∨ Recorded s n status

theorem procStep_runInv (h : RunInv t n status s)
    (he : Orderly s e ∧ Spares t n s e) (hstep : procStep s e = some s') :
    RunInv t n status s' := by
  exact ⟨procStep_inv h.tree he.1 hstep, procStep_ledger h.tree h.ledger he.1 hstep,
    procStep_outcome h.tree h.ledger he.2 h.outcome hstep⟩

theorem Ledger.boot (a : ℕ) : Ledger (bootKernel a) := by
  refine ⟨⟨fun b _ => zero_lt_one, fun b c hb hc _ => ?_, nofun, nofun, nodup_nil⟩,
    fun _ => .inl rfl⟩
  have hba : b = a := of_decide_eq_true hb
  have hca : c = a := of_decide_eq_true hc
  rw [hba, hca]

/-- From `sys_exit(status)` on, in every run that sends no signal to the task and wakes no
queue with an old entry of its address, the status is delivered once and unchanged. -/
theorem exit_status_delivered (a : ℕ) (before after : List ProcEvent) (s₀ s₁ s : Kernel)
    (status : ℤ) (horderly : Along procStep Orderly (bootKernel a) before)
    (hbefore : run procStep (bootKernel a) before = some s₀)
    (hexit : procStep s₀ (.exit status) = some s₁)
    (hsignals : Harmless (s₀.task s₀.current))
    (hkept : (s₀.task s₀.current).autoReap = false)
    (hafter : Along procStep
      (fun s e => Orderly s e ∧ Spares s₀.current (s₀.task s₀.current).serial s e) s₁ after)
    (hrun : run procStep s₁ after = some s) :
    Delivered s s₀.current (s₀.task s₀.current).serial status := by
  have hinv := @run_preserves _ _ procStep Orderly (fun s => TreeInv s ∧ Ledger s)
    (fun _ _ _ h he hstep => ⟨procStep_inv h.1 he hstep, procStep_ledger h.1 h.2 he hstep⟩)
    before _ s₀ ⟨TreeInv.boot a, Ledger.boot a⟩ horderly hbefore
  have hs₁ : sysExit s₀ status = s₁ := some.inj (syscall_eq hexit)
  have hself : s₁.task s₀.current = { s₀.task s₀.current with
      exitStatus := status, state := .zombie, mode := .exited } :=
    hs₁ ▸ task_modify_self _ _ _
  have hlive : s₁.live s₀.current = true := by
    obtain ⟨⟨rs, cs, ht, hcur⟩, -⟩ := hinv
    rw [← hs₁]
    exact (ht.live _).mpr hcur
  have hstart : RunInv s₀.current (s₀.task s₀.current).serial status s₁ := by
    have hexits : Orderly s₀ (.exit status) := trivial
    refine ⟨procStep_inv hinv.1 hexits hexit, procStep_ledger hinv.1 hinv.2 hexits hexit,
      .inl ⟨hlive, ?_⟩⟩
    rw [hself]
    exact ⟨rfl, rfl, rfl, rfl, hkept, hsignals⟩
  have hend := run_preserves (fun _ _ _ h he hstep => procStep_runInv h he hstep) after s₁ s
    hstart hafter hrun
  rcases hend.outcome with hs | hr
  · exact hs.delivered hend.tree hend.ledger
  · exact hr.delivered hend.ledger

/-- A child exits with 7, and its parent, asleep in `sys_waitpid`, gets the 7. -/
theorem exit_status_delivered_seven :
    ∃ s₀ ∈ run procStep (bootKernel 0) [.fork (.succeeds 1), .waitpid 1 0 true, .tick []],
    ∃ s₁ ∈ procStep s₀ (.exit 7),
    ∃ s ∈ run procStep s₁ [.tick [], .resume false],
      s.waitLog = [⟨0, 0, 1, some 7⟩] ∧ Delivered s s₀.current (s₀.task s₀.current).serial 7 := by
  have hfacts :
      ∃ s₀ ∈ run procStep (bootKernel 0) [.fork (.succeeds 1), .waitpid 1 0 true, .tick []],
      ∃ s₁ ∈ procStep s₀ (.exit 7),
      ∃ s ∈ run procStep s₁ [.tick [], .resume false],
        s.waitLog = [⟨0, 0, 1, some 7⟩] ∧ Harmless (s₀.task s₀.current) ∧
        (s₀.task s₀.current).autoReap = false ∧
        Along procStep
          (fun s e => Orderly s e ∧ Spares s₀.current (s₀.task s₀.current).serial s e) s₁
          [.tick [], .resume false] := by
    decide +kernel
  obtain ⟨s₀, hs₀, s₁, hs₁, s, hs, hlog, hsignals, hkept, hafter⟩ := hfacts
  refine ⟨s₀, hs₀, s₁, hs₁, s, hs, hlog, ?_⟩
  exact exit_status_delivered 0 _ _ s₀ s₁ s 7 (by decide +kernel) hs₀ hs₁ hsignals hkept hafter hs

/-- A signal sent to the zombie makes it run again, and its delivery replaces the status:
the parent gets 143 in place of 7. -/
theorem killed_zombie_changes_status :
    ∃ s₀ ∈ run procStep (bootKernel 0) [.fork (.succeeds 1), .tick []],
    ∃ s₁ ∈ procStep s₀ (.exit 7),
    ∃ s₂ ∈ run procStep s₁ [.tick [], .kill 1 15],
    ∃ s₃ ∈ run procStep s₂ [.tick [], .tick [], .waitpid 1 0 true],
      (s₁.task 1).state = .zombie ∧ (s₁.task 1).exitStatus = 7 ∧
      (s₂.task 1).state = .running ∧ s₃.waitLog = [⟨0, 0, 1, some 143⟩] := by
  decide +kernel

end Delivery

end Sodex.Process
