import Sodex.Dlist
import Sodex.Runs

/-!
# Processes: `process.c`, `execve.c` and `signal.c`

A task is identified by the address of its `task_struct`. Its three list nodes,
`run_list`, `children` and `sibling`, are linked as in the source. Freed structures
keep their contents until the address is handed out again.

Scheduling does not look at the state of a task: every task on `run_list` gets its
turn. What a task can do then depends on where its kernel code is: it may be about
to enter the kernel, it may spin in `sleep_on`, or it may spin at the end of
`sys_exit`. Between two sleeps a system call runs to its end.
-/
namespace Sodex.Process

open LinkRing Dlist Runs

inductive TaskState where
  | running
  | interruptible
  | uninterruptible
  | zombie
  | stopped
  deriving DecidableEq, Repr

/-- The signal handlers that the kernel installs. -/
inductive Handler where
  | null
  | signalDummy
  | coreDump
  | taskExit
  deriving DecidableEq, Repr

/-- Where the kernel code of a task is. -/
inductive Mode where
  /-- Outside a sleep: the task may make any system call. -/
  | user
  /-- In the endless loop of `sys_exit`. -/
  | exited
  /-- In `sleep_on`, or `sleep_on_timeout` if `timed`, for one of the queues of pipes,
  terminals, sockets and `poll`. -/
  | sleeping (q : ℕ) (timed : Bool)
  /-- In `sleep_on` inside `sys_waitpid`, with its arguments. -/
  | waiting (pid : Int16) (options : ℤ) (wantStatus : Bool)
  deriving DecidableEq, Repr

/-- The list nodes inside a `task_struct`. -/
inductive Node where
  | runList (t : ℕ)
  | children (t : ℕ)
  | sibling (t : ℕ)
  deriving DecidableEq, Repr

/-- `dlist_entry`. -/
def Node.owner : Node → ℕ
  | .runList t => t
  | .children t => t
  | .sibling t => t

structure TaskStruct where
  /-- Which call of `alloc_pid` gave the task its pid. -/
  serial : ℕ
  parent : ℕ
  state : TaskState
  autoReap : Bool
  exitStatus : ℤ
  signal : UInt32
  sigactions : ℕ → Handler
  /-- The tasks on the queue `child_wait`, first entry first. -/
  childWait : List ℕ
  mode : Mode

/-- The pid: `pid_t` is a 16-bit integer, and the counter of `alloc_pid` wraps. -/
def TaskStruct.pid (k : TaskStruct) : Int16 := Int16.ofNat k.serial

/-- What `sys_waitpid` gave to its caller when it reaped a child. -/
structure WaitResult where
  caller : ℕ
  /-- The parent of the child at that time. -/
  parent : ℕ
  serial : ℕ
  status : Option ℤ
  deriving DecidableEq, Repr

structure Kernel where
  task : ℕ → TaskStruct
  links : Links Node
  /-- The `task_struct` at this address is allocated. -/
  live : ℕ → Bool
  current : ℕ
  initTask : ℕ
  /-- How often `alloc_pid` was called. -/
  nextPid : ℕ
  /-- The other wait queues of the kernel. -/
  queue : ℕ → List ℕ
  waitLog : List WaitResult

def SIGINT : ℤ := 2
def SIGKILL : ℕ := 9
def ERROR_WAITPID : Int16 := -1
def WNOHANG : ℤ := 1

namespace Kernel

def modify (s : Kernel) (t : ℕ) (f : TaskStruct → TaskStruct) : Kernel :=
  { s with task := Function.update s.task t (f (s.task t)) }

def setState (s : Kernel) (t : ℕ) (state : TaskState) : Kernel :=
  s.modify t fun k => { k with state := state }

/-- A bound on the length of every list: each task on one has called `alloc_pid`. -/
def fuel (s : Kernel) : ℕ := s.nextPid + 1

/-- The tasks on `run_list`, from `t` on. -/
def runTasks (s : Kernel) (t : ℕ) : List ℕ :=
  t :: (s.links.members s.fuel (.runList t)).map Node.owner

/-- The tasks on the list `children` of `t`. -/
def childrenOf (s : Kernel) (t : ℕ) : List ℕ :=
  (s.links.members s.fuel (.children t)).map Node.owner

end Kernel

/-- The loop of `wakeup`. -/
def wakeTasks (s : Kernel) (ts : List ℕ) : Kernel := ts.foldl (fun s t => s.setState t .running) s

/-- `wakeup` on the queue `child_wait` of `t`. -/
def wakeupChildWait (s : Kernel) (t : ℕ) : Kernel :=
  (wakeTasks s (s.task t).childWait).modify t fun k => { k with childWait := [] }

/-- `wakeup` on another queue. -/
def wakeupQueue (s : Kernel) (q : ℕ) : Kernel :=
  { wakeTasks s (s.queue q) with queue := Function.update s.queue q [] }

/-- `schedule`: the next task on `run_list`, whatever its state. -/
def schedule (s : Kernel) : Kernel :=
  { s with current := (s.links.next (.runList s.current)).owner }

def processFindPid (s : Kernel) (pid : Int16) : Option ℕ :=
  if pid < 0 then none else (s.runTasks s.current).find? fun t => (s.task t).pid = pid

def childIsLive (k : TaskStruct) : Bool := k.state ≠ .zombie ∧ k.state ≠ .stopped

/-- `1 << (signum-1)`, with the shift count taken modulo 32. -/
def signalBit (signum : ℤ) : UInt32 := 1 <<< ((signum - 1) % 32).toNat.toUInt32

def sysKill (s : Kernel) (pid : Int16) (signum : ℤ) : ℤ × Kernel :=
  match processFindPid s pid with
  | none => (-1, s)
  | some proc =>
    if signum = 0 then (if childIsLive (s.task proc) then 0 else -1, s)
    else
      (0, s.modify proc fun k => { k with signal := k.signal ||| signalBit signum, state := .running })

/-- `maxsignal`: the highest pending signal, as a bit number. -/
def maxsignal (signal : UInt32) : Option ℕ :=
  (List.range 32).reverse.find? fun i => signal &&& (1 <<< i.toUInt32) ≠ 0

/-- One turn of the signal loop of `i20h_do_timer`, for the bit number `i`. -/
def deliverSignal (k : TaskStruct) (i : ℕ) : TaskStruct :=
  let sig := i + 1
  let k :=
    if sig = 19 ∨ sig = 20 ∨ sig = 21 ∨ sig = 22 then { k with state := .stopped }
    else if sig = SIGKILL then { k with state := .zombie }
    else
      match k.sigactions i with
      | .null | .taskExit => { k with exitStatus := 128 + sig, state := .zombie }
      | .signalDummy | .coreDump => k
  { k with signal := k.signal &&& ~~~(1 <<< i.toUInt32) }

/-- The signal loop. Each turn clears a bit, so it ends within 32 turns. -/
def signalLoop : ℕ → TaskStruct → TaskStruct
  | 0, k => k
  | fuel + 1, k =>
    match maxsignal k.signal with
    | none => k
    | some i => signalLoop fuel (deliverSignal k i)

def defaultSigaction (i : ℕ) : Handler :=
  if i + 1 = 1 ∨ i + 1 = 2 ∨ i + 1 = 13 ∨ i + 1 = 14 ∨ i + 1 = 15 then .taskExit
  else if i + 1 = 3 ∨ i + 1 = 4 ∨ i + 1 = 5 ∨ i + 1 = 6 ∨ i + 1 = 8 ∨ i + 1 = 11 then .coreDump
  else .signalDummy

/-- A new `task_struct` has its three list nodes point to themselves. -/
def initNodes (L : Links Node) (t : ℕ) : Links Node :=
  ((L.init (.runList t)).init (.children t)).init (.sibling t)

def newTask (serial parent : ℕ) (sigactions : ℕ → Handler) : TaskStruct where
  serial := serial
  parent := parent
  state := .running
  autoReap := false
  exitStatus := 0
  signal := 0
  sigactions := sigactions
  childWait := []
  mode := .user

/-- Write a new task at the address `t` and take the next pid. -/
def setUpTask (s : Kernel) (t : ℕ) (sigactions : ℕ → Handler) : Kernel where
  task := Function.update s.task t (newTask s.nextPid s.current sigactions)
  links := initNodes s.links t
  live := Function.update s.live t true
  current := s.current
  initTask := s.initTask
  nextPid := s.nextPid + 1
  queue := s.queue
  waitLog := s.waitLog

/-- `kfree` of a `task_struct`. -/
def freeTask (s : Kernel) (t : ℕ) : Kernel := { s with live := Function.update s.live t false }

/-- How the creation of a task goes. The address is the one that `kalloc` returns. -/
inductive Creation where
  /-- Fails before the `task_struct` has got its pid; nothing is linked yet. -/
  | fails
  /-- Fails after the pid was taken and before any list is touched. -/
  | abandoned (t : ℕ)
  /-- `__execve` only: fails after the task was put into its parent's list. -/
  | orphaned (t : ℕ)
  | succeeds (t : ℕ)
  deriving DecidableEq, Repr

/-- Insert a new task into the children of its parent. -/
def linkSibling (s : Kernel) (t : ℕ) : Kernel :=
  { s with links := dlistInsertAfter s.links (.sibling t) (.children s.current) }

/-- Insert a new task into `run_list` behind the current task. -/
def linkRun (s : Kernel) (t : ℕ) : Kernel :=
  { s with links := dlistInsertAfter s.links (.runList t) (.runList s.current) }

/-- `sys_fork`; `none` when the given address is not free. -/
def sysFork (s : Kernel) : Creation → Option (Int16 × Kernel)
  | .fails => some (-1, s)
  | .abandoned t =>
    if s.live t then none
    else some (-1, freeTask (setUpTask s t (s.task s.current).sigactions) t)
  | .orphaned _ => none
  | .succeeds t =>
    if s.live t then none
    else
      let s' := linkRun (linkSibling (setUpTask s t (s.task s.current).sigactions) t) t
      some ((s'.task t).pid, s')

/-- `__execve` with the insertion into `run_list` by its callers: `sys_execve` and,
with `autoReap`, `kernel_execve_tty`. The clean-up of a late failure frees the task
and leaves it in the children of its parent. -/
def sysExecve (s : Kernel) (autoReap : Bool) : Creation → Option (Int16 × Kernel)
  | .fails => some (-1, s)
  | .abandoned _ => none
  | .orphaned t =>
    if s.live t then none
    else some (-1, freeTask (linkSibling (setUpTask s t defaultSigaction) t) t)
  | .succeeds t =>
    if s.live t then none
    else
      let s' := linkRun (linkSibling (setUpTask s t defaultSigaction) t) t
      some ((s'.task t).pid, s'.modify t fun k => { k with autoReap := autoReap })

def sysExit (s : Kernel) (status : ℤ) : Kernel :=
  s.modify s.current fun k => { k with exitStatus := status, state := .zombie, mode := .exited }

/-- One turn of the loop of `reparent_children`. -/
def adoptChild (s : Kernel) (child : ℕ) : Kernel :=
  let s := { s with links := s.links.unlink (.sibling child) }
  let s := s.modify child fun k => { k with parent := s.initTask }
  let s := { s with links := dlistInsertAfter s.links (.sibling child) (.children s.initTask) }
  if (s.task child).state = .zombie then wakeupChildWait s s.initTask else s

/-- The loop of `reparent_children`. -/
def adoptChildren (s : Kernel) (stop : Node) : ℕ → Node → Kernel
  | 0, _ => s
  | fuel + 1, pos =>
    if pos = stop then s
    else adoptChildren (adoptChild s pos.owner) stop fuel (s.links.next pos)

def reparentChildren (s : Kernel) (t : ℕ) : Kernel :=
  if t = s.initTask then s
  else adoptChildren s (.children t) s.fuel (s.links.next (.children t))

/-- Take a task off its two lists and free it. -/
def removeTask (s : Kernel) (t : ℕ) : Kernel :=
  freeTask { s with links := (s.links.unlink (.sibling t)).unlink (.runList t) } t

/-- `_exit` of the current task, up to the switch to the next but one. -/
def exitCurrent (s : Kernel) : Kernel :=
  let next := (s.links.next (.runList s.current)).owner
  let s := removeTask (reparentChildren s s.current) s.current
  schedule { s with current := next }

/-- `reap_child`. The children of the reaped task are left as they are. -/
def reapChild (s : Kernel) (t : ℕ) (wantStatus : Bool) : Int16 × Kernel :=
  let result : WaitResult := ⟨s.current, (s.task t).parent, (s.task t).serial,
    if wantStatus then some (s.task t).exitStatus else none⟩
  let s := { s with waitLog := s.waitLog ++ [result] }
  ((s.task t).pid, removeTask (s.setState t .stopped) t)

/-- The child that the list traversal of `sys_waitpid` stops at, and whether it is a
zombie; with `pid = -1` the last child if there is no zombie. -/
def matchChild (s : Kernel) (pid : Int16) (cs : List ℕ) : Option (ℕ × Bool) :=
  if pid = -1 then
    match cs.find? fun c => (s.task c).state = .zombie with
    | some c => some (c, true)
    | none => cs.getLast?.map fun c => (c, false)
  else (cs.find? fun c => (s.task c).pid = pid).map fun c => (c, decide ((s.task c).state = .zombie))

/-- One turn of the loop of `sys_waitpid`; `none` when the task goes to sleep. -/
def waitTurn (s : Kernel) (pid : Int16) (options : ℤ) (wantStatus : Bool) :
    Option Int16 × Kernel :=
  let s := s.modify s.current fun k => { k with mode := .user }
  match matchChild s pid (s.childrenOf s.current) with
  | none => (some ERROR_WAITPID, s)
  | some (zombie, true) =>
    let out := reapChild s zombie wantStatus
    (some out.1, out.2)
  | some (_, false) =>
    if options % 2 = WNOHANG then (some 0, s)
    else
      (none, s.modify s.current fun k =>
        { k with childWait := s.current :: k.childWait, state := .interruptible,
                 mode := .waiting pid options wantStatus })

/-- `sys_waitpid`. Only `WNOHANG` is allowed in `options`. -/
def sysWaitpid (s : Kernel) (pid : Int16) (options : ℤ) (wantStatus : Bool) :
    Option Int16 × Kernel :=
  if options ≠ 0 ∧ options ≠ WNOHANG then (some ERROR_WAITPID, s)
  else waitTurn s pid options wantStatus

/-- `sleep_on` or `sleep_on_timeout` up to its loop. -/
def sleepOn (s : Kernel) (q : ℕ) (timed : Bool) : Kernel :=
  let s := { s with queue := Function.update s.queue q (s.current :: s.queue q) }
  s.modify s.current fun k => { k with state := .interruptible, mode := .sleeping q timed }

def Mode.timed : Mode → Bool
  | .sleeping _ timed => timed
  | _ => false

/-- The current task leaves the loop of `sleep_on` if it was woken, has a signal, or its
deadline has `expired`. -/
def leavesSleep (k : TaskStruct) (expired : Bool) : Bool :=
  k.state ≠ .interruptible ∨ k.signal ≠ 0 ∨ (k.mode.timed && expired)

/-- The state written when a signal or the deadline ends the sleep. -/
def endSleep (k : TaskStruct) : TaskStruct :=
  if k.state = .interruptible then { k with state := .running } else k

/-- A task that spins in `sleep_on` looks at its state. -/
def resume (s : Kernel) (expired : Bool) : Kernel :=
  let k := s.task s.current
  if leavesSleep k expired then
    match k.mode with
    | .sleeping q _ =>
      { s.modify s.current fun k => { endSleep k with mode := .user } with
        queue := Function.update s.queue q ((s.queue q).erase s.current) }
    | .waiting pid options wantStatus =>
      let s := s.modify s.current fun k =>
        { endSleep k with childWait := k.childWait.erase s.current }
      (waitTurn s pid options wantStatus).2
    | _ => s
  else s

/-- What the servers do during a timer interrupt. -/
inductive ServerAction where
  | spawn (out : Creation)
  | kill (pid : Int16) (signum : ℤ)
  | wake (q : ℕ)
  deriving DecidableEq, Repr

def serverStep (s : Kernel) : ServerAction → Option Kernel
  | .spawn out => (sysExecve s true out).map Prod.snd
  | .kill pid signum => some (sysKill s pid signum).2
  | .wake q => some (wakeupQueue s q)

/-- `wakeup_parent_waiters` for the current task. -/
def wakeupParentWaiters (s : Kernel) : Kernel :=
  let parent := (s.task s.current).parent
  if parent = s.current then s else wakeupChildWait s parent

/-- The part of `i20h_do_timer` behind the servers. -/
def timerTail (s : Kernel) : Kernel :=
  let s := s.modify s.current (signalLoop 32)
  match (s.task s.current).state with
  | .stopped => exitCurrent s
  | .zombie =>
    let s := wakeupParentWaiters s
    if (s.task s.current).autoReap then exitCurrent s else schedule s
  | _ => schedule s

/-- The steps of the system. System calls are made by the current task. -/
inductive ProcEvent where
  | fork (out : Creation)
  | execve (out : Creation)
  | exit (status : ℤ)
  | kill (pid : Int16) (signum : ℤ)
  | waitpid (pid : Int16) (options : ℤ) (wantStatus : Bool)
  | sleepOn (q : ℕ) (timed : Bool)
  | resume (expired : Bool)
  | wakeup (q : ℕ)
  | ttyInterrupt (pid : Int16)
  | tick (actions : List ServerAction)
  deriving DecidableEq, Repr

/-- A system call is possible when the current task is not inside one. -/
def syscall (s : Kernel) (out : Option Kernel) : Option Kernel :=
  if (s.task s.current).mode = .user then out else none

/-- One step; `none` when it is not possible. -/
def procStep (s : Kernel) : ProcEvent → Option Kernel
  | .fork out => syscall s ((sysFork s out).map Prod.snd)
  | .execve out => syscall s ((sysExecve s false out).map Prod.snd)
  | .exit status => syscall s (some (sysExit s status))
  | .kill pid signum => syscall s (some (sysKill s pid signum).2)
  | .waitpid pid options wantStatus => syscall s (some (sysWaitpid s pid options wantStatus).2)
  | .sleepOn q timed => syscall s (some (sleepOn s q timed))
  | .resume expired => some (resume s expired)
  | .wakeup q => some (wakeupQueue s q)
  | .ttyInterrupt pid => if pid ≤ 0 then some s else some (sysKill s pid SIGINT).2
  | .tick actions => (run serverStep s actions).map timerTail

/-- The state after `init_process`: the init task alone, at address `t`. -/
def bootKernel (t : ℕ) : Kernel where
  task _ := { newTask 0 t defaultSigaction with parent := t }
  links := initNodes ⟨id, id⟩ t
  live := fun a => a = t
  current := t
  initTask := t
  nextPid := 1
  queue _ := []
  waitLog := []

end Sodex.Process
