import Sodex.CInt
import Sodex.PipeStream
import Sodex.TcpSocket

/-!
# `poll`

What `sys_poll` reports for a descriptor, beside what a blocking read of the same descriptor does. A
descriptor is a number of the file table of the process, and sockets are numbers of one global table.
-/
namespace Sodex.Poll

open Datagram Pipe Tcp

def FILEDESC_MAX : ℕ := 32
def TTY_RING_SIZE : ℕ := 65536

structure TtyRing where
  data : ℕ → UInt8
  head : ℕ
  tail : ℕ

/-- The fields of `struct tty` that reads and polls use. -/
structure Tty where
  hasMaster : Bool
  slaveRefs : ℤ
  icanon : Bool
  slaveRx : TtyRing
  masterRx : TtyRing

/-- An open file with what its `private_data` points to. -/
inductive File where
  | ttyMaster (tty : Tty)
  | ttySlave (tty : Tty)
  | pipeRead (pipe : PipeInfo)
  | pipeWrite (pipe : PipeInfo)
  | other

/-- The sockets, and the file table of the current process if it has one. -/
structure Kernel where
  net : Net
  files : Option (ℕ → Option File)

/-- The bits `POLLIN`, `POLLOUT` and `POLLHUP`. -/
structure Events where
  pollin : Bool
  pollout : Bool
  pollhup : Bool
  deriving DecidableEq, Repr

def Events.none : Events := ⟨false, false, false⟩

def pollScanSocket (net : Net) (fd : ℕ) (events : Events) : Events :=
  let sk := net.sockets fd
  if MAX_SOCKETS ≤ fd ∨ sk.state = .unused then .none
  else
    { pollhup := sk.state = .closed
      pollin := events.pollin &&
        if sk.state = .listening then sk.backlogFds ≠ [] else 0 < sk.rxLen
      pollout := events.pollout && (sk.state ≠ .closed ∧ (sk.type ≠ .stream ∨ sk.txPending = false)) }

def pollScanMaster (tty : Tty) (events : Events) : Events where
  pollin := events.pollin && tty.masterRx.head ≠ tty.masterRx.tail
  pollout := events.pollout && 0 < tty.slaveRefs
  pollhup := tty.slaveRefs ≤ 0

def pollScanSlave (tty : Tty) (events : Events) : Events where
  pollin := events.pollin && tty.slaveRx.head ≠ tty.slaveRx.tail
  pollout := events.pollout && tty.hasMaster
  pollhup := !tty.hasMaster

def pollReadEnd (pipe : PipeInfo) (events : Events) : Events where
  pollin := events.pollin && 0 < pipe.dataSize
  pollout := false
  pollhup := pipe.writeOpen = 0

/-- `pipe_poll_events` of the end that is written. -/
def pollWriteEnd (pipe : PipeInfo) (events : Events) : Events where
  pollin := false
  pollout := events.pollout && (0 < pipe.readOpen ∧ pipe.dataSize < PIPE_BUFFER_SIZE)
  pollhup := pipe.readOpen = 0

/-- What an open file has to report, `none` if it is neither a terminal nor a pipe. -/
def File.poll (events : Events) : File → Option Events
  | .ttyMaster tty => some (pollScanMaster tty events)
  | .ttySlave tty => some (pollScanSlave tty events)
  | .pipeRead pipe => some (pollReadEnd pipe events)
  | .pipeWrite pipe => some (pollWriteEnd pipe events)
  | .other => .none

/-- The entry of the file table of the process. -/
def Kernel.file (k : Kernel) (fd : ℤ) : Option File :=
  if 0 ≤ fd ∧ fd < FILEDESC_MAX then k.files.bind fun files => files fd.toNat else none

/-- Does a socket have this number? -/
def Kernel.hasSocket (k : Kernel) (fd : ℤ) : Prop :=
  0 ≤ fd ∧ fd < MAX_SOCKETS ∧ (k.net.sockets fd.toNat).state ≠ .unused

instance (k : Kernel) (fd : ℤ) : Decidable (k.hasSocket fd) := inferInstanceAs (Decidable (_ ∧ _ ∧ _))

/-- `poll_scan_fd`: the socket table is asked first. -/
def pollScanFd (k : Kernel) (fd : ℤ) (events : Events) : Events :=
  if k.hasSocket fd then pollScanSocket k.net fd.toNat events
  else ((k.file fd).bind (·.poll events)).getD .none

/-- `poll_scan`: the events of each entry and the number of entries that have some. -/
def pollScan (k : Kernel) (fds : List (ℤ × Events)) : List Events × ℕ :=
  let revents := fds.map fun pfd => pollScanFd k pfd.1 pfd.2
  (revents, revents.countP (· ≠ .none))

/-- The loop of `tty_slave_read` that takes bytes off the ring. -/
def ttyPop (icanon : Bool) : ℕ → TtyRing → List UInt8
  | 0, _ => []
  | count + 1, ring =>
    if ring.head = ring.tail then []
    else if icanon ∧ ring.data ring.head = 0 then [0]
    else ring.data ring.head ::
      ttyPop icanon count { ring with head := (ring.head + 1) % TTY_RING_SIZE }

/-- `tty_slave_read` that may block: the bytes, or `none` if the reader goes to sleep. -/
def ttySlaveRead (tty : Tty) (count : ℕ) : Option (List UInt8) :=
  if count = 0 then some []
  else if tty.slaveRx.head = tty.slaveRx.tail then none
  else some (ttyPop tty.icanon count tty.slaveRx)

/-- A deadline that many ticks away has not passed yet. -/
def Pending (ticks : UInt32) : Prop := CInt.toInt (-ticks.toNat) < 0

instance (ticks : UInt32) : Decidable (Pending ticks) := inferInstanceAs (Decidable (_ < _))

/-- `kern_recvfrom` enters its loop and does not leave it after a poll in which nothing arrives. -/
def RecvWaits (net : Net) (fd : ℕ) : Prop :=
  (net.sockets fd).rxLen = 0 ∧ Pending (net.sockets fd).timeoutTicks ∧
    let sk := (networkPoll net []).sockets fd
    ¬(0 < sk.rxLen ∨ sk.state = .closed ∨ sk.state = .closeWait)

/-- `kern_accept` finds nobody and goes on polling. -/
def AcceptWaits (net : Net) (fd : ℕ) : Prop :=
  (∃ net', socketTryAccept net fd = some (-1, net')) ∧ Pending (net.sockets fd).timeoutTicks

/-- A blocking read of what the descriptor is for the process would wait. A file of the process comes
before a socket of the same number. -/
def ReadWaits (k : Kernel) (fd : ℤ) : Prop :=
  match k.file fd with
  | some (.pipeRead pipe) => ∀ count, pipeRead pipe count = none
  | some (.ttySlave tty) => ∀ count, 0 < count → ttySlaveRead tty count = none
  | some _ => True
  | none =>
    k.hasSocket fd → if (k.net.sockets fd.toNat).state = .listening then AcceptWaits k.net fd.toNat
      else RecvWaits k.net fd.toNat

/-- If neither input nor a hang-up is reported for an entry that asks for input, then a read would
wait; and a terminal or a pipe is reported as it is, whatever the sockets in use are like. -/
structure Agrees (k : Kernel) (fds : List (ℤ × Events)) : Prop where
  waits : ∀ pfd revents, (pfd, revents) ∈ fds.zip (pollScan k fds).1 → pfd.2.pollin = true →
    revents.pollin = false → revents.pollhup = false → ReadWaits k pfd.1
  own : ∀ (net : Net) (pfd : ℤ × Events) (revents own : Events),
    (pfd, revents) ∈ fds.zip (pollScan { k with net } fds).1 →
    ({ k with net }.hasSocket pfd.1 ↔ k.hasSocket pfd.1) →
    (k.file pfd.1).bind (·.poll pfd.2) = some own → revents = own

/-- Nothing has arrived on the socket. -/
def Idle (sk : TcpSocket) : Prop :=
  if sk.state = .listening then sk.backlogFds = [] else sk.rxLen = 0

/-- No socket in use has the number of a terminal or a pipe of the process. A socket that is asked for
input when nothing has arrived is not half closed, and its timeout is not zero. -/
structure Careful (k : Kernel) (fd : ℤ) (events : Events) : Prop where
  shown : ((k.file fd).bind (·.poll events)).isSome → ¬k.hasSocket fd
  alive : k.file fd = none → k.hasSocket fd → events.pollin = true →
    let sk := k.net.sockets fd.toNat
    Idle sk → sk.state ≠ .closed → sk.state ≠ .closeWait ∧ Pending sk.timeoutTicks

section Files

variable {k : Kernel} {fd : ℤ} {events : Events}

/-- The reads of files agree with what the files report. -/
theorem readWaits_of_poll {f : File} (hfile : k.file fd = some f) (hin : events.pollin = true)
    (hpoll : ∀ revents ∈ f.poll events, revents.pollin = false ∧ revents.pollhup = false) :
    ReadWaits k fd := by
  rw [ReadWaits, hfile]
  cases f with
  | pipeRead pipe =>
    intro count
    have hno := hpoll _ rfl
    simp only [pollReadEnd, hin, Bool.true_and, decide_eq_false_iff_not] at hno
    rw [pipeRead, if_pos (by omega), if_neg hno.2]
  | ttySlave tty =>
    intro count hcount
    have hno := hpoll _ rfl
    simp only [pollScanSlave, hin, Bool.true_and, decide_eq_false_iff_not, not_not] at hno
    rw [ttySlaveRead, if_neg hcount.ne', if_pos hno.1]
  | ttyMaster tty => trivial
  | pipeWrite pipe => trivial
  | other => trivial

/-- So do the reads of sockets, if these are not half closed and have a timeout. -/
theorem socketWaits_iff (hsocket : k.hasSocket fd) (hidle : Idle (k.net.sockets fd.toNat))
    (hclosed : (k.net.sockets fd.toNat).state ≠ .closed) :
    (if (k.net.sockets fd.toNat).state = .listening then AcceptWaits k.net fd.toNat
      else RecvWaits k.net fd.toNat) ↔
    (k.net.sockets fd.toNat).state ≠ .closeWait ∧ Pending (k.net.sockets fd.toNat).timeoutTicks := by
  obtain ⟨hnonneg, hlt, -⟩ := hsocket
  unfold Idle at hidle
  split at hidle
  · rename_i hlistening
    rw [if_pos hlistening]
    have htry : socketTryAccept k.net fd.toNat = some (-1, k.net) := by
      simp [socketTryAccept, InTable, hnonneg, hlt, hlistening, acceptLoop, socketBacklogDequeue,
        hidle]
    exact ⟨fun h => ⟨by simp [hlistening], h.2⟩, fun h => ⟨⟨_, htry⟩, h.2⟩⟩
  · rename_i hlistening
    rw [if_neg hlistening]
    simp [RecvWaits, Tcp.networkPoll, hidle, hclosed, and_comm]

theorem pollScanFd_socket (hsocket : k.hasSocket fd) :
    (pollScanFd k fd events).pollhup = decide ((k.net.sockets fd.toNat).state = .closed) ∧
      (events.pollin = true →
        ((pollScanFd k fd events).pollin = false ↔ Idle (k.net.sockets fd.toNat))) := by
  rw [pollScanFd, if_pos hsocket]
  obtain ⟨hnonneg, hlt, hused⟩ := hsocket
  have htable : ¬MAX_SOCKETS ≤ fd.toNat := by omega
  refine ⟨by simp [pollScanSocket, htable, hused], fun hin => ?_⟩
  simp only [pollScanSocket, htable, hused, or_self, if_false, hin, Bool.true_and, Idle]
  split <;> simp

theorem pollScanFd_file (hsocket : ¬k.hasSocket fd) :
    pollScanFd k fd events = ((k.file fd).bind (·.poll events)).getD .none :=
  if_neg hsocket

theorem mem_pollScan {fds : List (ℤ × Events)} {pfd : ℤ × Events} {revents : Events} :
    (pfd, revents) ∈ fds.zip (pollScan k fds).1 ↔
      pfd ∈ fds ∧ revents = pollScanFd k pfd.1 pfd.2 := by
  rw [pollScan]
  induction fds with
  | nil => simp
  | cons head fds ih =>
    simp only [List.map_cons, List.zip_cons_cons, List.mem_cons, Prod.mk.injEq, ih]
    grind

/-- A socket in use is closed in some tables and not in others. -/
theorem exists_hangup (hsocket : k.hasSocket fd) (hup : Bool) : ∃ net : Net,
    { k with net }.hasSocket fd ∧ (pollScanFd { k with net } fd events).pollhup = hup := by
  let sk := { zeroSocket with state := if hup then .closed else .created }
  have hsocket' : { k with net := k.net.set fd.toNat sk }.hasSocket fd := by
    refine ⟨hsocket.1, hsocket.2.1, ?_⟩
    cases hup <;> simp [Net.set, sk]
  refine ⟨_, hsocket', ?_⟩
  rw [(pollScanFd_socket hsocket').1]
  cases hup <;> simp [Net.set, sk]

/-- `poll` agrees with the reads exactly in the careful cases. -/
theorem agrees_iff_careful (k : Kernel) (fds : List (ℤ × Events)) :
    Agrees k fds ↔ ∀ pfd ∈ fds, Careful k pfd.1 pfd.2 := by
  constructor
  · rintro ⟨hwaits, hown⟩ ⟨fd, events⟩ hpfd
    refine ⟨fun hfile hsocket => ?_, fun hfile hsocket hin hidle hclosed => ?_⟩
    · obtain ⟨own, hfile⟩ := Option.isSome_iff_exists.mp hfile
      obtain ⟨net, hnet, hclosed⟩ := @exists_hangup _ _ events hsocket true
      obtain ⟨net', hnet', hopen⟩ := @exists_hangup _ _ events hsocket false
      have heq := hown net (fd, events) _ own (mem_pollScan.mpr ⟨hpfd, rfl⟩)
        (iff_of_true hnet hsocket) hfile
      have heq' := hown net' (fd, events) _ own (mem_pollScan.mpr ⟨hpfd, rfl⟩)
        (iff_of_true hnet' hsocket) hfile
      rw [heq] at hclosed
      rw [heq', hclosed] at hopen
      cases hopen
    · obtain ⟨hhup, hpollin⟩ := @pollScanFd_socket _ _ events hsocket
      have hread := hwaits (fd, events) _ (mem_pollScan.mpr ⟨hpfd, rfl⟩) hin
        ((hpollin hin).mpr hidle) (by rw [hhup, decide_eq_false hclosed])
      rw [ReadWaits, hfile] at hread
      exact (socketWaits_iff hsocket hidle hclosed).mp (hread hsocket)
  · intro hcareful
    refine ⟨fun ⟨fd, events⟩ revents hmem hin hpoll hhup => ?_,
      fun net ⟨fd, events⟩ revents own hmem hnet hfile => ?_⟩
    · obtain ⟨hpfd, rfl⟩ := mem_pollScan.mp hmem
      obtain ⟨hshown, halive⟩ := hcareful _ hpfd
      cases hfile : k.file fd with
      | some f =>
        refine readWaits_of_poll hfile hin fun revents hrevents => ?_
        have hsome : (k.file fd).bind (·.poll events) = some revents := by rw [hfile]; exact hrevents
        rw [pollScanFd_file (hshown (by rw [hsome]; rfl)), hsome] at hpoll hhup
        exact ⟨hpoll, hhup⟩
      | none =>
        rw [ReadWaits, hfile]
        intro hsocket
        obtain ⟨hhup', hpollin⟩ := @pollScanFd_socket _ _ events hsocket
        have hclosed := of_decide_eq_false (hhup'.symm.trans hhup)
        have hidle := (hpollin hin).mp hpoll
        exact (socketWaits_iff hsocket hidle hclosed).mpr
          (halive hfile hsocket hin hidle hclosed)
    · obtain ⟨hpfd, rfl⟩ := mem_pollScan.mp hmem
      have hsocket := (hcareful _ hpfd).shown (by rw [hfile]; rfl)
      rw [pollScanFd_file (mt hnet.mp hsocket), show Kernel.file { k with net } fd = k.file fd from rfl,
        hfile]
      rfl

end Files

/-- The peer of socket 5 has closed its side, and nothing is left to read. -/
def halfClosed : Kernel where
  net := bootNet.set 5 { zeroSocket with state := .closeWait, type := .stream, timeoutTicks := 500 }
  files := none

/-- Descriptor 5 is a pipe with a byte in it, and socket 5 has been created. -/
def hiddenPipe : Kernel where
  net := bootNet.set 5 { zeroSocket with state := .created, timeoutTicks := 500 }
  files := some fun fd =>
    if fd = 5 then some (.pipeRead { PipeInfo.init with dataSize := 1, writePos := 1 }) else none

/-- In both cases nothing is reported, and a read would not wait. -/
theorem poll_hides_what_can_be_read :
    (pollScan halfClosed [(5, ⟨true, false, false⟩)] = ([.none], 0) ∧ ¬ReadWaits halfClosed 5) ∧
      pollScan hiddenPipe [(5, ⟨true, false, false⟩)] = ([.none], 0) ∧
      ¬ReadWaits hiddenPipe 5 := by
  refine ⟨⟨by decide, fun h => ?_⟩, by decide, fun h => ?_⟩
  · exact (h (by decide)).2.2 (by decide)
  · exact nomatch h 1

end Sodex.Poll
