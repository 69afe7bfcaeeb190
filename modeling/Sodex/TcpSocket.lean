import Sodex.DatagramSocket
import Sodex.Runs

/-!
# Stream sockets of `socket.c` and the uIP callback

The connection side of the kernel sockets: creation, binding, listening, the accept
backlog, the callback by which the TCP/IP stack reports events on a connection, the
receive call and the close call. The stack itself is the environment: every call that
polls the network takes the events its polls deliver as input.

Four components of the state are not in the source. `delivered` collects what the stack
has handed up on each connection, `received` what the receive calls returned on each
socket, `serial` numbers the inbound children and `accepted` lists those that an accept
has returned.
-/
namespace Sodex.Tcp

open Datagram

def SOCK_ACCEPT_BACKLOG_SIZE : ℕ := 4

/-- A kernel socket with the fields of its connection side. -/
structure TcpSocket extends KernSocket where
  localAddr : SockAddrIn
  remoteAddr : SockAddrIn
  /-- The uIP connection pointer; `none` is the null pointer. -/
  tcpConn : Option ℕ
  /-- The first `backlog_count` cells of `backlog_fds`. -/
  backlogFds : List ℕ
  backlogLimit : ℕ
  parentFd : ℤ
  pendingAccept : Bool
  txPending : Bool
  closePending : Bool
  timeoutTicks : UInt32

structure Net where
  sockets : ℕ → TcpSocket
  /-- The `appstate` of each uIP connection. -/
  appstate : ℕ → ℤ
  delivered : ℕ → List UInt8
  received : ℕ → List UInt8
  serial : ℕ → Option ℕ
  nextSerial : ℕ
  accepted : List ℕ

/-- A socket entry of zero bytes. -/
def zeroSocket : TcpSocket where
  toKernSocket := { socketInitEntry false with state := .unused }
  localAddr := zeroAddr
  remoteAddr := zeroAddr
  tcpConn := none
  backlogFds := []
  backlogLimit := 0
  parentFd := 0
  pendingAccept := false
  txPending := false
  closePending := false
  timeoutTicks := 0

/-- The state after boot: the socket table is zero, no connection belongs to a socket. -/
def bootNet : Net where
  sockets _ := zeroSocket
  appstate _ := 0
  delivered _ := []
  received _ := []
  serial _ := none
  nextSerial := 0
  accepted := []

namespace Net

/-- Write one socket entry. -/
def set (net : Net) (fd : ℕ) (sk : TcpSocket) : Net :=
  { net with sockets := Function.update net.sockets fd sk }

section Set

variable (net : Net) (fd : ℕ) (sk sk' : TcpSocket)

@[simp] theorem sockets_set : (net.set fd sk).sockets = Function.update net.sockets fd sk := rfl

@[simp] theorem set_self : (net.set fd sk).sockets fd = sk := Function.update_self ..

@[simp] theorem set_set : (net.set fd sk).set fd sk' = net.set fd sk' := by
  simp [set, Function.update_idem]

theorem set_of_ne {fd' : ℕ} (h : fd' ≠ fd) : (net.set fd sk).sockets fd' = net.sockets fd' :=
  Function.update_of_ne h ..

@[simp] theorem set_eta : net.set fd (net.sockets fd) = net := by
  simp [set, Function.update_eq_self]

end Set

end Net

def tcpInitEntry (palloc : Bool) : TcpSocket :=
  { zeroSocket with toKernSocket := socketInitEntry palloc, timeoutTicks := 500, parentFd := -1 }

def socketAllocEntry (net : Net) (palloc : Bool) : Option (ℕ × Net) :=
  ((List.range MAX_SOCKETS).find? fun i => (net.sockets i).state = .unused).map fun i =>
    (i, net.set i (tcpInitEntry palloc))

def socketReleaseEntry (net : Net) (sockfd : ℕ) : Net :=
  let appstate := match (net.sockets sockfd).tcpConn with
    | some conn => Function.update net.appstate conn (-1)
    | none => net.appstate
  { net.set sockfd { zeroSocket with parentFd := -1 } with
    appstate := appstate
    serial := Function.update net.serial sockfd none }

def kernSocket (net : Net) (palloc : Bool) (domain : ℤ) (type : SockType) (protocol : ℤ) :
    ℤ × Net :=
  if domain ≠ AF_INET then (-1, net)
  else
    match socketAllocEntry net palloc with
    | none => (-1, net)
    | some (sockfd, net) =>
      let protocol := if type = .raw ∧ protocol = 0 then IPPROTO_ICMP else protocol
      (sockfd, net.set sockfd { net.sockets sockfd with type := type, protocol := protocol })

/-- A descriptor inside the socket table. -/
def InTable (sockfd : ℤ) : Prop := 0 ≤ sockfd ∧ sockfd < MAX_SOCKETS

instance (sockfd : ℤ) : Decidable (InTable sockfd) := inferInstanceAs (Decidable (_ ∧ _))

/-- `kern_bind`, whatever the state of the socket. -/
def kernBind (net : Net) (sockfd : ℤ) (addr : SockAddrIn) : ℤ × Net :=
  if ¬InTable sockfd then (-1, net)
  else
    let sk := net.sockets sockfd.toNat
    if sk.state = .unused then (-1, net)
    else (0, net.set sockfd.toNat { sk with localAddr := addr, state := .bound })

/-- The number of queued connections that `kern_listen` allows. -/
def clampBacklog (backlog : ℤ) : ℕ :=
  if backlog ≤ 0 then 1
  else if (SOCK_ACCEPT_BACKLOG_SIZE : ℤ) < backlog then SOCK_ACCEPT_BACKLOG_SIZE
  else backlog.toNat

/-- `kern_listen`; the listening ports of the stack are part of the environment. -/
def kernListen (net : Net) (sockfd backlog : ℤ) : ℤ × Net :=
  if ¬InTable sockfd then (-1, net)
  else
    let sk := net.sockets sockfd.toNat
    if sk.type ≠ .stream then (-1, net)
    else if sk.state ≠ .bound ∧ sk.state ≠ .created then (-1, net)
    else if sk.localAddr.sinPort = 0 then (-1, net)
    else (0, net.set sockfd.toNat { sk with
      state := .listening, backlogFds := [], backlogLimit := clampBacklog backlog })

def socketBacklogEnqueue (net : Net) (listenerFd childFd : ℕ) : Option Net :=
  let listener := net.sockets listenerFd
  if listener.backlogLimit = 0 then none
  else if listener.backlogLimit ≤ listener.backlogFds.length then none
  else if SOCK_ACCEPT_BACKLOG_SIZE ≤ listener.backlogFds.length then none
  else some (net.set listenerFd { listener with backlogFds := listener.backlogFds ++ [childFd] })

def socketBacklogDequeue (net : Net) (listenerFd : ℕ) : Option (ℕ × Net) :=
  let listener := net.sockets listenerFd
  match listener.backlogFds with
  | [] => none
  | childFd :: rest => some (childFd, net.set listenerFd { listener with backlogFds := rest })

/-- `socket_backlog_remove_fd`: the first occurrence goes. -/
def socketBacklogRemoveFd (net : Net) (listenerFd childFd : ℕ) : Net :=
  let listener := net.sockets listenerFd
  net.set listenerFd { listener with backlogFds := listener.backlogFds.erase childFd }

def socketFindListenerByPort (net : Net) (port : UInt16) : Option ℕ :=
  (List.range MAX_SOCKETS).find? fun i =>
    (net.sockets i).state = .listening ∧ (net.sockets i).type = .stream ∧
      (net.sockets i).localAddr.sinPort = port

/-- A connection as `struct uip_conn` has it. -/
structure Conn where
  id : ℕ
  lport : UInt16
  rport : UInt16
  ripaddr : UInt32
  deriving DecidableEq, Repr

/-- `socket_bind_inbound_tcp`; `none` is the result -1. -/
def socketBindInboundTcp (net : Net) (conn : Conn) (palloc : Bool) : Option ℕ × Net :=
  match socketFindListenerByPort net conn.lport with
  | none => (none, net)
  | some listenerFd =>
    let listener := net.sockets listenerFd
    if listener.backlogLimit ≤ listener.backlogFds.length then (none, net)
    else
      match socketAllocEntry net palloc with
      | none => (none, net)
      | some (childFd, net) =>
        let net := net.set childFd { net.sockets childFd with
          type := .stream
          protocol := 6
          state := .connected
          localAddr := listener.localAddr
          remoteAddr := ⟨2, conn.rport, conn.ripaddr⟩
          tcpConn := some conn.id
          parentFd := listenerFd
          pendingAccept := true
          timeoutTicks := listener.timeoutTicks }
        match socketBacklogEnqueue net listenerFd childFd with
        | none => (none, socketReleaseEntry net childFd)
        | some net => (some childFd, { net with
            appstate := Function.update net.appstate conn.id childFd
            serial := Function.update net.serial childFd (some net.nextSerial)
            nextSerial := net.nextSerial + 1 })

/-- A call of `uip_appcall`: the connection, the flags of the stack and the new data. -/
structure Appcall where
  conn : Conn
  connected : Bool
  newdata : Bool
  aborted : Bool
  timedout : Bool
  closed : Bool
  poll : Bool
  acked : Bool
  /-- `tcpstateflags` is `UIP_CLOSE_WAIT`. -/
  closeWait : Bool
  /-- `uip_outstanding`: sent data has not been acknowledged yet. -/
  outstanding : Bool
  data : ℕ → UInt8
  len : UInt16
  /-- Whether the receive buffer of a new child can be allocated. -/
  palloc : Bool

def socketTcpInput (net : Net) (sockfd : ℕ) (data : ℕ → UInt8) (len : UInt16) : Net :=
  let sk := net.sockets sockfd
  if sk.state = .unused then net
  else net.set sockfd { sk with
    toKernSocket := (rxbufWrite sk.toKernSocket data len (some ⟨2, 0, 0⟩)).2 }

/-- The socket of a connection slot that is still closing belongs to an old connection. -/
def Stale (net : Net) (e : Appcall) : Prop :=
  InTable (net.appstate e.conn.id) ∧
    (net.sockets (net.appstate e.conn.id).toNat).tcpConn = some e.conn.id ∧
    ((net.sockets (net.appstate e.conn.id).toNat).state = .closed ∨
      (net.sockets (net.appstate e.conn.id).toNat).closePending = true)

instance (net : Net) (e : Appcall) : Decidable (Stale net e) :=
  inferInstanceAs (Decidable (_ ∧ _ ∧ _))

/-- The socket of an old connection is cut off before a new connection takes its slot. -/
def cutStale (net : Net) (e : Appcall) : ℤ × Net :=
  let sockfd := net.appstate e.conn.id
  if Stale net e then
    let net := net.set sockfd.toNat { net.sockets sockfd.toNat with
      tcpConn := none, closePending := false, txPending := false, state := .closed }
    (-1, { net with appstate := Function.update net.appstate e.conn.id (-1) })
  else (sockfd, net)

/-- The start of `uip_appcall` when a connection comes up: a connection without a socket
gets a new child. `none` is the early return after `uip_abort`. -/
def appcallConnected (net : Net) (e : Appcall) : Option ℤ × Net :=
  let out := cutStale net e
  if ¬InTable out.1 ∨ (out.2.sockets out.1.toNat).tcpConn ≠ some e.conn.id then
    let child := socketBindInboundTcp out.2 e.conn e.palloc
    (child.1.map Int.ofNat, child.2)
  else (some out.1, out.2)

/-- The socket after the event flags, in the order in which `uip_appcall` looks at them. -/
def appcallState (sk : TcpSocket) (e : Appcall) : TcpSocket :=
  let sk := if e.aborted ∨ e.timedout then { sk with state := .closed } else sk
  if e.closed then { sk with state := if e.closeWait then .closeWait else .closed } else sk

/-- The output part: send the pending segment, or the pending FIN. -/
def appcallOutput (sk : TcpSocket) (e : Appcall) : TcpSocket :=
  let ready := e.poll ∨ e.acked ∨ e.connected
  let sent := ready ∧ sk.txPending = true
  let sk := if sent then { sk with txPending := false } else sk
  if (ready ∨ sk.state = .closeWait) ∧ ¬sent ∧ sk.closePending = true ∧ sk.txPending = false ∧
      e.outstanding = false then
    { sk with closePending := false }
  else sk

/-- The rest of `uip_appcall`, for a socket that belongs to the connection. -/
def appcallSocket (net : Net) (sockfd : ℕ) (e : Appcall) : Net :=
  let net := if e.connected then net.set sockfd { net.sockets sockfd with state := .connected }
    else net
  let net := if e.newdata then socketTcpInput net sockfd e.data e.len else net
  net.set sockfd (appcallOutput (appcallState (net.sockets sockfd) e) e)

/-- Note the bytes that the stack hands up, and will acknowledge. -/
def noteDelivered (net : Net) (e : Appcall) : Net :=
  if e.newdata then
    let bytes := net.delivered e.conn.id ++ bytesAt e.data e.len
    { net with delivered := Function.update net.delivered e.conn.id bytes }
  else net

def uipAppcall (net : Net) (e : Appcall) : Net :=
  let net := noteDelivered net e
  let out := if e.connected then appcallConnected net e else (some (net.appstate e.conn.id), net)
  match out.1 with
  | none => out.2
  | some sockfd =>
    if ¬InTable sockfd then out.2
    else if (out.2.sockets sockfd.toNat).tcpConn ≠ some e.conn.id then out.2
    else appcallSocket out.2 sockfd.toNat e

def networkPoll (net : Net) (events : List Appcall) : Net := events.foldl uipAppcall net

/-- `socket_begin_close` for a socket with a TCP connection. -/
def socketBeginClose (net : Net) (sockfd : ℕ) : Net :=
  net.set sockfd { net.sockets sockfd with closePending := true }

/-- The waiting loop of `kern_close_socket`, one poll a turn until the deadline. -/
def closeLoop (net : Net) (sockfd : ℕ) : List (List Appcall) → Net
  | [] => net
  | batch :: batches =>
    let net := networkPoll net batch
    if (net.sockets sockfd).state = .closed ∨ (net.sockets sockfd).state = .unused then net
    else closeLoop net sockfd batches

/-- What the polls of the closing waits to come will deliver: a list of polls for each
wait. A wait for which nothing is given ends at its deadline at once. -/
abbrev Waits := List (List (List Appcall))

/-- The end of `kern_close_socket`, after the children: leave the parent's backlog, let the
connection close, release the entry. -/
def closeEntry (net : Net) (waits : Waits) (sockfd : ℕ) : Net × Waits :=
  let parentFd := (net.sockets sockfd).parentFd
  let net :=
    if InTable parentFd then
      let net := socketBacklogRemoveFd net parentFd.toNat sockfd
      net.set sockfd { net.sockets sockfd with parentFd := -1, pendingAccept := false }
    else net
  if (net.sockets sockfd).state = .closed then (socketReleaseEntry net sockfd, waits)
  else
    let out : Net × Waits :=
      if (net.sockets sockfd).tcpConn.isSome then
        (closeLoop (socketBeginClose net sockfd) sockfd (waits.headD []), waits.tail)
      else (net, waits)
    if (out.1.sockets sockfd).state = .unused then out
    else (socketReleaseEntry out.1 sockfd, out.2)

/-- `kern_close_socket`. The recursion closes the queued children of a listener; `fuel`
bounds its depth. -/
def kernCloseSocket : ℕ → Net → Waits → ℤ → Option (Net × Waits)
  | 0, _, _, _ => none
  | fuel + 1, net, waits, sockfd =>
    if ¬InTable sockfd then some (net, waits)
    else
      let fd := sockfd.toNat
      let sk := net.sockets fd
      if sk.state = .unused then some (net, waits)
      else if sk.state = .listening ∧ sk.localAddr.sinPort ≠ 0 then
        let pending := sk.backlogFds
        let net := net.set fd { sk with backlogFds := [], backlogLimit := 0 }
        (pending.foldlM (fun (s : Net × Waits) childFd =>
            if childFd < MAX_SOCKETS then
              kernCloseSocket fuel (s.1.set childFd { s.1.sockets childFd with
                parentFd := -1, pendingAccept := false }) s.2 childFd
            else some s) (net, waits)).map fun s => closeEntry s.1 s.2 fd
      else some (closeEntry net waits fd)

/-- Enough for any nesting of listeners. -/
def closeFuel : ℕ := MAX_SOCKETS + 1

/-- The loop of `socket_try_accept`: children whose connection is gone are dropped. -/
def acceptLoop : ℕ → Net → ℕ → Option (ℤ × Net)
  | 0, _, _ => none
  | fuel + 1, net, listenerFd =>
    match socketBacklogDequeue net listenerFd with
    | none => some (-1, net)
    | some (childFd, net) =>
      let child := net.sockets childFd
      let net := net.set childFd { child with pendingAccept := false, parentFd := -1 }
      if child.state = .closed then
        (kernCloseSocket closeFuel net [] childFd).bind fun s => acceptLoop fuel s.1 listenerFd
      else some (childFd, { net with accepted := net.accepted ++ (net.serial childFd).toList })

def socketTryAccept (net : Net) (sockfd : ℤ) : Option (ℤ × Net) :=
  if ¬InTable sockfd then some (-1, net)
  else if (net.sockets sockfd.toNat).state ≠ .listening then some (-1, net)
  else acceptLoop ((net.sockets sockfd.toNat).backlogFds.length + 1) net sockfd.toNat

/-- The polling loop of `kern_recvfrom`. -/
def pollLoop (net : Net) (sockfd : ℕ) : List (List Appcall) → Net
  | [] => net
  | batch :: batches =>
    let net := networkPoll net batch
    if 0 < (net.sockets sockfd).rxLen ∨ (net.sockets sockfd).state = .closed ∨
        (net.sockets sockfd).state = .closeWait then net
    else pollLoop net sockfd batches

/-- The read at the end of `kern_recv`. -/
def recvRead (net : Net) (fd maxlen : ℕ) : ℤ × Net :=
  let out := rxbufRead (net.sockets fd).toKernSocket maxlen false
  let bytes := net.received fd ++ out.1.bytes
  (out.1.ret, { net.set fd { net.sockets fd with toKernSocket := out.2 } with
    received := Function.update net.received fd bytes })

/-- `kern_recv`. Interrupts are enabled between the loop and the read; `late` are the events
that come in there. -/
def kernRecv (net : Net) (sockfd len : ℤ) (batches : List (List Appcall)) (late : List Appcall) :
    ℤ × Net :=
  if ¬InTable sockfd then (-1, net)
  else
    let fd := sockfd.toNat
    if (net.sockets fd).state = .unused then (-1, net)
    else
      let net := if (net.sockets fd).rxLen = 0 then pollLoop net fd batches else net
      let sk := net.sockets fd
      if sk.rxLen = 0 then
        (if sk.state = .closeWait ∨ sk.state = .closed then SOCK_ERR_EOF else 0, net)
      else recvRead (networkPoll net late) fd (len % 2 ^ 16).toNat

theorem rxbufWrite_frame (sk : KernSocket) (data : ℕ → UInt8) (len : UInt16)
    (src : Option SockAddrIn) : (rxbufWrite sk data len src).2.type = sk.type ∧
      (rxbufWrite sk data len src).2.state = sk.state := by
  unfold rxbufWrite
  split
  · exact ⟨rfl, rfl⟩
  split
  · exact ⟨rfl, rfl⟩
  split
  · exact ⟨rfl, rfl⟩
  · simp only
    split <;> exact ⟨rfl, rfl⟩

/-- The flags of an event change the state and the two pending marks of its socket. -/
theorem appcallOutput_state (sk : TcpSocket) (e : Appcall) : ∃ state tx close,
    (state = sk.state ∨ state = .closed ∨ state = .closeWait) ∧
      appcallOutput (appcallState sk e) e =
        { sk with state := state, txPending := tx, closePending := close } := by
  have hstate : ∃ state, (state = sk.state ∨ state = .closed ∨ state = .closeWait) ∧
      appcallState sk e = { sk with state := state } := by
    unfold appcallState
    by_cases hclosed : e.closed = true
    · rw [if_pos hclosed]
      by_cases hwait : e.closeWait = true
      · refine ⟨.closeWait, .inr (.inr rfl), ?_⟩
        rw [if_pos hwait]
        split <;> rfl
      · refine ⟨.closed, .inr (.inl rfl), ?_⟩
        rw [if_neg hwait]
        split <;> rfl
    · rw [if_neg hclosed]
      split
      · exact ⟨.closed, .inr (.inl rfl), rfl⟩
      · exact ⟨sk.state, .inl rfl, rfl⟩
  obtain ⟨state, hcases, heq⟩ := hstate
  rw [heq]
  unfold appcallOutput
  simp only
  split <;> split <;> exact ⟨state, _, _, hcases, rfl⟩

def SameRecords (sk sk' : TcpSocket) : Prop :=
  sk'.backlogFds = sk.backlogFds ∧ sk'.backlogLimit = sk.backlogLimit ∧
    sk'.parentFd = sk.parentFd ∧ sk'.pendingAccept = sk.pendingAccept ∧
    sk'.tcpConn = sk.tcpConn ∧ sk'.localAddr = sk.localAddr

/-- An event on a connection writes the entry of its socket: the state may change, the
backlog records do not. -/
theorem appcallSocket_eq (net : Net) (k : ℕ) (e : Appcall) : ∃ sk,
    appcallSocket net k e = net.set k sk ∧ SameRecords (net.sockets k) sk ∧
      (sk.state = (net.sockets k).state ∨ sk.state = .connected ∨ sk.state = .closed ∨
        sk.state = .closeWait) := by
  have hconnect : ∃ sk, (if e.connected then
      net.set k { net.sockets k with state := .connected } else net) = net.set k sk ∧
      SameRecords (net.sockets k) sk ∧
      (sk.state = (net.sockets k).state ∨ sk.state = .connected) := by
    split
    · exact ⟨_, rfl, ⟨rfl, rfl, rfl, rfl, rfl, rfl⟩, .inr rfl⟩
    · exact ⟨net.sockets k, (Net.set_eta ..).symm, ⟨rfl, rfl, rfl, rfl, rfl, rfl⟩, .inl rfl⟩
  obtain ⟨sk₁, heq₁, hsame₁, hstate₁⟩ := hconnect
  have hinput : ∃ sk, (if e.newdata then socketTcpInput (net.set k sk₁) k e.data e.len
      else net.set k sk₁) = net.set k sk ∧ SameRecords (net.sockets k) sk ∧
      sk.state = sk₁.state := by
    split
    · unfold socketTcpInput
      rw [Net.set_self]
      simp only
      split
      · exact ⟨sk₁, rfl, hsame₁, rfl⟩
      · exact ⟨_, Net.set_set .., hsame₁, (rxbufWrite_frame ..).2⟩
    · exact ⟨sk₁, rfl, hsame₁, rfl⟩
  obtain ⟨sk₂, heq₂, hsame₂, hstate₂⟩ := hinput
  obtain ⟨state, tx, close, hstate, hout⟩ := appcallOutput_state sk₂ e
  have heq : appcallSocket net k e = net.set k (appcallOutput (appcallState sk₂ e) e) := by
    unfold appcallSocket
    simp only
    rw [heq₁, heq₂, Net.set_self, Net.set_set]
  refine ⟨_, heq, ?_, ?_⟩
  · rw [hout]
    exact hsame₂
  · rw [hout]
    rcases hstate with hstate | hstate | hstate
    · rw [hstate, hstate₂]
      rcases hstate₁ with hstate₁ | hstate₁
      · exact .inl hstate₁
      · exact .inr (.inl hstate₁)
    · exact .inr (.inr (.inl hstate))
    · exact .inr (.inr (.inr hstate))

end Sodex.Tcp
