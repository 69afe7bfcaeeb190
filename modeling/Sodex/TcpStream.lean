import Sodex.TcpSocket
import Sodex.DatagramQueue

/-!
# The byte stream of a connected socket

Segments that the ring has room for are appended to it, and a receive call takes a prefix
off. So what has been received and what the ring holds make up what was delivered, as long
as no segment is dropped.
-/
namespace Sodex.Tcp

open Datagram RingBuffer Runs List Function

/-- The ring of a stream socket holds exactly these bytes. -/
structure Holds (sk : KernSocket) (bytes : List UInt8) : Prop where
  type : sk.type = .stream
  size : sk.rxBufSize = SOCK_RXBUF_SIZE
  ring : ∃ buf, sk.rxBuf = some buf ∧
    Filled SOCK_RXBUF_SIZE buf sk.rxHead sk.rxTail sk.rxLen bytes

section Ring

variable {sk : KernSocket} {bytes : List UInt8} {data : ℕ → UInt8} {len : UInt16}

theorem Holds.rxLen_eq (h : Holds sk bytes) : sk.rxLen = bytes.length := by
  obtain ⟨buf, -, hring⟩ := h.ring
  exact hring.len_eq

theorem rxbufWrite_none {src : Option SockAddrIn} (h : sk.rxBuf = none) :
    (rxbufWrite sk data len src).2 = sk := by
  apply (rxbufWrite_dropped _).2
  rintro ⟨-, hbuf, -⟩
  simp [h] at hbuf

/-- The fields of the ring after a segment was stored; the packet metadata play no part. -/
theorem rxbufWrite_ring {src : Option SockAddrIn} {buf : ℕ → UInt8} (hzero : len ≠ 0)
    (hbuf : sk.rxBuf = some buf) (hfit : sk.rxLen + len.toNat ≤ sk.rxBufSize) :
    (rxbufWrite sk data len src).2.rxBuf =
        some (push sk.rxBufSize buf sk.rxHead (bytesAt data len)).1 ∧
      (rxbufWrite sk data len src).2.rxHead =
        (push sk.rxBufSize buf sk.rxHead (bytesAt data len)).2 ∧
      (rxbufWrite sk data len src).2.rxLen = (sk.rxLen + len.toNat) % 2 ^ 16 ∧
      (rxbufWrite sk data len src).2.rxTail = sk.rxTail ∧
      (rxbufWrite sk data len src).2.rxBufSize = sk.rxBufSize := by
  unfold rxbufWrite
  simp only [if_neg hzero, hbuf, if_neg (not_lt.mpr hfit)]
  split <;> exact ⟨rfl, rfl, rfl, rfl, rfl⟩

/-- A segment that fits is appended. -/
theorem Holds.write {src : Option SockAddrIn} (h : Holds sk bytes)
    (hfit : sk.rxLen + len.toNat ≤ sk.rxBufSize) :
    Holds (rxbufWrite sk data len src).2 (bytes ++ bytesAt data len) := by
  by_cases hzero : len = 0
  · subst hzero
    have hsame : (rxbufWrite sk data 0 src).2 = sk := by simp [rxbufWrite]
    rw [hsame]
    simpa [bytesAt] using h
  obtain ⟨buf, hbuf, hring⟩ := h.ring
  obtain ⟨hb, hh, hl, ht, hs⟩ := @rxbufWrite_ring sk data len src buf hzero hbuf hfit
  rw [h.size] at hfit hb hh
  have hwrap : (sk.rxLen + len.toNat) % 2 ^ 16 = sk.rxLen + len.toNat :=
    Nat.mod_eq_of_lt (lt_of_le_of_lt hfit (by decide))
  rw [← @length_bytesAt data] at hfit
  refine ⟨?_, by rw [hs, h.size], _, hb, ?_⟩
  · rw [(rxbufWrite_frame sk data len src).1]
    exact h.type
  · rw [hh, ht, hl, hwrap, ← @length_bytesAt data]
    exact hring.push hfit

/-- A read returns a prefix of the bytes and leaves the rest. -/
theorem Holds.read (h : Holds sk bytes) (hne : sk.rxLen ≠ 0) (maxlen : ℕ) :
    (rxbufRead sk maxlen false).1.ret = (min sk.rxLen maxlen : ℕ) ∧
      (rxbufRead sk maxlen false).1.bytes = bytes.take (min sk.rxLen maxlen) ∧
      (rxbufRead sk maxlen false).2.state = sk.state ∧
      Holds (rxbufRead sk maxlen false).2 (bytes.drop (min sk.rxLen maxlen)) := by
  obtain ⟨buf, hbuf, hring⟩ := h.ring
  have hfits := hring.fits
  have hsmall : SOCK_RXBUF_SIZE < 2 ^ 16 := by decide
  generalize hk : min sk.rxLen maxlen = k
  have hkl : k ≤ sk.rxLen := by omega
  obtain ⟨htake, hdrop⟩ := hring.drop hkl
  have hval : rxbufRead sk maxlen false = (⟨k, bytes.take k, none⟩,
      { sk with rxTail := (sk.rxTail + k) % SOCK_RXBUF_SIZE, rxLen := sk.rxLen - k }) := by
    have hpacket : isPacketType sk.type = false := by rw [h.type]; rfl
    simp only [rxbufRead, if_neg hne, hpacket, Bool.false_and, Bool.and_false, hbuf, h.size, hk,
      Option.getD_some, pop_eq hring.tail_lt, sub_u16 hkl (by omega), htake, if_false,
      Bool.false_eq_true]
  rw [hval]
  exact ⟨rfl, rfl, rfl, h.type, h.size, buf, hbuf, hdrop⟩

end Ring

/-- A data event of an established connection. -/
structure Segment where
  conn : Conn
  aborted : Bool
  timedout : Bool
  closed : Bool
  poll : Bool
  acked : Bool
  closeWait : Bool
  outstanding : Bool
  data : ℕ → UInt8
  len : UInt16

def Segment.appcall (g : Segment) : Appcall where
  conn := g.conn
  connected := false
  newdata := true
  aborted := g.aborted
  timedout := g.timedout
  closed := g.closed
  poll := g.poll
  acked := g.acked
  closeWait := g.closeWait
  outstanding := g.outstanding
  data := g.data
  len := g.len
  palloc := true

/-- The effect of a data event on the socket of its connection. -/
theorem appcallSocket_segment (net : Net) (k : ℕ) (g : Segment)
    (hused : (net.sockets k).state ≠ .unused) : ∃ state tx close,
    (state = (net.sockets k).state ∨ state = .closed ∨ state = .closeWait) ∧
      appcallSocket net k g.appcall = net.set k { net.sockets k with
        toKernSocket := { (rxbufWrite (net.sockets k).toKernSocket g.data g.len
          (some ⟨2, 0, 0⟩)).2 with state := state }
        txPending := tx, closePending := close } := by
  have hinput : socketTcpInput net k g.data g.len = net.set k { net.sockets k with
      toKernSocket := (rxbufWrite (net.sockets k).toKernSocket g.data g.len
        (some ⟨2, 0, 0⟩)).2 } := by
    unfold socketTcpInput
    rw [if_neg hused]
  have heq : appcallSocket net k g.appcall = (socketTcpInput net k g.data g.len).set k
      (appcallOutput (appcallState ((socketTcpInput net k g.data g.len).sockets k)
        g.appcall) g.appcall) := rfl
  rw [heq, hinput, Net.set_self, Net.set_set]
  obtain ⟨state, tx, close, hcases, hout⟩ := appcallOutput_state { net.sockets k with
      toKernSocket := (rxbufWrite (net.sockets k).toKernSocket g.data g.len
        (some ⟨2, 0, 0⟩)).2 } g.appcall
  refine ⟨state, tx, close, ?_, by rw [hout]⟩
  rwa [show ({ net.sockets k with toKernSocket := (rxbufWrite (net.sockets k).toKernSocket g.data
    g.len (some ⟨2, 0, 0⟩)).2 } : TcpSocket).state = (net.sockets k).state from
      (rxbufWrite_frame _ _ _ _).2] at hcases

/-- The socket `fd` is in use for the connection `c`. -/
structure Attached (net : Net) (fd c : ℕ) : Prop where
  inTable : fd < MAX_SOCKETS
  used : (net.sockets fd).state ≠ .unused
  conn : (net.sockets fd).tcpConn = some c
  appstate : net.appstate c = fd

/-- What the socket has received and still holds is what was delivered on its connection;
without a receive buffer it receives nothing at all. -/
structure Serves (net : Net) (fd c : ℕ) : Prop extends Attached net fd c where
  stream : (∃ bytes, Holds (net.sockets fd).toKernSocket bytes ∧
      net.received fd ++ bytes = net.delivered c) ∨
    ((net.sockets fd).rxBuf = none ∧ (net.sockets fd).rxLen = 0 ∧
      net.received fd <+: net.delivered c)

/-- The ring of socket `fd` takes the segment, if the segment is for it. -/
def RoomFor (net : Net) (fd c : ℕ) (g : Segment) : Prop :=
  g.conn.id = c → (net.sockets fd).rxBuf.isSome →
    (net.sockets fd).rxLen + g.len.toNat ≤ (net.sockets fd).rxBufSize

instance (net : Net) (fd c : ℕ) (g : Segment) : Decidable (RoomFor net fd c g) :=
  inferInstanceAs (Decidable (_ → _ → _))

section Events

variable {net : Net} {fd c : ℕ} {g : Segment}

theorem Serves.received_prefix (h : Serves net fd c) : net.received fd <+: net.delivered c := by
  rcases h.stream with ⟨bytes, -, heq⟩ | ⟨-, -, hpre⟩
  · exact ⟨bytes, heq⟩
  · exact hpre

/-- The event handler without the case of a new connection. -/
theorem uipAppcall_segment (net : Net) (g : Segment) : uipAppcall net g.appcall =
    if InTable (net.appstate g.conn.id) ∧
        (net.sockets (net.appstate g.conn.id).toNat).tcpConn = some g.conn.id then
      appcallSocket (noteDelivered net g.appcall) (net.appstate g.conn.id).toNat g.appcall
    else noteDelivered net g.appcall := by
  have heq : uipAppcall net g.appcall =
      if ¬InTable (net.appstate g.conn.id) then noteDelivered net g.appcall
      else if (net.sockets (net.appstate g.conn.id).toNat).tcpConn ≠ some g.conn.id then
        noteDelivered net g.appcall
      else appcallSocket (noteDelivered net g.appcall) (net.appstate g.conn.id).toNat g.appcall :=
    rfl
  rw [heq]
  by_cases hin : InTable (net.appstate g.conn.id)
  · by_cases hconn : (net.sockets (net.appstate g.conn.id).toNat).tcpConn = some g.conn.id
    · simp [hin, hconn]
    · simp [hin, hconn]
  · simp [hin]

/-- What a segment does outside the socket entries. -/
theorem uipAppcall_logs (net : Net) (g : Segment) :
    (uipAppcall net g.appcall).received = net.received ∧
      (uipAppcall net g.appcall).appstate = net.appstate ∧
      (uipAppcall net g.appcall).delivered = update net.delivered g.conn.id
        (net.delivered g.conn.id ++ Datagram.bytesAt g.data g.len) := by
  rw [uipAppcall_segment]
  split_ifs
  · obtain ⟨sk, hset, -⟩ := appcallSocket_eq (noteDelivered net g.appcall)
      (net.appstate g.conn.id).toNat g.appcall
    rw [hset]
    exact ⟨rfl, rfl, rfl⟩
  · exact ⟨rfl, rfl, rfl⟩

/-- The socket entry after a segment: the ring takes it in if it is for this socket. -/
theorem Attached.uipAppcall_socket (h : Attached net fd c) (g : Segment) : ∃ state tx close,
    state ≠ .unused ∧ (uipAppcall net g.appcall).sockets fd = { net.sockets fd with
      toKernSocket := { (if g.conn.id = c then (rxbufWrite (net.sockets fd).toKernSocket g.data g.len
        (some ⟨2, 0, 0⟩)).2 else (net.sockets fd).toKernSocket) with state := state }
      txPending := tx, closePending := close } := by
  rw [uipAppcall_segment]
  by_cases hid : g.conn.id = c
  · have hin : InTable (net.appstate g.conn.id) := by
      rw [hid, h.appstate]
      exact ⟨Int.natCast_nonneg fd, Int.ofNat_lt.mpr h.inTable⟩
    have htoNat : (net.appstate g.conn.id).toNat = fd := by rw [hid, h.appstate]; rfl
    rw [htoNat, if_pos ⟨hin, by rw [h.conn, hid]⟩]
    obtain ⟨state, tx, close, hcases, heq⟩ :=
      appcallSocket_segment (noteDelivered net g.appcall) fd g h.used
    refine ⟨state, tx, close, ?_, by rw [heq, Net.set_self, if_pos hid]; rfl⟩
    rcases hcases with rfl | rfl | rfl
    · exact h.used
    · simp
    · simp
  · refine ⟨(net.sockets fd).state, (net.sockets fd).txPending, (net.sockets fd).closePending,
      h.used, ?_⟩
    split_ifs with howner
    · have hfd : fd ≠ (net.appstate g.conn.id).toNat := by
        intro heq
        rw [← heq, h.conn] at howner
        exact hid (Option.some.inj howner.2).symm
      obtain ⟨sk, hset, -⟩ := appcallSocket_eq (noteDelivered net g.appcall)
        (net.appstate g.conn.id).toNat g.appcall
      rw [hset, Net.set_of_ne _ _ _ hfd]
      rfl
    · rfl

theorem Attached.segment (h : Attached net fd c) (g : Segment) :
    Attached (uipAppcall net g.appcall) fd c := by
  obtain ⟨state, tx, close, hused, hsocket⟩ := h.uipAppcall_socket g
  obtain ⟨-, happ, -⟩ := uipAppcall_logs net g
  constructor
  · exact h.inTable
  · rw [hsocket]; exact hused
  · rw [hsocket]; exact h.conn
  · rw [happ]; exact h.appstate

/-- The ring does not depend on the connection state. -/
theorem Holds.withState {sk : KernSocket} {bytes : List UInt8} (h : Holds sk bytes)
    (state : SockState) : Holds { sk with state := state } bytes :=
  ⟨h.type, h.size, h.ring⟩

/-- A segment for the socket is appended when it fits, and lost whole otherwise. -/
theorem Attached.holds_segment {bytes : List UInt8} (h : Attached net fd c)
    (hholds : Holds (net.sockets fd).toKernSocket bytes) (hid : g.conn.id = c) :
    Holds ((uipAppcall net g.appcall).sockets fd).toKernSocket (bytes ++
      if (net.sockets fd).rxLen + g.len.toNat ≤ (net.sockets fd).rxBufSize then
        Datagram.bytesAt g.data g.len else []) := by
  obtain ⟨state, tx, close, -, hsocket⟩ := h.uipAppcall_socket g
  rw [hsocket, if_pos hid]
  split_ifs with hfit
  · exact (hholds.write hfit).withState state
  · have hdropped := (@rxbufWrite_dropped (net.sockets fd).toKernSocket g.data g.len
      (some ⟨2, 0, 0⟩) fun hstores => hfit hstores.2.2).2
    rw [append_nil]
    rw [hdropped]
    exact hholds.withState state

/-- A segment keeps the stream whole when there is room for it. -/
theorem Serves.event (h : Serves net fd c) (hroom : RoomFor net fd c g) :
    Serves (uipAppcall net g.appcall) fd c := by
  obtain ⟨hrec, -, hdel⟩ := uipAppcall_logs net g
  obtain ⟨state, tx, close, -, hsocket⟩ := h.toAttached.uipAppcall_socket g
  refine ⟨h.toAttached.segment g, ?_⟩
  rw [hrec, hdel]
  by_cases hid : g.conn.id = c
  · rw [hid, update_self]
    rcases h.stream with ⟨bytes, hholds, hbytes⟩ | ⟨hnone, hlen, hpre⟩
    · left
      obtain ⟨buf, hbuf, -⟩ := hholds.ring
      have hfit := hroom hid (by rw [hbuf]; rfl)
      have hring := h.toAttached.holds_segment hholds hid
      rw [if_pos hfit] at hring
      exact ⟨_, hring, by rw [← append_assoc, hbytes]⟩
    · right
      have hsame : (rxbufWrite (net.sockets fd).toKernSocket g.data g.len (some ⟨2, 0, 0⟩)).2 =
        (net.sockets fd).toKernSocket := rxbufWrite_none hnone
      rw [hsocket, if_pos hid, hsame]
      exact ⟨hnone, hlen, hpre.trans (prefix_append _ _)⟩
  · rw [update_of_ne (Ne.symm hid), hsocket, if_neg hid]
    rcases h.stream with ⟨bytes, hholds, hbytes⟩ | hnone
    · exact Or.inl ⟨bytes, hholds.withState state, hbytes⟩
    · exact Or.inr hnone

/-- Deliver segments one after the other. -/
def deliverAll (net : Net) (gs : List Segment) : Net := networkPoll net (gs.map Segment.appcall)

/-- Every segment of the connection finds room in the state in which it arrives. -/
def RoomForAll (net : Net) (fd c : ℕ) : List Segment → Prop
  | [] => True
  | g :: gs => RoomFor net fd c g ∧ RoomForAll (uipAppcall net g.appcall) fd c gs

instance RoomForAll.decidable (fd c : ℕ) : ∀ net gs, Decidable (RoomForAll net fd c gs)
  | _, [] => inferInstanceAs (Decidable True)
  | net, g :: gs =>
    have := RoomForAll.decidable fd c (uipAppcall net g.appcall) gs
    inferInstanceAs (Decidable (_ ∧ _))

theorem Serves.deliver {gs : List Segment} (h : Serves net fd c)
    (hroom : RoomForAll net fd c gs) : Serves (deliverAll net gs) fd c := by
  induction gs generalizing net with
  | nil => exact h
  | cons g gs ih => exact ih (h.event hroom.1) hroom.2

theorem deliverAll_append (net : Net) (gs hs : List Segment) :
    deliverAll net (gs ++ hs) = deliverAll (deliverAll net gs) hs := by
  simp [deliverAll, networkPoll]

end Events

section Recv

variable {net : Net} {fd c : ℕ}

/-- The segments that the polling loop of a receive call takes in. -/
def pollTaken (net : Net) (fd : ℕ) : List (List Segment) → List Segment
  | [] => []
  | batch :: batches =>
    let net := deliverAll net batch
    if 0 < (net.sockets fd).rxLen ∨ (net.sockets fd).state = .closed ∨
        (net.sockets fd).state = .closeWait then batch
    else batch ++ pollTaken net fd batches

theorem pollLoop_eq (net : Net) (fd : ℕ) (batches : List (List Segment)) :
    pollLoop net fd (batches.map (map Segment.appcall)) =
      deliverAll net (pollTaken net fd batches) := by
  induction batches generalizing net with
  | nil => rfl
  | cons batch batches ih =>
    have hpoll : networkPoll net (batch.map Segment.appcall) = deliverAll net batch := rfl
    rw [map_cons, pollLoop, pollTaken]
    simp only [hpoll]
    split_ifs with hstop
    · rfl
    · rw [deliverAll_append]
      exact ih _

/-- The segments that a receive call on the entry `k` waits for. -/
def waitTaken (net : Net) (k : ℕ) (batches : List (List Segment)) : List Segment :=
  if (net.sockets k).rxLen = 0 then pollTaken net k batches else []

/-- The segments that arrive during a receive call on the entry `k`. -/
def recvTaken (net : Net) (k : ℕ) (batches : List (List Segment)) (late : List Segment) :
    List Segment :=
  if ((deliverAll net (waitTaken net k batches)).sockets k).rxLen = 0 then
    waitTaken net k batches
  else waitTaken net k batches ++ late

variable {sockfd len : ℤ} {batches : List (List Segment)} {late : List Segment}

/-- `kern_recv` where only segments arrive. -/
def recvCall (net : Net) (sockfd len : ℤ) (batches : List (List Segment)) (late : List Segment) :
    ℤ × Net :=
  kernRecv net sockfd len (batches.map (map Segment.appcall)) (late.map Segment.appcall)

/-- The call reaches the socket. -/
def Admitted (net : Net) (sockfd : ℤ) : Prop :=
  InTable sockfd ∧ (net.sockets sockfd.toNat).state ≠ .unused

instance (net : Net) (sockfd : ℤ) : Decidable (Admitted net sockfd) :=
  inferInstanceAs (Decidable (_ ∧ _))

theorem recvCall_of_not_admitted (h : ¬Admitted net sockfd) :
    recvCall net sockfd len batches late = (-1, net) := by
  unfold recvCall kernRecv
  by_cases hin : InTable sockfd
  · have hunused : (net.sockets sockfd.toNat).state = .unused := by
      by_contra hused
      exact h ⟨hin, hused⟩
    simp [hin, hunused]
  · simp [hin]

/-- A receive call is the segments that arrive meanwhile, then a read if there is data. -/
theorem recvCall_of_admitted (h : Admitted net sockfd) : recvCall net sockfd len batches late =
      let after := deliverAll net (recvTaken net sockfd.toNat batches late)
      if ((deliverAll net (waitTaken net sockfd.toNat batches)).sockets sockfd.toNat).rxLen = 0 then
        (if (after.sockets sockfd.toNat).state = .closeWait ∨
          (after.sockets sockfd.toNat).state = .closed then SOCK_ERR_EOF else 0, after)
      else recvRead after sockfd.toNat (len % 2 ^ 16).toNat := by
  obtain ⟨hin, hused⟩ := h
  have hwait : (if (net.sockets sockfd.toNat).rxLen = 0 then
      pollLoop net sockfd.toNat (batches.map (map Segment.appcall)) else net) =
      deliverAll net (waitTaken net sockfd.toNat batches) := by
    unfold waitTaken
    split_ifs
    · exact pollLoop_eq net sockfd.toNat batches
    · rfl
  unfold recvCall kernRecv recvTaken
  simp only [hin, not_true_eq_false, if_false, hused, hwait]
  split_ifs with hempty
  · rfl
  · rfl
  · rw [deliverAll_append]
    rfl

/-- A read moves bytes from the ring to the receiver. -/
theorem Attached.read {bytes : List UInt8} (h : Attached net fd c)
    (hholds : Holds (net.sockets fd).toKernSocket bytes) (hne : (net.sockets fd).rxLen ≠ 0)
    (maxlen : ℕ) : let k := min (net.sockets fd).rxLen maxlen
    Attached (recvRead net fd maxlen).2 fd c ∧ (recvRead net fd maxlen).1 = (k : ℕ) ∧
      Holds ((recvRead net fd maxlen).2.sockets fd).toKernSocket (bytes.drop k) ∧
      (recvRead net fd maxlen).2.received fd = net.received fd ++ bytes.take k := by
  obtain ⟨hret, hout, hstate, hrest⟩ := hholds.read hne maxlen
  have hsocket : (recvRead net fd maxlen).2.sockets fd = { net.sockets fd with
      toKernSocket := (rxbufRead (net.sockets fd).toKernSocket maxlen false).2 } :=
    update_self ..
  refine ⟨⟨h.inTable, ?_, ?_, h.appstate⟩, hret, ?_, ?_⟩
  · rw [hsocket]
    show (rxbufRead (net.sockets fd).toKernSocket maxlen false).2.state ≠ _
    rw [hstate]
    exact h.used
  · rw [hsocket]
    exact h.conn
  · rw [hsocket]
    exact hrest
  · show update net.received fd _ fd = _
    rw [update_self, hout]

theorem recvRead_empty (h : (net.sockets fd).rxLen = 0) (maxlen : ℕ) :
    recvRead net fd maxlen = (0, net) := by
  have hread : rxbufRead (net.sockets fd).toKernSocket maxlen false =
      (⟨0, [], none⟩, (net.sockets fd).toKernSocket) := by
    simp [rxbufRead, h]
  unfold recvRead
  rw [hread]
  simp [Net.set]

section

variable (h : Serves net fd c)
include h

theorem Serves.read (maxlen : ℕ) :
    Serves (recvRead net fd maxlen).2 fd c := by
  by_cases hne : (net.sockets fd).rxLen = 0
  · rw [recvRead_empty hne]
    exact h
  rcases h.stream with ⟨bytes, hholds, hbytes⟩ | ⟨-, hlen, -⟩
  · obtain ⟨hattached, -, hrest, hrec⟩ := h.toAttached.read hholds hne maxlen
    refine ⟨hattached, .inl ⟨_, hrest, ?_⟩⟩
    rw [hrec, append_assoc, take_append_drop, hbytes]
    rfl
  · exact absurd hlen hne

/-- A read on another entry leaves the socket alone. -/
theorem Serves.read_of_ne {k : ℕ} (hk : fd ≠ k) (maxlen : ℕ) :
    Serves (recvRead net k maxlen).2 fd c := by
  have hsocket : (recvRead net k maxlen).2.sockets fd = net.sockets fd :=
    update_of_ne hk ..
  have hrec : (recvRead net k maxlen).2.received fd = net.received fd :=
    update_of_ne hk ..
  refine ⟨⟨h.inTable, ?_, ?_, h.appstate⟩, ?_⟩
  · rw [hsocket]; exact h.used
  · rw [hsocket]; exact h.conn
  · rw [hsocket, hrec]; exact h.stream

/-- A receive call on any socket keeps the stream whole. -/
theorem Serves.recv
    (hroom : Admitted net sockfd → RoomForAll net fd c (recvTaken net sockfd.toNat batches late)) :
    Serves (recvCall net sockfd len batches late).2 fd c := by
  by_cases hadmitted : Admitted net sockfd
  · rw [recvCall_of_admitted hadmitted]
    have hafter := h.deliver (hroom hadmitted)
    simp only
    split_ifs with hempty
    · exact hafter
    · exact hafter
    · by_cases hfd : fd = sockfd.toNat
      · subst hfd
        exact hafter.read _
      · exact hafter.read_of_ne hfd _
  · rw [recvCall_of_not_admitted hadmitted]
    exact h

/-- Segments only add to the ring. -/
theorem Serves.rxLen_le {gs : List Segment} (hroom : RoomForAll net fd c gs) :
    (net.sockets fd).rxLen ≤ ((deliverAll net gs).sockets fd).rxLen := by
  induction gs generalizing net with
  | nil => exact le_refl _
  | cons g gs ih =>
    refine le_trans ?_ (ih (h.event hroom.1) hroom.2)
    rcases h.stream with ⟨bytes, hholds, -⟩ | ⟨-, hlen, -⟩
    · by_cases hid : g.conn.id = c
      · have hring := h.toAttached.holds_segment hholds hid
        rw [hring.rxLen_eq, hholds.rxLen_eq, length_append]
        omega
      · obtain ⟨state, tx, close, -, hsocket⟩ := h.toAttached.uipAppcall_socket g
        rw [hsocket, if_neg hid]
    · rw [hlen]
      exact Nat.zero_le _

end

/-- A receive call on a socket that has data does not wait. -/
theorem recvCall_of_data (h : Attached net fd c) (hdata : 0 < (net.sockets fd).rxLen) :
    recvCall net fd len batches late = recvRead (deliverAll net late) fd (len % 2 ^ 16).toNat := by
  have hin : InTable fd := ⟨Int.natCast_nonneg fd, Int.ofNat_lt.mpr h.inTable⟩
  have hwait : waitTaken net fd batches = [] := if_neg (by omega)
  have htaken : recvTaken net fd batches late = late := by
    have hne : ¬((deliverAll net []).sockets fd).rxLen = 0 := by
      show ¬(net.sockets fd).rxLen = 0
      omega
    unfold recvTaken
    rw [hwait, if_neg hne, nil_append]
  rw [recvCall_of_admitted ⟨hin, h.used⟩]
  simp only [Int.toNat_natCast, hwait, htaken]
  rw [if_neg]
  show ¬(net.sockets fd).rxLen = 0
  omega

end Recv

/-- What can happen while the connection is up. -/
inductive StreamEvent where
  | segment (g : Segment)
  | recv (sockfd len : ℤ) (batches : List (List Segment)) (late : List Segment)

def streamStep (net : Net) : StreamEvent → Option Net
  | .segment g => some (uipAppcall net g.appcall)
  | .recv sockfd len batches late => some (recvCall net sockfd len batches late).2

/-- No segment of the connection finds the ring too full, whether it arrives between the
calls or while a receive call polls. -/
def StreamFits (fd c : ℕ) (net : Net) : StreamEvent → Prop
  | .segment g => RoomFor net fd c g
  | .recv sockfd _ batches late =>
    Admitted net sockfd → RoomForAll net fd c (recvTaken net sockfd.toNat batches late)

instance (fd c : ℕ) (net : Net) : DecidablePred (StreamFits fd c net)
  | .segment g => inferInstanceAs (Decidable (RoomFor net fd c g))
  | .recv _ _ _ _ => inferInstanceAs (Decidable (_ → _))

/-- A stream socket whose connection has just come up. -/
structure Established (net : Net) (fd c : ℕ) : Prop extends Attached net fd c where
  state : (net.sockets fd).state = .connected
  type : (net.sockets fd).type = .stream
  size : (net.sockets fd).rxBuf.isSome → (net.sockets fd).rxBufSize = SOCK_RXBUF_SIZE
  head : (net.sockets fd).rxHead = 0
  tail : (net.sockets fd).rxTail = 0
  len : (net.sockets fd).rxLen = 0
  received : net.received fd = []
  delivered : net.delivered c = []

section Runs

variable {net : Net} {fd c : ℕ}

theorem Established.serves (h : Established net fd c) : Serves net fd c := by
  refine ⟨h.toAttached, ?_⟩
  cases hbuf : (net.sockets fd).rxBuf with
  | none =>
    right
    rw [h.received]
    exact ⟨rfl, h.len, nil_prefix⟩
  | some buf =>
    left
    refine ⟨[], ⟨h.type, h.size (by rw [hbuf]; rfl), buf, hbuf, ?_⟩, ?_⟩
    · rw [h.head, h.tail, h.len]
      exact ⟨rfl, by decide, by decide, rfl⟩
    · rw [h.received, h.delivered]; rfl

theorem Serves.step {event : StreamEvent} (h : Serves net fd c)
    (hfits : StreamFits fd c net event) :
    ∃ net', streamStep net event = some net' ∧ Serves net' fd c := by
  cases event with
  | segment g => exact ⟨_, rfl, h.event hfits⟩
  | recv sockfd len batches late => exact ⟨_, rfl, h.recv hfits⟩

/-- A receive call returns what the length and the ring allow. -/
theorem Serves.recv_returns {len : ℤ} {batches : List (List Segment)} {late : List Segment}
    (h : Serves net fd c) (hpos : 0 < len) (hmax : len < 65536)
    (hdata : 0 < (net.sockets fd).rxLen) (hlate : RoomForAll net fd c late) :
    let k := min len.toNat ((deliverAll net late).sockets fd).rxLen
    0 < k ∧ (recvCall net fd len batches late).1 = (k : ℕ) ∧
      ((recvCall net fd len batches late).2.received fd).length =
        ((deliverAll net late).received fd).length + k := by
  have hmod : (len % 2 ^ 16).toNat = len.toNat := by
    rw [Int.emod_eq_of_lt (by omega) (by omega)]
  have hmore := h.rxLen_le hlate
  have hafter := h.deliver hlate
  have hne : ((deliverAll net late).sockets fd).rxLen ≠ 0 := by omega
  rw [recvCall_of_data h.toAttached hdata, hmod]
  rcases hafter.stream with ⟨bytes, hholds, -⟩ | ⟨-, hlen, -⟩
  · obtain ⟨-, hret, -, hrec⟩ := hafter.toAttached.read hholds hne len.toNat
    refine ⟨by omega, ?_, ?_⟩
    · rw [hret, Nat.min_comm]
    · rw [hrec, length_append, length_take, hholds.rxLen_eq, Nat.min_comm]
      omega
  · exact absurd hlen hne

/-- While no segment of the connection is lost for lack of space, the bytes received are a
prefix of the bytes delivered, and a receive call that finds data returns as much of it as
its length allows. -/
theorem stream_received_in_order (h : Established net fd c) {events : List StreamEvent}
    (hfits : Along streamStep (StreamFits fd c) net events) :
    ∃ net', run streamStep net events = some net' ∧
      net'.received fd <+: net'.delivered c ∧
      ∀ (len : ℤ) (batches : List (List Segment)) (late : List Segment), 0 < len → len < 65536 →
        0 < (net'.sockets fd).rxLen → RoomForAll net' fd c late →
        let k := min len.toNat ((deliverAll net' late).sockets fd).rxLen
        0 < k ∧ (recvCall net' fd len batches late).1 = (k : ℕ) ∧
          ((recvCall net' fd len batches late).2.received fd).length =
            ((deliverAll net' late).received fd).length + k := by
  obtain ⟨net', hrun, hserves⟩ := run_invariant
    (fun s event hs hP => Serves.step hs hP) events net h.serves hfits
  exact ⟨net', hrun, hserves.received_prefix,
    fun len batches late hpos hmax hdata hlate => hserves.recv_returns hpos hmax hdata hlate⟩

end Runs

section Lost

variable {net : Net} {fd c : ℕ} {bytes : List UInt8}

/-- A receive call with room for everything empties the ring. -/
theorem Attached.read_all (h : Attached net fd c)
    (hholds : Holds (net.sockets fd).toKernSocket bytes) (hne : bytes ≠ []) :
    Attached (recvCall net fd 65535 [] []).2 fd c ∧
      Holds ((recvCall net fd 65535 [] []).2.sockets fd).toKernSocket [] ∧
      (recvCall net fd 65535 [] []).2.received fd = net.received fd ++ bytes ∧
      (recvCall net fd 65535 [] []).2.delivered = net.delivered := by
  have hlen := hholds.rxLen_eq
  have hpos : 0 < bytes.length := length_pos_of_ne_nil hne
  obtain ⟨_, -, hring⟩ := hholds.ring
  have hfits := hring.fits
  have hcall : recvCall net fd 65535 [] [] = recvRead net fd 65535 :=
    recvCall_of_data h (by omega)
  have hk : min (net.sockets fd).rxLen 65535 = bytes.length := by
    simp only [SOCK_RXBUF_SIZE] at hfits
    omega
  obtain ⟨hattached, -, hrest, hrec⟩ := h.read hholds (by omega) 65535
  rw [hk, drop_length] at hrest
  rw [hk, take_length] at hrec
  rw [hcall]
  exact ⟨hattached, hrest, hrec, rfl⟩

/-- Once a segment has been lost, two reads with one more byte in between return bytes that
were never sent in that order. -/
theorem Attached.lost_segment {g last : Segment} {x b : UInt8} {xs : List UInt8}
    (h : Attached net fd c) (hholds : Holds (net.sockets fd).toKernSocket bytes)
    (hstream : net.received fd ++ bytes = net.delivered c) (hne : bytes ≠ [])
    (hid : g.conn.id = c) (hg : Datagram.bytesAt g.data g.len = x :: xs)
    (hfull : ¬(net.sockets fd).rxLen + g.len.toNat ≤ (net.sockets fd).rxBufSize)
    (hlast : last.conn.id = c) (hb : Datagram.bytesAt last.data last.len = [b]) (hxb : b ≠ x) :
    ∃ net', run streamStep net [.segment g, .recv fd 65535 [] [], .segment last,
        .recv fd 65535 [] []] = some net' ∧ ¬net'.received fd <+: net'.delivered c := by
  refine ⟨_, rfl, ?_⟩
  -- The lost segment: delivered, but not in the ring.
  have h₁ := h.segment g
  have hring₁ := h.holds_segment hholds hid
  rw [if_neg hfull, append_nil] at hring₁
  obtain ⟨hrec₁, -, hdel₁⟩ := uipAppcall_logs net g
  obtain ⟨h₂, hring₂, hrec₂, hdel₂⟩ := h₁.read_all hring₁ hne
  -- One more byte, which fits into the empty ring.
  have h₃ := h₂.segment last
  have hring₃ := h₂.holds_segment hring₂ hlast
  have hone : last.len.toNat = 1 := by
    have := congrArg length hb
    rwa [length_bytesAt, length_singleton] at this
  have hfit : ((recvCall (uipAppcall net g.appcall) fd 65535 [] []).2.sockets fd).rxLen +
      last.len.toNat ≤ ((recvCall (uipAppcall net g.appcall) fd 65535 [] []).2.sockets
        fd).rxBufSize := by
    rw [hring₂.rxLen_eq, hring₂.size, hone]
    decide
  rw [if_pos hfit, hb, nil_append] at hring₃
  obtain ⟨hrec₃, -, hdel₃⟩ := uipAppcall_logs
    (recvCall (uipAppcall net g.appcall) fd 65535 [] []).2 last
  obtain ⟨-, -, hrec₄, hdel₄⟩ := h₃.read_all hring₃ (by simp)
  show ¬(recvCall (uipAppcall (recvCall (uipAppcall net g.appcall) fd 65535 [] []).2
    last.appcall) fd 65535 [] []).2.received fd <+: _
  rw [hrec₄, hrec₃, hrec₂, hrec₁, hstream]
  show ¬_ <+: (recvCall (uipAppcall (recvCall (uipAppcall net g.appcall) fd 65535 [] []).2
    last.appcall) fd 65535 [] []).2.delivered c
  rw [hdel₄, hdel₃, hlast, update_self, hdel₂, hdel₁, hid, update_self, hg,
    append_assoc, prefix_append_right_inj]
  intro hpre
  obtain ⟨rest, hrest⟩ := hpre
  exact hxb (cons.inj hrest).1

end Lost

/-- A server socket on port 80. -/
def serverNet : Net :=
  (kernListen (kernBind (kernSocket bootNet true 2 .stream 6).2 0 ⟨2, 80, 0⟩).2 0 1).2

def clientConn : Conn := ⟨3, 80, 5000, 7⟩

/-- The server after a client has connected; its socket is entry 1. -/
def connectedNet : Net :=
  uipAppcall serverNet ⟨clientConn, true, false, false, false, false, false, false, false, false,
    fun _ => 0, 0, true⟩

/-- A segment of the client that carries `len` bytes, all of them `b`. -/
def clientSegment (b : UInt8) (len : UInt16) : Segment :=
  ⟨clientConn, false, false, false, false, false, false, false, fun _ => b, len⟩

theorem established_connectedNet : Established connectedNet 1 3 := by
  refine ⟨⟨?_, ?_, ?_, ?_⟩, ?_, ?_, ?_, ?_, ?_, ?_, ?_, ?_⟩ <;> decide +kernel

/-- Three bytes arrive and two of them are received. -/
theorem stream_received_two_of_three :
    ∃ net, run streamStep connectedNet [.segment (clientSegment 7 3), .recv 1 2 [] []] =
      some net ∧ net.received 1 <+: net.delivered 3 := by
  have hfits : Along streamStep (StreamFits 1 3) connectedNet
      [.segment (clientSegment 7 3), .recv 1 2 [] []] := by decide +kernel
  obtain ⟨net, hrun, hpre, -⟩ := stream_received_in_order established_connectedNet hfits
  exact ⟨net, hrun, hpre⟩

theorem run_segments (net : Net) (gs : List Segment) :
    run streamStep net (gs.map .segment) = some (deliverAll net gs) := by
  induction gs generalizing net with
  | nil => rfl
  | cons g gs ih => exact ih _

/-- In a socket that holds 32120 bytes the next full segment is lost, and a length of 65536
becomes zero on its way to the ring. -/
theorem Serves.nearly_full {net : Net} (h : Serves net 1 3) (hlen : (net.sockets 1).rxLen = 32120) :
    (∃ net', run streamStep net [.segment (clientSegment 0 1460), .recv (1 : ℕ) 65535 [] [],
        .segment (clientSegment 1 1), .recv (1 : ℕ) 65535 [] []] = some net' ∧
      ¬net'.received 1 <+: net'.delivered 3) ∧
    (recvCall net (1 : ℕ) 65536 [] []).1 = 0 := by
  rcases h.stream with ⟨bytes, hholds, hstream⟩ | ⟨-, hzero, -⟩
  · have hne : bytes ≠ [] := by
      rintro rfl
      exact absurd (hlen.symm.trans hholds.rxLen_eq) (by decide)
    have hbytes : Datagram.bytesAt (clientSegment 0 1460).data (clientSegment 0 1460).len =
        0 :: (range 1459).map fun _ => 0 := by
      rw [Datagram.bytesAt, show (clientSegment 0 1460).len.toNat = 1459 + 1 from rfl,
        range_succ_eq_map, map_cons, map_map]
      rfl
    constructor
    · exact Attached.lost_segment h.toAttached hholds hstream hne rfl hbytes
        (by rw [hlen, hholds.size]; decide) rfl (by decide) (by decide : (1 : UInt8) ≠ 0)
    · have hcall : recvCall net (1 : ℕ) 65536 [] [] = recvRead net 1 0 :=
        recvCall_of_data h.toAttached (by omega)
      obtain ⟨-, hret, -⟩ := h.toAttached.read hholds (by omega) 0
      rw [hcall, hret, Nat.min_zero]
      rfl
  · omega

/-- 22 segments of 1460 bytes fill the ring up to 32120 bytes. -/
def fullSegments : List Segment := replicate 22 (clientSegment 0 1460)

/-- The 23rd segment of 1460 bytes is lost, although the stack acknowledges it; and a receive
call with the length 65536 returns nothing although there is data. -/
theorem stream_loses_segment : (∃ net, run streamStep connectedNet (fullSegments.map .segment ++
        [.segment (clientSegment 0 1460), .recv (1 : ℕ) 65535 [] [],
          .segment (clientSegment 1 1), .recv (1 : ℕ) 65535 [] []]) = some net ∧
      ¬net.received 1 <+: net.delivered 3) ∧
    ∃ net, run streamStep connectedNet (fullSegments.map .segment) = some net ∧
      0 < (net.sockets 1).rxLen ∧ (recvCall net (1 : ℕ) 65536 [] []).1 = 0 := by
  have hroom : RoomForAll connectedNet 1 3 fullSegments := by decide +kernel
  have hlen : ((deliverAll connectedNet fullSegments).sockets 1).rxLen = 32120 := by
    decide +kernel
  obtain ⟨hlost, hnothing⟩ := (established_connectedNet.serves.deliver hroom).nearly_full hlen
  rw [run_append, run_segments, Option.bind_some]
  refine ⟨hlost, deliverAll connectedNet fullSegments, rfl, ?_, hnothing⟩
  rw [hlen]
  decide

end Sodex.Tcp
