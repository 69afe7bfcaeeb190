import Sodex.RingBuffer

/-!
# Datagram sockets of `socket.c`

The receive side of the kernel sockets: the byte ring with its packet metadata,
the two input functions that fill it, and the two receive calls. Memory that a
caller passes by pointer is a function from offsets to bytes. The `u_int16_t`
fields are natural numbers, reduced where the source may wrap.

A poll of the network card delivers a batch of packets; the batches that arrive
before the deadline of a blocking receive are part of its input.
-/
namespace Sodex.Datagram

open RingBuffer

def MAX_SOCKETS : ℕ := 64
def SOCK_RXBUF_SIZE : ℕ := 32768
def AF_INET : ℤ := 2
def IPPROTO_ICMP : ℤ := 1
def SOCK_ERR_EOF : ℤ := -6
def UIP_LLH_LEN : ℕ := 14

/-- Entries of the packet metadata arrays. -/
def RX_PKT_MAX : ℕ := 16

inductive SockState where
  | unused
  | created
  | bound
  | listening
  | connected
  | closed
  | closeWait
  deriving DecidableEq, Repr

/-- The socket type is whatever number the caller of `kern_socket` passed. -/
inductive SockType where
  | stream
  | dgram
  | raw
  | other (type : ℤ)
  deriving DecidableEq, Repr

structure SockAddrIn where
  sinFamily : UInt16
  sinPort : UInt16
  sinAddr : UInt32
  deriving DecidableEq, Repr

/-- The fields of `struct kern_socket` that the receive side uses. -/
structure KernSocket where
  state : SockState
  type : SockType
  protocol : ℤ
  /-- The uIP connection pointer; `none` is the null pointer. -/
  udpConn : Option ℕ
  /-- `none` when the buffer could not be allocated. -/
  rxBuf : Option (ℕ → UInt8)
  rxHead : ℕ
  rxTail : ℕ
  rxLen : ℕ
  rxBufSize : ℕ
  rxFrom : ℕ → SockAddrIn
  rxPktBoundary : ℕ → ℕ
  rxPktCount : ℕ

abbrev SocketTable := ℕ → KernSocket

def bytesAt (data : ℕ → UInt8) (len : UInt16) : List UInt8 := (List.range len.toNat).map data

def zeroAddr : SockAddrIn := ⟨0, 0, 0⟩

/-- `socket_init_entry` with `rxbuf_init`; `palloc` tells whether the buffer was
allocated. -/
def socketInitEntry (palloc : Bool) : KernSocket where
  state := .created
  type := .other 0
  protocol := 0
  udpConn := none
  rxBuf := if palloc then some fun _ => 0 else none
  rxHead := 0
  rxTail := 0
  rxLen := 0
  rxBufSize := if palloc then SOCK_RXBUF_SIZE else 0
  rxFrom _ := zeroAddr
  rxPktBoundary _ := 0
  rxPktCount := 0

/-- `rxbuf_write`. A packet that finds the metadata arrays full is still copied
into the byte ring. -/
def rxbufWrite (sk : KernSocket) (data : ℕ → UInt8) (len : UInt16) (src : Option SockAddrIn) :
    ℤ × KernSocket :=
  if len = 0 then (0, sk)
  else
    match sk.rxBuf with
    | none => (-1, sk)
    | some buf =>
      if sk.rxBufSize < sk.rxLen + len.toNat then (-1, sk)
      else
        let out := push sk.rxBufSize buf sk.rxHead (bytesAt data len)
        let sk := { sk with rxBuf := some out.1, rxHead := out.2,
                            rxLen := (sk.rxLen + len.toNat) % 2 ^ 16 }
        if sk.rxPktCount < RX_PKT_MAX then
          (len.toNat, { sk with
            rxFrom := Function.update sk.rxFrom sk.rxPktCount (src.getD zeroAddr)
            rxPktBoundary := Function.update sk.rxPktBoundary sk.rxPktCount len.toNat
            rxPktCount := sk.rxPktCount + 1 })
        else (len.toNat, sk)

/-- What a receive call hands to its caller. -/
structure Receipt where
  ret : ℤ
  bytes : List UInt8
  addr : Option SockAddrIn
  deriving DecidableEq, Repr

/-- The loop that moves the metadata of the remaining packets down by one. -/
def shiftDown {α : Type*} (f : ℕ → α) (count : ℕ) : ℕ → α :=
  (List.range (count - 1)).foldl (fun f i => Function.update f i (f (i + 1))) f

def isPacketType (type : SockType) : Bool := type = .raw ∨ type = .dgram

/-- `rxbuf_read`; `wantAddr` says that the caller passed an address to fill in. -/
def rxbufRead (sk : KernSocket) (maxlen : ℕ) (wantAddr : Bool) : Receipt × KernSocket :=
  if sk.rxLen = 0 then (⟨0, [], none⟩, sk)
  else
    let packet := isPacketType sk.type && decide (0 < sk.rxPktCount)
    let toRead := if packet then min (sk.rxPktBoundary 0) maxlen else min sk.rxLen maxlen
    let addr := if packet && wantAddr then some (sk.rxFrom 0) else none
    let out := pop sk.rxBufSize (sk.rxBuf.getD fun _ => 0) toRead sk.rxTail
    let sk := { sk with rxTail := out.2, rxLen := (sk.rxLen + (2 ^ 16 - toRead)) % 2 ^ 16 }
    if packet then
      let remaining := (sk.rxPktBoundary 0 + (2 ^ 16 - toRead)) % 2 ^ 16
      let skip := pop sk.rxBufSize (sk.rxBuf.getD fun _ => 0) remaining sk.rxTail
      (⟨toRead, out.1, addr⟩, { sk with
        rxTail := skip.2
        rxLen := (sk.rxLen + (2 ^ 16 - remaining)) % 2 ^ 16
        rxFrom := shiftDown sk.rxFrom sk.rxPktCount
        rxPktBoundary := shiftDown sk.rxPktBoundary sk.rxPktCount
        rxPktCount := sk.rxPktCount - 1 })
    else (⟨toRead, out.1, addr⟩, sk)

/-- A packet handed up by the network stack. -/
inductive Arrival where
  /-- `socket_udp_input`: the connection, the payload, and the packet buffer that
  holds its headers. -/
  | udp (conn : Option ℕ) (data : ℕ → UInt8) (len : UInt16) (uipBuf : ℕ → UInt8)
  /-- `socket_icmp_input`: the packet from its IP header on. -/
  | icmp (pkt : ℕ → UInt8) (len : UInt16)

/-- Four bytes copied into a `u_int32_t`. -/
def word32 (data : ℕ → UInt8) (off : ℕ) : UInt32 :=
  (data off).toUInt32 ||| ((data (off + 1)).toUInt32 <<< 8) |||
    ((data (off + 2)).toUInt32 <<< 16) ||| ((data (off + 3)).toUInt32 <<< 24)

/-- The source address of a UDP packet. -/
def udpSource (uipBuf : ℕ → UInt8) : SockAddrIn where
  sinFamily := 2
  sinPort := ((uipBuf (UIP_LLH_LEN + 20)).toUInt16 <<< 8) ||| (uipBuf (UIP_LLH_LEN + 21)).toUInt16
  sinAddr := word32 uipBuf (UIP_LLH_LEN + 12)

/-- `socket_udp_input`: only the first matching socket gets the packet. -/
def socketUdpInput (t : SocketTable) (conn : Option ℕ) (data : ℕ → UInt8) (len : UInt16)
    (uipBuf : ℕ → UInt8) : SocketTable :=
  match (List.range MAX_SOCKETS).find? fun i =>
      (t i).state ≠ .unused ∧ (t i).type = .dgram ∧ (t i).udpConn = conn with
  | none => t
  | some i => Function.update t i (rxbufWrite (t i) data len (udpSource uipBuf)).2

/-- Length of the IP header of a packet. -/
def ipHdrLen (pkt : ℕ → UInt8) : ℕ := (pkt 0 &&& 0x0f).toNat * 4

/-- The source address of an ICMP packet. -/
def icmpSource (pkt : ℕ → UInt8) : SockAddrIn := ⟨2, 0, word32 pkt 12⟩

/-- The length passed on for an ICMP packet, as a `u_int16_t`. -/
def icmpLen (pkt : ℕ → UInt8) (len : UInt16) : UInt16 := len - (ipHdrLen pkt).toUInt16

/-- A socket that gets ICMP echo replies. -/
def wantsIcmp (sk : KernSocket) : Bool :=
  sk.state ≠ .unused ∧ sk.type = .raw ∧ sk.protocol = IPPROTO_ICMP

/-- `socket_icmp_input`: every raw ICMP socket gets the packet. -/
def socketIcmpInput (t : SocketTable) (pkt : ℕ → UInt8) (len : UInt16) : SocketTable :=
  if pkt 9 ≠ 1 then t
  else if pkt (ipHdrLen pkt) ≠ 0 then t
  else
    (List.range MAX_SOCKETS).foldl (fun t i =>
      if wantsIcmp (t i) then
        Function.update t i (rxbufWrite (t i) (fun k => pkt (ipHdrLen pkt + k)) (icmpLen pkt len)
          (icmpSource pkt)).2
      else t) t

def deliver (t : SocketTable) : Arrival → SocketTable
  | .udp conn data len uipBuf => socketUdpInput t conn data len uipBuf
  | .icmp pkt len => socketIcmpInput t pkt len

/-- `network_poll`: a batch of packets, one after the other. -/
def networkPoll (t : SocketTable) (batch : List Arrival) : SocketTable := batch.foldl deliver t

/-- The polling loop of `kern_recvfrom`, one batch per turn until the deadline. The
first component lists the packets it has taken in. -/
def pollLoop (t : SocketTable) (sockfd : ℕ) : List (List Arrival) → List Arrival × SocketTable
  | [] => ([], t)
  | batch :: batches =>
    let t := networkPoll t batch
    if 0 < (t sockfd).rxLen ∨ (t sockfd).state = .closed ∨ (t sockfd).state = .closeWait then
      (batch, t)
    else
      let out := pollLoop t sockfd batches
      (batch ++ out.1, out.2)

end Sodex.Datagram
