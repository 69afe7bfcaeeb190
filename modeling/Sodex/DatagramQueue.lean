import Sodex.DatagramSocket
import Sodex.Runs

/-!
# The datagram queue

A socket is related to the queue of the datagrams it holds. The byte ring carries
their bytes end to end and the metadata arrays their lengths and sources. A write
that is recorded appends a datagram, and a read takes the first one off.

The relation needs a free metadata entry at each write that is stored. A
seventeenth stored packet would leave bytes in the ring that no entry accounts for.
-/
namespace Sodex.Datagram

open RingBuffer Runs List Option Function

structure Dgram where
  bytes : List UInt8
  source : SockAddrIn
  deriving DecidableEq, Repr

/-- The recorded packet lengths. -/
def boundaries (sk : KernSocket) : List ℕ := (range sk.rxPktCount).map sk.rxPktBoundary

/-- The recorded source addresses. -/
def sources (sk : KernSocket) : List SockAddrIn := (range sk.rxPktCount).map sk.rxFrom

/-- The socket holds exactly the datagrams `q`, oldest first. -/
structure QInv (sk : KernSocket) (q : List Dgram) : Prop where
  packet : isPacketType sk.type = true
  ring : ∀ buf ∈ sk.rxBuf, sk.rxBufSize = SOCK_RXBUF_SIZE ∧
    Filled SOCK_RXBUF_SIZE buf sk.rxHead sk.rxTail sk.rxLen (q.flatMap Dgram.bytes)
  alloc : sk.rxBuf = none → q = []
  nonempty : ∀ d ∈ q, 0 < d.bytes.length
  room : sk.rxPktCount ≤ RX_PKT_MAX
  bounds : boundaries sk = q.map fun d => d.bytes.length
  srcs : sources sk = q.map Dgram.source
  len : sk.rxLen = (q.flatMap Dgram.bytes).length

/-- A socket as `kern_socket` leaves it, up to fields that do not concern the queue. -/
structure Fresh (sk : KernSocket) : Prop where
  packet : isPacketType sk.type = true
  size : sk.rxBuf.isSome → sk.rxBufSize = SOCK_RXBUF_SIZE
  head : sk.rxHead = 0
  tail : sk.rxTail = 0
  len : sk.rxLen = 0
  count : sk.rxPktCount = 0

section Metadata

variable {α : Type*} (f : ℕ → α)

theorem map_range_update (n : ℕ) (x : α) :
    (range (n + 1)).map (update f n x) = (range n).map f ++ [x] := by
  rw [range_succ, map_append]
  simp only [map_cons, update_self, map_nil, append_cancel_right_eq]
  exact map_congr_left fun i hi => update_of_ne (mem_range.mp hi).ne _ _

theorem foldl_shift (n i : ℕ) : (range n).foldl (fun f i => update f i (f (i + 1))) f i =
      if i < n then f (i + 1) else f i := by
  induction n generalizing i with
  | zero => simp
  | succ n ih =>
    rw [range_succ, foldl_concat]
    by_cases hi : i = n
    · subst hi
      rw [update_self, ih]
      simp
    · rw [update_of_ne hi, ih]
      have hlt : i < n + 1 ↔ i < n := by omega
      simp only [hlt]

theorem map_range_shiftDown (n : ℕ) :
    (List.range n).map (shiftDown f (n + 1)) = ((List.range (n + 1)).map f).tail := by
  rw [range_succ_eq_map, map_cons, tail_cons, List.map_map]
  refine map_congr_left fun i hi => ?_
  rw [shiftDown, Nat.add_sub_cancel, foldl_shift, if_pos (mem_range.mp hi)]
  rfl

end Metadata

section Socket

variable {sk : KernSocket} {q : List Dgram} {d : Dgram} {data : ℕ → UInt8} {len : UInt16}
  {src : SockAddrIn}

/-- The bytes of a packet are stored: it is not empty and the ring has space. -/
def Stores (sk : KernSocket) (len : UInt16) : Prop :=
  len ≠ 0 ∧ sk.rxBuf.isSome ∧ sk.rxLen + len.toNat ≤ sk.rxBufSize

instance (sk : KernSocket) (len : UInt16) : Decidable (Stores sk len) :=
  inferInstanceAs (Decidable (_ ∧ _ ∧ _))

/-- A packet that is not stored leaves no trace. -/
theorem rxbufWrite_dropped {src : Option SockAddrIn} (h : ¬ Stores sk len) :
    (rxbufWrite sk data len src).1 ≤ 0 ∧ (rxbufWrite sk data len src).2 = sk := by
  unfold rxbufWrite
  by_cases hzero : len = 0
  · simp [hzero]
  · rw [if_neg hzero]
    cases hbuf : sk.rxBuf with
    | none => simp
    | some buf =>
      have hfull : sk.rxBufSize < sk.rxLen + len.toNat := by
        by_contra hle
        exact h ⟨hzero, by simp [hbuf], by omega⟩
      simp [hfull]

theorem rxbufWrite_stored {src : Option SockAddrIn} (h : Stores sk len) :
    (rxbufWrite sk data len src).1 = len.toNat := by
  obtain ⟨hzero, hbuf, hfit⟩ := h
  obtain ⟨buf, hbuf⟩ := isSome_iff_exists.mp hbuf
  simp only [rxbufWrite, if_neg hzero, hbuf, if_neg (not_lt.mpr hfit)]
  split_ifs <;> rfl

theorem length_bytesAt : (bytesAt data len).length = len.toNat := by simp [bytesAt]

theorem toNat_pos_of_ne_zero (h : len ≠ 0) : 0 < len.toNat :=
  Nat.pos_of_ne_zero fun h0 => h (UInt16.toNat_inj.mp h0)

/-- A stored packet with a free metadata entry is appended to the queue. -/
theorem QInv.write (hq : QInv sk q) (hst : Stores sk len) (hroom : sk.rxPktCount < RX_PKT_MAX) :
    QInv (rxbufWrite sk data len (some src)).2 (q ++ [⟨bytesAt data len, src⟩]) := by
  obtain ⟨hzero, hbuf, hfit⟩ := hst
  obtain ⟨buf, hbuf⟩ := isSome_iff_exists.mp hbuf
  obtain ⟨hsize, hring⟩ := hq.ring buf hbuf
  rw [hsize] at hfit
  have hwrap : (sk.rxLen + len.toNat) % 2 ^ 16 = sk.rxLen + len.toNat :=
    Nat.mod_eq_of_lt (lt_of_le_of_lt hfit (by decide))
  have hval : (rxbufWrite sk data len (some src)).2 = { sk with
      rxBuf := some (push SOCK_RXBUF_SIZE buf sk.rxHead (bytesAt data len)).1
      rxHead := (push SOCK_RXBUF_SIZE buf sk.rxHead (bytesAt data len)).2
      rxLen := sk.rxLen + len.toNat
      rxFrom := update sk.rxFrom sk.rxPktCount src
      rxPktBoundary := update sk.rxPktBoundary sk.rxPktCount len.toNat
      rxPktCount := sk.rxPktCount + 1 } := by
    simp only [rxbufWrite, if_neg hzero, hbuf, hsize, if_neg (not_lt.mpr hfit), if_pos hroom,
      hwrap, getD_some]
  rw [hval]
  rw [← @length_bytesAt data] at hfit
  refine ⟨hq.packet, ?_, by simp, ?_, hroom, ?_, ?_, ?_⟩
  · rintro buf' hbuf'
    obtain rfl := some.inj hbuf'
    refine ⟨hsize, ?_⟩
    have hpush := hring.push hfit
    rw [length_bytesAt] at hpush
    simpa using hpush
  · intro d hd
    rcases mem_append.mp hd with hd | hd
    · exact hq.nonempty d hd
    · rw [mem_singleton.mp hd, length_bytesAt]
      exact toNat_pos_of_ne_zero hzero
  · have hb := hq.bounds
    simp only [boundaries] at hb ⊢
    rw [map_range_update, hb]
    simp [length_bytesAt]
  · have hs := hq.srcs
    simp only [sources] at hs ⊢
    rw [map_range_update, hs]
    simp
  · rw [flatMap_append, length_append, ← hq.len]
    simp [length_bytesAt]

/-- The receipt for the datagram `d`. -/
def receiptFor (d : Dgram) (maxlen : ℕ) (wantAddr : Bool) : Receipt where
  ret := (min d.bytes.length maxlen : ℕ)
  bytes := d.bytes.take (min d.bytes.length maxlen)
  addr := if wantAddr then some d.source else none

/-- A `u_int16_t` difference that does not wrap. -/
theorem sub_u16 {a b : ℕ} (hba : b ≤ a) (ha : a < 2 ^ 16) : (a + (2 ^ 16 - b)) % 2 ^ 16 = a - b := by
  have hadd : a + (2 ^ 16 - b) = a - b + 2 ^ 16 := by omega
  rw [hadd, Nat.add_mod_right, Nat.mod_eq_of_lt (by omega)]

/-- A read takes the oldest datagram off the queue, whatever part of it is returned. -/
theorem QInv.read (hq : QInv sk (d :: q)) (maxlen : ℕ) (wantAddr : Bool) :
    (rxbufRead sk maxlen wantAddr).1 = receiptFor d maxlen wantAddr ∧
      QInv (rxbufRead sk maxlen wantAddr).2 q := by
  have hdpos := hq.nonempty d (by simp)
  have hlen := hq.len
  rw [flatMap_cons, length_append] at hlen
  have hne : sk.rxLen ≠ 0 := by omega
  have hsmall : SOCK_RXBUF_SIZE < 2 ^ 16 := by decide
  obtain ⟨buf, hbuf⟩ : ∃ buf, sk.rxBuf = some buf := by
    cases h : sk.rxBuf with
    | none => exact absurd (hq.alloc h) (by simp)
    | some buf => exact ⟨buf, rfl⟩
  obtain ⟨hsize, hring⟩ := hq.ring buf hbuf
  have hfits := hring.fits
  -- The metadata of the oldest packet stands at index zero.
  obtain ⟨n, hn⟩ : ∃ n, sk.rxPktCount = n + 1 := by
    have := congrArg length hq.bounds
    simp only [boundaries, length_map, length_range, length_cons] at this
    exact ⟨q.length, this⟩
  have hbounds := hq.bounds
  have hsrcs := hq.srcs
  rw [boundaries, hn, range_succ_eq_map, map_cons, map_cons] at hbounds
  rw [sources, hn, range_succ_eq_map, map_cons, map_cons] at hsrcs
  have hb0 : sk.rxPktBoundary 0 = d.bytes.length := (cons.inj hbounds).1
  have hs0 : sk.rxFrom 0 = d.source := (cons.inj hsrcs).1
  generalize hk : min d.bytes.length maxlen = k
  have hkd : k ≤ d.bytes.length := by omega
  have hval : rxbufRead sk maxlen wantAddr =
      (receiptFor d maxlen wantAddr, { sk with
        rxTail := (sk.rxTail + d.bytes.length) % SOCK_RXBUF_SIZE
        rxLen := sk.rxLen - d.bytes.length
        rxFrom := shiftDown sk.rxFrom (n + 1)
        rxPktBoundary := shiftDown sk.rxPktBoundary (n + 1)
        rxPktCount := n }) := by
    have hpacket : (isPacketType sk.type && decide (0 < n + 1)) = true := by simp [hq.packet]
    have hskip : ((sk.rxTail + k) % SOCK_RXBUF_SIZE + (d.bytes.length - k)) % SOCK_RXBUF_SIZE =
        (sk.rxTail + d.bytes.length) % SOCK_RXBUF_SIZE := by
      rw [Nat.mod_add_mod]
      congr 1
      omega
    have hrest : sk.rxLen - k - (d.bytes.length - k) = sk.rxLen - d.bytes.length := by omega
    have htake : content buf SOCK_RXBUF_SIZE sk.rxTail k = d.bytes.take k := by
      rw [(hring.drop (by omega)).1, flatMap_cons, take_append_of_le_length hkd]
    simp only [rxbufRead, if_neg hne, hn, hpacket, if_true, hb0, hk, hsize, hbuf, getD_some,
      pop_eq hring.tail_lt, pop_eq (Nat.mod_lt (sk.rxTail + k) (by decide : 0 < SOCK_RXBUF_SIZE)),
      Bool.true_and, hs0, receiptFor, Nat.add_sub_cancel]
    -- No difference wraps.
    rw [sub_u16 (by omega) (by omega : sk.rxLen < _), sub_u16 hkd (by omega),
      sub_u16 (by omega) (by omega), hskip, hrest, htake]
  rw [hval]
  refine ⟨rfl, hq.packet, ?_, fun h => absurd (h.symm.trans hbuf) (by simp), ?_, ?_, ?_, ?_, ?_⟩
  · intro buf' hbuf'
    obtain rfl : buf = buf' := some.inj (hbuf.symm.trans hbuf')
    have hdrop := (hring.drop (by omega : d.bytes.length ≤ sk.rxLen)).2
    rw [flatMap_cons, drop_left] at hdrop
    exact ⟨hsize, hdrop⟩
  · exact fun e he => hq.nonempty e (mem_cons_of_mem _ he)
  · have := hq.room
    show n ≤ RX_PKT_MAX
    omega
  · rw [boundaries]
    show (range n).map (shiftDown sk.rxPktBoundary (n + 1)) = _
    rw [map_range_shiftDown, ← hn]
    exact congrArg tail hq.bounds
  · rw [sources]
    show (range n).map (shiftDown sk.rxFrom (n + 1)) = _
    rw [map_range_shiftDown, ← hn]
    exact congrArg tail hq.srcs
  · show sk.rxLen - d.bytes.length = _
    omega

end Socket

section Table

variable {t : SocketTable} {fd : ℕ} {q : List Dgram} {a : Arrival}

/-- The arguments of a call of `rxbuf_write`. -/
structure Incoming where
  data : ℕ → UInt8
  len : UInt16
  src : SockAddrIn

/-- The write that a packet causes on the socket `fd`. -/
def incoming (t : SocketTable) (fd : ℕ) : Arrival → Option Incoming
  | .udp conn data len uipBuf =>
    if (range MAX_SOCKETS).find? (fun i =>
        (t i).state ≠ .unused ∧ (t i).type = .dgram ∧ (t i).udpConn = conn) = some fd then
      some ⟨data, len, udpSource uipBuf⟩
    else none
  | .icmp pkt len =>
    if pkt 9 = 1 ∧ pkt (ipHdrLen pkt) = 0 ∧ fd < MAX_SOCKETS ∧ wantsIcmp (t fd) then
      some ⟨fun k => pkt (ipHdrLen pkt + k), icmpLen pkt len, icmpSource pkt⟩
    else none

/-- A loop that rewrites the selected entries of a table, each from itself. -/
theorem foldl_update_apply {β : Type*} (p : β → Bool) (f : β → β) (l : List ℕ) (hl : l.Nodup)
    (t : ℕ → β) (k : ℕ) :
    l.foldl (fun t i => if p (t i) then update t i (f (t i)) else t) t k =
      if k ∈ l ∧ p (t k) then f (t k) else t k := by
  induction l generalizing t with
  | nil => simp
  | cons i l ih =>
    obtain ⟨hi, hl⟩ := nodup_cons.mp hl
    rw [foldl_cons, ih hl]
    by_cases hki : k = i
    · subst hki
      simp only [hi, false_and, if_false, mem_cons_self, true_and]
      split_ifs <;> simp
    · have hmem : k ∈ i :: l ↔ k ∈ l := by simp [hki]
      simp only [hmem]
      split_ifs <;> simp_all

/-- A packet acts on one socket by at most one `rxbuf_write`. -/
theorem deliver_apply (t : SocketTable) (a : Arrival) (fd : ℕ) :
    deliver t a fd = match incoming t fd a with
      | none => t fd
      | some w => (rxbufWrite (t fd) w.data w.len (some w.src)).2 := by
  cases a with
  | udp conn data len uipBuf =>
    simp only [deliver, socketUdpInput, incoming]
    cases hfind : (range MAX_SOCKETS).find? (fun i =>
        (t i).state ≠ .unused ∧ (t i).type = .dgram ∧ (t i).udpConn = conn) with
    | none => simp
    | some i =>
      by_cases hi : i = fd
      · subst hi
        simp
      · have : fd ≠ i := fun h => hi h.symm
        simp [hi, this]
  | icmp pkt len =>
    simp only [deliver, socketIcmpInput, incoming]
    by_cases hproto : pkt 9 = 1
    · by_cases htype : pkt (ipHdrLen pkt) = 0
      · simp only [hproto, htype, ne_eq, not_true_eq_false, if_false, true_and]
        rw [foldl_update_apply wantsIcmp (fun sk => (rxbufWrite sk
          (fun k => pkt (ipHdrLen pkt + k)) (icmpLen pkt len) (some (icmpSource pkt))).2)
          _ nodup_range]
        simp only [mem_range]
        split_ifs <;> rfl
      · simp [hproto, htype]
    · simp [hproto]

/-- The datagram that a packet adds to the socket `fd`, if its write reports success. -/
def acceptedBy (t : SocketTable) (fd : ℕ) (a : Arrival) : List Dgram :=
  match incoming t fd a with
  | none => []
  | some w =>
    if 0 < (rxbufWrite (t fd) w.data w.len (some w.src)).1 then [⟨bytesAt w.data w.len, w.src⟩]
    else []

/-- If the bytes of the packet are stored on `fd`, then a metadata entry is free. -/
def Records (t : SocketTable) (fd : ℕ) (a : Arrival) : Prop :=
  ∀ w ∈ incoming t fd a, Stores (t fd) w.len → (t fd).rxPktCount < RX_PKT_MAX

instance (t : SocketTable) (fd : ℕ) (a : Arrival) : Decidable (Records t fd a) :=
  inferInstanceAs (Decidable (∀ w ∈ incoming t fd a, Stores (t fd) w.len → _))

theorem QInv.deliver (hq : QInv (t fd) q) (hrec : Records t fd a) :
    QInv (deliver t a fd) (q ++ acceptedBy t fd a) := by
  rw [deliver_apply, acceptedBy]
  cases hin : incoming t fd a with
  | none => simpa using hq
  | some w =>
    by_cases hst : Stores (t fd) w.len
    · have hpos : (0 : ℤ) < (rxbufWrite (t fd) w.data w.len (some w.src)).1 := by
        rw [rxbufWrite_stored hst]
        exact_mod_cast toNat_pos_of_ne_zero hst.1
      simp only [if_pos hpos]
      exact hq.write hst (hrec w hin hst)
    · obtain ⟨hneg, hsame⟩ := @rxbufWrite_dropped _ w.data _ (some w.src) hst
      simp only [if_neg (not_lt.mpr hneg), hsame, append_nil]
      exact hq

/-- The datagrams added by packets that come in one after the other. -/
def acceptedAll (t : SocketTable) (fd : ℕ) : List Arrival → List Dgram
  | [] => []
  | a :: as => acceptedBy t fd a ++ acceptedAll (deliver t a) fd as

def RecordsAll (t : SocketTable) (fd : ℕ) : List Arrival → Prop
  | [] => True
  | a :: as => Records t fd a ∧ RecordsAll (deliver t a) fd as

instance RecordsAll.decidable (fd : ℕ) : ∀ t as, Decidable (RecordsAll t fd as)
  | _, [] => inferInstanceAs (Decidable True)
  | t, a :: as =>
    have := RecordsAll.decidable fd (Datagram.deliver t a) as
    inferInstanceAs (Decidable (Records t fd a ∧ RecordsAll (Datagram.deliver t a) fd as))

theorem QInv.networkPoll (as : List Arrival) (hq : QInv (t fd) q) (hrec : RecordsAll t fd as) :
    QInv (networkPoll t as fd) (q ++ acceptedAll t fd as) := by
  induction as generalizing t q with
  | nil => simpa [acceptedAll, Datagram.networkPoll] using hq
  | cons a as ih =>
    rw [acceptedAll, ← append_assoc]
    exact ih (hq.deliver hrec.1) hrec.2

end Table

section Trace

inductive SockEvent where
  | arrive (a : Arrival)
  | recvfrom (sockfd len : ℤ) (wantAddr : Bool) (batches : List (List Arrival))
      (late : List Arrival)
  | readDirect (sockfd : ℤ) (maxlen : UInt16) (wantAddr : Bool)

/-- A receive call that took a datagram: what the caller asked for and got. -/
structure Delivery where
  maxlen : ℕ
  wantAddr : Bool
  receipt : Receipt
  deriving DecidableEq, Repr

/-- The sockets, and for one of them the datagrams accepted and handed out so far. -/
structure Trace where
  table : SocketTable
  accepted : List Dgram
  received : List Delivery

/-- The packets that `kern_recvfrom` takes in before it reads or gives up. -/
def recvTaken (t : SocketTable) (fd : ℕ) (batches : List (List Arrival)) (late : List Arrival) :
    List Arrival :=
  if (t fd).rxLen = 0 then
    let out := pollLoop t fd batches
    if (out.2 fd).rxLen = 0 then out.1 else out.1 ++ late
  else late

/-- The call passes the checks at the head of `kern_recvfrom`. -/
def Admitted (t : SocketTable) (sockfd : ℤ) : Prop :=
  0 ≤ sockfd ∧ sockfd < MAX_SOCKETS ∧ (t sockfd.toNat).state ≠ .unused

instance (t : SocketTable) (sockfd : ℤ) : Decidable (Admitted t sockfd) :=
  inferInstanceAs (Decidable (_ ∧ _ ∧ _))

/-- Every packet whose bytes are stored on `fd` finds a free metadata entry, and the
length given to `kern_recvfrom` for `fd` fits in its `u_int16_t` parameter. -/
def Fits (fd : ℕ) (s : Trace) : SockEvent → Prop
  | .arrive a => Records s.table fd a
  | .recvfrom sockfd len _ batches late =>
    Admitted s.table sockfd →
      RecordsAll s.table fd (recvTaken s.table sockfd.toNat batches late) ∧
        (sockfd = fd → 0 ≤ len ∧ len < 2 ^ 16)
  | .readDirect _ _ _ => True

instance (fd : ℕ) (s : Trace) : DecidablePred (Fits fd s)
  | .arrive a => inferInstanceAs (Decidable (Records s.table fd a))
  | .recvfrom _ _ _ _ _ => inferInstanceAs (Decidable (_ → _ ∧ _))
  | .readDirect _ _ _ => inferInstanceAs (Decidable True)

variable {t : SocketTable} {fd : ℕ} {s : Trace} {q : List Dgram}

end Trace

end Sodex.Datagram
