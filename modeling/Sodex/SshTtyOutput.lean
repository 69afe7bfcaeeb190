import Sodex.Newlines
import Sodex.SshOutbound
import Sodex.SshFrames

/-!
# The output of the shell

What one call of `ssh_pump_tty_to_channel` queues: the bytes of each read, translated and
cut into messages. A read is not put back, so what does not fit the window of the client
is lost; within the window the queue always has room for what was read.
-/
namespace Sodex.Ssh

open CInt CtrMode Runs Newlines List

variable {data : List UInt8} (c : Crypto) (s : Server) (tick : UInt32)
  {out : List UInt8 × List UInt8 × Bool} (prevCr : Bool)

/-- A part of the input is taken and translated. When something is left, the room was used up,
except for one byte when the next byte takes two. -/
structure Cooked (prevCr : Bool) (cap : ℕ) (src : List UInt8) (out : List UInt8 × List UInt8 × Bool)
    (used : List UInt8) : Prop where
  split : src = used ++ out.2.1
  bytes : out.1 = cook prevCr used
  flag : out.2.2 = crAfter prevCr used
  fits : out.1.length ≤ cap
  full : ∀ ch rest, out.2.1 = ch :: rest → cap = out.1.length ∨
    cap = out.1.length + 1 ∧ ch = 10 ∧ out.2.2 = false

theorem Cooked.cons {prevCr : Bool} {cap : ℕ} {src used : List UInt8} (ch : UInt8) (new : List UInt8)
    (h : Cooked (ch = 13) cap src out used)
    (hnew : cook prevCr (ch :: used) = new ++ cook (ch = 13) used) :
    Cooked prevCr (cap + new.length) (ch :: src) (new ++ out.1, out.2) (ch :: used) := by
  refine ⟨congrArg (ch :: ·) h.split, ?_, h.flag, ?_, fun next rest heq => ?_⟩
  · rw [hnew, h.bytes]
  · rw [length_append, add_comm]
    exact Nat.add_le_add_right h.fits _
  · rw [length_append]
    rcases h.full next rest heq with hfull | ⟨hfull, hnext⟩
    · exact .inl (by omega)
    · exact .inr ⟨by omega, hnext⟩

theorem translateTtyChunk_spec (cap : ℕ) (src : List UInt8) :
    ∃ used, Cooked prevCr cap src (translateTtyChunk prevCr cap src) used := by
  induction src generalizing prevCr cap with
  | nil => cases cap <;> exact ⟨[], rfl, rfl, rfl, Nat.zero_le _, nofun⟩
  | cons ch src ih =>
    cases cap with
    | zero => exact ⟨[], rfl, rfl, rfl, le_refl 0, fun _ _ _ => .inl rfl⟩
    | succ cap =>
      by_cases hlf : ch = 10 ∧ !prevCr
      · obtain ⟨rfl, hcr⟩ := hlf
        obtain rfl : prevCr = false := by simpa using hcr
        cases cap with
        | zero =>
          exact ⟨[], rfl, rfl, rfl, Nat.zero_le _, fun ch rest hrest =>
            .inr ⟨rfl, (cons.inj hrest).1.symm, rfl⟩⟩
        | succ cap =>
          obtain ⟨used, h⟩ := ih false cap
          exact ⟨_, Cooked.cons 10 [13, 10] h (cook_lf used)⟩
      · obtain ⟨used, h⟩ := ih (ch = 13) cap
        have hstep : translateTtyChunk prevCr (cap + 1) (ch :: src) =
            ([ch] ++ (translateTtyChunk (ch = 13) cap src).1,
              (translateTtyChunk (ch = 13) cap src).2) := by
          cases cap <;> simp only [translateTtyChunk, if_neg hlf, singleton_append]
        rw [hstep]
        exact ⟨_, h.cons ch [ch] (cook_other hlf used)⟩

def dataMessage (peerId : UInt32) (data : List UInt8) : List UInt8 :=
  94 :: (writeU32Be peerId ++ writeU32Be data.length.toUInt32 ++ data)

/-- The data of a message, if it is a CHANNEL_DATA message. -/
def dataOf (payload : List UInt8) : List UInt8 :=
  if payload.head? = some 94 then payload.drop 9 else []

theorem dataOf_dataMessage (peerId : UInt32) (data : List UInt8) :
    dataOf (dataMessage peerId data) = data := rfl

theorem dataOf_plain {payload : List UInt8} (h : IsPlain payload) : dataOf payload = [] :=
  if_neg fun hdata => h (by simp [hdata])

theorem channelData_result (h : data.length ≤ 1200) :
    ((channelMessage s SSH_PAYLOAD_MAX 94).putString data).result =
      some (dataMessage s.channel.peerId data) := by
  have hput (bytes more : List UInt8) (hroom : bytes.length + more.length ≤ SSH_PAYLOAD_MAX) :
      (⟨SSH_PAYLOAD_MAX, bytes, false⟩ : Writer).putData more =
        ⟨SSH_PAYLOAD_MAX, bytes ++ more, false⟩ := by
    rw [Writer.putData, if_neg (by simp), if_neg (not_lt.mpr hroom)]
  simp only [channelMessage, Writer.init, Writer.putByte, Writer.putU32, Writer.putString]
  rw [hput, hput, hput, hput]
  · simp [Writer.result, dataMessage]
  all_goals simp [writeU32Be, SSH_PAYLOAD_MAX]
  omega

theorem queueChannelData_room
    (hroom : s.out.outbox.length < SSH_OUTBOX_MAX) (hlen : data.length ≤ 1200) :
    ∃ rng out, queueChannelData c s data = (0, { s with rng := rng, out := out }) ∧
      out.outbox.length = s.out.outbox.length + 1 ∧
      out.accepted = s.out.accepted ++ [dataMessage s.channel.peerId data] := by
  have hshort : ¬SSH_PACKET_OUT_MAX <
      totalLength s.out (dataMessage s.channel.peerId data).length := by
    have hmessage : (dataMessage s.channel.peerId data).length = data.length + 9 := by
      simp [dataMessage, writeU32Be]
    unfold totalLength paddingFor SSH_PACKET_OUT_MAX SSH_CRYPTO_SHA256_BYTES
    split <;> omega
  obtain ⟨padding, rng, -, heq⟩ := queuePayload_fits c s _ false hroom hshort
  have hqueue : queueChannelData c s data =
      queuePayload c s (dataMessage s.channel.peerId data) false := by
    rw [queueChannelData, queueWriter, channelData_result s hlen]
  exact ⟨rng, _, hqueue.trans heq, by simp [queued], rfl⟩

/-- The messages `chunks` were queued. -/
structure Sent (s s' : Server) (chunks : List (List UInt8)) : Prop where
  accepted : s'.out.accepted = s.out.accepted ++ chunks.map (dataMessage s.channel.peerId)
  outbox : s'.out.outbox.length = s.out.outbox.length + chunks.length
  window : s'.channel.peerWindow.toNat + chunks.flatten.length = s.channel.peerWindow.toNat
  bounded : ∀ chunk ∈ chunks, chunk.length ≤ s.channel.peerMaxPacket.toNat
  flow : s'.channel.flow = { s.channel.flow with
    peerWindow := s'.channel.peerWindow, txPrevCr := s'.channel.txPrevCr }
  rx : s'.rx = s.rx
  derived : s'.kex.derived = s.kex.derived
  inUse : s'.link.inUse = s.link.inUse

/-- The bytes of a read can be sent: they fit the window, and a message has room for a line
end. -/
def Fits (s : Server) (raw : List UInt8) : Prop :=
  (cook s.channel.txPrevCr raw).length ≤ s.channel.peerWindow.toNat ∧
    (2 ≤ s.channel.peerMaxPacket.toNat ∨ (cook s.channel.txPrevCr raw).length = raw.length)

instance (s : Server) (raw : List UInt8) : Decidable (Fits s raw) :=
  inferInstanceAs (Decidable (_ ∧ _))

theorem Sent.refl : Sent s s [] :=
  ⟨by simp, rfl, rfl, by simp, rfl, rfl, rfl, rfl⟩

theorem Sent.append {s s₁ s' : Server} {chunks more : List (List UInt8)}
    (h : Sent s s₁ chunks) (h' : Sent s₁ s' more) : Sent s s' (chunks ++ more) := by
  have hid : s₁.channel.peerId = s.channel.peerId := congrArg Flow.peerId h.flow
  have hmax : s₁.channel.peerMaxPacket = s.channel.peerMaxPacket :=
    congrArg Flow.peerMaxPacket h.flow
  refine ⟨?_, ?_, ?_, ?_, ?_, h'.rx.trans h.rx, h'.derived.trans h.derived,
    h'.inUse.trans h.inUse⟩
  · rw [h'.accepted, h.accepted, hid, map_append, append_assoc]
  · rw [h'.outbox, h.outbox, length_append, add_assoc]
  · have hwindow := h.window
    rw [← h'.window] at hwindow
    rw [← hwindow, flatten_append, length_append]
    omega
  · intro chunk hmem
    rcases mem_append.mp hmem with hmem | hmem
    · exact h.bounded chunk hmem
    · rw [← hmax]
      exact h'.bounded chunk hmem
  · rw [h'.flow, h.flow]

theorem toNat_sub_length {window : UInt32} (h : data.length ≤ window.toNat) :
    (window - data.length.toUInt32).toNat + data.length = window.toNat := by
  have hlen : data.length.toUInt32.toNat = data.length := by
    exact Nat.mod_eq_of_lt (lt_of_le_of_lt h window.toNat_lt)
  rw [UInt32.toNat_sub_of_le _ _ (UInt32.le_iff_toNat_le.mpr (hlen.symm ▸ h)), hlen]
  omega

/-- The longest data of a message. -/
def Channel.most (ch : Channel) : ℕ := min ch.peerMaxPacket.toNat 1200

/-- What a message takes at least of a read that fits and is not used up by it. -/
def Channel.share (ch : Channel) : ℕ := max (ch.most / 2) 1

/-- The channel after a message, with the flag for the last byte. -/
def Channel.afterChunk (ch : Channel) (data : List UInt8) (prevCr : Bool) : Channel :=
  { ch with txPrevCr := prevCr, peerWindow := ch.peerWindow - data.length.toUInt32 }

/-- One message within the bounds of the channel. -/
theorem queueChannelData_sent (hroom : s.out.outbox.length < SSH_OUTBOX_MAX)
    (hlen : data.length ≤ min s.channel.most s.channel.peerWindow.toNat) :
    ∃ rng out, queueChannelData c { s with channel := { s.channel with txPrevCr := prevCr } } data =
        (0, { s with rng := rng, out := out, channel := { s.channel with txPrevCr := prevCr } }) ∧
      Sent s { s with rng := rng, out := out, channel := s.channel.afterChunk data prevCr,
                      link := { s.link with lastActivityTick := tick } } [data] := by
  unfold Channel.most at hlen
  obtain ⟨rng, out, hqueue, houtbox, haccepted⟩ := queueChannelData_room c
    { s with channel := { s.channel with txPrevCr := prevCr } } hroom
    (by omega : data.length ≤ 1200)
  refine ⟨rng, out, hqueue, haccepted, houtbox, ?_, ?_, rfl, rfl, rfl, rfl⟩
  · simpa [Channel.afterChunk] using
      toNat_sub_length (by omega : data.length ≤ s.channel.peerWindow.toNat)
  · intro chunk hmem
    rw [mem_singleton.mp hmem]
    omega

/-- When something of a read that fits is left, a message took its share. -/
theorem Fits.share_le {s : Server} {raw used : List UInt8}
    (h : Fits s raw) (hmost : 1 ≤ s.channel.peerMaxPacket.toNat)
    (hout : Cooked s.channel.txPrevCr (min s.channel.most s.channel.peerWindow.toNat) raw out used)
    (hrest : out.2.1 ≠ []) : s.channel.share ≤ used.length := by
  obtain ⟨hfits, hline⟩ := h
  obtain ⟨ch, tail, hleft⟩ := exists_cons_of_ne_nil hrest
  rw [hout.split, cook_append, length_append, ← hout.flag, ← hout.bytes, hleft] at hfits hline
  have hused := length_cook s.channel.txPrevCr used
  rw [← hout.bytes] at hused
  unfold Channel.share
  have hfull := hout.full ch tail hleft
  unfold Channel.most at hfull ⊢
  rcases hfull with hfull | ⟨hfull, rfl, hcr⟩
  · have hnext := (length_cook out.2.2 (ch :: tail)).1
    rw [length_cons] at hnext
    omega
  · rw [hcr, cook_lf, length_cons, length_cons] at hfits hline
    have htail := (length_cook false tail).1
    rw [length_append, length_cons] at hline
    omega

/-- What is left of a read that fits, fits after the message. -/
theorem Fits.rest {s s' : Server} {used rest : List UInt8} (h : Fits s (used ++ rest))
    (hcr : s'.channel.txPrevCr = crAfter s.channel.txPrevCr used)
    (hwindow : s'.channel.peerWindow.toNat + (cook s.channel.txPrevCr used).length =
      s.channel.peerWindow.toNat)
    (hmax : s'.channel.peerMaxPacket = s.channel.peerMaxPacket) : Fits s' rest := by
  obtain ⟨hfits, hline⟩ := h
  rw [cook_append, length_append] at hfits hline
  rw [length_append] at hline
  have hfirst := (length_cook s.channel.txPrevCr used).1
  have hnext := (length_cook (crAfter s.channel.txPrevCr used) rest).1
  rw [Fits, hcr, hmax]
  exact ⟨by omega, hline.imp id fun hsame => by omega⟩

/-- The inner loop sends a part of what was read, and all of it if it fits. -/
theorem sendChunks_sent (fuel : ℕ) (s : Server) (raw : List UInt8) (hfuel : raw.length < fuel) :
    ∃ chunks used rest, raw = used ++ rest ∧
      chunks.flatten = cook s.channel.txPrevCr used ∧
      (sendChunks c tick fuel s raw).1 = false ∧
      Sent s (sendChunks c tick fuel s raw).2 chunks ∧
      (sendChunks c tick fuel s raw).2.channel.txPrevCr = crAfter s.channel.txPrevCr used ∧
      (Fits s raw → raw.length ≤ s.channel.share * (SSH_OUTBOX_MAX - s.out.outbox.length) →
        1 ≤ s.channel.peerMaxPacket.toNat → rest = []) := by
  induction fuel generalizing s raw with
  | zero => cases hfuel
  | succ fuel ih =>
    unfold sendChunks
    by_cases hstop : raw = [] ∨ SSH_OUTBOX_MAX ≤ s.out.outbox.length ∨ s.channel.peerWindow = 0
    · rw [if_pos hstop]
      refine ⟨[], [], raw, rfl, rfl, rfl, Sent.refl s, rfl, fun hfits hroom _ => ?_⟩
      have hlen := (length_cook s.channel.txPrevCr raw).1.trans hfits.1
      rcases hstop with hraw | hfull | hwindow
      · exact hraw
      · rw [Nat.sub_eq_zero_of_le hfull, Nat.mul_zero] at hroom
        exact eq_nil_of_length_eq_zero (Nat.le_zero.mp hroom)
      · rw [hwindow] at hlen
        exact eq_nil_of_length_eq_zero (Nat.le_zero.mp hlen)
    · rw [if_neg hstop]
      simp only [not_or, not_le] at hstop
      obtain ⟨hraw, hroom, hwindow⟩ := hstop
      have hcap : min (channelDataCap s.channel) SSH_TTY_COOKED_CHUNK =
          min s.channel.most s.channel.peerWindow.toNat := by
        unfold channelDataCap SSH_TTY_COOKED_CHUNK SSH_PAYLOAD_MAX Channel.most
        omega
      simp only [hcap]
      obtain ⟨used, hout⟩ := translateTtyChunk_spec s.channel.txPrevCr
        (min s.channel.most s.channel.peerWindow.toNat) raw
      generalize translateTtyChunk s.channel.txPrevCr _ raw = out at hout
      by_cases hnil : out.1 = []
      · rw [if_pos hnil]
        obtain rfl : used = [] := cook_eq_nil (hout.bytes.symm.trans hnil)
        rw [hout.flag]
        refine ⟨[], [], raw, rfl, rfl, rfl, Sent.refl s, rfl, fun hfits _ hmost => ?_⟩
        by_contra hrest
        rw [hout.split] at hrest
        have := hfits.share_le hmost hout hrest
        exact absurd (Nat.le_zero.mp this) (by unfold Channel.share; omega)
      · rw [if_neg hnil]
        obtain ⟨rng, out', hqueue, hsent⟩ := queueChannelData_sent c s tick out.2.2 hroom hout.fits
        rw [hqueue]
        simp only [if_neg (Int.lt_irrefl 0)]
        have hshorter : out.2.1.length < fuel := by
          have hused : used ≠ [] := by
            rintro rfl
            exact hnil hout.bytes
          have hpos := length_pos_iff.mpr hused
          rw [hout.split, length_append] at hfuel
          omega
        obtain ⟨chunks, used', rest, hsplit, hflat, hflag, hsent', hafter, hall⟩ :=
          ih _ out.2.1 hshorter
        refine ⟨out.1 :: chunks, used ++ used', rest, ?_, ?_, hflag, hsent.append hsent', ?_, ?_⟩
        · rw [hout.split, hsplit, append_assoc]
        · rw [flatten_cons, hflat, cook_append, hout.bytes]
          exact congrArg (_ ++ cook · used') hout.flag
        · rw [crAfter_append, ← hout.flag]
          exact hafter
        · intro hfits hroom' hmost
          by_cases hrest : out.2.1 = []
          · rw [hrest] at hsplit
            exact (append_eq_nil_iff.mp hsplit.symm).2
          · have hused := hfits.share_le hmost hout hrest
            have hwindow' := hsent.window
            have houtbox := hsent.outbox
            rw [flatten_singleton, hout.bytes] at hwindow'
            rw [hout.split, length_append] at hroom'
            refine hall ((hout.split ▸ hfits).rest hout.flag (hout.bytes ▸ hwindow') rfl) ?_ hmost
            rw [houtbox, length_singleton, ← Nat.sub_sub, Nat.mul_sub, Nat.mul_one]
            show out.2.1.length ≤ s.channel.share * _ - s.channel.share
            omega

/-- The reads of the outer loop: the state in which each is made, and what it returns. -/
def pumpReads (c : Crypto) (tick : UInt32) :
    List (List UInt8) → Server → ℕ → ℕ → List (Server × List UInt8)
  | [], _, _, _ => []
  | read :: reads, s, readBytes, budget =>
    if PumpStops s readBytes budget then []
    else
      let raw := read.take (rawCap s readBytes)
      if raw = [] then []
      else
        let s := { s with channel := { s.channel with promptKickPending := false } }
        let sent := sendChunks c tick (raw.length + 1) s raw
        (s, raw) :: if sent.1 then []
          else pumpReads c tick reads sent.2 (readBytes + raw.length) (SSH_TTY_DRAIN_BUDGET - readBytes)

/-- The reads of `ssh_pump_tty_to_channel`. -/
def ttyReads (c : Crypto) (tick : UInt32) (s : Server) (blocked : Bool)
    (reads : List (List UInt8)) : List (Server × List UInt8) :=
  if !s.channel.opened ∨ !s.channel.tty then []
  else if SSH_OUTBOX_MAX ≤ s.out.outbox.length then []
  else if s.channel.peerWindow = 0 then []
  else if s.channel.promptKickPending ∧ (blocked ∨ s.out.outbox ≠ [] ∨
      tickDiff tick s.channel.shellStartedTick < 2) then []
  else pumpReads c tick reads s 0 SSH_TTY_DRAIN_BUDGET

def bytesRead (reads : List (Server × List UInt8)) : List UInt8 := reads.flatMap Prod.snd

/-- What was sent is the translation of the bytes of the reads. -/
def Translates (s s' : Server) (chunks : List (List UInt8)) (reads : List (Server × List UInt8)) :
    Prop :=
  chunks.flatten = cook s.channel.txPrevCr (bytesRead reads) ∧
    s'.channel.txPrevCr = crAfter s.channel.txPrevCr (bytesRead reads)

theorem idleRead_sent (s : Server) (readBytes : ℕ) : Sent s (idleRead tick s readBytes) [] ∧
      (idleRead tick s readBytes).channel.txPrevCr = s.channel.txPrevCr := by
  unfold idleRead
  split
  · exact ⟨⟨by simp, rfl, rfl, by simp, rfl, rfl, rfl, rfl⟩, rfl⟩
  · exact ⟨Sent.refl s, rfl⟩

/-- The bound of a read leaves room in the queue for what it returns. -/
theorem rawCap_le (readBytes : ℕ) :
    rawCap s readBytes ≤ s.channel.share * (SSH_OUTBOX_MAX - s.out.outbox.length) := by
  have hcap : channelDataCap s.channel ≤ s.channel.most := by
    unfold channelDataCap Channel.most
    omega
  unfold rawCap
  refine (Nat.min_le_left _ _).trans ((Nat.min_le_left _ _).trans ?_)
  exact Nat.mul_le_mul_right _ (max_le_max_right 1 (Nat.div_le_div_right hcap))

theorem pumpLoop_sent (reads : List (List UInt8)) (s : Server) (readBytes budget : ℕ) :
    ∃ chunks, Sent s (pumpLoop c tick reads s readBytes budget) chunks ∧
      ((∀ x ∈ pumpReads c tick reads s readBytes budget, Fits x.1 x.2) →
        Translates s (pumpLoop c tick reads s readBytes budget) chunks
          (pumpReads c tick reads s readBytes budget)) := by
  have hidle (s : Server) := idleRead_sent tick s readBytes
  induction reads generalizing s readBytes budget with
  | nil =>
    unfold pumpLoop pumpReads
    split
    · exact ⟨[], Sent.refl s, fun _ => ⟨rfl, rfl⟩⟩
    · exact ⟨[], (hidle s).1, fun _ => ⟨rfl, (hidle s).2⟩⟩
  | cons read reads ih =>
    unfold pumpLoop pumpReads
    by_cases hstop : PumpStops s readBytes budget
    · rw [if_pos hstop, if_pos hstop]
      exact ⟨[], Sent.refl s, fun _ => ⟨rfl, rfl⟩⟩
    · rw [if_neg hstop, if_neg hstop]
      simp only
      have hraw := (length_take_le _ read).trans (rawCap_le s readBytes)
      have hmost : 1 ≤ s.channel.peerMaxPacket.toNat := by
        have hcap : channelDataCap s.channel ≠ 0 := by
          simp only [PumpStops, not_or] at hstop
          exact hstop.2.2.2.1
        unfold channelDataCap at hcap
        omega
      generalize read.take (rawCap s readBytes) = raw at hraw
      by_cases hnil : raw = []
      · rw [if_pos hnil, if_pos hnil]
        exact ⟨[], (hidle s).1, fun _ => ⟨rfl, (hidle s).2⟩⟩
      · rw [if_neg hnil, if_neg hnil]
        have hkick : Sent s { s with channel := { s.channel with promptKickPending := false } } [] :=
          ⟨by simp, rfl, rfl, by simp, rfl, rfl, rfl, rfl⟩
        obtain ⟨chunks, used, rest, hsplit, hflat, hflag, hsent, hafter, hfits⟩ :=
          sendChunks_sent c tick (raw.length + 1)
            { s with channel := { s.channel with promptKickPending := false } } raw
            (Nat.lt_succ_self _)
        obtain ⟨more, hmore, htranslates⟩ := ih (sendChunks c tick (raw.length + 1)
          { s with channel := { s.channel with promptKickPending := false } } raw).2
          (readBytes + raw.length) (SSH_TTY_DRAIN_BUDGET - readBytes) fun s => idleRead_sent tick s _
        simp only [hflag, Bool.false_eq_true, if_false]
        refine ⟨chunks ++ more, (hkick.append hsent).append hmore, fun hall => ?_⟩
        obtain ⟨hfirst, hothers⟩ := forall_mem_cons.mp hall
        obtain ⟨hcook, hcr⟩ := htranslates hothers
        obtain rfl : rest = [] := hfits hfirst hraw hmost
        obtain rfl : used = raw := by rw [hsplit, append_nil]
        rw [hafter] at hcook hcr
        refine ⟨?_, ?_⟩
        · rw [flatten_append, hflat, hcook]
          exact (cook_append _ _).symm
        · rw [hcr]
          exact (crAfter_append _ _).symm

/-- What a call of `ssh_pump_tty_to_channel` sends: the translation of the bytes it reads, if
each read fits. -/
theorem pumpTtyToChannel_sent (s : Server) (blocked : Bool) (reads : List (List UInt8)) :
    ∃ chunks, Sent s (pumpTtyToChannel c tick s blocked reads) chunks ∧
      ((∀ x ∈ ttyReads c tick s blocked reads, Fits x.1 x.2) →
        Translates s (pumpTtyToChannel c tick s blocked reads) chunks
          (ttyReads c tick s blocked reads)) ∧
      (chunks ≠ [] → s.channel.opened = true) := by
  have hnone : ∃ chunks, Sent s s chunks ∧
      ((∀ x ∈ ([] : List (Server × List UInt8)), Fits x.1 x.2) → Translates s s chunks []) ∧
      (chunks ≠ [] → s.channel.opened = true) :=
    ⟨[], Sent.refl s, fun _ => ⟨rfl, rfl⟩, fun h => absurd rfl h⟩
  unfold pumpTtyToChannel ttyReads
  split
  · exact hnone
  rename_i hopen
  split
  · exact hnone
  split
  · exact hnone
  split
  · exact hnone
  · obtain ⟨chunks, hsent, htranslates⟩ := pumpLoop_sent c tick reads s 0 SSH_TTY_DRAIN_BUDGET
    refine ⟨chunks, hsent, htranslates, fun _ => ?_⟩
    simp only [not_or, Bool.not_eq_true, Bool.not_eq_false'] at hopen
    exact hopen.1

end Sodex.Ssh
