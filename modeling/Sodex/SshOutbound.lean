import Sodex.SshCodec
import Sodex.SshAuthOrder

/-!
# What the client reads

The client decodes what the server sends with the server's own decoder and mirrored keys,
and switches to the keys of the exchange when it reads NEWKEYS. Packets are sealed when
they are queued, encryption is switched on when NEWKEYS is flushed, and number and cipher
go on before the queue takes a packet. As long as no packet is queued while the queue is
full or holds NEWKEYS, no send is cut short and there is one key exchange, the client
reads just what was queued.
-/
namespace Sodex.Ssh

open CInt CtrMode Runs Relation List

/-- The client switches to the keys of the exchange after NEWKEYS. -/
def peerReceive (keys : Keys) (payload : List UInt8) (rx : Rx) : Rx :=
  if payload = [21] then { rx with encrypted := true, cipher := keys.tx, macKey := keys.txMac }
  else rx

/-- The payloads that the client reads, and its state when no packet is complete. -/
def peerDecode (c : Crypto) (keys : Keys) : ℕ → Rx → List (List UInt8) × Rx
  | 0, rx => ([], rx)
  | fuel + 1, rx =>
    match tryDecodePacket c rx with
    | .packet payload rx' =>
      let rest := peerDecode c keys fuel (peerReceive keys payload rx')
      (payload :: rest.1, rest.2)
    | _ => ([], rx)

/-- The client before it has read anything of `wire`. -/
def peerInit (wire : List UInt8) : Rx := { resetRx with buf := wire }

/-- The packets are those made for a client that goes from `rx` to `rx'`. -/
def Stream (c : Crypto) (keys : Keys) : Rx → List OutPacket → Rx → Prop
  | rx, [], rx' => rx' = rx
  | rx, p :: ps, rx' => ∃ padding, Padded rx.encrypted p.payload padding ∧
      p.data = encodeFor c rx p.payload padding ∧
      Stream c keys (peerReceive keys p.payload (advance c rx p.payload padding)) ps rx'

section Stream

variable {c : Crypto} {keys : Keys} {rx rx' : Rx} {ps : List OutPacket}

theorem peerReceive_buf (keys : Keys) (payload : List UInt8) (rx : Rx) (buf : List UInt8) :
    peerReceive keys payload { rx with buf := buf } =
      { peerReceive keys payload rx with buf := buf } := by
  unfold peerReceive
  split <;> rfl

theorem tryDecodePacket_nil (c : Crypto) (rx : Rx) :
    tryDecodePacket c { rx with buf := [] } = .wait := by
  unfold tryDecodePacket
  split <;> rfl

theorem Stream.append {qs : List OutPacket} {mid : Rx} (h : Stream c keys rx ps mid)
    (h' : Stream c keys mid qs rx') : Stream c keys rx (ps ++ qs) rx' := by
  induction ps generalizing rx with
  | nil =>
    obtain rfl : mid = rx := h
    exact h'
  | cons p ps ih =>
    obtain ⟨padding, hpadded, hdata, htail⟩ := h
    exact ⟨padding, hpadded, hdata, ih htail⟩

theorem Stream.split {before after : List OutPacket} (h : Stream c keys rx (before ++ after) rx') :
    ∃ mid, Stream c keys rx before mid ∧ Stream c keys mid after rx' := by
  induction before generalizing rx with
  | nil => exact ⟨rx, rfl, h⟩
  | cons p ps ih =>
    obtain ⟨padding, hpadded, hdata, htail⟩ := h
    obtain ⟨mid, hmid, hafter⟩ := ih htail
    exact ⟨mid, ⟨padding, hpadded, hdata, hmid⟩, hafter⟩

/-- The client reads the payloads of the stream, and nothing is left over. -/
theorem Stream.decode (h : Stream c keys rx ps rx') {fuel : ℕ} (hfuel : ps.length ≤ fuel) :
    peerDecode c keys fuel { rx with buf := ps.flatMap OutPacket.data } =
      (ps.map OutPacket.payload, { rx' with buf := [] }) := by
  induction ps generalizing rx fuel with
  | nil =>
    obtain rfl : rx' = rx := h
    cases fuel with
    | zero => rfl
    | succ fuel => simp [peerDecode, tryDecodePacket_nil]
  | cons p ps ih =>
    obtain ⟨padding, hpadded, hdata, htail⟩ := h
    cases fuel with
    | zero => cases hfuel
    | succ fuel =>
      have hrest := ih htail (Nat.le_of_succ_le_succ hfuel)
      rw [flatMap_cons, hdata, peerDecode, tryDecodePacket_encodeFor c rx hpadded]
      simp only [peerReceive_buf, hrest, map_cons]

def OutPacket.InClear (p : OutPacket) : Prop := ∃ padding, p.data = packetBytes p.payload padding

/-- A packet under the sending keys of an exchange. -/
def OutPacket.SealedWith (c : Crypto) (keys : Keys) (p : OutPacket) : Prop :=
  ∃ padding iv seq, p.data =
    ((⟨keys.tx.key, iv⟩ : Cipher).xcrypt c (packetBytes p.payload padding)).1 ++
      c.hmacSha256 keys.txMac (writeU32Be seq ++ packetBytes p.payload padding)

/-- The client has read NEWKEYS and has the keys of the exchange, or it reads in clear. -/
def Switched (keys : Keys) (rx : Rx) (newkeys : Prop) : Prop :=
  (newkeys → rx.encrypted = true ∧ rx.cipher.key = keys.tx.key ∧ rx.macKey = keys.txMac) ∧
    (¬newkeys → rx.encrypted = false)

theorem Switched.receive {newkeys : Prop} (h : Switched keys rx newkeys)
    (payload padding : List UInt8) :
    Switched keys (peerReceive keys payload (advance c rx payload padding))
      (newkeys ∨ [21] = payload) := by
  unfold peerReceive
  split
  · rename_i hpayload
    exact ⟨fun _ => ⟨rfl, rfl, rfl⟩, fun hno => absurd (.inr hpayload.symm) hno⟩
  · rename_i hpayload
    have hkey : (advance c rx payload padding).cipher.key = rx.cipher.key := by
      unfold advance
      split
      · exact Cipher.xcrypt_key ..
      · rfl
    constructor
    · rintro (hnewkeys | hnewkeys)
      · obtain ⟨henc, hcipher, hmac⟩ := h.1 hnewkeys
        exact ⟨henc, hkey.trans hcipher, hmac⟩
      · exact absurd hnewkeys.symm hpayload
    · intro hno
      exact h.2 fun hnewkeys => hno (.inl hnewkeys)

theorem Stream.switched {newkeys : Prop} (h : Stream c keys rx ps rx')
    (hrx : Switched keys rx newkeys) :
    Switched keys rx' (newkeys ∨ [21] ∈ ps.map OutPacket.payload) := by
  induction ps generalizing rx newkeys with
  | nil =>
    obtain rfl : rx' = rx := h
    simpa using hrx
  | cons p ps ih =>
    obtain ⟨padding, -, -, htail⟩ := h
    have hend := ih htail (hrx.receive p.payload padding)
    simpa only [map_cons, mem_cons, or_assoc] using hend

/-- Packets after NEWKEYS are sealed with the keys of the exchange, the others are in clear. -/
theorem Stream.sealed_iff {p : OutPacket} {before after : List OutPacket}
    (h : Stream c keys resetRx (before ++ p :: after) rx') :
    if [21] ∈ before.map OutPacket.payload then p.SealedWith c keys else p.InClear := by
  obtain ⟨mid, hbefore, padding, -, hdata, -⟩ := h.split
  have hmid : Switched keys mid (False ∨ [21] ∈ before.map OutPacket.payload) :=
    hbefore.switched ⟨False.elim, fun _ => rfl⟩
  rw [false_or] at hmid
  unfold encodeFor at hdata
  split
  · rename_i hnewkeys
    obtain ⟨henc, hkey, hmac⟩ := hmid.1 hnewkeys
    rw [if_pos henc, hmac] at hdata
    refine ⟨padding, mid.cipher.iv, mid.seq, ?_⟩
    rw [hdata, ← hkey]
  · rename_i hno
    rw [if_neg (by simp [hmid.2 hno])] at hdata
    exact ⟨padding, hdata⟩

end Stream

/-- The queue of the server and the client that has read all of it. -/
structure Matches (out : Out) (newkeysSent : Bool) (rx : Rx) : Prop where
  seq : rx.seq = out.txSeq
  encrypted : rx.encrypted = newkeysSent
  keys : newkeysSent = true → rx.cipher = out.txCipher ∧ rx.macKey = out.txMacKey

/-- What was sent and what is queued is a stream for the client with the last derived keys.
Until NEWKEYS is sent it is one for any keys. -/
structure Synced (c : Crypto) (out : Out) (newkeysSent : Bool) (last : Option Keys)
    (flushed : List OutPacket) : Prop where
  wire : out.wire = flushed.flatMap OutPacket.data
  accepted : out.accepted = (flushed ++ out.outbox).map OutPacket.payload
  stream : ∀ keys, (newkeysSent = true → last = some keys) →
    ∃ rx, Stream c keys resetRx (flushed ++ out.outbox) rx ∧ Matches out newkeysSent rx
  switched : out.txEncrypted = true → newkeysSent = true
  waiting : out.outbox.countP (·.activateTxCrypto) =
    if newkeysSent = true ∧ out.txEncrypted = false then 1 else 0

section Queue

variable {c : Crypto} {s : Server}

theorem Rng.words_length (n : ℕ) (rng : Rng) : (Rng.words n rng).1.length = 4 * n := by
  induction n generalizing rng with
  | zero => rfl
  | succ n ih =>
    simp only [words, length_cons, ih]
    omega

theorem Rng.fill_length (kind : UseKind) (len : ℕ) (rng : Rng) :
    (rng.fill kind len).1.length = len := by
  show ((Rng.words ((len + 3) / 4) rng).1.take len).length = len
  rw [length_take, Rng.words_length]
  omega

theorem padded_of_totalLength {out : Out} {payload padding : List UInt8}
    (hlen : padding.length = paddingFor (if out.txEncrypted then 16 else 8) payload.length)
    (hbound : ¬SSH_PACKET_OUT_MAX < totalLength out payload.length) :
    Padded out.txEncrypted payload padding := by
  unfold totalLength at hbound
  rw [← hlen] at hbound
  unfold paddingFor at hlen
  refine ⟨by omega, ?_, by omega, fun henc => ?_⟩
  · split at hlen <;> omega
  · rw [if_pos henc] at hlen
    omega

def queued (c : Crypto) (out : Out) (payload padding : List UInt8) (activate : Bool) : Out :=
  let packet := sealPacket c out (packetBytes payload padding)
  { packet.2 with
    outbox := out.outbox ++ [⟨packet.1, activate, payload⟩]
    accepted := out.accepted ++ [payload] }

theorem sealPacket_length (c : Crypto) (out : Out) (payload padding : List UInt8) :
    (sealPacket c out (packetBytes payload padding)).1.length =
      payload.length + padding.length + 5 +
        if out.txEncrypted then SSH_CRYPTO_SHA256_BYTES else 0 := by
  unfold sealPacket
  split
  · simp only [length_append, c.hmac_length, SSH_CRYPTO_SHA256_BYTES]
    rw [← packetBytes_length]
    exact congrArg (· + 32) (xcrypt_length _ _ _)
  · exact packetBytes_length payload padding

theorem sealPacket_frame (c : Crypto) (out : Out) (plain : List UInt8) :
    (sealPacket c out plain).2.outbox = out.outbox ∧
      (sealPacket c out plain).2.accepted = out.accepted ∧
      (sealPacket c out plain).2.crowded = out.crowded := by
  unfold sealPacket
  split <;> exact ⟨rfl, rfl, rfl⟩

/-- A queue with room takes every packet that is not too long. -/
theorem queuePayload_fits (c : Crypto) (s : Server) (payload : List UInt8) (activate : Bool)
    (hroom : s.out.outbox.length < SSH_OUTBOX_MAX)
    (hbound : ¬SSH_PACKET_OUT_MAX < totalLength s.out payload.length) :
    ∃ padding rng, Padded s.out.txEncrypted payload padding ∧
      queuePayload c s payload activate = (0, { s with
        rng := rng
        out := { queued c s.out payload padding activate with
          crowded := s.out.crowded || s.out.isCrowded } }) := by
  rw [queuePayload, if_neg hbound]
  simp only
  have hfill := Rng.fill_length (if s.out.txEncrypted then .sealedPadding else .clearPadding)
    (paddingFor (if s.out.txEncrypted then 16 else 8) payload.length) s.rng
  generalize s.rng.fill (if s.out.txEncrypted then .sealedPadding else .clearPadding)
    (paddingFor (if s.out.txEncrypted then 16 else 8) payload.length) = padding at hfill
  refine ⟨padding.1, padding.2, padded_of_totalLength hfill hbound, ?_⟩
  have hlen := sealPacket_length c s.out payload padding.1
  obtain ⟨houtbox, haccepted, -⟩ := sealPacket_frame c s.out (packetBytes payload padding.1)
  have hpush : outboxPush (sealPacket c s.out (packetBytes payload padding.1)).2
      (sealPacket c s.out (packetBytes payload padding.1)).1 activate payload =
      (0, queued c s.out payload padding.1 activate) := by
    unfold outboxPush queued
    rw [houtbox, haccepted, if_neg, if_neg (not_le.mpr hroom)]
    unfold totalLength at hbound
    omega
  simp only [hpush]

/-- A queue with room refuses only packets that are too long. -/
theorem queuePayload_room (c : Crypto) (s : Server) (payload : List UInt8) (activate : Bool)
    (hroom : s.out.outbox.length < SSH_OUTBOX_MAX) :
    queuePayload c s payload activate = (-1, s) ∨
      ∃ padding rng, Padded s.out.txEncrypted payload padding ∧
        queuePayload c s payload activate = (0, { s with
          rng := rng
          out := { queued c s.out payload padding activate with
            crowded := s.out.crowded || s.out.isCrowded } }) := by
  by_cases hlong : SSH_PACKET_OUT_MAX < totalLength s.out payload.length
  · exact .inl (if_pos hlong)
  · exact .inr (queuePayload_fits c s payload activate hroom hlong)

/-- A packet that was queued on a connection that is still in order found room, and no
NEWKEYS waiting. -/
theorem queuePayload_cases (c : Crypto) (s : Server) (payload : List UInt8) (activate : Bool)
    (hcrowded : (queuePayload c s payload activate).2.out.crowded = false) :
    queuePayload c s payload activate = (-1, s) ∨
      s.out.crowded = false ∧ s.out.outbox.countP (·.activateTxCrypto) = 0 ∧
      ∃ padding rng, Padded s.out.txEncrypted payload padding ∧
        queuePayload c s payload activate =
          (0, { s with rng := rng, out := queued c s.out payload padding activate }) := by
  by_cases hlong : SSH_PACKET_OUT_MAX < totalLength s.out payload.length
  · exact .inl (if_pos hlong)
  · have hflags : s.out.crowded = false ∧ s.out.isCrowded = false := by
      rw [queuePayload, if_neg hlong] at hcrowded
      exact Bool.or_eq_false_iff.mp hcrowded
    have hfree := hflags.2
    simp only [Out.isCrowded, decide_eq_false_iff_not, not_or, not_le, Bool.not_eq_true,
      any_eq_false] at hfree
    have hnone : ∀ p ∈ s.out.outbox, ¬p.activateTxCrypto = true := by simpa using hfree.2
    rcases queuePayload_room c s payload activate hfree.1 with heq | ⟨padding, rng, hpadded, heq⟩
    · exact .inl heq
    · refine .inr ⟨hflags.1, countP_eq_zero.mpr hnone, padding, rng, hpadded, ?_⟩
      obtain ⟨-, -, hsame⟩ := sealPacket_frame c s.out (packetBytes payload padding)
      rw [heq, hflags.2, Bool.or_false]
      unfold queued
      simp only [← hsame]

end Queue

section Effects

variable {c : Crypto} {cfg : Config} {out : Out} {newkeysSent : Bool} {last : Option Keys}
  {flushed : List OutPacket} {s : Server} {keys : Keys}

/-- A packet made by the server is one made for the client that has read all before. -/
theorem sealPacket_encodeFor {rx : Rx} (h : Matches out newkeysSent rx)
    (henc : out.txEncrypted = newkeysSent) (payload padding : List UInt8) :
    (sealPacket c out (packetBytes payload padding)).1 = encodeFor c rx payload padding ∧
      Matches (sealPacket c out (packetBytes payload padding)).2 newkeysSent
        (advance c rx payload padding) := by
  unfold sealPacket encodeFor advance
  cases hkeys : newkeysSent with
  | true =>
    obtain ⟨hcipher, hmac⟩ := h.keys hkeys
    have hrx : rx.encrypted = true := h.encrypted.trans hkeys
    simp only [henc.trans hkeys, hrx, if_true, hcipher, hmac, h.seq]
    exact ⟨trivial, rfl, rfl, fun _ => ⟨rfl, rfl⟩⟩
  | false =>
    have hrx : rx.encrypted = false := h.encrypted.trans hkeys
    simp only [henc.trans hkeys, hrx, Bool.false_eq_true, if_false]
    exact ⟨trivial, congrArg (· + 1) h.seq, rfl, nofun⟩

theorem Synced.push (h : Synced c out newkeysSent last flushed) {payload padding : List UInt8}
    (hpadded : Padded out.txEncrypted payload padding) (hpayload : payload ≠ [21])
    (hclear : out.outbox.countP (·.activateTxCrypto) = 0) :
    Synced c (queued c out payload padding false) newkeysSent last flushed := by
  -- without a waiting NEWKEYS both ends agree about encryption
  have henc : out.txEncrypted = newkeysSent := by
    have hwaiting := h.waiting
    have hswitched := h.switched
    rw [hclear] at hwaiting
    cases htx : out.txEncrypted with
    | true => exact (hswitched htx).symm
    | false =>
      by_contra hne
      simp [htx, Bool.eq_true_of_not_eq_false (Ne.symm hne)] at hwaiting
  obtain ⟨hframe, -, -⟩ := sealPacket_frame c out (packetBytes payload padding)
  have htx : (queued c out payload padding false).txEncrypted = out.txEncrypted := by
    unfold queued sealPacket
    split <;> rfl
  refine ⟨?_, ?_, fun keys hkeys => ?_, ?_, ?_⟩
  · refine Eq.trans ?_ h.wire
    unfold queued sealPacket
    split <;> rfl
  · show out.accepted ++ [payload] = _
    rw [h.accepted]
    simp [queued]
  · obtain ⟨rx, hstream, hmatch⟩ := h.stream keys hkeys
    obtain ⟨hdata, hmatch'⟩ := sealPacket_encodeFor (c := c) hmatch henc payload padding
    refine ⟨advance c rx payload padding, ?_, hmatch'.seq, hmatch'.encrypted, hmatch'.keys⟩
    show Stream c keys resetRx (flushed ++ (out.outbox ++ [_])) _
    rw [← append_assoc]
    refine hstream.append ⟨padding, ?_, hdata, ?_⟩
    · rw [hmatch.encrypted, ← henc]
      exact hpadded
    · show advance c rx payload padding = peerReceive keys payload _
      rw [peerReceive, if_neg hpayload]
  · rw [htx]
    exact h.switched
  · rw [htx, ← h.waiting]
    show (out.outbox ++ [_]).countP _ = _
    simp [countP_append]

/-- Before NEWKEYS the keys play no part. -/
theorem Synced.derive (h : Synced c out false last flushed) (txCipher : Cipher)
    (txMacKey : List UInt8) (last' : Option Keys) :
    Synced c { out with txCipher := txCipher, txMacKey := txMacKey } false last' flushed where
  wire := h.wire
  accepted := h.accepted
  stream := by
    intro keys _
    obtain ⟨rx, hstream, hmatch⟩ := h.stream keys nofun
    exact ⟨rx, hstream, hmatch.seq, hmatch.encrypted, nofun⟩
  switched := h.switched
  waiting := h.waiting

/-- Queueing NEWKEYS with the derived keys in place. -/
theorem Synced.announce (h : Synced c out false last flushed) {padding : List UInt8}
    (hpadded : Padded out.txEncrypted [21] padding)
    (hlast : last = some keys) (htx : out.txCipher = keys.tx ∧ out.txMacKey = keys.txMac)
    (hclear : out.outbox.countP (·.activateTxCrypto) = 0) :
    Synced c (queued c out [21] padding true) true last flushed := by
  have henc : out.txEncrypted = false := by
    by_contra hne
    exact absurd (h.switched (by simpa using hne)) (by decide)
  have hseal : sealPacket c out (packetBytes [21] padding) =
      (packetBytes [21] padding, { out with txSeq := out.txSeq + 1 }) := by
    rw [sealPacket, if_neg (by simp [henc])]
  have hqueued : queued c out [21] padding true = { out with
      txSeq := out.txSeq + 1
      outbox := out.outbox ++ [⟨packetBytes [21] padding, true, [21]⟩]
      accepted := out.accepted ++ [[21]] } := by
    rw [queued, hseal]
  rw [hqueued]
  refine ⟨h.wire, ?_, fun keys' hkeys' => ?_, fun _ => rfl, ?_⟩
  · rw [h.accepted]
    simp
  · obtain rfl : keys = keys' := Option.some.inj (hlast.symm.trans (hkeys' rfl))
    obtain ⟨rx, hstream, hmatch⟩ := h.stream keys nofun
    refine ⟨peerReceive keys [21] (advance c rx [21] padding), ?_, congrArg (· + 1) hmatch.seq, rfl,
      fun _ => ⟨htx.1.symm, htx.2.symm⟩⟩
    show Stream c keys resetRx (flushed ++ (out.outbox ++ [_])) _
    rw [← append_assoc]
    refine hstream.append ⟨padding, ?_, ?_, rfl⟩
    · rw [hmatch.encrypted, ← henc]
      exact hpadded
    · rw [encodeFor, if_neg (by simp [hmatch.encrypted])]
  · simp [countP_append, hclear, henc]

theorem Synced.pop (h : Synced c out newkeysSent last flushed) {p : OutPacket}
    {rest : List OutPacket} (houtbox : out.outbox = p :: rest) {n : ℕ} (hn : p.data.length ≤ n)
    (truncated : Bool) :
    Synced c { out with
      txEncrypted := out.txEncrypted || p.activateTxCrypto
      outbox := rest
      wire := out.wire ++ p.data.take n
      truncated := truncated } newkeysSent last (flushed ++ [p]) := by
  have hall : flushed ++ [p] ++ rest = flushed ++ out.outbox := by
    rw [houtbox, append_assoc, singleton_append]
  have hwaiting := h.waiting
  rw [houtbox, countP_cons] at hwaiting
  -- the packet that switches encryption on is the only one of its kind
  have hactive : p.activateTxCrypto = true →
      newkeysSent = true ∧ rest.countP (·.activateTxCrypto) = 0 := by
    intro hactivate
    rw [if_pos hactivate] at hwaiting
    split at hwaiting
    · rename_i hnew
      exact ⟨hnew.1, by omega⟩
    · omega
  refine ⟨?_, ?_, fun keys hkeys => ?_, fun htx => ?_, ?_⟩
  · show out.wire ++ p.data.take n = _
    rw [h.wire, take_of_length_le hn]
    simp
  · show out.accepted = ((flushed ++ [p]) ++ rest).map OutPacket.payload
    rw [hall, h.accepted]
  · obtain ⟨rx, hstream, hmatch⟩ := h.stream keys hkeys
    refine ⟨rx, ?_, hmatch.seq, hmatch.encrypted, hmatch.keys⟩
    show Stream c keys resetRx ((flushed ++ [p]) ++ rest) rx
    rw [hall]
    exact hstream
  · rcases Bool.or_eq_true_iff.mp htx with htx | hactivate
    · exact h.switched htx
    · exact (hactive hactivate).1
  · show rest.countP _ = if newkeysSent = true ∧ (out.txEncrypted || p.activateTxCrypto) = false
      then 1 else 0
    cases hactivate : p.activateTxCrypto with
    | true => simp [(hactive hactivate).2]
    | false => simpa [hactivate] using hwaiting

/-- The connection is in order, unless a packet was queued at a bad moment or a send was cut
short. -/
def InStep (c : Crypto) (s : Server) : Prop :=
  s.out.crowded = false → s.out.truncated = false →
    ∃ flushed, Synced c s.out s.kex.newkeysSent s.kex.derived.getLast? flushed

/-- What was queued is in step, whatever part of it the sends have taken. -/
def Aligned (c : Crypto) (s : Server) : Prop :=
  s.out.crowded = false → ∃ flushed,
    Synced c { s.out with wire := flushed.flatMap OutPacket.data } s.kex.newkeysSent
      s.kex.derived.getLast? flushed ∧
    (s.out.truncated = false → s.out.wire = flushed.flatMap OutPacket.data)

theorem Aligned.inStep (h : Aligned c s) : InStep c s := by
  intro hcrowded htruncated
  obtain ⟨flushed, hsynced, hwire⟩ := h hcrowded
  rw [← hwire htruncated] at hsynced
  exact ⟨flushed, hsynced⟩

/-- Queueing does not look at what was sent. -/
theorem queued_wire (c : Crypto) (out : Out) (payload padding : List UInt8) (activate : Bool)
    {wire : List UInt8} :
    queued c { out with wire := wire } payload padding activate =
        { queued c out payload padding activate with wire := wire } ∧
      (queued c out payload padding activate).wire = out.wire ∧
      (queued c out payload padding activate).truncated = out.truncated := by
  unfold queued sealPacket
  cases out.txEncrypted <;> exact ⟨rfl, rfl, rfl⟩

/-- There is one key exchange. -/
def OneExchange : Guard := fun _ s _ payload =>
  payload.head?.map messageOf = some .kexEcdhInit → s.kex.newkeysSent = false

instance (tick : UInt32) (s : Server) (mem : Memory) (payload : List UInt8) :
    Decidable (OneExchange tick s mem payload) := inferInstanceAs (Decidable (_ → _))

theorem Exchanging.first (h : Exchanging OneExchange s) : s.kex.newkeysSent = false := by
  obtain ⟨tick, s₀, mem, payload, hone, hmsg, -, hsame⟩ := h
  exact hsame.symm.trans (hone hmsg)

theorem aligned_reset (c : Crypto) (s : Server) : Aligned c (resetConnection s) := by
  refine fun _ => ⟨[], ⟨rfl, rfl, fun keys _ => ⟨resetRx, rfl, rfl, rfl, nofun⟩, nofun, rfl⟩, ?_⟩
  exact fun _ => rfl

theorem Aligned.queuePayload (h : Aligned c s) {payload : List UInt8}
    (hpayload : payload.head? ≠ some 21) : Aligned c (queuePayload c s payload false).2 := by
  intro hcrowded
  rcases queuePayload_cases c s payload false hcrowded with
    heq | ⟨hfree, hclear, padding, rng, hpadded, heq⟩
  · rw [heq] at hcrowded ⊢
    exact h hcrowded
  · have hne : payload ≠ [21] := by
      rintro rfl
      exact hpayload rfl
    rw [heq]
    obtain ⟨flushed, hsynced, hwire⟩ := h hfree
    obtain ⟨hqueued, hsame, htruncated⟩ := queued_wire c s.out payload padding false
    refine ⟨flushed, ?_, fun h => hsame.trans (hwire (htruncated.symm.trans h))⟩
    rw [← hqueued]
    exact hsynced.push hpadded hne hclear

theorem Aligned.announceNewkeys (h : Aligned c s)
    (hsent : s.kex.newkeysSent = false) (hkeys : Keyed s keys) :
    Aligned c (announceNewkeys c s).2 := by
  intro hcrowded
  have hqueued : (Ssh.queuePayload c s [21] true).2.out = (Ssh.announceNewkeys c s).2.out := by
    unfold Ssh.announceNewkeys
    simp only
    split <;> rfl
  rcases queuePayload_cases c s [21] true (hqueued ▸ hcrowded) with
    heq | ⟨hfree, hclear, padding, rng, hpadded, heq⟩
  · simp only [Ssh.announceNewkeys, heq, if_pos (by decide : (-1 : ℤ) < 0)] at hcrowded ⊢
    exact h hcrowded
  · simp only [Ssh.announceNewkeys, heq, if_neg (Int.lt_irrefl 0)]
    obtain ⟨flushed, hsynced, hwire⟩ := h hfree
    rw [hsent] at hsynced
    have henc : s.out.txEncrypted = false := by
      by_contra hne
      exact absurd (hsynced.switched (by simpa using hne)) (by decide)
    obtain ⟨hannounced, hsame, htruncated⟩ := queued_wire c s.out [21] padding true
    refine ⟨flushed, ?_, fun h => hsame.trans (hwire (htruncated.symm.trans h))⟩
    rw [← hannounced]
    exact hsynced.announce hpadded hkeys.last (hkeys.tx henc) hclear

theorem Aligned.flushOutbox (h : Aligned c s) (blocked : Bool) (sent : Option ℕ) :
    Aligned c (flushOutbox s blocked sent) := by
  refine flushOutbox_preserves (fun _ _ _ h => h) h (fun p rest n houtbox hcrowded => ?_) blocked
    sent
  obtain ⟨flushed, hsynced, hwire⟩ := h hcrowded
  have hall : (flushed ++ [p]).flatMap OutPacket.data =
      flushed.flatMap OutPacket.data ++ p.data := by simp
  refine ⟨flushed ++ [p], ?_, fun htruncated => ?_⟩
  · have hpop := hsynced.pop houtbox (Nat.le_refl _) (s.out.truncated || n < p.data.length)
    rw [take_length] at hpop
    rw [hall]
    exact hpop
  · obtain ⟨hbefore, hwhole⟩ := Bool.or_eq_false_iff.mp htruncated
    rw [hall, ← hwire hbefore]
    exact congrArg _ (take_of_length_le (by simpa using hwhole))

/-- Every effect keeps the two ends in step. -/
theorem Aligned.micro (s s' : Server) (hmicro : Micro c cfg OneExchange s s') (h : Aligned c s) :
    Aligned c s' := by
  cases hmicro with
  | send payload hpayload => exact h.queuePayload hpayload
  | link l _ => exact h
  | channel ch _ => exact h
  | locals looping result => exact h
  | receive rx _ => exact h
  | kex k hk =>
    intro hcrowded
    obtain ⟨flushed, hsynced, hwire⟩ := h hcrowded
    refine ⟨flushed, ?_, hwire⟩
    show Synced c _ k.newkeysSent k.derived.getLast? flushed
    rw [hk.newkeysSent, hk.derived]
    exact hsynced
  | cookie => exact h
  | secret _ => exact h
  | derive keys hexchange =>
    intro hcrowded
    have hsent := hexchange.first
    obtain ⟨flushed, hsynced, hwire⟩ := h hcrowded
    rw [hsent] at hsynced
    refine ⟨flushed, ?_, hwire⟩
    show Synced c { (deriveKeyMaterial s keys).out with wire := _ } s.kex.newkeysSent _ flushed
    rw [hsent]
    exact hsynced.derive keys.tx keys.txMac _
  | announce keys hexchange hkeys => exact h.announceNewkeys hexchange.first hkeys
  | newkeys tick mem payload _ _ => exact h
  | service => exact h
  | userauth tick mem payload accepted username service _ _ _ _ => cases accepted <;> exact h
  | authFlush tick _ =>
    refine authFlush_preserves (fun _ _ _ h => h) (fun _ _ _ _ h => h)
      (fun s payload hpayload h => h.queuePayload ?_) h tick
    rw [hpayload]
    decide
  | flush blocked sent => exact h.flushOutbox blocked sent
  | release => exact aligned_reset c s

theorem Aligned.accept (s : Server) (tick : UInt32) (child : Option Bool) (h : Aligned c s) :
    Aligned c (acceptPendingConnections cfg tick s child) := by
  unfold acceptPendingConnections
  split
  · exact h
  · split
    · exact aligned_reset c s
    · exact h

end Effects

/-- In every run with one key exchange on each connection: as long as on the connection no
packet was queued while the queue was full or held NEWKEYS, and no send was cut short, the
client reads just the payloads that were accepted and sent, in order, with nothing left over;
the packets after NEWKEYS are sealed with the keys of the exchange and the others are in
clear; and a packet that is refused although the queue has room changes nothing. -/
theorem outbound_decodable (c : Crypto) (cfg : Config) (phases : List (UInt32 × Phase))
    (hone : Along (phaseStep c cfg) (DispatchOk c OneExchange) serverInit phases) :
    ∃ s, run (phaseStep c cfg) serverInit phases = some s ∧
      (s.out.crowded = false → s.out.truncated = false → ∃ flushed : List OutPacket,
        s.out.wire = flushed.flatMap OutPacket.data ∧
        s.out.accepted = (flushed ++ s.out.outbox).map OutPacket.payload ∧
        ∀ keys, (s.kex.newkeysSent = true → s.kex.derived.getLast? = some keys) →
          (∀ fuel, flushed.length ≤ fuel →
            (peerDecode c keys fuel (peerInit s.out.wire)).1 = flushed.map OutPacket.payload ∧
            (peerDecode c keys fuel (peerInit s.out.wire)).2.buf = []) ∧
          ∀ before p after, flushed = before ++ p :: after →
            if [21] ∈ before.map OutPacket.payload then p.SealedWith c keys else p.InClear) ∧
      ∀ payload activate, s.out.outbox.length < SSH_OUTBOX_MAX →
        (queuePayload c s payload activate).1 < 0 →
        (queuePayload c s payload activate).2 = s := by
  obtain ⟨s, hrun, haligned⟩ := run_of_micro Aligned.micro Aligned.accept
    (aligned_reset c serverInit) phases hone
  have hs := haligned.inStep
  refine ⟨s, hrun, fun hcrowded htruncated => ?_, fun payload activate hroom hfail => ?_⟩
  · obtain ⟨flushed, hsynced⟩ := hs hcrowded htruncated
    refine ⟨flushed, hsynced.wire, hsynced.accepted, fun keys hkeys => ?_⟩
    obtain ⟨rx, hstream, -⟩ := hsynced.stream keys hkeys
    obtain ⟨mid, hflushed, -⟩ := hstream.split
    refine ⟨fun fuel hfuel => ?_, fun before p after heq => ?_⟩
    · have hdecode := hflushed.decode hfuel
      rw [peerInit, hsynced.wire, hdecode]
      exact ⟨rfl, rfl⟩
    · rw [heq] at hflushed
      exact hflushed.sealed_iff
  · rcases queuePayload_room c s payload activate hroom with heq | ⟨padding, rng, -, heq⟩
    · rw [heq]
    · rw [heq] at hfail
      exact absurd hfail (Int.lt_irrefl 0)

/-- The proper client reads what was sent to it, first in clear and then sealed. -/
theorem properClient_reads :
    Along (phaseStep zeroCrypto exampleConfig) (DispatchOk zeroCrypto OneExchange) serverInit
      properClient ∧
    ∃ s, run (phaseStep zeroCrypto exampleConfig) serverInit properClient = some s ∧
      s.out.crowded = false ∧ s.out.truncated = false ∧ ∃ flushed : List OutPacket,
        s.out.accepted = (flushed ++ s.out.outbox).map OutPacket.payload ∧
        ∀ keys, s.kex.derived.getLast? = some keys →
          (peerDecode zeroCrypto keys flushed.length (peerInit s.out.wire)).1 =
            flushed.map OutPacket.payload := by
  have hone : Along (phaseStep zeroCrypto exampleConfig) (DispatchOk zeroCrypto OneExchange)
      serverInit properClient := by decide +kernel
  have hflags : (run (phaseStep zeroCrypto exampleConfig) serverInit properClient).map
      (fun s => (s.out.crowded, s.out.truncated)) = some (false, false) := by decide +kernel
  obtain ⟨s, hrun, hs, -⟩ := outbound_decodable zeroCrypto exampleConfig properClient hone
  rw [hrun, Option.map_some] at hflags
  simp only [Option.some.injEq, Prod.mk.injEq] at hflags
  obtain ⟨flushed, -, haccepted, hdecode⟩ := hs hflags.1 hflags.2
  refine ⟨hone, s, hrun, hflags.1, hflags.2, flushed, haccepted, fun keys hkeys => ?_⟩
  exact ((hdecode keys fun _ => hkeys).1 flushed.length (Nat.le_refl _)).1

/-- A client whose request arrives together with its NEWKEYS, while the server's NEWKEYS is
still queued. -/
def hastyClient : List (UInt32 × Phase) := runPhases
  [clientTick 1 (some true) (clientBanner ++ clearPacket clientKexinit)
      (clearPacket ecdhInit ++ clearPacket [21] ++ zeroSealed serviceRequest),
    clientTick 2 none [] [], clientTick 3 none [] [], clientTick 4 none [] []]

/-- A client that asks for the service seven times while nothing can be sent to it. -/
def floodingClient : TickInput :=
  { clientTick 1 (some true) clientBanner
      ((replicate 7 (clearPacket serviceRequest)).flatten) with flushBlocked := true }

/-- The answer to the hasty client goes out in clear after NEWKEYS, and the client cannot read
it; and a packet that the full queue refuses still takes a sequence number. -/
theorem answer_unreadable_and_number_lost :
    (∃ s, run (phaseStep zeroCrypto exampleConfig) serverInit hastyClient = some s ∧
      s.out.truncated = false ∧ s.out.outbox = [] ∧ s.out.accepted.length = 4 ∧
      ∀ keys, s.kex.derived.getLast? = some keys →
        (peerDecode zeroCrypto keys 10 (peerInit s.out.wire)).1.length = 3) ∧
    ∃ s, run (phaseStep zeroCrypto exampleConfig) serverInit (tickPhases floodingClient) = some s ∧
      (queuePayload zeroCrypto s [82] false).1 < 0 ∧
      (queuePayload zeroCrypto s [82] false).2.out.txSeq ≠ s.out.txSeq := by
  have hhasty : (run (phaseStep zeroCrypto exampleConfig) serverInit hastyClient).map
      (fun s => (s.out.truncated, s.out.outbox, s.out.accepted.length,
        s.kex.derived.getLast?.map fun keys =>
          (peerDecode zeroCrypto keys 10 (peerInit s.out.wire)).1.length)) =
      some (false, [], 4, some 3) := by decide +kernel
  have hflood : (run (phaseStep zeroCrypto exampleConfig) serverInit
      (tickPhases floodingClient)).map (fun s =>
        (decide ((queuePayload zeroCrypto s [82] false).1 < 0),
          decide ((queuePayload zeroCrypto s [82] false).2.out.txSeq ≠ s.out.txSeq))) =
      some (true, true) := by decide +kernel
  obtain ⟨s, hrun, hs⟩ := Option.map_eq_some_iff.mp hhasty
  obtain ⟨t, hfloodrun, ht⟩ := Option.map_eq_some_iff.mp hflood
  simp only [Prod.mk.injEq, decide_eq_true_eq] at hs ht
  obtain ⟨htruncated, houtbox, haccepted, hread⟩ := hs
  refine ⟨⟨s, hrun, htruncated, houtbox, haccepted, fun keys hkeys => ?_⟩, t, hfloodrun, ht⟩
  rw [hkeys] at hread
  exact Option.some.inj hread

end Sodex.Ssh
