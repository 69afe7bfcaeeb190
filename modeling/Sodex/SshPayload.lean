import Sodex.SshAuthOrder
import Sodex.SshFraming

/-!
# The payload of a decoded packet

A packet may have 2048 bytes, the buffer of the payload has 1792. Both decoders bound the packet
alone, and the encrypted one takes a length near the top of the 32-bit numbers for a negative one.
-/
namespace Sodex.Ssh

open CInt CtrMode Reader

/-- Whatever the plain decoder reports is a payload, and fits `ssh_decode_payload_buf`. -/
structure PlainFits (rx : RxBuffer) : Prop where
  tame : tryDecodePlainPacketBuffer 2048 rx ≠ .wild
  payload : ∀ payload rest, tryDecodePlainPacketBuffer 2048 rx = .packet payload rest →
    1 ≤ payload.length ∧ payload.length ≤ SSH_PAYLOAD_MAX

/-- The length field in the first block of an encrypted packet. -/
def Rx.lengthField (c : Crypto) (rx : Rx) : ℕ :=
  (readU32Be (listMem (rx.cipher.xcrypt c (rx.buf.take 16)).1) 0).toNat

def Rx.clear (c : Crypto) (rx : Rx) : List UInt8 :=
  (rx.cipher.xcrypt c (rx.buf.take (rx.lengthField c + 4))).1

def Rx.padding (c : Crypto) (rx : Rx) : ℕ := ((rx.clear c).getD 4 0).toNat

/-- Whatever the encrypted decoder reports is a payload and fits, and it decides on the length field
as on a number without bound: `wild` is a copy beyond the end of a buffer. -/
structure EncryptedFits (c : Crypto) (rx : Rx) : Prop where
  tame : tryDecodeEncryptedPacket c rx ≠ .wild
  payload : ∀ payload rx', tryDecodeEncryptedPacket c rx = .packet payload rx' →
    1 ≤ payload.length ∧ payload.length ≤ SSH_PAYLOAD_MAX
  refused : 16 ≤ rx.buf.length →
    rx.lengthField c < 5 ∨ SSH_PACKET_PLAIN_MAX < rx.lengthField c + 4 →
    ∃ rx', tryDecodeEncryptedPacket c rx = .invalid rx'
  waits : 16 ≤ rx.buf.length → 5 ≤ rx.lengthField c → rx.lengthField c + 4 ≤ SSH_PACKET_PLAIN_MAX →
    (tryDecodeEncryptedPacket c rx = .wait ↔
      rx.buf.length < rx.lengthField c + 4 + SSH_CRYPTO_SHA256_BYTES)

/-- A length field that turns negative and gets past the check of its size: it is waited for, or
copied. From `2 ^ 32 - 4` on, what is copied is so short that the call ends in a refusal. -/
structure Rx.Slips (c : Crypto) (rx : Rx) : Prop where
  header : 16 ≤ rx.buf.length
  high : 2147483644 ≤ rx.lengthField c
  passes : rx.lengthField c < 4294967292 ∨ rx.buf.length + 4294967296 < rx.lengthField c + 36

/-- The buffer starts with a sealed packet of an admissible length and padding. -/
structure Rx.Whole (c : Crypto) (rx : Rx) : Prop where
  length : 5 ≤ rx.lengthField c ∧ rx.lengthField c ≤ 2044
  arrived : rx.lengthField c + 36 ≤ rx.buf.length
  sealed : c.hmacSha256 rx.macKey (writeU32Be rx.seq ++ rx.clear c) =
    (rx.buf.drop (rx.lengthField c + 4)).take 32
  padded : 4 ≤ rx.padding c ∧ rx.padding c + 1 ≤ rx.lengthField c

section Outcomes

variable (c : Crypto) (rx : Rx)

theorem Rx.lengthField_lt : rx.lengthField c < 4294967296 := UInt32.toNat_lt _

/-- The length field as an `int`, and whether adding 4 leaves the `int`s. -/
theorem Rx.length_eq :
    (rx.lengthField c < 2147483644 ∧ toInt (rx.lengthField c) = rx.lengthField c ∧
      toInt (toInt (rx.lengthField c) + 4) = toInt (rx.lengthField c) + 4) ∨
    (2147483644 ≤ rx.lengthField c ∧ rx.lengthField c < 2147483648 ∧
      toInt (toInt (rx.lengthField c) + 4) ≠ toInt (rx.lengthField c) + 4) ∨
    (2147483648 ≤ rx.lengthField c ∧ toInt (rx.lengthField c) = rx.lengthField c - 4294967296 ∧
      toInt (toInt (rx.lengthField c) + 4) = toInt (rx.lengthField c) + 4) := by
  have hlt := rx.lengthField_lt c
  unfold toInt
  omega

theorem length_clear (h : rx.lengthField c + 36 ≤ rx.buf.length) :
    (rx.clear c).length = rx.lengthField c + 4 := by
  refine (xcrypt_length _ _ _).trans ?_
  rw [List.length_take]
  omega

theorem takePayload_clear (rx' : Rx) (total : ℕ) (harrived : rx.lengthField c + 36 ≤ rx.buf.length)
    (hlow : rx.lengthField c < 2147483644)
    (hpadded : 4 ≤ rx.padding c ∧ rx.padding c + 1 ≤ rx.lengthField c) :
    ∃ payload rx'', payload.length = rx.lengthField c - rx.padding c - 1 ∧
      takePayload rx' (rx.lengthField c) (rx.clear c) total =
        if SSH_PAYLOAD_MAX < payload.length then .wild else .packet payload rx'' := by
  have hsize := length_clear c rx harrived
  refine ⟨((rx.clear c).drop 5).take (rx.lengthField c - rx.padding c - 1),
    { rx' with buf := rx'.buf.drop total, seq := rx'.seq + 1 }, ?_, ?_⟩
  · rw [List.length_take, List.length_drop, hsize]
    omega
  · have hpad : ((rx.clear c).getD 4 0).toNat = rx.padding c := rfl
    have hint : toInt ((rx.lengthField c : ℤ) - rx.padding c - 1) =
        (rx.lengthField c : ℤ) - rx.padding c - 1 := toInt_of_range (by omega) (by omega)
    have hpayload : ((rx.lengthField c : ℤ) - rx.padding c - 1).toNat =
        rx.lengthField c - rx.padding c - 1 := by omega
    unfold takePayload
    simp only [hpad, hint, hpayload]
    rw [if_neg (by omega), List.length_take, List.length_drop, hsize]
    refine if_congr ?_ rfl rfl
    omega

theorem takePayload_refused (rx' : Rx) (n : ℤ) (plain : List UInt8) (total : ℕ)
    (hn : -4 ≤ n) (h : (plain.getD 4 0).toNat < 4 ∨ n < (plain.getD 4 0).toNat + 1) :
    takePayload rx' n plain total = .invalid rx' := by
  have hpad := (plain.getD 4 0).toNat_lt
  refine if_pos (h.imp (by omega) fun hlt => ?_)
  rw [toInt_of_range (by omega) (by omega)]
  omega

/-- The decisions of the encrypted decoder, over numbers that do not wrap. -/
theorem tryDecodeEncryptedPacket_cases :
    (tryDecodeEncryptedPacket c rx = .wait ∧ rx.buf.length < 16) ∨
    (rx.Slips c ∧
      (tryDecodeEncryptedPacket c rx = .wait ∨ tryDecodeEncryptedPacket c rx = .wild)) ∨
    (tryDecodeEncryptedPacket c rx = .wait ∧ 5 ≤ rx.lengthField c ∧ rx.lengthField c ≤ 2044 ∧
      rx.buf.length < rx.lengthField c + 36) ∨
    ((∃ rx', tryDecodeEncryptedPacket c rx = .invalid rx') ∧ ¬rx.Slips c ∧ ¬rx.Whole c ∧
      (rx.lengthField c < 5 ∨ 2044 < rx.lengthField c ∨
        rx.lengthField c + 36 ≤ rx.buf.length)) ∨
    (rx.Whole c ∧ ∃ payload rx', payload.length = rx.lengthField c - rx.padding c - 1 ∧
      tryDecodeEncryptedPacket c rx =
        if SSH_PAYLOAD_MAX < payload.length then .wild else .packet payload rx') := by
  have hfive : readU32Be (listMem (rx.cipher.xcrypt c (rx.buf.take 16)).1) 0 < 5 ↔
      rx.lengthField c < 5 := UInt32.lt_iff_toNat_lt
  have hfield : (readU32Be (listMem (rx.cipher.xcrypt c (rx.buf.take 16)).1) 0).toNat =
      rx.lengthField c := rfl
  have hlen := rx.length_eq c
  have hlt := rx.lengthField_lt c
  simp only [tryDecodeEncryptedPacket, LengthOverflows, hfive, hfield, SSH_PACKET_PLAIN_MAX,
    SSH_CRYPTO_SHA256_BYTES]
  split_ifs with hshort hover hbad hwait hneg hmac
  · exact .inl ⟨rfl, hshort⟩
  · exact .inr (.inl ⟨⟨by omega, by omega, by omega⟩, .inr rfl⟩)
  · refine .inr (.inr (.inr (.inl ⟨⟨_, rfl⟩, fun h => ?_, fun h => ?_, by omega⟩)))
    · have := h.high
      omega
    · have := h.length
      omega
  · by_cases hlow : rx.lengthField c ≤ 2044
    · exact .inr (.inr (.inl ⟨rfl, by omega, hlow, by omega⟩))
    · exact .inr (.inl ⟨⟨by omega, by omega, by omega⟩, .inl rfl⟩)
  · exact .inr (.inl ⟨⟨by omega, by omega, by omega⟩, .inr rfl⟩)
  · refine .inr (.inr (.inr (.inl ⟨⟨_, rfl⟩, fun h => ?_, fun h => hmac ?_, by omega⟩)))
    · have := h.high
      have := h.passes
      omega
    · have := h.length
      have hplain : (toInt (rx.lengthField c) + 4).toNat = rx.lengthField c + 4 := by omega
      rw [hplain]
      exact h.sealed
  · by_cases hlow : rx.lengthField c ≤ 2044
    · have hint : toInt (rx.lengthField c) = rx.lengthField c := by omega
      have hplain : (toInt (rx.lengthField c) + 4).toNat = rx.lengthField c + 4 := by omega
      have harrived : rx.lengthField c + 36 ≤ rx.buf.length := by omega
      rw [hplain] at hmac ⊢
      rw [hint]
      by_cases hpadded : 4 ≤ rx.padding c ∧ rx.padding c + 1 ≤ rx.lengthField c
      · exact .inr (.inr (.inr (.inr ⟨⟨by omega, harrived, not_not.mp hmac, hpadded⟩,
          takePayload_clear c rx _ _ harrived (by omega) hpadded⟩)))
      · refine .inr (.inr (.inr (.inl ⟨⟨_, takePayload_refused _ _ _ _ (by omega) ?_⟩,
          fun h => ?_, fun h => hpadded h.padded, by omega⟩)))
        · show rx.padding c < 4 ∨ (rx.lengthField c : ℤ) < rx.padding c + 1
          omega
        · have := h.high
          omega
    · -- fewer than four bytes were copied, and the number behind them is below zero
      refine .inr (.inr (.inr (.inl ⟨⟨_, takePayload_refused _ _ _ _ (by omega) (.inr (by omega))⟩,
        fun h => ?_, fun h => hlow h.length.2, by omega⟩)))
      have := h.passes
      omega

end Outcomes

/-- The receive buffer of a connection. -/
def Rx.buffer (rx : Rx) : RxBuffer := ⟨listMem rx.buf, Int32.ofInt rx.buf.length, rx.seq⟩

theorem bytesAt_eq {mem : Memory} {bytes : List UInt8} {from' : ℤ} {off n : ℕ}
    (hmem : ∀ i < n, mem (from' + i) = listMem bytes (off + i)) (hlen : off + n ≤ bytes.length) :
    bytesAt mem from' n = (bytes.drop off).take n := by
  apply List.ext_getElem
  · simp [bytesAt]
    omega
  · intro i hi _
    have hin : i < n := by simpa [bytesAt] using hi
    have hnat : ((off : ℤ) + i).toNat = off + i := by omega
    simp only [bytesAt, List.getElem_map, List.getElem_range, hmem i hin, listMem, hnat,
      List.getElem_take, List.getElem_drop]
    rw [List.getD_eq_getElem?_getD, List.getElem?_eq_getElem (by omega), Option.getD_some]

/-- In clear a connection decodes what `ssh_try_decode_plain_packet_buffer` finds in its buffer. Only a
length field whose sum with 4 leaves the `int`s is judged otherwise: here it counts as `wild`. -/
theorem tryDecodePlainPacket_buffer (rx : Rx) (hlen : rx.buf.length < 2 ^ 31)
    (hfield : ¬LengthOverflows (readU32Be (listMem rx.buf) 0)) :
    tryDecodePlainPacket rx = match tryDecodePlainPacketBuffer 2048 rx.buffer with
      | .wait => .wait
      | .reject => .invalid rx
      | .wild => .wild
      | .packet payload rest => if SSH_PAYLOAD_MAX < payload.length then .wild
        else .packet payload { rx with
          buf := bytesAt rest.mem 0 rest.len.toInt.toNat
          seq := rest.seq } := by
  have hint : (Int32.ofInt rx.buf.length).toInt = rx.buf.length :=
    Int32.toInt_ofInt_of_le (by omega) (by omega)
  have hpad := (rx.buf.getD 4 0).toNat_lt
  have hsum : toInt (toInt (readU32Be (listMem rx.buf) 0).toNat + 4) = _ := not_not.mp hfield
  have hfour : (rx.buffer.mem 4).toNat = (rx.buf.getD 4 0).toNat := rfl
  have hread : readU32Be rx.buffer.mem 0 = readU32Be (listMem rx.buf) 0 := rfl
  have hlen' : rx.buffer.len.toInt = rx.buf.length := hint
  have hmax : (2048 : Int32).toInt = SSH_PACKET_PLAIN_MAX := rfl
  have hheader : (rx.buf.length : ℤ) < 4 ↔ rx.buf.length < 4 := by omega
  have hrange := toInt_range (readU32Be (listMem rx.buf) 0).toNat
  simp only [tryDecodePlainPacket, takePayload, tryDecodePlainPacketBuffer, hfour, hread, hlen',
    hsum, hmax, hheader, if_neg hfield]
  generalize (rx.buf.getD 4 0).toNat = p at hpad ⊢
  generalize toInt (readU32Be (listMem rx.buf) 0).toNat = n at hrange hsum ⊢
  generalize hq : toInt (n - p - 1) = q
  have hpayload : (n < -4 → 0 ≤ q → 1792 < q) ∧ (-4 ≤ n → q = n - p - 1) := by
    unfold toInt at hq
    omega
  have hpmax : SSH_PAYLOAD_MAX = 1792 := rfl
  split_ifs with h₁ h₂ h₃ h₄ h₅ h₆ h₆
  · rfl
  · rfl
  · rfl
  · rfl
  · rfl
  · exact (if_pos (by simp [bytesAt]; omega)).symm
  · omega
  · have htaken : bytesAt rx.buffer.mem 5 q.toNat = (rx.buf.drop 5).take q.toNat :=
      bytesAt_eq (fun _ _ => rfl) (by omega)
    have hrest : (Int32.ofInt (rx.buf.length - (n + 4))).toInt = rx.buf.length - (n + 4) :=
      Int32.toInt_ofInt_of_le (by omega) (by omega)
    have hmoved := @bytesAt_eq (moveBytes rx.buffer.mem (n + 4) (rx.buf.length - (n + 4))) rx.buf 0
      (n + 4).toNat (rx.buf.length - (n + 4)).toNat (fun i hi => ?_) (by omega)
    · rw [List.take_of_length_le (by simp; omega)] at hmoved
      simp only [htaken, hrest, hmoved]
      rw [if_neg (by simp; omega)]
      rfl
    · have hoff : ((n + 4).toNat : ℤ) + i = i + (n + 4) := by omega
      rw [moveBytes, if_pos (by omega), zero_add, hoff]
      rfl

/-- The plain decoder's payload fits unless the length wraps, or the payload of a complete packet is
empty or longer than its buffer. -/
theorem plainFits_iff (rx : RxBuffer) : PlainFits rx ↔ ¬rx.Wraps 2048 ∧ (rx.Complete 2048 →
    rx.padding + 1 < rx.lengthField ∧ rx.lengthField ≤ rx.padding + 1793) := by
  have hlen : ∀ n, (bytesAt rx.mem 5 n).length = n := fun n => by simp [bytesAt]
  constructor
  · intro h
    refine ⟨fun hw => h.tame (wild_of_wraps hw), fun hc => ?_⟩
    have hfits := h.payload _ _ (packet_of_complete hc)
    rw [hlen, SSH_PAYLOAD_MAX] at hfits
    omega
  · intro ⟨hwraps, hfits⟩
    refine ⟨fun hwild => ?_, fun payload rest hpacket => ?_⟩
    · obtain h' | h' | h' | h' := tryDecodePlainPacketBuffer_cases 2048 rx
      · cases hwild.symm.trans h'.1
      · cases hwild.symm.trans h'.1
      · cases hwild.symm.trans h'.1
      · exact hwraps h'.2.1
    · have hc := complete_of_packet hpacket
      have hbounds := hfits hc
      have heq := (Framing.packet.inj (hpacket.symm.trans (packet_of_complete hc))).1
      rw [heq, hlen, SSH_PAYLOAD_MAX]
      omega

theorem EncryptedFits.not_slips {c : Crypto} {rx : Rx} (h : EncryptedFits c rx) : ¬rx.Slips c := by
  intro hs
  have hhigh := hs.high
  obtain ⟨rx', hinvalid⟩ := h.refused hs.header (.inr (by rw [SSH_PACKET_PLAIN_MAX]; omega))
  obtain h' | h' | h' | h' | h' := tryDecodeEncryptedPacket_cases c rx
  · cases hinvalid.symm.trans h'.1
  · obtain h' | h' := h'.2
    · cases hinvalid.symm.trans h'
    · cases hinvalid.symm.trans h'
  · cases hinvalid.symm.trans h'.1
  · exact h'.2.1 hs
  · have := h'.1.length
    omega

/-- A call that waits for a length within the bound. -/
theorem EncryptedFits.of_wait {c : Crypto} {rx : Rx} (hdec : tryDecodeEncryptedPacket c rx = .wait)
    (h : 16 ≤ rx.buf.length → 5 ≤ rx.lengthField c ∧ rx.lengthField c ≤ 2044 ∧
      rx.buf.length < rx.lengthField c + 36) : EncryptedFits c rx := by
  refine ⟨?_, ?_, fun hheader hn => ?_, fun hheader _ _ => ?_⟩
  · simp [hdec]
  · simp [hdec]
  · rw [SSH_PACKET_PLAIN_MAX] at hn
    omega
  · simp only [hdec, SSH_CRYPTO_SHA256_BYTES, true_iff]
    exact (h hheader).2.2

/-- The encrypted decoder's payload fits unless the length slips through, or the payload of a sealed
packet is empty or longer than its buffer. -/
theorem encryptedFits_iff (c : Crypto) (rx : Rx) : EncryptedFits c rx ↔ ¬rx.Slips c ∧
    (rx.Whole c → rx.padding c + 1 < rx.lengthField c ∧
      rx.lengthField c ≤ rx.padding c + 1793) := by
  have hcases := tryDecodeEncryptedPacket_cases c rx
  constructor
  · intro h
    refine ⟨h.not_slips, fun hw => ?_⟩
    have := hw.arrived
    obtain h' | h' | h' | h' | ⟨-, payload, rx', hsize, hdec⟩ := hcases
    · omega
    · exact absurd h'.1 h.not_slips
    · omega
    · exact absurd hw h'.2.2.1
    · split at hdec
      · exact absurd hdec h.tame
      · have := h.payload _ _ hdec
        rw [SSH_PAYLOAD_MAX] at this
        omega
  · intro ⟨hslips, hfits⟩
    obtain ⟨hdec, h'⟩ | h' | ⟨hdec, h'⟩ | ⟨⟨rx', hdec⟩, -, -, h'⟩ | ⟨hw, payload, rx', hsize, hdec⟩ :=
      hcases
    · exact .of_wait hdec (by omega)
    · exact absurd h'.1 hslips
    · exact .of_wait hdec (by omega)
    · refine ⟨?_, ?_, fun _ _ => ⟨rx', hdec⟩, fun _ hleast hmost => ?_⟩
      · simp [hdec]
      · simp [hdec]
      · rw [SSH_PACKET_PLAIN_MAX] at hmost
        simp only [hdec, SSH_CRYPTO_SHA256_BYTES, reduceCtorEq, false_iff]
        omega
    · have hbounds := hfits hw
      rw [if_neg (by rw [SSH_PAYLOAD_MAX]; omega)] at hdec
      have := hw.length
      have := hw.arrived
      refine ⟨?_, fun p rx'' hp => ?_, fun _ hn => ?_, fun _ _ _ => ?_⟩
      · simp [hdec]
      · obtain ⟨rfl, -⟩ := Decode.packet.inj (hdec.symm.trans hp)
        rw [SSH_PAYLOAD_MAX]
        omega
      · rw [SSH_PACKET_PLAIN_MAX] at hn
        omega
      · simp only [hdec, SSH_CRYPTO_SHA256_BYTES, reduceCtorEq, false_iff]
        omega

/-- Both decoders report only payloads that fit, and the encrypted one takes the length field for
what it is, exactly when no length passes the checks by turning negative and no complete packet is
all padding, or has more than 1792 bytes between padding length and padding. -/
theorem payload_fits_iff (plain : RxBuffer) (c : Crypto) (rx : Rx) :
    (PlainFits plain ↔ ¬plain.Wraps 2048 ∧ (plain.Complete 2048 →
      plain.padding + 1 < plain.lengthField ∧ plain.lengthField ≤ plain.padding + 1793)) ∧
    (EncryptedFits c rx ↔ ¬rx.Slips c ∧ (rx.Whole c →
      rx.padding c + 1 < rx.lengthField c ∧ rx.lengthField c ≤ rx.padding c + 1793)) :=
  ⟨plainFits_iff plain, encryptedFits_iff c rx⟩

/-- Nine bytes: length 5, padding 4 and no payload. -/
def paddingOnly : RxBuffer where
  mem i := if i = 3 then 5 else if i = 4 then 4 else 0
  len := 9
  seq := 0

/-- 2048 bytes with the least padding. -/
def longestPacket : RxBuffer where
  mem i := if i = 2 then 7 else if i = 3 then 252 else if i = 4 then 4 else 0
  len := 2048
  seq := 0

/-- Sixteen bytes whose length field is 0xffffffff. -/
def negativeLength : Rx where
  buf := List.replicate 16 255
  seq := 0
  encrypted := true
  cipher := ⟨[], 0⟩
  macKey := []

/-- An empty payload is reported, one of 2039 bytes too, and a length of 4 GB is waited for. -/
theorem payloads_misfit : ¬PlainFits paddingOnly ∧ ¬PlainFits longestPacket ∧
    ¬EncryptedFits zeroCrypto negativeLength := by
  refine ⟨fun h => ?_, fun h => ?_, fun h => ?_⟩
  · have hc : paddingOnly.Complete 2048 :=
      ⟨by decide, ⟨by decide, by decide⟩, by decide, by decide⟩
    exact absurd ((plainFits_iff _).mp h |>.2 hc) (by decide)
  · have hc : longestPacket.Complete 2048 :=
      ⟨by decide, ⟨by decide, by decide⟩, by decide, by decide⟩
    exact absurd ((plainFits_iff _).mp h |>.2 hc) (by decide)
  · exact h.not_slips ⟨by decide, by decide +kernel, by decide +kernel⟩

end Sodex.Ssh
