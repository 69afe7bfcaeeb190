import Sodex.SshReader
import Sodex.SshRandom

/-!
# Packets on the wire

The writer of `ssh_packet_core.c`, and how a received packet is cut out of the receive
buffer, in clear and under a cipher. The cryptographic functions are parameters.

A length field of the peer can make a decoder copy outside its buffers: by a signed
overflow, by a negative length, or because a payload may be longer than the buffer it is
copied to. The outcome `wild` stands for these copies; nothing is said about what follows.
-/
namespace Sodex.Ssh

open CInt CtrMode Runs

def writeU32Be (value : UInt32) : List UInt8 :=
  [(value >>> 24).toUInt8, (value >>> 16).toUInt8, (value >>> 8).toUInt8, value.toUInt8]

/-- `struct ssh_writer`, with the bytes written so far. -/
structure Writer where
  cap : ℕ
  bytes : List UInt8
  error : Bool

namespace Writer

def init (cap : ℕ) : Writer := ⟨cap, [], false⟩

def putData (w : Writer) (data : List UInt8) : Writer :=
  if w.error then w
  else if w.cap < w.bytes.length + data.length then { w with error := true }
  else { w with bytes := w.bytes ++ data }

def putByte (w : Writer) (value : UInt8) : Writer := w.putData [value]

def putBool (w : Writer) (value : Bool) : Writer := w.putByte (if value then 1 else 0)

def putU32 (w : Writer) (value : UInt32) : Writer := w.putData (writeU32Be value)

def putString (w : Writer) (data : List UInt8) : Writer :=
  (w.putU32 data.length.toUInt32).putData data

def putCstring (w : Writer) (text : String) : Writer := w.putString (ascii text)

def putMpint (w : Writer) (data : List UInt8) : Writer :=
  match data.dropWhile (· = 0) with
  | [] => w.putU32 0
  | b :: rest =>
    if b &&& 0x80 ≠ 0 then
      ((w.putU32 ((b :: rest).length + 1).toUInt32).putByte 0).putData (b :: rest)
    else (w.putU32 (b :: rest).length.toUInt32).putData (b :: rest)

/-- The bytes, unless something did not fit. -/
def result (w : Writer) : Option (List UInt8) := if w.error then none else some w.bytes

/-- The first byte is `b`, or there was no room for it. -/
def Opens (w : Writer) (b : UInt8) : Prop := w.error = true ∨ w.bytes.head? = some b

theorem opens_putByte (cap : ℕ) (b : UInt8) : ((init cap).putByte b).Opens b := by
  unfold putByte putData init Opens
  simp
  split
  · exact .inl rfl
  · exact .inr rfl

section Opens

variable {w : Writer} {b : UInt8}

variable (h : w.Opens b)
include h

theorem Opens.putData (data : List UInt8) : (w.putData data).Opens b := by
  unfold Writer.putData
  rcases h with h | h
  · rw [if_pos h]
    exact .inl h
  · split
    · exact .inr h
    · split
      · exact .inl rfl
      · exact .inr (by simp [List.head?_append, h])

theorem Opens.putByte (value : UInt8) : (w.putByte value).Opens b := h.putData _

theorem Opens.putBool (value : Bool) : (w.putBool value).Opens b := h.putByte _

theorem Opens.putU32 (value : UInt32) : (w.putU32 value).Opens b := h.putData _

theorem Opens.putString (data : List UInt8) : (w.putString data).Opens b :=
  (h.putU32 _).putData _

theorem Opens.putCstring (text : String) : (w.putCstring text).Opens b :=
  h.putString _

theorem Opens.putCstrings (texts : List String) :
    (texts.foldl Writer.putCstring w).Opens b := by
  induction texts generalizing w with
  | nil => exact h
  | cons text texts ih => exact ih (h.putCstring text)

theorem Opens.result {payload : List UInt8} (hres : w.result = some payload) :
    payload.head? = some b := by
  unfold Writer.result at hres
  rcases h with h | h
  · simp [h] at hres
  · split at hres
    · cases hres
    · rw [← Option.some.inj hres, h]

end Opens

end Writer

def namelistHas (list name : List UInt8) : Bool :=
  (list.splitOn 44).any fun entry => entry ≠ [] ∧ entry = name

/-- The cryptographic functions that the server calls. -/
structure Crypto where
  sha256 : List UInt8 → List UInt8
  hmacSha256 : List UInt8 → List UInt8 → List UInt8
  aes : List UInt8 → BitVec 128 → ℕ → UInt8
  curve25519Public : List UInt8 → Option (List UInt8)
  curve25519Shared : List UInt8 → List UInt8 → Option (List UInt8)
  ed25519Sign : List UInt8 → List UInt8 → Option (List UInt8)
  hmac_length : ∀ key data, (hmacSha256 key data).length = 32

/-- `struct ssh_aes_ctr_ctx`. -/
structure Cipher where
  key : List UInt8
  iv : BitVec 128
  deriving DecidableEq

/-- `ssh_crypto_aes128_ctr_init`. -/
def Cipher.init (key iv : List UInt8) : Cipher :=
  ⟨key.take 16, BitVec.ofNat 128 (Random.ofBytes (iv.take 16))⟩

/-- `ssh_crypto_aes128_ctr_xcrypt`. -/
def Cipher.xcrypt (c : Crypto) (cipher : Cipher) (data : List UInt8) : List UInt8 × Cipher :=
  let out := CtrMode.xcrypt (c.aes cipher.key) cipher.iv data
  (out.1, { cipher with iv := out.2 })

theorem Cipher.xcrypt_key (c : Crypto) (cipher : Cipher) (data : List UInt8) :
    (cipher.xcrypt c data).2.key = cipher.key := rfl

def SSH_PACKET_PLAIN_MAX : ℤ := 2048
def SSH_PAYLOAD_MAX : ℕ := 1792
def SSH_CRYPTO_SHA256_BYTES : ℕ := 32

/-- The receiving side of a connection. -/
structure Rx where
  buf : List UInt8
  seq : UInt32
  encrypted : Bool
  cipher : Cipher
  macKey : List UInt8
  deriving DecidableEq

def listMem (bytes : List UInt8) : Memory := fun i => bytes.getD i.toNat 0

/-- What a decoder makes of the receive buffer. -/
inductive Decode where
  | wait
  | invalid (rx : Rx)
  | packet (payload : List UInt8) (rx : Rx)
  | wild
  deriving DecidableEq

/-- The sum of a length field and four does not fit an `int`. -/
def LengthOverflows (packetLength : UInt32) : Prop :=
  toInt (toInt packetLength.toNat + 4) ≠ toInt packetLength.toNat + 4

instance (n : UInt32) : Decidable (LengthOverflows n) := inferInstanceAs (Decidable (_ ≠ _))

/-- The end of both decoders: check the padding, copy the payload of the decoded packet
`plain`, drop `totalLen` bytes from the buffer. -/
def takePayload (rx : Rx) (packetLength : ℤ) (plain : List UInt8) (totalLen : ℕ) : Decode :=
  let paddingLen : ℤ := (plain.getD 4 0).toNat
  let payloadLen := toInt (packetLength - paddingLen - 1)
  if paddingLen < 4 ∨ payloadLen < 0 then .invalid rx
  else if SSH_PAYLOAD_MAX < payloadLen then .wild
  else .packet ((plain.drop 5).take payloadLen.toNat)
    { rx with buf := rx.buf.drop totalLen, seq := rx.seq + 1 }

def tryDecodePlainPacket (rx : Rx) : Decode :=
  if rx.buf.length < 4 then .wait
  else
    let packetLength := readU32Be (listMem rx.buf) 0
    let totalLen := toInt packetLength.toNat + 4
    if LengthOverflows packetLength then .wild
    else if packetLength < 5 ∨ rx.buf.length < totalLen then .wait
    else if SSH_PACKET_PLAIN_MAX < totalLen then .invalid rx
    else takePayload rx (toInt packetLength.toNat) rx.buf totalLen.toNat

def tryDecodeEncryptedPacket (c : Crypto) (rx : Rx) : Decode :=
  if rx.buf.length < 16 then .wait
  else
    let peek := (rx.cipher.xcrypt c (rx.buf.take 16)).1
    let packetLength := readU32Be (listMem peek) 0
    let plainLen := toInt packetLength.toNat + 4
    let totalLen := plainLen + SSH_CRYPTO_SHA256_BYTES
    if LengthOverflows packetLength then .wild
    else if packetLength < 5 ∨ SSH_PACKET_PLAIN_MAX < plainLen then .invalid rx
    else if rx.buf.length < totalLen then .wait
    else if plainLen < 0 then .wild
    else
      let out := rx.cipher.xcrypt c (rx.buf.take plainLen.toNat)
      let mac := c.hmacSha256 rx.macKey (writeU32Be rx.seq ++ out.1)
      if mac ≠ (rx.buf.drop plainLen.toNat).take SSH_CRYPTO_SHA256_BYTES then .invalid rx
      else takePayload { rx with cipher := out.2 } (toInt packetLength.toNat) out.1 totalLen.toNat

def tryDecodePacket (c : Crypto) (rx : Rx) : Decode :=
  if rx.encrypted then tryDecodeEncryptedPacket c rx else tryDecodePlainPacket rx

/-- Two receiving sides with the same keys. -/
def Rx.SameKeys (rx rx' : Rx) : Prop :=
  rx'.encrypted = rx.encrypted ∧ rx'.cipher.key = rx.cipher.key ∧ rx'.macKey = rx.macKey

theorem Rx.SameKeys.refl (rx : Rx) : rx.SameKeys rx := ⟨rfl, rfl, rfl⟩

theorem Rx.SameKeys.cipher (rx : Rx) {cipher : Cipher} (h : cipher.key = rx.cipher.key) :
    rx.SameKeys { rx with cipher := cipher } := ⟨rfl, h, rfl⟩

theorem takePayload_sameKeys {rx₀ rx : Rx} (h : rx₀.SameKeys rx) (n : ℤ) (plain : List UInt8)
    (total : ℕ) : (∀ rx', takePayload rx n plain total = .invalid rx' → rx₀.SameKeys rx') ∧
      ∀ payload rx', takePayload rx n plain total = .packet payload rx' → rx₀.SameKeys rx' := by
  unfold takePayload
  simp only
  constructor
  · intro rx' hdec
    split at hdec
    · exact Decode.invalid.inj hdec ▸ h
    · split at hdec <;> cases hdec
  · intro payload rx' hdec
    split at hdec
    · cases hdec
    · split at hdec
      · cases hdec
      · exact (Decode.packet.inj hdec).2 ▸ h

/-- A decoder does not change the keys. -/
theorem tryDecodePacket_sameKeys (c : Crypto) (rx : Rx) :
    (∀ rx', tryDecodePacket c rx = .invalid rx' → rx.SameKeys rx') ∧
      ∀ payload rx', tryDecodePacket c rx = .packet payload rx' → rx.SameKeys rx' := by
  unfold tryDecodePacket
  split
  · unfold tryDecodeEncryptedPacket
    simp only
    split
    · exact ⟨nofun, nofun⟩
    split
    · exact ⟨nofun, nofun⟩
    split
    · exact ⟨fun rx' hdec => Decode.invalid.inj hdec ▸ Rx.SameKeys.refl rx, nofun⟩
    split
    · exact ⟨nofun, nofun⟩
    split
    · exact ⟨nofun, nofun⟩
    split
    · exact ⟨fun rx' hdec => Decode.invalid.inj hdec ▸ Rx.SameKeys.refl rx, nofun⟩
    · exact takePayload_sameKeys (Rx.SameKeys.cipher rx (Cipher.xcrypt_key ..)) _ _ _
  · unfold tryDecodePlainPacket
    simp only
    split
    · exact ⟨nofun, nofun⟩
    split
    · exact ⟨nofun, nofun⟩
    split
    · exact ⟨nofun, nofun⟩
    split
    · exact ⟨fun rx' hdec => Decode.invalid.inj hdec ▸ Rx.SameKeys.refl rx, nofun⟩
    · exact takePayload_sameKeys (Rx.SameKeys.refl rx) _ _ _

end Sodex.Ssh
