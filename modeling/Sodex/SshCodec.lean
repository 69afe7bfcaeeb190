import Sodex.SshServer
import Mathlib.Tactic.Ring

/-!
# A packet that was made is decoded

The decoders of the receiving side, run by a peer with mirrored keys, take a packet of the
sending side apart into its payload, whatever bytes follow. The reader takes what the writer made
of a list of fields apart into these fields.
-/
namespace Sodex.Ssh

open CInt CtrMode Runs List

/-- A byte of a number joins the part above it. -/
theorem or_byte (n k : ℕ) :
    (n >>> (k + 8)) <<< (k + 8) ||| (n >>> k % 256) <<< k = (n >>> k) <<< k := by
  have hbyte : n >>> k % 256 < 256 := Nat.mod_lt _ (by decide)
  have hlt : (n >>> k % 256) <<< k < 2 ^ (k + 8) := by
    rw [Nat.shiftLeft_eq, pow_add, mul_comm]
    exact mul_lt_mul_of_pos_left hbyte (Nat.two_pow_pos k)
  rw [← Nat.shiftLeft_add_eq_or_of_lt hlt]
  simp only [Nat.shiftLeft_eq, Nat.shiftRight_eq_div_pow, pow_add, ← Nat.div_div_eq_div_mul]
  generalize n / 2 ^ k = m
  calc m / 2 ^ 8 * (2 ^ k * 2 ^ 8) + m % 2 ^ 8 * 2 ^ k
      = (2 ^ 8 * (m / 2 ^ 8) + m % 2 ^ 8) * 2 ^ k := by ring
    _ = m * 2 ^ k := by rw [Nat.div_add_mod]

/-- The four bytes of a number give it back. -/
theorem join_bytes (v : UInt32) :
    ((v >>> 24).toUInt8.toUInt32 <<< 24) ||| ((v >>> 16).toUInt8.toUInt32 <<< 16) |||
      ((v >>> 8).toUInt8.toUInt32 <<< 8) ||| v.toUInt8.toUInt32 = v := by
  have hv := v.toNat_lt
  have h24 : (24 : UInt32).toNat % 32 = 24 := rfl
  have h16 : (16 : UInt32).toNat % 32 = 16 := rfl
  have h8 : (8 : UInt32).toNat % 32 = 8 := rfl
  apply UInt32.toNat_inj.mp
  simp only [UInt32.toNat_or, UInt32.toNat_shiftLeft, UInt32.toNat_shiftRight,
    UInt32.toNat_toUInt8, UInt8.toNat_toUInt32, h24, h16, h8]
  generalize v.toNat = n at hv
  have htop : (n >>> 24 % 2 ^ 8) <<< 24 % 2 ^ 32 = (n >>> 24) <<< 24 := by
    omega
  have hsecond : (n >>> 16 % 2 ^ 8) <<< 16 % 2 ^ 32 = (n >>> 16 % 256) <<< 16 := by
    omega
  have hthird : (n >>> 8 % 2 ^ 8) <<< 8 % 2 ^ 32 = (n >>> 8 % 256) <<< 8 := by
    omega
  rw [htop, hsecond, hthird, or_byte n 16, or_byte n 8]
  exact or_byte n 0

theorem readU32Be_writeU32Be (v : UInt32) (rest : List UInt8) :
    readU32Be (listMem (writeU32Be v ++ rest)) 0 = v := join_bytes v

/-- The padding that goes with a payload: long enough, and the packet within its bound; under
encryption the packet has at least one block. -/
structure Padded (encrypted : Bool) (payload padding : List UInt8) : Prop where
  least : 4 ≤ padding.length
  most : padding.length < 256
  bound : payload.length + padding.length + 5 ≤ SSH_PACKET_OUT_MAX
  block : encrypted = true → 16 ≤ payload.length + padding.length + 5

/-- The bytes of a packet for a peer whose receiving side is `rx`. -/
def encodeFor (c : Crypto) (rx : Rx) (payload padding : List UInt8) : List UInt8 :=
  let plain := packetBytes payload padding
  if rx.encrypted then
    (rx.cipher.xcrypt c plain).1 ++ c.hmacSha256 rx.macKey (writeU32Be rx.seq ++ plain)
  else plain

/-- The peer after the packet, apart from its buffer. -/
def advance (c : Crypto) (rx : Rx) (payload padding : List UInt8) : Rx :=
  { rx with
    seq := rx.seq + 1
    cipher :=
      if rx.encrypted then (rx.cipher.xcrypt c (packetBytes payload padding)).2 else rx.cipher }

section Packet

variable {payload padding : List UInt8} {encrypted : Bool}

theorem packetBytes_length (payload padding : List UInt8) :
    (packetBytes payload padding).length = payload.length + padding.length + 5 := by
  simp only [packetBytes, writeU32Be, length_append, length_cons, length_nil]
  omega

section

variable (h : Padded encrypted payload padding)
include h

theorem Padded.length_field :
    (payload.length + padding.length + 1).toUInt32.toNat = payload.length + padding.length + 1 := by
  have hbound := h.bound
  simp only [SSH_PACKET_OUT_MAX] at hbound
  rw [Nat.toUInt32_eq, UInt32.toNat_ofNat']
  omega

theorem Padded.length_int :
    toInt (payload.length + padding.length + 1).toUInt32.toNat =
      payload.length + padding.length + 1 := by
  have hbound := h.bound
  simp only [SSH_PACKET_OUT_MAX] at hbound
  rw [h.length_field, toInt_of_range (by omega) (by omega)]
  push_cast
  ring

theorem Padded.not_overflows :
    ¬LengthOverflows (payload.length + padding.length + 1).toUInt32 := by
  have hbound := h.bound
  simp only [SSH_PACKET_OUT_MAX] at hbound
  unfold LengthOverflows
  rw [h.length_int, not_not, toInt_of_range (by omega) (by omega)]

theorem Padded.not_short :
    ¬(payload.length + padding.length + 1).toUInt32 < 5 := by
  have hleast := h.least
  rw [UInt32.lt_iff_toNat_lt, h.length_field]
  show ¬payload.length + padding.length + 1 < 5
  omega

/-- The end of both decoders gives the payload back. -/
theorem takePayload_packetBytes (rx : Rx)
    (rest : List UInt8) (total : ℕ) :
    takePayload rx (payload.length + padding.length + 1) (packetBytes payload padding ++ rest)
      total = .packet payload { rx with buf := rx.buf.drop total, seq := rx.seq + 1 } := by
  have hleast := h.least
  have hbound := h.bound
  simp only [SSH_PACKET_OUT_MAX] at hbound
  have hpad : ((packetBytes payload padding ++ rest).getD 4 0).toNat = padding.length := by
    show padding.length.toUInt8.toNat = padding.length
    exact Nat.mod_eq_of_lt h.most
  have hdrop : (packetBytes payload padding ++ rest).drop 5 = payload ++ padding ++ rest := rfl
  have hlen : toInt ((payload.length + padding.length + 1 : ℤ) - padding.length - 1) =
      payload.length := by
    rw [toInt_of_range (by omega) (by omega)]
    ring
  unfold takePayload
  simp only [hpad, hdrop, hlen]
  rw [if_neg (by omega), if_neg (by simp only [SSH_PAYLOAD_MAX]; omega)]
  simp

theorem tryDecodePlainPacket_packetBytes (rx : Rx)
    (rest : List UInt8) :
    tryDecodePlainPacket { rx with buf := packetBytes payload padding ++ rest } =
      .packet payload { rx with buf := rest, seq := rx.seq + 1 } := by
  have hbound := h.bound
  simp only [SSH_PACKET_OUT_MAX] at hbound
  have hread : readU32Be (listMem (packetBytes payload padding ++ rest)) 0 =
      (payload.length + padding.length + 1).toUInt32 := by
    exact readU32Be_writeU32Be _ _
  have hlen : (packetBytes payload padding ++ rest).length =
      payload.length + padding.length + 5 + rest.length := by
    rw [length_append, packetBytes_length]
  unfold tryDecodePlainPacket
  simp only [hread, h.length_int, hlen]
  rw [if_neg (by omega), if_neg h.not_overflows, if_neg (by
    rintro (hshort | hshort)
    · exact h.not_short hshort
    · push_cast at hshort
      omega), if_neg (by simp only [SSH_PACKET_PLAIN_MAX]; omega),
    takePayload_packetBytes h]
  have hdrop : (payload.length + padding.length + 1 + 4 : ℤ).toNat =
      (packetBytes payload padding).length := by
    rw [packetBytes_length]
    omega
  rw [hdrop, drop_left]

end

/-- A sealed packet is decoded by a peer with the same keys, counter and number. -/
theorem tryDecodeEncryptedPacket_sealed (c : Crypto) (h : Padded true payload padding) (rx : Rx)
    (rest : List UInt8) :
    tryDecodeEncryptedPacket c { rx with
      buf := (rx.cipher.xcrypt c (packetBytes payload padding)).1 ++
        c.hmacSha256 rx.macKey (writeU32Be rx.seq ++ packetBytes payload padding) ++ rest } =
      .packet payload { rx with
        buf := rest
        seq := rx.seq + 1
        cipher := (rx.cipher.xcrypt c (packetBytes payload padding)).2 } := by
  have hbound := h.bound
  have hblock := h.block rfl
  simp only [SSH_PACKET_OUT_MAX] at hbound
  have hplain := packetBytes_length payload padding
  have hfield : packetBytes payload padding = writeU32Be
      (payload.length + padding.length + 1).toUInt32 ++
        ([padding.length.toUInt8] ++ payload ++ padding) := by
    simp only [packetBytes, append_assoc]
  generalize hp : packetBytes payload padding = plain at hplain
  generalize hm : c.hmacSha256 rx.macKey (writeU32Be rx.seq ++ plain) = mac
  have hmac : mac.length = 32 := by
    rw [← hm]
    exact c.hmac_length _ _
  have hsealed : (rx.cipher.xcrypt c plain).1.length = plain.length := xcrypt_length _ _ _
  -- the first block gives the length field
  have hpeek : (rx.cipher.xcrypt c (((rx.cipher.xcrypt c plain).1 ++ mac ++ rest).take 16)).1 =
      plain.take 16 := by
    rw [append_assoc, take_append_of_le_length (by omega)]
    show (xcrypt _ _ ((xcrypt _ _ plain).1.take 16)).1 = _
    rw [xcrypt_take, xcrypt_xcrypt]
  have hread : readU32Be (listMem (plain.take 16)) 0 =
      (payload.length + padding.length + 1).toUInt32 := by
    rw [← hp, hfield, take_append]
    exact readU32Be_writeU32Be _ _
  have htake : ((rx.cipher.xcrypt c plain).1 ++ mac ++ rest).take plain.length =
      (rx.cipher.xcrypt c plain).1 := by
    rw [append_assoc, ← hsealed, take_left]
  have hopen : rx.cipher.xcrypt c (rx.cipher.xcrypt c plain).1 =
      (plain, (rx.cipher.xcrypt c plain).2) :=
    Prod.ext (xcrypt_xcrypt _ _ plain) (by simp only [Cipher.xcrypt, xcrypt, length_mapIdx])
  have hlen : ((rx.cipher.xcrypt c plain).1 ++ mac ++ rest).length =
      plain.length + 32 + rest.length := by
    rw [length_append, length_append, hsealed, hmac]
  have hmacbytes : (((rx.cipher.xcrypt c plain).1 ++ mac ++ rest).drop plain.length).take 32 =
      mac := by
    rw [append_assoc, ← hsealed, drop_left, ← hmac, take_left]
  have hnat : (payload.length + padding.length + 1 + 4 : ℤ).toNat = plain.length := by omega
  unfold tryDecodeEncryptedPacket
  simp only [hpeek, hread, h.length_int, hnat, htake, hopen, hlen, SSH_CRYPTO_SHA256_BYTES,
    hmacbytes]
  rw [if_neg (by omega), if_neg h.not_overflows, if_neg (by
    rintro (hshort | hlong)
    · exact h.not_short hshort
    · simp only [SSH_PACKET_PLAIN_MAX] at hlong
      omega), if_neg (by push_cast; omega), if_neg (by omega), if_neg (not_not.mpr hm)]
  have htotal : (payload.length + padding.length + 1 + 4 + (32 : ℕ) : ℤ).toNat =
      ((rx.cipher.xcrypt c plain).1 ++ mac).length := by
    rw [length_append, hsealed, hmac]
    omega
  have hend := takePayload_packetBytes h { rx with
    buf := (rx.cipher.xcrypt c plain).1 ++ mac ++ rest, cipher := (rx.cipher.xcrypt c plain).2 } []
    ((rx.cipher.xcrypt c plain).1 ++ mac).length
  rw [hp, append_nil] at hend
  rw [htotal, hend, drop_left]

end Packet

/-- A packet made for a peer is decoded by the peer, whatever follows. -/
theorem tryDecodePacket_encodeFor (c : Crypto) (rx : Rx) {payload padding : List UInt8}
    (h : Padded rx.encrypted payload padding) (rest : List UInt8) :
    tryDecodePacket c { rx with buf := encodeFor c rx payload padding ++ rest } =
      .packet payload { advance c rx payload padding with buf := rest } := by
  obtain ⟨buf, seq, encrypted, cipher, macKey⟩ := rx
  cases encrypted with
  | true =>
    simp only [tryDecodePacket, encodeFor, advance, if_true]
    exact tryDecodeEncryptedPacket_sealed c h ⟨buf, seq, true, cipher, macKey⟩ rest
  | false =>
    simp only [tryDecodePacket, encodeFor, advance, Bool.false_eq_true, if_false]
    exact tryDecodePlainPacket_packetBytes h ⟨buf, seq, false, cipher, macKey⟩ rest

/-- A field of a message. -/
inductive Field where
  | byte (value : UInt8)
  | bool (value : Bool)
  | u32 (value : UInt32)
  | string (data : List UInt8)

def Field.kind : Field → Reader.Call
  | byte _ => .byte
  | bool _ => .bool
  | u32 _ => .u32
  | string _ => .string

def Field.bytes : Field → List UInt8
  | byte value => [value]
  | bool value => [if value then 1 else 0]
  | u32 value => writeU32Be value
  | string data => writeU32Be data.length.toUInt32 ++ data

def Writer.put (w : Writer) : Field → Writer
  | .byte value => w.putByte value
  | .bool value => w.putBool value
  | .u32 value => w.putU32 value
  | .string data => w.putString data

/-- The next field, of the given kind. -/
def Reader.get (r : Reader) : Reader.Call → Option Field × Reader
  | .byte => (some (.byte r.getByte.1), r.getByte.2)
  | .bool => (some (.bool r.getBool.1), r.getBool.2)
  | .u32 => (some (.u32 r.getU32.1), r.getU32.2)
  | .string =>
    (r.getString.1.map fun s => .string (bytesAt r.buf s.off s.len.toNat), r.getString.2)

def Reader.gets : List Reader.Call → Reader → List (Option Field) × Reader
  | [], r => ([], r)
  | c :: calls, r => ((r.get c).1 :: (gets calls (r.get c).2).1, (gets calls (r.get c).2).2)

/-- The reader stands between the bytes `done` and `rest` of a message. -/
structure Reader.At (r : Reader) (done rest : List UInt8) : Prop where
  buf : r.buf = listMem (done ++ rest)
  len : r.len = (done ++ rest).length
  pos : r.pos = done.length
  ok : r.error = false
  short : (done ++ rest).length < 2 ^ 31

section Fields

variable {r : Reader} {done data rest : List UInt8} {w : Writer}

theorem putData_result (h : (w.putData data).error = false) :
    w.error = false ∧ (w.putData data).bytes = w.bytes ++ data := by
  unfold Writer.putData at h ⊢
  split_ifs at h ⊢ with herror
  · rw [herror] at h
    cases h
  · exact ⟨by simpa using herror, rfl⟩

theorem put_result {f : Field} (h : (w.put f).error = false) :
    w.error = false ∧ (w.put f).bytes = w.bytes ++ f.bytes := by
  cases f with
  | byte | bool | u32 => exact putData_result h
  | string data =>
    obtain ⟨hsize, hdata⟩ := putData_result h
    obtain ⟨hw, hu32⟩ := putData_result hsize
    refine ⟨hw, hdata.trans ?_⟩
    rw [Writer.putU32, hu32, append_assoc]
    rfl

theorem puts_result (fields : List Field) (h : (fields.foldl Writer.put w).error = false) :
    w.error = false ∧
      (fields.foldl Writer.put w).bytes = w.bytes ++ fields.flatMap Field.bytes := by
  induction fields generalizing w with
  | nil => exact ⟨h, (append_nil _).symm⟩
  | cons f fields ih =>
    obtain ⟨hput, hbytes⟩ := ih h
    obtain ⟨hw, hf⟩ := put_result hput
    exact ⟨hw, by rw [foldl_cons, hbytes, hf, append_assoc, flatMap_cons]⟩

namespace Reader.At

theorem buf_at (h : r.At done rest) {i : ℤ} (hi : 0 ≤ i) :
    r.buf (r.pos + i) = listMem rest i := by
  have hn : ((done.length : ℤ) + i).toNat = done.length + i.toNat := by omega
  simp only [h.buf, h.pos, listMem, hn, getD_eq_getElem?_getD]
  rw [getElem?_append_right (Nat.le_add_right _ _), Nat.add_sub_cancel_left]

theorem advance (h : r.At done (data ++ rest)) :
    (r.advance data.length).At (done ++ data) rest ∧ ¬ r.len < toInt (r.pos + data.length) := by
  have hlen := h.len
  have hshort := h.short
  have hpos : toInt (r.pos + data.length) = (done ++ data).length := by
    simp only [length_append] at hshort ⊢
    rw [h.pos, toInt_of_range] <;> push_cast <;> omega
  rw [← append_assoc] at hlen hshort
  exact ⟨⟨by rw [append_assoc]; exact h.buf, hlen, hpos, h.ok, hshort⟩, by
    rw [hpos, hlen, length_append]; omega⟩

theorem getU32 {v : UInt32} (h : r.At done (writeU32Be v ++ rest)) :
    r.getU32 = (v, r.advance 4) ∧ (r.advance 4).At (done ++ writeU32Be v) rest := by
  obtain ⟨hnext, (hfits : ¬ r.len < toInt (r.pos + 4))⟩ := h.advance
  have hstart := h.buf_at le_rfl
  rw [add_zero] at hstart
  have hread : readU32Be r.buf r.pos = readU32Be (listMem (writeU32Be v ++ rest)) 0 := by
    simp [readU32Be, hstart, h.buf_at]
  rw [Reader.getU32, if_neg (not_or.mpr ⟨by simp [h.ok], hfits⟩), hread, readU32Be_writeU32Be]
  exact ⟨rfl, hnext⟩

theorem getByte {v : UInt8} (h : r.At done ([v] ++ rest)) :
    r.getByte = (v, r.advance 1) ∧ (r.advance 1).At (done ++ [v]) rest := by
  obtain ⟨hnext, (hfits : ¬ r.len < toInt (r.pos + 1))⟩ := h.advance
  have hbyte := h.buf_at le_rfl
  rw [add_zero] at hbyte
  rw [Reader.getByte, if_neg (not_or.mpr ⟨by simp [h.ok], hfits⟩), hbyte]
  exact ⟨rfl, hnext⟩

theorem getString (h : r.At done (writeU32Be data.length.toUInt32 ++ (data ++ rest))) :
    r.getString = (some ⟨(r.advance 4).pos, data.length⟩, (r.advance 4).advance data.length) ∧
      bytesAt r.buf (r.advance 4).pos data.length = data ∧
      ((r.advance 4).advance data.length).At
        (done ++ writeU32Be data.length.toUInt32 ++ data) rest := by
  obtain ⟨hget, hsize⟩ := h.getU32
  have hlength : toInt data.length.toUInt32.toNat = data.length := by
    have hshort := h.short
    simp only [length_append] at hshort
    have hmod : data.length.toUInt32.toNat = data.length := Nat.mod_eq_of_lt (by omega)
    rw [hmod]
    exact toInt_of_range (by omega) (by omega)
  obtain ⟨hnext, hfits⟩ := hsize.advance
  refine ⟨?_, ?_, hnext⟩
  · simp only [Reader.getString, hget, hlength, hsize.ok, hfits, Bool.false_eq_true, if_false]
  · have hmap : bytesAt (r.advance 4).buf (r.advance 4).pos data.length =
        (range data.length).map fun i : ℕ => listMem (data ++ rest) i := by
      simp [bytesAt, hsize.buf_at]
    refine hmap.trans (ext_getElem (by simp) fun i _ hi => ?_)
    simp [listMem, getElem?_append_left hi, hi]

theorem get {f : Field} (h : r.At done (f.bytes ++ rest)) :
    (r.get f.kind).1 = some f ∧ (r.get f.kind).2.At (done ++ f.bytes) rest := by
  cases f with
  | byte v =>
    obtain ⟨hget, hnext⟩ := h.getByte
    rw [Field.kind, Reader.get, hget]
    exact ⟨rfl, hnext⟩
  | bool v =>
    obtain ⟨hget, hnext⟩ := h.getByte
    rw [Field.kind, Reader.get, Reader.getBool, hget]
    exact ⟨by cases v <;> rfl, hnext⟩
  | u32 v =>
    obtain ⟨hget, hnext⟩ := h.getU32
    rw [Field.kind, Reader.get, hget]
    exact ⟨rfl, hnext⟩
  | string data =>
    rw [Field.bytes, append_assoc] at h
    obtain ⟨hget, hdata, hnext⟩ := h.getString
    rw [Field.kind, Reader.get, hget, Field.bytes, ← append_assoc]
    exact ⟨congrArg (some ∘ Field.string) hdata, hnext⟩

theorem gets (fields : List Field) (h : r.At done (fields.flatMap Field.bytes)) :
    (Reader.gets (fields.map Field.kind) r).1 = fields.map some ∧
      (Reader.gets (fields.map Field.kind) r).2.At (done ++ fields.flatMap Field.bytes) [] := by
  induction fields generalizing r done with
  | nil => exact ⟨rfl, by rwa [flatMap_nil, append_nil]⟩
  | cons f fields ih =>
    obtain ⟨hf, hnext⟩ := h.get
    obtain ⟨hfields, hend⟩ := ih hnext
    exact ⟨congrArg₂ cons hf hfields, by rwa [flatMap_cons, ← append_assoc]⟩

end Reader.At

end Fields

/-- What was written is read back, field by field and to the end. -/
theorem fields_read_back (cap : ℕ) (fields : List Field) (bytes : List UInt8)
    (h : (fields.foldl Writer.put (.init cap)).result = some bytes) (hlen : bytes.length < 2 ^ 31) :
    let read := Reader.gets (fields.map Field.kind) (.init (listMem bytes) bytes.length)
    read.1 = fields.map some ∧ read.2.At bytes [] := by
  unfold Writer.result at h
  split_ifs at h with herror
  obtain ⟨-, hbytes⟩ := puts_result fields (by simpa using herror)
  obtain rfl := (Option.some.inj h).symm.trans hbytes
  exact Reader.At.gets fields ⟨rfl, rfl, rfl, rfl, hlen⟩

theorem fields_read_back_exec : ∃ bytes : List UInt8, bytes.length = 14 ∧
    (Reader.gets [.byte, .u32, .string, .bool] (.init (listMem bytes) bytes.length)).1 =
      [some (.byte 98), some (.u32 0), some (.string [101, 120, 101, 99]), some (.bool true)] :=
  ⟨[98, 0, 0, 0, 0, 0, 0, 0, 4, 101, 120, 101, 99, 1], rfl, (fields_read_back 64
    [.byte 98, .u32 0, .string [101, 120, 101, 99], .bool true] _ rfl (by decide)).1⟩

end Sodex.Ssh
