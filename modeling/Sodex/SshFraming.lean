import Sodex.SshWire

/-!
# Framing of plain packets

`ssh_try_decode_plain_packet_buffer` for every receive buffer and every bound on packets. The length
field is a number of the wire that is brought into an `int`, and sums of `int`s wrap.
-/
namespace Sodex.Ssh

open CInt Reader

/-- The receive buffer, also behind the `rx_len` bytes that have arrived. -/
structure RxBuffer where
  mem : Memory
  len : Int32
  seq : UInt32

/-- What a call makes of the buffer: 0 and -1 leave everything alone; `wild` is a call that goes on to
copy far more than there is, and would return 1. -/
inductive Framing where
  | wait
  | reject
  | packet (payload : List UInt8) (rest : RxBuffer)
  | wild

/-- `ssh_move_bytes` to the start of the buffer. -/
def moveBytes (mem : Memory) (from' len : ℤ) : Memory := fun i =>
  if 0 ≤ i ∧ i < len then mem (i + from') else mem i

def tryDecodePlainPacketBuffer (packetPlainMax : Int32) (rx : RxBuffer) : Framing :=
  if rx.len.toInt < 4 then .wait
  else
    let packetLength := readU32Be rx.mem 0
    let totalLen := toInt (toInt packetLength.toNat + 4)
    if packetLength < 5 ∨ rx.len.toInt < totalLen then .wait
    else if packetPlainMax.toInt < totalLen then .reject
    else
      let paddingLen : ℤ := (rx.mem 4).toNat
      let payloadLen := toInt (toInt packetLength.toNat - paddingLen - 1)
      if paddingLen < 4 ∨ payloadLen < 0 then .reject
      else if totalLen < 0 then .wild
      else .packet (bytesAt rx.mem 5 payloadLen.toNat)
        { mem := moveBytes rx.mem totalLen (rx.len.toInt - totalLen)
          len := Int32.ofInt (rx.len.toInt - totalLen)
          seq := rx.seq + 1 }

def RxBuffer.lengthField (rx : RxBuffer) : ℕ :=
  ((((rx.mem 0).toNat * 256 + (rx.mem 1).toNat) * 256 + (rx.mem 2).toNat) * 256 + (rx.mem 3).toNat)

def RxBuffer.padding (rx : RxBuffer) : ℕ := (rx.mem 4).toNat

/-- A length field that can be that of a packet. -/
def Admissible (packetPlainMax : Int32) (length : ℕ) : Prop :=
  5 ≤ length ∧ (length : ℤ) + 4 ≤ packetPlainMax.toInt

/-- The buffer starts with a complete packet within the bound. -/
structure RxBuffer.Complete (packetPlainMax : Int32) (rx : RxBuffer) : Prop where
  header : 4 ≤ rx.len.toInt
  length : Admissible packetPlainMax rx.lengthField
  arrived : (rx.lengthField : ℤ) + 4 ≤ rx.len.toInt
  padded : 4 ≤ rx.padding ∧ rx.padding + 1 ≤ rx.lengthField

/-- More bytes have arrived. -/
def RxBuffer.Extends (rx rx' : RxBuffer) : Prop :=
  rx.len.toInt ≤ rx'.len.toInt ∧ ∀ i, 0 ≤ i → i < rx.len.toInt → rx'.mem i = rx.mem i

/-- The packet that a complete buffer starts with, and the rest of the buffer moved down. -/
def RxBuffer.first (rx : RxBuffer) : Framing :=
  let total : ℤ := rx.lengthField + 4
  .packet (bytesAt rx.mem 5 (rx.lengthField - rx.padding - 1))
    ⟨moveBytes rx.mem total (rx.len.toInt - total), Int32.ofInt (rx.len.toInt - total), rx.seq + 1⟩

/-- A call takes the first packet off a complete buffer and off no other, and waits only for what can
still come. -/
structure FramesExactly (packetPlainMax : Int32) (rx : RxBuffer) : Prop where
  complete : rx.Complete packetPlainMax → tryDecodePlainPacketBuffer packetPlainMax rx = rx.first
  incomplete : ¬rx.Complete packetPlainMax →
    tryDecodePlainPacketBuffer packetPlainMax rx = .wait ∨
      tryDecodePlainPacketBuffer packetPlainMax rx = .reject
  waits : tryDecodePlainPacketBuffer packetPlainMax rx = .wait → ∃ rx' payload rest,
    rx.Extends rx' ∧ tryDecodePlainPacketBuffer packetPlainMax rx' = .packet payload rest

/-- The sums wrap, and what they wrap to passes the checks. -/
structure RxBuffer.Wraps (packetPlainMax : Int32) (rx : RxBuffer) : Prop where
  header : 4 ≤ rx.len.toInt
  padded : 4 ≤ rx.padding
  high : 2147483644 ≤ rx.lengthField ∧ rx.lengthField ≤ 2147483648 + rx.padding
  bound : (rx.lengthField : ℤ) + 4 - 4294967296 ≤ packetPlainMax.toInt

/-- There is no packet yet, and nothing is wrong yet in the eyes of the code. -/
def RxBuffer.Waits (rx : RxBuffer) : Prop :=
  rx.len.toInt < 4 ∨ rx.lengthField < 5 ∨
    (rx.lengthField < 2147483644 ∧ rx.len.toInt < rx.lengthField + 4)

/-- A byte of the header, zero as long as it has not arrived. -/
def RxBuffer.headerByte (rx : RxBuffer) (i : ℤ) : ℕ :=
  if i < rx.len.toInt then (rx.mem i).toNat else 0

/-- The least length field that the bytes that are there can become. -/
def RxBuffer.leastField (rx : RxBuffer) : ℕ :=
  ((rx.headerByte 0 * 256 + rx.headerByte 1) * 256 + rx.headerByte 2) * 256 + rx.headerByte 3

/-- What is there is the start of a packet within the bound. -/
structure RxBuffer.Completable (packetPlainMax : Int32) (rx : RxBuffer) : Prop where
  smallest : 9 ≤ packetPlainMax.toInt
  bound : (rx.leastField : ℤ) + 4 ≤ packetPlainMax.toInt
  length : 4 ≤ rx.len.toInt → 5 ≤ rx.lengthField
  padded : 5 ≤ rx.len.toInt → 4 ≤ rx.padding ∧ rx.padding + 1 ≤ rx.lengthField

theorem toNat_readU32Be (rx : RxBuffer) : (readU32Be rx.mem 0).toNat = rx.lengthField := by
  have h24 : (24 : UInt32).toNat % 32 = 24 := rfl
  have h16 : (16 : UInt32).toNat % 32 = 16 := rfl
  have h8 : (8 : UInt32).toNat % 32 = 8 := rfl
  have h₀ := (rx.mem 0).toNat_lt
  have h₁ := (rx.mem 1).toNat_lt
  have h₂ := (rx.mem 2).toNat_lt
  have h₃ := (rx.mem 3).toNat_lt
  simp only [readU32Be, RxBuffer.lengthField, UInt32.toNat_or, UInt32.toNat_shiftLeft,
    UInt8.toNat_toUInt32, h24, h16, h8, zero_add]
  generalize (rx.mem 0).toNat = a at h₀ ⊢
  generalize (rx.mem 1).toNat = b at h₁ ⊢
  generalize (rx.mem 2).toNat = c at h₂ ⊢
  have hab : a <<< 24 % 2 ^ 32 ||| b <<< 16 % 2 ^ 32 = (a * 256 + b) <<< 16 := by
    rw [Nat.mod_eq_of_lt (by simp; omega),
      Nat.mod_eq_of_lt (by simp; omega),
      ← Nat.shiftLeft_add_eq_or_of_lt (by simp; omega)]
    omega
  have habc : (a * 256 + b) <<< 16 ||| c <<< 8 % 2 ^ 32 = ((a * 256 + b) * 256 + c) <<< 8 := by
    rw [Nat.mod_eq_of_lt (by simp; omega),
      ← Nat.shiftLeft_add_eq_or_of_lt (by simp; omega)]
    omega
  rw [hab, habc, ← Nat.shiftLeft_add_eq_or_of_lt h₃, Nat.shiftLeft_eq]

theorem RxBuffer.lengthField_lt (rx : RxBuffer) : rx.lengthField < 4294967296 := by
  rw [← toNat_readU32Be]
  exact UInt32.toNat_lt _

theorem RxBuffer.padding_lt (rx : RxBuffer) : rx.padding < 256 := UInt8.toNat_lt _

/-- `total_len` as the code computes it. -/
theorem total_eq {n : ℕ} (h : n < 4294967296) : (n < 2147483644 ∧ toInt (toInt n + 4) = n + 4) ∨
      (2147483644 ≤ n ∧ toInt (toInt n + 4) = n + 4 - 4294967296) := by
  unfold toInt
  omega

/-- `payload_len` as the code computes it: it wraps twice just above the largest `int`. -/
theorem payload_eq {n p : ℕ} (h : n < 4294967296) (hp : p < 256) :
    (n ≤ 2147483648 + p ∧ toInt (toInt n - p - 1) = n - p - 1) ∨
      (2147483648 + p < n ∧ toInt (toInt n - p - 1) = n - p - 1 - 4294967296) := by
  unfold toInt
  omega

section Outcomes

variable {packetPlainMax : Int32} {rx : RxBuffer}

theorem RxBuffer.Complete.not_waits (h : rx.Complete packetPlainMax) : ¬rx.Waits := by
  have := h.length.1
  have := h.arrived
  unfold RxBuffer.Waits
  omega

/-- The code's decisions, over numbers that do not wrap. -/
theorem tryDecodePlainPacketBuffer_cases (packetPlainMax : Int32) (rx : RxBuffer) :
    (tryDecodePlainPacketBuffer packetPlainMax rx = .wait ∧ rx.Waits) ∨
    (tryDecodePlainPacketBuffer packetPlainMax rx = .reject ∧ ¬rx.Waits ∧
      ¬rx.Complete packetPlainMax ∧ ¬rx.Wraps packetPlainMax) ∨
    (tryDecodePlainPacketBuffer packetPlainMax rx = rx.first ∧ rx.Complete packetPlainMax) ∨
    (tryDecodePlainPacketBuffer packetPlainMax rx = .wild ∧ rx.Wraps packetPlainMax ∧
      ¬rx.Complete packetPlainMax) := by
  have hlt := rx.lengthField_lt
  have hp := rx.padding_lt
  have hmax := packetPlainMax.toInt_lt
  have hfive : readU32Be rx.mem 0 < 5 ↔ rx.lengthField < 5 := by
    rw [UInt32.lt_iff_toNat_lt, toNat_readU32Be]
    rfl
  have hpad : (rx.mem 4).toNat = rx.padding := rfl
  have htotal := total_eq hlt
  have hpayload := payload_eq hlt hp
  simp only [tryDecodePlainPacketBuffer, hfive, toNat_readU32Be, hpad]
  generalize toInt (toInt rx.lengthField + 4) = total at htotal ⊢
  generalize toInt (toInt rx.lengthField - rx.padding - 1) = payload at hpayload ⊢
  split_ifs with hheader hwait hbound hpadding hwild
  · exact .inl ⟨rfl, .inl hheader⟩
  · refine .inl ⟨rfl, ?_⟩
    unfold RxBuffer.Waits
    omega
  · refine .inr (.inl ⟨rfl, ?_, fun h => ?_, fun h => ?_⟩)
    · unfold RxBuffer.Waits
      omega
    · have := h.length.2
      omega
    · have := h.high
      have := h.bound
      omega
  · refine .inr (.inl ⟨rfl, ?_, fun h => ?_, fun h => ?_⟩)
    · unfold RxBuffer.Waits
      omega
    · have := h.length.2
      have := h.padded
      omega
    · have := h.high
      have := h.padded
      omega
  · refine .inr (.inr (.inr ⟨rfl, ⟨by omega, by omega, by omega, by omega⟩, fun h => ?_⟩))
    have := h.length.2
    omega
  · obtain ⟨hlow, rfl⟩ : rx.lengthField < 2147483644 ∧ total = rx.lengthField + 4 := by omega
    have hsize : payload.toNat = rx.lengthField - rx.padding - 1 := by omega
    rw [hsize]
    exact .inr (.inr (.inl ⟨rfl, by omega, ⟨by omega, by omega⟩, by omega, by omega⟩))

/-- A packet is taken only off a complete buffer. -/
theorem packet_of_complete (h : rx.Complete packetPlainMax) :
    tryDecodePlainPacketBuffer packetPlainMax rx = rx.first := by
  obtain h' | h' | h' | h' := tryDecodePlainPacketBuffer_cases packetPlainMax rx
  · exact absurd h'.2 h.not_waits
  · exact absurd h h'.2.2.1
  · exact h'.1
  · exact absurd h h'.2.2

theorem complete_of_packet {payload : List UInt8} {rest : RxBuffer}
    (h : tryDecodePlainPacketBuffer packetPlainMax rx = .packet payload rest) :
    rx.Complete packetPlainMax := by
  obtain h' | h' | h' | h' := tryDecodePlainPacketBuffer_cases packetPlainMax rx
  · cases h.symm.trans h'.1
  · cases h.symm.trans h'.1
  · exact h'.2
  · cases h.symm.trans h'.1

theorem wild_of_wraps (h : rx.Wraps packetPlainMax) :
    tryDecodePlainPacketBuffer packetPlainMax rx = .wild := by
  have hheader := h.header
  have hhigh := h.high
  obtain h' | h' | h' | h' := tryDecodePlainPacketBuffer_cases packetPlainMax rx
  · have := h'.2
    unfold RxBuffer.Waits at this
    omega
  · exact absurd h h'.2.2.2
  · have := h'.2.length.2
    have := packetPlainMax.toInt_lt
    omega
  · exact h'.1

theorem wait_of_waits (h : rx.Waits) : tryDecodePlainPacketBuffer packetPlainMax rx = .wait := by
  obtain h' | h' | h' | h' := tryDecodePlainPacketBuffer_cases packetPlainMax rx
  · exact h'.1
  · exact absurd h h'.2.1
  · exact absurd h h'.2.not_waits
  · have := h'.2.1.header
    have := h'.2.1.high
    unfold RxBuffer.Waits at h
    omega

end Outcomes

section Extensions

variable {packetPlainMax : Int32} {rx rx' : RxBuffer}

section

variable (h : rx.Extends rx')
include h

theorem RxBuffer.Extends.headerByte_le {i : ℤ} (hi : 0 ≤ i) :
    rx.headerByte i ≤ (rx'.mem i).toNat := by
  unfold RxBuffer.headerByte
  split
  case isTrue hlt => rw [h.2 i hi hlt]
  case isFalse => omega

theorem RxBuffer.Extends.leastField_le : rx.leastField ≤ rx'.lengthField := by
  have h₀ := h.headerByte_le (le_refl 0)
  have h₁ := h.headerByte_le (i := 1) (by omega)
  have h₂ := h.headerByte_le (i := 2) (by omega)
  have h₃ := h.headerByte_le (i := 3) (by omega)
  unfold RxBuffer.leastField RxBuffer.lengthField
  omega

theorem RxBuffer.Extends.lengthField_eq (hlen : 4 ≤ rx.len.toInt) :
    rx'.lengthField = rx.lengthField := by
  unfold RxBuffer.lengthField
  rw [h.2 0 (by omega) (by omega), h.2 1 (by omega) (by omega), h.2 2 (by omega) (by omega),
    h.2 3 (by omega) (by omega)]

theorem RxBuffer.Extends.padding_eq (hlen : 5 ≤ rx.len.toInt) :
    rx'.padding = rx.padding := by
  unfold RxBuffer.padding
  rw [h.2 4 (by omega) (by omega)]

theorem RxBuffer.Extends.completable (hc : rx'.Complete packetPlainMax) :
    rx.Completable packetPlainMax where
  smallest := by
    have := hc.length.1
    have := hc.length.2
    omega
  bound := by
    have := h.leastField_le
    have := hc.length.2
    omega
  length hlen := by
    rw [← h.lengthField_eq hlen]
    exact hc.length.1
  padded hlen := by
    rw [← h.padding_eq hlen, ← h.lengthField_eq (by omega)]
    exact hc.padded

end

/-- The buffer filled up to the bound: behind the bytes that are there, a padding of 4 and a length
field that is the least one, or 5 if that is zero. -/
def RxBuffer.fill (packetPlainMax : Int32) (rx : RxBuffer) : RxBuffer where
  mem i :=
    if i < rx.len.toInt then rx.mem i
    else if i = 4 then 4
    else if i = 3 ∧ rx.leastField = 0 then 5
    else 0
  len := packetPlainMax
  seq := rx.seq

theorem RxBuffer.leastField_eq (h : 4 ≤ rx.len.toInt) : rx.leastField = rx.lengthField := by
  simp only [RxBuffer.leastField, RxBuffer.lengthField, RxBuffer.headerByte,
    show (0 : ℤ) < rx.len.toInt by omega, show (1 : ℤ) < rx.len.toInt by omega,
    show (2 : ℤ) < rx.len.toInt by omega, show (3 : ℤ) < rx.len.toInt by omega, if_true]

theorem RxBuffer.Completable.extends_fill (h : rx.Completable packetPlainMax) (hw : rx.Waits) :
    rx.Extends (rx.fill packetPlainMax) := by
  refine ⟨?_, fun _ _ hi => if_pos hi⟩
  change rx.len.toInt ≤ packetPlainMax.toInt
  have hsmallest := h.smallest
  have hbound := h.bound
  by_cases hlen : 4 ≤ rx.len.toInt
  · have := h.length hlen
    rw [RxBuffer.leastField_eq hlen] at hbound
    unfold RxBuffer.Waits at hw
    omega
  · omega

theorem RxBuffer.mem_fill {i : ℤ} (h : i < 3) :
    ((rx.fill packetPlainMax).mem i).toNat = rx.headerByte i := by
  have h₃ : i ≠ 3 := by omega
  have h₄ : i ≠ 4 := by omega
  simp only [RxBuffer.fill, RxBuffer.headerByte, h₃, h₄, false_and, if_false]
  split <;> rfl

/-- The length field of the filled buffer is a possible one, whatever part of it was there. -/
theorem RxBuffer.lengthField_fill (h : rx.len.toInt < 4) :
    (rx.fill packetPlainMax).lengthField = max rx.leastField 5 := by
  have h₃ : ¬(3 : ℤ) < rx.len.toInt := by omega
  have hbyte : ((rx.fill packetPlainMax).mem 3).toNat = if rx.leastField = 0 then 5 else 0 := by
    simp only [RxBuffer.fill, h₃, if_false, true_and, show (3 : ℤ) ≠ 4 by decide]
    split <;> rfl
  have hleast : rx.leastField =
      ((rx.headerByte 0 * 256 + rx.headerByte 1) * 256 + rx.headerByte 2) * 256 := by
    simp only [RxBuffer.leastField, RxBuffer.headerByte, h₃, if_false, add_zero]
  rw [RxBuffer.lengthField, hbyte, RxBuffer.mem_fill (by decide), RxBuffer.mem_fill (by decide),
    RxBuffer.mem_fill (by decide), ← hleast]
  split <;> omega

theorem RxBuffer.padding_fill (h : rx.len.toInt < 5) : (rx.fill packetPlainMax).padding = 4 := by
  have h₄ : ¬(4 : ℤ) < rx.len.toInt := by omega
  simp only [RxBuffer.padding, RxBuffer.fill, h₄, if_false, if_true]
  rfl

theorem RxBuffer.Completable.complete_fill (h : rx.Completable packetPlainMax) (hw : rx.Waits) :
    (rx.fill packetPlainMax).Complete packetPlainMax := by
  have hsmallest := h.smallest
  have hbound := h.bound
  have hext := h.extends_fill hw
  have hlength : Admissible packetPlainMax (rx.fill packetPlainMax).lengthField := by
    by_cases hlen : 4 ≤ rx.len.toInt
    · rw [RxBuffer.leastField_eq hlen] at hbound
      rw [hext.lengthField_eq hlen]
      exact ⟨h.length hlen, hbound⟩
    · rw [RxBuffer.lengthField_fill (by omega)]
      exact ⟨by omega, by omega⟩
  refine ⟨?_, hlength, hlength.2, ?_⟩
  · change 4 ≤ packetPlainMax.toInt
    omega
  · by_cases hlen : 5 ≤ rx.len.toInt
    · rw [hext.padding_eq hlen, hext.lengthField_eq (by omega)]
      exact h.padded hlen
    · have := hlength.1
      rw [RxBuffer.padding_fill (by omega)]
      omega

end Extensions

theorem FramesExactly.not_wraps {packetPlainMax : Int32} {rx : RxBuffer}
    (h : FramesExactly packetPlainMax rx) : ¬rx.Wraps packetPlainMax := by
  intro hwraps
  have hwild := wild_of_wraps hwraps
  by_cases hc : rx.Complete packetPlainMax
  · cases hwild.symm.trans (h.complete hc)
  · obtain h' | h' := h.incomplete hc
    · cases hwild.symm.trans h'
    · cases hwild.symm.trans h'

theorem FramesExactly.completable {packetPlainMax : Int32} {rx : RxBuffer}
    (h : FramesExactly packetPlainMax rx) (hwaits : rx.Waits) : rx.Completable packetPlainMax := by
  obtain ⟨rx', payload, rest, hext, hpacket⟩ := h.waits (wait_of_waits hwaits)
  exact hext.completable (complete_of_packet hpacket)

/-- Framing is exact for a buffer unless the length wraps, or the call waits for what cannot come. -/
theorem framesExactly_iff (packetPlainMax : Int32) (rx : RxBuffer) :
    FramesExactly packetPlainMax rx ↔
      ¬rx.Wraps packetPlainMax ∧ (rx.Waits → rx.Completable packetPlainMax) := by
  refine ⟨fun h => ⟨h.not_wraps, h.completable⟩, fun ⟨hwraps, hwaits⟩ => ?_⟩
  have hcases := tryDecodePlainPacketBuffer_cases packetPlainMax rx
  refine ⟨packet_of_complete, fun hc => ?_, fun hwait => ?_⟩
  · obtain h' | h' | h' | h' := hcases
    · exact .inl h'.1
    · exact .inr h'.1
    · exact absurd h'.2 hc
    · exact absurd h'.2.1 hwraps
  · obtain h' | h' | h' | h' := hcases
    · have hcompletable := hwaits h'.2
      exact ⟨_, _, _, hcompletable.extends_fill h'.2,
        packet_of_complete (hcompletable.complete_fill h'.2)⟩
    all_goals cases hwait.symm.trans h'.1

/-- Nine bytes whose length field is 4: a buffer that holds up everything behind it. -/
def shortLength : RxBuffer where
  mem i := if i = 3 ∨ i = 4 then 4 else 0
  len := 9
  seq := 0

/-- Nine bytes whose length field is 0x7ffffffc. -/
def wrappingLength : RxBuffer where
  mem i := if i = 0 then 127 else if i = 3 then 252 else if i = 4 then 4 else 255
  len := 9
  seq := 0

/-- A length field below 5 is waited for, though no packet has it; one just below `INT_MAX` gets past
the checks into a copy of two gigabytes. -/
theorem waits_for_nothing_and_copies_all :
    ¬FramesExactly 2048 shortLength ∧ ¬FramesExactly 2048 wrappingLength := by
  constructor
  · intro h
    have := (h.completable (.inr (.inl (by decide)))).length
    exact absurd this (by decide)
  · intro h
    exact h.not_wraps ⟨by decide, by decide, by decide, by decide⟩

end Sodex.Ssh
