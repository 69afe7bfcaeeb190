import Mathlib.Data.List.Basic
import Mathlib.Data.List.Nodup

/-!
# Counter mode

A block cipher in counter mode over 128-bit counters. Each call encrypts one counter
for every 16 bytes begun, the counter going up by one each time, and combines the
keystream with the data. The cipher itself is a parameter.
-/
namespace Sodex.CtrMode

/-- Counters that a call over `len` bytes uses. -/
def blocks (len : ℕ) : ℕ := (len + 15) / 16

/-- The counters that a call over `len` bytes encrypts. -/
def counters (iv : BitVec 128) (len : ℕ) : List (BitVec 128) :=
  (List.range (blocks len)).map fun i => iv + BitVec.ofNat 128 i

/-- Byte `i` of the keystream that starts at `iv`. -/
def keystream (cipher : BitVec 128 → ℕ → UInt8) (iv : BitVec 128) (i : ℕ) : UInt8 :=
  cipher (iv + BitVec.ofNat 128 (i / 16)) (i % 16)

/-- Encrypt or decrypt, and the counter for the next call. -/
def xcrypt (cipher : BitVec 128 → ℕ → UInt8) (iv : BitVec 128) (data : List UInt8) :
    List UInt8 × BitVec 128 :=
  (data.mapIdx fun i b => b ^^^ keystream cipher iv i, iv + BitVec.ofNat 128 (blocks data.length))

section Xcrypt

variable (cipher : BitVec 128 → ℕ → UInt8) (iv : BitVec 128) (data : List UInt8)

theorem xcrypt_length : (xcrypt cipher iv data).1.length = data.length := List.length_mapIdx

/-- Decryption is encryption with the same counter. -/
theorem xcrypt_xcrypt : (xcrypt cipher iv (xcrypt cipher iv data).1).1 = data := by
  apply List.ext_getElem
  · simp [xcrypt_length]
  · intro i _ _
    simp only [xcrypt, List.getElem_mapIdx]
    rw [UInt8.xor_assoc, UInt8.xor_self, UInt8.xor_zero]

/-- The first bytes of the output come from the first bytes of the data. -/
theorem xcrypt_take (k : ℕ) :
    (xcrypt cipher iv (data.take k)).1 = (xcrypt cipher iv data).1.take k := by
  apply List.ext_getElem
  · simp [xcrypt_length]
  · intro i _ _
    simp [xcrypt]

end Xcrypt

end Sodex.CtrMode
