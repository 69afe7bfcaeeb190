import Mathlib.Data.Nat.Bitwise
import Mathlib.Data.List.Range
import Mathlib.Logic.Function.Basic
import Mathlib.Tactic.Ring

/-!
# Byte-addressed memory

Memory is a function from addresses to bytes. Words are little-endian, and a range of
bytes is copied or filled as a whole. A bitmap is a memory read bit by bit.
-/
namespace Sodex.ByteMem

abbrev Bytes := ℕ → UInt8

/-- The number in the `w` bytes from `a` on, least significant byte first. -/
def getWord (b : Bytes) (a : ℕ) : ℕ → ℕ
  | 0 => 0
  | w + 1 => (b a).toNat + 256 * getWord b (a + 1) w

/-- Write the `w` low bytes of `v` at `a`. -/
def setWord (b : Bytes) (a w v : ℕ) : Bytes :=
  fun x => if a ≤ x ∧ x < a + w then UInt8.ofNat (v / 256 ^ (x - a)) else b x

def get16 (b : Bytes) (a : ℕ) : UInt16 := UInt16.ofNat (getWord b a 2)
def set16 (b : Bytes) (a : ℕ) (v : UInt16) : Bytes := setWord b a 2 v.toNat
def get32 (b : Bytes) (a : ℕ) : UInt32 := UInt32.ofNat (getWord b a 4)
def set32 (b : Bytes) (a : ℕ) (v : UInt32) : Bytes := setWord b a 4 v.toNat

/-- `memcpy` of `n` bytes from `src + s` to `dst + d`. -/
def copy (dst : Bytes) (d : ℕ) (src : Bytes) (s n : ℕ) : Bytes :=
  fun x => if d ≤ x ∧ x < d + n then src (s + (x - d)) else dst x

/-- `memset`. -/
def fill (dst : Bytes) (d n : ℕ) (v : UInt8) : Bytes :=
  fun x => if d ≤ x ∧ x < d + n then v else dst x

/-- Bit `i` of the memory is set. -/
def bit (b : Bytes) (i : ℕ) : Bool := (b (i / 8) &&& (1 <<< (i % 8).toUInt8)) ≠ 0

def setBit (b : Bytes) (i : ℕ) : Bytes :=
  Function.update b (i / 8) (b (i / 8) ||| (1 <<< (i % 8).toUInt8))

def clearBit (b : Bytes) (i : ℕ) : Bytes :=
  Function.update b (i / 8) (b (i / 8) &&& ~~~(1 <<< (i % 8).toUInt8))

end Sodex.ByteMem
