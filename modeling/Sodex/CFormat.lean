import Mathlib.Tactic.Ring
import Mathlib.Tactic.NormNum
import Sodex.CInt
import Sodex.CText

/-!
# Decimal numbers in C texts

`%d` writes an `int`, `strtol` reads it again. Both work with 32 bits.
-/
namespace Sodex.CFormat

open CInt CText List

def isDigit (c : UInt8) : Bool := 48 ≤ c ∧ c ≤ 57

/-- The decimal digits of a number, most significant first, at most `width` of them. -/
def putDigits : ℕ → ℕ → List UInt8
  | 0, _ => []
  | width + 1, n => if n = 0 then [] else putDigits width (n / 10) ++ [(48 + n % 10).toUInt8]

/-- `%u`, into a buffer of twelve digits. -/
def putUnsigned (n : ℕ) : List UInt8 := if n = 0 then [48] else putDigits 12 n

/-- `%d`. -/
def putInt (n : ℤ) : List UInt8 :=
  if n < 0 then 45 :: putUnsigned (-n).toNat else putUnsigned n.toNat

/-- The digits at the start of a text are added to a number, which wraps around. -/
def readDigits : List UInt8 → ℤ → ℤ
  | [], val => val
  | c :: rest, val =>
    if isDigit c then readDigits rest (toInt (val * 10 + (c.toNat - 48))) else val

/-- `strtol(text, 0, 10)`. -/
def strtol (text : List UInt8) : ℤ :=
  match text.dropWhile fun c => c = 32 ∨ c = 9 ∨ c = 10 ∨ c = 13 with
  | 45 :: rest => toInt (-readDigits rest 0)
  | 43 :: rest => readDigits rest 0
  | rest => readDigits rest 0

/-- What stands after a number does not go on with digits. -/
def Ends (rest : List UInt8) : Prop := ∀ c ∈ rest.head?, isDigit c = false

section RoundTrip

variable {rest : List UInt8}

theorem readDigits_ends (h : Ends rest) (val : ℤ) : readDigits rest val = val := by
  cases rest with
  | nil => rfl
  | cons c rest =>
    rw [readDigits, h c rfl]
    rfl

theorem digit_toNat (n : ℕ) : ((48 + n % 10).toUInt8).toNat = 48 + n % 10 := by
  rw [Nat.toUInt8, UInt8.toNat_ofNat']
  omega

theorem isDigit_digit (n : ℕ) : isDigit (48 + n % 10).toUInt8 = true := by
  rw [isDigit, decide_eq_true_eq, UInt8.le_iff_toNat_le, UInt8.le_iff_toNat_le, digit_toNat]
  constructor
  · show 48 ≤ 48 + n % 10
    omega
  · show 48 + n % 10 ≤ 57
    omega

theorem isDigit_putDigits (width n : ℕ) : ∀ c ∈ putDigits width n, isDigit c = true := by
  induction width generalizing n with
  | zero => simp [putDigits]
  | succ width ih =>
    rw [putDigits]
    split
    · simp
    · intro c hc
      rcases mem_append.mp hc with hmem | hmem
      · exact ih _ c hmem
      · rw [mem_singleton.mp hmem]
        exact isDigit_digit n

theorem toInt_mul_add (x : ℤ) (d : ℤ) : toInt (toInt x * 10 + d) = toInt (x * 10 + d) := by
  unfold toInt
  omega

theorem readDigits_putDigits (width n : ℕ) (hn : n < 10 ^ width) (tail : List UInt8) :
    readDigits (putDigits width n ++ tail) 0 = readDigits tail (toInt n) := by
  induction width generalizing n tail with
  | zero =>
    obtain rfl : n = 0 := by simpa using hn
    rfl
  | succ width ih =>
    rw [putDigits]
    split
    · rename_i hzero
      rw [hzero]
      rfl
    · have hsmall : n / 10 < 10 ^ width := by
        rw [Nat.div_lt_iff_lt_mul (by decide), ← pow_succ]
        exact hn
      rw [append_assoc, ih _ hsmall, singleton_append, readDigits, isDigit_digit,
        if_pos rfl, toInt_mul_add, digit_toNat]
      congr 2
      omega

theorem readDigits_putUnsigned {n : ℕ} (hn : n < 2 ^ 32) (h : Ends rest) :
    readDigits (putUnsigned n ++ rest) 0 = toInt n := by
  unfold putUnsigned
  split
  · rename_i hzero
    rw [hzero, singleton_append, readDigits, if_pos (by decide), readDigits_ends h]
    rfl
  · have hwidth : n < 10 ^ 12 := hn.trans (by decide)
    rw [readDigits_putDigits 12 n hwidth, readDigits_ends h]

/-- A number starts with a digit, if it has no sign. -/
theorem putUnsigned_ne_nil (n : ℕ) : putUnsigned n ≠ [] := by
  unfold putUnsigned
  split
  · nofun
  · rename_i hne
    rw [putDigits, if_neg hne]
    simp

theorem isDigit_putUnsigned (n : ℕ) : ∀ c ∈ putUnsigned n, isDigit c = true := by
  unfold putUnsigned
  split
  · intro c hc
    rw [mem_singleton.mp hc]
    decide
  · exact isDigit_putDigits 12 n

theorem strtol_putUnsigned {n : ℕ} (hn : n < 2 ^ 32) (h : Ends rest) :
    strtol (putUnsigned n ++ rest) = toInt n := by
  obtain ⟨c, digits, hdigits⟩ := exists_cons_of_ne_nil (putUnsigned_ne_nil n)
  have hc := isDigit_putUnsigned n c (by rw [hdigits]; exact mem_cons_self)
  have hread := readDigits_putUnsigned hn h
  rw [hdigits, cons_append] at hread ⊢
  have hspecial : c ≠ 32 ∧ c ≠ 9 ∧ c ≠ 10 ∧ c ≠ 13 ∧ c ≠ 45 ∧ c ≠ 43 := by
    refine ⟨?_, ?_, ?_, ?_, ?_, ?_⟩ <;>
    · rintro rfl
      exact absurd hc (by decide)
  obtain ⟨h1, h2, h3, h4, h5, h6⟩ := hspecial
  unfold strtol
  rw [dropWhile_cons_of_neg (by simp [h1, h2, h3, h4])]
  split
  · rename_i hhead
    exact absurd (head_eq_of_cons_eq hhead) h5
  · rename_i hhead
    exact absurd (head_eq_of_cons_eq hhead) h6
  · exact hread

/-- What `%d` writes, `strtol` reads. -/
theorem strtol_putInt {n : ℤ} (h₀ : -2147483648 ≤ n) (h₁ : n < 2147483648) (h : Ends rest) :
    strtol (putInt n ++ rest) = n := by
  unfold putInt
  split
  · rename_i hneg
    have hread := readDigits_putUnsigned (n := (-n).toNat) (by omega) h
    have hstrtol : strtol (45 :: putUnsigned (-n).toNat ++ rest) =
        toInt (-readDigits (putUnsigned (-n).toNat ++ rest) 0) := rfl
    rw [hstrtol, hread]
    unfold toInt
    omega
  · rw [strtol_putUnsigned (by omega) h]
    unfold toInt
    omega

theorem mem_putInt {n : ℤ} {c : UInt8} (h : c ∈ putInt n) : c = 45 ∨ isDigit c = true := by
  unfold putInt at h
  split at h
  · rcases mem_cons.mp h with hc | hc
    · exact .inl hc
    · exact .inr (isDigit_putUnsigned _ c hc)
  · exact .inr (isDigit_putUnsigned _ c h)

end RoundTrip

end Sodex.CFormat
