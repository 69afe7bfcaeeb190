import Mathlib.Algebra.GroupWithZero.Nat
import Mathlib.Data.List.Infix
import Mathlib.Tactic.Common

/-!
# UTF-8

The UTF-8 of a character as numbers: a first byte, which tells how many bytes follow and holds the
highest bits, and bytes with six bits each. A decoder puts the bits together again; what it makes of
them is the character if it is large enough for the length.
-/
namespace Sodex.Utf8

open List Option

variable {v v' k : ℕ} {b : UInt8} {data w : List UInt8} {ch : Char}

/-- The last `k` bytes of a code point. -/
def laterBytes (v : ℕ) : ℕ → List ℕ
  | 0 => []
  | k + 1 => (128 + v / 64 ^ k % 64) :: laterBytes v k

/-- The bytes of a code point. -/
def bytesOf (v : ℕ) : List ℕ :=
  if v < 0x80 then [v]
  else if v < 0x800 then (192 + v / 64) :: laterBytes v 1
  else if v < 0x10000 then (224 + v / 64 ^ 2) :: laterBytes v 2
  else (240 + v / 64 ^ 3) :: laterBytes v 3

theorem length_laterBytes (v k : ℕ) : (laterBytes v k).length = k := by
  induction k with
  | zero => rfl
  | succ k ih => rw [laterBytes, length_cons, ih]

theorem laterBytes_div (v k : ℕ) : ∀ x ∈ laterBytes v k, x / 64 = 2 := by
  induction k with
  | zero => nofun
  | succ k ih => exact forall_mem_cons.mpr ⟨by omega, ih⟩

theorem toNat_injective : Function.Injective (map UInt8.toNat) :=
  map_injective_iff.mpr fun _ _ => UInt8.toNat_inj.mp

theorem isValidChar_toNat (ch : Char) : ch.toNat.isValidChar := ch.valid

theorem map_utf8EncodeChar (ch : Char) :
    (String.utf8EncodeChar ch).map UInt8.toNat = bytesOf ch.toNat := by
  have hvalid := isValidChar_toNat ch
  have hval : ch.val.toNat = ch.toNat := rfl
  unfold bytesOf
  simp only [String.utf8EncodeChar, hval]
  split_ifs <;> simp [laterBytes] <;> omega

/-- How many bytes follow a first byte, and its bits. -/
def lead (n : ℕ) : Option (ℕ × ℕ) :=
  if n < 128 then some (0, n)
  else if n / 32 = 6 then some (1, n % 32)
  else if n / 16 = 14 then some (2, n % 16)
  else if n / 8 = 30 then some (3, n % 8)
  else none

/-- The least code point with `k` bytes after the first. -/
def least : ℕ → ℕ
  | 0 => 0
  | 1 => 0x80
  | 2 => 0x800
  | _ => 0x10000

theorem bytesOf_lead (h : v.isValidChar) : ∃ f k, bytesOf v = f :: laterBytes v k ∧
    lead f = some (k, v / 64 ^ k) ∧ least k ≤ v ∧
    (f < 128 ∧ v = f ∧ k = 0 ∨ 192 ≤ f ∧ 128 ≤ v ∧ 0 < k) := by
  unfold bytesOf
  split_ifs
  · exact ⟨v, 0, rfl, by simp [lead]; omega, Nat.zero_le _, by omega⟩
  · refine ⟨_, 1, rfl, ?_, by simp [least]; omega, by omega⟩
    rw [lead, if_neg (by omega), if_pos (by omega), show (192 + v / 64) % 32 = v / 64 ^ 1 by omega]
  · refine ⟨_, 2, rfl, ?_, by simp [least]; omega, by omega⟩
    rw [lead, if_neg (by omega), if_neg (by omega), if_pos (by omega),
      show (224 + v / 64 ^ 2) % 16 = v / 64 ^ 2 by omega]
  · refine ⟨_, 3, rfl, ?_, by simp [least]; omega, by omega⟩
    rw [lead, if_neg (by omega), if_neg (by omega), if_neg (by omega), if_pos (by omega),
      show (240 + v / 64 ^ 3) % 8 = v / 64 ^ 3 by omega]

theorem bytesOf_of_lead {f : ℕ} (hlead : lead f = some (k, v / 64 ^ k)) (hleast : least k ≤ v) :
    bytesOf v = f :: laterBytes v k := by
  unfold lead at hlead
  split_ifs at hlead <;> obtain ⟨rfl, hbits⟩ := Prod.mk.inj (some.inj hlead) <;>
    unfold bytesOf <;> simp only [least] at hleast
  · rw [if_pos (by omega)]
    simp [laterBytes]
    omega
  · rw [if_neg (by omega), if_pos (by omega)]
    congr 1
    omega
  · rw [if_neg (by omega), if_neg (by omega), if_pos (by omega)]
    congr 1
    omega
  · rw [if_neg (by omega), if_neg (by omega), if_neg (by omega)]
    congr 1
    omega

/-- The number that `k` bytes make of the bits before them. -/
def withLater : ℕ → ℕ → List UInt8 → Option ℕ
  | 0, v, _ => some v
  | _ + 1, _, [] => none
  | k + 1, v, b :: data =>
    if b.toNat / 64 = 2 then withLater k (v * 64 + b.toNat % 64) data else none

theorem withLater_eq_some :
    withLater k v data = some v' ↔ v' / 64 ^ k = v ∧ laterBytes v' k <+: data.map UInt8.toNat := by
  induction k generalizing v data with
  | zero => simp [withLater, laterBytes, eq_comm]
  | succ k ih =>
    cases data with
    | nil => simp [withLater, laterBytes]
    | cons b data =>
      have hdiv : v' / 64 ^ (k + 1) = v' / 64 ^ k / 64 := by
        rw [pow_succ, Nat.div_div_eq_div_mul]
      rw [withLater, laterBytes, map_cons, cons_prefix_cons, hdiv]
      split
      · rw [ih]
        constructor
        · rintro ⟨hv, hlater⟩
          exact ⟨by omega, by omega, hlater⟩
        · rintro ⟨hv, hfirst, hlater⟩
          exact ⟨by omega, hlater⟩
      · constructor
        · nofun
        · rintro ⟨-, hfirst, -⟩
          omega

/-- Bytes that make the code point of a character are its UTF-8, if it is large enough. -/
theorem encode_prefix_iff {bits : ℕ} (hlead : lead b.toNat = some (k, bits)) :
    String.utf8EncodeChar ch <+: b :: data ↔
      least k ≤ ch.toNat ∧ withLater k bits data = some ch.toNat := by
  have hmap : String.utf8EncodeChar ch <+: b :: data ↔
      bytesOf ch.toNat <+: b.toNat :: data.map UInt8.toNat := by
    rw [← map_utf8EncodeChar, ← map_cons]
    refine ⟨fun h => h.map _, fun h => ?_⟩
    obtain ⟨l, hl, heq⟩ := prefix_map_iff.mp h
    exact toNat_injective heq ▸ hl
  rw [hmap, withLater_eq_some]
  constructor
  · intro h
    obtain ⟨f, k', hbytes, hlead', hleast, -⟩ := bytesOf_lead (isValidChar_toNat ch)
    rw [hbytes, cons_prefix_cons] at h
    obtain ⟨rfl, hlater⟩ := h
    obtain ⟨rfl, rfl⟩ := Prod.mk.inj (some.inj (hlead.symm.trans hlead'))
    exact ⟨hleast, rfl, hlater⟩
  · rintro ⟨hleast, rfl, hlater⟩
    rw [bytesOf_of_lead hlead hleast]
    exact cons_prefix_cons.mpr ⟨rfl, hlater⟩

/-- The first byte of a character and those that follow it. -/
theorem encode_cons (ch : Char) : ∃ b w, String.utf8EncodeChar ch = b :: w ∧
    (∃ bits, lead b.toNat = some (w.length, bits)) ∧ (∀ x ∈ w, x.toNat / 64 = 2) ∧
    (b.toNat < 128 ∧ ch.toNat = b.toNat ∧ w = [] ∨ 192 ≤ b.toNat ∧ 128 ≤ ch.toNat ∧ w ≠ []) := by
  obtain ⟨f, k, hbytes, hlead, -, hf⟩ := bytesOf_lead (isValidChar_toNat ch)
  have hmap := map_utf8EncodeChar ch
  rw [hbytes] at hmap
  obtain ⟨b, w, hbw, rfl, hw⟩ := map_eq_cons_iff.mp hmap
  have hlen : w.length = k := by rw [← length_map UInt8.toNat, hw, length_laterBytes]
  refine ⟨b, w, hbw, ⟨_, hlen ▸ hlead⟩, fun x hx => ?_, ?_⟩
  · exact laterBytes_div _ _ _ (hw ▸ mem_map_of_mem hx)
  · rwa [Ne, ← length_eq_zero_iff, hlen, ← Ne, ← Nat.pos_iff_ne_zero]

theorem length_of_lead {bits : ℕ} (hlead : lead b.toNat = some (k, bits))
    (h : String.utf8EncodeChar ch <+: b :: data) : (String.utf8EncodeChar ch).length = k + 1 := by
  obtain ⟨b', w, hbw, ⟨bits', hlead'⟩, -⟩ := encode_cons ch
  rw [hbw, cons_prefix_cons] at h
  obtain ⟨rfl, -⟩ := Prod.mk.inj (some.inj (hlead'.symm.trans (h.1 ▸ hlead)))
  rw [hbw, length_cons]

/-- The UTF-8 of a character is not the start of that of another. -/
theorem encode_prefix_free {a b : Char} {s t : List UInt8}
    (h : String.utf8EncodeChar a ++ s = String.utf8EncodeChar b ++ t) :
    String.utf8EncodeChar a = String.utf8EncodeChar b ∧ s = t := by
  obtain ⟨c, w, ha, ⟨bits, hlead⟩, -⟩ := encode_cons a
  have hprefix : String.utf8EncodeChar b <+: c :: (w ++ s) := by
    rw [← cons_append, ← ha, h]
    exact prefix_append _ _
  have hb := length_of_lead hlead hprefix
  exact append_inj h (by rw [hb, ha, length_cons])

end Sodex.Utf8
