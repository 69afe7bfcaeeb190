import Mathlib.Data.List.Basic

/-!
# Line ends

A line feed becomes a carriage return and a line feed, unless a carriage return stands
before it. A text may come in parts: what has to be known of the parts before is whether
the last byte was a carriage return.
-/
namespace Sodex.Newlines

variable {prevCr : Bool}

/-- The text with the line ends of the network. -/
def cook (prevCr : Bool) : List UInt8 → List UInt8
  | [] => []
  | ch :: src =>
    if ch = 10 ∧ !prevCr then 13 :: 10 :: cook false src else ch :: cook (ch = 13) src

/-- Is the last byte of the text so far a carriage return? -/
def crAfter (prevCr : Bool) : List UInt8 → Bool
  | [] => prevCr
  | ch :: src => crAfter (ch = 13) src

@[simp] theorem cook_nil : cook prevCr [] = [] := rfl

@[simp] theorem crAfter_nil : crAfter prevCr [] = prevCr := rfl

/-- A line feed that gets a carriage return. -/
theorem cook_lf (src : List UInt8) : cook false (10 :: src) = 13 :: 10 :: cook false src :=
  if_pos ⟨rfl, rfl⟩

theorem cook_other {ch : UInt8} (h : ¬(ch = 10 ∧ !prevCr)) (src : List UInt8) :
    cook prevCr (ch :: src) = ch :: cook (ch = 13) src :=
  if_neg h

/-- A text in two parts. -/
theorem cook_append (a b : List UInt8) :
    cook prevCr (a ++ b) = cook prevCr a ++ cook (crAfter prevCr a) b := by
  induction a generalizing prevCr with
  | nil => rfl
  | cons ch a ih =>
    rw [List.cons_append, crAfter]
    by_cases hlf : ch = 10 ∧ !prevCr
    · obtain ⟨rfl, hcr⟩ := hlf
      obtain rfl : prevCr = false := by simpa using hcr
      rw [cook_lf, cook_lf, ih]
      rfl
    · rw [cook_other hlf, cook_other hlf, ih]
      rfl

theorem crAfter_append (a b : List UInt8) :
    crAfter prevCr (a ++ b) = crAfter (crAfter prevCr a) b := by
  induction a generalizing prevCr with
  | nil => rfl
  | cons ch a ih => exact ih

/-- A text does not get shorter, and at most twice as long. -/
theorem length_cook (prevCr : Bool) (src : List UInt8) :
    src.length ≤ (cook prevCr src).length ∧ (cook prevCr src).length ≤ 2 * src.length := by
  induction src generalizing prevCr with
  | nil => simp
  | cons ch src ih =>
    by_cases hlf : ch = 10 ∧ !prevCr
    · obtain ⟨rfl, hcr⟩ := hlf
      obtain rfl : prevCr = false := by simpa using hcr
      have := ih false
      rw [cook_lf]
      simp
      omega
    · have := ih (ch = 13)
      rw [cook_other hlf]
      simp
      omega

theorem cook_eq_nil {src : List UInt8} (h : cook prevCr src = []) : src = [] := by
  have hlen := (length_cook prevCr src).1
  rw [h] at hlen
  exact List.eq_nil_of_length_eq_zero (Nat.le_zero.mp hlen)

end Sodex.Newlines
