import Mathlib.Algebra.BigOperators.Group.List.Basic
import Mathlib.Algebra.GroupWithZero.Nat

/-!
# Sums over lists that are changed at one place

What the entries of a list weigh together, and how the sum changes when an entry is
replaced or added. A table holds references; the references to something in a list of
tables are such a sum of sums.
-/
namespace Sodex.Tally

variable {α ι : Type*} [DecidableEq ι]

/-- The sum of the weights of the entries. -/
def tally (g : α → ℕ) (l : List α) : ℕ := (l.map g).sum

section Tally

variable {g : α → ℕ} {l : List α} {i : ℕ} {a : α}

@[simp] theorem tally_nil : tally g [] = 0 := rfl

@[simp] theorem tally_cons : tally g (a :: l) = g a + tally g l := by simp [tally]

@[simp] theorem tally_append (l' : List α) : tally g (l ++ l') = tally g l + tally g l' := by
  simp [tally]

theorem tally_eq_zero (h : ∀ a ∈ l, g a = 0) : tally g l = 0 := by
  induction l with
  | nil => rfl
  | cons b l ih =>
    rw [tally_cons, h b List.mem_cons_self, ih fun a ha => h a (List.mem_cons_of_mem b ha)]

theorem tally_set (h : l[i]? = some a) (b : α) : tally g (l.set i b) + g a = tally g l + g b := by
  induction l generalizing i with
  | nil => simp at h
  | cons c l ih =>
    cases i with
    | zero =>
      obtain rfl : c = a := by simpa using h
      simp
      omega
    | succ i =>
      have hrest := ih (by simpa using h)
      simp
      omega

theorem le_tally (h : l[i]? = some a) : g a ≤ tally g l := by
  induction l generalizing i with
  | nil => simp at h
  | cons c l ih =>
    cases i with
    | zero =>
      obtain rfl : c = a := by simpa using h
      simp
    | succ i =>
      have hrest := ih (by simpa using h)
      simp only [tally_cons]
      omega

/-- An entry is replaced by one of the same weight. -/
theorem tally_congr_set (h : l[i]? = some a) {b : α} (hw : g b = g a) :
    tally g (l.set i b) = tally g l := by
  have := tally_set (g := g) h b
  omega

/-- A change behind the end of a list changes what was added to it. -/
theorem modify_append_add (l l' : List α) (i : ℕ) (f : α → α) :
    (l ++ l').modify (l.length + i) f = l ++ l'.modify i f := by
  induction l with
  | nil => simp
  | cons a l ih => simpa [add_right_comm _ 1 i] using ih

theorem modify_append_length (l l' : List α) (f : α → α) :
    (l ++ l').modify l.length f = l ++ l'.modify 0 f :=
  modify_append_add l l' 0 f

end Tally

/-- Does the entry refer to `x`? -/
def hit (x : ι) (o : Option ι) : ℕ := if o = some x then 1 else 0

@[simp] theorem hit_none (x : ι) : hit x none = 0 := rfl

@[simp] theorem hit_self (x : ι) : hit x (some x) = 1 := if_pos rfl

theorem hit_of_ne {x y : ι} (h : y ≠ x) : hit x (some y) = 0 := if_neg (by simpa using h)

/-- The references to `x` in the tables. -/
def refs (tables : List (List (Option ι))) (x : ι) : ℕ := tally (tally (hit x)) tables

section Refs

variable {tables : List (List (Option ι))} {table : List (Option ι)} {i j : ℕ} {o : Option ι}

theorem refs_set (ht : tables[i]? = some table) (ho : table[j]? = some o) (v : Option ι) (x : ι) :
    refs (tables.set i (table.set j v)) x + hit x o = refs tables x + hit x v := by
  have hinner := tally_set (g := hit x) ho v
  have houter := tally_set (g := tally (hit x)) ht (table.set j v)
  unfold refs
  omega

/-- A table without references is added. -/
theorem refs_append_empty (h : ∀ o ∈ table, o = none) (x : ι) :
    refs (tables ++ [table]) x = refs tables x := by
  have hzero : tally (hit x) table = 0 := tally_eq_zero fun o ho => by rw [h o ho, hit_none]
  simp [refs, hzero]

/-- What an entry refers to is counted. -/
theorem refs_pos (ht : tables[i]? = some table) {x : ι} (ho : table[j]? = some (some x)) :
    0 < refs tables x := by
  have hinner := le_tally (g := hit x) ho
  have houter := le_tally (g := tally (hit x)) ht
  rw [hit_self] at hinner
  unfold refs
  omega

end Refs

end Sodex.Tally
