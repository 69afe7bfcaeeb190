import Mathlib.Data.List.Range
import Mathlib.Data.Int.ModEq
import Mathlib.Logic.Function.Basic

/-!
# Ring buffers

The bytes of a ring buffer are read from `tail` on, wrapping at `size`. The write
loop appends to them and the read loop takes a prefix off.
-/
namespace Sodex.RingBuffer

open List Function

variable {α : Type*}

/-- The `len` elements that start at `tail`. -/
def content (buf : ℕ → α) (size tail len : ℕ) : List α :=
  (range len).map fun i => buf ((tail + i) % size)

/-- Store the elements one by one from position `head` on. -/
def push (size : ℕ) (buf : ℕ → α) (head : ℕ) : List α → (ℕ → α) × ℕ
  | [] => (buf, head)
  | x :: xs => push size (update buf head x) ((head + 1) % size) xs

/-- Fetch `n` elements one by one from position `tail` on. -/
def pop (size : ℕ) (buf : ℕ → α) : ℕ → ℕ → List α × ℕ
  | 0, tail => ([], tail)
  | n + 1, tail =>
    let rest := pop size buf n ((tail + 1) % size)
    (buf tail :: rest.1, rest.2)

/-- Copy the elements to the positions from `pos` on. -/
def store (buf : ℕ → α) (pos : ℕ) (xs : List α) : ℕ → α := fun i =>
  if pos ≤ i then (xs[i - pos]?).getD (buf i) else buf i

/-- Copy the `n` elements from `pos` on. -/
def fetch (buf : ℕ → α) (pos n : ℕ) : List α := (range n).map fun i => buf (pos + i)

section Lemmas

variable {buf : ℕ → α} {size tail len n : ℕ}

@[simp] theorem length_content : (content buf size tail len).length = len := by simp [content]

@[simp] theorem content_zero : content buf size tail 0 = [] := rfl

theorem content_add (m n : ℕ) : content buf size tail (m + n) =
    content buf size tail m ++ content buf size ((tail + m) % size) n := by
  simp only [content, range_add, map_append, map_map, append_cancel_left_eq]
  refine map_congr_left fun i _ => ?_
  simp [add_assoc]

theorem content_succ : content buf size tail (len + 1) =
    content buf size tail len ++ [buf ((tail + len) % size)] := by
  simp [content, range_succ]

theorem pop_eq (h : tail < size) (n : ℕ) :
    pop size buf n tail = (content buf size tail n, (tail + n) % size) := by
  induction n generalizing tail with
  | zero => simp [pop, Nat.mod_eq_of_lt h]
  | succ n ih =>
    have hsize : 0 < size := by omega
    rw [pop, ih (Nat.mod_lt _ hsize), add_comm n 1, content_add 1 n]
    simp [content, Nat.mod_eq_of_lt h, add_assoc]

/-- Writing at the first position behind the contents does not disturb them. -/
theorem content_update {x : α} (h : len < size) :
    content (update buf ((tail + len) % size) x) size tail len =
      content buf size tail len := by
  refine map_congr_left fun i hi => ?_
  have hi : i < len := mem_range.mp hi
  refine update_of_ne (fun hmod => ?_) _ _
  have hcongr : Nat.ModEq size i len := Nat.ModEq.add_left_cancel' tail hmod
  have heq := Nat.ModEq.eq_of_lt_of_lt hcongr (by omega) h
  omega

theorem push_head (xs : List α) (buf : ℕ → α) {head : ℕ} (h : head < size) :
    (push size buf head xs).2 = (head + xs.length) % size := by
  induction xs generalizing buf head with
  | nil => simp [push, Nat.mod_eq_of_lt h]
  | cons x xs ih =>
    have hsize : 0 < size := by omega
    rw [push, ih _ (Nat.mod_lt _ hsize)]
    simp [add_assoc, add_comm 1]

/-- The write loop appends, as long as the elements fit. -/
theorem content_push (xs : List α) (buf : ℕ → α) (h : len + xs.length ≤ size) :
    content (push size buf ((tail + len) % size) xs).1 size tail (len + xs.length) =
      content buf size tail len ++ xs := by
  induction xs generalizing buf len with
  | nil => simp [push]
  | cons x xs ih =>
    have hstep : ((tail + len) % size + 1) % size = (tail + (len + 1)) % size := by
      rw [Nat.mod_add_mod, add_assoc]
    have hlen : len + (x :: xs).length = len + 1 + xs.length := by rw [length_cons]; omega
    rw [push, hstep, hlen, ih _ (by omega), content_succ, content_update (by omega),
      update_self, append_assoc, singleton_append]

/-- The ring with these positions holds `xs`. -/
structure Filled (size : ℕ) (buf : ℕ → α) (head tail len : ℕ) (xs : List α) : Prop where
  holds : content buf size tail len = xs
  fits : len ≤ size
  tail_lt : tail < size
  head_eq : head = (tail + len) % size

namespace Filled

variable {head k : ℕ} {xs ys : List α}

variable (h : Filled size buf head tail len xs)
include h

theorem len_eq : len = xs.length := by
  rw [← h.holds, length_content]

theorem head_lt : head < size := by
  rw [h.head_eq]
  exact Nat.mod_lt _ (Nat.zero_lt_of_lt h.tail_lt)

theorem push (hfit : len + ys.length ≤ size) :
    Filled size (push size buf head ys).1 (push size buf head ys).2 tail (len + ys.length)
      (xs ++ ys) := by
  refine ⟨?_, hfit, h.tail_lt, ?_⟩
  · rw [h.head_eq, content_push _ _ hfit, h.holds]
  · rw [push_head _ _ h.head_lt, h.head_eq, Nat.mod_add_mod, Nat.add_assoc]

/-- What the first places hold, and the ring without them. -/
theorem drop (hk : k ≤ len) :
    content buf size tail k = xs.take k ∧
      Filled size buf head ((tail + k) % size) (len - k) (xs.drop k) := by
  have hsplit : content buf size tail k ++
      content buf size ((tail + k) % size) (len - k) = xs := by
    rw [← content_add, Nat.add_sub_cancel' hk, h.holds]
  refine ⟨?_, ?_, (Nat.sub_le _ _).trans h.fits, Nat.mod_lt _ (Nat.zero_lt_of_lt h.tail_lt), ?_⟩
  · rw [← hsplit, take_left' length_content]
  · rw [← hsplit, drop_left' length_content]
  · rw [h.head_eq, Nat.mod_add_mod, add_assoc, Nat.add_sub_cancel' hk]

end Filled

theorem content_eq_fetch (h : tail + n ≤ size) : content buf size tail n = fetch buf tail n := by
  refine map_congr_left fun i hi => ?_
  have hi : i < n := mem_range.mp hi
  rw [Nat.mod_eq_of_lt (by omega)]

/-- The elements are copied up to the end of the array and then from its start. -/
theorem fetch_wrap (htail : tail < size) (hn : n ≤ size) :
    fetch buf tail (min (size - tail) n) ++ fetch buf 0 (n - min (size - tail) n) =
      content buf size tail n := by
  obtain ⟨k, hk⟩ : ∃ k, min (size - tail) n = k := ⟨_, rfl⟩
  obtain ⟨rest, hrest⟩ : ∃ rest, n = k + rest := ⟨n - k, by omega⟩
  rw [hk, hrest, content_add, content_eq_fetch (by omega), Nat.add_sub_cancel_left]
  rcases Nat.eq_zero_or_pos rest with rfl | hpos
  · rfl
  · have hwrap : tail + k = size := by omega
    rw [hwrap, Nat.mod_self, content_eq_fetch (by omega)]

theorem push_append (xs ys : List α) (buf : ℕ → α) (head : ℕ) : push size buf head (xs ++ ys) =
      push size (push size buf head xs).1 (push size buf head xs).2 ys := by
  induction xs generalizing buf head with
  | nil => rfl
  | cons x xs ih => exact ih _ _

theorem store_cons (buf : ℕ → α) (pos : ℕ) (x : α) (xs : List α) :
    store (update buf pos x) (pos + 1) xs = store buf pos (x :: xs) := by
  ext i
  rcases lt_trichotomy i pos with hlt | rfl | hgt
  · rw [store, store, if_neg (by omega), if_neg (by omega), update_of_ne hlt.ne]
  · simp [store]
  · obtain ⟨j, rfl⟩ := Nat.exists_eq_add_of_lt hgt
    have hsub : pos + j + 1 - pos = j + 1 := by omega
    have hsub' : pos + j + 1 - (pos + 1) = j := by omega
    rw [store, store, if_pos (by omega), if_pos (by omega), hsub, hsub', getElem?_cons_succ,
      update_of_ne hgt.ne']

theorem push_eq_store (xs : List α) (buf : ℕ → α) {head : ℕ} (h : head + xs.length ≤ size) :
    (push size buf head xs).1 = store buf head xs := by
  induction xs generalizing buf head with
  | nil =>
    ext i
    simp [push, store]
  | cons x xs ih =>
    rw [length_cons] at h
    cases xs with
    | nil => rw [← store_cons]; ext i; simp [push, store]
    | cons y ys =>
      have hlt : head + 1 < size := by simp only [length_cons] at h; omega
      rw [push, Nat.mod_eq_of_lt hlt, ih _ (by omega), store_cons]

/-- The elements are copied up to the end of the array and then to its start. -/
theorem push_eq_store_wrap (xs : List α) (buf : ℕ → α) {head k : ℕ} (hhead : head < size)
    (hxs : xs.length ≤ size) (hk : k = min (size - head) xs.length) :
    (push size buf head xs).1 = store (store buf head (xs.take k)) 0 (xs.drop k) := by
  have htake : (xs.take k).length = k := by rw [length_take]; omega
  have hsplit := @push_append _ size (xs.take k) (xs.drop k) buf head
  rw [take_append_drop, push_eq_store _ _ (by omega), push_head _ _ hhead, htake] at hsplit
  rw [hsplit]
  rcases lt_or_ge k xs.length with hlt | hge
  · have hwrap : head + k = size := by omega
    rw [hwrap, Nat.mod_self, push_eq_store _ _ (by rw [length_drop]; omega)]
  · rw [drop_eq_nil_of_le hge]
    ext i
    simp [push, store]

end Lemmas

end Sodex.RingBuffer
