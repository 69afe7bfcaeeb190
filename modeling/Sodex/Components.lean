import Mathlib.Data.List.Induction

/-!
# Components of a text

A text is a sequence of components with separators between them; any number of separators may
stand in one place.
-/
namespace Sodex.Components

open List

variable {α : Type*} [DecidableEq α] (sep : α)

/-- The nonempty pieces between separators. -/
def components (text : List α) : List (List α) := (text.splitOnP (· = sep)).filter (· ≠ [])

@[simp] theorem components_nil : components sep [] = [] := by
  simp [components]

theorem splitOnP_append_sep (a b : List α) :
    (a ++ sep :: b).splitOnP (· = sep) = a.splitOnP (· = sep) ++ b.splitOnP (· = sep) := by
  induction a with
  | nil =>
    rw [nil_append, splitOnP_cons_eq_if_modifyHead, if_pos (decide_eq_true rfl)]
    rfl
  | cons x a ih =>
    rw [cons_append, splitOnP_cons_eq_if_modifyHead, splitOnP_cons_eq_if_modifyHead, ih]
    split
    · rfl
    · cases h : a.splitOnP (· = sep) with
      | nil => exact absurd h (splitOnP_ne_nil _ _)
      | cons w ws => rfl

theorem components_append_sep (a b : List α) :
    components sep (a ++ sep :: b) = components sep a ++ components sep b := by
  rw [components, splitOnP_append_sep, filter_append]
  rfl

@[simp] theorem components_sep_cons (text : List α) :
    components sep (sep :: text) = components sep text := by
  simpa using components_append_sep sep [] text

@[simp] theorem components_concat_sep (text : List α) :
    components sep (text ++ [sep]) = components sep text := by
  rw [components_append_sep, components_nil, append_nil]

theorem components_word {w : List α} (hne : w ≠ []) (hsep : sep ∉ w) : components sep w = [w] := by
  rw [components, splitOnP_eq_singleton]
  · simp [hne]
  · intro x hx
    simpa using fun hxs : x = sep => hsep (hxs ▸ hx)

theorem components_word_append {w : List α} (hne : w ≠ []) (hsep : sep ∉ w) (text : List α) :
    components sep (w ++ sep :: text) = w :: components sep text := by
  rw [components_append_sep, components_word sep hne hsep, singleton_append]

/-- Pieces, each behind a separator: the empty ones do not count. -/
theorem components_join {pieces : List (List α)} (h : ∀ w ∈ pieces, sep ∉ w) :
    components sep (pieces.flatMap (sep :: ·)) = pieces.filter (· ≠ []) := by
  induction pieces using reverseRecOn with
  | nil => simp
  | append_singleton pieces w ih =>
    rw [flatMap_append, flatMap_singleton, components_append_sep, filter_append,
      ih fun w hw => h w (mem_append_left _ hw)]
    congr 1
    by_cases hw : w = []
    · simp [hw]
    · rw [components_word sep hw (h w (by simp))]
      simp [hw]

/-- Separators in front do not count. -/
theorem components_dropWhile (text : List α) :
    components sep (text.dropWhile (· = sep)) = components sep text := by
  induction text with
  | nil => rfl
  | cons x text ih =>
    rw [dropWhile_cons]
    split
    · rename_i hx
      obtain rfl : x = sep := by simpa using hx
      rw [ih, components_sep_cons]
    · rfl

theorem splitOnP_sep_not_mem (text : List α) : ∀ w ∈ text.splitOnP (· = sep), sep ∉ w := by
  induction text with
  | nil => simp
  | cons x text ih =>
    rw [splitOnP_cons_eq_if_modifyHead]
    split
    · simpa using ih
    · rename_i hx
      have hx : x ≠ sep := by simpa using hx
      cases h : text.splitOnP (· = sep) with
      | nil => exact absurd h (splitOnP_ne_nil _ _)
      | cons w ws =>
        rw [h] at ih
        obtain ⟨hw, hws⟩ := forall_mem_cons.mp ih
        refine forall_mem_cons.mpr ⟨?_, hws⟩
        rw [mem_cons, not_or]
        exact ⟨hx.symm, hw⟩

theorem of_mem_components {text w : List α} (h : w ∈ components sep text) : w ≠ [] ∧ sep ∉ w := by
  obtain ⟨hmem, hne⟩ := mem_filter.mp h
  exact ⟨by simpa using hne, splitOnP_sep_not_mem sep text w hmem⟩

end Sodex.Components
