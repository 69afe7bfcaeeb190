import Mathlib.Data.List.TakeWhile
import Sodex.Components
import Sodex.Ext3TreeRuns

/-!
# Path walks by components

`__dir_walk` takes a path apart at its slashes and looks up one component after the other.
In a tree of dentries the components of a path without `.` and `..` are the names from
the root to the dentry, so one dentry lies below another exactly if its components
continue those of the other.
-/
namespace Sodex.Ext3

open Components List Option Runs

/-- The components are looked up one after the other. -/
def walkNames (s : Fs) : List (List UInt8) → ℕ → Option ℕ
  | [], d => some d
  | name :: names, d => (walkComponent s name d).bind (walkNames s names)

theorem dirWalk_eq_walkNames (s : Fs) (fuel : ℕ) (path : List UInt8) (d : ℕ)
    (hfuel : path.length < fuel) :
    dirWalk s fuel path d = walkNames s (components slash path) d := by
  induction fuel generalizing path d with
  | zero => exact absurd hfuel (Nat.not_lt_zero _)
  | succ fuel ih =>
    rw [dirWalk, ← components_dropWhile]
    have hshort : (path.dropWhile (· = slash)).length ≤ path.length :=
      (dropWhile_suffix _).length_le
    have hhead := head?_dropWhile_not (· = slash) path
    generalize path.dropWhile (· = slash) = path at hshort hhead
    cases path with
    | nil => rfl
    | cons b path =>
      have hb : b ≠ slash := by simpa using hhead
      -- the name up to the next slash is the first component
      have hname : (b :: path).takeWhile (· ≠ slash) ≠ [] := by simp [hb]
      have hslash : slash ∉ (b :: path).takeWhile (· ≠ slash) := by
        intro hmem
        simpa using mem_takeWhile_imp hmem
      have hsplit := takeWhile_append_dropWhile (p := (· ≠ slash)) (l := b :: path)
      have hstop := head?_dropWhile_not (· ≠ slash) (b :: path)
      rw [if_neg (cons_ne_nil b path)]
      generalize (b :: path).takeWhile (· ≠ slash) = name at hname hslash hsplit
      generalize (b :: path).dropWhile (· ≠ slash) = rest at hsplit hstop
      rw [← hsplit]
      cases rest with
      | nil =>
        rw [append_nil, components_word slash hname hslash, walkNames]
        cases walkComponent s name d with
        | none => rfl
        | some d => rfl
      | cons c rest =>
        obtain rfl : c = slash := by simpa using hstop
        rw [components_word_append slash hname hslash, walkNames]
        cases walkComponent s name d with
        | none => rfl
        | some d =>
          refine ih rest d ?_
          have hlen := congrArg length hsplit
          simp only [length_append, length_cons] at hlen hshort
          omega

theorem components_trimLoop (fuel : ℕ) (path : List UInt8) :
    components slash (trimLoop fuel path) = components slash path := by
  induction fuel generalizing path with
  | zero => rfl
  | succ fuel ih =>
    rw [trimLoop]
    split
    · rename_i hlast
      obtain ⟨init, hinit⟩ := getLast?_eq_some_iff.mp hlast.2
      rw [ih, hinit, dropLast_concat, components_concat_sep]
    · rfl

theorem head?_trimLoop (fuel : ℕ) (path : List UInt8) :
    (trimLoop fuel path).head? = path.head? := by
  induction fuel generalizing path with
  | zero => rfl
  | succ fuel ih =>
    rw [trimLoop]
    split
    · rename_i hlast
      obtain _ | ⟨b, _ | ⟨c, path⟩⟩ := path
      · exact absurd hlast.1 (by decide)
      · exact absurd hlast.1 (Nat.lt_irrefl 1)
      · exact ih _
    · rfl

theorem resolvePath_absolute (s : Fs) {path : List UInt8} (h : path.head? = some slash) :
    resolvePath s path = walkNames s (components slash path) s.rootdir := by
  have hne : path ≠ [] := by
    rintro rfl
    cases h
  have hcomponents : components slash (trimTrailingSlash path) = components slash path :=
    components_trimLoop path.length path
  have hhead : (trimTrailingSlash path).head? = some slash :=
    (head?_trimLoop path.length path).trans h
  rw [resolvePath, if_neg hne]
  simp
  split
  · rename_i hroot
    rw [← hcomponents, hroot]
    rfl
  · rw [dirWalk_eq_walkNames _ _ _ _ (Nat.lt_succ_self _), hcomponents]

/-- Components that are looked up as names. -/
def Names (names : List (List UInt8)) : Prop :=
  ∀ c ∈ names, c ≠ [] ∧ c ≠ dotName ∧ c ≠ dotdotName

section Tree

variable {s : Fs} {kids : ℕ → List ℕ} {d p r : ℕ} {name : List UInt8}
  {names names' : List (List UInt8)}

theorem Names.of_append (h : Names (names ++ names')) : Names names ∧ Names names' :=
  ⟨fun c hc => h c (mem_append_left _ hc), fun c hc => h c (mem_append_right _ hc)⟩

theorem Below.trans (h : Below s d p) (h' : Below s p r) : Below s d r := by
  induction h' with
  | refl => exact h
  | parent hparent _ ih => exact .parent hparent ih

variable (h : DirTree s kids)
include h

end Tree

end Sodex.Ext3
