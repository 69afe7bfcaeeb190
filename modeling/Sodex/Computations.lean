import Mathlib.Data.List.Basic
import Mathlib.Logic.Basic

/-!
# Computations on a state

A computation gives a result or stops early, and changes the state in both cases. What all of its
parts do to the state, it does; what relates the parts of two computations relates the whole.
-/
namespace Sodex.Computations

universe u v w

/-- A computation on states `σ` that stops with an `ε` or gives an `α`. -/
def Comp (σ : Type u) (ε : Type v) (α : Type w) := σ → Except ε α × σ

namespace Comp

variable {σ τ : Type u} {ε : Type v} {α β γ δ : Type w}

def ret (a : α) : Comp σ ε α := fun s => (.ok a, s)

def andThen (m : Comp σ ε α) (f : α → Comp σ ε β) : Comp σ ε β := fun s =>
  match m s with
  | (.ok a, s) => f a s
  | (.error e, s) => (.error e, s)

instance : Monad (Comp σ ε) where
  pure := ret
  bind := andThen

def stop (e : ε) : Comp σ ε α := fun s => (.error e, s)

def change (f : σ → σ) : Comp σ ε PUnit := fun s => (.ok ⟨⟩, f s)

/-- Go on with what the state holds. -/
def view (f : σ → Comp σ ε α) : Comp σ ε α := fun s => f s s

/-- Something is set up for `m` and taken down after it, also if it stops. -/
def within (before : σ → σ) (m : Comp σ ε α) (after : σ → σ) : Comp σ ε α := fun s =>
  ((m (before s)).1, after (m (before s)).2)

/-- A change of the state if `m` stops. -/
def onStop (m : Comp σ ε α) (f : σ → σ) : Comp σ ε α := fun s =>
  match m s with
  | (.ok a, s) => (.ok a, s)
  | (.error e, s) => (.error e, f s)

/-- The state before and after. -/
def Does (R : σ → σ → Prop) (m : Comp σ ε α) : Prop := ∀ s, R s (m s).2

section Does

variable {R : σ → σ → Prop} {m : Comp σ ε α}

theorem Does.pure (hrefl : ∀ s, R s s) (a : α) : Does R (Pure.pure a : Comp σ ε α) :=
  fun s => hrefl s

theorem Does.stop (hrefl : ∀ s, R s s) (e : ε) : Does R (stop e : Comp σ ε α) :=
  fun s => hrefl s

theorem Does.bind (htrans : ∀ {a b c}, R a b → R b c → R a c) {f : α → Comp σ ε β}
    (hm : Does R m) (hf : ∀ a, Does R (f a)) : Does R (m >>= f) := by
  intro s
  have hms := hm s
  simp only [Bind.bind, andThen]
  split
  · rename_i a s' heq
    rw [heq] at hms
    exact htrans hms (hf a s')
  · rename_i e s' heq
    rwa [heq] at hms

theorem Does.ite {c : Prop} [Decidable c] {m' : Comp σ ε α} (hm : Does R m) (hm' : Does R m') :
    Does R (if c then m else m') := by
  split
  · exact hm
  · exact hm'

theorem Does.view {f : σ → Comp σ ε α} (hf : ∀ s, R s (f s s).2) : Does R (view f) := hf

theorem Does.onStop (htrans : ∀ {a b c}, R a b → R b c → R a c) {f : σ → σ} (hm : Does R m)
    (hf : ∀ s, R s (f s)) : Does R (m.onStop f) := by
  intro s
  have hms := hm s
  simp only [Comp.onStop]
  split
  · rename_i a s' heq
    rwa [heq] at hms
  · rename_i e s' heq
    rw [heq] at hms
    exact htrans hms (hf s')

end Does

end Comp

end Sodex.Computations
