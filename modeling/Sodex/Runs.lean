import Mathlib.Data.List.Basic
import Mathlib.Logic.Basic

/-!
# Runs of a state machine

A step takes a state and an input; `none` stands for a step that never returns.
A condition on steps is checked along a whole run, each time in the state the
run has reached.
-/
namespace Sodex.Runs

variable {σ ι : Type*}

/-- Feed the inputs to the machine one after the other. -/
def run (step : σ → ι → Option σ) : σ → List ι → Option σ
  | s, [] => some s
  | s, i :: is => (step s i).bind fun s' => run step s' is

theorem run_append (step : σ → ι → Option σ) (s : σ) (is js : List ι) :
    run step s (is ++ js) = (run step s is).bind fun s' => run step s' js := by
  induction is generalizing s with
  | nil => rfl
  | cons i is ih =>
    rw [List.cons_append, run, run, Option.bind_assoc]
    exact congrArg _ (funext ih)

/-- Every step of the run meets `P` in the state it starts from. -/
def Along (step : σ → ι → Option σ) (P : σ → ι → Prop) : σ → List ι → Prop
  | _, [] => True
  | s, i :: is => P s i ∧ ∀ s' ∈ step s i, Along step P s' is

instance Along.decidable (step : σ → ι → Option σ) (P : σ → ι → Prop)
    [∀ s i, Decidable (P s i)] : ∀ s is, Decidable (Along step P s is)
  | _, [] => inferInstanceAs (Decidable True)
  | s, i :: is =>
    have : ∀ s', Decidable (Along step P s' is) := fun s' => Along.decidable step P s' is
    inferInstanceAs (Decidable (P s i ∧ ∀ s' ∈ step s i, Along step P s' is))

theorem Along.mono {step : σ → ι → Option σ} {P Q : σ → ι → Prop} (h : ∀ s i, P s i → Q s i) :
    ∀ (is : List ι) (s : σ), Along step P s is → Along step Q s is := by
  intro is
  induction is with
  | nil => exact fun _ _ => trivial
  | cons i is ih => exact fun s hp => ⟨h s i hp.1, fun s' hs' => ih s' (hp.2 s' hs')⟩

/-- Under an invariant that every conditioned step keeps, one condition gives another. -/
theorem Along.of_invariant {step : σ → ι → Option σ} {P Q : σ → ι → Prop} {I : σ → Prop}
    (hstep : ∀ s i, I s → P s i → Q s i ∧ ∀ s' ∈ step s i, I s') :
    ∀ (is : List ι) (s : σ), I s → Along step P s is → Along step Q s is := by
  intro is
  induction is with
  | nil => exact fun _ _ _ => trivial
  | cons i is ih =>
    rintro s hs ⟨hp, htail⟩
    obtain ⟨hq, hinv⟩ := hstep s i hs hp
    exact ⟨hq, fun s' hs' => ih s' (hinv s' hs') (htail s' hs')⟩

/-- A condition on the inputs alone. -/
theorem Along.of_forall {step : σ → ι → Option σ} {P : ι → Prop} :
    ∀ (is : List ι) (s : σ), (∀ i ∈ is, P i) → Along step (fun _ => P) s is := by
  intro is
  induction is with
  | nil => exact fun _ _ => trivial
  | cons i is ih =>
    intro s h
    obtain ⟨hi, his⟩ := List.forall_mem_cons.mp h
    exact ⟨hi, fun s' _ => ih s' his⟩

/-- A conditioned run in two parts. -/
theorem Along.of_append {step : σ → ι → Option σ} {P : σ → ι → Prop} {is js : List ι} {s : σ}
    (h : Along step P s (is ++ js)) :
    Along step P s is ∧ ∀ s', run step s is = some s' → Along step P s' js := by
  induction is generalizing s with
  | nil =>
    refine ⟨trivial, fun s' hs' => ?_⟩
    cases hs'
    exact h
  | cons i is ih =>
    obtain ⟨hp, htail⟩ := h
    refine ⟨⟨hp, fun s₁ hs₁ => (ih (htail s₁ hs₁)).1⟩, fun s' hs' => ?_⟩
    obtain ⟨s₁, hs₁, hrun⟩ := Option.bind_eq_some_iff.mp hs'
    exact (ih (htail s₁ hs₁)).2 s' hrun

/-- A relation that every conditioned step keeps, and under which it returns,
holds at the end of every conditioned run. -/
theorem run_invariant {step : σ → ι → Option σ} {P : σ → ι → Prop} {I : σ → Prop}
    (hstep : ∀ s i, I s → P s i → ∃ s', step s i = some s' ∧ I s') :
    ∀ (is : List ι) (s : σ), I s → Along step P s is → ∃ s', run step s is = some s' ∧ I s' := by
  intro is
  induction is with
  | nil => exact fun s hs _ => ⟨s, rfl, hs⟩
  | cons i is ih =>
    rintro s hs ⟨hp, htail⟩
    obtain ⟨s', hs', hinv⟩ := hstep s i hs hp
    obtain ⟨t, ht, hinvt⟩ := ih s' hinv (htail s' hs')
    exact ⟨t, by simp only [run, hs', Option.bind_some, ht], hinvt⟩

/-- A property that every conditioned step keeps holds at the end of every conditioned
run that returns. -/
theorem run_preserves {step : σ → ι → Option σ} {P : σ → ι → Prop} {I : σ → Prop}
    (hstep : ∀ s i s', I s → P s i → step s i = some s' → I s') :
    ∀ (is : List ι) (s s' : σ), I s → Along step P s is → run step s is = some s' → I s' := by
  intro is
  induction is with
  | nil =>
    intro s s' hs _ hrun
    exact Option.some.inj hrun ▸ hs
  | cons i is ih =>
    rintro s s' hs ⟨hp, htail⟩ hrun
    obtain ⟨m, hm, hrun⟩ := Option.bind_eq_some_iff.mp hrun
    exact ih m s' (hstep s i m hs hp hm) (htail m hm) hrun

/-- A property that every step keeps holds at the end of every run that returns. -/
theorem run_keeps {step : σ → ι → Option σ} {I : σ → Prop}
    (hstep : ∀ s i s', I s → step s i = some s' → I s') :
    ∀ (is : List ι) (s s' : σ), I s → run step s is = some s' → I s' := by
  intro is
  induction is with
  | nil =>
    intro s s' hs hrun
    exact Option.some.inj hrun ▸ hs
  | cons i is ih =>
    intro s s' hs hrun
    obtain ⟨s₁, hs₁, hrest⟩ := Option.bind_eq_some_iff.mp hrun
    exact ih s₁ s' (hstep s i s₁ hs hs₁) hrest

end Sodex.Runs
