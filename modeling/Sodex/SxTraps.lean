import Sodex.SxParts

/-!
# Runs of sx that are lost in a trap

`sx_eval_binary_expr` refuses a divisor of zero only. The quotient of the least number and minus one
does not fit, and the division traps. Nothing after it is evaluated, so a run is lost exactly if such
a division is the last of its log.
-/
namespace Sodex.Sx

open CText Computations Builtin Eval

variable {W α β : Type} {sys : System W} {execute : Bool} {a : Eval W α}

/-- No division that traps has been evaluated. -/
def Machine.Untrapped (m : Machine W) : Prop := .division INT_MIN (-1) ∉ m.host.log

instance (m : Machine W) : Decidable m.Untrapped := inferInstanceAs (Decidable (_ ∉ _))

/-- A part of a run traps just when it evaluates such a division. -/
def TrapsAt (a : Eval W α) : Prop :=
  ∀ m : Machine W, m.Untrapped → ((a m).1 = .error .trap ↔ ¬(a m).2.Untrapped)

namespace TrapsAt

theorem of_untrapped (hresult : ∀ m, (a m).1 ≠ .error .trap)
    (hlog : ∀ m : Machine W, m.Untrapped → (a m).2.Untrapped) : TrapsAt a :=
  fun m hm => iff_of_false (hresult m) (not_not.mpr (hlog m hm))

theorem bind {f : α → Eval W β} (ha : TrapsAt a) (hf : ∀ x, TrapsAt (f x)) :
    TrapsAt (a >>= f) := by
  intro m hm
  have htraps := ha m hm
  simp only [Bind.bind, Comp.andThen]
  generalize a m = r at htraps
  obtain ⟨r, after⟩ := r
  cases r with
  | error e => simpa using htraps
  | ok x => exact hf x after (not_not.mp (mt htraps.mpr (by simp)))

theorem ofBuiltin {b : Builtin W α}
    (hb : Comp.Does (fun h h' => .division INT_MIN (-1) ∈ h'.log → .division INT_MIN (-1) ∈ h.log) b) :
    TrapsAt (ofBuiltin b) := by
  refine of_untrapped (fun m => ?_) fun m hm => mt (hb m.host) hm
  simp only [Eval.ofBuiltin]
  cases (b m.host).1 <;> simp [Except.mapError]

theorem within (before after : Runtime → Runtime) (ha : TrapsAt a) :
    TrapsAt (Comp.within (onRuntime before) a (onRuntime after)) := fun _ hm => ha _ hm

theorem onStop (f : Runtime → Runtime) (ha : TrapsAt a) : TrapsAt (a.onStop (onRuntime f)) := by
  intro m hm
  have htraps := ha m hm
  simp only [Comp.onStop]
  generalize a m = r at htraps
  obtain ⟨_ | _, after⟩ := r <;> exact htraps

end TrapsAt

theorem hostClosed_divisions : HostClosed sys execute fun h h' =>
    .division INT_MIN (-1) ∈ h'.log → .division INT_MIN (-1) ∈ h.log where
  refl _ := id
  trans hab hbc := hab ∘ hbc
  setHandles _ _ := id
  ask _ op h := by simp [ask]

theorem everywhere_trapsAt (sys : System W) (execute : Bool) :
    Everywhere sys execute fun a => TrapsAt a where
  pure _ := .of_untrapped (fun _ => nofun) fun _ => id
  fail _ := .of_untrapped (fun _ => nofun) fun _ => id
  depth := .of_untrapped (fun _ => nofun) fun _ => id
  bind := TrapsAt.bind
  mono ha _ := ha
  withRuntime hf m := hf m.runtime m
  limited hf m := hf _ m
  allowed ha m := by
    simp only [withRuntime, Comp.view]
    split
    · exact fun hm => iff_of_false nofun (not_not.mpr hm)
    · exact ha () trivial m
  statement := .of_untrapped (fun _ => nofun) fun m hm => by
    simpa [Machine.Untrapped, record, Comp.change] using hm
  quotient left right value := by
    intro m hm
    simp only [Machine.Untrapped] at hm
    by_cases htrap : left = INT_MIN ∧ right = -1
    · simp [Sx.quotient, htrap, record, Comp.change, Comp.stop, Machine.Untrapped, Bind.bind,
        Comp.andThen]
    · simp [Sx.quotient, htrap, record, Comp.change, Machine.Untrapped, Bind.bind, Comp.andThen,
        Pure.pure, Comp.ret, hm]
      tauto
  builtin _ _ _ _ _ := .ofBuiltin (hostClosed_divisions.builtin _ _ _ _ _)
  script hs := .ofBuiltin ((@hostClosed_divisions _ _ false).script (.inr hs))
  change _ := .of_untrapped (fun _ => nofun) fun _ => id
  scope ha := ha.within _ _
  loop ha := ha.within _ _
  call _ ha := (ha.onStop _).within _ _

/-- A run traps just when it evaluates a division that does. -/
theorem trap_iff {program : Program} {m : Machine W} (hm : m.Untrapped) :
    (runProgram sys program execute m).1 = .error .trap ↔
      ¬(runProgram sys program execute m).2.Untrapped :=
  (everywhere_trapsAt sys execute).wholeRun m hm

/-- `sx_runtime_init`. -/
def fresh (argv : List Text) (world : W) : Machine W := ⟨.init argv, ⟨.init, world, []⟩⟩

/-- A system that refuses everything. -/
def refusing : System Unit where
  answer op _ := by
    refine (?_, ())
    cases op
    all_goals first | exact false | exact none | exact (0 : ℤ) | exact ()
  getenv _ := none

/-- `let n = (-2147483647 - one) / -1;` -/
def dividing (one : ℤ) : Program where
  functions := []
  top := .cons (.simple (.letStmt .none (ascii "n") (.binary .none .div
    (.binary .none .sub (.unary .none .negate (.i32 .none 2147483647)) (.i32 .none one))
    (.unary .none .negate (.i32 .none 1))))) .nil

end Sodex.Sx
