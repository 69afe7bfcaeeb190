import Sodex.SxTraps
import Mathlib.Algebra.Order.BigOperators.Group.List

/-!
# Runs of sx are bounded and balanced

A loop is left after as many rounds as the limits allow, and calls nest as deep as they allow, so
that the statements of a run are no more than a number that the size of the program and the limits
give. Every part of a run leaves the scopes, the calls and the loops as it found them. So a run returns,
unless it is lost in a trap.
-/
namespace Sodex.Sx

open Computations Builtin Eval

variable {W : Type}

def Program.size (program : Program) : ℕ :=
  program.top.size + (program.functions.map (·.body.size)).sum

/-- The statements of a call, if calls nest at most `depth` deep. -/
def callBound (n L : ℕ) : ℕ → ℕ
  | 0 => 0
  | depth + 1 => budget (callBound n L depth) L n

/-- The statements of a run. -/
def stepBound (n depth L : ℕ) : ℕ := callBound n L (depth + 1)

theorem callBound_mono {n L depth depth' : ℕ} (h : depth ≤ depth') :
    callBound n L depth ≤ callBound n L depth' := by
  induction depth generalizing depth' with
  | zero => exact Nat.zero_le _
  | succ depth ih =>
    obtain ⟨depth', rfl⟩ : ∃ k, depth' = k + 1 := ⟨depth' - 1, by omega⟩
    exact budget_mono (ih (by omega)) (le_refl n)

/-- The statements that have been begun. -/
def Machine.statements (m : Machine W) : ℕ := m.host.log.count .statement

/-- `depth` more calls may nest, and a loop has at most `L` rounds. -/
structure Fits (depth L : ℕ) (m : Machine W) : Prop where
  sound : m.runtime.Sound
  depth : m.runtime.limits.maxCallDepth ≤ m.runtime.callStack.length + depth
  rounds : m.runtime.limits.maxLoopIterations = L

/-- A part of a run from `m` has come to its end with at most `n` statements, and the depth of the
calls was enough. -/
structure Ended {α : Type} (n : ℕ) (m : Machine W) (r : Except Stop α × Machine W) : Prop where
  balanced : Balanced m.runtime r.2.runtime
  depth : r.1 ≠ .error .depth
  statements : r.2.statements ≤ m.statements + n

def Bounded (depth L n : ℕ) {α : Type} (b : Eval W α) : Prop :=
  ∀ m, Fits depth L m → Ended n m (b m)

section Bounded

variable {depth L n k : ℕ} {α β : Type} {m : Machine W} (sys : System W) (execute : Bool)

theorem Fits.balanced {m' : Machine W} (h : Fits depth L m)
    (hb : Balanced m.runtime m'.runtime) : Fits depth L m' :=
  ⟨hb.sound h.sound, by rw [hb.limits, hb.callStack]; exact h.depth,
    by rw [hb.limits]; exact h.rounds⟩

/-- Neither the runtime nor the log has been changed. -/
theorem Ended.same {r : Except Stop α} (h : r ≠ .error .depth) : Ended n m (r, m) :=
  ⟨.refl _, h, Nat.le_add_right _ _⟩

namespace Bounded

variable {b : Eval W α}

theorem bind {f : α → Eval W β} (hb : Bounded depth L n b)
    (hf : ∀ a, Bounded depth L k (f a)) : Bounded depth L (n + k) (b >>= f) := by
  intro m hm
  obtain ⟨hbalanced, hdepth, hcount⟩ := hb m hm
  simp only [Bind.bind, Comp.andThen]
  generalize b m = r at hbalanced hdepth hcount
  obtain ⟨a | a, m'⟩ := r
  · exact ⟨hbalanced, fun h => hdepth (congrArg _ (Except.error.inj h)), by dsimp only at *; omega⟩
  · have hfm := hf a m' (hm.balanced hbalanced)
    exact ⟨hbalanced.trans hfm.balanced, hfm.depth, by have := hfm.statements; dsimp only at *; omega⟩

theorem mono (h : Bounded depth L n b) (hle : n ≤ k) : Bounded depth L k b :=
  fun m hm => ⟨(h m hm).balanced, (h m hm).depth,
    (h m hm).statements.trans (Nat.add_le_add_left hle _)⟩

theorem record {event : Event} (h : event ≠ .statement) :
    Bounded depth L n (record event : Eval W Unit) := by
  refine fun m _ => ⟨.refl _, nofun, ?_⟩
  simp only [Eval.record, Comp.change, Machine.statements, List.count_cons_of_ne h]
  omega

theorem noted {event : Event} (h : event ≠ .statement) (hb : Bounded depth L n b) :
    Bounded depth L n (do Eval.record event; b) :=
  (bind (record h) fun _ => hb).mono (zero_add n).le

theorem ite {c : Prop} [Decidable c] {b' : Eval W α} (hb : Bounded depth L n b)
    (hb' : Bounded depth L n b') : Bounded depth L n (if c then b else b') := by
  split
  · exact hb
  · exact hb'

theorem ofBuiltin {b : Builtin W α}
    (hb : Comp.Does (fun h h' => h'.log.count .statement = h.log.count .statement) b) :
    Bounded depth L n (ofBuiltin b) := by
  refine fun m _ => ⟨.refl _, ?_, ?_⟩
  · simp only [Eval.ofBuiltin]
    cases (b m.host).1 <;> simp [Except.mapError]
  · simp only [Machine.statements, Eval.ofBuiltin]
    rw [hb m.host]
    exact Nat.le_add_right _ _

theorem inScope (hb : Bounded depth L n b) :
    Bounded depth L n (Comp.within (onRuntime fun rt => { rt with scopeDepth := rt.scopeDepth + 1 })
      b (onRuntime Runtime.leaveScope)) := by
  intro m hm
  obtain ⟨hbalanced, hdepth, hcount⟩ :=
    hb (onRuntime (fun rt => { rt with scopeDepth := rt.scopeDepth + 1 }) m)
      ⟨fun s hs => Nat.le_succ_of_le (hm.sound s hs), hm.depth, hm.rounds⟩
  exact ⟨balanced_leaveScope hm.sound hbalanced, hdepth, hcount⟩

theorem inLoop (hb : Bounded depth L n b) : Bounded depth L n (inLoop b) := by
  intro m hm
  obtain ⟨h, hdepth, hcount⟩ :=
    hb (onRuntime (fun rt => { rt with loopDepth := rt.loopDepth + 1 }) m)
      ⟨hm.sound, hm.depth, hm.rounds⟩
  exact ⟨⟨h.scopeDepth, h.callStack, h.insideFunction, Nat.sub_eq_of_eq_add h.loopDepth, h.limits,
    h.bindings⟩, hdepth, hcount⟩

theorem onStop (hb : Bounded depth L n b) :
    Bounded depth L n (b.onStop (onRuntime Runtime.snapshotErrorStack)) := by
  intro m hm
  obtain ⟨hbalanced, hdepth, hcount⟩ := hb m hm
  simp only [Comp.onStop]
  generalize b m = r at hbalanced hdepth hcount
  obtain ⟨a | a, m'⟩ := r
  · refine ⟨hbalanced.trans ?_, hdepth, hcount⟩
    simp only [onRuntime, Runtime.snapshotErrorStack]
    split
    · exact .refl _
    · exact .of_shapes rfl rfl rfl rfl rfl rfl
  · exact ⟨hbalanced, hdepth, hcount⟩

/-- A call uses up one of the calls that may nest. -/
theorem inCall {name : Text} {b : Eval W Flow} (hb : Bounded depth L n b) :
    Bounded (depth + 1) L n (inCall name b) := by
  intro m hm
  have hroom := hm.depth
  obtain ⟨h, hdepth, hcount⟩ := hb.onStop (onRuntime (fun rt =>
    { rt with
      callStack := name :: rt.callStack
      insideFunction := rt.insideFunction + 1 }) m)
    ⟨hm.sound, by simp only [onRuntime, List.length_cons]; omega, hm.rounds⟩
  exact ⟨⟨h.scopeDepth, congrArg List.tail h.callStack, Nat.sub_eq_of_eq_add h.insideFunction,
    h.loopDepth, h.limits, h.bindings⟩, hdepth, hcount⟩

end Bounded

theorem hostClosed_statements :
    HostClosed sys execute fun h h' => h'.log.count .statement = h.log.count .statement where
  refl _ := rfl
  trans hab hbc := hbc.trans hab
  setHandles _ _ := rfl
  ask _ op h := by simp [ask]

theorem steps_bounded (L : ℕ) :
    Steps (fun d e => d = e + 1) sys execute L fun d n _ b => Bounded d L n b where
  pure _ _ _ := .same (by simp)
  fail _ _ _ := .same (by simp)
  bind := Bounded.bind
  mono := Bounded.mono
  withRuntime hf m := hf m.runtime m
  limited := by
    intro d n α f hf m hm
    have hlimit := hf L m hm
    rwa [← hm.rounds] at hlimit ⊢
  allowed := by
    intro d n α b span message hb m hm
    simp only [withRuntime, Comp.view]
    split
    · exact .same (by simp)
    · -- A call that is allowed leaves one call less to its body.
      have hroom := hm.depth
      exact hb (d - 1) (by omega) m hm
  statement m _ := ⟨.refl _, by simp [record, Comp.change],
    by simp [record, Comp.change, Machine.statements]⟩
  quotient _ _ _ := .noted (by simp) (.ite (fun _ _ => .same (by simp)) fun _ _ => .same (by simp))
  builtin _ _ _ _ _ := .ofBuiltin ((hostClosed_statements sys execute).builtin _ _ _ _ _)
  script hs := .ofBuiltin ((hostClosed_statements sys false).script (.inr hs))
  change hf m _ := ⟨hf m.runtime, by simp [setRuntime, Comp.change], Nat.le_add_right _ _⟩
  scope := Bounded.inScope
  loop := Bounded.inLoop
  call := by
    rintro _ e n name b rfl hb
    exact hb.inCall

end Bounded

section Programs

variable (sys : System W) (program : Program) (execute : Bool)

theorem size_le {fn : Function} (hfn : fn ∈ program.functions) : fn.body.size ≤ program.size := by
  have hsum : fn.body.size ≤ (program.functions.map (·.body.size)).sum :=
    List.single_le_sum (fun _ _ => Nat.zero_le _) _ (List.mem_map_of_mem hfn)
  rw [Program.size]
  omega

/-- The blocks, by induction on the calls that may still nest. -/
theorem bounded_runBlock (depth L : ℕ) (b : Block) :
    Bounded depth L (budget (callBound program.size L depth) L b.size)
      (runBlock sys program execute (runBodyAt sys program execute depth) b) := by
  have hblock {depth c : ℕ} {runBody : Function → Eval W Flow}
      (hbody : ∀ fn ∈ program.functions, ∀ e, depth = e + 1 → Bounded e L c (runBody fn)) :=
    @Steps.runBlock W ℕ _ sys program execute L c _ runBody depth
      (steps_bounded sys execute L) hbody
  induction depth generalizing b with
  | zero => exact hblock (fun _ _ _ he => absurd he (Nat.succ_ne_zero _).symm) b
  | succ depth ih =>
    refine hblock (fun fn hfn e he => ?_) b
    cases he
    exact (ih fn.body).mono (budget_mono (le_refl _) (size_le program hfn))

/-- A machine whose bindings are all of scopes that are entered. -/
structure State (W : Type) extends Machine W where
  sound : runtime.Sound

def State.init (argv : List Text) (host : Host W) : State W where
  runtime := .init argv
  host := host
  sound := by simp [Runtime.Sound, Runtime.shapes, Runtime.init]

theorem bounded_runProgram (s : State W) :
    Ended (stepBound program.size s.runtime.limits.maxCallDepth s.runtime.limits.maxLoopIterations)
      s.toMachine (runProgram sys program execute s.toMachine) := by
  let depth := s.runtime.limits.maxCallDepth
  let L := s.runtime.limits.maxLoopIterations
  have htop : Bounded depth L (stepBound program.size depth L) (withRuntime fun rt => runBlock sys
      program execute (runBodyAt sys program execute
        (rt.limits.maxCallDepth - rt.callStack.length)) program.top) := by
    intro m hm
    have hroom := hm.depth
    refine ((bounded_runBlock sys program execute _ L program.top).mono ?_) m ⟨hm.sound, ?_, hm.rounds⟩
    · exact budget_mono (callBound_mono (by omega)) (Nat.le_add_right _ _)
    · omega
  exact (steps_bounded sys execute L).runProgram htop s.toMachine ⟨s.sound, by omega, rfl⟩

/-- A run leaves a state, whatever it ends with. -/
def State.run (sys : System W) (program : Program) (execute : Bool) (s : State W) : State W where
  toMachine := (runProgram sys program execute s.toMachine).2
  sound := (bounded_runProgram sys program execute s).balanced.sound s.sound

end Programs

/-- A run of a program, in a check or in earnest, returns if it evaluates no division that traps, and
only then. It begins no more statements than the size of the program and the limits allow. It leaves
the scopes, the calls and the loops as they were, and adds only bindings of the scope in which it
began. -/
theorem run_bounded_and_balanced (sys : System W) (program : Program) (execute : Bool)
    (s : State W) (hs : s.Untrapped) :
    let (result, after) := runProgram sys program execute s.toMachine
    (result ≠ .error .trap ∧ result ≠ .error .depth ∧
      after.statements ≤ s.statements +
        stepBound program.size s.runtime.limits.maxCallDepth s.runtime.limits.maxLoopIterations ∧
      Balanced s.runtime after.runtime) ↔ after.Untrapped := by
  obtain ⟨hbalanced, hdepth, hsteps⟩ := bounded_runProgram sys program execute s
  have htrap := @trap_iff _ sys execute program _ hs
  exact ⟨fun h => not_not.mp (mt htrap.mpr h.1),
    fun h => ⟨mt htrap.mp (not_not.mpr h), hdepth, hsteps, hbalanced⟩⟩

theorem dividing_bounded :
    let (result, after) := runProgram refusing (dividing 0) true (fresh [] ())
    result ≠ .error .trap ∧ after.runtime.scopeDepth = 0 := by
  have h := (run_bounded_and_balanced refusing (dividing 0) true
    (.init [] ⟨.init, (), []⟩) nofun).mpr (by decide +kernel)
  exact ⟨h.1, h.2.2.2.scopeDepth⟩

/-- The least number divided by minus one: the run does not come back. -/
theorem run_lost_in_division :
    (runProgram refusing (dividing 1) true (fresh [] ())).1 = .error .trap := rfl

end Sodex.Sx
