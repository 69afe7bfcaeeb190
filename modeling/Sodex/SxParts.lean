import Sodex.SxBalance
import Sodex.SxBuiltinParts
import Mathlib.Algebra.Order.Ring.Nat
import Mathlib.Tactic.Ring

/-!
# What every part of an sx run does

A run of a program is made of small steps. A property that these have, and that the scopes, loops and
calls around a part keep, is one that the run has. The property may count the statements.
-/
namespace Sodex.Sx

open Computations Builtin Eval

variable {W : Type}

mutual

def Expr.size : Expr → ℕ
  | .call _ _ args => args.size + 1
  | .unary _ _ operand => operand.size + 1
  | .binary _ _ left right => left.size + right.size + 1
  | .list _ items => items.size + 1
  | .map _ items => items.size + 1
  | _ => 1

def Args.size : Args → ℕ
  | .nil => 0
  | .cons arg rest => arg.size + rest.size

def Entries.size : Entries → ℕ
  | .nil => 0
  | .cons _ value rest => value.size + rest.size

end

def Simple.size : Simple → ℕ
  | .letStmt _ _ value => value.size + 1
  | .assign _ _ value => value.size + 1
  | .call _ _ args => args.size + 1 + 1

def optionalSize {α : Type} (size : α → ℕ) : Option α → ℕ
  | none => 0
  | some a => size a

mutual

def Stmt.size : Stmt → ℕ
  | .simple stmt => stmt.size
  | .block _ body => body.size + 1
  | .ifThen _ condition body => condition.size + body.size + 1
  | .ifElse _ condition body other => condition.size + (body.size + other.size) + 1
  | .whileLoop _ condition body => condition.size + body.size + 1
  | .forLoop _ init condition step body =>
    optionalSize Simple.size init +
      (optionalSize Expr.size condition + body.size + optionalSize Simple.size step) + 1
  | .ret _ value => optionalSize Expr.size value + 1
  | .brk _ => 1
  | .cont _ => 1

def Block.size : Block → ℕ
  | .nil => 0
  | .cons stmt rest => stmt.size + rest.size

end

/-- The statements of a part of size `n`, if a call has at most `c` and a loop `L` rounds. -/
def budget (c L n : ℕ) : ℕ := n * (1 + c) * (L + 1) ^ n

section Budget

variable {c c' L n n' : ℕ}

theorem budget_mono (hc : c ≤ c') (hn : n ≤ n') : budget c L n ≤ budget c' L n' :=
  Nat.mul_le_mul (Nat.mul_le_mul hn (Nat.add_le_add_left hc 1))
    (Nat.pow_le_pow_right (Nat.succ_pos L) hn)

theorem budget_add : budget c L n + budget c L n' ≤ budget c L (n + n') := by
  have hpow : (L + 1) ^ n ≤ (L + 1) ^ (n + n') :=
    Nat.pow_le_pow_right (Nat.succ_pos L) (Nat.le_add_right _ _)
  have hpow' : (L + 1) ^ n' ≤ (L + 1) ^ (n + n') :=
    Nat.pow_le_pow_right (Nat.succ_pos L) (Nat.le_add_left _ _)
  calc budget c L n + budget c L n'
      ≤ n * (1 + c) * (L + 1) ^ (n + n') + n' * (1 + c) * (L + 1) ^ (n + n') :=
        add_le_add (Nat.mul_le_mul_left _ hpow) (Nat.mul_le_mul_left _ hpow')
    _ = budget c L (n + n') := by rw [budget]; ring

theorem budget_add_add {k : ℕ} :
    budget c L n + budget c L n' + budget c L k ≤ budget c L (n + n' + k) :=
  le_trans (Nat.add_le_add_right budget_add _) budget_add

/-- A part is run in every round of a loop. -/
theorem budget_rounds : 1 + (L + 1) * budget c L n ≤ budget c L (n + 1) := by
  have hone : 1 ≤ (1 + c) * (L + 1) ^ (n + 1) := Nat.one_le_iff_ne_zero.mpr (by positivity)
  calc 1 + (L + 1) * budget c L n
      ≤ (1 + c) * (L + 1) ^ (n + 1) + (L + 1) * budget c L n := Nat.add_le_add_right hone _
    _ = budget c L (n + 1) := by simp only [budget]; ring

/-- One part is run before the rounds of a loop. -/
theorem budget_for : 1 + (budget c L n + (L + 1) * budget c L n') ≤ budget c L (n + n' + 1) := by
  refine le_trans (Nat.add_le_add_left ?_ 1) budget_rounds
  have hpos : 0 < L + 1 := Nat.succ_pos L
  calc budget c L n + (L + 1) * budget c L n'
      ≤ (L + 1) * budget c L n + (L + 1) * budget c L n' :=
        Nat.add_le_add_right (Nat.le_mul_of_pos_left _ hpos) _
    _ = (L + 1) * (budget c L n + budget c L n') := (mul_add _ _ _).symm
    _ ≤ (L + 1) * budget c L (n + n') := Nat.mul_le_mul_left _ budget_add

theorem budget_succ : 1 + budget c L n ≤ budget c L (n + 1) := by
  refine le_trans ?_ budget_rounds
  have hpos : 0 < L + 1 := Nat.succ_pos L
  have hle := Nat.le_mul_of_pos_left (budget c L n) hpos
  omega

theorem le_budget_one : c ≤ budget c L 1 := by
  have hpos : 0 < L + 1 := Nat.succ_pos L
  have hle := Nat.le_mul_of_pos_right (1 + c) hpos
  simp only [budget, one_mul, pow_one]
  omega

end Budget

/-- The bracket that a call puts around the body of a function. -/
def inCall (name : Text) (m : Eval W Flow) : Eval W Flow :=
  Comp.within
    (onRuntime fun rt =>
      { rt with
        callStack := name :: rt.callStack
        insideFunction := rt.insideFunction + 1 })
    (m.onStop (onRuntime Runtime.snapshotErrorStack))
    (onRuntime fun rt =>
      { rt with callStack := rt.callStack.tail, insideFunction := rt.insideFunction - 1 })

/-- A property of the parts of a run, at a depth of the calls and with a number of statements. A call
needs a depth below, and a loop has at most `L` rounds. -/
structure Steps {δ : Type} (below : δ → δ → Prop) (sys : System W) (execute : Bool) (L : ℕ)
    (P : δ → ℕ → ∀ {α : Type}, Eval W α → Prop) : Prop where
  pure : ∀ {d n} {α : Type} (a : α), P d n (Pure.pure a : Eval W α)
  fail : ∀ {d n} {α : Type} diag, P d n (Comp.stop (.halt (.diag diag)) : Eval W α)
  bind : ∀ {d n k} {α β : Type} {m : Eval W α} {f : α → Eval W β},
    P d n m → (∀ a, P d k (f a)) → P d (n + k) (m >>= f)
  mono : ∀ {d n k} {α : Type} {m : Eval W α}, P d n m → n ≤ k → P d k m
  withRuntime : ∀ {d n} {α : Type} {f : Runtime → Eval W α},
    (∀ rt, P d n (f rt)) → P d n (withRuntime f)
  limited : ∀ {d n} {α : Type} {f : ℕ → Eval W α}, (∀ left, P d ((left + 1) * n) (f left)) →
    P d ((L + 1) * n) (Eval.withRuntime fun rt => f rt.limits.maxLoopIterations)
  allowed : ∀ {d n} {α : Type} {m : Eval W α} {span message}, (∀ e, below d e → P d n m) →
    P d n (Eval.withRuntime fun rt =>
      if rt.limits.maxCallDepth ≤ rt.callStack.length then Eval.stopAt span message else m)
  statement : ∀ {d}, P d 1 (record .statement)
  quotient : ∀ {d n} left right value, P d n (quotient left right value)
  builtin : ∀ {d n} span argv target name args,
    P d n (ofBuiltin (runBuiltin sys execute span argv target name args))
  script : ∀ {d n} {α : Type} {script : Script α}, script.Silent → P d n (ofScript sys script)
  change : ∀ {d n f}, (∀ rt, Balanced rt (f rt)) → P d n (setRuntime f)
  scope : ∀ {d n} {α : Type} {m : Eval W α}, P d n m →
    P d n (Comp.within (onRuntime fun rt => { rt with scopeDepth := rt.scopeDepth + 1 }) m
      (onRuntime Runtime.leaveScope))
  loop : ∀ {d n} {α : Type} {m : Eval W α}, P d n m → P d n (inLoop m)
  call : ∀ {d e n name m}, below d e → P e n m → P d n (inCall name m)

theorem either {α : Type} {Q : Eval W α → Prop} {c : Prop} [Decidable c] {a b : Eval W α}
    (ha : Q a) (hb : Q b) : Q (if c then a else b) := by
  split
  · exact ha
  · exact hb

theorem silent_addItem (handle : ℕ) (value : Value) : (addItem handle value).Silent := by
  rw [addItem, Script.silent_withHandles]
  intro h
  repeat' split
  all_goals trivial

theorem silent_addEntry (handle index : ℕ) (key : Text) (value : Value) :
    (addEntry handle index key value).Silent := by
  rw [addEntry, Script.silent_withHandles]
  intro h
  repeat' split
  all_goals trivial

namespace Steps

variable {δ : Type} {below : δ → δ → Prop} {sys : System W} {program : Program} {execute : Bool}
  {L c : ℕ} {P : δ → ℕ → ∀ {α : Type}, Eval W α → Prop} {runBody : Function → Eval W Flow} {d : δ}
  {n k : ℕ} {α β : Type}

section Rules

variable (h : Steps below sys execute L P)

include h

/-- What follows begins no statement. -/
theorem bind_quiet {m : Eval W α} {f : α → Eval W β} (hm : P d n m) (hf : ∀ a, P d 0 (f a)) :
    P d n (m >>= f) := h.bind hm hf

/-- What stands before begins no statement. -/
theorem quiet_bind {m : Eval W α} {f : α → Eval W β} (hm : P d 0 m) (hf : ∀ a, P d n (f a)) :
    P d n (m >>= f) :=
  h.mono (h.bind hm hf) (by omega)

variable (span : Span)
include span

theorem stopAt (message : String) : P d n (stopAt span message : Eval W α) := h.fail _

theorem toBool (value : Value) : P d n (toBool span value : Eval W Bool) := by
  cases value <;> first | exact h.pure _ | exact h.stopAt _ _

theorem toI32 (value : Value) : P d n (toI32 span value : Eval W ℤ) := by
  cases value <;> first | exact h.pure _ | exact h.stopAt _ _

theorem evalUnary (op : UnaryOp) (operand : Value) :
    P d n (evalUnary span op operand : Eval W Value) := by
  cases op
  · exact h.bind_quiet (h.toBool _ _) fun _ => h.pure _
  · exact h.bind_quiet (h.toI32 _ _) fun _ => h.pure _

theorem evalArithmetic (op : BinaryOp) (left right : ℤ) :
    P d n (evalArithmetic span op left right : Eval W Value) := by
  cases op <;> simp only [Sx.evalArithmetic] <;> try split
  all_goals first | exact h.pure _ | exact h.stopAt _ _ | exact h.quotient _ _ _

theorem evalEquality (negated : Bool) (left right : Value) :
    P d n (evalEquality span negated left right : Eval W Value) :=
  either (h.stopAt _ _) (h.pure _)

theorem evalBinary (op : BinaryOp) (left right : Value) :
    P d n (evalBinary span op left right : Eval W Value) := by
  have hnumbers : P d n (do
      let left ← Sx.toI32 span left
      let right ← Sx.toI32 span right
      Sx.evalArithmetic span op left right : Eval W Value) :=
    h.quiet_bind (h.toI32 _ _) fun _ => h.quiet_bind (h.toI32 _ _) fun _ =>
      h.evalArithmetic _ _ _ _
  cases op
  case eq => exact h.evalEquality _ _ _ _
  case ne => exact h.evalEquality _ _ _ _
  all_goals exact hnumbers

theorem evalLogical (op : BinaryOp) (left : Value) {right : Eval W Value} (hright : P d n right) :
    P d n (evalLogical span op left right) :=
  h.quiet_bind (h.toBool _ _) fun _ => either (h.pure _) <| either (h.pure _) <|
    h.bind_quiet hright fun _ => h.bind_quiet (h.toBool _ _) fun _ => h.pure _

theorem registerBinding (name : Text) (value : Value) : P d n (registerBinding span name value) :=
  h.withRuntime fun _ => either (h.stopAt _ _) <| either (h.stopAt _ _) <|
    h.change fun rt => .added rt (storedName name) value

theorem lookup (name : Text) : P d n (lookup span name : Eval W ℕ) := by
  refine h.withRuntime fun rt => ?_
  split
  · exact h.stopAt _ _
  · exact h.pure _

theorem readName (name : Text) : P d n (readName span name : Eval W Value) :=
  h.bind_quiet (h.lookup span name) fun _ => h.withRuntime fun _ => h.pure _

theorem assignBinding (name : Text) (value : Value) :
    P d n (assignBinding span name value : Eval W Unit) :=
  h.bind_quiet (h.lookup span name) fun index => h.change fun rt => .assigned rt index value

theorem bindParams (names : List Text) (values : List Value) :
    P d n (bindParams span names values : Eval W Unit) := by
  induction names generalizing values with
  | nil => exact h.pure _
  | cons name names ih =>
    cases values with
    | nil => exact h.pure _
    | cons value values => exact h.quiet_bind (h.registerBinding _ _ _) fun _ => ih values

theorem inScope {m : Eval W α} (hm : P d n m) : P d n (inScope span m) :=
  h.withRuntime fun _ => either (h.stopAt _ _) (h.scope hm)

end Rules

section Loops

variable (h : Steps below sys execute L P) {condition : Eval W Bool} {body : Eval W Flow}
  {step : Eval W Unit} {a b s : ℕ} (span : Span) (message : String) (hcondition : P d a condition)
  (hround : P d b body) (hstep : P d s step)

include h hcondition hround hstep

/-- The condition of a loop is evaluated once more than its body is run. -/
theorem rounds (left : ℕ) :
    P d ((left + 1) * (a + b + s)) (Sx.loop span message condition body step left) := by
  induction left with
  | zero =>
    refine h.mono (h.bind_quiet hcondition fun go => either (h.stopAt _ _) (h.pure _)) ?_
    omega
  | succ left ih =>
    refine h.mono (n := a + (b + (s + (left + 1) * (a + b + s)))) (h.bind hcondition fun go =>
      either (h.bind hround fun flow => ?_) (h.pure _)) ?_
    · cases flow with
      | ret value => exact h.pure _
      | brk => exact h.pure _
      | next => exact h.bind hstep fun _ => ih
      | cont => exact h.bind hstep fun _ => ih
    · rw [add_mul (left + 1) 1, one_mul]
      omega

theorem limitedLoop (hle : a + b + s ≤ budget c L n) :
    P d ((L + 1) * budget c L n) (Eval.withRuntime fun rt =>
      Sx.loop span message condition body step rt.limits.maxLoopIterations) :=
  h.mono (h.limited fun left => h.rounds span message hcondition hround hstep left)
    (Nat.mul_le_mul_left _ hle)

theorem limitedInLoop (hle : a + b + s ≤ budget c L n) :
    P d ((L + 1) * budget c L n) (Eval.withRuntime fun rt =>
      inLoop (Sx.loop span message condition body step rt.limits.maxLoopIterations)) := by
  have hlimited := h.limited fun left => h.loop (h.rounds span message hcondition hround hstep left)
  exact h.mono hlimited (Nat.mul_le_mul_left _ hle)

end Loops

section Calls

variable (h : Steps below sys execute L P) {args : Eval W (List Value)}

include h

theorem callBuiltin (span : Span) (target name : Text) (hargs : P d n args) :
    P d n (callBuiltin sys execute span target name args) :=
  h.bind_quiet hargs fun _ => h.withRuntime fun _ => h.builtin _ _ _ _ _

theorem enterFunction {e : δ} (he : below d e) {fn : Function} (hbody : P e n (runBody fn))
    (span : Span) (args : List Value) : P d n (enterFunction runBody span fn args) := by
  refine h.bind_quiet (h.call he (h.inScope span ?_)) fun flow => ?_
  · exact h.quiet_bind (h.bindParams _ _ _) fun _ => hbody
  · cases flow <;> exact h.pure _

variable (hbody : ∀ fn ∈ program.functions, ∀ e, below d e → P e c (runBody fn))

include hbody

theorem callFunction (span : Span) (name : Text) (argCount : ℕ) (hargs : P d n args) :
    P d (n + c) (callFunction program execute runBody span name argCount args) := by
  rw [Sx.callFunction]
  split
  · exact h.stopAt _ _
  · next fn hfn =>
    refine either (h.stopAt _ _) (h.allowed fun e he => ?_)
    exact h.bind hargs fun values => h.withRuntime fun rt => either (h.pure _)
      (h.enterFunction he (hbody fn (List.mem_of_find?_eq_some hfn) e he) span values)

theorem evalCall (span : Span) (target : Target) (argCount : ℕ) (hargs : P d n args) :
    P d (n + c) (evalCall sys program execute runBody span target argCount args) := by
  cases target
  · exact h.mono (h.callBuiltin span _ _ hargs) (Nat.le_add_right _ _)
  · exact h.callFunction hbody span _ argCount hargs

end Calls

mutual

theorem evalExpr (h : Steps below sys execute L P)
    (hbody : ∀ fn ∈ program.functions, ∀ e, below d e → P e c (runBody fn)) :
    ∀ e : Expr, P d (budget c L e.size) (evalExpr sys program execute runBody e)
  | .string _ _ => h.pure _
  | .bool _ _ => h.pure _
  | .i32 _ _ => h.pure _
  | .name span text => h.readName span (tokenText text)
  | .call span target args => by
    rw [Sx.evalExpr, Expr.size]
    refine h.mono (h.evalCall hbody span target args.length (evalArgs h hbody args)) ?_
    exact Nat.le_trans (Nat.add_le_add_left le_budget_one _) budget_add
  | .unary span op operand => by
    rw [Sx.evalExpr, Expr.size]
    refine h.mono (h.bind_quiet (evalExpr h hbody operand) fun _ => h.evalUnary _ _ _) ?_
    exact budget_mono (Nat.le_refl _) (Nat.le_succ _)
  | .binary span op left right => by
    rw [Sx.evalExpr, Expr.size]
    refine h.mono (h.bind (evalExpr h hbody left) fun value => either
      (h.evalLogical span op value (evalExpr h hbody right))
      (h.bind_quiet (evalExpr h hbody right) fun _ => h.evalBinary _ _ _ _)) ?_
    exact Nat.le_trans budget_add (budget_mono (Nat.le_refl _) (Nat.le_succ _))
  | .list _ items => by
    rw [Sx.evalExpr, Expr.size]
    refine h.mono (h.quiet_bind (h.script (by simp)) fun handle =>
      h.bind_quiet (evalItems h hbody handle items) fun _ => h.pure _) ?_
    exact budget_mono (Nat.le_refl _) (Nat.le_succ _)
  | .map _ items => by
    rw [Sx.evalExpr, Expr.size]
    refine h.mono (h.quiet_bind (h.script (by simp)) fun handle =>
      h.bind_quiet (evalEntries h hbody handle 0 items) fun _ => h.pure _) ?_
    exact budget_mono (Nat.le_refl _) (Nat.le_succ _)

theorem evalArgs (h : Steps below sys execute L P)
    (hbody : ∀ fn ∈ program.functions, ∀ e, below d e → P e c (runBody fn)) :
    ∀ args : Args, P d (budget c L args.size) (evalArgs sys program execute runBody args)
  | .nil => h.pure _
  | .cons arg rest => by
    rw [Sx.evalArgs, Args.size]
    exact h.mono (h.bind (evalExpr h hbody arg) fun _ => h.bind_quiet (evalArgs h hbody rest)
      fun _ => h.pure _) budget_add

theorem evalItems (h : Steps below sys execute L P)
    (hbody : ∀ fn ∈ program.functions, ∀ e, below d e → P e c (runBody fn)) (handle : ℕ) :
    ∀ items : Args, P d (budget c L items.size) (evalItems sys program execute runBody handle items)
  | .nil => h.pure _
  | .cons item rest => by
    rw [Sx.evalItems, Args.size]
    exact h.mono (h.bind (evalExpr h hbody item) fun value => h.quiet_bind
      (h.script (silent_addItem handle value)) fun _ => evalItems h hbody handle rest) budget_add

theorem evalEntries (h : Steps below sys execute L P)
    (hbody : ∀ fn ∈ program.functions, ∀ e, below d e → P e c (runBody fn)) (handle index : ℕ) :
    ∀ items : Entries, P d (budget c L items.size)
      (evalEntries sys program execute runBody handle index items)
  | .nil => h.pure _
  | .cons key item rest => by
    rw [Sx.evalEntries, Entries.size]
    exact h.mono (h.bind (evalExpr h hbody item) fun value => h.quiet_bind
      (h.script (silent_addEntry handle index key value)) fun _ =>
        evalEntries h hbody handle (index + 1) rest) budget_add

end

section Statements

variable (h : Steps below sys execute L P)
  (hbody : ∀ fn ∈ program.functions, ∀ e, below d e → P e c (runBody fn))

include h hbody

theorem evalCondition (e : Expr) :
    P d (budget c L e.size) (evalCondition sys program execute runBody e) :=
  h.bind_quiet (h.evalExpr hbody e) fun _ => h.toBool _ _

theorem runSimple (s : Simple) :
    P d (budget c L s.size) (runSimple sys program execute runBody s) := by
  cases s with
  | letStmt span name value =>
    exact h.mono (h.bind h.statement fun _ => h.bind_quiet (h.evalExpr hbody value) fun _ =>
      h.registerBinding _ _ _) budget_succ
  | assign span name value =>
    exact h.mono (h.bind h.statement fun _ => h.bind_quiet (h.evalExpr hbody value) fun _ =>
      h.assignBinding _ _ _) budget_succ
  | call span target args =>
    refine h.mono (h.bind h.statement fun _ => h.bind_quiet
      (h.evalCall hbody span target _ (h.evalArgs hbody args)) fun _ => h.pure _) ?_
    refine Nat.le_trans (Nat.add_le_add_left ?_ 1) budget_succ
    exact Nat.le_trans (Nat.add_le_add_left le_budget_one _) budget_add

theorem runOptional (s : Option Simple) :
    P d (budget c L (optionalSize Simple.size s)) (runOptional sys program execute runBody s) := by
  cases s with
  | none => exact h.pure _
  | some s => exact h.runSimple hbody s

theorem evalOptional (e : Option Expr) :
    P d (budget c L (optionalSize Expr.size e)) (evalOptional sys program execute runBody e) := by
  cases e with
  | none => exact h.pure _
  | some e => exact h.evalCondition hbody e

omit hbody in
theorem flow {span : Span} {message : String} {refused : Runtime → Prop} [DecidablePred refused]
    {b : Eval W Flow} (hb : P d (budget c L n) b) :
    P d (budget c L (n + 1)) (do
      record .statement
      Eval.withRuntime fun rt => if refused rt then Eval.stopAt span message else b) :=
  h.mono (h.bind h.statement fun _ => h.withRuntime fun _ => either (h.stopAt _ _) hb) budget_succ

end Statements

mutual

theorem runStmt (h : Steps below sys execute L P)
    (hbody : ∀ fn ∈ program.functions, ∀ e, below d e → P e c (runBody fn)) :
    ∀ s : Stmt, P d (budget c L s.size) (runStmt sys program execute runBody s)
  | .simple stmt => by
    rw [Sx.runStmt, Stmt.size]
    exact h.bind_quiet (h.runSimple hbody stmt) fun _ => h.pure _
  | .block _ body => by
    rw [Sx.runStmt, Stmt.size]
    exact h.mono (h.bind h.statement fun _ => h.inScope _ (runBlock h hbody body)) budget_succ
  | .ifThen _ condition body => by
    rw [Sx.runStmt, Stmt.size]
    refine h.mono (h.bind h.statement fun _ => h.bind (h.evalCondition hbody condition) fun go =>
      either (h.inScope _ (runBlock h hbody body)) (h.pure _)) ?_
    exact Nat.le_trans (Nat.add_le_add_left budget_add 1) budget_succ
  | .ifElse _ condition body other => by
    rw [Sx.runStmt, Stmt.size]
    have hthen : budget c L body.size ≤ budget c L (body.size + other.size) :=
      budget_mono (le_refl _) (Nat.le_add_right _ _)
    have helse : budget c L other.size ≤ budget c L (body.size + other.size) :=
      budget_mono (le_refl _) (Nat.le_add_left _ _)
    refine h.mono (h.bind h.statement fun _ => h.bind (h.evalCondition hbody condition) fun go =>
      either (h.inScope _ (h.mono (runBlock h hbody body) hthen))
        (h.inScope _ (h.mono (runBlock h hbody other) helse))) ?_
    exact le_trans (Nat.add_le_add_left budget_add 1) budget_succ
  | .whileLoop span condition body => by
    exact h.mono (h.bind h.statement fun _ => h.limitedInLoop _ _
      (h.evalCondition hbody condition)
      (h.inScope .none (runBlock h hbody body)) (s := 0) (h.pure ()) budget_add) budget_rounds
  | .forLoop span init condition step body => by
    refine h.mono (h.bind h.statement fun _ => h.inScope span (h.loop (h.bind
      (h.runOptional hbody init) fun _ => h.limitedLoop _ _ (h.evalOptional hbody condition)
        (h.inScope .none (runBlock h hbody body)) (h.runOptional hbody step) budget_add_add))) ?_
    exact budget_for
  | .ret span none => by
    exact h.flow (h.pure _)
  | .ret span (some value) => by
    exact h.flow (h.bind_quiet (h.evalExpr hbody value) fun _ => h.pure _)
  | .brk span => by
    exact h.flow (h.pure _)
  | .cont span => by
    exact h.flow (h.pure _)

theorem runBlock (h : Steps below sys execute L P)
    (hbody : ∀ fn ∈ program.functions, ∀ e, below d e → P e c (runBody fn)) :
    ∀ b : Block, P d (budget c L b.size) (runBlock sys program execute runBody b)
  | .nil => h.pure _
  | .cons stmt rest => by
    rw [Sx.runBlock, Block.size]
    refine h.mono (h.bind (runStmt h hbody stmt) fun flow => ?_) budget_add
    split
    · exact runBlock h hbody rest
    · exact h.pure _

end

theorem runProgram (h : Steps below sys execute L P) (htop : P d n (Eval.withRuntime fun rt =>
      Sx.runBlock sys program execute
        (runBodyAt sys program execute (rt.limits.maxCallDepth - rt.callStack.length))
        program.top)) : P d n (runProgram sys program execute) := by
  refine h.quiet_bind (h.change fun rt => .of_shapes rfl rfl rfl rfl rfl rfl) fun _ => ?_
  split
  · exact h.stopAt _ _
  refine h.bind_quiet htop fun flow => ?_
  split
  · exact h.stopAt _ _
  · exact h.pure _

end Steps

/-- The depth and the number of the statements are of no account. -/
structure Everywhere (sys : System W) (execute : Bool) (P : ∀ {α : Type}, Eval W α → Prop) : Prop
    extends Steps (fun _ _ : Unit => True) sys execute 0 (fun _ _ => @P) where
  depth : P (Comp.stop .depth : Eval W Flow)

namespace Everywhere

variable {sys : System W} {program : Program} {execute : Bool}
  {P : ∀ {α : Type}, Eval W α → Prop} (h : Everywhere sys execute P)

include h

theorem runBodyAt (depth : ℕ) (fn : Function) : P (runBodyAt sys program execute depth fn) := by
  induction depth generalizing fn with
  | zero => exact h.depth
  | succ depth ih => exact h.runBlock (d := ()) (c := 0) (fun fn _ _ _ => ih fn) fn.body

theorem wholeRun : P (runProgram sys program execute) :=
  h.runProgram (d := ()) (n := 0) <| h.withRuntime (d := ()) (n := 0) fun _ =>
    h.runBlock (d := ()) (c := 0) (fun fn _ _ _ => h.runBodyAt _ fn) program.top

end Everywhere

section Host

variable {sys : System W} {execute : Bool} {R : Host W → Host W → Prop} {α β : Type}

theorem HostClosed.bind (h : HostClosed sys execute R) {m : Eval W α} {f : α → Eval W β}
    (hm : Comp.Does (InvImage R Machine.host) m)
    (hf : ∀ a, Comp.Does (InvImage R Machine.host) (f a)) :
    Comp.Does (InvImage R Machine.host) (m >>= f) :=
  Comp.Does.bind (R := InvImage R Machine.host) (fun hab hbc => h.trans hab hbc) hm hf

theorem does_within (before after : Runtime → Runtime) {m : Eval W α}
    (hm : Comp.Does (InvImage R Machine.host) m) :
    Comp.Does (InvImage R Machine.host) (Comp.within (onRuntime before) m (onRuntime after)) :=
  fun s => hm (onRuntime before s)

/-- Nothing else in a run touches the host. -/
theorem HostClosed.everywhere (h : HostClosed sys execute R)
    (hnote : ∀ event (s : Host W), (∀ op, event ≠ .operation op) →
      R s { s with log := event :: s.log }) :
    Everywhere sys execute fun m => Comp.Does (InvImage R Machine.host) m where
  pure _ m := h.refl m.host
  fail _ m := h.refl m.host
  depth m := h.refl m.host
  bind := h.bind
  mono hm _ := hm
  withRuntime hf m := hf m.runtime m
  limited hf m := hf _ m
  allowed hm := Comp.Does.view fun m =>
    Comp.Does.ite (fun m => h.refl m.host) (hm () trivial) m
  statement m := hnote _ m.host nofun
  quotient _ _ _ := h.bind (fun m => hnote _ m.host nofun) fun _ =>
    Comp.Does.ite (fun m => h.refl m.host) fun m => h.refl m.host
  builtin _ _ _ _ _ m := h.builtin _ _ _ _ _ m.host
  script hs m := h.script (.inr hs) m.host
  change _ m := h.refl m.host
  scope hm := does_within _ _ hm
  loop hm := does_within _ _ hm
  call _ hm := does_within _ _ (Comp.Does.onStop (R := InvImage R Machine.host)
    (fun hab hbc => h.trans hab hbc) hm fun m => h.refl m.host)

end Host

end Sodex.Sx
