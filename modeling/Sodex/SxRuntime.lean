import Sodex.SxBuiltins

/-!
# The sx runtime

`sx_run_program` and what it calls. The bodies of functions are run by a parameter, so that the
depth of the calls is all that the recursion needs; a loop counts its iterations.
-/
namespace Sodex.Sx

open CText Computations Script

def SX_MAX_BINDINGS : ℕ := 128
def SX_MAX_SCOPE_DEPTH : ℕ := 16
def SX_MAX_CALL_DEPTH : ℕ := 16

structure Binding where
  name : Text
  value : Value
  scopeDepth : ℕ
  deriving DecidableEq, Repr

structure Limits where
  maxBindings : ℕ
  maxScopeDepth : ℕ
  maxCallDepth : ℕ
  maxLoopIterations : ℕ
  deriving DecidableEq, Repr

def Limits.default : Limits := ⟨SX_MAX_BINDINGS, SX_MAX_SCOPE_DEPTH, SX_MAX_CALL_DEPTH, 1024⟩

/-- `struct sx_runtime` without the tables of handles; the latest binding and the running call are
the first of their lists. -/
structure Runtime where
  bindings : List Binding
  scopeDepth : ℕ
  callStack : List Text
  errorCallStack : List Text
  insideFunction : ℕ
  loopDepth : ℕ
  argv : List Text
  limits : Limits
  deriving DecidableEq, Repr

/-- `sx_runtime_init` and `sx_runtime_set_argv`. -/
def Runtime.init (argv : List Text) : Runtime where
  bindings := []
  scopeDepth := 0
  callStack := []
  errorCallStack := []
  insideFunction := 0
  loopDepth := 0
  argv := argv
  limits := .default

namespace Runtime

def findBinding (rt : Runtime) (name : Text) : Option ℕ := rt.bindings.findIdx? (·.name = name)

/-- `sx_find_binding_in_current_scope`. -/
def inCurrentScope (rt : Runtime) (name : Text) : Bool :=
  rt.bindings.any fun b => b.scopeDepth = rt.scopeDepth ∧ b.name = name

def leaveScope (rt : Runtime) : Runtime :=
  if rt.scopeDepth = 0 then rt
  else
    { rt with
      bindings := rt.bindings.dropWhile (·.scopeDepth = rt.scopeDepth)
      scopeDepth := rt.scopeDepth - 1 }

/-- `sx_call_stack_contains`. -/
def calls (rt : Runtime) (name : Text) : Bool := name ≠ [] && rt.callStack.contains name

def snapshotErrorStack (rt : Runtime) : Runtime :=
  if rt.callStack.length ≤ rt.errorCallStack.length then rt
  else { rt with errorCallStack := rt.callStack }

end Runtime

/-- The runtime with its tables of handles and the world. -/
structure Machine (W : Type) where
  runtime : Runtime
  host : Host W

/-- A run may also need more depth for its calls than it has been given, or be lost in a trap: the
kernel prints that there was a division error and does not return to the process. -/
inductive Stop where
  | halt (halt : Halt)
  | depth
  | trap
  deriving DecidableEq, Repr

/-- A part of a program at work. -/
abbrev Eval (W : Type) := Comp (Machine W) Stop

inductive Flow where
  | next
  | ret (value : Value)
  | brk
  | cont
  deriving DecidableEq, Repr

variable {W : Type} {α : Type}

namespace Eval

def onRuntime (f : Runtime → Runtime) (m : Machine W) : Machine W :=
  { m with runtime := f m.runtime }

def withRuntime (f : Runtime → Eval W α) : Eval W α := Comp.view fun m => f m.runtime

def setRuntime (f : Runtime → Runtime) : Eval W Unit := Comp.change (onRuntime f)

def record (event : Event) : Eval W Unit :=
  Comp.change fun m => { m with host := { m.host with log := event :: m.host.log } }

/-- A builtin leaves the runtime alone. -/
def ofBuiltin (b : Builtin W α) : Eval W α := fun m =>
  ((b m.host).1.mapError Stop.halt, { m with host := (b m.host).2 })

/-- A script that does not ask the system. -/
def ofScript (sys : System W) (script : Script α) : Eval W α := ofBuiltin (script.run sys)

/-- A diagnostic at a place of the source. -/
def stopAt (span : Span) (message : String) : Eval W α :=
  Comp.stop (.halt (.diag ⟨span, ascii message⟩))

end Eval

open Eval

/-- `sx_enter_scope`, `m` and `sx_leave_scope`. -/
def inScope (span : Span) (m : Eval W α) : Eval W α :=
  withRuntime fun rt =>
    if rt.limits.maxScopeDepth < rt.scopeDepth + 1 then stopAt span "scope depth limit exceeded"
    else
      Comp.within (onRuntime fun rt => { rt with scopeDepth := rt.scopeDepth + 1 }) m
        (onRuntime Runtime.leaveScope)

def inLoop (m : Eval W α) : Eval W α :=
  Comp.within (onRuntime fun rt => { rt with loopDepth := rt.loopDepth + 1 }) m
    (onRuntime fun rt => { rt with loopDepth := rt.loopDepth - 1 })

def registerBinding (span : Span) (name : Text) (value : Value) : Eval W Unit :=
  withRuntime fun rt =>
    if rt.inCurrentScope name then stopAt span "duplicate binding"
    else if rt.limits.maxBindings ≤ rt.bindings.length then stopAt span "binding table is full"
    else setRuntime fun rt =>
      { rt with bindings := ⟨storedName name, value, rt.scopeDepth⟩ :: rt.bindings }

/-- `sx_find_binding`. -/
def lookup (span : Span) (name : Text) : Eval W ℕ :=
  withRuntime fun rt =>
    match rt.findBinding name with
    | none => stopAt span "undefined name"
    | some index => pure index

/-- `sx_eval_atom` of a name. -/
def readName (span : Span) (name : Text) : Eval W Value := do
  let index ← lookup span name
  withRuntime fun rt => pure ((rt.bindings[index]?.map Binding.value).getD .unit)

def assignBinding (span : Span) (name : Text) (value : Value) : Eval W Unit := do
  let index ← lookup span name
  setRuntime fun rt =>
    { rt with bindings := rt.bindings.modify index fun b => { b with value := value } }

def toBool (span : Span) : Value → Eval W Bool
  | .bool b => pure b
  | _ => stopAt span "expected bool value"

def toI32 (span : Span) : Value → Eval W ℤ
  | .i32 n => pure n
  | _ => stopAt span "expected i32 value"

/-- `sx_eval_unary_expr` on the value of the operand. -/
def evalUnary (span : Span) (op : UnaryOp) (operand : Value) : Eval W Value :=
  match op with
  | .not => do
    let b ← toBool span operand
    pure (.bool !b)
  | .negate => do
    let n ← toI32 span operand
    pure (.i32 (CInt.toInt (-n)))

def INT_MIN : ℤ := -2147483648

/-- `idiv`, of which `value` is the quotient or the remainder: the processor traps when the quotient
does not fit. -/
def quotient (left right value : ℤ) : Eval W Value := do
  record (.division left right)
  if left = INT_MIN ∧ right = -1 then Comp.stop .trap else pure (.i32 value)

/-- The operators on two numbers. -/
def evalArithmetic (span : Span) (op : BinaryOp) (left right : ℤ) : Eval W Value :=
  match op with
  | .add => pure (.i32 (CInt.toInt (left + right)))
  | .sub => pure (.i32 (CInt.toInt (left - right)))
  | .mul => pure (.i32 (CInt.toInt (left * right)))
  | .div =>
    if right = 0 then stopAt span "division by zero" else quotient left right (left.tdiv right)
  | .mod =>
    if right = 0 then stopAt span "modulo by zero" else quotient left right (left.tmod right)
  | .lt => pure (.bool (left < right))
  | .le => pure (.bool (left ≤ right))
  | .gt => pure (.bool (right < left))
  | .ge => pure (.bool (right ≤ left))
  | _ => stopAt span "unsupported binary operator"

def evalEquality (span : Span) (negated : Bool) (left right : Value) : Eval W Value :=
  if ¬left.sameKind right ∧ left ≠ .unit ∧ right ≠ .unit then stopAt span "equality type mismatch"
  else pure (.bool (left.equals right != negated))

/-- `sx_eval_binary_expr` without `&&` and `||`, on the values of the operands. -/
def evalBinary (span : Span) (op : BinaryOp) (left right : Value) : Eval W Value :=
  match op with
  | .eq => evalEquality span false left right
  | .ne => evalEquality span true left right
  | op => do
    let left ← toI32 span left
    let right ← toI32 span right
    evalArithmetic span op left right

/-- `&&` and `||`: the left operand may decide. -/
def evalLogical (span : Span) (op : BinaryOp) (left : Value) (right : Eval W Value) :
    Eval W Value := do
  let b ← toBool span left
  if op = .and ∧ b = false then pure (.bool false)
  else if op = .or ∧ b = true then pure (.bool true)
  else do
    let right ← right
    let b ← toBool span right
    pure (.bool b)

section Calls

variable (sys : System W) (program : Program) (execute : Bool) (runBody : Function → Eval W Flow)

def Program.findFunction (program : Program) (name : Text) : Option Function :=
  program.functions.find? (storedName ·.name = name)

def callBuiltin (span : Span) (target name : Text) (args : Eval W (List Value)) :
    Eval W Value := do
  let args ← args
  withRuntime fun rt => ofBuiltin (runBuiltin sys execute span rt.argv target name args)

/-- The parameters of a function are bound. -/
def bindParams (span : Span) : List Text → List Value → Eval W Unit
  | name :: names, value :: values => do
    registerBinding span (storedName name) value
    bindParams span names values
  | _, _ => pure ()

/-- A function at work: `sx_call_user_function` from `call_depth++` on. -/
def enterFunction (span : Span) (fn : Function) (args : List Value) : Eval W Value :=
  let body : Eval W Flow :=
    Comp.onStop
      (inScope span do
        bindParams span fn.params args
        runBody fn)
      (onRuntime Runtime.snapshotErrorStack)
  let push (rt : Runtime) : Runtime :=
    { rt with
      callStack := storedName fn.name :: rt.callStack
      insideFunction := rt.insideFunction + 1 }
  let pop (rt : Runtime) : Runtime :=
    { rt with callStack := rt.callStack.tail, insideFunction := rt.insideFunction - 1 }
  do
    let flow ← Comp.within (onRuntime push) body (onRuntime pop)
    match flow with
    | .ret value => pure value
    | _ => pure .unit

/-- `sx_call_user_function`. In a check a function that is running already is not called. -/
def callFunction (span : Span) (name : Text) (argCount : ℕ) (args : Eval W (List Value)) :
    Eval W Value :=
  match program.findFunction (storedName name) with
  | none => stopAt span "unknown function"
  | some fn =>
    if argCount ≠ fn.params.length then stopAt span "function argument count mismatch"
    else withRuntime fun rt =>
      if rt.limits.maxCallDepth ≤ rt.callStack.length then stopAt span "call depth limit exceeded"
      else do
        let args ← args
        withRuntime fun rt =>
          if ¬execute ∧ rt.calls (storedName fn.name) then pure (dummyValue (storedName fn.returnType))
          else enterFunction runBody span fn args

def evalCall (span : Span) (target : Target) (argCount : ℕ) (args : Eval W (List Value)) :
    Eval W Value :=
  match target with
  | .member target name => callBuiltin sys execute span (storedName target) (storedName name) args
  | .function name => callFunction program execute runBody span name argCount args

end Calls

/-- One more item of a list literal. -/
def addItem (handle : ℕ) (value : Value) : Script Unit :=
  withHandles fun h =>
    match slot h.lists handle with
    | none => pure ()
    | some items =>
      if SX_MAX_LIST_ITEMS ≤ items.length then failAt .none "list is full"
      else setList handle (items ++ [value])

/-- One more entry of a map literal. -/
def addEntry (handle index : ℕ) (key : Text) (value : Value) : Script Unit :=
  withHandles fun h =>
    match slot h.maps handle with
    | none => pure ()
    | some entries =>
      if SX_MAX_MAP_ITEMS ≤ index then failAt .none "map is full"
      else setMap handle (entries.set index (some (tokenText key, value)))

section Run

variable (sys : System W) (program : Program) (execute : Bool) (runBody : Function → Eval W Flow)

mutual

def evalExpr : Expr → Eval W Value
  | .string _ text => pure (.ofText (tokenText text))
  | .bool _ value => pure (.bool value)
  | .i32 _ value => pure (.i32 value)
  | .name span text => readName span (tokenText text)
  | .call span target args =>
    evalCall sys program execute runBody span target args.length (evalArgs args)
  | .unary span op operand => do
    let value ← evalExpr operand
    evalUnary span op value
  | .binary span op left right => do
    let value ← evalExpr left
    if op = .and ∨ op = .or then evalLogical span op value (evalExpr right)
    else do
      let other ← evalExpr right
      evalBinary span op value other
  | .list _ items => do
    let handle ← ofScript sys (allocList >>= orFail .none "list handle table is full")
    evalItems handle items
    pure (.list handle)
  | .map _ items => do
    let handle ← ofScript sys (allocMap >>= orFail .none "map handle table is full")
    evalEntries handle 0 items
    pure (.map handle)

/-- The arguments of a call. -/
def evalArgs : Args → Eval W (List Value)
  | .nil => pure []
  | .cons arg rest => do
    let value ← evalExpr arg
    let values ← evalArgs rest
    pure (value :: values)

/-- The loop of `sx_eval_list_expr`. -/
def evalItems (handle : ℕ) : Args → Eval W Unit
  | .nil => pure ()
  | .cons item rest => do
    let value ← evalExpr item
    ofScript sys (addItem handle value)
    evalItems handle rest

/-- The loop of `sx_eval_map_expr`. -/
def evalEntries (handle index : ℕ) : Entries → Eval W Unit
  | .nil => pure ()
  | .cons key item rest => do
    let value ← evalExpr item
    ofScript sys (addEntry handle index key value)
    evalEntries handle (index + 1) rest

end

def evalCondition (condition : Expr) : Eval W Bool := do
  let value ← evalExpr sys program execute runBody condition
  toBool condition.span value

/-- `sx_run_statement` of a statement that is not compound. -/
def runSimple : Simple → Eval W Unit
  | .letStmt span name value => do
    record .statement
    let value ← evalExpr sys program execute runBody value
    registerBinding span (storedName name) value
  | .assign span name value => do
    record .statement
    let value ← evalExpr sys program execute runBody value
    assignBinding span (storedName name) value
  | .call span target args => do
    record .statement
    let _ ← evalCall sys program execute runBody span target args.length
      (evalArgs sys program execute runBody args)

/-- A part of the head of a `for` that may be missing. -/
def runOptional : Option Simple → Eval W Unit
  | none => pure ()
  | some stmt => runSimple sys program execute runBody stmt

/-- The condition of a `for` may be missing. -/
def evalOptional : Option Expr → Eval W Bool
  | none => pure true
  | some condition => evalCondition sys program execute runBody condition

/-- The rounds of a loop of which `left` are still allowed. -/
def loop (span : Span) (message : String) (condition : Eval W Bool) (body : Eval W Flow)
    (step : Eval W Unit) : ℕ → Eval W Flow
  | 0 => do
    let go ← condition
    if go then stopAt span message else pure .next
  | left + 1 => do
    let go ← condition
    if go then
      let flow ← body
      match flow with
      | .ret value => pure (.ret value)
      | .brk => pure .next
      | _ => do
        step
        loop span message condition body step left
    else pure .next

mutual

def runStmt : Stmt → Eval W Flow
  | .simple stmt => do
    runSimple sys program execute runBody stmt
    pure .next
  | .block _ body => do
    record .statement
    inScope .none (runBlock body)
  | .ifThen _ condition body => do
    record .statement
    let go ← evalCondition sys program execute runBody condition
    if go then inScope .none (runBlock body) else pure .next
  | .ifElse _ condition body other => do
    record .statement
    let go ← evalCondition sys program execute runBody condition
    if go then inScope .none (runBlock body) else inScope .none (runBlock other)
  | .whileLoop span condition body => do
    record .statement
    withRuntime fun rt =>
      inLoop (loop span "while iteration limit exceeded"
        (evalCondition sys program execute runBody condition) (inScope .none (runBlock body))
        (pure ()) rt.limits.maxLoopIterations)
  | .forLoop span init condition step body => do
    record .statement
    inScope span (inLoop do
      runOptional sys program execute runBody init
      withRuntime fun rt =>
        loop span "for iteration limit exceeded"
          (evalOptional sys program execute runBody condition) (inScope .none (runBlock body))
          (runOptional sys program execute runBody step) rt.limits.maxLoopIterations)
  | .ret span value => do
    record .statement
    withRuntime fun rt =>
      if rt.insideFunction = 0 then stopAt span "return outside function"
      else
        match value with
        | none => pure (.ret .unit)
        | some value => do
          let value ← evalExpr sys program execute runBody value
          pure (.ret value)
  | .brk span => do
    record .statement
    withRuntime fun rt =>
      if rt.loopDepth = 0 then stopAt span "break outside loop" else pure .brk
  | .cont span => do
    record .statement
    withRuntime fun rt =>
      if rt.loopDepth = 0 then stopAt span "continue outside loop" else pure .cont

/-- `sx_run_block` without its scope. -/
def runBlock : Block → Eval W Flow
  | .nil => pure .next
  | .cons stmt rest => do
    let flow ← runStmt stmt
    match flow with
    | .next => runBlock rest
    | flow => pure flow

end

end Run

section Programs

variable (sys : System W) (program : Program) (execute : Bool)

/-- The bodies of functions, when `depth` more calls are allowed. -/
def runBodyAt : ℕ → Function → Eval W Flow
  | 0, _ => Comp.stop .depth
  | depth + 1, fn => runBlock sys program execute (runBodyAt depth) fn.body

/-- `sx_validate_functions`: the first function whose name an earlier one has. -/
def duplicateFunction : List Function → Option Function
  | [] => none
  | fn :: rest =>
    (rest.find? fun other => storedName other.name = storedName fn.name).or (duplicateFunction rest)

def runProgram : Eval W Unit := do
  setRuntime fun rt => { rt with errorCallStack := [] }
  match duplicateFunction program.functions with
  | some fn => stopAt fn.span "duplicate function"
  | none => do
    let flow ← withRuntime fun rt =>
      runBlock sys program execute
        (runBodyAt sys program execute (rt.limits.maxCallDepth - rt.callStack.length)) program.top
    match flow with
    | .ret _ => stopAt .none "return outside function"
    | _ => pure ()

def checkProgram : Eval W Unit := runProgram sys program false

def executeProgram : Eval W Unit := runProgram sys program true

end Programs

end Sodex.Sx
