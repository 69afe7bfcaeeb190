import Sodex.CInt
import Sodex.Computations
import Sodex.SxProgram

/-!
# What sx programs work on

The values of a program, the tables of handles behind them, and the operations of the system that
the builtins ask for. A log keeps what a run does.
-/
namespace Sodex.Sx

open CText Computations

def SX_MAX_PIPE_HANDLES : ℕ := 8
def SX_MAX_SOCKET_HANDLES : ℕ := 8
def SX_MAX_LIST_HANDLES : ℕ := 4
def SX_MAX_LIST_ITEMS : ℕ := 16
def SX_MAX_MAP_HANDLES : ℕ := 4
def SX_MAX_MAP_ITEMS : ℕ := 16
def SX_MAX_RESULT_HANDLES : ℕ := 8
def SX_DIAG_MESSAGE_MAX : ℕ := 128
def SX_DUMMY_PID : ℤ := 1
def SX_DUMMY_FD_BASE : ℤ := 1000

inductive Value where
  | unit
  | string (text : Text)
  | bool (value : Bool)
  | i32 (value : ℤ)
  | bytes (data : Text)
  | list (handle : ℕ)
  | map (handle : ℕ)
  | result (handle : ℕ)
  deriving DecidableEq, Repr

def formatI32 (value : ℤ) : Text :=
  if value < 0 then 45 :: ascii (toString value.natAbs) else ascii (toString value.natAbs)

/-- `sx_set_string_value`: a text that does not fit is dropped. -/
def Value.ofText (text : Text) : Value := .string (if text.length < SX_TEXT_MAX then text else [])

/-- The string in a buffer of `SX_TEXT_MAX` bytes that has been read to. -/
def Value.ofBuffer (data : Text) : Value := .string (cstr (data.take (SX_TEXT_MAX - 1)))

def Value.ofBytes (data : Text) : Value := .bytes (data.take (SX_TEXT_MAX - 1))

def Value.text : Value → Text
  | unit => []
  | string text => text
  | bool value => if value then ascii "true" else ascii "false"
  | i32 value => formatI32 value
  | bytes data => cstr data
  | list handle => ascii "<list#" ++ formatI32 handle
  | map handle => ascii "<map#" ++ formatI32 handle
  | result handle => ascii "<result#" ++ formatI32 handle

/-- Two values have the same `sx_value_kind`. -/
def Value.sameKind : Value → Value → Bool
  | unit, unit => true
  | string _, string _ => true
  | bool _, bool _ => true
  | i32 _, i32 _ => true
  | bytes _, bytes _ => true
  | list _, list _ => true
  | map _, map _ => true
  | result _, result _ => true
  | _, _ => false

/-- `sx_set_dummy_value_for_type`. -/
def dummyValue (typeName : Text) : Value :=
  if typeName = ascii "str" then .string []
  else if typeName = ascii "bool" then .bool false
  else if typeName = ascii "i32" then .i32 0
  else .unit

structure Pipe where
  readFd : ℤ
  writeFd : ℤ
  deriving DecidableEq, Repr

structure Outcome where
  ok : Bool
  value : Value
  error : Text
  deriving DecidableEq, Repr

/-- The tables of handles; a slot that is not active is empty. A map has `SX_MAX_MAP_ITEMS`
entries, of which some are used. -/
structure Handles where
  pipes : List (Option Pipe)
  sockets : List (Option ℤ)
  lists : List (Option (List Value))
  maps : List (Option (List (Option (Text × Value))))
  results : List (Option Outcome)
  deriving DecidableEq, Repr

def Handles.init : Handles where
  pipes := List.replicate SX_MAX_PIPE_HANDLES none
  sockets := List.replicate SX_MAX_SOCKET_HANDLES none
  lists := List.replicate SX_MAX_LIST_HANDLES none
  maps := List.replicate SX_MAX_MAP_HANDLES none
  results := List.replicate SX_MAX_RESULT_HANDLES none

/-- The first slot that is not active. -/
def freeSlot {α : Type} (table : List (Option α)) : Option ℕ := table.findIdx? (·.isNone)

def slot {α : Type} (table : List (Option α)) (handle : ℤ) : Option α :=
  if handle < 0 then none else (table[handle.toNat]?).join

structure Diagnostic where
  span : Span
  message : Text
  deriving DecidableEq, Repr

/-- What ends a run early: a diagnostic, or the end of the process. -/
inductive Halt where
  | diag (diagnostic : Diagnostic)
  | exit (code : ℤ)
  deriving DecidableEq, Repr

/-- What is asked of the system. -/
inductive Op where
  | output (text : Text)
  | capture (fd : ℤ)
  | readLine (fd : ℤ)
  | write (fd : ℤ) (data : Text)
  | close (fd : ℤ)
  | closeSocket (fd : ℤ)
  | pathExists (path : Text)
  | readFile (path : Text)
  | listDir (path : Text)
  | writeFile (path data : Text) (append : Bool)
  | mkdir (path : Text)
  | unlink (path : Text)
  | rmdir (path : Text)
  | rename (path target : Text)
  | chdir (path : Text)
  | currentDir
  | isDir (path : Text)
  | nowTicks
  | sleep (ticks : ℤ)
  | resolve (host : Text)
  | socket
  | connect (fd : ℤ) (address : ℕ) (port : ℤ)
  | listen (fd : ℤ) (port : ℤ)
  | accept (fd : ℤ)
  | receive (fd : ℤ)
  | send (fd : ℤ) (data : Text)
  | poll (fd : ℤ) (timeout : ℤ)
  | spawn (argv : List Text) (stdin stdout stderr : ℤ) (hidden : List ℤ)
  | pipe
  | captureChild (fd pid : ℤ)
  | wait (pid : ℤ)
  | fork
  | exit (code : ℤ)
  deriving DecidableEq, Repr

/-- What the system answers; `none` and `false` stand for a failure. -/
@[reducible] def Op.Answer : Op → Type
  | output _ | write _ _ | close _ | closeSocket _ | pathExists _ | writeFile _ _ _ => Bool
  | mkdir _ | unlink _ | rmdir _ | rename _ _ | chdir _ | isDir _ => Bool
  | connect _ _ _ | listen _ _ | send _ _ => Bool
  | capture _ | readLine _ | readFile _ | listDir _ | currentDir => Option Text
  | receive _ | captureChild _ _ => Option Text
  | nowTicks | poll _ _ | fork => ℤ
  | resolve _ => Option ℕ
  | socket | accept _ | spawn _ _ _ _ _ | wait _ => Option ℤ
  | pipe => Option (ℤ × ℤ)
  | sleep _ | exit _ => Unit

/-- The system: its answers and what they do to the world, and the variables of the process. -/
structure System (W : Type) where
  answer : (op : Op) → W → op.Answer × W
  getenv : Text → Option Text

/-- What a run does: it begins a statement, asks the system, or divides. -/
inductive Event where
  | statement
  | operation (op : Op)
  | division (left right : ℤ)
  deriving DecidableEq, Repr

/-- The tables of handles with the world around them. The latest event is the first. -/
structure Host (W : Type) where
  handles : Handles
  world : W
  log : List Event

abbrev Builtin (W : Type) := Comp (Host W) Halt

namespace Builtin

variable {W : Type} {α : Type}

def ask (sys : System W) (op : Op) : Builtin W op.Answer := fun h =>
  (.ok (sys.answer op h.world).1,
    { h with world := (sys.answer op h.world).2, log := .operation op :: h.log })

def withHandles (f : Handles → Builtin W α) : Builtin W α := Comp.view fun h => f h.handles

def setHandles (f : Handles → Handles) : Builtin W Unit :=
  Comp.change fun h => { h with handles := f h.handles }

end Builtin

/-- What a builtin does, step by step. -/
inductive Script (α : Type) where
  | done (a : α)
  | fail (diag : Diagnostic)
  | exit (code : ℤ)
  | look (next : Handles → Script α)
  | change (f : Handles → Handles) (next : Script α)
  | question (op : Op) (next : op.Answer → Script α)

namespace Script

variable {W : Type} {α β : Type}

def andThen (f : α → Script β) : Script α → Script β
  | done a => f a
  | fail diag => fail diag
  | exit code => exit code
  | look next => look fun h => andThen f (next h)
  | change g next => change g (andThen f next)
  | question op next => question op fun a => andThen f (next a)

instance : Monad Script where
  pure := done
  bind m f := m.andThen f

/-- A script at work. -/
def run (sys : System W) : Script α → Builtin W α
  | done a => pure a
  | fail diag => Comp.stop (.diag diag)
  | exit code => Comp.stop (.exit code)
  | look next => Builtin.withHandles fun h => run sys (next h)
  | change f next => do
    Builtin.setHandles f
    run sys next
  | question op next => do
    let a ← Builtin.ask sys op
    run sys (next a)

/-- A diagnostic at a place of the source. -/
def failAt (span : Span) (message : String) : Script α := fail ⟨span, ascii message⟩

def ask (op : Op) : Script op.Answer := question op done

/-- In a check `placeholder` is taken for what `m` would give. -/
def guarded (execute : Bool) (placeholder : α) (m : Script α) : Script α :=
  if execute then m else pure placeholder

def withHandles (f : Handles → Script α) : Script α := look f

def setHandles (f : Handles → Handles) : Script Unit := change f (done ())

/-- The builtin fails without a result. -/
def orFail (span : Span) (message : String) : Option α → Script α
  | some a => pure a
  | none => failAt span message

/-- The builtin fails with a refusal. -/
def check (span : Span) (message : String) (ok : Bool) : Script Unit :=
  if ok then pure () else failAt span message

end Script

end Sodex.Sx
