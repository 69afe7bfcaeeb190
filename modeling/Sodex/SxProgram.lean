import Sodex.CText

/-!
# Programs of the sx language

The program that the pools of a parsed program stand for. Names are those of the source text; the
fields they are copied to are shorter.
-/
namespace Sodex.Sx

open CText

abbrev Text := List UInt8

def SX_NAME_MAX : ℕ := 32
def SX_TEXT_MAX : ℕ := 256

structure Span where
  offset : ℕ
  length : ℕ
  line : ℕ
  column : ℕ
  deriving DecidableEq, Repr

/-- The span of what has no place in the source. -/
def Span.none : Span := ⟨0, 0, 0, 0⟩

inductive UnaryOp where
  | not
  | negate
  deriving DecidableEq, Repr

inductive BinaryOp where
  | add
  | sub
  | mul
  | div
  | mod
  | lt
  | le
  | gt
  | ge
  | eq
  | ne
  | and
  | or
  deriving DecidableEq, Repr

/-- What is called: a builtin of a namespace or a function of the program. -/
inductive Target where
  | member (target name : Text)
  | function (name : Text)
  deriving DecidableEq, Repr

mutual

inductive Expr where
  | string (span : Span) (text : Text)
  | name (span : Span) (text : Text)
  | bool (span : Span) (value : Bool)
  | i32 (span : Span) (value : ℤ)
  | call (span : Span) (target : Target) (args : Args)
  | unary (span : Span) (op : UnaryOp) (operand : Expr)
  | binary (span : Span) (op : BinaryOp) (left right : Expr)
  | list (span : Span) (items : Args)
  | map (span : Span) (items : Entries)

inductive Args where
  | nil
  | cons (arg : Expr) (rest : Args)

inductive Entries where
  | nil
  | cons (key : Text) (value : Expr) (rest : Entries)

end

def Expr.span : Expr → Span
  | string span _ => span
  | name span _ => span
  | bool span _ => span
  | i32 span _ => span
  | call span _ _ => span
  | unary span _ _ => span
  | binary span _ _ _ => span
  | list span _ => span
  | map span _ => span

def Args.length : Args → ℕ
  | nil => 0
  | cons _ rest => rest.length + 1

/-- The statements that may also stand in the head of a `for`. -/
inductive Simple where
  | letStmt (span : Span) (name : Text) (value : Expr)
  | assign (span : Span) (name : Text) (value : Expr)
  | call (span : Span) (target : Target) (args : Args)

mutual

inductive Stmt where
  | simple (stmt : Simple)
  | block (span : Span) (body : Block)
  | ifThen (span : Span) (condition : Expr) (body : Block)
  | ifElse (span : Span) (condition : Expr) (body other : Block)
  | whileLoop (span : Span) (condition : Expr) (body : Block)
  | forLoop (span : Span) (init : Option Simple) (condition : Option Expr) (step : Option Simple)
      (body : Block)
  | ret (span : Span) (value : Option Expr)
  | brk (span : Span)
  | cont (span : Span)

inductive Block where
  | nil
  | cons (stmt : Stmt) (rest : Block)

end

structure Function where
  span : Span
  name : Text
  returnType : Text
  params : List Text
  body : Block

structure Program where
  functions : List Function
  top : Block

/-- A name in a field of `SX_NAME_MAX` bytes. -/
def storedName (name : Text) : Text := name.take (SX_NAME_MAX - 1)

/-- The text of a token, in a field of `SX_TEXT_MAX` bytes. -/
def tokenText (text : Text) : Text := text.take (SX_TEXT_MAX - 1)

end Sodex.Sx
