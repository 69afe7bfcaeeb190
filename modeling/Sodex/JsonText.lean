import Sodex.Json

/-!
# JSON texts

The grammar of JSON as a type: a value carries the white space, the digits and the escapes it is
written with, so that every text of the grammar is the text of a value. A string stands for a list
of characters; its bytes are their UTF-8.
-/
namespace Sodex.Json

open CText

instance neZero_ten : NeZero 10 := ⟨by decide⟩

instance neZero_sixteen : NeZero 16 := ⟨by decide⟩

/-- A hexadecimal digit in one of its two cases. -/
structure Hex where
  digit : Fin 16
  upper : Bool
  deriving DecidableEq, Repr

def Hex.byte (h : Hex) : UInt8 :=
  if h.digit.val < 10 then (48 + h.digit.val).toUInt8
  else if h.upper then (55 + h.digit.val).toUInt8
  else (87 + h.digit.val).toUInt8

/-- The four digits after `\u`. -/
structure CodeUnit where
  a : Hex
  b : Hex
  c : Hex
  d : Hex
  deriving DecidableEq, Repr

def CodeUnit.value (u : CodeUnit) : ℕ :=
  4096 * u.a.digit + 256 * u.b.digit + 16 * u.c.digit + u.d.digit

def CodeUnit.bytes (u : CodeUnit) : List UInt8 := [u.a.byte, u.b.byte, u.c.byte, u.d.byte]

/-- The first half of a surrogate pair. -/
def CodeUnit.isHigh (u : CodeUnit) : Bool := 0xD800 ≤ u.value ∧ u.value ≤ 0xDBFF

/-- The second half of a surrogate pair. -/
def CodeUnit.isLow (u : CodeUnit) : Bool := 0xDC00 ≤ u.value ∧ u.value ≤ 0xDFFF

/-- The character of a code unit that is not part of a pair. Half a pair stands for no character;
the reader has a question mark for it. -/
def CodeUnit.char (u : CodeUnit) : Char :=
  if 0xD800 ≤ u.value ∧ u.value ≤ 0xDFFF then '?' else Char.ofNat u.value

/-- The character of a surrogate pair. -/
def pairChar (high low : CodeUnit) : Char :=
  Char.ofNat (0x10000 + (high.value - 0xD800) * 1024 + (low.value - 0xDC00))

inductive Escape where
  | quote
  | backslash
  | slash
  | backspace
  | formFeed
  | newline
  | carriageReturn
  | tab
  deriving DecidableEq, Repr

def Escape.letter : Escape → UInt8
  | .quote => 34
  | .backslash => 92
  | .slash => 47
  | .backspace => 98
  | .formFeed => 102
  | .newline => 110
  | .carriageReturn => 114
  | .tab => 116

def Escape.char : Escape → Char
  | .quote => '"'
  | .backslash => '\\'
  | .slash => '/'
  | .backspace => Char.ofNat 8
  | .formFeed => Char.ofNat 12
  | .newline => Char.ofNat 10
  | .carriageReturn => Char.ofNat 13
  | .tab => Char.ofNat 9

/-- A character that may stand in a string as it is. -/
def isPlain (c : Char) : Bool := 32 ≤ c.toNat ∧ c.toNat ≠ 34 ∧ c.toNat ≠ 92

inductive Item where
  | plain (c : Char) (hc : isPlain c = true)
  | escape (e : Escape)
  | unit (u : CodeUnit)
  deriving DecidableEq, Repr

def Item.text : Item → List UInt8
  | .plain c _ => String.utf8EncodeChar c
  | .escape e => [92, e.letter]
  | .unit u => 92 :: 117 :: u.bytes

/-- The text between the quotes. -/
def itemsText (s : List Item) : List UInt8 := s.flatMap Item.text

/-- The characters that a string stands for. -/
def chars : List Item → List Char
  | [] => []
  | .plain c _ :: s => c :: chars s
  | .escape e :: s => e.char :: chars s
  | .unit u :: .unit v :: s =>
    if u.isHigh && v.isLow then pairChar u v :: chars s else u.char :: chars (.unit v :: s)
  | .unit u :: s => u.char :: chars s

/-- The bytes of a string. -/
def decoded (s : List Item) : List UInt8 := (chars s).flatMap String.utf8EncodeChar

def Item.isEscape : Item → Bool
  | .plain _ _ => false
  | _ => true

inductive Literal where
  | true
  | false
  | null
  deriving DecidableEq, Repr

def Literal.text : Literal → List UInt8
  | .true => ascii "true"
  | .false => ascii "false"
  | .null => ascii "null"

def Literal.kind : Literal → Kind
  | .null => .null
  | _ => .bool

def digitByte (d : Fin 10) : UInt8 := (48 + d.val).toUInt8

structure Digits where
  first : Fin 10
  rest : List (Fin 10)
  deriving DecidableEq, Repr

def Digits.text (d : Digits) : List UInt8 := (d.first :: d.rest).map digitByte

/-- The digits before the point, without leading zeros. -/
inductive IntPart where
  | zero
  | digits (first : Fin 10) (hfirst : first ≠ 0) (rest : List (Fin 10))
  deriving DecidableEq, Repr

def IntPart.text : IntPart → List UInt8
  | .zero => [48]
  | .digits first _ rest => (first :: rest).map digitByte

structure Exponent where
  upper : Bool
  /-- Whether there is a sign, and whether it is a minus. -/
  sign : Option Bool
  digits : Digits
  deriving DecidableEq, Repr

def Exponent.text (e : Exponent) : List UInt8 :=
  (if e.upper then 69 else 101) ::
    ((match e.sign with | none => [] | some true => [45] | some false => [43]) ++ e.digits.text)

structure Number where
  minus : Bool
  int : IntPart
  fraction : Option Digits
  exponent : Option Exponent
  deriving DecidableEq, Repr

def Number.text (n : Number) : List UInt8 :=
  (if n.minus then [45] else []) ++ n.int.text ++
    (match n.fraction with | none => [] | some d => 46 :: d.text) ++
    (match n.exponent with | none => [] | some e => e.text)

/-- White space. -/
abbrev Ws := { w : List UInt8 // ∀ c ∈ w, c = 9 ∨ c = 13 ∨ c = 10 ∨ c = 32 }

theorem ws_nil : ∀ c ∈ ([] : List UInt8), c = 9 ∨ c = 13 ∨ c = 10 ∨ c = 32 := by simp

def noWs : Ws := ⟨[], ws_nil⟩

mutual

inductive Value where
  | literal (l : Literal)
  | number (n : Number)
  | string (s : List Item)
  | array (w : Ws) (elems : Elems)
  | object (w : Ws) (members : Members)

/-- The elements of an array, each between white space. -/
inductive Elems where
  | nil
  | cons (before : Ws) (v : Value) (after : Ws) (rest : Elems)

/-- The members of an object: a key and a value, each between white space. -/
inductive Members where
  | nil
  | cons (before : Ws) (key : List Item) (afterKey beforeValue : Ws) (v : Value) (after : Ws)
      (rest : Members)

end

def quoted (s : List Item) : List UInt8 := 34 :: (itemsText s ++ [34])

/-- The comma before every entry but the first. -/
def separator (first : Bool) : List UInt8 := if first then [] else [44]

mutual

def Value.text : Value → List UInt8
  | .literal l => l.text
  | .number n => n.text
  | .string s => quoted s
  | .array w elems => 91 :: (w.val ++ elems.text true ++ [93])
  | .object w members => 123 :: (w.val ++ members.text true ++ [125])

def Elems.text (first : Bool) : Elems → List UInt8
  | .nil => []
  | .cons before v after rest =>
    separator first ++ before.val ++ v.text ++ after.val ++ rest.text false

def Members.text (first : Bool) : Members → List UInt8
  | .nil => []
  | .cons before key afterKey beforeValue v after rest =>
    separator first ++ before.val ++ quoted key ++ afterKey.val ++ 58 :: (beforeValue.val ++
      v.text ++ after.val ++ rest.text false)

end

def Elems.length : Elems → ℕ
  | .nil => 0
  | .cons _ _ _ rest => rest.length + 1

def Members.length : Members → ℕ
  | .nil => 0
  | .cons _ _ _ _ _ _ rest => rest.length + 1

mutual

/-- The values and keys in a value. -/
def Value.count : Value → ℕ
  | .literal _ => 1
  | .number _ => 1
  | .string _ => 1
  | .array _ elems => elems.count + 1
  | .object _ members => members.count + 1

def Elems.count : Elems → ℕ
  | .nil => 0
  | .cons _ v _ rest => v.count + rest.count

def Members.count : Members → ℕ
  | .nil => 0
  | .cons _ _ _ _ v _ rest => v.count + 1 + rest.count

end

structure Document where
  before : Ws
  value : Value
  after : Ws

def Document.text (d : Document) : List UInt8 := d.before.val ++ d.value.text ++ d.after.val

end Sodex.Json
