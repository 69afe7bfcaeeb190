import Mathlib.Logic.Function.Iterate
import Sodex.CFormat

/-!
# The JSON tokenizer of `json.c`

`json_parse` makes an array of tokens that refer to the text by offsets; an object that is
still open has no end yet. The accessors work on the tokens.
-/
namespace Sodex.Json

open CInt CText CFormat

/-- `enum json_type`. -/
inductive Kind where
  | none
  | object
  | array
  | string
  | number
  | bool
  | null
  deriving DecidableEq, Repr

/-- `struct json_token`; `stop` is `none` for -1, as is `parent`. -/
structure Token where
  kind : Kind
  start : ℕ
  stop : Option ℕ
  size : ℕ
  parent : Option ℕ
  deriving DecidableEq, Repr

inductive Err where
  | nomem
  | invalid
  | truncated
  deriving DecidableEq, Repr

/-- `struct json_parser` with the tokens made so far. -/
structure Parser where
  pos : ℕ
  tokens : List Token
  toksuper : Option ℕ
  deriving DecidableEq, Repr

def Parser.init : Parser := ⟨0, [], none⟩

def isHexDigit (c : UInt8) : Bool :=
  (48 ≤ c ∧ c ≤ 57) ∨ (97 ≤ c ∧ c ≤ 102) ∨ (65 ≤ c ∧ c ≤ 70)

/-- The characters that may follow a backslash, `u` apart. -/
def isSimpleEscape (c : UInt8) : Bool := c ∈ ascii "\"\\/bfnrt"

/-- Where the loop of `parse_string` stands. -/
inductive StringMode where
  | plain
  | escaped
  | hex (left : ℕ)
  deriving DecidableEq, Repr

/-- The loop of `parse_string`: the position of the closing quote. -/
def scanString : StringMode → List UInt8 → ℕ → Except Err ℕ
  | _, [], _ => .error .truncated
  | .plain, c :: rest, pos =>
    if c = 92 then scanString .escaped rest (pos + 1)
    else if c = 34 then .ok pos
    else scanString .plain rest (pos + 1)
  | .escaped, c :: rest, pos =>
    if isSimpleEscape c then scanString .plain rest (pos + 1)
    else if c = 117 then scanString (.hex 3) rest (pos + 1)
    else .error .invalid
  | .hex left, c :: rest, pos =>
    if isHexDigit c then
      scanString (match left with | 0 => .plain | left + 1 => .hex left) rest (pos + 1)
    else .error .invalid

/-- `alloc_token`, with the token filled in. -/
def Parser.alloc (numTokens : ℕ) (t : Token) (p : Parser) : Except Err Parser :=
  if numTokens ≤ p.tokens.length then .error .nomem
  else .ok { p with tokens := p.tokens ++ [t] }

/-- `tokens[parser->toksuper].size++`. -/
def Parser.countChild (p : Parser) : Parser :=
  match p.toksuper with
  | none => p
  | some i => { p with tokens := p.tokens.modify i fun t => { t with size := t.size + 1 } }

def parseString (js : List UInt8) (numTokens : ℕ) (p : Parser) : Except Err Parser :=
  match scanString .plain (js.drop (p.pos + 1)) (p.pos + 1) with
  | .error e => .error e
  | .ok close =>
    ({ p with pos := close }).alloc numTokens ⟨.string, p.pos + 1, some close, 0, p.toksuper⟩

def endsPrimitive (c : UInt8) : Bool := c ∈ ascii "\t\r\n ,]\x7d:"

/-- The loop of `parse_primitive`: the position after the primitive. -/
def scanPrimitive : List UInt8 → ℕ → Except Err ℕ
  | [], pos => .ok pos
  | c :: rest, pos =>
    if endsPrimitive c then .ok pos
    else if c < 32 ∨ 127 ≤ c then .error .invalid
    else scanPrimitive rest (pos + 1)

def primitiveKind (c : UInt8) : Option Kind :=
  if c = 116 ∨ c = 102 then some .bool
  else if c = 110 then some .null
  else if c = 45 ∨ (48 ≤ c ∧ c ≤ 57) then some .number
  else none

def parsePrimitive (js : List UInt8) (numTokens : ℕ) (p : Parser) (c : UInt8) :
    Except Err Parser :=
  match primitiveKind c with
  | none => .error .invalid
  | some kind =>
    match scanPrimitive (js.drop p.pos) p.pos with
    | .error e => .error e
    | .ok stop =>
      ({ p with pos := stop - 1 }).alloc numTokens ⟨kind, p.pos, some stop, 0, p.toksuper⟩

/-- The last token that `want` accepts and that has no end yet. -/
def lastOpen (want : Kind → Bool) (tokens : List Token) : Option ℕ :=
  (List.range tokens.length).reverse.find? fun i =>
    (tokens[i]?).any fun t => want t.kind && t.stop.isNone

def isContainer (kind : Kind) : Bool := kind = .object ∨ kind = .array

def openContainer (numTokens : ℕ) (kind : Kind) (p : Parser) : Except Err Parser :=
  -- the size of the parent grows after the new token is allocated
  match p.alloc numTokens ⟨kind, p.pos, none, 0, p.toksuper⟩ with
  | .error e => .error e
  | .ok p' => .ok { p'.countChild with toksuper := some p.tokens.length }

/-- A closing bracket. -/
def closeContainer (kind : Kind) (p : Parser) : Except Err Parser :=
  match lastOpen (· = kind) p.tokens with
  | none => .error .invalid
  | some i => .ok { p with
      tokens := p.tokens.modify i fun t => { t with stop := some (p.pos + 1) }
      toksuper := (p.tokens[i]?).bind Token.parent }

/-- One round of the loop of `json_parse`, at the character `c`. -/
def parseChar (js : List UInt8) (numTokens : ℕ) (p : Parser) (c : UInt8) : Except Err Parser :=
  if c = 123 then openContainer numTokens .object p
  else if c = 91 then openContainer numTokens .array p
  else if c = 125 then closeContainer .object p
  else if c = 93 then closeContainer .array p
  else if c = 34 then (parseString js numTokens p).map Parser.countChild
  else if c = 9 ∨ c = 13 ∨ c = 10 ∨ c = 32 then .ok p
  else if c = 58 then
    -- `toknext - 1` is -1 when there is no token yet
    .ok { p with toksuper := if p.tokens = [] then none else some (p.tokens.length - 1) }
  else if c = 44 then
    .ok { p with toksuper := (lastOpen isContainer p.tokens).or p.toksuper }
  else (parsePrimitive js numTokens p c).map Parser.countChild

/-- The loop of `json_parse`; each round moves on by one character at least. -/
def parseLoop (js : List UInt8) (numTokens : ℕ) : ℕ → Parser → Except Err Parser
  | 0, p => .ok p
  | fuel + 1, p =>
    match js[p.pos]? with
    | none => .ok p
    | some c =>
      match parseChar js numTokens p c with
      | .error e => .error e
      | .ok p => parseLoop js numTokens fuel { p with pos := p.pos + 1 }

/-- `json_parse` of a whole text. -/
def parse (js : List UInt8) (numTokens : ℕ) : Except Err (List Token) :=
  if numTokens = 0 then .error .nomem
  else match parseLoop js numTokens js.length Parser.init with
  | .error e => .error e
  | .ok p => if (lastOpen isContainer p.tokens).isSome then .error .truncated else .ok p.tokens

def Token.text (js : List UInt8) (t : Token) : List UInt8 :=
  (js.drop t.start).take (t.stop.getD t.start - t.start)

def tokenEq (js : List UInt8) (t : Token) (s : List UInt8) : Bool := t.text js = s

/-- `skip_token`: a token is skipped with its children. The calls nest at most as deep as there
are tokens. -/
def skipToken (tokens : List Token) : ℕ → ℕ → ℕ
  | 0, _ => tokens.length
  | fuel + 1, idx =>
    match tokens[idx]? with
    | none => tokens.length
    | some t =>
      match t.kind with
      | .object => Nat.iterate (skipToken tokens fuel) (2 * t.size) (idx + 1)
      | .array => Nat.iterate (skipToken tokens fuel) t.size (idx + 1)
      | _ => idx + 1

/-- The loop of `json_find_key`. The value it returns may be one past the last token. -/
def findKeyLoop (js : List UInt8) (tokens : List Token) (key : List UInt8) : ℕ → ℕ → Option ℕ
  | 0, _ => none
  | pairs + 1, cur =>
    match tokens[cur]? with
    | none => none
    | some t =>
      if t.kind = .string ∧ tokenEq js t key then some (cur + 1)
      else findKeyLoop js tokens key pairs
        (Nat.iterate (skipToken tokens (tokens.length + 1)) 2 cur)

def findKey (js : List UInt8) (tokens : List Token) (obj : ℕ) (key : List UInt8) : Option ℕ :=
  match tokens[obj]? with
  | none => none
  | some t => if t.kind = .object then findKeyLoop js tokens key t.size (obj + 1) else none

/-- The loop of `json_array_get`. -/
def arrayGetLoop (tokens : List Token) : ℕ → ℕ → Option ℕ
  | 0, cur => some cur
  | index + 1, cur =>
    if tokens.length ≤ skipToken tokens (tokens.length + 1) cur then none
    else arrayGetLoop tokens index (skipToken tokens (tokens.length + 1) cur)

def arrayGet (tokens : List Token) (arr index : ℕ) : Option ℕ :=
  match tokens[arr]? with
  | none => none
  | some t =>
    if t.kind = .array ∧ index < t.size then
      arrayGetLoop tokens index (arr + 1)
    else none

def hexValue (c : UInt8) : Option ℕ :=
  if 48 ≤ c ∧ c ≤ 57 then some (c.toNat - 48)
  else if 97 ≤ c ∧ c ≤ 102 then some (c.toNat - 97 + 10)
  else if 65 ≤ c ∧ c ≤ 70 then some (c.toNat - 65 + 10)
  else none

/-- `json_parse_hex4` on the first four bytes. -/
def parseHex4 (src : List UInt8) : Option ℕ :=
  match src with
  | a :: b :: c :: d :: _ => do
    let a ← hexValue a
    let b ← hexValue b
    let c ← hexValue c
    let d ← hexValue d
    some (4096 * a + 256 * b + 16 * c + d)
  | _ => none

/-- The bytes of a code point. Surrogates and what is too large become a question mark. -/
def utf8Bytes (codepoint : ℕ) : List UInt8 :=
  let cp := if 0x10FFFF < codepoint ∨ (0xD800 ≤ codepoint ∧ codepoint ≤ 0xDFFF) then 63
    else codepoint
  if cp ≤ 0x7F then [cp.toUInt8]
  else if cp ≤ 0x7FF then [(0xC0 + cp / 64).toUInt8, (0x80 + cp % 64).toUInt8]
  else if cp ≤ 0xFFFF then
    [(0xE0 + cp / 4096).toUInt8, (0x80 + cp / 64 % 64).toUInt8, (0x80 + cp % 64).toUInt8]
  else [(0xF0 + cp / 262144).toUInt8, (0x80 + cp / 4096 % 64).toUInt8,
    (0x80 + cp / 64 % 64).toUInt8, (0x80 + cp % 64).toUInt8]

def appendUtf8 (cap : ℕ) (out : List UInt8) (codepoint : ℕ) : Option (List UInt8) :=
  let bytes := utf8Bytes codepoint
  if cap ≤ out.length + bytes.length then none else some (out ++ bytes)

/-- The character that an escape other than `\u` stands for. -/
def unescape (c : UInt8) : UInt8 :=
  if c = 98 then 8 else if c = 102 then 12 else if c = 110 then 10
  else if c = 114 then 13 else if c = 116 then 9 else c

/-- The code point after `\u`, with the text that follows it. -/
def unicodeEscape (rest : List UInt8) : Option (ℕ × List UInt8) :=
  if rest.length < 4 then none
  else
    (parseHex4 rest).map fun codepoint =>
      let rest := rest.drop 4
      if 0xD800 ≤ codepoint ∧ codepoint ≤ 0xDBFF ∧ 6 ≤ rest.length ∧
          rest.take 2 = ascii "\\u" then
        match parseHex4 (rest.drop 2) with
        | none => (codepoint, rest)
        | some low =>
          if 0xDC00 ≤ low ∧ low ≤ 0xDFFF then
            (0x10000 + ((codepoint - 0xD800) * 1024 + (low - 0xDC00)), rest.drop 6)
          else (codepoint, rest)
      else (codepoint, rest)

/-- The loop of `json_token_str`. It stops when the buffer is full. -/
def decodeLoop (cap : ℕ) : ℕ → List UInt8 → List UInt8 → List UInt8
  | 0, _, out => out
  | fuel + 1, text, out =>
    if cap - 1 ≤ out.length then out
    else
      match text with
      | [] => out
      | [c] => out ++ [c]
      | c :: e :: rest =>
        if c ≠ 92 then decodeLoop cap fuel (e :: rest) (out ++ [c])
        else if e ≠ 117 then decodeLoop cap fuel rest (out ++ [unescape e])
        else
          match unicodeEscape rest with
          | none => decodeLoop cap fuel rest (out ++ [63])
          | some (codepoint, rest) =>
            match appendUtf8 cap out codepoint with
            | none => out
            | some out => decodeLoop cap fuel rest out

/-- `json_token_str`: what is written to the buffer before the terminating zero, which may have
zeros itself. -/
def tokenStr (js : List UInt8) (t : Token) (cap : ℕ) : Option (List UInt8) :=
  if t.kind ≠ .string then none
  else some (decodeLoop cap (t.text js).length (t.text js) [])

def tokenInt (js : List UInt8) (t : Token) : Option ℤ :=
  if t.kind ≠ .number then none
  else
    match t.text js with
    | 45 :: rest => some (toInt (-readDigits rest 0))
    | text => some (readDigits text 0)

def tokenBool (js : List UInt8) (t : Token) : Option Bool :=
  if t.kind ≠ .bool then none else some (js[t.start]? = some 116)

end Sodex.Json
