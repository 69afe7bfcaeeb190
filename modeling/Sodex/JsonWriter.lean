import Sodex.Json

/-!
# The JSON writer of `json.c`

The writer stops with an error when its buffer is full, so that a text it finishes is complete.
A string is escaped byte by byte; bytes that are not UTF-8 are replaced.
-/
namespace Sodex.Json

open CText

/-- One digit of `"0123456789abcdef"`. -/
def lowerHex (n : ℕ) : UInt8 := (if n < 10 then 48 + n else 87 + n).toUInt8

/-- What `jw_write_escaped` writes for a byte below 128. -/
def escapeAscii (c : UInt8) : List UInt8 :=
  if c = 34 then [92, 34]
  else if c = 92 then [92, 92]
  else if c = 8 then [92, 98]
  else if c = 12 then [92, 102]
  else if c = 10 then [92, 110]
  else if c = 13 then [92, 114]
  else if c = 9 then [92, 116]
  else if c < 32 then [92, 117, 48, 48, lowerHex (c.toNat / 16), lowerHex (c.toNat % 16)]
  else [c]

/-- The length of a UTF-8 sequence and the bits of its first byte. -/
def utf8Lead (c : UInt8) : Option (ℕ × ℕ) :=
  if 0xC2 ≤ c ∧ c ≤ 0xDF then some (2, c.toNat % 32)
  else if 0xE0 ≤ c ∧ c ≤ 0xEF then some (3, c.toNat % 16)
  else if 0xF0 ≤ c ∧ c ≤ 0xF4 then some (4, c.toNat % 8)
  else none

def isContinuation (b : UInt8) : Bool := b.toNat / 64 = 2

/-- `jw_decode_utf8` at a byte of 128 or more: whether there is a code point, and the bytes
consumed. -/
def decodeUtf8 (c : UInt8) (rest : List UInt8) : Bool × ℕ :=
  match utf8Lead c with
  | none => (false, 1)
  | some (need, lead) =>
    let tail := rest.take (need - 1)
    if rest.length + 1 < need then (false, 1)
    else if !tail.all isContinuation then (false, 1)
    else
      let cp := tail.foldl (fun cp b => cp * 64 + b.toNat % 64) lead
      (decide ¬((need = 2 ∧ cp < 0x80) ∨ (need = 3 ∧ cp < 0x800) ∨ (need = 4 ∧ cp < 0x10000) ∨
        0x10FFFF < cp ∨ (0xD800 ≤ cp ∧ cp ≤ 0xDFFF)), need)

/-- The loop of `jw_write_escaped`; a round consumes one byte at least. -/
def escapeLoop : ℕ → List UInt8 → List UInt8
  | 0, _ => []
  | _ + 1, [] => []
  | fuel + 1, c :: rest =>
    if c < 128 then escapeAscii c ++ escapeLoop fuel rest
    else
      match decodeUtf8 c rest with
      | (false, n) => ascii "\\ufffd" ++ escapeLoop fuel ((c :: rest).drop n)
      | (true, n) => (c :: rest).take n ++ escapeLoop fuel ((c :: rest).drop n)

def writeEscaped (text : List UInt8) : List UInt8 := 34 :: (escapeLoop text.length text ++ [34])

/-- An object with one string in it. -/
def writeField (key text : List UInt8) : List UInt8 :=
  123 :: (writeEscaped key ++ 58 :: (writeEscaped text ++ [125]))

/-- `jw_finish`: the text, if it fits the buffer with its terminating zero. -/
def finish (cap : ℕ) (text : List UInt8) : Option (List UInt8) :=
  if text.length < cap then some text else none

/-- Nothing has to be replaced in the text. -/
def validLoop : ℕ → List UInt8 → Bool
  | 0, _ => true
  | _ + 1, [] => true
  | fuel + 1, c :: rest =>
    if c < 128 then validLoop fuel rest
    else (decodeUtf8 c rest).1 && validLoop fuel ((c :: rest).drop (decodeUtf8 c rest).2)

/-- A text in UTF-8. -/
def IsUtf8 (text : List UInt8) : Prop := validLoop text.length text = true

instance (text : List UInt8) : Decidable (IsUtf8 text) := inferInstanceAs (Decidable (_ = true))

end Sodex.Json
