import Sodex.Runs
import Sodex.TermSurface

/-!
# The control sequences of the terminal

`vt_parser.c`: bytes are decoded as UTF-8 characters and control sequences, each of which calls
operations of the screen. What is called depends on the bytes only, not on the screen.
-/
namespace Sodex.Term

open CInt Runs

def zeroWidthTable : List (UInt32 × UInt32) :=
  [(0x0300, 0x036f), (0x0483, 0x0489), (0x0591, 0x05bd), (0x05bf, 0x05bf), (0x05c1, 0x05c2),
    (0x05c4, 0x05c5), (0x05c7, 0x05c7), (0x0610, 0x061a), (0x064b, 0x065f), (0x0670, 0x0670),
    (0x06d6, 0x06dc), (0x06df, 0x06e4), (0x06e7, 0x06e8), (0x06ea, 0x06ed), (0x0711, 0x0711),
    (0x0730, 0x074a), (0x07a6, 0x07b0), (0x07eb, 0x07f3), (0x07fd, 0x07fd), (0x0816, 0x0819),
    (0x081b, 0x0823), (0x0825, 0x0827), (0x0829, 0x082d), (0x0859, 0x085b), (0x0898, 0x089f),
    (0x08ca, 0x0903), (0x093a, 0x093c), (0x093e, 0x094f), (0x0951, 0x0957), (0x0962, 0x0963),
    (0x0981, 0x0983), (0x09bc, 0x09bc), (0x09be, 0x09c4), (0x09c7, 0x09c8), (0x09cb, 0x09cd),
    (0x09d7, 0x09d7), (0x09e2, 0x09e3), (0x0a01, 0x0a03), (0x0a3c, 0x0a3c), (0x0a3e, 0x0a42),
    (0x0a47, 0x0a48), (0x0a4b, 0x0a4d), (0x0a51, 0x0a51), (0x0a70, 0x0a71), (0x0a75, 0x0a75),
    (0x0a81, 0x0a83), (0x0abc, 0x0abc), (0x0abe, 0x0ac5), (0x0ac7, 0x0ac9), (0x0acb, 0x0acd),
    (0x0ae2, 0x0ae3), (0x0afa, 0x0aff), (0x0b01, 0x0b03), (0x0b3c, 0x0b3c), (0x0b3e, 0x0b44),
    (0x0b47, 0x0b48), (0x0b4b, 0x0b4d), (0x0b55, 0x0b57), (0x0b62, 0x0b63), (0x0b82, 0x0b82),
    (0x0bbe, 0x0bc2), (0x0bc6, 0x0bc8), (0x0bca, 0x0bcd), (0x0bd7, 0x0bd7), (0x0c00, 0x0c04),
    (0x0c3c, 0x0c3c), (0x0c3e, 0x0c44), (0x0c46, 0x0c48), (0x0c4a, 0x0c4d), (0x0c55, 0x0c56),
    (0x0c62, 0x0c63), (0x0c81, 0x0c83), (0x0cbc, 0x0cbc), (0x0cbe, 0x0cc4), (0x0cc6, 0x0cc8),
    (0x0cca, 0x0ccd), (0x0cd5, 0x0cd6), (0x0ce2, 0x0ce3), (0x0cf3, 0x0cf3), (0x0d00, 0x0d03),
    (0x0d3b, 0x0d3c), (0x0d3e, 0x0d44), (0x0d46, 0x0d48), (0x0d4a, 0x0d4d), (0x0d57, 0x0d57),
    (0x0d62, 0x0d63), (0x0d81, 0x0d83), (0x0dca, 0x0dca), (0x0dcf, 0x0dd4), (0x0dd6, 0x0dd6),
    (0x0dd8, 0x0ddf), (0x0df2, 0x0df3), (0x0e31, 0x0e31), (0x0e34, 0x0e3a), (0x0e47, 0x0e4e),
    (0x0eb1, 0x0eb1), (0x0eb4, 0x0ebc), (0x0ec8, 0x0ece), (0x0f18, 0x0f19), (0x0f35, 0x0f35),
    (0x0f37, 0x0f37), (0x0f39, 0x0f39), (0x0f3e, 0x0f3f), (0x0f71, 0x0f84), (0x0f86, 0x0f87),
    (0x0f8d, 0x0f97), (0x0f99, 0x0fbc), (0x0fc6, 0x0fc6), (0x102b, 0x103e), (0x1056, 0x1059),
    (0x105e, 0x1060), (0x1062, 0x1064), (0x1067, 0x106d), (0x1071, 0x1074), (0x1082, 0x108d),
    (0x108f, 0x108f), (0x109a, 0x109d), (0x135d, 0x135f), (0x1712, 0x1715), (0x1732, 0x1734),
    (0x1752, 0x1753), (0x1772, 0x1773), (0x17b4, 0x17d3), (0x17dd, 0x17dd), (0x180b, 0x180f),
    (0x1885, 0x1886), (0x18a9, 0x18a9), (0x1920, 0x192b), (0x1930, 0x193b), (0x1a17, 0x1a1b),
    (0x1a55, 0x1a5e), (0x1a60, 0x1a7c), (0x1a7f, 0x1a7f), (0x1ab0, 0x1ace), (0x1b00, 0x1b04),
    (0x1b34, 0x1b44), (0x1b6b, 0x1b73), (0x1b80, 0x1b82), (0x1ba1, 0x1bad), (0x1be6, 0x1bf3),
    (0x1c24, 0x1c37), (0x1cd0, 0x1cd2), (0x1cd4, 0x1ce8), (0x1ced, 0x1ced), (0x1cf2, 0x1cf4),
    (0x1cf7, 0x1cf9), (0x1dc0, 0x1dff), (0x200b, 0x200f), (0x202a, 0x202e), (0x2060, 0x2064),
    (0x2066, 0x206f), (0xfe00, 0xfe0f), (0xfe20, 0xfe2f), (0xfff9, 0xfffb), (0x1f3fb, 0x1f3ff),
    (0xe0100, 0xe01ef)]

def wideTable : List (UInt32 × UInt32) :=
  [(0x1100, 0x115f), (0x231a, 0x231b), (0x2329, 0x232a), (0x23e9, 0x23ec), (0x23f0, 0x23f0),
    (0x23f3, 0x23f3), (0x25fd, 0x25fe), (0x2614, 0x2615), (0x2648, 0x2653), (0x267f, 0x267f),
    (0x2693, 0x2693), (0x26a1, 0x26a1), (0x26aa, 0x26ab), (0x26bd, 0x26be), (0x26c4, 0x26c5),
    (0x26ce, 0x26ce), (0x26d4, 0x26d4), (0x26ea, 0x26ea), (0x26f2, 0x26f3), (0x26f5, 0x26f5),
    (0x26fa, 0x26fa), (0x26fd, 0x26fd), (0x2705, 0x2705), (0x270a, 0x270b), (0x2728, 0x2728),
    (0x274c, 0x274c), (0x274e, 0x274e), (0x2753, 0x2755), (0x2757, 0x2757), (0x2795, 0x2797),
    (0x27b0, 0x27b0), (0x27bf, 0x27bf), (0x2b1b, 0x2b1c), (0x2b50, 0x2b50), (0x2b55, 0x2b55),
    (0x2e80, 0x2ffb), (0x3000, 0x303e), (0x3041, 0x3096), (0x3099, 0x30ff), (0x3105, 0x312f),
    (0x3131, 0x318e), (0x3190, 0x31e5), (0x31ef, 0x321e), (0x3220, 0x3247), (0x3250, 0x4dbf),
    (0x4e00, 0xa48c), (0xa490, 0xa4c6), (0xa960, 0xa97c), (0xac00, 0xd7a3), (0xf900, 0xfaff),
    (0xfe10, 0xfe19), (0xfe30, 0xfe6b), (0xff01, 0xff60), (0xffe0, 0xffe6), (0x1f300, 0x1f64f),
    (0x1f900, 0x1f9ff), (0x20000, 0x2fffd), (0x30000, 0x3fffd)]

/-- The loop of `width_interval_contains` between `left` and `right`, the latter excluded. -/
def widthIntervalSearch (table : List (UInt32 × UInt32)) (codepoint : UInt32) :
    ℕ → ℕ → ℕ → Bool
  | 0, _, _ => false
  | fuel + 1, left, right =>
    if left < right then
      let mid := left + (right - 1 - left) / 2
      match table[mid]? with
      | none => false
      | some (first, last) =>
        if codepoint < first then widthIntervalSearch table codepoint fuel left mid
        else if last < codepoint then widthIntervalSearch table codepoint fuel (mid + 1) right
        else true
    else false

def widthIntervalContains (table : List (UInt32 × UInt32)) (codepoint : UInt32) : Bool :=
  widthIntervalSearch table codepoint table.length 0 table.length

def unicodeWcwidth (codepoint : UInt32) : ℤ :=
  if codepoint = 0 then 0
  else if codepoint < 0x20 ∨ (0x7f ≤ codepoint ∧ codepoint < 0xa0) then -1
  else if widthIntervalContains zeroWidthTable codepoint then 0
  else if widthIntervalContains wideTable codepoint then 2
  else 1

/-- `struct utf8_decoder`. -/
structure Utf8Decoder where
  codepoint : UInt32
  minCodepoint : UInt32
  expected : ℕ
  seen : ℕ
  deriving DecidableEq, Repr

def Utf8Decoder.init : Utf8Decoder := ⟨0, 0, 0, 0⟩

/-- What `utf8_decode_byte` returns: a code point, that more bytes are needed, or an error. -/
inductive Decoded where
  | codepoint (c : UInt32)
  | more
  | invalid
  deriving DecidableEq, Repr

def Utf8Decoder.decodeByte (d : Utf8Decoder) (b : UInt8) : Utf8Decoder × Decoded :=
  if d.expected = 0 then
    if b < 0x80 then (d, .codepoint b.toUInt32)
    else if b &&& 0xe0 = 0xc0 then (⟨(b &&& 0x1f).toUInt32, 0x80, 2, 1⟩, .more)
    else if b &&& 0xf0 = 0xe0 then (⟨(b &&& 0x0f).toUInt32, 0x800, 3, 1⟩, .more)
    else if b &&& 0xf8 = 0xf0 then (⟨(b &&& 0x07).toUInt32, 0x10000, 4, 1⟩, .more)
    else (d, .invalid)
  else if b &&& 0xc0 ≠ 0x80 then (.init, .invalid)
  else
    let codepoint := (d.codepoint <<< 6) ||| (b &&& 0x3f).toUInt32
    if d.seen + 1 < d.expected then ({ d with codepoint := codepoint, seen := d.seen + 1 }, .more)
    else if codepoint < d.minCodepoint ∨ 0x10ffff < codepoint ∨
        (0xd800 ≤ codepoint ∧ codepoint ≤ 0xdfff) then (.init, .invalid)
    else (.init, .codepoint codepoint)

def UTF8_REPLACEMENT_CHAR : UInt32 := 0xfffd

/-- The calls that the parser makes. -/
inductive Op where
  | carriageReturn
  | newline (fill : Cell)
  | backspace
  | tab (style : Cell)
  | write (codepoint : UInt32) (width : ℕ) (style : Cell)
  | moveCursor (dcol drow : ℤ)
  | setCursor (col row : ℤ)
  | eraseDisplay (mode : ℤ) (blank : Cell)
  | eraseLine (mode : ℤ) (blank : Cell)
  | saveCursor
  | restoreCursor
  /-- Without a second parameter the region ends at the last row. -/
  | setRegion (top : ℤ) (bottom : Option ℤ)
  | enterAlternate (blank : Cell)
  | leaveAlternate
  deriving DecidableEq, Repr

/-- The row of the cursor is erased from the cursor on. -/
def eraseRight (s : Surface) (blank : Cell) : Surface :=
  s.clearRegion s.cursor.col s.cursor.row (s.cols - 1) s.cursor.row blank

/-- The row of the cursor is erased up to the cursor. -/
def eraseLeft (s : Surface) (blank : Cell) : Surface :=
  s.clearRegion 0 s.cursor.row s.cursor.col s.cursor.row blank

def eraseRowsBelow (s : Surface) (blank : Cell) : Surface :=
  if s.cursor.row + 1 < s.rows then
    s.clearRegion 0 (s.cursor.row + 1) (s.cols - 1) (s.rows - 1) blank
  else s

def eraseRowsAbove (s : Surface) (blank : Cell) : Surface :=
  if 0 < s.cursor.row then s.clearRegion 0 0 (s.cols - 1) (s.cursor.row - 1) blank else s

def eraseDisplay (s : Surface) (mode : ℤ) (blank : Cell) : Surface :=
  if mode = 0 then eraseRowsBelow (eraseRight s blank) blank
  else if mode = 1 then eraseLeft (eraseRowsAbove s blank) blank
  else if mode = 2 then s.clear blank
  else s

def eraseLine (s : Surface) (mode : ℤ) (blank : Cell) : Surface :=
  if mode = 0 then eraseRight s blank
  else if mode = 1 then eraseLeft s blank
  else if mode = 2 then s.clearRegion 0 s.cursor.row (s.cols - 1) s.cursor.row blank
  else s

/-- A call is carried out; `none` if it never returns. -/
def applyOp (granted : Bool) (s : Surface) : Op → Option Surface
  | .carriageReturn => some s.carriageReturn
  | .newline fill => some (s.newline fill)
  | .backspace => some s.backspace
  | .tab style => s.tab style
  | .write codepoint width style => some (s.writeCodepoint codepoint width style)
  | .moveCursor dcol drow => some (s.moveCursor dcol drow)
  | .setCursor col row => some (s.setCursor col row)
  | .eraseDisplay mode blank => some (eraseDisplay s mode blank)
  | .eraseLine mode blank => some (eraseLine s mode blank)
  | .saveCursor => some s.saveCursor
  | .restoreCursor => some s.restoreCursor
  | .setRegion top bottom => some (s.setScrollRegion top (bottom.getD ((s.rows : ℤ) - 1)))
  | .enterAlternate blank => some (s.enterAlternate granted blank)
  | .leaveAlternate => some s.leaveAlternate

inductive VtState where
  | ground
  | escape
  | csi
  deriving DecidableEq, Repr

def VT_PARSER_MAX_PARAMS : ℕ := 8

/-- `struct vt_parser`; a parameter that was left out is -1. -/
structure VtParser where
  pen : Cell
  state : VtState
  params : List ℤ
  paramCount : ℕ
  paramActive : Bool
  privateMode : Bool
  decoder : Utf8Decoder
  deriving DecidableEq, Repr

def VtParser.init : VtParser :=
  ⟨defaultCell, .ground, List.replicate VT_PARSER_MAX_PARAMS (-1), 0, false, false, .init⟩

namespace VtParser

def resetParams (p : VtParser) : VtParser :=
  { p with
    params := List.replicate VT_PARSER_MAX_PARAMS (-1)
    paramCount := 0, paramActive := false, privateMode := false }

/-- A parameter, if it was given. -/
def param? (p : VtParser) (index : ℕ) : Option ℤ :=
  if index < p.paramCount then p.params[index]?.filter (0 ≤ ·) else none

def param (p : VtParser) (index : ℕ) (fallback : ℤ) : ℤ := (p.param? index).getD fallback

def blank (p : VtParser) : Cell := { p.pen with ch := 32 }

def ansiToVga (color : ℤ) : UInt8 :=
  if color < 0 ∨ 7 < color then 7 else [0, 4, 2, 6, 1, 5, 3, 7].getD color.toNat 7

/-- One round of the loop of `vt_parser_apply_sgr`. -/
def applySgrCode (pen : Cell) (code : ℤ) : Cell :=
  if code = 0 then defaultCell
  else if code = 1 then { pen with attr := pen.attr ||| TERM_ATTR_BOLD }
  else if code = 22 then { pen with attr := pen.attr &&& ~~~TERM_ATTR_BOLD }
  else if code = 7 then { pen with attr := pen.attr ||| TERM_ATTR_REVERSE }
  else if code = 27 then { pen with attr := pen.attr &&& ~~~TERM_ATTR_REVERSE }
  else if 30 ≤ code ∧ code ≤ 37 then { pen with fg := ansiToVga (code - 30) }
  else if code = 39 then { pen with fg := defaultCell.fg }
  else if 40 ≤ code ∧ code ≤ 47 then { pen with bg := ansiToVga (code - 40) }
  else if code = 49 then { pen with bg := defaultCell.bg }
  else if 90 ≤ code ∧ code ≤ 97 then { pen with fg := ansiToVga (code - 90) + 8 }
  else if 100 ≤ code ∧ code ≤ 107 then { pen with bg := ansiToVga (code - 100) + 8 }
  else pen

def applySgr (p : VtParser) : VtParser :=
  if p.paramCount = 0 then { p with pen := defaultCell }
  else { p with
    pen := (List.range p.paramCount).foldl (fun pen i => applySgrCode pen (p.param i 0)) p.pen }

/-- `vt_parser_dispatch_private_csi`: the first parameter that names the alternate screen. -/
def dispatchPrivateCsi (p : VtParser) (final : UInt8) : List Op :=
  if final ≠ 104 ∧ final ≠ 108 then []
  else if (List.range p.paramCount).any fun i => p.param i (-1) ∈ [(47 : ℤ), 1047, 1049] then
    [if final = 104 then .enterAlternate p.blank else .leaveAlternate]
  else []

/-- The last parameter is counted. -/
def closeParams (p : VtParser) : VtParser :=
  if (p.paramActive ∨ 0 < p.paramCount) ∧ p.paramCount < VT_PARSER_MAX_PARAMS then
    { p with
      params := if p.paramActive then p.params else p.params.set p.paramCount (-1)
      paramCount := p.paramCount + 1 }
  else p

def dispatchCsi (p : VtParser) (final : UInt8) : VtParser × List Op :=
  let p := p.closeParams
  if p.privateMode then (p, p.dispatchPrivateCsi final)
  else if final = 65 then (p, [.moveCursor 0 (-p.param 0 1)])
  else if final = 66 then (p, [.moveCursor 0 (p.param 0 1)])
  else if final = 67 then (p, [.moveCursor (p.param 0 1) 0])
  else if final = 68 then (p, [.moveCursor (-p.param 0 1) 0])
  else if final = 72 ∨ final = 102 then (p, [.setCursor (p.param 1 1 - 1) (p.param 0 1 - 1)])
  else if final = 74 then (p, [.eraseDisplay (p.param 0 0) p.blank])
  else if final = 75 then (p, [.eraseLine (p.param 0 0) p.blank])
  else if final = 109 then (p.applySgr, [])
  else if final = 115 then (p, [.saveCursor])
  else if final = 114 then
    (p, [.setRegion (p.param 0 1 - 1) ((p.param? 1).map (· - 1))])
  else if final = 117 then (p, [.restoreCursor])
  else (p, [])

def emitCodepoint (p : VtParser) (codepoint : UInt32) : List Op :=
  if codepoint = 0 ∨ unicodeWcwidth codepoint ≤ 0 then []
  else [.write codepoint (unicodeWcwidth codepoint).toNat p.pen]

def flushPartialUtf8 (p : VtParser) : VtParser × List Op :=
  if p.decoder.expected = 0 then (p, [])
  else ({ p with decoder := .init }, p.emitCodepoint UTF8_REPLACEMENT_CHAR)

def feedGround (p : VtParser) (ch : UInt8) : VtParser × List Op :=
  let (flushed, ops) := p.flushPartialUtf8
  if ch = 13 then (flushed, ops ++ [.carriageReturn])
  else if ch = 10 then (flushed, ops ++ [.newline p.pen])
  else if ch = 8 then (flushed, ops ++ [.backspace])
  else if ch = 9 then (flushed, ops ++ [.tab p.pen])
  else if ch < 0x20 ∨ ch = 0x7f then (p, [])
  else
    match p.decoder.decodeByte ch with
    | (decoder, .codepoint c) => ({ p with decoder := decoder }, p.emitCodepoint c)
    | (decoder, .more) => ({ p with decoder := decoder }, [])
    | (decoder, .invalid) =>
      ({ p with decoder := decoder }, p.emitCodepoint UTF8_REPLACEMENT_CHAR ++
        if 0x20 ≤ ch ∧ ch < 0x80 then p.emitCodepoint ch.toUInt32 else [])

def feedDigit (p : VtParser) (ch : UInt8) : VtParser :=
  if !p.paramActive ∧ VT_PARSER_MAX_PARAMS ≤ p.paramCount then { p with state := .ground }
  else
    let old := if p.paramActive then p.params.getD p.paramCount 0 else 0
    { p with
      params := p.params.set p.paramCount (toInt (old * 10 + (ch.toNat - 48)))
      paramActive := true }

/-- One round of the loop of `vt_parser_feed`. -/
def feedByte (p : VtParser) (ch : UInt8) : VtParser × List Op :=
  match p.state with
  | .ground =>
    if ch = 0x1b then
      let (flushed, ops) := p.flushPartialUtf8
      ({ flushed with state := .escape }, ops)
    else p.feedGround ch
  | .escape =>
    if ch = 91 then ({ p with state := .csi }.resetParams, [])
    else if ch = 55 then ({ p with state := .ground }, [.saveCursor])
    else if ch = 56 then ({ p with state := .ground }, [.restoreCursor])
    else ({ p with state := .ground }, [])
  | .csi =>
    if 48 ≤ ch ∧ ch ≤ 57 then (p.feedDigit ch, [])
    else if ch = 59 then
      if p.paramCount < VT_PARSER_MAX_PARAMS then
        ({ p with
          params := if p.paramActive then p.params else p.params.set p.paramCount (-1)
          paramCount := p.paramCount + 1, paramActive := false }, [])
      else ({ p with state := .ground }, [])
    else if ch = 63 ∧ p.paramCount = 0 ∧ !p.paramActive ∧ !p.privateMode then
      ({ p with privateMode := true }, [])
    else if 0x40 ≤ ch ∧ ch ≤ 0x7e then
      let (p, ops) := p.dispatchCsi ch
      ({ p with state := .ground }.resetParams, ops)
    else ({ p with state := .ground }, [])

end VtParser

/-- `vt_parser_feed` with one byte: the parser moves on and its calls are carried out. With the
byte comes the answer to a request for memory. -/
def feed (t : VtParser × Surface) (input : Bool × UInt8) : Option (VtParser × Surface) :=
  let (p, ops) := t.1.feedByte input.2
  (run (applyOp input.1) t.2 ops).map fun s => (p, s)

/-- At most two calls are made, and one that leaves the alternate screen is the only one. -/
def Calls (ops : List Op) : Prop :=
  ops = [.leaveAlternate] ∨ ops.length ≤ 2 ∧ Op.leaveAlternate ∉ ops

theorem Calls.length_le {ops : List Op} (h : Calls ops) : ops.length ≤ 2 := by
  obtain rfl | ⟨hlength, -⟩ := h
  · decide
  · exact hlength

theorem Calls.leave {ops : List Op} (h : Calls ops) (hmem : Op.leaveAlternate ∈ ops) :
    ops = [.leaveAlternate] := h.resolve_right fun hnone => hnone.2 hmem

theorem calls_ite {c : Prop} [Decidable c] {x y : VtParser × List Op} (hx : Calls x.2)
    (hy : Calls y.2) : Calls (if c then x else y).2 := by
  split <;> assumption

theorem calls_nil : Calls [] := .inr (by simp)

theorem calls_single (op : Op) : Calls [op] := by
  by_cases hop : op = .leaveAlternate
  · exact .inl (by rw [hop])
  · exact .inr (by simp [Ne.symm hop])

section Calls

variable (p : VtParser)

/-- Up to one character is written. -/
def Written (ops : List Op) : Prop := ops = [] ∨ ∃ c width style, ops = [.write c width style]

theorem Written.calls {ops : List Op} (h : Written ops) : Calls ops := by
  obtain rfl | ⟨c, width, style, rfl⟩ := h
  · exact calls_nil
  · exact calls_single _

theorem Written.append {ops ops' : List Op} (h : Written ops)
    (h' : Written ops' ∨ ∃ op ≠ .leaveAlternate, ops' = [op]) : Calls (ops ++ ops') := by
  obtain rfl | ⟨c, width, style, rfl⟩ := h <;>
    obtain (rfl | ⟨c', width', style', rfl⟩) | ⟨op, hop, rfl⟩ := h'
  all_goals exact .inr (by simp_all [Ne.symm])

theorem written_emitCodepoint (c : UInt32) : Written (p.emitCodepoint c) := by
  unfold VtParser.emitCodepoint
  split
  · exact .inl rfl
  · exact .inr ⟨_, _, _, rfl⟩

theorem written_flush : Written p.flushPartialUtf8.2 := by
  unfold VtParser.flushPartialUtf8
  split
  · exact .inl rfl
  · dsimp only
    generalize UTF8_REPLACEMENT_CHAR = c
    exact written_emitCodepoint p c

theorem calls_feedGround (ch : UInt8) : Calls (p.feedGround ch).2 := by
  have hflush := written_flush p
  unfold VtParser.feedGround
  repeat' apply calls_ite
  iterate 4 exact hflush.append (.inr ⟨_, by nofun, rfl⟩)
  · exact calls_nil
  · split
    · exact (written_emitCodepoint p _).calls
    · exact calls_nil
    · dsimp only
      generalize UTF8_REPLACEMENT_CHAR = c
      refine (written_emitCodepoint p c).append (.inl ?_)
      split
      · exact written_emitCodepoint p _
      · exact .inl rfl

theorem calls_dispatchCsi (final : UInt8) : Calls (p.dispatchCsi final).2 := by
  unfold VtParser.dispatchCsi
  repeat' apply calls_ite
  all_goals first | exact calls_single _ | exact calls_nil | skip
  unfold VtParser.dispatchPrivateCsi
  repeat' split
  all_goals first | exact calls_single _ | exact calls_nil

theorem calls_feedByte (b : UInt8) : Calls (p.feedByte b).2 := by
  have hcsi := calls_dispatchCsi p b
  unfold VtParser.feedByte
  cases p.state with
  | ground => exact calls_ite (written_flush p).calls (calls_feedGround p b)
  | escape =>
    repeat' apply calls_ite
    all_goals first | exact calls_single _ | exact calls_nil
  | csi =>
    generalize p.dispatchCsi b = dispatched at hcsi ⊢
    repeat' apply calls_ite
    all_goals first | exact calls_nil | exact hcsi

end Calls

end Sodex.Term
