import Sodex.JsonAccess
import Sodex.JsonUtf8

/-!
# Documents made by the JSON writer

A document is written by calls, one after the other; the writer only keeps whether the next entry
needs a comma. Calls that describe a tree leave the text of that tree in the buffer, or an error.
-/
namespace Sodex.Json

open CText CFormat List

/-- `struct json_writer`; `len` is the length of `buf`. -/
structure Writer where
  buf : List UInt8
  cap : ℕ
  error : Bool
  needComma : Bool
  deriving DecidableEq, Repr

def Writer.init (cap : ℕ) : Writer := ⟨[], cap, false, false⟩

def Writer.putc (jw : Writer) (c : UInt8) : Writer :=
  if jw.buf.length < jw.cap - 1 then { jw with buf := jw.buf ++ [c] }
  else { jw with error := true }

/-- `jw_puts`, and every other text that is put byte by byte. -/
def Writer.puts (jw : Writer) (text : List UInt8) : Writer := text.foldl Writer.putc jw

def Writer.maybeComma (jw : Writer) : Writer :=
  { (if jw.needComma then jw.putc 44 else jw) with needComma := false }

/-- What `jw_int` puts: the digits of the absolute value, which fits 32 bits without a sign. -/
def intText (value : ℤ) : List UInt8 :=
  let uval := if value < 0 then (-(value + 1)).toNat + 1 else value.toNat
  (if value < 0 then [45] else []) ++ putUnsigned uval

/-- The functions that write. -/
inductive Call where
  | objectStart
  | objectEnd
  | arrayStart
  | arrayEnd
  | key (name : List UInt8)
  | string (value : List UInt8)
  | int (value : BitVec 32)
  | bool (value : Bool)
  | raw (text : List UInt8)
  deriving DecidableEq, Repr

def Writer.step (jw : Writer) : Call → Writer
  | .objectStart => { jw.maybeComma.putc 123 with needComma := false }
  | .objectEnd => { jw.putc 125 with needComma := true }
  | .arrayStart => { jw.maybeComma.putc 91 with needComma := false }
  | .arrayEnd => { jw.putc 93 with needComma := true }
  | .key name => { (jw.maybeComma.puts (writeEscaped name)).putc 58 with needComma := false }
  | .string value => { jw.maybeComma.puts (writeEscaped value) with needComma := true }
  | .int value => { jw.maybeComma.puts (intText value.toInt) with needComma := true }
  | .bool value =>
    { jw.maybeComma.puts (ascii (if value then "true" else "false")) with needComma := true }
  | .raw text => { jw.maybeComma.puts text with needComma := true }

def Writer.run (jw : Writer) (calls : List Call) : Writer := calls.foldl Writer.step jw

/-- `jw_finish`: the text before the terminating zero, or an error. -/
def Writer.finish (jw : Writer) : Option (List UInt8) :=
  if jw.error then none else if jw.buf.length < jw.cap then some jw.buf else none

mutual

/-- What calls describe; a JSON text may be put in as it is. -/
inductive Tree where
  | string (value : List UInt8)
  | int (value : BitVec 32)
  | bool (value : Bool)
  | raw (d : Document)
  | array (elems : Trees)
  | object (fields : Fields)

inductive Trees where
  | nil
  | cons (t : Tree) (rest : Trees)

inductive Fields where
  | nil
  | cons (name : List UInt8) (t : Tree) (rest : Fields)

end

mutual

def Tree.calls : Tree → List Call
  | .string value => [.string value]
  | .int value => [.int value]
  | .bool value => [.bool value]
  | .raw d => [.raw d.text]
  | .array elems => .arrayStart :: (elems.calls ++ [.arrayEnd])
  | .object fields => .objectStart :: (fields.calls ++ [.objectEnd])

def Trees.calls : Trees → List Call
  | .nil => []
  | .cons t rest => t.calls ++ rest.calls

def Fields.calls : Fields → List Call
  | .nil => []
  | .cons name t rest => .key name :: (t.calls ++ rest.calls)

end

mutual

def Tree.text : Tree → List UInt8
  | .string value => writeEscaped value
  | .int value => intText value.toInt
  | .bool value => ascii (if value then "true" else "false")
  | .raw d => d.text
  | .array elems => 91 :: (elems.text true ++ [93])
  | .object fields => 123 :: (fields.text true ++ [125])

def Trees.text (first : Bool) : Trees → List UInt8
  | .nil => []
  | .cons t rest => separator first ++ t.text ++ rest.text false

def Fields.text (first : Bool) : Fields → List UInt8
  | .nil => []
  | .cons name t rest =>
    separator first ++ writeEscaped name ++ 58 :: (t.text ++ rest.text false)

end

/-- The text that a call puts, after an entry or not. -/
def Call.text (comma : Bool) : Call → List UInt8
  | .objectStart => separator (!comma) ++ [123]
  | .objectEnd => [125]
  | .arrayStart => separator (!comma) ++ [91]
  | .arrayEnd => [93]
  | .key name => separator (!comma) ++ writeEscaped name ++ [58]
  | .string value => separator (!comma) ++ writeEscaped value
  | .int value => separator (!comma) ++ intText value.toInt
  | .bool value => separator (!comma) ++ ascii (if value then "true" else "false")
  | .raw text => separator (!comma) ++ text

/-- Whether the next entry needs a comma. -/
def Call.comma : Call → Bool
  | .objectStart | .arrayStart | .key _ => false
  | _ => true

section Put

variable {jw : Writer} {b : Bool}

theorem puts_nil (jw : Writer) : jw.puts [] = jw := rfl

theorem puts_cons (jw : Writer) (c : UInt8) (text : List UInt8) :
    jw.puts (c :: text) = (jw.putc c).puts text := rfl

theorem puts_append (jw : Writer) (text more : List UInt8) :
    jw.puts (text ++ more) = (jw.puts text).puts more := foldl_append

theorem putc_comma (c : UInt8) :
    ({ jw with needComma := b } : Writer).putc c = { jw.putc c with needComma := b } := by
  unfold Writer.putc
  split <;> rfl

theorem puts_comma (text : List UInt8) :
    ({ jw with needComma := b } : Writer).puts text = { jw.puts text with needComma := b } := by
  induction text generalizing jw with
  | nil => rfl
  | cons c text ih => rw [puts_cons, putc_comma, ih, puts_cons]

/-- What fits is appended; an error is kept when something does not. -/
theorem puts_eq (jw : Writer) (text : List UInt8) : jw.puts text = { jw with
    buf := jw.buf ++ text.take (jw.cap - 1 - jw.buf.length)
    error := jw.error || decide (jw.cap - 1 - jw.buf.length < text.length) } := by
  induction text generalizing jw with
  | nil => simp [puts_nil]
  | cons c text ih =>
    rw [puts_cons, ih]
    unfold Writer.putc
    split
    · rename_i hroom
      obtain ⟨k, hk⟩ : ∃ k, jw.cap - 1 - jw.buf.length = k + 1 :=
        ⟨jw.cap - 1 - jw.buf.length - 1, by omega⟩
      have hk' : jw.cap - 1 - (jw.buf.length + 1) = k := by omega
      simp [hk, hk']
    · rename_i hfull
      have hzero : jw.cap - 1 - jw.buf.length = 0 := by omega
      simp [hzero]

theorem maybeComma_eq (jw : Writer) :
    jw.maybeComma = { jw.puts (separator (!jw.needComma)) with needComma := false } := by
  unfold Writer.maybeComma
  cases jw.needComma <;> rfl

theorem step_eq (jw : Writer) (call : Call) :
    jw.step call = { jw.puts (call.text jw.needComma) with needComma := call.comma } := by
  cases call <;>
    simp only [Writer.step, Call.text, Call.comma, maybeComma_eq, puts_append, puts_comma,
      putc_comma, puts_cons, puts_nil]

/-- The text that calls put. -/
def callsText : Bool → List Call → List UInt8
  | _, [] => []
  | comma, call :: calls => call.text comma ++ callsText call.comma calls

def commaAfter : Bool → List Call → Bool
  | comma, [] => comma
  | _, call :: calls => commaAfter call.comma calls

theorem run_eq (jw : Writer) (calls : List Call) : jw.run calls =
    { jw.puts (callsText jw.needComma calls) with needComma := commaAfter jw.needComma calls } := by
  induction calls generalizing jw with
  | nil => rfl
  | cons call calls ih =>
    rw [show jw.run (call :: calls) = (jw.step call).run calls from rfl, ih, step_eq, puts_comma,
      callsText, commaAfter, puts_append]

theorem callsText_append (comma : Bool) (calls more : List Call) : callsText comma (calls ++ more) =
      callsText comma calls ++ callsText (commaAfter comma calls) more := by
  induction calls generalizing comma with
  | nil => rfl
  | cons call calls ih =>
    rw [cons_append, callsText, callsText, commaAfter, ih, append_assoc]

theorem commaAfter_append (comma : Bool) (calls more : List Call) :
    commaAfter comma (calls ++ more) = commaAfter (commaAfter comma calls) more := by
  induction calls generalizing comma with
  | nil => rfl
  | cons call calls ih => rw [cons_append, commaAfter, commaAfter, ih]

end Put

mutual

/-- The calls of a tree put its text, and the next entry needs a comma. -/
theorem Tree.callsText_eq (t : Tree) (first : Bool) :
    callsText (!first) t.calls = separator first ++ t.text ∧ commaAfter (!first) t.calls = true := by
  cases t with
  | string value => simp [Tree.calls, callsText, Call.text, commaAfter, Call.comma, Tree.text]
  | int value => simp [Tree.calls, callsText, Call.text, commaAfter, Call.comma, Tree.text]
  | bool value => simp [Tree.calls, callsText, Call.text, commaAfter, Call.comma, Tree.text]
  | raw d => simp [Tree.calls, callsText, Call.text, commaAfter, Call.comma, Tree.text]
  | array elems =>
    have h := Trees.callsText_eq elems true
    rw [Bool.not_true] at h
    constructor
    · rw [Tree.calls, callsText, Call.comma, callsText_append, h]
      simp [callsText, Call.text, Tree.text]
    · rw [Tree.calls, commaAfter, commaAfter_append]
      rfl
  | object fields =>
    have h := Fields.callsText_eq fields true
    rw [Bool.not_true] at h
    constructor
    · rw [Tree.calls, callsText, Call.comma, callsText_append, h]
      simp [callsText, Call.text, Tree.text]
    · rw [Tree.calls, commaAfter, commaAfter_append]
      rfl

theorem Trees.callsText_eq (elems : Trees) (first : Bool) :
    callsText (!first) elems.calls = elems.text first := by
  cases elems with
  | nil => rfl
  | cons t rest =>
    obtain ⟨htext, hcomma⟩ := Tree.callsText_eq t first
    have h := Trees.callsText_eq rest false
    rw [Bool.not_false] at h
    rw [Trees.calls, callsText_append, htext, hcomma, h, Trees.text]

theorem Fields.callsText_eq (fields : Fields) (first : Bool) :
    callsText (!first) fields.calls = fields.text first := by
  cases fields with
  | nil => rfl
  | cons name t rest =>
    obtain ⟨htext, hcomma⟩ := Tree.callsText_eq t true
    rw [Bool.not_true] at htext hcomma
    have h := Fields.callsText_eq rest false
    rw [Bool.not_false] at h
    rw [Fields.calls, callsText, Call.comma, callsText_append, htext, hcomma, h, Fields.text]
    simp [Call.text, separator]

end

/-- The writer after the calls of a tree. -/
def written (cap : ℕ) (t : Tree) : Writer := (Writer.init cap).run t.calls

theorem written_eq (cap : ℕ) (t : Tree) :
    written cap t = ⟨t.text.take (cap - 1), cap, decide (cap - 1 < t.text.length), true⟩ := by
  obtain ⟨htext, hcomma⟩ := t.callsText_eq true
  rw [Bool.not_true] at htext hcomma
  rw [written, run_eq, puts_eq]
  simp [Writer.init, htext, hcomma, separator]

/-- The text is the UTF-8 of characters. -/
def ValidUtf8 (text : List UInt8) : Prop := ∃ l : List Char, text = l.flatMap String.utf8EncodeChar

structure WrittenAs (value : List UInt8) (s : List Item) : Prop where
  text : quoted s = writeEscaped value
  replaced : Replaced value (decoded s)
  unchanged : ValidUtf8 value → decoded s = value

def IntPart.value : IntPart → ℕ
  | .zero => 0
  | .digits first _ rest => (first :: rest).foldl (fun n d => n * 10 + d.val) 0

/-- The integer that a number without fraction and exponent stands for. -/
def Number.intValue (m : Number) : ℤ := if m.minus then -m.int.value else m.int.value

mutual

/-- The value is the tree: same shape, same numbers, and strings as `R` says. -/
inductive Tree.Describes (R : List UInt8 → List Item → Prop) : Tree → Value → Prop where
  | string {value : List UInt8} {s : List Item} (h : R value s) :
      Tree.Describes R (.string value) (.string s)
  | int {value : BitVec 32} {m : Number} (hfraction : m.fraction = none)
      (hexponent : m.exponent = none) (h : m.intValue = value.toInt) :
      Tree.Describes R (.int value) (.number m)
  | bool (value : Bool) :
      Tree.Describes R (.bool value) (.literal (if value then .true else .false))
  | raw (d : Document) : Tree.Describes R (.raw d) d.value
  | array {trees : Trees} {w : Ws} {elems : Elems} (h : Trees.Describes R trees elems) :
      Tree.Describes R (.array trees) (.array w elems)
  | object {fields : Fields} {w : Ws} {members : Members}
      (h : Fields.Describes R fields members) : Tree.Describes R (.object fields) (.object w members)

inductive Trees.Describes (R : List UInt8 → List Item → Prop) : Trees → Elems → Prop where
  | nil : Trees.Describes R .nil .nil
  | cons {t : Tree} {rest : Trees} {before after : Ws} {v : Value} {elems : Elems}
      (ht : Tree.Describes R t v) (h : Trees.Describes R rest elems) :
      Trees.Describes R (.cons t rest) (.cons before v after elems)

inductive Fields.Describes (R : List UInt8 → List Item → Prop) : Fields → Members → Prop where
  | nil : Fields.Describes R .nil .nil
  | cons {name : List UInt8} {t : Tree} {rest : Fields} {before afterKey beforeValue after : Ws}
      {key : List Item} {v : Value} {members : Members} (hname : R name key)
      (ht : Tree.Describes R t v) (h : Fields.Describes R rest members) :
      Fields.Describes R (.cons name t rest) (.cons before key afterKey beforeValue v after members)

end

theorem writeEscaped_items (value : List UInt8) : ∃ s, WrittenAs value s := by
  obtain ⟨s, hs, -, hreplaced⟩ := escapeLoop_items value.length value le_rfl
  refine ⟨s, by rw [quoted, hs, writeEscaped], hreplaced, ?_⟩
  rintro ⟨l, hl⟩
  exact hreplaced.unchanged hl

theorem putDigits_number {width n : ℕ} (hn : 0 < n) (hlt : n < 10 ^ width) :
    ∃ first rest, first ≠ (0 : Fin 10) ∧ putDigits width n = (first :: rest).map digitByte ∧
      (first :: rest).foldl (fun n d => n * 10 + d.val) 0 = n := by
  induction width generalizing n with
  | zero =>
    omega
  | succ width ih =>
    have hdigit : digitByte ⟨n % 10, Nat.mod_lt _ (by decide)⟩ = (48 + n % 10).toUInt8 := rfl
    rw [putDigits, if_neg (by omega), ← hdigit]
    by_cases hsmall : n < 10
    · have hzero : n / 10 = 0 := by omega
      have hnil : putDigits width 0 = [] := by cases width <;> rfl
      refine ⟨⟨n % 10, Nat.mod_lt _ (by decide)⟩, [], ?_, ?_, ?_⟩
      · intro heq
        have := congrArg Fin.val heq
        simp only [Fin.val_zero] at this
        omega
      · rw [hzero, hnil]
        rfl
      · simp
        omega
    · rw [pow_succ] at hlt
      obtain ⟨first, rest, hfirst, htext, hvalue⟩ := ih (n := n / 10) (by omega) (by omega)
      refine ⟨first, rest ++ [⟨n % 10, Nat.mod_lt _ (by decide)⟩], hfirst, ?_, ?_⟩
      · rw [htext, ← cons_append, map_append]
        rfl
      · rw [← cons_append, foldl_append, hvalue]
        simp
        omega

theorem putUnsigned_number {n : ℕ} (hlt : n < 10 ^ 12) :
    ∃ i : IntPart, i.text = putUnsigned n ∧ i.value = n := by
  unfold putUnsigned
  split
  · rename_i hzero
    exact ⟨.zero, rfl, hzero.symm⟩
  · rename_i hpos
    obtain ⟨first, rest, hfirst, htext, hvalue⟩ := putDigits_number (pos_of_ne_zero hpos) hlt
    exact ⟨.digits first hfirst rest, htext.symm, hvalue⟩

theorem intText_number (value : BitVec 32) : ∃ m : Number, m.text = intText value.toInt ∧
    m.fraction = none ∧ m.exponent = none ∧ m.intValue = value.toInt := by
  have hlow := BitVec.le_toInt value
  have hhigh := @BitVec.toInt_lt 32 value
  generalize value.toInt = z at hlow hhigh
  by_cases hneg : z < 0
  · obtain ⟨i, htext, hvalue⟩ := putUnsigned_number (n := (-(z + 1)).toNat + 1) (by omega)
    refine ⟨⟨true, i, none, none⟩, ?_, rfl, rfl, ?_⟩
    · simp [Number.text, htext, intText, hneg]
    · simp only [Number.intValue, if_true, hvalue]
      omega
  · obtain ⟨i, htext, hvalue⟩ := putUnsigned_number (n := z.toNat) (by omega)
    refine ⟨⟨false, i, none, none⟩, ?_, rfl, rfl, ?_⟩
    · simp [Number.text, htext, intText, hneg]
    · simp only [Number.intValue, Bool.false_eq_true, if_false, hvalue]
      omega

mutual

theorem Tree.text_document (t : Tree) :
    ∃ d : Document, d.text = t.text ∧ t.Describes WrittenAs d.value := by
  cases t with
  | string value =>
    obtain ⟨s, hs⟩ := writeEscaped_items value
    exact ⟨⟨noWs, .string s, noWs⟩, (append_nil _).trans hs.text, .string hs⟩
  | int value =>
    obtain ⟨m, htext, hfraction, hexponent, hvalue⟩ := intText_number value
    exact ⟨⟨noWs, .number m, noWs⟩, (append_nil _).trans htext,
      .int hfraction hexponent hvalue⟩
  | bool value =>
    refine ⟨⟨noWs, _, noWs⟩, ?_, .bool value⟩
    cases value <;> rfl
  | raw d => exact ⟨d, rfl, .raw d⟩
  | array trees =>
    obtain ⟨elems, htext, helems⟩ := Trees.text_elems trees true
    refine ⟨⟨noWs, .array noWs elems, noWs⟩, ?_, .array helems⟩
    simp [Document.text, Value.text, noWs, htext, Tree.text]
  | object fields =>
    obtain ⟨members, htext, hmembers⟩ := Fields.text_members fields true
    refine ⟨⟨noWs, .object noWs members, noWs⟩, ?_, .object hmembers⟩
    simp [Document.text, Value.text, noWs, htext, Tree.text]

theorem Trees.text_elems (trees : Trees) (first : Bool) :
    ∃ elems : Elems, elems.text first = trees.text first ∧ trees.Describes WrittenAs elems := by
  cases trees with
  | nil => exact ⟨.nil, rfl, .nil⟩
  | cons t rest =>
    obtain ⟨d, htext, hd⟩ := Tree.text_document t
    obtain ⟨elems, helemsText, helems⟩ := Trees.text_elems rest false
    refine ⟨.cons d.before d.value d.after elems, ?_, .cons hd helems⟩
    simp [Elems.text, Trees.text, ← htext, Document.text, helemsText]

theorem Fields.text_members (fields : Fields) (first : Bool) :
    ∃ members : Members, members.text first = fields.text first ∧
      fields.Describes WrittenAs members := by
  cases fields with
  | nil => exact ⟨.nil, rfl, .nil⟩
  | cons name t rest =>
    obtain ⟨key, hkey⟩ := writeEscaped_items name
    obtain ⟨d, htext, hd⟩ := Tree.text_document t
    obtain ⟨members, hmembersText, hmembers⟩ := Fields.text_members rest false
    refine ⟨.cons noWs key noWs d.before d.value d.after members, ?_, .cons hkey hd hmembers⟩
    simp [Members.text, Fields.text, noWs, hkey.text, ← htext, Document.text, hmembersText]

end

theorem ValidUtf8.append {x y : List UInt8} (hx : ValidUtf8 x) (hy : ValidUtf8 y) :
    ValidUtf8 (x ++ y) := by
  obtain ⟨l, rfl⟩ := hx
  obtain ⟨m, rfl⟩ := hy
  exact ⟨l ++ m, flatMap_append.symm⟩

theorem ValidUtf8.nil : ValidUtf8 [] := ⟨[], rfl⟩

theorem ValidUtf8.cons {b : UInt8} {x : List UInt8} (hb : b < 128) (hx : ValidUtf8 x) :
    ValidUtf8 (b :: x) := by
  obtain ⟨l, rfl⟩ := hx
  exact ⟨Char.ofNat b.toNat :: l, by simp [encode_byte hb]⟩

theorem ValidUtf8.ascii {x : List UInt8} (h : ∀ b ∈ x, b < 128) : ValidUtf8 x := by
  induction x with
  | nil => exact .nil
  | cons b x ih =>
    obtain ⟨hb, hx⟩ := forall_mem_cons.mp h
    exact (ih hx).cons hb

theorem Item.validUtf8 (i : Item) : ValidUtf8 i.text := by
  cases i with
  | plain c hc => exact ⟨[c], by simp [Item.text]⟩
  | escape e => exact .ascii (by cases e <;> decide +kernel)
  | unit u =>
    have hhex : ∀ h : Hex, h.byte < 128 := by
      rintro ⟨digit, upper⟩
      revert digit upper
      decide
    apply ValidUtf8.ascii
    simp [Item.text, CodeUnit.bytes, hhex]

theorem quoted_validUtf8 (s : List Item) : ValidUtf8 (quoted s) := by
  have hitems : ValidUtf8 (itemsText s) := by
    induction s with
    | nil => exact .nil
    | cons i s ih => exact i.validUtf8.append ih
  exact (hitems.append (.cons (by decide) .nil)).cons (by decide)

theorem Ws.validUtf8 (w : Ws) : ValidUtf8 w.val := by
  apply ValidUtf8.ascii
  intro b hb
  rcases w.property b hb with rfl | rfl | rfl | rfl <;> decide

theorem separator_validUtf8 (first : Bool) : ValidUtf8 (separator first) := by
  cases first <;> exact .ascii (by decide +kernel)

theorem IsPrimitive.validUtf8 {kind : Kind} {w : List UInt8} (h : IsPrimitive kind w) :
    ValidUtf8 w := by
  apply ValidUtf8.ascii
  intro b hb
  have := (h.2 b hb).2
  simp only [not_or, UInt8.not_le] at this
  exact UInt8.lt_trans this.2 (by decide)

mutual

/-- A JSON text is UTF-8. -/
theorem Value.validUtf8 (v : Value) : ValidUtf8 v.text := by
  cases v with
  | literal l => exact l.isPrimitive.validUtf8
  | number m => exact m.isPrimitive.validUtf8
  | string s => exact quoted_validUtf8 s
  | array w elems =>
    have hbody := (Ws.validUtf8 w).append (elems.validUtf8 true)
    exact (hbody.append (.cons (by decide) .nil)).cons (by decide)
  | object w members =>
    have hbody := (Ws.validUtf8 w).append (members.validUtf8 true)
    exact (hbody.append (.cons (by decide) .nil)).cons (by decide)

theorem Elems.validUtf8 (elems : Elems) (first : Bool) : ValidUtf8 (elems.text first) := by
  cases elems with
  | nil => exact .nil
  | cons before v after rest =>
    exact ((((separator_validUtf8 first).append (Ws.validUtf8 before)).append v.validUtf8).append
      (Ws.validUtf8 after)).append (rest.validUtf8 false)

theorem Members.validUtf8 (members : Members) (first : Bool) : ValidUtf8 (members.text first) := by
  cases members with
  | nil => exact .nil
  | cons before key afterKey beforeValue v after rest =>
    exact ((((separator_validUtf8 first).append (Ws.validUtf8 before)).append
      (quoted_validUtf8 key)).append (Ws.validUtf8 afterKey)).append (.cons (by decide)
        ((((Ws.validUtf8 beforeValue).append v.validUtf8).append (Ws.validUtf8 after)).append
          (rest.validUtf8 false)))

end

theorem Document.validUtf8 (d : Document) : ValidUtf8 d.text :=
  ((Ws.validUtf8 d.before).append d.value.validUtf8).append (Ws.validUtf8 d.after)

theorem Value.text_ne_nil (v : Value) : v.text ≠ [] := by
  have hprimitive : ∀ {kind : Kind} {w : List UInt8}, IsPrimitive kind w → w ≠ [] := by
    rintro kind w ⟨⟨c, hc, -⟩, -⟩ rfl
    cases hc
  cases v with
  | literal l => exact hprimitive l.isPrimitive
  | number m => exact hprimitive m.isPrimitive
  | string s => simp [Value.text, quoted]
  | array w elems => simp [Value.text]
  | object w members => simp [Value.text]

/-- A document made by calls is finished as its text is. -/
theorem written_finish (cap : ℕ) (t : Tree) : (written cap t).finish = finish cap t.text := by
  obtain ⟨d, hd, -⟩ := t.text_document
  have hpos : 0 < t.text.length := by
    rw [← hd, length_pos_iff]
    simp [Document.text, d.value.text_ne_nil]
  rw [written_eq]
  simp only [Writer.finish, finish]
  split_ifs <;> simp_all
  omega

/-- The object with one string is the one that the calls for it put. -/
theorem written_writeField (cap : ℕ) (key text : List UInt8) :
    (written cap (.object (.cons key (.string text) .nil))).finish =
      finish cap (writeField key text) := by
  rw [written_finish]
  simp [Tree.text, Fields.text, separator, writeField]

/-- Calls that describe a tree never count a byte past the buffer; they fail iff the text does not
fit, and otherwise leave a JSON text for the tree, in which a string is the given one with what is
not UTF-8 replaced. -/
theorem written_document (cap : ℕ) (t : Tree) : (written cap t).buf.length ≤ cap - 1 ∧
      ((written cap t).finish = none ↔ cap ≤ t.text.length) ∧
      ∀ text, (written cap t).finish = some text → ValidUtf8 text ∧
        ∃ d : Document, d.text = text ∧ t.Describes WrittenAs d.value := by
  obtain ⟨d, hd, hdescribes⟩ := t.text_document
  rw [written_finish]
  refine ⟨by simp [written_eq], by simp [finish], fun text htext => ?_⟩
  obtain ⟨-, htext⟩ := Option.ite_none_right_eq_some.mp htext
  obtain rfl := Option.some.inj htext
  exact ⟨hd ▸ d.validUtf8, d, hd, hdescribes⟩

/-- The tree of `{"k":[-5,true]}`. -/
def sampleTree : Tree :=
  .object (.cons [107] (.array (.cons (.int (-5)) (.cons (.bool true) .nil))) .nil)

theorem sampleTree_written :
    (written 64 sampleTree).finish = some (ascii "\x7b\"k\":[-5,true]\x7d") ∧
      ValidUtf8 (ascii "\x7b\"k\":[-5,true]\x7d") ∧
      ∃ d : Document, d.text = ascii "\x7b\"k\":[-5,true]\x7d" ∧
        sampleTree.Describes WrittenAs d.value := by
  have hfinish : (written 64 sampleTree).finish = some (ascii "\x7b\"k\":[-5,true]\x7d") := by
    decide +kernel
  exact ⟨hfinish, (written_document 64 sampleTree).2.2 _ hfinish⟩

theorem repaired_nil {out : List UInt8} (h : Repaired [] out) : out = [] := by
  generalize htext : ([] : List UInt8) = text at h
  cases h with
  | nil => rfl
  | char ch _ => exact absurd (append_eq_nil_iff.mp htext.symm).1 (utf8EncodeChar_ne_nil ch)
  | piece hne _ _ _ => exact absurd (append_eq_nil_iff.mp htext.symm).1 hne

theorem not_startsChar_truncated : ¬ StartsChar [0xE3, 0x81] ∧ ¬ StartsChar [0x81] := by
  constructor
  · intro h
    exact absurd (startsChar_decode (by decide) h) (by decide)
  · intro h
    exact absurd (startsChar_decode (by decide) h) (by decide)

/-- The first two of three bytes are one longest piece that is not UTF-8; the string that is written
for it has two replacement characters. -/
theorem truncated_replaced_twice :
    (written 64 (.string [0xE3, 0x81])).finish = some (ascii "\"\\ufffd\\ufffd\"") ∧
      (∃ s, quoted s = ascii "\"\\ufffd\\ufffd\"" ∧ decoded s = replacement ++ replacement) ∧
      Repaired [0xE3, 0x81] replacement ∧
      ¬ Repaired [0xE3, 0x81] (replacement ++ replacement) := by
  obtain ⟨hwhole, htail⟩ := not_startsChar_truncated
  refine ⟨by decide +kernel, ⟨[.unit replacementUnit, .unit replacementUnit], by decide, by decide⟩,
    ?_, ?_⟩
  · have hpiece : ([0xE3, 0x81] : List UInt8) ≠ [] := by simp
    refine Repaired.piece (t := []) hpiece ?_ (.inl rfl) .nil
    intro i hi
    match i, hi with
    | 0, _ => exact hwhole
    | 1, _ => exact htail
  · intro h
    generalize htext : ([0xE3, 0x81] : List UInt8) = text at h
    generalize hout : replacement ++ replacement = out at h
    cases h with
    | nil => cases htext
    | char ch _ => exact hwhole ⟨ch, htext ▸ prefix_append _ _⟩
    | @piece piece t out hne _ hend hrest =>
      rcases hend with rfl | ⟨ch, u, rfl⟩
      · obtain rfl := repaired_nil hrest
        cases hout
      · -- a character in what is left would be in the piece as well
        match piece, hne, htext with
        | [_], _, htext => exact htail ⟨ch, u, (cons.inj htext).2.symm⟩
        | [_, _], _, htext =>
          have : [] = String.utf8EncodeChar ch ++ u := (cons.inj (cons.inj htext).2).2
          exact utf8EncodeChar_ne_nil ch (append_eq_nil_iff.mp this.symm).1

/-- What the writer reports as finished is parsed, into one token for each value and key, and every
string in it is read as it was given, with what is not UTF-8 replaced. -/
theorem written_read_back (cap : ℕ) (t : Tree) :
    match (written cap t).finish with
    | none => cap ≤ t.text.length
    | some text => text = t.text ∧ text.length < cap ∧
        ∃ d : Document, t.Describes WrittenAs d.value ∧
        parse text d.value.count = .ok d.tokens ∧ d.tokens.length = d.value.count ∧
        ∀ idx s, d.HoldsString idx s → ∃ token, d.tokens[idx]? = some token ∧
          tokenStr text token ((decoded s).length + 1) = some (decoded s) := by
  obtain ⟨d, hd, hdescribes⟩ := t.text_document
  rw [written_finish, finish]
  split_ifs with hfits
  · refine ⟨rfl, hfits, d, hdescribes, hd ▸ parse_document d le_rfl,
      d.value.length_tokens _ _ _, ?_⟩
    intro idx s hs
    obtain ⟨token, htoken, hread⟩ := tokenStr_stands hs.stands
    exact ⟨token, htoken, hd ▸ hread _ (Nat.lt_succ_self _)⟩
  · exact not_lt.mp hfits

end Sodex.Json
