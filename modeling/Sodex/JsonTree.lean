import Sodex.JsonRounds
import Sodex.JsonStrings

/-!
# The tokens of a JSON text

The tokenizer makes of every text of the grammar the list of its values and keys, in the order of
the text, each with the number of its children.
-/
namespace Sodex.Json

open CText

variable {js rest w : List UInt8} {n pos base : ℕ} {sup : Option ℕ} {ts A B : List Token} {t : Token}

mutual

/-- The tokens of a value at the position `pos`, the first one with the index `base`. -/
def Value.tokens (pos : ℕ) (parent : Option ℕ) (base : ℕ) : Value → List Token
  | .literal l => [⟨l.kind, pos, some (pos + l.text.length), 0, parent⟩]
  | .number n => [⟨.number, pos, some (pos + n.text.length), 0, parent⟩]
  | .string s => [⟨.string, pos + 1, some (pos + 1 + (itemsText s).length), 0, parent⟩]
  | .array w elems =>
    ⟨.array, pos, some (pos + (Value.array w elems).text.length), elems.length, parent⟩ ::
      elems.tokens true (pos + 1 + w.val.length) base (base + 1)
  | .object w members =>
    ⟨.object, pos, some (pos + (Value.object w members).text.length), members.length, parent⟩ ::
      members.tokens true (pos + 1 + w.val.length) base (base + 1)

def Elems.tokens (first : Bool) (pos parent base : ℕ) : Elems → List Token
  | .nil => []
  | .cons before v after rest =>
    v.tokens (pos + (separator first ++ before.val).length) (some parent) base ++
      rest.tokens false
        (pos + (separator first ++ before.val).length + v.text.length + after.val.length) parent
        (base + v.count)

def Members.tokens (first : Bool) (pos parent base : ℕ) : Members → List Token
  | .nil => []
  | .cons before key afterKey beforeValue v after rest =>
    ⟨.string, pos + (separator first ++ before.val).length + 1,
        some (pos + (separator first ++ before.val).length + 1 + (itemsText key).length), 1,
        some parent⟩ ::
      (v.tokens (pos + (separator first ++ before.val).length + (quoted key).length +
          (afterKey.val.length + 1 + beforeValue.val.length)) (some base) (base + 1) ++
        rest.tokens false (pos + (separator first ++ before.val).length + (quoted key).length +
          (afterKey.val.length + 1 + beforeValue.val.length) + v.text.length + after.val.length)
          parent (base + 1 + v.count))

end

mutual

theorem Value.length_tokens (v : Value) (pos : ℕ) (parent : Option ℕ) (base : ℕ) :
    (v.tokens pos parent base).length = v.count := by
  cases v with
  | literal l => rfl
  | number n => rfl
  | string s => rfl
  | array w elems =>
    rw [Value.tokens, Value.count, List.length_cons, Elems.length_tokens elems]
  | object w members =>
    rw [Value.tokens, Value.count, List.length_cons, Members.length_tokens members]

theorem Elems.length_tokens (elems : Elems) (first : Bool) (pos parent base : ℕ) :
    (elems.tokens first pos parent base).length = elems.count := by
  cases elems with
  | nil => rfl
  | cons before v after rest =>
    rw [Elems.tokens, Elems.count, List.length_append, Value.length_tokens v,
      Elems.length_tokens rest]

theorem Members.length_tokens (members : Members) (first : Bool) (pos parent base : ℕ) :
    (members.tokens first pos parent base).length = members.count := by
  cases members with
  | nil => rfl
  | cons before key afterKey beforeValue v after rest =>
    rw [Members.tokens, Members.count, List.length_cons, List.length_append,
      Value.length_tokens v, Members.length_tokens rest]
    omega

end

mutual

theorem Value.closed (v : Value) (pos : ℕ) (parent : Option ℕ) (base : ℕ) :
    ∀ t ∈ v.tokens pos parent base, t.stop.isSome = true := by
  cases v with
  | literal l => simp [Value.tokens]
  | number n => simp [Value.tokens]
  | string s => simp [Value.tokens]
  | array w elems =>
    rw [Value.tokens]
    exact List.forall_mem_cons.mpr ⟨rfl, Elems.closed elems _ _ _ _⟩
  | object w members =>
    rw [Value.tokens]
    exact List.forall_mem_cons.mpr ⟨rfl, Members.closed members _ _ _ _⟩

theorem Elems.closed (elems : Elems) (first : Bool) (pos parent base : ℕ) :
    ∀ t ∈ elems.tokens first pos parent base, t.stop.isSome = true := by
  cases elems with
  | nil => simp [Elems.tokens]
  | cons before v after rest =>
    rw [Elems.tokens]
    exact List.forall_mem_append.mpr ⟨Value.closed v _ _ _, Elems.closed rest _ _ _ _⟩

theorem Members.closed (members : Members) (first : Bool) (pos parent base : ℕ) :
    ∀ t ∈ members.tokens first pos parent base, t.stop.isSome = true := by
  cases members with
  | nil => simp [Members.tokens]
  | cons before key afterKey beforeValue v after rest =>
    rw [Members.tokens]
    refine List.forall_mem_cons.mpr ⟨rfl, ?_⟩
    exact List.forall_mem_append.mpr ⟨Value.closed v _ _ _, Members.closed rest _ _ _ _⟩

end

section Drop

variable {α : Type*} {l m r : List α} {i : ℕ} {x : α}

theorem getElem?_of_drop (h : l.drop i = x :: r) : l[i]? = some x := by
  rw [← List.head?_drop, h, List.head?_cons]

theorem drop_of_drop (h : l.drop i = m ++ r) : l.drop (i + m.length) = r := by
  rw [← List.drop_drop, h, List.drop_left]

theorem drop_succ_of_drop (h : l.drop i = x :: r) : l.drop (i + 1) = r :=
  drop_of_drop (m := [x]) h

end Drop

theorem Rounds.of_parseChar {c : UInt8} {p q : Parser} (hc : js[p.pos]? = some c)
    (hp : parseChar js n p c = .ok q) : Rounds js n p { q with pos := q.pos + 1 } :=
  .single ⟨c, q, hc, hp, rfl⟩

/-- White space is skipped. -/
theorem rounds_ws (w : Ws) (h : js.drop pos = w.val ++ rest) :
    Rounds js n ⟨pos, ts, sup⟩ ⟨pos + w.val.length, ts, sup⟩ := by
  obtain ⟨w, hw⟩ := w
  induction w generalizing pos with
  | nil => exact .refl
  | cons c w ih =>
    obtain ⟨hc, hw⟩ := List.forall_mem_cons.mp hw
    have hblank : parseChar js n ⟨pos, ts, sup⟩ c = .ok ⟨pos, ts, sup⟩ := by
      rcases hc with rfl | rfl | rfl | rfl <;> rfl
    have hfirst : Rounds js n ⟨pos, ts, sup⟩ ⟨pos + 1, ts, sup⟩ :=
      .of_parseChar (getElem?_of_drop h) hblank
    have hrest := ih hw (drop_succ_of_drop h)
    rw [List.length_cons, Nat.add_comm w.length 1, ← Nat.add_assoc]
    exact hfirst.trans hrest

theorem round_comma {i : ℕ} (h : js.drop pos = 44 :: rest)
    (hopen : lastOpen isContainer ts = some i) :
    Rounds js n ⟨pos, ts, sup⟩ ⟨pos + 1, ts, some i⟩ := by
  refine .of_parseChar (p := ⟨pos, ts, sup⟩) (q := ⟨pos, ts, some i⟩) (getElem?_of_drop h) ?_
  simp [parseChar, hopen]

/-- After a colon the last token counts the children. -/
theorem round_colon (h : js.drop pos = 58 :: rest) :
    Rounds js n ⟨pos, ts ++ [t], sup⟩ ⟨pos + 1, ts ++ [t], some ts.length⟩ := by
  refine .of_parseChar (p := ⟨pos, ts ++ [t], sup⟩) (q := ⟨pos, ts ++ [t], some ts.length⟩)
    (getElem?_of_drop h) ?_
  simp [parseChar]

theorem rounds_string (s : List Item) (h : js.drop pos = quoted s ++ rest)
    (hroom : ts.length < n) (hsup : ∀ i, sup = some i → i < ts.length) :
    Rounds js n ⟨pos, ts, sup⟩ ⟨pos + (quoted s).length,
      countIn sup ts ++ [⟨.string, pos + 1, some (pos + 1 + (itemsText s).length), 0, sup⟩],
      sup⟩ := by
  have hbody : js.drop (pos + 1) = itemsText s ++ 34 :: rest := by
    rw [drop_succ_of_drop (x := 34) h]
    exact List.append_assoc _ [34] rest
  have hstring : parseString js n ⟨pos, ts, sup⟩ = .ok ⟨pos + 1 + (itemsText s).length,
      ts ++ [⟨.string, pos + 1, some (pos + 1 + (itemsText s).length), 0, sup⟩], sup⟩ := by
    rw [parseString, hbody, scanString_items]
    simp only [Parser.alloc, if_neg (Nat.not_le.mpr hroom)]
  have hchar : parseChar js n ⟨pos, ts, sup⟩ 34 = .ok ⟨pos + 1 + (itemsText s).length,
      countIn sup ts ++ [⟨.string, pos + 1, some (pos + 1 + (itemsText s).length), 0, sup⟩],
      sup⟩ := by
    simp only [parseChar, hstring, Except.map, countChild_eq, countIn_append hsup]
    rfl
  have hlen : pos + 1 + (itemsText s).length + 1 = pos + (quoted s).length := by
    simp [quoted]
    omega
  rw [← hlen]
  exact .of_parseChar (getElem?_of_drop h) hchar

/-- A text that `parse_primitive` takes for a primitive. -/
def IsPrimitive (kind : Kind) (w : List UInt8) : Prop :=
  (∃ c, w.head? = some c ∧ primitiveKind c = some kind) ∧
    ∀ b ∈ w, endsPrimitive b = false ∧ ¬(b < 32 ∨ 127 ≤ b)

/-- The text goes on with a byte that ends a primitive, or not at all. -/
def Delimited (rest : List UInt8) : Prop := ∀ c, rest.head? = some c → endsPrimitive c = true

theorem scanPrimitive_text (hw : ∀ b ∈ w, endsPrimitive b = false ∧ ¬(b < 32 ∨ 127 ≤ b))
    (hrest : Delimited rest) : scanPrimitive (w ++ rest) pos = .ok (pos + w.length) := by
  induction w generalizing pos with
  | nil =>
    cases rest with
    | nil => rfl
    | cons c rest => rw [List.nil_append, scanPrimitive, if_pos (hrest c rfl)]; rfl
  | cons b w ih =>
    obtain ⟨⟨hends, hplain⟩, hw⟩ := List.forall_mem_cons.mp hw
    rw [List.cons_append, scanPrimitive, hends, if_neg Bool.false_ne_true, if_neg hplain, ih hw,
      List.length_cons]
    congr 1
    omega

theorem parseChar_primitive {c : UInt8} {kind : Kind} {p : Parser}
    (h : primitiveKind c = some kind) :
    parseChar js n p c = (parsePrimitive js n p c).map Parser.countChild := by
  have hne : ∀ b, primitiveKind b = none → c ≠ b := by
    rintro b hb rfl
    rw [hb] at h
    cases h
  simp [parseChar, hne 123 (by decide), hne 91 (by decide), hne 125 (by decide),
    hne 93 (by decide), hne 34 (by decide), hne 9 (by decide), hne 13 (by decide),
    hne 10 (by decide), hne 32 (by decide), hne 58 (by decide), hne 44 (by decide)]

theorem rounds_primitive {kind : Kind} (hw : IsPrimitive kind w) (h : js.drop pos = w ++ rest)
    (hrest : Delimited rest) (hroom : ts.length < n)
    (hsup : ∀ i, sup = some i → i < ts.length) :
    Rounds js n ⟨pos, ts, sup⟩ ⟨pos + w.length,
      countIn sup ts ++ [⟨kind, pos, some (pos + w.length), 0, sup⟩], sup⟩ := by
  obtain ⟨⟨c, hc, hkind⟩, hbytes⟩ := hw
  obtain ⟨w', rfl⟩ : ∃ w', w = c :: w' := List.head?_eq_some_iff.mp hc
  have hprim : parsePrimitive js n ⟨pos, ts, sup⟩ c = .ok ⟨pos + (c :: w').length - 1,
      ts ++ [⟨kind, pos, some (pos + (c :: w').length), 0, sup⟩], sup⟩ := by
    simp only [parsePrimitive, hkind, h, scanPrimitive_text hbytes hrest, Parser.alloc,
      if_neg (Nat.not_le.mpr hroom)]
  have hchar : parseChar js n ⟨pos, ts, sup⟩ c = .ok ⟨pos + (c :: w').length - 1,
      countIn sup ts ++ [⟨kind, pos, some (pos + (c :: w').length), 0, sup⟩], sup⟩ := by
    simp only [parseChar_primitive hkind, hprim, Except.map, countChild_eq, countIn_append hsup]
  have hlen : pos + (c :: w').length - 1 + 1 = pos + (c :: w').length := by
    rw [List.length_cons]
    omega
  have hround := Rounds.of_parseChar (p := ⟨pos, ts, sup⟩) (getElem?_of_drop h) hchar
  rwa [hlen] at hround

theorem Literal.isPrimitive (l : Literal) : IsPrimitive l.kind l.text := by
  cases l
  · exact ⟨⟨116, rfl, rfl⟩, by decide +kernel⟩
  · exact ⟨⟨102, rfl, rfl⟩, by decide +kernel⟩
  · exact ⟨⟨110, rfl, rfl⟩, by decide +kernel⟩

def isNumberByte (b : UInt8) : Bool := b ∈ ascii "0123456789+-.eE"

theorem isNumberByte_digit (d : Fin 10) : isNumberByte (digitByte d) = true := by
  revert d
  decide

theorem isNumberByte_digits (l : List (Fin 10)) : ∀ b ∈ l.map digitByte, isNumberByte b = true := by
  intro b hb
  obtain ⟨d, -, rfl⟩ := List.mem_map.mp hb
  exact isNumberByte_digit d

theorem IntPart.bytes (i : IntPart) : ∀ b ∈ i.text, isNumberByte b = true := by
  cases i with
  | zero => decide +kernel
  | digits first hfirst rest => exact isNumberByte_digits _

theorem Exponent.bytes (e : Exponent) : ∀ b ∈ e.text, isNumberByte b = true := by
  rw [Exponent.text]
  refine List.forall_mem_cons.mpr ⟨?_, List.forall_mem_append.mpr ⟨?_, isNumberByte_digits _⟩⟩
  · cases e.upper <;> decide
  · match e.sign with
    | none => decide +kernel
    | some true => decide +kernel
    | some false => decide +kernel

theorem Number.bytes (m : Number) : ∀ b ∈ m.text, isNumberByte b = true := by
  rw [Number.text]
  refine List.forall_mem_append.mpr ⟨List.forall_mem_append.mpr
    ⟨List.forall_mem_append.mpr ⟨?_, m.int.bytes⟩, ?_⟩, ?_⟩
  · cases m.minus <;> decide +kernel
  · match m.fraction with
    | none => decide +kernel
    | some d => exact List.forall_mem_cons.mpr ⟨by decide, isNumberByte_digits _⟩
  · match m.exponent with
    | none => decide +kernel
    | some e => exact e.bytes

theorem primitiveKind_digit (d : Fin 10) : primitiveKind (digitByte d) = some .number := by
  revert d
  decide

theorem Number.isPrimitive (m : Number) : IsPrimitive .number m.text := by
  constructor
  · cases hminus : m.minus with
    | true => exact ⟨45, by simp [Number.text, hminus], rfl⟩
    | false =>
      cases hint : m.int with
      | zero => exact ⟨48, by simp [Number.text, hminus, hint, IntPart.text], rfl⟩
      | digits first hfirst rest =>
        exact ⟨digitByte first, by simp [Number.text, hminus, hint, IntPart.text],
          primitiveKind_digit first⟩
  · intro b hb
    have hnumber := m.bytes b hb
    have hall : ∀ b ∈ ascii "0123456789+-.eE",
        endsPrimitive b = false ∧ ¬(b < 32 ∨ 127 ≤ b) := by decide +kernel
    exact hall b (of_decide_eq_true hnumber)

theorem Delimited.ws (w : Ws) (h : Delimited rest) : Delimited (w.val ++ rest) := by
  obtain ⟨w, hw⟩ := w
  cases w with
  | nil => exact h
  | cons c w =>
    intro b hb
    obtain rfl : c = b := Option.some.inj hb
    rcases hw c List.mem_cons_self with rfl | rfl | rfl | rfl <;> rfl

theorem Elems.delimited (elems : Elems) : Delimited (elems.text false ++ 93 :: rest) := by
  intro c hc
  cases elems with
  | nil =>
    obtain rfl : 93 = c := Option.some.inj hc
    rfl
  | cons before v after elems =>
    obtain rfl : 44 = c := Option.some.inj (by simpa [Elems.text, separator] using hc)
    rfl

theorem Members.delimited (members : Members) : Delimited (members.text false ++ 125 :: rest) := by
  intro c hc
  cases members with
  | nil =>
    obtain rfl : 125 = c := Option.some.inj hc
    rfl
  | cons before key afterKey beforeValue v after members =>
    obtain rfl : 44 = c := Option.some.inj (by simpa [Members.text, separator] using hc)
    rfl

/-- The container that is being read is the last one that is open. -/
theorem lastOpen_at {want : Kind → Bool} (ht : t.opens want = true)
    (hB : ∀ u ∈ B, u.stop.isSome = true) : lastOpen want (A ++ t :: B) = some A.length := by
  refine (lastOpen_eq_iff ht).mpr fun u hu => ?_
  obtain ⟨stop, hstop⟩ := Option.isSome_iff_exists.mp (hB u hu)
  simp [Token.opens, hstop]

theorem round_open {c : UInt8} {kind : Kind} (h : js.drop pos = c :: rest)
    (hc : ∀ p, parseChar js n p c = openContainer n kind p) (hroom : ts.length < n)
    (hsup : ∀ i, sup = some i → i < ts.length) :
    Rounds js n ⟨pos, ts, sup⟩
      ⟨pos + 1, countIn sup ts ++ [⟨kind, pos, none, 0, sup⟩], some (countIn sup ts).length⟩ := by
  refine .of_parseChar (p := ⟨pos, ts, sup⟩)
    (q := ⟨pos, countIn sup ts ++ [⟨kind, pos, none, 0, sup⟩], some (countIn sup ts).length⟩)
    (getElem?_of_drop h) ?_
  have hlen := length_countIn sup ts
  simp only [hc, openContainer, Parser.alloc, if_neg (Nat.not_le.mpr hroom), countChild_eq,
    countIn_append hsup, hlen]

theorem round_close {c : UInt8} {kind : Kind} (h : js.drop pos = c :: rest)
    (hc : ∀ p, parseChar js n p c = closeContainer kind p) (hkind : t.kind = kind)
    (hopen : t.stop = none) (hB : ∀ u ∈ B, u.stop.isSome = true) :
    Rounds js n ⟨pos, A ++ t :: B, sup⟩
      ⟨pos + 1, A ++ { t with stop := some (pos + 1) } :: B, t.parent⟩ := by
  refine .of_parseChar (p := ⟨pos, A ++ t :: B, sup⟩)
    (q := ⟨pos, A ++ { t with stop := some (pos + 1) } :: B, t.parent⟩) (getElem?_of_drop h) ?_
  have hlast : lastOpen (· = kind) (A ++ t :: B) = some A.length :=
    lastOpen_at (by simp [Token.opens, hkind, hopen]) hB
  simp [hc, closeContainer, hlast, modify_append_length]

/-- Before an entry the container counts the children. -/
theorem rounds_separator {first : Bool} (ht : t.opens isContainer = true)
    (hB : ∀ u ∈ B, u.stop.isSome = true) (hsup : first = true → sup = some A.length)
    (h : js.drop pos = separator first ++ rest) :
    Rounds js n ⟨pos, A ++ t :: B, sup⟩
      ⟨pos + (separator first).length, A ++ t :: B, some A.length⟩ := by
  cases first with
  | true =>
    rw [hsup rfl]
    exact .refl
  | false => exact round_comma h (lastOpen_at ht hB)

theorem rounds_before {first : Bool} (before : Ws) (ht : t.opens isContainer = true)
    (hB : ∀ u ∈ B, u.stop.isSome = true) (hsup : first = true → sup = some A.length)
    (h : js.drop pos = separator first ++ before.val ++ rest) :
    Rounds js n ⟨pos, A ++ t :: B, sup⟩
      ⟨pos + (separator first ++ before.val).length, A ++ t :: B, some A.length⟩ := by
  rw [List.append_assoc] at h
  have hws : Rounds js n ⟨pos + (separator first).length, A ++ t :: B, some A.length⟩
      ⟨pos + (separator first).length + before.val.length, A ++ t :: B, some A.length⟩ :=
    rounds_ws before (drop_of_drop h)
  rw [Nat.add_assoc, ← List.length_append] at hws
  exact (rounds_separator ht hB hsup h).trans hws

theorem rounds_container {c e : UInt8} {kind : Kind} (w : Ws) {body : List UInt8} {size : ℕ}
    {more : List Token} (h : js.drop pos = c :: (w.val ++ (body ++ e :: rest)))
    (hc : ∀ p, parseChar js n p c = openContainer n kind p)
    (he : ∀ p, parseChar js n p e = closeContainer kind p) (hroom : ts.length < n)
    (hsup : ∀ i, sup = some i → i < ts.length) (hmore : ∀ u ∈ more, u.stop.isSome = true)
    (hentries : ∃ sup', Rounds js n
      ⟨pos + 1 + w.val.length, countIn sup ts ++ [⟨kind, pos, none, 0, sup⟩],
        some (countIn sup ts).length⟩
      ⟨pos + 1 + w.val.length + body.length,
        countIn sup ts ++ ⟨kind, pos, none, 0 + size, sup⟩ :: ([] ++ more), sup'⟩) :
    Rounds js n ⟨pos, ts, sup⟩ ⟨pos + (c :: (w.val ++ body ++ [e])).length,
      countIn sup ts ++
        ⟨kind, pos, some (pos + (c :: (w.val ++ body ++ [e])).length), size, sup⟩ :: more,
      sup⟩ := by
  obtain ⟨sup', hentries⟩ := hentries
  rw [Nat.zero_add, List.nil_append] at hentries
  have hbody := drop_succ_of_drop h
  have hclose := drop_of_drop (drop_of_drop hbody)
  have hlen : pos + (c :: (w.val ++ body ++ [e])).length =
      pos + 1 + w.val.length + body.length + 1 := by
    simp
    omega
  rw [hlen]
  refine (round_open h hc hroom hsup).trans ?_
  refine (rounds_ws w hbody).trans (hentries.trans ?_)
  exact round_close hclose he rfl rfl hmore

theorem lt_length_of_eq : ∀ i, some A.length = some i → i < (A ++ t :: B).length := by
  intro i hi
  cases hi
  simp

/-- The rounds at a key, its colon and the white space around. -/
theorem rounds_key {first : Bool} (before : Ws) (key : List Item) (afterKey beforeValue : Ws)
    (ht : t.opens isContainer = true) (hB : ∀ u ∈ B, u.stop.isSome = true)
    (hsup : first = true → sup = some A.length) (hroom : (A ++ t :: B).length < n)
    (h : js.drop pos = separator first ++ before.val ++
      (quoted key ++ (afterKey.val ++ 58 :: (beforeValue.val ++ rest)))) :
    Rounds js n ⟨pos, A ++ t :: B, sup⟩
      ⟨pos + (separator first ++ before.val).length + (quoted key).length +
          (afterKey.val.length + 1 + beforeValue.val.length),
        (A ++ { t with size := t.size + 1 } :: B) ++ [⟨.string,
          pos + (separator first ++ before.val).length + 1,
          some (pos + (separator first ++ before.val).length + 1 + (itemsText key).length), 0,
          some A.length⟩],
        some (A ++ t :: B).length⟩ := by
  have hkey := drop_of_drop h
  have hafter := drop_of_drop hkey
  have hcolon := drop_of_drop hafter
  have hvalue := drop_succ_of_drop hcolon
  have hstring := rounds_string key hkey hroom lt_length_of_eq
  rw [countIn_at] at hstring
  have hlen : (A ++ { t with size := t.size + 1 } :: B).length = (A ++ t :: B).length := by simp
  have hrun := (rounds_before before ht hB hsup h).trans (hstring.trans ((rounds_ws afterKey hafter).trans
    ((round_colon hcolon).trans (rounds_ws beforeValue hvalue))))
  have hend : pos + (separator first ++ before.val).length + (quoted key).length +
      (afterKey.val.length + 1 + beforeValue.val.length) =
      pos + (separator first ++ before.val).length + (quoted key).length + afterKey.val.length + 1 +
        beforeValue.val.length := by omega
  rw [hlen] at hrun
  rw [hend]
  exact hrun

mutual

theorem Value.rounds (v : Value) {pos : ℕ} {rest : List UInt8} {ts : List Token} {sup : Option ℕ}
    (h : js.drop pos = v.text ++ rest) (hrest : Delimited rest) (hroom : ts.length + v.count ≤ n)
    (hsup : ∀ i, sup = some i → i < ts.length) :
    Rounds js n ⟨pos, ts, sup⟩
      ⟨pos + v.text.length, countIn sup ts ++ v.tokens pos sup ts.length, sup⟩ := by
  have hlen := length_countIn sup ts
  cases v with
  | literal l => exact rounds_primitive l.isPrimitive h hrest hroom hsup
  | number m => exact rounds_primitive m.isPrimitive h hrest hroom hsup
  | string s => exact rounds_string s h hroom hsup
  | array w elems =>
    rw [Value.count] at hroom
    have htext : js.drop pos = 91 :: (w.val ++ (elems.text true ++ 93 :: rest)) := by
      simpa [Value.text] using h
    have hstart := drop_of_drop (drop_succ_of_drop htext)
    have hspace (u : Token) : (countIn sup ts ++ [u]).length + elems.count ≤ n := by
      rw [List.length_append, List.length_singleton, hlen]
      omega
    have hvalue := rounds_container w htext (fun p => rfl) (fun p => rfl) (by omega) hsup
      (elems.closed _ _ _ _)
      (Elems.rounds elems hstart rfl rfl (List.forall_mem_nil _) (hspace _) fun _ => rfl)
    rw [hlen] at hvalue
    exact hvalue
  | object w members =>
    rw [Value.count] at hroom
    have htext : js.drop pos = 123 :: (w.val ++ (members.text true ++ 125 :: rest)) := by
      simpa [Value.text] using h
    have hstart := drop_of_drop (drop_succ_of_drop htext)
    have hspace (u : Token) : (countIn sup ts ++ [u]).length + members.count ≤ n := by
      rw [List.length_append, List.length_singleton, hlen]
      omega
    have hvalue := rounds_container w htext (fun p => rfl) (fun p => rfl) (by omega) hsup
      (members.closed _ _ _ _)
      (Members.rounds members hstart rfl rfl (List.forall_mem_nil _) (hspace _) fun _ => rfl)
    rw [hlen] at hvalue
    exact hvalue

theorem Elems.rounds (elems : Elems) {pos : ℕ} {rest : List UInt8} {A B : List Token} {t : Token}
    {sup : Option ℕ} {first : Bool} (h : js.drop pos = elems.text first ++ 93 :: rest)
    (hkind : t.kind = .array) (hopen : t.stop = none) (hB : ∀ u ∈ B, u.stop.isSome = true)
    (hroom : (A ++ t :: B).length + elems.count ≤ n)
    (hsup : first = true → sup = some A.length) :
    ∃ sup', Rounds js n ⟨pos, A ++ t :: B, sup⟩ ⟨pos + (elems.text first).length,
      A ++ { t with size := t.size + elems.length } ::
        (B ++ elems.tokens first pos A.length (A.length + 1 + B.length)), sup'⟩ := by
  cases elems with
  | nil =>
    refine ⟨sup, ?_⟩
    simp only [Elems.text, Elems.length, Elems.tokens, List.length_nil, Nat.add_zero,
      List.append_nil]
    exact .refl
  | cons before v after elems =>
    rw [Elems.count] at hroom
    have ht : t.opens isContainer = true := by simp [Token.opens, hkind, hopen, isContainer]
    have htext : js.drop pos = separator first ++ before.val ++
        (v.text ++ (after.val ++ (elems.text false ++ 93 :: rest))) := by
      simpa [Elems.text] using h
    have hvalue := drop_of_drop htext
    have hafter := drop_of_drop hvalue
    have hbefore := rounds_before (n := n) before ht hB hsup htext
    have hread : Rounds js n
        ⟨pos + (separator first ++ before.val).length, A ++ t :: B, some A.length⟩ _ :=
      Value.rounds v hvalue (elems.delimited.ws after) (by omega) lt_length_of_eq
    rw [countIn_at, List.append_assoc, List.cons_append] at hread
    have hspace : (A ++ { t with size := t.size + 1 } :: (B ++ v.tokens
        (pos + (separator first ++ before.val).length) (some A.length)
        (A ++ t :: B).length)).length + elems.count ≤ n := by
      simp only [List.length_append, List.length_cons, v.length_tokens] at hroom ⊢
      omega
    obtain ⟨sup', hmore⟩ := Elems.rounds elems (t := { t with size := t.size + 1 })
      (drop_of_drop hafter) hkind hopen (List.forall_mem_append.mpr ⟨hB, v.closed _ _ _⟩) hspace
      nofun
    have hrun := hbefore.trans (hread.trans ((rounds_ws after hafter).trans hmore))
    have hbase : A.length + 1 + B.length = (A ++ t :: B).length := by simp; omega
    have hnext : A.length + 1 + (B ++ v.tokens (pos + (separator first ++ before.val).length)
        (some A.length) (A ++ t :: B).length).length = (A ++ t :: B).length + v.count := by
      simp only [List.length_append, List.length_cons, v.length_tokens]
      omega
    have hend : pos + (Elems.text first (.cons before v after elems)).length =
        pos + (separator first ++ before.val).length + v.text.length + after.val.length +
          (elems.text false).length := by
      simp only [Elems.text, List.length_append]
      omega
    have hsize : t.size + (Elems.cons before v after elems).length =
        t.size + 1 + elems.length := by
      simp only [Elems.length]
      omega
    rw [hnext, List.append_assoc] at hrun
    rw [Elems.tokens, hbase, hend, hsize]
    exact ⟨sup', hrun⟩

theorem Members.rounds (members : Members) {pos : ℕ} {rest : List UInt8} {A B : List Token}
    {t : Token} {sup : Option ℕ} {first : Bool}
    (h : js.drop pos = members.text first ++ 125 :: rest)
    (hkind : t.kind = .object) (hopen : t.stop = none) (hB : ∀ u ∈ B, u.stop.isSome = true)
    (hroom : (A ++ t :: B).length + members.count ≤ n)
    (hsup : first = true → sup = some A.length) :
    ∃ sup', Rounds js n ⟨pos, A ++ t :: B, sup⟩ ⟨pos + (members.text first).length,
      A ++ { t with size := t.size + members.length } ::
        (B ++ members.tokens first pos A.length (A.length + 1 + B.length)), sup'⟩ := by
  cases members with
  | nil =>
    refine ⟨sup, ?_⟩
    simp only [Members.text, Members.length, Members.tokens, List.length_nil, Nat.add_zero,
      List.append_nil]
    exact .refl
  | cons before key afterKey beforeValue v after members =>
    rw [Members.count] at hroom
    have ht : t.opens isContainer = true := by simp [Token.opens, hkind, hopen, isContainer]
    have htext : js.drop pos = separator first ++ before.val ++ (quoted key ++ (afterKey.val ++
        58 :: (beforeValue.val ++
          (v.text ++ (after.val ++ (members.text false ++ 125 :: rest)))))) := by
      simpa [Members.text] using h
    have hkey := rounds_key before key afterKey beforeValue ht hB hsup
      (by omega : (A ++ t :: B).length < n) htext
    have hvalue := drop_of_drop (drop_succ_of_drop (drop_of_drop (drop_of_drop (drop_of_drop
      htext))))
    obtain ⟨p₁, hp₁⟩ : ∃ p, p = pos + (separator first ++ before.val).length := ⟨_, rfl⟩
    obtain ⟨p₂, hp₂⟩ : ∃ p, p = p₁ + (quoted key).length +
      (afterKey.val.length + 1 + beforeValue.val.length) := ⟨_, rfl⟩
    rw [← hp₁, ← hp₂] at hkey
    rw [← hp₁, show p₁ + (quoted key).length + afterKey.val.length + 1 + beforeValue.val.length =
      p₂ by omega] at hvalue
    have hafter := drop_of_drop hvalue
    have hlen : (A ++ { t with size := t.size + 1 } :: B).length = (A ++ t :: B).length := by simp
    rw [← hlen] at hkey
    have hspace : ((A ++ { t with size := t.size + 1 } :: B) ++ [(⟨.string, p₁ + 1,
        some (p₁ + 1 + (itemsText key).length), 0, some A.length⟩ : Token)]).length +
        v.count ≤ n := by
      rw [List.length_append, hlen, List.length_singleton]
      omega
    have hread := Value.rounds v hvalue (members.delimited.ws after) hspace
      (lt_length_of_eq (A := A ++ { t with size := t.size + 1 } :: B))
    rw [countIn_at] at hread
    obtain ⟨key₁, hkey₁⟩ : ∃ u : Token, u = ⟨.string, p₁ + 1,
      some (p₁ + 1 + (itemsText key).length), 1, some A.length⟩ := ⟨_, rfl⟩
    obtain ⟨more, hmore⟩ : ∃ T, T = v.tokens p₂ (some (A ++ t :: B).length)
      ((A ++ t :: B).length + 1) := ⟨_, rfl⟩
    have hmoreLen : more.length = v.count := by rw [hmore, v.length_tokens]
    have htokens : A ++ { t with size := t.size + 1 } :: B ++ [(⟨.string, p₁ + 1,
        some (p₁ + 1 + (itemsText key).length), 0 + 1, some A.length⟩ : Token)] ++ v.tokens p₂
        (some (A ++ { t with size := t.size + 1 } :: B).length)
        (A ++ { t with size := t.size + 1 } :: B ++ [(⟨.string, p₁ + 1,
          some (p₁ + 1 + (itemsText key).length), 0, some A.length⟩ : Token)]).length =
        A ++ { t with size := t.size + 1 } :: (B ++ key₁ :: more) := by
      rw [hmore, hkey₁]
      simp [Nat.add_assoc]
    rw [htokens] at hread
    have hclosed : ∀ u ∈ B ++ key₁ :: more, u.stop.isSome = true := by
      refine List.forall_mem_append.mpr ⟨hB, List.forall_mem_cons.mpr ⟨by rw [hkey₁]; rfl, ?_⟩⟩
      rw [hmore]
      exact v.closed _ _ _
    have hspace' : (A ++ { t with size := t.size + 1 } :: (B ++ key₁ :: more)).length +
        members.count ≤ n := by
      simp only [List.length_append, List.length_cons, hmoreLen] at hroom ⊢
      omega
    obtain ⟨sup', hrest⟩ := Members.rounds members (t := { t with size := t.size + 1 })
      (drop_of_drop hafter) hkind hopen hclosed hspace' nofun
    have hrun := hkey.trans (hread.trans ((rounds_ws after hafter).trans hrest))
    have hbase : A.length + 1 + B.length = (A ++ t :: B).length := by simp; omega
    have hnext : A.length + 1 + (B ++ key₁ :: more).length =
        (A ++ t :: B).length + 1 + v.count := by
      simp only [List.length_append, List.length_cons, hmoreLen]
      omega
    have hend : pos + (Members.text first
        (.cons before key afterKey beforeValue v after members)).length =
        p₂ + v.text.length + after.val.length + (members.text false).length := by
      simp only [Members.text, List.length_append, List.length_cons, hp₁, hp₂]
      omega
    have hsize : t.size + (Members.cons before key afterKey beforeValue v after members).length =
        t.size + 1 + members.length := by
      simp only [Members.length]
      omega
    rw [hnext, List.append_assoc, List.cons_append] at hrun
    rw [Members.tokens, hbase, hend, hsize, ← hp₁, ← hp₂, ← hmore, ← hkey₁]
    exact ⟨sup', hrun⟩

end

def Document.tokens (d : Document) : List Token := d.value.tokens d.before.val.length none 0

theorem Document.drop_text (d : Document) :
    d.text.drop d.before.val.length = d.value.text ++ d.after.val := by
  rw [Document.text, List.append_assoc, List.drop_left]

theorem Value.count_pos (v : Value) : 0 < v.count := by
  cases v <;> simp [Value.count]

/-- Every text of the grammar is accepted, with the tokens of its value. -/
theorem parse_document (d : Document) (h : d.value.count ≤ n) : parse d.text n = .ok d.tokens := by
  have hpos := d.value.count_pos
  have hend : Delimited (d.after.val ++ []) := Delimited.ws d.after nofun
  rw [List.append_nil] at hend
  have hstart : d.text.drop 0 = d.before.val ++ (d.value.text ++ d.after.val) := by
    rw [List.drop_zero, Document.text, List.append_assoc]
  have hbefore : Rounds d.text n .init ⟨0 + d.before.val.length, [], none⟩ :=
    rounds_ws d.before hstart
  rw [Nat.zero_add] at hbefore
  have hvalue : Rounds d.text n ⟨d.before.val.length, [], none⟩
      ⟨d.before.val.length + d.value.text.length, d.tokens, none⟩ :=
    Value.rounds d.value d.drop_text hend (by simpa using h) nofun
  have hafter : Rounds d.text n ⟨d.before.val.length + d.value.text.length, d.tokens, none⟩
      ⟨d.before.val.length + d.value.text.length + d.after.val.length, d.tokens, none⟩ :=
    rounds_ws d.after ((drop_of_drop d.drop_text).trans (List.append_nil _).symm)
  refine parse_eq_ok.mpr ⟨by omega, _, hbefore.trans (hvalue.trans hafter), ?_, ?_, rfl⟩
  · simp only [Document.text, List.length_append, le_refl]
  · refine lastOpen_eq_none.mpr fun t ht => ?_
    obtain ⟨stop, hstop⟩ := Option.isSome_iff_exists.mp (d.value.closed _ _ _ t ht)
    simp [Token.opens, hstop]

end Sodex.Json
