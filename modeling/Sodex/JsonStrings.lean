import Sodex.JsonText
import Sodex.Utf8

/-!
# Reading strings of the grammar

The scanner finds the closing quote of every string of the grammar, and the decoder gives the UTF-8
of its characters if the buffer has room for it.
-/
namespace Sodex.Json

open CText Utf8 List

theorem toNat_ofNat {cp : ℕ} (h : cp.isValidChar) : (Char.ofNat cp).toNat = cp := by
  rw [Char.ofNat, dif_pos h]
  rfl

/-- The bytes that the code makes of a code point are its UTF-8. -/
theorem utf8Bytes_eq {cp : ℕ} (h : cp.isValidChar) :
    utf8Bytes cp = String.utf8EncodeChar (Char.ofNat cp) := by
  apply toNat_injective
  rw [map_utf8EncodeChar, toNat_ofNat h]
  have hvalid : ¬(0x10FFFF < cp ∨ (0xD800 ≤ cp ∧ cp ≤ 0xDFFF)) := by omega
  simp only [utf8Bytes, if_neg hvalid, bytesOf]
  split_ifs <;> simp [laterBytes] <;> omega

/-- A half of a surrogate pair is read as a question mark. -/
theorem utf8Bytes_surrogate {cp : ℕ} (h : 0xD800 ≤ cp ∧ cp ≤ 0xDFFF) :
    utf8Bytes cp = String.utf8EncodeChar '?' := by
  simp only [utf8Bytes, if_pos (Or.inr h)]
  rfl

theorem utf8EncodeChar_low {c : Char} (h : c.toNat < 128) :
    String.utf8EncodeChar c = [UInt8.ofNat c.toNat] := by
  have hle : c.val.toNat ≤ 127 := Nat.le_of_lt_succ h
  simp only [String.utf8EncodeChar, hle, if_true]
  rfl

theorem utf8EncodeChar_high {c : Char} (h : 128 ≤ c.toNat) {b : UInt8}
    (hb : b ∈ String.utf8EncodeChar c) : 128 ≤ b := by
  obtain ⟨f, w, hfw, -, hw, hf⟩ := encode_cons c
  rw [hfw] at hb
  change 128 ≤ b.toNat
  rcases mem_cons.mp hb with rfl | hb
  · omega
  · have := hw b hb
    omega

/-- No byte of a plain character is taken for a quote, an escape or a control character. -/
theorem isPlain_bytes {c : Char} (h : isPlain c = true) {b : UInt8}
    (hb : b ∈ String.utf8EncodeChar c) : 32 ≤ b ∧ b ≠ 34 ∧ b ≠ 92 := by
  obtain ⟨hlow, hquote, hback⟩ := of_decide_eq_true h
  by_cases hsmall : c.toNat < 128
  · rw [utf8EncodeChar_low hsmall, mem_singleton] at hb
    subst hb
    have hval : (UInt8.ofNat c.toNat).toNat = c.toNat :=
      UInt8.toNat_ofNat_of_lt' (by unfold UInt8.size; omega)
    refine ⟨?_, ?_, ?_⟩
    · rw [UInt8.le_iff_toNat_le, hval]
      exact hlow
    · intro heq
      exact hquote (by rw [← hval, heq]; rfl)
    · intro heq
      exact hback (by rw [← hval, heq]; rfl)
  · have hhigh := utf8EncodeChar_high (not_lt.mp hsmall) hb
    refine ⟨UInt8.le_trans (by decide) hhigh, ?_, ?_⟩
    · rintro rfl
      exact absurd hhigh (by decide)
    · rintro rfl
      exact absurd hhigh (by decide)

theorem utf8EncodeChar_ne_nil (c : Char) : String.utf8EncodeChar c ≠ [] := by
  rw [← length_pos_iff, String.length_utf8EncodeChar]
  exact c.utf8Size_pos

theorem isHexDigit_byte (h : Hex) : isHexDigit h.byte = true := by
  obtain ⟨digit, upper⟩ := h
  revert digit upper
  decide

theorem hexValue_byte (h : Hex) : hexValue h.byte = some h.digit.val := by
  obtain ⟨digit, upper⟩ := h
  revert digit upper
  decide

theorem isSimpleEscape_letter (e : Escape) : isSimpleEscape e.letter = true := by
  cases e <;> rfl

theorem scanString_bytes {w rest : List UInt8} {pos : ℕ} (hw : ∀ b ∈ w, b ≠ 34 ∧ b ≠ 92) :
    scanString .plain (w ++ rest) pos = scanString .plain rest (pos + w.length) := by
  induction w generalizing pos with
  | nil => rfl
  | cons b w ih =>
    obtain ⟨⟨hquote, hback⟩, hw⟩ := forall_mem_cons.mp hw
    rw [cons_append, scanString, if_neg hback, if_neg hquote, ih hw, length_cons]
    congr 1
    omega

theorem scanString_item (i : Item) (rest : List UInt8) (pos : ℕ) :
    scanString .plain (i.text ++ rest) pos = scanString .plain rest (pos + i.text.length) := by
  cases i with
  | plain c hc => exact scanString_bytes fun b hb => (isPlain_bytes hc hb).2
  | escape e =>
    simp [Item.text, scanString, isSimpleEscape_letter]
  | unit u =>
    have h117 : isSimpleEscape 117 = false := by decide
    simp [Item.text, CodeUnit.bytes, scanString, h117, isHexDigit_byte]

/-- The scanner stops at the closing quote. -/
theorem scanString_items (s : List Item) (rest : List UInt8) (pos : ℕ) :
    scanString .plain (itemsText s ++ 34 :: rest) pos = .ok (pos + (itemsText s).length) := by
  induction s generalizing pos with
  | nil => rfl
  | cons i s ih =>
    rw [itemsText, flatMap_cons, append_assoc, scanString_item, ← itemsText, ih,
      length_append, add_assoc]

theorem CodeUnit.value_lt (u : CodeUnit) : u.value < 0x10000 := by
  unfold CodeUnit.value
  omega

theorem parseHex4_bytes (u : CodeUnit) (rest : List UInt8) :
    parseHex4 (u.bytes ++ rest) = some u.value := by
  simp [parseHex4, CodeUnit.bytes, hexValue_byte, CodeUnit.value]

theorem utf8Bytes_value (u : CodeUnit) : utf8Bytes u.value = String.utf8EncodeChar u.char := by
  unfold CodeUnit.char
  split
  · rename_i h
    exact utf8Bytes_surrogate h
  · apply utf8Bytes_eq
    have := u.value_lt
    omega

theorem utf8Bytes_pair {high low : CodeUnit} (hhigh : high.isHigh = true)
    (hlow : low.isLow = true) :
    utf8Bytes (0x10000 + ((high.value - 0xD800) * 1024 + (low.value - 0xDC00))) =
      String.utf8EncodeChar (pairChar high low) := by
  have hhigh := of_decide_eq_true hhigh
  have hlow := of_decide_eq_true hlow
  rw [pairChar, add_assoc]
  apply utf8Bytes_eq
  omega

theorem appendUtf8_room {cap cp : ℕ} {out bytes : List UInt8} (hbytes : utf8Bytes cp = bytes)
    (hroom : out.length + bytes.length < cap) : appendUtf8 cap out cp = some (out ++ bytes) := by
  rw [appendUtf8, hbytes, if_neg (by omega)]

theorem unicodeEscape_pair {u v : CodeUnit} (hu : u.isHigh = true) (hv : v.isLow = true)
    (s : List Item) : unicodeEscape (u.bytes ++ itemsText (.unit v :: s)) =
      some (0x10000 + ((u.value - 0xD800) * 1024 + (v.value - 0xDC00)), itemsText s) := by
  have hhigh := of_decide_eq_true hu
  have hlow := of_decide_eq_true hv
  have hdrop : (u.bytes ++ itemsText (.unit v :: s)).drop 4 =
      92 :: 117 :: (v.bytes ++ itemsText s) := rfl
  have hlen : ¬ (u.bytes ++ itemsText (.unit v :: s)).length < 4 := by simp [CodeUnit.bytes]
  have hprefix : (92 :: 117 :: (v.bytes ++ itemsText s)).take 2 = ascii "\\u" := rfl
  have hsix : 6 ≤ (92 :: 117 :: (v.bytes ++ itemsText s)).length := by simp [CodeUnit.bytes]
  have hvalue : parseHex4 ((92 :: 117 :: (v.bytes ++ itemsText s)).drop 2) = some v.value :=
    parseHex4_bytes v _
  simp only [unicodeEscape, if_neg hlen, parseHex4_bytes, Option.map_some, hdrop]
  rw [if_pos ⟨hhigh.1, hhigh.2, hsix, hprefix⟩, hvalue]
  simp only [hlow, and_self, if_true]
  rfl

/-- The unit is the first half of a pair whose second half follows. -/
def pairsWith (u : CodeUnit) : List Item → Bool
  | .unit v :: _ => u.isHigh && v.isLow
  | _ => false

/-- Any other unit is decoded alone. -/
theorem unicodeEscape_alone {u : CodeUnit} {s : List Item} (h : pairsWith u s = false) :
    unicodeEscape (u.bytes ++ itemsText s) = some (u.value, itemsText s) := by
  have hdrop : (u.bytes ++ itemsText s).drop 4 = itemsText s := rfl
  have hlen : ¬ (u.bytes ++ itemsText s).length < 4 := by simp [CodeUnit.bytes]
  simp only [unicodeEscape, if_neg hlen, parseHex4_bytes, Option.map_some, hdrop]
  split
  · rename_i hhigh
    obtain ⟨hlow, hup, -, hprefix⟩ := hhigh
    cases s with
    | nil => cases hprefix
    | cons i s =>
      cases i with
      | plain c hc =>
        -- a plain character does not start with a backslash
        obtain ⟨b, w, hbytes⟩ := exists_cons_of_ne_nil (utf8EncodeChar_ne_nil c)
        have hb := isPlain_bytes hc (hbytes ▸ mem_cons_self)
        have htext : itemsText (.plain c hc :: s) = b :: (w ++ itemsText s) := by
          rw [itemsText, flatMap_cons, Item.text, hbytes]
          rfl
        rw [htext, take_succ_cons] at hprefix
        exact absurd (cons.inj hprefix).1 hb.2.2
      | escape e =>
        have hletter := (cons.inj (cons.inj hprefix).2).1
        cases e <;> cases hletter
      | unit v =>
        have hvalue : parseHex4 ((itemsText (.unit v :: s)).drop 2) = some v.value :=
          parseHex4_bytes v _
        have hhigh : u.isHigh = true := decide_eq_true ⟨hlow, hup⟩
        have hnot : v.isLow = false := by simpa [pairsWith, hhigh] using h
        have hnot := of_decide_eq_false hnot
        rw [hvalue]
        simp only [hnot, if_false]
  · rfl

theorem chars_unit {u : CodeUnit} {s : List Item} (h : pairsWith u s = false) :
    chars (.unit u :: s) = u.char :: chars s := by
  cases s with
  | nil => rfl
  | cons i s =>
    cases i with
    | plain c hc => rfl
    | escape e => rfl
    | unit v =>
      rw [chars]
      simp only [pairsWith] at h
      simp [h]

section Loop

variable {cap fuel : ℕ} {out t : List UInt8}

theorem decodeLoop_nil : decodeLoop cap fuel [] out = out := by
  cases fuel <;> simp [decodeLoop]

theorem decodeLoop_byte {c : UInt8} (hc : c ≠ 92) (hroom : out.length < cap - 1) :
    decodeLoop cap (fuel + 1) (c :: t) out = decodeLoop cap fuel t (out ++ [c]) := by
  cases t with
  | nil => rw [decodeLoop_nil, decodeLoop, if_neg (by omega)]
  | cons e t => rw [decodeLoop, if_neg (by omega), if_pos hc]

theorem decodeLoop_bytes {w : List UInt8} (hw : ∀ b ∈ w, b ≠ 92)
    (hroom : out.length + w.length ≤ cap - 1) :
    decodeLoop cap (fuel + w.length) (w ++ t) out = decodeLoop cap fuel t (out ++ w) := by
  induction w generalizing out with
  | nil => simp
  | cons b w ih =>
    obtain ⟨hb, hw⟩ := forall_mem_cons.mp hw
    rw [length_cons] at hroom
    rw [length_cons, ← Nat.add_assoc, cons_append, decodeLoop_byte hb (by omega),
      ih hw (by simp; omega), append_assoc, singleton_append]

theorem decodeLoop_escape (e : Escape) (hroom : out.length < cap - 1) :
    decodeLoop cap (fuel + 1) (92 :: e.letter :: t) out =
      decodeLoop cap fuel t (out ++ String.utf8EncodeChar e.char) := by
  have hletter : e.letter ≠ 117 := by cases e <;> decide
  have hbyte : [unescape e.letter] = String.utf8EncodeChar e.char := by cases e <;> decide
  rw [← hbyte, decodeLoop, if_neg (by omega), if_neg (by simp), if_pos hletter]

theorem decodeLoop_unit {u : CodeUnit} {s : List Item} {cp : ℕ} {c : Char}
    (hcp : unicodeEscape (u.bytes ++ t) = some (cp, itemsText s))
    (hc : utf8Bytes cp = String.utf8EncodeChar c)
    (hroom : out.length + (String.utf8EncodeChar c).length ≤ cap - 1) :
    decodeLoop cap (fuel + 1) (92 :: 117 :: (u.bytes ++ t)) out =
      decodeLoop cap fuel (itemsText s) (out ++ String.utf8EncodeChar c) := by
  have hpos : 0 < (String.utf8EncodeChar c).length := length_pos_iff.mpr (utf8EncodeChar_ne_nil c)
  rw [decodeLoop, if_neg (by omega), if_neg (by simp), if_neg (by simp), hcp]
  simp only [appendUtf8_room hc (by omega : out.length + (String.utf8EncodeChar c).length < cap)]

/-- The decoder gives the bytes of the string, if the buffer has room for them. -/
theorem decodeLoop_items (s : List Item) (hfuel : (itemsText s).length ≤ fuel)
    (hroom : out.length + (decoded s).length ≤ cap - 1) :
    decodeLoop cap fuel (itemsText s) out = out ++ decoded s := by
  -- what is left after the first character
  have hnext : ∀ (c : Char) (rest : List Item) (out : List UInt8),
      out.length + (String.utf8EncodeChar c ++ decoded rest).length ≤ cap - 1 →
      out.length + (String.utf8EncodeChar c).length ≤ cap - 1 ∧ out.length < cap - 1 ∧
        (out ++ String.utf8EncodeChar c).length + (decoded rest).length ≤ cap - 1 := by
    intro c rest out hroom
    have := length_pos_iff.mpr (utf8EncodeChar_ne_nil c)
    simp only [length_append] at hroom ⊢
    omega
  have halone : ∀ (u : CodeUnit) (s : List Item), pairsWith u s = false →
      (∀ {fuel : ℕ} {out : List UInt8}, (itemsText s).length ≤ fuel →
        out.length + (decoded s).length ≤ cap - 1 →
        decodeLoop cap fuel (itemsText s) out = out ++ decoded s) →
      ∀ {fuel : ℕ} {out : List UInt8}, (itemsText (.unit u :: s)).length ≤ fuel →
        out.length + (decoded (.unit u :: s)).length ≤ cap - 1 →
        decodeLoop cap fuel (itemsText (.unit u :: s)) out = out ++ decoded (.unit u :: s) := by
    intro u s hpair ih fuel out hfuel hroom
    have htext : itemsText (.unit u :: s) = 92 :: 117 :: (u.bytes ++ itemsText s) := rfl
    have hdec : decoded (.unit u :: s) = String.utf8EncodeChar u.char ++ decoded s := by
      rw [decoded, chars_unit hpair]
      rfl
    rw [hdec] at hroom
    obtain ⟨hchar, -, hrest⟩ := hnext u.char s out hroom
    rw [htext, length_cons, length_cons, length_append] at hfuel
    obtain ⟨k, rfl⟩ : ∃ k, fuel = k + 1 := ⟨fuel - 1, by omega⟩
    rw [htext, hdec, decodeLoop_unit (unicodeEscape_alone hpair) (utf8Bytes_value u) hchar,
      ih (by omega) hrest, append_assoc]
  induction s using chars.induct generalizing fuel out with
  | case1 => simp [itemsText, decoded, chars, decodeLoop_nil]
  | case2 c hc s ih =>
    have htext : itemsText (.plain c hc :: s) = String.utf8EncodeChar c ++ itemsText s := rfl
    have hdec : decoded (.plain c hc :: s) = String.utf8EncodeChar c ++ decoded s := rfl
    rw [hdec] at hroom
    obtain ⟨hchar, -, hrest⟩ := hnext c s out hroom
    rw [htext, length_append] at hfuel
    obtain ⟨k, rfl⟩ : ∃ k, fuel = k + (String.utf8EncodeChar c).length :=
      ⟨fuel - (String.utf8EncodeChar c).length, by omega⟩
    rw [htext, hdec, decodeLoop_bytes (fun b hb => (isPlain_bytes hc hb).2.2) hchar,
      ih (by omega) hrest, append_assoc]
  | case3 e s ih =>
    have htext : itemsText (.escape e :: s) = 92 :: e.letter :: itemsText s := rfl
    have hdec : decoded (.escape e :: s) = String.utf8EncodeChar e.char ++ decoded s := rfl
    rw [hdec] at hroom
    obtain ⟨-, hopen, hrest⟩ := hnext e.char s out hroom
    rw [htext, length_cons, length_cons] at hfuel
    obtain ⟨k, rfl⟩ : ∃ k, fuel = k + 1 := ⟨fuel - 1, by omega⟩
    rw [htext, hdec, decodeLoop_escape e hopen, ih (by omega) hrest, append_assoc]
  | case4 u v s hpair ih =>
    have htext : itemsText (.unit u :: .unit v :: s) =
        92 :: 117 :: (u.bytes ++ itemsText (.unit v :: s)) := rfl
    have hdec : decoded (.unit u :: .unit v :: s) =
        String.utf8EncodeChar (pairChar u v) ++ decoded s := by
      rw [decoded, chars, if_pos hpair]
      rfl
    rw [hdec] at hroom
    obtain ⟨hchar, -, hrest⟩ := hnext (pairChar u v) s out hroom
    have hshort : (itemsText s).length < (itemsText (.unit u :: .unit v :: s)).length := by
      simp [itemsText, Item.text]
      omega
    obtain ⟨k, rfl⟩ : ∃ k, fuel = k + 1 := ⟨fuel - 1, by omega⟩
    obtain ⟨hu, hv⟩ := Bool.and_eq_true_iff.mp hpair
    rw [htext, hdec, decodeLoop_unit (unicodeEscape_pair hu hv s) (utf8Bytes_pair hu hv) hchar,
      ih (by omega) hrest, append_assoc]
  | case5 u v s hpair ih =>
    exact halone u _ (by simpa [pairsWith] using hpair) ih hfuel hroom
  | case6 u s hother ih =>
    refine halone u s ?_ ih hfuel hroom
    cases s with
    | nil => rfl
    | cons i s =>
      cases i with
      | unit v => exact absurd rfl (hother v s)
      | plain c hc => rfl
      | escape e => rfl

end Loop

end Sodex.Json
