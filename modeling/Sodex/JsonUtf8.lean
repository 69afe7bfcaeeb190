import Sodex.JsonStrings
import Sodex.JsonWriter

/-!
# What the writer makes of bytes that are not UTF-8

`jw_decode_utf8` accepts the UTF-8 of a character and nothing else. What it rejects is replaced: a
whole sequence if it has the right bytes for one but stands for no character, and a single byte
otherwise.
-/
namespace Sodex.Json

open CText Utf8 List

variable {c b₁ b₂ b₃ : UInt8} {rest t w text out : List UInt8} {n : ℕ} {ch : Char}

theorem utf8Lead_cases {need lead : ℕ} (h : utf8Lead c = some (need, lead)) :
    (0xC2 ≤ c.toNat ∧ c.toNat ≤ 0xDF ∧ need = 2 ∧ lead = c.toNat % 32) ∨
      (0xE0 ≤ c.toNat ∧ c.toNat ≤ 0xEF ∧ need = 3 ∧ lead = c.toNat % 16) ∨
      (0xF0 ≤ c.toNat ∧ c.toNat ≤ 0xF4 ∧ need = 4 ∧ lead = c.toNat % 8) := by
  unfold utf8Lead at h
  split at h
  · rename_i hc
    cases h
    exact .inl ⟨hc.1, hc.2, rfl, rfl⟩
  split at h
  · rename_i hc
    cases h
    exact .inr (.inl ⟨hc.1, hc.2, rfl, rfl⟩)
  split at h
  · rename_i hc
    cases h
    exact .inr (.inr ⟨hc.1, hc.2, rfl, rfl⟩)
  · cases h

/-- The number that the bits of a sequence make. -/
def codePoint (lead : ℕ) (w : List UInt8) : ℕ :=
  w.foldl (fun cp b => cp * 64 + b.toNat % 64) lead

/-- A number that is written with `need` bytes and is the code point of a character. -/
def IsScalar (need cp : ℕ) : Prop :=
  ¬((need = 2 ∧ cp < 0x80) ∨ (need = 3 ∧ cp < 0x800) ∨ (need = 4 ∧ cp < 0x10000) ∨
    0x10FFFF < cp ∨ (0xD800 ≤ cp ∧ cp ≤ 0xDFFF))

instance (need cp : ℕ) : Decidable (IsScalar need cp) := inferInstanceAs (Decidable (¬_))

/-- The decoder at a first byte that all its continuation bytes follow. -/
theorem decodeUtf8_whole {lead : ℕ} (hlead : utf8Lead c = some (w.length + 1, lead))
    (hw : w.all isContinuation = true) :
    decodeUtf8 c (w ++ rest) =
      (decide (IsScalar (w.length + 1) (codePoint lead w)), w.length + 1) := by
  have htake : (w ++ rest).take (w.length + 1 - 1) = w := take_left
  have hlong : ¬ (w ++ rest).length + 1 < w.length + 1 := by
    rw [length_append]
    omega
  simp only [decodeUtf8, hlead, htake, if_neg hlong, hw, Bool.not_true, Bool.false_eq_true,
    if_false]
  rfl

/-- Otherwise a single byte is rejected. -/
theorem decodeUtf8_cases (c : UInt8) (rest : List UInt8) :
    decodeUtf8 c rest = (false, 1) ∨ ∃ lead w t, rest = w ++ t ∧
      utf8Lead c = some (w.length + 1, lead) ∧ w.all isContinuation = true := by
  cases hlead : utf8Lead c with
  | none =>
    left
    simp [decodeUtf8, hlead]
  | some x =>
    obtain ⟨need, lead⟩ := x
    have hneed : 2 ≤ need := by
      rcases utf8Lead_cases hlead with h | h | h <;> omega
    simp only [decodeUtf8, hlead]
    split
    · exact .inl rfl
    · rename_i hlong
      split
      · exact .inl rfl
      · rename_i hall
        right
        have hlen : (rest.take (need - 1)).length + 1 = need := by
          rw [length_take]
          omega
        exact ⟨lead, rest.take (need - 1), rest.drop (need - 1), (take_append_drop _ _).symm,
          by rw [hlen], by simpa using hall⟩

theorem lead_of_utf8Lead {need bits : ℕ} (h : utf8Lead c = some (need, bits)) :
    lead c.toNat = some (need - 1, bits) := by
  unfold lead
  rcases utf8Lead_cases h with ⟨hlow, hhigh, rfl, rfl⟩ | ⟨hlow, hhigh, rfl, rfl⟩ |
    ⟨hlow, hhigh, rfl, rfl⟩
  · rw [if_neg (by omega), if_pos (by omega)]
  · rw [if_neg (by omega), if_neg (by omega), if_pos (by omega)]
  · rw [if_neg (by omega), if_neg (by omega), if_neg (by omega), if_pos (by omega)]

theorem utf8Lead_of_lead {k bits : ℕ} (h : lead c.toNat = some (k, bits)) (hk : 0 < k)
    (hleast : least k ≤ ch.toNat) (hbits : ch.toNat / 64 ^ k = bits) :
    utf8Lead c = some (k + 1, bits) := by
  have hvalid := isValidChar_toNat ch
  unfold lead at h
  simp only [utf8Lead, UInt8.le_iff_toNat_le, UInt8.reduceToNat]
  split_ifs at h <;> obtain ⟨rfl, rfl⟩ := Prod.mk.inj (Option.some.inj h) <;>
    simp only [least] at hleast
  · cases hk
  · rw [if_pos (by omega)]
  · rw [if_neg (by omega), if_pos (by omega)]
  · rw [if_neg (by omega), if_neg (by omega), if_pos (by omega)]

theorem withLater_codePoint {bits : ℕ} (hw : w.all isContinuation = true) :
    withLater w.length bits w = some (codePoint bits w) := by
  induction w generalizing bits with
  | nil => rfl
  | cons b w ih =>
    obtain ⟨hb, hw⟩ := Bool.and_eq_true_iff.mp hw
    rw [length_cons, withLater, if_pos (of_decide_eq_true hb), ih hw]
    rfl

theorem isScalar_iff {need bits v : ℕ} (h : utf8Lead c = some (need, bits)) :
    IsScalar need v ↔ least (need - 1) ≤ v ∧ v.isValidChar := by
  obtain ⟨-, -, rfl, -⟩ | ⟨-, -, rfl, -⟩ | ⟨-, -, rfl, -⟩ := utf8Lead_cases h
  all_goals
    simp [IsScalar, least, Nat.isValidChar]
    omega

/-- The UTF-8 of a character is accepted. -/
theorem decodeUtf8_encode (h : String.utf8EncodeChar ch = c :: w) (hc : ¬ c < 128) :
    decodeUtf8 c (w ++ rest) = (true, w.length + 1) := by
  obtain ⟨b, w', hbw, ⟨bits, hlead⟩, hcont, hb⟩ := encode_cons ch
  obtain ⟨rfl, rfl⟩ := cons.inj (hbw.symm.trans h)
  have hw : w'.all isContinuation = true := by simpa [isContinuation] using hcont
  have hpos : 0 < w'.length := length_pos_iff.mpr (by tauto)
  obtain ⟨hleast, hlater⟩ := (encode_prefix_iff hlead).mp (by rw [h])
  have hutf := utf8Lead_of_lead hlead hpos hleast (withLater_eq_some.mp hlater).1
  have hcp := Option.some.inj ((withLater_codePoint hw).symm.trans hlater)
  rw [decodeUtf8_whole hutf hw, hcp, decide_eq_true ((isScalar_iff hutf).mpr ⟨hleast, ch.valid⟩)]

/-- What is accepted is the UTF-8 of a character. -/
theorem encode_of_scalar {lead : ℕ} (hlead : utf8Lead c = some (w.length + 1, lead))
    (hw : w.all isContinuation = true) (h : IsScalar (w.length + 1) (codePoint lead w)) :
    String.utf8EncodeChar (Char.ofNat (codePoint lead w)) = c :: w := by
  obtain ⟨hleast, hvalid⟩ := (isScalar_iff hlead).mp h
  have hprefix : String.utf8EncodeChar (Char.ofNat (codePoint lead w)) <+: c :: w := by
    rw [encode_prefix_iff (lead_of_utf8Lead hlead), toNat_ofNat hvalid]
    exact ⟨hleast, withLater_codePoint hw⟩
  exact hprefix.eq_of_length (length_of_lead (lead_of_utf8Lead hlead) hprefix)

/-- The UTF-8 of U+FFFD. -/
def replacement : List UInt8 := [0xEF, 0xBF, 0xBD]

/-- The UTF-8 of a character stands at the start. -/
def StartsChar (text : List UInt8) : Prop := ∃ ch, String.utf8EncodeChar ch <+: text

/-- A first byte with as many continuation bytes as it asks for. -/
def IsSequence (piece : List UInt8) : Prop :=
  ∃ c w lead, piece = c :: w ∧ utf8Lead c = some (w.length + 1, lead) ∧
    w.all isContinuation = true

/-- A text in which every sequence that stands for no character, and every other byte that does not
belong to a character, is replaced. -/
inductive Replaced : List UInt8 → List UInt8 → Prop where
  | nil : Replaced [] []
  | char (ch : Char) {t out : List UInt8} (h : Replaced t out) :
      Replaced (String.utf8EncodeChar ch ++ t) (String.utf8EncodeChar ch ++ out)
  | sequence {piece t out : List UInt8} (hpiece : IsSequence piece)
      (hbad : ¬ StartsChar (piece ++ t)) (h : Replaced t out) :
      Replaced (piece ++ t) (replacement ++ out)
  | byte {b : UInt8} {t out : List UInt8} (hbad : ¬ StartsChar (b :: t))
      (hpiece : ∀ piece, piece <+: b :: t → ¬ IsSequence piece) (h : Replaced t out) :
      Replaced (b :: t) (replacement ++ out)

/-- A text in which every longest piece without characters is replaced. -/
inductive Repaired : List UInt8 → List UInt8 → Prop where
  | nil : Repaired [] []
  | char (ch : Char) {t out : List UInt8} (h : Repaired t out) :
      Repaired (String.utf8EncodeChar ch ++ t) (String.utf8EncodeChar ch ++ out)
  | piece {piece t out : List UInt8} (hne : piece ≠ [])
      (hbad : ∀ i < piece.length, ¬ StartsChar ((piece ++ t).drop i))
      (hend : t = [] ∨ StartsChar t) (h : Repaired t out) :
      Repaired (piece ++ t) (replacement ++ out)

/-- A text in UTF-8 is not changed. -/
theorem Replaced.unchanged (h : Replaced text out) {l : List Char}
    (hl : text = l.flatMap String.utf8EncodeChar) : out = text := by
  have hstart : ∀ {x : List UInt8} {l : List Char}, x = l.flatMap String.utf8EncodeChar →
      x ≠ [] → StartsChar x := by
    rintro x l rfl hne
    cases l with
    | nil => exact absurd rfl hne
    | cons a l => exact ⟨a, flatMap_cons ▸ prefix_append _ _⟩
  induction h generalizing l with
  | nil => rfl
  | @char ch t out _ ih =>
    cases l with
    | nil =>
      have := append_eq_nil_iff.mp hl
      exact absurd this.1 (utf8EncodeChar_ne_nil ch)
    | cons a l =>
      rw [ih (encode_prefix_free hl).2]
  | @sequence piece t out hpiece hbad _ _ =>
    obtain ⟨c, w, lead, rfl, -⟩ := hpiece
    exact absurd (hstart hl (by simp)) hbad
  | byte hbad _ _ _ => exact absurd (hstart hl (by simp)) hbad

theorem decoded_unit {u : CodeUnit} (hu : u.isHigh = false) (s : List Item) :
    decoded (.unit u :: s) = String.utf8EncodeChar u.char ++ decoded s := by
  have hpair : pairsWith u s = false := by
    cases s with
    | nil => rfl
    | cons i s => cases i <;> simp [pairsWith, hu]
  rw [decoded, chars_unit hpair, flatMap_cons]
  rfl

theorem encode_byte (hc : c < 128) : String.utf8EncodeChar (Char.ofNat c.toNat) = [c] := by
  have hlt : c.toNat < 128 := hc
  have hnat : (Char.ofNat c.toNat).toNat = c.toNat := toNat_ofNat (.inl (by omega))
  rw [utf8EncodeChar_low (by omega), hnat, UInt8.ofNat_toNat]

theorem byte_lower {m : ℕ} (h : m < 16) : Hex.byte ⟨⟨m, h⟩, false⟩ = lowerHex m := by
  unfold Hex.byte lowerHex
  split <;> rfl

/-- A byte below 128 is one piece of a string. -/
theorem escapeAscii_item (hc : c < 128) :
    ∃ i : Item, i.text = escapeAscii c ∧ ∀ s, decoded (i :: s) = c :: decoded s := by
  by_cases hsimple : c = 34 ∨ c = 92 ∨ c = 8 ∨ c = 12 ∨ c = 10 ∨ c = 13 ∨ c = 9
  · rcases hsimple with rfl | rfl | rfl | rfl | rfl | rfl | rfl
    · exact ⟨.escape .quote, rfl, fun _ => rfl⟩
    · exact ⟨.escape .backslash, rfl, fun _ => rfl⟩
    · exact ⟨.escape .backspace, rfl, fun _ => rfl⟩
    · exact ⟨.escape .formFeed, rfl, fun _ => rfl⟩
    · exact ⟨.escape .newline, rfl, fun _ => rfl⟩
    · exact ⟨.escape .carriageReturn, rfl, fun _ => rfl⟩
    · exact ⟨.escape .tab, rfl, fun _ => rfl⟩
  · simp only [not_or] at hsimple
    obtain ⟨hquote, hback, h₁, h₂, h₃, h₄, h₅⟩ := hsimple
    rw [escapeAscii, if_neg hquote, if_neg hback, if_neg h₁, if_neg h₂, if_neg h₃, if_neg h₄,
      if_neg h₅]
    have hlt : c.toNat < 128 := hc
    by_cases hctrl : c < 32
    · -- a control character has two digits after `\u00`
      obtain ⟨u, hu⟩ : ∃ u : CodeUnit, u = ⟨⟨0, false⟩, ⟨0, false⟩,
        ⟨⟨c.toNat / 16, by omega⟩, false⟩, ⟨⟨c.toNat % 16, by omega⟩, false⟩⟩ := ⟨_, rfl⟩
      have hvalue : u.value = c.toNat := by
        rw [hu]
        simp only [CodeUnit.value, Fin.val_zero]
        omega
      have hchar : u.char = Char.ofNat c.toNat := by
        rw [CodeUnit.char, hvalue, if_neg (by omega)]
      refine ⟨.unit u, ?_, fun s => ?_⟩
      · rw [if_pos hctrl, hu, Item.text, CodeUnit.bytes]
        simp only [byte_lower]
        rfl
      · rw [decoded_unit (decide_eq_false (by omega)), hchar, encode_byte hc]
        rfl
    · have hnat : (Char.ofNat c.toNat).toNat = c.toNat := toNat_ofNat (.inl (by omega))
      have hplain : isPlain (Char.ofNat c.toNat) = true := by
        have hge : 32 ≤ c.toNat := UInt8.not_lt.mp hctrl
        rw [isPlain, hnat]
        refine decide_eq_true ⟨hge, fun heq => hquote ?_, fun heq => hback ?_⟩
        · exact UInt8.toNat_inj.mp heq
        · exact UInt8.toNat_inj.mp heq
      refine ⟨.plain _ hplain, ?_, fun s => ?_⟩
      · rw [if_neg hctrl]
        exact encode_byte hc
      · change String.utf8EncodeChar _ ++ decoded s = _
        rw [encode_byte hc]
        rfl

/-- The unit `\ufffd`. -/
def replacementUnit : CodeUnit := ⟨⟨15, false⟩, ⟨15, false⟩, ⟨15, false⟩, ⟨13, false⟩⟩

theorem decoded_replacement (s : List Item) :
    decoded (.unit replacementUnit :: s) = replacement ++ decoded s := by
  rw [decoded_unit (by decide)]
  rfl

theorem startsChar_decode (hc : ¬ c < 128) (h : StartsChar (c :: rest)) :
    (decodeUtf8 c rest).1 = true := by
  obtain ⟨ch, t, ht⟩ := h
  obtain ⟨b, w, hb⟩ := exists_cons_of_ne_nil (utf8EncodeChar_ne_nil ch)
  rw [hb] at ht
  obtain ⟨rfl, rfl⟩ := cons.inj ht
  have hdecode : decodeUtf8 b (w ++ t) = _ := decodeUtf8_encode hb hc
  change (decodeUtf8 b (w ++ t)).1 = true
  rw [hdecode]

theorem isSequence_decode {piece : List UInt8} (hpiece : IsSequence piece)
    (h : piece <+: c :: rest) : (decodeUtf8 c rest).2 ≠ 1 := by
  obtain ⟨b, w, lead, rfl, hlead, hw⟩ := hpiece
  obtain ⟨t, ht⟩ := h
  obtain ⟨rfl, rfl⟩ := cons.inj ht
  have hneed : 2 ≤ w.length + 1 := by
    rcases utf8Lead_cases hlead with h | h | h <;> omega
  change (decodeUtf8 b (w ++ t)).2 ≠ 1
  rw [decodeUtf8_whole hlead hw]
  dsimp only
  omega

theorem isPlain_of_encode (h : String.utf8EncodeChar ch = c :: w) (hc : ¬ c < 128) :
    isPlain ch = true := by
  have hhigh : ¬ ch.toNat < 128 := by
    intro hlow
    rw [utf8EncodeChar_low hlow] at h
    obtain ⟨rfl, -⟩ := cons.inj h
    refine hc ?_
    rw [UInt8.lt_iff_toNat_lt, UInt8.toNat_ofNat_of_lt' (by unfold UInt8.size; omega)]
    exact hlow
  exact decide_eq_true (by omega)

/-- What is written for a text is a string of the grammar that stands for the replaced text, which
is the text itself if it is in UTF-8. -/
theorem escapeLoop_items (fuel : ℕ) : ∀ text : List UInt8, text.length ≤ fuel →
    ∃ s, itemsText s = escapeLoop fuel text ∧ (validLoop fuel text = true → decoded s = text) ∧
      Replaced text (decoded s) := by
  induction fuel with
  | zero =>
    intro text hlen
    rw [eq_nil_of_length_eq_zero (Nat.le_zero.mp hlen)]
    exact ⟨[], rfl, fun _ => rfl, .nil⟩
  | succ fuel ih =>
    intro text hlen
    cases text with
    | nil => exact ⟨[], rfl, fun _ => rfl, .nil⟩
    | cons c rest =>
      rw [length_cons] at hlen
      rw [escapeLoop, validLoop]
      by_cases hc : c < 128
      · obtain ⟨i, hi, hdec⟩ := escapeAscii_item hc
        obtain ⟨s, hs, hvalid, hreplaced⟩ := ih rest (by omega)
        rw [if_pos hc, if_pos hc]
        refine ⟨i :: s, ?_, fun h => by rw [hdec, hvalid h], ?_⟩
        · rw [← hs, ← hi]
          rfl
        · rw [hdec]
          have := Replaced.char (Char.ofNat c.toNat) hreplaced
          rwa [encode_byte hc] at this
      · rw [if_neg hc, if_neg hc, Bool.and_eq_true]
        rcases decodeUtf8_cases c rest with hbyte | ⟨lead, w, t, rfl, hlead, hw⟩
        · obtain ⟨s, hs, -, hreplaced⟩ := ih rest (by omega)
          refine ⟨.unit replacementUnit :: s, ?_, fun h => ?_, ?_⟩
          · rw [hbyte]
            dsimp only
            rw [drop_one, tail_cons, ← hs]
            rfl
          · rw [hbyte] at h
            cases h.1
          · rw [decoded_replacement]
            refine .byte (fun hstart => ?_) (fun piece hpiece hseq => ?_) hreplaced
            · have := startsChar_decode hc hstart
              rw [hbyte] at this
              cases this
            · have := isSequence_decode hseq hpiece
              rw [hbyte] at this
              exact this rfl
        · obtain ⟨s, hs, hvalid, hreplaced⟩ := ih t (by rw [length_append] at hlen; omega)
          have hdecode : decodeUtf8 c (w ++ t) = _ := decodeUtf8_whole hlead hw
          have hdrop : (c :: (w ++ t)).drop (w.length + 1) = t := by simp
          have htake : (c :: (w ++ t)).take (w.length + 1) = c :: w := by simp
          by_cases hscalar : IsScalar (w.length + 1) (codePoint lead w)
          · have hencode := encode_of_scalar hlead hw hscalar
            refine ⟨.plain _ (isPlain_of_encode hencode hc) :: s, ?_, fun h => ?_, ?_⟩
            · rw [hdecode, decide_eq_true hscalar]
              dsimp only
              rw [hdrop, htake, ← hs, ← hencode]
              rfl
            · rw [hdecode] at h
              change String.utf8EncodeChar _ ++ decoded s = _
              rw [hencode, hvalid (hdrop ▸ h.2)]
              rfl
            · have := Replaced.char (Char.ofNat (codePoint lead w)) hreplaced
              rw [hencode] at this
              change Replaced _ (String.utf8EncodeChar _ ++ decoded s)
              rwa [hencode]
          · rw [decide_eq_false hscalar] at hdecode
            refine ⟨.unit replacementUnit :: s, ?_, fun h => ?_, ?_⟩
            · rw [hdecode]
              dsimp only
              rw [hdrop, ← hs]
              rfl
            · rw [hdecode] at h
              cases h.1
            · rw [decoded_replacement]
              have hbad : ¬ StartsChar (c :: w ++ t) := by
                intro hstart
                have haccepted : (decodeUtf8 c (w ++ t)).1 = true := startsChar_decode hc hstart
                rw [hdecode] at haccepted
                cases haccepted
              exact .sequence ⟨c, w, lead, rfl, hlead, hw⟩ hbad hreplaced

end Sodex.Json
