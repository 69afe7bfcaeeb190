import Mathlib.Computability.Language

/-!
# The patterns of the text tools

`utt_regex_match` and `utt_wildcard_match` try every place of the text. A pattern denotes a
language, and they find exactly its words.
-/
namespace Sodex.TextTools

open Computability Language List

abbrev Text := List UInt8

/-- `utt_tolower_ascii`. -/
def toLower (c : UInt8) : UInt8 := if 65 ≤ c ∧ c ≤ 90 then c - 65 + 97 else c

def charEqual (a b : UInt8) (ignoreCase : Bool) : Bool :=
  if ignoreCase then toLower a = toLower b else a = b

/-- The loop of `utt_regex_match_star`: a place of the text where the rest matches, behind bytes
that may be skipped. -/
def regexMatchStar (matchHere : Text → Bool) (skips : UInt8 → Bool) : Text → Bool
  | [] => matchHere []
  | b :: text => matchHere (b :: text) || (skips b && regexMatchStar matchHere skips text)

def regexMatchHere (ignoreCase : Bool) : Text → Text → Bool
  | [], _ => true
  | [36], text => text = []
  | c :: 42 :: pattern, text =>
    regexMatchStar (regexMatchHere ignoreCase pattern)
      (fun b => c = 46 || charEqual b c ignoreCase) text
  | c :: pattern, b :: text =>
    (c = 46 || charEqual c b ignoreCase) && regexMatchHere ignoreCase pattern text
  | _ :: _, [] => false

/-- `utt_regex_match`; its loop skips any byte. -/
def regexMatch (pattern text : Text) (ignoreCase : Bool) : Bool :=
  if pattern.head? = some 94 then regexMatchHere ignoreCase pattern.tail text
  else regexMatchStar (regexMatchHere ignoreCase pattern) (fun _ => true) text

/-- `utt_wildcard_match`; its loop skips any byte and stops before the end of the text. -/
def wildcardMatch : Text → Text → Bool
  | [], text => text = []
  | c :: pattern, text =>
    if c = 42 then
      let rest := pattern.dropWhile (· = 42)
      if rest = [] then true
      else regexMatchStar (fun text => text ≠ [] && wildcardMatch rest text) (fun _ => true) text
    else
      match text with
      | [] => false
      | b :: text => (c = 63 || c = b) && wildcardMatch pattern text
termination_by pattern => pattern.length
decreasing_by
  · exact Nat.lt_succ_of_le (dropWhile_sublist _).length_le
  · exact Nat.lt_succ_self _

/-- The byte stands for the character of the pattern. -/
def Stands (ignoreCase : Bool) (c b : UInt8) : Prop :=
  c = 46 ∨ b = c ∨ ignoreCase = true ∧ toLower b = toLower c

def byteLanguage (P : UInt8 → Prop) : Language UInt8 := {w | ∃ b, w = [b] ∧ P b}

/-- The characters of a pattern, each with its star, and whether a `$` ends it. -/
def pieces : Text → List (UInt8 × Bool) × Bool
  | [] => ([], false)
  | [36] => ([], true)
  | c :: 42 :: pattern => ((c, true) :: (pieces pattern).1, (pieces pattern).2)
  | c :: pattern => ((c, false) :: (pieces pattern).1, (pieces pattern).2)

def regexLanguage (ignoreCase : Bool) : List (UInt8 × Bool) → Language UInt8
  | [] => 1
  | (c, true) :: ps => (byteLanguage (Stands ignoreCase c))∗ * regexLanguage ignoreCase ps
  | (c, false) :: ps => byteLanguage (Stands ignoreCase c) * regexLanguage ignoreCase ps

def globLanguage : Text → Language UInt8
  | [] => 1
  | c :: pattern =>
    (if c = 42 then ⊤ else byteLanguage fun b => c = 63 ∨ b = c) * globLanguage pattern

/-- A word of the pattern stands in the text, at the start of it after `^` and at its end before
`$`. -/
def Occurs (ignoreCase : Bool) (pattern text : Text) : Prop :=
  let anchored := pattern.head? = some 94
  let parts := pieces (if anchored then pattern.tail else pattern)
  ∃ before word after, text = before ++ (word ++ after) ∧ (anchored → before = []) ∧
    (parts.2 = true → after = []) ∧ word ∈ regexLanguage ignoreCase parts.1

section Search

variable {ignoreCase : Bool} {c b : UInt8} {pattern text : Text} {P : UInt8 → Prop}
  {L : Language UInt8}

theorem charEqual_iff : (c = 46 || charEqual c b ignoreCase) = true ↔ Stands ignoreCase c b := by
  have hself : c = b → toLower c = toLower b := congrArg toLower
  cases ignoreCase <;> simp [charEqual, Stands, @eq_comm _ b, @eq_comm _ (toLower b)]
  tauto

theorem charEqual_comm : charEqual b c ignoreCase = charEqual c b ignoreCase := by
  cases ignoreCase <;> exact decide_eq_decide.mpr eq_comm

theorem mem_byteLanguage_mul :
    text ∈ byteLanguage P * L ↔ ∃ b rest, text = b :: rest ∧ P b ∧ rest ∈ L := by
  rw [mem_mul]
  constructor
  · rintro ⟨_, ⟨b, rfl, hb⟩, rest, hrest, rfl⟩
    exact ⟨b, rest, rfl, hb, hrest⟩
  · rintro ⟨b, rest, rfl, hb, hrest⟩
    exact ⟨[b], ⟨b, rfl, hb⟩, rest, hrest, rfl⟩

theorem mem_kstar_byteLanguage : text ∈ (byteLanguage P)∗ ↔ ∀ b ∈ text, P b := by
  rw [mem_kstar]
  constructor
  · rintro ⟨words, rfl, hwords⟩ b hb
    obtain ⟨word, hword, hmem⟩ := mem_flatten.mp hb
    obtain ⟨b', rfl, hb'⟩ := hwords word hword
    rwa [mem_singleton.mp hmem]
  · intro h
    refine ⟨text.map fun b => [b], (flatMap_singleton' text).symm, fun word hword => ?_⟩
    obtain ⟨b, hb, rfl⟩ := mem_map.mp hword
    exact ⟨b, rfl, h b hb⟩

theorem regexMatchStar_iff {matchHere : Text → Bool} {skips : UInt8 → Bool} :
    regexMatchStar matchHere skips text = true ↔
      ∃ u v, text = u ++ v ∧ (∀ b ∈ u, skips b = true) ∧ matchHere v = true := by
  induction text with
  | nil => simp [regexMatchStar]
  | cons b text ih =>
    rw [regexMatchStar, Bool.or_eq_true, Bool.and_eq_true, ih]
    constructor
    · rintro (h | ⟨hb, u, v, rfl, hu, hv⟩)
      · exact ⟨[], b :: text, rfl, by simp, h⟩
      · exact ⟨b :: u, v, rfl, by simpa [hb] using hu, hv⟩
    · rintro ⟨_ | ⟨a, u⟩, v, heq, hu, hv⟩
      · exact .inl (heq ▸ hv)
      · obtain ⟨rfl, rfl⟩ := cons.inj heq
        exact .inr ⟨hu b mem_cons_self, u, v, rfl, fun a ha => hu a (mem_cons_of_mem _ ha), hv⟩

theorem regexMatchHere_iff : regexMatchHere ignoreCase pattern text = true ↔
    ∃ word after, text = word ++ after ∧ ((pieces pattern).2 = true → after = []) ∧
      word ∈ regexLanguage ignoreCase (pieces pattern).1 := by
  fun_induction pieces pattern generalizing text with
  | case1 => simp [regexMatchHere, regexLanguage]
  | case2 => simp [regexMatchHere, regexLanguage]
  | case3 c pattern ih =>
    rw [regexMatchHere, regexMatchStar_iff]
    simp only [regexLanguage, mem_mul, mem_kstar_byteLanguage, charEqual_comm, charEqual_iff, ih]
    constructor
    · rintro ⟨u, _, rfl, hu, word, after, rfl, hend, hword⟩
      exact ⟨u ++ word, after, by simp, hend, u, hu, word, hword, rfl⟩
    · rintro ⟨_, after, rfl, hend, u, hu, word, hword, rfl⟩
      exact ⟨u, word ++ after, by simp, hu, word, after, rfl, hend, hword⟩
  | case4 c pattern hend hstar ih =>
    cases text with
    | nil => simp [regexMatchHere, regexLanguage, mem_byteLanguage_mul]
    | cons b text =>
      have hhere : regexMatchHere ignoreCase (c :: pattern) (b :: text) =
          ((c = 46 || charEqual c b ignoreCase) && regexMatchHere ignoreCase pattern text) := by
        rw [regexMatchHere]
        · exact hend
        · exact hstar
      rw [hhere, Bool.and_eq_true, charEqual_iff, ih]
      simp only [regexLanguage, mem_byteLanguage_mul]
      constructor
      · rintro ⟨hb, word, after, rfl, hend, hword⟩
        exact ⟨b :: word, after, rfl, hend, b, word, rfl, hb, hword⟩
      · rintro ⟨_, after, heq, hend, b', word, rfl, hb, hword⟩
        obtain ⟨rfl, rfl⟩ := cons.inj heq
        exact ⟨hb, word, after, rfl, hend, hword⟩

theorem globLanguage_stars :
    (⊤ : Language UInt8) * globLanguage (pattern.dropWhile (· = 42)) = ⊤ * globLanguage pattern := by
  induction pattern with
  | nil => rfl
  | cons c pattern ih =>
    by_cases hc : c = 42
    · subst hc
      rw [dropWhile_cons_of_pos (by simp), ih, globLanguage, if_pos rfl, ← mul_assoc]
      congr 1
      ext text
      exact ⟨fun _ => mem_mul.mpr ⟨[], trivial, text, trivial, rfl⟩, fun _ => trivial⟩
    · rw [dropWhile_cons_of_neg (by simpa using hc)]

theorem mem_globLanguage_cons (hc : c ≠ 42) : text ∈ globLanguage (c :: pattern) ↔
    ∃ b rest, text = b :: rest ∧ (c = 63 ∨ b = c) ∧ rest ∈ globLanguage pattern := by
  rw [globLanguage, if_neg hc, mem_byteLanguage_mul]

/-- Behind the stars stands a character that needs a byte. -/
theorem nil_notMem_stars (h : pattern.dropWhile (· = 42) ≠ []) :
    [] ∉ globLanguage (pattern.dropWhile (· = 42)) := by
  obtain ⟨c, rest, heq⟩ := exists_cons_of_ne_nil h
  have hc : c ≠ 42 := by
    have hhead := head?_dropWhile_not (fun c : UInt8 => decide (c = 42)) pattern
    rw [heq] at hhead
    simpa using hhead
  rw [heq, mem_globLanguage_cons hc]
  simp

theorem wildcardMatch_iff : wildcardMatch pattern text = true ↔ text ∈ globLanguage pattern := by
  fun_induction wildcardMatch pattern text with
  | case1 text => simp [globLanguage]
  | case2 pattern text rest hrest =>
    rw [globLanguage, if_pos rfl, ← globLanguage_stars,
      show pattern.dropWhile (· = 42) = [] from hrest]
    exact iff_of_true rfl (mem_mul.mpr ⟨text, trivial, [], rfl, append_nil text⟩)
  | case3 pattern text rest hrest ih =>
    rw [globLanguage, if_pos rfl, ← globLanguage_stars, regexMatchStar_iff, mem_mul]
    simp only [Bool.and_eq_true, ih, decide_eq_true_eq]
    constructor
    · rintro ⟨u, v, rfl, -, -, hv⟩
      exact ⟨u, trivial, v, hv, rfl⟩
    · rintro ⟨u, -, v, hv, rfl⟩
      exact ⟨u, v, rfl, by simp, fun h => nil_notMem_stars hrest (h ▸ hv), hv⟩
  | case4 c pattern hc => simp [mem_globLanguage_cons hc]
  | case5 c pattern hc b text ih =>
    simp [mem_globLanguage_cons hc, ih, @eq_comm _ b]

end Search

/-- Both matchers decide the languages of their patterns. -/
theorem patterns_decided (pattern text : Text) (ignoreCase : Bool) :
    (regexMatch pattern text ignoreCase = true ↔ Occurs ignoreCase pattern text) ∧
    (wildcardMatch pattern text = true ↔ text ∈ globLanguage pattern) := by
  refine ⟨?_, wildcardMatch_iff⟩
  unfold regexMatch Occurs
  split_ifs with hanchored
  · simp [regexMatchHere_iff, hanchored]
  · simp only [regexMatchStar_iff, regexMatchHere_iff, hanchored]
    constructor
    · rintro ⟨before, _, rfl, -, word, after, rfl, hend, hword⟩
      exact ⟨before, word, after, rfl, nofun, hend, hword⟩
    · rintro ⟨before, word, after, rfl, -, hend, hword⟩
      exact ⟨before, word ++ after, rfl, by simp, word, after, rfl, hend, hword⟩

end Sodex.TextTools
