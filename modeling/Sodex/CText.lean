import Mathlib.Data.List.DropRight

/-!
# Texts in C buffers

A text is the list of the bytes before its terminating zero. Copies are cut to the size of the
target, and every function that works on a text stops at the first zero.
-/
namespace Sodex.CText

open List

/-- The bytes of a string literal. -/
def ascii (text : String) : List UInt8 := text.toList.map fun c => c.toNat.toUInt8

/-- The text in a buffer: what stands before the first zero. -/
def cstr (buffer : List UInt8) : List UInt8 := buffer.takeWhile (· ≠ 0)

/-- A text is copied to a buffer of `cap` bytes. -/
def copyString (cap : ℕ) (src : List UInt8) : List UInt8 := (cstr src).take (cap - 1)

/-- Blanks before a line. -/
def isBlank (b : UInt8) : Bool := b = 32 ∨ b = 9

/-- Blanks and line ends after a line. -/
def isTrailing (b : UInt8) : Bool := b = 13 ∨ b = 10 ∨ b = 32 ∨ b = 9

/-- A line without what surrounds it. -/
def trim (line : List UInt8) : List UInt8 := (line.dropWhile isBlank).rdropWhile isTrailing

/-- The trimmed line is copied to a buffer of `cap` bytes. -/
def trimCopy (cap : ℕ) (line : List UInt8) : List UInt8 := cstr ((trim line).take (cap - 1))

def skipSpaces (text : List UInt8) : List UInt8 := text.dropWhile (· = 32)

/-- The text after the first `sep`. -/
def after (sep : UInt8) (text : List UInt8) : List UInt8 := (text.dropWhile (· ≠ sep)).drop 1

/-- The text before the first `sep`. -/
def before (sep : UInt8) (text : List UInt8) : List UInt8 := text.takeWhile (· ≠ sep)

/-- The lines of a text, without their ends. -/
def lines : List UInt8 → List (List UInt8)
  | [] => []
  | b :: rest =>
    if b = 10 then [] :: lines rest
    else
      match lines rest with
      | [] => [[b]]
      | line :: others => (b :: line) :: others

/-- `strstr`: the text from the first occurrence of `needle` on. -/
def strstr (needle : List UInt8) : List UInt8 → Option (List UInt8)
  | [] => if needle = [] then some [] else none
  | c :: text => if needle.isPrefixOf (c :: text) then some (c :: text) else strstr needle text

section Fits

variable {l : List UInt8}

theorem cstr_eq_self (h : 0 ∉ l) : cstr l = l := by
  rw [cstr, takeWhile_eq_self_iff]
  intro b hb
  simpa using fun hzero : b = 0 => h (hzero ▸ hb)

theorem zero_not_mem_cstr (l : List UInt8) : 0 ∉ cstr l := by
  intro hmem
  simpa using mem_takeWhile_imp hmem

theorem copyString_eq_self {cap : ℕ} (hzero : 0 ∉ l) (hlen : l.length ≤ cap - 1) :
    copyString cap l = l := by
  rw [copyString, cstr_eq_self hzero, take_of_length_le hlen]

/-- A copy fits a buffer of the same size. -/
theorem copyString_copyString (cap : ℕ) (src : List UInt8) :
    copyString cap (copyString cap src) = copyString cap src :=
  copyString_eq_self (fun hmem => zero_not_mem_cstr src (mem_of_mem_take hmem))
    (length_take_le _ _)

theorem trim_sublist (l : List UInt8) : (trim l).Sublist l :=
  (List.rdropWhile_prefix _ _).sublist.trans (dropWhile_suffix _).sublist

theorem trimCopy_eq_trim {cap : ℕ} (hzero : 0 ∉ l) (hlen : (trim l).length ≤ cap - 1) :
    trimCopy cap l = trim l := by
  rw [trimCopy, take_of_length_le hlen]
  exact cstr_eq_self fun hmem => hzero ((trim_sublist l).subset hmem)

theorem trim_trim (l : List UInt8) : trim (trim l) = trim l := by
  have hstart : (trim l).dropWhile isBlank = trim l := by
    obtain ⟨rest, hrest⟩ : trim l <+: l.dropWhile isBlank := rdropWhile_prefix _ _
    have hstop := head?_dropWhile_not isBlank l
    rw [← hrest] at hstop
    cases htrim : trim l with
    | nil => rfl
    | cons b bs =>
      rw [htrim] at hstop
      exact dropWhile_cons_of_neg (by simpa using hstop)
  rw [trim, hstart, trim, rdropWhile_idempotent]

/-- A line end is trimmed away. -/
theorem trim_concat_newline (l : List UInt8) : trim (l ++ [10]) = trim l := by
  unfold trim
  rw [dropWhile_append]
  split
  · rename_i hempty
    rw [isEmpty_iff.mp hempty]
    rfl
  · exact rdropWhile_concat_pos _ _ _ (by decide)

theorem lines_ne_nil {l : List UInt8} (h : l ≠ []) : lines l ≠ [] := by
  cases l with
  | nil => exact absurd rfl h
  | cons b l =>
    rw [lines]
    split
    · nofun
    · split <;> nofun

theorem lines_append (l rest : List UInt8) :
    lines (l ++ 10 :: rest) = lines (l ++ [10]) ++ lines rest := by
  induction l with
  | nil => simp [lines]
  | cons b l ih =>
    rw [cons_append, cons_append, lines, lines, ih]
    split
    · rfl
    · cases hl : lines (l ++ [10]) with
      | nil => exact absurd hl (lines_ne_nil (by simp))
      | cons line others => rfl

theorem zero_not_mem_lines {l : List UInt8} (h : 0 ∉ l) : ∀ line ∈ lines l, 0 ∉ line := by
  induction l with
  | nil => nofun
  | cons b l ih =>
    obtain ⟨hb, hl⟩ := not_or.mp (mem_cons.not.mp h)
    have hrest := ih hl
    rw [lines]
    split
    · simpa using hrest
    · split
      · simpa using hb
      · rename_i line others hlines
        rw [hlines] at hrest
        obtain ⟨hline, hothers⟩ := forall_mem_cons.mp hrest
        refine forall_mem_cons.mpr ⟨?_, hothers⟩
        rw [mem_cons, not_or]
        exact ⟨hb, hline⟩

end Fits

/-- The texts, each with a line end. -/
def unlines (bodies : List (List UInt8)) : List UInt8 := bodies.flatMap fun body => body ++ [10]

@[simp] theorem unlines_nil : unlines [] = [] := rfl

theorem unlines_cons (body : List UInt8) (bodies : List (List UInt8)) :
    unlines (body :: bodies) = body ++ 10 :: unlines bodies := by
  simp [unlines]

theorem unlines_append (bodies more : List (List UInt8)) :
    unlines (bodies ++ more) = unlines bodies ++ unlines more := by
  simp [unlines]

theorem lines_body {body : List UInt8} (h : 10 ∉ body) (rest : List UInt8) :
    lines (body ++ 10 :: rest) = body :: lines rest := by
  induction body with
  | nil => simp [lines]
  | cons b body ih =>
    obtain ⟨hb, hbody⟩ := not_or.mp (mem_cons.not.mp h)
    rw [cons_append, lines, if_neg (Ne.symm hb), ih hbody]

/-- Reading the lines of texts without line ends gives them back. -/
theorem lines_unlines {bodies : List (List UInt8)} (h : ∀ body ∈ bodies, 10 ∉ body) :
    lines (unlines bodies) = bodies := by
  induction bodies with
  | nil => rfl
  | cons body bodies ih =>
    obtain ⟨hbody, hbodies⟩ := forall_mem_cons.mp h
    rw [unlines_cons, lines_body hbody, ih hbodies]

/-- A cut after a line end leaves whole lines. -/
theorem drop_unlines {bodies : List (List UInt8)} (h : ∀ body ∈ bodies, 10 ∉ body) {p : ℕ}
    (hp : p = 0 ∨ (unlines bodies)[p - 1]? = some 10) :
    (unlines bodies).drop p =
      unlines (bodies.drop (((unlines bodies).take p).count 10)) := by
  induction bodies generalizing p with
  | nil => simp
  | cons body bodies ih =>
    obtain ⟨hbody, hbodies⟩ := forall_mem_cons.mp h
    rcases Nat.eq_zero_or_pos p with rfl | hpos
    · simp
    rw [unlines_cons] at hp ⊢
    have hcut := hp.resolve_left hpos.ne'
    -- the cut is not inside the first line
    have hlong : body.length < p := by
      by_contra hshort
      have hlt : p - 1 < body.length := by omega
      rw [getElem?_append_left hlt] at hcut
      exact hbody (mem_of_getElem? hcut)
    obtain ⟨q, rfl⟩ : ∃ q, p = body.length + (q + 1) := ⟨p - body.length - 1, by omega⟩
    have hcount : body.count 10 = 0 := count_eq_zero_of_not_mem hbody
    rw [drop_append, take_append, drop_of_length_le (Nat.le_add_right _ _),
      take_of_length_le (Nat.le_add_right _ _), Nat.add_sub_cancel_left, nil_append,
      drop_succ_cons, take_succ_cons, count_append, hcount, count_cons_self,
      Nat.zero_add, drop_succ_cons]
    refine ih hbodies ?_
    rcases Nat.eq_zero_or_pos q with rfl | hq
    · exact .inl rfl
    · refine .inr ?_
      rw [getElem?_append_right (by omega)] at hcut
      obtain ⟨r, rfl⟩ : ∃ r, q = r + 1 := ⟨q - 1, by omega⟩
      simpa [show body.length + (r + 1 + 1) - 1 - body.length = r + 1 by omega] using hcut

section Search

variable {needle text : List UInt8} {first : UInt8}

theorem strstr_found (text : List UInt8) : strstr needle (needle ++ text) = some (needle ++ text) := by
  cases h : needle ++ text with
  | nil => rw [strstr, if_pos (append_eq_nil_iff.mp h).1]
  | cons c rest =>
    rw [strstr, if_pos]
    rw [List.isPrefixOf_iff_prefix, ← h]
    exact prefix_append needle text

/-- Where the first character does not stand, nothing is found. -/
theorem strstr_skip (text : List UInt8) {skipped : List UInt8} (h : first ∉ skipped) :
    strstr (first :: needle) (skipped ++ text) = strstr (first :: needle) text := by
  induction skipped with
  | nil => rfl
  | cons c skipped ih =>
    obtain ⟨hc, hskipped⟩ := not_or.mp (mem_cons.not.mp h)
    rw [cons_append, strstr, if_neg, ih hskipped]
    simp [isPrefixOf, hc]

/-- Before a character that `needle` lacks, `needle` is found only if it stands there. -/
theorem strstr_before {sep : UInt8} (hsep : sep ∉ needle) (text : List UInt8)
    {skipped : List UInt8} (h : ¬needle <:+: skipped) :
    strstr needle (skipped ++ sep :: text) = strstr needle (sep :: text) := by
  induction skipped with
  | nil => rfl
  | cons c skipped ih =>
    have htail : ¬needle <:+: skipped := fun hin =>
      h (hin.trans (suffix_cons c skipped).isInfix)
    rw [cons_append, strstr, if_neg, ih htail]
    rw [List.isPrefixOf_iff_prefix, ← cons_append]
    intro hfound
    rcases le_or_gt needle.length (c :: skipped).length with hshort | hlong
    · exact h (prefix_of_prefix_length_le hfound ( prefix_append _ _) hshort).isInfix
    · -- a longer needle would reach the separator
      obtain ⟨rest, hrest⟩ := prefix_of_prefix_length_le ( prefix_append _ _) hfound
        hlong.le
      cases rest with
      | nil =>
        rw [append_nil] at hrest
        rw [hrest] at hlong
        exact absurd hlong (lt_irrefl _)
      | cons d rest =>
        rw [← hrest] at hfound hsep
        obtain ⟨more, hmore⟩ := hfound
        rw [append_assoc] at hmore
        obtain rfl : d = sep := by
          have htails := append_cancel_left hmore
          exact (head_eq_of_cons_eq htails)
        exact hsep (by simp)

end Search

end Sodex.CText
