import Mathlib.Logic.Relation
import Sodex.Json

/-!
# Rounds of the JSON tokenizer

A round of the loop of `json_parse` is a step from one state to the next, which moves on in the
text. A text is accepted if rounds lead from the first state to its end and no container is open
there.
-/
namespace Sodex.Json

open List

variable {js : List UInt8} {n fuel : ℕ} {p q r : Parser} {c : UInt8}

def Round (js : List UInt8) (n : ℕ) (p q : Parser) : Prop :=
  ∃ c p', js[p.pos]? = some c ∧ parseChar js n p c = .ok p' ∧ q = { p' with pos := p'.pos + 1 }

def Rounds (js : List UInt8) (n : ℕ) : Parser → Parser → Prop := Relation.ReflTransGen (Round js n)

section LastOpen

variable {want : Kind → Bool} {tokens : List Token} {i : ℕ}

/-- A token that `want` accepts and that has no end. -/
def Token.opens (want : Kind → Bool) (t : Token) : Bool := want t.kind && t.stop.isNone

theorem find?_congr {α : Type*} {l : List α} {f g : α → Bool} (h : ∀ x ∈ l, f x = g x) :
    l.find? f = l.find? g := by
  induction l with
  | nil => rfl
  | cons x l ih =>
    rw [find?_cons, find?_cons, h x mem_cons_self,
      ih fun y hy => h y (mem_cons_of_mem x hy)]

theorem lastOpen_nil : lastOpen want [] = none := rfl

theorem lastOpen_concat (tokens : List Token) (t : Token) : lastOpen want (tokens ++ [t]) =
    if t.opens want then some tokens.length else lastOpen want tokens := by
  unfold lastOpen
  rw [length_append, length_singleton, range_succ, reverse_append,
    reverse_singleton, singleton_append, find?_cons]
  have hlast : ((tokens ++ [t])[tokens.length]?).any (fun t => want t.kind && t.stop.isNone) =
      t.opens want := by simp [Token.opens]
  rw [hlast]
  cases hopens : t.opens want with
  | true => simp
  | false =>
    apply find?_congr
    intro i hi
    have hlt : i < tokens.length := by simpa using hi
    rw [getElem?_append_left hlt]

theorem lastOpen_eq_none : lastOpen want tokens = none ↔ ∀ t ∈ tokens, t.opens want = false := by
  induction tokens using reverseRecOn with
  | nil => simp [lastOpen_nil]
  | append_singleton tokens t ih =>
    rw [lastOpen_concat]
    cases hopens : t.opens want <;> simp [hopens, ih, or_imp, forall_and]

/-- The token that is found, those before it and those behind it. -/
theorem lastOpen_split (h : lastOpen want tokens = some i) :
    ∃ before t after, tokens = before ++ t :: after ∧ i = before.length ∧ t.opens want = true ∧
      ∀ u ∈ after, u.opens want = false := by
  induction tokens using reverseRecOn with
  | nil => cases h
  | append_singleton tokens t ih =>
    rw [lastOpen_concat] at h
    split at h
    · rename_i hopens
      exact ⟨tokens, t, [], rfl, (Option.some.inj h).symm, hopens, by simp⟩
    · rename_i hopens
      obtain ⟨before, u, after, rfl, hi, hu, hafter⟩ := ih h
      refine ⟨before, u, after ++ [t], by simp, hi, hu, ?_⟩
      simpa [or_imp, forall_and] using And.intro hafter hopens

theorem lastOpen_eq_iff {before after : List Token} {t : Token} (ht : t.opens want = true) :
    lastOpen want (before ++ t :: after) = some before.length ↔
      ∀ u ∈ after, u.opens want = false := by
  induction after using reverseRecOn with
  | nil => simp [lastOpen_concat, ht]
  | append_singleton after u ih =>
    rw [← cons_append, ← append_assoc, lastOpen_concat]
    cases hu : u.opens want <;> simp [hu, ih, or_imp, forall_and]

end LastOpen

theorem alloc_ok {t : Token} (h : p.alloc n t = .ok q) :
    p.tokens.length < n ∧ q = { p with tokens := p.tokens ++ [t] } := by
  unfold Parser.alloc at h
  split at h
  · cases h
  · rename_i hroom
    exact ⟨by omega, (Except.ok.inj h).symm⟩

theorem openContainer_ok {kind : Kind} (h : openContainer n kind p = .ok q) :
    p.tokens.length < n ∧ q = { Parser.countChild
        { p with tokens := p.tokens ++ [⟨kind, p.pos, none, 0, p.toksuper⟩] } with
      toksuper := some p.tokens.length } := by
  unfold openContainer at h
  split at h
  · cases h
  · rename_i p' halloc
    obtain ⟨hroom, rfl⟩ := alloc_ok halloc
    exact ⟨hroom, (Except.ok.inj h).symm⟩

theorem closeContainer_ok {kind : Kind} (h : closeContainer kind p = .ok q) :
    ∃ i, lastOpen (· = kind) p.tokens = some i ∧ q = { p with
      tokens := p.tokens.modify i fun t => { t with stop := some (p.pos + 1) }
      toksuper := (p.tokens[i]?).bind Token.parent } := by
  unfold closeContainer at h
  split at h
  · cases h
  · rename_i i hi
    exact ⟨i, hi, (Except.ok.inj h).symm⟩

theorem parseString_ok (h : parseString js n p = .ok q) :
    ∃ close, scanString .plain (js.drop (p.pos + 1)) (p.pos + 1) = .ok close ∧
      p.tokens.length < n ∧ q = { p with
        pos := close
        tokens := p.tokens ++ [⟨.string, p.pos + 1, some close, 0, p.toksuper⟩] } := by
  unfold parseString at h
  split at h
  · cases h
  · rename_i close hclose
    exact ⟨close, hclose, alloc_ok h⟩

theorem parsePrimitive_ok (h : parsePrimitive js n p c = .ok q) :
    ∃ kind stop, primitiveKind c = some kind ∧ scanPrimitive (js.drop p.pos) p.pos = .ok stop ∧
      p.tokens.length < n ∧ q = { p with
        pos := stop - 1
        tokens := p.tokens ++ [⟨kind, p.pos, some stop, 0, p.toksuper⟩] } := by
  unfold parsePrimitive at h
  split at h
  · cases h
  · rename_i kind hkind
    split at h
    · cases h
    · rename_i stop hstop
      exact ⟨kind, stop, hkind, hstop, alloc_ok h⟩

theorem scanString_le {mode : StringMode} {rest : List UInt8} {pos close : ℕ}
    (h : scanString mode rest pos = .ok close) : pos ≤ close := by
  induction rest generalizing mode pos with
  | nil => cases mode <;> cases h
  | cons c rest ih =>
    cases mode with
    | plain =>
      rw [scanString] at h
      split at h
      · exact Nat.le_of_succ_le (ih h)
      · split at h
        · exact (Except.ok.inj h).le
        · exact Nat.le_of_succ_le (ih h)
    | escaped =>
      rw [scanString] at h
      split at h
      · exact Nat.le_of_succ_le (ih h)
      · split at h
        · exact Nat.le_of_succ_le (ih h)
        · cases h
    | hex left =>
      unfold scanString at h
      split at h
      · exact Nat.le_of_succ_le (ih h)
      · cases h

theorem scanPrimitive_le {rest : List UInt8} {pos stop : ℕ}
    (h : scanPrimitive rest pos = .ok stop) : pos ≤ stop := by
  induction rest generalizing pos with
  | nil => exact (Except.ok.inj h).le
  | cons c rest ih =>
    rw [scanPrimitive] at h
    split at h
    · exact (Except.ok.inj h).le
    · split at h
      · cases h
      · exact Nat.le_of_succ_le (ih h)

/-- The token `sup` gets one more child. -/
def countIn (sup : Option ℕ) (tokens : List Token) : List Token :=
  match sup with
  | none => tokens
  | some i => tokens.modify i fun t => { t with size := t.size + 1 }

theorem length_countIn (sup : Option ℕ) (tokens : List Token) :
    (countIn sup tokens).length = tokens.length := by
  cases sup <;> simp [countIn]

theorem modify_append_of_lt {α : Type*} {l : List α} {i : ℕ} (h : i < l.length) (m : List α)
    (f : α → α) : (l ++ m).modify i f = l.modify i f ++ m := by
  induction l generalizing i with
  | nil => cases h
  | cons x l ih =>
    cases i with
    | zero => rfl
    | succ i => simp [ih (Nat.lt_of_succ_lt_succ h)]

theorem modify_append_length {α : Type*} (l m : List α) (x : α) (f : α → α) :
    (l ++ x :: m).modify l.length f = l ++ f x :: m := by
  induction l with
  | nil => rfl
  | cons y l ih => simp [ih]

theorem countIn_append {sup : Option ℕ} {ts : List Token}
    (hsup : ∀ i, sup = some i → i < ts.length) (more : List Token) :
    countIn sup (ts ++ more) = countIn sup ts ++ more := by
  cases sup with
  | none => rfl
  | some i => exact modify_append_of_lt (hsup i rfl) more _

theorem countIn_at {A B : List Token} {t : Token} : countIn (some A.length) (A ++ t :: B) =
    A ++ { t with size := t.size + 1 } :: B := modify_append_length A B t _

theorem countChild_eq (p : Parser) :
    p.countChild = { p with tokens := countIn p.toksuper p.tokens } := by
  obtain ⟨pos, tokens, toksuper⟩ := p
  cases toksuper <;> rfl

/-- The container that a byte opens. -/
def openingKind (c : UInt8) : Option Kind :=
  if c = 123 then some .object else if c = 91 then some .array else none

/-- The container that a byte closes. -/
def closingKind (c : UInt8) : Option Kind :=
  if c = 125 then some .object else if c = 93 then some .array else none

/-- White space, a colon or a comma. -/
def isSeparator (c : UInt8) : Bool := c ∈ CText.ascii "\t\r\n :,"

/-- The text of a string or a primitive at a byte, up to where the loop goes on. -/
inductive Leaf (js : List UInt8) (pos : ℕ) (c : UInt8) : Kind → ℕ → Prop where
  | string (hc : c = 34) (close : ℕ)
      (hscan : scanString .plain (js.drop (pos + 1)) (pos + 1) = .ok close) :
      Leaf js pos c .string (close + 1)
  | primitive (kind : Kind) (hkind : primitiveKind c = some kind) (stop : ℕ)
      (hscan : scanPrimitive (js.drop pos) pos = .ok stop) : Leaf js pos c kind stop

/-- The tokens that a round at the byte `c` adds or changes. -/
inductive Change (js : List UInt8) (n : ℕ) (p : Parser) (c : UInt8) : Parser → Prop where
  | separator (hbyte : isSeparator c = true) (toksuper : Option ℕ)
      (hsuper : ∀ i, toksuper = some i → p.toksuper = some i ∨ i < p.tokens.length) :
      Change js n p c ⟨p.pos + 1, p.tokens, toksuper⟩
  | opened (kind : Kind) (hkind : openingKind c = some kind) (hroom : p.tokens.length < n) :
      Change js n p c
        ⟨p.pos + 1, countIn p.toksuper (p.tokens ++ [⟨kind, p.pos, none, 0, p.toksuper⟩]),
          some p.tokens.length⟩
  | closed (kind : Kind) (hkind : closingKind c = some kind) (i : ℕ)
      (hi : lastOpen (· = kind) p.tokens = some i) : Change js n p c
      ⟨p.pos + 1, p.tokens.modify i fun t => { t with stop := some (p.pos + 1) },
        (p.tokens[i]?).bind Token.parent⟩
  | leaf (kind : Kind) (start stop next : ℕ) (hleaf : Leaf js p.pos c kind next)
      (hstart : p.pos ≤ start) (hstop : start ≤ stop) (hnext : stop ≤ next) (hlt : start < next)
      (hroom : p.tokens.length < n) : Change js n p c
      ⟨next, countIn p.toksuper (p.tokens ++ [⟨kind, start, some stop, 0, p.toksuper⟩]),
        p.toksuper⟩

theorem map_ok {f : Parser → Parser} {x : Except Err Parser} (h : x.map f = .ok q) :
    ∃ p, x = .ok p ∧ q = f p := by
  cases x with
  | error e => cases h
  | ok p => exact ⟨p, rfl, (Except.ok.inj h).symm⟩

theorem primitiveKind_ends {kind : Kind} (h : primitiveKind c = some kind) :
    endsPrimitive c = false := by
  by_contra hends
  have hnone : ∀ c ∈ CText.ascii "\t\r\n ,]\x7d:", primitiveKind c = none := by decide +kernel
  rw [hnone c (by simpa [endsPrimitive] using hends)] at h
  cases h

theorem scanPrimitive_lt {kind : Kind} {stop : ℕ} (hc : js[p.pos]? = some c)
    (hkind : primitiveKind c = some kind) (h : scanPrimitive (js.drop p.pos) p.pos = .ok stop) :
    p.pos < stop := by
  obtain ⟨hlt, hget⟩ := List.getElem?_eq_some_iff.mp hc
  rw [drop_eq_getElem_cons hlt, hget, scanPrimitive, primitiveKind_ends hkind] at h
  simp only [Bool.false_eq_true, if_false] at h
  split at h
  · cases h
  · exact scanPrimitive_le h

theorem Round.change (h : Round js n p q) : ∃ c, js[p.pos]? = some c ∧ Change js n p c q := by
  obtain ⟨c, p', hc, hp', rfl⟩ := h
  refine ⟨c, hc, ?_⟩
  unfold parseChar at hp'
  split at hp'
  · rename_i hopen
    obtain ⟨hroom, rfl⟩ := openContainer_ok hp'
    rw [countChild_eq]
    exact .opened .object (by simp [openingKind, hopen]) hroom
  split at hp'
  · rename_i hopen
    obtain ⟨hroom, rfl⟩ := openContainer_ok hp'
    rw [countChild_eq]
    exact .opened .array (by simp [openingKind, hopen]) hroom
  split at hp'
  · rename_i hclose
    obtain ⟨i, hi, rfl⟩ := closeContainer_ok hp'
    exact .closed .object (by simp [closingKind, hclose]) i hi
  split at hp'
  · rename_i hclose
    obtain ⟨i, hi, rfl⟩ := closeContainer_ok hp'
    exact .closed .array (by simp [closingKind, hclose]) i hi
  split at hp'
  · -- a string
    rename_i hquote
    obtain ⟨p₁, hstring, rfl⟩ := map_ok hp'
    obtain ⟨close, hclose, hroom, rfl⟩ := parseString_ok hstring
    have hle := scanString_le hclose
    rw [countChild_eq]
    exact .leaf .string (p.pos + 1) close (close + 1) (.string hquote close hclose) (Nat.le_succ _)
      hle (Nat.le_succ _) (Nat.lt_succ_of_le hle) hroom
  split at hp'
  · rename_i hspace
    obtain rfl := Except.ok.inj hp'
    refine .separator ?_ _ fun i hi => .inl hi
    rcases hspace with rfl | rfl | rfl | rfl <;> decide
  split at hp'
  · -- a colon
    rename_i hcolon
    obtain rfl := Except.ok.inj hp'
    refine .separator (by rw [hcolon]; decide) _ fun i hi => .inr ?_
    split at hi
    · cases hi
    · rename_i hne
      have := length_pos_iff.mpr hne
      cases hi
      omega
  split at hp'
  · -- a comma
    rename_i hcomma
    obtain rfl := Except.ok.inj hp'
    refine .separator (by rw [hcomma]; decide) _ fun i hi => ?_
    cases hopen : lastOpen isContainer p.tokens with
    | none =>
      rw [hopen] at hi
      exact .inl hi
    | some j =>
      rw [hopen] at hi
      obtain ⟨before, t, after, htokens, rfl, -⟩ := lastOpen_split hopen
      cases hi
      exact .inr (by simp [htokens])
  · -- a primitive
    obtain ⟨p₁, hprimitive, rfl⟩ := map_ok hp'
    obtain ⟨kind, stop, hkind, hstop, hroom, rfl⟩ := parsePrimitive_ok hprimitive
    have hlt := scanPrimitive_lt hc hkind hstop
    rw [countChild_eq]
    rw [show stop - 1 + 1 = stop by omega]
    exact .leaf kind p.pos stop stop (.primitive kind hkind stop hstop) le_rfl hlt.le le_rfl hlt hroom

theorem Round.pos_lt (h : Round js n p q) : p.pos < q.pos := by
  obtain ⟨c, -, hchange⟩ := h.change
  cases hchange with
  | separator => exact Nat.lt_succ_self _
  | opened => exact Nat.lt_succ_self _
  | closed => exact Nat.lt_succ_self _
  | leaf _ _ _ _ _ hstart _ _ hlt _ => exact hstart.trans_lt hlt

theorem parseLoop_rounds (hfuel : js.length - p.pos ≤ fuel) (h : parseLoop js n fuel p = .ok q) :
    Rounds js n p q ∧ js.length ≤ q.pos := by
  induction fuel generalizing p with
  | zero =>
    obtain rfl := Except.ok.inj h
    exact ⟨.refl, by omega⟩
  | succ fuel ih =>
    rw [parseLoop] at h
    split at h
    · rename_i hnone
      obtain rfl := Except.ok.inj h
      exact ⟨.refl, getElem?_eq_none_iff.mp hnone⟩
    · rename_i c hc
      split at h
      · cases h
      · rename_i p' hp'
        have hround : Round js n p { p' with pos := p'.pos + 1 } := ⟨c, p', hc, hp', rfl⟩
        have hlt := hround.pos_lt
        have hlen : p.pos < js.length := (List.getElem?_eq_some_iff.mp hc).1
        obtain ⟨hrest, hend⟩ := ih (by omega) h
        exact ⟨.head hround hrest, hend⟩

theorem parseLoop_of_rounds (h : Rounds js n p q) (hend : js.length ≤ q.pos)
    (hfuel : js.length - p.pos ≤ fuel) : parseLoop js n fuel p = .ok q := by
  induction h using Relation.ReflTransGen.head_induction_on generalizing fuel with
  | refl =>
    cases fuel with
    | zero => rfl
    | succ fuel => rw [parseLoop, getElem?_eq_none hend]
  | @head p r hround _ ih =>
    have hlt := hround.pos_lt
    obtain ⟨c, p', hc, hp', rfl⟩ := hround
    have hlen : p.pos < js.length := (List.getElem?_eq_some_iff.mp hc).1
    obtain ⟨fuel, rfl⟩ : ∃ k, fuel = k + 1 := ⟨fuel - 1, by omega⟩
    rw [parseLoop, hc]
    simp only [hp']
    exact ih (by omega)

theorem parse_eq_ok {tokens : List Token} : parse js n = .ok tokens ↔
    n ≠ 0 ∧ ∃ p, Rounds js n .init p ∧ js.length ≤ p.pos ∧
      lastOpen isContainer p.tokens = none ∧ p.tokens = tokens := by
  unfold parse
  constructor
  · intro h
    split at h
    · cases h
    · rename_i hn
      split at h
      · cases h
      · rename_i p hp
        split at h
        · cases h
        · rename_i hopen
          obtain ⟨hrounds, hend⟩ := parseLoop_rounds (Nat.sub_le _ _) hp
          exact ⟨hn, p, hrounds, hend, Option.not_isSome_iff_eq_none.mp hopen, Except.ok.inj h⟩
  · rintro ⟨hn, p, hrounds, hend, hopen, rfl⟩
    rw [if_neg hn, parseLoop_of_rounds hrounds hend (Nat.sub_le _ _)]
    simp [hopen]

/-- A property of the state that every round keeps. -/
theorem Rounds.invariant {I : Parser → Prop} (hround : ∀ p q, I p → Round js n p q → I q)
    (h : Rounds js n p q) (hp : I p) : I q := by
  induction h with
  | refl => exact hp
  | tail _ hlast ih => exact hround _ _ ih hlast

end Sodex.Json
