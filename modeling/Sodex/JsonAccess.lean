import Sodex.JsonTree

/-!
# Access to the tokens of a JSON text

A token is skipped with all that is inside it, so the accessors find the elements and members of
every array and object of a text, however deep it stands. `json_find_key` compares a key as it is
written: it finds the member that it should unless there is an escape in the key of the first member
in question.
-/
namespace Sodex.Json

open List Function

variable {js rest k : List UInt8} {n pos parent base fuel idx : ℕ} {first : Bool}
  {T A C : List Token} {s key : List Item} {v : Value} {d : Document}

def Elems.values : Elems → List Value
  | .nil => []
  | .cons _ v _ rest => v :: rest.values

def Members.entries : Members → List (List Item × Value)
  | .nil => []
  | .cons _ key _ _ v _ rest => (key, v) :: rest.entries

/-- The index of an element of the array at `idx`: the tokens of those before it are skipped. -/
def Elems.index (elems : Elems) (idx i : ℕ) : ℕ :=
  idx + 1 + ((elems.values.take i).map Value.count).sum

/-- The index of a key of the object at `idx`. -/
def Members.index (members : Members) (idx i : ℕ) : ℕ :=
  idx + 1 + ((members.entries.take i).map fun e => e.2.count + 1).sum

/-- The value is somewhere in the text, and its token has the index. -/
inductive Document.Holds (d : Document) : ℕ → Value → Prop where
  | root : d.Holds 0 d.value
  | elem {idx i : ℕ} {w : Ws} {elems : Elems} {v : Value} (h : d.Holds idx (.array w elems))
      (hv : elems.values[i]? = some v) : d.Holds (elems.index idx i) v
  | member {idx i : ℕ} {w : Ws} {members : Members} {key : List Item} {v : Value}
      (h : d.Holds idx (.object w members)) (hv : members.entries[i]? = some (key, v)) :
      d.Holds (members.index idx i + 1) v

/-- The string is a value or a key of the text, and its token has the index. -/
inductive Document.HoldsString (d : Document) : ℕ → List Item → Prop where
  | value {idx : ℕ} {s : List Item} (h : d.Holds idx (.string s)) : d.HoldsString idx s
  | key {idx i : ℕ} {w : Ws} {members : Members} {s : List Item} {v : Value}
      (h : d.Holds idx (.object w members)) (hv : members.entries[i]? = some (s, v)) :
      d.HoldsString (members.index idx i) s

/-- A value that stands at a position of the text and whose tokens stand at an index. -/
def Value.Stands (v : Value) (js : List UInt8) (T : List Token) (idx : ℕ) : Prop :=
  ∃ pos parent rest more, js.drop pos = v.text ++ rest ∧
    T.drop idx = v.tokens pos parent idx ++ more

def Elems.Stands (elems : Elems) (js : List UInt8) (T : List Token) (idx : ℕ) : Prop :=
  ∃ first pos parent rest more, js.drop pos = elems.text first ++ rest ∧
    T.drop idx = elems.tokens first pos parent idx ++ more

def Members.Stands (members : Members) (js : List UInt8) (T : List Token) (idx : ℕ) : Prop :=
  ∃ first pos parent rest more, js.drop pos = members.text first ++ rest ∧
    T.drop idx = members.tokens first pos parent idx ++ more

/-- A string whose token stands at an index. -/
def StringStands (s : List Item) (js : List UInt8) (T : List Token) (idx : ℕ) : Prop :=
  ∃ t, T[idx]? = some t ∧ t.kind = .string ∧ t.text js = itemsText s

theorem text_quoted {size : ℕ} {parent : Option ℕ} (h : js.drop pos = quoted s ++ rest) :
    Token.text js ⟨.string, pos + 1, some (pos + 1 + (itemsText s).length), size, parent⟩ =
      itemsText s := by
  have hbody : js.drop (pos + 1) = itemsText s ++ ([34] ++ rest) := by
    rw [drop_succ_of_drop h]
    exact append_assoc _ _ _
  rw [Token.text]
  simp [hbody]

theorem Value.Stands.string (h : (Value.string s).Stands js T idx) : StringStands s js T idx := by
  obtain ⟨pos, parent, rest, more, htext, htokens⟩ := h
  exact ⟨_, getElem?_of_drop htokens, rfl, text_quoted htext⟩

theorem Value.Stands.elems {w : Ws} {elems : Elems} (h : (Value.array w elems).Stands js T idx) :
    elems.Stands js T (idx + 1) ∧
      ∃ t, T[idx]? = some t ∧ t.kind = .array ∧ t.size = elems.length := by
  obtain ⟨pos, parent, rest, more, htext, htokens⟩ := h
  have hbody : js.drop (pos + 1) = w.val ++ (elems.text true ++ 93 :: rest) :=
    drop_succ_of_drop (by simpa [Value.text] using htext)
  exact ⟨⟨true, _, _, _, more, drop_of_drop hbody, drop_succ_of_drop htokens⟩,
    _, getElem?_of_drop htokens, rfl, rfl⟩

theorem Value.Stands.members {w : Ws} {members : Members}
    (h : (Value.object w members).Stands js T idx) :
    members.Stands js T (idx + 1) ∧
      ∃ t, T[idx]? = some t ∧ t.kind = .object ∧ t.size = members.length := by
  obtain ⟨pos, parent, rest, more, htext, htokens⟩ := h
  have hbody : js.drop (pos + 1) = w.val ++ (members.text true ++ 125 :: rest) :=
    drop_succ_of_drop (by simpa [Value.text] using htext)
  exact ⟨⟨true, _, _, _, more, drop_of_drop hbody, drop_succ_of_drop htokens⟩,
    _, getElem?_of_drop htokens, rfl, rfl⟩

theorem Elems.Stands.cons {before after : Ws} {elems : Elems}
    (h : (Elems.cons before v after elems).Stands js T idx) :
    v.Stands js T idx ∧ elems.Stands js T (idx + v.count) := by
  obtain ⟨first, pos, parent, rest, more, htext, htokens⟩ := h
  have htext : js.drop pos = separator first ++ before.val ++
      (v.text ++ (after.val ++ (elems.text false ++ rest))) := by
    simpa [Elems.text] using htext
  rw [Elems.tokens, append_assoc] at htokens
  have hvalue := drop_of_drop htext
  have hmore := drop_of_drop htokens
  rw [v.length_tokens] at hmore
  exact ⟨⟨_, _, _, _, hvalue, htokens⟩,
    ⟨false, _, _, rest, more, drop_of_drop (drop_of_drop hvalue), hmore⟩⟩

theorem Members.Stands.cons {before afterKey beforeValue after : Ws} {members : Members}
    (h : (Members.cons before key afterKey beforeValue v after members).Stands js T idx) :
    StringStands key js T idx ∧ v.Stands js T (idx + 1) ∧
      members.Stands js T (idx + 1 + v.count) := by
  obtain ⟨first, pos, parent, rest, more, htext, htokens⟩ := h
  have htext : js.drop pos = separator first ++ before.val ++ (quoted key ++ (afterKey.val ++
      58 :: (beforeValue.val ++ (v.text ++ (after.val ++ (members.text false ++ rest)))))) := by
    simpa [Members.text] using htext
  rw [Members.tokens, cons_append, append_assoc] at htokens
  have hkey := drop_of_drop htext
  have hvalue := drop_of_drop (drop_succ_of_drop (drop_of_drop (drop_of_drop hkey)))
  have hvalueTokens := drop_succ_of_drop htokens
  have hmore := drop_of_drop hvalueTokens
  rw [v.length_tokens] at hmore
  rw [show pos + (separator first ++ before.val).length + (quoted key).length +
    afterKey.val.length + 1 + beforeValue.val.length =
    pos + (separator first ++ before.val).length + (quoted key).length +
      (afterKey.val.length + 1 + beforeValue.val.length) by omega] at hvalue
  exact ⟨⟨_, getElem?_of_drop htokens, rfl, text_quoted hkey⟩, ⟨_, _, _, _, hvalue, hvalueTokens⟩,
    ⟨false, _, _, rest, more, drop_of_drop (drop_of_drop hvalue), hmore⟩⟩

theorem Elems.Stands.get {elems : Elems} (h : elems.Stands js T (idx + 1)) {i : ℕ}
    (hv : elems.values[i]? = some v) : v.Stands js T (elems.index idx i) := by
  induction i generalizing elems idx with
  | zero =>
    cases elems with
    | nil => cases hv
    | cons before u after elems =>
      obtain rfl : u = v := Option.some.inj hv
      exact h.cons.1
  | succ i ih =>
    cases elems with
    | nil => cases hv
    | cons before u after elems =>
      have hrest := h.cons.2
      rw [add_right_comm] at hrest
      have := ih hrest hv
      simpa [Elems.index, Elems.values, add_assoc, add_left_comm] using this

theorem Members.Stands.get {members : Members} (h : members.Stands js T (idx + 1)) {i : ℕ}
    (hv : members.entries[i]? = some (key, v)) :
    StringStands key js T (members.index idx i) ∧ v.Stands js T (members.index idx i + 1) := by
  induction i generalizing members idx with
  | zero =>
    cases members with
    | nil => cases hv
    | cons before u afterKey beforeValue x after members =>
      cases hv
      exact ⟨h.cons.1, h.cons.2.1⟩
  | succ i ih =>
    cases members with
    | nil => cases hv
    | cons before u afterKey beforeValue x after members =>
      have hrest := h.cons.2.2
      rw [add_right_comm] at hrest
      have := ih hrest hv
      simpa [Members.index, Members.entries, add_assoc, add_left_comm] using this

theorem Document.Holds.stands (h : d.Holds idx v) : v.Stands d.text d.tokens idx := by
  induction h with
  | root => exact ⟨_, _, _, [], d.drop_text, (append_nil _).symm⟩
  | elem _ hv ih => exact ih.elems.1.get hv
  | member _ hv ih => exact (ih.members.1.get hv).2

theorem Document.HoldsString.stands (h : d.HoldsString idx s) :
    StringStands s d.text d.tokens idx := by
  cases h with
  | value h => exact h.stands.string
  | key h hv => exact (h.stands.members.1.get hv).1

theorem skipToken_leaf {t : Token} (ht : T[idx]? = some t) (hkind : isContainer t.kind = false) :
    skipToken T (fuel + 1) idx = idx + 1 := by
  rw [skipToken, ht]
  cases hk : t.kind <;> simp_all [isContainer]

theorem skipToken_string (h : StringStands s js T idx) : skipToken T (fuel + 1) idx = idx + 1 := by
  obtain ⟨t, ht, hkind, -⟩ := h
  exact skipToken_leaf ht (by rw [hkind]; rfl)

mutual

theorem Value.skip (v : Value) {fuel idx : ℕ} (h : v.Stands js T idx) (hfuel : v.count ≤ fuel) :
    skipToken T fuel idx = idx + v.count := by
  obtain ⟨fuel, rfl⟩ : ∃ k, fuel = k + 1 := ⟨fuel - 1, by have := v.count_pos; omega⟩
  cases v with
  | literal l =>
    obtain ⟨pos, parent, rest, more, -, htokens⟩ := h
    exact skipToken_leaf (getElem?_of_drop htokens) (by cases l <;> rfl)
  | number m =>
    obtain ⟨pos, parent, rest, more, -, htokens⟩ := h
    exact skipToken_leaf (getElem?_of_drop htokens) rfl
  | string s => exact skipToken_string h.string
  | array w elems =>
    obtain ⟨helems, t, ht, hkind, hsize⟩ := h.elems
    rw [Value.count] at hfuel ⊢
    rw [skipToken, ht]
    simp only [hkind, hsize]
    rw [elems.skip helems (Nat.le_of_succ_le_succ hfuel)]
    omega
  | object w members =>
    obtain ⟨hmembers, t, ht, hkind, hsize⟩ := h.members
    rw [Value.count] at hfuel ⊢
    rw [skipToken, ht]
    simp only [hkind, hsize]
    rw [members.skip hmembers (Nat.le_of_succ_le_succ hfuel)]
    omega

theorem Elems.skip (elems : Elems) {fuel idx : ℕ} (h : elems.Stands js T idx)
    (hfuel : elems.count ≤ fuel) :
    (skipToken T fuel)^[elems.length] idx = idx + elems.count := by
  cases elems with
  | nil => rfl
  | cons before v after elems =>
    rw [Elems.count] at hfuel ⊢
    rw [Elems.length, iterate_succ_apply, v.skip h.cons.1 (by omega),
      elems.skip h.cons.2 (by omega), add_assoc]

theorem Members.skip (members : Members) {fuel idx : ℕ} (h : members.Stands js T idx)
    (hfuel : members.count ≤ fuel) :
    (skipToken T fuel)^[2 * members.length] idx = idx + members.count := by
  cases members with
  | nil => rfl
  | cons before key afterKey beforeValue v after members =>
    rw [Members.count] at hfuel ⊢
    obtain ⟨hkey, hvalue, hmore⟩ := h.cons
    obtain ⟨fuel, rfl⟩ : ∃ k, fuel = k + 1 := ⟨fuel - 1, by omega⟩
    rw [Members.length, Nat.mul_succ, iterate_add_apply]
    simp only [iterate_succ_apply, iterate_zero_apply, skipToken_string hkey]
    rw [v.skip hvalue (by omega), members.skip hmore (by omega)]
    omega

end

theorem Value.Stands.length_le {v : Value} (h : v.Stands js T idx) : idx + v.count ≤ T.length := by
  obtain ⟨pos, parent, rest, more, -, htokens⟩ := h
  have hlen := congrArg length htokens
  have := v.count_pos
  rw [length_drop, length_append, v.length_tokens] at hlen
  omega

theorem Value.Stands.skip_le {v : Value} (h : v.Stands js T idx) :
    skipToken T (T.length + 1) idx = idx + v.count := by
  have := h.length_le
  exact v.skip h (by omega)

theorem Elems.length_values (elems : Elems) : elems.values.length = elems.length := by
  cases elems with
  | nil => rfl
  | cons before v after elems => simp [Elems.values, Elems.length, elems.length_values]

theorem arrayGetLoop_elems (elems : Elems) (h : elems.Stands js T (idx + 1)) {i : ℕ}
    (hi : i < elems.length) : arrayGetLoop T i (idx + 1) = some (elems.index idx i) := by
  induction i generalizing elems idx with
  | zero => rfl
  | succ i ih =>
    cases elems with
    | nil => cases hi
    | cons before v after elems =>
      obtain ⟨hvalue, hmore⟩ := h.cons
      rw [Nat.add_right_comm] at hmore
      have hi : i < elems.length := Nat.lt_of_succ_lt_succ hi
      -- another element follows, so the end of the tokens is not reached
      have hroom : idx + 1 + v.count < T.length := by
        cases elems with
        | nil => cases hi
        | cons before u after elems =>
          have := hmore.cons.1.length_le
          have := u.count_pos
          omega
      rw [arrayGetLoop, hvalue.skip_le, if_neg (by omega), Nat.add_right_comm, ih elems hmore hi]
      simp [Elems.index, Elems.values, Nat.add_assoc, Nat.add_left_comm]

/-- `json_array_get` gives the element, if there is one. -/
theorem arrayGet_stands {w : Ws} {elems : Elems} (h : (Value.array w elems).Stands js T idx)
    (i : ℕ) : arrayGet T idx i = (elems.values[i]?).map fun _ => elems.index idx i := by
  obtain ⟨helems, t, ht, hkind, hsize⟩ := h.elems
  simp only [arrayGet, ht, hkind, hsize, true_and]
  split
  · rename_i hi
    rw [arrayGetLoop_elems elems helems hi]
    obtain ⟨v, hv⟩ : ∃ v, elems.values[i]? = some v :=
      ⟨_, getElem?_eq_getElem (by rwa [elems.length_values])⟩
    rw [hv]
    rfl
  · rename_i hi
    rw [getElem?_eq_none (by rw [elems.length_values]; omega)]
    rfl

theorem findKeyLoop_members (members : Members) (h : members.Stands js T (idx + 1)) :
    findKeyLoop js T k members.length (idx + 1) =
      (members.entries.findIdx? fun e => itemsText e.1 = k).map
        fun i => members.index idx i + 1 := by
  induction hlen : members.length generalizing members idx with
  | zero =>
    cases members with
    | nil => rfl
    | cons => cases hlen
  | succ m ih =>
    cases members with
    | nil => cases hlen
    | cons before key afterKey beforeValue v after members =>
      obtain ⟨hkey, hvalue, hmore⟩ := h.cons
      have hskipKey : skipToken T (T.length + 1) (idx + 1) = idx + 1 + 1 := skipToken_string hkey
      obtain ⟨t, ht, hkind, htext⟩ := hkey
      rw [Nat.add_right_comm (idx + 1)] at hmore
      rw [findKeyLoop, ht]
      simp only [hkind, true_and, tokenEq, htext, Members.entries, findIdx?_cons,
        decide_eq_true_eq]
      split
      · rfl
      · have hskip : (skipToken T (T.length + 1))^[2] (idx + 1) = idx + 1 + v.count + 1 := by
          rw [iterate_succ_apply, hskipKey, iterate_one, hvalue.skip_le]
          omega
        rw [hskip, ih members hmore (Nat.succ.inj hlen), Option.map_map]
        congr 1
        funext i
        simp [Members.index, Members.entries, Nat.add_assoc, Nat.add_left_comm, Nat.add_comm]

/-- `json_find_key` gives the value of the first member whose key is written as `k`. -/
theorem findKey_stands {w : Ws} {members : Members} (h : (Value.object w members).Stands js T idx) :
    findKey js T idx k = (members.entries.findIdx? fun e => itemsText e.1 = k).map
      fun i => members.index idx i + 1 := by
  obtain ⟨hmembers, t, ht, hkind, hsize⟩ := h.members
  simp only [findKey, ht, hkind, hsize, if_true]
  exact findKeyLoop_members members hmembers

theorem Escape.length_char (e : Escape) : (String.utf8EncodeChar e.char).length = 1 := by
  cases e <;> rfl

theorem length_decoded_le (s : List Item) :
    (decoded s).length + s.countP Item.isEscape ≤ (itemsText s).length := by
  have hfour : ∀ c : Char, (String.utf8EncodeChar c).length ≤ 4 := by
    intro c
    rw [String.length_utf8EncodeChar]
    exact c.utf8Size_le_four
  have hsplit : ∀ (i : Item) (s : List Item),
      (itemsText (i :: s)).length = i.text.length + (itemsText s).length := by
    intro i s
    rw [itemsText, flatMap_cons, length_append]
    rfl
  have hunit : ∀ u : CodeUnit, (Item.unit u).text.length = 6 := fun u => rfl
  have hdec : ∀ (c : Char) (l : List Char), ((c :: l).flatMap String.utf8EncodeChar).length =
      (String.utf8EncodeChar c).length + (l.flatMap String.utf8EncodeChar).length := by
    intro c l
    rw [flatMap_cons, length_append]
  unfold decoded
  induction s using chars.induct with
  | case1 => simp [chars]
  | case2 c hc s ih =>
    rw [hsplit, chars, hdec, countP_cons_of_neg (by simp [Item.isEscape]), Item.text]
    omega
  | case3 e s ih =>
    rw [hsplit, chars, hdec, countP_cons_of_pos rfl, e.length_char]
    simp only [Item.text, length_cons, length_nil]
    omega
  | case4 u v s hpair ih =>
    rw [hsplit, hsplit, chars, if_pos hpair, hdec, countP_cons_of_pos rfl,
      countP_cons_of_pos rfl, hunit, hunit]
    have := hfour (pairChar u v)
    omega
  | case5 u v s hpair ih =>
    rw [hsplit, chars, if_neg hpair, hdec, countP_cons_of_pos rfl, hunit]
    have := hfour u.char
    omega
  | case6 u s hother ih =>
    rw [hsplit, chars_unit, hdec, countP_cons_of_pos rfl, hunit]
    · have := hfour u.char
      omega
    · cases s with
      | nil => rfl
      | cons i s =>
        cases i with
        | unit v => exact absurd rfl (hother v s)
        | plain c hc => rfl
        | escape e => rfl

/-- A string is written as it is decoded if it has no escapes, and only then. -/
theorem itemsText_eq_decoded (s : List Item) :
    itemsText s = decoded s ↔ s.all (fun i => !i.isEscape) = true := by
  constructor
  · intro h
    have hle := length_decoded_le s
    rw [h] at hle
    have hnone : s.countP Item.isEscape = 0 := by omega
    rw [countP_eq_zero] at hnone
    simpa using hnone
  · intro h
    induction s with
    | nil => rfl
    | cons i s ih =>
      rw [all_cons, Bool.and_eq_true] at h
      cases i with
      | plain c hc =>
        change String.utf8EncodeChar c ++ itemsText s = String.utf8EncodeChar c ++ decoded s
        rw [ih h.2]
      | escape e => cases h.1
      | unit u => cases h.1

section Search

variable {α : Type*} {p q : α → Bool} {l : List α}

/-- Two searches agree iff the first hit of either is a hit of both. -/
theorem findIdx?_eq_iff : l.findIdx? p = l.findIdx? q ↔
    ∀ x, l.find? (fun x => p x || q x) = some x → p x = true ∧ q x = true := by
  induction l with
  | nil => simp
  | cons x l ih =>
    rw [findIdx?_cons, findIdx?_cons, find?_cons]
    cases hp : p x <;> cases hq : q x
    · simp only [Bool.false_eq_true, if_false, Bool.or_self]
      rw [← ih]
      constructor
      · intro h
        exact Option.map_injective (fun _ _ => Nat.succ.inj) h
      · intro h
        rw [h]
    · simp [hp]
    · simp [hq]
    · simp [hp, hq]

theorem sum_take_lt {f : α → ℕ} (hf : ∀ x, 0 < f x) {i j : ℕ} (hij : i < j) (hi : i < l.length) :
    ((l.take i).map f).sum < ((l.take j).map f).sum := by
  induction l generalizing i j with
  | nil => cases hi
  | cons x l ih =>
    obtain ⟨j, rfl⟩ : ∃ m, j = m + 1 := ⟨j - 1, by omega⟩
    have := hf x
    cases i with
    | zero =>
      simp
      omega
    | succ i =>
      have := ih (Nat.lt_of_succ_lt_succ hij) (Nat.lt_of_succ_lt_succ hi)
      simp only [take_succ_cons, map_cons, sum_cons]
      omega

end Search

theorem Members.index_inj {members : Members} {i j : ℕ} (hi : i < members.entries.length)
    (hj : j < members.entries.length) (h : members.index idx i = members.index idx j) : i = j := by
  unfold Members.index at h
  by_contra hne
  rcases Nat.lt_or_gt_of_ne hne with hlt | hlt
  · have := sum_take_lt (f := fun e : List Item × Value => e.2.count + 1)
      (fun _ => Nat.succ_pos _) hlt hi
    omega
  · have := sum_take_lt (f := fun e : List Item × Value => e.2.count + 1)
      (fun _ => Nat.succ_pos _) hlt hj
    omega

/-- The index of the value of the first member whose key satisfies `p`. -/
def Members.valueOf (members : Members) (idx : ℕ) (p : List Item → Bool) : Option ℕ :=
  (members.entries.findIdx? fun e => p e.1).map fun i => members.index idx i + 1

theorem Members.valueOf_inj {members : Members} {p q : List Item → Bool} :
    members.valueOf idx p = members.valueOf idx q ↔
      (members.entries.findIdx? fun e => p e.1) = members.entries.findIdx? fun e => q e.1 := by
  refine ⟨fun h => ?_, fun h => by rw [Members.valueOf, h]; rfl⟩
  unfold Members.valueOf at h
  cases hp : members.entries.findIdx? fun e => p e.1 with
  | none =>
    rw [hp, Option.map_none, eq_comm, Option.map_eq_none_iff] at h
    exact h.symm
  | some i =>
    rw [hp, Option.map_some, eq_comm, Option.map_eq_some_iff] at h
    obtain ⟨j, hq, hij⟩ := h
    have hi := (findIdx?_eq_some_iff_getElem.mp hp).1
    have hj := (findIdx?_eq_some_iff_getElem.mp hq).1
    rw [hq, members.index_inj hj hi (Nat.succ.inj hij)]

/-- No escape is in the key of the first member whose key is `k`, as it is written or as it is
decoded. -/
def Members.plainFor (members : Members) (k : List UInt8) : Bool :=
  (members.entries.find? fun e => itemsText e.1 = k ∨ decoded e.1 = k).all fun e =>
    e.1.all fun i => !i.isEscape

/-- `json_find_key` finds the member that it should iff the key is plain. -/
theorem findKey_right_iff {w : Ws} {members : Members}
    (h : (Value.object w members).Stands js T idx) :
    findKey js T idx k = members.valueOf idx (fun key => decoded key = k) ↔
      members.plainFor k = true := by
  have hraw : findKey js T idx k = members.valueOf idx fun key => itemsText key = k :=
    findKey_stands h
  rw [hraw, Members.valueOf_inj, findIdx?_eq_iff, Members.plainFor, Option.all_eq_true]
  simp only [Bool.decide_or, decide_eq_true_eq]
  refine forall_congr' fun e => forall_congr' fun he => ?_
  have hhit := find?_some he
  rw [← itemsText_eq_decoded]
  simp only [Bool.or_eq_true, decide_eq_true_eq] at hhit
  constructor
  · rintro ⟨hwritten, hdecoded⟩
    rw [hwritten, hdecoded]
  · intro heq
    rcases hhit with hhit | hhit
    · exact ⟨hhit, heq ▸ hhit⟩
    · exact ⟨heq ▸ hhit, hhit⟩

/-- A string is decoded, if the buffer has room for it and the terminating zero. -/
theorem tokenStr_stands {s : List Item} (h : StringStands s js T idx) : ∃ t, T[idx]? = some t ∧
      ∀ cap, (decoded s).length < cap → tokenStr js t cap = some (decoded s) := by
  obtain ⟨t, ht, hkind, htext⟩ := h
  refine ⟨t, ht, fun cap hcap => ?_⟩
  rw [tokenStr, if_neg (by simp [hkind]), htext, decodeLoop_items s le_rfl (by simp; omega)]
  rfl

/-- What is read of a text: its tokens, elements, strings and members. -/
theorem document_read (d : Document) (n : ℕ) (h : d.value.count ≤ n) :
    parse d.text n = .ok d.tokens ∧ d.tokens.length = d.value.count ∧
      (∀ idx w elems i, d.Holds idx (.array w elems) →
        arrayGet d.tokens idx i = (elems.values[i]?).map fun _ => elems.index idx i) ∧
      (∀ idx s, d.HoldsString idx s → ∃ t, d.tokens[idx]? = some t ∧
        ∀ cap, (decoded s).length < cap → tokenStr d.text t cap = some (decoded s)) ∧
      ∀ idx w members k, d.Holds idx (.object w members) →
        (findKey d.text d.tokens idx k = members.valueOf idx (fun key => decoded key = k) ↔
          members.plainFor k = true) := by
  refine ⟨parse_document d h, d.value.length_tokens _ _ _, ?_, ?_, ?_⟩
  · intro idx w elems i harray
    exact arrayGet_stands harray.stands i
  · intro idx s hstring
    exact tokenStr_stands hstring.stands
  · intro idx w members k hobject
    exact findKey_right_iff hobject.stands

/-- The text `{"a": [1]}`. -/
def plainDocument : Document where
  before := noWs
  value := .object noWs (.cons noWs [.plain 'a' rfl] noWs ⟨[32], by simp⟩
    (.array noWs (.cons noWs (.number ⟨false, .digits 1 (by decide) [], none, none⟩) noWs .nil))
    noWs .nil)
  after := noWs

/-- The text `{"\u0061":1}`. -/
def escapedDocument : Document where
  before := noWs
  value := .object noWs (.cons noWs [.unit ⟨⟨0, false⟩, ⟨0, false⟩, ⟨6, false⟩, ⟨1, false⟩⟩] noWs
    noWs (.number ⟨false, .digits 1 (by decide) [], none, none⟩) noWs .nil)
  after := noWs

theorem plainDocument_read : plainDocument.text = CText.ascii "\x7b\"a\": [1]\x7d" ∧
    parse plainDocument.text 4 = .ok plainDocument.tokens ∧
      findKey plainDocument.text plainDocument.tokens 0 [97] = some 2 ∧
      arrayGet plainDocument.tokens 2 0 = some 3 := by
  obtain ⟨hparse, -, harray, -, hobject⟩ := document_read plainDocument 4 (by decide)
  refine ⟨by decide, hparse, ?_, ?_⟩
  · exact (hobject 0 _ _ [97] .root).mpr rfl
  · have hinner := Document.Holds.member (d := plainDocument) (i := 0) .root rfl
    exact harray _ _ _ 0 hinner

/-- The member `a` is not found if its key is written with an escape. -/
theorem escaped_key_lost : escapedDocument.text = CText.ascii "\x7b\"\\u0061\":1\x7d" ∧
    decoded [.unit ⟨⟨0, false⟩, ⟨0, false⟩, ⟨6, false⟩, ⟨1, false⟩⟩] = [97] ∧
      parse escapedDocument.text 8 = .ok escapedDocument.tokens ∧
      findKey escapedDocument.text escapedDocument.tokens 0 [97] = none := by
  refine ⟨by decide, by decide, parse_document escapedDocument (by decide), by decide⟩

end Sodex.Json
