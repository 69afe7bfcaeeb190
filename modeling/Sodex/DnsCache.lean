import Sodex.CInt
import Sodex.Runs

/-!
# The cache of the resolver

`dns_resolve` answers from a cache of eight entries. The name of an entry is cut to its buffer but
compared in full, and the search for the entry that makes room starts from an expiry tick of
`0xFFFFFFFF`.
-/
namespace Sodex.Dns

open CInt Runs List

def DNS_HDR_SIZE : ℕ := 12
def DNS_MAX_NAME : ℕ := 128
def DNS_CACHE_SIZE : ℕ := 8
def DNS_RETRY_COUNT : ℕ := 2
def DNS_MAX_PACKET : ℕ := 512

/-- `struct dns_cache_entry`, with the text in the buffer of the name. -/
structure Entry where
  hostname : List UInt8
  addr : List UInt8
  expireTick : UInt32
  valid : Bool
  deriving DecidableEq

/-- `struct dns_result` of a name that was resolved. -/
structure Result where
  addr : List UInt8
  ttl : UInt32
  deriving DecidableEq

/-- `(int)(a - b) < 0`. -/
def Before (a b : UInt32) : Prop := toInt (a - b).toNat < 0

instance (a b : UInt32) : Decidable (Before a b) := inferInstanceAs (Decidable (_ < _))

/-- `cache_lookup`: the entries of the name that have expired are given up. -/
def cacheLookup (hostname : List UInt8) (now : UInt32) : List Entry → List Entry × Option Result
  | [] => ([], none)
  | e :: rest =>
    if e.valid ∧ e.hostname = hostname then
      if Before now e.expireTick then
        (e :: rest, some ⟨e.addr, (e.expireTick - now) / 100⟩)
      else
        let r := cacheLookup hostname now rest
        ({ e with valid := false } :: r.1, r.2)
    else
      let r := cacheLookup hostname now rest
      (e :: r.1, r.2)

/-- The loop of `cache_store`, at the entry with the index `i`. -/
def oldestLoop (i oldest : ℕ) (oldestTick : UInt32) : List Entry → ℕ
  | [] => oldest
  | e :: rest =>
    if e.valid = false then i
    else if Before e.expireTick oldestTick then oldestLoop (i + 1) i e.expireTick rest
    else oldestLoop (i + 1) oldest oldestTick rest

/-- The entry that `cache_store` writes. -/
def storeSlot (cache : List Entry) : ℕ := oldestLoop 0 0 0xFFFFFFFF cache

def cacheStore (hostname : List UInt8) (result : Result) (now : UInt32) (cache : List Entry) :
    List Entry :=
  cache.set (storeSlot cache)
    ⟨hostname.take (DNS_MAX_NAME - 1), result.addr, now + result.ttl * 100, true⟩

/-- A label of the given length goes to the buffer. -/
def putLabel (cap pos len : ℕ) : Option ℕ :=
  if len = 0 ∨ 63 < len ∨ cap < pos + 1 + len + 1 then none else some (pos + 1 + len)

/-- `dns_encode_labels`: the length of the encoded name; `len` bytes of a label have been read. -/
def encodeLabels (cap pos len : ℕ) : List UInt8 → Option ℕ
  | [] => if len = 0 then some (pos + 1) else (putLabel cap pos len).map (· + 1)
  | c :: rest =>
    if c = 46 then (putLabel cap pos len).bind fun pos => encodeLabels cap pos 0 rest
    else encodeLabels cap pos (len + 1) rest

/-- `dns_build_query`: the length of the query. -/
def buildQuery (hostname : List UInt8) : Option ℕ :=
  (encodeLabels (DNS_MAX_PACKET - DNS_HDR_SIZE - 4) 0 0 hostname).map (DNS_HDR_SIZE + · + 4)

/-- What comes of a query: nothing, or what `dns_parse_response` finds in the response and the tick
at which that is stored. -/
inductive Reply where
  | lost
  | malformed
  | nxdomain
  | answer (result : Result) (tick : UInt32)

/-- A reply that ends the retries. -/
def Reply.decides : Reply → Bool
  | .lost | .malformed => false
  | .nxdomain | .answer _ _ => true

/-- A call of `dns_resolve` at a tick. Without a socket there are no replies. -/
structure Call where
  hostname : List UInt8
  tick : UInt32
  replies : List Reply

/-- The cache, and as a history variable the names and addresses parsed so far, the last ones
first. -/
structure Resolver where
  cache : List Entry
  parsed : List (List UInt8 × List UInt8)

def Resolver.init : Resolver := ⟨replicate DNS_CACHE_SIZE ⟨[], [], 0, false⟩, []⟩

/-- The answer that a call parses and stores, if it is not answered from the cache. -/
def Resolver.stores (s : Resolver) (c : Call) : Option (Result × UInt32) :=
  if (cacheLookup c.hostname c.tick s.cache).2.isSome ∨ buildQuery c.hostname = none then none
  else
    match (c.replies.take (DNS_RETRY_COUNT + 1)).find? Reply.decides with
    | some (.answer result tick) => some (result, tick)
    | _ => none

/-- The cache after the lookup of a call. -/
def Resolver.looked (s : Resolver) (c : Call) : List Entry :=
  (cacheLookup c.hostname c.tick s.cache).1

/-- `dns_resolve`; `none` stands for its errors. -/
def dnsResolve (s : Resolver) (c : Call) : Resolver × Option Result :=
  match s.stores c with
  | some (result, tick) =>
    (⟨cacheStore c.hostname result tick (s.looked c), (c.hostname, result.addr) :: s.parsed⟩,
      some result)
  | none => ({ s with cache := s.looked c }, (cacheLookup c.hostname c.tick s.cache).2)

def step (s : Resolver) (c : Call) : Option Resolver := some (dnsResolve s c).1

/-- No two valid entries have one name. -/
def Once (cache : List Entry) : Prop :=
  ∀ (i j : ℕ) (e e' : Entry), cache[i]? = some e → cache[j]? = some e' →
    e.valid = true → e'.valid = true → e.hostname = e'.hostname → i = j

/-- What the cache answers was last parsed for the name and has not expired, no two valid entries
have one name, and of valid entries the one that expires first makes room. -/
structure CallOk (s : Resolver) (c : Call) : Prop where
  hit : ∀ result, (cacheLookup c.hostname c.tick s.cache).2 = some result →
    s.parsed.lookup c.hostname = some result.addr ∧ ∃ e ∈ s.cache, e.valid = true ∧
      e.hostname = c.hostname ∧ e.addr = result.addr ∧ Before c.tick e.expireTick
  once : Once (dnsResolve s c).1.cache
  first : s.stores c ≠ none → (∀ e ∈ s.looked c, e.valid = true) →
    ∀ e, (s.looked c)[storeSlot (s.looked c)]? = some e →
      ∀ e' ∈ s.looked c, ¬Before e'.expireTick e.expireTick

/-- The name fits the buffer of an entry, and when an entry has to make room, all of them expire in
the `2 ^ 31` ticks before the one at which the search starts. -/
structure Tame (s : Resolver) (c : Call) : Prop where
  name : c.hostname.length < DNS_MAX_NAME
  window : s.stores c ≠ none → (∀ e ∈ s.looked c, e.valid = true) →
    ∀ e ∈ s.looked c, Before e.expireTick 0xFFFFFFFF

instance (s : Resolver) (c : Call) : Decidable (Tame s c) :=
  decidable_of_iff (c.hostname.length < DNS_MAX_NAME ∧ (s.stores c ≠ none →
    (∀ e ∈ s.looked c, e.valid = true) → ∀ e ∈ s.looked c, Before e.expireTick 0xFFFFFFFF))
    ⟨fun h => ⟨h.1, h.2⟩, fun h => ⟨h.1, h.2⟩⟩

section Lookup

variable {hostname : List UInt8} {now : UInt32} {cache : List Entry}

/-- A lookup only gives entries up. -/
theorem cacheLookup_entry {e : Entry} (hvalid : e.valid = true) :
    ∀ i : ℕ, (cacheLookup hostname now cache).1[i]? = some e → cache[i]? = some e := by
  fun_induction cacheLookup hostname now cache with
  | case1 => exact fun _ h => h
  | case2 => exact fun _ h => h
  | case3 e' rest hname hlate r ih =>
    rintro (_ | i) h
    · cases h
      cases hvalid
    · exact ih i h
  | case4 e' rest hname r ih =>
    rintro (_ | i) h
    · exact h
    · exact ih i h

theorem cacheLookup_hit {result : Result} (h : (cacheLookup hostname now cache).2 = some result) :
    ∃ e ∈ cache, e.valid = true ∧ e.hostname = hostname ∧ e.addr = result.addr ∧
      Before now e.expireTick := by
  fun_induction cacheLookup hostname now cache with
  | case1 => cases h
  | case2 e rest hname hearly =>
    cases h
    exact ⟨e, mem_cons_self, hname.1, hname.2, rfl, hearly⟩
  | case3 e rest hname hlate r ih =>
    obtain ⟨e', hmem, he'⟩ := ih h
    exact ⟨e', mem_cons_of_mem e hmem, he'⟩
  | case4 e rest hname r ih =>
    obtain ⟨e', hmem, he'⟩ := ih h
    exact ⟨e', mem_cons_of_mem e hmem, he'⟩

theorem cacheLookup_miss (h : (cacheLookup hostname now cache).2 = none) :
    ∀ e ∈ (cacheLookup hostname now cache).1, e.valid = true → e.hostname ≠ hostname := by
  fun_induction cacheLookup hostname now cache with
  | case1 => nofun
  | case2 => cases h
  | case3 e rest hname hlate r ih => exact forall_mem_cons.mpr ⟨nofun, ih h⟩
  | case4 e rest hname r ih =>
    exact forall_mem_cons.mpr ⟨fun hvalid heq => hname ⟨hvalid, heq⟩, ih h⟩

end Lookup

/-- In the window of the search the order of the ticks is that of the numbers. -/
theorem before_iff_lt {a b : UInt32} (ha : Before a 0xFFFFFFFF)
    (hb : Before b 0xFFFFFFFF ∨ b = 0xFFFFFFFF) : Before a b ↔ a.toNat < b.toNat := by
  have hbefore : ∀ a b : UInt32,
      Before a b ↔ 2147483648 ≤ (4294967296 - b.toNat + a.toNat) % 4294967296 := by
    intro a b
    rw [Before, UInt32.toNat_sub, toInt]
    omega
  have hla := a.toNat_lt
  have hlb := b.toNat_lt
  rw [hbefore] at *
  have hmax : (0xFFFFFFFF : UInt32).toNat = 4294967295 := rfl
  rw [← UInt32.toNat_inj] at hb
  omega

/-- The loop keeps its choice, or it takes the entry that expires first. -/
theorem oldestLoop_first (i oldest : ℕ) (tick : UInt32) (rest : List Entry)
    (hvalid : ∀ e ∈ rest, e.valid = true) (hwindow : ∀ e ∈ rest, Before e.expireTick 0xFFFFFFFF)
    (htick : Before tick 0xFFFFFFFF ∨ tick = 0xFFFFFFFF) :
    oldestLoop i oldest tick rest = oldest ∧ (∀ e ∈ rest, tick.toNat ≤ e.expireTick.toNat) ∨
      ∃ k e, oldestLoop i oldest tick rest = i + k ∧ rest[k]? = some e ∧
        e.expireTick.toNat < tick.toNat ∧
        ∀ e' ∈ rest, e.expireTick.toNat ≤ e'.expireTick.toNat := by
  induction rest generalizing i oldest tick with
  | nil => exact .inl ⟨rfl, nofun⟩
  | cons e rest ih =>
    obtain ⟨hv, hvalid⟩ := forall_mem_cons.mp hvalid
    obtain ⟨hw, hwindow⟩ := forall_mem_cons.mp hwindow
    have hlt := before_iff_lt hw htick
    simp only [oldestLoop, hv, hlt, Bool.true_eq_false, if_false, forall_mem_cons]
    split
    · next hearly =>
      refine .inr ?_
      obtain ⟨heq, hrest⟩ | ⟨k, e', heq, hk, hless, hrest⟩ :=
        ih (i + 1) i e.expireTick hvalid hwindow (.inl hw)
      · exact ⟨0, e, heq, rfl, hearly, le_rfl, hrest⟩
      · exact ⟨k + 1, e', by omega, hk, lt_trans hless hearly, le_of_lt hless, hrest⟩
    · next hlate =>
      obtain ⟨heq, hrest⟩ | ⟨k, e', heq, hk, hless, hrest⟩ :=
        ih (i + 1) oldest tick hvalid hwindow htick
      · exact .inl ⟨heq, not_lt.mp hlate, hrest⟩
      · exact .inr ⟨k + 1, e', by omega, hk, hless, by omega, hrest⟩

theorem storeSlot_first {cache : List Entry} (hvalid : ∀ e ∈ cache, e.valid = true)
    (hwindow : ∀ e ∈ cache, Before e.expireTick 0xFFFFFFFF) {e : Entry}
    (he : cache[storeSlot cache]? = some e) :
    ∀ e' ∈ cache, ¬Before e'.expireTick e.expireTick := by
  intro e' he' hbefore
  have hmem := mem_of_getElem? he
  rw [before_iff_lt (hwindow e' he') (.inl (hwindow e hmem))] at hbefore
  have hmax := (before_iff_lt (hwindow e hmem) (.inr rfl)).mp (hwindow e hmem)
  obtain ⟨-, hrest⟩ | ⟨k, e₁, heq, hk, -, hrest⟩ :=
    oldestLoop_first 0 0 0xFFFFFFFF cache hvalid hwindow (.inr rfl)
  · exact absurd (hrest e hmem) (not_le.mpr hmax)
  · rw [storeSlot, heq, Nat.zero_add, hk] at he
    cases he
    exact absurd (hrest e' he') (not_le.mpr hbefore)

/-- No two valid entries have one name, and each has the address last parsed for its name. -/
structure Inv (s : Resolver) : Prop where
  once : Once s.cache
  parsed : ∀ e ∈ s.cache, e.valid = true → s.parsed.lookup e.hostname = some e.addr

theorem inv_init : Inv .init := by
  have hvalid : ∀ e ∈ Resolver.init.cache, e.valid = true → False := by decide
  exact ⟨fun i j e e' he _ hv => (hvalid e (mem_of_getElem? he) hv).elim,
    fun e he hv => (hvalid e he hv).elim⟩

theorem Inv.looked {s : Resolver} (hinv : Inv s) (c : Call) :
    Inv { s with cache := s.looked c } where
  once i j e e' he he' hv hv' :=
    hinv.once i j e e' (cacheLookup_entry hv i he) (cacheLookup_entry hv' j he') hv hv'
  parsed e he hv := by
    obtain ⟨i, hi⟩ := mem_iff_getElem?.mp he
    exact hinv.parsed e (mem_of_getElem? (cacheLookup_entry hv i hi)) hv

theorem Resolver.miss_of_stores {s : Resolver} {c : Call} {result : Result} {tick : UInt32}
    (h : s.stores c = some (result, tick)) : (cacheLookup c.hostname c.tick s.cache).2 = none := by
  rw [Resolver.stores] at h
  split at h
  · cases h
  · next hmiss => simpa using (not_or.mp hmiss).1

/-- A call keeps the invariant if the name fits. -/
theorem Inv.resolve {s : Resolver} (hinv : Inv s) {c : Call}
    (hname : c.hostname.length < DNS_MAX_NAME) : Inv (dnsResolve s c).1 := by
  rw [dnsResolve]
  split
  · next result tick hstores =>
    have hmiss := cacheLookup_miss (Resolver.miss_of_stores hstores)
    have hlooked := hinv.looked c
    have htake : c.hostname.take (DNS_MAX_NAME - 1) = c.hostname :=
      take_of_length_le (Nat.le_sub_one_of_lt hname)
    have hcases : ∀ i e, (cacheStore c.hostname result tick (s.looked c))[i]? = some e →
        i = storeSlot (s.looked c) ∧ e.hostname = c.hostname ∧ e.addr = result.addr ∨
          i ≠ storeSlot (s.looked c) ∧ (s.looked c)[i]? = some e := by
      intro i e he
      rw [cacheStore, htake] at he
      by_cases hi : i = storeSlot (s.looked c)
      · subst hi
        rw [getElem?_set_self'] at he
        obtain ⟨_, _, rfl⟩ := Option.map_eq_some_iff.mp he
        exact .inl ⟨rfl, rfl, rfl⟩
      · rw [getElem?_set_ne (Ne.symm hi)] at he
        exact .inr ⟨hi, he⟩
    refine ⟨fun i j e e' he he' hv hv' heq => ?_, fun e he hv => ?_⟩
    · obtain ⟨hi, hh, -⟩ | ⟨hi, he⟩ := hcases i e he <;>
        obtain ⟨hj, hh', -⟩ | ⟨hj, he'⟩ := hcases j e' he'
      · rw [hi, hj]
      · exact absurd (heq.symm.trans hh) (hmiss e' (mem_of_getElem? he') hv')
      · exact absurd (heq.trans hh') (hmiss e (mem_of_getElem? he) hv)
      · exact hlooked.once i j e e' he he' hv hv' heq
    · obtain ⟨i, hi⟩ := mem_iff_getElem?.mp he
      obtain ⟨-, hh, ha⟩ | ⟨-, hi⟩ := hcases i e hi
      · rw [hh, ha]
        exact lookup_cons_self
      · have hmem := mem_of_getElem? hi
        rw [lookup_cons, beq_eq_false_iff_ne.mpr (hmiss e hmem hv)]
        exact hlooked.parsed e hmem hv
  · exact hinv.looked c

theorem Inv.callOk {s : Resolver} (hinv : Inv s) {c : Call} (htame : Tame s c) : CallOk s c where
  hit result hresult := by
    obtain ⟨e, hmem, hv, hname, haddr, hbefore⟩ := cacheLookup_hit hresult
    refine ⟨?_, e, hmem, hv, hname, haddr, hbefore⟩
    rw [← hname, ← haddr]
    exact hinv.parsed e hmem hv
  once := (hinv.resolve htame.name).once
  first hstores hvalid _ he := storeSlot_first hvalid (htame.window hstores hvalid) he

/-- In every run of tame calls, every call is answered as it has to be. -/
theorem calls_ok_of_tame (calls : List Call) (h : Along step Tame .init calls) :
    Along step CallOk .init calls := by
  refine Along.of_invariant (I := Inv) ?_ calls .init inv_init h
  intro s c hinv htame
  refine ⟨hinv.callOk htame, ?_⟩
  rintro _ ⟨⟩
  exact hinv.resolve htame.name

/-- Nine names are resolved at one tick; the answer to the first one lives longest. -/
def crowd (tick : UInt32) : List Call :=
  (range 9).map fun i =>
    ⟨[97 + i.toUInt8], tick, [.answer ⟨[10, 0, 0, i.toUInt8], if i = 0 then 300 else 60⟩ tick]⟩

theorem crowd_ok : Along step CallOk .init (crowd 0x80000000) :=
  calls_ok_of_tame (crowd 0x80000000) (by decide +kernel)

/-- A name of 129 bytes that is resolved, and then its first 127 bytes. -/
def cutName : List Call :=
  let label := replicate 63 97
  [⟨label ++ 46 :: label ++ [46, 98], 0, [.answer ⟨[10, 0, 0, 1], 60⟩ 0]⟩,
    ⟨label ++ 46 :: label, 1, []⟩]

/-- The shorter name gets the address of the longer one, and at low ticks the first entry makes room
although it expires last. -/
theorem calls_not_ok : ¬Along step CallOk .init cutName ∧ ¬Along step CallOk .init (crowd 0) := by
  refine ⟨fun h => ?_, fun h => ?_⟩
  · have hcall := (h.2 _ rfl).1
    have hhit := (hcall.hit _ rfl).1
    revert hhit
    decide +kernel
  · have hsplit : crowd 0 = (crowd 0).take 8 ++ (crowd 0).drop 8 := rfl
    rw [hsplit] at h
    have hcall := ((Along.of_append h).2 _ rfl).1
    have hfirst := hcall.first (by decide +kernel) (by decide +kernel) _ rfl
    revert hfirst
    decide +kernel

end Sodex.Dns
