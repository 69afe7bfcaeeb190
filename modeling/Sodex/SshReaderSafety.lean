import Sodex.SshReader

/-!
# What the wire reader exposes

The reader stays inside its buffer as long as no sum of the position and a length
leaves the range of `int`. A length of 2^31 or more turns negative, and the check
against the end of the buffer lets it pass.
-/
namespace Sodex.Ssh

open CInt Runs List Option

/-- A range inside a buffer of the given length. -/
def Within (len : ℤ) (s : Slice) : Prop := 0 ≤ s.off ∧ 0 ≤ s.len ∧ s.off + s.len ≤ len

instance (len : ℤ) (s : Slice) : Decidable (Within len s) := inferInstanceAs (Decidable (_ ∧ _))

namespace Reader

variable {r r' : Reader} {n : ℤ} {c : Call} {calls : List Call}

/-- Everything read or handed out so far lies in the buffer. -/
def Contained (r : Reader) : Prop := ∀ s ∈ r.exposed, Within r.len s

instance (r : Reader) : Decidable r.Contained := inferInstanceAs (Decidable (∀ _ ∈ _, _))

/-- The position and everything read or handed out lie in the buffer. -/
structure Inside (r : Reader) : Prop where
  pos_nonneg : 0 ≤ r.pos
  pos_le : r.pos ≤ r.len
  contained : r.Contained

/-- No sum that the call forms exceeds the largest `int`. -/
def NoWrap (r : Reader) : Call → Prop
  | .byte | .bool => r.error = true ∨ r.pos + 1 < 2147483648
  | .u32 => r.error = true ∨ r.pos + 4 < 2147483648
  | .string => r.error = true ∨ r.pos + 4 < 2147483648 ∧
      (r.pos + 4 ≤ r.len → r.pos + 4 + (readU32Be r.buf r.pos).toNat < 2147483648)

instance (r : Reader) (c : Call) : Decidable (r.NoWrap c) := by
  cases c <;> exact inferInstanceAs (Decidable (_ ∨ _))

/-- The part common to all calls: check `n` bytes against the end and step over them. -/
def skip (r : Reader) (n : ℤ) : Reader :=
  if r.error ∨ r.len < toInt (r.pos + n) then r.fail else r.advance n

theorem getByte_snd (r : Reader) : r.getByte.2 = r.skip 1 := by
  unfold getByte skip
  split <;> rfl

theorem getU32_snd (r : Reader) : r.getU32.2 = r.skip 4 := by
  unfold getU32 skip
  split <;> rfl

theorem skip_of_error (h : r.error = true) (n : ℤ) : r.skip n = r := by
  unfold skip
  cases r
  subst h
  rfl

theorem getString_snd (r : Reader) : r.getString.2 = (r.skip 4).skip (toInt r.getU32.1.toNat) := by
  unfold getString
  rw [getU32_snd]
  generalize r.skip 4 = q
  by_cases herror : q.error = true
  · rw [skip_of_error herror]
    simp [herror]
  · unfold skip
    by_cases hlt : q.len < toInt (q.pos + toInt r.getU32.1.toNat)
    · simp [herror, hlt]
    · simp [herror, hlt]

/-- The lengths that a call steps over. -/
def Call.lengths (r : Reader) : Call → List ℤ
  | .byte | .bool => [1]
  | .u32 => [4]
  | .string => [4, toInt r.getU32.1.toNat]

theorem step_eq (r : Reader) (c : Call) : r.step c = some ((c.lengths r).foldl skip r) := by
  cases c with
  | byte => exact congrArg some r.getByte_snd
  | bool => exact congrArg some r.getByte_snd
  | u32 => exact congrArg some r.getU32_snd
  | string => exact congrArg some r.getString_snd

/-- What every call does to the reader, whatever the bytes are. -/
structure Frame (r r' : Reader) : Prop where
  len : r'.len = r.len
  error : r.error = true → r'.error = true
  exposed : ∀ s ∈ r.exposed, s ∈ r'.exposed

theorem Frame.refl (r : Reader) : Frame r r := ⟨rfl, id, fun _ => id⟩

theorem Frame.trans {r'' : Reader} (h : Frame r r') (h' : Frame r' r'') : Frame r r'' :=
  ⟨h'.len.trans h.len, h'.error ∘ h.error, fun s hs => h'.exposed s (h.exposed s hs)⟩

theorem frame_skip (r : Reader) (n : ℤ) : Frame r (r.skip n) := by
  unfold skip
  split
  · exact ⟨rfl, fun _ => rfl, fun _ => id⟩
  · exact ⟨rfl, id, fun _ => mem_cons_of_mem _⟩

theorem Frame.contained (h : Frame r r') (hr : r'.Contained) : r.Contained :=
  fun s hs => h.len ▸ hr s (h.exposed s hs)

theorem step_frame (hstep : r.step c = some r') : Frame r r' := by
  obtain rfl := some.inj (step_eq r c ▸ hstep)
  clear hstep
  generalize c.lengths r = lengths
  induction lengths generalizing r with
  | nil => exact Frame.refl r
  | cons n lengths ih => exact (frame_skip r n).trans ih

theorem run_frame (hrun : run step r calls = some r') : Frame r r' :=
  run_keeps (fun _ _ _ h hstep => h.trans (step_frame hstep)) calls r r' (Frame.refl r) hrun

/-- A checked step stays inside when its sum fits an `int`. -/
theorem Inside.skip (h : r.Inside)
    (hn : r.error = true ∨ 0 ≤ n ∧ r.pos + n < 2147483648) : (r.skip n).Inside := by
  rcases hn with herror | ⟨hn, hfit⟩
  · rw [skip_of_error herror]
    exact h
  have hpos := h.pos_nonneg
  have hsum : toInt (r.pos + n) = r.pos + n := toInt_of_range (by omega) hfit
  unfold Reader.skip
  split
  · exact ⟨h.pos_nonneg, h.pos_le, h.contained⟩
  · rename_i hok
    have hend : r.pos + n ≤ r.len := by
      by_contra hend
      exact hok (.inr (by omega))
    constructor
    · show 0 ≤ toInt (r.pos + n)
      omega
    · show toInt (r.pos + n) ≤ r.len
      omega
    · intro s hs
      rcases mem_cons.mp hs with rfl | hs
      · exact ⟨hpos, hn, hend⟩
      · exact h.contained s hs

/-- When the sum does not fit, the check passes and the range is outside. -/
theorem Inside.fits_of_skip (h : r.Inside) (hlen : r.len < 2147483648)
    (hn : -2147483648 ≤ n ∧ n < 2147483648) (hskip : (r.skip n).Contained) :
    r.error = true ∨ 0 ≤ n ∧ r.pos + n < 2147483648 := by
  by_cases herror : r.error = true
  · exact .inl herror
  right
  have hpos := h.pos_nonneg
  have hle := h.pos_le
  by_contra hbad
  have hpass : ¬(r.error = true ∨ r.len < toInt (r.pos + n)) := by
    rintro (h | hlt)
    · exact herror h
    by_cases hneg : n < 0
    · rw [toInt_of_range (by omega) (by omega)] at hlt
      omega
    · rw [toInt_of_high (by omega) (by omega)] at hlt
      omega
  unfold Reader.skip at hskip
  rw [if_neg hpass] at hskip
  obtain ⟨-, hn₀, hend⟩ := hskip ⟨r.pos, n⟩ (mem_cons_self ..)
  simp only [advance] at hn₀ hend
  omega

theorem getU32_fst (h : ¬(r.error = true ∨ r.len < toInt (r.pos + 4))) :
    r.getU32.1 = readU32Be r.buf r.pos := by
  unfold getU32
  rw [if_neg h]

theorem skip_of_pass (h : ¬(r.error = true ∨ r.len < toInt (r.pos + n))) :
    r.skip n = r.advance n := if_neg h

/-- The second step of a string read, when the first one has succeeded. -/
theorem string_step (h : r.Inside) (hfit : r.pos + 4 < 2147483648) :
    ((r.skip 4).error = true ∨ 0 ≤ toInt r.getU32.1.toNat ∧
        (r.skip 4).pos + toInt r.getU32.1.toNat < 2147483648) ↔
      (r.error = true ∨ (r.pos + 4 ≤ r.len →
        r.pos + 4 + (readU32Be r.buf r.pos).toNat < 2147483648)) := by
  have hpos := h.pos_nonneg
  have hsum : toInt (r.pos + 4) = r.pos + 4 := toInt_of_range (by omega) hfit
  by_cases hpass : r.error = true ∨ r.len < toInt (r.pos + 4)
  · have hfail : (r.skip 4).error = true := by
      unfold skip
      rw [if_pos hpass]
      rfl
    refine iff_of_true (.inl hfail) ?_
    rcases hpass with herror | hlt
    · exact .inl herror
    · exact .inr fun hle => by omega
  · rw [getU32_fst hpass, skip_of_pass hpass]
    obtain ⟨herror, hlt⟩ := not_or.mp hpass
    have hsize : (readU32Be r.buf r.pos).toNat < 4294967296 := (readU32Be r.buf r.pos).toNat_lt
    simp only [advance, hsum, or_iff_right herror]
    constructor
    · rintro ⟨h₀, h₁⟩ -
      by_cases hbig : (readU32Be r.buf r.pos).toNat < 2147483648
      · rw [toInt_of_range (by omega) (by omega)] at h₁
        exact h₁
      · rw [toInt_of_high (by omega) (by omega)] at h₀
        omega
    · intro h₀
      rw [toInt_of_range (by omega) (by omega)]
      omega

/-- One call keeps everything contained exactly when no sum wraps, and it then also
leaves the position inside. -/
theorem Inside.step (h : r.Inside) (hlen : r.len < 2147483648) (hstep : r.step c = some r') :
    (r.NoWrap c → r'.Inside) ∧ (r'.Contained → r.NoWrap c) := by
  have hfixed : ∀ n : ℤ, 0 ≤ n → n < 2147483648 →
      (r.error = true ∨ r.pos + n < 2147483648 → (r.skip n).Inside) ∧
      ((r.skip n).Contained → r.error = true ∨ r.pos + n < 2147483648) := by
    intro n h₀ h₁
    constructor
    · intro hfit
      exact h.skip (hfit.imp_right fun hfit => ⟨h₀, hfit⟩)
    · intro hcontained
      exact (h.fits_of_skip hlen ⟨by omega, h₁⟩ hcontained).imp_right And.right
  rw [step_eq] at hstep
  obtain rfl := some.inj hstep
  cases c with
  | byte => exact hfixed 1 (by omega) (by omega)
  | bool => exact hfixed 1 (by omega) (by omega)
  | u32 => exact hfixed 4 (by omega) (by omega)
  | string =>
    show (_ → ((r.skip 4).skip _).Inside) ∧ (((r.skip 4).skip _).Contained → _)
    obtain ⟨hfit, hback⟩ := hfixed 4 (by omega) (by omega)
    have hrange := toInt_range r.getU32.1.toNat
    constructor
    · rintro (herror | ⟨h₄, hsize⟩)
      · rw [skip_of_error herror, skip_of_error herror]
        exact h
      · exact (hfit (.inr h₄)).skip ((string_step h h₄).mpr (.inr hsize))
    · intro hcontained
      rcases hback ((frame_skip _ _).contained hcontained) with herror | h₄
      · exact .inl herror
      have hinside := hfit (.inr h₄)
      have hsecond := hinside.fits_of_skip ((frame_skip r 4).len ▸ hlen) hrange hcontained
      exact ((string_step h h₄).mp hsecond).imp_right fun hsize => ⟨h₄, hsize⟩

/-- A run from inside the buffer exposes only the buffer exactly when no call wraps. -/
theorem Inside.run (h : r.Inside) (hlen : r.len < 2147483648)
    (hrun : run Reader.step r calls = some r') :
    (Along Reader.step NoWrap r calls → r'.Inside) ∧
      (r'.Contained → Along Reader.step NoWrap r calls) := by
  induction calls generalizing r with
  | nil =>
    obtain rfl := some.inj hrun
    exact ⟨fun _ => h, fun _ => trivial⟩
  | cons c calls ih =>
    obtain ⟨m, hm, hrest⟩ := bind_eq_some_iff.mp hrun
    have hstep := h.step hlen hm
    have hl := (step_frame hm).len
    constructor
    · rintro ⟨hwrap, htail⟩
      exact (ih (hstep.1 hwrap) (by omega) hrest).1 (htail m hm)
    · intro hcontained
      have hmid := (run_frame hrest).contained hcontained
      refine ⟨hstep.2 hmid, fun s' hs' => ?_⟩
      obtain rfl := some.inj (hm.symm.trans hs')
      exact (ih (hstep.1 (hstep.2 hmid)) (by omega) hrest).2 hcontained

/-- A string that was read has been recorded. -/
theorem getString_exposed {s : Slice} (h : r.getString.1 = some s) : s ∈ r.getString.2.exposed := by
  unfold getString at h ⊢
  by_cases herror : r.getU32.2.error = true
  · simp [herror] at h
  · rw [if_neg herror] at h ⊢
    by_cases hlt : r.getU32.2.len < toInt (r.getU32.2.pos + toInt r.getU32.1.toNat)
    · simp [hlt] at h
    · rw [if_neg hlt] at h ⊢
      rw [← some.inj h]
      exact mem_cons_self ..

theorem inside_init (buf : Memory) {len : ℤ} (h : 0 ≤ len) : (init buf len).Inside :=
  ⟨Int.le_refl 0, h, fun _ hs => absurd hs not_mem_nil⟩

end Reader

open Reader

section Parsers

variable (payload : Memory) (payloadLen : ℤ)

/-- The calls `ssh_auth_parse_request` makes on its reader. -/
def authCalls : List Call :=
  let r₀ := payloadReader payload payloadLen
  let username := r₀.getString
  let service := username.2.getString
  let method := service.2.getString
  match authTexts r₀.buf username.1 service.1 method.1 with
  | none => [.string, .string, .string]
  | some (_, _, meth) =>
    if method.2.error ∨ cstr meth ≠ ascii "password" then [.string, .string, .string]
    else [.string, .string, .string, .bool, .string]

/-- The calls of `ssh_channel_parse_open`. -/
def openCalls : List Call := [.string, .u32, .u32, .u32]

/-- The calls of `ssh_channel_parse_request`. -/
def requestCalls : List Call :=
  let r₀ := payloadReader payload payloadLen
  let request := r₀.getU32.2.getString
  if request.2.getBool.2.error then [.u32, .string, .bool]
  else
    match requestKind r₀.buf request.1 with
    | .pty => [.u32, .string, .bool, .string, .u32, .u32, .u32, .u32, .string]
    | .windowChange => [.u32, .string, .bool, .u32, .u32, .u32, .u32]
    | .shell | .unknown => [.u32, .string, .bool]

/-- The calls of `ssh_channel_parse_data`. -/
def dataCalls : List Call := [.u32, .string]

variable {payload payloadLen}

theorem run_authCalls (h : 1 < payloadLen) :
    run step (payloadReader payload payloadLen) (authCalls payload payloadLen) =
      some (authParseRequest payload payloadLen).2 := by
  unfold authCalls authParseRequest
  have hlong : ¬payloadLen ≤ 1 := by omega
  simp only [hlong, if_false]
  generalize payloadReader payload payloadLen = r₀
  cases authTexts r₀.buf r₀.getString.1 r₀.getString.2.getString.1
      r₀.getString.2.getString.2.getString.1 with
  | none => simp [run, step]
  | some texts =>
    by_cases herror : r₀.getString.2.getString.2.getString.2.error = true
    · simp [run, step, herror]
    by_cases hpass : cstr texts.2.2 = ascii "password"
    · simp only [herror, hpass, ne_eq, not_true_eq_false, or_false]
      by_cases hlast :
          r₀.getString.2.getString.2.getString.2.getBool.2.getString.2.error = true
      · simp [run, step, hlast]
      · simp [run, step, hlast]
    · simp [run, step, herror, hpass]

theorem run_openCalls (h : 1 < payloadLen) : run step (payloadReader payload payloadLen) openCalls =
      some (channelParseOpen payload payloadLen).2 := by
  unfold openCalls channelParseOpen
  have hlong : ¬payloadLen ≤ 1 := by omega
  simp only [hlong, if_false]
  split <;> rfl

theorem run_requestCalls (h : 1 < payloadLen) :
    run step (payloadReader payload payloadLen) (requestCalls payload payloadLen) =
      some (channelParseRequest payload payloadLen).2 := by
  unfold requestCalls channelParseRequest
  have hlong : ¬payloadLen ≤ 1 := by omega
  simp only [hlong, if_false]
  generalize payloadReader payload payloadLen = r₀
  by_cases herror : r₀.getU32.2.getString.2.getBool.2.error = true
  · simp only [herror, if_true]
    rfl
  · simp only [herror]
    cases requestKind r₀.buf r₀.getU32.2.getString.1 <;> rfl

theorem run_dataCalls (h : 1 < payloadLen) : run step (payloadReader payload payloadLen) dataCalls =
      some (channelParseData payload payloadLen).2 := by
  unfold dataCalls channelParseData
  have hlong : ¬payloadLen ≤ 1 := by omega
  simp only [hlong, if_false]
  split <;> rfl

/-- A parser that only makes these calls, on a payload that has any bytes behind the
message number, exposes bytes of the payload alone exactly when no call wraps. -/
theorem contained_iff_of_run {calls : List Call} {r : Reader} (hmax : payloadLen < 2147483648)
    (hrun : 1 < payloadLen → run step (payloadReader payload payloadLen) calls = some r)
    (hshort : payloadLen ≤ 1 → r = payloadReader payload payloadLen) :
    r.Contained ↔
      (1 < payloadLen → Along step NoWrap (payloadReader payload payloadLen) calls) := by
  by_cases h : 1 < payloadLen
  · have hinit : (payloadReader payload payloadLen).Inside := inside_init _ (by omega)
    have hlen : (payloadReader payload payloadLen).len < 2147483648 := by
      show payloadLen - 1 < 2147483648
      omega
    have hboth := hinit.run hlen (hrun h)
    exact ⟨fun hr _ => hboth.2 hr, fun hwrap => (hboth.1 (hwrap h)).contained⟩
  · rw [hshort (by omega)]
    exact iff_of_true (fun _ hs => absurd hs not_mem_nil) fun h' => absurd h' h

/-- The password of a parsed request is a range that the reader has handed out. -/
theorem password_exposed {q : AuthRequest} {s : Slice}
    (hq : (authParseRequest payload payloadLen).1 = some q) (hs : q.password = some s) :
    s ∈ (authParseRequest payload payloadLen).2.exposed := by
  unfold authParseRequest at hq ⊢
  simp only at hq ⊢
  generalize payloadReader payload payloadLen = r₀ at hq ⊢
  split at hq
  · cases hq
  split at hq
  · cases hq
  split at hq
  · cases hq
  rename_i hlong herror _ user serv meth htexts
  split at hq
  · obtain rfl := some.inj hq
    cases hs
  rename_i hpass
  split at hq
  · cases hq
  rename_i hlast
  obtain rfl := some.inj hq
  simp only [hlong, herror, hpass, hlast]
  exact getString_exposed hs

/-- The data of a parsed channel message is a range that the reader has handed out. -/
theorem data_exposed {q : ChannelDataRequest} {s : Slice}
    (hq : (channelParseData payload payloadLen).1 = some q) (hs : q.data = some s) :
    s ∈ (channelParseData payload payloadLen).2.exposed := by
  unfold channelParseData at hq ⊢
  simp only at hq ⊢
  split at hq
  · cases hq
  rename_i hlong
  split at hq
  · cases hq
  rename_i herror
  obtain rfl := some.inj hq
  simp only [hlong, herror]
  exact getString_exposed hs

end Parsers

/-- The reader exposes only its buffer, and the parsers only the payload, exactly when no
length that the peer sends takes a position past the largest `int`. An error is final. -/
theorem reader_exposes_buffer_iff_no_wrap {buf : Memory} {len : ℤ} {calls : List Call}
    {r : Reader} (hlen : 0 ≤ len) (hmax : len < 2147483648)
    (hrun : run step (init buf len) calls = some r)
    {payload : Memory} {payloadLen : ℤ} (hpayload : payloadLen < 2147483648) :
    (r.Inside ↔ Along step NoWrap (init buf len) calls) ∧
    (∀ more r', r.error = true → run step r more = some r' → r'.error = true) ∧
    ((authParseRequest payload payloadLen).2.Contained ↔ (1 < payloadLen →
      Along step NoWrap (payloadReader payload payloadLen) (authCalls payload payloadLen))) ∧
    ((channelParseOpen payload payloadLen).2.Contained ↔ (1 < payloadLen →
      Along step NoWrap (payloadReader payload payloadLen) openCalls)) ∧
    ((channelParseRequest payload payloadLen).2.Contained ↔ (1 < payloadLen →
      Along step NoWrap (payloadReader payload payloadLen) (requestCalls payload payloadLen))) ∧
    ((channelParseData payload payloadLen).2.Contained ↔ (1 < payloadLen →
      Along step NoWrap (payloadReader payload payloadLen) dataCalls)) ∧
    (∀ q s, (authParseRequest payload payloadLen).1 = some q → q.password = some s →
      s ∈ (authParseRequest payload payloadLen).2.exposed) ∧
    (∀ q s, (channelParseData payload payloadLen).1 = some q → q.data = some s →
      s ∈ (channelParseData payload payloadLen).2.exposed) := by
  have hboth := (inside_init buf hlen).run hmax hrun
  refine ⟨⟨fun hr => hboth.2 hr.contained, hboth.1⟩, ?_, ?_, ?_, ?_, ?_, ?_, ?_⟩
  · intro more r' herror hmore
    exact (run_frame hmore).error herror
  · exact contained_iff_of_run hpayload run_authCalls fun h =>
      congrArg Prod.snd (if_pos h)
  · exact contained_iff_of_run hpayload run_openCalls fun h =>
      congrArg Prod.snd (if_pos h)
  · exact contained_iff_of_run hpayload run_requestCalls fun h =>
      congrArg Prod.snd (if_pos h)
  · exact contained_iff_of_run hpayload run_dataCalls fun h =>
      congrArg Prod.snd (if_pos h)
  · intro q s hq hs
    exact password_exposed hq hs
  · intro q s hq hs
    exact data_exposed hq hs

/-- A buffer of zeros holds two empty strings. -/
theorem reader_exposes_buffer_of_zeros :
    ∃ r, run step (init (fun _ => 0) 8) [.string, .string] = some r ∧ r.Inside ∧
      (channelParseData (fun _ => 0) 9).2.Contained := by
  have hwrap : Along step NoWrap (init (fun _ => 0) 8) [.string, .string] := by decide
  have hdata : Along step NoWrap (payloadReader (fun _ => 0) 9) dataCalls := by decide
  obtain ⟨hinside, -, -, -, -, hparse, -, -⟩ := reader_exposes_buffer_iff_no_wrap
    (by decide : (0 : ℤ) ≤ 8) (by decide)
    (rfl : run step (init (fun _ => 0) 8) [.string, .string] = some _)
    (by decide : (9 : ℤ) < 2147483648)
  exact ⟨_, rfl, hinside.mpr hwrap, hparse.mpr fun _ => hdata⟩

/-- A length field of 2^32 - 1: the string has length -1, and the channel data handed on
is a range that no payload contains. -/
theorem string_of_length_minus_one :
    (∃ r, run step (init (fun i => if i < 4 then 0xff else 0) 8) [.string] = some r ∧
      ¬r.Inside) ∧
    ∃ q, (channelParseData (fun i => if i < 5 then 0 else 0xff) 9).1 = some q ∧
      q.data = some ⟨8, -1⟩ := by
  constructor
  · refine ⟨_, rfl, fun hinside => ?_⟩
    exact absurd hinside.contained (by decide)
  · exact ⟨⟨0, some ⟨8, -1⟩⟩, by decide +kernel, rfl⟩

end Sodex.Ssh
