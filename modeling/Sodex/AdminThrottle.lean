import Sodex.AdminTokens
import Sodex.Lockout

/-!
# Token guessing on the admin ports

All that the servers do with the table of buckets is to ask it whether a peer may connect or may
have a request. The table guards the comparisons of tokens as long as nothing makes it forget
the wrong tokens of the configured address: a request that needs no token, another address
that takes over its bucket, a window that ends, or ticks that wrap around.
-/
namespace Sodex.Admin

open CInt Runs Lockout List

/-- The back-off after some failures, in ticks. -/
def pauseTicks (failures : ℕ) : ℕ :=
  if failures ≤ ADMIN_AUTH_FAILURE_THRESHOLD then 0 else 100 * 2 ^ min (failures - 4) 3

theorem pauseTicks_mono : Monotone pauseTicks := by
  intro m n h
  unfold pauseTicks ADMIN_AUTH_FAILURE_THRESHOLD
  split
  · exact Nat.zero_le _
  · rw [if_neg (by omega)]
    exact Nat.mul_le_mul_left _ (Nat.pow_le_pow_right (by decide) (by omega))

theorem pauseTicks_le (n : ℕ) : pauseTicks n ≤ 800 := by
  unfold pauseTicks
  split
  · exact Nat.zero_le _
  · calc 100 * 2 ^ min (n - 4) 3 ≤ 100 * 2 ^ 3 :=
        Nat.mul_le_mul_left _ (Nat.pow_le_pow_right (by decide) (by omega))
      _ = 800 := rfl

theorem authBackoffTicks_toNat (n : ℕ) : (authBackoffTicks n).toNat = pauseTicks n := by
  unfold authBackoffTicks pauseTicks ADMIN_AUTH_FAILURE_THRESHOLD
  split
  · rfl
  · rename_i hlarge
    obtain ⟨extra, rfl⟩ : ∃ extra, n = extra + 4 := ⟨n - 4, by omega⟩
    -- the loop stops after three doublings
    match extra with
    | 0 => rfl
    | 1 => rfl
    | 2 => rfl
    | more + 3 =>
      simp [backoffLoop, ADMIN_AUTH_BACKOFF_MAX_SHIFT, ADMIN_AUTH_BACKOFF_BASE_TICKS]

/-- The failures counted for an address. -/
def Table.failures (t : Table) (peer : UInt32) : ℕ :=
  ((t.bucketOf peer).map Bucket.failureCount).getD 0

/-- The tick before which an address is blocked. -/
def Table.shut (t : Table) (peer : UInt32) : ℕ :=
  ((t.bucketOf peer).map fun b => b.blockedUntilTick.toNat).getD 0

/-- The window of the bucket is over. -/
def Bucket.Expired (tick : UInt32) (b : Bucket) : Prop :=
  ADMIN_AUTH_WINDOW_TICKS < toInt (tick - b.windowStartTick).toNat

instance (tick : UInt32) (b : Bucket) : Decidable (b.Expired tick) := Int.decLt _ _

/-- The window of the bucket of an address is over. -/
def Table.Expired (t : Table) (tick peer : UInt32) : Prop := ∃ b ∈ t.bucketOf peer, b.Expired tick

instance (t : Table) (tick peer : UInt32) : Decidable (t.Expired tick peer) :=
  inferInstanceAs (Decidable (∃ b ∈ t.bucketOf peer, _))

section Buckets

variable {t : Table} {tick peer : UInt32} {b : Bucket} {i : ℕ}

theorem Bucket.refresh_failureCount (hin : b.inUse = true) :
    (b.refresh tick).failureCount = b.failureCount ∨
      b.Expired tick ∧ (b.refresh tick).failureCount = 0 := by
  by_cases hexpired : b.Expired tick
  · refine .inr ⟨hexpired, ?_⟩
    simp only [refresh, hin, Bool.not_true, Bool.false_eq_true, if_false]
    exact if_pos hexpired
  · refine .inl ?_
    simp only [refresh, hin, Bool.not_true, Bool.false_eq_true, if_false]
    exact if_neg hexpired

theorem Bucket.refresh_blockedUntilTick (hin : b.inUse = true) : (b.refresh tick).blockedUntilTick =
      if b.blockedUntilTick ≠ 0 ∧ b.blockedUntilTick ≤ tick then 0 else b.blockedUntilTick := by
  simp only [refresh, hin, Bool.not_true, Bool.false_eq_true, if_false]

/-- A bucket is put in a place that does not hold the bucket of `peer`. -/
theorem Table.bucketOf_set_of_ne (hi : t.findPeer peer ≠ some i) (hb : b.peerAddr ≠ peer) :
    Table.bucketOf (t.set i b) peer = t.bucketOf peer := by
  unfold findPeer at hi
  unfold bucketOf
  induction t generalizing i with
  | nil => rfl
  | cons c t ih =>
    rw [findIdx?_cons] at hi
    cases i with
    | zero =>
      cases hc : (c.inUse && decide (c.peerAddr = peer)) with
      | true => simp [hc] at hi
      | false => simp [hc, hb]
    | succ i =>
      rw [set_cons_succ, find?_cons, find?_cons]
      cases hc : (c.inUse && decide (c.peerAddr = peer)) with
      | true => rfl
      | false =>
        refine ih fun hfind => hi ?_
        simp [hc, hfind]

theorem Table.bucketOf_set_self (hnone : t.findPeer peer = none) (hi : i < t.length)
    (hb : b.inUse = true ∧ b.peerAddr = peer) : Table.bucketOf (t.set i b) peer = some b := by
  unfold findPeer at hnone
  unfold bucketOf
  induction t generalizing i with
  | nil => exact absurd hi (Nat.not_lt_zero i)
  | cons c t ih =>
    rw [findIdx?_cons] at hnone
    split at hnone
    · cases hnone
    rename_i hc
    cases i with
    | zero => simp [hb.1, hb.2]
    | succ i =>
      rw [set_cons_succ, find?_cons, Bool.eq_false_iff.mpr hc]
      exact ih (Option.map_eq_none_iff.mp hnone) (Nat.lt_of_succ_lt_succ hi)

def older (oldest : Option (Bucket × ℕ)) (x : Bucket × ℕ) : Option (Bucket × ℕ) :=
  if x.1.inUse then
    match oldest with
    | none => some x
    | some y => if x.1.lastSeenTick < y.1.lastSeenTick then some x else oldest
  else oldest

theorem older_cases (oldest : Option (Bucket × ℕ)) (x : Bucket × ℕ) :
    older oldest x = some x ∨ older oldest x = oldest := by
  unfold older
  split
  · split
    · exact .inl rfl
    · split
      · exact .inl rfl
      · exact .inr rfl
  · exact .inr rfl

theorem foldl_older_mem (l : List (Bucket × ℕ)) (oldest : Option (Bucket × ℕ)) {x : Bucket × ℕ}
    (h : l.foldl older oldest = some x) : oldest = some x ∨ x ∈ l := by
  induction l generalizing oldest with
  | nil => exact .inl h
  | cons y l ih =>
    rcases ih _ h with hx | hx
    · rcases older_cases oldest y with hy | hy
      · rw [hy] at hx
        exact .inr (Option.some.inj hx ▸ mem_cons_self)
      · exact .inl (hy ▸ hx)
    · exact .inr (mem_cons_of_mem y hx)

theorem foldl_older_isSome (l : List (Bucket × ℕ)) {oldest : Option (Bucket × ℕ)}
    (h : oldest.isSome) : (l.foldl older oldest).isSome := by
  induction l generalizing oldest with
  | nil => exact h
  | cons y l ih =>
    refine ih ?_
    rcases older_cases oldest y with hy | hy
    · rw [hy]
      rfl
    · rw [hy]
      exact h

theorem Table.oldestSlot_eq (t : Table) :
    t.oldestSlot = (t.zipIdx.foldl older none).map Prod.snd := rfl

theorem Table.oldestSlot_lt (h : t.oldestSlot = some i) : i < t.length := by
  obtain ⟨x, hx, rfl⟩ := Option.map_eq_some_iff.mp h
  rcases foldl_older_mem _ _ hx with hnone | hmem
  · cases hnone
  · simpa using snd_lt_of_mem_zipIdx hmem

theorem Table.oldestSlot_isSome (hne : t ≠ []) (hfull : t.freeSlot = none) :
    t.oldestSlot.isSome := by
  cases t with
  | nil => exact absurd rfl hne
  | cons c t =>
    have hc : c.inUse = true := by simpa using findIdx?_eq_none_iff.mp hfull c (by simp)
    rw [oldestSlot_eq, zipIdx_cons, foldl_cons, Option.isSome_map]
    refine foldl_older_isSome _ ?_
    simp [older, hc]

/-- There is always a place. -/
theorem Table.newSlot (hne : t ≠ []) : ∃ i, t.freeSlot.or t.oldestSlot = some i ∧ i < t.length := by
  cases hfree : t.freeSlot with
  | some i => exact ⟨i, rfl, (findIdx?_eq_some_iff_getElem.mp hfree).1⟩
  | none =>
    obtain ⟨i, hi⟩ := Option.isSome_iff_exists.mp (Table.oldestSlot_isSome hne hfree)
    exact ⟨i, hi, Table.oldestSlot_lt hi⟩

theorem Bucket.fail_refresh_frame (tick : UInt32) (b : Bucket) :
    ((b.refresh tick).fail tick).inUse = b.inUse ∧
      ((b.refresh tick).fail tick).peerAddr = b.peerAddr := Bucket.refresh_frame tick b

theorem Table.modify_set (t : Table) (i : ℕ) (b : Bucket) (f : Bucket → Bucket) :
    modify (t.set i b) i f = t.set i (f b) := by
  induction t generalizing i with
  | nil => simp
  | cons c t ih =>
    cases i with
    | zero => rfl
    | succ i => rw [set_cons_succ, modify_succ_cons, ih, set_cons_succ]

/-- `admin_record_auth_failure` for an address without a bucket. -/
theorem recordAuthFailure_missing (hnone : t.findPeer peer = none)
    (hslot : t.freeSlot.or t.oldestSlot = some i) :
    (recordAuthFailure tick t peer).2 =
      t.set i (((Bucket.new tick peer).refresh tick).fail tick) := by
  unfold recordAuthFailure
  rw [findAuthBucket, hnone]
  simp only [if_true, hslot, Option.map_some]
  exact Table.modify_set t i _ _

/-- What `admin_record_auth_failure` does for the address itself. -/
theorem recordAuthFailure_self (hne : t ≠ []) : (recordAuthFailure tick t peer).2.bucketOf peer =
      some ((((t.bucketOf peer).getD (Bucket.new tick peer)).refresh tick).fail tick) := by
  cases hfind : t.findPeer peer with
  | some i =>
    have hmodify := Table.bucketOf_modify hfind (Bucket.fail_refresh_frame tick) peer
    rw [if_pos rfl, Table.getD_findPeer hfind] at hmodify
    rw [Table.getD_findPeer hfind, recordAuthFailure, findAuthBucket_found hfind]
    exact hmodify
  | none =>
    obtain ⟨i, hslot, hi⟩ := Table.newSlot hne
    rw [recordAuthFailure_missing hfind hslot, Table.bucketOf_eq_none hfind]
    exact Table.bucketOf_set_self hfind hi (Bucket.fail_refresh_frame tick (Bucket.new tick peer))

/-- A question of `peer` does not take the bucket of `owner` away. -/
def Undisplaced (t : Table) (owner peer : UInt32) : Prop :=
  peer ≠ owner → t.findPeer peer = none → t.freeSlot = none →
    ∀ i ∈ t.oldestSlot, t.findPeer owner ≠ some i

instance (t : Table) (owner peer : UInt32) : Decidable (Undisplaced t owner peer) :=
  inferInstanceAs (Decidable (_ → _ → _ → ∀ i ∈ t.oldestSlot, _))

/-- What `admin_record_auth_failure` does for another address. -/
theorem recordAuthFailure_other {owner : UInt32} (hne : t ≠ []) (hpeer : peer ≠ owner)
    (hkept : Undisplaced t owner peer) :
    (recordAuthFailure tick t peer).2.bucketOf owner = t.bucketOf owner := by
  cases hfind : t.findPeer peer with
  | some i =>
    have hmodify := Table.bucketOf_modify hfind (Bucket.fail_refresh_frame tick) owner
    rw [if_neg hpeer.symm] at hmodify
    rw [recordAuthFailure, findAuthBucket_found hfind]
    exact hmodify
  | none =>
    obtain ⟨i, hslot, -⟩ := Table.newSlot hne
    rw [recordAuthFailure_missing hfind hslot]
    have hother : t.findPeer owner ≠ some i := by
      intro howner
      cases hfree : t.freeSlot with
      | none =>
        rw [hfree, Option.none_or] at hslot
        exact hkept hpeer hfind hfree i hslot howner
      | some j =>
        -- a free place is not the place of a bucket in use
        rw [hfree, Option.some_or] at hslot
        obtain rfl := Option.some.inj hslot
        obtain ⟨_, hfreeSlot, -⟩ := findIdx?_eq_some_iff_getElem.mp hfree
        obtain ⟨_, hused, -⟩ := findIdx?_eq_some_iff_getElem.mp howner
        simp only [Bool.and_eq_true] at hused
        simp [hused.1] at hfreeSlot
    refine Table.bucketOf_set_of_ne hother ?_
    exact hpeer

theorem isPeerThrottled_ne_nil (h : t ≠ []) : (isPeerThrottled tick t peer).2 ≠ [] := by
  unfold isPeerThrottled findAuthBucket
  cases t.findPeer peer with
  | none => simpa using h
  | some i => simpa [← length_eq_zero_iff] using h

theorem recordAuthFailure_ne_nil (h : t ≠ []) : (recordAuthFailure tick t peer).2 ≠ [] := by
  unfold recordAuthFailure findAuthBucket
  cases t.findPeer peer with
  | none =>
    cases t.freeSlot.or t.oldestSlot with
    | none => simpa using h
    | some i => simpa [← length_eq_zero_iff] using h
  | some i => simpa [← length_eq_zero_iff] using h

theorem recordAuthSuccess_ne_nil (h : t ≠ []) : recordAuthSuccess tick t peer ≠ [] := by
  unfold recordAuthSuccess findAuthBucket
  cases t.findPeer peer with
  | none => simpa using h
  | some i => simpa [← length_eq_zero_iff] using h

end Buckets

/-- The tokens of an address that were compared. -/
def attempts (checks : List Check) (peer : UInt32) : List Attempt :=
  (checks.filter fun c => c.peer = peer).map fun c => ⟨c.tick.toNat, c.correct⟩

def Ask.peer : Ask → UInt32
  | .connect peer => peer
  | .request peer _ => peer

/-- The table forgets the failures of the configured address: its window is over, or the address
is served without a token. -/
def Forgets (rt : Runtime) (l : Ledger) (tick : UInt32) (ask : Ask) : Prop :=
  ask.peer = rt.allowIp ∧ (l.table.Expired tick rt.allowIp ∨
    match ask with
    | .connect _ => False
    | .request _ req => req.requiredRole.level ≤ Role.health.level ∧
        (isPeerThrottled tick l.table rt.allowIp).1 = false)

instance (rt : Runtime) (l : Ledger) (tick : UInt32) (ask : Ask) :
    Decidable (Forgets rt l tick ask) := by
  unfold Forgets
  cases ask <;> infer_instance

/-- A question that does not disturb the count of wrong tokens. -/
structure Undisturbed (rt : Runtime) (l : Ledger) (input : UInt32 × Ask) : Prop where
  later : l.now ≤ input.1
  unwrapped : input.1.toNat + 800 < 2 ^ 32
  undisplaced : Undisplaced l.table rt.allowIp input.2.peer
  remembered : Forgets rt l input.1 input.2 →
    recent 300 input.1.toNat (attempts l.checks rt.allowIp) = 0

instance (rt : Runtime) (l : Ledger) (input : UInt32 × Ask) :
    Decidable (Undisturbed rt l input) :=
  decidable_of_iff (l.now ≤ input.1 ∧ input.1.toNat + 800 < 2 ^ 32 ∧
      Undisplaced l.table rt.allowIp input.2.peer ∧ (Forgets rt l input.1 input.2 →
        recent 300 input.1.toNat (attempts l.checks rt.allowIp) = 0))
    ⟨fun h => ⟨h.1, h.2.1, h.2.2.1, h.2.2.2⟩,
      fun h => ⟨h.later, h.unwrapped, h.undisplaced, h.remembered⟩⟩

/-- The table guards the tokens of the configured address. -/
structure Watched (rt : Runtime) (l : Ledger) : Prop where
  table : l.table ≠ []
  others : ∀ c ∈ l.checks, c.peer = rt.allowIp
  guarded : Guarded 300 pauseTicks (attempts l.checks rt.allowIp) l.now.toNat
    (l.table.failures rt.allowIp) (l.table.shut rt.allowIp)

section Steps

variable {rt : Runtime} {l : Ledger} {t : Table} {tick peer : UInt32} {ask : Ask}

theorem attempts_append (checks more : List Check) (peer : UInt32) :
    attempts (checks ++ more) peer = attempts checks peer ++ attempts more peer := by
  simp [attempts]

/-- Another address, or none at all. -/
theorem Watched.other (h : Watched rt l) (hlater : l.now ≤ tick) (hne : t ≠ [])
    (hbucket : t.bucketOf rt.allowIp = l.table.bucketOf rt.allowIp) :
    Watched rt ⟨t, l.checks, tick⟩ := by
  refine ⟨hne, h.others, ?_⟩
  have hfailures : t.failures rt.allowIp = l.table.failures rt.allowIp := by
    rw [Table.failures, Table.failures, hbucket]
  have hshut : t.shut rt.allowIp = l.table.shut rt.allowIp := by
    rw [Table.shut, Table.shut, hbucket]
  simp only [hfailures, hshut]
  exact h.guarded.wait (UInt32.le_iff_toNat_le.mp hlater) (Or.inl le_rfl) (Or.inl le_rfl)

/-- The table refreshes the bucket of the configured address. -/
theorem Watched.refreshed (h : Watched rt l) (hun : Undisturbed rt l (tick, ask))
    (hpeer : ask.peer = rt.allowIp) :
    Watched rt ⟨(isPeerThrottled tick l.table rt.allowIp).2, l.checks, tick⟩ := by
  refine ⟨isPeerThrottled_ne_nil h.table, h.others, ?_⟩
  have hbucket := (isPeerThrottled_spec tick l.table rt.allowIp).2 rt.allowIp
  rw [if_pos rfl] at hbucket
  have hnow := UInt32.le_iff_toNat_le.mp hun.later
  cases hb : l.table.bucketOf rt.allowIp with
  | none =>
    have hguarded := h.guarded
    simp only [Table.failures, Table.shut, hbucket, hb, Option.map_none] at hguarded ⊢
    exact hguarded.wait hnow (Or.inl le_rfl) (Or.inl le_rfl)
  | some b =>
    have hin := (Table.bucketOf_eq_some hb).1
    have hguarded := h.guarded
    simp only [Table.failures, Table.shut, hbucket, hb, Option.map_some, Option.getD_some]
      at hguarded ⊢
    refine hguarded.wait hnow ?_ ?_
    · rcases Bucket.refresh_failureCount hin with hcount | ⟨hexpired, -⟩
      · exact Or.inl hcount.ge
      · exact Or.inr (hun.remembered ⟨hpeer, Or.inl ⟨b, hb, hexpired⟩⟩)
    · rw [Bucket.refresh_blockedUntilTick hin]
      split
      · rename_i hover
        exact Or.inr (UInt32.le_iff_toNat_le.mp hover.2)
      · exact Or.inl le_rfl

/-- What is known of the bucket of the configured address when it is not throttled. -/
theorem Table.shut_of_not_throttled (h : (isPeerThrottled tick t peer).1 = false) :
    (isPeerThrottled tick t peer).2.shut peer = 0 := by
  obtain ⟨hanswer, hbucket⟩ := isPeerThrottled_spec tick t peer
  rw [hanswer] at h
  rw [Table.shut, hbucket peer, if_pos rfl]
  cases hb : t.bucketOf peer with
  | none => rfl
  | some b =>
    rw [hb] at h
    have hzero : (b.refresh tick).blockedUntilTick = 0 := by simpa using h
    simp [hzero]

theorem Bucket.not_expired_refresh {b : Bucket} (hin : b.inUse = true) :
    ¬(b.refresh tick).Expired tick := by
  have hstart : (b.refresh tick).windowStartTick =
      if b.Expired tick then tick else b.windowStartTick := by
    simp only [refresh, hin, Bool.not_true, Bool.false_eq_true, if_false]
    rfl
  intro hexpired
  by_cases hb : b.Expired tick
  · rw [if_pos hb] at hstart
    rw [Expired, hstart, UInt32.sub_self] at hexpired
    exact absurd hexpired (by decide)
  · rw [if_neg hb] at hstart
    rw [Expired, hstart] at hexpired
    exact hb hexpired

/-- A failure of an address whose bucket was just refreshed. -/
theorem recordAuthFailure_counts (hne : t ≠ []) (hfresh : ¬t.Expired tick peer)
    (hroom : tick.toNat + 800 < 2 ^ 32) :
    (recordAuthFailure tick t peer).2.failures peer = t.failures peer + 1 ∧
      (0 < pauseTicks (t.failures peer + 1) → tick.toNat + pauseTicks (t.failures peer + 1) ≤
        (recordAuthFailure tick t peer).2.shut peer) := by
  obtain ⟨b, hb, hin, hcount, hexpired⟩ : ∃ b, (t.bucketOf peer).getD (Bucket.new tick peer) = b ∧
      b.inUse = true ∧ b.failureCount = t.failures peer ∧ ¬b.Expired tick := by
    refine ⟨_, rfl, ?_⟩
    cases hbucket : t.bucketOf peer with
    | none =>
      refine ⟨rfl, ?_, ?_⟩
      · rw [Table.failures, hbucket]
        rfl
      · simp [Bucket.Expired, Bucket.new, toInt, ADMIN_AUTH_WINDOW_TICKS]
    | some b =>
      refine ⟨(Table.bucketOf_eq_some hbucket).1, ?_, fun h => hfresh ⟨b, hbucket, h⟩⟩
      rw [Table.failures, hbucket]
      rfl
  have hself : (recordAuthFailure tick t peer).2.bucketOf peer =
      some ((b.refresh tick).fail tick) := by rw [recordAuthFailure_self hne, hb]
  have hkept : (b.refresh tick).failureCount = t.failures peer := by
    rcases Bucket.refresh_failureCount hin with h | h
    · exact h.trans hcount
    · exact absurd h.1 hexpired
  refine ⟨?_, fun hpause => ?_⟩
  · rw [Table.failures, hself, ← hkept]
    rfl
  · have hback := authBackoffTicks_toNat (t.failures peer + 1)
    have hle := pauseTicks_le (t.failures peer + 1)
    have hpos : 0 < authBackoffTicks (t.failures peer + 1) := by
      rw [UInt32.lt_iff_toNat_lt, hback]
      exact hpause
    rw [Table.shut, hself]
    simp only [Option.map_some, Option.getD_some, Bucket.fail, hkept]
    rw [if_pos hpos, UInt32.toNat_add, hback, Nat.mod_eq_of_lt (by omega)]

/-- The bucket of the configured address was refreshed and does not block it. -/
structure Admitted (rt : Runtime) (t : Table) (checks : List Check) (tick : UInt32) : Prop where
  watched : Watched rt ⟨t, checks, tick⟩
  shut : t.shut rt.allowIp = 0
  fresh : ¬t.Expired tick rt.allowIp
  room : tick.toNat + 800 < 2 ^ 32

theorem Watched.admitted (h : Watched rt l) (hun : Undisturbed rt l (tick, ask))
    (hpeer : ask.peer = rt.allowIp) (hopen : (isPeerThrottled tick l.table rt.allowIp).1 = false) :
    Admitted rt (isPeerThrottled tick l.table rt.allowIp).2 l.checks tick := by
  refine ⟨h.refreshed hun hpeer, Table.shut_of_not_throttled hopen, ?_, hun.unwrapped⟩
  rintro ⟨b, hb, hexpired⟩
  have hbucket := (isPeerThrottled_spec tick l.table rt.allowIp).2 rt.allowIp
  rw [if_pos rfl, Option.mem_def.mp hb] at hbucket
  obtain ⟨c, hc, rfl⟩ := Option.map_eq_some_iff.mp hbucket.symm
  exact Bucket.not_expired_refresh (Table.bucketOf_eq_some hc).1 hexpired

section Admitted

variable {checks : List Check}

theorem attempts_self (peer tick : UInt32) (correct : Bool) :
    attempts [⟨peer, tick, correct⟩] peer = [⟨tick.toNat, correct⟩] := by
  simp [attempts]

theorem others_concat (h : ∀ c ∈ checks, c.peer = rt.allowIp) (correct : Bool) :
    ∀ c ∈ checks ++ [⟨rt.allowIp, tick, correct⟩], c.peer = rt.allowIp := by
  intro c hc
  rcases mem_append.mp hc with hmem | hmem
  · exact h c hmem
  · rw [mem_singleton.mp hmem]

variable (h : Admitted rt t checks tick)
include h

/-- A request without the token it needs. -/
theorem Admitted.missing :
    Watched rt ⟨(recordAuthFailure tick t rt.allowIp).2, checks, tick⟩ := by
  obtain ⟨hcount, -⟩ := recordAuthFailure_counts h.watched.table h.fresh h.room
  refine ⟨recordAuthFailure_ne_nil h.watched.table, h.watched.others, ?_⟩
  refine h.watched.guarded.wait le_rfl (Or.inl ?_) (Or.inl ?_)
  · exact (Nat.le_succ _).trans hcount.ge
  · simp only [h.shut]
    exact Nat.zero_le _

theorem Admitted.wrong :
    Watched rt ⟨(recordAuthFailure tick t rt.allowIp).2,
      checks ++ [⟨rt.allowIp, tick, false⟩], tick⟩ := by
  obtain ⟨hcount, hshut⟩ := recordAuthFailure_counts h.watched.table h.fresh h.room
  refine ⟨recordAuthFailure_ne_nil h.watched.table, others_concat h.watched.others false, ?_⟩
  simp only [attempts_append, attempts_self]
  refine h.watched.guarded.miss pauseTicks_mono le_rfl ?_ (Or.inl ?_) ?_
  · simp only [h.shut]
    exact Nat.zero_le _
  · exact hcount ▸ Nat.lt_succ_self _
  · rw [hcount]
    exact hshut

theorem Admitted.right :
    Watched rt ⟨recordAuthSuccess tick t rt.allowIp,
      checks ++ [⟨rt.allowIp, tick, true⟩], tick⟩ := by
  refine ⟨recordAuthSuccess_ne_nil h.watched.table, others_concat h.watched.others true, ?_⟩
  simp only [attempts_append, attempts_self]
  refine h.watched.guarded.hit le_rfl ?_ _ _
  simp only [h.shut]
  exact Nat.zero_le _

/-- A request that needs no token. -/
theorem Admitted.tokenless
    (hnone : recent 300 tick.toNat (attempts checks rt.allowIp) = 0) :
    Watched rt ⟨recordAuthSuccess tick t rt.allowIp, checks, tick⟩ := by
  refine ⟨recordAuthSuccess_ne_nil h.watched.table, h.watched.others, ?_⟩
  refine h.watched.guarded.wait le_rfl (.inr hnone) (.inl ?_)
  simp only [h.shut]
  exact Nat.zero_le _

end Admitted

/-- The bucket of the configured address and a question of another one. -/
theorem bucketOf_other (tick : UInt32) {owner : UInt32} (hne : t ≠ []) (hpeer : peer ≠ owner)
    (hkept : Undisplaced t owner peer) :
    (isPeerThrottled tick t peer).2.bucketOf owner = t.bucketOf owner ∧
      (recordAuthFailure tick (isPeerThrottled tick t peer).2 peer).2.bucketOf owner =
        t.bucketOf owner := by
  have hbucket := (isPeerThrottled_spec tick t peer).2
  have howner := hbucket owner
  rw [if_neg hpeer.symm] at howner
  refine ⟨howner, ?_⟩
  rw [recordAuthFailure_other (isPeerThrottled_ne_nil hne) hpeer, howner]
  intro _ hmissing
  -- without a bucket of its own the address has not changed the table so far
  cases hfind : t.findPeer peer with
  | none =>
    have hsame : (isPeerThrottled tick t peer).2 = t := by
      rw [isPeerThrottled, findAuthBucket_missing hfind]
    rw [hsame]
    exact hkept hpeer hfind
  | some i =>
    have hpresent := hbucket peer
    rw [if_pos rfl, Table.bucketOf_eq_none hmissing, Table.getD_findPeer hfind] at hpresent
    cases hpresent

theorem Watched.elsewhere (h : Watched rt l) (hpeer : peer ≠ rt.allowIp) (hlater : l.now ≤ tick)
    (hkept : Undisplaced l.table rt.allowIp peer) :
    Watched rt ⟨(isPeerThrottled tick l.table peer).2, l.checks, tick⟩ ∧
      Watched rt ⟨(recordAuthFailure tick (isPeerThrottled tick l.table peer).2 peer).2, l.checks,
        tick⟩ := by
  have hbucket := bucketOf_other tick h.table hpeer hkept
  have hne : (isPeerThrottled tick l.table peer).2 ≠ [] := isPeerThrottled_ne_nil h.table
  exact ⟨h.other hlater hne hbucket.1, h.other hlater (recordAuthFailure_ne_nil hne) hbucket.2⟩

theorem Watched.step (h : Watched rt l) {input : UInt32 × Ask} (hun : Undisturbed rt l input)
    {l' : Ledger} (hstep : ledgerStep rt l input = some l') : Watched rt l' := by
  obtain ⟨tick, ask⟩ := input
  by_cases hpeer : ask.peer = rt.allowIp
  · have hrefreshed := h.refreshed hun hpeer
    cases ask with
    | connect peer =>
      obtain rfl : peer = rt.allowIp := hpeer
      obtain rfl := Option.some.inj hstep
      unfold authorizePeer
      simp only
      split
      · exact hrefreshed
      rw [if_neg (by simp)]
      exact hrefreshed
    | request peer req =>
      obtain rfl : peer = rt.allowIp := hpeer
      obtain rfl := Option.some.inj hstep
      unfold authorizeRequestDetailed
      simp only
      split
      · simpa using hrefreshed
      rename_i hthrottled
      have hopen := Bool.eq_false_iff.mpr hthrottled
      have hadmitted := h.admitted hun rfl hopen
      rw [if_neg (by simp)]
      split
      · rename_i hrole
        simpa using hadmitted.tokenless (hun.remembered ⟨rfl, Or.inr ⟨hrole, hopen⟩⟩)
      split
      · exact hadmitted.right
      · split
        · simpa using hadmitted.missing
        · exact hadmitted.wrong
  · cases ask with
    | connect peer =>
      have hpeer : peer ≠ rt.allowIp := hpeer
      obtain ⟨hwaits, hfails⟩ := h.elsewhere hpeer hun.later hun.undisplaced
      obtain rfl := Option.some.inj hstep
      unfold authorizePeer
      simp only
      split
      · exact hwaits
      · exact hfails
    | request peer req =>
      have hpeer : peer ≠ rt.allowIp := hpeer
      obtain ⟨hwaits, hfails⟩ := h.elsewhere hpeer hun.later hun.undisplaced
      obtain rfl := Option.some.inj hstep
      unfold authorizeRequestDetailed
      simp only
      split
      · simpa using hwaits
      · simpa using hfails

end Steps

/-- No token of an address is compared during the back-off that follows too many wrong ones, so
few wrong ones are compared in any interval. -/
theorem token_guessing_throttled {rt : Runtime} {calls : List (UInt32 × Call)} {x : State}
    (hrun : run callStep (boot rt) calls = some x)
    (hundisturbed : Along (ledgerStep rt) (Undisturbed rt) Ledger.initial x.asked)
    (peer : UInt32) :
    Spaced 300 pauseTicks (attempts x.checks peer) ∧
      ∀ before wrong after lo hi, attempts x.checks peer = before ++ wrong ++ after →
        (∀ a ∈ wrong, a.correct = false) → (∀ a ∈ wrong, lo ≤ a.time ∧ a.time ≤ hi) →
        wrong.length ≤ (ADMIN_AUTH_FAILURE_THRESHOLD + 1) * ((hi - lo) / 100 + 1) := by
  have hinitial : Watched rt Ledger.initial :=
    ⟨by decide, by simp [Ledger.initial], Guarded.nil _ _ _⟩
  have hwatched : Watched rt x.ledger :=
    run_preserves (fun _ _ _ h hun hstep => h.step hun hstep) _ _ _ hinitial hundisturbed
      (orderly_run hrun).ledger
  have hspaced : Spaced 300 pauseTicks (attempts x.checks peer) := by
    by_cases hpeer : peer = rt.allowIp
    · rw [hpeer]
      exact hwatched.guarded.spaced
    · -- tokens of other addresses are never looked at
      have hnone : attempts x.checks peer = [] := by
        rw [attempts, map_eq_nil_iff, filter_eq_nil_iff]
        intro c hc
        have hc := hwatched.others c hc
        simp [hc, Ne.symm hpeer]
      rw [hnone]
      exact (Guarded.nil 0 0 0).spaced
  refine ⟨hspaced, fun before wrong after lo hi hsplit hwrong hin => ?_⟩
  rw [hsplit] at hspaced
  refine hspaced.length_le (fun n hn => ?_) (by decide) (by decide) wrong.length before wrong after
    lo le_rfl hwrong hin
  rw [pauseTicks, if_neg (Nat.not_le.mpr hn)]
  exact Nat.le_mul_of_pos_right _ (Nat.two_pow_pos _)

def guessedRuntime : Runtime :=
  runtimeReset Build.default (some (CText.ascii "control_token = secret\nallow_ip = 10.0.2.2\n"))

def guesser : UInt32 := addressOf [10, 0, 2, 2]

/-- The configured peer connects, sends a line and goes. -/
def visit (tick : UInt32) (line : String) : List (UInt32 × Call) :=
  [(tick, .adminAccept guesser), (tick, .adminPoll 0 false [CText.ascii line]),
    (tick, .adminPoll 0 true [])]

/-- Four guesses, one that comes too early and one after the back-off. -/
def patientGuesses : List (UInt32 × Call) :=
  (List.replicate 4 (visit 5 "TOKEN guess STATUS\n")).flatten ++ visit 50 "TOKEN guess STATUS\n" ++
    visit 105 "TOKEN guess STATUS\n"

theorem patientGuesses_throttled : ∃ x, run callStep (boot guessedRuntime) patientGuesses = some x ∧
      Along (ledgerStep guessedRuntime) (Undisturbed guessedRuntime) Ledger.initial x.asked ∧
      (attempts x.checks guesser).length = 5 ∧
      Spaced 300 pauseTicks (attempts x.checks guesser) := by
  have hend : (run callStep (boot guessedRuntime) patientGuesses).map (fun x => decide
      (Along (ledgerStep guessedRuntime) (Undisturbed guessedRuntime) Ledger.initial x.asked ∧
        (attempts x.checks guesser).length = 5)) = some true := by
    decide +kernel
  obtain ⟨x, hrun, hfacts⟩ := Option.map_eq_some_iff.mp hend
  obtain ⟨hundisturbed, hlength⟩ := of_decide_eq_true hfacts
  exact ⟨x, hrun, hundisturbed, hlength, (token_guessing_throttled hrun hundisturbed guesser).1⟩

/-- Three guesses, a `PING`, which needs no token, and three more guesses. -/
def pingedGuesses : List (UInt32 × Call) :=
  (List.replicate 3 (visit 5 "TOKEN guess STATUS\n")).flatten ++ visit 5 "PING\n" ++
    (List.replicate 3 (visit 5 "TOKEN guess STATUS\n")).flatten

/-- Six wrong tokens are compared at one tick. -/
theorem ping_resets_throttle : ∃ x, run callStep (boot guessedRuntime) pingedGuesses = some x ∧
      attempts x.checks guesser = replicate 6 ⟨5, false⟩ ∧
      ¬Spaced 300 pauseTicks (attempts x.checks guesser) := by
  have hend : (run callStep (boot guessedRuntime) pingedGuesses).map (fun x =>
      attempts x.checks guesser) = some (replicate 6 ⟨5, false⟩) := by
    decide +kernel
  obtain ⟨x, hrun, hattempts⟩ := Option.map_eq_some_iff.mp hend
  refine ⟨x, hrun, hattempts, fun hspaced => ?_⟩
  rw [hattempts] at hspaced
  have hgap := hspaced (replicate 3 ⟨5, false⟩) ⟨5, false⟩ (replicate 2 ⟨5, false⟩) rfl
    rfl ⟨5, false⟩ (by simp)
  exact absurd hgap (by decide)

end Sodex.Admin
