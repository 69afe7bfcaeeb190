import Sodex.AdminConfig

/-!
# Authorization of admin requests

The three admin ports share one table of eight buckets, which counts the failures of an
address, and one comparison of tokens.
-/
namespace Sodex.Admin

open CInt CText

def ADMIN_AUTH_BUCKETS : ℕ := 8
def ADMIN_AUTH_WINDOW_TICKS : ℤ := 300
def ADMIN_AUTH_FAILURE_THRESHOLD : ℕ := 3
def ADMIN_AUTH_BACKOFF_BASE_TICKS : UInt32 := 100
def ADMIN_AUTH_BACKOFF_MAX_SHIFT : ℕ := 3

/-- `struct admin_auth_bucket`. -/
structure Bucket where
  inUse : Bool
  peerAddr : UInt32
  windowStartTick : UInt32
  lastSeenTick : UInt32
  failureCount : ℕ
  blockedUntilTick : UInt32
  deriving DecidableEq

def Bucket.empty : Bucket := ⟨false, 0, 0, 0, 0, 0⟩

/-- The buckets in the order of the table. -/
abbrev Table := List Bucket

def Table.empty : Table := List.replicate ADMIN_AUTH_BUCKETS Bucket.empty

/-- The bucket of an address. -/
def Table.findPeer (t : Table) (peer : UInt32) : Option ℕ :=
  t.findIdx? fun b => b.inUse && b.peerAddr = peer

def Table.freeSlot (t : Table) : Option ℕ := t.findIdx? fun b => !b.inUse

/-- The first bucket in use that was seen before all others. -/
def Table.oldestSlot (t : Table) : Option ℕ :=
  (t.zipIdx.foldl (fun oldest x =>
    if x.1.inUse then
      match oldest with
      | none => some x
      | some y => if x.1.lastSeenTick < y.1.lastSeenTick then some x else oldest
    else oldest) none).map Prod.snd

def Bucket.new (tick peer : UInt32) : Bucket where
  inUse := true
  peerAddr := peer
  windowStartTick := tick
  lastSeenTick := tick
  failureCount := 0
  blockedUntilTick := 0

/-- `admin_find_auth_bucket`: the place of the bucket, which may be new. -/
def findAuthBucket (t : Table) (tick peer : UInt32) (create : Bool) : Option (ℕ × Table) :=
  match t.findPeer peer with
  | some i => some (i, t)
  | none =>
    if create then (t.freeSlot.or t.oldestSlot).map fun i => (i, t.set i (Bucket.new tick peer))
    else none

def Bucket.refresh (tick : UInt32) (b : Bucket) : Bucket :=
  if !b.inUse then b
  else
    let expired := ADMIN_AUTH_WINDOW_TICKS < toInt (tick - b.windowStartTick).toNat
    { b with
      windowStartTick := if expired then tick else b.windowStartTick
      failureCount := if expired then 0 else b.failureCount
      blockedUntilTick :=
        if b.blockedUntilTick ≠ 0 ∧ b.blockedUntilTick ≤ tick then 0 else b.blockedUntilTick
      lastSeenTick := tick }

/-- The loop of `admin_auth_backoff_ticks`. -/
def backoffLoop : ℕ → ℕ → UInt32 → UInt32
  | extra + 1, shifts + 1, backoff => backoffLoop extra shifts (backoff <<< 1)
  | _, _, backoff => backoff

def authBackoffTicks (failureCount : ℕ) : UInt32 :=
  if failureCount ≤ ADMIN_AUTH_FAILURE_THRESHOLD then 0
  else backoffLoop (failureCount - ADMIN_AUTH_FAILURE_THRESHOLD - 1) ADMIN_AUTH_BACKOFF_MAX_SHIFT
    ADMIN_AUTH_BACKOFF_BASE_TICKS

inductive AuthResult where
  | deny
  | allow
  | throttled
  deriving DecidableEq

def isPeerThrottled (tick : UInt32) (t : Table) (peer : UInt32) : Bool × Table :=
  match findAuthBucket t tick peer false with
  | none => (false, t)
  | some (i, t) =>
    let t := t.modify i (Bucket.refresh tick)
    ((t.getD i Bucket.empty).blockedUntilTick ≠ 0, t)

/-- A failure is counted, and starts a back-off after the third. -/
def Bucket.fail (tick : UInt32) (b : Bucket) : Bucket :=
  let count := b.failureCount + 1
  let backoff := authBackoffTicks count
  { b with
    failureCount := count
    blockedUntilTick := if 0 < backoff then tick + backoff else b.blockedUntilTick }

def recordAuthFailure (tick : UInt32) (t : Table) (peer : UInt32) : AuthResult × Table :=
  match findAuthBucket t tick peer true with
  | none => (.deny, t)
  | some (i, t) =>
    let t := t.modify i fun b => (b.refresh tick).fail tick
    let count := (t.getD i Bucket.empty).failureCount
    (if 0 < authBackoffTicks count then .throttled else .deny, t)

def Bucket.succeed (tick : UInt32) (b : Bucket) : Bucket :=
  { b with failureCount := 0, blockedUntilTick := 0, windowStartTick := tick, lastSeenTick := tick }

def recordAuthSuccess (tick : UInt32) (t : Table) (peer : UInt32) : Table :=
  match findAuthBucket t tick peer false with
  | none => t
  | some (i, t) => t.modify i (Bucket.succeed tick)

inductive Role where
  | none
  | health
  | status
  | control
  deriving DecidableEq

def Role.level : Role → ℕ
  | .none => 0
  | .health => 1
  | .status => 2
  | .control => 3

inductive Action where
  | invalid
  | ping
  | health
  | status
  | agentStart
  | agentStop
  | logTail
  deriving DecidableEq

def requiredRole : Action → Role
  | .ping | .health => .health
  | .status | .logTail => .status
  | .agentStart | .agentStop => .control
  | .invalid => .none

/-- `struct admin_request`. -/
structure Request where
  action : Action
  requiredRole : Role
  arg : ℤ
  token : List UInt8
  deriving DecidableEq

def roleFromToken (rt : Runtime) (token : List UInt8) : Role :=
  if token = [] then .none
  else if rt.controlToken ≠ [] ∧ token = rt.controlToken then .control
  else if rt.statusToken ≠ [] ∧ token = rt.statusToken then .status
  else .none

def authorizePeer (rt : Runtime) (tick : UInt32) (t : Table) (peer : UInt32) :
    AuthResult × Table :=
  let throttled := isPeerThrottled tick t peer
  if throttled.1 then (.throttled, throttled.2)
  else if peer ≠ rt.allowIp then recordAuthFailure tick throttled.2 peer
  else (.allow, throttled.2)

/-- What came of a request: whether it is allowed, and, when its token was compared with the
configured ones, whether it was right. -/
structure Outcome where
  result : AuthResult
  table : Table
  checked : Option Bool
  deriving DecidableEq

def authorizeRequestDetailed (rt : Runtime) (tick : UInt32) (t : Table) (req : Request)
    (peer : UInt32) : Outcome :=
  let throttled := isPeerThrottled tick t peer
  if throttled.1 then ⟨.throttled, throttled.2, none⟩
  else if peer ≠ rt.allowIp then
    let failure := recordAuthFailure tick throttled.2 peer
    ⟨failure.1, failure.2, none⟩
  else if req.requiredRole.level ≤ Role.health.level then
    ⟨.allow, recordAuthSuccess tick throttled.2 peer, none⟩
  else if req.requiredRole.level ≤ (roleFromToken rt req.token).level then
    ⟨.allow, recordAuthSuccess tick throttled.2 peer, some true⟩
  else
    let failure := recordAuthFailure tick throttled.2 peer
    ⟨failure.1, failure.2, if req.token = [] then none else some false⟩

def Table.bucketOf (t : Table) (peer : UInt32) : Option Bucket :=
  t.find? fun b => b.inUse && b.peerAddr = peer

/-- A back-off of the address is running. -/
def Blocked (t : Table) (tick peer : UInt32) : Prop :=
  ∃ b ∈ t.bucketOf peer, b.blockedUntilTick ≠ 0 ∧ tick < b.blockedUntilTick

instance (t : Table) (tick peer : UInt32) : Decidable (Blocked t tick peer) :=
  inferInstanceAs (Decidable (∃ b ∈ t.bucketOf peer, _))

section Buckets

variable {t : Table} {tick peer : UInt32} {i : ℕ}

theorem Table.bucketOf_eq_some {b : Bucket} (h : t.bucketOf peer = some b) :
    b.inUse = true ∧ b.peerAddr = peer := by
  simpa using List.find?_some h

theorem Table.getD_findPeer (h : t.findPeer peer = some i) :
    t.bucketOf peer = some (t.getD i Bucket.empty) := by
  unfold findPeer at h
  unfold bucketOf
  induction t generalizing i with
  | nil => cases h
  | cons b t ih =>
    rw [List.findIdx?_cons] at h
    rw [List.find?_cons]
    split at h
    · rename_i hb
      obtain rfl := Option.some.inj h
      rw [hb]
      rfl
    · rename_i hb
      obtain ⟨j, hj, rfl⟩ := Option.map_eq_some_iff.mp h
      rw [Bool.eq_false_iff.mpr hb]
      exact ih hj

theorem Table.bucketOf_eq_none (h : t.findPeer peer = none) : t.bucketOf peer = none := by
  unfold findPeer at h
  unfold bucketOf
  simpa using h

theorem Table.getD_modify {f : Bucket → Bucket} (h : t.findPeer peer = some i) :
    (t.modify i f).getD i Bucket.empty = f (t.getD i Bucket.empty) := by
  have hlt : i < t.length := (List.findIdx?_eq_some_iff_getElem.mp h).1
  simp [List.getD_eq_getElem?_getD, hlt]

theorem Table.bucketOf_modify {f : Bucket → Bucket} (h : t.findPeer peer = some i)
    (hf : ∀ b, (f b).inUse = b.inUse ∧ (f b).peerAddr = b.peerAddr) (q : UInt32) :
    Table.bucketOf (t.modify i f) q =
      if q = peer then (t.bucketOf peer).map f else t.bucketOf q := by
  unfold findPeer at h
  unfold bucketOf
  induction t generalizing i with
  | nil => cases h
  | cons b t ih =>
    rw [List.findIdx?_cons] at h
    split at h
    · rename_i hb
      obtain rfl := Option.some.inj h
      simp only [Bool.and_eq_true, decide_eq_true_eq] at hb
      rw [List.modify_zero_cons, List.find?_cons, List.find?_cons, List.find?_cons, (hf b).1,
        (hf b).2, hb.1, hb.2]
      by_cases hq : q = peer
      · simp [hq]
      · simp [hq, Ne.symm hq]
    · rename_i hb
      obtain ⟨j, hj, rfl⟩ := Option.map_eq_some_iff.mp h
      rw [List.modify_succ_cons, List.find?_cons, List.find?_cons, List.find?_cons,
        Bool.eq_false_iff.mpr hb, ih hj]
      by_cases hq : q = peer
      · subst hq
        rw [Bool.eq_false_iff.mpr hb]
      · rw [if_neg hq, if_neg hq]

theorem Bucket.refresh_frame (tick : UInt32) (b : Bucket) :
    (b.refresh tick).inUse = b.inUse ∧ (b.refresh tick).peerAddr = b.peerAddr := by
  unfold refresh
  split <;> exact ⟨rfl, rfl⟩

theorem findAuthBucket_found (h : t.findPeer peer = some i) (create : Bool) :
    findAuthBucket t tick peer create = some (i, t) := by
  rw [findAuthBucket, h]

theorem findAuthBucket_missing (h : t.findPeer peer = none) :
    findAuthBucket t tick peer false = none := by
  rw [findAuthBucket, h]
  rfl

/-- What `admin_is_peer_throttled` says and does. -/
theorem isPeerThrottled_spec (tick : UInt32) (t : Table) (peer : UInt32) :
    (isPeerThrottled tick t peer).1 =
        (t.bucketOf peer).any (fun b => (b.refresh tick).blockedUntilTick ≠ 0) ∧
      ∀ q, (isPeerThrottled tick t peer).2.bucketOf q =
        if q = peer then (t.bucketOf peer).map (Bucket.refresh tick) else t.bucketOf q := by
  unfold isPeerThrottled
  cases hfind : t.findPeer peer with
  | none =>
    have hnone := Table.bucketOf_eq_none hfind
    rw [findAuthBucket_missing hfind, hnone]
    refine ⟨rfl, fun q => ?_⟩
    by_cases hq : q = peer
    · rw [if_pos hq, hq]
      exact hnone
    · rw [if_neg hq]
  | some i =>
    rw [findAuthBucket_found hfind]
    refine ⟨?_, Table.bucketOf_modify hfind (Bucket.refresh_frame tick)⟩
    simp only [Table.getD_modify hfind]
    rw [Table.getD_findPeer hfind]
    rfl

theorem not_blocked_of_not_throttled (h : (isPeerThrottled tick t peer).1 = false) :
    ¬Blocked t tick peer := by
  rintro ⟨b, hb, hset, hrunning⟩
  rw [(isPeerThrottled_spec tick t peer).1, Option.mem_def.mp hb] at h
  have hkept : (b.refresh tick).blockedUntilTick = b.blockedUntilTick := by
    unfold Bucket.refresh
    split
    · rfl
    · exact if_neg fun hover => absurd hover.2 (UInt32.not_le.mpr hrunning)
  simp [hkept, hset] at h

end Buckets

section Allowed

variable {rt : Runtime} {t : Table} {tick peer : UInt32} {req : Request}

theorem roleFromToken_cases (rt : Runtime) (token : List UInt8) :
    (roleFromToken rt token = .control ∧ token = rt.controlToken ∧ token ≠ []) ∨
      (roleFromToken rt token = .status ∧ token = rt.statusToken ∧ token ≠ []) ∨
      roleFromToken rt token = .none := by
  unfold roleFromToken
  split
  · exact .inr (.inr rfl)
  split
  · rename_i hne hcontrol
    exact .inl ⟨rfl, hcontrol.2, hne⟩
  split
  · rename_i hne _ hstatus
    exact .inr (.inl ⟨rfl, hstatus.2, hne⟩)
  · exact .inr (.inr rfl)

/-- A request that needs a token is allowed only to the configured peer, when it is not
blocked, and with a token of a sufficient role. -/
theorem authorizeRequestDetailed_allow
    (hallow : (authorizeRequestDetailed rt tick t req peer).result = .allow)
    (hrole : Role.health.level < req.requiredRole.level) :
    ¬Blocked t tick peer ∧ peer = rt.allowIp ∧
      req.requiredRole.level ≤ (roleFromToken rt req.token).level := by
  have hfail (t : Table) : (recordAuthFailure tick t peer).1 ≠ .allow := by
    unfold recordAuthFailure
    split
    · nofun
    · simp only
      split <;> nofun
  unfold authorizeRequestDetailed at hallow
  simp only at hallow
  split at hallow
  · cases hallow
  rename_i hthrottled
  split at hallow
  · exact absurd hallow (hfail _)
  rename_i hpeer
  rw [if_neg (not_le.mpr hrole)] at hallow
  split at hallow
  · rename_i hlevel
    exact ⟨not_blocked_of_not_throttled (by simpa using hthrottled), not_not.mp hpeer, hlevel⟩
  · exact absurd hallow (hfail _)

end Allowed

end Sodex.Admin
