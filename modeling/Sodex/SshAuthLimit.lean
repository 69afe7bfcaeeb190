import Sodex.SshAuthOrder

/-!
# How many passwords are compared

Three failed passwords close a connection, each failure is answered after a delay, and no
request is looked at while an answer is due. A client that sends no request after its
success, and whose failures do not fall on the tick for which the deadline is zero, finds
just that. Zero stands for "no deadline", and a request after the success is not counted.
-/
namespace Sodex.Ssh

open CInt CtrMode Runs Relation List

/-- The counters and flags of the authentication. -/
structure Count where
  done : Bool
  failures : ℕ
  pendingFailure : Bool
  pendingClose : Bool
  delayUntilTick : UInt32
  attempts : ℕ
  answered : ℕ
  overlapped : Bool

def Auth.count (a : Auth) : Count :=
  ⟨a.done, a.failures, a.pendingFailure, a.pendingClose, a.delayUntilTick, a.attempts,
    a.answered, a.overlapped⟩

/-- An answer to a failure is due. -/
def Count.pending (k : Count) : Bool := k.pendingFailure || k.pendingClose

/-- The number of answers that are due. -/
def Count.due (k : Count) : ℕ := if k.pending then 1 else 0

/-- The counters after a request was evaluated at `tick`. -/
def Count.evaluate (k : Count) (tick : UInt32) (accepted : Bool) : Count :=
  let k := { k with attempts := k.attempts + 1, overlapped := k.overlapped || k.pending }
  if accepted then
    { k with done := true, pendingFailure := false, pendingClose := false, delayUntilTick := 0 }
  else
    { k with
      failures := k.failures + 1
      delayUntilTick := tick + SSH_AUTH_FAILURE_DELAY_TICKS
      pendingClose := SSH_AUTH_RETRY_LIMIT ≤ k.failures + 1
      pendingFailure := ¬SSH_AUTH_RETRY_LIMIT ≤ k.failures + 1 }

/-- The counters after the deadline, with `n` failures answered. -/
def Count.flush (k : Count) (n : ℕ) : Count :=
  { k with
    delayUntilTick := 0
    pendingClose := false
    pendingFailure := k.pendingFailure && k.pendingClose
    answered := k.answered + n }

/-- The counters stay, the connection stays, and a close is not taken back. -/
structure SameCount (s s' : Server) : Prop where
  count : s'.auth.count = s.auth.count
  inUse : s'.link.inUse = s.link.inUse
  closing : s.link.closing = true → s'.link.closing = true

/-- The deadline has passed: the failure is answered, or the connection is to be closed. -/
structure Flushes (s s' : Server) (n : ℕ) : Prop where
  count : s'.auth.count = s.auth.count.flush n
  inUse : s'.link.inUse = s.link.inUse
  answer : s'.link.closing = true ∧ n = 0 ∨
    s'.link.closing = s.link.closing ∧ s.auth.pendingClose = false ∧ n = s.auth.count.due

/-- What an effect can do to the counters. -/
inductive CountStep (P : Guard) (s s' : Server) : Prop where
  | same (h : SameCount s s')
  | evaluate (tick : UInt32) (mem : Memory) (payload : List UInt8) (accepted : Bool)
      (hmsg : payload.head?.map messageOf = some .userauthRequest) (hP : P tick s mem payload)
      (hopen : s.link.closing = false) (hready : ¬s.auth.Busy tick)
      (hcount : s'.auth.count = s.auth.count.evaluate tick accepted)
      (hlink : s'.link = s.link)
  | flush (n : ℕ) (h : Flushes s s' n)
  | release (h : s' = resetConnection s)

section Steps

variable {c : Crypto} {cfg : Config} {P : Guard} {s s' : Server} (tick : UInt32)

theorem SameCount.refl (s : Server) : SameCount s s := ⟨rfl, rfl, id⟩

theorem SameCount.trans {s'' : Server} (h : SameCount s s') (h' : SameCount s' s'') :
    SameCount s s'' :=
  ⟨h'.count.trans h.count, h'.inUse.trans h.inUse, h'.closing ∘ h.closing⟩

theorem count_queuePayload (c : Crypto) (s : Server) (payload : List UInt8) (activate : Bool) :
    SameCount s (queuePayload c s payload activate).2 := by
  obtain ⟨rng, out, heq, -⟩ := queuePayload_frame c s payload activate
  rw [heq]
  exact ⟨rfl, rfl, id⟩

theorem count_queueClose (s : Server) (reason : String) :
    SameCount s (queueClose s reason) ∧ (queueClose s reason).link.closing = true := by
  unfold queueClose
  split
  · rename_i hclosing
    exact ⟨SameCount.refl s, hclosing⟩
  · exact ⟨⟨rfl, rfl, fun _ => rfl⟩, rfl⟩

theorem count_announceNewkeys (c : Crypto) (s : Server) : SameCount s (announceNewkeys c s).2 := by
  have hqueue := count_queuePayload c s [21] true
  unfold announceNewkeys
  simp only
  split
  · exact hqueue
  · exact hqueue.trans ⟨rfl, rfl, id⟩

/-- Queueing a packet returns zero or a negative number. -/
theorem queueUserauthFailure_result (c : Crypto) (s : Server) :
    (queueUserauthFailure c s).1 = 0 ∨ (queueUserauthFailure c s).1 < 0 := by
  have hpush (out : Out) (data : List UInt8) (payload : List UInt8) :
      (outboxPush out data false payload).1 = 0 ∨ (outboxPush out data false payload).1 < 0 := by
    unfold outboxPush
    split
    · exact .inr (by decide : (-1 : ℤ) < 0)
    · split
      · exact .inr (by decide : (-1 : ℤ) < 0)
      · exact .inl rfl
  unfold queueUserauthFailure queueWriter
  split
  · exact .inr (by decide : (-1 : ℤ) < 0)
  · unfold queuePayload
    split
    · exact .inr (by decide : (-1 : ℤ) < 0)
    · exact hpush _ _ _

theorem queueUserauthFailure_frame (c : Crypto) (s : Server) :
    (queueUserauthFailure c s).2.auth = s.auth ∧ (queueUserauthFailure c s).2.link = s.link := by
  unfold queueUserauthFailure queueWriter
  split
  · exact ⟨rfl, rfl⟩
  · obtain ⟨rng, out, heq, -⟩ := queuePayload_frame c s _ false
    rw [heq]
    exact ⟨rfl, rfl⟩

theorem count_evaluated (s : Server) (accepted : Bool) (username service : List UInt8) :
    (evaluated tick s accepted username service).auth.count =
      s.auth.count.evaluate tick accepted := by
  cases accepted with
  | true => simp [evaluated, Auth.count, Count.evaluate, Count.pending, Bool.or_assoc]
  | false =>
    simp only [evaluated, handleAuthFailure, Auth.count, Count.evaluate, Count.pending,
      Bool.or_assoc]
    rfl

/-- The flush of a failure, with the close that follows if the answer cannot be queued. -/
theorem count_authFlush : let flushed := flushAuthPending c tick s
    let s' := if flushed.1 < 0 then queueClose flushed.2 "queue_failed" else flushed.2
    ((s.auth.delayUntilTick = 0 ∨ authFailureDelayPending tick s.auth.delayUntilTick) ∧
      SameCount s s') ∨ ∃ n, Flushes s s' n := by
  unfold flushAuthPending
  by_cases hdelay : s.auth.delayUntilTick = 0
  · simp only [if_pos hdelay]
    exact .inl ⟨.inl hdelay, SameCount.refl s⟩
  by_cases hpast : authFailureDelayPending tick s.auth.delayUntilTick
  · simp only [if_neg hdelay, if_pos hpast]
    exact Or.inl ⟨Or.inr hpast, SameCount.refl s⟩
  simp only [if_neg hdelay, if_neg hpast]
  right
  by_cases hclose : s.auth.pendingClose = true
  · obtain ⟨hsame, hclosing⟩ := count_queueClose { s with auth := { s.auth with
      delayUntilTick := 0, pendingClose := false } } "auth_retry_limit"
    simp only [if_pos hclose]
    refine ⟨0, hsame.count.trans ?_, hsame.inUse, Or.inl ⟨hclosing, rfl⟩⟩
    simp [Auth.count, Count.flush, hclose]
  simp only [if_neg hclose]
  rw [Bool.not_eq_true] at hclose
  by_cases hfail : s.auth.pendingFailure = true
  · have hresult := queueUserauthFailure_result c { s with auth := { s.auth with
      delayUntilTick := 0, pendingFailure := false } }
    obtain ⟨hauth, hlink⟩ := queueUserauthFailure_frame c { s with auth := { s.auth with
      delayUntilTick := 0, pendingFailure := false } }
    simp only [if_pos hfail]
    generalize queueUserauthFailure c { s with auth := { s.auth with
      delayUntilTick := 0, pendingFailure := false } } = queued at hresult hauth hlink
    simp only at hauth hlink
    rcases hresult with hzero | hneg
    · rw [if_neg hzero.not_lt, if_pos hzero]
      refine ⟨1, ?_, congrArg Link.inUse hlink,
        Or.inr ⟨congrArg Link.closing hlink, hclose, ?_⟩⟩
      · simp [Auth.count, Count.flush, hclose, hauth]
      · simp [Auth.count, Count.due, Count.pending, hfail]
    · obtain ⟨hsame, hclosing⟩ := count_queueClose queued.2 "queue_failed"
      rw [if_pos hneg, if_neg hneg.ne]
      refine ⟨0, hsame.count.trans ?_, hsame.inUse.trans (congrArg Link.inUse hlink),
        Or.inl ⟨hclosing, rfl⟩⟩
      simp [Auth.count, Count.flush, hclose, hauth]
  · rw [if_neg hfail, if_neg (Int.lt_irrefl 0)]
    rw [Bool.not_eq_true] at hfail
    refine ⟨0, ?_, rfl, Or.inr ⟨rfl, hclose, ?_⟩⟩
    · simp [Auth.count, Count.flush, hclose, hfail]
    · simp [Auth.count, Count.due, Count.pending, hclose, hfail]

/-- Every effect does one of the four things to the counters. -/
theorem Micro.countStep (h : Micro c cfg P s s') : CountStep P s s' := by
  cases h with
  | send payload _ => exact .same (count_queuePayload c s payload false)
  | link l hl => exact .same ⟨rfl, hl.inUse, hl.closing⟩
  | channel ch _ => exact .same ⟨rfl, rfl, id⟩
  | locals looping result => exact .same ⟨rfl, rfl, id⟩
  | receive rx _ => exact .same ⟨rfl, rfl, id⟩
  | kex k _ => exact .same ⟨rfl, rfl, id⟩
  | cookie => exact .same ⟨rfl, rfl, id⟩
  | secret _ => exact .same ⟨rfl, rfl, id⟩
  | derive keys _ => exact .same ⟨rfl, rfl, id⟩
  | announce keys _ _ => exact .same (count_announceNewkeys c s)
  | newkeys tick mem payload _ _ => exact .same ⟨rfl, rfl, id⟩
  | service => exact .same ⟨rfl, rfl, id⟩
  | userauth tick mem payload accepted username service hmsg hP hopen hready =>
    refine .evaluate tick mem payload accepted hmsg hP hopen hready
      (count_evaluated tick s accepted username service) ?_
    cases accepted <;> rfl
  | authFlush tick _ =>
    rcases count_authFlush tick with ⟨-, hsame⟩ | ⟨n, hflush⟩
    · exact .same hsame
    · exact .flush n hflush
  | flush blocked sent =>
    exact .same (flushOutbox_preserves (fun _ _ hl h => h.trans ⟨rfl, hl.inUse, hl.closing⟩)
      (SameCount.refl s) (fun _ _ _ _ => ⟨rfl, rfl, id⟩) blocked sent)
  | release => exact .release rfl

end Steps

/-- The counters are within the limit, and every failure is answered or its answer is due. -/
structure Limited (closing : Bool) (k : Count) : Prop where
  attempts : k.attempts = k.failures + (if k.done then 1 else 0)
  limit : k.failures ≤ SSH_AUTH_RETRY_LIMIT
  reached : k.failures = SSH_AUTH_RETRY_LIMIT →
    k.done = false ∧ (k.pendingClose = true ∨ closing = true)
  single : k.pendingFailure = true → k.pendingClose = false
  delayed : k.pending = true → k.delayUntilTick ≠ 0
  accounted : k.answered + k.due ≤ k.failures
  answered : closing = false → k.failures = k.answered + k.due
  separate : k.overlapped = false

/-- No request comes after the success, and the deadline of a failure would not be zero. -/
def Timely : Guard := fun tick s _ payload =>
  payload.head?.map messageOf = some .userauthRequest →
    s.auth.done = false ∧ tick + SSH_AUTH_FAILURE_DELAY_TICKS ≠ 0

instance (tick : UInt32) (s : Server) (mem : Memory) (payload : List UInt8) :
    Decidable (Timely tick s mem payload) := inferInstanceAs (Decidable (_ → _))

section Limit

variable {c : Crypto} {cfg : Config} {s s' : Server} {k : Count} {closing closing' : Bool} {P : Guard}
  {answered : ℕ}

theorem Limited.mono (h : Limited closing k)
    (hclosing : closing = true → closing' = true) : Limited closing' k where
  attempts := h.attempts
  limit := h.limit
  reached := fun hlimit => (h.reached hlimit).imp_right (Or.imp_right hclosing)
  single := h.single
  delayed := h.delayed
  accounted := h.accounted
  answered := by
    intro hopen
    apply h.answered
    by_contra hne
    rw [hclosing (by simpa using hne)] at hopen
    cases hopen
  separate := h.separate

theorem limited_init (closing : Bool) : Limited closing (resetConnection s).auth.count where
  attempts := rfl
  limit := Nat.zero_le _
  reached := nofun
  single := nofun
  delayed := nofun
  accounted := Nat.le_refl 0
  answered := fun _ => rfl
  separate := rfl

/-- A request that is evaluated finds fewer failures than the limit. -/
theorem Limited.evaluate (h : Limited false k) (tick : UInt32) (accepted : Bool)
    (hdone : k.done = false) (hdeadline : tick + SSH_AUTH_FAILURE_DELAY_TICKS ≠ 0)
    (hpending : k.pending = false) : Limited false (k.evaluate tick accepted) := by
  have hclose : k.pendingClose = false := (Bool.or_eq_false_iff.mp hpending).2
  have hattempts : k.attempts = k.failures := by simpa [hdone] using h.attempts
  have hanswered : k.failures = k.answered := by
    simpa [Count.due, hpending] using h.answered rfl
  have hlt : k.failures < SSH_AUTH_RETRY_LIMIT := by
    refine h.limit.lt_of_ne fun hlimit => ?_
    rcases (h.reached hlimit).2 with hc | hc
    · rw [hclose] at hc
      cases hc
    · cases hc
  cases accepted with
  | true =>
    refine ⟨?_, h.limit, fun hlimit => absurd hlimit hlt.ne, nofun, nofun, ?_, fun _ => ?_, ?_⟩
    · simp [Count.evaluate, hattempts]
    · simp [Count.evaluate, Count.due, Count.pending, hanswered]
    · simp [Count.evaluate, Count.due, Count.pending, hanswered]
    · simp [Count.evaluate, h.separate, hpending]
  | false =>
    have hdue : (k.evaluate tick false).due = 1 := by
      simp [Count.evaluate, Count.due, Count.pending, lt_or_ge]
    have hanswered' : k.failures = (k.evaluate tick false).answered := hanswered
    refine ⟨?_, hlt, fun hlimit => ⟨hdone, Or.inl ?_⟩, ?_, fun _ => hdeadline, ?_, fun _ => ?_, ?_⟩
    · simp [Count.evaluate, hattempts, hdone]
    · have hlimit : k.failures + 1 = SSH_AUTH_RETRY_LIMIT := hlimit
      simp [Count.evaluate, hlimit]
    · simp [Count.evaluate]
    · rw [hdue, ← hanswered']
      exact Nat.le_refl _
    · rw [hdue, ← hanswered']
      rfl
    · simp [Count.evaluate, h.separate, hpending]

/-- After the deadline the failure has been answered, or the connection is to be closed. -/
theorem Limited.flush (h : Limited closing k) {n : ℕ}
    (hanswer : closing' = true ∧ n = 0 ∨ closing' = closing ∧ k.pendingClose = false ∧ n = k.due) :
    Limited closing' (k.flush n) := by
  have hpending : (k.flush n).pending = false := by
    cases hfail : k.pendingFailure with
    | true => simp [Count.pending, Count.flush, h.single hfail]
    | false => simp [Count.pending, Count.flush, hfail]
  have hdue : (k.flush n).due = 0 := by simp [Count.due, hpending]
  have haccounted := h.accounted
  refine ⟨h.attempts, h.limit, fun hlimit => ?_, fun _ => rfl, ?_, ?_, ?_, h.separate⟩
  · obtain ⟨hdone, hclosed⟩ := h.reached hlimit
    refine ⟨hdone, Or.inr ?_⟩
    rcases hanswer with ⟨hclosing, -⟩ | ⟨hclosing, hclose, -⟩
    · exact hclosing
    · simpa [hclosing, hclose] using hclosed
  · rw [hpending]
    exact nofun
  · show k.answered + n + (k.flush n).due ≤ k.failures
    omega
  · intro hopen
    show k.failures = k.answered + n + (k.flush n).due
    rcases hanswer with ⟨hclosing, -⟩ | ⟨hclosing, -, hn⟩
    · rw [hclosing] at hopen
      cases hopen
    · have := h.answered (hclosing.symm.trans hopen)
      omega

theorem Limited.micro (s s' : Server) (hmicro : Micro c cfg Timely s s')
    (h : Limited s.link.closing s.auth.count) : Limited s'.link.closing s'.auth.count := by
  cases hmicro.countStep with
  | same hsame =>
    rw [hsame.count]
    exact h.mono hsame.closing
  | evaluate tick mem payload accepted hmsg hP hopen hready hcount hlink =>
    obtain ⟨hdone, hdeadline⟩ := hP hmsg
    rw [hcount, hlink, hopen]
    rw [hopen] at h
    refine h.evaluate tick accepted hdone hdeadline ?_
    simp only [Auth.Busy, not_or, Bool.not_eq_true] at hready
    simp [Count.pending, Auth.count, hready]
  | flush n hflush =>
    rw [hflush.count]
    exact h.flush hflush.answer
  | release heq =>
    rw [heq]
    exact limited_init _

theorem Limited.accept (s : Server) (tick : UInt32) (child : Option Bool)
    (h : Limited s.link.closing s.auth.count) :
    Limited (acceptPendingConnections cfg tick s child).link.closing
      (acceptPendingConnections cfg tick s child).auth.count := by
  unfold acceptPendingConnections
  split
  · exact h
  · split
    · exact limited_init (s := s) _
    · exact h

/-- A failure of the connection with `answered` earlier answers is out of the way. -/
def Settled (answered : ℕ) (s : Server) : Prop :=
  s.link.inUse = false ∨ s.link.closing = true ∨ answered < s.auth.answered

/-- The failure is out of the way, or it waits for the tick `deadline`. -/
def Settling (answered : ℕ) (deadline : UInt32) (s : Server) : Prop :=
  Settled answered s ∨ s.auth.answered = answered ∧ s.auth.count.pending = true ∧
    s.auth.delayUntilTick = deadline

theorem Settled.countStep (hstep : CountStep P s s')
    (h : Settled answered s) : Settled answered s' := by
  cases hstep with
  | same hsame =>
    have hanswered : s'.auth.answered = s.auth.answered := congrArg Count.answered hsame.count
    unfold Settled
    rw [hsame.inUse, hanswered]
    exact h.imp_right (Or.imp_left hsame.closing)
  | evaluate tick mem payload accepted _ _ _ _ hcount hlink =>
    have hanswered : s'.auth.answered = s.auth.answered := by
      refine (congrArg Count.answered hcount).trans ?_
      cases accepted <;> rfl
    unfold Settled
    rw [hlink, hanswered]
    exact h
  | flush n hflush =>
    have hanswered : s'.auth.answered = s.auth.answered + n :=
      congrArg Count.answered hflush.count
    unfold Settled
    rw [hflush.inUse, hanswered]
    rcases hflush.answer with ⟨hclosing, -⟩ | ⟨hclosing, -, -⟩
    · exact Or.inr (Or.inl hclosing)
    · rw [hclosing]
      exact h.imp_right (Or.imp_right (Nat.lt_add_right n))
  | release heq => exact Or.inl (by rw [heq]; rfl)

theorem Settled.micro (answered : ℕ) (s s' : Server) (hmicro : Micro c cfg P s s')
    (h : Settled answered s) : Settled answered s' :=
  h.countStep hmicro.countStep

theorem Flushes.settled {n : ℕ} (h : Flushes s s' n) (hpending : s.auth.count.pending = true) :
    Settled s.auth.answered s' := by
  have hanswered : s'.auth.answered = s.auth.answered + n := congrArg Count.answered h.count
  rcases h.answer with ⟨hclosing, -⟩ | ⟨-, -, hn⟩
  · exact Or.inr (Or.inl hclosing)
  · refine Or.inr (Or.inr ?_)
    rw [hanswered, hn, Count.due, if_pos hpending]
    exact Nat.lt_succ_self _

theorem Settling.micro (answered : ℕ) (deadline : UInt32) (s s' : Server)
    (hmicro : Micro c cfg P s s') (h : Settling answered deadline s) :
    Settling answered deadline s' := by
  rcases h with h | ⟨hanswered, hpending, hdeadline⟩
  · exact .inl (h.micro answered s s' hmicro)
  cases hmicro.countStep with
  | same hsame =>
    refine .inr ⟨?_, ?_, ?_⟩
    · exact (congrArg Count.answered hsame.count).trans hanswered
    · exact (congrArg Count.pending hsame.count).trans hpending
    · exact (congrArg Count.delayUntilTick hsame.count).trans hdeadline
  | evaluate tick mem payload accepted _ _ _ hready _ _ =>
    simp only [Auth.Busy, not_or, Bool.not_eq_true] at hready
    simp [Count.pending, Auth.count, hready] at hpending
  | flush n hflush =>
    rw [← hanswered]
    exact Or.inl (hflush.settled hpending)
  | release heq => exact Or.inl (Or.inl (by rw [heq]; rfl))

theorem Settling.pollAuthPending {deadline tick : UInt32} (hset : deadline ≠ 0)
    (hpast : ¬authFailureDelayPending tick deadline) (h : Settling answered deadline s) :
    Settled answered (pollAuthPending c tick s) := by
  have hlocals : Settling answered deadline { s with looping := true, startResult := 0 } := h
  unfold Ssh.pollAuthPending
  generalize { s with looping := true, startResult := 0 } = s₁ at hlocals
  simp only
  split
  · rename_i hclosing
    exact Or.inr (Or.inl hclosing)
  · rcases count_authFlush (c := c) (s := s₁) tick with ⟨hwait, hsame⟩ | ⟨n, hflush⟩
    · rcases hlocals with hsettled | ⟨-, -, hdeadline⟩
      · exact hsettled.countStep (.same (P := Timely) hsame)
      · rw [hdeadline] at hwait
        exact absurd hwait (not_or.mpr ⟨hset, hpast⟩)
    · rcases hlocals with hsettled | ⟨hanswered, hpending, -⟩
      · exact hsettled.countStep (.flush (P := Timely) n hflush)
      · rw [← hanswered]
        exact hflush.settled hpending

theorem settled_after_tick (i : TickInput) (hset : s.auth.delayUntilTick ≠ 0)
    (hpending : s.auth.count.pending = true) (hin : s.link.inUse = true)
    (hpast : ¬authFailureDelayPending i.tick s.auth.delayUntilTick)
    (hok : Along (phaseStep c cfg) (DispatchOk c P) s (tickPhases i)) :
    ∃ s', run (phaseStep c cfg) s (tickPhases i) = some s' ∧ Settled s.auth.answered s' := by
  have haccept : phaseStep c cfg s (i.tick, .accept i.child) = some s := by
    simp [phaseStep, acceptPendingConnections, hin]
  -- the phases before, at and after the flush of the pending answers
  obtain ⟨before, after, hsplit⟩ : ∃ before after, pollPhases i = before ++ .authPending :: after :=
    ⟨[.begin i.socketClosed, .sendBanner i.bannerBlocked i.bannerSent, .pumpBanner i.bannerChunk,
      .pumpRx i.chunk], _, rfl⟩
  have htail := hok.2 s haccept
  rw [hsplit, map_append, map_cons] at htail
  obtain ⟨hbefore, hrest⟩ := htail.of_append
  obtain ⟨s₁, hs₁, hsettling⟩ := run_polls_of_micro
    (Settling.micro s.auth.answered s.auth.delayUntilTick) (Or.inr ⟨rfl, hpending, rfl⟩) i.tick
    before hbefore
  obtain ⟨-, hafter⟩ := hrest s₁ hs₁
  obtain ⟨s₂, hs₂, hsettled⟩ : ∃ s₂, phaseStep c cfg s₁ (i.tick, .poll .authPending) = some s₂ ∧
      Settled s.auth.answered s₂ := by
    by_cases hin₁ : s₁.link.inUse = true
    · exact ⟨_, if_pos hin₁, hsettling.pollAuthPending hset hpast⟩
    · exact ⟨s₁, if_neg hin₁, Or.inl (by simpa using hin₁)⟩
  obtain ⟨s', hs', hend⟩ := run_polls_of_micro (Settled.micro s.auth.answered) hsettled i.tick
    after (hafter s₂ hs₂)
  refine ⟨s', ?_, hend⟩
  rw [tickPhases, run, haccept, Option.bind_some, hsplit, map_append, run_append, hs₁,
    Option.bind_some, map_cons, run, hs₂, Option.bind_some, hs']

/-- In every run in which no request follows the success of its connection and no deadline is
zero: at most three passwords are compared on a connection, none while an answer to a failure
is due, the connection is not authenticated once the limit is reached, every failure is
answered once unless the connection is to be closed, and a due answer is given, or the
connection closed, by the first tick past its deadline. -/
theorem password_attempts_limited (c : Crypto) (cfg : Config) (phases : List (UInt32 × Phase))
    (htimely : Along (phaseStep c cfg) (DispatchOk c Timely) serverInit phases) :
    ∃ s, run (phaseStep c cfg) serverInit phases = some s ∧
      s.auth.attempts ≤ SSH_AUTH_RETRY_LIMIT ∧ s.auth.overlapped = false ∧
      (s.auth.failures = SSH_AUTH_RETRY_LIMIT →
        s.auth.done = false ∧ (s.auth.pendingClose = true ∨ s.link.closing = true)) ∧
      s.auth.answered + s.auth.count.due ≤ s.auth.failures ∧
      (s.link.closing = false → s.auth.failures = s.auth.answered + s.auth.count.due) ∧
      ∀ i : TickInput, s.link.inUse = true → s.auth.count.pending = true →
        ¬authFailureDelayPending i.tick s.auth.delayUntilTick →
        Along (phaseStep c cfg) (DispatchOk c Timely) s (tickPhases i) →
        ∃ s', run (phaseStep c cfg) s (tickPhases i) = some s' ∧
          (s'.link.inUse = false ∨ s'.link.closing = true ∨ s.auth.answered < s'.auth.answered) := by
  obtain ⟨s, hrun, hs⟩ := run_of_micro
    (I := fun s => Limited s.link.closing s.auth.count) Limited.micro Limited.accept
    (limited_init (s := serverInit) _) phases htimely
  refine ⟨s, hrun, ?_, hs.separate, hs.reached, hs.accounted, hs.answered, ?_⟩
  · show s.auth.count.attempts ≤ _
    have hlimit := hs.limit
    rw [hs.attempts]
    split
    · rename_i hdone
      have hne : s.auth.count.failures ≠ SSH_AUTH_RETRY_LIMIT := by
        intro heq
        rw [(hs.reached heq).1] at hdone
        cases hdone
      omega
    · exact hlimit
  · intro i hin hpending hpast hok
    exact settled_after_tick i (hs.delayed hpending) hpending hin hpast hok

end Limit

/-- A client that sends the given passwords in clear at one tick. -/
def guessingClient (tick : UInt32) (passwords : List String) : TickInput :=
  clientTick tick (some true) clientBanner
    (clearPacket serviceRequest ++ passwords.flatMap fun p => clearPacket (passwordRequest p))

/-- A wrong password at tick 1 is answered by tick 30. -/
theorem wrong_password_answered :
    Along (phaseStep zeroCrypto exampleConfig) (DispatchOk zeroCrypto Timely) serverInit
      (tickPhases (guessingClient 1 ["no"])) ∧
    ∃ s, run (phaseStep zeroCrypto exampleConfig) serverInit
        (tickPhases (guessingClient 1 ["no"])) = some s ∧
      s.auth.failures = 1 ∧ s.auth.attempts ≤ SSH_AUTH_RETRY_LIMIT ∧
      ∃ s', run (phaseStep zeroCrypto exampleConfig) s (tickPhases (clientTick 30 none [] [])) =
          some s' ∧
        (s'.link.inUse = false ∨ s'.link.closing = true ∨ s.auth.answered < s'.auth.answered) := by
  have htimely : Along (phaseStep zeroCrypto exampleConfig) (DispatchOk zeroCrypto Timely)
      serverInit (tickPhases (guessingClient 1 ["no"])) := by decide +kernel
  have hflags : (run (phaseStep zeroCrypto exampleConfig) serverInit
      (tickPhases (guessingClient 1 ["no"]))).map (fun s => (s.auth.failures, s.link.inUse,
        s.auth.count.pending, decide (¬authFailureDelayPending 30 s.auth.delayUntilTick),
        decide (Along (phaseStep zeroCrypto exampleConfig) (DispatchOk zeroCrypto Timely) s
          (tickPhases (clientTick 30 none [] []))))) = some (1, true, true, true, true) := by
    decide +kernel
  obtain ⟨s, hrun, hlimit, -, -, -, -, hanswer⟩ := password_attempts_limited zeroCrypto exampleConfig
    (tickPhases (guessingClient 1 ["no"])) htimely
  rw [hrun, Option.map_some] at hflags
  simp only [Option.some.injEq, Prod.mk.injEq, decide_eq_true_eq] at hflags
  obtain ⟨hfailures, hin, hpending, hpast, hok⟩ := hflags
  exact ⟨htimely, s, hrun, hfailures, hlimit, hanswer _ hin hpending hpast hok⟩

/-- Four passwords are compared on a connection when the first is right; and a failure at the
tick whose deadline is zero is still not answered long after it. -/
theorem attempts_unlimited_and_failure_unanswered :
    (∃ s, run (phaseStep zeroCrypto exampleConfig) serverInit
        (tickPhases (guessingClient 1 ["pw", "pw", "pw", "pw"])) = some s ∧
      SSH_AUTH_RETRY_LIMIT < s.auth.attempts ∧ s.link.closing = false) ∧
    ∃ s, run (phaseStep zeroCrypto exampleConfig) serverInit
        (runPhases [guessingClient 4294967276 ["no"], clientTick 1 none [] [],
          clientTick 500 none [] []]) = some s ∧
      s.link.inUse = true ∧ s.link.closing = false ∧ s.auth.failures = 1 ∧
      s.auth.answered = 0 ∧ s.auth.pendingFailure = true := by
  have hfour : (run (phaseStep zeroCrypto exampleConfig) serverInit
      (tickPhases (guessingClient 1 ["pw", "pw", "pw", "pw"]))).map
      (fun s => (s.auth.attempts, s.link.closing)) = some (4, false) := by decide +kernel
  have hlate : (run (phaseStep zeroCrypto exampleConfig) serverInit
      (runPhases [guessingClient 4294967276 ["no"], clientTick 1 none [] [],
        clientTick 500 none [] []])).map (fun s => (s.link.inUse, s.link.closing, s.auth.failures,
        s.auth.answered, s.auth.pendingFailure)) = some (true, false, 1, 0, true) := by
    decide +kernel
  obtain ⟨s, hrun, hs⟩ := Option.map_eq_some_iff.mp hfour
  obtain ⟨t, hlaterun, ht⟩ := Option.map_eq_some_iff.mp hlate
  simp only [Prod.mk.injEq] at hs ht
  refine ⟨⟨s, hrun, ?_, hs.2⟩, t, hlaterun, ht⟩
  rw [hs.1]
  decide

end Sodex.Ssh
