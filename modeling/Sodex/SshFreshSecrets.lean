import Sodex.SshAuthOrder
import Mathlib.Data.List.Pairwise

/-!
# The secrets of the key exchanges

The generator goes back to the start of its stream when a connection is accepted and again
before a secret is drawn. So the secret of every key exchange is the same 32 bytes, and the
cookie of the connection, sent in clear, is their first half. The log of the fills keeps
secrets apart from each other and from what is sent in clear just if no secret is drawn.
-/
namespace Sodex.Ssh

open CInt CtrMode Runs Relation List Option

/-- Two fills share a position. -/
def Use.Overlaps (u v : Use) : Prop := u.first < v.first + v.len ∧ v.first < u.first + u.len

instance (u v : Use) : Decidable (u.Overlaps v) := inferInstanceAs (Decidable (_ ∧ _))

def UseKind.Clear : UseKind → Bool
  | .cookie | .clearPadding => true
  | .sealedPadding | .secret => false

/-- Fills that must not share a position: two secrets, or a secret and bytes sent in clear. -/
def Use.Apart (u v : Use) : Prop :=
  (u.kind = .secret ∧ (v.kind = .secret ∨ v.kind.Clear = true) ∨
    v.kind = .secret ∧ u.kind.Clear = true) → ¬u.Overlaps v

instance (u v : Use) : Decidable (u.Apart v) := inferInstanceAs (Decidable (_ → _))

/-- Every two fills of the log keep apart where they must. -/
def Fresh (uses : List Use) : Prop := uses.Pairwise Use.Apart

instance (uses : List Use) : Decidable (Fresh uses) := inferInstanceAs (Decidable (List.Pairwise _ _))

/-- The cookie and the secret as they are drawn after a reset. -/
def cookieUse : Use := ⟨.cookie, 0, 16⟩
def secretUse : Use := ⟨.secret, 0, 32⟩

theorem fresh_of_no_secret {uses : List Use} (h : ∀ u ∈ uses, u.kind ≠ .secret) : Fresh uses := by
  refine List.Pairwise.imp_of_mem (fun hu hv _ => ?_) (pairwise_of_forall
    fun _ _ => trivial)
  rintro (⟨hsecret, -⟩ | ⟨hsecret, -⟩)
  · exact absurd hsecret (h _ hu)
  · exact absurd hsecret (h _ hv)

/-- A cookie and a secret drawn after resets are not apart, whichever comes first. -/
theorem not_fresh {uses : List Use} (hcookie : cookieUse ∈ uses) (hsecret : secretUse ∈ uses) :
    ¬Fresh uses := by
  intro hfresh
  have hsymm : Std.Symm Use.Apart := ⟨fun u v h hkind hover =>
    h (by tauto) ⟨hover.2, hover.1⟩⟩
  exact hfresh.forall hcookie hsecret (by decide) (by decide) (by decide)

theorem Rng.reset_uses (seed : List UInt8) (rng : Rng) : (rng.reset seed).uses = rng.uses := by
  unfold Rng.reset
  simp only
  split <;> rfl

theorem Rng.reset_word (seed : List UInt8) (rng : Rng) : (rng.reset seed).word = 0 := by
  unfold Rng.reset
  simp only
  split <;> rfl

theorem uses_secret (cfg : Config) (s : Server) :
    ((s.rng.reset cfg.rngSeed).fill .secret 32).2.uses = s.rng.uses ++ [secretUse] := by
  show (s.rng.reset cfg.rngSeed).uses ++ [⟨.secret, 4 * (s.rng.reset cfg.rngSeed).word, 32⟩] = _
  rw [Rng.reset_uses, Rng.reset_word]
  rfl

theorem queueClose_rng (s : Server) (reason : String) : (queueClose s reason).rng = s.rng := by
  unfold queueClose
  split <;> rfl

theorem flushOutbox_rng (s : Server) (blocked : Bool) (sent : Option ℕ) :
    (flushOutbox s blocked sent).rng = s.rng :=
  flushOutbox_preserves (I := fun s' => s'.rng = s.rng) (fun _ _ _ h => h) rfl
    (fun _ _ _ _ => rfl) blocked sent

/-- The log has grown by fills that meet `Q`. -/
def Draws (Q : Use → Prop) (s s' : Server) : Prop :=
  ∃ new, s'.rng.uses = s.rng.uses ++ new ∧ ∀ u ∈ new, Q u

section Draws

variable {c : Crypto} {cfg : Config} {P : Guard} {Q : Use → Prop} {s s' : Server}

theorem Draws.of_eq (h : s'.rng.uses = s.rng.uses) : Draws Q s s' :=
  ⟨[], by rw [h, append_nil], nofun⟩

theorem Draws.trans {s'' : Server} (h : Draws Q s s') (h' : Draws Q s' s'') : Draws Q s s'' := by
  obtain ⟨new, heq, hnew⟩ := h
  obtain ⟨new', heq', hnew'⟩ := h'
  refine ⟨new ++ new', by rw [heq', heq, append_assoc], fun u hu => ?_⟩
  rcases mem_append.mp hu with hu | hu
  · exact hnew u hu
  · exact hnew' u hu

theorem Draws.mem {u : Use} (h : Draws Q s s') (hu : u ∈ s.rng.uses) : u ∈ s'.rng.uses := by
  obtain ⟨new, heq, -⟩ := h
  rw [heq]
  exact mem_append_left new hu

theorem Draws.forall {R : Use → Prop} (h : Draws Q s s') (hQ : ∀ u, Q u → R u)
    (hR : ∀ u ∈ s.rng.uses, R u) : ∀ u ∈ s'.rng.uses, R u := by
  obtain ⟨new, heq, hnew⟩ := h
  intro u hu
  rw [heq] at hu
  rcases mem_append.mp hu with hu | hu
  · exact hR u hu
  · exact hQ u (hnew u hu)

variable (hQ : ∀ u : Use, u.kind ≠ .secret → Q u)
include hQ

theorem draws_queuePayload (c : Crypto) (s : Server) (payload : List UInt8) (activate : Bool) :
    Draws Q s (queuePayload c s payload activate).2 := by
  unfold queuePayload
  split
  · exact Draws.of_eq rfl
  · refine ⟨_, rfl, fun u hu => hQ u ?_⟩
    rw [mem_singleton.mp hu]
    simp only
    split <;> decide

theorem draws_announceNewkeys (c : Crypto) (s : Server) : Draws Q s (announceNewkeys c s).2 := by
  have hqueue := draws_queuePayload hQ c s [21] true
  unfold announceNewkeys
  simp only
  split
  · exact hqueue
  · exact hqueue.trans (Draws.of_eq rfl)

/-- What an effect draws, if `Q` holds for everything but secrets, and for the secrets that
the condition lets through. -/
theorem Micro.draws (hsecret : ∀ s, Exchanging P s → Q secretUse) (h : Micro c cfg P s s') :
    Draws Q s s' := by
  cases h with
  | send payload _ => exact draws_queuePayload hQ c s payload false
  | link l _ => exact Draws.of_eq rfl
  | channel ch _ => exact Draws.of_eq rfl
  | locals looping result => exact Draws.of_eq rfl
  | receive rx _ => exact Draws.of_eq rfl
  | kex k _ => exact Draws.of_eq rfl
  | cookie =>
    refine ⟨_, rfl, fun u hu => hQ u ?_⟩
    rw [mem_singleton.mp hu]
    exact nofun
  | secret hexchange =>
    exact ⟨[secretUse], uses_secret cfg s, by simpa using hsecret s hexchange⟩
  | derive keys _ => exact Draws.of_eq rfl
  | announce keys _ _ => exact draws_announceNewkeys hQ c s
  | newkeys tick mem payload _ _ => exact Draws.of_eq rfl
  | service => exact Draws.of_eq rfl
  | userauth tick mem payload accepted username service _ _ _ _ =>
    cases accepted <;> exact Draws.of_eq rfl
  | authFlush tick _ =>
    exact authFlush_preserves (fun _ _ _ h => h) (fun _ _ _ _ h => h)
      (fun s payload _ h => h.trans (draws_queuePayload hQ c s payload false)) (Draws.of_eq rfl)
      tick
  | flush blocked sent => exact Draws.of_eq (congrArg Rng.uses (flushOutbox_rng s blocked sent))
  | release => exact Draws.of_eq rfl

theorem Chain.draws (hsecret : ∀ s, Exchanging P s → Q secretUse) (h : Chain c cfg P s s') :
    Draws Q s s' :=
  h.preserves (fun _ _ hmicro hs => hs.trans (hmicro.draws hQ hsecret))
    (Draws.of_eq rfl)

end Draws

/-- The connection has not received a banner, and nothing was drawn since it was accepted. -/
structure Early (s : Server) : Prop where
  banner : s.link.bannerReceived = false
  kexinit : s.kex.kexinitSent = false
  delay : s.auth.delayUntilTick = 0
  channel : s.channel = resetChannel
  word : s.rng.word = 0
  buf : s.rx.buf = []

section Early

variable {c : Crypto} {cfg : Config} {s s' : Server}

theorem Early.queueClose (h : Early s) (reason : String) : Early (queueClose s reason) := by
  unfold Ssh.queueClose
  split
  · exact h
  · exact ⟨h.banner, h.kexinit, h.delay, h.channel, h.word, h.buf⟩

/-- The first KEXINIT of a connection draws its cookie at the start of the stream. -/
theorem cookie_queueKexinit (c : Crypto) (hkex : s.kex.kexinitSent = false)
    (hword : s.rng.word = 0) : cookieUse ∈ (queueKexinit c s).2.rng.uses := by
  have hcookie : cookieUse ∈ (s.rng.fill .cookie 16).2.uses := by
    show cookieUse ∈ s.rng.uses ++ [⟨.cookie, 4 * s.rng.word, 16⟩]
    rw [hword]
    exact mem_append_right _ (mem_singleton.mpr rfl)
  unfold queueKexinit
  rw [if_neg (by simp [hkex])]
  rcases buildKexinitPayload_cases s with heq | ⟨payload, -, heq⟩
  · simp only [heq, if_pos (by decide : (-1 : ℤ) < 0)]
    exact hcookie
  · simp only [heq, if_neg (Int.lt_irrefl 0)]
    have hqueue := (draws_queuePayload (fun _ _ => trivial) c { s with
      rng := (s.rng.fill .cookie 16).2, kex := { s.kex with serverKexinit := payload } }
      payload false).mem hcookie
    split
    · exact hqueue
    · exact hqueue

theorem Early.finishBanner (h : Early s) (line rest : List UInt8) (hrest : rest.length ≤ 256) :
    Early (finishBanner c s line rest).2 ∨ cookieUse ∈ (finishBanner c s line rest).2.rng.uses := by
  unfold Ssh.finishBanner
  simp only
  split
  · exact Or.inl ⟨h.banner, h.kexinit, h.delay, h.channel, h.word, h.buf⟩
  · right
    by_cases hnil : rest = []
    · rw [if_pos hnil, if_neg (by simp)]
      exact cookie_queueKexinit c h.kexinit h.word
    · have hroom : ¬SSH_RX_BUFFER_SIZE < s.rx.buf.length + rest.length := by
        rw [h.buf]
        simp only [SSH_RX_BUFFER_SIZE, length_nil]
        omega
      simp only [if_neg hnil, appendRx, if_neg hroom, if_neg (Int.lt_irrefl 0)]
      exact cookie_queueKexinit c h.kexinit h.word

theorem Early.bannerLoop (h : Early s) (chunk : List UInt8) (hchunk : chunk.length ≤ 256) :
    Early (bannerLoop c s chunk).2 ∨ cookieUse ∈ (bannerLoop c s chunk).2.rng.uses := by
  induction chunk generalizing s with
  | nil => exact Or.inl h
  | cons b rest ih =>
    have hrest : rest.length ≤ 256 := (Nat.le_succ _).trans hchunk
    unfold Ssh.bannerLoop
    split
    · exact Or.inl h
    · split
      · exact h.finishBanner _ rest hrest
      · exact ih ⟨h.banner, h.kexinit, h.delay, h.channel, h.word, h.buf⟩ hrest

theorem Early.pumpBanner (h : Early s) (tick : UInt32) (chunk : List UInt8) :
    Early (pumpBanner c tick s chunk) ∨ cookieUse ∈ (pumpBanner c tick s chunk).rng.uses := by
  unfold Ssh.pumpBanner
  split
  · exact Or.inl h
  · have hactive : Early { s with link := { s.link with lastActivityTick := tick } } :=
      ⟨h.banner, h.kexinit, h.delay, h.channel, h.word, h.buf⟩
    have hloop := hactive.bannerLoop (c := c) (chunk.take 256) (length_take_le _ _)
    simp only
    generalize Ssh.bannerLoop c _ (chunk.take 256) = pumped at hloop
    split
    · rw [queueClose_rng]
      exact hloop.imp_left fun hearly => hearly.queueClose _
    · exact hloop

theorem Early.flushOutbox (h : Early s) (blocked : Bool) (sent : Option ℕ) :
    Early (flushOutbox s blocked sent) := by
  unfold Ssh.flushOutbox
  split
  · exact h
  · split
    · exact h
    · split
      · exact h.queueClose _
      · exact ⟨h.banner, h.kexinit, h.delay, h.channel, h.word, h.buf⟩

/-- A phase of an early connection: it stays early, it ends, or the cookie is drawn. -/
theorem Early.pollStep (h : Early s) {tick : UInt32} {phase : PollPhase}
    (hstep : pollStep c cfg tick s phase = some s') :
    Early s' ∨ s'.link.inUse = false ∨ cookieUse ∈ s'.rng.uses := by
  have hrelease : (releaseConnection s).link.inUse = false := by
    unfold releaseConnection
    split
    · rfl
    · simp_all
  have hlocals (looping : Bool) (result : ℤ) :
      Early { s with looping := looping, startResult := result } :=
    ⟨h.banner, h.kexinit, h.delay, h.channel, h.word, h.buf⟩
  cases phase with
  | begin socketClosed =>
    obtain rfl := some.inj hstep
    unfold beginPoll
    split
    · exact Or.inr (Or.inl hrelease)
    · split
      · exact Or.inl (h.queueClose _)
      · exact Or.inl h
  | sendBanner blocked sent =>
    obtain rfl := some.inj hstep
    unfold sendBanner
    split
    · exact Or.inl h
    · split
      · exact Or.inl ⟨h.banner, h.kexinit, h.delay, h.channel, h.word, h.buf⟩
      · exact Or.inl (h.queueClose _)
  | pumpBanner chunk =>
    obtain rfl := some.inj hstep
    exact (h.pumpBanner tick chunk).imp_right Or.inr
  | pumpRx chunk =>
    obtain rfl := some.inj hstep
    rw [pumpRx, if_pos (Or.inr (Or.inl (by simp [h.banner])))]
    exact Or.inl h
  | authPending =>
    obtain rfl := some.inj hstep
    left
    unfold pollAuthPending flushAuthPending
    simp only [if_pos h.delay, if_neg (Int.lt_irrefl 0), ite_self]
    exact hlocals _ _
  | packet outside signer =>
    have hno : ¬s.Receives tick := fun hr => absurd (h.banner.symm.trans hr.2.2.1) (by decide)
    simp only [Ssh.pollStep, pollPacket, if_neg hno, some.injEq] at hstep
    rw [← hstep]
    exact Or.inl (hlocals _ _)
  | startShell tty pid =>
    obtain rfl := some.inj hstep
    left
    have hidle : startPendingShell c tick s tty pid = (0, s) := by
      simp [startPendingShell, h.channel, resetChannel]
    simp only [pollStartShell, hidle, if_neg (Int.lt_irrefl 0)]
    split
    · exact h
    · exact hlocals _ _
  | shell blocked reads alive =>
    obtain rfl := some.inj hstep
    left
    have hpump : pumpTtyToChannel c tick s blocked reads = s := by
      simp [pumpTtyToChannel, h.channel, resetChannel]
    have hshell : pollShell c s alive = s := by
      simp [pollShell, h.channel, resetChannel]
    simp only [pollTty, hpump, hshell, ite_self]
    exact h
  | flush blocked sent =>
    obtain rfl := some.inj hstep
    exact Or.inl (h.flushOutbox blocked sent)
  | finish blocked =>
    obtain rfl := some.inj hstep
    unfold finishPoll
    split
    · exact Or.inr (Or.inl hrelease)
    · exact Or.inl h

end Early

/-- No public value reaches the point where the secret is drawn. -/
def NoDraw : Guard := fun _ _ mem payload =>
  payload.head?.map messageOf = some .kexEcdhInit → clientPublic mem payload = none

instance (tick : UInt32) (s : Server) (mem : Memory) (payload : List UInt8) :
    Decidable (NoDraw tick s mem payload) := inferInstanceAs (Decidable (_ → _))

/-- The log of a run: a connection is early or has drawn its cookie, and every secret is drawn
where a cookie was drawn before. -/
structure Traced (s : Server) : Prop where
  cookie : s.link.inUse = true → Early s ∨ cookieUse ∈ s.rng.uses
  secret : ∀ u ∈ s.rng.uses, u.kind = .secret → u = secretUse ∧ cookieUse ∈ s.rng.uses

section Runs

variable {c : Crypto} {cfg : Config} {s s' : Server} {input : UInt32 × Phase}

theorem accept_uses (cfg : Config) (tick : UInt32) (s : Server) (child : Option Bool) :
    (acceptPendingConnections cfg tick s child).rng.uses = s.rng.uses := by
  unfold acceptPendingConnections
  split
  · rfl
  · split
    · exact Rng.reset_uses _ _
    · rfl

/-- A phase that returns does not copy outside the buffers. -/
theorem dispatchOk_of_some (hstep : phaseStep c cfg s input = some s') :
    DispatchOk c (fun _ _ _ _ => True) s input := by
  obtain ⟨tick, phase⟩ := input
  cases phase with
  | accept child => trivial
  | poll phase =>
    cases phase with
    | packet outside signer =>
      intro hin hrec
      simp only [phaseStep, if_pos hin, pollStep, pollPacket, if_pos hrec] at hstep
      cases hdec : tryDecodePacket c s.rx with
      | wild =>
        rw [hdec] at hstep
        cases hstep
      | wait => trivial
      | invalid rx => trivial
      | packet payload rx => trivial
    | _ => trivial

/-- A phase adds fills to the log; a secret is added only if the condition lets it through. -/
theorem draws_phaseStep {P : Guard} {Q : Use → Prop}
    (hQ : ∀ u : Use, u.kind ≠ .secret → Q u) (hsecret : ∀ s, Exchanging P s → Q secretUse)
    (hok : DispatchOk c P s input) (hstep : phaseStep c cfg s input = some s') : Draws Q s s' := by
  obtain ⟨tick, phase⟩ := input
  cases phase with
  | accept child =>
    obtain rfl := some.inj hstep
    exact Draws.of_eq (accept_uses cfg tick s child)
  | poll phase =>
    obtain ⟨s₁, hs₁, hchain⟩ : ∃ s₁, phaseStep c cfg s (tick, .poll phase) = some s₁ ∧
      Chain c cfg P s s₁ := chain_phaseStep tick phase hok
    obtain rfl := some.inj (hs₁.symm.trans hstep)
    exact hchain.draws hQ hsecret

theorem noDraw_secret (s : Server) : ¬Exchanging NoDraw s := by
  rintro ⟨tick, s₀, mem, payload, hno, hmsg, hpublic, -⟩
  exact hpublic (hno hmsg)

/-- Without a public value only other fills are added. -/
theorem draws_of_noDraw (hok : DispatchOk c NoDraw s input)
    (hstep : phaseStep c cfg s input = some s') : Draws (fun u => u.kind ≠ .secret) s s' :=
  draws_phaseStep (fun _ h => h) (fun s h => absurd h (noDraw_secret s)) hok hstep

theorem draws_of_some (hstep : phaseStep c cfg s input = some s') :
    Draws (fun u => u.kind = .secret → u = secretUse) s s' :=
  draws_phaseStep (fun _ h hsecret => absurd hsecret h) (fun _ _ _ => rfl)
    (dispatchOk_of_some hstep) hstep

theorem Traced.accept (h : Traced s) (tick : UInt32) (child : Option Bool) :
    Traced (acceptPendingConnections cfg tick s child) := by
  constructor
  · intro hin
    unfold acceptPendingConnections at hin ⊢
    split
    · rename_i hin
      exact h.cookie hin
    · split
      · exact Or.inl ⟨rfl, rfl, rfl, rfl, Rng.reset_word _ _, rfl⟩
      · rename_i hfree hchild
        rw [if_neg hfree, if_neg hchild] at hin
        exact absurd hin hfree
  · rw [accept_uses]
    exact h.secret

/-- Every phase keeps the log in order. -/
theorem Traced.step (s : Server) (input : UInt32 × Phase) (s' : Server) (h : Traced s)
    (hstep : phaseStep c cfg s input = some s') : Traced s' := by
  obtain ⟨tick, phase⟩ := input
  cases phase with
  | accept child =>
    obtain rfl := some.inj hstep
    exact h.accept tick child
  | poll phase =>
    by_cases hin : s.link.inUse = true
    · rcases h.cookie hin with hearly | hcookie
      · have hok : DispatchOk c NoDraw s (tick, .poll phase) := by
          cases phase with
          | packet outside signer =>
            exact fun _ hrec => absurd (hearly.banner.symm.trans hrec.2.2.1) (by decide)
          | _ => trivial
        have hdraws := draws_of_noDraw hok hstep
        have hstep : pollStep c cfg tick s phase = some s' := by
          rwa [phaseStep, if_pos hin] at hstep
        refine ⟨fun hin' => ?_, fun u hu hsecret => ?_⟩
        · rcases hearly.pollStep hstep with hearly | hfree | hcookie
          · exact Or.inl hearly
          · rw [hfree] at hin'
            cases hin'
          · exact Or.inr hcookie
        · refine ((hdraws.forall (R := fun u => u.kind = .secret → u = secretUse ∧
            cookieUse ∈ s.rng.uses) (fun u hu hsecret => absurd hsecret hu) h.secret) u hu
            hsecret).imp_right hdraws.mem
      · have hdraws := draws_of_some hstep
        refine ⟨fun _ => Or.inr (hdraws.mem hcookie), fun u hu hsecret => ⟨?_, hdraws.mem hcookie⟩⟩
        exact hdraws.forall (fun _ hu => hu) (fun u hu hsecret => (h.secret u hu hsecret).1) u hu
          hsecret
    · rw [phaseStep, if_neg hin] at hstep
      obtain rfl := some.inj hstep
      exact h

theorem secret_handleKexInit (c : Crypto) (cfg : Config) (signer : SignerReply) (s : Server)
    {mem : Memory} {payload : List UInt8}
    (hmsg : payload.head?.map messageOf = some .kexEcdhInit)
    (hpublic : clientPublic mem payload ≠ none) :
    secretUse ∈ (handleKexInit c cfg signer s mem payload).2.rng.uses := by
  have hdraw (hash : List UInt8) (sid : Option (List UInt8)) :
      secretUse ∈ (drawSecret cfg s hash sid).rng.uses := by
    show secretUse ∈ ((s.rng.reset cfg.rngSeed).fill .secret 32).2.uses
    rw [uses_secret]
    exact mem_append_right _ (mem_singleton.mpr rfl)
  rcases handleKexInit_cases c cfg signer s mem payload with
    ⟨hnone, -⟩ | ⟨-, hash, sid, heq | ⟨shared, reply, hreply, heq⟩⟩
  · exact absurd hnone hpublic
  · rw [heq]
    exact hdraw hash sid
  · rw [heq]
    have hexchange : Exchanging (fun _ _ _ _ => True) (drawSecret cfg s hash sid) :=
      ⟨0, drawSecret cfg s hash sid, mem, payload, trivial, hmsg, hpublic, rfl⟩
    have hfinish : Chain c cfg (fun _ _ _ _ => True) (drawSecret cfg s hash sid)
      (finishExchange c (drawSecret cfg s hash sid) shared reply).2 :=
      chain_finishExchange hexchange (by rw [hreply]; decide)
    exact (hfinish.draws (Q := fun _ => True) (fun _ _ => trivial) fun _ _ => trivial).mem
      (hdraw hash sid)

/-- A phase after which no secret is in the log handles no public value. -/
theorem noDraw_of_not_mem (hstep : phaseStep c cfg s input = some s')
    (hno : secretUse ∉ s'.rng.uses) : DispatchOk c NoDraw s input := by
  obtain ⟨tick, phase⟩ := input
  cases phase with
  | accept child => trivial
  | poll phase =>
    cases phase with
    | packet outside signer =>
      intro hin hrec
      have hwild := dispatchOk_of_some hstep hin hrec
      simp only [phaseStep, if_pos hin, pollStep, pollPacket, if_pos hrec] at hstep
      cases hdec : tryDecodePacket c s.rx with
      | wild =>
        rw [hdec] at hwild
        exact hwild.elim
      | wait => trivial
      | invalid rx => trivial
      | packet payload rx =>
        intro hmsg
        by_contra hpublic
        have hmem := secret_handleKexInit c cfg signer { s with rx := rx } hmsg hpublic
        have hhandle : handlePayload c cfg tick signer { s with rx := rx }
            (payloadMem payload outside) payload = handleKexInit c cfg signer { s with rx := rx }
            (payloadMem payload outside) payload := by
          cases payload with
          | nil => cases hmsg
          | cons number rest =>
            have hnumber : messageOf number = .kexEcdhInit := some.inj hmsg
            simp only [handlePayload, hnumber]
        rw [hdec] at hstep
        simp only [hhandle] at hstep
        split at hstep
        · rw [← some.inj hstep] at hno
          exact hno (by simpa only [queueClose_rng] using hmem)
        · rw [← some.inj hstep] at hno
          exact hno hmem
    | _ => trivial

/-- A log without secrets is that of a run in which no public value came through. -/
theorem along_of_no_secret (phases : List (UInt32 × Phase)) (s s' : Server)
    (hrun : run (phaseStep c cfg) s phases = some s') (hno : secretUse ∉ s'.rng.uses) :
    Along (phaseStep c cfg) (DispatchOk c NoDraw) s phases := by
  induction phases generalizing s with
  | nil => trivial
  | cons input phases ih =>
    obtain ⟨s₁, hs₁, hrest⟩ := bind_eq_some_iff.mp hrun
    -- what is in the log after this phase is there at the end
    have hgrows : secretUse ∈ s₁.rng.uses → secretUse ∈ s'.rng.uses := by
      intro hmem
      refine run_keeps (I := fun t : Server => secretUse ∈ t.rng.uses) (fun t input t' ht hstep => ?_)
        phases s₁ s' hmem hrest
      exact (draws_of_some hstep).mem ht
    refine ⟨noDraw_of_not_mem hs₁ (mt hgrows hno), fun t ht => ?_⟩
    obtain rfl := some.inj (hs₁.symm.trans ht)
    exact ih s₁ hrest

end Runs

/-- The log of a run keeps secrets apart from each other and from what is sent in clear just
if no key exchange draws a secret. -/
theorem secrets_fresh_iff (c : Crypto) (cfg : Config) (phases : List (UInt32 × Phase)) (s : Server)
    (hrun : run (phaseStep c cfg) serverInit phases = some s) :
    Fresh s.rng.uses ↔ Along (phaseStep c cfg) (DispatchOk c NoDraw) serverInit phases := by
  constructor
  · intro hfresh
    have htraced : Traced s := run_keeps Traced.step phases serverInit s ⟨nofun, nofun⟩ hrun
    exact along_of_no_secret phases serverInit s hrun fun hsecret =>
      not_fresh (htraced.secret secretUse hsecret rfl).2 hsecret hfresh
  · intro hnone
    have hno : ∀ u ∈ s.rng.uses, u.kind ≠ .secret := by
      refine run_preserves (I := fun t : Server => ∀ u ∈ t.rng.uses, u.kind ≠ .secret)
        (fun t input t' ht hok hstep => ?_) phases serverInit s nofun hnone hrun
      exact (draws_of_noDraw hok hstep).forall (fun _ hu => hu) ht
    exact fresh_of_no_secret hno

/-- A run without a key exchange. -/
theorem clearClient_fresh : ∃ s,
    run (phaseStep zeroCrypto exampleConfig) serverInit clearClient = some s ∧
      Along (phaseStep zeroCrypto exampleConfig) (DispatchOk zeroCrypto NoDraw) serverInit
        clearClient ∧ Fresh s.rng.uses := by
  have hsome : (run (phaseStep zeroCrypto exampleConfig) serverInit clearClient).isSome = true := by
    decide +kernel
  obtain ⟨s, hrun⟩ := isSome_iff_exists.mp hsome
  have hnone : Along (phaseStep zeroCrypto exampleConfig) (DispatchOk zeroCrypto NoDraw) serverInit
      clearClient := by decide +kernel
  exact ⟨s, hrun, hnone, (secrets_fresh_iff _ _ _ _ hrun).mpr hnone⟩

/-- A client that makes the server run two key exchanges. -/
def exchangingClient : List (UInt32 × Phase) := tickPhases
  (clientTick 1 (some true) (clientBanner ++ clearPacket clientKexinit)
    (clearPacket ecdhInit ++ clearPacket ecdhInit))

/-- Both secrets are the same bytes of the stream, and half of them went out as the cookie. -/
theorem exchangingClient_repeats : ∃ s,
    run (phaseStep zeroCrypto exampleConfig) serverInit exchangingClient = some s ∧
      cookieUse ∈ s.rng.uses ∧ s.rng.uses.count secretUse = 2 ∧ ¬Fresh s.rng.uses ∧
      (s.kex.serverKexinit.drop 1).take 16 =
        ((serverInit.rng.reset exampleConfig.rngSeed).fill .secret 32).1.take 16 := by
  have hlog : (run (phaseStep zeroCrypto exampleConfig) serverInit exchangingClient).map
      (fun s => (decide (cookieUse ∈ s.rng.uses), s.rng.uses.count secretUse,
        decide (Fresh s.rng.uses), (s.kex.serverKexinit.drop 1).take 16)) =
      some (true, 2, false,
        ((serverInit.rng.reset exampleConfig.rngSeed).fill .secret 32).1.take 16) := by
    decide +kernel
  obtain ⟨s, hrun, hs⟩ := map_eq_some_iff.mp hlog
  simp only [Prod.mk.injEq, decide_eq_true_eq, decide_eq_false_iff_not] at hs
  exact ⟨s, hrun, hs⟩

end Sodex.Ssh
