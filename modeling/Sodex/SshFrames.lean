import Sodex.SshSteps

/-!
# What a phase of the SSH server leaves alone

Most messages and phases change neither the receiving side of the connection, apart from
its buffer, nor the flow control of the channel, and send neither channel data nor window
messages. What is left is one case each: a packet that is read, the key exchange, the two
messages that set the window, and the output of the shell.
-/
namespace Sodex.Ssh

open CInt CtrMode Runs Option

section Quiet

variable {c : Crypto} {s s' : Server} {tick : UInt32} {cfg : Config} {payload : List UInt8}
  {signer : SignerReply} {outside : Memory}

/-- The end of a key exchange puts the derived keys in place, and is quiet otherwise. -/
theorem quiet_finishExchange (c : Crypto) (s : Server) (shared : List UInt8) {reply : List UInt8}
    (hreply : IsPlain reply) :
    ∃ keys, Quiet (deriveKeyMaterial s keys) (finishExchange c s shared reply).2 := by
  unfold finishExchange
  simp only
  generalize deriveKeys c shared s.kex.exchangeHash (s.kex.sessionId.getD []) = keys
  refine ⟨keys, ?_⟩
  have hqueue : Quiet (deriveKeyMaterial s keys)
      (queuePayload c (deriveKeyMaterial s keys) reply false).2 := quiet_queuePayload hreply false
  generalize queuePayload c (deriveKeyMaterial s keys) reply false = replied at hqueue
  split
  · exact hqueue
  · have hnewkeys : Quiet replied.2 (queuePayload c replied.2 [21] true).2 :=
      quiet_queuePayload (by decide) true
    split
    · exact hqueue.trans hnewkeys
    · refine (hqueue.trans hnewkeys).trans ?_
      exact Quiet.of_eq rfl rfl rfl rfl rfl

/-- A key exchange is quiet, or puts derived keys in place. -/
theorem quiet_handleKexInit (cfg : Config) (signer : SignerReply) (mem : Memory)
    (payload : List UInt8) :
    Quiet s (handleKexInit c cfg signer s mem payload).2 ∨
      clientPublic mem payload ≠ none ∧
        ∃ keys, Quiet (deriveKeyMaterial s keys) (handleKexInit c cfg signer s mem payload).2 := by
  rcases handleKexInit_cases c cfg signer s mem payload with
    ⟨-, heq⟩ | ⟨hpublic, hash, sid, heq | ⟨shared, reply, hreply, heq⟩⟩
  · rw [heq]
    exact .inl (Quiet.refl s)
  · rw [heq]
    exact .inl (Quiet.of_eq rfl rfl rfl rfl rfl)
  · rw [heq]
    have hplain : IsPlain reply := by
      rw [IsPlain, hreply]
      decide
    obtain ⟨keys, hfinish⟩ := quiet_finishExchange c (drawSecret cfg s hash sid) shared hplain
    refine .inr ⟨hpublic, keys, Quiet.trans ?_ hfinish⟩
    exact Quiet.of_eq rfl rfl rfl rfl rfl

/-- What a message does to the receiving side. -/
inductive Rekeys (mem : Memory) (payload : List UInt8) (s : Server) : Server → Prop where
  | same (h : payload.head?.map messageOf ≠ some .newkeys) : Rekeys mem payload s s
  | newkeys (h : payload.head?.map messageOf = some .newkeys) :
      Rekeys mem payload s (handleNewkeys s)
  | derive (keys : Keys) (h : payload.head?.map messageOf = some .kexEcdhInit)
      (hpublic : clientPublic mem payload ≠ none) : Rekeys mem payload s (deriveKeyMaterial s keys)

/-- Every message but the two that set the window is quiet, apart from the keys. -/
theorem quiet_handlePayload (cfg : Config) (tick : UInt32) (signer : SignerReply) (mem : Memory)
    (hlink : s.link.closing = false) (hopen : payload.head?.map messageOf ≠ some .channelOpen)
    (hadjust : payload.head?.map messageOf ≠ some .windowAdjust) :
    ∃ s₁, Rekeys mem payload s s₁ ∧
      Quiet s₁ (handlePayload c cfg tick signer s mem payload).2 := by
  cases payload with
  | nil => exact ⟨s, .same nofun, Quiet.refl s⟩
  | cons number rest =>
    by_cases hmsg : messageOf number ∈ [.kexEcdhInit, .newkeys, .channelOpen, .windowAdjust]
    · simp only [List.mem_cons, List.not_mem_nil, or_false] at hmsg
      rcases hmsg with hmsg | hmsg | hmsg | hmsg
      · have hsame : Rekeys mem (number :: rest) s s := .same (by simp [hmsg])
        unfold handlePayload
        simp only [hmsg]
        rcases quiet_handleKexInit cfg signer mem (number :: rest) with
          hquiet | ⟨hpublic, keys, hquiet⟩
        · exact ⟨s, hsame, hquiet⟩
        · exact ⟨_, .derive keys (congrArg some hmsg) hpublic, hquiet⟩
      · unfold handlePayload
        simp only [hmsg]
        exact ⟨_, .newkeys (congrArg some hmsg), Quiet.refl _⟩
      · exact absurd (congrArg some hmsg) hopen
      · exact absurd (congrArg some hmsg) hadjust
    · have hcalm : Calm c cfg (fun _ _ _ _ => True) Quiet s
          (handlePayload c cfg tick signer s mem (number :: rest)).2 :=
        calm_handlePayload trivial hlink hmsg
      refine ⟨s, .same fun hnewkeys => hmsg ?_, hcalm.quiet⟩
      rw [some.inj hnewkeys]
      decide

theorem quiet_queueWriter {w : Writer} {b : UInt8} (hw : w.Opens b)
    (hplain : some b ∉ [some 91, some 93, some 94]) : Quiet s (queueWriter c s w).2 := by
  unfold queueWriter
  cases hres : w.result with
  | none => exact Quiet.refl s
  | some payload =>
    refine quiet_queuePayload ?_ false
    rw [IsPlain, hw.result hres]
    exact hplain

theorem Quiet.link (h : Quiet s s') {link : Link} (hlink : LinkStep s'.link link) :
    Quiet s { s' with link := link } :=
  h.trans (Quiet.of_eq hlink.inUse rfl rfl rfl rfl)

theorem quiet_queueClose (s : Server) (reason : String) : Quiet s (queueClose s reason) :=
  queueClose_preserves (fun _ _ hlink h => h.link hlink) (Quiet.refl s) reason

theorem quiet_pollAuthPending (tick : UInt32) : Quiet s (pollAuthPending c tick s) := by
  have hstart : Quiet s { s with looping := true, startResult := 0 } :=
    Quiet.of_eq rfl rfl rfl rfl rfl
  unfold pollAuthPending
  dsimp only
  split
  · exact hstart
  · refine authFlush_preserves (fun _ _ hlink h => h.link hlink)
      (fun _ _ _ _ h => h.trans (Quiet.of_eq rfl rfl rfl rfl rfl))
      (fun s payload hpayload h => h.trans (quiet_queuePayload ?_ false)) hstart tick
    rw [IsPlain, hpayload]
    decide

theorem quiet_flushOutbox (blocked : Bool) (sent : Option ℕ) :
    Quiet s (flushOutbox s blocked sent) :=
  flushOutbox_preserves (fun _ _ hlink h => h.link hlink) (Quiet.refl s)
    (fun _ _ _ _ => Quiet.of_eq rfl rfl rfl rfl rfl) blocked sent

/-- The phases that read neither a packet nor the terminal. -/
def PollPhase.isPlain : PollPhase → Bool
  | .packet _ _ | .shell _ _ _ => false
  | _ => true

inductive Effect (c : Crypto) (tick : UInt32) (s : Server) : PollPhase → Server → Prop where
  /-- The connection ends. -/
  | release (phase : PollPhase) : Effect c tick s phase (resetConnection s)
  /-- Nothing, or bytes come in. -/
  | bytes {phase : PollPhase} {s' : Server} (buf : List UInt8)
      (hphase : phase.isPlain = true)
      (h : Quiet (s.withBuf buf) s') : Effect c tick s phase s'
  /-- No packet is read. -/
  | idle {outside : Memory} {signer : SignerReply} {s' : Server}
      (hno : s.Receives tick → tryDecodePacket c s.rx = .wait)
      (h : Quiet s s') : Effect c tick s (.packet outside signer) s'
  /-- The bytes that came in are no packet; the connection is closed. -/
  | invalid {outside : Memory} {signer : SignerReply} {s' : Server} {rx : Rx}
      (hrec : s.Receives tick) (hdec : tryDecodePacket c s.rx = .invalid rx)
      (h : Quiet { s with rx := rx } s') : Effect c tick s (.packet outside signer) s'
  /-- A message that does not set the window. -/
  | message {outside : Memory} {signer : SignerReply} {payload : List UInt8} {rx : Rx}
      {s₁ s' : Server} (hrec : s.Receives tick) (hdec : tryDecodePacket c s.rx = .packet payload rx)
      (hopen : payload.head?.map messageOf ≠ some .channelOpen)
      (hadjust : payload.head?.map messageOf ≠ some .windowAdjust)
      (hkeys : Rekeys (payloadMem payload outside) payload { s with rx := rx } s₁)
      (h : Quiet s₁ s') : Effect c tick s (.packet outside signer) s'
  /-- A channel is to be opened. -/
  | opening {outside : Memory} {signer : SignerReply} {payload : List UInt8} {rx : Rx}
      {s' : Server} (hrec : s.Receives tick) (hdec : tryDecodePacket c s.rx = .packet payload rx)
      (hmsg : payload.head?.map messageOf = some .channelOpen)
      (h : Quiet (handleChannelOpen c { s with rx := rx } (payloadMem payload outside) payload).2
        s') : Effect c tick s (.packet outside signer) s'
  /-- The window is adjusted. -/
  | adjusting {outside : Memory} {signer : SignerReply} {payload : List UInt8} {rx : Rx}
      {s' : Server} (hrec : s.Receives tick) (hdec : tryDecodePacket c s.rx = .packet payload rx)
      (hmsg : payload.head?.map messageOf = some .windowAdjust)
      (h : Quiet (handleWindowAdjust { s with rx := rx } (payloadMem payload outside) payload).2
        s') : Effect c tick s (.packet outside signer) s'
  /-- The shell is not looked at. -/
  | skip {blocked : Bool} {reads : List (List UInt8)} {alive : Bool}
      (h : s.link.closing = true ∨ s.startResult ≠ 0) : Effect c tick s (.shell blocked reads alive) s
  /-- The shell writes. -/
  | output {blocked : Bool} {reads : List (List UInt8)} {alive : Bool} {s' : Server}
      (hopen : s.link.closing = false) (hresult : s.startResult = 0)
      (h : Quiet (pumpTtyToChannel c tick s blocked reads) s') :
      Effect c tick s (.shell blocked reads alive) s'

theorem closeAndStop_quiet (s : Server) (reason : String) :
    Quiet s { queueClose s reason with looping := false } :=
  (quiet_queueClose s reason).trans (Quiet.of_eq rfl rfl rfl rfl rfl)

/-- A packet that is read is handled by one of the cases. -/
theorem effect_of_handlePayload {rx : Rx} (hrec : s.Receives tick)
    (hdec : tryDecodePacket c s.rx = .packet payload rx)
    (h : Quiet (handlePayload c cfg tick signer { s with rx := rx } (payloadMem payload outside)
      payload).2 s') : Effect c tick s (.packet outside signer) s' := by
  by_cases hopen : payload.head?.map messageOf = some .channelOpen
  · refine .opening hrec hdec hopen ?_
    cases payload with
    | nil => cases hopen
    | cons number rest =>
      simpa only [handlePayload, some.inj hopen] using h
  by_cases hadjust : payload.head?.map messageOf = some .windowAdjust
  · refine .adjusting hrec hdec hadjust ?_
    cases payload with
    | nil => cases hadjust
    | cons number rest =>
      simpa only [handlePayload, some.inj hadjust] using h
  · obtain ⟨s₁, hkeys, hquiet⟩ := quiet_handlePayload (s := { s with rx := rx }) cfg tick
      signer (payloadMem payload outside) hrec.2.1 hopen hadjust
    exact .message hrec hdec hopen hadjust hkeys (hquiet.trans h)

theorem effect_of_pollPacket (h : pollPacket c cfg tick s outside signer = some s') :
    Effect c tick s (.packet outside signer) s' := by
  unfold pollPacket at h
  split at h
  · rename_i hrec
    cases hdec : tryDecodePacket c s.rx with
    | wild =>
      rw [hdec] at h
      cases h
    | wait =>
      rw [hdec] at h
      rw [← some.inj h]
      exact .idle (fun _ => hdec) (Quiet.of_eq rfl rfl rfl rfl rfl)
    | invalid rx =>
      rw [hdec] at h
      rw [← some.inj h]
      exact .invalid hrec hdec (closeAndStop_quiet _ _)
    | packet payload rx =>
      rw [hdec] at h
      simp only at h
      split at h
      · rw [← some.inj h]
        exact effect_of_handlePayload hrec hdec (closeAndStop_quiet _ _)
      · rw [← some.inj h]
        exact effect_of_handlePayload hrec hdec (Quiet.refl _)
  · rename_i hrec
    rw [← some.inj h]
    exact .idle (fun h => absurd h hrec) (Quiet.of_eq rfl rfl rfl rfl rfl)

theorem effect_of_pollStep {phase : PollPhase}
    (hin : s.link.inUse = true) (h : pollStep c cfg tick s phase = some s') :
    Effect c tick s phase s' := by
  have hbytes (phase : PollPhase) (hphase : phase.isPlain = true) {s' : Server} (hfed : Fed s s') :
      Effect c tick s phase s' := by
    obtain ⟨buf, hquiet⟩ := hfed
    exact .bytes buf hphase hquiet
  have hquiet (phase : PollPhase) (hphase : phase.isPlain = true) {s' : Server} (h : Quiet s s') :
      Effect c tick s phase s' := hbytes phase hphase ⟨s.rx.buf, h⟩
  have hcalm (phase : PollPhase) (hphase : phase.isPlain = true) {s' : Server}
      (h : Calm c cfg (fun _ _ _ _ => True) Fed s s') : Effect c tick s phase s' :=
    hbytes phase hphase h.fed
  cases phase with
  | packet outside signer => exact effect_of_pollPacket h
  | begin socketClosed =>
    rw [← some.inj h]
    unfold beginPoll releaseConnection
    split
    · exact .release _
    · split
      · exact hquiet _ rfl (quiet_queueClose s _)
      · exact hquiet _ rfl (Quiet.refl s)
  | finish blocked =>
    rw [← some.inj h]
    unfold finishPoll releaseConnection
    split
    · exact .release _
    · exact hquiet _ rfl (Quiet.refl s)
  | sendBanner blocked sent =>
    rw [← some.inj h]
    exact hcalm _ rfl (calm_sendBanner tick blocked sent).feeds
  | pumpBanner chunk =>
    rw [← some.inj h]
    exact hcalm _ rfl (calm_pumpBanner tick chunk)
  | pumpRx chunk =>
    rw [← some.inj h]
    exact hcalm _ rfl (calm_pumpRx tick chunk)
  | authPending =>
    rw [← some.inj h]
    exact hquiet _ rfl (quiet_pollAuthPending tick)
  | startShell tty pid =>
    rw [← some.inj h]
    exact hcalm _ rfl (calm_pollStartShell tick tty pid).feeds
  | flush blocked sent =>
    rw [← some.inj h]
    exact hquiet _ rfl (quiet_flushOutbox blocked sent)
  | shell blocked reads alive =>
    rw [← some.inj h]
    unfold pollTty
    split
    · rename_i hskip
      exact .skip hskip
    · rename_i hstop
      simp only [not_or, Bool.not_eq_true, Decidable.not_not] at hstop
      have hshell (s : Server) : Calm c cfg (fun _ _ _ _ => True) Quiet s (pollShell c s alive) :=
        calm_pollShell alive
      exact .output hstop.1 hstop.2 (hshell _).quiet

end Quiet

end Sodex.Ssh
