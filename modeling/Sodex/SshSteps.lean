import Sodex.SshPoll
import Mathlib.Logic.Relation

/-!
# What a phase of the SSH server can do

Every phase is a chain of small effects, and the list of effects is short: a packet is
queued, fields of the link or the channel change, bytes come in or a packet is taken out,
a message changes the state of the key exchange or of the authentication, the outbox is
flushed, the connection starts or ends. An invariant has to be looked at for each effect
once. The messages that matter for the order of the protocol carry a condition `P` on the
state in which they are handled.
-/
namespace Sodex.Ssh

open CInt CtrMode Runs Relation

/-- A condition on a message that is about to be handled. -/
abbrev Guard := UInt32 → Server → Memory → List UInt8 → Prop

/-- Changes of the link that neither start nor end the connection. -/
structure LinkStep (l l' : Link) : Prop where
  inUse : l'.inUse = l.inUse
  closing : l.closing = true → l'.closing = true

/-- Changes of the key exchange before its end. -/
structure KexStep (k k' : Kex) : Prop where
  kexinitReceived : k.kexinitReceived = true → k'.kexinitReceived = true
  newkeysSent : k'.newkeysSent = k.newkeysSent
  newkeysReceived : k'.newkeysReceived = k.newkeysReceived
  derived : k'.derived = k.derived

/-- A shell runs on the channel, or is about to. -/
def Channel.HasShell (ch : Channel) : Prop :=
  ch.shellStartPending = true ∨ ch.tty = true ∨ 0 < ch.shellPid

/-- Changes of the channel: it is opened only after authentication, and gets a shell only
when open. -/
structure ChannelStep (s : Server) (ch : Channel) : Prop where
  opened : ch.opened = true → s.channel.opened = true ∨ s.auth.done = true
  stays : s.channel.opened = true → ch.opened = true
  shell : ch.HasShell → s.channel.HasShell ∨ s.channel.opened = true

/-- A key exchange with a public value of the client is under way, from a state that met the
condition. -/
def Exchanging (P : Guard) (s : Server) : Prop :=
  ∃ tick s₀ mem payload, P tick s₀ mem payload ∧
    payload.head?.map messageOf = some .kexEcdhInit ∧ clientPublic mem payload ≠ none ∧
    s₀.kex.newkeysSent = s.kex.newkeysSent

/-- The last derived keys are in place. What is sent in clear does not touch them. -/
structure Keyed (s : Server) (keys : Keys) : Prop where
  last : s.kex.derived.getLast? = some keys
  rx : s.rx.cipher = keys.rx ∧ s.rx.macKey = keys.rxMac
  tx : s.out.txEncrypted = false → s.out.txCipher = keys.tx ∧ s.out.txMacKey = keys.txMac

def announceNewkeys (c : Crypto) (s : Server) : ℤ × Server :=
  let queued := queuePayload c s [21] true
  if queued.1 < 0 then (-1, queued.2)
  else (0, { queued.2 with kex := { queued.2.kex with newkeysSent := true } })

/-- The state after the evaluation of a request. -/
def evaluated (tick : UInt32) (s : Server) (accepted : Bool) (username service : List UInt8) :
    Server :=
  let s := { s with auth := { s.auth with
    identitySet := true
    username := username
    service := service
    attempts := s.auth.attempts + 1
    overlapped := s.auth.overlapped || s.auth.pendingFailure || s.auth.pendingClose } }
  if accepted then
    { s with auth := { s.auth with
      done := true, pendingFailure := false, pendingClose := false, delayUntilTick := 0
      via := some ⟨s.rx.encrypted, s.rx.cipher.key, s.rx.macKey⟩ } }
  else handleAuthFailure tick s

section Flushes

variable {c : Crypto} {s : Server} {I : Server → Prop}
  (hlink : ∀ s link, LinkStep s.link link → I s → I { s with link := link })
include hlink

theorem queueClose_preserves (h : I s) (reason : String) : I (queueClose s reason) := by
  unfold queueClose
  split
  · exact h
  · exact hlink s _ ⟨rfl, fun _ => rfl⟩ h

/-- The outbox loses its first packet, or the connection is closed. -/
theorem flushOutbox_preserves (h : I s) (hpop : ∀ packet rest n, s.out.outbox = packet :: rest →
      I { s with out := { s.out with
        txEncrypted := s.out.txEncrypted || packet.activateTxCrypto
        outbox := rest
        wire := s.out.wire ++ packet.data.take n
        truncated := s.out.truncated || n < packet.data.length } })
    (blocked : Bool) (sent : Option ℕ) : I (flushOutbox s blocked sent) := by
  unfold flushOutbox
  split
  · exact h
  next packet rest houtbox =>
    split
    · exact h
    · split
      · exact queueClose_preserves hlink h _
      · exact hpop packet rest _ houtbox

variable
  (hauth : ∀ s auth, auth.done = s.auth.done → auth.via = s.auth.via → I s →
    I { s with auth := auth })
  (hsend : ∀ s payload, payload.head? = some 51 → I s → I (queuePayload c s payload false).2)
include hauth hsend

theorem flushAuthPending_preserves (h : I s) (tick : UInt32) : I (flushAuthPending c tick s).2 := by
  unfold flushAuthPending
  split
  · exact h
  split
  · exact h
  split
  · refine queueClose_preserves hlink ?_ _
    exact hauth s _ rfl rfl h
  split
  · have hqueued : I (queueUserauthFailure c { s with auth := { s.auth with
        delayUntilTick := 0, pendingFailure := false } }).2 := by
      unfold queueUserauthFailure queueWriter
      split
      · exact hauth s _ rfl rfl h
      next payload hres =>
        have hopens := ((Writer.opens_putByte 64 51).putCstring "password").putBool false
        exact hsend _ payload (hopens.result hres) (hauth s _ rfl rfl h)
    dsimp only
    split
    · exact hauth _ _ rfl rfl hqueued
    · exact hqueued
  · exact hauth s _ rfl rfl h

/-- An answer that was held back is flushed, and the connection is closed if that fails. -/
theorem authFlush_preserves (h : I s) (tick : UInt32) : I (let flushed := flushAuthPending c tick s
      if flushed.1 < 0 then queueClose flushed.2 "queue_failed" else flushed.2) := by
  have hflush := flushAuthPending_preserves hlink hauth hsend h tick
  dsimp only
  split
  · exact queueClose_preserves hlink hflush _
  · exact hflush

end Flushes
section Micro

variable (c : Crypto) (cfg : Config) (P : Guard)

inductive Micro : Server → Server → Prop where
  | send (s : Server) (payload : List UInt8) (h : payload.head? ≠ some 21) :
      Micro s (queuePayload c s payload false).2
  | link (s : Server) (l : Link) (h : LinkStep s.link l) : Micro s { s with link := l }
  | channel (s : Server) (ch : Channel) (h : ChannelStep s ch) : Micro s { s with channel := ch }
  | locals (s : Server) (looping : Bool) (result : ℤ) :
      Micro s { s with looping := looping, startResult := result }
  | receive (s : Server) (rx : Rx) (h : s.rx.SameKeys rx) : Micro s { s with rx := rx }
  | kex (s : Server) (k : Kex) (h : KexStep s.kex k) : Micro s { s with kex := k }
  | cookie (s : Server) : Micro s { s with rng := (s.rng.fill .cookie 16).2 }
  | secret (s : Server) (h : Exchanging P s) :
      Micro s { s with rng := ((s.rng.reset cfg.rngSeed).fill .secret 32).2 }
  | derive (s : Server) (keys : Keys) (h : Exchanging P s) : Micro s (deriveKeyMaterial s keys)
  | announce (s : Server) (keys : Keys) (h : Exchanging P s) (hkeys : Keyed s keys) :
      Micro s (announceNewkeys c s).2
  | newkeys (s : Server) (tick : UInt32) (mem : Memory) (payload : List UInt8)
      (hmsg : payload.head?.map messageOf = some .newkeys) (hP : P tick s mem payload) :
      Micro s (handleNewkeys s)
  | service (s : Server) : Micro s { s with auth := { s.auth with serviceReady := true } }
  | userauth (s : Server) (tick : UInt32) (mem : Memory) (payload : List UInt8) (accepted : Bool)
      (username service : List UInt8) (hmsg : payload.head?.map messageOf = some .userauthRequest)
      (hP : P tick s mem payload) (hopen : s.link.closing = false) (hready : ¬s.auth.Busy tick) :
      Micro s (evaluated tick s accepted username service)
  | authFlush (s : Server) (tick : UInt32) (hopen : s.link.closing = false) :
      Micro s (let flushed := flushAuthPending c tick s
        if flushed.1 < 0 then queueClose flushed.2 "queue_failed" else flushed.2)
  | flush (s : Server) (blocked : Bool) (sent : Option ℕ) : Micro s (flushOutbox s blocked sent)
  | release (s : Server) : Micro s (resetConnection s)

def Chain : Server → Server → Prop := ReflTransGen (Micro c cfg P)

/-- A chain of effects that all keep a relation between the states before and after. -/
def Calm (Q : Server → Server → Prop) : Server → Server → Prop :=
  ReflTransGen fun s s' => Micro c cfg P s s' ∧ Q s s'

end Micro

/-- The fields of the channel that the flow of its data depends on. -/
structure Flow where
  opened : Bool
  localId : UInt32
  peerId : UInt32
  peerWindow : UInt32
  peerMaxPacket : UInt32
  txPrevCr : Bool
  deriving DecidableEq

def Channel.flow (ch : Channel) : Flow :=
  ⟨ch.opened, ch.localId, ch.peerId, ch.peerWindow, ch.peerMaxPacket, ch.txPrevCr⟩

/-- Neither channel data nor a message with a window. -/
def IsPlain (payload : List UInt8) : Prop := payload.head? ∉ [some 91, some 93, some 94]

instance (payload : List UInt8) : Decidable (IsPlain payload) :=
  inferInstanceAs (Decidable (¬_))

/-- The receiving side, the derived keys and the flow are the same, and only plain messages were
queued. -/
structure Quiet (s s' : Server) : Prop where
  inUse : s'.link.inUse = s.link.inUse
  rx : s'.rx = s.rx
  derived : s'.kex.derived = s.kex.derived
  flow : s'.channel.flow = s.channel.flow
  sent : ∃ new, s'.out.accepted = s.out.accepted ++ new ∧ ∀ payload ∈ new, IsPlain payload

section Quiet

variable {c : Crypto} {s s' s'' : Server}

theorem Quiet.of_eq (hin : s'.link.inUse = s.link.inUse) (hrx : s'.rx = s.rx)
    (hderived : s'.kex.derived = s.kex.derived) (hflow : s'.channel.flow = s.channel.flow)
    (hout : s'.out.accepted = s.out.accepted) : Quiet s s' :=
  ⟨hin, hrx, hderived, hflow, [], by rw [hout, List.append_nil], by simp⟩

theorem Quiet.refl (s : Server) : Quiet s s := Quiet.of_eq rfl rfl rfl rfl rfl

theorem Quiet.trans (h : Quiet s s') (h' : Quiet s' s'') : Quiet s s'' := by
  obtain ⟨new, hnew, hplain⟩ := h.sent
  obtain ⟨new', hnew', hplain'⟩ := h'.sent
  refine ⟨h'.inUse.trans h.inUse, h'.rx.trans h.rx, h'.derived.trans h.derived,
    h'.flow.trans h.flow, new ++ new', ?_, ?_⟩
  · rw [hnew', hnew, List.append_assoc]
  · intro payload hmem
    exact (List.mem_append.mp hmem).elim (hplain payload) (hplain' payload)

theorem queuePayload_accepted (c : Crypto) (s : Server) (payload : List UInt8) (activate : Bool) :
    (queuePayload c s payload activate).2.out.accepted = s.out.accepted ∨
      (queuePayload c s payload activate).2.out.accepted = s.out.accepted ++ [payload] := by
  unfold queuePayload
  split
  · exact .inl rfl
  · have hseal (plain : List UInt8) : (sealPacket c s.out plain).2.accepted = s.out.accepted := by
      unfold sealPacket
      split <;> rfl
    have hpush (out : Out) (data : List UInt8) :
        (outboxPush out data activate payload).2.accepted = out.accepted ∨
          (outboxPush out data activate payload).2.accepted = out.accepted ++ [payload] := by
      unfold outboxPush
      split
      · exact .inl rfl
      · split
        · exact .inl rfl
        · exact .inr rfl
    rcases hpush _ _ with h | h
    · exact .inl (h.trans (hseal _))
    · exact .inr (h.trans (congrArg (· ++ [payload]) (hseal _)))

theorem quiet_queuePayload {payload : List UInt8} (h : IsPlain payload) (activate : Bool) :
    Quiet s (queuePayload c s payload activate).2 := by
  have haccepted := queuePayload_accepted c s payload activate
  obtain ⟨rng, out, heq, -⟩ := queuePayload_frame c s payload activate
  rw [heq] at haccepted ⊢
  rcases haccepted with hsame | hnew
  · exact Quiet.of_eq rfl rfl rfl rfl hsame
  · exact ⟨rfl, rfl, rfl, rfl, [payload], hnew, by simpa using h⟩

/-- Bytes of the client go to the receive buffer. -/
def Server.withBuf (s : Server) (buf : List UInt8) : Server :=
  { s with rx := { s.rx with buf := buf } }

/-- Quiet, but for bytes that come in. -/
def Fed (s s' : Server) : Prop := ∃ buf, Quiet (s.withBuf buf) s'

theorem Fed.trans (h : Fed s s') (h' : Fed s' s'') : Fed s s'' := by
  obtain ⟨before, hquiet⟩ := h
  obtain ⟨buf, hquiet'⟩ := h'
  have hsame : Quiet (s.withBuf buf) (s'.withBuf buf) :=
    ⟨hquiet.inUse, by rw [Server.withBuf, hquiet.rx]; rfl, hquiet.derived, hquiet.flow, hquiet.sent⟩
  exact ⟨buf, hsame.trans hquiet'⟩

end Quiet

section Chains

variable {c : Crypto} {cfg : Config} {P : Guard} {s s' s'' : Server} (tick : UInt32)
  {payload : List UInt8} {signer : SignerReply} {Q : Server → Server → Prop} {I : Server → Prop}
  (chunk : List UInt8) (blocked : Bool) (reads : List (List UInt8)) (success : Bool)
  {ch : Channel} (alive : Bool) {w : Writer} (tty : Bool) {b : UInt8}

theorem Chain.refl (s : Server) : Chain c cfg P s s := ReflTransGen.refl

theorem Chain.trans (h : Chain c cfg P s s') (h' : Chain c cfg P s' s'') :
    Chain c cfg P s s'' := ReflTransGen.trans h h'

theorem Micro.chain (h : Micro c cfg P s s') : Chain c cfg P s s' := ReflTransGen.single h

theorem Chain.preserves (hmicro : ∀ s s', Micro c cfg P s s' → I s → I s')
    (h : Chain c cfg P s s') (hs : I s) : I s' := by
  induction h with
  | refl => exact hs
  | tail _ hstep ih => exact hmicro _ _ hstep ih

theorem chain_receive {rx : Rx} (h : s.rx.SameKeys rx) : Chain c cfg P s { s with rx := rx } :=
  (Micro.receive s rx h).chain

theorem chain_send (h : payload.head? ≠ some 21) :
    Chain c cfg P s (queuePayload c s payload false).2 :=
  (Micro.send s payload h).chain

theorem Calm.refl (s : Server) : Calm c cfg P Q s s := ReflTransGen.refl

theorem Calm.trans (h : Calm c cfg P Q s s')
    (h' : Calm c cfg P Q s' s'') : Calm c cfg P Q s s'' := ReflTransGen.trans h h'

theorem Micro.calm (h : Micro c cfg P s s') (hquiet : Quiet s s') : Calm c cfg P Quiet s s' :=
  ReflTransGen.single ⟨h, hquiet⟩

theorem Calm.chain (h : Calm c cfg P Q s s') : Chain c cfg P s s' := by
  induction h with
  | refl => exact Chain.refl s
  | tail _ hstep ih => exact ih.trans hstep.1.chain

theorem Calm.quiet (h : Calm c cfg P Quiet s s') : Quiet s s' := by
  induction h with
  | refl => exact Quiet.refl s
  | tail _ hstep ih => exact ih.trans hstep.2

theorem Calm.feeds (h : Calm c cfg P Quiet s s') : Calm c cfg P Fed s s' := by
  induction h with
  | refl => exact Calm.refl s
  | @tail s₁ _ _ hstep ih => exact ih.tail ⟨hstep.1, s₁.rx.buf, hstep.2⟩

theorem Calm.fed (h : Calm c cfg P Fed s s') : Fed s s' := by
  induction h with
  | refl => exact ⟨s.rx.buf, Quiet.refl s⟩
  | tail _ hstep ih => exact ih.trans hstep.2

theorem calm_link {l : Link} (h : LinkStep s.link l) : Calm c cfg P Quiet s { s with link := l } :=
  (Micro.link s l h).calm (.of_eq h.inUse rfl rfl rfl rfl)

theorem calm_kex {k : Kex} (h : KexStep s.kex k) : Calm c cfg P Quiet s { s with kex := k } :=
  (Micro.kex s k h).calm (.of_eq rfl rfl h.derived rfl rfl)

theorem calm_locals (looping : Bool) (result : ℤ) :
    Calm c cfg P Quiet s { s with looping := looping, startResult := result } :=
  (Micro.locals s looping result).calm (.of_eq rfl rfl rfl rfl rfl)

theorem calm_send (h : payload.head? ≠ some 21) (hplain : IsPlain payload) :
    Calm c cfg P Quiet s (queuePayload c s payload false).2 :=
  (Micro.send s payload h).calm (quiet_queuePayload hplain false)

theorem calm_queueWriter (hw : w.Opens b) (hb : some b ∉ [some 21, some 91, some 93, some 94]) :
    Calm c cfg P Quiet s (queueWriter c s w).2 := by
  obtain ⟨hnewkeys, hplain⟩ := not_or.mp (mt List.mem_cons.mpr hb)
  unfold queueWriter
  cases hres : w.result with
  | none => exact Calm.refl s
  | some payload =>
    refine calm_send ?_ ?_
    · rwa [hw.result hres]
    · rwa [IsPlain, hw.result hres]

theorem chain_queueWriter (hw : w.Opens b) (hb : b ≠ 21) :
    Chain c cfg P s (queueWriter c s w).2 := by
  unfold queueWriter
  cases hres : w.result with
  | none => exact Chain.refl s
  | some payload =>
    refine chain_send ?_
    rw [hw.result hres]
    simpa using hb

theorem calm_queueClose (reason : String) : Calm c cfg P Quiet s (queueClose s reason) := by
  unfold queueClose
  split
  · exact Calm.refl s
  · exact calm_link ⟨rfl, fun _ => rfl⟩

/-- A result of -1 closes the connection. -/
theorem calm_close_if (out : ℤ × Server) (reason : String) (h : Calm c cfg P Fed s out.2) :
    Calm c cfg P Fed s (if out.1 < 0 then queueClose out.2 reason else out.2) := by
  split
  · exact h.trans (calm_queueClose reason).feeds
  · exact h

theorem calm_handleServiceRequest (mem : Memory) (payload : List UInt8) :
    Calm c cfg P Quiet s (handleServiceRequest c s mem payload).2 := by
  unfold handleServiceRequest
  cases authParseServiceRequest mem payload with
  | none => exact Calm.refl s
  | some name =>
    simp only
    split
    · refine ((Micro.service s).calm (.of_eq rfl rfl rfl rfl rfl)).trans ?_
      exact calm_queueWriter ((Writer.opens_putByte 64 6).putString _) (by decide)
    · split
      · exact calm_queueWriter ((Writer.opens_putByte 64 6).putString _) (by decide)
      · exact Calm.refl s

/-- The evaluation of a request: the new state, and the message of a success. -/
theorem calm_evaluateRequest {tick : UInt32} {mem : Memory}
    {request : AuthRequest} {username service : List UInt8}
    (hmsg : payload.head?.map messageOf = some .userauthRequest) (hP : P tick s mem payload)
    (hopen : s.link.closing = false) (hready : ¬s.auth.Busy tick) :
    Calm c cfg P Quiet s (evaluateRequest c cfg tick { s with auth := { s.auth with
      identitySet := true, username := username, service := service } } mem request).2 := by
  unfold evaluateRequest
  split
  · refine Calm.trans ?_ (calm_send (by decide) (by decide))
    exact (Micro.userauth s tick mem payload true (cstr request.username) service hmsg hP hopen
      hready).calm (.of_eq rfl rfl rfl rfl rfl)
  · exact (Micro.userauth s tick mem payload false username service hmsg hP hopen hready).calm
      (.of_eq rfl rfl rfl rfl rfl)

theorem calm_handleUserauthRequest {tick : UInt32} {mem : Memory}
    (hmsg : payload.head?.map messageOf = some .userauthRequest) (hP : P tick s mem payload)
    (hopen : s.link.closing = false) :
    Calm c cfg P Quiet s (handleUserauthRequest c cfg tick s mem payload).2 := by
  unfold handleUserauthRequest
  split
  · exact Calm.refl s
  split
  · exact Calm.refl s
  rename_i hready
  cases (authParseRequest mem payload.length).1 with
  | none => exact Calm.refl s
  | some request =>
    simp only
    split
    · exact calm_evaluateRequest hmsg hP hopen hready
    · rename_i hset
      split
      · have hidentity : s.auth = { s.auth with
            identitySet := true, username := s.auth.username, service := s.auth.service } := by
          have htrue : s.auth.identitySet = true := by simpa using hset
          rw [← htrue]
        have hchain : Calm c cfg P Quiet s (evaluateRequest c cfg tick { s with auth := { s.auth with
            identitySet := true, username := s.auth.username, service := s.auth.service } }
            mem request).2 := calm_evaluateRequest hmsg hP hopen hready
        rw [← hidentity] at hchain
        exact hchain
      · exact calm_queueClose _

theorem calm_parseClientKexinit (mem : Memory) (payload : List UInt8) :
    Calm c cfg P Quiet s (parseClientKexinit s mem payload).2 := by
  unfold parseClientKexinit
  split
  · exact Calm.refl s
  · simp only
    split
    · exact calm_kex ⟨id, rfl, rfl, rfl⟩
    · split
      · exact calm_kex ⟨id, rfl, rfl, rfl⟩
      · exact calm_kex ⟨fun _ => rfl, rfl, rfl, rfl⟩

/-- The end of a key exchange: keys, reply, NEWKEYS. -/
theorem chain_finishExchange {shared reply : List UInt8} (h : Exchanging P s)
    (hreply : reply.head? ≠ some 21) :
    Chain c cfg P s (finishExchange c s shared reply).2 := by
  unfold finishExchange
  simp only
  generalize deriveKeys c shared s.kex.exchangeHash (s.kex.sessionId.getD []) = keys
  have hderive : Chain c cfg P s (deriveKeyMaterial s keys) := (Micro.derive s keys h).chain
  have hqueue : Chain c cfg P s (queuePayload c (deriveKeyMaterial s keys) reply false).2 :=
    hderive.trans (chain_send hreply)
  obtain ⟨rng, out, heq, henc, hclear⟩ :=
    queuePayload_frame c (deriveKeyMaterial s keys) reply false
  generalize queuePayload c (deriveKeyMaterial s keys) reply false = replied at hqueue heq
  split
  · exact hqueue
  · refine hqueue.trans ?_
    have hkeyed : Keyed replied.2 keys := by
      rw [heq]
      exact ⟨by simp [deriveKeyMaterial], ⟨rfl, rfl⟩, fun h => hclear (henc.symm.trans h)⟩
    have hexchange : Exchanging P replied.2 := by
      rw [heq]
      exact h
    have hannounce : Chain c cfg P replied.2 (announceNewkeys c replied.2).2 :=
      (Micro.announce replied.2 keys hexchange hkeyed).chain
    exact hannounce

theorem chain_handleKexInit {tick : UInt32} {mem : Memory}
    (hmsg : payload.head?.map messageOf = some .kexEcdhInit)
    (hP : P tick s mem payload) :
    Chain c cfg P s (handleKexInit c cfg signer s mem payload).2 := by
  rcases handleKexInit_cases c cfg signer s mem payload with
    ⟨-, heq⟩ | ⟨hpublic, hash, sid, hend⟩
  · rw [heq]
    exact Chain.refl s
  · have hexchange : Exchanging P s := ⟨tick, s, mem, payload, hP, hmsg, hpublic, rfl⟩
    have hdraw : Chain c cfg P s (drawSecret cfg s hash sid) := by
      refine (Micro.secret s hexchange).chain.trans ?_
      refine Micro.chain (Micro.kex _ _ ?_)
      exact ⟨id, rfl, rfl, rfl⟩
    rcases hend with heq | ⟨shared, reply, hreply, heq⟩
    · rw [heq]
      exact hdraw
    · rw [heq]
      exact hdraw.trans (chain_finishExchange hexchange (by rw [hreply]; decide))

/-- A change of the channel that neither opens it nor gives it a shell. -/
theorem chain_channel (hopened : ch.opened = s.channel.opened)
    (hshell : ch.HasShell → s.channel.HasShell) : Chain c cfg P s { s with channel := ch } :=
  (Micro.channel s ch ⟨fun h => .inl (hopened.symm.trans h), fun h => hopened.trans h,
    fun h => .inl (hshell h)⟩).chain

/-- A change that leaves the flow of data alone, too. -/
theorem calm_channel (hflow : ch.flow = s.channel.flow)
    (hshell : ch.HasShell → s.channel.HasShell) : Calm c cfg P Quiet s { s with channel := ch } := by
  have hopened : ch.opened = s.channel.opened := congrArg Flow.opened hflow
  exact (Micro.channel s ch ⟨fun h => .inl (hopened.symm.trans h), fun h => hopened.trans h,
    fun h => .inl (hshell h)⟩).calm (.of_eq rfl rfl rfl hflow rfl)

theorem opens_channelMessage (s : Server) (cap : ℕ) (number : UInt8) :
    (channelMessage s cap number).Opens number :=
  (Writer.opens_putByte cap number).putU32 _

theorem calm_queueChannelStatus : Calm c cfg P Quiet s (queueChannelStatus c s success).2 :=
  calm_queueWriter (opens_channelMessage s 8 _) (by cases success <;> decide)

theorem chain_handleChannelOpen (mem : Memory) (payload : List UInt8) :
    Chain c cfg P s (handleChannelOpen c s mem payload).2 := by
  unfold handleChannelOpen
  split
  · exact Chain.refl s
  rename_i hdone
  cases (channelParseOpen mem payload.length).1 with
  | none => exact Chain.refl s
  | some request =>
    simp only
    split
    · exact chain_queueWriter (((((Writer.opens_putByte 128 92).putU32 _).putU32 1).putCstring
        _).putCstring _) (by decide)
    · refine (Micro.channel s _ ?_).chain.trans (chain_queueWriter
        ((((opens_channelMessage _ 32 91).putU32 _).putU32 _).putU32 _) (by decide))
      exact ⟨fun _ => .inr (by simpa using hdone), fun _ => rfl, fun h => .inl h⟩

theorem spawnShell_flow (ch : Channel) : (spawnShell tick ch).flow = ch.flow := by
  unfold spawnShell
  split
  · rfl
  · split <;> rfl

theorem calm_handleChannelRequest (mem : Memory) (payload : List UInt8) :
    Calm c cfg P Quiet s (handleChannelRequest c tick s mem payload).2 := by
  unfold handleChannelRequest
  cases (channelParseRequest mem payload.length).1 with
  | none => exact Calm.refl s
  | some request =>
    have hreply (s : Server) (success : Bool) : Calm c cfg P Quiet s
        (if request.wantReply then queueChannelStatus c s success else (0, s)).2 := by
      split
      · exact calm_queueChannelStatus success
      · exact Calm.refl s
    simp only
    split
    · exact Calm.refl s
    · rename_i hopen
      cases request.kind with
      | pty | windowChange =>
        refine Calm.trans ?_ (hreply _ true)
        exact calm_channel rfl id
      | shell =>
        have hopened : s.channel.opened = true := by
          by_contra hclosed
          exact hopen (Or.inl (by simpa using hclosed))
        have hstep : ChannelStep s { spawnShell tick s.channel with
            shellReplyPending := request.wantReply } :=
          ⟨fun _ => Or.inl hopened,
            fun h => (congrArg Flow.opened (spawnShell_flow tick s.channel)).trans h,
            fun _ => Or.inr hopened⟩
        exact (Micro.channel s _ hstep).calm (.of_eq rfl rfl rfl (spawnShell_flow tick s.channel) rfl)
      | unknown => exact hreply s false

theorem calm_activity :
    Calm c cfg P Quiet s { s with link := { s.link with lastActivityTick := tick } } :=
  calm_link ⟨rfl, id⟩

theorem calm_handleChannelData (mem : Memory) (payload : List UInt8) :
    Calm c cfg P Quiet s (handleChannelData tick s mem payload).2 := by
  unfold handleChannelData
  cases (channelParseData mem payload.length).1 with
  | none => exact Calm.refl s
  | some request =>
    simp only
    split
    · exact Calm.refl s
    · split
      · exact Calm.refl s
      · exact calm_activity tick

theorem calm_handleGlobalRequest (mem : Memory) (payload : List UInt8) :
    Calm c cfg P Quiet s (handleGlobalRequest c s mem payload).2 := by
  unfold handleGlobalRequest
  simp only
  split
  · exact calm_send (by decide) (by decide)
  · exact Calm.refl s

theorem chain_handleWindowAdjust (mem : Memory) (payload : List UInt8) :
    Chain c cfg P s (handleWindowAdjust s mem payload).2 := by
  unfold handleWindowAdjust
  simp only
  split
  · exact Chain.refl s
  · exact chain_channel rfl id

theorem calm_queueChannelClose : Calm c cfg P Quiet s (queueChannelClose c s).2 := by
  unfold queueChannelClose
  split
  · exact Calm.refl s
  · refine Calm.trans ?_ (calm_queueWriter (opens_channelMessage _ 8 97) (by decide))
    exact calm_channel rfl id

theorem calm_queueChannelEof : Calm c cfg P Quiet s (queueChannelEof c s).2 := by
  unfold queueChannelEof
  split
  · exact Calm.refl s
  · refine Calm.trans ?_ (calm_queueWriter (opens_channelMessage _ 8 96) (by decide))
    exact calm_channel rfl id

theorem calm_queueExitStatus (status : UInt32) : Calm c cfg P Quiet s (queueExitStatus c s status).2 := by
  unfold queueExitStatus
  split
  · exact Calm.refl s
  · refine Calm.trans ?_ (calm_queueWriter
      ((((opens_channelMessage _ 64 98).putCstring _).putBool _).putU32 _) (by decide))
    exact calm_channel rfl id

theorem calm_handleChannelClose : Calm c cfg P Quiet s (handleChannelClose c s).2 := by
  have hclosed : Calm c cfg P Quiet s
      (queueChannelClose c { s with channel := { s.channel with peerClose := true } }).2 := by
    refine Calm.trans ?_ calm_queueChannelClose
    exact calm_channel rfl id
  unfold handleChannelClose
  simp only
  split
  · exact hclosed
  · exact hclosed.trans (calm_queueClose _)

theorem calm_handlePayload {tick : UInt32} {mem : Memory} {number : UInt8}
    {rest : List UInt8} (hP : P tick s mem (number :: rest)) (hopen : s.link.closing = false)
    (hmsg : messageOf number ∉ [.kexEcdhInit, .newkeys, .channelOpen, .windowAdjust]) :
    Calm c cfg P Quiet s (handlePayload c cfg tick signer s mem (number :: rest)).2 := by
  unfold handlePayload
  simp only
  cases hnumber : messageOf number with
  | disconnect => exact calm_queueClose _
  | ignored | channelEof | other => exact Calm.refl s
  | kexinit => exact calm_parseClientKexinit mem _
  | serviceRequest => exact calm_handleServiceRequest mem _
  | userauthRequest => exact calm_handleUserauthRequest (congrArg some hnumber) hP hopen
  | globalRequest => exact calm_handleGlobalRequest mem _
  | channelData => exact calm_handleChannelData tick mem _
  | channelClose => exact calm_handleChannelClose
  | channelRequest => exact calm_handleChannelRequest tick mem _
  | kexEcdhInit | newkeys | channelOpen | windowAdjust => simp [hnumber] at hmsg

theorem chain_handlePayload {tick : UInt32} {mem : Memory} (hP : P tick s mem payload)
    (hopen : s.link.closing = false) :
    Chain c cfg P s (handlePayload c cfg tick signer s mem payload).2 := by
  cases payload with
  | nil => exact Chain.refl s
  | cons number rest =>
    by_cases hmsg : messageOf number ∈ [.kexEcdhInit, .newkeys, .channelOpen, .windowAdjust]
    · simp only [List.mem_cons, List.not_mem_nil, or_false] at hmsg
      unfold handlePayload
      rcases hmsg with hmsg | hmsg | hmsg | hmsg
      · simp only [hmsg]
        exact chain_handleKexInit (congrArg some hmsg) hP
      · simp only [hmsg]
        exact (Micro.newkeys s tick mem (number :: rest) (congrArg some hmsg) hP).chain
      · simp only [hmsg]
        exact chain_handleChannelOpen mem _
      · simp only [hmsg]
        exact chain_handleWindowAdjust mem _
    · exact (calm_handlePayload hP hopen hmsg).chain

theorem chain_beginPoll (socketClosed : Bool) :
    Chain c cfg P s (beginPoll tick s socketClosed) := by
  unfold beginPoll releaseConnection
  split
  · split
    · exact (Micro.release s).chain
    · exact Chain.refl s
  · split
    · exact (calm_queueClose _).chain
    · exact Chain.refl s

theorem calm_sendBanner (blocked sent : Bool) :
    Calm c cfg P Quiet s (sendBanner tick s blocked sent) := by
  unfold sendBanner
  split
  · exact Calm.refl s
  · split
    · exact calm_link ⟨rfl, id⟩
    · exact calm_queueClose _

theorem calm_appendRx (data : List UInt8) : Calm c cfg P Fed s (appendRx s data).2 := by
  unfold appendRx
  split
  · exact Calm.refl s
  · exact ReflTransGen.single ⟨.receive s _ ⟨rfl, rfl, rfl⟩, s.rx.buf ++ data, Quiet.refl _⟩

theorem calm_queueKexinit : Calm c cfg P Quiet s (queueKexinit c s).2 := by
  unfold queueKexinit
  split
  · exact Calm.refl s
  · rcases buildKexinitPayload_cases s with heq | ⟨payload, hhead, heq⟩
    · simp only [heq, if_pos (by decide : (-1 : ℤ) < 0)]
      exact (Micro.cookie s).calm (.of_eq rfl rfl rfl rfl rfl)
    · simp only [heq, if_neg (Int.lt_irrefl 0)]
      have hbuilt : Calm c cfg P Quiet s { s with
          rng := (s.rng.fill .cookie 16).2, kex := { s.kex with serverKexinit := payload } } := by
        refine ((Micro.cookie s).calm (.of_eq rfl rfl rfl rfl rfl)).trans ?_
        exact calm_kex ⟨id, rfl, rfl, rfl⟩
      have hqueue : Calm c cfg P Quiet s (queuePayload c { s with rng := (s.rng.fill .cookie 16).2, kex :=
          { s.kex with serverKexinit := payload } } payload false).2 :=
        hbuilt.trans (calm_send (by rw [hhead]; decide) (by rw [IsPlain, hhead]; decide))
      generalize queuePayload c { s with rng := (s.rng.fill .cookie 16).2, kex := { s.kex with
        serverKexinit := payload } } payload false = queued at hqueue
      split
      · exact hqueue
      · refine hqueue.trans ?_
        exact calm_kex ⟨id, rfl, rfl, rfl⟩

theorem calm_finishBanner (line rest : List UInt8) :
    Calm c cfg P Fed s (finishBanner c s line rest).2 := by
  unfold finishBanner
  simp only
  split
  · refine Calm.feeds ?_
    exact calm_link ⟨rfl, id⟩
  · have hlink : Calm c cfg P Quiet s { s with link := { s.link with
        bannerBuf := stripLine line, bannerReceived := true } } := calm_link ⟨rfl, id⟩
    refine hlink.feeds.trans ?_
    by_cases hrest : rest = []
    · rw [if_pos hrest, if_neg (by simp)]
      exact calm_queueKexinit.feeds
    · rw [if_neg hrest]
      split
      · exact calm_appendRx rest
      · exact (calm_appendRx rest).trans calm_queueKexinit.feeds

theorem calm_bannerLoop : Calm c cfg P Fed s (bannerLoop c s chunk).2 := by
  induction chunk generalizing s with
  | nil => exact Calm.refl s
  | cons b rest ih =>
    unfold bannerLoop
    split
    · exact Calm.refl s
    · split
      · exact calm_finishBanner _ rest
      · refine Calm.trans (Calm.feeds ?_) ih
        exact calm_link ⟨rfl, id⟩

theorem calm_pumpBanner : Calm c cfg P Fed s (pumpBanner c tick s chunk) := by
  unfold pumpBanner
  split
  · exact Calm.refl s
  · exact calm_close_if _ _ ((calm_activity tick).feeds.trans (calm_bannerLoop _))

theorem calm_pumpRx : Calm c cfg P Fed s (pumpRx tick s chunk) := by
  unfold pumpRx
  split
  · exact Calm.refl s
  · simp only
    split
    · exact (calm_appendRx _).trans (calm_queueClose _).feeds
    · exact (calm_appendRx _).trans (calm_activity tick).feeds

theorem chain_pollAuthPending : Chain c cfg P s (pollAuthPending c tick s) := by
  unfold pollAuthPending
  simp only
  split
  · exact (calm_locals true 0).chain
  · rename_i hopen
    refine (calm_locals true 0).chain.trans ?_
    exact (Micro.authFlush _ tick (by simpa using hopen)).chain

theorem calm_shellReply (unasked : ℤ) :
    Calm c cfg P Quiet s (shellReply c s success unasked).2 := by
  unfold shellReply
  split
  · refine Calm.trans ?_ (calm_queueChannelStatus success)
    exact calm_channel rfl id
  · exact Calm.refl s

theorem calm_startPendingShell (pid : ℤ) :
    Calm c cfg P Quiet s (startPendingShell c tick s tty pid).2 := by
  unfold startPendingShell
  simp only
  split
  · exact Calm.refl s
  rename_i hpending
  have hshell : s.channel.HasShell := by
    left
    by_contra hno
    exact hpending (Or.inl (by simpa using hno))
  split
  · exact Calm.refl s
  split
  · refine Calm.trans ?_ (calm_shellReply true 1)
    exact calm_channel rfl fun _ => hshell
  split
  · refine Calm.trans ?_ (calm_shellReply false (-1))
    exact calm_channel rfl fun _ => hshell
  · have hstart : Calm c cfg P Quiet s { s with channel := { s.channel with
        tty := true, shellPid := pid, shellStartPending := false, shellStartTick := 0,
        shellStartedTick := tick, promptKickPending := true } } :=
      calm_channel rfl fun _ => hshell
    split
    · exact hstart.trans (calm_shellReply true 1)
    · exact hstart.trans (calm_shellReply true 1)

theorem calm_pollStartShell (pid : ℤ) : Calm c cfg P Quiet s (pollStartShell c tick s tty pid) := by
  unfold pollStartShell
  split
  · exact Calm.refl s
  · have hstart : Calm c cfg P Quiet s { (startPendingShell c tick s tty pid).2 with
        startResult := (startPendingShell c tick s tty pid).1 } :=
      (calm_startPendingShell tick tty pid).trans (calm_locals _ _)
    simp only
    split
    · exact hstart.trans (calm_queueClose _)
    · exact hstart

theorem chain_sendChunks (fuel : ℕ) (raw : List UInt8) :
    Chain c cfg P s (sendChunks c tick fuel s raw).2 := by
  induction fuel generalizing s raw with
  | zero => exact Chain.refl s
  | succ fuel ih =>
    unfold sendChunks
    split
    · exact Chain.refl s
    · simp only
      generalize translateTtyChunk s.channel.txPrevCr
        (min (channelDataCap s.channel) SSH_TTY_COOKED_CHUNK) raw = out
      have hcr : Chain c cfg P s { s with channel := { s.channel with txPrevCr := out.2.2 } } :=
        chain_channel rfl id
      split
      · exact hcr
      · have hqueued : Chain c cfg P s (queueChannelData c
            { s with channel := { s.channel with txPrevCr := out.2.2 } } out.1).2 :=
          hcr.trans (chain_queueWriter ((opens_channelMessage _ _ 94).putString _) (by decide))
        generalize queueChannelData c
          { s with channel := { s.channel with txPrevCr := out.2.2 } } out.1 = queued at hqueued
        split
        · exact hqueued.trans (calm_queueClose _).chain
        · have hwindow : Chain c cfg P queued.2 { queued.2 with channel := { queued.2.channel with
              peerWindow := queued.2.channel.peerWindow - out.1.length.toUInt32 } } :=
            chain_channel rfl id
          exact ((hqueued.trans hwindow).trans (calm_activity tick).chain).trans (ih _)

theorem chain_pumpLoop (readBytes budget : ℕ) :
    Chain c cfg P s (pumpLoop c tick reads s readBytes budget) := by
  have hidle (s : Server) (n : ℕ) : Chain c cfg P s (idleRead tick s n) := by
    unfold idleRead
    split
    · exact chain_channel rfl id
    · exact Chain.refl s
  induction reads generalizing s readBytes budget with
  | nil =>
    unfold pumpLoop
    split
    · exact Chain.refl s
    · exact hidle s readBytes
  | cons read reads ih =>
    unfold pumpLoop
    simp only
    split
    · exact Chain.refl s
    · split
      · exact hidle s readBytes
      · have hkick : Chain c cfg P s
            { s with channel := { s.channel with promptKickPending := false } } :=
          chain_channel rfl id
        split
        · exact hkick.trans (chain_sendChunks tick _ _)
        · exact (hkick.trans (chain_sendChunks tick _ _)).trans (ih _ _)

theorem chain_pumpTtyToChannel : Chain c cfg P s (pumpTtyToChannel c tick s blocked reads) := by
  unfold pumpTtyToChannel
  split
  · exact Chain.refl s
  split
  · exact Chain.refl s
  split
  · exact Chain.refl s
  split
  · exact Chain.refl s
  · exact chain_pumpLoop tick reads 0 _

theorem calm_pollShell : Calm c cfg P Quiet s (pollShell c s alive) := by
  unfold pollShell
  split
  · exact Calm.refl s
  rename_i hrun
  have hshell : s.channel.HasShell := by
    right; right
    by_contra hno
    exact hrun (Or.inl (not_lt.mp hno))
  have hend : Calm c cfg P Quiet s { s with channel := { s.channel with
      tty := false, shellPid := -1, promptKickPending := false } } :=
    calm_channel rfl fun _ => hshell
  refine Calm.trans ?_ (calm_queueClose _)
  have hstep {s₁ : Server} (b : Bool) (s₂ : Server) (h₁ : Calm c cfg P Quiet s s₁)
      (h₂ : Calm c cfg P Quiet s₁ s₂) : Calm c cfg P Quiet s (if b then s₁ else s₂) := by
    split
    · exact h₁
    · exact h₁.trans h₂
  simp only
  apply hstep
  · apply hstep
    · apply hstep
      · exact hend
      · exact calm_queueExitStatus 0
    · exact calm_queueChannelEof
  · exact calm_queueChannelClose

theorem chain_pollTty : Chain c cfg P s (pollTty c tick s blocked reads alive) := by
  unfold pollTty
  split
  · exact Chain.refl s
  · exact (chain_pumpTtyToChannel tick blocked reads).trans (calm_pollShell alive).chain

theorem chain_finishPoll : Chain c cfg P s (finishPoll s blocked) := by
  unfold finishPoll releaseConnection
  split
  · split
    · exact (Micro.release s).chain
    · exact Chain.refl s
  · exact Chain.refl s

/-- A decoded packet meets a condition, and no decoder copies outside its buffers. -/
def Decode.Meets (Q : List UInt8 → Rx → Prop) : Decode → Prop
  | .packet payload rx => Q payload rx
  | .wild => False
  | .wait | .invalid _ => True

instance (Q : List UInt8 → Rx → Prop) [∀ payload rx, Decidable (Q payload rx)] :
    (d : Decode) → Decidable (d.Meets Q)
  | .packet payload rx => inferInstanceAs (Decidable (Q payload rx))
  | .wild => inferInstanceAs (Decidable False)
  | .wait | .invalid _ => inferInstanceAs (Decidable True)

/-- The packet that a turn of the loop handles meets the condition. -/
def DispatchOk (c : Crypto) (P : Guard) (s : Server) : UInt32 × Phase → Prop
  | (tick, .poll (.packet outside _)) =>
    s.link.inUse = true → s.Receives tick → (tryDecodePacket c s.rx).Meets fun payload rx =>
      P tick { s with rx := rx } (payloadMem payload outside) payload
  | _ => True

instance (c : Crypto) (P : Guard) [∀ tick s mem payload, Decidable (P tick s mem payload)]
    (s : Server) : (input : UInt32 × Phase) → Decidable (DispatchOk c P s input)
  | (_, .poll (.packet _ _)) => inferInstanceAs (Decidable (_ → _ → Decode.Meets _ _))
  | (_, .accept _) | (_, .poll (.begin _)) | (_, .poll (.sendBanner _ _))
  | (_, .poll (.pumpBanner _)) | (_, .poll (.pumpRx _)) | (_, .poll .authPending)
  | (_, .poll (.startShell _ _)) | (_, .poll (.shell _ _ _)) | (_, .poll (.flush _ _))
  | (_, .poll (.finish _)) => inferInstanceAs (Decidable True)

theorem chain_pollPacket {tick : UInt32} {outside : Memory} (hin : s.link.inUse = true)
    (hok : DispatchOk c P s (tick, .poll (.packet outside signer))) :
    ∃ s', pollPacket c cfg tick s outside signer = some s' ∧ Chain c cfg P s s' := by
  have hstop (s : Server) : Chain c cfg P s { s with looping := false } := (calm_locals false _).chain
  unfold pollPacket
  split
  · rename_i hrec
    have hok := hok hin hrec
    have hkeys := tryDecodePacket_sameKeys c s.rx
    cases hdec : tryDecodePacket c s.rx with
    | wild =>
      rw [hdec] at hok
      exact hok.elim
    | wait => exact ⟨_, rfl, hstop s⟩
    | invalid rx =>
      refine ⟨_, rfl, Chain.trans ?_ (hstop _)⟩
      exact (chain_receive (hkeys.1 rx hdec)).trans (calm_queueClose _).chain
    | packet payload rx =>
      rw [hdec] at hok
      have hhandled : Chain c cfg P s (handlePayload c cfg tick signer { s with rx := rx }
          (payloadMem payload outside) payload).2 :=
        (chain_receive (hkeys.2 payload rx hdec)).trans (chain_handlePayload hok hrec.2.1)
      simp only
      split
      · exact ⟨_, rfl, (hhandled.trans (calm_queueClose _).chain).trans (hstop _)⟩
      · exact ⟨_, rfl, hhandled⟩
  · exact ⟨_, rfl, hstop s⟩

theorem chain_phaseStep (phase : PollPhase) (hok : DispatchOk c P s (tick, .poll phase)) :
    ∃ s', phaseStep c cfg s (tick, .poll phase) = some s' ∧ Chain c cfg P s s' := by
  unfold phaseStep
  simp only
  split
  · rename_i hin
    cases phase with
    | begin socketClosed => exact ⟨_, rfl, chain_beginPoll tick socketClosed⟩
    | sendBanner blocked sent => exact ⟨_, rfl, (calm_sendBanner tick blocked sent).chain⟩
    | pumpBanner chunk => exact ⟨_, rfl, (calm_pumpBanner tick chunk).chain⟩
    | pumpRx chunk => exact ⟨_, rfl, (calm_pumpRx tick chunk).chain⟩
    | authPending => exact ⟨_, rfl, chain_pollAuthPending tick⟩
    | packet outside signer => exact chain_pollPacket hin hok
    | startShell tty pid => exact ⟨_, rfl, (calm_pollStartShell tick tty pid).chain⟩
    | shell blocked reads alive => exact ⟨_, rfl, chain_pollTty tick blocked reads alive⟩
    | flush blocked sent => exact ⟨_, rfl, (Micro.flush s blocked sent).chain⟩
    | finish blocked => exact ⟨_, rfl, chain_finishPoll blocked⟩
  · exact ⟨s, rfl, Chain.refl s⟩

/-- An invariant of the effects and of the accept holds at the end of every run whose
messages meet their condition. -/
theorem run_of_micro (hmicro : ∀ s s', Micro c cfg P s s' → I s → I s')
    (haccept : ∀ s tick child, I s → I (acceptPendingConnections cfg tick s child)) (hinit : I s)
    (inputs : List (UInt32 × Phase))
    (hok : Along (phaseStep c cfg) (DispatchOk c P) s inputs) :
    ∃ s', run (phaseStep c cfg) s inputs = some s' ∧ I s' := by
  refine run_invariant (fun s input hs hP => ?_) inputs s hinit hok
  obtain ⟨tick, phase⟩ := input
  cases phase with
  | accept child => exact ⟨_, rfl, haccept s tick child hs⟩
  | poll phase =>
    obtain ⟨s', hs', hchain⟩ := chain_phaseStep tick phase hP
    exact ⟨s', hs', hchain.preserves hmicro hs⟩

/-- An invariant of the effects through a part of a poll. -/
theorem run_polls_of_micro (hmicro : ∀ s s', Micro c cfg P s s' → I s → I s')
    (hinit : I s) (tick : UInt32) (phases : List PollPhase)
    (hok : Along (phaseStep c cfg) (DispatchOk c P) s (phases.map fun p => (tick, .poll p))) :
    ∃ s', run (phaseStep c cfg) s (phases.map fun p => (tick, .poll p)) = some s' ∧ I s' := by
  induction phases generalizing s with
  | nil => exact ⟨s, rfl, hinit⟩
  | cons phase phases ih =>
    obtain ⟨s₁, hs₁, hchain⟩ : ∃ s₁, phaseStep c cfg s (tick, .poll phase) = some s₁ ∧
        Chain c cfg P s s₁ := chain_phaseStep tick phase hok.1
    obtain ⟨s', hs', hI⟩ := ih (hchain.preserves hmicro hinit) (hok.2 s₁ hs₁)
    refine ⟨s', ?_, hI⟩
    rw [List.map_cons, run, hs₁, Option.bind_some, hs']

end Chains

end Sodex.Ssh
