import Sodex.SshSteps

/-!
# Authentication over negotiated keys

The handlers of SERVICE_REQUEST and USERAUTH_REQUEST do not look at the state of the key
exchange, and the handler of NEWKEYS does not ask for one. A client that sends its messages
in the order of the protocol is authenticated over negotiated keys only; a client that
sends its password in clear is authenticated as well.
-/
namespace Sodex.Ssh

open CInt CtrMode Runs Relation

/-- The authentication of the connection was preceded by a full key exchange, and the
accepted request was decrypted and checked with keys that the exchange derived. -/
structure Negotiated (s : Server) : Prop where
  kexinitReceived : s.kex.kexinitReceived = true
  newkeysSent : s.kex.newkeysSent = true
  newkeysFlushed : s.out.txEncrypted = true
  newkeysReceived : s.kex.newkeysReceived = true
  deciphered : ∃ via, s.auth.via = some via ∧ via.encrypted = true ∧
    ∃ keys ∈ s.kex.derived, via.cipherKey = keys.rx.key ∧ via.macKey = keys.rxMac

/-- The messages are in the order of the protocol: NEWKEYS after a key exchange, and a
request for authentication when both directions are encrypted. -/
def InOrder : Guard := fun _ s _ payload =>
  (payload.head?.map messageOf = some .newkeys →
    s.kex.kexinitReceived = true ∧ s.kex.newkeysSent = true) ∧
  (payload.head?.map messageOf = some .userauthRequest →
    s.rx.encrypted = true ∧ s.out.txEncrypted = true)

instance (tick : UInt32) (s : Server) (mem : Memory) (payload : List UInt8) :
    Decidable (InOrder tick s mem payload) := inferInstanceAs (Decidable (_ ∧ _))

/-- What holds in every state of a run with messages in order. -/
structure Ordered (s : Server) : Prop where
  receiving : s.rx.encrypted = true →
    s.kex.kexinitReceived = true ∧ s.kex.newkeysSent = true ∧ s.kex.newkeysReceived = true
  keyed : s.kex.newkeysSent = true →
    ∃ keys ∈ s.kex.derived, s.rx.cipher.key = keys.rx.key ∧ s.rx.macKey = keys.rxMac
  authenticated : s.auth.done = true → Negotiated s
  opened : s.channel.opened = true → s.auth.done = true
  shell : s.channel.HasShell → s.channel.opened = true

/-- Nothing that the order is about has changed, except that flags may have been set. -/
structure SameSession (s s' : Server) : Prop where
  rx : s.rx.SameKeys s'.rx
  kexinitReceived : s.kex.kexinitReceived = true → s'.kex.kexinitReceived = true
  newkeysSent : s'.kex.newkeysSent = s.kex.newkeysSent
  newkeysReceived : s'.kex.newkeysReceived = s.kex.newkeysReceived
  derived : s'.kex.derived = s.kex.derived
  done : s'.auth.done = s.auth.done
  via : s'.auth.via = s.auth.via
  tx : s.out.txEncrypted = true → s'.out.txEncrypted = true
  channel : s'.channel = s.channel

section Same

variable {c : Crypto} {cfg : Config} {s s' : Server}

theorem Negotiated.same (h : Negotiated s) (hsame : SameSession s s') : Negotiated s' where
  kexinitReceived := hsame.kexinitReceived h.kexinitReceived
  newkeysSent := hsame.newkeysSent.trans h.newkeysSent
  newkeysFlushed := hsame.tx h.newkeysFlushed
  newkeysReceived := hsame.newkeysReceived.trans h.newkeysReceived
  deciphered := by
    rw [hsame.via, hsame.derived]
    exact h.deciphered

theorem Ordered.same (h : Ordered s) (hsame : SameSession s s') : Ordered s' where
  receiving := by
    rw [hsame.rx.1, hsame.newkeysSent, hsame.newkeysReceived]
    intro hrx
    obtain ⟨hkex, hsent, hreceived⟩ := h.receiving hrx
    exact ⟨hsame.kexinitReceived hkex, hsent, hreceived⟩
  keyed := by
    rw [hsame.newkeysSent, hsame.derived, hsame.rx.2.1, hsame.rx.2.2]
    exact h.keyed
  authenticated := by
    rw [hsame.done]
    exact fun hdone => (h.authenticated hdone).same hsame
  opened := by
    rw [hsame.channel, hsame.done]
    exact h.opened
  shell := by
    rw [hsame.channel]
    exact h.shell

theorem same_queuePayload (c : Crypto) (s : Server) (payload : List UInt8) (activate : Bool) :
    SameSession s (queuePayload c s payload activate).2 := by
  obtain ⟨rng, out, heq, henc, -⟩ := queuePayload_frame c s payload activate
  rw [heq]
  exact ⟨Rx.SameKeys.refl _, id, rfl, rfl, rfl, rfl, rfl, fun h => henc.trans h, rfl⟩

end Same

section Order

variable {c : Crypto} {cfg : Config} {s s' : Server}

/-- After a key derivation the receiving keys are among the derived ones. -/
theorem Ordered.derive (h : Ordered s) (keys : Keys) : Ordered (deriveKeyMaterial s keys) where
  receiving := h.receiving
  keyed := fun _ => ⟨keys, by simp [deriveKeyMaterial], rfl, rfl⟩
  authenticated := by
    intro hdone
    have hneg := h.authenticated hdone
    refine ⟨hneg.kexinitReceived, hneg.newkeysSent, hneg.newkeysFlushed, hneg.newkeysReceived, ?_⟩
    obtain ⟨via, hvia, henc, k, hk, hkeys⟩ := hneg.deciphered
    exact ⟨via, hvia, henc, k, List.mem_append_left _ hk, hkeys⟩
  opened := h.opened
  shell := h.shell

/-- NEWKEYS is sent with derived keys in place. -/
theorem Ordered.announce (h : Ordered s) {keys : Keys} (hkeys : Keyed s keys) :
    Ordered (announceNewkeys c s).2 := by
  have hqueue := same_queuePayload c s [21] true
  unfold announceNewkeys
  generalize queuePayload c s [21] true = queued at hqueue
  have hs := h.same hqueue
  simp only
  split
  · exact hs
  · refine ⟨fun hrx => ?_, fun _ => ⟨keys, ?_, ?_, ?_⟩, fun hdone => ?_, hs.opened, hs.shell⟩
    · obtain ⟨hkex, -, hreceived⟩ := hs.receiving hrx
      exact ⟨hkex, rfl, hreceived⟩
    · show keys ∈ queued.2.kex.derived
      rw [hqueue.derived]
      exact List.mem_of_getLast? hkeys.last
    · show queued.2.rx.cipher.key = keys.rx.key
      rw [hqueue.rx.2.1, hkeys.rx.1]
    · show queued.2.rx.macKey = keys.rxMac
      rw [hqueue.rx.2.2, hkeys.rx.2]
    · have hneg := hs.authenticated hdone
      exact ⟨hneg.kexinitReceived, rfl, hneg.newkeysFlushed, hneg.newkeysReceived, hneg.deciphered⟩

theorem Ordered.newkeys (h : Ordered s) (hkex : s.kex.kexinitReceived = true)
    (hsent : s.kex.newkeysSent = true) : Ordered (handleNewkeys s) where
  receiving := fun _ => ⟨hkex, hsent, rfl⟩
  keyed := h.keyed
  authenticated := fun hdone =>
    ⟨hkex, hsent, (h.authenticated hdone).newkeysFlushed, rfl, (h.authenticated hdone).deciphered⟩
  opened := h.opened
  shell := h.shell

theorem Ordered.evaluated (h : Ordered s) (hrx : s.rx.encrypted = true)
    (htx : s.out.txEncrypted = true) (tick : UInt32) (accepted : Bool)
    (username service : List UInt8) : Ordered (evaluated tick s accepted username service) := by
  obtain ⟨hkex, hsent, hreceived⟩ := h.receiving hrx
  cases accepted with
  | true =>
    refine ⟨h.receiving, h.keyed, fun _ => ⟨hkex, hsent, htx, hreceived, ?_⟩, fun _ => rfl, h.shell⟩
    obtain ⟨keys, hmem, hcipher, hmac⟩ := h.keyed hsent
    exact ⟨_, rfl, hrx, keys, hmem, hcipher, hmac⟩
  | false => exact h.same ⟨Rx.SameKeys.refl _, id, rfl, rfl, rfl, rfl, rfl, id, rfl⟩

theorem ordered_reset (s : Server) : Ordered (resetConnection s) :=
  ⟨nofun, nofun, nofun, nofun, by rintro (h | h | h) <;> cases h⟩

theorem Ordered.micro (s s' : Server) (hmicro : Micro c cfg InOrder s s') (h : Ordered s) :
    Ordered s' := by
  cases hmicro with
  | send payload _ => exact h.same (same_queuePayload c s payload false)
  | link l _ => exact h.same ⟨Rx.SameKeys.refl _, id, rfl, rfl, rfl, rfl, rfl, id, rfl⟩
  | channel ch hch =>
    refine ⟨h.receiving, h.keyed, fun hdone => ?_, fun hopen => ?_, fun hshell => ?_⟩
    · have hneg := h.authenticated hdone
      exact ⟨hneg.kexinitReceived, hneg.newkeysSent, hneg.newkeysFlushed, hneg.newkeysReceived,
        hneg.deciphered⟩
    · rcases hch.opened hopen with hopen | hdone
      · exact h.opened hopen
      · exact hdone
    · apply hch.stays
      rcases hch.shell hshell with hshell | hopen
      · exact h.shell hshell
      · exact hopen
  | locals looping result =>
    exact h.same ⟨Rx.SameKeys.refl _, id, rfl, rfl, rfl, rfl, rfl, id, rfl⟩
  | receive rx hrx => exact h.same ⟨hrx, id, rfl, rfl, rfl, rfl, rfl, id, rfl⟩
  | kex k hk =>
    exact h.same ⟨Rx.SameKeys.refl _, hk.kexinitReceived, hk.newkeysSent, hk.newkeysReceived,
      hk.derived, rfl, rfl, id, rfl⟩
  | cookie => exact h.same ⟨Rx.SameKeys.refl _, id, rfl, rfl, rfl, rfl, rfl, id, rfl⟩
  | secret _ => exact h.same ⟨Rx.SameKeys.refl _, id, rfl, rfl, rfl, rfl, rfl, id, rfl⟩
  | derive keys _ => exact h.derive keys
  | announce keys _ hkeys => exact h.announce hkeys
  | newkeys tick mem payload hmsg hP =>
    obtain ⟨hkex, hsent⟩ := hP.1 hmsg
    exact h.newkeys hkex hsent
  | service => exact h.same ⟨Rx.SameKeys.refl _, id, rfl, rfl, rfl, rfl, rfl, id, rfl⟩
  | userauth tick mem payload accepted username service hmsg hP _ _ =>
    obtain ⟨hrx, htx⟩ := hP.2 hmsg
    exact h.evaluated hrx htx tick accepted username service
  | authFlush tick _ =>
    exact authFlush_preserves
      (fun _ _ _ h => h.same ⟨Rx.SameKeys.refl _, id, rfl, rfl, rfl, rfl, rfl, id, rfl⟩)
      (fun _ _ hdone hvia h =>
        h.same ⟨Rx.SameKeys.refl _, id, rfl, rfl, rfl, hdone, hvia, id, rfl⟩)
      (fun s payload _ h => h.same (same_queuePayload c s payload false)) h tick
  | flush blocked sent =>
    refine flushOutbox_preserves
      (fun _ _ _ h => h.same ⟨Rx.SameKeys.refl _, id, rfl, rfl, rfl, rfl, rfl, id, rfl⟩) h
      (fun packet rest n _ => ?_) blocked sent
    exact h.same ⟨Rx.SameKeys.refl _, id, rfl, rfl, rfl, rfl, rfl,
      fun htx => by simp [htx], rfl⟩
  | release => exact ordered_reset s

theorem Ordered.accept (s : Server) (tick : UInt32) (child : Option Bool) (h : Ordered s) :
    Ordered (acceptPendingConnections cfg tick s child) := by
  unfold acceptPendingConnections
  split
  · exact h
  · split
    · exact (ordered_reset s).same ⟨Rx.SameKeys.refl _, id, rfl, rfl, rfl, rfl, rfl, id, rfl⟩
    · exact h

/-- In every run of the server in which the messages come in order, a connection is
authenticated only over negotiated keys, and has a channel or a shell only once it is
authenticated. -/
theorem authenticated_over_negotiated_keys (c : Crypto) (cfg : Config)
    (phases : List (UInt32 × Phase))
    (horder : Along (phaseStep c cfg) (DispatchOk c InOrder) serverInit phases) :
    ∃ s, run (phaseStep c cfg) serverInit phases = some s ∧
      (s.auth.done = true → Negotiated s) ∧ (s.channel.opened = true → Negotiated s) ∧
      (s.channel.HasShell → Negotiated s) := by
  obtain ⟨s, hrun, hs⟩ := run_of_micro Ordered.micro Ordered.accept (ordered_reset serverInit)
    phases horder
  refine ⟨s, hrun, hs.authenticated, fun hopen => hs.authenticated (hs.opened hopen), ?_⟩
  exact fun hshell => hs.authenticated (hs.opened (hs.shell hshell))

end Order

/-- Cryptographic functions that return zeros. -/
def zeroCrypto : Crypto where
  sha256 _ := List.replicate 32 0
  hmacSha256 _ _ := List.replicate 32 0
  aes _ _ _ := 0
  curve25519Public _ := some (List.replicate 32 0)
  curve25519Shared _ _ := some (List.replicate 32 1)
  ed25519Sign _ _ := some (List.replicate 64 0)
  hmac_length _ _ := List.length_replicate

def exampleConfig : Config where
  password := ascii "pw"
  rngSeed := List.replicate 32 7
  hostkeyPublic := List.replicate 32 0
  hostkeySecret := List.replicate 64 0
  remoteSigner := false

/-- A tick at which the client sends `chunk`, after `banner`, and the server can send. -/
def clientTick (tick : UInt32) (child : Option Bool) (banner chunk : List UInt8) : TickInput where
  tick := tick
  child := child
  socketClosed := false
  bannerBlocked := false
  bannerSent := true
  bannerChunk := banner
  chunk := chunk
  outside _ _ := 0
  signer _ := ⟨none, none⟩
  tty := false
  pid := -1
  shellBlocked := false
  reads := []
  alive := false
  flushBlocked := false
  sent := some 1460
  finishBlocked := false

/-- A packet in clear, and under the cipher that changes nothing. -/
def clearPacket (payload : List UInt8) : List UInt8 := packetBytes payload (List.replicate 4 0)
def zeroSealed (payload : List UInt8) : List UInt8 := clearPacket payload ++ List.replicate 32 0

def wireText (text : String) : List UInt8 := (Writer.init 256).putCstring text |>.bytes

def clientBanner : List UInt8 := ascii "SSH-2.0-x" ++ [10]

def serviceRequest : List UInt8 := 5 :: wireText "ssh-userauth"

def passwordRequest (password : String) : List UInt8 :=
  50 :: wireText "root" ++ wireText "ssh-connection" ++ wireText "password" ++ [0] ++
    wireText password

def clientKexinit : List UInt8 :=
  20 :: List.replicate 16 0 ++ wireText "curve25519-sha256" ++ wireText "ssh-ed25519" ++
    wireText "aes128-ctr" ++ wireText "aes128-ctr" ++ wireText "hmac-sha2-256" ++
    wireText "hmac-sha2-256" ++ wireText "none" ++ wireText "none" ++ wireText "" ++ wireText "" ++
    List.replicate 5 0

def ecdhInit : List UInt8 := 30 :: 0 :: 0 :: 0 :: 32 :: List.replicate 32 9

/-- A client that exchanges keys and sends its password when both directions are
encrypted. -/
def properClient : List (UInt32 × Phase) := runPhases
  [clientTick 1 (some true) (clientBanner ++ clearPacket clientKexinit)
      (clearPacket ecdhInit ++ clearPacket [21]),
    clientTick 2 none [] [], clientTick 3 none [] [],
    clientTick 4 none [] (zeroSealed serviceRequest ++ zeroSealed (passwordRequest "pw"))]

theorem properClient_negotiates :
    Along (phaseStep zeroCrypto exampleConfig) (DispatchOk zeroCrypto InOrder) serverInit
      properClient ∧
    ∃ s, run (phaseStep zeroCrypto exampleConfig) serverInit properClient = some s ∧
      s.auth.done = true ∧ Negotiated s := by
  have horder : Along (phaseStep zeroCrypto exampleConfig) (DispatchOk zeroCrypto InOrder)
      serverInit properClient := by decide +kernel
  have hdone : (run (phaseStep zeroCrypto exampleConfig) serverInit properClient).map
      (fun s => s.auth.done) = some true := by decide +kernel
  obtain ⟨s, hrun, hauth, -, -⟩ :=
    authenticated_over_negotiated_keys zeroCrypto exampleConfig properClient horder
  rw [hrun] at hdone
  have hdone := Option.some.inj hdone
  exact ⟨horder, s, hrun, hdone, hauth hdone⟩

/-- A client that sends its password in clear, without any key exchange. -/
def clearClient : List (UInt32 × Phase) := runPhases
  [clientTick 1 (some true) clientBanner
    (clearPacket serviceRequest ++ clearPacket (passwordRequest "pw"))]

/-- The password in clear is accepted. -/
theorem clear_password_accepted : ∃ s,
    run (phaseStep zeroCrypto exampleConfig) serverInit clearClient = some s ∧
      s.link.closing = false ∧ s.auth.done = true ∧ s.kex.kexinitReceived = false ∧
      s.kex.newkeysSent = false ∧ s.kex.newkeysReceived = false ∧ s.rx.encrypted = false ∧
      ¬Negotiated s := by
  have hflags : (run (phaseStep zeroCrypto exampleConfig) serverInit clearClient).map
      (fun s => (s.link.closing, s.auth.done, s.kex.kexinitReceived, s.kex.newkeysSent,
        s.kex.newkeysReceived, s.rx.encrypted)) =
      some (false, true, false, false, false, false) := by decide +kernel
  obtain ⟨s, hrun, hs⟩ := Option.map_eq_some_iff.mp hflags
  simp only [Prod.mk.injEq] at hs
  obtain ⟨hclosing, hdone, hkex, hsent, hreceived, hrx⟩ := hs
  refine ⟨s, hrun, hclosing, hdone, hkex, hsent, hreceived, hrx, fun hneg => ?_⟩
  rw [hneg.kexinitReceived] at hkex
  exact absurd hkex (by decide)

end Sodex.Ssh
