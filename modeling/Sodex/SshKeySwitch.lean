import Sodex.SshSession

/-!
# When the keys change

In each direction the keys are to change with NEWKEYS: the server reads under new keys after
the NEWKEYS of the client, and seals with new keys after its own. The keys of an exchange
are written over the ones in use when they are derived, so this holds only for an exchange
that finds nothing in use, in neither direction.
-/
namespace Sodex.Ssh

open CInt CtrMode Runs Option

/-- Cipher and authentication key under which packets of the client are read. -/
def Rx.inUse (rx : Rx) : Option (Cipher × List UInt8) :=
  if rx.encrypted then some (rx.cipher, rx.macKey) else none

/-- The receiving side after a phase has looked for a packet, before the packet is handled. -/
def rxAfterRead (c : Crypto) (s : Server) : UInt32 × Phase → Rx
  | (tick, .poll (.packet _ _)) =>
    if s.link.inUse = true ∧ s.Receives tick then
      match tryDecodePacket c s.rx with
      | .packet _ rx | .invalid rx => rx
      | _ => s.rx
    else s.rx
  | _ => s.rx

/-- The kind of the message that is handled in a phase. -/
def messageIn (c : Crypto) (s : Server) (input : UInt32 × Phase) : Option Message :=
  (handledIn c s input).bind fun m => m.2.2.head?.map messageOf

/-- An exchange begins only while packets go in clear in both directions. -/
def FirstExchange : Guard := fun _ s _ payload =>
  payload.head?.map messageOf = some .kexEcdhInit →
    s.kex.newkeysSent = false ∧ s.rx.encrypted = false

instance (tick : UInt32) (s : Server) (mem : Memory) (payload : List UInt8) :
    Decidable (FirstExchange tick s mem payload) := inferInstanceAs (Decidable (_ → _))

section Guards

variable {c : Crypto} {s : Server} {input : UInt32 × Phase}

theorem DispatchOk.mono {P Q : Guard} (h : ∀ tick s mem payload, P tick s mem payload →
    Q tick s mem payload) (hok : DispatchOk c P s input) : DispatchOk c Q s input := by
  obtain ⟨tick, phase⟩ := input
  cases phase with
  | accept child => trivial
  | poll phase =>
    cases phase with
    | packet outside signer =>
      intro hin hrec
      have hmeets := hok hin hrec
      cases hdec : tryDecodePacket c s.rx with
      | packet payload rx =>
        rw [hdec] at hmeets
        exact h _ _ _ _ hmeets
      | wild =>
        rw [hdec] at hmeets
        exact hmeets
      | wait | invalid => trivial
    | _ => trivial

theorem DispatchOk.handled {P : Guard} (hok : DispatchOk c P s input) (hin : s.link.inUse = true)
    {m : Server × Memory × List UInt8} (hm : handledIn c s input = some m) :
    ∃ tick, P tick m.1 m.2.1 m.2.2 := by
  obtain ⟨tick, outside, signer, rx, rfl, hrec, hdec, hm⟩ := handledIn_some hm
  have hmeets := hok hin hrec
  rw [hdec] at hmeets
  rw [hm]
  exact ⟨tick, hmeets⟩

end Guards

section Receiving

variable {c : Crypto} {cfg : Config} {s s' : Server} {input : UInt32 × Phase} {tick : UInt32}
  {payload : List UInt8} (outside : Memory) (signer : SignerReply) {rx : Rx}

theorem rxAfterRead_sameKeys (c : Crypto) (s : Server) (input : UInt32 × Phase) :
    s.rx.SameKeys (rxAfterRead c s input) := by
  unfold rxAfterRead
  split
  · split
    · obtain ⟨hinvalid, hpacket⟩ := tryDecodePacket_sameKeys c s.rx
      split
      · rename_i hdec
        exact hpacket _ _ hdec
      · rename_i hdec
        exact hinvalid _ hdec
      · exact Rx.SameKeys.refl _
    · exact Rx.SameKeys.refl _
  · exact Rx.SameKeys.refl _

theorem takePayload_cipher {rx' : Rx} {n : ℤ} {plain : List UInt8} {total : ℕ}
    (h : takePayload rx n plain total = .invalid rx' ∨
      ∃ payload, takePayload rx n plain total = .packet payload rx') :
    rx'.cipher = rx.cipher := by
  unfold takePayload at h
  simp only at h
  rcases h with h | ⟨payload, h⟩
  · split at h
    · exact Decode.invalid.inj h ▸ rfl
    · split at h <;> cases h
  · split at h
    · cases h
    · split at h
      · cases h
      · exact (Decode.packet.inj h).2 ▸ rfl

/-- In clear the decoder does not touch the cipher. -/
theorem rxAfterRead_clear (hclear : s.rx.encrypted = false) (input : UInt32 × Phase) :
    (rxAfterRead c s input).cipher = s.rx.cipher := by
  have hplain : ∀ rx', (tryDecodePacket c s.rx = .invalid rx' ∨
      ∃ payload, tryDecodePacket c s.rx = .packet payload rx') → rx'.cipher = s.rx.cipher := by
    intro rx' hdec
    rw [tryDecodePacket, if_neg (by simp [hclear]), tryDecodePlainPacket] at hdec
    simp only at hdec
    split at hdec
    · simp at hdec
    split at hdec
    · simp at hdec
    split at hdec
    · simp at hdec
    split at hdec
    · simp at hdec
      rw [← hdec]
    · exact takePayload_cipher hdec
  unfold rxAfterRead
  split
  · split
    · split
      · rename_i hdec
        exact hplain _ (.inr ⟨_, hdec⟩)
      · rename_i hdec
        exact hplain _ (.inl hdec)
      · rfl
    · rfl
  · rfl

/-- Encryption, cipher and authentication key of the receiving side. -/
def Rx.coding (rx : Rx) : Bool × Cipher × List UInt8 := (rx.encrypted, rx.cipher, rx.macKey)

theorem Rx.inUse_of_coding {rx' : Rx} (h : rx'.coding = rx.coding) : rx'.inUse = rx.inUse := by
  simp only [Rx.coding, Prod.mk.injEq] at h
  rw [Rx.inUse, Rx.inUse, h.1, h.2.1, h.2.2]

/-- What a phase does to the receiving side: nothing more than reading a packet, unless the
packet is NEWKEYS or ends an exchange. -/
inductive RxStep (c : Crypto) (s : Server) (input : UInt32 × Phase) (s' : Server) : Prop where
  | keep (hmsg : messageIn c s input ≠ some .newkeys)
      (hrx : s'.rx.coding = (rxAfterRead c s input).coding)
      (hderived : s'.kex.derived = s.kex.derived)
  | newkeys (hmsg : messageIn c s input = some .newkeys)
      (hrx : s'.rx.coding = { rxAfterRead c s input with encrypted := true }.coding)
      (hderived : s'.kex.derived = s.kex.derived)
  | derive (keys : Keys) (hmsg : messageIn c s input = some .kexEcdhInit)
      (hrx : s'.rx.coding =
        { rxAfterRead c s input with cipher := keys.rx, macKey := keys.rxMac }.coding)
      (hderived : s'.kex.derived = s.kex.derived ++ [keys])

theorem rxAfterRead_packet (hin : s.link.inUse = true) (hrec : s.Receives tick)
    (hdec : tryDecodePacket c s.rx = .packet payload rx) :
    rxAfterRead c s (tick, .poll (.packet outside signer)) = rx := by
  rw [rxAfterRead, if_pos ⟨hin, hrec⟩, hdec]

theorem messageIn_packet (hin : s.link.inUse = true) (hrec : s.Receives tick)
    (hdec : tryDecodePacket c s.rx = .packet payload rx) :
    messageIn c s (tick, .poll (.packet outside signer)) = payload.head?.map messageOf := by
  rw [messageIn, handledIn_packet hin hrec hdec]
  rfl

/-- Every phase that leaves the connection in use is one of the steps. -/
theorem rxStep_of_effect {phase : PollPhase} (hin : s.link.inUse = true)
    (heffect : Effect c tick s phase s') (hin' : s'.link.inUse = true) :
    RxStep c s (tick, .poll phase) s' := by
  cases heffect with
  | release => cases hin'
  | bytes buf hplain hq =>
    refine .keep ?_ ?_ hq.derived
    · cases phase with
      | packet => cases hplain
      | _ => nofun
    · rw [hq.rx]
      cases phase with
      | packet => cases hplain
      | _ => rfl
  | idle hno hq =>
    refine .keep ?_ ?_ hq.derived
    · rw [messageIn, handledIn_none fun hrec => by simp [hno hrec]]
      nofun
    · rw [hq.rx, rxAfterRead]
      split
      · rename_i hrec
        rw [hno hrec.2]
      · rfl
  | invalid hrec hdec hq =>
    refine .keep ?_ ?_ hq.derived
    · rw [messageIn, handledIn_none (by simp [hdec])]
      nofun
    · rw [hq.rx, rxAfterRead, if_pos ⟨hin, hrec⟩, hdec]
  | message hrec hdec hopen hadjust hkeys hq =>
    rename_i outside signer payload rx s₁
    have hread := rxAfterRead_packet outside signer hin hrec hdec
    have hmessage := messageIn_packet outside signer hin hrec hdec
    cases hkeys with
    | same hother => exact .keep (hmessage ▸ hother) (by rw [hread, hq.rx]) hq.derived
    | newkeys hmsg => exact .newkeys (hmessage.trans hmsg) (by rw [hread, hq.rx]; rfl) hq.derived
    | derive keys hmsg _ =>
      exact .derive keys (hmessage.trans hmsg) (by rw [hread, hq.rx]; rfl) hq.derived
  | opening hrec hdec hmsg hq =>
    rename_i outside signer payload rx
    have hread := rxAfterRead_packet outside signer hin hrec hdec
    have hmessage := messageIn_packet outside signer hin hrec hdec
    have hother : messageIn c s (tick, .poll (.packet outside signer)) ≠ some .newkeys := by
      rw [hmessage, hmsg]
      nofun
    rcases handleChannelOpen_cases (payloadMem payload outside) hmsg with
      ⟨-, hrefused⟩ | ⟨request, -, hopened⟩
    · exact .keep hother (by rw [hread, hq.rx, hrefused.rx]) (hq.derived.trans hrefused.derived)
    · obtain ⟨rng, out, hframe, -⟩ := queueChannelOpenConfirmation_frame c
        { s with rx := rx, channel := s.channel.openFor request }
      rw [hopened, hframe] at hq
      exact .keep hother (by rw [hread, hq.rx]) hq.derived
  | adjusting hrec hdec hmsg hq =>
    rename_i outside signer payload rx
    have hread := rxAfterRead_packet outside signer hin hrec hdec
    have hmessage := messageIn_packet outside signer hin hrec hdec
    obtain ⟨amount, -, hadjusted⟩ := handleWindowAdjust_eq
      (payloadMem payload outside) hmsg
    rw [hadjusted] at hq
    refine .keep ?_ (by rw [hread, hq.rx]) hq.derived
    rw [hmessage, hmsg]
    nofun
  | skip => exact .keep nofun rfl rfl
  | output hopen hresult hq =>
    rename_i blocked reads alive
    obtain ⟨chunks, hsent, -⟩ := pumpTtyToChannel_sent c tick s blocked reads
    refine .keep nofun ?_ (hq.derived.trans hsent.derived)
    rw [hq.rx, hsent.rx]
    rfl

/-- Until encryption is on the derived keys wait in place. -/
def Placed (s : Server) : Prop :=
  s.rx.encrypted = false → ∀ keys, s.kex.derived.getLast? = some keys →
    s.rx.cipher = keys.rx ∧ s.rx.macKey = keys.rxMac

theorem Placed.step (h : Placed s) (hstep : RxStep c s input s') : Placed s' := by
  obtain ⟨hencrypted, -, hmac⟩ := rxAfterRead_sameKeys c s input
  intro hclear keys hkeys
  cases hstep with
  | keep _ hrx hderived =>
    simp only [Rx.coding, Prod.mk.injEq] at hrx
    have hbefore : s.rx.encrypted = false := by rw [← hencrypted, ← hrx.1, hclear]
    obtain ⟨hcipher, hmacKey⟩ := h hbefore keys (hderived ▸ hkeys)
    exact ⟨hrx.2.1.trans ((rxAfterRead_clear hbefore input).trans hcipher),
      hrx.2.2.trans (hmac.trans hmacKey)⟩
  | newkeys _ hrx _ =>
    have hset : s'.rx.encrypted = true := congrArg Prod.fst hrx
    rw [hset] at hclear
    cases hclear
  | derive keys' _ hrx hderived =>
    rw [hderived, List.getLast?_concat] at hkeys
    obtain rfl := some.inj hkeys
    simp only [Rx.coding, Prod.mk.injEq] at hrx
    exact hrx.2

end Receiving

section Runs

variable {c : Crypto} {cfg : Config} {s s' : Server}

/-- The phases of a connection that stays in use. -/
theorem rxStep_of_phaseStep {input : UInt32 × Phase} (hin : s.link.inUse = true)
    (hstep : phaseStep c cfg s input = some s') (hin' : s'.link.inUse = true) :
    RxStep c s input s' := by
  obtain ⟨tick, phase⟩ := input
  cases phase with
  | accept child =>
    have hsame : acceptPendingConnections cfg tick s child = s := if_pos hin
    obtain rfl : s = s' := hsame.symm.trans (some.inj hstep)
    exact .keep nofun rfl rfl
  | poll phase =>
    rw [phaseStep, if_pos hin] at hstep
    exact rxStep_of_effect hin (effect_of_pollStep hin hstep) hin'

/-- On a connection in use the derived keys are in place. -/
theorem placed_run (phases : List (UInt32 × Phase))
    (hrun : run (phaseStep c cfg) serverInit phases = some s) (hin : s.link.inUse = true) :
    Placed s := by
  refine run_keeps (I := fun s : Server => s.link.inUse = true → Placed s) ?_ phases serverInit s
    nofun hrun hin
  intro s input s' hs hstep hin'
  cases hin : s.link.inUse with
  | true => exact (hs hin).step (rxStep_of_phaseStep hin hstep hin')
  | false =>
    obtain ⟨tick, phase⟩ := input
    cases phase with
    | accept child =>
      -- a new connection has no keys
      rw [← some.inj hstep, acceptPendingConnections, if_neg (by simp [hin])] at hin' ⊢
      split
      · exact fun _ _ hkeys => nomatch hkeys
      · rename_i hnone
        rw [if_neg hnone, hin] at hin'
        cases hin'
    | poll phase =>
      rw [phaseStep, if_neg (by simp [hin])] at hstep
      obtain rfl := some.inj hstep
      rw [hin] at hin'
      cases hin'

end Runs

/-- In every run in which an exchange begins only while packets go in clear in both directions:
as long as no packet was queued while the queue was full or held NEWKEYS, the packets of the
server are made with keys, counter and authentication key of the exchange from right after its
NEWKEYS on; and the next phase changes what packets of the client are read with only if it
handles the NEWKEYS of the client, and then to the keys of the exchange. -/
theorem keys_switch_with_newkeys (c : Crypto) (cfg : Config) (phases : List (UInt32 × Phase))
    (hfirst : Along (phaseStep c cfg) (DispatchOk c FirstExchange) serverInit phases) :
    ∃ s, run (phaseStep c cfg) serverInit phases = some s ∧
      (s.out.crowded = false → ∃ flushed : List OutPacket,
        s.out.accepted = (flushed ++ s.out.outbox).map OutPacket.payload ∧
        ∀ keys, (s.kex.newkeysSent = true → s.kex.derived.getLast? = some keys) →
          ∃ rx, Stream c keys resetRx (flushed ++ s.out.outbox) rx) ∧
      ∀ input s', DispatchOk c FirstExchange s input → phaseStep c cfg s input = some s' →
        s.link.inUse = true → s'.link.inUse = true →
        s.rx.SameKeys (rxAfterRead c s input) ∧
        if messageIn c s input = some .newkeys then
          s'.rx.inUse = some ((rxAfterRead c s input).cipher, s.rx.macKey) ∧
            (s.rx.encrypted = false → ∀ keys, s.kex.derived.getLast? = some keys →
              s'.rx.inUse = some (keys.rx, keys.rxMac))
        else s'.rx.inUse = (rxAfterRead c s input).inUse := by
  have hone : Along (phaseStep c cfg) (DispatchOk c OneExchange) serverInit phases :=
    hfirst.mono (fun s input hok => hok.mono fun _ _ _ _ h hmsg => (h hmsg).1) phases serverInit
  obtain ⟨s, hrun, haligned⟩ := run_of_micro Aligned.micro Aligned.accept
    (aligned_reset c serverInit) phases hone
  refine ⟨s, hrun, fun hcrowded => ?_, fun input s' hok hstep hin hin' => ?_⟩
  · obtain ⟨flushed, hsynced, -⟩ := haligned hcrowded
    refine ⟨flushed, hsynced.accepted, fun keys hkeys => ?_⟩
    obtain ⟨rx, hstream, -⟩ := hsynced.stream keys hkeys
    exact ⟨rx, hstream⟩
  · have hsame := rxAfterRead_sameKeys c s input
    refine ⟨hsame, ?_⟩
    cases rxStep_of_phaseStep hin hstep hin' with
    | keep hmsg hrx _ =>
      rw [if_neg hmsg]
      exact Rx.inUse_of_coding hrx
    | newkeys hmsg hrx _ =>
      rw [if_pos hmsg]
      have huse : s'.rx.inUse = some ((rxAfterRead c s input).cipher, s.rx.macKey) := by
        rw [Rx.inUse_of_coding hrx, ← hsame.2.2]
        rfl
      refine ⟨huse, fun hclear keys hkeys => ?_⟩
      obtain ⟨hcipher, hmac⟩ := placed_run phases hrun hin hclear keys hkeys
      rw [huse, rxAfterRead_clear hclear, hcipher, hmac]
    | derive keys hmsg hrx _ =>
      rw [if_neg (by simp [hmsg])]
      -- the exchange was begun in clear, so nothing is in use before or after
      obtain ⟨m, hm, hkind⟩ := bind_eq_some_iff.mp hmsg
      obtain ⟨tick, hguard⟩ := hok.handled hin hm
      have hclear : (rxAfterRead c s input).encrypted = false := by
        obtain ⟨tick', outside, signer, rx, rfl, hrec, hdec, hserver⟩ := handledIn_some hm
        rw [rxAfterRead_packet outside signer hin hrec hdec]
        have := (hguard hkind).2
        rw [hserver] at this
        exact this
      rw [Rx.inUse_of_coding hrx, Rx.inUse, Rx.inUse, hclear]
      rfl

/-- The proper client: both directions are encrypted, and what is sent switches with NEWKEYS. -/
theorem properClient_switches :
    Along (phaseStep zeroCrypto exampleConfig) (DispatchOk zeroCrypto FirstExchange) serverInit
      properClient ∧
    ∃ s, run (phaseStep zeroCrypto exampleConfig) serverInit properClient = some s ∧
      s.rx.encrypted = true ∧ s.out.txEncrypted = true ∧
      ∃ flushed : List OutPacket,
        s.out.accepted = (flushed ++ s.out.outbox).map OutPacket.payload ∧
        ∀ keys, s.kex.derived.getLast? = some keys →
          ∃ rx, Stream zeroCrypto keys resetRx (flushed ++ s.out.outbox) rx := by
  have hfirst : Along (phaseStep zeroCrypto exampleConfig) (DispatchOk zeroCrypto FirstExchange)
      serverInit properClient := by decide +kernel
  have hflags : (run (phaseStep zeroCrypto exampleConfig) serverInit properClient).map
      (fun s => (s.rx.encrypted, s.out.txEncrypted, s.out.crowded)) = some (true, true, false) := by
    decide +kernel
  obtain ⟨s, hrun, hsent, -⟩ := keys_switch_with_newkeys zeroCrypto exampleConfig properClient hfirst
  rw [hrun, map_some] at hflags
  simp only [some.injEq, Prod.mk.injEq] at hflags
  obtain ⟨flushed, haccepted, hstream⟩ := hsent hflags.2.2
  exact ⟨hfirst, s, hrun, hflags.1, hflags.2.1, flushed, haccepted,
    fun keys hkeys => hstream keys fun _ => hkeys⟩

/-- Cryptographic functions that tell keys apart: a digest that depends on its input, and
a code that is a byte of its key. -/
def markedCrypto : Crypto :=
  { zeroCrypto with
    sha256 := fun bytes => List.replicate 32 (bytes.foldl (3 * · + ·) 0)
    hmacSha256 := fun key _ => List.replicate 32 (key.headD 0)
    hmac_length := fun _ _ => List.length_replicate }

/-- A packet under a key that starts with `mark`. -/
def markedSealed (mark : UInt8) (payload : List UInt8) : List UInt8 :=
  clearPacket payload ++ List.replicate 32 mark

/-- A client that, when both directions are encrypted, starts a second exchange, under the keys
of the first one. -/
def rekeyingClient : List (UInt32 × Phase) := runPhases
  [clientTick 1 (some true) (clientBanner ++ clearPacket clientKexinit)
      (clearPacket ecdhInit ++ clearPacket [21]),
    clientTick 2 none [] [], clientTick 3 none [] [],
    clientTick 4 none [] (markedSealed 229 (20 :: 1 :: clientKexinit.drop 2))]

/-- The tick at which the client sends its public value and NEWKEYS, under the same keys. -/
def rekeyingTick : TickInput :=
  clientTick 5 none [] (markedSealed 229 ecdhInit ++ markedSealed 229 [21])

def nextPacket : UInt32 × Phase := (5, .poll (.packet (fun _ => 0) ⟨none, none⟩))

/-- The keys change with the public value of the client, and its NEWKEYS is refused. -/
theorem second_exchange_switches_early : ∃ s s₁ s₂,
    run (phaseStep markedCrypto exampleConfig) serverInit
        (rekeyingClient ++ (tickPhases rekeyingTick).take 6) = some s ∧
      s.rx.inUse.map Prod.snd = some (List.replicate 32 229) ∧
      phaseStep markedCrypto exampleConfig s nextPacket = some s₁ ∧
      messageIn markedCrypto s nextPacket = some .kexEcdhInit ∧
      s₁.rx.inUse.map Prod.snd = some (List.replicate 32 165) ∧
      s₁.rx.buf = markedSealed 229 [21] ∧
      phaseStep markedCrypto exampleConfig s₁ nextPacket = some s₂ ∧
      s₂.link.closing = true ∧ s₂.link.closeReason = "packet_invalid" := by
  have hend : ((run (phaseStep markedCrypto exampleConfig) serverInit
      (rekeyingClient ++ (tickPhases rekeyingTick).take 6)).bind fun s =>
      (phaseStep markedCrypto exampleConfig s nextPacket).bind fun s₁ =>
      (phaseStep markedCrypto exampleConfig s₁ nextPacket).map fun s₂ => decide
        (s.rx.inUse.map Prod.snd = some (List.replicate 32 229) ∧
          messageIn markedCrypto s nextPacket = some .kexEcdhInit ∧
          s₁.rx.inUse.map Prod.snd = some (List.replicate 32 165) ∧
          s₁.rx.buf = markedSealed 229 [21] ∧
          s₂.link.closing = true ∧ s₂.link.closeReason = "packet_invalid")) = some true := by
    decide +kernel
  obtain ⟨s, hrun, hs⟩ := bind_eq_some_iff.mp hend
  obtain ⟨s₁, hfirst, hs₁⟩ := bind_eq_some_iff.mp hs
  obtain ⟨s₂, hsecond, hvalues⟩ := map_eq_some_iff.mp hs₁
  obtain ⟨hold, hmsg, hnew, hbuf, hclosing, hreason⟩ := of_decide_eq_true hvalues
  exact ⟨s, s₁, s₂, hrun, hold, hfirst, hmsg, hnew, hbuf, hsecond, hclosing, hreason⟩

end Sodex.Ssh
