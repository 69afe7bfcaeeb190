import Sodex.SshShellOutput

/-!
# The windows of the channel

The server never sends more than the client has allowed, and no message is longer than the
client takes. The window of the client is a wrapping counter, so a large adjustment can make
it smaller. In the other direction the server allows 65536 bytes when it confirms the channel,
and never more.
-/
namespace Sodex.Ssh

open CInt CtrMode Runs Newlines List Option

/-- What a message of the server allows the client to send. -/
def windowIn (payload : List UInt8) : ℕ :=
  if payload.head? = some 91 then (readU32Be (payloadMem payload fun _ => 0) 9).toNat
  else if payload.head? = some 93 then (readU32Be (payloadMem payload fun _ => 0) 5).toNat
  else 0

/-- What the server has allowed the client to send. -/
def advertised (s : Server) : ℕ := (s.out.accepted.map windowIn).sum

theorem windowIn_plain {payload : List UInt8} (h : IsPlain payload) : windowIn payload = 0 := by
  rw [windowIn, if_neg fun h91 => h (by simp [h91]), if_neg fun h93 => h (by simp [h93])]

theorem windowIn_dataMessage (peerId : UInt32) (data : List UInt8) :
    windowIn (dataMessage peerId data) = 0 := rfl

theorem windowIn_openConfirmation (ch : Channel) : windowIn (openConfirmation ch) = 65536 := by
  simp [windowIn, openConfirmation, payloadMem, readU32Be, writeU32Be]

/-- The channel and what went over it agree with the windows; `granted` is what the client has
allowed. -/
structure Metered (s : Server) (granted : ℕ) : Prop where
  window : s.channel.peerWindow.toNat + (shellOutput s).length ≤ granted
  bounded : ∀ payload ∈ s.out.accepted, (dataOf payload).length ≤ s.channel.peerMaxPacket.toNat
  opening : s.channel.opened = false → shellOutput s = [] ∧ advertised s = 0
  fixed : advertised s = 0 ∨ advertised s = 65536

section Metered

variable {c : Crypto} {s s' : Server} {granted : ℕ}

section

variable (h : Metered s granted)
include h

theorem Metered.quiet (hq : Quiet s s') : Metered s' granted := by
  obtain ⟨new, hnew, hplain⟩ := hq.sent
  have hdata : ∀ payload ∈ new, dataOf payload = [] :=
    fun payload hmem => dataOf_plain (hplain payload hmem)
  have houtput : shellOutput s' = shellOutput s := by
    rw [shellOutput, hnew, flatMap_append, flatMap_eq_nil_iff.mpr hdata,
      append_nil]
    rfl
  have hzero : ∀ n ∈ new.map windowIn, n = 0 := by
    simpa using fun payload hmem => windowIn_plain (hplain payload hmem)
  have hadvertised : advertised s' = advertised s := by
    rw [advertised, hnew, map_append, sum_append, List.sum_eq_zero_iff_forall_eq_nat.mpr hzero, add_zero]
    rfl
  have hwindow : s'.channel.peerWindow = s.channel.peerWindow := congrArg Flow.peerWindow hq.flow
  have hmax : s'.channel.peerMaxPacket = s.channel.peerMaxPacket :=
    congrArg Flow.peerMaxPacket hq.flow
  have hopened : s'.channel.opened = s.channel.opened := congrArg Flow.opened hq.flow
  refine ⟨?_, ?_, ?_, hadvertised ▸ h.fixed⟩
  · rw [houtput, hwindow]
    exact h.window
  · intro payload hmem
    rw [hnew] at hmem
    rcases mem_append.mp hmem with hmem | hmem
    · rw [hmax]
      exact h.bounded payload hmem
    · rw [hdata payload hmem]
      exact Nat.zero_le _
  · rw [houtput, hadvertised, hopened]
    exact h.opening

theorem Metered.rekeys {mem : Memory} {payload : List UInt8}
    (hkeys : Rekeys mem payload s s') : Metered s' granted := by
  cases hkeys <;> exact ⟨h.window, h.bounded, h.opening, h.fixed⟩

/-- Channel data uses up the window. -/
theorem Metered.sent {chunks : List (List UInt8)} (hsent : Sent s s' chunks)
    (hopen : chunks ≠ [] → s.channel.opened = true) : Metered s' granted := by
  have hdata : (chunks.map (dataMessage s.channel.peerId)).flatMap dataOf = chunks.flatten := by
    simp [flatMap_map, dataOf_dataMessage, flatMap_id']
  have houtput : shellOutput s' = shellOutput s ++ chunks.flatten := by
    rw [shellOutput, hsent.accepted, flatMap_append, hdata]
    rfl
  have hzero : ∀ n ∈ (chunks.map (dataMessage s.channel.peerId)).map windowIn, n = 0 := by
    simp [windowIn_dataMessage]
  have hadvertised : advertised s' = advertised s := by
    rw [advertised, hsent.accepted, map_append, sum_append,
      List.sum_eq_zero_iff_forall_eq_nat.mpr hzero, add_zero]
    rfl
  have hopened : s'.channel.opened = s.channel.opened := congrArg Flow.opened hsent.flow
  have hmax : s'.channel.peerMaxPacket = s.channel.peerMaxPacket :=
    congrArg Flow.peerMaxPacket hsent.flow
  refine ⟨?_, ?_, ?_, hadvertised ▸ h.fixed⟩
  · have hwindow := h.window
    rw [← hsent.window] at hwindow
    rw [houtput, length_append]
    omega
  · intro payload hmem
    rw [hmax]
    rw [hsent.accepted] at hmem
    rcases mem_append.mp hmem with hmem | hmem
    · exact h.bounded payload hmem
    · obtain ⟨chunk, hchunk, rfl⟩ := mem_map.mp hmem
      exact hsent.bounded chunk hchunk
  · intro hclosed
    rw [hopened] at hclosed
    have hnone : chunks = [] := by
      by_contra hne
      exact absurd (hopen hne) (by simp [hclosed])
    rw [houtput, hadvertised, hnone]
    simpa using h.opening hclosed

/-- A new channel: nothing was sent before. -/
theorem Metered.confirmed (hclosed : s.channel.opened = false)
    (request : ChannelOpenRequest) (rng : Rng) (rx : Rx) {out : Out}
    (hout : out.accepted = s.out.accepted ∨
      out.accepted = s.out.accepted ++ [openConfirmation (s.channel.openFor request)]) :
    Metered { s with rng := rng, rx := rx, out := out, channel := s.channel.openFor request }
      request.peerWindow.toNat := by
  obtain ⟨hnothing, hnone⟩ := h.opening hclosed
  have houtput : out.accepted.flatMap dataOf = [] := by
    rcases hout with hout | hout
    · rw [hout]
      exact hnothing
    · rw [hout, flatMap_append]
      exact (append_nil _).trans hnothing
  refine ⟨?_, ?_, nofun, ?_⟩
  · rw [shellOutput, houtput]
    exact le_refl _
  · intro payload hmem
    rw [flatMap_eq_nil_iff.mp houtput payload hmem]
    exact Nat.zero_le _
  · unfold advertised at hnone ⊢
    rcases hout with hout | hout
    · rw [hout]
      exact .inl hnone
    · rw [hout, map_append, sum_append, hnone]
      exact .inr ((zero_add _).trans (windowIn_openConfirmation _))

/-- An adjustment adds at most its amount. -/
theorem Metered.adjusted (rx : Rx) (amount : UInt32) :
    Metered { s with rx := rx,
                     channel := { s.channel with peerWindow := s.channel.peerWindow + amount } }
      (granted + amount.toNat) := by
  refine ⟨?_, h.bounded, h.opening, h.fixed⟩
  have hwindow := h.window
  have hsum : (s.channel.peerWindow + amount).toNat ≤
      s.channel.peerWindow.toNat + amount.toNat := by
    exact Nat.mod_le _ _
  show (s.channel.peerWindow + amount).toNat + (shellOutput s).length ≤ _
  omega

end

theorem grantedAfter_other {mem : Memory} {payload : List UInt8}
    (hopen : payload.head?.map messageOf ≠ some .channelOpen)
    (hadjust : payload.head?.map messageOf ≠ some .windowAdjust) :
    grantedAfter granted s mem payload = granted := by
  simp [grantedAfter, openRequest, adjustAmount, hopen, hadjust]

theorem Metered.step (x : Session) (tick : UInt32) (phase : PollPhase) (s' : Server)
    (hin : x.server.link.inUse = true) (h : Metered x.server x.granted)
    (heffect : Effect c tick x.server phase s') (hin' : s'.link.inUse = true) :
    Metered s' (x.after c (tick, .poll phase) s').granted := by
  have hrx (rx : Rx) : Metered { x.server with rx := rx } x.granted :=
    ⟨h.window, h.bounded, h.opening, h.fixed⟩
  unfold Session.after
  cases heffect with
  | release => cases hin'
  | bytes buf hplain hq =>
    have hnone : handledIn c x.server (tick, .poll phase) = none := by
      cases phase with
      | packet => cases hplain
      | _ => rfl
    rw [hnone]
    exact (hrx { x.server.rx with buf := buf }).quiet hq
  | idle hno hq =>
    rw [handledIn_none fun hrec => by simp [hno hrec]]
    exact h.quiet hq
  | invalid hrec hdec hq =>
    rw [handledIn_none (by simp [hdec])]
    exact (hrx _).quiet hq
  | message hrec hdec hopen hadjust hkeys hq =>
    rw [handledIn_packet hin hrec hdec]
    show Metered s' (grantedAfter _ _ _ _)
    rw [grantedAfter_other hopen hadjust]
    exact ((hrx _).rekeys hkeys).quiet hq
  | opening hrec hdec hmsg hq =>
    rename_i outside signer payload rx
    rw [handledIn_packet hin hrec hdec]
    show Metered s' (grantedAfter _ _ _ _)
    rcases handleChannelOpen_cases (payloadMem payload outside) hmsg with
      ⟨hnone, hrefused⟩ | ⟨request, hsome, hopened⟩
    · rw [grantedAfter, hnone]
      simpa [adjustAmount, hmsg] using ((hrx rx).quiet hrefused).quiet hq
    · rw [grantedAfter, hsome]
      have hclosed : x.server.channel.opened = false := by
        unfold openRequest at hsome
        split at hsome
        · rename_i hnew
          exact hnew.2.2
        · cases hsome
      obtain ⟨rng, out, hframe, hout⟩ := queueChannelOpenConfirmation_frame c
        { x.server with rx := rx, channel := x.server.channel.openFor request }
      rw [hopened, hframe] at hq
      exact (h.confirmed hclosed request rng rx hout).quiet hq
  | adjusting hrec hdec hmsg hq =>
    rename_i outside signer payload rx
    rw [handledIn_packet hin hrec hdec]
    show Metered s' (grantedAfter _ _ _ _)
    obtain ⟨amount, hamount, hadjusted⟩ := handleWindowAdjust_eq
      (payloadMem payload outside) hmsg
    rw [hadjusted] at hq
    rw [grantedAfter, openRequest, if_neg (by simp [hmsg]), ← hamount]
    exact (h.adjusted rx amount).quiet hq
  | skip => exact h
  | output hopen hresult hq =>
    rename_i blocked reads alive
    obtain ⟨chunks, hsent, -, hchunks⟩ := pumpTtyToChannel_sent c tick x.server blocked reads
    exact (h.sent hsent hchunks).quiet hq

end Metered

section Runs

variable {c : Crypto} {cfg : Config}

/-- A message does not make the window of the client wrap, nor bring the data that came from the
client to the 65536 bytes that it was allowed. -/
def WithinWindows (c : Crypto) (x : Session) (input : UInt32 × Phase) : Prop :=
  ∀ m ∈ handledIn c x.server input,
    m.1.channel.peerWindow.toNat + adjustAmount m.1 m.2.1 m.2.2 < 2 ^ 32 ∧
      x.received + dataLength m.1 m.2.1 m.2.2 < 65536

instance (c : Crypto) (x : Session) (input : UInt32 × Phase) :
    Decidable (WithinWindows c x input) :=
  inferInstanceAs (Decidable (∀ m ∈ handledIn c x.server input, _))

theorem WithinWindows.received {x : Session} {input : UInt32 × Phase} {s : Server}
    (h : WithinWindows c x input) (hx : x.received < 65536) :
    (x.after c input s).received < 65536 := by
  unfold Session.after
  cases hm : handledIn c x.server input with
  | none => exact hx
  | some m => exact (h m hm).2

/-- The data sent on the channel is within what the client allowed, in every run. -/
theorem metered_run (phases : List (UInt32 × Phase)) (x : Session)
    (hrun : run (sessionStep c cfg) sessionInit phases = some x)
    (hwithin : Along (sessionStep c cfg) (WithinWindows c) sessionInit phases)
    (hin : x.server.link.inUse = true) : Metered x.server x.granted ∧ x.received < 65536 := by
  refine session_invariant (J := fun x => Metered x.server x.granted ∧ x.received < 65536) ?_ ?_
    phases x hrun hwithin hin
  · intro s hout hchannel
    refine ⟨⟨?_, ?_, fun _ => ⟨?_, ?_⟩, Or.inl ?_⟩, Nat.zero_lt_succ _⟩ <;>
      simp [shellOutput, advertised, hout, hchannel, resetOut, resetChannel]
  · intro x tick phase s' hin h hP heffect hin'
    exact ⟨Metered.step x tick phase s' hin h.1 heffect hin', hP.received h.2⟩

/-- An adjustment that does not wrap adds its amount. -/
theorem window_adjusted {x x' : Session} {input : UInt32 × Phase}
    {m : Server × Memory × List UInt8} (hin : x.server.link.inUse = true)
    (hstep : sessionStep c cfg x input = some x') (hin' : x'.server.link.inUse = true)
    (hm : handledIn c x.server input = some m)
    (hmsg : m.2.2.head?.map messageOf = some .windowAdjust)
    (hroom : m.1.channel.peerWindow.toNat + adjustAmount m.1 m.2.1 m.2.2 < 2 ^ 32) :
    x'.server.channel.peerWindow.toNat =
      x.server.channel.peerWindow.toNat + adjustAmount m.1 m.2.1 m.2.2 := by
  have hphase : phaseStep c cfg x.server input = some x'.server := by
    rw [← sessionStep_server, hstep]
    rfl
  obtain ⟨tick, outside, signer, rx, rfl, hrec, hdec, hm⟩ := handledIn_some hm
  rw [phaseStep, if_pos hin] at hphase
  have heffect := effect_of_pollStep hin hphase
  generalize x'.server = s' at heffect hin'
  cases heffect with
  | release => cases hin'
  | bytes _ hplain => cases hplain
  | idle hno =>
    rw [hno hrec] at hdec
    cases hdec
  | invalid _ hinvalid =>
    rw [hdec] at hinvalid
    cases hinvalid
  | message _ hdec' _ hadjust =>
    rw [hdec] at hdec'
    cases hdec'
    exact absurd hmsg hadjust
  | opening _ hdec' hmsg' =>
    rw [hdec] at hdec'
    cases hdec'
    rw [hmsg] at hmsg'
    cases hmsg'
  | adjusting _ hdec' _ hq =>
    rw [hdec] at hdec'
    cases hdec'
    obtain ⟨amount, hamount, hadjusted⟩ := handleWindowAdjust_eq
      (s := { x.server with rx := rx }) (payloadMem m.2.2 outside) hmsg
    rw [hadjusted] at hq
    have hwindow : s'.channel.peerWindow = x.server.channel.peerWindow + amount :=
      congrArg Flow.peerWindow hq.flow
    rw [hm, ← hamount] at hroom ⊢
    rw [hwindow, UInt32.toNat_add, Nat.mod_eq_of_lt hroom]

end Runs

/-- In every run in which no adjustment wraps the window of the client and the client sends
fewer than 65536 bytes of channel data: what the server sends is within what the client allowed,
in messages that are not too long; a client that was given a window can go on sending; and
the next adjustment does not make the window of the client smaller. -/
theorem channel_flow_controlled (c : Crypto) (cfg : Config) (phases : List (UInt32 × Phase))
    (x : Session) (hrun : run (sessionStep c cfg) sessionInit phases = some x)
    (hwithin : Along (sessionStep c cfg) (WithinWindows c) sessionInit phases)
    (hin : x.server.link.inUse = true) :
    (shellOutput x.server).length ≤ x.granted ∧
    (∀ payload ∈ x.server.out.accepted,
      (dataOf payload).length ≤ x.server.channel.peerMaxPacket.toNat) ∧
    (0 < advertised x.server → x.received < advertised x.server) ∧
    ∀ input x' m, WithinWindows c x input → sessionStep c cfg x input = some x' →
      x'.server.link.inUse = true → handledIn c x.server input = some m →
      m.2.2.head?.map messageOf = some .windowAdjust →
      x.server.channel.peerWindow ≤ x'.server.channel.peerWindow := by
  obtain ⟨hmetered, hreceived⟩ := metered_run phases x hrun hwithin hin
  refine ⟨(Nat.le_add_left _ _).trans hmetered.window, hmetered.bounded, fun hpos => ?_, ?_⟩
  · rcases hmetered.fixed with hnone | hwindow
    · omega
    · rw [hwindow]
      exact hreceived
  · intro input x' m hnext hstep hin' hm hmsg
    rw [UInt32.le_iff_toNat_le, window_adjusted hin hstep hin' hm hmsg (hnext m hm).1]
    exact Nat.le_add_right _ _

/-- A client that gets a line, makes room for more, and sends a line of its own. -/
def typingClient : List (UInt32 × Phase) :=
  shellClient 5 [shellTick 6 [] "abc\n",
    shellTick 7 (clearPacket (windowAdjust 9) ++
      clearPacket (94 :: writeU32Be 0 ++ wireText "ls")) "de"]

theorem typingClient_controlled :
    Along (sessionStep zeroCrypto exampleConfig) (WithinWindows zeroCrypto) sessionInit
      typingClient ∧
    ∃ x, run (sessionStep zeroCrypto exampleConfig) sessionInit typingClient = some x ∧
      x.granted = 14 ∧ x.received = 2 ∧ shellOutput x.server = ascii "abc\r\nde" ∧
      (shellOutput x.server).length ≤ x.granted ∧
      advertised x.server = 65536 ∧ x.received < advertised x.server := by
  have hwithin : Along (sessionStep zeroCrypto exampleConfig) (WithinWindows zeroCrypto) sessionInit
      typingClient := by decide +kernel
  have hend : (run (sessionStep zeroCrypto exampleConfig) sessionInit typingClient).map
      (fun x => (x.server.link.inUse, x.granted, x.received, shellOutput x.server,
        advertised x.server)) = some (true, 14, 2, ascii "abc\r\nde", 65536) := by decide +kernel
  obtain ⟨x, hrun, hx⟩ := map_eq_some_iff.mp hend
  simp only [Prod.mk.injEq] at hx
  obtain ⟨hin, hgranted, hreceived, hout, hwindow⟩ := hx
  obtain ⟨hsent, -, hopen, -⟩ := channel_flow_controlled zeroCrypto exampleConfig typingClient x hrun
    hwithin hin
  exact ⟨hwithin, x, hrun, hgranted, hreceived, hout, hsent, hwindow, hopen (by rw [hwindow]; decide)⟩

/-- A tick at which the client adds `0xffffffff` to a window of two bytes. -/
def wrappingTick : TickInput := shellTick 6 (clearPacket (windowAdjust 0xffffffff)) ""

/-- The adjustment makes the window of the client smaller. -/
theorem adjustment_shrinks_window : ∃ x x' m, run (sessionStep zeroCrypto exampleConfig) sessionInit
        (shellClient 2 [] ++ (tickPhases wrappingTick).take 6) = some x ∧
      sessionStep zeroCrypto exampleConfig x (6, .poll (.packet (fun _ => 0) ⟨none, none⟩)) =
        some x' ∧
      x'.server.link.inUse = true ∧
      handledIn zeroCrypto x.server (6, .poll (.packet (fun _ => 0) ⟨none, none⟩)) = some m ∧
      m.2.2.head?.map messageOf = some .windowAdjust ∧
      x.server.channel.peerWindow = 2 ∧ x'.server.channel.peerWindow = 1 := by
  have hend : ((run (sessionStep zeroCrypto exampleConfig) sessionInit
      (shellClient 2 [] ++ (tickPhases wrappingTick).take 6)).bind fun x =>
      (sessionStep zeroCrypto exampleConfig x
        (6, .poll (.packet (fun _ => 0) ⟨none, none⟩))).bind fun x' =>
      (handledIn zeroCrypto x.server (6, .poll (.packet (fun _ => 0) ⟨none, none⟩))).map fun m =>
        (x'.server.link.inUse, m.2.2.head?.map messageOf, x.server.channel.peerWindow,
          x'.server.channel.peerWindow)) = some (true, some .windowAdjust, 2, 1) := by
    decide +kernel
  obtain ⟨x, hrun, hx⟩ := bind_eq_some_iff.mp hend
  obtain ⟨x', hstep, hx'⟩ := bind_eq_some_iff.mp hx
  obtain ⟨m, hm, hvalues⟩ := map_eq_some_iff.mp hx'
  simp only [Prod.mk.injEq] at hvalues
  exact ⟨x, x', m, hrun, hstep, hvalues.1, hm, hvalues.2.1, hvalues.2.2.1, hvalues.2.2.2⟩

end Sodex.Ssh
