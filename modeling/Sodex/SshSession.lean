import Sodex.SshTtyOutput

/-!
# The history of a connection

A run of the server together with what has happened on the connection: the bytes that were
read from the terminal, the bytes that the client allowed the server to send, and the bytes
of channel data that the client sent.
-/
namespace Sodex.Ssh

open CInt CtrMode Runs Newlines

/-- The server and the history of its connection. -/
structure Session where
  server : Server
  read : List UInt8
  granted : ℕ
  received : ℕ

/-- The reads of the terminal in a phase. -/
def readsIn (c : Crypto) (s : Server) : UInt32 × Phase → List (Server × List UInt8)
  | (tick, .poll (.shell blocked reads _)) =>
    if s.link.inUse = false ∨ s.link.closing ∨ s.startResult ≠ 0 then []
    else ttyReads c tick s blocked reads
  | _ => []

/-- The message that is handled in a phase, with the state in which it is handled. -/
def handledIn (c : Crypto) (s : Server) : UInt32 × Phase → Option (Server × Memory × List UInt8)
  | (tick, .poll (.packet outside _)) =>
    if s.link.inUse = true ∧ s.Receives tick then
      match tryDecodePacket c s.rx with
      | .packet payload rx => some ({ s with rx := rx }, payloadMem payload outside, payload)
      | _ => none
    else none
  | _ => none

/-- The request to open the channel, if it is granted. -/
def openRequest (s : Server) (mem : Memory) (payload : List UInt8) : Option ChannelOpenRequest :=
  if payload.head?.map messageOf = some .channelOpen ∧ s.auth.done = true ∧
      s.channel.opened = false then
    (channelParseOpen mem payload.length).1.filter fun request =>
      cstr request.type = ascii "session"
  else none

/-- The bytes that a WINDOW_ADJUST message allows. -/
def adjustAmount (s : Server) (mem : Memory) (payload : List UInt8) : ℕ :=
  let recipient := (payloadReader mem payload.length).getU32
  if payload.head?.map messageOf = some .windowAdjust ∧ recipient.1 = s.channel.localId then
    recipient.2.getU32.1.toNat
  else 0

/-- The bytes of a CHANNEL_DATA message to the open channel. -/
def dataLength (s : Server) (mem : Memory) (payload : List UInt8) : ℕ :=
  if payload.head?.map messageOf = some .channelData ∧ s.channel.opened = true then
    (((channelParseData mem payload.length).1.filter fun request =>
      request.recipient = s.channel.localId).bind ChannelDataRequest.data).elim 0
        fun slice => slice.len.toNat
  else 0

/-- What the client allows after a message: its initial window when the channel is opened, and
what it adds. -/
def grantedAfter (granted : ℕ) (s : Server) (mem : Memory) (payload : List UInt8) : ℕ :=
  match openRequest s mem payload with
  | some request => request.peerWindow.toNat
  | none => granted + adjustAmount s mem payload

/-- The session after a phase that ends in `s`. -/
def Session.after (c : Crypto) (x : Session) (input : UInt32 × Phase) (s : Server) : Session where
  server := s
  read := x.read ++ bytesRead (readsIn c x.server input)
  granted := (handledIn c x.server input).elim x.granted fun m =>
    grantedAfter x.granted m.1 m.2.1 m.2.2
  received := x.received + (handledIn c x.server input).elim 0 fun m => dataLength m.1 m.2.1 m.2.2

/-- A phase of the server, and what it adds to the history. The history ends with the
connection. -/
def sessionStep (c : Crypto) (cfg : Config) (x : Session) (input : UInt32 × Phase) :
    Option Session :=
  (phaseStep c cfg x.server input).map fun s =>
    if s.link.inUse then x.after c input s else ⟨s, [], 0, 0⟩

/-- The server before the first connection. -/
def sessionInit : Session := ⟨serverInit, [], 0, 0⟩

theorem sessionStep_server (c : Crypto) (cfg : Config) (x : Session) (input : UInt32 × Phase) :
    (sessionStep c cfg x input).map Session.server = phaseStep c cfg x.server input := by
  unfold sessionStep
  cases phaseStep c cfg x.server input with
  | none => rfl
  | some s =>
    simp
    split <;> rfl

section Steps

variable {c : Crypto} {cfg : Config} {s : Server} {payload : List UInt8} {signer : SignerReply}
  {outside : Memory} {tick : UInt32}

theorem handledIn_some {input : UInt32 × Phase} {m : Server × Memory × List UInt8}
    (h : handledIn c s input = some m) : ∃ tick outside signer rx,
      input = (tick, .poll (.packet outside signer)) ∧ s.Receives tick ∧
        tryDecodePacket c s.rx = .packet m.2.2 rx ∧
        m = ({ s with rx := rx }, payloadMem m.2.2 outside, m.2.2) := by
  obtain ⟨tick, phase⟩ := input
  unfold handledIn at h
  split at h
  · rename_i tick' outside signer heq
    split at h
    · rename_i hpacket
      split at h
      · rename_i payload rx hdec
        cases h
        exact ⟨tick', outside, signer, rx, heq, hpacket.2, hdec, rfl⟩
      · cases h
    · cases h
  · cases h

theorem handledIn_packet {rx : Rx} (hin : s.link.inUse = true) (hrec : s.Receives tick)
    (hdec : tryDecodePacket c s.rx = .packet payload rx) :
    handledIn c s (tick, .poll (.packet outside signer)) =
      some ({ s with rx := rx }, payloadMem payload outside, payload) := by
  rw [handledIn, if_pos ⟨hin, hrec⟩, hdec]

theorem handledIn_none
    (hno : s.Receives tick → ∀ payload rx, tryDecodePacket c s.rx ≠ .packet payload rx) :
    handledIn c s (tick, .poll (.packet outside signer)) = none := by
  rw [handledIn]
  split
  · rename_i hpacket
    split
    · rename_i payload rx hdec
      exact absurd hdec (hno hpacket.2 payload rx)
    · rfl
  · rfl

/-- The channel once it is opened for the client. -/
def Channel.openFor (ch : Channel) (request : ChannelOpenRequest) : Channel :=
  { ch with
    opened := true
    peerId := request.peerId
    peerWindow := request.peerWindow
    peerMaxPacket := request.peerMaxPacket
    localId := 0
    cols := 80
    rows := 25 }

theorem handleChannelOpen_cases (mem : Memory)
    (hmsg : payload.head?.map messageOf = some .channelOpen) :
    (openRequest s mem payload = none ∧ Quiet s (handleChannelOpen c s mem payload).2) ∨
      ∃ request, openRequest s mem payload = some request ∧
        handleChannelOpen c s mem payload =
          queueChannelOpenConfirmation c { s with channel := s.channel.openFor request } := by
  unfold handleChannelOpen openRequest
  simp only [hmsg, true_and]
  cases hdone : s.auth.done with
  | false => exact .inl ⟨by simp, Quiet.refl s⟩
  | true =>
    simp only [Bool.not_true, Bool.false_eq_true, if_false, true_and]
    cases (channelParseOpen mem payload.length).1 with
    | none => exact .inl ⟨by simp, Quiet.refl s⟩
    | some request =>
      simp only
      by_cases hrefused : s.channel.opened = true ∨ cstr request.type ≠ ascii "session"
      · rw [if_pos hrefused]
        refine .inl ⟨?_, quiet_queueWriter (((((Writer.opens_putByte 128 92).putU32 _).putU32
          1).putCstring _).putCstring _) (by decide)⟩
        rcases hrefused with hopened | htype
        · simp [hopened]
        · simp [Option.filter, htype]
      · rw [if_neg hrefused]
        simp only [not_or, Bool.not_eq_true, ne_eq, Decidable.not_not] at hrefused
        exact .inr ⟨request, by simp [hrefused.1, Option.filter, hrefused.2], rfl⟩

/-- The message that confirms the channel: the server can take 65536 bytes. -/
def openConfirmation (ch : Channel) : List UInt8 :=
  91 :: (writeU32Be ch.peerId ++ writeU32Be ch.localId ++ writeU32Be 65536 ++ writeU32Be 1024)

theorem queueChannelOpenConfirmation_frame (c : Crypto) (s : Server) :
    ∃ rng out, (queueChannelOpenConfirmation c s).2 = { s with rng := rng, out := out } ∧
      (out.accepted = s.out.accepted ∨
        out.accepted = s.out.accepted ++ [openConfirmation s.channel]) := by
  have hmessage : queueChannelOpenConfirmation c s =
      queuePayload c s (openConfirmation s.channel) false := rfl
  rw [hmessage]
  have haccepted := queuePayload_accepted c s (openConfirmation s.channel) false
  obtain ⟨rng, out, heq, -⟩ := queuePayload_frame c s (openConfirmation s.channel) false
  rw [heq] at haccepted ⊢
  exact ⟨rng, out, rfl, haccepted⟩

theorem handleWindowAdjust_eq (mem : Memory)
    (hmsg : payload.head?.map messageOf = some .windowAdjust) :
    ∃ amount : UInt32, amount.toNat = adjustAmount s mem payload ∧
      (handleWindowAdjust s mem payload).2 =
        { s with channel := { s.channel with peerWindow := s.channel.peerWindow + amount } } := by
  unfold handleWindowAdjust adjustAmount
  simp only [hmsg, true_and]
  by_cases hsame : (payloadReader mem payload.length).getU32.1 = s.channel.localId
  · rw [if_neg (not_not.mpr hsame), if_pos hsame]
    exact ⟨_, rfl, rfl⟩
  · rw [if_pos hsame, if_neg hsame]
    exact ⟨0, rfl, by simp⟩

/-- A property of connections in use that holds of a new connection and is kept by every effect
holds along every run. -/
theorem session_invariant {P : Session → UInt32 × Phase → Prop} {J : Session → Prop}
    (hfresh : ∀ s, s.out = resetOut → s.channel = resetChannel → J ⟨s, [], 0, 0⟩)
    (hstep : ∀ x tick phase s', x.server.link.inUse = true → J x → P x (tick, .poll phase) →
      Effect c tick x.server phase s' → s'.link.inUse = true →
      J (x.after c (tick, .poll phase) s'))
    (phases : List (UInt32 × Phase)) (x : Session)
    (hrun : run (sessionStep c cfg) sessionInit phases = some x)
    (hP : Along (sessionStep c cfg) P sessionInit phases) : x.server.link.inUse = true → J x := by
  -- between connections the history is empty
  refine (run_preserves (I := fun x : Session =>
    (x.server.link.inUse = false → x = ⟨x.server, [], 0, 0⟩) ∧ (x.server.link.inUse = true → J x))
    ?_ phases sessionInit x ⟨fun _ => rfl, nofun⟩ hP hrun).2
  intro x input x' hx hinput hx'
  obtain ⟨s', hs', rfl⟩ := Option.map_eq_some_iff.mp hx'
  cases hin' : s'.link.inUse with
  | false =>
    exact ⟨fun _ => rfl, fun h => absurd h (by simp [hin'])⟩
  | true =>
    refine ⟨fun h => absurd h (by simp [Session.after, hin']), fun _ => ?_⟩
    obtain ⟨tick, phase⟩ := input
    cases phase with
    | accept child =>
      have hafter : x.after c (tick, .accept child) s' = ⟨s', x.read, x.granted, x.received⟩ := by
        simp [Session.after, readsIn, handledIn, bytesRead]
      rw [hafter]
      obtain rfl : acceptPendingConnections cfg tick x.server child = s' := Option.some.inj hs'
      unfold acceptPendingConnections at hin' ⊢
      by_cases hin : x.server.link.inUse = true
      · rw [if_pos hin]
        exact hx.2 hin
      · rw [if_neg hin] at hin' ⊢
        rw [hx.1 (by simpa using hin)]
        by_cases hchild : child = some true
        · rw [if_pos hchild]
          exact hfresh _ rfl rfl
        · rw [if_neg hchild] at hin'
          exact absurd hin' hin
    | poll phase =>
      unfold phaseStep at hs'
      simp only at hs'
      split at hs'
      · rename_i hin
        exact hstep x tick phase s' hin (hx.2 hin) hinput (effect_of_pollStep hin hs') hin'
      · rename_i hin
        rw [Option.some.inj hs'] at hin
        exact absurd hin' hin

end Steps

end Sodex.Ssh
