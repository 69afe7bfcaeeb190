import Sodex.SshServer

/-!
# The SSH server of `ssh_server.c`: messages and the poll

The handlers of the messages, and `ssh_server_tick` as a sequence of phases. What the
sockets, the terminal, the processes and the remote signer answer is input.
-/
namespace Sodex.Ssh

open CInt CtrMode Runs

def SSH_AUTH_RETRY_LIMIT : ℕ := 3
def SSH_AUTH_FAILURE_DELAY_TICKS : UInt32 := 20

/-- A difference of ticks as the source compares it. -/
def tickDiff (later earlier : UInt32) : ℤ := toInt (later - earlier).toNat

def authFailureDelayPending (now until_ : UInt32) : Prop := until_ ≠ 0 ∧ 0 < tickDiff until_ now

instance (now until_ : UInt32) : Decidable (authFailureDelayPending now until_) :=
  inferInstanceAs (Decidable (_ ∧ _))

def queueUserauthFailure (c : Crypto) (s : Server) : ℤ × Server :=
  queueWriter c s ((((Writer.init 64).putByte 51).putCstring "password").putBool false)

def flushAuthPending (c : Crypto) (tick : UInt32) (s : Server) : ℤ × Server :=
  if s.auth.delayUntilTick = 0 then (0, s)
  else if authFailureDelayPending tick s.auth.delayUntilTick then (0, s)
  else if s.auth.pendingClose then
    let s := { s with auth := { s.auth with delayUntilTick := 0, pendingClose := false } }
    (1, queueClose s "auth_retry_limit")
  else if s.auth.pendingFailure then
    let queued := queueUserauthFailure c { s with auth := { s.auth with
      delayUntilTick := 0, pendingFailure := false } }
    (queued.1, if queued.1 = 0 then { queued.2 with auth := { queued.2.auth with
      answered := queued.2.auth.answered + 1 } } else queued.2)
  else (0, { s with auth := { s.auth with delayUntilTick := 0 } })

def handleAuthFailure (tick : UInt32) (s : Server) : Server :=
  let failures := s.auth.failures + 1
  let close := SSH_AUTH_RETRY_LIMIT ≤ failures
  { s with auth := { s.auth with
    failures := failures
    delayUntilTick := tick + SSH_AUTH_FAILURE_DELAY_TICKS
    pendingClose := close
    pendingFailure := ¬close } }

def authParseServiceRequest (mem : Memory) (payload : List UInt8) : Option (List UInt8) :=
  let r := payloadReader mem payload.length
  if payload.length ≤ 1 then none else copyText r.buf SSH_AUTH_TEXT_MAX r.getString.1

def handleServiceRequest (c : Crypto) (s : Server) (mem : Memory) (payload : List UInt8) :
    ℤ × Server :=
  match authParseServiceRequest mem payload with
  | none => (-1, s)
  | some name =>
    let accept (s : Server) :=
      queueWriter c s (((Writer.init 64).putByte 6).putString (cstr name))
    if cstr name = ascii "ssh-userauth" then
      accept { s with auth := { s.auth with serviceReady := true } }
    else if s.auth.done ∧ cstr name = ascii "ssh-connection" then accept s
    else (-1, s)

/-- `ssh_auth_password_request_matches` for the user and service of this server. -/
def passwordMatches (cfg : Config) (mem : Memory) (request : AuthRequest) : Bool :=
  match request.password with
  | none => false
  | some slice =>
    !request.changeRequest ∧ cstr request.method = ascii "password" ∧
      cstr request.username = ascii "root" ∧ cstr request.service = ascii "ssh-connection" ∧
      slice.len = cfg.password.length ∧
      bytesAt (fun i => mem (i + 1)) slice.off cfg.password.length = cfg.password

/-- The evaluation of a request whose identity is in order. -/
def evaluateRequest (c : Crypto) (cfg : Config) (tick : UInt32) (s : Server) (mem : Memory)
    (request : AuthRequest) : ℤ × Server :=
  let s := { s with auth := { s.auth with
    attempts := s.auth.attempts + 1
    overlapped := s.auth.overlapped || s.auth.pendingFailure || s.auth.pendingClose } }
  if passwordMatches cfg mem request then
    queuePayload c { s with auth := { s.auth with
      done := true, pendingFailure := false, pendingClose := false, delayUntilTick := 0
      username := cstr request.username
      via := some ⟨s.rx.encrypted, s.rx.cipher.key, s.rx.macKey⟩ } } [52] false
  else (0, handleAuthFailure tick s)

/-- No request is looked at while a failure has to be answered. -/
def Auth.Busy (auth : Auth) (tick : UInt32) : Prop :=
  auth.pendingFailure = true ∨ auth.pendingClose = true ∨
    authFailureDelayPending tick auth.delayUntilTick

instance (auth : Auth) (tick : UInt32) : Decidable (auth.Busy tick) :=
  inferInstanceAs (Decidable (_ ∨ _ ∨ _))

def handleUserauthRequest (c : Crypto) (cfg : Config) (tick : UInt32) (s : Server) (mem : Memory)
    (payload : List UInt8) : ℤ × Server :=
  if !s.auth.serviceReady then (-1, s)
  else if s.auth.Busy tick then (0, s)
  else
    match (authParseRequest mem payload.length).1 with
    | none => (-1, s)
    | some request =>
      if !s.auth.identitySet then
        evaluateRequest c cfg tick { s with auth := { s.auth with
          identitySet := true, username := cstr request.username,
          service := cstr request.service } } mem request
      else if s.auth.username = cstr request.username ∧ s.auth.service = cstr request.service then
        evaluateRequest c cfg tick s mem request
      else (0, queueClose s "auth_identity_changed")

/-- The first bytes of most channel messages: the number and the peer's channel. -/
def channelMessage (s : Server) (cap : ℕ) (number : UInt8) : Writer :=
  ((Writer.init cap).putByte number).putU32 s.channel.peerId

def queueChannelOpenConfirmation (c : Crypto) (s : Server) : ℤ × Server :=
  queueWriter c s
    ((((channelMessage s 32 91).putU32 s.channel.localId).putU32 65536).putU32 1024)

def queueChannelOpenFailure (c : Crypto) (s : Server) (recipient : UInt32) (reason : String) :
    ℤ × Server :=
  queueWriter c s (((((Writer.init 128).putByte 92).putU32 recipient).putU32 1).putCstring
    reason |>.putCstring "")

def queueChannelStatus (c : Crypto) (s : Server) (success : Bool) : ℤ × Server :=
  queueWriter c s (channelMessage s 8 (if success then 99 else 100))

def queueRequestFailure (c : Crypto) (s : Server) : ℤ × Server := queuePayload c s [82] false

def queueChannelData (c : Crypto) (s : Server) (data : List UInt8) : ℤ × Server :=
  queueWriter c s ((channelMessage s SSH_PAYLOAD_MAX 94).putString data)

def queueChannelEof (c : Crypto) (s : Server) : ℤ × Server :=
  if s.channel.eofSent then (0, s)
  else queueWriter c { s with channel := { s.channel with eofSent := true } } (channelMessage s 8 96)

def queueChannelClose (c : Crypto) (s : Server) : ℤ × Server :=
  if s.channel.closeSent then (0, s)
  else
    queueWriter c { s with channel := { s.channel with closeSent := true } } (channelMessage s 8 97)

def queueExitStatus (c : Crypto) (s : Server) (status : UInt32) : ℤ × Server :=
  if s.channel.exitStatusSent then (0, s)
  else
    queueWriter c { s with channel := { s.channel with exitStatusSent := true } }
      ((((channelMessage s 64 98).putCstring "exit-status").putBool false).putU32 status)

def handleChannelOpen (c : Crypto) (s : Server) (mem : Memory) (payload : List UInt8) :
    ℤ × Server :=
  if !s.auth.done then (-1, s)
  else
    match (channelParseOpen mem payload.length).1 with
    | none => (-1, s)
    | some request =>
      if s.channel.opened ∨ cstr request.type ≠ ascii "session" then
        queueChannelOpenFailure c s request.peerId "session_only"
      else
        queueChannelOpenConfirmation c { s with channel := { s.channel with
          opened := true
          peerId := request.peerId
          peerWindow := request.peerWindow
          peerMaxPacket := request.peerMaxPacket
          localId := 0
          cols := 80
          rows := 25 } }

def spawnShell (tick : UInt32) (channel : Channel) : Channel :=
  if channel.tty ∧ 0 < channel.shellPid then channel
  else if channel.shellStartPending ∨ channel.shellStartInProgress then channel
  else { channel with shellStartPending := true, shellStartTick := tick + 1 }

def handleChannelRequest (c : Crypto) (tick : UInt32) (s : Server) (mem : Memory)
    (payload : List UInt8) : ℤ × Server :=
  match (channelParseRequest mem payload.length).1 with
  | none => (-1, s)
  | some request =>
    let reply (s : Server) (success : Bool) :=
      if request.wantReply then queueChannelStatus c s success else (0, s)
    if !s.channel.opened ∨ request.recipient ≠ s.channel.localId then (-1, s)
    else
      match request.kind with
      | .pty => reply { s with channel := { s.channel with
          cols := request.cols, rows := request.rows, ptyRequested := true } } true
      | .windowChange => reply { s with channel := { s.channel with
          cols := request.cols, rows := request.rows } } true
      | .shell => (0, { s with channel := { spawnShell tick s.channel with
          shellReplyPending := request.wantReply } })
      | .unknown => reply s false

/-- `ssh_handle_channel_data`; what goes to the terminal is not part of the model. -/
def handleChannelData (tick : UInt32) (s : Server) (mem : Memory) (payload : List UInt8) :
    ℤ × Server :=
  match (channelParseData mem payload.length).1 with
  | none => (-1, s)
  | some request =>
    if !s.channel.opened ∨ request.recipient ≠ s.channel.localId then (-1, s)
    else if !s.channel.tty then (0, s)
    else (0, { s with link := { s.link with lastActivityTick := tick } })

/-- The payload in the decode buffer; `outside` is the memory around it. -/
def payloadMem (payload : List UInt8) (outside : Memory) : Memory := fun i =>
  if 0 ≤ i ∧ i < payload.length then payload.getD i.toNat 0 else outside i

/-- SSH_MSG_GLOBAL_REQUEST. -/
def handleGlobalRequest (c : Crypto) (s : Server) (mem : Memory) (payload : List UInt8) :
    ℤ × Server :=
  let r := (payloadReader mem payload.length).getString.2
  if r.getBool.1 then queueRequestFailure c s else (0, s)

/-- SSH_MSG_CHANNEL_WINDOW_ADJUST. -/
def handleWindowAdjust (s : Server) (mem : Memory) (payload : List UInt8) : ℤ × Server :=
  let recipient := (payloadReader mem payload.length).getU32
  if recipient.1 ≠ s.channel.localId then (-1, s)
  else
    let amount := recipient.2.getU32
    (if amount.2.error then -1 else 0,
      { s with channel := { s.channel with peerWindow := s.channel.peerWindow + amount.1 } })

/-- SSH_MSG_CHANNEL_CLOSE. -/
def handleChannelClose (c : Crypto) (s : Server) : ℤ × Server :=
  let closed := queueChannelClose c { s with channel := { s.channel with peerClose := true } }
  if closed.1 < 0 then (-1, closed.2) else (0, queueClose closed.2 "peer_close")

/-- SSH_MSG_NEWKEYS. -/
def handleNewkeys (s : Server) : Server :=
  { s with kex := { s.kex with newkeysReceived := true }, rx := { s.rx with encrypted := true } }

inductive Message where
  | disconnect
  | ignored
  | kexinit
  | kexEcdhInit
  | newkeys
  | serviceRequest
  | userauthRequest
  | globalRequest
  | channelOpen
  | windowAdjust
  | channelData
  | channelEof
  | channelClose
  | channelRequest
  | other
  deriving DecidableEq, Repr

def messageOf (number : UInt8) : Message :=
  if number = 1 then .disconnect
  else if number = 2 ∨ number = 3 then .ignored
  else if number = 20 then .kexinit
  else if number = 30 then .kexEcdhInit
  else if number = 21 then .newkeys
  else if number = 5 then .serviceRequest
  else if number = 50 then .userauthRequest
  else if number = 80 then .globalRequest
  else if number = 90 then .channelOpen
  else if number = 93 then .windowAdjust
  else if number = 94 then .channelData
  else if number = 96 then .channelEof
  else if number = 97 then .channelClose
  else if number = 98 then .channelRequest
  else .other

def handlePayload (c : Crypto) (cfg : Config) (tick : UInt32) (signer : SignerReply) (s : Server)
    (mem : Memory) (payload : List UInt8) : ℤ × Server :=
  match payload with
  | [] => (-1, s)
  | number :: _ =>
    match messageOf number with
    | .disconnect => (0, queueClose s "peer_disconnect")
    | .ignored | .channelEof => (0, s)
    | .kexinit => parseClientKexinit s mem payload
    | .kexEcdhInit => handleKexInit c cfg signer s mem payload
    | .newkeys => (0, handleNewkeys s)
    | .serviceRequest => handleServiceRequest c s mem payload
    | .userauthRequest => handleUserauthRequest c cfg tick s mem payload
    | .globalRequest => handleGlobalRequest c s mem payload
    | .channelOpen => handleChannelOpen c s mem payload
    | .windowAdjust => handleWindowAdjust s mem payload
    | .channelData => handleChannelData tick s mem payload
    | .channelClose => handleChannelClose c s
    | .channelRequest => handleChannelRequest c tick s mem payload
    | .other => (-1, s)

def protocolCloseReason (payload : List UInt8) : String :=
  match payload with
  | [] => "protocol_error"
  | number :: _ =>
    match messageOf number with
    | .kexinit => "kexinit_invalid"
    | .kexEcdhInit => "kex_failed"
    | .newkeys => "newkeys_invalid"
    | _ => "protocol_error"

def SSH_RX_BUFFER_SIZE : ℕ := 4096
def SSH_BANNER_MAX : ℕ := 128

def appendRx (s : Server) (data : List UInt8) : ℤ × Server :=
  if SSH_RX_BUFFER_SIZE < s.rx.buf.length + data.length then (-1, s)
  else (0, { s with rx := { s.rx with buf := s.rx.buf ++ data } })

/-- The line without its end. -/
def stripLine (line : List UInt8) : List UInt8 :=
  (line.reverse.dropWhile fun b => b = 10 ∨ b = 13).reverse

/-- The banner is complete: the rest of the chunk are packets, and the server's KEXINIT goes
out. -/
def finishBanner (c : Crypto) (s : Server) (line rest : List UInt8) : ℤ × Server :=
  let s := { s with link := { s.link with bannerBuf := stripLine line } }
  if (cstr (stripLine line)).take 8 ≠ ascii "SSH-2.0-" then (-1, s)
  else
    let s := { s with link := { s.link with bannerReceived := true } }
    let appended := if rest = [] then (0, s) else appendRx s rest
    if appended.1 < 0 then (-1, appended.2) else queueKexinit c appended.2

/-- The loop of `ssh_pump_banner` over a chunk. -/
def bannerLoop (c : Crypto) (s : Server) : List UInt8 → ℤ × Server
  | [] => (0, s)
  | b :: rest =>
    if SSH_BANNER_MAX - 1 ≤ s.link.bannerBuf.length then (-1, s)
    else if b = 10 then finishBanner c s (s.link.bannerBuf ++ [b]) rest
    else bannerLoop c { s with link := { s.link with bannerBuf := s.link.bannerBuf ++ [b] } } rest

def SSH_TTY_READ_CHUNK : ℕ := 4096
def SSH_TTY_COOKED_CHUNK : ℕ := 8192
def SSH_TTY_DRAIN_BUDGET : ℕ := 16384

/-- The reply to a shell request, if the client asked for one; otherwise the result is
`unasked`. -/
def shellReply (c : Crypto) (s : Server) (success : Bool) (unasked : ℤ) : ℤ × Server :=
  if s.channel.shellReplyPending then
    queueChannelStatus c { s with channel := { s.channel with shellReplyPending := false } } success
  else (unasked, s)

/-- `ssh_start_pending_shell`; `tty` says whether a terminal can be allocated, `pid` is what
the start of the shell returns. -/
def startPendingShell (c : Crypto) (tick : UInt32) (s : Server) (tty : Bool) (pid : ℤ) :
    ℤ × Server :=
  let ch := s.channel
  if !ch.shellStartPending ∨ ch.shellStartInProgress then (0, s)
  else if tickDiff tick ch.shellStartTick < 0 then (0, s)
  else if ch.tty ∧ 0 < ch.shellPid then
    shellReply c { s with channel := { ch with shellStartPending := false, shellStartTick := 0 } }
      true 1
  else if !tty ∨ pid < 0 then
    shellReply c { s with channel := { ch with shellStartPending := false, shellStartTick := 0 } }
      false (-1)
  else
    let started := shellReply c { s with channel := { ch with
      tty := true
      shellPid := pid
      shellStartPending := false
      shellStartTick := 0
      shellStartedTick := tick
      promptKickPending := true } } true 1
    if started.1 < 0 then (-1, started.2) else (1, started.2)

def channelDataCap (ch : Channel) : ℕ :=
  min (min (min ch.peerMaxPacket.toNat 1200) ch.peerWindow.toNat) (SSH_PAYLOAD_MAX - 16)

/-- `ssh_translate_tty_chunk`: the output, what is left of the input, and whether the last
byte taken was a carriage return. -/
def translateTtyChunk (prevCr : Bool) : ℕ → List UInt8 → List UInt8 × List UInt8 × Bool
  | 0, src => ([], src, prevCr)
  | _, [] => ([], [], prevCr)
  | cap + 1, ch :: src =>
    if ch = 10 ∧ !prevCr then
      match cap with
      | 0 => ([], ch :: src, prevCr)
      | cap + 1 =>
        let out := translateTtyChunk false cap src
        (13 :: 10 :: out.1, out.2)
    else
      let out := translateTtyChunk (ch = 13) cap src
      (ch :: out.1, out.2)

/-- The inner loop of `ssh_pump_tty_to_channel` over what one read returned. The flag says
that the function has returned. -/
def sendChunks (c : Crypto) (tick : UInt32) : ℕ → Server → List UInt8 → Bool × Server
  | 0, s, _ => (false, s)
  | fuel + 1, s, raw =>
    if raw = [] ∨ SSH_OUTBOX_MAX ≤ s.out.outbox.length ∨ s.channel.peerWindow = 0 then (false, s)
    else
      let cap := min (channelDataCap s.channel) SSH_TTY_COOKED_CHUNK
      let out := translateTtyChunk s.channel.txPrevCr cap raw
      let s := { s with channel := { s.channel with txPrevCr := out.2.2 } }
      if out.1 = [] then (false, s)
      else
        let queued := queueChannelData c s out.1
        if queued.1 < 0 then (true, queueClose queued.2 "queue_failed")
        else
          let s := queued.2
          sendChunks c tick fuel { s with
            channel := { s.channel with
              peerWindow := s.channel.peerWindow - out.1.length.toUInt32 }
            link := { s.link with lastActivityTick := tick } } out.2.1

/-- The bytes that the next read of the terminal asks for. -/
def rawCap (s : Server) (readBytes : ℕ) : ℕ :=
  min (min (max (channelDataCap s.channel / 2) 1 * (SSH_OUTBOX_MAX - s.out.outbox.length))
    SSH_TTY_READ_CHUNK) (SSH_TTY_DRAIN_BUDGET - readBytes)

/-- The outer loop ends before it reads: the outbox is full, the peer takes no more, or the
budget of the tick is spent. -/
def PumpStops (s : Server) (readBytes budget : ℕ) : Prop :=
  SSH_OUTBOX_MAX ≤ s.out.outbox.length ∨ s.channel.peerWindow = 0 ∨ budget = 0 ∨
    channelDataCap s.channel = 0 ∨ rawCap s readBytes = 0

instance (s : Server) (readBytes budget : ℕ) : Decidable (PumpStops s readBytes budget) :=
  inferInstanceAs (Decidable (_ ∨ _ ∨ _ ∨ _ ∨ _))

/-- A read that returns nothing; the first one wakes the shell for its prompt. -/
def idleRead (tick : UInt32) (s : Server) (readBytes : ℕ) : Server :=
  if readBytes = 0 ∧ s.channel.promptKickPending ∧
      1 ≤ tickDiff tick s.channel.shellStartedTick then
    { s with channel := { s.channel with promptKickPending := false } }
  else s

/-- The outer loop of `ssh_pump_tty_to_channel`. The list holds what the reads of the
terminal return, `budget` is the value of `tick_budget`. -/
def pumpLoop (c : Crypto) (tick : UInt32) : List (List UInt8) → Server → ℕ → ℕ → Server
  | [], s, readBytes, budget =>
    if PumpStops s readBytes budget then s else idleRead tick s readBytes
  | read :: reads, s, readBytes, budget =>
    if PumpStops s readBytes budget then s
    else
      let raw := read.take (rawCap s readBytes)
      if raw = [] then idleRead tick s readBytes
      else
        let sent := sendChunks c tick (raw.length + 1)
          { s with channel := { s.channel with promptKickPending := false } } raw
        if sent.1 then sent.2
        else
          pumpLoop c tick reads sent.2 (readBytes + raw.length) (SSH_TTY_DRAIN_BUDGET - readBytes)

def pumpTtyToChannel (c : Crypto) (tick : UInt32) (s : Server) (blocked : Bool)
    (reads : List (List UInt8)) : Server :=
  if !s.channel.opened ∨ !s.channel.tty then s
  else if SSH_OUTBOX_MAX ≤ s.out.outbox.length then s
  else if s.channel.peerWindow = 0 then s
  else if s.channel.promptKickPending ∧ (blocked ∨ s.out.outbox ≠ [] ∨
      tickDiff tick s.channel.shellStartedTick < 2) then s
  else pumpLoop c tick reads s 0 SSH_TTY_DRAIN_BUDGET

/-- `ssh_poll_shell`; `alive` says whether the shell still runs. The results of the three
sends are not looked at. -/
def pollShell (c : Crypto) (s : Server) (alive : Bool) : Server :=
  if s.channel.shellPid ≤ 0 ∨ alive then s
  else
    let s := { s with channel := { s.channel with
      tty := false, shellPid := -1, promptKickPending := false } }
    -- `ssh_channel_plan_shutdown`: the plan is made before anything is sent.
    let plan := s.channel
    let s := if plan.exitStatusSent then s else (queueExitStatus c s 0).2
    let s := if plan.eofSent then s else (queueChannelEof c s).2
    let s := if plan.closeSent then s else (queueChannelClose c s).2
    queueClose s "shell_exit"

/-- `ssh_timeout_phase`, `ssh_timeout_ticks_for_phase` and
`ssh_timeout_close_reason_for_phase`. -/
def timeoutPhase (s : Server) : ℤ × String :=
  if !s.auth.done then (1000, "auth_timeout")
  else if !s.channel.opened ∨ ¬(0 < s.channel.shellPid ∨ s.channel.tty) then
    (2000, "no_channel_timeout")
  else (6000, "idle_timeout")

/-- The phases of `ssh_poll_connection`, with what the environment answers in each. -/
inductive PollPhase where
  /-- The start: a closed socket, the timeouts. -/
  | begin (socketClosed : Bool)
  /-- `ssh_send_banner`. -/
  | sendBanner (blocked sent : Bool)
  /-- `ssh_pump_banner`, with what the socket has. -/
  | pumpBanner (chunk : List UInt8)
  /-- `ssh_pump_rx`. -/
  | pumpRx (chunk : List UInt8)
  /-- `ssh_flush_auth_pending`, and the start of the packet loop. -/
  | authPending
  /-- A turn of the packet loop. -/
  | packet (outside : Memory) (signer : SignerReply)
  /-- `ssh_start_pending_shell`. -/
  | startShell (tty : Bool) (pid : ℤ)
  /-- `ssh_pump_tty_to_channel` and `ssh_poll_shell`. -/
  | shell (blocked : Bool) (reads : List (List UInt8)) (alive : Bool)
  /-- `ssh_flush_outbox`; `sent` is the result of the send, `none` an error. -/
  | flush (blocked : Bool) (sent : Option ℕ)
  /-- The end: a closing connection goes when all is sent. -/
  | finish (blocked : Bool)

/-- The phases of `ssh_server_tick`. -/
inductive Phase where
  /-- `ssh_accept_pending_connections`: is there a connection, and may its peer connect. -/
  | accept (child : Option Bool)
  | poll (phase : PollPhase)

def acceptPendingConnections (cfg : Config) (tick : UInt32) (s : Server) (child : Option Bool) :
    Server :=
  if s.link.inUse then s
  else if child = some true then
    let s := resetConnection s
    { s with
      link := { s.link with inUse := true, lastActivityTick := tick }
      rng := s.rng.reset cfg.rngSeed }
  else s

/-- The start of `ssh_poll_connection`. -/
def beginPoll (tick : UInt32) (s : Server) (socketClosed : Bool) : Server :=
  if socketClosed then releaseConnection s
  else if !s.link.closing ∧ (timeoutPhase s).1 < tickDiff tick s.link.lastActivityTick then
    queueClose s (timeoutPhase s).2
  else s

/-- `ssh_send_banner`, and the close when it fails. -/
def sendBanner (tick : UInt32) (s : Server) (blocked sent : Bool) : Server :=
  if s.link.bannerSent ∨ blocked then s
  else if sent then
    { s with link := { s.link with bannerSent := true, lastActivityTick := tick } }
  else queueClose s "banner_failed"

/-- `ssh_pump_banner`, and the close when it fails. -/
def pumpBanner (c : Crypto) (tick : UInt32) (s : Server) (chunk : List UInt8) : Server :=
  if s.link.closing ∨ s.link.bannerReceived ∨ chunk = [] then s
  else
    let s := { s with link := { s.link with lastActivityTick := tick } }
    let pumped := bannerLoop c s (chunk.take 256)
    if pumped.1 < 0 then queueClose pumped.2 "banner_invalid" else pumped.2

/-- `ssh_pump_rx`, and the close when it fails. -/
def pumpRx (tick : UInt32) (s : Server) (chunk : List UInt8) : Server :=
  if s.link.closing ∨ !s.link.bannerReceived ∨ chunk = [] then s
  else
    let appended := appendRx s (chunk.take 256)
    if appended.1 < 0 then queueClose appended.2 "rx_overflow"
    else { appended.2 with link := { appended.2.link with lastActivityTick := tick } }

/-- The flush of a pending authentication failure. -/
def pollAuthPending (c : Crypto) (tick : UInt32) (s : Server) : Server :=
  let s := { s with looping := true, startResult := 0 }
  if s.link.closing then s
  else
    let flushed := flushAuthPending c tick s
    if flushed.1 < 0 then queueClose flushed.2 "queue_failed" else flushed.2

/-- The condition of the packet loop, and the check at its start. -/
def Server.Receives (s : Server) (tick : UInt32) : Prop :=
  s.looping = true ∧ s.link.closing = false ∧ s.link.bannerReceived = true ∧
    ¬authFailureDelayPending tick s.auth.delayUntilTick

instance (s : Server) (tick : UInt32) : Decidable (s.Receives tick) :=
  inferInstanceAs (Decidable (_ ∧ _ ∧ _ ∧ _))

/-- A turn of the packet loop. There is no result when a decoder copies outside its
buffers. -/
def pollPacket (c : Crypto) (cfg : Config) (tick : UInt32) (s : Server) (outside : Memory)
    (signer : SignerReply) : Option Server :=
  if s.Receives tick then
    match tryDecodePacket c s.rx with
    | .wild => none
    | .wait => some { s with looping := false }
    | .invalid rx => some { queueClose { s with rx := rx } "packet_invalid" with looping := false }
    | .packet payload rx =>
      let handled :=
        handlePayload c cfg tick signer { s with rx := rx } (payloadMem payload outside) payload
      if handled.1 < 0 then
        some { queueClose handled.2 (protocolCloseReason payload) with looping := false }
      else some handled.2
  else some { s with looping := false }

/-- The start of a requested shell, and the close when it fails. -/
def pollStartShell (c : Crypto) (tick : UInt32) (s : Server) (tty : Bool) (pid : ℤ) : Server :=
  if s.link.closing then s
  else
    let started := startPendingShell c tick s tty pid
    let s := { started.2 with startResult := started.1 }
    if started.1 < 0 then queueClose s "spawn_failed" else s

def flushOutbox (s : Server) (blocked : Bool) (sent : Option ℕ) : Server :=
  match s.out.outbox with
  | [] => s
  | packet :: rest =>
    if blocked then s
    else
      match sent with
      | none => queueClose s "send_failed"
      | some n => { s with out := { s.out with
          txEncrypted := s.out.txEncrypted || packet.activateTxCrypto
          outbox := rest
          wire := s.out.wire ++ packet.data.take n
          truncated := s.out.truncated || n < packet.data.length } }

/-- `ssh_pump_tty_to_channel` and `ssh_poll_shell`, unless a shell was just started. -/
def pollTty (c : Crypto) (tick : UInt32) (s : Server) (blocked : Bool) (reads : List (List UInt8))
    (alive : Bool) : Server :=
  if s.link.closing ∨ s.startResult ≠ 0 then s
  else pollShell c (pumpTtyToChannel c tick s blocked reads) alive

/-- The end of `ssh_poll_connection`. -/
def finishPoll (s : Server) (blocked : Bool) : Server :=
  if s.link.closing ∧ s.out.outbox = [] ∧ !blocked then releaseConnection s else s

/-- A phase of `ssh_poll_connection`. -/
def pollStep (c : Crypto) (cfg : Config) (tick : UInt32) (s : Server) : PollPhase → Option Server
  | .begin socketClosed => some (beginPoll tick s socketClosed)
  | .sendBanner blocked sent => some (sendBanner tick s blocked sent)
  | .pumpBanner chunk => some (pumpBanner c tick s chunk)
  | .pumpRx chunk => some (pumpRx tick s chunk)
  | .authPending => some (pollAuthPending c tick s)
  | .packet outside signer => pollPacket c cfg tick s outside signer
  | .startShell tty pid => some (pollStartShell c tick s tty pid)
  | .shell blocked reads alive => some (pollTty c tick s blocked reads alive)
  | .flush blocked sent => some (flushOutbox s blocked sent)
  | .finish blocked => some (finishPoll s blocked)

/-- One phase of a tick. Only a connection in use is polled. -/
def phaseStep (c : Crypto) (cfg : Config) (s : Server) : UInt32 × Phase → Option Server
  | (tick, .accept child) => some (acceptPendingConnections cfg tick s child)
  | (tick, .poll phase) => if s.link.inUse then pollStep c cfg tick s phase else some s

/-- What the environment answers in a whole tick. -/
structure TickInput where
  tick : UInt32
  child : Option Bool
  socketClosed : Bool
  bannerBlocked : Bool
  bannerSent : Bool
  bannerChunk : List UInt8
  chunk : List UInt8
  outside : ℕ → Memory
  signer : ℕ → SignerReply
  tty : Bool
  pid : ℤ
  shellBlocked : Bool
  reads : List (List UInt8)
  alive : Bool
  flushBlocked : Bool
  sent : Option ℕ
  finishBlocked : Bool

/-- `ssh_poll_connection` as its phases; the packet loop makes at most eight turns. -/
def pollPhases (i : TickInput) : List PollPhase :=
  [.begin i.socketClosed, .sendBanner i.bannerBlocked i.bannerSent, .pumpBanner i.bannerChunk,
      .pumpRx i.chunk, .authPending] ++
    (List.range 8).map (fun k => .packet (i.outside k) (i.signer k)) ++
    [.startShell i.tty i.pid, .shell i.shellBlocked i.reads i.alive, .flush i.flushBlocked i.sent,
      .finish i.finishBlocked]

/-- `ssh_server_tick` as its phases. -/
def tickPhases (i : TickInput) : List (UInt32 × Phase) :=
  (i.tick, .accept i.child) :: (pollPhases i).map fun phase => (i.tick, .poll phase)

def runPhases (inputs : List TickInput) : List (UInt32 × Phase) := inputs.flatMap tickPhases

end Sodex.Ssh
