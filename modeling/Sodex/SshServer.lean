import Sodex.SshWire

/-!
# The SSH server of `ssh_server.c`: state, random numbers, sending, key exchange

The server has one connection, `ssh_conn`, and one random generator. The state below is
the generator and the fields of the connection, grouped by what they are for.

Not in the source are: the log of the random fills, the word the generator is at, the
payloads and bytes sent so far, the derived keys, the counts and marks of evaluated and
answered authentication requests, how the accepted request arrived, and the reason of the
close (which the source only writes to its audit log).
-/
namespace Sodex.Ssh

open CInt CtrMode Runs

inductive UseKind where
  | cookie
  | clearPadding
  | sealedPadding
  | secret
  deriving DecidableEq, Repr

/-- A fill: the first position of the stream it takes, and how many bytes. -/
structure Use where
  kind : UseKind
  first : ℕ
  len : ℕ
  deriving DecidableEq, Repr

/-- `ssh_runtime_rng_state`, with the number of words drawn since the last reset and the
log of all fills. -/
structure Rng where
  s0 : UInt32
  s1 : UInt32
  s2 : UInt32
  s3 : UInt32
  word : ℕ
  uses : List Use
  deriving DecidableEq

namespace Rng

/-- `ssh_runtime_random_rotl`. -/
def rotl (value bits : UInt32) : UInt32 := (value <<< bits) ||| (value >>> (32 - bits))

/-- `ssh_runtime_random_load_u32`. -/
def loadU32 (seed : List UInt8) (off : ℕ) : UInt32 :=
  (seed.getD off 0).toUInt32 ||| ((seed.getD (off + 1) 0).toUInt32 <<< 8) |||
    ((seed.getD (off + 2) 0).toUInt32 <<< 16) ||| ((seed.getD (off + 3) 0).toUInt32 <<< 24)

/-- `ssh_runtime_random_reset`: back to the start of the stream of the stored seed. -/
def reset (seed : List UInt8) (rng : Rng) : Rng :=
  let s0 := loadU32 seed 0 ^^^ loadU32 seed 16 ^^^ 0x9e3779b9
  let s1 := loadU32 seed 4 ^^^ loadU32 seed 20 ^^^ 0x243f6a88
  let s2 := loadU32 seed 8 ^^^ loadU32 seed 24 ^^^ 0xb7e15162
  let s3 := loadU32 seed 12 ^^^ loadU32 seed 28 ^^^ 0xdeadbeef
  if s0 ||| s1 ||| s2 ||| s3 = 0 then
    ⟨0x9e3779b9, 0x243f6a88, 0xb7e15162, 0xdeadbeef, 0, rng.uses⟩
  else ⟨s0, s1, s2, s3, 0, rng.uses⟩

/-- `ssh_runtime_random_next_u32`. -/
def nextU32 (rng : Rng) : UInt32 × Rng :=
  let result := rotl (rng.s1 * 5) 7 * 9
  let t := rng.s1 <<< 9
  let s2 := rng.s2 ^^^ rng.s0
  let s3 := rng.s3 ^^^ rng.s1
  let s1 := rng.s1 ^^^ s2
  let s0 := rng.s0 ^^^ s3
  (result, ⟨s0, s1, s2 ^^^ t, rotl s3 11, rng.word + 1, rng.uses⟩)

/-- The bytes of `n` words, least significant byte first. -/
def words : ℕ → Rng → List UInt8 × Rng
  | 0, rng => ([], rng)
  | n + 1, rng =>
    let value := rng.nextU32.1
    let rest := words n rng.nextU32.2
    (value.toUInt8 :: (value >>> 8).toUInt8 :: (value >>> 16).toUInt8 :: (value >>> 24).toUInt8 ::
      rest.1, rest.2)

/-- `ssh_runtime_random_fill`. The rest of the last word is thrown away. -/
def fill (kind : UseKind) (len : ℕ) (rng : Rng) : List UInt8 × Rng :=
  let out := words ((len + 3) / 4) rng
  (out.1.take len, { out.2 with uses := rng.uses ++ [⟨kind, 4 * rng.word, len⟩] })

end Rng

/-- The configuration that the server reads. -/
structure Config where
  password : List UInt8
  rngSeed : List UInt8
  hostkeyPublic : List UInt8
  hostkeySecret : List UInt8
  remoteSigner : Bool

structure Link where
  inUse : Bool
  closing : Bool
  closeReason : String
  lastActivityTick : UInt32
  bannerSent : Bool
  bannerReceived : Bool
  bannerBuf : List UInt8
  deriving DecidableEq

/-- The keys of a connection, as `ssh_derive_key_material` makes them. -/
structure Keys where
  rx : Cipher
  tx : Cipher
  rxMac : List UInt8
  txMac : List UInt8
  deriving DecidableEq

structure Kex where
  kexinitSent : Bool
  kexinitReceived : Bool
  newkeysSent : Bool
  newkeysReceived : Bool
  clientKexinit : List UInt8
  serverKexinit : List UInt8
  /-- `none` while `session_id_set` is false. -/
  sessionId : Option (List UInt8)
  exchangeHash : List UInt8
  derived : List Keys
  deriving DecidableEq

/-- `struct ssh_out_packet`, with its payload. -/
structure OutPacket where
  data : List UInt8
  activateTxCrypto : Bool
  payload : List UInt8
  deriving DecidableEq

/-- The sending side. The outbox lists the packets of the ring from the oldest on. -/
structure Out where
  txEncrypted : Bool
  txSeq : UInt32
  txCipher : Cipher
  txMacKey : List UInt8
  outbox : List OutPacket
  /-- The payloads that were queued with success. -/
  accepted : List (List UInt8)
  /-- The bytes handed to the socket. -/
  wire : List UInt8
  /-- A packet was queued while the outbox was full or held the server's NEWKEYS. -/
  crowded : Bool
  /-- A send took less than a whole packet. -/
  truncated : Bool
  deriving DecidableEq

/-- How a packet was read: under which cipher and authentication key, if any. -/
structure Via where
  encrypted : Bool
  cipherKey : List UInt8
  macKey : List UInt8
  deriving DecidableEq

structure Auth where
  done : Bool
  failures : ℕ
  pendingFailure : Bool
  pendingClose : Bool
  delayUntilTick : UInt32
  identitySet : Bool
  serviceReady : Bool
  username : List UInt8
  service : List UInt8
  attempts : ℕ
  answered : ℕ
  /-- A request was evaluated while a failure was pending. -/
  overlapped : Bool
  via : Option Via
  deriving DecidableEq

/-- `struct ssh_channel_state`. -/
structure Channel where
  opened : Bool
  ptyRequested : Bool
  shellStartPending : Bool
  shellStartInProgress : Bool
  shellReplyPending : Bool
  promptKickPending : Bool
  shellStartTick : UInt32
  shellStartedTick : UInt32
  txPrevCr : Bool
  closeSent : Bool
  eofSent : Bool
  exitStatusSent : Bool
  peerClose : Bool
  peerId : UInt32
  localId : UInt32
  peerWindow : UInt32
  peerMaxPacket : UInt32
  cols : UInt16
  rows : UInt16
  /-- Whether the pointer to the terminal is set. -/
  tty : Bool
  shellPid : ℤ
  deriving DecidableEq

/-- The generator and the connection. The last two fields are local variables of
`ssh_poll_connection`: whether its packet loop is still running, and `start_result`. -/
structure Server where
  rng : Rng
  link : Link
  kex : Kex
  rx : Rx
  out : Out
  auth : Auth
  channel : Channel
  looping : Bool
  startResult : ℤ
  deriving DecidableEq

def zeroCipher : Cipher := ⟨List.replicate 16 0, 0⟩

def resetChannel : Channel where
  opened := false
  ptyRequested := false
  shellStartPending := false
  shellStartInProgress := false
  shellReplyPending := false
  promptKickPending := false
  shellStartTick := 0
  shellStartedTick := 0
  txPrevCr := false
  closeSent := false
  eofSent := false
  exitStatusSent := false
  peerClose := false
  peerId := 0
  localId := 0
  peerWindow := 0
  peerMaxPacket := 1024
  cols := 80
  rows := 25
  tty := false
  shellPid := -1

def resetLink : Link := ⟨false, false, "", 0, false, false, []⟩
def resetKex : Kex := ⟨false, false, false, false, [], [], none, [], []⟩
def resetRx : Rx := ⟨[], 0, false, zeroCipher, List.replicate 32 0⟩
def resetOut : Out := ⟨false, 0, zeroCipher, List.replicate 32 0, [], [], [], false, false⟩
def resetAuth : Auth := ⟨false, 0, false, false, 0, false, false, [], [], 0, 0, false, none⟩

def resetConnection (s : Server) : Server :=
  { s with
    link := resetLink, kex := resetKex, rx := resetRx, out := resetOut, auth := resetAuth,
    channel := resetChannel }

/-- `ssh_server_init`, before anything was drawn from the generator. -/
def serverInit : Server :=
  ⟨⟨0, 0, 0, 0, 0, []⟩, resetLink, resetKex, resetRx, resetOut, resetAuth, resetChannel, false, 0⟩

def queueClose (s : Server) (reason : String) : Server :=
  if s.link.closing then s
  else { s with link := { s.link with closing := true, closeReason := reason } }

def releaseConnection (s : Server) : Server :=
  if s.link.inUse then resetConnection s else s

def SSH_PACKET_OUT_MAX : ℕ := 1460
def SSH_OUTBOX_MAX : ℕ := 8

def outboxPush (out : Out) (data : List UInt8) (activate : Bool) (payload : List UInt8) : ℤ × Out :=
  if data.length = 0 ∨ SSH_PACKET_OUT_MAX < data.length then (-1, out)
  else if SSH_OUTBOX_MAX ≤ out.outbox.length then (-1, out)
  else (0, { out with outbox := out.outbox ++ [⟨data, activate, payload⟩],
                      accepted := out.accepted ++ [payload] })

/-- The first padding length from four on that fills the last block. -/
def paddingFor (blockSize payloadLen : ℕ) : ℕ :=
  4 + (blockSize - (payloadLen + 9) % blockSize) % blockSize

def packetBytes (payload padding : List UInt8) : List UInt8 :=
  writeU32Be (payload.length + padding.length + 1).toUInt32 ++
    [padding.length.toUInt8] ++ payload ++ padding

/-- The packet as it goes out, and the sending side after it was made. -/
def sealPacket (c : Crypto) (out : Out) (plain : List UInt8) : List UInt8 × Out :=
  if out.txEncrypted then
    let mac := c.hmacSha256 out.txMacKey (writeU32Be out.txSeq ++ plain)
    let sealed := out.txCipher.xcrypt c plain
    (sealed.1 ++ mac, { out with txCipher := sealed.2, txSeq := out.txSeq + 1 })
  else (plain, { out with txSeq := out.txSeq + 1 })

/-- The length of the packet for a payload. -/
def totalLength (out : Out) (payloadLen : ℕ) : ℕ :=
  payloadLen + paddingFor (if out.txEncrypted then 16 else 8) payloadLen + 5 +
    if out.txEncrypted then SSH_CRYPTO_SHA256_BYTES else 0

/-- The queue is full, or holds the packet that will switch encryption on. -/
def Out.isCrowded (out : Out) : Bool :=
  SSH_OUTBOX_MAX ≤ out.outbox.length ∨ out.outbox.any (·.activateTxCrypto)

def queuePayload (c : Crypto) (s : Server) (payload : List UInt8) (activate : Bool) : ℤ × Server :=
  if SSH_PACKET_OUT_MAX < totalLength s.out payload.length then (-1, s)
  else
    let kind := if s.out.txEncrypted then UseKind.sealedPadding else UseKind.clearPadding
    let padding :=
      s.rng.fill kind (paddingFor (if s.out.txEncrypted then 16 else 8) payload.length)
    let packet := sealPacket c s.out (packetBytes payload padding.1)
    let pushed := outboxPush packet.2 packet.1 activate payload
    (pushed.1, { s with
      rng := padding.2
      out := { pushed.2 with crowded := s.out.crowded || s.out.isCrowded } })

/-- A payload from a writer: nothing is queued if it did not fit. -/
def queueWriter (c : Crypto) (s : Server) (w : Writer) : ℤ × Server :=
  match w.result with
  | none => (-1, s)
  | some payload => queuePayload c s payload false

def SSH_BANNER : String := "SSH-2.0-SodexSSH_0.1"

/-- The name lists of the server's KEXINIT. -/
def kexinitLists : List String :=
  ["curve25519-sha256,curve25519-sha256@libssh.org", "ssh-ed25519", "aes128-ctr", "aes128-ctr",
    "hmac-sha2-256", "hmac-sha2-256", "none", "none", "", ""]

/-- The server's KEXINIT message with a given cookie. -/
def kexinitPayload (cookie : List UInt8) : Option (List UInt8) :=
  let w := ((Writer.init SSH_PAYLOAD_MAX).putByte 20).putData cookie
  ((kexinitLists.foldl Writer.putCstring w).putBool false).putU32 0 |>.result

def buildKexinitPayload (s : Server) : ℤ × Server :=
  let cookie := s.rng.fill .cookie 16
  let s := { s with rng := cookie.2 }
  match kexinitPayload cookie.1 with
  | none => (-1, s)
  | some payload => (0, { s with kex := { s.kex with serverKexinit := payload } })

def queueKexinit (c : Crypto) (s : Server) : ℤ × Server :=
  if s.kex.kexinitSent then (0, s)
  else
    let built := buildKexinitPayload s
    if built.1 < 0 then (-1, built.2)
    else
      let queued := queuePayload c built.2 built.2.kex.serverKexinit false
      if queued.1 < 0 then (-1, queued.2)
      else (0, { queued.2 with kex := { queued.2.kex with kexinitSent := true } })

/-- The names of which the client's lists must have one, list by list. -/
def kexinitNeeds : List (List String) :=
  [["curve25519-sha256", "curve25519-sha256@libssh.org"], ["ssh-ed25519"], ["aes128-ctr"],
    ["aes128-ctr"], ["hmac-sha2-256"], ["hmac-sha2-256"], ["none"], ["none"], [], []]

/-- The loop over the client's name lists; `none` is the return of -1. -/
def readLists : Reader → List (List String) → Option Reader
  | r, [] => some r
  | r, needs :: rest =>
    let list := r.getString
    match list.1 with
    | none => none
    | some slice =>
      if needs = [] ∨ needs.any fun name =>
          namelistHas (bytesAt r.buf slice.off slice.len.toNat) (ascii name) then
        readLists list.2 rest
      else none

def parseClientKexinit (s : Server) (mem : Memory) (payload : List UInt8) : ℤ × Server :=
  if SSH_PAYLOAD_MAX < payload.length then (-1, s)
  else
    let s := { s with kex := { s.kex with clientKexinit := payload } }
    let r := payloadReader mem payload.length
    match readLists { r with pos := 16 } kexinitNeeds with
    | none => (-1, s)
    | some r =>
      let flag := r.getBool
      let r := flag.2.getU32.2
      if r.error ∨ flag.1 then (-1, s)
      else (0, { s with kex := { s.kex with kexinitReceived := true } })

def buildHostkeyBlob (cfg : Config) : Option (List UInt8) :=
  (((Writer.init 128).putCstring "ssh-ed25519").putString cfg.hostkeyPublic).result

/-- The input of one key hash in `ssh_derive_key_material`. -/
def keyInput (shared hash sessionId : List UInt8) (letter : Char) : List UInt8 :=
  ((((Writer.init 256).putMpint shared).putData hash).putByte letter.toNat.toUInt8).putData
    sessionId |>.bytes

/-- The keys of `ssh_derive_key_material`. -/
def deriveKeys (c : Crypto) (shared hash sessionId : List UInt8) : Keys where
  rx := .init (c.sha256 (keyInput shared hash sessionId 'C'))
    (c.sha256 (keyInput shared hash sessionId 'A'))
  tx := .init (c.sha256 (keyInput shared hash sessionId 'D'))
    (c.sha256 (keyInput shared hash sessionId 'B'))
  rxMac := c.sha256 (keyInput shared hash sessionId 'E')
  txMac := c.sha256 (keyInput shared hash sessionId 'F')

/-- `ssh_derive_key_material`: the new keys are in use at once, in both directions. -/
def deriveKeyMaterial (s : Server) (keys : Keys) : Server :=
  { s with
    auth := { s.auth with username := ascii "root" }
    rx := { s.rx with cipher := keys.rx, macKey := keys.rxMac }
    out := { s.out with txCipher := keys.tx, txMacKey := keys.txMac }
    kex := { s.kex with derived := s.kex.derived ++ [keys] } }

/-- What the remote signer answers to the two requests of a key exchange. -/
structure SignerReply where
  curve25519 : Option (List UInt8 × List UInt8)
  signature : Option (List UInt8)

/-- The server's public value and the shared secret, remote or local. -/
def curveResult (c : Crypto) (cfg : Config) (signer : SignerReply)
    (serverSecret clientPublic : List UInt8) : Option (List UInt8 × List UInt8) :=
  if cfg.remoteSigner then signer.curve25519
  else
    (c.curve25519Public serverSecret).bind fun serverPublic =>
      (c.curve25519Shared serverSecret clientPublic).map fun shared => (serverPublic, shared)

def exchangeInput (s : Server) (hostkey clientPublic serverPublic shared : List UInt8) :
    Option (List UInt8) :=
  let w := (Writer.init (SSH_PAYLOAD_MAX * 2 + 512)).putString (cstr s.link.bannerBuf)
  let w := (w.putCstring SSH_BANNER).putString s.kex.clientKexinit
  let w := ((w.putString s.kex.serverKexinit).putString hostkey).putString clientPublic
  ((w.putString serverPublic).putMpint shared).result

/-- The KEX_ECDH_REPLY payload. -/
def kexReply (hostkey serverPublic signature : List UInt8) : Option (List UInt8) :=
  (((Writer.init 128).putCstring "ssh-ed25519").putString signature).result.bind fun blob =>
    ((((Writer.init 256).putByte 31).putString hostkey).putString serverPublic).putString blob
      |>.result

/-- The exchange hash goes into the connection; the first one is the session identifier. -/
def setExchangeHash (s : Server) (hash : List UInt8) : Server :=
  { s with kex := { s.kex with exchangeHash := hash, sessionId := s.kex.sessionId.or (some hash) } }

/-- The end of the key exchange: the new keys, the reply and the server's NEWKEYS. -/
def finishExchange (c : Crypto) (s : Server) (shared reply : List UInt8) : ℤ × Server :=
  let s := deriveKeyMaterial s
    (deriveKeys c shared s.kex.exchangeHash (s.kex.sessionId.getD []))
  let replied := queuePayload c s reply false
  if replied.1 < 0 then (-1, replied.2)
  else
    let queued := queuePayload c replied.2 [21] true
    if queued.1 < 0 then (-1, queued.2)
    else (0, { queued.2 with kex := { queued.2.kex with newkeysSent := true } })

/-- The client's public value in a KEX_ECDH_INIT message, if it has the right length. -/
def clientPublic (mem : Memory) (payload : List UInt8) : Option (List UInt8) :=
  let r := payloadReader mem payload.length
  match r.getString.1 with
  | none => none
  | some slice => if slice.len = 32 then some (bytesAt r.buf slice.off 32) else none

def handleKexInit (c : Crypto) (cfg : Config) (signer : SignerReply) (s : Server) (mem : Memory)
    (payload : List UInt8) : ℤ × Server :=
  match clientPublic mem payload with
  | none => (-1, s)
  | some client =>
    let secret := (s.rng.reset cfg.rngSeed).fill .secret 32
    let s := { s with rng := secret.2 }
    match curveResult c cfg signer secret.1 client, buildHostkeyBlob cfg with
    | some (serverPublic, shared), some hostkey =>
      match exchangeInput s hostkey client serverPublic shared with
      | none => (-1, s)
      | some input =>
        let hash := c.sha256 input
        let s := setExchangeHash s hash
        let signature :=
          if cfg.remoteSigner then signer.signature else c.ed25519Sign cfg.hostkeySecret hash
        match signature.bind (kexReply hostkey serverPublic) with
        | none => (-1, s)
        | some reply => finishExchange c s shared reply
    | _, _ => (-1, s)

/-- Building the KEXINIT message draws the cookie; a message that is built starts with its
number. -/
theorem buildKexinitPayload_cases (s : Server) :
    buildKexinitPayload s = (-1, { s with rng := (s.rng.fill .cookie 16).2 }) ∨
      ∃ payload : List UInt8, payload.head? = some 20 ∧ buildKexinitPayload s = (0, { s with
        rng := (s.rng.fill .cookie 16).2, kex := { s.kex with serverKexinit := payload } }) := by
  unfold buildKexinitPayload
  simp only
  cases hres : kexinitPayload (s.rng.fill .cookie 16).1 with
  | none => exact .inl rfl
  | some payload =>
    refine .inr ⟨payload, ?_, rfl⟩
    have hopens := (((Writer.opens_putByte SSH_PAYLOAD_MAX 20).putData
      (s.rng.fill .cookie 16).1).putCstrings kexinitLists).putBool false |>.putU32 0
    exact hopens.result hres

/-- The state once the secret is drawn, with an exchange hash and a session identifier. -/
def drawSecret (cfg : Config) (s : Server) (hash : List UInt8) (sessionId : Option (List UInt8)) :
    Server :=
  { s with
    rng := ((s.rng.reset cfg.rngSeed).fill .secret 32).2
    kex := { s.kex with exchangeHash := hash, sessionId := sessionId } }

theorem kexReply_head {hostkey serverPublic signature reply : List UInt8}
    (h : kexReply hostkey serverPublic signature = some reply) : reply.head? = some 31 := by
  obtain ⟨blob, -, hres⟩ := Option.bind_eq_some_iff.mp h
  exact ((((Writer.opens_putByte 256 31).putString hostkey).putString serverPublic).putString
    blob).result hres

/-- Making and queueing a packet changes the generator and the sending side only. -/
theorem queuePayload_frame (c : Crypto) (s : Server) (payload : List UInt8) (activate : Bool) :
    ∃ rng out, (queuePayload c s payload activate).2 = { s with rng := rng, out := out } ∧
      out.txEncrypted = s.out.txEncrypted ∧ (s.out.txEncrypted = false →
        out.txCipher = s.out.txCipher ∧ out.txMacKey = s.out.txMacKey) := by
  unfold queuePayload
  split
  · exact ⟨s.rng, s.out, rfl, rfl, fun _ => ⟨rfl, rfl⟩⟩
  · refine ⟨_, _, rfl, ?_⟩
    have hseal (plain : List UInt8) : (sealPacket c s.out plain).2.txEncrypted = s.out.txEncrypted ∧
        (s.out.txEncrypted = false →
          (sealPacket c s.out plain).2.txCipher = s.out.txCipher ∧
          (sealPacket c s.out plain).2.txMacKey = s.out.txMacKey) := by
      unfold sealPacket
      split
      · rename_i henc
        exact ⟨rfl, fun hclear => absurd henc (by simp [hclear])⟩
      · exact ⟨rfl, fun _ => ⟨rfl, rfl⟩⟩
    have hpush (out : Out) (data : List UInt8) (a : Bool) (p : List UInt8) :
        (outboxPush out data a p).2.txEncrypted = out.txEncrypted ∧
        (outboxPush out data a p).2.txCipher = out.txCipher ∧
        (outboxPush out data a p).2.txMacKey = out.txMacKey := by
      unfold outboxPush
      split
      · exact ⟨rfl, rfl, rfl⟩
      · split <;> exact ⟨rfl, rfl, rfl⟩
    simp only [hpush]
    exact hseal _

/-- What a KEX_ECDH_INIT message can do: nothing if it has no public value of the right
length; otherwise a secret is drawn, and the exchange fails or is finished. -/
theorem handleKexInit_cases (c : Crypto) (cfg : Config) (signer : SignerReply) (s : Server)
    (mem : Memory) (payload : List UInt8) :
    (clientPublic mem payload = none ∧ handleKexInit c cfg signer s mem payload = (-1, s)) ∨
      clientPublic mem payload ≠ none ∧ ∃ hash sessionId,
        handleKexInit c cfg signer s mem payload = (-1, drawSecret cfg s hash sessionId) ∨
        ∃ shared reply, reply.head? = some 31 ∧ handleKexInit c cfg signer s mem payload =
          finishExchange c (drawSecret cfg s hash sessionId) shared reply := by
  unfold handleKexInit
  cases clientPublic mem payload with
  | none => exact .inl ⟨rfl, rfl⟩
  | some client =>
    refine .inr ⟨nofun, ?_⟩
    simp only
    split
    · split
      · exact ⟨s.kex.exchangeHash, s.kex.sessionId, .inl rfl⟩
      · split
        · exact ⟨_, _, .inl rfl⟩
        · rename_i reply hreply
          refine ⟨_, _, .inr ⟨_, reply, ?_, rfl⟩⟩
          obtain ⟨signature, -, hreply⟩ := Option.bind_eq_some_iff.mp hreply
          exact kexReply_head hreply
    · exact ⟨s.kex.exchangeHash, s.kex.sessionId, .inl rfl⟩

end Sodex.Ssh
