import Sodex.CInt
import Sodex.Runs

/-!
# The wire reader of `ssh_packet_core.c` and its users

The reader walks over a buffer that the peer filled. Memory is a function from
offsets, relative to the buffer, to bytes, so that a read outside the buffer still
yields some byte. The reader keeps a record of every range it has read or handed out;
the source has no such field.
-/
namespace Sodex.Ssh

open CInt Runs

/-- The bytes of a text without its terminating zero. -/
def ascii (text : String) : List UInt8 := text.toList.map fun c => c.toNat.toUInt8

/-- A byte buffer as a C string: up to the first zero. -/
def cstr (text : List UInt8) : List UInt8 := text.takeWhile (· ≠ 0)

abbrev Memory := ℤ → UInt8

def bytesAt (buf : Memory) (off : ℤ) (len : ℕ) : List UInt8 :=
  (List.range len).map fun i : ℕ => buf (off + i)

def readU32Be (buf : Memory) (off : ℤ) : UInt32 :=
  ((buf off).toUInt32 <<< 24) ||| ((buf (off + 1)).toUInt32 <<< 16) |||
    ((buf (off + 2)).toUInt32 <<< 8) ||| (buf (off + 3)).toUInt32

/-- A range of the buffer: offset and length. -/
structure Slice where
  off : ℤ
  len : ℤ
  deriving DecidableEq, Repr

/-- `struct ssh_reader`, with the ranges read or handed out so far. -/
structure Reader where
  buf : Memory
  len : ℤ
  pos : ℤ
  error : Bool
  exposed : List Slice

namespace Reader

def init (buf : Memory) (len : ℤ) : Reader := ⟨buf, len, 0, false, []⟩

def fail (r : Reader) : Reader := { r with error := true }

/-- Step over `n` bytes and record that they were read. -/
def advance (r : Reader) (n : ℤ) : Reader :=
  { r with pos := toInt (r.pos + n), exposed := ⟨r.pos, n⟩ :: r.exposed }

def getByte (r : Reader) : UInt8 × Reader :=
  if r.error ∨ r.len < toInt (r.pos + 1) then (0, r.fail) else (r.buf r.pos, r.advance 1)

def getBool (r : Reader) : Bool × Reader := (r.getByte.1 ≠ 0, r.getByte.2)

def getU32 (r : Reader) : UInt32 × Reader :=
  if r.error ∨ r.len < toInt (r.pos + 4) then (0, r.fail)
  else (readU32Be r.buf r.pos, r.advance 4)

/-- `ssh_reader_get_string`; on an error `*data` and `*len` keep their values. -/
def getString (r : Reader) : Option Slice × Reader :=
  let size := toInt r.getU32.1.toNat
  let r := r.getU32.2
  if r.error then (none, r)
  else if r.len < toInt (r.pos + size) then (none, r.fail)
  else (some ⟨r.pos, size⟩, r.advance size)

/-- The four calls a user of the reader can make. -/
inductive Call where
  | byte
  | bool
  | u32
  | string
  deriving DecidableEq, Repr

def step (r : Reader) : Call → Option Reader
  | .byte => some r.getByte.2
  | .bool => some r.getBool.2
  | .u32 => some r.getU32.2
  | .string => some r.getString.2

end Reader

/-- `ssh_auth_copy_text` and `ssh_channel_copy_type`: a text shorter than `cap`. The
null pointer, which a failed read leaves, is `none`. -/
def copyText (buf : Memory) (cap : ℤ) : Option Slice → Option (List UInt8)
  | none => none
  | some s => if s.len < 0 ∨ cap ≤ s.len then none else some (bytesAt buf s.off s.len.toNat)

def bytesEqual (buf : Memory) (s : Option Slice) (rhs : List UInt8) : Bool :=
  match s with
  | none => rhs = []
  | some s => s.len = rhs.length ∧ bytesAt buf s.off rhs.length = rhs

def SSH_AUTH_TEXT_MAX : ℤ := 32
def SSH_CHANNEL_TYPE_MAX : ℤ := 16

/-- `struct ssh_auth_request`; the password is a slice of the payload behind its first
byte. -/
structure AuthRequest where
  username : List UInt8
  service : List UInt8
  method : List UInt8
  password : Option Slice
  changeRequest : Bool
  deriving DecidableEq, Repr

/-- The reader that every parser starts with: the payload behind the message number. -/
def payloadReader (payload : Memory) (payloadLen : ℤ) : Reader :=
  Reader.init (fun i => payload (i + 1)) (payloadLen - 1)

/-- The copies of the three texts, the first that does not fit ends the parser. -/
def authTexts (buf : Memory) (username service method : Option Slice) :
    Option (List UInt8 × List UInt8 × List UInt8) :=
  (copyText buf SSH_AUTH_TEXT_MAX username).bind fun user =>
    (copyText buf SSH_AUTH_TEXT_MAX service).bind fun serv =>
      (copyText buf SSH_AUTH_TEXT_MAX method).map fun meth => (user, serv, meth)

/-- `ssh_auth_parse_request`; `none` is the result -1. -/
def authParseRequest (payload : Memory) (payloadLen : ℤ) : Option AuthRequest × Reader :=
  let r₀ := payloadReader payload payloadLen
  if payloadLen ≤ 1 then (none, r₀)
  else
    let username := r₀.getString
    let service := username.2.getString
    let method := service.2.getString
    if method.2.error then (none, method.2)
    else
      match authTexts r₀.buf username.1 service.1 method.1 with
      | none => (none, method.2)
      | some (user, serv, meth) =>
        if cstr meth ≠ ascii "password" then (some ⟨user, serv, meth, none, false⟩, method.2)
        else
          let change := method.2.getBool
          let password := change.2.getString
          if password.2.error then (none, password.2)
          else (some ⟨user, serv, meth, password.1, change.1⟩, password.2)

/-- `struct ssh_channel_open_request`. -/
structure ChannelOpenRequest where
  type : List UInt8
  peerId : UInt32
  peerWindow : UInt32
  peerMaxPacket : UInt32
  deriving DecidableEq, Repr

def channelParseOpen (payload : Memory) (payloadLen : ℤ) :
    Option ChannelOpenRequest × Reader :=
  let r₀ := payloadReader payload payloadLen
  if payloadLen ≤ 1 then (none, r₀)
  else
    let type := r₀.getString
    let peerId := type.2.getU32
    let peerWindow := peerId.2.getU32
    let peerMaxPacket := peerWindow.2.getU32
    let r := peerMaxPacket.2
    if r.error then (none, r)
    else
      ((copyText r₀.buf SSH_CHANNEL_TYPE_MAX type.1).map fun text =>
        ⟨text, peerId.1, peerWindow.1, peerMaxPacket.1⟩, r)

inductive RequestKind where
  | unknown
  | pty
  | windowChange
  | shell
  deriving DecidableEq, Repr

/-- `struct ssh_channel_request`. -/
structure ChannelRequest where
  kind : RequestKind
  recipient : UInt32
  wantReply : Bool
  cols : UInt16
  rows : UInt16
  deriving DecidableEq, Repr

/-- The kind that a request name stands for. -/
def requestKind (buf : Memory) (request : Option Slice) : RequestKind :=
  if bytesEqual buf request (ascii "pty-req") then .pty
  else if bytesEqual buf request (ascii "window-change") then .windowChange
  else if bytesEqual buf request (ascii "shell") then .shell
  else .unknown

def channelParseRequest (payload : Memory) (payloadLen : ℤ) : Option ChannelRequest × Reader :=
  let r₀ := payloadReader payload payloadLen
  if payloadLen ≤ 1 then (none, r₀)
  else
    let recipient := r₀.getU32
    let request := recipient.2.getString
    let wantReply := request.2.getBool
    if wantReply.2.error then (none, wantReply.2)
    else
      let kind := requestKind r₀.buf request.1
      match kind with
      | .pty =>
        let term := wantReply.2.getString
        let cols := term.2.getU32
        let rows := cols.2.getU32
        let r := rows.2.getU32.2.getU32.2.getString.2
        (if r.error then none
          else some ⟨kind, recipient.1, wantReply.1, cols.1.toUInt16, rows.1.toUInt16⟩, r)
      | .windowChange =>
        let cols := wantReply.2.getU32
        let rows := cols.2.getU32
        let r := rows.2.getU32.2.getU32.2
        (if r.error then none
          else some ⟨kind, recipient.1, wantReply.1, cols.1.toUInt16, rows.1.toUInt16⟩, r)
      | .shell | .unknown => (some ⟨kind, recipient.1, wantReply.1, 0, 0⟩, wantReply.2)

/-- `struct ssh_channel_data_request`. -/
structure ChannelDataRequest where
  recipient : UInt32
  data : Option Slice
  deriving DecidableEq, Repr

def channelParseData (payload : Memory) (payloadLen : ℤ) : Option ChannelDataRequest × Reader :=
  let r₀ := payloadReader payload payloadLen
  if payloadLen ≤ 1 then (none, r₀)
  else
    let recipient := r₀.getU32
    let data := recipient.2.getString
    if data.2.error then (none, data.2) else (some ⟨recipient.1, data.1⟩, data.2)

end Sodex.Ssh
