import Sodex.AdminRequests
import Sodex.Runs

/-!
# The three admin servers

`admin_server_tick`, `http_server_tick` and `debug_shell_server_tick` accept connections and
poll them; each call that accepts or polls one connection is a step. The socket layer decides
who connects, what bytes arrive and whether the socket is closed, and the kernel whether
a shell can be started.
-/
namespace Sodex.Admin

open CInt CText Runs

def ADMIN_MAX_CONNECTIONS : ℕ := 2
def ADMIN_IDLE_TIMEOUT_TICKS : ℤ := 500
def DEBUG_SHELL_AUTH_TIMEOUT_TICKS : ℤ := 500
def DEBUG_SHELL_IDLE_TIMEOUT_TICKS : ℤ := 3000

inductive Deed where
  | execute (action : Action)
  | shell
  deriving DecidableEq

def Deed.role : Deed → Role
  | .execute action => requiredRole action
  | .shell => .control

/-- Something was done for a request. Kept for the history only: the request as it arrived, and
whether its peer was blocked at that tick. -/
structure Act where
  deed : Deed
  port : Port
  tick : UInt32
  peer : UInt32
  buffer : List UInt8
  blocked : Bool
  deriving DecidableEq

/-- A token was compared with the configured ones. -/
structure Check where
  peer : UInt32
  tick : UInt32
  correct : Bool
  deriving DecidableEq

/-- What the table is asked: may this peer connect, may it have this request? -/
inductive Ask where
  | connect (peer : UInt32)
  | request (peer : UInt32) (req : Request)
  deriving DecidableEq

/-- `struct admin_connection`, `struct http_connection`: a connection in use. -/
structure Conn where
  peerAddr : UInt32
  acceptedTick : UInt32
  closing : Bool
  buffer : List UInt8
  deriving DecidableEq

/-- `struct debug_shell_connection`, in use. A connection whose preface was accepted remembers
the request. -/
structure ShellConn where
  peerAddr : UInt32
  lastActivityTick : UInt32
  authenticated : Bool
  startPending : Bool
  closing : Bool
  buffer : List UInt8
  granted : Option Act
  deriving DecidableEq

/-- The agent as the admin server sees it. -/
structure Agent where
  running : Bool
  startCount : ℕ
  stopCount : ℕ
  lastTransitionTick : UInt32
  deriving DecidableEq

structure State where
  rt : Runtime
  table : Table
  adminConns : List (Option Conn)
  httpConns : List (Option Conn)
  shellConn : Option ShellConn
  agent : Agent
  /-- All that was done. -/
  acts : List Act
  /-- All comparisons of tokens. -/
  checks : List Check
  /-- All questions to the table. -/
  asked : List (UInt32 × Ask)
  deriving DecidableEq

/-- The servers after the kernel has read the configuration. -/
def boot (rt : Runtime) : State where
  rt := rt
  table := Table.empty
  adminConns := List.replicate ADMIN_MAX_CONNECTIONS none
  httpConns := List.replicate ADMIN_MAX_CONNECTIONS none
  shellConn := none
  agent := ⟨false, 0, 0, 0⟩
  acts := []
  checks := []
  asked := []

/-- The effect of `admin_execute_request`. -/
def executeRequest (tick : UInt32) (agent : Agent) : Action → Agent
  | .agentStart => ⟨true, agent.startCount + 1, agent.stopCount, tick⟩
  | .agentStop => ⟨false, agent.startCount, agent.stopCount + 1, tick⟩
  | _ => agent

/-- Ticks that have passed since `start`, as an `int`. -/
def ticksSince (start tick : UInt32) : ℤ := toInt (tick - start).toNat

/-- `admin_authorize_request_detailed` with the history. -/
def authorize (s : State) (tick : UInt32) (req : Request) (peer : UInt32) : AuthResult × State :=
  let out := authorizeRequestDetailed s.rt tick s.table req peer
  (out.result, { s with
    table := out.table
    checks := s.checks ++ (out.checked.map fun correct => ⟨peer, tick, correct⟩).toList
    asked := s.asked ++ [(tick, .request peer req)] })

/-- `admin_authorize_peer` with the history. -/
def authorizeConnection (s : State) (tick peer : UInt32) : AuthResult × State :=
  let out := authorizePeer s.rt tick s.table peer
  (out.1, { s with table := out.2, asked := s.asked ++ [(tick, .connect peer)] })

/-- A request that was allowed is noted, with the state before it was looked at. -/
def actFor (s : State) (deed : Deed) (port : Port) (tick peer : UInt32) (buffer : List UInt8) :
    Act := ⟨deed, port, tick, peer, buffer, decide (Blocked s.table tick peer)⟩

/-- What tells the two text servers apart. -/
structure Front where
  port : Port
  chunkMax : ℕ
  requestMax : ℕ
  complete : List UInt8 → Bool
  parse : List UInt8 → Option Request

def adminFront : Front where
  port := .admin
  chunkMax := 63
  requestMax := ADMIN_TEXT_REQUEST_MAX
  complete buffer := (firstLine buffer).isSome
  parse buffer := (firstLine buffer).bind parseCommand

def httpFront : Front where
  port := .http
  chunkMax := 95
  requestMax := ADMIN_HTTP_REQUEST_MAX
  complete := httpHeadersComplete
  parse buffer := (httpParseRequest buffer).bind httpMapRequest

/-- The read loop: it ends when nothing arrives; `none` when the request gets too large. -/
def readLoop (front : Front) : List (List UInt8) → List UInt8 → Option (List UInt8)
  | [], buffer => some buffer
  | chunk :: chunks, buffer =>
    let chunk := chunk.take front.chunkMax
    if chunk = [] then some buffer
    else if front.requestMax ≤ buffer.length + chunk.length then none
    else readLoop front chunks (buffer ++ chunk)

/-- The end of `admin_poll_connection` and `http_poll_connection`: a complete request is parsed,
authorized and executed. The connection is closed in any case. -/
def handleRequest (front : Front) (s : State) (tick : UInt32) (conn : Conn) : State :=
  match front.parse conn.buffer with
  | none => s
  | some req =>
    let auth := authorize s tick req conn.peerAddr
    if auth.1 = .allow then
      { auth.2 with
        agent := executeRequest tick auth.2.agent req.action
        acts := auth.2.acts ++
          [actFor s (.execute req.action) front.port tick conn.peerAddr conn.buffer] }
    else auth.2

/-- `admin_poll_connection` and `http_poll_connection` for a connection in use. -/
def pollConn (front : Front) (s : State) (tick : UInt32) (conn : Conn) (closed : Bool)
    (chunks : List (List UInt8)) : Option Conn × State :=
  if closed then (none, s)
  else if conn.closing then (some conn, s)
  else if ADMIN_IDLE_TIMEOUT_TICKS < ticksSince conn.acceptedTick tick then
    (some { conn with closing := true }, s)
  else
    match readLoop front chunks conn.buffer with
    | none => (some { conn with closing := true }, s)
    | some buffer =>
      let conn := { conn with buffer := buffer }
      if front.complete buffer then
        (some { conn with closing := true }, handleRequest front s tick conn)
      else (some conn, s)

/-- A connection is accepted if its peer is authorized and a slot is free. -/
def acceptConn (s : State) (tick peer : UInt32) (conns : List (Option Conn)) :
    List (Option Conn) × State :=
  let auth := authorizeConnection s tick peer
  if auth.1 ≠ .allow then (conns, auth.2)
  else
    match conns.findIdx? fun c => c.isNone with
    | none => (conns, auth.2)
    | some slot => (conns.set slot (some ⟨peer, tick, false, []⟩), auth.2)

/-- `admin_accept_pending_connections`, one connection. -/
def adminAccept (s : State) (tick peer : UInt32) : State :=
  let out := acceptConn s tick peer s.adminConns
  { out.2 with adminConns := out.1 }

/-- `http_accept_pending_connections`, one connection. -/
def httpAccept (s : State) (tick peer : UInt32) : State :=
  let out := acceptConn s tick peer s.httpConns
  { out.2 with httpConns := out.1 }

def adminPollConnection (s : State) (tick : UInt32) (slot : ℕ) (closed : Bool)
    (chunks : List (List UInt8)) : State :=
  match s.adminConns.getD slot none with
  | none => s
  | some conn =>
    let out := pollConn adminFront s tick conn closed chunks
    { out.2 with adminConns := out.2.adminConns.set slot out.1 }

def httpPollConnection (s : State) (tick : UInt32) (slot : ℕ) (closed : Bool)
    (chunks : List (List UInt8)) : State :=
  match s.httpConns.getD slot none with
  | none => s
  | some conn =>
    let out := pollConn httpFront s tick conn closed chunks
    { out.2 with httpConns := out.2.httpConns.set slot out.1 }

def debugShellEnabled (rt : Runtime) : Bool := rt.debugShellPort ≠ 0 ∧ rt.controlToken ≠ []

/-- `debug_shell_accept_pending_connections`, one connection. -/
def debugShellAccept (s : State) (tick peer : UInt32) : State :=
  let auth := authorizeConnection s tick peer
  if auth.1 ≠ .allow ∨ s.shellConn.isSome then auth.2
  else { auth.2 with shellConn := some ⟨peer, tick, false, false, false, [], none⟩ }

/-- `debug_shell_handle_preface`. -/
def handlePreface (s : State) (tick : UInt32) (conn : ShellConn) : ShellConn × State :=
  match firstLine conn.buffer with
  | none => (conn, s)
  | some line =>
    match parsePreface line with
    | none => ({ conn with closing := true }, s)
    | some token =>
      let auth := authorize s tick ⟨.invalid, .control, 0, copyString ADMIN_TOKEN_MAX token⟩
        conn.peerAddr
      if auth.1 ≠ .allow then ({ conn with closing := true }, auth.2)
      else
        ({ conn with
          buffer := []
          startPending := true
          lastActivityTick := tick
          granted := some (actFor s .shell .debugShell tick conn.peerAddr conn.buffer) }, auth.2)

/-- `debug_shell_pump_socket_to_tty`. -/
def pumpSocketToTty (tick : UInt32) : List (List UInt8) → ShellConn → State → ShellConn × State
  | [], conn, s => (conn, s)
  | chunk :: chunks, conn, s =>
    let chunk := chunk.take 256
    if chunk = [] then (conn, s)
    else
      let conn := { conn with lastActivityTick := tick }
      if conn.authenticated then pumpSocketToTty tick chunks conn s
      else if DEBUG_SHELL_PREFACE_MAX ≤ conn.buffer.length + chunk.length then
        ({ conn with closing := true }, s)
      else
        let out := handlePreface s tick { conn with buffer := conn.buffer ++ chunk }
        if out.1.closing then out else pumpSocketToTty tick chunks out.1 out.2

/-- `debug_shell_start_session`: `started` is false when there is no terminal or no process. -/
def startSession (s : State) (tick : UInt32) (conn : ShellConn) (started : Bool) :
    ShellConn × State :=
  if started then
    ({ conn with authenticated := true, startPending := false, lastActivityTick := tick },
      { s with acts := s.acts ++ conn.granted.toList })
  else ({ conn with startPending := false, closing := true }, s)

/-- `debug_shell_poll_connection` for a connection in use. -/
def pollShellConn (s : State) (tick : UInt32) (conn : ShellConn) (closed started : Bool)
    (chunks : List (List UInt8)) : Option ShellConn × State :=
  if closed then (none, s)
  else if conn.closing then (some conn, s)
  else if (if conn.authenticated then DEBUG_SHELL_IDLE_TIMEOUT_TICKS
      else DEBUG_SHELL_AUTH_TIMEOUT_TICKS) < ticksSince conn.lastActivityTick tick then
    (some { conn with closing := true }, s)
  else if conn.startPending then
    let out := startSession s tick conn started
    (some out.1, out.2)
  else
    let out := pumpSocketToTty tick chunks conn s
    (some out.1, out.2)

def debugShellPollConnection (s : State) (tick : UInt32) (closed started : Bool)
    (chunks : List (List UInt8)) : State :=
  match s.shellConn with
  | none => s
  | some conn =>
    let out := pollShellConn s tick conn closed started chunks
    { out.2 with shellConn := out.1 }

/-- A call of one of the servers, with what the socket layer and the kernel answer. -/
inductive Call where
  | adminAccept (peer : UInt32)
  | adminPoll (slot : ℕ) (closed : Bool) (chunks : List (List UInt8))
  | httpAccept (peer : UInt32)
  | httpPoll (slot : ℕ) (closed : Bool) (chunks : List (List UInt8))
  | shellAccept (peer : UInt32)
  | shellPoll (closed started : Bool) (chunks : List (List UInt8))
  deriving DecidableEq

/-- A call at a tick. The debug shell is served only if it is enabled. -/
def call (s : State) : UInt32 × Call → State
  | (tick, .adminAccept peer) => adminAccept s tick peer
  | (tick, .adminPoll slot closed chunks) => adminPollConnection s tick slot closed chunks
  | (tick, .httpAccept peer) => httpAccept s tick peer
  | (tick, .httpPoll slot closed chunks) => httpPollConnection s tick slot closed chunks
  | (tick, .shellAccept peer) => if debugShellEnabled s.rt then debugShellAccept s tick peer else s
  | (tick, .shellPoll closed started chunks) =>
    if debugShellEnabled s.rt then debugShellPollConnection s tick closed started chunks else s

def callStep (s : State) (input : UInt32 × Call) : Option State := some (call s input)

/-- The table with the comparisons made so far and the tick of the last question. -/
structure Ledger where
  table : Table
  checks : List Check
  now : UInt32
  deriving DecidableEq

def Ledger.initial : Ledger := ⟨Table.empty, [], 0⟩

def ledgerStep (rt : Runtime) (l : Ledger) : UInt32 × Ask → Option Ledger
  | (tick, .connect peer) => some ⟨(authorizePeer rt tick l.table peer).2, l.checks, tick⟩
  | (tick, .request peer req) =>
    let out := authorizeRequestDetailed rt tick l.table req peer
    some ⟨out.table, l.checks ++ (out.checked.map fun correct => ⟨peer, tick, correct⟩).toList, tick⟩

def State.ledger (s : State) : Ledger :=
  ⟨s.table, s.checks, (s.asked.getLast?.map Prod.fst).getD 0⟩

end Sodex.Admin
