import Sodex.AdminServer

/-!
# Only complete tokens open the admin ports

A request that passes through the buffers unchanged is served only if its token is the
configured one. Tokens are stored in 64 bytes on both sides, so longer ones are compared by
a prefix.
-/
namespace Sodex.Admin

open CInt CText Runs List Option

/-- A request was served rightly: it came from the configured address, which was not blocked,
with the token of the role it needs. -/
structure Authorized (rt : Runtime) (statusToken controlToken : List UInt8) (act : Act) :
    Prop where
  peer : Role.health.level < act.deed.role.level → act.peer = rt.allowIp ∧ act.blocked = false
  control : act.deed.role = .control →
    sentToken act.port act.buffer = controlToken ∧ sentToken act.port act.buffer ≠ []
  status : act.deed.role = .status →
    (sentToken act.port act.buffer = statusToken ∨ sentToken act.port act.buffer = controlToken) ∧
      sentToken act.port act.buffer ≠ []

/-- The same for the stored tokens, if the request fits. -/
def Served (rt : Runtime) (act : Act) : Prop :=
  RequestFits act.port act.buffer → Authorized rt rt.statusToken rt.controlToken act

section Steps

variable {s : State} {tick peer : UInt32} {req : Request} {buffer : List UInt8} {deed : Deed}
  {port : Port}

theorem served_of_allow (hallow : (authorize s tick req peer).1 = .allow)
    (hrole : req.requiredRole = deed.role)
    (htoken : RequestFits port buffer → req.token = sentToken port buffer) :
    Served s.rt (actFor s deed port tick peer buffer) := by
  intro hfits
  have hreq := htoken hfits
  by_cases hlevel : Role.health.level < req.requiredRole.level
  · obtain ⟨hblocked, hpeer, hrank⟩ := authorizeRequestDetailed_allow hallow hlevel
    rw [hreq] at hrank
    rw [hrole] at hrank
    refine ⟨fun _ => ⟨hpeer, decide_eq_false hblocked⟩, fun hcontrol => ?_, fun hstatus => ?_⟩
    · have hcontrol : deed.role = .control := hcontrol
      rw [hcontrol] at hrank
      rcases roleFromToken_cases s.rt (sentToken port buffer) with h | h | h
      · exact h.2
      · rw [h.1] at hrank
        exact absurd hrank (by decide)
      · rw [h] at hrank
        exact absurd hrank (by decide)
    · have hstatus : deed.role = .status := hstatus
      rw [hstatus] at hrank
      rcases roleFromToken_cases s.rt (sentToken port buffer) with h | h | h
      · exact ⟨.inr h.2.1, h.2.2⟩
      · exact ⟨.inl h.2.1, h.2.2⟩
      · rw [h] at hrank
        exact absurd hrank (by decide)
  · -- nothing is asked of a request that needs no token
    rw [hrole] at hlevel
    refine ⟨fun h => absurd h hlevel, fun h => absurd ?_ hlevel, fun h => absurd ?_ hlevel⟩
    · rw [show deed.role = .control from h]
      decide
    · rw [show deed.role = .status from h]
      decide

/-- A front end hands on the token that was sent. -/
def Front.Faithful (front : Front) : Prop :=
  ∀ buffer req, front.complete buffer = true → front.parse buffer = some req →
    buffer.length < front.requestMax →
    req.requiredRole = requiredRole req.action ∧
      (RequestFits front.port buffer → req.token = sentToken front.port buffer)

theorem adminFront_faithful : adminFront.Faithful := by
  intro buffer req _ hparse hlen
  obtain ⟨line, hline, hparse⟩ := bind_eq_some_iff.mp hparse
  refine ⟨?_, fun hfits => (parseCommand_token hline hlen hfits hparse).1⟩
  unfold parseCommand at hparse
  simp only at hparse
  split at hparse
  · cases hparse
  split at hparse
  · split at hparse
    · cases hparse
    · obtain ⟨a, -, rfl⟩ := map_eq_some_iff.mp hparse
      rfl
  · obtain ⟨a, -, rfl⟩ := map_eq_some_iff.mp hparse
    rfl

theorem httpFront_faithful : httpFront.Faithful := by
  intro buffer req hcomplete hparse _
  obtain ⟨http, hhttp, hmap⟩ := bind_eq_some_iff.mp hparse
  obtain ⟨htoken, hrole⟩ := httpMapRequest_token hhttp hmap
  exact ⟨hrole, fun hfits => htoken.trans (httpParseRequest_token hcomplete hfits hhttp)⟩

theorem readLoop_length {front : Front} {chunks : List (List UInt8)} {buffer' : List UInt8}
    (h : readLoop front chunks buffer = some buffer') (hlen : buffer.length < front.requestMax) :
    buffer'.length < front.requestMax := by
  induction chunks generalizing buffer with
  | nil => exact some.inj h ▸ hlen
  | cons chunk chunks ih =>
    rw [readLoop] at h
    split at h
    · exact some.inj h ▸ hlen
    split at h
    · cases h
    · rename_i hroom
      refine ih h ?_
      rw [length_append]
      omega

/-- Connections whose buffers have room for a terminating zero. -/
def Bounded (cap : ℕ) (conns : List (Option Conn)) : Prop :=
  ∀ conn, some conn ∈ conns → conn.buffer.length < cap

theorem Bounded.set {cap : ℕ} {conns : List (Option Conn)} (h : Bounded cap conns) (slot : ℕ)
    {c : Option Conn} (hc : ∀ conn ∈ c, conn.buffer.length < cap) : Bounded cap (conns.set slot c) := by
  intro conn hmem
  rcases mem_or_eq_of_mem_set hmem with hmem | rfl
  · exact h conn hmem
  · exact hc conn rfl

/-- The requests so far were served rightly, the table has changed by questions only, and the buffers
are not full. -/
structure Orderly (rt : Runtime) (s : State) : Prop where
  runtime : s.rt = rt
  ledger : run (ledgerStep rt) Ledger.initial s.asked = some s.ledger
  acts : ∀ act ∈ s.acts, Served rt act
  admin : Bounded ADMIN_TEXT_REQUEST_MAX s.adminConns
  http : Bounded ADMIN_HTTP_REQUEST_MAX s.httpConns
  shell : ∀ conn ∈ s.shellConn, conn.buffer.length < DEBUG_SHELL_PREFACE_MAX ∧
    ∀ act ∈ conn.granted, Served rt act

variable {rt : Runtime} {conn : Conn}

section

variable (h : Orderly rt s)
include h

theorem Orderly.authorize (tick : UInt32) (req : Request) (peer : UInt32) :
    Orderly rt (authorize s tick req peer).2 := by
  refine ⟨h.runtime, ?_, h.acts, h.admin, h.http, h.shell⟩
  simp [Admin.authorize, run_append, h.ledger, run, ledgerStep, State.ledger, h.runtime]

theorem Orderly.authorizeConnection (tick peer : UInt32) :
    Orderly rt (authorizeConnection s tick peer).2 := by
  refine ⟨h.runtime, ?_, h.acts, h.admin, h.http, h.shell⟩
  simp [Admin.authorizeConnection, run_append, h.ledger, run, ledgerStep, State.ledger, h.runtime]

theorem Orderly.handleRequest {front : Front} (hfront : front.Faithful)
    (hcomplete : front.complete conn.buffer = true)
    (hlen : conn.buffer.length < front.requestMax) : Orderly rt (handleRequest front s tick conn) := by
  unfold Admin.handleRequest
  split
  · exact h
  · rename_i req hparse
    obtain ⟨hrole, htoken⟩ := hfront _ _ hcomplete hparse hlen
    have hauth := h.authorize tick req conn.peerAddr
    simp only
    split
    · rename_i hallow
      refine ⟨hauth.runtime, hauth.ledger, fun act hmem => ?_, hauth.admin, hauth.http, hauth.shell⟩
      rcases mem_append.mp hmem with hmem | hmem
      · exact hauth.acts act hmem
      · rw [mem_singleton.mp hmem, ← h.runtime]
        exact served_of_allow hallow hrole htoken
    · exact hauth

theorem Orderly.pollConn (tick : UInt32) {front : Front} (hfront : front.Faithful)
    (hlen : conn.buffer.length < front.requestMax) (closed : Bool) (chunks : List (List UInt8)) :
    Orderly rt (pollConn front s tick conn closed chunks).2 ∧
      ∀ conn' ∈ (pollConn front s tick conn closed chunks).1,
        conn'.buffer.length < front.requestMax := by
  have hkept (conn' : Conn) (hbuffer : conn'.buffer = conn.buffer) :
      ∀ c ∈ some conn', c.buffer.length < front.requestMax := by
    rintro c ⟨⟩
    rw [hbuffer]
    exact hlen
  unfold Admin.pollConn
  split
  · exact ⟨h, nofun⟩
  split
  · exact ⟨h, hkept _ rfl⟩
  split
  · exact ⟨h, hkept _ rfl⟩
  split
  · exact ⟨h, hkept _ rfl⟩
  · rename_i buffer hread
    have hbuffer := readLoop_length hread hlen
    have hnew : ∀ closing, ∀ c ∈ some { conn with buffer := buffer, closing := closing },
        c.buffer.length < front.requestMax := by
      rintro closing c ⟨⟩
      exact hbuffer
    simp only
    split
    · rename_i hcomplete
      exact ⟨h.handleRequest hfront hcomplete hbuffer, hnew true⟩
    · exact ⟨h, hnew conn.closing⟩

theorem Orderly.acceptConn (tick peer : UInt32) {cap : ℕ} (hcap : 0 < cap)
    {conns : List (Option Conn)} (hconns : Bounded cap conns) :
    Orderly rt (acceptConn s tick peer conns).2 ∧ Bounded cap (acceptConn s tick peer conns).1 := by
  have hauth := h.authorizeConnection tick peer
  unfold Admin.acceptConn
  simp only
  split
  · exact ⟨hauth, hconns⟩
  split
  · exact ⟨hauth, hconns⟩
  · rename_i slot _
    refine ⟨hauth, hconns.set slot ?_⟩
    rintro conn ⟨⟩
    exact hcap

end

/-- A connection to the debug shell in order. -/
def ShellOrderly (rt : Runtime) (conn : ShellConn) : Prop :=
  conn.buffer.length < DEBUG_SHELL_PREFACE_MAX ∧ ∀ act ∈ conn.granted, Served rt act

theorem Orderly.handlePreface (h : Orderly rt s) (tick : UInt32) {conn : ShellConn}
    (hconn : ShellOrderly rt conn) :
    Orderly rt (handlePreface s tick conn).2 ∧ ShellOrderly rt (handlePreface s tick conn).1 := by
  unfold Admin.handlePreface
  split
  · exact ⟨h, hconn⟩
  rename_i line hline
  split
  · exact ⟨h, hconn⟩
  · rename_i token hparse
    have hauth := h.authorize tick ⟨.invalid, .control, 0, copyString ADMIN_TOKEN_MAX token⟩
      conn.peerAddr
    simp only
    split
    · exact ⟨hauth, hconn⟩
    · rename_i hallow
      refine ⟨hauth, Nat.zero_lt_succ 191, ?_⟩
      rintro act ⟨⟩
      rw [← h.runtime]
      exact served_of_allow (not_not.mp hallow) rfl
        fun hfits => parsePreface_token hline hconn.1 hfits hparse

theorem Orderly.pumpSocketToTty (tick : UInt32) (chunks : List (List UInt8)) (s : State)
    (conn : ShellConn)
    (h : Orderly rt s) (hconn : ShellOrderly rt conn) :
    Orderly rt (pumpSocketToTty tick chunks conn s).2 ∧
      ShellOrderly rt (pumpSocketToTty tick chunks conn s).1 := by
  induction chunks generalizing s conn with
  | nil => exact ⟨h, hconn⟩
  | cons chunk chunks ih =>
    unfold Admin.pumpSocketToTty
    simp only
    split
    · exact ⟨h, hconn⟩
    split
    · exact ih s _ h hconn
    split
    · exact ⟨h, hconn⟩
    · rename_i hroom
      have hread : ShellOrderly rt { conn with
          lastActivityTick := tick, buffer := conn.buffer ++ chunk.take 256 } := by
        refine ⟨?_, hconn.2⟩
        rw [length_append]
        omega
      obtain ⟨hstate, hshell⟩ := h.handlePreface tick hread
      split
      · exact ⟨hstate, hshell⟩
      · exact ih _ _ hstate hshell

theorem Orderly.pollShellConn (h : Orderly rt s) (tick : UInt32) {conn : ShellConn}
    (hconn : ShellOrderly rt conn) (closed started : Bool) (chunks : List (List UInt8)) :
    Orderly rt (pollShellConn s tick conn closed started chunks).2 ∧
      ∀ conn' ∈ (pollShellConn s tick conn closed started chunks).1, ShellOrderly rt conn' := by
  unfold Admin.pollShellConn
  generalize (if conn.authenticated then DEBUG_SHELL_IDLE_TIMEOUT_TICKS
    else DEBUG_SHELL_AUTH_TIMEOUT_TICKS) = timeout
  split
  · exact ⟨h, nofun⟩
  split
  · exact ⟨h, by rintro _ ⟨⟩; exact hconn⟩
  split
  · exact ⟨h, by rintro _ ⟨⟩; exact hconn⟩
  split
  · unfold startSession
    split
    · refine ⟨⟨h.runtime, h.ledger, fun act hmem => ?_, h.admin, h.http, h.shell⟩, by
        rintro _ ⟨⟩
        exact hconn⟩
      rcases mem_append.mp hmem with hmem | hmem
      · exact h.acts act hmem
      · exact hconn.2 act (mem_toList.mp hmem)
    · exact ⟨h, by rintro _ ⟨⟩; exact hconn⟩
  · obtain ⟨hstate, hshell⟩ := Orderly.pumpSocketToTty tick chunks s conn h hconn
    exact ⟨hstate, by rintro _ ⟨⟩; exact hshell⟩

theorem mem_of_getD {conns : List (Option Conn)} {slot : ℕ}
    (h : conns.getD slot none = some conn) : some conn ∈ conns := by
  rw [getD_eq_getElem?_getD] at h
  cases hslot : conns[slot]? with
  | none =>
    rw [hslot] at h
    cases h
  | some c =>
    rw [hslot] at h
    exact h ▸ mem_of_getElem? hslot

/-- Every call keeps the servers in order. -/
theorem Orderly.call (h : Orderly rt s) (input : UInt32 × Call) : Orderly rt (call s input) := by
  obtain ⟨tick, c⟩ := input
  cases c with
  | adminAccept peer =>
    obtain ⟨hstate, hconns⟩ := h.acceptConn tick peer (by decide) h.admin
    exact ⟨hstate.runtime, hstate.ledger, hstate.acts, hconns, hstate.http, hstate.shell⟩
  | httpAccept peer =>
    obtain ⟨hstate, hconns⟩ := h.acceptConn tick peer (by decide) h.http
    exact ⟨hstate.runtime, hstate.ledger, hstate.acts, hstate.admin, hconns, hstate.shell⟩
  | adminPoll slot closed chunks =>
    show Orderly rt (adminPollConnection s tick slot closed chunks)
    unfold adminPollConnection
    split
    · exact h
    · rename_i conn hconn
      obtain ⟨hstate, hbound⟩ := h.pollConn tick adminFront_faithful
        (h.admin conn (mem_of_getD hconn)) closed chunks
      exact ⟨hstate.runtime, hstate.ledger, hstate.acts, hstate.admin.set slot hbound, hstate.http,
        hstate.shell⟩
  | httpPoll slot closed chunks =>
    show Orderly rt (httpPollConnection s tick slot closed chunks)
    unfold httpPollConnection
    split
    · exact h
    · rename_i conn hconn
      obtain ⟨hstate, hbound⟩ := h.pollConn tick httpFront_faithful
        (h.http conn (mem_of_getD hconn)) closed chunks
      exact ⟨hstate.runtime, hstate.ledger, hstate.acts, hstate.admin, hstate.http.set slot hbound,
        hstate.shell⟩
  | shellAccept peer =>
    show Orderly rt (if debugShellEnabled s.rt then debugShellAccept s tick peer else s)
    split
    · have hauth := h.authorizeConnection tick peer
      unfold debugShellAccept
      simp only
      split
      · exact hauth
      · refine ⟨hauth.runtime, hauth.ledger, hauth.acts, hauth.admin, hauth.http, ?_⟩
        rintro conn ⟨⟩
        exact ⟨Nat.zero_lt_succ 191, nofun⟩
    · exact h
  | shellPoll closed started chunks =>
    show Orderly rt (if debugShellEnabled s.rt then
      debugShellPollConnection s tick closed started chunks else s)
    split
    · unfold debugShellPollConnection
      split
      · exact h
      · rename_i conn hconn
        obtain ⟨hstate, hshell⟩ := h.pollShellConn tick (h.shell conn hconn) closed started
          chunks
        exact ⟨hstate.runtime, hstate.ledger, hstate.acts, hstate.admin, hstate.http, hshell⟩
    · exact h

end Steps

theorem orderly_boot (rt : Runtime) : Orderly rt (boot rt) := by
  refine ⟨rfl, rfl, nofun, ?_, ?_, nofun⟩ <;>
  · intro conn hmem
    simp [boot] at hmem

theorem orderly_run {rt : Runtime} {calls : List (UInt32 × Call)} {x : State}
    (h : run callStep (boot rt) calls = some x) : Orderly rt x := by
  refine run_keeps ?_ calls _ x (orderly_boot rt) h
  intro s input s' hs hstep
  rw [← some.inj hstep]
  exact hs.call input

/-- In every run of the servers under a configuration whose tokens are short enough to be
stored, what was done for a request that passes through the buffers unchanged was done for
the configured peer, not blocked at that tick, whose complete token is the configured one. -/
theorem acts_authorized (build : Build) (file : Option (List UInt8)) (hfits : ConfigFits build file)
    (calls : List (UInt32 × Call)) (x : State)
    (hrun : run callStep (boot (runtimeReset build file)) calls = some x) :
    ∀ act ∈ x.acts, RequestFits act.port act.buffer →
      Authorized (runtimeReset build file) (statusTokenOf build file) (controlTokenOf build file)
        act := by
  have horderly := orderly_run hrun
  intro act hmem hrequest
  obtain ⟨hstatus, hcontrol⟩ := runtimeReset_tokens hfits
  rw [← hstatus, ← hcontrol]
  exact horderly.acts act hmem hrequest

def plainConfig : List UInt8 := ascii "control_token = secret\nallow_ip = 10.0.2.2\n"

/-- The configured peer connects to the admin port and sends a line. -/
def adminLine (line : List UInt8) : List (UInt32 × Call) :=
  [(1, .adminAccept (addressOf [10, 0, 2, 2])),
    (2, .adminPoll 0 false [line.take 63, line.drop 63])]

def startLine : List UInt8 := ascii "TOKEN secret AGENT START\n"

theorem plain_token_authorized : ConfigFits Build.default (some plainConfig) ∧
    RequestFits .admin startLine ∧
    ∃ x act, run callStep (boot (runtimeReset Build.default (some plainConfig)))
        (adminLine startLine) = some x ∧
      act ∈ x.acts ∧ act.deed = .execute .agentStart ∧ act.buffer = startLine ∧
      sentToken act.port act.buffer = controlTokenOf Build.default (some plainConfig) := by
  have hfits : ConfigFits Build.default (some plainConfig) := by decide
  have hrequest : RequestFits .admin startLine := by decide
  have hacts : (call (call (boot (runtimeReset Build.default (some plainConfig)))
      (1, .adminAccept (addressOf [10, 0, 2, 2])))
      (2, .adminPoll 0 false [startLine.take 63, startLine.drop 63])).acts =
      [⟨.execute .agentStart, .admin, 2, addressOf [10, 0, 2, 2], startLine, false⟩] := by
    decide +kernel
  refine ⟨hfits, hrequest, _, _, rfl, by rw [hacts]; exact mem_singleton_self _, rfl, rfl, ?_⟩
  have hauth := acts_authorized Build.default (some plainConfig) hfits (adminLine startLine) _ rfl
    ⟨.execute .agentStart, .admin, 2, addressOf [10, 0, 2, 2], startLine, false⟩
    (by rw [hacts]; exact mem_singleton_self _) hrequest
  exact (hauth.control rfl).1

/-- A control token of seventy letters. -/
def longConfig : List UInt8 := ascii "control_token = " ++ List.replicate 70 97

/-- A token that agrees with it in the first sixty-three. -/
def forgedLine : List UInt8 := ascii "TOKEN " ++ List.replicate 63 97 ++ ascii "bcd AGENT START\n"

/-- The agent is started for a token that is not the configured one. -/
theorem forged_token_accepted :
    ∃ x act, run callStep (boot (runtimeReset Build.default (some longConfig)))
        (adminLine forgedLine) = some x ∧
      x.agent.running = true ∧ act ∈ x.acts ∧ act.deed = .execute .agentStart ∧
      sentToken act.port act.buffer ≠ controlTokenOf Build.default (some longConfig) := by
  have hend : (call (call (boot (runtimeReset Build.default (some longConfig)))
      (1, .adminAccept (addressOf [10, 0, 2, 2])))
      (2, .adminPoll 0 false [forgedLine.take 63, forgedLine.drop 63])).acts =
      [⟨.execute .agentStart, .admin, 2, addressOf [10, 0, 2, 2], forgedLine, false⟩] ∧
    (call (call (boot (runtimeReset Build.default (some longConfig)))
      (1, .adminAccept (addressOf [10, 0, 2, 2])))
      (2, .adminPoll 0 false [forgedLine.take 63, forgedLine.drop 63])).agent.running = true := by
    decide +kernel
  refine ⟨_, ⟨.execute .agentStart, .admin, 2, addressOf [10, 0, 2, 2], forgedLine, false⟩, rfl,
    hend.2, by rw [hend.1]; exact mem_singleton_self _, rfl, ?_⟩
  decide +kernel

end Sodex.Admin
