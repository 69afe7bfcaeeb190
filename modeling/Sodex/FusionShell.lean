import Sodex.AuditLog
import Sodex.CommandBlock
import Sodex.Consent
import Sodex.JsonWriter

/-!
# The shell that runs what the agent proposes

In the fusion mode of `eshell` a line is a command of the shell itself (`/approve`, `/deny`, ...),
a request to the agent, or an ordinary command. The agent is another process: what it proposes
reaches the shell through the audit log, which the shell reads again after every run of the agent.
-/
namespace Sodex.Agent

open CText Json Audit Consent

def SESSION_ID_LEN : ℕ := 32
def AGENT_FUSION_TEXT_MAX : ℕ := 512
def TERM_SESSION_SURFACE_PROMPT_MAX : ℕ := 1024

/-- `agent_extract_run_command_text`: the command of a tool input, in a buffer. -/
def extractRunCommandText (stale : Stale) (input : List UInt8) (cap : ℕ) : Option (List UInt8) :=
  jsonGetStringField stale input (ascii "command") cap

/-- The command of a tool input as a whole: decoding makes no text longer. -/
def commandText (stale : Stale) (input : List UInt8) : Option (List UInt8) :=
  extractRunCommandText stale input (input.length + 5)

def proposalDetail (stale : Stale) (input : List UInt8) : List UInt8 :=
  copyString 256 (((extractRunCommandText stale input TERM_COMMAND_BLOCK_TEXT_MAX)).getD
    (ascii "(invalid run_command input)"))

theorem fits_proposalDetail (stale : Stale) (input : List UInt8) :
    FitsBuffer 256 (proposalDetail stale input) :=
  ⟨Nat.lt_succ_of_le (List.length_take_le _ _),
    fun hmem => zero_not_mem_cstr _ (List.mem_of_mem_take hmem)⟩

structure Author where
  session : List UInt8
  step : ℤ
  session_fits : FitsBuffer 33 session
  step_int : -2147483648 ≤ step ∧ step < 2147483648

def Author.proposal (author : Author) (stale : Stale) (input : List UInt8) : Entry :=
  have haction : FitsBuffer 16 (ascii "propose") := by decide
  ⟨⟨0, author.session, author.step, ascii "propose", ascii "run_command",
    proposalDetail stale input⟩, by norm_num, author.step_int, author.session_fits, haction,
    fits_runCommand, fits_proposalDetail stale input⟩

/-- What the agent process does to the log. -/
inductive Act where
  /-- A tool has run, or was not allowed to. -/
  | note (io : Io) (e : Entry)
      (h : e.action ∈ [ascii "blocked", ascii "error", ascii "execute"])
  /-- `run_command` is proposed, with the input of the tool. -/
  | propose (io : Io) (author : Author) (stale : Stale) (input : List UInt8)

/-- The call of `audit_log`. -/
def Act.call : Act → Io × Audit.Call
  | .note io e _ => (io, .log e)
  | .propose io author stale input => (io, .log (author.proposal stale input))

/-- The text proposed, which is missing if the input has none. -/
def Act.proposed : Act → Option (Option (List UInt8))
  | .note .. => none
  | .propose _ _ stale input => some (commandText stale input)

def lastProposal (acts : List Act) : Option (Option (List UInt8)) :=
  (acts.filterMap Act.proposed).getLast?

/-- A proposal is the text of a command, if it has one. -/
abbrev ShellEvent := Event (Option (List UInt8)) CommandClass

/-- The class under which a proposal is granted. -/
def proposalClass (x : Option (List UInt8)) : CommandClass := classify (x.getD [])

/-- `struct shell_agent_fusion_state` and the audit log, with what happened so far. -/
structure Fusion where
  log : Log
  block : Block
  allow : CommandClass → Bool
  sessionReady : Bool
  sessionId : List UInt8
  history : List ShellEvent

def Fusion.init : Fusion := ⟨Log.empty, Block.clear, fun _ => false, false, [], []⟩

/-- Where a line goes that is no command of the fusion mode. -/
inductive Route where
  | shell
  /-- To the agent, with `run` or another subcommand; if it is started, it acts. -/
  | agent (isRun : Bool) (acts : Option (List Act))

/-- What the rest of the system answers while a line is handled. -/
structure Env where
  /-- `session_create`. -/
  created : Option (List UInt8)
  /-- `agent_resume_latest_for_cwd`. -/
  latest : Option (List UInt8)
  /-- `session_read_meta` in `shell_fusion_resume_session`: fails, or finds an id or none. -/
  found : Option (Option (List UInt8))
  /-- The id that `session_read_meta` finds in `shell_fusion_update_surface`. -/
  own : Option (List UInt8)
  /-- `/compact` appends a summary. -/
  compacted : Bool
  route : Route
  read : Io
  stale : Stale
  answers : Answers
  /-- `tool_run_command` returns a result. -/
  finished : Bool

section Shell

variable (env : Env)

/-- `shell_fusion_update_surface`. The id of the session is cleared before it is read:
`session_read_meta` is given the id inside the structure that it fills. -/
def updateSurface (s : Fusion) : Fusion :=
  if s.sessionReady then { s with sessionId := env.own.getD [] } else s

/-- `shell_fusion_ensure_session`; `none` for -1. -/
def ensureSession (s : Fusion) : Option Fusion :=
  if s.sessionReady then some s
  else env.created.map fun id => updateSurface env { s with sessionReady := true, sessionId := id }

/-- The entry that `shell_fusion_update_audit` takes: the last one of the session, if there is
one, and the last one otherwise. -/
def shown (s : Fusion) (entries : List Record) : Option Record :=
  (if s.sessionReady then entries.reverse.find? fun e => e.session = s.sessionId else none).or
    entries.getLast?

/-- The command of an entry that is a proposal. -/
def proposalText (e : Record) : Option (List UInt8) :=
  if e.action = ascii "propose" ∧ e.tool = ascii "run_command" ∧ e.detail ≠ [] then some e.detail
  else none

def updateAudit (s : Fusion) : Fusion :=
  match ((auditReadLast env.read s.log.file 8).bind (shown s)).bind proposalText with
  | none => s
  | some detail => { s with block := Block.proposal detail }

/-- The commands among the accesses of a tool. -/
def executions (accesses : List Access) : List ShellEvent :=
  accesses.filterMap fun
    | .shell command => some (.execute (some command))
    | _ => none

def executeApproved (s : Fusion) : Fusion :=
  if s.block.command = [] then s
  else
    let s := { s with block := s.block.mark .running }
    match finish TERM_SESSION_SURFACE_PROMPT_MAX (writeField (ascii "command") s.block.command) with
    | none => s
    | some input =>
      let ran := executions (toolRunCommand env.stale env.answers input)
      let s := { s with history := s.history ++ ran }
      if !env.finished then s
      else updateSurface env { s with block := s.block.mark .done }

def maybeAutoExecute (s : Fusion) : Fusion :=
  if s.block.isPending ∧ s.block.commandClass ≠ .none ∧ s.allow s.block.commandClass then
    executeApproved env s
  else s

/-- The agent process logs, and proposes. -/
def act (s : Fusion) (a : Act) : Fusion :=
  { s with
    log := (logStep s.log a.call).getD s.log
    history := s.history ++ (a.proposed.map Event.propose).toList }

/-- The end of `shell_run_agent_fusion`, after the agent has been started. -/
def agentRun (acts : List Act) (s : Fusion) : Fusion :=
  maybeAutoExecute env (updateAudit env (updateSurface env (acts.foldl act s)))

/-- `shell_fusion_resume_session`. On failure the id is already replaced. -/
def resumeSession (id : List UInt8) (s : Fusion) : Fusion :=
  if id = [] then s
  else
    match env.found with
    | none => { s with sessionId := id }
    | some own => updateSurface env { s with sessionReady := true, sessionId := own.getD id }

/-- What separates the words of a line. -/
def isLineBlank (c : UInt8) : Bool := c = 32 ∨ c = 9 ∨ c = 13 ∨ c = 10

/-- The first word of a line that starts with a slash, and what follows it. -/
def fusionToken (text : List UInt8) : Option (List UInt8 × List UInt8) :=
  let text := text.dropWhile isLineBlank
  if text.head? = some 47 then
    let token := (text.takeWhile fun c => !isLineBlank c).take (AGENT_FUSION_TEXT_MAX - 1)
    some (token, (text.drop token.length).dropWhile isLineBlank)
  else none

def clearSession (s : Fusion) : Fusion :=
  let s := { s with sessionReady := false, sessionId := [], history := s.history ++ [.reset] }
  match ensureSession env s with
  | none => s
  | some s => { s with block := Block.clear }

def resumeLine (s : Fusion) (rest : List UInt8) : Fusion :=
  let s := { s with history := s.history ++ [.reset] }
  if rest = [] then s
  else if rest = ascii "latest" then
    match env.latest with
    | none => s
    | some id => resumeSession env id s
  else resumeSession env (rest.take SESSION_ID_LEN) s

def approveLine (s : Fusion) (rest : List UInt8) : Fusion :=
  if !s.block.isPending then s
  else if rest = ascii "session" ∧ s.block.commandClass ≠ .none then
    executeApproved env { s with
      allow := fun c => if c = s.block.commandClass then true else s.allow c
      history := s.history ++ [.grant s.block.commandClass] }
  else if rest = ascii "once" then
    executeApproved env { s with history := s.history ++ [.approve] }
  else s

def denyLine (s : Fusion) : Fusion :=
  if !s.block.isPending then s
  else { s with block := s.block.mark .denied, history := s.history ++ [.deny] }

/-- `shell_handle_fusion_command`; `none` for -2, when the line is no such command. -/
def handleFusionCommand (s : Fusion) (text : List UInt8) : Option Fusion :=
  match fusionToken text with
  | none => none
  | some (token, rest) =>
    if token ∈ ["/mode", "/help", "/sessions", "/permissions", "/drawer"].map ascii then some s
    else if token = ascii "/status" then
      some (((ensureSession env s).map (updateSurface env)).getD s)
    else if token = ascii "/clear" then some (clearSession env s)
    else if token = ascii "/compact" then
      some (((ensureSession env s).map fun s => if env.compacted then updateSurface env s else s).getD s)
    else if token = ascii "/resume" then some (resumeLine env s rest)
    else if token = ascii "/approve" then some (approveLine env s rest)
    else if token = ascii "/deny" then some (denyLine s)
    else none

/-- `shell_fusion_build_agent_argv` makes sure that there is a session; `none` for -1. -/
def prepareAgent (isRun : Bool) (s : Fusion) : Option Fusion :=
  if isRun then ensureSession env s else some s

/-- A line that goes to the agent or to the shell. -/
def routeLine (s : Fusion) : Fusion :=
  match env.route with
  | .shell => s
  | .agent isRun acts =>
    match prepareAgent env isRun s with
    | none => s
    | some s => (acts.map fun acts => agentRun env acts s).getD s

end Shell

/-- A line that the user enters, or a call of another program that uses the log. -/
inductive Input where
  | line (env : Env) (text : List UInt8)
  | audit (io : Io) (call : Audit.Call)

/-- The main loop of `eshell`, for one line. -/
def fusionStep (s : Fusion) : Input → Option Fusion
  | .line env text => some ((handleFusionCommand env s text).getD (routeLine env s))
  | .audit io call => (logStep s.log (io, call)).map fun log => { s with log := log }

/-- A text that reaches `tool_run_command` as it was proposed. -/
def Intact (x : List UInt8) : Prop := blockTrim x = x ∧ IsUtf8 x

instance (x : List UInt8) : Decidable (Intact x) := inferInstanceAs (Decidable (_ ∧ _))

/-- The shell finds the last proposal of the process that it has just run, if there is one, and no
other; and nothing is missing in it. -/
def FoundByShell (env : Env) (s : Fusion) (acts : List Act) : Prop :=
  let t := updateSurface env (acts.foldl act s)
  Runs.Along logStep Undisturbed s.log (acts.map Act.call) ∧
    (t.log.file.isSome → Readable env.read t.log) ∧
    ((shown t ((t.log.kept.rtake 8).map Entry.toRecord)).bind proposalText).map some =
      lastProposal acts ∧
    ∀ x ∈ (lastProposal acts).join, Intact x

/-- The line starts a new session or goes back to an old one. -/
def isReset (text : List UInt8) : Bool :=
  (fusionToken text).any fun line => line.1 = ascii "/clear" ∨ line.1 = ascii "/resume"

/-- No class is granted when the session changes, and proposals are found as they were made. -/
def Orderly (s : Fusion) : Input → Prop
  | .line env text =>
    (isReset text = true → ∀ c, s.allow c = false) ∧
      match env.route with
      | .agent isRun (some acts) => (handleFusionCommand env s text).isNone →
        ∀ t ∈ prepareAgent env isRun s, FoundByShell env t acts
      | _ => True
  | .audit io call => Undisturbed s.log (io, call)

instance (env : Env) (s : Fusion) (acts : List Act) : Decidable (FoundByShell env s acts) :=
  inferInstanceAs (Decidable (_ ∧ _ ∧ _ ∧ _))

instance (s : Fusion) : ∀ input, Decidable (Orderly s input)
  | .line env text =>
    have : Decidable (match env.route with
        | .agent isRun (some acts) => (handleFusionCommand env s text).isNone →
          ∀ t ∈ prepareAgent env isRun s, FoundByShell env t acts
        | _ => True) := by
      cases env.route with
      | shell => exact inferInstanceAs (Decidable True)
      | agent isRun acts =>
        cases acts with
        | none => exact inferInstanceAs (Decidable True)
        | some acts => exact inferInstanceAs (Decidable (_ → _))
    inferInstanceAs (Decidable (_ ∧ _))
  | .audit _ _ => inferInstanceAs (Decidable (Undisturbed _ _))

end Sodex.Agent
