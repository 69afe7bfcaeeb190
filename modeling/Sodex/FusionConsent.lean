import Sodex.FusionShell
import Sodex.JsonAccess
import Sodex.JsonUtf8

/-!
# Commands of the agent run only with consent

The block that the shell keeps is pending only for the last proposal that was made, and the classes
it allows were granted since the session changed, as long as the proposals are found as they were
made.
-/
namespace Sodex.Agent

open CText Json Audit Consent Runs List Option

variable {s t : Fusion} {env : Env} {x : List UInt8}

/-- The text of an object with one string in it. -/
def fieldDocument (key text : List Item) : Document where
  before := noWs
  value := .object noWs (.cons noWs key noWs noWs (.string text) noWs .nil)
  after := noWs

theorem jsonGetStringField_writeField (stale : Stale) {key text : List UInt8} {cap : ℕ}
    (hplain : escapeLoop key.length key = key) (htext : IsUtf8 text) (hroom : text.length < cap) :
    jsonGetStringField stale (writeField key text) key cap = some text := by
  obtain ⟨k, hk, -⟩ := escapeLoop_items key.length key le_rfl
  obtain ⟨s, hs, hdecoded, -⟩ := escapeLoop_items text.length text le_rfl
  have hwritten : writeField key text = (fieldDocument k s).text := by
    rw [writeField, writeEscaped, writeEscaped, ← hk, ← hs]
    simp [fieldDocument, Document.text, Value.text, Members.text, quoted, separator,
      noWs]
  have hroot : (fieldDocument k s).Holds 0 _ := .root
  have hfind : findKey (fieldDocument k s).text (fieldDocument k s).tokens 0 key = some 2 := by
    rw [findKey_stands hroot.stands]
    simp [Members.entries, hk, hplain, Members.index]
  obtain ⟨t, ht, hstr⟩ := tokenStr_stands (hroot.member (i := 0) rfl).stands.string
  have ht : (fieldDocument k s).tokens[2]? = some t := ht
  have hcount : (fieldDocument k s).value.count ≤ 32 := (by decide : 3 ≤ 32)
  have hdecoded := hdecoded htext
  rw [hwritten]
  simp only [jsonGetStringField, fieldToken, parse_document _ hcount, hfind, map_some, ht,
    hstr cap (by rwa [hdecoded]), hdecoded]

theorem executions_command (stale : Stale) (answers : Answers) {text : List UInt8}
    (htext : IsUtf8 text) (hfits : FitsBuffer 256 text) :
    executions (toolRunCommand stale answers (writeField (ascii "command") text)) =
      [.execute (some text)] := by
  have hroom : text.length < 512 := by have := hfits.1; omega
  rw [toolRunCommand, jsonGetStringField_writeField stale (by decide) htext hroom]
  simp [executions, cstr_eq_self hfits.2]

/-- What the shell keeps agrees with the history. -/
structure Linked (s : Fusion) : Prop where
  consented : Consented proposalClass s.history
  pending : s.block.isPending = true →
    Pending s.history (some s.block.command) ∧
      s.block.commandClass = classify s.block.command ∧ IsUtf8 s.block.command ∧
      FitsBuffer 256 s.block.command
  granted : ∀ c, s.allow c = true → Granted s.history c
  written : s.log.Written

theorem linked_init : Linked Fusion.init where
  consented := consented_nil
  pending := nofun
  granted := nofun
  written := Log.written_empty

/-- Two states differ in their session only. -/
structure SameButSession (s t : Fusion) : Prop where
  log : t.log = s.log
  block : t.block = s.block
  allow : t.allow = s.allow
  history : t.history = s.history

theorem SameButSession.refl (s : Fusion) : SameButSession s s := ⟨rfl, rfl, rfl, rfl⟩

theorem Linked.of_same (h : Linked s) (hsame : SameButSession s t) : Linked t := by
  obtain ⟨hlog, hblock, hallow, hhistory⟩ := hsame
  constructor
  · rw [hhistory]
    exact h.consented
  · rw [hhistory, hblock]
    exact h.pending
  · rw [hhistory, hallow]
    exact h.granted
  · rw [hlog]
    exact h.written

theorem same_updateSurface (env : Env) (s : Fusion) : SameButSession s (updateSurface env s) := by
  unfold updateSurface
  split <;> exact ⟨rfl, rfl, rfl, rfl⟩

theorem same_ensureSession (h : ensureSession env s = some t) : SameButSession s t := by
  unfold ensureSession at h
  split at h
  · cases h
    exact .refl s
  · obtain ⟨id, -, rfl⟩ := map_eq_some_iff.mp h
    obtain ⟨hlog, hblock, hallow, hhistory⟩ :=
      same_updateSurface env { s with sessionReady := true, sessionId := id }
    exact ⟨hlog, hblock, hallow, hhistory⟩

/-- An event that executes nothing, and after which the block stays as it is. -/
theorem Linked.event (h : Linked s) (ev : ShellEvent) (hev : ∀ x, ev ≠ .execute x)
    (hpending : s.block.isPending = true → ev.settles = false)
    (hgranted : ev = .reset → ∀ c, s.allow c = false) :
    Linked { s with history := s.history ++ [ev] } where
  consented := h.consented.snoc hev
  pending := fun hp => ⟨(h.pending hp).1.snoc (hpending hp), (h.pending hp).2⟩
  granted := by
    intro c hc
    apply (h.granted c hc).snoc
    intro hreset
    rw [hgranted hreset c] at hc
    cases hc
  written := h.written

theorem Linked.settled (h : Linked s) {b : Block} (hb : b.isPending = false) :
    Linked { s with block := b } :=
  ⟨h.consented, fun hp => absurd (hp.symm.trans hb) (by decide), h.granted, h.written⟩

theorem Linked.executeApproved (h : Linked s) (hpending : s.block.isPending = true)
    (hconsent : Approved s.history (some s.block.command) ∨ Granted s.history s.block.commandClass)
    (env : Env) : Linked (executeApproved env s) := by
  obtain ⟨hlast, hclass, hutf8, hfits⟩ := h.pending hpending
  have hrunning : (s.block.mark .running).isPending = false := by simp [Block.mark, Block.isPending]
  have hdone : ((s.block.mark .running).mark .done).isPending = false := by
    simp [Block.mark, Block.isPending]
  unfold Agent.executeApproved
  split
  · exact h
  · dsimp only
    split
    · exact h.settled hrunning
    · rename_i input hinput
      have hinput : input = writeField (ascii "command") s.block.command := by
        unfold finish at hinput
        split at hinput
        · exact (some.inj hinput).symm
        · cases hinput
      have hran : Linked { s with
          block := s.block.mark .running
          history := s.history ++ executions (toolRunCommand env.stale env.answers input) } := by
        rw [hinput, executions_command _ _ hutf8 hfits]
        constructor
        · apply h.consented.concat
          intro x hx
          cases hx
          rcases hconsent with happroved | hgranted
          · exact .inl happroved
          · exact .inr ⟨hlast, by rw [proposalClass, getD_some, ← hclass]; exact hgranted⟩
        · exact fun hp => absurd (hp.symm.trans hrunning) (by decide)
        · exact fun c hc => (h.granted c hc).snoc nofun
        · exact h.written
      split
      · exact hran
      · exact (hran.settled hdone).of_same (same_updateSurface env _)

/-- What the process proposes is appended to the history, and what it logs to the log. -/
theorem foldl_act (acts : List Act) (s : Fusion) :
    (acts.foldl act s).block = s.block ∧ (acts.foldl act s).allow = s.allow ∧
      (acts.foldl act s).history = s.history ++ (acts.filterMap Act.proposed).map Event.propose ∧
      run logStep s.log (acts.map Act.call) = some (acts.foldl act s).log := by
  induction acts generalizing s with
  | nil => simp [run]
  | cons a acts ih =>
    obtain ⟨hblock, hallow, hhistory, hlog⟩ := ih (act s a)
    have hstep : logStep s.log a.call = some (act s a).log := by cases a <;> rfl
    refine ⟨hblock, hallow, ?_, ?_⟩
    · rw [foldl_cons, hhistory]
      cases hproposed : a.proposed <;> simp [act, hproposed]
    · rw [map_cons, run, hstep]
      exact hlog

theorem Linked.proposals (h : Linked s) (xs : List (Option (List UInt8))) :
    Consented proposalClass (s.history ++ xs.map Event.propose) ∧
      (∀ c, s.allow c = true → Granted (s.history ++ xs.map Event.propose) c) ∧
      ∀ x, xs.getLast? = some x → Pending (s.history ++ xs.map Event.propose) x := by
  induction xs using reverseRecOn with
  | nil => simpa using ⟨h.consented, h.granted⟩
  | append_singleton xs x ih =>
    obtain ⟨hconsented, hgranted, -⟩ := ih
    rw [map_append, ← append_assoc]
    refine ⟨hconsented.snoc nofun, fun c hc => (hgranted c hc).snoc nofun, fun y hy => ?_⟩
    rw [getLast?_concat, some.injEq] at hy
    exact hy ▸ pending_propose

theorem mem_of_shown {entries : List Record} {r : Record}
    (h : shown s entries = some r) : r ∈ entries := by
  rcases or_eq_some_iff.mp h with h | ⟨-, h⟩
  · split at h
    · exact mem_reverse.mp (mem_of_find?_eq_some h)
    · cases h
  · exact mem_of_getLast? h

theorem fits_of_shown {kept : List Entry}
    (h : (shown s (kept.map Entry.toRecord)).bind proposalText = some x) : FitsBuffer 256 x := by
  obtain ⟨r, hr, hx⟩ := bind_eq_some_iff.mp h
  obtain ⟨e, -, rfl⟩ := mem_map.mp (mem_of_shown hr)
  unfold proposalText at hx
  split at hx
  · exact some.inj hx ▸ e.detail_fits
  · cases hx

theorem proposal_intact (hfits : FitsBuffer 256 x) (h : Intact x) :
    Block.proposal x = ⟨true, classify x, .pending, x⟩ := by
  have hcopy : copyString TERM_COMMAND_BLOCK_TEXT_MAX x = x :=
    copyString_eq_self hfits.2 (Nat.le_sub_one_of_lt hfits.1)
  rw [Block.proposal, h.1, hcopy]

theorem read_entries (hwritten : t.log.Written)
    (hread : t.log.file.isSome → Readable env.read t.log) :
    (auditReadLast env.read t.log.file 8).bind (shown t) =
      shown t ((t.log.kept.rtake 8).map Entry.toRecord) := by
  cases hfile : t.log.file with
  | none =>
    rw [hwritten.kept_nil hfile]
    simp [auditReadLast, shown]
  | some text =>
    have := hwritten.read_last (hread (by rw [hfile]; rfl)) (n := 8) (by decide)
    rw [← hfile, this, bind_some]

section

variable (h : Linked s)
include h

theorem Linked.maybeAutoExecute (env : Env) : Linked (maybeAutoExecute env s) := by
  unfold Agent.maybeAutoExecute
  split
  · rename_i hauto
    exact h.executeApproved hauto.1 (.inr (h.granted _ hauto.2.2)) env
  · exact h

theorem Linked.agentRun {acts : List Act}
    (hfound : FoundByShell env s acts) : Linked (agentRun env acts s) := by
  obtain ⟨hcalls, hread, hlast, hintact⟩ := hfound
  obtain ⟨hblock, hallow, hhistory, hlog⟩ := foldl_act acts s
  obtain ⟨hconsented, hgranted, hpending⟩ := h.proposals (acts.filterMap Act.proposed)
  rw [← hhistory] at hconsented hgranted hpending
  have hwritten : (acts.foldl act s).log.Written := h.written.run hcalls hlog
  unfold Agent.agentRun
  apply Linked.maybeAutoExecute
  generalize acts.foldl act s = t₀ at *
  obtain ⟨hlog', hblock', hallow', hhistory'⟩ := same_updateSurface env t₀
  generalize updateSurface env t₀ = t at *
  rw [← hhistory'] at hconsented hgranted hpending
  rw [← hlog'] at hwritten
  rw [← hallow, ← hallow'] at hgranted
  unfold updateAudit
  rw [read_entries hwritten hread]
  cases hshown : (shown t ((t.log.kept.rtake 8).map Entry.toRecord)).bind proposalText with
  | none =>
    -- the process proposed nothing
    have hnone : acts.filterMap Act.proposed = [] := by
      rw [hshown] at hlast
      exact getLast?_eq_none_iff.mp hlast.symm
    refine ⟨hconsented, ?_, hgranted, hwritten⟩
    rw [hhistory', hhistory, hnone, hblock', hblock]
    simpa using h.pending
  | some x =>
    rw [hshown] at hlast
    have hx : Intact x := hintact x (by rw [← hlast]; rfl)
    have hfits := fits_of_shown hshown
    dsimp only
    rw [proposal_intact hfits hx]
    exact ⟨hconsented, fun _ => ⟨hpending (some x) hlast.symm, rfl, hx.2, hfits⟩, hgranted,
      hwritten⟩

theorem Linked.resumeSession (env : Env) (id : List UInt8) :
    Linked (resumeSession env id s) := by
  unfold Agent.resumeSession
  split
  · exact h
  · split
    · exact h.of_same ⟨rfl, rfl, rfl, rfl⟩
    · rename_i own _
      have hready : Linked { s with sessionReady := true, sessionId := own.getD id } :=
        h.of_same ⟨rfl, rfl, rfl, rfl⟩
      exact hready.of_same (same_updateSurface env _)

theorem Linked.clearSession (hallow : ∀ c, s.allow c = false)
    (env : Env) : Linked (clearSession env s) := by
  have hreset : Linked { s with
      sessionReady := false, sessionId := [], history := s.history ++ [.reset] } :=
    (h.event .reset nofun (fun _ => rfl) (fun _ => hallow)).of_same ⟨rfl, rfl, rfl, rfl⟩
  unfold Agent.clearSession
  dsimp only
  split
  · exact hreset
  · rename_i t ht
    exact (hreset.of_same (same_ensureSession ht)).settled rfl

theorem Linked.resumeLine (hallow : ∀ c, s.allow c = false)
    (env : Env) (rest : List UInt8) : Linked (resumeLine env s rest) := by
  have hreset : Linked { s with history := s.history ++ [.reset] } :=
    h.event .reset nofun (fun _ => rfl) (fun _ => hallow)
  unfold Agent.resumeLine
  dsimp only
  split
  · exact hreset
  · split
    · split
      · exact hreset
      · exact hreset.resumeSession env _
    · exact hreset.resumeSession env _

theorem Linked.approveLine (env : Env) (rest : List UInt8) :
    Linked (approveLine env s rest) := by
  unfold Agent.approveLine
  split
  · exact h
  · rename_i hpending
    have hpending : s.block.isPending = true := by simpa using hpending
    split
    · -- the class of the command is granted, and the command is approved
      have hgrant : Linked { s with
          allow := fun c => if c = s.block.commandClass then true else s.allow c
          history := s.history ++ [.grant s.block.commandClass] } := by
        have hevent := h.event (.grant s.block.commandClass) nofun (fun _ => rfl) nofun
        refine ⟨hevent.consented, hevent.pending, fun c hc => ?_, hevent.written⟩
        by_cases hclass : c = s.block.commandClass
        · rw [hclass]
          exact granted_grant
        · exact hevent.granted c (by simpa [hclass] using hc)
      exact hgrant.executeApproved hpending (.inr granted_grant) env
    · split
      · have hevent := h.event .approve nofun (fun _ => rfl) nofun
        exact hevent.executeApproved hpending (.inl ((h.pending hpending).1.approved rfl)) env
      · exact h

theorem Linked.denyLine : Linked (denyLine s) := by
  unfold Agent.denyLine
  split
  · exact h
  · have hdenied : (s.block.mark .denied).isPending = false := by simp [Block.mark, Block.isPending]
    exact (h.settled hdenied).event .deny nofun
      (fun hp => absurd (hp.symm.trans hdenied) (by decide)) nofun

theorem Linked.ensureSession_getD (env : Env) {f : Fusion → Fusion}
    (hf : ∀ t, SameButSession t (f t)) : Linked (((ensureSession env s).map f).getD s) := by
  cases hensure : ensureSession env s with
  | none => exact h
  | some t => exact (h.of_same (same_ensureSession hensure)).of_same (hf t)

theorem Linked.handleFusionCommand {text : List UInt8}
    (hreset : isReset text = true → ∀ c, s.allow c = false)
    (ht : handleFusionCommand env s text = some t) : Linked t := by
  unfold Agent.handleFusionCommand at ht
  split at ht
  · cases ht
  · rename_i token rest htoken
    have hreset : token = ascii "/clear" ∨ token = ascii "/resume" → ∀ c, s.allow c = false := by
      intro hline
      apply hreset
      simpa [isReset, htoken] using hline
    split at ht
    · exact some.inj ht ▸ h
    · split at ht
      · exact some.inj ht ▸ h.ensureSession_getD env (same_updateSurface env)
      · split at ht
        · rename_i hclear
          exact some.inj ht ▸ h.clearSession (hreset (.inl hclear)) env
        · split at ht
          · refine some.inj ht ▸ h.ensureSession_getD env fun t => ?_
            split
            · exact same_updateSurface env t
            · exact .refl t
          · split at ht
            · rename_i hresume
              exact some.inj ht ▸ h.resumeLine (hreset (.inr hresume)) env rest
            · split at ht
              · exact some.inj ht ▸ h.approveLine env rest
              · split at ht
                · exact some.inj ht ▸ h.denyLine
                · cases ht

theorem Linked.routeLine (hfound : match env.route with
      | .agent isRun (some acts) => ∀ t ∈ prepareAgent env isRun s, FoundByShell env t acts
      | _ => True) : Linked (routeLine env s) := by
  unfold Agent.routeLine
  cases hroute : env.route with
  | shell => exact h
  | agent isRun acts =>
    rw [hroute] at hfound
    cases hprepare : prepareAgent env isRun s with
    | none => simpa [hprepare] using h
    | some t =>
      have hlinked : Linked t := by
        cases isRun with
        | false => exact some.inj hprepare ▸ h
        | true => exact h.of_same (same_ensureSession hprepare)
      cases acts with
      | none => simpa [hprepare] using hlinked
      | some acts =>
        simp only [hprepare, map_some, getD_some]
        exact hlinked.agentRun (hfound t hprepare)

theorem Linked.step {input : Input} (horderly : Orderly s input)
    (hstep : fusionStep s input = some t) : Linked t := by
  cases input with
  | audit io call =>
    obtain ⟨log, hlog, rfl⟩ := map_eq_some_iff.mp hstep
    exact ⟨h.consented, h.pending, h.granted, h.written.step horderly hlog⟩
  | line env text =>
    obtain ⟨hreset, hfound⟩ := horderly
    obtain rfl := some.inj hstep
    cases hhandle : Agent.handleFusionCommand env s text with
    | some t => exact h.handleFusionCommand hreset hhandle
    | none =>
      apply h.routeLine
      rw [hhandle] at hfound
      split
      · rename_i isRun acts hroute
        rw [hroute] at hfound
        exact hfound rfl
      · trivial

end

/-- In every run of the shell in which no class is granted when the session changes, and in which
the proposals are found as they were made, whatever is executed was proposed with exactly that text,
has not been executed, denied or replaced since, and was approved or is of a class granted. -/
theorem executions_consented (inputs : List Input) (s : Fusion)
    (hrun : run fusionStep Fusion.init inputs = some s)
    (horderly : Along fusionStep Orderly Fusion.init inputs) :
    Consented proposalClass s.history :=
  (run_preserves (fun _ _ _ hs hinput hstep => hs.step hinput hstep) inputs Fusion.init s linked_init
    horderly hrun).consented

def stillTokens : Stale := ⟨fun _ => none, fun _ => none⟩

/-- A line for which everything works, and that goes where the route says. -/
def plainEnv (route : Route) : Env where
  created := some (ascii "s1")
  latest := none
  found := none
  own := none
  compacted := false
  route := route
  read := wholeIo
  stale := stillTokens
  answers := ⟨true, true, 0, fun _ => 0, 0⟩
  finished := true

def agentAuthor : Author := ⟨ascii "s1", 0, fits_session, by decide⟩

/-- The agent is asked and proposes a command. -/
def askedFor (command : List UInt8) : Input :=
  .line (plainEnv (.agent true (some
    [.propose wholeIo agentAuthor stillTokens (writeField (ascii "command") command)])))
    (ascii "agent do it")

def entered (text : List UInt8) : Input := .line (plainEnv .shell) text

/-- One proposal is approved for the session, a second one runs under the grant, and a third one is
denied. -/
def threeProposals : List Input :=
  [askedFor (ascii "ls -l"), entered (ascii "/approve session"), askedFor (ascii "pwd"),
    askedFor (ascii "rm a"), entered (ascii "/deny")]

theorem threeProposals_consented : ∃ s, run fusionStep Fusion.init threeProposals = some s ∧
      s.history = [.propose (some (ascii "ls -l")), .grant .readOnly,
        .execute (some (ascii "ls -l")), .propose (some (ascii "pwd")),
        .execute (some (ascii "pwd")), .propose (some (ascii "rm a")), .deny] ∧
      Consented proposalClass s.history := by
  have hrun : (run fusionStep Fusion.init threeProposals).map (fun s => decide
      (s.history = [.propose (some (ascii "ls -l")), .grant .readOnly,
        .execute (some (ascii "ls -l")), .propose (some (ascii "pwd")),
        .execute (some (ascii "pwd")), .propose (some (ascii "rm a")), .deny])) = some true := by
    decide +kernel
  obtain ⟨s, hs, hhistory⟩ := map_eq_some_iff.mp hrun
  exact ⟨s, hs, of_decide_eq_true hhistory,
    executions_consented threeProposals s hs (by decide +kernel)⟩

/-- After the command has run, the agent is asked again and logs nothing. -/
def proposedOnce : List Input :=
  [askedFor (ascii "ls"), entered (ascii "/approve session"),
    .line (plainEnv (.agent true (some []))) (ascii "agent thanks")]

theorem proposal_executed_twice : ∃ s, run fusionStep Fusion.init proposedOnce = some s ∧
      s.history = [.propose (some (ascii "ls")), .grant .readOnly] ++
        [.execute (some (ascii "ls"))] ++ [.execute (some (ascii "ls"))] ∧
      ¬Consented proposalClass s.history := by
  have hrun : (run fusionStep Fusion.init proposedOnce).map (fun s => decide
      (s.history = [.propose (some (ascii "ls")), .grant .readOnly] ++
        [.execute (some (ascii "ls"))] ++ [.execute (some (ascii "ls"))])) = some true := by
    decide +kernel
  obtain ⟨s, hs, hhistory⟩ := map_eq_some_iff.mp hrun
  have hhistory := of_decide_eq_true hhistory
  refine ⟨s, hs, hhistory, ?_⟩
  rw [hhistory]
  exact not_consented_twice

end Sodex.Agent
