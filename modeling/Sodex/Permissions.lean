import Sodex.AgentTools
import Sodex.Ext3Walk
import Sodex.PathStack

/-!
# What the permission check is worth

The check compares bytes, the kernel walks components. The two agree on paths and rules in canonical
form, but a path or a rule with an empty component is not a prefix of the same path without it, and
`agent_normalize_path` makes such paths. And the tools open files that the check never looked at.
-/
namespace Sodex.Agent

open CText Components Json Runs List Option
open Ext3 hiding cstr

theorem Plain.names {path : List UInt8} (h : Plain path) : Names (components slash path) := by
  intro c hc
  obtain ⟨hdot, hdotdot⟩ := h.dotless c hc
  exact ⟨(of_mem_components slash hc).1, hdot, hdotdot⟩

theorem Plain.resolve {path : List UInt8} (h : Plain path) (s : Fs) :
    Ext3.resolvePath s path = walkNames s (components slash path) s.rootdir :=
  resolvePath_absolute s h.absolute

theorem PathRule.plain (rule : PathRule) : Plain rule.val := by
  obtain ⟨value, hvalue⟩ := rule.property
  exact normalizePath_plain hvalue

/-- The names lead below an allowed path, if there are any, and below no denied one. -/
def Clears (rules : PathRules) (names : List (List UInt8)) : Prop :=
  (rules.allow ≠ [] → ∃ rule ∈ rules.allow, components slash rule.val <+: names) ∧
    ∀ rule ∈ rules.deny, ¬components slash rule.val <+: names

section Canonical

variable {s : Fs} {kids : ℕ → List ℕ} {rules : PathRules} {names : List (List UInt8)}
  {name rule full : List UInt8}

theorem Clears.child (hclears : Clears rules names)
    (hnone : ∀ rule ∈ rules.deny, components slash rule.val ≠ names ++ [name]) :
    Clears rules (names ++ [name]) := by
  refine ⟨fun hne => ?_, fun rule hmem hbelow => ?_⟩
  · obtain ⟨rule, hmem, hbelow⟩ := hclears.1 hne
    exact ⟨rule, hmem, hbelow.trans ( prefix_append _ _)⟩
  · rcases prefix_concat_iff.mp hbelow with heq | hbelow
    · exact hnone rule hmem heq
    · exact hclears.2 rule hmem hbelow

/-- For names and a rule in canonical form the comparison of bytes finds what is below. -/
theorem pathIsUnder_joinNames (hrule : Canonical rule) (h : components slash rule <+: names) :
    pathIsUnder (joinNames names) rule = true := by
  obtain ⟨above, rfl, habove⟩ := hrule
  rw [components_joinNames habove] at h
  obtain ⟨rest, rfl⟩ := h
  unfold pathIsUnder
  split_ifs with hroot
  · simp [head_joinNames]
  · have hne : above ≠ [] := fun hnil => hroot (by rw [hnil]; rfl)
    have hsplit : joinNames (above ++ rest) = joinNames above ++ rest.flatMap (slash :: ·) := by
      simp [joinNames, hne]
    rw [hsplit]
    cases rest <;> simp

theorem clears_of_pathAllowed (hnames : ∀ c ∈ names, IsName c)
    (hdeny : ∀ rule ∈ rules.deny, Canonical rule.val)
    (h : pathAllowed (joinNames names) rules = true) : Clears rules names := by
  simp only [pathAllowed, Bool.and_eq_true, Bool.or_eq_true, List.isEmpty_iff, List.any_eq_true,
    Bool.not_eq_true', List.any_eq_false] at h
  refine ⟨fun hne => ?_, fun rule hmem hbelow => ?_⟩
  · obtain ⟨rule, hmem, hunder⟩ := h.1.resolve_left hne
    have habove := above_of_pathIsUnder hunder
    rw [Above, components_joinNames hnames] at habove
    exact ⟨rule, hmem, habove⟩
  · exact h.2 rule hmem (pathIsUnder_joinNames (hdeny rule hmem) hbelow)

end Canonical

def Policy.rules (policy : Policy) : Tool → PathRules
  | .readFile | .listDir => policy.read
  | _ => policy.write

/-- The text of a field that has a value. -/
def fieldText (input key : List UInt8) (cap : ℕ) : Option (List UInt8) :=
  (fieldToken input key).join.bind fun t => tokenStr input t cap

/-- The text that `agent_resolve_path` normalizes. -/
def pathText (cwd : Option (List UInt8)) (path : List UInt8) : Option (List UInt8) :=
  if path = [] then none
  else if path.head? = some slash then some path
  else joinText (cwd.getD AGENT_DEFAULT_HOME) path

/-- No name of the path comes after a `..` that left something. -/
def Straight (cwd : Option (List UInt8)) (raw : List UInt8) : Prop :=
  ∀ text ∈ pathText cwd (cstr raw), Steady AGENT_PATH_MAX [] false (components slash text)

/-- The names of the regular files in the records that were read of a directory. -/
def regularNames (answers : Answers) : ℕ → ℕ → List (List UInt8)
  | 0, _ => []
  | fuel + 1, offset =>
    let next := offset + entryLen answers offset
    if entryLen answers offset < 8 ∨ answers.bytesRead < next then []
    else
      (if answers.dirBuf (offset + 7) = EXT3_FT_REG_FILE then [entryName answers offset] else []) ++
        regularNames answers fuel next

/-- The keys whose values a tool takes as paths or as a command. -/
def Tool.keys : Tool → List (List UInt8)
  | .readFile | .listDir | .writeFile => [ascii "path"]
  | .renamePath => [ascii "from", ascii "to"]
  | .runCommand => [ascii "command"]
  | _ => []

/-- What the check takes for granted. -/
structure Sane (policy : Policy) (tool : Tool) (cwd : Option (List UInt8)) (answers : Answers)
    (input : List UInt8) : Prop where
  valued : ∀ key ∈ tool.keys, fieldToken input key ≠ some none
  straight : tool ≠ .runCommand → ∀ key ∈ tool.keys, ∀ raw ∈ fieldText input key AGENT_PATH_MAX,
    Straight cwd raw
  denied : ∀ rule ∈ (policy.rules tool).deny, Canonical rule.val
  /-- The artifact of `read_file` is opened unchecked. -/
  artifact : tool = .readFile →
    pathAllowed (artifactPath (ascii "read") answers.artifactCounter) policy.read = true
  /-- So are the files of a directory, for their sizes. -/
  listing : tool = .listDir → ∀ name ∈ regularNames answers answers.bytesRead 0, slash ∉ name ∧
    ∀ raw ∈ fieldText input (ascii "path") AGENT_PATH_MAX, ∀ text ∈ pathText cwd (cstr raw),
      ∀ names ∈ evaluate text, ∀ rule ∈ policy.read.deny,
        components slash rule.val ≠ names ++ [name]
  /-- An empty command is not compared. -/
  command : tool = .runCommand → fieldText input (ascii "command") 512 = some [] →
    ∀ entry ∈ policy.denyCommands, cstr entry ≠ []

section Tools

variable {policy : Policy} {tool : Tool} {cwd : Option (List UInt8)} {answers : Answers}
  {input key path : List UInt8} {stale checkStale : Stale} {s : Fs} {kids : ℕ → List ℕ}

theorem jsonGetStringField_eq (h : fieldToken input key ≠ some none) (cap : ℕ) :
    jsonGetStringField stale input key cap = fieldText input key cap := by
  unfold jsonGetStringField fieldText
  split
  · next hnone => rw [hnone]; rfl
  · next ht => rw [ht]; rfl
  · next hstale => exact absurd hstale h

theorem resolvePath_eq (cwd : Option (List UInt8)) (path : List UInt8) (cap : ℕ) :
    resolvePath cwd path cap = (pathText cwd path).bind fun text => normalizePath text cap := by
  unfold resolvePath pathText
  split_ifs <;> rfl

/-- A path of the input that was checked stands for names that are clear. -/
theorem Sane.checked (h : Sane policy tool cwd answers input) (htool : tool ≠ .runCommand)
    (hkey : key ∈ tool.keys) (hpath : jsonGetNormalizedPath stale cwd input key = some path)
    (hcheck : checkPath (policy.rules tool) (jsonGetNormalizedPath checkStale cwd input key) = true) :
    ∃ names, path = joinNames names ∧ (∀ c ∈ names, IsName c) ∧ Clears (policy.rules tool) names ∧
      ∃ raw ∈ fieldText input key AGENT_PATH_MAX, ∃ text ∈ pathText cwd (cstr raw),
        evaluate text = some names := by
  unfold jsonGetNormalizedPath at hpath hcheck
  rw [jsonGetStringField_eq (h.valued key hkey)] at hpath hcheck
  rw [hpath] at hcheck
  obtain ⟨raw, hraw, hpath⟩ := bind_eq_some_iff.mp hpath
  rw [resolvePath_eq] at hpath
  obtain ⟨text, htext, hpath⟩ := bind_eq_some_iff.mp hpath
  have hsteady := h.straight htool key hkey raw hraw text htext
  have habs : text.head? = some slash := by
    by_contra hrel
    rw [normalizePath, if_pos (.inr hrel)] at hpath
    cases hpath
  rw [hsteady.answer habs (by decide)] at hpath
  obtain ⟨names, hrun, rfl⟩ := map_eq_some_iff.mp hpath
  have heval : evaluate text = some names := (bounded_run (by decide) hrun).1
  have hnames := names_evaluate heval
  refine ⟨names, rfl, hnames, clears_of_pathAllowed hnames h.denied ?_, raw, hraw, text, htext, heval⟩
  simpa [checkPath, joinNames_ne_nil] using hcheck

end Tools

end Sodex.Agent
