import Sodex.Components
import Sodex.Json
import Sodex.Runs

/-!
# Paths of the agent's tools

The tools take a path from their JSON input, complete it with the current directory and
normalize it with `agent_normalize_path`. Its result has neither `.` nor `..`, but it may have
empty components: `..` leaves the slash before the component that it removes.
-/
namespace Sodex.Agent

open CInt CText Json Components Runs List Option

def AGENT_PATH_MAX : ℕ := 256
def PATHNAME_MAX : ℕ := 4096
def AGENT_DEFAULT_HOME : List UInt8 := ascii "/home/user"
def slash : UInt8 := 47

/-- What the token after the last one holds when it is read, for each key that is looked up. -/
structure Stale where
  text : List UInt8 → Option (List UInt8)
  number : List UInt8 → Option ℤ

/-- The token of a field, or nothing when it is the one after the last. -/
def fieldToken (input key : List UInt8) : Option (Option Token) :=
  match parse input 32 with
  | .error _ => none
  | .ok tokens => (findKey input tokens 0 key).map fun i => tokens[i]?

def jsonGetStringField (stale : Stale) (input key : List UInt8) (cap : ℕ) : Option (List UInt8) :=
  match fieldToken input key with
  | none => none
  | some (some t) => tokenStr input t cap
  | some none => (stale.text key).map fun text => text.take (cap - 1)

def jsonGetIntField (stale : Stale) (input key : List UInt8) : Option ℤ :=
  match fieldToken input key with
  | none => none
  | some (some t) => tokenInt input t
  | some none => stale.number key

/-- `..` in `agent_normalize_path`. The path starts with a slash, at which the loop stops. -/
def popSegment (out : List UInt8) : List UInt8 := out.dropLast.rdropWhile (· ≠ slash)

def pushSegment (cap : ℕ) (out seg : List UInt8) : Option (List UInt8) :=
  if 1 < out.length then
    if cap ≤ out.length + 1 then none
    else if cap ≤ out.length + 1 + seg.length then none
    else some (out ++ slash :: seg)
  else if cap ≤ out.length + seg.length then none
  else some (out ++ seg)

/-- The loop of `agent_normalize_path`; each round takes one segment. -/
def normalizeLoop (cap : ℕ) : ℕ → List UInt8 → List UInt8 → Option (List UInt8)
  | 0, _, out => some out
  | fuel + 1, path, out =>
    let path := path.dropWhile (· = slash)
    if path = [] then some out
    else
      let seg := path.takeWhile (· ≠ slash)
      let rest := path.dropWhile (· ≠ slash)
      if seg = ascii "." then normalizeLoop cap fuel rest out
      else if seg = ascii ".." then
        if out.length ≤ 1 then none else normalizeLoop cap fuel rest (popSegment out)
      else (pushSegment cap out seg).bind (normalizeLoop cap fuel rest)

def normalizePath (path : List UInt8) (cap : ℕ) : Option (List UInt8) :=
  if cap ≤ 1 ∨ path.head? ≠ some slash then none
  else
    (normalizeLoop cap path.length path [slash]).map fun out =>
      if 1 < out.length ∧ out.getLast? = some slash then out.dropLast else out

/-- A directory and a name, as `snprintf` puts them into a buffer of `PATHNAME_MAX` bytes. -/
def joinText (base name : List UInt8) : Option (List UInt8) :=
  let text := if base = [slash] then slash :: name else base ++ slash :: name
  if PATHNAME_MAX ≤ text.length then none else some text

/-- `agent_resolve_path`; `cwd` is what `agent_get_current_path` answers. -/
def resolvePath (cwd : Option (List UInt8)) (path : List UInt8) (cap : ℕ) : Option (List UInt8) :=
  if path = [] then none
  else if path.head? = some slash then normalizePath path cap
  else (joinText (cwd.getD AGENT_DEFAULT_HOME) path).bind fun text => normalizePath text cap

def jsonGetNormalizedPath (stale : Stale) (cwd : Option (List UInt8)) (input key : List UInt8) :
    Option (List UInt8) :=
  (jsonGetStringField stale input key AGENT_PATH_MAX).bind fun raw =>
    resolvePath cwd (cstr raw) AGENT_PATH_MAX

def pathJoin (base name : List UInt8) (cap : ℕ) : Option (List UInt8) :=
  if name = [] then none else (joinText base name).bind fun text => normalizePath text cap

def pathIsUnder (path rule : List UInt8) : Bool :=
  if rule = [slash] then path.head? = some slash
  else rule.isPrefixOf path ∧ ((path.drop rule.length).head?.getD slash) = slash

/-- An absolute path without `.` and `..`. -/
structure Plain (path : List UInt8) : Prop where
  absolute : path.head? = some slash
  dotless : ∀ c ∈ components slash path, c ≠ ascii "." ∧ c ≠ ascii ".."

/-- The path with these components; the root has none. -/
def joinNames (names : List (List UInt8)) : List UInt8 :=
  if names = [] then [slash] else names.flatMap (slash :: ·)

/-- The buffer of `agent_normalize_path`: pieces that each stand behind a slash, and whether one more
slash ends it. A piece is empty where a name came after such a slash. -/
structure Segments where
  names : List (List UInt8)
  slashed : Bool

namespace Segments

def root : Segments := ⟨[], true⟩

def text (s : Segments) : List UInt8 :=
  s.names.flatMap (slash :: ·) ++ if s.slashed then [slash] else []

def pop (s : Segments) : Segments := ⟨s.names.dropLast, true⟩

def push (s : Segments) (seg : List UInt8) : Segments :=
  ⟨s.names ++ if s.slashed ∧ s.names ≠ [] then [[], seg] else [seg], false⟩

/-- A round of the loop. -/
def step (cap : ℕ) (s : Segments) (seg : List UInt8) : Option Segments :=
  if seg = ascii "." then some s
  else if seg = ascii ".." then if s.names = [] then none else some s.pop
  else if cap ≤ (s.push seg).text.length then none
  else some (s.push seg)

/-- What is returned: the slash at the end is taken off. -/
def result (s : Segments) : List UInt8 := joinNames s.names

structure Sound (s : Segments) : Prop where
  words : ∀ c ∈ s.names, slash ∉ c ∧ c ≠ ascii "." ∧ c ≠ ascii ".."
  closed : s.slashed = false → ∃ init w, s.names = init ++ [w] ∧ w ≠ []

theorem Sound.root : root.Sound := ⟨by simp [Segments.root], nofun⟩

end Segments

section Normalize

variable {cap fuel : ℕ} {path out seg : List UInt8} {s s' : Segments}

theorem Segments.Sound.pop (h : s.Sound) : s.pop.Sound :=
  ⟨fun c hc => h.words c ((dropLast_sublist _).subset hc), nofun⟩

theorem Segments.Sound.push (h : s.Sound) (hne : seg ≠ []) (hslash : slash ∉ seg)
    (hdots : seg ≠ ascii "." ∧ seg ≠ ascii "..") : (s.push seg).Sound := by
  refine ⟨fun c hc => ?_, fun _ => ?_⟩
  · rcases mem_append.mp hc with hc | hc
    · exact h.words c hc
    · split at hc
      · rcases mem_pair.mp hc with rfl | rfl
        · exact ⟨not_mem_nil, by decide, by decide⟩
        · exact ⟨hslash, hdots⟩
      · rw [mem_singleton.mp hc]
        exact ⟨hslash, hdots⟩
  · unfold Segments.push
    split
    · exact ⟨s.names ++ [[]], seg, by simp, hne⟩
    · exact ⟨s.names, seg, rfl, hne⟩

theorem Segments.Sound.slashed_of_root (h : s.Sound) (hnames : s.names = []) : s.slashed = true := by
  by_contra hopen
  obtain ⟨init, w, hnames', -⟩ := h.closed (by simpa using hopen)
  simp [hnames] at hnames'

/-- The buffer is longer than a slash when it has a piece. -/
theorem Segments.Sound.length_text (h : s.Sound) : s.text.length ≤ 1 ↔ s.names = [] := by
  constructor
  · intro hlen
    by_contra hne
    obtain ⟨init, w, hnames⟩ := eq_nil_or_concat s.names |>.resolve_left hne
    by_cases hslashed : s.slashed = true
    · simp [Segments.text, hnames, hslashed] at hlen
      omega
    · obtain ⟨init, w, hnames, hw⟩ := h.closed (by simpa using hslashed)
      have := length_pos_iff.mpr hw
      simp [Segments.text, hnames] at hlen
      omega
  · intro hnames
    simp [Segments.text, hnames, h.slashed_of_root hnames]

theorem rdropWhile_slash (before : List UInt8) {w : List UInt8} (hw : slash ∉ w) :
    (before ++ slash :: w).rdropWhile (· ≠ slash) = before ++ [slash] := by
  induction w using reverseRecOn with
  | nil => exact rdropWhile_concat_neg _ _ _ (by simp)
  | append_singleton w b ih =>
    obtain ⟨hw, hb⟩ := not_or.mp (mt mem_append.mpr hw)
    rw [← cons_append, ← append_assoc, rdropWhile_concat_pos, ih hw]
    simpa using fun h : b = slash => hb (by simp [h])

theorem Segments.Sound.text_pop (h : s.Sound) (hne : s.names ≠ []) :
    popSegment s.text = s.pop.text := by
  unfold popSegment
  obtain ⟨init, w, hnames⟩ := eq_nil_or_concat s.names |>.resolve_left hne
  have hw := (h.words w (by simp [hnames])).1
  have hpop : s.pop.text = init.flatMap (slash :: ·) ++ [slash] := by
    simp [Segments.text, Segments.pop, hnames]
  rw [hpop, Segments.text, hnames, concat_eq_append, flatMap_append,
    flatMap_singleton]
  by_cases hslashed : s.slashed = true
  · rw [if_pos hslashed, dropLast_concat]
    exact rdropWhile_slash _ hw
  · obtain ⟨init', w', hnames', hw'⟩ := h.closed (by simpa using hslashed)
    obtain ⟨rfl, rfl⟩ : init = init' ∧ w = w' := by
      simpa using hnames.symm.trans hnames'
    rw [if_neg hslashed, append_nil, dropLast_append_of_ne_nil (by simp),
      dropLast_cons_of_ne_nil hw']
    exact rdropWhile_slash _ fun hmem => hw ((dropLast_sublist _).subset hmem)

theorem Segments.Sound.text_push (h : s.Sound) (hseg : seg ≠ []) : pushSegment cap s.text seg =
    if cap ≤ (s.push seg).text.length then none else some (s.push seg).text := by
  have hpos := length_pos_iff.mpr hseg
  unfold pushSegment
  by_cases hroot : s.names = []
  · have hslashed := h.slashed_of_root hroot
    simp [Segments.text, Segments.push, hroot, hslashed, add_comm]
  · have hlong : 1 < s.text.length := by
      have := mt h.length_text.mp hroot
      omega
    have htext : (s.push seg).text = s.text ++ slash :: seg := by
      cases hslashed : s.slashed <;> simp [Segments.text, Segments.push, hroot, hslashed]
    rw [if_pos hlong, htext, length_append, length_cons]
    split_ifs
    all_goals first | rfl | omega

/-- The first segment of what is left of a path, and the components behind it. -/
theorem components_segment (hmore : path.dropWhile (· = slash) ≠ []) :
    let path' := path.dropWhile (· = slash)
    let seg := path'.takeWhile (· ≠ slash)
    seg ≠ [] ∧ slash ∉ seg ∧
      components slash path = seg :: components slash (path'.dropWhile (· ≠ slash)) ∧
      (path'.dropWhile (· ≠ slash)).length < path.length := by
  intro path' seg
  have hseg : slash ∉ seg := fun hmem => by simpa using mem_takeWhile_imp hmem
  have hne : seg ≠ [] := by
    obtain ⟨b, rest, hrest⟩ := exists_cons_of_ne_nil hmore
    have hb := head?_dropWhile_not (· = slash) path
    rw [hrest] at hb
    have hb : b ≠ slash := by simpa using hb
    simp [seg, path', hrest, hb]
  have hsplit : seg ++ path'.dropWhile (· ≠ slash) = path' := takeWhile_append_dropWhile
  refine ⟨hne, hseg, ?_, ?_⟩
  · rw [← components_dropWhile]
    show components slash path' = _
    nth_rewrite 1 [← hsplit]
    cases hrest : path'.dropWhile (· ≠ slash) with
    | nil => simp [components_word slash hne hseg]
    | cons b rest =>
      have hb := head?_dropWhile_not (· ≠ slash) path'
      rw [hrest] at hb
      obtain rfl : b = slash := by simpa using hb
      rw [components_word_append slash hne hseg, components_sep_cons]
  · have hlen := congrArg length hsplit
    rw [length_append] at hlen
    have hpos := length_pos_iff.mpr hne
    have hdrop : path'.length ≤ path.length := (dropWhile_suffix _).length_le
    omega

theorem Segments.Sound.normalizeLoop (h : s.Sound) (hfuel : path.length ≤ fuel) :
    normalizeLoop cap fuel path s.text =
      (run (Segments.step cap) s (components slash path)).map Segments.text := by
  induction fuel generalizing path s with
  | zero =>
    obtain rfl := length_eq_zero_iff.mp (Nat.le_zero.mp hfuel)
    rfl
  | succ fuel ih =>
    simp only [Agent.normalizeLoop]
    by_cases hmore : path.dropWhile (· = slash) = []
    · rw [if_pos hmore, ← components_dropWhile, hmore]
      rfl
    obtain ⟨hne, hslash, hcomponents, hlt⟩ := components_segment hmore
    rw [if_neg hmore, hcomponents, Runs.run]
    generalize (path.dropWhile (· = slash)).takeWhile (· ≠ slash) = seg at hne hslash ⊢
    generalize (path.dropWhile (· = slash)).dropWhile (· ≠ slash) = rest at hlt ⊢
    unfold Segments.step
    split_ifs with hdot hparent hlen hroot hroot hfull
    · exact ih h (by omega)
    · rfl
    · exact absurd (h.length_text.mp hlen) hroot
    · exact absurd (h.length_text.mpr hroot) hlen
    · rw [h.text_pop hroot]
      exact ih h.pop (by omega)
    · rw [h.text_push hne, if_pos hfull]
      rfl
    · rw [h.text_push hne, if_neg hfull]
      exact ih (h.push hne hslash ⟨hdot, hparent⟩) (by omega)

theorem Segments.Sound.step (h : s.Sound) (hne : seg ≠ []) (hslash : slash ∉ seg)
    (hstep : s.step cap seg = some s') : s'.Sound := by
  unfold Segments.step at hstep
  split_ifs at hstep with hdot hparent <;> obtain rfl := some.inj hstep
  · exact h
  · exact h.pop
  · exact h.push hne hslash ⟨hdot, hparent⟩

theorem Segments.Sound.run {segs : List (List UInt8)} (h : s.Sound)
    (hsegs : ∀ seg ∈ segs, seg ≠ [] ∧ slash ∉ seg)
    (hrun : Runs.run (Segments.step cap) s segs = some s') : s'.Sound :=
  run_preserves (fun _ _ _ h hseg => h.step hseg.1 hseg.2) segs s s' h (.of_forall segs s hsegs) hrun

theorem normalizePath_eq (habs : path.head? = some slash) (hcap : 1 < cap) : normalizePath path cap =
    (run (Segments.step cap) .root (components slash path)).map Segments.result := by
  unfold normalizePath
  rw [if_neg (by simp [habs, hcap])]
  show Option.map _ (normalizeLoop cap path.length path Segments.root.text) = _
  rw [Segments.Sound.root.normalizeLoop le_rfl, Option.map_map]
  cases hrun : run (Segments.step cap) .root (components slash path) with
  | none => rfl
  | some s =>
    have h := Segments.Sound.root.run (fun _ => of_mem_components slash) hrun
    simp only [map_some, some.injEq, Function.comp_apply]
    by_cases hroot : s.names = []
    · rw [if_neg fun hlong => absurd (h.length_text.mpr hroot) (by omega)]
      simp [Segments.text, Segments.result, joinNames, hroot, h.slashed_of_root hroot]
    · have hlong : 1 < s.text.length := by
        have := mt h.length_text.mp hroot
        omega
      by_cases hslashed : s.slashed = true
      · have htext : s.text = s.names.flatMap (slash :: ·) ++ [slash] := by
          simp [Segments.text, hslashed]
        rw [if_pos ⟨hlong, by simp [htext]⟩, htext, dropLast_concat, Segments.result,
          joinNames, if_neg hroot]
      · obtain ⟨init, w, hnames, hw⟩ := h.closed (by simpa using hslashed)
        have hlast : s.text.getLast? ≠ some slash := by
          have htext : s.text = init.flatMap (slash :: ·) ++ [slash] ++ w := by
            simp [Segments.text, hnames, hslashed]
          rw [htext, getLast?_append_of_ne_nil _ hw]
          exact fun hlast => (h.words w (by simp [hnames])).1 (mem_of_getLast? hlast)
        rw [if_neg fun hh => hlast hh.2]
        simp [Segments.text, Segments.result, joinNames, hroot, hslashed]

theorem normalizePath_plain (h : normalizePath path cap = some out) : Plain out := by
  have hgood : ¬(cap ≤ 1 ∨ path.head? ≠ some slash) := by
    intro hbad
    rw [normalizePath, if_pos hbad] at h
    cases h
  obtain ⟨hcap, habs⟩ := not_or.mp hgood
  rw [normalizePath_eq (not_not.mp habs) (by omega)] at h
  obtain ⟨s, hrun, rfl⟩ := map_eq_some_iff.mp h
  have hs := Segments.Sound.root.run (fun _ => of_mem_components slash) hrun
  unfold Segments.result joinNames
  split
  · exact ⟨rfl, by decide⟩
  · rename_i hne
    obtain ⟨w, names, hnames⟩ := exists_cons_of_ne_nil hne
    refine ⟨by rw [hnames]; rfl, fun c hc => ?_⟩
    rw [components_join slash fun w hw => (hs.words w hw).1] at hc
    exact (hs.words c (mem_of_mem_filter hc)).2

end Normalize

/-- The components of `rule` start those of `path`. -/
def Above (rule path : List UInt8) : Prop := components slash rule <+: components slash path

instance (rule path : List UInt8) : Decidable (Above rule path) :=
  inferInstanceAs (Decidable (_ <+: _))

/-- What `agent_path_is_under` finds by comparing bytes is so for the components. -/
theorem above_of_pathIsUnder {path rule : List UInt8} (h : pathIsUnder path rule = true) :
    Above rule path := by
  unfold pathIsUnder at h
  split at h
  · rename_i hroot
    rw [hroot]
    exact nil_prefix
  · obtain ⟨hstart, hend⟩ := of_decide_eq_true h
    obtain ⟨rest, rfl⟩ := isPrefixOf_iff_prefix.mp hstart
    rw [drop_left] at hend
    cases rest with
    | nil => rw [append_nil]; exact prefix_rfl
    | cons b rest =>
      obtain rfl : b = slash := hend
      refine ⟨components slash rest, ?_⟩
      rw [components_append_sep]

end Sodex.Agent
