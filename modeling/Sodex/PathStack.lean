import Sodex.AgentPaths

/-!
# Normalization as a stack of names

What `agent_normalize_path` is for: the components of a path are evaluated on a stack of names. The
buffer is such a stack as long as no name comes after a `..` that left something; such a name is put
behind two slashes, and from then on the buffer has a piece too many.
-/
namespace Sodex.Agent

open CText Components Runs List Option

def stackStep (stack : List (List UInt8)) (seg : List UInt8) : Option (List (List UInt8)) :=
  if seg = ascii "." then some stack
  else if seg = ascii ".." then if stack = [] then none else some stack.dropLast
  else some (stack ++ [seg])

def evaluate (path : List UInt8) : Option (List (List UInt8)) :=
  run stackStep [] (components slash path)

def IsName (c : List UInt8) : Prop := c ≠ [] ∧ slash ∉ c ∧ c ≠ ascii "." ∧ c ≠ ascii ".."

/-- `/`, or names that each stand behind one slash. -/
def Canonical (out : List UInt8) : Prop := ∃ names, out = joinNames names ∧ ∀ c ∈ names, IsName c

/-- The path stays below the root, and its canonical form fits. -/
def Expressible (path : List UInt8) (cap : ℕ) : Prop :=
  ∃ names, evaluate path = some names ∧ (joinNames names).length < cap

structure NormalizesRight (path : List UInt8) (cap : ℕ) : Prop where
  result : ∀ out, normalizePath path cap = some out →
    Canonical out ∧ (evaluate path).map joinNames = some out ∧ normalizePath out cap = some out
  refuses : normalizePath path cap = none ↔ ¬Expressible path cap

/-- A step on the stack when its path has to fit into `cap` bytes. -/
def boundedStep (cap : ℕ) (stack : List (List UInt8)) (seg : List UInt8) :
    Option (List (List UInt8)) :=
  if seg ≠ ascii "." ∧ seg ≠ ascii ".." ∧ cap ≤ (joinNames (stack ++ [seg])).length then none
  else stackStep stack seg

/-- As far as the components stay below the root and fit, no name comes after a `..` that left
something. `up` says that the component before, `.` aside, was a `..`. -/
def Steady (cap : ℕ) (stack : List (List UInt8)) (up : Bool) : List (List UInt8) → Prop
  | [] => True
  | seg :: segs => ∀ stack', boundedStep cap stack seg = some stack' →
    (seg = ascii "." ∨ seg = ascii ".." ∨ up = false ∨ stack = []) ∧
      Steady cap stack' (if seg = ascii "." then up else seg = ascii "..") segs

instance (cap : ℕ) (stack : List (List UInt8)) (up : Bool) (segs : List (List UInt8)) :
    Decidable (Steady cap stack up segs) := by
  induction segs generalizing stack up with
  | nil => exact .isTrue trivial
  | cons seg segs ih =>
    exact decidable_of_iff (∀ stack' ∈ boundedStep cap stack seg, _) Iff.rfl

section Stack

variable {cap : ℕ} {s s' : Segments} {stack stack' segs : List (List UInt8)}
  {seg path out : List UInt8} {up : Bool}

theorem boundedStep_le (h : boundedStep cap stack seg = some stack') :
    stackStep stack seg = some stack' := by
  unfold boundedStep at h
  split_ifs at h
  exact h

theorem boundedStep_fits (hcap : (joinNames stack).length < cap)
    (h : boundedStep cap stack seg = some stack') : (joinNames stack').length < cap := by
  unfold boundedStep stackStep at h
  split_ifs at h with hfull hdot hparent hempty <;> obtain rfl := some.inj h
  · exact hcap
  · refine lt_of_le_of_lt ?_ hcap
    obtain ⟨init, w, rfl⟩ := eq_nil_or_concat stack |>.resolve_left hempty
    rw [concat_eq_append, dropLast_concat]
    unfold joinNames
    split_ifs <;> simp_all
  · exact Nat.lt_of_not_le fun hlong => hfull ⟨hdot, hparent, hlong⟩

theorem bounded_run (hcap : (joinNames stack).length < cap)
    (h : run (boundedStep cap) stack segs = some stack') :
    run stackStep stack segs = some stack' ∧ (joinNames stack').length < cap := by
  induction segs generalizing stack with
  | nil =>
    obtain rfl := some.inj h
    exact ⟨rfl, hcap⟩
  | cons seg segs ih =>
    obtain ⟨stack₁, hstep, hrun⟩ := bind_eq_some_iff.mp h
    rw [Runs.run, boundedStep_le hstep]
    exact ih (boundedStep_fits hcap hstep) hrun

/-- Where no name comes after a `..` that left something, the buffer goes the way of the stack. -/
theorem step_eq (hup : s.slashed = up ∨ s.names = [])
    (hsteady : seg = ascii "." ∨ seg = ascii ".." ∨ up = false ∨ s.names = []) :
    s.step cap seg = (boundedStep cap s.names seg).map
      fun stack => ⟨stack, if seg = ascii "." then s.slashed else seg = ascii ".."⟩ := by
  unfold Segments.step boundedStep stackStep
  by_cases hdot : seg = ascii "."
  · simp [hdot]
  by_cases hparent : seg = ascii ".."
  · by_cases hroot : s.names = [] <;> simp [hparent ▸ hdot, hparent, hroot, Segments.pop]
  have hclean : ¬(s.slashed = true ∧ s.names ≠ []) := by
    rintro ⟨hslashed, hne⟩
    simp_all
  have hpush : s.push seg = ⟨s.names ++ [seg], false⟩ := by simp [Segments.push, hclean]
  have hlength : (s.push seg).text.length = (joinNames (s.names ++ [seg])).length := by
    simp [hpush, Segments.text, joinNames]
  rw [hlength, hpush]
  simp only [hdot, hparent, ne_eq, not_false_eq_true, true_and, if_false]
  split_ifs <;> rfl

/-- The buffer is no shorter than the path of the stack. -/
theorem step_eq_none (h : boundedStep cap s.names seg = none) : s.step cap seg = none := by
  unfold boundedStep stackStep at h
  unfold Segments.step
  split_ifs at h with hfull hdot hparent hroot
  · rw [if_neg hfull.1, if_neg hfull.2.1, if_pos (hfull.2.2.trans ?_)]
    unfold Segments.push Segments.text joinNames
    split_ifs <;> simp_all
  · rw [if_neg hdot, if_pos hparent, if_pos hroot]

theorem up_step (hup : s.slashed = up ∨ s.names = [])
    (hbounded : boundedStep cap s.names seg = some stack) :
    (if seg = ascii "." then s.slashed else decide (seg = ascii "..")) =
      (if seg = ascii "." then up else decide (seg = ascii "..")) ∨ stack = [] := by
  by_cases hdot : seg = ascii "."
  · obtain rfl : s.names = stack := by
      simpa [stackStep, hdot] using boundedStep_le hbounded
    simpa [hdot] using hup
  · simp [hdot]

theorem steady_run (h : Steady cap s.names up segs) (hup : s.slashed = up ∨ s.names = []) :
    (run (Segments.step cap) s segs).map Segments.names = run (boundedStep cap) s.names segs := by
  induction segs generalizing s up with
  | nil => rfl
  | cons seg segs ih =>
    rw [Runs.run, Runs.run]
    cases hbounded : boundedStep cap s.names seg with
    | none =>
      rw [step_eq_none hbounded]
      rfl
    | some stack =>
      obtain ⟨hsteady, hrest⟩ := h stack hbounded
      rw [step_eq hup hsteady, hbounded]
      exact ih (s := ⟨stack, _⟩) hrest (up_step hup hbounded)

/-- Behind a first piece that is not empty, the buffer has as many pieces as the stack has names. -/
def Ahead (s : Segments) (stack : List (List UInt8)) : Prop :=
  ∃ w rest, s.names = w :: rest ∧ w ≠ [] ∧ stack.length ≤ rest.length

theorem Ahead.step (h : Ahead s stack) (hstep : s.step cap seg = some s')
    (hstack : stackStep stack seg = some stack') : Ahead s' stack' := by
  obtain ⟨w, rest, hnames, hw, hlen⟩ := h
  unfold Segments.step at hstep
  unfold stackStep at hstack
  split_ifs at hstep hstack with hdot hparent hroot hempty hfull <;>
    obtain rfl := some.inj hstep <;> obtain rfl := some.inj hstack
  · exact ⟨w, rest, hnames, hw, hlen⟩
  · have hpos := length_pos_iff.mpr hempty
    refine ⟨w, rest.dropLast, ?_, hw, ?_⟩
    · rw [Segments.pop, hnames, dropLast_cons_of_ne_nil (length_pos_iff.mp (by omega))]
    · rw [length_dropLast, length_dropLast]
      omega
  · refine ⟨w, rest ++ if s.slashed ∧ s.names ≠ [] then [[], seg] else [seg], ?_, hw, ?_⟩
    · rw [Segments.push, hnames, cons_append]
    · rw [length_append, length_append]
      split <;> simp <;> omega

theorem Ahead.run (h : Ahead s stack) (hrun : run (Segments.step cap) s segs = some s')
    (hstack : run stackStep stack segs = some stack') : Ahead s' stack' := by
  induction segs generalizing s stack with
  | nil =>
    obtain rfl := some.inj hrun
    obtain rfl := some.inj hstack
    exact h
  | cons seg segs ih =>
    rw [Runs.run] at hrun hstack
    obtain ⟨s₁, hstep, hrun⟩ := bind_eq_some_iff.mp hrun
    obtain ⟨stack₁, hstackStep, hstack⟩ := bind_eq_some_iff.mp hstack
    exact ih (h.step hstep hstackStep) hrun hstack

theorem names_stackStep (h : ∀ c ∈ stack, IsName c) (hseg : seg ≠ [] ∧ slash ∉ seg)
    (hstack : stackStep stack seg = some stack') : ∀ c ∈ stack', IsName c := by
  unfold stackStep at hstack
  split_ifs at hstack with hdot hparent <;> obtain rfl := some.inj hstack
  · exact h
  · exact fun c hc => h c ((dropLast_sublist _).subset hc)
  · intro c hc
    rcases mem_append.mp hc with hc | hc
    · exact h c hc
    · rw [mem_singleton.mp hc]
      exact ⟨hseg.1, hseg.2, hdot, hparent⟩

/-- The stack holds names, and a run that both finish is orderly or leaves the buffer ahead. -/
theorem steady_or_ahead (hnames : ∀ c ∈ s.names, IsName c)
    (hsegs : ∀ seg ∈ segs, seg ≠ [] ∧ slash ∉ seg) (hup : s.slashed = up ∨ s.names = [])
    (hrun : run (Segments.step cap) s segs = some s')
    (hstack : run stackStep s.names segs = some stack') :
    Steady cap s.names up segs ∨ Ahead s' stack' := by
  induction segs generalizing s up with
  | nil => exact .inl trivial
  | cons seg segs ih =>
    obtain ⟨s₁, hstep, hrun⟩ := bind_eq_some_iff.mp hrun
    obtain ⟨stack₁, hstackStep, hstack⟩ := bind_eq_some_iff.mp hstack
    obtain ⟨hseg, hsegs⟩ := forall_mem_cons.mp hsegs
    by_cases hsteady : seg = ascii "." ∨ seg = ascii ".." ∨ up = false ∨ s.names = []
    · rw [step_eq hup hsteady] at hstep
      obtain ⟨stack, hbounded, rfl⟩ := map_eq_some_iff.mp hstep
      obtain rfl := some.inj (hstackStep.symm.trans (boundedStep_le hbounded))
      refine (ih (names_stackStep hnames hseg hstackStep) hsegs (up_step hup hbounded) hrun
        hstack).imp_left fun h stack hstack => ?_
      obtain rfl := some.inj (hbounded.symm.trans hstack)
      exact ⟨hsteady, h⟩
    · -- the name goes behind an empty piece
      simp only [not_or] at hsteady
      obtain ⟨hdot, hparent, hslashed, hne⟩ := hsteady
      refine .inr (Ahead.run ?_ hrun hstack)
      obtain ⟨w, rest, hw⟩ := exists_cons_of_ne_nil hne
      simp only [Segments.step, if_neg hdot, if_neg hparent] at hstep
      simp only [stackStep, if_neg hdot, if_neg hparent] at hstackStep
      split_ifs at hstep
      obtain rfl := some.inj hstep
      obtain rfl := some.inj hstackStep
      refine ⟨w, rest ++ [[], seg], ?_, (hnames w (by simp [hw])).1, by simp [hw]⟩
      simp [Segments.push, hw, hup.resolve_right hne, hslashed]

theorem names_evaluate (h : evaluate path = some stack) : ∀ c ∈ stack, IsName c :=
  run_preserves
    (fun _ _ _ hnames hseg => names_stackStep hnames hseg) _ [] stack (by simp)
    (.of_forall _ _ fun _ => of_mem_components slash) h

/-- A buffer that is ahead is not the canonical form. -/
theorem Ahead.result_ne (h : Ahead s stack) (hs : s.Sound) (hstack : ∀ c ∈ stack, IsName c) :
    s.result ≠ joinNames stack := by
  obtain ⟨w, rest, hnames, hw, hlen⟩ := h
  have hcount (names : List (List UInt8)) (h : ∀ c ∈ names, slash ∉ c) :
      (names.flatMap (slash :: ·)).count slash = names.length := by
    induction names with
    | nil => rfl
    | cons c names ih =>
      obtain ⟨hc, hnames⟩ := forall_mem_cons.mp h
      rw [flatMap_cons, count_append, ih hnames, count_cons_self,
        count_eq_zero_of_not_mem hc, length_cons]
      omega
  rw [Segments.result, joinNames, if_neg (by simp [hnames]), joinNames]
  intro heq
  have hslashes := congrArg (count slash) heq
  rw [hcount _ fun c hc => (hs.words c hc).1, hnames, length_cons] at hslashes
  split at hslashes
  · -- the root, but the first piece is not empty
    rename_i hroot
    rw [if_pos hroot, hnames] at heq
    simp [hw] at heq
  · rw [hcount _ fun c hc => (hstack c hc).2.1] at hslashes
    omega

/-- Names behind one slash each are read back. -/
theorem run_names {names : List (List UInt8)} (hnames : ∀ c ∈ names, c ≠ ascii "." ∧ c ≠ ascii "..")
    (hclean : s.slashed = false ∨ s.names = [])
    (hcap : (joinNames (s.names ++ names)).length < cap) :
    ∃ s', run (Segments.step cap) s names = some s' ∧ s'.names = s.names ++ names := by
  induction names generalizing s with
  | nil => exact ⟨s, rfl, by simp⟩
  | cons c names ih =>
    obtain ⟨⟨hdot, hparent⟩, hnames⟩ := forall_mem_cons.mp hnames
    have hpush : s.push c = ⟨s.names ++ [c], false⟩ := by
      rcases hclean with h | h <;> simp [Segments.push, h]
    have hfits : ¬cap ≤ (s.push c).text.length := by
      simp [joinNames, flatMap_append] at hcap
      simp [hpush, Segments.text]
      omega
    obtain ⟨s', hrun, hs'⟩ := ih (s := s.push c) hnames (.inl (by rw [hpush]))
      (by rw [hpush]; simpa using hcap)
    refine ⟨s', ?_, by rw [hs', hpush]; simp⟩
    rw [Runs.run, Segments.step, if_neg hdot, if_neg hparent, if_neg hfits]
    exact hrun

theorem joinNames_ne_nil (names : List (List UInt8)) : joinNames names ≠ [] := by
  unfold joinNames
  cases names <;> simp

theorem components_joinNames {names : List (List UInt8)} (hnames : ∀ c ∈ names, IsName c) :
    components slash (joinNames names) = names := by
  unfold joinNames
  split
  · rename_i hroot
    rw [hroot]
    decide
  · rw [components_join slash fun c hc => (hnames c hc).2.1, filter_eq_self]
    exact fun c hc => by simpa using (hnames c hc).1

theorem head_joinNames (names : List (List UInt8)) : (joinNames names).head? = some slash := by
  unfold joinNames
  cases names <;> rfl

theorem normalizePath_joinNames {names : List (List UInt8)} (hnames : ∀ c ∈ names, IsName c)
    (hcap : (joinNames names).length < cap) :
    normalizePath (joinNames names) cap = some (joinNames names) := by
  obtain ⟨s', hrun, hs'⟩ := run_names (s := .root) (fun c hc => (hnames c hc).2.2) (.inr rfl) hcap
  have hpos := length_pos_iff.mpr (joinNames_ne_nil names)
  rw [normalizePath_eq (head_joinNames names) (by omega), components_joinNames hnames, hrun]
  exact congrArg some (congrArg joinNames hs')

theorem Steady.answer (h : Steady cap [] false (components slash path))
    (habs : path.head? = some slash) (hcap : 1 < cap) :
    normalizePath path cap =
      (run (boundedStep cap) [] (components slash path)).map joinNames := by
  rw [normalizePath_eq habs hcap]
  have hrun := steady_run (s := .root) h (.inr rfl)
  rw [show Segments.result = joinNames ∘ Segments.names from rfl, ← Option.map_map, hrun]
  rfl

theorem Steady.normalizesRight (h : Steady cap [] false (components slash path))
    (habs : path.head? = some slash) (hcap : 1 < cap)
    (hroom : Expressible path cap → (run (boundedStep cap) [] (components slash path)).isSome) :
    NormalizesRight path cap := by
  have hanswer := h.answer habs hcap
  cases hbounded : run (boundedStep cap) [] (components slash path) with
  | none =>
    have hexp : ¬Expressible path cap := fun hexp => by simpa [hbounded] using hroom hexp
    rw [hbounded] at hanswer
    exact ⟨by simp [hanswer], by simp [hanswer, hexp]⟩
  | some stack =>
    obtain ⟨heval, hfits⟩ := bounded_run (show (joinNames []).length < cap from hcap) hbounded
    replace heval : evaluate path = some stack := heval
    have hnames := names_evaluate heval
    rw [hbounded] at hanswer
    refine ⟨fun out hout => ?_, by simpa [hanswer] using ⟨stack, heval, hfits⟩⟩
    obtain rfl := some.inj (hanswer.symm.trans hout)
    exact ⟨⟨_, rfl, hnames⟩, by rw [heval]; rfl, normalizePath_joinNames hnames hfits⟩

/-- A path that stays below the root and fits is normalized rightly just when no name comes after a
`..` that left something and the paths on the way fit too. Any other is refused when no such name
comes before it leaves the root or does not fit. -/
theorem normalizesRight_iff (rest : List UInt8) (cap : ℕ) :
    (Expressible (slash :: rest) cap → (NormalizesRight (slash :: rest) cap ↔
      Steady cap [] false (components slash (slash :: rest)) ∧
        (run (boundedStep cap) [] (components slash (slash :: rest))).isSome)) ∧
    (¬Expressible (slash :: rest) cap →
      Steady cap [] false (components slash (slash :: rest)) →
        NormalizesRight (slash :: rest) cap) := by
  generalize habs : slash :: rest = path
  replace habs : path.head? = some slash := habs ▸ rfl
  by_cases hcap : cap ≤ 1
  · have hnone : normalizePath path cap = none := if_pos (.inl hcap)
    have hexp : ¬Expressible path cap := by
      rintro ⟨names, -, hfits⟩
      exact joinNames_ne_nil names (length_eq_zero_iff.mp (by omega))
    exact ⟨fun h => absurd h hexp, fun _ _ => ⟨by simp [hnone], by simp [hnone, hexp]⟩⟩
  replace hcap := Nat.lt_of_not_le hcap
  refine ⟨fun hexp => ⟨fun h => ?_, fun ⟨h, hroom⟩ => h.normalizesRight habs hcap fun _ => hroom⟩,
    fun hexp h => h.normalizesRight habs hcap fun hexp' => absurd hexp' hexp⟩
  have hsegs : ∀ seg ∈ components slash path, seg ≠ [] ∧ slash ∉ seg :=
    fun _ => of_mem_components slash
  have hpath := normalizePath_eq habs hcap
  obtain ⟨names, heval, -⟩ := id hexp
  cases hrun : run (Segments.step cap) .root (components slash path) with
  | none =>
    rw [hrun] at hpath
    exact absurd hexp (h.refuses.mp hpath)
  | some s =>
    rw [hrun] at hpath
    have hsteady : Steady cap [] false (components slash path) := by
      refine (steady_or_ahead (s := .root) (by simp [Segments.root]) hsegs (.inr rfl) hrun
        heval).resolve_right fun hahead => ?_
      have hresult := (h.result _ hpath).2.1
      rw [heval] at hresult
      exact hahead.result_ne (Segments.Sound.root.run hsegs hrun) (names_evaluate heval)
        (some.inj hresult).symm
    have hanswer := hsteady.answer habs hcap
    rw [hpath] at hanswer
    exact ⟨hsteady, by simpa using congrArg isSome hanswer.symm⟩

end Stack

/-- A name after `..` is put behind two slashes, and a path on the way that does not fit is refused
though the one it leads to does. -/
theorem normalizes_wrongly :
    ¬NormalizesRight (ascii "/a/b/../c") 256 ∧ ¬NormalizesRight (ascii "/abc/..") 3 := by
  constructor
  · intro h
    have hresult := (h.result (ascii "/a//c") (by decide)).2.1
    exact absurd hresult (by decide)
  · intro h
    exact h.refuses.mp (by decide) ⟨[], by decide, by decide⟩

end Sodex.Agent
