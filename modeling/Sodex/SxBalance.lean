import Sodex.SxRuntime

/-!
# Balanced runtimes of sx

What a part of a run has to leave as it found it: the scopes, the calls and the loops, and the
bindings too but for new ones of the scope it runs in.
-/
namespace Sodex.Sx

/-- What a binding keeps when its value is assigned. -/
def Binding.shape (b : Binding) : Text × ℕ := (b.name, b.scopeDepth)

def Runtime.shapes (rt : Runtime) : List (Text × ℕ) := rt.bindings.map Binding.shape

theorem Runtime.shapes_modify (rt : Runtime) (index : ℕ) (value : Value) : { rt with
      bindings := rt.bindings.modify index fun b => { b with value := value } }.shapes =
      rt.shapes := by
  have hmodify : ∀ (l : List Binding) (i : ℕ),
      (l.modify i fun b => { b with value := value }).map Binding.shape = l.map Binding.shape := by
    intro l
    induction l with
    | nil => intro i; cases i <;> rfl
    | cons b l ih =>
      intro i
      cases i with
      | zero => rfl
      | succ i => simp only [List.modify_succ_cons, List.map_cons, ih]
  exact hmodify _ _

/-- No binding is of a scope that is not entered. -/
def Runtime.Sound (rt : Runtime) : Prop := ∀ s ∈ rt.shapes, s.2 ≤ rt.scopeDepth

/-- From `rt` to `rt'` only bindings of the current scope have been added. -/
structure Balanced (rt rt' : Runtime) : Prop where
  scopeDepth : rt'.scopeDepth = rt.scopeDepth
  callStack : rt'.callStack = rt.callStack
  insideFunction : rt'.insideFunction = rt.insideFunction
  loopDepth : rt'.loopDepth = rt.loopDepth
  limits : rt'.limits = rt.limits
  bindings : ∃ added, rt'.shapes = added ++ rt.shapes ∧ ∀ s ∈ added, s.2 = rt.scopeDepth

namespace Balanced

variable {rt rt' rt'' : Runtime}

theorem of_shapes (hscope : rt'.scopeDepth = rt.scopeDepth) (hcalls : rt'.callStack = rt.callStack)
    (hinside : rt'.insideFunction = rt.insideFunction) (hloop : rt'.loopDepth = rt.loopDepth)
    (hlimits : rt'.limits = rt.limits) (hshapes : rt'.shapes = rt.shapes) : Balanced rt rt' :=
  ⟨hscope, hcalls, hinside, hloop, hlimits, [], hshapes, by simp⟩

theorem refl (rt : Runtime) : Balanced rt rt := of_shapes rfl rfl rfl rfl rfl rfl

/-- A new binding is one of the current scope. -/
theorem added (rt : Runtime) (name : Text) (value : Value) :
    Balanced rt { rt with bindings := ⟨name, value, rt.scopeDepth⟩ :: rt.bindings } :=
  ⟨rfl, rfl, rfl, rfl, rfl, [(name, rt.scopeDepth)], rfl, by simp⟩

theorem assigned (rt : Runtime) (index : ℕ) (value : Value) : Balanced rt
      { rt with bindings := rt.bindings.modify index fun b => { b with value := value } } :=
  of_shapes rfl rfl rfl rfl rfl (rt.shapes_modify index value)

theorem trans (h : Balanced rt rt') (h' : Balanced rt' rt'') : Balanced rt rt'' := by
  obtain ⟨added, hshapes, hadded⟩ := h.bindings
  obtain ⟨added', hshapes', hadded'⟩ := h'.bindings
  refine ⟨h'.scopeDepth.trans h.scopeDepth, h'.callStack.trans h.callStack,
    h'.insideFunction.trans h.insideFunction, h'.loopDepth.trans h.loopDepth,
    h'.limits.trans h.limits, added' ++ added, ?_, ?_⟩
  · rw [hshapes', hshapes, List.append_assoc]
  · intro s hs
    rcases List.mem_append.mp hs with hs | hs
    · rw [hadded' s hs, h.scopeDepth]
    · exact hadded s hs

theorem sound (h : Balanced rt rt') (hsound : rt.Sound) : rt'.Sound := by
  obtain ⟨added, hshapes, hadded⟩ := h.bindings
  intro s hs
  rw [hshapes] at hs
  rw [h.scopeDepth]
  rcases List.mem_append.mp hs with hs | hs
  · exact le_of_eq (hadded s hs)
  · exact hsound s hs

end Balanced

section Scopes

variable {rt rt' : Runtime}

/-- The bindings of the scope that is left are those that were added in it. -/
theorem shapes_leaveScope {added : List (Text × ℕ)} (hdepth : rt'.scopeDepth = rt.scopeDepth + 1)
    (hsound : rt.Sound) (hshapes : rt'.shapes = added ++ rt.shapes)
    (hadded : ∀ s ∈ added, s.2 = rt.scopeDepth + 1) : rt'.leaveScope.shapes = rt.shapes := by
  have hmap : ∀ l : List Binding, (l.dropWhile (·.scopeDepth = rt'.scopeDepth)).map Binding.shape =
      (l.map Binding.shape).dropWhile (·.2 = rt'.scopeDepth) := by
    intro l
    rw [List.dropWhile_map]
    rfl
  have hkept : rt.shapes.dropWhile (·.2 = rt'.scopeDepth) = rt.shapes := by
    cases hl : rt.shapes with
    | nil => rfl
    | cons s rest =>
      have hle : s.2 ≤ rt.scopeDepth := hsound s (by simp [hl])
      rw [List.dropWhile_cons_of_neg]
      simp
      omega
  rw [Runtime.leaveScope, if_neg (by omega), Runtime.shapes, hmap]
  have hshapes' : rt'.bindings.map Binding.shape = added ++ rt.shapes := hshapes
  rw [hshapes', List.dropWhile_append_of_pos, hkept]
  intro s hs
  simp [hadded s hs, hdepth]

theorem balanced_leaveScope (hsound : rt.Sound)
    (h : Balanced { rt with scopeDepth := rt.scopeDepth + 1 } rt') :
    Balanced rt rt'.leaveScope := by
  obtain ⟨added, hshapes, hadded⟩ := h.bindings
  have hdepth : rt'.scopeDepth = rt.scopeDepth + 1 := h.scopeDepth
  have hne : rt'.scopeDepth ≠ 0 := by omega
  have hleave := shapes_leaveScope hdepth hsound hshapes hadded
  refine .of_shapes ?_ ?_ ?_ ?_ ?_ hleave
  · rw [Runtime.leaveScope, if_neg hne]
    exact Nat.sub_eq_of_eq_add hdepth
  · rw [Runtime.leaveScope, if_neg hne]
    exact h.callStack
  · rw [Runtime.leaveScope, if_neg hne]
    exact h.insideFunction
  · rw [Runtime.leaveScope, if_neg hne]
    exact h.loopDepth
  · rw [Runtime.leaveScope, if_neg hne]
    exact h.limits

end Scopes

end Sodex.Sx
