import Mathlib.Data.List.Basic

/-!
# Consent to proposals

Someone makes proposals; someone else approves or denies the one that is pending, or grants a
whole class of them until the next reset. A history is consented if whatever was executed had
been proposed and was still undecided, and had been approved or belonged to a class granted.
-/
namespace Sodex.Consent

open List

variable {α κ : Type*}

inductive Event (α κ : Type*) where
  | propose (x : α)
  | approve
  /-- The pending proposal is approved and its class is granted. -/
  | grant (c : κ)
  | deny
  | reset
  | execute (x : α)
  deriving DecidableEq

/-- After such an event the proposal before it is not pending any more. -/
def Event.settles : Event α κ → Bool
  | .propose _ | .deny | .execute _ => true
  | .approve | .grant _ | .reset => false

def Event.approves : Event α κ → Bool
  | .approve | .grant _ => true
  | _ => false

/-- The proposal was made and nothing has decided it. -/
def Pending (H : List (Event α κ)) (x : α) : Prop :=
  ∃ before after, H = before ++ .propose x :: after ∧ ∀ ev ∈ after, ev.settles = false

/-- The proposal was approved while it was pending, and still is. -/
def Approved (H : List (Event α κ)) (x : α) : Prop :=
  ∃ before after, H = before ++ .propose x :: after ∧ (∀ ev ∈ after, ev.settles = false) ∧
    ∃ ev ∈ after, ev.approves = true

/-- The class was granted since the last reset. -/
def Granted (H : List (Event α κ)) (c : κ) : Prop :=
  ∃ before after, H = before ++ .grant c :: after ∧ .reset ∉ after

/-- Whatever is executed is pending, and approved or of a class granted. -/
def Consented (classOf : α → κ) (H : List (Event α κ)) : Prop :=
  ∀ before x after, H = before ++ .execute x :: after →
    Approved before x ∨ Pending before x ∧ Granted before (classOf x)

section Histories

variable {H : List (Event α κ)} {ev : Event α κ} {x : α} {c : κ} {classOf : α → κ}

theorem pending_propose : Pending (H ++ [.propose x]) x := ⟨H, [], rfl, by simp⟩

theorem Pending.snoc (h : Pending H x) (hev : ev.settles = false) : Pending (H ++ [ev]) x := by
  obtain ⟨before, after, rfl, hafter⟩ := h
  refine ⟨before, after ++ [ev], by simp, fun ev' hev' => ?_⟩
  rcases mem_append.mp hev' with hev' | hev'
  · exact hafter ev' hev'
  · exact mem_singleton.mp hev' ▸ hev

theorem Pending.approved (h : Pending H x) (hev : ev.approves = true) : Approved (H ++ [ev]) x := by
  have hsettles : ev.settles = false := by cases ev <;> first | rfl | cases hev
  obtain ⟨before, after, rfl, hafter⟩ := h
  refine ⟨before, after ++ [ev], by simp, fun ev' hev' => ?_, ev, by simp, hev⟩
  rcases mem_append.mp hev' with hev' | hev'
  · exact hafter ev' hev'
  · exact mem_singleton.mp hev' ▸ hsettles

theorem granted_grant : Granted (H ++ [.grant c]) c := ⟨H, [], rfl, by simp⟩

theorem Granted.snoc (h : Granted H c) (hev : ev ≠ .reset) : Granted (H ++ [ev]) c := by
  obtain ⟨before, after, rfl, hafter⟩ := h
  refine ⟨before, after ++ [ev], by simp, fun hmem => ?_⟩
  rcases mem_append.mp hmem with hmem | hmem
  · exact hafter hmem
  · exact hev (mem_singleton.mp hmem).symm

theorem consented_nil : Consented classOf ([] : List (Event α κ)) := by
  intro before x after h
  simp at h

/-- Only the last event can be new. -/
theorem Consented.concat (h : Consented classOf H)
    (hev : ∀ x, ev = .execute x → Approved H x ∨ Pending H x ∧ Granted H (classOf x)) :
    Consented classOf (H ++ [ev]) := by
  intro before x after hsplit
  rcases eq_nil_or_concat after with rfl | ⟨after, last, rfl⟩
  · obtain ⟨rfl, hlast⟩ := append_inj' hsplit rfl
    exact hev x (singleton_inj.mp hlast)
  · rw [concat_eq_append, ← cons_append, ← append_assoc] at hsplit
    exact h before x after (append_inj' hsplit rfl).1

theorem Consented.snoc (h : Consented classOf H) (hev : ∀ x, ev ≠ .execute x) :
    Consented classOf (H ++ [ev]) :=
  h.concat fun x hx => absurd hx (hev x)

theorem Approved.pending (h : Approved H x) : Pending H x := by
  obtain ⟨before, after, hsplit, hafter, -⟩ := h
  exact ⟨before, after, hsplit, hafter⟩

/-- What was executed is not pending any more. -/
theorem not_pending_execute {y : α} : ¬Pending (H ++ [.execute y]) x := by
  rintro ⟨before, after, hsplit, hafter⟩
  rcases eq_nil_or_concat after with rfl | ⟨after, last, rfl⟩
  · cases singleton_inj.mp (append_inj' hsplit rfl).2
  · rw [concat_eq_append, ← cons_append, ← append_assoc] at hsplit
    obtain rfl := singleton_inj.mp (append_inj' hsplit rfl).2
    exact absurd (hafter (.execute y) (by simp)) (by simp [Event.settles])

/-- Nothing is executed twice in a row. -/
theorem not_consented_twice {y : α} : ¬Consented classOf (H ++ [.execute y] ++ [.execute x]) := by
  intro h
  rcases h (H ++ [.execute y]) x [] rfl with happroved | ⟨hpending, -⟩
  · exact not_pending_execute happroved.pending
  · exact not_pending_execute hpending

end Histories

end Sodex.Consent
