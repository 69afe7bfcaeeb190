import Sodex.SxTraps

/-!
# The check before a run of sx

`sxi_run_text` first runs a program without its effects on a copy of the runtime, and then in earnest.
The check does nothing to the world, unless it is lost in a trap.
-/
namespace Sodex.Sx

open Computations Builtin Eval

variable {W : Type}

/-- The world is as before, and no question has been added to the log. -/
structure Untouched (h h' : Host W) : Prop where
  world : h'.world = h.world
  log : ∃ notes, h'.log = notes ++ h.log ∧ ∀ op, .operation op ∉ notes

theorem hostClosed_untouched (sys : System W) : HostClosed sys false Untouched where
  refl _ := ⟨rfl, [], rfl, nofun⟩
  trans := by
    rintro a b c ⟨hworld, notes, hlog, hnotes⟩ ⟨hworld', notes', hlog', hnotes'⟩
    refine ⟨hworld'.trans hworld, notes' ++ notes, ?_, fun op hop => ?_⟩
    · rw [hlog', hlog, List.append_assoc]
    · rcases List.mem_append.mp hop with hop | hop
      · exact hnotes' op hop
      · exact hnotes op hop
  setHandles _ _ := ⟨rfl, [], rfl, nofun⟩
  ask hexecute := nomatch hexecute

/-- If no division traps, and only then, a check comes back, puts no question to the system and leaves
the world as it is: all that it changes is the runtime that it is given. -/
theorem check_has_no_effect (sys : System W) (program : Program) (m : Machine W)
    (hm : m.Untrapped) :
    let (result, after) := checkProgram sys program m
    (result ≠ .error .trap ∧ Untouched m.host after.host) ↔ after.Untrapped := by
  have htrap := @trap_iff _ sys false program _ hm
  have huntouched : Untouched m.host (checkProgram sys program m).2.host := by
    refine ((hostClosed_untouched sys).everywhere fun event h hnote => ?_).wholeRun m
    exact ⟨rfl, [event], rfl, fun op hop => hnote op (List.mem_singleton.mp hop).symm⟩
  exact ⟨fun h => not_not.mp (mt htrap.mpr h.1),
    fun h => ⟨mt htrap.mp (not_not.mpr h), huntouched⟩⟩

theorem dividing_untouched :
    let (result, after) := checkProgram refusing (dividing 0) (fresh [] ())
    result ≠ .error .trap ∧ after.host.world = () := by
  have h := (check_has_no_effect refusing (dividing 0) (fresh [] ()) nofun).mpr (by decide +kernel)
  exact ⟨h.1, h.2.world⟩

/-- The least number is divided by minus one in a check, too. -/
theorem check_lost_in_division :
    (checkProgram refusing (dividing 1) (fresh [] ())).1 = .error .trap := rfl

end Sodex.Sx
