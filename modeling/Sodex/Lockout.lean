import Mathlib.Data.List.Basic
import Mathlib.Tactic.Ring
import Mathlib.Order.Monotone.Basic

/-!
# Locking out wrong attempts

A log of attempts, each at a time and right or wrong. A guard that counts the wrong attempts
and closes for a while after one too many keeps the attempts in the log apart, and a log whose
attempts are kept apart has few wrong attempts in any interval.
-/
namespace Sodex.Lockout

open List

structure Attempt where
  time : ℕ
  correct : Bool
  deriving DecidableEq

/-- The wrong attempts since the last correct one, the latest first. -/
def misses (log : List Attempt) : List Attempt := log.reverse.takeWhile fun a => !a.correct

/-- How many of them are at most `window` old. -/
def recent (window now : ℕ) (log : List Attempt) : ℕ :=
  (misses log).countP fun a => now ≤ a.time + window

/-- At time `t` the pauses after all wrong attempts are over. -/
def Free (window : ℕ) (pause : ℕ → ℕ) (log : List Attempt) (t : ℕ) : Prop :=
  ∀ before a after, log = before ++ a :: after → a.correct = false →
    a.time + pause (recent window a.time (before ++ [a])) ≤ t

/-- After a wrong attempt there is a pause, which depends on how many there have been. -/
def Spaced (window : ℕ) (pause : ℕ → ℕ) (log : List Attempt) : Prop :=
  ∀ before a after, log = before ++ a :: after → a.correct = false →
    ∀ later ∈ after, a.time + pause (recent window a.time (before ++ [a])) ≤ later.time

theorem misses_append (log : List Attempt) {wrong : List Attempt}
    (h : ∀ a ∈ wrong, a.correct = false) : misses (log ++ wrong) = wrong.reverse ++ misses log := by
  unfold misses
  rw [reverse_append, takeWhile_append_of_pos]
  intro a ha
  simp [h a (mem_reverse.mp ha)]

theorem misses_concat_correct (log : List Attempt) {a : Attempt} (h : a.correct = true) :
    misses (log ++ [a]) = [] := by
  simp [misses, h]

theorem recent_concat_wrong (window now : ℕ) (log : List Attempt) {a : Attempt}
    (h : a.correct = false) (hnow : now ≤ a.time + window) :
    recent window now (log ++ [a]) = recent window now log + 1 := by
  have hwrong : ∀ b ∈ [a], b.correct = false := by simpa using h
  unfold recent
  rw [misses_append log hwrong]
  simp [hnow]

theorem recent_concat_correct (window now : ℕ) (log : List Attempt) {a : Attempt}
    (h : a.correct = true) : recent window now (log ++ [a]) = 0 := by
  rw [recent, misses_concat_correct log h]
  rfl

theorem recent_anti (window : ℕ) {now later : ℕ} (h : now ≤ later) (log : List Attempt) :
    recent window later log ≤ recent window now log := by
  apply countP_mono_left
  intro a _ ha
  rw [decide_eq_true_eq] at ha ⊢
  exact h.trans ha

section

variable {window : ℕ} {pause : ℕ → ℕ} {log : List Attempt} {t : ℕ}

/-- Only the last attempt has to be looked at. -/
theorem Spaced.free (h : Spaced window pause log) (hpast : ∀ a ∈ log, a.time ≤ t)
    (hlast : ∀ before a, log = before ++ [a] → a.correct = false →
      a.time + pause (recent window a.time log) ≤ t) : Free window pause log t := by
  intro before a after hlog ha
  cases after with
  | nil =>
    rw [← hlog]
    exact hlast before a hlog ha
  | cons later after =>
    have hnext := h before a (later :: after) hlog ha later mem_cons_self
    exact hnext.trans (hpast later (by simp [hlog]))

theorem Spaced.concat (h : Spaced window pause log) {a : Attempt}
    (hfree : Free window pause log a.time) : Spaced window pause (log ++ [a]) := by
  intro before b after hlog hb later hlater
  -- the last of the later attempts is the new one
  obtain ⟨rest, last, rfl⟩ : ∃ rest last, after = rest ++ [last] :=
    ⟨_, _, (dropLast_append_getLast (ne_nil_of_mem hlater)).symm⟩
  rw [← cons_append, ← append_assoc] at hlog
  obtain ⟨hinit, hnew⟩ := append_inj' hlog rfl
  obtain rfl : a = last := by simpa using hnew
  rcases mem_append.mp hlater with hmem | hmem
  · exact h before b rest hinit hb later hmem
  · obtain rfl := mem_singleton.mp hmem
    exact hfree before b rest hinit hb

/-- A stretch of wrong attempts within an interval is bounded by the length of the interval. -/
theorem Spaced.length_le {limit delay : ℕ} (hlimit : ∀ n, limit < n → delay ≤ pause n)
    (hdelay : 0 < delay) (hwindow : delay ≤ window) {hi : ℕ} :
    ∀ (n : ℕ) (before wrong after : List Attempt) (lo : ℕ), wrong.length ≤ n →
      Spaced window pause (before ++ wrong ++ after) → (∀ a ∈ wrong, a.correct = false) →
      (∀ a ∈ wrong, lo ≤ a.time ∧ a.time ≤ hi) →
      wrong.length ≤ (limit + 1) * ((hi - lo) / delay + 1) := by
  intro n
  induction n with
  | zero => exact fun before wrong after lo hlen _ _ _ => hlen.trans (Nat.zero_le _)
  | succ n ih =>
    intro before wrong after lo hlen hspaced hwrong hin
    by_cases hfew : wrong.length ≤ limit + 1
    · exact hfew.trans (Nat.le_mul_of_pos_right _ (Nat.succ_pos _))
    -- the first `limit + 1` wrong attempts, of which `a` is the last, push the others away
    obtain ⟨front, a, rest, rfl, hfront, hrest⟩ :
        ∃ front a rest, wrong = front ++ a :: rest ∧ front.length = limit ∧ rest ≠ [] := by
      have hlt : limit < wrong.length := by omega
      refine ⟨wrong.take limit, wrong[limit], wrong.drop (limit + 1), ?_, ?_, ?_⟩
      · rw [← drop_eq_getElem_cons hlt, take_append_drop]
      · rw [length_take]
        omega
      · rw [Ne, drop_eq_nil_iff]
        omega
    have hfar : ∀ b ∈ rest, lo + delay ≤ b.time := by
      intro b hb
      have hsplit : before ++ (front ++ a :: rest) ++ after =
          (before ++ front) ++ a :: (rest ++ after) := by simp
      have hgap := hspaced _ a _ hsplit (hwrong a (by simp)) b (mem_append_left _ hb)
      have hlo := (hin a (by simp)).1
      by_cases hnear : a.time ≤ lo + window
      · have hall : ∀ c ∈ front ++ [a], c.correct = false := fun c hc =>
          hwrong c (by
            rw [append_cons]
            exact mem_append_left _ hc)
        have hcount : limit < recent window a.time (before ++ front ++ [a]) := by
          rw [append_assoc, recent, misses_append before hall, countP_append,
            countP_eq_length.mpr]
          · simp
            omega
          · intro c hc
            have hmem : c ∈ front ++ [a] := mem_reverse.mp hc
            have hc := (hin c (by
              rw [append_cons]
              exact mem_append_left _ hmem)).1
            rw [decide_eq_true_eq]
            omega
        have hlong := hlimit _ hcount
        omega
      · omega
    have hbound := ih (before ++ front ++ [a]) rest after (lo + delay)
      (by simp only [length_append, length_cons] at hlen; omega)
      (by simpa using hspaced) (fun b hb => hwrong b (by simp [hb]))
      (fun b hb => ⟨hfar b hb, (hin b (by simp [hb])).2⟩)
    obtain ⟨b, hb⟩ := exists_mem_of_ne_nil _ hrest
    have hroom : lo + delay ≤ hi := (hfar b hb).trans (hin b (by simp [hb])).2
    have hquot : (hi - lo) / delay = (hi - (lo + delay)) / delay + 1 := by
      rw [← Nat.add_div_right _ hdelay]
      congr 1
      omega
    rw [hquot]
    simp only [length_append, length_cons, hfront]
    calc limit + (rest.length + 1)
        ≤ limit + ((limit + 1) * ((hi - (lo + delay)) / delay + 1) + 1) := by omega
      _ = (limit + 1) * ((hi - (lo + delay)) / delay + 1 + 1) := by ring

end

/-- A guard that at time `now` has counted `count` wrong attempts and is closed before
`shut`. -/
structure Guarded (window : ℕ) (pause : ℕ → ℕ) (log : List Attempt) (now count shut : ℕ) :
    Prop where
  past : ∀ a ∈ log, a.time ≤ now
  spaced : Spaced window pause log
  counted : recent window now log ≤ count
  closed : ∀ before a, log = before ++ [a] → a.correct = false →
    now < a.time + pause (recent window a.time log) →
    a.time + pause (recent window a.time log) ≤ shut

section

variable {window : ℕ} {pause : ℕ → ℕ} {log : List Attempt}
  {now t count count' shut shut' : ℕ}

theorem Guarded.nil (now count shut : ℕ) : Guarded window pause [] now count shut where
  past := by simp
  spaced := by
    intro before a after hlog
    simp at hlog
  counted := Nat.zero_le _
  closed := by
    intro before a hlog
    simp at hlog

section

variable (h : Guarded window pause log now count shut)
include h

/-- Time passes. The count may fall when no wrong attempt is recent, and the guard may open
when its time has come. -/
theorem Guarded.wait (hnow : now ≤ t)
    (hcount : count ≤ count' ∨ recent window t log = 0) (hshut : shut ≤ shut' ∨ shut ≤ t) :
    Guarded window pause log t count' shut' where
  past a ha := (h.past a ha).trans hnow
  spaced := h.spaced
  counted := by
    rcases hcount with hle | hzero
    · exact (recent_anti window hnow log).trans (h.counted.trans hle)
    · rw [hzero]
      exact Nat.zero_le _
  closed := by
    intro before a hlog ha hrunning
    have hclosed := h.closed before a hlog ha (hnow.trans_lt hrunning)
    omega

/-- An open guard lets nobody in during a pause. -/
theorem Guarded.free (hnow : now ≤ t)
    (hopen : shut ≤ t) : Free window pause log t := by
  refine h.spaced.free (fun a ha => (h.past a ha).trans hnow) fun before a hlog ha => ?_
  by_contra hrunning
  have hclosed := h.closed before a hlog ha (by omega)
  omega

theorem Guarded.hit (hnow : now ≤ t)
    (hopen : shut ≤ t) (count' shut' : ℕ) :
    Guarded window pause (log ++ [⟨t, true⟩]) t count' shut' where
  past a ha := by
    rcases mem_append.mp ha with hmem | hmem
    · exact (h.past a hmem).trans hnow
    · rw [mem_singleton.mp hmem]
  spaced := h.spaced.concat (h.free hnow hopen)
  counted := by
    rw [recent_concat_correct _ _ _ rfl]
    exact Nat.zero_le _
  closed := by
    intro before a hlog ha
    obtain rfl : ⟨t, true⟩ = a := by simpa using (append_inj' hlog rfl).2
    cases ha

theorem Guarded.miss (hmono : Monotone pause)
    (hnow : now ≤ t) (hopen : shut ≤ t) (hcount : count < count' ∨
      recent window t log = 0 ∧ 0 < count')
    (hshut : 0 < pause count' → t + pause count' ≤ shut') :
    Guarded window pause (log ++ [⟨t, false⟩]) t count' shut' := by
  have hrecent : recent window t (log ++ [⟨t, false⟩]) ≤ count' := by
    rw [recent_concat_wrong window t log rfl (Nat.le_add_right _ _)]
    have hlog := (recent_anti window hnow log).trans h.counted
    omega
  refine ⟨fun a ha => ?_, h.spaced.concat (h.free hnow hopen), hrecent, ?_⟩
  · rcases mem_append.mp ha with hmem | hmem
    · exact (h.past a hmem).trans hnow
    · rw [mem_singleton.mp hmem]
  · intro before a hlog ha hrunning
    obtain rfl : ⟨t, false⟩ = a := by simpa using (append_inj' hlog rfl).2
    have hle := hmono hrecent
    simp only at hrunning ⊢
    omega

end

end

end Sodex.Lockout
