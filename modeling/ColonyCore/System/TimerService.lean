/-
  ColonyCore.System.TimerService
  **WHAT SOFTWARE TIMERS ARE FOR.**

  The abstract service knows when each timer was started, for how long, and whether
  the timers are being processed.  It lets a timer expire only when it is due at the
  time the processing was called, and lets the processing end only when nothing is
  due any more.  `Fires` says the same of a bare list of observations, in the words
  of a client; `Trace.fires` is the step from one to the other.
-/
import Mathlib.Logic.Function.Basic
import Mathlib.Algebra.Ring.Nat

namespace ColonyCore.System

open Function List

/-- What a client sees: its own calls of `start` (with the duration and the time of
the call) and `stop`, the callbacks, and each call of `processTimers`. -/
inductive Obs (τ : Type) where
  | started (t : τ) (duration at_ : Nat)
  | stopped (t : τ)
  | begun (now : Nat)
  | expired (t : τ)
  | finished
  deriving DecidableEq

/-- The running timers with the time they were started at and their duration, and
the time of the call in progress. -/
structure Service (τ : Type) where
  running : τ → Option (Nat × Nat)
  call : Option Nat

namespace Service

variable {τ : Type}

/-- A list of observations that neither starts nor stops `t`. -/
def LeavesAlone (t : τ) (os : List (Obs τ)) : Prop :=
  (∀ d x, .started t d x ∉ os) ∧ .stopped t ∉ os

theorem LeavesAlone.subset {t : τ} {os os' : List (Obs τ)} (h : LeavesAlone t os)
    (hsub : ∀ o ∈ os', o ∈ os) : LeavesAlone t os' :=
  ⟨fun d x hmem => h.1 d x (hsub _ hmem), fun hmem => h.2 (hsub _ hmem)⟩

variable [DecidableEq τ]

/-- Nothing runs. -/
def init (τ : Type) : Service τ := ⟨fun _ => none, none⟩

/-- **The service**: one observation at a time. -/
inductive Step : Service τ → Obs τ → Service τ → Prop where
  | started (s : Service τ) (t : τ) (d x : Nat) (hlater : ∀ now, s.call = some now → now ≤ x) :
      Step s (.started t d x) { s with running := update s.running t (some (x, d)) }
  | stopped (s : Service τ) (t : τ) :
      Step s (.stopped t) { s with running := update s.running t none }
  | begun (s : Service τ) (now : Nat) (hidle : s.call = none) :
      Step s (.begun now) { s with call := some now }
  | expired (s : Service τ) (t : τ) (x d now : Nat) (hcall : s.call = some now)
      (hrun : s.running t = some (x, d)) (hdue : x + d ≤ now) :
      Step s (.expired t) { s with running := update s.running t none }
  | finished (s : Service τ) (now : Nat) (hcall : s.call = some now)
      (hnone : ∀ t x d, s.running t = some (x, d) → 1 ≤ d → now < x + d) :
      Step s .finished { s with call := none }

/-- The observations of a run. -/
inductive Trace : Service τ → List (Obs τ) → Service τ → Prop where
  | nil (s : Service τ) : Trace s [] s
  | cons {s s₁ s₂ : Service τ} {o : Obs τ} {os : List (Obs τ)} :
      Step s o s₁ → Trace s₁ os s₂ → Trace s (o :: os) s₂

variable {s s' s'' : Service τ} {o : Obs τ} {os os' : List (Obs τ)}

theorem Trace.append (h : Trace s os s') (h' : Trace s' os' s'') : Trace s (os ++ os') s'' := by
  induction h with
  | nil s => exact h'
  | cons hstep _ ih => exact Trace.cons hstep (ih h')

theorem Trace.split (h : Trace s (os ++ os') s'') : ∃ s', Trace s os s' ∧ Trace s' os' s'' := by
  induction os generalizing s with
  | nil => exact ⟨s, Trace.nil s, h⟩
  | cons o os ih =>
    cases h with
    | cons hstep hrest =>
      obtain ⟨s', h₁, h₂⟩ := ih hrest
      exact ⟨s', Trace.cons hstep h₁, h₂⟩

/-- **What a client relies on.**  A timer started at `x` for `d ≥ 1` and left alone does not
expire in calls made before `x + d`.  In the first call made at `x + d` or later it expires,
unless the client starts or stops it in that call before it does; what happens to it after
its expiry, in its own callback too, is a matter of its own.  A timer that has expired or
was stopped does not expire until it is started again, and one never started not at all. -/
structure Fires (os : List (Obs τ)) : Prop where
  notEarly : ∀ before t d x after rest, os = before ++ .started t d x :: (after ++ rest) →
    1 ≤ d → LeavesAlone t after → (∀ now, .begun now ∈ after → now < x + d) → .expired t ∉ after
  expires : ∀ before t d x early now call rest,
    os = before ++ .started t d x :: (early ++ .begun now :: (call ++ .finished :: rest)) →
    1 ≤ d → LeavesAlone t early → (∀ n, .begun n ∈ early → n < x + d) → x + d ≤ now →
    .finished ∉ call →
    ∃ pre o post, call = pre ++ o :: post ∧ LeavesAlone t pre ∧ .expired t ∉ pre
      ∧ (o = .expired t ∨ ¬ LeavesAlone t [o])
  once : ∀ before t after rest, os = before ++ .expired t :: (after ++ rest) →
    (∀ d x, .started t d x ∉ after) → .expired t ∉ after
  notStopped : ∀ before t after rest, os = before ++ .stopped t :: (after ++ rest) →
    (∀ d x, .started t d x ∉ after) → .expired t ∉ after
  notUnstarted : ∀ t before rest, os = before ++ rest → (∀ d x, .started t d x ∉ before) →
    .expired t ∉ before

/-! ## The service fires its timers when they are due. -/

variable {t : τ} {x d now : Nat}

/-- A timer that does not run does not expire. -/
theorem Trace.not_running (h : Trace s os s') (hrun : s.running t = none)
    (hno : ∀ d x, .started t d x ∉ os) : .expired t ∉ os ∧ s'.running t = none := by
  induction h with
  | nil s => exact ⟨not_mem_nil, hrun⟩
  | @cons s s₁ s₂ o os hstep _ ih =>
    have hkeep : o ≠ .expired t ∧ s₁.running t = none := by
      cases hstep with
      | started u d x _ =>
        have hne : t ≠ u := by
          rintro rfl
          exact hno d x mem_cons_self
        exact ⟨by simp, (update_of_ne hne _ _).trans hrun⟩
      | stopped u =>
        refine ⟨by simp, ?_⟩
        by_cases hu : t = u
        · subst hu
          exact update_self _ _ _
        · exact (update_of_ne hu _ _).trans hrun
      | begun now _ | finished now _ _ => exact ⟨by simp, hrun⟩
      | expired u x d now _ hu _ =>
        have hne : t ≠ u := by
          rintro rfl
          rw [hrun] at hu
          cases hu
        exact ⟨by simpa using Ne.symm hne, (update_of_ne hne _ _).trans hrun⟩
    obtain ⟨hnot, hend⟩ := ih hkeep.2 (fun d x hmem => hno d x (mem_cons_of_mem _ hmem))
    refine ⟨?_, hend⟩
    rw [mem_cons, not_or]
    exact ⟨Ne.symm hkeep.1, hnot⟩

/-- One step of a timer that runs and is left alone: it goes on running, or it
expires, being due. -/
theorem Step.running (h : Step s o s') (hrun : s.running t = some (x, d))
    (halone : LeavesAlone t [o]) :
    (s'.running t = some (x, d) ∧ o ≠ .expired t)
      ∨ (s'.running t = none ∧ o = .expired t ∧ ∃ now, s.call = some now ∧ x + d ≤ now) := by
  cases h with
  | started u d' x' _ =>
    have hne : t ≠ u := by
      rintro rfl
      exact halone.1 d' x' mem_cons_self
    exact .inl ⟨(update_of_ne hne _ _).trans hrun, by simp⟩
  | stopped u =>
    have hne : t ≠ u := by
      rintro rfl
      exact halone.2 mem_cons_self
    exact .inl ⟨(update_of_ne hne _ _).trans hrun, by simp⟩
  | begun now _ | finished now _ _ => exact .inl ⟨hrun, by simp⟩
  | expired u x' d' now hcall hu hdue =>
    by_cases hut : t = u
    · subst hut
      rw [hrun] at hu
      cases hu
      exact .inr ⟨update_self _ _ _, rfl, now, hcall, hdue⟩
    · exact .inl ⟨(update_of_ne hut _ _).trans hrun, by simpa using Ne.symm hut⟩

/-- The call in progress after a step. -/
theorem Step.call (h : Step s o s') (hcall : ∀ now, s.call = some now → now < n)
    (hbegun : ∀ now, o = .begun now → now < n) : ∀ now, s'.call = some now → now < n := by
  cases h with
  | started _ _ _ _ => exact hcall
  | stopped _ => exact hcall
  | begun now _ =>
    intro now' hnow
    cases hnow
    exact hbegun now rfl
  | expired _ _ _ _ _ _ _ => exact hcall
  | finished _ _ _ =>
    intro now hnow
    cases hnow

/-- **Not early**: as long as all calls are made before it is due, a timer runs on. -/
theorem Trace.not_early (h : Trace s os s') (hrun : s.running t = some (x, d))
    (halone : LeavesAlone t os) (hcall : ∀ now, s.call = some now → now < x + d)
    (hbegun : ∀ now, .begun now ∈ os → now < x + d) :
    .expired t ∉ os ∧ s'.running t = some (x, d) := by
  induction h with
  | nil s => exact ⟨not_mem_nil, hrun⟩
  | @cons s s₁ s₂ o os hstep _ ih =>
    have halone₁ : LeavesAlone t [o] := halone.subset (by simp)
    rcases hstep.running hrun halone₁ with ⟨hrun₁, hne⟩ | ⟨-, -, now, hnow, hdue⟩
    · obtain ⟨hnot, hend⟩ := ih hrun₁ (halone.subset fun o ho => mem_cons_of_mem _ ho)
        (hstep.call hcall fun now ho => hbegun now (ho ▸ mem_cons_self))
        (fun now hmem => hbegun now (mem_cons_of_mem _ hmem))
      refine ⟨?_, hend⟩
      rw [mem_cons, not_or]
      exact ⟨Ne.symm hne, hnot⟩
    · have := hcall now hnow
      omega

/-- A call goes on until it is finished. -/
theorem Trace.call_kept (h : Trace s os s') (hcall : s.call = some now) (hno : .finished ∉ os) :
    s'.call = some now := by
  induction h with
  | nil s => exact hcall
  | cons hstep _ ih =>
    refine ih ?_ (fun hmem => hno (mem_cons_of_mem _ hmem))
    cases hstep with
    | started _ _ _ _ => exact hcall
    | stopped _ => exact hcall
    | begun _ hidle =>
      rw [hcall] at hidle
      cases hidle
    | expired _ _ _ _ _ _ _ => exact hcall
    | finished _ _ _ => exact absurd mem_cons_self hno

/-- **The first thing that happens to a timer that runs**, if anything does: it expires, or
its client starts or stops it. -/
theorem Trace.first (h : Trace s os s') (hrun : s.running t = some (x, d)) :
    s'.running t = some (x, d)
      ∨ ∃ pre o post, os = pre ++ o :: post ∧ LeavesAlone t pre ∧ .expired t ∉ pre
        ∧ (o = .expired t ∨ ¬ LeavesAlone t [o]) := by
  have hnil : LeavesAlone t [] := ⟨nofun, nofun⟩
  induction h with
  | nil s => exact .inl hrun
  | @cons s s₁ s₂ o os hstep _ ih =>
    by_cases halone : LeavesAlone t [o]
    · rcases hstep.running hrun halone with ⟨hrun₁, hne⟩ | ⟨-, rfl, -⟩
      · refine (ih hrun₁).imp id ?_
        rintro ⟨pre, o', post, rfl, hpre, hnot, ho'⟩
        refine ⟨o :: pre, o', post, rfl, ⟨fun d x => ?_, ?_⟩, ?_, ho'⟩
        · rw [mem_cons, not_or]
          exact ⟨fun ho => halone.1 d x (ho ▸ mem_cons_self), hpre.1 d x⟩
        · rw [mem_cons, not_or]
          exact ⟨fun ho => halone.2 (ho ▸ mem_cons_self), hpre.2⟩
        · rw [mem_cons, not_or]
          exact ⟨Ne.symm hne, hnot⟩
      · exact .inr ⟨[], _, os, rfl, hnil, not_mem_nil, .inl rfl⟩
    · exact .inr ⟨[], o, os, rfl, hnil, not_mem_nil, .inr halone⟩

/-- What `start` leaves: the timer runs, and a call in progress was made before it is
due. -/
theorem Step.of_started (h : Step s (.started t d x) s') (hd : 1 ≤ d) :
    s'.running t = some (x, d) ∧ ∀ now, s'.call = some now → now < x + d := by
  cases h with
  | started _ _ _ hlater =>
    refine ⟨update_self _ _ _, ?_⟩
    intro now hnow
    have := hlater now hnow
    omega

/-- **The service keeps its promise**, whatever its clients do. -/
theorem Trace.fires (h : Trace (init τ) os s') : Fires os where
  notEarly := by
    rintro before t d x after rest rfl hd halone hbegun
    obtain ⟨s₁, -, h₁⟩ := h.split
    cases h₁ with
    | cons hstep hrest =>
      obtain ⟨s₂, h₂, -⟩ := hrest.split
      obtain ⟨hrun, hcall⟩ := hstep.of_started hd
      exact (h₂.not_early hrun halone hcall hbegun).1
  expires := by
    rintro before t d x early now call rest rfl hd halone hearly hdue hno
    obtain ⟨s₁, -, h₁⟩ := h.split
    cases h₁ with
    | cons hstep hrest =>
      obtain ⟨hrun, hcall⟩ := hstep.of_started hd
      obtain ⟨s₂, h₂, h₃⟩ := hrest.split
      -- before the call: not early
      obtain ⟨-, hrun₂⟩ := h₂.not_early hrun halone hcall hearly
      cases h₃ with
      | cons hbegin h₄ =>
        obtain ⟨s₄, h₅, h₆⟩ := h₄.split
        cases hbegin with
        | begun _ _ =>
          cases h₆ with
          | cons hfinish _ =>
            cases hfinish with
            | finished now' hcall' hnone =>
              rw [h₅.call_kept rfl hno] at hcall'
              cases hcall'
              -- at the end of the call the timer cannot run on, being due
              refine (h₅.first hrun₂).resolve_left fun hrun₄ => ?_
              have := hnone t x d hrun₄ hd
              omega
  once := by
    rintro before t after rest rfl hno
    obtain ⟨s₁, -, h₁⟩ := h.split
    cases h₁ with
    | cons hstep hrest =>
      obtain ⟨s₂, h₂, -⟩ := hrest.split
      cases hstep with
      | expired _ _ _ _ _ _ _ => exact (h₂.not_running (update_self _ _ _) hno).1
  notStopped := by
    rintro before t after rest rfl hno
    obtain ⟨s₁, -, h₁⟩ := h.split
    cases h₁ with
    | cons hstep hrest =>
      obtain ⟨s₂, h₂, -⟩ := hrest.split
      cases hstep with
      | stopped _ => exact (h₂.not_running (update_self _ _ _) hno).1
  notUnstarted := by
    rintro t before rest rfl hno
    obtain ⟨s₁, h₁, -⟩ := h.split
    exact (h₁.not_running rfl hno).1

end Service

end ColonyCore.System
