/-
  ColonyCore.Dm.Persistent.Settling
  **THE SETTLING TIME OF A RECORD**: change notifications are collected by a software
  timer before the record is written.

  `Settles` states the purpose on what is seen of a run: a write comes a delay after
  the latest change (or the maximum delay after the first one), and no later than the
  first processing of the timers at or after first change + maximum delay + delay.

  The code asks `Timer::count() == 0` for "my timer is not running".  Where the two
  agree, every run settles (`settling_of_regular`).  They do NOT always agree: `stop()`
  leaves the count, so that the next change is written at once, and the count of a
  timer that is due together with an earlier one is 0 (`settling_broken`).
-/
import ColonyCore.Lib.Interleaving
import ColonyCore.System.TimerRuns

namespace ColonyCore.Dm.Persistent

open ColonyCore.System Function List TimerManager

/-! ## §1. What settling means. -/

/-- What is seen of the record and of its timing source. -/
inductive Seen where
  | changed (at_ : Nat)
  | updated (at_ : Nat)
  | begun (now : Nat)
  | finished
deriving DecidableEq

/-- The first and the latest change since the previous write, and the time of the
`processTimers` call in progress. -/
structure Watch where
  window : Option (Nat × Nat)
  call : Option Nat

namespace Watch

def after (v : Watch) : Seen → Watch
  | .changed c => { v with window := some ((v.window.map Prod.fst).getD c, c) }
  | .updated _ => { v with window := none }
  | .begun now => { v with call := some now }
  | .finished => { v with call := none }

def afterAll (v : Watch) (os : List Seen) : Watch := os.foldl after v

theorem afterAll_append (v : Watch) (os os' : List Seen) :
    v.afterAll (os ++ os') = (v.afterAll os).afterAll os' := foldl_append

/-- A write comes `d` after the latest change or `m` after the first; a call of
`processTimers` made `m + d` after the first change does not end without a write. -/
def Permits (d m : Nat) (v : Watch) : Seen → Prop
  | .changed _ => True
  | .updated u => ∃ first latest, v.window = some (first, latest) ∧ (latest + d ≤ u ∨ first + m ≤ u)
  | .begun _ => True
  | .finished => ∀ now first latest, v.call = some now → v.window = some (first, latest) →
      now < first + m + d

end Watch

/-- **THE SETTLING TIME IS RESPECTED** in what is seen. -/
def Settles (d m : Nat) : Watch → List Seen → Prop
  | _, [] => True
  | v, o :: os => v.Permits d m o ∧ Settles d m (v.after o) os

theorem settles_append {d m : Nat} (v : Watch) (os os' : List Seen) :
    Settles d m v (os ++ os') ↔ Settles d m v os ∧ Settles d m (v.afterAll os) os' := by
  induction os generalizing v with
  | nil => exact ⟨fun h => ⟨trivial, h⟩, fun h => h.2⟩
  | cons o os ih =>
    show (v.Permits d m o ∧ Settles d m (v.after o) (os ++ os')) ↔ _
    rw [ih, ← and_assoc]
    rfl

/-! ## §2. The record and its thread. -/

/-- The record's settling state on a shared timing source.  `none` is the record's own
timer, the others are those of any other client. -/
structure Settling (σ : Type) where
  timers : System.Machine (Option σ)
  timerMarker : Nat
  delayMs : Nat
  maxDelayMs : Nat

/-- The steps of the thread. -/
inductive ThreadEvent (σ : Type) where
  | wait (milliseconds : Nat)
  | start (t : σ) (milliseconds : Nat)
  | stop (t : σ)
  | process
  | resume
  /-- The event loop delivers a change notification to the record. -/
  | dataChanged

/-- What the timing source does, seen from the record: its own timer's `expired` is
`updateNVRAM`. -/
def seen {σ : Type} (clock : Nat) : Obs (Option σ) → List Seen
  | .expired none => [.updated clock]
  | .begun now => [.begun now]
  | .finished => [.finished]
  | _ => []

namespace Settling

variable {σ : Type} [DecidableEq σ]

/-- `Record::dataChanged`. -/
def dataChanged (w : Nat) (r : Settling σ) : Settling σ × List Seen :=
  let clock := r.timers.clock
  if r.delayMs = 0 then (r, [.changed clock, .updated clock])
  else
    -- the elapsed time is kept in a uint32_t
    let now := clock % 2 ^ 32
    let timerMarker := if r.timers.mgr.count none = 0 then now else r.timerMarker
    if r.maxDelayMs ≤ ulSub w now timerMarker then
      ({ r with timers := (r.timers.step w (.stop none)).1, timerMarker := timerMarker },
        [.changed clock, .updated clock])
    else
      ({ r with timers := (r.timers.step w (.start none r.delayMs)).1, timerMarker := timerMarker },
        [.changed clock])

/-- The timing source takes a step. -/
def ofTimers (w : Nat) (r : Settling σ) (e : System.Event (Option σ)) : Settling σ × List Seen :=
  ({ r with timers := (r.timers.step w e).1 }, (r.timers.step w e).2.flatMap (seen r.timers.clock))

/-- One step.  Change notifications are delivered by the event loop, never from the
callback of a timer. -/
def step (w : Nat) (r : Settling σ) : ThreadEvent σ → Settling σ × List Seen
  | .wait k => r.ofTimers w (.wait k)
  | .start t d => r.ofTimers w (.start (some t) d)
  | .stop t => r.ofTimers w (.stop (some t))
  | .process => r.ofTimers w .process
  | .resume => r.ofTimers w .resume
  | .dataChanged => if r.timers.callback = none then r.dataChanged w else (r, [])

/-- All steps of a run, and all that is seen. -/
def run (w : Nat) (r : Settling σ) : List (ThreadEvent σ) → Settling σ × List Seen
  | [] => (r, [])
  | e :: es =>
    let first := r.step w e
    let rest := first.1.run w es
    (rest.1, first.2 ++ rest.2)

/-- A started record, on a timing source started at `now`. -/
def init (delayMs maxDelayMs now : Nat) : Settling σ := ⟨System.Machine.init now, 0, delayMs, maxDelayMs⟩

/-- The clock does not wrap, and no due time does. -/
def NoWrap (w : Nat) (r : Settling σ) : ThreadEvent σ → Prop
  | .wait k => r.timers.clock + k < 2 ^ w
  | .start _ d => r.timers.clock + d < 2 ^ w
  | .dataChanged => r.timers.clock < 2 ^ 32 ∧ r.timers.clock + r.delayMs < 2 ^ w
  | _ => True

/-- **The condition on a step**: a timer is started outside callbacks only when the
time stamps of the timing source agree, and at a change notification the record's
count is 0 exactly when its timer is in neither list. -/
def Regular (r : Settling σ) : ThreadEvent σ → Prop
  | .start _ _ => Marked r.timers
  | .dataChanged => Marked r.timers
      ∧ (r.timers.mgr.count none = 0 ↔ none ∉ r.timers.mgr.allKeys)
  | _ => True

/-- Every step of a run meets a condition. -/
abbrev Along (w : Nat) : (Settling σ → ThreadEvent σ → Prop) → Settling σ → List (ThreadEvent σ) → Prop :=
  Interleaving.Along fun r e => some (r.step w e).1

instance (w : Nat) (r : Settling σ) : DecidablePred (r.NoWrap w)
  | .wait _ => inferInstanceAs (Decidable (_ < _))
  | .start _ _ => inferInstanceAs (Decidable (_ < _))
  | .dataChanged => inferInstanceAs (Decidable (_ ∧ _))
  | .stop _ => isTrue trivial
  | .process => isTrue trivial
  | .resume => isTrue trivial

instance (r : Settling σ) : DecidablePred r.Regular
  | .start _ _ => inferInstanceAs (Decidable (Marked _))
  | .dataChanged => inferInstanceAs (Decidable (Marked _ ∧ (_ ↔ _)))
  | .wait _ => isTrue trivial
  | .stop _ => isTrue trivial
  | .process => isTrue trivial
  | .resume => isTrue trivial

end Settling

/-! ## §3. The timing source keeps the settling time. -/

/-- **What ties the window to the record's timer**: an open window has a running timer,
started at the latest change, which came less than `m` after the first. -/
def Window (d m clock marker : Nat) : Option (Nat × Nat) → Option (Nat × Nat) → Prop
  | none, running => running = none
  | some (first, latest), running => running = some (latest, d) ∧ marker = first ∧ first ≤ latest
      ∧ latest < first + m ∧ latest ≤ clock

section Source

variable {σ : Type} [DecidableEq σ] {w d m clock marker : Nat} {s s' : Service (Option σ)} {v : Watch}

theorem Window.mono {clock' : Nat} {window running : Option (Nat × Nat)} (hle : clock ≤ clock')
    (h : Window d m clock marker window running) : Window d m clock' marker window running := by
  cases window with
  | none => exact h
  | some p => exact ⟨h.1, h.2.1, h.2.2.1, h.2.2.2.1, Nat.le_trans h.2.2.2.2 hle⟩

/-- A watch that agrees with the service. -/
structure Agrees (d m clock marker : Nat) (v : Watch) (s : Service (Option σ)) : Prop where
  call : v.call = s.call
  window : Window d m clock marker v.window (s.running none)
  call_le : ∀ now, s.call = some now → now ≤ clock

/-- **One observation of the timing source**, in which nobody else touches the
record's timer. -/
theorem Agrees.step (hd : 1 ≤ d) (h : Agrees d m clock marker v s) {o : Obs (Option σ)}
    (hstep : Service.Step s o s') (halone : Service.LeavesAlone none [o])
    (hbegun : ∀ now, o = .begun now → now ≤ clock) :
    Settles d m v (seen clock o) ∧ Agrees d m clock marker (v.afterAll (seen clock o)) s' := by
  have hcall := h.call
  have hwindow := h.window
  cases hstep with
  | started t d' x hlater =>
    have hne : (none : Option σ) ≠ t := by
      rintro rfl
      exact halone.1 d' x mem_cons_self
    refine ⟨trivial, hcall, ?_, h.call_le⟩
    show Window d m clock marker v.window (update s.running t (some (x, d')) none)
    rw [update_of_ne hne]
    exact hwindow
  | stopped t =>
    have hne : (none : Option σ) ≠ t := by
      rintro rfl
      exact halone.2 mem_cons_self
    refine ⟨trivial, hcall, ?_, h.call_le⟩
    show Window d m clock marker v.window (update s.running t none none)
    rw [update_of_ne hne]
    exact hwindow
  | begun now hidle =>
    refine ⟨⟨trivial, trivial⟩, rfl, hwindow, ?_⟩
    intro now' hnow
    cases hnow
    exact hbegun now rfl
  | expired t x d' now hnow hrun hdue =>
    cases t with
    | some t =>
      refine ⟨trivial, hcall, ?_, h.call_le⟩
      exact hwindow
    | none =>
      -- the record's timer: started at the latest change, and due by now
      cases hv : v.window with
      | none =>
        rw [hv] at hwindow
        rw [show s.running none = none from hwindow] at hrun
        cases hrun
      | some p =>
        obtain ⟨first, latest⟩ := p
        rw [hv] at hwindow
        rw [hwindow.1, Option.some.injEq, Prod.mk.injEq] at hrun
        have hle := h.call_le now hnow
        refine ⟨⟨⟨first, latest, hv, .inl (by omega)⟩, trivial⟩, hcall, ?_, h.call_le⟩
        exact (update_self none none s.running : _)
  | finished now hnow hnone =>
    refine ⟨⟨?_, trivial⟩, rfl, hwindow, fun now' hnow' => nomatch hnow'⟩
    -- the timer of an open window is due before first + m + d, and not yet due now
    intro now' first latest hcall' hv
    rw [hcall, hnow] at hcall'
    cases hcall'
    rw [hv] at hwindow
    obtain ⟨hrun, -, -, hlt, -⟩ := hwindow
    have hlate := hnone none latest d hrun hd
    omega

/-- **A stretch of the timing source.** -/
theorem Agrees.trace (hd : 1 ≤ d) {os : List (Obs (Option σ))} (htrace : Service.Trace s os s')
    (halone : Service.LeavesAlone none os) (hbegun : ∀ now, .begun now ∈ os → now ≤ clock)
    (h : Agrees d m clock marker v s) :
    Settles d m v (os.flatMap (seen clock))
      ∧ Agrees d m clock marker (v.afterAll (os.flatMap (seen clock))) s' := by
  induction htrace generalizing v with
  | nil s => exact ⟨trivial, h⟩
  | @cons s s₁ s' o os hstep _ ih =>
    obtain ⟨hfirst, hmid⟩ := h.step hd hstep
      (halone.subset (fun o' ho => mem_singleton.mp ho ▸ mem_cons_self))
      (fun now ho => hbegun now (ho ▸ mem_cons_self))
    obtain ⟨hrest, hend⟩ := ih (halone.subset (fun o' ho => mem_cons_of_mem o ho))
      (fun now ho => hbegun now (mem_cons_of_mem o ho)) hmid
    rw [flatMap_cons, settles_append, Watch.afterAll_append]
    exact ⟨⟨hfirst, hrest⟩, hend⟩

end Source

/-! ## §4. Whole runs. -/

section Runs

variable {σ : Type} {w d m : Nat} {r : Settling σ} {s : Service (Option σ)} {v : Watch}

/-- **The invariant of a run.** -/
structure Settling.Inv (w d m : Nat) (r : Settling σ) (s : Service (Option σ)) (v : Watch) : Prop where
  refines : Refines w r.timers s
  agrees : Agrees d m r.timers.clock r.timerMarker v s
  delay : r.delayMs = d
  max : r.maxDelayMs = m

theorem Settling.init_inv {now : Nat} (hnow : now < 2 ^ w) :
    (Settling.init d m now : Settling σ).Inv w d m (Service.init (Option σ)) ⟨none, none⟩ where
  refines := init_refines hnow
  agrees := ⟨rfl, rfl, fun _ h => (nomatch h)⟩
  delay := rfl
  max := rfl

variable [DecidableEq σ]

/-- **A step of the timing source** by another client. -/
theorem Settling.Inv.ofTimers (hd : 1 ≤ d) (h : r.Inv w d m s v) {e : System.Event (Option σ)}
    (hstart : ∀ k, e ≠ .start none k) (hstop : e ≠ .stop none) (hfit : Fits w r.timers.clock e)
    (hmark : ∀ t k, e = .start t k → Marked r.timers) :
    ∃ s', Settles d m v (r.ofTimers w e).2
      ∧ (r.ofTimers w e).1.Inv w d m s' (v.afterAll (r.ofTimers w e).2) := by
  obtain ⟨s', htrace, hrefines⟩ := step_refines h.refines hfit hmark
  obtain ⟨hsettles, hagrees⟩ := h.agrees.trace hd htrace (step_alone hstart hstop)
    (fun now ho => Nat.le_of_eq (begun_step ho))
  refine ⟨s', hsettles, hrefines, ?_, h.delay, h.max⟩
  exact ⟨hagrees.call, hagrees.window.mono (clock_le_step r.timers e), Refines.call_le hrefines⟩

/-- The record starts or stops its own timer, outside callbacks. -/
theorem ownStep_refines {M : System.Machine (Option σ)} (h : Refines w M s)
    {e : System.Event (Option σ)} {running : Option (Nat × Nat)}
    (hown : (running = none ∧ e = .stop none) ∨ ∃ k, running = some (M.clock, k) ∧ e
      = .start none k)
    (hfit : Fits w M.clock e) (hmark : Marked M) :
    Refines w (M.step w e).1 { s with running := update s.running none running } := by
  obtain ⟨s', htrace, hrefines⟩ := step_refines h hfit (fun _ _ _ => hmark)
  rcases hown with ⟨rfl, rfl⟩ | ⟨k, rfl, rfl⟩
  · obtain _ | ⟨hstep, hnil⟩ := htrace
    cases hstep
    cases hnil
    exact hrefines
  · obtain _ | ⟨hstep, hnil⟩ := htrace
    cases hstep
    cases hnil
    exact hrefines

section

variable (hd : 1 ≤ d) (hm : 1 ≤ m) (h : r.Inv w d m s v)

include hd hm h

/-- **A CHANGE NOTIFICATION**, when the count tells whether the timer runs. -/
theorem Settling.Inv.dataChanged (hidle : r.timers.callback = none)
    (hwrap : r.NoWrap w .dataChanged) (hregular : r.Regular .dataChanged) :
    ∃ s', Settles d m v (r.dataChanged w).2
      ∧ (r.dataChanged w).1.Inv w d m s' (v.afterAll (r.dataChanged w).2) := by
  obtain ⟨hclock, hfit⟩ := hwrap
  obtain ⟨hmark, hcount⟩ := hregular
  have hdelay := h.delay
  have hmax := h.max
  have htracks : r.timers.mgr.count none = 0 ↔ s.running none = none := by
    have hmem : Tracks w r.timers.mgr.timeMark r.timers.mgr s.running := by
      have hrefines := h.refines
      unfold Refines at hrefines
      rw [hidle] at hrefines
      exact hrefines.tracks
    rw [hcount, hmem.mem_allKeys none, not_not]
  have hlt : r.timers.clock < 2 ^ w := by omega
  have hwindow := h.agrees.window
  unfold Settling.dataChanged
  simp only [Nat.mod_eq_of_lt hclock, hdelay, hmax]
  rw [if_neg (by omega)]
  have hstop := ownStep_refines h.refines (.inl ⟨rfl, rfl⟩) trivial hmark
  have hstart := ownStep_refines h.refines (.inr ⟨d, rfl, rfl⟩) (hdelay ▸ hfit) hmark
  cases hv : v.window with
  | none =>
    -- the first change: the window opens now
    rw [hv] at hwindow
    rw [if_pos (htracks.mpr hwindow), ulSub_of_le le_rfl hlt,
        if_neg (by omega)]
    refine ⟨_, ⟨trivial, trivial⟩, hstart, ⟨h.agrees.call, ?_, Refines.call_le hstart⟩, rfl, rfl⟩
    show Window d m _ r.timers.clock (some ((v.window.map Prod.fst).getD r.timers.clock, r.timers.clock))
      (update s.running none (some (r.timers.clock, d)) none)
    rw [hv]
    exact ⟨rfl, rfl, le_rfl, by show r.timers.clock < r.timers.clock + m; omega, clock_le_step _ _⟩
  | some p =>
    obtain ⟨first, latest⟩ := p
    rw [hv] at hwindow
    obtain ⟨hrun, hmarker, hfl, hlm, hlc⟩ := hwindow
    have hnot : ¬ r.timers.mgr.count none = 0 := by
      rw [htracks, hrun]
      exact Option.some_ne_none _
    rw [if_neg hnot, hmarker, ulSub_of_le (by omega) hlt]
    by_cases hexpired : m ≤ r.timers.clock - first
    · -- the maximum delay has passed since the first change
      rw [if_pos hexpired]
      refine ⟨_, ⟨trivial, ⟨first, r.timers.clock, ?_, .inr (by omega)⟩, trivial⟩, hstop,
        ⟨h.agrees.call, ?_, Refines.call_le hstop⟩, rfl, rfl⟩
      · show some ((v.window.map Prod.fst).getD r.timers.clock, r.timers.clock) = _
        rw [hv]
        rfl
      · exact (update_self none none s.running : _)
    · rw [if_neg hexpired]
      refine ⟨_, ⟨trivial, trivial⟩, hstart, ⟨h.agrees.call, ?_, Refines.call_le hstart⟩, rfl, rfl⟩
      show Window d m _ first (some ((v.window.map Prod.fst).getD r.timers.clock, r.timers.clock))
        (update s.running none (some (r.timers.clock, d)) none)
      rw [hv]
      exact ⟨rfl, rfl, by show first ≤ r.timers.clock; omega,
        by show r.timers.clock < first + m; omega, clock_le_step _ _⟩

/-- **A step keeps the settling time.** -/
theorem Settling.Inv.step {e : ThreadEvent σ} (hwrap : r.NoWrap w e) (hregular : r.Regular e) :
    ∃ s', Settles d m v (r.step w e).2 ∧ (r.step w e).1.Inv w d m s' (v.afterAll (r.step w e).2) := by
  cases e with
  | wait k =>
    exact h.ofTimers hd (fun _ he => nomatch he) (fun he => nomatch he) hwrap
      (fun _ _ he => nomatch he)
  | start t k =>
    exact h.ofTimers hd (fun _ he => nomatch he) (fun he => nomatch he) hwrap
      (fun _ _ _ => hregular)
  | stop t | process | resume =>
    exact h.ofTimers hd (fun _ he => nomatch he) (fun he => nomatch he) trivial
      (fun _ _ he => nomatch he)
  | dataChanged =>
    unfold Settling.step
    by_cases hidle : r.timers.callback = none
    · rw [if_pos hidle]
      exact h.dataChanged hd hm hidle hwrap hregular
    · rw [if_neg hidle]
      exact ⟨s, trivial, h⟩

/-- **A run keeps the settling time.** -/
theorem Settling.Inv.run {es : List (ThreadEvent σ)}
    (hwrap : Settling.Along w (Settling.NoWrap w) r es)
    (hregular : Settling.Along w Settling.Regular r es) : Settles d m v (r.run w es).2 := by
  induction es generalizing r s v with
  | nil => trivial
  | cons e es ih =>
    rw [Settling.Along, Interleaving.along_cons_total] at hwrap hregular
    obtain ⟨s', hfirst, hinv⟩ := h.step hd hm hwrap.1 hregular.1
    exact (settles_append v _ _).mpr ⟨hfirst, ih hinv hwrap.2 hregular.2⟩

end

/-- How often callbacks return. -/
def callbackReturns : List (ThreadEvent σ) → Nat
  | [] => 0
  | .resume :: es => callbackReturns es + 1
  | _ :: es => callbackReturns es

/-- A call in progress, under one step: it ends, or it goes on with an active list
that is shorter by the callback that returned. -/
theorem Settling.step_in_callback (h : InCall r.timers) (hcall : r.timers.callback ≠ none)
    (e : ThreadEvent σ) :
    .finished ∈ (r.step w e).2
      ∨ (r.step w e).1.timers.callback ≠ none
        ∧ (r.step w e).1.timers.mgr.counters.length + callbackReturns [e]
            ≤ r.timers.mgr.counters.length := by
  have htimers : ∀ e' : System.Event (Option σ), returns [e'] = callbackReturns [e] →
      .finished ∈ (r.ofTimers w e').2
        ∨ (r.ofTimers w e').1.timers.callback ≠ none
          ∧ (r.ofTimers w e').1.timers.mgr.counters.length + callbackReturns [e]
              ≤ r.timers.mgr.counters.length := by
    intro e' hreturns
    rw [← hreturns]
    exact (System.step_in_callback h hcall e').imp_left
      (fun hfin => mem_flatMap.mpr ⟨.finished, hfin, mem_cons_self⟩)
  cases e with
  | wait k | start t k | stop t | process | resume => exact htimers _ rfl
  | dataChanged =>
    unfold Settling.step
    rw [if_neg hcall]
    exact .inr ⟨hcall, le_rfl⟩

theorem Settling.step_inCall (h : InCall r.timers) (e : ThreadEvent σ) :
    InCall (r.step w e).1.timers := by
  cases e with
  | dataChanged =>
    show InCall (if r.timers.callback = none then r.dataChanged w else (r, [])).1.timers
    split
    · unfold Settling.dataChanged
      dsimp only
      split
      · exact h
      · generalize (if r.timers.mgr.count none = 0 then _ else _ : Nat) = marker
        split
        · exact System.step_inCall h _
        · exact System.step_inCall h _
    · exact h
  | _ => exact System.step_inCall h _

theorem Settling.run_inCall (h : InCall r.timers) (es : List (ThreadEvent σ)) :
    InCall (r.run w es).1.timers := by
  induction es generalizing r with
  | nil => exact h
  | cons e es ih => exact ih (Settling.step_inCall h e)

/-- **A call of `processTimers` ends**, when the callbacks return. -/
theorem Settling.run_finished (h : InCall r.timers) (hcall : r.timers.callback ≠ none)
    {es : List (ThreadEvent σ)} (hlen : r.timers.mgr.counters.length < callbackReturns es) :
    .finished ∈ (r.run w es).2 := by
  induction es generalizing r with
  | nil => exact absurd hlen (Nat.not_lt_zero _)
  | cons e es ih =>
    have hcount : callbackReturns (e :: es) = callbackReturns [e] + callbackReturns es := by
      cases e <;> simp [callbackReturns, Nat.add_comm]
    rcases Settling.step_in_callback h hcall e with hfin | ⟨hcall', hlen'⟩
    · exact mem_append_left _ hfin
    · exact mem_append_right _ (ih (Settling.step_inCall h e) hcall' (by omega))

/-- **THE SETTLING TIME IS RESPECTED**, in every run whose steps are all regular; and
a call of `processTimers` ends when its callbacks return. -/
theorem settling_of_regular {now : Nat} (hd : 0 < d) (hm : d ≤ m) (hnow : now < 2 ^ w)
    (es : List (ThreadEvent σ))
    (hwrap : Settling.Along w (Settling.NoWrap w) (Settling.init d m now) es)
    (hregular : Settling.Along w Settling.Regular (Settling.init d m now) es) :
    Settles d m ⟨none, none⟩ ((Settling.init d m now).run w es).2
      ∧ ∀ es₁ es₂, es = es₁ ++ es₂ →
          ((Settling.init d m now).run w es₁).1.timers.callback ≠ none →
          ((Settling.init d m now).run w es₁).1.timers.mgr.counters.length < callbackReturns es₂ →
          .finished ∈ (((Settling.init d m now).run w es₁).1.run w es₂).2 := by
  constructor
  · exact (Settling.init_inv hnow).run hd (by omega) hwrap hregular
  · intro es₁ es₂ _ hcall hlen
    have hinit : InCall (Settling.init d m now : Settling σ).timers := fun h => absurd rfl h
    exact Settling.run_finished (Settling.run_inCall hinit es₁) hcall hlen

/-- Another timer runs ahead of the record's; two changes are written once. -/
theorem settling_of_regular_shared :
    Settles 10 100 ⟨none, none⟩ ((Settling.init 10 100 0).run 32
        [.start () 4, .dataChanged, .wait 5, .process, .resume, .dataChanged, .wait 12, .process,
          .resume]).2
      ∧ ((Settling.init 10 100 0).run 32
        [.start () 4, .dataChanged, .wait 5, .process, .resume, .dataChanged, .wait 12, .process,
          .resume]).2
        = [.changed 0, .begun 5, .finished, .changed 5, .begun 17, .updated 17, .finished] :=
  ⟨(settling_of_regular (by decide) (by decide) (by decide) _
    (by decide) (by decide)).1, by decide⟩

/-- The write at 10 stops the timer and leaves its count: the change at 15 opens no
window, and is written at once. -/
def staleCount : List (ThreadEvent Bool) :=
  [.dataChanged, .wait 10, .dataChanged, .wait 5, .dataChanged]

/-- Each change finds the record's timer due together with an earlier one. -/
def tiedTimers : List (ThreadEvent Bool) :=
  [.start true 10, .dataChanged, .wait 9, .start false 10, .dataChanged, .wait 9, .start true 10,
    .dataChanged, .wait 9, .start false 10, .dataChanged, .wait 8, .process, .resume]

/-- **The settling time is broken**, in two ways.  The write at 15 comes neither 10
after the latest change nor 10 after the first, which are both the change at 15.  And a
record that is due together with an earlier timer has the count 0, so each change opens
the window again: the processing at 35 comes 20 + 10 after the change at 0, which it
does not write. -/
theorem settling_broken :
    ((Settling.init 10 10 0).run 32 staleCount).2
        = [.changed 0, .changed 10, .updated 10, .changed 15, .updated 15]
      ∧ ¬ Settles 10 10 ⟨none, none⟩ ((Settling.init 10 10 0).run 32 staleCount).2
      ∧ ((Settling.init 10 20 0).run 32 tiedTimers).2
        = [.changed 0, .changed 9, .changed 18, .changed 27, .begun 35, .finished]
      ∧ ¬ Settles 10 20 ⟨none, none⟩ ((Settling.init 10 20 0).run 32 tiedTimers).2 := by
  have hstale : ((Settling.init 10 10 0).run 32 staleCount).2
      = [.changed 0, .changed 10, .updated 10, .changed 15, .updated 15] := by decide
  have htied : ((Settling.init 10 20 0).run 32 tiedTimers).2
      = [.changed 0, .changed 9, .changed 18, .changed 27, .begun 35, .finished] := by decide
  refine ⟨hstale, ?_, htied, ?_⟩
  · rw [hstale]
    rintro ⟨-, -, -, -, ⟨first, latest, hv, hlate⟩, -⟩
    have hpair : (15, 15) = (first, latest) := Option.some.inj hv
    cases hpair
    omega
  · rintro ⟨-, -, -, -, -, hfin, -⟩
    exact absurd (hfin 35 0 27 rfl rfl) (by decide)

end Runs

end ColonyCore.Dm.Persistent
