/-
  ColonyCore.System.TimerRuns
  **SOFTWARE TIMERS FIRE EXACTLY WHEN THEY ARE DUE**, over every run of the thread.

  A step of the machine is a trace of the timer service (`step_refines`), so a run is
  one (`run_refines`), and the service fires its timers when they are due.  A call of
  `processTimers` also ENDS: timers started by callbacks wait in the pending list, so
  each callback leaves a shorter active list (`run_finished`).

  The refinement needs the manager's two time stamps to agree when a timer is started
  outside a callback.  They DISAGREE between `startManager`, which sets only one of
  them, and the first `processTimers`: `first_timer_late`.
-/
import ColonyCore.System.TimerRefinement

namespace ColonyCore.System

open TimerManager

variable {τ : Type}

/-! ## §1. The runs looked at. -/

/-- From the clock `now` on, times and the due times of the timers fit into an
`unsigned long` of `w` bits. -/
def InRange (w : Nat) : Nat → List (Event τ) → Prop
  | _, [] => True
  | now, .wait k :: es => now + k < 2 ^ w ∧ InRange w (now + k) es
  | now, .start _ d :: es => now + d < 2 ^ w ∧ InRange w now es
  | now, _ :: es => InRange w now es

/-- No timer is started before the first `processTimers`. -/
def StartsAfterProcess : List (Event τ) → Prop
  | [] => True
  | .start _ _ :: _ => False
  | .process :: _ => True
  | _ :: es => StartsAfterProcess es

/-- Outside callbacks the two time stamps agree. -/
def Marked (m : Machine τ) : Prop := m.callback = none → m.mgr.timeNow = m.mgr.timeMark

instance (m : Machine τ) : Decidable (Marked m) := inferInstanceAs (Decidable (_ → _))

variable {w : Nat}

/-- `tick` leaves the stamps in agreement. -/
theorem continue_marked (clock : Nat) (r : TimerManager τ × Option (τ × Nat)) :
    Marked (Machine.continue_ w clock r).1 := by
  obtain ⟨mgr, next⟩ := r
  cases next with
  | none => exact fun _ => rfl
  | some p => exact fun h => nomatch h

/-- `startManager` refines the service in which nothing runs. -/
theorem init_refines {now : Nat} (hnow : now < 2 ^ w) :
    Refines w (Machine.init now : Machine τ) (Service.init τ) where
  tracks :=
    { nodup := List.nodup_nil
      due := fun _ _ => ⟨fun h => (nomatch h), fun ⟨_, _, h, _⟩ => (nomatch h)⟩
      bounded := fun _ h => (nomatch h) }
  mark_le := le_rfl
  now_le := Nat.zero_le _
  clock_lt := hnow
  notInTick := rfl
  call := rfl
  nobody := rfl
  later := fun _ _ _ h => (nomatch h)

variable [DecidableEq τ]

theorem process_marked (m : Machine τ) : Marked (m.step w .process).1 := by
  obtain ⟨mgr, clock, callback⟩ := m
  cases callback with
  | none => exact continue_marked clock _
  | some msec => exact fun h => nomatch h

variable {m : Machine τ}

/-- **A step keeps the stamps in agreement.** -/
theorem step_marked (h : Marked m) (e : Event τ) : Marked (m.step w e).1 := by
  cases e with
  | wait k => exact h
  | start t d =>
    obtain ⟨hn, hm, -⟩ := m.mgr.start_frame m.clock t d
    exact fun hcall => hn.trans ((h hcall).trans hm.symm)
  | stop t =>
    obtain ⟨hn, hm, -⟩ := m.mgr.detach_frame w t
    exact fun hcall => hn.trans ((h hcall).trans hm.symm)
  | process => exact process_marked m
  | resume =>
    obtain ⟨mgr, clock, callback⟩ := m
    cases callback with
    | none => exact h
    | some msec => exact continue_marked clock _

/-! ## §2. The machine implements the service. -/

/-- A step whose times fit: the clock after a wait, the due time of a start. -/
def Fits (w now : Nat) : Event τ → Prop
  | .wait k => now + k < 2 ^ w
  | .start _ d => now + d < 2 ^ w
  | _ => True

variable {s : Service τ} {e : Event τ}

/-- **A step outside callbacks.** -/
theorem Idle.step {mgr : TimerManager τ} {clock : Nat} (h : Idle w mgr clock s)
    (hfit : Fits w clock e) (hmark : ∀ t d, e = .start t d → mgr.timeNow = mgr.timeMark) :
    ∃ s', Service.Trace s (Machine.step w ⟨mgr, clock, none⟩ e).2 s'
      ∧ Refines w (Machine.step w ⟨mgr, clock, none⟩ e).1 s' := by
  cases e with
  | wait k =>
    refine ⟨s, Service.Trace.nil s, ?_⟩
    exact { h with
      mark_le := Nat.le_add_right_of_le h.mark_le
      now_le := Nat.le_add_right_of_le h.now_le
      clock_lt := hfit }
  | start t d =>
    have hlater := Refines.call_le (M := ⟨mgr, clock, none⟩) h
    exact ⟨_, Service.Trace.cons (Service.Step.started s t d clock hlater) (Service.Trace.nil _),
      h.start (hmark t d rfl) hfit t⟩
  | stop t =>
    exact ⟨_, Service.Trace.cons (Service.Step.stopped s t) (Service.Trace.nil _), h.stop t⟩
  | process =>
    -- nothing of the active list is due at the mark, from which the list counts
    have htick := h.begin_
    have hbase : clock - ulSub w clock mgr.timeMark = mgr.timeMark := by
      rw [ulSub_of_le h.mark_le h.clock_lt]
      exact Nat.sub_sub_self h.mark_le
    obtain ⟨s', htrace, href⟩ := htick.tick (by
      intro t x d hrun _ hd
      rw [hbase]
      exact h.later t x d hrun hd)
    exact ⟨s', Service.Trace.cons (Service.Step.begun s clock h.call) htrace, href⟩
  | resume => exact ⟨s, Service.Trace.nil s, h⟩

variable {msec : Nat}

/-- **A step inside a callback.** -/
theorem Ticking.step {mgr : TimerManager τ} {clock : Nat}
    (h : Ticking w mgr clock msec s) (hfit : Fits w clock e) :
    ∃ s', Service.Trace s (Machine.step w ⟨mgr, clock, some msec⟩ e).2 s'
      ∧ Refines w (Machine.step w ⟨mgr, clock, some msec⟩ e).1 s' := by
  cases e with
  | wait k =>
    refine ⟨s, Service.Trace.nil s, ?_⟩
    exact { h with
      now_le := Nat.le_add_right_of_le h.now_le
      clock_lt := hfit }
  | start t d =>
    have hlater := Refines.call_le (M := ⟨mgr, clock, some msec⟩) h
    exact ⟨_, Service.Trace.cons (Service.Step.started s t d clock hlater) (Service.Trace.nil _),
      h.start hfit t⟩
  | stop t =>
    exact ⟨_, Service.Trace.cons (Service.Step.stopped s t) (Service.Trace.nil _), h.stop t⟩
  | process => exact ⟨s, Service.Trace.nil s, h⟩
  | resume => exact h.resume

/-- **A STEP IS A TRACE OF THE SERVICE.** -/
theorem step_refines (h : Refines w m s)
    (hfit : Fits w m.clock e) (hmark : ∀ t d, e = .start t d → Marked m) :
    ∃ s', Service.Trace s (m.step w e).2 s' ∧ Refines w (m.step w e).1 s' := by
  obtain ⟨mgr, clock, callback⟩ := m
  cases callback with
  | none => exact Idle.step h hfit (fun t d he => hmark t d he rfl)
  | some msec => exact Ticking.step h hfit

/-- The clock after a step. -/
theorem clock_step (m : Machine τ) (e : Event τ) :
    (m.step w e).1.clock = match e with | .wait k => m.clock + k | _ => m.clock := by
  have hcont : ∀ clock (r : TimerManager τ × Option (τ × Nat)),
      (Machine.continue_ w clock r).1.clock = clock := by
    rintro clock ⟨mgr, _ | p⟩ <;> rfl
  obtain ⟨mgr, clock, callback⟩ := m
  cases e with
  | wait k => rfl
  | start t d => rfl
  | stop t => rfl
  | process => cases callback with
    | none => exact hcont clock _
    | some msec => rfl
  | resume => cases callback with
    | none => rfl
    | some msec => exact hcont clock _

/-- The clock does not go back. -/
theorem clock_le_step (M : Machine τ) (e : Event τ) : M.clock ≤ (M.step w e).1.clock := by
  rw [clock_step]
  cases e with
  | wait k => exact Nat.le_add_right _ _
  | _ => exact le_rfl

variable {M : Machine τ}

/-- What the timing source shows in one step. -/
theorem mem_step {o : Obs τ} (ho : o ∈ (M.step w e).2) :
    (∃ t k, o = .started t k M.clock ∧ e = .start t k) ∨ (∃ t, o = .stopped t ∧ e = .stop t)
      ∨ o = .begun M.clock ∨ (∃ t, o = .expired t) ∨ o = .finished := by
  have hcont : ∀ c (r : TimerManager τ × Option (τ × Nat)),
      o ∈ (Machine.continue_ w c r).2 → (∃ t, o = .expired t) ∨ o = .finished := by
    rintro c ⟨mgr, _ | ⟨t, k⟩⟩ ho
    · exact .inr (List.mem_singleton.mp ho)
    · exact .inl ⟨t, List.mem_singleton.mp ho⟩
  obtain ⟨mgr, c, callback⟩ := M
  cases e with
  | wait k => cases ho
  | start t k => exact .inl ⟨t, k, List.mem_singleton.mp ho, rfl⟩
  | stop t => exact .inr (.inl ⟨t, List.mem_singleton.mp ho, rfl⟩)
  | process =>
    cases callback with
    | some k => cases ho
    | none =>
      rcases List.mem_cons.mp ho with ho | ho
      · exact .inr (.inr (.inl ho))
      · exact .inr (.inr (.inr (hcont c _ ho)))
  | resume =>
    cases callback with
    | none => cases ho
    | some k => exact .inr (.inr (.inr (hcont c _ ho)))

/-- A step that neither starts nor stops a timer leaves it alone. -/
theorem step_alone {u : τ} (hstart : ∀ k, e ≠ .start u k) (hstop : e ≠ .stop u) :
    Service.LeavesAlone u (M.step w e).2 := by
  constructor
  · intro k x ho
    rcases mem_step ho with ⟨t, k', h, he⟩ | ⟨t, h, -⟩ | h | ⟨t, h⟩ | h
    · cases h
      exact hstart k he
    all_goals cases h
  · intro ho
    rcases mem_step ho with ⟨t, k', h, -⟩ | ⟨t, h, he⟩ | h | ⟨t, h⟩ | h
    · cases h
    · cases h
      exact hstop he
    all_goals cases h

/-- A call begins at the time of the clock. -/
theorem begun_step {now : Nat} (ho : .begun now ∈ (M.step w e).2) : now = M.clock := by
  rcases mem_step ho with ⟨t, k', h, -⟩ | ⟨t, h, -⟩ | h | ⟨t, h⟩ | h
  · cases h
  · cases h
  · cases h
    rfl
  all_goals cases h

variable {es : List (Event τ)}

/-- A range of times is one of the first step and one of the rest. -/
theorem InRange.cons (h : InRange w m.clock (e :: es)) :
    Fits w m.clock e ∧ InRange w (m.step w e).1.clock es := by
  rw [clock_step]
  cases e with
  | wait k => exact h
  | start t d => exact h
  | stop t | process | resume => exact ⟨trivial, h⟩

/-- The stamps agree after the first step, or no start has come yet. -/
theorem StartsAfterProcess.cons (h : Marked m ∨ StartsAfterProcess (e :: es)) :
    (∀ t d, e = .start t d → Marked m)
      ∧ (Marked (m.step w e).1 ∨ StartsAfterProcess es) := by
  rcases h with h | h
  · exact ⟨fun _ _ _ => h, .inl (step_marked h e)⟩
  · cases e with
    | start t d => exact absurd h id
    | process => exact ⟨fun _ _ he => (nomatch he), .inl (process_marked m)⟩
    | wait k | stop t | resume => exact ⟨fun _ _ he => (nomatch he), .inr h⟩

/-- **A RUN IS A TRACE OF THE SERVICE.** -/
theorem run_refines (h : Refines w m s)
    (hrange : InRange w m.clock es) (hmark : Marked m ∨ StartsAfterProcess es) :
    ∃ s', Service.Trace s (m.run w es).2 s' ∧ Refines w (m.run w es).1 s' := by
  induction es generalizing m s with
  | nil => exact ⟨s, Service.Trace.nil s, h⟩
  | cons e es ih =>
    obtain ⟨hfit, hrange'⟩ := hrange.cons
    obtain ⟨hstart, hmark'⟩ := StartsAfterProcess.cons hmark
    obtain ⟨s₁, htrace, href⟩ := step_refines h hfit hstart
    obtain ⟨s', htrace', href'⟩ := ih href hrange' hmark'
    exact ⟨s', htrace.append htrace', href'⟩

/-! ## §3. A call of `processTimers` ends. -/

/-- How often callbacks return. -/
def returns : List (Event τ) → Nat
  | [] => 0
  | .resume :: es => returns es + 1
  | _ :: es => returns es

theorem TimerManager.length_removeCounter_le (t : τ) (l : List (τ × Nat)) :
    (removeCounter w t l).length ≤ l.length := by
  induction l with
  | nil => exact Nat.le_refl 0
  | cons p rest ih =>
    unfold removeCounter
    split
    · cases rest with
      | nil => exact Nat.zero_le _
      | cons q rest => exact Nat.le_succ _
    · exact Nat.succ_le_succ ih

theorem TimerManager.length_detach_le (m : TimerManager τ) (t : τ) :
    (m.detach w t).counters.length ≤ m.counters.length := by
  unfold detach
  split
  · exact le_rfl
  · split
    · exact length_removeCounter_le t m.counters
    · exact le_rfl

/-- Inside a call a start does not lengthen the active list. -/
theorem TimerManager.length_start_le {m : TimerManager τ} (h : m.inTickCall = true)
    (now : Nat) (t : τ) (d : Nat) : (m.start w now t d).counters.length ≤ m.counters.length := by
  unfold start attach
  simp only [(m.detach_frame w t).2.2, h]
  exact m.length_detach_le t

/-- A callback of `tick` has taken its timer out of the active list. -/
theorem TimerManager.tick_shorter {m : TimerManager τ} {p : τ × Nat}
    (h : (m.tick w msec).2 = some p) :
    (m.tick w msec).1.counters.length < m.counters.length
      ∧ (m.tick w msec).1.inTickCall = m.inTickCall := by
  unfold tick at h ⊢
  split at h
  next => cases h
  next hzero =>
    rw [if_neg hzero]
    split at h
    next => cases h
    next t c rest hhead =>
      simp only [hhead]
      split at h
      next hle =>
        rw [if_pos hle]
        split at h
        next hdone =>
          rw [if_pos hdone]
          exact ⟨Nat.lt_succ_self _, rfl⟩
        next => cases h
      next hle =>
        rw [if_neg hle]
        exact ⟨Nat.lt_succ_self _, rfl⟩

theorem TimerManager.tickAfterExpired_shorter {m : TimerManager τ} {p : τ × Nat}
    (h : (m.tickAfterExpired w msec).2 = some p) :
    (m.tickAfterExpired w msec).1.counters.length < m.counters.length
      ∧ (m.tickAfterExpired w msec).1.inTickCall = m.inTickCall := by
  unfold tickAfterExpired at h ⊢
  split at h
  next t rest hhead =>
    rw [hhead]
    exact ⟨Nat.lt_succ_self _, rfl⟩
  next => exact tick_shorter h

/-- While a callback runs, the manager knows that it is in a call. -/
def InCall (m : Machine τ) : Prop := m.callback ≠ none → m.mgr.inTickCall = true

/-- **A step keeps that.** -/
theorem step_inCall (h : InCall m) (e : Event τ) : InCall (m.step w e).1 := by
  -- a callback keeps the flag of the manager it comes from
  have hcont : ∀ {clock} {r : TimerManager τ × Option (τ × Nat)},
      (∀ p, r.2 = some p → r.1.inTickCall = true) → InCall (Machine.continue_ w clock r).1 := by
    rintro clock ⟨mgr, _ | p⟩ hr hcall
    · exact absurd rfl hcall
    · exact hr p rfl
  cases e with
  | wait k => exact h
  | start t d => exact fun hcall => (m.mgr.start_frame m.clock t d).2.2.trans (h hcall)
  | stop t => exact fun hcall => (m.mgr.detach_frame w t).2.2.trans (h hcall)
  | process =>
    obtain ⟨mgr, clock, callback⟩ := m
    cases callback with
    | none => exact hcont (fun p hp => (tick_shorter hp).2)
    | some msec => exact h
  | resume =>
    obtain ⟨mgr, clock, callback⟩ := m
    cases callback with
    | none => exact h
    | some msec =>
      have htick := h (fun hcall => nomatch hcall)
      exact hcont (fun p hp => (tickAfterExpired_shorter hp).2.trans htick)

theorem run_inCall (h : InCall m) (es : List (Event τ)) : InCall (m.run w es).1 := by
  induction es generalizing m with
  | nil => exact h
  | cons e es ih => exact ih (step_inCall h e)

/-- **A callback that returns** ends the call or leaves a shorter active list; what
else the callback does leaves it no longer. -/
theorem step_in_callback (h : InCall m) (hcall : m.callback ≠ none) (e : Event τ) :
    .finished ∈ (m.step w e).2
      ∨ (m.step w e).1.callback ≠ none
        ∧ (m.step w e).1.mgr.counters.length + returns [e] ≤ m.mgr.counters.length := by
  have htick := h hcall
  cases e with
  | wait k => exact .inr ⟨hcall, le_rfl⟩
  | start t d => exact .inr ⟨hcall, length_start_le htick m.clock t d⟩
  | stop t => exact .inr ⟨hcall, m.mgr.length_detach_le t⟩
  | process =>
    obtain ⟨mgr, clock, callback⟩ := m
    cases callback with
    | none => exact absurd rfl hcall
    | some msec => exact .inr ⟨hcall, le_rfl⟩
  | resume =>
    obtain ⟨mgr, clock, callback⟩ := m
    cases callback with
    | none => exact absurd rfl hcall
    | some msec =>
      show .finished ∈ (Machine.continue_ w clock (mgr.tickAfterExpired w msec)).2 ∨
        (Machine.continue_ w clock (mgr.tickAfterExpired w msec)).1.callback ≠ none ∧
          (Machine.continue_ w clock (mgr.tickAfterExpired w msec)).1.mgr.counters.length + 1
            ≤ mgr.counters.length
      have hshort : ∀ p, (mgr.tickAfterExpired w msec).2 = some p → _ :=
        fun p => tickAfterExpired_shorter
      generalize mgr.tickAfterExpired w msec = r at hshort
      obtain ⟨mgr', _ | p⟩ := r
      · exact .inl List.mem_cons_self
      · exact .inr ⟨(fun hnone => nomatch hnone), (hshort p rfl).1⟩

/-- **A CALL OF `processTimers` ENDS**, when the callbacks return. -/
theorem run_finished (h : InCall m) (hcall : m.callback ≠ none)
    (hlen : m.mgr.counters.length < returns es) : .finished ∈ (m.run w es).2 := by
  induction es generalizing m with
  | nil => exact absurd hlen (Nat.not_lt_zero _)
  | cons e es ih =>
    have hcount : returns (e :: es) = returns [e] + returns es := by
      cases e <;> simp [returns, Nat.add_comm]
    rcases step_in_callback h hcall e with hfin | ⟨hcall', hlen'⟩
    · exact List.mem_append_left _ hfin
    · exact List.mem_append_right _ (ih (step_inCall h e) hcall' (by omega))

/-! ## §4. Timers fire when they are due. -/

/-- **TIMERS FIRE EXACTLY WHEN THEY ARE DUE**: in every run after a `startManager` at
elapsed time 0, or in which the first timer is started after the first
`processTimers`. -/
theorem timers_fire {now : Nat} (es : List (Event τ)) (hnow : now < 2 ^ w)
    (hrange : InRange w now es) (hstart : now = 0 ∨ StartsAfterProcess es) :
    Service.Fires ((Machine.init now).run w es).2
      ∧ ∀ es₁ es₂, es = es₁ ++ es₂ →
          ((Machine.init now).run w es₁).1.callback ≠ none →
          ((Machine.init now).run w es₁).1.mgr.counters.length < returns es₂ →
          .finished ∈ (((Machine.init now).run w es₁).1.run w es₂).2 := by
  constructor
  · have hmark : Marked (Machine.init now : Machine τ) ∨ StartsAfterProcess es := by
      rcases hstart with rfl | hstart
      · exact .inl (fun _ => rfl)
      · exact .inr hstart
    obtain ⟨s', htrace, -⟩ := run_refines (init_refines hnow) hrange hmark
    exact htrace.fires
  · intro es₁ es₂ _ hcall hlen
    have hinit : InCall (Machine.init now : Machine τ) := fun h => absurd rfl h
    exact run_finished (run_inCall hinit es₁) hcall hlen

/-- Two timers, one of them restarted in its own callback while the other is
stopped. -/
theorem timers_fire_restart :
    Service.Fires ((Machine.init 5).run 32
        [.process, .start true 10, .start false 10, .wait 12, .process, .start true 3, .stop false,
          .resume, .wait 2, .process, .wait 1, .process]).2
      ∧ ((Machine.init 5).run 32
        [.process, .start true 10, .start false 10, .wait 12, .process, .start true 3, .stop false,
          .resume, .wait 2, .process, .wait 1, .process]).2
        = [.begun 5, .finished, .started true 10 5, .started false 10 5, .begun 17, .expired true,
            .started true 3 17, .stopped false, .finished, .begun 19, .finished, .begun 20,
            .expired true] :=
  ⟨(timers_fire _ (by decide) (by simp [InRange]) (.inr (by simp [StartsAfterProcess]))).1, by decide⟩

/-- **The first timer is late.**  `startManager` at 5 sets the time mark, and leaves
the time from which `msecToCounts` counts at 0.  A timer started then for 10 is due at
15, and does not expire in the call made at 15. -/
theorem first_timer_late :
    ((Machine.init 5).run 32 [.start () 10, .wait 10, .process]).2
        = [.started () 10 5, .begun 15, .finished]
      ∧ ¬ Service.Fires ((Machine.init 5).run 32 [.start () 10, .wait 10, .process]).2 := by
  have hobs : ((Machine.init 5).run 32 [.start () 10, .wait 10, .process]).2
      = [.started () 10 5, .begun 15, .finished] := by decide
  refine ⟨hobs, ?_⟩
  intro h
  obtain ⟨pre, o, post, hcall, -⟩ := h.expires [] () 10 5 [] 15 [] [] rfl (by decide)
    ⟨by simp, by simp⟩ (by simp) (by decide) (by simp)
  simp at hcall

end ColonyCore.System
