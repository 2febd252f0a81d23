/-
  ColonyCore.System.TickSequence
  **WHEN SIMULATED TICKS ARE SEQUENCED.**

  A tick is over when every woken thread has signalled.  The count of `tickSource_` does not
  say WHO signalled: `advance` is right only if the signals it counts are those of the
  threads it woke.

    • `step_cases` — what one step does,
    • `Sound.step` — in every run, the waits of `advance` are covered by signals that are
      there or owed,
    • `Sequenced.step` — and are exactly those, in runs whose other signals come outside of
      the ticks.
-/
import ColonyCore.System.SimTick

namespace ColonyCore.System.SimTick

open Interleaving Function

variable {w : Nat} {τ : Type} [DecidableEq τ]

/-! ## §1. What a step does. -/

/-- **What a thread does in one step** with its `SimInfo`; the flags say whether it puts
    itself into `waiters_` and whether it signals the tick source. -/
inductive Move (milliseconds : BitVec w) (i : SimInfo w) : Bool → Bool → SimInfo w → Prop
  | starts (hpc : i.pc = .unborn) :
      Move milliseconds i false false { i with curTicks := milliseconds, pc := .running }
  | queues (hpc : i.pc = .running) :
      Move milliseconds i true false { i with pc := .queued, busy := false }
  | goesOn (hpc : i.pc = .running) :
      Move milliseconds i false false { i with curTicks := milliseconds }
  | tests (hpc : i.pc = .running) (exits : Bool) :
      Move milliseconds i false false { i with
        busy := false, pc := if i.ackPending then .ack exits else if exits then .dead else .running }
  | clears (hpc : i.pc = .queued) :
      Move milliseconds i false false { i with ackPending := false, pc := .queuedSignal }
  | signals (hpc : i.pc = .queuedSignal) :
      Move milliseconds i false true { i with owes := false, pc := .waiting }
  | wakes (hpc : i.pc = .waiting) (hwaiter : i.waiter ≠ 0) :
      Move milliseconds i false false { i with waiter := i.waiter - 1, pc := .running }
  | acks (exits : Bool) (hpc : i.pc = .ack exits) :
      Move milliseconds i false false { i with ackPending := false, pc := .ackSignal exits }
  | ackSignals (exits : Bool) (hpc : i.pc = .ackSignal exits) :
      Move milliseconds i false true { i with
        owes := false, pc := if exits then .dead else .running }

/-- The system after a move of thread `t`. -/
def moved (s : SimTick w τ) (t : τ) (queues signals : Bool) (i : SimInfo w) : SimTick w τ :=
  { s with
    info := update s.info t i
    waiters := if queues then s.waiters ++ [t] else s.waiters
    tickSource := s.tickSource + if signals then 1 else 0 }

/-- The tick source is outside of a tick, or still draining. -/
def Outside : SourcePc w → Prop
  | .idle => True
  | .drain _ => True
  | _ => False

theorem Outside.ne_waits {source : SourcePc w} (h : Outside source) {k : Nat} {n : BitVec w} :
    source ≠ .waits k n := by
  rintro rfl
  exact h

theorem Outside.ne_locks {source : SourcePc w} (h : Outside source) {n : BitVec w} :
    source ≠ .locks n := by
  rintro rfl
  exact h

/-- **What the tick source does in one step.** -/
inductive SourceMove (minTicks : BitVec w) (s : SimTick w τ) : SimTick w τ → Prop
  | calls (remaining : BitVec w) (source : SourcePc w) (hsource : s.source = .idle)
      (hout : Outside source) :
      SourceMove minTicks s { s with remainingTicks := remaining, source := source }
  | drains (numTicks : BitVec w) (hsource : s.source = .drain numTicks)
      (hcount : s.tickSource ≠ 0) :
      SourceMove minTicks s { s with tickSource := s.tickSource - 1 }
  | drained (numTicks : BitVec w) (hsource : s.source = .drain numTicks)
      (hcount : s.tickSource = 0) :
      SourceMove minTicks s { s with source := .locks numTicks }
  | ticks (numTicks remaining : BitVec w) (source : SourcePc w)
      (hsource : s.source = .locks numTicks)
      (hnext : s.waiters = [] ∧ Outside source
        ∨ ∃ k, s.waiters.length = k + 1 ∧ source = .waits k numTicks) :
      SourceMove minTicks s { s with
        milliseconds := s.milliseconds + minTicks
        waiters := []
        info := (wakeUpWaiters s.waiters s.info).2
        remainingTicks := remaining
        source := source }
  | waited (k : Nat) (numTicks remaining : BitVec w) (source : SourcePc w)
      (hsource : s.source = .waits k numTicks) (hcount : s.tickSource ≠ 0)
      (hnext : k = 0 ∧ Outside source ∨ ∃ l, k = l + 1 ∧ source = .waits l numTicks) :
      SourceMove minTicks s { s with
        tickSource := s.tickSource - 1
        remainingTicks := remaining
        source := source }

theorem wakeUpWaiters_fst (l : List τ) (info : τ → SimInfo w) :
    (wakeUpWaiters l info).1 = l.length := by
  induction l generalizing info with
  | nil => rfl
  | cons t ts ih =>
    show (wakeUpWaiters ts _).1 + 1 = _
    rw [ih, List.length_cons]

/-- **`wakeUpWaiters`** wakes exactly the threads of the list. -/
theorem wakeUpWaiters_snd {l : List τ} (hnodup : l.Nodup) (info : τ → SimInfo w) (u : τ) :
    (wakeUpWaiters l info).2 u = if u ∈ l then wake (info u) else info u := by
  induction l generalizing info with
  | nil => rfl
  | cons t ts ih =>
    obtain ⟨hnotin, hrest⟩ := List.nodup_cons.mp hnodup
    show (wakeUpWaiters ts (update info t (wake (info t)))).2 u = _
    rw [ih hrest]
    by_cases hu : u = t
    · subst hu
      rw [if_neg hnotin, if_pos List.mem_cons_self, update_self]
    · rw [update_of_ne hu]
      simp [hu]

omit [DecidableEq τ] in
/-- The test of the loop of `advance`. -/
theorem nextTick_eq (minTicks : BitVec w) (s : SimTick w τ) (numTicks : BitVec w) :
    ∃ remaining source, Outside source
      ∧ s.nextTick minTicks numTicks
        = { s with remainingTicks := remaining, source := source } := by
  unfold nextTick
  split
  · exact ⟨s.remainingTicks, .drain (numTicks - minTicks), trivial, rfl⟩
  · exact ⟨numTicks, .idle, trivial, rfl⟩

variable {minTicks : BitVec w} {s s' : SimTick w τ}

theorem sourceStep_cases (h : s.sourceStep minTicks = some s') : SourceMove minTicks s s' := by
  unfold sourceStep at h
  split at h
  next => cases h
  next numTicks hsource =>
    simp only [Option.some.injEq] at h
    subst h
    split
    next hcount => exact .drained numTicks hsource hcount
    next hcount => exact .drains numTicks hsource hcount
  next numTicks hsource =>
    simp only [wakeUpWaiters_fst, Option.some.injEq] at h
    subst h
    cases hlen : s.waiters.length with
    | zero =>
      obtain ⟨remaining, source, hout, heq⟩ := nextTick_eq minTicks
        { s with
          milliseconds := s.milliseconds + minTicks, waiters := []
          info := (wakeUpWaiters s.waiters s.info).2 } numTicks
      rw [heq]
      exact .ticks numTicks remaining source hsource
        (.inl ⟨List.eq_nil_of_length_eq_zero hlen, hout⟩)
    | succ k => exact .ticks numTicks _ _ hsource (.inr ⟨k, hlen, rfl⟩)
  next k numTicks hsource =>
    split at h
    next => cases h
    next hcount =>
      cases h
      cases k with
      | zero =>
        obtain ⟨remaining, source, hout, heq⟩ := nextTick_eq minTicks
          { s with tickSource := s.tickSource - 1 } numTicks
        simp only
        rw [heq]
        exact .waited 0 numTicks remaining source hsource hcount (.inl ⟨rfl, hout⟩)
      | succ l => exact .waited (l + 1) numTicks _ _ hsource hcount (.inr ⟨l, rfl, rfl⟩)

variable {a : Act w τ}

/-- **What one step does**: the tick source moves, or a thread does; only a step inside of a
    call signals. -/
theorem step_cases (h : s.step minTicks a = some s') :
    SourceMove minTicks s s' ∧ (a = .source ∨ s.source = .idle) ∨ ∃ t queues signals i,
      Move s.milliseconds (s.info t) queues signals i ∧ (signals = true → a = .next t)
        ∧ s' = s.moved t queues signals i := by
  cases a with
  | advance numTicks =>
    simp only [step] at h
    split at h
    next hsource =>
      cases h
      obtain ⟨remaining, source, hout, heq⟩ :=
        nextTick_eq minTicks s (numTicks + s.remainingTicks)
      rw [heq]
      exact .inl ⟨.calls remaining source hsource hout, .inr hsource⟩
    next => cases h
  | source => exact .inl ⟨sourceStep_cases h, .inl rfl⟩
  | threadInit t =>
    simp only [step] at h
    split at h
    next hpc =>
      cases h
      exact .inr ⟨t, false, false, _, .starts hpc, (fun hc => by cases hc), rfl⟩
    next => cases h
  | topLevelWait t =>
    simp only [step] at h
    split at h
    next hpc =>
      cases h
      unfold testAndQueue
      split
      · exact .inr ⟨t, true, false, _, .queues hpc, (fun hc => by cases hc), rfl⟩
      · exact .inr ⟨t, false, false, _, .goesOn hpc, (fun hc => by cases hc), rfl⟩
    next => cases h
  | applicationWait t =>
    simp only [step] at h
    split at h
    next hpc =>
      cases h
      exact .inr ⟨t, false, false, _, .tests hpc false, (fun hc => by cases hc), rfl⟩
    next => cases h
  | onThreadExit t =>
    simp only [step] at h
    split at h
    next hpc =>
      cases h
      exact .inr ⟨t, false, false, _, .tests hpc true, (fun hc => by cases hc), rfl⟩
    next => cases h
  | next t =>
    simp only [step, threadStep] at h
    split at h
    next hpc =>
      cases h
      exact .inr ⟨t, false, false, _, .clears hpc, (fun _ => rfl), rfl⟩
    next hpc =>
      cases h
      exact .inr ⟨t, false, true, _, .signals hpc, (fun _ => rfl), rfl⟩
    next hpc =>
      split at h
      next => cases h
      next hwaiter =>
        cases h
        exact .inr ⟨t, false, false, _, .wakes hpc hwaiter, (fun _ => rfl), rfl⟩
    next exits hpc =>
      cases h
      exact .inr ⟨t, false, false, _, .acks exits hpc, (fun _ => rfl), rfl⟩
    next exits hpc =>
      cases h
      exact .inr ⟨t, false, true, _, .ackSignals exits hpc, (fun _ => rfl), rfl⟩
    next => cases h

/-! ## §2. What every run keeps. -/

/-- The thread is in `topLevelWait` after it has queued itself. -/
def inTopLevelWait : TickPc → Bool
  | .queued => true
  | .queuedSignal => true
  | .waiting => true
  | _ => false

/-- The thread goes on to signal the tick source, without any wait. -/
def sends : TickPc → Bool
  | .queued => true
  | .queuedSignal => true
  | .ack _ => true
  | .ackSignal _ => true
  | _ => false

/-- What every run keeps of one thread. -/
structure Local (i : SimInfo w) : Prop where
  atMostOne : i.waiter ≤ 1
  notIn : inTopLevelWait i.pc = false → i.waiter = 0
  /-- a thread that owes a signal is about to send it, or will do so at its next point -/
  due : i.owes = true → sends i.pc = true
    ∨ i.busy = true ∧ i.ackPending = true ∧ (i.pc = .waiting ∨ i.pc = .running)

variable {ms : BitVec w} {i : SimInfo w} {queues signals : Bool}

theorem Local.move {i' : SimInfo w} (h : Local i)
    (hmove : Move ms i queues signals i') : Local i' := by
  cases hmove with
  | starts hpc =>
    have hzero := h.notIn (by rw [hpc]; rfl)
    refine ⟨h.atMostOne, fun _ => hzero, fun howes => ?_⟩
    rcases h.due howes with hsends | ⟨_, _, hat⟩
    · rw [hpc] at hsends
      cases hsends
    · rw [hpc] at hat
      rcases hat with hat | hat <;> cases hat
  | queues hpc | clears hpc => exact ⟨h.atMostOne, (fun hnot => by cases hnot), fun _ => .inl rfl⟩
  | goesOn hpc => exact ⟨h.atMostOne, h.notIn, h.due⟩
  | tests hpc exits =>
    have hzero := h.notIn (by rw [hpc]; rfl)
    refine ⟨h.atMostOne, fun _ => hzero, fun howes => ?_⟩
    rcases h.due howes with hsends | ⟨_, hack, _⟩
    · rw [hpc] at hsends
      cases hsends
    · simp only [hack]
      exact .inl rfl
  | signals hpc => exact ⟨h.atMostOne, (fun hnot => by cases hnot), fun howes => by cases howes⟩
  | wakes hpc hwaiter =>
    have hone := h.atMostOne
    refine ⟨by simp only; omega, fun _ => by simp only; omega, fun howes => ?_⟩
    rcases h.due howes with hsends | ⟨hbusy, hack, _⟩
    · rw [hpc] at hsends
      cases hsends
    · exact .inr ⟨hbusy, hack, .inr rfl⟩
  | acks exits hpc =>
    have hzero := h.notIn (by rw [hpc]; rfl)
    exact ⟨h.atMostOne, fun _ => hzero, fun _ => .inl rfl⟩
  | ackSignals exits hpc =>
    have hzero := h.notIn (by rw [hpc]; rfl)
    exact ⟨h.atMostOne, fun _ => hzero, fun howes => by cases howes⟩

/-- A waiter is woken. -/
theorem Local.wake (hin : inTopLevelWait i.pc = true) (hzero : i.waiter = 0) : Local (wake i) := by
  refine ⟨by simp [SimTick.wake, hzero], fun hnot => ?_, fun _ => ?_⟩
  · have hin' : inTopLevelWait i.pc = false := hnot
    rw [hin] at hin'
    cases hin'
  · show sends i.pc = true ∨ true = true ∧ true = true ∧ (i.pc = .waiting ∨ i.pc = .running)
    cases hpc : i.pc with
    | queued => exact .inl rfl
    | queuedSignal => exact .inl rfl
    | waiting => exact .inr ⟨rfl, rfl, .inl rfl⟩
    | _ =>
      rw [hpc] at hin
      cases hin

variable [Fintype τ]

/-- The threads that owe a signal. -/
def owing (s : SimTick w τ) : Nat := threads SimInfo.owes s.info

/-- **What every run keeps.** -/
structure Sound (s : SimTick w τ) : Prop where
  nodup : s.waiters.Nodup
  inQueue : ∀ t ∈ s.waiters, inTopLevelWait (s.info t).pc = true ∧ (s.info t).waiter = 0
  threads : ∀ t, Local (s.info t)
  /-- `advance` waits for signals that are there or owed -/
  covered : ∀ k n, s.source = .waits k n → k + 1 ≤ s.tickSource + s.owing

omit [DecidableEq τ] in
theorem Sound.boot : Sound (boot : SimTick w τ) where
  nodup := List.nodup_nil
  inQueue t ht := by cases ht
  threads t := ⟨Nat.zero_le _, fun _ => rfl, fun h => by cases h⟩
  covered k n h := by cases h

variable {t : τ}

omit [Fintype τ] in
/-- A fact about all threads, when one of them has moved. -/
theorem forall_moved {P : SimInfo w → Prop} (h : ∀ u, P (s.info u)) (hi : P i) (u : τ) :
    P ((s.moved t queues signals i).info u) := by
  show P (update s.info t i u)
  by_cases hu : u = t
  · subst hu
    rw [update_self]
    exact hi
  · rw [update_of_ne hu]
    exact h u

/-- **The signals that are there or owed**, when a thread moves: a debt becomes a signal. -/
theorem owing_moved (hmove : Move s.milliseconds (s.info t) queues signals i) :
    (s.moved t queues signals i).owing + (if signals ∧ (s.info t).owes then 1 else 0)
      = s.owing := by
  have hupdate := threads_update (P := SimInfo.owes) (f := s.info) (t := t) i
  show Interleaving.threads SimInfo.owes (update s.info t i) + _ = s.owing
  unfold owing
  cases hmove <;> simp_all

/-- A queued thread that has not been woken stays in `topLevelWait`. -/
theorem stays_queued {i' : SimInfo w} (h : inTopLevelWait i.pc = true ∧ i.waiter = 0)
    (hmove : Move ms i false signals i') : inTopLevelWait i'.pc = true ∧ i'.waiter = 0 := by
  obtain ⟨hin, hzero⟩ := h
  cases hmove with
  | clears hpc | signals hpc => exact ⟨rfl, hzero⟩
  | wakes hpc hwaiter => exact absurd hzero hwaiter
  | starts hpc | goesOn hpc | tests hpc | acks _ hpc | ackSignals _ hpc =>
    rw [hpc] at hin
    cases hin

theorem Sound.moved (hs : Sound s) (hmove : Move s.milliseconds (s.info t) queues signals i) :
    Sound (s.moved t queues signals i) := by
  have hlocal := (hs.threads t).move hmove
  constructor
  case nodup =>
    cases hmove with
    | queues hpc =>
      show (s.waiters ++ [t]).Nodup
      refine List.nodup_append'.mpr ⟨hs.nodup, List.nodup_singleton t, ?_⟩
      rw [List.disjoint_singleton]
      intro hmem
      have hin := (hs.inQueue t hmem).1
      rw [hpc] at hin
      cases hin
    | _ => exact hs.nodup
  case inQueue =>
    intro u hu
    by_cases hut : u = t
    · subst hut
      show inTopLevelWait (update s.info u i u).pc = true
        ∧ (update s.info u i u).waiter = 0
      rw [update_self]
      cases queues with
      | true =>
        cases hmove with
        | queues hpc => exact ⟨rfl, (hs.threads u).notIn (by rw [hpc]; rfl)⟩
      | false => exact stays_queued (hs.inQueue u hu) hmove
    · show inTopLevelWait (update s.info t i u).pc = true
        ∧ (update s.info t i u).waiter = 0
      rw [update_of_ne hut]
      refine hs.inQueue u ?_
      cases queues with
      | true => simpa [SimTick.moved, hut] using hu
      | false => exact hu
  case threads => exact forall_moved hs.threads hlocal
  case covered =>
    intro k n hsource
    have hcovered := hs.covered k n hsource
    have howing := owing_moved hmove
    show k + 1 ≤ s.tickSource + (if signals then 1 else 0) + _
    split at howing <;> cases signals <;> simp_all <;> omega

/-- The wake-up section. -/
theorem Sound.woken (hs : Sound s) (u : τ) :
    (wakeUpWaiters s.waiters s.info).2 u
      = if u ∈ s.waiters then SimTick.wake (s.info u) else s.info u :=
  wakeUpWaiters_snd hs.nodup s.info u

theorem Sound.source (hs : Sound s) (hmove : SourceMove minTicks s s') : Sound s' := by
  cases hmove with
  | calls remaining source hsource hout =>
    exact ⟨hs.nodup, hs.inQueue, hs.threads, fun k n hk => absurd hk hout.ne_waits⟩
  | drains numTicks hsource hcount =>
    refine ⟨hs.nodup, hs.inQueue, hs.threads, fun k n hk => ?_⟩
    rw [hsource] at hk
    cases hk
  | drained numTicks hsource hcount =>
    exact ⟨hs.nodup, hs.inQueue, hs.threads, fun k n hk => by cases hk⟩
  | ticks numTicks remaining source hsource hnext =>
    refine ⟨List.nodup_nil, (fun t ht => by cases ht), fun t => ?_, fun k n hk => ?_⟩
    · simp only [hs.woken t]
      split
      next hmem => exact .wake (hs.inQueue t hmem).1 (hs.inQueue t hmem).2
      next => exact hs.threads t
    · simp only at hk
      rcases hnext with ⟨_, hout⟩ | ⟨l, hlen, hwaits⟩
      · exact absurd hk hout.ne_waits
      · -- all waiters owe a signal now
        rw [hk] at hwaits
        cases hwaits
        have hall := length_le_threads (P := SimInfo.owes)
          (f := (wakeUpWaiters s.waiters s.info).2) hs.nodup fun t ht => by
            rw [hs.woken t, if_pos ht]
            rfl
        show k + 1 ≤ s.tickSource
          + Interleaving.threads SimInfo.owes (wakeUpWaiters s.waiters s.info).2
        omega
  | waited k numTicks remaining source hsource hcount hnext =>
    refine ⟨hs.nodup, hs.inQueue, hs.threads, fun l n hl => ?_⟩
    simp only at hl
    rcases hnext with ⟨_, hout⟩ | ⟨j, rfl, hwaits⟩
    · exact absurd hl hout.ne_waits
    · rw [hl] at hwaits
      cases hwaits
      have hcovered := hs.covered _ _ hsource
      show l + 1 ≤ s.tickSource - 1 + s.owing
      omega

theorem Sound.step (hs : Sound s) (h : s.step minTicks a = some s') : Sound s' := by
  rcases step_cases h with ⟨hsource, _⟩ | ⟨t, queues, signals, i, hmove, _, rfl⟩
  · exact hs.source hsource
  · exact hs.moved hmove

/-! ## §3. Runs whose signals come from the right threads. -/

/-- Two conditions.  A thread in `topLevelWait` signals only if it was woken since its last
    signal, or while `advance` is not between its last `tryWait` and its last `wait`.  The
    section that moves the time on is entered only while no thread is between queueing
    itself and its signal. -/
def Meets (s : SimTick w τ) : Act w τ → Prop
  | .next t => (s.info t).pc = .queuedSignal → (s.info t).owes = true ∨ Outside s.source
  | .source => ∀ numTicks, s.source = .locks numTicks →
      ∀ t, (s.info t).pc ≠ .queued ∧ (s.info t).pc ≠ .queuedSignal
  | _ => True

/-- Before `tickSource_.signal()`. -/
def atSignal : TickPc → Bool
  | .queuedSignal => true
  | .ackSignal _ => true
  | _ => false

/-- What such runs keep of one thread: it is busy only while it owes a signal. -/
structure Honest (i : SimInfo w) : Prop where
  busy : i.busy = true → i.owes = true ∧ (i.pc = .waiting ∨ i.pc = .running)
  ack : i.ackPending = true → i.owes = true
  clear : atSignal i.pc = true → i.ackPending = false
  acking : ∀ exits, i.pc = .ack exits ∨ i.pc = .ackSignal exits → i.owes = true

/-- A thread that is neither waiting nor in the application is not busy. -/
theorem Honest.not_busy (h : Honest i) (hwaiting : i.pc ≠ .waiting)
    (hrunning : i.pc ≠ .running) : i.busy = false := by
  cases hbusy : i.busy with
  | false => rfl
  | true =>
    rcases (h.busy hbusy).2 with hat | hat
    · exact absurd hat hwaiting
    · exact absurd hat hrunning

theorem Honest.move {i' : SimInfo w} (h : Honest i)
    (hmove : Move ms i queues signals i') : Honest i' := by
  cases hmove with
  | starts hpc =>
    refine ⟨fun hbusy => ?_, h.ack, (fun hc => by cases hc), fun _ hc => by simp at hc⟩
    exact ⟨(h.busy hbusy).1, .inr rfl⟩
  | queues hpc =>
    exact ⟨(fun hc => by cases hc), h.ack, (fun hc => by cases hc), fun _ hc => by simp at hc⟩
  | goesOn hpc => exact ⟨h.busy, h.ack, h.clear, h.acking⟩
  | tests hpc exits =>
    -- only a pending acknowledgement leads to `ack`
    refine ⟨(fun hc => by cases hc), h.ack, fun hc => ?_, fun exits' hc => ?_⟩
    · split at hc
      · cases hc
      · split at hc <;> cases hc
    · split at hc
      next hack => exact h.ack hack
      next => split at hc <;> simp at hc
  | clears hpc =>
    have hbusy := h.not_busy (by simp [hpc]) (by simp [hpc])
    exact ⟨fun hc => absurd (hbusy.symm.trans hc) (by decide), (fun hc => by cases hc),
      fun _ => rfl, fun _ hc => by simp at hc⟩
  | signals hpc =>
    have hbusy := h.not_busy (by simp [hpc]) (by simp [hpc])
    have hack := h.clear (by rw [hpc]; rfl)
    exact ⟨fun hc => absurd (hbusy.symm.trans hc) (by decide),
      fun hc => absurd (hack.symm.trans hc) (by decide), (fun hc => by cases hc),
      fun _ hc => by simp at hc⟩
  | wakes hpc hwaiter =>
    exact ⟨fun hbusy => ⟨(h.busy hbusy).1, .inr rfl⟩, h.ack, (fun hc => by cases hc),
      fun _ hc => by simp at hc⟩
  | acks exits hpc =>
    have hbusy := h.not_busy (by simp [hpc]) (by simp [hpc])
    exact ⟨fun hc => absurd (hbusy.symm.trans hc) (by decide), (fun hc => by cases hc),
      fun _ => rfl, fun _ _ => h.acking exits (.inl hpc)⟩
  | ackSignals exits hpc =>
    have hbusy := h.not_busy (by simp [hpc]) (by simp [hpc])
    have hack := h.clear (by rw [hpc]; rfl)
    refine ⟨fun hc => absurd (hbusy.symm.trans hc) (by decide),
      fun hc => absurd (hack.symm.trans hc) (by decide), fun hc => ?_, fun _ hc => ?_⟩
    · cases exits <;> cases hc
    · cases exits <;> simp at hc

/-- A thread is woken in its wait. -/
theorem Honest.wake (hpc : i.pc = .waiting) : Honest (wake i) where
  busy _ := ⟨rfl, .inl hpc⟩
  ack _ := rfl
  clear h := by
    have hat : atSignal i.pc = true := h
    rw [hpc] at hat
    cases hat
  acking _ _ := rfl

/-- **What such runs keep**: the signals that `advance` waits for are exactly those that are
    there or owed, and none is owed outside of its waits. -/
structure Sequenced (s : SimTick w τ) : Prop where
  sound : Sound s
  threads : ∀ t, Honest (s.info t)
  exact : ∀ k n, s.source = .waits k n → k + 1 = s.tickSource + s.owing
  paid : (∀ k n, s.source ≠ .waits k n) → s.owing = 0
  drained : ∀ n, s.source = .locks n → s.tickSource = 0

omit [DecidableEq τ] in
theorem Sequenced.boot : Sequenced (boot : SimTick w τ) where
  sound := .boot
  threads t := ⟨(fun h => by cases h), (fun h => by cases h), (fun h => by cases h),
    fun _ h => by rcases h with h | h <;> cases h⟩
  exact k n h := by cases h
  paid _ := by simp [owing, Interleaving.threads, SimTick.boot]
  drained n h := by cases h

variable (hs : Sequenced s)

include hs

/-- No thread owes anything: no thread is busy. -/
theorem Sequenced.idle (hpaid : s.owing = 0) (t : τ) :
    (s.info t).owes = false ∧ (s.info t).busy = false := by
  have howes : (s.info t).owes = false := by
    cases h : (s.info t).owes with
    | false => rfl
    | true =>
      have hpos := threads_pos (P := SimInfo.owes) h
      unfold owing at hpaid
      omega
  refine ⟨howes, ?_⟩
  cases h : (s.info t).busy with
  | false => rfl
  | true => exact absurd (howes.symm.trans ((hs.threads t).busy h).1) (by decide)

/-- A thread moves; if it signals inside of a tick, it owes the signal. -/
theorem Sequenced.moved (hmove : Move s.milliseconds (s.info t) queues signals i)
    (hsignal : signals = true → (s.info t).owes = true ∨ Outside s.source) :
    Sequenced (s.moved t queues signals i) := by
  have howing := owing_moved hmove
  constructor
  case sound => exact hs.sound.moved hmove
  case threads => exact forall_moved hs.threads ((hs.threads t).move hmove)
  case exact =>
    intro k n hsource
    have hexact := hs.exact k n hsource
    show k + 1 = s.tickSource + (if signals then 1 else 0) + _
    cases signals with
    | false =>
      simp only [Bool.false_eq_true, false_and, if_false] at howing ⊢
      omega
    | true =>
      have howes : (s.info t).owes = true := by
        refine (hsignal rfl).resolve_right fun hout => ?_
        have hwaits : s.source = .waits k n := hsource
        rw [hwaits] at hout
        exact hout
      simp only [howes, and_self, if_true] at howing ⊢
      omega
  case paid =>
    intro hnot
    have hpaid := hs.paid hnot
    omega
  case drained =>
    intro n hsource
    have hlocks : s.source = .locks n := hsource
    have hpaid := hs.paid fun k m hwaits => by
      rw [hlocks] at hwaits
      cases hwaits
    show s.tickSource + (if signals then 1 else 0) = 0
    cases signals with
    | false => simpa using hs.drained n hlocks
    | true =>
      rcases hsignal rfl with howes | hout
      · exact absurd ((hs.idle hpaid t).1.symm.trans howes) (by decide)
      · rw [hlocks] at hout
        exact hout.elim

/-- The threads that the section wakes are the ones that owe a signal after it. -/
theorem Sequenced.owing_woken (hpaid : s.owing = 0) :
    Interleaving.threads SimInfo.owes (wakeUpWaiters s.waiters s.info).2 = s.waiters.length := by
  apply Nat.le_antisymm
  · refine threads_le_length fun t howes => ?_
    rw [hs.sound.woken t] at howes
    by_cases hmem : t ∈ s.waiters
    · exact hmem
    · rw [if_neg hmem, (hs.idle hpaid t).1] at howes
      cases howes
  · refine length_le_threads hs.sound.nodup fun t ht => ?_
    rw [hs.sound.woken t, if_pos ht]
    rfl

theorem Sequenced.source (hmove : SourceMove minTicks s s')
    (hmeets : ∀ numTicks, s.source = .locks numTicks →
      ∀ t, (s.info t).pc ≠ .queued ∧ (s.info t).pc ≠ .queuedSignal) :
    Sequenced s' := by
  have hsound := hs.sound.source hmove
  cases hmove with
  | calls remaining source hsource hout =>
    have hpaid := hs.paid fun k n hwaits => by rw [hsource] at hwaits; cases hwaits
    exact ⟨hsound, hs.threads, fun k n hk => absurd hk hout.ne_waits, fun _ => hpaid,
      fun n hn => absurd hn hout.ne_locks⟩
  | drains numTicks hsource hcount =>
    refine ⟨hsound, hs.threads, fun k n hk => ?_, hs.paid, fun n hn => ?_⟩
    · rw [hsource] at hk
      cases hk
    · rw [hsource] at hn
      cases hn
  | drained numTicks hsource hcount =>
    have hpaid := hs.paid fun k n hwaits => by rw [hsource] at hwaits; cases hwaits
    exact ⟨hsound, hs.threads, (fun k n hk => by cases hk), fun _ => hpaid, fun _ _ => hcount⟩
  | ticks numTicks remaining source hsource hnext =>
    have hpaid := hs.paid fun k n hwaits => by rw [hsource] at hwaits; cases hwaits
    have hwoken := hs.owing_woken hpaid
    refine ⟨hsound, fun t => ?_, fun k n hk => ?_, fun hnot => ?_, fun n hn => ?_⟩
    · -- a waiter that is past its signal is in its wait
      simp only [hs.sound.woken t]
      split
      next hmem =>
        have hin := (hs.sound.inQueue t hmem).1
        obtain ⟨hqueued, hsignal⟩ := hmeets numTicks hsource t
        refine .wake ?_
        cases hpc : (s.info t).pc <;> simp_all [inTopLevelWait]
      next => exact hs.threads t
    · simp only at hk
      rcases hnext with ⟨_, hout⟩ | ⟨l, hlen, hwaits⟩
      · exact absurd hk hout.ne_waits
      · rw [hk] at hwaits
        cases hwaits
        show k + 1 = s.tickSource + Interleaving.threads SimInfo.owes
          (wakeUpWaiters s.waiters s.info).2
        rw [hwoken, hs.drained numTicks hsource]
        omega
    · rcases hnext with ⟨hnil, _⟩ | ⟨l, _, hwaits⟩
      · show Interleaving.threads SimInfo.owes (wakeUpWaiters s.waiters s.info).2 = 0
        rw [hwoken, hnil, List.length_nil]
      · exact absurd hwaits (hnot l numTicks)
    · simp only at hn
      rcases hnext with ⟨_, hout⟩ | ⟨l, _, hwaits⟩
      · exact absurd hn hout.ne_locks
      · rw [hn] at hwaits
        cases hwaits
  | waited k numTicks remaining source hsource hcount hnext =>
    have hexact := hs.exact k numTicks hsource
    refine ⟨hsound, hs.threads, fun l n hl => ?_, fun hnot => ?_, fun n hn => ?_⟩
    · simp only at hl
      rcases hnext with ⟨_, hout⟩ | ⟨j, rfl, hwaits⟩
      · exact absurd hl hout.ne_waits
      · rw [hl] at hwaits
        cases hwaits
        show l + 1 = s.tickSource - 1 + s.owing
        omega
    · -- the last wait took the last signal, so nothing is owed any more
      rcases hnext with ⟨rfl, _⟩ | ⟨j, _, hwaits⟩
      · show s.owing = 0
        omega
      · exact absurd hwaits (hnot j numTicks)
    · simp only at hn
      rcases hnext with ⟨_, hout⟩ | ⟨j, _, hwaits⟩
      · exact absurd hn hout.ne_locks
      · rw [hn] at hwaits
        cases hwaits

theorem Sequenced.step (hmeets : s.Meets a) (h : s.step minTicks a = some s') :
    Sequenced s' := by
  rcases step_cases h with ⟨hsource, ha⟩ | ⟨t, queues, signals, i, hmove, hnext, rfl⟩
  · refine hs.source hsource fun numTicks hlocks => ?_
    rcases ha with rfl | hidle
    · exact hmeets numTicks hlocks
    · rw [hidle] at hlocks
      cases hlocks
  · refine hs.moved hmove fun hsignals => ?_
    obtain rfl := hnext hsignals
    cases hmove with
    | signals hpc => exact hmeets hpc
    | ackSignals exits hpc => exact .inl ((hs.threads t).acking exits (.inr hpc))
    | _ => cases hsignals

end ColonyCore.System.SimTick
