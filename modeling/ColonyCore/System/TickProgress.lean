/-
  ColonyCore.System.TickProgress
  **SIMULATED TICKS END, AND DO NOT OVERTAKE THEIR THREADS.**

  While `advance` waits, every debt that is paid and every wait that returns lowers one
  number, and no step raises it.

    • `debt_step` — a debt lasts until it is paid,
    • `FairRun.advance_returns` — no endless wait,
    • `ticks_sequenced` — no tick while a woken thread is busy, and no endless wait,
    • `tick_over_busy` — runs where a signal of one thread counts for another, or too early.
-/
import Mathlib.Tactic.IntervalCases
import ColonyCore.System.TickSequence

namespace ColonyCore.System.SimTick

open Interleaving

variable {w : Nat} {τ : Type} [DecidableEq τ] {minTicks : BitVec w}

/-! ## §1. Fair runs. -/

/-- The tick source is at a `tickSource_.wait()`. -/
def inWaits : SourcePc w → Bool
  | .waits _ _ => true
  | _ => false

/-- **A fair run** of the system, without end: no one is left standing before a step that it
    can take inside of a call, and every woken thread comes to one of its points. -/
structure FairRun (minTicks : BitVec w) (σ : Nat → SimTick w τ) (act : Nat → Option (Act w τ)) :
    Prop where
  start : σ 0 = boot
  trace : IsTrace (step minTicks) σ act
  threads : ∀ n t, sends ((σ n).info t).pc = true → ∃ m, n ≤ m ∧ act m = some (.next t)
  source : ∀ n, inWaits (σ n).source = true → (σ n).tickSource ≠ 0 →
    ∃ m, n ≤ m ∧ act m = some .source
  points : ∀ n t, ((σ n).info t).busy = true → ∃ m, n ≤ m ∧ ((σ m).info t).busy = false

/-! ## §2. What a wait is for. -/

variable [Fintype τ]

/-- The waits before the tick source. -/
def waitsLeft : SourcePc w → Nat
  | .waits k _ => k + 1
  | _ => 0

/-- The waits and the debts. -/
def rank (s : SimTick w τ) : Nat := waitsLeft s.source + s.owing

/-- The waits are over, or less is left of them. -/
def Settles (r : Nat) (s : SimTick w τ) : Prop := inWaits s.source = false ∨ s.rank < r

variable {s s' : SimTick w τ}

/-- A wait returns. -/
theorem wait_returns (hwaits : inWaits s.source = true)
    (hmove : SourceMove minTicks s s') : Settles s.rank s' := by
  cases hmove with
  | waited k numTicks remaining source hsource hcount hnext =>
    rcases hnext with ⟨_, hout⟩ | ⟨l, rfl, rfl⟩
    · left
      cases source with
      | waits k n => exact hout.elim
      | _ => rfl
    · right
      show l + 1 + s.owing < waitsLeft s.source + s.owing
      rw [hsource]
      show l + 1 + s.owing < l + 1 + 1 + s.owing
      omega
  | calls _ _ hsource | drains _ hsource | drained _ hsource | ticks _ _ _ hsource =>
    rw [hsource] at hwaits
    cases hwaits

/-- A step while `advance` waits: a wait returns, or a thread moves. -/
theorem wait_step {a : Act w τ} (hwaits : inWaits s.source = true)
    (h : s.step minTicks a = some s') :
    Settles s.rank s' ∨ ∃ t queues signals i,
      Move s.milliseconds (s.info t) queues signals i ∧ s' = s.moved t queues signals i := by
  rcases step_cases h with ⟨hsource, _⟩ | ⟨t, queues, signals, i, hmove, _, rfl⟩
  · exact .inl (wait_returns hwaits hsource)
  · exact .inr ⟨t, queues, signals, i, hmove, rfl⟩

/-- The rank when a thread moves. -/
theorem rank_moved {t : τ} {queues signals : Bool} {i : SimInfo w}
    (hmove : Move s.milliseconds (s.info t) queues signals i) :
    (s.moved t queues signals i).rank + (if signals ∧ (s.info t).owes then 1 else 0)
      = s.rank := by
  have howing := owing_moved hmove
  show waitsLeft s.source + _ + _ = waitsLeft s.source + s.owing
  omega

/-- `advance` waits, and thread `t` owes it a signal. -/
structure Owed (r : Nat) (t : τ) (s : SimTick w τ) : Prop where
  waits : inWaits s.source = true
  rank : s.rank = r
  owes : (s.info t).owes = true

/-- **A debt lasts until it is paid.** -/
theorem debt_step {r : Nat} {t : τ} {a : Act w τ} (hs : Owed r t s)
    (h : s.step minTicks a = some s') :
    Settles r s' ∨ Owed r t s' ∧ (s'.info t = s.info t
      ∨ ∃ queues i, Move s.milliseconds (s.info t) queues false i ∧ s'.info t = i) := by
  obtain ⟨hwaits, rfl, howes⟩ := hs
  rcases wait_step hwaits h with hsettles | ⟨u, queues, signals, i, hmove, rfl⟩
  · exact .inl hsettles
  · have hrank := rank_moved hmove
    by_cases hpays : signals = true ∧ (s.info u).owes = true
    · -- a debt is paid
      rw [if_pos hpays] at hrank
      exact .inl (.inr (by omega))
    · rw [if_neg hpays] at hrank
      right
      by_cases hut : t = u
      · subst hut
        have hself : (s.moved t queues signals i).info t = i := Function.update_self ..
        have hsignals : signals = false := by
          cases signals with
          | false => rfl
          | true => exact absurd ⟨rfl, howes⟩ hpays
        subst hsignals
        refine ⟨⟨hwaits, hrank, ?_⟩, .inr ⟨queues, i, hmove, hself⟩⟩
        rw [hself]
        cases hmove <;> exact howes
      · have hother : (s.moved u queues signals i).info t = s.info t :=
          Function.update_of_ne hut ..
        exact ⟨⟨hwaits, hrank, hother ▸ howes⟩, .inl hother⟩

/-! ## §3. No endless wait. -/

section Fair

variable {σ : Nat → SimTick w τ} {act : Nat → Option (Act w τ)}

theorem FairRun.sound (hrun : FairRun minTicks σ act) (n : Nat) : Sound (σ n) :=
  hrun.trace.invariant Sound (fun _ _ _ hs h => hs.step h) (hrun.start ▸ .boot) n

theorem sends_of_atSignal {pc : TickPc} (h : atSignal pc = true) : sends pc = true := by
  cases pc with
  | queuedSignal => rfl
  | ackSignal exits => rfl
  | _ => cases h

variable {t : τ}

omit [Fintype τ] in
/-- The next step of a thread that is on its way to a signal. -/
theorem next_sends {s s' : SimTick w τ} (hsends : sends (s.info t).pc = true)
    (h : s.step minTicks (.next t) = some s') :
    ∃ i, Move s.milliseconds (s.info t) false (atSignal (s.info t).pc) i
      ∧ s' = s.moved t false (atSignal (s.info t).pc) i
      ∧ (atSignal (s.info t).pc = false → atSignal i.pc = true) := by
  simp only [step, threadStep] at h
  split at h
  next hpc =>
    cases h
    rw [hpc]
    exact ⟨_, .clears hpc, rfl, fun _ => rfl⟩
  next hpc =>
    cases h
    rw [hpc]
    exact ⟨_, .signals hpc, rfl, fun hc => by cases hc⟩
  next hpc =>
    rw [hpc] at hsends
    cases hsends
  next exits hpc =>
    cases h
    rw [hpc]
    exact ⟨_, .acks exits hpc, rfl, fun _ => rfl⟩
  next exits hpc =>
    cases h
    rw [hpc]
    exact ⟨_, .ackSignals exits hpc, rfl, fun hc => by cases hc⟩
  next => cases h

variable {n : Nat}

variable (hrun : FairRun minTicks σ act)

include hrun

/-- A thread that is about to signal does so. -/
theorem FairRun.signalled {r : Nat} (howed : Owed r t (σ n))
    (hat : atSignal ((σ n).info t).pc = true) : ∃ m, n ≤ m ∧ Settles r (σ m) := by
  obtain ⟨m, hm, hact⟩ := hrun.threads n t (sends_of_atSignal hat)
  refine hrun.trace.fair (fun s => Owed r t s ∧ atSignal (s.info t).pc = true) (Settles r)
    ?_ ?_ ⟨howed, hat⟩ hm hact
  · rintro s b s' ⟨hs, hpc⟩ h
    rcases debt_step hs h with hsettles | ⟨hs', hsame | ⟨queues, i, hmove, _⟩⟩
    · exact .inr hsettles
    · exact .inl ⟨hs', hsame ▸ hpc⟩
    · -- the only move from here is the signal
      cases hmove <;> simp_all [atSignal]
  · rintro s s' ⟨⟨hwaits, rfl, howes⟩, hpc⟩ h
    obtain ⟨i, hmove, rfl, _⟩ := next_sends (sends_of_atSignal hpc) h
    have hrank := rank_moved hmove
    rw [if_pos ⟨hpc, howes⟩] at hrank
    exact .inr (by omega)

/-- A thread on its way to a signal comes to send it. -/
theorem FairRun.sent {r : Nat} (howed : Owed r t (σ n)) (hsends : sends ((σ n).info t).pc = true) :
    ∃ m, n ≤ m ∧ Settles r (σ m) := by
  obtain ⟨m, hm, hact⟩ := hrun.threads n t hsends
  have hphase : ∃ k, n ≤ k ∧ (Settles r (σ k)
      ∨ Owed r t (σ k) ∧ atSignal ((σ k).info t).pc = true) := by
    refine hrun.trace.fair (fun s => Owed r t s ∧ sends (s.info t).pc = true)
      (fun s => Settles r s ∨ Owed r t s ∧ atSignal (s.info t).pc = true) ?_ ?_
      ⟨howed, hsends⟩ hm hact
    · rintro s b s' ⟨hs, hpc⟩ h
      rcases debt_step hs h with hsettles | ⟨hs', hsame | ⟨queues, i, hmove, hi⟩⟩
      · exact .inr (.inl hsettles)
      · exact .inl ⟨hs', hsame ▸ hpc⟩
      · cases hmove <;> simp_all [sends]
    · rintro s s' ⟨hs, hpc⟩ h
      rcases debt_step hs h with hsettles | ⟨hs', _⟩
      · exact .inl hsettles
      · obtain ⟨i, hmove, rfl, hnext⟩ := next_sends hpc h
        by_cases hat : atSignal (s.info t).pc = true
        · have hrank := rank_moved hmove
          rw [if_pos ⟨hat, hs.owes⟩, hs.rank] at hrank
          exact .inl (.inr (by omega))
        · refine .inr ⟨hs', ?_⟩
          show atSignal (Function.update s.info t i t).pc = true
          rw [Function.update_self]
          exact hnext (by simpa using hat)
  obtain ⟨k, hk, hsettles | ⟨howed', hat⟩⟩ := hphase
  · exact ⟨k, hk, hsettles⟩
  · obtain ⟨l, hl, hsettles⟩ := hrun.signalled howed' hat
    exact ⟨l, by omega, hsettles⟩

/-- **A debt is paid**, or the waits end without it. -/
theorem FairRun.paid {r : Nat} (howed : Owed r t (σ n)) : ∃ m, n ≤ m ∧ Settles r (σ m) := by
  by_cases hsends : sends ((σ n).info t).pc = true
  · exact hrun.sent howed hsends
  · have hbusy := (((hrun.sound n).threads t).due howed.owes).resolve_left hsends
    obtain ⟨m, hm, hpoint⟩ := hrun.points n t hbusy.1
    -- the debt lasts until the thread comes to its point, or is paid before
    rcases hrun.trace.lasts (Owed r t) (Settles r) (fun s b s' hs h =>
        (debt_step hs h).symm.imp_left And.left) howed hm with howed' | ⟨k, hk, _, hsettles⟩
    · rcases ((hrun.sound m).threads t).due howed'.owes with hsends' | ⟨hbusy', _⟩
      · obtain ⟨k, hk, hsettles⟩ := hrun.sent howed' hsends'
        exact ⟨k, by omega, hsettles⟩
      · rw [hpoint] at hbusy'
        cases hbusy'
    · exact ⟨k, hk, hsettles⟩

/-- With a signal there, the tick source takes it. -/
theorem FairRun.unblocked (hwaits : inWaits (σ n).source = true) (hcount : (σ n).tickSource ≠ 0) :
    ∃ m, n ≤ m ∧ Settles (σ n).rank (σ m) := by
  obtain ⟨m, hm, hact⟩ := hrun.source n hwaits hcount
  refine hrun.trace.fair
    (fun s => inWaits s.source = true ∧ s.rank = (σ n).rank ∧ s.tickSource ≠ 0)
    (Settles (σ n).rank) ?_ ?_ ⟨hwaits, rfl, hcount⟩ hm hact
  · rintro s b s' ⟨hs, hrank, hcount⟩ h
    rcases wait_step hs h with hsettles | ⟨t, queues, signals, i, hmove, rfl⟩
    · exact .inr (hrank ▸ hsettles)
    · have hmoved := rank_moved hmove
      by_cases hpays : signals = true ∧ (s.info t).owes = true
      · rw [if_pos hpays] at hmoved
        exact .inr (.inr (by omega))
      · rw [if_neg hpays] at hmoved
        refine .inl ⟨hs, by omega, ?_⟩
        show s.tickSource + _ ≠ 0
        omega
  · rintro s s' ⟨hs, hrank, hcount⟩ h
    exact hrank ▸ wait_returns hs (sourceStep_cases h)

/-- Without one, some thread owes it. -/
theorem FairRun.blocked (hwaits : inWaits (σ n).source = true) (hcount : (σ n).tickSource = 0) :
    ∃ m, n ≤ m ∧ Settles (σ n).rank (σ m) := by
  have hpos : 0 < (σ n).owing := by
    cases hsource : (σ n).source with
    | waits k numTicks =>
      have hcovered := (hrun.sound n).covered k numTicks hsource
      omega
    | _ =>
      rw [hsource] at hwaits
      cases hwaits
  obtain ⟨t, howes⟩ := exists_of_threads_pos hpos
  exact hrun.paid ⟨hwaits, rfl, howes⟩

/-- **NO ENDLESS WAIT**: in a fair run, `advance` comes to the end of its waits. -/
theorem FairRun.advance_returns (n : Nat) :
    ∃ m, n ≤ m ∧ inWaits (σ m).source = false := by
  have hprogress : ∀ n, inWaits (σ n).source = true →
      ∃ m, n ≤ m ∧ (inWaits (σ m).source = true → (σ m).rank < (σ n).rank) := by
    intro n hwaits
    have hsettles : ∃ m, n ≤ m ∧ Settles (σ n).rank (σ m) := by
      by_cases hcount : (σ n).tickSource = 0
      · exact hrun.blocked hwaits hcount
      · exact hrun.unblocked hwaits hcount
    obtain ⟨m, hm, hleft | hlower⟩ := hsettles
    · exact ⟨m, hm, fun hwaits' => absurd (hleft.symm.trans hwaits') (by decide)⟩
    · exact ⟨m, hm, fun _ => hlower⟩
  obtain ⟨m, hm, hleft⟩ := leaves_of_rank (fun s : SimTick w τ => inWaits s.source = true)
    rank hprogress n
  exact ⟨m, hm, by simpa using hleft⟩

end Fair

/-! ## §4. Sequenced ticks. -/

/-- **WHEN SIMULATED TICKS ARE SEQUENCED.**  In a run whose steps all meet the condition, no
    woken thread is busy when `advance` comes to move the time on; and in no fair run, whether
    it meets the condition or not, does `advance` wait for ever. -/
theorem ticks_sequenced (minTicks : BitVec w) :
    (∀ (acts : List (Act w τ)) (s : SimTick w τ), Along (step minTicks) Meets boot acts →
      run (step minTicks) boot acts = some s →
      ∀ numTicks, s.source = .locks numTicks → ∀ t, (s.info t).busy = false)
    ∧ ∀ (σ : Nat → SimTick w τ) (act : Nat → Option (Act w τ)), FairRun minTicks σ act →
      ∀ n, ∃ m, n ≤ m ∧ inWaits (σ m).source = false := by
  refine ⟨fun acts s halong hrun numTicks hlocks t => ?_, fun σ act hrun => hrun.advance_returns⟩
  have hs := run_invariant_along Sequenced (fun _ _ _ => Sequenced.step) .boot halong hrun
  refine (hs.idle (hs.paid fun k n hwaits => ?_) t).2
  rw [hlocks] at hwaits
  cases hwaits

/-- A tick with one thread, which queues itself again when it has been woken. -/
def oneTick : List (Act 32 (Fin 1)) :=
  [.threadInit 0, .topLevelWait 0, .next 0, .next 0, .advance 10#32, .source, .source, .source,
    .next 0, .topLevelWait 0, .topLevelWait 0, .next 0, .next 0, .source]

/-- The states of `oneTick`. -/
def oneTickState (n : Nat) : SimTick 32 (Fin 1) :=
  (run (step 10#32) boot (oneTick.take n)).getD boot

theorem oneTickState_late {n : Nat} (h : 14 ≤ n) : oneTickState n = oneTickState 14 := by
  unfold oneTickState
  rw [List.take_of_length_le (by exact h), List.take_of_length_le (by exact Nat.le_refl 14)]

/-- `oneTick`, followed by a pause for ever, is fair. -/
theorem oneTick_fair : FairRun 10#32 oneTickState fun n => oneTick[n]? := by
  have hthreads : ∀ n : Fin 14, ∀ t, sends ((oneTickState n).info t).pc = true →
      ∃ m : Fin 14, n ≤ m ∧ oneTick[m.val]? = some (.next t) := by decide
  have hsource : ∀ n : Fin 14, inWaits (oneTickState n).source = true →
      (oneTickState n).tickSource ≠ 0 →
      ∃ m : Fin 14, n ≤ m ∧ oneTick[m.val]? = some .source := by decide
  constructor
  case start => rfl
  case trace =>
    intro n
    by_cases hn : n < 14
    · interval_cases n <;> rfl
    · have hnone : oneTick[n]? = none := List.getElem?_eq_none (Nat.not_lt.mp hn)
      simp only [hnone]
      rw [oneTickState_late (by omega), oneTickState_late (n := n) (by omega)]
  case threads =>
    intro n t hsends
    by_cases hn : n < 14
    · obtain ⟨m, hm, hact⟩ := hthreads ⟨n, hn⟩ t hsends
      exact ⟨m, hm, hact⟩
    · rw [oneTickState_late (Nat.not_lt.mp hn)] at hsends
      exact absurd hsends (by revert t; decide)
  case source =>
    intro n hwaits hcount
    by_cases hn : n < 14
    · obtain ⟨m, hm, hact⟩ := hsource ⟨n, hn⟩ hwaits hcount
      exact ⟨m, hm, hact⟩
    · rw [oneTickState_late (Nat.not_lt.mp hn)] at hwaits
      exact absurd hwaits (by decide)
  case points =>
    have hend : ∀ t, ((oneTickState 14).info t).busy = false := by decide
    intro n t _
    refine ⟨n + 14, Nat.le_add_right n 14, ?_⟩
    rw [oneTickState_late (Nat.le_add_left 14 n)]
    exact hend t

/-- One tick: the time is moved on with no thread busy, and the wait that follows ends. -/
theorem ticks_sequenced_one :
    (∀ numTicks, (oneTickState 7).source = .locks numTicks →
      ∀ t, ((oneTickState 7).info t).busy = false)
    ∧ (oneTickState 7).source = .locks 0#32 ∧ inWaits (oneTickState 8).source = true
    ∧ ∃ m, 8 ≤ m ∧ inWaits (oneTickState m).source = false := by
  refine ⟨(ticks_sequenced 10#32).1 (oneTick.take 7) _ ?_ rfl, rfl, rfl,
    (ticks_sequenced 10#32).2 oneTickState _ oneTick_fair 8⟩
  -- the first signal comes before `advance` is called; the section is not entered yet
  refine along_cons rfl trivial (along_cons rfl trivial (along_cons rfl ?_ (along_cons rfl ?_
    (along_cons rfl trivial (along_cons rfl ?_ (along_cons rfl ?_ trivial))))))
  · exact fun _ => .inr trivial
  · exact fun _ => .inr trivial
  · intro numTicks hlocks
    cases hlocks
  · intro numTicks hlocks
    cases hlocks

/-- **NO SIGNAL IS LOST**, in any run: a thread is queued once at most, and the signals `advance`
    waits for have come or are owed. -/
theorem signals_covered (acts : List (Act w τ)) (s : SimTick w τ)
    (h : run (step minTicks) boot acts = some s) : Sound s :=
  run_invariant Sound (fun _ _ _ => Sound.step) .boot h

/-- A thread that has been woken and has not signalled. -/
theorem signals_covered_one : inWaits (oneTickState 9).source = true ∧ Sound (oneTickState 9) :=
  ⟨rfl, signals_covered (oneTick.take 9) _ (rfl : run (step 10#32) boot _ = _)⟩

/-- **WHERE A TICK OVERTAKES A THREAD.**  (a) One thread: it has queued itself when `advance`
    wakes it, and only then clears `m_ackPending` and signals; the signal counts for the tick
    that it has just been woken for.  (b) Two threads are woken; one of them signals twice,
    in `applicationWait` and when it queues itself.  Both times `advance` moves the time on to
    20 while a thread that it woke at 10 is busy. -/
theorem tick_over_busy :
    (∃ s s' : SimTick 32 (Fin 1),
      run (step 10#32) boot [.threadInit 0, .topLevelWait 0, .advance 20#32, .source, .source,
        .next 0, .next 0, .source, .source] = some s
      ∧ (s.info 0).busy = true ∧ s.milliseconds = 10#32
      ∧ s.step 10#32 .source = some s' ∧ s'.milliseconds = 20#32)
    ∧ ∃ s s' : SimTick 32 (Fin 2),
      run (step 10#32) boot [.threadInit 0, .topLevelWait 0, .next 0, .next 0, .threadInit 1,
        .topLevelWait 1, .next 1, .next 1, .advance 20#32, .source, .source, .source, .source,
        .next 0, .next 1, .applicationWait 0, .next 0, .next 0, .topLevelWait 0,
        .topLevelWait 0, .next 0, .next 0, .source, .source, .source] = some s
      ∧ (s.info 1).busy = true ∧ s.milliseconds = 10#32
      ∧ s.step 10#32 .source = some s' ∧ s'.milliseconds = 20#32 :=
  ⟨⟨_, _, rfl, rfl, rfl, rfl, rfl⟩, ⟨_, _, rfl, rfl, rfl, rfl, rfl⟩⟩

end ColonyCore.System.SimTick
