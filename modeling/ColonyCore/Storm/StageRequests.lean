/-
  ColonyCore.Storm.StageRequests
  **ONE STAGE AND THE EVENTS THAT REACH IT.**

  What a stage at rest does with each event, up to the calls of other stages.

    • `settle_tick` — `execute`: the cycle goes on, or the other one begins,
    • `settle_on`, `settle_active`, `settle_back` — a stage is started, from below or from
      above,
    • `settle_off` — a stage that is not supplemented is switched off,
    • `settle_modeOff` — the mode changes; the do-action comes first, through whatever the
      pointer points to.
-/
import ColonyCore.Storm.StageSpec

namespace ColonyCore.Storm

open ColonyCore.System

/-- Where a stage is between calls. -/
inductive Rest
  | off
  | cycling (c : CyclingState)
  | supplementing
  deriving DecidableEq

namespace Stage

variable {n : Nat} {s : Stage n} {m : Memory} {c : CyclingState} {k : Nat}

/-- The state machine is at rest in `r`. -/
def At (s : Stage n) : Rest → Prop
  | .off => s.vars.stateVar = .Off
  | .cycling c => s.InCycle c false
  | .supplementing => s.vars.stateVar = .SupplementingNextStage

/-- The stage in the loop, with a queue. -/
def loop (s : Stage n) (es : List Event) : Stage n := { s with events := es, processing := true }

/-- The stage with an empty queue, out of the loop. -/
def settled (s : Stage n) : Stage n := { s with events := [], processing := false }

theorem InCycle.congr {s' : Stage n} {b : Bool} (h : s.InCycle c b) (hvars : s'.vars = s.vars) :
    s'.InCycle c b := by
  obtain ⟨hactive, hcycling, hcycle, hstarting⟩ := h
  exact ⟨hvars ▸ hactive, hvars ▸ hcycling, hvars ▸ hcycle, hvars ▸ hstarting⟩

variable [CycleTimes]

/-! ## §1. `execute`. -/

/-- The later state of a cycle, at an event of no cycle: only the do-action. -/
theorem InCycle.checks (h : s.InCycle c false) (hlive : s.Live m) (hroom : s.events.length < 7)
    (msg : Event) (hmsg : msg ≠ c.timeExpired) :
    s.processCycling m msg
      = some (s.queued (s.expiry m.args c), { m with args := s.checked m.args c }, false) := by
  have hcheck := checkTime_eq (c := c) hlive hroom
  unfold processCycling
  simp [h.cycle, h.starting, hcheck, hmsg]

/-- An event that no cycle looks at. -/
def Harmless (msg : Event) : Prop := msg = .noMsg ∨ msg = .evOnRequest

variable {msg : Event}

theorem InCycle.ticks (h : s.InCycle c false) (hlive : s.Live m) (hroom : s.events.length < 7)
    (hmsg : Harmless msg) :
    s.processEvent m msg
      = some (s.queued (s.expiry m.args c), { m with args := s.checked m.args c }, none) := by
  have hcheck := h.checks hlive hroom msg (by
    rcases hmsg with rfl | rfl <;> cases c <;> decide)
  rw [h.processEvent, processInCycling, hcheck]
  rcases hmsg with rfl | rfl <;> rfl

variable {a : Args}

theorem expired_mode (h : s.expired a c = true) : a.cycleInfo.mode = c.mode := by
  unfold expired at h
  rw [Bool.and_eq_true_iff] at h
  exact eq_of_beq h.1

theorem passed_expiry : ∀ e ∈ s.expiry a c, passed c.other e := by
  intro e he
  unfold expiry at he
  split at he
  · rw [List.mem_singleton.mp he, passed, other_other]
    exact .inl rfl
  · cases he

theorem length_expiry_le : (s.expiry a c).length ≤ 1 := by
  unfold expiry
  split <;> simp

/-- The event of a cycle that is over is all there is in the queue. -/
theorem InCycle.settle_ends (h : (s.loop []).InCycle c false) (hlive : s.Live m)
    (hargs : m.args = s.checked a c) (hmode : a.cycleInfo.mode = c.mode) :
    ∃ s' a', settle 7 (s.loop [c.timeExpired]) m = some (s', { m with args := a' })
      ∧ Cycles s a c.other s' a' := by
  obtain ⟨hsame₁, hout₁, hon₁, _⟩ := s.checked_spec a c
  obtain ⟨hsame₂, hout₂, hon₂, _⟩ := s.checked_spec m.args c
  have habort : (s.checked m.args c).whiteBox.abortOnOffCycle = false :=
    Bool.eq_false_iff.mpr fun hcontra => by
      have hfalse := abort_checked (s := s) a hmode
      rw [← hargs, hsame₂.abort hcontra] at hfalse
      cases hfalse
  rw [settle_cons (s := s.loop [c.timeExpired]) rfl (h.ends hlive (by simp [loop]))]
  have hnext : InCycle (((s.loop []).queued (s.expiry m.args c)).inStarting
      (s.checked m.args c) c.other) c.other true := by
    cases c with
    | OnCycle | OffCycle => exact ⟨h.active, h.cycling, rfl, rfl⟩
  obtain ⟨k, hk⟩ : ∃ k, 6 = (s.expiry m.args c).length + (k + 4) := by
    have hle := length_expiry_le (s := s) (a := m.args) (c := c)
    exact ⟨2 - (s.expiry m.args c).length, by omega⟩
  obtain ⟨s', a', hsettle, hcycles⟩ := settle_begun
    (m := { m with
      args := ((s.loop []).queued (s.expiry m.args c)).startedArgs (s.checked m.args c) c.other })
    ((s.loop []).queued (s.expiry m.args c)) (s.checked m.args c) _ hnext hlive rfl passed_expiry
  rw [restsIn, habort] at hcycles
  refine ⟨s', a', ?_, ?_⟩
  · rw [hk]
    exact hsettle
  · have houtputs : (s.checked m.args c).vOutputs = a.vOutputs :=
      hout₂.trans ((congrArg Args.vOutputs hargs).trans hout₁)
    have hsystem : (s.checked m.args c).systemOn = a.systemOn :=
      hon₂.trans ((congrArg Args.systemOn hargs).trans hon₁)
    have hsame : Args.Same a (s.checked m.args c) := Args.Same.trans (hargs ▸ hsame₁) hsame₂
    exact ⟨hsame.now ▸ hcycles.stage, hcycles.rests, hsame.trans hcycles.same, hcycles.abort,
      hcycles.systemOn.trans hsystem, hcycles.mode, houtputs ▸ hcycles.level⟩

/-- **`execute`** in a cycle: it goes on, or the other one begins. -/
theorem settle_tick (h : s.At (.cycling c)) (hlive : s.Live m) (hmsg : Harmless msg) :
    ∃ s' a', settle 8 (s.loop [msg]) m = some (s', { m with args := a' })
      ∧ (if s.expired m.args c then Cycles s m.args c.other s' a'
        else s' = s.settled ∧ a' = s.checked m.args c) := by
  have hcycle : InCycle (s.loop []) c false := InCycle.congr h rfl
  rw [settle_cons (s := s.loop [msg]) rfl (hcycle.ticks hlive (by simp [loop]) hmsg)]
  have hexpiry : (s.loop []).expiry m.args c = if s.expired m.args c then [c.timeExpired] else [] :=
    rfl
  cases hexp : s.expired m.args c with
  | false =>
    -- the queue is empty again
    rw [hexpiry, hexp]
    exact ⟨_, _, settle_nil rfl, rfl, rfl⟩
  | true =>
    rw [hexpiry, hexp]
    -- the do-action runs once more, now without an abort, and the other cycle begins
    exact InCycle.settle_ends hcycle hlive rfl
      (expired_mode hexp)

/-! ## §2. A stage is started. -/

theorem enterCycling_eq (hlive : s.Live m) (hroom : s.events.length ≤ 5)
    (hcycle : s.startInOffCycle = false) :
    s.enterCycling m
      = some ({ s.inStarting m.args .OnCycle with
          vars := { (s.inStarting m.args .OnCycle).vars with
            stateVar := .Active, stateVarActive := .Cycling } },
        { m with args := s.startedArgs m.args .OnCycle }) := by
  have hbegin := beginCycle_eq (c := .OnCycle) hlive hroom
  unfold enterCycling
  rw [hcycle]
  show (beginCycle .OnCycle s m).bind _ = _
  rw [hbegin]
  rfl

/-- An event whose transition ends with the entry of `Cycling`. -/
theorem settle_enters {q : Memory} (hlive : s.Live q)
    (hcycle : s.startInOffCycle = false)
    (hprocess : (s.loop []).processEvent m msg
      = ((s.loop []).enterCycling q).map fun r => (r.1, r.2, none)) :
    ∃ s' a', settle 7 (s.loop [msg]) m = some (s', { q with args := a' })
      ∧ Cycles s q.args (restsIn q.args .OnCycle) s' a' := by
  have henter := enterCycling_eq (s := s.loop []) hlive (by simp [loop]) hcycle
  rw [henter] at hprocess
  rw [settle_cons rfl hprocess]
  obtain ⟨s', a', hsettle, hcycles⟩ := settle_begun (k := 2)
    (m := { q with args := s.startedArgs q.args .OnCycle })
    (s.loop []) q.args { ((s.loop []).inStarting q.args .OnCycle).vars with
      stateVar := .Active, stateVarActive := .Cycling } ⟨rfl, rfl, rfl, rfl⟩ hlive rfl (by simp [loop])
  exact ⟨s', a', hsettle, hcycles.stage, hcycles.rests, hcycles.same, hcycles.abort,
    hcycles.systemOn, hcycles.mode, hcycles.level⟩

/-- The arguments after `initializeActive`. -/
def activated (s : Stage n) (a : Args) : Args :=
  let a := s.switched a .OffCycle
  let a := if s.systemIndex = 0 then { a with systemOn := true } else a
  match s.output with
  | .outdoor => { a with vOutputs := { a.vOutputs with sovInHeating := false } }
  | .indoor _ _ => a

omit [CycleTimes] in
theorem initializeActive_eq (hlive : s.Live m) :
    s.initializeActive m = some { m with args := s.activated m.args } := by
  unfold Live at hlive
  unfold initializeActive activated stageOff switch
  simp only [hlive, Memory.write, if_true, Option.bind_eq_bind, Option.bind_some]
  split
  · cases s.output <;> rfl
  · cases s.output <;> rfl

omit [CycleTimes] in
theorem activated_spec (s : Stage n) (a : Args) :
    Args.Same a (s.activated a)
      ∧ (s.activated a).whiteBox = a.whiteBox
      ∧ (s.activated a).systemOn = (if s.systemIndex = 0 then true else a.systemOn)
      ∧ (s.activated a).vOutputs.level
        = Function.update a.vOutputs.level s.output.port VIRTUAL_OUTPUTS_OFF := by
  obtain ⟨hsame, hbox, hon, _, hlevel⟩ := s.switched_spec a .OffCycle
  obtain ⟨hpv, hconfig, hnow, htimes, hdefeat, habort⟩ := hsame
  unfold activated
  split
  · split
    · exact ⟨⟨hpv, hconfig, hnow, htimes, hdefeat, habort⟩, hbox, rfl, hlevel⟩
    · exact ⟨⟨hpv, hconfig, hnow, htimes, hdefeat, habort⟩, hbox, rfl, hlevel⟩
  · split
    · exact ⟨⟨hpv, hconfig, hnow, htimes, hdefeat, habort⟩, hbox, hon, hlevel⟩
    · exact ⟨⟨hpv, hconfig, hnow, htimes, hdefeat, habort⟩, hbox, hon, hlevel⟩

/-- **`requestOn`** at the first stage. -/
theorem settle_on (h : s.At .off) (hlive : s.Live m) (hfirst : s.supplemented = false)
    (hcycle : s.startInOffCycle = false) :
    ∃ s' a', settle 7 (s.loop [.evOnRequest]) m = some (s', { m with args := a' })
      ∧ Cycles s (s.activated m.args) (restsIn m.args .OnCycle) s' a' := by
  have hactive := initializeActive_eq (s := s.loop []) hlive
  have hprocess : (s.loop []).processEvent m .evOnRequest
      = ((s.loop []).enterCycling { m with args := s.activated m.args }).map
        fun r => (r.1, r.2, none) := by
    unfold processEvent
    rw [show (s.loop []).vars.stateVar = .Off from h]
    show (if s.supplemented then _ else _) = _
    rw [hfirst]
    rw [hactive]
    show (enterCycling (s.loop []) { m with args := s.activated m.args }).bind _ = _
    cases enterCycling (s.loop []) { m with args := s.activated m.args } <;> rfl
  have hbox : (s.activated m.args).whiteBox = m.args.whiteBox := (s.activated_spec m.args).2.1
  have hrest : restsIn (s.activated m.args) .OnCycle = restsIn m.args .OnCycle := by
    unfold restsIn
    rw [hbox]
  rw [← hrest]
  exact settle_enters (q := { m with args := s.activated m.args }) hlive hcycle hprocess

/-- On the way from the lower stage. -/
def transitioning (s : Stage n) : Stage n :=
  { s with vars := { s.vars with
    stateVar := .Active, stateVarActive := .TransitioningFromLowerStage } }

/-- **A stage that another one supplements** is started. -/
theorem settle_active (h : s.At .off) (hlive : s.Live m) (hnext : s.supplemented = true)
    (hcycle : s.startInOffCycle = false) :
    ∃ s' a', settle 8 (s.loop [.evOnRequest]) m = some (s', { m with args := a' })
      ∧ Cycles s m.args (restsIn m.args .OnCycle) s' a' := by
  have hfirst : (s.loop []).processEvent m .evOnRequest
      = some (s.transitioning.loop [.evFromTransitionCompleted], m, none) := by
    unfold processEvent
    rw [show (s.loop []).vars.stateVar = .Off from h]
    exact if_pos hnext
  rw [settle_cons rfl hfirst]
  have hsecond : (s.transitioning.loop []).processEvent m .evFromTransitionCompleted
      = ((s.transitioning.loop []).enterCycling m).map fun r => (r.1, r.2, none) := by
    show (enterCycling (s.transitioning.loop []) m).bind _ = _
    cases enterCycling (s.transitioning.loop []) m <;> rfl
  obtain ⟨s', a', hsettle, hcycles⟩ :=
    settle_enters (s := s.transitioning) hlive hcycle hsecond
  exact ⟨s', a', hsettle, hcycles.stage, hcycles.rests, hcycles.same, hcycles.abort,
    hcycles.systemOn, hcycles.mode, hcycles.level⟩

/-- **A supplementing stage** goes back to its cycles. -/
theorem settle_back (h : s.At .supplementing) (hlive : s.Live m)
    (hcycle : s.startInOffCycle = false) :
    ∃ s' a', settle 7 (s.loop [.evLessCapacityNeeded]) m = some (s', { m with args := a' })
      ∧ Cycles s m.args (restsIn m.args .OnCycle) s' a' := by
  refine settle_enters hlive hcycle ?_
  unfold processEvent
  rw [show (s.loop []).vars.stateVar = .SupplementingNextStage from h]
  cases enterCycling (s.loop []) m <;> rfl

/-! ## §3. A stage stops. -/

/-- The arguments after `shutdownStage`. -/
def stopped (s : Stage n) (a : Args) : Args :=
  let a := s.switched a .OffCycle
  if s.systemIndex = 0 then
    { a with systemOn := false, cycleInfo := { a.cycleInfo with mode := .eOFF } }
  else a

omit [CycleTimes] in
theorem shutdownStage_eq (hlive : s.Live m) :
    s.shutdownStage m = some { m with args := s.stopped m.args } := by
  unfold Live at hlive
  unfold shutdownStage stopped stageOff switch
  simp only [hlive, Memory.write, if_true, Option.bind_eq_bind, Option.bind_some]
  split <;> rfl

omit [CycleTimes] in
theorem stopped_spec (s : Stage n) (a : Args) :
    Args.Same a (s.stopped a)
      ∧ (s.stopped a).systemOn = (if s.systemIndex = 0 then false else a.systemOn)
      ∧ (s.stopped a).vOutputs.level
        = Function.update a.vOutputs.level s.output.port VIRTUAL_OUTPUTS_OFF := by
  obtain ⟨⟨hpv, hconfig, hnow, htimes, hdefeat, habort⟩, _, hon, _, hlevel⟩ :=
    s.switched_spec a .OffCycle
  unfold stopped
  split
  · exact ⟨⟨hpv, hconfig, hnow, htimes, hdefeat, habort⟩, rfl, hlevel⟩
  · exact ⟨⟨hpv, hconfig, hnow, htimes, hdefeat, habort⟩, hon, hlevel⟩

/-- To `Off`. -/
def shut (s : Stage n) : Stage n := { s with vars := { s.vars with stateVar := .Off } }

/-- To `SupplementingNextStage`. -/
def yielding (s : Stage n) : Stage n :=
  { s with vars := { s.vars with stateVar := .SupplementingNextStage } }

/-- On the way back to the lower stage. -/
def turning (s : Stage n) : Stage n :=
  { s with vars := { s.vars with stateVarActive := .TransitioningBackToLowerStage } }

section

variable (h : s.InCycle c false) (hlive : s.Live m)

include h hlive

/-- **`requestOff`** in a cycle of the first stage. -/
theorem InCycle.stops (hroom : s.events.length < 7) (hfirst : s.supplemented = false) :
    s.processEvent m .evExcessCapacity
      = some ((s.queued (s.expiry m.args c)).shut,
        { m with args := s.stopped (s.checked m.args c) }, none) := by
  have hcheck := h.checks hlive hroom .evExcessCapacity (by cases c <;> decide)
  have hstop := shutdownStage_eq (s := s.queued (s.expiry m.args c))
    (m := { m with args := s.checked m.args c }) hlive
  rw [h.processEvent, processInCycling, hcheck]
  show (if s.supplemented then _ else _) = _
  rw [if_neg (by rw [hfirst]; exact Bool.false_ne_true)]
  rw [hstop]
  rfl

/-- **`requestOff`** in a cycle of a higher stage: first of all a transition back. -/
theorem InCycle.turns (hroom : s.events.length ≤ 5) (hnext : s.supplemented = true) :
    s.processEvent m .evExcessCapacity
      = some (((s.queued (s.expiry m.args c)).queued [.evBackTransitionCompleted]).turning,
        { m with args := s.checked m.args c }, none) := by
  have hcheck := h.checks hlive (by omega) .evExcessCapacity (by cases c <;> decide)
  have hpush := push_eq (s := s.queued (s.expiry m.args c))
    (by
      have hle := length_expiry_le (s := s) (a := m.args) (c := c)
      simp only [queued, List.length_append]
      omega) .evBackTransitionCompleted
  rw [h.processEvent, processInCycling, hcheck]
  show (if s.supplemented then _ else _) = _
  rw [if_pos hnext]
  rw [hpush]
  rfl

/-- **`requestAsSupplement`** in a cycle. -/
theorem InCycle.yields (hroom : s.events.length < 7) :
    s.processEvent m .evNeedMoreCapacity
      = some (s.queued (s.expiry m.args c), { m with args := s.checked m.args c },
        some .enterSupplementing) := by
  have hcheck := h.checks hlive hroom .evNeedMoreCapacity (by cases c <;> decide)
  rw [h.processEvent, processInCycling, hcheck]
  rfl

end

/-! ## §4. What is left in the queue. -/

/-- A longer run of the loop ends the same. -/
theorem settle_mono {l : Nat} {r : Stage n × Memory} (h : settle k s m = some r)
    (hle : k ≤ l) : settle l s m = some r := by
  induction k generalizing s m l with
  | zero => cases h
  | succ k ih =>
    cases l with
    | zero => omega
    | succ l =>
      rw [settle] at h ⊢
      split at h
      next hnil => exact h
      next msg rest hcons =>
        obtain ⟨⟨s₁, m₁, handover⟩, hprocess, hrest⟩ := Option.bind_eq_some_iff.mp h
        rw [hprocess]
        cases handover with
        | none => exact ih hrest (by omega)
        | some _ => cases hrest

/-- An event of a cycle that was over. -/
def Stale (msg : Event) : Prop := ∃ c : CyclingState, msg = c.timeExpired

theorem stale_expiry : ∀ e ∈ s.expiry a c, Stale e := by
  intro e he
  unfold expiry at he
  split at he
  · exact ⟨c, List.mem_singleton.mp he⟩
  · cases he

/-- The events that a stage outside its cycles ignores. -/
def Ignores : Rest → Event → Prop
  | .off, msg => msg ≠ .evOnRequest
  | .cycling _, _ => False
  | .supplementing, msg => msg ≠ .evLessCapacityNeeded ∧ msg ≠ .evOffModeRequest

omit [CycleTimes] in
theorem Stale.off (h : Stale msg) : Ignores .off msg := by
  obtain ⟨c, rfl⟩ := h
  cases c <;> exact Event.noConfusion

omit [CycleTimes] in
theorem Stale.supplementing (h : Stale msg) : Ignores .supplementing msg := by
  obtain ⟨c, rfl⟩ := h
  cases c <;> exact ⟨Event.noConfusion, Event.noConfusion⟩

variable {r : Rest}

theorem At.ignores (h : s.At r) (hmsg : Ignores r msg) :
    s.processEvent m msg = some (s, m, none) := by
  unfold processEvent
  cases r with
  | cycling _ => exact hmsg.elim
  | off =>
    rw [show s.vars.stateVar = .Off from h]
    exact if_neg hmsg
  | supplementing =>
    rw [show s.vars.stateVar = .SupplementingNextStage from h]
    rw [if_neg hmsg.1, if_neg hmsg.2]

omit [CycleTimes] in
theorem At.congr {s' : Stage n} (h : s.At r) (hvars : s'.vars = s.vars) : s'.At r := by
  cases r with
  | off | supplementing => exact (congrArg StateVars.stateVar hvars).trans h
  | cycling c => exact InCycle.congr h hvars

/-- **A stage outside its cycles comes to rest where it is.** -/
theorem At.settle_stays (h : s.At r) (es : List Event) (hes : ∀ e ∈ es, Ignores r e) :
    settle (es.length + 1) (s.loop es) m = some (s.settled, m) := by
  induction es with
  | nil => exact settle_nil rfl
  | cons e es ih =>
    have hidle : (s.loop es).At r := At.congr h rfl
    rw [settle_cons (s := s.loop (e :: es)) rfl (hidle.ignores (hes e List.mem_cons_self))]
    exact ih fun e he => hes e (List.mem_cons_of_mem _ he)

/-! ## §5. The operating mode changes. -/

/-- **The do-action through a stale pointer**: it reads and writes dead memory. -/
theorem checkTime_dead {p : Nat} (hargs : s.args = some p) (hdead : p ≠ m.call)
    (hroom : s.events.length < 7) :
    ∃ es d, s.checkTime c m = some (s.queued es, { m with dead := d, usedDead := true })
      ∧ es.length ≤ 1 ∧ ∀ e ∈ es, Stale e := by
  unfold checkTime
  simp only [hargs, Memory.read, Memory.write, if_neg hdead, Option.bind_eq_bind,
    Option.bind_some]
  split
  · split
    · rw [push_eq hroom]
      exact ⟨[c.timeExpired], _, rfl, le_rfl, fun e he => ⟨c, List.mem_singleton.mp he⟩⟩
    · exact ⟨[], _, by rw [queued, List.append_nil], Nat.zero_le _, by simp⟩
  · exact ⟨[], _, by rw [queued, List.append_nil], Nat.zero_le _, by simp⟩

/-- The stage after a change of the mode. -/
def modeOff (s : Stage n) : Stage n := s.offModeRequest.settled

/-- **`requestModeToOff`** at a stage that supplements another. -/
theorem settle_modeOff (h : s.At .supplementing) :
    settle 2 (s.loop [.evOffModeRequest]) m = some (s.modeOff, m) := by
  have hprocess : (s.loop []).processEvent m .evOffModeRequest
      = some ((s.loop []).offModeRequest, m, none) := by
    unfold processEvent
    rw [show (s.loop []).vars.stateVar = .SupplementingNextStage from h]
    rfl
  rw [settle_cons rfl hprocess]
  rfl

/-- **`requestModeToOff`** in a cycle. -/
theorem InCycle.settle_modeOff {p : Nat} (h : s.InCycle c false) (hargs : s.args = some p)
    (hdead : p ≠ m.call) :
    ∃ d, settle 8 (s.loop [.evOffModeRequest]) m
      = some (s.modeOff, { m with dead := d, usedDead := true }) := by
  obtain ⟨es, d, hcheck, hlength, hstale⟩ := checkTime_dead (s := s.loop []) (c := c) hargs hdead
    (by simp [loop])
  have hin : (s.loop []).InCycle c false := h.congr rfl
  have hpass : (s.loop []).processCycling m .evOffModeRequest
      = some ((s.loop []).queued es, { m with dead := d, usedDead := true }, false) := by
    have hne : ¬ Event.evOffModeRequest = c.timeExpired := by cases c <;> decide
    unfold processCycling
    simp only [hin.cycle, hin.starting, hcheck, hne, Bool.false_and, Bool.false_eq_true, if_false,
      Option.bind_eq_bind, Option.bind_some]
  have hprocess : (s.loop []).processEvent m .evOffModeRequest
      = some ((s.loop es).offModeRequest, { m with dead := d, usedDead := true }, none) := by
    rw [hin.processEvent, processInCycling, hpass]
    rfl
  refine ⟨d, ?_⟩
  rw [settle_cons rfl hprocess]
  have hoff : s.offModeRequest.At .off := rfl
  have hrest := hoff.settle_stays (m := { m with dead := d, usedDead := true }) es
    fun e he => (hstale e he).off
  exact settle_mono hrest (by omega)

end Stage

end ColonyCore.Storm
