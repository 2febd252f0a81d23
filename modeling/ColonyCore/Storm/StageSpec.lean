/-
  ColonyCore.Storm.StageSpec
  **WHAT ONE STAGE DOES WITH AN EVENT, UNTIL ITS QUEUE IS EMPTY AGAIN.**

  Between calls a stage rests in one of four states, with an empty queue (`Rests`).
  `settle` is the event loop of one stage that calls no other stage.

    • `checkTime_eq` — the do-action of a cycle,
    • `beginCycle_eq` — the start of a cycle; none ends at once, unless it is aborted,
    • `settle_begun` — the cycle that a stage comes to rest in.
-/
import ColonyCore.Storm.Stage

namespace ColonyCore.Storm

open ColonyCore.System Function List

/-! ## §1. Outputs and arguments. -/

/-- The outputs a stage can switch. -/
inductive Port where
  | y1
  | w (i : Fin 3)
  deriving DecidableEq

/-- The output of each port. -/
def VirtualOutputs.level (v : VirtualOutputs) : Port → Nat
  | .y1 => v.outdoorStages 0
  | .w i => v.indoorStages i

/-- The output in a cycle. -/
def CyclingState.value : CyclingState → Nat
  | .OnCycle => VIRTUAL_OUTPUTS_ON
  | .OffCycle => VIRTUAL_OUTPUTS_OFF

def Output.port : Output → Port
  | .outdoor => .y1
  | .indoor i _ => .w i

/-- The arguments a stage only reads are the same, and no cycle is newly aborted. -/
structure Args.Same (a a' : Args) : Prop where
  pvOut : a'.pvOut = a.pvOut
  config : a'.systemConfig = a.systemConfig
  now : a'.currentInterval = a.currentInterval
  times : a'.equipmentBeginTimes = a.equipmentBeginTimes
  defeat : a'.whiteBox.defeatEquipMinOffTime = a.whiteBox.defeatEquipMinOffTime
  abort : a'.whiteBox.abortOnOffCycle = true → a.whiteBox.abortOnOffCycle = true

theorem Args.Same.refl (a : Args) : Args.Same a a := ⟨rfl, rfl, rfl, rfl, rfl, id⟩

theorem Args.Same.trans {a b c : Args} (h : Args.Same a b) (h' : Args.Same b c) : Args.Same a c :=
  ⟨h'.pvOut.trans h.pvOut, h'.config.trans h.config, h'.now.trans h.now, h'.times.trans h.times,
    h'.defeat.trans h.defeat, fun hc => h.abort (h'.abort hc)⟩

namespace Stage

variable {n : Nat} (s : Stage n) (a : Args)

variable (x fan : Nat)

/-- **An output switched**: that port only, and nothing a stage reads. -/
theorem level_setOutput :
    (s.setOutput x fan a).vOutputs.level = update a.vOutputs.level s.output.port x := by
  funext p
  unfold setOutput
  cases hout : s.output with
  | outdoor =>
    cases p with
    | y1 => rfl
    | w i => rfl
  | indoor i fanFlag =>
    cases p with
    | y1 => rfl
    | w j =>
      by_cases hj : j = i
      · subst hj
        simp [VirtualOutputs.level, Output.port]
      · simp [VirtualOutputs.level, Output.port, hj]

theorem same_setOutput : Args.Same a (s.setOutput x fan a) := by
  unfold setOutput
  cases s.output <;> exact ⟨rfl, rfl, rfl, rfl, rfl, id⟩

theorem systemOn_setOutput : (s.setOutput x fan a).systemOn = a.systemOn := by
  unfold setOutput
  cases s.output <;> rfl

theorem cycleInfo_setOutput : (s.setOutput x fan a).cycleInfo = a.cycleInfo := by
  unfold setOutput
  cases s.output <;> rfl

theorem whiteBox_setOutput : (s.setOutput x fan a).whiteBox = a.whiteBox := by
  unfold setOutput
  cases s.output <;> rfl

/-! ## §2. The do-actions. -/

variable [CycleTimes]

/-- The cycle is over. -/
def expired (c : CyclingState) : Bool :=
  a.cycleInfo.mode == c.mode
    && (expiredPrecision s.startTime (.ofSeconds (s.cycleTime a c)) a.currentInterval
      || a.whiteBox.abortOnOffCycle)

/-- The arguments after the do-action: an abort is taken once. -/
def checked (c : CyclingState) : Args :=
  if a.cycleInfo.mode = c.mode then
    { a with
      cycleInfo := c.setTime (s.cycleTime a c) a.cycleInfo
      whiteBox := { a.whiteBox with
        abortOnOffCycle := a.whiteBox.abortOnOffCycle && !s.expired a c } }
  else a

/-- Events added to the queue. -/
def queued (es : List Event) : Stage n := { s with events := s.events ++ es }

/-- The event of a cycle that is over. -/
def expiry (c : CyclingState) : List Event := if s.expired a c then [c.timeExpired] else []

variable {s} {m : Memory} {c : CyclingState}

omit [CycleTimes] in
theorem push_eq (hroom : s.events.length < 7) (msg : Event) : s.push msg = some (s.queued [msg]) :=
  if_pos hroom

/-- The stage has the arguments of the call in progress. -/
def Live (s : Stage n) (m : Memory) : Prop := s.args = some m.call

omit [CycleTimes] in
theorem Live.write (hlive : s.Live m) (f : Args → Args) :
    m.write f s.args = some { m with args := f m.args } := by
  rw [hlive]
  exact if_pos rfl

omit [CycleTimes] in
theorem Live.read (hlive : s.Live m) : m.read s.args = some (m.args, m) := by
  rw [hlive]
  exact if_pos rfl

omit [CycleTimes] in
theorem mode_setTime (time : BitVec 32) (info : CycleInfo) :
    (c.setTime time info).mode = info.mode := by
  cases c <;> rfl

/-- **The do-action** of a cycle. -/
theorem checkTime_eq (hlive : s.Live m) (hroom : s.events.length < 7) :
    s.checkTime c m
      = some (s.queued (s.expiry m.args c), { m with args := s.checked m.args c }) := by
  unfold Live at hlive
  unfold checkTime expiry checked expired
  simp only [hlive, Memory.read, Memory.write, if_true, Option.bind_eq_bind, Option.bind_some]
  by_cases hmode : m.args.cycleInfo.mode = c.mode
  · cases hexp : (expiredPrecision s.startTime (.ofSeconds (s.cycleTime m.args c))
      m.args.currentInterval || m.args.whiteBox.abortOnOffCycle) with
    | true =>
      simp only [hmode, if_true, push_eq hroom, Option.bind_some, beq_self_eq_true,
        Bool.true_and, Bool.not_true, Bool.and_false]
    | false =>
      simp only [hmode, if_true, beq_self_eq_true, Bool.true_and, Bool.false_eq_true,
        if_false, queued, append_nil, Bool.not_false, Bool.and_true]
  · simp [hmode, queued]

theorem checked_spec (s : Stage n) (a : Args) (c : CyclingState) :
    Args.Same a (s.checked a c) ∧ (s.checked a c).vOutputs = a.vOutputs
      ∧ (s.checked a c).systemOn = a.systemOn
      ∧ (s.checked a c).cycleInfo.mode = a.cycleInfo.mode := by
  unfold checked
  split
  · refine ⟨⟨rfl, rfl, rfl, rfl, rfl, fun habort => ?_⟩, rfl, rfl, mode_setTime _ _⟩
    exact (Bool.and_eq_true_iff.mp habort).1
  · exact ⟨.refl a, rfl, rfl, rfl⟩

/-- The start of a cycle takes an abort. -/
theorem abort_checked (hmode : a.cycleInfo.mode = c.mode) :
    (s.checked a c).whiteBox.abortOnOffCycle = false := by
  unfold checked expired
  cases a.whiteBox.abortOnOffCycle <;> simp [hmode]

/-! ## §3. The start of a cycle. -/

/-- The stage with its timer set. -/
def timed (s : Stage n) (a : Args) : Stage n := { s with startTime := a.currentInterval }

omit [CycleTimes] in
theorem startTimer_eq (hlive : s.Live m) : s.startTimer m = some (s.timed m.args, m) := by
  unfold startTimer
  rw [hlive.read]
  rfl

/-- The output is switched, and the cycle is written down. -/
def begun (s : Stage n) (a : Args) (c : CyclingState) : Args :=
  { s.switched a c with
    cycleInfo := { c.setBegin s.startTime (s.switched a c).cycleInfo with mode := c.mode } }

omit [CycleTimes] in
/-- What switching a stage leaves alone. -/
theorem switched_spec (s : Stage n) (a : Args) (c : CyclingState) :
    Args.Same a (s.switched a c) ∧ (s.switched a c).whiteBox = a.whiteBox
      ∧ (s.switched a c).systemOn = a.systemOn ∧ (s.switched a c).cycleInfo = a.cycleInfo
      ∧ (s.switched a c).vOutputs.level
        = update a.vOutputs.level s.output.port c.value := by
  cases c with
  | OnCycle | OffCycle =>
    exact ⟨s.same_setOutput a _ _, s.whiteBox_setOutput a _ _, s.systemOn_setOutput a _ _,
      s.cycleInfo_setOutput a _ _, s.level_setOutput a _ _⟩

/-- A cycle lasts some time, so only an abort ends it at once. -/
theorem expired_begun (s : Stage n) (a : Args) (c : CyclingState) :
    (s.timed a).expired ((s.timed a).begun a c) c = a.whiteBox.abortOnOffCycle := by
  obtain ⟨hsame, hbox, _⟩ := (s.timed a).switched_spec a c
  have hnow : ((s.timed a).begun a c).currentInterval = a.currentInterval := hsame.now
  have habort : ((s.timed a).begun a c).whiteBox = a.whiteBox := hbox
  have hmode : ((s.timed a).begun a c).cycleInfo.mode = c.mode := rfl
  have hstart : (s.timed a).startTime = a.currentInterval := rfl
  have hlasts : (s.timed a).cycleTime ((s.timed a).begun a c) c ≠ 0#32 := by
    cases c with
    | OnCycle => exact CycleTimes.onTime_ne_zero _ _
    | OffCycle => exact CycleTimes.offTime_ne_zero _ _
  rw [expired, hmode, hnow, habort, hstart, expiredPrecision_self _ hlasts, beq_self_eq_true,
    Bool.true_and, Bool.false_or]

/-- The stage in the first state of a cycle. -/
def inStarting (s : Stage n) (a : Args) (c : CyclingState) : Stage n :=
  let s' := ((s.timed a).queued
    (if a.whiteBox.abortOnOffCycle then [c.timeExpired] else [])).queued [c.startingTimeExpired]
  { s' with vars := c.starting s'.vars }

/-- The arguments when a cycle has started. -/
def startedArgs (s : Stage n) (a : Args) (c : CyclingState) : Args :=
  (s.timed a).checked ((s.timed a).begun a c) c

theorem startingStage_eq (hlive : s.Live m) (hroom : s.events.length ≤ 5) :
    s.startingStage c m
      = some ((s.queued (s.expiry (s.begun m.args c) c)).queued [c.startingTimeExpired],
        { m with args := s.checked (s.begun m.args c) c }) := by
  have hswitch : s.switch c m = some { m with args := s.switched m.args c } := hlive.write _
  have hwrite : Memory.write { m with args := s.switched m.args c } (fun a => { a with
      cycleInfo := { c.setBegin s.startTime a.cycleInfo with mode := c.mode } }) s.args
      = some { m with args := s.begun m.args c } :=
    Live.write (m := { m with args := s.switched m.args c }) hlive _
  have hcheck := checkTime_eq (m := { m with args := s.begun m.args c }) (c := c) hlive (by omega)
  have hpush := push_eq (s := s.queued (s.expiry (s.begun m.args c) c))
    (by
      simp only [queued, length_append, expiry]
      split <;> simp only [length_singleton, length_nil] <;> omega)
    c.startingTimeExpired
  unfold startingStage
  rw [hswitch]
  show (Memory.write _ _ _).bind _ = _
  rw [hwrite]
  show (checkTime _ _ _).bind _ = _
  rw [hcheck]
  show (push _ _).bind _ = _
  rw [hpush]
  rfl

/-- **A cycle starts.** -/
theorem beginCycle_eq (hlive : s.Live m) (hroom : s.events.length ≤ 5) :
    s.beginCycle c m
      = some (s.inStarting m.args c, { m with args := s.startedArgs m.args c }) := by
  have hstart := startingStage_eq (s := s.timed m.args) (c := c) hlive hroom
  rw [expiry, expired_begun] at hstart
  unfold beginCycle
  rw [startTimer_eq hlive]
  show (startingStage _ _ _).bind _ = _
  rw [hstart]
  rfl

/-- **What the start of a cycle does to the arguments.** -/
theorem startedArgs_spec (s : Stage n) (a : Args) (c : CyclingState) :
    Args.Same a (s.startedArgs a c) ∧ (s.startedArgs a c).whiteBox.abortOnOffCycle = false
      ∧ (s.startedArgs a c).systemOn = a.systemOn
      ∧ (s.startedArgs a c).cycleInfo.mode = c.mode
      ∧ (s.startedArgs a c).vOutputs.level
        = update a.vOutputs.level s.output.port c.value := by
  obtain ⟨hsame, hbox, hon, _, hlevel⟩ := (s.timed a).switched_spec a c
  have hbegun : Args.Same a ((s.timed a).begun a c) :=
    ⟨hsame.pvOut, hsame.config, hsame.now, hsame.times, hsame.defeat, hsame.abort⟩
  obtain ⟨hsame', hout, hon', hmode⟩ := (s.timed a).checked_spec ((s.timed a).begun a c) c
  refine ⟨hbegun.trans hsame', abort_checked _ rfl, hon'.trans hon, hmode, ?_⟩
  show ((s.timed a).checked _ c).vOutputs.level = _
  rw [hout]
  exact hlevel

/-! ## §4. A stage comes to rest. -/

/-- In cycle `c`, in its first state or past it. -/
structure InCycle (s : Stage n) (c : CyclingState) (isStarting : Bool) : Prop where
  active : s.vars.stateVar = .Active
  cycling : s.vars.stateVarActive = .Cycling
  cycle : s.vars.stateVarCycling = c
  starting : c.isStarting s.vars = isStarting

/-- The events that both states of a cycle pass over. -/
def passed (c : CyclingState) (msg : Event) : Prop :=
  msg = c.other.timeExpired ∨ msg = c.other.startingTimeExpired ∨ msg = .noMsg

theorem InCycle.processEvent {first : Bool} (h : s.InCycle c first) (msg : Event) :
    s.processEvent m msg = s.processInCycling m msg := by
  unfold Stage.processEvent
  rw [h.active, h.cycling]

/-- The first state of a cycle, at the event it waits for. -/
theorem InCycle.starts (h : s.InCycle c true) (hlive : s.Live m) :
    s.processEvent m c.startingTimeExpired
      = some ({ s with vars := c.started s.vars }, { m with args := s.switched m.args c }, none) := by
  have hswitch : s.switch c m = some { m with args := s.switched m.args c } := hlive.write _
  rw [h.processEvent, processInCycling]
  unfold processCycling
  simp only [h.cycle, h.starting, if_true, beq_self_eq_true, Bool.and_self, hswitch,
    Option.bind_eq_bind, Option.bind_some]

/-- The first state of a cycle, aborted. -/
theorem InCycle.aborts (h : s.InCycle c true) (hlive : s.Live m) (hroom : s.events.length ≤ 5) :
    s.processEvent m c.timeExpired
      = some (s.inStarting m.args c.other, { m with args := s.startedArgs m.args c.other }, none) := by
  have hbegin := beginCycle_eq (c := c.other) hlive hroom
  have hne : (c.timeExpired == c.startingTimeExpired) = false := by cases c <;> rfl
  rw [h.processEvent, processInCycling]
  unfold processCycling
  simp only [h.cycle, h.starting, hne, Bool.and_false, Bool.false_eq_true, if_false, if_true,
    hbegin, Option.bind_eq_bind, Option.bind_some]

/-- The first state of a cycle passes over the events of the other cycle. -/
theorem InCycle.passes (h : s.InCycle c true) {msg : Event} (hmsg : passed c msg) :
    s.processEvent m msg = some (s, m, none) := by
  have hstart : (msg == c.startingTimeExpired) = false := by
    rcases hmsg with rfl | rfl | rfl <;> cases c <;> rfl
  have htime : ¬ msg = c.timeExpired := by
    rcases hmsg with rfl | rfl | rfl <;> cases c <;> decide
  have hrest : ¬ msg = .evExcessCapacity ∧ ¬ msg = .evNeedMoreCapacity
      ∧ ¬ msg = .evOffModeRequest := by
    rcases hmsg with rfl | rfl | rfl <;> cases c <;> decide
  rw [h.processEvent, processInCycling]
  unfold processCycling
  simp [h.cycle, h.starting, hstart, htime, hrest.1, hrest.2.1, hrest.2.2]

/-- The later state of a cycle: the do-action, and the next cycle if this one is over. -/
theorem InCycle.ends (h : s.InCycle c false) (hlive : s.Live m) (hroom : s.events.length ≤ 4) :
    s.processEvent m c.timeExpired
      = some ((s.queued (s.expiry m.args c)).inStarting (s.checked m.args c) c.other,
        { m with args :=
          (s.queued (s.expiry m.args c)).startedArgs (s.checked m.args c) c.other }, none) := by
  have hcheck := checkTime_eq (c := c) hlive (show s.events.length < 7 by omega)
  have hbegin := beginCycle_eq (s := s.queued (s.expiry m.args c))
    (m := { m with args := s.checked m.args c }) (c := c.other) hlive
    (by
      simp only [queued, length_append, expiry]
      split <;> simp only [length_singleton, length_nil] <;> omega)
  rw [h.processEvent, processInCycling]
  unfold processCycling
  simp [h.cycle, h.starting, hcheck, hbegin]

/-- **The event loop of one stage**; `none` if it calls another stage. -/
def settle : Nat → Stage n → Memory → Option (Stage n × Memory)
  | 0, _, _ => none
  | fuel + 1, s, m =>
    match s.events with
    | [] => some ({ s with processing := false }, m)
    | msg :: rest => do
      let (s, m, handover) ← { s with events := rest }.processEvent m msg
      match handover with
      | none => settle fuel s m
      | some _ => none

variable {k : Nat}

theorem settle_nil (h : s.events = []) :
    settle (k + 1) s m = some ({ s with processing := false }, m) := by
  rw [settle, h]

theorem settle_cons {s' : Stage n} {m' : Memory} {msg : Event} {rest : List Event}
    (h : s.events = msg :: rest)
    (hprocess : { s with events := rest }.processEvent m msg = some (s', m', none)) :
    settle (k + 1) s m = settle k s' m' := by
  rw [settle, h]
  show (Stage.processEvent _ _ _).bind _ = _
  rw [hprocess]
  rfl

/-- The events of the other cycle are passed over. -/
theorem InCycle.settle_passes {pre rest : List Event} (h : s.InCycle c true)
    (hevents : s.events = pre ++ rest) (hpre : ∀ e ∈ pre, passed c e) :
    settle (pre.length + k) s m = settle k { s with events := rest } m := by
  induction pre generalizing s with
  | nil =>
    have hsame : { s with events := rest } = s := by
      cases s
      simp only [nil_append] at hevents
      simp [hevents]
    rw [hsame, length_nil, Nat.zero_add]
  | cons e pre ih =>
    have hs : InCycle { s with events := pre ++ rest } c true :=
      ⟨h.active, h.cycling, h.cycle, h.starting⟩
    rw [length_cons, Nat.add_right_comm,
      settle_cons hevents (hs.passes (hpre e mem_cons_self))]
    exact ih hs rfl fun e he => hpre e (mem_cons_of_mem _ he)

/-- The first state of a cycle goes over into the later one. -/
theorem InCycle.settle_starts (h : s.InCycle c true) (hlive : s.Live m)
    (hevents : s.events = [c.startingTimeExpired]) :
    settle (k + 2) s m
      = some ({ s with events := [], processing := false, vars := c.started s.vars },
        { m with args := s.switched m.args c }) := by
  have hs : InCycle { s with events := [] } c true := ⟨h.active, h.cycling, h.cycle, h.starting⟩
  rw [settle_cons hevents (hs.starts hlive)]
  rfl

omit [CycleTimes] in
theorem inCycle_started (h : s.InCycle c true) :
    InCycle { s with events := [], processing := false, vars := c.started s.vars } c false := by
  obtain ⟨hactive, hcycling, hcycle, hstarting⟩ := h
  cases c with
  | OnCycle | OffCycle => exact ⟨hactive, hcycling, hcycle, rfl⟩

/-- **A stage has come to rest in cycle `d`**, which began with arguments `a`. -/
structure Cycles (s : Stage n) (a : Args) (d : CyclingState) (s' : Stage n) (a' : Args) :
    Prop where
  stage : s' = { s with
    startTime := a.currentInterval, events := [], processing := false, vars := s'.vars }
  rests : s'.InCycle d false
  same : Args.Same a a'
  abort : a'.whiteBox.abortOnOffCycle = false
  systemOn : a'.systemOn = a.systemOn
  mode : a'.cycleInfo.mode = d.mode
  level : a'.vOutputs.level = update a.vOutputs.level s.output.port d.value

omit [CycleTimes] in
/-- Switching the output once more changes nothing. -/
theorem Cycles.of_started {s₁ : Stage n} {a a₁ : Args} (h : s₁.InCycle c true)
    (hstage : s₁ = { s with startTime := a.currentInterval, events := s₁.events, vars := s₁.vars })
    (hsame : Args.Same a a₁) (habort : a₁.whiteBox.abortOnOffCycle = false)
    (hon : a₁.systemOn = a.systemOn) (hmode : a₁.cycleInfo.mode = c.mode)
    (hlevel : a₁.vOutputs.level = update a.vOutputs.level s.output.port c.value) :
    Cycles s a c { s₁ with events := [], processing := false, vars := c.started s₁.vars }
      (s₁.switched a₁ c) := by
  obtain ⟨hsame', hbox, hon', hinfo, hlevel'⟩ := s₁.switched_spec a₁ c
  have hport : s₁.output = s.output := by rw [hstage]
  refine ⟨?_, inCycle_started h, hsame.trans hsame', by rw [hbox, habort], hon'.trans hon,
    by rw [hinfo, hmode], ?_⟩
  · rw [hstage]
  · rw [hlevel', hlevel, hport, update_idem]

omit [CycleTimes] in
theorem other_other (c : CyclingState) : c.other.other = c := by cases c <;> rfl

/-- The cycle a stage comes to rest in: an abort ends the first one at once. -/
def restsIn (a : Args) (c : CyclingState) : CyclingState :=
  if a.whiteBox.abortOnOffCycle then c.other else c

/-- A stage in the first state of a cycle that was aborted. -/
theorem InCycle.settle_aborts (h : s.InCycle c true) (hlive : s.Live m)
    (hevents : s.events = [c.timeExpired, c.startingTimeExpired])
    (habort : m.args.whiteBox.abortOnOffCycle = false) :
    ∃ s' a', settle (k + 4) s m = some (s', { m with args := a' })
      ∧ Cycles s m.args c.other s' a' := by
  have ht : InCycle { s with events := [c.startingTimeExpired] } c true :=
    ⟨h.active, h.cycling, h.cycle, h.starting⟩
  -- the other cycle starts, with the event of this one still before its own
  rw [settle_cons hevents (ht.aborts hlive (by simp))]
  have hnext : InCycle (inStarting { s with events := [c.startingTimeExpired] } m.args c.other)
      c.other true := by
    cases c with
    | OnCycle | OffCycle => exact ⟨h.active, h.cycling, rfl, rfl⟩
  have hqueue : (inStarting { s with events := [c.startingTimeExpired] } m.args c.other).events
      = [c.startingTimeExpired] ++ [c.other.startingTimeExpired] := by
    simp [inStarting, queued, timed, habort]
  have hpass : ∀ e ∈ [c.startingTimeExpired], passed c.other e := by
    intro e he
    rw [mem_singleton.mp he, passed, other_other]
    exact .inr (.inl rfl)
  have hloop := hnext.settle_passes (k := k + 2)
    (m := { m with args := startedArgs { s with events := [c.startingTimeExpired] } m.args c.other })
    hqueue hpass
  rw [length_singleton, Nat.add_comm 1] at hloop
  have hrest : InCycle
      { inStarting { s with events := [c.startingTimeExpired] } m.args c.other with
        events := [c.other.startingTimeExpired] } c.other true :=
    ⟨hnext.active, hnext.cycling, hnext.cycle, hnext.starting⟩
  obtain ⟨hsame, habort', hon, hmode, hlevel⟩ :=
    startedArgs_spec { s with events := [c.startingTimeExpired] } m.args c.other
  refine ⟨_, _, hloop.trans (hrest.settle_starts hlive rfl), ?_⟩
  exact Cycles.of_started hrest rfl hsame habort' hon hmode hlevel

/-- **A cycle begins, and the stage comes to rest.** -/
theorem settle_begun (s : Stage n) (a : Args) (v : StateVars)
    (h : InCycle { s.inStarting a c with vars := v } c true) (hlive : s.Live m)
    (hargs : m.args = s.startedArgs a c) (hpass : ∀ e ∈ s.events, passed c e) :
    ∃ s' a', settle (s.events.length + (k + 4)) { s.inStarting a c with vars := v } m
        = some (s', { m with args := a' })
      ∧ Cycles s a (restsIn a c) s' a' := by
  obtain ⟨hsame, habort, hon, hmode, hlevel⟩ := s.startedArgs_spec a c
  rw [← hargs] at hsame habort hon hmode hlevel
  have hqueue : Stage.events { s.inStarting a c with vars := v }
      = s.events ++ ((if a.whiteBox.abortOnOffCycle then [c.timeExpired] else [])
        ++ [c.startingTimeExpired]) := by
    simp [inStarting, queued, timed]
  rw [h.settle_passes hqueue hpass]
  have h' : InCycle { s.inStarting a c with
      vars := v
      events := (if a.whiteBox.abortOnOffCycle then [c.timeExpired] else [])
        ++ [c.startingTimeExpired] } c true :=
    ⟨h.active, h.cycling, h.cycle, h.starting⟩
  unfold restsIn
  cases habort₀ : a.whiteBox.abortOnOffCycle with
  | false =>
    simp only [habort₀] at h' ⊢
    refine ⟨_, _, h'.settle_starts hlive rfl, ?_⟩
    exact Cycles.of_started h' rfl hsame habort hon hmode hlevel
  | true =>
    simp only [habort₀] at h' ⊢
    obtain ⟨s', a', hsettle, hcycles⟩ := h'.settle_aborts hlive rfl habort
    refine ⟨s', a', hsettle, ?_⟩
    constructor
    case stage => exact hsame.now ▸ hcycles.stage
    case rests => exact hcycles.rests
    case same => exact hsame.trans hcycles.same
    case abort => exact hcycles.abort
    case systemOn => exact hcycles.systemOn.trans hon
    case mode => exact hcycles.mode
    case level =>
      rw [hcycles.level, hlevel]
      exact update_idem _ _ _

end Stage

end ColonyCore.Storm
