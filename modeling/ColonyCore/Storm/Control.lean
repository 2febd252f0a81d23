/-
  ColonyCore.Storm.Control
  **`Control::execute`: AN EQUIPMENT AND THE ARGUMENTS OF A CALL.**

  Every call has its own `Args_T`, so at its start all pointers are to earlier calls.

    • `Lawful` — what the calls of an equipment need: every call climbs the ladder, and a
      change of the mode asks every stage,
    • `execute_uses_dead` — a call uses the arguments of an earlier one EXACTLY when it
      resets the equipment, or switches it off, with a stage active,
    • `stage_events_end` — whatever the cycle times, no run of calls is caught in a loop.
-/
import ColonyCore.Storm.Equipment
import ColonyCore.Lib.Interleaving

namespace ColonyCore.Storm

open ColonyCore.System Interleaving IndoorHeating

/-- What `Control` reads of a model point. -/
structure Mp (α : Type) where
  valid : Bool
  data : α
  sequenceNumber : BitVec 16

namespace Control

/-! ## §1. The code. -/

variable [CycleTimes]

/-- `Input_T`, as read by one call. -/
structure Inputs where
  systemConfig : Mp SystemConfig
  pvOut : Mp ℚ
  vOutputs : Mp VirtualOutputs
  equipmentBeginTimes : Mp EquipmentTimes
  systemOn : Mp Bool
  cycleInfo : Mp CycleInfo
  operatingModeChanged : Mp Bool
  whiteBox : Mp WhiteBox

def Inputs.valid (ins : Inputs) : Bool :=
  ins.systemConfig.valid && ins.vOutputs.valid && ins.equipmentBeginTimes.valid
    && ins.systemOn.valid && ins.cycleInfo.valid && ins.operatingModeChanged.valid
    && ins.whiteBox.valid && ins.pvOut.valid

/-- The local variable `args`. -/
def Inputs.args (ins : Inputs) (currentInterval : Precision) : Args where
  pvOut := ins.pvOut.data
  systemConfig := ins.systemConfig.data
  currentInterval := currentInterval
  equipmentBeginTimes := ins.equipmentBeginTimes.data
  whiteBox := ins.whiteBox.data
  vOutputs := ins.vOutputs.data
  cycleInfo := ins.cycleInfo.data
  systemOn := ins.systemOn.data

/-- A call: what it reads, its time, and what is left in the memory of earlier calls. -/
structure Call where
  inputs : Inputs
  currentInterval : Precision
  dead : Args

/-- What a call does to the output model points. -/
inductive Outcome where
  /-- An input is invalid. -/
  | skipped
  /-- `vOutputs`, `cycleInfo` and `systemOn` are written. -/
  | wrote (a : Args)
  /-- `setSafeAllOff`; the call returns false. -/
  | failed
  /-- Another operating mode. -/
  | inactive

/-- The component: its equipment and `m_sysCfgSequenceNumber`. -/
structure State (n : Nat) where
  bank : Bank n
  sysCfgSequenceNumber : BitVec 16

variable {n : Nat}

/-- The arguments when the configuration or the mode has changed. -/
def cleared (a : Args) : Args :=
  { a with
    systemOn := false
    cycleInfo := { a.cycleInfo with mode := .eOFF }
    vOutputs := a.vOutputs.setCapacityOff }

variable (e : Equipment n)

/-- The part of `execute` for the equipment's own operating mode. -/
def executeMatching (changed : Bool) (b : Bank n) : Option (Bank n × Bool) := do
  let b ← if changed then
      e.reset { b with memory := { b.memory with args := cleared b.memory.args } }
    else some b
  e.executeActive b

/-- The memory at the start of a call. -/
def Call.memory (call : Call) (m : Memory) : Memory where
  args := call.inputs.args call.currentInterval
  call := m.call + 1
  dead := call.dead
  usedDead := m.usedDead

/-- The call finds another configuration, or that the mode has changed. -/
def changes (c : State n) (call : Call) : Bool :=
  call.inputs.systemConfig.sequenceNumber != c.sysCfgSequenceNumber
    || call.inputs.operatingModeChanged.data

/-- **`Control::execute`.** -/
def execute (c : State n) (call : Call) : Option (State n × Outcome) :=
  if call.inputs.valid = false then some (c, .skipped)
  else
    let b : Bank n := { c.bank with memory := call.memory c.bank.memory }
    if call.inputs.systemConfig.data.currentOpMode = e.operatingMode then do
      let (b, ok) ← executeMatching e (changes c call) b
      let c := ⟨b, if changes c call then call.inputs.systemConfig.sequenceNumber
        else c.sysCfgSequenceNumber⟩
      some (c, if ok then .wrote b.memory.args else .failed)
    else do
      let b ← e.executeOff b
      some ({ c with bank := b }, .inactive)

/-- `SEQUENCE_NUMBER_UNKNOWN`. -/
def SEQUENCE_NUMBER_UNKNOWN : BitVec 16 := 0#16

/-- `start`: the equipment is reset, before any call. -/
def start (stages : Fin n → Stage n) (a : Args) : Option (State n) := do
  let b ← e.reset ⟨stages, ⟨a, 0, a, false⟩⟩
  some ⟨b, SEQUENCE_NUMBER_UNKNOWN⟩

/-- The state after a call. -/
def step (c : State n) (call : Call) : Option (State n) :=
  (execute e c call).map Prod.fst

/-! ## §2. Lawful equipment. -/

open Bank

/-- **What the calls of an equipment need.** -/
structure Lawful (e : Equipment n) (port : Fin n → Port) (supported : SystemConfig → Bool) :
    Prop where
  active : ∀ b top, OnLadder port top b →
    ∃ b' top', e.executeActive b = some (b', supported b.memory.args.systemConfig)
      ∧ Climb port top b top' b'
  off : ∀ b, e.executeOff b = Equipment.modeToOff b
  reset : ∀ b bound rests, Standing port bound rests b → e.reset b = Equipment.modeToOff b

variable {e : Equipment n} {port : Fin n → Port} {supported : SystemConfig → Bool} {b : Bank n}
  {top : Top n}

omit [CycleTimes] in
theorem Standing.mono {bound bound' : Nat} {rests : Fin n → Rest}
    (h : Standing port bound rests b) (hle : bound ≤ bound') : Standing port bound' rests b :=
  fun i => ⟨(h i).quiet, (h i).rests,
    ⟨(h i).wired.index, (h i).wired.port, fun p hp => ((h i).wired.older p hp).trans_le hle⟩,
    (h i).linked⟩

omit [CycleTimes] in
theorem outputs_cleared (a : Args) : HasOutputs port none (cleared a) := by
  refine ⟨fun i => ?_, rfl⟩
  cases hp : port i with
  | y1 => rfl
  | w k => rfl

/-- **A call in the equipment's own mode**: the outputs are those of the ladder, if they were
    so before or the equipment is reset. -/
theorem Lawful.matching (he : Lawful e port supported) (changed : Bool)
    (h : Standing port b.memory.call (restAt top) b) :
    ∃ b' top', executeMatching e changed b
        = some (b', supported b.memory.args.systemConfig)
      ∧ OnLadder port top' b'
      ∧ b'.memory.call = b.memory.call
      ∧ b'.memory.usedDead = (b.memory.usedDead || (changed && b.anyActive))
      ∧ (changed = true ∨ HasOutputs port top b.memory.args → HasOutputs port top' b'.memory.args) := by
  cases changed with
  | false =>
    obtain ⟨b', top', hactive, hclimb⟩ := he.active b top (Standing.mono h (Nat.le_succ _))
    refine ⟨b', top', hactive, hclimb.standing, ?_, ?_, ?_⟩
    · rw [hclimb.memory]
    · rw [hclimb.memory, Bool.false_and, Bool.or_false]
    · exact fun hor => hclimb.outputs (hor.resolve_left Bool.false_ne_true)
  | true =>
    let b₀ : Bank n := { b with memory := { b.memory with args := cleared b.memory.args } }
    obtain ⟨b₁, d, hoff, hstanding, hmemory⟩ := Standing.modeToOff (b := b₀) h
    have hcall : b₁.memory.call = b.memory.call := by rw [hmemory]
    have hargs : b₁.memory.args = cleared b.memory.args := by rw [hmemory]
    obtain ⟨b', top', hactive, hclimb⟩ := he.active b₁ none
      (Standing.mono hstanding (by rw [hcall]; exact Nat.le_succ _))
    refine ⟨b', top', ?_, hclimb.standing, ?_, ?_, fun _ => hclimb.outputs ?_⟩
    · show (e.reset b₀).bind _ = _
      rw [he.reset b₀ _ _ h, hoff]
      show e.executeActive b₁ = _
      rw [hactive, hargs]
      rfl
    · rw [hclimb.memory]
      exact hcall
    · rw [hclimb.memory]
      show b₁.memory.usedDead = _
      rw [hmemory]
      rfl
    · rw [hargs]
      exact outputs_cleared _

/-! ## §3. The arguments of earlier calls. -/

/-- The call resets the equipment or switches it off. -/
def goesOff (e : Equipment n) (c : State n) (call : Call) : Bool :=
  call.inputs.valid
    && (call.inputs.systemConfig.data.currentOpMode != e.operatingMode || changes c call)

/-- **One call**: it returns, and it uses the arguments of an earlier call exactly when it
    goes off with a stage active. -/
theorem Lawful.call (he : Lawful e port supported) {c : State n}
    (h : OnLadder port top c.bank) (call : Call) :
    ∃ c' top', step e c call = some c'
      ∧ OnLadder port top' c'.bank
      ∧ c'.bank.memory.usedDead
        = (c.bank.memory.usedDead || (goesOff e c call && c.bank.anyActive)) := by
  let b : Bank n := { c.bank with memory := call.memory c.bank.memory }
  unfold step execute goesOff
  cases hvalid : call.inputs.valid with
  | false => exact ⟨c, top, rfl, h, by simp⟩
  | true =>
    rw [if_neg (Bool.noConfusion : ¬ true = false)]
    by_cases hmode : call.inputs.systemConfig.data.currentOpMode = e.operatingMode
    · obtain ⟨b', top', hmatching, hstanding, _, hdead, _⟩ :=
        he.matching (b := b) (changes c call) h
      refine ⟨⟨b', if changes c call then call.inputs.systemConfig.sequenceNumber
        else c.sysCfgSequenceNumber⟩, top', ?_, hstanding, ?_⟩
      · show Option.map _ (if _ then _ else _) = _
        rw [if_pos hmode]
        show Option.map _ ((executeMatching e (changes c call) b).bind _) = _
        rw [hmatching]
        rfl
      · rw [hdead, hmode, bne_self_eq_false]
        rfl
    · obtain ⟨b', d, hoff, hstanding, hmemory⟩ := Standing.modeToOff (b := b) h
      refine ⟨{ c with bank := b' }, none, ?_, Standing.mono hstanding ?_, ?_⟩
      · show Option.map _ (if _ then _ else _) = _
        rw [if_neg hmode]
        show Option.map _ ((e.executeOff b).bind _) = _
        rw [he.off, hoff]
        rfl
      · rw [hmemory]
        exact Nat.le_succ _
      · rw [bne_iff_ne.mpr hmode]
        show b'.memory.usedDead = _
        rw [hmemory]
        rfl

/-- The initial stages: off, with null pointers. -/
theorem Lawful.start (he : Lawful e port supported) {stages : Fin n → Stage n} (a : Args)
    (h : Standing port 0 (restAt none) ⟨stages, ⟨a, 0, a, false⟩⟩) :
    ∃ c, start e stages a = some c
      ∧ OnLadder port none c.bank
      ∧ c.bank.memory.usedDead = false ∧ c.sysCfgSequenceNumber = SEQUENCE_NUMBER_UNKNOWN := by
  obtain ⟨b', d, hoff, hstanding, hmemory⟩ :=
    Standing.modeToOff (b := ⟨stages, ⟨a, 0, a, false⟩⟩) h
  have hidle : anyActive ⟨stages, ⟨a, 0, a, false⟩⟩ = false := by
    rw [anyActive, List.any_eq_false]
    intro i _
    rw [(h i).not_active fun _ => Rest.noConfusion]
    exact Bool.false_ne_true
  refine ⟨⟨b', SEQUENCE_NUMBER_UNKNOWN⟩, ?_, Standing.mono hstanding (Nat.zero_le _), ?_, rfl⟩
  · show (e.reset _).bind _ = _
    rw [he.reset _ _ _ h, hoff]
    rfl
  · show b'.memory.usedDead = false
    rw [hmemory, hidle]
    rfl

/-- No stage is active when a call goes off. -/
def Idle (e : Equipment n) (c : State n) (call : Call) : Prop :=
  goesOff e c call = true → c.bank.anyActive = false

/-- **Runs of calls.** -/
theorem Lawful.run (he : Lawful e port supported) {stages : Fin n → Stage n} (a : Args)
    (h : Standing port 0 (restAt none) ⟨stages, ⟨a, 0, a, false⟩⟩) (calls : List Call) :
    ∃ c c', Control.start e stages a = some c ∧ run (step e) c calls = some c'
      ∧ (∃ top, OnLadder port top c'.bank)
      ∧ (c'.bank.memory.usedDead = false ↔ Along (step e) (Idle e) c calls) := by
  obtain ⟨c, hstart, hstanding, hdead, _⟩ := he.start a h
  have hstep (c : State n) (call : Call)
      (hI : ∃ top, OnLadder port top c.bank) :
      ∃ c', step e c call = some c'
        ∧ (∃ top, OnLadder port top c'.bank)
        ∧ (c'.bank.memory.usedDead = false ↔ c.bank.memory.usedDead = false ∧ Idle e c call) := by
    obtain ⟨top, hstanding⟩ := hI
    obtain ⟨c', top', hcall, hstanding', hdead'⟩ := he.call hstanding call
    refine ⟨c', hcall, ⟨top', hstanding'⟩, ?_⟩
    rw [hdead', Bool.or_eq_false_iff, Bool.and_eq_false_imp]
    rfl
  obtain ⟨c', hrun, hstanding', hflag⟩ := run_flag _ _ _ hstep ⟨none, hstanding⟩ calls
  exact ⟨c, c', hstart, hrun, hstanding', by simpa [hdead] using hflag⟩

end Control

open Control Bank

/-! ## §4. The two equipments. -/

theorem Cooling.reconfigure_eq {i : Fin 1} {bound : Nat} {s : Stage 1}
    (h : Wired Cooling.port bound i s) : Equipment.reconfigure 0 0 s = s := by
  have hindex : s.systemIndex = 0 := Fin.ext (h.index.trans (by omega))
  have hport : s.output.port = .y1 := h.port
  cases s with
  | mk systemIndex output =>
    cases output with
    | outdoor =>
      obtain rfl : systemIndex = 0 := hindex
      rfl
    | indoor => cases hport

theorem Cooling.lawful [CycleTimes] : Lawful Cooling.equipment Cooling.port
    (fun config => decide (config.numCompressorStages = 1)) where
  active _ _ h := Cooling.executeActive_climb h
  off _ := rfl
  reset b _ _ h := by
    have hsame : (fun i => Equipment.reconfigure 0 0 (b.stages i)) = b.stages :=
      funext fun i => Cooling.reconfigure_eq (h i).wired
    show Equipment.modeToOff { b with stages := _ } = _
    rw [hsame]

theorem IndoorHeating.reconfigure_eq {i : Fin 3} {bound : Nat} {s : Stage 3}
    (h : Wired port bound i s) : Equipment.reconfigure i.castSucc i s = s := by
  have hindex : s.systemIndex = i.castSucc := Fin.ext h.index
  have hport : s.output.port = .w i := h.port
  cases s with
  | mk systemIndex output =>
    cases output with
    | outdoor => cases hport
    | indoor k controlFan =>
      obtain rfl : systemIndex = i.castSucc := hindex
      obtain rfl : k = i := Port.w.inj hport
      rfl

theorem IndoorHeating.lawful [CycleTimes] : Lawful equipment port
    (fun config => decide (config.numIndoorStages ∈ [1, 2, 3])) where
  active _ _ h := executeActive_climb h
  off _ := rfl
  reset b _ _ h := by
    have hsame : (fun i => Equipment.reconfigure i.castSucc i (b.stages i)) = b.stages :=
      funext fun i => reconfigure_eq (h i).wired
    show Equipment.modeToOff { b with stages := _ } = _
    rw [hsame]

/-- The stage objects of the thermostat. -/
def Cooling.stages (_ : Fin 1) : Stage 1 := .init 0 .outdoor

variable (controlFan : Fin 3 → Bool)

def IndoorHeating.stages (i : Fin 3) : Stage 3 :=
  .init i.castSucc (.indoor i (controlFan i))

theorem rung_init {n : Nat} {port : Fin n → Port} {i : Fin n} {systemIndex : Fin 4}
    {output : Output} (hindex : systemIndex.val = i.val) (hport : output.port = port i) :
    Rung port 0 i .off (.init systemIndex output) :=
  ⟨⟨rfl, rfl⟩, rfl, ⟨hindex, hport, fun _ hp => by cases hp⟩, fun hne => absurd rfl hne⟩

theorem Cooling.standing_start (a : Args) :
    Standing Cooling.port 0 (restAt none) ⟨Cooling.stages, ⟨a, 0, a, false⟩⟩ :=
  fun i => rung_init (by omega) rfl

theorem IndoorHeating.standing_start (a : Args) :
    Standing port 0 (restAt none) ⟨stages controlFan, ⟨a, 0, a, false⟩⟩ :=
  fun _ => rung_init rfl rfl

/-- **STAGE ACTIONS AND LIVE ARGUMENTS**, whatever the cycle times: every run of calls returns,
    and it never uses the arguments of an earlier call exactly if no stage is active at any call
    that resets the equipment or finds another operating mode. -/
theorem control_args_live [CycleTimes] (a : Args) (calls : List Call) :
    (∃ c c', start Cooling.equipment Cooling.stages a = some c
      ∧ run (step Cooling.equipment) c calls = some c'
      ∧ (c'.bank.memory.usedDead = false
        ↔ Along (step Cooling.equipment) (Idle Cooling.equipment) c calls))
    ∧ ∃ c c', start equipment (stages controlFan) a = some c
      ∧ run (step equipment) c calls = some c'
      ∧ (c'.bank.memory.usedDead = false
        ↔ Along (step equipment) (Idle equipment) c calls) := by
  obtain ⟨c, c', hstart, hrun, _, hlive⟩ :=
    Cooling.lawful.run a (Cooling.standing_start a) calls
  obtain ⟨d, d', hstart', hrun', _, hlive'⟩ :=
    lawful.run a (standing_start controlFan a) calls
  exact ⟨⟨c, c', hstart, hrun, hlive⟩, d, d', hstart', hrun', hlive'⟩

/-- **EVENT PROCESSING ENDS**, whatever the cycle times: in every run of calls every loop over
    the events of a stage comes to its end, none of the events finds the queue full, and
    between the calls all queues are empty. -/
theorem stage_events_end [CycleTimes] (a : Args) (calls : List Call) :
    (∃ c c', start Cooling.equipment Cooling.stages a = some c
      ∧ run (step Cooling.equipment) c calls = some c'
      ∧ ∀ i, Quiet (c'.bank.stages i))
    ∧ ∃ c c', start equipment (stages controlFan) a = some c
      ∧ run (step equipment) c calls = some c'
      ∧ ∀ i, Quiet (c'.bank.stages i) := by
  obtain ⟨c, c', hstart, hrun, ⟨_, hstanding⟩, _⟩ :=
    Cooling.lawful.run a (Cooling.standing_start a) calls
  obtain ⟨d, d', hstart', hrun', ⟨_, hstanding'⟩, _⟩ :=
    lawful.run a (standing_start controlFan a) calls
  exact ⟨⟨c, c', hstart, hrun, fun i => (hstanding i).quiet⟩,
    d, d', hstart', hrun', fun i => (hstanding' i).quiet⟩

/-! A run that breaks it: cooling starts, and then the thermostat is switched off. -/

/-- The samples run on exact numbers; half a load is exact in `float` too. -/
instance sampleTimes : CycleTimes := DutyCycle.cycleTimes ⟨id, monotone_id, fun _ _ => rfl⟩

/-- A stage for the whole load. -/
def sampleStage : StageConfig where
  lowerBound := 0
  upperBound := 100
  minIndoorFan := 0
  maxIndoorFan := 1000
  minOnTime := 300#32
  minOffTime := 300#32
  cph := .e3CPH
  bounds := by decide

variable (mode : OperatingMode)

def sampleConfig : SystemConfig where
  stages _ := sampleStage
  currentOpMode := mode
  outdoorUnitType := .eAC
  indoorUnitType := .eAIR_HANDLER
  numCompressorStages := 1
  numIndoorStages := 1
  totalStages := 2
  fanContinuousSpeed := 0
  gain := 0
  reset := 0
  maxPvOut := 100

def sampleArgs : Args :=
  ⟨50, sampleConfig mode, .ofSeconds 600#32, .zero, ⟨false, false⟩, .zero, .zero, false⟩

def sampleCall (sequenceNumber : BitVec 16) : Call where
  inputs :=
    ⟨⟨true, sampleConfig mode, sequenceNumber⟩, ⟨true, 50, 1#16⟩, ⟨true, .zero, 1#16⟩,
      ⟨true, .zero, 1#16⟩, ⟨true, false, 1#16⟩, ⟨true, .zero, 1#16⟩, ⟨true, false, 1#16⟩,
      ⟨true, ⟨false, false⟩, 1#16⟩⟩
  currentInterval := .ofSeconds 600#32
  dead := sampleArgs mode

/-- The second call checks the on-time of the active stage, in the `Args_T` of the first. -/
theorem mode_off_uses_dead :
    ((start Cooling.equipment Cooling.stages (sampleArgs .eCOOLING)).bind fun c =>
      (run (step Cooling.equipment) c
        [sampleCall .eCOOLING 1#16, sampleCall .eOFF 2#16]).map fun c => c.bank.memory.usedDead)
      = some true := by
  decide +kernel

end ColonyCore.Storm
