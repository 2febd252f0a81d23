/-
  ColonyCore.Storm.OperatingMode
  **THE OPERATING MODE AND THE CONFIGURATION IT PUBLISHES
  (`Storm/Component/OperatingMode.cpp`).**

  The component resolves the user's mode and derives the system configuration from it and
  from the equipment and comfort configurations.  It derives it again only where
  `setNewOperatingMode` is called AND finds a new mode or a new sequence number.

    • `setSystemConfig_inj`  — `isDataEqual_` never takes two derived configurations for one
      another, so a derived configuration is published whenever it is new,
    • `core_execute`         — what one pass publishes,
    • `allowed_target`       — the mode of a pass is one the equipment has,
    • `target_eq_none_iff`   — the passes that look at no configuration,
    • `counted_execute`      — the forced-off counter keeps counting this component.
-/
import ColonyCore.Storm.Components

namespace ColonyCore.Storm

open ColonyCore.System Interleaving
open Dm (LockRequest SeqNum advanceSequenceNumber SEQUENCE_NUMBER_UNKNOWN)

/-! ## §1. The published configuration. -/

namespace SystemConfig

/-- A stage of the off configuration. -/
def offStage : StageConfig where
  lowerBound := 0
  upperBound := 1
  minIndoorFan := 0
  maxIndoorFan := 0
  minOnTime := 300#32
  minOffTime := 300#32
  cph := .e3CPH
  bounds := by decide

/-- `MpSystemConfig::setToOff`. -/
def setToOff : SystemConfig where
  stages _ := offStage
  currentOpMode := .eOFF
  outdoorUnitType := .eAC
  indoorUnitType := .eFURNACE
  numCompressorStages := 0
  numIndoorStages := 0
  totalStages := 0
  fanContinuousSpeed := 0
  gain := 1
  reset := 1
  maxPvOut := 1

/-- Two stages, as `isDataEqual_` compares them. -/
def stageEqual (a b : StageConfig) : Bool :=
  areFloatsEqual a.lowerBound b.lowerBound && areFloatsEqual a.upperBound b.upperBound
    && a.maxIndoorFan == b.maxIndoorFan && a.minIndoorFan == b.minIndoorFan
    && a.cph == b.cph && a.minOffTime == b.minOffTime && a.minOnTime == b.minOnTime

/-- `MpSystemConfig::isDataEqual_`: the stages in use, and all other fields but
`totalStages`. -/
def isDataEqual (a b : SystemConfig) : Bool :=
  decide (∀ i : Fin 4, i.val < a.totalStages → stageEqual (a.stages i) (b.stages i) = true)
    && a.currentOpMode == b.currentOpMode && a.indoorUnitType == b.indoorUnitType
    && a.outdoorUnitType == b.outdoorUnitType
    && a.numCompressorStages == b.numCompressorStages && a.numIndoorStages == b.numIndoorStages
    && a.fanContinuousSpeed == b.fanContinuousSpeed && areFloatsEqual a.gain b.gain
    && areFloatsEqual a.reset b.reset && areFloatsEqual a.maxPvOut b.maxPvOut

end SystemConfig

namespace Component.OperatingMode

/-- The configuration of the `i`-th stage: `pv` is 100 per stage. -/
def stageOf (p : ComfortStageParameters) (fan : Nat) (i : Fin 4) : StageConfig where
  lowerBound := 100 * i.val
  upperBound := 100 * i.val + 100
  minIndoorFan := fan
  maxIndoorFan := fan
  minOnTime := p.minOnTime
  minOffTime := p.minOffTime
  cph := p.cph
  bounds := by linarith

/-- The loop over the first `n` stages; `maxPvOut` is the upper bound of the last. -/
def fillStages (c : SystemConfig) (n : Nat) (p : ComfortStageParameters) (fan : Nat) :
    SystemConfig :=
  { c with
    stages := fun i => if i.val < n then stageOf p fan i else c.stages i
    maxPvOut := if n = 0 then c.maxPvOut else 100 * n }

/-- `STORM_DM_MP_VIRTUAL_OUTPUTS_ON`, or a part of it for a variable speed blower. -/
def fanSpeed (hasVspBlower : Bool) (vsp : Nat) : Nat :=
  if hasVspBlower = false then VIRTUAL_OUTPUTS_ON else vsp

variable (newOpMode : OperatingMode)

/-- `setSystemConfig`. -/
def setSystemConfig (eq : ValidEquipment) (comfort : ComfortConfig) :
    SystemConfig :=
  let c : SystemConfig :=
    { SystemConfig.setToOff with
      currentOpMode := newOpMode
      outdoorUnitType := eq.oduType
      indoorUnitType := eq.iduType
      fanContinuousSpeed := fanSpeed eq.hasVspBlower 500 }
  match newOpMode with
  | .eCOOLING =>
    fillStages
      { c with
        numCompressorStages := eq.numCompStages
        numIndoorStages := 0
        totalStages := eq.numCompStages
        gain := 15
        reset := 300000 }
      eq.numCompStages comfort.compressorCooling (fanSpeed eq.hasVspBlower 850)
  | .eID_HEATING =>
    fillStages
      { c with
        numCompressorStages := 0
        numIndoorStages := eq.numIduHeatingStages
        totalStages := eq.numIduHeatingStages
        gain := 20
        reset := 300000 }
      eq.numIduHeatingStages comfort.indoorHeating
      (if eq.iduType = .eFURNACE then VIRTUAL_OUTPUTS_OFF else VIRTUAL_OUTPUTS_ON)
  | _ => c

/-! ## §2. The code. -/

/-- The members. -/
structure Members where
  prevOperatingMode : OperatingMode
  equipCfgSequenceNumber : SeqNum
  comfortCfgSequenceNumber : SeqNum
  inAuto : Bool
  forcedOff : Bool

/-- `Input_T`; the forced-off counter is an output as well, and stands there. -/
structure Inputs where
  setpoints : Mp Setpoints
  userMode : Mp ThermostatMode
  idt : Mp ℚ
  equipmentBeginTimes : Mp EquipmentTimes
  systemOn : Mp Bool
  equipmentConfig : Mp ValidEquipment
  comfortConfig : Mp ComfortConfig

/-- `Output_T`. -/
structure Outputs where
  operatingModeChanged : Mp Bool
  pulseResetPi : Mp Bool
  systemForcedOffRefCnt : Mp (BitVec 32)
  systemConfig : Mp SystemConfig
  noActiveConditioningAlarm : Mp SimpleAlarm
  userConfigModeAlarm : Mp SimpleAlarm

/-- The component and what it writes. -/
structure State where
  members : Members
  outs : Outputs

/-- The constructor. -/
def Members.init : Members :=
  ⟨.eUNKNOWN, SEQUENCE_NUMBER_UNKNOWN, SEQUENCE_NUMBER_UNKNOWN, false, false⟩

/-- `start`. -/
def Members.start (m : Members) : Members :=
  { m with prevOperatingMode := .eUNKNOWN, inAuto := false }

/-- One of the inputs is invalid. -/
def Inputs.bad (ins : Inputs) : Bool :=
  !(ins.idt.valid && ins.userMode.valid && ins.setpoints.valid && ins.systemOn.valid
    && ins.equipmentBeginTimes.valid && ins.comfortConfig.valid && ins.equipmentConfig.valid)

variable (eq : ValidEquipment)

/-- `haveCooling`. -/
def haveCooling : Bool := decide (eq.numCompStages > 0)

/-- `haveHeatPump`. -/
def haveHeatPump : Bool :=
  decide (eq.oduType = .eHP) && decide (eq.numCompStages > 0)

/-- `haveHeating`. -/
def haveHeating : Bool :=
  haveHeatPump eq || decide (eq.numIduHeatingStages > 0)

variable (s : State)

/-- `setNoActiveConditioningAlarm`: the counter is changed on transitions only. -/
def setNoActiveConditioningAlarm (alarmIsActive : Bool) : State :=
  let outs := { s.outs with
    noActiveConditioningAlarm :=
      SimpleAlarm.setAlarm s.outs.noActiveConditioningAlarm alarmIsActive alarmIsActive }
  if alarmIsActive = s.members.forcedOff then { s with outs := outs }
  else
    { members := { s.members with forcedOff := alarmIsActive }
      outs := { outs with
        systemForcedOffRefCnt :=
          if alarmIsActive then RefCounter.increment outs.systemForcedOffRefCnt
          else RefCounter.decrement outs.systemForcedOffRefCnt } }

/-- `determineAllowedModes`: the alarm of a system that can neither cool nor heat. -/
def determineAllowedModes (eq : ValidEquipment) : State :=
  setNoActiveConditioningAlarm s (!haveCooling eq && !haveHeating eq)

/-- Heating without a heat pump is indoor heating. -/
def resolve (haveHeatPump : Bool) : OperatingMode :=
  if newOpMode = .eHEATING ∧ haveHeatPump = false then .eID_HEATING else newOpMode

/-- `setNewOperatingMode`; `ins` is for the sequence numbers. -/
def setNewOperatingMode (newOpMode : OperatingMode) (haveHeatPump : Bool)
    (eq : ValidEquipment) (comfort : ComfortConfig) (ins : Inputs) : State :=
  let newOpMode := resolve newOpMode haveHeatPump
  let modeChanged := decide (newOpMode ≠ s.members.prevOperatingMode)
  let s : State :=
    if modeChanged then
      { members := { s.members with prevOperatingMode := newOpMode }
        outs := { s.outs with
          operatingModeChanged := s.outs.operatingModeChanged.write true
          pulseResetPi := s.outs.pulseResetPi.write true } }
    else s
  let ccSeqNum := ins.comfortConfig.sequenceNumber
  let eqSeqNum := ins.equipmentConfig.sequenceNumber
  if modeChanged = true ∨ s.members.comfortCfgSequenceNumber ≠ ccSeqNum
      ∨ s.members.equipCfgSequenceNumber ≠ eqSeqNum then
    { members := { s.members with
        comfortCfgSequenceNumber := ccSeqNum, equipCfgSequenceNumber := eqSeqNum }
      outs := { s.outs with
        systemConfig := s.outs.systemConfig.writeData SystemConfig.isDataEqual
          (setSystemConfig newOpMode eq comfort) } }
  else s

/-- The user's mode, corrected to what the system is capable of, and whether that is an
alarm. -/
def correct (userMode : ThermostatMode) (eq : ValidEquipment) : ThermostatMode × Bool :=
  match userMode with
  | .eCOOLING => if haveCooling eq then (.eCOOLING, false) else (.eOFF, true)
  | .eHEATING => if haveHeating eq then (.eHEATING, false) else (.eOFF, true)
  | .eID_HEATING => if haveHeating eq then (.eID_HEATING, false) else (.eOFF, true)
  | .eAUTO =>
    if haveCooling eq && haveHeating eq then (.eAUTO, false)
    else if haveCooling eq then (.eCOOLING, false) else (.eHEATING, false)
  | .eOFF => (.eOFF, false)

/-- `OPTION_STORM_COMPONENT_OPERATING_MODE_SECONDS_HYSTERESIS`. -/
def timeHysteresis : Precision := .ofSeconds 600#32

/-- In auto mode, the system has been off for long enough to switch. -/
def maySwitch (ins : Inputs) (currentInterval : Precision) : Bool :=
  !ins.systemOn.data
    && expiredPrecision ins.equipmentBeginTimes.data.systemBeginOffTime timeHysteresis
      currentInterval

/-- The mode that is set; in auto mode it may be none. -/
def decision (m : Members) (ins : Inputs) (currentInterval : Precision) :
    ThermostatMode → Option OperatingMode
  | .eCOOLING => some .eCOOLING
  | .eHEATING => some .eHEATING
  | .eID_HEATING => some .eID_HEATING
  | .eOFF => some .eOFF
  | .eAUTO =>
    if m.inAuto = false then
      some (if ins.idt.data ≤ ins.setpoints.data.heatSetpt then .eHEATING else .eCOOLING)
    else if maySwitch ins currentInterval then
      some (if ins.idt.data ≥ ins.setpoints.data.coolSetpt - 1 then .eCOOLING else .eHEATING)
    else none

/-- The system is not forced off: its modes are decided. -/
def executeMode (ins : Inputs) (currentInterval : Precision) : State :=
  let eq := ins.equipmentConfig.data
  let corrected := correct ins.userMode.data eq
  let mode := decision s.members ins currentInterval corrected.1
  let s : State :=
    { members := { s.members with inAuto := decide (corrected.1 = .eAUTO) }
      outs := { s.outs with
        userConfigModeAlarm :=
          SimpleAlarm.setAlarm s.outs.userConfigModeAlarm corrected.2 corrected.2 } }
  match mode with
  | some newOpMode =>
    setNewOperatingMode s newOpMode (haveHeatPump eq) eq ins.comfortConfig.data ins
  | none => s

/-- The part of `execute` for valid inputs. -/
def executeValid (ins : Inputs) (currentInterval : Precision) : State :=
  let s := determineAllowedModes s ins.equipmentConfig.data
  if s.outs.systemForcedOffRefCnt.valid = false ∨ s.outs.systemForcedOffRefCnt.data > 0#32 then
    setNewOperatingMode s .eOFF (haveHeatPump ins.equipmentConfig.data) ins.equipmentConfig.data
      ins.comfortConfig.data ins
  else executeMode s ins currentInterval

/-- **`OperatingMode::execute`.** -/
def execute (ins : Inputs) (currentInterval : Precision) : State :=
  let s := { s with outs := { s.outs with
    operatingModeChanged := s.outs.operatingModeChanged.write false } }
  if ins.bad then
    setNoActiveConditioningAlarm
      (setNewOperatingMode s .eOFF false (ins.equipmentConfig.read .zero)
        (ins.comfortConfig.read .zero) ins)
      true
  else executeValid s ins currentInterval

/-! ## §3. What is derived. -/

@[simp] theorem currentOpMode_setSystemConfig (mode : OperatingMode) (eq : ValidEquipment)
    (comfort : ComfortConfig) : (setSystemConfig mode eq comfort).currentOpMode = mode := by
  cases mode <;> rfl

/-- Stages that compare equal are equal: their bounds do not depend on the configuration. -/
theorem stageOf_inj {p p' : ComfortStageParameters} {fan fan' : Nat} {i : Fin 4}
    (h : SystemConfig.stageEqual (stageOf p fan i) (stageOf p' fan' i) = true) :
    stageOf p fan i = stageOf p' fan' i := by
  simp only [SystemConfig.stageEqual, stageOf, Bool.and_eq_true, beq_iff_eq] at h
  obtain ⟨⟨⟨⟨⟨-, hfan⟩, -⟩, hcph⟩, hoff⟩, hon⟩ := h
  simp [stageOf, hfan, hcph, hoff, hon]

/-- The loop over the same number of stages. -/
theorem fillStages_inj {c : SystemConfig} {n : Nat} {p p' : ComfortStageParameters}
    {fan fan' : Nat} (h : ∀ i : Fin 4, i.val < n → SystemConfig.stageEqual
      ((fillStages c n p fan).stages i) ((fillStages c n p' fan').stages i) = true) :
    fillStages c n p fan = fillStages c n p' fan' := by
  have hstages : (fun i : Fin 4 => if i.val < n then stageOf p fan i else c.stages i)
      = fun i => if i.val < n then stageOf p' fan' i else c.stages i := by
    funext i
    split
    next hi =>
      have hstage := h i hi
      simp only [fillStages, if_pos hi] at hstage
      exact stageOf_inj hstage
    next => rfl
  simp [fillStages, hstages]

variable {mode : OperatingMode} {eq : ValidEquipment}

/-- **Two derived configurations that compare equal are equal.** -/
theorem setSystemConfig_inj {mode' : OperatingMode} {eq' : ValidEquipment}
    {comfort comfort' : ComfortConfig}
    (h : SystemConfig.isDataEqual (setSystemConfig mode eq comfort)
      (setSystemConfig mode' eq' comfort') = true) :
    setSystemConfig mode eq comfort = setSystemConfig mode' eq' comfort' := by
  simp only [SystemConfig.isDataEqual, Bool.and_eq_true, decide_eq_true_eq, beq_iff_eq] at h
  obtain ⟨⟨⟨⟨⟨⟨⟨⟨⟨hstages, hmode⟩, hidu⟩, hodu⟩, hcomp⟩, hindoor⟩, hfan⟩, -⟩, -⟩, -⟩ := h
  rw [currentOpMode_setSystemConfig, currentOpMode_setSystemConfig] at hmode
  subst hmode
  have hi : eq.iduType = eq'.iduType := by cases mode <;> exact hidu
  have ho : eq.oduType = eq'.oduType := by cases mode <;> exact hodu
  have hf : fanSpeed eq.hasVspBlower 500 = fanSpeed eq'.hasVspBlower 500 := by
    cases mode <;> exact hfan
  cases mode with
  | eCOOLING =>
    have hn : eq.numCompStages = eq'.numCompStages := hcomp
    simp only [setSystemConfig, hn, hi, ho, hf] at hstages ⊢
    exact fillStages_inj fun i => hstages i
  | eID_HEATING =>
    have hn : eq.numIduHeatingStages = eq'.numIduHeatingStages := hindoor
    simp only [setSystemConfig, hn, hi, ho, hf] at hstages ⊢
    exact fillStages_inj fun i => hstages i
  | eOFF | eHEATING | eUNKNOWN => simp [setSystemConfig, hi, ho, hf]

/-! ## §4. One pass. -/

/-- What `setNewOperatingMode` remembers and publishes. -/
structure Core where
  prevOperatingMode : OperatingMode
  equipCfgSequenceNumber : SeqNum
  comfortCfgSequenceNumber : SeqNum
  systemConfig : Mp SystemConfig

def State.core : Core where
  prevOperatingMode := s.members.prevOperatingMode
  equipCfgSequenceNumber := s.members.equipCfgSequenceNumber
  comfortCfgSequenceNumber := s.members.comfortCfgSequenceNumber
  systemConfig := s.outs.systemConfig

/-- The system is forced off when its mode is to be decided. -/
def forcedOff (eq : ValidEquipment) : Bool :=
  let cnt := (determineAllowedModes s eq).outs.systemForcedOffRefCnt
  !cnt.valid || decide (cnt.data > 0#32)

/-- The mode that a pass hands to `setNewOperatingMode`, if it calls it. -/
def target (ins : Inputs) (currentInterval : Precision) : Option OperatingMode :=
  let eq := ins.equipmentConfig.data
  if ins.bad || forcedOff s eq then some .eOFF
  else (decision s.members ins currentInterval (correct ins.userMode.data eq).1).map
    (resolve · (haveHeatPump eq))

/-- What a new mode, or a new sequence number, publishes. -/
def Core.republish (k : Core) (mode : OperatingMode) (ins : Inputs) : Core where
  prevOperatingMode := mode
  equipCfgSequenceNumber := ins.equipmentConfig.sequenceNumber
  comfortCfgSequenceNumber := ins.comfortConfig.sequenceNumber
  systemConfig :=
    if mode ≠ k.prevOperatingMode
        ∨ k.comfortCfgSequenceNumber ≠ ins.comfortConfig.sequenceNumber
        ∨ k.equipCfgSequenceNumber ≠ ins.equipmentConfig.sequenceNumber then
      k.systemConfig.writeData SystemConfig.isDataEqual
        (setSystemConfig mode (ins.equipmentConfig.read .zero) (ins.comfortConfig.read .zero))
    else k.systemConfig

/-- What a pass with this target publishes. -/
def Core.next (k : Core) (target : Option OperatingMode) (ins : Inputs) : Core :=
  match target with
  | some mode => k.republish mode ins
  | none => k

variable (s : State) (ins : Inputs) (currentInterval : Precision)

theorem core_alarm (alarmIsActive : Bool) :
    (setNoActiveConditioningAlarm s alarmIsActive).core = s.core := by
  unfold setNoActiveConditioningAlarm
  split <;> rfl

theorem inAuto_alarm (alarmIsActive : Bool) :
    (setNoActiveConditioningAlarm s alarmIsActive).members.inAuto = s.members.inAuto := by
  unfold setNoActiveConditioningAlarm
  split <;> rfl

theorem core_setNewOperatingMode (haveHeatPump : Bool) :
    (setNewOperatingMode s newOpMode haveHeatPump (ins.equipmentConfig.read .zero)
        (ins.comfortConfig.read .zero) ins).core
      = s.core.republish (resolve newOpMode haveHeatPump) ins := by
  unfold setNewOperatingMode Core.republish State.core
  by_cases hmode : resolve newOpMode haveHeatPump = s.members.prevOperatingMode
  · by_cases hseq : s.members.comfortCfgSequenceNumber ≠ ins.comfortConfig.sequenceNumber
      ∨ s.members.equipCfgSequenceNumber ≠ ins.equipmentConfig.sequenceNumber
    · simp [hmode, hseq]
    · -- nothing is new: the members are those of the last time
      have hseq' := not_or.mp hseq
      simp only [Decidable.not_not] at hseq'
      simp [hmode, hseq'.1, hseq'.2]
  · simp [hmode]

/-- Valid inputs are read as they are. -/
theorem read_valid (h : ins.bad = false) :
    ins.equipmentConfig.read .zero = ins.equipmentConfig.data
      ∧ ins.comfortConfig.read .zero = ins.comfortConfig.data := by
  simp only [Inputs.bad, Bool.not_eq_false', Bool.and_eq_true] at h
  simp [Mp.read, h.1.2, h.2]

/-- The decision, once the system is not forced off. -/
theorem core_executeMode (h : ins.bad = false) :
    (executeMode s ins currentInterval).core = s.core.next ((decision s.members ins currentInterval
      (correct ins.userMode.data ins.equipmentConfig.data).1).map
      (resolve · (haveHeatPump ins.equipmentConfig.data))) ins := by
  obtain ⟨heq, hcomfort⟩ := read_valid ins h
  unfold executeMode
  cases hmode : decision s.members ins currentInterval
      (correct ins.userMode.data ins.equipmentConfig.data).1 with
  | none => simp only [hmode]; rfl
  | some mode =>
    simp only [hmode]
    conv_lhs => rw [← heq, ← hcomfort, core_setNewOperatingMode]
    rw [heq]
    rfl

theorem decision_congr {m m' : Members} (h : m.inAuto = m'.inAuto) (userMode : ThermostatMode) :
    decision m ins currentInterval userMode = decision m' ins currentInterval userMode := by
  cases userMode <;> simp [decision, h]

theorem executeValid_eq :
    executeValid s ins currentInterval = if forcedOff s ins.equipmentConfig.data then
        setNewOperatingMode (determineAllowedModes s ins.equipmentConfig.data) .eOFF
          (haveHeatPump ins.equipmentConfig.data) ins.equipmentConfig.data ins.comfortConfig.data ins
      else executeMode (determineAllowedModes s ins.equipmentConfig.data) ins currentInterval := by
  simp [executeValid, forcedOff]

theorem core_executeValid (h : ins.bad = false) :
    (executeValid s ins currentInterval).core
      = s.core.next (if forcedOff s ins.equipmentConfig.data then some .eOFF
          else (decision s.members ins currentInterval
            (correct ins.userMode.data ins.equipmentConfig.data).1).map
            (resolve · (haveHeatPump ins.equipmentConfig.data))) ins := by
  obtain ⟨heq, hcomfort⟩ := read_valid ins h
  have hcore : (determineAllowedModes s ins.equipmentConfig.data).core = s.core := core_alarm s _
  have hauto : (determineAllowedModes s ins.equipmentConfig.data).members.inAuto
      = s.members.inAuto := inAuto_alarm s _
  rw [executeValid_eq]
  split
  · conv_lhs => rw [← heq, ← hcomfort, core_setNewOperatingMode, heq, hcore]
    rfl
  · rw [core_executeMode _ _ _ h, hcore, decision_congr ins currentInterval hauto]

/-- **One pass**: it calls `setNewOperatingMode` with its target, or nothing is published. -/
theorem core_execute :
    (execute s ins currentInterval).core = s.core.next (target s ins currentInterval) ins := by
  unfold execute target
  cases hbad : ins.bad with
  | true =>
    have hoff : resolve .eOFF false = .eOFF := rfl
    simp only [if_true, core_alarm, core_setNewOperatingMode]
    rfl
  | false =>
    simp only [Bool.false_eq_true, if_false]
    rw [core_executeValid _ _ _ hbad]
    -- the counter and the members do not depend on `operatingModeChanged`
    have hforced : forcedOff { s with outs := { s.outs with
        operatingModeChanged := s.outs.operatingModeChanged.write false } }
        ins.equipmentConfig.data = forcedOff s ins.equipmentConfig.data := by
      unfold forcedOff determineAllowedModes setNoActiveConditioningAlarm
      split <;> rfl
    rw [hforced]
    rfl

/-! ## §5. Modes that the equipment has. -/

/-- The forced-off counter counts this component and `IdtSelection`, whose `m_critical` is
the second flag. -/
def Counted (cnt : Mp (BitVec 32)) (forcedOff critical : Bool) : Prop :=
  cnt.valid = true ∧ cnt.data = BitVec.ofNat 32 (forcedOff.toNat + critical.toNat)

variable {s ins currentInterval}

variable {cnt : Mp (BitVec 32)}

/-- The flags count alike, so either of them may be the one that changes. -/
theorem Counted.swap {a b : Bool} (h : Counted cnt a b) : Counted cnt b a := by
  refine ⟨h.1, ?_⟩
  rw [h.2, Nat.add_comm]

variable {critical : Bool}

theorem Counted.increment (h : Counted cnt false critical) :
    Counted (RefCounter.increment cnt) true critical := by
  unfold RefCounter.increment Counted
  rw [RefCounter.valid_update _ _ h.1, RefCounter.data_update, h.2]
  cases critical <;> decide

theorem Counted.decrement (h : Counted cnt true critical) :
    Counted (RefCounter.decrement cnt) false critical := by
  unfold RefCounter.decrement Counted
  rw [RefCounter.valid_update _ _ h.1, RefCounter.data_update, h.2]
  cases critical <;> decide

section

variable (h : Counted s.outs.systemForcedOffRefCnt s.members.forcedOff critical)

include h

theorem counted_alarm (alarm : Bool) :
    Counted (setNoActiveConditioningAlarm s alarm).outs.systemForcedOffRefCnt alarm critical
      ∧ (setNoActiveConditioningAlarm s alarm).members.forcedOff = alarm := by
  unfold setNoActiveConditioningAlarm
  split
  next hsame => exact ⟨hsame ▸ h, hsame.symm⟩
  next hne =>
    refine ⟨?_, rfl⟩
    cases alarm with
    | true =>
      rw [Bool.eq_false_iff.mpr (Ne.symm hne)] at h
      exact h.increment
    | false =>
      have hforced : s.members.forcedOff = true := by
        cases hf : s.members.forcedOff with
        | true => rfl
        | false => exact absurd hf.symm hne
      rw [hforced] at h
      exact h.decrement

/-- A system that can neither cool nor heat is forced off. -/
theorem forcedOff_of_none (hcool : haveCooling eq = false) (hheat : haveHeating eq = false) :
    forcedOff s eq = true := by
  have hcnt := (counted_alarm h true).1
  unfold forcedOff determineAllowedModes
  rw [hcool, hheat]
  simp only [Bool.not_false, Bool.and_self, hcnt.1, hcnt.2]
  cases critical <;> decide

end

/-- With the stages that the options allow there is no heat pump. -/
theorem haveHeatPump_eq (eq : ValidEquipment) : haveHeatPump eq = false := by
  unfold haveHeatPump
  cases htype : eq.oduType with
  | eAC => rfl
  | eHP =>
    have hle : eq.numCompStages ≤ 0 := by
      have h := eq.compStages
      rw [htype] at h
      exact h
    simp [Nat.le_zero.mp hle]

/-- The equipment has what a mode needs. -/
def Allowed (eq : ValidEquipment) : OperatingMode → Prop
  | .eCOOLING => haveCooling eq = true
  | .eHEATING => haveHeating eq = true
  | .eID_HEATING => haveHeating eq = true
  | .eOFF => True
  | .eUNKNOWN => False

/-- The equipment has what the user's mode needs. -/
def AllowedUser (eq : ValidEquipment) : ThermostatMode → Prop
  | .eCOOLING => haveCooling eq = true
  | .eHEATING => haveHeating eq = true
  | .eID_HEATING => haveHeating eq = true
  | .eAUTO => haveCooling eq = true ∧ haveHeating eq = true
  | .eOFF => True

/-- The user's mode is corrected to one that the equipment has. -/
theorem allowed_correct (hsome : haveCooling eq = true ∨ haveHeating eq = true)
    (userMode : ThermostatMode) : AllowedUser eq (correct userMode eq).1 := by
  cases userMode with
  | eOFF => trivial
  | eCOOLING | eHEATING | eID_HEATING =>
    simp only [correct]
    split
    next h => exact h
    next => trivial
  | eAUTO =>
    simp only [correct]
    split
    next h => exact Bool.and_eq_true_iff.mp h
    next =>
      split
      next h => exact h
      next h => exact hsome.resolve_left h

/-- So is the mode that is decided on. -/
theorem allowed_decision {m : Members} {userMode : ThermostatMode}
    (hallowed : AllowedUser eq userMode)
    (h : decision m ins currentInterval userMode = some mode) : Allowed eq mode := by
  have hside (p : Prop) [Decidable p] :
      AllowedUser eq .eAUTO → Allowed eq (if p then .eCOOLING else .eHEATING)
        ∧ Allowed eq (if p then .eHEATING else .eCOOLING) := by
    rintro ⟨hcool, hheat⟩
    split
    next => exact ⟨hcool, hheat⟩
    next => exact ⟨hheat, hcool⟩
  cases userMode with
  | eOFF | eCOOLING | eHEATING | eID_HEATING =>
    cases h
    exact hallowed
  | eAUTO =>
    simp only [decision] at h
    split at h
    next =>
      cases h
      exact (hside _ hallowed).2
    next =>
      split at h
      next =>
        cases h
        exact (hside _ hallowed).1
      next => cases h

/-- **The mode of a pass**: the equipment has its stages. -/
theorem allowed_target (h : Counted s.outs.systemForcedOffRefCnt s.members.forcedOff critical)
    (hmode : target s ins currentInterval = some mode) :
    mode = .eOFF ∨ ins.bad = false
      ∧ ((mode = .eCOOLING ∧ 0 < ins.equipmentConfig.data.numCompStages)
        ∨ (mode = .eID_HEATING ∧ 0 < ins.equipmentConfig.data.numIduHeatingStages)) := by
  unfold target at hmode
  simp only at hmode
  split at hmode
  next =>
    cases hmode
    exact .inl rfl
  next hnot =>
    simp only [Bool.or_eq_true, not_or, Bool.not_eq_true] at hnot
    obtain ⟨hbad, hforced⟩ := hnot
    obtain ⟨decided, hdecided, rfl⟩ := Option.map_eq_some_iff.mp hmode
    have hsome : haveCooling ins.equipmentConfig.data = true
        ∨ haveHeating ins.equipmentConfig.data = true := by
      by_contra hnone
      simp only [not_or, Bool.not_eq_true] at hnone
      exact absurd (forcedOff_of_none h hnone.1 hnone.2) (by simp [hforced])
    have hallowed := allowed_decision (allowed_correct hsome _) hdecided
    have hheating : haveHeating ins.equipmentConfig.data = true →
        0 < ins.equipmentConfig.data.numIduHeatingStages := by
      unfold haveHeating
      rw [haveHeatPump_eq]
      exact of_decide_eq_true
    rw [haveHeatPump_eq]
    cases decided with
    | eOFF => exact .inl rfl
    | eCOOLING => exact .inr ⟨hbad, .inl ⟨rfl, of_decide_eq_true hallowed⟩⟩
    | eHEATING | eID_HEATING => exact .inr ⟨hbad, .inr ⟨rfl, hheating hallowed⟩⟩
    | eUNKNOWN => exact hallowed.elim

/-- The pass stays in auto mode: it neither sets a mode nor looks at the configurations. -/
def StaysInAuto (s : State) (ins : Inputs) (currentInterval : Precision) : Prop :=
  ins.bad = false ∧ forcedOff s ins.equipmentConfig.data = false
    ∧ (correct ins.userMode.data ins.equipmentConfig.data).1 = .eAUTO
    ∧ s.members.inAuto = true ∧ maySwitch ins currentInterval = false

theorem target_eq_none_iff :
    target s ins currentInterval = none ↔ StaysInAuto s ins currentInterval := by
  unfold target StaysInAuto
  simp only
  split
  next h =>
    refine ⟨nofun, fun hstays => ?_⟩
    rw [hstays.1, hstays.2.1] at h
    exact Bool.noConfusion h
  next h =>
    simp only [Bool.or_eq_true, not_or] at h
    cases huser : (correct ins.userMode.data ins.equipmentConfig.data).1 with
    | eAUTO =>
      simp only [decision, h.1, h.2]
      cases s.members.inAuto <;> cases maySwitch ins currentInterval <;> simp
    | eOFF | eCOOLING | eHEATING | eID_HEATING => simp [decision]

/-! ## §6. The forced-off counter. -/

theorem forcedOff_setNewOperatingMode (s : State) (ins : Inputs) (newOpMode : OperatingMode)
    (hp : Bool) (eq : ValidEquipment) (comfort : ComfortConfig) :
    (setNewOperatingMode s newOpMode hp eq comfort ins).outs.systemForcedOffRefCnt
        = s.outs.systemForcedOffRefCnt
      ∧ (setNewOperatingMode s newOpMode hp eq comfort ins).members.forcedOff
        = s.members.forcedOff := by
  unfold setNewOperatingMode
  simp only
  split <;> split <;> exact ⟨rfl, rfl⟩

theorem forcedOff_executeMode :
    (executeMode s ins currentInterval).outs.systemForcedOffRefCnt = s.outs.systemForcedOffRefCnt
      ∧ (executeMode s ins currentInterval).members.forcedOff = s.members.forcedOff := by
  unfold executeMode
  simp only
  split
  · exact forcedOff_setNewOperatingMode _ _ _ _ _ _
  · exact ⟨rfl, rfl⟩

/-- What forces the system off: bad inputs, or nothing to condition the air with. -/
def Inputs.forces (ins : Inputs) : Bool :=
  ins.bad || !haveCooling ins.equipmentConfig.data && !haveHeating ins.equipmentConfig.data

section

variable (h : Counted s.outs.systemForcedOffRefCnt s.members.forcedOff critical)

include h

/-- The component counts itself exactly when its inputs force the system off. -/
theorem counted_forces :
    Counted (execute s ins currentInterval).outs.systemForcedOffRefCnt ins.forces critical
      ∧ (execute s ins currentInterval).members.forcedOff = ins.forces := by
  unfold execute Inputs.forces
  split
  next hbad =>
    rw [hbad]
    refine counted_alarm ?_ true
    rw [(forcedOff_setNewOperatingMode _ _ _ _ _ _).1, (forcedOff_setNewOperatingMode _ _ _ _ _ _).2]
    exact h
  next hbad =>
    rw [Bool.eq_false_iff.mpr hbad]
    unfold executeValid
    have hcounted := counted_alarm (s := { s with outs := { s.outs with
      operatingModeChanged := s.outs.operatingModeChanged.write false } }) h
      (!haveCooling ins.equipmentConfig.data && !haveHeating ins.equipmentConfig.data)
    simp only
    split
    · rw [(forcedOff_setNewOperatingMode _ _ _ _ _ _).1, (forcedOff_setNewOperatingMode _ _ _ _ _ _).2]
      exact hcounted
    · rw [forcedOff_executeMode.1, forcedOff_executeMode.2]
      exact hcounted

/-- **The counter keeps counting this component.** -/
theorem counted_execute :
    Counted (execute s ins currentInterval).outs.systemForcedOffRefCnt
      (execute s ins currentInterval).members.forcedOff critical := by
  rw [(counted_forces h).2]
  exact (counted_forces h).1

end

/-- `IdtSelection` counts its own alarm. -/
theorem counted_idtSelection {forced old : Bool} {outs : IdtSelection.Outputs}
    (h : Counted outs.systemForcedOffRefCnt forced old) (ins : IdtSelection.Inputs) :
    Counted (IdtSelection.execute old ins outs).2.systemForcedOffRefCnt forced ins.critical := by
  show Counted (if _ then _ else if _ then _ else _) forced ins.critical
  cases ins.critical <;> cases old
  · exact h
  · exact h.swap.decrement.swap
  · exact h.swap.increment.swap
  · exact h

end Component.OperatingMode

end ColonyCore.Storm
