/-
  ColonyCore.Storm.Publishing
  **IS THE PUBLISHED CONFIGURATION THE CURRENT ONE?**

  The equipment and comfort configurations are written from outside, at any time between
  two passes of `OperatingMode`.

    • `Publishing`        — what every step keeps: a configuration whose changes have all been
      looked at is the published one,
    • `published_current` — a run whose passes are all `Fresh` publishes the CURRENT
      configuration, with stages that the equipment has,
    • `auto_keeps_old`    — a pass that stays in auto mode does not look, and the published
      configuration is an old one.
-/
import ColonyCore.Storm.OperatingMode

namespace ColonyCore.Storm

open ColonyCore.System Interleaving Bank
open Dm (LockRequest SeqNum advanceSequenceNumber SEQUENCE_NUMBER_UNKNOWN)
open Component Component.OperatingMode

/-! ## §1. The system. -/

/-- `OperatingMode`, the configurations it reads, and `IdtSelection`, with which it shares
the forced-off counter. -/
structure World where
  state : State
  equipment : ConfigPoint ValidEquipment
  comfort : ConfigPoint ComfortConfig
  critical : Bool
  activeIdt : Mp ℚ
  idtAlarms : Mp IdtSelection.IdtAlarm

/-- What a pass of `OperatingMode` reads from elsewhere. -/
structure Pass where
  setpoints : Mp Setpoints
  userMode : Mp ThermostatMode
  equipmentBeginTimes : Mp EquipmentTimes
  systemOn : Mp Bool
  currentInterval : Precision

namespace World

variable (w : World)

/-- The inputs of a pass. -/
def inputs (pass : Pass) : Inputs :=
  ⟨pass.setpoints, pass.userMode, w.activeIdt, pass.equipmentBeginTimes, pass.systemOn,
    w.equipment.toMp, w.comfort.toMp⟩

/-- What happens between two passes, and a pass. -/
inductive Action where
  | equipment (write : EquipmentWrite) (samePadding : Bool) (lockRequest : LockRequest)
  | equipmentInvalid (lockRequest : LockRequest)
  | comfort (write : ComfortWrite) (lockRequest : LockRequest)
  | comfortInvalid (lockRequest : LockRequest)
  | idtSelection (ins : IdtSelection.Inputs)
  | operatingMode (pass : Pass)

/-- `IdtSelection::execute`. -/
def selectIdt (ins : IdtSelection.Inputs) : World :=
  let r := IdtSelection.execute w.critical ins
    ⟨w.activeIdt, w.state.outs.systemForcedOffRefCnt, w.idtAlarms⟩
  { w with
    state := { w.state with outs := { w.state.outs with
      systemForcedOffRefCnt := r.2.systemForcedOffRefCnt } }
    critical := r.1
    activeIdt := r.2.activeIdt
    idtAlarms := r.2.idtAlarms }

/-- `OperatingMode::execute`; it looks at the sequence numbers when it has a target. -/
def executeMode (pass : Pass) : World :=
  let state := execute w.state (w.inputs pass) pass.currentInterval
  match target w.state (w.inputs pass) pass.currentInterval with
  | some _ => { w with state := state, equipment := w.equipment.seen, comfort := w.comfort.seen }
  | none => { w with state := state }

/-- One action. -/
def step : Action → Option World
  | .equipment write samePadding lockRequest =>
    some { w with
      equipment := w.equipment.writeData (write.apply w.equipment.data) samePadding lockRequest }
  | .equipmentInvalid lockRequest =>
    some { w with equipment := w.equipment.setInvalid .default lockRequest }
  | .comfort write lockRequest =>
    some { w with comfort := w.comfort.writeData (write.apply w.comfort.data) true lockRequest }
  | .comfortInvalid lockRequest =>
    some { w with comfort := w.comfort.setInvalid .default lockRequest }
  | .idtSelection ins => some (w.selectIdt ins)
  | .operatingMode pass => some (w.executeMode pass)

variable (equipment : ValidEquipment)

/-- `initializeModelPoints`, with the given configurations. -/
def init (comfort : ComfortConfig) : World where
  state :=
    { members := .init
      outs :=
        { operatingModeChanged := ⟨true, false, 1#16⟩
          pulseResetPi := ⟨true, false, 1#16⟩
          systemForcedOffRefCnt := ⟨true, 0#32, 1#16⟩
          systemConfig := ⟨false, .setToOff, 1#16⟩
          noActiveConditioningAlarm := ⟨true, ⟨false, false, false⟩, 1#16⟩
          userConfigModeAlarm := ⟨true, ⟨false, false, false⟩, 1#16⟩ } }
  equipment := ⟨⟨true, equipment, 1#16⟩, false, 0⟩
  comfort := ⟨⟨true, comfort, 1#16⟩, false, 0⟩
  critical := false
  activeIdt := ⟨false, 0, 1#16⟩
  idtAlarms := ⟨true, ⟨false, false, false, false, false⟩, 1#16⟩

/-! ## §2. What a pass is to publish, and when it does. -/

/-- The published configuration is the one derived from the current mode and the current
configurations. -/
def Current : Prop :=
  w.state.outs.systemConfig.valid = true
    ∧ w.state.outs.systemConfig.data
      = setSystemConfig w.state.members.prevOperatingMode w.equipment.data w.comfort.data

/-- The equipment of the mode is able to run the configuration. -/
structure Usable [CycleTimes] (config : SystemConfig) : Prop where
  cooling : config.currentOpMode = .eCOOLING →
    1 ≤ config.numCompressorStages ∧ config.numCompressorStages ≤ maxCompStages .eAC
      ∧ ∀ b top, Standing Cooling.port (b.memory.call + 1) (restAt top) b →
        b.memory.args.systemConfig = config →
        ∃ b', Cooling.equipment.executeActive b = some (b', true)
  heating : config.currentOpMode = .eID_HEATING →
    1 ≤ config.numIndoorStages ∧ config.numIndoorStages ≤ maxIduHeatingStages .eFURNACE
      ∧ ∀ b top, Standing IndoorHeating.port (b.memory.call + 1) (restAt top) b →
        b.memory.args.systemConfig = config →
        ∃ b', IndoorHeating.equipment.executeActive b = some (b', true)

/-- **After a pass with valid inputs** the published configuration is that of the mode
and the configurations it was computed from, and the equipment is able to run it. -/
def Publishes [CycleTimes] (w : World) : Action → Prop
  | .operatingMode pass =>
    (w.inputs pass).bad = false →
      (w.executeMode pass).Current ∧ Usable (w.executeMode pass).state.outs.systemConfig.data
  | _ => True

/-- A pass that stays in auto mode finds no change since the last look, and a sequence
number has not come round in between. -/
def Fresh : Action → Prop
  | .operatingMode pass =>
    w.equipment.unseen < 65535 ∧ w.comfort.unseen < 65535
      ∧ (StaysInAuto w.state (w.inputs pass) pass.currentInterval →
        w.equipment.unseen = 0 ∧ w.comfort.unseen = 0)
  | _ => True

/-! ## §3. What every step keeps. -/

/-- The equipment has a stage for the mode. -/
def HasStages (mode : OperatingMode) (eq : ValidEquipment) : Prop :=
  (mode = .eCOOLING → 0 < eq.numCompStages) ∧ (mode = .eID_HEATING → 0 < eq.numIduHeatingStages)

/-- The changes of a point since its sequence number was `seqNum`. -/
def Follows {α : Type} (p : ConfigPoint α) (seqNum : SeqNum) : Prop :=
  seqNum ≠ SEQUENCE_NUMBER_UNKNOWN ∧ p.sequenceNumber = advanceSequenceNumber^[p.unseen] seqNum

/-- After the first pass. -/
structure Tracked (w : World) : Prop where
  valid : w.state.outs.systemConfig.valid = true
  equipment : Follows w.equipment w.state.members.equipCfgSequenceNumber
  comfort : Follows w.comfort w.state.members.comfortCfgSequenceNumber
  data : w.equipment.unseen = 0 → w.comfort.unseen = 0 → w.equipment.valid = true →
    w.comfort.valid = true → w.state.outs.systemConfig.data
      = setSystemConfig w.state.members.prevOperatingMode w.equipment.data w.comfort.data

/-- **The invariant.** -/
structure Publishing (w : World) : Prop where
  counted : Counted w.state.outs.systemForcedOffRefCnt w.state.members.forcedOff w.critical
  auto : w.state.members.inAuto = true → w.state.members.prevOperatingMode ≠ .eUNKNOWN
  equipment : w.equipment.sequenceNumber ≠ SEQUENCE_NUMBER_UNKNOWN
  comfort : w.comfort.sequenceNumber ≠ SEQUENCE_NUMBER_UNKNOWN
  derived : w.state.outs.systemConfig.valid = true →
    ∃ mode eq comfort, w.state.outs.systemConfig.data = setSystemConfig mode eq comfort
      ∧ HasStages mode eq
  tracked : w.state.members.prevOperatingMode ≠ .eUNKNOWN → Tracked w

/-- A point that is written: nothing but its lock is new, or it has changed. -/
inductive Touched {α : Type} (p : ConfigPoint α) : ConfigPoint α → Prop
  | locked (locked : Bool) : Touched p { p with locked := locked }
  | change (valid : Bool) (data : α) (locked : Bool) : Touched p (p.change valid data locked)

section Points

variable {α : Type} {p p' : ConfigPoint α}

theorem touched_writeData [DecidableEq α] (p : ConfigPoint α) (new : α) (samePadding : Bool)
    (lockRequest : LockRequest) : Touched p (p.writeData new samePadding lockRequest) := by
  unfold ConfigPoint.writeData
  simp only
  split
  · exact .change _ _ _
  · exact .locked _

theorem touched_setInvalid (p : ConfigPoint α) (default : α) (lockRequest : LockRequest) :
    Touched p (p.setInvalid default lockRequest) := by
  unfold ConfigPoint.setInvalid
  simp only
  split
  · exact .change _ _ _
  · exact .locked _

theorem Touched.sequenceNumber_ne (h : Touched p p')
    (hp : p.sequenceNumber ≠ SEQUENCE_NUMBER_UNKNOWN) :
    p'.sequenceNumber ≠ SEQUENCE_NUMBER_UNKNOWN := by
  cases h with
  | locked => exact hp
  | change => exact Dm.advanceSequenceNumber_ne _

variable {seqNum : SeqNum}

theorem Touched.follows (h : Touched p p') (hp : Follows p seqNum) : Follows p' seqNum := by
  cases h with
  | locked => exact hp
  | change =>
    refine ⟨hp.1, ?_⟩
    show advanceSequenceNumber p.sequenceNumber = advanceSequenceNumber^[p.unseen + 1] seqNum
    rw [Function.iterate_succ_apply', ← hp.2]

/-- A point without an unseen change has not changed. -/
theorem Touched.toMp_eq (h : Touched p p') (hzero : p'.unseen = 0) :
    p.unseen = 0 ∧ p'.toMp = p.toMp := by
  cases h with
  | locked => exact ⟨hzero, rfl⟩
  | change => exact absurd hzero (Nat.succ_ne_zero _)

/-- The number that was seen last is the current one only without a change. -/
theorem Follows.eq_zero (h : Follows p seqNum) (hlt : p.unseen < 65535)
    (hseq : seqNum = p.sequenceNumber) : p.unseen = 0 :=
  Dm.eq_zero_of_advance h.1 hlt (h.2.symm.trans hseq.symm)

/-- The number is looked at. -/
theorem follows_seen (hseq : seqNum = p.sequenceNumber)
    (hp : p.sequenceNumber ≠ SEQUENCE_NUMBER_UNKNOWN) : Follows p.seen seqNum :=
  ⟨hseq ▸ hp, hseq.symm⟩

end Points

variable {w : World}

theorem publishing_init (comfort : ComfortConfig) :
    Publishing (init equipment comfort) where
  counted := ⟨rfl, rfl⟩
  auto h := Bool.noConfusion h
  equipment := show (1#16 : SeqNum) ≠ SEQUENCE_NUMBER_UNKNOWN by decide
  comfort := show (1#16 : SeqNum) ≠ SEQUENCE_NUMBER_UNKNOWN by decide
  derived h := Bool.noConfusion h
  tracked h := absurd rfl h

/-- A write to a configuration. -/
theorem Publishing.touch (h : Publishing w) {p : ConfigPoint ValidEquipment}
    {q : ConfigPoint ComfortConfig} (hp : Touched w.equipment p) (hq : Touched w.comfort q) :
    Publishing { w with equipment := p, comfort := q } :=
  { h with
    equipment := hp.sequenceNumber_ne h.equipment
    comfort := hq.sequenceNumber_ne h.comfort
    tracked := fun hmode =>
      { valid := (h.tracked hmode).valid
        equipment := hp.follows (h.tracked hmode).equipment
        comfort := hq.follows (h.tracked hmode).comfort
        data := fun hzero hzero' hvalid hvalid' => by
          obtain ⟨hp₀, hpeq⟩ := hp.toMp_eq hzero
          obtain ⟨hq₀, hqeq⟩ := hq.toMp_eq hzero'
          rw [hpeq, hqeq]
          exact (h.tracked hmode).data hp₀ hq₀ (hpeq ▸ hvalid) (hqeq ▸ hvalid') } }

/-- `IdtSelection` counts its own alarm. -/
theorem Publishing.selectIdt (h : Publishing w) (ins : IdtSelection.Inputs) :
    Publishing (w.selectIdt ins) :=
  { h with
    counted := counted_idtSelection h.counted ins
    tracked := fun hmode => ⟨(h.tracked hmode).valid, (h.tracked hmode).equipment,
      (h.tracked hmode).comfort, (h.tracked hmode).data⟩ }

variable {pass : Pass}

/-- A pass that stays in auto mode changes neither the members nor what is published. -/
theorem Publishing.stays (h : Publishing w)
    (hnone : target w.state (w.inputs pass) pass.currentInterval = none) :
    Publishing (w.executeMode pass)
      ∧ (w.executeMode pass).state.core = w.state.core
      ∧ w.state.members.prevOperatingMode ≠ .eUNKNOWN := by
  have hcore := core_execute w.state (w.inputs pass) pass.currentInterval
  rw [hnone] at hcore
  have hmode : w.state.members.prevOperatingMode ≠ .eUNKNOWN :=
    h.auto (target_eq_none_iff.mp hnone).2.2.2.1
  have hworld : w.executeMode pass
      = { w with state := execute w.state (w.inputs pass) pass.currentInterval } := by
    unfold executeMode
    simp [hnone]
  have hprev := congrArg Core.prevOperatingMode hcore
  have hequip := congrArg Core.equipCfgSequenceNumber hcore
  have hcomfort := congrArg Core.comfortCfgSequenceNumber hcore
  have hconfig := congrArg Core.systemConfig hcore
  simp only [State.core] at hprev hequip hcomfort hconfig
  rw [hworld]
  refine ⟨⟨counted_execute h.counted, fun _ => ?_, h.equipment, h.comfort, ?_, fun _ => ?_⟩, hcore,
    hmode⟩
  · rw [hprev]
    exact hmode
  · simp only [hconfig]
    exact h.derived
  · obtain ⟨hvalid, heq, hcc, hdata⟩ := h.tracked hmode
    refine ⟨?_, ?_, ?_, ?_⟩
    · rw [hconfig]; exact hvalid
    · rw [hequip]; exact heq
    · rw [hcomfort]; exact hcc
    · rw [hconfig, hprev]; exact hdata

/-- A derived configuration is published, whether `isDataEqual_` sees a change or not. -/
theorem Publishing.writeData (h : Publishing w) (mode : OperatingMode) (eq : ValidEquipment)
    (comfort : ComfortConfig) :
    let p := w.state.outs.systemConfig.writeData SystemConfig.isDataEqual
      (setSystemConfig mode eq comfort)
    p.valid = true ∧ p.data = setSystemConfig mode eq comfort := by
  unfold Mp.writeData
  split
  next => exact ⟨rfl, rfl⟩
  next hsame =>
    simp only [not_or, Bool.not_eq_false] at hsame
    obtain ⟨mode', eq', comfort', hdata, -⟩ := h.derived hsame.1
    rw [hdata] at hsame
    exact ⟨hsame.1, hdata.trans (setSystemConfig_inj hsame.2)⟩

variable {mode : OperatingMode}

/-- What is published after a look at the configurations: the derived configuration, or
nothing was new. -/
theorem Publishing.republished (h : Publishing w) (hmode : mode ≠ .eUNKNOWN)
    (hfresh : Fresh w (.operatingMode pass)) :
    let published := (w.state.core.republish mode (w.inputs pass)).systemConfig
    published.valid = true ∧
      (published.data = setSystemConfig mode ((w.inputs pass).equipmentConfig.read .zero)
          ((w.inputs pass).comfortConfig.read .zero)
        ∨ published = w.state.outs.systemConfig ∧ w.state.members.prevOperatingMode = mode
          ∧ w.equipment.unseen = 0 ∧ w.comfort.unseen = 0) := by
  unfold Core.republish
  split
  next =>
    obtain ⟨hvalid, hdata⟩ := h.writeData mode ((w.inputs pass).equipmentConfig.read .zero)
      ((w.inputs pass).comfortConfig.read .zero)
    exact ⟨hvalid, .inl hdata⟩
  next hold =>
    simp only [not_or, Decidable.not_not] at hold
    obtain ⟨hprev, hcomfort, hequipment⟩ := hold
    have hprev : w.state.members.prevOperatingMode = mode := hprev.symm
    have htracked := h.tracked (hprev ▸ hmode)
    exact ⟨htracked.valid, .inr ⟨rfl, hprev, htracked.equipment.eq_zero hfresh.1 hequipment,
      htracked.comfort.eq_zero hfresh.2.1 hcomfort⟩⟩

section

variable (h : Publishing w)
  (hsome : target w.state (w.inputs pass) pass.currentInterval = some mode)

include h hsome

/-- The mode of a pass has its stages, in the configuration that is read. -/
theorem Publishing.hasStages :
    mode ≠ .eUNKNOWN ∧ HasStages mode ((w.inputs pass).equipmentConfig.read .zero) := by
  rcases allowed_target h.counted hsome with rfl | ⟨hbad, ⟨rfl, hpos⟩ | ⟨rfl, hpos⟩⟩
  · exact ⟨nofun, nofun, nofun⟩
  · rw [(read_valid _ hbad).1]
    exact ⟨nofun, fun _ => hpos, nofun⟩
  · rw [(read_valid _ hbad).1]
    exact ⟨nofun, nofun, fun _ => hpos⟩

/-- A pass that looks at the configurations. -/
theorem Publishing.looks (hfresh : Fresh w (.operatingMode pass)) :
    Publishing (w.executeMode pass) ∧ mode ≠ .eUNKNOWN
      ∧ (w.executeMode pass).state.members.prevOperatingMode = mode
      ∧ (w.executeMode pass).equipment = w.equipment.seen
      ∧ (w.executeMode pass).comfort = w.comfort.seen := by
  obtain ⟨hmode, hstages⟩ := h.hasStages hsome
  obtain ⟨hvalid, hpublished⟩ := h.republished hmode hfresh
  have hcore := core_execute w.state (w.inputs pass) pass.currentInterval
  rw [hsome] at hcore
  have hworld : w.executeMode pass
      = { w with
          state := execute w.state (w.inputs pass) pass.currentInterval
          equipment := w.equipment.seen
          comfort := w.comfort.seen } := by
    unfold executeMode
    simp [hsome]
  have hprev : (execute w.state (w.inputs pass) pass.currentInterval).members.prevOperatingMode
      = mode := congrArg Core.prevOperatingMode hcore
  have hconfig : (execute w.state (w.inputs pass) pass.currentInterval).outs.systemConfig
      = (w.state.core.republish mode (w.inputs pass)).systemConfig :=
    congrArg Core.systemConfig hcore
  rw [hworld]
  refine ⟨⟨counted_execute h.counted, fun _ => ?_, h.equipment, h.comfort, fun _ => ?_, fun _ => ?_⟩,
    hmode, hprev, rfl, rfl⟩
  · rw [hprev]
    exact hmode
  · rw [hconfig]
    rcases hpublished with hdata | ⟨hsame, -⟩
    · exact ⟨mode, _, _, hdata, hstages⟩
    · rw [hsame] at hvalid ⊢
      exact h.derived hvalid
  · refine ⟨?_, follows_seen (congrArg Core.equipCfgSequenceNumber hcore) h.equipment,
      follows_seen (congrArg Core.comfortCfgSequenceNumber hcore) h.comfort,
      fun _ _ hequipment hcomfort => ?_⟩
    · rw [hconfig]
      exact hvalid
    · show (execute w.state (w.inputs pass) pass.currentInterval).outs.systemConfig.data
        = setSystemConfig _ w.equipment.data w.comfort.data
      rw [hprev, hconfig]
      have hequipment : w.equipment.valid = true := hequipment
      have hcomfort : w.comfort.valid = true := hcomfort
      rcases hpublished with hdata | ⟨hsame, rfl, hzero, hzero'⟩
      · rw [hdata]
        simp [Mp.read, inputs, hequipment, hcomfort]
      · rw [hsame]
        exact (h.tracked hmode).data hzero hzero' hequipment hcomfort

end

/-- **One step** keeps the invariant. -/
theorem Publishing.step (h : Publishing w) {a : Action} {w' : World} (hfresh : Fresh w a)
    (hstep : w.step a = some w') : Publishing w' := by
  cases a with
  | equipment write samePadding lockRequest =>
    cases hstep
    exact h.touch (touched_writeData _ _ _ _) (.locked _)
  | equipmentInvalid lockRequest =>
    cases hstep
    exact h.touch (touched_setInvalid _ _ _) (.locked _)
  | comfort write lockRequest =>
    cases hstep
    exact h.touch (.locked _) (touched_writeData _ _ _ _)
  | comfortInvalid lockRequest =>
    cases hstep
    exact h.touch (.locked _) (touched_setInvalid _ _ _)
  | idtSelection ins =>
    cases hstep
    exact h.selectIdt ins
  | operatingMode pass =>
    cases hstep
    cases htarget : target w.state (w.inputs pass) pass.currentInterval with
    | none => exact (h.stays htarget).1
    | some mode => exact (h.looks htarget hfresh).1

/-! ## §4. Runs. -/

/-- A derived configuration whose mode has its stages is usable. -/
theorem usable_setSystemConfig [CycleTimes] {eq : ValidEquipment}
    (hstages : HasStages mode eq) (comfort : ComfortConfig) :
    Usable (setSystemConfig mode eq comfort) where
  cooling hmode := by
    rw [currentOpMode_setSystemConfig] at hmode
    subst hmode
    have hpos := hstages.1 rfl
    have hle : eq.numCompStages ≤ 1 := eq.compStages.trans (by cases eq.oduType <;> decide)
    have hnum : (setSystemConfig .eCOOLING eq comfort).numCompressorStages = 1 :=
      Nat.le_antisymm hle hpos
    refine ⟨hnum.ge, hnum.le, fun b top hb hconfig => ?_⟩
    obtain ⟨b', -, hactive, -⟩ := Cooling.lawful.active b top hb
    refine ⟨b', hactive.trans ?_⟩
    rw [hconfig, hnum]
    rfl
  heating hmode := by
    rw [currentOpMode_setSystemConfig] at hmode
    subst hmode
    have hpos := hstages.2 rfl
    have hle : eq.numIduHeatingStages ≤ 3 :=
      eq.iduHeatingStages.trans (by cases eq.iduType <;> decide)
    have hnum : (setSystemConfig .eID_HEATING eq comfort).numIndoorStages
        = eq.numIduHeatingStages := rfl
    refine ⟨hpos, hle, fun b top hb hconfig => ?_⟩
    obtain ⟨b', -, hactive, -⟩ := IndoorHeating.lawful.active b top hb
    refine ⟨b', hactive.trans ?_⟩
    have hmem : eq.numIduHeatingStages ∈ [1, 2, 3] := by
      simp only [List.mem_cons]
      omega
    rw [hconfig, hnum, decide_eq_true hmem]

/-- **One pass** publishes the current configuration. -/
theorem Publishing.publishes [CycleTimes] (h : Publishing w) {a : Action} (hfresh : Fresh w a) :
    Publishes w a := by
  cases a with
  | operatingMode pass =>
    intro hbad
    have hvalid : w.equipment.valid = true ∧ w.comfort.valid = true := by
      simp only [Inputs.bad, Bool.not_eq_false', Bool.and_eq_true] at hbad
      exact ⟨hbad.2, hbad.1.2⟩
    have hafter := h.step hfresh rfl
    have hcurrent : (w.executeMode pass).Current := by
      cases htarget : target w.state (w.inputs pass) pass.currentInterval with
      | none =>
        -- nothing was published, and nothing has changed
        obtain ⟨hzero, hzero'⟩ := hfresh.2.2 (target_eq_none_iff.mp htarget)
        obtain ⟨hkept, hcore, hmode⟩ := h.stays htarget
        have hmode' : (w.executeMode pass).state.members.prevOperatingMode ≠ .eUNKNOWN := by
          have hsame : (w.executeMode pass).state.members.prevOperatingMode
              = w.state.members.prevOperatingMode := congrArg Core.prevOperatingMode hcore
          rw [hsame]
          exact hmode
        have hpoints : (w.executeMode pass).equipment = w.equipment
            ∧ (w.executeMode pass).comfort = w.comfort := by
          unfold executeMode
          simp [htarget]
        have htracked := hkept.tracked hmode'
        refine ⟨htracked.valid, htracked.data ?_ ?_ ?_ ?_⟩
        · rw [hpoints.1]; exact hzero
        · rw [hpoints.2]; exact hzero'
        · rw [hpoints.1]; exact hvalid.1
        · rw [hpoints.2]; exact hvalid.2
      | some mode =>
        obtain ⟨hlooked, hmode, hprev, hequipment, hcomfort⟩ := h.looks htarget hfresh
        have htracked := hlooked.tracked (hprev ▸ hmode)
        refine ⟨htracked.valid, htracked.data ?_ ?_ ?_ ?_⟩
        · rw [hequipment]; rfl
        · rw [hcomfort]; rfl
        · rw [hequipment]; exact hvalid.1
        · rw [hcomfort]; exact hvalid.2
    refine ⟨hcurrent, ?_⟩
    obtain ⟨mode, eq, comfort, hdata, hstages⟩ := hafter.derived hcurrent.1
    rw [hdata]
    exact usable_setSystemConfig hstages comfort
  | equipment | equipmentInvalid | comfort | comfortInvalid | idtSelection => trivial

/-- **THE PUBLISHED CONFIGURATION IS CURRENT AND USABLE** after every pass with valid inputs
of every run whose steps are all fresh. -/
theorem published_current [CycleTimes] (comfort : ComfortConfig)
    (acts : List Action) (hfresh : Along step Fresh (init equipment comfort) acts) :
    Along step Publishes (init equipment comfort) acts :=
  along_imp Publishing (fun _ _ _ h hf => h.publishes hf) (fun _ _ _ _ h hf hs => h.step hf hs)
    (publishing_init equipment comfort) hfresh

/-! A run that breaks it: in auto mode the comfort configuration is changed. -/

/-- A pass in the user's mode, two seconds after the start or later. -/
def samplePass (mode : ThermostatMode) (seconds : BitVec 32) : Pass :=
  ⟨⟨true, ⟨78, 68⟩, 1#16⟩, ⟨true, mode, 1#16⟩, ⟨true, .zero, 1#16⟩, ⟨true, false, 1#16⟩,
    .ofSeconds seconds⟩

/-- The temperature is 80 degrees. -/
def sampleIdt : Action :=
  .idtSelection ⟨⟨true, 80, 1#16⟩, ⟨false, 0, 1#16⟩, ⟨true, false, 1#16⟩⟩

/-- Auto mode, six cycles per hour for the compressor, and the mode of the last pass. -/
def sampleRun (mode : ThermostatMode) : List Action :=
  [sampleIdt, .operatingMode (samplePass .eAUTO 2#32),
    .comfort (.writeCompressorCooling ⟨0#32, 0#32, .e6CPH⟩) .eNO_REQUEST,
    .operatingMode (samplePass mode 4#32)]

/-- A pass that leaves auto mode for cooling looks at the change made before it. -/
theorem published_current_first :
    Along step Fresh (init .default .default) (sampleRun .eCOOLING)
      ∧ Along step Publishes (init .default .default) (sampleRun .eCOOLING) := by
  have hfresh : Along step Fresh (init .default .default) (sampleRun .eCOOLING) := by
    refine ⟨trivial, fun w hw => ?_⟩
    cases hw
    refine ⟨⟨by decide, by decide, fun _ => ⟨rfl, rfl⟩⟩, fun w hw => ⟨trivial, fun w' hw' => ?_⟩⟩
    cases hw
    cases hw'
    exact ⟨⟨by decide +kernel, by decide +kernel, fun hstays => absurd hstays.2.2.1 (by decide)⟩,
      fun _ _ => trivial⟩
  exact ⟨hfresh, published_current .default .default _ hfresh⟩

/-- The second pass stays in auto mode and does not see six cycles per hour. -/
theorem auto_keeps_old :
    ¬ Along step Publishes (init .default .default) (sampleRun .eAUTO) := by
  intro h
  have hlast := ((((h.2 _ rfl).2 _ rfl).2 _ rfl).1 (by decide +kernel)).1
  have hcph := congrArg (fun c => (c.stages 0).cph) hlast.2
  revert hcph
  decide +kernel

end World

end ColonyCore.Storm
