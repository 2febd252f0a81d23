/-
  ColonyCore.Storm.HeatingLadder
  **THE LADDER OF THE INDOOR HEATING, CALL AFTER CALL.**

  `Control` drives the equipment in its own operating mode; what one call writes to the
  model points `vOutputs`, `cycleInfo` and `systemOn` the next call reads.  The first call
  resets the equipment, whatever these hold.

    • `drive` — one call, as `Control::execute` makes it,
    • `drive_ladder` — what a call does to the ladder,
    • `heating_ladder` — the law of the ladder, after every call of every run.
-/
import ColonyCore.Storm.Control

namespace ColonyCore.Storm

open ColonyCore.System Interleaving Control Bank IndoorHeating

/-! ## §1. The calls. -/

/-- The component and the model points that it carries from call to call. -/
structure Driven where
  control : Control.State 3
  vOutputs : VirtualOutputs
  cycleInfo : CycleInfo
  systemOn : Bool

/-- A call in the equipment's own mode, with one, two or three stages; the sequence number of
    a model point is never the unknown one. -/
structure Drive where
  systemConfig : SystemConfig
  sequenceNumber : BitVec 16
  operatingModeChanged : Bool
  pvOut : ℚ
  equipmentBeginTimes : EquipmentTimes
  whiteBox : WhiteBox
  currentInterval : Precision
  dead : Args
  matching : systemConfig.currentOpMode = .eID_HEATING
  configured : systemConfig.numIndoorStages ∈ [1, 2, 3]
  known : sequenceNumber ≠ SEQUENCE_NUMBER_UNKNOWN

/-- A valid model point. -/
def Mp.of {α : Type} (data : α) : Mp α := ⟨true, data, SEQUENCE_NUMBER_UNKNOWN + 1#16⟩

/-- What the call reads. -/
def Drive.call (d : Drive) (s : Driven) : Call where
  inputs := {
    systemConfig := ⟨true, d.systemConfig, d.sequenceNumber⟩
    pvOut := .of d.pvOut
    vOutputs := .of s.vOutputs
    equipmentBeginTimes := .of d.equipmentBeginTimes
    systemOn := .of s.systemOn
    cycleInfo := .of s.cycleInfo
    operatingModeChanged := .of d.operatingModeChanged
    whiteBox := .of d.whiteBox }
  currentInterval := d.currentInterval
  dead := d.dead

/-- **One call**; the outputs are written through `MpVirtualOutputs::write`. -/
def drive [CycleTimes] (s : Driven) (d : Drive) : Option Driven :=
  match execute equipment s.control (d.call s) with
  | some (control, .wrote a) => some ⟨control, a.vOutputs.validate, a.cycleInfo, a.systemOn⟩
  | _ => none

/-! ## §2. The law. -/

/-- Stage `i`. -/
def Driven.stage (s : Driven) (i : Fin 3) : Stage 3 := s.control.bank.stages i

/-- The output of stage `i`. -/
def Driven.output (s : Driven) (i : Fin 3) : Nat := s.vOutputs.indoorStages i

/-- **The law of the ladder.** -/
structure StageLadder (s : Driven) : Prop where
  /-- At most one stage is active. -/
  one_active : ∀ i j, (s.stage i).isActive = true → (s.stage j).isActive = true → i = j
  /-- Every stage below it supplements it, with its output on. -/
  below : ∀ i j, (s.stage i).isActive = true → j < i →
    (s.stage j).isSupplementing = true ∧ s.output j = VIRTUAL_OUTPUTS_ON
  /-- Every stage above it is off, with its output off. -/
  above : ∀ i j, (s.stage i).isActive = true → i < j →
    (s.stage j).isOff = true ∧ s.output j = VIRTUAL_OUTPUTS_OFF
  /-- If no stage is active, all are off, with their outputs off. -/
  none_active : (∀ i, (s.stage i).isActive = false) →
    ∀ i, (s.stage i).isOff = true ∧ s.output i = VIRTUAL_OUTPUTS_OFF
  systemOn : s.systemOn = true ↔ (s.stage 0).isOff = false
  /-- The output of the active stage is on exactly in an on-cycle. -/
  cycle : ∀ i, (s.stage i).isActive = true →
    (s.output i = VIRTUAL_OUTPUTS_ON ↔ (s.stage i).isOnCycle = true)

/-- Every stage stands on the ladder, and the model points hold its outputs. -/
def OnLadder (top : Option (Fin 3 × CyclingState)) (s : Driven) : Prop :=
  Standing port (s.control.bank.memory.call + 1) (restAt top) s.control.bank
    ∧ Outputs port top s.vOutputs s.systemOn

variable {top : Option (Fin 3 × CyclingState)} {s : Driven} {i : Fin 3}

theorem OnLadder.output (h : OnLadder top s) (i : Fin 3) : s.output i = (restAt top i).value :=
  h.2.level i

theorem OnLadder.isOff (h : OnLadder top s) (hi : restAt top i = .off) :
    (s.stage i).isOff = true := by
  have hrests := (h.1 i).rests
  rw [hi] at hrests
  exact beq_iff_eq.mpr hrests

theorem OnLadder.isSupplementing (h : OnLadder top s) (hi : restAt top i = .supplementing) :
    (s.stage i).isSupplementing = true := by
  have hrests := (h.1 i).rests
  rw [hi] at hrests
  exact beq_iff_eq.mpr hrests

theorem OnLadder.inCycle {c : CyclingState} (h : OnLadder (some (i, c)) s) :
    (s.stage i).InCycle c false := by
  have hrests := (h.1 i).rests
  rwa [restAt_self] at hrests

theorem OnLadder.active (h : OnLadder top s) (hi : (s.stage i).isActive = true) :
    ∃ c, top = some (i, c) :=
  Equipment.active_top h.1 hi

/-- The first stage is off exactly when there is no active stage. -/
theorem OnLadder.first_isOff (h : OnLadder top s) : (s.stage 0).isOff = top.isNone := by
  cases top with
  | none => exact h.isOff rfl
  | some t =>
    obtain ⟨k, c⟩ := t
    have hrests := (h.1 0).rests
    show ((s.stage 0).vars.stateVar == .Off) = false
    by_cases hk : k = 0
    · subst hk
      rw [h.inCycle.active]
      rfl
    · rw [restAt_lt (lt_of_first rfl hk)] at hrests
      rw [show (s.stage 0).vars.stateVar = .SupplementingNextStage from hrests]
      rfl

theorem OnLadder.stageLadder (h : OnLadder top s) : StageLadder s where
  one_active i j hi hj := by
    obtain ⟨c, rfl⟩ := h.active hi
    obtain ⟨d, heq⟩ := h.active hj
    exact (Prod.mk.inj (Option.some.inj heq)).1
  below i j hi hlt := by
    obtain ⟨c, rfl⟩ := h.active hi
    refine ⟨h.isSupplementing (restAt_lt hlt), ?_⟩
    rw [h.output, restAt_lt hlt]
    rfl
  above i j hi hlt := by
    obtain ⟨c, rfl⟩ := h.active hi
    refine ⟨h.isOff (restAt_gt hlt), ?_⟩
    rw [h.output, restAt_gt hlt]
    rfl
  none_active hnone i := by
    cases top with
    | none => exact ⟨h.isOff rfl, h.output i⟩
    | some t =>
      obtain ⟨k, c⟩ := t
      have hactive : (s.stage k).isActive = true := beq_iff_eq.mpr h.inCycle.active
      rw [hnone k] at hactive
      cases hactive
  systemOn := by
    rw [h.first_isOff, h.2.systemOn]
    cases top <;> simp
  cycle i hi := by
    obtain ⟨c, rfl⟩ := h.active hi
    have hin := h.inCycle
    rw [h.output, restAt_self, Stage.isOnCycle, hin.active, hin.cycling, hin.cycle]
    cases c <;> decide

/-! ## §3. Runs. -/

theorem outputs_validate {v : VirtualOutputs} {on : Bool}
    (h : Outputs port top v on) : Outputs port top v.validate on := by
  refine ⟨fun i => ?_, h.systemOn⟩
  have hlevel : v.indoorStages i = (restAt top i).value := h.level i
  show min (v.indoorStages i) 1000 = _
  rw [hlevel]
  cases restAt top i with
  | off => rfl
  | cycling c => cases c <;> rfl
  | supplementing => rfl

variable [CycleTimes]

/-- **One call**: it is a step on the ladder, and if the outputs were not those of the ladder
    it has to be the first one. -/
theorem drive_ladder (d : Drive)
    (h : Standing port (s.control.bank.memory.call + 1) (restAt top) s.control.bank)
    (hfirst : s.control.sysCfgSequenceNumber = SEQUENCE_NUMBER_UNKNOWN
      ∨ Outputs port top s.vOutputs s.systemOn) :
    ∃ s' top', drive s d = some s' ∧ OnLadder top' s' := by
  let b : Bank 3 := { s.control.bank with memory := (d.call s).memory s.control.bank.memory }
  obtain ⟨b', top', hmatching, hstanding, _, _, houtputs⟩ :=
    lawful.matching (b := b) (changes s.control (d.call s)) h
  have hok : decide (b.memory.args.systemConfig.numIndoorStages ∈ [1, 2, 3]) = true :=
    decide_eq_true d.configured
  rw [hok] at hmatching
  have hexecute : execute equipment s.control (d.call s)
      = some (⟨b', if changes s.control (d.call s) then d.sequenceNumber
        else s.control.sysCfgSequenceNumber⟩, .wrote b'.memory.args) := by
    unfold Control.execute
    rw [if_neg (show ¬ (d.call s).inputs.valid = false from Bool.noConfusion)]
    show (if d.systemConfig.currentOpMode = .eID_HEATING then _ else _) = _
    rw [if_pos d.matching]
    show (executeMatching _ _ b).bind _ = _
    rw [hmatching]
    rfl
  have hchanges : changes s.control (d.call s) = true ∨ HasOutputs port top b.memory.args := by
    rcases hfirst with hunknown | houtputs
    · refine .inl (Bool.or_eq_true_iff.mpr (.inl ?_))
      rw [hunknown]
      exact bne_iff_ne.mpr d.known
    · exact .inr houtputs
  unfold drive
  rw [hexecute]
  exact ⟨_, top', rfl, hstanding, outputs_validate (houtputs hchanges)⟩

theorem run_ladder (calls : List Drive) (h : OnLadder top s) :
    ∃ s' top', run drive s calls = some s' ∧ OnLadder top' s' := by
  induction calls generalizing s top with
  | nil => exact ⟨s, top, rfl, h⟩
  | cons d calls ih =>
    obtain ⟨s₁, top₁, hdrive, hladder⟩ := drive_ladder d h.1 (.inr h.2)
    obtain ⟨s', top', hrun, hladder'⟩ := ih hladder
    refine ⟨s', top', ?_, hladder'⟩
    rw [run, hdrive]
    exact hrun

/-- **THE STAGE LADDER**: whatever the cycle times, from any contents of the model points every
    run of calls returns, and after every call the law of the ladder holds. -/
theorem heating_ladder (controlFan : Fin 3 → Bool) (a : Args) (vOutputs : VirtualOutputs)
    (cycleInfo : CycleInfo) (systemOn : Bool) (first : Drive) (calls : List Drive) :
    ∃ c s, start equipment (stages controlFan) a = some c
      ∧ run drive ⟨c, vOutputs, cycleInfo, systemOn⟩ (first :: calls) = some s
      ∧ StageLadder s := by
  obtain ⟨c, hstart, hstanding, _, hunknown⟩ :=
    lawful.start a (standing_start controlFan a)
  -- the first call resets the equipment, and its outputs with it
  obtain ⟨s₁, top₁, hdrive, hladder⟩ :=
    drive_ladder (s := ⟨c, vOutputs, cycleInfo, systemOn⟩) first hstanding (.inl hunknown)
  obtain ⟨s, top, hrun, hladder'⟩ := run_ladder calls hladder
  refine ⟨c, s, hstart, ?_, hladder'.stageLadder⟩
  rw [run, hdrive]
  exact hrun

end ColonyCore.Storm
