/-
  ColonyCore.Storm.ModelPoints
  **THE MODEL POINTS OF THE THERMOSTAT AND THEIR WRITERS (`Storm/Dm`).**

  A point keeps its data, whether it is valid, and a sequence number that advances with
  every change.  The two configurations are written from outside, by methods that take a
  lock request; the other points here only by the components.

    • `ValidEquipment` — what `MpEquipmentConfig::validate` leaves: no more stages than the
      type of the unit has,
    • `ConfigPoint`    — a configuration with its lock, and how many of its changes have not
      been looked at yet.
-/
import ColonyCore.Storm.Control
import ColonyCore.Dm.ModelPoint

namespace ColonyCore.Storm

open ColonyCore.System
open Dm (LockRequest SeqNum advanceSequenceNumber SEQUENCE_NUMBER_UNKNOWN)

/-! ## §1. Points that the components write. -/

namespace Mp

variable {α : Type}

/-- The new data of a point. -/
def update (p : Mp α) (new : α) : Mp α := ⟨true, new, advanceSequenceNumber p.sequenceNumber⟩

/-- `writeData`, with the point's own `isDataEqual_`. -/
def writeData (p : Mp α) (isDataEqual : α → α → Bool) (new : α) : Mp α :=
  if p.valid = false ∨ isDataEqual p.data new = false then p.update new else p

/-- `writeData` of a point that compares its data. -/
def write [DecidableEq α] (p : Mp α) (new : α) : Mp α :=
  p.writeData (fun data new => decide (data = new)) new

/-- `read`: an invalid point leaves the caller's variable alone. -/
def read (p : Mp α) (initial : α) : α := if p.valid then p.data else initial

variable [DecidableEq α] (p : Mp α) (new : α)

@[simp] theorem data_write : (p.write new).data = new := by
  unfold write writeData
  split
  · rfl
  next h =>
    simp only [decide_eq_false_iff_not, not_or, Decidable.not_not] at h
    exact h.2

@[simp] theorem valid_write : (p.write new).valid = true := by
  unfold write writeData
  split
  · rfl
  next h => simpa using (not_or.mp h).1

end Mp

namespace RefCounter

variable (p : Mp (BitVec 32))

/-- `updateAndCheckForChangeNotification`: only a change from or to zero counts as one. -/
def update (newValue : BitVec 32) : Mp (BitVec 32) :=
  if p.valid = false ∨ (p.data = 0#32 ∧ newValue ≠ 0#32) ∨ (newValue = 0#32 ∧ p.data ≠ 0#32) then
    p.update newValue
  else { p with data := newValue }

/-- `increment`, which stops at the largest value. -/
def increment : Mp (BitVec 32) :=
  let newValue := p.data + 1#32
  update p (if newValue < p.data then 0xFFFFFFFF#32 else newValue)

/-- `decrement`, which stops at zero. -/
def decrement : Mp (BitVec 32) :=
  let newValue := p.data - 1#32
  update p (if newValue > p.data then 0#32 else newValue)

theorem data_update (newValue : BitVec 32) :
    (update p newValue).data = newValue := by
  unfold update
  split <;> rfl

theorem valid_update (newValue : BitVec 32) (h : p.valid = true) :
    (update p newValue).valid = true := by
  unfold update
  split
  · rfl
  · exact h

end RefCounter

/-- `MpSimpleAlarm::Data`. -/
structure SimpleAlarm where
  active : Bool
  acked : Bool
  critical : Bool
  deriving DecidableEq, Repr

/-- `MpSimpleAlarm::setAlarm`: a change of the active status clears the acknowledgement. -/
def SimpleAlarm.setAlarm (p : Mp SimpleAlarm) (active isCritical : Bool) : Mp SimpleAlarm :=
  p.write
    { active := active
      acked := if active ≠ p.data.active then false else p.data.acked
      critical := isCritical }

/-- `MpSetpoints::Data`. -/
structure Setpoints where
  coolSetpt : ℚ
  heatSetpt : ℚ
  deriving DecidableEq

/-! ## §2. The equipment configuration. -/

/-- `OPTION_STORM_MAX_COMPRESSOR_COOLING_STAGES`, `OPTION_STORM_MAX_COMPRESSOR_HEATING_STAGES`. -/
def maxCompStages : OduType → Nat
  | .eAC => 1
  | .eHP => 0

/-- `OPTION_STORM_MAX_ELECTRIC_HEATING_STAGES`, `OPTION_STORM_MAX_FURNACE_HEATING_STAGES`. -/
def maxIduHeatingStages : IduType → Nat
  | .eAIR_HANDLER => 0
  | .eFURNACE => 3

/-- A configuration that `validate` leaves as it is. -/
structure ValidEquipment extends EquipmentConfig where
  compStages : numCompStages ≤ maxCompStages oduType
  iduHeatingStages : numIduHeatingStages ≤ maxIduHeatingStages iduType
  deriving DecidableEq

/-- `MpEquipmentConfig::Data` as a caller fills it in: the types are `int`s. -/
structure EquipmentData where
  iduType : Int
  oduType : Int
  numCompStages : BitVec 16
  numIduHeatingStages : BitVec 16
  hasVspBlower : Bool

namespace ValidEquipment

/-- Two known types and any numbers of stages. -/
def clamp (iduType : IduType) (oduType : OduType) (numCompStages numIduHeatingStages : Nat)
    (hasVspBlower : Bool) : ValidEquipment where
  iduType := iduType
  oduType := oduType
  numCompStages := min numCompStages (maxCompStages oduType)
  numIduHeatingStages := min numIduHeatingStages (maxIduHeatingStages iduType)
  hasVspBlower := hasVspBlower
  compStages := Nat.min_le_right _ _
  iduHeatingStages := Nat.min_le_right _ _

/-- `MpEquipmentConfig::validate`: an unknown type becomes a furnace, or an air conditioner,
without stages. -/
def validate (d : EquipmentData) : ValidEquipment :=
  let idu : IduType × Nat := match d.iduType with
    | 0 => (.eAIR_HANDLER, d.numIduHeatingStages.toNat)
    | 1 => (.eFURNACE, d.numIduHeatingStages.toNat)
    | _ => (.eFURNACE, 0)
  let odu : OduType × Nat := match d.oduType with
    | 0 => (.eAC, d.numCompStages.toNat)
    | 1 => (.eHP, d.numCompStages.toNat)
    | _ => (.eAC, 0)
  clamp idu.1 odu.1 odu.2 idu.2 d.hasVspBlower

/-- `{ 0, }`. -/
def zero : ValidEquipment := clamp .eAIR_HANDLER .eAC 0 0 false

/-- `hookSetInvalid`: the default configuration. -/
def default : ValidEquipment := clamp .eFURNACE .eAC 1 1 false

end ValidEquipment

/-- The write methods of `MpEquipmentConfig`. -/
inductive EquipmentWrite where
  | write (newConfiguration : EquipmentData)
  | writeIndoorType (newUnitType : IduType)
  | writeIndoorFanMotor (hasVspBlower : Bool)
  | writeIndoorHeatingStages (numIduHeatingStages : BitVec 16)
  | writeOutdoorType (newUnitType : OduType)
  | writeCompressorStages (numStages : BitVec 16)

/-- What a method writes: the data with one field replaced, validated. -/
def EquipmentWrite.apply (d : ValidEquipment) : EquipmentWrite → ValidEquipment
  | .write new => .validate new
  | .writeIndoorType t =>
    .clamp t d.oduType d.numCompStages d.numIduHeatingStages d.hasVspBlower
  | .writeIndoorFanMotor vsp =>
    .clamp d.iduType d.oduType d.numCompStages d.numIduHeatingStages vsp
  | .writeIndoorHeatingStages n =>
    .clamp d.iduType d.oduType d.numCompStages n.toNat d.hasVspBlower
  | .writeOutdoorType t =>
    .clamp d.iduType t d.numCompStages d.numIduHeatingStages d.hasVspBlower
  | .writeCompressorStages n =>
    .clamp d.iduType d.oduType n.toNat d.numIduHeatingStages d.hasVspBlower

/-! ## §3. The comfort configuration. -/

/-- `ComfortStageParameters_T::validate`. -/
def ComfortStageParameters.validate (p : ComfortStageParameters) : ComfortStageParameters :=
  let limit := DutyCycle.maxMinimumTimeLimit p.cph
  { p with
    minOffTime := if p.minOffTime > limit then limit else p.minOffTime
    minOnTime := if p.minOnTime > limit then limit else p.minOnTime }

/-- `ComfortStageParameters_T()`: all zeros. -/
def ComfortStageParameters.zero : ComfortStageParameters := ⟨0#32, 0#32, .e2CPH⟩

/-- `setDefaults`. -/
def ComfortStageParameters.default : ComfortStageParameters := ⟨300#32, 300#32, .e3CPH⟩

/-- `ComfortConfig_T()`. -/
def ComfortConfig.zero : ComfortConfig := ⟨.zero, .zero, .zero⟩

/-- `MpComfortConfig::hookSetInvalid`. -/
def ComfortConfig.default : ComfortConfig := ⟨.default, .default, .default⟩

/-- The write methods of `MpComfortConfig`. -/
inductive ComfortWrite where
  | write (newConfiguration : ComfortConfig)
  | writeCompressorCooling (newParameters : ComfortStageParameters)
  | writeCompressorHeating (newParameters : ComfortStageParameters)
  | writeIndoorHeating (newParameters : ComfortStageParameters)

/-- What a method writes.  `write` validates a COPY and stores what it was given. -/
def ComfortWrite.apply (d : ComfortConfig) : ComfortWrite → ComfortConfig
  | .write new => new
  | .writeCompressorCooling p => { d with compressorCooling := p.validate }
  | .writeCompressorHeating p => { d with compressorHeating := p.validate }
  | .writeIndoorHeating p => { d with indoorHeating := p.validate }

/-! ## §4. Points that are written from outside. -/

/-- A configuration.  `unseen` is no data of the program: the number of changes since
`OperatingMode` last looked at the sequence number. -/
structure ConfigPoint (α : Type) extends Mp α where
  locked : Bool
  unseen : Nat

namespace ConfigPoint

variable {α : Type} [DecidableEq α]

/-- The point has changed. -/
def change (p : ConfigPoint α) (valid : Bool) (data : α) (locked : Bool) : ConfigPoint α :=
  ⟨⟨valid, data, advanceSequenceNumber p.sequenceNumber⟩, locked, p.unseen + 1⟩

/-- `writeData`.  The comparison is one of bytes, so pad bytes (`samePadding`) may make it
fail for equal data. -/
def writeData (p : ConfigPoint α) (new : α) (samePadding : Bool) (lockRequest : LockRequest) :
    ConfigPoint α :=
  let lock := Dm.PointData.testAndUpdateLock p.locked lockRequest
  if lock.2 = true ∧ (p.valid = false ∨ p.data ≠ new ∨ samePadding = false) then
    p.change true new lock.1
  else { p with locked := lock.1 }

/-- `setInvalid`: the hook resets the data. -/
def setInvalid (p : ConfigPoint α) (default : α) (lockRequest : LockRequest) : ConfigPoint α :=
  let lock := Dm.PointData.testAndUpdateLock p.locked lockRequest
  if lock.2 = true ∧ p.valid = true then p.change false default lock.1
  else { p with locked := lock.1 }

/-- `OperatingMode` looks at the sequence number. -/
def seen (p : ConfigPoint α) : ConfigPoint α := { p with unseen := 0 }

end ConfigPoint

end ColonyCore.Storm
