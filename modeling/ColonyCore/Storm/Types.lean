/-
  ColonyCore.Storm.Types
  **THE DATA OF THE THERMOSTAT: CONFIGURATIONS, OUTPUTS AND TIMES.**

  `float` values are rationals: no result below depends on rounding, and no load is a
  NaN.  The bounds of a stage carry the fact that they are in order, which is how
  `OperatingMode` makes them; an `int` that holds an enumeration is that enumeration.
-/
import ColonyCore.System.ElapsedTime
import Mathlib.Data.Rat.Defs
import Mathlib.Data.Fintype.Pi
import Mathlib.Algebra.Order.Ring.Rat
import Mathlib.Logic.Function.Basic

namespace ColonyCore.Storm

open ColonyCore.System

-- The stages of the outputs are counted from 0.
scoped instance neZeroOne : NeZero 1 := ⟨by decide⟩
scoped instance neZeroThree : NeZero 3 := ⟨by decide⟩
scoped instance neZeroFour : NeZero 4 := ⟨by decide⟩

/-! ## §1. Enumerations and options. -/

inductive OperatingMode where
  | eOFF | eCOOLING | eHEATING | eID_HEATING | eUNKNOWN
  deriving DecidableEq, Repr

inductive ThermostatMode where
  | eOFF | eCOOLING | eHEATING | eAUTO | eID_HEATING
  deriving DecidableEq, Repr

/-- Cycles per hour. -/
inductive Cph where
  | e2CPH | e3CPH | e4CPH | e5CPH | e6CPH
  deriving DecidableEq, Repr

inductive CycleStatus where
  | eOFF | eON_CYCLE | eOFF_CYCLE | eTRANSITIONING_UP | eTRANSITIONING_DOWN
  deriving DecidableEq, Repr

inductive IduType where
  | eAIR_HANDLER | eFURNACE
  deriving DecidableEq, Repr

inductive OduType where
  | eAC | eHP
  deriving DecidableEq, Repr

/-- `OPTION_STORM_MIN_COMPRESSOR_OFF_TIME_SEC`. -/
def MIN_COMPRESSOR_OFF_TIME_SEC : BitVec 32 := 300#32

/-- `OPTION_STORM_MIN_INDOOR_HEATER_OFF_TIME_SEC`. -/
def MIN_INDOOR_HEATER_OFF_TIME_SEC : BitVec 32 := 180#32

/-- `STORM_DM_MP_VIRTUAL_OUTPUTS_OFF` and `STORM_DM_MP_VIRTUAL_OUTPUTS_ON`. -/
def VIRTUAL_OUTPUTS_OFF : Nat := 0

@[inherit_doc VIRTUAL_OUTPUTS_OFF]
def VIRTUAL_OUTPUTS_ON : Nat := 1000

/-! ## §2. Configurations. -/

/-- `ComfortStageParameters_T`. -/
structure ComfortStageParameters where
  minOnTime : BitVec 32
  minOffTime : BitVec 32
  cph : Cph
  deriving DecidableEq, Repr

/-- `ComfortConfig_T`. -/
structure ComfortConfig where
  compressorCooling : ComfortStageParameters
  compressorHeating : ComfortStageParameters
  indoorHeating : ComfortStageParameters
  deriving DecidableEq, Repr

/-- `MpEquipmentConfig::Data`. -/
structure EquipmentConfig where
  iduType : IduType
  oduType : OduType
  numCompStages : Nat
  numIduHeatingStages : Nat
  hasVspBlower : Bool
  deriving DecidableEq, Repr

/-- `Stage_T`: the parameters of one stage of the system. -/
structure StageConfig where
  lowerBound : ℚ
  upperBound : ℚ
  minIndoorFan : Nat
  maxIndoorFan : Nat
  minOnTime : BitVec 32
  minOffTime : BitVec 32
  cph : Cph
  bounds : lowerBound < upperBound
  deriving DecidableEq

/-- `SystemConfig_T`; there are `OPTION_STORM_MAX_TOTAL_STAGES` = 1 + 3 stages. -/
structure SystemConfig where
  stages : Fin 4 → StageConfig
  currentOpMode : OperatingMode
  outdoorUnitType : OduType
  indoorUnitType : IduType
  numCompressorStages : Nat
  numIndoorStages : Nat
  totalStages : Nat
  fanContinuousSpeed : Nat
  gain : ℚ
  reset : ℚ
  maxPvOut : ℚ
  deriving DecidableEq

/-! ## §3. Outputs, times and flags. -/

/-- `VirtualOutputs_T`, with three indoor stages and one outdoor stage. -/
structure VirtualOutputs where
  indoorFan : Nat
  indoorFanCont : Nat
  indoorStages : Fin 3 → Nat
  outdoorFan : Nat
  outdoorStages : Fin 1 → Nat
  sovInHeating : Bool
  deriving DecidableEq

/-- `HvacRelayOutputs_T`. -/
structure HvacRelayOutputs where
  g : Bool
  bk : Nat
  w1 : Bool
  w2 : Bool
  w3 : Bool
  o : Bool
  y1 : Bool
  y2 : Bool
  deriving DecidableEq, Repr

/-- `EquipmentTimes_T`. -/
structure EquipmentTimes where
  outdoorUnitBeginOnTime : Precision
  outdoorUnitBeginOffTime : Precision
  indoorUnitBeginOnTime : Precision
  indoorUnitBeginOffTime : Precision
  systemBeginOnTime : Precision
  systemBeginOffTime : Precision
  deriving DecidableEq, Repr

/-- `CycleInfo_T`. -/
structure CycleInfo where
  beginOnTime : Precision
  beginOffTime : Precision
  onTime : BitVec 32
  offTime : BitVec 32
  mode : CycleStatus
  deriving DecidableEq, Repr

/-- `WhiteBox_T`. -/
structure WhiteBox where
  defeatEquipMinOffTime : Bool
  abortOnOffCycle : Bool
  deriving DecidableEq, Repr

/-- `EquipmentTimes_T()`. -/
def EquipmentTimes.zero : EquipmentTimes :=
  ⟨.zero, .zero, .zero, .zero, .zero, .zero⟩

/-- `CycleInfo_T()`. -/
def CycleInfo.zero : CycleInfo := ⟨.zero, .zero, 0#32, 0#32, .eOFF⟩

namespace VirtualOutputs

/-- All zeros. -/
def zero : VirtualOutputs := ⟨0, 0, fun _ => 0, 0, fun _ => 0, false⟩

variable (v : VirtualOutputs)

/-- `MpVirtualOutputs::setSafeAllOff`: everything but the switch-over valve. -/
def setSafeAllOff : VirtualOutputs :=
  { zero with sovInHeating := v.sovInHeating }

/-- `MpVirtualOutputs::setCapacityOff`: as above, and the continuous fan stays. -/
def setCapacityOff : VirtualOutputs :=
  { zero with sovInHeating := v.sovInHeating, indoorFanCont := v.indoorFanCont }

/-- `MpVirtualOutputs::validate`: no output above `MAX_OUTPUT`. -/
def validate : VirtualOutputs :=
  { v with
    indoorFan := min v.indoorFan 1000
    indoorFanCont := min v.indoorFanCont 1000
    outdoorFan := min v.outdoorFan 1000
    indoorStages := fun i => min (v.indoorStages i) 1000
    outdoorStages := fun i => min (v.outdoorStages i) 1000 }

end VirtualOutputs

end ColonyCore.Storm
