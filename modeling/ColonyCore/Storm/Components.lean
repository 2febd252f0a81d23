/-
  ColonyCore.Storm.Components
  **THE SMALL COMPONENTS: `IdtSelection` AND `HvacRelayOutputs`.**

  The first selects the indoor temperature, the second turns the virtual outputs into relays
  and records when they went on and off.  `Publishing`, `ForcedOff` and `RelayEdges` say what
  follows for the points they share.
-/
import ColonyCore.Storm.ModelPoints

namespace ColonyCore.Storm.Component

open ColonyCore.System

/-! ## §1. `IdtSelection`. -/

namespace IdtSelection

/-- `MpIdtAlarm::Data`. -/
structure IdtAlarm where
  primaryAlarm : Bool
  secondaryAlarm : Bool
  primaryAck : Bool
  secondaryAck : Bool
  critical : Bool
  deriving DecidableEq, Repr

/-- `MpIdtAlarm::setAlarm`: a new alarm is not acknowledged. -/
def setAlarm (p : Mp IdtAlarm) (primary secondary isCritical : Bool) : Mp IdtAlarm :=
  p.write
    { primaryAlarm := primary
      secondaryAlarm := secondary
      primaryAck := if primary = true ∧ p.data.primaryAlarm = false then false
        else p.data.primaryAck
      secondaryAck := if secondary = true ∧ p.data.secondaryAlarm = false then false
        else p.data.secondaryAck
      critical := isCritical }

/-- `Input_T`. -/
structure Inputs where
  primaryIdt : Mp ℚ
  secondaryIdt : Mp ℚ
  enabledSecondaryIdt : Mp Bool

/-- `Output_T`. -/
structure Outputs where
  activeIdt : Mp ℚ
  systemForcedOffRefCnt : Mp (BitVec 32)
  idtAlarms : Mp IdtAlarm

/-- The secondary sensor is to be used. -/
def Inputs.enabled (ins : Inputs) : Bool := ins.enabledSecondaryIdt.read false

/-- No sensor in use is valid. -/
def Inputs.critical (ins : Inputs) : Bool :=
  !ins.primaryIdt.valid && (!ins.enabled || !ins.secondaryIdt.valid)

/-- The temperature that is selected. -/
def Inputs.idt (ins : Inputs) : ℚ :=
  if ins.enabled && ins.secondaryIdt.valid then ins.secondaryIdt.data else ins.primaryIdt.read 0

/-- **`IdtSelection::execute`**; the member is `m_critical`. -/
def execute (critical : Bool) (ins : Inputs) (outs : Outputs) : Bool × Outputs :=
  (ins.critical,
    { activeIdt := outs.activeIdt.writeData areFloatsEqual ins.idt
      idtAlarms := setAlarm outs.idtAlarms (!ins.primaryIdt.valid)
        (ins.enabled && !ins.secondaryIdt.valid) ins.critical
      systemForcedOffRefCnt :=
        if ins.critical = true ∧ critical = false then
          RefCounter.increment outs.systemForcedOffRefCnt
        else if ins.critical = false ∧ critical = true then
          RefCounter.decrement outs.systemForcedOffRefCnt
        else outs.systemForcedOffRefCnt })

end IdtSelection

/-! ## §2. `HvacRelayOutputs`. -/

namespace HvacRelayOutputs

/-- The members: the outputs of the last pass. -/
structure Members where
  systemOn : Bool
  y1 : Bool
  w1 : Bool
  deriving DecidableEq, Repr

/-- The constructor: all on, so that the first pass sees them go off. -/
def Members.init : Members := ⟨true, true, true⟩

/-- `Input_T`. -/
structure Inputs where
  vOutputs : Mp VirtualOutputs
  equipmentBeginTimes : Mp EquipmentTimes
  systemForcedOffRefCnt : Mp (BitVec 32)
  systemOn : Mp Bool

/-- An input is invalid. -/
def Inputs.failOff (ins : Inputs) : Bool :=
  !(ins.systemForcedOffRefCnt.valid && ins.vOutputs.valid && ins.systemOn.valid
    && ins.equipmentBeginTimes.valid)

/-- The virtual outputs, after the two overrides. -/
def Inputs.outputs (ins : Inputs) : VirtualOutputs :=
  let outputs := ins.vOutputs.read .zero
  let outputs := if ins.failOff then outputs.setSafeAllOff else outputs
  if ins.systemForcedOffRefCnt.read 0#32 > 0#32 then outputs.setCapacityOff else outputs

/-- The relays. -/
def relays (v : VirtualOutputs) : HvacRelayOutputs :=
  let finalFanSpeed := max v.indoorFan v.indoorFanCont
  { g := decide (finalFanSpeed > VIRTUAL_OUTPUTS_OFF)
    bk := (finalFanSpeed + 5) / 10 % 256
    w1 := decide (v.indoorStages 0 > VIRTUAL_OUTPUTS_OFF)
    w2 := decide (v.indoorStages 1 > VIRTUAL_OUTPUTS_OFF)
    w3 := decide (v.indoorStages 2 > VIRTUAL_OUTPUTS_OFF)
    o := !v.sovInHeating
    y1 := decide (v.outdoorStages 0 > VIRTUAL_OUTPUTS_OFF)
    y2 := false }

/-- When one output went on and off. -/
def edge (was is : Bool) (currentInterval : Precision) (beginOn beginOff : Precision) :
    Precision × Precision :=
  (if was = false ∧ is = true then currentInterval else beginOn,
    if was = true ∧ is = false then currentInterval else beginOff)

/-- The times after a pass. -/
def times (m : Members) (systemOn : Bool) (r : HvacRelayOutputs) (currentInterval : Precision)
    (t : EquipmentTimes) : EquipmentTimes :=
  let outdoor := edge m.y1 r.y1 currentInterval t.outdoorUnitBeginOnTime t.outdoorUnitBeginOffTime
  let indoor := edge m.w1 r.w1 currentInterval t.indoorUnitBeginOnTime t.indoorUnitBeginOffTime
  let system := edge m.systemOn systemOn currentInterval t.systemBeginOnTime t.systemBeginOffTime
  ⟨outdoor.1, outdoor.2, indoor.1, indoor.2, system.1, system.2⟩

/-- **`HvacRelayOutputs::execute`**: the members, the times and the relays. -/
def execute (m : Members) (ins : Inputs) (relayOutputs : Mp HvacRelayOutputs)
    (currentInterval : Precision) : Members × Mp EquipmentTimes × Mp HvacRelayOutputs :=
  let relaysNew := relays ins.outputs
  let systemOn := ins.systemOn.read false
  (⟨systemOn, relaysNew.y1, relaysNew.w1⟩,
    ins.equipmentBeginTimes.write
      (times m systemOn relaysNew currentInterval (ins.equipmentBeginTimes.read .zero)),
    -- `MpHvacRelayOutputs::validate`
    relayOutputs.write { relaysNew with bk := min relaysNew.bk 100 })

end HvacRelayOutputs

end ColonyCore.Storm.Component
