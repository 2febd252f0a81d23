/-
  ColonyCore.Storm.Stage
  **THE STAGES OF THE EQUIPMENT: STATE MACHINES THAT NOTIFY EACH OTHER.**

  `Stage` is one stage object (`Basic` with the generated `Fsm` and its event queue),
  `Bank` the stages of one equipment with the memory that their pointers `m_args` point
  into.  A pointer is the number of the `Control::execute` call whose `Args_T` it was taken
  from; that of an earlier call points to DEAD memory, with whatever contents.

    • §2  the actions of `Basic`, through the pointer,
    • §3  `processEvent`, with the two actions that call another stage left open,
    • §4  the event queues of a bank, and the requests.
-/
import ColonyCore.Storm.DutyCycle

namespace ColonyCore.Storm

variable [CycleTimes]

open ColonyCore.System

/-! ## §1. States. -/

/-- `Control::Equipment::Args_T`. -/
structure Args where
  pvOut : ℚ
  systemConfig : SystemConfig
  currentInterval : Precision
  equipmentBeginTimes : EquipmentTimes
  whiteBox : WhiteBox
  vOutputs : VirtualOutputs
  cycleInfo : CycleInfo
  systemOn : Bool

/-- The events of the state machine; `noMsg` is `FSM_NO_MSG`. -/
inductive Event where
  | evBackTransitionCompleted
  | evLessCapacityNeeded
  | evOnRequest
  | evOffModeRequest
  | evStartingOnTimeExpired
  | evStartingOffTimeExpired
  | evOffTimeExpired
  | evExcessCapacity
  | evOnTimeExpired
  | evFromTransitionCompleted
  | evNeedMoreCapacity
  | noMsg
  deriving DecidableEq, Repr

inductive TopState where
  | Off | Active | SupplementingNextStage
  deriving DecidableEq, Repr

inductive ActiveState where
  | Cycling | TransitioningFromLowerStage | TransitioningBackToLowerStage
  deriving DecidableEq, Repr

inductive CyclingState where
  | OnCycle | OffCycle
  deriving DecidableEq, Repr

inductive OnCycleState where
  | StartingOn | OnTime
  deriving DecidableEq, Repr

inductive OffCycleState where
  | StartingOff | OffTime
  deriving DecidableEq, Repr

/-- `stateVars` of the generated machine. -/
structure StateVars where
  stateVar : TopState
  stateVarActive : ActiveState
  stateVarCycling : CyclingState
  stateVarOnCycle : OnCycleState
  stateVarOffCycle : OffCycleState
  deriving DecidableEq, Repr

/-! What the on-cycle and the off-cycle have in common: each has its status, its times, its
    events and its two states. -/

namespace CyclingState

def other : CyclingState → CyclingState
  | .OnCycle => .OffCycle
  | .OffCycle => .OnCycle

def mode : CyclingState → CycleStatus
  | .OnCycle => .eON_CYCLE
  | .OffCycle => .eOFF_CYCLE

variable (c : CyclingState)

def setTime (time : BitVec 32) (info : CycleInfo) : CycleInfo :=
  match c with
  | .OnCycle => { info with onTime := time }
  | .OffCycle => { info with offTime := time }

def setBegin (start : Precision) (info : CycleInfo) : CycleInfo :=
  match c with
  | .OnCycle => { info with beginOnTime := start }
  | .OffCycle => { info with beginOffTime := start }

def timeExpired : CyclingState → Event
  | .OnCycle => .evOnTimeExpired
  | .OffCycle => .evOffTimeExpired

def startingTimeExpired : CyclingState → Event
  | .OnCycle => .evStartingOnTimeExpired
  | .OffCycle => .evStartingOffTimeExpired

/-- In `StartingOn` or `StartingOff`. -/
def isStarting (v : StateVars) : Bool :=
  match c with
  | .OnCycle => v.stateVarOnCycle == .StartingOn
  | .OffCycle => v.stateVarOffCycle == .StartingOff

/-- To `StartingOn` or `StartingOff`. -/
def starting (v : StateVars) : StateVars :=
  match c with
  | .OnCycle => { v with stateVarCycling := .OnCycle, stateVarOnCycle := .StartingOn }
  | .OffCycle => { v with stateVarCycling := .OffCycle, stateVarOffCycle := .StartingOff }

/-- To `OnTime` or `OffTime`. -/
def started (v : StateVars) : StateVars :=
  match c with
  | .OnCycle => { v with stateVarOnCycle := .OnTime }
  | .OffCycle => { v with stateVarOffCycle := .OffTime }

end CyclingState

/-- Which output a stage switches: `BasicCooling`, or `BasicIndoorHeat` with its
    `m_outIndex` and `m_controlFan`. -/
inductive Output where
  | outdoor
  | indoor (outIndex : Fin 3) (controlFan : Bool)
  deriving DecidableEq

/-- A stage object among `n`. -/
structure Stage (n : Nat) where
  systemIndex : Fin 4
  output : Output
  startTime : Precision
  args : Option Nat
  nextStage : Option (Fin n)
  prevStage : Option (Fin n)
  startInOffCycle : Bool
  supplemented : Bool
  requestSupplementStartInOnCycle : Bool
  requestOffStartInOnCycle : Bool
  vars : StateVars
  events : List Event
  processing : Bool

/-- The `Args_T` of the call in progress with the number of that call, the contents of the
    memory of earlier calls, and whether a stage has used that. -/
structure Memory where
  args : Args
  call : Nat
  dead : Args
  usedDead : Bool

namespace Memory

/-- Read through a pointer; a null pointer is a failed assertion. -/
def read (m : Memory) : Option Nat → Option (Args × Memory)
  | none => none
  | some c => if c = m.call then some (m.args, m) else some (m.dead, { m with usedDead := true })

/-- Write through a pointer. -/
def write (m : Memory) (f : Args → Args) : Option Nat → Option Memory
  | none => none
  | some c =>
    if c = m.call then some { m with args := f m.args }
    else some { m with dead := f m.dead, usedDead := true }

end Memory

namespace Stage

variable {n : Nat}

/-- The constructors, and the first state of the machine. -/
def init (systemIndex : Fin 4) (output : Output) : Stage n where
  systemIndex := systemIndex
  output := output
  startTime := .zero
  args := none
  nextStage := none
  prevStage := none
  startInOffCycle := false
  supplemented := false
  requestSupplementStartInOnCycle := true
  requestOffStartInOnCycle := true
  vars := ⟨.Off, .Cycling, .OnCycle, .StartingOn, .StartingOff⟩
  events := []
  processing := false

variable (s : Stage n)

def isActive : Bool := s.vars.stateVar == .Active

def isSupplementing : Bool := s.vars.stateVar == .SupplementingNextStage

def isOff : Bool := s.vars.stateVar == .Off

def isOnCycle : Bool :=
  s.vars.stateVarCycling == .OnCycle && s.vars.stateVarActive == .Cycling
    && s.vars.stateVar == .Active

def isOffCycle : Bool :=
  s.vars.stateVarCycling == .OffCycle && s.vars.stateVarActive == .Cycling
    && s.vars.stateVar == .Active

/-! ## §2. Actions. -/

/-- `add` of the event queue, a ring buffer of 8 elements that holds 7; an overflow is a
    fatal error. -/
def push (msg : Event) : Option (Stage n) :=
  if s.events.length < 7 then some { s with events := s.events ++ [msg] } else none

/-- The output of the stage set to `value`; the fan follows the first stage only. -/
def setOutput (value fan : Nat) (a : Args) : Args :=
  let indoorFan := if s.systemIndex = 0 then fan else a.vOutputs.indoorFan
  match s.output with
  | .outdoor =>
    { a with vOutputs := { a.vOutputs with
      outdoorStages := fun _ => value, indoorFan := indoorFan } }
  | .indoor i _ =>
    { a with vOutputs := { a.vOutputs with
      indoorStages := Function.update a.vOutputs.indoorStages i value, indoorFan := indoorFan } }

/-- The fan speed `stageOn` sets: a furnace controls its fan itself. -/
def fanOn : Nat :=
  match s.output with
  | .outdoor => VIRTUAL_OUTPUTS_ON
  | .indoor _ controlFan => if controlFan then VIRTUAL_OUTPUTS_ON else VIRTUAL_OUTPUTS_OFF

/-- The arguments with the stage switched on or off. -/
def switched (a : Args) : CyclingState → Args
  | .OnCycle => s.setOutput VIRTUAL_OUTPUTS_ON s.fanOn a
  | .OffCycle => s.setOutput VIRTUAL_OUTPUTS_OFF VIRTUAL_OUTPUTS_OFF a

/-- `stageOn` and `stageOff`. -/
def switch (c : CyclingState) (s : Stage n) (m : Memory) : Option Memory :=
  m.write (fun a => s.switched a c) s.args

def stageOn : Memory → Option Memory := s.switch .OnCycle

def stageOff : Memory → Option Memory := s.switch .OffCycle

/-- `initializeActive`, with the override of `BasicCooling`. -/
def initializeActive (m : Memory) : Option Memory := do
  let m ← s.stageOff m
  let m ← if s.systemIndex = 0 then m.write (fun a => { a with systemOn := true }) s.args
    else some m
  match s.output with
  | .outdoor =>
    m.write (fun a => { a with vOutputs := { a.vOutputs with sovInHeating := false } }) s.args
  | .indoor _ _ => some m

/-- `startOnTime` and `startOffTime`. -/
def startTimer (m : Memory) : Option (Stage n × Memory) := do
  let (a, m) ← m.read s.args
  some ({ s with startTime := a.currentInterval }, m)

/-- The length of a cycle at the present load. -/
def cycleTime (a : Args) : CyclingState → BitVec 32
  | .OnCycle => CycleTimes.calculateOnTime a.pvOut (a.systemConfig.stages s.systemIndex)
  | .OffCycle => CycleTimes.calculateOffTime a.pvOut (a.systemConfig.stages s.systemIndex)

/-- The do-action `checkOnTime` or `checkOffTime`: the cycle is over, or it is aborted. -/
def checkTime (c : CyclingState) (s : Stage n) (m : Memory) : Option (Stage n × Memory) := do
  let (a, m) ← m.read s.args
  if a.cycleInfo.mode = c.mode then
    let m ← m.write (fun a' =>
      { a' with cycleInfo := c.setTime (s.cycleTime a c) a'.cycleInfo }) s.args
    if expiredPrecision s.startTime (.ofSeconds (s.cycleTime a c)) a.currentInterval
        || a.whiteBox.abortOnOffCycle then
      let m ← m.write (fun a =>
        { a with whiteBox := { a.whiteBox with abortOnOffCycle := false } }) s.args
      let s ← s.push c.timeExpired
      some (s, m)
    else some (s, m)
  else some (s, m)

def checkOnTime : Memory → Option (Stage n × Memory) := s.checkTime .OnCycle

def checkOffTime : Memory → Option (Stage n × Memory) := s.checkTime .OffCycle

/-- The entry of `StartingOn` or `StartingOff`. -/
def startingStage (c : CyclingState) (s : Stage n) (m : Memory) :
    Option (Stage n × Memory) := do
  let m ← s.switch c m
  let m ← m.write (fun a =>
    { a with cycleInfo := { c.setBegin s.startTime a.cycleInfo with mode := c.mode } }) s.args
  let (s, m) ← s.checkTime c m
  let s ← s.push c.startingTimeExpired
  some (s, m)

def startingStageOn : Memory → Option (Stage n × Memory) := s.startingStage .OnCycle

def startingStageOff : Memory → Option (Stage n × Memory) :=
  s.startingStage .OffCycle

def shutdownStage (m : Memory) : Option Memory := do
  let m ← s.stageOff m
  if s.systemIndex = 0 then
    m.write (fun a =>
      { a with systemOn := false, cycleInfo := { a.cycleInfo with mode := .eOFF } }) s.args
  else some m

def initializeStage : Stage n :=
  { s with
    startInOffCycle := false
    supplemented := false
    nextStage := none
    prevStage := none
    args := none
    requestOffStartInOnCycle := true
    requestSupplementStartInOnCycle := true
    startTime := .zero }

/-! ## §3. The state machine. -/

/-- Enter a cycle: start the timer and the stage, in the first state of the cycle. -/
def beginCycle (c : CyclingState) (s : Stage n) (m : Memory) : Option (Stage n × Memory) := do
  let (s, m) ← s.startTimer m
  let (s, m) ← s.startingStage c m
  some ({ s with vars := c.starting s.vars }, m)

/-- The choice at the entry of `Cycling`. -/
def enterCycling (m : Memory) : Option (Stage n × Memory) := do
  let (s, m) ← s.beginCycle (if s.startInOffCycle then .OffCycle else .OnCycle) m
  some ({ s with vars := { s.vars with stateVar := .Active, stateVarActive := .Cycling } }, m)

/-- The part of `processEvent` inside `Cycling`, with whether it consumed the event.  The
    do-action of `OnTime` and `OffTime` comes before the event is looked at. -/
def processCycling (m : Memory) (msg : Event) :
    Option (Stage n × Memory × Bool) := do
  let c := s.vars.stateVarCycling
  let isStarting := c.isStarting s.vars
  let (s, m) ← if isStarting then some (s, m) else s.checkTime c m
  if isStarting && msg == c.startingTimeExpired then
    let m ← s.switch c m
    some ({ s with vars := c.started s.vars }, m, true)
  else if msg = c.timeExpired then
    let (s, m) ← s.beginCycle c.other m
    some (s, m, true)
  else some (s, m, false)

/-- The transitions that call a neighbouring stage in their midst. -/
inductive Handover where
  | enterSupplementing
  | notifyLowerStage
  deriving DecidableEq

/-- The transition to `Off` on a change of the operating mode. -/
def offModeRequest : Stage n :=
  let s := s.initializeStage
  { s with vars := { s.vars with stateVar := .Off } }

/-- `processEvent` in the cycling states. -/
def processInCycling (m : Memory) (msg : Event) : Option (Stage n × Memory × Option Handover) := do
  let (s, m, evConsumed) ← s.processCycling m msg
  if evConsumed then some (s, m, none)
  else if msg = .evExcessCapacity then
    if s.supplemented then
      -- `initializeBackTransition`
      let s ← s.push .evBackTransitionCompleted
      some ({ s with vars := { s.vars with
        stateVarActive := .TransitioningBackToLowerStage } }, m, none)
    else
      let m ← s.shutdownStage m
      some ({ s with vars := { s.vars with stateVar := .Off } }, m, none)
  else if msg = .evNeedMoreCapacity then some (s, m, some .enterSupplementing)
  else if msg = .evOffModeRequest then some (s.offModeRequest, m, none)
  else some (s, m, none)

/-- **`processEvent`**, up to a call of another stage. -/
def processEvent (m : Memory) (msg : Event) :
    Option (Stage n × Memory × Option Handover) :=
  match s.vars.stateVar with
  | .Off => do
    if msg = .evOnRequest then
      if s.supplemented then
        -- `initializeFromTransition`
        let s ← s.push .evFromTransitionCompleted
        some ({ s with vars := { s.vars with
          stateVar := .Active, stateVarActive := .TransitioningFromLowerStage } }, m, none)
      else
        let m ← s.initializeActive m
        let (s, m) ← s.enterCycling m
        some (s, m, none)
    else some (s, m, none)
  | .Active =>
    match s.vars.stateVarActive with
    | .Cycling => s.processInCycling m msg
    | .TransitioningFromLowerStage => do
      if msg = .evFromTransitionCompleted then
        let (s, m) ← s.enterCycling m
        some (s, m, none)
      else if msg = .evOffModeRequest then some (s.offModeRequest, m, none)
      else some (s, m, none)
    | .TransitioningBackToLowerStage =>
      if msg = .evBackTransitionCompleted then some (s, m, some .notifyLowerStage)
      else if msg = .evOffModeRequest then some (s.offModeRequest, m, none)
      else some (s, m, none)
  | .SupplementingNextStage => do
    if msg = .evLessCapacityNeeded then
      let (s, m) ← s.enterCycling m
      some (s, m, none)
    else if msg = .evOffModeRequest then some (s.offModeRequest, m, none)
    else some (s, m, none)

/-- The rest of a transition, after the other stage has been called. -/
def complete (m : Memory) : Handover → Option (Stage n × Memory)
  | .enterSupplementing => do
    let m ← s.stageOn m
    some ({ s with vars := { s.vars with stateVar := .SupplementingNextStage } }, m)
  | .notifyLowerStage => do
    let s := { s with prevStage := none, supplemented := false }
    let m ← s.shutdownStage m
    some ({ s with vars := { s.vars with stateVar := .Off, stateVarActive := .Cycling } }, m)

end Stage

/-! ## §4. The stages of one equipment. -/

/-- The stage objects and the memory. -/
structure Bank (n : Nat) where
  stages : Fin n → Stage n
  memory : Memory

namespace Bank

variable {n : Nat}

variable (b : Bank n)

/-- Stage `i` and the memory, after a step of the stage. -/
def store (i : Fin n) (s : Stage n) (m : Memory) : Bank n :=
  ⟨Function.update b.stages i s, m⟩

/-- Members of stage `i` set. -/
def modifyStage (i : Fin n) (f : Stage n → Stage n) : Bank n :=
  b.store i (f (b.stages i)) b.memory

/-- `generateEvent`: queue the event and, unless the stage is already processing one,
    process the queue. -/
def generateEvent (drain : Fin n → Bank n → Option (Bank n)) (i : Fin n) (msg : Event)
    (b : Bank n) : Option (Bank n) := do
  let s ← (b.stages i).push msg
  if s.processing then some (b.modifyStage i fun _ => s)
  else drain i (b.modifyStage i fun _ => { s with processing := true })

/-- The call of the neighbouring stage in the midst of a transition of stage `i`:
    `notifyAsActiveStage_` or `notifyAsExitingSupplmenting_`; there have to be a neighbour
    and arguments. -/
def notify (drain : Fin n → Bank n → Option (Bank n)) (i : Fin n) (b : Bank n) :
    Stage.Handover → Option (Bank n)
  | .enterSupplementing => do
    let s := b.stages i
    let c ← s.args
    let j ← s.nextStage
    let b := b.modifyStage j fun t =>
      { t with
        args := some c
        startInOffCycle := !s.requestSupplementStartInOnCycle
        supplemented := true
        nextStage := none
        prevStage := some i }
    b.generateEvent drain j .evOnRequest
  | .notifyLowerStage => do
    let s := b.stages i
    let c ← s.args
    let j ← s.prevStage
    let b := b.modifyStage j fun t =>
      { t with
        args := some c
        startInOffCycle := !s.requestOffStartInOnCycle
        nextStage := none }
    b.generateEvent drain j .evLessCapacityNeeded

/-- `processEvent` of stage `i`, whole. -/
def processEvent (drain : Fin n → Bank n → Option (Bank n)) (i : Fin n) (msg : Event)
    (b : Bank n) : Option (Bank n) := do
  let (s, m, handover) ← (b.stages i).processEvent b.memory msg
  let b := b.store i s m
  match handover with
  | none => some b
  | some h =>
    let b ← b.notify drain i h
    let (s, m) ← (b.stages i).complete b.memory h
    some (b.store i s m)

/-- The loop of `generateEvent`, with a bound on the number of events. -/
def drain : Nat → Fin n → Bank n → Option (Bank n)
  | 0, _, _ => none
  | fuel + 1, i, b =>
    match (b.stages i).events with
    | [] => some (b.modifyStage i fun s => { s with processing := false })
    | msg :: rest => do
      let b := b.modifyStage i fun s => { s with events := rest }
      let b ← b.processEvent (drain fuel) i msg
      drain fuel i b

/-- A bound that no request reaches. -/
def maxEvents : Nat := 16

/-- An event from outside. -/
def send (i : Fin n) (msg : Event) : Option (Bank n) :=
  b.generateEvent (drain maxEvents) i msg

/-- `requestOn`, starting in an on-cycle. -/
def requestOn (i : Fin n) : Option (Bank n) :=
  (b.modifyStage i fun s =>
    { s with args := some b.memory.call, startInOffCycle := false, supplemented := false }).send
    i .evOnRequest

/-- `requestAsSupplement`, the next stage starting in an on-cycle. -/
def requestAsSupplement (i nextStage : Fin n) : Option (Bank n) :=
  (b.modifyStage i fun s =>
    { s with
      args := some b.memory.call
      requestSupplementStartInOnCycle := true
      nextStage := some nextStage }).send i .evNeedMoreCapacity

/-- `requestModeToOff`: the one request that does not set the pointer. -/
def requestModeToOff (i : Fin n) : Option (Bank n) := b.send i .evOffModeRequest

/-- `requestOff`, the lower stage starting in an on-cycle. -/
def requestOff (i : Fin n) : Option (Bank n) :=
  (b.modifyStage i fun s =>
    { s with args := some b.memory.call, requestOffStartInOnCycle := true }).send
    i .evExcessCapacity

/-- `execute`. -/
def execute (i : Fin n) : Option (Bank n) :=
  (b.modifyStage i fun s => { s with args := some b.memory.call }).send i .noMsg

end Bank

end ColonyCore.Storm
