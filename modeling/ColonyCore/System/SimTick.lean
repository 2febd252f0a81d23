/-
  ColonyCore.System.SimTick
  **SIMULATED TICKS (`Cpl/System/_simtick/SimTick.cpp`).**

  One tick source calls `advance`; any threads loop on `topLevelWait`, `applicationWait` and
  exit.  A step is one critical section of `myLock_`, one access to `m_ackPending` or one
  semaphore operation.

    • `advance` drains `tickSource_`, moves the time on and wakes all waiters in one section,
      and then waits once for each thread that it woke,
    • `topLevelWait` queues the thread, clears `m_ackPending` and signals in THREE steps,
    • `applicationWait` and the exit signal only if `m_ackPending` is set.

  `busy` and `owes` are histories: the thread was woken and has not since reached one of the
  points where its tick ends, and has not since signalled the tick source.
-/
import Mathlib.Data.BitVec
import ColonyCore.Lib.Interleaving

namespace ColonyCore.System

/-- Where a thread is. -/
inductive TickPc
  /-- `threadInit_` has not been called -/
  | unborn
  /-- in the application -/
  | running
  /-- `topLevelWait`, queued: before `m_ackPending = false` -/
  | queued
  /-- `topLevelWait`, before `tickSource_.signal()` -/
  | queuedSignal
  /-- `m_waiter.waitInRealTime()` -/
  | waiting
  /-- `applicationWait` or (`exits`) `onThreadExit_`, before `m_ackPending = false` -/
  | ack (exits : Bool)
  | ackSignal (exits : Bool)
  | dead
  deriving DecidableEq

/-- The `SimTick` object of a thread, its place and its histories. -/
structure SimInfo (w : Nat) where
  curTicks : BitVec w
  ackPending : Bool
  /-- `m_waiter` -/
  waiter : Nat
  pc : TickPc
  busy : Bool
  owes : Bool
  deriving DecidableEq

/-- Where the tick source is. -/
inductive SourcePc (w : Nat)
  /-- not in `advance` -/
  | idle
  /-- in the loop of `tryWait`, with `numTicks` left after this tick -/
  | drain (numTicks : BitVec w)
  /-- before the critical section -/
  | locks (numTicks : BitVec w)
  /-- before the first of `waiters + 1` waits -/
  | waits (waiters : Nat) (numTicks : BitVec w)
  deriving DecidableEq

/-- The static variables, the threads `τ` and the tick source. -/
structure SimTick (w : Nat) (τ : Type) where
  milliseconds : BitVec w
  remainingTicks : BitVec w
  tickSource : Nat
  waiters : List τ
  info : τ → SimInfo w
  source : SourcePc w

namespace SimTick

variable {w : Nat} {τ : Type}

/-- The start of the program. -/
def boot : SimTick w τ where
  milliseconds := 0#w
  remainingTicks := 0#w
  tickSource := 0
  waiters := []
  info _ := ⟨0#w, false, 0, .unborn, false, false⟩
  source := .idle

variable [DecidableEq τ]

/-! ## §1. The tick source. -/

/-- One waiter: `m_ackPending = true; m_waiter.signal()`. -/
def wake (i : SimInfo w) : SimInfo w :=
  { i with ackPending := true, waiter := i.waiter + 1, busy := true, owes := true }

/-- `wakeUpWaiters`: how many waiters were woken. -/
def wakeUpWaiters : List τ → (τ → SimInfo w) → Nat × (τ → SimInfo w)
  | [], info => (0, info)
  | t :: ts, info =>
    let (waiters, info) := wakeUpWaiters ts (Function.update info t (wake (info t)))
    (waiters + 1, info)

variable (minTicks : BitVec w)

variable (s : SimTick w τ)

/-- The test of the loop of `advance`; `minTicks` is
    `OPTION_CPL_SYSTEM_SIM_TICK_MIN_TICKS_FOR_ADVANCE`. -/
def nextTick (numTicks : BitVec w) : SimTick w τ :=
  if minTicks ≤ numTicks then { s with source := .drain (numTicks - minTicks) }
  else { s with remainingTicks := numTicks, source := .idle }

/-- A step of the tick source inside `advance`; `none`: it is blocked, or not in `advance`. -/
def sourceStep : Option (SimTick w τ) :=
  match s.source with
  | .idle => none
  | .drain numTicks =>
    some (if s.tickSource = 0 then { s with source := .locks numTicks }
      else { s with tickSource := s.tickSource - 1 })
  | .locks numTicks =>
    let (waiters, info) := wakeUpWaiters s.waiters s.info
    let s := { s with
      milliseconds := s.milliseconds + minTicks
      waiters := []
      info := info }
    some (match waiters with
      | 0 => s.nextTick minTicks numTicks
      | waiters + 1 => { s with source := .waits waiters numTicks })
  | .waits waiters numTicks =>
    if s.tickSource = 0 then none
    else
      let s := { s with tickSource := s.tickSource - 1 }
      some (match waiters with
        | 0 => s.nextTick minTicks numTicks
        | waiters + 1 => { s with source := .waits waiters numTicks })

/-! ## §2. The threads. -/

def setInfo (t : τ) (i : SimInfo w) : SimTick w τ :=
  { s with info := Function.update s.info t i }

/-- `tickSource_.signal()`. -/
def signal : SimTick w τ := { s with tickSource := s.tickSource + 1 }

/-- `testAndQueue`. -/
def testAndQueue (t : τ) : SimTick w τ :=
  if (s.info t).curTicks = s.milliseconds then
    { s with waiters := s.waiters ++ [t] }.setInfo t { s.info t with pc := .queued, busy := false }
  else s.setInfo t { s.info t with curTicks := s.milliseconds }

/-- The test of `m_ackPending` in `applicationWait` and `onThreadExit_`. -/
def testAck (t : τ) (exits : Bool) : SimTick w τ :=
  s.setInfo t { s.info t with
    busy := false
    pc := if (s.info t).ackPending then .ack exits else if exits then .dead else .running }

/-- The next step of a thread inside a call; `none`: it is blocked, or in no call. -/
def threadStep (t : τ) : Option (SimTick w τ) :=
  match (s.info t).pc with
  | .queued =>
    some (s.setInfo t { s.info t with ackPending := false, pc := .queuedSignal })
  | .queuedSignal => some (s.signal.setInfo t { s.info t with owes := false, pc := .waiting })
  | .waiting =>
    if (s.info t).waiter = 0 then none
    else some (s.setInfo t { s.info t with waiter := (s.info t).waiter - 1, pc := .running })
  | .ack exits =>
    some (s.setInfo t { s.info t with ackPending := false, pc := .ackSignal exits })
  | .ackSignal exits =>
    some (s.signal.setInfo t { s.info t with
      owes := false, pc := if exits then .dead else .running })
  | _ => none

/-! ## §3. The system. -/

/-- One step: of the tick source, or of a thread. -/
inductive Act (w : Nat) (τ : Type)
  | advance (numTicks : BitVec w)
  | source
  | threadInit (t : τ)
  | topLevelWait (t : τ)
  | applicationWait (t : τ)
  | onThreadExit (t : τ)
  | next (t : τ)
  deriving DecidableEq

def step : Act w τ → Option (SimTick w τ)
  | .advance numTicks =>
    if s.source = .idle then some (s.nextTick minTicks (numTicks + s.remainingTicks)) else none
  | .source => s.sourceStep minTicks
  | .threadInit t =>
    if (s.info t).pc = .unborn then
      some (s.setInfo t { s.info t with curTicks := s.milliseconds, pc := .running })
    else none
  | .topLevelWait t => if (s.info t).pc = .running then some (s.testAndQueue t) else none
  | .applicationWait t => if (s.info t).pc = .running then some (s.testAck t false) else none
  | .onThreadExit t => if (s.info t).pc = .running then some (s.testAck t true) else none
  | .next t => s.threadStep t

end SimTick

end ColonyCore.System
