/-
  ColonyCore.System.TimerManager
  **SOFTWARE TIMERS (`Cpl/System/TimerManager.cpp`, `Cpl/System/Timer.cpp`).**

  Running timers stand in a delta list whose counts are relative to the timer before
  them and, for the first one, to the time of the last processing.  `processTimers`
  takes the elapsed time from the head, and calls `expired()` of every timer whose
  count reaches zero.  A callback may start timers (they wait in a second list until
  the processing is over) and stop timers anywhere.

  All of this runs in one thread.  A step of `Machine` is one call of a client, or
  the stretch of `processTimers` up to the next callback or its end, so that the
  clients' calls in a callback, and the time it takes, are steps of their own.
-/
import ColonyCore.Lib.DeltaList
import ColonyCore.System.TimerService

namespace ColonyCore.System

open Function

variable {τ : Type} [DecidableEq τ]

/-! ## §1. The code. -/

/-- `unsigned long` of `w` bits: a sum. -/
def ulAdd (w a b : Nat) : Nat := (a + b) % 2 ^ w

/-- `unsigned long` of `w` bits: a difference. -/
def ulSub (w a b : Nat) : Nat := (a + 2 ^ w - b) % 2 ^ w

/-- The members of a `TimerManager`.  A timer in one of the lists stands there with
its `m_count`; `left` holds the `m_count` of the timers that are in neither. -/
structure TimerManager (τ : Type) where
  counters : List (τ × Nat)
  pendingAttach : List (τ × Nat)
  left : τ → Nat
  timeMark : Nat
  timeNow : Nat
  inTickCall : Bool

namespace TimerManager

/-- The constructor, followed by `startManager` at time `now`. -/
def startManager (now : Nat) : TimerManager τ where
  counters := []
  pendingAttach := []
  left _ := 0
  timeMark := now
  timeNow := 0
  inTickCall := false

/-- `Timer::count`. -/
def count (m : TimerManager τ) (t : τ) : Nat :=
  match m.pendingAttach.lookup t with
  | some c => c
  | none =>
    match m.counters.lookup t with
    | some c => c
    | none => m.left t

/-- `addToActiveList`, on the list from the current position on. -/
def addToActiveList (w : Nat) (t : τ) : Nat → List (τ × Nat) → List (τ × Nat)
  | c, [] => [(t, c)]
  | c, (u, k) :: rest =>
    if c < k then (t, c) :: (u, ulSub w k c) :: rest
    else if ulSub w c k = 0 then (u, k) :: (t, ulSub w c k) :: rest
    else (u, k) :: addToActiveList w t (ulSub w c k) rest

/-- `nextPtr->increment`, if there is a next counter. -/
def incrementNext (w c : Nat) : List (τ × Nat) → List (τ × Nat)
  | [] => []
  | (u, k) :: rest => (u, ulAdd w k c) :: rest

/-- The removal of `detach` from the active list. -/
def removeCounter (w : Nat) (t : τ) : List (τ × Nat) → List (τ × Nat)
  | [] => []
  | (u, c) :: rest => if u = t then incrementNext w c rest else (u, c) :: removeCounter w t rest

variable (w : Nat)

/-- `detach`: the pending list first. -/
def detach (m : TimerManager τ) (t : τ) : TimerManager τ :=
  match m.pendingAttach.lookup t with
  | some c =>
    { m with pendingAttach := m.pendingAttach.filter (·.1 ≠ t)
             left := update m.left t c }
  | none =>
    match m.counters.lookup t with
    | some c =>
      { m with counters := removeCounter w t m.counters
               left := update m.left t c }
    | none => m

/-- `attach` of a timer with the count `c`. -/
def attach (m : TimerManager τ) (t : τ) (c : Nat) : TimerManager τ :=
  if m.inTickCall then { m with pendingAttach := m.pendingAttach ++ [(t, c)] }
  else { m with counters := addToActiveList w t c m.counters }

/-- `msecToCounts`, called at `now`. -/
def msecToCounts (m : TimerManager τ) (now milliseconds : Nat) : Nat :=
  ulAdd w milliseconds (ulSub w now m.timeNow)

/-- `Timer::start`, called at `now`. -/
def start (m : TimerManager τ) (now : Nat) (t : τ) (milliseconds : Nat) : TimerManager τ :=
  let m := m.detach w t
  m.attach w t (m.msecToCounts w now milliseconds)

/-- `Timer::stop`. -/
def stop (m : TimerManager τ) (t : τ) : TimerManager τ := m.detach w t

/-- `tick`, from the top of its outer loop with `msec` to go.  Either the loop ends,
or `expired()` of a timer is called with some of `msec` left.  A head that keeps a
count has taken all of `msec`, so the loop ends with it. -/
def tick (m : TimerManager τ) (msec : Nat) : TimerManager τ × Option (τ × Nat) :=
  if msec = 0 then (m, none) else
  match m.counters with
  | [] => (m, none)
  | (t, nextCount) :: rest =>
    if msec ≤ nextCount then
      if ulSub w nextCount msec = 0 then
        ({ m with counters := rest, left := update m.left t 0 }, some (t, 0))
      else ({ m with counters := (t, ulSub w nextCount msec) :: rest }, none)
    else
      ({ m with counters := rest, left := update m.left t (ulSub w nextCount nextCount) },
        some (t, ulSub w msec nextCount))

/-- `tick`, after a callback: the inner loop goes on while the first counter is
zero. -/
def tickAfterExpired (m : TimerManager τ) (msec : Nat) :
    TimerManager τ × Option (τ × Nat) :=
  match m.counters with
  | (t, 0) :: rest =>
    ({ m with counters := rest, left := update m.left t 0 }, some (t, msec))
  | _ => m.tick w msec

/-- The end of `processTimers`: the new time mark, and `tickComplete`. -/
def tickComplete (m : TimerManager τ) : TimerManager τ :=
  { m with timeMark := m.timeNow
           counters := m.pendingAttach.foldl (fun l p => addToActiveList w p.1 p.2 l) m.counters
           pendingAttach := []
           inTickCall := false }

end TimerManager

/-- The manager, the clock (`ElapsedTime::milliseconds`) and, while a callback runs,
the milliseconds `tick` has to go. -/
structure Machine (τ : Type) where
  mgr : TimerManager τ
  clock : Nat
  callback : Option Nat

/-- The steps of the one thread. -/
inductive Event (τ : Type) where
  | wait (milliseconds : Nat)
  | start (t : τ) (milliseconds : Nat)
  | stop (t : τ)
  /-- `processTimers` is called. -/
  | process
  /-- The callback returns to `tick`. -/
  | resume

namespace Machine

/-- `tick` has run to the next callback or to its end. -/
def continue_ (w clock : Nat) : TimerManager τ × Option (τ × Nat) → Machine τ × List (Obs τ)
  | (mgr, some (t, msec)) => (⟨mgr, clock, some msec⟩, [.expired t])
  | (mgr, none) => (⟨mgr.tickComplete w, clock, none⟩, [.finished])

/-- One step, and what a client sees of it.  `processTimers` is not called from a
callback. -/
def step (w : Nat) (m : Machine τ) : Event τ → Machine τ × List (Obs τ)
  | .wait k => ({ m with clock := m.clock + k }, [])
  | .start t d => ({ m with mgr := m.mgr.start w m.clock t d }, [.started t d m.clock])
  | .stop t => ({ m with mgr := m.mgr.stop w t }, [.stopped t])
  | .process =>
    match m.callback with
    | some _ => (m, [])
    | none =>
      let mgr := { m.mgr with timeNow := m.clock, inTickCall := true }
      let r := continue_ w m.clock (mgr.tick w (ulSub w m.clock m.mgr.timeMark))
      (r.1, .begun m.clock :: r.2)
  | .resume =>
    match m.callback with
    | none => (m, [])
    | some msec => continue_ w m.clock (m.mgr.tickAfterExpired w msec)

/-- All steps of a run, and all that is seen. -/
def run (w : Nat) (m : Machine τ) : List (Event τ) → Machine τ × List (Obs τ)
  | [] => (m, [])
  | e :: es =>
    let first := m.step w e
    let rest := first.1.run w es
    (rest.1, first.2 ++ rest.2)

/-- `startManager` is called at `now`. -/
def init (now : Nat) : Machine τ := ⟨TimerManager.startManager now, now, none⟩

end Machine

end ColonyCore.System
