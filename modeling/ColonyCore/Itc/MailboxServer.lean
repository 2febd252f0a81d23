/-
  ColonyCore.Itc.MailboxServer
  **THE MAILBOX SERVER AND ITS POSTERS (`Cpl/Itc/Mailbox.cpp`, `Cpl/Itc/MailboxServer.cpp`,
  `Cpl/System/EventLoop.cpp`).**

  One server thread runs `appRun`; any threads post messages, set event flags or ask the
  server to stop.  A step is one critical section or one semaphore operation.

    • a poster's locked update and its `signal` are TWO steps,
    • `timedWait` takes a count if there is one; without one it blocks or times out,
    • the queue is the sequence of the `SList`; a double insert is a fatal error.

  The members `posted`, `processed` and `flagCalls` are histories.
-/
import Mathlib.Data.BitVec
import ColonyCore.Lib.Interleaving

namespace ColonyCore.Itc

open Function List

/-! ## §1. The model. -/

/-- Where the server is in `appRun`. -/
inductive Pc (μ : Type) (w : Nat)
  /-- `isPendingMessage()` -/
  | isPending
  /-- `waitAndProcessEvents`, the first test of `m_run` -/
  | checkRun (skipWait : Bool)
  /-- the test for a long time since the last pass -/
  | checkTime (skipWait : Bool)
  | timedWait
  /-- the second test of `m_run` -/
  | recheckRun
  /-- the locked capture of `m_events` -/
  | capture
  /-- the loop over the event mask, at `eventNumber` -/
  | dispatch (events : BitVec w) (eventNumber : Nat)
  | timers
  /-- `processMessages`, the locked `get()` -/
  | get
  /-- `msgPtr->process()` -/
  | process (msg : μ)
  /-- `appRun` has returned -/
  | stopped

/-- The message that has left the queue but is not processed yet. -/
def Pc.inHand {μ : Type} {w : Nat} : Pc μ w → List μ
  | .process msg => [msg]
  | _ => []

/-- The server and its posters `τ`; `w` is the width of `Cpl_System_EventFlag_T`. -/
structure MailboxServer (μ τ : Type) (w : Nat) where
  queue : List μ
  events : BitVec w
  sema : Nat
  run : Bool
  /-- the poster has made its locked update and not yet its signal -/
  owes : τ → Bool
  pc : Pc μ w
  posted : List μ
  processed : List μ
  flagCalls : List Nat

/-- The steps. -/
inductive Act (μ τ : Type) (w : Nat)
  /-- `Mailbox::post`, the locked `put` -/
  | put (t : τ) (msg : μ)
  /-- `EventLoop::notifyEvents`, the locked OR -/
  | notifyEvents (t : τ) (events : BitVec w)
  /-- `EventLoop::pleaseStop`, the locked write -/
  | pleaseStop (t : τ)
  /-- `m_sema.signal()`, the last step of all three -/
  | signal (t : τ)
  /-- the next step of the server; `late` is the outcome of what depends on the clock:
      the time since the last pass, or a wait that times out -/
  | server (late : Bool)

/-- A step of the server. -/
def Act.isServer {μ τ : Type} {w : Nat} : Act μ τ w → Bool
  | .server _ => true
  | _ => false

namespace MailboxServer

variable {μ τ : Type} {w : Nat}

/-- The constructed server, at the top of its loop. -/
def start : MailboxServer μ τ w where
  queue := []
  events := 0#w
  sema := 0
  run := true
  owes _ := false
  pc := .isPending
  posted := []
  processed := []
  flagCalls := []

/-- The next step of `appRun`. -/
def serverStep (s : MailboxServer μ τ w) (late : Bool) : Option (MailboxServer μ τ w) :=
  match s.pc with
  | .isPending => some { s with pc := .checkRun !s.queue.isEmpty }
  | .checkRun skipWait =>
    some { s with pc := if s.run then .checkTime skipWait else .stopped }
  | .checkTime skipWait =>
    some { s with pc := if skipWait || late then .recheckRun else .timedWait }
  | .timedWait =>
    if s.sema ≠ 0 then some { s with sema := s.sema - 1, pc := .recheckRun }
    else if late then some { s with pc := .recheckRun }
    else none
  | .recheckRun => some { s with pc := if s.run then .capture else .stopped }
  | .capture =>
    some { s with
      events := 0#w
      pc := if s.events = 0#w then .timers else .dispatch s.events 0 }
  | .dispatch events n =>
    some { s with
      flagCalls := if events.getLsbD n then s.flagCalls ++ [n] else s.flagCalls
      pc := if n + 1 < w then .dispatch events (n + 1) else .timers }
  | .timers => some { s with pc := .get }
  | .get =>
    match s.queue with
    | [] => some { s with pc := .isPending }
    | msg :: rest => some { s with queue := rest, pc := .process msg }
  | .process msg => some { s with processed := s.processed ++ [msg], pc := .isPending }
  | .stopped => none

/-- One step of anyone. -/
def step [DecidableEq τ] [DecidableEq μ] (s : MailboxServer μ τ w) :
    Act μ τ w → Option (MailboxServer μ τ w)
  | .put t msg =>
    if s.owes t ∨ msg ∈ s.queue then none
    else some { s with
      queue := s.queue ++ [msg]
      posted := s.posted ++ [msg]
      owes := update s.owes t true }
  | .notifyEvents t events =>
    if s.owes t then none
    else some { s with
      events := s.events ||| events
      owes := update s.owes t true }
  | .pleaseStop t =>
    if s.owes t then none
    else some { s with run := false, owes := update s.owes t true }
  | .signal t =>
    if s.owes t then
      some { s with sema := s.sema + 1, owes := update s.owes t false }
    else none
  | .server late => s.serverStep late

/-! ## §2. What a step does. -/

/-- The server goes on and leaves everything else as it is. -/
inductive Goes (s : MailboxServer μ τ w) : Pc μ w → Pc μ w → Prop
  | tests : Goes s .isPending (.checkRun !s.queue.isEmpty)
  | runs (skipWait : Bool) (hrun : s.run = true) : Goes s (.checkRun skipWait) (.checkTime skipWait)
  | stops (skipWait : Bool) (hrun : s.run = false) : Goes s (.checkRun skipWait) .stopped
  | skips (skipWait : Bool) : Goes s (.checkTime skipWait) .recheckRun
  | waits : Goes s (.checkTime false) .timedWait
  | timesOut : Goes s .timedWait .recheckRun
  | rechecks (hrun : s.run = true) : Goes s .recheckRun .capture
  | ends (hrun : s.run = false) : Goes s .recheckRun .stopped
  | turnsToMessages : Goes s .timers .get
  | startsOver (hq : s.queue = []) : Goes s .get .isPending

/-- **What the server does in one step.** -/
inductive ServerMove (s : MailboxServer μ τ w) : MailboxServer μ τ w → Prop
  | goes {old pc : Pc μ w} (hpc : s.pc = old) (h : Goes s old pc) : ServerMove s { s with pc := pc }
  | takes (hpc : s.pc = .timedWait) :
      ServerMove s { s with sema := s.sema - 1, pc := .recheckRun }
  | captures (hpc : s.pc = .capture) :
      ServerMove s { s with
        events := 0#w, pc := if s.events = 0#w then .timers else .dispatch s.events 0 }
  | dispatches (events : BitVec w) (n : Nat) (hpc : s.pc = .dispatch events n) :
      ServerMove s { s with
        flagCalls := if events.getLsbD n then s.flagCalls ++ [n] else s.flagCalls
        pc := if n + 1 < w then .dispatch events (n + 1) else .timers }
  | gets (msg : μ) (rest : List μ) (hpc : s.pc = .get) (hq : s.queue = msg :: rest) :
      ServerMove s { s with queue := rest, pc := .process msg }
  | processes (msg : μ) (hpc : s.pc = .process msg) :
      ServerMove s { s with processed := s.processed ++ [msg], pc := .isPending }

variable {s s' : MailboxServer μ τ w}

theorem serverStep_cases {late : Bool} (h : s.serverStep late = some s') : ServerMove s s' := by
  unfold serverStep at h
  split at h
  next hpc =>
    cases h
    exact .goes hpc .tests
  next skipWait hpc =>
    cases h
    split
    next hrun => exact .goes hpc (.runs skipWait hrun)
    next hrun => exact .goes hpc (.stops skipWait (by simpa using hrun))
  next skipWait hpc =>
    cases h
    split
    next => exact .goes hpc (.skips skipWait)
    next hskip =>
      obtain ⟨rfl, -⟩ : skipWait = false ∧ late = false := by simpa using hskip
      exact .goes hpc .waits
  next hpc =>
    split at h
    · cases h
      exact .takes hpc
    · split at h
      · cases h
        exact .goes hpc .timesOut
      · cases h
  next hpc =>
    cases h
    split
    next hrun => exact .goes hpc (.rechecks hrun)
    next hrun => exact .goes hpc (.ends (by simpa using hrun))
  next hpc =>
    cases h
    exact .captures hpc
  next events n hpc =>
    cases h
    exact .dispatches events n hpc
  next hpc =>
    cases h
    exact .goes hpc .turnsToMessages
  next hpc =>
    split at h
    next hq =>
      cases h
      exact .goes hpc (.startsOver hq)
    next msg rest hq =>
      cases h
      exact .gets msg rest hpc hq
  next msg hpc =>
    cases h
    exact .processes msg hpc
  next => cases h

/-- A signal has come that no wait has taken, or one is still to come. -/
def WakeUp (s : MailboxServer μ τ w) : Prop := s.sema ≠ 0 ∨ ∃ t, s.owes t = true

/-- **What a poster does in one step**: it does not move the server, and leaves a wake-up. -/
structure Posts (s s' : MailboxServer μ τ w) : Prop where
  pc : s'.pc = s.pc
  processed : s'.processed = s.processed
  flagCalls : s'.flagCalls = s.flagCalls
  posted : ∃ msgs, s'.posted = s.posted ++ msgs ∧ s'.queue = s.queue ++ msgs
  events : ∀ n, s.events.getLsbD n = true → s'.events.getLsbD n = true
  stays : s.run = false → s'.run = false
  wakeUp : s'.WakeUp

/-- **What one step of anyone does.** -/
theorem step_cases [DecidableEq τ] [DecidableEq μ] {a : Act μ τ w} (h : s.step a = some s') :
    a.isServer = true ∧ ServerMove s s' ∨ a.isServer = false ∧ Posts s s' := by
  have howes : ∀ t, ∃ t', update s.owes t true t' = true :=
    fun t => ⟨t, update_self t true s.owes⟩
  have hnone : ∀ l : List μ, l = l ++ [] := fun l => (append_nil l).symm
  cases a with
  | put t msg =>
    simp only [step] at h
    split at h
    · cases h
    · cases h
      exact .inr ⟨rfl, rfl, rfl, rfl, ⟨[msg], rfl, rfl⟩, fun _ => id, id, .inr (howes t)⟩
  | notifyEvents t events =>
    simp only [step] at h
    split at h
    · cases h
    · cases h
      refine .inr ⟨rfl, rfl, rfl, rfl, ⟨[], hnone _, hnone _⟩, fun n hbit => ?_, id, .inr (howes t)⟩
      rw [BitVec.getLsbD_or, hbit, Bool.true_or]
  | pleaseStop t =>
    simp only [step] at h
    split at h
    · cases h
    · cases h
      exact .inr ⟨rfl, rfl, rfl, rfl, ⟨[], hnone _, hnone _⟩, fun _ => id, fun _ => rfl,
        .inr (howes t)⟩
  | signal t =>
    simp only [step] at h
    split at h
    · cases h
      exact .inr ⟨rfl, rfl, rfl, rfl, ⟨[], hnone _, hnone _⟩, fun _ => id, id,
        .inl (Nat.succ_ne_zero _)⟩
    · cases h
  | server late => exact .inl ⟨rfl, serverStep_cases h⟩

/-! ## §3. No lost wake-up. -/

/-- The server found the queue empty and is on its way into the wait. -/
def GoingToWait : Pc μ w → Prop
  | .checkRun skipWait => skipWait = false
  | .checkTime skipWait => skipWait = false
  | .timedWait => True
  | _ => False

/-- The server may have taken the signal of a flag it has not captured yet. -/
def BeforeCapture : Pc μ w → Prop
  | .recheckRun => True
  | .capture => True
  | .stopped => True
  | _ => False

/-- **The invariant.** -/
structure Inv (s : MailboxServer μ τ w) : Prop where
  conserved : s.posted = s.processed ++ s.pc.inHand ++ s.queue
  dispatching : ∀ events n, s.pc = .dispatch events n → n < w
  ended : s.pc = .stopped → s.run = false
  messages : GoingToWait s.pc → s.queue ≠ [] → s.WakeUp
  flags : ¬ BeforeCapture s.pc → s.events ≠ 0#w → s.WakeUp

theorem start_inv : Inv (start : MailboxServer μ τ w) where
  conserved := rfl
  dispatching _ _ h := by cases h
  ended h := by cases h
  messages h := h.elim
  flags _ h := absurd rfl h

/-- A move that leaves everything else as it is. -/
theorem Inv.goes (hs : Inv s) {old pc : Pc μ w} (hpc : s.pc = old) (h : Goes s old pc) :
    Inv { s with pc := pc } where
  conserved := by
    have hhand : pc.inHand = s.pc.inHand := by
      rw [hpc]
      cases h <;> rfl
    rw [hhand]
    exact hs.conserved
  dispatching events n hd := by
    rw [show pc = _ from hd] at h
    cases h
  ended hstop := by
    rw [show pc = _ from hstop] at h
    cases h with
    | stops _ hrun => exact hrun
    | ends hrun => exact hrun
  messages hgoing hq := by
    refine hs.messages ?_ hq
    rw [hpc]
    cases h with
    | tests =>
      -- the wait is not skipped: the queue was empty
      exact absurd (by simpa [GoingToWait] using hgoing) hq
    | runs => exact hgoing
    | waits => exact rfl
    | _ => exact hgoing.elim
  flags hcap hev := by
    refine hs.flags ?_ hev
    rw [hpc]
    cases h <;> first | exact id | exact absurd trivial hcap

theorem Inv.serverMove (hs : Inv s) (h : ServerMove s s') : Inv s' := by
  have hc := hs.conserved
  cases h with
  | goes hpc h => exact hs.goes hpc h
  | takes hpc =>
    -- the count that is taken may be that of a flag, which is captured next
    rw [hpc] at hc
    exact ⟨hc, nofun, nofun, False.elim, fun hcap => absurd trivial hcap⟩
  | captures hpc =>
    rw [hpc] at hc
    by_cases hzero : s.events = 0#w
    · simp only [if_pos hzero]
      exact ⟨hc, nofun, nofun, False.elim, fun _ hev => absurd rfl hev⟩
    · simp only [if_neg hzero]
      refine ⟨hc, fun events n hd => ?_, nofun, False.elim, fun _ hev => absurd rfl hev⟩
      cases hd
      rcases Nat.eq_zero_or_pos w with rfl | hw
      · exact absurd (BitVec.eq_nil s.events) hzero
      · exact hw
  | dispatches events n hpc =>
    have hflags := hs.flags (by rw [hpc]; exact id)
    rw [hpc] at hc
    by_cases hn : n + 1 < w
    · simp only [if_pos hn]
      refine ⟨hc, fun ev k hd => ?_, nofun, False.elim, fun _ => hflags⟩
      cases hd
      exact hn
    · simp only [if_neg hn]
      exact ⟨hc, nofun, nofun, False.elim, fun _ => hflags⟩
  | gets msg rest hpc hq =>
    have hflags := hs.flags (by rw [hpc]; exact id)
    rw [hpc, hq] at hc
    exact ⟨by rw [hc]; simp [Pc.inHand], nofun, nofun, False.elim, fun _ => hflags⟩
  | processes msg hpc =>
    have hflags := hs.flags (by rw [hpc]; exact id)
    rw [hpc] at hc
    exact ⟨by rw [hc]; simp [Pc.inHand], nofun, nofun, False.elim, fun _ => hflags⟩

variable [DecidableEq τ] [DecidableEq μ]

/-- **One step of anyone keeps the invariant.**  A poster's update owes a signal, and the
    signal is counted. -/
theorem step_inv {a : Act μ τ w} (hs : Inv s) (h : s.step a = some s') : Inv s' := by
  rcases step_cases h with ⟨-, hmove⟩ | ⟨-, hpost⟩
  · exact hs.serverMove hmove
  · obtain ⟨msgs, hposted, hqueue⟩ := hpost.posted
    exact
      { conserved := by
          rw [hposted, hqueue, hpost.pc, hpost.processed, hs.conserved, ← append_assoc]
        dispatching := hpost.pc ▸ hs.dispatching
        ended := fun hstop => hpost.stays (hs.ended (hpost.pc ▸ hstop))
        messages := fun _ _ => hpost.wakeUp
        flags := fun _ _ => hpost.wakeUp }

/-! ## §4. Histories only grow. -/

/-- Nothing is taken back between two states. -/
structure Grows (s s' : MailboxServer μ τ w) : Prop where
  flagCalls : s.flagCalls <+: s'.flagCalls
  posted : s.posted <+: s'.posted
  processed : s.processed <+: s'.processed
  stays : s.run = false → s'.run = false

theorem step_grows {a : Act μ τ w} (h : s.step a = some s') : Grows s s' := by
  rcases step_cases h with ⟨-, hmove⟩ | ⟨-, hpost⟩
  · cases hmove with
    | dispatches events n hpc =>
      refine ⟨?_, prefix_refl _, prefix_refl _, id⟩
      show s.flagCalls <+: if events.getLsbD n = true then s.flagCalls ++ [n] else s.flagCalls
      split
      · exact prefix_append _ _
      · exact prefix_refl _
    | processes msg hpc =>
      exact ⟨prefix_refl _, prefix_refl _, prefix_append _ _, id⟩
    | _ => exact ⟨prefix_refl _, prefix_refl _, prefix_refl _, id⟩
  · obtain ⟨msgs, hposted, -⟩ := hpost.posted
    exact ⟨hpost.flagCalls ▸ prefix_refl _, ⟨msgs, hposted.symm⟩,
      hpost.processed ▸ prefix_refl _, hpost.stays⟩

end MailboxServer

end ColonyCore.Itc
