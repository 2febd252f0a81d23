/-
  ColonyCore.Storm.ForcedOff
  **TWO COMPONENTS SHARE THE FORCED-OFF COUNTER.**

  `IdtSelection` and `OperatingMode` count themselves while their condition holds, each on
  transitions of a flag of its own.  A restart of `OperatingMode` leaves its flag alone; a
  restart of `IdtSelection` clears it WITHOUT taking the count back.

    • `accounts_iff`          — one call keeps the account unless `IdtSelection` executes
      after such a restart,
    • `forcedOff_account_iff` — the same for every sequence of calls.
-/
import ColonyCore.Storm.OperatingMode

namespace ColonyCore.Storm

open ColonyCore.System Interleaving Component.OperatingMode

namespace Component

/-- The calls of the two components. -/
inductive SharingCall where
  | idtStart
  | idtExecute (ins : IdtSelection.Inputs)
  | modeStart
  | modeExecute (ins : Inputs) (currentInterval : Precision)

/-- The two components; the counter is among the outputs of `state`.  The last three fields
are no data of the program: whether each condition held at the latest execution, and whether
`IdtSelection` was started since an execution at which its own did. -/
structure Sharing where
  state : State
  critical : Bool
  activeIdt : Mp ℚ
  idtAlarms : Mp IdtSelection.IdtAlarm
  idtHeld : Bool
  modeHeld : Bool
  restarted : Bool

namespace Sharing

/-- The shared counter. -/
def refCnt (w : Sharing) : Mp (BitVec 32) := w.state.outs.systemForcedOffRefCnt

/-- One call. -/
def step (w : Sharing) : SharingCall → Option Sharing
  | .idtStart => some { w with critical := false, restarted := w.idtHeld }
  | .idtExecute ins =>
    let r := IdtSelection.execute w.critical ins ⟨w.activeIdt, w.refCnt, w.idtAlarms⟩
    some { w with
      state := { w.state with outs := { w.state.outs with
        systemForcedOffRefCnt := r.2.systemForcedOffRefCnt } }
      critical := r.1
      activeIdt := r.2.activeIdt
      idtAlarms := r.2.idtAlarms
      idtHeld := ins.critical
      restarted := false }
  | .modeStart => some { w with state := { w.state with members := w.state.members.start } }
  | .modeExecute ins currentInterval =>
    some { w with state := execute w.state ins currentInterval, modeHeld := ins.forces }

/-- Both components as constructed, and the counter at 0; all other points hold anything. -/
def init (outs : Outputs) (activeIdt : Mp ℚ) (idtAlarms : Mp IdtSelection.IdtAlarm) : Sharing where
  state := ⟨.init, { outs with
    systemForcedOffRefCnt := { outs.systemForcedOffRefCnt with valid := true, data := 0#32 } }⟩
  critical := false
  activeIdt := activeIdt
  idtAlarms := idtAlarms
  idtHeld := false
  modeHeld := false
  restarted := false

/-- **After a call** the counter is the number of conditions that force the system off. -/
def Accounts (w : Sharing) (call : SharingCall) : Prop :=
  ∀ w', w.step call = some w' → w'.refCnt.data.toNat = w'.modeHeld.toNat + w'.idtHeld.toNat

/-- `IdtSelection` does not execute after a restart that forgot its condition. -/
def Remembers (w : Sharing) : SharingCall → Prop
  | .idtExecute _ => w.restarted = false
  | _ => True

/-- The counter is right, and the flags are the conditions but for a restart. -/
structure Account (w : Sharing) : Prop where
  counted : Counted w.refCnt w.modeHeld w.idtHeld
  mode : w.state.members.forcedOff = w.modeHeld
  critical : w.critical = (w.idtHeld && !w.restarted)
  held : w.restarted = true → w.idtHeld = true

variable {w w' : Sharing} {call : SharingCall}

theorem Account.toNat_refCnt (h : Account w) :
    w.refCnt.data.toNat = w.modeHeld.toNat + w.idtHeld.toNat := by
  rw [h.counted.2]
  cases w.modeHeld <;> cases w.idtHeld <;> rfl

theorem Account.step (h : Account w) (hremembers : w.Remembers call)
    (hstep : w.step call = some w') : Account w' := by
  cases call with
  | idtStart =>
    cases hstep
    exact { h with critical := by simp, held := id }
  | idtExecute ins =>
    cases hstep
    have hcritical := h.critical
    rw [show w.restarted = false from hremembers, Bool.not_false, Bool.and_true] at hcritical
    refine { h with counted := ?_, critical := by simp [IdtSelection.execute], held := nofun }
    exact counted_idtSelection (hcritical ▸ h.counted) ins
  | modeStart =>
    cases hstep
    exact { h with }
  | modeExecute ins currentInterval =>
    cases hstep
    have hcounted : Counted w.refCnt w.state.members.forcedOff w.idtHeld := h.mode.symm ▸ h.counted
    exact { h with counted := (counted_forces hcounted).1, mode := (counted_forces hcounted).2 }

/-- **One call.**  After a restart that forgot, an execution leaves the counter one too high:
it counts a second time, or does not take the first one back. -/
theorem accounts_iff (h : Account w) : w.Accounts call ↔ w.Remembers call := by
  refine ⟨fun hacc => ?_, fun hremembers w' hstep => (h.step hremembers hstep).toNat_refCnt⟩
  cases call with
  | idtExecute ins =>
    refine Bool.eq_false_iff.mpr fun hrestarted => ?_
    have hheld := h.held hrestarted
    have hcritical : w.critical = false := by
      rw [h.critical, hrestarted, Bool.not_true, Bool.and_false]
    have hcnt := hacc _ rfl
    have hdata := h.counted.2
    rw [hheld] at hdata
    cases hins : ins.critical with
    | false =>
      simp only [IdtSelection.execute, hins, hcritical] at hcnt
      change w.refCnt.data.toNat = _ at hcnt
      rw [hdata] at hcnt
      cases hmode : w.modeHeld <;> simp [hmode] at hcnt
    | true =>
      simp only [IdtSelection.execute, hins, hcritical] at hcnt
      change (RefCounter.increment w.refCnt).data.toNat = _ at hcnt
      rw [RefCounter.increment, RefCounter.data_update, hdata] at hcnt
      cases hmode : w.modeHeld <;> simp [hmode] at hcnt
  | idtStart | modeStart | modeExecute => trivial

/-- **THE ACCOUNT OF THE FORCED-OFF COUNTER**: along every sequence of calls it is right after
each call, exactly when `IdtSelection` never executes after a restart that came while its
condition held. -/
theorem forcedOff_account_iff (outs : Outputs) (activeIdt : Mp ℚ)
    (idtAlarms : Mp IdtSelection.IdtAlarm) (calls : List SharingCall) :
    Along step Accounts (init outs activeIdt idtAlarms) calls
      ↔ Along step Remembers (init outs activeIdt idtAlarms) calls :=
  along_congr Account (fun _ _ _ h => accounts_iff h)
    (fun _ _ _ h hacc hstep => h.step ((accounts_iff h).mp hacc) hstep)
    ⟨⟨rfl, rfl⟩, rfl, rfl, nofun⟩

/-- No sensor, and a sensor. -/
def noSensor : IdtSelection.Inputs := ⟨⟨false, 0, 1#16⟩, ⟨false, 0, 1#16⟩, ⟨true, false, 1#16⟩⟩

@[inherit_doc noSensor]
def aSensor : IdtSelection.Inputs := ⟨⟨true, 70, 2#16⟩, ⟨false, 0, 1#16⟩, ⟨true, false, 1#16⟩⟩

/-- The two components as started. -/
def started : Sharing :=
  init ⟨⟨true, false, 1#16⟩, ⟨true, false, 1#16⟩, ⟨true, 0#32, 1#16⟩, ⟨true, SystemConfig.setToOff, 1#16⟩,
      ⟨true, ⟨false, false, false⟩, 1#16⟩, ⟨true, ⟨false, false, false⟩, 1#16⟩⟩
    ⟨true, 70, 1#16⟩ ⟨true, ⟨false, false, false, false, false⟩, 1#16⟩

/-- **Forced off for good**: the sensor fails, `IdtSelection` is restarted, the sensor is back;
no condition holds, and the counter stays at 1. -/
theorem restart_keeps_forcing_off :
    ∃ w, run step started [.idtExecute noSensor, .idtStart, .idtExecute aSensor] = some w
      ∧ w.idtHeld = false ∧ w.modeHeld = false ∧ w.refCnt.data = 1#32 :=
  ⟨_, rfl, rfl, rfl, rfl⟩

end Sharing

end Component

end ColonyCore.Storm
