/-
  ColonyCore.Storm.RelayEdges
  **THE BEGIN TIMES OF THE EQUIPMENT ARE THE LATEST EDGES OF ITS RELAYS.**

  `HvacRelayOutputs` finds the edges against the relays of the last pass, but reads the
  times it does not renew back from a model point.  A pass in which that point is invalid
  starts from zeros, and the history is gone.

    • `latestEdges_next_iff` — one output: when what is recorded stays the latest edge,
    • `begin_times_iff`      — all of them along every run, exactly when a pass that finds
      the point invalid has nothing to lose.
-/
import ColonyCore.Storm.Components

namespace ColonyCore.Storm.Component.HvacRelayOutputs

open ColonyCore.System Interleaving

/-! ## §1. The passes and the edges they record. -/

/-- The history of one output: its value in the last pass (`none` before the first), and the
times of its latest edges. -/
structure Edges where
  was : Option Bool
  onTime : Option Precision
  offTime : Option Precision

/-- Before the first pass. -/
def Edges.init : Edges := ⟨none, none, none⟩

/-- The output goes on in this pass. -/
def Edges.Rises (e : Edges) (is : Bool) : Prop := e.was = some false ∧ is = true

/-- It goes off; in the first pass it does when it is off. -/
def Edges.Falls (e : Edges) (is : Bool) : Prop := e.was ≠ some false ∧ is = false

instance (e : Edges) (is : Bool) : Decidable (e.Rises is) := inferInstanceAs (Decidable (_ ∧ _))

instance (e : Edges) (is : Bool) : Decidable (e.Falls is) := inferInstanceAs (Decidable (_ ∧ _))

/-- A pass. -/
def Edges.next (e : Edges) (is : Bool) (currentInterval : Precision) : Edges where
  was := some is
  onTime := if e.Rises is then some currentInterval else e.onTime
  offTime := if e.Falls is then some currentInterval else e.offTime

/-- The inputs of a pass.  The begin times are no input of anyone else, but may have been made
invalid since the last pass. -/
structure Pass where
  vOutputs : Mp VirtualOutputs
  systemForcedOffRefCnt : Mp (BitVec 32)
  systemOn : Mp Bool
  invalidated : Bool
  currentInterval : Precision

/-- The component and its two points; the histories are no data of the program. -/
structure Relays where
  members : Members
  beginTimes : Mp EquipmentTimes
  relayOutputs : Mp HvacRelayOutputs
  outdoor : Edges
  indoor : Edges
  system : Edges

namespace Relays

variable (w : Relays)

/-- The point of the begin times as a pass finds it. -/
def found (p : Pass) : Mp EquipmentTimes :=
  { w.beginTimes with valid := w.beginTimes.valid && !p.invalidated }

/-- What `execute` reads. -/
def inputs (p : Pass) : Inputs :=
  ⟨p.vOutputs, w.found p, p.systemForcedOffRefCnt, p.systemOn⟩

/-- One pass: `execute`, and the histories of the published relays and of `systemOn`. -/
def step (p : Pass) : Option Relays :=
  let r := execute w.members (w.inputs p) w.relayOutputs p.currentInterval
  some
    { members := r.1
      beginTimes := r.2.1
      relayOutputs := r.2.2
      outdoor := w.outdoor.next r.2.2.data.y1 p.currentInterval
      indoor := w.indoor.next r.2.2.data.w1 p.currentInterval
      system := w.system.next ((w.inputs p).systemOn.read false) p.currentInterval }

/-- The component as constructed. -/
def init (beginTimes : Mp EquipmentTimes) (relayOutputs : Mp HvacRelayOutputs) : Relays :=
  ⟨.init, beginTimes, relayOutputs, .init, .init, .init⟩

/-- The times recorded for one output are those of its latest edges. -/
structure LatestEdges (e : Edges) (beginOn beginOff : Precision) : Prop where
  onTime : ∀ t, e.onTime = some t → beginOn = t
  offTime : ∀ t, e.offTime = some t → beginOff = t

/-- **After a pass** the times recorded for the three outputs are those of their latest edges. -/
def Exact (p : Pass) : Prop :=
  ∀ w', w.step p = some w' →
    LatestEdges w'.outdoor w'.beginTimes.data.outdoorUnitBeginOnTime
      w'.beginTimes.data.outdoorUnitBeginOffTime
    ∧ LatestEdges w'.indoor w'.beginTimes.data.indoorUnitBeginOnTime
      w'.beginTimes.data.indoorUnitBeginOffTime
    ∧ LatestEdges w'.system w'.beginTimes.data.systemBeginOnTime
      w'.beginTimes.data.systemBeginOffTime

/-- Each time recorded for an output is renewed in this pass, or is the given one. -/
def Outlives (e : Edges) (is : Bool) (beginOn beginOff : Precision) : Prop :=
  (∀ t, e.onTime = some t → e.Rises is ∨ beginOn = t)
    ∧ (∀ t, e.offTime = some t → e.Falls is ∨ beginOff = t)

/-- **Nothing to lose**: when the point is invalid both units go off, and every time that was
recorded is renewed or was zero. -/
def NothingLost (p : Pass) : Prop :=
  p.invalidated = true →
    Outlives w.outdoor false .zero .zero ∧ Outlives w.indoor false .zero .zero
    ∧ Outlives w.system (p.systemOn.read false) .zero .zero

/-! ## §2. One output. -/

/-- One output as the component has it: `m_y1`, and the two times. -/
structure Recorded (e : Edges) (was : Bool) (beginOn beginOff : Precision) : Prop
    extends LatestEdges e beginOn beginOff where
  cached : was = e.was.getD true

theorem recorded_init (beginOn beginOff : Precision) : Recorded .init true beginOn beginOff :=
  ⟨⟨nofun, nofun⟩, rfl⟩

theorem Recorded.outlives {e : Edges} {was : Bool} {beginOn beginOff : Precision}
    (h : Recorded e was beginOn beginOff) (is : Bool) : Outlives e is beginOn beginOff :=
  ⟨fun t ht => .inr (h.onTime t ht), fun t ht => .inr (h.offTime t ht)⟩

/-- **One output, one pass**: the times read for it are kept, or renewed at its edges. -/
theorem latestEdges_next_iff {e : Edges} {was : Bool} (hcached : was = e.was.getD true) (is : Bool)
    (now beginOn beginOff : Precision) :
    LatestEdges (e.next is now) (edge was is now beginOn beginOff).1
        (edge was is now beginOn beginOff).2 ↔ Outlives e is beginOn beginOff := by
  have hwas : was = false ↔ e.was = some false := by
    rw [hcached]
    cases e.was <;> simp
  have hrises : (was = false ∧ is = true) ↔ e.Rises is := by rw [hwas, Edges.Rises]
  have hfalls : (was = true ∧ is = false) ↔ e.Falls is := by
    rw [Edges.Falls, ne_eq, ← hwas, Bool.not_eq_false]
  have hon : (∀ t, (e.next is now).onTime = some t → (edge was is now beginOn beginOff).1 = t)
      ↔ ∀ t, e.onTime = some t → e.Rises is ∨ beginOn = t := by
    by_cases hr : e.Rises is <;> simp [Edges.next, edge, hrises, hr]
  have hoff : (∀ t, (e.next is now).offTime = some t → (edge was is now beginOn beginOff).2 = t)
      ↔ ∀ t, e.offTime = some t → e.Falls is ∨ beginOff = t := by
    by_cases hf : e.Falls is <;> simp [Edges.next, edge, hfalls, hf]
  exact ⟨fun h => ⟨hon.mp h.onTime, hoff.mp h.offTime⟩, fun h => ⟨hon.mpr h.1, hoff.mpr h.2⟩⟩

/-! ## §3. The component. -/

/-- **The invariant**: the three outputs, against the times the next pass will read. -/
structure History (w : Relays) (t : EquipmentTimes) : Prop where
  outdoor : Recorded w.outdoor w.members.y1 t.outdoorUnitBeginOnTime t.outdoorUnitBeginOffTime
  indoor : Recorded w.indoor w.members.w1 t.indoorUnitBeginOnTime t.indoorUnitBeginOffTime
  system : Recorded w.system w.members.systemOn t.systemBeginOnTime t.systemBeginOffTime

variable {w w' : Relays} {p : Pass}

/-- A pass with the point invalid switches both units off. -/
theorem units_off (hp : p.invalidated = true) :
    (relays (w.inputs p).outputs).y1 = false ∧ (relays (w.inputs p).outputs).w1 = false := by
  have hfail : (w.inputs p).failOff = true := by simp [inputs, Inputs.failOff, found, hp]
  simp only [Inputs.outputs]
  split <;> exact ⟨rfl, rfl⟩

theorem exact_iff (h : History w (w.beginTimes.read .zero)) : w.Exact p ↔ w.NothingLost p := by
  simp only [Exact, step, Option.some.injEq, forall_eq', execute, Mp.data_write, times,
    latestEdges_next_iff h.outdoor.cached, latestEdges_next_iff h.indoor.cached,
    latestEdges_next_iff h.system.cached]
  cases hp : p.invalidated with
  | true =>
    have hread : (w.inputs p).equipmentBeginTimes.read .zero = .zero := by
      simp [inputs, Mp.read, found, hp]
    rw [hread, (units_off hp).1, (units_off hp).2]
    exact ⟨fun hex _ => hex, fun hlost => hlost hp⟩
  | false =>
    have hread : (w.inputs p).equipmentBeginTimes.read .zero = w.beginTimes.read .zero := by
      simp [inputs, found, hp]
    rw [hread]
    exact ⟨fun _ hinv => absurd (hp.symm.trans hinv) (by decide),
      fun _ => ⟨h.outdoor.outlives _, h.indoor.outlives _, h.system.outlives _⟩⟩

theorem Exact.history (hex : w.Exact p) (hstep : w.step p = some w') :
    History w' (w'.beginTimes.read .zero) := by
  obtain ⟨ho, hi, hs⟩ := hex w' hstep
  have hread : w'.beginTimes.read .zero = w'.beginTimes.data := by
    cases hstep
    exact if_pos (Mp.valid_write (w.found p) _)
  rw [hread]
  refine ⟨⟨ho, ?_⟩, ⟨hi, ?_⟩, ⟨hs, ?_⟩⟩ <;> cases hstep <;>
    simp [execute, Edges.next]

/-- **THE BEGIN TIMES ARE THE LATEST EDGES** after every pass of a run, exactly when no pass
that finds them invalid has a time to lose. -/
theorem begin_times_iff (beginTimes : Mp EquipmentTimes) (relayOutputs : Mp HvacRelayOutputs)
    (passes : List Pass) :
    Along step Exact (init beginTimes relayOutputs) passes
      ↔ Along step NothingLost (init beginTimes relayOutputs) passes :=
  along_congr (fun w => History w (w.beginTimes.read .zero)) (fun _ _ _ h => exact_iff h)
    (fun _ _ _ _ hex hstep => hex.history hstep)
    ⟨recorded_init _ _, recorded_init _ _, recorded_init _ _⟩

/-- A pass with everything off, `seconds` after the start. -/
def offPass (invalidated : Bool) (seconds : BitVec 32) : Pass :=
  ⟨⟨true, .zero, 1#16⟩, ⟨true, 0#32, 1#16⟩, ⟨true, false, 1#16⟩, invalidated, .ofSeconds seconds⟩

/-- Two points as constructed. -/
def idle : Relays :=
  init ⟨true, .zero, 1#16⟩ ⟨true, ⟨false, 0, false, false, false, false, false, false⟩, 1#16⟩

/-- **The compressor went off at 10 s, and the record says 0 s**: the point was invalid in the
second pass. -/
theorem invalid_point_forgets :
    ∃ w, run step idle [offPass false 10#32, offPass true 20#32] = some w
    ∧ w.outdoor.offTime = some (.ofSeconds 10#32)
    ∧ w.beginTimes.data.outdoorUnitBeginOffTime = .zero :=
  ⟨_, rfl, rfl, rfl⟩

end Relays

end ColonyCore.Storm.Component.HvacRelayOutputs
