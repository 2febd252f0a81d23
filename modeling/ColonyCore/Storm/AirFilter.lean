/-
  ColonyCore.Storm.AirFilter
  **`AirFilterMonitor`: HOW LONG THE BLOWER HAS RUN.**

  The time since the last pass with the blower on is added in the next one, whether or not
  the blower was on between the two.

    • `executed_on`        — what a pass with the blower on publishes,
    • `operation_time_iff` — along every run that is the run time of the blower, exactly when
      the blower, once off, stays off until the next alert (up to times that do not matter).
-/
import ColonyCore.Storm.ModelPoints

namespace ColonyCore.Storm.Component.AirFilterMonitor

open ColonyCore.System Interleaving

/-! ## §1. The component. -/

/-- The members. -/
structure Members where
  blowerWasOn : Bool
  markBlowerOn : Precision
  deriving DecidableEq, Repr

/-- `Input_T`, without the two points it writes as well. -/
structure Inputs where
  maxAirFilterHours : Mp (BitVec 32)
  vOutputs : Mp VirtualOutputs

/-- The indoor blower is on. -/
def blowerOn (v : VirtualOutputs) : Prop :=
  v.indoorFan ≠ VIRTUAL_OUTPUTS_OFF ∨ v.indoorFanCont ≠ VIRTUAL_OUTPUTS_OFF

instance (v : VirtualOutputs) : Decidable (blowerOn v) := inferInstanceAs (Decidable (_ ∨ _))

/-- **`AirFilterMonitor::execute`**: the members, the alert and the operation time. -/
def execute (m : Members) (ins : Inputs) (alert : Mp SimpleAlarm) (operationTime : Mp Precision)
    (currentInterval : Precision) : Members × Mp SimpleAlarm × Mp Precision :=
  if alert.valid = false ∨ ins.maxAirFilterHours.valid = false ∨ operationTime.valid = false
      ∨ ins.vOutputs.valid = false then (m, alert, operationTime)
  else if alert.data.active = true then (m, alert, operationTime)
  else if blowerOn ins.vOutputs.data then
    let mark := if m.blowerWasOn = false then currentInterval else m.markBlowerOn
    let elapsedTime := operationTime.data.add (deltaPrecision mark currentInterval)
    let limit := Precision.ofSeconds (ins.maxAirFilterHours.data * 60#32 * 60#32)
    -- `operator >=`
    if elapsedTime = limit ∨ limit < elapsedTime then
      (⟨false, currentInterval⟩, alert.write ⟨true, false, false⟩, operationTime.write .zero)
    else (⟨true, currentInterval⟩, alert.write alert.data, operationTime.write elapsedTime)
  else (m, alert.write alert.data, operationTime.write operationTime.data)

/-! ## §2. The passes. -/

/-- A pass, with valid inputs; the alert may have been cleared since the last one. -/
structure Pass where
  maxHours : BitVec 32
  vOutputs : VirtualOutputs
  cleared : Bool
  currentInterval : Precision
  hours : maxHours.toNat * 3600 < 2 ^ 32
  proper : currentInterval.Proper

/-- The limit, in milliseconds. -/
def Pass.limit (p : Pass) : Nat := p.maxHours.toNat * 3600 * 1000

/-- The component and the points it writes.  The rest is no data of the program: the time of
the last pass, whether it counts as a pass with the blower on, the last time it was on since the
last alert, and the sum of the times between two passes that count. -/
structure Filter where
  members : Members
  alert : Mp SimpleAlarm
  operationTime : Mp Precision
  last : Precision
  onBefore : Bool
  lastOn : Option Precision
  sum : Nat

namespace Filter

/-- The alert as a pass finds it. -/
def found (w : Filter) (p : Pass) : Mp SimpleAlarm :=
  if p.cleared then SimpleAlarm.setAlarm w.alert false false else w.alert

/-- The sum with this pass. -/
def sumWith (w : Filter) (p : Pass) : Nat :=
  if w.onBefore = true ∧ blowerOn p.vOutputs then w.sum + (p.currentInterval.ms - w.last.ms)
  else w.sum

/-- What `execute` makes of a pass. -/
def executed (w : Filter) (p : Pass) : Members × Mp SimpleAlarm × Mp Precision :=
  execute w.members ⟨⟨true, p.maxHours, 1#16⟩, ⟨true, p.vOutputs, 1#16⟩⟩ (w.found p)
    w.operationTime p.currentInterval

/-- One pass, at a time that is not before the last one. -/
def step (w : Filter) (p : Pass) : Option Filter :=
  if w.last.ms ≤ p.currentInterval.ms then
    let r := w.executed p
    some
      { members := r.1
        alert := r.2.1
        operationTime := r.2.2
        last := p.currentInterval
        onBefore := decide ((w.found p).data.active = false ∧ w.sumWith p < p.limit
          ∧ blowerOn p.vOutputs)
        lastOn :=
          if (w.found p).data.active = true then w.lastOn
          else if p.limit ≤ w.sumWith p then none
          else if blowerOn p.vOutputs then some p.currentInterval
          else w.lastOn
        sum :=
          if (w.found p).data.active = true then w.sum
          else if p.limit ≤ w.sumWith p then 0
          else w.sumWith p }
  else none

/-- **After a pass** that found the alert inactive, the alert is raised exactly if the blower
has been on for the limit, and the operation time is the time it has been on. -/
def Counts (w : Filter) (p : Pass) : Prop :=
  ∀ w', w.step p = some w' → (w.found p).data.active = false →
    (w'.alert.data.active = true ↔ p.limit ≤ w.sumWith p) ∧ w'.operationTime.data.ms = w'.sum

/-- **The blower is off below the limit, and does not come on again** after it was off, except
at the time it was last on, or when the limit is reached anyway. -/
def Continuous (w : Filter) (p : Pass) : Prop :=
  w.last.ms ≤ p.currentInterval.ms → (w.found p).data.active = false →
    if blowerOn p.vOutputs then
      w.onBefore = false → ∀ t, w.lastOn = some t → t.ms = p.currentInterval.ms ∨ p.limit ≤ w.sum
    else w.sum < p.limit

/-- The component as started, with nothing on the clock. -/
def init (markBlowerOn : Precision) (alert : SimpleAlarm) (sequenceNumber : BitVec 16) : Filter where
  members := ⟨false, markBlowerOn⟩
  alert := ⟨true, alert, sequenceNumber⟩
  operationTime := ⟨true, .zero, sequenceNumber⟩
  last := .zero
  onBefore := false
  lastOn := none
  sum := 0

/-! ## §3. One pass. -/

/-- **The invariant**: the published time is the sum, and the mark is the last time on. -/
structure Inv (w : Filter) : Prop where
  proper : w.last.Proper
  alert : w.alert.valid = true
  valid : w.operationTime.valid = true
  time : w.operationTime.data.Proper ∧ w.operationTime.data.ms = w.sum
  sum_le : w.sum ≤ w.last.ms
  wasOn : w.members.blowerWasOn = w.lastOn.isSome
  mark : ∀ t, w.lastOn = some t →
    w.members.markBlowerOn = t ∧ t.Proper ∧ w.sum ≤ t.ms ∧ t.ms ≤ w.last.ms
  onBefore : w.onBefore = true → w.lastOn = some w.last

variable {w w' : Filter} {p : Pass}

theorem Inv.found (h : Inv w) : (w.found p).valid = true := by
  unfold Filter.found
  split
  · exact Mp.valid_write _ _
  · exact h.alert

/-- The time counted by a pass with the blower on: that since the last such pass. -/
def counted (w : Filter) (p : Pass) : Nat :=
  w.sum + (p.currentInterval.ms - (w.lastOn.getD p.currentInterval).ms)

theorem Inv.elapsed (h : Inv w) (hle : w.last.ms ≤ p.currentInterval.ms) :
    let mark := if w.members.blowerWasOn = false then p.currentInterval else w.members.markBlowerOn
    let elapsedTime := w.operationTime.data.add (deltaPrecision mark p.currentInterval)
    elapsedTime.Proper ∧ elapsedTime.ms = w.counted p ∧ w.counted p ≤ p.currentInterval.ms := by
  have hmark : (if w.members.blowerWasOn = false then p.currentInterval else w.members.markBlowerOn)
      = w.lastOn.getD p.currentInterval := by
    rw [h.wasOn]
    cases hon : w.lastOn with
    | none => rfl
    | some t => exact (h.mark t hon).1
  have hbound : (w.lastOn.getD p.currentInterval).Proper
      ∧ w.sum ≤ (w.lastOn.getD p.currentInterval).ms
      ∧ (w.lastOn.getD p.currentInterval).ms ≤ p.currentInterval.ms := by
    cases hon : w.lastOn with
    | none => exact ⟨p.proper, h.sum_le.trans hle, le_refl _⟩
    | some t => exact ⟨(h.mark t hon).2.1, (h.mark t hon).2.2.1, (h.mark t hon).2.2.2.trans hle⟩
  obtain ⟨hproper, hsum, hnow⟩ := hbound
  obtain ⟨hdp, hdms⟩ := deltaPrecision_spec hproper p.proper hnow
  rw [hmark]
  have hle' : w.counted p ≤ p.currentInterval.ms := by unfold counted; omega
  have hadd := Precision.ms_add h.time.1 (Nat.le_of_lt hdp)
    (by rw [h.time.2, hdms]; exact hle'.trans_lt (Precision.ms_lt p.proper))
  exact ⟨Precision.proper_add _ _, by rw [hadd, h.time.2, hdms, counted], hle'⟩

theorem limit_ms (p : Pass) : (Precision.ofSeconds (p.maxHours * 60#32 * 60#32)).ms = p.limit := by
  have h := p.hours
  simp only [Precision.ms, Precision.ofSeconds, Pass.limit, BitVec.toNat_mul, BitVec.toNat_ofNat]
  omega

theorem ge_iff {t l : Precision} (ht : t.Proper) (hl : l.Proper) :
    (t = l ∨ l < t) ↔ l.ms ≤ t.ms := by
  rw [Precision.lt_iff hl ht, Nat.le_iff_lt_or_eq, or_comm]
  exact or_congr_right ⟨fun h => h ▸ rfl, fun h => Precision.eq_of_ms ht hl h.symm⟩

/-- **A pass with the blower on** publishes the time counted, or raises the alert. -/
theorem executed_on (h : Inv w) (hle : w.last.ms ≤ p.currentInterval.ms)
    (hactive : (w.found p).data.active = false) (hon : blowerOn p.vOutputs) :
    ∃ elapsedTime : Precision, elapsedTime.Proper ∧ elapsedTime.ms = w.counted p ∧ w.executed p =
      if p.limit ≤ w.counted p then
        (⟨false, p.currentInterval⟩, (w.found p).write ⟨true, false, false⟩,
          w.operationTime.write .zero)
      else (⟨true, p.currentInterval⟩, (w.found p).write (w.found p).data,
        w.operationTime.write elapsedTime) := by
  obtain ⟨hproper, hms, -⟩ := h.elapsed hle
  refine ⟨_, hproper, hms, ?_⟩
  have hlimit := ge_iff hproper (Precision.proper_ofSeconds (p.maxHours * 60#32 * 60#32))
  rw [limit_ms, hms] at hlimit
  simp [executed, execute, h.found, h.valid, hactive, if_pos hon, hlimit]

theorem executed_off (h : Inv w) (hactive : (w.found p).data.active = false)
    (hoff : ¬ blowerOn p.vOutputs) :
    w.executed p = (w.members, (w.found p).write (w.found p).data,
      w.operationTime.write w.operationTime.data) := by
  simp [executed, execute, h.found, h.valid, hactive, if_neg hoff]

/-- The time counted is the sum, unless the blower comes on again. -/
theorem Inv.counted_eq_or (h : Inv w) (hle : w.last.ms ≤ p.currentInterval.ms)
    (hon : blowerOn p.vOutputs) :
    w.sumWith p ≤ w.counted p
    ∧ ((w.counted p = w.sumWith p ∨ p.limit ≤ w.sumWith p)
      ↔ (w.onBefore = false → ∀ t, w.lastOn = some t →
          t.ms = p.currentInterval.ms ∨ p.limit ≤ w.sum)) := by
  unfold counted sumWith
  cases hbefore : w.onBefore with
  | true => simp [hon, h.onBefore hbefore]
  | false =>
    cases hlast : w.lastOn with
    | none => simp
    | some t =>
      have ht := (h.mark t hlast).2.2.2.trans hle
      simp only [Bool.false_eq_true, false_and, if_false, Option.getD_some, Option.some.injEq,
        forall_eq', true_imp_iff]
      omega

/-- **One pass.** -/
theorem counts_iff (h : Inv w) : w.Counts p ↔ w.Continuous p := by
  unfold Counts Continuous step
  by_cases hle : w.last.ms ≤ p.currentInterval.ms
  · simp only [hle, if_true, Option.some.injEq, forall_eq', true_imp_iff]
    refine forall_congr' fun hactive => ?_
    by_cases hon : blowerOn p.vOutputs
    · obtain ⟨elapsedTime, -, hms, hexec⟩ := executed_on h hle hactive hon
      obtain ⟨hge, hiff⟩ := h.counted_eq_or hle hon
      rw [if_pos hon, ← hiff, hexec]
      by_cases hc : p.limit ≤ w.counted p <;> by_cases hs : p.limit ≤ w.sumWith p <;>
        simp [hc, hs, hactive]
      all_goals omega
    · have hsum : w.sumWith p = w.sum := if_neg fun hx => hon hx.2
      rw [if_neg hon, executed_off h hactive hon, hsum]
      by_cases hs : p.limit ≤ w.sum <;> simp [hactive, h.time.2]
      all_goals omega
  · simp [hle]

/-- A pass that counts nothing. -/
theorem Inv.skip (h : Inv w) (hle : w.last.ms ≤ p.currentInterval.ms) {alert : Mp SimpleAlarm}
    {time : Mp Precision} (halert : alert.valid = true) (hvalid : time.valid = true)
    (htime : time.data = w.operationTime.data) :
    Inv { w with
      alert := alert, operationTime := time, last := p.currentInterval, onBefore := false } where
  proper := p.proper
  alert := halert
  valid := hvalid
  time := htime ▸ h.time
  sum_le := h.sum_le.trans hle
  wasOn := h.wasOn
  mark t ht :=
    let ⟨hmark, hproper, hsum, hlast⟩ := h.mark t ht
    ⟨hmark, hproper, hsum, hlast.trans hle⟩
  onBefore := nofun

/-- **A pass that counts right** keeps the invariant. -/
theorem Counts.inv (hcounts : w.Counts p) (h : Inv w) (hstep : w.step p = some w') : Inv w' := by
  have hafter := hcounts w' hstep
  unfold step at hstep
  split at hstep
  next hle =>
    cases hstep
    cases hactive : (w.found p).data.active with
    | true =>
      have hexec : w.executed p = (w.members, w.found p, w.operationTime) := by
        simp [executed, execute, hactive]
      simpa [hexec] using h.skip hle h.found h.valid rfl
    | false =>
      replace hafter := hafter hactive
      by_cases hon : blowerOn p.vOutputs
      · obtain ⟨elapsedTime, hproper, hms, hexec⟩ := executed_on h hle hactive hon
        have hge := (h.counted_eq_or hle hon).1
        have hnow := (h.elapsed hle).2.2
        by_cases hs : p.limit ≤ w.sumWith p
        · rw [if_pos (hs.trans hge)] at hexec
          simp only [hexec, hs, Nat.not_lt.mpr hs]
          refine ⟨p.proper, Mp.valid_write _ _, Mp.valid_write _ _, ?_, Nat.zero_le _, rfl, nofun, nofun⟩
          rw [Mp.data_write]
          exact ⟨Precision.proper_ofSeconds 0#32, Precision.ms_zero⟩
        · have hc : ¬ p.limit ≤ w.counted p := by
            intro hc
            rw [hexec, if_pos hc] at hafter
            exact hs (hafter.1.mp (by simp))
          rw [if_neg hc] at hexec
          have htime : w.counted p = w.sumWith p := by
            simpa [hexec, hactive, hs, hms] using hafter.2
          simp only [hexec, hs, hon]
          refine ⟨p.proper, Mp.valid_write _ _, Mp.valid_write _ _, ?_, hge.trans hnow, rfl, ?_, ?_⟩
          · rw [Mp.data_write]
            exact ⟨hproper, hms.trans htime⟩
          · rintro t ⟨⟩
            exact ⟨rfl, p.proper, hge.trans hnow, le_refl _⟩
          · exact fun _ => rfl
      · have hexec := executed_off h hactive hon
        have hsum : w.sumWith p = w.sum := if_neg fun hx => hon hx.2
        have hs : ¬ p.limit ≤ w.sum := by
          rw [hexec, hsum] at hafter
          exact fun hs => absurd (hafter.1.mpr hs) (by simp [hactive])
        simpa [hexec, hsum, hs, hon] using
          h.skip hle (Mp.valid_write (w.found p) _) (Mp.valid_write w.operationTime _)
            (Mp.data_write _ _)
  next => cases hstep

/-- **THE OPERATION TIME IS THE RUN TIME OF THE BLOWER**, and the alert is raised when it reaches
the limit, along every run, exactly when the blower stays on. -/
theorem operation_time_iff (markBlowerOn : Precision) (alert : SimpleAlarm)
    (sequenceNumber : BitVec 16) (passes : List Pass) :
    Along step Counts (init markBlowerOn alert sequenceNumber) passes
      ↔ Along step Continuous (init markBlowerOn alert sequenceNumber) passes :=
  along_congr Inv (fun _ _ _ h => counts_iff h) (fun _ _ _ h hc hstep => hc.inv h hstep)
    ⟨Precision.proper_ofSeconds 0#32, rfl, rfl, ⟨Precision.proper_ofSeconds 0#32, Precision.ms_zero⟩,
      Nat.zero_le _, rfl, nofun, nofun⟩

/-- A pass with an hour to run. -/
def passAt (seconds : BitVec 32) (on : Bool) : Pass :=
  ⟨1#32, { VirtualOutputs.zero with indoorFan := if on then 1000 else 0 }, false, .ofSeconds seconds,
    by decide, Precision.proper_ofSeconds _⟩

/-- **Ten minutes off count as well**: on at 0 s, off at 10 s, on again at 610 s. -/
theorem off_time_counted :
    (run step (init .zero ⟨false, false, false⟩ 1#16)
        [passAt 0#32 true, passAt 10#32 false, passAt 610#32 true]).map
          (fun w => (w.sum, w.operationTime.data)) = some (0, .ofSeconds 610#32) := by
  decide +kernel

end Filter

end ColonyCore.Storm.Component.AirFilterMonitor
