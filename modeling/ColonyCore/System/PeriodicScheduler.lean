/-
  ColonyCore.System.PeriodicScheduler
  **PERIODIC CALLBACKS ON THE BOUNDARIES OF THE SYSTEM TIME.**

  The scheduler keeps a marker per interval, advances it by one duration per callback
  in seconds and thousandths, and re-synchronises it through a flat number of
  milliseconds that an `unsigned long` computes.

    • `setTimeMarker_spec` — the re-synchronised marker, where the flat time is exact,
    • `visit_spec` — what one visit of one interval does,
    • `boundaries_kept` — over every run that re-synchronises within the range of the
      flat time: boundaries in order, one callback a call at most, every skipped
      boundary reported,
    • `boundary_lost` — the run where the flat time has wrapped.
-/
import ColonyCore.System.ElapsedTime

namespace ColonyCore.System

open BitVec Precision

/-! ## §1. Flat time. -/

namespace Precision

/-- `Precision_T::asFlatTime`: the product is an `unsigned long`, only the result is
widened to a `uint64_t`. -/
def asFlatTime (t : Precision) : BitVec 64 :=
  (t.seconds * 1000#32 + t.thousandths.setWidth 32).setWidth 64

/-- `Precision_T::setFlatTime`. -/
def setFlatTime (flatTimeInMs : BitVec 64) : Precision :=
  ⟨(flatTimeInMs / 1000#64).setWidth 32, (flatTimeInMs % 1000#64).setWidth 16⟩

variable {t : Precision}

theorem toNat_asFlatTime (ht : t.ms < 2 ^ 32) : t.asFlatTime.toNat = t.ms := by
  unfold ms at ht ⊢
  simp only [asFlatTime, toNat_setWidth, toNat_add, toNat_mul,
    toNat_ofNat]
  omega

theorem proper_setFlatTime (f : BitVec 64) : (setFlatTime f).Proper := by
  simp only [Proper, setFlatTime, toNat_setWidth, toNat_umod, toNat_ofNat,
    Nat.reducePow, Nat.reduceMod]
  omega

theorem ms_setFlatTime {f : BitVec 64} (hf : f.toNat < 2 ^ 32) : (setFlatTime f).ms = f.toNat := by
  simp only [ms, setFlatTime, toNat_setWidth, toNat_umod, toNat_udiv,
    toNat_ofNat, Nat.reducePow, Nat.reduceMod] at hf ⊢
  omega

end Precision

/-! ## §2. The scheduler. -/

namespace PeriodicScheduler

/-- `Interval_T`; the callback and its context are opaque, see `Call`. -/
structure Interval where
  duration : Precision
  timeMarker : Precision
  deriving DecidableEq, Repr

/-- A call the scheduler makes for an interval: of its `callbackFunc`, or of the
application's slippage function. -/
inductive Call where
  | callback (currentTick currentInterval : Precision)
  | slippage (currentTick missedInterval : Precision)
  deriving DecidableEq, Repr

/-- `PeriodicScheduler`: the array up to its null entry, whether a slippage function was
given, and `m_firstExecution`. -/
structure Scheduler where
  intervals : List Interval
  reportSlippage : Bool
  firstExecution : Bool
  deriving DecidableEq, Repr

/-- The state the constructor leaves. -/
def create (intervals : List Interval) (reportSlippage : Bool) : Scheduler :=
  ⟨intervals, reportSlippage, true⟩

/-- `PeriodicScheduler::setTimeMarker`: round down to the nearest boundary. -/
def setTimeMarker (interval : Interval) (currentTick : Precision) : Interval :=
  let duration := interval.duration.asFlatTime
  if duration = 0#64 then { interval with timeMarker := currentTick }
  else { interval with
         timeMarker := .setFlatTime (currentTick.asFlatTime / duration * duration) }

/-- The body of the scan for one interval, with the calls it makes in their order. -/
def visit (firstExecution reportSlippage : Bool) (interval : Interval)
    (currentTick : Precision) : Interval × List Call :=
  let interval := if firstExecution then setTimeMarker interval currentTick else interval
  if expiredPrecision interval.timeMarker interval.duration currentTick then
    let interval := { interval with timeMarker := interval.timeMarker.add interval.duration }
    if expiredPrecision interval.timeMarker interval.duration currentTick then
      (setTimeMarker interval currentTick,
        .callback currentTick interval.timeMarker ::
          if reportSlippage then [.slippage currentTick interval.timeMarker] else [])
    else (interval, [.callback currentTick interval.timeMarker])
  else (interval, [])

/-- The scan: every interval reads the clock for itself, `nowFunc i` being the reading
for the interval at position `i`. -/
def scan (firstExecution reportSlippage : Bool) (nowFunc : Nat → Precision) :
    List Interval → List (Interval × List Call)
  | [] => []
  | interval :: rest =>
    visit firstExecution reportSlippage interval (nowFunc 0) ::
      scan firstExecution reportSlippage (fun i => nowFunc (i + 1)) rest

/-- `executeScheduler`: the scheduler after it, whether at least one interval was
executed, and the calls made for each interval. -/
def executeScheduler (s : Scheduler) (nowFunc : Nat → Precision) :
    Scheduler × Bool × List (List Call) :=
  let visited := scan s.firstExecution s.reportSlippage nowFunc s.intervals
  ({ s with intervals := visited.map Prod.fst, firstExecution := false },
    visited.any (fun v => !v.2.isEmpty), visited.map Prod.snd)

/-- The readings of call `m` are the next ones of the clock, one per interval. -/
def readings (s : Scheduler) (clock : Nat → Precision) (m i : Nat) : Precision :=
  clock (m * s.intervals.length + i)

/-- The scheduler before call `m`. -/
def run (s : Scheduler) (clock : Nat → Precision) : Nat → Scheduler
  | 0 => s
  | m + 1 => (executeScheduler (run s clock m) (readings s clock m)).1

/-- The calls that call `m` of the scheduler makes for the interval at position `i`. -/
def calls (s : Scheduler) (clock : Nat → Precision) (m i : Nat) : List Call :=
  ((executeScheduler (run s clock m) (readings s clock m)).2.2)[i]?.getD []

/-! ## §3. One visit of one interval. -/

@[simp] theorem setTimeMarker_duration (iv : Interval) (now : Precision) :
    (setTimeMarker iv now).duration = iv.duration := by
  unfold setTimeMarker
  dsimp only
  split <;> rfl

variable {iv : Interval} {now : Precision}

/-- **THE RE-SYNCHRONISED MARKER** is the last boundary before the reading, where both
flat times are exact. -/
theorem setTimeMarker_spec (hpos : 0 < iv.duration.ms)
    (hd : iv.duration.ms < 2 ^ 32) (hn : now.ms < 2 ^ 32) :
    (setTimeMarker iv now).timeMarker.Proper ∧
      (setTimeMarker iv now).timeMarker.ms = now.ms / iv.duration.ms * iv.duration.ms := by
  have hflat := toNat_asFlatTime hd
  have hne : iv.duration.asFlatTime ≠ 0#64 := by
    intro h
    rw [h] at hflat
    simp at hflat
    omega
  have hround : now.ms / iv.duration.ms * iv.duration.ms ≤ now.ms := Nat.div_mul_le_self _ _
  have hvalue : (now.asFlatTime / iv.duration.asFlatTime * iv.duration.asFlatTime).toNat =
      now.ms / iv.duration.ms * iv.duration.ms := by
    rw [toNat_mul, toNat_udiv, hflat, toNat_asFlatTime hn]
    exact Nat.mod_eq_of_lt (by omega)
  simp only [setTimeMarker, if_neg hne]
  refine ⟨proper_setFlatTime _, ?_⟩
  rw [ms_setFlatTime (by omega), hvalue]

/-- The marker is a boundary, and the reading lies in the interval it begins. -/
structure Synced (iv : Interval) (now : Precision) : Prop where
  proper : iv.timeMarker.Proper
  aligned : iv.duration.ms ∣ iv.timeMarker.ms
  past : iv.timeMarker.ms ≤ now.ms
  current : now.ms < iv.timeMarker.ms + iv.duration.ms

theorem synced_setTimeMarker (hpos : 0 < iv.duration.ms) (hd : iv.duration.ms < 2 ^ 32)
    (hn : now.ms < 2 ^ 32) : Synced (setTimeMarker iv now) now := by
  obtain ⟨hproper, hms⟩ := setTimeMarker_spec hpos hd hn
  have hdm := Nat.div_add_mod now.ms iv.duration.ms
  have hlt := Nat.mod_lt now.ms hpos
  rw [Nat.mul_comm] at hdm
  refine ⟨hproper, ?_, ?_, ?_⟩
  · rw [hms, setTimeMarker_duration]
    exact Dvd.intro_left _ rfl
  · omega
  · rw [setTimeMarker_duration]
    omega

/-- A visit that re-synchronises, being the first or at least two durations behind,
does so within the range of the flat time. -/
def SyncInRange (firstExecution : Bool) (iv : Interval) (now : Precision) : Prop :=
  firstExecution = true ∨ iv.timeMarker.ms + 2 * iv.duration.ms ≤ now.ms →
    now.ms < 2 ^ 32 ∧ iv.duration.ms < 2 ^ 32

/-- What a later visit does: nothing, a callback on the next boundary, or a callback
followed by the report and a marker that has moved on. -/
inductive Visited (reportSlippage : Bool) (iv : Interval) (now : Precision) :
    Interval → List Call → Prop
  | early : Visited reportSlippage iv now iv []
  | onTime (b : Precision) (hb : b.ms = iv.timeMarker.ms + iv.duration.ms) :
      Visited reportSlippage iv now { iv with timeMarker := b } [.callback now b]
  | late (b : Precision) (hb : b.ms = iv.timeMarker.ms + iv.duration.ms) (iv' : Interval)
      (hle : b.ms ≤ iv'.timeMarker.ms) :
      Visited reportSlippage iv now iv'
        (.callback now b :: if reportSlippage then [.slippage now b] else [])

section

variable (report : Bool) (hd : iv.duration.Proper) (hpos : 0 < iv.duration.ms) (hn : now.Proper)

include hd hpos hn

/-- The first visit only sets the marker. -/
theorem visit_first (hrange : SyncInRange true iv now) :
    visit true report iv now = (setTimeMarker iv now, []) ∧
      Synced (setTimeMarker iv now) now := by
  obtain ⟨hnow, hdur⟩ := hrange (.inl rfl)
  have hsync := synced_setTimeMarker hpos hdur hnow
  have hearly : expiredPrecision (setTimeMarker iv now).timeMarker
      (setTimeMarker iv now).duration now = false := by
    rw [← Bool.not_eq_true, expiredPrecision_iff hsync.proper (by simpa using hd) hn hsync.past]
    have := hsync.current
    omega
  refine ⟨?_, hsync⟩
  simp only [visit, if_true, hearly]
  rfl

/-- **WHAT ONE LATER VISIT DOES**, from a marker in sync with an earlier reading. -/
theorem visit_spec {prev : Precision} (hsync : Synced iv prev) (hle : prev.ms ≤ now.ms)
    (hrange : SyncInRange false iv now) :
    Visited report iv now (visit false report iv now).1 (visit false report iv now).2 ∧
      (visit false report iv now).1.duration = iv.duration ∧
      Synced (visit false report iv now).1 now := by
  have hpast := hsync.past
  have hexp := expiredPrecision_iff hsync.proper hd hn (hpast.trans hle)
  by_cases hdue : iv.timeMarker.ms + iv.duration.ms ≤ now.ms
  swap
  · -- before the next boundary nothing is called
    have hvisit : visit false report iv now = (iv, []) := by
      have h := mt hexp.mp hdue
      simp [visit, h]
    rw [hvisit]
    exact ⟨.early, rfl, hsync.proper, hsync.aligned, hpast.trans hle, Nat.lt_of_not_le hdue⟩
  · have hdue' := hexp.mpr hdue
    have hlast := ms_lt hn
    have hms := ms_add hsync.proper (Nat.le_of_lt hd) (by omega)
    have hproper := proper_add iv.timeMarker iv.duration
    have hexp2 := expiredPrecision_iff hproper hd hn (by omega)
    by_cases hslip : (iv.timeMarker.add iv.duration).ms + iv.duration.ms ≤ now.ms
    swap
    · have hvisit : visit false report iv now =
          ({ iv with timeMarker := iv.timeMarker.add iv.duration },
            [.callback now (iv.timeMarker.add iv.duration)]) := by
        have h := mt hexp2.mp hslip
        simp [visit, hdue', h]
      rw [hvisit]
      refine ⟨.onTime _ hms, rfl, hproper, ?_, ?_, ?_⟩
      · rw [hms]
        exact Nat.dvd_add hsync.aligned (Nat.dvd_refl _)
      · show (iv.timeMarker.add iv.duration).ms ≤ now.ms
        omega
      · show now.ms < (iv.timeMarker.add iv.duration).ms + iv.duration.ms
        omega
    · have hslip' := hexp2.mpr hslip
      obtain ⟨hnow, hdur⟩ := hrange (.inr (by omega))
      have hsync' : Synced
          (setTimeMarker { iv with timeMarker := iv.timeMarker.add iv.duration } now) now :=
        synced_setTimeMarker hpos hdur hnow
      have hvisit : visit false report iv now =
          (setTimeMarker { iv with timeMarker := iv.timeMarker.add iv.duration } now,
            .callback now (iv.timeMarker.add iv.duration) ::
              if report then [.slippage now (iv.timeMarker.add iv.duration)] else []) := by
        simp [visit, hdue', hslip']
      rw [hvisit]
      refine ⟨.late _ hms _ ?_, by simp, hsync'⟩
      have hcurrent := hsync'.current
      simp only [setTimeMarker_duration] at hcurrent
      show (iv.timeMarker.add iv.duration).ms ≤ (setTimeMarker _ now).timeMarker.ms
      omega

end

/-! ## §4. Runs: each interval on its own. -/

theorem getElem?_scan (first report : Bool) (nowFunc : Nat → Precision) (ivs : List Interval)
    (i : Nat) :
    (scan first report nowFunc ivs)[i]? =
      ivs[i]?.map fun iv => visit first report iv (nowFunc i) := by
  induction ivs generalizing nowFunc i with
  | nil => rfl
  | cons iv rest ih =>
    cases i with
    | zero => rfl
    | succ i => exact ih _ i

theorem duration_visit (first report : Bool) (iv : Interval) (now : Precision) :
    (visit first report iv now).1.duration = iv.duration := by
  cases first <;> simp only [visit] <;>
    split_ifs <;> simp

theorem durations_scan (first report : Bool) (nowFunc : Nat → Precision) (ivs : List Interval) :
    (scan first report nowFunc ivs).map (fun v => v.1.duration) = ivs.map (·.duration) := by
  induction ivs generalizing nowFunc with
  | nil => rfl
  | cons iv rest ih => simp [scan, duration_visit, ih]

/-- No call changes a duration. -/
theorem durations_run (s : Scheduler) (clock : Nat → Precision) (m : Nat) :
    (run s clock m).intervals.map (·.duration) = s.intervals.map (·.duration) := by
  induction m with
  | zero => rfl
  | succ m ih =>
    rw [← ih, run, executeScheduler, List.map_map]
    exact durations_scan _ _ _ _

/-- One interval through the calls: `now m` is the reading call `m` takes for it. -/
def track (report : Bool) (iv : Interval) (now : Nat → Precision) : Nat → Interval
  | 0 => iv
  | m + 1 => (visit (m == 0) report (track report iv now m) (now m)).1

section Run

variable (ivs : List Interval) (report : Bool) (clock : Nat → Precision)

theorem run_flags (m : Nat) :
    (run (create ivs report) clock m).firstExecution = (m == 0) ∧
      (run (create ivs report) clock m).reportSlippage = report := by
  induction m with
  | zero => exact ⟨rfl, rfl⟩
  | succ m ih => exact ⟨rfl, ih.2⟩

variable {i : Nat} (hi : ivs[i]? = some iv) (m : Nat)

include hi

/-- The intervals do not influence each other. -/
theorem run_intervals :
    (run (create ivs report) clock m).intervals[i]? =
      some (track report iv (fun m => readings (create ivs report) clock m i) m) := by
  induction m with
  | zero => exact hi
  | succ m ih =>
    obtain ⟨hfirst, hreport⟩ := run_flags ivs report clock m
    simp [run, executeScheduler, getElem?_scan, ih, hfirst, hreport, track]

theorem calls_eq :
    calls (create ivs report) clock m i =
      (visit (m == 0) report
        (track report iv (fun m => readings (create ivs report) clock m i) m)
        (readings (create ivs report) clock m i)).2 := by
  obtain ⟨hfirst, hreport⟩ := run_flags ivs report clock m
  simp [calls, executeScheduler, getElem?_scan, run_intervals ivs report clock hi m, hfirst, hreport]

end Run

/-- The readings one interval gets do not go back. -/
theorem readings_mono {s : Scheduler} {clock : Nat → Precision}
    (hmono : ∀ r, (clock r).ms ≤ (clock (r + 1)).ms) {m m' : Nat} (h : m ≤ m') (i : Nat) :
    (readings s clock m i).ms ≤ (readings s clock m' i).ms := by
  have hmono' : Monotone fun r => (clock r).ms := monotone_nat_of_le_succ hmono
  exact hmono' (Nat.add_le_add_right (Nat.mul_le_mul_right _ h) i)

section Track

variable {report : Bool} {now : Nat → Precision}

/-- What one interval's readings and markers satisfy in a run that keeps in range. -/
structure Regular (report : Bool) (iv : Interval) (now : Nat → Precision) : Prop where
  duration : iv.duration.Proper
  positive : 0 < iv.duration.ms
  reading : ∀ m, (now m).Proper
  mono : ∀ m, (now m).ms ≤ (now (m + 1)).ms
  inRange : ∀ m, SyncInRange (m == 0) (track report iv now m) (now m)

/-- After every call the marker is in sync with the reading of that call. -/
theorem Regular.synced (h : Regular report iv now) (m : Nat) :
    (track report iv now (m + 1)).duration = iv.duration ∧
      Synced (track report iv now (m + 1)) (now m) := by
  induction m with
  | zero =>
    obtain ⟨hvisit, hsync⟩ :=
      visit_first report h.duration h.positive (h.reading 0) (h.inRange 0)
    show (visit true report iv (now 0)).1.duration = _ ∧ Synced (visit true report iv (now 0)).1 _
    rw [hvisit]
    exact ⟨setTimeMarker_duration _ _, hsync⟩
  | succ m ih =>
    obtain ⟨hdur, hsync⟩ := ih
    obtain ⟨-, hdur', hsync'⟩ := visit_spec report (by rw [hdur]; exact h.duration)
      (by rw [hdur]; exact h.positive) (h.reading (m + 1)) hsync (h.mono m) (h.inRange (m + 1))
    exact ⟨hdur'.trans hdur, hsync'⟩

/-- The calls made for an interval by call `m`. -/
def made (report : Bool) (iv : Interval) (now : Nat → Precision) (m : Nat) : List Call :=
  (visit (m == 0) report (track report iv now m) (now m)).2

theorem Regular.made_zero (h : Regular report iv now) : made report iv now 0 = [] := by
  have hvisit :=
    (visit_first report h.duration h.positive (h.reading 0) (h.inRange 0)).1
  exact congrArg Prod.snd hvisit

theorem Regular.visited (h : Regular report iv now) (m : Nat) :
    Visited report (track report iv now (m + 1)) (now (m + 1))
      (track report iv now (m + 2)) (made report iv now (m + 1)) := by
  obtain ⟨hdur, hsync⟩ := h.synced m
  exact (visit_spec report (by rw [hdur]; exact h.duration) (by rw [hdur]; exact h.positive)
    (h.reading (m + 1)) hsync (h.mono m) (h.inRange (m + 1))).1

variable {m : Nat}

variable (h : Regular report iv now)

include h

/-- A callback gets the boundary after the marker; a marker that moves beyond that
boundary is reported. -/
theorem Regular.of_callback {tick b : Precision} (hc : .callback tick b ∈ made report iv now m) :
    0 < m ∧ tick = now m ∧ b.ms = (track report iv now m).timeMarker.ms + iv.duration.ms ∧
      b.ms ≤ (track report iv now (m + 1)).timeMarker.ms ∧
      (b.ms = (track report iv now (m + 1)).timeMarker.ms ∨
        (report = true → .slippage tick b ∈ made report iv now m)) := by
  cases m with
  | zero =>
    rw [h.made_zero] at hc
    cases hc
  | succ m =>
    have hvisited := h.visited m
    have hdur := (h.synced m).1
    generalize made report iv now (m + 1) = cs at hc hvisited ⊢
    generalize track report iv now (m + 2) = iv' at hvisited ⊢
    rw [← hdur]
    cases hvisited with
    | early => cases hc
    | onTime b' hb =>
      obtain ⟨rfl, rfl⟩ : tick = now (m + 1) ∧ b = b' := by simpa using hc
      exact ⟨Nat.succ_pos m, rfl, hb, le_rfl, .inl rfl⟩
    | late b' hb _ hle =>
      obtain ⟨rfl, rfl⟩ : tick = now (m + 1) ∧ b = b' := by
        cases report <;> simpa using hc
      exact ⟨Nat.succ_pos m, rfl, hb, hle, .inr fun hr => by simp [hr]⟩

/-- Without a callback the marker stays. -/
theorem Regular.quiet (hm : 0 < m) (hno : ∀ tick b, .callback tick b ∉ made report iv now m) :
    track report iv now (m + 1) = track report iv now m := by
  obtain ⟨m, rfl⟩ : ∃ k, m = k + 1 := ⟨m - 1, by omega⟩
  have hvisited := h.visited m
  generalize made report iv now (m + 1) = cs at hno hvisited
  generalize track report iv now (m + 2) = iv' at hvisited ⊢
  cases hvisited with
  | early => rfl
  | onTime b _ | late b _ _ _ => exact absurd List.mem_cons_self (hno _ b)

theorem Regular.marker_mono {m' : Nat} (hm : 0 < m) (hle : m ≤ m') :
    (track report iv now m).timeMarker.ms ≤ (track report iv now m').timeMarker.ms := by
  induction m', hle using Nat.le_induction with
  | base => exact le_rfl
  | succ k hk ih =>
    refine ih.trans ?_
    by_cases hcall : ∃ tick b, .callback tick b ∈ made report iv now k
    · obtain ⟨tick, b, hc⟩ := hcall
      obtain ⟨-, -, hb, hle, -⟩ := h.of_callback hc
      omega
    · rw [h.quiet (by omega) fun tick b hc => hcall ⟨tick, b, hc⟩]

theorem Regular.marker_quiet {m' : Nat} (hle : m + 1 ≤ m')
    (hno : ∀ k, m < k → k < m' → ∀ tick b, .callback tick b ∉ made report iv now k) :
    track report iv now m' = track report iv now (m + 1) := by
  induction m', hle using Nat.le_induction with
  | base => rfl
  | succ k hk ih =>
    rw [h.quiet (by omega) (hno k (by omega) (by omega))]
    exact ih fun j hj hjk => hno j hj (by omega)

theorem Regular.length_callbacks (m : Nat) :
    ((made report iv now m).filter fun c => c matches .callback _ _).length ≤ 1 := by
  cases m with
  | zero =>
    rw [h.made_zero]
    exact Nat.zero_le 1
  | succ m =>
    have hvisited := h.visited m
    generalize made report iv now (m + 1) = cs at hvisited ⊢
    generalize track report iv now (m + 2) = iv' at hvisited
    cases hvisited with
    | early => exact Nat.zero_le 1
    | onTime b _ => exact Nat.le_refl 1
    | late b _ _ _ => cases report <;> exact Nat.le_refl 1

end Track

/-! ## §5. What the application sees. -/

/-- The interval at position `i` is periodic in every call of the run. -/
structure Periodic (s : Scheduler) (clock : Nat → Precision) (i : Nat)
    (duration : Precision) : Prop where
  /-- The boundaries the callbacks receive increase. -/
  increasing : ∀ m m' tick b tick' b', m < m' → .callback tick b ∈ calls s clock m i →
    .callback tick' b' ∈ calls s clock m' i → b.ms < b'.ms
  /-- They are multiples of the duration, not later than the reading of the call. -/
  boundary : ∀ m tick b, .callback tick b ∈ calls s clock m i →
    tick = readings s clock m i ∧ duration.ms ∣ b.ms ∧ b.ms ≤ tick.ms
  /-- A call of the scheduler makes one callback at most. -/
  once : ∀ m, ((calls s clock m i).filter fun c => c matches .callback _ _).length ≤ 1
  /-- After every call the reading lies in the interval the marker begins. -/
  marker : ∀ m, ∃ iv, (run s clock (m + 1)).intervals[i]? = some iv ∧ iv.duration = duration ∧
    iv.timeMarker.ms ≤ (readings s clock m i).ms ∧
    (readings s clock m i).ms < iv.timeMarker.ms + duration.ms
  /-- A boundary `x` that two consecutive callbacks leave out is reported. -/
  reported : s.reportSlippage = true → ∀ m m' tick b tick' b', m < m' →
    .callback tick b ∈ calls s clock m i → .callback tick' b' ∈ calls s clock m' i →
    (∀ k, m < k → k < m' → ∀ t c, .callback t c ∉ calls s clock k i) →
    (∃ x, duration.ms ∣ x ∧ b.ms < x ∧ x < b'.ms) →
    ∃ k t c, m ≤ k ∧ k < m' ∧ .slippage t c ∈ calls s clock k i

/-- **THE BOUNDARIES ARE KEPT** in every run of every scheduler whose re-synchronising
visits are within the range of the flat time. -/
theorem boundaries_kept (ivs : List Interval) (report : Bool) (clock : Nat → Precision)
    (hclock : ∀ r, (clock r).Proper) (hmono : ∀ r, (clock r).ms ≤ (clock (r + 1)).ms)
    (hproper : ∀ iv ∈ ivs, iv.duration.Proper) (hpos : ∀ iv ∈ ivs, 0 < iv.duration.ms)
    (hrange : ∀ m i iv, (run (create ivs report) clock m).intervals[i]? = some iv
      → SyncInRange (run (create ivs report) clock m).firstExecution iv
      (readings (create ivs report) clock m i)) :
    ∀ i iv, ivs[i]? = some iv → Periodic (create ivs report) clock i iv.duration := by
  intro i iv hi
  have hmem : iv ∈ ivs := List.mem_of_getElem? hi
  have hcalls : ∀ m, calls (create ivs report) clock m i =
      made report iv (fun m => readings (create ivs report) clock m i) m :=
    calls_eq ivs report clock hi
  have hreg : Regular report iv (fun m => readings (create ivs report) clock m i) :=
    { duration := hproper iv hmem
      positive := hpos iv hmem
      reading := fun m => hclock _
      mono := fun m => readings_mono hmono (Nat.le_succ m) i
      inRange := fun m => by
        rw [← (run_flags ivs report clock m).1]
        exact hrange m i _ (run_intervals ivs report clock hi m) }
  -- a callback's boundary begins the interval after the marker, which is aligned
  have haligned : ∀ {m tick b}, .callback tick b ∈ calls (create ivs report) clock m i →
      iv.duration.ms ∣ b.ms := by
    intro m tick b hc
    rw [hcalls] at hc
    obtain ⟨hm, -, hb, -, -⟩ := hreg.of_callback hc
    obtain ⟨k, rfl⟩ : ∃ k, m = k + 1 := ⟨m - 1, by omega⟩
    obtain ⟨hdur, hsync⟩ := hreg.synced k
    rw [hb]
    exact Nat.dvd_add (hdur ▸ hsync.aligned) (Nat.dvd_refl _)
  constructor
  case increasing =>
    intro m m' tick b tick' b' hlt hc hc'
    rw [hcalls] at hc hc'
    obtain ⟨-, -, -, hle, -⟩ := hreg.of_callback hc
    obtain ⟨-, -, hb', -, -⟩ := hreg.of_callback hc'
    have hmarker := hreg.marker_mono (m := m + 1) (by omega) hlt
    have := hreg.positive
    omega
  case boundary =>
    intro m tick b hc
    have hdvd := haligned hc
    rw [hcalls] at hc
    obtain ⟨-, rfl, -, hle, -⟩ := hreg.of_callback hc
    exact ⟨rfl, hdvd, hle.trans (hreg.synced m).2.past⟩
  case once =>
    intro m
    rw [hcalls]
    exact hreg.length_callbacks m
  case marker =>
    intro m
    obtain ⟨hdur, hsync⟩ := hreg.synced m
    exact ⟨_, run_intervals ivs report clock hi (m + 1), hdur, hsync.past, hdur ▸ hsync.current⟩
  case reported =>
    rintro hreport m m' tick b tick' b' hlt hc hc' hno ⟨x, hx, hbx, hxb⟩
    have hdvd := haligned hc
    rw [hcalls] at hc hc'
    obtain ⟨-, -, -, -, hmoved⟩ := hreg.of_callback hc
    obtain ⟨-, -, hb', -, -⟩ := hreg.of_callback hc'
    rw [hreg.marker_quiet hlt fun k hk hk' => by rw [← hcalls]; exact hno k hk hk'] at hb'
    rcases hmoved with hstay | hslip
    · -- the marker is still at `b`: no boundary lies strictly inside the next interval
      have hle := Nat.le_of_dvd (by omega) (Nat.dvd_sub hx hdvd)
      omega
    · exact ⟨m, tick, b, Nat.le_refl m, hlt, by rw [hcalls]; exact hslip hreport⟩

/-- Two calls of one interval of a second, 1.5 s and 4 s after the start. -/
theorem boundaries_kept_second :
    Periodic (create [⟨.ofSeconds 1#32, .zero⟩] true)
      (fun r => if r = 0 then ⟨1#32, 500#16⟩ else .ofSeconds 4#32) 0 (.ofSeconds 1#32) := by
  have hsmall : ∀ r : Nat,
      (if r = 0 then (⟨1#32, 500#16⟩ : Precision) else .ofSeconds 4#32).ms < 2 ^ 32 := by
    intro r
    split <;> decide
  refine boundaries_kept [⟨.ofSeconds 1#32, .zero⟩] _ _ ?_ ?_ (by decide) (by decide) ?_ 0
    ⟨.ofSeconds 1#32, .zero⟩ rfl
  · intro r
    split <;> decide
  · intro r
    show (if r = 0 then (⟨1#32, 500#16⟩ : Precision) else .ofSeconds 4#32).ms ≤
      (ofSeconds 4#32).ms
    split <;> decide
  · intro m i iv hiv _
    refine ⟨hsmall _, ?_⟩
    have hdur := durations_run (create [⟨.ofSeconds 1#32, .zero⟩] true)
      (fun r => if r = 0 then ⟨1#32, 500#16⟩ else .ofSeconds 4#32) m
    have hmem := List.mem_map_of_mem (f := (·.duration)) (List.mem_of_getElem? hiv)
    rw [hdur] at hmem
    have hone : iv.duration = .ofSeconds 1#32 := List.mem_singleton.mp hmem
    rw [hone]
    decide

/-- **THE LOST BOUNDARY**: 49 days, 17 hours and some minutes after the start the flat
time has wrapped. A scheduler of one interval of a second that is first called then
executes the boundary of the first second, and its marker is left at zero. -/
theorem boundary_lost :
    ¬ Periodic (create [⟨.ofSeconds 1#32, .zero⟩] true) (fun _ => .ofSeconds 4294968#32) 0
      (.ofSeconds 1#32) := by
  intro h
  obtain ⟨iv, hiv, -, -, hcurrent⟩ := h.marker 0
  have hrun : (run (create [⟨.ofSeconds 1#32, .zero⟩] true)
      (fun _ => .ofSeconds 4294968#32) 1).intervals[0]? = some ⟨.ofSeconds 1#32, .zero⟩ := by
    decide
  obtain rfl : iv = ⟨.ofSeconds 1#32, .zero⟩ := Option.some.inj (hiv.symm.trans hrun)
  revert hcurrent
  decide

end PeriodicScheduler

end ColonyCore.System
