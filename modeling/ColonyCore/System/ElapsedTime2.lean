/-
  ColonyCore.System.ElapsedTime2
  **THE ELAPSED-TIME COUNTERS AND THE THREE FORMATS READ FROM THEM.**

  Each accessor first adds the advance of the raw millisecond clock to two counters:
  the total of milliseconds, which wraps at 2³², and a count of whole seconds kept by
  a loop over the remainder.  The thousandths and the value of `seconds` come from the
  FIRST, the seconds of the precision format from the SECOND, and 2³² is not a multiple
  of 1000.

    • `countSeconds_eq` — what the loop computes,
    • `Counts.tick` — the counters as functions of the advances, one reading at a time,
    • `run_eq_shown` — what every run reads,
    • `readings_synchronized` — EXACTLY when that is the true time, and that it then never
      runs backwards.
-/
import ColonyCore.System.ElapsedTime

namespace ColonyCore.System.ElapsedTime2

/-! ## §1. The code. -/

/-- The static variables of the file. -/
structure Clock where
  elapsedMsec : BitVec 32
  elapsedSec : BitVec 32
  lastMsec : BitVec 32
  sumDeltaMs : BitVec 32

/-- `RegisterInitHandler_::notify`, with the raw time it reads. -/
def Clock.notify (timeInMilliseconds : BitVec 32) : Clock :=
  ⟨0#32, 0#32, timeInMilliseconds, 0#32⟩

/-- The loop `while ( sumDeltaMs_ >= 1000L )`. -/
def countSeconds (elapsedSec sumDeltaMs : BitVec 32) : BitVec 32 × BitVec 32 :=
  if _h : 1000#32 ≤ sumDeltaMs then countSeconds (elapsedSec + 1#32) (sumDeltaMs - 1000#32)
  else (elapsedSec, sumDeltaMs)
  termination_by sumDeltaMs.toNat
  decreasing_by
    have := sumDeltaMs.isLt
    simp only [BitVec.le_def, BitVec.toNat_ofNat] at _h
    simp only [BitVec.toNat_sub, BitVec.toNat_ofNat]
    omega

/-- What every accessor does first, on a reading `newTime` of the raw clock. -/
def Clock.tick (c : Clock) (newTime : BitVec 32) : Clock :=
  let delta := newTime - c.lastMsec
  let (elapsedSec, sumDeltaMs) := countSeconds c.elapsedSec (c.sumDeltaMs + delta)
  ⟨c.elapsedMsec + delta, elapsedSec, newTime, sumDeltaMs⟩

/-- The three accessors. -/
inductive Accessor where
  | millisecondsInRealTime
  | secondsInRealTime
  | precisionInRealTime
  deriving DecidableEq

/-- What they return. -/
inductive Reading where
  | milliseconds (n : BitVec 32)
  | seconds (n : BitVec 32)
  | precision (t : Precision)
  deriving DecidableEq

/-- The value an accessor returns, from the counters it has just brought up to date. -/
def Clock.reading (c : Clock) : Accessor → Reading
  | .millisecondsInRealTime => .milliseconds c.elapsedMsec
  | .secondsInRealTime => .seconds (c.elapsedMsec / 1000#32)
  | .precisionInRealTime => .precision ⟨c.elapsedSec, (c.elapsedMsec % 1000#32).setWidth 16⟩

/-- A call, and how far the raw clock has advanced since the call before. -/
structure Call where
  accessor : Accessor
  advance : BitVec 32

/-- **A run**: the calls in order, on a raw clock that shows `raw` before the first. -/
def Clock.run (c : Clock) (raw : BitVec 32) : List Call → List Reading
  | [] => []
  | call :: calls =>
    let c' := c.tick (raw + call.advance)
    c'.reading call.accessor :: c'.run (raw + call.advance) calls

/-! ## §2. The true time. -/

/-- What the seconds counter and its remainder stand for after an advance: where the sum of
the remainder and the advance overflows, 2³² milliseconds are not counted. -/
def count (counted : Nat) (advance : BitVec 32) : Nat :=
  counted - counted % 1000 + (counted % 1000 + advance.toNat) % 2 ^ 32

/-- A call with the exact total of elapsed milliseconds and what was counted of it. -/
structure Moment where
  accessor : Accessor
  total : Nat
  counted : Nat

/-- The calls of a run. -/
def history (total counted : Nat) : List Call → List Moment
  | [] => []
  | call :: calls =>
    ⟨call.accessor, total + call.advance.toNat, count counted call.advance⟩
      :: history (total + call.advance.toNat) (count counted call.advance) calls

namespace Moment

variable (p : Moment)

/-- What the interface promises at a total of `total` milliseconds. -/
def trueReading : Reading :=
  match p.accessor with
  | .millisecondsInRealTime => .milliseconds (BitVec.ofNat 32 p.total)
  | .secondsInRealTime => .seconds (BitVec.ofNat 32 (p.total / 1000))
  | .precisionInRealTime =>
    .precision ⟨BitVec.ofNat 32 (p.total / 1000), BitVec.ofNat 16 (p.total % 1000)⟩

/-- What the code shows: the thousandths and the value of `seconds` are those of a
total that has wrapped. -/
def shown : Reading :=
  match p.accessor with
  | .millisecondsInRealTime => .milliseconds (BitVec.ofNat 32 p.total)
  | .secondsInRealTime => .seconds (BitVec.ofNat 32 (p.total % 2 ^ 32 / 1000))
  | .precisionInRealTime =>
    .precision ⟨BitVec.ofNat 32 (p.counted / 1000), BitVec.ofNat 16 (p.total % 2 ^ 32 % 1000)⟩

/-- The wrapped total and what was counted tell the same as the true total. -/
def Synced : Prop :=
  match p.accessor with
  | .millisecondsInRealTime => True
  | .secondsInRealTime => p.total % (1000 * 2 ^ 32) < 2 ^ 32
  | .precisionInRealTime =>
    125 ∣ p.total / 2 ^ 32 ∧ p.counted / 1000 % 2 ^ 32 = p.total / 1000 % 2 ^ 32

instance : Decidable p.Synced := by
  unfold Synced
  cases p.accessor <;> infer_instance

end Moment

/-- No advance makes the sum of the remainder and itself overflow. -/
def Fits (total : Nat) : List Call → Prop
  | [] => True
  | call :: calls =>
    total % 1000 + call.advance.toNat < 2 ^ 32 ∧ Fits (total + call.advance.toNat) calls

/-- Of two readings of the precision format, the later is not before the earlier,
unless the true count of seconds has rolled over between them. -/
def NotBackwards (earlier later : Moment × Reading) : Prop :=
  ∀ t t', earlier.2 = .precision t → later.2 = .precision t' →
    earlier.1.total / 1000 / 2 ^ 32 = later.1.total / 1000 / 2 ^ 32 → ¬ t' < t

/-! ## §3. The counters follow the advances. -/

/-- **The loop** divides: the quotient goes to the seconds, the remainder stays. -/
theorem countSeconds_eq (elapsedSec sumDeltaMs : BitVec 32) :
    countSeconds elapsedSec sumDeltaMs =
      (elapsedSec + BitVec.ofNat 32 (sumDeltaMs.toNat / 1000),
        BitVec.ofNat 32 (sumDeltaMs.toNat % 1000)) := by
  fun_induction countSeconds elapsedSec sumDeltaMs with
  | case1 sec sum h ih =>
    simp only [BitVec.le_def, BitVec.toNat_ofNat] at h
    have hsub : (sum - 1000#32).toNat = sum.toNat - 1000 := by
      simp only [BitVec.toNat_sub, BitVec.toNat_ofNat]
      omega
    rw [ih, hsub, show (sum.toNat - 1000) % 1000 = sum.toNat % 1000 by omega]
    congr 1
    apply BitVec.eq_of_toNat_eq
    simp only [BitVec.toNat_add, BitVec.toNat_ofNat]
    omega
  | case2 sec sum h =>
    simp only [BitVec.le_def, BitVec.toNat_ofNat] at h
    rw [show sum.toNat / 1000 = 0 by omega, show sum.toNat % 1000 = sum.toNat by omega]
    simp

/-- The counters after `total` milliseconds of which `counted` were counted, the raw clock
showing `raw`. -/
structure Counts (c : Clock) (raw : BitVec 32) (total counted : Nat) : Prop where
  msec : c.elapsedMsec = BitVec.ofNat 32 total
  sec : c.elapsedSec = BitVec.ofNat 32 (counted / 1000)
  last : c.lastMsec = raw
  sum : c.sumDeltaMs = BitVec.ofNat 32 (counted % 1000)

theorem counts_notify (raw : BitVec 32) : Counts (Clock.notify raw) raw 0 0 :=
  ⟨rfl, rfl, rfl, rfl⟩

variable {c : Clock} {raw : BitVec 32} {total counted : Nat}

/-- **One reading** keeps the counters in step with the total and what is counted of it. -/
theorem Counts.tick (h : Counts c raw total counted) (advance : BitVec 32) :
    Counts (c.tick (raw + advance)) (raw + advance) (total + advance.toNat)
      (count counted advance) := by
  have hdelta : raw + advance - c.lastMsec = advance := by
    rw [h.last, BitVec.add_comm, BitVec.add_sub_cancel]
  -- the remainder of the last reading and the new advance
  have hsum : (c.sumDeltaMs + advance).toNat = (counted % 1000 + advance.toNat) % 2 ^ 32 := by
    rw [h.sum]
    simp only [BitVec.toNat_add, BitVec.toNat_ofNat]
    omega
  constructor
  · simp only [Clock.tick, hdelta, h.msec]
    apply BitVec.eq_of_toNat_eq
    simp only [BitVec.toNat_add, BitVec.toNat_ofNat]
    omega
  · simp only [Clock.tick, hdelta, countSeconds_eq, hsum, h.sec, count]
    apply BitVec.eq_of_toNat_eq
    simp only [BitVec.toNat_add, BitVec.toNat_ofNat]
    omega
  · rfl
  · simp only [Clock.tick, hdelta, countSeconds_eq, hsum, count]
    congr 1
    omega

theorem Counts.reading (h : Counts c raw total counted)
    (a : Accessor) : c.reading a = Moment.shown ⟨a, total, counted⟩ := by
  cases a with
  | millisecondsInRealTime => simp only [Clock.reading, Moment.shown, h.msec]
  | secondsInRealTime =>
    simp only [Clock.reading, h.msec]
    congr 1
    apply BitVec.eq_of_toNat_eq
    simp only [BitVec.toNat_udiv, BitVec.toNat_ofNat, Nat.reducePow, Nat.reduceMod]
    omega
  | precisionInRealTime =>
    simp only [Clock.reading, h.msec, h.sec]
    congr 2

/-- **What every run reads.** -/
theorem run_eq_shown (h : Counts c raw total counted) (calls : List Call) :
    c.run raw calls = (history total counted calls).map Moment.shown := by
  induction calls generalizing c raw total counted with
  | nil => rfl
  | cons call calls ih =>
    have hc := h.tick call.advance
    simp only [Clock.run, history, List.map_cons]
    rw [hc.reading, ih hc]

/-- While nothing overflows, everything is counted. -/
theorem Fits.counted_eq {calls : List Call} (h : Fits total calls) {p : Moment}
    (hp : p ∈ history total total calls) : p.counted = p.total := by
  induction calls generalizing total with
  | nil => cases hp
  | cons call calls ih =>
    have hcount : count total call.advance = total + call.advance.toNat := by
      unfold count
      rw [Nat.mod_eq_of_lt h.1]
      omega
    rw [history, hcount] at hp
    rcases List.mem_cons.1 hp with rfl | hp
    · rfl
    · exact ih h.2 hp

/-! ## §4. When that is the true time. -/

/-- 2³² leaves 296 modulo 1000, so the thousandths come right again after every 125th
wrap; the value of `seconds` only while the true count of seconds starts again too. -/
theorem shown_eq_iff (p : Moment) : p.shown = p.trueReading ↔ p.Synced := by
  obtain ⟨a, total, counted⟩ := p
  cases a with
  | millisecondsInRealTime => exact iff_of_true rfl trivial
  | secondsInRealTime =>
    simp only [Moment.shown, Moment.trueReading, Moment.Synced, Reading.seconds.injEq,
      ← BitVec.toNat_inj, BitVec.toNat_ofNat]
    -- both sides depend on the total modulo 1000 · 2³² only
    omega
  | precisionInRealTime =>
    simp only [Moment.shown, Moment.trueReading, Moment.Synced, Reading.precision.injEq,
      Precision.mk.injEq, ← BitVec.toNat_inj, BitVec.toNat_ofNat]
    rw [and_comm]
    refine and_congr_left fun _ => ?_
    have hsplit := Nat.div_add_mod total (2 ^ 32)
    generalize total / 2 ^ 32 = wraps at *
    generalize total % 2 ^ 32 = rest at *
    subst hsplit
    have hwrap : (2 ^ 32 * wraps + rest) % 1000 = (296 * wraps + rest) % 1000 := by omega
    omega

/-- The true time does not run backwards. -/
theorem notBackwards_trueReading {p q : Moment} (hle : p.total ≤ q.total) :
    NotBackwards (p, p.trueReading) (q, q.trueReading) := by
  obtain ⟨a, total, counted⟩ := p
  obtain ⟨b, total', counted'⟩ := q
  rintro t t' ht ht' hera
  cases a <;> simp only [Moment.trueReading, reduceCtorEq, Reading.precision.injEq] at ht
  cases b <;> simp only [Moment.trueReading, reduceCtorEq, Reading.precision.injEq] at ht'
  subst ht ht'
  simp only at hle hera
  -- within one era of the seconds both pairs are the true totals, less the same multiple
  rw [Precision.lt_iff]
  · simp only [Precision.ms, BitVec.toNat_ofNat]
    omega
  · simp only [Precision.Proper, BitVec.toNat_ofNat]
    omega
  · simp only [Precision.Proper, BitVec.toNat_ofNat]
    omega

theorem le_of_mem_history {calls : List Call} {p : Moment}
    (hp : p ∈ history total counted calls) : total ≤ p.total := by
  induction calls generalizing total counted with
  | nil => cases hp
  | cons call calls ih =>
    rcases List.mem_cons.1 hp with rfl | hp
    · exact Nat.le_add_right _ _
    · exact Nat.le_trans (Nat.le_add_right _ _) (ih hp)

theorem history_pairwise (total counted : Nat) (calls : List Call) :
    (history total counted calls).Pairwise (fun p q => p.total ≤ q.total) := by
  induction calls generalizing total counted with
  | nil => exact List.Pairwise.nil
  | cons call calls ih =>
    exact List.Pairwise.cons (fun p hp => le_of_mem_history hp) (ih _ _)

/-- **THE FORMATS AGREE WITH THE TRUE TIME EXACTLY WHILE THE TOTAL HAS NOT WRAPPED**
(up to the eras in which the wrapped total tells the same).  For every start of the raw
clock and every sequence of calls, all readings are the true ones iff every call is made at
a moment that is `Synced`; then no precision reading is before an earlier one of the same
era of the seconds.  While no advance overflows the remainder, everything is counted. -/
theorem readings_synchronized (raw : BitVec 32) (calls : List Call) :
    ((Clock.notify raw).run raw calls = (history 0 0 calls).map Moment.trueReading ↔
        ∀ p ∈ history 0 0 calls, p.Synced) ∧
      ((∀ p ∈ history 0 0 calls, p.Synced) →
        ((history 0 0 calls).zip ((Clock.notify raw).run raw calls)).Pairwise NotBackwards) ∧
      (Fits 0 calls → ∀ p ∈ history 0 0 calls, p.counted = p.total) := by
  have hiff : (Clock.notify raw).run raw calls = (history 0 0 calls).map Moment.trueReading ↔
      ∀ p ∈ history 0 0 calls, p.Synced := by
    rw [run_eq_shown (counts_notify raw) calls, List.map_inj_left]
    exact forall₂_congr fun p _ => shown_eq_iff p
  refine ⟨hiff, fun hsync => ?_, fun hfits p => hfits.counted_eq⟩
  rw [hiff.2 hsync, ← List.map_prod_left_eq_zip, List.pairwise_map]
  exact (history_pairwise 0 0 calls).imp fun hle => notBackwards_trueReading hle

/-- One second and a half after the start the formats are right. -/
theorem readings_synchronized_early :
    (Clock.notify 7#32).run 7#32
        [⟨.precisionInRealTime, 1500#32⟩, ⟨.secondsInRealTime, 0#32⟩] =
      [.precision ⟨1#32, 500#16⟩, .seconds 1#32] := by
  have h := (readings_synchronized 7#32
    [⟨.precisionInRealTime, 1500#32⟩, ⟨.secondsInRealTime, 0#32⟩]).1.2 (by decide)
  rw [h]
  rfl

/-- **Time runs backwards at the first wrap**: one millisecond after 4294967.295 s the
precision format shows 4294967.000 s and `seconds` shows 0. -/
theorem precision_backwards :
    (Clock.notify 0#32).run 0#32
        [⟨.precisionInRealTime, 4294967295#32⟩, ⟨.precisionInRealTime, 1#32⟩,
          ⟨.secondsInRealTime, 0#32⟩] =
      [.precision ⟨4294967#32, 295#16⟩, .precision ⟨4294967#32, 0#16⟩, .seconds 0#32] ∧
    (⟨4294967#32, 0#16⟩ : Precision) < ⟨4294967#32, 295#16⟩ ∧
    Moment.trueReading ⟨.secondsInRealTime, 4294967296, 4294967296⟩ = .seconds 4294967#32 := by
  refine ⟨?_, by decide, by decide⟩
  rw [run_eq_shown (counts_notify 0#32) _]
  rfl

end ColonyCore.System.ElapsedTime2
