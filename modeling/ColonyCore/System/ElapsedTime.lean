/-
  ColonyCore.System.ElapsedTime
  **TIME IN SECONDS AND THOUSANDTHS, AND WHEN A DURATION HAS EXPIRED.**

  `Precision` is the pair of an `unsigned long` (32 bits on the target) and a
  `uint16_t`; the difference of two times borrows from the seconds.

    • `Precision.ms` — the pair as one number of milliseconds,
    • `lt_iff` — the comparison of the source is the comparison of those numbers,
    • `expiredPrecision_iff` — for a marker that is not in the future, the modular
      difference is the true one: the duration has expired iff it has passed.
-/
import Mathlib.Data.BitVec
import Mathlib.Tactic.SplitIfs

namespace ColonyCore.System

open BitVec

/-- `ElapsedTime::Precision_T`. -/
structure Precision where
  seconds : BitVec 32
  thousandths : BitVec 16
  deriving DecidableEq, Repr

namespace Precision

/-- `operator <`. -/
def lt (t other : Precision) : Bool :=
  decide (t.seconds < other.seconds) ||
    (t.seconds == other.seconds && decide (t.thousandths < other.thousandths))

instance : LT Precision := ⟨fun t other => t.lt other = true⟩

instance (t other : Precision) : Decidable (t < other) :=
  inferInstanceAs (Decidable (t.lt other = true))

/-- `Precision_T()`. -/
def zero : Precision := ⟨0#32, 0#16⟩

/-- Whole seconds, as the initialiser `{ n, 0 }` writes them. -/
def ofSeconds (n : BitVec 32) : Precision := ⟨n, 0#16⟩

/-- The time as a number of milliseconds. -/
def ms (t : Precision) : Nat := t.seconds.toNat * 1000 + t.thousandths.toNat

/-- The thousandths are a fraction of a second. -/
def Proper (t : Precision) : Prop := t.thousandths.toNat < 1000

instance (t : Precision) : Decidable t.Proper := inferInstanceAs (Decidable (_ < _))

theorem proper_ofSeconds (n : BitVec 32) : (ofSeconds n).Proper := by simp [Proper, ofSeconds]

@[simp] theorem ms_zero : zero.ms = 0 := by decide

theorem lt_iff {t other : Precision} (ht : t.Proper) (ho : other.Proper) :
    t < other ↔ t.ms < other.ms := by
  have hlt : t < other ↔ t.seconds.toNat < other.seconds.toNat ∨
      (t.seconds.toNat = other.seconds.toNat ∧
        t.thousandths.toNat < other.thousandths.toNat) := by
    show t.lt other = true ↔ _
    simp [lt, lt_def, ← toNat_inj]
  unfold Proper at ht ho
  unfold ms
  rw [hlt]
  omega

theorem eq_of_ms {t other : Precision} (ht : t.Proper) (ho : other.Proper) (h : t.ms = other.ms) :
    t = other := by
  unfold Proper at ht ho
  unfold ms at h
  have hs : t.seconds = other.seconds := eq_of_toNat_eq (by omega)
  have hth : t.thousandths = other.thousandths := eq_of_toNat_eq (by omega)
  cases t
  cases other
  exact congr (congrArg mk hs) hth

/-- `operator +=`: the carry of the thousandths goes to the seconds. -/
def add (t x : Precision) : Precision :=
  let thousandths := t.thousandths + x.thousandths
  ⟨t.seconds + (x.seconds + (thousandths / 1000#16).setWidth 32), thousandths % 1000#16⟩

theorem proper_add (t x : Precision) : (t.add x).Proper := by
  simp only [Proper, add, toNat_umod, toNat_ofNat, Nat.reducePow, Nat.reduceMod]
  omega

/-- The sum is exact up to rollovers of the seconds. -/
theorem ms_add_mod {t x : Precision} (ht : t.Proper) (hx : x.thousandths.toNat ≤ 1000) :
    (t.add x).ms = (t.ms + x.ms) % (2 ^ 32 * 1000) := by
  unfold Proper ms at *
  simp only [add, toNat_umod, toNat_udiv, toNat_add, toNat_setWidth,
    toNat_ofNat, Nat.reducePow, Nat.reduceMod]
  omega

/-- The sum is exact while it fits the seconds counter. -/
theorem ms_add {t x : Precision} (ht : t.Proper) (hx : x.thousandths.toNat ≤ 1000)
    (hfit : t.ms + x.ms < 2 ^ 32 * 1000) : (t.add x).ms = t.ms + x.ms := by
  rw [ms_add_mod ht hx, Nat.mod_eq_of_lt hfit]

theorem ms_lt {t : Precision} (ht : t.Proper) : t.ms < 2 ^ 32 * 1000 := by
  unfold Proper ms at *
  omega

end Precision

/-- `ElapsedTime::deltaPrecision`: a negative difference of the thousandths shows as
a value above `MAX_POSITVE_MSEC_`. -/
def deltaPrecision (startTime endTime : Precision) : Precision :=
  let seconds := endTime.seconds - startTime.seconds
  let thousandths := endTime.thousandths - startTime.thousandths
  if thousandths > 0x7FFF#16 then ⟨seconds - 1#32, thousandths + 1000#16⟩
  else ⟨seconds, thousandths⟩

/-- `ElapsedTime::expiredPrecision`. -/
def expiredPrecision (timeMarker duration currentTime : Precision) : Bool :=
  let delta := deltaPrecision timeMarker currentTime
  decide (delta.seconds > duration.seconds) ||
    (delta.seconds == duration.seconds && decide (delta.thousandths ≥ duration.thousandths))

/-- **The difference of two proper times** is proper, and exact up to rollovers of the seconds. -/
theorem deltaPrecision_mod {s e : Precision} (hs : s.Proper) (he : e.Proper) :
    (deltaPrecision s e).Proper
      ∧ ((deltaPrecision s e).ms : Int) = ((e.ms : Int) - s.ms) % (2 ^ 32 * 1000) := by
  unfold Precision.Proper Precision.ms at *
  unfold deltaPrecision
  simp only [lt_def]
  -- the borrow happens exactly when the thousandths of the end are the smaller ones
  by_cases hborrow : e.thousandths.toNat < s.thousandths.toNat
  · rw [if_pos (by simp only [toNat_sub, toNat_ofNat]; omega)]
    simp only [toNat_sub, toNat_add, toNat_ofNat]
    omega
  · rw [if_neg (by simp only [toNat_sub, toNat_ofNat]; omega)]
    simp only [toNat_sub]
    omega

/-- The difference of two proper times in order is proper, and exact. -/
theorem deltaPrecision_spec {s e : Precision} (hs : s.Proper) (he : e.Proper) (hle : s.ms ≤ e.ms) :
    (deltaPrecision s e).Proper ∧ (deltaPrecision s e).ms = e.ms - s.ms := by
  obtain ⟨hproper, hms⟩ := deltaPrecision_mod hs he
  have hlt := Precision.ms_lt he
  exact ⟨hproper, by omega⟩

/-- The comparison of the source is the comparison of milliseconds. -/
theorem expiredPrecision_iff_ms {marker duration now : Precision}
    (hd : duration.thousandths.toNat ≤ 1000) (hproper : (deltaPrecision marker now).Proper) :
    expiredPrecision marker duration now = true
      ↔ duration.ms ≤ (deltaPrecision marker now).ms := by
  have hexp : expiredPrecision marker duration now = true ↔
      duration.seconds.toNat < (deltaPrecision marker now).seconds.toNat ∨
        ((deltaPrecision marker now).seconds.toNat = duration.seconds.toNat ∧
          duration.thousandths.toNat ≤ (deltaPrecision marker now).thousandths.toNat) := by
    unfold expiredPrecision
    simp [lt_def, le_def, ← toNat_inj]
  rw [hexp]
  unfold Precision.Proper at hproper
  unfold Precision.ms
  omega

/-- A duration of up to a full second of thousandths is compared as it is meant. -/
theorem expiredPrecision_iff_of_le {marker duration now : Precision} (hm : marker.Proper)
    (hd : duration.thousandths.toNat ≤ 1000) (hn : now.Proper) (hle : marker.ms ≤ now.ms) :
    expiredPrecision marker duration now = true ↔ marker.ms + duration.ms ≤ now.ms := by
  obtain ⟨hproper, hms⟩ := deltaPrecision_spec hm hn hle
  rw [expiredPrecision_iff_ms hd hproper, hms]
  omega

/-- **A DURATION HAS EXPIRED IFF IT HAS PASSED**, for a marker that is not later than
the current time. -/
theorem expiredPrecision_iff {marker duration now : Precision} (hm : marker.Proper)
    (hd : duration.Proper) (hn : now.Proper) (hle : marker.ms ≤ now.ms) :
    expiredPrecision marker duration now = true ↔ marker.ms + duration.ms ≤ now.ms :=
  expiredPrecision_iff_of_le hm (Nat.le_of_lt hd) hn hle

/-- **PRECISION TIME ARITHMETIC**, for any proper times, also with a rollover of the seconds
between them: adding the difference leads from the start to the end, the difference is the
elapsed time modulo 2³² seconds, and a duration has expired iff the elapsed time is at least
the duration. -/
theorem precision_arithmetic (s e duration : Precision) (hs : s.Proper) (he : e.Proper)
    (hd : duration.Proper) :
    s.add (deltaPrecision s e) = e ∧ (deltaPrecision s e).Proper
      ∧ ((deltaPrecision s e).ms : Int) = ((e.ms : Int) - s.ms) % (2 ^ 32 * 1000)
      ∧ (expiredPrecision s duration e = true
        ↔ (duration.ms : Int) ≤ ((e.ms : Int) - s.ms) % (2 ^ 32 * 1000)) := by
  obtain ⟨hproper, hms⟩ := deltaPrecision_mod hs he
  refine ⟨?_, hproper, hms, ?_⟩
  · have hsum := Precision.ms_add_mod hs hproper.le
    have hlt := Precision.ms_lt (s.proper_add (deltaPrecision s e))
    have hle := Precision.ms_lt he
    exact Precision.eq_of_ms (s.proper_add _) he (by omega)
  · rw [expiredPrecision_iff_ms hd.le hproper, ← hms]
    exact Int.ofNat_le.symm

/-- One millisecond from 2³² - 1 s and 999 ms on, across the rollover; a duration of as much
has expired then. -/
theorem precision_arithmetic_rollover :
    Precision.add ⟨0xFFFFFFFF#32, 999#16⟩ ⟨0#32, 1#16⟩ = ⟨0#32, 0#16⟩
      ∧ (1 : Int) = (0 - 4294967295999) % (2 ^ 32 * 1000)
      ∧ expiredPrecision ⟨0xFFFFFFFF#32, 999#16⟩ ⟨0#32, 1#16⟩ ⟨0#32, 0#16⟩ = true := by
  obtain ⟨hadd, -, hms, hexpired⟩ := precision_arithmetic ⟨0xFFFFFFFF#32, 999#16⟩ ⟨0#32, 0#16⟩
    ⟨0#32, 1#16⟩ (by decide) (by decide) (by decide)
  exact ⟨hadd, hms, hexpired.mpr (by decide)⟩

/-- Nothing but a duration of no seconds expires at once. -/
theorem expiredPrecision_self (now : Precision) {n : BitVec 32} (hn : n ≠ 0#32) :
    expiredPrecision now (Precision.ofSeconds n) now = false := by
  have hdelta : deltaPrecision now now = Precision.zero := by
    simp [deltaPrecision, Precision.zero]
  simp [expiredPrecision, hdelta, Precision.ofSeconds, Precision.zero, Ne.symm hn]

end ColonyCore.System
