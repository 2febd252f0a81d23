/-
  ColonyCore.Storm.DutyCycle
  **HOW LONG AN ON-CYCLE AND AN OFF-CYCLE LAST.**

  The load is normalised to the bounds of its stage; the cycles are `k / load` and
  `k / (1 - load)` seconds, raised to the configured minimum.  The code computes them in
  `float`: every result is rounded, and with a load of 30 of 100 an off-cycle at 3 cycles
  per hour lasts 999 s and not 1000 s.  The model is over every rounding (`Rounding`).
  Whatever the rounding and the load, no cycle is shorter than `k` or than the configured
  minimum, cut to what the cycles per hour allow (`le_cycleTime`).
-/
import ColonyCore.Storm.Types
import Mathlib.Tactic.Linarith
import Mathlib.Tactic.FieldSimp
import Mathlib.Algebra.Order.Floor.Defs
import Mathlib.Data.Rat.Floor

namespace ColonyCore.Storm

/-! ## §1. The code. -/

/-- `FLT_EPSILON`. -/
def FLT_EPSILON : ℚ := 1 / 2 ^ 23

/-- `Cpl::Math::areFloatsEqual`. -/
def areFloatsEqual (a b : ℚ) : Bool :=
  if a = b then true
  else
    let diff := |a - b|
    if (a = 0 ∨ b = 0) ∧ diff < FLT_EPSILON then decide (diff < FLT_EPSILON * FLT_EPSILON)
    else decide (diff / (|a| + |b|) < FLT_EPSILON)

namespace DutyCycle

/-- The table `k_`, in seconds. -/
def k : Cph → Nat
  | .e2CPH => 450
  | .e3CPH => 300
  | .e4CPH => 225
  | .e5CPH => 180
  | .e6CPH => 150

/-- The table `maxMinimumTimeLimits_`: `getMaximumMinOnTime` and `getMaximumMinOffTime`. -/
def maxMinimumTimeLimit : Cph → BitVec 32
  | .e2CPH => 900#32
  | .e3CPH => 600#32
  | .e4CPH => 450#32
  | .e5CPH => 360#32
  | .e6CPH => 300#32

/-- **A rounding of the numbers**, as the results of `float` operations are rounded: it keeps
their order, and whole numbers up to 2²⁴ are exact. -/
structure Rounding where
  round : ℚ → ℚ
  mono : Monotone round
  whole : ∀ n : ℕ, n ≤ 2 ^ 24 → round n = n

variable (F : Rounding)

/-- `normalizePv`. -/
def normalizePv (pvVar pvLowerBound pvUpperBound : ℚ) : ℚ :=
  let range := F.round (pvUpperBound - pvLowerBound)
  if pvVar < pvLowerBound then 0
  else
    let pvVar := F.round (F.round (pvVar - pvLowerBound) / range)
    if pvVar > 1 then 1 else pvVar

/-- The cast of a `float` to `uint32_t`; a value that does not fit (undefined in C++)
saturates, as the conversion of the target does. -/
def toUint32 (x : ℚ) : BitVec 32 := BitVec.ofNat 32 (min ⌊x⌋₊ (2 ^ 32 - 1))

/-- What both calculations do with their divisor: the quotient, or the longest time at no
divisor; then the minimum, cut to its limit, is enforced. -/
def cycleTime (divisor : ℚ) (minTime : BitVec 32) (cph : Cph) : BitVec 32 :=
  let cycleTime :=
    if areFloatsEqual divisor 0 = false then toUint32 (F.round (k cph / divisor)) else 0xFFFFFFFF#32
  let timeLimit := maxMinimumTimeLimit cph
  let minTime := if minTime > timeLimit then timeLimit else minTime
  if cycleTime < minTime then minTime else cycleTime

variable (pvVar : ℚ) (c : StageConfig)

/-- `calculateOffTime`. -/
def calculateOffTime : BitVec 32 :=
  cycleTime F (normalizePv F pvVar c.lowerBound c.upperBound) c.minOffTime c.cph

/-- `calculateOnTime`. -/
def calculateOnTime : BitVec 32 :=
  cycleTime F (F.round (1 - normalizePv F pvVar c.lowerBound c.upperBound)) c.minOnTime c.cph

/-! ## §2. No cycle is too short. -/

variable {F}

/-- Rounding does not take a number below a whole one. -/
theorem Rounding.le_round {n : ℕ} (hn : n ≤ 2 ^ 24) {x : ℚ} (h : n ≤ x) : n ≤ F.round x :=
  F.whole n hn ▸ F.mono h

/-- Nor above. -/
theorem Rounding.round_le {n : ℕ} (hn : n ≤ 2 ^ 24) {x : ℚ} (h : x ≤ n) : F.round x ≤ n :=
  F.whole n hn ▸ F.mono h

/-- Rounding keeps a fraction between 0 and 1. -/
theorem Rounding.round_mem {x : ℚ} (h0 : 0 ≤ x) (h1 : x ≤ 1) : 0 ≤ F.round x ∧ F.round x ≤ 1 := by
  have hlow : ((0 : ℕ) : ℚ) ≤ F.round x := F.le_round (by decide) (by simpa using h0)
  have hhigh : F.round x ≤ ((1 : ℕ) : ℚ) := F.round_le (by decide) (by simpa using h1)
  exact ⟨by simpa using hlow, by simpa using hhigh⟩

theorem k_pos (cph : Cph) : 0 < k cph := by cases cph <;> decide

theorem k_le (cph : Cph) : k cph ≤ 450 := by cases cph <;> decide

theorem normalizePv_mem (lower upper : ℚ) (h : lower ≤ upper) :
    0 ≤ normalizePv F pvVar lower upper ∧ normalizePv F pvVar lower upper ≤ 1 := by
  have hnonneg : ∀ x : ℚ, 0 ≤ x → 0 ≤ F.round x := fun x hx => by
    simpa using F.le_round (n := 0) (by decide) (by simpa using hx)
  simp only [normalizePv]
  split_ifs with hlow hhigh
  · exact ⟨le_refl _, zero_le_one⟩
  · exact ⟨zero_le_one, le_refl _⟩
  · exact ⟨hnonneg _ (div_nonneg (hnonneg _ (sub_nonneg.2 (not_lt.1 hlow)))
      (hnonneg _ (sub_nonneg.2 h))), not_lt.1 hhigh⟩

/-- **A cycle** lasts at least `k`, and at least the configured minimum: dividing a whole
number of seconds by a fraction does not make it smaller, and neither does rounding. -/
theorem le_cycleTime {x : ℚ} (h0 : 0 ≤ x) (h1 : x ≤ 1) (minTime : BitVec 32) (cph : Cph) :
    max (k cph) (min minTime.toNat (maxMinimumTimeLimit cph).toNat) ≤
      (cycleTime F x minTime cph).toNat := by
  have hk := k_le cph
  have hquotient : k cph ≤ (if areFloatsEqual x 0 = false then
      toUint32 (F.round (k cph / x)) else 0xFFFFFFFF#32).toNat := by
    split_ifs with hzero
    · have hpos : 0 < x := lt_of_le_of_ne h0 (by rintro rfl; cases hzero)
      have hle : (k cph : ℚ) ≤ k cph / x := by
        rw [le_div_iff₀ hpos]
        nlinarith
      have hfloor : k cph ≤ ⌊F.round (k cph / x)⌋₊ := Nat.le_floor (F.le_round (by omega) hle)
      unfold toUint32
      rw [BitVec.toNat_ofNat]
      omega
    · show k cph ≤ 4294967295
      omega
  unfold cycleTime
  simp only [BitVec.lt_def, gt_iff_lt]
  split_ifs at hquotient ⊢ <;> omega

theorem ne_zero_of_k_le {time : BitVec 32} {cph : Cph} {n : Nat} (h : max (k cph) n ≤ time.toNat) :
    time ≠ 0#32 := by
  rintro rfl
  have hpos := k_pos cph
  rw [BitVec.toNat_ofNat] at h
  omega

end DutyCycle

/-- **The times a stage asks for**: any two functions of the load, as long as every cycle
lasts. -/
class CycleTimes where
  calculateOnTime : ℚ → StageConfig → BitVec 32
  calculateOffTime : ℚ → StageConfig → BitVec 32
  onTime_ne_zero : ∀ pv c, calculateOnTime pv c ≠ 0#32
  offTime_ne_zero : ∀ pv c, calculateOffTime pv c ≠ 0#32

/-- **Those of `DutyCycle` last**, however `float` results are rounded. -/
@[reducible] def DutyCycle.cycleTimes (F : Rounding) : CycleTimes where
  calculateOnTime := calculateOnTime F
  calculateOffTime := calculateOffTime F
  onTime_ne_zero pv c := by
    obtain ⟨h0, h1⟩ := normalizePv_mem (F := F) pv c.lowerBound c.upperBound c.bounds.le
    obtain ⟨h0', h1'⟩ := F.round_mem (sub_nonneg.2 h1) (sub_le_self 1 h0)
    exact ne_zero_of_k_le (le_cycleTime h0' h1' c.minOnTime c.cph)
  offTime_ne_zero pv c := by
    obtain ⟨h0, h1⟩ := normalizePv_mem (F := F) pv c.lowerBound c.upperBound c.bounds.le
    exact ne_zero_of_k_le (le_cycleTime h0 h1 c.minOffTime c.cph)

end ColonyCore.Storm
