/-
  ColonyCore.Storm.ComfortLimits
  **`MpComfortConfig`: WHICH SETTINGS GET PAST THE LIMITS.**

  The methods for one stage validate what they store.  `write` validates a copy and stores
  its argument, and `fromJSON_` stores through `write`.

    • `validate_validate` — what `validate` leaves satisfies the limits,
    • `limits_hold_iff`   — the point satisfies them along a run, exactly when every whole
      configuration that reaches it does.
-/
import ColonyCore.Storm.ModelPoints

namespace ColonyCore.Storm.MpComfortConfig

open Interleaving
open Dm (LockRequest SeqNum)

/-! ## §1. The settings. -/

/-- `ComfortStageParameters_T` as a caller may fill it in: `cph` is an `int`. -/
structure StageParameters where
  minOnTime : BitVec 32
  minOffTime : BitVec 32
  cph : Int
  deriving DecidableEq, Repr

/-- `Cph::eNUM_OPTIONS`. -/
def NUM_OPTIONS : Int := 5

/-- `getMaximumMinOnTime` and `getMaximumMinOffTime`, for a `cph` in range. -/
def limit (cph : Int) : BitVec 32 :=
  DutyCycle.maxMinimumTimeLimit <| match cph with
    | 0 => .e2CPH
    | 1 => .e3CPH
    | 2 => .e4CPH
    | 3 => .e5CPH
    | _ => .e6CPH

/-- A `cph` out of range becomes `e3CPH`. -/
def validCph (cph : Int) : Int := if cph ≥ NUM_OPTIONS ∨ cph < 0 then 1 else cph

/-- A time above the limit becomes the limit. -/
def cut (time limit : BitVec 32) : BitVec 32 := if time > limit then limit else time

/-- `ComfortStageParameters_T::validate`. -/
def StageParameters.validate (src : StageParameters) : StageParameters where
  cph := validCph src.cph
  minOffTime := cut src.minOffTime (limit (validCph src.cph))
  minOnTime := cut src.minOnTime (limit (validCph src.cph))

theorem validCph_validCph (cph : Int) : validCph (validCph cph) = validCph cph := by
  unfold validCph
  split <;> simp_all

theorem cut_cut (t l : BitVec 32) : cut (cut t l) l = cut t l := by
  unfold cut
  split <;> simp_all

/-- **`validate` leaves nothing to validate.** -/
theorem validate_validate (src : StageParameters) : src.validate.validate = src.validate := by
  simp [StageParameters.validate, validCph_validCph, cut_cut]

/-- The members of `ComfortConfig_T`. -/
inductive Stage where
  | compressorCooling
  | compressorHeating
  | indoorHeating
  deriving DecidableEq, Repr

instance : Fintype Stage :=
  ⟨{.compressorCooling, .compressorHeating, .indoorHeating}, fun stage => by cases stage <;> decide⟩

/-- `ComfortConfig_T`. -/
abbrev Config := Stage → StageParameters

/-- **The limits**: `validate` changes nothing. -/
def Within (c : Config) : Prop := ∀ stage, (c stage).validate = c stage

/-- `setDefaults`, for every stage. -/
def default : Config := fun _ => ⟨300#32, 300#32, 1⟩

/-! ## §2. The methods. -/

/-- The member of the document for one stage: `cph` is there when it is a text, the times when
they are numbers that fit. -/
structure Entry where
  cph : Option String
  minOn : Option (BitVec 32)
  minOff : Option (BitVec 32)

/-- `Cph::_from_string_nothrow`, which knows the number of the options as well. -/
def fromString (text : String) : Option Int :=
  [("e2CPH", 0), ("e3CPH", 1), ("e4CPH", 2), ("e5CPH", 3), ("e6CPH", 4),
    ("eNUM_OPTIONS", NUM_OPTIONS)].lookup text

/-- `parseEntry`. -/
def parseEntry (obj : Entry) (parms : StageParameters) (field : String) :
    Except String StageParameters := do
  let cph ← match obj.cph with
    | none => pure parms.cph
    | some enumVal => match fromString enumVal with
      | none => throw s!"Invalid {field} CPH enum value ({enumVal})"
      | some value => pure value
  return ⟨obj.minOn.getD parms.minOnTime, obj.minOff.getD parms.minOffTime, cph⟩

/-- `MpComfortConfig::fromJSON_`, up to its `write`: the document merged into the data. -/
def fromJSON (d : Config) (src : Stage → Entry) : Except String Config := do
  let cooling ← parseEntry (src .compressorCooling) (d .compressorCooling) "CmpCooling"
  let heating ← parseEntry (src .compressorHeating) (d .compressorHeating) "CmpHeating"
  let indoor ← parseEntry (src .indoorHeating) (d .indoorHeating) "IduHeating"
  return fun
    | .compressorCooling => cooling
    | .compressorHeating => heating
    | .indoorHeating => indoor

variable (p : ConfigPoint Config)

/-- `MpComfortConfig::write`: the validated copy `newVale` is not what is written. -/
def write (new : Config) (lockRequest : LockRequest) : ConfigPoint Config :=
  p.writeData new true lockRequest

/-- `writeCompressorCooling`, `writeCompressorHeating` and `writeIndoorHeating`. -/
def writeStage (stage : Stage) (p : ConfigPoint Config) (newParameters : StageParameters)
    (lockRequest : LockRequest) : ConfigPoint Config :=
  write p (Function.update p.data stage newParameters.validate) lockRequest

/-- The calls that change the point. -/
inductive Call where
  | write (new : Config) (lockRequest : LockRequest)
  | writeStage (stage : Stage) (new : StageParameters) (lockRequest : LockRequest)
  | fromJSON (src : Stage → Entry) (lockRequest : LockRequest)
  | setInvalid (lockRequest : LockRequest)

/-- One call. -/
def step : Call → Option (ConfigPoint Config)
  | .write new lock => some (write p new lock)
  | .writeStage stage new lock => some (writeStage stage p new lock)
  | .fromJSON src lock => match fromJSON p.data src with
    | .error _ => some p
    | .ok new => some (write p new lock)
  | .setInvalid lock => some (p.setInvalid default lock)

/-- The point as constructed. -/
def init (sequenceNumber : SeqNum) : ConfigPoint Config := ⟨⟨true, default, sequenceNumber⟩, false, 0⟩

/-! ## §3. The limits along a run. -/

/-- The lock lets the request through. -/
def Taken (lockRequest : LockRequest) : Prop :=
  (Dm.PointData.testAndUpdateLock p.locked lockRequest).2 = true

/-- A value within the limits is what the point holds after the call. -/
def Unchanged (p p' : ConfigPoint Config) : Call → Prop
  | .write new lock => Within new → Taken p lock → p'.data = new
  | .writeStage stage new lock => new.validate = new → Taken p lock →
    p'.data = Function.update p.data stage new
  | .fromJSON src lock => ∀ new, fromJSON p.data src = .ok new → Within new →
    Taken p lock → p'.data = new
  | .setInvalid _ => True

/-- **After a call** the stored configuration is within its limits, and what was within them
before it was written is stored unchanged. -/
def Limited (call : Call) : Prop :=
  ∀ p', step p call = some p' → Within p'.data ∧ Unchanged p p' call

/-- **A whole configuration satisfies the limits** before it reaches the point. -/
def Respects : Call → Prop
  | .write new lock => Taken p lock → Within new
  | .fromJSON src lock => ∀ new, fromJSON p.data src = .ok new → Taken p lock → Within new
  | _ => True

variable {p : ConfigPoint Config} {new : Config} {lock : LockRequest}

theorem data_write (h : Taken p lock) : (write p new lock).data = new := by
  by_cases hchange : p.valid = false ∨ p.data ≠ new ∨ true = false
  · have hwrite : write p new lock = p.change true new _ := if_pos ⟨h, hchange⟩
    rw [hwrite]
    rfl
  · have hsame : write p new lock = { p with locked := _ } := if_neg fun hw => hchange hw.2
    rw [hsame]
    exact Decidable.not_not.mp fun hne => hchange (.inr (.inl hne))

theorem data_write_locked (h : ¬ Taken p lock) : (write p new lock).data = p.data := by
  unfold write ConfigPoint.writeData
  rw [if_neg fun hw => h hw.1]

/-- A write leaves the point within the limits, when what it writes is. -/
theorem within_write_iff (hp : Within p.data) :
    Within (write p new lock).data ↔ (Taken p lock → Within new) := by
  by_cases h : Taken p lock
  · rw [data_write h]
    exact ⟨fun hw _ => hw, fun hw => hw h⟩
  · rw [data_write_locked h]
    exact ⟨fun _ ht => absurd ht h, fun _ => hp⟩

theorem within_default : Within default := fun _ => rfl

theorem limited_iff (hp : Within p.data) (call : Call) : Limited p call ↔ Respects p call := by
  cases call with
  | write new lock =>
    simp only [Limited, step, Option.some.injEq, forall_eq', within_write_iff hp]
    exact ⟨And.left, fun h => ⟨h, fun _ ht => data_write ht⟩⟩
  | writeStage stage new lock =>
    simp only [Limited, step, Option.some.injEq, forall_eq', Respects, iff_true]
    refine ⟨(within_write_iff hp).mpr fun _ s => ?_, fun hv ht => (data_write ht).trans (by rw [hv])⟩
    by_cases hs : s = stage
    · rw [hs, Function.update_self, validate_validate]
    · rw [Function.update_of_ne hs, hp s]
  | fromJSON src lock =>
    simp only [Limited, step, Unchanged, Respects]
    cases hnew : fromJSON p.data src with
    | error msg => simp [hp]
    | ok new =>
      simp only [Option.some.injEq, forall_eq', within_write_iff hp, Except.ok.injEq]
      exact ⟨And.left, fun h => ⟨h, fun _ ht => data_write ht⟩⟩
  | setInvalid lock =>
    simp only [Limited, step, Option.some.injEq, forall_eq', Unchanged, and_true, Respects, iff_true,
      ConfigPoint.setInvalid]
    split
    · exact within_default
    · exact hp

/-- **THE LIMITS HOLD** after every call of a run, and values within them are stored as they are,
exactly when every configuration given to `write`, or merged by `fromJSON_`, satisfies them. -/
theorem limits_hold_iff (sequenceNumber : SeqNum) (calls : List Call) :
    Along step Limited (init sequenceNumber) calls
      ↔ Along step Respects (init sequenceNumber) calls :=
  along_congr (fun p => Within p.data) (fun _ call _ hp => limited_iff hp call)
    (fun _ _ p' _ hl hstep => (hl p' hstep).1) within_default

/-- **Past the limits**: 9999 s of minimum on time, and as many cycles as there are options. -/
theorem limits_missed :
    (∃ p, run step (init 1#16) [.write (fun _ => ⟨9999#32, 0#32, 0⟩) .eNO_REQUEST] = some p
      ∧ (p.data .indoorHeating).minOnTime = 9999#32 ∧ ¬ Within p.data)
    ∧ ∃ p, run step (init 1#16) [.fromJSON (fun _ => ⟨some "eNUM_OPTIONS", none, none⟩) .eNO_REQUEST]
        = some p ∧ (p.data .indoorHeating).cph = NUM_OPTIONS ∧ ¬ Within p.data := by
  refine ⟨⟨_, rfl, ?_, fun h => ?_⟩, ⟨_, rfl, ?_, fun h => ?_⟩⟩
  · rw [data_write (by exact rfl)]
  · exact absurd (h .indoorHeating) (by decide)
  · rw [data_write (by exact rfl)]
  · exact absurd (h .indoorHeating) (by decide)

end ColonyCore.Storm.MpComfortConfig
