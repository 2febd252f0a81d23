/-
  ColonyCore.Storm.Equipment
  **THE EQUIPMENT: WHICH STAGE IS ASKED FOR, AT WHICH LOAD.**

  `Cooling` has one stage and `IndoorHeating` three.  Either way a call asks the stages for
  at most one change and then runs each of them; whatever the load, the times and the
  arguments, that is a step on the ladder:

    • `Standing.executeOff` — the mode is another one, and all stages are off,
    • `Cooling.executeActive_climb`, `IndoorHeating.executeActive_climb`.
-/
import ColonyCore.Storm.Ladder

namespace ColonyCore.Storm

open Function

variable [CycleTimes]

open ColonyCore.System

/-! ## §1. What the two have in common. -/

namespace Equipment

variable {n : Nat}

/-- The thresholds and the off time of a single stage. -/
structure SingleStage where
  turnOnThreshold : ℚ
  turnOffThreshold : ℚ
  beginOffTime : EquipmentTimes → Precision
  minOffTime : BitVec 32

/-- The equipment has been off for long enough. -/
def SingleStage.minOffTimeMet (e : SingleStage) (a : Args) : Bool :=
  expiredPrecision (e.beginOffTime a.equipmentBeginTimes) (.ofSeconds e.minOffTime)
      a.currentInterval
    || a.whiteBox.defeatEquipMinOffTime

/-- The present cycle of stage `i` may end. -/
def minOnTimeMet (b : Bank n) (i : Fin n) (stage : Fin 4) : Bool :=
  (b.stages i).isOffCycle
    || expiredPrecision b.memory.args.cycleInfo.beginOnTime
      (.ofSeconds (b.memory.args.systemConfig.stages stage).minOnTime)
      b.memory.args.currentInterval

/-- A branch of the logic that is tripped; it may still have to wait. -/
def tripped (met : Bool) (request : Bank n → Option (Bank n)) (b : Bank n) :
    Option (Bank n × Bool) := do
  let b ← if met then request b else some b
  some (b, true)

/-- `singleStage`. -/
def singleStage (e : SingleStage) (first : Fin n) (b : Bank n) : Option (Bank n × Bool) :=
  let a := b.memory.args
  if a.systemOn = false ∧ a.pvOut > e.turnOnThreshold then
    tripped (e.minOffTimeMet a) (·.requestOn first) b
  else if (b.stages first).isActive ∧ a.pvOut ≤ e.turnOffThreshold then
    tripped (minOnTimeMet b first 0) (·.requestOff first) b
  else some (b, false)

/-- `execute` for the stages of a list. -/
def runStages (is : List (Fin n)) (b : Bank n) : Option (Bank n) :=
  is.foldlM (fun b i => b.execute i) b

/-- `requestModeToOff` for the stages in order. -/
def modeToOff (b : Bank n) : Option (Bank n) :=
  (List.finRange n).foldlM (fun b i => b.requestModeToOff i) b

/-- `reconfigure` of a stage. -/
def reconfigure (systemIndex : Fin 4) (outIndex : Fin 3) (s : Stage n) : Stage n :=
  { s with
    systemIndex := systemIndex
    output := match s.output with
      | .outdoor => .outdoor
      | .indoor _ controlFan => .indoor outIndex controlFan }

end Equipment

/-- The interface of `Control` to an equipment of `n` stages. -/
structure Equipment (n : Nat) where
  operatingMode : OperatingMode
  executeActive : Bank n → Option (Bank n × Bool)
  executeOff : Bank n → Option (Bank n)
  reset : Bank n → Option (Bank n)

open Equipment

/-! ## §2. Cooling. -/

namespace Cooling

def config : SingleStage where
  turnOnThreshold := 5
  turnOffThreshold := 0
  beginOffTime := (·.outdoorUnitBeginOffTime)
  minOffTime := MIN_COMPRESSOR_OFF_TIME_SEC

def executeActive (b : Bank 1) : Option (Bank 1 × Bool) :=
  match b.memory.args.systemConfig.numCompressorStages with
  | 1 => do
    let (b, _) ← singleStage config 0 b
    let b ← runStages [0] b
    some (b, true)
  | _ => some (b, false)

def reset (b : Bank 1) : Option (Bank 1) :=
  modeToOff { b with stages := fun i => reconfigure 0 0 (b.stages i) }

/-- **`Cooling`.** -/
def equipment : Equipment 1 := ⟨.eCOOLING, executeActive, modeToOff, reset⟩

end Cooling

/-! ## §3. Indoor heating. -/

namespace IndoorHeating

def config : SingleStage where
  turnOnThreshold := 5
  turnOffThreshold := 0
  beginOffTime := (·.indoorUnitBeginOffTime)
  minOffTime := MIN_INDOOR_HEATER_OFF_TIME_SEC

def TURN_ON_2ND_STAGE_THRESHOLD : ℚ := 115

def TURN_OFF_2ND_STAGE_THRESHOLD : ℚ := 100

def TURN_ON_3RD_STAGE_THRESHOLD : ℚ := 215

def TURN_OFF_3RD_STAGE_THRESHOLD : ℚ := 200

variable (b : Bank 3)

/-- Stage `i` is on, or it has been off for long enough. -/
def mayLeaveCycle (i : Fin 3) : Bool :=
  (b.stages i).isOnCycle || ((b.stages i).isOffCycle && config.minOffTimeMet b.memory.args)

/-- The first stage on, and at once the second one with it. -/
def requestOnWithSecond : Option (Bank 3) := do
  let b ← b.requestOn 0
  b.requestAsSupplement 0 1

def secondStage : Option (Bank 3 × Bool) :=
  let a := b.memory.args
  if a.systemOn = false ∧ a.pvOut > TURN_ON_2ND_STAGE_THRESHOLD then
    tripped (config.minOffTimeMet a) requestOnWithSecond b
  else if (b.stages 0).isActive ∧ a.pvOut > TURN_ON_2ND_STAGE_THRESHOLD then
    tripped (mayLeaveCycle b 0) (·.requestAsSupplement 0 1) b
  else if (b.stages 1).isActive ∧ a.pvOut ≤ TURN_OFF_2ND_STAGE_THRESHOLD then
    tripped (minOnTimeMet b 1 1) (·.requestOff 1) b
  else some (b, false)

def thirdStage : Option (Bank 3 × Bool) :=
  let a := b.memory.args
  if a.systemOn = false ∧ a.pvOut > TURN_ON_3RD_STAGE_THRESHOLD then
    tripped (config.minOffTimeMet a) requestOnWithSecond b
  else if (b.stages 0).isActive ∧ a.pvOut > TURN_ON_3RD_STAGE_THRESHOLD then
    tripped (mayLeaveCycle b 0) (·.requestAsSupplement 0 1) b
  else if (b.stages 1).isActive ∧ a.pvOut > TURN_ON_3RD_STAGE_THRESHOLD then
    tripped (mayLeaveCycle b 1) (·.requestAsSupplement 1 2) b
  else if (b.stages 2).isActive ∧ a.pvOut ≤ TURN_OFF_3RD_STAGE_THRESHOLD then
    tripped (minOnTimeMet b 2 2) (·.requestOff 2) b
  else some (b, false)

/-- The next logic, unless one was tripped. -/
def orElse (logic : Bank 3 → Option (Bank 3 × Bool)) (r : Bank 3 × Bool) :
    Option (Bank 3 × Bool) :=
  if r.2 then some r else logic r.1

def executeActive : Option (Bank 3 × Bool) :=
  match b.memory.args.systemConfig.numIndoorStages with
  | 1 => do
    let (b, _) ← singleStage config 0 b
    let b ← runStages [0] b
    some (b, true)
  | 2 => do
    let (b, _) ← (secondStage b).bind (orElse (singleStage config 0))
    let b ← runStages [0, 1] b
    some (b, true)
  | 3 => do
    let (b, _) ← ((thirdStage b).bind (orElse secondStage)).bind (orElse (singleStage config 0))
    let b ← runStages [0, 1, 2] b
    some (b, true)
  | _ => some (b, false)

def reset : Option (Bank 3) :=
  modeToOff { b with stages := fun i => reconfigure i.castSucc i (b.stages i) }

/-- **`IndoorHeating`.** -/
def equipment : Equipment 3 := ⟨.eID_HEATING, executeActive, modeToOff, reset⟩

end IndoorHeating

/-! ## §4. All stages off. -/

namespace Bank

variable {n : Nat} {port : Fin n → Port} {b b' : Bank n} {i : Fin n} {rests : Fin n → Rest}

/-- Some stage is active. -/
def anyActive (b : Bank n) : Bool := (List.finRange n).any fun i => (b.stages i).isActive

omit [CycleTimes] in
theorem Rung.not_active {r : Rest} {bound : Nat} {s : Stage n} (h : Rung port bound i r s)
    (hr : ∀ c, r ≠ .cycling c) : s.isActive = false := by
  unfold Stage.isActive
  cases r with
  | off => rw [show s.vars.stateVar = .Off from h.rests]; rfl
  | cycling c => exact absurd rfl (hr c)
  | supplementing => rw [show s.vars.stateVar = .SupplementingNextStage from h.rests]; rfl

/-- The stages of a list are asked in turn. -/
theorem Standing.foldlM_modeToOff {is : List (Fin n)} (hnodup : is.Nodup)
    (h : Standing port b.memory.call rests b) :
    ∃ b' d, is.foldlM (fun b i => b.requestModeToOff i) b = some b'
      ∧ Standing port b.memory.call (fun i => if i ∈ is then .off else rests i) b'
      ∧ b'.memory = { b.memory with
          dead := d, usedDead := b.memory.usedDead || is.any fun i => (b.stages i).isActive } := by
  induction is generalizing b rests with
  | nil => exact ⟨b, b.memory.dead, rfl, by simpa using h, by simp⟩
  | cons i is ih =>
    obtain ⟨hnotin, hnodup'⟩ := List.nodup_cons.mp hnodup
    obtain ⟨s', d, hrequest, hrung⟩ := h.requestModeToOff i
    let m : Memory :=
      { b.memory with dead := d, usedDead := b.memory.usedDead || (b.stages i).isActive }
    obtain ⟨b', d', hfold, hstanding, hmemory⟩ :=
      ih (b := b.store i s' m) hnodup' (h.store hrung)
    -- the stages that are still to be asked are as they were
    have hlater : (is.any fun k => ((b.store i s' m).stages k).isActive)
        = is.any fun k => (b.stages k).isActive := by
      rw [Bool.eq_iff_iff, List.any_eq_true, List.any_eq_true]
      refine exists_congr fun k => and_congr_right fun hk => ?_
      have hne : k ≠ i := fun heq => hnotin (heq ▸ hk)
      rw [stages_store_ne hne]
    refine ⟨b', d', ?_, ?_, ?_⟩
    · rw [List.foldlM_cons, hrequest]
      exact hfold
    · intro k
      have hk := hstanding k
      by_cases hki : k = i
      · subst hki
        simpa using hk
      · simpa [hki] using hk
    · rw [hmemory, hlater, List.any_cons, ← Bool.or_assoc]
      rfl

/-- **All stages off.** -/
theorem Standing.modeToOff (h : Standing port b.memory.call rests b) :
    ∃ b' d, Equipment.modeToOff b = some b' ∧ Standing port b.memory.call (restAt none) b'
      ∧ b'.memory = { b.memory with
          dead := d, usedDead := b.memory.usedDead || b.anyActive } := by
  obtain ⟨b', d, hfold, hstanding, hmemory⟩ := h.foldlM_modeToOff (List.nodup_finRange n)
  refine ⟨b', d, hfold, fun i => ?_, hmemory⟩
  have hi := hstanding i
  beta_reduce at hi
  rwa [if_pos (List.mem_finRange i)] at hi

end Bank

/-! ## §5. Every call is a step on the ladder. -/

namespace Equipment

open Bank

variable {n : Nat} {port : Fin n → Port} {b b' : Bank n} {i : Fin n}
  {top top' : Top n}

/-- **The logic of an equipment climbs**: it returns, and it has taken steps on the ladder. -/
def Climbs (port : Fin n → Port) (logic : Bank n → Option (Bank n × Bool)) : Prop :=
  ∀ b top, OnLadder port top b →
    ∃ b' t top', logic b = some (b', t) ∧ Climb port top b top' b'

omit [CycleTimes] in
theorem active_top (h : OnLadder port top b)
    (hactive : (b.stages i).isActive = true) : ∃ c, top = some (i, c) := by
  cases hr : restAt top i with
  | cycling c => exact ⟨c, restAt_cycling hr⟩
  | off | supplementing =>
    have hnot := (h i).not_active fun c => by
      rw [hr]
      exact Rest.noConfusion
    rw [hactive] at hnot
    cases hnot

omit [CycleTimes] in
theorem tripped_climb {request : Bank n → Option (Bank n)} (met : Bool)
    (h : OnLadder port top b)
    (hrequest : ∃ b' top', request b = some b' ∧ Climb port top b top' b') :
    ∃ b' t top', tripped met request b = some (b', t) ∧ Climb port top b top' b' := by
  cases met with
  | false => exact ⟨b, true, top, rfl, .refl h⟩
  | true =>
    obtain ⟨b', top', heq, hclimb⟩ := hrequest
    refine ⟨b', true, top', ?_, hclimb⟩
    show (request b).bind _ = _
    rw [heq]
    rfl

theorem singleStage_climbs (hport : Injective port) (e : SingleStage) {first : Fin n}
    (hfirst : first.val = 0) : Climbs port (singleStage e first) := by
  intro b top h
  dsimp only [singleStage]
  split
  · obtain ⟨b', top', hrequest, hclimb, _⟩ := h.requestOn hport hfirst
    exact tripped_climb _ h ⟨b', top', hrequest, hclimb⟩
  · split
    next hactive =>
      obtain ⟨c, rfl⟩ := active_top h hactive.1
      exact tripped_climb _ h (h.requestOff hport)
    next => exact ⟨b, false, top, rfl, .refl h⟩

omit [CycleTimes] in
theorem orElse_climbs {port : Fin 3 → Port} {f g : Bank 3 → Option (Bank 3 × Bool)}
    (hf : Climbs port f) (hg : Climbs port g) :
    Climbs port fun b => (f b).bind (IndoorHeating.orElse g) := by
  intro b top h
  obtain ⟨b', t, top', heq, hclimb⟩ := hf b top h
  beta_reduce
  rw [heq]
  cases t with
  | true => exact ⟨b', true, top', rfl, hclimb⟩
  | false =>
    obtain ⟨b'', t, top'', heq', hclimb'⟩ := hg b' top' hclimb.standing
    exact ⟨b'', t, top'', heq', hclimb.trans hclimb'⟩

theorem runStages_climb (hport : Injective port) (is : List (Fin n))
    (h : OnLadder port top b) :
    ∃ b' top', runStages is b = some b' ∧ Climb port top b top' b' := by
  unfold runStages
  induction is generalizing b top with
  | nil => exact ⟨b, top, rfl, .refl h⟩
  | cons i is ih =>
    obtain ⟨b₁, top₁, hexecute, hclimb⟩ := h.execute hport i
    obtain ⟨b', top', hruns, hclimb'⟩ := ih hclimb.standing
    refine ⟨b', top', ?_, hclimb.trans hclimb'⟩
    rw [List.foldlM_cons, hexecute]
    exact hruns

/-- The stages are run after the logic. -/
theorem Climbs.run (hport : Injective port) {logic : Bank n → Option (Bank n × Bool)}
    (hlogic : Climbs port logic) (is : List (Fin n))
    (h : OnLadder port top b) :
    ∃ b' top', (do
        let (b, _) ← logic b
        let b ← runStages is b
        some (b, true)) = some (b', true)
      ∧ Climb port top b top' b' := by
  obtain ⟨b₁, t, top₁, heq, hclimb⟩ := hlogic b top h
  obtain ⟨b', top', hruns, hclimb'⟩ := runStages_climb hport is hclimb.standing
  refine ⟨b', top', ?_, hclimb.trans hclimb'⟩
  show (logic b).bind _ = _
  rw [heq]
  show (runStages is b₁).bind _ = _
  rw [hruns]
  rfl

end Equipment

open Equipment Bank

/-- The output of the compressor. -/
def Cooling.port (_ : Fin 1) : Port := .y1

omit [CycleTimes] in
theorem Cooling.port_injective :
    Injective Cooling.port := fun i j _ => Subsingleton.elim i j

/-- **A call of `Cooling`**; another number of stages is an error. -/
theorem Cooling.executeActive_climb {b : Bank 1} {top : Top 1}
    (h : Standing Cooling.port (b.memory.call + 1) (restAt top) b) :
    ∃ b' top', Cooling.executeActive b
        = some (b', decide (b.memory.args.systemConfig.numCompressorStages = 1))
      ∧ Climb Cooling.port top b top' b' := by
  unfold Cooling.executeActive
  split
  next hone =>
    rw [hone]
    exact (singleStage_climbs port_injective config rfl).run port_injective [0] h
  next hother => exact ⟨b, top, by rw [decide_eq_false hother], .refl h⟩

namespace IndoorHeating

/-- The output of each heater stage. -/
def port (i : Fin 3) : Port := .w i

omit [CycleTimes] in
theorem port_injective : Injective port := fun _ _ h => Port.w.inj h

theorem requestOnWithSecond_climb {b : Bank 3} {top : Top 3}
    (h : OnLadder port top b) :
    ∃ b' top', requestOnWithSecond b = some b' ∧ Climb port top b top' b' := by
  obtain ⟨b₁, top₁, hrequest, hclimb, _⟩ := h.requestOn port_injective (i := 0) rfl
  obtain ⟨b', top', hrequest', hclimb'⟩ :=
    hclimb.standing.requestAsSupplement port_injective (i := 0) (j := 1) rfl
  refine ⟨b', top', ?_, hclimb.trans hclimb'⟩
  show (b.requestOn 0).bind _ = _
  rw [hrequest]
  exact hrequest'

theorem secondStage_climbs : Climbs port secondStage := by
  intro b top h
  dsimp only [secondStage]
  split
  · exact tripped_climb _ h (requestOnWithSecond_climb h)
  · split
    · exact tripped_climb _ h (h.requestAsSupplement port_injective rfl)
    · split
      next hactive =>
        obtain ⟨c, rfl⟩ := active_top h hactive.1
        exact tripped_climb _ h (h.requestOff port_injective)
      next => exact ⟨b, false, top, rfl, .refl h⟩

theorem thirdStage_climbs : Climbs port thirdStage := by
  intro b top h
  dsimp only [thirdStage]
  split
  · exact tripped_climb _ h (requestOnWithSecond_climb h)
  · split
    · exact tripped_climb _ h (h.requestAsSupplement port_injective rfl)
    · split
      · exact tripped_climb _ h (h.requestAsSupplement port_injective rfl)
      · split
        next hactive =>
          obtain ⟨c, rfl⟩ := active_top h hactive.1
          exact tripped_climb _ h (h.requestOff port_injective)
        next => exact ⟨b, false, top, rfl, .refl h⟩

/-- **A call of `IndoorHeating`**; another number of stages is an error. -/
theorem executeActive_climb {b : Bank 3} {top : Top 3}
    (h : OnLadder port top b) :
    ∃ b' top', executeActive b
        = some (b', decide (b.memory.args.systemConfig.numIndoorStages ∈ [1, 2, 3]))
      ∧ Climb port top b top' b' := by
  have hsingle : Climbs port (singleStage config 0) := singleStage_climbs port_injective config rfl
  have hsecond := orElse_climbs secondStage_climbs hsingle
  have hthird := orElse_climbs (orElse_climbs thirdStage_climbs secondStage_climbs) hsingle
  unfold executeActive
  split
  next hone =>
    rw [hone]
    exact hsingle.run port_injective [0] h
  next htwo =>
    rw [htwo]
    exact hsecond.run port_injective [0, 1] h
  next hthree =>
    rw [hthree]
    exact hthird.run port_injective [0, 1, 2] h
  next h1 h2 h3 =>
    have hother : b.memory.args.systemConfig.numIndoorStages ∉ [1, 2, 3] := by
      simpa using ⟨h1, h2, h3⟩
    exact ⟨b, top, by rw [decide_eq_false hother], .refl h⟩

end IndoorHeating

end ColonyCore.Storm
