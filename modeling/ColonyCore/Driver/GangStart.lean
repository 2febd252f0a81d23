/-
  ColonyCore.Driver.GangStart
  **STARTING A GANG OF DRIVERS WHOSE DEVICES MAY NOT RESPOND.**

  The gang keeps ONE started flag, and each of its drivers keeps its own.  `Gang::start`
  starts the drivers one after the other and gives up at the first that fails; it does not
  stop the ones it has started, and `Gang::stop` does nothing on a gang that is not started.

    • `startLoop_true_iff` — when the loop over the drivers succeeds,
    • `startLoop_keeps` — a started driver stays started,
    • `gang_recovers_iff` — the runs after each of whose failed starts the gang can be started,
    • `second_silent` — a device behind the first one that does not respond.
-/
import ColonyCore.Lib.Interleaving
import Mathlib.Data.List.Nodup
import Mathlib.Logic.Function.Basic

namespace ColonyCore.Driver.NV.GangStart

open Interleaving Function

/-! ## §1. The drivers and the gang. -/

variable (started responds : Bool)

/-- `Api::start` of the CAT24C512: the result and the driver's `m_started`, which was
`started` before; `responds` is the answer of the device. -/
def driverStart : Bool × Bool :=
  if !started then
    if responds then (true, true) else (false, started)
  else (false, started)

/-- `Gang`: its `m_drivers`, its own `m_started`, and the `m_started` of each driver. -/
structure Gang (ι : Type) where
  drivers : List ι
  started : Bool
  driverStarted : ι → Bool

variable {ι : Type} [DecidableEq ι]

/-- The loop of `start` over the drivers: its result and the drivers' flags. -/
def startLoop (responds : ι → Bool) : List ι → (ι → Bool) → Bool × (ι → Bool)
  | [], flags => (true, flags)
  | d :: rest, flags =>
    let (result, started) := driverStart (flags d) (responds d)
    let flags := update flags d started
    if result then startLoop responds rest flags else (false, flags)

/-- The loop of `stop` over the drivers. -/
def stopLoop : List ι → (ι → Bool) → (ι → Bool)
  | [], flags => flags
  | d :: rest, flags => stopLoop rest (update flags d false)

namespace Gang

/-- A gang as it is constructed over drivers that are stopped. -/
def create (drivers : List ι) : Gang ι := ⟨drivers, false, fun _ => false⟩

/-- `Gang::start`. -/
def start (g : Gang ι) (responds : ι → Bool) : Bool × Gang ι :=
  if !g.started then
    let (result, flags) := startLoop responds g.drivers g.driverStarted
    (result, { g with started := result, driverStarted := flags })
  else (false, g)

/-- `Gang::stop`. -/
def stop (g : Gang ι) : Gang ι :=
  if g.started then
    { g with started := false, driverStarted := stopLoop g.drivers g.driverStarted }
  else g

end Gang

/-- A call on the gang; a start comes with the devices that respond to it. -/
inductive Call (ι : Type) where
  | start (responds : ι → Bool)
  | stop

variable (g : Gang ι)

/-- One call. -/
def step : Call ι → Option (Gang ι)
  | .start responds => some (g.start responds).2
  | .stop => some g.stop

/-! ## §2. The loops. -/

omit [DecidableEq ι] in
theorem driverStart_fst :
    (driverStart started responds).1 = (!started && responds) := by
  cases started <;> cases responds <;> rfl

omit [DecidableEq ι] in
theorem driverStart_snd :
    (driverStart started responds).2 = (started || responds) := by
  cases started <;> cases responds <;> rfl

/-- One pass of the loop of `start`. -/
theorem startLoop_cons (responds : ι → Bool) (d : ι) (rest : List ι) (flags : ι → Bool) :
    startLoop responds (d :: rest) flags
      = if flags d = false ∧ responds d = true
        then startLoop responds rest (update flags d true)
        else (false, update flags d (flags d || responds d)) := by
  show (if (driverStart (flags d) (responds d)).1 then
      startLoop responds rest (update flags d (driverStart (flags d) (responds d)).2)
    else (false, update flags d (driverStart (flags d) (responds d)).2)) = _
  rw [driverStart_fst, driverStart_snd]
  by_cases h : flags d = false ∧ responds d = true
  · rw [if_pos h, if_pos (by rw [h.1, h.2]; rfl), h.2, Bool.or_true]
  · rw [if_neg h, if_neg (by simpa using h)]

/-- **When the loop succeeds**: no driver is listed twice, each of them is stopped, and its
device responds. -/
theorem startLoop_true_iff (responds : ι → Bool) (drivers : List ι) (flags : ι → Bool) :
    (startLoop responds drivers flags).1 = true
      ↔ drivers.Nodup ∧ ∀ d ∈ drivers, flags d = false ∧ responds d = true := by
  induction drivers generalizing flags with
  | nil => simp [startLoop]
  | cons d rest ih =>
    rw [startLoop_cons, List.nodup_cons, List.forall_mem_cons]
    by_cases h : flags d = false ∧ responds d = true
    · rw [if_pos h, ih]
      -- the driver at the head is started now: `rest` may not list it once more
      constructor
      · rintro ⟨hnd, hall⟩
        have hnot : d ∉ rest := by
          intro hmem
          have hstarted := (hall d hmem).1
          rw [update_self] at hstarted
          cases hstarted
        refine ⟨⟨hnot, hnd⟩, h, fun e he => ?_⟩
        have hne : e ≠ d := fun heq => hnot (heq ▸ he)
        have he' := hall e he
        rwa [update_of_ne hne] at he'
      · rintro ⟨⟨hnot, hnd⟩, -, hall⟩
        refine ⟨hnd, fun e he => ?_⟩
        have hne : e ≠ d := fun heq => hnot (heq ▸ he)
        rw [update_of_ne hne]
        exact hall e he
    · rw [if_neg h]
      constructor
      · intro hfalse
        cases hfalse
      · rintro ⟨-, hd, -⟩
        exact absurd hd h

variable {d : ι}

/-- **A started driver stays started** through the rest of the loop. -/
theorem startLoop_keeps (responds : ι → Bool) (drivers : List ι) (flags : ι → Bool)
    (h : flags d = true) : (startLoop responds drivers flags).2 d = true := by
  induction drivers generalizing flags with
  | nil => exact h
  | cons e rest ih =>
    have hkeep : ∀ b, (flags e = true → b = true) → update flags e b d = true := by
      intro b hb
      by_cases hde : d = e
      · subst hde
        rw [update_self]
        exact hb h
      · rw [update_of_ne hde]
        exact h
    rw [startLoop_cons]
    split
    · exact ih _ (hkeep true fun _ => rfl)
    · exact hkeep _ fun he => by rw [he, Bool.true_or]

/-- After the loop of `stop` every driver it went over is stopped. -/
theorem stopLoop_stopped (drivers : List ι) (flags : ι → Bool)
    (h : d ∈ drivers ∨ flags d = false) : stopLoop drivers flags d = false := by
  induction drivers generalizing flags with
  | nil => exact h.resolve_left List.not_mem_nil
  | cons e rest ih =>
    refine ih _ ?_
    by_cases hde : d = e
    · subst hde
      exact .inr (update_self ..)
    · rw [update_of_ne hde]
      exact h.imp_left fun hmem => (List.mem_cons.mp hmem).resolve_left hde

/-! ## §3. Failed starts. -/

/-- Every driver of the gang is stopped. -/
def AllStopped : Prop := ∀ d ∈ g.drivers, g.driverStarted d = false

/-- What is wanted of a call: a start that fails on a stopped gang leaves every driver
stopped, and a start to which all devices respond succeeds afterwards. -/
def Recovers : Call ι → Prop
  | .start responds => g.started = false → (g.start responds).1 = false →
      AllStopped (g.start responds).2
        ∧ ((g.start responds).2.start fun _ => true).1 = true
  | .stop => True

/-- The start meets a started gang, or a gang that lists each driver once and whose devices
all respond, or whose first device does not. -/
def Clean : Call ι → Prop
  | .start responds => g.started = true ∨ g.drivers.Nodup ∧
      ((∀ d ∈ g.drivers, responds d = true) ∨ ∃ d ∈ g.drivers.head?, responds d = false)
  | .stop => True

/-- A stopped gang has stopped drivers: what holds as long as every call recovers. -/
def Tidy : Prop := g.started = false → AllStopped g

variable {g : Gang ι}

theorem start_stopped (h : g.started = false) (responds : ι → Bool) :
    g.start responds = ((startLoop responds g.drivers g.driverStarted).1,
      { g with
        started := (startLoop responds g.drivers g.driverStarted).1
        driverStarted := (startLoop responds g.drivers g.driverStarted).2 }) := by
  unfold Gang.start
  rw [h]
  rfl

theorem start_started (h : g.started = true) (responds : ι → Bool) :
    g.start responds = (false, g) := by
  unfold Gang.start
  rw [h]
  rfl

/-- On a gang whose drivers are all stopped, a start succeeds exactly if no driver is listed
twice and every device responds. -/
theorem start_true_iff (h : g.started = false) (hall : AllStopped g)
    (responds : ι → Bool) : (g.start responds).1 = true
      ↔ g.drivers.Nodup ∧ ∀ d ∈ g.drivers, responds d = true := by
  rw [start_stopped h]
  rw [startLoop_true_iff]
  exact and_congr_right fun _ =>
    ⟨fun hd d hmem => (hd d hmem).2, fun hd d hmem => ⟨hall d hmem, hd d hmem⟩⟩

omit [DecidableEq ι] in
theorem tidy_create (drivers : List ι) : Tidy (Gang.create drivers) := fun _ _ _ => rfl

/-- The first device does not respond: the start fails and no driver has been touched. -/
theorem start_first_silent (h : g.started = false) (hall : AllStopped g) {responds : ι → Bool}
    (hhead : d ∈ g.drivers.head?) (hd : responds d = false) : AllStopped (g.start responds).2 := by
  obtain ⟨rest, hdrivers⟩ : ∃ rest, g.drivers = d :: rest :=
    ⟨g.drivers.tail, (List.cons_head?_tail hhead).symm⟩
  have hloop : (startLoop responds g.drivers g.driverStarted).2 = g.driverStarted := by
    rw [hdrivers, startLoop_cons, if_neg (by simp [hd])]
    rw [hd, Bool.or_false, update_eq_self]
  intro e he
  rw [start_stopped h] at he ⊢
  rw [hloop]
  exact hall e he

/-- The first device responds: its driver is started, whatever happens behind it. -/
theorem start_first_started (h : g.started = false) (hall : AllStopped g) {responds : ι → Bool}
    (hhead : d ∈ g.drivers.head?) (hd : responds d = true) : ¬ AllStopped (g.start responds).2 := by
  obtain ⟨rest, hdrivers⟩ : ∃ rest, g.drivers = d :: rest :=
    ⟨g.drivers.tail, (List.cons_head?_tail hhead).symm⟩
  have hmem : d ∈ g.drivers := List.mem_of_mem_head? hhead
  have hstarted : (startLoop responds g.drivers g.driverStarted).2 d = true := by
    rw [hdrivers, startLoop_cons, if_pos ⟨hall d hmem, hd⟩]
    exact startLoop_keeps _ _ _ (update_self ..)
  intro hstopped
  rw [start_stopped h] at hstopped
  have hfalse : (startLoop responds g.drivers g.driverStarted).2 d = false := hstopped d hmem
  rw [hfalse] at hstarted
  cases hstarted

/-- **Exactly the clean starts recover**, on a gang that is tidy. -/
theorem recovers_iff_clean (hg : Tidy g) (c : Call ι) : Recovers g c ↔ Clean g c := by
  cases c with
  | stop => exact Iff.rfl
  | start responds =>
    by_cases hstarted : g.started = true
    · exact iff_of_true (fun h => absurd (h.symm.trans hstarted) (by decide)) (.inl hstarted)
    have hoff : g.started = false := Bool.eq_false_iff.mpr hstarted
    have hall : AllStopped g := hg hoff
    -- the gang after the start lists the same drivers
    have hdrivers : (g.start responds).2.drivers = g.drivers := by rw [start_stopped hoff]
    have hflag : (g.start responds).2.started = (g.start responds).1 := by
      rw [start_stopped hoff]
    constructor
    · intro hrec
      refine .inr ?_
      by_cases hok : (g.start responds).1 = true
      · obtain ⟨hnd, hresp⟩ := (start_true_iff hoff hall responds).mp hok
        exact ⟨hnd, .inl hresp⟩
      obtain ⟨hstop, hagain⟩ := hrec hoff (Bool.eq_false_iff.mpr hok)
      have hnd := ((start_true_iff (hflag.trans (Bool.eq_false_iff.mpr hok)) hstop _).mp hagain).1
      rw [hdrivers] at hnd
      refine ⟨hnd, ?_⟩
      cases hhead : g.drivers.head? with
      | none =>
        refine .inl fun d hd => ?_
        rw [List.head?_eq_none_iff.mp hhead] at hd
        cases hd
      | some d =>
        refine .inr ⟨d, rfl, Bool.eq_false_iff.mpr fun hd => ?_⟩
        exact start_first_started hoff hall hhead hd hstop
    · rintro (hon | ⟨hnd, hresp⟩) - hfail
      · exact absurd hon hstarted
      have hstop : AllStopped (g.start responds).2 := by
        rcases hresp with hresp | ⟨d, hhead, hd⟩
        · rw [(start_true_iff hoff hall responds).mpr ⟨hnd, hresp⟩] at hfail
          cases hfail
        · exact start_first_silent hoff hall hhead hd
      refine ⟨hstop, (start_true_iff (hflag.trans hfail) hstop _).mpr ⟨?_, fun _ _ => rfl⟩⟩
      rw [hdrivers]
      exact hnd

/-- A call that recovers keeps the gang tidy. -/
theorem tidy_step {g' : Gang ι} {c : Call ι} (hg : Tidy g) (hrec : Recovers g c)
    (h : step g c = some g') : Tidy g' := by
  cases c with
  | stop =>
    obtain rfl : g.stop = g' := Option.some.inj h
    unfold Gang.stop
    split
    next => exact fun _ d hd => stopLoop_stopped _ _ (.inl hd)
    next => exact hg
  | start responds =>
    obtain rfl : (g.start responds).2 = g' := Option.some.inj h
    intro hoff
    by_cases hstarted : g.started = true
    · rw [start_started hstarted] at hoff
      exact absurd (hoff.symm.trans hstarted) (by decide)
    have hstopped : g.started = false := Bool.eq_false_iff.mpr hstarted
    refine (hrec hstopped ?_).1
    rw [start_stopped hstopped] at hoff ⊢
    exact hoff

/-! ## §4. Runs of calls. -/

/-- **Which runs recover**: from a gang as constructed, every failed start of a run leaves
the gang startable exactly if every start of it is clean. -/
theorem gang_recovers_iff (drivers : List ι) (calls : List (Call ι)) :
    Along step Recovers (Gang.create drivers) calls
      ↔ Along step Clean (Gang.create drivers) calls :=
  along_congr Tidy (fun _ c _ hg => recovers_iff_clean hg c)
    (fun _ _ _ hg hrec h => tidy_step hg hrec h) (tidy_create drivers)

/-- Two drivers, of which the device of the second does not respond: the first is left
started, no stop reaches it, and no later start succeeds. -/
theorem second_silent : let g : Gang (Fin 2) := (Gang.create [0, 1] |>.start fun d => d == 0).2
    (Gang.create [0, 1] |>.start fun d : Fin 2 => d == 0).1 = false
      ∧ g.driverStarted 0 = true ∧ (g.start fun _ => true).1 = false
      ∧ (g.stop.start fun _ => true).1 = false
      ∧ ¬ Along step Recovers (Gang.create [0, 1]) [.start fun d : Fin 2 => d == 0] := by
  refine ⟨rfl, rfl, rfl, rfl, fun h => ?_⟩
  have hstopped := (h.1 rfl rfl).1 0 List.mem_cons_self
  cases hstopped

end ColonyCore.Driver.NV.GangStart
