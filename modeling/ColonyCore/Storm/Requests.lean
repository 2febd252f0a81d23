/-
  ColonyCore.Storm.Requests
  **THE REQUESTS OF AN EQUIPMENT TO ITS STAGES, EACH FROM A STAGE AT REST.**

  A request queues an event and runs the loop of that stage until its queue is empty;
  `drain_settle` is the case that no other stage is called.  Two transitions call one:

    • `requestAsSupplement_eq` — the next stage is started before this one supplements it,
    • `requestOff_next` — the lower stage is started again before this one is off.
-/
import ColonyCore.Storm.StageRequests

namespace ColonyCore.Storm

open ColonyCore.System Function

namespace Bank

variable {n : Nat} {b : Bank n} {i j : Fin n} {s s' : Stage n} {m m' : Memory} {msg : Event}

/-! ## §1. The loop. -/

@[simp] theorem stages_store_self : (b.store i s m).stages i = s := update_self _ _ _

theorem stages_store_ne (h : j ≠ i) : (b.store i s m).stages j = b.stages j :=
  update_of_ne h _ _

@[simp] theorem memory_store : (b.store i s m).memory = m := rfl

@[simp] theorem store_store : (b.store i s m).store i s' m' = b.store i s' m' := by
  unfold store
  rw [update_idem]

@[simp] theorem store_self : b.store i (b.stages i) m = { b with memory := m } := by
  unfold store
  rw [update_eq_self]

variable [CycleTimes]

theorem processEvent_none {f : Fin n → Bank n → Option (Bank n)}
    (h : (b.stages i).processEvent b.memory msg = some (s', m', none)) :
    b.processEvent f i msg = some (b.store i s' m') := by
  unfold processEvent
  rw [h]
  rfl

variable {fuel : Nat}

/-- An event without a call of another stage. -/
theorem drain_cons (msg : Event) (rest : List Event) (h : (b.stages i).events = msg :: rest)
    (hprocess : { b.stages i with events := rest }.processEvent b.memory msg = some (s', m', none))
      :
    drain (fuel + 1) i b = drain fuel i (b.store i s' m') := by
  have hstep : (b.store i { b.stages i with events := rest } b.memory).processEvent (drain fuel) i msg
      = some (b.store i s' m') := by
    have hprocess' : ((b.store i { b.stages i with events := rest } b.memory).stages i).processEvent
        b.memory msg = some (s', m', none) := by rwa [stages_store_self]
    rw [processEvent_none hprocess', store_store]
  rw [drain, h]
  show (processEvent (drain fuel) i msg
    (b.store i { b.stages i with events := rest } b.memory)).bind _ = _
  rw [hstep]
  rfl

/-- **The loop of a stage that calls no other.** -/
theorem drain_settle (h : (b.stages i).settle fuel b.memory = some (s', m')) :
    drain fuel i b = some (b.store i s' m') := by
  induction fuel generalizing b with
  | zero => cases h
  | succ fuel ih =>
    rw [Stage.settle] at h
    split at h
    next hnil =>
      rw [drain, hnil]
      obtain ⟨rfl, rfl⟩ := Prod.mk.inj (Option.some.inj h)
      rfl
    next msg rest hcons =>
      obtain ⟨⟨s₁, m₁, handover⟩, hprocess, hrest⟩ := Option.bind_eq_some_iff.mp h
      cases handover with
      | some _ => cases hrest
      | none =>
        rw [drain_cons msg rest hcons hprocess, ih, store_store]
        rwa [stages_store_self]

/-- Nothing queued, and not in the loop. -/
def Quiet (s : Stage n) : Prop := s.events = [] ∧ s.processing = false

omit [CycleTimes] in
theorem generateEvent_eq {f : Fin n → Bank n → Option (Bank n)} (hquiet : Quiet (b.stages i)) :
    b.generateEvent f i msg = f i (b.store i ((b.stages i).loop [msg]) b.memory) := by
  obtain ⟨hevents, hprocessing⟩ := hquiet
  have hpush : (b.stages i).push msg = some ((b.stages i).queued [msg]) :=
    Stage.push_eq (by rw [hevents]; decide) msg
  have hloop : ((b.stages i).loop [msg]) = { (b.stages i).queued [msg] with processing := true } := by
    unfold Stage.queued
    rw [hevents]
    rfl
  unfold generateEvent
  rw [hpush, hloop]
  show (if (b.stages i).processing then _ else _) = _
  rw [hprocessing]
  rfl

omit [CycleTimes] in
theorem generateEvent_store {f : Fin n → Bank n → Option (Bank n)} (hquiet : Quiet s) :
    (b.store i s m).generateEvent f i msg = f i (b.store i (s.loop [msg]) m) := by
  rw [generateEvent_eq (by rwa [stages_store_self]), stages_store_self, store_store, memory_store]

/-- **An event to a stage that calls no other.** -/
theorem generateEvent_settle {k : Nat} (hquiet : Quiet s) (hk : k ≤ fuel)
    (h : (s.loop [msg]).settle k m = some (s', m')) :
    (b.store i s m).generateEvent (drain fuel) i msg = some (b.store i s' m') := by
  have hsettle : ((b.store i (s.loop [msg]) m).stages i).settle fuel m = some (s', m') := by
    rw [stages_store_self]
    exact Stage.settle_mono h hk
  rw [generateEvent_store hquiet, drain_settle hsettle, store_store]

theorem send_store {k : Nat} (hquiet : Quiet s) (hk : k ≤ maxEvents)
    (h : (s.loop [msg]).settle k m = some (s', m')) :
    (b.store i s m).send i msg = some (b.store i s' m') :=
  generateEvent_settle hquiet hk h

omit [CycleTimes] in
theorem settled_eq (hquiet : Quiet s) : s.settled = s := by
  obtain ⟨hevents, hprocessing⟩ := hquiet
  unfold Stage.settled
  rw [← hevents, ← hprocessing]

/-- Events that a stage at rest ignores leave it as it was. -/
theorem settle_quiet {r : Rest} (hquiet : Quiet s) (h : s.At r) {e : List Event}
    (he : ∀ x ∈ e, Stage.Ignores r x) : (s.loop e).settle (e.length + 1) m = some (s, m) := by
  have hstays := h.settle_stays (m := m) e he
  rwa [settled_eq hquiet] at hstays

/-! ## §2. Requests that stay with their stage. -/

/-- A request that is ignored. -/
theorem send_ignored {r : Rest} (hquiet : Quiet s) (h : s.At r) (hmsg : Stage.Ignores r msg) :
    (b.store i s m).send i msg = some (b.store i s m) :=
  send_store (k := 2) hquiet (by decide) (settle_quiet hquiet h fun e he => List.mem_singleton.mp he ▸ hmsg)

variable {c : CyclingState}

/-- A request in a cycle that does not look at the event. -/
theorem send_harmless (hquiet : Quiet s) (h : s.At (.cycling c))
    (hlive : s.Live m) (hmsg : Stage.Harmless msg) :
    ∃ s' a', (b.store i s m).send i msg = some (b.store i s' { m with args := a' })
      ∧ (if s.expired m.args c then Stage.Cycles s m.args c.other s' a'
        else s' = s ∧ a' = s.checked m.args c) := by
  obtain ⟨s', a', hsettle, hresult⟩ := Stage.settle_tick h hlive hmsg
  rw [settled_eq hquiet] at hresult
  exact ⟨s', a', send_store hquiet (by decide) hsettle, hresult⟩

/-- The first stage as `requestOn` finds it. -/
def first (s : Stage n) (call : Nat) : Stage n :=
  { s with args := some call, startInOffCycle := false, supplemented := false }

/-- `requestOn` at a stage that is off. -/
theorem requestOn_eq (hquiet : Quiet (b.stages i)) (h : (b.stages i).At .off) :
    ∃ s' a', b.requestOn i = some (b.store i s' { b.memory with args := a' })
      ∧ Stage.Cycles (first (b.stages i) b.memory.call) ((b.stages i).activated b.memory.args)
        (Stage.restsIn b.memory.args .OnCycle) s' a' := by
  obtain ⟨s', a', hsettle, hcycles⟩ := Stage.settle_on
    (s := first (b.stages i) b.memory.call) h rfl rfl rfl
  exact ⟨s', a', send_store hquiet (by decide) hsettle, hcycles⟩

/-- A stage as `requestOff` finds it. -/
def excess (s : Stage n) (call : Nat) : Stage n :=
  { s with args := some call, requestOffStartInOnCycle := true }

/-- `requestOff` in a cycle of the first stage. -/
theorem requestOff_first (hquiet : Quiet (b.stages i))
    (h : (b.stages i).At (.cycling c)) (hfirst : (b.stages i).supplemented = false) :
    b.requestOff i
      = some (b.store i (excess (b.stages i) b.memory.call).shut
        { b.memory with args :=
          (b.stages i).stopped ((b.stages i).checked b.memory.args c) }) := by
  have hin : ((excess (b.stages i) b.memory.call).loop []).InCycle c false :=
    Stage.InCycle.congr h rfl
  have hstops := hin.stops rfl (by simp [Stage.loop]) hfirst
  refine send_store (s := excess (b.stages i) b.memory.call) hquiet (k := 8) (by decide) ?_
  rw [Stage.settle_cons rfl hstops]
  -- the event of a cycle that was over is left, and ignored
  exact Stage.settle_mono (settle_quiet (s := (excess (b.stages i) b.memory.call).shut)
    (r := .off) (e := (b.stages i).expiry b.memory.args c) hquiet rfl fun e he =>
      (Stage.stale_expiry e he).off) (by
      have hle := Stage.length_expiry_le (s := b.stages i) (a := b.memory.args) (c := c)
      omega)

/-- `requestModeToOff` at a stage that supplements another. -/
theorem requestModeToOff_supplementing (hquiet : Quiet (b.stages i))
    (h : (b.stages i).At .supplementing) :
    b.requestModeToOff i = some (b.store i (b.stages i).modeOff b.memory) := by
  have hsend := send_store (b := b) (i := i) hquiet (by decide)
    (Stage.settle_modeOff (m := b.memory) h)
  rwa [store_self] at hsend

/-- `requestModeToOff` in a cycle, with a pointer to an earlier call. -/
theorem requestModeToOff_cycling {p : Nat} (hquiet : Quiet (b.stages i))
    (h : (b.stages i).At (.cycling c)) (hargs : (b.stages i).args = some p)
    (hdead : p ≠ b.memory.call) :
    ∃ d, b.requestModeToOff i
      = some (b.store i (b.stages i).modeOff { b.memory with dead := d, usedDead := true }) := by
  obtain ⟨d, hsettle⟩ := Stage.InCycle.settle_modeOff h hargs hdead
  have hsend := send_store (b := b) (i := i) hquiet (by decide) hsettle
  exact ⟨d, by rwa [store_self] at hsend⟩

/-! ## §3. Requests that reach a neighbour. -/

/-- An event with a call of another stage. -/
theorem drain_handover {rest : List Event} {h : Stage.Handover} {b' : Bank n} {s₁ s₂ : Stage n}
    {m₁ m₂ : Memory} (hprocess : (s.loop rest).processEvent m msg = some (s₁, m₁, some h))
    (hnotify : (b.store i s₁ m₁).notify (drain fuel) i h = some b')
    (hcomplete : (b'.stages i).complete b'.memory h = some (s₂, m₂)) :
    drain (fuel + 1) i (b.store i (s.loop (msg :: rest)) m)
      = drain fuel i (b'.store i s₂ m₂) := by
  have hstep : (b.store i (s.loop rest) m).processEvent (drain fuel) i msg
      = some (b'.store i s₂ m₂) := by
    unfold processEvent
    rw [stages_store_self, memory_store]
    show (Stage.processEvent _ _ _).bind _ = _
    rw [hprocess]
    show (notify _ _ _ _).bind _ = _
    rw [store_store, hnotify]
    show (Stage.complete _ _ _).bind _ = _
    rw [hcomplete]
    rfl
  rw [drain, stages_store_self]
  show (processEvent (drain fuel) i msg (modifyStage _ i _)).bind _ = _
  unfold modifyStage
  rw [stages_store_self, store_store]
  show (processEvent (drain fuel) i msg (b.store i (s.loop rest) m)).bind _ = _
  rw [hstep]
  rfl

/-- A stage as `requestAsSupplement` finds it. -/
def needing (s : Stage n) (call : Nat) (j : Fin n) : Stage n :=
  { s with args := some call, requestSupplementStartInOnCycle := true, nextStage := some j }

/-- The next stage as it is notified. -/
def notified (s : Stage n) (call : Nat) (i : Fin n) : Stage n :=
  { s with
    args := some call
    startInOffCycle := false
    supplemented := true
    nextStage := none
    prevStage := some i }

/-- **A call of the neighbour** `j`: its members are set, and it settles. -/
theorem notify_settle {k : Nat} {h : Stage.Handover} {g : Stage n → Stage n} (hne : i ≠ j)
    (hquiet : Quiet (g (b.stages j))) (hk : k ≤ fuel)
    (hcall : (b.store i s m).notify (drain fuel) i h
      = ((b.store i s m).modifyStage j g).generateEvent (drain fuel) j msg)
    (hsettle : ((g (b.stages j)).loop [msg]).settle k m = some (s', m')) :
    (b.store i s m).notify (drain fuel) i h = some ((b.store i s m).store j s' m') := by
  rw [hcall, modifyStage, stages_store_ne hne.symm]
  exact generateEvent_settle hquiet hk hsettle

omit [CycleTimes] in
theorem store_over (hne : i ≠ j) {s₁ s₂ s₃ : Stage n} {m₁ m₂ m₃ : Memory} :
    ((b.store i s₁ m₁).store j s₂ m₂).store i s₃ m₃ = (b.store j s₂ b.memory).store i s₃ m₃ := by
  unfold store
  rw [update_comm hne.symm, update_idem, update_comm hne]

/-- **`requestAsSupplement`**: the next stage is in a cycle, and this one is on. -/
theorem requestAsSupplement_eq (hne : i ≠ j) (hquiet : Quiet (b.stages i))
    (hquiet' : Quiet (b.stages j)) (h : (b.stages i).At (.cycling c))
    (hoff : (b.stages j).At .off) :
    ∃ s' a', b.requestAsSupplement i j
        = some ((b.store j s' b.memory).store i (needing (b.stages i) b.memory.call j).yielding
          { b.memory with args := (b.stages i).switched a' .OnCycle })
      ∧ Stage.Cycles (notified (b.stages j) b.memory.call i)
        ((b.stages i).checked b.memory.args c)
        (Stage.restsIn ((b.stages i).checked b.memory.args c) .OnCycle) s' a' := by
  let si := needing (b.stages i) b.memory.call j
  let es := (b.stages i).expiry b.memory.args c
  let m₁ : Memory := { b.memory with args := (b.stages i).checked b.memory.args c }
  have hin : (si.loop []).InCycle c false := Stage.InCycle.congr h rfl
  have hyields : (si.loop []).processEvent b.memory .evNeedMoreCapacity
      = some (si.loop es, m₁, some .enterSupplementing) :=
    hin.yields rfl (by simp [Stage.loop])
  obtain ⟨s', a', hsettle, hcycles⟩ := Stage.settle_active
    (s := notified (b.stages j) b.memory.call i) (m := m₁) hoff rfl rfl rfl
  have hnotify : (b.store i (si.loop es) m₁).notify (drain 15) i .enterSupplementing
      = some ((b.store i (si.loop es) m₁).store j s' { m₁ with args := a' }) :=
    notify_settle (g := fun t => notified t b.memory.call i) hne hquiet' (by decide)
      (by rw [notify, stages_store_self]; rfl) hsettle
  have hcomplete : (si.loop es).complete { m₁ with args := a' } .enterSupplementing
      = some ((si.yielding).loop es, { m₁ with args := (b.stages i).switched a' .OnCycle }) := by
    show ((si.loop es).stageOn _).bind _ = _
    unfold Stage.stageOn Stage.switch
    rw [Stage.Live.write (s := si.loop es) (m := { m₁ with args := a' }) rfl]
    rfl
  refine ⟨s', a', ?_, hcycles⟩
  have hfuel : es.length + 1 ≤ 15 := by
    have hle : es.length ≤ 1 := Stage.length_expiry_le
    omega
  have hsend : b.requestAsSupplement i j = drain 16 i (b.store i (si.loop [.evNeedMoreCapacity]) b.memory) :=
    generateEvent_store hquiet
  rw [hsend, drain_handover hyields hnotify
    (by rw [stages_store_ne hne, stages_store_self]; exact hcomplete), store_over hne]
  -- the event of a cycle that was over is left, and ignored
  exact (drain_settle (by
    rw [stages_store_self]
    exact Stage.settle_mono (settle_quiet (s := si.yielding) (r := .supplementing) hquiet rfl
      fun e he => (Stage.stale_expiry e he).supplementing) hfuel)).trans (congrArg some store_store)

/-- The lower stage as it is notified. -/
def resuming (s : Stage n) (call : Nat) : Stage n :=
  { s with args := some call, startInOffCycle := false, nextStage := none }

/-- A higher stage after `requestOff`. -/
def released (s : Stage n) (call : Nat) : Stage n :=
  { excess s call with
    prevStage := none
    supplemented := false
    vars := { s.vars with stateVar := .Off, stateVarActive := .Cycling } }

/-- The transition back of a higher stage: what is left in the queue is ignored. -/
theorem drain_turning {es : List Event} (hturning : s.vars.stateVar = .Active)
    (hback : s.vars.stateVarActive = .TransitioningBackToLowerStage)
    (hes : ∀ e ∈ es, Stage.Stale e) {rest : List Event} :
    drain (es.length + fuel) i (b.store i (s.loop (es ++ rest)) m)
      = drain fuel i (b.store i (s.loop rest) m) := by
  induction es with
  | nil => rw [List.length_nil, Nat.zero_add, List.nil_append]
  | cons e es ih =>
    have hignores : (s.loop (es ++ rest)).processEvent m e = some (s.loop (es ++ rest), m, none) := by
      unfold Stage.processEvent
      rw [show (s.loop (es ++ rest)).vars.stateVar = .Active from hturning,
        show (s.loop (es ++ rest)).vars.stateVarActive = .TransitioningBackToLowerStage from hback]
      obtain ⟨c, rfl⟩ := hes e List.mem_cons_self
      cases c <;> rfl
    rw [List.length_cons, Nat.add_right_comm,
      drain_cons e (es ++ rest) (by rw [stages_store_self]; rfl)
        (by rw [stages_store_self]; exact hignores), store_store]
    exact ih fun e he => hes e (List.mem_cons_of_mem _ he)

/-- **`requestOff`** of a higher stage: the lower one is in a cycle again, and this one is
    off. -/
theorem requestOff_next (hne : i ≠ j) (hquiet : Quiet (b.stages i)) (hquiet' : Quiet (b.stages j))
    (h : (b.stages i).At (.cycling c)) (hnext : (b.stages i).supplemented = true)
    (hprev : (b.stages i).prevStage = some j) (hsupp : (b.stages j).At .supplementing) :
    ∃ s' a', b.requestOff i
        = some ((b.store j s' b.memory).store i (released (b.stages i) b.memory.call)
          { b.memory with args := (b.stages i).stopped a' })
      ∧ Stage.Cycles (resuming (b.stages j) b.memory.call) ((b.stages i).checked b.memory.args c)
        (Stage.restsIn ((b.stages i).checked b.memory.args c) .OnCycle) s' a' := by
  let si := excess (b.stages i) b.memory.call
  let es := (b.stages i).expiry b.memory.args c
  let m₁ : Memory := { b.memory with args := (b.stages i).checked b.memory.args c }
  have hin : (si.loop []).InCycle c false := Stage.InCycle.congr h rfl
  have hturns : (si.loop []).processEvent b.memory .evExcessCapacity
      = some (si.turning.loop (es ++ [.evBackTransitionCompleted]), m₁, none) :=
    hin.turns rfl (by simp [Stage.loop]) hnext
  obtain ⟨s', a', hsettle, hcycles⟩ := Stage.settle_back
    (s := resuming (b.stages j) b.memory.call) (m := m₁) hsupp rfl rfl
  have hstale : ∀ e ∈ es, Stage.Stale e := Stage.stale_expiry
  obtain ⟨k, hk, hfuel⟩ : ∃ k, 15 = es.length + (k + 1) ∧ 7 ≤ k := by
    have hle : es.length ≤ 1 := Stage.length_expiry_le
    exact ⟨14 - es.length, by omega, by omega⟩
  have hback : (si.turning.loop []).processEvent m₁ .evBackTransitionCompleted
      = some (si.turning.loop [], m₁, some .notifyLowerStage) := by
    unfold Stage.processEvent
    rw [show (si.turning.loop []).vars.stateVar = .Active from h.active]
    rfl
  have hnotify : (b.store i (si.turning.loop []) m₁).notify (drain k) i .notifyLowerStage
      = some ((b.store i (si.turning.loop []) m₁).store j s' { m₁ with args := a' }) :=
    notify_settle (g := fun t => resuming t b.memory.call) hne hquiet' hfuel
      (by
        rw [notify, stages_store_self]
        show ((b.stages i).prevStage).bind _ = _
        rw [hprev]
        rfl) hsettle
  have hcomplete : (si.turning.loop []).complete { m₁ with args := a' } .notifyLowerStage
      = some ((released (b.stages i) b.memory.call).loop [],
        { m₁ with args := (b.stages i).stopped a' }) := by
    show (Stage.shutdownStage { si.turning.loop [] with prevStage := none, supplemented := false }
      { m₁ with args := a' }).bind _ = _
    rw [Stage.shutdownStage_eq
      (s := { si.turning.loop [] with prevStage := none, supplemented := false })
      (m := { m₁ with args := a' }) rfl]
    rfl
  have hrest : ((released (b.stages i) b.memory.call).loop []).settle k
      { m₁ with args := (b.stages i).stopped a' }
      = some (released (b.stages i) b.memory.call,
        { m₁ with args := (b.stages i).stopped a' }) :=
    Stage.settle_mono (settle_quiet (s := released (b.stages i) b.memory.call) (r := .off)
      hquiet rfl (by simp)) (by rw [List.length_nil]; omega)
  refine ⟨s', a', ?_, hcycles⟩
  have hsend : b.requestOff i = drain 16 i (b.store i (si.loop [.evExcessCapacity]) b.memory) :=
    generateEvent_store hquiet
  rw [hsend, drain_cons .evExcessCapacity [] (by rw [stages_store_self]; rfl)
    (by rw [stages_store_self]; exact hturns), store_store, hk,
    drain_turning (s := si.turning) h.active rfl hstale, drain_handover hback hnotify
      (by rw [stages_store_ne hne, stages_store_self]; exact hcomplete), store_over hne]
  exact (drain_settle (by rwa [stages_store_self])).trans (congrArg some store_store)

end Bank

end ColonyCore.Storm
