/-
  ColonyCore.Storm.Ladder
  **THE STAGES OF AN EQUIPMENT FORM A LADDER.**

  At most one stage cycles.  Those below it supplement it, those above it are off, and
  each knows the one below.  Every request of an equipment climbs at most one rung:

    • `Ladder.execute` — the active stage stays, in this cycle or the other,
    • `Ladder.requestOn`, `Ladder.requestAsSupplement`, `Ladder.requestOff` — on to the first
      rung, one up, one down,
    • `Standing.requestModeToOff` — a stage is off, whatever the others do.
-/
import ColonyCore.Storm.Requests

namespace ColonyCore.Storm

open ColonyCore.System Function

/-- The output of a stage at rest. -/
def Rest.value : Rest → Nat
  | .off => VIRTUAL_OUTPUTS_OFF
  | .cycling c => c.value
  | .supplementing => VIRTUAL_OUTPUTS_ON

namespace Bank

variable {n : Nat}

/-! ## §1. The ladder. -/

/-- The stage that is cycling and its cycle, or no stage. -/
abbrev Top (n : Nat) := Option (Fin n × CyclingState)

/-- Where each stage is when stage `k` is in cycle `c`, or no stage in any. -/
def restAt (top : Top n) (i : Fin n) : Rest :=
  match top with
  | none => .off
  | some (k, c) => if i < k then .supplementing else if i = k then .cycling c else .off

/-- The place of a stage object, with pointers only to calls before `bound`. -/
structure Wired (port : Fin n → Port) (bound : Nat) (i : Fin n) (s : Stage n) : Prop where
  index : s.systemIndex.val = i.val
  port : s.output.port = port i
  older : ∀ p, s.args = some p → p < bound

/-- The stage knows whether there is a stage below it, and which. -/
structure Linked (i : Fin n) (s : Stage n) : Prop where
  first : i.val = 0 → s.supplemented = false
  next : i.val ≠ 0 → s.supplemented = true ∧ ∃ j, s.prevStage = some j ∧ j.val + 1 = i.val
  pointer : s.args ≠ none

/-- **A rung**: the stage rests in `r`. -/
structure Rung (port : Fin n → Port) (bound : Nat) (i : Fin n) (r : Rest) (s : Stage n) :
    Prop where
  quiet : Quiet s
  rests : s.At r
  wired : Wired port bound i s
  linked : r ≠ .off → Linked i s

/-- Every stage rests somewhere. -/
def Standing (port : Fin n → Port) (bound : Nat) (r : Fin n → Rest) (b : Bank n) : Prop :=
  ∀ i, Rung port bound i (r i) (b.stages i)

/-- The stages rest as a ladder with this top, during a call. -/
abbrev OnLadder (port : Fin n → Port) (top : Top n) (b : Bank n) : Prop :=
  Standing port (b.memory.call + 1) (restAt top) b

/-- **The outputs of the ladder.** -/
structure Outputs (port : Fin n → Port) (top : Top n)
    (vOutputs : VirtualOutputs) (systemOn : Bool) : Prop where
  level : ∀ i, vOutputs.level (port i) = (restAt top i).value
  systemOn : systemOn = top.isSome

/-- The outputs of the ladder in the arguments of a call. -/
def HasOutputs (port : Fin n → Port) (top : Top n) (a : Args) : Prop :=
  Outputs port top a.vOutputs a.systemOn

/-- **A step on the ladder**: of the memory only the arguments of the call in progress have
    changed, and if the outputs were those of the ladder they still are. -/
structure Climb (port : Fin n → Port) (top : Top n) (b : Bank n)
    (top' : Top n) (b' : Bank n) : Prop where
  standing : OnLadder port top' b'
  memory : b'.memory = { b.memory with args := b'.memory.args }
  same : Args.Same b.memory.args b'.memory.args
  outputs : HasOutputs port top b.memory.args → HasOutputs port top' b'.memory.args

variable {port : Fin n → Port} {b b' b'' : Bank n} {top top' top'' : Top n}
  {i j : Fin n} {s s' : Stage n} {r : Rest} {c d : CyclingState} {bound : Nat}

theorem Climb.refl (h : OnLadder port top b) :
    Climb port top b top b := ⟨h, rfl, .refl _, id⟩

theorem Climb.trans (h : Climb port top b top' b') (h' : Climb port top' b' top'' b'') :
    Climb port top b top'' b'' where
  standing := h'.standing
  memory := by rw [h'.memory, h.memory]
  same := h.same.trans h'.same
  outputs := fun houtputs => h'.outputs (h.outputs houtputs)

theorem restAt_self : restAt (some (i, c)) i = .cycling c := by simp [restAt]

theorem restAt_lt (h : i < j) : restAt (some (j, c)) i = .supplementing := by simp [restAt, h]

theorem restAt_gt (h : j < i) : restAt (some (j, c)) i = .off := by
  simp [restAt, not_lt.mpr h.le, h.ne']

/-- The stages elsewhere are where they are, whatever cycle the active one is in. -/
theorem restAt_ne (h : i ≠ j) : restAt (some (j, c)) i = restAt (some (j, d)) i := by
  simp [restAt, h]

theorem restAt_cycling (h : restAt top i = .cycling c) : top = some (i, c) := by
  unfold restAt at h
  split at h
  · cases h
  · split at h
    · cases h
    · split at h
      next hik =>
        cases h
        rw [hik]
      next => cases h

theorem restAt_next {k : Fin n} (hij : j.val = i.val + 1) (hi : k ≠ i) (hj : k ≠ j) :
    restAt (some (j, d)) k = restAt (some (i, c)) k := by
  have hlt : k < j ↔ k < i := by
    omega
  simp [restAt, hi, hj, hlt]

/-- A stage object with the arguments of a call. -/
theorem Wired.repointed {call : Nat} (h : Wired port bound i s)
    (hindex : s'.systemIndex = s.systemIndex) (houtput : s'.output = s.output)
    (hargs : s'.args = some call) :
    Wired port (call + 1) i s' where
  index := hindex ▸ h.index
  port := houtput ▸ h.port
  older := fun p hp => by
    rw [hargs] at hp
    cases hp
    exact Nat.lt_succ_self _

variable {a' : Args}

theorem Rung.of_cycles {a : Args} (h : Stage.Cycles s a d s' a') (hwired : Wired port bound i s)
    (hlinked : Linked i s) : Rung port bound i (.cycling d) s' := by
  have hrests := h.rests
  rw [h.stage] at hrests ⊢
  exact ⟨⟨rfl, rfl⟩, hrests, ⟨hwired.index, hwired.port, hwired.older⟩,
    fun _ => ⟨hlinked.first, hlinked.next, hlinked.pointer⟩⟩

section

variable (hport : Injective port) (h : OnLadder port top b)

include hport h

/-- One stage moves. -/
theorem Standing.climb (hrest : ∀ k, k ≠ i → restAt top' k = restAt top k)
    (hrung : Rung port (b.memory.call + 1) i (restAt top' i) s')
    (hsame : Args.Same b.memory.args a')
    (hlevel : HasOutputs port top b.memory.args → a'.vOutputs.level
      = update b.memory.args.vOutputs.level (port i) (restAt top' i).value)
    (hon : HasOutputs port top b.memory.args → a'.systemOn = top'.isSome) :
    Climb port top b top' (b.store i s' { b.memory with args := a' }) := by
  refine ⟨?_, rfl, hsame, fun houtputs => ⟨fun k => ?_, hon houtputs⟩⟩
  · exact (forall_update_iff b.stages fun k s => Rung port _ k (restAt top' k) s).mpr
      ⟨hrung, fun k hk => hrest k hk ▸ h k⟩
  · show a'.vOutputs.level (port k) = _
    rw [hlevel houtputs]
    rcases eq_or_ne k i with rfl | hk
    · exact update_self _ _ _
    · rw [update_of_ne (hport.ne hk), hrest k hk]
      exact houtputs.level k

/-- Two neighbours move. -/
theorem Standing.climb₂ (hrest : ∀ k, k ≠ i → k ≠ j → restAt top' k = restAt top k)
    (hi : Rung port (b.memory.call + 1) i (restAt top' i) s)
    (hj : Rung port (b.memory.call + 1) j (restAt top' j) s') (hsame : Args.Same b.memory.args a')
    (hlevel : a'.vOutputs.level = update (update b.memory.args.vOutputs.level
      (port j) (restAt top' j).value) (port i) (restAt top' i).value)
    (hon : HasOutputs port top b.memory.args → a'.systemOn = top'.isSome) :
    Climb port top b top' ((b.store j s' b.memory).store i s { b.memory with args := a' }) := by
  refine ⟨fun k => ?_, rfl, hsame, fun houtputs => ⟨fun k => ?_, hon houtputs⟩⟩
  · rcases eq_or_ne k i with rfl | hki
    · rwa [stages_store_self]
    · rw [stages_store_ne hki]
      rcases eq_or_ne k j with rfl | hkj
      · rwa [stages_store_self]
      · rw [stages_store_ne hkj, hrest k hki hkj]
        exact h k
  · show a'.vOutputs.level (port k) = _
    rw [hlevel]
    rcases eq_or_ne k i with rfl | hki
    · exact update_self _ _ _
    · rw [update_of_ne (hport.ne hki)]
      rcases eq_or_ne k j with rfl | hkj
      · exact update_self _ _ _
      · rw [update_of_ne (hport.ne hkj), hrest k hki hkj]
        exact houtputs.level k

end

/-! ## §2. Requests. -/

theorem level_eq_update {v : VirtualOutputs} {p : Port} {x : Nat} (h : v.level p = x) :
    v.level = update v.level p x := by
  rw [← h, update_eq_self]

/-- A stage that stays where it is, with the arguments of the call. -/
theorem Standing.stays (hport : Injective port)
    (h : OnLadder port top b)
    (hrung : Rung port (b.memory.call + 1) i (restAt top i) s')
    (hsame : Args.Same b.memory.args a') (hout : a'.vOutputs = b.memory.args.vOutputs)
    (hon : a'.systemOn = b.memory.args.systemOn) :
    Climb port top b top (b.store i s' { b.memory with args := a' }) :=
  h.climb hport (fun _ _ => rfl) hrung hsame
    (fun houtputs => by rw [hout]; exact level_eq_update (houtputs.level i))
    (fun houtputs => hon.trans houtputs.systemOn)

/-- A stage with the arguments of the call, where it was. -/
theorem Rung.repointed {call : Nat} (h : Rung port (call + 1) i r s) (hvars : s'.vars = s.vars)
    (hquiet : Quiet s') (hindex : s'.systemIndex = s.systemIndex) (houtput : s'.output = s.output)
    (hargs : s'.args = some call) (hlinked : r ≠ .off → Linked i s') :
    Rung port (call + 1) i r s' :=
  ⟨hquiet, Stage.At.congr h.rests hvars, h.wired.repointed hindex houtput hargs, hlinked⟩

variable [CycleTimes]

/-- A request that the stage ignores. -/
theorem Standing.ignored (hport : Injective port)
    (h : OnLadder port top b)
    (hrung : Rung port (b.memory.call + 1) i (restAt top i) s) (msg : Event)
    (hmsg : Stage.Ignores (restAt top i) msg) :
    ∃ b', (b.store i s b.memory).send i msg = some b' ∧ Climb port top b top b' :=
  ⟨_, send_ignored hrung.quiet hrung.rests hmsg, h.stays hport hrung (.refl _) rfl rfl⟩

/-- A request that the cycle does not look at: it goes on, or the other one begins. -/
theorem Standing.harmless (hport : Injective port)
    (h : OnLadder port (some (i, c)) b) {msg : Event}
    (hrung : Rung port (b.memory.call + 1) i (.cycling c) s) (hlive : s.Live b.memory)
    (hmsg : Stage.Harmless msg) :
    ∃ b' d, (b.store i s b.memory).send i msg = some b'
      ∧ Climb port (some (i, c)) b (some (i, d)) b' := by
  obtain ⟨s', a', hsend, hresult⟩ := send_harmless hrung.quiet hrung.rests hlive hmsg
  cases hexp : s.expired b.memory.args c with
  | true =>
    rw [hexp] at hresult
    have hcycles : Stage.Cycles _ _ _ _ _ := hresult
    refine ⟨_, c.other, hsend, h.climb hport (fun k hk => restAt_ne hk) ?_ hcycles.same
      (fun _ => ?_) (fun houtputs => hcycles.systemOn.trans houtputs.systemOn)⟩
    · rw [restAt_self]
      exact Rung.of_cycles hcycles hrung.wired (hrung.linked Rest.noConfusion)
    · rw [hcycles.level, restAt_self, ← hrung.wired.port]
      rfl
  | false =>
    rw [hexp] at hresult
    obtain ⟨rfl, rfl⟩ := hresult
    obtain ⟨hsame, hout, hon, _⟩ := s'.checked_spec b.memory.args c
    exact ⟨_, c, hsend, h.stays hport (restAt_self.symm ▸ hrung) hsame hout hon⟩

/-- **`execute`** moves no stage, but the active one may go on to its other cycle. -/
theorem Standing.execute (hport : Injective port)
    (h : OnLadder port top b) (i : Fin n) :
    ∃ b' top', b.execute i = some b' ∧ Climb port top b top' b' := by
  have hrung : Rung port (b.memory.call + 1) i (restAt top i)
      { b.stages i with args := some b.memory.call } :=
    (h i).repointed rfl (h i).quiet rfl rfl rfl fun hne =>
      ⟨((h i).linked hne).first, ((h i).linked hne).next, Option.some_ne_none _⟩
  cases hr : restAt top i with
  | cycling c =>
    obtain rfl := restAt_cycling hr
    rw [hr] at hrung
    obtain ⟨b', d, hsend, hclimb⟩ := h.harmless hport hrung rfl (.inl rfl)
    exact ⟨b', _, hsend, hclimb⟩
  | off =>
    obtain ⟨b', hsend, hclimb⟩ := h.ignored hport hrung .noMsg (hr ▸ Event.noConfusion)
    exact ⟨b', _, hsend, hclimb⟩
  | supplementing =>
    obtain ⟨b', hsend, hclimb⟩ := h.ignored hport hrung .noMsg
      (hr ▸ ⟨Event.noConfusion, Event.noConfusion⟩)
    exact ⟨b', _, hsend, hclimb⟩

omit [CycleTimes] in
theorem lt_of_first {k : Fin n} (hi : i.val = 0) (hk : k ≠ i) : i < k := by
  rw [Fin.lt_def, hi]
  exact Nat.pos_of_ne_zero fun hk' => hk (Fin.ext (hk'.trans hi.symm))

omit [CycleTimes] in
theorem restAt_first_off (hi : i.val = 0) (h : restAt top i = .off) : top = none := by
  cases top with
  | none => rfl
  | some t =>
    obtain ⟨k, c⟩ := t
    by_cases hk : k = i
    · subst hk
      rw [restAt_self] at h
      cases h
    · rw [restAt_lt (lt_of_first hi hk)] at h
      cases h

section

variable (hport : Injective port) (h : OnLadder port top b)

include hport h

/-- **`requestOn`** at the first stage: it starts if all are off. -/
theorem Standing.requestOn (hi : i.val = 0) :
    ∃ b' top', b.requestOn i = some b' ∧ Climb port top b top' b' ∧ restAt top' i ≠ .off := by
  have hrung : Rung port (b.memory.call + 1) i (restAt top i) (first (b.stages i) b.memory.call) :=
    (h i).repointed rfl (h i).quiet rfl rfl rfl fun hne =>
      ⟨fun _ => rfl, fun hne' => absurd hi hne', Option.some_ne_none _⟩
  cases hr : restAt top i with
  | cycling c =>
    obtain rfl := restAt_cycling hr
    rw [hr] at hrung
    obtain ⟨b', d, hsend, hclimb⟩ := h.harmless hport hrung rfl (.inr rfl)
    exact ⟨b', _, hsend, hclimb, by rw [restAt_self]; exact Rest.noConfusion⟩
  | supplementing =>
    obtain ⟨b', hsend, hclimb⟩ := h.ignored hport hrung .evOnRequest
      (hr ▸ ⟨Event.noConfusion, Event.noConfusion⟩)
    exact ⟨b', top, hsend, hclimb, by rw [hr]; exact Rest.noConfusion⟩
  | off =>
    obtain rfl := restAt_first_off hi hr
    obtain ⟨s', a', hrequest, hcycles⟩ := requestOn_eq (h i).quiet (h i).rests
    obtain ⟨hsame, _, hon, hlevel⟩ := (b.stages i).activated_spec b.memory.args
    have hindex : (b.stages i).systemIndex = 0 := Fin.ext ((h i).wired.index.trans hi)
    refine ⟨_, some (i, Stage.restsIn b.memory.args .OnCycle), hrequest,
      h.climb hport (fun k hk => restAt_gt (lt_of_first hi hk)) ?_ (hsame.trans hcycles.same)
      (fun _ => ?_) (fun _ => ?_), by rw [restAt_self]; exact Rest.noConfusion⟩
    · rw [restAt_self]
      exact Rung.of_cycles hcycles hrung.wired
        ⟨fun _ => rfl, fun hne => absurd hi hne, Option.some_ne_none _⟩
    · rw [hcycles.level, hlevel, restAt_self, ← (h i).wired.port]
      exact update_idem _ _ _
    · rw [hcycles.systemOn, hon, if_pos hindex]
      rfl

/-- **`requestAsSupplement`**, with the stage above: if the stage is the active one, that
    stage is now. -/
theorem Standing.requestAsSupplement (hij : j.val = i.val + 1) :
    ∃ b' top', b.requestAsSupplement i j = some b' ∧ Climb port top b top' b' := by
  have hrung : Rung port (b.memory.call + 1) i (restAt top i)
      (needing (b.stages i) b.memory.call j) :=
    (h i).repointed rfl (h i).quiet rfl rfl rfl fun hne =>
      ⟨((h i).linked hne).first, ((h i).linked hne).next, Option.some_ne_none _⟩
  cases hr : restAt top i with
  | off =>
    obtain ⟨b', hsend, hclimb⟩ := h.ignored hport hrung .evNeedMoreCapacity
      (hr ▸ Event.noConfusion)
    exact ⟨b', _, hsend, hclimb⟩
  | supplementing =>
    obtain ⟨b', hsend, hclimb⟩ := h.ignored hport hrung .evNeedMoreCapacity
      (hr ▸ ⟨Event.noConfusion, Event.noConfusion⟩)
    exact ⟨b', _, hsend, hclimb⟩
  | cycling c =>
    obtain rfl := restAt_cycling hr
    have hlt : i < j := by
      rw [Fin.lt_def]
      omega
    have hi := h i
    have hj := h j
    rw [restAt_self] at hi
    rw [restAt_gt hlt] at hj
    obtain ⟨s', a', hrequest, hcycles⟩ :=
      requestAsSupplement_eq hlt.ne hi.quiet hj.quiet hi.rests hj.rests
    obtain ⟨hsame, hout, hon, _⟩ := (b.stages i).checked_spec b.memory.args c
    obtain ⟨hsame', _, hon', _, hlevel'⟩ := (b.stages i).switched_spec a' .OnCycle
    have hlinked := hi.linked Rest.noConfusion
    refine ⟨_, some (j, Stage.restsIn ((b.stages i).checked b.memory.args c) .OnCycle), hrequest,
      h.climb₂ hport (fun k hki hkj => restAt_next hij hki hkj) ?_ ?_
      ((hsame.trans hcycles.same).trans hsame') ?_ (fun houtputs => ?_)⟩
    · rw [restAt_lt hlt]
      exact ⟨hi.quiet, rfl, hi.wired.repointed rfl rfl rfl,
        fun _ => ⟨hlinked.first, hlinked.next, Option.some_ne_none _⟩⟩
    · rw [restAt_self]
      exact Rung.of_cycles hcycles (hj.wired.repointed rfl rfl rfl)
        ⟨fun hzero => absurd hzero (by omega), fun _ => ⟨rfl, i, rfl, hij.symm⟩,
          Option.some_ne_none _⟩
    · rw [hlevel', hcycles.level, hout, restAt_self, restAt_lt hlt, ← hi.wired.port,
        ← hj.wired.port]
      rfl
    · rw [hon', hcycles.systemOn, hon, houtputs.systemOn]
      rfl

end

/-- **`requestOff`** of the active stage: the one below is active again, if there is one. -/
theorem Standing.requestOff (hport : Injective port)
    (h : OnLadder port (some (i, c)) b) :
    ∃ b' top', b.requestOff i = some b' ∧ Climb port (some (i, c)) b top' b' := by
  have hi := h i
  rw [restAt_self] at hi
  have hlinked := hi.linked Rest.noConfusion
  obtain ⟨hsame, hout, hon, _⟩ := (b.stages i).checked_spec b.memory.args c
  by_cases hzero : i.val = 0
  · -- the first stage stops
    obtain ⟨hsame', hon', hlevel'⟩ := (b.stages i).stopped_spec ((b.stages i).checked b.memory.args c)
    have hindex : (b.stages i).systemIndex = 0 := Fin.ext (hi.wired.index.trans hzero)
    refine ⟨_, none, requestOff_first hi.quiet hi.rests (hlinked.first hzero),
      h.climb hport (fun k hk => (restAt_gt (lt_of_first hzero hk)).symm) ?_ (hsame.trans hsame')
      (fun _ => ?_) (fun _ => ?_)⟩
    · exact ⟨hi.quiet, rfl, hi.wired.repointed rfl rfl rfl, fun hne => absurd rfl hne⟩
    · rw [hlevel', hout, ← hi.wired.port]
      rfl
    · rw [hon', if_pos hindex]
      rfl
  · -- the stage below goes on in its place
    obtain ⟨hsupplemented, j, hprev, hji⟩ := hlinked.next hzero
    have hlt : j < i := by
      rw [Fin.lt_def]
      omega
    have hj := h j
    rw [restAt_lt hlt] at hj
    have hlinked' := hj.linked Rest.noConfusion
    obtain ⟨s', a', hrequest, hcycles⟩ :=
      requestOff_next hlt.ne' hi.quiet hj.quiet hi.rests hsupplemented hprev hj.rests
    obtain ⟨hsame', hon', hlevel'⟩ := (b.stages i).stopped_spec a'
    have hindex : (b.stages i).systemIndex ≠ 0 := fun h0 =>
      hzero (hi.wired.index.symm.trans (congrArg Fin.val h0))
    refine ⟨_, some (j, Stage.restsIn ((b.stages i).checked b.memory.args c) .OnCycle), hrequest,
      h.climb₂ hport (fun k hki hkj => (restAt_next hji.symm hkj hki).symm) ?_ ?_
      ((hsame.trans hcycles.same).trans hsame') ?_ (fun houtputs => ?_)⟩
    · rw [restAt_gt hlt]
      exact ⟨hi.quiet, rfl, hi.wired.repointed rfl rfl rfl, fun hne => absurd rfl hne⟩
    · rw [restAt_self]
      exact Rung.of_cycles hcycles (hj.wired.repointed rfl rfl rfl)
        ⟨hlinked'.first, hlinked'.next, Option.some_ne_none _⟩
    · rw [hlevel', hcycles.level, hout, restAt_self, restAt_gt hlt, ← hi.wired.port,
        ← hj.wired.port]
      rfl
    · rw [hon', if_neg hindex, hcycles.systemOn, hon, houtputs.systemOn]
      rfl

/-! ## §3. The operating mode changes. -/

omit [CycleTimes] in
theorem Rung.modeOff (h : Rung port bound i r s) : Rung port bound i .off s.modeOff where
  quiet := ⟨rfl, rfl⟩
  rests := rfl
  wired := ⟨h.wired.index, h.wired.port, fun _ hp => by cases hp⟩
  linked := fun hne => absurd rfl hne

omit [CycleTimes] in
theorem Standing.store {m : Memory} {rests : Fin n → Rest} (h : Standing port bound rests b)
    (hrung : Rung port bound i .off s) :
    Standing port bound (update rests i .off) (b.store i s m) := by
  intro k
  by_cases hk : k = i
  · subst hk
    rwa [stages_store_self, update_self]
  · rw [stages_store_ne hk, update_of_ne hk]
    exact h k

/-- **`requestModeToOff`**: the stage is off, and if it was active it has used the arguments
    of an earlier call. -/
theorem Standing.requestModeToOff {rests : Fin n → Rest}
    (h : Standing port b.memory.call rests b) (i : Fin n) :
    ∃ s' d, b.requestModeToOff i = some (b.store i s' { b.memory with
          dead := d, usedDead := b.memory.usedDead || (b.stages i).isActive })
      ∧ Rung port b.memory.call i .off s' := by
  have hrung := h i
  cases hr : rests i with
  | off =>
    rw [hr] at hrung
    have hactive : (b.stages i).isActive = false := by
      rw [Stage.isActive, show (b.stages i).vars.stateVar = .Off from hrung.rests]
      rfl
    have hignores : Stage.Ignores .off .evOffModeRequest := Event.noConfusion
    have hsend := send_ignored (b := b) (i := i) (m := b.memory) hrung.quiet hrung.rests hignores
    rw [store_self] at hsend
    refine ⟨b.stages i, b.memory.dead, ?_, hrung⟩
    rw [hactive, Bool.or_false, store_self]
    exact hsend
  | supplementing =>
    rw [hr] at hrung
    have hactive : (b.stages i).isActive = false := by
      rw [Stage.isActive,
        show (b.stages i).vars.stateVar = .SupplementingNextStage from hrung.rests]
      rfl
    refine ⟨_, b.memory.dead, ?_, hrung.modeOff⟩
    rw [hactive, Bool.or_false]
    exact requestModeToOff_supplementing hrung.quiet hrung.rests
  | cycling c =>
    rw [hr] at hrung
    have hactive : (b.stages i).isActive = true := by
      rw [Stage.isActive, hrung.rests.active]
      rfl
    have hlinked := hrung.linked Rest.noConfusion
    obtain ⟨p, hp⟩ := Option.ne_none_iff_exists'.mp hlinked.pointer
    have hdead : p ≠ b.memory.call := (hrung.wired.older p hp).ne
    obtain ⟨d, hrequest⟩ := requestModeToOff_cycling hrung.quiet hrung.rests hp hdead
    refine ⟨_, d, ?_, hrung.modeOff⟩
    rw [hactive, Bool.or_true]
    exact hrequest

end Bank

end ColonyCore.Storm
