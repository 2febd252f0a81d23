/-
  ColonyCore.System.TimerRefinement
  **THE TIMER MANAGER IMPLEMENTS THE TIMER SERVICE.**

  `Refines` ties a machine to the service: the due times of its two lists are those
  of the running timers.  There are two situations: outside `processTimers` (`Idle`)
  and inside, between two callbacks (`Ticking`).  One lemma per operation says how it
  moves between them and what the service does.
-/
import ColonyCore.System.TimerManager

namespace ColonyCore.System

open DeltaList Function List

variable {τ : Type}

/-! ## §1. Without overflow, the lists are delta lists. -/

theorem ulAdd_of_lt {w a b : Nat} (h : a + b < 2 ^ w) : ulAdd w a b = a + b :=
  Nat.mod_eq_of_lt h

theorem ulSub_of_le {w a b : Nat} (h : b ≤ a) (ha : a < 2 ^ w) : ulSub w a b = a - b := by
  unfold ulSub
  rw [show a + 2 ^ w - b = (a - b) + 2 ^ w by omega, Nat.add_mod_right]
  exact Nat.mod_eq_of_lt (by omega)

/-- All due times are in the range of the counters. -/
def Bounded (w base : Nat) (l : List (τ × Nat)) : Prop := ∀ p ∈ dues base l, p.2 < 2 ^ w

theorem Bounded.tail {w base c : Nat} {t : τ} {rest : List (τ × Nat)}
    (h : Bounded w base ((t, c) :: rest)) : base + c < 2 ^ w ∧ Bounded w (base + c) rest :=
  ⟨h _ mem_cons_self, fun p hp => h p (mem_cons_of_mem _ hp)⟩

namespace TimerManager

theorem addToActiveList_eq {w : Nat} (t : τ) (l : List (τ × Nat)) : ∀ base c, base + c < 2 ^ w →
    Bounded w base l → addToActiveList w t c l = DeltaList.insert t c l := by
  induction l with
  | nil => intro base c _ _; rfl
  | cons p rest ih =>
    obtain ⟨u, k⟩ := p
    intro base c hc hl
    obtain ⟨hk, hrest⟩ := hl.tail
    unfold addToActiveList DeltaList.insert
    by_cases hlt : c < k
    · rw [if_pos hlt, if_pos hlt, ulSub_of_le (by omega) (by omega)]
    · rw [if_neg hlt, if_neg hlt, ulSub_of_le (by omega) (by omega)]
      by_cases htie : c - k = 0
      · rw [if_pos htie, if_pos htie, htie]
      · rw [if_neg htie, if_neg htie, ih (base + k) (c - k) (by omega) hrest]

theorem incrementNext_eq {w base c : Nat} {l : List (τ × Nat)} (h : Bounded w (base + c) l) :
    incrementNext w c l = bump c l := by
  cases l with
  | nil => rfl
  | cons p rest =>
    obtain ⟨hk, -⟩ := h.tail
    rw [incrementNext, bump, ulAdd_of_lt (by omega)]

theorem removeCounter_eq [DecidableEq τ] {w : Nat} (t : τ) (l : List (τ × Nat)) :
    ∀ base, Bounded w base l →
    removeCounter w t l = remove t l := by
  induction l with
  | nil => intro base _; rfl
  | cons p rest ih =>
    obtain ⟨u, c⟩ := p
    intro base hl
    obtain ⟨-, hrest⟩ := hl.tail
    unfold removeCounter remove
    rw [incrementNext_eq hrest, ih (base + c) hrest]

end TimerManager

/-! ## §2. The due times of a manager. -/

/-- The due times of timers that wait for the end of the processing. -/
def pendingDues (timeNow : Nat) (l : List (τ × Nat)) : List (τ × Nat) :=
  l.map fun p => (p.1, timeNow + p.2)

namespace TimerManager

variable (m : TimerManager τ)

/-- The due times of all timers, when the active list counts from `base`. -/
def allDues (base : Nat) : List (τ × Nat) :=
  dues base m.counters ++ pendingDues m.timeNow m.pendingAttach

/-- The timers in the two lists. -/
def allKeys : List τ := keys m.counters ++ keys m.pendingAttach

theorem keys_allDues (base : Nat) : keys (m.allDues base) = m.allKeys := by
  unfold allDues allKeys
  rw [← keys_dues base m.counters]
  simp [DeltaList.keys, pendingDues]

/-- A timer of a list is found there with its count. -/
theorem lookup_eq_none_iff [DecidableEq τ] {l : List (τ × Nat)} {t : τ} :
    l.lookup t = none ↔ t ∉ keys l := by
  simp only [DeltaList.keys]
  grind

variable [DecidableEq τ]

theorem filter_eq_self_of_not_mem {l : List (τ × Nat)} {t : τ} (h : t ∉ keys l) :
    (l.filter fun p => p.1 ≠ t) = l := by
  rw [filter_eq_self]
  intro p hp
  rw [decide_eq_true_iff]
  rintro rfl
  exact h (mem_map_of_mem hp)

/-- What a detach leaves unchanged. -/
theorem detach_frame (w : Nat) (m : TimerManager τ) (t : τ) :
    (m.detach w t).timeNow = m.timeNow ∧ (m.detach w t).timeMark = m.timeMark
      ∧ (m.detach w t).inTickCall = m.inTickCall := by
  unfold detach
  split
  · exact ⟨rfl, rfl, rfl⟩
  · split
    · exact ⟨rfl, rfl, rfl⟩
    · exact ⟨rfl, rfl, rfl⟩

/-- **A detach** takes the timer out of the due times, wherever it stands. -/
theorem allDues_detach {w base : Nat} {m : TimerManager τ} (hnodup : m.allKeys.Nodup)
    (hbound : ∀ p ∈ m.allDues base, p.2 < 2 ^ w) (t : τ) :
    (m.detach w t).allDues base = (m.allDues base).filter fun p => p.1 ≠ t := by
  obtain ⟨hactive, -, hdisjoint⟩ := nodup_append.mp hnodup
  have hcounters : Bounded w base m.counters := fun p hp => hbound p (mem_append_left _ hp)
  have hpending : ∀ l : List (τ × Nat), pendingDues m.timeNow (l.filter fun p => p.1 ≠ t)
      = (pendingDues m.timeNow l).filter fun p => p.1 ≠ t := by
    intro l
    rw [pendingDues, pendingDues, filter_map]
    rfl
  have hout : ∀ l : List (τ × Nat), t ∉ keys l →
      ((dues base l).filter fun p => p.1 ≠ t) = dues base l := by
    intro l hl
    exact filter_eq_self_of_not_mem (by rwa [keys_dues])
  unfold detach
  split
  next c hfound =>
    -- in the pending list, so not in the active one
    have hmem : t ∈ keys m.pendingAttach := by
      by_contra hno
      rw [lookup_eq_none_iff.mpr hno] at hfound
      cases hfound
    have hno : t ∉ keys m.counters := fun h => hdisjoint t h t hmem rfl
    show dues base m.counters ++ pendingDues m.timeNow (m.pendingAttach.filter fun p => p.1 ≠ t) = _
    rw [allDues, filter_append, hpending, hout _ hno]
  next hnone =>
    have hno : t ∉ keys m.pendingAttach := lookup_eq_none_iff.mp hnone
    have hsame : ((pendingDues m.timeNow m.pendingAttach).filter fun p => p.1 ≠ t)
        = pendingDues m.timeNow m.pendingAttach := by
      rw [← hpending, filter_eq_self_of_not_mem hno]
    split
    next c hfound =>
      show dues base (removeCounter w t m.counters) ++ pendingDues m.timeNow m.pendingAttach = _
      rw [allDues, filter_append, hsame, removeCounter_eq t _ base hcounters,
          dues_remove t hactive]
    next hnone' =>
      rw [allDues, filter_append, hsame, hout _ (lookup_eq_none_iff.mp hnone')]

end TimerManager

/-! ## §3. Managers that track the service. -/

/-- **The due times of the two lists are those of the running timers**, each timer
stands in one list only, and all times are in range. -/
structure Tracks (w base : Nat) (m : TimerManager τ) (running : τ → Option (Nat × Nat)) : Prop where
  nodup : m.allKeys.Nodup
  due : ∀ t y, (t, y) ∈ m.allDues base ↔ ∃ x d, running t = some (x, d) ∧ x + d = y
  bounded : ∀ p ∈ m.allDues base, p.2 < 2 ^ w

section Tracks

variable {w base : Nat} {m m' : TimerManager τ} {running : τ → Option (Nat × Nat)}

/-- Whoever runs stands in a list, and whoever stands in a list runs. -/
theorem Tracks.mem_allKeys (h : Tracks w base m running) (t : τ) :
    t ∈ m.allKeys ↔ running t ≠ none := by
  rw [← m.keys_allDues base, DeltaList.keys, mem_map]
  constructor
  · rintro ⟨p, hp, rfl⟩
    obtain ⟨x, d, hrun, -⟩ := (h.due p.1 p.2).mp hp
    simp [hrun]
  · intro hrun
    obtain ⟨⟨x, d⟩, hxd⟩ := Option.ne_none_iff_exists'.mp hrun
    exact ⟨(t, x + d), (h.due t (x + d)).mpr ⟨x, d, hxd, rfl⟩, rfl⟩

/-- The order of the due times does not matter. -/
theorem Tracks.of_perm (h : Tracks w base m running) {base' : Nat}
    (hperm : (m'.allDues base').Perm (m.allDues base)) : Tracks w base' m' running where
  nodup := by
    have hkeys := hperm.map Prod.fst
    change (keys (m'.allDues base')).Perm (keys (m.allDues base)) at hkeys
    rw [TimerManager.keys_allDues, TimerManager.keys_allDues] at hkeys
    exact hkeys.nodup_iff.mpr h.nodup
  due := by
    intro t y
    rw [hperm.mem_iff]
    exact h.due t y
  bounded := fun p hp => h.bounded p (hperm.mem_iff.mp hp)

/-- `tickComplete` moves the pending timers to the active list. -/
theorem dues_foldl_insert {w timeNow : Nat} (pending : List (τ × Nat)) : ∀ (l : List (τ × Nat)),
    Bounded w timeNow l → (∀ p ∈ pending, timeNow + p.2 < 2 ^ w) →
    (dues timeNow (pending.foldl (fun l p => TimerManager.addToActiveList w p.1 p.2 l) l)).Perm
      (dues timeNow l ++ pendingDues timeNow pending) := by
  -- on the pending list; the active list grows
  induction pending with
  | nil =>
    simp [pendingDues]
  | cons p rest ih =>
    intro l hl hp
    obtain ⟨hp₁, hrest⟩ := forall_mem_cons.mp hp
    have hinsert := dues_insert p.1 l timeNow p.2
    have hl' : Bounded w timeNow (DeltaList.insert p.1 p.2 l) := by
      intro q hq
      rcases mem_cons.mp (hinsert.mem_iff.mp hq) with rfl | hq
      · exact hp₁
      · exact hl q hq
    rw [foldl_cons, TimerManager.addToActiveList_eq p.1 l timeNow p.2 hp₁ hl]
    refine (ih _ hl' hrest).trans ?_
    refine (hinsert.append_right _).trans ?_
    exact perm_middle.symm

/-- At the end of the processing the active list counts from the new time mark. -/
theorem Tracks.tickComplete (h : Tracks w m.timeNow m running) :
    Tracks w m.timeNow (m.tickComplete w) running := by
  refine h.of_perm ?_
  have hcounters : Bounded w m.timeNow m.counters :=
    fun p hp => h.bounded p (mem_append_left _ hp)
  have hpending : ∀ p ∈ m.pendingAttach, m.timeNow + p.2 < 2 ^ w := by
    intro p hp
    exact h.bounded (p.1, m.timeNow + p.2) (mem_append_right _ (mem_map_of_mem hp))
  show (dues m.timeNow _ ++ pendingDues m.timeNow []).Perm _
  rw [pendingDues, map_nil, append_nil]
  exact dues_foldl_insert m.pendingAttach m.counters hcounters hpending

variable [DecidableEq τ]

variable {t : τ}

variable (h : Tracks w base m running)

include h

/-- One timer less. -/
theorem Tracks.remove {base' : Nat}
    (hdues : (m'.allDues base').Perm ((m.allDues base).filter fun p => p.1 ≠ t)) :
    Tracks w base' m' (update running t none) where
  nodup := by
    have hkeys := hdues.map Prod.fst
    change (keys (m'.allDues base')).Perm _ at hkeys
    rw [TimerManager.keys_allDues] at hkeys
    refine hkeys.nodup_iff.mpr ?_
    have hsub : ((m.allDues base).filter fun p => p.1 ≠ t).Sublist (m.allDues base) :=
      filter_sublist
    have hnodup := h.nodup
    rw [← m.keys_allDues base] at hnodup
    exact (hsub.map Prod.fst).nodup hnodup
  due := by
    intro u y
    rw [hdues.mem_iff, mem_filter, h.due]
    by_cases hu : u = t
    · subst hu
      simp
    · simp [hu]
  bounded := fun p hp => h.bounded p (mem_of_mem_filter (hdues.mem_iff.mp hp))

/-- One timer more. -/
theorem Tracks.add {x d : Nat} (hfree : running t = none) (hlt : x + d < 2 ^ w)
    (hdues : (m'.allDues base).Perm ((t, x + d) :: m.allDues base)) :
    Tracks w base m' (update running t (some (x, d))) where
  nodup := by
    have hkeys := hdues.map Prod.fst
    change (keys (m'.allDues base)).Perm (t :: keys (m.allDues base)) at hkeys
    rw [TimerManager.keys_allDues, TimerManager.keys_allDues] at hkeys
    refine hkeys.nodup_iff.mpr (nodup_cons.mpr ⟨?_, h.nodup⟩)
    rw [h.mem_allKeys]
    simp [hfree]
  due := by
    intro u y
    rw [hdues.mem_iff, mem_cons, h.due]
    by_cases hu : u = t
    · subst hu
      simp only [Prod.mk.injEq, true_and, hfree, update_self, Option.some.injEq, reduceCtorEq,
        false_and, exists_false, or_false]
      constructor
      · rintro rfl
        exact ⟨x, d, ⟨rfl, rfl⟩, rfl⟩
      · rintro ⟨x', d', ⟨rfl, rfl⟩, rfl⟩
        rfl
    · simp [hu]
  bounded := by
    intro p hp
    rcases mem_cons.mp (hdues.mem_iff.mp hp) with rfl | hp
    · exact hlt
    · exact h.bounded p hp

theorem Tracks.detach (t : τ) :
    Tracks w base (m.detach w t) (update running t none) :=
  h.remove (List.Perm.of_eq (TimerManager.allDues_detach h.nodup h.bounded t))

/-- **A start inside a callback**: the timer waits in the pending list. -/
theorem Tracks.attach_pending (htick : m.inTickCall = true) {x d c : Nat}
    (hfree : running t = none) (hlt : x + d < 2 ^ w) (hdue : m.timeNow + c = x + d) :
    Tracks w base (m.attach w t c) (update running t (some (x, d))) := by
  refine h.add hfree hlt ?_
  unfold TimerManager.attach
  rw [if_pos htick]
  show (dues base m.counters ++ pendingDues m.timeNow (m.pendingAttach ++ [(t, c)])).Perm _
  rw [pendingDues, map_append, ← append_assoc]
  simp only [map_cons, hdue]
  exact perm_append_singleton _ _

/-- **A start outside callbacks**: the timer is inserted into the active list. -/
theorem Tracks.attach_active (htick : m.inTickCall = false) {x d c : Nat}
    (hfree : running t = none) (hlt : x + d < 2 ^ w) (hdue : base + c = x + d) :
    Tracks w base (m.attach w t c) (update running t (some (x, d))) := by
  refine h.add hfree hlt ?_
  have hcounters : Bounded w base m.counters :=
    fun p hp => h.bounded p (mem_append_left _ hp)
  unfold TimerManager.attach
  rw [if_neg (by simp [htick])]
  rw [TimerManager.addToActiveList_eq t _ base c (by omega) hcounters, ← hdue]
  exact (dues_insert t m.counters base c).append_right _

end Tracks

/-! ## §4. The two situations of a machine. -/

/-- Outside `processTimers`: the active list counts from the time mark, nobody waits,
and every timer (but those of duration 0) is due later than the mark. -/
structure Idle (w : Nat) (m : TimerManager τ) (clock : Nat) (s : Service τ) : Prop where
  tracks : Tracks w m.timeMark m s.running
  mark_le : m.timeMark ≤ clock
  now_le : m.timeNow ≤ clock
  clock_lt : clock < 2 ^ w
  notInTick : m.inTickCall = false
  call : s.call = none
  nobody : m.pendingAttach = []
  later : ∀ t x d, s.running t = some (x, d) → 1 ≤ d → m.timeMark < x + d

/-- In `tick` with `msec` to go: the active list counts from the time reached, and
timers started meanwhile are due later than now. -/
structure Ticking (w : Nat) (m : TimerManager τ) (clock msec : Nat) (s : Service τ) : Prop where
  tracks : Tracks w (m.timeNow - msec) m s.running
  msec_le : msec ≤ m.timeNow
  now_le : m.timeNow ≤ clock
  clock_lt : clock < 2 ^ w
  inTick : m.inTickCall = true
  call : s.call = some m.timeNow
  waiting : ∀ t ∈ keys m.pendingAttach, ∀ x d, s.running t = some (x, d) → m.timeNow ≤ x

/-- **A machine refines the service.** -/
def Refines (w : Nat) (m : Machine τ) (s : Service τ) : Prop :=
  match m.callback with
  | none => Idle w m.mgr m.clock s
  | some msec => Ticking w m.mgr m.clock msec s

/-- The call in progress was made by now. -/
theorem Refines.call_le {w : Nat} {M : Machine τ} {s : Service τ} (h : Refines w M s) (now : Nat)
    (hcall : s.call = some now) : now ≤ M.clock := by
  obtain ⟨mgr, clock, callback⟩ := M
  cases callback with
  | none =>
    rw [Idle.call h] at hcall
    cases hcall
  | some k =>
    rw [Ticking.call h] at hcall
    cases hcall
    exact Ticking.now_le h

section Tick

variable {w clock msec : Nat} {m : TimerManager τ} {s : Service τ}

variable {running : τ → Option (Nat × Nat)}

/-- The timers of the active list run, with these due times. -/
theorem Tracks.of_mem_counters {base : Nat} {p : τ × Nat} (h : Tracks w base m running)
    (hp : p ∈ dues base m.counters) : ∃ x d, running p.1 = some (x, d) ∧ x + d = p.2 :=
  (h.due p.1 p.2).mp (mem_append_left _ hp)

/-- A running timer that does not wait is in the active list. -/
theorem Tracks.mem_counters {base : Nat} {t : τ} {x d : Nat} (h : Tracks w base m running)
    (hrun : running t = some (x, d)) (hno : t ∉ keys m.pendingAttach) :
    (t, x + d) ∈ dues base m.counters := by
  rcases mem_append.mp ((h.due t (x + d)).mpr ⟨x, d, hrun, rfl⟩) with hmem | hmem
  · exact hmem
  · obtain ⟨p, hp, hpt⟩ := mem_map.mp hmem
    obtain ⟨rfl, -⟩ := Prod.mk.inj hpt
    exact absurd (mem_map_of_mem hp) hno

/-- The active list counts from now on: the head has taken all the time there was. -/
theorem Ticking.advance (h : Ticking w m clock msec s) (counters : List (τ × Nat))
    (hdues : dues m.timeNow counters = dues (m.timeNow - msec) m.counters) :
    Ticking w { m with counters := counters } clock 0 s := by
  refine ⟨h.tracks.of_perm (List.Perm.of_eq ?_), Nat.zero_le _, h.now_le, h.clock_lt, h.inTick,
    h.call, h.waiting⟩
  show dues m.timeNow counters ++ _ = _
  rw [hdues]
  rfl

/-- **`processTimers` begins**: the time since the mark is to go. -/
theorem Idle.begin_ (h : Idle w m clock s) :
    Ticking w { m with timeNow := clock, inTickCall := true } clock (ulSub w clock m.timeMark)
      { s with call := some clock } := by
  have hsub : clock - (clock - m.timeMark) = m.timeMark := Nat.sub_sub_self h.mark_le
  rw [ulSub_of_le h.mark_le h.clock_lt]
  refine ⟨?_, Nat.sub_le _ _, Nat.le_refl _, h.clock_lt, rfl, rfl, ?_⟩
  · rw [hsub]
    refine h.tracks.of_perm (List.Perm.of_eq ?_)
    show dues m.timeMark m.counters ++ pendingDues clock m.pendingAttach
      = dues m.timeMark m.counters ++ pendingDues m.timeNow m.pendingAttach
    rw [h.nobody]
    rfl
  · intro u hwait
    rw [h.nobody] at hwait
    cases hwait

variable [DecidableEq τ]

/-- **The loop of `tick` ends**: nothing in the active list is due. -/
theorem Ticking.finish (h : Ticking w m clock 0 s)
    (hlate : ∀ t x d, s.running t = some (x, d) → (t, x + d) ∈ dues m.timeNow m.counters → 1 ≤ d
      → m.timeNow < x + d) :
    Service.Step s .finished { s with call := none }
      ∧ Idle w (m.tickComplete w) clock { s with call := none } := by
  have htracks : Tracks w m.timeNow m s.running := h.tracks
  have hall : ∀ t x d, s.running t = some (x, d) → 1 ≤ d → m.timeNow < x + d := by
    intro t x d hrun hd
    by_cases hwait : t ∈ keys m.pendingAttach
    · have := h.waiting t hwait x d hrun
      omega
    · exact hlate t x d hrun (htracks.mem_counters hrun hwait) hd
  refine ⟨Service.Step.finished s m.timeNow h.call hall, ?_⟩
  exact
    { tracks := htracks.tickComplete
      mark_le := h.now_le
      now_le := h.now_le
      clock_lt := h.clock_lt
      notInTick := rfl
      call := rfl
      nobody := rfl
      later := hall }

/-- A timer that runs when another has stopped ran before. -/
theorem of_update_none {t u : τ} {r : Nat × Nat}
    (h : update running t none u = some r) : running u = some r := by
  by_cases hu : u = t
  · subst hu
    rw [update_self] at h
    cases h
  · rwa [update_of_ne hu] at h

variable (h : Ticking w m clock msec s)

include h

/-- **A timer expires**: it was the head of the active list, and due at the time
reached. -/
theorem Ticking.expire {t : τ} {c : Nat} {rest : List (τ × Nat)}
    (hhead : m.counters = (t, c) :: rest) (hc : c ≤ msec) (left : τ → Nat) :
    Service.Step s (.expired t) { s with running := update s.running t none }
      ∧ Ticking w { m with counters := rest, left := left } clock (msec - c)
          { s with running := update s.running t none } := by
  have hle := h.msec_le
  have hmem : (t, m.timeNow - msec + c) ∈ dues (m.timeNow - msec) m.counters := by
    rw [hhead]
    exact mem_cons_self
  obtain ⟨x, d, hrun, hdue⟩ := h.tracks.of_mem_counters hmem
  refine ⟨Service.Step.expired s t x d m.timeNow h.call hrun (by omega), ?_⟩
  refine ⟨?_, by show msec - c ≤ m.timeNow; omega, h.now_le, h.clock_lt, h.inTick, h.call, ?_⟩
  · -- the rest of the list counts from the time the head was due at
    refine h.tracks.remove (List.Perm.of_eq ?_)
    have hnodup := h.tracks.nodup
    rw [← m.keys_allDues (m.timeNow - msec)] at hnodup
    have hsplit : m.allDues (m.timeNow - msec)
        = (t, m.timeNow - msec + c) :: (dues (m.timeNow - msec + c) rest
            ++ pendingDues m.timeNow m.pendingAttach) := by
      rw [TimerManager.allDues, hhead, dues_cons, cons_append]
    rw [hsplit] at hnodup ⊢
    rw [filter_cons_of_neg (by simp),
        TimerManager.filter_eq_self_of_not_mem (nodup_cons.mp hnodup).1]
    show dues (m.timeNow - (msec - c)) rest ++ _ = _
    rw [show m.timeNow - (msec - c) = m.timeNow - msec + c by omega]
  · intro u hu x' d' hrun'
    exact h.waiting u hu x' d' (of_update_none hrun')

/-- **`tick` from the top of its loop**, when every timer of the active list (but
those of duration 0) is due later than the time reached. -/
theorem Ticking.tick
    (hlate : ∀ t x d, s.running t = some (x, d) →
      (t, x + d) ∈ dues (m.timeNow - msec) m.counters → 1 ≤ d → m.timeNow - msec < x + d) :
    ∃ s', Service.Trace s (Machine.continue_ w clock (m.tick w msec)).2 s'
      ∧ Refines w (Machine.continue_ w clock (m.tick w msec)).1 s' := by
  have hmsec := h.msec_le
  have hnow := h.now_le
  have hclock := h.clock_lt
  -- the two ways a stretch of `tick` ends
  have hend : ∀ {m' : TimerManager τ}, Service.Step s .finished { s with call := none }
      ∧ Idle w (m'.tickComplete w) clock { s with call := none } →
      ∃ s', Service.Trace s (Machine.continue_ w clock (m', none)).2 s'
        ∧ Refines w (Machine.continue_ w clock (m', none)).1 s' :=
    fun hfin => ⟨_, Service.Trace.cons hfin.1 (Service.Trace.nil _), hfin.2⟩
  have hcallback : ∀ {m' : TimerManager τ} {t : τ} {k : Nat} {s₁ : Service τ},
      Service.Step s (.expired t) s₁ ∧ Ticking w m' clock k s₁ →
      ∃ s', Service.Trace s (Machine.continue_ w clock (m', some (t, k))).2 s'
        ∧ Refines w (Machine.continue_ w clock (m', some (t, k))).1 s' :=
    fun hexp => ⟨_, Service.Trace.cons hexp.1 (Service.Trace.nil _), hexp.2⟩
  unfold TimerManager.tick
  by_cases hzero : msec = 0
  · subst hzero
    exact hend (h.finish hlate)
  rw [if_neg hzero]
  cases hhead : m.counters with
  | nil =>
    have hadv : Ticking w m clock 0 s := by
      have hempty := h.advance [] (by rw [hhead]; rfl)
      rw [← hhead] at hempty
      exact hempty
    refine hend (hadv.finish ?_)
    intro t x d _ hmem
    rw [hhead] at hmem
    cases hmem
  | cons p rest =>
    obtain ⟨t, c⟩ := p
    have hc : m.timeNow - msec + c < 2 ^ w := by
      refine h.tracks.bounded (t, m.timeNow - msec + c) (mem_append_left _ ?_)
      rw [hhead]
      exact mem_cons_self
    simp only
    by_cases hle : msec ≤ c
    · rw [if_pos hle, ulSub_of_le hle (by omega)]
      by_cases hdone : c - msec = 0
      · rw [if_pos hdone]
        have hexp := h.expire hhead (by omega) (update m.left t 0)
        rw [show msec - c = 0 by omega] at hexp
        exact hcallback hexp
      · -- the head keeps a count: everything else is due later still
        rw [if_neg hdone]
        have hsame : dues m.timeNow ((t, c - msec) :: rest)
            = dues (m.timeNow - msec) m.counters := by
          have hadv : dues (m.timeNow - msec + msec) ((t, c - msec) :: rest)
              = dues (m.timeNow - msec) ((t, c) :: rest) := dues_advance t rest hle
          rwa [Nat.sub_add_cancel hmsec, ← hhead] at hadv
        refine hend ((h.advance _ hsame).finish ?_)
        intro u x d _ hmem _
        have hlow := head_le_of_mem_dues hmem
        change m.timeNow + (c - msec) ≤ x + d at hlow
        show m.timeNow < x + d
        omega
    · rw [if_neg hle, ulSub_of_le (Nat.le_refl c) (by omega), Nat.sub_self,
          ulSub_of_le (by omega) (by omega)]
      exact hcallback (h.expire hhead (by omega) (update m.left t 0))

/-- **`tick` after a callback.** -/
theorem Ticking.resume :
    ∃ s', Service.Trace s (Machine.continue_ w clock (m.tickAfterExpired w msec)).2 s'
      ∧ Refines w (Machine.continue_ w clock (m.tickAfterExpired w msec)).1 s' := by
  unfold TimerManager.tickAfterExpired
  split
  next t rest hhead =>
    have hexp := h.expire hhead (Nat.zero_le _) (update m.left t 0)
    exact ⟨_, Service.Trace.cons hexp.1 (Service.Trace.nil _), hexp.2⟩
  next hhead =>
    -- the first counter is not zero, so nothing is due at the time reached
    refine h.tick ?_
    intro t x d _ hmem _
    cases hcounters : m.counters with
    | nil =>
      rw [hcounters] at hmem
      cases hmem
    | cons p rest =>
      obtain ⟨u, c⟩ := p
      have hpos : c ≠ 0 := by
        rintro rfl
        exact hhead u rest hcounters
      rw [hcounters] at hmem
      have hlow := head_le_of_mem_dues hmem
      omega

end Tick

/-! ## §5. The steps of the thread. -/

section Steps

variable {w : Nat}

theorem TimerManager.attach_frame (m : TimerManager τ) (t : τ) (c : Nat) :
    (m.attach w t c).timeNow = m.timeNow ∧ (m.attach w t c).timeMark = m.timeMark
      ∧ (m.attach w t c).inTickCall = m.inTickCall := by
  unfold attach
  split
  · exact ⟨rfl, rfl, rfl⟩
  · exact ⟨rfl, rfl, rfl⟩

variable {m : TimerManager τ} {d : Nat}

/-- The count of a start at `now`: due at `now + d`, counted from the last
`processTimers`. -/
theorem TimerManager.msecToCounts_eq {now : Nat} (hle : m.timeNow ≤ now)
    (hfit : now + d < 2 ^ w) : m.timeNow + m.msecToCounts w now d = now + d := by
  unfold msecToCounts
  rw [ulSub_of_le hle (by omega), ulAdd_of_lt (by omega)]
  omega

variable [DecidableEq τ]

theorem TimerManager.start_frame (m : TimerManager τ) (now : Nat) (t : τ) (d : Nat) :
    (m.start w now t d).timeNow = m.timeNow ∧ (m.start w now t d).timeMark = m.timeMark
      ∧ (m.start w now t d).inTickCall = m.inTickCall := by
  obtain ⟨hn, hm, hi⟩ := (m.detach w t).attach_frame t ((m.detach w t).msecToCounts w now d)
  obtain ⟨hn', hm', hi'⟩ := m.detach_frame w t
  exact ⟨hn.trans hn', hm.trans hm', hi.trans hi'⟩

/-- The pending list loses a detached timer. -/
theorem TimerManager.mem_pending_detach {t u : τ}
    (h : u ∈ keys (m.detach w t).pendingAttach) : u ∈ keys m.pendingAttach := by
  unfold detach at h
  split at h
  · obtain ⟨p, hp, rfl⟩ := mem_map.mp h
    exact mem_map_of_mem (mem_filter.mp hp).1
  · split at h
    · exact h
    · exact h

theorem TimerManager.pendingAttach_detach_nil (m : TimerManager τ) (h : m.pendingAttach = [])
    (t : τ) : (m.detach w t).pendingAttach = [] := by
  refine eq_nil_iff_forall_not_mem.mpr (fun p hp => ?_)
  have hmem := mem_pending_detach (mem_map_of_mem hp)
  rw [h] at hmem
  cases hmem

/-- The timers that wait after a start inside a callback. -/
theorem TimerManager.mem_pending_start {now : Nat} {t u : τ} (htick : m.inTickCall = true)
    (h : u ∈ keys (m.start w now t d).pendingAttach) : u = t ∨ u ∈ keys m.pendingAttach := by
  unfold start attach at h
  simp only [(m.detach_frame w t).2.2, htick, if_true, DeltaList.keys, map_append, map_cons,
    map_nil, mem_append, mem_singleton] at h
  rcases h with h | h
  · exact Or.inr (mem_pending_detach h)
  · exact Or.inl h

variable {clock msec : Nat} {s : Service τ}

/-- **A start outside callbacks**, once `processTimers` has been called. -/
theorem Idle.start (h : Idle w m clock s) (hmark : m.timeNow = m.timeMark)
    (hfit : clock + d < 2 ^ w) (t : τ) :
    Idle w (m.start w clock t d) clock
      { s with running := update s.running t (some (clock, d)) } := by
  obtain ⟨hn, hm, hi⟩ := m.start_frame clock t d
  obtain ⟨hn', hm', hi'⟩ := m.detach_frame w t
  have hdue : m.timeMark + (m.detach w t).msecToCounts w clock d = clock + d := by
    have hcount := TimerManager.msecToCounts_eq
      (by rw [hn']; exact h.now_le) hfit
    rwa [hn', hmark] at hcount
  have htracks := (h.tracks.detach t).attach_active (hi'.trans h.notInTick)
    (update_self t none s.running) hfit hdue
  rw [update_idem] at htracks
  have hnobody : (m.start w clock t d).pendingAttach = [] := by
    unfold TimerManager.start TimerManager.attach
    rw [if_neg (by simp [hi', h.notInTick])]
    exact m.pendingAttach_detach_nil h.nobody t
  refine
    { tracks := by rw [hm]; exact htracks
      mark_le := by rw [hm]; exact h.mark_le
      now_le := by rw [hn]; exact h.now_le
      clock_lt := h.clock_lt
      notInTick := hi.trans h.notInTick
      call := h.call
      nobody := hnobody
      later := ?_ }
  intro u x d' hrun hd
  rw [hm]
  change update s.running t (some (clock, d)) u = some (x, d') at hrun
  by_cases hu : u = t
  · subst hu
    rw [update_self, Option.some.injEq, Prod.mk.injEq] at hrun
    have := h.mark_le
    omega
  · rw [update_of_ne hu] at hrun
    exact h.later u x d' hrun hd

/-- **A start inside a callback.** -/
theorem Ticking.start (h : Ticking w m clock msec s) (hfit : clock + d < 2 ^ w) (t : τ) :
    Ticking w (m.start w clock t d) clock msec
      { s with running := update s.running t (some (clock, d)) } := by
  obtain ⟨hn, hm, hi⟩ := m.start_frame clock t d
  obtain ⟨hn', -, hi'⟩ := m.detach_frame w t
  have htracks := (h.tracks.detach t).attach_pending (hi'.trans h.inTick)
    (update_self t none s.running) hfit
    (TimerManager.msecToCounts_eq (by rw [hn']; exact h.now_le) hfit)
  rw [update_idem] at htracks
  refine
    { tracks := by rw [hn]; exact htracks
      msec_le := by rw [hn]; exact h.msec_le
      now_le := by rw [hn]; exact h.now_le
      clock_lt := h.clock_lt
      inTick := hi.trans h.inTick
      call := by rw [hn]; exact h.call
      waiting := ?_ }
  intro u hwait x d' hrun
  rw [hn]
  change update s.running t (some (clock, d)) u = some (x, d') at hrun
  by_cases hu : u = t
  · subst hu
    rw [update_self, Option.some.injEq] at hrun
    obtain ⟨rfl, rfl⟩ := hrun
    exact h.now_le
  · rw [update_of_ne hu] at hrun
    rcases TimerManager.mem_pending_start h.inTick hwait with rfl | hmem
    · exact absurd rfl hu
    · exact h.waiting u hmem x d' hrun

/-- **A stop.** -/
theorem Idle.stop (h : Idle w m clock s) (t : τ) :
    Idle w (m.stop w t) clock { s with running := update s.running t none } := by
  obtain ⟨hn, hm, hi⟩ := m.detach_frame w t
  unfold TimerManager.stop
  refine
    { tracks := by rw [hm]; exact h.tracks.detach t
      mark_le := by rw [hm]; exact h.mark_le
      now_le := by rw [hn]; exact h.now_le
      clock_lt := h.clock_lt
      notInTick := hi.trans h.notInTick
      call := h.call
      nobody := m.pendingAttach_detach_nil h.nobody t
      later := ?_ }
  intro u x d hrun hd
  rw [hm]
  exact h.later u x d (of_update_none hrun) hd

theorem Ticking.stop (h : Ticking w m clock msec s) (t : τ) :
    Ticking w (m.stop w t) clock msec { s with running := update s.running t none } := by
  obtain ⟨hn, -, hi⟩ := m.detach_frame w t
  unfold TimerManager.stop
  refine
    { tracks := by rw [hn]; exact h.tracks.detach t
      msec_le := by rw [hn]; exact h.msec_le
      now_le := by rw [hn]; exact h.now_le
      clock_lt := h.clock_lt
      inTick := hi.trans h.inTick
      call := by rw [hn]; exact h.call
      waiting := ?_ }
  intro u hwait x d hrun
  rw [hn]
  exact h.waiting u (TimerManager.mem_pending_detach hwait) x d (of_update_none hrun)

end Steps

end ColonyCore.System
