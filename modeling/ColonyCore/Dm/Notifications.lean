/-
  ColonyCore.Dm.Notifications
  **WHAT SUBSCRIBERS MAY RELY ON, OVER WHOLE RUNS.**

  Writers run on any thread.  When the thread of the event loop makes all attach
  and detach calls, and every subscriber is used with one model point, no change is
  lost (`notification_kept`): an attached subscriber is up to date, or queued, or
  has just been taken from the queue to be called (`taken_not_queued`).

  With attach and detach on OTHER threads this takes a condition: they must not fall
  between the event loop's pop and its `eNOTIFYING`.  `detach_safe` is what then
  holds; `detach_race` are the three ways it fails otherwise.
-/
import ColonyCore.Dm.EventLoop

namespace ColonyCore.Dm

open Container
open Persistent (Platform)

namespace Machine

variable {P : Platform} {μ σ : Type} [DecidableEq σ]

/-! ## §1. Subscribers served by one thread. -/

/-- The calls of §1: the event loop's thread attaches and detaches, from inside a
callback or between two notifications, and through the subscriber's own point. -/
def OwnThread (home : σ → μ) (m : Machine P μ σ) : Event μ σ → Prop
  | .write _ _ | .loop => True
  | .attach mp s _ | .detach mp s =>
    mp = home s ∧ (m.phase = .idle ∨ ∃ t started, m.phase = .calling t started)

variable {home : σ → μ} {m m' : Machine P μ σ}

/-- Everything a subscriber has to do with is its own model point. -/
def HomeInv (home : σ → μ) (m : Machine P μ σ) : Prop :=
  (∀ s mp, (m.db.sub s).point = some mp → mp = home s)
    ∧ ∀ s started, m.phase = .calling s started → started = home s

theorem OwnThread.allowed (hinv : Inv m) (hhome : HomeInv home m) {e : Event μ σ}
    (h : OwnThread home m e) : Allowed m e := by
  -- outside its four sections the event loop holds no subscriber it has not called
  have hrole : (m.phase = .idle ∨ ∃ t started, m.phase = .calling t started) → ∀ s,
      role m.phase s ≠ .popped ∧ ∀ mp', role m.phase s ≠ .captured mp' := by
    rintro (hphase | ⟨t, started, hphase⟩) s
    · simp [hphase, role]
    · rw [hphase, role]
      split
      · simp
      · simp
  cases e with
  | write mp w => trivial
  | attach mp s n | detach mp s =>
    obtain ⟨rfl, hphase⟩ := h
    exact ⟨fun mp' hin => hhome.1 s mp' (hinv.point_of_subscribers hin), hrole hphase s⟩
  | loop =>
    intro s started hphase mp hpoint
    exact .inl ((hhome.1 s mp hpoint).trans (hhome.2 s started hphase).symm)

/-- In this list, once, and in no other. -/
def InOnly (m : Machine P μ σ) (s : σ) (l : ListId μ) : Prop :=
  (m.db.lists.content l).count s = 1 ∧ ∀ k, s ∈ m.db.lists.content k → k = l

/-- Idle, registered with the model point, and up to date. -/
def UpToDate (m : Machine P μ σ) (s : σ) (mp : μ) : Prop :=
  (m.db.sub s).state = .eSTATE_IDLE ∧ InOnly m s (.subscribers mp)
    ∧ (m.db.sub s).seqNumber = m.db.seqNum mp

/-- Waiting for its callback. -/
def Queued (m : Machine P μ σ) (s : σ) : Prop :=
  (m.db.sub s).state = .eSTATE_NOTIFY_PENDING ∧ InOnly m s .pending

/-- Taken from the queue, its callback about to start. -/
def Taken (m : Machine P μ σ) (s : σ) (mp : μ) : Prop :=
  (m.db.sub s).state = .eSTATE_NOTIFY_PENDING ∧ (∀ l, s ∉ m.db.lists.content l)
    ∧ (m.phase = .popped s ∨ m.phase = .captured s mp)

theorem inOnly_of_inList {s : σ} {l : ListId μ} (h : m.db.lists.inList s = some l) :
    InOnly m s l := by
  refine ⟨?_, ?_⟩
  · exact List.count_eq_one_of_mem (m.db.lists.nodup l) ((m.db.lists.mem_iff l s).mpr h)
  · intro k hk
    rw [m.db.lists.mem_iff, h] at hk
    cases hk
    rfl

variable [DecidableEq μ]

/-- The states all interleavings lead to. -/
inductive Reachable (home : σ → μ) : Machine P μ σ → Prop where
  | init (point : μ → PointData P) : Reachable home (init point)
  | step {m m' : Machine P μ σ} {e : Event μ σ} :
      Reachable home m → OwnThread home m e → m.step e = .ok m' → Reachable home m'

/-- One call of §1 keeps subscribers with their own points. -/
theorem step_home (hinv : Inv m) (hhome : HomeInv home m) {e : Event μ σ}
    (he : OwnThread home m e) : ∃ m', m.step e = .ok m' ∧ Inv m' ∧ HomeInv home m' := by
  obtain ⟨m', hstep, hinv', hpoint⟩ := step_inv hinv (he.allowed hinv hhome)
  refine ⟨m', hstep, hinv', ?_, ?_⟩
  · intro s mp hs
    rw [hpoint] at hs
    cases e with
    | write mp' w | loop => exact hhome.1 s mp hs
    | attach mp' t n =>
      rw [pointOf] at hs
      split at hs
      next hst =>
        cases hs
        rw [hst]
        exact he.1
      next => exact hhome.1 s mp hs
    | detach mp' t =>
      rw [pointOf] at hs
      split at hs
      next => cases hs
      next => exact hhome.1 s mp hs
  · intro s started hphase
    by_cases hloop : e = .loop
    · subst hloop
      -- only `eNOTIFYING` leads into a callback, and it is sent to the point read
      have hrun : m.processChangeNotifications = .ok m' := hstep
      cases hold : m.phase with
      | idle =>
        obtain ⟨m₁, hok, -, -, hnext⟩ := pop_inv hinv hold
        rw [hrun] at hok
        cases hok
        rcases hnext with hnext | ⟨t, hnext⟩
        · rw [hnext] at hphase
          cases hphase
        · rw [hnext] at hphase
          cases hphase
      | popped t =>
        obtain ⟨mp, -, hok, -⟩ := capture_inv hinv hold
        rw [hrun] at hok
        cases hok
        cases hphase
      | captured t mp =>
        obtain ⟨db, hok, -, hat, -⟩ := notifying_inv hinv hold
        rw [hrun] at hok
        cases hok
        cases hphase
        exact hhome.1 s started hat
      | calling t mp =>
        obtain ⟨db, hok, -⟩ := complete_step hinv hold
        rw [hrun] at hok
        cases hok
        cases hphase
    · rw [step_phase hstep hloop] at hphase
      exact hhome.2 s started hphase

/-- Every reachable state is consistent. -/
theorem Reachable.inv (h : Reachable home m) : Inv m ∧ HomeInv home m := by
  induction h with
  | init point =>
    refine ⟨inv_init point, ?_, ?_⟩
    · intro s mp hs
      cases hs
    · intro s started hphase
      cases hphase
  | step _ he hstep ih =>
    obtain ⟨m₁, hok, hinv, hhome⟩ := step_home ih.1 ih.2 he
    rw [hstep] at hok
    cases hok
    exact ⟨hinv, hhome⟩

/-- **No change is lost.**  Writers on any threads, all other calls on the thread of
the event loop, any interleaving: an attached subscriber whose callback is not
running is idle and up to date, or queued, or was taken from the queue to be called
next; and no fatal error is possible. -/
theorem notification_kept (h : Reachable home m) :
    (∀ s, (m.db.sub s).point ≠ none → (∀ mp, m.phase ≠ .calling s mp) →
        UpToDate m s (home s) ∨ Queued m s ∨ Taken m s (home s))
    ∧ ∀ e, OwnThread home m e → ∃ m', m.step e = .ok m' := by
  obtain ⟨hinv, hhome⟩ := h.inv
  refine ⟨?_, ?_⟩
  · intro s hat hcalling
    have hc := hinv s
    have hown := hhome.1 s
    have honly := fun l => inOnly_of_inList (m := m) (s := s) (l := l)
    have hnone : m.db.lists.inList s = none → ∀ l, s ∉ m.db.lists.content l := by
      intro hin l hmem
      rw [m.db.lists.mem_iff, hin] at hmem
      cases hmem
    unfold UpToDate Queued Taken
    generalize hsub : m.db.sub s = a at hc hat hown ⊢
    generalize hin : m.db.lists.inList s = l at hc honly hnone
    have hphase := phase_of_role m.phase s
    generalize role m.phase s = r at hc hphase
    cases hc with
    | unsubscribed n | pendingDetach started n => exact absurd rfl hat
    | idle mp =>
      obtain rfl := hown mp rfl
      exact .inl ⟨rfl, honly _ rfl, rfl⟩
    | pending mp n => exact .inr (.inl ⟨rfl, honly _ rfl⟩)
    | popped mp n => exact .inr (.inr ⟨rfl, hnone rfl, .inl hphase⟩)
    | captured mp n =>
      obtain rfl := hown mp rfl
      exact .inr (.inr ⟨rfl, hnone rfl, .inr hphase⟩)
    | notifying mp started n => exact absurd hphase (hcalling started)
  · intro e he
    obtain ⟨m', hstep, -⟩ := step_home hinv hhome he
    exact ⟨m', hstep⟩

/-- One unlocked model point without data. -/
def onePoint : Unit → PointData .default64 := fun _ => ⟨⟨none, [], true, MpValue.noElements _⟩, false⟩

/-- A subscriber attached with no knowledge of the point, and taken from the queue. -/
theorem reachable_popped :
    ∃ m : Machine .default64 Unit Unit, Reachable (fun _ => ()) m ∧ m.phase = .popped ()
      ∧ (m.db.sub ()).point = some () ∧ (m.db.sub ()).state = .eSTATE_NOTIFY_PENDING
      ∧ m.db.lists.content .pending = [] :=
  ⟨_, Reachable.step (Reachable.step (Reachable.init onePoint)
    (e := .attach () () SEQUENCE_NUMBER_UNKNOWN) ⟨rfl, .inl rfl⟩ rfl) (e := .loop) trivial rfl,
    rfl, rfl, rfl, rfl⟩

/-- The theorem at that state. -/
theorem notification_kept_taken :
    ∃ m : Machine .default64 Unit Unit, Reachable (fun _ => ()) m ∧ m.phase = .popped ()
      ∧ (UpToDate m () () ∨ Queued m () ∨ Taken m () ()) := by
  obtain ⟨m, hreach, hphase, hpoint, -⟩ := reachable_popped
  refine ⟨m, hreach, hphase, (notification_kept hreach).1 () (by simp [hpoint]) ?_⟩
  intro mp hcalling
  rw [hphase] at hcalling
  cases hcalling

/-- There the subscriber is attached, its callback is not running, and it is pending
but NOT in the pending list. -/
theorem taken_not_queued :
    ∃ m : Machine .default64 Unit Unit, Reachable (fun _ => ()) m
      ∧ (m.db.sub ()).point ≠ none ∧ (∀ mp, m.phase ≠ .calling () mp)
      ∧ ¬ UpToDate m () () ∧ ¬ Queued m () := by
  obtain ⟨m, hreach, hphase, hpoint, hstate, hempty⟩ := reachable_popped
  refine ⟨m, hreach, by simp [hpoint], by simp [hphase], ?_, ?_⟩
  · rintro ⟨hidle, -⟩
    rw [hstate] at hidle
    cases hidle
  · rintro ⟨-, hcount, -⟩
    rw [hempty] at hcount
    cases hcount

/-! ## §2. Attach and detach on any thread. -/

/-- Who is detached stays so until an attach. -/
theorem Run.point_none {es : List (Event μ σ)} {s : σ} (h : Run m es m') (hinv : Inv m)
    (hnone : (m.db.sub s).point = none) (hno : ∀ mp n, Event.attach mp s n ∉ es) :
    (m'.db.sub s).point = none := by
  induction h with
  | nil m => exact hnone
  | @cons m m₁ m₂ e es hallowed hstep _ ih =>
    obtain ⟨m₃, hok, hinv₁, hpoint⟩ := step_inv hinv hallowed
    rw [hstep] at hok
    cases hok
    refine ih hinv₁ ?_ (fun mp n hmem => hno mp n (List.mem_cons_of_mem _ hmem))
    rw [hpoint, hnone]
    cases e with
    | write mp w => rfl
    | attach mp t n =>
      have hts : s ≠ t := by
        rintro rfl
        exact hno mp n List.mem_cons_self
      rw [pointOf, if_neg hts]
    | detach mp t => simp [pointOf]
    | loop => rfl

/-- **Attach and detach on any thread, but not in the event loop's window.**  Along
every run of allowed steps: no fatal error is next; `getModelPoint_` is called on
attached subscribers only; and after a detach, until the next attach, the event loop
is never about to start the subscriber's callback. -/
theorem detach_safe {point : μ → PointData P} {es : List (Event μ σ)} (h : Run (init point) es m) :
    (∀ e, Allowed m e → ∃ m', m.step e = .ok m')
    ∧ (∀ s, m.phase = .popped s → (m.db.sub s).point ≠ none)
    ∧ ∀ before mp s after, es = before ++ .detach mp s :: after →
        (∀ mp' n, Event.attach mp' s n ∉ after) →
        m.phase ≠ .popped s ∧ ∀ mp', m.phase ≠ .captured s mp' := by
  have hinv := h.inv (inv_init point)
  have hheld : ∀ s, (m.phase = .popped s ∨ ∃ mp, m.phase = .captured s mp) →
      ∃ mp, (m.db.sub s).point = some mp := by
    rintro s (hphase | ⟨mp, hphase⟩)
    · exact hinv.attached (.inl (by simp [hphase, role]))
    · exact hinv.attached (.inr ⟨mp, by simp [hphase, role]⟩)
  refine ⟨?_, ?_, ?_⟩
  · intro e he
    obtain ⟨m', hstep, -⟩ := step_inv hinv he
    exact ⟨m', hstep⟩
  · intro s hphase
    obtain ⟨mp, hmp⟩ := hheld s (.inl hphase)
    simp [hmp]
  · intro before mp s after hes hno
    subst hes
    obtain ⟨m₁, hrun₁, hrun₂⟩ := h.split
    cases hrun₂ with
    | cons hallowed hstep hrest =>
      obtain ⟨m₂, hok, hinv₂, hpoint⟩ := step_inv (hrun₁.inv (inv_init point)) hallowed
      rw [hstep] at hok
      cases hok
      have hnone := hrest.point_none hinv₂ (by rw [hpoint, pointOf, if_pos rfl]) hno
      refine ⟨?_, ?_⟩
      · intro hphase
        obtain ⟨mp', hmp'⟩ := hheld s (.inl hphase)
        rw [hnone] at hmp'
        cases hmp'
      · intro mp' hphase
        obtain ⟨mp'', hmp''⟩ := hheld s (.inr ⟨mp', hphase⟩)
        rw [hnone] at hmp''
        cases hmp''

/-- A subscriber that is detached while it is queued. -/
theorem detach_safe_queued :
    ∃ m : Machine .default64 Unit Unit,
      Run (init onePoint) [.attach () () SEQUENCE_NUMBER_UNKNOWN, .detach () (), .loop] m
      ∧ m.phase ≠ .popped () := by
  have hrun : ∃ m : Machine .default64 Unit Unit,
      Run (init onePoint) [.attach () () SEQUENCE_NUMBER_UNKNOWN, .detach () (), .loop] m :=
    ⟨_, Run.cons ⟨by simp, by simp [init, role], by simp [init, role]⟩ rfl
      (Run.cons ⟨by simp, by simp [init, role], by simp [init, role]⟩ rfl
        (Run.cons (fun _ _ hphase => by cases hphase) rfl (Run.nil _)))⟩
  obtain ⟨m, hrun⟩ := hrun
  exact ⟨m, hrun, ((detach_safe hrun).2.2 [.attach () () SEQUENCE_NUMBER_UNKNOWN] () () [.loop] rfl
    (by simp)).1⟩

/-- **The window.**  Another thread's call right after the pop, or right after
`getModelPoint_`: a detach trips the assertion of the event loop; or the callback of
a DETACHED subscriber is started; an attach puts the subscriber back into the queue,
and `eNOTIFY_COMPLETE` inserts it into a second list. -/
theorem detach_race :
    (init onePoint : Machine _ Unit Unit).steps
        [.attach () () SEQUENCE_NUMBER_UNKNOWN, .loop, .detach () (), .loop]
      = .error .noModelPoint
    ∧ (∃ m : Machine _ Unit Unit, (init onePoint).steps
        [.attach () () SEQUENCE_NUMBER_UNKNOWN, .loop, .loop, .detach () (), .loop] = .ok m
          ∧ m.phase = .calling () () ∧ (m.db.sub ()).point = none)
    ∧ (init onePoint : Machine _ Unit Unit).steps
        [.attach () () SEQUENCE_NUMBER_UNKNOWN, .loop, .loop,
          .attach () () SEQUENCE_NUMBER_UNKNOWN, .loop, .loop]
      = .error .doubleInsert :=
  ⟨rfl, ⟨_, rfl, rfl, rfl⟩, rfl⟩

end Machine

end ColonyCore.Dm
