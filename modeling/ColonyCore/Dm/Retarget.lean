/-
  ColonyCore.Dm.Retarget
  **A SUBSCRIBER THAT MOVES TO ANOTHER MODEL POINT INSIDE ITS CALLBACK.**

  The event loop completes a notification with the model point it STARTED with,
  while the callback may detach from that point and attach to another.  The
  completion compares the subscriber's sequence number, by now one of the new point,
  with the sequence number of the old one.

    • `retarget_iff`   — the subscriber ends up with the point it attached to last
      EXACTLY when that is the old point or the two numbers differ,
    • `retarget_wrong` — two points with the same number of changes.
-/
import ColonyCore.Dm.EventLoop

namespace ColonyCore.Dm

open Container
open Persistent (Platform)

namespace Machine

variable {P : Platform} {μ σ : Type} [DecidableEq σ]
variable {m m' : Machine P μ σ} {s : σ} {es : List (Event μ σ)}

/-- A consistent subscriber that the event loop does not hold is registered with
the point it is attached to. -/
theorem Inv.registered (h : Inv m) (haway : role m.phase s = .away) :
    match (m.db.sub s).point with
    | none => m.db.lists.inList s = none
    | some mp => m.db.lists.inList s = some (.subscribers mp)
        ∨ (m.db.lists.inList s = some .pending ∧ (m.db.sub s).point = some mp) := by
  have hc := h s
  rw [haway] at hc
  generalize m.db.sub s = a at hc ⊢
  generalize m.db.lists.inList s = l at hc ⊢
  cases hc with
  | unsubscribed n => rfl
  | idle mp => exact .inl rfl
  | pending mp n => exact .inr ⟨rfl, rfl⟩

variable [DecidableEq μ]

/-! ## §1. The callback. -/

/-- While a callback runs, all threads act but the event loop's. -/
theorem Run.calling {started : μ} (h : Run m es m') (hno : .loop ∉ es)
    (hphase : m.phase = .calling s started) : m'.phase = .calling s started := by
  induction h with
  | nil m => exact hphase
  | @cons m m₁ m₂ e es hallowed hstep _ ih =>
    refine ih (fun hmem => hno (List.mem_cons_of_mem _ hmem)) ?_
    rw [step_phase hstep (fun he => hno (he ▸ List.mem_cons_self)), hphase]

/-- The model point attached to last and not detached from since; `point` is the one
before the calls. -/
def lastAttached (s : σ) (es : List (Event μ σ)) (point : Option μ) : Option μ :=
  es.foldl (fun point e => pointOf e s point) point

/-- The subscriber knows that point. -/
theorem Run.point (h : Run m es m') (hinv : Inv m) :
    (m'.db.sub s).point = lastAttached s es (m.db.sub s).point := by
  induction h with
  | nil m => rfl
  | cons hallowed hstep _ ih =>
    obtain ⟨m₁, hok, hinv₁, hpoint⟩ := step_inv hinv hallowed
    rw [hstep] at hok
    cases hok
    rw [ih hinv₁, hpoint]
    rfl

/-! ## §2. Whose subscriber it is. -/

/-- A run of writes. -/
def Writes (es : List (Event μ σ)) : Prop := ∀ e ∈ es, ∃ mp w, e = .write mp w

/-- One of the writes changes `mp`. -/
def ChangeOf (mp : μ) (m : Machine P μ σ) (es : List (Event μ σ)) : Prop :=
  ∃ before w after m₁, es = before ++ .write mp w :: after ∧ Run m before m₁
    ∧ m₁.db.changes mp w = true

/-- **`s` belongs to `mp` and to no other point**: it is in the list of `mp`, or in
the pending list on behalf of `mp`; and over any later writes it becomes pending with
the first change of `mp` and with no change of another point.  Without a model point
it is in no list and never becomes pending. -/
structure OwnedBy (m : Machine P μ σ) (s : σ) (owner : Option μ) : Prop where
  registered : match owner with
    | none => m.db.lists.inList s = none
    | some mp => m.db.lists.inList s = some (.subscribers mp)
        ∨ (m.db.lists.inList s = some .pending ∧ (m.db.sub s).point = some mp)
  follows : ∀ es, Writes es → ∃ m', Run m es m'
    ∧ (m'.db.lists.inList s = some .pending
        ↔ m.db.lists.inList s = some .pending ∨ ∃ mp, owner = some mp ∧ ChangeOf mp m es)

/-- The first of the writes, or a later one. -/
theorem changeOf_cons {mp mp' : μ} {w : PointData.Write} (hstep : m.step (.write mp w) = .ok m') :
    ChangeOf mp' m (.write mp w :: es)
      ↔ (mp = mp' ∧ m.db.changes mp w = true) ∨ ChangeOf mp' m' es := by
  constructor
  · rintro ⟨before, w', after, m₁, hes, hrun, hchange⟩
    cases before with
    | nil =>
      cases hes
      cases hrun
      exact .inl ⟨rfl, hchange⟩
    | cons e before =>
      cases hes
      cases hrun with
      | cons _ hstep' hrest =>
        rw [hstep] at hstep'
        cases hstep'
        exact .inr ⟨before, w', after, m₁, rfl, hrest, hchange⟩
  · rintro (⟨rfl, hchange⟩ | ⟨before, w', after, m₁, rfl, hrun, hchange⟩)
    · exact ⟨[], w, es, m, rfl, Run.nil m, hchange⟩
    · exact ⟨.write mp w :: before, w', after, m₁, rfl, Run.cons trivial hstep hrun, hchange⟩

/-- **Later writes**: the subscriber becomes pending with the first change of its
point. -/
theorem Inv.follows (es : List (Event μ σ)) : ∀ {m : Machine P μ σ}, Inv m →
    role m.phase s = .away → Writes es → ∃ m', Run m es m'
      ∧ (m'.db.lists.inList s = some .pending ↔ m.db.lists.inList s = some .pending
          ∨ ∃ mp, (m.db.sub s).point = some mp ∧ ChangeOf mp m es) := by
  induction es with
  | nil =>
    intro m _ _ _
    refine ⟨m, Run.nil m, .inl, ?_⟩
    rintro (hpending | ⟨mp, -, before, w, after, m₁, hes, -⟩)
    · exact hpending
    · simp at hes
  | cons e es ih =>
    intro m hinv haway hwrites
    obtain ⟨mp, w, rfl⟩ := hwrites e List.mem_cons_self
    obtain ⟨db, hok, hinv₁, hall⟩ := write_inv hinv mp w
    obtain ⟨hpoint, hlist⟩ := hall s
    have hstep : m.step (.write mp w) = .ok ⟨db, m.phase⟩ := by
      rw [step, hok]
      rfl
    obtain ⟨m', hrun, hiff⟩ := ih hinv₁ haway (fun e he => hwrites e (List.mem_cons_of_mem _ he))
    refine ⟨m', Run.cons trivial hstep hrun, hiff.trans ?_⟩
    have hreg := hinv.registered haway
    rw [hpoint, hlist]
    -- the write makes `s` pending exactly when it changes the point `s` is listed with
    cases hp : (m.db.sub s).point with
    | none =>
      rw [hp] at hreg
      simp [hreg]
    | some own =>
      rw [hp] at hreg
      simp only [Option.some.injEq, exists_eq_left', changeOf_cons hstep]
      rcases hreg with hin | ⟨hin, -⟩
      · by_cases hchange : m.db.changes mp w = true ∧ mp = own
        · simp [hin, hchange.2]
        · have hno : ¬(m.db.changes mp w = true
              ∧ m.db.lists.inList s = some (.subscribers mp)) := by
            rintro ⟨hc, hin'⟩
            rw [hin] at hin'
            cases hin'
            exact hchange ⟨hc, rfl⟩
          rw [if_neg hno, and_comm, or_iff_right hchange]
      · simp [hin]

/-- A consistent subscriber belongs to the point it is attached to. -/
theorem Inv.ownedBy (h : Inv m) (haway : role m.phase s = .away) : OwnedBy m s (m.db.sub s).point :=
  ⟨h.registered haway, fun es hes => h.follows es haway hes⟩

/-! ## §3. The completion. -/

/-- **Re-targeting inside the callback.**  From a reachable state the event loop
calls `s` on behalf of `started`; during the callback any threads write, attach and
detach (`es`).  After the completion the subscriber belongs to the point it attached
to last EXACTLY when that is `started`, or its sequence number is not the one
`started` has by then. -/
theorem retarget_iff {point : μ → PointData P} {before : List (Event μ σ)} {started : μ}
    {m₀ : Machine P μ σ} (hreach : Run (init point) before m₀)
    (hphase : m₀.phase = .captured s started) (hcall : m₀.step .loop = .ok m)
    (hrun : Run m es m') (hes : .loop ∉ es) :
    (∃ m'', m'.step .loop = .ok m'' ∧ OwnedBy m'' s (lastAttached s es (some started)))
      ↔ ∀ mp, lastAttached s es (some started) = some mp →
          mp = started ∨ m'.db.seqNum started ≠ (m'.db.sub s).seqNumber := by
  obtain ⟨db₁, hok, hinv₁, hat, hkeep⟩ := notifying_inv (hreach.inv (inv_init point)) hphase
  have hm : m = ⟨db₁, .calling s started⟩ := by
    rw [show m₀.step .loop = m₀.processChangeNotifications from rfl, hok] at hcall
    cases hcall
    rfl
  subst hm
  have hinv := hrun.inv hinv₁
  have hphase' := hrun.calling hes rfl
  have hlast : (m'.db.sub s).point = lastAttached s es (some started) := by
    rw [hrun.point hinv₁, hkeep, hat]
  rw [← hlast]
  constructor
  · rintro ⟨m'', hstep, howned⟩ mp hpoint
    by_contra hneither
    obtain ⟨hne, hseq⟩ := not_or.mp hneither
    obtain ⟨db, hdone, hmoves⟩ := complete_step hinv hphase'
    have hm'' : m'' = ⟨db, .idle⟩ := by
      rw [show m'.step .loop = m'.processChangeNotifications from rfl, hdone] at hstep
      cases hstep
      rfl
    subst hm''
    -- the numbers agree, so the OLD point takes the subscriber into its list
    have hreg := howned.registered
    rw [hpoint] at hreg hmoves
    have hold : db.lists.inList s = some (.subscribers started) := by
      rw [hmoves.self.2, Db.subscribedList, if_pos (not_not.mp hseq)]
    rcases hreg with hin | ⟨hin, -⟩
    · rw [hold] at hin
      cases hin
      exact hne rfl
    · rw [hold] at hin
      cases hin
  · intro hallowed
    obtain ⟨db, hdone, hinv'', hsame⟩ := complete_inv hinv hphase' hallowed
    refine ⟨⟨db, .idle⟩, hdone, ?_⟩
    have howned := Inv.ownedBy (s := s) hinv'' rfl
    rwa [hsame] at howned

/-- Two model points without data. -/
def twoPoints : Bool → PointData .default64 := fun _ => ⟨⟨none, [], true, MpValue.noElements _⟩, false⟩

/-- A subscriber that is called on behalf of `false`, detaches from it and attaches to
`true` with no knowledge of it. -/
theorem run_retarget :
    ∃ m₀ m m' : Machine .default64 Bool Unit,
      Run (init twoPoints) [.attach false () SEQUENCE_NUMBER_UNKNOWN, .loop, .loop] m₀
      ∧ m₀.phase = .captured () false ∧ m₀.step .loop = .ok m
      ∧ Run m [.detach false (), .attach true () SEQUENCE_NUMBER_UNKNOWN] m'
      ∧ m'.db.seqNum false = 1#16 ∧ (m'.db.sub ()).seqNumber = 0#16 := by
  exact ⟨_, _, _,
    Run.cons ⟨(fun _ h => nomatch h), (fun h => nomatch h), (fun _ h => nomatch h)⟩ rfl
      (Run.cons (fun _ _ h => nomatch h) rfl
        (Run.cons (fun _ _ h => nomatch h) rfl (Run.nil _))),
    rfl, rfl,
    Run.cons ⟨(fun _ h => nomatch h), (fun h => nomatch h), (fun _ h => nomatch h)⟩ rfl
      (Run.cons ⟨(fun _ h => nomatch h), (fun h => nomatch h), (fun _ h => nomatch h)⟩ rfl
        (Run.nil _)),
    rfl, rfl⟩

/-- The completion then makes it a subscriber of `true`. -/
theorem retarget_unknown :
    ∃ m' m'' : Machine .default64 Bool Unit, m'.step .loop = .ok m''
      ∧ OwnedBy m'' () (some true) := by
  obtain ⟨m₀, m, m', hbefore, hphase, hcall, hrun, hold, hnew⟩ := run_retarget
  obtain ⟨m'', hstep, howned⟩ := (retarget_iff hbefore hphase hcall hrun (by simp)).mpr (by
    intro mp _
    refine .inr ?_
    rw [hold, hnew]
    decide)
  exact ⟨m', m'', hstep, howned⟩

/-- **The wrong owner.**  Both points have changed equally often.  The subscriber moves
from `false` to `true` with the current sequence number of `true`, and the completion
puts it into the list of `false`: a change of `true` does not reach it. -/
theorem retarget_wrong :
    ∃ m m' : Machine .default64 Bool Unit,
      (init twoPoints).steps [.attach false () SEQUENCE_NUMBER_UNKNOWN, .loop, .loop, .loop,
        .detach false (), .attach true () 1#16, .loop] = .ok m
      ∧ (m.db.sub ()).point = some true ∧ m.db.seqNum true = 1#16
      ∧ ¬ OwnedBy m () (some true)
      ∧ m.step (.write true .touch) = .ok m' ∧ m'.db.lists.inList () = some (.subscribers false) := by
  refine ⟨_, _, rfl, rfl, rfl, ?_, rfl, rfl⟩
  intro howned
  rcases howned.registered with hin | ⟨hin, -⟩
  · cases hin
  · cases hin

end Machine

end ColonyCore.Dm
