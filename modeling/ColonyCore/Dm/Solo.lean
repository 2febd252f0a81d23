/-
  ColonyCore.Dm.Solo
  **ONE MODEL POINT WITH ONE SUBSCRIBER.**

  The machine of model points, subscribers and their event loop, seen by a component
  that writes one model point and observes it with one subscriber.  There is one lemma
  for each thing that can happen to it:

    • `solo_write`    — a change: the sequence number advances, nobody is IDLE,
    • `solo_attach`   — the first attach is answered by a notification,
    • `solo_sync`     — an attach in the callback only takes the sequence number over,
    • `solo_loop`     — the way of the event loop to the callback,
    • `solo_complete` — the subscriber is IDLE after its callback, if and only if it
      has the latest sequence number.
-/
import ColonyCore.Dm.EventLoop

namespace ColonyCore.Dm

open Container Function
open Persistent (Platform)

variable {P : Platform}

/-! ## §1. What subscription events leave alone. -/

namespace Db

variable {μ σ : Type} [DecidableEq μ] [DecidableEq σ] {db db' : Db P μ σ} {mp : μ} {s : σ}

/-- Neither the data nor the sequence number of a model point is changed. -/
def KeepsPoints (db db' : Db P μ σ) : Prop := db'.point = db.point ∧ db'.seqNum = db.seqNum

theorem put_keeps {l : ListId μ} (h : db.put l s = .ok db') : KeepsPoints db db' := by
  unfold put at h
  split at h
  · cases h
  · cases h
    exact ⟨rfl, rfl⟩

theorem transitionToNotifyPending_keeps (h : db.transitionToNotifyPending s = .ok db') :
    KeepsPoints db db' := by
  unfold transitionToNotifyPending at h
  cases hput : db.put .pending s with
  | error f =>
    rw [hput] at h
    cases h
  | ok db₁ =>
    rw [hput] at h
    cases h
    exact (put_keeps hput : KeepsPoints db db₁)

theorem transitionToSubscribed_keeps (h : db.transitionToSubscribed mp s = .ok db') :
    KeepsPoints db db' := by
  unfold transitionToSubscribed at h
  simp only at h
  split at h
  · exact (put_keeps h : KeepsPoints ((db.remove (.subscribers mp) s).setState s .eSTATE_IDLE) db')
  · exact (transitionToNotifyPending_keeps h : KeepsPoints (db.remove (.subscribers mp) s) db')

theorem event_keeps {event : SubEvent} (h : db.processSubscriptionEvent_ mp s event = .ok db') :
    KeepsPoints db db' := by
  unfold processSubscriptionEvent_ at h
  split at h
  all_goals first
    | exact transitionToSubscribed_keeps h
    | exact transitionToNotifyPending_keeps h
    | exact (transitionToSubscribed_keeps h : KeepsPoints (db.remove .pending s) db')
    | (cases h; exact ⟨rfl, rfl⟩)
    | cases h

/-- A write stores the data, and the sequence number counts a change. -/
theorem write_points {w : PointData.Write}
    (hidle : ∀ t, db.lists.inList t = some (.subscribers mp) → (db.sub t).state = .eSTATE_IDLE)
    (h : db.write mp w = .ok db') :
    db'.point = update db.point mp ((db.point mp).write w).1 ∧ db'.seqNum = db.seqNumAfter mp w
      ∧ ∀ t, (db'.sub t).seqNumber = (db.sub t).seqNumber := by
  obtain ⟨db₁, hok, hseq, hall⟩ := write_idle mp w hidle
  have hsub : ∀ t, (db₁.sub t).seqNumber = (db.sub t).seqNumber := by
    intro t
    obtain ⟨hnotified, hsame⟩ := hall t
    by_cases hin : db.changes mp w = true ∧ db.lists.inList t = some (.subscribers mp)
    · rw [(hnotified hin.1 hin.2).1]
      rfl
    · rw [(hsame (by by_cases hc : db.changes mp w = true <;> simp_all)).1]
  rw [h] at hok
  cases hok
  refine ⟨?_, hseq, hsub⟩
  unfold write at h
  simp only at h
  split at h
  · obtain ⟨db₂, hrun, hpoint, -⟩ := notifySubscribers_idle mp _
      ⟨update db.point mp ((db.point mp).write w).1,
        update db.seqNum mp (advanceSequenceNumber (db.seqNum mp)), db.lists, db.sub⟩ rfl hidle
    unfold processChangeNotifications at h
    rw [h] at hrun
    cases hrun
    exact hpoint
  · cases h
    rfl

end Db

/-! ## §2. The machine of one subscriber. -/

namespace Machine

/-- A model point with its one subscriber. -/
abbrev Solo (P : Platform) := Machine P Unit Unit

variable {m m' : Solo P}

/-- The one subscriber. -/
def subscriber (m : Solo P) : Subscriber Unit := m.db.sub ()

/-- The data of the model point. -/
def data (m : Solo P) : PointData P := m.db.point ()

/-- Its sequence number. -/
def seq (m : Solo P) : SeqNum := m.db.seqNum ()

/-- The subscriber is IDLE only in the list of its model point. -/
theorem Inv.of_idle (h : Inv m) (hstate : m.subscriber.state = .eSTATE_IDLE) :
    m.db.lists.inList () = some (.subscribers ()) := by
  have hc := h ()
  unfold subscriber at hstate
  generalize m.db.sub () = a at hc hstate
  generalize m.db.lists.inList () = l at hc ⊢
  generalize role m.phase () = r at hc
  cases hc with
  | idle mp => rfl
  | _ => cases hstate

theorem Inv.idle_of_subscribers (h : Inv m) :
    ∀ t, m.db.lists.inList t = some (.subscribers ()) → (m.db.sub t).state = .eSTATE_IDLE := by
  intro t hin
  have hc := h t
  rw [hin] at hc
  rw [hc.of_subscribers.1]

/-- **A change** of the model point.  Nobody is IDLE afterwards. -/
theorem solo_write (h : Inv m) {w : PointData.Write} (hchange : (m.data.write w).2 = true) :
    ∃ m', m.step (.write () w) = .ok m' ∧ Inv m' ∧ m'.phase = m.phase ∧ m'.data = (m.data.write w).1
      ∧ m'.seq = advanceSequenceNumber m.seq ∧ m'.subscriber.seqNumber = m.subscriber.seqNumber
      ∧ m'.subscriber.point = m.subscriber.point ∧ m'.subscriber.state ≠ .eSTATE_IDLE := by
  obtain ⟨db, hok, hinv, hall⟩ := write_inv h () w
  obtain ⟨hpoint, hseq, hsub⟩ := Db.write_points h.idle_of_subscribers hok
  have hchange' : m.db.changes () w = true := hchange
  refine ⟨⟨db, m.phase⟩, ?_, hinv, rfl, ?_, ?_, hsub (), (hall ()).1, ?_⟩
  · rw [step, hok]
    rfl
  · show db.point () = _
    rw [hpoint, update_self]
    rfl
  · show db.seqNum () = _
    rw [hseq, Db.seqNumAfter, if_pos hchange', update_self]
    rfl
  · intro hidle
    have hlist := (hall ()).2
    rw [show db.lists.inList () = _ from hinv.of_idle hidle] at hlist
    split at hlist
    next => cases hlist
    next hnot => exact hnot ⟨hchange', hlist.symm⟩

/-- **The first attach**, with an unknown sequence number: a notification is pending. -/
theorem solo_attach (h : Inv m) (hseq : m.seq ≠ SEQUENCE_NUMBER_UNKNOWN)
    (hpoint : m.subscriber.point = none) (hphase : m.phase = .idle) :
    ∃ m', m.step (.attach () () SEQUENCE_NUMBER_UNKNOWN) = .ok m' ∧ Inv m' ∧ m'.phase = .idle
      ∧ m'.data = m.data ∧ m'.seq = m.seq ∧ m'.subscriber.point = some ()
      ∧ m'.subscriber.state ≠ .eSTATE_IDLE := by
  have hrole : role m.phase () = .away := by rw [hphase, role]
  have hown : ∀ mp', m.db.lists.inList () = some (.subscribers mp') → mp' = () := fun _ _ => rfl
  have hpop : role m.phase () ≠ .popped := by
    simp [hrole]
  have hcap : ∀ mp', role m.phase () ≠ .captured mp' := by
    simp [hrole]
  obtain ⟨db, a, l, hok, hmoves, hcons, hnew⟩ := attachSubscriber_consistent SEQUENCE_NUMBER_UNKNOWN (h ())
    hown hpop hcap
  refine ⟨⟨db, m.phase⟩, by rw [step, hok]; rfl, h.moves hmoves (fun _ _ => rfl) hcons, hphase,
    congrFun hmoves.point (), congrFun hmoves.seqNum (), ?_, ?_⟩
  · show (db.sub ()).point = _
    rw [hmoves.self.1, hnew]
  · -- the unknown number is not the latest one
    obtain ⟨n, hsub, hin⟩ : ∃ n, m.db.sub () = ⟨.eSTATE_UNSUBSCRIBED, none, n⟩
        ∧ m.db.lists.inList () = none := by
      have hc := h ()
      rw [hrole] at hc
      unfold subscriber at hpoint
      generalize m.db.sub () = b at hc hpoint
      generalize m.db.lists.inList () = k at hc
      cases hc with
      | unsubscribed n => exact ⟨n, rfl, rfl⟩
      | idle mp => cases hpoint
      | pending mp n => cases hpoint
    have hrun : db.sub () = Db.subscribed (m.db.seqNum ())
        ⟨.eSTATE_UNSUBSCRIBED, some (), SEQUENCE_NUMBER_UNKNOWN⟩ := by
      have hfree : ((m.db.setSequenceNumber () SEQUENCE_NUMBER_UNKNOWN).setModelPoint () (some ())).lists.inList ()
          = none := hin
      obtain ⟨db', hok', hmoves'⟩ := Db.transitionToSubscribed_free () (Or.inl hfree)
      have hevent : m.db.attachSubscriber () () SEQUENCE_NUMBER_UNKNOWN = .ok db' := by
        unfold Db.attachSubscriber Db.processSubscriptionEvent_
        simp only [Db.setModelPoint, Db.setSequenceNumber, update_self, hsub] at hok' ⊢
        exact hok'
      rw [hok] at hevent
      cases hevent
      rw [hmoves'.self.1]
      simp [Db.setModelPoint, Db.setSequenceNumber, hsub]
    show (db.sub ()).state ≠ _
    rw [hrun]
    have hne : ¬ m.db.seqNum () = SEQUENCE_NUMBER_UNKNOWN := hseq
    simp [Db.subscribed, hne]

/-- **An attach in the callback** takes the sequence number over. -/
theorem solo_sync (h : Inv m) (hstate : m.subscriber.state = .eSTATE_NOTIFY_NOTIFYING)
    (n : SeqNum) :
    ∃ m', m.step (.attach () () n) = .ok m' ∧ Inv m' ∧ m'.phase = m.phase ∧ m'.data = m.data
      ∧ m'.seq = m.seq ∧ m'.subscriber = ⟨.eSTATE_NOTIFY_NOTIFYING, some (), n⟩ := by
  have hevent : m.db.attachSubscriber () () n
      = .ok ((m.db.setSequenceNumber () n).setModelPoint () (some ())) := by
    unfold Db.attachSubscriber Db.processSubscriptionEvent_
    have hstate' : (((m.db.setSequenceNumber () n).setModelPoint () (some ())).sub ()).state
        = .eSTATE_NOTIFY_NOTIFYING := by
      simpa [Db.setModelPoint, Db.setSequenceNumber] using
        show (m.db.sub ()).state = .eSTATE_NOTIFY_NOTIFYING from hstate
    rw [hstate']
  have hsub : ((m.db.setSequenceNumber () n).setModelPoint () (some ())).sub ()
      = ⟨.eSTATE_NOTIFY_NOTIFYING, some (), n⟩ := by
    have hstate' : (m.db.sub ()).state = .eSTATE_NOTIFY_NOTIFYING := hstate
    simp [Db.setModelPoint, Db.setSequenceNumber, hstate']
  refine ⟨⟨(m.db.setSequenceNumber () n).setModelPoint () (some ()), m.phase⟩, ?_, ?_, rfl, rfl, rfl, hsub⟩
  · rw [step, hevent]
    rfl
  · intro t
    have hc := h ()
    show Consistent m.db.seqNum (((m.db.setSequenceNumber () n).setModelPoint () (some ())).sub ())
      (m.db.lists.inList ()) (role m.phase ())
    rw [hsub]
    unfold subscriber at hstate
    generalize m.db.sub () = a at hc hstate
    generalize m.db.lists.inList () = l at hc ⊢
    generalize role m.phase () = r at hc ⊢
    cases hc with
    | notifying mp started k => exact Consistent.notifying () started n
    | _ => cases hstate

/-- A step of the event loop leaves the data and the sequence number alone. -/
theorem loop_keeps (h : m.processChangeNotifications = .ok m') :
    m'.data = m.data ∧ m'.seq = m.seq := by
  unfold processChangeNotifications at h
  split at h
  · split at h
    · cases h
      exact ⟨rfl, rfl⟩
    · cases h
      exact ⟨rfl, rfl⟩
  · split at h
    · cases h
    · cases h
      exact ⟨rfl, rfl⟩
  next s mp _ =>
    cases hevent : m.db.processSubscriptionEvent_ mp s .eNOTIFYING with
    | error f =>
      rw [hevent] at h
      cases h
    | ok db =>
      rw [hevent] at h
      cases h
      have hkeeps := Db.event_keeps hevent
      exact ⟨congrFun hkeeps.1 (), congrFun hkeeps.2 ()⟩
  next s mp _ =>
    cases hevent : m.db.processSubscriptionEvent_ mp s .eNOTIFY_COMPLETE with
    | error f =>
      rw [hevent] at h
      cases h
    | ok db =>
      rw [hevent] at h
      cases h
      have hkeeps := Db.event_keeps hevent
      exact ⟨congrFun hkeeps.1 (), congrFun hkeeps.2 ()⟩

/-- **The way to the callback**: the subscriber is IDLE only if it was, and it is in its
callback once the event loop is. -/
theorem solo_loop (h : Inv m) (hphase : m.phase ≠ .calling () ()) :
    ∃ m', m.step .loop = .ok m' ∧ Inv m' ∧ m'.data = m.data ∧ m'.seq = m.seq
      ∧ m'.subscriber.point = m.subscriber.point
      ∧ (m'.subscriber.state = .eSTATE_IDLE → m.subscriber.state = .eSTATE_IDLE)
      ∧ (m'.phase = .calling () () → m'.subscriber.state = .eSTATE_NOTIFY_NOTIFYING) := by
  show ∃ m', m.processChangeNotifications = .ok m' ∧ _
  cases hp : m.phase with
  | idle =>
    obtain ⟨m', hok, hinv, hsub, hphase'⟩ := pop_inv h hp
    obtain ⟨hdata, hseq⟩ := loop_keeps hok
    refine ⟨m', hok, hinv, hdata, hseq, ?_, ?_, ?_⟩
    · exact congrArg Subscriber.point (congrFun hsub ())
    · intro hidle
      rwa [subscriber, hsub] at hidle
    · rcases hphase' with hphase' | ⟨s, hphase'⟩
      · simp [hphase']
      · simp [hphase']
  | popped s =>
    obtain ⟨mp, -, hok, hinv⟩ := capture_inv h hp
    exact ⟨_, hok, hinv, rfl, rfl, rfl, id, by simp⟩
  | captured s mp =>
    obtain ⟨db, hok, hinv, hpoint, hall⟩ := notifying_inv h hp
    obtain ⟨hdata, hseq⟩ := loop_keeps hok
    have hstate : (db.sub ()).state = .eSTATE_NOTIFY_NOTIFYING := by
      have hc := hinv ()
      have hpoint' : (db.sub ()).point = some () := (hall ()).trans hpoint
      have hrole : role (Phase.calling s mp) () = .calling mp := by simp [role]
      rw [hrole] at hc
      generalize db.sub () = a at hc hpoint' ⊢
      generalize db.lists.inList () = l at hc
      cases hc with
      | notifying mp' started n => rfl
      | pendingDetach started n => cases hpoint'
    refine ⟨_, hok, hinv, hdata, hseq, hall (), fun hidle => ?_, fun _ => hstate⟩
    change (db.sub ()).state = _ at hidle
    rw [hstate] at hidle
    cases hidle
  | calling s mp => exact absurd hp hphase

/-- A detached subscriber is not in the hands of the event loop. -/
theorem Inv.idle_of_detached (h : Inv m) (hpoint : m.subscriber.point = none)
    (hcalling : m.phase = .calling () () → m.subscriber.state = .eSTATE_NOTIFY_NOTIFYING) :
    m.phase = .idle := by
  have hc := h ()
  cases hp : m.phase with
  | idle => rfl
  | popped s =>
    rw [hp, show role (Phase.popped s : Phase Unit Unit) () = .popped by simp [role]] at hc
    unfold subscriber at hpoint
    generalize m.db.sub () = a at hc hpoint
    generalize m.db.lists.inList () = l at hc
    cases hc
    cases hpoint
  | captured s mp =>
    rw [hp, show role (Phase.captured s mp : Phase Unit Unit) () = .captured mp by simp [role]] at hc
    unfold subscriber at hpoint
    generalize m.db.sub () = a at hc hpoint
    generalize m.db.lists.inList () = l at hc
    cases hc
    cases hpoint
  | calling s mp =>
    have hstate := hcalling hp
    unfold subscriber at hpoint hstate
    generalize m.db.sub () = a at hc hpoint hstate
    generalize m.db.lists.inList () = l at hc
    generalize role m.phase () = r at hc
    cases hc with
    | notifying mp' started n => cases hpoint
    | _ => cases hstate

/-- **The end of the callback.** -/
theorem solo_complete (h : Inv m) (hphase : m.phase = .calling () ())
    (hpoint : m.subscriber.point = some ()) :
    ∃ m', m.step .loop = .ok m' ∧ Inv m' ∧ m'.phase = .idle ∧ m'.data = m.data ∧ m'.seq = m.seq
      ∧ m'.subscriber.point = some ()
      ∧ (m'.subscriber.state = .eSTATE_IDLE → m.seq = m.subscriber.seqNumber) := by
  obtain ⟨db, hok, hinv, hkeep⟩ := complete_inv h hphase (fun mp _ => Or.inl rfl)
  obtain ⟨db', hok', hmoves⟩ := complete_step h hphase
  rw [hok] at hok'
  cases hok'
  rw [show (m.db.sub ()).point = some () from hpoint] at hmoves
  obtain ⟨hdata, hseq⟩ := loop_keeps hok
  refine ⟨_, hok, hinv, rfl, hdata, hseq, (hkeep ()).trans hpoint, fun hidle => ?_⟩
  change (db.sub ()).state = _ at hidle
  rw [hmoves.self.1] at hidle
  by_contra hne
  have hpending : (Db.subscribed (m.db.seqNum ()) (m.db.sub ())).state = .eSTATE_NOTIFY_PENDING := if_neg hne
  rw [hpending] at hidle
  cases hidle

end Machine

end ColonyCore.Dm
