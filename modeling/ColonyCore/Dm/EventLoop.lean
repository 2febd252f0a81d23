/-
  ColonyCore.Dm.EventLoop
  **DELIVERING CHANGE NOTIFICATIONS (`Cpl/Dm/EventLoop.cpp`).**

  The event loop takes a subscriber from its pending list (under the global lock),
  reads the subscriber's model point (under no lock), sends `eNOTIFYING` (under the
  database lock), runs the callback, and sends `eNOTIFY_COMPLETE`, both to the model
  point it read FIRST.  Between these four steps any thread may write, attach or
  detach.

    • `Consistent` — how a subscriber's state, its list and the event loop's
      position go together,
    • `Allowed`    — the calls that keep them so,
    • `step_inv`   — one step, `run_inv` a whole run: no allowed run meets a fatal
      error, and it stays consistent.
-/
import ColonyCore.Dm.ModelPoint

namespace ColonyCore.Dm

open Container
open Persistent (Platform)

/-! ## §1. The machine. -/

/-- Where the event loop is in `processChangeNotifications`. -/
inductive Phase (μ σ : Type) where
  | idle
  /-- After the pop, before `getModelPoint_`. -/
  | popped (s : σ)
  /-- Before `eNOTIFYING`. -/
  | captured (s : σ) (mp : μ)
  /-- In the callback, before `eNOTIFY_COMPLETE`. -/
  | calling (s : σ) (mp : μ)
  deriving DecidableEq

/-- The database and the thread of the event loop. -/
structure Machine (P : Platform) (μ σ : Type) where
  db : Db P μ σ
  phase : Phase μ σ

/-- The atomic steps of all threads. -/
inductive Event (μ σ : Type) where
  | write (mp : μ) (w : PointData.Write)
  | attach (mp : μ) (s : σ) (initialSeqNumber : SeqNum)
  | detach (mp : μ) (s : σ)
  /-- The next section of the event loop. -/
  | loop

namespace Machine

variable {P : Platform} {μ σ : Type}

section Code

variable [DecidableEq μ] [DecidableEq σ]

/-- `EventLoop::processChangeNotifications`, one section at a time. -/
def processChangeNotifications (m : Machine P μ σ) : Except Fatal (Machine P μ σ) :=
  match m.phase with
  | .idle =>
    match m.db.lists.get .pending with
    | none => .ok m
    | some (s, lists) => .ok ⟨{ m.db with lists := lists }, .popped s⟩
  | .popped s =>
    match (m.db.sub s).point with
    | none => .error .noModelPoint
    | some mp => .ok ⟨m.db, .captured s mp⟩
  | .captured s mp => do
      let db ← m.db.processSubscriptionEvent_ mp s .eNOTIFYING
      return ⟨db, .calling s mp⟩
  | .calling s mp => do
      let db ← m.db.processSubscriptionEvent_ mp s .eNOTIFY_COMPLETE
      return ⟨db, .idle⟩

/-- One step of one thread. -/
def step (m : Machine P μ σ) : Event μ σ → Except Fatal (Machine P μ σ)
  | .write mp w => (m.db.write mp w).map (⟨·, m.phase⟩)
  | .attach mp s initialSeqNumber =>
    (m.db.attachSubscriber mp s initialSeqNumber).map (⟨·, m.phase⟩)
  | .detach mp s => (m.db.detachSubscriber mp s).map (⟨·, m.phase⟩)
  | .loop => m.processChangeNotifications

/-- Steps one after the other. -/
def steps (m : Machine P μ σ) : List (Event μ σ) → Except Fatal (Machine P μ σ)
  | [] => .ok m
  | e :: es => m.step e >>= fun m => m.steps es

end Code

/-- After construction: nobody is subscribed, every point has the sequence number
1. -/
def init (point : μ → PointData P) : Machine P μ σ where
  db :=
    { point := point
      seqNum _ := SEQUENCE_NUMBER_UNKNOWN + 1#16
      lists := Lists.empty
      sub _ := ⟨.eSTATE_UNSUBSCRIBED, none, SEQUENCE_NUMBER_UNKNOWN⟩ }
  phase := .idle

/-! ## §2. Consistency. -/

/-- Where the event loop is, as one subscriber sees it. -/
inductive Role (μ : Type) where
  | away
  | popped
  | captured (mp : μ)
  | calling (mp : μ)
  deriving DecidableEq

/-- **A consistent subscriber**: its record, the list it is in and its part in the
event loop.  An attached subscriber is idle and in the list of ITS model point, up
to date; or pending and in the pending list; or in the hands of the event loop. -/
inductive Consistent (seqNum : μ → SeqNum) : Subscriber μ → Option (ListId μ) → Role μ → Prop where
  | unsubscribed (n : SeqNum) :
      Consistent seqNum ⟨.eSTATE_UNSUBSCRIBED, none, n⟩ none .away
  | idle (mp : μ) :
      Consistent seqNum ⟨.eSTATE_IDLE, some mp, seqNum mp⟩ (some (.subscribers mp)) .away
  | pending (mp : μ) (n : SeqNum) :
      Consistent seqNum ⟨.eSTATE_NOTIFY_PENDING, some mp, n⟩ (some .pending) .away
  | popped (mp : μ) (n : SeqNum) :
      Consistent seqNum ⟨.eSTATE_NOTIFY_PENDING, some mp, n⟩ none .popped
  | captured (mp : μ) (n : SeqNum) :
      Consistent seqNum ⟨.eSTATE_NOTIFY_PENDING, some mp, n⟩ none (.captured mp)
  | notifying (mp started : μ) (n : SeqNum) :
      Consistent seqNum ⟨.eSTATE_NOTIFY_NOTIFYING, some mp, n⟩ none (.calling started)
  | pendingDetach (started : μ) (n : SeqNum) :
      Consistent seqNum ⟨.eSTATE_NOTIFY_PENDING_DETACH, none, n⟩ none (.calling started)

/-- Subscribing through its own model point makes a subscriber consistent. -/
theorem consistent_subscribed {seqNum : μ → SeqNum} {mp : μ} {a : Subscriber μ}
    (h : a.point = some mp) :
    Consistent seqNum (Db.subscribed (seqNum mp) a)
      (some (Db.subscribedList mp (seqNum mp) a)) .away := by
  obtain ⟨state, point, n⟩ := a
  cases h
  unfold Db.subscribed Db.subscribedList
  by_cases hseq : seqNum mp = n
  · simp only [hseq]
    rw [← hseq]
    exact Consistent.idle mp
  · simp only [hseq]
    exact Consistent.pending mp n

variable [DecidableEq σ]

/-- The part the event loop gives to `s`. -/
def role (phase : Phase μ σ) (s : σ) : Role μ :=
  match phase with
  | .idle => .away
  | .popped t => if t = s then .popped else .away
  | .captured t mp => if t = s then .captured mp else .away
  | .calling t mp => if t = s then .calling mp else .away

/-- The event loop has one subscriber in its hands. -/
theorem phase_of_role (phase : Phase μ σ) (s : σ) :
    match role phase s with
    | .away => True
    | .popped => phase = .popped s
    | .captured mp => phase = .captured s mp
    | .calling mp => phase = .calling s mp := by
  cases phase with
  | idle => trivial
  | popped t | captured t mp | calling t mp => by_cases h : t = s <;> simp [role, h]

/-- Every subscriber is consistent. -/
def Inv (m : Machine P μ σ) : Prop :=
  ∀ s, Consistent m.db.seqNum (m.db.sub s) (m.db.lists.inList s) (role m.phase s)

/-- **The calls that keep subscribers consistent.**  A subscriber in the list of one
model point is not attached to, or detached through, another; no attach or detach
falls between the pop and `eNOTIFYING`; and a subscriber attached elsewhere during
its callback has not picked the sequence number of the point the callback was for. -/
def Allowed (m : Machine P μ σ) : Event μ σ → Prop
  | .write _ _ => True
  | .attach mp s _ | .detach mp s =>
    (∀ mp', m.db.lists.inList s = some (.subscribers mp') → mp' = mp)
      ∧ role m.phase s ≠ .popped ∧ ∀ mp', role m.phase s ≠ .captured mp'
  | .loop =>
    ∀ s started, m.phase = .calling s started → ∀ mp, (m.db.sub s).point = some mp →
      mp = started ∨ m.db.seqNum started ≠ (m.db.sub s).seqNumber

theorem inv_init (point : μ → PointData P) : Inv (init point : Machine P μ σ) := by
  intro s
  exact Consistent.unsubscribed SEQUENCE_NUMBER_UNKNOWN

/-! ## §3. One call on one subscriber. -/

section Calls

variable [DecidableEq μ] {db : Db P μ σ} {mp : μ} {s : σ} {r : Role μ}

/-- **An attach outside the event loop's window.** -/
theorem attachSubscriber_consistent (n : SeqNum)
    (hc : Consistent db.seqNum (db.sub s) (db.lists.inList s) r)
    (hown : ∀ mp', db.lists.inList s = some (.subscribers mp') → mp' = mp)
    (hpop : r ≠ .popped) (hcap : ∀ mp', r ≠ .captured mp') :
    ∃ db' a l, db.attachSubscriber mp s n = .ok db' ∧ db.Moves db' s a l
      ∧ Consistent db.seqNum a l r ∧ a.point = some mp := by
  -- the record the event is processed with
  have hset : db.Moves ((db.setSequenceNumber s n).setModelPoint s (some mp)) s
      ⟨(db.sub s).state, some mp, n⟩ (db.lists.inList s) :=
    { point := rfl
      seqNum := rfl
      sub := by simp [Db.setModelPoint, Db.setSequenceNumber]
      inList := (Function.update_eq_self _ _).symm }
  unfold Db.attachSubscriber
  generalize (db.setSequenceNumber s n).setModelPoint s (some mp) = db₁ at hset ⊢
  have hseq : db₁.seqNum = db.seqNum := hset.seqNum
  have hrec := hset.self
  generalize hsub : db.sub s = a at hc hset hrec
  generalize hin : db.lists.inList s = l at hc hown hset hrec
  unfold Db.processSubscriptionEvent_
  rw [hrec.1]
  cases hc with
  | unsubscribed k =>
    obtain ⟨db', hok, hmoves⟩ := Db.transitionToSubscribed_free mp (.inl hrec.2)
    rw [hrec.1, hseq] at hmoves
    exact ⟨db', _, _, hok, hset.trans hmoves, consistent_subscribed rfl, rfl⟩
  | idle mp' =>
    obtain rfl := hown mp' rfl
    obtain ⟨db', hok, hmoves⟩ := Db.transitionToSubscribed_free mp' (.inr hrec.2)
    rw [hrec.1, hseq] at hmoves
    exact ⟨db', _, _, hok, hset.trans hmoves, consistent_subscribed rfl, rfl⟩
  | pending mp' k =>
    have hremove := Db.moves_remove db₁ .pending s
    rw [hrec.1, hrec.2] at hremove
    obtain ⟨db', hok, hmoves⟩ := Db.transitionToSubscribed_free mp (.inl hremove.self.2)
    rw [hremove.self.1, hremove.seqNum, hseq] at hmoves
    exact ⟨db', _, _, hok, hset.trans (hremove.trans hmoves), consistent_subscribed rfl, rfl⟩
  | popped mp' k => exact absurd rfl hpop
  | captured mp' k => exact absurd rfl (hcap mp')
  | notifying mp' started k =>
    exact ⟨db₁, _, _, rfl, hset, Consistent.notifying mp started n, rfl⟩
  | pendingDetach started k =>
    have hstate := Db.moves_setState db₁ s .eSTATE_NOTIFY_NOTIFYING
    rw [hrec.1, hrec.2] at hstate
    exact ⟨_, _, _, rfl, hset.trans hstate, Consistent.notifying mp started n, rfl⟩

/-- **A detach outside the event loop's window.** -/
theorem detachSubscriber_consistent (hc : Consistent db.seqNum (db.sub s) (db.lists.inList s) r)
    (hown : ∀ mp', db.lists.inList s = some (.subscribers mp') → mp' = mp) (hpop : r ≠ .popped)
    (hcap : ∀ mp', r ≠ .captured mp') :
    ∃ db' a l, db.detachSubscriber mp s = .ok db' ∧ db.Moves db' s a l
      ∧ Consistent db.seqNum a l r ∧ a.point = none := by
  -- the event leaves some record and list; `setModelPoint_` then clears the point
  have hclear : ∀ (a : Subscriber μ) (l : Option (ListId μ)) {db₁ : Db P μ σ},
      db.processSubscriptionEvent_ mp s .eDETACH = .ok db₁ → db.Moves db₁ s a l →
      Consistent db.seqNum { a with point := none } l r →
      ∃ db' a l, db.detachSubscriber mp s = .ok db' ∧ db.Moves db' s a l
        ∧ Consistent db.seqNum a l r ∧ a.point = none := by
    intro a l db₁ hevent hmoves hcons
    have hset := Db.moves_sub db₁ s { a with point := none }
    rw [hmoves.self.2] at hset
    refine ⟨db₁.setModelPoint s none, { a with point := none }, l, ?_, ?_, hcons, rfl⟩
    · unfold Db.detachSubscriber
      rw [hevent]
      rfl
    · rw [Db.setModelPoint, hmoves.self.1]
      exact hmoves.trans hset
  have hstay := Db.moves_sub db s (db.sub s)
  rw [Function.update_eq_self] at hstay
  unfold Db.processSubscriptionEvent_ at hclear
  generalize hsub : db.sub s = a at hc hstay hclear
  generalize hin : db.lists.inList s = l at hc hown hstay
  cases hc with
  | unsubscribed k => exact hclear _ _ rfl hstay (Consistent.unsubscribed k)
  | idle mp' =>
    obtain rfl := hown mp' rfl
    have hleave := Db.moves_unsubscribe hin
    rw [hsub] at hleave
    exact hclear _ _ rfl hleave (Consistent.unsubscribed (db.seqNum mp'))
  | pending mp' k =>
    have hleave := Db.moves_unsubscribe hin
    rw [hsub] at hleave
    exact hclear _ _ rfl hleave (Consistent.unsubscribed k)
  | popped mp' k => exact absurd rfl hpop
  | captured mp' k => exact absurd rfl (hcap mp')
  | notifying mp' started k =>
    have hstate := Db.moves_setState db s .eSTATE_NOTIFY_PENDING_DETACH
    rw [hsub, hin] at hstate
    exact hclear _ _ rfl hstate (Consistent.pendingDetach started k)
  | pendingDetach started k => exact hclear _ _ rfl hstay (Consistent.pendingDetach started k)

/-- `eNOTIFYING` of the subscriber the event loop has read the point of. -/
theorem notifying_consistent
    (hc : Consistent db.seqNum (db.sub s) (db.lists.inList s) (.captured mp)) :
    ∃ db' a l, db.processSubscriptionEvent_ mp s .eNOTIFYING = .ok db' ∧ db.Moves db' s a l
      ∧ Consistent db.seqNum a l (.calling mp) ∧ a.point = some mp := by
  generalize hsub : db.sub s = a at hc
  generalize hin : db.lists.inList s = l at hc
  cases hc with
  | captured mp n =>
    have hmoves := Db.moves_sub db s ⟨.eSTATE_NOTIFY_NOTIFYING, some mp, db.seqNum mp⟩
    rw [hin] at hmoves
    refine ⟨_, _, _, ?_, hmoves, Consistent.notifying mp mp (db.seqNum mp), rfl⟩
    unfold Db.processSubscriptionEvent_
    simp [Db.setState, Db.setSequenceNumber, hsub]

/-- `eNOTIFY_COMPLETE`, sent to the model point the callback was for: where the
subscriber goes. -/
theorem complete_moves {started : μ}
    (hc : Consistent db.seqNum (db.sub s) (db.lists.inList s) (.calling started)) :
    ∃ db', db.processSubscriptionEvent_ started s .eNOTIFY_COMPLETE = .ok db'
      ∧ match (db.sub s).point with
        | none => db.Moves db' s ⟨.eSTATE_UNSUBSCRIBED, none, (db.sub s).seqNumber⟩ none
        | some _ => db.Moves db' s (Db.subscribed (db.seqNum started) (db.sub s))
            (some (Db.subscribedList started (db.seqNum started) (db.sub s))) := by
  generalize hsub : db.sub s = a at hc
  generalize hin : db.lists.inList s = l at hc
  cases hc with
  | notifying mp started n =>
    obtain ⟨db', hok, hmoves⟩ := Db.transitionToSubscribed_free started (.inl hin)
    rw [hsub] at hmoves
    refine ⟨db', ?_, hmoves⟩
    unfold Db.processSubscriptionEvent_
    rw [hsub]
    exact hok
  | pendingDetach started n =>
    have hmoves := Db.moves_setState db s .eSTATE_UNSUBSCRIBED
    rw [hsub, hin] at hmoves
    refine ⟨_, ?_, hmoves⟩
    unfold Db.processSubscriptionEvent_
    rw [hsub]

end Calls

/-! ## §4. One step, and a run. -/

/-- What a step does to the model point a subscriber is attached to. -/
def pointOf (e : Event μ σ) (t : σ) (point : Option μ) : Option μ :=
  match e with
  | .attach mp s _ => if t = s then some mp else point
  | .detach _ s => if t = s then none else point
  | .write _ _ | .loop => point

section Step

variable {m m' : Machine P μ σ}

variable {a : Subscriber μ} {l : Option (ListId μ)}

/-- Only the sequence number of the point whose list a subscriber is in matters. -/
theorem Consistent.congr {f g : μ → SeqNum} {r : Role μ} (h : Consistent f a l r)
    (hfg : ∀ mp, l = some (.subscribers mp) → g mp = f mp) : Consistent g a l r := by
  cases h with
  | unsubscribed n => exact Consistent.unsubscribed n
  | idle mp =>
    rw [← hfg mp rfl]
    exact Consistent.idle mp
  | pending mp n => exact Consistent.pending mp n
  | popped mp n => exact Consistent.popped mp n
  | captured mp n => exact Consistent.captured mp n
  | notifying mp started n => exact Consistent.notifying mp started n
  | pendingDetach started n => exact Consistent.pendingDetach started n

variable {mp : μ}

/-- Whoever is in the list of a model point is idle, attached to it and not in the
hands of the event loop. -/
theorem Consistent.of_subscribers {f : μ → SeqNum} {r : Role μ}
    (h : Consistent f a (some (.subscribers mp)) r) :
    a = ⟨.eSTATE_IDLE, some mp, f mp⟩ ∧ r = .away := by
  cases h
  exact ⟨rfl, rfl⟩

variable {s : σ}

/-- A step that moves one subscriber. -/
theorem Inv.moves (h : Inv m) {db : Db P μ σ} {phase : Phase μ σ} (hmoves : m.db.Moves db s a l)
    (hrole : ∀ t ≠ s, role phase t = role m.phase t)
    (hs : Consistent m.db.seqNum a l (role phase s)) : Inv ⟨db, phase⟩ := by
  intro t
  rw [hmoves.seqNum]
  by_cases ht : t = s
  · subst ht
    rw [hmoves.self.1, hmoves.self.2]
    exact hs
  · rw [(hmoves.other ht).1, (hmoves.other ht).2, hrole t ht]
    exact h t

/-- The point of every subscriber after such a step. -/
theorem point_of_moves {db db' : Db P μ σ} (hmoves : db.Moves db' s a l) (t : σ) :
    (db'.sub t).point = if t = s then a.point else (db.sub t).point := by
  by_cases ht : t = s
  · subst ht
    rw [hmoves.self.1, if_pos rfl]
  · rw [(hmoves.other ht).1, if_neg ht]

/-- The list of a model point holds subscribers attached to it. -/
theorem Inv.point_of_subscribers (h : Inv m) (hin : m.db.lists.inList s = some (.subscribers mp)) :
    (m.db.sub s).point = some mp := by
  have hc := h s
  rw [hin] at hc
  rw [hc.of_subscribers.1]

/-- A subscriber the event loop has taken, but not called yet, is attached. -/
theorem Inv.attached (h : Inv m)
    (hrole : role m.phase s = .popped ∨ ∃ mp, role m.phase s = .captured mp) :
    ∃ mp, (m.db.sub s).point = some mp := by
  have hc := h s
  generalize m.db.sub s = a at hc ⊢
  generalize m.db.lists.inList s = l at hc
  generalize role m.phase s = r at hc hrole
  cases hc with
  | unsubscribed n => simp at hrole
  | idle mp => simp at hrole
  | pending mp n => simp at hrole
  | popped mp n => exact ⟨mp, rfl⟩
  | captured mp n => exact ⟨mp, rfl⟩
  | notifying mp started n => simp at hrole
  | pendingDetach started n => simp at hrole

variable [DecidableEq μ]

/-- **A write** keeps everybody consistent: it makes the subscribers of the point
pending. -/
theorem write_inv (h : Inv m) (mp : μ) (w : PointData.Write) :
    ∃ db, m.db.write mp w = .ok db ∧ Inv ⟨db, m.phase⟩
      ∧ ∀ t, (db.sub t).point = (m.db.sub t).point
          ∧ db.lists.inList t
              = if m.db.changes mp w = true ∧ m.db.lists.inList t = some (.subscribers mp)
                then some .pending else m.db.lists.inList t := by
  have hof : ∀ t, m.db.lists.inList t = some (.subscribers mp) →
      m.db.sub t = ⟨.eSTATE_IDLE, some mp, m.db.seqNum mp⟩ ∧ role m.phase t = .away := by
    intro t hin
    have ht := h t
    rw [hin] at ht
    exact ht.of_subscribers
  obtain ⟨db, hok, hseq, hall⟩ := Db.write_idle mp w (fun t hin => by rw [(hof t hin).1])
  refine ⟨db, hok, ?_, ?_⟩
  · intro t
    obtain ⟨hnotified, hsame⟩ := hall t
    by_cases hin : m.db.changes mp w = true ∧ m.db.lists.inList t = some (.subscribers mp)
    · obtain ⟨hsub, hrole⟩ := hof t hin.2
      obtain ⟨hsub', hlist'⟩ := hnotified hin.1 hin.2
      rw [hsub', hlist', hsub, hrole]
      exact Consistent.pending mp (m.db.seqNum mp)
    · have hcase : m.db.changes mp w = false ∨ m.db.lists.inList t ≠ some (.subscribers mp) := by
        cases hchange : m.db.changes mp w with
        | false => exact .inl rfl
        | true => exact .inr fun hmem => hin ⟨hchange, hmem⟩
      obtain ⟨hsub', hlist'⟩ := hsame hcase
      rw [hsub', hlist']
      -- whoever stays in a list is in the list of another point
      refine (h t).congr fun mp' hmem => ?_
      rw [hseq, Db.seqNumAfter]
      split
      next hchange =>
        have hne : mp' ≠ mp := by
          rintro rfl
          exact hin ⟨hchange, hmem⟩
        rw [Function.update_of_ne hne]
      next => rfl
  · intro t
    obtain ⟨hnotified, hsame⟩ := hall t
    cases hchange : m.db.changes mp w with
    | false =>
      rw [(hsame (.inl hchange)).1, (hsame (.inl hchange)).2]
      exact ⟨rfl, rfl⟩
    | true =>
      by_cases hin : m.db.lists.inList t = some (.subscribers mp)
      · rw [(hnotified hchange hin).1, (hnotified hchange hin).2, if_pos ⟨rfl, hin⟩]
        exact ⟨rfl, rfl⟩
      · rw [(hsame (.inr hin)).1, (hsame (.inr hin)).2, if_neg (by simp [hin])]
        exact ⟨rfl, rfl⟩

/-- The threads other than the event loop's do not move it. -/
theorem step_phase {e : Event μ σ} (h : m.step e = .ok m') (hne : e ≠ .loop) :
    m'.phase = m.phase := by
  have hmap : ∀ {x : Except Fatal (Db P μ σ)}, x.map (Machine.mk · m.phase) = .ok m' →
      m'.phase = m.phase := by
    intro x hx
    cases x with
    | error f => cases hx
    | ok db =>
      cases hx
      rfl
  cases e with
  | write mp w => exact hmap h
  | attach mp s n => exact hmap h
  | detach mp s => exact hmap h
  | loop => exact absurd rfl hne

/-- The pop: the first pending subscriber is in the hands of the event loop. -/
theorem pop_inv (h : Inv m) (hidle : m.phase = .idle) :
    ∃ m', m.processChangeNotifications = .ok m' ∧ Inv m' ∧ m'.db.sub = m.db.sub
      ∧ (m'.phase = .idle ∨ ∃ s, m'.phase = .popped s) := by
  unfold processChangeNotifications
  rw [hidle]
  cases hcontent : m.db.lists.content .pending with
  | nil =>
    rw [Lists.get_nil hcontent]
    exact ⟨m, rfl, h, rfl, .inl hidle⟩
  | cons s rest =>
    obtain ⟨lists, hget, -, hin⟩ := Lists.get_cons hcontent
    have hs : m.db.lists.inList s = some .pending := by
      rw [← m.db.lists.mem_iff, hcontent]
      exact List.mem_cons_self
    have hmoves : m.db.Moves ⟨m.db.point, m.db.seqNum, lists, m.db.sub⟩ s (m.db.sub s) none :=
      ⟨rfl, rfl, (Function.update_eq_self _ _).symm, hin⟩
    rw [hget]
    refine ⟨_, rfl, h.moves hmoves ?_ ?_, rfl, .inr ⟨s, rfl⟩⟩
    · intro t ht
      rw [hidle, role, role, if_neg (Ne.symm ht)]
    · have hc := h s
      rw [hs] at hc
      rw [role, if_pos rfl]
      generalize m.db.sub s = a at hc
      generalize role m.phase s = r at hc
      cases hc with
      | pending mp n => exact Consistent.popped mp n

/-- `getModelPoint_`: a subscriber in the hands of the event loop has a model
point. -/
theorem capture_inv (h : Inv m) (hphase : m.phase = .popped s) :
    ∃ mp, (m.db.sub s).point = some mp
      ∧ m.processChangeNotifications = .ok ⟨m.db, .captured s mp⟩ ∧ Inv ⟨m.db, .captured s mp⟩ := by
  have hc := h s
  rw [hphase, role, if_pos rfl] at hc
  unfold processChangeNotifications
  rw [hphase]
  generalize hsub : m.db.sub s = a at hc ⊢
  generalize hin : m.db.lists.inList s = l at hc
  cases hc with
  | popped mp n =>
    refine ⟨mp, rfl, by simp [hsub], ?_⟩
    intro t
    by_cases ht : t = s
    · subst ht
      rw [hsub, hin, role, if_pos rfl]
      exact Consistent.captured mp n
    · have htc := h t
      rw [hphase, role, if_neg (Ne.symm ht)] at htc
      rw [role, if_neg (Ne.symm ht)]
      exact htc

/-- `eNOTIFYING`: the callback starts, of an attached subscriber. -/
theorem notifying_inv (h : Inv m) (hphase : m.phase = .captured s mp) :
    ∃ db, m.processChangeNotifications = .ok ⟨db, .calling s mp⟩ ∧ Inv ⟨db, .calling s mp⟩
      ∧ (m.db.sub s).point = some mp ∧ ∀ t, (db.sub t).point = (m.db.sub t).point := by
  have hc := h s
  rw [hphase, role, if_pos rfl] at hc
  have hpoint : (m.db.sub s).point = some mp := by
    generalize m.db.sub s = a at hc
    generalize m.db.lists.inList s = l at hc
    cases hc
    rfl
  obtain ⟨db, a, l, hok, hmoves, hcons, hnew⟩ := notifying_consistent hc
  refine ⟨db, ?_, h.moves hmoves ?_ ?_, hpoint, ?_⟩
  · unfold processChangeNotifications
    simp only [hphase, hok]
    rfl
  · intro t ht
    rw [hphase, role, role, if_neg (Ne.symm ht), if_neg (Ne.symm ht)]
  · rw [role, if_pos rfl]
    exact hcons
  · intro t
    rw [point_of_moves hmoves, hnew, ← hpoint]
    split
    next ht => rw [ht]
    next => rfl

/-- `eNOTIFY_COMPLETE`: the database afterwards. -/
theorem complete_step (h : Inv m) {started : μ} (hphase : m.phase = .calling s started) :
    ∃ db, m.processChangeNotifications = .ok ⟨db, .idle⟩
      ∧ match (m.db.sub s).point with
        | none => m.db.Moves db s ⟨.eSTATE_UNSUBSCRIBED, none, (m.db.sub s).seqNumber⟩ none
        | some _ => m.db.Moves db s (Db.subscribed (m.db.seqNum started) (m.db.sub s))
            (some (Db.subscribedList started (m.db.seqNum started) (m.db.sub s))) := by
  have hc := h s
  rw [hphase, role, if_pos rfl] at hc
  obtain ⟨db, hok, hmoves⟩ := complete_moves hc
  refine ⟨db, ?_, hmoves⟩
  unfold processChangeNotifications
  simp only [hphase, hok]
  rfl

/-- An allowed completion leaves the subscriber with the model point it is
attached to. -/
theorem complete_inv (h : Inv m) {started : μ} (hphase : m.phase = .calling s started)
    (hallowed : ∀ mp, (m.db.sub s).point = some mp → mp = started ∨ m.db.seqNum started
      ≠ (m.db.sub s).seqNumber) :
    ∃ db, m.processChangeNotifications = .ok ⟨db, .idle⟩ ∧ Inv ⟨db, .idle⟩
      ∧ ∀ t, (db.sub t).point = (m.db.sub t).point := by
  obtain ⟨db, hok, hmoves⟩ := complete_step h hphase
  have haway : ∀ t ≠ s, role (Phase.idle : Phase μ σ) t = role m.phase t := by
    intro t ht
    rw [hphase, role, role, if_neg (Ne.symm ht)]
  cases hpoint : (m.db.sub s).point with
  | none =>
    rw [hpoint] at hmoves
    refine ⟨db, hok, h.moves hmoves haway (Consistent.unsubscribed _), ?_⟩
    intro t
    rw [point_of_moves hmoves]
    split
    next ht => rw [ht, hpoint]
    next => rfl
  | some mp =>
    rw [hpoint] at hmoves
    refine ⟨db, hok, h.moves hmoves haway ?_, ?_⟩
    · rcases hallowed mp hpoint with rfl | hne
      · exact consistent_subscribed hpoint
      · -- attached elsewhere: the numbers differ, so it goes to the pending list
        unfold Db.subscribed Db.subscribedList
        rw [if_neg hne, if_neg hne]
        have hpend : Consistent m.db.seqNum _ _ _ :=
          Consistent.pending mp (m.db.sub s).seqNumber
        rw [← hpoint] at hpend
        exact hpend
    · intro t
      rw [point_of_moves hmoves]
      split
      next ht =>
        rw [ht]
        rfl
      next => rfl

/-- **One allowed step**: no fatal error, everybody consistent, and the points
subscribers are attached to change by attach and detach only. -/
theorem step_inv (h : Inv m) {e : Event μ σ} (hallowed : Allowed m e) :
    ∃ m', m.step e = .ok m' ∧ Inv m'
      ∧ ∀ t, (m'.db.sub t).point = pointOf e t (m.db.sub t).point := by
  cases e with
  | write mp w =>
    obtain ⟨db, hok, hinv, hall⟩ := write_inv h mp w
    refine ⟨⟨db, m.phase⟩, ?_, hinv, fun t => (hall t).1⟩
    rw [step, hok]
    rfl
  | attach mp s n =>
    obtain ⟨hown, hpop, hcap⟩ := hallowed
    obtain ⟨db, a, l, hok, hmoves, hcons, hnew⟩ :=
      attachSubscriber_consistent n (h s) hown hpop hcap
    refine ⟨⟨db, m.phase⟩, ?_, h.moves hmoves (fun _ _ => rfl) hcons, ?_⟩
    · rw [step, hok]
      rfl
    · intro t
      rw [point_of_moves hmoves, hnew, pointOf]
  | detach mp s =>
    obtain ⟨hown, hpop, hcap⟩ := hallowed
    obtain ⟨db, a, l, hok, hmoves, hcons, hnew⟩ :=
      detachSubscriber_consistent (h s) hown hpop hcap
    refine ⟨⟨db, m.phase⟩, ?_, h.moves hmoves (fun _ _ => rfl) hcons, ?_⟩
    · rw [step, hok]
      rfl
    · intro t
      rw [point_of_moves hmoves, hnew, pointOf]
  | loop =>
    cases hphase : m.phase with
    | idle =>
      obtain ⟨m', hok, hinv, hsub, -⟩ := pop_inv h hphase
      exact ⟨m', hok, hinv, fun t => by rw [hsub, pointOf]⟩
    | popped s =>
      obtain ⟨mp, -, hok, hinv⟩ := capture_inv h hphase
      exact ⟨_, hok, hinv, fun _ => rfl⟩
    | captured s mp =>
      obtain ⟨db, hok, hinv, -, hpoint⟩ := notifying_inv h hphase
      exact ⟨_, hok, hinv, hpoint⟩
    | calling s started =>
      obtain ⟨db, hok, hinv, hpoint⟩ := complete_inv h hphase (hallowed s started hphase)
      exact ⟨_, hok, hinv, hpoint⟩

/-- A run of allowed steps. -/
inductive Run : Machine P μ σ → List (Event μ σ) → Machine P μ σ → Prop where
  | nil (m : Machine P μ σ) : Run m [] m
  | cons {m m₁ m₂ : Machine P μ σ} {e : Event μ σ} {es : List (Event μ σ)} :
      Allowed m e → m.step e = .ok m₁ → Run m₁ es m₂ → Run m (e :: es) m₂

/-- **A run of allowed steps stays consistent.** -/
theorem Run.inv {es : List (Event μ σ)} (h : Run m es m') (hinv : Inv m) : Inv m' := by
  induction h with
  | nil m => exact hinv
  | cons hallowed hstep _ ih =>
    obtain ⟨m₁, hok, hinv₁, -⟩ := step_inv hinv hallowed
    rw [hstep] at hok
    cases hok
    exact ih hinv₁

/-- A run through a step of its trace. -/
theorem Run.split {es fs : List (Event μ σ)} (h : Run m (es ++ fs) m') :
    ∃ m₁, Run m es m₁ ∧ Run m₁ fs m' := by
  induction es generalizing m with
  | nil => exact ⟨m, Run.nil m, h⟩
  | cons e es ih =>
    cases h with
    | cons hallowed hstep hrest =>
      obtain ⟨m₁, hrun₁, hrun₂⟩ := ih hrest
      exact ⟨m₁, Run.cons hallowed hstep hrun₁, hrun₂⟩

end Step

end Machine

end ColonyCore.Dm
