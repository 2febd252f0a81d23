/-
  ColonyCore.Dm.ModelPoint
  **MODEL POINTS AND THEIR SUBSCRIBERS (`Cpl/Dm/ModelPointCommon_.cpp`).**

  A model point counts its changes in a 16-bit sequence number and keeps a list of
  the subscribers that have seen the latest one.  A change moves them all to the
  pending list of their event loop.  A subscriber is a state machine of five
  states, driven by the model point the event is sent TO.

  Everything here runs under the lock of the model database, so each function is
  one atomic section.  Fatal errors and failed assertions stop the program: they
  are the `error`s of `Except Fatal`.

    • `eq_zero_of_advance` — a sequence number seen again is the same change, unless the
      number has come round.
-/
import ColonyCore.Container.DList
import ColonyCore.Dm.MpValue

namespace ColonyCore.Dm

open Container LittleEndian Function
open Persistent (Platform)

/-! ## §1. The data of a model point and its writers. -/

/-- `LockRequest_T`. -/
inductive LockRequest where
  | eNO_REQUEST
  | eLOCK
  | eUNLOCK
  deriving DecidableEq, Repr

/-- The data, the valid flag and the lock of a model point. -/
structure PointData (P : Platform) where
  value : MpValue P
  locked : Bool

namespace PointData

variable {P : Platform}

/-- `testAndUpdateLock`: the lock afterwards, and whether the write may go on. -/
def testAndUpdateLock (locked : Bool) : LockRequest → Bool × Bool
  | .eUNLOCK => (false, true)
  | .eLOCK => (true, true)
  | .eNO_REQUEST => (locked, !locked)

/-- A request that the lock has let through once, it lets through again. -/
theorem testAndUpdateLock_again {locked : Bool} {lockRequest : LockRequest}
    (h : (testAndUpdateLock locked lockRequest).2 = true) :
    (testAndUpdateLock (testAndUpdateLock locked lockRequest).1 lockRequest).2 = true := by
  cases lockRequest with
  | eNO_REQUEST => exact h
  | eLOCK => rfl
  | eUNLOCK => rfl

/-- The calls that may change a model point.  The source of a `writeData` is the
data the point is to hold; it may be a null pointer. -/
inductive Write where
  | writeData (src : Option (List Byte)) (lockRequest : LockRequest)
  | setInvalid (lockRequest : LockRequest)
  | importData (src : List Byte)
  | touch

/-- The point after a call, and whether the call runs `processChangeNotifications`. -/
def write (d : PointData P) : Write → PointData P × Bool
  | .writeData none _ => (d, false)
  | .writeData (some src) lockRequest =>
    let lock := testAndUpdateLock d.locked lockRequest
    let new := src.take d.value.data.length
    if lock.2 ∧ (d.value.valid = false ∨ d.value.data ≠ new) then
      (⟨{ d.value with data := new, valid := true }, lock.1⟩, true)
    else ({ d with locked := lock.1 }, false)
  | .setInvalid lockRequest =>
    let lock := testAndUpdateLock d.locked lockRequest
    if lock.2 ∧ d.value.valid then
      (⟨{ d.value with data := List.replicate d.value.data.length 0#8, valid := false }, lock.1⟩,
        true)
    else ({ d with locked := lock.1 }, false)
  | .importData src =>
    match d.value.importData src with
    | none => (d, false)
    | some value => ({ d with value := value }, true)
  | .touch => (d, true)

end PointData

/-! ## §2. Subscribers. -/

/-- `State_T`. -/
inductive SubState where
  | eSTATE_UNSUBSCRIBED
  | eSTATE_IDLE
  | eSTATE_NOTIFY_PENDING
  | eSTATE_NOTIFY_NOTIFYING
  | eSTATE_NOTIFY_PENDING_DETACH
  deriving DecidableEq, Repr

/-- `Event_T`. -/
inductive SubEvent where
  | eATTACH
  | eDETACH
  | eDATA_CHANGED
  | eNOTIFYING
  | eNOTIFY_COMPLETE
  deriving DecidableEq, Repr

/-- What stops the program: an item inserted into a second list, a change
reported for a subscriber that is not idle, and the event loop's assertion. -/
inductive Fatal where
  | doubleInsert
  | dataChanged (state : SubState)
  | noModelPoint
  deriving DecidableEq, Repr

/-- A sequence number, `uint16_t`. -/
abbrev SeqNum := BitVec 16

/-- `SEQUENCE_NUMBER_UNKNOWN`. -/
def SEQUENCE_NUMBER_UNKNOWN : SeqNum := 0#16

/-- `advanceSequenceNumber`. -/
def advanceSequenceNumber (n : SeqNum) : SeqNum :=
  if n + 1#16 = SEQUENCE_NUMBER_UNKNOWN then SEQUENCE_NUMBER_UNKNOWN + 1#16 else n + 1#16

theorem advanceSequenceNumber_ne (n : SeqNum) :
    advanceSequenceNumber n ≠ SEQUENCE_NUMBER_UNKNOWN := by
  unfold advanceSequenceNumber
  split
  next => decide
  next h => exact h

/-- The sequence numbers go round through 1 … 65535. -/
theorem toNat_advance {n : SeqNum} (hn : n ≠ SEQUENCE_NUMBER_UNKNOWN) (k : Nat) :
    (advanceSequenceNumber^[k] n).toNat = (n.toNat - 1 + k) % 65535 + 1 := by
  have hpos : 0 < n.toNat := Nat.pos_of_ne_zero fun h0 => hn (BitVec.eq_of_toNat_eq h0)
  induction k with
  | zero =>
    show n.toNat = _
    omega
  | succ k ih =>
    rw [iterate_succ_apply']
    generalize advanceSequenceNumber^[k] n = m at ih
    unfold advanceSequenceNumber SEQUENCE_NUMBER_UNKNOWN
    split
    next h =>
      have hm : (m + 1#16).toNat = 0 := by
        rw [h]
        rfl
      rw [BitVec.toNat_add] at hm
      simp only [BitVec.reduceAdd, BitVec.reduceToNat] at hm ⊢
      omega
    next h =>
      have hm : (m + 1#16).toNat ≠ 0 := fun h0 => h (BitVec.eq_of_toNat_eq h0)
      rw [BitVec.toNat_add] at hm ⊢
      simp only [BitVec.reduceToNat] at hm ⊢
      omega

/-- **A number seen again** is the same change, unless the number has come round. -/
theorem eq_zero_of_advance {n : SeqNum} (hn : n ≠ SEQUENCE_NUMBER_UNKNOWN) {k : Nat}
    (hk : k < 65535) (h : advanceSequenceNumber^[k] n = n) : k = 0 := by
  have hnat := toNat_advance hn k
  rw [h] at hnat
  omega

/-- The members of a `SubscriberBase`. -/
structure Subscriber (μ : Type) where
  state : SubState
  point : Option μ
  seqNumber : SeqNum

/-- The lists a subscriber can be in: `m_subscribers` of a model point, and
`m_pendingMpNotifications` of the event loop. -/
inductive ListId (μ : Type) where
  | subscribers (mp : μ)
  | pending
  deriving DecidableEq

/-- The model database: model points `μ`, subscribers `σ`, and one event loop's
pending list. -/
structure Db (P : Platform) (μ σ : Type) where
  point : μ → PointData P
  seqNum : μ → SeqNum
  lists : Lists (ListId μ) σ
  sub : σ → Subscriber μ

namespace Db

variable {P : Platform} {μ σ : Type}

section Code

variable [DecidableEq μ] [DecidableEq σ]

/-- `setState_`. -/
def setState (db : Db P μ σ) (s : σ) (state : SubState) : Db P μ σ :=
  { db with sub := update db.sub s { db.sub s with state := state } }

/-- `setSequenceNumber_`. -/
def setSequenceNumber (db : Db P μ σ) (s : σ) (seqNumber : SeqNum) : Db P μ σ :=
  { db with sub := update db.sub s { db.sub s with seqNumber := seqNumber } }

/-- `setModelPoint_`. -/
def setModelPoint (db : Db P μ σ) (s : σ) (point : Option μ) : Db P μ σ :=
  { db with sub := update db.sub s { db.sub s with point := point } }

/-- `put`, whose double insert is fatal. -/
def put (db : Db P μ σ) (l : ListId μ) (s : σ) : Except Fatal (Db P μ σ) :=
  match db.lists.put l s with
  | none => .error .doubleInsert
  | some lists => .ok { db with lists := lists }

/-- `remove`. -/
def remove (db : Db P μ σ) (l : ListId μ) (s : σ) : Db P μ σ :=
  { db with lists := db.lists.remove l s }

/-- `transitionToNotifyPending`. -/
def transitionToNotifyPending (db : Db P μ σ) (s : σ) : Except Fatal (Db P μ σ) := do
  let db ← db.put .pending s
  return db.setState s .eSTATE_NOTIFY_PENDING

/-- `transitionToSubscribed`. -/
def transitionToSubscribed (db : Db P μ σ) (mp : μ) (s : σ) : Except Fatal (Db P μ σ) :=
  let db := db.remove (.subscribers mp) s
  if db.seqNum mp = (db.sub s).seqNumber then
    (db.setState s .eSTATE_IDLE).put (.subscribers mp) s
  else db.transitionToNotifyPending s

/-- `processSubscriptionEvent_` of the model point `mp`. -/
def processSubscriptionEvent_ (db : Db P μ σ) (mp : μ) (s : σ) (event : SubEvent) :
    Except Fatal (Db P μ σ) :=
  match (db.sub s).state, event with
  | .eSTATE_UNSUBSCRIBED, .eATTACH => db.transitionToSubscribed mp s
  | .eSTATE_UNSUBSCRIBED, .eDATA_CHANGED => .error (.dataChanged .eSTATE_UNSUBSCRIBED)
  | .eSTATE_UNSUBSCRIBED, _ => .ok db
  | .eSTATE_IDLE, .eATTACH => db.transitionToSubscribed mp s
  | .eSTATE_IDLE, .eDETACH => .ok ((db.remove (.subscribers mp) s).setState s .eSTATE_UNSUBSCRIBED)
  | .eSTATE_IDLE, .eDATA_CHANGED => db.transitionToNotifyPending s
  | .eSTATE_IDLE, _ => .ok db
  | .eSTATE_NOTIFY_PENDING, .eATTACH => (db.remove .pending s).transitionToSubscribed mp s
  | .eSTATE_NOTIFY_PENDING, .eDETACH => .ok ((db.remove .pending s).setState s .eSTATE_UNSUBSCRIBED)
  | .eSTATE_NOTIFY_PENDING, .eNOTIFYING =>
    .ok ((db.setSequenceNumber s (db.seqNum mp)).setState s .eSTATE_NOTIFY_NOTIFYING)
  | .eSTATE_NOTIFY_PENDING, .eDATA_CHANGED => .error (.dataChanged .eSTATE_NOTIFY_PENDING)
  | .eSTATE_NOTIFY_PENDING, _ => .ok db
  | .eSTATE_NOTIFY_NOTIFYING, .eDETACH => .ok (db.setState s .eSTATE_NOTIFY_PENDING_DETACH)
  | .eSTATE_NOTIFY_NOTIFYING, .eNOTIFY_COMPLETE => db.transitionToSubscribed mp s
  | .eSTATE_NOTIFY_NOTIFYING, .eDATA_CHANGED => .error (.dataChanged .eSTATE_NOTIFY_NOTIFYING)
  | .eSTATE_NOTIFY_NOTIFYING, _ => .ok db
  | .eSTATE_NOTIFY_PENDING_DETACH, .eATTACH => .ok (db.setState s .eSTATE_NOTIFY_NOTIFYING)
  | .eSTATE_NOTIFY_PENDING_DETACH, .eNOTIFY_COMPLETE => .ok (db.setState s .eSTATE_UNSUBSCRIBED)
  | .eSTATE_NOTIFY_PENDING_DETACH, .eDATA_CHANGED =>
    .error (.dataChanged .eSTATE_NOTIFY_PENDING_DETACH)
  | .eSTATE_NOTIFY_PENDING_DETACH, _ => .ok db

/-- The loop of `processChangeNotifications`: take the first subscriber until
there is none. -/
def notifySubscribers (mp : μ) : Nat → Db P μ σ → Except Fatal (Db P μ σ)
  | 0, db => .ok db
  | fuel + 1, db =>
    match db.lists.get (.subscribers mp) with
    | none => .ok db
    | some (s, lists) => do
        let db ← processSubscriptionEvent_ { db with lists := lists } mp s .eDATA_CHANGED
        notifySubscribers mp fuel db

/-- `processChangeNotifications`.  The loop makes one pass a subscriber. -/
def processChangeNotifications (db : Db P μ σ) (mp : μ) : Except Fatal (Db P μ σ) :=
  let db := { db with seqNum := update db.seqNum mp (advanceSequenceNumber (db.seqNum mp)) }
  notifySubscribers mp (db.lists.content (.subscribers mp)).length db

/-- A call of `writeData`, `setInvalid`, `importData` or `touch`. -/
def write (db : Db P μ σ) (mp : μ) (w : PointData.Write) : Except Fatal (Db P μ σ) :=
  let written := (db.point mp).write w
  let db := { db with point := update db.point mp written.1 }
  if written.2 then db.processChangeNotifications mp else .ok db

/-- `attachSubscriber`. -/
def attachSubscriber (db : Db P μ σ) (mp : μ) (s : σ) (initialSeqNumber : SeqNum) :
    Except Fatal (Db P μ σ) :=
  ((db.setSequenceNumber s initialSeqNumber).setModelPoint s (some mp)).processSubscriptionEvent_
    mp s .eATTACH

/-- `detachSubscriber`. -/
def detachSubscriber (db : Db P μ σ) (mp : μ) (s : σ) : Except Fatal (Db P μ σ) := do
  let db ← db.processSubscriptionEvent_ mp s .eDETACH
  return db.setModelPoint s none

end Code

/-! ## §3. What an event does to the database. -/

variable [DecidableEq σ]

/-- **Only `s` moves**: to the record `sub` and into the list `l`. -/
structure Moves (db db' : Db P μ σ) (s : σ) (sub : Subscriber μ) (l : Option (ListId μ)) :
    Prop where
  point : db'.point = db.point
  seqNum : db'.seqNum = db.seqNum
  sub : db'.sub = update db.sub s sub
  inList : db'.lists.inList = update db.lists.inList s l

variable {db db' : Db P μ σ} {mp : μ} {s : σ} {a : Subscriber μ} {l : Option (ListId μ)}

theorem Moves.self (h : Moves db db' s a l) : db'.sub s = a ∧ db'.lists.inList s = l := by
  rw [h.sub, h.inList, update_self, update_self]
  exact ⟨rfl, rfl⟩

theorem Moves.other {t : σ} (h : Moves db db' s a l) (hne : t ≠ s) :
    db'.sub t = db.sub t ∧ db'.lists.inList t = db.lists.inList t := by
  rw [h.sub, h.inList, update_of_ne hne, update_of_ne hne]
  exact ⟨rfl, rfl⟩

theorem Moves.trans {db₁ : Db P μ σ} {b : Subscriber μ} {k : Option (ListId μ)}
    (h₁ : Moves db db₁ s a l) (h₂ : Moves db₁ db' s b k) : Moves db db' s b k where
  point := h₂.point.trans h₁.point
  seqNum := h₂.seqNum.trans h₁.seqNum
  sub := by rw [h₂.sub, h₁.sub, update_idem]
  inList := by rw [h₂.inList, h₁.inList, update_idem]

/-- Setting members of the subscriber leaves its list. -/
theorem moves_sub (db : Db P μ σ) (s : σ) (a : Subscriber μ) :
    Moves db { db with sub := update db.sub s a } s a (db.lists.inList s) :=
  ⟨rfl, rfl, rfl, (update_eq_self _ _).symm⟩

theorem moves_setState (db : Db P μ σ) (s : σ) (state : SubState) :
    Moves db (db.setState s state) s { db.sub s with state := state } (db.lists.inList s) :=
  moves_sub db s _

section Lists

variable [DecidableEq μ]

theorem moves_remove (db : Db P μ σ) (l : ListId μ) (s : σ) :
    Moves db (db.remove l s) s (db.sub s)
      (if db.lists.inList s = some l then none else db.lists.inList s) where
  point := rfl
  seqNum := rfl
  sub := (update_eq_self _ _).symm
  inList := by
    funext t
    show (db.lists.remove l s).inList t = _
    rw [Lists.inList_remove]
    by_cases hts : t = s
    · subst hts
      simp
    · simp [hts]

/-- Leaving the list one is in, for good. -/
theorem moves_unsubscribe {k : ListId μ} (h : db.lists.inList s = some k) :
    Moves db ((db.remove k s).setState s .eSTATE_UNSUBSCRIBED) s
      { db.sub s with state := .eSTATE_UNSUBSCRIBED } none := by
  have hremove := moves_remove db k s
  rw [if_pos h] at hremove
  have hstate := moves_setState (db.remove k s) s .eSTATE_UNSUBSCRIBED
  rw [hremove.self.2] at hstate
  exact hremove.trans hstate

theorem put_free (l : ListId μ) (h : db.lists.inList s = none) :
    ∃ db', db.put l s = .ok db' ∧ Moves db db' s (db.sub s) (some l) := by
  obtain ⟨lists, hput, -, hin⟩ := Lists.put_free db.lists l h
  refine ⟨{ db with lists := lists }, ?_, rfl, rfl, (update_eq_self _ _).symm, hin⟩
  unfold put
  rw [hput]

theorem transitionToNotifyPending_free (h : db.lists.inList s = none) :
    ∃ db', db.transitionToNotifyPending s = .ok db'
      ∧ Moves db db' s { db.sub s with state := .eSTATE_NOTIFY_PENDING } (some .pending) := by
  obtain ⟨db₁, hput, hmoves⟩ := put_free .pending h
  refine ⟨db₁.setState s .eSTATE_NOTIFY_PENDING, ?_, ?_⟩
  · unfold transitionToNotifyPending
    rw [hput]
    rfl
  · have hset := moves_setState db₁ s .eSTATE_NOTIFY_PENDING
    rw [hmoves.self.1, hmoves.self.2] at hset
    exact hmoves.trans hset

/-- Where `transitionToSubscribed` takes a subscriber. -/
def subscribed (seqNum : SeqNum) (a : Subscriber μ) : Subscriber μ :=
  { a with state := if seqNum = a.seqNumber then .eSTATE_IDLE else .eSTATE_NOTIFY_PENDING }

/-- The list it is in afterwards. -/
def subscribedList (mp : μ) (seqNum : SeqNum) (a : Subscriber μ) : ListId μ :=
  if seqNum = a.seqNumber then .subscribers mp else .pending

/-- **Subscribing** an item that is in no list, or in this model point's. -/
theorem transitionToSubscribed_free (mp : μ)
    (h : db.lists.inList s = none ∨ db.lists.inList s = some (.subscribers mp)) :
    ∃ db', db.transitionToSubscribed mp s = .ok db'
      ∧ Moves db db' s (subscribed (db.seqNum mp) (db.sub s))
          (some (subscribedList mp (db.seqNum mp) (db.sub s))) := by
  have hremove := moves_remove db (.subscribers mp) s
  have hfree : (if db.lists.inList s = some (.subscribers mp) then none else db.lists.inList s)
      = none := by
    rcases h with h | h
    · simp [h]
    · simp [h]
  rw [hfree] at hremove
  unfold transitionToSubscribed subscribed subscribedList
  simp only [hremove.seqNum, hremove.self.1]
  by_cases hseq : db.seqNum mp = (db.sub s).seqNumber
  · rw [if_pos hseq, if_pos hseq, if_pos hseq]
    have hset := moves_setState (db.remove (.subscribers mp) s) s .eSTATE_IDLE
    rw [hremove.self.2] at hset
    obtain ⟨db', hput, hmoves⟩ := put_free (.subscribers mp) hset.self.2
    rw [hset.self.1] at hmoves
    exact ⟨db', hput, hremove.trans (hset.trans hmoves)⟩
  · rw [if_neg hseq, if_neg hseq, if_neg hseq]
    obtain ⟨db', hpend, hmoves⟩ := transitionToNotifyPending_free hremove.self.2
    exact ⟨db', hpend, hremove.trans hmoves⟩

/-- A subscriber as a change of its model point leaves it. -/
def notified (a : Subscriber μ) : Subscriber μ := { a with state := .eSTATE_NOTIFY_PENDING }

/-- What a pass of the loop does: an idle subscriber taken from the list becomes
pending. -/
theorem dataChanged_idle (db : Db P μ σ) (mp : μ) {s : σ} (hstate : (db.sub s).state = .eSTATE_IDLE)
    (hfree : db.lists.inList s = none) :
    ∃ db', db.processSubscriptionEvent_ mp s .eDATA_CHANGED = .ok db'
      ∧ Moves db db' s (notified (db.sub s)) (some .pending) := by
  unfold processSubscriptionEvent_
  rw [hstate]
  exact transitionToNotifyPending_free hfree

/-- **The loop of `processChangeNotifications`**: all subscribers of the point, if
they are idle, become pending; nothing else happens. -/
theorem notifySubscribers_idle (mp : μ) (n : Nat) : ∀ (db : Db P μ σ),
    (db.lists.content (.subscribers mp)).length = n →
    (∀ t, db.lists.inList t = some (.subscribers mp) → (db.sub t).state = .eSTATE_IDLE) →
    ∃ db', notifySubscribers mp n db = .ok db' ∧ db'.point = db.point ∧ db'.seqNum = db.seqNum
      ∧ ∀ t, (db.lists.inList t = some (.subscribers mp) →
            db'.sub t = notified (db.sub t) ∧ db'.lists.inList t = some .pending)
          ∧ (db.lists.inList t ≠ some (.subscribers mp) →
            db'.sub t = db.sub t ∧ db'.lists.inList t = db.lists.inList t) := by
  -- on the number of subscribers: a pass takes the first one
  induction n with
  | zero =>
    intro db hlen _
    refine ⟨db, rfl, rfl, rfl, fun t => ⟨fun hin => ?_, fun _ => ⟨rfl, rfl⟩⟩⟩
    rw [← db.lists.mem_iff, List.eq_nil_of_length_eq_zero hlen] at hin
    cases hin
  | succ n ih =>
    intro db hlen hidle
    obtain ⟨s, rest, hcontent⟩ := List.exists_cons_of_length_eq_add_one hlen
    have hs : db.lists.inList s = some (.subscribers mp) := by
      rw [← db.lists.mem_iff, hcontent]
      exact List.mem_cons_self
    have hnodup := db.lists.nodup (.subscribers mp)
    rw [hcontent, List.nodup_cons] at hnodup
    obtain ⟨lists, hget, -, hin⟩ := Lists.get_cons hcontent
    have hfree : lists.inList s = none := by
      rw [hin, update_self]
    obtain ⟨db₁, hevent, hmoves⟩ := dataChanged_idle ⟨db.point, db.seqNum, lists, db.sub⟩ mp
      (hidle s hs) hfree
    have hkeep : ∀ t ≠ s, db₁.sub t = db.sub t ∧ db₁.lists.inList t = db.lists.inList t := by
      intro t ht
      obtain ⟨hsub, hlist⟩ := hmoves.other ht
      exact ⟨hsub, hlist.trans ((congrFun hin t).trans (update_of_ne ht _ _))⟩
    have hrest : ∀ t, db₁.lists.inList t = some (.subscribers mp) ↔ t ∈ rest := by
      intro t
      by_cases ht : t = s
      · subst ht
        rw [hmoves.self.2]
        simp [hnodup.1]
      · rw [(hkeep t ht).2, ← db.lists.mem_iff, hcontent]
        simp [ht]
    have hlen₁ : (db₁.lists.content (.subscribers mp)).length = n := by
      rw [Lists.length_content db₁.lists hnodup.2 hrest]
      rw [hcontent, List.length_cons] at hlen
      omega
    have hne : ∀ t, db₁.lists.inList t = some (.subscribers mp) → t ≠ s := by
      rintro t hmem rfl
      rw [hmoves.self.2] at hmem
      cases hmem
    obtain ⟨db', hrun, hpoint, hseq, hall⟩ := ih db₁ hlen₁ (by
      intro t hmem
      rw [(hkeep t (hne t hmem)).1]
      exact hidle t (by rw [← (hkeep t (hne t hmem)).2]; exact hmem))
    refine ⟨db', ?_, hpoint.trans hmoves.point, hseq.trans hmoves.seqNum, ?_⟩
    · unfold notifySubscribers
      rw [hget]
      show (processSubscriptionEvent_ _ mp s .eDATA_CHANGED >>= notifySubscribers mp n) = _
      rw [hevent]
      exact hrun
    · intro t
      by_cases ht : t = s
      · -- the subscriber taken in this pass is not touched again
        subst ht
        obtain ⟨-, hsame⟩ := hall t
        obtain ⟨hsub, hlist⟩ := hsame (by rw [hmoves.self.2]; simp)
        rw [hsub, hlist, hmoves.self.1, hmoves.self.2]
        exact ⟨fun _ => ⟨rfl, rfl⟩, fun hnot => absurd hs hnot⟩
      · rw [← (hkeep t ht).1, ← (hkeep t ht).2]
        exact hall t

/-- Whether a call reports a change of the point. -/
def changes (db : Db P μ σ) (mp : μ) (w : PointData.Write) : Bool := ((db.point mp).write w).2

/-- The sequence numbers after a call. -/
def seqNumAfter (db : Db P μ σ) (mp : μ) (w : PointData.Write) : μ → SeqNum :=
  if db.changes mp w then update db.seqNum mp (advanceSequenceNumber (db.seqNum mp))
  else db.seqNum

/-- **A write**: a change makes all subscribers of the point pending, and moves
nobody else. -/
theorem write_idle (mp : μ) (w : PointData.Write)
    (hidle : ∀ t, db.lists.inList t = some (.subscribers mp) → (db.sub t).state = .eSTATE_IDLE) :
    ∃ db', db.write mp w = .ok db' ∧ db'.seqNum = db.seqNumAfter mp w
      ∧ ∀ t, (db.changes mp w = true → db.lists.inList t = some (.subscribers mp) →
            db'.sub t = notified (db.sub t) ∧ db'.lists.inList t = some .pending)
          ∧ (db.changes mp w = false ∨ db.lists.inList t ≠ some (.subscribers mp) →
            db'.sub t = db.sub t ∧ db'.lists.inList t = db.lists.inList t) := by
  unfold write seqNumAfter
  simp only
  rw [show ((db.point mp).write w).2 = db.changes mp w from rfl]
  cases hchange : db.changes mp w with
  | false =>
    refine ⟨{ db with point := update db.point mp ((db.point mp).write w).1 }, rfl, rfl, ?_⟩
    intro t
    exact ⟨fun h => (by cases h), fun _ => ⟨rfl, rfl⟩⟩
  | true =>
    obtain ⟨db', hrun, -, hseq, hall⟩ := notifySubscribers_idle mp _
      ⟨update db.point mp ((db.point mp).write w).1,
        update db.seqNum mp (advanceSequenceNumber (db.seqNum mp)), db.lists, db.sub⟩
      rfl hidle
    refine ⟨db', hrun, hseq, fun t => ⟨fun _ hin => (hall t).1 hin, ?_⟩⟩
    rintro (h | h)
    · cases h
    · exact (hall t).2 h

end Lists

end Db

end ColonyCore.Dm
