/-
  ColonyCore.Persistent.EntryDelivery
  **ENTRIES GO FROM THE RING TO THE LOG, ONCE AND IN ORDER.**

    • `Good`              — the count is what the ring holds less what the adds in
      progress have not counted yet, and an IDLE observer leaves nothing behind,
    • `entries_delivered` — every run in which at most one add finds the count invalid,
      and no callback sees the 16-bit sequence number come round,
    • `entry_stranded`    — two adds that both find the count invalid count ONE entry.
-/
import Mathlib.Data.List.Perm.Basic
import ColonyCore.Lib.Interleaving
import ColonyCore.Persistent.IndexedEntryServer

namespace ColonyCore.Persistent

open Container LittleEndian Dm List

/-! ## §1. The invariant. -/

namespace Callback

variable {α : Type}

/-- The entry in the hands of the server. -/
def entry? : Callback α → Option α
  | .isNotValid entry _ | .writeZero entry _ | .decrement entry _ | .addEntry entry _ => some entry
  | .outside | .readData | .attach _ _ _ | .loop _ | .returned => none

/-- An entry has left the ring and is still counted. -/
def uncounted : Callback α → Nat
  | .isNotValid _ _ | .writeZero _ _ | .decrement _ _ => 1
  | .outside | .readData | .attach _ _ _ | .loop _ | .addEntry _ _ | .returned => 0

/-- In the loop over the entries. -/
def draining : Callback α → Bool
  | .loop _ | .isNotValid _ _ | .writeZero _ _ | .decrement _ _ | .addEntry _ _ => true
  | .outside | .readData | .attach _ _ _ | .returned => false

end Callback

namespace EntryServer

variable {P : Platform} {α : Type}

/-- The observer has the number of the change that is `changes` changes ago. -/
def Synced (mp : Machine.Solo P) (changes : Nat) : Prop :=
  mp.phase = .calling () () ∧ mp.subscriber.seqNumber ≠ SEQUENCE_NUMBER_UNKNOWN
    ∧ mp.seq = advanceSequenceNumber^[changes] mp.subscriber.seqNumber

/-- **What is known at each place of the callback.**  Every entry that is taken changes the
count; a callback that saw no change since it read the count leaves nothing behind. -/
def CallbackGood (s : EntryServer P α) : Prop :=
  match s.callback with
  | .outside => s.mp.phase ≠ .calling () ()
  | .readData => s.mp.phase = .calling () ()
  | .attach valid count seqNum =>
    s.mp.phase = .calling () () ∧ seqNum ≠ SEQUENCE_NUMBER_UNKNOWN
      ∧ s.mp.seq = advanceSequenceNumber^[s.changes] seqNum ∧ (valid = true → s.valid = true)
      ∧ (s.changes = 0 → s.valid = valid ∧ s.count = count)
  | .loop iterations => Synced s.mp s.changes ∧ (0 < iterations → 0 < s.changes)
  | .isNotValid _ _ | .decrement _ _ => Synced s.mp s.changes
  | .writeZero _ _ => False
  | .addEntry _ _ => Synced s.mp s.changes ∧ 0 < s.changes
  | .returned => Synced s.mp s.changes ∧ (s.changes = 0 → s.adds = [] → s.ring.toList = [])

/-- **The invariant**, for a count that began at `d`. -/
structure Good (d : Nat) (s : EntryServer P α) : Prop where
  inv : Machine.Inv s.mp
  seq : s.mp.seq ≠ SEQUENCE_NUMBER_UNKNOWN
  size : s.mp.data.value.data.length = 4
  unlocked : s.mp.data.locked = false
  room : d + s.ring.memoryNumElements ≤ 2 ^ 32
  one : s.adds.count .writeOne ≤ 1
  first : .writeOne ∈ s.adds → s.valid = false
  invalid : s.valid = false →
    d = 0 ∧ s.ring.toList.length = s.adds.length ∧ .increment ∉ s.adds ∧ s.callback.draining = false
  counted : s.valid = true →
    (s.count + s.adds.length) % 2 ^ 32 = (d + s.ring.toList.length + s.callback.uncounted) % 2 ^ 32
  fifo : s.added = s.written ++ s.callback.entry?.toList ++ s.ring.toList
  idle : s.mp.subscriber.state = .eSTATE_IDLE → s.adds = [] → s.ring.toList = []
  closed : s.opened = false → s.mp.subscriber.point = none ∧ s.mp.phase = .idle
  opened : s.opened = true → s.mp.subscriber.point = some ()
  callback : s.CallbackGood

/-- At the start: an empty ring, and a count of `d` or none. -/
theorem good_init {ring : RingBuffer α} {data : PointData P} {d : Nat} (hring : ring.toList = [])
    (hsize : data.value.data.length = 4) (hunlocked : data.locked = false)
    (hcount : if data.value.valid then elementCount data = d else d = 0)
    (hroom : d + ring.memoryNumElements ≤ 2 ^ 32) : Good d (init ring data) where
  inv := Machine.inv_init _
  seq := (by decide : SEQUENCE_NUMBER_UNKNOWN + 1#16 ≠ SEQUENCE_NUMBER_UNKNOWN)
  size := hsize
  unlocked := hunlocked
  room := hroom
  one := Nat.zero_le _
  first h := nomatch h
  invalid h := by
    have hvalid : data.value.valid = false := h
    rw [hvalid] at hcount
    exact ⟨hcount, by rw [show (init ring data).ring = ring from rfl, hring]; rfl, (fun h => nomatch h), rfl⟩
  counted h := by
    have hvalid : data.value.valid = true := h
    rw [hvalid] at hcount
    show (elementCount data + 0) % _ = (d + ring.toList.length + 0) % _
    rw [hcount, hring]
    rfl
  fifo := hring.symm
  idle h := nomatch h
  closed _ := ⟨rfl, rfl⟩
  opened h := nomatch h
  callback := fun h => nomatch h

/-! ## §2. The producers. -/

variable {s : EntryServer P α} {d : Nat}

variable {mp' : Machine.Solo P} {newValue : Nat}

theorem Synced.write {mp : Machine.Solo P} {changes : Nat} (h : Synced mp changes)
    (hc : Counted mp mp' newValue) : Synced mp' (changes + 1) := by
  obtain ⟨hphase, hne, hseq⟩ := h
  refine ⟨hc.phase.trans hphase, hc.seqNumber ▸ hne, ?_⟩
  rw [hc.seq, hseq, hc.seqNumber, Function.iterate_succ_apply']

/-- The callback sees a change of the count by a producer. -/
theorem CallbackGood.write {adds : List AddPhase}
    (h : s.CallbackGood) (hc : Counted s.mp mp' newValue) :
    CallbackGood { s with adds := adds, mp := mp', changes := s.changes + 1 } := by
  unfold CallbackGood at h ⊢
  generalize s.callback = c at h ⊢
  cases c with
  | outside => exact fun hp => h (hc.phase.symm.trans hp)
  | readData => exact hc.phase.trans h
  | attach valid count seqNum =>
    obtain ⟨hphase, hne, hseq, -, -⟩ := h
    refine ⟨hc.phase.trans hphase, hne, ?_, fun _ => hc.valid, fun h0 => absurd h0 (Nat.succ_ne_zero _)⟩
    rw [hc.seq, hseq, Function.iterate_succ_apply']
  | loop iterations => exact ⟨h.1.write hc, fun _ => Nat.succ_pos _⟩
  | isNotValid entry iterations | decrement entry iterations => exact Synced.write h hc
  | writeZero entry iterations => exact h
  | addEntry entry iterations => exact ⟨h.1.write hc, Nat.succ_pos _⟩
  | returned => exact ⟨h.1.write hc, fun h0 => absurd h0 (Nat.succ_ne_zero _)⟩

/-- What is known at the place where the callback is. -/
theorem Good.callback_of (hg : Good d s) {c : Callback α} (hcb : s.callback = c) :
    CallbackGood { s with callback := c } := by
  subst hcb
  exact hg.callback

/-- **A change of the count**, by an add or by the server. -/
theorem Good.write (hg : Good d s) {adds : List AddPhase} (callback : Callback α)
    (hc : Counted s.mp mp' newValue) (hfirst : .writeOne ∉ adds)
    (hcount : (newValue % 2 ^ 32 + adds.length) % 2 ^ 32
      = (d + s.ring.toList.length + callback.uncounted) % 2 ^ 32)
    (hentry : callback.entry? = s.callback.entry?)
    (hcallback : CallbackGood
      { s with adds := adds, callback := callback, mp := mp', changes := s.changes + 1 }) :
    Good d { s with adds := adds, callback := callback, mp := mp', changes := s.changes + 1 } where
  inv := hc.inv
  seq := hc.seq ▸ advanceSequenceNumber_ne _
  size := hc.size
  unlocked := hc.unlocked
  room := hg.room
  one := by
    rw [count_eq_zero_of_not_mem hfirst]
    exact Nat.zero_le _
  first hmem := absurd hmem hfirst
  invalid hinvalid := nomatch hc.valid.symm.trans hinvalid
  counted _ := by
    show (elementCount mp'.data + adds.length) % _ = _
    rw [hc.count]
    exact hcount
  fifo := hentry ▸ hg.fifo
  idle hidle := absurd hidle hc.state
  closed hclosed := ⟨hc.point.trans (hg.closed hclosed).1, hc.phase.trans (hg.closed hclosed).2⟩
  opened hopened := hc.point.trans (hg.opened hopened)
  callback := hcallback

/-- **An add counts its entry.** -/
theorem Good.producer_write (hg : Good d s) (hi : i < s.adds.length)
    (hnew : s.valid = false ∨ newValue % 2 ^ 32 ≠ s.count)
    (hcount : (newValue % 2 ^ 32 + (s.adds.length - 1)) % 2 ^ 32
      = (d + s.ring.toList.length + s.callback.uncounted) % 2 ^ 32)
    (hfirst : .writeOne ∉ s.adds.eraseIdx i) :
    ∃ s', { s with adds := s.adds.eraseIdx i }.write newValue = .ok s' ∧ Good d s' := by
  obtain ⟨mp', hrun, hc⟩ := write_spec (s := { s with adds := s.adds.eraseIdx i }) hg.inv
    hg.size hg.unlocked hnew
  refine ⟨_, hrun, hg.write s.callback hc hfirst ?_ rfl (hg.callback.write hc)⟩
  rw [length_eraseIdx_of_lt hi]
  exact hcount

/-- The callback does not mind adds that begin or go on. -/
theorem CallbackGood.adds {ring : RingBuffer α} {adds : List AddPhase} {added : List α}
    (h : s.CallbackGood) (hring : adds = [] → s.adds = [] ∧ ring.toList = s.ring.toList) :
    CallbackGood { s with ring := ring, adds := adds, added := added } := by
  unfold CallbackGood at h ⊢
  cases hcb : s.callback with
  | returned =>
    rw [hcb] at h
    refine ⟨h.1, fun h0 hnil => ?_⟩
    obtain ⟨hadds, hsame⟩ := hring hnil
    rw [hsame]
    exact h.2 h0 hadds
  | _ =>
    rw [hcb] at h
    exact h

/-- **The ring operation of `add`.** -/
theorem Good.add (hg : Good d s) (item : α) : ∃ s', s.step (.add item) = .ok s' ∧ Good d s' := by
  unfold step
  simp only
  rcases s.ring.add_spec item with ⟨hfull, -⟩ | ⟨ring, hadd, hlist, hmem⟩
  · rw [hfull]
    exact ⟨s, rfl, hg⟩
  · rw [hadd]
    have hne : s.adds ++ [AddPhase.isNotValid] ≠ [] := by simp
    have hlen : ring.toList.length = s.ring.toList.length + 1 := by rw [hlist, length_append]; rfl
    refine ⟨_, rfl, ?_⟩
    exact
      { hg with
        room := hmem ▸ hg.room
        one := by simpa using hg.one
        first := fun hin => hg.first (by simpa using hin)
        invalid := fun hinvalid => by
          obtain ⟨hd, hsame, hinc, hcb⟩ := hg.invalid hinvalid
          refine ⟨hd, ?_, by simpa using hinc, hcb⟩
          show ring.toList.length = (s.adds ++ [AddPhase.isNotValid]).length
          rw [hlen, hsame, length_append]
          rfl
        counted := fun hvalid => by
          have hcounted := hg.counted hvalid
          show (s.count + (s.adds ++ [AddPhase.isNotValid]).length) % _
            = (d + ring.toList.length + s.callback.uncounted) % _
          rw [hlen, length_append, length_singleton]
          omega
        fifo := by
          show s.added ++ [item] = s.written ++ s.callback.entry?.toList ++ ring.toList
          rw [hlist, hg.fifo]
          simp
        idle := fun _ hnil => absurd hnil hne
        callback := hg.callback.adds fun hnil => absurd hnil hne }

/-- **The test of an add**: at most one finds the count invalid and has not written it. -/
theorem Good.test (hg : Good d s) (hi : i < s.adds.length)
    (hmeets : s.valid = false → .writeOne ∉ s.adds) :
    Good d { s with adds := s.adds.set i (if s.valid then .increment else .writeOne) } := by
  have hnil : ∀ x, s.adds.set i x = [] → s.adds = [] := by simp
  have hnone : .writeOne ∉ s.adds := by
    cases hvalid : s.valid with
    | false => exact hmeets hvalid
    | true => exact fun hmem => nomatch hvalid.symm.trans (hg.first hmem)
  have hcount : s.adds.count .writeOne = 0 := count_eq_zero_of_not_mem hnone
  exact
    { hg with
      one := by
        rw [count_set hi]
        split_ifs <;> omega
      first := fun hmem => by
        show s.valid = false
        by_contra hvalid
        rcases mem_or_eq_of_mem_set hmem with hmem | heq
        · exact hnone hmem
        · rw [if_pos (by simpa using hvalid)] at heq
          cases heq
      invalid := fun hinvalid => by
        obtain ⟨hd, hlen, hinc, hcb⟩ := hg.invalid hinvalid
        refine ⟨hd, by rw [length_set]; exact hlen, fun hmem => ?_, hcb⟩
        have hinvalid' : s.valid = false := hinvalid
        rcases mem_or_eq_of_mem_set hmem with hmem | heq
        · exact hinc hmem
        · rw [hinvalid'] at heq
          cases heq
      counted := fun hvalid => by
        have hcounted := hg.counted hvalid
        rw [length_set]
        exact hcounted
      idle := fun hidle h => hg.idle hidle (hnil _ h)
      callback := (hg.callback.adds (fun h => ⟨hnil _ h, rfl⟩) :
        CallbackGood { s with ring := s.ring, adds := s.adds.set i _, added := s.added }) }

/-- **The condition**: no add tests the count while another one has found it invalid and
not written it yet, and the count changes less than 65535 times from the read of a callback
to its end. -/
def Meets (s : EntryServer P α) : ServerEvent α → Prop
  | .producer i => s.adds[i]? = some .isNotValid → s.valid = false → .writeOne ∉ s.adds
  | .server => s.callback = .returned → s.changes < 65535
  | .add _ | .openRequest => True

section

variable (hg : Good d s)

include hg

/-- **A section of an add in progress.** -/
theorem Good.stepAdd (hmeets : s.Meets (.producer i)) :
    ∃ s', s.step (.producer i) = .ok s' ∧ Good d s' := by
  show ∃ s', s.stepAdd i = .ok s' ∧ Good d s'
  unfold EntryServer.stepAdd
  cases hadd : s.adds[i]? with
  | none => exact ⟨s, rfl, hg⟩
  | some phase =>
    obtain ⟨hi, hphase⟩ := List.getElem?_eq_some_iff.mp hadd
    cases phase with
    | isNotValid => exact ⟨_, rfl, hg.test hi (hmeets hadd)⟩
    | writeOne =>
      have hmem : .writeOne ∈ s.adds := hphase ▸ List.getElem_mem hi
      have hinvalid := hg.first hmem
      obtain ⟨hd, hlen, -, hcb⟩ := hg.invalid hinvalid
      have huncounted : s.callback.uncounted = 0 := by
        generalize s.callback = c at hcb
        cases c <;> first | rfl | cases hcb
      refine hg.producer_write hi (.inl hinvalid) ?_ ?_
      · omega
      · -- the one that found the count invalid is this one
        have hperm := (getElem_cons_eraseIdx_perm hi).count_eq AddPhase.writeOne
        rw [hphase, count_cons_self] at hperm
        have hone := hg.one
        exact count_eq_zero.mp (by omega)
    | increment =>
      have hmem : .increment ∈ s.adds := hphase ▸ List.getElem_mem hi
      have hvalid : s.valid = true := by
        by_contra hinvalid
        exact (hg.invalid (by simpa using hinvalid)).2.2.1 hmem
      have hcounted := hg.counted hvalid
      refine hg.producer_write hi (.inr (by omega)) ?_ ?_
      · omega
      · exact fun hmem' => nomatch hvalid.symm.trans (hg.first (mem_of_mem_eraseIdx hmem'))

/-! ## §3. The server. -/

/-- The server can go on, and the invariant with it. -/
abbrev ServerKeeps (d : Nat) (s : EntryServer P α) : Prop :=
  ∃ s', s.stepServer = .ok s' ∧ Good d s'

/-- A step of the server that neither takes an entry nor changes the count. -/
theorem Good.move {callback' : Callback α} {opened' : Bool} {changes' : Nat}
    (hinv : Machine.Inv mp') (hdata : mp'.data = s.mp.data) (hseq : mp'.seq = s.mp.seq)
    (hentry : callback'.entry? = s.callback.entry? ∧ callback'.uncounted = s.callback.uncounted)
    (hdraining : s.valid = false → callback'.draining = false)
    (hidle : mp'.subscriber.state = .eSTATE_IDLE → s.adds = [] → s.ring.toList = [])
    (hclosed : opened' = false → mp'.subscriber.point = none ∧ mp'.phase = .idle)
    (hopened : opened' = true → mp'.subscriber.point = some ())
    (hcallback : CallbackGood
      { s with mp := mp', callback := callback', opened := opened', changes := changes' }) :
    Good d { s with mp := mp', callback := callback', opened := opened', changes := changes' } where
  inv := hinv
  seq := hseq ▸ hg.seq
  size := hdata ▸ hg.size
  unlocked := hdata ▸ hg.unlocked
  room := hg.room
  one := hg.one
  first hmem := by
    show mp'.data.value.valid = false
    rw [hdata]
    exact hg.first hmem
  invalid hinvalid := by
    change mp'.data.value.valid = false at hinvalid
    rw [hdata] at hinvalid
    obtain ⟨hd, hlen, hinc, -⟩ := hg.invalid hinvalid
    exact ⟨hd, hlen, hinc, hdraining hinvalid⟩
  counted hvalid := by
    change mp'.data.value.valid = true at hvalid
    show (elementCount mp'.data + s.adds.length) % _ = (d + s.ring.toList.length + callback'.uncounted) % _
    rw [hdata] at hvalid ⊢
    rw [hentry.2]
    exact hg.counted hvalid
  fifo := by
    rw [hentry.1]
    exact hg.fifo
  idle := hidle
  closed := hclosed
  opened := hopened
  callback := hcallback

/-- One that only moves on in the callback. -/
theorem Good.goOn {callback' : Callback α} {changes' : Nat}
    (hentry : callback'.entry? = s.callback.entry? ∧ callback'.uncounted = s.callback.uncounted)
    (hdraining : s.valid = false → callback'.draining = false)
    (hcallback : CallbackGood { s with callback := callback', changes := changes' }) :
    Good d { s with callback := callback', changes := changes' } :=
  hg.move hg.inv rfl rfl hentry hdraining hg.idle hg.closed hg.opened hcallback

/-- **The server is opened.** -/
theorem Good.openRequest : ∃ s', s.step .openRequest = .ok s' ∧ Good d s' := by
  unfold step
  simp only
  cases hopened : s.opened with
  | true => exact ⟨s, rfl, hg⟩
  | false =>
    obtain ⟨hpoint, hphase⟩ := hg.closed hopened
    obtain ⟨mp', hrun, hinv, hphase', hdata, hseq, hpoint', hstate⟩ :=
      Machine.solo_attach hg.inv hg.seq hpoint hphase
    have houtside : s.callback = .outside := by
      have hcbg := hg.callback
      unfold CallbackGood Synced at hcbg
      generalize s.callback = c at hcbg
      rw [hphase] at hcbg
      cases c <;> simp at hcbg ⊢
    refine ⟨{ s with opened := true, mp := mp' }, ?_, ?_⟩
    · simp only [Bool.false_eq_true, if_false, stepMp, hrun]
      rfl
    · refine hg.move hinv hdata hseq ⟨rfl, rfl⟩ (fun hi => (hg.invalid hi).2.2.2)
        (fun hidle => absurd hidle hstate) (fun hc => nomatch hc) (fun _ => hpoint') ?_
      unfold CallbackGood
      simp only [houtside]
      rw [hphase']
      exact fun heq => nomatch heq

/-- The observer is in its callback. -/
theorem Good.notifying (hphase : s.mp.phase = .calling () ()) :
    s.mp.subscriber.state = .eSTATE_NOTIFY_NOTIFYING ∧ s.mp.subscriber.point = some ()
      ∧ s.opened = true := by
  have hopened : s.opened = true := by
    by_contra hclosed
    have := (hg.closed (by simpa using hclosed)).2
    rw [hphase] at this
    cases this
  have hpoint := hg.opened hopened
  refine ⟨?_, hpoint, hopened⟩
  have hc := hg.inv ()
  have hrole : Machine.role s.mp.phase () = .calling () := by
    rw [hphase]
    simp [Machine.role]
  rw [hrole] at hc
  unfold Machine.subscriber at hpoint ⊢
  generalize s.mp.db.sub () = a at hc hpoint ⊢
  generalize s.mp.db.lists.inList () = l at hc
  cases hc with
  | notifying mp started n => rfl
  | pendingDetach started n => cases hpoint

/-- On the way to the callback. -/
theorem Good.server_outside (hcb : s.callback = .outside) : s.ServerKeeps d := by
  have hphase : s.mp.phase ≠ .calling () () := hg.callback_of hcb
  obtain ⟨mp', hrun, hinv, hdata, hseq, hpoint, hidle, hcalling⟩ := Machine.solo_loop hg.inv hphase
  refine ⟨{ s with mp := mp', callback := if mp'.phase = .calling () () then .readData else .outside }, ?_, ?_⟩
  · unfold EntryServer.stepServer
    simp only [hcb, stepMp, hrun]
    rfl
  · have hclosed : s.opened = false → mp'.subscriber.point = none ∧ mp'.phase = .idle := by
      intro hc
      have hnone : mp'.subscriber.point = none := hpoint.trans (hg.closed hc).1
      exact ⟨hnone, Machine.Inv.idle_of_detached hinv hnone hcalling⟩
    refine hg.move hinv hdata hseq ?_ (fun _ => ?_) (fun h => hg.idle (hidle h)) hclosed
      (fun h => hpoint.trans (hg.opened h)) ?_ <;> split_ifs with hp
    all_goals first | exact hp | rfl | (rw [hcb]; exact ⟨rfl, rfl⟩)

/-- `readData`. -/
theorem Good.server_readData (hcb : s.callback = .readData) : s.ServerKeeps d := by
  have hphase : s.mp.phase = .calling () () := hg.callback_of hcb
  refine ⟨_, by unfold EntryServer.stepServer; rw [hcb], ?_⟩
  refine hg.goOn (by rw [hcb]; exact ⟨rfl, rfl⟩) (fun _ => rfl) ?_
  exact ⟨hphase, hg.seq, rfl, id, fun _ => ⟨rfl, rfl⟩⟩

/-- **The count that was read decides.**  A callback that does not drain saw no count, or
zero: then the ring is empty, or an add has still to count. -/
theorem Good.server_attach {valid : Bool} {count : Nat} {seqNum : SeqNum}
    (hcb : s.callback = .attach valid count seqNum) : s.ServerKeeps d := by
  obtain ⟨hphase, hne, hseq, hvalid, hread⟩ := hg.callback_of hcb
  obtain ⟨hstate, -, hopened⟩ := hg.notifying hphase
  obtain ⟨mp', hrun, hinv, hphase', hdata, hseq', hsub⟩ := Machine.solo_sync hg.inv hstate seqNum
  refine ⟨{ s with mp := mp', callback := if valid ∧ 0 < count then .loop 0 else .returned }, ?_, ?_⟩
  · unfold EntryServer.stepServer
    simp only [hcb, stepMp, hrun]
    rfl
  · have hidle : mp'.subscriber.state = .eSTATE_IDLE → s.adds = [] → s.ring.toList = [] := by
      rw [hsub]
      exact fun h => nomatch h
    have hclosed : s.opened = false → mp'.subscriber.point = none ∧ mp'.phase = .idle := by
      rw [hopened]
      exact fun h => nomatch h
    have hsynced : Synced mp' s.changes := by
      refine ⟨hphase'.trans hphase, ?_, ?_⟩
      · rw [hsub]
        exact hne
      · rw [hseq', hsub]
        exact hseq
    by_cases hdrain : valid = true ∧ 0 < count
    · rw [if_pos hdrain]
      exact hg.move hinv hdata hseq' (by rw [hcb]; exact ⟨rfl, rfl⟩)
        (fun hi => nomatch (hvalid hdrain.1).symm.trans hi) hidle hclosed (fun _ => by rw [hsub])
        ⟨hsynced, fun h => absurd h (Nat.lt_irrefl 0)⟩
    · rw [if_neg hdrain]
      refine hg.move hinv hdata hseq' (by rw [hcb]; exact ⟨rfl, rfl⟩) (fun _ => rfl) hidle hclosed
        (fun _ => by rw [hsub]) ⟨hsynced, fun h0 hadds => ?_⟩
      obtain ⟨hv, hc⟩ : s.valid = valid ∧ s.count = count := hread h0
      refine eq_nil_of_length_eq_zero ?_
      show s.ring.toList.length = 0
      change s.adds = [] at hadds
      cases hvalid' : s.valid with
      | false =>
        rw [(hg.invalid hvalid').2.1, hadds]
        rfl
      | true =>
        have hcounted := hg.counted hvalid'
        have hzero : s.count = 0 := by
          by_contra hpos
          exact hdrain ⟨hv ▸ hvalid', by omega⟩
        have hlt : s.ring.toList.length < s.ring.memoryNumElements := by
          rw [RingBuffer.length_toList]
          exact s.ring.getNumItems_lt
        have hroom := hg.room
        have huncounted : s.callback.uncounted = 0 := by rw [hcb]; rfl
        rw [hadds, length_nil] at hcounted
        omega

/-- A server that drains has a valid count. -/
theorem Good.valid_of_draining (hdraining : s.callback.draining = true) :
    s.valid = true := by
  by_contra hinvalid
  rw [(hg.invalid (by simpa using hinvalid)).2.2.2] at hdraining
  cases hdraining

theorem Good.not_idle (hphase : s.mp.phase = .calling () ()) :
    s.mp.subscriber.state ≠ .eSTATE_IDLE := by
  rw [(hg.notifying hphase).1]
  exact fun h => nomatch h

variable {iterations : Nat}

/-- **The head of the loop**: the next entry leaves the ring, or the callback ends. -/
theorem Good.server_loop (hcb : s.callback = .loop iterations) : s.ServerKeeps d := by
  obtain ⟨hsynced, hchanges⟩ := hg.callback_of hcb
  have hnot := hg.not_idle hsynced.1
  unfold ServerKeeps EntryServer.stepServer
  simp only [hcb]
  by_cases hbatch : iterations < MAX_BATCH_WRITE
  · rw [if_pos hbatch]
    rcases s.ring.remove_spec with ⟨hremove, hempty⟩ | ⟨entry, ring, hremove, hlist, hmem⟩
    · rw [hremove]
      refine ⟨_, rfl, ?_⟩
      refine hg.goOn (by rw [hcb]; exact ⟨rfl, rfl⟩) (fun _ => rfl) ?_
      exact ⟨hsynced, fun _ _ => hempty⟩
    · rw [hremove]
      have hvalid : s.valid = true := hg.valid_of_draining (by rw [hcb]; rfl)
      have hlen : s.ring.toList.length = ring.toList.length + 1 := by rw [hlist, length_cons]
      refine ⟨_, rfl, ?_⟩
      exact
        { hg with
          room := hmem ▸ hg.room
          invalid := fun hinvalid => nomatch hvalid.symm.trans hinvalid
          counted := fun _ => by
            have hcounted := hg.counted hvalid
            rw [hlen, hcb] at hcounted
            exact hcounted
          fifo := by
            have hfifo := hg.fifo
            rw [hlist, hcb] at hfifo
            show s.added = s.written ++ [entry] ++ ring.toList
            rw [hfifo]
            simp [Callback.entry?]
          idle := fun hidle => absurd hidle hnot
          callback := hsynced }
  · rw [if_neg hbatch]
    refine ⟨_, rfl, ?_⟩
    refine hg.goOn (by rw [hcb]; exact ⟨rfl, rfl⟩) (fun _ => rfl) ?_
    have hpos : 0 < s.changes := hchanges (by unfold MAX_BATCH_WRITE at hbatch; omega)
    exact ⟨hsynced, fun h0 => absurd h0 (by show s.changes ≠ 0; omega)⟩

variable {entry : α}

/-- The test of `decrementMp`. -/
theorem Good.server_isNotValid (hcb : s.callback = .isNotValid entry iterations) : s.ServerKeeps d := by
  have hsynced : Synced s.mp s.changes := hg.callback_of hcb
  have hvalid : s.valid = true := hg.valid_of_draining (by rw [hcb]; rfl)
  refine ⟨{ s with callback := .decrement entry iterations }, ?_, ?_⟩
  · unfold EntryServer.stepServer
    simp [hcb, hvalid]
  · exact hg.goOn (by rw [hcb]; exact ⟨rfl, rfl⟩)
      (fun hinvalid => nomatch hvalid.symm.trans hinvalid) hsynced

/-- **`decrement`** is a change of the count. -/
theorem Good.server_decrement (hcb : s.callback = .decrement entry iterations) : s.ServerKeeps d := by
  have hsynced : Synced s.mp s.changes := hg.callback_of hcb
  have hvalid : s.valid = true := hg.valid_of_draining (by rw [hcb]; rfl)
  have hnew : s.valid = false ∨ (s.count + (2 ^ 32 - 1)) % 2 ^ 32 ≠ s.count := .inr (by omega)
  obtain ⟨mp', hrun, hc⟩ := write_spec (s := { s with callback := .addEntry entry iterations }) hg.inv hg.size
    hg.unlocked hnew
  refine ⟨_, by unfold EntryServer.stepServer; rw [hcb]; exact hrun,
    hg.write (.addEntry entry iterations) hc
      (fun hmem => nomatch hvalid.symm.trans (hg.first hmem)) ?_ (by rw [hcb]; rfl)
      ⟨hsynced.write hc, Nat.succ_pos _⟩⟩
  have hcounted := hg.counted hvalid
  rw [hcb] at hcounted
  change (s.count + s.adds.length) % 2 ^ 32 = (d + s.ring.toList.length + 1) % 2 ^ 32 at hcounted
  show _ = (d + s.ring.toList.length + 0) % _
  omega

/-- `addEntry`. -/
theorem Good.server_addEntry (hcb : s.callback = .addEntry entry iterations) : s.ServerKeeps d := by
  obtain ⟨hsynced, hchanges⟩ := hg.callback_of hcb
  have hvalid : s.valid = true := hg.valid_of_draining (by rw [hcb]; rfl)
  refine ⟨_, by unfold EntryServer.stepServer; rw [hcb], ?_⟩
  exact
    { hg with
      invalid := fun hinvalid => nomatch hvalid.symm.trans hinvalid
      counted := fun _ => by
        have hcounted := hg.counted hvalid
        rw [hcb] at hcounted
        exact hcounted
      fifo := by
        have hfifo := hg.fifo
        rw [hcb] at hfifo
        rw [hfifo]
        simp [Callback.entry?]
      callback := ⟨hsynced, fun _ => hchanges⟩ }

/-- **The end of the callback**: an observer that becomes IDLE has seen the latest change,
so it leaves nothing behind. -/
theorem Good.server_returned (hcb : s.callback = .returned)
    (hmeets : s.changes < 65535) : s.ServerKeeps d := by
  obtain ⟨⟨hphase, hne, hseq⟩, hnothing⟩ := hg.callback_of hcb
  obtain ⟨-, hpoint, hopened⟩ := hg.notifying hphase
  obtain ⟨mp', hrun, hinv, hphase', hdata, hseq', hpoint', hidle⟩ := Machine.solo_complete hg.inv hphase hpoint
  refine ⟨{ s with mp := mp', callback := .outside }, ?_, ?_⟩
  · unfold EntryServer.stepServer
    simp only [hcb, stepMp, hrun]
    rfl
  · refine hg.move hinv hdata hseq' (by rw [hcb]; exact ⟨rfl, rfl⟩) (fun _ => rfl) ?_ ?_ (fun _ => hpoint') ?_
    · intro hstate
      have hsame := hidle hstate
      rw [hseq] at hsame
      exact hnothing (eq_zero_of_advance hne hmeets hsame)
    · rw [hopened]
      exact fun h => nomatch h
    · show mp'.phase ≠ _
      rw [hphase']
      exact fun h => nomatch h

end

/-- **A section of the server.** -/
theorem Good.stepServer (hg : Good d s) (hmeets : s.Meets .server) :
    ∃ s', s.step .server = .ok s' ∧ Good d s' := by
  cases hcb : s.callback with
  | outside => exact hg.server_outside hcb
  | readData => exact hg.server_readData hcb
  | attach valid count seqNum => exact hg.server_attach hcb
  | loop iterations => exact hg.server_loop hcb
  | isNotValid entry iterations => exact hg.server_isNotValid hcb
  | writeZero entry iterations => exact (hg.callback_of hcb).elim
  | decrement entry iterations => exact hg.server_decrement hcb
  | addEntry entry iterations => exact hg.server_addEntry hcb
  | returned => exact hg.server_returned hcb (hmeets hcb)

/-! ## §4. Every run. -/

instance (s : EntryServer P α) [DecidableEq α] : (e : ServerEvent α) → Decidable (s.Meets e)
  | .producer i => inferInstanceAs
      (Decidable (s.adds[i]? = some .isNotValid → s.valid = false → .writeOne ∉ s.adds))
  | .server => inferInstanceAs (Decidable (s.callback = .returned → s.changes < 65535))
  | .add _ | .openRequest => inferInstanceAs (Decidable True)

/-- All steps of a run meet the condition. -/
abbrev MeetsAll : EntryServer P α → List (ServerEvent α) → Prop :=
  Interleaving.Along (fun s e => (s.step e).toOption) Meets

/-- **One step** keeps the invariant. -/
theorem Good.step (hg : Good d s) {e : ServerEvent α} (hmeets : s.Meets e) :
    ∃ s', s.step e = .ok s' ∧ Good d s' := by
  cases e with
  | add item => exact hg.add item
  | producer i => exact hg.stepAdd hmeets
  | openRequest => exact hg.openRequest
  | server => exact hg.stepServer hmeets

/-- **Every run** keeps the invariant, and meets no fatal error. -/
theorem Good.run (hg : Good d s) {es : List (ServerEvent α)} (hmeets : s.MeetsAll es) :
    ∃ s', s.run es = .ok s' ∧ Good d s' := by
  induction es generalizing s with
  | nil => exact ⟨s, rfl, hg⟩
  | cons e es ih =>
    obtain ⟨hfirst, hrest⟩ := hmeets
    obtain ⟨s₁, hstep, hg₁⟩ := hg.step hfirst
    obtain ⟨s', hrun, hg'⟩ := ih hg₁ (hrest s₁ (congrArg Except.toOption hstep))
    refine ⟨s', ?_, hg'⟩
    unfold EntryServer.run
    rw [hstep]
    exact hrun

/-- No add is in progress, and no notification of the open server is pending or running. -/
def Quiet (s : EntryServer P α) : Prop := s.adds = [] ∧ s.mp.subscriber.state = .eSTATE_IDLE

/-- **Entries are delivered**: what was passed to `addEntry` is what was added to the ring
first, in order and once each; and it is everything when all is quiet. -/
structure Delivered (s : EntryServer P α) : Prop where
  order : s.written <+: s.added
  quiet : s.Quiet → s.ring.toList = [] ∧ s.written = s.added

theorem Good.delivered (hg : Good d s) : s.Delivered where
  order := by
    rw [hg.fifo, append_assoc]
    exact prefix_append _ _
  quiet hquiet := by
    obtain ⟨hadds, hidle⟩ := hquiet
    have hempty := hg.idle hidle hadds
    have hphase : s.mp.phase ≠ .calling () () := fun hp => hg.not_idle hp hidle
    have hentry : s.callback.entry? = none := by
      have hcbg := hg.callback
      unfold CallbackGood at hcbg
      generalize s.callback = c at hcbg
      cases c with
      | isNotValid entry iterations | decrement entry iterations => exact absurd hcbg.1 hphase
      | writeZero entry iterations => exact absurd hcbg id
      | addEntry entry iterations => exact absurd hcbg.1.1 hphase
      | _ => rfl
    rw [hg.fifo, hempty, hentry]
    simp

/-- **NO ENTRY IS STRANDED.**  The ring is empty at the start, and the count invalid or
at a value that it does not pass 2 ^ 32 from.  In every run whose steps meet the condition
entries are delivered. -/
theorem entries_delivered (ring : RingBuffer α) (hring : ring.toList = []) (data : PointData P)
    (hsize : data.value.data.length = 4) (hunlocked : data.locked = false)
    (hroom : (if data.value.valid then elementCount data else 0) + ring.memoryNumElements ≤ 2 ^ 32)
    (es : List (ServerEvent α)) (hmeets : (init ring data).MeetsAll es) :
    ∃ s, (init ring data).run es = .ok s ∧ s.Delivered := by
  have hcount : if data.value.valid then elementCount data = (if data.value.valid then elementCount data else 0)
      else (if data.value.valid then elementCount data else 0) = 0 := by
    cases data.value.valid <;> simp
  obtain ⟨s, hrun, hg⟩ := (good_init hring hsize hunlocked hcount hroom).run hmeets
  exact ⟨s, hrun, hg.delivered⟩

/-- A count that was never written. -/
def noCount : PointData .default64 :=
  ⟨⟨none, [0#8, 0#8, 0#8, 0#8], false, MpValue.noElements _⟩, false⟩

/-- A server over a ring with room for seven entries. -/
def sevenEntries : EntryServer .default64 Nat := init (RingBuffer.init (fun _ => 0) 8 (by decide)) noCount

/-- While the server drains the first entry two more are added, their sections interleaved
with each other and with the server's. -/
def overlappingAdds : List (ServerEvent Nat) :=
  [.openRequest, .add 7, .producer 0, .producer 0, .server, .server, .server, .server, .server,
    .add 8, .add 9, .producer 1, .server, .producer 0, .producer 1, .server, .producer 0]
    ++ replicate 40 .server

theorem entries_delivered_overlapping : ∃ s, sevenEntries.run overlappingAdds = .ok s
    ∧ s.Delivered ∧ s.Quiet ∧ s.written = [7, 8, 9] := by
  have hdelivered : ∃ s, sevenEntries.run overlappingAdds = .ok s ∧ s.Delivered :=
    entries_delivered _ rfl noCount rfl rfl (by decide) overlappingAdds (by decide)
  obtain ⟨s, hrun, hs⟩ := hdelivered
  refine ⟨s, hrun, hs, ?_⟩
  cases hrun
  exact ⟨⟨rfl, rfl⟩, rfl⟩

/-- Two adds find the count invalid and both write 1; three more follow before the server
runs. -/
def twoFirst : List (ServerEvent Nat) :=
  [.openRequest, .add 1, .add 2, .producer 0, .producer 1, .producer 0, .producer 0,
    .add 3, .producer 0, .producer 0, .add 4, .producer 0, .producer 0, .add 5, .producer 0, .producer 0]
    ++ replicate 40 .server

/-- **AN ENTRY IS STRANDED.**  The count is one below what the ring holds; the server
drains a batch of four, reads a count of zero, and leaves the fifth entry in the ring with
nothing to wake it up. -/
theorem entry_stranded : ∃ s, sevenEntries.run twoFirst = .ok s ∧ s.Quiet ∧ s.ring.toList = [5]
    ∧ s.written = [1, 2, 3, 4] :=
  ⟨_, rfl, ⟨rfl, rfl⟩, rfl, rfl⟩

end EntryServer

end ColonyCore.Persistent
