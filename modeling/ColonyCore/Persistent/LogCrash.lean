/-
  ColonyCore.Persistent.LogCrash
  **RUNS OF THE INDEXED LOG WITH POWER CUTS.**

  A machine is a log, whether it is started, and the entries its callers count
  on.  Its events are `addEntry`, a power cut at any byte of the region writes of
  an `addEntry`, a restart, and a cut at any byte of the writes of a restart.

    • `Machine.Inv`, `Inv.step`   — what every event preserves,
    • `reachable_recovers`        — every run whose cuts leave no mixture in the
      head pointer of region B recovers: the head is the greatest entry and every
      acknowledged entry is readable,
    • `restart_trusts_mixture`    — a run whose cut does leave a mixture does not.
-/
import ColonyCore.Persistent.LogRing

namespace ColonyCore.Persistent

open ByteStore LittleEndian Function List
open MirroredChunk (FRAME_OVERHEAD frameOf)
open IndexRecord (encode getPayloadSize length_encode)

variable {P : Platform} {g : Geometry P}

/-! ## §1. The machine. -/

/-- A log, whether it has been started since the last power cut, and the entries
that were acknowledged and whose slot was not the target of a later `addEntry`. -/
structure Machine (g : Geometry P) where
  log : Log g
  powered : Bool
  acked : Ring

/-- What can happen to a machine. -/
inductive Event (g : Geometry P) where
  /-- `addEntry` runs to its end. -/
  | add (e : Entry g)
  /-- `addEntry` is cut after `k` bytes of its region writes. -/
  | addCut (e : Entry g) (k : Nat)
  /-- The power is cycled and `start` runs to its end. -/
  | restart
  /-- `start` is cut after `k` bytes of its region writes. -/
  | restartCut (k : Nat)

namespace Machine

/-- One event; `none` is an event that does not apply, or a failed assertion. -/
def step (m : Machine g) : Event g → Option (Machine g)
  | .add e =>
    if m.powered then
      (m.log.addEntry (.ofBytes e.bytes) .none).map fun r =>
        ⟨r.1, true, update m.acked m.log.targetSlot
          (if r.2 then some (m.log.nextTimestamp, e.bytes) else none)⟩
    else none
  | .addCut e k =>
    if m.powered then
      some ⟨m.log.withMedia (m.log.cut e k), false, update m.acked m.log.targetSlot none⟩
    else none
  | .restart => m.log.start.map fun s => ⟨s, true, m.acked⟩
  | .restartCut k =>
    some ⟨m.log.withMedia (storeCut m.log.media m.log.startWrites k), false, m.acked⟩

/-- **The assumption about the CRC** for one event: a frame that is neither as it
was nor completely written fails. -/
def CrcAssumed (m : Machine g) : Event g → Prop
  | .add e =>
    SlotsCrc g (m.log.media .entries) (m.log.added e .entries) (m.log.added e .entries)
  | .addCut e k =>
    IndexCrc m.log (m.log.added e) (m.log.cut e k)
      ∧ SlotsCrc g (m.log.media .entries) (m.log.added e .entries) (m.log.cut e k .entries)
  | .restart => True
  | .restartCut k =>
    IndexCrc m.log (storeAll m.log.media m.log.startWrites) (storeCut m.log.media m.log.startWrites k)

/-- **The condition**: no cut leaves the head pointer of region B as a mixture of the
old one and the new one while region A is accepted. -/
def CutIntact (m : Machine g) : Event g → Prop
  | .add _ => True
  | .addCut e k => HeadIntact m.log (m.log.added e) (m.log.cut e k)
  | .restart => True
  | .restartCut k =>
    HeadIntact m.log (storeAll m.log.media m.log.startWrites) (storeCut m.log.media m.log.startWrites k)

/-- Runs of `n` events, each under the assumption about the CRC and the condition
`cond`. -/
inductive Run (cond : Machine g → Event g → Prop) (m₀ : Machine g) : Nat → Machine g → Prop
  | nil : Run cond m₀ 0 m₀
  | step {n : Nat} {m m' : Machine g} {ev : Event g} : Run cond m₀ n m → CrcAssumed m ev → cond m ev →
      m.step ev = some m' → Run cond m₀ (n + 1) m'

end Machine

/-! ## §2. What recovery means. -/

/-- **The head is the greatest entry**, by the reads of the code itself: it names the
slot and the index value of the entry with the greatest index value among all slots
that pass the CRC; (0, 0) when none does. -/
def HeadIsGreatest (s : Log g) : Prop :=
  ((∀ j, j < g.maxEntries → (s.readFromMedia none (j * g.entrySize)).found = false)
      ∧ s.latestOffset = 0 ∧ s.latestTimestamp = 0)
    ∨ ∃ j, j < g.maxEntries ∧ (s.readFromMedia none (j * g.entrySize)).found = true
      ∧ s.latestOffset = j * g.entrySize
      ∧ s.latestTimestamp = (s.readFromMedia none (j * g.entrySize)).log.entryTimestamp
      ∧ ∀ i, i < g.maxEntries → (s.readFromMedia none (i * g.entrySize)).found = true →
          (s.readFromMedia none (i * g.entrySize)).log.entryTimestamp ≤ s.latestTimestamp

/-- **Recovered**: the head is the greatest entry, and every acknowledged entry is
read back with its own payload and index value. -/
def Recovered (s : Log g) (acked : Ring) : Prop :=
  HeadIsGreatest s
    ∧ ∀ j ts d, j < g.maxEntries → acked j = some (ts, d) → ∀ dst : Payload, dst.putData d = true →
        (s.getByOffset dst (j * g.entrySize)).2 = some (d, ⟨ts, j * g.entrySize⟩)

variable {s : Log g} {σ : Ring}

theorem Slots.found (hreg : s.chunk.region = .entries)
    (h : Slots g (s.media .entries) σ) {j : Nat} (hj : j < g.maxEntries) :
    (σ j = none ∧ (s.readFromMedia none (j * g.entrySize)).found = false)
      ∨ ∃ ts d, σ j = some (ts, d) ∧ (s.readFromMedia none (j * g.entrySize)).found = true
        ∧ (s.readFromMedia none (j * g.entrySize)).log.entryTimestamp = ts := by
  have hslot := h j hj
  cases hσ : σ j with
  | none =>
    rw [hσ] at hslot
    obtain ⟨s', hread, -⟩ := Log.readFromMedia_none hreg hslot none
    rw [hread]
    exact .inl ⟨rfl, rfl⟩
  | some e =>
    obtain ⟨ts, d⟩ := e
    rw [hσ] at hslot
    obtain ⟨s', hread, -, hts, -⟩ := Log.readFromMedia_some hreg hslot.2 none
    rw [hread]
    exact .inr ⟨ts, d, rfl, rfl, hts⟩

theorem Greatest.headIsGreatest (hreg : s.chunk.region = .entries)
    (hslots : Slots g (s.media .entries) σ)
    (h : Greatest g σ g.maxEntries (s.latestOffset, s.latestTimestamp)) : HeadIsGreatest s := by
  rcases h with ⟨hnone, hp⟩ | ⟨j, d, hj, hσ, hoff, hmax⟩
  · refine .inl ⟨?_, congrArg Prod.fst hp, congrArg Prod.snd hp⟩
    intro j hj
    rcases hslots.found hreg hj with ⟨-, hno⟩ | ⟨ts, d, hσ, -⟩
    · exact hno
    · rw [hnone j hj] at hσ
      cases hσ
  · refine .inr ⟨j, hj, ?_⟩
    rcases hslots.found hreg hj with ⟨hno, -⟩ | ⟨ts, d', hσ', hfound, hts⟩
    · rw [hσ] at hno
      cases hno
    rw [hσ] at hσ'
    obtain ⟨rfl, -⟩ := Prod.mk.inj (Option.some.inj hσ')
    refine ⟨hfound, hoff, hts.symm, ?_⟩
    intro i hi hfi
    rcases hslots.found hreg hi with ⟨-, hno⟩ | ⟨ts, d', hσi, -, htsi⟩
    · rw [hfi] at hno
      cases hno
    · rw [htsi]
      exact hmax i ts d' hi hσi

/-- A running log on slots that contain all acknowledged entries has recovered. -/
theorem Running.recovered {acked : Ring} {t T : Nat} (h : Running s σ t T)
    (hacked : ∀ j e, j < g.maxEntries → acked j = some e → σ j = some e) : Recovered s acked := by
  refine ⟨h.greatest.headIsGreatest h.shape.region h.slots, ?_⟩
  intro j ts d hj hack dst hput
  have hslot := h.slots j hj
  rw [hacked j (ts, d) hj hack] at hslot
  obtain ⟨s', hread, -, hts, -⟩ := Log.readFromMedia_some h.shape.region hslot.2 (some dst)
  unfold Log.getByOffset
  rw [hread]
  simp [Log.accepts, hput, hts]

/-! ## §3. Every run recovers. -/

namespace Machine

/-- **The invariant of a run** after `n` events. -/
def Inv (m : Machine g) (n : Nat) : Prop :=
  ∃ σ x t T, t ≤ 2 * n ∧ T ≤ n ∧ Durable m.log σ x t T ∧ (m.powered = true → Running m.log σ t T)
    ∧ ∀ j e, j < g.maxEntries → m.acked j = some e → σ j = some e

/-- What is acknowledged in `acked` stays so when both rings change in one slot. -/
theorem acked_update {σ acked : Ring} {j : Nat} {e e' : Option (Nat × List Byte)}
    (h : ∀ i q, i < g.maxEntries → acked i = some q → σ i = some q)
    (he : ∀ q, e = some q → e' = some q) :
    ∀ i q, i < g.maxEntries → update acked j e i = some q →
      update σ j e' i = some q := by
  intro i q hi hq
  by_cases hij : i = j
  · subst hij
    rw [update_self] at hq ⊢
    exact he q hq
  · rw [update_of_ne hij] at hq ⊢
    exact h i q hi hq

/-- **One event** keeps the invariant. -/
theorem Inv.step {m m' : Machine g} {n : Nat} {ev : Event g} (hfit : EntriesFit g) (h : m.Inv n)
    (h64 : 2 * n + 2 < 2 ^ 64) (hcrc : m.CrcAssumed ev) (hcut : m.CutIntact ev)
    (hstep : m.step ev = some m') : m'.Inv (n + 1) := by
  obtain ⟨σ, x, t, T, ht, hT, hdur, hrun, hack⟩ := h
  cases ev with
  | add e =>
    simp only [Machine.step] at hstep
    split at hstep
    next hp =>
      obtain ⟨s', hadd, -, -, hrun'⟩ := addEntry_running (hrun hp) hfit (by omega) (by omega) e hcrc
      rw [hadd] at hstep
      cases hstep
      refine ⟨_, _, t + 2, T + 1, by omega, by omega, hrun'.durable, fun _ => hrun', ?_⟩
      exact acked_update hack (fun q hq => hq)
    next => cases hstep
  | addCut e k =>
    simp only [Machine.step] at hstep
    split at hstep
    next hp =>
      cases hstep
      obtain ⟨x', e', hdur'⟩ :=
        addEntry_cut (hrun hp) hfit (by omega) (by omega) e k hcrc.1 hcrc.2 hcut
      refine ⟨_, x', t + 2, T + 1, by omega, by omega, hdur', (fun hno => by cases hno), ?_⟩
      exact acked_update hack (fun q hq => by cases hq)
    next => cases hstep
  | restart =>
    simp only [Machine.step, Option.map_eq_some_iff] at hstep
    obtain ⟨s, hs, rfl⟩ := hstep
    obtain ⟨s', t', hs', ht', hrun', -⟩ := start_running hdur (by omega) (by omega)
    obtain rfl : s' = s := Option.some.inj (hs'.symm.trans hs)
    exact ⟨σ, _, t', T, by omega, by omega, hrun'.durable, fun _ => hrun', hack⟩
  | restartCut k =>
    simp only [Machine.step, Option.some.injEq] at hstep
    subst hstep
    obtain ⟨x', hdur'⟩ := start_cut hdur (by omega) (by omega) k hcrc hcut
    exact ⟨σ, x', t + 2, T, by omega, by omega, hdur', (fun hno => by cases hno), hack⟩

theorem Inv.run {m₀ m : Machine g} {n : Nat} (hfit : EntriesFit g) (h₀ : m₀.Inv 0)
    (hrun : Run CutIntact m₀ n m) (h64 : 2 * n < 2 ^ 64) : m.Inv n := by
  induction hrun with
  | nil => exact h₀
  | step _ hcrc hcut hstep ih => exact Inv.step hfit (ih (by omega)) (by omega) hcrc hcut hstep

/-- A machine over media that hold nothing, before its first `start`. -/
structure Fresh (m : Machine g) : Prop where
  virgin : Virgin m.log
  off : m.powered = false
  nothing : m.acked = fun _ => none

theorem Fresh.inv {m : Machine g} (h : m.Fresh) : m.Inv 0 := by
  refine ⟨_, none, 0, 0, Nat.le_refl 0, Nat.le_refl 0, h.virgin.durable, ?_, ?_⟩
  · intro hp
    rw [h.off] at hp
    cases hp
  · intro j e _ hack
    rw [h.nothing] at hack
    cases hack

/-- **Crash recovery of the indexed log.**  In every run of `addEntry` calls, power
cuts and restarts whose cuts leave no mixture in region B, a restart at ANY point
runs to its end and recovers; a log in use has recovered, too. -/
theorem reachable_recovers {m₀ m : Machine g} {n : Nat} (hfit : EntriesFit g) (h₀ : m₀.Fresh)
    (hrun : Run CutIntact m₀ n m) (h64 : 2 * n + 2 < 2 ^ 64) :
    (∃ s, m.log.start = some s ∧ Recovered s m.acked) ∧ (m.powered = true → Recovered m.log m.acked) := by
  obtain ⟨σ, x, t, T, ht, hT, hdur, hpow, hack⟩ := Inv.run hfit h₀.inv hrun (by omega)
  obtain ⟨s, t', hs, -, hrun', -⟩ := start_running hdur (by omega) (by omega)
  exact ⟨⟨s, hs, hrun'.recovered hack⟩, fun hp => (hpow hp).recovered hack⟩

end Machine

/-! ## §4. Runs of complete appends. -/

/-- On slots that are blank or hold a frame, the CRC assumption of a complete append
holds. -/
theorem RingInv.slotsCrc {ps : List (List Byte)} (h : RingInv s ps σ) (hfit : EntriesFit g)
    {j ts : Nat} {d : List Byte} (hj : j < g.maxEntries) (hd : d.length = g.payloadSize) :
    SlotsCrc g (s.media .entries) (overlay (s.media .entries) (j * g.entrySize) (entryFrame P ts d))
      (overlay (s.media .entries) (j * g.entrySize) (entryFrame P ts d)) := by
  have hlen := h.live.shape.length
  have hle := g.slot_le hj
  have hframe : (entryFrame P ts d).length = g.entrySize := length_entryFrame hd
  have hafter : (overlay (s.media .entries) (j * g.entrySize) (entryFrame P ts d)).length
      = g.regionLength := by
    rw [length_overlay _ _ _ (by omega), hlen]
  intro i hi hok
  by_cases hsame : slice (overlay (s.media .entries) (j * g.entrySize) (entryFrame P ts d))
      (i * g.entrySize) g.entrySize = slice (s.media .entries) (i * g.entrySize) g.entrySize
  · left
    refine ⟨?_, hsame⟩
    have hslot := h.slots i hi
    cases hσ : σ i with
    | none =>
      -- a blank slot stays refused whatever is written around it
      rw [hσ] at hslot
      rw [hslot _ hafter hsame] at hok
      cases hok
    | some q =>
      rw [hσ] at hslot
      exact SlotHolds.crcOkay ⟨hfit, Nat.mod_lt _ (by omega), hslot.1, hslot.2⟩
  · exact .inr ⟨rfl, hsame⟩

/-- A log after complete appends only, region A current: `t` is the newest id. -/
structure Appending (s : Log g) (ps : List (List Byte)) (σ : Ring) (t : Nat) : Prop where
  running : Running s σ t ps.length
  ring : RingInv s ps σ
  current : s.indexRecord.chunk.currentRegion = some .indexA
  lengthB : (s.media .indexB).length = g.indexLength
  regionB : ps ≠ [] → MirroredChunk.Holds P (s.media .indexB) (t - 1)
    (encode P s.latestOffset s.latestTimestamp)

variable {s : Log g} {ps : List (List Byte)} {σ : Ring} {t : Nat}

/-- The index write of an `addEntry` with region A current: region B first, under `t + 1`. -/
theorem Appending.written (h : Appending s ps σ t) (ht : t + 2 < 2 ^ 64) :
    MirroredChunk.Written P (getPayloadSize P) s.indexRecord.chunk s.media t
      (encode P (g.incrementOffset s.latestOffset) s.nextTimestamp)
      (s.stageEntry.indexRecord.writes P) .indexB .indexA
    ∧ cells (s.stageEntry.indexRecord.writes P)
      = 2 * (FRAME_OVERHEAD P + getPayloadSize P) := by
  have hready := h.running.ready.2
  have hA := h.running.shape.regionA
  have hcur : s.indexRecord.chunk.currentRegion = some s.indexRecord.chunk.regionA := by
    rw [h.current, hA]
  have hdata := IndexRecord.toPayload_getData (r := s.stageEntry.indexRecord) rfl hready.offers
  have hpos : 0 < getPayloadSize P := by
    unfold getPayloadSize sizeofUint64
    omega
  have hlen := length_encode (P := P) (g.incrementOffset s.latestOffset) s.nextTimestamp
  have hw := hready.written hcur (.inl rfl) hpos hdata hlen ht
  have hcells := MirroredChunk.cells_issuedWrites (P := P) hcur (.inl rfl) hready.transId hdata
    (hlen.symm ▸ hpos) ht
  rw [MirroredChunk.otherRegion_regionA, hA, h.running.shape.regionB] at hw
  exact ⟨hw, hcells.trans (by rw [length_encode])⟩

/-- Region B after a complete append. -/
theorem Appending.storedB (h : Appending s ps σ t) (ht : t + 2 < 2 ^ 64) (e : Entry g) :
    MirroredChunk.Holds P (s.added e .indexB) (t + 1)
      (encode P (g.incrementOffset s.latestOffset) s.nextTimestamp) := by
  have hw := (h.written ht).1
  rw [h.running.shape.added_index e (by decide), Log.headed, hw.full₁]
  exact MirroredChunk.holds_overlay _ _ hw.room₁

/-- **One more complete append.** -/
theorem Appending.add (h : Appending s ps σ t)
    (hfit : EntriesFit g) (ht : t + 2 < 2 ^ 64) (hps : ps.length + 1 < 2 ^ 64) (e : Entry g) :
    SlotsCrc g (s.media .entries) (s.added e .entries) (s.added e .entries)
      ∧ ∃ s' σ', s.addEntry (.ofBytes e.bytes) .none = some (s', true)
        ∧ Appending s' (ps ++ [e.bytes]) σ' (t + 2) := by
  have hcrc : SlotsCrc g (s.media .entries) (s.added e .entries) (s.added e .entries) := by
    rw [h.running.addWrites_entries e]
    exact h.ring.slotsCrc hfit h.running.target.1 e.size
  refine ⟨hcrc, ?_⟩
  obtain ⟨s', hadd, hmedia, hcur, hrun⟩ := addEntry_running h.running hfit ht hps e hcrc
  have hring := h.ring.added hadd
  -- both layers put the entry into the same slot under the same number
  have hts : s.latestTimestamp = ps.length := by
    rw [h.ring.timestamp, Nat.mod_eq_of_lt (by omega)]
  have hnext : s.nextTimestamp = ps.length + 1 := by
    rw [h.running.nextTimestamp hps, hts]
  have hslot : s.targetSlot = (ps.length + 1) % g.maxEntries := by
    rw [(Log.targetSlot_eq (Nat.mod_lt _ g.maxEntries_pos) h.ring.offset).1, g.nextSlot_mod]
  rw [hnext, hslot] at hrun
  have hlen : (s'.media .indexB).length = g.indexLength := by
    rw [hmedia, length_storeAll]
    exact h.lengthB
  refine ⟨s', _, hadd, ?_, hring, hcur.trans h.current, hlen, ?_⟩
  · rw [length_append]
    exact hrun
  · intro _
    have hoff : s'.latestOffset = g.incrementOffset s.latestOffset := by
      rw [hring.offset, length_append, length_singleton, h.running.target.2, hslot]
    have htime : s'.latestTimestamp = s.nextTimestamp := by
      rw [hring.timestamp, length_append, length_singleton, hnext, Nat.mod_eq_of_lt hps]
    rw [hmedia, hoff, htime]
    exact h.storedB ht e

/-- **Any number of complete appends** extends a run. -/
theorem Appending.run {cond : Machine g → Event g → Prop} (hcond : ∀ m e, cond m (.add e))
    (hfit : EntriesFit g) {m₀ m : Machine g} {k : Nat} (hrun : Machine.Run cond m₀ k m)
    (hpow : m.powered = true) {t : Nat} (h : Appending m.log [] σ t) (e : Entry g) (n : Nat)
    (ht : t + 2 * n < 2 ^ 64) :
    ∃ m' σ', Machine.Run cond m₀ (k + n) m' ∧ m'.powered = true
      ∧ Appending m'.log (replicate n e.bytes) σ' (t + 2 * n) := by
  induction n with
  | zero => exact ⟨m, σ, hrun, hpow, h⟩
  | succ n ih =>
    obtain ⟨m', σ', hrun', hpow', h'⟩ := ih (by omega)
    obtain ⟨hcrc, s'', σ'', hadd, h''⟩ := h'.add hfit (by omega) (by rw [length_replicate]; omega) e
    rw [← replicate_succ'] at h''
    have hcrc' : m'.CrcAssumed (.add e) := hcrc
    have hstep : m'.step (.add e) = some ⟨s'', true, update m'.acked m'.log.targetSlot
        (some (m'.log.nextTimestamp, e.bytes))⟩ := by
      simp [Machine.step, hpow', hadd]
    exact ⟨_, σ'', hrun'.step hcrc' (hcond m' e) hstep, rfl, h''⟩

/-- A machine over erased media. -/
def Machine.erased (g : Geometry P) : Machine g :=
  ⟨Log.create g (Persistent.erased g), false, fun _ => none⟩

theorem Machine.erased_fresh (g : Geometry P) : (Machine.erased g).Fresh :=
  ⟨erased_virgin g, rfl, rfl⟩

/-- **The first restart** over erased media. -/
theorem Machine.erased_started (cond : Machine g → Event g → Prop) (hcond : ∀ m, cond m .restart) :
    ∃ m, Machine.Run cond (Machine.erased g) 1 m ∧ m.powered = true
      ∧ Appending m.log [] (fun _ => none) 2 := by
  obtain ⟨s, hstart, hrun, hentries, hcur, hlens⟩ := start_virgin (erased_virgin g)
  have hstep : (Machine.erased g).step .restart = some ⟨s, true, fun _ => none⟩ := by
    simp [Machine.step, Machine.erased, hstart]
  have hring : RingInv s [] (fun _ => none) := by
    have hhead : (s.latestOffset, s.latestTimestamp) = (0, 0) := by
      rcases hrun.greatest with ⟨-, hp⟩ | ⟨j, d, -, hσ, -⟩
      · exact hp
      · cases hσ
    refine .nil hrun.live (congrArg Prod.fst hhead) (congrArg Prod.snd hhead) ?_
    intro j hj
    rw [hentries]
    exact erased_blank g hj
  have hcrc : (Machine.erased g).CrcAssumed .restart := trivial
  refine ⟨_, .step .nil hcrc (hcond _) hstep, rfl, hrun, hring, hcur, ?_, fun hne => absurd rfl hne⟩
  rw [hlens]
  exact length_replicate

/-- The media after an append that is cut inside the first mirror, region B: the
entries and region A are as they were. -/
theorem Appending.cut (h : Appending s ps σ t) (ht : t + 2 < 2 ^ 64) (e : Entry g) {k : Nat}
    (hk : k ≤ FRAME_OVERHEAD P + getPayloadSize P) : let torn := s.cut e k
    torn .entries = s.media .entries ∧ torn .indexA = s.media .indexA
      ∧ torn .indexB = overlay (s.media .indexB) 0 ((frameOf P false (t + 1)
          (encode P (g.incrementOffset s.latestOffset) s.nextTimestamp)).take k) := by
  obtain ⟨hw, hcells⟩ := h.written ht
  have hover := MirroredChunk.FRAME_OVERHEAD_eq P
  have htorn : s.cut e k = storeCut s.media (s.stageEntry.indexRecord.writes P) k :=
    storeCut_append_left _ _ _ _
      (IndexRecord.writes_fit h.running.ready rfl ht) (by omega)
  have hcutA := hw.cut₂ k
  rw [length_encode, Nat.sub_eq_zero_of_le hk, MirroredChunk.tornFrame, take_zero] at hcutA
  simp only [htorn]
  exact ⟨storeCut_other _ _ _ _ h.running.shape.staged.index_writes, hcutA, hw.cut₁ k⟩

/-- A region B that holds nothing but its frame, in numbers. -/
theorem Appending.mediaB (h : Appending s ps σ t) (hne : ps ≠ []) (hps : ps.length < 2 ^ 64)
    (hlen : g.indexLength = FRAME_OVERHEAD P + getPayloadSize P) :
    s.media .indexB = frameOf P false (t - 1)
      (encode P (ps.length % g.maxEntries * g.entrySize) ps.length) := by
  have hB := h.regionB hne
  rw [h.ring.timestamp, Nat.mod_eq_of_lt hps, h.ring.offset] at hB
  rw [← hB, slice, drop_zero, take_of_length_le]
  rw [MirroredChunk.length_frameOf, length_encode, h.lengthB, hlen]

/-- The same after the cut: the old head pointer, overwritten by the first bytes of the
frame of the new one. -/
theorem Appending.cutB (h : Appending s ps σ t) (hne : ps ≠ []) (ht : t + 2 < 2 ^ 64)
    (hps : ps.length + 1 < 2 ^ 64)
    (hlen : g.indexLength = FRAME_OVERHEAD P + getPayloadSize P)
    (e : Entry g) {k : Nat} (hk : k ≤ FRAME_OVERHEAD P + getPayloadSize P) :
    let head := ps.length % g.maxEntries * g.entrySize
    s.cut e k .indexB = overlay (frameOf P false (t - 1) (encode P head ps.length)) 0
      ((frameOf P false (t + 1)
        (encode P (g.incrementOffset head) (ps.length + 1))).take k) := by
  have hts : s.latestTimestamp = ps.length := h.ring.timestamp.trans (Nat.mod_eq_of_lt (by omega))
  obtain ⟨-, -, hB⟩ := h.cut ht e hk
  rw [h.running.nextTimestamp hps, h.mediaB hne (by omega) hlen, hts, h.ring.offset] at hB
  exact hB

/-- A cut that touches region B alone, and leaves it with a frame that fails. -/
theorem Machine.crcAssumed_cutB {m : Machine g} {t : Nat} (h : Appending m.log ps σ t)
    (ht : t + 2 < 2 ^ 64)
    {e : Entry g} {k : Nat} (hk : k ≤ FRAME_OVERHEAD P + getPayloadSize P)
    (hfail : (MirroredChunk.peek P (m.log.cut e k .indexB) 0).transId = 0) :
    m.CrcAssumed (.addCut e k) := by
  obtain ⟨hE, hA, -⟩ := h.cut ht e hk
  refine ⟨?_, ?_⟩
  · intro r hr hne _
    rw [h.running.shape.regionA, h.running.shape.regionB] at hr
    rcases hr with rfl | rfl
    · exact absurd hA hne
    · exact (MirroredChunk.acceptedId_eq _ _).trans hfail
  · intro i _ hok
    simp only [hE] at hok ⊢
    exact .inl ⟨hok, trivial⟩

/-- Region B of a ring of two when the fourth append is cut two bytes into the length of the
frame: the head pointer (21, 3) under the id of the next. -/
def tornHeader : List Byte :=
  overlay (frameOf .default64 false 7 (encode .default64 21 3)) 0
    ((frameOf .default64 false 9 (encode .default64 0 4)).take 10)

/-- A run with a cut inside a write: three entries in a ring of two, and a fourth that is cut
10 bytes into region B. -/
theorem reachable_recovers_cut : ∃ m, Machine.Run Machine.CutIntact (Machine.erased twoSlots) 5 m
    ∧ m.powered = false ∧ m.log.media .indexB = tornHeader
    ∧ ∃ s, m.log.start = some s ∧ Recovered s m.acked := by
  obtain ⟨m₁, hrun₁, hpow₁, h₁⟩ := Machine.erased_started (g := twoSlots) Machine.CutIntact
    (fun _ => trivial)
  obtain ⟨m₂, σ, hrun₂, hpow₂, h₂⟩ := Appending.run (fun _ _ => trivial) (by decide) hrun₁ hpow₁ h₁
    ⟨[5], rfl⟩ 3 (by omega)
  have htorn : m₂.log.cut ⟨[6], rfl⟩ 10 .indexB = tornHeader :=
    h₂.cutB (cons_ne_nil _ _) (by omega) (by decide) rfl _ (by decide)
  have hcrc : m₂.CrcAssumed (.addCut ⟨[6], rfl⟩ 10) :=
    Machine.crcAssumed_cutB h₂ (by omega) (by decide) (by rw [htorn]; decide +kernel)
  have hcut : m₂.CutIntact (.addCut ⟨[6], rfl⟩ 10) := by
    have hold := h₂.mediaB (cons_ne_nil _ _) (by decide) rfl
    refine .inr (.inl ?_)
    rw [h₂.running.shape.regionB, hold]
    refine (congrArg _ htorn).trans ?_
    decide +kernel
  have hstep : m₂.step (.addCut ⟨[6], rfl⟩ 10) = some ⟨m₂.log.withMedia (m₂.log.cut ⟨[6], rfl⟩ 10), false,
      update m₂.acked m₂.log.targetSlot none⟩ := by
    simp [Machine.step, hpow₂]
  have hrun := hrun₂.step hcrc hcut hstep
  exact ⟨_, hrun, rfl, htorn,
    (Machine.reachable_recovers (by decide) (Machine.erased_fresh twoSlots) hrun (by omega)).1⟩

/-! ## §5. A mixture that is trusted. -/

/-- A ring of 256 one-byte entries. -/
def manySlots : Geometry Platform.default64 where
  payloadSize := 1
  payload_pos := Nat.one_pos
  regionLength := 5376
  indexLength := 36
  region_fits := by decide
  region_size := by decide
  index_fits := twoSlots.index_fits
  index_size := twoSlots.index_size
  index_buffer := twoSlots.index_buffer

/-- Region B when the 512th append is cut one byte into the new index value: the head
pointer (5355, 511) under id 1023, overwritten by the first bytes of (0, 512) under
id 1025. -/
def tornRegionB : List Byte :=
  overlay (frameOf .default64 false 1023 (encode .default64 5355 511)) 0
    ((frameOf .default64 false 1025 (encode .default64 0 512)).take 25)

/-- It fails the CRC, and its data area reads (0, 256). -/
theorem tornRegionB_reads : (MirroredChunk.peek .default64 tornRegionB 0).transId = 0
    ∧ MirroredChunk.dataArea .default64 16 tornRegionB = encode .default64 0 256 := by
  decide +kernel

/-- The entry of a run of 511 appends of one payload. -/
theorem manySlots_item {p : List Byte}
    (h : NumberedRing.Holds manySlots.maxEntries (replicate 511 p) σ) {i : Nat} (hlo : 255 ≤ i)
    (hhi : i < 511) : σ ((i + 1) % 256) = some (i + 1, p) := by
  refine h.kept i p ?_ ?_
  · rw [getElem?_replicate, if_pos hhi]
  · rw [length_replicate]
    show 511 ≤ i + 256
    omega

/-- The head pointer cell of such media holds the mixture, although region A is intact. -/
theorem manySlots_cell {s : Log manySlots} {ps : List (List Byte)} (h : Appending s ps σ 1024)
    {torn : Region → List Byte} (hA : torn .indexA = s.media .indexA)
    (hB : torn .indexB = tornRegionB) :
    IndexRecord.Cell .default64 s.indexRecord.chunk torn 1024 (some (0, 256)) := by
  have hshape := h.running.shape
  obtain ⟨a, b, hm, ha, -, hcur | hcur⟩ := h.running.ready.2.mirrors
  · refine ⟨?_, ?_⟩
    · intro p hp
      cases hp
      exact ⟨by decide, by decide⟩
    · have hsame : torn s.indexRecord.chunk.regionA = s.media s.indexRecord.chunk.regionA := by
        rw [hshape.regionA, hA]
      have hsameB : torn s.indexRecord.chunk.regionB = tornRegionB := by
        rw [hshape.regionB, hB]
      have hlenA : (s.media s.indexRecord.chunk.regionA).length = 36 := by
        rw [hm.lengths, hshape.regionB]
        exact h.lengthB
      refine ⟨a, none, .ofReads ?_ ?_ ?_ ?_ ?_ (.inl ?_) ?_, ha, Nat.zero_le _⟩
      · rw [hsame, hsameB, hlenA]
        decide
      · rw [hsame]
        exact hm.size
      · rw [hsame]
        exact hm.room
      · rw [hsame]
        exact hm.readsA
      · rw [hsameB]
        exact tornRegionB_reads.1
      · rintro rfl
        exact absurd hcur.2 (by decide)
      · rw [hsameB]
        exact ⟨by decide, by decide +kernel, tornRegionB_reads.2⟩
  · rw [h.current, hshape.regionB] at hcur
    exact absurd hcur.1 (by decide)

/-- A head behind a slot that can be read is not the greatest entry. -/
theorem not_headIsGreatest {i ts : Nat} {d : List Byte} (hreg : s.chunk.region = .entries)
    (hi : i < g.maxEntries) (hslot : SlotHolds g (s.media .entries) i ts d)
    (hlt : s.latestTimestamp < ts) : ¬ HeadIsGreatest s := by
  obtain ⟨s', hread, -, hts, -⟩ := Log.readFromMedia_some hreg hslot none
  have hfound : (s.readFromMedia none (i * g.entrySize)).found = true := by
    rw [hread]
    rfl
  rintro (⟨hnone, -⟩ | ⟨j, -, -, -, -, hmax⟩)
  · rw [hnone i hi] at hfound
    cases hfound
  · have hle := hmax i hi hfound
    rw [hread, hts] at hle
    omega

/-- **Power-cut recovery can lose the newest entry.**  511 appends fill a ring of 256
entries twice; the 512th is cut inside the head pointer of region B.  Region A is
intact and newest, but the restart is handed the mixture (0, 256), finds the old entry
256 in slot 0, trusts it, and leaves the head behind entries 257 to 511. -/
theorem restart_trusts_mixture : ∃ m, Machine.Run (fun _ _ => True) (Machine.erased manySlots) 514 m
    ∧ m.powered = true ∧ m.log.latestOffset = 0 ∧ m.log.latestTimestamp = 256
    ∧ ¬ HeadIsGreatest m.log := by
  obtain ⟨m₁, hrun₁, hpow₁, h₁⟩ := Machine.erased_started (g := manySlots) (fun _ _ => True)
    (fun _ => trivial)
  obtain ⟨m₂, σ, hrun₂, hpow₂, h₂⟩ := Appending.run (fun _ _ => trivial) (by decide) hrun₁ hpow₁ h₁
    ⟨[0], rfl⟩ 511 (by omega)
  obtain ⟨hE, hA, -⟩ := h₂.cut (by omega) ⟨[0], rfl⟩ (k := 25) (by decide)
  have hB : m₂.log.cut ⟨[0], rfl⟩ 25 .indexB = tornRegionB := by
    have hB := h₂.cutB (cons_ne_nil _ (replicate 510 _)) (by omega)
      (by rw [length_replicate]; omega) rfl ⟨[0], rfl⟩ (k := 25) (by decide)
    rw [length_replicate] at hB
    exact hB
  have hshape := h₂.running.shape
  -- the cut
  have hcrc : m₂.CrcAssumed (.addCut ⟨[0], rfl⟩ 25) :=
    Machine.crcAssumed_cutB h₂ (by omega) (by decide) (by rw [hB]; exact tornRegionB_reads.1)
  generalize htorn : m₂.log.cut ⟨[0#8], rfl⟩ 25 = torn at hE hA hB
  have hstep₃ : m₂.step (.addCut ⟨[0#8], rfl⟩ 25) = some ⟨m₂.log.withMedia torn, false,
      update m₂.acked m₂.log.targetSlot none⟩ := by
    simp [Machine.step, hpow₂, htorn]
  -- the restart reads the mixture
  obtain ⟨s₀, hreads, hshape₀, hmedia₀, -, hvalid, hlatest, hindex, -⟩ := startReads_cell
    (s := m₂.log.withMedia torn)
    ⟨hshape.region, hshape.regionA, hshape.regionB, (congrArg length hE).trans hshape.length⟩
    (manySlots_cell h₂ hA hB)
  have hslot : ∀ i, 255 ≤ i → i < 511 →
      SlotHolds manySlots (s₀.media .entries) ((i + 1) % 256) (i + 1) [0] := by
    intro i hlo hhi
    have hσ := manySlots_item h₂.ring.holds hlo hhi
    have hb := h₂.ring.slots _ (show (i + 1) % 256 < manySlots.maxEntries from Nat.mod_lt _ (by omega))
    rw [hσ] at hb
    rw [hmedia₀]
    show SlotHolds manySlots (torn .entries) _ _ _
    rw [hE]
    refine ⟨by decide, by omega, rfl, ?_⟩
    rw [hb.2, Nat.mod_eq_of_lt (by omega)]
  -- slot 0 still holds entry 256, so the mixture is trusted
  obtain ⟨s₁, hverify, hun, hoff, hts⟩ := verifyIndex_trusts (j := 0) hshape₀.region hvalid hlatest
    (by rw [hindex]; exact hslot 255 (by omega) (by omega))
  have hts : s₁.latestTimestamp = 256 := hts.trans hindex
  have hstart : (m₂.log.withMedia torn).start = some { s₁ with mpIndex := s₁.latestTimestamp } := by
    unfold Log.start
    rw [hreads, hverify]
    rfl
  have hstep₄ : (⟨m₂.log.withMedia torn, false, update m₂.acked m₂.log.targetSlot none⟩ :
      Machine manySlots).step .restart = some ⟨{ s₁ with mpIndex := s₁.latestTimestamp }, true,
        update m₂.acked m₂.log.targetSlot none⟩ := by
    simp [Machine.step, hstart]
  have hcrc₄ : (⟨m₂.log.withMedia torn, false, update m₂.acked m₂.log.targetSlot none⟩ :
      Machine manySlots).CrcAssumed .restart := trivial
  refine ⟨_, (hrun₂.step hcrc trivial hstep₃).step hcrc₄ trivial hstep₄, rfl, hoff, hts, ?_⟩
  -- slot 255 holds entry 511
  refine not_headIsGreatest (hun.region.trans hshape₀.region)
    (show 255 < manySlots.maxEntries by decide) (?_ : SlotHolds manySlots _ 255 511 [0]) ?_
  · rw [hun.media]
    exact hslot 510 (by omega) (by omega)
  · show s₁.latestTimestamp < 511
    omega

end ColonyCore.Persistent
