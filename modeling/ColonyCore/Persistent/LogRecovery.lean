/-
  ColonyCore.Persistent.LogRecovery
  **CRASH RECOVERY OF THE INDEXED LOG.**

  A run interleaves `addEntry` calls, power cuts at any byte of any region write
  (of `addEntry` and of `start` itself) and restarts.  `Durable` is what the
  media promise at any time, `Running` what a started log adds in memory.

    • `startReads_durable` — `start` finds the entry with the greatest index
      value, whether it trusts the head pointer or scans,
    • `start_running` / `start_cut`, `addEntry_running` / `addEntry_cut` — one step of
      the runs in `LogCrash`.

  The condition is on cuts inside an index write of region B: its data area must
  not be left as a mixture of the old and the new head pointer.
-/
import ColonyCore.Persistent.LogSlots

namespace ColonyCore.Persistent

open ByteStore LittleEndian

variable {P : Platform} {g : Geometry P}

/-! ## §1. What the media promise, and what a started log adds. -/

/-- The wiring of a log and the length of its entry region. -/
structure Shape (s : Log g) : Prop where
  region : s.chunk.region = .entries
  regionA : s.indexRecord.chunk.regionA = .indexA
  regionB : s.indexRecord.chunk.regionB = .indexB
  length : (s.media .entries).length = g.regionLength

/-- No index value occurs twice in the ring. -/
def Distinct (g : Geometry P) (σ : Ring) : Prop :=
  ∀ i j ts d d', i < g.maxEntries → j < g.maxEntries →
    σ i = some (ts, d) → σ j = some (ts, d') → i = j

/-- A head pointer that may be trusted: it names a slot, no entry is newer, and
only the entry of that slot can carry its index value. -/
def Names (g : Geometry P) (σ : Ring) (p : Nat × Nat) : Prop :=
  ∃ j, j < g.maxEntries ∧ p.1 = j * g.entrySize
    ∧ ∀ i ts d, i < g.maxEntries → σ i = some (ts, d) → ts ≤ p.2 ∧ (ts = p.2 → i = j)

/-- **What the media promise**: the slots hold `σ`, the head pointer cell holds
`x`; ids up to `t` and index values up to `T` have been used. -/
structure Durable (s : Log g) (σ : Ring) (x : Option (Nat × Nat)) (t T : Nat) : Prop where
  shape : Shape s
  slots : Slots g (s.media .entries) σ
  cell : IndexRecord.Cell P s.indexRecord.chunk s.media t x
  distinct : Distinct g σ
  names : ∀ p, x = some p → Names g σ p
  times : ∀ i ts d, i < g.maxEntries → σ i = some (ts, d) → ts ≤ T
  headTime : ∀ p, x = some p → p.2 ≤ T

/-- **What a started log adds**: the head in memory is the head on the media and
names the greatest entry. -/
structure Running (s : Log g) (σ : Ring) (t T : Nat) : Prop where
  shape : Shape s
  slots : Slots g (s.media .entries) σ
  ready : IndexRecord.Ready P s.indexRecord.chunk s.media t
    (some (s.latestOffset, s.latestTimestamp))
  offers : g.dataSize ≤ s.chunk.dataLen
  distinct : Distinct g σ
  greatest : Greatest g σ g.maxEntries (s.latestOffset, s.latestTimestamp)
  time : s.latestTimestamp ≤ T

variable {s s1 : Log g} {σ : Ring} {x : Option (Nat × Nat)} {t T : Nat} {p : Nat × Nat}

theorem Greatest.names (h : Greatest g σ g.maxEntries p) (hd : Distinct g σ) : Names g σ p := by
  rcases h with ⟨hnone, rfl⟩ | ⟨j, d, hj, hσj, hoff, hmax⟩
  · refine ⟨0, g.maxEntries_pos, (Nat.zero_mul _).symm, fun i ts d hi hσi => ?_⟩
    rw [hnone i hi] at hσi
    cases hσi
  · refine ⟨j, hj, hoff, fun i ts d' hi hσi => ⟨hmax i ts d' hi hσi, ?_⟩⟩
    rintro rfl
    exact hd i j _ d' d hi hj hσi hσj

variable {d : List Byte}

theorem Greatest.le (h : Greatest g σ g.maxEntries p) {i ts : Nat}
    (hi : i < g.maxEntries) (hσ : σ i = some (ts, d)) : ts ≤ p.2 := by
  rcases h with ⟨hnone, -⟩ | ⟨j, d', -, -, -, hmax⟩
  · rw [hnone i hi] at hσ
    cases hσ
  · exact hmax i ts d hi hσ

theorem Running.durable (h : Running s σ t T) :
    Durable s σ (some (s.latestOffset, s.latestTimestamp)) t T where
  shape := h.shape
  slots := h.slots
  cell := h.ready.cell
  distinct := h.distinct
  names := by
    rintro _ ⟨⟩
    exact h.greatest.names h.distinct
  times i ts d hi hσ := Nat.le_trans (h.greatest.le hi hσ) h.time
  headTime := by
    rintro _ ⟨⟩
    exact h.time

/-- A log object over media that hold nothing: no slot passes the CRC, and both
index regions are refused. -/
structure Virgin (s : Log g) : Prop where
  shape : Shape s
  lengthA : (s.media .indexA).length = g.indexLength
  lengthB : (s.media .indexB).length = g.indexLength
  refusedA : MirroredChunk.acceptedId P s.media .indexA = 0
  refusedB : MirroredChunk.acceptedId P s.media .indexB = 0
  empty : ∀ j, j < g.maxEntries → CrcChunk.crcOkay P (s.media .entries) (j * g.entrySize) = false

theorem Virgin.durable (h : Virgin s) : Durable s (fun _ => none) none 0 0 where
  shape := h.shape
  slots := h.empty
  cell := by
    have hA := h.shape.regionA
    have hB := h.shape.regionB
    refine ⟨nofun, none, none, ⟨?_, ?_, ?_, ?_, ?_, fun _ => ⟨rfl, rfl⟩, nofun⟩, Nat.le_refl 0,
      Nat.le_refl 0⟩
    · rw [hA, hB, h.lengthA, h.lengthB]
    · rw [hA, h.lengthA]
      exact g.index_size
    · rw [hA, h.lengthA]
      exact g.index_fits
    · exact (MirroredChunk.acceptedId_eq ..).symm.trans (hA ▸ h.refusedA)
    · exact (MirroredChunk.acceptedId_eq ..).symm.trans (hB ▸ h.refusedB)
  distinct := nofun
  names := nofun
  times := nofun
  headTime := nofun

/-! ## §2. `start`. -/

/-- What the reading half of `start` has found out. -/
structure Started (s s1 : Log g) (σ : Ring) (x : Option (Nat × Nat)) (t : Nat) (rewrite : Bool) :
    Prop where
  shape : Shape s1
  media : s1.media = s.media
  ready : ∃ t', t' ≤ t ∧ IndexRecord.Ready P s1.indexRecord.chunk s1.media t' x
  offers : g.dataSize ≤ s1.chunk.dataLen
  greatest : Greatest g σ g.maxEntries (s1.latestOffset, s1.latestTimestamp)
  trusted : rewrite = false → x = some (s1.latestOffset, s1.latestTimestamp)
  staged : rewrite = true → s1.indexRecord.validLatest = true
    ∧ s1.indexRecord.latest = s1.latestOffset ∧ s1.indexRecord.latestIndex = s1.latestTimestamp

/-- An entry region has room for one entry, so a started chunk offers one. -/
theorem start_offers (h : Shape s) : g.dataSize ≤ (s.chunk.start P s.media).dataLen := by
  have hfits : g.entrySize ≤ g.regionLength := g.region_fits
  have hsize := g.region_size
  have heq := g.entrySize_eq
  show g.dataSize ≤ P.sizeSub (s.media s.chunk.region).length (P.sizeofSizeT + 4)
  rw [h.region, h.length, Platform.sizeSub_of_le (by omega) hsize]
  omega

section VerifyIndex

variable {j : Nat} (hreg : s.chunk.region = .entries) (hvalid : s.indexRecord.validLatest = true)
  (hlatest : s.indexRecord.latest = j * g.entrySize)

include hvalid hlatest in
/-- The head pointer that is verified. -/
theorem getLatestOffset_staged :
    s.indexRecord.getLatestOffset.getD (s.latestOffset, s.latestTimestamp)
      = (j * g.entrySize, s.indexRecord.latestIndex) := by
  unfold IndexRecord.getLatestOffset
  rw [if_pos hvalid, Option.getD_some, hlatest]

include hreg hvalid hlatest

/-- **A head pointer is trusted** when the slot it names carries the index value it
names, WHATEVER the other slots hold. -/
theorem verifyIndex_trusts {d : List Byte}
    (hslot : SlotHolds g (s.media .entries) j s.indexRecord.latestIndex d) :
    ∃ s', s.verifyIndex = (s', false) ∧ Log.Untouched s s'
      ∧ s'.latestOffset = j * g.entrySize ∧ s'.latestTimestamp = s.indexRecord.latestIndex := by
  obtain ⟨s', hread, hun, hts, ho, ht⟩ := Log.readFromMedia_some
    (s := { s with latestOffset := j * g.entrySize, latestTimestamp := s.indexRecord.latestIndex })
    hreg hslot none
  refine ⟨s', ?_, ⟨hun.media, hun.indexRecord, hun.mpIndex, hun.region, hun.offers⟩, ho, ht⟩
  unfold Log.verifyIndex
  simp only [getLatestOffset_staged hvalid hlatest, hread, hts]
  rw [if_neg (by simp [Log.accepts])]

/-- **A head pointer is not trusted** when the slot it names fails the CRC or carries
another index value: all slots are scanned. -/
theorem verifyIndex_scans (hslot : SlotIs g (s.media .entries) j (σ j))
    (hother : ∀ ts d, σ j = some (ts, d) → ts ≠ s.indexRecord.latestIndex) :
    ∃ s', s.verifyIndex = ({ s'.scanAllEntries with
        indexRecord := s'.scanAllEntries.indexRecord.setLatestOffset
          s'.scanAllEntries.latestOffset s'.scanAllEntries.latestTimestamp }, true)
      ∧ Log.Untouched s s' := by
  unfold Log.verifyIndex
  simp only [getLatestOffset_staged hvalid hlatest]
  cases hσ : σ j with
  | none =>
    rw [hσ] at hslot
    obtain ⟨s', hread, hun, -⟩ := Log.readFromMedia_none
      (s := { s with latestOffset := j * g.entrySize, latestTimestamp := s.indexRecord.latestIndex })
      hreg hslot none
    rw [hread]
    exact ⟨s', rfl, ⟨hun.media, hun.indexRecord, hun.mpIndex, hun.region, hun.offers⟩⟩
  | some e =>
    rw [hσ] at hslot
    obtain ⟨s', hread, hun, hts, -⟩ := Log.readFromMedia_some
      (s := { s with latestOffset := j * g.entrySize, latestTimestamp := s.indexRecord.latestIndex })
      hreg hslot.2 none
    rw [hread, if_pos (.inr (by rw [hts]; exact hother e.1 e.2 hσ))]
    exact ⟨s', rfl, ⟨hun.media, hun.indexRecord, hun.mpIndex, hun.region, hun.offers⟩⟩

end VerifyIndex

theorem Shape.untouched {s' : Log g} (h : Shape s) (hun : Log.Untouched s s') : Shape s' :=
  ⟨hun.region.trans h.region, by rw [hun.indexRecord]; exact h.regionA,
    by rw [hun.indexRecord]; exact h.regionB, by rw [hun.media]; exact h.length⟩

/-- **Verifying the head pointer**: it is trusted only when it names the greatest
entry; otherwise the scan finds that entry. -/
theorem verifyIndex_started (hshape : Shape s) (hslots : Slots g (s.media .entries) σ)
    (hoffers : g.dataSize ≤ s.chunk.dataLen) (hvalid : s.indexRecord.validLatest = true)
    (hlatest : s.indexRecord.latest = (x.getD (0, 0)).1)
    (hindex : s.indexRecord.latestIndex = (x.getD (0, 0)).2)
    (hnames : ∀ p, x = some p → Names g σ p)
    (hready : ∃ t', t' ≤ t ∧ IndexRecord.Ready P s.indexRecord.chunk s.media t' x) :
    Started s s.verifyIndex.1 σ x t s.verifyIndex.2 := by
  -- the slot the head pointer names
  obtain ⟨j, hj, hoff⟩ : ∃ j, j < g.maxEntries ∧ (x.getD (0, 0)).1 = j * g.entrySize := by
    cases x with
    | none => exact ⟨0, g.maxEntries_pos, (Nat.zero_mul _).symm⟩
    | some p =>
      obtain ⟨j, hj, hoff, -⟩ := hnames p rfl
      exact ⟨j, hj, hoff⟩
  rw [hoff] at hlatest
  have hslot := hslots j hj
  by_cases hmatch : ∃ d, σ j = some ((x.getD (0, 0)).2, d)
  · -- the named slot carries the index value: the head pointer is trusted
    obtain ⟨d, hσ⟩ := hmatch
    rw [hσ] at hslot
    have hx : x = some (j * g.entrySize, (x.getD (0, 0)).2) := by
      cases x with
      | none => exact absurd hslot.1 (Nat.lt_irrefl 0)
      | some p => exact congrArg some (Prod.ext hoff rfl)
    rw [← hindex] at hslot hx hσ
    obtain ⟨s', hverify, hun, ho, ht⟩ := verifyIndex_trusts hshape.region hvalid hlatest hslot.2
    rw [hverify]
    refine ⟨hshape.untouched hun, hun.media, ?_, hun.offers hoffers, ?_, fun _ => ?_, nofun⟩
    · rwa [hun.indexRecord, hun.media]
    · rw [ho, ht]
      obtain ⟨j', -, -, hmax⟩ := hnames _ hx
      exact .inr ⟨j, d, hj, hσ, rfl, fun i ts' d' hi hσi => (hmax i ts' d' hi hσi).1⟩
    · rwa [ho, ht]
  · obtain ⟨s', hverify, hun⟩ := verifyIndex_scans hshape.region hvalid hlatest hslot
      (fun ts d hσ heq => hmatch ⟨d, by rw [hσ, heq, hindex]⟩)
    obtain ⟨hun', hgr⟩ := Log.scanAllEntries_greatest (hun.region.trans hshape.region)
      (by rw [hun.media]; exact hslots)
    have h := hun.trans hun'
    have hshape' := hshape.untouched h
    rw [hverify]
    refine ⟨⟨hshape'.region, hshape'.regionA, hshape'.regionB, hshape'.length⟩, h.media, ?_,
      h.offers hoffers, hgr, nofun, fun _ => ⟨rfl, rfl, rfl⟩⟩
    rwa [h.indexRecord, h.media]

/-- **`start` up to the check of the head pointer**: the pair the cell holds has been
read, (0, 0) when it holds none. -/
theorem startReads_cell (hshape : Shape s)
    (hcell : IndexRecord.Cell P s.indexRecord.chunk s.media t x) :
    ∃ s0 : Log g, s.startReads = some s0.verifyIndex ∧ Shape s0 ∧ s0.media = s.media
      ∧ g.dataSize ≤ s0.chunk.dataLen ∧ s0.indexRecord.validLatest = true
      ∧ s0.indexRecord.latest = (x.getD (0, 0)).1 ∧ s0.indexRecord.latestIndex = (x.getD (0, 0)).2
      ∧ ∃ t', t' ≤ t ∧ IndexRecord.Ready P s0.indexRecord.chunk s0.media t' x := by
  obtain ⟨hrange, hcell⟩ := hcell
  have hlens : (s.media s.indexRecord.chunk.regionA).length
      = (s.media s.indexRecord.chunk.regionB).length := by
    obtain ⟨a, b, hm, -⟩ := hcell
    exact hm.lengths
  have hcell' : IndexRecord.Cell P (MirroredChunk.fresh s.indexRecord.chunk) s.media t x :=
    ⟨hrange, hcell.congr rfl rfl⟩
  obtain ⟨c', buf', t', hread, hready, ht', hA, hB⟩ := IndexRecord.readFromMedia_cell
    (r := { s.indexRecord with chunk := MirroredChunk.fresh s.indexRecord.chunk, validLatest := false })
    hcell' g.index_buffer s.buffer
  refine ⟨{ s with
      chunk := s.chunk.start P s.media
      indexRecord := ⟨c', (x.getD (0, 0)).1, (x.getD (0, 0)).2, true⟩
      buffer := buf'
      entryTimestamp := 0
      latestOffset := 0
      latestTimestamp := 0 }, ?_,
    ⟨hshape.region, hA.trans hshape.regionA, hB.trans hshape.regionB, hshape.length⟩, rfl,
    start_offers hshape, rfl, rfl, rfl, t', ht', hready⟩
  unfold Log.startReads
  rw [IndexRecord.start_eq hlens, Option.bind_some, hread]
  rfl

/-- **`start` up to its first write**, from any durable media. -/
theorem startReads_durable (h : Durable s σ x t T) :
    ∃ s1 rewrite, s.startReads = some (s1, rewrite) ∧ Started s s1 σ x t rewrite := by
  obtain ⟨s0, hreads, hshape, hmedia, hoffers, hvalid, hlatest, hindex, hready⟩ :=
    startReads_cell h.shape h.cell
  have hslots : Slots g (s0.media .entries) σ := by rw [hmedia]; exact h.slots
  have hverify := verifyIndex_started hshape hslots hoffers hvalid hlatest hindex h.names hready
  exact ⟨_, _, hreads, hverify.shape, hverify.media.trans hmedia, hverify.ready, hverify.offers,
    hverify.greatest, hverify.trusted, hverify.staged⟩

/-- The head pointer has regions of its own. -/
theorem Shape.index_ne (h : Shape s) : s.indexRecord.chunk.regionA ≠ .entries
    ∧ s.indexRecord.chunk.regionB ≠ .entries := by
  rw [h.regionA, h.regionB]
  decide

/-- Index writes leave the entry region alone. -/
theorem Shape.index_writes (h : Shape s) : ∀ w ∈ s.indexRecord.writes P, w.region ≠ .entries := by
  intro w hw
  rcases MirroredChunk.issuedWrites_region _ _ _ w hw with hr | hr
  · rw [hr]
    exact h.index_ne.1
  · rw [hr]
    exact h.index_ne.2

/-- The pair a slot names fits its types. -/
theorem Greatest.inRange (h : Greatest g σ g.maxEntries p)
    (h64 : p.2 < 2 ^ 64) : IndexRecord.InRange P p := by
  refine ⟨?_, h64⟩
  have hsize := g.region_size
  rcases h with ⟨-, rfl⟩ | ⟨j, -, hj, -, hoff, -⟩
  · omega
  · have hle := g.slot_le hj
    omega

theorem Started.time_le {rewrite : Bool} (h : Started s s1 σ x t rewrite) (hd : Durable s σ x t T) :
    s1.latestTimestamp ≤ T := by
  rcases h.greatest with ⟨-, hp⟩ | ⟨j, d, hj, hσ, -, -⟩
  · have h0 : s1.latestTimestamp = 0 := congrArg Prod.snd hp
    omega
  · exact hd.times j _ d hj hσ

/-- **A restart that rewrites the head pointer**, with `t1` the newest id in use. -/
theorem Started.rewritten {t1 : Nat} (hst : Started s s1 σ x t true)
    (hreads : s.startReads = some (s1, true)) (h : Durable s σ x t T)
    (hready : IndexRecord.Ready P s1.indexRecord.chunk s1.media t1 x) (ht : t1 + 2 < 2 ^ 64)
    (hT : T < 2 ^ 64) :
    ∃ s', s.start = some s' ∧ Running s' σ (t1 + 2) T ∧ s'.media .entries = s.media .entries
      ∧ s'.indexRecord.chunk.currentRegion = s1.indexRecord.chunk.currentRegion
      ∧ ∀ r, (s'.media r).length = (s.media r).length := by
  obtain ⟨hvalid, hlatest, hindex⟩ := hst.staged rfl
  have hTs := hst.time_le h
  have hrange : IndexRecord.InRange P (s1.indexRecord.latest, s1.indexRecord.latestIndex) := by
    rw [hlatest, hindex]
    exact hst.greatest.inRange (Nat.lt_of_le_of_lt hTs hT)
  obtain ⟨c', buf', hwrite, hready', hA, hB, hC⟩ :=
    IndexRecord.writeToMedia_ready hready hvalid hrange g.index_buffer ht
  have hentries : storeAll s1.media (s1.indexRecord.writes P) .entries = s.media .entries := by
    rw [storeAll_other _ _ _ hst.shape.index_writes, hst.media]
  refine ⟨{ s1 with
    indexRecord := { s1.indexRecord with chunk := c' }
    buffer := buf'
    media := storeAll s1.media (s1.indexRecord.writes P)
    mpIndex := s1.latestTimestamp }, ?_, ?_, hentries, hC, ?_⟩
  · unfold Log.start
    rw [hreads]
    show (s1.indexRecord.writeToMedia P s1.media [] []).map _ = _
    rw [hwrite]
    rfl
  · refine ⟨⟨hst.shape.region, hA.trans hst.shape.regionA, hB.trans hst.shape.regionB, ?_⟩, ?_, ?_,
      hst.offers, h.distinct, hst.greatest, hTs⟩
    · show (storeAll s1.media (s1.indexRecord.writes P) .entries).length = _
      rw [hentries]
      exact h.shape.length
    · show Slots g (storeAll s1.media (s1.indexRecord.writes P) .entries) σ
      rw [hentries]
      exact h.slots
    · rw [hlatest, hindex] at hready'
      exact hready'
  · intro r
    rw [length_storeAll, hst.media]

/-- **A restart**: `start` runs to its end and leaves a running log on the same
slots. -/
theorem start_running (h : Durable s σ x t T) (ht : t + 2 < 2 ^ 64) (hT : T < 2 ^ 64) :
    ∃ s' t', s.start = some s' ∧ t' ≤ t + 2 ∧ Running s' σ t' T
      ∧ s'.media .entries = s.media .entries := by
  obtain ⟨s1, rewrite, hreads, hst⟩ := startReads_durable h
  obtain ⟨t1, ht1, hready⟩ := hst.ready
  cases rewrite with
  | false =>
    -- the head pointer was trusted: nothing is written
    have hx := hst.trusted rfl
    rw [hx] at hready
    refine ⟨{ s1 with mpIndex := s1.latestTimestamp }, t1, ?_, by omega, ?_, ?_⟩
    · unfold Log.start
      rw [hreads]
      rfl
    · exact ⟨⟨hst.shape.region, hst.shape.regionA, hst.shape.regionB, hst.shape.length⟩,
        by rw [hst.media]; exact h.slots, hready, hst.offers, h.distinct, hst.greatest, hst.time_le h⟩
    · exact congrFun hst.media _
  | true =>
    obtain ⟨s', hstart, hrun, hentries, -⟩ := hst.rewritten hreads h hready (by omega) hT
    exact ⟨s', t1 + 2, hstart, by omega, hrun, hentries⟩

/-- **The first start**: the head pointer (0, 0) is written under the ids 1 and 2, and
region A is current. -/
theorem start_virgin (h : Virgin s) :
    ∃ s', s.start = some s' ∧ Running s' (fun _ => none) 2 0 ∧ s'.media .entries = s.media .entries
      ∧ s'.indexRecord.chunk.currentRegion = some .indexA
      ∧ ∀ r, (s'.media r).length = (s.media r).length := by
  obtain ⟨s1, rewrite, hreads, hst⟩ := startReads_durable h.durable
  obtain ⟨t1, ht1, hready⟩ := hst.ready
  obtain rfl : t1 = 0 := Nat.le_zero.mp ht1
  cases rewrite with
  | false => cases hst.trusted rfl
  | true =>
    obtain ⟨s', hstart, hrun, hentries, hcur, hlens⟩ :=
      hst.rewritten hreads h.durable hready (by omega) (by omega)
    refine ⟨s', hstart, hrun, hentries, hcur.trans ?_, hlens⟩
    -- an empty cell is loaded with region A current
    obtain ⟨a, b, hm, -, -, hA | ⟨-, -, hB⟩⟩ := hready.2.mirrors
    · rw [hA.1, hst.shape.regionA]
    · exact absurd (hm.empty rfl).2 hB

/-- The media a log is left with by a power cut; what was in memory is gone. -/
def Log.withMedia (s : Log g) (m : Region → List Byte) : Log g := { s with media := m }

/-- The assumption about the CRC for the head pointer, for a step that takes the
media from `before` to `torn` where a complete step would leave `after`. -/
def IndexCrc (s : Log g) (after torn : Region → List Byte) : Prop :=
  MirroredChunk.TornFramesFail P s.indexRecord.chunk s.media after torn

/-- **The condition on a power cut**: the head pointer in region B is not left as a
mixture of two. -/
def HeadIntact (s : Log g) (after torn : Region → List Byte) : Prop :=
  MirroredChunk.MixFree P (IndexRecord.getPayloadSize P) s.indexRecord.chunk s.media after torn

/-- **A cut write of the head pointer**: no slot is touched, and the cell holds the pair
it held or the new one. -/
theorem Durable.headCut {m : Region → List Byte} {t' T' : Nat} {x' : Option (Nat × Nat)}
    (h : Durable s σ x t T) (hentries : m .entries = s.media .entries)
    (hcell : IndexRecord.Cell P s.indexRecord.chunk m t' x') (hx' : x' = x ∨ x' = some p)
    (hnames : Names g σ p) (hp : p.2 ≤ T') (hT : T ≤ T') : Durable (s.withMedia m) σ x' t' T' where
  shape := ⟨h.shape.region, h.shape.regionA, h.shape.regionB, (congrArg _ hentries).trans h.shape.length⟩
  slots := by
    show Slots g (m .entries) σ
    rw [hentries]
    exact h.slots
  cell := hcell
  distinct := h.distinct
  names q hq := by
    rcases hx' with rfl | rfl
    · exact h.names q hq
    · cases hq
      exact hnames
  times i ts d hi hσ := Nat.le_trans (h.times i ts d hi hσ) hT
  headTime q hq := by
    rcases hx' with rfl | rfl
    · exact Nat.le_trans (h.headTime q hq) hT
    · cases hq
      exact hp

/-- A cell whose ids are up to `t` is one whose ids are up to more. -/
theorem Cell.mono {c : MirroredChunk Region} {m : Region → List Byte} {t' : Nat}
    (h : IndexRecord.Cell P c m t x) (hle : t ≤ t') : IndexRecord.Cell P c m t' x := by
  obtain ⟨hrange, a, b, hm, ha, hb⟩ := h
  exact ⟨hrange, a, b, hm, by omega, by omega⟩

/-- **A restart that is cut** leaves the media durable. -/
theorem start_cut (h : Durable s σ x t T) (ht : t + 2 < 2 ^ 64) (hT : T < 2 ^ 64) (k : Nat)
    (hcrc : IndexCrc s (storeAll s.media s.startWrites) (storeCut s.media s.startWrites k))
    (hhead : HeadIntact s (storeAll s.media s.startWrites) (storeCut s.media s.startWrites k)) :
    ∃ x', Durable (s.withMedia (storeCut s.media s.startWrites k)) σ x' (t + 2) T := by
  obtain ⟨s1, rewrite, hreads, hst⟩ := startReads_durable h
  obtain ⟨t1, ht1, hready⟩ := hst.ready
  have hTs := hst.time_le h
  have hnames := hst.greatest.names h.distinct
  cases rewrite with
  | false =>
    have hw : s.startWrites = [] := by
      unfold Log.startWrites
      rw [hreads]
    rw [hw]
    exact ⟨x, h.headCut rfl (Cell.mono h.cell (by omega)) (.inl rfl) hnames hTs (Nat.le_refl T)⟩
  | true =>
    have hw : s.startWrites = s1.indexRecord.writes P := by
      unfold Log.startWrites
      rw [hreads]
    obtain ⟨hvalid, hlatest, hindex⟩ := hst.staged rfl
    have hrange : IndexRecord.InRange P (s1.indexRecord.latest, s1.indexRecord.latestIndex) := by
      rw [hlatest, hindex]
      exact hst.greatest.inRange (Nat.lt_of_le_of_lt hTs hT)
    have hA := h.shape.regionA.trans hst.shape.regionA.symm
    have hB := h.shape.regionB.trans hst.shape.regionB.symm
    unfold IndexCrc MirroredChunk.TornFramesFail at hcrc
    unfold HeadIntact MirroredChunk.MixFree at hhead
    rw [hw, hA, hB] at hcrc hhead
    rw [hst.media] at hready
    obtain ⟨x', hx', hcell⟩ :=
      IndexRecord.writes_cut hready hvalid hrange g.index_buffer (by omega) k hcrc hhead
    rw [hlatest, hindex] at hx'
    rw [hw]
    exact ⟨x', h.headCut (storeCut_other _ _ _ _ hst.shape.index_writes)
      (Cell.mono ⟨hcell.1, hcell.2.congr (congrArg _ hA) (congrArg _ hB)⟩ (by omega)) hx' hnames hTs
      (Nat.le_refl T)⟩

/-! ## §3. `addEntry`. -/

/-- The slot the next `addEntry` writes to. -/
def Log.targetSlot (s : Log g) : Nat := g.incrementOffset s.latestOffset / g.entrySize

/-- The slot after the head. -/
theorem Log.targetSlot_eq {j : Nat} (hj : j < g.maxEntries) (hoff : s.latestOffset
      = j * g.entrySize) :
    s.targetSlot = g.nextSlot j ∧ g.incrementOffset s.latestOffset = g.nextSlot j * g.entrySize := by
  have hinc : g.incrementOffset s.latestOffset = g.nextSlot j * g.entrySize := by
    rw [hoff, g.incrementOffset_slot hj]
  refine ⟨?_, hinc⟩
  unfold Log.targetSlot
  rw [hinc, Nat.mul_div_cancel _ g.entrySize_pos]

theorem Log.target_of_head (h : ∃ j, j < g.maxEntries ∧ s.latestOffset = j * g.entrySize) :
    s.targetSlot < g.maxEntries ∧ g.incrementOffset s.latestOffset = s.targetSlot * g.entrySize := by
  obtain ⟨j, hj, hoff⟩ := h
  obtain ⟨hslot, hinc⟩ := Log.targetSlot_eq hj hoff
  rw [hslot]
  exact ⟨g.nextSlot_lt j, hinc⟩

theorem Greatest.slot (h : Greatest g σ g.maxEntries p) :
    ∃ j, j < g.maxEntries ∧ p.1 = j * g.entrySize := by
  rcases h with ⟨-, rfl⟩ | ⟨j, -, hj, -, hoff, -⟩
  · exact ⟨0, g.maxEntries_pos, (Nat.zero_mul _).symm⟩
  · exact ⟨j, hj, hoff⟩

theorem Running.target (h : Running s σ t T) :
    s.targetSlot < g.maxEntries ∧ g.incrementOffset s.latestOffset = s.targetSlot * g.entrySize :=
  Log.target_of_head h.greatest.slot

theorem Running.nextTimestamp (h : Running s σ t T) (hT : T + 1 < 2 ^ 64) :
    s.nextTimestamp = s.latestTimestamp + 1 := by
  have hle := h.time
  exact Nat.mod_eq_of_lt (by omega)

section

variable (hoffers : g.dataSize ≤ s.chunk.dataLen) (e : Entry g)

include hoffers

/-- The bytes an `addEntry` stores in its slot. -/
theorem Log.entryData_eq :
    s.entryData (.ofBytes e.bytes) = leBytes 8 s.nextTimestamp ++ e.bytes := by
  have hds : g.dataSize = g.payloadSize + 8 := rfl
  have hpos := g.payload_pos
  have hsize := e.size
  have hget : (Payload.ofBytes e.bytes).getData (s.chunk.dataLen - 8) = e.bytes :=
    Payload.ofBytes_getData (by omega)
  show (if s.chunk.dataLen < 8 then [] else
    if ((Payload.ofBytes e.bytes).getData (s.chunk.dataLen - 8)).length = 0 then [] else _) = _
  rw [if_neg (by omega), hget, if_neg (by omega)]
  rfl

theorem Log.length_entryData :
    (s.entryData (.ofBytes e.bytes)).length = g.dataSize := by
  rw [s.entryData_eq hoffers e, List.length_append, length_leBytes, e.size, Geometry.dataSize,
      Nat.add_comm]

/-- The frame an `addEntry` stores in its slot. -/
theorem Log.entryPieces :
    (framePieces P false [] (s.entryData (.ofBytes e.bytes))).flatten
      = entryFrame P s.nextTimestamp e.bytes := by
  rw [s.entryData_eq hoffers e]
  rfl

end

/-- The head pointer an `addEntry` writes, ready to be written. -/
theorem Running.staged (h : Running s σ t T) (hT : T + 1 < 2 ^ 64) :
    IndexRecord.Ready P s.stageEntry.indexRecord.chunk s.media t (some (s.latestOffset, s.latestTimestamp))
      ∧ s.stageEntry.indexRecord.validLatest = true
      ∧ IndexRecord.InRange P (s.stageEntry.indexRecord.latest, s.stageEntry.indexRecord.latestIndex) := by
  refine ⟨h.ready, rfl, ?_, ?_⟩
  · show g.incrementOffset s.latestOffset < P.sizeMod
    obtain ⟨hlt, hinc⟩ := h.target
    have hle := g.slot_le hlt
    have hsize := g.region_size
    omega
  · show s.nextTimestamp < 2 ^ 64
    have hle := h.time
    rw [h.nextTimestamp hT]
    omega

/-- A slot that gets no index value of another slot keeps the index values distinct. -/
theorem Distinct.update {j : Nat} {e : Option (Nat × List Byte)} (h : Distinct g σ)
    (hnew : ∀ i ts d d', i < g.maxEntries → i ≠ j → e = some (ts, d) → σ i ≠ some (ts, d')) :
    Distinct g (Function.update σ j e) := by
  intro i k v d1 d2 hi hk hσi hσk
  by_cases hij : i = j <;> by_cases hkj : k = j
  · rw [hij, hkj]
  · rw [hij, Function.update_self] at hσi
    rw [Function.update_of_ne hkj] at hσk
    exact absurd hσk (hnew k v d1 d2 hk hkj hσi)
  · rw [hkj, Function.update_self] at hσk
    rw [Function.update_of_ne hij] at hσi
    exact absurd hσi (hnew i v d2 d1 hi hij hσk)
  · rw [Function.update_of_ne hij] at hσi
    rw [Function.update_of_ne hkj] at hσk
    exact h i k v d1 d2 hi hk hσi hσk

/-- **The assumption about the CRC for entries**: a slot passes only if it passed
before and is unchanged, or it was changed and its new frame is complete. -/
def SlotsCrc (g : Geometry P) (before after torn : List Byte) : Prop :=
  ∀ i, i < g.maxEntries → CrcChunk.crcOkay P torn (i * g.entrySize) = true →
    (CrcChunk.crcOkay P before (i * g.entrySize) = true
      ∧ slice torn (i * g.entrySize) g.entrySize = slice before (i * g.entrySize) g.entrySize)
    ∨ (slice torn (i * g.entrySize) g.entrySize = slice after (i * g.entrySize) g.entrySize
      ∧ slice after (i * g.entrySize) g.entrySize ≠ slice before (i * g.entrySize) g.entrySize)

/-- A slot that is not written and did not pass the CRC does not come to pass. -/
theorem SlotsCrc.quiet {before after torn : List Byte} (h : SlotsCrc g before after torn) {i : Nat}
    (hi : i < g.maxEntries)
    (hsame : slice after (i * g.entrySize) g.entrySize = slice before (i * g.entrySize) g.entrySize)
    (hno : CrcChunk.crcOkay P before (i * g.entrySize) = false) :
    CrcChunk.crcOkay P torn (i * g.entrySize) = false := by
  cases hok : CrcChunk.crcOkay P torn (i * g.entrySize) with
  | false => rfl
  | true =>
    rcases h i hi hok with ⟨hb, -⟩ | ⟨-, hne⟩
    · rw [hno] at hb
      cases hb
    · exact absurd hsame hne

section SlotWrites

variable {before : List Byte} {j ts : Nat}

variable (h : Slots g before σ) (hfit : EntriesFit g) (hlen : before.length = g.regionLength)
  (hj : j < g.maxEntries) (hpos : 0 < ts) (h64 : ts < 2 ^ 64) (hd : d.length = g.payloadSize)

include h hfit hlen hj hpos h64 hd

/-- A complete entry write. -/
theorem Slots.write
    (hcrc : SlotsCrc g before (overlay before (j * g.entrySize) (entryFrame P ts d))
      (overlay before (j * g.entrySize) (entryFrame P ts d))) :
    Slots g (overlay before (j * g.entrySize) (entryFrame P ts d))
      (Function.update σ j (some (ts, d))) := by
  have hframe : (entryFrame P ts d).length ≤ g.entrySize := Nat.le_of_eq (length_entryFrame hd)
  refine h.update (slotIs_overlay hfit hlen hj hpos h64 hd) ?_ ?_
  · intro i _ hij
    exact slice_other_slot hlen hj hij hframe
  · intro i hi hij hσ
    have hslot := h i hi
    rw [hσ] at hslot
    exact hcrc.quiet hi (slice_other_slot hlen hj hij hframe) hslot

/-- **A cut entry write** leaves its slot empty, as it was, or complete. -/
theorem Slots.write_cut (k : Nat)
    (hcrc : SlotsCrc g before (overlay before (j * g.entrySize) (entryFrame P ts d))
      (overlay before (j * g.entrySize) ((entryFrame P ts d).take k))) :
    ∃ e, (e = none ∨ e = σ j ∨ e = some (ts, d))
      ∧ Slots g (overlay before (j * g.entrySize) ((entryFrame P ts d).take k))
          (Function.update σ j e) := by
  have hframe : (entryFrame P ts d).length = g.entrySize := length_entryFrame hd
  have htake : ((entryFrame P ts d).take k).length ≤ g.entrySize := by
    rw [List.length_take]
    omega
  have hother : ∀ i, i < g.maxEntries → i ≠ j →
      slice (overlay before (j * g.entrySize) ((entryFrame P ts d).take k)) (i * g.entrySize) g.entrySize
        = slice before (i * g.entrySize) g.entrySize :=
    fun i _ hij => slice_other_slot hlen hj hij htake
  have hquiet : ∀ i, i < g.maxEntries → i ≠ j → σ i = none → CrcChunk.crcOkay P
      (overlay before (j * g.entrySize) ((entryFrame P ts d).take k)) (i * g.entrySize) = false := by
    intro i hi hij hσ
    have hslot := h i hi
    rw [hσ] at hslot
    exact hcrc.quiet hi (slice_other_slot hlen hj hij (Nat.le_of_eq hframe)) hslot
  have hslotj := h j hj
  cases hok : CrcChunk.crcOkay P (overlay before (j * g.entrySize) ((entryFrame P ts d).take k))
      (j * g.entrySize) with
  | false => exact ⟨none, .inl rfl, h.update hok hother hquiet⟩
  | true =>
    rcases hcrc j hj hok with ⟨hb, hsame⟩ | ⟨hfull, -⟩
    · -- unchanged, so it still holds what it held
      refine ⟨σ j, .inr (.inl rfl), h.update ?_ hother hquiet⟩
      cases hσ : σ j with
      | none =>
        rw [hσ] at hslotj
        rw [show CrcChunk.crcOkay P before (j * g.entrySize) = false from hslotj] at hb
        cases hb
      | some p =>
        rw [hσ] at hslotj
        obtain ⟨hpos', -, h64', hlen', hslice⟩ := hslotj
        exact ⟨hpos', hfit, h64', hlen', by rw [hsame]; exact hslice⟩
    · refine ⟨some (ts, d), .inr (.inr rfl), h.update ?_ hother hquiet⟩
      have hfullSlot := slotIs_overlay hfit hlen hj hpos h64 hd
      exact ⟨hpos, hfit, h64, hd, by rw [hfull]; exact hfullSlot.2.2.2.2⟩

end SlotWrites

/-- Entry writes leave the index regions alone. -/
theorem Shape.entry_writes (h : Shape s) (offset : Nat) (pieces : List (List Byte)) {r : Region}
    (hr : r ≠ .entries) : ∀ w ∈ pieceWrites s.chunk.region offset pieces, w.region ≠ r := by
  intro w hw
  rw [pieceWrites_region _ _ _ w hw, h.region]
  exact Ne.symm hr

/-- The media after the head pointer of an `addEntry` has been written, -/
abbrev Log.headed (s : Log g) : Region → List Byte :=
  storeAll s.media (s.stageEntry.indexRecord.writes P)

/-- after the complete `addEntry`, -/
abbrev Log.added (s : Log g) (e : Entry g) : Region → List Byte :=
  storeAll s.media (s.addWrites (.ofBytes e.bytes))

/-- and after `k` bytes of its writes. -/
abbrev Log.cut (s : Log g) (e : Entry g) (k : Nat) : Region → List Byte :=
  storeCut s.media (s.addWrites (.ofBytes e.bytes)) k

theorem Shape.staged (h : Shape s) :
    Shape s.stageEntry := ⟨h.region, h.regionA, h.regionB, h.length⟩

theorem Shape.headed_entries (h : Shape s) : s.headed .entries = s.media .entries :=
  storeAll_other _ _ _ h.staged.index_writes

theorem Shape.added_index (h : Shape s) (e : Entry g) {r : Region} (hr : r ≠ .entries) :
    s.added e r = s.headed r := by
  unfold Log.added Log.addWrites
  rw [storeAll_append, storeAll_other _ _ _ (h.entry_writes _ _ hr)]

/-- The entry fits behind the head pointer that has been written. -/
theorem Running.room (h : Running s σ t T) (e : Entry g) :
    s.targetSlot * g.entrySize
      + (framePieces P false [] (s.entryData (.ofBytes e.bytes))).flatten.length
      ≤ (s.headed .entries).length := by
  have hle := g.slot_le h.target.1
  rw [Log.entryPieces h.offers e, length_entryFrame e.size, h.shape.headed_entries, h.shape.length]
  exact hle

/-- The entry region after a complete `addEntry`. -/
theorem Running.addWrites_entries (h : Running s σ t T) (e : Entry g) :
    s.added e .entries = overlay (s.media .entries) (s.targetSlot * g.entrySize)
      (entryFrame P s.nextTimestamp e.bytes) := by
  unfold Log.added Log.addWrites
  rw [storeAll_append, h.shape.region, h.target.2, storeAll_pieceWrites _ _ _ _ (h.room e),
      Log.entryPieces h.offers e, h.shape.headed_entries]

/-- `addEntry` after a successful index write: the head moves BEFORE the entry is
written. -/
theorem addEntry_index_written (src : Payload) (fates : Log.AddFates)
    {w : IndexRecord.Written P Region}
    (hwrite : s.stageEntry.indexRecord.writeToMedia P s.media fates.index1 fates.index2 = some w)
    (hw : w.result = true) :
    s.addEntry src fates
      = (s.chunk.updateData P w.media (s.stageEntry.toPayload (some src))
          (g.incrementOffset s.latestOffset) false fates.entry).map fun u =>
        ({ s.stageEntry with
            indexRecord := w.record
            latestOffset := g.incrementOffset s.latestOffset
            latestTimestamp := s.nextTimestamp
            mpIndex := s.nextTimestamp
            chunk := u.chunk
            buffer := u.buffer
            media := u.media }, u.result) := by
  unfold Log.addEntry
  simp only [show s.stageEntry.media = s.media from rfl, hwrite, Option.bind_some, hw]
  rfl

variable (h : Running s σ t T)

include h

/-- The entry write of a complete `addEntry`. -/
theorem Running.updateData (hfit : EntriesFit g) (e : Entry g) :
    s.chunk.updateData P s.headed (s.stageEntry.toPayload (some (.ofBytes e.bytes)))
        (g.incrementOffset s.latestOffset) false []
      = some ⟨{ s.chunk with dataLen := (s.entryData (.ofBytes e.bytes)).length },
          (WorkBuffer.zero P).fill (s.entryData (.ofBytes e.bytes)), s.added e, true⟩ := by
  have hdlen := s.length_entryData h.offers e
  have hds := g.dataSize_pos
  unfold EntriesFit at hfit
  have hroom := h.room e
  rw [← h.shape.region] at hroom
  rw [h.target.2, CrcChunk.updateData_ok s.chunk s.headed _ _
    (show (s.stageEntry.toPayload _).getData _ = s.entryData (.ofBytes e.bytes) from rfl) (by omega)
    (by omega) hroom]
  congr 2
  funext r
  by_cases hr : r = s.chunk.region
  · subst hr
    rw [Function.update_self, h.shape.region, h.addWrites_entries e, h.shape.headed_entries]
    exact congrArg _ (Log.entryPieces h.offers e)
  · rw [Function.update_of_ne hr, h.shape.added_index e (h.shape.region ▸ hr)]

/-- An index value in the ring is older than the next one. -/
theorem Running.older (hT : T + 1 < 2 ^ 64) {i ts : Nat} (hi : i < g.maxEntries)
    (hσ : σ i = some (ts, d)) : ts < s.nextTimestamp := by
  have hle := h.greatest.le hi hσ
  rw [h.nextTimestamp hT]
  exact Nat.lt_succ_of_le hle

/-- The ring after an `addEntry` that may have been cut, with the new head pointer stored. -/
theorem Running.names_cut (hT : T + 1 < 2 ^ 64) {e' : Option (Nat × List Byte)}
    (he : e' = none ∨ e' = σ s.targetSlot ∨ e' = some (s.nextTimestamp, d)) :
    Distinct g (Function.update σ s.targetSlot e')
      ∧ Names g (Function.update σ s.targetSlot e') (g.incrementOffset s.latestOffset, s.nextTimestamp) := by
  obtain ⟨hlt, hinc⟩ := h.target
  refine ⟨?_, s.targetSlot, hlt, hinc, fun i ts d' hi hσ => ?_⟩
  · refine h.distinct.update fun i ts d₁ d₂ hi hne heq hσ => ?_
    rcases he with rfl | rfl | rfl
    · cases heq
    · exact hne (h.distinct i _ ts d₂ d₁ hi hlt hσ heq)
    · cases heq
      exact Nat.lt_irrefl _ (h.older hT hi hσ)
  · -- only the target slot can carry the new index value
    by_cases hij : i = s.targetSlot
    · refine ⟨?_, fun _ => hij⟩
      rw [hij, Function.update_self] at hσ
      rcases he with rfl | rfl | rfl
      · cases hσ
      · exact Nat.le_of_lt (h.older hT hlt hσ)
      · cases hσ
        exact Nat.le_refl _
    · rw [Function.update_of_ne hij] at hσ
      have hold := h.older hT hi hσ
      exact ⟨Nat.le_of_lt hold, fun heq => absurd heq (Nat.ne_of_lt hold)⟩

/-- **A complete `addEntry`** returns true and leaves a running log with the entry
in its slot. -/
theorem addEntry_running (hfit : EntriesFit g) (ht : t + 2 < 2 ^ 64) (hT : T + 1 < 2 ^ 64)
    (e : Entry g) (hcrc : SlotsCrc g (s.media .entries) (s.added e .entries) (s.added e .entries)) :
    ∃ s', s.addEntry (.ofBytes e.bytes) .none = some (s', true) ∧ s'.media = s.added e
      ∧ s'.indexRecord.chunk.currentRegion = s.indexRecord.chunk.currentRegion
      ∧ Running s' (Function.update σ s.targetSlot (some (s.nextTimestamp, e.bytes))) (t + 2) (T + 1) := by
  obtain ⟨hlt, hinc⟩ := h.target
  obtain ⟨hready, hvalid, hrange⟩ := h.staged hT
  have hts := h.nextTimestamp hT
  have htime := h.time
  -- the head pointer is written first, then the entry
  obtain ⟨c', buf', hwrite, hready', hA, hB, hC⟩ :=
    IndexRecord.writeToMedia_ready hready hvalid hrange g.index_buffer ht
  have hadd := addEntry_index_written (.ofBytes e.bytes) .none hwrite rfl
  rw [show Log.AddFates.none.entry = [] from rfl, h.updateData hfit e] at hadd
  refine ⟨_, hadd, rfl, hC, ?_⟩
  have hA' : c'.regionA = .indexA := hA.trans h.shape.regionA
  have hB' : c'.regionB = .indexB := hB.trans h.shape.regionB
  obtain ⟨hdist, _, _, _, hnames⟩ := h.names_cut hT (.inr (.inr rfl))
  refine
    { shape := ⟨h.shape.region, hA', hB', (length_storeAll ..).trans h.shape.length⟩
      slots := ?_
      ready := ⟨hready'.1, hready'.2.congr ?_ ?_⟩
      offers := Nat.le_of_eq (s.length_entryData h.offers e).symm
      distinct := hdist
      greatest := .inr ⟨s.targetSlot, e.bytes, hlt, Function.update_self .., hinc,
        fun i ts' d' hi hσ => (hnames i ts' d' hi hσ).1⟩
      time := ?_ }
  · show Slots g (s.added e .entries) _
    rw [h.addWrites_entries e] at hcrc ⊢
    exact h.slots.write hfit h.shape.length hlt (by omega) (by omega) e.size hcrc
  · exact h.shape.added_index e (by rw [hA']; decide)
  · exact h.shape.added_index e (by rw [hB']; decide)
  · show s.nextTimestamp ≤ T + 1
    omega

/-- **An `addEntry` that is cut** leaves the media durable; its slot holds what it
held, nothing, or the new entry. -/
theorem addEntry_cut (hfit : EntriesFit g) (ht : t + 2 < 2 ^ 64) (hT : T + 1 < 2 ^ 64)
    (e : Entry g) (k : Nat) (hidx : IndexCrc s (s.added e) (s.cut e k))
    (hcrc : SlotsCrc g (s.media .entries) (s.added e .entries) (s.cut e k .entries))
    (hhead : HeadIntact s (s.added e) (s.cut e k)) :
    ∃ x' e', Durable (s.withMedia (s.cut e k)) (Function.update σ s.targetSlot e') x' (t + 2) (T + 1) := by
  obtain ⟨hlt, hinc⟩ := h.target
  obtain ⟨hready, hvalid, hrange⟩ := h.staged hT
  have hts := h.nextTimestamp hT
  have htime := h.time
  obtain ⟨hA, hB⟩ := h.shape.index_ne
  have hfits := IndexRecord.writes_fit hready hvalid ht
  by_cases hk : k < cells (s.stageEntry.indexRecord.writes P)
  · -- the cut falls into the head pointer; no slot is touched
    have htorn : s.cut e k = storeCut s.media (s.stageEntry.indexRecord.writes P) k :=
      storeCut_append_left _ _ _ _ hfits hk
    unfold HeadIntact MirroredChunk.MixFree at hhead
    rw [htorn] at hidx hhead ⊢
    rw [h.shape.added_index e hB] at hhead
    obtain ⟨x', hx', hcell⟩ := IndexRecord.writes_cut hready hvalid hrange g.index_buffer ht k
      (by
        intro r hr hb ha
        refine hidx r hr hb ?_
        rwa [h.shape.added_index e (by rcases hr with rfl | rfl <;> assumption)])
      hhead
    obtain ⟨-, hnames⟩ := h.names_cut hT (d := e.bytes) (.inr (.inl rfl))
    refine ⟨x', σ s.targetSlot, ?_⟩
    rw [Function.update_eq_self] at hnames ⊢
    exact h.durable.headCut (storeCut_other _ _ _ _ h.shape.staged.index_writes) hcell hx' hnames
      (show s.nextTimestamp ≤ T + 1 by omega) (Nat.le_succ T)
  · -- the head pointer is complete; the cut falls into the entry
    have htorn : s.cut e k = storeCut s.headed
        (pieceWrites s.chunk.region (g.incrementOffset s.latestOffset)
          (framePieces P false [] (s.entryData (.ofBytes e.bytes))))
        (k - cells (s.stageEntry.indexRecord.writes P)) :=
      storeCut_append_right _ _ _ _ hfits (by omega)
    have hentries : s.cut e k .entries = overlay (s.media .entries) (s.targetSlot * g.entrySize)
        ((entryFrame P s.nextTimestamp e.bytes).take
          (k - cells (s.stageEntry.indexRecord.writes P))) := by
      rw [htorn, h.shape.region, hinc, storeCut_pieceWrites _ _ _ _ _ (h.room e),
          Log.entryPieces h.offers e, h.shape.headed_entries]
    have hindex : ∀ r, r ≠ .entries → s.cut e k r = s.headed r := fun r hr => by
      rw [htorn]
      exact storeCut_other _ _ _ _ (h.shape.entry_writes _ _ hr)
    obtain ⟨c', buf', -, hready', hA', hB', -⟩ :=
      IndexRecord.writeToMedia_ready hready hvalid hrange g.index_buffer ht
    rw [h.addWrites_entries e, hentries] at hcrc
    obtain ⟨e', he', hslots⟩ := h.slots.write_cut hfit h.shape.length hlt (by omega) (by omega) e.size _ hcrc
    obtain ⟨hdist, hnames⟩ := h.names_cut hT he'
    have hcell : IndexRecord.Cell P s.indexRecord.chunk (s.cut e k) (t + 2)
        (some (g.incrementOffset s.latestOffset, s.nextTimestamp)) :=
      ⟨hready'.cell.1, hready'.cell.2.congr ((hindex _ hA).trans (congrArg _ hA'.symm))
        ((hindex _ hB).trans (congrArg _ hB'.symm))⟩
    obtain ⟨_, _, _, hold⟩ := id hnames
    refine ⟨_, e', ⟨h.shape.region, h.shape.regionA, h.shape.regionB,
      (length_storeCut ..).trans h.shape.length⟩, ?_, hcell, hdist, ?_,
      fun i ts d hi hσ => ?_, ?_⟩
    · show Slots g (s.cut e k .entries) _
      rwa [hentries]
    · rintro _ ⟨⟩
      exact hnames
    · have hle := (hold i ts d hi hσ).1
      omega
    · rintro _ ⟨⟩
      omega

end ColonyCore.Persistent
