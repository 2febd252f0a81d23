/-
  ColonyCore.Persistent.LogAppend
  **`addEntry` AND `clearAllEntries` ON A LIVE LOG, WITH ANY WRITE FAILING.**

  A log is `Live` once it has been started: its index record can be written and
  its head names a slot.  Nothing is asked of what the media hold, so the
  results here survive failed writes and wrapped transaction ids.

    • `addEntry_cases`        — all that `addEntry` can do,
    • `addEntry_total`        — it runs to its end when the work buffer holds an entry,
    • `clearAllEntries_cases` — a clear that reports success.
-/
import ColonyCore.Persistent.LogRecovery

namespace ColonyCore.Persistent

open ByteStore LittleEndian List

variable {P : Platform} {g : Geometry P}

/-! ## §1. Live logs. -/

/-- A started log: everything `addEntry` relies on. -/
structure Live (s : Log g) : Prop where
  shape : Shape s
  index : IndexRecord.Writable P s.indexRecord.chunk s.media
  offers : g.dataSize ≤ s.chunk.dataLen
  head : ∃ j, j < g.maxEntries ∧ s.latestOffset = j * g.entrySize

variable {s : Log g}

theorem Running.live {σ : Ring} {t T : Nat} (h : Running s σ t T) : Live s :=
  ⟨h.shape, h.ready.writable, h.offers, h.greatest.slot⟩

theorem Live.target (h : Live s) :
    s.targetSlot < g.maxEntries ∧ g.incrementOffset s.latestOffset = s.targetSlot * g.entrySize :=
  Log.target_of_head h.head

/-! ## §2. `addEntry`. -/

/-- The index write reports success: none of the four region writes of its second
pass fails. -/
def Log.AddFates.indexOk (fates : Log.AddFates) : Bool := (fates.index2.take 4).all Fate.isOk

/-- The entry write reports success: none of its three region writes fails. -/
def Log.AddFates.entryOk (fates : Log.AddFates) : Bool := (fates.entry.take 3).all Fate.isOk

/-- What an `addEntry` leaves whose index write failed: the head and the entries
as they were. -/
structure Refused (s s' : Log g) : Prop where
  live : Live s'
  entries : s'.media .entries = s.media .entries
  offset : s'.latestOffset = s.latestOffset
  timestamp : s'.latestTimestamp = s.latestTimestamp

/-- What an `addEntry` leaves whose index write succeeded: the head has MOVED,
whatever the entry write did to the target slot; no other slot is touched. -/
structure Appended (s s' : Log g) (e : Entry g) (stored : Bool) : Prop where
  live : Live s'
  offset : s'.latestOffset = s.targetSlot * g.entrySize
  timestamp : s'.latestTimestamp = s.nextTimestamp
  others : ∀ i, i < g.maxEntries → i ≠ s.targetSlot →
    slice (s'.media .entries) (i * g.entrySize) g.entrySize
      = slice (s.media .entries) (i * g.entrySize) g.entrySize
  written : stored = true → s'.media .entries
    = overlay (s.media .entries) (s.targetSlot * g.entrySize) (entryFrame P s.nextTimestamp e.bytes)

/-- The index write of a live log, whatever its fates. -/
theorem Live.writeIndex (h : Live s) (fates : Log.AddFates) :
    ∃ w, s.stageEntry.indexRecord.writeToMedia P s.media fates.index1 fates.index2 = some w
      ∧ w.result = fates.indexOk
      ∧ w.media .entries = s.media .entries
      ∧ Live ({ s.stageEntry with
          indexRecord := w.record, buffer := w.buffer, media := w.media } : Log g) := by
  obtain ⟨w, hwrite, hkeep, hlens, hA, hB, hindex, hres⟩ :=
    IndexRecord.Writable.write (r := s.stageEntry.indexRecord) h.index rfl g.index_buffer
      fates.index1 fates.index2
  have hentries : w.media .entries = s.media .entries :=
    hkeep .entries h.shape.index_ne.1.symm h.shape.index_ne.2.symm
  exact ⟨w, hwrite, hres, hentries, ⟨h.shape.region, hA.trans h.shape.regionA,
    hB.trans h.shape.regionB, (hlens _).trans h.shape.length⟩, hindex, h.offers, h.head⟩

/-- Bytes outside a run of cells are those of the slots it does not meet. -/
theorem slice_slot_of_outside {s s' : List Byte} {i j : Nat} (hij : i ≠ j)
    (h : ∀ k, k < j * g.entrySize ∨ j * g.entrySize + g.entrySize ≤ k → s'[k]? = s[k]?) :
    slice s' (i * g.entrySize) g.entrySize = slice s (i * g.entrySize) g.entrySize := by
  refine slice_congr fun k hk => h _ ?_
  rcases g.slot_disjoint hij with hd | hd
  · left
    omega
  · right
    omega

/-- **The entry write**, whatever its fates: only the target slot changes, and a
write that reports success has stored the frame. -/
theorem writeEntry_cases {m : Region → List Byte} {j : Nat} (hj : j < g.maxEntries)
    (hlen : (m .entries).length = g.regionLength) {ps : List (List Byte)}
    (hps : ps.flatten.length = g.entrySize) (fates : List Fate) :
    let w := writeEach m (pieceWrites .entries (j * g.entrySize) ps) fates
    (∀ r, r ≠ .entries → w.1 r = m r)
      ∧ (w.1 .entries).length = g.regionLength
      ∧ (∀ i, i ≠ j → slice (w.1 .entries) (i * g.entrySize) g.entrySize
          = slice (m .entries) (i * g.entrySize) g.entrySize)
      ∧ (w.2.all id = true → w.1 .entries = overlay (m .entries) (j * g.entrySize) ps.flatten)
      ∧ w.2.all id = (fates.take (pieceWrites Region.entries (j * g.entrySize) ps).length).all Fate.isOk := by
  have hle := g.slot_le hj
  refine ⟨?_, ?_, ?_, ?_, ?_⟩
  · intro r hr
    refine writeEach_other _ _ _ _ ?_
    intro v hv
    rw [pieceWrites_region _ _ _ v hv]
    exact Ne.symm hr
  · rw [length_writeEach]
    exact hlen
  · intro i hij
    refine slice_slot_of_outside hij ?_
    intro k hk
    exact writeEach_pieceWrites_outside .entries ps m (j * g.entrySize) fates k (by omega)
  · intro hall
    rw [(writeEach_all _ _ _ hall).1, storeAll_pieceWrites _ _ _ _ (by omega)]
  · exact writeEach_results _ _ _ (pieceWrites_fits m .entries ps (j * g.entrySize) (by omega))

/-- `addEntry` after a failed index write. -/
theorem addEntry_index_failed {src : Payload} {fates : Log.AddFates}
    {w : IndexRecord.Written P Region}
    (hwrite : s.stageEntry.indexRecord.writeToMedia P s.media fates.index1 fates.index2 = some w)
    (hw : w.result = false) :
    s.addEntry src fates = some ({ s.stageEntry with
      indexRecord := w.record, buffer := w.buffer, media := w.media }, false) := by
  unfold Log.addEntry
  simp [show s.stageEntry.media = s.media from rfl, hwrite, hw]

/-- **All that `addEntry` can do** on a live log. -/
theorem addEntry_cases {s' : Log g} (h : Live s) {e : Entry g} {fates : Log.AddFates}
    {stored : Bool} (hadd : s.addEntry (.ofBytes e.bytes) fates = some (s', stored)) :
    (fates.indexOk = false ∧ stored = false ∧ Refused s s')
      ∨ (fates.indexOk = true ∧ g.dataSize ≤ P.workBufferSize ∧ stored = fates.entryOk
          ∧ Appended s s' e stored) := by
  obtain ⟨w, hwrite, hres, hentries, hlive⟩ := h.writeIndex fates
  obtain ⟨hlt, hinc⟩ := h.target
  cases hw : w.result with
  | false =>
    rw [hw] at hres
    rw [addEntry_index_failed hwrite hw] at hadd
    obtain ⟨rfl, rfl⟩ := Prod.mk.inj (Option.some.inj hadd)
    exact Or.inl ⟨hres.symm, rfl, hlive, hentries, rfl, rfl⟩
  | true =>
    rw [hw] at hres
    rw [addEntry_index_written _ _ hwrite hw] at hadd
    simp only [Option.map_eq_some_iff] at hadd
    obtain ⟨u, hupd, rfl, rfl⟩ := hadd
    have hdata : (s.stageEntry.toPayload (some (.ofBytes e.bytes))).getData s.chunk.dataLen
        = s.entryData (.ofBytes e.bytes) := rfl
    have hdlen := s.length_entryData h.offers e
    -- an entry the work buffer cannot hold does not reach the media
    have hbuf : g.dataSize ≤ P.workBufferSize := by
      by_contra hbig
      have hnone : s.chunk.updateData P w.media (s.stageEntry.toPayload (some (.ofBytes e.bytes)))
          (g.incrementOffset s.latestOffset) false fates.entry = none := by
        unfold CrcChunk.updateData
        rw [hdata, if_pos (by omega)]
      exact absurd (hnone.symm.trans hupd) (by simp)
    have hupd' := CrcChunk.updateData_eq (P := P) s.chunk w.media
      (s.stageEntry.toPayload (some (.ofBytes e.bytes))) (g.incrementOffset s.latestOffset) hdata
      (by rw [hdlen]; exact g.dataSize_pos) (by omega) fates.entry
    rw [h.shape.region] at hupd'
    obtain rfl : _ = u := Option.some.inj (hupd'.symm.trans hupd)
    have hcases := writeEntry_cases (m := w.media) hlt
      (by rw [hentries]; exact h.shape.length)
      (by rw [Log.entryPieces h.offers e]; exact length_entryFrame e.size) fates.entry
    rw [← hinc] at hcases
    obtain ⟨hindex, hlen, hothers, hstored, hentry⟩ := hcases
    refine Or.inr ⟨hres.symm, hbuf, hentry, ⟨⟨rfl, hlive.shape.regionA, hlive.shape.regionB, hlen⟩,
      hlive.index.congr (hindex _ hlive.shape.index_ne.1) (hindex _ hlive.shape.index_ne.2),
      Nat.le_of_eq hdlen.symm, ⟨s.targetSlot, hlt, hinc⟩⟩, hinc, rfl, ?_, ?_⟩
    · intro i _ hij
      exact (hothers i hij).trans (by rw [hentries])
    · intro hstore
      refine (hstored hstore).trans ?_
      rw [hentries, hinc, Log.entryPieces h.offers e]

/-- **`addEntry` runs to its end** when the work buffer holds an entry; without
failures it returns true. -/
theorem addEntry_total (h : Live s) (hbuf : g.dataSize ≤ P.workBufferSize) (e : Entry g)
    (fates : Log.AddFates) :
    ∃ s' stored, s.addEntry (.ofBytes e.bytes) fates = some (s', stored)
      ∧ (fates = .none → stored = true) := by
  obtain ⟨w, hwrite, hres, hentries, -⟩ := h.writeIndex fates
  obtain ⟨hlt, hinc⟩ := h.target
  have hdlen := s.length_entryData h.offers e
  have hdata : (s.stageEntry.toPayload (some (.ofBytes e.bytes))).getData s.chunk.dataLen
      = s.entryData (.ofBytes e.bytes) := rfl
  have hupd := CrcChunk.updateData_eq (P := P) s.chunk w.media
    (s.stageEntry.toPayload (some (.ofBytes e.bytes))) (g.incrementOffset s.latestOffset) hdata
    (by rw [hdlen]; exact g.dataSize_pos) (by omega) fates.entry
  cases hw : w.result with
  | false =>
    refine ⟨_, false, addEntry_index_failed hwrite hw, ?_⟩
    rintro rfl
    rw [hres] at hw
    cases hw
  | true =>
    refine ⟨_, _, (addEntry_index_written _ _ hwrite hw).trans (congrArg (Option.map _) hupd), ?_⟩
    rintro rfl
    obtain ⟨-, -, -, -, hall⟩ := writeEntry_cases (m := w.media) hlt
      (by rw [hentries]; exact h.shape.length)
      (by rw [Log.entryPieces h.offers e]; exact length_entryFrame e.size) []
    rw [← hinc, ← h.shape.region] at hall
    exact hall

/-! ## §3. `clearAllEntries`. -/

/-- **The clearing loop**, when it reports success: zeros from `offset` to the end
of the entry region, everything else as it was. -/
theorem clearRegion_cleared (fuel : Nat) :
    ∀ (offset : Nat) (m m' : Region → List Byte) (fates : List Fate),
      (m .entries).length = g.regionLength → g.regionLength ≤ offset + fuel →
      Log.clearRegion g fuel offset m fates = (m', true) →
      (∀ r, r ≠ .entries → m' r = m r) ∧ (m' .entries).length = g.regionLength
        ∧ (∀ i, i < offset → (m' .entries)[i]? = (m .entries)[i]?)
        ∧ (∀ i, offset ≤ i → i < g.regionLength → (m' .entries)[i]? = some 0#8) := by
  induction fuel with
  | zero =>
    intro offset m m' fates hlen hfuel h
    obtain ⟨rfl, -⟩ := Prod.mk.inj h
    exact ⟨fun _ _ => rfl, hlen, fun _ _ => rfl, fun i h1 h2 => by omega⟩
  | succ fuel ih =>
    intro offset m m' fates hlen hfuel h
    unfold Log.clearRegion at h
    split at h
    next hoff =>
      simp only at h
      generalize hL : min (g.regionLength - offset) 128 = len at h
      have hle : offset + len ≤ g.regionLength := by omega
      -- a chunk that reports success has been stored
      cases hf : fates.headD .ok with
      | fail left =>
        rw [hf] at h
        simp [write] at h
      | ok =>
        have hfits : (⟨.entries, offset, replicate len 0#8⟩ : Write Byte Region).Fits m := by
          show offset + (replicate len 0#8).length ≤ (m .entries).length
          rw [length_replicate, hlen]
          exact hle
        rw [hf, show write m ⟨.entries, offset, replicate len 0#8⟩ .ok
          = (store m ⟨.entries, offset, replicate len 0#8⟩, true) from by
            simp [write, hfits]] at h
        simp only [if_true] at h
        have hself := store_self m _ hfits
        obtain ⟨hother, hlen', hlow, hhigh⟩ := ih (offset + len) _ m' fates.tail
          (by rw [length_store]; exact hlen) (by omega) h
        have hget : ∀ i, i < offset + len → (m' .entries)[i]?
            = if offset ≤ i then some 0#8 else (m .entries)[i]? := by
          intro i hi
          rw [hlow i hi, show store m ⟨.entries, offset, replicate len 0#8⟩ .entries
            = overlay (m .entries) offset (replicate len 0#8) from hself,
            getElem?_overlay _ _ _ hfits, length_replicate]
          by_cases hin : offset ≤ i
          · rw [if_pos ⟨hin, hi⟩, if_pos hin, getElem?_replicate,
                if_pos (show i - offset < len by omega)]
          · rw [if_neg (fun h => hin h.1), if_neg hin]
        refine ⟨?_, hlen', ?_, ?_⟩
        · intro r hr
          rw [hother r hr]
          exact store_other m _ r hr
        · intro i hi
          rw [hget i (by omega), if_neg (by omega)]
        · intro i h1 h2
          by_cases hi : i < offset + len
          · rw [hget i hi, if_pos h1]
          · exact hhigh i (by omega) h2
    next hoff =>
      obtain ⟨rfl, -⟩ := Prod.mk.inj h
      exact ⟨fun _ _ => rfl, hlen, fun _ _ => rfl, fun i h1 h2 => by omega⟩

/-- The whole loop: the entry region is zeros, the index regions are as they were. -/
theorem clearRegion_zeros {m m' : Region → List Byte} {fates : List Fate}
    (hlen : (m .entries).length = g.regionLength)
    (h : Log.clearRegion g g.regionLength 0 m fates = (m', true)) :
    m' .entries = replicate g.regionLength 0#8 ∧ ∀ r, r ≠ .entries → m' r = m r := by
  obtain ⟨hother, hlen', -, hzero⟩ := clearRegion_cleared g.regionLength 0 m m' fates hlen (by omega) h
  refine ⟨?_, hother⟩
  apply ext_getElem?
  intro i
  rw [getElem?_replicate]
  split
  next hi => exact hzero i (Nat.zero_le i) hi
  next hi => exact getElem?_eq_none (by rw [hlen']; omega)

/-- The loop leaves the index record writable. -/
theorem Shape.writable_cleared (h : Shape s) {m' : Region → List Byte}
    (hindex : IndexRecord.Writable P s.indexRecord.chunk s.media)
    (hother : ∀ r, r ≠ .entries → m' r = s.media r) :
    IndexRecord.Writable P s.indexRecord.chunk m' :=
  hindex.congr (hother _ h.index_ne.1) (hother _ h.index_ne.2)

/-- **A clear that reports success** leaves a live log on an entry region of
zeros, whatever becomes of the index write. -/
theorem clearAllEntries_cases {s' : Log g} (h : Live s) {fates index1 index2 : List Fate}
    (hclear : s.clearAllEntries fates index1 index2 = some (s', true)) :
    Live s' ∧ s'.latestOffset = 0 ∧ s'.latestTimestamp = 0
      ∧ s'.media .entries = replicate g.regionLength 0#8 := by
  unfold Log.clearAllEntries at hclear
  simp only [Option.map_eq_some_iff, Prod.mk.injEq] at hclear
  obtain ⟨w, hwrite, rfl, hres⟩ := hclear
  simp only [hres] at hwrite
  obtain ⟨hzeros, hother⟩ := clearRegion_zeros h.shape.length
    (Prod.ext rfl hres : Log.clearRegion g g.regionLength 0 s.media fates = (_, true))
  obtain ⟨w', hwrite', hkeep, hlens, hA, hB, hwritable, -⟩ :=
    IndexRecord.Writable.write (r := s.indexRecord.setLatestOffset 0 0)
      (h.shape.writable_cleared h.index hother) rfl g.index_buffer index1 index2
  obtain rfl : w' = w := Option.some.inj (hwrite'.symm.trans hwrite)
  have hentries : w'.media .entries = replicate g.regionLength 0#8 :=
    (hkeep .entries h.shape.index_ne.1.symm h.shape.index_ne.2.symm).trans hzeros
  simp only [hres, if_true]
  refine ⟨⟨⟨h.shape.region, hA.trans h.shape.regionA, hB.trans h.shape.regionB, ?_⟩, hwritable, h.offers,
    ⟨0, g.maxEntries_pos, (Nat.zero_mul _).symm⟩⟩, trivial, trivial, hentries⟩
  show (w'.media .entries).length = _
  rw [hentries, length_replicate]

end ColonyCore.Persistent
