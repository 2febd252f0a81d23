/-
  ColonyCore.Persistent.LogClear
  **CLEARING THE LOG IS COMPLETE (`IndexedEntryRecord::clearAllEntries`).**

  A region of zeros holds no entry: its length field decodes as 0, and the CRC of
  zeros is never zero.  So a cleared log answers every read with "false", and goes
  on to do so after a restart, when the head pointer is read back and the scan
  finds nothing.

    • `crcOkay_zeros`     — zeros are refused at EVERY offset, slot or not,
    • `Vacant.answers`    — any sequence of reads on a log of zeros,
    • `start_vacant`      — a restart on zeros and two mirrors of the head pointer,
    • `clear_is_complete` — all of this, from any content of the entry region.
-/
import ColonyCore.Persistent.LogRing

namespace ColonyCore.Persistent

open ByteStore LittleEndian Checksum.Crc32EthernetFast List MirroredChunk

variable {P : Platform} {g : Geometry P}

/-! ## §1. Zeros hold no entry. -/

theorem slice_zeros (n off k : Nat) (h : off + k ≤ n) :
    slice (replicate n 0#8) off k = replicate k 0#8 := by
  rw [slice, drop_replicate, take_replicate, Nat.min_eq_left (by omega)]

/-- **Zeros are refused wherever one reads**: also where the frame would leave
the region, and the CRC is that of the length field alone. -/
theorem crcOkay_zeros (n index : Nat) :
    CrcChunk.crcOkay P (replicate n 0#8) index = false := by
  unfold CrcChunk.crcOkay
  by_cases hlen : index + P.sizeofSizeT ≤ n
  · have hfield : ofLeBytes (slice (replicate n 0#8) index P.sizeofSizeT) = 0 := by
      rw [slice_zeros _ _ _ hlen, ofLeBytes_replicate_zero]
    rw [readFrame_eq (fun _ : Unit => replicate n 0#8) () index reset _ 0
      (by rw [length_replicate]; exact hlen) hfield, length_replicate]
    split
    · split
      next hroom => rw [slice_zeros _ _ _ (by omega), isOkay_zeros]
      next => rw [slice_zeros _ _ _ hlen, isOkay_zeros]
    · rfl
  · rw [readFrame_noHeader _ _
      (by rw [length_replicate]; omega)]

/-- A log whose entry region is zeros and whose latest index value is 0. -/
structure Vacant (s : Log g) : Prop where
  region : s.chunk.region = .entries
  zeros : s.media .entries = replicate g.regionLength 0#8
  latest : s.latestTimestamp = 0

/-! ## §2. Reads on a log of zeros. -/

/-- The reads an application makes.  The marker of `getNext` and `getPrevious` is
that of an earlier read: it names a slot. -/
inductive Query (g : Geometry P) where
  | getLatest (dst : Payload)
  | getByBufferIndex (bufferIndex : Nat) (dst : Payload)
  | getNext (newerThan indexValue : Nat) (slot : Fin g.maxEntries) (dst : Payload)
  | getPrevious (olderThan indexValue : Nat) (slot : Fin g.maxEntries) (dst : Payload)

namespace Log

/-- One read. -/
def query (s : Log g) : Query g → Log g × Option (List Byte × EntryMarker)
  | .getLatest dst => s.getLatest dst
  | .getByBufferIndex bufferIndex dst => s.getByBufferIndex bufferIndex dst
  | .getNext newerThan indexValue slot dst =>
    s.getNext newerThan ⟨indexValue, slot * g.entrySize⟩ dst
  | .getPrevious olderThan indexValue slot dst =>
    s.getPrevious olderThan ⟨indexValue, slot * g.entrySize⟩ dst

/-- The answers to a sequence of reads; `none` is "false". -/
def answers (s : Log g) : List (Query g) → List (Option (List Byte × EntryMarker))
  | [] => []
  | q :: qs => (s.query q).2 :: (s.query q).1.answers qs

/-- Reading where the CRC fails changes the work buffer only. -/
theorem readFromMedia_refused {s : Log g} (hreg : s.chunk.region = .entries) {offset : Nat}
    (hcrc : CrcChunk.crcOkay P (s.media .entries) offset = false) (handler : Option Payload) :
    ∃ buf, s.readFromMedia handler offset = ⟨{ s with buffer := buf }, false, []⟩ := by
  rw [← hreg] at hcrc
  obtain ⟨buf, hload⟩ := CrcChunk.loadData_reject (s.toPayload handler) s.buffer hcrc
  refine ⟨buf, ?_⟩
  unfold readFromMedia
  simp [hload]

end Log

variable {s : Log g}

theorem Vacant.buffer (h : Vacant s) (buf : WorkBuffer P) :
    Vacant ({ s with buffer := buf } : Log g) :=
  ⟨h.region, h.zeros, h.latest⟩

theorem Vacant.readFromMedia (h : Vacant s) (handler : Option Payload) (offset : Nat) :
    ∃ buf, s.readFromMedia handler offset = ⟨{ s with buffer := buf }, false, []⟩ :=
  Log.readFromMedia_refused h.region (by rw [h.zeros]; exact crcOkay_zeros _ _) handler

theorem Vacant.getByOffset (h : Vacant s) (dst : Payload) (offset : Nat) :
    Vacant (s.getByOffset dst offset).1 ∧ (s.getByOffset dst offset).2 = none := by
  obtain ⟨buf, hread⟩ := h.readFromMedia (some dst) offset
  unfold Log.getByOffset
  rw [hread]
  exact ⟨h.buffer buf, rfl⟩

/-- The search of `getNext` and `getPrevious`, whatever it looks for. -/
theorem Vacant.search (next : Nat → Nat) (wanted : Nat → Bool) (dst : Payload) (fuel : Nat) :
    ∀ (offset : Nat) (s : Log g), Vacant s →
      Vacant (Log.search next wanted dst fuel offset s).1
        ∧ (Log.search next wanted dst fuel offset s).2 = none := by
  -- on the number of slots to try: each is refused
  induction fuel with
  | zero => intro offset s h; exact ⟨h, rfl⟩
  | succ fuel ih =>
    intro offset s h
    obtain ⟨hvac, hnone⟩ := h.getByOffset dst offset
    unfold Log.search
    simp only [hnone]
    exact ih _ _ hvac

theorem Vacant.query (h : Vacant s) (q : Query g) :
    Vacant (s.query q).1 ∧ (s.query q).2 = none := by
  cases q with
  | getLatest dst => exact h.getByOffset dst _
  | getByBufferIndex bufferIndex dst =>
    unfold Log.query Log.getByBufferIndex
    simp only
    split
    · exact ⟨h, rfl⟩
    · exact h.getByOffset dst _
  | getNext newerThan indexValue slot dst | getPrevious olderThan indexValue slot dst =>
    exact Vacant.search _ _ dst _ _ s h

/-- **Every sequence of reads is answered with "false"**, and leaves the log
vacant. -/
theorem Vacant.answers (qs : List (Query g)) : ∀ {s : Log g}, Vacant s →
    ∀ a ∈ s.answers qs, a = none := by
  induction qs with
  | nil => intro s _ a ha; cases ha
  | cons q qs ih =>
    intro s h a ha
    obtain ⟨hvac, hnone⟩ := h.query q
    rcases mem_cons.mp ha with rfl | ha
    · exact hnone
    · exact ih hvac a ha

/-! ## §3. Both mirrors hold the head pointer. -/

/-- Both mirrors hold the frame of `data`, under different ids. -/
def Mirrored (P : Platform) (sA sB data : List Byte) : Prop :=
  ∃ idA idB, idA ≠ idB ∧ idA < 2 ^ 64 ∧ idB < 2 ^ 64
    ∧ Holds P sA idA data ∧ Holds P sB idB data

/-- **Loading two mirrors of one record**, also where an id has wrapped to 0 and
its mirror is refused. -/
theorem MirroredChunk.loadData_mirrored {ρ : Type} {c : MirroredChunk ρ} {m : ρ → List Byte}
    {data : List Byte} (h : Mirrored P (m c.regionA) (m c.regionB) data)
    (hfit : data.length + 4 ≤ P.workBufferSize) (hsizeA : (m c.regionA).length < P.sizeMod)
    (hsizeB : (m c.regionB).length < P.sizeMod) (dst : Payload) (buf : WorkBuffer P) :
    ∃ c' buf', loadData P c m dst 0 buf = some ⟨c', buf', some data, dst.putData data⟩
      ∧ (∃ q, c'.currentRegion = some q ∧ (q = c'.regionA ∨ q = c'.regionB))
      ∧ c'.dataLen = data.length ∧ c'.regionA = c.regionA ∧ c'.regionB = c.regionB := by
  obtain ⟨idA, idB, hne, hA64, hB64, hA, hB⟩ := h
  have hpeekA := hA.peek hfit hsizeA hA64
  have hpeekB := hB.peek hfit hsizeB hB64
  have hlenA := hA.length_le
  have hlenB := hB.length_le
  by_cases hnew : idB < idA
  · obtain ⟨buf', hload⟩ := loadData_regionA dst buf hpeekA (by rw [hpeekB]; exact hnew) (by omega)
    -- what region B's read left in the buffer is the same record
    rw [hpeekB, take_left, overlay_full rfl] at hload
    exact ⟨_, buf', hload, ⟨_, rfl, .inl rfl⟩, rfl, rfl, rfl⟩
  · obtain ⟨buf', hload⟩ := loadData_regionB dst buf hpeekB (by omega) (by rw [hpeekA]; show idA ≤ idB; omega)
      (by omega)
    exact ⟨_, buf', hload, ⟨_, rfl, .inr rfl⟩, rfl, rfl, rfl⟩

namespace IndexRecord

variable {ρ : Type}

/-- The head pointer is read back, and may be written again. -/
theorem readFromMedia_mirrored {r : IndexRecord ρ} {m : ρ → List Byte} {offset indexValue : Nat}
    (h : Mirrored P (m r.chunk.regionA) (m r.chunk.regionB) (encode P offset indexValue))
    (hrange : InRange P (offset, indexValue)) (hfit : getPayloadSize P + 4 ≤ P.workBufferSize)
    (hsizeA : (m r.chunk.regionA).length < P.sizeMod)
    (hsizeB : (m r.chunk.regionB).length < P.sizeMod) (buf : WorkBuffer P) :
    ∃ c' buf', readFromMedia P r m buf = some (⟨c', offset, indexValue, true⟩, buf')
      ∧ Writable P c' m ∧ c'.regionA = r.chunk.regionA ∧ c'.regionB = r.chunk.regionB := by
  have hlen := length_encode (P := P) offset indexValue
  obtain ⟨c', buf', hload, hcur, hdata, hA, hB⟩ :=
    loadData_mirrored h (by rw [hlen]; exact hfit) hsizeA hsizeB (r.toPayload P) buf
  obtain ⟨idA, idB, -, -, -, hholdsA, hholdsB⟩ := h
  have hput : (r.toPayload P).putData (encode P offset indexValue) = true :=
    decide_eq_true (Nat.le_of_eq hlen.symm)
  refine ⟨c', buf', ?_, ⟨hcur, by rw [hdata, hlen], ?_, ?_⟩, hA, hB⟩
  · unfold readFromMedia
    rw [hload]
    simp [hput, putData_encode _ hrange]
  · rw [hA, ← hlen]
    exact hholdsA.length_le
  · rw [hB, ← hlen]
    exact hholdsB.length_le

/-- A write without failures leaves both mirrors with the new head pointer. -/
theorem Writable.write_mirrored [DecidableEq ρ] {r : IndexRecord ρ} {m : ρ → List Byte}
    (h : Writable P r.chunk m) (hvalid : r.validLatest = true)
    (hfit : getPayloadSize P + 4 ≤ P.workBufferSize) :
    ∃ w, writeToMedia P r m [] [] = some w
      ∧ Mirrored P (w.media r.chunk.regionA) (w.media r.chunk.regionB)
          (encode P r.latest r.latestIndex) := by
  obtain ⟨q, hq, hAB⟩ := h.current
  have hlen := length_encode (P := P) r.latest r.latestIndex
  obtain ⟨c', buf', m', idA, idB, hupd, -, -, hA64, hB64, hne, hA, hB⟩ :=
    updateData_mirrors (P := P) hq hAB (toPayload_getData hvalid h.offers)
      (by rw [hlen]; unfold getPayloadSize sizeofUint64; omega) (by omega)
      (by rw [hlen, Nat.zero_add]; exact h.roomA) (by rw [hlen, Nat.zero_add]; exact h.roomB)
  refine ⟨⟨{ r with chunk := c' }, buf', m', true⟩, ?_, idA, idB, hne, hA64, hB64, hA, hB⟩
  unfold writeToMedia
  rw [hupd]
  rfl

end IndexRecord

/-! ## §4. Restarting on zeros. -/

/-- The scan finds nothing and moves nothing. -/
theorem Vacant.scanFrom (fuel : Nat) : ∀ (i : Nat) {s : Log g}, Vacant s →
    ∃ buf, Log.scanFrom fuel i s = { s with buffer := buf } := by
  induction fuel with
  | zero => intro i s _; exact ⟨s.buffer, rfl⟩
  | succ fuel ih =>
    intro i s h
    obtain ⟨buf, hread⟩ := h.readFromMedia none (i * g.entrySize)
    have hscan : s.scanEntry (i * g.entrySize) = { s with buffer := buf } := by
      unfold Log.scanEntry
      rw [hread]
      simp
    obtain ⟨buf', hrest⟩ := ih (i + 1) (h.buffer buf)
    exact ⟨buf', by rw [Log.scanFrom, hscan, hrest]⟩

/-- `verifyIndex` on zeros: whatever the head pointer says, it is reset. -/
theorem verifyIndex_zeros (hreg : s.chunk.region = .entries)
    (hzeros : s.media .entries = replicate g.regionLength 0#8) :
    ∃ s1, s.verifyIndex = (s1, true) ∧ s1.chunk = s.chunk ∧ s1.media = s.media
      ∧ s1.indexRecord = s.indexRecord.setLatestOffset 0 0 ∧ s1.latestTimestamp = 0 := by
  obtain ⟨o, ts, hlatest⟩ : ∃ o ts, s.indexRecord.getLatestOffset.getD (s.latestOffset, s.latestTimestamp)
      = (o, ts) := ⟨_, _, rfl⟩
  obtain ⟨buf, hread⟩ := Log.readFromMedia_refused
    (s := { s with latestOffset := o, latestTimestamp := ts }) hreg
    (show CrcChunk.crcOkay P (s.media .entries) o = false by rw [hzeros]; exact crcOkay_zeros _ _) none
  have hvac : Vacant ({ s with latestOffset := 0, latestTimestamp := 0, buffer := buf } : Log g) :=
    ⟨hreg, hzeros, rfl⟩
  obtain ⟨buf', hscan⟩ := hvac.scanFrom g.maxEntries 0
  unfold Log.verifyIndex
  simp only [hlatest]
  rw [hread]
  simp only [Log.scanAllEntries, hscan]
  exact ⟨_, rfl, rfl, rfl, rfl, rfl⟩

/-- **A restart on zeros**, with a head pointer in both mirrors. -/
theorem start_vacant (hshape : Shape s) {offset indexValue : Nat}
    (hzeros : s.media .entries = replicate g.regionLength 0#8)
    (hmirrored : Mirrored P (s.media .indexA) (s.media .indexB)
      (IndexRecord.encode P offset indexValue))
    (hrange : IndexRecord.InRange P (offset, indexValue))
    (hlenA : (s.media .indexA).length = g.indexLength)
    (hlenB : (s.media .indexB).length = g.indexLength) : ∃ s', s.start = some s' ∧ Vacant s' := by
  have hsize := g.index_size
  have hlens : (s.media s.indexRecord.chunk.regionA).length
      = (s.media s.indexRecord.chunk.regionB).length := by
    rw [hshape.regionA, hshape.regionB]
    exact hlenA.trans hlenB.symm
  obtain ⟨c', buf', hread, hwritable, hA, hB⟩ := IndexRecord.readFromMedia_mirrored
    (r := { s.indexRecord with
      chunk := fresh s.indexRecord.chunk, validLatest := false })
    (by simp only [fresh, hshape.regionA, hshape.regionB]; exact hmirrored) hrange
    g.index_buffer (by simp only [fresh, hshape.regionA]; omega)
    (by simp only [fresh, hshape.regionB]; omega) s.buffer
  -- the head pointer does not name an entry: it is reset and written back
  obtain ⟨s1, hverify, hchunk, hmedia, hrecord, hlatest⟩ := verifyIndex_zeros
    (s := { s with
      chunk := s.chunk.start P s.media
      indexRecord := ⟨c', offset, indexValue, true⟩
      buffer := buf'
      entryTimestamp := 0
      latestOffset := 0
      latestTimestamp := 0 }) hshape.region hzeros
  obtain ⟨w, hwrite, hkeep, -⟩ := IndexRecord.Writable.write (r := s1.indexRecord) (m := s1.media)
    (by rw [hrecord, hmedia]; exact hwritable) (by rw [hrecord]; rfl) g.index_buffer [] []
  refine ⟨{ s1 with indexRecord := w.record, buffer := w.buffer, media := w.media, mpIndex := s1.latestTimestamp },
    ?_, ?_, ?_, hlatest⟩
  · unfold Log.start Log.startReads
    rw [IndexRecord.start_eq hlens, Option.bind_some, hread, Option.map_some, hverify, Option.bind_some, hwrite]
    rfl
  · rw [hchunk]
    exact hshape.region
  · show w.media .entries = _
    rw [hkeep .entries, hmedia]
    · exact hzeros
    · rw [hrecord]
      exact hA.trans_ne hshape.index_ne.1 |>.symm
    · rw [hrecord]
      exact hB.trans_ne hshape.index_ne.2 |>.symm

/-! ## §5. Clearing. -/

/-- Without failures the clearing loop reaches the end of the region. -/
theorem clearRegion_ok (fuel : Nat) : ∀ (offset : Nat) (m : Region → List Byte),
    (m .entries).length = g.regionLength → ∃ m', Log.clearRegion g fuel offset m [] = (m', true) := by
  induction fuel with
  | zero => intro offset m _; exact ⟨m, rfl⟩
  | succ fuel ih =>
    intro offset m hlen
    unfold Log.clearRegion
    split
    next hoff =>
      generalize hL : min (g.regionLength - offset) 128 = len
      have hfits : (⟨.entries, offset, replicate len 0#8⟩ : Write Byte Region).Fits m := by
        show offset + (replicate len 0#8).length ≤ (m .entries).length
        rw [length_replicate]
        omega
      have hwrite : write m ⟨.entries, offset, replicate len 0#8⟩ .ok
          = (store m ⟨.entries, offset, replicate len 0#8⟩, true) := by
        simp [write, hfits]
      simp only [headD_nil, hwrite]
      exact ih (offset + len) _ (by rw [length_store]; exact hlen)
    next => exact ⟨m, rfl⟩

/-- What a log without entries shows: its latest index value is 0 and every read,
in any sequence of them, returns false. -/
def ReadsNothing (s : Log g) : Prop :=
  s.latestTimestamp = 0 ∧ ∀ qs : List (Query g), ∀ a ∈ s.answers qs, a = none

theorem Vacant.readsNothing (h : Vacant s) : ReadsNothing s :=
  ⟨h.latest, fun qs => h.answers qs⟩

/-- **CLEARING IS COMPLETE**: on any content of the entry region, `clearAllEntries`
without failed writes returns true and leaves a log that reads nothing; so does
every restart on the media it leaves; and no offset of the region, slot or not, is
accepted by the chunk. -/
theorem clear_is_complete {s : Log g} (hshape : Shape s)
    (hindex : IndexRecord.Writable P s.indexRecord.chunk s.media)
    (hlenA : (s.media .indexA).length = g.indexLength)
    (hlenB : (s.media .indexB).length = g.indexLength) :
    ∃ s', s.clearAllEntries [] [] [] = some (s', true) ∧ ReadsNothing s'
      ∧ (∀ s₁ : Log g, Shape s₁ → s₁.media = s'.media → ∃ s₂, s₁.start = some s₂ ∧ ReadsNothing s₂)
      ∧ ∀ (c : CrcChunk Region) (dst : Payload) (index : Nat) (buf : WorkBuffer P),
          c.region = .entries → (c.loadData P s'.media dst index buf).result = false := by
  obtain ⟨m', hclear⟩ := clearRegion_ok g.regionLength 0 s.media hshape.length
  obtain ⟨hzeros, hother⟩ := clearRegion_zeros hshape.length hclear
  have hwritable := hshape.writable_cleared hindex hother
  obtain ⟨w, hwrite, hmirrored⟩ := IndexRecord.Writable.write_mirrored
    (r := s.indexRecord.setLatestOffset 0 0) hwritable rfl g.index_buffer
  obtain ⟨w', hwrite', hkeep, hlens, -⟩ := IndexRecord.Writable.write
    (r := s.indexRecord.setLatestOffset 0 0) hwritable rfl g.index_buffer [] []
  obtain rfl : w' = w := Option.some.inj (hwrite'.symm.trans hwrite)
  have hentries : w'.media .entries = replicate g.regionLength 0#8 :=
    (hkeep .entries hshape.index_ne.1.symm hshape.index_ne.2.symm).trans hzeros
  have hindexLen : ∀ r, r ≠ .entries → (w'.media r).length = (s.media r).length := by
    intro r hr
    rw [hlens, hother r hr]
  have hrange : IndexRecord.InRange P (0, 0) := by
    have := P.sizeMod_ge
    exact ⟨by show 0 < P.sizeMod; omega, by show 0 < 2 ^ 64; decide⟩
  refine ⟨{ s with
      latestOffset := 0, latestTimestamp := 0, mpIndex := 0
      indexRecord := w'.record, buffer := w'.buffer, media := w'.media }, ?_, ?_, ?_, ?_⟩
  · unfold Log.clearAllEntries
    simp [hclear, hwrite]
  · exact Vacant.readsNothing ⟨hshape.region, hentries, rfl⟩
  · intro s₁ hshape₁ hmedia
    obtain ⟨s₂, hstart, hvac⟩ := start_vacant hshape₁ (by rw [hmedia]; exact hentries)
      (by
        rw [hmedia]
        have h := hmirrored
        rw [show (s.indexRecord.setLatestOffset 0 0).chunk = s.indexRecord.chunk from rfl,
          hshape.regionA, hshape.regionB] at h
        exact h)
      hrange
      (by rw [hmedia]; exact (hindexLen .indexA (by decide)).trans hlenA)
      (by rw [hmedia]; exact (hindexLen .indexB (by decide)).trans hlenB)
    exact ⟨s₂, hstart, hvac.readsNothing⟩
  · intro c dst index buf hreg
    have hcrc : CrcChunk.crcOkay P (w'.media c.region) index = false := by
      rw [hreg, hentries]
      exact crcOkay_zeros _ _
    obtain ⟨buf', hload⟩ := CrcChunk.loadData_reject dst buf hcrc
    rw [hload]

theorem indexA_ne_indexB : Region.indexA ≠ .indexB := by decide

/-- A running log of two slots whose entry region holds something else than zeros. -/
def usedSlots : Log twoSlots :=
  { Log.create twoSlots (fun
      | .entries => replicate twoSlots.regionLength 0x5A#8
      | _ => replicate twoSlots.indexLength 0xFF#8) with
    indexRecord := ⟨⟨.indexA, .indexB, indexA_ne_indexB, 0, some .indexA, 16⟩, 0, 0, true⟩
    latestOffset := twoSlots.entrySize
    latestTimestamp := 7 }

theorem clear_usedSlots : usedSlots.latestTimestamp = 7
    ∧ ∃ s', usedSlots.clearAllEntries [] [] [] = some (s', true) ∧ ReadsNothing s' := by
  obtain ⟨s', hclear, hnothing, -⟩ := clear_is_complete (s := usedSlots) ⟨rfl, rfl, rfl, rfl⟩
    ⟨⟨.indexA, rfl, .inl rfl⟩, by decide, by decide, by decide⟩ rfl rfl
  exact ⟨rfl, s', hclear, hnothing⟩

end ColonyCore.Persistent
