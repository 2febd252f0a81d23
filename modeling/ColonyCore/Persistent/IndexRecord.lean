/-
  ColonyCore.Persistent.IndexRecord
  **THE HEAD POINTER OF THE INDEXED LOG (`Cpl/Persistent/IndexRecord.cpp`).**

  A record of fixed length, a `size_t` offset and a 64-bit index value, kept in
  a mirrored chunk.  Read through `DataRecord::readFromMedia` it is never
  invalid: without valid data it resets itself to (0, 0).

    • `readFromMedia_cell`  — reading the pair a cell holds,
    • `writeToMedia_ready`  — writing a pair,
    • `writes_cut`          — a cut write leaves the old pair or the new one,
    • `Writable.write`      — a write whose region writes may fail.
-/
import ColonyCore.Persistent.MirroredRecovery

namespace ColonyCore.Persistent

open ByteStore LittleEndian

/-- The members of an `IndexRecord`. -/
structure IndexRecord (ρ : Type) where
  chunk : MirroredChunk ρ
  latest : Nat
  latestIndex : Nat
  validLatest : Bool

namespace IndexRecord

variable {P : Platform} {ρ : Type}

/-! ## §1. The code. -/

/-- `IndexRecord::getPayloadSize`. -/
def getPayloadSize (P : Platform) : Nat := P.sizeofSizeT + sizeofUint64

/-- The bytes of an (offset, index value) pair. -/
def encode (P : Platform) (offset indexValue : Nat) : List Byte :=
  leBytes P.sizeofSizeT offset ++ leBytes sizeofUint64 indexValue

theorem length_encode (offset indexValue : Nat) :
    (encode P offset indexValue).length = getPayloadSize P := by
  rw [encode, List.length_append, length_leBytes, length_leBytes, getPayloadSize]

variable (r : IndexRecord ρ)

/-- `IndexRecord::setLatestOffset`. -/
def setLatestOffset (offset indexValue : Nat) : IndexRecord ρ :=
  { r with validLatest := true, latest := offset, latestIndex := indexValue }

/-- `IndexRecord::getLatestOffset`; `none` is its "false". -/
def getLatestOffset : Option (Nat × Nat) :=
  if r.validLatest then some (r.latest, r.latestIndex) else none

/-- `IndexRecord::processNoValidData`. -/
def processNoValidData : IndexRecord ρ :=
  { r with latest := 0, latestIndex := 0, validLatest := true }

/-- `IndexRecord::getData` and the verdict of `IndexRecord::putData`. -/
def toPayload (P : Platform) (r : IndexRecord ρ) : Payload where
  getData n :=
    if r.validLatest = false ∨ n < getPayloadSize P then [] else encode P r.latest r.latestIndex
  getData_le n := by
    split
    · exact Nat.zero_le n
    next h =>
      rw [length_encode]
      omega
  putData bs := decide (getPayloadSize P ≤ bs.length)

/-- The effect of `IndexRecord::putData` on the record. -/
def putData (P : Platform) (r : IndexRecord ρ) (src : List Byte) : IndexRecord ρ :=
  if getPayloadSize P ≤ src.length then
    { r with
      latest := ofLeBytes (src.take P.sizeofSizeT)
      latestIndex := ofLeBytes ((src.drop P.sizeofSizeT).take sizeofUint64)
      validLatest := true }
  else r

/-- `IndexRecord::start`: the chunk is started, the pair is not valid yet. -/
def start (m : ρ → List Byte) : Option (IndexRecord ρ) :=
  (r.chunk.start m).map fun c => { r with chunk := c, validLatest := false }

/-- `DataRecord::readFromMedia` on an index record; it always returns true. -/
def readFromMedia (P : Platform) (r : IndexRecord ρ) (m : ρ → List Byte) (buf : WorkBuffer P) :
    Option (IndexRecord ρ × WorkBuffer P) :=
  (r.chunk.loadData P m (r.toPayload P) 0 buf).map fun l =>
    let r' : IndexRecord ρ := { r with chunk := l.chunk }
    let r'' := match l.pushed with
      | some bs => r'.putData P bs
      | none => r'
    (if l.result then r'' else r''.processNoValidData, l.buffer)

variable {r} in
theorem start_eq {m : ρ → List Byte}
    (hlens : (m r.chunk.regionA).length = (m r.chunk.regionB).length) :
    r.start m = some { r with chunk := MirroredChunk.fresh r.chunk, validLatest := false } := by
  unfold start MirroredChunk.start
  rw [if_pos hlens]
  rfl

section Write

variable [DecidableEq ρ]

/-- The region writes of `writeToMedia`. -/
def writes (P : Platform) (r : IndexRecord ρ) : List (Write Byte ρ) :=
  MirroredChunk.issuedWrites P r.chunk (r.toPayload P) 0

/-- What `DataRecord::writeToMedia` on an index record leaves behind. -/
structure Written (P : Platform) (ρ : Type) where
  record : IndexRecord ρ
  buffer : WorkBuffer P
  media : ρ → List Byte
  result : Bool

/-- `DataRecord::writeToMedia` on an index record. -/
def writeToMedia (P : Platform) (r : IndexRecord ρ) (m : ρ → List Byte) (fates1 fates2 : List Fate) :
    Option (Written P ρ) :=
  (r.chunk.updateData P m (r.toPayload P) 0 false fates1 fates2).map fun u =>
    ⟨{ r with chunk := u.chunk }, u.buffer, u.media, u.result⟩

end Write

/-! ## §2. Reading and writing the cell. -/

/-- A pair whose members fit their types. -/
def InRange (P : Platform) (p : Nat × Nat) : Prop := p.1 < P.sizeMod ∧ p.2 < 2 ^ 64

/-- The pair survives its bytes. -/
theorem putData_encode {offset indexValue : Nat}
    (h : InRange P (offset, indexValue)) :
    r.putData P (encode P offset indexValue)
      = { r with latest := offset, latestIndex := indexValue, validLatest := true } := by
  have hl : (leBytes P.sizeofSizeT offset).length = P.sizeofSizeT := length_leBytes _ _
  have h1 : (encode P offset indexValue).take P.sizeofSizeT = leBytes P.sizeofSizeT offset := by
    unfold encode
    rw [List.take_append_of_le_length (by omega), List.take_of_length_le (by omega)]
  have h2 : ((encode P offset indexValue).drop P.sizeofSizeT).take sizeofUint64
      = leBytes sizeofUint64 indexValue := by
    unfold encode
    rw [List.drop_append_of_le_length (by omega), List.drop_eq_nil_of_le (by omega), List.nil_append,
        List.take_of_length_le (by rw [length_leBytes])]
  have hv : ofLeBytes (leBytes sizeofUint64 indexValue) = indexValue :=
    ofLeBytes_leBytes_of_lt _ _ (Nat.lt_of_lt_of_eq h.2 (by norm_num))
  unfold putData
  rw [if_pos (Nat.le_of_eq (length_encode offset indexValue).symm), h1, h2, hv,
      ofLeBytes_leBytes_of_lt _ _ h.1]

/-- The cell of an index record, as pairs. -/
def Cell (P : Platform) (c : MirroredChunk ρ) (m : ρ → List Byte) (t : Nat) (x : Option (Nat × Nat)) :
    Prop :=
  (∀ p, x = some p → InRange P p)
    ∧ MirroredChunk.Cell P (getPayloadSize P) c m t (x.map fun p => encode P p.1 p.2)

/-- A loaded index record: its chunk is ready on the pair `x`. -/
def Ready (P : Platform) (c : MirroredChunk ρ) (m : ρ → List Byte) (t : Nat) (x : Option (Nat × Nat)) :
    Prop :=
  (∀ p, x = some p → InRange P p)
    ∧ MirroredChunk.Ready P (getPayloadSize P) c m t (x.map fun p => encode P p.1 p.2)

variable {c : MirroredChunk ρ} {m : ρ → List Byte} {t : Nat} {x : Option (Nat × Nat)}

theorem Ready.cell (h : Ready P c m t x) : Cell P c m t x :=
  ⟨h.1, MirroredChunk.Ready.cell h.2⟩

/-- **Reading the head pointer**: the pair the cell holds, (0, 0) when it holds
none. -/
theorem readFromMedia_cell {r : IndexRecord ρ} (h : Cell P r.chunk m t x)
    (hfit : getPayloadSize P + 4 ≤ P.workBufferSize) (buf : WorkBuffer P) :
    ∃ c' buf' t', readFromMedia P r m buf
        = some (⟨c', (x.getD (0, 0)).1, (x.getD (0, 0)).2, true⟩, buf')
      ∧ Ready P c' m t' x ∧ t' ≤ t
      ∧ c'.regionA = r.chunk.regionA ∧ c'.regionB = r.chunk.regionB := by
  obtain ⟨hrange, hcell⟩ := h
  cases x with
  | none =>
    obtain ⟨c', buf', hload, hready, hA, hB⟩ :=
      MirroredChunk.loadData_cell_none hcell hfit (r.toPayload P) buf
    refine ⟨c', buf', 0, ?_, ⟨hrange, hready⟩, Nat.zero_le t, hA, hB⟩
    unfold readFromMedia
    rw [hload]
    rfl
  | some p =>
    obtain ⟨c', buf', t', hload, hready, ht', hA, hB⟩ :=
      MirroredChunk.loadData_cell_some hcell hfit (r.toPayload P) buf
    refine ⟨c', buf', t', ?_, ⟨hrange, hready⟩, ht', hA, hB⟩
    have hput : (r.toPayload P).putData (encode P p.1 p.2) = true :=
      decide_eq_true (Nat.le_of_eq (length_encode _ _).symm)
    unfold readFromMedia
    rw [hload]
    simp only [Option.map_some, hput, putData_encode _ (hrange p rfl)]
    rfl

theorem toPayload_getData {r : IndexRecord ρ} (hvalid : r.validLatest = true) {n : Nat}
    (hn : getPayloadSize P ≤ n) : (r.toPayload P).getData n = encode P r.latest r.latestIndex := by
  show (if r.validLatest = false ∨ n < getPayloadSize P then [] else _) = _
  rw [if_neg (by rw [hvalid]; simp; omega)]

section Write

variable [DecidableEq ρ]

variable {r : IndexRecord ρ} {t : Nat}

variable (h : Ready P r.chunk m t x) (hvalid : r.validLatest = true)

include h hvalid

/-- **Writing the head pointer.** -/
theorem writeToMedia_ready (hrange : InRange P (r.latest, r.latestIndex))
    (hfit : getPayloadSize P + 4 ≤ P.workBufferSize) (h64 : t + 2 < 2 ^ 64) :
    ∃ c' buf', writeToMedia P r m [] []
        = some ⟨{ r with chunk := c' }, buf', storeAll m (r.writes P), true⟩
      ∧ Ready P c' (storeAll m (r.writes P)) (t + 2) (some (r.latest, r.latestIndex))
      ∧ c'.regionA = r.chunk.regionA ∧ c'.regionB = r.chunk.regionB
      ∧ c'.currentRegion = r.chunk.currentRegion := by
  have hpos : 0 < getPayloadSize P := by
    unfold getPayloadSize sizeofUint64
    omega
  obtain ⟨c', buf', heq, hready, hA, hB, hC⟩ := MirroredChunk.Ready.stores h.2 hpos hfit
    (toPayload_getData hvalid h.2.offers) (length_encode _ _) h64
  refine ⟨c', buf', ?_, ⟨?_, hready⟩, hA, hB, hC⟩
  · unfold writeToMedia
    rw [heq]
    rfl
  · intro p hp
    cases hp
    exact hrange

theorem writes_fit (h64 : t + 2 < 2 ^ 64) : ∀ w ∈ r.writes P, w.Fits m :=
  MirroredChunk.Ready.writes_fit h.2 (toPayload_getData hvalid h.2.offers) (length_encode _ _)
    (by unfold getPayloadSize sizeofUint64; omega) h64

/-- **A cut write of the head pointer** leaves the old pair or the new one. -/
theorem writes_cut (hrange : InRange P (r.latest, r.latestIndex))
    (hfit : getPayloadSize P + 4 ≤ P.workBufferSize) (h64 : t + 2 < 2 ^ 64) (k : Nat)
    (htorn : MirroredChunk.TornFramesFail P r.chunk m (storeAll m (r.writes P))
      (storeCut m (r.writes P) k))
    (hmix : MirroredChunk.MixFree P (getPayloadSize P) r.chunk m (storeAll m (r.writes P))
      (storeCut m (r.writes P) k)) :
    ∃ x', (x' = x ∨ x' = some (r.latest, r.latestIndex))
      ∧ Cell P r.chunk (storeCut m (r.writes P) k) (t + 2) x' := by
  have hpos : 0 < getPayloadSize P := by
    unfold getPayloadSize sizeofUint64
    omega
  obtain ⟨bs, hbs, hcell⟩ := MirroredChunk.Ready.cut h.2 hpos
    (toPayload_getData hvalid h.2.offers) (length_encode _ _) hfit h64 k htorn hmix
  rcases hbs with rfl | rfl
  · exact ⟨x, Or.inl rfl, h.1, hcell⟩
  · refine ⟨some (r.latest, r.latestIndex), Or.inr rfl, ?_, hcell⟩
    intro p hp
    cases hp
    exact hrange

end Write

/-! ## §3. Writes that may fail. -/

/-- A record that has been loaded from regions with room for it.  Nothing is asked
of what the regions hold, so failed writes and wrapped ids keep it writable. -/
structure Writable (P : Platform) (c : MirroredChunk ρ) (m : ρ → List Byte) : Prop where
  current : ∃ q, c.currentRegion = some q ∧ (q = c.regionA ∨ q = c.regionB)
  offers : getPayloadSize P ≤ c.dataLen
  roomA : MirroredChunk.FRAME_OVERHEAD P + getPayloadSize P ≤ (m c.regionA).length
  roomB : MirroredChunk.FRAME_OVERHEAD P + getPayloadSize P ≤ (m c.regionB).length

theorem Ready.writable (h : Ready P c m t x) : Writable P c m := by
  obtain ⟨a, b, hm, -⟩ := h.2.mirrors
  exact ⟨h.2.current, h.2.offers, hm.room, by rw [← hm.lengths]; exact hm.room⟩

theorem Writable.congr {m' : ρ → List Byte} (h : Writable P c m)
    (hA : m' c.regionA = m c.regionA) (hB : m' c.regionB = m c.regionB) : Writable P c m' :=
  ⟨h.current, h.offers, by rw [hA]; exact h.roomA, by rw [hB]; exact h.roomB⟩

section FallibleWrite

variable [DecidableEq ρ]

/-- **Writing the head pointer, whatever becomes of the region writes**: only the
two mirrors change, they keep their lengths, and the record stays writable.  The
result is that of the four writes of the SECOND pass. -/
theorem Writable.write {r : IndexRecord ρ} {m : ρ → List Byte} (h : Writable P r.chunk m)
    (hvalid : r.validLatest = true) (hfit : getPayloadSize P + 4 ≤ P.workBufferSize)
    (fates1 fates2 : List Fate) :
    ∃ w, writeToMedia P r m fates1 fates2 = some w
      ∧ (∀ q, q ≠ r.chunk.regionA → q ≠ r.chunk.regionB → w.media q = m q)
      ∧ (∀ q, (w.media q).length = (m q).length)
      ∧ w.record.chunk.regionA = r.chunk.regionA ∧ w.record.chunk.regionB = r.chunk.regionB
      ∧ Writable P w.record.chunk w.media
      ∧ w.result = (fates2.take 4).all Fate.isOk := by
  obtain ⟨q, hq, hAB⟩ := h.current
  have hlen := length_encode (P := P) r.latest r.latestIndex
  obtain ⟨w1, w2, hw1, hw2, hupd⟩ := MirroredChunk.updateData_eq (P := P) m 0 hq
    (toPayload_getData hvalid h.offers) (by rw [hlen]; unfold getPayloadSize sizeofUint64; omega)
    (by omega) fates1 fates2
  -- one pass writes to one of the mirrors and keeps every length
  have hpass : ∀ (m' : ρ → List Byte) (q' : ρ) (id : Nat) (bs : List Byte) (fs : List Fate) (q'' : ρ),
      q'' ≠ r.chunk.regionA → q'' ≠ r.chunk.regionB →
      (writeEach m' (MirroredChunk.mirrorWrites P false (r.chunk.otherRegion q') id bs 0) fs).1 q''
        = m' q'' := by
    intro m' q' id bs fs q'' hA hB
    refine writeEach_other _ _ _ _ ?_
    intro w hw
    rw [pieceWrites_region _ _ _ w hw]
    rcases r.chunk.otherRegion_eq_or q' with heq | heq
    · rw [heq]
      exact Ne.symm hA
    · rw [heq]
      exact Ne.symm hB
  have hlens : ∀ q', (w2.1 q').length = (m q').length := by
    intro q'
    rw [hw2, length_writeEach, hw1, length_writeEach]
  have hwrite : writeToMedia P r m fates1 fates2
      = some ⟨{ r with chunk := { r.chunk with
          dataLen := (encode P r.latest r.latestIndex).length
          currentRegion := some (r.chunk.otherRegion (r.chunk.otherRegion q))
          transId := MirroredChunk.nextTransId (MirroredChunk.nextTransId r.chunk.transId) } },
        (WorkBuffer.zero P).fill (encode P r.latest r.latestIndex), w2.1, w2.2.all id⟩ := by
    unfold writeToMedia
    rw [hupd]
    rfl
  refine ⟨_, hwrite, ?_, hlens, rfl, rfl, ⟨?_, ?_, ?_, ?_⟩, ?_⟩
  · intro q' hA hB
    show w2.1 q' = m q'
    rw [hw2, hpass _ _ _ _ _ _ hA hB, hw1, hpass _ _ _ _ _ _ hA hB]
  · exact ⟨q, congrArg some (MirroredChunk.otherRegion_ne hAB).1, hAB⟩
  · exact Nat.le_of_eq hlen.symm
  · exact Nat.le_trans h.roomA (Nat.le_of_eq (hlens _).symm)
  · exact Nat.le_trans h.roomB (Nat.le_of_eq (hlens _).symm)
  · have hfits := MirroredChunk.mirrorWrites_fits w1.1
      (r.chunk.otherRegion (r.chunk.otherRegion q)) false
      (MirroredChunk.nextTransId (MirroredChunk.nextTransId r.chunk.transId))
      (encode P r.latest r.latestIndex) 0 (by
        rw [MirroredChunk.length_frameOf, hlen, hw1, length_writeEach, Nat.zero_add]
        exact MirroredChunk.le_length_otherRegion h.roomA h.roomB _)
    rw [hw2, writeEach_results _ _ _ hfits]
    rfl

end FallibleWrite

end IndexRecord

end ColonyCore.Persistent
