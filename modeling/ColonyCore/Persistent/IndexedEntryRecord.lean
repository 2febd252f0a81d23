/-
  ColonyCore.Persistent.IndexedEntryRecord
  **THE INDEXED LOG: A RING OF ENTRIES AND ITS HEAD POINTER
  (`Cpl/Persistent/IndexedEntryRecord.cpp`).**

  Entries of one fixed length stand in slots of the entry region, each in a CRC
  frame led by its 64-bit index value.  A second record holds the head pointer.
  `addEntry` writes the head pointer FIRST, then the entry; `start` trusts the
  head pointer if its slot carries the index value it names, and scans all slots
  otherwise.

  §1 is the code.  §2 says what one slot holds and §3 what each operation does
  to the slots; the later modules argue about slots and never about bytes.
-/
import ColonyCore.Persistent.CrcChunk
import ColonyCore.Persistent.IndexRecord

namespace ColonyCore.Persistent

open ByteStore LittleEndian Checksum.Crc32EthernetFast

/-! ## §1. The code. -/

/-- The media of an indexed log. -/
inductive Region where
  | entries
  | indexA
  | indexB
  deriving DecidableEq, Repr

/-- What the constructor of an `IndexedEntryRecord` fixes, with its assertion
that one entry fits; the index regions and the work buffer have room for the
index record. -/
structure Geometry (P : Platform) where
  /-- `singleEntrySizeInBytes`. -/
  payloadSize : Nat
  payload_pos : 0 < payloadSize
  regionLength : Nat
  indexLength : Nat
  region_fits : payloadSize + sizeofUint64 + CrcChunk.FRAME_OVERHEAD P ≤ regionLength
  region_size : regionLength < P.sizeMod
  index_fits : MirroredChunk.FRAME_OVERHEAD P + IndexRecord.getPayloadSize P ≤ indexLength
  index_size : indexLength < P.sizeMod
  index_buffer : IndexRecord.getPayloadSize P + CRC_SIZE ≤ P.workBufferSize

namespace Geometry

variable {P : Platform}

variable (g : Geometry P)

/-- `m_entrySize`. -/
def entrySize : Nat := g.payloadSize + sizeofUint64 + CrcChunk.FRAME_OVERHEAD P

/-- `m_maxEntries`. -/
def maxEntries : Nat := g.regionLength / g.entrySize

/-- `m_maxOffset`. -/
def maxOffset : Nat := (g.maxEntries - 1) * g.entrySize

/-- `IndexedEntryRecord::incrementOffset`. -/
def incrementOffset (offsetToIncrement : Nat) : Nat :=
  let offset := P.sizeAdd offsetToIncrement g.entrySize
  if g.maxOffset < offset then 0 else offset

/-- `IndexedEntryRecord::decrementOffset`. -/
def decrementOffset (offsetToDecrement : Nat) : Nat :=
  let newOffset := P.sizeSub offsetToDecrement g.entrySize
  if offsetToDecrement < newOffset then g.maxOffset else newOffset

end Geometry

/-- The data of an entry: `payloadSize` bytes. -/
structure Entry {P : Platform} (g : Geometry P) where
  bytes : List Byte
  size : bytes.length = g.payloadSize

/-- `IndexedEntryReader::EntryMarker_T`. -/
structure EntryMarker where
  indexValue : Nat
  mediaOffset : Nat
  deriving DecidableEq, Repr

/-- An `IndexedEntryRecord` over a `CrcChunk` with its index record over a
`MirroredChunk`, the media and the work buffer they share. -/
structure Log {P : Platform} (g : Geometry P) where
  chunk : CrcChunk Region
  indexRecord : IndexRecord Region
  entryTimestamp : Nat
  latestOffset : Nat
  latestTimestamp : Nat
  /-- The model point that publishes the latest index value. -/
  mpIndex : Nat
  media : Region → List Byte
  buffer : WorkBuffer P

namespace Log

variable {P : Platform} {g : Geometry P}

variable (s : Log g)

/-- `IndexedEntryRecord::getData` / `putData` for the payload handler in use. -/
def toPayload (handler : Option Payload) : Payload where
  getData n :=
    match handler with
    | none => []
    | some src =>
      if n < sizeofUint64 then [] else
      let data := src.getData (n - sizeofUint64)
      if data.length = 0 then [] else leBytes sizeofUint64 s.entryTimestamp ++ data
  getData_le n := by
    cases handler with
    | none => exact Nat.zero_le n
    | some src =>
      have hle := src.getData_le (n - 8)
      simp only
      split
      · exact Nat.zero_le n
      · split
        · exact Nat.zero_le n
        · rw [List.length_append, length_leBytes]
          show 8 + (src.getData (n - 8)).length ≤ n
          have h8 : ¬ n < 8 := by assumption
          omega
  putData bs :=
    if bs.length < sizeofUint64 then false else
    match handler with
    | none => true
    | some dst => dst.putData (bs.drop sizeofUint64)

/-- The outcome of reading one entry; `data` is what the handler was given. -/
structure EntryRead (g : Geometry P) where
  log : Log g
  found : Bool
  data : List Byte

/-- `DataRecord::readFromMedia` on the entry record (`processNoValidData` returns
false): the index value read is left in `m_entryTimestamp`. -/
def readFromMedia (handler : Option Payload) (offset : Nat) : EntryRead g :=
  let l := s.chunk.loadData P s.media (s.toPayload handler) offset s.buffer
  let bytes := l.pushed.getD []
  { log := { s with
      chunk := l.chunk
      buffer := l.buffer
      entryTimestamp :=
        if bytes.length < sizeofUint64 then s.entryTimestamp else ofLeBytes (bytes.take sizeofUint64) }
    found := l.result
    data := bytes.drop sizeofUint64 }

/-- `IndexedEntryRecord::getByOffset`; `none` is its "false". -/
def getByOffset (dst : Payload) (offset : Nat) : Log g × Option (List Byte × EntryMarker) :=
  let r := s.readFromMedia (some dst) offset
  (r.log, if r.found then some (r.data, ⟨r.log.entryTimestamp, offset⟩) else none)

/-- `IndexedEntryRecord::getLatest`. -/
def getLatest (dst : Payload) : Log g × Option (List Byte × EntryMarker) :=
  s.getByOffset dst s.latestOffset

/-- The loop of `getNext` / `getPrevious`: at most `fuel` slots from `offset` on,
the first that is valid and wanted. -/
def search (next : Nat → Nat) (wanted : Nat → Bool) (dst : Payload) :
    Nat → Nat → Log g → Log g × Option (List Byte × EntryMarker)
  | 0, _, s => (s, none)
  | fuel + 1, offset, s =>
    let r := s.getByOffset dst offset
    match r.2 with
    | some (data, marker) =>
      if wanted marker.indexValue then (r.1, some (data, marker))
      else search next wanted dst fuel (next offset) r.1
    | none => search next wanted dst fuel (next offset) r.1

/-- `IndexedEntryRecord::getNext`. -/
def getNext (newerThan : Nat) (beginHereMarker : EntryMarker) (dst : Payload) :
    Log g × Option (List Byte × EntryMarker) :=
  search g.incrementOffset (fun v => decide (newerThan < v)) dst (g.maxEntries - 1)
    (g.incrementOffset beginHereMarker.mediaOffset) s

/-- `IndexedEntryRecord::getPrevious`. -/
def getPrevious (olderThan : Nat) (beginHereMarker : EntryMarker) (dst : Payload) :
    Log g × Option (List Byte × EntryMarker) :=
  search g.decrementOffset (fun v => decide (v < olderThan)) dst (g.maxEntries - 1)
    (g.decrementOffset beginHereMarker.mediaOffset) s

/-- `IndexedEntryRecord::getMaxIndex`. -/
def getMaxIndex (g : Geometry P) : Nat := g.maxEntries - 1

/-- `IndexedEntryRecord::getByBufferIndex`. -/
def getByBufferIndex (bufferIndex : Nat) (dst : Payload) :
    Log g × Option (List Byte × EntryMarker) :=
  if getMaxIndex g < bufferIndex then (s, none) else
  let offset := (bufferIndex + 1) * g.entrySize
  s.getByOffset dst (if g.maxOffset < offset then 0 else offset)

/-- One turn of the loop of `scanAllEntries`. -/
def scanEntry (offset : Nat) : Log g :=
  let r := s.readFromMedia none offset
  if r.found ∧ (s.latestTimestamp < r.log.entryTimestamp ∨ s.latestTimestamp = 0) then
    { r.log with latestTimestamp := r.log.entryTimestamp, latestOffset := offset }
  else r.log

/-- The slots from number `i` on, `fuel` of them. -/
def scanFrom : Nat → Nat → Log g → Log g
  | 0, _, s => s
  | fuel + 1, i, s => scanFrom fuel (i + 1) (s.scanEntry (i * g.entrySize))

/-- `IndexedEntryRecord::scanAllEntries`. -/
def scanAllEntries : Log g :=
  scanFrom g.maxEntries 0 { s with latestOffset := 0, latestTimestamp := 0 }

/-- `IndexedEntryRecord::verifyIndex` up to its last step; true when the index
record has to be rewritten. -/
def verifyIndex : Log g × Bool :=
  let latest := s.indexRecord.getLatestOffset.getD (s.latestOffset, s.latestTimestamp)
  let r := { s with latestOffset := latest.1, latestTimestamp := latest.2 }.readFromMedia none latest.1
  if r.found = false ∨ r.log.entryTimestamp ≠ latest.2 then
    let s' := r.log.scanAllEntries
    ({ s' with indexRecord := s'.indexRecord.setLatestOffset s'.latestOffset s'.latestTimestamp }, true)
  else (r.log, false)

/-- `IndexedEntryRecord::start` up to the first write; `none` is a failed
assertion. -/
def startReads : Option (Log g × Bool) :=
  (s.indexRecord.start s.media).bind fun idx =>
    (idx.readFromMedia P s.media s.buffer).map fun r =>
      verifyIndex { s with
        chunk := s.chunk.start P s.media
        indexRecord := r.1
        buffer := r.2
        entryTimestamp := 0
        latestOffset := 0
        latestTimestamp := 0 }

/-- The region writes of `start`. -/
def startWrites : List (Write Byte Region) :=
  match s.startReads with
  | some (s', true) => s'.indexRecord.writes P
  | _ => []

/-- `IndexedEntryRecord::start`. -/
def start : Option (Log g) :=
  s.startReads.bind fun r =>
    if r.2 then
      (r.1.indexRecord.writeToMedia P r.1.media [] []).map fun w =>
        { r.1 with
          indexRecord := w.record
          buffer := w.buffer
          media := w.media
          mpIndex := r.1.latestTimestamp }
    else some { r.1 with mpIndex := r.1.latestTimestamp }

/-- `m_latestTimestamp + 1` in 64 bits. -/
def nextTimestamp : Nat := (s.latestTimestamp + 1) % 2 ^ 64

/-- `addEntry` up to its first write: the new head pointer is set in the index
record, not yet in the log. -/
def stageEntry : Log g :=
  { s with
    entryTimestamp := s.nextTimestamp
    indexRecord := s.indexRecord.setLatestOffset (g.incrementOffset s.latestOffset) s.nextTimestamp }

/-- The bytes `addEntry` stores in the slot. -/
def entryData (src : Payload) : List Byte :=
  (s.stageEntry.toPayload (some src)).getData s.chunk.dataLen

/-- The region writes of `addEntry`: the head pointer, then the entry. -/
def addWrites (src : Payload) : List (Write Byte Region) :=
  s.stageEntry.indexRecord.writes P
    ++ pieceWrites s.chunk.region (g.incrementOffset s.latestOffset)
        (framePieces P false [] (s.entryData src))

/-- Which region writes of an `addEntry` fail: those of the two passes of the
index record, and those of the entry. -/
structure AddFates where
  index1 : List Fate
  index2 : List Fate
  entry : List Fate

/-- No write fails. -/
def AddFates.none : AddFates := ⟨[], [], []⟩

/-- `IndexedEntryRecord::addEntry`. -/
def addEntry (src : Payload) (fates : AddFates) : Option (Log g × Bool) :=
  let s1 := s.stageEntry
  (s1.indexRecord.writeToMedia P s1.media fates.index1 fates.index2).bind fun w =>
    let s2 : Log g := { s1 with indexRecord := w.record, buffer := w.buffer, media := w.media }
    if w.result then
      let s3 : Log g := { s2 with
        latestOffset := g.incrementOffset s.latestOffset
        latestTimestamp := s1.entryTimestamp
        mpIndex := s1.entryTimestamp }
      (s3.chunk.updateData P s3.media (s3.toPayload (some src)) s3.latestOffset false fates.entry).map
        fun u => ({ s3 with chunk := u.chunk, buffer := u.buffer, media := u.media }, u.result)
    else some (s2, false)

/-- The loop of `clearAllEntries`: zeros, 128 bytes at a time, up to the first
failure. -/
def clearRegion (g : Geometry P) : Nat → Nat → (Region → List Byte) → List Fate →
    (Region → List Byte) × Bool
  | 0, _, m, _ => (m, true)
  | fuel + 1, offset, m, fates =>
    if offset < g.regionLength then
      let len := min (g.regionLength - offset) 128
      let w := write m ⟨.entries, offset, List.replicate len 0#8⟩ (fates.headD .ok)
      if w.2 then clearRegion g fuel (offset + len) w.1 fates.tail else (w.1, false)
    else (m, true)

/-- `IndexedEntryRecord::clearAllEntries`. -/
def clearAllEntries (fates index1 index2 : List Fate) : Option (Log g × Bool) :=
  let cleared := clearRegion g g.regionLength 0 s.media fates
  let s1 : Log g := { s with media := cleared.1, latestOffset := 0, latestTimestamp := 0 }
  let s2 := if cleared.2 then s1 else s1.scanAllEntries
  let idx := s2.indexRecord.setLatestOffset s2.latestOffset s2.latestTimestamp
  (idx.writeToMedia P s2.media index1 index2).map fun w =>
    ({ s2 with
        indexRecord := w.record
        buffer := w.buffer
        media := w.media
        mpIndex := s2.latestTimestamp }, cleared.2)

end Log

/-! ## §2. Slots. -/

namespace Geometry

variable {P : Platform} (g : Geometry P)

/-- The data of an entry frame: index value and payload. -/
def dataSize : Nat := g.payloadSize + 8

theorem dataSize_pos : 0 < g.dataSize := by
  unfold dataSize
  omega

theorem entrySize_eq : g.entrySize = g.dataSize + (P.sizeofSizeT + 4) := rfl

theorem entrySize_pos : 0 < g.entrySize := by
  have h := g.entrySize_eq
  omega

theorem maxEntries_pos : 0 < g.maxEntries :=
  Nat.div_pos g.region_fits g.entrySize_pos

variable {j : Nat}

/-- A slot lies inside the region. -/
theorem slot_le (hj : j < g.maxEntries) : j * g.entrySize + g.entrySize ≤ g.regionLength := by
  calc j * g.entrySize + g.entrySize = (j + 1) * g.entrySize := (Nat.succ_mul j _).symm
    _ ≤ g.maxEntries * g.entrySize := Nat.mul_le_mul_right _ hj
    _ ≤ g.regionLength := Nat.div_mul_le_self _ _

/-- Different slots do not overlap. -/
theorem slot_disjoint {i : Nat} (hij : i ≠ j) :
    i * g.entrySize + g.entrySize ≤ j * g.entrySize
      ∨ j * g.entrySize + g.entrySize ≤ i * g.entrySize := by
  rcases Nat.lt_or_gt_of_ne hij with h | h
  · left
    rw [← Nat.succ_mul]
    exact Nat.mul_le_mul_right _ h
  · right
    rw [← Nat.succ_mul]
    exact Nat.mul_le_mul_right _ h

/-- The slot after `j` in the ring. -/
def nextSlot (j : Nat) : Nat := if j + 1 < g.maxEntries then j + 1 else 0

/-- The slot before `j` in the ring. -/
def prevSlot (j : Nat) : Nat := if j = 0 then g.maxEntries - 1 else j - 1

theorem nextSlot_lt (j : Nat) : g.nextSlot j < g.maxEntries := by
  have hpos := g.maxEntries_pos
  unfold nextSlot
  split
  · assumption
  · exact hpos

theorem prevSlot_lt (hj : j < g.maxEntries) : g.prevSlot j < g.maxEntries := by
  unfold prevSlot
  split
  · omega
  · omega

theorem incrementOffset_slot (hj : j < g.maxEntries) :
    g.incrementOffset (j * g.entrySize) = g.nextSlot j * g.entrySize := by
  have hle := g.slot_le hj
  have hlt := g.region_size
  have hadd : P.sizeAdd (j * g.entrySize) g.entrySize = (j + 1) * g.entrySize := by
    rw [Platform.sizeAdd_of_lt (by omega), Nat.succ_mul]
  unfold incrementOffset nextSlot
  simp only [hadd]
  by_cases hnext : j + 1 < g.maxEntries
  · rw [if_pos hnext, if_neg]
    exact Nat.not_lt_of_le (Nat.mul_le_mul_right _ (by omega))
  · rw [if_neg hnext, if_pos, Nat.zero_mul]
    exact Nat.mul_lt_mul_of_pos_right (by omega) g.entrySize_pos

theorem decrementOffset_slot (hj : j < g.maxEntries) :
    g.decrementOffset (j * g.entrySize) = g.prevSlot j * g.entrySize := by
  have hle := g.slot_le hj
  have hlt := g.region_size
  have hpos := g.entrySize_pos
  unfold decrementOffset prevSlot
  by_cases h0 : j = 0
  · subst h0
    have hsub := Platform.lt_sizeSub (P := P) (show 0 * g.entrySize < g.entrySize by omega) (by omega)
    simp only [if_pos hsub]
    rfl
  · have hge : g.entrySize ≤ j * g.entrySize := Nat.le_mul_of_pos_left _ (by omega)
    have hsub : P.sizeSub (j * g.entrySize) g.entrySize = (j - 1) * g.entrySize := by
      rw [Platform.sizeSub_of_le hge (by omega), Nat.sub_mul, Nat.one_mul]
    simp only [hsub, if_neg h0]
    rw [if_neg (Nat.not_lt_of_le (Nat.mul_le_mul_right _ (Nat.sub_le j 1)))]

end Geometry

end ColonyCore.Persistent
