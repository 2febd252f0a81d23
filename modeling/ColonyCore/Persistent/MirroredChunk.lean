/-
  ColonyCore.Persistent.MirroredChunk
  **A RECORD STORED TWICE (`Cpl/Persistent/MirroredChunk.cpp`).**

  Two regions of equal length each hold a frame led by a transaction id.  An
  update writes the other region first, then the current one, each with the
  next id; a load takes the region with the greater id.

  Both regions are read into the ONE shared work buffer, A before B, and the
  record is handed what the buffer holds at the end.  `loadData_eq` says
  exactly which bytes these are; every result about recovery is read off it.

    • `getTransactionId_eq` — a region read, as a function of the region alone,
    • `loadData_eq`         — the load, as a function of the two region reads,
    • `updateData_eq`       — the update, as two lists of writes.
-/
import ColonyCore.Persistent.Frame

namespace ColonyCore.Persistent

open ByteStore LittleEndian Checksum.Crc32EthernetFast List

/-- The members of a `MirroredChunk`; the two regions are different objects. -/
structure MirroredChunk (ρ : Type) where
  regionA : ρ
  regionB : ρ
  distinct : regionA ≠ regionB
  transId : Nat
  currentRegion : Option ρ
  dataLen : Nat

namespace MirroredChunk

variable {P : Platform} {ρ : Type}

/-! ## §1. The code. -/

/-- `FRAME_OVERHEAD` of `MirroredChunk.cpp`. -/
def FRAME_OVERHEAD (P : Platform) : Nat := sizeofUint64 + P.sizeofSizeT + CRC_SIZE

theorem FRAME_OVERHEAD_eq (P : Platform) : FRAME_OVERHEAD P = 8 + P.sizeofSizeT + 4 := rfl

/-- `MirroredChunk::getMetadataLength`. -/
def getMetadataLength (P : Platform) : Nat := FRAME_OVERHEAD P

variable (c : MirroredChunk ρ)

/-- `MirroredChunk::start`; `none` is its failed assertion. -/
def start (m : ρ → List Byte) : Option (MirroredChunk ρ) :=
  if (m c.regionA).length = (m c.regionB).length then
    some { c with transId := 0, currentRegion := none, dataLen := 0 }
  else none

/-- What `getTransactionId` returns (`transId` is 0 for a bad CRC) and leaves in
the work buffer. -/
structure RegionRead (P : Platform) where
  transId : Nat
  dataLen : Nat
  buffer : WorkBuffer P

/-- `MirroredChunk::getTransactionId`, on a region with the given reads. -/
def getTransactionId (P : Platform) (rd : Nat → Nat → List Byte) (index : Nat)
    (buf : WorkBuffer P) : RegionRead P :=
  let idBytes := rd index sizeofUint64
  if idBytes.length = sizeofUint64 then
    let f := readFrame P rd (index + sizeofUint64) (accumulate reset idBytes) buf
    ⟨if f.okay then ofLeBytes idBytes else 0, f.dataLen, f.buffer⟩
  else ⟨0, 0, buf⟩

/-- `pushToRecord` on a chunk whose `m_dataLen` has just been set, and the
assertion that closes `loadData`. -/
def pushToRecord (m : ρ → List Byte) (region : ρ) (dst : Payload)
    (buf : WorkBuffer P) : Option (Loaded P (MirroredChunk ρ)) :=
  let data := buf.bytes.take c.dataLen
  if c.dataLen ≤ (m region).length then some ⟨c, buf, some data, dst.putData data⟩ else none

/-- `MirroredChunk::loadData` on regions with the given reads; `none` is its failed assertion. -/
def loadDataFrom (P : Platform) (c : MirroredChunk ρ) (m : ρ → List Byte)
    (rdA rdB : Nat → Nat → List Byte) (dst : Payload) (index : Nat) (buf : WorkBuffer P) :
    Option (Loaded P (MirroredChunk ρ)) :=
  let a := getTransactionId P rdA index buf
  let b := getTransactionId P rdB index a.buffer
  if a.transId = 0 ∧ b.transId = 0 then
    let dataLen := P.sizeSub (m c.regionA).length (FRAME_OVERHEAD P)
    if dataLen ≤ (m c.regionA).length then
      some ⟨{ c with currentRegion := some c.regionA, transId := 0, dataLen := dataLen },
        b.buffer, none, false⟩
    else none
  else if b.transId < a.transId then
    pushToRecord { c with currentRegion := some c.regionA, transId := a.transId, dataLen := a.dataLen }
      m c.regionA dst b.buffer
  else
    pushToRecord { c with currentRegion := some c.regionB, transId := b.transId, dataLen := b.dataLen }
      m c.regionB dst b.buffer

/-- `MirroredChunk::loadData`. -/
def loadData (P : Platform) (c : MirroredChunk ρ) (m : ρ → List Byte) (dst : Payload) (index : Nat)
    (buf : WorkBuffer P) : Option (Loaded P (MirroredChunk ρ)) :=
  c.loadDataFrom P m (read m c.regionA) (read m c.regionB) dst index buf

/-- The region an update selects next. -/
def otherRegion [DecidableEq ρ] (current : ρ) : ρ :=
  if current = c.regionA then c.regionB else c.regionA

/-- `m_transId++`. -/
def nextTransId (transId : Nat) : Nat := (transId + 1) % 2 ^ 64

/-- Also where the counter wraps, the next id is another one. -/
theorem nextTransId_ne (transId : Nat) : nextTransId transId ≠ transId := by
  unfold nextTransId
  omega

/-- The frame stored for `data` under a transaction id. -/
abbrev frameOf (P : Platform) (invalidate : Bool) (transId : Nat) (data : List Byte) : List Byte :=
  frame P invalidate [leBytes sizeofUint64 transId] data

@[simp] theorem length_frameOf (inv : Bool) (id : Nat) (data : List Byte) :
    (frameOf P inv id data).length = FRAME_OVERHEAD P + data.length := by
  rw [length_frame, FRAME_OVERHEAD_eq]
  simp only [flatten_cons, flatten_nil, append_nil, length_leBytes, sizeofUint64]
  omega

/-- The four writes of one mirror. -/
def mirrorWrites (P : Platform) (invalidate : Bool) (region : ρ) (transId : Nat) (data : List Byte)
    (index : Nat) : List (Write Byte ρ) :=
  pieceWrites region index (framePieces P invalidate [leBytes sizeofUint64 transId] data)

section Update

variable [DecidableEq ρ]

/-- The region writes an update issues, in order: the other region, then the
current one. -/
def updateWrites (P : Platform) (c : MirroredChunk ρ) (current : ρ) (invalidate : Bool)
    (data : List Byte) (index : Nat) : List (Write Byte ρ) :=
  let first := c.otherRegion current
  let id1 := nextTransId c.transId
  mirrorWrites P invalidate first id1 data index
    ++ mirrorWrites P invalidate (c.otherRegion first) (nextTransId id1) data index

/-- The writes of a whole `updateData` call: none when the chunk was never
loaded or the record refuses to write. -/
def issuedWrites (P : Platform) (c : MirroredChunk ρ) (src : Payload) (index : Nat) :
    List (Write Byte ρ) :=
  match c.currentRegion with
  | none => []
  | some current =>
    let data := src.getData c.dataLen
    if data.length = 0 then [] else updateWrites P c current false data index

/-- `MirroredChunk::updateData`.  `fates1` and `fates2` say which of the region
writes of the two passes fail; the result is that of the SECOND pass, which
assigns `result` afresh.  `none` is a failed assertion, or a record that
overran the work buffer. -/
def updateData (P : Platform) (c : MirroredChunk ρ) (m : ρ → List Byte) (src : Payload)
    (index : Nat) (invalidate : Bool) (fates1 fates2 : List Fate) :
    Option (Updated P (MirroredChunk ρ) ρ) :=
  match c.currentRegion with
  | none => none
  | some current =>
    let data := src.getData c.dataLen
    if P.workBufferSize < data.length then none else
    if data.length = 0 then some ⟨c, WorkBuffer.zero P, m, false⟩ else
    let data' := if invalidate then replicate data.length 0#8 else data
    let first := c.otherRegion current
    let id1 := nextTransId c.transId
    let w1 := writeEach m (mirrorWrites P invalidate first id1 data' index) fates1
    let second := c.otherRegion first
    let id2 := nextTransId id1
    let w2 := writeEach w1.1 (mirrorWrites P invalidate second id2 data' index) fates2
    some ⟨{ c with dataLen := data.length, currentRegion := some second, transId := id2 },
      (WorkBuffer.zero P).fill data', w2.1, w2.2.all id⟩

end Update

/-! ## §2. A region read, as a function of the region's bytes. -/

/-- What a region holds at `index`: the transaction id it is accepted with (0
when refused), its length field, and the bytes a read moves to the work buffer. -/
structure Peek where
  transId : Nat
  dataLen : Nat
  got : List Byte
  deriving DecidableEq

/-- The region read without the buffer. -/
def peek (P : Platform) (s : List Byte) (index : Nat) : Peek :=
  if index + 8 ≤ s.length then
    if index + 8 + P.sizeofSizeT ≤ s.length then
      let n := ofLeBytes (slice s (index + 8) P.sizeofSizeT)
      if n + 4 < P.sizeMod ∧ n + 4 ≤ P.workBufferSize then
        if index + 8 + P.sizeofSizeT + n + 4 ≤ s.length then
          ⟨if isOkay (accumulate reset (slice s index (8 + P.sizeofSizeT + n + 4))) then
              ofLeBytes (slice s index 8) else 0,
            n, slice s (index + 8 + P.sizeofSizeT) (n + 4)⟩
        else
          ⟨if isOkay (accumulate reset (slice s index (8 + P.sizeofSizeT))) then
              ofLeBytes (slice s index 8) else 0, n, []⟩
      else ⟨0, n, []⟩
    else ⟨0, 0, []⟩
  else ⟨0, 0, []⟩

theorem length_got_le (s : List Byte) (index : Nat) :
    (peek P s index).got.length ≤ P.workBufferSize := by
  unfold peek
  split
  · split
    · simp only
      split
      next hg =>
        split
        · refine Nat.le_trans ?_ hg.2
          exact length_take_le _ _
        · exact Nat.zero_le _
      next => exact Nat.zero_le _
    · exact Nat.zero_le _
  · exact Nat.zero_le _

variable {s : List Byte}

/-- The bytes a read yields are those after the length field. -/
theorem getElem?_got {index i : Nat} (h : i < (peek P s index).got.length) :
    (peek P s index).got[i]? = s[index + 8 + P.sizeofSizeT + i]? := by
  unfold peek at h ⊢
  split at h
  next h8 =>
    rw [if_pos h8]
    split at h
    next hW =>
      rw [if_pos hW]
      simp only at h ⊢
      split at h
      next hg =>
        rw [if_pos hg]
        split at h
        next hroom =>
          rw [if_pos hroom]
          rw [length_slice _ _ _ (by omega)] at h
          rw [getElem?_slice, if_pos h]
        next => simp at h
      next => simp at h
    next => simp at h
  next => simp at h

/-- A length field that passes the guard and the region is followed. -/
theorem length_got {index n : Nat}
    (hfield : slice s (index + 8) P.sizeofSizeT = leBytes P.sizeofSizeT n)
    (hfit : n + 4 ≤ P.workBufferSize) (hlt : n + 4 < P.sizeMod)
    (hroom : index + 8 + P.sizeofSizeT + n + 4 ≤ s.length) :
    (peek P s index).got.length = n + 4 := by
  unfold peek
  simp only [hfield, ofLeBytes_dataLen hlt]
  rw [if_pos (by omega), if_pos (by omega), if_pos ⟨hlt, hfit⟩, if_pos hroom]
  exact length_slice _ _ _ (by omega)

/-- **A region read**: id and length depend on the region alone, and the buffer
changes only by the bytes the region yields. -/
theorem getTransactionId_eq (m : ρ → List Byte) (region : ρ) (index : Nat) (buf : WorkBuffer P) :
    getTransactionId P (read m region) index buf
      = ⟨(peek P (m region) index).transId, (peek P (m region) index).dataLen,
          buf.fill (peek P (m region) index).got⟩ := by
  unfold getTransactionId peek
  by_cases h8 : index + 8 ≤ (m region).length
  · have hl8 := length_slice (m region) index 8 h8
    simp only [read_of_le h8, hl8, if_true, if_pos h8]
    by_cases hW : index + 8 + P.sizeofSizeT ≤ (m region).length
    · rw [readFrame_eq m region (index + 8) _ buf _ hW rfl]
      -- the id and the bytes after it are accumulated one after the other
      have hcrc : ∀ k, accumulate (accumulate reset (slice (m region) index 8))
          (slice (m region) (index + 8) k) = accumulate reset (slice (m region) index (8 + k)) := by
        intro k
        rw [← accumulate_append, slice_append_slice]
      simp only [hcrc]
      split
      · split
        · simp [Nat.add_assoc]
        · simp
      · simp
    · rw [readFrame_noHeader _ _ (Nat.not_le.mp hW), if_neg hW]
      simp
  · have hno : read m region index 8 = [] := read_of_lt (by omega)
    rw [if_neg h8, hno, if_neg (by simp), WorkBuffer.fill_nil]

/-- The CRC bytes of a frame, as the read finds them after the data. -/
def crcOf (P : Platform) (transId : Nat) (data : List Byte) : List Byte :=
  crcBytes false (leBytes sizeofUint64 transId ++ (leBytes P.sizeofSizeT data.length ++ data))

@[simp] theorem length_crcOf (transId : Nat) (data : List Byte) :
    (crcOf P transId data).length = 4 :=
  length_crcBytes false _

/-- A stored frame is accepted under its own id. -/
theorem peek_frame {index transId : Nat} {data : List Byte}
    (h : slice s index (frameOf P false transId data).length = frameOf P false transId data)
    (hfit : data.length + 4 ≤ P.workBufferSize) (hlt : data.length + 4 < P.sizeMod)
    (hid : transId < 2 ^ 64) :
    peek P s index = ⟨transId, data.length, data ++ crcOf P transId data⟩ := by
  have hlen : (frameOf P false transId data).length = 8 + P.sizeofSizeT + data.length + 4 := by
    simp
  have hroom : index + (8 + P.sizeofSizeT + data.length + 4) ≤ s.length := by
    simpa using frame_le h
  have hok := isOkay_frame (P := P) [leBytes sizeofUint64 transId] data
  obtain ⟨h1, h2, h3⟩ := slices_of_frame h
  simp only [flatten_cons, flatten_nil, append_nil, length_leBytes] at h1 h2 h3
  have hidv : ofLeBytes (leBytes 8 transId) = transId :=
    ofLeBytes_leBytes_of_lt _ _ (Nat.lt_of_lt_of_eq hid (by norm_num))
  unfold peek
  simp only [h2, ofLeBytes_dataLen hlt]
  rw [if_pos (by omega), if_pos (by omega), if_pos ⟨hlt, hfit⟩, if_pos (by omega), h1, h3, hidv,
      ← hlen, h, hok, if_pos rfl, crcOf]

/-! ## §3. The load, by which region is newer. -/

section Load

variable {c : MirroredChunk ρ} {m : ρ → List Byte} {index : Nat}

variable (dst : Payload)

section

variable (buf : WorkBuffer P) (hA : (peek P (m c.regionA) index).transId = 0)
  (hB : (peek P (m c.regionB) index).transId = 0)

include hA hB

/-- Neither region is accepted: the chunk restarts from region A with the
region's whole capacity. -/
theorem loadData_neither (hover : FRAME_OVERHEAD P ≤ (m c.regionA).length)
    (hsize : (m c.regionA).length < P.sizeMod) :
    ∃ buf', loadData P c m dst index buf
      = some ⟨{ c with currentRegion := some c.regionA, transId := 0,
                       dataLen := (m c.regionA).length - FRAME_OVERHEAD P }, buf', none, false⟩ := by
  refine ⟨(buf.fill (peek P (m c.regionA) index).got).fill (peek P (m c.regionB) index).got, ?_⟩
  unfold loadData loadDataFrom
  simp only [getTransactionId_eq, hA, hB, and_self, if_true, Platform.sizeSub_of_le hover hsize]
  rw [if_pos (Nat.sub_le _ _)]

/-- A region too short for a frame trips the closing assertion. -/
theorem loadData_short (hover : (m c.regionA).length < FRAME_OVERHEAD P)
    (hP : FRAME_OVERHEAD P < P.sizeMod) :
    loadData P c m dst index buf = none := by
  have hlt := Platform.lt_sizeSub hover hP
  unfold loadData loadDataFrom
  simp only [getTransactionId_eq, hA, hB, and_self, if_true]
  rw [if_neg (by omega)]

end

/-- Region A is newer: the record is handed A's bytes OVERWRITTEN by whatever
region B yielded. -/
theorem loadData_regionA (buf : WorkBuffer P) {id : Nat} {q crc : List Byte}
    (hA : peek P (m c.regionA) index = ⟨id, q.length, q ++ crc⟩)
    (hB : (peek P (m c.regionB) index).transId < id) (hlen : q.length ≤ (m c.regionA).length) :
    ∃ buf', loadData P c m dst index buf
      = some ⟨{ c with currentRegion := some c.regionA, transId := id, dataLen := q.length }, buf',
          some (overlay q 0 ((peek P (m c.regionB) index).got.take q.length)),
          dst.putData (overlay q 0 ((peek P (m c.regionB) index).got.take q.length))⟩ := by
  have hfitA : (q ++ crc).length ≤ P.workBufferSize := by
    have h := length_got_le (P := P) (m c.regionA) index
    rwa [hA] at h
  have hfitB := length_got_le (P := P) (m c.regionB) index
  have hdata : ((buf.fill (q ++ crc)).fill (peek P (m c.regionB) index).got).bytes.take q.length
      = overlay q 0 ((peek P (m c.regionB) index).got.take q.length) := by
    apply ext_getElem?
    intro i
    rw [getElem?_overlay _ _ _ (by rw [length_take]; omega), getElem?_take,
        WorkBuffer.getElem?_fill _ _ hfitB, WorkBuffer.getElem?_fill _ _ hfitA, length_take,
        getElem?_take, length_append]
    by_cases hi : i < q.length
    · by_cases hg : i < (peek P (m c.regionB) index).got.length
      · rw [if_pos hi, if_pos hg, if_pos (by omega), if_pos (by omega), Nat.sub_zero]
      · rw [if_pos hi, if_neg hg, if_pos (by omega), if_neg (by omega),
            getElem?_append_left hi]
    · rw [if_neg hi, if_neg (by omega), getElem?_eq_none (by omega)]
  refine ⟨(buf.fill (q ++ crc)).fill (peek P (m c.regionB) index).got, ?_⟩
  unfold loadData loadDataFrom
  simp only [getTransactionId_eq, hA]
  rw [if_neg (by omega), if_pos hB, pushToRecord]
  simp [hdata, if_pos hlen]

/-- Region B is newer, or as new as A: the record is handed B's bytes. -/
theorem loadData_regionB (buf : WorkBuffer P) {id : Nat} {q crc : List Byte}
    (hB : peek P (m c.regionB) index = ⟨id, q.length, q ++ crc⟩) (hid : 0 < id)
    (hA : (peek P (m c.regionA) index).transId ≤ id) (hlen : q.length ≤ (m c.regionB).length) :
    ∃ buf', loadData P c m dst index buf
      = some ⟨{ c with currentRegion := some c.regionB, transId := id, dataLen := q.length }, buf',
          some q, dst.putData q⟩ := by
  have hfitB : (q ++ crc).length ≤ P.workBufferSize := by
    have h := length_got_le (P := P) (m c.regionB) index
    rwa [hB] at h
  have hdata : ((buf.fill (peek P (m c.regionA) index).got).fill (q ++ crc)).bytes.take q.length
      = q := by
    rw [WorkBuffer.fill_bytes _ _ hfitB, append_assoc, take_left]
  refine ⟨(buf.fill (peek P (m c.regionA) index).got).fill (q ++ crc), ?_⟩
  unfold loadData loadDataFrom
  simp only [getTransactionId_eq, hB]
  rw [if_neg (by omega), if_neg (by omega), pushToRecord]
  simp [hdata, if_pos hlen]

end Load

/-! ## §4. The update, as a list of writes. -/

theorem mirrorWrites_fits (m : ρ → List Byte) (region : ρ) (inv : Bool) (id : Nat)
    (data : List Byte) (index : Nat)
    (h : index + (frameOf P inv id data).length ≤ (m region).length) :
    ∀ w ∈ mirrorWrites P inv region id data index, w.Fits m :=
  pieceWrites_fits m region _ index h

theorem cells_mirrorWrites (region : ρ) (inv : Bool) (id : Nat) (data : List Byte) (index : Nat) :
    cells (mirrorWrites P inv region id data index) = (frameOf P inv id data).length :=
  cells_pieceWrites region _ index

section UpdateSpec

variable [DecidableEq ρ] {c : MirroredChunk ρ} {m : ρ → List Byte} {index : Nat}

theorem otherRegion_regionA (c : MirroredChunk ρ) : c.otherRegion c.regionA = c.regionB :=
  if_pos rfl

theorem otherRegion_regionB (c : MirroredChunk ρ) : c.otherRegion c.regionB = c.regionA :=
  if_neg (Ne.symm c.distinct)

theorem otherRegion_eq_or (c : MirroredChunk ρ) (r : ρ) :
    c.otherRegion r = c.regionA ∨ c.otherRegion r = c.regionB := by
  unfold otherRegion
  split
  · exact Or.inr rfl
  · exact Or.inl rfl

/-- What both regions have room for. -/
theorem le_length_otherRegion {n : Nat} (hA : n ≤ (m c.regionA).length)
    (hB : n ≤ (m c.regionB).length) (r : ρ) : n ≤ (m (c.otherRegion r)).length := by
  rcases c.otherRegion_eq_or r with heq | heq
  · rw [heq]
    exact hA
  · rw [heq]
    exact hB

/-- An update writes to the two mirrors only. -/
theorem issuedWrites_region (c : MirroredChunk ρ) (src : Payload) (index : Nat) :
    ∀ w ∈ issuedWrites P c src index, w.region = c.regionA ∨ w.region = c.regionB := by
  intro w hw
  unfold issuedWrites at hw
  cases hc : c.currentRegion with
  | none => simp [hc] at hw
  | some r =>
    simp only [hc] at hw
    split at hw
    · simp at hw
    · rcases mem_append.mp hw with hw | hw
      · rw [pieceWrites_region _ _ _ w hw]
        exact c.otherRegion_eq_or r
      · rw [pieceWrites_region _ _ _ w hw]
        exact c.otherRegion_eq_or _

variable {src : Payload}

/-- The media after a call without failures are those its writes leave. -/
theorem updateData_media {u : Updated P (MirroredChunk ρ) ρ}
    (h : updateData P c m src index false [] [] = some u) :
    u.media = storeAll m (issuedWrites P c src index) := by
  unfold updateData at h
  unfold issuedWrites
  cases hc : c.currentRegion with
  | none => simp only [hc, reduceCtorEq] at h
  | some current =>
    simp only [hc, Bool.false_eq_true, if_false] at h ⊢
    split at h
    next => cases h
    next =>
      split at h
      next h0 =>
        cases h
        rw [if_pos h0]
        rfl
      next h0 =>
        cases h
        rw [if_neg h0, updateWrites, storeAll_append, writeEach_media, writeEach_media]

variable {current : ρ} {data : List Byte}

/-- An update of a payload the work buffer can hold, whatever becomes of its
writes. -/
theorem updateData_eq (m : ρ → List Byte) (index : Nat) (hcur : c.currentRegion = some current)
    (hdata : src.getData c.dataLen = data) (hne : 0 < data.length)
    (hfit : data.length ≤ P.workBufferSize) (fates1 fates2 : List Fate) :
    ∃ w1 w2, w1 = writeEach m
        (mirrorWrites P false (c.otherRegion current) (nextTransId c.transId) data index) fates1
      ∧ w2 = writeEach w1.1 (mirrorWrites P false (c.otherRegion (c.otherRegion current))
          (nextTransId (nextTransId c.transId)) data index) fates2
      ∧ updateData P c m src index false fates1 fates2
        = some ⟨{ c with dataLen := data.length,
                         currentRegion := some (c.otherRegion (c.otherRegion current)),
                         transId := nextTransId (nextTransId c.transId) },
            (WorkBuffer.zero P).fill data, w2.1, w2.2.all id⟩ := by
  refine ⟨_, _, rfl, rfl, ?_⟩
  unfold updateData
  simp only [hcur, hdata, Bool.false_eq_true, if_false]
  rw [if_neg (by omega), if_neg (by omega)]

/-- **An update whose writes succeed** leaves the media its list of writes
leaves, and returns true. -/
theorem updateData_ok (hcur : c.currentRegion = some current)
    (hdata : src.getData c.dataLen = data) (hne : 0 < data.length)
    (hfit : data.length ≤ P.workBufferSize)
    (hA : index + (FRAME_OVERHEAD P + data.length) ≤ (m c.regionA).length)
    (hB : index + (FRAME_OVERHEAD P + data.length) ≤ (m c.regionB).length) :
    ∃ buf', updateData P c m src index false [] []
      = some ⟨{ c with dataLen := data.length,
                       currentRegion := some (c.otherRegion (c.otherRegion current)),
                       transId := nextTransId (nextTransId c.transId) }, buf',
          storeAll m (updateWrites P c current false data index), true⟩ := by
  have hroom := le_length_otherRegion hA hB
  have hfit1 := mirrorWrites_fits m (c.otherRegion current) false (nextTransId c.transId) data index
    (by rw [length_frameOf]; exact hroom current)
  have hfit2 := mirrorWrites_fits
    (storeAll m (mirrorWrites P false (c.otherRegion current) (nextTransId c.transId) data index))
    (c.otherRegion (c.otherRegion current)) false (nextTransId (nextTransId c.transId)) data index
    (by rw [length_frameOf, length_storeAll]; exact hroom _)
  obtain ⟨w1, w2, hw1, hw2, hupd⟩ := updateData_eq m index hcur hdata hne hfit [] []
  rw [writeEach_ok _ _ hfit1] at hw1
  subst hw1
  rw [writeEach_ok _ _ hfit2] at hw2
  subst hw2
  rw [hupd, updateWrites, storeAll_append]
  simp

/-- The region selected is always one of the two, and never the one it is
selected against when that is one of the two. -/
theorem otherRegion_ne (h : current = c.regionA ∨ current = c.regionB) :
    c.otherRegion (c.otherRegion current) = current ∧ c.otherRegion current ≠ current := by
  rcases h with rfl | rfl
  · rw [otherRegion_regionA, otherRegion_regionB]
    exact ⟨rfl, Ne.symm c.distinct⟩
  · rw [otherRegion_regionB, otherRegion_regionA]
    exact ⟨rfl, c.distinct⟩

section

variable {first second : ρ} (hne : first ≠ second) (id1 id2 : Nat) (data : List Byte)
  (h1 : index + (FRAME_OVERHEAD P + data.length) ≤ (m first).length)
  (h2 : index + (FRAME_OVERHEAD P + data.length) ≤ (m second).length)

include hne h1 h2

/-- **An update cut after `k` bytes**: the first mirror keeps the first `k` bytes
of its frame, the second what is left of `k` after a whole first frame; a cut
past both is the complete update. -/
theorem storeCut_mirrors (k : Nat) :
    let m' := storeCut m (mirrorWrites P false first id1 data index
      ++ mirrorWrites P false second id2 data index) k
    m' first = overlay (m first) index ((frameOf P false id1 data).take k)
    ∧ m' second = overlay (m second) index
        ((frameOf P false id2 data).take (k - (FRAME_OVERHEAD P + data.length))) := by
  have hn : ∀ id, (frameOf P false id data).length = FRAME_OVERHEAD P + data.length :=
    fun id => length_frameOf false id data
  have hfits1 := mirrorWrites_fits m first false id1 data index (by rw [hn]; exact h1)
  have hcells := cells_mirrorWrites (P := P) first false id1 data index
  have hothers : ∀ w ∈ mirrorWrites P false first id1 data index, w.region ≠ second := by
    intro w hw
    rw [pieceWrites_region _ _ _ w hw]
    exact hne
  have hothers2 : ∀ w ∈ mirrorWrites P false second id2 data index, w.region ≠ first := by
    intro w hw
    rw [pieceWrites_region _ _ _ w hw]
    exact Ne.symm hne
  rw [hn] at hcells
  intro m'
  by_cases hk : k < FRAME_OVERHEAD P + data.length
  · -- the cut falls inside the first mirror
    have hm' : m' = storeCut m (mirrorWrites P false first id1 data index) k :=
      storeCut_append_left _ _ m k hfits1 (by omega)
    rw [hm', storeCut_other _ _ _ _ hothers, Nat.sub_eq_zero_of_le (by omega), take_zero,
        overlay_nil]
    refine ⟨?_, rfl⟩
    exact storeCut_pieceWrites first _ m index k (by
      show index + (frameOf P false id1 data).length ≤ _
      rw [hn]
      exact h1)
  · have hm' : m' = storeCut (storeAll m (mirrorWrites P false first id1 data index))
        (mirrorWrites P false second id2 data index) (k - (FRAME_OVERHEAD P + data.length)) := by
      rw [← hcells]
      exact storeCut_append_right _ _ m k hfits1 (by omega)
    rw [hm', storeCut_other _ _ _ _ hothers2, take_of_length_le (by rw [hn]; omega)]
    constructor
    · exact storeAll_pieceWrites first _ m index (by
        show index + (frameOf P false id1 data).length ≤ _
        rw [hn]
        exact h1)
    · rw [← storeAll_other _ m second hothers]
      exact storeCut_pieceWrites second _ _ index _ (by
        show index + (frameOf P false id2 data).length ≤ _
        rw [hn, length_storeAll]
        exact h2)

/-- The complete update: both mirrors hold their frames. -/
theorem storeAll_mirrors :
    let m' := storeAll m (mirrorWrites P false first id1 data index
      ++ mirrorWrites P false second id2 data index)
    m' first = overlay (m first) index (frameOf P false id1 data)
    ∧ m' second = overlay (m second) index (frameOf P false id2 data) := by
  have hfits : ∀ w ∈ mirrorWrites P false first id1 data index
      ++ mirrorWrites P false second id2 data index, w.Fits m := by
    intro w hw
    rcases mem_append.mp hw with hw | hw
    · exact mirrorWrites_fits m first false id1 data index (by rw [length_frameOf]; exact h1) w hw
    · exact mirrorWrites_fits m second false id2 data index (by rw [length_frameOf]; exact h2) w hw
  have hcut := storeCut_mirrors hne id1 id2 data h1 h2
    (FRAME_OVERHEAD P + data.length + (FRAME_OVERHEAD P + data.length))
  rw [storeCut_of_cells_le m _ _ hfits (by
        rw [cells_append, cells_mirrorWrites, cells_mirrorWrites, length_frameOf, length_frameOf]),
      take_of_length_le (by rw [length_frameOf]; omega),
      take_of_length_le (by rw [length_frameOf]; omega)] at hcut
  exact hcut

end

/-- **An update leaves two mirrors**: the same record under two different ids. -/
theorem updateData_mirrors (hcur : c.currentRegion = some current)
    (hside : current = c.regionA ∨ current = c.regionB) (hdata : src.getData c.dataLen = data)
    (hne : 0 < data.length) (hfit : data.length ≤ P.workBufferSize)
    (hA : index + (FRAME_OVERHEAD P + data.length) ≤ (m c.regionA).length)
    (hB : index + (FRAME_OVERHEAD P + data.length) ≤ (m c.regionB).length) :
    ∃ c' buf' m' ida idb, updateData P c m src index false [] [] = some ⟨c', buf', m', true⟩
      ∧ (c'.regionA = c.regionA ∧ c'.regionB = c.regionB) ∧ (∀ r, (m' r).length = (m r).length)
      ∧ ida < 2 ^ 64 ∧ idb < 2 ^ 64 ∧ ida ≠ idb
      ∧ slice (m' c.regionA) index (frameOf P false ida data).length = frameOf P false ida data
      ∧ slice (m' c.regionB) index (frameOf P false idb data).length = frameOf P false idb data := by
  obtain ⟨buf', hupd⟩ := updateData_ok hcur hdata hne hfit hA hB
  have hlt : ∀ t, nextTransId t < 2 ^ 64 := fun t => Nat.mod_lt _ (Nat.two_pow_pos 64)
  have hids := nextTransId_ne (nextTransId c.transId)
  have hself : ∀ (r : ρ) id, index + (FRAME_OVERHEAD P + data.length) ≤ (m r).length →
      slice (overlay (m r) index (frameOf P false id data)) index (frameOf P false id data).length
        = frameOf P false id data := by
    intro r id hr
    exact slice_overlay_self _ _ _ (by rwa [length_frameOf])
  -- the frames lie in A and B in an order that depends on the current region
  rcases hside with rfl | rfl
  · rw [updateWrites, otherRegion_regionA, otherRegion_regionB] at hupd
    obtain ⟨hmB, hmA⟩ := storeAll_mirrors (Ne.symm c.distinct) (nextTransId c.transId)
      (nextTransId (nextTransId c.transId)) data hB hA
    refine ⟨_, buf', _, _, _, hupd, ⟨rfl, rfl⟩, fun r => length_storeAll _ _ _, hlt _, hlt _, hids, ?_, ?_⟩
    · rw [hmA]
      exact hself _ _ hA
    · rw [hmB]
      exact hself _ _ hB
  · rw [updateWrites, otherRegion_regionB, otherRegion_regionA] at hupd
    obtain ⟨hmA, hmB⟩ := storeAll_mirrors c.distinct (nextTransId c.transId)
      (nextTransId (nextTransId c.transId)) data hA hB
    refine ⟨_, buf', _, _, _, hupd, ⟨rfl, rfl⟩, fun r => length_storeAll _ _ _, hlt _, hlt _, Ne.symm hids,
      ?_, ?_⟩
    · rw [hmA]
      exact hself _ _ hA
    · rw [hmB]
      exact hself _ _ hB

/-- Region content `s` under a frame of which `k` bytes were written. -/
abbrev tornFrame (P : Platform) (s : List Byte) (id : Nat) (y : List Byte) (k : Nat) : List Byte :=
  overlay s 0 ((frameOf P false id y).take k)

/-- **What an update leaves in the two regions**, whole or cut: the other region gets its
frame first. -/
structure Written (P : Platform) (N : Nat) (c : MirroredChunk ρ) (m : ρ → List Byte) (t : Nat)
    (y : List Byte) (ws : List (Write Byte ρ)) (first second : ρ) : Prop where
  room₁ : FRAME_OVERHEAD P + y.length ≤ (m first).length
  room₂ : FRAME_OVERHEAD P + y.length ≤ (m second).length
  full₁ : storeAll m ws first = overlay (m first) 0 (frameOf P false (t + 1) y)
  full₂ : storeAll m ws second = overlay (m second) 0 (frameOf P false (t + 2) y)
  cut₁ : ∀ k, storeCut m ws k first = tornFrame P (m first) (t + 1) y k
  cut₂ : ∀ k, storeCut m ws k second
    = tornFrame P (m second) (t + 2) y (k - (FRAME_OVERHEAD P + y.length))

variable {t N : Nat}

theorem nextTransId_of_lt (h : t + 1 < 2 ^ 64) : nextTransId t = t + 1 :=
  Nat.mod_eq_of_lt h

section Loaded

variable (hcur : c.currentRegion = some current)
  (hside : current = c.regionA ∨ current = c.regionB) (ht : c.transId = t)
  (hdata : src.getData c.dataLen = data) (hne : 0 < data.length) (h64 : t + 2 < 2 ^ 64)

include hcur hside ht hdata hne h64

/-- The writes of an update from a loaded chunk: the other region under `t + 1`, then the
current one under `t + 2`. -/
theorem issuedWrites_eq : issuedWrites P c src 0
    = mirrorWrites P false (c.otherRegion current) (t + 1) data 0
      ++ mirrorWrites P false current (t + 2) data 0 := by
  unfold issuedWrites updateWrites
  simp only [hcur, hdata, ht]
  rw [if_neg (by omega), (otherRegion_ne hside).1, nextTransId_of_lt (by omega),
      nextTransId_of_lt (by omega)]

theorem cells_issuedWrites :
    cells (issuedWrites P c src 0) = 2 * (FRAME_OVERHEAD P + data.length) := by
  rw [issuedWrites_eq hcur hside ht hdata hne h64, cells_append, cells_mirrorWrites,
      cells_mirrorWrites, length_frameOf, length_frameOf, Nat.two_mul]

variable (hA : FRAME_OVERHEAD P + data.length ≤ (m c.regionA).length)
  (hB : FRAME_OVERHEAD P + data.length ≤ (m c.regionB).length)

include hA hB

theorem written :
    Written P N c m t data (issuedWrites P c src 0) (c.otherRegion current) current := by
  obtain ⟨hback, hother⟩ := otherRegion_ne hside
  have hroom := le_length_otherRegion hA hB
  have hroomS := hroom (c.otherRegion current)
  rw [hback] at hroomS
  have hroom₁ := (Nat.zero_add _).trans_le (hroom current)
  have hroom₂ := (Nat.zero_add _).trans_le hroomS
  have hall := storeAll_mirrors hother (t + 1) (t + 2) data hroom₁ hroom₂
  have hcut := storeCut_mirrors hother (t + 1) (t + 2) data hroom₁ hroom₂
  rw [issuedWrites_eq hcur hside ht hdata hne h64]
  exact ⟨hroom current, hroomS, hall.1, hall.2, fun k => (hcut k).1, fun k => (hcut k).2⟩

/-- **A complete update** of a loaded chunk. -/
theorem updateData_done (hfit : data.length ≤ P.workBufferSize) :
    ∃ buf', updateData P c m src 0 false [] []
      = some ⟨{ c with dataLen := data.length, transId := t + 2 }, buf',
          storeAll m (issuedWrites P c src 0), true⟩ := by
  obtain ⟨buf', heq⟩ := updateData_ok hcur hdata hne hfit ((Nat.zero_add _).trans_le hA)
    ((Nat.zero_add _).trans_le hB)
  refine ⟨buf', ?_⟩
  rw [← updateData_media heq, heq, (otherRegion_ne hside).1, ht,
      nextTransId_of_lt (show t + 1 < 2 ^ 64 by omega), nextTransId_of_lt (by omega), ← hcur]

end Loaded

end UpdateSpec

end MirroredChunk

end ColonyCore.Persistent
