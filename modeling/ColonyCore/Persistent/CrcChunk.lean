/-
  ColonyCore.Persistent.CrcChunk
  **A RECORD PROTECTED BY A CRC (`Cpl/Persistent/CrcChunk.cpp`).**

  One frame with an empty lead: data length, data, CRC.  The chunk remembers
  one number, `m_dataLen`: the length `getData` is offered next.

    • `loadData_frame`   — a stored frame is handed to the record, and its length
      becomes `m_dataLen`,
    • `loadData_reject`  — bytes that fail the CRC are refused and change nothing,
    • `crcOkay_oversize` — so is a frame the work buffer has no room for,
    • `updateData_ok`    — an update whose writes succeed stores exactly its frame.
-/
import ColonyCore.Persistent.Frame

namespace ColonyCore.Persistent

open ByteStore LittleEndian Checksum.Crc32EthernetFast

/-- The members of a `CrcChunk`. -/
structure CrcChunk (ρ : Type) where
  region : ρ
  dataLen : Nat

namespace CrcChunk

variable {P : Platform} {ρ : Type}

/-- `FRAME_OVERHEAD` of `CrcChunk.cpp`. -/
def FRAME_OVERHEAD (P : Platform) : Nat := P.sizeofSizeT + CRC_SIZE

/-- `CrcChunk::start`. -/
def start (P : Platform) (c : CrcChunk ρ) (m : ρ → List Byte) : CrcChunk ρ :=
  { c with dataLen := P.sizeSub (m c.region).length (FRAME_OVERHEAD P) }

/-- `CrcChunk::getMetadataLength`. -/
def getMetadataLength (P : Platform) : Nat := FRAME_OVERHEAD P

/-- `CrcChunk::loadData` on a medium with the given reads. -/
def loadDataFrom (P : Platform) (c : CrcChunk ρ) (rd : Nat → Nat → List Byte) (dst : Payload)
    (index : Nat) (buf : WorkBuffer P) : Loaded P (CrcChunk ρ) :=
  let f := readFrame P rd index reset buf
  if f.okay then
    let data := f.buffer.bytes.take f.dataLen
    ⟨{ c with dataLen := f.dataLen }, f.buffer, some data, dst.putData data⟩
  else ⟨c, f.buffer, none, false⟩

/-- `CrcChunk::loadData`. -/
def loadData (P : Platform) (c : CrcChunk ρ) (m : ρ → List Byte) (dst : Payload) (index : Nat)
    (buf : WorkBuffer P) : Loaded P (CrcChunk ρ) :=
  c.loadDataFrom P (read m c.region) dst index buf

/-- The frame an update of `data` stores. -/
abbrev frameOf (P : Platform) (invalidate : Bool) (data : List Byte) : List Byte :=
  frame P invalidate [] data

section Update

variable [DecidableEq ρ]

/-- `CrcChunk::updateData`.  `fates` says which of its three region writes fail.
`none` is a run outside the model: the record overran the work buffer. -/
def updateData (P : Platform) (c : CrcChunk ρ) (m : ρ → List Byte) (src : Payload) (index : Nat)
    (invalidate : Bool) (fates : List Fate) : Option (Updated P (CrcChunk ρ) ρ) :=
  let data := src.getData c.dataLen
  if P.workBufferSize < data.length then none else
  if data.length = 0 then some ⟨c, WorkBuffer.zero P, m, false⟩ else
  let data' := if invalidate then List.replicate data.length 0#8 else data
  let w := writeEach m (pieceWrites c.region index (framePieces P invalidate [] data')) fates
  some ⟨{ c with dataLen := data.length }, (WorkBuffer.zero P).fill data', w.1, w.2.all id⟩

variable {data : List Byte} (c : CrcChunk ρ) (m : ρ → List Byte) (src : Payload) (index : Nat)
  (hdata : src.getData c.dataLen = data) (hne : 0 < data.length)
  (hfit : data.length ≤ P.workBufferSize)

include hdata hne hfit

/-- An update of a payload the work buffer can hold, whatever becomes of its
writes. -/
theorem updateData_eq (fates : List Fate) :
    updateData P c m src index false fates
      = some ⟨{ c with dataLen := data.length }, (WorkBuffer.zero P).fill data,
          (writeEach m (pieceWrites c.region index (framePieces P false [] data)) fates).1,
          (writeEach m (pieceWrites c.region index (framePieces P false [] data)) fates).2.all id⟩ := by
  unfold updateData
  simp only [hdata, Bool.false_eq_true, if_false]
  rw [if_neg (by omega), if_neg (by omega)]

/-- **A successful update**: the frame lands in the region at `index`, every
other byte of the media stays, and the result is true. -/
theorem updateData_ok (hroom : index + (frameOf P false data).length ≤ (m c.region).length) :
    updateData P c m src index false []
      = some ⟨{ c with dataLen := data.length }, (WorkBuffer.zero P).fill data,
          Function.update m c.region (overlay (m c.region) index (frameOf P false data)), true⟩ := by
  have hws := pieceWrites_fits m c.region (framePieces P false [] data) index hroom
  have hstore : storeAll m (pieceWrites c.region index (framePieces P false [] data))
      = Function.update m c.region (overlay (m c.region) index (frameOf P false data)) := by
    funext r
    by_cases hr : r = c.region
    · subst hr
      rw [Function.update_self, storeAll_pieceWrites _ _ _ _ hroom, frameOf, frame]
    · rw [Function.update_of_ne hr, storeAll_other _ _ _ ?_]
      intro w hw
      rw [pieceWrites_region _ _ _ w hw]
      exact Ne.symm hr
  rw [updateData_eq c m src index hdata hne hfit, writeEach_ok _ _ hws, hstore]
  simp

end Update

variable {index : Nat}

/-- **A stored frame is handed to the record**, and its length is remembered. -/
theorem loadData_frame {c : CrcChunk ρ} {m : ρ → List Byte} {data : List Byte}
    (dst : Payload) (buf : WorkBuffer P)
    (h : slice (m c.region) index (frameOf P false data).length = frameOf P false data)
    (hfit : data.length + 4 ≤ P.workBufferSize) (hlt : data.length + 4 < P.sizeMod) :
    ∃ buf', loadData P c m dst index buf
      = ⟨{ c with dataLen := data.length }, buf', some data, dst.putData data⟩ := by
  have hread := readFrame_frame buf h hfit hlt
  simp only [List.flatten_nil, List.length_nil, Nat.add_zero, List.nil_append, accumulate_nil] at hread
  refine ⟨buf.fill (data ++ crcBytes false (leBytes P.sizeofSizeT data.length ++ data)), ?_⟩
  unfold loadData loadDataFrom
  simp only [hread, Bool.not_false, if_true]
  rw [WorkBuffer.fill_bytes _ _ (by simpa using hfit)]
  simp

/-- The verdict of the CRC check on the bytes at `index`. -/
def crcOkay (P : Platform) (s : List Byte) (index : Nat) : Bool :=
  (readFrame P (read (fun _ : Unit => s) ()) index reset (.zero P)).okay

/-- The verdict does not depend on what the work buffer held before. -/
theorem readFrame_okay (m : ρ → List Byte) (r : ρ) (index : Nat) (buf : WorkBuffer P) :
    (readFrame P (read m r) index reset buf).okay = crcOkay P (m r) index := by
  unfold crcOkay
  by_cases hlen : index + P.sizeofSizeT ≤ (m r).length
  · rw [readFrame_eq m r index reset buf _ hlen rfl,
        readFrame_eq (fun _ : Unit => m r) () index reset (.zero P) _ hlen rfl]
    split
    · split
      · rfl
      · rfl
    · rfl
  · rw [readFrame_noHeader _ _ (Nat.not_le.mp hlen),
        readFrame_noHeader (r := ()) _ _ (Nat.not_le.mp hlen)]

/-- Bytes that fail the CRC are refused; the chunk is unchanged. -/
theorem loadData_reject {c : CrcChunk ρ} {m : ρ → List Byte}
    (dst : Payload) (buf : WorkBuffer P) (h : crcOkay P (m c.region) index = false) :
    ∃ buf', loadData P c m dst index buf = ⟨c, buf', none, false⟩ := by
  refine ⟨(readFrame P (read m c.region) index reset buf).buffer, ?_⟩
  rw [← readFrame_okay m c.region index buf] at h
  unfold loadData loadDataFrom
  simp [h]

/-- A stored frame passes the check. -/
theorem crcOkay_frame {s : List Byte} (data : List Byte)
    (h : slice s index (frameOf P false data).length = frameOf P false data)
    (hfit : data.length + 4 ≤ P.workBufferSize) (hlt : data.length + 4 < P.sizeMod) :
    crcOkay P s index = true := by
  have hread := readFrame_frame (m := fun _ : Unit => s) (r := ()) (.zero P) h hfit hlt
  simp only [List.flatten_nil, List.length_nil, Nat.add_zero, accumulate_nil] at hread
  unfold crcOkay
  rw [hread]
  rfl

/-- A frame whose length the work buffer cannot take is refused, however it was
written. -/
theorem crcOkay_oversize {s : List Byte} (inv : Bool) (data : List Byte)
    (h : slice s index (frameOf P inv data).length = frameOf P inv data)
    (hlt : data.length + 4 < P.sizeMod) (hbig : P.workBufferSize < data.length + 4) :
    crcOkay P s index = false := by
  exact readFrame_oversize (m := fun _ : Unit => s) reset (.zero P) h hlt hbig

end CrcChunk

end ColonyCore.Persistent
