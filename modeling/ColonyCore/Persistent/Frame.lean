/-
  ColonyCore.Persistent.Frame
  **THE FRAME BOTH CHUNKS STORE, AND HOW IT IS READ BACK.**

  A frame is a lead (empty for `CrcChunk`, the transaction id for
  `MirroredChunk`), the data length as a `size_t`, the data, and a CRC over all
  of these.  `CrcChunk::loadData` and `MirroredChunk::getTransactionId` share
  their body from the data length on; `readFrame` is that body, with the region
  it reads as a parameter.

    • `readFrame_eq`      — what `readFrame` returns, for every region content,
    • `readFrame_frame`   — a stored frame reads back as its data; an erased one
      is refused.
-/
import ColonyCore.Checksum.Crc32EthernetFast
import ColonyCore.Persistent.RegionMedia

namespace ColonyCore.Persistent

open ByteStore LittleEndian Checksum.Crc32EthernetFast

variable {P : Platform} {ρ : Type}

/-! ## §1. The client of a chunk. -/

/-- A `Payload`: the record a chunk stores.  `getData maxDstLen` is what the
record writes to the work buffer (no byte when it refuses), never more than it
is offered; `putData` is its verdict on the bytes handed back. -/
structure Payload where
  getData : Nat → List Byte
  getData_le : ∀ n, (getData n).length ≤ n
  putData : List Byte → Bool

/-- A client that always writes `data` when there is room for it and accepts
everything. -/
def Payload.ofBytes (data : List Byte) : Payload where
  getData n := if data.length ≤ n then data else []
  getData_le n := by
    split
    · assumption
    · exact Nat.zero_le n
  putData _ := true

variable {data : List Byte} {n : Nat}

theorem Payload.ofBytes_getData (h : data.length ≤ n) : (Payload.ofBytes data).getData n = data :=
  if_pos h

/-- What `loadData` leaves behind.  `pushed` is the argument of the `putData`
call, if there was one. -/
structure Loaded (P : Platform) (χ : Type) where
  chunk : χ
  buffer : WorkBuffer P
  pushed : Option (List Byte)
  result : Bool

/-- What `updateData` leaves behind. -/
structure Updated (P : Platform) (χ ρ : Type) where
  chunk : χ
  buffer : WorkBuffer P
  media : ρ → List Byte
  result : Bool

/-! ## §2. The bytes of a frame. -/

/-- `crcBuffer[0] ^= 0xA5`. -/
def corruptCrc : List Byte → List Byte
  | [] => []
  | b :: bs => (b ^^^ 0xA5#8) :: bs

variable (invalidate : Bool)

/-- The CRC bytes written after `body`. -/
def crcBytes (body : List Byte) : List Byte :=
  let crcBuffer := finalize (accumulate reset body)
  if invalidate then corruptCrc crcBuffer else crcBuffer

/-- The successive writes of one frame: the lead, the data length, the data and
the CRC. -/
def framePieces (P : Platform) (invalidate : Bool) (lead : List (List Byte)) (data : List Byte) :
    List (List Byte) :=
  let body := lead ++ [leBytes P.sizeofSizeT data.length, data]
  body ++ [crcBytes invalidate body.flatten]

/-- The frame as it stands in the region. -/
def frame (P : Platform) (invalidate : Bool) (lead : List (List Byte)) (data : List Byte) :
    List Byte :=
  (framePieces P invalidate lead data).flatten

@[simp] theorem length_crcBytes (body : List Byte) :
    (crcBytes invalidate body).length = 4 := by
  cases invalidate <;> rfl

section

variable (lead : List (List Byte)) (data : List Byte)

/-- The frame cut at the data length: its lead, then the part `readFrame` reads. -/
theorem frame_eq :
    frame P invalidate lead data
      = lead.flatten ++ (leBytes P.sizeofSizeT data.length
          ++ (data ++ crcBytes invalidate
                (lead.flatten ++ (leBytes P.sizeofSizeT data.length ++ data)))) := by
  simp [frame, framePieces]

@[simp] theorem length_frame :
    (frame P invalidate lead data).length
      = lead.flatten.length + P.sizeofSizeT + data.length + 4 := by
  rw [frame_eq]
  simp only [List.length_append, length_leBytes, length_crcBytes]
  omega

/-- The CRC over a whole frame, its own CRC bytes included. -/
theorem isOkay_frame :
    isOkay (accumulate reset (frame P false lead data)) = true := by
  have h := isOkay_appended (lead.flatten ++ (leBytes P.sizeofSizeT data.length ++ data))
  rw [frame_eq]
  simpa [crcBytes] using h

/-- An erased frame never verifies. -/
theorem isOkay_frame_invalidated :
    isOkay (accumulate reset (frame P true lead data)) = false := by
  rw [frame_eq, ← List.append_assoc, ← List.append_assoc, accumulate_append, List.append_assoc]
  exact isOkay_corrupted _

end

/-! ## §3. The read loop. -/

/-- The loop "Read the data AND CRC bytes": it accumulates what each read
returns and stops at the first read that returns nothing.  The destination
pointer is never advanced, so every read lands at the start of the buffer. -/
def readDataAndCrc (rd : Nat → Nat → List Byte) :
    Nat → Nat → Nat → BitVec 32 → WorkBuffer P → BitVec 32 × WorkBuffer P
  | 0, _, _, crc, buf => (crc, buf)
  | fuel + 1, offset, dataRemaining, crc, buf =>
    if dataRemaining = 0 then (crc, buf) else
    let got := rd offset dataRemaining
    if got.length = 0 then (crc, buf) else
    let buf := buf.fill got
    readDataAndCrc rd fuel (offset + got.length) (dataRemaining - got.length)
      (accumulate crc (buf.bytes.take got.length)) buf

section

variable (rd : Nat → Nat → List Byte) (fuel offset n : Nat) (crc : BitVec 32) (buf : WorkBuffer P)

/-- A read that returns everything ends the loop. -/
theorem readDataAndCrc_full (hn : 0 < n) (hfuel : 0 < fuel) (hlen : (rd offset n).length = n)
    (hfit : n ≤ P.workBufferSize) :
    readDataAndCrc rd fuel offset n crc buf
      = (accumulate crc (rd offset n), buf.fill (rd offset n)) := by
  obtain ⟨f, rfl⟩ : ∃ f, fuel = f + 1 := ⟨fuel - 1, by omega⟩
  have htake := buf.take_fill (rd offset n) (by omega)
  unfold readDataAndCrc
  rw [if_neg (by omega), if_neg (by omega)]
  simp only [htake]
  cases f with
  | zero => rfl
  | succ f => rw [readDataAndCrc, if_pos (by omega)]

/-- A read that returns nothing ends it too. -/
theorem readDataAndCrc_none (hnone : rd offset n = []) :
    readDataAndCrc rd fuel offset n crc buf = (crc, buf) := by
  cases fuel with
  | zero => rfl
  | succ f =>
    unfold readDataAndCrc
    simp [hnone]

end

/-! ## §4. Reading a frame. -/

/-- The outcome of `readFrame`; `dataLen` is the length field as read. -/
structure FrameRead (P : Platform) where
  dataLen : Nat
  okay : Bool
  buffer : WorkBuffer P

/-- The part of `loadData` / `getTransactionId` from the data length on. -/
def readFrame (P : Platform) (rd : Nat → Nat → List Byte) (offset : Nat) (crc : BitVec 32)
    (buf : WorkBuffer P) : FrameRead P :=
  let lenBytes := rd offset P.sizeofSizeT
  if lenBytes.length = P.sizeofSizeT then
    let dataLen := ofLeBytes lenBytes
    let dataRemaining := P.sizeAdd dataLen CRC_SIZE
    -- enough buffer space, and the sum did not roll over
    if dataRemaining ≤ P.workBufferSize ∧ dataLen < dataRemaining then
      let r := readDataAndCrc rd dataRemaining (offset + P.sizeofSizeT) dataRemaining
        (accumulate crc lenBytes) buf
      ⟨dataLen, isOkay r.1, r.2⟩
    else ⟨dataLen, false, buf⟩
  else ⟨0, false, buf⟩

/-- The two-part guard of the source is the overflow-free bound. -/
theorem lenGuard_iff (hn : n < P.sizeMod) :
    (P.sizeAdd n 4 ≤ P.workBufferSize ∧ n < P.sizeAdd n 4)
      ↔ n + 4 < P.sizeMod ∧ n + 4 ≤ P.workBufferSize := by
  unfold Platform.sizeAdd
  by_cases hlt : n + 4 < P.sizeMod
  · rw [Nat.mod_eq_of_lt hlt]
    constructor
    · intro h; exact ⟨hlt, h.1⟩
    · intro h; exact ⟨h.2, by omega⟩
  · -- the sum rolled over: it is below `n` again
    have hmod : (n + 4) % P.sizeMod ≤ n := by
      have hge := P.sizeMod_ge
      rw [Nat.mod_eq_sub_mod (by omega), Nat.mod_eq_of_lt (by omega)]
      omega
    constructor
    · intro h; omega
    · intro h; exact absurd h.1 hlt

variable {m : ρ → List Byte} {r : ρ}

/-- A length field that leaves the region is not read. -/
theorem readFrame_noHeader {offset : Nat} (crc : BitVec 32)
    (buf : WorkBuffer P) (h : (m r).length < offset + P.sizeofSizeT) :
    readFrame P (read m r) offset crc buf = ⟨0, false, buf⟩ := by
  have hge := P.sizeofSizeT_ge
  have hno : read m r offset P.sizeofSizeT = [] := read_of_lt h
  have hne : ([] : List Byte).length ≠ P.sizeofSizeT := by
    rw [List.length_nil]
    omega
  simp only [readFrame, hno, if_neg hne]

/-- What `readFrame` finds at `offset`: the length field and, when it passes
the guard and the region is long enough, the bytes it covers. -/
theorem readFrame_eq (m : ρ → List Byte) (r : ρ) (offset : Nat) (crc : BitVec 32)
    (buf : WorkBuffer P) (n : Nat) (hlen : offset + P.sizeofSizeT ≤ (m r).length)
    (hn : ofLeBytes (slice (m r) offset P.sizeofSizeT) = n) :
    readFrame P (read m r) offset crc buf
      = if n + 4 < P.sizeMod ∧ n + 4 ≤ P.workBufferSize then
          if offset + P.sizeofSizeT + n + 4 ≤ (m r).length then
            ⟨n, isOkay (accumulate crc (slice (m r) offset (P.sizeofSizeT + n + 4))),
              buf.fill (slice (m r) (offset + P.sizeofSizeT) (n + 4))⟩
          else ⟨n, isOkay (accumulate crc (slice (m r) offset P.sizeofSizeT)), buf⟩
        else ⟨n, false, buf⟩ := by
  have hl := length_slice (m r) offset P.sizeofSizeT hlen
  have hnlt : n < P.sizeMod := by
    rw [← hn]
    have := ofLeBytes_lt (slice (m r) offset P.sizeofSizeT)
    rwa [hl] at this
  unfold readFrame
  simp only [read_of_le hlen, hl, if_true, hn]
  by_cases hg : n + 4 < P.sizeMod ∧ n + 4 ≤ P.workBufferSize
  · rw [if_pos ((lenGuard_iff hnlt).mpr hg), if_pos hg, Platform.sizeAdd_of_lt hg.1]
    by_cases hroom : offset + P.sizeofSizeT + n + 4 ≤ (m r).length
    · have hin : offset + P.sizeofSizeT + (n + 4) ≤ (m r).length := by omega
      rw [if_pos hroom, readDataAndCrc_full _ _ _ _ _ _ (by omega) (by omega)
        (length_read_of_le hin) hg.2, read_of_le hin, ← accumulate_append,
        slice_append_slice, Nat.add_assoc]
    · rw [if_neg hroom, readDataAndCrc_none _ _ _ _ _ _ (read_of_lt (by omega))]
  · rw [if_neg (fun h => hg ((lenGuard_iff hnlt).mp h)), if_neg hg]

variable {off : Nat} {inv : Bool} {lead : List (List Byte)}

section

variable {s : List Byte} (h : slice s off (frame P inv lead data).length = frame P inv lead data)

include h

/-- A stored frame lies inside its region. -/
theorem frame_le :
    off + (lead.flatten.length + P.sizeofSizeT + data.length + 4) ≤ s.length := by
  have hle := length_le_of_slice_eq h
  rw [length_frame] at hle
  exact hle (by omega)

/-- The part of a stored frame after its lead, as slices of the region. -/
theorem slices_of_frame :
    slice s off lead.flatten.length = lead.flatten
    ∧ slice s (off + lead.flatten.length) P.sizeofSizeT = leBytes P.sizeofSizeT data.length
    ∧ slice s (off + lead.flatten.length + P.sizeofSizeT) (data.length + 4)
        = data ++ crcBytes inv (lead.flatten ++ (leBytes P.sizeofSizeT data.length ++ data)) := by
  have hbound := frame_le h
  have hlen : (frame P inv lead data).length
      = lead.flatten.length + (P.sizeofSizeT + (data.length + 4)) := by
    rw [length_frame]
    omega
  rw [hlen, frame_eq, ← slice_append_slice, ← slice_append_slice] at h
  obtain ⟨h1, h2⟩ := List.append_inj h (length_slice _ _ _ (by omega))
  obtain ⟨h2, h3⟩ := List.append_inj h2 (by rw [length_slice _ _ _ (by omega), length_leBytes])
  exact ⟨h1, h2, h3⟩

end

/-- The length field fits a `size_t` whenever the guard lets the frame through. -/
theorem ofLeBytes_dataLen (h : n + 4 < P.sizeMod) : ofLeBytes (leBytes P.sizeofSizeT n) = n :=
  ofLeBytes_leBytes_of_lt _ _ (show n < 256 ^ P.sizeofSizeT from Nat.lt_of_le_of_lt (by omega) h)

/-- **A stored frame reads back**: its data arrives at the start of the work
buffer, followed by the CRC bytes, and the verdict is that it was not erased. -/
theorem readFrame_frame (buf : WorkBuffer P)
    (h : slice (m r) off (frame P inv lead data).length = frame P inv lead data)
    (hfit : data.length + 4 ≤ P.workBufferSize) (hlt : data.length + 4 < P.sizeMod) :
    readFrame P (read m r) (off + lead.flatten.length) (accumulate reset lead.flatten) buf
      = ⟨data.length, !inv, buf.fill (data ++ crcBytes inv
          (lead.flatten ++ (leBytes P.sizeofSizeT data.length ++ data)))⟩ := by
  obtain ⟨h1, h2, h3⟩ := slices_of_frame h
  have hroom := frame_le h
  have hok : isOkay (accumulate reset (frame P inv lead data)) = !inv := by
    cases inv with
    | false => exact isOkay_frame lead data
    | true => exact isOkay_frame_invalidated lead data
  have hbytes : accumulate (accumulate reset lead.flatten)
      (slice (m r) (off + lead.flatten.length) (P.sizeofSizeT + data.length + 4))
      = accumulate reset (frame P inv lead data) := by
    rw [Nat.add_assoc P.sizeofSizeT, ← slice_append_slice, h2, h3, ← accumulate_append, frame_eq]
  rw [readFrame_eq m r _ _ buf data.length (by omega) (by rw [h2, ofLeBytes_dataLen hlt]),
      if_pos ⟨hlt, hfit⟩, if_pos (by omega), hbytes, hok, h3]

/-- A frame whose length the work buffer cannot take is refused, however it was
written. -/
theorem readFrame_oversize (crc : BitVec 32) (buf : WorkBuffer P)
    (h : slice (m r) off (frame P inv lead data).length = frame P inv lead data)
    (hlt : data.length + 4 < P.sizeMod) (hbig : P.workBufferSize < data.length + 4) :
    (readFrame P (read m r) (off + lead.flatten.length) crc buf).okay = false := by
  have hroom := frame_le h
  rw [readFrame_eq m r _ _ buf data.length (by omega)
      (by rw [(slices_of_frame h).2.1, ofLeBytes_dataLen hlt]), if_neg (by omega)]

end ColonyCore.Persistent
