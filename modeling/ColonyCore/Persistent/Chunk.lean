/-
  ColonyCore.Persistent.Chunk
  **THE CHUNK INTERFACE (`Cpl/Persistent/Chunk.h`) AND ITS TWO IMPLEMENTATIONS.**

  A client of a chunk does not know which one it has.  What it may rely on is
  stated here once for both, over media that hold a valid frame (`Stored`):

    • `loadData_stored`    — a load hands the frame's data over and remembers its
      LENGTH,
    • `updateData_refused` — an update offers the record that many bytes; a record
      that needs more leaves the media as they are,
    • `updateData_stored`  — a record that fits is a valid frame afterwards.
-/
import ColonyCore.Persistent.CrcChunk
import ColonyCore.Persistent.MirroredChunk

namespace ColonyCore.Persistent

open ByteStore LittleEndian

/-- The chunk handlers. -/
inductive Chunk (ρ : Type) where
  | crc (c : CrcChunk ρ)
  | mirrored (c : MirroredChunk ρ)

namespace Chunk

variable {P : Platform} {ρ : Type}

/-! ## §1. The interface. -/

/-- `m_dataLen`. -/
def dataLen : Chunk ρ → Nat
  | .crc c => c.dataLen
  | .mirrored c => c.dataLen

/-- `Chunk::getMetadataLength`. -/
def getMetadataLength (P : Platform) : Chunk ρ → Nat
  | .crc _ => CrcChunk.getMetadataLength P
  | .mirrored _ => MirroredChunk.getMetadataLength P

/-- The regions of a chunk. -/
def regions : Chunk ρ → List ρ
  | .crc c => [c.region]
  | .mirrored c => [c.regionA, c.regionB]

/-- `Chunk::start`; `none` is a failed assertion. -/
def start (P : Platform) (m : ρ → List Byte) : Chunk ρ → Option (Chunk ρ)
  | .crc c => some (.crc (c.start P m))
  | .mirrored c => (c.start m).map .mirrored

/-- `Chunk::loadData` at index 0; `none` is a failed assertion. -/
def loadData (P : Platform) (m : ρ → List Byte) (dst : Payload) (buf : WorkBuffer P) :
    Chunk ρ → Option (Loaded P (Chunk ρ))
  | .crc c =>
    let l := c.loadData P m dst 0 buf
    some ⟨.crc l.chunk, l.buffer, l.pushed, l.result⟩
  | .mirrored c =>
    (c.loadData P m dst 0 buf).map fun l => ⟨.mirrored l.chunk, l.buffer, l.pushed, l.result⟩

section Update

variable [DecidableEq ρ]

/-- `Chunk::updateData` at index 0 when no region write fails. -/
def updateData (P : Platform) (m : ρ → List Byte) (src : Payload) :
    Chunk ρ → Option (Updated P (Chunk ρ) ρ)
  | .crc c =>
    (c.updateData P m src 0 false []).map fun u => ⟨.crc u.chunk, u.buffer, u.media, u.result⟩
  | .mirrored c =>
    (c.updateData P m src 0 false [] []).map fun u =>
      ⟨.mirrored u.chunk, u.buffer, u.media, u.result⟩

end Update

/-- What construction fixes: the kind of the handler and its regions. -/
def layout : Chunk ρ → Bool × List ρ
  | .crc c => (false, [c.region])
  | .mirrored c => (true, [c.regionA, c.regionB])

/-- An update may follow: a mirrored chunk has a current region. -/
def Updatable : Chunk ρ → Prop
  | .crc _ => True
  | .mirrored c => ∃ r, c.currentRegion = some r ∧ (r = c.regionA ∨ r = c.regionB)

/-! ## §2. Valid media. -/

/-- A region starts with this frame. -/
def FrameAt (s frame : List Byte) : Prop := slice s 0 frame.length = frame

instance (s frame : List Byte) : Decidable (FrameAt s frame) :=
  inferInstanceAs (Decidable (_ = _))

/-- **The media hold a valid frame**, and a load hands `q` over.  For two mirrors
the newer one counts; A's bytes are overwritten by whatever B yields, because both
are read into one work buffer. -/
def Stored (P : Platform) (m : ρ → List Byte) : Chunk ρ → List Byte → Prop
  | .crc c, q =>
    FrameAt (m c.region) (CrcChunk.frameOf P false q)
      ∧ q.length + 4 ≤ P.workBufferSize ∧ q.length + 4 < P.sizeMod
  | .mirrored c, q =>
    let a := MirroredChunk.peek P (m c.regionA) 0
    let b := MirroredChunk.peek P (m c.regionB) 0
    ∃ id data, 0 < id ∧ id < 2 ^ 64
      ∧ data.length + 4 ≤ P.workBufferSize ∧ data.length + 4 < P.sizeMod
      ∧ ((FrameAt (m c.regionA) (MirroredChunk.frameOf P false id data) ∧ b.transId < id
            ∧ q = overlay data 0 (b.got.take data.length))
        ∨ (FrameAt (m c.regionB) (MirroredChunk.frameOf P false id data) ∧ a.transId ≤ id
            ∧ q = data))

/-- The record and the chunk's own bytes have room in every region and in the
work buffer. -/
def HasRoom (P : Platform) (m : ρ → List Byte) (c : Chunk ρ) (recordSize : Nat) : Prop :=
  recordSize + c.getMetadataLength P ≤ P.workBufferSize
    ∧ ∀ r ∈ c.regions, recordSize + c.getMetadataLength P ≤ (m r).length
        ∧ (m r).length < P.sizeMod

variable {m : ρ → List Byte} {c c' : Chunk ρ}

theorem Stored.congr {q : List Byte}
    (h : c.Stored P m q) (hsame : c.layout = c'.layout) : c'.Stored P m q := by
  cases c with
  | crc c =>
    cases c' with
    | crc c' =>
      simp only [layout, Prod.mk.injEq, List.cons.injEq, and_true, true_and] at hsame
      simp only [Stored] at h ⊢
      rwa [← hsame]
    | mirrored c' => cases hsame
  | mirrored c =>
    cases c' with
    | crc c' => cases hsame
    | mirrored c' =>
      simp only [layout, Prod.mk.injEq, List.cons.injEq, and_true, true_and] at hsame
      simp only [Stored] at h ⊢
      rwa [← hsame.1, ← hsame.2]

theorem HasRoom.congr {n : Nat}
    (h : c.HasRoom P m n) (hsame : c.layout = c'.layout) : c'.HasRoom P m n := by
  have hregions : ∀ c : Chunk ρ, c.regions = c.layout.2 := by
    intro c
    cases c
    · rfl
    · rfl
  have hmeta : ∀ c : Chunk ρ, c.getMetadataLength P
      = if c.layout.1 then MirroredChunk.getMetadataLength P else CrcChunk.getMetadataLength P := by
    intro c
    cases c
    · rfl
    · rfl
  unfold HasRoom at h ⊢
  rwa [hregions, hmeta, ← hsame, ← hregions, ← hmeta]

theorem start_layout (h : c.start P m = some c') : c.layout = c'.layout := by
  cases c with
  | crc c =>
    cases h
    rfl
  | mirrored c =>
    simp only [start, MirroredChunk.start] at h
    by_cases heq : (m c.regionA).length = (m c.regionB).length
    · rw [if_pos heq] at h
      cases h
      rfl
    · rw [if_neg heq] at h
      cases h

/-- Whether a chunk starts depends on the lengths of its regions. -/
theorem start_of_length {m' : ρ → List Byte} (h : c.start P m = some c')
    (hlen : ∀ r, (m' r).length = (m r).length) : c.start P m' = some c' := by
  cases c with
  | crc c =>
    simp only [start, CrcChunk.start, hlen] at h ⊢
    exact h
  | mirrored c =>
    simp only [start, MirroredChunk.start, hlen] at h ⊢
    exact h

/-! ## §3. Loading and updating. -/

/-- A frame inside a region is no longer than the region. -/
theorem FrameAt.length_le {s frame : List Byte} (h : FrameAt s frame) :
    frame.length ≤ s.length := by
  have hl := congrArg List.length h
  rw [slice, List.length_take, List.length_drop] at hl
  omega

/-- **A load of valid media** hands the data over, and its length is what the
next update will offer. -/
theorem loadData_stored {q : List Byte} (h : c.Stored P m q) (dst : Payload) (buf : WorkBuffer P) :
    ∃ c' buf', c.loadData P m dst buf = some ⟨c', buf', some q, dst.putData q⟩
      ∧ c'.dataLen = q.length ∧ c.layout = c'.layout ∧ c'.Updatable := by
  cases c with
  | crc c =>
    obtain ⟨hframe, hfit, hlt⟩ := h
    obtain ⟨buf', hload⟩ := CrcChunk.loadData_frame dst buf hframe hfit hlt
    refine ⟨.crc { c with dataLen := q.length }, buf', ?_, rfl, rfl, trivial⟩
    simp [loadData, hload]
  | mirrored c =>
    obtain ⟨id, data, hpos, hid, hfit, hlt, hside⟩ := h
    rcases hside with ⟨hframe, hnewer, rfl⟩ | ⟨hframe, holder, rfl⟩
    · -- region A is newer; B's bytes lie over its own in the buffer
      have hroom := hframe.length_le
      rw [length_frame] at hroom
      obtain ⟨buf', hload⟩ := MirroredChunk.loadData_regionA dst buf
        (MirroredChunk.peek_frame hframe hfit hlt hid) hnewer (by omega)
      refine ⟨.mirrored { c with currentRegion := some c.regionA, transId := id,
                                 dataLen := data.length }, buf', ?_, ?_, rfl,
        c.regionA, rfl, .inl rfl⟩
      · simp [loadData, hload]
      · refine (length_overlay _ _ _ ?_).symm
        rw [List.length_take]
        omega
    · have hroom := hframe.length_le
      rw [length_frame] at hroom
      obtain ⟨buf', hload⟩ := MirroredChunk.loadData_regionB dst buf
        (MirroredChunk.peek_frame hframe hfit hlt hid) hpos holder (by omega)
      refine ⟨.mirrored { c with currentRegion := some c.regionB, transId := id,
                                 dataLen := q.length }, buf', ?_, rfl, rfl,
        c.regionB, rfl, .inr rfl⟩
      simp [loadData, hload]

/-- Both mirrors hold the same data: whichever is newer, a load hands it over.
The ids are consecutive, so one of them is not 0 even when `m_transId` wraps. -/
theorem stored_of_mirrors {c : MirroredChunk ρ} {ida idb : Nat} {data : List Byte}
    (hA : FrameAt (m c.regionA) (MirroredChunk.frameOf P false ida data))
    (hB : FrameAt (m c.regionB) (MirroredChunk.frameOf P false idb data)) (hida : ida < 2 ^ 64)
    (hidb : idb < 2 ^ 64) (hone : ida ≠ idb) (hfit : data.length + 4 ≤ P.workBufferSize)
    (hlt : data.length + 4 < P.sizeMod) : (Chunk.mirrored c).Stored P m data := by
  have hpA := MirroredChunk.peek_frame hA hfit hlt hida
  have hpB := MirroredChunk.peek_frame hB hfit hlt hidb
  simp only [Stored, hpA, hpB]
  by_cases hnewer : idb < ida
  · refine ⟨ida, data, by omega, hida, hfit, hlt, .inl ⟨hA, hnewer, ?_⟩⟩
    rw [List.take_left]
    exact (overlay_full rfl).symm
  · exact ⟨idb, data, by omega, hidb, hfit, hlt, .inr ⟨hB, by omega, rfl⟩⟩

section UpdateSpec

variable [DecidableEq ρ] {m : ρ → List Byte} {c : Chunk ρ} {src : Payload}

/-- **A record that refuses to write** fails the update and leaves the media. -/
theorem updateData_refused (hc : c.Updatable) (hrefuse : src.getData c.dataLen = []) :
    c.updateData P m src = some ⟨c, WorkBuffer.zero P, m, false⟩ := by
  cases c with
  | crc c =>
    have hrefuse : src.getData c.dataLen = [] := hrefuse
    simp [updateData, CrcChunk.updateData, hrefuse]
  | mirrored c =>
    obtain ⟨r, hcur, -⟩ := hc
    have hrefuse : src.getData c.dataLen = [] := hrefuse
    simp [updateData, MirroredChunk.updateData, hcur, hrefuse]

variable {data : List Byte}

/-- The update of a CRC chunk. -/
theorem crc_updateData_stored {c : CrcChunk ρ} (hdata : src.getData c.dataLen = data)
    (hne : 0 < data.length) (hroom : (Chunk.crc c).HasRoom P m data.length) :
    ∃ c' buf' m', (Chunk.crc c).updateData P m src = some ⟨c', buf', m', true⟩
      ∧ (Chunk.crc c).Stored P m' data ∧ ∀ r, (m' r).length = (m r).length := by
  obtain ⟨hbuf, hreg⟩ := hroom
  obtain ⟨hlen, hlt⟩ := hreg c.region (List.mem_singleton.mpr rfl)
  change data.length + (P.sizeofSizeT + 4) ≤ _ at hbuf hlen
  have hframe : 0 + (CrcChunk.frameOf P false data).length ≤ (m c.region).length := by
    rw [length_frame]
    simp only [List.flatten_nil, List.length_nil]
    omega
  have hupd := CrcChunk.updateData_ok c m src 0 hdata hne (by omega) hframe
  refine ⟨.crc { c with dataLen := data.length }, (WorkBuffer.zero P).fill data,
    Function.update m c.region (overlay (m c.region) 0 (CrcChunk.frameOf P false data)),
    ?_, ⟨?_, by omega, by omega⟩, ?_⟩
  · rw [updateData, hupd]
    rfl
  · rw [Function.update_self]
    exact slice_overlay_self _ _ _ hframe
  · intro r
    by_cases hr : r = c.region
    · subst hr
      rw [Function.update_self, length_overlay _ _ _ hframe]
    · rw [Function.update_of_ne hr]

/-- The update of a mirrored chunk: the same data under two consecutive ids. -/
theorem mirrored_updateData_stored {c : MirroredChunk ρ}
    (hc : (Chunk.mirrored c).Updatable) (hdata : src.getData c.dataLen = data)
    (hne : 0 < data.length) (hroom : (Chunk.mirrored c).HasRoom P m data.length) :
    ∃ c' buf' m', (Chunk.mirrored c).updateData P m src = some ⟨c', buf', m', true⟩
      ∧ (Chunk.mirrored c).Stored P m' data ∧ ∀ r, (m' r).length = (m r).length := by
  obtain ⟨current, hcur, hside⟩ := hc
  obtain ⟨hbuf, hreg⟩ := hroom
  obtain ⟨hlenA, hltA⟩ := hreg c.regionA (by simp [regions])
  obtain ⟨hlenB, -⟩ := hreg c.regionB (by simp [regions])
  change data.length + MirroredChunk.FRAME_OVERHEAD P ≤ _ at hbuf hlenA hlenB
  have hover := MirroredChunk.FRAME_OVERHEAD_eq P
  obtain ⟨c', buf', m', ida, idb, hupd, -, hlen, hida, hidb, hne', hA, hB⟩ :=
    MirroredChunk.updateData_mirrors (P := P) (m := m) hcur hside hdata hne (by omega)
      (show 0 + _ ≤ _ by omega) (show 0 + _ ≤ _ by omega)
  refine ⟨.mirrored c', buf', m', ?_, ?_, hlen⟩
  · rw [updateData, hupd]
    rfl
  · exact stored_of_mirrors hA hB hida hidb hne' (by omega) (by omega)

/-- **A record that fits**: the update succeeds, the media hold its frame, and
no region changes its length. -/
theorem updateData_stored (hc : c.Updatable) (hdata : src.getData c.dataLen = data)
    (hne : 0 < data.length) (hroom : c.HasRoom P m data.length) :
    ∃ c' buf' m', c.updateData P m src = some ⟨c', buf', m', true⟩
      ∧ c.Stored P m' data ∧ ∀ r, (m' r).length = (m r).length := by
  cases c with
  | crc c => exact crc_updateData_stored hdata hne hroom
  | mirrored c => exact mirrored_updateData_stored hc hdata hne hroom

end UpdateSpec

end Chunk

end ColonyCore.Persistent
