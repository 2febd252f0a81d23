/-
  ColonyCore.Persistent.ChunkBounds
  **WHAT A CHUNK MAY ASK OF ITS RECORD, AND WHERE IT WRITES
  (`Cpl/Persistent/CrcChunk.cpp`, `MirroredChunk.cpp`).**

  `updateData` lets the record write up to `m_dataLen` bytes into the work buffer,
  and stores what it gets as a frame.  So `m_dataLen` has to respect TWO bounds: the
  work buffer, and the region.  It is set in three places: by `start` (or a load
  without valid data) from the region's length, by `loadData` from the media, and by
  `updateData` from the record.

    • `inBounds_iff`        — the two bounds, as a condition on `m_dataLen`,
    • `start_inBounds`, `loadData_inBounds`, `updateData_inBounds` — one call,
    • `chunk_bounds_iff`    — a run of calls is in bounds at every moment EXACTLY when
      each call meets its condition,
    • `longRegion_overruns` — a region longer than the work buffer.
-/
import ColonyCore.Lib.Interleaving
import ColonyCore.Persistent.Chunk

namespace ColonyCore.Persistent

open ByteStore LittleEndian Checksum.Crc32EthernetFast Interleaving List Option
open MirroredChunk (peek FRAME_OVERHEAD)

variable {P : Platform} {ρ : Type} [DecidableEq ρ]

/-! ## §1. Sessions with a chunk. -/

/-- A chunk, its media and the work buffer. -/
structure Session (P : Platform) (ρ : Type) where
  chunk : Chunk ρ
  media : ρ → List Byte
  buffer : WorkBuffer P

/-- The calls of a chunk's client.  The fates are those of the region writes (of the
second mirror: `fates2`). -/
inductive ChunkCall where
  | start
  | loadData (dst : Payload) (index : Nat)
  | updateData (src : Payload) (index : Nat) (invalidate : Bool) (fates1 fates2 : List Fate)

namespace Session

/-- One call; `none` is a failed assertion, or a record that overran the work
buffer. -/
def call (s : Session P ρ) : ChunkCall → Option (Session P ρ)
  | .start => (s.chunk.start P s.media).map fun c => { s with chunk := c }
  | .loadData dst index =>
    match s.chunk with
    | .crc c =>
      let l := c.loadData P s.media dst index s.buffer
      some { s with chunk := .crc l.chunk, buffer := l.buffer }
    | .mirrored c =>
      (c.loadData P s.media dst index s.buffer).map fun l =>
        { s with chunk := .mirrored l.chunk, buffer := l.buffer }
  | .updateData src index invalidate fates1 fates2 =>
    match s.chunk with
    | .crc c =>
      (c.updateData P s.media src index invalidate fates1).map fun u =>
        ⟨.crc u.chunk, u.media, u.buffer⟩
    | .mirrored c =>
      (c.updateData P s.media src index invalidate fates1 fates2).map fun u =>
        ⟨.mirrored u.chunk, u.media, u.buffer⟩

/-- The region writes of `updateData( src, 0, invalidate )`. -/
def updateWrites (s : Session P ρ) (src : Payload) (invalidate : Bool) : List (Write Byte ρ) :=
  match s.chunk with
  | .crc c =>
    let data := src.getData c.dataLen
    let data' := if invalidate then replicate data.length 0#8 else data
    if data.length = 0 then [] else pieceWrites c.region 0 (framePieces P invalidate [] data')
  | .mirrored c =>
    let data := src.getData c.dataLen
    let data' := if invalidate then replicate data.length 0#8 else data
    match c.currentRegion with
    | none => []
    | some current =>
      if data.length = 0 then [] else MirroredChunk.updateWrites P c current invalidate data' 0

/-- **The two bounds**: the record is never offered more than the work buffer
holds, and every byte an update at index 0 writes lies inside its region. -/
def InBounds (s : Session P ρ) : Prop :=
  s.chunk.dataLen ≤ P.workBufferSize
    ∧ ∀ (src : Payload) (invalidate : Bool), ∀ w ∈ s.updateWrites src invalidate,
        w.offset + w.data.length ≤ (s.media w.region).length

variable {s s' : Session P ρ} {src : Payload} {invalidate : Bool}

/-! ## §2. The bounds, as a condition on `m_dataLen`. -/

/-- A chunk after `start`: the regions of two mirrors have one length, and the
current one is not selected yet or one of the two.  Region lengths are `size_t`
values. -/
def Started (s : Session P ρ) : Prop :=
  (∀ r, (s.media r).length < P.sizeMod) ∧
  match s.chunk with
  | .crc _ => True
  | .mirrored c => (s.media c.regionA).length = (s.media c.regionB).length
      ∧ (c.currentRegion = none ∧ c.dataLen = 0
        ∨ ∃ q, c.currentRegion = some q ∧ (q = c.regionA ∨ q = c.regionB))

/-- The length of the chunk's regions. -/
def regionLength (s : Session P ρ) : Nat :=
  match s.chunk with
  | .crc c => (s.media c.region).length
  | .mirrored c => (s.media c.regionA).length

/-- Erasing a record writes as many bytes. -/
theorem length_erased (invalidate : Bool) (data : List Byte) :
    (if invalidate then replicate data.length 0#8 else data).length = data.length := by
  cases invalidate
  · rfl
  · simp

omit [DecidableEq ρ] in
/-- The writes of one frame lie inside the region exactly when the frame fits. -/
theorem framePieces_fit_iff (m : ρ → List Byte) (r : ρ) (invalidate : Bool)
    (lead : List (List Byte)) (data : List Byte) :
    (∀ w ∈ pieceWrites r 0 (framePieces P invalidate lead data),
        w.offset + w.data.length ≤ (m w.region).length)
      ↔ lead.flatten.length + P.sizeofSizeT + data.length + 4 ≤ (m r).length := by
  have hne : framePieces P invalidate lead data ≠ [] := by simp [framePieces]
  have hiff := pieceWrites_fits_iff m r hne 0
  rw [Nat.zero_add, show (framePieces P invalidate lead data).flatten
    = frame P invalidate lead data from rfl, length_frame] at hiff
  exact hiff

omit [DecidableEq ρ] in
/-- A record may use all of the `n` bytes it is offered: the writes `ws` of whatever it
returns fit exactly if those of `n` bytes do. -/
theorem offered_fit_iff {m : ρ → List Byte} (ws : Bool → List Byte → List (Write Byte ρ))
    {n extra len : Nat} (hws : ∀ invalidate data, (∀ w ∈ ws invalidate data,
      w.offset + w.data.length ≤ (m w.region).length) ↔ extra + data.length ≤ len) :
    (∀ (src : Payload) (invalidate : Bool), ∀ w ∈ (if (src.getData n).length = 0 then []
        else ws invalidate (if invalidate then replicate (src.getData n).length 0#8
          else src.getData n)), w.offset + w.data.length ≤ (m w.region).length)
      ↔ n = 0 ∨ extra + n ≤ len := by
  constructor
  · intro h
    by_cases h0 : n = 0
    · exact .inl h0
    · -- the record that fills the space it is offered
      have hfull : (Payload.ofBytes (replicate n 0#8)).getData n = replicate n 0#8 :=
        Payload.ofBytes_getData (by rw [length_replicate])
      have hw := h (.ofBytes (replicate n 0#8)) false
      simp only [hfull, length_replicate, if_neg h0, Bool.false_eq_true, if_false] at hw
      rw [hws, length_replicate] at hw
      exact .inr hw
  · intro h src invalidate w hw
    have hle := src.getData_le n
    split at hw
    · cases hw
    next hdata =>
      refine (hws invalidate _).mpr ?_ w hw
      rw [length_erased]
      omega

/-- **The bounds, read off `m_dataLen`**: a record may use all it is offered. -/
theorem inBounds_iff (hs : s.Started) :
    s.InBounds ↔ s.chunk.dataLen ≤ P.workBufferSize
      ∧ (s.chunk.dataLen = 0 ∨ s.chunk.getMetadataLength P + s.chunk.dataLen ≤ s.regionLength) := by
  obtain ⟨chunk, media, buffer⟩ := s
  refine and_congr_right fun _ => ?_
  cases chunk with
  | crc c =>
    refine offered_fit_iff (fun invalidate data => pieceWrites c.region 0
      (framePieces P invalidate [] data)) fun invalidate data => ?_
    rw [framePieces_fit_iff media]
    simp only [flatten_nil, length_nil, Chunk.getMetadataLength,
      CrcChunk.getMetadataLength, CrcChunk.FRAME_OVERHEAD, CRC_SIZE, regionLength]
    omega
  | mirrored c =>
    obtain ⟨-, hlens, hcur⟩ := hs
    simp only [updateWrites, Chunk.dataLen, Chunk.getMetadataLength,
      MirroredChunk.getMetadataLength, regionLength] at hlens hcur ⊢
    rcases hcur with ⟨hnone, h0⟩ | ⟨q, hq, hAB⟩
    · simp [hnone, h0]
    · rw [hq]
      refine offered_fit_iff (MirroredChunk.updateWrites P c q · · 0) fun invalidate data => ?_
      have hother : ∀ r, (media (c.otherRegion r)).length = (media c.regionA).length := by
        intro r
        unfold MirroredChunk.otherRegion
        split
        · exact hlens.symm
        · rfl
      have hone : ∀ r id, (∀ w ∈ MirroredChunk.mirrorWrites P invalidate (c.otherRegion r) id data 0,
            w.offset + w.data.length ≤ (media w.region).length)
          ↔ FRAME_OVERHEAD P + data.length ≤ (media c.regionA).length := by
        intro r id
        unfold MirroredChunk.mirrorWrites
        rw [framePieces_fit_iff, hother, MirroredChunk.FRAME_OVERHEAD_eq]
        simp only [flatten_cons, flatten_nil, append_nil, length_leBytes,
          sizeofUint64]
        omega
      simp only [MirroredChunk.updateWrites, forall_mem_append, hone, and_self]

/-! ## §3. One call. -/

/-- A length the chunk may remember: the record gets nothing, or its frame fits the
region. -/
def LengthFits (s : Session P ρ) (n : Nat) : Prop :=
  n = 0 ∨ s.chunk.getMetadataLength P + n ≤ s.regionLength

/-- **The condition on a call**, a condition on the region's length and on the media:
`start` of a CRC chunk, and a load of two mirrors without valid data, take the
length from the region; a load that accepts a frame takes it from the frame.  (A
frame that leaves its region is accepted when its header alone passes the CRC; two
mirrors stop at an assertion if its length even exceeds the region.) -/
def Meets (s : Session P ρ) : ChunkCall → Prop
  | .start =>
    match s.chunk with
    | .crc _ => CrcChunk.FRAME_OVERHEAD P ≤ s.regionLength
        ∧ s.regionLength ≤ P.workBufferSize + CrcChunk.FRAME_OVERHEAD P
    | .mirrored _ => True
  | .loadData _ index =>
    match s.chunk with
    | .crc c => CrcChunk.crcOkay P (s.media c.region) index = true →
        s.LengthFits (ofLeBytes (slice (s.media c.region) index P.sizeofSizeT))
    | .mirrored c =>
      let a := peek P (s.media c.regionA) index
      let b := peek P (s.media c.regionB) index
      if a.transId = 0 ∧ b.transId = 0 then
        s.regionLength ≤ P.workBufferSize + MirroredChunk.FRAME_OVERHEAD P
      else
        let n := if b.transId < a.transId then a.dataLen else b.dataLen
        s.LengthFits n ∨ s.regionLength < n
  | .updateData .. => True

omit [DecidableEq ρ] in
/-- What an accepted CRC frame announces passed the guard of the work buffer. -/
theorem readFrame_dataLen (m : ρ → List Byte) (r : ρ) (index : Nat) (buf : WorkBuffer P)
    (h : (readFrame P (read m r) index reset buf).okay = true) :
    (readFrame P (read m r) index reset buf).dataLen = ofLeBytes (slice (m r) index P.sizeofSizeT)
      ∧ ofLeBytes (slice (m r) index P.sizeofSizeT) ≤ P.workBufferSize := by
  by_cases hlen : index + P.sizeofSizeT ≤ (m r).length
  · rw [readFrame_eq m r index reset buf _ hlen rfl] at h ⊢
    split at h
    next hg =>
      rw [if_pos hg]
      split
      · exact ⟨rfl, by omega⟩
      · exact ⟨rfl, by omega⟩
    next => cases h
  · rw [readFrame_noHeader _ _ (Nat.not_le.mp hlen)] at h
    cases h

variable {index : Nat}

/-- So did the length an accepted mirror announces. -/
theorem peek_dataLen {s : List Byte} (h : (peek P s index).transId ≠ 0) :
    (peek P s index).dataLen ≤ P.workBufferSize := by
  unfold peek at h ⊢
  simp only at h ⊢
  split_ifs at h ⊢
  any_goals exact absurd rfl h
  all_goals
    show ofLeBytes _ ≤ _
    omega

/-- `start` leaves a started chunk. -/
theorem start_started (hsize : ∀ r, (s.media r).length < P.sizeMod)
    (h : s.call .start = some s') : s'.Started := by
  obtain ⟨chunk, media, buffer⟩ := s
  obtain ⟨c', hc, rfl⟩ := map_eq_some_iff.mp h
  refine ⟨hsize, ?_⟩
  cases chunk with
  | crc c =>
    cases hc
    trivial
  | mirrored c =>
    obtain ⟨c'', hc'', rfl⟩ := map_eq_some_iff.mp hc
    unfold MirroredChunk.start at hc''
    split at hc''
    next hlens =>
      cases hc''
      exact ⟨hlens, .inl ⟨rfl, rfl⟩⟩
    next => cases hc''

/-- **`start`**, also of a chunk whose members hold anything. -/
theorem start_inBounds (hsize : ∀ r, (s.media r).length < P.sizeMod) :
    (∀ s', s.call .start = some s' → s'.InBounds) ↔ s.Meets .start := by
  have hstarted : ∀ s', s.call .start = some s' → s'.Started := fun s' h => start_started hsize h
  obtain ⟨chunk, media, buffer⟩ := s
  cases chunk with
  | crc c =>
    have hcall : (⟨.crc c, media, buffer⟩ : Session P ρ).call .start = some
        ⟨.crc ⟨c.region, P.sizeSub (media c.region).length (CrcChunk.FRAME_OVERHEAD P)⟩, media, buffer⟩ := rfl
    have hP := P.sizeofSizeT_add_lt
    have hover : CrcChunk.FRAME_OVERHEAD P = P.sizeofSizeT + 4 := rfl
    have hlt : (media c.region).length < P.sizeMod := hsize c.region
    simp only [hcall, some.injEq, forall_eq', inBounds_iff (hstarted _ hcall), Meets, regionLength,
      Chunk.dataLen, Chunk.getMetadataLength, CrcChunk.getMetadataLength]
    by_cases hle : CrcChunk.FRAME_OVERHEAD P ≤ (media c.region).length
    · rw [Platform.sizeSub_of_le hle hlt]
      omega
    · -- the difference wraps: it is greater than the region
      have hwrap := Platform.lt_sizeSub (Nat.not_le.mp hle) (show CrcChunk.FRAME_OVERHEAD P < P.sizeMod by omega)
      omega
  | mirrored c =>
    refine ⟨fun _ => trivial, fun _ s' h => ?_⟩
    rw [inBounds_iff (hstarted s' h)]
    obtain ⟨c', hc, rfl⟩ := map_eq_some_iff.mp h
    obtain ⟨c'', hc'', rfl⟩ := map_eq_some_iff.mp hc
    unfold MirroredChunk.start at hc''
    split at hc''
    next hlens =>
      cases hc''
      exact ⟨Nat.zero_le _, .inl rfl⟩
    next => cases hc''

/-- What a load makes of a chunk: as it was, or a new length, and for two mirrors a
current region. -/
theorem loadData_cases {dst : Payload} (h : s.call (.loadData dst index) = some s') :
    s'.media = s.media ∧ ((∃ c, s.chunk = .crc c ∧ ∃ n, s'.chunk = .crc { c with dataLen := n })
      ∨ ∃ c, s.chunk = .mirrored c ∧ ∃ q id n, (q = c.regionA ∨ q = c.regionB)
          ∧ s'.chunk = .mirrored { c with currentRegion := some q, transId := id, dataLen := n }) := by
  obtain ⟨chunk, media, buffer⟩ := s
  cases chunk with
  | crc c =>
    cases h
    refine ⟨rfl, .inl ⟨c, rfl, ?_⟩⟩
    unfold CrcChunk.loadData CrcChunk.loadDataFrom
    simp only
    split
    · exact ⟨_, rfl⟩
    · exact ⟨c.dataLen, rfl⟩
  | mirrored c =>
    obtain ⟨l, hl, rfl⟩ := map_eq_some_iff.mp h
    refine ⟨rfl, .inr ⟨c, rfl, ?_⟩⟩
    unfold MirroredChunk.loadData MirroredChunk.loadDataFrom MirroredChunk.pushToRecord at hl
    simp only at hl
    split at hl
    · split at hl
      · cases hl
        exact ⟨_, _, _, .inl rfl, rfl⟩
      · cases hl
    · split at hl
      · split at hl
        · cases hl
          exact ⟨_, _, _, .inl rfl, rfl⟩
        · cases hl
      · split at hl
        · cases hl
          exact ⟨_, _, _, .inr rfl, rfl⟩
        · cases hl

theorem loadData_started (hs : s.Started) {dst : Payload}
    (h : s.call (.loadData dst index) = some s') : s'.Started := by
  obtain ⟨hmedia, hcases⟩ := loadData_cases h
  obtain ⟨chunk', media', buffer'⟩ := s'
  obtain ⟨chunk, media, buffer⟩ := s
  cases hmedia
  refine ⟨hs.1, ?_⟩
  rcases hcases with ⟨c, rfl, n, rfl⟩ | ⟨c, rfl, q, id, n, hq, rfl⟩
  · trivial
  · exact ⟨hs.2.1, .inr ⟨q, rfl, hq⟩⟩

/-- **`loadData`** of a CRC chunk. -/
theorem loadData_crc_inBounds {c : CrcChunk ρ} (hchunk : s.chunk = .crc c) (hs : s.Started)
    (hb : s.InBounds) (dst : Payload) (index : Nat) :
    (∀ s', s.call (.loadData dst index) = some s' → s'.InBounds)
      ↔ s.Meets (.loadData dst index) := by
  obtain ⟨chunk, media, buffer⟩ := s
  cases hchunk
  have hcall : (⟨.crc c, media, buffer⟩ : Session P ρ).call (.loadData dst index)
      = some ⟨.crc (c.loadData P media dst index buffer).chunk, media,
          (c.loadData P media dst index buffer).buffer⟩ := rfl
  have hokay := CrcChunk.readFrame_okay media c.region index buffer
  rw [inBounds_iff hs] at hb
  simp only [hcall, some.injEq, forall_eq', inBounds_iff (loadData_started hs hcall), Meets]
  cases hcrc : CrcChunk.crcOkay P (media c.region) index with
  | false =>
    obtain ⟨buf', hload⟩ := CrcChunk.loadData_reject dst buffer hcrc
    rw [hload]
    exact ⟨nofun, fun _ => hb⟩
  | true =>
    rw [hcrc] at hokay
    obtain ⟨hlen, hle⟩ := readFrame_dataLen media c.region index buffer hokay
    have hload : (c.loadData P media dst index buffer).chunk
        = ⟨c.region, ofLeBytes (slice (media c.region) index P.sizeofSizeT)⟩ := by
      unfold CrcChunk.loadData CrcChunk.loadDataFrom
      simp [hokay, hlen]
    rw [hload]
    exact ⟨fun h _ => h.2, fun h => ⟨hle, h rfl⟩⟩

/-- The bounds after two mirrors remember `n` bytes, behind the assertion that `n` does
not exceed the region. -/
theorem remembers_inBounds {c : MirroredChunk ρ} {media : ρ → List Byte}
    (hs : (⟨.mirrored c, media, WorkBuffer.zero P⟩ : Session P ρ).Started) {q : ρ}
    (hq : q = c.regionA ∨ q = c.regionB) (id n : Nat) (buf : WorkBuffer P) :
    (∀ s', (if n ≤ (media c.regionA).length then some (⟨.mirrored { c with
        currentRegion := some q, transId := id, dataLen := n }, media, buf⟩ : Session P ρ)
      else none) = some s' → s'.InBounds)
      ↔ (media c.regionA).length < n ∨ n ≤ P.workBufferSize
        ∧ (n = 0 ∨ FRAME_OVERHEAD P + n ≤ (media c.regionA).length) := by
  by_cases hassert : n ≤ (media c.regionA).length
  · have hstarted : (⟨.mirrored { c with currentRegion := some q, transId := id, dataLen := n },
        media, buf⟩ : Session P ρ).Started := ⟨hs.1, hs.2.1, .inr ⟨q, rfl, hq⟩⟩
    simp only [if_pos hassert, some.injEq, forall_eq', inBounds_iff hstarted, regionLength,
      Chunk.dataLen, Chunk.getMetadataLength, MirroredChunk.getMetadataLength]
    omega
  · simp only [if_neg hassert, reduceCtorEq, false_implies, implies_true, true_iff]
    omega

/-- **`loadData`** of two mirrors. -/
theorem loadData_mirrored_inBounds {c : MirroredChunk ρ} (hchunk : s.chunk = .mirrored c)
    (hs : s.Started) (dst : Payload) (index : Nat) :
    (∀ s', s.call (.loadData dst index) = some s' → s'.InBounds)
      ↔ s.Meets (.loadData dst index) := by
  obtain ⟨chunk, media, buffer⟩ := s
  cases hchunk
  have hlens : (media c.regionA).length = (media c.regionB).length := hs.2.1
  have hsize : (media c.regionA).length < P.sizeMod := hs.1 c.regionA
  have hP := P.sizeofSizeT_add_lt
  have hover := MirroredChunk.FRAME_OVERHEAD_eq P
  simp only [Session.call, Meets, LengthFits, regionLength, Chunk.getMetadataLength,
    MirroredChunk.getMetadataLength]
  unfold MirroredChunk.loadData MirroredChunk.loadDataFrom
  simp only [MirroredChunk.getTransactionId_eq, MirroredChunk.pushToRecord, ← hlens]
  by_cases hnone : (peek P (media c.regionA) index).transId = 0
      ∧ (peek P (media c.regionB) index).transId = 0
  · rw [if_pos hnone, if_pos hnone, apply_ite (Option.map _), map_some, map_none,
      remembers_inBounds hs (.inl rfl)]
    by_cases hle : FRAME_OVERHEAD P ≤ (media c.regionA).length
    · rw [Platform.sizeSub_of_le hle hsize]
      omega
    · -- the assertion stops a region that is too short
      have hwrap := Platform.lt_sizeSub (Nat.not_le.mp hle)
        (show FRAME_OVERHEAD P < P.sizeMod by omega)
      omega
  · rw [if_neg hnone, if_neg hnone]
    by_cases hnew : (peek P (media c.regionB) index).transId
        < (peek P (media c.regionA) index).transId
    · have hW := peek_dataLen (show (peek P (media c.regionA) index).transId ≠ 0 by omega)
      simp only [if_pos hnew]
      rw [apply_ite (Option.map _), map_some, map_none,
        remembers_inBounds hs (.inl rfl)]
      omega
    · have hW := peek_dataLen (show (peek P (media c.regionB) index).transId ≠ 0 by omega)
      simp only [if_neg hnew]
      rw [apply_ite (Option.map _), map_some, map_none,
        remembers_inBounds hs (.inr rfl)]
      omega

variable {fates1 fates2 : List Fate}

/-- What an update makes of a chunk: as it was (the record refused), or the length of
what the record wrote, and for two mirrors two ids further. -/
theorem updateData_cases (h : s.call (.updateData src index invalidate fates1 fates2) = some s') :
    (∀ r, (s'.media r).length = (s.media r).length) ∧ (s'.chunk = s.chunk
      ∨ ∃ n, n ≤ s.chunk.dataLen ∧ ((∃ c, s.chunk = .crc c ∧ s'.chunk = .crc { c with dataLen := n })
        ∨ ∃ c current, s.chunk = .mirrored c ∧ c.currentRegion = some current
            ∧ s'.chunk = .mirrored { c with
                dataLen := n, currentRegion := some (c.otherRegion (c.otherRegion current)),
                transId := MirroredChunk.nextTransId (MirroredChunk.nextTransId c.transId) })) := by
  obtain ⟨chunk, media, buffer⟩ := s
  cases chunk with
  | crc c =>
    obtain ⟨u, hu, rfl⟩ := map_eq_some_iff.mp h
    unfold CrcChunk.updateData at hu
    simp only at hu
    split at hu
    · cases hu
    · split at hu
      · cases hu
        exact ⟨fun _ => rfl, .inl rfl⟩
      · cases hu
        refine ⟨fun r => ?_, .inr ⟨_, src.getData_le _, .inl ⟨c, rfl, rfl⟩⟩⟩
        simp
  | mirrored c =>
    obtain ⟨u, hu, rfl⟩ := map_eq_some_iff.mp h
    unfold MirroredChunk.updateData at hu
    cases hcur : c.currentRegion with
    | none =>
      simp only [hcur] at hu
      cases hu
    | some current =>
      simp only [hcur] at hu
      split at hu
      · cases hu
      · split at hu
        · cases hu
          exact ⟨fun _ => rfl, .inl rfl⟩
        · cases hu
          refine ⟨fun r => ?_, .inr ⟨_, src.getData_le _, .inr ⟨c, current, rfl, hcur, rfl⟩⟩⟩
          simp

/-- An update leaves a started chunk. -/
theorem updateData_started (hs : s.Started)
    (h : s.call (.updateData src index invalidate fates1 fates2) = some s') : s'.Started := by
  obtain ⟨hlen, hcases⟩ := updateData_cases h
  obtain ⟨chunk', media', buffer'⟩ := s'
  obtain ⟨chunk, media, buffer⟩ := s
  unfold Started at hs ⊢
  simp only [hlen] at hlen ⊢
  refine ⟨hs.1, ?_⟩
  rcases hcases with rfl | ⟨n, -, ⟨c, rfl, rfl⟩ | ⟨c, current, rfl, hcur, rfl⟩⟩
  · exact hs.2
  · trivial
  · -- the current region is the one it was
    obtain ⟨-, hlens, hnone | ⟨q, hq, hAB⟩⟩ := hs
    · rw [hcur] at hnone
      cases hnone.1
    · obtain rfl : current = q := some.inj (hcur.symm.trans hq)
      exact ⟨hlens, .inr ⟨current, congrArg some (MirroredChunk.otherRegion_ne hAB).1, hAB⟩⟩

/-- **`updateData`** keeps the bounds: the record returned at most what it was
offered, and no region changes its length. -/
theorem updateData_inBounds (hs : s.Started) (hb : s.InBounds)
    (h : s.call (.updateData src index invalidate fates1 fates2) = some s') : s'.InBounds := by
  rw [inBounds_iff hs] at hb
  rw [inBounds_iff (updateData_started hs h)]
  obtain ⟨hlen, hcases⟩ := updateData_cases h
  obtain ⟨chunk', media', buffer'⟩ := s'
  obtain ⟨chunk, media, buffer⟩ := s
  rcases hcases with rfl | ⟨n, hn, ⟨c, rfl, rfl⟩ | ⟨c, current, rfl, -, rfl⟩⟩
  · cases chunk' with
    | crc c | mirrored c =>
      simp only [regionLength, hlen] at hb ⊢
      exact hb
  · simp only [Chunk.dataLen, Chunk.getMetadataLength, regionLength, hlen] at hn hb ⊢
    omega
  · simp only [Chunk.dataLen, Chunk.getMetadataLength, regionLength, hlen] at hn hb ⊢
    omega

/-- **One call on a chunk in bounds.** -/
theorem call_inBounds (hs : s.Started) (hb : s.InBounds) (a : ChunkCall) :
    (∀ s', s.call a = some s' → s'.InBounds) ↔ s.Meets a := by
  cases a with
  | start => exact start_inBounds hs.1
  | loadData dst index =>
    cases hchunk : s.chunk with
    | crc c => exact loadData_crc_inBounds hchunk hs hb dst index
    | mirrored c => exact loadData_mirrored_inBounds hchunk hs dst index
  | updateData src index invalidate fates1 fates2 =>
    exact ⟨fun _ => trivial, fun _ s' h => updateData_inBounds hs hb h⟩

theorem call_started (hs : s.Started) {a : ChunkCall} (h : s.call a = some s') : s'.Started := by
  cases a with
  | start => exact start_started hs.1 h
  | loadData dst index => exact loadData_started hs h
  | updateData src index invalidate fates1 fates2 => exact updateData_started hs h

/-! ## §4. Runs. -/

/-- **THE BOUNDS OVER A RUN**: a chunk that is started and then called in any way, on
any media, is in bounds after every call EXACTLY when every call meets its
condition. -/
theorem chunk_bounds_iff (s : Session P ρ) (hsize : ∀ r, (s.media r).length < P.sizeMod)
    (calls : List ChunkCall) :
    Along call (fun s a => ∀ s', s.call a = some s' → s'.InBounds) s (.start :: calls)
      ↔ Along call Meets s (.start :: calls) := by
  have hrest : ∀ s', s.call .start = some s' → s'.InBounds →
      (Along call (fun s a => ∀ s', s.call a = some s' → s'.InBounds) s' calls
        ↔ Along call Meets s' calls) := by
    intro s' hstart hb
    refine along_congr (fun s => s.Started ∧ s.InBounds) (fun s a _ h => call_inBounds h.1 h.2 a) ?_
      ⟨start_started hsize hstart, hb⟩
    intro s a s' h hC hcall
    exact ⟨call_started h.1 hcall, hC s' hcall⟩
  constructor
  · rintro ⟨hfirst, hcalls⟩
    exact ⟨(start_inBounds hsize).mp hfirst,
      fun s' hs' => (hrest s' hs' (hfirst s' hs')).mp (hcalls s' hs')⟩
  · rintro ⟨hfirst, hcalls⟩
    have hb := (start_inBounds hsize).mpr hfirst
    exact ⟨hb, fun s' hs' => (hrest s' hs' (hb s' hs')).mpr (hcalls s' hs')⟩

/-- A CRC chunk on a region of 100 bytes, updated twice after `start`. -/
theorem shortRegion_inBounds :
    Along call (fun s a => ∀ s', s.call a = some s' → s'.InBounds)
      (⟨.crc ⟨(), 0⟩, fun _ => replicate 100 0#8, WorkBuffer.zero _⟩ : Session .default64 Unit)
      [.start, .updateData (.ofBytes [1, 2]) 0 false [] [], .updateData (.ofBytes [3]) 0 true [] []] := by
  rw [chunk_bounds_iff _ (fun _ => by
    rw [length_replicate]
    decide)]
  refine ⟨?_, fun _ _ => ⟨trivial, fun _ _ => ⟨trivial, fun _ _ => trivial⟩⟩⟩
  simp only [Meets]
  decide

/-- A CRC chunk on a region twice as long as the work buffer. -/
def longRegion : Session .default64 Unit :=
  ⟨.crc ⟨(), 0⟩, fun _ => replicate 2048 0#8, WorkBuffer.zero _⟩

/-- The mirrors of `headerAlone`: A holds a header that announces 30 bytes and passes
the CRC by itself, in a region with room for 20. -/
def headerAloneMedia : Bool → List Byte
  | true => [1, 0, 0, 0, 9, 44, 212, 44] ++ leBytes 8 30 ++ replicate 24 0#8
  | false => replicate 40 0#8

def headerAlone : Session .default64 Bool :=
  ⟨.mirrored ⟨true, false, by decide, 0, none, 0⟩, headerAloneMedia, WorkBuffer.zero _⟩

/-- **Both bounds are broken**: `start` on the long region offers the record 2036
bytes of a work buffer of 1024; the load that accepts the header offers 30, whose
frame takes 50 bytes of a region of 40. -/
theorem longRegion_overruns :
    ¬ Along call (fun s a => ∀ s', s.call a = some s' → s'.InBounds) longRegion [.start]
      ∧ ¬ Along call (fun s a => ∀ s', s.call a = some s' → s'.InBounds) headerAlone
          [.start, .loadData (.ofBytes []) 0] := by
  constructor
  · rintro ⟨h, -⟩
    have hlen : longRegion.regionLength = 2048 := length_replicate
    obtain ⟨-, hle⟩ := (start_inBounds (fun _ => by
      rw [show (longRegion.media _).length = 2048 from length_replicate]
      decide)).mp h
    rw [hlen] at hle
    exact absurd hle (by decide)
  · intro h
    have hsize : ∀ r, (headerAlone.media r).length < Platform.default64.sizeMod := by decide
    have hstart : headerAlone.call .start = some headerAlone := rfl
    have hs : headerAlone.Started := start_started hsize hstart
    have hb : headerAlone.InBounds := (start_inBounds hsize).mpr trivial headerAlone hstart
    have hload : ∀ s', headerAlone.call (.loadData (.ofBytes []) 0) = some s' → s'.InBounds :=
      (h.2 headerAlone hstart).1
    rw [call_inBounds hs hb] at hload
    have hA : peek .default64 (headerAloneMedia true) 0
        = ⟨ofLeBytes [1, 0, 0, 0, 9, 44, 212, 44], 30, []⟩ := by decide +kernel
    have hB : (peek .default64 (headerAloneMedia false) 0).transId = 0 := by
      decide +kernel
    simp only [Meets, LengthFits, headerAlone, hA, hB] at hload
    revert hload
    decide

end Session

end ColonyCore.Persistent
