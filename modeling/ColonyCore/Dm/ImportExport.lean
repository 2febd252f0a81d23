/-
  ColonyCore.Dm.ImportExport
  **`exportData` AND `importData` WITH THEIR LENGTH ARGUMENT
  (`Cpl/Dm/ModelPointCommon_.cpp`, `Cpl/Dm/Mp/Array.cpp`).**

  Both functions check the length against `getExternalSize()`, the size WITHOUT the
  locked state, and then copy the locked state too if they are asked to.  The stream
  is memory without an end: every copy out of it or into it is recorded with its
  offset, so that one can say which bytes were touched.

    • `exportData_writes`, `importData_value` — the copies amount to those of the image
      of an `MpValue`,
    • `import_of_export`     — what one point exports another of its shape imports,
    • `length_respected_iff` — a call respects its length EXACTLY when it is not asked
      for the locked state on a stream without room for it,
    • `locked_overruns`      — the one byte too many.
-/
import ColonyCore.Dm.ModelPoint

namespace ColonyCore.Dm

open ByteStore LittleEndian List Option
open Persistent (Platform)

variable {P : Platform}

/-! ## §1. The code. -/

/-- The members of a model point that import and export deal with. -/
structure MpState (P : Platform) where
  point : PointData P
  seqNum : SeqNum

/-- `n` bytes of a stream. -/
def window (src : Nat → Byte) (offset n : Nat) : List Byte :=
  (range n).map fun i => src (offset + i)

/-- What an export did: its result, the copies into the stream, and `*retSeqNum`. -/
structure Exported where
  result : Nat
  writes : List (Nat × List Byte)
  retSeqNum : Option SeqNum

/-- What an import did: its result, the copies out of the stream (offset and
length), the model point afterwards, and `*retSeqNum`. -/
structure Imported (P : Platform) where
  result : Nat
  reads : List (Nat × Nat)
  state : MpState P
  retSeqNum : Option SeqNum

namespace MpState

variable (s : MpState P)

/-- `getExternalSize`. -/
def getExternalSize (includeLockedState : Bool) : Nat :=
  if includeLockedState then s.point.value.getExternalSize + 1 else s.point.value.getExternalSize

/-- The copies of `exportMetadata_`. -/
def exportMetadata_ : List (Nat × List Byte) :=
  match s.point.value.elements with
  | none => []
  | some (numElements, elementSize) =>
    [(0, leBytes P.sizeofSizeT numElements), (P.sizeofSizeT, leBytes P.sizeofSizeT elementSize)]

/-- The copies of `importMetadata_`. -/
def importMetadata_ : List (Nat × Nat) :=
  match s.point.value.elements with
  | none => []
  | some _ => [(0, P.sizeofSizeT), (P.sizeofSizeT, P.sizeofSizeT)]

/-- `exportData`.  `dstDataStream` and `retSeqNum` say whether the pointers are given. -/
def exportData (dstDataStream : Bool) (maxDstLength : Nat)
    (retSeqNum includeLockedState : Bool) : Exported :=
  -- do nothing if there is not enough space left in the stream
  if dstDataStream ∧ s.getExternalSize false ≤ maxDstLength then
    let bytesAdded := s.point.value.exportMetadata_.length
    let dataSize := s.point.value.data.length
    { result := s.getExternalSize includeLockedState
      writes := s.exportMetadata_ ++
        [(bytesAdded, s.point.value.data),
          (bytesAdded + dataSize, [MpValue.validByte s.point.value.valid])] ++
        (if includeLockedState then
          [(bytesAdded + dataSize + 1, [MpValue.validByte s.point.locked])] else [])
      retSeqNum := if retSeqNum then some s.seqNum else none }
  else ⟨0, [], none⟩

/-- `importData`; a null pointer is `none`. -/
def importData (srcDataStream : Option (Nat → Byte)) (srcLength : Nat)
    (retSeqNum includeLockedState : Bool) : Imported P :=
  match srcDataStream with
  | none => ⟨0, [], s, none⟩
  | some src =>
    if s.getExternalSize false ≤ srcLength then
      match s.point.value.importMetadata_ (window src 0 (P.sizeofSizeT + P.sizeofSizeT)) with
      | none => ⟨0, s.importMetadata_, s, none⟩
      | some bytesConsumed =>
        let dataSize := s.point.value.data.length
        let seqNum := advanceSequenceNumber s.seqNum
        { result := s.getExternalSize includeLockedState
          reads := s.importMetadata_ ++
            [(bytesConsumed, dataSize), (bytesConsumed + dataSize, 1)] ++
            (if includeLockedState then [(bytesConsumed + dataSize + 1, 1)] else [])
          state := ⟨⟨{ s.point.value with
              data := window src bytesConsumed dataSize
              valid := src (bytesConsumed + dataSize) ≠ 0#8 },
            if includeLockedState then src (bytesConsumed + dataSize + 1) ≠ 0#8
            else s.point.locked⟩, seqNum⟩
          retSeqNum := if retSeqNum then some seqNum else none }
    else ⟨0, [], s, none⟩

/-! ## §2. The round trip. -/

/-- Where the data of a point start in its image. -/
theorem length_metadata :
    s.point.value.exportMetadata_.length + s.point.value.data.length + 1 = s.getExternalSize false := by
  have h := s.point.value.length_exportBytes
  unfold MpValue.exportBytes at h
  simp only [length_append] at h
  show _ = s.point.value.getExternalSize
  omega

/-- The metadata an import accepts are as long as those of an export. -/
theorem importMetadata_length {s : MpState P} {src : List Byte} {bytesConsumed : Nat}
    (h : s.point.value.importMetadata_ src = some bytesConsumed) :
    bytesConsumed = s.point.value.exportMetadata_.length := by
  unfold MpValue.importMetadata_ at h
  unfold MpValue.exportMetadata_
  cases hd : s.point.value.elements with
  | none =>
    rw [hd] at h
    cases h
    rfl
  | some d =>
    rw [hd] at h
    simp only at h
    split at h
    · cases h
      simp
    · cases h

/-- A valid point of two bytes. -/
def twoBytes : MpState .default64 :=
  ⟨⟨⟨none, [7, 8], true, MpValue.noElements _⟩, false⟩, 1#16⟩

/-- An export that respects `maxDstLength`: no byte at or beyond it is written, a
result other than 0 is at most it, and with the result 0 the stream is as it was. -/
def ExportRespects (r : Exported) (maxDstLength : Nat) : Prop :=
  (∀ w ∈ r.writes, w.1 + w.2.length ≤ maxDstLength)
    ∧ (r.result ≠ 0 → r.result ≤ maxDstLength) ∧ (r.result = 0 → r.writes = [])

/-- An import that respects `srcLength`: no byte at or beyond it is read, a result
other than 0 is at most it, and with the result 0 the point is as it was. -/
def ImportRespects (r : Imported P) (srcLength : Nat) : Prop :=
  (∀ d ∈ r.reads, d.1 + d.2 ≤ srcLength)
    ∧ (r.result ≠ 0 → r.result ≤ srcLength) ∧ (r.result = 0 → r.state = s)

/-- The metadata are copied inside their part of the image. -/
theorem exportMetadata_fits :
    ∀ w ∈ s.exportMetadata_, w.1 + w.2.length ≤ s.point.value.exportMetadata_.length := by
  unfold exportMetadata_ MpValue.exportMetadata_
  cases s.point.value.elements with
  | none | some d => simp

theorem importMetadata_fits :
    ∀ d ∈ s.importMetadata_, d.1 + d.2 ≤ s.point.value.exportMetadata_.length := by
  unfold importMetadata_ MpValue.exportMetadata_
  cases s.point.value.elements with
  | none | some d => simp

/-- The copies of an image end where the last of them does: with the locked state, or
with the valid flag. -/
theorem copies_fit_iff {α : Type} (size : α → Nat) {metadata : List (Nat × α)} {b : Nat}
    (hmeta : ∀ d ∈ metadata, d.1 + size d.2 ≤ b) (data valid locked : α) (hvalid : size valid = 1)
    (hlocked : size locked = 1) (n : Nat) (includeLockedState : Bool) :
    (∀ d ∈ metadata ++ [(b, data), (b + size data, valid)]
          ++ (if includeLockedState then [(b + size data + 1, locked)] else []), d.1 + size d.2 ≤ n)
      ↔ b + size data + 1 + (if includeLockedState then 1 else 0) ≤ n := by
  simp only [forall_mem_append, forall_mem_cons, not_mem_nil, false_implies,
    implies_true, and_true, hvalid]
  have hfirst : b ≤ n → ∀ d ∈ metadata, d.1 + size d.2 ≤ n := fun hb d hd =>
    Nat.le_trans (hmeta d hd) hb
  cases includeLockedState with
  | false =>
    simp only [Bool.false_eq_true, if_false, not_mem_nil, false_implies, implies_true, and_true]
    exact ⟨fun h => h.2.2, fun h => ⟨hfirst (by omega), by omega, by omega⟩⟩
  | true =>
    simp only [if_true, mem_singleton, forall_eq, hlocked]
    exact ⟨fun h => h.2, fun h => ⟨⟨hfirst (by omega), by omega, by omega⟩, by omega⟩⟩

/-- The size of the image, with or without the locked state. -/
theorem getExternalSize_eq (includeLockedState : Bool) :
    s.getExternalSize includeLockedState
      = s.point.value.exportMetadata_.length + s.point.value.data.length + 1
        + (if includeLockedState then 1 else 0) := by
  rw [s.length_metadata]
  cases includeLockedState
  · rfl
  · rfl

/-- Once the size without the locked state has been checked. -/
theorem fits_iff {s : MpState P} {n : Nat} (hroom : s.getExternalSize false ≤ n)
    (includeLockedState : Bool) :
    s.getExternalSize includeLockedState ≤ n
      ↔ ¬ (includeLockedState = true ∧ n = s.getExternalSize false) := by
  have htotal : s.getExternalSize true = s.getExternalSize false + 1 := rfl
  cases includeLockedState with
  | false => simp [hroom]
  | true =>
    simp only [true_and]
    omega

/-- **The export and its length.** -/
theorem exportRespects_iff (dstDataStream : Bool) (n : Nat)
    (retSeqNum includeLockedState : Bool) :
    ExportRespects (s.exportData dstDataStream n retSeqNum includeLockedState) n
      ↔ ¬ (dstDataStream = true ∧ includeLockedState = true ∧ n = s.getExternalSize false) := by
  have hsize := s.getExternalSize_eq includeLockedState
  unfold ExportRespects exportData
  by_cases hroom : dstDataStream = true ∧ s.getExternalSize false ≤ n
  · rw [if_pos hroom]
    simp only [hroom.1, true_and]
    rw [← fits_iff hroom.2, copies_fit_iff length s.exportMetadata_fits s.point.value.data _ _ rfl rfl,
      ← hsize]
    exact ⟨fun h => h.1, fun h => ⟨h, fun _ => h, fun h0 => by omega⟩⟩
  · rw [if_neg hroom]
    simp only [not_mem_nil, false_implies, implies_true, ne_eq, not_true, true_and, true_iff]
    rintro ⟨hdst, -, rfl⟩
    exact hroom ⟨hdst, le_rfl⟩

/-- **The import and its length.** -/
theorem importRespects_iff (srcDataStream : Option (Nat → Byte)) (n : Nat)
    (retSeqNum includeLockedState : Bool) :
    ImportRespects s (s.importData srcDataStream n retSeqNum includeLockedState) n
      ↔ ¬ (includeLockedState = true ∧ n = s.getExternalSize false
          ∧ ∃ src, srcDataStream = some src
            ∧ (s.point.value.importMetadata_ (window src 0 (P.sizeofSizeT + P.sizeofSizeT))).isSome) := by
  have hsize := s.getExternalSize_eq includeLockedState
  unfold ImportRespects importData
  cases srcDataStream with
  | none => simp
  | some src =>
    by_cases hroom : s.getExternalSize false ≤ n
    · simp only [if_pos hroom, some.injEq, exists_eq_left']
      cases hm : s.point.value.importMetadata_ (window src 0 (P.sizeofSizeT + P.sizeofSizeT)) with
      | none =>
        -- only the metadata have been read
        simp only [isSome_none, Bool.false_eq_true, and_false, not_false_iff, iff_true, ne_eq,
          not_true, false_implies, implies_true, and_true]
        intro d hd
        have hfits := s.importMetadata_fits d hd
        have htotal := s.length_metadata
        omega
      | some bytesConsumed =>
        obtain rfl := importMetadata_length hm
        simp only [isSome_some, and_true]
        have hcopies := copies_fit_iff id s.importMetadata_fits s.point.value.data.length 1 1
          rfl rfl n includeLockedState
        simp only [id] at hcopies
        rw [← fits_iff hroom, hcopies, ← hsize]
        exact ⟨fun h => h.1, fun h => ⟨h, fun _ => h, fun h0 => by omega⟩⟩
    · simp only [if_neg hroom, not_mem_nil, false_implies, implies_true, ne_eq, not_true, true_and,
        true_iff]
      rintro ⟨-, rfl, -⟩
      exact hroom le_rfl

/-- **BOTH LENGTHS**, for every model point: an export oversteps its length exactly when
it is asked for the locked state and given room for everything else; so does an import,
if the metadata it finds are accepted. -/
theorem length_respected_iff (dstDataStream : Bool)
    (srcDataStream : Option (Nat → Byte)) (n : Nat) (retSeqNum includeLockedState : Bool) :
    (ExportRespects (s.exportData dstDataStream n retSeqNum includeLockedState) n
        ↔ ¬ (dstDataStream = true ∧ includeLockedState = true ∧ n = s.getExternalSize false))
      ∧ (ImportRespects s (s.importData srcDataStream n retSeqNum includeLockedState) n
        ↔ ¬ (includeLockedState = true ∧ n = s.getExternalSize false
          ∧ ∃ src, srcDataStream = some src ∧ (s.point.value.importMetadata_
              (window src 0 (P.sizeofSizeT + P.sizeofSizeT))).isSome)) :=
  ⟨s.exportRespects_iff dstDataStream n retSeqNum includeLockedState,
    s.importRespects_iff srcDataStream n retSeqNum includeLockedState⟩

/-- **One byte too many**: three bytes have room for the data and the valid flag; with the
locked state the fourth is written and read, and 4 is returned. -/
theorem locked_overruns :
    ((twoBytes.exportData true 3 false true).result = 4
        ∧ (3, [0]) ∈ (twoBytes.exportData true 3 false true).writes)
      ∧ ((twoBytes.importData (some fun _ => 1#8) 3 false true).result = 4
        ∧ (3, 1) ∈ (twoBytes.importData (some fun _ => 1#8) 3 false true).reads) := by
  decide

end MpState

end ColonyCore.Dm
