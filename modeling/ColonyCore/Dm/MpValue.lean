/-
  ColonyCore.Dm.MpValue
  **THE DATA OF A MODEL POINT AND ITS EXTERNAL IMAGE
  (`Cpl/Dm/ModelPointCommon_.cpp`, `Cpl/Dm/Mp/Array.cpp`).**

  A model point is exported as its metadata (for an array the number and the size
  of its elements), its data and its valid flag.  An import checks the length and
  the metadata, and then takes data and flag over.

    • `length_exportBytes` — the image has the announced size,
    • `importData_export`  — a point of the same SHAPE imports the image of another
      one, whatever follows it in the stream.
-/
import ColonyCore.Persistent.RegionMedia

namespace ColonyCore.Dm

open ByteStore LittleEndian
open Persistent (Platform)

/-- The members of a model point that `exportData` and `importData` touch.
`elements` are the `m_numElements` and `m_elementSize` of an array. -/
structure MpValue (P : Platform) where
  elements : Option (Nat × Nat)
  data : List Byte
  valid : Bool
  elements_lt : ∀ d ∈ elements, d.1 < P.sizeMod ∧ d.2 < P.sizeMod

namespace MpValue

/-- A point that is not an array. -/
theorem noElements (P : Platform) :
    ∀ d ∈ (none : Option (Nat × Nat)), d.1 < P.sizeMod ∧ d.2 < P.sizeMod := by
  simp

variable {P : Platform}

/-! ## §1. The code. -/

variable (mp : MpValue P)

/-- `exportMetadata_`: nothing, except for an array. -/
def exportMetadata_ : List Byte :=
  match mp.elements with
  | none => []
  | some (numElements, elementSize) =>
    leBytes P.sizeofSizeT numElements ++ leBytes P.sizeofSizeT elementSize

/-- `getInternalDataSize_`. -/
def getInternalDataSize_ : Nat :=
  match mp.elements with
  | none => mp.data.length
  | some _ => mp.data.length + P.sizeofSizeT + P.sizeofSizeT

/-- `getExternalSize`, without the locked state. -/
def getExternalSize : Nat := mp.getInternalDataSize_ + 1

/-- `m_valid` as a byte. -/
def validByte (valid : Bool) : Byte := if valid then 1#8 else 0#8

/-- What `exportData` writes when there is room. -/
def exportBytes : List Byte :=
  mp.exportMetadata_ ++ (mp.data ++ [validByte mp.valid])

/-- `exportData`: the bytes written, none when the result is 0. -/
def exportData (maxDstLength : Nat) : List Byte :=
  if mp.getExternalSize ≤ maxDstLength then mp.exportBytes else []

/-- `importMetadata_`: the bytes consumed.  Array size and element size must
match. -/
def importMetadata_ (src : List Byte) : Option Nat :=
  match mp.elements with
  | none => some 0
  | some (numElements, elementSize) =>
    if ofLeBytes (slice src 0 P.sizeofSizeT) = numElements
        ∧ ofLeBytes (slice src P.sizeofSizeT P.sizeofSizeT) = elementSize then
      some (P.sizeofSizeT + P.sizeofSizeT)
    else none

/-- `importData`: the point afterwards, `none` when the result is 0. -/
def importData (src : List Byte) : Option (MpValue P) :=
  if mp.getExternalSize ≤ src.length then
    (mp.importMetadata_ src).map fun bytesConsumed =>
      { mp with data := slice src bytesConsumed mp.data.length,
                valid := slice src (bytesConsumed + mp.data.length) 1 ≠ [0#8] }
  else none

/-! ## §2. The round trip. -/

/-- What construction fixes: the kind of the point and the size of its data. -/
def shape : Option (Nat × Nat) × Nat := (mp.elements, mp.data.length)

@[simp] theorem length_exportBytes :
    mp.exportBytes.length = mp.getExternalSize := by
  unfold exportBytes exportMetadata_ getExternalSize getInternalDataSize_
  cases mp.elements with
  | none => simp
  | some d =>
    simp only [List.length_append, length_leBytes, List.length_singleton]
    omega

theorem getExternalSize_pos : 0 < mp.getExternalSize := Nat.succ_pos _

variable {mp mp' : MpValue P} (h : mp.shape = mp'.shape)

include h

theorem getExternalSize_shape :
    mp.getExternalSize = mp'.getExternalSize := by
  obtain ⟨helem, hlen⟩ := Prod.mk.inj h
  unfold getExternalSize getInternalDataSize_
  rw [helem, hlen]

/-- The metadata of a point of the same shape are accepted. -/
theorem importMetadata_export (rest : List Byte) :
    mp.importMetadata_ (mp'.exportMetadata_ ++ rest) = some mp'.exportMetadata_.length := by
  obtain ⟨helem, -⟩ := Prod.mk.inj h
  unfold importMetadata_ exportMetadata_
  rw [helem]
  cases hd : mp'.elements with
  | none => rfl
  | some d =>
    obtain ⟨hn, he⟩ := mp'.elements_lt d hd
    have h1 := slice_append_mid [] (leBytes P.sizeofSizeT d.1) (leBytes P.sizeofSizeT d.2 ++ rest)
    have h2 := slice_append_mid (leBytes P.sizeofSizeT d.1) (leBytes P.sizeofSizeT d.2) rest
    simp only [length_leBytes, List.length_nil, List.nil_append] at h1 h2
    simp [h1, h2, ofLeBytes_leBytes_of_lt _ _ hn, ofLeBytes_leBytes_of_lt _ _ he]

/-- **The image of one point, imported by another of the same shape.** -/
theorem importData_export (rest : List Byte) :
    mp.importData (mp'.exportBytes ++ rest) = some mp' := by
  obtain ⟨helem, hlen⟩ := Prod.mk.inj h
  have hdata := slice_append_mid mp'.exportMetadata_ mp'.data ([validByte mp'.valid] ++ rest)
  have hvalid := slice_append_mid (mp'.exportMetadata_ ++ mp'.data) [validByte mp'.valid] rest
  rw [List.length_append, List.length_singleton] at hvalid
  have hflag : decide ([validByte mp'.valid] ≠ [0#8]) = mp'.valid := by
    cases mp'.valid
    · rfl
    · rfl
  unfold importData
  rw [if_pos (by rw [List.length_append, length_exportBytes, getExternalSize_shape h]; omega)]
  unfold exportBytes
  simp only [List.append_assoc] at hdata hvalid ⊢
  rw [importMetadata_export h, Option.map_some, hlen, hdata, hvalid, hflag]
  cases mp' with
  | mk elements data valid hlt =>
    cases helem
    rfl

end MpValue

end ColonyCore.Dm
