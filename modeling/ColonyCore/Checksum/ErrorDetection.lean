/-
  ColonyCore.Checksum.ErrorDetection
  **WHAT THE CHECKSUMS DETECT.**

  A message is accumulated in pieces and its checksum appended; the receiver accumulates
  all of it, in other pieces, and asks `isOkay`.

    • `tables_compute_remainders` — the two CRCs are the remainders of their polynomials,
    • `appended_checks_verify`    — appended checksums are accepted, and for the CRCs no
      other bytes in their place,
    • `bursts_are_detected`       — no corruption inside 32 consecutive bits is accepted by
      the 32-bit CRC.
-/
import ColonyCore.Checksum.Crc16CcittFast
import ColonyCore.Checksum.Crc32EthernetFast

namespace ColonyCore.Checksum

open LittleEndian CyclicCode

/-! ## §1. `Cpl/Checksum/Fletcher16.cpp`. -/

namespace Fletcher16

/-- The two sums. -/
structure Sums where
  sum1 : Byte
  sum2 : Byte
  deriving DecidableEq

/-- `Fletcher16::reset`. -/
def reset : Sums := ⟨0#8, 0#8⟩

/-- `( (uint16_t) a + (uint16_t) b ) % 255`, as a `uint8_t`. -/
def addMod (a b : Byte) : Byte := BitVec.ofNat 8 ((a.toNat + b.toNat) % 255)

variable (s : Sums)

/-- One turn of the loop in `Fletcher16::accumulate`. -/
def accumulateByte (b : Byte) : Sums :=
  let sum1 := addMod s.sum1 b
  ⟨sum1, addMod s.sum2 sum1⟩

/-- `Fletcher16::accumulate`. -/
def accumulate (bytes : List Byte) : Sums := bytes.foldl accumulateByte s

/-- The two bytes `Fletcher16::finalize` stores. -/
def finalize : List Byte :=
  let sumlo := 255#8 - addMod s.sum1 s.sum2
  let sumhi := 255#8 - addMod s.sum1 sumlo
  [sumlo, sumhi]

/-- `Fletcher16::isOkay`. -/
def isOkay : Bool := s.sum1 == 0#8 && s.sum2 == 0#8

theorem toNat_addMod (a b : Byte) : (addMod a b).toNat = (a.toNat + b.toNat) % 255 := by
  rw [addMod, BitVec.toNat_ofNat]
  omega

theorem toNat_complement {a : Byte} : (255#8 - a).toNat = 255 - a.toNat := by
  rw [BitVec.toNat_sub, BitVec.toNat_ofNat]
  omega

/-- **The two check bytes solve both congruences.** -/
theorem accumulate_finalize : accumulate s (finalize s) = reset := by
  have hlo : addMod s.sum2 (addMod s.sum1 (255#8 - addMod s.sum1 s.sum2)) = 0#8 := by
    apply BitVec.eq_of_toNat_eq
    simp only [toNat_addMod, toNat_complement, BitVec.toNat_ofNat]
    omega
  have hhi : ∀ a : Byte, addMod a (255#8 - a) = 0#8 := by
    intro a
    apply BitVec.eq_of_toNat_eq
    rw [toNat_addMod, toNat_complement, BitVec.toNat_ofNat]
    omega
  show accumulateByte (accumulateByte s _) _ = _
  simp only [accumulateByte, hlo, hhi]
  rfl

end Fletcher16

/-! ## §2. Pieces. -/

/-- Accumulating piece by piece is accumulating all at once. -/
theorem foldl_pieces {σ : Type} (step : σ → Byte → σ) (pieces : List (List Byte)) (s : σ) :
    pieces.foldl (fun s bytes => bytes.foldl step s) s = pieces.flatten.foldl step s := by
  induction pieces generalizing s with
  | nil => rfl
  | cons piece pieces ih => rw [List.foldl_cons, ih, List.flatten_cons, List.foldl_append]

/-- **TABLE-DRIVEN CRCS ARE REMAINDERS**: for every message and every way of splitting it. -/
theorem tables_compute_remainders (pieces : List (List Byte)) :
    Crc32EthernetFast.finalizeValue
        (pieces.foldl Crc32EthernetFast.accumulate Crc32EthernetFast.reset)
      = remainder 0x04C11DB7#32 0xFFFFFFFF#32 (bits pieces.flatten)
    ∧ Crc16CcittFast.finalizeValue (pieces.foldl Crc16CcittFast.accumulate Crc16CcittFast.reset)
      = remainder 0x1021#16 0xFFFF#16 (bits pieces.flatten) :=
  ⟨(foldl_pieces _ pieces _).trans (Crc32EthernetFast.accumulate_eq _ _),
    (foldl_pieces _ pieces _).trans (Crc16CcittFast.accumulate_eq _ _)⟩

/-! ## §3. Appended checksums. -/

/-- **APPENDED CHECKSUMS VERIFY**, in any pieces; and the check bytes of a CRC are the only
ones of their number that do. -/
theorem appended_checks_verify (m : List Byte) :
    (∀ pieces : List (List Byte),
      pieces.flatten = m ++ Fletcher16.finalize (Fletcher16.accumulate Fletcher16.reset m) →
      Fletcher16.isOkay (pieces.foldl Fletcher16.accumulate Fletcher16.reset) = true)
    ∧ (∀ (c : List Byte) (pieces : List (List Byte)), c.length = 2 → pieces.flatten = m ++ c →
      (Crc16CcittFast.isOkay (pieces.foldl Crc16CcittFast.accumulate Crc16CcittFast.reset) = true
        ↔ c = Crc16CcittFast.finalize (Crc16CcittFast.accumulate Crc16CcittFast.reset m)))
    ∧ (∀ (c : List Byte) (pieces : List (List Byte)), c.length = 4 → pieces.flatten = m ++ c →
      (Crc32EthernetFast.isOkay
          (pieces.foldl Crc32EthernetFast.accumulate Crc32EthernetFast.reset) = true
        ↔ c = Crc32EthernetFast.finalize
            (Crc32EthernetFast.accumulate Crc32EthernetFast.reset m))) := by
  refine ⟨fun pieces hm => ?_, fun c pieces hc hm => ?_, fun c pieces hc hm => ?_⟩
  · have hall : pieces.foldl Fletcher16.accumulate Fletcher16.reset
        = Fletcher16.accumulate (Fletcher16.accumulate Fletcher16.reset m) _ :=
      (foldl_pieces _ pieces _).trans (hm ▸ List.foldl_append)
    rw [hall, Fletcher16.accumulate_finalize]
    rfl
  · have hall : pieces.foldl Crc16CcittFast.accumulate Crc16CcittFast.reset
        = Crc16CcittFast.accumulate (Crc16CcittFast.accumulate Crc16CcittFast.reset m) c :=
      (foldl_pieces _ pieces _).trans (hm ▸ List.foldl_append)
    rw [hall, Crc16CcittFast.isOkay, beq_iff_eq, Crc16CcittFast.accumulate_eq_zero_iff _ hc]
  · have hall : pieces.foldl Crc32EthernetFast.accumulate Crc32EthernetFast.reset
        = Crc32EthernetFast.accumulate (Crc32EthernetFast.accumulate Crc32EthernetFast.reset m) c :=
      (foldl_pieces _ pieces _).trans (hm ▸ List.foldl_append)
    rw [hall, Crc32EthernetFast.isOkay, beq_iff_eq, Crc32EthernetFast.accumulate_eq_zero_iff _ hc]

/-! ## §4. Bursts. -/

/-- A message with the four bytes of its 32-bit CRC. -/
def checked (m : List Byte) : List Byte :=
  m ++ Crc32EthernetFast.finalize (Crc32EthernetFast.accumulate Crc32EthernetFast.reset m)

/-- **THE 32-BIT CRC CATCHES EVERY BURST**: of a message with its check bytes, no corruption
that flips only bits of one window of 32 is accepted. -/
theorem bursts_are_detected (m corrupted : List Byte) (hlen : corrupted.length = (checked m).length)
    (hne : corrupted ≠ checked m) (k : Nat)
    (hwindow : ∀ i, (bits corrupted)[i]? ≠ (bits (checked m))[i]? → k ≤ i ∧ i < k + 32) :
    Crc32EthernetFast.isOkay (Crc32EthernetFast.accumulate Crc32EthernetFast.reset corrupted)
      = false := by
  have hsent : Crc32EthernetFast.accumulate Crc32EthernetFast.reset (checked m) = 0#32 := by
    rw [checked, Crc32EthernetFast.accumulate_append, Crc32EthernetFast.accumulate_finalize]
  rw [Crc32EthernetFast.isOkay, beq_eq_false_iff_ne, ← hsent, Crc32EthernetFast.accumulate_eq,
    Crc32EthernetFast.accumulate_eq]
  exact remainder_ne_of_window Crc32EthernetFast.polynomial_odd
    (by rw [length_bits, length_bits, hlen]) (mt bits_inj hne) hwindow

/-- The message "A" with the last two check bits flipped. -/
theorem burst_detected_A : Crc32EthernetFast.isOkay (Crc32EthernetFast.accumulate
    Crc32EthernetFast.reset [0x41, 0x7E, 0x4F, 0xD2, 0x77]) = false := by
  refine bursts_are_detected [0x41] _ rfl (by decide) 8 fun i hi => ?_
  have hall : ∀ i < 40, (bits [0x41, 0x7E, 0x4F, 0xD2, 0x77])[i]?
      ≠ (bits (checked [0x41]))[i]? → 8 ≤ i ∧ i < 8 + 32 := by
    decide +kernel
  refine hall i (Nat.lt_of_not_le fun hge => hi ?_) hi
  rw [List.getElem?_eq_none (by rwa [length_bits]), List.getElem?_eq_none (by rwa [length_bits])]

end ColonyCore.Checksum
