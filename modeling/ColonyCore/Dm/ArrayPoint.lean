/-
  ColonyCore.Dm.ArrayPoint
  **MODEL POINTS WHOSE DATA IS AN ARRAY (`Cpl/Dm/Mp/Array.cpp`).**

  A read, a write and the change test name a first element and a number of elements,
  and each cuts the number to the end of the array in `size_t` arithmetic, where the
  sum `elemIndex + numElements` and the difference `m_numElements - elemIndex` wrap.
  A copy that leaves the array or the caller's elements is a FAULT (`none`).

    • `Exact`           — the bytes a call touches are those of the elements asked for,
      as far as the array has them,
    • `truncates_iff`   — reads, writes and the change test are right EXACTLY when the
      index is inside the array and the sum does not wrap (or the byte count of the
      copy comes out as a multiple of 2^w, and nothing is touched at all),
    • `pastEnd_faults`  — an index behind the end copies nearly 2^w bytes.
-/
import ColonyCore.Dm.ModelPoint

namespace ColonyCore.Dm

open ByteStore LittleEndian List
open Persistent (Platform)

variable {P : Platform}

/-! ## §1. The code. -/

/-- What an array is constructed with: `m_numElements` and `m_elementSize`.  The
array is an object of the program, so its size is a `size_t`. -/
structure ArrayShape (P : Platform) where
  numElements : Nat
  elementSize : Nat
  elementSize_pos : 0 < elementSize
  fits : numElements * elementSize < P.sizeMod

namespace ArrayShape

/-- The common first step of `copyDataTo_`, `copyDataFrom_` and `isDataEqual_`:
`numElements` afterwards. -/
def truncate (A : ArrayShape P) (numElements elemIndex : Nat) : Nat :=
  if A.numElements < (elemIndex + numElements) % P.sizeMod then
    (A.numElements + P.sizeMod - elemIndex) % P.sizeMod
  else numElements

/-- `elemIndex * m_elementSize`. -/
def byteOffset (A : ArrayShape P) (elemIndex : Nat) : Nat :=
  (elemIndex * A.elementSize) % P.sizeMod

/-- `numElements * m_elementSize`. -/
def byteLength (A : ArrayShape P) (numElements : Nat) : Nat :=
  (numElements * A.elementSize) % P.sizeMod

end ArrayShape

/-- An array model point.  The data always have the size of the array. -/
structure ArrayPoint (A : ArrayShape P) where
  data : List Byte
  size : data.length = A.numElements * A.elementSize
  valid : Bool
  locked : Bool
  seqNum : SeqNum

namespace ArrayPoint

variable {A : ArrayShape P}

variable (a : ArrayPoint A)

/-- `copyDataTo_`: the bytes copied to `elemPtr`. -/
def copyDataTo_ (numElements elemIndex : Nat) : Option (List Byte) :=
  let offset := A.byteOffset elemIndex
  let length := A.byteLength (A.truncate numElements elemIndex)
  if offset + length ≤ a.data.length then some (slice a.data offset length) else none

/-- `copyDataFrom_`; `elemPtr` is the memory the caller passes. -/
def copyDataFrom_ (elemPtr : List Byte) (numElements elemIndex : Nat) :
    Option (ArrayPoint A) :=
  let offset := A.byteOffset elemIndex
  let length := A.byteLength (A.truncate numElements elemIndex)
  if h : offset + length ≤ a.data.length ∧ length ≤ elemPtr.length then
    some { a with
      data := overlay a.data offset (elemPtr.take length)
      size := by rw [length_overlay _ _ _ (by rw [length_take]; omega)]; exact a.size }
  else none

/-- `isDataEqual_`: the result, and the `numElements` it leaves in the metadata. -/
def isDataEqual_ (elemPtr : List Byte) (numElements elemIndex : Nat) :
    Option (Bool × Nat) :=
  let offset := A.byteOffset elemIndex
  let length := A.byteLength (A.truncate numElements elemIndex)
  if offset + length ≤ a.data.length ∧ length ≤ elemPtr.length then
    some (slice a.data offset length = elemPtr.take length, A.truncate numElements elemIndex)
  else none

/-- `readArrayElements`: the bytes copied to `dstData` (`none` when the point is not
valid and the result false), and the sequence number. -/
def readArrayElements (dstNumElements srcIndex : Nat) :
    Option (Option (List Byte) × SeqNum) :=
  if a.valid then
    (a.copyDataTo_ dstNumElements srcIndex).map fun bytes => (some bytes, a.seqNum)
  else some (none, a.seqNum)

/-- `copyDataFrom_` and `processDataUpdated`. -/
def update (elemPtr : List Byte) (numElements elemIndex : Nat) :
    Option (ArrayPoint A) :=
  (a.copyDataFrom_ elemPtr numElements elemIndex).map fun a =>
    { a with valid := true, seqNum := advanceSequenceNumber a.seqNum }

/-- `writeArrayElements`.  The change test has cut the metadata's `numElements`
before the copy uses it. -/
def writeArrayElements (srcData : List Byte) (srcNumElements dstIndex : Nat)
    (lockRequest : LockRequest) : Option (ArrayPoint A) :=
  let lock := PointData.testAndUpdateLock a.locked lockRequest
  let a := { a with locked := lock.1 }
  if lock.2 then
    if a.valid then
      (a.isDataEqual_ srcData srcNumElements dstIndex).bind fun r =>
        if r.1 then some a else a.update srcData r.2 dstIndex
    else a.update srcData srcNumElements dstIndex
  else some a

/-! ## §2. Which bytes a call touches. -/

/-- Element `k` of the array. -/
def element (k : Nat) : List Byte :=
  slice a.data (k * A.elementSize) A.elementSize

end ArrayPoint

namespace ArrayShape

variable (A : ArrayShape P)

/-- Element `k` of the caller's elements. -/
def srcElement (src : List Byte) (k : Nat) : List Byte :=
  slice src (k * A.elementSize) A.elementSize

/-- How many elements from `elemIndex` on the array has, of `numElements`. -/
def count (numElements elemIndex : Nat) : Nat :=
  min (elemIndex + numElements) A.numElements - elemIndex

/-- **The bytes a call touches are those of the elements asked for**, as far as
the array has them. -/
structure Exact (numElements elemIndex : Nat) : Prop where
  length : A.byteLength (A.truncate numElements elemIndex) = A.count numElements elemIndex * A.elementSize
  offset : A.count numElements elemIndex ≠ 0 → A.byteOffset elemIndex = elemIndex * A.elementSize
  inside : A.byteOffset elemIndex + A.byteLength (A.truncate numElements elemIndex)
    ≤ A.numElements * A.elementSize

/-- The index is inside the array (its end included) and the sum does not wrap; or
the index is behind the end and the byte count of the copy wraps to 0. -/
def CutsExactly (numElements elemIndex : Nat) : Prop :=
  (elemIndex ≤ A.numElements ∧ elemIndex + numElements < P.sizeMod) ∨
  (A.numElements < elemIndex ∧
    P.sizeMod ∣ (if A.numElements < (elemIndex + numElements) % P.sizeMod
      then elemIndex - A.numElements else numElements) * A.elementSize)

theorem numElements_lt : A.numElements < P.sizeMod :=
  Nat.lt_of_le_of_lt (Nat.le_mul_of_pos_right _ A.elementSize_pos) A.fits

/-- The size of up to `numElements` elements does not wrap. -/
theorem mul_mod {k : Nat} (h : k ≤ A.numElements) :
    (k * A.elementSize) % P.sizeMod = k * A.elementSize :=
  Nat.mod_eq_of_lt (Nat.lt_of_le_of_lt (Nat.mul_le_mul_right _ h) A.fits)

variable {numElements elemIndex : Nat}

/-- The cut is idempotent: the change test may be run before the copy. -/
theorem truncate_truncate (hi : elemIndex < P.sizeMod) :
    A.truncate (A.truncate numElements elemIndex) elemIndex = A.truncate numElements elemIndex := by
  have hN := A.numElements_lt
  by_cases hcut : A.numElements < (elemIndex + numElements) % P.sizeMod
  · -- a cut number ends at the end of the array, in modular arithmetic
    have hsum : (elemIndex + (A.numElements + P.sizeMod - elemIndex) % P.sizeMod) % P.sizeMod
        = A.numElements := by
      rw [Nat.add_mod_mod, Nat.add_sub_cancel' (by omega), Nat.add_mod_right, Nat.mod_eq_of_lt hN]
    unfold truncate
    rw [if_pos hcut, if_neg (by omega)]
  · have huncut : A.truncate numElements elemIndex = numElements := if_neg hcut
    rw [huncut, huncut]

/-- Inside the array, and without a wrapping sum, the cut is the intended one. -/
theorem exact_inside (hi : elemIndex ≤ A.numElements)
    (hsum : elemIndex + numElements < P.sizeMod) : A.Exact numElements elemIndex := by
  have hcut : A.truncate numElements elemIndex = A.count numElements elemIndex := by
    unfold truncate count
    rw [Nat.mod_eq_of_lt hsum]
    split
    next hlt =>
      rw [Nat.add_comm, Nat.add_sub_assoc hi, Nat.add_mod_left, Nat.mod_eq_of_lt (by omega)]
      omega
    next hge => omega
  have hcount : elemIndex + A.count numElements elemIndex ≤ A.numElements := by
    unfold count; omega
  have hlength := A.mul_mod (show A.count numElements elemIndex ≤ A.numElements by omega)
  refine ⟨?_, fun _ => A.mul_mod hi, ?_⟩
  · rw [hcut]; exact hlength
  · rw [hcut]
    unfold byteOffset byteLength
    rw [A.mul_mod hi, hlength, ← Nat.add_mul]
    exact Nat.mul_le_mul_right _ hcount

/-- A sum that wraps is not cut, and the copy runs over the end. -/
theorem overrun_of_wrap (hi : elemIndex ≤ A.numElements)
    (hn : numElements < P.sizeMod) (hsum : P.sizeMod ≤ elemIndex + numElements) :
    A.numElements * A.elementSize
      < A.byteOffset elemIndex + A.byteLength (A.truncate numElements elemIndex) := by
  have hN := A.numElements_lt
  have hfits := A.fits
  have huncut : A.truncate numElements elemIndex = numElements := by
    unfold truncate
    rw [Nat.mod_eq_sub_mod hsum, Nat.mod_eq_of_lt (by omega), if_neg (by omega)]
  -- the number is `2^w - t`, with `t` at most the index
  obtain ⟨t, ht⟩ : ∃ t, numElements + t = P.sizeMod := ⟨P.sizeMod - numElements, by omega⟩
  have htle : t * A.elementSize ≤ elemIndex * A.elementSize := Nat.mul_le_mul_right _ (by omega)
  have hile : elemIndex * A.elementSize ≤ A.numElements * A.elementSize :=
    Nat.mul_le_mul_right _ hi
  have htpos : 0 < t * A.elementSize := Nat.mul_pos (by omega) A.elementSize_pos
  have hprod : numElements * A.elementSize
      = P.sizeMod * (A.elementSize - 1) + (P.sizeMod - t * A.elementSize) := by
    have hall : numElements * A.elementSize + t * A.elementSize = P.sizeMod * A.elementSize := by
      rw [← Nat.add_mul, ht]
    have hone : P.sizeMod * A.elementSize = P.sizeMod * (A.elementSize - 1) + P.sizeMod := by
      rw [← Nat.mul_succ, Nat.succ_eq_add_one, Nat.sub_add_cancel A.elementSize_pos]
    omega
  unfold byteOffset byteLength
  rw [huncut, A.mul_mod hi, hprod, Nat.mul_add_mod, Nat.mod_eq_of_lt (by omega)]
  omega

/-- Behind the end, nothing is copied exactly when the byte count wraps to 0. -/
theorem byteLength_behind (hlt : A.numElements < elemIndex) (hi : elemIndex < P.sizeMod) :
    A.byteLength (A.truncate numElements elemIndex) = 0 ↔
      P.sizeMod ∣ (if A.numElements < (elemIndex + numElements) % P.sizeMod
        then elemIndex - A.numElements else numElements) * A.elementSize := by
  unfold byteLength truncate
  rw [← Nat.dvd_iff_mod_eq_zero]
  split
  next hcut =>
    rw [Nat.mod_eq_of_lt (by omega)]
    have hsum : (A.numElements + P.sizeMod - elemIndex) * A.elementSize
        + (elemIndex - A.numElements) * A.elementSize = P.sizeMod * A.elementSize := by
      rw [← Nat.add_mul]
      congr 1
      omega
    have hdvd : P.sizeMod ∣ P.sizeMod * A.elementSize := Nat.dvd_mul_right _ _
    rw [← hsum] at hdvd
    exact ⟨fun h => (Nat.dvd_add_right h).mp hdvd, fun h => (Nat.dvd_add_left h).mp hdvd⟩
  next => exact Iff.rfl

/-- A copy of 0 bytes behind the end still points into the array. -/
theorem byteOffset_behind (hlt : A.numElements < elemIndex) (hi : elemIndex < P.sizeMod)
    (hn : numElements < P.sizeMod)
    (hdvd : P.sizeMod ∣ (if A.numElements
      < (elemIndex + numElements) % P.sizeMod then elemIndex - A.numElements else numElements) *
      A.elementSize) :
    A.byteOffset elemIndex ≤ A.numElements * A.elementSize := by
  unfold byteOffset
  split at hdvd
  next hcut =>
    -- the offset is that of the end
    obtain ⟨q, hq⟩ := hdvd
    have hsplit : elemIndex * A.elementSize
        = A.numElements * A.elementSize + (elemIndex - A.numElements) * A.elementSize := by
      rw [← Nat.add_mul, Nat.add_sub_cancel' (by omega)]
    rw [hsplit, hq, Nat.add_mul_mod_self_left, A.mul_mod (Nat.le_refl _)]
  next huncut =>
    -- the sum wraps, to an index inside the array
    have hwrap : P.sizeMod ≤ elemIndex + numElements := by
      by_contra hno
      rw [Nat.mod_eq_of_lt (by omega)] at huncut
      omega
    obtain ⟨m, hm⟩ := Nat.exists_eq_add_of_le hwrap
    have hmle : m ≤ A.numElements := by
      rw [hm, Nat.add_mod_left, Nat.mod_eq_of_lt (by omega)] at huncut
      omega
    obtain ⟨q, hq⟩ := hdvd
    have hsame : (elemIndex * A.elementSize) % P.sizeMod = (m * A.elementSize) % P.sizeMod := by
      have hsum := congrArg (· * A.elementSize) hm
      simp only [Nat.add_mul] at hsum
      rw [← Nat.add_mul_mod_self_left (elemIndex * A.elementSize) P.sizeMod q, ← hq, hsum,
          Nat.mul_add_mod]
    rw [hsame, A.mul_mod hmle]
    exact Nat.mul_le_mul_right _ hmle

/-- **The condition is what makes a call touch the right bytes.** -/
theorem exact_of_cutsExactly (hi : elemIndex < P.sizeMod) (hn : numElements < P.sizeMod)
    (h : A.CutsExactly numElements elemIndex) : A.Exact numElements elemIndex := by
  rcases h with ⟨hle, hsum⟩ | ⟨hlt, hdvd⟩
  · exact A.exact_inside hle hsum
  · have hzero := (A.byteLength_behind hlt hi).mpr hdvd
    have hcount : A.count numElements elemIndex = 0 := by unfold count; omega
    refine ⟨by rw [hzero, hcount, Nat.zero_mul], fun hne => absurd hcount hne, ?_⟩
    rw [hzero]
    exact A.byteOffset_behind hlt hi hn hdvd

end ArrayShape

/-! ## §3. Reads, writes and the change test. -/

/-- **What the calls promise**, for `n` elements from index `i` on; the caller's
memory holds `n` elements. -/
structure Truncates (A : ArrayShape P) (n i : Nat) : Prop where
  /-- A read of a valid point returns the elements `i ≤ k < min (i + n) N`. -/
  read : ∀ a : ArrayPoint A, a.readArrayElements n i =
    some (if a.valid then some ((range (A.count n i)).flatMap fun j => a.element (i + j))
      else none, a.seqNum)
  /-- The change test compares those elements. -/
  equal : ∀ (a : ArrayPoint A) (src : List Byte), n * A.elementSize ≤ src.length →
    ∃ r cut, a.isDataEqual_ src n i = some (r, cut) ∧
      (r = true ↔ ∀ k, i ≤ k → k < min (i + n) A.numElements →
        a.element k = A.srcElement src (k - i))
  /-- A write that the lock lets through changes those elements and no other. -/
  write : ∀ (a : ArrayPoint A) (src : List Byte) (lockRequest : LockRequest),
    n * A.elementSize ≤ src.length →
    ∃ a', a.writeArrayElements src n i lockRequest = some a' ∧
      (∀ k, k < A.numElements → a'.element k =
        if (PointData.testAndUpdateLock a.locked lockRequest).2 ∧ i ≤ k ∧ k < i + n
        then A.srcElement src (k - i) else a.element k) ∧
      -- a write that changes nothing is not announced
      (a'.valid = a.valid → (∀ k, k < A.numElements → a'.element k = a.element k) →
        a'.seqNum = a.seqNum)

namespace ArrayPoint

variable {A : ArrayShape P} {n i : Nat}

/-- A range of bytes, element by element. -/
theorem slice_eq_elements (a : ArrayPoint A) (i c : Nat) :
    slice a.data (i * A.elementSize) (c * A.elementSize)
      = (range c).flatMap fun j => a.element (i + j) := by
  induction c with
  | zero => simp [slice]
  | succ c ih =>
    rw [Nat.succ_mul, ← slice_append_slice, ih, range_succ,
        ← Nat.add_mul]
    simp [element]

theorem copyDataTo_exact (a : ArrayPoint A) (h : A.Exact n i) :
    a.copyDataTo_ n i
      = some ((range (A.count n i)).flatMap fun j => a.element (i + j)) := by
  unfold copyDataTo_
  rw [a.size, if_pos h.inside, h.length, ← slice_eq_elements]
  by_cases hzero : A.count n i = 0
  · rw [hzero]
    simp [slice]
  · rw [h.offset hzero]

variable {src : List Byte}

/-- The caller's memory is long enough for the cut number of elements. -/
theorem count_mul_le (hsrc : n * A.elementSize ≤ src.length) :
    A.count n i * A.elementSize ≤ src.length := by
  refine Nat.le_trans (Nat.mul_le_mul_right _ ?_) hsrc
  unfold ArrayShape.count
  omega

/-- The elements a call is about. -/
theorem mem_range_iff (A : ArrayShape P) (n i k : Nat) :
    (i ≤ k ∧ k < min (i + n) A.numElements) ↔ i ≤ k ∧ k - i < A.count n i := by
  unfold ArrayShape.count
  omega

section

variable (a : ArrayPoint A) (h : A.Exact n i) (hsrc : n * A.elementSize ≤ src.length)

include h hsrc

theorem isDataEqual_exact :
    ∃ r, a.isDataEqual_ src n i = some (r, A.truncate n i) ∧
      (r = true ↔ ∀ k, i ≤ k → k < min (i + n) A.numElements →
        a.element k = A.srcElement src (k - i)) := by
  have hfit := count_mul_le (i := i) hsrc
  unfold isDataEqual_
  rw [if_pos ⟨by rw [a.size]; exact h.inside, by rw [h.length]; exact hfit⟩]
  refine ⟨_, rfl, ?_⟩
  rw [decide_eq_true_iff, h.length]
  by_cases hzero : A.count n i = 0
  · -- nothing is compared
    rw [hzero]
    refine ⟨fun _ k hik hk => ?_, fun _ => by simp [slice]⟩
    have hmem := (mem_range_iff A n i k).mp ⟨hik, hk⟩
    omega
  · have hinside := h.inside
    rw [h.length, h.offset hzero] at hinside
    have hpieces := slice_eq_iff_pieces a.data src (i * A.elementSize) 0 A.elementSize
      (A.count n i) (by rw [a.size]; exact hinside) (by rw [Nat.zero_add]; exact hfit)
    rw [h.offset hzero]
    refine Iff.trans hpieces ⟨fun hall k hik hk => ?_, fun hall j hj => ?_⟩
    · have hj := hall (k - i) ((mem_range_iff A n i k).mp ⟨hik, hk⟩).2
      rw [← Nat.add_mul, Nat.add_sub_cancel' hik, Nat.zero_add] at hj
      exact hj
    · obtain ⟨hik, hk⟩ := (mem_range_iff A n i (i + j)).mpr ⟨by omega, by omega⟩
      have hk' := hall (i + j) hik hk
      rw [Nat.add_sub_cancel_left] at hk'
      rw [← Nat.add_mul, Nat.zero_add]
      exact hk'

/-- The copy puts the caller's elements in the range and leaves the others. -/
theorem copyDataFrom_exact :
    ∃ a', a.copyDataFrom_ src n i = some a' ∧
      ∀ k, k < A.numElements → a'.element k =
        if i ≤ k ∧ k < i + n then A.srcElement src (k - i) else a.element k := by
  have hfit := count_mul_le (i := i) hsrc
  unfold copyDataFrom_
  rw [dif_pos ⟨by rw [a.size]; exact h.inside, by rw [h.length]; exact hfit⟩]
  refine ⟨_, rfl, fun k hk => ?_⟩
  unfold element
  simp only [h.length]
  by_cases hzero : A.count n i = 0
  · have hout : ¬ (i ≤ k ∧ k < i + n) := by
      unfold ArrayShape.count at hzero
      omega
    rw [hzero, Nat.zero_mul, take_zero, overlay_nil, if_neg hout]
  · have hinside := h.inside
    rw [h.length, h.offset hzero] at hinside
    have hlen : (src.take (A.count n i * A.elementSize)).length = A.count n i * A.elementSize := by
      rw [length_take, Nat.min_eq_left hfit]
    have hwrite : i * A.elementSize + (src.take (A.count n i * A.elementSize)).length
        ≤ a.data.length := by rw [hlen, a.size]; exact hinside
    rw [h.offset hzero]
    by_cases hin : i ≤ k ∧ k < i + n
    · -- inside the range the element is the caller's
      obtain ⟨j, rfl⟩ := Nat.exists_eq_add_of_le hin.1
      have hj : j < A.count n i := by unfold ArrayShape.count; omega
      have hje : j * A.elementSize + A.elementSize ≤ A.count n i * A.elementSize := by
        rw [← Nat.succ_mul]
        exact Nat.mul_le_mul_right _ hj
      rw [if_pos hin, Nat.add_mul, slice_overlay_inside _ _ _ _ _ hwrite (by rw [hlen]; exact hje),
          Nat.add_sub_cancel_left]
      unfold ArrayShape.srcElement slice
      rw [drop_take, take_take, Nat.min_eq_left (by omega)]
    · rw [if_neg hin]
      by_cases hleft : k < i
      · refine slice_overlay_left _ _ _ _ _ hwrite ?_
        rw [← Nat.succ_mul]
        exact Nat.mul_le_mul_right _ hleft
      · refine slice_overlay_right _ _ _ _ _ hwrite ?_
        rw [hlen, ← Nat.add_mul]
        refine Nat.mul_le_mul_right _ ?_
        unfold ArrayShape.count
        omega

theorem update_exact :
    ∃ a', a.update src n i = some a' ∧ a'.valid = true ∧ a'.locked = a.locked ∧
      ∀ k, k < A.numElements → a'.element k =
        if i ≤ k ∧ k < i + n then A.srcElement src (k - i) else a.element k := by
  obtain ⟨a', hcopy, helem⟩ := copyDataFrom_exact a h hsrc
  have hlocked : a'.locked = a.locked := by
    unfold copyDataFrom_ at hcopy
    simp only at hcopy
    split at hcopy
    next => cases hcopy; rfl
    next => exact absurd hcopy (by simp)
  refine ⟨{ a' with valid := true, seqNum := advanceSequenceNumber a'.seqNum }, ?_, rfl, hlocked,
    helem⟩
  unfold update
  rw [hcopy, Option.map_some]

end

/-- The copy may be given the number that the change test has cut already. -/
theorem update_truncate (a : ArrayPoint A) (src : List Byte) (hi : i < P.sizeMod) :
    a.update src (A.truncate n i) i = a.update src n i := by
  unfold update copyDataFrom_
  simp [A.truncate_truncate hi]

/-- **A write that the lock lets through.** -/
theorem writeArrayElements_exact (a : ArrayPoint A) (h : A.Exact n i) (hi : i < P.sizeMod)
    (hsrc : n * A.elementSize ≤ src.length) {lockRequest : LockRequest}
    (hlock : (PointData.testAndUpdateLock a.locked lockRequest).2 = true) :
    ∃ a', a.writeArrayElements src n i lockRequest = some a' ∧
      a'.locked = (PointData.testAndUpdateLock a.locked lockRequest).1 ∧
      (∀ k, k < A.numElements → a'.element k =
        if i ≤ k ∧ k < i + n then A.srcElement src (k - i) else a.element k) ∧
      (a'.valid = a.valid → (∀ k, k < A.numElements → a'.element k = a.element k) →
        a'.seqNum = a.seqNum) := by
  let b : ArrayPoint A :=
    { a with locked := (PointData.testAndUpdateLock a.locked lockRequest).1 }
  obtain ⟨a', hupdate, hvalid, hlocked, helem⟩ := update_exact b h hsrc
  obtain ⟨r, hequal, hr⟩ := isDataEqual_exact b h hsrc
  have hwrite : a.writeArrayElements src n i lockRequest
      = if a.valid then (if r then some b else some a') else some a' := by
    unfold writeArrayElements
    rw [if_pos hlock]
    rw [hequal, Option.bind_some, update_truncate b src hi, hupdate]
  by_cases hsame : a.valid = true ∧ r = true
  · -- the point is valid and nothing changes
    refine ⟨b, by rw [hwrite, if_pos hsame.1, if_pos hsame.2], rfl, fun k hk => ?_, fun _ _ => rfl⟩
    by_cases hin : i ≤ k ∧ k < i + n
    · rw [if_pos hin]
      exact hr.mp hsame.2 k hin.1 (by omega)
    · rw [if_neg hin]; rfl
  · refine ⟨a', ?_, hlocked, helem, fun hv hkeep => ?_⟩
    · rw [hwrite]
      by_cases ha : a.valid = true
      · rw [if_pos ha, if_neg fun hr' => hsame ⟨ha, hr'⟩]
      · rw [if_neg ha]
    · -- the test has found a difference, so something changes
      refine absurd ⟨by rw [← hv]; exact hvalid, hr.mpr fun k hik hk => ?_⟩ hsame
      have hk' := helem k (by omega)
      rw [if_pos ⟨hik, by omega⟩, hkeep k (by omega)] at hk'
      exact hk'

end ArrayPoint

/-- A write that the lock does not let through. -/
theorem ArrayPoint.writeArrayElements_locked {A : ArrayShape P} (a : ArrayPoint A) (src : List Byte)
    (n i : Nat) {lockRequest : LockRequest}
    (hlock : (PointData.testAndUpdateLock a.locked lockRequest).2 = false) :
    a.writeArrayElements src n i lockRequest
      = some { a with locked := (PointData.testAndUpdateLock a.locked lockRequest).1 } := by
  unfold ArrayPoint.writeArrayElements
  rw [if_neg (by rw [hlock]; decide)]

/-- **The calls keep their promise EXACTLY when the cut is exact**: the index is
inside the array and the sum does not wrap, or it is behind the end and the copy is
of 0 bytes. -/
theorem ArrayShape.truncates_iff (A : ArrayShape P) (n i : Fin P.sizeMod) :
    Truncates A n i ↔ A.CutsExactly n i := by
  constructor
  · intro h
    -- a valid array of zeros tells the cases apart
    have hread := h.read ⟨replicate (A.numElements * A.elementSize) 0#8,
      length_replicate, true, false, SEQUENCE_NUMBER_UNKNOWN⟩
    unfold ArrayPoint.readArrayElements ArrayPoint.copyDataTo_ at hread
    simp only [if_true, length_replicate] at hread
    split at hread
    next hin =>
      by_cases hle : i.val ≤ A.numElements
      · refine Or.inl ⟨hle, Nat.lt_of_not_le fun hsum => ?_⟩
        exact absurd hin (Nat.not_le.mpr (A.overrun_of_wrap hle n.isLt hsum))
      · -- behind the end nothing may be read
        have hcount : A.count n i = 0 := by unfold ArrayShape.count; omega
        rw [hcount] at hread
        simp only [Option.map_some, Option.some.injEq, Prod.mk.injEq, range_zero,
          flatMap_nil, and_true] at hread
        have hlen := congrArg length hread
        rw [length_slice _ _ _ (by rw [length_replicate]; exact hin)] at hlen
        exact Or.inr ⟨by omega, (A.byteLength_behind (by omega) i.isLt).mp hlen⟩
    next => exact absurd hread (by simp)
  · intro h
    have hexact := A.exact_of_cutsExactly i.isLt n.isLt h
    refine ⟨fun a => ?_, fun a src hsrc => ?_, fun a src lockRequest hsrc => ?_⟩
    · unfold ArrayPoint.readArrayElements
      rw [ArrayPoint.copyDataTo_exact a hexact]
      cases a.valid <;> rfl
    · obtain ⟨r, hequal, hr⟩ := ArrayPoint.isDataEqual_exact a hexact hsrc
      exact ⟨r, _, hequal, hr⟩
    · cases hlock : (PointData.testAndUpdateLock a.locked lockRequest).2 with
      | false =>
        refine ⟨_, ArrayPoint.writeArrayElements_locked a src n i hlock, fun k _ => ?_,
          fun _ _ => rfl⟩
        rfl
      | true =>
        obtain ⟨a', hwrite, -, helem, hseq⟩ :=
          ArrayPoint.writeArrayElements_exact a hexact i.isLt hsrc hlock
        refine ⟨a', hwrite, fun k hk => ?_, hseq⟩
        rw [helem k hk]
        simp

/-- Two elements of one byte, on a 64-bit build. -/
def pairShape : ArrayShape Platform.default64 := ⟨2, 1, Nat.one_pos, by decide⟩

/-- Such a point, valid and unlocked. -/
def pairPoint : ArrayPoint pairShape := ⟨[7#8, 8#8], rfl, true, false, 1#16⟩

/-- **An index behind the end, and a sum that wraps, leave the array**: one element
from index 3 on is a copy of 2^64 - 1 bytes, and 2^64 - 1 elements from index 1 on
are not cut. -/
theorem pastEnd_faults :
    pairPoint.readArrayElements 1 3 = none ∧
    pairPoint.writeArrayElements [9#8] 1 3 .eNO_REQUEST = none ∧
    pairPoint.readArrayElements (2 ^ 64 - 1) 1 = none := by
  decide +kernel

end ColonyCore.Dm
