/-
  ColonyCore.Dm.ArrayJson
  **AN ARRAY WRITTEN FROM JSON (`NumericArrayBase_::fromJSON_`, `Cpl/Dm/Mp/Array.h`).**

  `fromJSON_` takes `{start:<index>, elems:[..]}`, checks the range, and writes the
  elements block by block through a small array on the stack.  Two of its expressions
  are not what they should be: the type check of EVERY block looks at the elements of
  the FIRST one, and `start` is an `int` that becomes a `size_t`.

    • `fillLoop_inside`  — a request inside the array, all of it typed, is written whole,
    • `fillLoop_typed`   — once the first block is typed nothing is rejected any more,
    • `exactOrRejected_iff` — the call is exact or rejects whole EXACTLY when the start
      is not mistaken and the elements behind the first block are typed (or the request
      is rejected before the first write anyway),
    • `untyped_accepted` — the two errors.
-/
import ColonyCore.Dm.ArrayPoint

namespace ColonyCore.Dm

open ByteStore LittleEndian List
open Persistent (Platform)

variable {P : Platform} {A : ArrayShape P} {J : Type}

/-! ## §1. The code. -/

/-- The options of a build: `OPTION_CPL_DM_MP_ARRAY_TEMP_ARRAY_NUM_ELEMENTS` and
`INT_MAX`. -/
structure JsonOptions where
  tempArrayNumElements : Nat
  tempArray_pos : 0 < tempArrayNumElements
  intMax : Nat

/-- The element type as the JSON library sees it: `is<ELEMTYPE>()`, and
`as<ELEMTYPE>()` in memory.  `null` is what `elems[i]` is behind the last element. -/
structure ElemType (A : ArrayShape P) (J : Type) where
  isElem : J → Bool
  asElem : J → List Byte
  null : J
  length_asElem : ∀ j, (asElem j).length = A.elementSize

/-- The argument of `fromJSON_`: `none` for a missing `elems`, and for a `start` that
is missing or not an integer. -/
structure JsonSrc (J : Type) where
  isObject : Bool
  elems : Option (List J)
  start : Option Int

/-- The ways to return false. -/
inductive JsonError where
  | notAnObject
  | missingElems
  | exceeds (startIdx numElements elementCount : Nat)
  | failedParsing (offset : Nat)
  deriving DecidableEq, Repr

/-- The text put into `errorMsg`. -/
def JsonError.errorMsg : JsonError → String
  | .notAnObject => "'val' key/value pair is NOT an JSON object"
  | .missingElems => "'val' key/value pair is missing the embedded 'elems' array"
  | .exceeds startIdx numElements elementCount =>
    "Number of array elements ([" ++ toString startIdx ++ "+" ++ toString numElements ++
      ")] exceeds the MP's element count (" ++ toString elementCount ++ ")"
  | .failedParsing offset =>
    "Failed parsing element[" ++ toString offset ++ "]. Content of the MP is suspect!"

/-- What the call leaves: the point, why it returned false (`none` for true), and
`retSequenceNumber` if it was set. -/
structure FromJson (A : ArrayShape P) where
  point : ArrayPoint A
  error : Option JsonError
  retSequenceNumber : Option SeqNum

/-- `src["start"] | 0` as a `size_t`: an integer that does not fit an `int` counts as
missing. -/
def startIdx (P : Platform) (O : JsonOptions) (start : Option Int) : Nat :=
  let value : Int := match start with
    | some z => if -(O.intMax + 1 : Int) ≤ z ∧ z ≤ O.intMax then z else 0
    | none => 0
  (value % P.sizeMod).toNat

namespace ElemType

/-- The inner loop: the first `idx` entries of `tempArray`.  The type is checked at
`idx`, the value is taken at `idx + offset`. -/
def fillTempArray (E : ElemType A J) (elems : List J) (offset : Nat) :
    Nat → Except JsonError (List Byte)
  | 0 => .ok []
  | idx + 1 =>
    match E.fillTempArray elems offset idx with
    | .error e => .error e
    | .ok tempArray =>
      if E.isElem (elems.getD idx E.null) then
        .ok (tempArray ++ E.asElem (elems.getD (idx + offset) E.null))
      else .error (.failedParsing offset)

/-- The outer loop.  `fuel` is at least `numElements`, which every block decreases. -/
def fillLoop (E : ElemType A J) (O : JsonOptions) (elems : List J) (start : Nat)
    (lockRequest : LockRequest) :
    (fuel numElements offset : Nat) → ArrayPoint A → Option SeqNum → Option (FromJson A)
  | 0, _, _, a, ret => some ⟨a, none, ret⟩
  | fuel + 1, numElements, offset, a, ret =>
    if numElements = 0 then some ⟨a, none, ret⟩ else
    let idx := min numElements O.tempArrayNumElements
    match E.fillTempArray elems offset idx with
    | .error e => some ⟨a, some e, ret⟩
    | .ok tempArray =>
      (a.writeArrayElements tempArray idx ((start + offset) % P.sizeMod) lockRequest).bind
        fun a => E.fillLoop O elems start lockRequest fuel (numElements - idx) (offset + idx) a
          (some a.seqNum)

/-- `fromJSON_`; `none` is a copy outside the array. -/
def fromJSON_ (E : ElemType A J) (O : JsonOptions) (a : ArrayPoint A) (src : JsonSrc J)
    (lockRequest : LockRequest) : Option (FromJson A) :=
  if src.isObject = false then some ⟨a, some .notAnObject, none⟩ else
  match src.elems with
  | none => some ⟨a, some .missingElems, none⟩
  | some elems =>
    let start := startIdx P O src.start
    let numElements := elems.length
    if A.numElements < (numElements + start) % P.sizeMod then
      some ⟨a, some (.exceeds start numElements A.numElements), none⟩
    else E.fillLoop O elems start lockRequest numElements numElements 0 a none

/-! ## §2. The loops. -/

variable (E : ElemType A J)

variable (elems : List J)

/-- The block of `c` elements from `offset` on, as bytes. -/
def block (offset c : Nat) : List Byte :=
  (range c).flatMap fun j => E.asElem (elems.getD (j + offset) E.null)

/-- **The inner loop**: whether it ends depends on the FIRST elements, wherever the
block is. -/
theorem fillTempArray_eq (offset c : Nat) :
    E.fillTempArray elems offset c =
      if ∀ j, j < c → E.isElem (elems.getD j E.null) = true then .ok (E.block elems offset c)
      else .error (.failedParsing offset) := by
  induction c with
  | zero => rw [if_pos (by simp)]; rfl
  | succ c ih =>
    rw [fillTempArray, ih]
    by_cases hinit : ∀ j, j < c → E.isElem (elems.getD j E.null) = true
    · rw [if_pos hinit]
      by_cases hlast : E.isElem (elems.getD c E.null) = true
      · have hall : ∀ j, j < c + 1 → E.isElem (elems.getD j E.null) = true := fun j hj =>
          (Nat.lt_succ_iff_lt_or_eq.mp hj).elim (hinit j) fun h => h ▸ hlast
        simp only [if_pos hall, if_pos hlast]
        unfold block
        rw [range_succ, flatMap_append, flatMap_singleton]
      · have hnot : ¬ ∀ j, j < c + 1 → E.isElem (elems.getD j E.null) = true :=
          fun hall => hlast (hall c (Nat.lt_succ_self c))
        simp only [if_neg hnot, if_neg hlast]
    · have hnot : ¬ ∀ j, j < c + 1 → E.isElem (elems.getD j E.null) = true :=
        fun hall => hinit fun j hj => hall j (by omega)
      rw [if_neg hinit, if_neg hnot]

theorem length_block (offset c : Nat) :
    (E.block elems offset c).length = c * A.elementSize :=
  length_flatMap_range _ (fun _ => E.length_asElem _) c

theorem srcElement_block (offset : Nat) {c k : Nat} (h : k < c) :
    A.srcElement (E.block elems offset c) k = E.asElem (elems.getD (k + offset) E.null) :=
  slice_flatMap_range _ (fun _ => E.length_asElem _) h

/-- The first block passes the type check. -/
def FirstTyped (O : JsonOptions) (elems : List J) : Prop :=
  ∀ j, j < min elems.length O.tempArrayNumElements → E.isElem (elems.getD j E.null) = true

variable {E} {O : JsonOptions} {elems : List J} {start : Nat} {lockRequest : LockRequest}

variable (htyped : E.FirstTyped O elems)

include htyped

/-- One round of the outer loop, once the first block is typed. -/
theorem fillLoop_step {fuel numElements : Nat} (hne : numElements ≠ 0)
    (hle : numElements ≤ elems.length) (offset : Nat) (a : ArrayPoint A) (ret : Option SeqNum) :
    E.fillLoop O elems start lockRequest (fuel + 1) numElements offset a ret =
      (a.writeArrayElements (E.block elems offset (min numElements O.tempArrayNumElements))
        (min numElements O.tempArrayNumElements) ((start + offset) % P.sizeMod) lockRequest).bind
        fun a => E.fillLoop O elems start lockRequest fuel
          (numElements - min numElements O.tempArrayNumElements)
          (offset + min numElements O.tempArrayNumElements) a (some a.seqNum) := by
  rw [fillLoop, if_neg hne]
  simp only
  rw [fillTempArray_eq, if_pos fun j hj => htyped j (by omega)]

/-- **Once the first block is typed nothing is rejected any more.** -/
theorem fillLoop_typed : ∀ (fuel numElements offset : Nat)
    (a : ArrayPoint A) (ret : Option SeqNum) {r : FromJson A}, numElements ≤ elems.length →
    E.fillLoop O elems start lockRequest fuel numElements offset a ret = some r →
    r.error = none := by
  intro fuel
  induction fuel with
  | zero =>
    intro numElements offset a ret r _ h
    cases h
    rfl
  | succ fuel ih =>
    intro numElements offset a ret r hle h
    by_cases hzero : numElements = 0
    · rw [fillLoop, if_pos hzero] at h
      cases h
      rfl
    · rw [fillLoop_step htyped hzero hle] at h
      obtain ⟨a', -, hrest⟩ := Option.bind_eq_some_iff.mp h
      exact ih _ _ a' _ (by omega) hrest

/-- **A range inside the array is written whole**, block by block: the rest of the
elements go to the rest of the range. -/
theorem fillLoop_inside (hfit : start + elems.length ≤ A.numElements) :
    ∀ (fuel numElements offset : Nat)
    (a : ArrayPoint A) (ret : Option SeqNum), numElements ≤ fuel →
    offset + numElements = elems.length →
    (PointData.testAndUpdateLock a.locked lockRequest).2 = true →
    ∃ r, E.fillLoop O elems start lockRequest fuel numElements offset a ret = some r ∧
      r.error = none ∧
      ∀ k, k < A.numElements → r.point.element k =
        if start + offset ≤ k ∧ k < start + elems.length then
          E.asElem (elems.getD (k - start) E.null)
        else a.element k := by
  have hN := A.numElements_lt
  -- with no element left the range is empty
  have hdone : ∀ {offset : Nat} (a : ArrayPoint A), offset = elems.length →
      ∀ k, k < A.numElements → a.element k =
        if start + offset ≤ k ∧ k < start + elems.length then
          E.asElem (elems.getD (k - start) E.null)
        else a.element k := by
    intro offset a hall k _
    rw [if_neg (by omega)]
  intro fuel
  induction fuel with
  | zero =>
    intro numElements offset a ret hfuel hsum _
    exact ⟨_, rfl, rfl, hdone a (by omega)⟩
  | succ fuel ih =>
    intro numElements offset a ret hfuel hsum hlock
    by_cases hzero : numElements = 0
    · exact ⟨⟨a, none, ret⟩, by rw [fillLoop, if_pos hzero], rfl, hdone a (by omega)⟩
    · have hpos := O.tempArray_pos
      rw [fillLoop_step htyped hzero (by omega)]
      -- `c` elements are written in this round
      generalize hc : min numElements O.tempArrayNumElements = c
      rw [Nat.mod_eq_of_lt (show start + offset < P.sizeMod by omega)]
      have hexact : A.Exact c (start + offset) := A.exact_inside (by omega) (by omega)
      obtain ⟨a', hwrite, hlocked, helem, -⟩ := ArrayPoint.writeArrayElements_exact a hexact
        (by omega) (Nat.le_of_eq (E.length_block elems offset c).symm) hlock
      obtain ⟨r, hrest, herror, hr⟩ := ih (numElements - c) (offset + c) a' (some a'.seqNum)
        (by omega) (by omega) (by rw [hlocked]; exact PointData.testAndUpdateLock_again hlock)
      refine ⟨r, by rw [hwrite, Option.bind_some, hrest], herror, fun k hk => ?_⟩
      rw [hr k hk]
      by_cases hlater : start + (offset + c) ≤ k ∧ k < start + elems.length
      · rw [if_pos hlater, if_pos ⟨by omega, hlater.2⟩]
      · rw [if_neg hlater, helem k hk]
        by_cases hnow : start + offset ≤ k ∧ k < start + offset + c
        · rw [if_pos hnow, if_pos ⟨hnow.1, by omega⟩, srcElement_block E elems offset (by omega)]
          congr 2
          omega
        · rw [if_neg hnow, if_neg (by omega)]

end ElemType

/-! ## §3. Exact or rejected whole. -/

namespace ElemType

variable (E : ElemType A J) (O : JsonOptions) (start : Option Int) (elems : List J)

/-- The requested index; a missing one is 0. -/
def requested (start : Option Int) : Int := start.getD 0

/-- The requests that are to be written. -/
def Acceptable : Prop :=
  0 ≤ requested start ∧ requested start + elems.length ≤ A.numElements ∧
    ∀ j, j < elems.length → E.isElem (elems.getD j E.null) = true

/-- **What the call promises** on an unlocked point: it returns true exactly for an
acceptable request, and then the elements of the range take the listed values and no
other changes; otherwise no element changes. -/
def ExactOrRejected : Prop :=
  ∀ (a : ArrayPoint A) (lockRequest : LockRequest), a.locked = false →
    ∃ r, E.fromJSON_ O a ⟨true, some elems, start⟩ lockRequest = some r ∧
      (r.error = none ↔ E.Acceptable start elems) ∧
      (E.Acceptable start elems → ∀ k, k < A.numElements → r.point.element k =
        if requested start ≤ k ∧ k < requested start + elems.length then
          E.asElem (elems.getD (k - (requested start).toNat) E.null)
        else a.element k) ∧
      (¬ E.Acceptable start elems → ∀ k, k < A.numElements → r.point.element k = a.element k)

/-- The range check rejects the request. -/
def RangeRejected (A : ArrayShape P) : Prop :=
  A.numElements < (elems.length + startIdx P O start) % P.sizeMod

/-- The start is neither negative, nor too large for an `int` (which matters unless
there is nothing to write), nor does the sum wrap. -/
def StartTaken (A : ArrayShape P) : Prop :=
  0 ≤ requested start ∧ requested start + elems.length < P.sizeMod ∧
    (requested start ≤ O.intMax ∨ (elems = [] ∧ requested start ≤ A.numElements))

/-- The elements behind the first block have the element type. -/
def TailTyped : Prop :=
  ∀ j, O.tempArrayNumElements ≤ j → j < elems.length → E.isElem (elems.getD j E.null) = true

variable {E O start elems}

theorem startIdx_eq : startIdx P O start =
    ((if -(O.intMax + 1 : Int) ≤ requested start ∧ requested start ≤ O.intMax
      then requested start else 0) % P.sizeMod).toNat := by
  cases start with
  | none => simp [startIdx, requested]
  | some z => rfl

/-- A start that fits an `int` is taken as it is. -/
theorem startIdx_taken (h0 : 0 ≤ requested start) (hlt : requested start < P.sizeMod)
    (hint : requested start ≤ O.intMax) : startIdx P O start = (requested start).toNat := by
  rw [startIdx_eq, if_pos ⟨by omega, hint⟩, Int.emod_eq_of_lt h0 hlt]

/-- One that does not is mistaken for 0. -/
theorem startIdx_large (h : (O.intMax : Int) < requested start) : startIdx P O start = 0 := by
  rw [startIdx_eq, if_neg (by omega)]
  simp

theorem fromJSON_rejected (h : RangeRejected O start elems A) (a : ArrayPoint A)
    (lockRequest : LockRequest) :
    E.fromJSON_ O a ⟨true, some elems, start⟩ lockRequest =
      some ⟨a, some (.exceeds (startIdx P O start) elems.length A.numElements), none⟩ := by
  exact if_pos h

theorem fromJSON_loop (h : ¬ RangeRejected O start elems A) (a : ArrayPoint A)
    (lockRequest : LockRequest) :
    E.fromJSON_ O a ⟨true, some elems, start⟩ lockRequest =
      E.fillLoop O elems (startIdx P O start) lockRequest elems.length elems.length 0 a none := by
  exact if_neg h

/-- An untyped element in the first block is found before anything is written. -/
theorem fillLoop_untyped (h : ¬ E.FirstTyped O elems) (idx : Nat) (a : ArrayPoint A)
    (lockRequest : LockRequest) :
    E.fillLoop O elems idx lockRequest elems.length elems.length 0 a none =
      some ⟨a, some (.failedParsing 0), none⟩ := by
  have hne : elems.length ≠ 0 := fun hzero => h fun j hj => by omega
  obtain ⟨n, hn⟩ := Nat.exists_eq_succ_of_ne_zero hne
  unfold FirstTyped at h
  rw [hn] at h ⊢
  rw [fillLoop, if_neg (Nat.succ_ne_zero n)]
  simp only
  rw [fillTempArray_eq, if_neg h]

/-- An acceptable request passes the range check. -/
theorem not_rangeRejected (h : E.Acceptable start elems) : ¬ RangeRejected O start elems A := by
  obtain ⟨h0, hsum, -⟩ := h
  have hN := A.numElements_lt
  unfold RangeRejected
  by_cases hint : requested start ≤ O.intMax
  · rw [startIdx_taken h0 (by omega) hint, Nat.mod_eq_of_lt (by omega)]
    omega
  · rw [startIdx_large (by omega), Nat.mod_eq_of_lt (by omega)]
    omega

/-- An unlocked array all of one byte. -/
def filled (A : ArrayShape P) (b : Byte) : ArrayPoint A :=
  ⟨replicate (A.numElements * A.elementSize) b, length_replicate, true, false,
    SEQUENCE_NUMBER_UNKNOWN⟩

theorem filled_element {k : Nat} (hk : k < A.numElements) (b : Byte) :
    (filled A b).element k = replicate A.elementSize b := by
  have hend : k * A.elementSize + A.elementSize ≤ A.numElements * A.elementSize := by
    rw [← Nat.succ_mul]
    exact Nat.mul_le_mul_right _ hk
  simp only [filled, ArrayPoint.element, slice, drop_replicate, take_replicate]
  congr 1
  omega

/-- A request that is written is written where it says: a start mistaken for 0 shows
on some array. -/
theorem taken_of_exact (h : E.ExactOrRejected O start elems) (hacc : E.Acceptable start elems)
    (hne : elems ≠ []) : requested start ≤ O.intMax := by
  by_contra hlarge
  obtain ⟨h0, hsum, htyped⟩ := id hacc
  have hlen : 0 < elems.length := length_pos_iff.mpr hne
  -- the last element of the range, which a write from 0 on does not reach
  obtain ⟨k, hk⟩ : ∃ k : Nat, (k : Int) = requested start + elems.length - 1 :=
    ⟨_, Int.toNat_of_nonneg (by omega)⟩
  have hkeep : ∀ b, (filled A b).element k
      = E.asElem (elems.getD (k - (requested start).toNat) E.null) := by
    intro b
    obtain ⟨r, hrun, -, hr, -⟩ := h (filled A b) .eNO_REQUEST rfl
    rw [fromJSON_loop (not_rangeRejected hacc), startIdx_large (by omega)] at hrun
    have hfirst : E.FirstTyped O elems := fun j hj => htyped j (by omega)
    have hfit : 0 + elems.length ≤ A.numElements := by omega
    have hlock : (PointData.testAndUpdateLock (filled A b).locked .eNO_REQUEST).2 = true := rfl
    obtain ⟨r', hrun', -, hr'⟩ := fillLoop_inside hfirst hfit
      elems.length elems.length 0 (filled A b) none le_rfl (by omega) hlock
    have hsame : r = r' := Option.some.inj (hrun.symm.trans hrun')
    have hspec := hr hacc k (by omega)
    rw [if_pos ⟨by omega, by omega⟩, hsame, hr' k (by omega), if_neg (by omega)] at hspec
    exact hspec
  have hdiff := (hkeep 0#8).trans (hkeep 1#8).symm
  rw [filled_element (by omega), filled_element (by omega), replicate_inj] at hdiff
  have hpos := A.elementSize_pos
  rcases hdiff.2 with hzero | hbyte
  · omega
  · exact absurd hbyte (by decide)

/-- **A request whose start is taken as it is and whose elements are typed is
written whole.** -/
theorem written_of_taken (hreject : ¬ RangeRejected O start elems A)
    (htaken : StartTaken O start elems A)
    (htyped : ∀ j, j < elems.length → E.isElem (elems.getD j E.null) = true) (a : ArrayPoint A)
    (lockRequest : LockRequest) (hunlocked : a.locked = false) :
    E.Acceptable start elems ∧
    ∃ r, E.fillLoop O elems (startIdx P O start) lockRequest elems.length elems.length 0 a none
        = some r ∧ r.error = none ∧
      ∀ k, k < A.numElements → r.point.element k =
        if requested start ≤ k ∧ k < requested start + elems.length then
          E.asElem (elems.getD (k - (requested start).toNat) E.null)
        else a.element k := by
  obtain ⟨h0, hwrap, hint | ⟨rfl, hle⟩⟩ := htaken
  · have hidx := startIdx_taken (P := P) h0 (by omega) hint
    have hfit : (requested start).toNat + elems.length ≤ A.numElements := by
      unfold RangeRejected at hreject
      rw [Nat.mod_eq_of_lt (by omega)] at hreject
      omega
    have hlock : (PointData.testAndUpdateLock a.locked lockRequest).2 = true := by
      rw [hunlocked]
      cases lockRequest <;> rfl
    have hfirst : E.FirstTyped O elems := fun j hj => htyped j (by omega)
    obtain ⟨r, hrun, hnone, hr⟩ := fillLoop_inside hfirst hfit elems.length elems.length 0 a
      none le_rfl (by omega) hlock
    refine ⟨⟨h0, by omega, htyped⟩, r, by rw [hidx]; exact hrun, hnone, fun k hk => ?_⟩
    rw [hr k hk]
    by_cases hin : requested start ≤ k ∧ k < requested start + elems.length
    · rw [if_pos hin, if_pos (by omega)]
    · rw [if_neg hin, if_neg (by omega)]
  · -- there is nothing to write
    refine ⟨⟨h0, by simpa using hle, htyped⟩, ⟨a, none, none⟩, rfl, rfl, fun k _ => ?_⟩
    rw [if_neg (by simp only [length_nil]; omega)]

/-- A rejected request was not acceptable, and nothing has been written. -/
theorem rejected_whole {a : ArrayPoint A} {e : JsonError} {ret : Option SeqNum}
    (hnot : ¬ E.Acceptable start elems) :
    ((⟨a, some e, ret⟩ : FromJson A).error = none ↔ E.Acceptable start elems) :=
  ⟨nofun, fun hacc => absurd hacc hnot⟩

/-- **The call is exact or rejects whole EXACTLY when** the request is rejected before
the first write (by the range check or by the type of one of the first elements), or
its start is taken as it is and the elements behind the first block are typed. -/
theorem exactOrRejected_iff (E : ElemType A J) (O : JsonOptions) (start : Option Int)
    (elems : List J) :
    E.ExactOrRejected O start elems ↔
      RangeRejected O start elems A ∨ ¬ E.FirstTyped O elems ∨
        (StartTaken O start elems A ∧ E.TailTyped O elems) := by
  have hN := A.numElements_lt
  constructor
  · intro h
    by_cases hreject : RangeRejected O start elems A
    · exact .inl hreject
    by_cases hfirst : E.FirstTyped O elems
    · -- nothing is rejected any more, so the request had better be acceptable
      obtain ⟨r, hrun, hok, -⟩ := h (filled A 0#8) .eNO_REQUEST rfl
      rw [fromJSON_loop hreject] at hrun
      have hacc := hok.mp (fillLoop_typed hfirst _ _ _ _ _ le_rfl hrun)
      obtain ⟨h0, hsum, htyped⟩ := id hacc
      refine .inr (.inr ⟨⟨h0, by omega, ?_⟩, fun j _ hj => htyped j hj⟩)
      by_cases hnil : elems = []
      · exact .inr ⟨hnil, by omega⟩
      · exact .inl (taken_of_exact h hacc hnil)
    · exact .inr (.inl hfirst)
  · intro h a lockRequest hunlocked
    by_cases hreject : RangeRejected O start elems A
    · have hnot : ¬ E.Acceptable start elems := fun hacc => not_rangeRejected hacc hreject
      exact ⟨_, fromJSON_rejected hreject a lockRequest, rejected_whole hnot,
        fun hacc => absurd hacc hnot, fun _ _ _ => rfl⟩
    rw [fromJSON_loop hreject]
    by_cases hfirst : E.FirstTyped O elems
    · obtain ⟨htaken, htail⟩ := (h.resolve_left hreject).resolve_left (not_not_intro hfirst)
      have htyped : ∀ j, j < elems.length → E.isElem (elems.getD j E.null) = true := by
        intro j hj
        by_cases hblock : j < O.tempArrayNumElements
        · exact hfirst j (by omega)
        · exact htail j (by omega) hj
      obtain ⟨hacc, r, hrun, hnone, hr⟩ :=
        written_of_taken hreject htaken htyped a lockRequest hunlocked
      exact ⟨r, hrun, ⟨fun _ => hacc, fun _ => hnone⟩, fun _ => hr, fun hno => absurd hacc hno⟩
    · have hnot : ¬ E.Acceptable start elems :=
        fun hacc => hfirst fun j hj => hacc.2.2 j (by omega)
      exact ⟨_, fillLoop_untyped hfirst _ a lockRequest, rejected_whole hnot,
        fun hacc => absurd hacc hnot, fun _ _ _ => rfl⟩

end ElemType

/-! ## §4. The two errors. -/

/-- Four one-byte elements, on a 64-bit build. -/
def quadShape : ArrayShape Platform.default64 := ⟨4, 1, Nat.one_pos, by decide⟩

/-- The elements as the library sees them: a number, or something else, which is read
as 0. -/
def byteElem : ElemType quadShape (Option Byte) :=
  ⟨Option.isSome, fun j => [j.getD 0#8], none, fun _ => rfl⟩

/-- A temporary array of two elements and a 32-bit `int`. -/
def twoAtOnce : JsonOptions := ⟨2, by decide, 2 ^ 31 - 1⟩

/-- A valid, unlocked array. -/
def quadPoint : ArrayPoint quadShape := ⟨[1#8, 2#8, 3#8, 4#8], rfl, true, false, 1#16⟩

/-- **A third element that is not a number is written as 0, and a start of -1 copies
outside the array.** -/
theorem untyped_accepted :
    (byteElem.fromJSON_ twoAtOnce quadPoint
        ⟨true, some [some 7#8, some 8#8, none], some 1⟩ .eNO_REQUEST).map
      (fun r => (r.error, r.point.data)) = some (none, [1#8, 7#8, 8#8, 0#8]) ∧
    (byteElem.fromJSON_ twoAtOnce quadPoint
        ⟨true, some [some 7#8], some (-1)⟩ .eNO_REQUEST).isNone = true := by
  decide +kernel

end ColonyCore.Dm
