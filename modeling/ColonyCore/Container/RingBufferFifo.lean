/-
  ColonyCore.Container.RingBufferFifo
  **RUNS OF A RING BUFFER ARE RUNS OF A BOUNDED QUEUE.**

  All operations of the buffer, the bulk ones with direct access to its memory
  included, next to a FIFO queue of one element less than the memory.

    • `addItems_spec`, `removeItems_spec` — a bulk operation is single ones, and the flat
      count is the largest one that is contiguous and available,
    • `step_spec` — one operation, from any position of head and tail,
    • `fifo_iff` — a run gives the queue's answers IFF no bulk removal finds the buffer
      empty with a stale count,
    • `count_stale` — the one that does.
-/
import ColonyCore.Container.RingBuffer
import Mathlib.Order.Bounds.Basic

namespace ColonyCore.Container.RingBuffer

open List

variable {α : Type}

/-! ## §1. The remaining operations of the buffer. -/

variable (r : RingBuffer α)

/-- `clearTheBuffer`. -/
def clearTheBuffer : RingBuffer α :=
  have h := Nat.lt_of_le_of_lt (Nat.zero_le _) r.headPtr_lt
  { r with headPtr := 0, tailPtr := 0, headPtr_lt := h, tailPtr_lt := h }

/-- `peekHead`: a pointer, or 0. -/
def peekHead : Option Nat := if r.isEmpty then none else some r.headPtr

/-- `peekTail`: the element before the tail, at the start of the memory the last one. -/
def peekTail : Option Nat :=
  if r.isEmpty then none
  else some (if r.tailPtr = 0 then r.memoryNumElements - 1 else r.tailPtr - 1)

/-- `ptr += n`, turned back at the end of the memory. -/
def advance (m ptr n : Nat) : Nat := if m ≤ ptr + n then 0 else ptr + n

theorem advance_lt {m ptr n : Nat} (h : ptr < m) : advance m ptr n < m := by
  unfold advance
  split <;> omega

/-- `peekNextRemoveItems`: the pointer, and `dstNumFlatElements` after the call. -/
def peekNextRemoveItems (dstNumFlatElements : Nat) : Option Nat × Nat :=
  if r.isEmpty then (none, dstNumFlatElements)
  else
    let totalNumElements := r.getNumItems
    let dstNumFlatElements := r.memoryNumElements - r.headPtr
    (some r.headPtr,
      if dstNumFlatElements > totalNumElements then totalNumElements else dstNumFlatElements)

/-- `removeElements`. -/
def removeElements (numElementsToRemove : Nat) : RingBuffer α :=
  { r with
    headPtr := advance r.memoryNumElements r.headPtr numElementsToRemove
    headPtr_lt := advance_lt r.headPtr_lt }

/-- `peekNextAddItems`; its count does not depend on the one passed in. -/
def peekNextAddItems : Option Nat × Nat :=
  if r.isFull then (none, 0)
  else
    let totalAvailElements := r.getMaxItems - r.getNumItems
    let dstNumFlatElements := r.memoryNumElements - r.tailPtr
    (some r.tailPtr,
      if dstNumFlatElements > totalAvailElements then totalAvailElements else dstNumFlatElements)

/-- `addElements`. -/
def addElements (numElementsAdded : Nat) : RingBuffer α :=
  { r with
    tailPtr := advance r.memoryNumElements r.tailPtr numElementsAdded
    tailPtr_lt := advance_lt r.tailPtr_lt }

/-- The client fills the memory from a pointer on. -/
def fill (ptr : Nat) (items : List α) : RingBuffer α :=
  { r with elements := fun i =>
      if ptr ≤ i then items[i - ptr]?.getD (r.elements i) else r.elements i }

/-! ## §2. Operations of a client, and their answers. -/

/-- One operation. A bulk one is the pair of calls with the client's direct access to the
memory between them; `k` and the items are cut to the flat count that the first call
returns, and `dst` is what `dstNumFlatElements` holds before it. -/
inductive Op (α : Type) where
  | add (item : α)
  | remove
  | clearTheBuffer
  | peekHead
  | peekTail
  | getNumItems
  | isEmpty
  | isFull
  | addItems (items : List α)
  | removeItems (dst k : Nat)

/-- What an operation returns. -/
inductive Answer (α : Type) where
  | done
  | flag (b : Bool)
  | number (n : Nat)
  | item (x : Option α)
  | added (flat : Nat)
  | removed (flat : Nat) (items : List α)

/-- `peekNextAddItems`, the client's filling, `addElements`. -/
def addItems (items : List α) : Nat × RingBuffer α :=
  let (ptr, flat) := r.peekNextAddItems
  let items := items.take flat
  let r := match ptr with
    | none => r
    | some p => r.fill p items
  (flat, r.addElements items.length)

/-- `peekNextRemoveItems`, the client's reading, `removeElements`. -/
def removeItems (dst k : Nat) : Nat × List α × RingBuffer α :=
  let (ptr, flat) := r.peekNextRemoveItems dst
  let k := min k flat
  let items := match ptr with
    | none => []
    | some p => (range k).map fun i => r.elements (p + i)
  (flat, items, r.removeElements k)

/-- One operation on the buffer. -/
def step : Op α → Answer α × RingBuffer α
  | .add item =>
    match r.add item with
    | none => (.flag false, r)
    | some r => (.flag true, r)
  | .remove =>
    match r.remove with
    | none => (.item none, r)
    | some (item, r) => (.item (some item), r)
  | .clearTheBuffer => (.done, r.clearTheBuffer)
  | .peekHead => (.item (r.peekHead.map r.elements), r)
  | .peekTail => (.item (r.peekTail.map r.elements), r)
  | .getNumItems => (.number r.getNumItems, r)
  | .isEmpty => (.flag r.isEmpty, r)
  | .isFull => (.flag r.isFull, r)
  | .addItems items =>
    let (flat, r) := r.addItems items
    (.added flat, r)
  | .removeItems dst k =>
    let (flat, items, r) := r.removeItems dst k
    (.removed flat items, r)

/-! ## §3. The queue. -/

/-- A single `add` to a queue of capacity `cap`. -/
def fifoAdd (cap : Nat) (q : List α) (item : α) : Bool × List α :=
  if q.length < cap then (true, q ++ [item]) else (false, q)

/-- A single `remove`. -/
def fifoRemove : List α → Option α × List α
  | [] => (none, [])
  | item :: rest => (some item, rest)

/-- `k` single removals, with the items they give. -/
def fifoRemoves : Nat → List α → List α × List α
  | 0, q => ([], q)
  | k + 1, q =>
    let (item, q) := fifoRemove q
    let (items, q) := fifoRemoves k q
    (item.toList ++ items, q)

/-- One operation on a queue of capacity `cap`; `flat` is the count a bulk operation
returns. -/
def fifoStep (cap : Nat) (q : List α) (flat : Nat) : Op α → Answer α × List α
  | .add item => (.flag (fifoAdd cap q item).1, (fifoAdd cap q item).2)
  | .remove => (.item (fifoRemove q).1, (fifoRemove q).2)
  | .clearTheBuffer => (.done, [])
  | .peekHead => (.item q.head?, q)
  | .peekTail => (.item q.getLast?, q)
  | .getNumItems => (.number q.length, q)
  | .isEmpty => (.flag q.isEmpty, q)
  | .isFull => (.flag (q.length == cap), q)
  | .addItems items =>
    (.added flat, (items.take flat).foldl (fun q item => (fifoAdd cap q item).2) q)
  | .removeItems _ k =>
    let (items, q) := fifoRemoves (min k flat) q
    (.removed flat items, q)

/-- The counts of free places that are available and lie next to each other in memory,
from the place of the next item on. -/
def flatRoom : Set Nat :=
  {k | r.getNumItems + k ≤ r.getMaxItems ∧
    ∀ j < k, r.slot (r.getNumItems + j) = r.slot r.getNumItems + j}

/-- The counts of items that lie next to each other in memory, from the first one on. -/
def flatItems : Set Nat :=
  {k | k ≤ r.getNumItems ∧ ∀ j < k, r.slot j = r.slot 0 + j}

/-- The flat count an operation has to return: the largest one. -/
def FlatCount : Op α → Nat → Prop
  | .addItems _, flat => IsGreatest r.flatRoom flat
  | .removeItems _ _, flat => IsGreatest r.flatItems flat
  | _, flat => flat = 0

/-- The operations on the buffer give the answers of the queue `q`, and the right flat
counts. -/
def Follows (cap : Nat) : List α → RingBuffer α → List (Op α) → Prop
  | _, _, [] => True
  | q, r, op :: rest =>
    ∃ flat, r.FlatCount op flat ∧ (r.step op).1 = (fifoStep cap q flat op).1 ∧
      Follows cap (fifoStep cap q flat op).2 (r.step op).2 rest

/-- A bulk removal that finds the buffer empty is called with a count of 0. -/
def CountCleared : Op α → Prop
  | .removeItems dst _ => r.isEmpty = true → dst = 0
  | _ => True

/-- All bulk removals of a run are. -/
def CountsCleared : RingBuffer α → List (Op α) → Prop
  | _, [] => True
  | r, op :: rest => r.CountCleared op ∧ CountsCleared (r.step op).2 rest

/-! ## §4. Positions. -/

theorem isEmpty_iff : r.isEmpty = true ↔ r.getNumItems = 0 := by
  rw [← length_toList, length_eq_zero_iff, ← headPtr_eq_iff]
  exact decide_eq_true_iff

theorem isFull_iff : r.isFull = true ↔ r.getNumItems = r.getMaxItems := by
  have hlt := r.getNumItems_lt
  unfold isFull getMaxItems
  rw [decide_eq_true_eq, next_tailPtr_iff, length_toList]
  omega

theorem getElem?_toList (i : Nat) :
    r.toList[i]? = if i < r.getNumItems then some (r.elements (r.slot i)) else none := by
  by_cases hi : i < r.getNumItems
  · simp [toList, hi]
  · rw [if_neg hi, getElem?_eq_none (by rw [length_toList]; omega)]

theorem slot_lt {i : Nat} (h : i ≤ r.memoryNumElements) :
    r.slot i < r.memoryNumElements := by
  have hhead := r.headPtr_lt
  unfold slot
  split <;> omega

/-! ## §5. Bulk operations. -/

/-- The count of `peekNextAddItems` is the largest one that is available up to the end of
the memory. -/
theorem flatRoom_peekNextAddItems :
    IsGreatest r.flatRoom r.peekNextAddItems.2 := by
  have htail := r.tailPtr_lt
  have hnum := r.getNumItems_lt
  have hfull := r.isFull_iff
  have hnext := r.slot_getNumItems
  unfold getMaxItems at hfull
  have hflat : r.peekNextAddItems.2 =
      min (r.memoryNumElements - r.tailPtr) (r.memoryNumElements - 1 - r.getNumItems) := by
    unfold peekNextAddItems getMaxItems
    by_cases h : r.isFull = true
    · have := hfull.mp h
      simp only [if_pos h]
      omega
    · simp only [if_neg h]
      split <;> omega
  rw [hflat]
  constructor
  · refine ⟨by unfold getMaxItems; omega, fun j hj => ?_⟩
    -- from the tail to the end of the memory the slots are the next addresses
    rw [hnext]
    unfold slot at hnext ⊢
    split_ifs at hnext ⊢ <;> omega
  · rintro k ⟨hroom, hcontiguous⟩
    unfold getMaxItems at hroom
    by_contra hlong
    have hlast := hcontiguous (r.memoryNumElements - r.tailPtr) (by omega)
    have hlt := r.slot_lt (i := r.getNumItems + (r.memoryNumElements - r.tailPtr)) (by omega)
    omega

/-- **A BULK ADD** appends its items. -/
theorem toList_addElements_fill (items : List α)
    (hroom : items.length ∈ r.flatRoom) :
    ((r.fill r.tailPtr items).addElements items.length).toList = r.toList ++ items := by
  have hhead := r.headPtr_lt
  have htail := r.tailPtr_lt
  have hnext := r.slot_getNumItems
  obtain ⟨havail, hcontiguous⟩ := hroom
  unfold getMaxItems at havail
  have hend : r.tailPtr + items.length ≤ r.memoryNumElements := by
    by_contra hlong
    have hlast := hcontiguous (r.memoryNumElements - r.tailPtr) (by omega)
    have hlt := r.slot_lt (i := r.getNumItems + (r.memoryNumElements - r.tailPtr)) (by omega)
    omega
  have hcount : ((r.fill r.tailPtr items).addElements items.length).getNumItems =
      r.getNumItems + items.length := by
    unfold getNumItems at havail ⊢
    unfold addElements fill advance
    simp only
    split_ifs at havail ⊢ <;> omega
  apply ext_getElem?
  intro i
  rw [getElem?_toList, hcount]
  by_cases hold : i < r.getNumItems
  · -- the places of the items in the buffer are not written
    have hslot : ¬ (r.tailPtr ≤ r.slot i ∧ r.slot i < r.tailPtr + items.length) := by
      unfold slot
      unfold getNumItems at hold havail
      split_ifs at hold havail ⊢ <;> omega
    have hsame : (r.fill r.tailPtr items).elements (r.slot i) = r.elements (r.slot i) := by
      unfold fill
      simp only
      split
      · rw [getElem?_eq_none (by omega)]
        rfl
      · rfl
    rw [if_pos (by omega), getElem?_append_left (by rw [length_toList]; exact hold),
      getElem?_toList, if_pos hold, ← hsame]
    rfl
  · rw [getElem?_append_right (by rw [length_toList]; omega), length_toList]
    by_cases hnew : i < r.getNumItems + items.length
    · obtain ⟨j, rfl⟩ : ∃ j, i = r.getNumItems + j := ⟨i - r.getNumItems, by omega⟩
      have hslot := hcontiguous j (by omega)
      rw [if_pos hnew]
      show some ((r.fill r.tailPtr items).elements (r.slot (r.getNumItems + j))) = _
      rw [hslot, hnext, Nat.add_sub_cancel_left]
      unfold fill
      simp only
      rw [if_pos (by omega), Nat.add_sub_cancel_left, getElem?_eq_getElem (by omega)]
      rfl
    · rw [if_neg hnew, getElem?_eq_none (by omega)]

/-- The count of `peekNextRemoveItems` on a buffer that is not empty is the largest one
up to the end of the memory. -/
theorem flatItems_peekNextRemoveItems (dst : Nat)
    (hdst : r.isEmpty = true → dst = 0) : IsGreatest r.flatItems (r.peekNextRemoveItems dst).2 := by
  have hhead := r.headPtr_lt
  have hempty := r.isEmpty_iff
  have hflat : (r.peekNextRemoveItems dst).2 =
      min (r.memoryNumElements - r.headPtr) r.getNumItems := by
    unfold peekNextRemoveItems
    by_cases h : r.isEmpty = true
    · have := hempty.mp h
      have := hdst h
      simp only [if_pos h]
      omega
    · simp only [if_neg h]
      split <;> omega
  rw [hflat]
  constructor
  · refine ⟨by omega, fun j hj => ?_⟩
    rw [slot_zero]
    exact if_pos (by omega)
  · rintro k ⟨havail, hcontiguous⟩
    by_contra hlong
    have hlast := hcontiguous (r.memoryNumElements - r.headPtr) (by omega)
    have hlt := r.slot_lt (i := r.memoryNumElements - r.headPtr) (by omega)
    rw [slot_zero] at hlast
    omega

/-- **A BULK REMOVAL** takes the first items. -/
theorem toList_removeElements {k : Nat} (hk : k ∈ r.flatItems) :
    (r.removeElements k).toList = r.toList.drop k ∧
      ((range k).map fun i => r.elements (r.headPtr + i)) = r.toList.take k := by
  have hhead := r.headPtr_lt
  have htail := r.tailPtr_lt
  have hnum := r.getNumItems_lt
  obtain ⟨havail, hcontiguous⟩ := hk
  rw [slot_zero] at hcontiguous
  have hend : r.headPtr + k ≤ r.memoryNumElements := by
    by_contra hlong
    have hlast := hcontiguous (r.memoryNumElements - r.headPtr) (by omega)
    have hlt := r.slot_lt (i := r.memoryNumElements - r.headPtr) (by omega)
    omega
  have hcount : (r.removeElements k).getNumItems = r.getNumItems - k := by
    unfold getNumItems at havail ⊢
    unfold removeElements advance
    simp only
    split_ifs at havail ⊢ <;> omega
  constructor
  · apply ext_getElem?
    intro i
    rw [getElem?_toList, hcount, getElem?_drop, getElem?_toList]
    by_cases hi : i < r.getNumItems - k
    · have hslot : (r.removeElements k).slot i = r.slot (k + i) := by
        unfold slot removeElements advance
        simp only
        split_ifs <;> omega
      rw [if_pos hi, if_pos (by omega), hslot]
      rfl
    · rw [if_neg hi, if_neg (by omega)]
  · apply ext_getElem?
    intro i
    rw [getElem?_take]
    by_cases hi : i < k
    · rw [if_pos hi, getElem?_toList, if_pos (by omega), hcontiguous i hi]
      simp [hi]
    · rw [if_neg hi, getElem?_eq_none (by simp; omega)]

theorem flatRoom_mono {k l : Nat} (hl : l ∈ r.flatRoom) (h : k ≤ l) :
    k ∈ r.flatRoom :=
  ⟨by have := hl.1; omega, fun j hj => hl.2 j (by omega)⟩

theorem flatItems_mono {k l : Nat} (hl : l ∈ r.flatItems) (h : k ≤ l) :
    k ∈ r.flatItems :=
  ⟨by have := hl.1; omega, fun j hj => hl.2 j (by omega)⟩

/-! ## §6. One operation, and runs. -/

theorem foldl_fifoAdd {cap : Nat} (items : List α) (q : List α)
    (h : q.length + items.length ≤ cap) :
    items.foldl (fun q item => (fifoAdd cap q item).2) q = q ++ items := by
  induction items generalizing q with
  | nil => simp
  | cons item rest ih =>
    rw [length_cons] at h
    have hadd : (fifoAdd cap q item).2 = q ++ [item] := by
      unfold fifoAdd
      rw [if_pos (by omega)]
    rw [foldl_cons, hadd, ih _ (by rw [length_append, length_singleton]; omega),
      append_assoc, singleton_append]

theorem fifoRemoves_eq (k : Nat) (q : List α) : fifoRemoves k q = (q.take k, q.drop k) := by
  induction k generalizing q with
  | zero => simp [fifoRemoves]
  | succ k ih => cases q <;> simp [fifoRemoves, fifoRemove, ih]

theorem fill_nil (ptr : Nat) : r.fill ptr [] = r := by
  simp [fill]

theorem addItems_spec (items : List α) :
    IsGreatest r.flatRoom (r.addItems items).1 ∧
      (r.addItems items).2.toList = r.toList ++ items.take (r.addItems items).1 ∧
      (r.addItems items).2.memoryNumElements = r.memoryNumElements := by
  have hflat := r.flatRoom_peekNextAddItems
  rcases hpeek : r.peekNextAddItems with ⟨ptr, flat⟩
  rw [hpeek] at hflat
  have hroom : (items.take flat).length ∈ r.flatRoom :=
    r.flatRoom_mono hflat.1 (length_take_le _ _)
  have hfill := r.toList_addElements_fill (items.take flat) hroom
  simp only [addItems, hpeek]
  unfold peekNextAddItems at hpeek
  split at hpeek
  · obtain ⟨rfl, rfl⟩ := Prod.mk.inj hpeek
    refine ⟨hflat, ?_, rfl⟩
    rw [take_zero] at hfill ⊢
    rw [fill_nil] at hfill
    exact hfill
  · obtain ⟨rfl, rfl⟩ := Prod.mk.inj hpeek
    exact ⟨hflat, hfill, rfl⟩

theorem removeItems_spec (dst k : Nat) (hdst : r.isEmpty = true → dst = 0) :
    IsGreatest r.flatItems (r.removeItems dst k).1 ∧
      (r.removeItems dst k).2.1 = r.toList.take (min k (r.removeItems dst k).1) ∧
      (r.removeItems dst k).2.2.toList = r.toList.drop (min k (r.removeItems dst k).1) ∧
      (r.removeItems dst k).2.2.memoryNumElements = r.memoryNumElements := by
  have hflat := r.flatItems_peekNextRemoveItems dst hdst
  rcases hpeek : r.peekNextRemoveItems dst with ⟨ptr, flat⟩
  rw [hpeek] at hflat
  have hitems : min k flat ∈ r.flatItems := r.flatItems_mono hflat.1 (Nat.min_le_right _ _)
  obtain ⟨hdrop, htake⟩ := r.toList_removeElements hitems
  simp only [removeItems, hpeek]
  unfold peekNextRemoveItems at hpeek
  split at hpeek
  next hempty =>
    obtain ⟨rfl, -⟩ := Prod.mk.inj hpeek
    have hnil : r.toList = [] := eq_nil_of_length_eq_zero (by
      rw [length_toList]
      exact r.isEmpty_iff.mp hempty)
    refine ⟨hflat, ?_, hdrop, rfl⟩
    rw [hnil, take_nil]
  · obtain ⟨rfl, -⟩ := Prod.mk.inj hpeek
    exact ⟨hflat, htake, hdrop, rfl⟩

/-- **ONE OPERATION** is the queue's, whatever the positions of head and tail. -/
theorem step_spec (op : Op α) (hcleared : r.CountCleared op) :
    ∃ flat, r.FlatCount op flat ∧
      (r.step op).1 = (fifoStep r.getMaxItems r.toList flat op).1 ∧
      (r.step op).2.toList = (fifoStep r.getMaxItems r.toList flat op).2 ∧
      (r.step op).2.memoryNumElements = r.memoryNumElements := by
  have hlen := r.length_toList
  have hmax : r.getMaxItems = r.memoryNumElements - 1 := rfl
  cases op with
  | add item =>
    refine ⟨0, rfl, ?_⟩
    rcases r.add_spec item with ⟨hadd, hfull⟩ | ⟨r', hadd, hlist, hmem⟩
    · simp [step, hadd, fifoStep, fifoAdd, hfull]
    · have hroom : r.getNumItems < r.getMaxItems := by
        have hnum' := r'.getNumItems_lt
        have hlen' := r'.length_toList
        rw [hlist, length_append, length_singleton] at hlen'
        omega
      simp [step, hadd, fifoStep, fifoAdd, hroom, hlist, hmem]
  | remove =>
    refine ⟨0, rfl, ?_⟩
    rcases r.remove_spec with ⟨hremove, hnil⟩ | ⟨item, r', hremove, hlist, hmem⟩
    · simp [step, hremove, fifoStep, hnil, fifoRemove]
    · simp [step, hremove, fifoStep, hlist, fifoRemove, hmem]
  | clearTheBuffer => exact ⟨0, rfl, rfl, rfl, rfl⟩
  | peekHead =>
    refine ⟨0, rfl, ?_, rfl, rfl⟩
    have hempty := r.isEmpty_iff
    simp only [step, fifoStep, peekHead, head?_eq_getElem?, getElem?_toList, slot_zero]
    congr 1
    by_cases h : r.isEmpty = true
    · rw [if_pos h, if_neg (by have := hempty.mp h; omega)]
      rfl
    · rw [if_neg h, if_pos (by have := mt hempty.mpr h; omega)]
      rfl
  | peekTail =>
    refine ⟨0, rfl, ?_, rfl, rfl⟩
    have hempty := r.isEmpty_iff
    simp only [step, fifoStep, peekTail, getLast?_eq_getElem?, getElem?_toList, hlen]
    congr 1
    by_cases h : r.isEmpty = true
    · rw [if_pos h, if_neg (by have := hempty.mp h; omega)]
      rfl
    · have hpos := mt hempty.mpr h
      have hslot : r.slot (r.getNumItems - 1) =
          if r.tailPtr = 0 then r.memoryNumElements - 1 else r.tailPtr - 1 := by
        have hhead := r.headPtr_lt
        have htail := r.tailPtr_lt
        unfold slot
        unfold getNumItems at hpos ⊢
        split_ifs at hpos ⊢ <;> omega
      rw [if_neg h, if_pos (show r.getNumItems - 1 < r.getNumItems by omega), hslot]
      rfl
  | getNumItems => exact ⟨0, rfl, by simp [step, fifoStep], rfl, rfl⟩
  | isEmpty =>
    refine ⟨0, rfl, ?_, rfl, rfl⟩
    simp only [step]
    congr 1
    rw [Bool.eq_iff_iff, isEmpty_iff, isEmpty_iff_length_eq_zero, hlen]
  | isFull =>
    refine ⟨0, rfl, ?_, rfl, rfl⟩
    simp only [step]
    congr 1
    rw [Bool.eq_iff_iff, isFull_iff, beq_iff_eq, hlen]
  | addItems items =>
    obtain ⟨hflat, hlist, hmem⟩ := r.addItems_spec items
    refine ⟨_, hflat, rfl, ?_, hmem⟩
    have hroom := hflat.1.1
    rw [fifoStep, foldl_fifoAdd _ _ (by
      have := length_take_le (r.addItems items).1 items
      omega)]
    exact hlist
  | removeItems dst k =>
    obtain ⟨hflat, htake, hdrop, hmem⟩ := r.removeItems_spec dst k hcleared
    refine ⟨_, hflat, ?_, ?_, hmem⟩
    · simp [step, fifoStep, fifoRemoves_eq, htake]
    · simp [step, fifoStep, fifoRemoves_eq, hdrop]

/-- The right flat count is one. -/
theorem FlatCount.unique {r : RingBuffer α} {op : Op α} {flat flat' : Nat}
    (h : r.FlatCount op flat) (h' : r.FlatCount op flat') : flat = flat' := by
  cases op with
  | addItems items | removeItems dst k => exact IsGreatest.unique h h'
  | _ => exact h.trans h'.symm

/-- The queue's answer to a bulk removal shows that its count was cleared. -/
theorem CountCleared.of_answer {r : RingBuffer α} {op : Op α} {cap flat : Nat} {q : List α}
    (hflat : r.FlatCount op flat) (hanswer : (r.step op).1 = (fifoStep cap q flat op).1) :
    r.CountCleared op := by
  cases op with
  | removeItems dst k =>
    intro hempty
    simp only [step, removeItems, peekNextRemoveItems, hempty, if_true] at hanswer
    have hle := hflat.1.1
    rw [r.isEmpty_iff.mp hempty] at hle
    have := (Answer.removed.inj hanswer).1
    omega
  | _ => trivial

/-- **A RING BUFFER IS A BOUNDED QUEUE**: for every memory of at least two elements and
every sequence of operations, the answers are those of a queue of one element less IFF the
bulk removals that find the buffer empty are called with a count of 0. -/
theorem fifo_iff (elements : Nat → α) (m : Nat) (hm : 2 ≤ m) (ops : List (Op α)) :
    Follows (m - 1) [] (init elements m (by omega)) ops ↔
      CountsCleared (init elements m (by omega)) ops := by
  suffices h : ∀ r : RingBuffer α, r.memoryNumElements = m →
      (Follows (m - 1) r.toList r ops ↔ CountsCleared r ops) by
    exact h (init elements m (by omega)) rfl
  induction ops with
  | nil => exact fun _ _ => Iff.rfl
  | cons op rest ih =>
    rintro r rfl
    constructor
    · rintro ⟨flat, hflat, hanswer, hrest⟩
      have hcleared := CountCleared.of_answer hflat hanswer
      obtain ⟨flat', hflat', -, hlist, hmem⟩ := r.step_spec op hcleared
      obtain rfl := hflat.unique hflat'
      refine ⟨hcleared, (ih _ hmem).mp ?_⟩
      rw [hlist]
      exact hrest
    · rintro ⟨hcleared, hrest⟩
      obtain ⟨flat, hflat, hanswer, hlist, hmem⟩ := r.step_spec op hcleared
      refine ⟨flat, hflat, hanswer, ?_⟩
      have hfollows := (ih _ hmem).mpr hrest
      rw [hlist] at hfollows
      exact hfollows

/-- Two bulk adds around the end of a memory of four, and a bulk removal. -/
theorem fifo_iff_four :
    Follows 3 [] (init (fun _ => (0 : Nat)) 4 (by omega))
      [.addItems [1, 2, 3, 4], .remove, .remove, .addItems [5, 6], .addItems [7],
        .removeItems 9 5] :=
  (fifo_iff _ 4 (by decide) _).mpr (by
    refine ⟨trivial, trivial, trivial, trivial, trivial, ?_, trivial⟩
    exact fun h => absurd h (by decide))

/-- **THE STALE COUNT**: `peekNextRemoveItems` on an empty buffer leaves the count at what
the caller's variable held. -/
theorem count_stale :
    ¬ Follows 3 [] (init (fun _ => (0 : Nat)) 4 (by omega)) [.removeItems 2 2] := by
  rintro ⟨flat, hflat, hanswer, -⟩
  have hcleared := CountCleared.of_answer hflat hanswer
  exact absurd (hcleared rfl) (by decide)

end ColonyCore.Container.RingBuffer
