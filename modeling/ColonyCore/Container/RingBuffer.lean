/-
  ColonyCore.Container.RingBuffer
  **A RING BUFFER IS A BOUNDED QUEUE (`Cpl/Container/RingBuffer.h`).**

  Head and tail are pointers into a fixed memory and turn back to its start at its
  end.  One element of the memory stays unused, so that equal pointers mean EMPTY.

    • `toList`          — the items, from the head on,
    • `add_spec`, `remove_spec` — the operations on the queue.
-/
import Mathlib.Data.List.Basic
import Mathlib.Logic.Function.Basic
import Mathlib.Tactic.SplitIfs

namespace ColonyCore.Container

open Function

/-- The members of a `RingBuffer`: the memory, and both pointers as positions in it. -/
structure RingBuffer (α : Type) where
  elements : Nat → α
  memoryNumElements : Nat
  headPtr : Nat
  tailPtr : Nat
  headPtr_lt : headPtr < memoryNumElements
  tailPtr_lt : tailPtr < memoryNumElements

namespace RingBuffer

variable {α : Type}

/-! ## §1. The code. -/

/-- `++ptr`, turned back at the end of the memory. -/
def next (n i : Nat) : Nat := if n ≤ i + 1 then 0 else i + 1

theorem next_lt {n i : Nat} (h : i < n) : next n i < n := by
  unfold next
  split <;> omega

/-- The constructor, over the given memory. -/
def init (elements : Nat → α) (maxElements : Nat) (h : 0 < maxElements) : RingBuffer α :=
  ⟨elements, maxElements, 0, 0, h, h⟩

variable (r : RingBuffer α)

def isEmpty : Bool := r.headPtr = r.tailPtr

def isFull : Bool := next r.memoryNumElements r.tailPtr = r.headPtr

/-- `add`; `none` is the result false. -/
def add (item : α) : Option (RingBuffer α) :=
  if r.isFull then none
  else some { r with
    elements := update r.elements r.tailPtr item
    tailPtr := next r.memoryNumElements r.tailPtr
    tailPtr_lt := next_lt r.tailPtr_lt }

/-- `remove`, with the item; `none` is the result false. -/
def remove : Option (α × RingBuffer α) :=
  if r.isEmpty then none
  else some (r.elements r.headPtr, { r with
    headPtr := next r.memoryNumElements r.headPtr
    headPtr_lt := next_lt r.headPtr_lt })

def getNumItems : Nat :=
  (if r.tailPtr < r.headPtr then r.tailPtr + r.memoryNumElements else r.tailPtr) - r.headPtr

def getMaxItems : Nat := r.memoryNumElements - 1

/-! ## §2. The queue. -/

/-- The place of the `i`-th item in the memory. -/
def slot (i : Nat) : Nat :=
  if r.headPtr + i < r.memoryNumElements then r.headPtr + i else r.headPtr + i - r.memoryNumElements

/-- **The items in the buffer**, the first one at the head. -/
def toList : List α := (List.range r.getNumItems).map fun i => r.elements (r.slot i)

variable {r : RingBuffer α}

@[simp] theorem length_toList (r : RingBuffer α) : r.toList.length = r.getNumItems := by
  simp [toList]

theorem getNumItems_lt (r : RingBuffer α) : r.getNumItems < r.memoryNumElements := by
  have hhead := r.headPtr_lt
  have htail := r.tailPtr_lt
  unfold getNumItems
  split <;> omega

variable (r : RingBuffer α)

/-- The next item goes to the tail. -/
theorem slot_getNumItems : r.slot r.getNumItems = r.tailPtr := by
  have hhead := r.headPtr_lt
  have htail := r.tailPtr_lt
  unfold slot getNumItems
  split_ifs <;> omega

theorem slot_zero : r.slot 0 = r.headPtr := if_pos r.headPtr_lt

/-- The place behind the items is free. -/
theorem toList_store (item : α) :
    toList { r with elements := update r.elements r.tailPtr item } = r.toList := by
  have hhead := r.headPtr_lt
  have htail := r.tailPtr_lt
  refine List.map_congr_left fun i hi => update_of_ne ?_ _ _
  have hlt : i < r.getNumItems := List.mem_range.mp hi
  show r.slot i ≠ r.tailPtr
  unfold slot
  unfold getNumItems at hlt
  split_ifs at hlt ⊢ <;> omega

/-- What is stored there is the last item once the tail has moved on. -/
theorem toList_advance (h : next r.memoryNumElements r.tailPtr ≠ r.headPtr) :
    toList { r with
      tailPtr := next r.memoryNumElements r.tailPtr
      tailPtr_lt := next_lt r.tailPtr_lt } = r.toList ++ [r.elements r.tailPtr] := by
  have hhead := r.headPtr_lt
  have htail := r.tailPtr_lt
  have hnum : getNumItems { r with
      tailPtr := next r.memoryNumElements r.tailPtr
      tailPtr_lt := next_lt r.tailPtr_lt } = r.getNumItems + 1 := by
    unfold getNumItems
    simp only
    unfold next at h ⊢
    split_ifs at h ⊢ <;> omega
  unfold toList
  rw [hnum, List.range_succ, List.map_append]
  show _ ++ [r.elements (r.slot r.getNumItems)] = _
  rw [slot_getNumItems]
  rfl

theorem next_tailPtr_iff :
    next r.memoryNumElements r.tailPtr = r.headPtr ↔ r.toList.length + 1 = r.memoryNumElements := by
  have hhead := r.headPtr_lt
  have htail := r.tailPtr_lt
  rw [length_toList]
  unfold getNumItems next
  split_ifs <;> omega

/-- The item is stored, then the tail moves on. -/
theorem toList_add (item : α) (h : next r.memoryNumElements r.tailPtr ≠ r.headPtr) :
    toList { r with
      elements := update r.elements r.tailPtr item
      tailPtr := next r.memoryNumElements r.tailPtr
      tailPtr_lt := next_lt r.tailPtr_lt } = r.toList ++ [item] := by
  refine (toList_advance { r with elements := update r.elements r.tailPtr item } h).trans ?_
  rw [toList_store]
  simp

/-- **`add`** appends, unless the buffer holds its maximum. -/
theorem add_spec (item : α) :
    (r.add item = none ∧ r.toList.length = r.getMaxItems)
      ∨ ∃ r', r.add item = some r' ∧ r'.toList = r.toList ++ [item]
        ∧ r'.memoryNumElements = r.memoryNumElements := by
  unfold add
  by_cases hfull : r.isFull
  · rw [if_pos hfull]
    have hlen := r.next_tailPtr_iff.mp (of_decide_eq_true hfull)
    exact .inl ⟨rfl, by unfold getMaxItems; omega⟩
  · rw [if_neg hfull]
    exact .inr ⟨_, rfl, r.toList_add item fun heq => hfull (decide_eq_true heq), rfl⟩

theorem headPtr_eq_iff : r.headPtr = r.tailPtr ↔ r.toList = [] := by
  have hhead := r.headPtr_lt
  have htail := r.tailPtr_lt
  rw [← List.length_eq_zero_iff, length_toList]
  unfold getNumItems
  split_ifs <;> omega

/-- The first item is at the head, the others are behind it. -/
theorem toList_remove (h : r.headPtr ≠ r.tailPtr) :
    r.toList = r.elements r.headPtr :: toList { r with
      headPtr := next r.memoryNumElements r.headPtr
      headPtr_lt := next_lt r.headPtr_lt } := by
  have hhead := r.headPtr_lt
  have htail := r.tailPtr_lt
  have hnum : r.getNumItems = getNumItems { r with
      headPtr := next r.memoryNumElements r.headPtr
      headPtr_lt := next_lt r.headPtr_lt } + 1 := by
    unfold getNumItems
    simp only
    unfold next
    split_ifs <;> omega
  unfold toList
  rw [hnum, List.range_succ_eq_map, List.map_cons, List.map_map, slot_zero]
  congr 1
  refine List.map_congr_left fun i hi => congrArg r.elements ?_
  rw [List.mem_range] at hi
  have hbound : i + 1 < r.memoryNumElements := by
    have := r.getNumItems_lt
    omega
  show r.slot (i + 1) = slot _ i
  unfold slot next
  simp only
  split_ifs <;> omega

/-- **`remove`** takes the first item, if there is one. -/
theorem remove_spec :
    (r.remove = none ∧ r.toList = [])
      ∨ ∃ item r', r.remove = some (item, r') ∧ r.toList = item :: r'.toList
        ∧ r'.memoryNumElements = r.memoryNumElements := by
  unfold remove
  by_cases hempty : r.isEmpty
  · rw [if_pos hempty]
    exact .inl ⟨rfl, r.headPtr_eq_iff.mp (of_decide_eq_true hempty)⟩
  · rw [if_neg hempty]
    exact .inr ⟨_, _, rfl, r.toList_remove fun heq => hempty (decide_eq_true heq), rfl⟩

end RingBuffer

end ColonyCore.Container
