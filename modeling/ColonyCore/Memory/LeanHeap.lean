/-
  ColonyCore.Memory.LeanHeap
  **THE ALLOCATE-ONLY HEAP.**

  The heap counts in words of `W = sizeof( size_t )` bytes; the size of a request is rounded up
  in `size_t` arithmetic.

    • `heap_allocates` — EXACTLY if all requests can be rounded up, the allocations lie in the heap
      one after another after every call, and the next request is refused iff it does not fit,
    • `huge_request_served` — a request that wraps to 0 words is not refused.
-/
import Mathlib.Algebra.Order.BigOperators.Group.List
import Mathlib.Tactic.Linarith

namespace ColonyCore.Memory

open List

/-! ## §1. The code. -/

/-- The members; `ptr` in words from the base. -/
structure LeanHeap where
  staringHeapSize : Nat
  ptr : Nat
  wordsRemaining : Nat

namespace LeanHeap

variable (W : Nat)

/-- `BYTES_TO_WORDS`. -/
def bytesToWords (n : Nat) : Nat := (n + (W - 1)) % 2 ^ (8 * W) / W

/-- The constructor, with its assertion. -/
def construct (sizeInBytes : Nat) : Option LeanHeap :=
  let words := bytesToWords W sizeInBytes
  if words * 4 % 2 ^ (8 * W) ≤ sizeInBytes then some ⟨words, 0, words⟩ else none

def allocate (h : LeanHeap) (numbytes : Nat) : Option Nat × LeanHeap :=
  let numWords := bytesToWords W numbytes
  if numWords > h.wordsRemaining then (none, h)
  else (some h.ptr,
    { h with wordsRemaining := h.wordsRemaining - numWords, ptr := h.ptr + numWords })

def reset (h : LeanHeap) : LeanHeap := { h with wordsRemaining := h.staringHeapSize, ptr := 0 }

/-- The length `getMemoryStart` reports. -/
def getMemoryStart (h : LeanHeap) : Nat :=
  (h.staringHeapSize - h.wordsRemaining) * W % 2 ^ (8 * W)

/-! ## §2. Runs. -/

inductive Op
  | allocate (numbytes : Nat)
  | reset

/-- The heap, with the word and the number of bytes of every allocation since the last reset,
    the latest first. -/
structure Ledger where
  heap : LeanHeap
  live : List (Nat × Nat)

def Ledger.step (s : Ledger) : Op → Ledger
  | .allocate n =>
    match s.heap.allocate W n with
    | (none, h) => { s with heap := h }
    | (some p, h) => ⟨h, (p, n) :: s.live⟩
  | .reset => ⟨s.heap.reset, []⟩

/-- The words of `n` bytes, in exact arithmetic. -/
def wordsOf (n : Nat) : Nat := (n + (W - 1)) / W

/-- The words of all allocations. -/
def used (live : List (Nat × Nat)) : Nat := (live.map fun a => wordsOf W a.2).sum

/-- `n` can be rounded up to whole words. -/
def Rounds (n : Nat) : Prop := n + W ≤ 2 ^ (8 * W)

/-- **The allocations are right**, in a heap of `words` words. -/
structure Allocates (words : Nat) (s : Ledger) : Prop where
  /-- all bytes are bytes of the heap -/
  inside : ∀ a ∈ s.live, W * a.1 + a.2 ≤ W * words
  /-- the bytes of a later allocation come after those of an earlier one -/
  disjoint : s.live.Pairwise fun a b => W * b.1 + b.2 ≤ W * a.1
  /-- the length reported is that of the allocations -/
  covers : s.heap.getMemoryStart W = W * used W s.live
  /-- a request is refused exactly if its words are not there -/
  refuses : ∀ n, Rounds W n → ((s.heap.allocate W n).1 = none ↔ words < used W s.live + wordsOf W n)

variable {W} {words n : Nat} {s : Ledger}

theorem bytesToWords_eq (hW : 0 < W) (h : Rounds W n) : bytesToWords W n = wordsOf W n := by
  unfold Rounds at h
  rw [bytesToWords, Nat.mod_eq_of_lt (by omega), wordsOf]

theorem le_mul_wordsOf (hW : 0 < W) (n : Nat) : n ≤ W * wordsOf W n := by
  have hmod := Nat.mod_lt (n + (W - 1)) hW
  have hdiv := Nat.div_add_mod (n + (W - 1)) W
  unfold wordsOf
  omega

/-- What the code keeps: the allocations fill the words before `ptr`. -/
structure Inv (W words : Nat) (s : Ledger) : Prop where
  size : s.heap.staringHeapSize = words
  ptr : s.heap.ptr = used W s.live
  rest : s.heap.wordsRemaining + s.heap.ptr = words
  below : ∀ a ∈ s.live, W * a.1 + a.2 ≤ W * s.heap.ptr
  disjoint : s.live.Pairwise fun a b => W * b.1 + b.2 ≤ W * a.1

theorem Inv.allocates (hW : 0 < W) (hsize : W * words < 2 ^ (8 * W)) (h : Inv W words s) :
    Allocates W words s where
  inside a ha := (h.below a ha).trans (Nat.mul_le_mul_left W (by have := h.rest; omega))
  disjoint := h.disjoint
  covers := by
    have hrest := h.rest
    have hlen : s.heap.staringHeapSize - s.heap.wordsRemaining = s.heap.ptr := by
      rw [h.size]
      omega
    rw [getMemoryStart, hlen, Nat.mul_comm, Nat.mod_eq_of_lt, h.ptr]
    exact lt_of_le_of_lt (Nat.mul_le_mul_left W (by omega)) hsize
  refuses n hn := by
    have hrest := h.rest
    rw [allocate, bytesToWords_eq hW hn, ← h.ptr]
    split
    · simp only [true_iff]
      omega
    · simp only [reduceCtorEq, false_iff]
      omega

/-- **One call.** -/
theorem Inv.step (hW : 0 < W) (h : Inv W words s) (op : Op)
    (hop : ∀ n, op = .allocate n → Rounds W n) : Inv W words (s.step W op) := by
  have hrest := h.rest
  cases op with
  | reset =>
    exact ⟨h.size, rfl, h.size, forall_mem_nil _, .nil⟩
  | allocate n =>
    rw [Ledger.step, allocate, bytesToWords_eq hW (hop n rfl)]
    split
    next p h' heq =>
      split at heq
      · cases heq
        exact h
      · cases heq
    next p h' heq =>
      split at heq
      · cases heq
      next hfits =>
        cases heq
        -- the new bytes lie between the old and the new `ptr`
        have hnew := le_mul_wordsOf hW n
        refine ⟨h.size, ?_, ?_, ?_, pairwise_cons.mpr ⟨h.below, h.disjoint⟩⟩
        · simp only [used, map_cons, sum_cons, h.ptr]
          exact Nat.add_comm _ _
        · simp only
          omega
        · simp only [forall_mem_cons, Nat.mul_add]
          exact ⟨Nat.add_le_add_left hnew _, fun a ha => Nat.le_add_right_of_le (h.below a ha)⟩

/-- The heap before the first call. -/
theorem construct_inv (hW : W = 4 ∨ W = 8) (hsize : W * words < 2 ^ (8 * W)) :
    ∃ h, construct W (W * words) = some h ∧ Inv W words ⟨h, []⟩ := by
  have hwords : bytesToWords W (W * words) = words := by
    unfold bytesToWords
    rcases hW with rfl | rfl <;> omega
  refine ⟨_, if_pos ?_, hwords, rfl, hwords, forall_mem_nil _, .nil⟩
  rw [hwords]
  rcases hW with rfl | rfl <;> omega

/-- A request that cannot be rounded up is 0 words long, so it is served from any heap, and its
    bytes are more than the heap has. -/
theorem rounds_of_inside (hW : W = 4 ∨ W = 8) (hsize : W * words < 2 ^ (8 * W))
    (hn : n < 2 ^ (8 * W)) (h : Allocates W words (s.step W (.allocate n))) : Rounds W n := by
  by_contra hwraps
  have hzero : bytesToWords W n = 0 := by
    unfold bytesToWords
    unfold Rounds at hwraps
    rcases hW with rfl | rfl <;> omega
  have hserved : (s.step W (.allocate n)).live = (s.heap.ptr, n) :: s.live := by
    rw [Ledger.step, allocate, hzero]
    rfl
  have hinside := h.inside (s.heap.ptr, n) (hserved ▸ mem_cons_self)
  unfold Rounds at hwraps
  rcases hW with rfl | rfl <;> omega

/-- **THE ALLOCATE-ONLY HEAP**, where a `size_t` has 32 or 64 bits: the allocations are right
    after every call of a run EXACTLY if all its requests can be rounded up. -/
theorem heap_allocates (W words : Nat) (hW : W = 4 ∨ W = 8) (hsize : W * words < 2 ^ (8 * W))
    (ops : List Op) (hops : ∀ n, .allocate n ∈ ops → n < 2 ^ (8 * W)) :
    ∃ h, construct W (W * words) = some h
      ∧ ((∀ calls, calls <+: ops → Allocates W words (calls.foldl (Ledger.step W) ⟨h, []⟩))
        ↔ ∀ n, .allocate n ∈ ops → Rounds W n) := by
  obtain ⟨h, hstart, hinv⟩ := construct_inv hW hsize
  have hpos : 0 < W := by omega
  refine ⟨h, hstart, fun hright n hn => ?_, fun hrounds calls hcalls => ?_⟩
  · obtain ⟨calls, rest, rfl⟩ := append_of_mem hn
    have hcall := hright (calls ++ [.allocate n]) ⟨rest, append_assoc _ _ _⟩
    rw [foldl_append] at hcall
    exact rounds_of_inside hW hsize (hops n hn) hcall
  · refine Inv.allocates hpos hsize ?_
    exact foldlRecOn calls (Ledger.step W) hinv fun s hs op hop =>
      hs.step hpos op fun n heq => hrounds n (hcalls.subset (heq ▸ hop))

/-- Two requests of a byte in a heap of two words. -/
theorem heap_allocates_bytes :
    ∃ h, construct 8 16 = some h
      ∧ Allocates 8 2 ([.allocate 1, .allocate 1].foldl (Ledger.step 8) ⟨h, []⟩) := by
  have hone : ∀ n, .allocate n ∈ [Op.allocate 1, .allocate 1] → n = 1 := by
    simp
  obtain ⟨h, hstart, hright⟩ := heap_allocates 8 2 (.inr rfl) (by decide)
    [.allocate 1, .allocate 1] fun n hn => hone n hn ▸ by decide
  refine ⟨h, hstart, hright.mpr (fun n hn => ?_) _ (prefix_refl _)⟩
  rw [hone n hn, Rounds]
  omega

/-- The largest request is 0 words long. -/
theorem huge_request_served :
    (construct 8 16).map (fun h => (h.allocate 8 (2 ^ 64 - 1)).1) = some (some 0)
      ∧ 2 < wordsOf 8 (2 ^ 64 - 1) := by
  decide +kernel

end LeanHeap

end ColonyCore.Memory
