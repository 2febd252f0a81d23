/-
  ColonyCore.Lib.NumberedRing
  **A RING OF `M` SLOTS THAT KEEPS THE LAST `M` OF A SEQUENCE OF NUMBERED ITEMS.**

  Items are numbered from 1 in the order they arrive; item number `k` goes to
  slot `k % M`.  `Holds M xs σ` says that the slots `σ` are those of the ring
  after the items `xs`; nothing else about how they came about matters.

    • `Holds.nil`, `Holds.push` — an empty ring, and one more item,
    • `Holds.kept`, `Holds.only` — what the slots are, both ways,
    • `retained_eq_cons`, `retained_eq_concat` and the two step lemmas — the
      retained items, walked from either end.
-/
import Mathlib.Data.List.Basic
import Mathlib.Data.Nat.ModEq
import Mathlib.Logic.Function.Basic

namespace NumberedRing

open Function List

variable {α : Type} {M : Nat}

/-! ## §1. The slots. -/

/-- The slots of a ring after the items `xs`: each slot is empty or carries a
number and an item. -/
structure Holds (M : Nat) (xs : List α) (σ : Nat → Option (Nat × α)) : Prop where
  /-- The last `M` items are in their slots. -/
  kept : ∀ i x, xs[i]? = some x → xs.length ≤ i + M → σ ((i + 1) % M) = some (i + 1, x)
  /-- Nothing else is in any slot. -/
  only : ∀ j k x, j < M → σ j = some (k, x) →
    ∃ i, k = i + 1 ∧ xs[i]? = some x ∧ xs.length ≤ i + M ∧ j = k % M

theorem Holds.nil : Holds M ([] : List α) (fun _ => none) := by
  constructor
  · intro i x h
    simp at h
  · intro j k x _ h
    cases h

/-- Two numbers less than `M` apart share a slot only if they are equal. -/
theorem mod_ne_of_lt {a b : Nat} (hab : a < b) (hlt : b < a + M) : a % M ≠ b % M := by
  intro heq
  have hdvd : M ∣ b - a := (Nat.modEq_iff_dvd' (Nat.le_of_lt hab)).mp heq
  have hle := Nat.le_of_dvd (by omega) hdvd
  omega

variable {xs : List α}

/-- **One more item** overwrites the slot of its number and no other. -/
theorem Holds.push {σ : Nat → Option (Nat × α)} (h : Holds M xs σ) (hM : 0 < M) (x : α) :
    Holds M (xs ++ [x]) (update σ ((xs.length + 1) % M) (some (xs.length + 1, x))) := by
  constructor
  · intro i y hget hlen
    rw [length_append, length_singleton] at hlen
    by_cases hi : i < xs.length
    · rw [getElem?_append_left hi] at hget
      rw [update_of_ne (mod_ne_of_lt (by omega) (by omega))]
      exact h.kept i y hget (by omega)
    · -- the new item itself
      rw [getElem?_append_right (by omega)] at hget
      obtain rfl : i = xs.length := by
        have hbound := (List.getElem?_eq_some_iff.mp hget).1
        rw [length_singleton] at hbound
        omega
      rw [Nat.sub_self] at hget
      cases hget
      exact update_self ..
  · intro j k y hj hσ
    rw [length_append, length_singleton]
    by_cases hjn : j = (xs.length + 1) % M
    · rw [hjn, update_self] at hσ
      cases hσ
      exact ⟨xs.length, rfl, by simp, Nat.add_le_add_left hM _, hjn⟩
    · rw [update_of_ne hjn] at hσ
      obtain ⟨i, rfl, hget, hlen, hslot⟩ := h.only j k y hj hσ
      have hi := (List.getElem?_eq_some_iff.mp hget).1
      refine ⟨i, rfl, by rw [getElem?_append_left hi]; exact hget, ?_, hslot⟩
      -- a number that is `M` behind the new one would sit in the overwritten slot
      by_contra hfar
      have heq : xs.length + 1 = i + 1 + M := by omega
      exact hjn (by rw [hslot, heq, Nat.add_mod_right])

variable {x : α}

/-- Numbers in the slots are between the oldest retained one and the newest. -/
theorem Holds.bounds {σ : Nat → Option (Nat × α)} (h : Holds M xs σ) {j k : Nat}
    (hj : j < M) (hσ : σ j = some (k, x)) : xs.length - M + 1 ≤ k ∧ k ≤ xs.length := by
  obtain ⟨i, rfl, hget, hlen, -⟩ := h.only j k x hj hσ
  have hi := (List.getElem?_eq_some_iff.mp hget).1
  omega

/-! ## §2. The retained items. -/

/-- The last `M` items with their numbers, oldest first. -/
def retained (M : Nat) (xs : List α) : List (α × Nat) :=
  (xs.drop (xs.length - M)).zipIdx (xs.length - M + 1)

/-- The items after number `k`, oldest first. -/
def newer (xs : List α) (k : Nat) : List (α × Nat) := (xs.drop k).zipIdx (k + 1)

/-- The retained items before number `k`, newest first. -/
def older (M : Nat) (xs : List α) (k : Nat) : List (α × Nat) :=
  (((xs.drop (xs.length - M)).take (k - 1 - (xs.length - M))).zipIdx (xs.length - M + 1)).reverse

theorem newer_length (xs : List α) : newer xs xs.length = [] := by
  simp [newer]

theorem newer_step {k : Nat} (h : xs[k]? = some x) :
    newer xs k = (x, k + 1) :: newer xs (k + 1) := by
  obtain ⟨hk, rfl⟩ := List.getElem?_eq_some_iff.mp h
  unfold newer
  rw [drop_eq_getElem_cons hk, zipIdx_cons]

theorem older_oldest (M : Nat) (xs : List α) : older M xs (xs.length - M + 1) = [] := by
  unfold older
  rw [Nat.add_sub_cancel, Nat.sub_self]
  rfl

/-- The item before number `k + 1`, if it is retained, comes first. -/
theorem older_step {k : Nat} (hk : xs.length - M + 1 ≤ k)
    (h : xs[k - 1]? = some x) : older M xs (k + 1) = (x, k) :: older M xs k := by
  have hi : k + 1 - 1 - (xs.length - M) = (k - 1 - (xs.length - M)) + 1 := by omega
  have hget : (xs.drop (xs.length - M))[k - 1 - (xs.length - M)]? = some x := by
    rw [getElem?_drop, show xs.length - M + (k - 1 - (xs.length - M)) = k - 1 by omega]
    exact h
  have hlen : ((xs.drop (xs.length - M)).take (k - 1 - (xs.length - M))).length
      = k - 1 - (xs.length - M) := by
    have hb := (List.getElem?_eq_some_iff.mp hget).1
    rw [length_take]
    omega
  unfold older
  rw [hi, take_add_one, hget, zipIdx_append, reverse_append, hlen,
      show xs.length - M + 1 + (k - 1 - (xs.length - M)) = k by omega]
  rfl

/-- The retained items, from the oldest on. -/
theorem retained_eq_cons (h : xs[xs.length - M]? = some x) :
    retained M xs = (x, xs.length - M + 1) :: newer xs (xs.length - M + 1) :=
  newer_step h

/-- The retained items, from the newest back. -/
theorem retained_eq_concat (hM : 0 < M) (h : xs[xs.length - 1]? = some x) :
    (retained M xs).reverse = (x, xs.length) :: older M xs xs.length := by
  have hpos := (List.getElem?_eq_some_iff.mp h).1
  rw [← older_step (by omega) h]
  unfold older retained
  rw [take_of_length_le (by rw [length_drop]; omega)]

end NumberedRing
