/-
  ColonyCore.Container.KeyStringBuffer
  **BUFFERS AS KEYS (`KeyStringBuffer::compare`).**

  The comparison is `strncmp` over the shorter length, then the difference of the
  lengths.  `strncmp` stops at a NUL that both buffers have, so a buffer is ranked by the
  text before its first NUL and by its length, and by nothing else.

    • `compare_sign` — the sign of the result is the order of the ranks,
    • `ordered`      — what the containers ask of a key comparison holds of all buffers,
    • `totallyOrders_iff` — buffers with the same text and length must not differ.
-/
import ColonyCore.Container.AvlInvariant
import ColonyCore.Lib.CString
import Mathlib.Data.List.Lex
import Mathlib.Data.Prod.Lex

namespace ColonyCore.Container.KeyStringBuffer

open CString LittleEndian

/-! ## §1. The code. -/

/-- `strncmp`, within both buffers: unlike bytes are compared as unsigned characters, and a
NUL in both ends the comparison. -/
def strncmp : Nat → List Byte → List Byte → Int
  | n + 1, a :: as, b :: bs =>
    if a = b then if a = 0#8 then 0 else strncmp n as bs else (a.toNat : Int) - b.toNat
  | _, _, _ => 0

/-- A buffer whose length is not beyond an `int`. -/
abbrev Buffer : Type := { b : List Byte // b.length < 2 ^ 31 }

/-- The comparison with the lengths, the difference in `unsigned` arithmetic. -/
def compareLengths (my other : List Byte) : Int :=
  let comparison := strncmp (min my.length other.length) my other
  if comparison = 0 ∧ my.length ≠ other.length then
    Int.bmod ((my.length : Int) - other.length) (2 ^ 32)
  else comparison

/-- `compare`; `none` is a null pointer. -/
def compare : Option Buffer → Option Buffer → Int
  | some my, some other => compareLengths my other
  | _, _ => -1

/-! ## §2. The rank of a buffer. -/

/-- The text before the first NUL, then the length. -/
def rank (b : List Byte) : List Nat ×ₗ Nat := toLex ((cstr b).map BitVec.toNat, b.length)

theorem rank_eq_iff {x y : List Byte} :
    rank x = rank y ↔ cstr x = cstr y ∧ x.length = y.length := by
  have hinj : Function.Injective (List.map (BitVec.toNat (w := 8))) :=
    List.map_injective_iff.mpr fun _ _ h => BitVec.eq_of_toNat_eq h
  unfold rank
  rw [toLex.injective.eq_iff, Prod.mk.injEq, hinj.eq_iff]

theorem cstr_cons (a : Byte) (as : List Byte) :
    cstr (a :: as) = if a = 0#8 then [] else a :: cstr as := by
  by_cases ha : a = 0#8 <;> simp [cstr, ha]

theorem rank_nil_lt (b : Byte) (bs : List Byte) : rank [] < rank (b :: bs) := by
  have hnil : cstr [] = [] := rfl
  by_cases hb : b = 0#8 <;> simp [rank, Prod.Lex.toLex_lt_toLex, cstr_cons, hb, hnil]

/-- The first bytes decide, or, if these are one byte, what comes after it. -/
theorem rank_cons_lt_iff (a b : Byte) (as bs : List Byte) :
    rank (a :: as) < rank (b :: bs) ↔
      if a = b then if a = 0#8 then as.length < bs.length else rank as < rank bs
      else a.toNat < b.toNat := by
  by_cases hab : a = b
  · subst hab
    by_cases ha : a = 0#8 <;> simp [rank, Prod.Lex.toLex_lt_toLex, cstr_cons, ha]
  · have hne : a.toNat ≠ b.toNat := fun h => hab (BitVec.eq_of_toNat_eq h)
    have hpos : ∀ c : Byte, c ≠ 0#8 → 0 < c.toNat := fun c hc =>
      Nat.pos_of_ne_zero fun h => hc (BitVec.eq_of_toNat_eq h)
    by_cases ha : a = 0#8
    · subst ha
      simp [rank, Prod.Lex.toLex_lt_toLex, cstr_cons, hab, Ne.symm hab, hpos b (Ne.symm hab)]
    · by_cases hb : b = 0#8 <;>
        simp [rank, Prod.Lex.toLex_lt_toLex, cstr_cons, hab, hne, ha, hb, List.cons_lt_cons_iff]

/-- The comparison without the machine arithmetic, which lengths below 2^31 do not leave. -/
theorem compareLengths_eq {x y : List Byte} (hx : x.length < 2 ^ 31) (hy : y.length < 2 ^ 31) :
    compareLengths x y =
      if strncmp (min x.length y.length) x y = 0 then (x.length : Int) - y.length
      else strncmp (min x.length y.length) x y := by
  have hdiff : Int.bmod ((x.length : Int) - y.length) (2 ^ 32) = x.length - y.length := by
    rw [Int.bmod_eq_of_le] <;> omega
  unfold compareLengths
  rw [hdiff]
  by_cases hlen : x.length = y.length <;> simp [hlen]

theorem strncmp_swap (n : Nat) (x y : List Byte) : strncmp n y x = -strncmp n x y := by
  fun_induction strncmp n x y with
  | case1 n as bs => simp [strncmp]
  | case2 n a as bs hne ih => simp [strncmp, hne, ih]
  | case3 n a as b bs hne => simp [strncmp, Ne.symm hne]
  | case4 n x y hshort =>
    unfold strncmp
    split
    next => exact absurd rfl (hshort _ _ _ _ _ rfl rfl)
    next => rfl

/-- **A negative result**, both buffers getting shorter together. -/
theorem strncmp_neg_iff : ∀ x y : List Byte,
    (if strncmp (min x.length y.length) x y = 0 then (x.length : Int) - y.length
      else strncmp (min x.length y.length) x y) < 0 ↔ rank x < rank y
  | [], [] => by simp [strncmp]
  | [], b :: bs => iff_of_true (by simp [strncmp]; omega) (rank_nil_lt b bs)
  | a :: as, [] => iff_of_false (by simp [strncmp]; omega) (rank_nil_lt a as).not_gt
  | a :: as, b :: bs => by
    have ih := strncmp_neg_iff as bs
    rw [rank_cons_lt_iff]
    simp only [List.length_cons, Nat.add_min_add_right, strncmp]
    by_cases hab : a = b
    · subst hab
      by_cases ha : a = 0#8
      · simp [ha]
      · simpa [ha] using ih
    · have hne : (a.toNat : Int) - b.toNat ≠ 0 := fun h => hab (BitVec.eq_of_toNat_eq (by omega))
      simp [hab, hne]

/-- **The sign of the comparison** is the order of the ranks. -/
theorem compare_sign (x y : Buffer) :
    (compare (some x) (some y) < 0 ↔ rank x < rank y)
      ∧ (0 < compare (some x) (some y) ↔ rank y < rank x)
      ∧ (compare (some x) (some y) = 0 ↔ rank x = rank y) := by
  have hlt : compare (some x) (some y) < 0 ↔ rank x < rank y := by
    rw [compare, compareLengths_eq x.2 y.2]
    exact strncmp_neg_iff x y
  have hgt : 0 < compare (some x) (some y) ↔ rank y < rank x := by
    rw [compare, compareLengths_eq x.2 y.2, ← strncmp_neg_iff, min_comm, strncmp_swap]
    split_ifs <;> omega
  refine ⟨hlt, hgt, ?_⟩
  rcases lt_trichotomy (rank x) (rank y) with h | h | h
  · exact iff_of_false (hlt.mpr h).ne h.ne
  · refine iff_of_true ?_ h
    have := hlt.not.mpr h.not_lt
    have := hgt.not.mpr h.not_gt
    omega
  · exact iff_of_false (hgt.mpr h).ne' h.ne'

/-! ## §3. The order of the keys. -/

/-- The items of a container with their buffers. -/
def keys {ι : Type} (key : ι → Buffer) : Keys ι Buffer :=
  ⟨key, fun x y => compare (some x) (some y)⟩

/-- **What a container needs of its keys** holds of all buffers. -/
theorem ordered {ι : Type} (key : ι → Buffer) : (keys key).Ordered where
  refl x := (compare_sign x x).2.2.mpr rfl
  swap x y := (compare_sign x y).1.trans (compare_sign y x).2.1.symm
  trans x y z hxy hyz := by
    have hle : ∀ x y, compare (some x) (some y) ≤ 0 ↔ rank x ≤ rank y := by
      intro x y
      rw [← not_lt, (compare_sign x y).2.1, not_lt]
    exact (hle x z).mpr (((hle x y).mp hxy).trans ((hle y z).mp hyz))

/-- `compare` is a total order of the buffers in `S`, with equality as its zero. -/
structure TotallyOrders (S : Set Buffer) : Prop where
  zero : ∀ x ∈ S, ∀ y ∈ S, compare (some x) (some y) = 0 ↔ x = y
  swap : ∀ x ∈ S, ∀ y ∈ S, compare (some x) (some y) < 0 ↔ 0 < compare (some y) (some x)
  trans : ∀ x ∈ S, ∀ y ∈ S, ∀ z ∈ S, compare (some x) (some y) ≤ 0 →
    compare (some y) (some z) ≤ 0 → compare (some x) (some z) ≤ 0

/-- **BUFFERS ARE TOLD APART BY THEIR TEXT AND THEIR LENGTH.**  `compare` totally orders a set
of buffers exactly if no two of them have the same bytes before the first NUL and the same
length and differ in a byte after it. -/
theorem totallyOrders_iff (S : Set Buffer) :
    TotallyOrders S ↔ ∀ x ∈ S, ∀ y ∈ S, cstr x.val = cstr y.val →
      x.val.length = y.val.length → x = y := by
  have hzero : ∀ x y : Buffer, compare (some x) (some y) = 0 ↔
      cstr x.val = cstr y.val ∧ x.val.length = y.val.length :=
    fun x y => (compare_sign x y).2.2.trans rank_eq_iff
  constructor
  · intro h x hx y hy htext hlen
    exact (h.zero x hx y hy).mp ((hzero x y).mpr ⟨htext, hlen⟩)
  · intro h
    refine ⟨fun x hx y hy => ⟨fun hxy => ?_, fun hxy => ?_⟩, fun x _ y _ => (ordered id).swap x y,
      fun x _ y _ z _ => (ordered id).trans x y z⟩
    · exact h x hx y hy ((hzero x y).mp hxy).1 ((hzero x y).mp hxy).2
    · exact hxy ▸ (ordered id).refl x

/-- Two buffers that differ behind a NUL are equal keys. -/
theorem compare_embedded_nul :
    compare (some ⟨[0x61, 0, 0x62], by decide⟩) (some ⟨[0x61, 0, 0x63], by decide⟩) = 0
      ∧ [0x61, 0, 0x62] ≠ [0x61, 0, 0x63] := by
  decide

end ColonyCore.Container.KeyStringBuffer
