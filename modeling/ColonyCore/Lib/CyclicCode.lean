/-
  ColonyCore.Lib.CyclicCode
  **CYCLIC REDUNDANCY CODES, BIT BY BIT.**

  The remainder of a message is what a shift register holds after its bits, most
  significant first.  Everything below follows from one fact: register and message
  together enter linearly.

    • `remainder_xor`           — the remainder of a sum is the sum of the remainders,
    • `remainder_eq_zero_iff`   — no more bits than the register has clear it only when they
      are the register's own,
    • `remainder_ne_of_window`  — two messages that differ inside one window of the
      register's length have different remainders,
    • `tableStep_eq`            — eight bits at once, from a table of the single bytes.
-/
import Mathlib.Data.BitVec

namespace CyclicCode

open List

variable {w : Nat} {p r : BitVec w}

/-- One bit of the message: the register moves up, and the polynomial is subtracted where
the bit that leaves is not the bit that comes. -/
def bitStep (p r : BitVec w) (b : Bool) : BitVec w :=
  if r.msb ^^ b then (r <<< 1) ^^^ p else r <<< 1

/-- The remainder of a message, from the register `r` on. -/
def remainder (p r : BitVec w) (bits : List Bool) : BitVec w := bits.foldl (bitStep p) r

/-- A byte, most significant bit first. -/
def bitsOf (byte : BitVec 8) : List Bool := (range 8).map byte.getMsbD

/-- The bits of a message. -/
def bits (bytes : List (BitVec 8)) : List Bool := bytes.flatMap bitsOf

theorem remainder_append (u v : List Bool) :
    remainder p r (u ++ v) = remainder p (remainder p r u) v :=
  foldl_append

/-! ## §1. Linearity. -/

theorem bitStep_xor (a c : BitVec w) (x y : Bool) :
    bitStep p (a ^^^ c) (x ^^ y) = bitStep p a x ^^^ bitStep p c y := by
  have hmsb : ((a ^^^ c).msb ^^ (x ^^ y)) = ((a.msb ^^ x) ^^ (c.msb ^^ y)) := by
    rw [BitVec.msb_xor, Bool.xor_assoc, Bool.xor_assoc, Bool.xor_left_comm c.msb x y]
  unfold bitStep
  rw [hmsb, BitVec.shiftLeft_xor_distrib]
  -- the polynomial is subtracted on neither side, on one, or on both
  cases a.msb ^^ x <;> cases c.msb ^^ y
  · rfl
  · exact BitVec.xor_assoc _ _ _
  · show _ = a <<< 1 ^^^ p ^^^ c <<< 1
    ac_rfl
  · show a <<< 1 ^^^ c <<< 1 = (a <<< 1 ^^^ p) ^^^ (c <<< 1 ^^^ p)
    have hpp : (a <<< 1 ^^^ p) ^^^ (c <<< 1 ^^^ p) = a <<< 1 ^^^ c <<< 1 ^^^ (p ^^^ p) := by ac_rfl
    rw [hpp, BitVec.xor_self, BitVec.xor_zero]

/-- **The remainder is linear** in register and message. -/
theorem remainder_xor : ∀ (x y : List Bool) (a c : BitVec w), x.length = y.length →
    remainder p (a ^^^ c) (zipWith xor x y) = remainder p a x ^^^ remainder p c y
  | [], [], _, _, _ => rfl
  | b :: x, d :: y, a, c, hlen => by
    show remainder p (bitStep p (a ^^^ c) (b ^^ d)) _ = _
    rw [bitStep_xor]
    exact remainder_xor x y _ _ (Nat.succ.inj hlen)

/-- A register fed its own leading bits is shifted. -/
theorem remainder_getMsbD (n : Nat) : remainder p r ((range n).map r.getMsbD) = r <<< n := by
  induction n with
  | zero => exact (BitVec.shiftLeft_zero r).symm
  | succ n ih =>
    rw [range_succ, map_append, remainder_append, ih, BitVec.shiftLeft_add]
    show bitStep p (r <<< n) (r.getMsbD n) = _
    rw [bitStep, BitVec.msb_shiftLeft, Bool.xor_self]
    rfl

/-! ## §2. Short messages. -/

section Odd

variable (hp : p.getLsbD 0 = true)
include hp

/-- **What clears the register**: as many of its leading bits as are fed, when the others
are zero. -/
theorem remainder_eq_zero_iff (es : List Bool) : ∀ (r : BitVec w), es.length ≤ w →
    (remainder p r es = 0#w ↔ ∀ i < w, r.getMsbD i = es.getD i false) := by
  have hw : 0 < w := BitVec.lt_of_getLsbD hp
  induction es with
  | nil =>
    intro r _
    simp only [getD_nil]
    refine ⟨fun h i _ => ?_, fun h => BitVec.eq_of_getMsbD_eq fun i hi => ?_⟩
    · rw [show r = 0#w from h, BitVec.getMsbD_zero]
    · rw [show remainder p r [] = r from rfl, h i hi, BitVec.getMsbD_zero]
  | cons b es ih =>
    intro r hlen
    rw [length_cons] at hlen
    show remainder p (bitStep p r b) es = 0#w ↔ _
    rw [ih _ (by omega)]
    have hlast : es.getD (w - 1) false = false := by
      rw [getD_eq_getElem?_getD, getElem?_eq_none (by omega)]
      rfl
    by_cases hb : r.msb = b
    · have hstep : bitStep p r b = r <<< 1 := by
        rw [bitStep, hb, Bool.xor_self]
        rfl
      rw [hstep]
      refine ⟨fun h i hi => ?_, fun h i hi => ?_⟩
      · cases i with
        | zero => exact hb
        | succ i =>
          have hi' := h i (by omega)
          rwa [BitVec.getMsbD_shiftLeft] at hi'
      · rw [BitVec.getMsbD_shiftLeft]
        by_cases hi' : i + 1 < w
        · exact h (i + 1) hi'
        · rw [BitVec.getMsbD_of_ge _ _ (by omega), show i = w - 1 by omega, hlast]
    · -- the polynomial is odd: subtracting it sets the last bit, and none is left to clear it
      refine iff_of_false (fun h => ?_) fun h => hb (h 0 hw)
      have hbit := h (w - 1) (by omega)
      have hne : (r.msb ^^ b) = true := by
        cases hm : r.msb <;> cases b <;> simp_all
      rw [hlast, bitStep, if_pos hne, BitVec.getMsbD_xor, BitVec.getMsbD_shiftLeft,
        BitVec.getMsbD_of_ge _ _ (by omega), BitVec.getMsbD_eq_getLsbD, Nat.sub_self, hp] at hbit
      simp at hbit
      omega

/-- No bits as many as the register are lost. -/
theorem remainder_inj {q : BitVec w} {x y : List Bool} (hlen : x.length = y.length)
    (hw : x.length ≤ w) (h : remainder p q x = remainder p q y) : x = y := by
  have hzero : remainder p 0#w (zipWith xor x y) = 0#w := by
    have hxor := remainder_xor (p := p) x y q q hlen
    rwa [h, BitVec.xor_self, BitVec.xor_self] at hxor
  rw [remainder_eq_zero_iff hp _ _ (by rw [length_zipWith]; omega)] at hzero
  refine ext_getElem hlen fun i hx hy => ?_
  have hi := hzero i (by omega)
  rw [getD_eq_getElem?_getD, getElem?_zipWith,
    getElem?_eq_getElem hx, getElem?_eq_getElem hy] at hi
  simpa using hi.symm

/-- Nor is the register lost. -/
theorem remainder_left_inj {a c : BitVec w} {v : List Bool}
    (h : remainder p a v = remainder p c v) : a = c := by
  have hw : 0 < w := BitVec.lt_of_getLsbD hp
  induction v generalizing a c with
  | nil => exact h
  | cons b v ih =>
    have hstep : bitStep p a b = bitStep p c b := ih h
    have hzero : remainder p (a ^^^ c) [false] = 0#w := by
      have hxor := bitStep_xor (p := p) a c b b
      rwa [Bool.xor_self, hstep, BitVec.xor_self] at hxor
    rw [remainder_eq_zero_iff hp [false] _ hw] at hzero
    refine BitVec.xor_eq_zero_iff.mp (BitVec.eq_of_getMsbD_eq fun i hi => ?_)
    rw [hzero i hi, BitVec.getMsbD_zero]
    cases i <;> rfl

/-- **Every burst is detected**: two messages that differ, and only inside a window of the
register's length, leave different remainders. -/
theorem remainder_ne_of_window {q : BitVec w} {a b : List Bool} (hlen : a.length = b.length)
    (hne : a ≠ b) {k : Nat} (hwindow : ∀ i, a[i]? ≠ b[i]? → k ≤ i ∧ i < k + w) :
    remainder p q a ≠ remainder p q b := by
  intro h
  have hsplit : ∀ l : List Bool, l = l.take k ++ ((l.drop k).take w ++ l.drop (k + w)) := by
    intro l
    rw [← drop_drop, take_append_drop, take_append_drop]
  have hbefore : a.take k = b.take k := by
    refine ext_getElem? fun i => ?_
    rw [getElem?_take, getElem?_take]
    by_contra hi
    have hik : i < k := by
      by_contra hge
      rw [if_neg hge, if_neg hge] at hi
      exact hi rfl
    rw [if_pos hik, if_pos hik] at hi
    have := hwindow i hi
    omega
  have hafter : a.drop (k + w) = b.drop (k + w) := by
    refine ext_getElem? fun i => ?_
    rw [getElem?_drop, getElem?_drop]
    by_contra hi
    have := hwindow _ hi
    omega
  have hinside : (a.drop k).take w = (b.drop k).take w := by
    rw [hsplit a, hsplit b, ← hbefore, ← hafter] at h
    simp only [remainder_append] at h
    exact remainder_inj hp (by simp [hlen]) (length_take_le _ _) (remainder_left_inj hp h)
  exact hne (by rw [hsplit a, hsplit b, hbefore, hinside, hafter])

end Odd

/-! ## §3. Bytes. -/

@[simp] theorem length_bits (bytes : List (BitVec 8)) : (bits bytes).length = 8 * bytes.length := by
  simp [bits, bitsOf, Nat.mul_comm]

theorem bits_inj : ∀ {a b : List (BitVec 8)}, bits a = bits b → a = b
  | [], [], _ => rfl
  | [], _ :: _, h => by simpa using congrArg length h
  | _ :: _, [], h => by simpa using congrArg length h
  | x :: a, y :: b, h => by
    obtain ⟨hbyte, hrest⟩ := append_inj (show bitsOf x ++ bits a = bitsOf y ++ bits b from h)
      (by simp [bitsOf])
    have hxy : x = y := BitVec.eq_of_getMsbD_eq fun i hi =>
      map_inj_left.mp hbyte i (mem_range.mpr hi)
    rw [hxy, bits_inj hrest]

/-- No byte string as long as the register is lost. -/
theorem remainder_bits_eq_iff (hp : p.getLsbD 0 = true) {s : BitVec w} {a b : List (BitVec 8)}
    (hlen : a.length = b.length) (hw : 8 * a.length ≤ w) (hb : remainder p r (bits b) = s) :
    remainder p r (bits a) = s ↔ a = b := by
  refine ⟨fun ha => bits_inj ?_, fun h => h ▸ hb⟩
  exact remainder_inj hp (by rw [length_bits, length_bits, hlen]) (by rwa [length_bits]) (ha.trans hb.symm)

theorem bitsOf_xor (a b : BitVec 8) : bitsOf (a ^^^ b) = zipWith xor (bitsOf a) (bitsOf b) := by
  exact map_congr_left fun i _ => BitVec.getMsbD_xor

/-- The byte that leaves the register next. -/
def top (r : BitVec w) : BitVec 8 := (r >>> (w - 8)).setWidth 8

/-- A table holds the remainder of each single byte. -/
def IsTable (p : BitVec w) (table : List (BitVec w)) : Prop :=
  ∀ b : BitVec 8, table.getD b.toNat 0#w = remainder p 0#w (bitsOf b)

/-- A byte from the table. -/
def tableStep (table : List (BitVec w)) (r : BitVec w) (b : BitVec 8) : BitVec w :=
  table.getD (b ^^^ top r).toNat 0#w ^^^ (r <<< 8)

theorem bitsOf_top (hw : 8 ≤ w) : bitsOf (top r) = (range 8).map r.getMsbD := by
  refine map_congr_left fun i hi => ?_
  have hi8 : i < 8 := mem_range.mp hi
  rw [BitVec.getMsbD_eq_getLsbD, BitVec.getMsbD_eq_getLsbD, top, BitVec.getLsbD_setWidth,
    BitVec.getLsbD_ushiftRight, show w - 8 + (8 - 1 - i) = w - 1 - i by omega]
  simp [hi8, show i < w by omega, show 8 - 1 - i < 8 by omega]

/-- **A byte from the table is eight bits of the remainder.** -/
theorem tableStep_eq {table : List (BitVec w)} (h : IsTable p table) (hw : 8 ≤ w) (b : BitVec 8) :
    tableStep table r b = remainder p r (bitsOf b) := by
  -- the bits that leave, plus the difference to the bits that come
  have hb : b = (b ^^^ top r) ^^^ top r := by
    rw [BitVec.xor_assoc, BitVec.xor_self, BitVec.xor_zero]
  have hxor := remainder_xor (p := p) (bitsOf (b ^^^ top r)) (bitsOf (top r)) 0#w r (by simp [bitsOf])
  rw [← bitsOf_xor, ← hb, BitVec.zero_xor, bitsOf_top hw, remainder_getMsbD] at hxor
  rw [hxor, tableStep, h]

/-- The byte that leaves, fed back, shifts the register. -/
theorem tableStep_top {table : List (BitVec w)} (h : IsTable p table) (hw : 8 ≤ w) :
    tableStep table r (top r) = r <<< 8 := by
  rw [tableStep_eq h hw, bitsOf_top hw, remainder_getMsbD]

/-- After `k` bits have left, the next byte is that much further down. -/
theorem top_shiftLeft {k : Nat} (hw : 8 ≤ w) (hk : k ≤ w - 8) :
    top (r <<< k) = (r >>> (w - 8 - k)).setWidth 8 := by
  refine BitVec.eq_of_getLsbD_eq fun i hi => ?_
  unfold top
  simp only [BitVec.getLsbD_setWidth, BitVec.getLsbD_ushiftRight, BitVec.getLsbD_shiftLeft]
  rw [show w - 8 + i - k = w - 8 - k + i by omega]
  simp [show w - 8 + i < w by omega, show ¬ w - 8 + i < k by omega]

/-- Any number of bytes. -/
theorem foldl_tableStep {table : List (BitVec w)} (h : IsTable p table) (hw : 8 ≤ w)
    (bytes : List (BitVec 8)) (r : BitVec w) :
    bytes.foldl (tableStep table) r = remainder p r (bits bytes) := by
  induction bytes generalizing r with
  | nil => rfl
  | cons b bytes ih =>
    rw [foldl_cons, ih, tableStep_eq h hw]
    exact (remainder_append _ _).symm

end CyclicCode
