/-
  ColonyCore.Lib.LittleEndian
  **FIXED-WIDTH LITTLE-ENDIAN INTEGERS AS BYTE LISTS.**

  `leBytes w n` is the memory image of `n` in an unsigned integer of `w`
  bytes, `ofLeBytes` reads such an image back.  The round trip
  (`ofLeBytes_leBytes`) and the range bound are all a user needs; which
  program copies which integer is not known here.
-/
import Mathlib.Tactic.Ring

namespace LittleEndian

/-- One byte of storage. -/
abbrev Byte := BitVec 8

/-- The `w` bytes of `n`, least significant first (`n` is taken modulo `256 ^ w`). -/
def leBytes : Nat → Nat → List Byte
  | 0, _ => []
  | w + 1, n => BitVec.ofNat 8 n :: leBytes w (n / 256)

/-- The number whose bytes, least significant first, are given. -/
def ofLeBytes : List Byte → Nat
  | [] => 0
  | b :: bs => b.toNat + 256 * ofLeBytes bs

@[simp] theorem length_leBytes (w : Nat) : ∀ (n : Nat), (leBytes w n).length = w := by
  induction w with
  | zero => intro n; rfl
  | succ w ih => intro n; rw [leBytes, List.length_cons, ih]

/-- Reading an image back gives the number modulo the range of its type. -/
theorem ofLeBytes_leBytes (w : Nat) : ∀ (n : Nat), ofLeBytes (leBytes w n) = n % 256 ^ w := by
  induction w with
  | zero => intro n; rw [Nat.pow_zero, Nat.mod_one]; rfl
  | succ w ih =>
    intro n
    have hpow : 256 ^ (w + 1) = 256 * 256 ^ w := by ring
    rw [leBytes, ofLeBytes, ih, BitVec.toNat_ofNat, hpow, Nat.mod_mul]

theorem ofLeBytes_leBytes_of_lt (w n : Nat) (h : n < 256 ^ w) : ofLeBytes (leBytes w n) = n := by
  rw [ofLeBytes_leBytes, Nat.mod_eq_of_lt h]

theorem ofLeBytes_lt (bs : List Byte) : ofLeBytes bs < 256 ^ bs.length := by
  induction bs with
  | nil => exact Nat.one_pos
  | cons b bs ih =>
    rw [ofLeBytes, List.length_cons]
    omega

theorem ofLeBytes_replicate_zero (w : Nat) : ofLeBytes (List.replicate w 0#8) = 0 := by
  induction w with
  | zero => rfl
  | succ w ih => rw [List.replicate_succ, ofLeBytes, ih]; rfl

/-- All ones is the greatest number of its width. -/
theorem ofLeBytes_replicate_ones (w : Nat) : ofLeBytes (List.replicate w 0xFF#8) + 1 = 256 ^ w := by
  induction w with
  | zero => rfl
  | succ w ih =>
    rw [List.replicate_succ, ofLeBytes, show (0xFF#8).toNat = 255 from rfl]
    omega

end LittleEndian
