/-
  ColonyCore.Math.Integer
  **INCREMENTING A LARGE INTEGER (`Cpl/Math/integer.cpp`).**

  `incrementLargeInteger` adds a byte to an integer of any number of bytes, in place and in
  either byte order.  An access outside the array is `none`; all indices lie between −1 and
  the size, which is an `int`.

    • `ofLeBytes_ripple` — the carry goes from byte to byte until there is none,
    • `loop_eq` — the loop is that, in the order of the bytes,
    • `increment_wraps` — the integer is increased modulo its range.
-/
import ColonyCore.Lib.LittleEndian

namespace ColonyCore.Math

open LittleEndian

/-! ## §1. The code. -/

/-- `uint16_t result`. -/
def result (byte incValue : Byte) : BitVec 16 := byte.setWidth 16 + incValue.setWidth 16

/-- The loop. -/
def loop (endIdx direction : Int) : Nat → List Byte → Int → Byte → Option (List Byte)
  | 0, _, _, _ => none
  | fuel + 1, bytes, idx, incValue =>
    if idx = endIdx + direction then some bytes
    else if idx < 0 then none
    else
      bytes[idx.toNat]?.bind fun byte =>
        let result := result byte incValue
        let bytes := bytes.set idx.toNat (result.setWidth 8)
        if result >>> 8 = 0#16 then some bytes
        else loop endIdx direction fuel bytes (idx + direction) ((result >>> 8).setWidth 8)

/-- `incrementLargeInteger`, with the assertion of its size. -/
def incrementLargeInteger (fuel : Nat) (integerToBeIncrement : List Byte) (incValue : Byte)
    (littleEndian : Bool) : Option (List Byte) :=
  let integerSizeInBytes : Int := integerToBeIncrement.length
  if integerSizeInBytes ≥ 1 then
    if littleEndian then loop (integerSizeInBytes - 1) 1 fuel integerToBeIncrement 0 incValue
    else loop 0 (-1) fuel integerToBeIncrement (integerSizeInBytes - 1) incValue
  else none

/-! ## §2. The carry. -/

/-- The bytes after the addition, least significant first. -/
def ripple : List Byte → Byte → List Byte
  | [], _ => []
  | b :: bs, c =>
    (result b c).setWidth 8 ::
      if result b c >>> 8 = 0#16 then bs else ripple bs ((result b c >>> 8).setWidth 8)

theorem length_ripple (bs : List Byte) (c : Byte) : (ripple bs c).length = bs.length := by
  induction bs generalizing c with
  | nil => rfl
  | cons b bs ih =>
    rw [ripple, List.length_cons, List.length_cons]
    split
    · rfl
    · rw [ih]

/-- The sum of two bytes fits in two bytes. -/
theorem toNat_result (b c : Byte) : (result b c).toNat = b.toNat + c.toNat := by
  have hb := b.isLt
  have hc := c.isLt
  simp only [result, BitVec.toNat_add, BitVec.toNat_setWidth]
  omega

/-- Its two bytes. -/
theorem toNat_low (b c : Byte) : ((result b c).setWidth 8).toNat = (b.toNat + c.toNat) % 256 := by
  rw [BitVec.toNat_setWidth, toNat_result]

theorem toNat_high (b c : Byte) : (result b c >>> 8).toNat = (b.toNat + c.toNat) / 256 := by
  rw [BitVec.toNat_ushiftRight, toNat_result, Nat.shiftRight_eq_div_pow]

/-- **The carry goes from byte to byte.** -/
theorem ofLeBytes_ripple (bs : List Byte) (c : Byte) :
    ofLeBytes (ripple bs c) = (ofLeBytes bs + c.toNat) % 256 ^ bs.length := by
  induction bs generalizing c with
  | nil => exact (Nat.mod_one _).symm
  | cons b bs ih =>
    have hhigh := toNat_high b c
    -- the bytes above, increased by the carry
    have hrest : ofLeBytes (if result b c >>> 8 = 0#16 then bs
        else ripple bs ((result b c >>> 8).setWidth 8))
        = (ofLeBytes bs + (b.toNat + c.toNat) / 256) % 256 ^ bs.length := by
      split
      next hzero =>
        rw [← hhigh, hzero, BitVec.toNat_zero, Nat.add_zero, Nat.mod_eq_of_lt (ofLeBytes_lt bs)]
      next =>
        have hcarry : (b.toNat + c.toNat) / 256 < 2 ^ 8 := by
          have hb := b.isLt
          have hc := c.isLt
          omega
        rw [ih, BitVec.toNat_setWidth, hhigh, Nat.mod_eq_of_lt hcarry]
    have hpow : 256 ^ (bs.length + 1) = 256 * 256 ^ bs.length := by ring
    have hlow : (b.toNat + 256 * ofLeBytes bs + c.toNat) % 256 = (b.toNat + c.toNat) % 256 := by
      omega
    have hup : (b.toNat + 256 * ofLeBytes bs + c.toNat) / 256
        = ofLeBytes bs + (b.toNat + c.toNat) / 256 := by
      omega
    rw [ripple, ofLeBytes, hrest, toNat_low, ofLeBytes, List.length_cons, hpow, Nat.mod_mul, hlow,
      hup]

/-! ## §3. The loop, in either order. -/

/-- The bytes as they lie in the array. -/
def arrange (littleEndian : Bool) (bytes : List Byte) : List Byte :=
  if littleEndian then bytes else bytes.reverse

/-- The integer in the array. -/
def value (littleEndian : Bool) (bytes : List Byte) : Nat := ofLeBytes (arrange littleEndian bytes)

/-- The index of the first byte of `post`, which is behind `pre`. -/
def indexOf (littleEndian : Bool) (pre post : List Byte) : Int :=
  if littleEndian then pre.length else post.length - 1

variable (littleEndian : Bool)

theorem arrange_arrange (bytes : List Byte) :
    arrange littleEndian (arrange littleEndian bytes) = bytes := by
  cases littleEndian with
  | true => rfl
  | false => exact List.reverse_reverse bytes

theorem length_arrange (bytes : List Byte) :
    (arrange littleEndian bytes).length = bytes.length := by
  cases littleEndian <;> simp [arrange]

/-- A byte is read and replaced at its index. -/
theorem access_arrange (pre post : List Byte) (b : Byte) :
    0 ≤ indexOf littleEndian pre (b :: post)
    ∧ (arrange littleEndian (pre ++ b :: post))[(indexOf littleEndian pre (b :: post)).toNat]?
      = some b
    ∧ ∀ b', (arrange littleEndian (pre ++ b :: post)).set
        (indexOf littleEndian pre (b :: post)).toNat b'
      = arrange littleEndian (pre ++ b' :: post) := by
  cases littleEndian <;> simp [indexOf, arrange]

/-- **The loop** at the bytes `post`, with the bytes `pre` done. -/
theorem loop_eq {endIdx direction : Int} (hdir : direction = if littleEndian then 1 else -1)
    (pre post : List Byte) (hend : endIdx + direction = indexOf littleEndian (pre ++ post) [])
    (c : Byte) {fuel : Nat} (hfuel : post.length < fuel) :
    loop endIdx direction fuel (arrange littleEndian (pre ++ post))
        (indexOf littleEndian pre post) c
      = some (arrange littleEndian (pre ++ ripple post c)) := by
  induction post generalizing pre c fuel with
  | nil =>
    obtain ⟨fuel, rfl⟩ : ∃ m, fuel = m + 1 := ⟨fuel - 1, by omega⟩
    rw [List.append_nil] at hend ⊢
    rw [loop, if_pos hend.symm, ripple, List.append_nil]
  | cons b bs ih =>
    obtain ⟨fuel, rfl⟩ : ∃ m, fuel = m + 1 := ⟨fuel - 1, by omega⟩
    obtain ⟨hpos, hread, hwrite⟩ := access_arrange littleEndian pre bs b
    have hgoes : indexOf littleEndian pre (b :: bs) ≠ endIdx + direction := by
      rw [hend]
      cases littleEndian <;> simp [indexOf]
      omega
    have hnext : indexOf littleEndian pre (b :: bs) + direction
        = indexOf littleEndian (pre ++ [(result b c).setWidth 8]) bs := by
      rw [hdir]
      cases littleEndian <;> simp [indexOf]
      omega
    rw [loop, if_neg hgoes, if_neg (by omega), hread, Option.bind_some, ripple]
    simp only [hwrite, hnext]
    split
    · rfl
    · have hrest := ih (pre ++ [(result b c).setWidth 8]) (by simpa [indexOf] using hend)
        ((result b c >>> 8).setWidth 8) (Nat.lt_of_succ_lt_succ hfuel)
      simpa using hrest

/-- **INCREMENTING A LARGE INTEGER**, in either byte order: it is increased modulo its range, and
    no byte outside of it is accessed. -/
theorem increment_wraps (bytes : List Byte) (hbytes : 1 ≤ bytes.length) (incValue : Byte)
    (littleEndian : Bool) (fuel : Nat) (hfuel : bytes.length < fuel) :
    ∃ bytes', incrementLargeInteger fuel bytes incValue littleEndian = some bytes'
      ∧ bytes'.length = bytes.length
      ∧ value littleEndian bytes'
        = (value littleEndian bytes + incValue.toNat) % 256 ^ bytes.length := by
  have hlen := length_arrange littleEndian bytes
  have hloop := loop_eq littleEndian rfl [] (arrange littleEndian bytes) (sub_add_cancel _ _)
    incValue (hlen ▸ hfuel)
  refine ⟨arrange littleEndian (ripple (arrange littleEndian bytes) incValue), ?_, ?_, ?_⟩
  · rw [List.nil_append, arrange_arrange] at hloop
    rw [incrementLargeInteger, if_pos (by omega)]
    cases littleEndian <;> simpa [indexOf, arrange] using hloop
  · rw [length_arrange, length_ripple, hlen]
  · rw [value, arrange_arrange, ofLeBytes_ripple, hlen, value]

/-- A carry through two bytes, the most significant byte first. -/
theorem increment_wraps_carry :
    ∃ bytes', incrementLargeInteger 4 [0x12#8, 0xFF#8, 0xFE#8] 0x03#8 false = some bytes'
      ∧ value false bytes' = 0x130001 := by
  obtain ⟨bytes', hrun, -, hvalue⟩ := increment_wraps [0x12#8, 0xFF#8, 0xFE#8] (by decide) 0x03#8
    false 4 (by decide)
  exact ⟨bytes', hrun, hvalue.trans (by decide)⟩

end ColonyCore.Math
