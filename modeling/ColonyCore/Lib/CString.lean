/-
  ColonyCore.Lib.CString
  **C STRINGS IN A BUFFER.**

  A buffer is a list of bytes; the string in it ends before the first NUL.  The
  functions of `<string.h>` are byte operations that FAULT (`none`) where they would
  leave the buffer, and are described by what they do to the string.

    • `cstr`, `strlen`     — the string in a buffer,
    • `strncpy_nul`, `strncat_nul` — a bounded copy and a bounded append, each followed
      by its NUL,
    • `shiftRight_spec`, `cstr_inserted` — room made in the middle of a string, and the
      string once the room is filled,
    • `CTypes`             — the widths of `int` and `size_t`.
-/
import ColonyCore.Lib.ByteStore
import ColonyCore.Lib.LittleEndian

namespace CString

open ByteStore LittleEndian List

/-! ## §1. `int` and `size_t`. -/

/-- The widths of a build. -/
structure CTypes where
  intBits : Nat
  sizeBits : Nat
  intBits_ge : 16 ≤ intBits
  int_le_size : intBits ≤ sizeBits

/-- 32-bit `int`, 64-bit `size_t`. -/
def CTypes.lp64 : CTypes := ⟨32, 64, by decide, by decide⟩

namespace CTypes

variable (C : CTypes)

def INT_MAX : Nat := 2 ^ (C.intBits - 1) - 1

/-- A `size_t` converted to an `int`. -/
def toInt (n : Nat) : Int := Int.bmod n (2 ^ C.intBits)

/-- An `int` converted to a `size_t`. -/
def toSize (n : Int) : Nat := (n % (2 ^ C.sizeBits : Nat)).toNat

theorem two_pow_intBits : 2 ^ C.intBits = 2 * (C.INT_MAX + 1) := by
  have hpos : 0 < 2 ^ (C.intBits - 1) := Nat.two_pow_pos _
  have hbits := C.intBits_ge
  have hsucc : 2 ^ C.intBits = 2 ^ (C.intBits - 1) * 2 := by
    rw [← Nat.pow_succ]
    congr 1
    omega
  unfold INT_MAX
  omega

theorem toInt_of_le {n : Nat} (h : n ≤ C.INT_MAX) : C.toInt n = n := by
  have hbits := C.two_pow_intBits
  unfold toInt Int.bmod
  have hmod : (n : Int) % (2 ^ C.intBits : Nat) = n := by
    rw [Int.emod_eq_of_lt (by omega) (by omega)]
  rw [hmod, if_pos (by omega)]

theorem toSize_of_le {n : Nat} (h : n ≤ C.INT_MAX) : C.toSize n = n := by
  have hbits := C.two_pow_intBits
  have hle : 2 ^ C.intBits ≤ 2 ^ C.sizeBits := Nat.pow_le_pow_right (by decide) C.int_le_size
  unfold toSize
  rw [Int.emod_eq_of_lt (by omega) (by omega), Int.toNat_natCast]

end CTypes

/-! ## §2. The string in a buffer. -/

scoped instance lawfulByte : LawfulBEq Byte := inferInstance

/-- The string in a buffer: the bytes before the first NUL. -/
def cstr (s : List Byte) : List Byte := s.takeWhile fun b => b ≠ 0#8

def strlen (s : List Byte) : Nat := (cstr s).length

/-- A string of the caller's: it contains no NUL, one follows it. -/
abbrev CStr : Type := { s : List Byte // 0#8 ∉ s }

theorem nul_not_mem_nil : 0#8 ∉ ([] : List Byte) := not_mem_nil

theorem nul_not_mem_cstr (s : List Byte) : 0#8 ∉ cstr s := by
  intro hmem
  have hall : (cstr s).all (fun b => b ≠ 0#8) = true := all_takeWhile
  have hne := all_eq_true.mp hall _ hmem
  simp at hne

variable {c : List Byte}

theorem cstr_of_not_mem (h : 0#8 ∉ c) (rest : List Byte) : cstr (c ++ 0#8 :: rest) = c := by
  have hne : ∀ b ∈ c, (decide (b ≠ 0#8)) = true := by
    intro b hb
    rw [decide_eq_true_iff]
    rintro rfl
    exact h hb
  unfold cstr
  rw [takeWhile_append_of_pos hne]
  simp

variable {s : List Byte}

/-- A terminated buffer is its string, a NUL, and bytes of no meaning. -/
theorem exists_rest (h : 0#8 ∈ s) : ∃ rest, s = cstr s ++ 0#8 :: rest := by
  induction s with
  | nil => exact absurd h not_mem_nil
  | cons b s ih =>
    by_cases hb : b = 0#8
    · exact ⟨s, by simp [cstr, hb]⟩
    · obtain ⟨rest, hrest⟩ := ih ((mem_cons.mp h).resolve_left fun heq => hb heq.symm)
      refine ⟨rest, ?_⟩
      have hcons : cstr (b :: s) = b :: cstr s := by simp [cstr, hb]
      rw [hcons, cons_append, ← hrest]

section Terminated

variable {s : List Byte} (h : 0#8 ∈ s)

include h

theorem strlen_lt : strlen s < s.length := by
  obtain ⟨rest, hrest⟩ := exists_rest h
  have hlen := congrArg length hrest
  rw [length_append, length_cons] at hlen
  unfold strlen
  omega

theorem getElem?_of_lt_strlen {i : Nat} (hi : i < strlen s) : s[i]? = (cstr s)[i]? := by
  obtain ⟨rest, hrest⟩ := exists_rest h
  have happ : (cstr s ++ 0#8 :: rest)[i]? = (cstr s)[i]? := getElem?_append_left hi
  rw [← hrest] at happ
  exact happ

end Terminated

/-- **The string of a buffer, byte by byte.** -/
theorem cstr_of_getElem? {t : List Byte} (hc : 0#8 ∉ t)
    (hbytes : ∀ i, i < t.length → s[i]? = t[i]?) (hnul : s[t.length]? = some 0#8) :
    cstr s = t ∧ 0#8 ∈ s := by
  have hsplit : s = t ++ 0#8 :: s.drop (t.length + 1) := by
    apply ext_getElem?
    intro i
    rcases Nat.lt_trichotomy i t.length with hlt | rfl | hgt
    · rw [getElem?_append_left hlt, hbytes i hlt]
    · rw [hnul]
      simp
    · rw [getElem?_append_right (by omega)]
      obtain ⟨j, rfl⟩ := Nat.exists_eq_add_of_lt hgt
      rw [show t.length + j + 1 - t.length = j + 1 by omega, getElem?_cons_succ,
          getElem?_drop]
      congr 1
      omega
  refine ⟨?_, mem_of_getElem? hnul⟩
  rw [hsplit]
  exact cstr_of_not_mem hc _

variable {n : Nat}

/-- The string at an offset of a buffer, read there. -/
theorem slice_eq_take_cstr {p : Nat} (hs : 0#8 ∈ s.drop p)
    (hn : n ≤ strlen (s.drop p)) : slice s p n = (cstr (s.drop p)).take n := by
  obtain ⟨rest, hrest⟩ := exists_rest hs
  have htake : (cstr (s.drop p) ++ 0#8 :: rest).take n = (cstr (s.drop p)).take n :=
    take_append_of_le_length hn
  rw [← hrest] at htake
  exact htake

/-! ## §3. The functions of `<string.h>`. -/

/-- Bytes stored at an offset of the buffer. -/
def put (s : List Byte) (off : Nat) (bytes : List Byte) : Option (List Byte) :=
  if off + bytes.length ≤ s.length then some (overlay s off bytes) else none

/-- `s[i] = '\0'`. -/
def putNul (s : List Byte) (i : Int) : Option (List Byte) :=
  if 0 ≤ i then put s i.toNat [0#8] else none

/-- `strncpy( s, c, n )`: `n` bytes are written, NULs behind a shorter string. -/
def strncpy (s c : List Byte) (n : Nat) : Option (List Byte) :=
  put s 0 (c.take n ++ replicate (n - c.length) 0#8)

/-- `strncat( s, c, n )`. -/
def strncat (s c : List Byte) (n : Nat) : Option (List Byte) :=
  put s (strlen s) (c.take n ++ [0#8])

/-- `memmove( s + dst, s + src, n )`. -/
def memmove (s : List Byte) (dst src n : Nat) : Option (List Byte) :=
  if src + n ≤ s.length then put s dst (slice s src n) else none

variable {bytes : List Byte}

theorem put_eq {off : Nat}
    (h : off + bytes.length ≤ s.length) : put s off bytes = some (overlay s off bytes) := if_pos h

variable {i : Nat}

theorem putNul_eq (h : i < s.length) : putNul s i = some (overlay s i [0#8]) := by
  unfold putNul
  rw [if_pos (by omega), Int.toNat_natCast, put_eq (Nat.succ_le_of_lt h)]

theorem getElem?_overlay_nul (h : i < s.length) (j : Nat) :
    (overlay s i [0#8])[j]? = if j = i then some 0#8 else s[j]? := by
  rw [getElem?_overlay s i [0#8] (Nat.succ_le_of_lt h)]
  by_cases hj : j = i
  · rw [if_pos hj, hj]
    simp
  · rw [if_neg (by simp only [length_singleton]; omega), if_neg hj]

theorem length_overlay_nul (h : i < s.length) :
    (overlay s i [0#8]).length = s.length := length_overlay s i [0#8] (Nat.succ_le_of_lt h)

/-- A part of a string without NUL has none. -/
theorem nul_not_mem_take (h : 0#8 ∉ c) (n : Nat) : 0#8 ∉ c.take n :=
  fun hmem => h (mem_of_mem_take hmem)

variable {k : Nat}

/-- **A string with bytes inserted**: `e` holds the first `k` bytes of the string of
`s`, then `bytes`, then the next `move` bytes of the string, then a NUL. -/
theorem cstr_inserted {e : List Byte} {move : Nat} (hs : 0#8 ∈ s) (hb : 0#8 ∉ bytes)
    (hk : k + move ≤ strlen s) (hleft : ∀ i, i < k → e[i]? = s[i]?)
    (hmid : ∀ i, i < bytes.length → e[k + i]? = bytes[i]?)
    (hright : ∀ i, i < move → e[k + bytes.length + i]? = s[k + i]?)
    (hnul : e[k + bytes.length + move]? = some 0#8) :
    cstr e = (cstr s).take k ++ (bytes ++ ((cstr s).drop k).take move) ∧ 0#8 ∈ e := by
  have hlen : (cstr s).length = strlen s := rfl
  have htake : ((cstr s).take k).length = k := by rw [length_take]; omega
  have hdrop : (((cstr s).drop k).take move).length = move := by
    rw [length_take, length_drop]
    omega
  have hfree : 0#8 ∉ (cstr s).take k ++ (bytes ++ ((cstr s).drop k).take move) := by
    simp only [mem_append, not_or]
    exact ⟨nul_not_mem_take (nul_not_mem_cstr s) k, hb, fun hmem =>
      nul_not_mem_cstr s (mem_of_mem_drop (mem_of_mem_take hmem))⟩
  refine cstr_of_getElem? hfree (fun i hi => ?_) ?_
  · simp only [length_append] at hi
    by_cases h1 : i < k
    · rw [getElem?_append_left (by omega), getElem?_take, if_pos h1, hleft i h1]
      exact getElem?_of_lt_strlen hs (by omega)
    · obtain ⟨j, rfl⟩ := Nat.exists_eq_add_of_le (Nat.le_of_not_lt h1)
      rw [getElem?_append_right (by omega), htake, Nat.add_sub_cancel_left]
      by_cases h2 : j < bytes.length
      · rw [getElem?_append_left h2, hmid j h2]
      · obtain ⟨m, rfl⟩ := Nat.exists_eq_add_of_le (Nat.le_of_not_lt h2)
        rw [getElem?_append_right (by omega), Nat.add_sub_cancel_left, getElem?_take,
            if_pos (by omega), getElem?_drop, ← Nat.add_assoc, hright m (by omega)]
        exact getElem?_of_lt_strlen hs (by omega)
  · simp only [length_append, htake, hdrop]
    rw [← Nat.add_assoc]
    exact hnul

theorem length_padded (c : List Byte) (n : Nat) :
    (c.take n ++ replicate (n - c.length) 0#8).length = n := by
  simp only [length_append, length_take, length_replicate]
  omega

/-- **A bounded copy and its NUL**: the buffer holds the first `n` bytes. -/
theorem strncpy_nul (s : List Byte) (hc : 0#8 ∉ c) (h : n < s.length) :
    ∃ d, (strncpy s c n).bind (putNul · n) = some d ∧ d.length = s.length ∧
      cstr d = c.take n ∧ 0#8 ∈ d := by
  have hpad : 0 + (c.take n ++ replicate (n - c.length) 0#8).length ≤ s.length := by
    rw [length_padded]
    omega
  have hput : strncpy s c n = some (overlay s 0 (c.take n ++ replicate (n - c.length) 0#8)) :=
    put_eq hpad
  have hlen := length_overlay s 0 _ hpad
  have hget := getElem?_overlay s 0 _ hpad
  generalize overlay s 0 (c.take n ++ replicate (n - c.length) 0#8) = e at hput hlen hget
  have hnul : n < e.length := by rw [hlen]; exact h
  refine ⟨overlay e n [0#8], by rw [hput, Option.bind_some, putNul_eq hnul],
    by rw [length_overlay_nul hnul, hlen],
    cstr_of_getElem? (nul_not_mem_take hc n) (fun i hi => ?_) ?_⟩
  · have hi' := hi
    rw [length_take] at hi'
    rw [getElem?_overlay_nul hnul, if_neg (by omega), hget,
        if_pos ⟨Nat.zero_le i, by rw [length_padded]; omega⟩, Nat.sub_zero,
        getElem?_append_left hi]
  · -- the NUL is the one stored, or one of the padding
    rw [getElem?_overlay_nul hnul, length_take]
    by_cases hshort : c.length < n
    · rw [if_neg (by omega), hget, if_pos ⟨Nat.zero_le _, by rw [length_padded]; omega⟩,
          Nat.sub_zero, getElem?_append_right (by rw [length_take]),
          getElem?_replicate, if_pos (by rw [length_take]; omega)]
    · rw [if_pos (by omega)]

/-- **A whole copy**, `strcpy( s, c )`. -/
theorem strcpy_spec (s : List Byte) (hc : 0#8 ∉ c) (h : c.length < s.length) :
    ∃ d, put s 0 (c ++ [0#8]) = some d ∧ d.length = s.length ∧ cstr d = c ∧ 0#8 ∈ d := by
  have hin : 0 + (c ++ [0#8]).length ≤ s.length := by
    rw [length_append, length_singleton]
    omega
  have hget := getElem?_overlay s 0 _ hin
  rw [length_append, length_singleton] at hget
  refine ⟨_, put_eq hin, length_overlay s 0 _ hin, cstr_of_getElem? hc (fun i hi => ?_) ?_⟩
  · rw [hget, if_pos (by omega), Nat.sub_zero, getElem?_append_left hi]
  · rw [hget, if_pos (by omega), Nat.sub_zero, getElem?_append_right le_rfl,
        Nat.sub_self]
    rfl

/-- **A bounded append and its NUL.** -/
theorem strncat_nul (hs : 0#8 ∈ s) (hc : 0#8 ∉ c) (h : strlen s + n < s.length) :
    ∃ d, (strncat s c n).bind (putNul · (strlen s + n : Nat)) = some d ∧ d.length = s.length ∧
      cstr d = cstr s ++ c.take n ∧ 0#8 ∈ d := by
  have hbytes : (c.take n ++ [0#8]).length = min n c.length + 1 := by
    rw [length_append, length_take, length_singleton]
  have happ : strlen s + (c.take n ++ [0#8]).length ≤ s.length := by rw [hbytes]; omega
  have hput : strncat s c n = some (overlay s (strlen s) (c.take n ++ [0#8])) := put_eq happ
  have hlen := length_overlay s (strlen s) _ happ
  have hget := getElem?_overlay s (strlen s) _ happ
  generalize overlay s (strlen s) (c.take n ++ [0#8]) = e at hput hlen hget
  have hnul : strlen s + n < e.length := by rw [hlen]; exact h
  have hins : cstr (overlay e (strlen s + n) [0#8])
      = (cstr s).take (strlen s) ++ (c.take n ++ ((cstr s).drop (strlen s)).take 0)
      ∧ 0#8 ∈ overlay e (strlen s + n) [0#8] := by
    refine cstr_inserted hs (nul_not_mem_take hc n) le_rfl (fun i hi => ?_)
      (fun i hi => ?_) (fun i hi => absurd hi (Nat.not_lt_zero i)) ?_
    · rw [getElem?_overlay_nul hnul, if_neg (by omega), hget, if_neg (by omega)]
    · have hi' := hi
      rw [length_take] at hi'
      rw [getElem?_overlay_nul hnul, if_neg (by omega), hget,
          if_pos ⟨Nat.le_add_right _ _, by rw [hbytes]; omega⟩, Nat.add_sub_cancel_left,
          getElem?_append_left hi]
    · rw [getElem?_overlay_nul hnul, length_take, Nat.add_zero]
      by_cases hshort : c.length < n
      · rw [if_neg (by omega), hget,
            if_pos ⟨Nat.le_add_right _ _, by rw [hbytes]; omega⟩, Nat.add_sub_cancel_left,
            getElem?_append_right (by rw [length_take]), length_take,
            Nat.sub_self]
        rfl
      · rw [if_pos (by omega)]
  refine ⟨_, by rw [hput, Option.bind_some, putNul_eq hnul],
    by rw [length_overlay_nul hnul, hlen], ?_, hins.2⟩
  rw [hins.1]
  simp [strlen]

/-! ## §4. Room in the middle of a string. -/

/-- The bytes from `k` on are moved `copylen` to the right, `movelen` of them, and a
NUL is put behind. -/
def shiftRight (s : List Byte) (k copylen movelen : Nat) : Option (List Byte) :=
  if 0 < movelen then
    (memmove s (k + copylen) k movelen).bind fun s => putNul s (k + copylen + movelen : Nat)
  else some s

/-- **What the shift leaves**, byte by byte. -/
theorem shiftRight_spec {copylen movelen : Nat} (h : k + copylen + movelen < s.length) :
    ∃ d, shiftRight s k copylen movelen = some d ∧ d.length = s.length ∧
      (∀ i, i < k + copylen → d[i]? = s[i]?) ∧
      (∀ i, k + copylen + movelen < i → d[i]? = s[i]?) ∧
      (∀ i, i < movelen → d[k + copylen + i]? = s[k + i]?) ∧
      (0 < movelen → d[k + copylen + movelen]? = some 0#8) := by
  by_cases hpos : 0 < movelen
  · have hslice : (slice s k movelen).length = movelen := length_slice s k movelen (by omega)
    have hfit : k + copylen + (slice s k movelen).length ≤ s.length := by rw [hslice]; omega
    have hmove : memmove s (k + copylen) k movelen
        = some (overlay s (k + copylen) (slice s k movelen)) := by
      unfold memmove
      rw [if_pos (by omega), put_eq hfit]
    have hlen := length_overlay s _ _ hfit
    have hget := getElem?_overlay s _ _ hfit
    generalize overlay s (k + copylen) (slice s k movelen) = e at hmove hlen hget
    have hnul : k + copylen + movelen < e.length := by rw [hlen]; exact h
    refine ⟨overlay e (k + copylen + movelen) [0#8], ?_, by rw [length_overlay_nul hnul, hlen],
      fun i hi => ?_, fun i hi => ?_, fun i hi => ?_, fun _ => ?_⟩
    · unfold shiftRight
      rw [if_pos hpos, hmove, Option.bind_some, putNul_eq hnul]
    · rw [getElem?_overlay_nul hnul, if_neg (by omega), hget, if_neg (by omega)]
    · rw [getElem?_overlay_nul hnul, if_neg (by omega), hget, if_neg (by omega)]
    · rw [getElem?_overlay_nul hnul, if_neg (by omega), hget, if_pos (by omega),
          Nat.add_sub_cancel_left, getElem?_slice, if_pos hi]
    · rw [getElem?_overlay_nul hnul, if_pos rfl]
  · refine ⟨s, if_neg hpos, rfl, fun _ _ => rfl, fun _ _ => rfl, fun i hi => ?_, fun h => ?_⟩
    · omega
    · exact absurd h hpos

/-- **Room made and filled**: with a NUL behind it, the buffer holds the string with
`bytes` at `k` and `movelen` of the bytes behind. -/
theorem fill_spec {movelen : Nat} (hs : 0#8 ∈ s) (hb : 0#8 ∉ bytes)
    (hk : k + movelen ≤ strlen s) (hfit : k + bytes.length + movelen < s.length) :
    ∃ d e, shiftRight s k bytes.length movelen = some d ∧ put d k bytes = some e ∧
      d.length = s.length ∧ e.length = s.length ∧
      (∀ i, i < k + bytes.length → d[i]? = s[i]?) ∧
      (∀ i, k + bytes.length + movelen < i → d[i]? = s[i]?) ∧
      (0 < movelen → e[k + bytes.length + movelen]? = some 0#8) ∧
      ∀ e', (∀ i, i < k + bytes.length + movelen → e'[i]? = e[i]?) →
        e'[k + bytes.length + movelen]? = some 0#8 →
        cstr e' = (cstr s).take k ++ (bytes ++ ((cstr s).drop k).take movelen) ∧ 0#8 ∈ e' := by
  obtain ⟨d, hd, hdlen, hleft, hright, hmid, hnul⟩ := shiftRight_spec hfit
  have hin : k + bytes.length ≤ d.length := by omega
  have hget := getElem?_overlay d k bytes hin
  refine ⟨d, overlay d k bytes, hd, put_eq hin, hdlen, by rw [length_overlay d k bytes hin, hdlen],
    hleft, hright, fun hpos => ?_, fun e' hsame hend => ?_⟩
  · rw [hget, if_neg (by omega), hnul hpos]
  · refine cstr_inserted hs hb hk (fun i hi => ?_) (fun i hi => ?_) (fun i hi => ?_) hend
    · rw [hsame i (by omega), hget, if_neg (by omega), hleft i (by omega)]
    · rw [hsame _ (by omega), hget, if_pos (by omega), Nat.add_sub_cancel_left]
    · rw [hsame _ (by omega), hget, if_neg (by omega), hmid i hi]

/-- **An insertion with room for all of it.** -/
theorem insert_whole {ins : List Byte} (hs : 0#8 ∈ s) (hins : 0#8 ∉ ins)
    (hk : k < strlen s) (hfit : strlen s + ins.length < s.length) :
    ∃ d e, shiftRight s k ins.length (strlen s - k) = some d ∧ put d k ins = some e ∧
      (∀ i, i < k + ins.length → d[i]? = s[i]?) ∧
      (∀ i, strlen s + ins.length < i → d[i]? = s[i]?) ∧
      d.length = s.length ∧ e.length = s.length ∧
      cstr e = (cstr s).take k ++ (ins ++ (cstr s).drop k) ∧ 0#8 ∈ e := by
  obtain ⟨d, e, hd, he, hdlen, helen, hleft, hright, hnul, hcstr⟩ :=
    fill_spec hs hins (show k + (strlen s - k) ≤ strlen s by omega) (by omega)
  obtain ⟨hstr, hmem⟩ := hcstr e (fun _ _ => rfl) (hnul (by omega))
  refine ⟨d, e, hd, he, hleft, fun i hi => hright i (by omega), hdlen, helen, ?_, hmem⟩
  have hrest : ((cstr s).drop k).length = strlen s - k := length_drop
  rw [hstr, ← hrest, take_length]

/-- An insertion cut to the first `n` bytes. -/
theorem take_inserted {ins : List Byte} (hk : k ≤ c.length) (hn : k ≤ n) :
    (c.take k ++ (ins ++ c.drop k)).take n
      = c.take k ++ (ins.take (min ins.length (n - k)) ++
        (c.drop k).take (min (c.length - k) (n - k - min ins.length (n - k)))) := by
  have hlen : (c.take k).length = k := by rw [length_take]; omega
  rw [take_append, take_append, take_of_length_le (by omega)]
  congr 2
  · rw [take_eq_take_iff]
    omega
  · rw [take_eq_take_iff, length_drop]
    omega

/-- **An insertion cut to a capacity of `n`**: as much of `ins` as there is room for, as
much of the rest as there is room for then, and a NUL behind the capacity. -/
theorem insert_cut {ins : List Byte} {copylen movelen : Nat} (hs : 0#8 ∈ s)
    (hins : 0#8 ∉ ins) (hk : k < strlen s) (hn : strlen s ≤ n) (hlen : n < s.length)
    (hcopy : copylen = min ins.length (n - k))
    (hmove : movelen = min (strlen s - k) (n - k - copylen)) :
    ∃ d e, ((shiftRight s k copylen movelen).bind fun d =>
        (put d k (ins.take copylen)).bind (putNul · n)) = some e ∧
      shiftRight s k copylen movelen = some d ∧
      (∀ i, i < k + copylen → d[i]? = s[i]?) ∧
      (∀ i, k + copylen + movelen < i → d[i]? = s[i]?) ∧
      d.length = s.length ∧ e.length = s.length ∧
      cstr e = ((cstr s).take k ++ (ins ++ (cstr s).drop k)).take n ∧ 0#8 ∈ e := by
  have htake : (ins.take copylen).length = copylen := by rw [length_take]; omega
  obtain ⟨d, e, hd, he, hdlen, helen, hleft, hright, hnul, hcstr⟩ :=
    fill_spec hs (nul_not_mem_take hins copylen) (show k + movelen ≤ strlen s by omega)
      (by rw [htake]; omega)
  rw [htake] at hd hleft hright hnul hcstr
  have hnlt : n < e.length := by omega
  have hend : (overlay e n [0#8])[k + copylen + movelen]? = some 0#8 := by
    rw [getElem?_overlay_nul hnlt]
    by_cases hlast : k + copylen + movelen = n
    · rw [if_pos hlast]
    · rw [if_neg hlast]
      exact hnul (by omega)
  obtain ⟨hstr, hmem⟩ := hcstr (overlay e n [0#8])
    (fun i hi => by rw [getElem?_overlay_nul hnlt, if_neg (by omega)]) hend
  refine ⟨d, overlay e n [0#8], ?_, hd, hleft, hright, hdlen, ?_, ?_, hmem⟩
  · rw [hd, Option.bind_some, he, Option.bind_some, putNul_eq hnlt]
  · rw [length_overlay_nul hnlt, helen]
  · rw [hstr, take_inserted (Nat.le_of_lt hk) (by omega), ← hcopy]
    have hm : min ((cstr s).length - k) (n - k - copylen) = movelen := hmove.symm
    rw [hm]

end CString
