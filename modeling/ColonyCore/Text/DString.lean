/-
  ColonyCore.Text.DString
  **STRINGS THAT GROW (`Cpl/Text/DString.cpp`).**

  A `DString` keeps a C string in an allocation of its own, which it replaces by a larger
  one when a write does not fit.  An allocation may fail, and what a new one holds is
  anything.  The source of a write is a string of the caller's or a pointer INTO THE
  STRING'S OWN BUFFER.  What is undefined in C is a FAULT (`none`): an access outside the
  allocation or to the one that was freed, `strncpy` and `strncat` between bytes that
  overlap, signed overflow, division by zero.

    • `copyIn_spec`, `appendTo_spec`, `insertAt_spec_inside` — each write leaves the result
      computed from the values before the call, or, if the allocation it asked for
      failed, that result cut to the capacity and the flag,
    • `grows_of_meets`, `construct_grows` — every run of a constructed string, whose own
      bytes are only used as a source where the write neither replaces nor moves them,
    • `own_source_faults` — `s += s` that grows reads the freed buffer, and an insertion
      of the string's tail reads bytes that have been moved.
-/
import ColonyCore.Text.FString

namespace ColonyCore.Text

open CString ByteStore LittleEndian List Option Interleaving

/-! ## §1. The code. -/

/-- The members of a `DString`.  `mem` is the allocation at `m_strPtr`; without one
`m_strPtr` is `noMemory_`, an empty string that is never written. -/
structure DString where
  blockSize : Int
  storageLen : Int
  mem : Option (List Byte)
  truncated : Bool
  deriving DecidableEq

/-- The bytes of `noMemory_`. -/
def noMemory_ : List Byte := [0#8]

/-- Where the source of a write points. -/
inductive Source where
  | ext (s : CStr)
  | own (p : Nat)

/-- What an allocation gives: `none` if it fails, or bytes of any value. -/
abbrev Alloc : Type := Option (Nat → Byte)

/-- The bytes of a new allocation. -/
def newBytes (bytes : Nat → Byte) (size : Int) : List Byte :=
  (range size.toNat).map bytes

namespace Source

/-- The string at the source: `buf` is the buffer of the string, `freed` says that it
has been freed.  A string without an end runs out of the buffer. -/
def str (buf : List Byte) (freed : Bool) : Source → Option (List Byte)
  | .ext s => some s.val
  | .own p => if freed = true ∨ 0#8 ∉ buf.drop p then none else some (cstr (buf.drop p))

/-- `n` bytes at the source. -/
def bytes (buf : List Byte) (freed : Bool) (n : Nat) : Source → Option (List Byte)
  | .ext s => if n ≤ s.val.length then some (s.val.take n) else none
  | .own p => if freed = true ∨ buf.length < p + n then none else some (slice buf p n)

/-- `n` bytes at the source overlap the bytes `lo ≤ i < hi` of the buffer. -/
def Overlaps (lo hi n : Nat) : Source → Prop
  | .ext _ => False
  | .own p => p < hi ∧ lo < p + n

instance (lo hi n : Nat) : (src : Source) → Decidable (src.Overlaps lo hi n)
  | .ext _ => inferInstanceAs (Decidable False)
  | .own p => inferInstanceAs (Decidable (p < hi ∧ lo < p + n))

end Source

namespace DString

variable (C : CTypes)

variable (d : DString)

/-- The buffer at `m_strPtr`. -/
def buf : List Byte := d.mem.getD noMemory_

/-- `maxStrLen`. -/
def maxStrLen : Int := d.storageLen - 1

/-- The result of an `int` operation. -/
def checked (n : Int) : Option Int :=
  if -(C.INT_MAX + 1 : Int) ≤ n ∧ n ≤ C.INT_MAX then some n else none

/-- `calcMemSize`. -/
def calcMemSize (len : Int) : Option Int :=
  (checked C (len + d.blockSize)).bind fun sum =>
    if d.blockSize = 0 then none else some (sum.tdiv d.blockSize * d.blockSize)

/-- A pointer to `noMemory_` is one to an empty string that nothing changes. -/
def resolve (src : Source) : Source :=
  match src, d.mem with
  | .own _, none => .ext ⟨[], not_mem_nil⟩
  | src, _ => src

/-- `validateAndCopy`; `freed` says that the buffer the source may point to is gone. -/
def validateAndCopy (string : Option Source) (freed : Bool) (len : Int) :
    Option DString :=
  match d.mem, string with
  | none, _ => some { d with storageLen := 1, truncated := true }
  | some buf, none => (putNul buf 0).map fun s => { d with mem := some s, truncated := true }
  | some buf, some src =>
    (src.str buf freed).bind fun c =>
      if src.Overlaps 0 (C.toSize len) (min (C.toSize len) (c.length + 1)) then none else
      ((strncpy buf c (C.toSize len)).bind (putNul · len)).map fun s => { d with mem := some s }

/-- `copyIn`. -/
def copyIn (string : Option Source) (len : Int) (alloc : Alloc) : Option DString :=
  let src := string.map d.resolve
  let d := { d with truncated := false }
  if d.maxStrLen < len then
    (d.calcMemSize C len).bind fun newsize =>
      match alloc with
      | none => { d with truncated := true }.validateAndCopy C src false d.maxStrLen
      | some bytes =>
        { d with storageLen := newsize, mem := some (newBytes bytes newsize) }.validateAndCopy C
          src d.mem.isSome len
  else d.validateAndCopy C src false len

/-- The end of `appendTo`: `strncat` and its NUL. -/
def appendChars (src : Source) (freed : Bool) (curlen len : Int) : Option DString :=
  if len = 0 then some d else
  match d.mem with
  | none => none
  | some buf =>
    (src.str buf freed).bind fun c =>
      if src.Overlaps (strlen buf) (strlen buf + min (C.toSize len) c.length + 1)
          (min (C.toSize len) (c.length + 1)) then none else
      ((strncat buf c (C.toSize len)).bind (putNul · (curlen + len))).map fun s =>
        { d with mem := some s }

/-- `strcpy( ptr, m_strPtr )`, and the new allocation in the place of the old one. -/
def moveTo (bytes : Nat → Byte) (newsize : Int) : Option DString :=
  (put (newBytes bytes newsize) 0 (cstr d.buf ++ [0#8])).map fun s =>
    { d with storageLen := newsize, mem := some s }

/-- `appendTo`. -/
def appendTo (string : Option Source) (len : Int) (alloc : Alloc) : Option DString :=
  match string with
  | none => some d
  | some string =>
    let src := d.resolve string
    let d := { d with truncated := false }
    let curlen := C.toInt (strlen d.buf)
    let avail := d.maxStrLen - curlen
    if avail < len then
      ((checked C (d.maxStrLen + len)).bind (d.calcMemSize C)).bind fun newsize =>
        match alloc with
        | none => { d with truncated := true }.appendChars C src false curlen avail
        | some bytes =>
          (d.moveTo bytes newsize).bind fun e =>
            e.appendChars C src d.mem.isSome curlen len
    else d.appendChars C src false curlen len

/-- The end of `insertAt`: the bytes are shifted and the string is copied in. -/
def insertChars (src : Source) (freed : Bool)
    (insertOffset insertlen shiftlen : Nat) : Option DString :=
  (shiftRight d.buf insertOffset insertlen shiftlen).bind fun s =>
    (src.bytes s freed insertlen).bind fun bytes =>
      (put s insertOffset bytes).map fun s => { d with mem := some s, truncated := false }

/-- The same without enough room, when the allocation has failed. -/
def insertCut (src : Source) (insertOffset curlen insertlen : Int) :
    Option DString :=
  let avail := d.maxStrLen - insertOffset
  let copylen := min insertlen avail
  let remainderlen := avail - copylen
  let shiftlen := curlen - insertOffset
  let movelen := min shiftlen remainderlen
  (shiftRight d.buf insertOffset.toNat copylen.toNat movelen.toNat).bind fun s =>
    (src.bytes s false copylen.toNat).bind fun bytes =>
      ((put s insertOffset.toNat bytes).bind (putNul · d.maxStrLen)).map fun s =>
        { d with mem := some s, truncated := true }

/-- `insertAt`. -/
def insertAt (insertOffset : Int) (stringToInsert : Option Source) (alloc : Alloc) :
    Option DString :=
  match stringToInsert with
  | none => some d
  | some string =>
    let insertOffset := if insertOffset < 0 then 0 else insertOffset
    let src := d.resolve string
    let curlen := C.toInt (strlen d.buf)
    (src.str d.buf false).bind fun c =>
      let insertlen := C.toInt c.length
      if curlen ≤ insertOffset then d.appendTo C stringToInsert insertlen alloc else
      -- a negative length is a huge `size_t`: the copy leaves the allocation
      if insertlen < 0 then none else
      let shiftlen := (curlen - insertOffset).toNat
      (checked C (curlen + insertlen)).bind fun total =>
        if d.maxStrLen < total then
          (d.calcMemSize C total).bind fun newsize =>
            match alloc with
            | none => d.insertCut src insertOffset curlen insertlen
            | some bytes =>
              (d.moveTo bytes newsize).bind fun e =>
                e.insertChars src true insertOffset.toNat insertlen.toNat shiftlen
        else d.insertChars src false insertOffset.toNat insertlen.toNat shiftlen

/-- The constructor from a string: `m_storageLen` is computed first. -/
def construct (string : Option CStr) (initialSize blockSize : Int) (alloc : Alloc) :
    Option DString :=
  let d : DString := ⟨blockSize, 0, none, false⟩
  let len := match string with
    | none => 1
    | some s => C.toInt s.val.length
  (d.calcMemSize C (max len initialSize)).bind fun size =>
    { d with storageLen := size, mem := alloc.map (newBytes · size) }.validateAndCopy C
      (string.map .ext) false (match string with
        | none => 0
        | some s => C.toInt s.val.length)

/-! ## §2. What a write is to leave. -/

/-- The string is terminated inside its storage, whose size is an `int`. -/
structure WellFormed (d : DString) : Prop where
  size : d.storageLen = d.buf.length
  terminated : 0#8 ∈ d.buf
  storageLen_le : d.storageLen ≤ C.INT_MAX
  blockSize_pos : 1 ≤ d.blockSize

/-- The string at a source, before the call. -/
def value (src : Source) : Option (List Byte) := (d.resolve src).str d.buf false

/-- **What a write that is to leave `r` has to do**: with the allocation it needs (if it
needs one) the string is `r`, otherwise it is `r` cut to the capacity and the flag is
up; the string stays terminated inside its allocation. -/
def Leaves (needs : Prop) (alloc : Alloc) (r : List Byte) (o : Option DString) :
    Prop :=
  ∃ d', o = some d' ∧ WellFormed C d' ∧ d'.blockSize = d.blockSize ∧
    (¬ (needs ∧ alloc = none) → cstr d'.buf = r ∧ (d'.mem.isSome → d'.truncated = false)) ∧
    (needs → alloc = none → cstr d'.buf = r.take d.maxStrLen.toNat ∧ d'.truncated = true)

/-! ## §3. Sizes and sources. -/

variable {C} {d : DString}

theorem checked_of_le {n : Int} (h0 : 0 ≤ n) (h : n ≤ C.INT_MAX) : checked C n = some n :=
  if_pos ⟨by omega, h⟩

/-- **A new size** holds the string, its NUL and less than a block more. -/
theorem calcMemSize_spec (len : Nat) (hblock : 1 ≤ d.blockSize)
    (hfit : len + d.blockSize ≤ C.INT_MAX) :
    ∃ size : Nat, d.calcMemSize C len = some (size : Int) ∧ len < size ∧
      (size : Int) ≤ len + d.blockSize := by
  have hdiv : (len + d.blockSize).tdiv d.blockSize = (len + d.blockSize) / d.blockSize :=
    Int.tdiv_eq_ediv_of_nonneg (by omega)
  have hmul := Int.mul_ediv_add_emod (len + d.blockSize) d.blockSize
  have hmod := Int.emod_lt_of_pos (len + d.blockSize) (show 0 < d.blockSize by omega)
  have hnonneg := Int.emod_nonneg (len + d.blockSize) (show d.blockSize ≠ 0 by omega)
  rw [Int.mul_comm] at hmul
  obtain ⟨size, hsize⟩ :
      ∃ size : Nat, (size : Int) = (len + d.blockSize) / d.blockSize * d.blockSize :=
    ⟨_, Int.toNat_of_nonneg (by omega)⟩
  refine ⟨size, ?_, by omega, by omega⟩
  unfold calcMemSize
  rw [checked_of_le (by omega) hfit, bind_some, if_neg (by omega), hdiv, hsize]

@[simp] theorem length_newBytes (bytes : Nat → Byte) (size : Nat) :
    (newBytes bytes size).length = size := by
  simp [newBytes]

variable {buf c : List Byte} {freed : Bool}

/-- Own bytes that are a string. -/
theorem str_own {p : Nat}
    (h : (Source.own p).str buf freed = some c) : 0#8 ∈ buf.drop p ∧ cstr (buf.drop p) = c := by
  simp only [Source.str] at h
  split at h
  next => cases h
  next hval =>
    rw [not_or, not_not] at hval
    exact ⟨hval.2, some.inj h⟩

theorem str_own_lt {p : Nat}
    (h : (Source.own p).str buf freed = some c) : p + c.length < buf.length := by
  obtain ⟨hnul, hc⟩ := str_own h
  have hlt := strlen_lt hnul
  have hlen : strlen (buf.drop p) = c.length := congrArg length hc
  rw [length_drop] at hlt
  omega

variable {src : Source}

/-- A string read has no NUL. -/
theorem nul_not_mem_str (h : src.str buf freed = some c) : 0#8 ∉ c := by
  cases src with
  | ext s =>
    cases h
    exact s.property
  | own p =>
    rw [← (str_own h).2]
    exact nul_not_mem_cstr _

/-- A buffer of `size` bytes with the string `r`. -/
structure Holds (s : List Byte) (size : Nat) (r : List Byte) : Prop where
  length : s.length = size
  cstr : CString.cstr s = r
  nul : 0#8 ∈ s

/-- **The copy of `validateAndCopy`**, in an allocation with room for it. -/
theorem validateAndCopy_spec (hmem : d.mem = some buf) (hstr : src.str buf freed = some c)
    {len : Nat} (hlen : len < buf.length) (hint : len ≤ C.INT_MAX)
    (hover : ¬ src.Overlaps 0 len (min len (c.length + 1))) :
    ∃ s, d.validateAndCopy C (some src) freed len = some { d with mem := some s } ∧
      Holds s buf.length (c.take len) := by
  obtain ⟨s, hs, hslen, hcstr, hnul⟩ := strncpy_nul buf (nul_not_mem_str hstr) hlen
  refine ⟨s, ?_, ⟨hslen, hcstr, hnul⟩⟩
  unfold validateAndCopy
  rw [hmem]
  simp only
  rw [hstr, bind_some, C.toSize_of_le hint, if_neg hover, hs, map_some]

/-- Without an allocation nothing is copied. -/
theorem validateAndCopy_noMemory (hmem : d.mem = none) {string : Option Source} {len : Int}
    {truncated : Bool} : { d with truncated := truncated }.validateAndCopy C string freed len
      = some ⟨d.blockSize, 1, none, true⟩ := by
  unfold validateAndCopy
  simp [hmem]

/-- **The append of `appendTo`**, in an allocation with room for it. -/
theorem appendChars_spec (len : Nat) (hmem : d.mem = some buf) (hnul : 0#8 ∈ buf)
    (hstr : src.str buf freed = some c) (hlen : strlen buf + len < buf.length)
    (hint : len ≤ C.INT_MAX)
    (hover : len ≠ 0 → ¬ src.Overlaps (strlen buf) (strlen buf + min len c.length + 1)
      (min len (c.length + 1))) :
    ∃ s, d.appendChars C src freed (strlen buf) len = some { d with mem := some s } ∧
      Holds s buf.length (cstr buf ++ c.take len) := by
  unfold appendChars
  by_cases hzero : len = 0
  · refine ⟨buf, ?_, ⟨rfl, by rw [hzero, take_zero, append_nil], hnul⟩⟩
    rw [if_pos (by omega), ← hmem]
  · obtain ⟨s, hs, hslen, hcstr, hmem'⟩ := strncat_nul hnul (nul_not_mem_str hstr) hlen
    refine ⟨s, ?_, ⟨hslen, hcstr, hmem'⟩⟩
    rw [if_neg (by omega), hmem]
    simp only
    rw [hstr, bind_some, C.toSize_of_le hint, if_neg (hover hzero), ← Int.natCast_add, hs,
        map_some]

/-- **The string moved to a larger allocation.** -/
theorem moveTo_spec (bytes : Nat → Byte) {size : Nat} (hsize : strlen d.buf < size) :
    ∃ s, d.moveTo bytes size = some { d with storageLen := size, mem := some s } ∧
      Holds s size (cstr d.buf) := by
  obtain ⟨s, hs, hslen, hcstr, hnul⟩ := strcpy_spec (newBytes bytes size) (nul_not_mem_cstr d.buf)
    (by rw [length_newBytes]; exact hsize)
  rw [length_newBytes] at hslen
  refine ⟨s, ?_, ⟨hslen, hcstr, hnul⟩⟩
  unfold moveTo
  rw [hs, map_some]

/-- The source of a write that neither frees nor overwrites what it reads: a string of
the caller's, or own bytes in a write without a new allocation. -/
inductive Reads (d : DString) (src : Source) (grows : Prop) (c : List Byte) : Prop where
  | ext (s : CStr) (hsrc : d.resolve src = .ext s) (hc : c = s.val)
  | own (p : Nat) (buf : List Byte) (hsrc : d.resolve src = .own p) (hmem : d.mem = some buf)
      (hstr : (Source.own p).str buf false = some c) (hkeep : ¬ grows)

variable {grows : Prop}

/-- Such a source can be read after the allocation, if there was one. -/
theorem Reads.str (h : Reads d src grows c) (hbuf : ¬ grows → d.mem = some buf ∧ freed = false) :
    (d.resolve src).str buf freed = some c := by
  cases h with
  | ext s hsrc hc => rw [hsrc, hc]; rfl
  | own p buf' hsrc hmem hstr hkeep =>
    obtain ⟨hmem', rfl⟩ := hbuf hkeep
    obtain rfl : buf' = buf := some.inj (hmem.symm.trans hmem')
    rw [hsrc, hstr]

/-- Own bytes that are read are not written. -/
theorem not_overlaps {lo hi n : Nat} (h : ∀ p, src = .own p → p + n ≤ lo ∨ hi ≤ p) :
    ¬ src.Overlaps lo hi n := by
  cases src with
  | ext s => exact id
  | own p =>
    rintro ⟨hlt, hgt⟩
    have := h p rfl
    omega

variable {s : List Byte}

/-- The bytes of such a source in a buffer `s` that still holds them. -/
theorem Reads.bytes (h : Reads d src grows c) (freed : Bool) {n : Nat} (hn : n ≤ c.length)
    (hbuf : ∀ buf, ¬ grows → d.mem = some buf → freed = false ∧ s.length = buf.length
      ∧ ∀ p, d.resolve src = .own p → ∀ i, p ≤ i → i < p + n → s[i]? = buf[i]?) :
    (d.resolve src).bytes s freed n = some (c.take n) := by
  cases h with
  | ext t hsrc hc =>
    rw [hsrc, hc]
    exact if_pos (by rw [← hc]; exact hn)
  | own p buf hsrc hmem hstr hkeep =>
    obtain ⟨rfl, hlen, hsame⟩ := hbuf buf hkeep hmem
    have hlt := str_own_lt hstr
    obtain ⟨hnul, rfl⟩ := str_own hstr
    have hslice : slice s p n = slice buf p n :=
      slice_congr fun i hi => hsame p hsrc _ (by omega) (by omega)
    rw [hsrc]
    simp only [Source.bytes]
    rw [if_neg (by simp only [Bool.false_eq_true, false_or]; omega), hslice,
        slice_eq_take_cstr hnul hn]

/-- The value before the call is the string that is read. -/
theorem reads_of_value (hv : d.value src = some c)
    (hown : ∀ p, d.resolve src = .own p → ¬ grows) : Reads d src grows c := by
  cases hsrc : d.resolve src with
  | ext s =>
    unfold value at hv
    rw [hsrc] at hv
    exact .ext s hsrc (some.inj hv).symm
  | own p =>
    cases hmem : d.mem with
    | none =>
      -- without an allocation no source is one of the own bytes
      unfold resolve at hsrc
      rw [hmem] at hsrc
      cases src <;> cases hsrc
    | some buf =>
      refine .own p buf hsrc hmem ?_ (hown p hsrc)
      unfold value DString.buf at hv
      rw [hsrc, hmem] at hv
      exact hv

/-! ## §4. `copyIn`. -/

theorem buf_of_mem (hmem : d.mem = some buf) : d.buf = buf := by
  unfold DString.buf
  rw [hmem, getD_some]

/-- A write that had the room it needed. -/
theorem leaves_written {needs : Prop} {alloc : Alloc} {r : List Byte} {o : Option DString}
    {size : Nat} (ho : o = some ⟨d.blockSize, size, some s, false⟩) (hs : Holds s size r)
    (hle : size ≤ C.INT_MAX) (hblock : 1 ≤ d.blockSize) (hnot : ¬ (needs ∧ alloc = none)) :
    Leaves C d needs alloc r o :=
  ⟨_, ho, ⟨congrArg Nat.cast hs.length.symm, hs.nul, by simpa using hle, hblock⟩, rfl,
    fun _ => ⟨hs.cstr, fun _ => rfl⟩, fun hneeds hnone => absurd ⟨hneeds, hnone⟩ hnot⟩

section WellFormed

variable (hd : WellFormed C d)

include hd

/-- The capacity of the storage. -/
theorem WellFormed.capacity : ∃ cap : Nat, d.maxStrLen = cap ∧ d.storageLen = (cap + 1 : Nat) ∧
    d.buf.length = cap + 1 ∧ cap + 1 ≤ C.INT_MAX ∧ strlen d.buf ≤ cap := by
  have hlt := strlen_lt hd.terminated
  have hsize := hd.size
  have hle := hd.storageLen_le
  exact ⟨d.buf.length - 1, by unfold maxStrLen; omega, by omega, by omega, by omega, by omega⟩

/-- Without an allocation the string is empty and there is no room. -/
theorem WellFormed.noMemory (hmem : d.mem = none) : d.buf = noMemory_ ∧ d.storageLen = 1 := by
  have hbuf : d.buf = noMemory_ := by
    unfold DString.buf
    rw [hmem, getD_none]
  refine ⟨hbuf, ?_⟩
  rw [hd.size, hbuf]
  rfl

variable {alloc : Alloc}

/-- A write that leaves the string without an allocation. -/
theorem WellFormed.leaves_empty (hmem : d.mem = none) {needs : Prop} {r : List Byte}
    {o : Option DString} (truncated : Bool) (ho : o = some ⟨d.blockSize, 1, none, truncated⟩)
    (hr : ¬ (needs ∧ alloc = none) → r = []) (htrunc : needs → alloc = none → truncated = true) :
    Leaves C d needs alloc r o := by
  obtain ⟨-, hlen⟩ := hd.noMemory hmem
  have hle := hd.storageLen_le
  have hwf : WellFormed C ⟨d.blockSize, 1, none, truncated⟩ :=
    ⟨rfl, mem_singleton.mpr rfl, by simp only; omega, hd.blockSize_pos⟩
  refine ⟨_, ho, hwf, rfl, fun hnot => ⟨(hr hnot).symm, fun h => nomatch h⟩,
    fun hneeds hnone => ⟨?_, htrunc hneeds hnone⟩⟩
  have hcap : d.maxStrLen.toNat = 0 := by
    unfold maxStrLen
    rw [hlen]
    rfl
  rw [hcap]
  rfl

/-- A write in the allocation that there was, with room for it. -/
theorem WellFormed.leaves_kept (hmem : d.mem = some buf) {needs : Prop} {r : List Byte}
    {o : Option DString} (ho : o = some ⟨d.blockSize, d.storageLen, some s, false⟩)
    (hs : Holds s buf.length r) (hnot : ¬ (needs ∧ alloc = none)) : Leaves C d needs alloc r o := by
  have hsize := hd.size
  have hle := hd.storageLen_le
  rw [buf_of_mem hmem] at hsize
  rw [hsize] at ho hle
  exact leaves_written ho hs (by exact_mod_cast hle) hd.blockSize_pos hnot

/-- A write that was cut. -/
theorem WellFormed.leaves_cut (hmem : d.mem = some buf) {needs : Prop} {r : List Byte}
    {o : Option DString} (ho : o = some ⟨d.blockSize, d.storageLen, some s, true⟩)
    (hs : Holds s buf.length (r.take d.maxStrLen.toNat)) (hneeds : needs) :
    Leaves C d needs none r o := by
  have hsize := hd.size
  rw [buf_of_mem hmem, ← hs.length] at hsize
  exact ⟨_, ho, ⟨hsize, hs.nul, hd.storageLen_le, hd.blockSize_pos⟩, rfl,
    fun hnot => absurd ⟨hneeds, rfl⟩ hnot, fun _ _ => ⟨hs.cstr, rfl⟩⟩

omit hd in
theorem copyIn_eq (src : Source) (len : Int) (alloc : Alloc) :
    d.copyIn C (some src) len alloc =
      if d.maxStrLen < len then
        (d.calcMemSize C len).bind fun newsize =>
          match alloc with
          | none => { d with truncated := true }.validateAndCopy C (some (d.resolve src)) false
              d.maxStrLen
          | some bytes =>
            (⟨d.blockSize, newsize, some (newBytes bytes newsize), false⟩ :
              DString).validateAndCopy C (some (d.resolve src)) d.mem.isSome len
      else { d with truncated := false }.validateAndCopy C (some (d.resolve src)) false len := rfl

variable {v : List Byte}

/-- **`copyIn`.** -/
theorem copyIn_spec (hv : d.value src = some v) {n : Nat}
    (hfit : d.maxStrLen < n → n + d.blockSize ≤ C.INT_MAX)
    (hown : ∀ p, d.resolve src = .own p → ¬ (d.maxStrLen < n ∧ alloc.isSome)
      ∧ min n d.maxStrLen.toNat ≤ p) :
    Leaves C d (d.maxStrLen < n) alloc (v.take n) (d.copyIn C (some src) n alloc) := by
  have hreads := reads_of_value hv fun p hp => (hown p hp).1
  have hblock := hd.blockSize_pos
  obtain ⟨cap, hcap, hstorage, hlen, hle, -⟩ := hd.capacity
  rw [copyIn_eq]
  by_cases hneeds : d.maxStrLen < n
  · obtain ⟨size, hcalc, hnlt, hsle⟩ := calcMemSize_spec n hblock (hfit hneeds)
    rw [if_pos hneeds, hcalc]
    cases alloc with
    | none =>
      rcases eq_none_or_eq_some d.mem with hmem | ⟨buf, hmem⟩
      · refine hd.leaves_empty hmem true (validateAndCopy_noMemory hmem)
          (fun hnot => absurd ⟨hneeds, rfl⟩ hnot) (fun _ _ => rfl)
      · -- as much as there is room for
        rw [buf_of_mem hmem] at hlen
        obtain ⟨s, hs, hholds⟩ := validateAndCopy_spec (d := { d with truncated := true }) (C := C)
          hmem (hreads.str fun _ => ⟨hmem, rfl⟩) (show cap < buf.length by omega) (by omega)
          (not_overlaps fun p hp => .inr (by have := (hown p hp).2; omega))
        rw [← hcap] at hs
        have hcut : v.take cap = (v.take n).take d.maxStrLen.toNat := by
          rw [take_take, Nat.min_eq_left (by omega), hcap, Int.toNat_natCast]
        exact hd.leaves_cut hmem hs (hcut ▸ hholds) hneeds
    | some bytes =>
      obtain ⟨s, hs, hholds⟩ := validateAndCopy_spec (C := C)
        (d := ⟨d.blockSize, size, some (newBytes bytes size), false⟩) rfl
        (hreads.str fun hno => absurd ⟨hneeds, rfl⟩ hno)
        (show n < (newBytes bytes size).length by rw [length_newBytes]; exact hnlt) (by omega)
        (not_overlaps fun p hp => absurd ⟨hneeds, rfl⟩ (hown p hp).1)
      rw [length_newBytes] at hholds
      exact leaves_written hs hholds (by omega) hblock (fun h => nomatch h.2)
  · rw [if_neg hneeds]
    have hnot : ¬ (d.maxStrLen < n ∧ alloc = none) := fun h => hneeds h.1
    rcases eq_none_or_eq_some d.mem with hmem | ⟨buf, hmem⟩
    · have hzero : n = 0 := by
        have := (hd.noMemory hmem).2
        omega
      exact hd.leaves_empty hmem true (validateAndCopy_noMemory hmem)
        (fun _ => by rw [hzero, take_zero]) (fun _ _ => rfl)
    · rw [buf_of_mem hmem] at hlen
      obtain ⟨s, hs, hholds⟩ := validateAndCopy_spec (d := { d with truncated := false }) (C := C)
        hmem (hreads.str fun _ => ⟨hmem, rfl⟩) (show n < buf.length by omega) (by omega)
        (not_overlaps fun p hp => .inr (by have := (hown p hp).2; omega))
      exact hd.leaves_kept hmem hs hholds hnot

/-! ## §5. `appendTo`. -/

omit hd in
theorem appendTo_eq (src : Source) (len : Int) (alloc : Alloc) :
    d.appendTo C (some src) len alloc =
      if d.maxStrLen - C.toInt (strlen d.buf) < len then
        ((checked C (d.maxStrLen + len)).bind (d.calcMemSize C)).bind fun newsize =>
          match alloc with
          | none => { d with truncated := true }.appendChars C (d.resolve src) false
              (C.toInt (strlen d.buf)) (d.maxStrLen - C.toInt (strlen d.buf))
          | some bytes =>
            ({ d with truncated := false }.moveTo bytes newsize).bind fun e =>
              e.appendChars C (d.resolve src) d.mem.isSome (C.toInt (strlen d.buf)) len
      else { d with truncated := false }.appendChars C (d.resolve src) false
        (C.toInt (strlen d.buf)) len := rfl

omit hd in
/-- Nothing is appended. -/
theorem appendChars_zero (src : Source) (freed : Bool) (curlen : Int) :
    d.appendChars C src freed curlen 0 = some d := if_pos rfl

/-- **`appendTo`.** -/
theorem appendTo_spec (hv : d.value src = some v) {n : Nat}
    (hfit : d.maxStrLen < strlen d.buf + n → d.maxStrLen + n + d.blockSize ≤ C.INT_MAX)
    (hown : ∀ p, d.resolve src = .own p → ¬ (d.maxStrLen < strlen d.buf + n ∧ alloc.isSome)
      ∧ ∀ len, len = min n (d.maxStrLen.toNat - strlen d.buf) → len = 0
      ∨ p + min len (v.length + 1) ≤ strlen d.buf ∨ strlen d.buf + min len v.length + 1 ≤ p) :
    Leaves C d (d.maxStrLen < strlen d.buf + n) alloc (cstr d.buf ++ v.take n)
      (d.appendTo C (some src) n alloc) := by
  have hreads := reads_of_value hv fun p hp => (hown p hp).1
  have hblock := hd.blockSize_pos
  obtain ⟨cap, hcap, hstorage, hlen, hle, hcur⟩ := hd.capacity
  have hover : ∀ len, len = min n (d.maxStrLen.toNat - strlen d.buf) → len ≠ 0 →
      ¬ (d.resolve src).Overlaps (strlen d.buf) (strlen d.buf + min len v.length + 1)
        (min len (v.length + 1)) :=
    fun len hlen hne => not_overlaps fun p hp => ((hown p hp).2 len hlen).resolve_left hne
  rw [appendTo_eq, C.toInt_of_le (show strlen d.buf ≤ C.INT_MAX by omega)]
  by_cases hneeds : d.maxStrLen < strlen d.buf + n
  · obtain ⟨size, hcalc, hnlt, hsle⟩ := calcMemSize_spec (C := C) (cap + n) hblock (by omega)
    rw [Int.natCast_add] at hcalc
    rw [if_pos (by omega), hcap, checked_of_le (by omega) (by omega), bind_some, hcalc,
        bind_some]
    cases alloc with
    | none =>
      rcases eq_none_or_eq_some d.mem with hmem | ⟨buf, hmem⟩
      · obtain ⟨hbuf, hone⟩ := hd.noMemory hmem
        refine hd.leaves_empty hmem true ?_
          (fun hnot => absurd ⟨hcap ▸ hneeds, rfl⟩ hnot) (fun _ _ => rfl)
        have hnone : (cap : Int) - (strlen d.buf : Int) = 0 := by omega
        simp only [hnone, appendChars_zero, hmem, hone]
      · -- as much as there is room for
        have hbuf := buf_of_mem hmem
        rw [hbuf] at hlen hover hneeds hcur ⊢
        obtain ⟨s, hs, hholds⟩ := appendChars_spec (d := { d with truncated := true }) (C := C)
          (cap - strlen buf) hmem (hbuf ▸ hd.terminated) (hreads.str fun _ => ⟨hmem, rfl⟩)
          (by omega) (by omega) (hover _ (by omega))
        rw [Int.ofNat_sub hcur] at hs
        have hcut : cstr buf ++ v.take (cap - strlen buf)
            = (cstr buf ++ v.take n).take d.maxStrLen.toNat := by
          rw [hcap, Int.toNat_natCast, take_append, take_of_length_le hcur, take_take,
              Nat.min_eq_left (show cap - (cstr buf).length ≤ n by unfold strlen at *; omega)]
          rfl
        exact hd.leaves_cut hmem hs (hcut ▸ hholds) (hcap ▸ hneeds)
    | some bytes =>
      obtain ⟨t, ht, htholds⟩ := moveTo_spec (d := { d with truncated := false })
        bytes (show strlen d.buf < size by omega)
      have htstr : strlen t = strlen d.buf := congrArg length htholds.cstr
      obtain ⟨s, hs, hholds⟩ := appendChars_spec (C := C)
        (d := ⟨d.blockSize, size, some t, false⟩) n rfl htholds.nul
        (hreads.str fun hno => absurd ⟨hneeds, rfl⟩ hno)
        (by rw [htholds.length]; omega) (by omega)
        (fun _ => not_overlaps fun p hp => absurd ⟨hneeds, rfl⟩ (hown p hp).1)
      rw [htstr] at hs
      rw [htholds.length, htholds.cstr] at hholds
      refine leaves_written ?_ hholds (by omega) hblock (fun h => nomatch h.2)
      simp only [ht]
      exact hs
  · rw [if_neg (by omega)]
    have hnot : ¬ (d.maxStrLen < strlen d.buf + n ∧ alloc = none) := fun h => hneeds h.1
    rcases eq_none_or_eq_some d.mem with hmem | ⟨buf, hmem⟩
    · obtain ⟨hbuf, hone⟩ := hd.noMemory hmem
      have hzero : n = 0 := by omega
      refine hd.leaves_empty hmem false ?_
        (fun _ => by rw [hzero, hbuf]; rfl) (fun h _ => absurd h hneeds)
      rw [hzero]
      exact (appendChars_zero _ _ _).trans (by rw [hmem, hone])
    · have hbuf := buf_of_mem hmem
      rw [hbuf] at hlen hover hneeds hcur hnot ⊢
      obtain ⟨s, hs, hholds⟩ := appendChars_spec (d := { d with truncated := false }) (C := C) n hmem
        (hbuf ▸ hd.terminated) (hreads.str fun _ => ⟨hmem, rfl⟩) (by omega) (by omega)
        (hover n (by omega))
      exact hd.leaves_kept hmem hs hholds hnot

/-! ## §6. `insertAt`. -/

omit hd in
/-- **The end of `insertAt`**, in an allocation with room for it. -/
theorem insertChars_spec {buf : List Byte} (src : Source) (freed : Bool) (hmem : d.mem = some buf)
    (hnul : 0#8 ∈ buf) (hv : 0#8 ∉ v) {k : Nat} (hk : k < strlen buf)
    (hfit : strlen buf + v.length < buf.length)
    (hread : ∀ s : List Byte, s.length = buf.length → (∀ i, i < k + v.length → s[i]? = buf[i]?)
      → (∀ i, strlen buf + v.length < i → s[i]? = buf[i]?) → src.bytes s freed v.length = some v) :
    ∃ s, d.insertChars src freed k v.length (strlen buf - k)
        = some ⟨d.blockSize, d.storageLen, some s, false⟩ ∧
      Holds s buf.length ((cstr buf).take k ++ (v ++ (cstr buf).drop k)) := by
  obtain ⟨t, s, ht, hs, hleft, hright, htlen, hslen, hcstr, hnul'⟩ := insert_whole hnul hv hk hfit
  refine ⟨s, ?_, ⟨hslen, hcstr, hnul'⟩⟩
  unfold insertChars
  rw [buf_of_mem hmem, ht, bind_some, hread t htlen hleft hright, bind_some, hs,
      map_some]

omit hd in
/-- **The same when the allocation has failed.** -/
theorem insertCut_spec {buf : List Byte} (src : Source) (hmem : d.mem = some buf)
    (hnul : 0#8 ∈ buf) (hv : 0#8 ∉ v) {k cap : Nat} (hk : k < strlen buf)
    (hcap : d.maxStrLen = cap) (hcur : strlen buf ≤ cap) (hlen : cap < buf.length)
    (hread : ∀ (s : List Byte) (n : Nat), n ≤ v.length → s.length = buf.length
      → (∀ i, i < k + n → s[i]? = buf[i]?) → src.bytes s false n = some (v.take n)) :
    ∃ s, d.insertCut src k (strlen buf) v.length
        = some ⟨d.blockSize, d.storageLen, some s, true⟩ ∧
      Holds s buf.length (((cstr buf).take k ++ (v ++ (cstr buf).drop k)).take cap) := by
  obtain ⟨copylen, hcopy⟩ : ∃ n, n = min v.length (cap - k) := ⟨_, rfl⟩
  obtain ⟨movelen, hmove⟩ : ∃ n, n = min (strlen buf - k) (cap - k - copylen) := ⟨_, rfl⟩
  have hcopyInt : min (v.length : Int) (cap - k) = copylen := by omega
  have hmoveInt : min ((strlen buf : Int) - k) (cap - k - copylen) = movelen := by omega
  obtain ⟨t, s, hrun, ht, hleft, -, htlen, hslen, hcstr, hnul'⟩ :=
    insert_cut hnul hv hk hcur hlen hcopy hmove
  refine ⟨s, ?_, ⟨hslen, hcstr, hnul'⟩⟩
  rw [ht, bind_some] at hrun
  unfold insertCut
  simp only
  rw [hcap, hcopyInt, hmoveInt, buf_of_mem hmem]
  simp only [Int.toNat_natCast]
  rw [ht, bind_some, hread t copylen (by omega) htlen hleft, bind_some, hrun,
      map_some]

/-- **`insertAt`** inside the string. -/
theorem insertAt_spec_inside (hv : d.value src = some v) {k : Int} (hk : k.toNat < strlen d.buf)
    (hint : v.length ≤ C.INT_MAX)
    (hfit : d.maxStrLen < strlen d.buf + v.length → d.maxStrLen + v.length + d.blockSize
      ≤ C.INT_MAX)
    (hown : ∀ p, d.resolve src = .own p → ¬ (d.maxStrLen < strlen d.buf + v.length ∧ alloc.isSome)
      ∧ (p ≤ k.toNat ∨ strlen d.buf + v.length < p)) :
    Leaves C d (d.maxStrLen < strlen d.buf + v.length) alloc
      ((cstr d.buf).take k.toNat ++ (v ++ (cstr d.buf).drop k.toNat))
      (d.insertAt C k (some src) alloc) := by
  have hreads := reads_of_value hv fun p hp => (hown p hp).1
  have hfree : 0#8 ∉ v := nul_not_mem_str hv
  have hblock := hd.blockSize_pos
  obtain ⟨cap, hcap, -, hlen, hle, hcur⟩ := hd.capacity
  have hoff : (if k < 0 then 0 else k) = (k.toNat : Int) := by split <;> omega
  unfold value at hv
  unfold insertAt
  simp only
  rw [hoff, C.toInt_of_le (show strlen d.buf ≤ C.INT_MAX by omega), hv, bind_some,
      C.toInt_of_le hint, if_neg (by omega)]
  have hshift : ((strlen d.buf : Int) - k.toNat).toNat = strlen d.buf - k.toNat := by omega
  -- there is an allocation: the string is not empty
  obtain ⟨buf, hmem⟩ : ∃ buf, d.mem = some buf := by
    rcases eq_none_or_eq_some d.mem with hnone | hsome
    · rw [(hd.noMemory hnone).1] at hk
      exact absurd hk (Nat.not_lt_zero _)
    · exact hsome
  have hbuf := buf_of_mem hmem
  have hnul := hd.terminated
  rw [hshift]
  rw [hbuf] at hlen hnul hk hown hreads hfit hcur ⊢
  by_cases hneeds : d.maxStrLen < strlen buf + v.length
  · obtain ⟨size, hcalc, hnlt, hsle⟩ :=
      calcMemSize_spec (C := C) (strlen buf + v.length) hblock (by omega)
    rw [checked_of_le (by omega) (by omega), bind_some, if_pos hneeds, ← Int.natCast_add,
        hcalc, bind_some]
    cases alloc with
    | none =>
      obtain ⟨s, hs, hholds⟩ := insertCut_spec (d.resolve src) hmem hnul
        hfree hk hcap hcur (by omega) (fun s n hn hslen hsame =>
          hreads.bytes false hn fun buf' _ hmem' => by
            obtain rfl : buf = buf' := some.inj (hmem.symm.trans hmem')
            refine ⟨rfl, hslen, fun p hp i hpi hi => hsame i ?_⟩
            have hstr := hv
            rw [hp, hbuf] at hstr
            have hin := str_own_lt hstr
            have := (hown p hp).2
            omega)
      exact hd.leaves_cut hmem hs (by rw [hcap]; exact hholds) hneeds
    | some bytes =>
      obtain ⟨t, ht, htholds⟩ := moveTo_spec (d := d) bytes
        (show strlen d.buf < size by rw [hbuf]; omega)
      rw [hbuf] at htholds
      have htstr : strlen t = strlen buf := congrArg length htholds.cstr
      obtain ⟨s, hs, hholds⟩ := insertChars_spec
        (d := { d with storageLen := size, mem := some t }) (d.resolve src) true rfl htholds.nul
        hfree (htstr ▸ hk) (by rw [htstr, htholds.length]; exact hnlt) (fun s _ _ _ => by
          have hall := hreads.bytes (s := s) true (Nat.le_refl v.length)
            fun _ hno => absurd ⟨hneeds, rfl⟩ hno
          rw [hall, take_length])
      rw [htstr] at hs
      rw [htholds.length, htholds.cstr] at hholds
      refine leaves_written ?_ hholds (by omega) hblock (fun h => nomatch h.2)
      simp only [ht]
      exact hs
  · rw [checked_of_le (by omega) (by omega), bind_some, if_neg hneeds]
    obtain ⟨s, hs, hholds⟩ := insertChars_spec (d.resolve src) false
      hmem hnul hfree hk (by omega) (fun s hslen hleft hright => by
        have hall := hreads.bytes false (Nat.le_refl v.length)
          fun buf' _ hmem' => by
            obtain rfl : buf = buf' := some.inj (hmem.symm.trans hmem')
            refine ⟨rfl, hslen, fun p hp i hpi hi => ?_⟩
            rcases (hown p hp).2 with hbefore | hbehind
            · exact hleft i (by omega)
            · exact hright i (by omega)
        rw [hall, take_length])
    exact hd.leaves_kept hmem hs hholds (fun h => hneeds h.1)

end WellFormed

/-! ## §7. Runs. -/

/-- The writes. -/
inductive Op where
  | copyIn (src : Source) (n : Nat)
  | appendTo (src : Source) (n : Nat)
  | insertAt (k : Int) (src : Source)
  | assign (src : Source)
  | appendAssign (src : Source)

variable (C) in
/-- A write of the code, and what the allocation gives if there is one. -/
def step (d : DString) (a : Op × Alloc) : Option DString :=
  match a.1 with
  | .copyIn src n => d.copyIn C (some src) n a.2
  | .appendTo src n => d.appendTo C (some src) n a.2
  | .insertAt k src => d.insertAt C k (some src) a.2
  | .assign src => (d.value src).bind fun c => d.copyIn C (some src) (C.toInt c.length) a.2
  | .appendAssign src => (d.value src).bind fun c => d.appendTo C (some src) (C.toInt c.length) a.2

namespace Op

/-- The source of a write. -/
def source : Op → Source
  | .copyIn src _ | .appendTo src _ | .insertAt _ src | .assign src | .appendAssign src => src

/-- The number of bytes asked for, with the string `v` at the source. -/
def length (v : List Byte) : Op → Nat
  | .copyIn _ n | .appendTo _ n => n
  | .insertAt _ _ | .assign _ | .appendAssign _ => v.length

/-- The length of the string at the source is an `int` where it is used as one. -/
def Fits (C : CTypes) (v : List Byte) : Op → Prop
  | .copyIn _ _ | .appendTo _ _ => True
  | .insertAt _ _ | .assign _ | .appendAssign _ => v.length ≤ C.INT_MAX

/-- **The string after a write** to the string `c`. -/
def result (c v : List Byte) : Op → List Byte
  | .copyIn _ n => v.take n
  | .appendTo _ n => c ++ v.take n
  | .insertAt k _ => c.take (FString.Op.clamp k c) ++ (v ++ c.drop (FString.Op.clamp k c))
  | .assign _ => v
  | .appendAssign _ => c ++ v

/-- The write needs more room than there is. -/
def Needs (d : DString) (v : List Byte) (op : Op) : Prop :=
  match op with
  | .copyIn _ _ | .assign _ => d.maxStrLen < op.length v
  | .appendTo _ _ | .insertAt _ _ | .appendAssign _ =>
    d.maxStrLen < strlen d.buf + op.length v

/-- The bytes that `n` bytes of an append read, `v` at `p`, are not those it writes. -/
def AppendApart (d : DString) (v : List Byte) (p n : Nat) : Prop :=
  let len := min n (d.maxStrLen.toNat - strlen d.buf)
  len = 0 ∨ p + min len (v.length + 1) ≤ strlen d.buf ∨ strlen d.buf + min len v.length + 1 ≤ p

/-- **The own bytes at `p` can be the source**: what is written before they have been read
does not touch them. -/
def Apart (d : DString) (v : List Byte) (p : Nat) (op : Op) : Prop :=
  match op with
  | .copyIn _ _ | .assign _ => min (op.length v) d.maxStrLen.toNat ≤ p
  | .appendTo _ _ | .appendAssign _ => AppendApart d v p (op.length v)
  | .insertAt k _ =>
    if strlen d.buf ≤ k.toNat then AppendApart d v p v.length
    else p ≤ k.toNat ∨ strlen d.buf + v.length < p

end Op

variable (C) in
/-- **A write leaves what it should**, computed from the values before it. -/
def Right (d : DString) (a : Op × Alloc) : Prop :=
  ∃ v, d.value a.1.source = some v ∧
    Leaves C d (a.1.Needs d v) a.2 (a.1.result (cstr d.buf) v) (d.step C a)

variable (C) in
/-- The source is a string; the sizes are `int`s; and own bytes are a source only where
the buffer is not replaced and they are not overwritten first. -/
def Meets (d : DString) (a : Op × Alloc) : Prop :=
  ∃ v, d.value a.1.source = some v ∧ a.1.Fits C v ∧
    (a.1.Needs d v → d.maxStrLen + a.1.length v + d.blockSize ≤ C.INT_MAX) ∧
    ∀ p, d.resolve a.1.source = .own p → ¬ (a.1.Needs d v ∧ a.2.isSome) ∧ a.1.Apart d v p

/-- An insertion behind the end is an append. -/
theorem insertAt_behind (hd : WellFormed C d) {v : List Byte} (hv : d.value src = some v)
    {k : Int} (hend : strlen d.buf ≤ k.toNat) (hint : v.length ≤ C.INT_MAX) (alloc : Alloc) :
    d.insertAt C k (some src) alloc = d.appendTo C (some src) v.length alloc := by
  obtain ⟨cap, -, -, -, hle, hcur⟩ := hd.capacity
  have hoff : (if k < 0 then 0 else k) = (k.toNat : Int) := by split <;> omega
  unfold value at hv
  unfold insertAt
  simp only
  rw [C.toInt_of_le (show strlen d.buf ≤ C.INT_MAX by omega), hv, bind_some,
      C.toInt_of_le hint, if_pos (by omega)]

/-- **One write.** -/
theorem right_of_meets (hd : WellFormed C d) (a : Op × Alloc) (h : Meets C d a) : Right C d a := by
  obtain ⟨v, hv, hint, hfit, hown⟩ := h
  obtain ⟨op, alloc⟩ := a
  obtain ⟨cap, hcap, -⟩ := hd.capacity
  refine ⟨v, hv, ?_⟩
  cases op with
  | copyIn src n =>
    exact copyIn_spec hd hv (fun h => by have := hfit h; omega) hown
  | appendTo src n =>
    exact appendTo_spec hd hv hfit fun p hp => ⟨(hown p hp).1, fun _ hlen => hlen ▸ (hown p hp).2⟩
  | insertAt k src =>
    simp only [Op.source, Op.length, Op.Needs, Op.Apart, Op.result, step] at hv hfit hown ⊢
    by_cases hend : strlen d.buf ≤ k.toNat
    · have hclamp : FString.Op.clamp k (cstr d.buf) = (cstr d.buf).length := Nat.min_eq_right hend
      rw [insertAt_behind hd hv hend hint alloc, hclamp, take_length, drop_length,
          append_nil]
      have happ := appendTo_spec hd hv hfit fun p hp => ⟨(hown p hp).1, fun _ hlen => by
        have hapart := (hown p hp).2
        rw [if_pos hend] at hapart
        exact hlen ▸ hapart⟩
      rw [take_length] at happ
      exact happ
    · have hlt : k.toNat < strlen d.buf := Nat.lt_of_not_le hend
      have hclamp : FString.Op.clamp k (cstr d.buf) = k.toNat := Nat.min_eq_left hlt.le
      rw [hclamp]
      refine insertAt_spec_inside hd hv hlt hint hfit fun p hp => ⟨(hown p hp).1, ?_⟩
      have hapart := (hown p hp).2
      rw [if_neg hend] at hapart
      exact hapart
  | assign src =>
    simp only [Op.source, Op.length, Op.Needs, step] at hv hfit hown ⊢
    have hcopy := copyIn_spec hd hv (fun h => by have := hfit h; omega) hown
    rw [take_length] at hcopy
    rw [hv, bind_some, C.toInt_of_le hint]
    exact hcopy
  | appendAssign src =>
    simp only [Op.source, Op.length, Op.Needs, step] at hv hfit hown ⊢
    have happ := appendTo_spec hd hv hfit fun p hp =>
      ⟨(hown p hp).1, fun _ hlen => hlen ▸ (hown p hp).2⟩
    rw [take_length] at happ
    rw [hv, bind_some, C.toInt_of_le hint]
    exact happ

/-- **Every write of a run is right**, if all meet the condition. -/
theorem grows_of_meets (hd : WellFormed C d) (acts : List (Op × Alloc))
    (h : Along (step C) (Meets C) d acts) :
    Along (step C) (Right C) d acts := by
  refine along_imp (WellFormed C) (fun d a _ hd => right_of_meets hd a) ?_ hd h
  intro d a d' _ hd hmeets hstep
  obtain ⟨-, -, d₁, hstep₁, hwf, -⟩ := right_of_meets hd a hmeets
  obtain rfl : d' = d₁ := some.inj (hstep.symm.trans hstep₁)
  exact hwf

/-- **A constructed string**, and every run of it. -/
theorem construct_grows (C : CTypes) (string : CStr) (initialSize blockSize : Int) (alloc : Alloc)
    (acts : List (Op × Alloc)) (hblock : 1 ≤ blockSize) (hint : string.val.length ≤ C.INT_MAX)
    (hfit : max (string.val.length : Int) initialSize + blockSize ≤ C.INT_MAX) :
    ∃ d, construct C (some string) initialSize blockSize alloc = some d ∧ WellFormed C d ∧
      (alloc ≠ none → cstr d.buf = string.val ∧ d.truncated = false) ∧
      (alloc = none → cstr d.buf = [] ∧ d.truncated = true) ∧
      (Along (step C) (Meets C) d acts →
        Along (step C) (Right C) d acts) := by
  obtain ⟨len, hlen⟩ : ∃ len : Nat, (len : Int) = max (string.val.length : Int) initialSize :=
    ⟨_, Int.toNat_of_nonneg (by omega)⟩
  obtain ⟨size, hcalc, hlt, hle⟩ :=
    calcMemSize_spec (d := ⟨blockSize, 0, none, false⟩) (C := C) len hblock (by
      simp only
      omega)
  simp only at hle
  unfold construct
  simp only [map_some]
  rw [C.toInt_of_le hint, ← hlen, hcalc]
  cases alloc with
  | none =>
    have hwf : WellFormed C ⟨blockSize, 1, none, true⟩ :=
      ⟨rfl, mem_singleton.mpr rfl, by simp only; omega, hblock⟩
    exact ⟨_, rfl, hwf, fun h => absurd rfl h, fun _ => ⟨rfl, rfl⟩, grows_of_meets hwf acts⟩
  | some bytes =>
    have hstr : (Source.ext string).str (newBytes bytes size) false = some string.val := rfl
    obtain ⟨s, hs, hholds⟩ := validateAndCopy_spec
      (d := ⟨blockSize, size, some (newBytes bytes size), false⟩) rfl hstr
      (show string.val.length < _ by rw [length_newBytes]; omega) hint id
    rw [length_newBytes, take_length] at hholds
    have hwf : WellFormed C ⟨blockSize, size, some s, false⟩ :=
      ⟨congrArg Nat.cast hholds.length.symm, hholds.nul, by simp only; omega, hblock⟩
    exact ⟨_, hs, hwf, fun _ => ⟨hholds.cstr, rfl⟩, nofun, grows_of_meets hwf acts⟩

/-- An allocation that gives zeros. -/
def zeros : Alloc := some fun _ => 0#8

/-- "abc" in an allocation of 4 bytes. -/
def abc : DString := ⟨4, 4, some [0x61#8, 0x62#8, 0x63#8, 0#8], false⟩

/-- "abcde" in an allocation of 8 bytes. -/
def abcde : DString :=
  ⟨4, 8, some [0x61#8, 0x62#8, 0x63#8, 0x64#8, 0x65#8, 0#8, 0#8, 0#8], false⟩

/-- "de" is appended, with an allocation; then the string is inserted into itself at 1,
which needs another one, and does not get it. -/
def growAndInsert : List (Op × Alloc) :=
  [(.appendTo (.ext ⟨[0x64#8, 0x65#8], by decide⟩) 2, zeros), (.insertAt 1 (.own 0), none)]

/-- A run of a string constructed as "abc". -/
theorem grows_abc :
    ∃ d, construct CTypes.lp64 (some ⟨[0x61#8, 0x62#8, 0x63#8], by decide⟩) 0 4 zeros = some d ∧
      Along (step CTypes.lp64) (Right CTypes.lp64) d growAndInsert := by
  obtain ⟨d, hd, -, -, -, hrun⟩ := construct_grows CTypes.lp64
    ⟨[0x61#8, 0x62#8, 0x63#8], by decide⟩ 0 4 zeros growAndInsert (by decide) (by decide)
    (by decide)
  have habc : construct CTypes.lp64 (some ⟨[0x61#8, 0x62#8, 0x63#8], by decide⟩) 0 4 zeros
      = some abc := by decide +kernel
  obtain rfl : abc = d := some.inj (habc.symm.trans hd)
  refine ⟨abc, hd, hrun ⟨⟨[0x64#8, 0x65#8], rfl, trivial, fun _ => by decide, nofun⟩,
    fun d' hd' => ⟨⟨[0x61#8, 0x62#8, 0x63#8, 0x64#8, 0x65#8], ?_⟩, fun _ _ => trivial⟩⟩⟩
  have habcde : abc.step CTypes.lp64 (.appendTo (.ext ⟨[0x64#8, 0x65#8], by decide⟩) 2, zeros)
      = some abcde := by decide +kernel
  obtain rfl : abcde = d' := some.inj (habcde.symm.trans hd')
  refine ⟨by decide, show _ ≤ _ by decide, fun _ => by decide, fun p hp => ⟨nofun, ?_⟩⟩
  cases hp
  exact Or.inl (by decide)

/-- "abcdef" in an allocation of 16 bytes. -/
def abcdef : DString :=
  ⟨16, 16, some ([0x61#8, 0x62#8, 0x63#8, 0x64#8, 0x65#8, 0x66#8] ++ replicate 10 0#8), false⟩

/-- **Own bytes as the source**: `s += s` that grows reads the buffer it has freed; "ef",
the tail of "abcdef", inserted at 0 comes out as "cd", bytes that have been moved; and a
block size of 0 is a division by zero. -/
theorem own_source_faults :
    abc.step CTypes.lp64 (.appendAssign (.own 0), zeros) = none ∧
    ((abcdef.step CTypes.lp64 (.insertAt 0 (.own 4), none)).map fun d => cstr d.buf)
      = some [0x63#8, 0x64#8, 0x61#8, 0x62#8, 0x63#8, 0x64#8, 0x65#8, 0x66#8] ∧
    construct CTypes.lp64 (some ⟨[0x61#8], by decide⟩) 0 0 zeros = none := by
  decide +kernel

end DString

end ColonyCore.Text
