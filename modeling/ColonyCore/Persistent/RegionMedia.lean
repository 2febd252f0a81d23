/-
  ColonyCore.Persistent.RegionMedia
  **THE MEDIA UNDER THE PERSISTENT RECORDS, AND THE SHARED WORK BUFFER.**

  A medium is a family of regions, each a byte list (`RegionMedia.h`,
  `NVAdapter.cpp`): a request inside the region is served whole, any other is
  refused (`read` returns no byte, `write` returns false).  What a build fixes
  is collected in `Platform`: `sizeof(size_t)` and the configured size of
  `g_workBuffer_`.

  A write may also FAIL (`Fate.fail`): it returns false and leaves arbitrary
  bytes in the cells it covers.  Power cuts are not fates; they are
  `ByteStore.storeCut` applied to the writes a call issues.
-/
import ColonyCore.Lib.ByteStore
import ColonyCore.Lib.LittleEndian

namespace ColonyCore.Persistent

open ByteStore LittleEndian List

/-! ## §1. What a build fixes. -/

/-- The build parameters the persistent code depends on. -/
structure Platform where
  /-- `sizeof(size_t)`; the language asks for 16 bits at least. -/
  sizeofSizeT : Nat
  sizeofSizeT_ge : 2 ≤ sizeofSizeT
  /-- `OPTION_CPL_PERSISTENT_WORK_BUFFER_SIZE`. -/
  workBufferSize : Nat

/-- A 64-bit build with the default work buffer. -/
def Platform.default64 : Platform := ⟨8, by decide, 1024⟩

/-- `sizeof(uint64_t)`. -/
abbrev sizeofUint64 : Nat := 8

/-- `CRC_SIZE`. -/
abbrev CRC_SIZE : Nat := 4

variable {P : Platform}

/-- The number of values of a `size_t`. -/
def Platform.sizeMod (P : Platform) : Nat := 256 ^ P.sizeofSizeT

theorem Platform.sizeMod_ge (P : Platform) : 65536 ≤ P.sizeMod :=
  Nat.pow_le_pow_right (show 256 > 0 by decide) P.sizeofSizeT_ge

/-- The sizes the frames are made of are far below the range of a `size_t`. -/
theorem Platform.sizeofSizeT_add_lt (P : Platform) : P.sizeofSizeT + 12 < P.sizeMod := by
  have hge := P.sizeofSizeT_ge
  have hself : P.sizeofSizeT < 2 ^ P.sizeofSizeT := Nat.lt_two_pow_self
  calc P.sizeofSizeT + 12 < 2 ^ 4 * 2 ^ P.sizeofSizeT := by omega
    _ = 2 ^ (4 + P.sizeofSizeT) := (Nat.pow_add 2 4 _).symm
    _ ≤ 2 ^ (8 * P.sizeofSizeT) := Nat.pow_le_pow_right (by decide) (by omega)
    _ = P.sizeMod := Nat.pow_mul 2 8 _

/-- `a + b` in `size_t`. -/
def Platform.sizeAdd (P : Platform) (a b : Nat) : Nat := (a + b) % P.sizeMod

/-- `a - b` in `size_t`. -/
def Platform.sizeSub (P : Platform) (a b : Nat) : Nat := (P.sizeMod + a - b) % P.sizeMod

theorem Platform.sizeAdd_of_lt {a b : Nat} (h : a + b < P.sizeMod) : P.sizeAdd a b = a + b :=
  Nat.mod_eq_of_lt h

theorem Platform.sizeSub_of_le {a b : Nat} (hb : b ≤ a) (ha : a < P.sizeMod) :
    P.sizeSub a b = a - b := by
  have h : P.sizeMod + a - b = a - b + P.sizeMod := by omega
  rw [Platform.sizeSub, h, Nat.add_mod_right, Nat.mod_eq_of_lt (by omega)]

/-- A subtraction that wraps lands above the number it started from. -/
theorem Platform.lt_sizeSub {a b : Nat} (hab : a < b) (hb : b < P.sizeMod) : a < P.sizeSub a b := by
  rw [Platform.sizeSub, Nat.mod_eq_of_lt (by omega)]
  omega

/-! ## §2. `g_workBuffer_`. -/

/-- The package-wide work buffer: exactly `workBufferSize` bytes. -/
structure WorkBuffer (P : Platform) where
  bytes : List Byte
  size : bytes.length = P.workBufferSize

/-- `memset( g_workBuffer_, 0, sizeof( g_workBuffer_ ) )`. -/
def WorkBuffer.zero (P : Platform) : WorkBuffer P :=
  ⟨replicate P.workBufferSize 0#8, length_replicate⟩

variable (b : WorkBuffer P)

/-- `bs` copied to the start of the buffer.  A copy that does not fit is
outside the model of the buffer and leaves it alone; the callers check. -/
def WorkBuffer.fill (bs : List Byte) : WorkBuffer P :=
  if h : bs.length ≤ P.workBufferSize then
    ⟨overlay b.bytes 0 bs, by rw [length_overlay _ _ _ (by rw [b.size]; omega), b.size]⟩
  else b

@[simp] theorem WorkBuffer.fill_nil : b.fill [] = b := by
  simp only [WorkBuffer.fill, length_nil, Nat.zero_le, dif_pos, overlay_nil]

section

variable (bs : List Byte) (h : bs.length ≤ P.workBufferSize)

include h

theorem WorkBuffer.fill_bytes : (b.fill bs).bytes = bs ++ b.bytes.drop bs.length := by
  rw [WorkBuffer.fill, dif_pos h]
  simp [overlay]

theorem WorkBuffer.take_fill : (b.fill bs).bytes.take bs.length = bs := by
  rw [b.fill_bytes bs h, take_left]

/-- The bytes of a filled buffer, one by one. -/
theorem WorkBuffer.getElem?_fill (i : Nat) :
    (b.fill bs).bytes[i]? = if i < bs.length then bs[i]? else b.bytes[i]? := by
  rw [b.fill_bytes bs h]
  by_cases hi : i < bs.length
  · rw [if_pos hi, getElem?_append_left hi]
  · rw [if_neg hi, getElem?_append_right (by omega), getElem?_drop]
    congr 1
    omega

end

/-! ## §3. Reads, and writes that may fail. -/

section Requests

variable {ρ : Type}

/-- `RegionMedia::read`: the bytes asked for, or none when the request leaves
the region. -/
def read (m : ρ → List Byte) (r : ρ) (offset bytesToRead : Nat) : List Byte :=
  if offset + bytesToRead ≤ (m r).length then slice (m r) offset bytesToRead else []

variable {m : ρ → List Byte} {r : ρ} {n : Nat}

theorem read_of_le {offset : Nat}
    (h : offset + n ≤ (m r).length) : read m r offset n = slice (m r) offset n :=
  if_pos h

theorem length_read_of_le {offset : Nat}
    (h : offset + n ≤ (m r).length) : (read m r offset n).length = n := by
  rw [read_of_le h, length_slice _ _ _ h]

theorem read_of_lt {offset : Nat} (h : (m r).length < offset + n) : read m r offset n = [] :=
  if_neg (by omega)

/-- What becomes of one region write. -/
inductive Fate where
  /-- The bytes are stored and `write` returns true. -/
  | ok
  /-- `write` returns false; the cells it covers are left holding `left`. -/
  | fail (left : List Byte)

/-- The write reports success. -/
def Fate.isOk : Fate → Bool
  | .ok => true
  | .fail _ => false

variable [DecidableEq ρ]

/-- `RegionMedia::write` with a given fate: the new media and the result. -/
def write (m : ρ → List Byte) (w : Write Byte ρ) : Fate → (ρ → List Byte) × Bool
  | .ok => (store m w, decide (w.Fits m))
  | .fail left => (store m { w with data := left.take w.data.length }, false)

/-- A list of writes, each with its fate (`ok` where the list of fates ends). -/
def writeEach : (ρ → List Byte) → List (Write Byte ρ) → List Fate → (ρ → List Byte) × List Bool
  | m, [], _ => (m, [])
  | m, w :: ws, fs =>
    let r := write m w (fs.headD .ok)
    let rest := writeEach r.1 ws fs.tail
    (rest.1, r.2 :: rest.2)

@[simp] theorem length_write (m : ρ → List Byte) (w : Write Byte ρ) (f : Fate) (r : ρ) :
    ((write m w f).1 r).length = (m r).length := by
  cases f with
  | ok => exact length_store m w r
  | fail left => exact length_store m _ r

variable (ws : List (Write Byte ρ))

@[simp] theorem length_writeEach :
    ∀ (m : ρ → List Byte) (fs : List Fate) (r : ρ),
      ((writeEach m ws fs).1 r).length = (m r).length := by
  induction ws with
  | nil => intro m fs r; rfl
  | cons w ws ih => intro m fs r; rw [writeEach, ih, length_write]

theorem writeEach_other :
    ∀ (m : ρ → List Byte) (fs : List Fate) (r : ρ), (∀ w ∈ ws, w.region ≠ r) →
      (writeEach m ws fs).1 r = m r := by
  induction ws with
  | nil => intro m fs r _; rfl
  | cons w ws ih =>
    intro m fs r h
    have hw : r ≠ w.region := (h w mem_cons_self).symm
    rw [writeEach, ih _ _ r (fun v hv => h v (mem_cons_of_mem _ hv))]
    cases fs.headD Fate.ok with
    | ok => exact store_other m w r hw
    | fail left => exact store_other m _ r hw

/-- With no failure the media are those of the plain list of writes, refused
writes included. -/
theorem writeEach_media :
    ∀ (m : ρ → List Byte), (writeEach m ws []).1 = storeAll m ws := by
  induction ws with
  | nil => intro m; rfl
  | cons w ws ih => intro m; exact ih (store m w)

/-- When every write fits, each of them reports success. -/
theorem writeEach_ok :
    ∀ (m : ρ → List Byte), (∀ w ∈ ws, w.Fits m) →
      writeEach m ws [] = (storeAll m ws, replicate ws.length true) := by
  induction ws with
  | nil => intro m _; rfl
  | cons w ws ih =>
    intro m h
    have hrest := ih (store m w)
      (fun v hv => (fits_store m v w).mpr (h v (mem_cons_of_mem _ hv)))
    have hw : decide (w.Fits m) = true := decide_eq_true (h w mem_cons_self)
    show ((writeEach (store m w) ws []).1, decide (w.Fits m) :: (writeEach (store m w) ws []).2) = _
    rw [hrest, hw]
    rfl

/-- When every write reports success, all of them fit and all were stored. -/
theorem writeEach_all :
    ∀ (m : ρ → List Byte) (fs : List Fate), (writeEach m ws fs).2.all id = true →
      (writeEach m ws fs).1 = storeAll m ws ∧ ∀ w ∈ ws, w.Fits m := by
  induction ws with
  | nil => intro m fs _; exact ⟨rfl, by intro w hw; cases hw⟩
  | cons w ws ih =>
    intro m fs h
    rw [writeEach, all_cons, Bool.and_eq_true] at h
    cases hf : fs.headD Fate.ok with
    | ok =>
      rw [hf] at h
      obtain ⟨hrest, hfits⟩ := ih (store m w) fs.tail h.2
      have hw : w.Fits m := of_decide_eq_true h.1
      refine ⟨?_, ?_⟩
      · rw [writeEach, hf]
        exact hrest
      · intro v hv
        rcases mem_cons.mp hv with rfl | hv
        · exact hw
        · exact (fits_store m v w).mp (hfits v hv)
    | fail left =>
      rw [hf] at h
      cases h.1

/-- Writes that fit report failure exactly where their fate says so. -/
theorem writeEach_results :
    ∀ (m : ρ → List Byte) (fs : List Fate), (∀ w ∈ ws, w.Fits m) →
      (writeEach m ws fs).2.all id = (fs.take ws.length).all Fate.isOk := by
  induction ws with
  | nil => intro m fs _; rfl
  | cons w ws ih =>
    intro m fs hfits
    have hw : w.Fits m := hfits w mem_cons_self
    have hrest := ih (write m w (fs.headD .ok)).1 fs.tail (by
      intro v hv
      have h := hfits v (mem_cons_of_mem w hv)
      unfold Write.Fits at h ⊢
      rw [length_write]
      exact h)
    rw [writeEach, all_cons, hrest]
    cases fs with
    | nil => simp [write, hw]
    | cons f fs =>
      cases f with
      | ok => simp [write, hw, Fate.isOk]
      | fail left => simp [write, Fate.isOk]

/-- A write, whatever its fate, changes only the cells it covers. -/
theorem write_outside (m : ρ → List Byte) (w : Write Byte ρ) (f : Fate) {i : Nat}
    (hi : i < w.offset ∨ w.offset + w.data.length ≤ i) :
    ((write m w f).1 w.region)[i]? = (m w.region)[i]? := by
  have hstore : ∀ data : List Byte, data.length ≤ w.data.length →
      (store m { w with data := data } w.region)[i]? = (m w.region)[i]? := by
    intro data hlen
    unfold store
    split
    next hfit =>
      rw [Function.update_self, getElem?_overlay _ _ _ hfit, if_neg]
      show ¬ (w.offset ≤ i ∧ i < w.offset + data.length)
      omega
    next => rfl
  cases f with
  | ok => exact hstore w.data (Nat.le_refl _)
  | fail left => exact hstore (left.take w.data.length) (length_take_le _ _)

/-- A run of pieces, whatever their fates, changes only the cells it covers. -/
theorem writeEach_pieceWrites_outside (r : ρ) (ps : List (List Byte)) :
    ∀ (m : ρ → List Byte) (off : Nat) (fs : List Fate) (i : Nat),
      i < off ∨ off + ps.flatten.length ≤ i →
      ((writeEach m (pieceWrites r off ps) fs).1 r)[i]? = (m r)[i]? := by
  induction ps with
  | nil => intro m off fs i _; rfl
  | cons p ps ih =>
    intro m off fs i hi
    rw [flatten_cons, length_append] at hi
    have hfirst := write_outside m ⟨r, off, p⟩ (fs.headD .ok)
      (show i < off ∨ off + p.length ≤ i by omega)
    exact (ih _ (off + p.length) fs.tail i (by omega)).trans hfirst

end Requests

end ColonyCore.Persistent
