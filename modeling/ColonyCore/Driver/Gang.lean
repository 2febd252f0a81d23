/-
  ColonyCore.Driver.Gang
  **SEVERAL NON-VOLATILE DRIVERS AS ONE FLAT MEMORY.**

  A gang puts the storage of its drivers end to end. A request finds the driver its
  offset falls into and spills over into the ones behind it. Offsets and counts are of
  `size_t`, here of any width `w`, and all sums wrap.

    • `writeLoop_spec` / `readLoop_spec` — a transfer that fits, over any number of drivers,
    • `readLoop_short` — a read that is too long fails, wherever the sums wrap,
    • `gang_flat` — every run of requests whose sums do not wrap is one on flat memory,
    • `write_spills` — the request whose range check wraps.
-/
import ColonyCore.Lib.ByteStore
import Mathlib.Data.BitVec
import Mathlib.Tactic.SplitIfs

namespace ColonyCore.Driver.NV

open ByteStore List BitVec

/-! ## §1. The drivers and the gang. -/

/-- A started driver behind `Driver::NV::Api` that behaves as a flat array of bytes; its
size is a `size_t`. -/
structure Api (w : Nat) where
  bytes : List UInt8
  fits : bytes.length < 2 ^ w

namespace Api

variable {w : Nat}

/-- `getTotalSize`. -/
def getTotalSize (d : Api w) : BitVec w := BitVec.ofNat w d.bytes.length

/-- The `n` bytes a source pointer points to. -/
def bytesAt (srcData : Nat → UInt8) (n : Nat) : List UInt8 := (range n).map srcData

/-- `write` of the driver: within its size, or not at all. -/
def write (d : Api w) (dstOffset : BitVec w) (srcData : Nat → UInt8)
    (numBytesToWrite : BitVec w) : Bool × Api w :=
  if h : dstOffset.toNat + numBytesToWrite.toNat ≤ d.bytes.length then
    (true, ⟨overlay d.bytes dstOffset.toNat (bytesAt srcData numBytesToWrite.toNat), by
      rw [length_overlay _ _ _ (by simpa [bytesAt] using h)]
      exact d.fits⟩)
  else (false, d)

/-- `read` of the driver, with the bytes it stores at the destination. -/
def read (d : Api w) (srcOffset numBytesToRead : BitVec w) : Bool × List UInt8 :=
  if srcOffset.toNat + numBytesToRead.toNat ≤ d.bytes.length then
    (true, slice d.bytes srcOffset.toNat numBytesToRead.toNat)
  else (false, [])

end Api

open Api (bytesAt)

/-- `Gang`: its drivers, `m_totalSize` and `m_started`. -/
structure Gang (w : Nat) where
  drivers : List (Api w)
  totalSize : BitVec w
  started : Bool

namespace Gang

variable {w : Nat}

/-- The constructor: the sizes are added up. -/
def create (drivers : List (Api w)) : Gang w :=
  ⟨drivers, drivers.foldl (fun totalSize d => totalSize + d.getTotalSize) 0#w, false⟩

/-- `start`; `starts` says which of the drivers start. -/
def start (g : Gang w) (starts : Api w → Bool) : Bool × Gang w :=
  if g.started then (false, g)
  else if g.drivers.all starts then (true, { g with started := true })
  else (false, g)

variable (d : Api w)

/-- How many bytes go to a driver, and how many are left for the ones behind it. -/
def share (normalizedOffset numBytes : BitVec w) : BitVec w × BitVec w :=
  if normalizedOffset + numBytes > d.getTotalSize then
    (d.getTotalSize - normalizedOffset, numBytes - (d.getTotalSize - normalizedOffset))
  else (numBytes, 0#w)

/-- `driverWrite`: its result, the driver, and the advanced source and count. -/
def driverWrite (normalizedDstOffset : BitVec w) (srcData : Nat → UInt8)
    (numBytesToWrite : BitVec w) : Bool × Api w × (Nat → UInt8) × BitVec w :=
  let (bytesThisDriver, remaining) := share d normalizedDstOffset numBytesToWrite
  let (result, d) := d.write normalizedDstOffset srcData bytesThisDriver
  (result, d, fun i => srcData (i + bytesThisDriver.toNat), remaining)

/-- The loop of `write` from the starting driver on. -/
def writeLoop : List (Api w) → BitVec w → (Nat → UInt8) → BitVec w →
    Bool × List (Api w)
  | [], _, _, numBytesToWrite => (numBytesToWrite == 0#w, [])
  | d :: rest, dstOffset, srcData, numBytesToWrite =>
    if numBytesToWrite = 0#w then (true, d :: rest)
    else
      let (result, d, srcData, numBytesToWrite) := driverWrite d dstOffset srcData numBytesToWrite
      if result then
        let (done, rest) := writeLoop rest 0#w srcData numBytesToWrite
        (done, d :: rest)
      else (false, d :: rest)

/-- The search of `write` for the driver its offset falls into. -/
def writeFrom : List (Api w) → (beginOffset endOffset dstOffset : BitVec w) →
    (Nat → UInt8) → BitVec w → Bool × List (Api w)
  | [], _, _, _, _, _ => (false, [])
  | d :: rest, beginOffset, endOffset, dstOffset, srcData, numBytesToWrite =>
    let endOffset := endOffset + d.getTotalSize
    if dstOffset < endOffset then
      writeLoop (d :: rest) (dstOffset - beginOffset) srcData numBytesToWrite
    else
      let (done, rest) := writeFrom rest (beginOffset + d.getTotalSize) endOffset dstOffset
        srcData numBytesToWrite
      (done, d :: rest)

/-- `Gang::write`. -/
def write (g : Gang w) (dstOffset : BitVec w) (srcData : Nat → UInt8)
    (numBytesToWrite : BitVec w) : Bool × Gang w :=
  if !g.started || dstOffset + numBytesToWrite > g.totalSize then (false, g)
  else
    let (done, drivers) := writeFrom g.drivers 0#w 0#w dstOffset srcData numBytesToWrite
    (done, { g with drivers := drivers })

/-- `driverRead`: its result, the bytes stored, and the remaining count. -/
def driverRead (normalizedSrcOffset numBytesToRead : BitVec w) :
    Bool × List UInt8 × BitVec w :=
  let (bytesThisDriver, remaining) := share d normalizedSrcOffset numBytesToRead
  let (result, bytes) := d.read normalizedSrcOffset bytesThisDriver
  (result, bytes, remaining)

/-- The loop of `read` from the starting driver on. -/
def readLoop : List (Api w) → BitVec w → BitVec w → Bool × List UInt8
  | [], _, numBytesToRead => (numBytesToRead == 0#w, [])
  | d :: rest, srcOffset, numBytesToRead =>
    if numBytesToRead = 0#w then (true, [])
    else
      let (result, bytes, numBytesToRead) := driverRead d srcOffset numBytesToRead
      if result then
        let (done, more) := readLoop rest 0#w numBytesToRead
        (done, bytes ++ more)
      else (false, bytes)

/-- The search of `read` for the driver its offset falls into. -/
def readFrom : List (Api w) → (beginOffset endOffset srcOffset numBytesToRead : BitVec w) →
    Bool × List UInt8
  | [], _, _, _, _ => (false, [])
  | d :: rest, beginOffset, endOffset, srcOffset, numBytesToRead =>
    let endOffset := endOffset + d.getTotalSize
    if srcOffset < endOffset then
      readLoop (d :: rest) (srcOffset - beginOffset) numBytesToRead
    else readFrom rest (beginOffset + d.getTotalSize) endOffset srcOffset numBytesToRead

/-- `Gang::read`: its result and the bytes it stores at the destination. -/
def read (g : Gang w) (srcOffset numBytesToRead : BitVec w) : Bool × List UInt8 :=
  if !g.started || srcOffset + numBytesToRead > g.totalSize then (false, [])
  else readFrom g.drivers 0#w 0#w srcOffset numBytesToRead

/-! ## §2. Transfers that fit. -/

/-- The storage of drivers end to end. -/
def flat (drivers : List (Api w)) : List UInt8 := drivers.flatMap (·.bytes)

theorem flat_cons (rest : List (Api w)) : flat (d :: rest) = d.bytes ++ flat rest :=
  rfl

theorem length_flat_cons (rest : List (Api w)) :
    (flat (d :: rest)).length = d.bytes.length + (flat rest).length := by
  rw [flat_cons, length_append]

theorem toNat_getTotalSize : d.getTotalSize.toNat = d.bytes.length := by
  rw [Api.getTotalSize, toNat_ofNat, Nat.mod_eq_of_lt d.fits]

theorem length_bytesAt (srcData : Nat → UInt8) (n : Nat) : (bytesAt srcData n).length = n := by
  simp [bytesAt]

theorem bytesAt_add (srcData : Nat → UInt8) (a b : Nat) :
    bytesAt srcData (a + b) = bytesAt srcData a ++ bytesAt (fun i => srcData (i + a)) b := by
  simp only [bytesAt, range_add]
  simp [Nat.add_comm]

variable {d : Api w} {off n : BitVec w}

/-- A count that does not fit: the driver gets what is left of it from the offset on. -/
theorem share_out (hoff : off.toNat ≤ d.bytes.length)
    (hlong : d.bytes.length < off.toNat + n.toNat) (hout : off + n > d.getTotalSize) :
    off.toNat + (share d off n).1.toNat = d.bytes.length
      ∧ n.toNat = (share d off n).1.toNat + (share d off n).2.toNat ∧ (share d off n).2 ≠ 0#w := by
  have hsize := toNat_getTotalSize d
  have hthis : (d.getTotalSize - off).toNat = d.bytes.length - off.toNat := by
    rw [toNat_sub_of_le (by rw [BitVec.le_def, hsize]; exact hoff), hsize]
  have hleft : (n - (d.getTotalSize - off)).toNat = n.toNat - (d.bytes.length - off.toNat) := by
    rw [toNat_sub_of_le (by rw [BitVec.le_def]; omega), hthis]
  rw [share, if_pos hout]
  refine ⟨(congrArg _ hthis).trans (by omega), ?_, fun h => ?_⟩
  · rw [hthis, hleft]
    omega
  · rw [show n - (d.getTotalSize - off) = 0#w from h, toNat_ofNat, Nat.zero_mod] at hleft
    omega

/-- All of a count that fits goes to the driver. -/
theorem share_spec (hoff : off.toNat ≤ d.bytes.length) (hsum : off.toNat + n.toNat < 2 ^ w) :
    (off.toNat + n.toNat ≤ d.bytes.length ∧ share d off n = (n, 0#w))
      ∨ off.toNat + (share d off n).1.toNat = d.bytes.length
        ∧ n.toNat = (share d off n).1.toNat + (share d off n).2.toNat
        ∧ (share d off n).2 ≠ 0#w := by
  have hout : off + n > d.getTotalSize ↔ d.bytes.length < off.toNat + n.toNat := by
    rw [gt_iff_lt, BitVec.lt_def, toNat_getTotalSize, toNat_add, Nat.mod_eq_of_lt hsum]
  by_cases h : d.bytes.length < off.toNat + n.toNat
  · exact .inr (share_out hoff h (hout.mpr h))
  · exact .inl ⟨by omega, if_neg (hout.not.mpr h)⟩

theorem write_fits (d : Api w) (off : BitVec w) (src : Nat → UInt8) (n : BitVec w)
    (h : off.toNat + n.toNat ≤ d.bytes.length) :
    ∃ d', d.write off src n = (true, d') ∧ d'.bytes.length = d.bytes.length ∧
      d'.bytes = overlay d.bytes off.toNat (bytesAt src n.toNat) := by
  unfold Api.write
  rw [dif_pos h]
  exact ⟨_, rfl, length_overlay _ _ _ (by rw [length_bytesAt]; exact h), rfl⟩

theorem read_fits (d : Api w) (off n : BitVec w) (h : off.toNat + n.toNat ≤ d.bytes.length) :
    d.read off n = (true, slice d.bytes off.toNat n.toNat) := if_pos h

/-- One turn of the loop of `write` whose driver accepts its share. -/
theorem writeLoop_cons {d' : Api w} {src : Nat → UInt8} (hn : n ≠ 0#w)
    (hwrite : d.write off src (share d off n).1 = (true, d')) (rest : List (Api w)) :
    writeLoop (d :: rest) off src n =
      let r := writeLoop rest 0#w (fun i => src (i + (share d off n).1.toNat)) (share d off n).2
      (r.1, d' :: r.2) := by
  simp [writeLoop, if_neg hn, driverWrite, hwrite]

/-- One turn of the loop of `read` whose driver accepts its share. -/
theorem readLoop_cons {bytes : List UInt8} (hn : n ≠ 0#w)
    (hread : d.read off (share d off n).1 = (true, bytes)) (rest : List (Api w)) :
    readLoop (d :: rest) off n =
      let r := readLoop rest 0#w (share d off n).2
      (r.1, bytes ++ r.2) := by
  simp [readLoop, if_neg hn, driverRead, hread]

variable (ds : List (Api w))

theorem writeLoop_zero (off : BitVec w) (src : Nat → UInt8) :
    writeLoop ds off src 0#w = (true, ds) := by
  cases ds <;> simp [writeLoop]

theorem readLoop_zero (off : BitVec w) : readLoop ds off 0#w = (true, []) := by
  cases ds <;> simp [readLoop]

/-- **A WRITE THAT FITS** changes exactly its bytes, over any number of drivers. -/
theorem writeLoop_spec (off : BitVec w) (src : Nat → UInt8) (n : BitVec w)
    (hoff : ∀ d ∈ ds.head?, off.toNat ≤ d.bytes.length) (htotal : (flat ds).length < 2 ^ w)
    (hfit : off.toNat + n.toNat ≤ (flat ds).length) :
    ∃ ds', writeLoop ds off src n = (true, ds') ∧
      flat ds' = overlay (flat ds) off.toNat (bytesAt src n.toNat) ∧
      ds'.map (·.bytes.length) = ds.map (·.bytes.length) := by
  by_cases hn : n = 0#w
  · subst hn
    exact ⟨ds, writeLoop_zero ds off src, by simp [bytesAt], rfl⟩
  induction ds generalizing off src n with
  | nil => exact absurd (eq_of_toNat_eq (by simp [flat] at hfit; simp [hfit])) hn
  | cons d rest ih =>
    rw [length_flat_cons] at htotal hfit
    have hoff : off.toNat ≤ d.bytes.length := hoff d rfl
    rcases share_spec (n := n) hoff (by omega) with ⟨hin, hshare⟩ | ⟨hroom, hsplit, hmore⟩
    · -- the driver takes all of it
      obtain ⟨d', hwrite, hlen, hbytes⟩ := write_fits d off src n hin
      refine ⟨d' :: rest, ?_, ?_, by simp [hlen]⟩
      · rw [writeLoop_cons hn (by rw [hshare]; exact hwrite), hshare, writeLoop_zero]
      · rw [flat_cons, flat_cons, hbytes,
          overlay_append_left _ _ _ _ (by rw [length_bytesAt]; exact hin)]
    · -- the driver is filled up, and the rest of the bytes goes to the next ones
      obtain ⟨d', hwrite, hlen, hbytes⟩ := write_fits d off src (share d off n).1 hroom.le
      obtain ⟨rest', hloop, hflat, hlens⟩ := ih 0#w
        (fun i => src (i + (share d off n).1.toNat)) (share d off n).2 (by simp) (by omega)
        (by rw [toNat_ofNat, Nat.zero_mod]; omega) hmore
      rw [toNat_ofNat, Nat.zero_mod] at hflat
      refine ⟨d' :: rest', ?_, ?_, by simp [hlen, hlens]⟩
      · rw [writeLoop_cons hn hwrite, hloop]
      · rw [flat_cons, flat_cons, hbytes, hflat, hsplit, bytesAt_add,
          overlay_append_span _ _ _ _ _ (by rw [length_bytesAt]; exact hroom)]

section

variable (off n : BitVec w) (hoff : ∀ d ∈ ds.head?, off.toNat ≤ d.bytes.length)

include hoff

/-- **A READ THAT FITS** delivers exactly its bytes, over any number of drivers. -/
theorem readLoop_spec (htotal : (flat ds).length < 2 ^ w)
    (hfit : off.toNat + n.toNat ≤ (flat ds).length) :
    readLoop ds off n = (true, slice (flat ds) off.toNat n.toNat) := by
  by_cases hn : n = 0#w
  · subst hn
    simp [readLoop_zero, slice]
  induction ds generalizing off n with
  | nil => exact absurd (eq_of_toNat_eq (by simp [flat] at hfit; simp [hfit])) hn
  | cons d rest ih =>
    rw [length_flat_cons] at htotal hfit
    have hoff : off.toNat ≤ d.bytes.length := hoff d rfl
    rcases share_spec (n := n) hoff (by omega) with ⟨hin, hshare⟩ | ⟨hroom, hsplit, hmore⟩
    · rw [readLoop_cons hn (by rw [hshare]; exact read_fits d off n hin), hshare, readLoop_zero,
        flat_cons, slice_append_left _ _ _ _ hin]
      simp
    · have hthis : (share d off n).1.toNat = d.bytes.length - off.toNat := by omega
      rw [readLoop_cons hn (read_fits d off _ hroom.le),
        ih 0#w (share d off n).2 (by simp) (by omega)
          (by rw [toNat_ofNat, Nat.zero_mod]; omega) hmore,
        flat_cons, hsplit, hthis, slice_append_span _ _ _ _ hoff, toNat_ofNat,
        Nat.zero_mod]

/-- **A READ THAT IS TOO LONG FAILS**, also where the sum of `driverRead` wraps. -/
theorem readLoop_short (hlong : (flat ds).length < off.toNat + n.toNat) (hn : n ≠ 0#w) :
    (readLoop ds off n).1 = false := by
  induction ds generalizing off n with
  | nil => simp [readLoop, hn]
  | cons d rest ih =>
    rw [length_flat_cons] at hlong
    have hoff : off.toNat ≤ d.bytes.length := hoff d rfl
    by_cases hout : off + n > d.getTotalSize
    · obtain ⟨hroom, hsplit, hmore⟩ := share_out hoff (by omega) hout
      rw [readLoop_cons hn (read_fits d off _ hroom.le)]
      refine ih 0#w _ (by simp) ?_ hmore
      omega
    · -- the wrapped sum looks small: all of the count goes to the driver, which refuses it
      have hshare : share d off n = (n, 0#w) := if_neg hout
      have hroom : ¬ off.toNat + n.toNat ≤ d.bytes.length := by omega
      simp [readLoop, hn, driverRead, hshare, Api.read, hroom]

end

/-! ## §3. The search for the starting driver. -/

/-- The offsets of the search advance by the size of the driver. -/
theorem toNat_add_size {b : BitVec w} (h : b.toNat + d.bytes.length < 2 ^ w) :
    (b + d.getTotalSize).toNat = b.toNat + d.bytes.length := by
  rw [toNat_add, toNat_getTotalSize, Nat.mod_eq_of_lt h]

theorem toNat_normalized {b : BitVec w} (h : b.toNat ≤ off.toNat) :
    (off - b).toNat = off.toNat - b.toNat :=
  toNat_sub_of_le (by rw [BitVec.le_def]; exact h)

/-- **The search finds the driver** the offset falls into, and the transfer starts there. -/
theorem search_finds (b off : BitVec w) (hb : b.toNat ≤ off.toNat)
    (htotal : b.toNat + (flat ds).length < 2 ^ w)
    (hin : off.toNat - b.toNat < (flat ds).length) :
    ∃ front d back o, ds = front ++ d :: back
      ∧ off.toNat - b.toNat = (flat front).length + o.toNat ∧ o.toNat ≤ d.bytes.length
      ∧ (∀ src n, writeFrom ds b b off src n = ((writeLoop (d :: back) o src n).1,
          front ++ (writeLoop (d :: back) o src n).2))
      ∧ ∀ n, readFrom ds b b off n = readLoop (d :: back) o n := by
  induction ds generalizing b with
  | nil => exact absurd hin (Nat.not_lt_zero _)
  | cons d rest ih =>
    rw [length_flat_cons] at htotal hin
    have hnext := toNat_add_size (b := b) (d := d) (by omega)
    simp only [writeFrom, readFrom, BitVec.lt_def, hnext]
    by_cases hhere : off.toNat < b.toNat + d.bytes.length
    · refine ⟨[], d, rest, off - b, rfl, ?_, ?_, fun src n => ?_, fun n => ?_⟩
      · rw [toNat_normalized hb]
        exact (Nat.zero_add _).symm
      · rw [toNat_normalized hb]
        omega
      · rw [if_pos hhere]
        rfl
      · rw [if_pos hhere]
    · obtain ⟨front, d', back, o, hds, hoff, hle, hwrite, hread⟩ :=
        ih (b + d.getTotalSize) (by omega) (by omega) (by omega)
      refine ⟨d :: front, d', back, o, by rw [hds]; rfl, ?_, hle, fun src n => ?_, fun n => ?_⟩
      · rw [length_flat_cons]
        omega
      · rw [if_neg hhere, hwrite]
        rfl
      · rw [if_neg hhere, hread]

/-- Beyond the last driver nothing is found. -/
theorem search_beyond (b off : BitVec w)
    (htotal : b.toNat + (flat ds).length < 2 ^ w) (hoff : b.toNat + (flat ds).length ≤ off.toNat) :
    (∀ src n, writeFrom ds b b off src n = (false, ds))
      ∧ ∀ n, readFrom ds b b off n = (false, []) := by
  induction ds generalizing b with
  | nil => exact ⟨fun _ _ => rfl, fun _ => rfl⟩
  | cons d rest ih =>
    rw [length_flat_cons] at htotal hoff
    have hnext := toNat_add_size (b := b) (d := d) (by omega)
    have hpast : ¬ off.toNat < b.toNat + d.bytes.length := by omega
    obtain ⟨hwrite, hread⟩ := ih (b + d.getTotalSize) (by omega) (by omega)
    simp [writeFrom, readFrom, BitVec.lt_def, hnext, hpast, hwrite, hread]

variable {ds : List (Api w)}

theorem flat_append (front back : List (Api w)) : flat (front ++ back) = flat front ++ flat back :=
  flatMap_append

theorem writeFrom_fits (src : Nat → UInt8) (hn : n ≠ 0#w) (htotal : (flat ds).length < 2 ^ w)
    (hfit : off.toNat + n.toNat ≤ (flat ds).length) :
    ∃ ds', writeFrom ds 0#w 0#w off src n = (true, ds')
      ∧ flat ds' = overlay (flat ds) off.toNat (bytesAt src n.toNat)
      ∧ ds'.map (·.bytes.length) = ds.map (·.bytes.length) := by
  have hpos : n.toNat ≠ 0 := fun h => hn (eq_of_toNat_eq (by simpa using h))
  obtain ⟨front, d, back, o, rfl, hoff, hle, hwrite, -⟩ :=
    search_finds ds 0#w off (by simp) (by simpa using htotal) (by simp; omega)
  rw [toNat_ofNat, Nat.zero_mod, Nat.sub_zero] at hoff
  rw [flat_append, length_append] at hfit htotal
  obtain ⟨ds', hloop, hflat, hlens⟩ := writeLoop_spec (d :: back) o src n
    (by rintro _ ⟨⟩; exact hle) (by omega) (by omega)
  refine ⟨front ++ ds', by rw [hwrite, hloop], ?_, by simp [hlens]⟩
  rw [flat_append, flat_append, hflat, hoff, overlay_append_right]

theorem readFrom_fits (hn : n ≠ 0#w) (htotal : (flat ds).length < 2 ^ w)
    (hfit : off.toNat + n.toNat ≤ (flat ds).length) :
    readFrom ds 0#w 0#w off n = (true, slice (flat ds) off.toNat n.toNat) := by
  have hpos : n.toNat ≠ 0 := fun h => hn (eq_of_toNat_eq (by simpa using h))
  obtain ⟨front, d, back, o, rfl, hoff, hle, -, hread⟩ :=
    search_finds ds 0#w off (by simp) (by simpa using htotal) (by simp; omega)
  rw [toNat_ofNat, Nat.zero_mod, Nat.sub_zero] at hoff
  rw [flat_append, length_append] at hfit htotal
  rw [hread, readLoop_spec (d :: back) o n (by rintro _ ⟨⟩; exact hle) (by omega) (by omega),
    flat_append, hoff, slice_append_right]

theorem readFrom_short (hn : n ≠ 0#w) (htotal : (flat ds).length < 2 ^ w)
    (hlong : (flat ds).length < off.toNat + n.toNat) :
    (readFrom ds 0#w 0#w off n).1 = false := by
  by_cases hin : off.toNat < (flat ds).length
  · obtain ⟨front, d, back, o, rfl, hoff, hle, -, hread⟩ :=
      search_finds ds 0#w off (by simp) (by simpa using htotal) (by simpa using hin)
    rw [toNat_ofNat, Nat.zero_mod] at hoff
    rw [flat_append, length_append] at hlong
    rw [hread]
    exact readLoop_short _ o n (by rintro _ ⟨⟩; exact hle) (by omega) hn
  · rw [(search_beyond ds 0#w off (by simpa using htotal) (by simpa using hin)).2]

/-! ## §4. Runs, next to runs on flat memory. -/

/-- A request of a client. -/
inductive Request (w : Nat) where
  | write (dstOffset : BitVec w) (srcData : Nat → UInt8) (numBytesToWrite : BitVec w)
  | read (srcOffset numBytesToRead : BitVec w)

/-- What the gang does with a request; a request that returned true is answered with the
bytes read (none for a write), one that returned false with `none`. -/
def request (g : Gang w) : Request w → Option (List UInt8) × Gang w
  | .write dstOffset srcData numBytesToWrite =>
    let (done, g) := g.write dstOffset srcData numBytesToWrite
    (if done then some [] else none, g)
  | .read srcOffset numBytesToRead =>
    let (done, bytes) := g.read srcOffset numBytesToRead
    (if done then some bytes else none, g)

/-- What one flat array of bytes does with it: exact sums, all or nothing. -/
def flatRequest (m : List UInt8) : Request w → Option (List UInt8) × List UInt8
  | .write off src n =>
    if off.toNat + n.toNat ≤ m.length then
      (some [], overlay m off.toNat (bytesAt src n.toNat))
    else (none, m)
  | .read off n =>
    if off.toNat + n.toNat ≤ m.length then (some (slice m off.toNat n.toNat), m) else (none, m)

/-- A sequence of requests with their answers. -/
def run {σ : Type} (step : σ → Request w → Option (List UInt8) × σ) :
    σ → List (Request w) → List (Option (List UInt8)) × σ
  | s, [] => ([], s)
  | s, r :: rest =>
    let (answer, s) := step s r
    let (answers, s) := run step s rest
    (answer :: answers, s)

/-- At least one byte is asked for. -/
def Request.NonEmpty : Request w → Prop
  | .write _ _ n => n ≠ 0#w
  | .read _ n => n ≠ 0#w

/-- A write that begins inside a memory of `total` bytes ends within the range of
`size_t`. -/
def Request.NoWrap (total : Nat) : Request w → Prop
  | .write off _ n => off.toNat < total → off.toNat + n.toNat < 2 ^ w
  | .read _ _ => True

/-- A started gang whose total size is the sum of its drivers' sizes. -/
structure Ready (g : Gang w) : Prop where
  started : g.started = true
  total : g.totalSize.toNat = (flat g.drivers).length

variable {g : Gang w}

theorem Ready.total_lt (h : Ready g) : (flat g.drivers).length < 2 ^ w :=
  h.total ▸ g.totalSize.isLt

theorem toNat_total (ds : List (Api w)) (b : BitVec w) (h : b.toNat + (flat ds).length < 2 ^ w) :
    (ds.foldl (fun totalSize d => totalSize + d.getTotalSize) b).toNat =
      b.toNat + (flat ds).length := by
  induction ds generalizing b with
  | nil => rfl
  | cons d rest ih =>
    rw [length_flat_cons] at h ⊢
    have hnext := toNat_add_size (b := b) (d := d) (by omega)
    rw [foldl_cons, ih _ (by omega), hnext, Nat.add_assoc]

theorem ready_start {starts : Api w → Bool} (hsum : (flat ds).length < 2 ^ w)
    (hstart : start (create ds) starts = (true, g)) : Ready g ∧ g.drivers = ds := by
  have htotal := toNat_total ds 0#w (by simpa using hsum)
  have hstarted : (create ds).started = false := rfl
  unfold start at hstart
  rw [hstarted, if_neg Bool.false_ne_true] at hstart
  split at hstart
  · cases hstart
    exact ⟨⟨rfl, by simpa [create] using htotal⟩, rfl⟩
  · cases hstart

/-- A transfer that fits passes the range check. -/
theorem Ready.passes (h : Ready g) (hfit : off.toNat + n.toNat ≤ (flat g.drivers).length) :
    ¬ (off + n > g.totalSize) := by
  have htotal := h.total_lt
  rw [gt_iff_lt, BitVec.lt_def, h.total, toNat_add, Nat.mod_eq_of_lt (by omega)]
  omega

/-- One request does to the drivers what it does to their bytes end to end. -/
structure Agrees (g : Gang w) (r : Request w) : Prop where
  answer : (request g r).1 = (flatRequest (flat g.drivers) r).1
  bytes : flat (request g r).2.drivers = (flatRequest (flat g.drivers) r).2
  sizes : (request g r).2.drivers.map (·.bytes.length) = g.drivers.map (·.bytes.length)
  ready : Ready (request g r).2

theorem Ready.write_agrees (h : Ready g) {src : Nat → UInt8} (hn : n ≠ 0#w)
    (hwrap : (Request.write off src n).NoWrap (flat g.drivers).length) :
    Agrees g (.write off src n) := by
  have htotal := h.total_lt
  by_cases hfit : off.toNat + n.toNat ≤ (flat g.drivers).length
  · obtain ⟨ds', hfrom, hflat, hlens⟩ := writeFrom_fits src hn htotal hfit
    have hwrite : g.write off src n = (true, { g with drivers := ds' }) := by
      simp [write, h.started, h.passes hfit, hfrom]
    have hlength : (flat ds').length = (flat g.drivers).length := by
      rw [hflat, length_overlay _ _ _ (by rw [length_bytesAt]; exact hfit)]
    constructor <;> simp only [request, hwrite, flatRequest, if_pos hfit, if_true]
    · exact hflat
    · exact hlens
    · exact ⟨h.started, h.total.trans hlength.symm⟩
  · -- refused by the range check, or by the search, which finds no driver
    have hwrite : g.write off src n = (false, g) := by
      by_cases hpass : off + n > g.totalSize
      · simp [write, hpass]
      · have hbeyond : (flat g.drivers).length ≤ off.toNat := by
          by_contra hin
          have hsum := hwrap (by omega)
          rw [gt_iff_lt, BitVec.lt_def, h.total, toNat_add, Nat.mod_eq_of_lt hsum] at hpass
          omega
        have hfrom := (search_beyond g.drivers 0#w off (by simpa using htotal)
          (by simpa using hbeyond)).1 src n
        unfold write
        rw [if_neg (by simp [h.started, hpass]), hfrom]
    constructor <;> simp only [request, hwrite, flatRequest, if_neg hfit, Bool.false_eq_true, if_false]
    exact h

theorem Ready.read_agrees (h : Ready g) (hn : n ≠ 0#w) : Agrees g (.read off n) := by
  have htotal := h.total_lt
  by_cases hfit : off.toNat + n.toNat ≤ (flat g.drivers).length
  · have hfrom := readFrom_fits hn htotal hfit
    constructor <;> simp [request, read, h.started, h.passes hfit, hfrom, flatRequest, hfit, h]
  · have hfalse : (g.read off n).1 = false := by
      by_cases hpass : off + n > g.totalSize
      · simp [read, hpass]
      · simp [read, h.started, hpass, readFrom_short hn htotal (Nat.not_le.mp hfit)]
    constructor <;> simp [request, hfalse, flatRequest, hfit, h]

/-- **A GANG IS ONE FLAT MEMORY**: every sequence of requests is answered as by the bytes
of the drivers end to end, and does to them what it does to those. -/
theorem gang_flat (ds : List (Api w)) (starts : Api w → Bool) (g : Gang w)
    (hsum : (flat ds).length < 2 ^ w) (hstart : start (create ds) starts = (true, g))
    (rs : List (Request w)) (hne : ∀ r ∈ rs, r.NonEmpty)
    (hwrap : ∀ r ∈ rs, r.NoWrap (flat ds).length) :
    (run request g rs).1 = (run flatRequest (flat ds) rs).1 ∧
      flat (run request g rs).2.drivers = (run flatRequest (flat ds) rs).2 ∧
      (run request g rs).2.drivers.map (·.bytes.length) = ds.map (·.bytes.length) := by
  obtain ⟨hready, rfl⟩ := ready_start hsum hstart
  clear hsum hstart
  induction rs generalizing g with
  | nil => exact ⟨rfl, rfl, rfl⟩
  | cons r rest ih =>
    obtain ⟨hanswer, hbytes, hlens, hready'⟩ : Agrees g r := by
      cases r with
      | write off src n =>
        exact hready.write_agrees (hne _ mem_cons_self) (hwrap _ mem_cons_self)
      | read off n => exact hready.read_agrees (hne _ mem_cons_self)
    have hlength : (flat (request g r).2.drivers).length = (flat g.drivers).length := by
      simpa [flat] using congrArg sum hlens
    obtain ⟨h1, h2, h3⟩ := ih (request g r).2 (fun x hx => hne x (mem_cons_of_mem _ hx))
      hready' (fun x hx => by rw [hlength]; exact hwrap x (mem_cons_of_mem _ hx))
    simp only [run]
    rw [h1, h2, h3, hbytes, hanswer, hlens]
    exact ⟨rfl, rfl, rfl⟩

/-- Two drivers of 4 and 8 bytes of zeros. -/
def twoDrivers : List (Api 64) :=
  [⟨replicate 4 0, by decide⟩, ⟨replicate 8 0, by decide⟩]

/-- A write across both drivers, and reads within and beyond them. -/
theorem gang_flat_two : let g : Gang 64 := { create twoDrivers with started := true }
    let rs : List (Request 64) :=
      [.write 2#64 (fun i => UInt8.ofNat (i + 1)) 4#64, .read 3#64 2#64, .read 5#64 (-3#64)]
    (run request g rs).1 = (run flatRequest (flat twoDrivers) rs).1 ∧
      flat (run request g rs).2.drivers = (run flatRequest (flat twoDrivers) rs).2 ∧
      (run request g rs).2.drivers.map (·.bytes.length) =
        twoDrivers.map (·.bytes.length) := by
  intro g rs
  refine gang_flat twoDrivers (fun _ => true) g (by decide) rfl rs ?_ ?_
  · intro r hr
    rcases mem_cons.mp hr with rfl | hr
    · exact fun h => absurd (congrArg BitVec.toNat h) (by decide)
    rcases mem_cons.mp hr with rfl | hr
    · exact fun h => absurd (congrArg BitVec.toNat h) (by decide)
    obtain rfl := mem_singleton.mp hr
    exact fun h => absurd (congrArg BitVec.toNat h) (by decide)
  · intro r hr
    rcases mem_cons.mp hr with rfl | hr
    · exact fun _ => by decide
    rcases mem_cons.mp hr with rfl | hr
    · trivial
    obtain rfl := mem_singleton.mp hr
    trivial

/-- **THE WRITE THAT SPILLS**: at offset 5 of 12 bytes with a count of `2^64 - 3` the range
check sees a sum of 2. The write fails, after it has overwritten the second driver from
that offset on. -/
theorem write_spills : let g : Gang 64 := { create twoDrivers with started := true }
    let r : Request 64 := .write 5#64 (fun _ => 0xFF) (-3#64)
    (flatRequest (flat twoDrivers) r) = (none, flat twoDrivers) ∧
      (request g r).1 = none ∧
      (request g r).2.drivers.map (·.bytes) =
        [[0, 0, 0, 0], [0, 255, 255, 255, 255, 255, 255, 255]] := by
  decide

end Gang

end ColonyCore.Driver.NV
