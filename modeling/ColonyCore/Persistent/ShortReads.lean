/-
  ColonyCore.Persistent.ShortReads
  **LOADING FROM A MEDIUM WHOSE READS ARE SHORT
  (`CrcChunk::loadData`, `MirroredChunk::getTransactionId`).**

  `RegionMedia::read` returns how many bytes it read, and the loop "Read the data AND
  CRC bytes" goes on until it has all of them.  It keeps the offset, the remaining
  count and the CRC in step, but NOT the destination: every read lands at the start
  of the work buffer.

    • `readDataAndCrc_eq` — the loop, for any sequence of reads: the CRC is that of
      all bytes read, the buffer holds them on top of each other,
    • `getElem?_foldl_fill` — a byte of that buffer is the one of the LAST read that
      was long enough,
    • `short_reads_iff`   — the record is handed the same bytes EXACTLY when those on
      top are the right ones; ids and lengths of mirrors are always the same,
    • `short_read_mixes`  — three bytes, read as two and one.
-/
import Mathlib.Data.List.Induction
import ColonyCore.Persistent.CrcChunk
import ColonyCore.Persistent.MirroredChunk

namespace ColonyCore.Persistent

open ByteStore LittleEndian Checksum.Crc32EthernetFast List CrcChunk

variable {P : Platform} {ρ : Type}

/-! ## §1. The loop over any sequence of reads. -/

/-- What the reads of the loop return, in order. -/
def readChunks (rd : Nat → Nat → List Byte) : Nat → Nat → Nat → List (List Byte)
  | 0, _, _ => []
  | fuel + 1, offset, dataRemaining =>
    if dataRemaining = 0 then [] else
    let got := rd offset dataRemaining
    if got.length = 0 then [] else
    got :: readChunks rd fuel (offset + got.length) (dataRemaining - got.length)

section

variable (rd : Nat → Nat → List Byte) (hle : ∀ offset n, (rd offset n).length ≤ n) (fuel : Nat)

include hle

/-- **The loop**: the CRC runs over everything that was read, and every read is
stored at the start of the buffer. -/
theorem readDataAndCrc_eq :
    ∀ (offset n : Nat) (crc : BitVec 32) (buf : WorkBuffer P), n ≤ P.workBufferSize →
      readDataAndCrc rd fuel offset n crc buf
        = (accumulate crc (readChunks rd fuel offset n).flatten,
            (readChunks rd fuel offset n).foldl WorkBuffer.fill buf) := by
  induction fuel with
  | zero => intro offset n crc buf _; rfl
  | succ fuel ih =>
    intro offset n crc buf hn
    have hgot := hle offset n
    unfold readDataAndCrc readChunks
    by_cases h0 : n = 0
    · rw [if_pos h0, if_pos h0]
      rfl
    · rw [if_neg h0, if_neg h0]
      by_cases hnone : (rd offset n).length = 0
      · rw [if_pos hnone, if_pos hnone]
        rfl
      · rw [if_neg hnone, if_neg hnone, ih _ _ _ _ (by omega), buf.take_fill _ (by omega),
            ← accumulate_append]
        rfl

theorem length_readChunks :
    ∀ (offset n : Nat), ∀ c ∈ readChunks rd fuel offset n, c.length ≤ n := by
  induction fuel with
  | zero => intro offset n c hc; cases hc
  | succ fuel ih =>
    intro offset n c hc
    unfold readChunks at hc
    split at hc
    · cases hc
    · simp only at hc
      split at hc
      · cases hc
      · rcases mem_cons.mp hc with rfl | hc
        · exact hle offset n
        · have := ih _ _ c hc
          omega

end

/-- The byte at `p` of the last chunk that reaches so far, or else the old one. -/
def lastByte (chunks : List (List Byte)) (old : Option Byte) (p : Nat) : Option Byte :=
  match (chunks.filter fun chunk => p < chunk.length).getLast? with
  | some chunk => chunk[p]?
  | none => old

/-- **What chunks stored on top of each other leave.** -/
theorem getElem?_foldl_fill (chunks : List (List Byte)) : ∀ (buf : WorkBuffer P) (p : Nat),
    (∀ c ∈ chunks, c.length ≤ P.workBufferSize) →
    (chunks.foldl WorkBuffer.fill buf).bytes[p]? = lastByte chunks buf.bytes[p]? p := by
  -- from the last chunk backwards: it is on top of all others
  induction chunks using reverseRecOn with
  | nil => intro buf p _; rfl
  | append_singleton chunks c ih =>
    intro buf p hfit
    have hc := hfit c (by simp)
    rw [foldl_append, foldl_cons, foldl_nil, WorkBuffer.getElem?_fill _ _ hc,
        ih buf p (fun c' hc' => hfit c' (by simp [hc']))]
    unfold lastByte
    rw [filter_append]
    by_cases hp : p < c.length
    · rw [if_pos hp, filter_cons_of_pos (by simpa using hp), filter_nil,
          getLast?_concat]
    · rw [if_neg hp, filter_cons_of_neg (by simpa using hp), filter_nil, append_nil]

/-! ## §2. A medium whose reads are short. -/

/-- How many bytes a medium returns: at least one, at most as many as asked for. -/
structure ReadCounts where
  count : Nat → Nat → Nat
  pos : ∀ offset n, 0 < n → 0 < count offset n
  le : ∀ offset n, count offset n ≤ n

/-- `RegionMedia::read` of such a medium; the header, up to `headerEnd`, is read in
full. -/
def shortRead (m : ρ → List Byte) (r : ρ) (k : ReadCounts) (headerEnd offset n : Nat) : List Byte :=
  if offset < headerEnd then read m r offset n else (read m r offset n).take (k.count offset n)

variable {m : ρ → List Byte} {r : ρ} {k : ReadCounts} {headerEnd : Nat}

theorem length_read_le (m : ρ → List Byte) (r : ρ) (offset n : Nat) :
    (read m r offset n).length ≤ n := by
  unfold read
  split
  · exact length_take_le _ _
  · exact Nat.zero_le n

theorem length_shortRead_le (offset n : Nat) : (shortRead m r k headerEnd offset n).length ≤ n := by
  unfold shortRead
  split
  · exact length_read_le m r offset n
  · exact Nat.le_trans (length_take_le _ _) (k.le offset n)

/-- Past the header, what is asked for comes in pieces. -/
theorem flatten_shortChunks (fuel : Nat) : ∀ (offset n : Nat), headerEnd ≤ offset → n ≤ fuel →
    offset + n ≤ (m r).length →
    (readChunks (shortRead m r k headerEnd) fuel offset n).flatten = slice (m r) offset n := by
  induction fuel with
  | zero =>
    intro offset n _ hn _
    obtain rfl : n = 0 := Nat.le_zero.mp hn
    simp [readChunks, slice]
  | succ fuel ih =>
    intro offset n hpast hn hin
    by_cases h0 : n = 0
    · subst h0
      simp [readChunks, slice]
    · have hpos := k.pos offset n (by omega)
      have hle := k.le offset n
      -- one read: the first `k.count offset n` bytes
      have hgot : shortRead m r k headerEnd offset n = slice (m r) offset (k.count offset n) := by
        unfold shortRead
        rw [if_neg (by omega), read_of_le hin, ← slice_eq_take (m r) offset hle]
      have hlen := length_slice (m r) offset (k.count offset n) (by omega)
      unfold readChunks
      simp only [hgot, hlen]
      rw [if_neg h0, if_neg (by omega), flatten_cons, ih _ _ (by omega) (by omega) (by omega),
          slice_append_slice, Nat.add_sub_cancel' hle]

/-- The reads of the loop that follows the length field at `offset`. -/
def frameChunks (P : Platform) (rd : Nat → Nat → List Byte) (offset : Nat) : List (List Byte) :=
  let n := ofLeBytes (rd offset P.sizeofSizeT)
  readChunks rd (n + 4) (offset + P.sizeofSizeT) (n + 4)

/-- **A frame read in pieces**: length field and verdict are as if it were read at
once; the buffer holds the pieces on top of each other. -/
theorem readFrame_short (m : ρ → List Byte) (r : ρ) (k : ReadCounts) (offset : Nat)
    (crc : BitVec 32) (buf : WorkBuffer P) : let full := readFrame P (read m r) offset crc buf
    let short := readFrame P (shortRead m r k (offset + P.sizeofSizeT)) offset crc buf
    short.dataLen = full.dataLen ∧ short.okay = full.okay
      ∧ (full.okay = true → short.buffer
          = (frameChunks P (shortRead m r k (offset + P.sizeofSizeT)) offset).foldl WorkBuffer.fill buf) := by
  have hge := P.sizeofSizeT_ge
  have hheader : shortRead m r k (offset + P.sizeofSizeT) offset P.sizeofSizeT
      = read m r offset P.sizeofSizeT := if_pos (by omega)
  by_cases hlen : offset + P.sizeofSizeT ≤ (m r).length
  · have hl := length_slice (m r) offset P.sizeofSizeT hlen
    have hread := read_of_le hlen
    obtain ⟨n, hn⟩ : ∃ n, ofLeBytes (slice (m r) offset P.sizeofSizeT) = n := ⟨_, rfl⟩
    have hnlt : n < P.sizeMod := by
      rw [← hn]
      have := ofLeBytes_lt (slice (m r) offset P.sizeofSizeT)
      rwa [hl] at this
    rw [readFrame_eq m r offset crc buf n hlen hn]
    unfold readFrame frameChunks
    simp only [hheader, hread, hl, if_true, hn]
    by_cases hg : n + 4 < P.sizeMod ∧ n + 4 ≤ P.workBufferSize
    · rw [if_pos ((lenGuard_iff hnlt).mpr hg), if_pos hg, Platform.sizeAdd_of_lt hg.1]
      simp only [readDataAndCrc_eq _ (fun o j => length_shortRead_le o j) _ _ _ _ _ hg.2]
      by_cases hroom : offset + P.sizeofSizeT + n + 4 ≤ (m r).length
      · rw [if_pos hroom, flatten_shortChunks _ _ _ le_rfl le_rfl (by omega),
            ← accumulate_append, slice_append_slice]
        exact ⟨rfl, rfl, fun _ => trivial⟩
      · -- the first read leaves the region: nothing is read
        have hnone : readChunks (shortRead m r k (offset + P.sizeofSizeT)) (n + 4)
            (offset + P.sizeofSizeT) (n + 4) = [] := by
          have hno : shortRead m r k (offset + P.sizeofSizeT) (offset + P.sizeofSizeT) (n + 4) = [] := by
            unfold shortRead
            rw [if_neg (by omega), read_of_lt (by omega), take_nil]
          unfold readChunks
          simp [hno]
        rw [if_neg hroom, hnone]
        exact ⟨rfl, rfl, fun _ => trivial⟩
    · rw [if_neg (fun h => hg ((lenGuard_iff hnlt).mp h)), if_neg hg]
      exact ⟨rfl, rfl, fun h => (by cases h)⟩
  · have hno : read m r offset P.sizeofSizeT = [] := read_of_lt (by omega)
    have hne : ([] : List Byte).length ≠ P.sizeofSizeT := by
      rw [length_nil]
      omega
    simp only [readFrame, hheader, hno, if_neg hne]
    exact ⟨trivial, trivial, fun h => (by cases h)⟩

/-! ## §3. Loads. -/

namespace MirroredChunk

/-- Id and length of a region do not depend on how it is read, nor on what the work
buffer held. -/
theorem getTransactionId_short (m : ρ → List Byte) (region : ρ) (k : ReadCounts) (index : Nat)
    (buf buf' : WorkBuffer P) :
    let short := getTransactionId P (shortRead m region k (index + 8 + P.sizeofSizeT)) index buf
    let full := getTransactionId P (read m region) index buf'
    short.transId = full.transId ∧ short.dataLen = full.dataLen := by
  have hid : shortRead m region k (index + 8 + P.sizeofSizeT) index 8 = read m region index 8 :=
    if_pos (by omega)
  have hbuf : ∀ crc, (readFrame P (read m region) (index + 8) crc buf).okay
        = (readFrame P (read m region) (index + 8) crc buf').okay
      ∧ (readFrame P (read m region) (index + 8) crc buf).dataLen
        = (readFrame P (read m region) (index + 8) crc buf').dataLen := by
    intro crc
    by_cases hlen : index + 8 + P.sizeofSizeT ≤ (m region).length
    · rw [readFrame_eq m region (index + 8) crc buf _ hlen rfl,
          readFrame_eq m region (index + 8) crc buf' _ hlen rfl]
      split
      · split
        · exact ⟨rfl, rfl⟩
        · exact ⟨rfl, rfl⟩
      · exact ⟨rfl, rfl⟩
    · rw [readFrame_noHeader _ _ (Nat.not_le.mp hlen), readFrame_noHeader _ _ (Nat.not_le.mp hlen)]
      exact ⟨rfl, rfl⟩
  unfold getTransactionId
  simp only [hid]
  split
  · obtain ⟨hlen, hok, -⟩ := readFrame_short m region k (index + 8)
      (accumulate reset (read m region index 8)) buf
    obtain ⟨hok', hlen'⟩ := hbuf (accumulate reset (read m region index 8))
    simp [hlen, hok, hok', hlen']
  · exact ⟨rfl, rfl⟩

/-- **The region chosen is the same**, with its id and its length. -/
theorem loadData_short_chunk (c : MirroredChunk ρ) (m : ρ → List Byte) (kA kB : ReadCounts)
    (dst : Payload) (index : Nat) (buf : WorkBuffer P) :
    (c.loadDataFrom P m (shortRead m c.regionA kA (index + 8 + P.sizeofSizeT))
        (shortRead m c.regionB kB (index + 8 + P.sizeofSizeT)) dst index buf).map (fun l => l.chunk)
      = (c.loadData P m dst index buf).map (fun l => l.chunk) := by
  obtain ⟨hidA, hlenA⟩ := getTransactionId_short m c.regionA kA index buf buf
  obtain ⟨hidB, hlenB⟩ := getTransactionId_short m c.regionB kB index
    (getTransactionId P (shortRead m c.regionA kA (index + 8 + P.sizeofSizeT)) index buf).buffer
    (getTransactionId P (read m c.regionA) index buf).buffer
  have hpush : ∀ (c' : MirroredChunk ρ) (region : ρ) (b b' : WorkBuffer P),
      (pushToRecord c' m region dst b).map (fun l => l.chunk)
        = (pushToRecord c' m region dst b').map (fun l => l.chunk) := by
    intro c' region b b'
    unfold pushToRecord
    split
    · rfl
    · rfl
  unfold loadData loadDataFrom
  simp only [hidA, hidB, hlenA, hlenB]
  split
  · split
    · rfl
    · rfl
  · split
    · exact hpush _ _ _ _
    · exact hpush _ _ _ _

end MirroredChunk

/-! ## §4. When short reads do no harm. -/

/-- **The bytes on top are the right ones**: each byte of the data is also the byte at
its place in the last read that was long enough (or in the old work buffer, if none
was).  One read of everything is such a case. -/
def TopBytes (P : Platform) (s : List Byte) (index : Nat) (chunks : List (List Byte))
    (buf : WorkBuffer P) : Prop :=
  let n := ofLeBytes (slice s index P.sizeofSizeT)
  index + P.sizeofSizeT + n + 4 ≤ s.length →
    ∀ p, p < n → lastByte chunks buf.bytes[p]? p = s[index + P.sizeofSizeT + p]?

/-- Two buffers agree on their first `n` bytes. -/
theorem bytes_take_eq_iff (a b : List Byte) (n : Nat) :
    a.take n = b.take n ↔ ∀ p, p < n → a[p]? = b[p]? := by
  constructor
  · intro h p hp
    have hget := congrArg (fun l => l[p]?) h
    simpa [getElem?_take, if_pos hp] using hget
  · intro h
    apply ext_getElem?
    intro p
    rw [getElem?_take, getElem?_take]
    split
    next hp => exact h p hp
    next => rfl

/-- The data a load takes from the work buffer, short reads against full ones. -/
theorem data_short_iff (m : ρ → List Byte) (r : ρ) (k : ReadCounts) (index : Nat)
    (buf : WorkBuffer P) (hok : (readFrame P (read m r) index reset buf).okay = true) :
    let n := ofLeBytes (slice (m r) index P.sizeofSizeT)
    (readFrame P (read m r) index reset buf).dataLen = n
      ∧ ((readFrame P (shortRead m r k (index + P.sizeofSizeT)) index reset buf).buffer.bytes.take n
            = (readFrame P (read m r) index reset buf).buffer.bytes.take n
          ↔ TopBytes P (m r) index (frameChunks P (shortRead m r k (index + P.sizeofSizeT)) index) buf) := by
  intro n
  have hge := P.sizeofSizeT_ge
  obtain ⟨-, -, hbuffer⟩ := readFrame_short m r k index reset buf
  rw [hbuffer hok]
  have hlen : index + P.sizeofSizeT ≤ (m r).length := by
    by_contra hnot
    rw [readFrame_noHeader _ _ (Nat.not_le.mp hnot)] at hok
    cases hok
  have hheader : shortRead m r k (index + P.sizeofSizeT) index P.sizeofSizeT
      = slice (m r) index P.sizeofSizeT := by
    unfold shortRead
    rw [if_pos (by omega), read_of_le hlen]
  rw [readFrame_eq m r index reset buf n hlen rfl] at hok ⊢
  split at hok
  next hg =>
    rw [if_pos hg]
    by_cases hroom : index + P.sizeofSizeT + n + 4 ≤ (m r).length
    · rw [if_pos hroom]
      refine ⟨rfl, (bytes_take_eq_iff _ _ _).trans ?_⟩
      have hfit : ∀ c ∈ frameChunks P (shortRead m r k (index + P.sizeofSizeT)) index,
          c.length ≤ P.workBufferSize := by
        intro c hc
        unfold frameChunks at hc
        simp only [hheader] at hc
        exact Nat.le_trans (length_readChunks _ (fun o j => length_shortRead_le o j) _ _ _ c hc) hg.2
      have hin := length_slice (m r) (index + P.sizeofSizeT) (n + 4) (by omega)
      have hfull : ∀ p, p < n → (buf.fill (slice (m r) (index + P.sizeofSizeT) (n + 4))).bytes[p]?
          = (m r)[index + P.sizeofSizeT + p]? := by
        intro p hp
        rw [WorkBuffer.getElem?_fill _ _ (by omega), if_pos (by omega), getElem?_slice,
            if_pos (by omega)]
      constructor
      · intro h _ p hp
        rw [← getElem?_foldl_fill _ _ _ hfit, h p hp, hfull p hp]
      · intro h p hp
        rw [getElem?_foldl_fill _ _ _ hfit, h hroom p hp, hfull p hp]
    · rw [if_neg hroom]
      refine ⟨rfl, ?_⟩
      have hnone : frameChunks P (shortRead m r k (index + P.sizeofSizeT)) index = [] := by
        have hno : shortRead m r k (index + P.sizeofSizeT) (index + P.sizeofSizeT) (n + 4) = [] := by
          unfold shortRead
          rw [if_neg (by omega), read_of_lt (by omega), take_nil]
        unfold frameChunks readChunks
        simp only [hheader]
        rw [hno]
        simp
      rw [hnone]
      exact ⟨fun _ h => absurd h hroom, fun _ => rfl⟩
  next => cases hok

/-- **SHORT READS**: a load of a CRC chunk returns the same boolean and hands the
record the same bytes EXACTLY when the CRC refuses them or the bytes on top are the
right ones; the region two mirrors choose, its id and its length, are always the
same. -/
theorem short_reads_iff (c : CrcChunk ρ) (m : ρ → List Byte) (k : ReadCounts) (dst : Payload)
    (index : Nat) (buf : WorkBuffer P) :
    ((let short := c.loadDataFrom P (shortRead m c.region k (index + P.sizeofSizeT)) dst index buf
      let full := c.loadData P m dst index buf
      short.result = full.result ∧ short.pushed = full.pushed)
        ↔ (crcOkay P (m c.region) index = true →
            TopBytes P (m c.region) index
              (frameChunks P (shortRead m c.region k (index + P.sizeofSizeT)) index) buf))
      ∧ ∀ (c' : MirroredChunk ρ) (kA kB : ReadCounts),
          (c'.loadDataFrom P m (shortRead m c'.regionA kA (index + 8 + P.sizeofSizeT))
              (shortRead m c'.regionB kB (index + 8 + P.sizeofSizeT)) dst index buf).map (fun l => l.chunk)
            = (c'.loadData P m dst index buf).map (fun l => l.chunk) := by
  refine ⟨?_, fun c' kA kB => MirroredChunk.loadData_short_chunk c' m kA kB dst index buf⟩
  obtain ⟨hlen, hok, -⟩ := readFrame_short m c.region k index reset buf
  have hcrc := readFrame_okay m c.region index buf
  unfold loadData loadDataFrom
  simp only [hlen, hok, hcrc]
  cases hv : crcOkay P (m c.region) index with
  | false => simp
  | true =>
    rw [hv] at hcrc
    obtain ⟨hn, hiff⟩ := data_short_iff m c.region k index buf hcrc
    simp only [if_true, hn, Option.some.injEq, forall_const]
    rw [← hiff]
    constructor
    · intro h
      exact h.2
    · intro h
      exact ⟨by rw [h], h⟩

/-- A medium that reads two bytes at a time. -/
def twoAtATime : ReadCounts where
  count _ n := min 2 n
  pos _ n hn := by omega
  le _ n := Nat.min_le_right 2 n

/-- **Short reads mix data and CRC**: the record 1, 2, 3, read two bytes at a time, is
handed over as the last bytes of its CRC. -/
theorem short_read_mixes :
    ((⟨(), 0⟩ : CrcChunk Unit).loadDataFrom .default64
        (shortRead (fun _ => frameOf .default64 false [1, 2, 3]) () twoAtATime 8)
        (.ofBytes []) 0 (.zero _)).pushed = some [0xFD, 0x9F, 0]
      ∧ ((⟨(), 0⟩ : CrcChunk Unit).loadData .default64
        (fun _ => frameOf .default64 false [1, 2, 3])
        (.ofBytes []) 0 (.zero _)).pushed = some [1, 2, 3] := by
  decide +kernel

end ColonyCore.Persistent
