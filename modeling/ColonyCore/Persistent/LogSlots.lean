/-
  ColonyCore.Persistent.LogSlots
  **THE INDEXED LOG, SLOT BY SLOT.**

  `Slots g m σ` says what every slot of the entry region holds: an entry (its
  index value and payload) or nothing that passes the CRC.  Each operation of
  the log is described once in these terms:

    • `readFromMedia_some` / `_none` — reading a slot,
    • `scanAllEntries_greatest`      — the scan finds the greatest index value,
    • `slots_write`                  — writing an entry changes its own slot only.
-/
import ColonyCore.Persistent.IndexedEntryRecord

namespace ColonyCore.Persistent

open ByteStore LittleEndian

variable {P : Platform} {g : Geometry P}

/-! ## §1. What a slot holds. -/

/-- The contents of the ring, slot by slot: index value and payload. -/
abbrev Ring : Type := Nat → Option (Nat × List Byte)

/-- The frame of an entry. -/
def entryFrame (P : Platform) (ts : Nat) (data : List Byte) : List Byte :=
  CrcChunk.frameOf P false (leBytes 8 ts ++ data)

/-- The entries of a build whose work buffer has room for a data field and its
CRC. -/
def EntriesFit (g : Geometry P) : Prop := g.dataSize + 4 ≤ P.workBufferSize

instance (g : Geometry P) : Decidable (EntriesFit g) := inferInstanceAs (Decidable (_ ≤ _))

/-- Slot `j` of the region bytes `s` holds the given entry, in a frame that can be
read back. -/
def SlotHolds (g : Geometry P) (s : List Byte) (j ts : Nat) (data : List Byte) : Prop :=
  EntriesFit g ∧ ts < 2 ^ 64 ∧ data.length = g.payloadSize
    ∧ slice s (j * g.entrySize) g.entrySize = entryFrame P ts data

/-- Slot `j` holds the given entry, under a nonzero index value, or fails the CRC. -/
def SlotIs (g : Geometry P) (s : List Byte) (j : Nat) : Option (Nat × List Byte) → Prop
  | none => CrcChunk.crcOkay P s (j * g.entrySize) = false
  | some (ts, data) => 0 < ts ∧ SlotHolds g s j ts data

/-- The entry region holds the ring `σ`. -/
def Slots (g : Geometry P) (s : List Byte) (σ : Ring) : Prop :=
  ∀ j, j < g.maxEntries → SlotIs g s j (σ j)

variable {data : List Byte}

theorem length_entryFrame {ts : Nat} (h : data.length = g.payloadSize) :
    (entryFrame P ts data).length = g.entrySize := by
  rw [entryFrame, length_frame, g.entrySize_eq, Geometry.dataSize]
  simp only [List.flatten_nil, List.length_nil, List.length_append, length_leBytes]
  omega

theorem Geometry.dataSize_lt (g : Geometry P) : g.dataSize + 4 < P.sizeMod := by
  have h1 := g.region_fits
  have h2 := g.region_size
  have h3 := g.entrySize_eq
  have h4 : g.entrySize ≤ g.regionLength := h1
  omega

variable {s : List Byte} {j : Nat}

theorem SlotHolds.crcOkay {ts : Nat} (h : SlotHolds g s j ts data) :
    CrcChunk.crcOkay P s (j * g.entrySize) = true := by
  obtain ⟨hfit, -, hlen, hslice⟩ := h
  have hdata : (leBytes 8 ts ++ data).length = g.dataSize := by
    rw [List.length_append, length_leBytes, hlen, Geometry.dataSize, Nat.add_comm]
  refine CrcChunk.crcOkay_frame (leBytes 8 ts ++ data) ?_ ?_ ?_
  · rw [show CrcChunk.frameOf P false (leBytes 8 ts ++ data) = entryFrame P ts data from rfl,
        length_entryFrame hlen]
    exact hslice
  · rw [hdata]
    exact hfit
  · rw [hdata]
    exact g.dataSize_lt

/-! ## §2. Reading a slot. -/

namespace Log

/-- What reading never changes: everything but the read position of the chunk,
the work buffer, the index value last read and the head. -/
structure Untouched (s s' : Log g) : Prop where
  media : s'.media = s.media
  indexRecord : s'.indexRecord = s.indexRecord
  mpIndex : s'.mpIndex = s.mpIndex
  region : s'.chunk.region = s.chunk.region
  offers : g.dataSize ≤ s.chunk.dataLen → g.dataSize ≤ s'.chunk.dataLen

theorem Untouched.refl (s : Log g) : Untouched s s := ⟨rfl, rfl, rfl, rfl, id⟩

variable {s : Log g}

theorem Untouched.trans {s' s'' : Log g} (h : Untouched s s') (h' : Untouched s' s'') :
    Untouched s s'' :=
  ⟨h'.media.trans h.media, h'.indexRecord.trans h.indexRecord, h'.mpIndex.trans h.mpIndex,
    h'.region.trans h.region, fun ho => h'.offers (h.offers ho)⟩

/-- The verdict of a payload handler. -/
def accepts (handler : Option Payload) (data : List Byte) : Bool :=
  match handler with
  | none => true
  | some dst => dst.putData data

/-- **Reading a slot that holds an entry.** -/
theorem readFromMedia_some {j ts : Nat} {data : List Byte} (hreg : s.chunk.region = .entries)
    (hslot : SlotHolds g (s.media .entries) j ts data) (handler : Option Payload) :
    ∃ s', s.readFromMedia handler (j * g.entrySize) = ⟨s', accepts handler data, data⟩
      ∧ Untouched s s' ∧ s'.entryTimestamp = ts
      ∧ s'.latestOffset = s.latestOffset ∧ s'.latestTimestamp = s.latestTimestamp := by
  obtain ⟨hfit, h64, hlen, hslice⟩ := hslot
  have hdata : (leBytes 8 ts ++ data).length = g.dataSize := by
    rw [List.length_append, length_leBytes, hlen, Geometry.dataSize, Nat.add_comm]
  have hframe : slice (s.media s.chunk.region) (j * g.entrySize)
      (CrcChunk.frameOf P false (leBytes 8 ts ++ data)).length
      = CrcChunk.frameOf P false (leBytes 8 ts ++ data) := by
    rw [hreg, show (CrcChunk.frameOf P false (leBytes 8 ts ++ data)).length = g.entrySize from
      length_entryFrame hlen]
    exact hslice
  obtain ⟨buf', hload⟩ := CrcChunk.loadData_frame (s.toPayload handler) s.buffer hframe
    (by rw [hdata]; exact hfit) (by rw [hdata]; exact g.dataSize_lt)
  have hhead : (leBytes 8 ts ++ data).take 8 = leBytes 8 ts := by
    rw [List.take_append_of_le_length (by rw [length_leBytes]),
        List.take_of_length_le (by rw [length_leBytes])]
  have htail : (leBytes 8 ts ++ data).drop 8 = data := by
    rw [List.drop_append_of_le_length (by rw [length_leBytes]),
        List.drop_eq_nil_of_le (by rw [length_leBytes]), List.nil_append]
  have hshort : ¬ (leBytes 8 ts ++ data).length < 8 := by
    rw [List.length_append, length_leBytes]
    omega
  have hts : ofLeBytes (leBytes 8 ts) = ts :=
    ofLeBytes_leBytes_of_lt _ _ (Nat.lt_of_lt_of_eq h64 (by norm_num))
  have hput : (s.toPayload handler).putData (leBytes 8 ts ++ data) = accepts handler data := by
    cases handler with
    | none => rfl
    | some dst => exact congrArg dst.putData htail
  refine ⟨{ s with chunk := ⟨s.chunk.region, (leBytes 8 ts ++ data).length⟩, buffer := buf',
                   entryTimestamp := ts }, ?_, ?_, rfl, rfl, rfl⟩
  · unfold readFromMedia
    simp [hload, hts, hput]
  · exact ⟨rfl, rfl, rfl, rfl, fun _ => Nat.le_of_eq hdata.symm⟩

/-- Reading a slot that fails the CRC. -/
theorem readFromMedia_none {j : Nat} (hreg : s.chunk.region = .entries)
    (hslot : SlotIs g (s.media .entries) j none) (handler : Option Payload) :
    ∃ s', s.readFromMedia handler (j * g.entrySize) = ⟨s', false, []⟩
      ∧ Untouched s s' ∧ s'.entryTimestamp = s.entryTimestamp
      ∧ s'.latestOffset = s.latestOffset ∧ s'.latestTimestamp = s.latestTimestamp := by
  have hcrc : CrcChunk.crcOkay P (s.media s.chunk.region) (j * g.entrySize) = false := by
    rw [hreg]
    exact hslot
  obtain ⟨buf', hload⟩ := CrcChunk.loadData_reject (s.toPayload handler) s.buffer hcrc
  refine ⟨{ s with buffer := buf' }, ?_, ⟨rfl, rfl, rfl, rfl, id⟩, rfl, rfl, rfl⟩
  unfold readFromMedia
  simp [hload]

end Log

/-! ## §3. The scan. -/

/-- `p` names the entry with the greatest index value among the first `n` slots;
(0, 0) when they hold none. -/
def Greatest (g : Geometry P) (σ : Ring) (n : Nat) (p : Nat × Nat) : Prop :=
  ((∀ j, j < n → σ j = none) ∧ p = (0, 0))
    ∨ ∃ j data, j < n ∧ σ j = some (p.2, data) ∧ p.1 = j * g.entrySize
        ∧ ∀ i ts d, i < n → σ i = some (ts, d) → ts ≤ p.2

namespace Log

variable {σ : Ring}

/-- One turn of the scan extends the range it has covered by one slot. -/
theorem scanEntry_greatest {s : Log g} {i : Nat} (hreg : s.chunk.region = .entries)
    (hslots : Slots g (s.media .entries) σ) (hi : i < g.maxEntries)
    (h : Greatest g σ i (s.latestOffset, s.latestTimestamp)) :
    Untouched s (s.scanEntry (i * g.entrySize))
      ∧ Greatest g σ (i + 1) ((s.scanEntry (i * g.entrySize)).latestOffset,
          (s.scanEntry (i * g.entrySize)).latestTimestamp) := by
  have hslot := hslots i hi
  unfold scanEntry
  cases hσ : σ i with
  | none =>
    rw [hσ] at hslot
    obtain ⟨s', hread, hun, -, ho, ht⟩ := readFromMedia_none hreg hslot Option.none
    rw [hread]
    simp only [Bool.false_eq_true, false_and, if_false]
    refine ⟨hun, ?_⟩
    rw [ho, ht]
    rcases h with ⟨hnone, hp⟩ | ⟨j, d, hj, hσj, hoff, hmax⟩
    · left
      refine ⟨?_, hp⟩
      intro j hj
      rcases Nat.lt_succ_iff_lt_or_eq.mp hj with hlt | rfl
      · exact hnone j hlt
      · exact hσ
    · right
      refine ⟨j, d, Nat.lt_succ_of_lt hj, hσj, hoff, ?_⟩
      intro k ts d' hk hσk
      rcases Nat.lt_succ_iff_lt_or_eq.mp hk with hlt | rfl
      · exact hmax k ts d' hlt hσk
      · rw [hσ] at hσk
        cases hσk
  | some e =>
    obtain ⟨ts, d⟩ := e
    rw [hσ] at hslot
    obtain ⟨s', hread, hun, hts, ho, ht⟩ := readFromMedia_some hreg hslot.2 Option.none
    rw [hread]
    simp only [accepts, true_and, hts]
    by_cases hnew : s.latestTimestamp < ts ∨ s.latestTimestamp = 0
    · -- the slot is newer than all before it
      rw [if_pos hnew]
      refine ⟨⟨hun.media, hun.indexRecord, hun.mpIndex, hun.region, hun.offers⟩, .inr ?_⟩
      refine ⟨i, d, Nat.lt_succ_self i, hσ, rfl, ?_⟩
      intro k ts' d' hk hσk
      show ts' ≤ ts
      rcases Nat.lt_succ_iff_lt_or_eq.mp hk with hlt | rfl
      · rcases h with ⟨hnone, -⟩ | ⟨j, dj, hj, hσj, -, hmax⟩
        · rw [hnone k hlt] at hσk
          cases hσk
        · have hle := hmax k ts' d' hlt hσk
          omega
      · rw [hσ] at hσk
        cases hσk
        exact Nat.le_refl ts
    · rw [if_neg hnew]
      refine ⟨hun, ?_⟩
      rw [ho, ht]
      rcases h with ⟨-, hp⟩ | ⟨j, dj, hj, hσj, hoff, hmax⟩
      · exact absurd (.inr (congrArg Prod.snd hp)) hnew
      · right
        refine ⟨j, dj, Nat.lt_succ_of_lt hj, hσj, hoff, ?_⟩
        intro k ts' d' hk hσk
        rcases Nat.lt_succ_iff_lt_or_eq.mp hk with hlt | rfl
        · exact hmax k ts' d' hlt hσk
        · rw [hσ] at hσk
          cases hσk
          omega

theorem scanFrom_greatest :
    ∀ (fuel i : Nat) (s : Log g), s.chunk.region = .entries → Slots g (s.media .entries) σ →
      i + fuel = g.maxEntries → Greatest g σ i (s.latestOffset, s.latestTimestamp) →
      Untouched s (scanFrom fuel i s)
        ∧ Greatest g σ g.maxEntries ((scanFrom fuel i s).latestOffset,
            (scanFrom fuel i s).latestTimestamp) := by
  intro fuel
  induction fuel with
  | zero =>
    intro i s _ _ hM h
    rw [Nat.add_zero] at hM
    rw [hM] at h
    exact ⟨Untouched.refl s, h⟩
  | succ fuel ih =>
    intro i s hreg hslots hM h
    obtain ⟨hun, hgr⟩ := scanEntry_greatest hreg hslots (by omega) h
    obtain ⟨hun', hgr'⟩ := ih (i + 1) (s.scanEntry (i * g.entrySize)) (hun.region.trans hreg)
      (by rw [hun.media]; exact hslots) (by omega) hgr
    exact ⟨hun.trans hun', hgr'⟩

/-- **The scan finds the entry with the greatest index value.** -/
theorem scanAllEntries_greatest {s : Log g} (hreg : s.chunk.region = .entries)
    (hslots : Slots g (s.media .entries) σ) :
    Untouched s s.scanAllEntries
      ∧ Greatest g σ g.maxEntries (s.scanAllEntries.latestOffset, s.scanAllEntries.latestTimestamp) := by
  have h := scanFrom_greatest g.maxEntries 0 { s with latestOffset := 0, latestTimestamp := 0 }
    hreg hslots (Nat.zero_add _) (.inl ⟨fun j hj => absurd hj (Nat.not_lt_zero j), rfl⟩)
  exact ⟨⟨h.1.media, h.1.indexRecord, h.1.mpIndex, h.1.region, h.1.offers⟩, h.2⟩

end Log

/-! ## §4. Writing a slot. -/

/-- A region that differs from `s` in slot `j` only, and in which no other slot
has come to pass the CRC. -/
theorem Slots.update {s' : List Byte} {σ : Ring} {e : Option (Nat × List Byte)} (h : Slots g s σ)
    (hj : SlotIs g s' j e)
    (hother : ∀ i, i < g.maxEntries → i ≠ j → slice s' (i * g.entrySize) g.entrySize
      = slice s (i * g.entrySize) g.entrySize)
    (hquiet : ∀ i, i < g.maxEntries → i ≠ j → σ i = none → CrcChunk.crcOkay P s' (i * g.entrySize)
      = false) :
    Slots g s' (Function.update σ j e) := by
  intro i hi
  by_cases hij : i = j
  · subst hij
    rw [Function.update_self]
    exact hj
  · rw [Function.update_of_ne hij]
    have hslot := h i hi
    cases hσ : σ i with
    | none => exact hquiet i hi hij hσ
    | some p =>
      rw [hσ] at hslot
      obtain ⟨hpos, hfit, h64, hlen, hslice⟩ := hslot
      exact ⟨hpos, hfit, h64, hlen, by rw [hother i hi hij]; exact hslice⟩

/-- Writing part of a frame into slot `j` leaves the bytes of the other slots. -/
theorem slice_other_slot {src : List Byte} {i : Nat} (hs : s.length = g.regionLength)
    (hj : j < g.maxEntries) (hij : i ≠ j) (hsrc : src.length ≤ g.entrySize) :
    slice (overlay s (j * g.entrySize) src) (i * g.entrySize) g.entrySize
      = slice s (i * g.entrySize) g.entrySize := by
  have hle := g.slot_le hj
  rcases g.slot_disjoint hij with h | h
  · exact slice_overlay_left _ _ _ _ _ (by omega) h
  · exact slice_overlay_right _ _ _ _ _ (by omega) (by omega)

/-- A complete write makes the slot hold its entry. -/
theorem slotIs_overlay {ts : Nat} (hfit : EntriesFit g) (hs : s.length = g.regionLength)
    (hj : j < g.maxEntries) (hpos : 0 < ts) (h64 : ts < 2 ^ 64)
    (hlen : data.length = g.payloadSize) :
    SlotIs g (overlay s (j * g.entrySize) (entryFrame P ts data)) j (some (ts, data)) := by
  have hle := g.slot_le hj
  have hframe : (entryFrame P ts data).length = g.entrySize := length_entryFrame hlen
  refine ⟨hpos, hfit, h64, hlen, ?_⟩
  have h := slice_overlay_self s (j * g.entrySize) (entryFrame P ts data) (by omega)
  rw [hframe] at h
  exact h

end ColonyCore.Persistent
