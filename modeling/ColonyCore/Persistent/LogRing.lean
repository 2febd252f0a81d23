/-
  ColonyCore.Persistent.LogRing
  **THE INDEXED LOG IS A RING OF ITS LAST `maxEntries` ENTRIES.**

  `History s ps` is how a log comes to hold the payloads `ps`: it was started on
  an entry region that holds nothing, or cleared, and each payload was appended
  by an `addEntry` that returned true; slots may be read in between.

    • `History.inv`            — the slots are those of the numbered ring,
    • `getPrevious_older`, `getPrevious_oldest`, `getNext_newer`, `getNext_latest` —
      one call on the ring,
    • `ringReads_iff`          — reading the log back, from either end, returns the
      retained payloads in order, exactly when a stored entry can be read at all.
-/
import Mathlib.Data.List.Induction
import ColonyCore.Lib.NumberedRing
import ColonyCore.Persistent.LogAppend

namespace ColonyCore.Persistent

open ByteStore LittleEndian Checksum.Crc32EthernetFast List

variable {P : Platform} {g : Geometry P}

/-! ## §1. Slots that hold nothing. -/

/-- The bytes of slot `j` fail the CRC whatever stands around them. -/
def Blank (g : Geometry P) (s : List Byte) (j : Nat) : Prop :=
  ∀ s' : List Byte, s'.length = g.regionLength →
    slice s' (j * g.entrySize) g.entrySize = slice s (j * g.entrySize) g.entrySize →
    CrcChunk.crcOkay P s' (j * g.entrySize) = false

variable {j : Nat}

theorem Blank.congr {s s' : List Byte} (h : Blank g s j)
    (hsame : slice s' (j * g.entrySize) g.entrySize = slice s (j * g.entrySize) g.entrySize) :
    Blank g s' j :=
  fun s'' hlen hs'' => h s'' hlen (hs''.trans hsame)

/-- An erased slot: its length field is larger than any work buffer. -/
theorem blank_erased {s : List Byte} (hj : j < g.maxEntries)
    (h : slice s (j * g.entrySize) g.entrySize = replicate g.entrySize 0xFF#8) :
    Blank g s j := by
  intro s' hlen hs'
  have hle := g.slot_le hj
  have hes := g.entrySize_eq
  have hfield : slice s' (j * g.entrySize) P.sizeofSizeT = replicate P.sizeofSizeT 0xFF#8 := by
    rw [slice_eq_take s' _ (show P.sizeofSizeT ≤ g.entrySize by omega), hs', h, take_replicate,
        Nat.min_eq_left (by omega)]
  have hones := ofLeBytes_replicate_ones P.sizeofSizeT
  unfold CrcChunk.crcOkay
  rw [readFrame_eq (fun _ : Unit => s') () _ reset _ _ (show _ ≤ s'.length by omega)
      (congrArg ofLeBytes hfield), if_neg]
  rintro ⟨hlt, -⟩
  unfold Platform.sizeMod at hlt
  omega

/-- A slot of zeros: an empty data field whose CRC is not zero. -/
theorem blank_zeros {s : List Byte} (hj : j < g.maxEntries)
    (h : slice s (j * g.entrySize) g.entrySize = replicate g.entrySize 0#8) : Blank g s j := by
  intro s' hlen hs'
  have hle := g.slot_le hj
  have hes := g.entrySize_eq
  have hslice : ∀ n, n ≤ g.entrySize → slice s' (j * g.entrySize) n = replicate n 0#8 := by
    intro n hn
    rw [slice_eq_take s' _ hn, hs', h, take_replicate, Nat.min_eq_left hn]
  have hfield : ofLeBytes (slice s' (j * g.entrySize) P.sizeofSizeT) = 0 := by
    rw [hslice _ (by omega), ofLeBytes_replicate_zero]
  unfold CrcChunk.crcOkay
  rw [readFrame_eq (fun _ : Unit => s') () _ reset _ 0 (show _ ≤ s'.length by omega) hfield]
  split
  · rw [if_pos (show _ ≤ s'.length by omega)]
    rw [hslice _ (by omega), isOkay_zeros]
  · rfl

/-! ## §2. Histories and what they leave in the slots. -/

/-- **How a log comes to hold the payloads `ps`**, numbered from 1: an empty or
cleared region, then one successful `addEntry` for each. -/
inductive History : Log g → List (List Byte) → Prop
  | started {s₀ s : Log g} : Virgin s₀ → (∀ j, j < g.maxEntries → Blank g (s₀.media .entries) j) →
      s₀.start = some s → History s []
  | cleared {s s' : Log g} {fates index1 index2 : List Fate} : Live s →
      s.clearAllEntries fates index1 index2 = some (s', true) → History s' []
  | added {s s' : Log g} {ps : List (List Byte)} {e : Entry g} {fates : Log.AddFates} : History s ps →
      s.addEntry (.ofBytes e.bytes) fates = some (s', true) → History s' (ps ++ [e.bytes])
  | read {s : Log g} {ps : List (List Byte)} {j : Nat} {dst : Payload} : History s ps → j < g.maxEntries →
      History (s.getByOffset dst (j * g.entrySize)).1 ps

/-- The bytes of slot `j`: blank, or the frame of item number `k`.  Index values
have 64 bits. -/
def SlotBytes (g : Geometry P) (s : List Byte) (j : Nat) : Option (Nat × List Byte) → Prop
  | none => Blank g s j
  | some (k, p) => p.length = g.payloadSize
      ∧ slice s (j * g.entrySize) g.entrySize = entryFrame P (k % 2 ^ 64) p

/-- **The invariant of a history**: the slots are those of the numbered ring, and
the head is the slot of the last item. -/
structure RingInv (s : Log g) (ps : List (List Byte)) (σ : Ring) : Prop where
  live : Live s
  holds : NumberedRing.Holds g.maxEntries ps σ
  offset : s.latestOffset = (ps.length % g.maxEntries) * g.entrySize
  timestamp : s.latestTimestamp = ps.length % 2 ^ 64
  slots : ∀ j, j < g.maxEntries → SlotBytes g (s.media .entries) j (σ j)

theorem Geometry.nextSlot_mod (g : Geometry P) (k : Nat) :
    g.nextSlot (k % g.maxEntries) = (k + 1) % g.maxEntries := by
  have hlt := Nat.mod_lt k g.maxEntries_pos
  rw [← Nat.mod_add_mod k g.maxEntries 1]
  unfold nextSlot
  split
  next h => rw [Nat.mod_eq_of_lt h]
  next h => rw [show k % g.maxEntries + 1 = g.maxEntries by omega, Nat.mod_self]

theorem Geometry.prevSlot_mod (g : Geometry P) (k : Nat) :
    g.prevSlot ((k + 1) % g.maxEntries) = k % g.maxEntries := by
  rw [← g.nextSlot_mod]
  have hlt := Nat.mod_lt k g.maxEntries_pos
  unfold prevSlot nextSlot
  split
  · split
    · omega
    · omega
  · split
    · omega
    · omega

variable {s : Log g}

/-- An empty ring. -/
theorem RingInv.nil (h : Live s) (hoff : s.latestOffset = 0) (hts : s.latestTimestamp = 0)
    (hblank : ∀ j, j < g.maxEntries → Blank g (s.media .entries) j) :
    RingInv s [] (fun _ => none) :=
  ⟨h, .nil, by rw [hoff, length_nil, Nat.zero_mod, Nat.zero_mul],
    by rw [hts, length_nil, Nat.zero_mod], hblank⟩

variable {ps : List (List Byte)} {σ : Ring}

/-- **One successful `addEntry`** puts one more item into the ring. -/
theorem RingInv.added {s' : Log g} (h : RingInv s ps σ) {e : Entry g} {fates : Log.AddFates}
    (hadd : s.addEntry (.ofBytes e.bytes) fates = some (s', true)) :
    RingInv s' (ps ++ [e.bytes])
      (Function.update σ ((ps.length + 1) % g.maxEntries) (some (ps.length + 1, e.bytes))) := by
  rcases addEntry_cases h.live hadd with ⟨-, hno, -⟩ | ⟨-, -, -, hap⟩
  · cases hno
  have hlt := Nat.mod_lt ps.length g.maxEntries_pos
  have htarget : s.targetSlot = (ps.length + 1) % g.maxEntries := by
    rw [(Log.targetSlot_eq hlt h.offset).1, g.nextSlot_mod]
  have hts : s.nextTimestamp = (ps.length + 1) % 2 ^ 64 := by
    unfold Log.nextTimestamp
    rw [h.timestamp, Nat.mod_add_mod]
  have hlen : (ps ++ [e.bytes]).length = ps.length + 1 := by
    rw [length_append, length_singleton]
  refine ⟨hap.live, h.holds.push g.maxEntries_pos e.bytes, ?_, ?_, ?_⟩
  · rw [hap.offset, htarget, hlen]
  · rw [hap.timestamp, hts, hlen]
  · intro j hj
    by_cases hjt : j = (ps.length + 1) % g.maxEntries
    · -- the target slot holds the new frame
      subst hjt
      rw [Function.update_self]
      refine ⟨e.size, ?_⟩
      have hframe : (entryFrame P s.nextTimestamp e.bytes).length = g.entrySize := length_entryFrame e.size
      have hle := g.slot_le hj
      have hself := slice_overlay_self (s.media .entries) (s.targetSlot * g.entrySize)
        (entryFrame P s.nextTimestamp e.bytes) (by rw [hframe, h.live.shape.length, htarget]; exact hle)
      rw [hframe, ← hap.written rfl, htarget, hts] at hself
      exact hself
    · rw [Function.update_of_ne hjt]
      have hsame := hap.others j hj (by rw [htarget]; exact hjt)
      have hslot := h.slots j hj
      cases hσ : σ j with
      | none =>
        rw [hσ] at hslot
        exact Blank.congr hslot hsame
      | some q =>
        rw [hσ] at hslot
        exact ⟨hslot.1, hsame.trans hslot.2⟩

/-! ## §3. Reading one slot. -/

/-- A read that leaves the head where it was keeps the invariant. -/
theorem RingInv.untouched {s' : Log g} (h : RingInv s ps σ)
    (hun : Log.Untouched s s') (ho : s'.latestOffset = s.latestOffset)
    (ht : s'.latestTimestamp = s.latestTimestamp) : RingInv s' ps σ := by
  have hlive := h.live
  refine ⟨⟨⟨hun.region.trans hlive.shape.region, ?_, ?_, ?_⟩, ?_, hun.offers hlive.offers, ?_⟩, h.holds,
    ho.trans h.offset, ht.trans h.timestamp, ?_⟩
  · rw [hun.indexRecord]; exact hlive.shape.regionA
  · rw [hun.indexRecord]; exact hlive.shape.regionB
  · rw [hun.media]; exact hlive.shape.length
  · rw [hun.indexRecord, hun.media]; exact hlive.index
  · rw [ho]; exact hlive.head
  · rw [hun.media]; exact h.slots

/-- A slot that holds no item, or any slot of a build whose work buffer is too
small, reads as "no entry". -/
theorem RingInv.getByOffset_refused (h : RingInv s ps σ)
    (hj : j < g.maxEntries) (hno : σ j = none ∨ ¬ EntriesFit g) (dst : Payload) :
    ∃ s', s.getByOffset dst (j * g.entrySize) = (s', none) ∧ RingInv s' ps σ := by
  have hslot := h.slots j hj
  have hcrc : CrcChunk.crcOkay P (s.media .entries) (j * g.entrySize) = false := by
    cases hσ : σ j with
    | none =>
      rw [hσ] at hslot
      exact hslot _ h.live.shape.length rfl
    | some q =>
      rw [hσ] at hslot hno
      have hbig : ¬ EntriesFit g := hno.resolve_left (by simp)
      have hdata : (leBytes 8 (q.1 % 2 ^ 64) ++ q.2).length = g.dataSize := by
        rw [length_append, length_leBytes, hslot.1, Geometry.dataSize, Nat.add_comm]
      refine CrcChunk.crcOkay_oversize false (leBytes 8 (q.1 % 2 ^ 64) ++ q.2) ?_ ?_ ?_
      · rw [show CrcChunk.frameOf P false (leBytes 8 (q.1 % 2 ^ 64) ++ q.2)
          = entryFrame P (q.1 % 2 ^ 64) q.2 from rfl, length_entryFrame hslot.1]
        exact hslot.2
      · rw [hdata]
        exact g.dataSize_lt
      · rw [hdata]
        exact Nat.lt_of_not_le hbig
  obtain ⟨s', hread, hun, -, ho, ht⟩ := Log.readFromMedia_none h.live.shape.region hcrc (some dst)
  refine ⟨s', ?_, h.untouched hun ho ht⟩
  unfold Log.getByOffset
  rw [hread]
  rfl

variable {p : List Byte}

/-- **A slot that holds an item** hands it over with the low 64 bits of its number. -/
theorem RingInv.getByOffset_item (h : RingInv s ps σ) (hfit : EntriesFit g) {k : Nat}
    (hj : j < g.maxEntries) (hσ : σ j = some (k, p)) (dst : Payload) :
    ∃ s', s.getByOffset dst (j * g.entrySize)
        = (s', if dst.putData p then some (p, ⟨k % 2 ^ 64, j * g.entrySize⟩) else none)
      ∧ RingInv s' ps σ := by
  have hslot := h.slots j hj
  rw [hσ] at hslot
  have hholds : SlotHolds g (s.media .entries) j (k % 2 ^ 64) p :=
    ⟨hfit, Nat.mod_lt _ (by norm_num), hslot.1, hslot.2⟩
  obtain ⟨s', hread, hun, hts, ho, ht⟩ := Log.readFromMedia_some h.live.shape.region hholds (some dst)
  refine ⟨s', ?_, h.untouched hun ho ht⟩
  unfold Log.getByOffset
  rw [hread]
  simp [Log.accepts, hts]

/-- **Every history keeps the ring.** -/
theorem History.inv (h : History s ps) : ∃ σ, RingInv s ps σ := by
  induction h with
  | @started s₀ s hvirgin hblank hstart =>
    obtain ⟨s', hstart', hrun, hentries, -⟩ := start_virgin hvirgin
    obtain rfl : s' = s := Option.some.inj (hstart'.symm.trans hstart)
    -- no slot holds an entry, so the head is (0, 0)
    have hhead : (s'.latestOffset, s'.latestTimestamp) = (0, 0) := by
      rcases hrun.greatest with ⟨-, hp⟩ | ⟨j, d, -, hσ, -⟩
      · exact hp
      · cases hσ
    exact ⟨_, .nil hrun.live (congrArg Prod.fst hhead) (congrArg Prod.snd hhead)
      (by rw [hentries]; exact hblank)⟩
  | cleared hlive hclear =>
    obtain ⟨hlive', hoff, hts, hzero⟩ := clearAllEntries_cases hlive hclear
    refine ⟨_, .nil hlive' hoff hts ?_⟩
    intro j hj
    refine blank_zeros hj ?_
    have hle := g.slot_le hj
    rw [hzero, slice, drop_replicate, take_replicate, Nat.min_eq_left (by omega)]
  | added _ hadd ih =>
    obtain ⟨σ, hinv⟩ := ih
    exact ⟨_, hinv.added hadd⟩
  | @read s ps j dst _ hj ih =>
    obtain ⟨σ, hinv⟩ := ih
    refine ⟨σ, ?_⟩
    by_cases hfit : EntriesFit g
    · cases hσ : σ j with
      | none =>
        obtain ⟨s', hread, hinv'⟩ := hinv.getByOffset_refused hj (.inl hσ) dst
        rw [hread]
        exact hinv'
      | some q =>
        obtain ⟨s', hread, hinv'⟩ := hinv.getByOffset_item hfit hj hσ dst
        rw [hread]
        exact hinv'
    · obtain ⟨s', hread, hinv'⟩ := hinv.getByOffset_refused hj (.inr hfit) dst
      rw [hread]
      exact hinv'

/-! ## §4. Walking the ring. -/

/-- Slots whose items are all unwanted are passed over. -/
theorem RingInv.search_none (next : Nat → Nat) (wanted : Nat → Bool)
    (hfit : EntriesFit g) (dst : Payload)
    (hnext : ∀ j, j < g.maxEntries → ∃ j', j' < g.maxEntries ∧ next (j * g.entrySize)
      = j' * g.entrySize)
    (hno : ∀ j k p, j < g.maxEntries → σ j = some (k, p) → wanted (k % 2 ^ 64) = false)
      (fuel : Nat) :
    ∀ (j : Nat) (s : Log g), RingInv s ps σ → j < g.maxEntries →
      ∃ s', Log.search next wanted dst fuel (j * g.entrySize) s = (s', none) ∧ RingInv s' ps σ := by
  induction fuel with
  | zero =>
    intro j s h _
    exact ⟨s, rfl, h⟩
  | succ fuel ih =>
    intro j s h hj
    obtain ⟨j', hj', hstep⟩ := hnext j hj
    unfold Log.search
    cases hσ : σ j with
    | none =>
      obtain ⟨s', hread, hinv⟩ := h.getByOffset_refused hj (.inl hσ) dst
      rw [hread, hstep]
      exact ih j' s' hinv hj'
    | some q =>
      obtain ⟨k, p⟩ := q
      obtain ⟨s', hread, hinv⟩ := h.getByOffset_item hfit hj hσ dst
      rw [hread, hstep]
      by_cases hput : dst.putData p = true
      · simp only [hput, if_true, hno j k p hj hσ]
        exact ih j' s' hinv hj'
      · rw [if_neg hput]
        exact ih j' s' hinv hj'

variable {dst : Payload}

/-- The marker of item number `k`. -/
def markerOf (g : Geometry P) (k : Nat) : EntryMarker := ⟨k, (k % g.maxEntries) * g.entrySize⟩

section Neighbours

variable {s : Log g} {σ : Ring} {k : Nat} (h : RingInv s ps σ) (dst : Payload)
  (hfit : EntriesFit g)

include h hfit

/-- A retained item that is wanted, in the first slot looked at, is the answer. -/
theorem search_kept (next : Nat → Nat) (wanted : Nat → Bool) (h64 : ps.length < 2 ^ 64)
    {p : List Byte} (hget : ps[k]? = some p) (hput : dst.putData p = true)
    (hk : ps.length ≤ k + g.maxEntries) (hmany : 1 < g.maxEntries) (hwant : wanted (k + 1) = true) :
    ∃ s', Log.search next wanted dst (g.maxEntries - 1) ((k + 1) % g.maxEntries * g.entrySize) s
        = (s', some (p, markerOf g (k + 1))) ∧ RingInv s' ps σ := by
  have hlen := (List.getElem?_eq_some_iff.mp hget).1
  obtain ⟨s', hread, hinv⟩ := h.getByOffset_item hfit (Nat.mod_lt _ g.maxEntries_pos)
    (h.holds.kept k p hget hk) dst
  refine ⟨s', ?_, hinv⟩
  obtain ⟨fuel, hfuel⟩ : ∃ fuel, g.maxEntries - 1 = fuel + 1 := ⟨g.maxEntries - 2, by omega⟩
  rw [hfuel, Log.search, hread, hput, Nat.mod_eq_of_lt (show k + 1 < 2 ^ 64 by omega)]
  simp only [if_true, hwant, markerOf]

/-- The next retained item. -/
theorem getNext_newer (h64 : ps.length < 2 ^ 64) {p : List Byte} (hget : ps[k]? = some p)
    (hput : dst.putData p = true) (hk : ps.length - g.maxEntries + 1 ≤ k) :
    ∃ s', s.getNext k (markerOf g k) dst = (s', some (p, markerOf g (k + 1))) ∧ RingInv s' ps σ := by
  have hlen := (List.getElem?_eq_some_iff.mp hget).1
  unfold Log.getNext markerOf
  rw [g.incrementOffset_slot (Nat.mod_lt _ g.maxEntries_pos), g.nextSlot_mod]
  exact search_kept h dst hfit _ _ h64 hget hput (by omega) (by omega)
    (decide_eq_true (Nat.lt_succ_self k))

/-- After the latest item there is none. -/
theorem getNext_latest :
    ∃ s', s.getNext ps.length (markerOf g ps.length) dst = (s', none) ∧ RingInv s' ps σ := by
  unfold Log.getNext markerOf
  rw [g.incrementOffset_slot (Nat.mod_lt _ g.maxEntries_pos)]
  refine RingInv.search_none g.incrementOffset _ hfit dst
    (fun j hj => ⟨_, g.nextSlot_lt j, g.incrementOffset_slot hj⟩) (fun j k p hj hσ => ?_)
    (g.maxEntries - 1) _ s h (g.nextSlot_lt (ps.length % g.maxEntries))
  have hb := (h.holds.bounds hj hσ).2
  exact decide_eq_false (by omega)

/-- The previous retained item. -/
theorem getPrevious_older (h64 : ps.length < 2 ^ 64) {p : List Byte} (hget : ps[k]? = some p)
    (hput : dst.putData p = true) (hk : ps.length ≤ k + g.maxEntries) (hlast : k + 1 < ps.length) :
    ∃ s', s.getPrevious (k + 2) (markerOf g (k + 2)) dst = (s', some (p, markerOf g (k + 1)))
      ∧ RingInv s' ps σ := by
  unfold Log.getPrevious markerOf
  rw [g.decrementOffset_slot (Nat.mod_lt _ g.maxEntries_pos), g.prevSlot_mod]
  exact search_kept h dst hfit _ _ h64 hget hput hk (by omega) (decide_eq_true (Nat.lt_succ_self _))

/-- Before the oldest retained item there is none. -/
theorem getPrevious_oldest (h64 : ps.length < 2 ^ 64) (hk : k = ps.length - g.maxEntries + 1) :
    ∃ s', s.getPrevious k (markerOf g k) dst = (s', none) ∧ RingInv s' ps σ := by
  unfold Log.getPrevious markerOf
  rw [g.decrementOffset_slot (Nat.mod_lt _ g.maxEntries_pos)]
  refine RingInv.search_none g.decrementOffset _ hfit dst
    (fun j hj => ⟨_, g.prevSlot_lt hj, g.decrementOffset_slot hj⟩) (fun j i p hj hσ => ?_)
    (g.maxEntries - 1) _ s h (g.prevSlot_lt (Nat.mod_lt k g.maxEntries_pos))
  have hb := h.holds.bounds hj hσ
  exact decide_eq_false (by omega)

end Neighbours

/-- Repeated calls, each with the marker the last one returned, until one returns
false; `none` when `fuel` calls have not ended the walk. -/
def Log.walk (call : Log g → EntryMarker → Log g × Option (List Byte × EntryMarker)) :
    Nat → Log g → EntryMarker → Log g × Option (List (List Byte × EntryMarker))
  | 0, s, _ => (s, none)
  | fuel + 1, s, marker =>
    match call s marker with
    | (s', none) => (s', some [])
    | (s', some r) => ((walk call fuel s' r.2).1, (walk call fuel s' r.2).2.map (r :: ·))

/-- Repeated `getPrevious`. -/
def Log.walkPrevious (dst : Payload) :
    Nat → Log g → EntryMarker → Log g × Option (List (List Byte × EntryMarker)) :=
  Log.walk fun s marker => s.getPrevious marker.indexValue marker dst

/-- Repeated `getNext`. -/
def Log.walkNext (dst : Payload) :
    Nat → Log g → EntryMarker → Log g × Option (List (List Byte × EntryMarker)) :=
  Log.walk fun s marker => s.getNext marker.indexValue marker dst

/-- What a caller learns from a successful call: payload and index value. -/
def seen (r : List Byte × EntryMarker) : List Byte × Nat := (r.1, r.2.indexValue)

section Walks

variable {σ : Ring}

variable (hfit : EntriesFit g) (h64 : ps.length < 2 ^ 64) (hput : ∀ p ∈ ps, dst.putData p = true)

include hfit h64 hput

/-- **Walking forward** from item `k` returns the newer ones, oldest first. -/
theorem walkNext_newer (d : Nat) :
    ∀ (k fuel : Nat) (s : Log g), RingInv s ps σ → ps.length - g.maxEntries + 1 ≤ k →
      ps.length = k + d → d < fuel →
      ∃ s' rs, Log.walkNext dst fuel s (markerOf g k) = (s', some rs)
        ∧ rs.map seen = NumberedRing.newer ps k := by
  induction d with
  | zero =>
    intro k fuel s h _ hlen hfuel
    obtain ⟨fuel, rfl⟩ := Nat.exists_eq_succ_of_ne_zero (Nat.ne_of_gt hfuel)
    obtain rfl : k = ps.length := by omega
    obtain ⟨s', hcall, -⟩ := getNext_latest h dst hfit
    refine ⟨s', [], ?_, (NumberedRing.newer_length ps).symm⟩
    unfold Log.walkNext Log.walk
    rw [show (markerOf g ps.length).indexValue = ps.length from rfl, hcall]
  | succ d ih =>
    intro k fuel s h hk hlen hfuel
    obtain ⟨fuel, rfl⟩ := Nat.exists_eq_succ_of_ne_zero (Nat.ne_of_gt (Nat.zero_lt_of_lt hfuel))
    obtain ⟨p, hget⟩ : ∃ p, ps[k]? = some p := ⟨_, getElem?_eq_getElem (by omega)⟩
    obtain ⟨s1, hcall, hinv⟩ := getNext_newer h dst hfit h64 hget (hput p (mem_of_getElem? hget)) hk
    obtain ⟨s2, rs, hwalk, hseen⟩ := ih (k + 1) fuel s1 hinv (by omega) (by omega) (by omega)
    refine ⟨s2, (p, markerOf g (k + 1)) :: rs, ?_, ?_⟩
    · unfold Log.walkNext Log.walk
      rw [show (markerOf g k).indexValue = k from rfl, hcall]
      rw [Log.walkNext] at hwalk
      simp [hwalk]
    · rw [map_cons, hseen, NumberedRing.newer_step hget]
      rfl

/-- **Walking back** from item `k` returns the older retained ones, newest first,
and ends at the oldest. -/
theorem walkPrevious_older {po : List Byte} (hpo : ps[ps.length - g.maxEntries]? = some po)
    (d : Nat) :
    ∀ (pk : List Byte) (fuel : Nat) (s : Log g), RingInv s ps σ →
      ps[ps.length - g.maxEntries + d]? = some pk → d < fuel →
      ∃ s' rs, Log.walkPrevious dst fuel s (markerOf g (ps.length - g.maxEntries + d + 1)) = (s', some rs)
        ∧ rs.map seen = NumberedRing.older g.maxEntries ps (ps.length - g.maxEntries + d + 1)
        ∧ rs.getLastD (pk, markerOf g (ps.length - g.maxEntries + d + 1))
          = (po, markerOf g (ps.length - g.maxEntries + 1))
        ∧ RingInv s' ps σ := by
  induction d with
  | zero =>
    intro pk fuel s h hpk hfuel
    obtain ⟨fuel, rfl⟩ := Nat.exists_eq_succ_of_ne_zero (Nat.ne_of_gt hfuel)
    obtain ⟨s', hcall, hinv⟩ := getPrevious_oldest h dst hfit h64 rfl
    obtain rfl : pk = po := Option.some.inj (hpk.symm.trans hpo)
    refine ⟨s', [], ?_, (NumberedRing.older_oldest _ _).symm, rfl, hinv⟩
    unfold Log.walkPrevious Log.walk
    rw [show (markerOf g (ps.length - g.maxEntries + 1)).indexValue
      = ps.length - g.maxEntries + 1 from rfl, hcall]
  | succ d ih =>
    intro pk fuel s h hpk hfuel
    obtain ⟨fuel, rfl⟩ := Nat.exists_eq_succ_of_ne_zero (Nat.ne_of_gt (Nat.zero_lt_of_lt hfuel))
    have hlen := (List.getElem?_eq_some_iff.mp hpk).1
    obtain ⟨p, hget⟩ : ∃ p, ps[ps.length - g.maxEntries + d]? = some p :=
      ⟨_, getElem?_eq_getElem (by omega)⟩
    obtain ⟨s1, hcall, hinv⟩ := getPrevious_older h dst hfit h64 hget
      (hput p (mem_of_getElem? hget)) (by omega) (by omega)
    obtain ⟨s2, rs, hwalk, hseen, hlast, hinv'⟩ := ih _ fuel s1 hinv hget (by omega)
    refine ⟨s2, (p, markerOf g (ps.length - g.maxEntries + d + 1)) :: rs, ?_, ?_, ?_, hinv'⟩
    · unfold Log.walkPrevious Log.walk
      rw [show (markerOf g (ps.length - g.maxEntries + (d + 1) + 1)).indexValue
        = ps.length - g.maxEntries + d + 2 from rfl,
        show ps.length - g.maxEntries + (d + 1) + 1 = ps.length - g.maxEntries + d + 2 from rfl, hcall]
      rw [Log.walkPrevious] at hwalk
      simp [hwalk]
    · have hstep : NumberedRing.older g.maxEntries ps (ps.length - g.maxEntries + d + 1 + 1)
          = (p, ps.length - g.maxEntries + d + 1)
            :: NumberedRing.older g.maxEntries ps (ps.length - g.maxEntries + d + 1) :=
        NumberedRing.older_step (by omega) (by rw [Nat.add_sub_cancel]; exact hget)
      rw [map_cons, hseen]
      exact hstep.symm
    · rw [getLastD_cons]
      exact hlast

end Walks

/-! ## §5. Histories exist. -/

/-- A log object as constructed, over the given media. -/
def Log.create (g : Geometry P) (m : Region → List Byte) : Log g where
  chunk := ⟨.entries, 0⟩
  indexRecord := ⟨⟨.indexA, .indexB, by decide, 0, none, 0⟩, 0, 0, false⟩
  entryTimestamp := 0
  latestOffset := 0
  latestTimestamp := 0
  mpIndex := 0
  media := m
  buffer := WorkBuffer.zero P

/-- Erased media: all ones. -/
def erased (g : Geometry P) : Region → List Byte
  | .entries => replicate g.regionLength 0xFF#8
  | _ => replicate g.indexLength 0xFF#8

theorem erased_blank (g : Geometry P) (hj : j < g.maxEntries) : Blank g (erased g .entries) j := by
  have hle := g.slot_le hj
  refine blank_erased hj ?_
  rw [erased, slice, drop_replicate, take_replicate, Nat.min_eq_left (by omega)]

/-- An erased index region is refused. -/
theorem peek_erased (n : Nat) : (MirroredChunk.peek P (replicate n 0xFF#8) 0).transId = 0 := by
  unfold MirroredChunk.peek
  split
  · split
    next hlen =>
      have hones := ofLeBytes_replicate_ones P.sizeofSizeT
      have hfield : slice (replicate n 0xFF#8) (0 + 8) P.sizeofSizeT
          = replicate P.sizeofSizeT 0xFF#8 := by
        rw [length_replicate] at hlen
        rw [slice, drop_replicate, take_replicate, Nat.min_eq_left (by omega)]
      simp only [hfield]
      rw [if_neg]
      rintro ⟨hlt, -⟩
      unfold Platform.sizeMod at hlt
      omega
    next => rfl
  · rfl

theorem erased_virgin (g : Geometry P) : Virgin (Log.create g (erased g)) := by
  refine ⟨⟨rfl, rfl, rfl, length_replicate⟩, length_replicate, length_replicate, ?_, ?_, ?_⟩
  · rw [MirroredChunk.acceptedId_eq]
    exact peek_erased _
  · rw [MirroredChunk.acceptedId_eq]
    exact peek_erased _
  · intro j hj
    exact erased_blank g hj _ length_replicate rfl

/-- **Every sequence of payloads has a history**, on erased media and without
failed writes. -/
theorem exists_history (g : Geometry P) (hbuf : g.dataSize ≤ P.workBufferSize)
    (es : List (Entry g)) : ∃ s : Log g, History s (es.map Entry.bytes) := by
  induction es using reverseRecOn with
  | nil =>
    obtain ⟨s, hstart, -⟩ := start_virgin (erased_virgin g)
    exact ⟨s, .started (erased_virgin g) (fun j hj => erased_blank g hj) hstart⟩
  | append_singleton es e ih =>
    obtain ⟨s, h⟩ := ih
    obtain ⟨σ, hinv⟩ := h.inv
    obtain ⟨s', stored, hadd, hok⟩ := addEntry_total hinv.live hbuf e .none
    rw [hok rfl] at hadd
    rw [map_append]
    exact ⟨s', h.added hadd⟩

/-! ## §6. Ring semantics. -/

/-- **The log reads as a ring**: `getLatest` and then `getPrevious` to the end
return the retained payloads newest first, each with its number as index value;
`getNext` from the oldest of them returns them oldest first. -/
def RingReads (s : Log g) (dst : Payload) (ps : List (List Byte)) : Prop :=
  ∃ s1 latest s2 older s3 newer,
    s.getLatest dst = (s1, some latest)
    ∧ Log.walkPrevious dst g.maxEntries s1 latest.2 = (s2, some older)
    ∧ (latest :: older).map seen = (NumberedRing.retained g.maxEntries ps).reverse
    ∧ Log.walkNext dst g.maxEntries s2 (older.getLastD latest).2 = (s3, some newer)
    ∧ (older.getLastD latest :: newer).map seen = NumberedRing.retained g.maxEntries ps

/-- The latest item, when stored entries can be read. -/
theorem RingInv.getLatest (h : RingInv s ps σ) (hfit : EntriesFit g)
    (hlast : ps[ps.length - 1]? = some p) (hput : dst.putData p = true) :
    ∃ s', s.getLatest dst
        = (s', some (p, ⟨ps.length % 2 ^ 64, (ps.length % g.maxEntries) * g.entrySize⟩))
      ∧ RingInv s' ps σ := by
  have hpos := (List.getElem?_eq_some_iff.mp hlast).1
  have hM := g.maxEntries_pos
  have hσ := h.holds.kept _ p hlast (by omega)
  rw [Nat.sub_add_cancel (by omega)] at hσ
  obtain ⟨s', hread, hinv⟩ := h.getByOffset_item hfit (Nat.mod_lt _ hM) hσ dst
  refine ⟨s', ?_, hinv⟩
  unfold Log.getLatest
  rw [h.offset, hread, if_pos hput]

/-- A build whose work buffer is too small finds no latest entry. -/
theorem RingInv.getLatest_oversize (h : RingInv s ps σ)
    (hbig : ¬ EntriesFit g) (dst : Payload) : (s.getLatest dst).2 = none := by
  obtain ⟨s', hread, -⟩ :=
    h.getByOffset_refused (Nat.mod_lt ps.length g.maxEntries_pos) (.inr hbig) dst
  unfold Log.getLatest
  rw [h.offset, hread]

/-- Reading back a ring whose entries can be read. -/
theorem RingInv.reads (h : RingInv s ps σ) (hne : ps ≠ []) (hfit : EntriesFit g)
    (h64 : ps.length < 2 ^ 64) (hput : ∀ p ∈ ps, dst.putData p = true) : RingReads s dst ps := by
  have hpos : 0 < ps.length := length_pos_of_ne_nil hne
  have hM := g.maxEntries_pos
  obtain ⟨pn, hpn⟩ : ∃ p, ps[ps.length - 1]? = some p := ⟨_, getElem?_eq_getElem (by omega)⟩
  obtain ⟨po, hpo⟩ : ∃ p, ps[ps.length - g.maxEntries]? = some p := ⟨_, getElem?_eq_getElem (by omega)⟩
  obtain ⟨s1, hlatest, hinv1⟩ := h.getLatest hfit hpn (hput pn (mem_of_getElem? hpn))
  rw [Nat.mod_eq_of_lt h64] at hlatest
  -- `d` items lie between the oldest retained one and the latest
  obtain ⟨d, hd⟩ : ∃ d, ps.length - 1 = ps.length - g.maxEntries + d :=
    Nat.exists_eq_add_of_le (by omega)
  have hlast : ps.length - g.maxEntries + d + 1 = ps.length := by omega
  obtain ⟨s2, older, hback, holder, hold, hinv2⟩ := walkPrevious_older hfit h64 hput hpo d pn g.maxEntries s1
    hinv1 (by rw [← hd]; exact hpn) (by omega)
  rw [hlast] at hback holder hold
  obtain ⟨s3, newer, hforth, hnewer⟩ := walkNext_newer hfit h64 hput d
    (ps.length - g.maxEntries + 1) g.maxEntries s2 hinv2 (Nat.le_refl _) (by omega) (by omega)
  refine ⟨s1, (pn, markerOf g ps.length), s2, older, s3, newer, hlatest, hback, ?_, ?_, ?_⟩
  · rw [map_cons, holder, NumberedRing.retained_eq_concat hM hpn]
    rfl
  · rw [hold]
    exact hforth
  · rw [hold, map_cons, hnewer, NumberedRing.retained_eq_cons hpo]
    rfl

/-- **Ring semantics of the indexed log.**  After any number `n ≥ 1` of successful
`addEntry` calls since the region was empty or cleared, reading the log back
returns the last `maxEntries` payloads with their numbers, from either end, EXACTLY
when the work buffer has room for an entry and its CRC and `n` fits 64 bits. -/
theorem ringReads_iff {s : Log g} {ps : List (List Byte)} (h : History s ps) (hne : ps ≠ [])
    {dst : Payload} (hput : ∀ p ∈ ps, dst.putData p = true) :
    RingReads s dst ps ↔ EntriesFit g ∧ ps.length < 2 ^ 64 := by
  obtain ⟨σ, hinv⟩ := h.inv
  constructor
  · rintro ⟨s1, latest, -, older, -, -, hlatest, -, hseen, -⟩
    have hfit : EntriesFit g := by
      by_contra hbig
      have hnone := hinv.getLatest_oversize hbig dst
      rw [hlatest] at hnone
      cases hnone
    refine ⟨hfit, ?_⟩
    -- the index value of the latest entry is `n` modulo 2⁶⁴, and has to be `n`
    have hpos : 0 < ps.length := length_pos_of_ne_nil hne
    obtain ⟨p, hp⟩ : ∃ p, ps[ps.length - 1]? = some p := ⟨_, getElem?_eq_getElem (by omega)⟩
    obtain ⟨s', hlatest', -⟩ := hinv.getLatest hfit hp (hput p (mem_of_getElem? hp))
    rw [hlatest', Prod.mk.injEq, Option.some.injEq] at hlatest
    rw [NumberedRing.retained_eq_concat g.maxEntries_pos hp, map_cons, cons.injEq,
        ← hlatest.2] at hseen
    have hmod : ps.length % 2 ^ 64 = ps.length := congrArg Prod.snd hseen.1
    rw [← hmod]
    exact Nat.mod_lt _ (by omega)
  · rintro ⟨hfit, h64⟩
    exact hinv.reads hne hfit h64 hput

/-- A ring of two one-byte entries. -/
def twoSlots : Geometry .default64 where
  payloadSize := 1
  payload_pos := Nat.one_pos
  regionLength := 42
  indexLength := 36
  region_fits := by decide
  region_size := by decide
  index_fits := by decide
  index_size := by decide
  index_buffer := by decide

/-- Three entries in a ring of two. -/
theorem ringReads_twoSlots : ∃ s : Log twoSlots,
    History s [[1], [2], [3]] ∧ RingReads s (.ofBytes []) [[1], [2], [3]] := by
  obtain ⟨s, h⟩ := exists_history twoSlots (by decide) [⟨[1], rfl⟩, ⟨[2], rfl⟩, ⟨[3], rfl⟩]
  exact ⟨s, h, (ringReads_iff h (by simp) (fun _ _ => rfl)).mpr ⟨by decide, by decide⟩⟩

/-- Entries of 1013 bytes: with their index value they fit the default work buffer,
with the CRC they do not. -/
def wideSlots : Geometry .default64 where
  payloadSize := 1013
  payload_pos := by decide
  regionLength := 2066
  indexLength := 36
  region_fits := by decide
  region_size := by decide
  index_fits := by decide
  index_size := by decide
  index_buffer := by decide

/-- **A stored entry that no read finds**: `addEntry` returned true, and `getLatest`
returns false. -/
theorem ring_unreadable : ∃ s : Log wideSlots, History s [replicate 1013 7#8]
    ∧ (s.getLatest (.ofBytes [])).2 = none ∧ ¬ RingReads s (.ofBytes []) [replicate 1013 7#8] := by
  obtain ⟨s, h⟩ := exists_history wideSlots (by decide)
    [⟨replicate 1013 7#8, length_replicate⟩]
  obtain ⟨σ, hinv⟩ := h.inv
  have hnone := hinv.getLatest_oversize (show ¬ EntriesFit wideSlots by decide) (.ofBytes [])
  refine ⟨s, h, hnone, ?_⟩
  rintro ⟨s1, latest, -, -, -, -, hlatest, -⟩
  rw [hlatest] at hnone
  cases hnone

end ColonyCore.Persistent
