/-
  ColonyCore.Persistent.PowerFail
  **A POWER CUT INSIDE `MirroredChunk::updateData`.**

  A history is any sequence of `start` / `loadData` / `updateData` calls on two
  regions that hold no accepted frame at first.  The last update of the history
  is cut after `k` bytes of its region writes, and a fresh `start` + `loadData`
  follows.  Torn frames are assumed to fail the CRC and nothing else is.

    • `inv_run`          — what the media and the chunk hold after any history:
      region A has the newest frame, region B the one before, with the SAME data,
    • `handed_torn`      — with A newest and B torn, the record is handed A's
      data overwritten by the torn bytes of B,
    • `powerCut_recovers_iff` — the load hands over the last completed or the
      interrupted update EXACTLY WHEN nothing had completed before, or region B
      already held what was left unwritten of the first mirror, or the mixed
      bytes happen to be one of the two.
-/
import ColonyCore.Persistent.MirroredChunk

namespace ColonyCore.Persistent.MirroredChunk

open ByteStore LittleEndian List Option

variable {P : Platform} {ρ : Type}

/-! ## §1. Histories. -/

/-- The calls of a history. -/
inductive Call where
  | start
  | loadData (dst : Payload)
  | updateData (src : Payload)

/-- A chunk on its media; `completed` remembers the bytes of the last update
that returned true. -/
structure System (P : Platform) (ρ : Type) where
  chunk : MirroredChunk ρ
  media : ρ → List Byte
  buffer : WorkBuffer P
  completed : Option (List Byte)

section Runs

variable [DecidableEq ρ]

/-- One call; `none` is a failed assertion. -/
def step (P : Platform) (s : System P ρ) : Call → Option (System P ρ)
  | .start => (s.chunk.start s.media).map fun c => { s with chunk := c }
  | .loadData dst =>
    (s.chunk.loadData P s.media dst 0 s.buffer).map fun l =>
      { s with chunk := l.chunk, buffer := l.buffer }
  | .updateData src =>
    (s.chunk.updateData P s.media src 0 false [] []).map fun u =>
      { chunk := u.chunk, media := u.media, buffer := u.buffer,
        completed := if u.result then some (src.getData s.chunk.dataLen) else s.completed }

/-- A history of calls. -/
def run (P : Platform) : System P ρ → List Call → Option (System P ρ)
  | s, [] => some s
  | s, c :: cs => (step P s c).bind fun s' => run P s' cs

/-- The media after the update from `src` is cut by a power failure at byte `k`. -/
def cutMedia (P : Platform) (s : System P ρ) (src : Payload) (k : Nat) : ρ → List Byte :=
  storeCut s.media (issuedWrites P s.chunk src 0) k

/-- The media had the update run to its end. -/
def fullMedia (P : Platform) (s : System P ρ) (src : Payload) : ρ → List Byte :=
  storeAll s.media (issuedWrites P s.chunk src 0)

end Runs

/-- The id region `r` is accepted with; 0 when it is refused. -/
def acceptedId (P : Platform) (m : ρ → List Byte) (r : ρ) : Nat :=
  (getTransactionId P (read m r) 0 (.zero P)).transId

/-- **The one assumption about the CRC**: a mirror that is neither as it was
before the update nor as the update would have left it is refused. -/
def TornFramesFail (P : Platform) (c : MirroredChunk ρ) (before after torn : ρ → List Byte) : Prop :=
  ∀ r, (r = c.regionA ∨ r = c.regionB) → torn r ≠ before r → torn r ≠ after r →
    acceptedId P torn r = 0

/-- A fresh `start` + `loadData` hands over exactly `completed` or exactly
`interrupted` (nothing only if nothing had completed), and returns true if
anything had completed. -/
def Recovers (P : Platform) (c : MirroredChunk ρ) (m : ρ → List Byte) (dst : Payload)
    (buf : WorkBuffer P) (completed : Option (List Byte)) (interrupted : List Byte) : Prop :=
  ∃ c' l, c.start m = some c' ∧ c'.loadData P m dst 0 buf = some l
    ∧ (l.pushed = completed ∨ l.pushed = some interrupted)
    ∧ (completed.isSome → l.result = true)

/-! ## §2. What a history leaves. -/

/-- The region starts with the frame of `data` under `id`. -/
def Holds (P : Platform) (s : List Byte) (id : Nat) (data : List Byte) : Prop :=
  slice s 0 (frameOf P false id data).length = frameOf P false id data

/-- The media after some completed updates: `t` is the id of the newest frame. -/
def Stored (P : Platform) (c : MirroredChunk ρ) (m : ρ → List Byte) (t : Nat) :
    Option (List Byte) → Prop
  | none => t = 0 ∧ acceptedId P m c.regionA = 0 ∧ acceptedId P m c.regionB = 0
  | some q => 0 < q.length ∧ q.length + 4 ≤ P.workBufferSize ∧ 2 ≤ t ∧ t < 2 ^ 64
      ∧ Holds P (m c.regionA) t q ∧ Holds P (m c.regionB) (t - 1) q

/-- The length the record is offered by the next update. -/
def offered (P : Platform) (length : Nat) : Option (List Byte) → Nat
  | none => length - FRAME_OVERHEAD P
  | some q => q.length

/-- The invariant of a history, with `t` the id of the newest frame. -/
structure Inv (P : Platform) (s : System P ρ) (t : Nat) : Prop where
  lengths : (s.media s.chunk.regionA).length = (s.media s.chunk.regionB).length
  size : (s.media s.chunk.regionA).length < P.sizeMod
  stored : Stored P s.chunk s.media t s.completed
  loaded : ∀ r, s.chunk.currentRegion = some r →
    r = s.chunk.regionA ∧ FRAME_OVERHEAD P ≤ (s.media s.chunk.regionA).length
      ∧ s.chunk.transId = t
      ∧ s.chunk.dataLen = offered P (s.media s.chunk.regionA).length s.completed

theorem acceptedId_eq (m : ρ → List Byte) (r : ρ) :
    acceptedId P m r = (peek P (m r) 0).transId := by
  rw [acceptedId, getTransactionId_eq]

variable {s : List Byte} {id : Nat}

theorem Holds.length_le {data : List Byte} (h : Holds P s id data) :
    FRAME_OVERHEAD P + data.length ≤ s.length := by
  have hle := length_le_of_slice_eq h
  rw [length_frameOf] at hle
  have hover := FRAME_OVERHEAD_eq P
  omega

/-- Writing a frame makes the region hold it. -/
theorem holds_overlay (id : Nat) (data : List Byte)
    (h : FRAME_OVERHEAD P + data.length ≤ s.length) :
    Holds P (overlay s 0 (frameOf P false id data)) id data :=
  slice_overlay_self s 0 _ (by rw [length_frameOf]; omega)

/-- A held frame whose length passes the guard is accepted. -/
theorem Holds.peek {data : List Byte} (h : Holds P s id data)
    (hfit : data.length + 4 ≤ P.workBufferSize) (hsize : s.length < P.sizeMod) (hid : id < 2 ^ 64) :
    peek P s 0 = ⟨id, data.length, data ++ crcOf P id data⟩ := by
  have hle := h.length_le
  have hover := FRAME_OVERHEAD_eq P
  exact peek_frame h hfit (by omega) hid

variable {t : Nat}

/-- The record never writes more than the regions have room for. -/
theorem Inv.room {s : System P ρ} (hi : Inv P s t) {r : ρ} (hr : s.chunk.currentRegion = some r)
    (src : Payload) :
    FRAME_OVERHEAD P + (src.getData s.chunk.dataLen).length ≤ (s.media s.chunk.regionA).length := by
  obtain ⟨-, hover, -, hlen⟩ := hi.loaded r hr
  have hle := src.getData_le s.chunk.dataLen
  have hstored := hi.stored
  cases hq : s.completed with
  | none =>
    rw [hq] at hlen
    change s.chunk.dataLen = _ - _ at hlen
    omega
  | some q =>
    rw [hq] at hlen hstored
    change s.chunk.dataLen = q.length at hlen
    have hA := hstored.2.2.2.2.1.length_le
    omega

/-! ## §3. Every call keeps the invariant. -/

section Preservation

variable [DecidableEq ρ] {s s' : System P ρ} {t : Nat}

theorem inv_start (h : step P s .start = some s') (hi : Inv P s t) : Inv P s' t := by
  obtain ⟨c, hc, rfl⟩ := map_eq_some_iff.mp h
  unfold start at hc
  split at hc
  next =>
    cases hc
    -- the chunk forgets what it loaded; the media stay
    exact ⟨hi.lengths, hi.size, hi.stored, by intro r hr; cases hr⟩
  next => cases hc

/-- A load finds region A newest, or nothing. -/
theorem inv_loadData {dst : Payload} (h : step P s (.loadData dst) = some s') (hi : Inv P s t) :
    Inv P s' t := by
  obtain ⟨l, hl, rfl⟩ := map_eq_some_iff.mp h
  have hstored := hi.stored
  cases hq : s.completed with
  | none =>
    rw [hq] at hstored
    obtain ⟨ht, hA, hB⟩ := hstored
    have hA' := hA
    have hB' := hB
    rw [acceptedId_eq] at hA' hB'
    by_cases hover : FRAME_OVERHEAD P ≤ (s.media s.chunk.regionA).length
    · obtain ⟨buf', heq⟩ := loadData_neither dst s.buffer hA' hB' hover hi.size
      rw [heq] at hl
      cases hl
      refine ⟨hi.lengths, hi.size, ⟨ht, hA, hB⟩, ?_⟩
      intro r hr
      cases hr
      exact ⟨rfl, hover, ht.symm, rfl⟩
    · rw [loadData_short dst s.buffer hA' hB' (by omega) (by
        have := P.sizeofSizeT_add_lt
        rw [FRAME_OVERHEAD_eq]
        omega)] at hl
      cases hl
  | some q =>
    rw [hq] at hstored
    obtain ⟨hpos, hfit, h2, h64, hA, hB⟩ := hstored
    have hpA := hA.peek hfit hi.size h64
    have hpB := hB.peek hfit (by rw [← hi.lengths]; exact hi.size) (by omega)
    have hle := hA.length_le
    obtain ⟨buf', heq⟩ := loadData_regionA dst s.buffer hpA
      (by rw [hpB]; show t - 1 < t; omega) (by omega)
    rw [heq] at hl
    cases hl
    refine ⟨hi.lengths, hi.size, ⟨hpos, hfit, h2, h64, hA, hB⟩, ?_⟩
    intro r hr
    cases hr
    exact ⟨rfl, Nat.le_trans (Nat.le_add_right _ _) hle, rfl, rfl⟩

variable {src : Payload}

section

variable {r : ρ} {data : List Byte} (hi : Inv P s t) (hr : s.chunk.currentRegion = some r)
  (hdata : src.getData s.chunk.dataLen = data) (hne : 0 < data.length)

include hi hr hdata hne

/-- An update from a loaded chunk: region B, then region A. -/
theorem Inv.written (h64 : t + 2 < 2 ^ 64) :
    Written P data.length s.chunk s.media t data (issuedWrites P s.chunk src 0) s.chunk.regionB
      s.chunk.regionA := by
  obtain ⟨rfl, -, ht, -⟩ := hi.loaded r hr
  have hroom := hi.room hr src
  rw [hdata] at hroom
  have hw := MirroredChunk.written (N := data.length) hr (.inl rfl) ht hdata hne h64 hroom
    (by rw [← hi.lengths]; exact hroom)
  rw [otherRegion_regionA] at hw
  exact hw

/-- A complete update, field by field. -/
theorem Inv.step_updateData (hfit : data.length + 4 ≤ P.workBufferSize) (h64 : t + 2 < 2 ^ 64) :
    ∃ m' buf', step P s (.updateData src)
        = some ⟨{ s.chunk with dataLen := data.length, transId := t + 2 }, m', buf', some data⟩
      ∧ (∀ r', (m' r').length = (s.media r').length)
      ∧ Holds P (m' s.chunk.regionA) (t + 2) data ∧ Holds P (m' s.chunk.regionB) (t + 1) data := by
  obtain ⟨hrA, -, ht, -⟩ := hi.loaded r hr
  have hw := hi.written hr hdata hne h64
  obtain ⟨buf', heq⟩ := updateData_done hr (.inl hrA) ht hdata hne h64 hw.room₂ hw.room₁ (by omega)
  refine ⟨fullMedia P s src, buf', ?_, fun r' => length_storeAll s.media _ r', ?_, ?_⟩
  · rw [step, heq, ← hdata]
    rfl
  · rw [fullMedia, hw.full₂]
    exact holds_overlay (t + 2) data hw.room₂
  · rw [fullMedia, hw.full₁]
    exact holds_overlay (t + 1) data hw.room₁

end

theorem inv_updateData (h : step P s (.updateData src) = some s') (hi : Inv P s t)
    (hfit : ∀ n, (src.getData n).length + 4 ≤ P.workBufferSize) (h64 : t + 2 < 2 ^ 64) :
    ∃ t', t' ≤ t + 2 ∧ Inv P s' t' := by
  cases hr : s.chunk.currentRegion with
  | none => simp [step, updateData, hr] at h
  | some r =>
    have hfits := hfit s.chunk.dataLen
    by_cases hne : (src.getData s.chunk.dataLen).length = 0
    · -- the record refused: the call returns false before it writes
      simp only [step, updateData, hr] at h
      rw [if_neg (by omega), if_pos hne] at h
      cases h
      exact ⟨t, by omega, hi.lengths, hi.size, hi.stored, hi.loaded⟩
    · obtain ⟨m', buf', heq, hlen, hA, hB⟩ := hi.step_updateData hr rfl (by omega) hfits h64
      rw [heq] at h
      cases h
      obtain ⟨hrA, hover, -, -⟩ := hi.loaded r hr
      refine ⟨t + 2, le_rfl, ?_, ?_, ?_, ?_⟩
      · exact (hlen _).trans (hi.lengths.trans (hlen _).symm)
      · exact Nat.lt_of_le_of_lt (Nat.le_of_eq (hlen _)) hi.size
      · exact ⟨by omega, hfits, by omega, h64, hA, hB⟩
      · intro r' hr'
        cases hr.symm.trans hr'
        exact ⟨hrA, Nat.le_trans hover (Nat.le_of_eq (hlen _).symm), rfl, rfl⟩

/-- The payloads of a history leave room for the CRC in the work buffer. -/
def PayloadsFit (P : Platform) (calls : List Call) : Prop :=
  ∀ src, Call.updateData src ∈ calls → ∀ n, (src.getData n).length + 4 ≤ P.workBufferSize

/-- **The invariant of a whole history**, by induction over its calls; each call
uses up at most two transaction ids. -/
theorem inv_run (calls : List Call) :
    ∀ (s s' : System P ρ) (t : Nat), run P s calls = some s' → Inv P s t →
      PayloadsFit P calls → t + 2 * calls.length < 2 ^ 64 →
      ∃ t', t' ≤ t + 2 * calls.length ∧ Inv P s' t' := by
  induction calls with
  | nil =>
    intro s s' t h hi _ _
    cases h
    exact ⟨t, by simp, hi⟩
  | cons c cs ih =>
    intro s s' t h hi hfit h64
    rw [length_cons] at h64
    obtain ⟨s1, h1, h2⟩ := bind_eq_some_iff.mp h
    have hstep : ∃ t1, t1 ≤ t + 2 ∧ Inv P s1 t1 := by
      cases c with
      | start => exact ⟨t, by omega, inv_start h1 hi⟩
      | loadData dst => exact ⟨t, by omega, inv_loadData h1 hi⟩
      | updateData src => exact inv_updateData h1 hi (hfit src mem_cons_self) (by omega)
    obtain ⟨t1, ht1, hi1⟩ := hstep
    obtain ⟨t', ht', hi'⟩ := ih s1 s' t1 h2 hi1
      (fun src hsrc => hfit src (mem_cons_of_mem _ hsrc)) (by omega)
    exact ⟨t', by rw [length_cons]; omega, hi'⟩

end Preservation

/-! ## §4. A torn mirror in region B. -/

/-- The data of region B when the frame of `p` was written over that of `q` up
to byte `k`, cut to `q`'s length: `p`'s bytes (and its CRC) as far as the write
came, `q`'s after that. -/
def tornData (P : Platform) (id : Nat) (q p : List Byte) (k : Nat) : List Byte :=
  overlay q 0 (((p ++ crcOf P id p).take (k - (8 + P.sizeofSizeT))).take q.length)

/-- The bytes of a frame after its header. -/
theorem getElem?_frameOf (id : Nat) (p : List Byte) (i : Nat) :
    (frameOf P false id p)[8 + P.sizeofSizeT + i]? = (p ++ crcOf P id p)[i]? := by
  have hhead : (leBytes sizeofUint64 id ++ leBytes P.sizeofSizeT p.length).length
      = 8 + P.sizeofSizeT := by
    rw [length_append, length_leBytes, length_leBytes]
  have hsplit : frameOf P false id p
      = (leBytes sizeofUint64 id ++ leBytes P.sizeofSizeT p.length) ++ (p ++ crcOf P id p) := by
    rw [frameOf, frame_eq, crcOf]
    simp
  rw [hsplit, getElem?_append_right (by omega)]
  congr 1
  omega

variable {q : List Byte} {i : Nat}

theorem Holds.getElem?_data (h : Holds P s id q)
    (hi : i < q.length) : s[8 + P.sizeofSizeT + i]? = q[i]? := by
  have hover := FRAME_OVERHEAD_eq P
  have hbyte : (slice s 0 (frameOf P false id q).length)[8 + P.sizeofSizeT + i]?
      = (frameOf P false id q)[8 + P.sizeofSizeT + i]? := by
    rw [h]
  rw [getElem?_slice, if_pos (by rw [length_frameOf]; omega), Nat.zero_add, getElem?_frameOf,
      getElem?_append_left hi] at hbyte
  exact hbyte

theorem getElem?_tornData (id : Nat) (q p : List Byte) (k : Nat) (hi : i < q.length) :
    (tornData P id q p k)[i]?
      = if i < k - (8 + P.sizeofSizeT) ∧ i < p.length + 4 then (p ++ crcOf P id p)[i]? else q[i]? := by
  unfold tornData
  rw [getElem?_overlay _ _ _ (by simp only [length_take]; omega)]
  simp only [length_take, length_append, length_crcOf, getElem?_take]
  by_cases hk : i < k - (8 + P.sizeofSizeT) ∧ i < p.length + 4
  · rw [if_pos (by omega), if_pos hk, if_pos (by omega), if_pos (by omega), Nat.sub_zero]
  · rw [if_neg (by omega), if_neg hk]

variable {id0 : Nat}

theorem length_take_frameOf (id : Nat) (p : List Byte) (k : Nat) :
    ((frameOf P false id p).take k).length = min k (FRAME_OVERHEAD P + p.length) := by
  rw [length_take, length_frameOf]

/-- The cells of region B after the torn write. -/
theorem Holds.getElem?_torn {p : List Byte}
    (h : Holds P s id0 q) (hpq : p.length ≤ q.length) (k : Nat) (hi : i < q.length) :
    (overlay s 0 ((frameOf P false id p).take k))[8 + P.sizeofSizeT + i]?
      = (tornData P id q p k)[i]? := by
  have hle := h.length_le
  have hover := FRAME_OVERHEAD_eq P
  have hlen := length_take_frameOf (P := P) id p k
  rw [getElem?_overlay _ _ _ (by rw [hlen]; omega), getElem?_tornData id q p k hi]
  by_cases hk : i < k - (8 + P.sizeofSizeT) ∧ i < p.length + 4
  · rw [if_pos hk, if_pos (by omega), getElem?_take, if_pos (by omega), Nat.sub_zero,
        getElem?_frameOf]
  · rw [if_neg hk, if_neg (by omega), h.getElem?_data hi]

/-- The length field of a frame. -/
theorem slice_frameOf_length (id : Nat) (p : List Byte) :
    slice (frameOf P false id p) 8 P.sizeofSizeT = leBytes P.sizeofSizeT p.length := by
  have hself : slice (frameOf P false id p) 0 (frameOf P false id p).length = frameOf P false id p := by
    rw [slice, drop_zero, take_length]
  have hfield := (slices_of_frame hself).2.1
  simpa using hfield

/-- Once the cut is past the header, region B announces `p`'s length. -/
theorem Holds.length_got_torn {p : List Byte} (h : Holds P s id0 q) (id : Nat)
    (hpq : p.length ≤ q.length) {k : Nat} (hk : 8 + P.sizeofSizeT < k)
    (hfit : p.length + 4 ≤ P.workBufferSize) (hsize : s.length < P.sizeMod) :
    (MirroredChunk.peek P (overlay s 0 ((frameOf P false id p).take k)) 0).got.length
      = p.length + 4 := by
  have hle := h.length_le
  have hover := FRAME_OVERHEAD_eq P
  have hlen := length_take_frameOf (P := P) id p k
  have hroom : 0 + ((frameOf P false id p).take k).length ≤ s.length := by rw [hlen]; omega
  have htake : slice ((frameOf P false id p).take k) 8 P.sizeofSizeT
      = slice (frameOf P false id p) 8 P.sizeofSizeT := by
    conv_rhs => rw [← take_append_drop k (frameOf P false id p)]
    exact (slice_append_left _ _ 8 P.sizeofSizeT (by rw [hlen]; omega)).symm
  refine length_got ?_ hfit (by omega) ?_
  · rw [slice_overlay_inside _ _ _ 8 P.sizeofSizeT hroom (by rw [hlen]; omega), htake,
        slice_frameOf_length]
  · rw [length_overlay _ _ _ hroom]
    omega

/-- **With region A newest and region B torn, the record is handed the torn
bytes of B.** -/
theorem handed_torn {p : List Byte} (h : Holds P s id0 q) (hpq : p.length ≤ q.length) (k : Nat)
    (hfit : p.length + 4 ≤ P.workBufferSize) (hsize : s.length < P.sizeMod) :
    overlay q 0 ((peek P (overlay s 0 ((frameOf P false id p).take k)) 0).got.take q.length)
      = tornData P id q p k := by
  have htorn : (tornData P id q p k).length = q.length :=
    length_overlay _ _ _ (by simp only [length_take]; omega)
  generalize hg : (peek P (overlay s 0 ((frameOf P false id p).take k)) 0).got = g
  apply ext_getElem?
  intro i
  rw [getElem?_overlay _ _ _ (by simp only [length_take]; omega), length_take,
      getElem?_take]
  by_cases hi : i < q.length
  · by_cases hgi : i < g.length
    · rw [if_pos (by omega), if_pos (by omega), Nat.sub_zero, ← hg,
          getElem?_got (by rw [hg]; exact hgi), h.getElem?_torn hpq k hi]
    · -- not reached by the read of B: the cut cannot have reached it either
      rw [if_neg (by omega), getElem?_tornData id q p k hi]
      by_cases hk : 8 + P.sizeofSizeT < k
      · have hlen := h.length_got_torn id hpq hk hfit hsize
        rw [hg] at hlen
        rw [if_neg (by omega)]
      · rw [if_neg (by omega)]
  · rw [if_neg (by omega), getElem?_eq_none (by omega), getElem?_eq_none (by omega)]

/-! ## §5. Recovery after the cut. -/

/-- A chunk that was just started. -/
def fresh (c : MirroredChunk ρ) : MirroredChunk ρ :=
  { c with transId := 0, currentRegion := none, dataLen := 0 }

/-- Recovery is decided by the one load that follows the restart. -/
theorem recovers_iff {c : MirroredChunk ρ} {m : ρ → List Byte} {dst : Payload} {buf : WorkBuffer P}
    {completed : Option (List Byte)} {interrupted : List Byte} {l : Loaded P (MirroredChunk ρ)}
    (hlen : (m c.regionA).length = (m c.regionB).length)
    (hload : loadData P (fresh c) m dst 0 buf = some l) :
    Recovers P c m dst buf completed interrupted
      ↔ (l.pushed = completed ∨ l.pushed = some interrupted)
        ∧ (completed.isSome → l.result = true) := by
  have hstart : c.start m = some (fresh c) := if_pos hlen
  constructor
  · rintro ⟨c', l', hc, hl, h⟩
    cases hstart.symm.trans hc
    cases hload.symm.trans hl
    exact h
  · intro h
    exact ⟨fresh c, l, hstart, hload, h⟩

section Decided

variable {c : MirroredChunk ρ} {m : ρ → List Byte} {dst : Payload} {buf : WorkBuffer P}
  {completed : Option (List Byte)} {q crc : List Byte} {id : Nat}
  (hlen : (m c.regionA).length = (m c.regionB).length) (hdst : ∀ bs, dst.putData bs = true)

include hlen hdst

/-- Region A is the newer one: what is handed over is decided by the bytes of B. -/
theorem recovers_regionA {interrupted : List Byte}
    (hA : peek P (m c.regionA) 0 = ⟨id, q.length, q ++ crc⟩)
    (hB : (peek P (m c.regionB) 0).transId < id) (hq : q.length ≤ (m c.regionA).length) :
    Recovers P c m dst buf completed interrupted
      ↔ some (overlay q 0 ((peek P (m c.regionB) 0).got.take q.length)) = completed
        ∨ overlay q 0 ((peek P (m c.regionB) 0).got.take q.length) = interrupted := by
  obtain ⟨buf', hload⟩ := loadData_regionA dst buf hA hB hq
  rw [recovers_iff hlen hload, some.injEq]
  exact and_iff_left fun _ => hdst _

theorem recovers_regionB (hB : peek P (m c.regionB) 0 = ⟨id, q.length, q ++ crc⟩) (hid : 0 < id)
    (hA : (peek P (m c.regionA) 0).transId ≤ id) (hq : q.length ≤ (m c.regionB).length) :
    Recovers P c m dst buf completed q := by
  obtain ⟨buf', hload⟩ := loadData_regionB dst buf hB hid hA hq
  exact (recovers_iff hlen hload).mpr ⟨.inr rfl, fun _ => hdst q⟩

end Decided

/-- A mirror that is not complete is accepted as before, or not at all. -/
theorem TornFramesFail.transId_le {c : MirroredChunk ρ} {before after torn : ρ → List Byte} {r : ρ}
    (htorn : TornFramesFail P c before after torn) (hside : r = c.regionA ∨ r = c.regionB)
    (hnot : torn r ≠ after r) {n : Nat} (hle : acceptedId P before r ≤ n) :
    (peek P (torn r) 0).transId ≤ n := by
  rw [acceptedId_eq] at hle
  by_cases hbefore : torn r = before r
  · rw [hbefore]
    exact hle
  · rw [← acceptedId_eq, htorn r hside hbefore hnot]
    exact Nat.zero_le n

/-- Before the update region A is accepted under the newest id, region B under
an older one (or neither is accepted). -/
theorem Inv.accepted {s : System P ρ} (hi : Inv P s t) :
    acceptedId P s.media s.chunk.regionA = t ∧ acceptedId P s.media s.chunk.regionB ≤ t - 1 := by
  have hstored := hi.stored
  cases hq : s.completed with
  | none =>
    rw [hq] at hstored
    obtain ⟨ht, hA, hB⟩ := hstored
    exact ⟨hA.trans ht.symm, by omega⟩
  | some q =>
    rw [hq] at hstored
    obtain ⟨-, hfit, h2, h64, hA, hB⟩ := hstored
    rw [acceptedId_eq, acceptedId_eq, hA.peek hfit hi.size h64,
        hB.peek hfit (by rw [← hi.lengths]; exact hi.size) (by omega)]
    exact ⟨rfl, le_rfl⟩

section Cut

variable [DecidableEq ρ]

/-- **When the cut is harmless**: nothing had completed before, or region B
already held what the cut left unwritten of the first mirror, or the mix of the
two payloads is one of them. -/
def SafeCut (P : Platform) (s : System P ρ) (src : Payload) (k : Nat) : Prop :=
  match s.completed with
  | none => True
  | some q =>
    let data := src.getData s.chunk.dataLen
    let id := nextTransId s.chunk.transId
    let first := frameOf P false id data
    slice (s.media s.chunk.regionB) k (first.length - k) = first.drop k
      ∨ tornData P id q data k = q ∨ tornData P id q data k = data

variable {s : System P ρ} {t : Nat} {src : Payload} {data : List Byte} {r : ρ} {k : Nat}

theorem length_cutMedia (s : System P ρ) (src : Payload) (k : Nat) (r : ρ) :
    (cutMedia P s src k r).length = (s.media r).length := length_storeCut _ _ _ _

section Recovery

variable (hi : Inv P s t) (hr : s.chunk.currentRegion = some r)
  (hdata : src.getData s.chunk.dataLen = data) (hne : 0 < data.length)
  (hfit : data.length + 4 ≤ P.workBufferSize) (h64 : t + 2 < 2 ^ 64)
  (htorn : TornFramesFail P s.chunk s.media (fullMedia P s src) (cutMedia P s src k))
  (dst : Payload) (hdst : ∀ bs, dst.putData bs = true) (buf : WorkBuffer P)

include hi hr hdata hne hfit h64 htorn hdst

/-- A whole first mirror saves the interrupted update, whatever becomes of the
second. -/
theorem Inv.recovers_of_mirror
    (hB : cutMedia P s src k s.chunk.regionB = fullMedia P s src s.chunk.regionB) :
    Recovers P s.chunk (cutMedia P s src k) dst buf s.completed data := by
  have hw := hi.written hr hdata hne h64
  have hroom := hw.room₂
  have hlen := length_cutMedia s src k
  have hlens := ((hlen _).trans hi.lengths).trans (hlen _).symm
  have hpB : peek P (cutMedia P s src k s.chunk.regionB) 0
      = ⟨t + 1, data.length, data ++ crcOf P (t + 1) data⟩ := by
    refine Holds.peek ?_ hfit (by rw [hlen, ← hi.lengths]; exact hi.size) (by omega)
    rw [hB, fullMedia, hw.full₁]
    exact holds_overlay (t + 1) data hw.room₁
  by_cases hA : cutMedia P s src k s.chunk.regionA = fullMedia P s src s.chunk.regionA
  · -- both mirrors are complete: A is newer and B holds the same data
    have hpA : peek P (cutMedia P s src k s.chunk.regionA) 0
        = ⟨t + 2, data.length, data ++ crcOf P (t + 2) data⟩ := by
      refine Holds.peek ?_ hfit (by rw [hlen]; exact hi.size) (by omega)
      rw [hA, fullMedia, hw.full₂]
      exact holds_overlay (t + 2) data hroom
    rw [recovers_regionA hlens hdst hpA (by rw [hpB]; exact Nat.lt_succ_self _)
      (by rw [hlen]; omega), hpB]
    exact .inr (by simp [overlay])
  · have hidA := htorn.transId_le (.inl rfl) hA (show _ ≤ t + 1 by rw [hi.accepted.1]; omega)
    exact recovers_regionB hlens hdst hpB (by omega) hidA (by rw [← hlens, hlen]; omega)

/-- A torn first mirror: the load is decided by the bytes of region B. -/
theorem Inv.recovers_torn_iff
    (hB : cutMedia P s src k s.chunk.regionB ≠ fullMedia P s src s.chunk.regionB) :
    Recovers P s.chunk (cutMedia P s src k) dst buf s.completed data
      ↔ ∀ q, s.completed = some q →
          tornData P (t + 1) q data k = q ∨ tornData P (t + 1) q data k = data := by
  have hw := hi.written hr hdata hne h64
  have hcutB : cutMedia P s src k s.chunk.regionB = _ := hw.cut₁ k
  have hcutA : cutMedia P s src k s.chunk.regionA = _ := hw.cut₂ k
  obtain ⟨-, hover, -, hoff⟩ := hi.loaded r hr
  -- the cut fell inside the first mirror, so region A is untouched
  have hk : k < FRAME_OVERHEAD P + data.length := by
    by_contra hge
    rw [tornFrame, take_of_length_le (by rw [length_frameOf]; omega)] at hcutB
    exact hB (hcutB.trans hw.full₁.symm)
  rw [Nat.sub_eq_zero_of_le (by omega), tornFrame, take_zero, overlay_nil] at hcutA
  have hlen := length_cutMedia s src k
  have hlens := ((hlen _).trans hi.lengths).trans (hlen _).symm
  have hidB := htorn.transId_le (.inr rfl) hB hi.accepted.2
  have hstored := hi.stored
  cases hq : s.completed with
  | none =>
    rw [hq] at hstored
    obtain ⟨ht, hA, -⟩ := hstored
    rw [acceptedId_eq, ← hcutA] at hA
    obtain ⟨buf', hload⟩ := loadData_neither dst buf
      hA (show (peek P (cutMedia P s src k s.chunk.regionB) 0).transId = 0 by omega)
      ((hlen _).symm ▸ hover) ((hlen _).symm ▸ hi.size)
    refine iff_of_true ?_ ?_
    · exact (recovers_iff hlens hload).mpr ⟨.inl rfl, fun h => by cases h⟩
    · intro q h
      cases h
  | some q =>
    rw [hq] at hstored hoff
    obtain ⟨-, hfitq, h2, ht64, hHA, hHB⟩ := hstored
    have hpq : data.length ≤ q.length := by
      have h := src.getData_le s.chunk.dataLen
      rw [hdata, hoff] at h
      exact h
    have hle := hHA.length_le
    rw [← hcutA] at hHA
    rw [recovers_regionA hlens hdst (hHA.peek hfitq (by rw [hlen]; exact hi.size) ht64) (by omega)
      (by rw [hlen]; omega), hcutB, handed_torn hHB hpq k hfit (by rw [← hi.lengths]; exact hi.size)]
    simp

end Recovery

/-- **A POWER CUT DURING AN UPDATE, DECIDED**: after any history, for a cut at any
byte, the load that follows hands over the last completed or the interrupted
update exactly when the cut is safe. -/
theorem powerCut_recovers_iff (c : MirroredChunk ρ) (m : ρ → List Byte) (buf0 : WorkBuffer P)
    (hA : acceptedId P m c.regionA = 0) (hB : acceptedId P m c.regionB = 0)
    (hsize : (m c.regionA).length < P.sizeMod) (calls : List Call) (s : System P ρ)
    (hrun : run P ⟨c, m, buf0, none⟩ (.start :: calls) = some s)
    (hids : 2 * calls.length + 4 < 2 ^ 64) (hfits : PayloadsFit P calls) (src : Payload)
    (hfit : ∀ n, (src.getData n).length + 4 ≤ P.workBufferSize)
    (hloaded : s.chunk.currentRegion.isSome) (hne : 0 < (src.getData s.chunk.dataLen).length)
    (k : Nat) (htorn : TornFramesFail P s.chunk s.media (fullMedia P s src) (cutMedia P s src k))
    (dst : Payload) (hdst : ∀ bs, dst.putData bs = true) (buf : WorkBuffer P) :
    Recovers P s.chunk (cutMedia P s src k) dst buf s.completed (src.getData s.chunk.dataLen)
      ↔ SafeCut P s src k := by
  obtain ⟨s1, h1, h2⟩ := bind_eq_some_iff.mp hrun
  obtain ⟨t, ht, hi⟩ : ∃ t, t ≤ 2 * calls.length ∧ Inv P s t := by
    obtain ⟨c1, hc1, rfl⟩ := map_eq_some_iff.mp h1
    unfold start at hc1
    split at hc1
    next hlen =>
      cases hc1
      have hi0 : Inv P (⟨fresh c, m, buf0, none⟩ : System P ρ) 0 :=
        ⟨hlen, hsize, ⟨rfl, hA, hB⟩, by intro r hr; cases hr⟩
      obtain ⟨t, ht, hi⟩ := inv_run calls _ s 0 h2 hi0 hfits (by omega)
      exact ⟨t, by omega, hi⟩
    next => cases hc1
  obtain ⟨r, hr⟩ := isSome_iff_exists.mp hloaded
  obtain ⟨-, -, htid, -⟩ := hi.loaded r hr
  have hnext : nextTransId s.chunk.transId = t + 1 := by
    rw [htid, nextTransId_of_lt (by omega)]
  -- "the first mirror is complete" as a condition on the media before the update
  have hmirror : cutMedia P s src k s.chunk.regionB = fullMedia P s src s.chunk.regionB
      ↔ slice (s.media s.chunk.regionB) k
            ((frameOf P false (t + 1) (src.getData s.chunk.dataLen)).length - k)
          = (frameOf P false (t + 1) (src.getData s.chunk.dataLen)).drop k := by
    have hw := hi.written hr rfl hne (by omega)
    rw [cutMedia, fullMedia, hw.cut₁, hw.full₁]
    refine overlay_take_eq_iff _ _ k ?_
    rw [length_frameOf]
    exact hw.room₁
  by_cases hBfull : cutMedia P s src k s.chunk.regionB = fullMedia P s src s.chunk.regionB
  · refine iff_of_true ?_ ?_
    · exact hi.recovers_of_mirror hr rfl hne (hfit _) (by omega) htorn dst hdst buf hBfull
    · unfold SafeCut
      cases s.completed with
      | none => trivial
      | some q =>
        simp only [hnext]
        exact .inl (hmirror.mp hBfull)
  · rw [hi.recovers_torn_iff hr rfl hne (hfit _) (by omega) htorn dst hdst buf hBfull]
    unfold SafeCut
    cases s.completed with
    | none => simp
    | some q =>
      simp only [some.injEq, forall_eq', hnext, mt hmirror.mpr hBfull, false_or]

end Cut

/-! ### A two-byte record on the default build. -/

/-- Two erased regions of 32 bytes under the default build. -/
def erasedPair : System .default64 Bool where
  chunk := ⟨false, true, Bool.false_ne_true, 0, none, 0⟩
  media := fun _ => replicate 32 0xFF#8
  buffer := WorkBuffer.zero _
  completed := none

/-- A first load and one complete update to "AB". -/
def storeAB : List Call := [.loadData (.ofBytes []), .updateData (.ofBytes [0x41, 0x42])]

theorem storeAB_runs : (run .default64 erasedPair (.start :: storeAB)).isSome = true := by
  decide +kernel

/-- The system that has stored "AB". -/
def storedAB : System .default64 Bool :=
  (run .default64 erasedPair (.start :: storeAB)).get storeAB_runs

/-- The update to "CD" that is cut. -/
def updateCD : Payload := .ofBytes [0x43, 0x44]

theorem run_storeAB : run .default64 erasedPair (.start :: storeAB) = some storedAB :=
  (some_get storeAB_runs).symm

theorem storedAB_completed : storedAB.completed = some [0x41, 0x42] := by decide +kernel

/-- Region A is untouched and torn region B is refused, wherever the cut falls
in the first mirror. -/
theorem storedAB_torn (k : Fin 22) :
    TornFramesFail .default64 storedAB.chunk storedAB.media (fullMedia _ storedAB updateCD)
      (cutMedia _ storedAB updateCD k) := by
  have hA : ∀ k : Fin 22, cutMedia _ storedAB updateCD k false = storedAB.media false := by
    decide +kernel
  have hB : ∀ k : Fin 22, cutMedia _ storedAB updateCD k true ≠ storedAB.media true →
      acceptedId .default64 (cutMedia _ storedAB updateCD k) true = 0 := by
    decide +kernel
  intro r _ hbefore _
  cases r with
  | false => exact absurd (hA k) hbefore
  | true => exact hB k hbefore

/-- **The record comes back as "CB"**: "AB" is stored and the update to "CD" is
cut after 17 bytes, one byte into its data.  Region B is refused, region A still
holds "AB", and the load hands over "CB" and returns true. -/
theorem powerCut_hands_mixture :
    run .default64 erasedPair (.start :: storeAB) = some storedAB
    ∧ storedAB.completed = some [0x41, 0x42]
    ∧ TornFramesFail .default64 storedAB.chunk storedAB.media (fullMedia _ storedAB updateCD)
        (cutMedia _ storedAB updateCD 17)
    ∧ (loadData .default64 (fresh storedAB.chunk) (cutMedia _ storedAB updateCD 17)
        (.ofBytes []) 0 (.zero _)).map (fun l => (l.pushed, l.result))
      = some (some [0x43, 0x42], true)
    ∧ ¬ Recovers .default64 storedAB.chunk (cutMedia _ storedAB updateCD 17) (.ofBytes [])
        (.zero _) storedAB.completed [0x43, 0x44] := by
  have hload : (loadData .default64 (fresh storedAB.chunk) (cutMedia _ storedAB updateCD 17)
      (.ofBytes []) 0 (.zero _)).map (fun l => (l.pushed, l.result))
      = some (some [0x43, 0x42], true) := by
    decide +kernel
  refine ⟨run_storeAB, storedAB_completed, storedAB_torn 17, hload, ?_⟩
  obtain ⟨l, hl, hpair⟩ := map_eq_some_iff.mp hload
  have hpushed : l.pushed = some [0x43, 0x42] := congrArg Prod.fst hpair
  rw [recovers_iff (by decide +kernel) hl, hpushed]
  rintro ⟨h | h, -⟩
  · exact absurd h (by decide)
  · exact absurd h (by decide)

/-- A cut inside the 16-byte header is harmless: the load brings "AB" back. -/
theorem powerCut_recovers_header :
    Recovers .default64 storedAB.chunk (cutMedia _ storedAB updateCD 16) (.ofBytes [])
      (.zero _) storedAB.completed (updateCD.getData storedAB.chunk.dataLen) := by
  have hsafe : SafeCut Platform.default64 storedAB updateCD 16 := by
    exact .inr (.inl (by decide +kernel))
  have hfit : ∀ data : List Byte, data.length + 4 ≤ 1024 →
      ∀ n, ((Payload.ofBytes data).getData n).length + 4 ≤ Platform.default64.workBufferSize := by
    intro data hdata n
    show (if data.length ≤ n then data else []).length + 4 ≤ 1024
    split
    · exact hdata
    · simp
  have hfits : PayloadsFit .default64 storeAB := by
    intro src hsrc n
    simp only [storeAB, mem_cons, reduceCtorEq, Call.updateData.injEq, not_mem_nil,
      or_false, false_or] at hsrc
    rw [hsrc]
    exact hfit _ (by decide) n
  refine (powerCut_recovers_iff erasedPair.chunk erasedPair.media erasedPair.buffer (by decide +kernel)
    (by decide +kernel) (by decide +kernel) storeAB storedAB run_storeAB (by decide) hfits updateCD
    (hfit _ (by decide)) (by decide +kernel) (by decide +kernel) 16 (storedAB_torn 16) (.ofBytes [])
    (fun _ => rfl) (.zero _)).mpr hsafe

end ColonyCore.Persistent.MirroredChunk
