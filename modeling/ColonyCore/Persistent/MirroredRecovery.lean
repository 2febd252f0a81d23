/-
  ColonyCore.Persistent.MirroredRecovery
  **A FIXED-LENGTH RECORD ON A MIRRORED CHUNK, OVER ANY NUMBER OF POWER CUTS.**

  When every record has the same length `N`, a load that accepts any region
  hands over the data area of region B, whichever region is newer
  (`loadData_cell_some`).  So the pair of regions behaves as one cell with three
  operations:

    • `loadData_cell_some` — reading the cell,
    • `Ready.stores`       — a complete update stores the new record,
    • `Ready.cut`          — a cut update leaves the old record or the new one, as
      long as region B's data area is not a mixture of the two.
-/
import ColonyCore.Persistent.PowerFail

namespace ColonyCore.Persistent.MirroredChunk

open ByteStore LittleEndian List

variable {P : Platform} {ρ : Type}

/-! ## §1. What one region reads as. -/

/-- A region is refused, or holds the frame of an `N`-byte record under a
nonzero id. -/
def Reads (P : Platform) (N : Nat) (s : List Byte) : Option (Nat × List Byte) → Prop
  | none => (peek P s 0).transId = 0
  | some (id, y) => 0 < id ∧ id < 2 ^ 64 ∧ y.length = N ∧ Holds P s id y

/-- A region announces `N` bytes of data and has room for them; `x` is what
stands there, whether or not the CRC holds. -/
structure Announces (P : Platform) (N : Nat) (s x : List Byte) : Prop where
  room : FRAME_OVERHEAD P + N ≤ s.length
  field : slice s 8 P.sizeofSizeT = leBytes P.sizeofSizeT N
  area : slice s (8 + P.sizeofSizeT) N = x

/-- The id a region is read under (0 when refused). -/
def readId : Option (Nat × List Byte) → Nat
  | none => 0
  | some (id, _) => id

variable {s y : List Byte} {id N : Nat}

theorem Holds.announces (h : Holds P s id y) (hN : y.length = N) : Announces P N s y := by
  obtain ⟨-, h2, h3⟩ := slices_of_frame h
  subst hN
  refine ⟨h.length_le, h2, ?_⟩
  have hsplit := slice_append_slice s (8 + P.sizeofSizeT) y.length 4
  have hlen : (slice s (8 + P.sizeofSizeT) y.length).length = y.length := by
    have hle := h.length_le
    have hover := FRAME_OVERHEAD_eq P
    exact length_slice _ _ _ (by omega)
  exact (append_inj (hsplit.trans h3) hlen).1

variable {x : List Byte}

theorem Announces.length_area (h : Announces P N s x) : x.length = N := by
  have hroom := h.room
  have hover := FRAME_OVERHEAD_eq P
  rw [← h.area]
  exact length_slice _ _ _ (by omega)

/-- What a read of an announcing region moves to the work buffer. -/
theorem Announces.take_got (h : Announces P N s x) (hfit : N + 4 ≤ P.workBufferSize)
    (hsize : s.length < P.sizeMod) : (peek P s 0).got.take N = x := by
  have hroom := h.room
  have hover := FRAME_OVERHEAD_eq P
  have hlen : (peek P s 0).got.length = N + 4 :=
    length_got (by rw [Nat.zero_add]; exact h.field) hfit (by omega) (by omega)
  rw [← h.area]
  apply ext_getElem?
  intro i
  rw [getElem?_take, getElem?_slice]
  by_cases hi : i < N
  · rw [if_pos hi, if_pos hi, getElem?_got (by omega)]
  · rw [if_neg hi, if_neg hi]

theorem Reads.peek_some (h : Reads P N s (some (id, y))) (hfit : N + 4 ≤ P.workBufferSize)
    (hsize : s.length < P.sizeMod) : peek P s 0 = ⟨id, y.length, y ++ crcOf P id y⟩ := by
  obtain ⟨-, h64, hN, hH⟩ := h
  exact hH.peek (by omega) hsize h64

variable {r : Option (Nat × List Byte)}

theorem Reads.transId (h : Reads P N s r) (hfit : N + 4 ≤ P.workBufferSize)
    (hsize : s.length < P.sizeMod) : (peek P s 0).transId = readId r := by
  cases r with
  | none => exact h
  | some p =>
    rw [h.peek_some hfit hsize]
    rfl

/-! ## §2. The two regions as one cell. -/

/-- **The cell**: `a` and `b` are what the regions read as.  It is empty when
both are refused; otherwise it holds the data area of region B. -/
structure Mirrors (P : Platform) (N : Nat) (sA sB : List Byte) (a b : Option (Nat × List Byte))
    (x : Option (List Byte)) : Prop where
  lengths : sA.length = sB.length
  size : sA.length < P.sizeMod
  room : FRAME_OVERHEAD P + N ≤ sA.length
  readsA : Reads P N sA a
  readsB : Reads P N sB b
  empty : x = none → a = none ∧ b = none
  full : ∀ y, x = some y → (a ≠ none ∨ b ≠ none) ∧ Announces P N sB y

/-- A chunk that has loaded the cell: `t` is the id of the region it calls
current, and no region carries a greater one. -/
structure Ready (P : Platform) (N : Nat) (c : MirroredChunk ρ) (m : ρ → List Byte) (t : Nat)
    (x : Option (List Byte)) : Prop where
  mirrors : ∃ a b, Mirrors P N (m c.regionA) (m c.regionB) a b x ∧ readId a ≤ t ∧ readId b ≤ t
    ∧ ((c.currentRegion = some c.regionA ∧ readId a = t)
        ∨ (c.currentRegion = some c.regionB ∧ readId b = t ∧ b ≠ none))
  transId : c.transId = t
  offers : N ≤ c.dataLen

/-- The cell as media hold it, for a chunk that has not been loaded: some ids
up to `t` were used. -/
def Cell (P : Platform) (N : Nat) (c : MirroredChunk ρ) (m : ρ → List Byte) (t : Nat)
    (x : Option (List Byte)) : Prop :=
  ∃ a b, Mirrors P N (m c.regionA) (m c.regionB) a b x ∧ readId a ≤ t ∧ readId b ≤ t

variable {t : Nat} {c : MirroredChunk ρ} {m : ρ → List Byte}

/-- One region is accepted and region B announces: the cell is full. -/
theorem Mirrors.ofReads {sA sB z : List Byte} {a b : Option (Nat × List Byte)}
    (hlens : sA.length = sB.length) (hsize : sA.length < P.sizeMod)
    (hroom : FRAME_OVERHEAD P + N ≤ sA.length) (hA : Reads P N sA a) (hB : Reads P N sB b)
    (hne : a ≠ none ∨ b ≠ none) (hann : Announces P N sB z) :
    Mirrors P N sA sB a b (some z) :=
  ⟨hlens, hsize, hroom, hA, hB, nofun, fun _ hw => Option.some.inj hw ▸ ⟨hne, hann⟩⟩

/-- The same for regions that had their lengths before. -/
theorem Mirrors.refill {m' : ρ → List Byte} {a b a' b' : Option (Nat × List Byte)}
    {x : Option (List Byte)} {z : List Byte}
    (hm : Mirrors P N (m c.regionA) (m c.regionB) a b x) (hlen : ∀ r, (m' r).length = (m r).length)
    (hA : Reads P N (m' c.regionA) a') (hB : Reads P N (m' c.regionB) b')
    (hne : a' ≠ none ∨ b' ≠ none) (hann : Announces P N (m' c.regionB) z) :
    Mirrors P N (m' c.regionA) (m' c.regionB) a' b' (some z) :=
  .ofReads (by rw [hlen, hlen, hm.lengths]) (by rw [hlen]; exact hm.size)
    (by rw [hlen]; exact hm.room) hA hB hne hann

theorem Ready.cell {x : Option (List Byte)} (h : Ready P N c m t x) : Cell P N c m t x := by
  obtain ⟨a, b, hm, ha, hb, -⟩ := h.mirrors
  exact ⟨a, b, hm, ha, hb⟩

/-- The cell depends on the two mirrors only. -/
theorem Cell.congr {c' : MirroredChunk ρ} {m' : ρ → List Byte}
    {x : Option (List Byte)} (h : Cell P N c m t x) (hA : m' c'.regionA = m c.regionA)
    (hB : m' c'.regionB = m c.regionB) : Cell P N c' m' t x := by
  unfold Cell at h ⊢
  rw [hA, hB]
  exact h

theorem Ready.congr {m' : ρ → List Byte} {x : Option (List Byte)} (h : Ready P N c m t x)
    (hA : m' c.regionA = m c.regionA) (hB : m' c.regionB = m c.regionB) : Ready P N c m' t x := by
  refine ⟨?_, h.transId, h.offers⟩
  rw [hA, hB]
  exact h.mirrors

/-- The region a loaded chunk calls current. -/
theorem Ready.current {x : Option (List Byte)} (h : Ready P N c m t x) :
    ∃ r, c.currentRegion = some r ∧ (r = c.regionA ∨ r = c.regionB) := by
  obtain ⟨a, b, -, -, -, hcur | hcur⟩ := h.mirrors
  · exact ⟨_, hcur.1, .inl rfl⟩
  · exact ⟨_, hcur.1, .inr rfl⟩

/-- An empty cell is reported as "no valid data". -/
theorem loadData_cell_none (h : Cell P N c m t none) (hfit : N + 4 ≤ P.workBufferSize)
    (dst : Payload) (buf : WorkBuffer P) :
    ∃ c' buf', loadData P c m dst 0 buf = some ⟨c', buf', none, false⟩
      ∧ Ready P N c' m 0 none ∧ c'.regionA = c.regionA ∧ c'.regionB = c.regionB := by
  obtain ⟨a, b, hm, -, -⟩ := h
  obtain ⟨rfl, rfl⟩ := hm.empty rfl
  have hA := hm.readsA.transId hfit hm.size
  have hB := hm.readsB.transId hfit (by rw [← hm.lengths]; exact hm.size)
  have hroom := hm.room
  obtain ⟨buf', hload⟩ := loadData_neither dst buf hA hB (by omega) hm.size
  refine ⟨_, buf', hload, ⟨⟨none, none, hm, Nat.le_refl 0, Nat.le_refl 0, .inl ⟨rfl, rfl⟩⟩, rfl, ?_⟩,
    rfl, rfl⟩
  show N ≤ (m c.regionA).length - FRAME_OVERHEAD P
  omega

/-- **A load of the cell hands over its contents**, whichever region is newer. -/
theorem loadData_cell_some {x : List Byte} (h : Cell P N c m t (some x))
    (hfit : N + 4 ≤ P.workBufferSize) (dst : Payload) (buf : WorkBuffer P) :
    ∃ c' buf' t', loadData P c m dst 0 buf = some ⟨c', buf', some x, dst.putData x⟩
      ∧ Ready P N c' m t' (some x) ∧ t' ≤ t ∧ c'.regionA = c.regionA ∧ c'.regionB = c.regionB := by
  obtain ⟨a, b, hm, ha, hb⟩ := h
  obtain ⟨hsome, hann⟩ := hm.full x rfl
  have hsizeB : (m c.regionB).length < P.sizeMod := by rw [← hm.lengths]; exact hm.size
  have hB := hm.readsB.transId hfit hsizeB
  have hxlen := hann.length_area
  have hroom := hm.room
  by_cases hAB : readId b < readId a
  · -- A is newer, but the buffer was filled from B after A
    obtain ⟨id, y, rfl⟩ : ∃ id y, a = some (id, y) := by
      cases a with
      | none => exact absurd hAB (Nat.not_lt_zero _)
      | some p => exact ⟨p.1, p.2, rfl⟩
    have hylen : y.length = N := hm.readsA.2.2.1
    obtain ⟨buf', hload⟩ := loadData_regionA dst buf (hm.readsA.peek_some hfit hm.size)
      (by rw [hB]; exact hAB) (by omega)
    have hx : overlay y 0 ((peek P (m c.regionB) 0).got.take y.length) = x := by
      rw [hylen, hann.take_got hfit hsizeB, overlay, take_zero, nil_append,
          drop_eq_nil_of_le (by omega), append_nil]
    rw [hx] at hload
    refine ⟨_, buf', id, hload, ⟨⟨_, b, hm, Nat.le_refl id, ?_, .inl ⟨rfl, rfl⟩⟩, rfl, ?_⟩, ha, rfl, rfl⟩
    · exact Nat.le_of_lt hAB
    · exact Nat.le_of_eq hylen.symm
  · obtain ⟨id, y, rfl⟩ : ∃ id y, b = some (id, y) := by
      cases b with
      | none =>
        -- B is refused, so A is accepted and newer
        exfalso
        rcases hsome with hne | hne
        · cases a with
          | none => exact hne rfl
          | some p => exact hAB hm.readsA.1
        · exact hne rfl
      | some p => exact ⟨p.1, p.2, rfl⟩
    obtain ⟨hid, -, hylen, hH⟩ := hm.readsB
    have hy : y = x := (hH.announces hylen).area.symm.trans hann.area
    subst hy
    have hA := hm.readsA.transId hfit hm.size
    obtain ⟨buf', hload⟩ := loadData_regionB dst buf (hm.readsB.peek_some hfit hsizeB) hid
      (by rw [hA]; exact Nat.le_of_not_lt hAB) (by rw [← hm.lengths]; omega)
    refine ⟨_, buf', id, hload, ⟨⟨a, _, hm, ?_, Nat.le_refl id, .inr ⟨rfl, rfl, ?_⟩⟩, rfl, ?_⟩, hb, rfl, rfl⟩
    · exact Nat.le_of_not_lt hAB
    · exact Option.some_ne_none _
    · exact Nat.le_of_eq hylen.symm

/-! ## §3. Complete updates. -/

section Update

variable [DecidableEq ρ] {x : Option (List Byte)} {src : Payload}

omit [DecidableEq ρ] in
/-- The two region lengths. -/
theorem Ready.room (h : Ready P N c m t x) (hylen : y.length = N) :
    FRAME_OVERHEAD P + y.length ≤ (m c.regionA).length
      ∧ FRAME_OVERHEAD P + y.length ≤ (m c.regionB).length := by
  obtain ⟨a, b, hm, -⟩ := h.mirrors
  rw [hylen, ← hm.lengths]
  exact ⟨hm.room, hm.room⟩

theorem reads_some {s : List Byte} (id : Nat) (hylen : y.length = N) (hid : 0 < id)
    (h64 : id < 2 ^ 64) (hroom : FRAME_OVERHEAD P + y.length ≤ s.length) :
    Reads P N (overlay s 0 (frameOf P false id y)) (some (id, y)) :=
  ⟨hid, h64, hylen, holds_overlay id y (by omega)⟩

theorem Ready.written (h : Ready P N c m t x) {r : ρ} (hr : c.currentRegion = some r)
    (hAB : r = c.regionA ∨ r = c.regionB) (hN : 0 < N) (hy : src.getData c.dataLen = y)
    (hylen : y.length = N) (h64 : t + 2 < 2 ^ 64) :
    Written P N c m t y (issuedWrites P c src 0) (c.otherRegion r) r :=
  MirroredChunk.written hr hAB h.transId hy (by omega) h64 (h.room hylen).1 (h.room hylen).2

/-- Every write of an update lies inside its region. -/
theorem Ready.writes_fit (h : Ready P N c m t x) (hy : src.getData c.dataLen = y)
    (hylen : y.length = N) (hN : 0 < N) (h64 : t + 2 < 2 ^ 64) :
    ∀ w ∈ issuedWrites P c src 0, w.Fits m := by
  obtain ⟨r, hr, hAB⟩ := h.current
  have hwritten := h.written hr hAB hN hy hylen h64
  intro w hw
  rw [issuedWrites_eq hr hAB h.transId hy (by omega) h64] at hw
  rcases mem_append.mp hw with hw | hw
  · refine mirrorWrites_fits m _ false _ y 0 ?_ w hw
    rw [length_frameOf, Nat.zero_add]
    exact hwritten.room₁
  · refine mirrorWrites_fits m _ false _ y 0 ?_ w hw
    rw [length_frameOf, Nat.zero_add]
    exact hwritten.room₂

/-- **A complete update stores the new record**, and the chunk stays ready. -/
theorem Ready.stores (h : Ready P N c m t x) (hN : 0 < N) (hfit : N + 4 ≤ P.workBufferSize)
    (hy : src.getData c.dataLen = y) (hylen : y.length = N) (h64 : t + 2 < 2 ^ 64) :
    ∃ c' buf', updateData P c m src 0 false [] []
        = some ⟨c', buf', storeAll m (issuedWrites P c src 0), true⟩
      ∧ Ready P N c' (storeAll m (issuedWrites P c src 0)) (t + 2) (some y)
      ∧ c'.regionA = c.regionA ∧ c'.regionB = c.regionB ∧ c'.currentRegion = c.currentRegion := by
  obtain ⟨r, hr, hAB⟩ := h.current
  have hw := h.written hr hAB hN hy hylen h64
  obtain ⟨buf', heq⟩ := updateData_done hr hAB h.transId hy (by omega) h64 (h.room hylen).1
    (h.room hylen).2 (by omega)
  have hreadsF := reads_some (t + 1) hylen (by omega) (by omega) hw.room₁
  have hreadsS := reads_some (t + 2) hylen (by omega) h64 hw.room₂
  rw [← hw.full₁] at hreadsF
  rw [← hw.full₂] at hreadsS
  obtain ⟨a, b, hm, -⟩ := h.mirrors
  have hlen := length_storeAll m (issuedWrites P c src 0)
  refine ⟨_, buf', heq, ⟨?_, rfl, Nat.le_of_eq hylen.symm⟩, rfl, rfl, rfl⟩
  have hsome := Option.some_ne_none (α := Nat × List Byte)
  rcases hAB with rfl | rfl
  · -- A is current: it now carries the greater id
    rw [otherRegion_regionA] at hreadsF
    exact ⟨some (t + 2, y), some (t + 1, y),
      hm.refill hlen hreadsS hreadsF (.inl (hsome _)) (hreadsF.2.2.2.announces hylen),
      le_rfl, Nat.le_succ _, .inl ⟨hr, rfl⟩⟩
  · rw [otherRegion_regionB] at hreadsF
    exact ⟨some (t + 1, y), some (t + 2, y),
      hm.refill hlen hreadsF hreadsS (.inl (hsome _)) (hreadsS.2.2.2.announces hylen),
      Nat.le_succ _, le_rfl, .inr ⟨hr, rfl, hsome _⟩⟩

end Update

/-! ## §4. Cut updates. -/

/-- The data area of a region. -/
def dataArea (P : Platform) (N : Nat) (s : List Byte) : List Byte := slice s (8 + P.sizeofSizeT) N

/-- A frame written over an announcing region, whole or in part, keeps the
announcement: both carry the same length field. -/
theorem Announces.torn (h : Announces P N s x) (hylen : y.length = N) (id k : Nat) :
    Announces P N (tornFrame P s id y k) (dataArea P N (tornFrame P s id y k)) := by
  have hroom := h.room
  have hover := FRAME_OVERHEAD_eq P
  have hlen := length_take_frameOf (P := P) id y k
  have hin : 0 + ((frameOf P false id y).take k).length ≤ s.length := by omega
  have hfield := slice_frameOf_length (P := P) id y
  rw [hylen] at hfield
  refine ⟨by rw [length_overlay _ _ _ hin]; exact hroom, ?_, rfl⟩
  apply ext_getElem?
  intro i
  rw [getElem?_slice]
  by_cases hi : i < P.sizeofSizeT
  · have hnew := congrArg (fun l => l[i]?) hfield
    have hold := congrArg (fun l => l[i]?) h.field
    simp only [getElem?_slice, if_pos hi] at hnew hold
    rw [if_pos hi, getElem?_overlay _ _ _ hin, getElem?_take, Nat.sub_zero]
    by_cases hk : 8 + i < k
    · rw [if_pos (by omega), if_pos hk]
      exact hnew
    · rw [if_neg (by omega)]
      exact hold
  · rw [if_neg hi, getElem?_eq_none (by rw [length_leBytes]; omega)]

/-- What becomes of a region under a cut write: it is unchanged, complete, or
refused. -/
theorem reads_torn {k T : Nat} (h : Reads P N s r) (hr : readId r ≤ T) (hylen : y.length = N)
    (hid : 0 < id) (h64 : id < 2 ^ 64) (hidT : id ≤ T)
    (hroom : FRAME_OVERHEAD P + y.length ≤ s.length)
    (hfail : tornFrame P s id y k ≠ s → tornFrame P s id y k ≠ overlay s 0 (frameOf P false id y)
      → (peek P (tornFrame P s id y k) 0).transId = 0) :
    ∃ r', Reads P N (tornFrame P s id y k) r' ∧ readId r' ≤ T
      ∧ (r' = r ∨ r' = some (id, y) ∨ r' = none) := by
  by_cases hsame : tornFrame P s id y k = s
  · exact ⟨r, by rw [hsame]; exact h, hr, .inl rfl⟩
  · by_cases hfull : tornFrame P s id y k = overlay s 0 (frameOf P false id y)
    · exact ⟨some (id, y), by rw [hfull]; exact reads_some id hylen hid h64 hroom, hidT,
        .inr (.inl rfl)⟩
    · exact ⟨none, hfail hsame hfull, Nat.zero_le T, .inr (.inr rfl)⟩

/-- **No mixture in region B**: if region A is accepted after the cut, the data
area of region B is still the old one, or already as the whole update leaves it. -/
def MixFree (P : Platform) (N : Nat) (c : MirroredChunk ρ) (before after torn : ρ → List Byte) :
    Prop :=
  acceptedId P torn c.regionA = 0 ∨ dataArea P N (torn c.regionB) = dataArea P N (before c.regionB)
    ∨ dataArea P N (torn c.regionB) = dataArea P N (after c.regionB)

/-- In a full cell read with A current, region A is accepted. -/
theorem Mirrors.newest_ne_none {sA sB : List Byte} {a b : Option (Nat × List Byte)}
    (hm : Mirrors P N sA sB a b (some x)) (hba : readId b ≤ readId a) : a ≠ none := by
  rintro rfl
  rcases (hm.full x rfl).1 with hne | hne
  · exact hne rfl
  · cases b with
    | none => exact hne rfl
    | some p =>
      have hid : 0 < p.1 := hm.readsB.1
      have hle : p.1 ≤ 0 := hba
      omega

section Cut

variable [DecidableEq ρ] {x : Option (List Byte)} {src : Payload}

omit [DecidableEq ρ] in
/-- Region B under a cut frame, and region A accepted: the cell holds the data area of B. -/
theorem Mirrors.cut_mixed {mf m' : ρ → List Byte} {a b a' b' : Option (Nat × List Byte)}
    {x₀ : List Byte} (hm : Mirrors P N (m c.regionA) (m c.regionB) a b (some x₀))
    (hlen : ∀ r, (m' r).length = (m r).length) (hfit : N + 4 ≤ P.workBufferSize)
    (hA : Reads P N (m' c.regionA) a') (hB : Reads P N (m' c.regionB) b') (hne : a' ≠ none)
    {id k : Nat} (hylen : y.length = N) (hcut : m' c.regionB = tornFrame P (m c.regionB) id y k)
    (hnew : mf c.regionB = overlay (m c.regionB) 0 (frameOf P false id y))
    (hmix : MixFree P N c m mf m') (ha : readId a' ≤ t) (hb : readId b' ≤ t) :
    ∃ x', (x' = some x₀ ∨ x' = some y) ∧ Cell P N c m' t x' := by
  have hann := (hm.full x₀ rfl).2
  have hroom := hann.room
  have htorn := hann.torn hylen id k
  rw [← hcut] at htorn
  refine ⟨some (dataArea P N (m' c.regionB)), ?_, a', b',
    hm.refill hlen hA hB (.inl hne) htorn, ha, hb⟩
  rcases hmix with hzero | hold | hfull
  · rw [acceptedId_eq, hA.transId hfit (by rw [hlen]; exact hm.size)] at hzero
    cases a' with
    | none => exact absurd rfl hne
    | some p => exact absurd hzero (Nat.ne_of_gt hA.1)
  · exact .inl (hold ▸ congrArg some hann.area)
  · right
    rw [hfull, hnew]
    exact congrArg some ((holds_overlay id y (by omega)).announces hylen).area

/-- **A cut update leaves the old record or the new one.** -/
theorem Ready.cut (h : Ready P N c m t x) (hN : 0 < N) (hy : src.getData c.dataLen = y)
    (hylen : y.length = N) (hfit : N + 4 ≤ P.workBufferSize) (h64 : t + 2 < 2 ^ 64) (k : Nat)
    (htorn : TornFramesFail P c m (storeAll m (issuedWrites P c src 0))
      (storeCut m (issuedWrites P c src 0) k))
    (hmix : MixFree P N c m (storeAll m (issuedWrites P c src 0))
      (storeCut m (issuedWrites P c src 0) k)) :
    ∃ x', (x' = x ∨ x' = some y) ∧ Cell P N c (storeCut m (issuedWrites P c src 0) k) (t + 2) x' := by
  obtain ⟨r, hr, hAB⟩ := h.current
  obtain ⟨hroom₁, hroom₂, hfull₁, hfull₂, hcut, hcut'⟩ := h.written hr hAB hN hy hylen h64
  have hcut₁ := hcut k
  have hcut₂ := hcut' k
  have hlen := fun r => length_storeCut (issuedWrites P c src 0) m k r
  generalize storeCut m (issuedWrites P c src 0) k = m' at *
  obtain ⟨a, b, hm, ha, hb, hcur⟩ := h.mirrors
  have ha₂ : readId a ≤ t + 2 := by omega
  have hb₂ : readId b ≤ t + 2 := by omega
  have hsome := Option.some_ne_none (α := Nat × List Byte)
  have hfailA := htorn c.regionA (.inl rfl)
  have hfailB := htorn c.regionB (.inr rfl)
  rw [acceptedId_eq] at hfailA hfailB
  have hk : k < FRAME_OVERHEAD P + y.length ∨ FRAME_OVERHEAD P + y.length ≤ k := by omega
  rcases hcur with ⟨hcA, hat⟩ | ⟨hcB, hbt, hbne⟩
  · -- A is current: B is written first, then A
    cases hr.symm.trans hcA
    rw [otherRegion_regionA] at hcut₁ hfull₁ hroom₁
    rcases hk with hk | hk
    · -- the cut fell into B's frame; A is untouched
      rw [hcut₁, hfull₁] at hfailB
      obtain ⟨b', hb', hidb, hcases⟩ :=
        reads_torn hm.readsB hb₂ hylen (Nat.succ_pos t) (by omega) (by omega) hroom₁ hfailB
      rw [← hcut₁] at hb'
      rw [Nat.sub_eq_zero_of_le (by omega), tornFrame] at hcut₂
      have hA' : Reads P N (m' c.regionA) a := by rw [hcut₂]; exact hm.readsA
      cases x with
      | none =>
        obtain ⟨rfl, rfl⟩ := hm.empty rfl
        obtain rfl | rfl : b' = none ∨ b' = some (t + 1, y) := by tauto
        · exact ⟨none, .inl rfl, none, none, ⟨by rw [hlen, hlen, hm.lengths],
            by rw [hlen]; exact hm.size, by rw [hlen]; exact hm.room, hA', hb',
            fun _ => ⟨rfl, rfl⟩, fun _ hx => by cases hx⟩, Nat.zero_le _, Nat.zero_le _⟩
        · exact ⟨some y, .inr rfl, none, _, hm.refill hlen hA' hb' (.inr (hsome _))
            (hb'.2.2.2.announces hylen), Nat.zero_le _, hidb⟩
      | some x₀ =>
        exact hm.cut_mixed hlen hfit hA' hb' (hm.newest_ne_none (by omega)) hylen hcut₁ hfull₁
          hmix ha₂ hidb
    · -- B's frame is complete
      rw [hcut₂, hfull₂] at hfailA
      obtain ⟨a', ha', hida, -⟩ :=
        reads_torn hm.readsA ha₂ hylen (Nat.succ_pos (t + 1)) h64 (by omega) hroom₂ hfailA
      rw [← hcut₂] at ha'
      rw [tornFrame, take_of_length_le (by rw [length_frameOf]; omega)] at hcut₁
      have hB' : Reads P N (m' c.regionB) (some (t + 1, y)) := by
        rw [hcut₁]
        exact reads_some (t + 1) hylen (Nat.succ_pos t) (by omega) hroom₁
      exact ⟨some y, .inr rfl, a', _, hm.refill hlen ha' hB' (.inr (hsome _))
        (hB'.2.2.2.announces hylen), hida, Nat.le_succ (t + 1)⟩
  · -- B is current: A is written first, then B
    cases hr.symm.trans hcB
    rw [otherRegion_regionB] at hcut₁ hfull₁ hroom₁
    cases x with
    | none => exact absurd (hm.empty rfl).2 hbne
    | some x₀ =>
      rcases hk with hk | hk
      · -- the cut fell into A's frame; B is untouched
        rw [hcut₁, hfull₁] at hfailA
        obtain ⟨a', ha', hida, -⟩ :=
          reads_torn hm.readsA ha₂ hylen (Nat.succ_pos t) (by omega) (by omega) hroom₁ hfailA
        rw [← hcut₁] at ha'
        rw [Nat.sub_eq_zero_of_le (by omega), tornFrame] at hcut₂
        exact ⟨some x₀, .inl rfl, a', b, hm.refill hlen ha' (hcut₂ ▸ hm.readsB) (.inr hbne)
          (hcut₂ ▸ (hm.full x₀ rfl).2), hida, hb₂⟩
      · -- A's frame is complete, the cut fell into B's
        rw [hcut₂, hfull₂] at hfailB
        obtain ⟨b', hb', hidb, -⟩ :=
          reads_torn hm.readsB hb₂ hylen (Nat.succ_pos (t + 1)) h64 (by omega) hroom₂ hfailB
        rw [← hcut₂] at hb'
        rw [tornFrame, take_of_length_le (by rw [length_frameOf]; omega)] at hcut₁
        have hA' : Reads P N (m' c.regionA) (some (t + 1, y)) := by
          rw [hcut₁]
          exact reads_some (t + 1) hylen (Nat.succ_pos t) (by omega) hroom₁
        exact hm.cut_mixed hlen hfit hA' hb' (hsome _) hylen hcut₂ hfull₂ hmix
          (Nat.le_succ (t + 1)) hidb

end Cut

end ColonyCore.Persistent.MirroredChunk
