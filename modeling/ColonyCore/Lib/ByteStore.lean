/-
  ColonyCore.Lib.ByteStore
  **BYTE STORES: SLICES, OVERLAYS, AND MULTI-REGION MEDIA.**

  A store is a list of cells.  `slice` reads a run of cells, `overlay` writes
  one.  Everything here is stated over arbitrary cells and arbitrary region
  names; no program is named.  The facts the users need:

    • `getElem?_overlay`   — the one pointwise law; every other fact follows,
    • `slice_overlay_self` / `slice_overlay_left` / `_right` — read-back and
      the two frame rules,
    • `overlay_append`     — consecutive writes are one write,
    • `storeAll` / `storeCut` — a list of writes run to its end, and the same
      list stopped after `k` cells by a power cut, with the two laws that
      split a cut over an append (`storeCut_append_left` / `_right`).
-/
import Mathlib.Logic.Function.Basic
import Mathlib.Algebra.Ring.Nat

namespace ByteStore

open Function List

/-! ## §1. Slices and overlays of one store. -/

section Cells

variable {α : Type}

variable (s : List α)

/-- The `n` cells of `s` from offset `off` on (fewer at the end of the store). -/
def slice (off n : Nat) : List α := (s.drop off).take n

/-- `src` written over `s` at offset `off`. -/
def overlay (off : Nat) (src : List α) : List α :=
  s.take off ++ (src ++ s.drop (off + src.length))

theorem getElem?_slice (off n i : Nat) :
    (slice s off n)[i]? = if i < n then s[off + i]? else none := by
  simp [slice, getElem?_take]

/-- Slices are equal cell by cell. -/
theorem slice_congr {s t : List α} {a b n : Nat} (h : ∀ i, i < n → s[a + i]? = t[b + i]?) :
    slice s a n = slice t b n := by
  apply ext_getElem?
  intro i
  rw [getElem?_slice, getElem?_slice]
  by_cases hi : i < n
  · rw [if_pos hi, if_pos hi, h i hi]
  · rw [if_neg hi, if_neg hi]

theorem length_slice (off n : Nat) (h : off + n ≤ s.length) :
    (slice s off n).length = n := by
  simp only [slice, length_take, length_drop]
  omega

@[simp] theorem length_overlay (off : Nat) (src : List α)
    (h : off + src.length ≤ s.length) : (overlay s off src).length = s.length := by
  simp only [overlay, length_append, length_take, length_drop]
  omega

/-- **The pointwise law of a write**: the cells under `src` are `src`'s, every
other cell is unchanged. -/
theorem getElem?_overlay (off : Nat) (src : List α)
    (h : off + src.length ≤ s.length) (i : Nat) :
    (overlay s off src)[i]?
      = if off ≤ i ∧ i < off + src.length then src[i - off]? else s[i]? := by
  have hlen : (s.take off).length = off := by
    rw [length_take]
    omega
  unfold overlay
  by_cases h1 : i < off
  · rw [getElem?_append_left (by omega), getElem?_take, if_pos h1,
        if_neg (by omega)]
  · rw [getElem?_append_right (by omega), hlen]
    by_cases h2 : i < off + src.length
    · rw [getElem?_append_left (by omega), if_pos (by omega)]
    · rw [getElem?_append_right (by omega), getElem?_drop, if_neg (by omega)]
      congr 1
      omega

@[simp] theorem overlay_nil (off : Nat) : overlay s off [] = s := by
  simp [overlay]

/-- Bytes as long as the whole store replace it. -/
theorem overlay_full {s src : List α} (h : src.length = s.length) : overlay s 0 src = src := by
  simp [overlay, h]

section

variable (off : Nat) (src : List α) (a n : Nat) (h : off + src.length ≤ s.length)

include h

/-- Frame rule: a slice that ends before the write is unchanged. -/
theorem slice_overlay_left (hd : a + n ≤ off) :
    slice (overlay s off src) a n = slice s a n :=
  slice_congr fun i hi => by rw [getElem?_overlay s off src h, if_neg (by omega)]

/-- Frame rule: a slice that starts after the write is unchanged. -/
theorem slice_overlay_right (hd : off + src.length ≤ a) :
    slice (overlay s off src) a n = slice s a n :=
  slice_congr fun i _ => by rw [getElem?_overlay s off src h, if_neg (by omega)]

/-- A slice inside the write reads the corresponding slice of the source. -/
theorem slice_overlay_inside (hd : a + n ≤ src.length) :
    slice (overlay s off src) (off + a) n = slice src a n :=
  slice_congr fun i hi => by
    rw [getElem?_overlay s off src h, if_pos (by omega), Nat.add_assoc, Nat.add_sub_cancel_left]

end

theorem slice_overlay_self (off : Nat) (src : List α)
    (h : off + src.length ≤ s.length) : slice (overlay s off src) off src.length = src := by
  have hinside := slice_overlay_inside s off src 0 src.length h (by omega)
  simpa [slice] using hinside

/-- What stands at an offset lies inside the store. -/
theorem length_le_of_slice_eq {s t : List α} {off : Nat} (h : slice s off t.length = t)
    (hne : 0 < t.length) : off + t.length ≤ s.length := by
  have hl := congrArg length h
  simp only [slice, length_take, length_drop] at hl
  omega

/-- Consecutive writes are one write. -/
theorem overlay_append (off : Nat) (a b : List α)
    (h : off + a.length + b.length ≤ s.length) :
    overlay (overlay s off a) (off + a.length) b = overlay s off (a ++ b) := by
  have ha : off + a.length ≤ s.length := by omega
  have hb : off + a.length + b.length ≤ (overlay s off a).length := by
    rw [length_overlay s off a ha]
    exact h
  have hab : off + (a ++ b).length ≤ s.length := by
    rw [length_append]
    omega
  apply ext_getElem?
  intro i
  rw [getElem?_overlay _ _ _ hb, getElem?_overlay _ _ _ ha, getElem?_overlay _ _ _ hab,
      length_append]
  by_cases h1 : off ≤ i ∧ i < off + a.length
  · rw [if_neg (by omega), if_pos h1, if_pos (by omega),
        getElem?_append_left (by omega)]
  · by_cases h2 : off + a.length ≤ i ∧ i < off + a.length + b.length
    · rw [if_pos h2, if_pos (by omega), getElem?_append_right (by omega)]
      congr 1
      omega
    · rw [if_neg h2, if_neg h1, if_neg (by omega)]

/-! Two stores end to end: what lies in the first, what spans both, what lies in the
second. -/

theorem overlay_append_left (a b : List α) (off : Nat) (src : List α)
    (h : off + src.length ≤ a.length) : overlay (a ++ b) off src = overlay a off src ++ b := by
  unfold overlay
  rw [take_append_of_le_length (by omega), drop_append_of_le_length h,
    append_assoc, append_assoc]

theorem overlay_append_span (a b : List α) (off : Nat) (x y : List α)
    (h : off + x.length = a.length) :
    overlay (a ++ b) off (x ++ y) = overlay a off x ++ overlay b 0 y := by
  unfold overlay
  rw [take_append_of_le_length (by omega), length_append, ← Nat.add_assoc, h,
    drop_append]
  simp

theorem overlay_append_right (a b : List α) (k : Nat) (src : List α) :
    overlay (a ++ b) (a.length + k) src = a ++ overlay b k src := by
  unfold overlay
  rw [take_append, take_of_length_le (by omega), Nat.add_assoc, drop_append]
  simp

/-- A torn write is as good as the whole one exactly when the cells it did not
reach already held what it would have stored. -/
theorem overlay_take_eq_iff (s src : List α) (k : Nat) (h : src.length ≤ s.length) :
    overlay s 0 (src.take k) = overlay s 0 src ↔ slice s k (src.length - k) = src.drop k := by
  have hpart : ∀ i, (overlay s 0 (src.take k))[i]?
      = if i < min k src.length then src[i]? else s[i]? := by
    intro i
    rw [getElem?_overlay _ _ _ (by rw [length_take]; omega), length_take,
        getElem?_take]
    by_cases hi : i < min k src.length
    · rw [if_pos (by omega), if_pos hi, if_pos (by omega), Nat.sub_zero]
    · rw [if_neg (by omega), if_neg hi]
  have hfull : ∀ i, (overlay s 0 src)[i]? = if i < src.length then src[i]? else s[i]? := by
    intro i
    rw [getElem?_overlay _ _ _ (by omega)]
    by_cases hi : i < src.length
    · rw [if_pos (by omega), if_pos hi, Nat.sub_zero]
    · rw [if_neg (by omega), if_neg hi]
  constructor
  · intro heq
    apply ext_getElem?
    intro i
    have hi := congrArg (fun l => l[k + i]?) heq
    simp only [hpart, hfull] at hi
    rw [getElem?_slice, getElem?_drop]
    by_cases hlt : k + i < src.length
    · rw [if_neg (by omega), if_pos hlt] at hi
      rw [if_pos (by omega), hi]
    · rw [if_neg (by omega), getElem?_eq_none (by omega)]
  · intro heq
    apply ext_getElem?
    intro i
    rw [hpart, hfull]
    by_cases hk : i < min k src.length
    · rw [if_pos hk, if_pos (by omega)]
    · rw [if_neg hk]
      by_cases hlt : i < src.length
      · have hi := congrArg (fun l => l[i - k]?) heq
        simp only [getElem?_slice, getElem?_drop] at hi
        rw [if_pos (by omega), Nat.add_sub_cancel' (by omega)] at hi
        rw [if_pos hlt, hi]
      · rw [if_neg hlt]

/-- A shorter slice at the same place. -/
theorem slice_eq_take (off : Nat) {a b : Nat} (h : a ≤ b) :
    slice s off a = (slice s off b).take a := by
  unfold slice
  rw [take_take, Nat.min_eq_left h]

/-- Adjacent slices are one slice. -/
theorem slice_append_slice (off a b : Nat) :
    slice s off a ++ slice s (off + a) b = slice s off (a + b) := by
  unfold slice
  rw [← drop_drop, ← take_add]

/-- Two slices of `c` pieces of `n` cells are equal piece by piece. -/
theorem slice_eq_iff_pieces (s t : List α) (a b n : Nat) : ∀ (c : Nat),
    a + c * n ≤ s.length → b + c * n ≤ t.length →
    (slice s a (c * n) = slice t b (c * n)
      ↔ ∀ j, j < c → slice s (a + j * n) n = slice t (b + j * n) n) := by
  intro c
  induction c with
  | zero => intro _ _; simp [slice]
  | succ c ih =>
    intro hs ht
    rw [Nat.succ_mul] at hs ht ⊢
    -- the last piece is split off on both sides
    rw [← slice_append_slice, ← slice_append_slice]
    have hlen : (slice s a (c * n)).length = (slice t b (c * n)).length := by
      rw [length_slice _ _ _ (by omega), length_slice _ _ _ (by omega)]
    constructor
    · intro h j hj
      obtain ⟨hinit, hlast⟩ := append_inj h hlen
      rcases Nat.lt_succ_iff_lt_or_eq.mp hj with hlt | rfl
      · exact (ih (by omega) (by omega)).mp hinit j hlt
      · exact hlast
    · intro h
      rw [(ih (by omega) (by omega)).mpr fun j hj => h j (by omega), h c (by omega)]

theorem slice_append_left (a b : List α) (off n : Nat) (h : off + n ≤ a.length) :
    slice (a ++ b) off n = slice a off n :=
  slice_congr fun i _ => getElem?_append_left (by omega)

theorem slice_append_span (a b : List α) (off n : Nat) (h : off ≤ a.length) :
    slice (a ++ b) off (a.length - off + n) = slice a off (a.length - off) ++ slice b 0 n := by
  have hrest : ∀ m, (a.drop off).take (a.length - off + m) = a.drop off :=
    fun m => take_of_length_le (by rw [length_drop]; omega)
  have hself := hrest 0
  rw [Nat.add_zero] at hself
  unfold slice
  rw [drop_append_of_le_length h, take_append, hrest n, hself]
  simp

theorem slice_append_right (a b : List α) (k n : Nat) :
    slice (a ++ b) (a.length + k) n = slice b k n := by
  unfold slice
  simp

theorem slice_append_mid (a b c : List α) : slice (a ++ (b ++ c)) a.length b.length = b := by
  simp [slice]

variable {n : Nat} (f : Nat → List α) (hf : ∀ j, (f j).length = n)

include hf

/-- Pieces of `n` cells one after the other. -/
theorem length_flatMap_range (c : Nat) :
    ((range c).flatMap f).length = c * n := by
  induction c with
  | zero => simp
  | succ c ih =>
    rw [range_succ, flatMap_append, flatMap_singleton, length_append, ih, hf,
        Nat.succ_mul]

theorem slice_flatMap_range {c k : Nat} (h : k < c) :
    slice ((range c).flatMap f) (k * n) n = f k := by
  induction c with
  | zero => exact absurd h (Nat.not_lt_zero k)
  | succ c ih =>
    rw [range_succ, flatMap_append, flatMap_singleton]
    have hlen := length_flatMap_range f hf c
    rcases Nat.lt_succ_iff_lt_or_eq.mp h with hlt | rfl
    · have hpiece : k * n + n ≤ c * n := by
        rw [← Nat.succ_mul]
        exact Nat.mul_le_mul_right n hlt
      rw [slice_append_left _ _ _ _ (by rw [hlen]; exact hpiece), ih hlt]
    · have hlast := slice_append_mid ((range k).flatMap f) (f k) []
      rw [append_nil, hlen, hf] at hlast
      exact hlast

end Cells

/-! ## §2. Write requests, and runs of consecutive writes to one region. -/

section Writes

variable {α ρ : Type}

/-- One write request: the cells `data` at `offset` of `region`. -/
structure Write (α ρ : Type) where
  region : ρ
  offset : Nat
  data : List α

/-- A write request lies inside its region. -/
def Write.Fits (w : Write α ρ) (m : ρ → List α) : Prop :=
  w.offset + w.data.length ≤ (m w.region).length

instance (w : Write α ρ) (m : ρ → List α) : Decidable (w.Fits m) :=
  inferInstanceAs (Decidable (_ ≤ _))

/-- The number of cells a list of writes stores when every one of them fits. -/
def cells (ws : List (Write α ρ)) : Nat := (ws.map (fun w => w.data.length)).sum

@[simp] theorem cells_nil : cells ([] : List (Write α ρ)) = 0 := rfl

@[simp] theorem cells_cons (w : Write α ρ) (ws : List (Write α ρ)) :
    cells (w :: ws) = w.data.length + cells ws := rfl

theorem cells_append (ws vs : List (Write α ρ)) : cells (ws ++ vs) = cells ws + cells vs := by
  simp [cells]

/-- The writes that put `pieces` one after the other into `r`, from `off` on. -/
def pieceWrites (r : ρ) : Nat → List (List α) → List (Write α ρ)
  | _, [] => []
  | off, p :: ps => ⟨r, off, p⟩ :: pieceWrites r (off + p.length) ps

@[simp] theorem length_pieceWrites (r : ρ) (ps : List (List α)) :
    ∀ (off : Nat), (pieceWrites r off ps).length = ps.length := by
  induction ps with
  | nil => intro off; rfl
  | cons p ps ih => intro off; exact congrArg (· + 1) (ih (off + p.length))

theorem pieceWrites_region (r : ρ) (ps : List (List α)) :
    ∀ (off : Nat), ∀ w ∈ pieceWrites r off ps, w.region = r := by
  induction ps with
  | nil => intro off w hw; simp [pieceWrites] at hw
  | cons p ps ih =>
    intro off w hw
    rcases mem_cons.mp hw with h | h
    · rw [h]
    · exact ih _ w h

theorem pieceWrites_fits (m : ρ → List α) (r : ρ) (ps : List (List α)) :
    ∀ (off : Nat), off + ps.flatten.length ≤ (m r).length →
      ∀ w ∈ pieceWrites r off ps, w.Fits m := by
  induction ps with
  | nil => intro off _ w hw; simp [pieceWrites] at hw
  | cons p ps ih =>
    intro off h w hw
    rw [flatten_cons, length_append] at h
    rcases mem_cons.mp hw with hw | hw
    · subst hw
      show off + p.length ≤ (m r).length
      omega
    · exact ih (off + p.length) (by omega) w hw

/-- The last piece ends where the concatenation does. -/
theorem pieceWrites_fits_iff (m : ρ → List α) (r : ρ) {ps : List (List α)} (hne : ps ≠ []) :
    ∀ (off : Nat), (∀ w ∈ pieceWrites r off ps, w.Fits m) ↔ off + ps.flatten.length ≤ (m r).length := by
  intro off
  refine ⟨?_, pieceWrites_fits m r ps off⟩
  induction ps generalizing off with
  | nil => exact absurd rfl hne
  | cons p ps ih =>
    intro h
    rw [flatten_cons, length_append]
    cases ps with
    | nil => exact h ⟨r, off, p⟩ mem_cons_self
    | cons q qs =>
      have hrest := ih (cons_ne_nil q qs) (off + p.length)
        (fun w hw => h w (mem_cons_of_mem _ hw))
      omega

theorem cells_pieceWrites (r : ρ) (ps : List (List α)) :
    ∀ (off : Nat), cells (pieceWrites r off ps) = ps.flatten.length := by
  induction ps with
  | nil => intro off; rfl
  | cons p ps ih =>
    intro off
    rw [pieceWrites, cells_cons, ih, flatten_cons, length_append]

end Writes

/-! ## §3. Media: storing a list of writes, to its end or to a power cut. -/

section Media

variable {α ρ : Type} [DecidableEq ρ]

variable (m : ρ → List α)

variable (w : Write α ρ)

/-- A write inside its region is stored; any other is refused without effect. -/
def store : ρ → List α :=
  if w.Fits m then update m w.region (overlay (m w.region) w.offset w.data) else m

/-- All the writes of a list, in order. -/
def storeAll (ws : List (Write α ρ)) : ρ → List α := ws.foldl store m

/-- The same list stopped by a power cut after `k` cells: the write under way
keeps the prefix of its cells that was reached, the rest never happens. -/
def storeCut : (ρ → List α) → List (Write α ρ) → Nat → ρ → List α
  | m, [], _ => m
  | m, w :: ws, k =>
    if w.Fits m then
      if k < w.data.length then store m { w with data := w.data.take k }
      else storeCut (store m w) ws (k - w.data.length)
    else storeCut m ws k

@[simp] theorem storeAll_nil : storeAll m ([] : List (Write α ρ)) = m := rfl

@[simp] theorem storeAll_cons (ws : List (Write α ρ)) :
    storeAll m (w :: ws) = storeAll (store m w) ws := rfl

variable (ws vs : List (Write α ρ))

theorem storeAll_append :
    storeAll m (ws ++ vs) = storeAll (storeAll m ws) vs := by
  simp [storeAll]

theorem store_other (r : ρ) (h : r ≠ w.region) :
    store m w r = m r := by
  unfold store
  split
  · rw [update_of_ne h]
  · rfl

theorem store_self (h : w.Fits m) :
    store m w w.region = overlay (m w.region) w.offset w.data := by
  rw [store, if_pos h, update_self]

@[simp] theorem length_store (r : ρ) :
    (store m w r).length = (m r).length := by
  by_cases hr : r = w.region
  · subst hr
    unfold store
    split
    next h => rw [update_self, length_overlay _ _ _ h]
    next => rfl
  · rw [store_other m w r hr]

/-- Whether a write fits depends on the region lengths only, so it survives
every other write. -/
theorem fits_store (v w : Write α ρ) : v.Fits (store m w) ↔ v.Fits m := by
  simp [Write.Fits]

section

variable (ws : List (Write α ρ))

@[simp] theorem length_storeAll (r : ρ) :
    (storeAll m ws r).length = (m r).length := by
  induction ws generalizing m with
  | nil => rfl
  | cons w ws ih => rw [storeAll_cons, ih, length_store]

theorem storeAll_other :
    ∀ (m : ρ → List α) (r : ρ), (∀ w ∈ ws, w.region ≠ r) → storeAll m ws r = m r := by
  induction ws with
  | nil => intro m r _; rfl
  | cons w ws ih =>
    intro m r h
    rw [storeAll_cons, ih _ r (fun v hv => h v (mem_cons_of_mem _ hv)),
        store_other m w r (h w mem_cons_self).symm]

@[simp] theorem length_storeCut :
    ∀ (m : ρ → List α) (k : Nat) (r : ρ), (storeCut m ws k r).length = (m r).length := by
  induction ws with
  | nil => intro m k r; rfl
  | cons w ws ih =>
    intro m k r
    unfold storeCut
    split
    · split
      · exact length_store _ _ _
      · rw [ih, length_store]
    · exact ih m k r

theorem storeCut_other :
    ∀ (m : ρ → List α) (k : Nat) (r : ρ), (∀ w ∈ ws, w.region ≠ r) → storeCut m ws k r = m r := by
  induction ws with
  | nil => intro m k r _; rfl
  | cons w ws ih =>
    intro m k r h
    have hw : r ≠ w.region := (h w mem_cons_self).symm
    have hws : ∀ v ∈ ws, v.region ≠ r := fun v hv => h v (mem_cons_of_mem _ hv)
    unfold storeCut
    split
    · split
      · exact store_other m { w with data := w.data.take k } r hw
      · rw [ih _ _ r hws, store_other m w r hw]
    · exact ih m k r hws

end

/-- A cut inside the first part of an append never reaches the second. -/
theorem storeCut_append_left :
    ∀ (m : ρ → List α) (k : Nat), (∀ w ∈ ws, w.Fits m) → k < cells ws →
      storeCut m (ws ++ vs) k = storeCut m ws k := by
  induction ws with
  | nil => intro m k _ hk; simp at hk
  | cons w ws ih =>
    intro m k h hk
    have hw := h w mem_cons_self
    rw [cells_cons] at hk
    rw [cons_append, storeCut, storeCut, if_pos hw, if_pos hw]
    by_cases hlt : k < w.data.length
    · rw [if_pos hlt, if_pos hlt]
    · rw [if_neg hlt, if_neg hlt]
      exact ih (store m w) _
        (fun v hv => (fits_store m v w).mpr (h v (mem_cons_of_mem _ hv))) (by omega)

/-- A cut past the first part of an append is a cut of the second part, on the
media the first part leaves. -/
theorem storeCut_append_right :
    ∀ (m : ρ → List α) (k : Nat), (∀ w ∈ ws, w.Fits m) → cells ws ≤ k →
      storeCut m (ws ++ vs) k = storeCut (storeAll m ws) vs (k - cells ws) := by
  induction ws with
  | nil => intro m k _ _; rfl
  | cons w ws ih =>
    intro m k h hk
    rw [cells_cons] at hk
    rw [cons_append, storeCut, if_pos (h w mem_cons_self), if_neg (by omega), cells_cons, ih (store m w) _
          (fun v hv => (fits_store m v w).mpr (h v (mem_cons_of_mem _ hv))) (by omega)]
    congr 1
    omega

/-- A cut after the last cell is no cut. -/
theorem storeCut_of_cells_le (k : Nat) (h : ∀ w ∈ ws, w.Fits m) (hk : cells ws ≤ k) :
    storeCut m ws k = storeAll m ws := by
  have hright := storeCut_append_right ws [] m k h hk
  rwa [append_nil] at hright

/-- Writing the pieces is writing their concatenation. -/
theorem storeAll_pieceWrites (r : ρ) (ps : List (List α)) :
    ∀ (m : ρ → List α) (off : Nat), off + ps.flatten.length ≤ (m r).length →
      storeAll m (pieceWrites r off ps) r = overlay (m r) off ps.flatten := by
  induction ps with
  | nil => intro m off _; simp [pieceWrites]
  | cons p ps ih =>
    intro m off h
    rw [flatten_cons, length_append] at h
    have hw : Write.Fits ⟨r, off, p⟩ m := by
      show off + p.length ≤ (m r).length
      omega
    have hs : store m ⟨r, off, p⟩ r = overlay (m r) off p := store_self m ⟨r, off, p⟩ hw
    rw [pieceWrites, storeAll_cons, ih _ _ (by rw [length_store]; omega), hs,
        overlay_append _ _ _ _ (by omega), flatten_cons]

/-- **A cut run of pieces is a torn write of their concatenation**: the region
keeps exactly the first `k` cells. -/
theorem storeCut_pieceWrites (r : ρ) (ps : List (List α)) :
    ∀ (m : ρ → List α) (off k : Nat), off + ps.flatten.length ≤ (m r).length →
      storeCut m (pieceWrites r off ps) k r = overlay (m r) off (ps.flatten.take k) := by
  induction ps with
  | nil => intro m off k _; simp [pieceWrites, storeCut]
  | cons p ps ih =>
    intro m off k h
    rw [flatten_cons, length_append] at h
    have hw : Write.Fits ⟨r, off, p⟩ m := by
      show off + p.length ≤ (m r).length
      omega
    rw [pieceWrites, storeCut, if_pos hw, flatten_cons]
    by_cases hk : k < p.length
    · have hfit : Write.Fits ⟨r, off, p.take k⟩ m := by
        show off + (p.take k).length ≤ (m r).length
        rw [length_take]
        omega
      rw [if_pos hk, take_append_of_le_length (by omega)]
      exact store_self m ⟨r, off, p.take k⟩ hfit
    · have hs : store m ⟨r, off, p⟩ r = overlay (m r) off p := store_self m ⟨r, off, p⟩ hw
      have htake : (p ++ ps.flatten).take k = p ++ ps.flatten.take (k - p.length) := by
        rw [take_append, take_of_length_le (by omega)]
      have hle : (ps.flatten.take (k - p.length)).length ≤ ps.flatten.length := by
        rw [length_take]
        omega
      have hroom : off + p.length + ps.flatten.length ≤ (store m ⟨r, off, p⟩ r).length := by
        rw [length_store]
        omega
      have htorn : storeCut (store m ⟨r, off, p⟩) (pieceWrites r (off + p.length) ps)
          (k - p.length) r
          = overlay (overlay (m r) off p) (off + p.length) (ps.flatten.take (k - p.length)) := by
        rw [ih _ _ _ hroom, hs]
      rw [if_neg hk, htake, ← overlay_append _ _ _ _ (by omega)]
      exact htorn

end Media

end ByteStore
