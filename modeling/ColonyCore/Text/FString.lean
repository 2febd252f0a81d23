/-
  ColonyCore.Text.FString
  **STRINGS OF FIXED CAPACITY (`Cpl/Text/FString_.cpp`, `Cpl/Text/String_.cpp`).**

  An `FString_` keeps a C string in `maxLen + 1` bytes of storage and remembers whether
  its last write was cut.  The sources of the writes are strings of the caller's, or null
  pointers; a store outside the storage and a read through a null pointer are FAULTS
  (`none`).

    • `Op.result`        — what a write means, without a capacity,
    • `copyIn_spec`, `appendTo_spec`, `insertAt_spec` — the string afterwards is the
      result, cut to the capacity, and what `truncated()` says,
    • `boundedRun_iff`   — every write of a run is right EXACTLY when none passes a length
      beyond the capacity with a shorter string, and none inserts a null pointer,
    • `flag_without_loss` — what happens otherwise.
-/
import ColonyCore.Lib.CString
import ColonyCore.Lib.Interleaving

namespace ColonyCore.Text

open CString ByteStore LittleEndian List Interleaving

/-! ## §1. The code. -/

/-- The members of an `FString_`: `m_internalMaxlen`, the storage at `m_strPtr`, and
`m_truncated`. -/
structure FString where
  maxLen : Nat
  storage : List Byte
  truncated : Bool
  deriving DecidableEq

namespace FString

variable (C : CTypes)

variable (f : FString)

/-- The storage after a write, and the flag. -/
def written (storage : Option (List Byte)) (truncated : Bool) : Option FString :=
  storage.map fun s => { f with storage := s, truncated := truncated }

/-- `copyIn`; a null pointer is `none`. -/
def copyIn (src : Option CStr) (len : Int) : Option FString :=
  match src with
  | none => f.written (putNul f.storage 0) true
  | some src =>
    let truncated := !decide (len ≤ f.maxLen)
    let len := min (f.maxLen : Int) len
    f.written ((strncpy f.storage src (C.toSize len)).bind (putNul · len)) truncated

/-- `appendTo`. -/
def appendTo (string : Option CStr) (len : Int) : Option FString :=
  match string with
  | none => some f
  | some string =>
    let curlen := C.toInt (strlen f.storage)
    let avail := f.maxLen - curlen
    let copylen := min len avail
    f.written ((strncat f.storage string (C.toSize copylen)).bind (putNul · (curlen + copylen)))
      !decide (copylen = len)

/-- `insertAt`. -/
def insertAt (insertOffset : Int) (stringToInsert : Option CStr) : Option FString :=
  let insertOffset := if insertOffset < 0 then 0 else insertOffset
  let curlen := C.toInt (strlen f.storage)
  match stringToInsert with
  -- `strlen` of a null pointer
  | none => none
  | some string =>
    let insertlen := C.toInt string.val.length
    if curlen ≤ insertOffset then f.appendTo C stringToInsert insertlen else
    let avail := f.maxLen - insertOffset
    let copylen := min insertlen avail
    let remainderlen := avail - copylen
    let shiftlen := curlen - insertOffset
    let movelen := min shiftlen remainderlen
    -- a negative length is a huge `size_t`: the copy of the string leaves the storage
    if copylen < 0 then none else
    f.written
      ((shiftRight f.storage insertOffset.toNat copylen.toNat movelen.toNat).bind fun s =>
        (put s insertOffset.toNat (string.val.take copylen.toNat)).bind (putNul · f.maxLen))
      (decide (movelen ≠ shiftlen) || decide (copylen ≠ insertlen))

/-- The length that `operator=` and `operator+=` pass on. -/
def lengthOf (string : Option CStr) : Int :=
  match string with
  | none => 0
  | some string => C.toInt string.val.length

/-- The writes. -/
inductive Op where
  | copyIn (src : Option CStr) (n : Nat)
  | appendTo (src : Option CStr) (n : Nat)
  | insertAt (k : Int) (src : Option CStr)
  | assign (src : Option CStr)
  | appendAssign (src : Option CStr)

/-- A write of the code. -/
def step : Op → Option FString
  | .copyIn src n => f.copyIn C src n
  | .appendTo src n => f.appendTo C src n
  | .insertAt k src => f.insertAt C k src
  | .assign src => f.copyIn C src (lengthOf C src)
  | .appendAssign src => f.appendTo C src (lengthOf C src)

/-! ## §2. What a write means. -/

/-- The bytes of a source; a null pointer has none. -/
def bytes (src : Option CStr) : List Byte :=
  match src with
  | none => []
  | some s => s.val

namespace Op

/-- The source of a write. -/
def source : Op → Option CStr
  | .copyIn src _ | .appendTo src _ | .insertAt _ src | .assign src | .appendAssign src => src

/-- An offset clamped to a string. -/
def clamp (k : Int) (c : List Byte) : Nat := min k.toNat c.length

/-- **The string after a write**, if there were no capacity. -/
def result (c : List Byte) : Op → List Byte
  | .copyIn src n => (bytes src).take n
  | .appendTo src n => c ++ (bytes src).take n
  | .insertAt k src => c.take (clamp k c) ++ (bytes src ++ c.drop (clamp k c))
  | .assign src => bytes src
  | .appendAssign src => c ++ bytes src

/-- The length of the source is an `int`. -/
def Fits : Op → Prop
  | .copyIn _ _ | .appendTo _ _ => True
  | .insertAt _ src | .assign src | .appendAssign src => (bytes src).length ≤ C.INT_MAX

/-- The length passed is not beyond the capacity with a string that is not; and no null
pointer is inserted. -/
def Meets (maxLen : Nat) (c : List Byte) : Op → Prop
  | .copyIn src n => src = none ∨ n ≤ maxLen ∨ maxLen < (bytes src).length
  | .appendTo src n => src = none ∨ c.length + n ≤ maxLen ∨ maxLen < c.length + (bytes src).length
  | .insertAt _ src => src ≠ none
  | .assign _ | .appendAssign _ => True

end Op

/-- The string is terminated inside its storage, and its capacity is an `int`. -/
structure WellFormed (f : FString) : Prop where
  size : f.storage.length = f.maxLen + 1
  terminated : 0#8 ∈ f.storage
  maxLen_le : f.maxLen ≤ C.INT_MAX

/-- **A write is right**: it stays inside the storage, leaves the result cut to the
capacity, and says so if a byte of the result was lost (unless the source was null). -/
def Bounded (op : Op) : Prop :=
  ∃ f', f.step C op = some f' ∧ f'.maxLen = f.maxLen ∧ WellFormed C f' ∧
    cstr f'.storage = (op.result (cstr f.storage)).take f.maxLen ∧
    (op.source ≠ none →
      (f'.truncated = true ↔ f.maxLen < (op.result (cstr f.storage)).length))

/-! ## §3. The three functions. -/

section Writes

variable {C} {f : FString} (hf : WellFormed C f)

include hf

theorem WellFormed.strlen_le : strlen f.storage ≤ f.maxLen := by
  have hlt := strlen_lt hf.terminated
  rw [hf.size] at hlt
  omega

/-- A write of storage that is terminated. -/
theorem WellFormed.written {d : List Byte} (hlen : d.length = f.storage.length) (hnul : 0#8 ∈ d)
    (truncated : Bool) : WellFormed C { f with storage := d, truncated := truncated } :=
  ⟨hlen.trans hf.size, hnul, hf.maxLen_le⟩

/-- **`copyIn`**: the string is right, and the flag compares the LENGTH PASSED with the
capacity. -/
theorem copyIn_spec (src : CStr) (n : Nat) :
    ∃ f', f.copyIn C (some src) n = some f' ∧ f'.maxLen = f.maxLen ∧ WellFormed C f' ∧
      cstr f'.storage = (src.val.take n).take f.maxLen ∧
      (f'.truncated = true ↔ f.maxLen < n) := by
  have hmin : min (f.maxLen : Int) n = (min f.maxLen n : Nat) := by omega
  have hle := hf.maxLen_le
  obtain ⟨d, hd, hlen, hcstr, hnul⟩ := strncpy_nul f.storage src.property
    (show min f.maxLen n < f.storage.length by rw [hf.size]; omega)
  refine ⟨{ f with storage := d, truncated := !decide ((n : Int) ≤ f.maxLen) }, ?_, rfl,
    hf.written hlen hnul _, ?_, ?_⟩
  · unfold copyIn
    simp only
    rw [hmin, C.toSize_of_le (by omega), hd]
    rfl
  · rw [hcstr, take_take]
  · simp only [Bool.not_eq_true', decide_eq_false_iff_not]
    omega

/-- **`appendTo`**: likewise, with the room that is left. -/
theorem appendTo_spec (src : CStr) (n : Nat) :
    ∃ f', f.appendTo C (some src) n = some f' ∧ f'.maxLen = f.maxLen ∧ WellFormed C f' ∧
      cstr f'.storage = (cstr f.storage ++ src.val.take n).take f.maxLen ∧
      (f'.truncated = true ↔ f.maxLen < strlen f.storage + n) := by
  have hcur := hf.strlen_le
  have hle := hf.maxLen_le
  have hmin : min (n : Int) (f.maxLen - strlen f.storage)
      = (min n (f.maxLen - strlen f.storage) : Nat) := by omega
  obtain ⟨d, hd, hlen, hcstr, hnul⟩ := strncat_nul (n := min n (f.maxLen - strlen f.storage))
    hf.terminated src.property (by rw [hf.size]; omega)
  refine ⟨{ f with
      storage := d
      truncated := !decide (((min n (f.maxLen - strlen f.storage) : Nat) : Int) = n) },
    ?_, rfl, hf.written hlen hnul _, ?_, ?_⟩
  · unfold appendTo
    simp only
    rw [C.toInt_of_le (show strlen f.storage ≤ C.INT_MAX by omega), hmin,
        C.toSize_of_le (by omega), ← Int.natCast_add, hd]
    rfl
  · rw [hcstr, take_append, take_of_length_le hcur, take_take, Nat.min_comm]
    rfl
  · simp only [Bool.not_eq_true', decide_eq_false_iff_not]
    omega

/-- **`insertAt`** with a string whose length is an `int`: the string and the flag are
right. -/
theorem insertAt_spec (k : Int) (src : CStr) (hsrc : src.val.length ≤ C.INT_MAX) :
    ∃ f', f.insertAt C k (some src) = some f' ∧ f'.maxLen = f.maxLen ∧ WellFormed C f' ∧
      cstr f'.storage = (Op.result (cstr f.storage) (.insertAt k (some src))).take f.maxLen ∧
      (f'.truncated = true ↔ f.maxLen < strlen f.storage + src.val.length) := by
  have hcur := hf.strlen_le
  have hle := hf.maxLen_le
  have hoff : (if k < 0 then 0 else k) = (k.toNat : Int) := by split <;> omega
  unfold insertAt
  simp only
  rw [hoff, C.toInt_of_le (show strlen f.storage ≤ C.INT_MAX by omega), C.toInt_of_le hsrc]
  by_cases hend : strlen f.storage ≤ k.toNat
  · -- behind the end the string is appended
    have hclamp : Op.clamp k (cstr f.storage) = (cstr f.storage).length := Nat.min_eq_right hend
    obtain ⟨f', happ, hmax, hwf, hcstr, htrunc⟩ := appendTo_spec hf src src.val.length
    refine ⟨f', by rw [if_pos (by omega), happ], hmax, hwf, ?_, htrunc⟩
    rw [hcstr]
    simp [Op.result, hclamp, bytes]
  · have hk : k.toNat ≤ (cstr f.storage).length := Nat.le_of_not_le hend
    have hclamp : Op.clamp k (cstr f.storage) = k.toNat := Nat.min_eq_left hk
    -- the lengths as the code computes them
    obtain ⟨copylen, hcopy⟩ : ∃ n, n = min src.val.length (f.maxLen - k.toNat) := ⟨_, rfl⟩
    obtain ⟨movelen, hmove⟩ :
        ∃ n, n = min (strlen f.storage - k.toNat) (f.maxLen - k.toNat - copylen) := ⟨_, rfl⟩
    have hcopyInt : min (src.val.length : Int) (f.maxLen - k.toNat) = copylen := by omega
    have hmoveInt : min ((strlen f.storage : Int) - k.toNat) (f.maxLen - k.toNat - copylen)
        = movelen := by omega
    obtain ⟨d, e, hrun, -, -, -, -, helen, hstr, hmem⟩ := insert_cut hf.terminated src.property
      (Nat.lt_of_not_le hend) hcur (by rw [hf.size]; omega) hcopy hmove
    rw [hcopyInt, hmoveInt, if_neg (by omega)]
    simp only [Int.toNat_natCast]
    rw [hrun]
    refine ⟨_, rfl, rfl, hf.written helen hmem _, ?_, ?_⟩
    · simp only [Op.result, hclamp]
      exact hstr
    · simp only [Bool.or_eq_true, decide_eq_true_eq]
      omega

/-- A null pointer empties the string. -/
theorem copyIn_null (len : Int) :
    ∃ f', f.copyIn C none len = some f' ∧ f'.maxLen = f.maxLen ∧ WellFormed C f' ∧
      cstr f'.storage = [] := by
  have hpos : 0 < f.storage.length := by rw [hf.size]; omega
  obtain ⟨hstr, hmem⟩ := cstr_of_getElem?
    not_mem_nil (fun i hi => absurd hi (Nat.not_lt_zero i))
    (by rw [length_nil, getElem?_overlay_nul hpos, if_pos rfl])
  have hput : putNul f.storage 0 = some (overlay f.storage 0 [0]) := putNul_eq hpos
  refine ⟨{ f with storage := overlay f.storage 0 [0], truncated := true }, ?_, rfl,
    hf.written (length_overlay_nul hpos) hmem _, hstr⟩
  unfold copyIn
  rw [hput]
  rfl

omit hf in
/-- A write whose string is right is right exactly if its flag is. -/
theorem bounded_iff_flag (op : Op) {f' : FString} (hstep : f.step C op = some f')
    (hmax : f'.maxLen = f.maxLen) (hwf : WellFormed C f')
    (hcstr : cstr f'.storage = (op.result (cstr f.storage)).take f.maxLen) :
    Bounded C f op ↔ (op.source ≠ none →
      (f'.truncated = true ↔ f.maxLen < (op.result (cstr f.storage)).length)) := by
  constructor
  · rintro ⟨g, hg, -, -, -, hflag⟩
    obtain rfl : f' = g := Option.some.inj (hstep.symm.trans hg)
    exact hflag
  · exact fun hflag => ⟨f', hstep, hmax, hwf, hcstr, hflag⟩

/-- **One write.** -/
theorem bounded_iff (op : Op) (hfit : op.Fits C) :
    Bounded C f op ↔ op.Meets f.maxLen (cstr f.storage) := by
  have hcur : (cstr f.storage).length ≤ f.maxLen := hf.strlen_le
  cases op with
  | copyIn src n =>
    cases src with
    | none =>
      obtain ⟨f', hstep, hmax, hwf, hcstr⟩ := copyIn_null hf n
      rw [bounded_iff_flag (.copyIn none n) hstep hmax hwf (by rw [hcstr]; simp [Op.result, bytes])]
      exact ⟨fun _ => Or.inl rfl, fun _ hne => absurd rfl hne⟩
    | some src =>
      obtain ⟨f', hstep, hmax, hwf, hcstr, hflag⟩ := copyIn_spec hf src n
      rw [bounded_iff_flag (.copyIn (some src) n) hstep hmax hwf hcstr, hflag]
      simp only [Op.source, Op.result, Op.Meets, length_take, ne_eq,
        reduceCtorEq, not_false_eq_true, forall_const, false_or]
      omega
  | appendTo src n =>
    cases src with
    | none =>
      rw [bounded_iff_flag (.appendTo none n) (show f.step C (.appendTo none n) = some f from rfl) rfl hf
        (by simp [Op.result, bytes, take_of_length_le hcur])]
      exact ⟨fun _ => Or.inl rfl, fun _ hne => absurd rfl hne⟩
    | some src =>
      obtain ⟨f', hstep, hmax, hwf, hcstr, hflag⟩ := appendTo_spec hf src n
      rw [bounded_iff_flag (.appendTo (some src) n) hstep hmax hwf hcstr, hflag]
      simp only [Op.source, Op.result, Op.Meets, length_take, length_append,
        strlen, ne_eq, reduceCtorEq, not_false_eq_true, forall_const, false_or]
      omega
  | insertAt k src =>
    cases src with
    | none =>
      refine ⟨fun h => ?_, fun h => absurd rfl h⟩
      obtain ⟨f', hstep, -⟩ := h
      exact absurd hstep (by simp [step, insertAt])
    | some src =>
      obtain ⟨f', hstep, hmax, hwf, hcstr, hflag⟩ := insertAt_spec hf k src hfit
      rw [bounded_iff_flag (.insertAt k (some src)) hstep hmax hwf hcstr, hflag]
      refine ⟨fun _ => by simp [Op.Meets], fun _ _ => ?_⟩
      have hsplit : (take (Op.clamp k (cstr f.storage)) (cstr f.storage)).length
          + (drop (Op.clamp k (cstr f.storage)) (cstr f.storage)).length
          = strlen f.storage := by
        rw [← length_append, take_append_drop]
        rfl
      simp only [Op.result, bytes, length_append]
      omega
  | assign src =>
    refine ⟨fun _ => trivial, fun _ => ?_⟩
    cases src with
    | none =>
      obtain ⟨f', hstep, hmax, hwf, hcstr⟩ := copyIn_null hf (lengthOf C none)
      rw [bounded_iff_flag (.assign none) hstep hmax hwf (by rw [hcstr]; simp [Op.result, bytes])]
      exact fun hne => absurd rfl hne
    | some src =>
      obtain ⟨f', hstep, hmax, hwf, hcstr, hflag⟩ := copyIn_spec hf src src.val.length
      rw [take_length] at hcstr
      have hassign : f.step C (.assign (some src)) = some f' := by
        rw [← hstep]
        exact congrArg (f.copyIn C (some src)) (C.toInt_of_le hfit)
      rw [bounded_iff_flag (.assign (some src)) hassign hmax hwf hcstr, hflag]
      exact fun _ => Iff.rfl
  | appendAssign src =>
    refine ⟨fun _ => trivial, fun _ => ?_⟩
    cases src with
    | none =>
      rw [bounded_iff_flag (.appendAssign none) (show f.step C (.appendAssign none) = some f from rfl) rfl hf
        (by simp [Op.result, bytes, take_of_length_le hcur])]
      exact fun hne => absurd rfl hne
    | some src =>
      obtain ⟨f', hstep, hmax, hwf, hcstr, hflag⟩ := appendTo_spec hf src src.val.length
      rw [take_length] at hcstr
      have hassign : f.step C (.appendAssign (some src)) = some f' := by
        rw [← hstep]
        exact congrArg (f.appendTo C (some src)) (C.toInt_of_le hfit)
      rw [bounded_iff_flag (.appendAssign (some src)) hassign hmax hwf hcstr, hflag]
      simp only [Op.result, bytes, length_append, strlen, implies_true]

end Writes

/-! ## §4. Runs. -/

/-- **Every write of a run is right EXACTLY when** no `copyIn` or `appendTo` of it passes
a length beyond the room that is there with a string that is not, and no null pointer
is inserted. -/
theorem boundedRun_iff {C : CTypes} {f : FString} (hf : WellFormed C f) (ops : List Op)
    (hfit : ∀ op ∈ ops, op.Fits C) :
    Along (step C) (Bounded C) f ops ↔
      Along (step C) (fun f op => op.Meets f.maxLen (cstr f.storage)) f ops := by
  refine along_congr (WellFormed C)
    (fun f op hop hf => bounded_iff hf op (hfit op hop)) (fun f op f' _ hb hstep => ?_) hf
  obtain ⟨g, hg, -, hwf, -⟩ := hb
  obtain rfl : f' = g := Option.some.inj (hstep.symm.trans hg)
  exact hwf

/-- The characters of a literal. -/
def lit (s : List Byte) (h : 0#8 ∉ s) : Option CStr := some ⟨s, h⟩

/-- An `FString<3>`. -/
def three : FString := ⟨3, [0x61, 0, 0, 0], false⟩

/-- A run that is right: "a", then "abcd" inserted at 1, which is cut, then `+= "x"`. -/
theorem boundedRun_three :
    Along (step CTypes.lp64) (Bounded CTypes.lp64) three
      [.insertAt 1 (lit [0x61, 0x62, 0x63, 0x64] (by decide)),
        .appendAssign (lit [0x78] (by decide))] :=
  (boundedRun_iff ⟨rfl, by decide, by decide⟩ _ (by
    intro op hop
    simp only [mem_cons, not_mem_nil, or_false] at hop
    rcases hop with rfl | rfl <;> (show length _ ≤ CTypes.INT_MAX _; decide))).mpr
    ⟨Option.some_ne_none _, fun _ _ => ⟨trivial, fun _ _ => trivial⟩⟩

/-- **The flag without a loss**: `copyIn( "ab", 10 )` and `appendTo( "b", 10 )` fit, and
`truncated()` is true; and a null pointer that is inserted is read. -/
theorem flag_without_loss :
    ((three.copyIn CTypes.lp64 (lit [0x61, 0x62] (by decide)) 10).map fun f =>
        (cstr f.storage, f.truncated)) = some ([0x61, 0x62], true) ∧
    ((three.appendTo CTypes.lp64 (lit [0x62] (by decide)) 10).map fun f =>
        (cstr f.storage, f.truncated)) = some ([0x61, 0x62], true) ∧
    three.insertAt CTypes.lp64 0 none = none := by
  decide +kernel

end FString

end ColonyCore.Text
