/-
  ColonyCore.Text.TextBlock
  **THE TEXT BLOCK TOKENIZER (`Cpl/Text/Tokenizer/TextBlock.cpp`).**

  The constructor cuts a string into parameters IN PLACE: delimiters become NULs, and
  quotes, escapes and the whitespace around a parameter are removed by moving the rest
  of the string down, while pointers to the scan position, to the start of the
  parameter and to its first and last characters are held into it.  The memory is the
  string with its NUL; an access outside of it is a FAULT (`none`).

    • `removeCharacter_layout`, `textString_spec`, `removeWhiteSpace_spec` — what the
      helpers do to a string that is finished parameters, the characters of the current
      one, the rest up to the NUL, and what is left behind it,
    • `scan_item`          — one quoted parameter with whitespace around it,
    • `scan_items`         — the loop over all of them, by induction on their list,
    • `tokenizes`          — the whole text: the parameters one after the other,
    • `roundTrips_iff`     — they are read back EXACTLY when their number is an
      `unsigned`.
-/
import ColonyCore.Lib.CString

namespace ColonyCore.Text

open CString ByteStore LittleEndian List Option

/-! ## §1. The code. -/

/-- The characters a block is cut by. -/
structure Separators where
  delimiter : Byte
  terminator : Byte
  quote : Byte
  escape : Byte

/-- `isspace` in the C locale; a character above 0x7F is none. -/
def isspace (b : Byte) : Bool :=
  b ∈ [0x20, 0x09, 0x0A, 0x0B, 0x0C, 0x0D]

/-- The members of a `TextBlock`, with the memory of the string; pointers are offsets. -/
structure TextBlock where
  mem : List Byte
  base : Nat
  ptr : Nat
  validTokens : Bool
  terminatorFound : Bool
  count : Nat

namespace TextBlock

/-- `removeCharacter_`: the rest of the string is moved down, its NUL included. -/
def removeCharacter_ (mem : List Byte) (charToRemove numCharsToRemove : Nat) :
    Option (List Byte) :=
  if numCharsToRemove = 0 then some mem else
  let nextChar := charToRemove + numCharsToRemove
  if 0#8 ∈ mem.drop nextChar then
    memmove mem charToRemove nextChar (strlen (mem.drop nextChar) + 1)
  else none

/-- `removeWhiteSpace`: the memory and `m_ptr`.  `lastNonSpace` may point before the
parameter. -/
def removeWhiteSpace (mem : List Byte) (ptr startOfToken : Nat) (firstNonSpace : Option Nat)
    (lastNonSpace : Option Int) : Option (List Byte × Nat) :=
  let numSpaces := match firstNonSpace with
    | some first => first - startOfToken
    | none => ptr - startOfToken
  (removeCharacter_ mem startOfToken numSpaces).bind fun mem =>
    let ptr := ptr - numSpaces
    match lastNonSpace with
    | none => some (mem, ptr)
    | some last =>
      let last := last - numSpaces + 1
      if last < ptr then
        if last < 0 then none else
        (removeCharacter_ mem last.toNat (ptr - last.toNat)).map fun mem => (mem, last.toNat)
      else some (mem, ptr)

/-- The loop that consumes a text string: the memory, `m_ptr`, and whether the closing
quote was found. -/
def textString (K : Separators) : (fuel : Nat) → List Byte → (ptr : Nat) → (escaping : Bool) →
    Option (List Byte × Nat × Bool)
  | 0, _, _, _ => none
  | fuel + 1, mem, ptr, escaping =>
    mem[ptr]?.bind fun c =>
      if c = 0#8 then some (mem, ptr, false)
      else if escaping then textString K fuel mem (ptr + 1) false
      else if c = K.quote then (removeCharacter_ mem ptr 1).map fun mem => (mem, ptr, true)
      else if c = K.escape then
        (removeCharacter_ mem ptr 1).bind fun mem => textString K fuel mem ptr true
      else textString K fuel mem (ptr + 1) false

/-- The variables of the main loop. -/
structure Scan where
  mem : List Byte
  ptr : Nat
  startOfToken : Nat
  firstNonSpace : Option Nat
  lastNonSpace : Option Int
  validTokens : Bool
  count : Nat

/-- The characters of a run of whitespace. -/
def spaces (mem : List Byte) (ptr : Nat) : Nat := ((mem.drop ptr).takeWhile isspace).length

/-- The special case of a space as the delimiter: further spaces are no parameters. -/
def skipSpaces (w : Nat) (K : Separators) (s : Scan) : Option Scan :=
  if K.delimiter = 0x20#8 then
    let ptr := s.ptr + spaces s.mem s.ptr
    s.mem[ptr]?.bind fun c =>
      (removeCharacter_ s.mem s.ptr (ptr - s.ptr)).map fun mem =>
        { s with
          mem := mem
          count := if c = 0#8 ∨ c = K.terminator then (s.count + 2 ^ w - 1) % 2 ^ w else s.count }
  else some s

/-- The parameter that ends at `m_ptr` is finished by a NUL. -/
def finish (w : Nat) (s : Scan) : Option Scan :=
  (removeWhiteSpace s.mem s.ptr s.startOfToken s.firstNonSpace s.lastNonSpace).bind fun r =>
    (put r.1 r.2 [0]).map fun mem =>
      { s with mem := mem, ptr := r.2 + 1, count := (s.count + 1) % 2 ^ w }

/-- The branch of a normal character. -/
def normal (s : Scan) (c : Byte) : Scan :=
  let s := match s.firstNonSpace, s.lastNonSpace with
    | none, _ =>
      if isspace c then s
      else { s with firstNonSpace := some s.ptr, lastNonSpace := some s.ptr }
    | some _, some _ => if isspace c then s else { s with lastNonSpace := some s.ptr }
    | some _, none => s
  { s with ptr := s.ptr + 1 }

/-- The branch of a quote. -/
def quoted (K : Separators) (s : Scan) : Option Scan :=
  (removeCharacter_ s.mem s.ptr 1).bind fun mem =>
    (textString K (mem.length + 1) mem s.ptr false).map fun r =>
      { s with
        mem := r.1
        ptr := r.2.1
        firstNonSpace := some (s.firstNonSpace.getD s.ptr)
        lastNonSpace := if r.2.2 then some (r.2.1 - 1 : Int) else s.lastNonSpace
        validTokens := r.2.2 }

/-- The main loop; `w` is the width of `unsigned`. -/
def scan (w : Nat) (K : Separators) (base : Nat) : (fuel : Nat) → Scan → Option TextBlock
  | 0, _ => none
  | fuel + 1, s =>
    s.mem[s.ptr]?.bind fun c =>
      if c = 0#8 then
        -- the end of the string is the end of the last parameter
        (removeWhiteSpace s.mem s.ptr s.startOfToken s.firstNonSpace s.lastNonSpace).map fun r =>
          ⟨r.1, base, r.2, s.validTokens, false, (s.count + 1) % 2 ^ w⟩
      else if c = K.terminator then
        (finish w s).map fun s => ⟨s.mem, base, s.ptr, s.validTokens, true, s.count⟩
      else if c = K.delimiter then
        ((finish w s).bind (skipSpaces w K)).bind fun s =>
          scan w K base fuel
            { s with startOfToken := s.ptr, firstNonSpace := none, lastNonSpace := none }
      else if c = K.quote then (quoted K s).bind (scan w K base fuel)
      else scan w K base fuel (normal s c)

/-- The constructor; a null pointer is `none`. -/
def tokenize (w : Nat) (K : Separators) (string : Option (List Byte)) : Option TextBlock :=
  match string with
  | none => some ⟨[], 0, 0, false, false, 0⟩
  | some mem =>
    -- `stripSpace`
    let base := spaces mem 0
    mem[base]?.bind fun c =>
      if c = 0#8 then some ⟨mem, base, base, true, false, 0⟩
      else scan w K base (mem.length + 1) ⟨mem, base, base, none, none, true, 0⟩

/-- The loop of `getParameter`: `index` strings are skipped. -/
def skipTokens (mem : List Byte) : (index token : Nat) → Option Nat
  | 0, token => some token
  | index + 1, token =>
    if 0#8 ∈ mem.drop token then skipTokens mem index (token + strlen (mem.drop token) + 1)
    else none

/-- `getParameter`; a null pointer is `some none`. -/
def getParameter (t : TextBlock) (index : Nat) : Option (Option Nat) :=
  if t.validTokens = false ∨ t.count ≤ index then some none
  else (skipTokens t.mem index t.base).map some

/-! ## §2. The helpers on a string that is being scanned. -/

/-- Characters that are told apart from each other, from whitespace and from NUL. -/
structure Proper (K : Separators) : Prop where
  nonNul : ∀ c ∈ [K.delimiter, K.terminator, K.quote, K.escape], c ≠ 0#8
  nonSpace : ∀ c ∈ [K.delimiter, K.terminator, K.quote, K.escape], isspace c = false
  distinct : [K.delimiter, K.terminator, K.quote, K.escape].Nodup

/-- **The rest of the string moved down**: what it leaves behind its NUL is of no
meaning. -/
theorem removeCharacter_layout (a x : List Byte) {rest : List Byte} (hrest : 0#8 ∉ rest)
    (junk : List Byte) :
    ∃ junk', removeCharacter_ (a ++ (x ++ (rest ++ 0#8 :: junk))) a.length x.length
      = some (a ++ (rest ++ 0#8 :: junk')) := by
  unfold removeCharacter_
  by_cases hx : x.length = 0
  · rw [length_eq_zero_iff] at hx
    exact ⟨junk, by rw [hx]; rfl⟩
  · have hdrop : (a ++ (x ++ (rest ++ 0#8 :: junk))).drop (a.length + x.length)
        = rest ++ 0#8 :: junk := by
      rw [← append_assoc, ← length_append, drop_left]
    have hlen : strlen (rest ++ 0#8 :: junk) = rest.length :=
      congrArg length (cstr_of_not_mem hrest junk)
    have hslice : slice (a ++ (x ++ (rest ++ 0#8 :: junk))) (a.length + x.length)
        (rest.length + 1) = rest ++ [0] := by
      unfold slice
      rw [hdrop, take_length_add_append]
      rfl
    rw [if_neg hx]
    simp only
    rw [hdrop, if_pos (by simp), hlen]
    unfold memmove
    rw [if_pos (by simp only [length_append, length_cons]; omega), hslice,
        put_eq (by simp only [length_append, length_cons, length_nil]; omega)]
    unfold overlay
    simp

/-- A character of the string is at its offset. -/
theorem getElem?_layout (a : List Byte) (c : Byte) (rest : List Byte) :
    (a ++ c :: rest)[a.length]? = some c := by
  rw [getElem?_append_right (Nat.le_refl _), Nat.sub_self]
  rfl

/-- It is replaced by a NUL there. -/
theorem put_layout (a : List Byte) (c : Byte) (rest : List Byte) :
    put (a ++ c :: rest) a.length [0] = some (a ++ 0#8 :: rest) := by
  rw [put_eq (by simp only [length_append, length_cons, length_nil]; omega)]
  unfold overlay
  simp

/-- A parameter with an escape before every quote and escape. -/
def escaped (K : Separators) (p : List Byte) : List Byte :=
  p.flatMap fun b => if b = K.quote ∨ b = K.escape then [K.escape, b] else [b]

section Proper

variable {K : Separators} (hK : Proper K)

include hK

theorem Proper.quote_ne_nul : K.quote ≠ 0#8 := hK.nonNul _ (by simp)

theorem Proper.escape_ne_nul : K.escape ≠ 0#8 := hK.nonNul _ (by simp)

theorem Proper.escape_ne_quote : K.escape ≠ K.quote := by
  have h := hK.distinct
  simp only [nodup_cons, mem_cons, not_mem_nil, or_false] at h
  exact fun heq => h.2.2.1 heq.symm

theorem nul_not_mem_escaped {p : List Byte} (hp : 0#8 ∉ p) : 0#8 ∉ escaped K p := by
  unfold escaped
  rw [mem_flatMap]
  rintro ⟨b, hb, hmem⟩
  split at hmem
  next =>
    rcases mem_cons.mp hmem with hesc | hlast
    · exact hK.escape_ne_nul hesc.symm
    · exact hp (mem_singleton.mp hlast ▸ hb)
  next => exact hp (mem_singleton.mp hmem ▸ hb)

/-- **The loop of a text string** takes the escapes and the closing quote out. -/
theorem textString_spec {p : List Byte} (hp : 0#8 ∉ p) {rest : List Byte} (hrest : 0#8 ∉ rest) :
    ∀ (fuel : Nat) (a junk : List Byte), (escaped K p).length < fuel →
    ∃ junk', textString K fuel (a ++ (escaped K p ++ (K.quote :: (rest ++ 0#8 :: junk)))) a.length
        false
      = some (a ++ (p ++ (rest ++ 0#8 :: junk')), a.length + p.length, true) := by
  -- the characters read so far are part of `a`
  induction p with
  | nil =>
    intro fuel a junk hfuel
    obtain ⟨n, rfl⟩ := Nat.exists_eq_add_of_lt hfuel
    obtain ⟨junk', hremove⟩ := removeCharacter_layout a [K.quote] hrest junk
    refine ⟨junk', ?_⟩
    simp only [escaped, flatMap_nil, nil_append]
    rw [textString, getElem?_layout, bind_some, if_neg hK.quote_ne_nul, if_pos rfl]
    exact congrArg (Option.map _) hremove
  | cons b p ih =>
    intro fuel a junk hfuel
    have hb : b ≠ 0#8 := fun h => hp (h ▸ mem_cons_self)
    have hp' : 0#8 ∉ p := fun h => hp (mem_cons_of_mem b h)
    have hshape : ∀ tail : List Byte, a ++ (b :: p ++ tail) = (a ++ [b]) ++ (p ++ tail) := by
      simp
    have hend : a.length + (b :: p).length = (a ++ [b]).length + p.length := by
      simp only [length_cons, length_append, length_nil]
      omega
    by_cases hspecial : b = K.quote ∨ b = K.escape
    · have hesc : escaped K (b :: p) = K.escape :: b :: escaped K p := by
        simp [escaped, hspecial]
      rw [hesc] at hfuel ⊢
      simp only [length_cons] at hfuel
      obtain ⟨n, rfl⟩ : ∃ n, fuel = n + 2 := ⟨fuel - 2, by omega⟩
      have htail : 0#8 ∉ b :: (escaped K p ++ K.quote :: rest) := by
        simp only [mem_cons, mem_append, not_or]
        exact ⟨hb.symm, nul_not_mem_escaped hK hp', hK.quote_ne_nul.symm, hrest⟩
      obtain ⟨junk₁, hremove⟩ := removeCharacter_layout a [K.escape] htail junk
      obtain ⟨junk₂, hloop⟩ := ih hp' n (a ++ [b]) junk₁ (by omega)
      refine ⟨junk₂, ?_⟩
      rw [hshape, hend, ← hloop, textString, cons_append, getElem?_layout, bind_some,
          if_neg hK.escape_ne_nul, if_neg Bool.false_ne_true, if_neg hK.escape_ne_quote]
      have hremove' : removeCharacter_
          (a ++ K.escape :: (b :: escaped K p ++ K.quote :: (rest ++ 0#8 :: junk))) a.length 1
          = some (a ++ b :: (escaped K p ++ K.quote :: (rest ++ 0#8 :: junk₁))) := by
        have hr := hremove
        simp only [cons_append, append_assoc]
          at hr ⊢
        exact hr
      rw [hremove', bind_some, textString, getElem?_layout, bind_some, if_neg hb]
      simp
    · have hesc : escaped K (b :: p) = b :: escaped K p := by
        simp [escaped, hspecial]
      rw [not_or] at hspecial
      rw [hesc] at hfuel ⊢
      simp only [length_cons] at hfuel
      obtain ⟨n, rfl⟩ : ∃ n, fuel = n + 1 := ⟨fuel - 1, by omega⟩
      obtain ⟨junk', hloop⟩ := ih hp' n (a ++ [b]) junk (by omega)
      refine ⟨junk', ?_⟩
      rw [hshape, hend, ← hloop, textString, cons_append, getElem?_layout, bind_some,
          if_neg hb, if_neg hspecial.1, if_neg hspecial.2]
      simp

end Proper

/-- **The whitespace around a parameter removed.** -/
theorem removeWhiteSpace_spec (a before p : List Byte) {after todo : List Byte} (hp : 0#8 ∉ p)
    (hafter : 0#8 ∉ after) (htodo : 0#8 ∉ todo) (junk : List Byte) :
    ∃ junk', removeWhiteSpace (a ++ (before ++ (p ++ (after ++ (todo ++ 0#8 :: junk)))))
        (a.length + before.length + p.length + after.length) a.length
        (some (a.length + before.length)) (some ((a.length + before.length + p.length : Nat) - 1))
      = some (a ++ (p ++ (todo ++ 0#8 :: junk')), a.length + p.length) := by
  have hrest : 0#8 ∉ p ++ (after ++ todo) := by
    simp only [mem_append, not_or]
    exact ⟨hp, hafter, htodo⟩
  obtain ⟨junk₁, hlead⟩ := removeCharacter_layout a before hrest junk
  obtain ⟨junk₂, htrail⟩ := removeCharacter_layout (a ++ p) after htodo junk₁
  have hspaces : a.length + before.length - a.length = before.length := by omega
  have hptr : a.length + before.length + p.length + after.length - before.length
      = a.length + p.length + after.length := by omega
  have hlast : ((a.length + before.length + p.length : Nat) : Int) - 1 - before.length + 1
      = (a.length + p.length : Nat) := by omega
  unfold removeWhiteSpace
  simp only [append_assoc, length_append] at hlead htrail ⊢
  rw [hspaces, hlead, bind_some, hptr]
  simp only [hlast]
  by_cases hnone : after.length = 0
  · rw [length_eq_zero_iff] at hnone
    subst hnone
    exact ⟨junk₁, by rw [if_neg (by simp only [length_nil]; omega)]; simp⟩
  · refine ⟨junk₂, ?_⟩
    have hcount : a.length + p.length + after.length - (a.length + p.length) = after.length := by
      omega
    rw [if_pos (by omega), if_neg (by omega), Int.toNat_natCast, hcount, htrail, map_some]

/-! ## §3. The main loop, parameter by parameter. -/

/-- A quoted parameter and the whitespace around it. -/
structure Item where
  param : CStr
  before : List Byte
  after : List Byte
  before_space : ∀ b ∈ before, isspace b = true
  after_space : ∀ b ∈ after, isspace b = true

/-- The text of a parameter. -/
def Item.render (K : Separators) (item : Item) : List Byte :=
  item.before ++ (K.quote :: (escaped K item.param.val ++ (K.quote :: item.after)))

/-- The loop at the start of a parameter: `done` has been finished, `rest` is to come. -/
def Scan.atStart (done rest : List Byte) (validTokens : Bool) (count : Nat) : Scan :=
  ⟨done ++ rest, done.length, done.length, none, none, validTokens, count⟩

/-- The loop behind a parameter and its whitespace. -/
def Scan.behind (item : Item) (done rest : List Byte) (count : Nat) : Scan :=
  ⟨done ++ (item.before ++ (item.param.val ++ (item.after ++ rest))),
    done.length + item.before.length + item.param.val.length + item.after.length, done.length,
    some (done.length + item.before.length),
    some ((done.length + item.before.length + item.param.val.length : Nat) - 1), true, count⟩

theorem nul_not_mem_of_space {ws : List Byte} (h : ∀ b ∈ ws, isspace b = true) : 0#8 ∉ ws :=
  fun hmem => absurd (h _ hmem) (by decide)

theorem normal_space (s : Scan) {c : Byte} (hc : isspace c = true) :
    normal s c = { s with ptr := s.ptr + 1 } := by
  obtain ⟨mem, ptr, startOfToken, firstNonSpace, lastNonSpace, validTokens, count⟩ := s
  cases firstNonSpace <;> cases lastNonSpace <;> simp [normal, hc]

section Loop

variable (w base : Nat) {K : Separators} (hK : Proper K)

include hK

/-- Whitespace is none of the separators. -/
theorem Proper.space_ne {b : Byte} (hb : isspace b = true) :
    b ≠ 0#8 ∧ b ≠ K.terminator ∧ b ≠ K.delimiter ∧ b ≠ K.quote := by
  have hne : ∀ c, isspace c = false → b ≠ c := by
    rintro c hc rfl
    rw [hb] at hc
    cases hc
  exact ⟨hne _ (by decide), hne _ (hK.nonSpace _ (by simp)), hne _ (hK.nonSpace _ (by simp)),
    hne _ (hK.nonSpace _ (by simp))⟩

/-- Whitespace is passed over. -/
theorem scan_spaces {ws : List Byte} (hws : ∀ b ∈ ws, isspace b = true) :
    ∀ (fuel : Nat) (s : Scan) (a rest : List Byte), s.mem = a ++ (ws ++ rest) →
    s.ptr = a.length →
    scan w K base (fuel + ws.length) s = scan w K base fuel { s with ptr := s.ptr + ws.length } := by
  induction ws with
  | nil => intro fuel s a rest _ _; rfl
  | cons b ws ih =>
    intro fuel s a rest hmem hptr
    have hb := hws b mem_cons_self
    obtain ⟨hnul, hterm, hdel, hquote⟩ := hK.space_ne hb
    have hread : s.mem[s.ptr]? = some b := by
      rw [hmem, hptr]
      exact getElem?_layout a b (ws ++ rest)
    rw [length_cons, ← Nat.add_assoc, scan, hread, bind_some, if_neg hnul,
        if_neg hterm, if_neg hdel, if_neg hquote, normal_space s hb,
        ih (fun c hc => hws c (mem_cons_of_mem b hc)) fuel _ (a ++ [b]) rest (by simp [hmem])
          (by simp [hptr])]
    simp only
    congr 2
    omega

variable {rest : List Byte}

/-- A text string is one round of the loop. -/
theorem scan_quoted {p : List Byte} (hp : 0#8 ∉ p) (hrest : 0#8 ∉ rest) (fuel : Nat)
    (s : Scan) (a junk : List Byte)
    (hmem : s.mem = a ++ (K.quote :: (escaped K p ++ (K.quote :: (rest ++ 0#8 :: junk)))))
    (hptr : s.ptr = a.length) :
    ∃ junk', scan w K base (fuel + 1) s = scan w K base fuel
      { s with
        mem := a ++ (p ++ (rest ++ 0#8 :: junk'))
        ptr := a.length + p.length
        firstNonSpace := some (s.firstNonSpace.getD s.ptr)
        lastNonSpace := some ((a.length + p.length : Nat) - 1)
        validTokens := true } := by
  have htail : 0#8 ∉ escaped K p ++ K.quote :: rest := by
    simp only [mem_append, mem_cons, not_or]
    exact ⟨nul_not_mem_escaped hK hp, hK.quote_ne_nul.symm, hrest⟩
  have hne : K.quote ≠ K.terminator ∧ K.quote ≠ K.delimiter := by
    have h := hK.distinct
    simp only [nodup_cons, mem_cons, not_or] at h
    exact ⟨fun heq => h.2.1.1 heq.symm, fun heq => h.1.2.1 heq.symm⟩
  obtain ⟨junk₁, hremove⟩ := removeCharacter_layout a [K.quote] htail junk
  simp only [append_assoc, cons_append, nil_append, length_singleton] at hremove
  obtain ⟨junk₂, hloop⟩ := textString_spec hK hp hrest
    ((a ++ (escaped K p ++ (K.quote :: (rest ++ 0#8 :: junk₁)))).length + 1) a junk₁ (by
      simp only [length_append]
      omega)
  refine ⟨junk₂, ?_⟩
  have hread : s.mem[s.ptr]? = some K.quote := by
    rw [hmem, hptr]
    exact getElem?_layout _ _ _
  rw [scan, hread, bind_some, if_neg hK.quote_ne_nul, if_neg hne.1, if_neg hne.2,
      if_pos rfl]
  unfold quoted
  rw [hmem, hptr, hremove, bind_some, hloop, map_some]
  rfl

section

variable (item : Item)

/-- **A parameter and its whitespace.** -/
theorem scan_item {todo : List Byte} (htodo : 0#8 ∉ todo) (fuel : Nat) (done junk : List Byte)
    (validTokens : Bool) (count : Nat) :
    ∃ junk', scan w K base (fuel + (item.before.length + 1 + item.after.length))
        (.atStart done (item.render K ++ (todo ++ 0#8 :: junk)) validTokens count)
      = scan w K base fuel (.behind item done (todo ++ 0#8 :: junk') count) := by
  have hrest : 0#8 ∉ item.after ++ todo := by
    simp only [mem_append, not_or]
    exact ⟨nul_not_mem_of_space item.after_space, htodo⟩
  have hlead := scan_spaces w base hK item.before_space
    (fuel + item.after.length + 1)
    (.atStart done (item.render K ++ (todo ++ 0#8 :: junk)) validTokens count) done
    (K.quote :: (escaped K item.param.val ++ (K.quote :: (item.after ++ (todo ++ 0#8 :: junk)))))
    (by simp [Scan.atStart, Item.render]) rfl
  obtain ⟨junk', hquoted⟩ := scan_quoted w base hK item.param.property hrest
    (fuel + item.after.length)
    { Scan.atStart done (item.render K ++ (todo ++ 0#8 :: junk)) validTokens count with
      ptr := done.length + item.before.length }
    (done ++ item.before) junk (by simp [Scan.atStart, Item.render]) (by simp)
  refine ⟨junk', ?_⟩
  have htrail := scan_spaces w base hK item.after_space fuel
    { Scan.behind item done (todo ++ 0#8 :: junk') count with
      ptr := done.length + item.before.length + item.param.val.length }
    (done ++ (item.before ++ item.param.val)) (todo ++ 0#8 :: junk') (by simp [Scan.behind])
    (by simp [Nat.add_assoc])
  have hsplit : fuel + (item.before.length + 1 + item.after.length)
      = fuel + item.after.length + 1 + item.before.length := by omega
  rw [hsplit, hlead]
  refine Eq.trans hquoted (Eq.trans ?_ (Eq.trans htrail ?_))
  · simp [Scan.atStart, Scan.behind]
  · simp [Scan.behind]

omit hK in
/-- The character behind a parameter becomes its NUL. -/
theorem finish_behind {c : Byte} (hc : c ≠ 0#8) (hrest : 0#8 ∉ rest) (done junk : List Byte)
    (count : Nat) :
    ∃ junk', finish w (.behind item done (c :: (rest ++ 0#8 :: junk)) count) = some
      { Scan.behind item done (c :: (rest ++ 0#8 :: junk)) count with
        mem := (done ++ (item.param.val ++ [0])) ++ (rest ++ 0#8 :: junk')
        ptr := (done ++ (item.param.val ++ [0])).length
        count := (count + 1) % 2 ^ w } := by
  have htodo : 0#8 ∉ c :: rest := by
    simp only [mem_cons, not_or]
    exact ⟨hc.symm, hrest⟩
  obtain ⟨junk', hstrip⟩ := removeWhiteSpace_spec done item.before item.param.val
    item.param.property (nul_not_mem_of_space item.after_space) htodo junk
  rw [cons_append, cons_append] at hstrip
  have hput : put (done ++ (item.param.val ++ c :: (rest ++ 0#8 :: junk')))
      (done.length + item.param.val.length) [0]
      = some ((done ++ (item.param.val ++ [0])) ++ (rest ++ 0#8 :: junk')) := by
    have hat := put_layout (done ++ item.param.val) c (rest ++ 0#8 :: junk')
    simp only [append_assoc, length_append] at hat ⊢
    exact hat
  unfold finish Scan.behind
  rw [hstrip, bind_some, hput]
  simp [Nat.add_assoc]

omit hK in
/-- The character behind a parameter and its whitespace. -/
theorem getElem?_behind (done : List Byte) (c : Byte) (rest : List Byte) (count : Nat) :
    (Scan.behind item done (c :: rest) count).mem[(Scan.behind item done (c :: rest) count).ptr]?
      = some c := by
  have hread := getElem?_layout (done ++ (item.before ++ (item.param.val ++ item.after))) c rest
  simp only [append_assoc, length_append, ← Nat.add_assoc] at hread
  exact hread

/-- **A delimiter** finishes a parameter and starts the next one. -/
theorem scan_delimiter (hrest : 0#8 ∉ rest) (fuel : Nat) (done junk : List Byte) (count : Nat) :
    ∃ junk', scan w K base (fuel + 1)
        (.behind item done (K.delimiter :: (rest ++ 0#8 :: junk)) count)
      = scan w K base fuel (.atStart (done ++ (item.param.val ++ [0])) (rest ++ 0#8 :: junk')
          true ((count + 1) % 2 ^ w)) := by
  have hnul : K.delimiter ≠ 0#8 := hK.nonNul _ (by simp)
  have hterm : K.delimiter ≠ K.terminator := by
    have h := hK.distinct
    simp only [nodup_cons, mem_cons, not_or] at h
    exact h.1.1
  have hspace : K.delimiter ≠ 0x20#8 := by
    intro heq
    have h := hK.nonSpace K.delimiter (by simp)
    rw [heq] at h
    exact absurd h (by decide)
  obtain ⟨junk', hfinish⟩ := finish_behind w item hnul hrest done junk count
  refine ⟨junk', ?_⟩
  rw [scan, getElem?_behind, bind_some, if_neg hnul, if_neg hterm, if_pos rfl, hfinish,
      bind_some]
  unfold skipSpaces
  rw [if_neg hspace]
  rfl

/-- **The terminator** finishes the last parameter. -/
theorem scan_terminator {further : List Byte} (hfurther : 0#8 ∉ further) (fuel : Nat)
    (done junk : List Byte) (count : Nat) :
    ∃ junk', scan w K base (fuel + 1)
        (.behind item done (K.terminator :: (further ++ 0#8 :: junk)) count)
      = some ⟨done ++ ((item.param.val ++ [0]) ++ junk'), base,
          (done ++ (item.param.val ++ [0])).length, true, true, (count + 1) % 2 ^ w⟩ := by
  have hnul : K.terminator ≠ 0#8 := hK.nonNul _ (by simp)
  obtain ⟨junk', hfinish⟩ := finish_behind w item hnul hfurther done junk count
  refine ⟨further ++ 0#8 :: junk', ?_⟩
  rw [scan, getElem?_behind, bind_some, if_neg hnul, hfinish]
  simp [Scan.behind]

omit hK in
/-- **The end of the string** does, too. -/
theorem scan_end (fuel : Nat) (done junk : List Byte) (count : Nat) :
    ∃ ptr junk', scan w K base (fuel + 1) (.behind item done (0#8 :: junk) count)
      = some ⟨done ++ ((item.param.val ++ [0]) ++ junk'), base, ptr, true, false,
          (count + 1) % 2 ^ w⟩ := by
  obtain ⟨junk', hstrip⟩ := removeWhiteSpace_spec done item.before item.param.val
    item.param.property (nul_not_mem_of_space item.after_space) not_mem_nil junk
  rw [scan, getElem?_behind, bind_some]
  unfold Scan.behind
  rw [nil_append] at hstrip
  rw [hstrip]
  simp

end

/-- The text behind the last parameter. -/
def tailText (K : Separators) : Option CStr → List Byte
  | none => []
  | some further => K.terminator :: further.val

/-- **The text of a block**: the parameters joined by the delimiter. -/
def blockText (K : Separators) (tail : Option CStr) : Item → List Item → List Byte
  | item, [] => item.render K ++ tailText K tail
  | item, next :: rest => item.render K ++ (K.delimiter :: blockText K tail next rest)

/-- The parameters as they are left in memory. -/
def paramBytes (items : List Item) : List Byte :=
  items.flatMap fun item => item.param.val ++ [0]

theorem nul_not_mem_render (item : Item) : 0#8 ∉ item.render K := by
  unfold Item.render
  simp only [mem_append, mem_cons, not_or]
  exact ⟨nul_not_mem_of_space item.before_space, hK.quote_ne_nul.symm,
    nul_not_mem_escaped hK item.param.property, hK.quote_ne_nul.symm,
    nul_not_mem_of_space item.after_space⟩

theorem nul_not_mem_blockText (tail : Option CStr) (rest : List Item) :
    ∀ item : Item, 0#8 ∉ blockText K tail item rest := by
  induction rest with
  | nil =>
    intro item
    unfold blockText
    simp only [mem_append, not_or]
    refine ⟨nul_not_mem_render hK item, ?_⟩
    cases tail with
    | none => exact not_mem_nil
    | some further =>
      exact not_mem_cons_of_ne_of_not_mem (hK.nonNul _ (by simp)).symm further.property
  | cons next rest ih =>
    intro item
    unfold blockText
    simp only [mem_append, mem_cons, not_or]
    exact ⟨nul_not_mem_render hK item, (hK.nonNul _ (by simp)).symm, ih next⟩

omit hK in
/-- The rounds of a parameter are fewer than its characters. -/
theorem rounds_lt (item : Item) :
    item.before.length + 1 + item.after.length < (item.render K).length := by
  unfold Item.render
  simp only [length_append, length_cons]
  omega

/-- **The loop over all parameters**, from the start of one. -/
theorem scan_items (tail : Option CStr) (rest : List Item) :
    ∀ (item : Item) (fuel : Nat) (done junk : List Byte) (validTokens : Bool) (count : Nat),
    (blockText K tail item rest).length < fuel →
    ∃ ptr junk', scan w K base fuel
        (.atStart done (blockText K tail item rest ++ 0#8 :: junk) validTokens count)
      = some ⟨done ++ (paramBytes (item :: rest) ++ junk'), base, ptr, true, tail.isSome,
          (count + (rest.length + 1)) % 2 ^ w⟩ := by
  induction rest with
  | nil =>
    intro item fuel done junk validTokens count hfuel
    have hrounds := rounds_lt (K := K) item
    have hparam : paramBytes [item] = item.param.val ++ [0] := by simp [paramBytes]
    unfold blockText at hfuel ⊢
    rw [length_append] at hfuel
    obtain ⟨n, hn⟩ : ∃ n, fuel = n + 1 + (item.before.length + 1 + item.after.length) :=
      ⟨fuel - 1 - (item.before.length + 1 + item.after.length), by omega⟩
    rw [hn, append_assoc, hparam]
    cases tail with
    | none =>
      obtain ⟨junk₁, hitem⟩ := scan_item w base hK item not_mem_nil (n + 1) done junk
        validTokens count
      obtain ⟨ptr, junk₂, hend⟩ := scan_end w base item n done junk₁ count
      exact ⟨ptr, junk₂, hitem.trans hend⟩
    | some further =>
      have htail : 0#8 ∉ tailText K (some further) :=
        not_mem_cons_of_ne_of_not_mem (hK.nonNul _ (by simp)).symm further.property
      obtain ⟨junk₁, hitem⟩ := scan_item w base hK item htail (n + 1) done junk
        validTokens count
      obtain ⟨junk₂, hend⟩ := scan_terminator w base hK item further.property n done junk₁ count
      exact ⟨_, junk₂, hitem.trans hend⟩
  | cons next rest ih =>
    intro item fuel done junk validTokens count hfuel
    have hrounds := rounds_lt (K := K) item
    have hnext := nul_not_mem_blockText hK tail rest next
    unfold blockText at hfuel ⊢
    rw [length_append, length_cons] at hfuel
    obtain ⟨n, hn⟩ : ∃ n, fuel = n + 1 + (item.before.length + 1 + item.after.length) :=
      ⟨fuel - 1 - (item.before.length + 1 + item.after.length), by omega⟩
    obtain ⟨junk₁, hitem⟩ := scan_item w base hK item
      (not_mem_cons_of_ne_of_not_mem (hK.nonNul K.delimiter (by simp)).symm hnext) (n + 1)
      done junk validTokens count
    obtain ⟨junk₂, hdel⟩ := scan_delimiter w base hK item hnext n done junk₁ count
    obtain ⟨ptr, junk₃, hrest⟩ := ih next n (done ++ (item.param.val ++ [0])) junk₂ true
      ((count + 1) % 2 ^ w) (by omega)
    refine ⟨ptr, junk₃, ?_⟩
    rw [hn, append_assoc]
    refine hitem.trans (hdel.trans (hrest.trans ?_))
    rw [Nat.mod_add_mod, length_cons]
    simp only [paramBytes, flatMap_cons, append_assoc]
    congr 3
    omega

end Loop

/-! ## §4. The whole block. -/

/-- The parameters behind each other, read back from the first on. -/
theorem skipTokens_paramBytes (junk : List Byte) (items : List Item) :
    ∀ (done : List Byte) (i : Nat) (hi : i < items.length),
    ∃ off, skipTokens (done ++ (paramBytes items ++ junk)) i done.length = some off ∧
      0#8 ∈ (done ++ (paramBytes items ++ junk)).drop off ∧
      cstr ((done ++ (paramBytes items ++ junk)).drop off) = (items[i]).param.val := by
  induction items with
  | nil => intro done i hi; exact absurd hi (Nat.not_lt_zero i)
  | cons item items ih =>
    intro done i hi
    have hbytes : paramBytes (item :: items) ++ junk
        = item.param.val ++ 0#8 :: (paramBytes items ++ junk) := by
      simp [paramBytes]
    have hdrop : (done ++ (paramBytes (item :: items) ++ junk)).drop done.length
        = item.param.val ++ 0#8 :: (paramBytes items ++ junk) := by
      rw [drop_left, hbytes]
    have hcstr := cstr_of_not_mem item.param.property (paramBytes items ++ junk)
    cases i with
    | zero =>
      refine ⟨done.length, rfl, ?_, ?_⟩
      · rw [hdrop]; simp
      · rw [hdrop, hcstr]; rfl
    | succ i =>
      -- the first one and its NUL are skipped
      obtain ⟨off, hskip, hnul, hstr⟩ := ih (done ++ (item.param.val ++ [0])) i
        (Nat.lt_of_succ_lt_succ hi)
      have hmem : done ++ (item.param.val ++ [0]) ++ (paramBytes items ++ junk)
          = done ++ (paramBytes (item :: items) ++ junk) := by
        rw [hbytes]
        simp
      rw [hmem] at hskip hnul hstr
      refine ⟨off, ?_, hnul, hstr⟩
      have hlen : strlen (item.param.val ++ 0#8 :: (paramBytes items ++ junk))
          = item.param.val.length := congrArg length hcstr
      rw [skipTokens, hdrop, if_pos (by simp), ← hskip]
      congr 1
      simp only [length_append, length_singleton]
      omega

/-- Separators of a block: told apart, no whitespace, no NUL. -/
structure ProperSeparators extends Separators where
  proper : Proper toSeparators

/-- A parameter without the whitespace before it. -/
def Item.stripped (item : Item) : Item :=
  { item with before := [], before_space := by simp }

section

variable (K : Separators) (tail : Option CStr) (first : Item) (rest : List Item)

/-- Leading whitespace of the first parameter comes first in the text. -/
theorem blockText_before :
    blockText K tail first rest = first.before ++ blockText K tail first.stripped rest := by
  cases rest <;> simp [blockText, Item.render, Item.stripped]

/-- Behind it, a text starts with a quote. -/
theorem blockText_quote :
    ∃ text, blockText K tail first.stripped rest = K.quote :: text := by
  cases rest <;> exact ⟨_, rfl⟩

end

/-- **The text of a block is tokenized**: the parameters stand behind each other from
`base` on, each with its NUL. -/
theorem tokenizes (w : Nat) {K : Separators} (hK : Proper K) (tail : Option CStr) (first : Item)
    (rest : List Item) :
    ∃ ptr junk, tokenize w K (some (blockText K tail first rest ++ [0])) = some
      ⟨first.before ++ (paramBytes (first :: rest) ++ junk), first.before.length, ptr, true,
        tail.isSome, (rest.length + 1) % 2 ^ w⟩ := by
  obtain ⟨text, htext⟩ := blockText_quote K tail first rest
  have hquote : isspace K.quote = false := hK.nonSpace _ (by simp)
  have hmem : blockText K tail first rest ++ [0]
      = first.before ++ (K.quote :: (text ++ [0])) := by
    rw [blockText_before, htext, append_assoc, cons_append]
  have hbase : spaces (first.before ++ (K.quote :: (text ++ [0]))) 0 = first.before.length := by
    unfold spaces
    rw [drop_zero, takeWhile_append_of_pos first.before_space]
    simp [hquote]
  have hlen := congrArg length (blockText_before K tail first rest)
  rw [length_append] at hlen
  obtain ⟨ptr, junk, hscan⟩ := scan_items w first.before.length hK tail rest first.stripped
    ((first.before ++ (K.quote :: (text ++ [0]))).length + 1) first.before [] true 0 (by
      rw [← hmem, length_append]
      omega)
  refine ⟨ptr, junk, ?_⟩
  unfold tokenize
  simp only [hmem, hbase]
  rw [getElem?_layout, bind_some, if_neg hK.quote_ne_nul]
  rw [htext, Nat.zero_add] at hscan
  exact hscan

/-- **What a block promises**: the text of the parameters, and its NUL, is a valid block
with those parameters, terminated if the terminator was there. -/
def RoundTrips (w : Nat) (K : Separators) (tail : Option CStr) (first : Item) (rest : List Item) :
    Prop :=
  ∃ t, tokenize w K (some (blockText K tail first rest ++ [0])) = some t ∧
    t.validTokens = true ∧ t.count = rest.length + 1 ∧ t.terminatorFound = tail.isSome ∧
    ∀ (i : Nat) (hi : i < (first :: rest).length), ∃ off,
      t.getParameter i = some (some off) ∧ 0#8 ∈ t.mem.drop off ∧
      cstr (t.mem.drop off) = ((first :: rest)[i]).param.val

/-- **The round trip holds EXACTLY when the number of parameters is an `unsigned`.** -/
theorem roundTrips_iff (w : Nat) (K : ProperSeparators) (tail : Option CStr) (first : Item)
    (rest : List Item) : RoundTrips w K.toSeparators tail first rest ↔ rest.length + 1 < 2 ^ w := by
  obtain ⟨ptr, junk, htok⟩ := tokenizes w K.proper tail first rest
  constructor
  · rintro ⟨t, ht, -, hcount, -⟩
    obtain rfl := some.inj (htok.symm.trans ht)
    rw [← hcount]
    exact Nat.mod_lt _ (Nat.two_pow_pos w)
  · intro hlt
    refine ⟨_, htok, rfl, Nat.mod_eq_of_lt hlt, rfl, fun i hi => ?_⟩
    obtain ⟨off, hskip, hnul, hstr⟩ :=
      skipTokens_paramBytes junk (first :: rest) first.before i hi
    refine ⟨off, ?_, hnul, hstr⟩
    unfold getParameter
    rw [Nat.mod_eq_of_lt hlt, if_neg (by simp at hi ⊢; omega), hskip, map_some]

/-- The default separators: `,` `;` `"` and the backslash. -/
def defaultSeparators : ProperSeparators where
  delimiter := 0x2C#8
  terminator := 0x3B#8
  quote := 0x22#8
  escape := 0x5C#8
  proper := ⟨by decide, by decide, by decide⟩

/-- An empty parameter. -/
def emptyItem : Item := ⟨⟨[], nul_not_mem_nil⟩, [], [], by simp, by simp⟩

/-- **A block of 2^32 parameters, with a 32-bit `unsigned`, has none.** -/
theorem tooMany_lost :
    ∃ t, tokenize 32 defaultSeparators.toSeparators
        (some (blockText defaultSeparators.toSeparators none emptyItem
          (replicate (2 ^ 32 - 1) emptyItem) ++ [0])) = some t ∧
      t.validTokens = true ∧ t.count = 0 ∧ t.getParameter 0 = some none := by
  obtain ⟨ptr, junk, htok⟩ := tokenizes 32 defaultSeparators.proper none emptyItem
    (replicate (2 ^ 32 - 1) emptyItem)
  rw [length_replicate] at htok
  exact ⟨_, htok, rfl, rfl, rfl⟩

end TextBlock

end ColonyCore.Text
