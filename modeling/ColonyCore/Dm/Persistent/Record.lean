/-
  ColonyCore.Dm.Persistent.Record
  **A SET OF MODEL POINTS KEPT IN NON-VOLATILE STORAGE
  (`Cpl/Dm/Persistent/Record.cpp`).**

  A record writes its schema indexes and the images of its model points through a
  chunk.  `start` loads them; a record that cannot take what is stored (a bad CRC,
  another schema) resets its points and writes them back AT ONCE, through a chunk
  that has just remembered how long the OLD data were.

    • `exportItems_eq`, `importItems_append` — the image of all points and its
      round trip; `record_round_trip` for the whole record,
    • `start_schemaChanged` — what `start` does on media of another schema,
    • `upgrades_iff`        — the new record is stored EXACTLY when it is not longer
      than the old one; `upgrade_lost` is a record that has grown.
-/
import ColonyCore.Dm.MpValue
import ColonyCore.Persistent.Chunk

namespace ColonyCore.Dm.Persistent

open ByteStore LittleEndian ColonyCore.Persistent List MpValue

variable {P : Platform} {ρ : Type}

/-- Two lists of model points, constructed alike. -/
def SameShape (items items' : List (MpValue P)) : Prop :=
  items.map shape = items'.map shape

/-- What a record is constructed with, and the methods a child class overrides:
`schemaChange`, `resetData` and `hookProcessPostRecordLoaded` may write the model
points but not change what they were constructed as. -/
structure Record (P : Platform) where
  major : Byte
  minor : Byte
  schemaChange : Byte → Byte → List Byte → List (MpValue P) → List (MpValue P) × Bool
  resetData : List (MpValue P) → List (MpValue P) × Bool
  hookProcessPostRecordLoaded : List (MpValue P) → List (MpValue P)
  schemaChange_shape : ∀ a b src items, SameShape (schemaChange a b src items).1 items
  resetData_shape : ∀ items, SameShape (resetData items).1 items
  hook_shape : ∀ items, SameShape (hookProcessPostRecordLoaded items) items

namespace Record

/-! ## §1. The image of the model points. -/

variable (items : List (MpValue P))

/-- `getRecordSize`. -/
def getRecordSize : Nat :=
  2 + (items.map getExternalSize).sum

/-- The loop of `getData`; `none` is its `return 0`. -/
def exportItems : List (MpValue P) → Nat → Option (List Byte)
  | [], _ => some []
  | mp :: rest, maxDstLen =>
    if maxDstLen < mp.getExternalSize then none else
    let written := mp.exportData maxDstLen
    if written.length = 0 then none else
    (exportItems rest (maxDstLen - mp.getExternalSize)).map (written ++ ·)

/-- The loop of `putData`.  A failure keeps the points imported before it. -/
def importItems : List (MpValue P) → List Byte → List (MpValue P) × Bool
  | [], _ => ([], true)
  | mp :: rest, src =>
    if src.length < mp.getExternalSize then (mp :: rest, false) else
    match mp.importData src with
    | none => (mp :: rest, false)
    | some mp' =>
      let r := importItems rest (src.drop mp.getExternalSize)
      (mp' :: r.1, r.2)

variable (r : Record P)

/-- `getData`: what is written, nothing when the result is 0.  `none` is its
failed assertion. -/
def getData (items : List (MpValue P)) (maxDstLen : Nat) : Option (List Byte) :=
  if 2 < maxDstLen then
    match exportItems items (maxDstLen - 2) with
    | none => some []
    | some bytes => some (r.major :: r.minor :: bytes)
  else none

/-- `putData`: the points afterwards and the verdict.  `none` is its failed
assertion. -/
def putData (items : List (MpValue P)) (src : List Byte) :
    Option (List (MpValue P) × Bool) :=
  match src with
  | major :: minor :: b :: rest =>
    if major = r.major ∧ minor = r.minor then some (importItems items (b :: rest))
    else some (r.schemaChange major minor (b :: rest) items)
  | _ => none

/-- All images, one after the other. -/
def imageOf : List Byte := (items.map exportBytes).flatten

theorem length_imageOf :
    2 + (imageOf items).length = getRecordSize items := by
  have hmap : items.map (fun mp => mp.exportBytes.length) = items.map getExternalSize :=
    map_congr_left fun mp _ => mp.length_exportBytes
  rw [imageOf, length_flatten, map_map]
  exact congrArg (fun l => 2 + sum l) hmap

/-- **The export loop** writes all the images when they fit, and otherwise refuses. -/
theorem exportItems_eq : ∀ maxDstLen,
    exportItems items maxDstLen
      = if (imageOf items).length ≤ maxDstLen then some (imageOf items) else none := by
  -- on the list of points; the room shrinks by one image a pass
  induction items with
  | nil => intro maxDstLen; rfl
  | cons mp rest ih =>
    intro maxDstLen
    have hlen : (imageOf (mp :: rest)).length = mp.getExternalSize + (imageOf rest).length := by
      simp [imageOf]
    have hpos := mp.getExternalSize_pos
    unfold exportItems
    by_cases hroom : maxDstLen < mp.getExternalSize
    · rw [if_pos hroom, if_neg (by omega)]
    · have hwritten : mp.exportData maxDstLen = mp.exportBytes := if_pos (by omega)
      rw [if_neg hroom]
      simp only [hwritten, length_exportBytes]
      rw [if_neg (by omega), ih]
      by_cases hrest : (imageOf rest).length ≤ maxDstLen - mp.getExternalSize
      · rw [if_pos hrest, if_pos (by omega)]
        rfl
      · rw [if_neg hrest, if_neg (by omega)]
        rfl

/-- **The import loop** on the images of points constructed alike, whatever follows
them. -/
theorem importItems_append :
    ∀ (items' : List (MpValue P)) (rest : List Byte),
    SameShape items items' → importItems items (imageOf items' ++ rest) = (items', true) := by
  induction items with
  | nil =>
    intro items' rest hsame
    cases items' with
    | nil => rfl
    | cons mp' items' => cases hsame
  | cons mp items ih =>
    intro items' rest hsame
    cases items' with
    | nil => cases hsame
    | cons mp' items' =>
      obtain ⟨hshape, hrest⟩ := cons.inj hsame
      have hsize := getExternalSize_shape hshape
      have himage : imageOf (mp' :: items') ++ rest = mp'.exportBytes ++ (imageOf items' ++ rest) :=
        append_assoc _ _ _
      have hlen := mp'.length_exportBytes
      unfold importItems
      rw [himage, if_neg (by rw [length_append]; omega),
          importData_export hshape]
      simp only [hsize, ← hlen, drop_left, ih items' rest hrest]

variable {items items' : List (MpValue P)}

theorem getRecordSize_shape (h : SameShape items items') :
    getRecordSize items = getRecordSize items' := by
  have hsize : ∀ l : List (MpValue P), l.map getExternalSize
      = (l.map shape).map fun s =>
          (s.1.elim s.2 fun _ => s.2 + P.sizeofSizeT + P.sizeofSizeT) + 1 := by
    intro l
    rw [map_map]
    refine map_congr_left fun mp _ => ?_
    obtain ⟨_ | d, data, valid, hd⟩ := mp <;> rfl
  unfold getRecordSize
  rw [hsize, hsize, h]

/-! ## §2. Loading, updating, starting. -/

/-- The record as the client of its chunk; a failed assertion of `getData` or
`putData` is reported by `loadData` and `updateNVRAM` below. -/
def payload (items : List (MpValue P)) : Payload where
  getData n := (r.getData items n).getD []
  getData_le n := by
    unfold getData
    split
    next h2 =>
      rw [exportItems_eq]
      split
      next bytes h =>
        exact Nat.zero_le n
      next bytes h =>
        split at h
        · cases h
          simp only [Option.getD_some, length_cons]
          omega
        · cases h
    next => exact Nat.zero_le n
  putData src := ((r.putData items src).map Prod.snd).getD false

/-- The record and its chunk after a load. -/
structure RecordLoaded (P : Platform) (ρ : Type) where
  chunk : Chunk ρ
  buffer : WorkBuffer P
  items : List (MpValue P)
  result : Bool

/-- `m_chunkHandler.loadData( *this )`. -/
def loadData (c : Chunk ρ) (m : ρ → List Byte) (items : List (MpValue P))
    (buf : WorkBuffer P) : Option (RecordLoaded P ρ) :=
  match c.loadData P m (r.payload items) buf with
  | none => none
  | some l =>
    match l.pushed with
    | none => some ⟨l.chunk, l.buffer, items, l.result⟩
    | some src => (r.putData items src).map fun put => ⟨l.chunk, l.buffer, put.1, l.result⟩

/-- The record, its chunk and the media after `start`.  `written` is the result
of the `updateData` call, if there was one. -/
structure Started (P : Platform) (ρ : Type) where
  chunk : Chunk ρ
  buffer : WorkBuffer P
  items : List (MpValue P)
  media : ρ → List Byte
  written : Option Bool

section Start

variable [DecidableEq ρ]

/-- `updateNVRAM`, which ignores the result of `updateData`. -/
def updateNVRAM (c : Chunk ρ) (m : ρ → List Byte) (items : List (MpValue P)) :
    Option (Updated P (Chunk ρ) ρ) :=
  match r.getData items c.dataLen with
  | none => none
  | some _ => c.updateData P m (r.payload items)

/-- `Record::start`, up to the subscriptions. -/
def start (c : Chunk ρ) (m : ρ → List Byte) (items : List (MpValue P))
    (buf : WorkBuffer P) : Option (Started P ρ) := do
  let c ← c.start P m
  let l ← r.loadData c m items buf
  if l.result then
    return ⟨l.chunk, l.buffer, r.hookProcessPostRecordLoaded l.items, m, none⟩
  else
    -- no valid data: reset to the defaults
    let reset := r.resetData l.items
    if reset.2 then
      let u ← r.updateNVRAM l.chunk m reset.1
      return ⟨u.chunk, u.buffer, reset.1, u.media, some u.result⟩
    else return ⟨l.chunk, l.buffer, reset.1, m, none⟩

end Start

/-- What the record offers its chunk: everything, or nothing when it has no room. -/
theorem getData_eq (items : List (MpValue P)) (maxDstLen : Nat) (h : 2 < maxDstLen) :
    r.getData items maxDstLen
      = some (if getRecordSize items ≤ maxDstLen then r.major :: r.minor :: imageOf items
          else []) := by
  have hlen := length_imageOf items
  unfold getData
  rw [if_pos h, exportItems_eq]
  by_cases hroom : getRecordSize items ≤ maxDstLen
  · rw [if_pos hroom, if_pos (by omega)]
  · rw [if_neg hroom, if_neg (by omega)]

/-- A record of the same schema and shape takes the image over, whatever follows it,
provided there is a model point at all. -/
theorem putData_append {r r' : Record P} (hschema : r'.major = r.major ∧ r'.minor = r.minor)
    (h : SameShape items items') (hsome : 2 < getRecordSize items') (rest : List Byte) :
    r'.putData items (r.major :: r.minor :: (imageOf items' ++ rest)) = some (items', true) := by
  have hlen := length_imageOf items'
  have himport := importItems_append items items' rest h
  cases himage : imageOf items' with
  | nil =>
    rw [himage, length_nil] at hlen
    omega
  | cons b image =>
    rw [himage] at himport
    show (if r.major = r'.major ∧ r.minor = r'.minor then _ else _) = _
    rw [if_pos ⟨hschema.1.symm, hschema.2.symm⟩]
    exact congrArg some himport

/-- **The round trip of the record** on its own image. -/
theorem putData_image
    (h : SameShape items items') (hsome : 2 < getRecordSize items') :
    r.putData items (r.major :: r.minor :: imageOf items') = some (items', true) := by
  have happend : r.putData items (r.major :: r.minor :: (imageOf items' ++ [])) = some (items', true) :=
    putData_append ⟨rfl, rfl⟩ h hsome []
  rwa [append_nil] at happend

/-- **THE RECORD'S IMAGE, THERE AND BACK**: `getData` writes `getRecordSize()` bytes,
and a record of the same schema over points constructed alike takes them over, whatever
follows them: every point gets the data and the valid flag of the source. -/
theorem record_round_trip (r r' : Record P) {items items' : List (MpValue P)}
    (hschema : r'.major = r.major ∧ r'.minor = r.minor) (hsame : SameShape items' items)
    (maxDstLen : Nat) (hroom : getRecordSize items ≤ maxDstLen) (hsome : 2 < getRecordSize items) :
    ∃ bytes, r.getData items maxDstLen = some bytes ∧ bytes.length = getRecordSize items
      ∧ ∀ rest, r'.putData items' (bytes ++ rest) = some (items, true) := by
  have hlen := length_imageOf items
  refine ⟨r.major :: r.minor :: imageOf items, ?_, ?_, putData_append hschema hsame hsome⟩
  · rw [getData_eq r items maxDstLen (by omega), if_pos hroom]
  · rw [length_cons, length_cons]
    omega

/-- The assertion of `putData` fails on an image without a model point. -/
theorem putData_empty (items : List (MpValue P)) (h : getRecordSize items' ≤ 2) :
    r.putData items (r.major :: r.minor :: imageOf items') = none := by
  have hlen := length_imageOf items'
  have himage : imageOf items' = [] := eq_nil_of_length_eq_zero (by omega)
  rw [himage]
  rfl

/-! ## §3. Media of another schema. -/

section Upgrade

variable {r : Record P} {c : Chunk ρ} {m : ρ → List Byte} {items : List (MpValue P)}
variable {q : List Byte}

/-- A load of valid media: what the record makes of the data decides. -/
theorem loadData_stored (h : c.Stored P m q) {put : List (MpValue P) × Bool}
    (hput : r.putData items q = some put) (buf : WorkBuffer P) :
    ∃ c' buf', r.loadData c m items buf = some ⟨c', buf', put.1, put.2⟩
      ∧ c'.dataLen = q.length ∧ c.layout = c'.layout ∧ c'.Updatable := by
  obtain ⟨c', buf', hload, hspec⟩ := Chunk.loadData_stored h (r.payload items) buf
  have hresult : (r.payload items).putData q = put.2 := by
    show ((r.putData items q).map Prod.snd).getD false = put.2
    rw [hput]
    rfl
  refine ⟨c', buf', ?_, hspec⟩
  simp [loadData, hload, hput, hresult]

/-- A load of valid data too short for the schema indexes and one model point. -/
theorem loadData_asserts (h : c.Stored P m q) (hput : r.putData items q = none)
    (buf : WorkBuffer P) : r.loadData c m items buf = none := by
  obtain ⟨c', buf', hload, -⟩ := Chunk.loadData_stored h (r.payload items) buf
  simp [loadData, hload, hput]

/-- The stored data name other schema indexes, and the record makes nothing of
them. -/
def OtherSchema (r : Record P) (items : List (MpValue P)) (q : List Byte) : Prop :=
  ∃ major minor b rest, q = major :: minor :: b :: rest
    ∧ ¬(major = r.major ∧ minor = r.minor)
    ∧ (r.schemaChange major minor (b :: rest) items).2 = false

theorem OtherSchema.putData (h : OtherSchema r items q) :
    2 < q.length ∧ ∃ items', SameShape items' items ∧ r.putData items q = some (items', false) := by
  obtain ⟨major, minor, b, rest, rfl, hdiff, hfalse⟩ := h
  refine ⟨by simp, (r.schemaChange major minor (b :: rest) items).1,
    r.schemaChange_shape _ _ _ _, ?_⟩
  unfold Record.putData
  simp only [if_neg hdiff]
  rw [← hfalse]

section Start

variable [DecidableEq ρ]

/-- **`start` on media of another schema**: the chunk offers the record as many
bytes as the OLD data had.  A record that needs no more is stored; one that needs
more is not, and the media keep the old data. -/
theorem start_schemaChanged {c₁ : Chunk ρ} (hstart : c.start P m = some c₁)
    (hstored : c.Stored P m q) (hschema : OtherSchema r items q)
    (hreset : ∀ items, (r.resetData items).2 = true)
    (hroom : c.HasRoom P m (getRecordSize items)) (buf : WorkBuffer P) :
    ∃ items' c' buf' m' ok, SameShape items' items
      ∧ r.start c m items buf = some ⟨c', buf', items', m', some ok⟩
      ∧ (∀ region, (m' region).length = (m region).length)
      ∧ (getRecordSize items ≤ q.length →
          ok = true ∧ c.Stored P m' (r.major :: r.minor :: imageOf items'))
      ∧ (q.length < getRecordSize items → ok = false ∧ m' = m) := by
  obtain ⟨hlong, items₁, hshape₁, hput⟩ := hschema.putData
  have hsame₁ := Chunk.start_layout hstart
  obtain ⟨c₂, buf₂, hload, hlen, hsame₂, hupd⟩ :=
    loadData_stored (hstored.congr hsame₁) hput buf
  have hshape : SameShape (r.resetData items₁).1 items := (r.resetData_shape items₁).trans hshape₁
  have hsize := getRecordSize_shape hshape
  -- everything up to the update
  have hrun : r.start c m items buf
      = (r.updateNVRAM c₂ m (r.resetData items₁).1).bind fun u =>
          some ⟨u.chunk, u.buffer, (r.resetData items₁).1, u.media, some u.result⟩ := by
    unfold start
    simp only [hstart, hload, hreset, Option.bind_eq_bind, Option.bind_some]
    rfl
  have hoffer := getData_eq r (r.resetData items₁).1 c₂.dataLen (by omega)
  have hnv : r.updateNVRAM c₂ m (r.resetData items₁).1
      = c₂.updateData P m (r.payload (r.resetData items₁).1) := by
    unfold updateNVRAM
    rw [hoffer]
  have hget : (r.payload (r.resetData items₁).1).getData c₂.dataLen
      = if getRecordSize items ≤ q.length then r.major :: r.minor :: imageOf (r.resetData items₁).1
        else [] := by
    show (r.getData _ _).getD [] = _
    rw [hoffer, hsize, hlen, Option.getD_some]
  by_cases hfits : getRecordSize items ≤ q.length
  · rw [if_pos hfits] at hget
    have hbytes : (r.major :: r.minor :: imageOf (r.resetData items₁).1).length
        = getRecordSize items := by
      rw [← hsize, ← length_imageOf, length_cons, length_cons]
      omega
    have hroom₂ := hroom.congr (hsame₁.trans hsame₂)
    rw [← hbytes] at hroom₂
    obtain ⟨c₃, buf₃, m', hwrite, hstored', hkeep⟩ :=
      Chunk.updateData_stored hupd hget (Nat.succ_pos _) hroom₂
    refine ⟨(r.resetData items₁).1, c₃, buf₃, m', true, hshape, ?_, hkeep, ?_, ?_⟩
    · rw [hrun, hnv, hwrite]
      rfl
    · intro _
      exact ⟨rfl, hstored'.congr (hsame₁.trans hsame₂).symm⟩
    · omega
  · rw [if_neg hfits] at hget
    have hwrite := Chunk.updateData_refused (P := P) (m := m) hupd hget
    refine ⟨(r.resetData items₁).1, c₂, WorkBuffer.zero P, m, false, hshape, ?_, fun _ => rfl, ?_, ?_⟩
    · rw [hrun, hnv, hwrite]
      rfl
    · omega
    · intro _
      exact ⟨rfl, rfl⟩

/-- **The upgrade**: `start` writes the record, and on the next start a record
constructed alike, whatever its points hold by then, loads these very data. -/
def Upgrades (r : Record P) (c : Chunk ρ) (m : ρ → List Byte) (items : List (MpValue P))
    (buf : WorkBuffer P) : Prop :=
  ∃ st, r.start c m items buf = some st ∧ st.written = some true
    ∧ ∀ items' buf', SameShape items' items →
        ∃ c' l, c.start P st.media = some c' ∧ r.loadData c' st.media items' buf' = some l
          ∧ l.result = true ∧ l.items = st.items

/-- **A record survives a change of its schema EXACTLY when it is not longer than
what was stored before** (and has a model point). -/
theorem upgrades_iff {c₁ : Chunk ρ} (hstart : c.start P m = some c₁) (hstored : c.Stored P m q)
    (hschema : OtherSchema r items q) (hreset : ∀ items, (r.resetData items).2 = true)
    (hroom : c.HasRoom P m (getRecordSize items)) (buf : WorkBuffer P) :
    Upgrades r c m items buf ↔ 2 < getRecordSize items ∧ getRecordSize items ≤ q.length := by
  obtain ⟨items₁, c', buf₁, m', ok, hshape, hrun, hkeep, hfits, hlonger⟩ :=
    start_schemaChanged hstart hstored hschema hreset hroom buf
  have hsize := getRecordSize_shape hshape
  have hagain := Chunk.start_of_length hstart hkeep
  constructor
  · rintro ⟨st, hst, hwritten, hnext⟩
    rw [hrun] at hst
    cases hst
    have hle : getRecordSize items ≤ q.length := by
      by_contra hgt
      obtain ⟨hok, -⟩ := hlonger (by omega)
      rw [hok] at hwritten
      cases hwritten
    -- without a model point the next load fails the assertion of `putData`
    by_contra hempty
    obtain ⟨-, himage⟩ := hfits hle
    obtain ⟨c₂, l, hc₂, hload, -, -⟩ := hnext items buf rfl
    have hnone := loadData_asserts (himage.congr (Chunk.start_layout hc₂))
      (putData_empty r items (by omega)) buf
    rw [hnone] at hload
    cases hload
  · rintro ⟨hsome, hle⟩
    obtain ⟨rfl, himage⟩ := hfits hle
    refine ⟨_, hrun, rfl, ?_⟩
    intro items' buf' hsame
    obtain ⟨c₂, buf₂, hload, -⟩ := loadData_stored
      (himage.congr (Chunk.start_layout hagain))
      (putData_image r (hsame.trans hshape.symm) (by omega)) buf'
    exact ⟨c₁, _, hagain, hload, rfl, rfl⟩

end Start

end Upgrade

/-! ## §4. A record that grows. -/

/-- A record that overrides nothing but its reset, which keeps the points as they
were constructed. -/
def ofSchema (P : Platform) (major minor : Byte) : Record P where
  major := major
  minor := minor
  schemaChange _ _ _ items := (items, false)
  resetData items := (items, true)
  hookProcessPostRecordLoaded items := items
  schemaChange_shape _ _ _ _ := rfl
  resetData_shape _ := rfl
  hook_shape _ := rfl

/-- A valid 32-bit model point. -/
def counterPoint : MpValue .default64 :=
  ⟨none, [7, 0, 0, 0], true, noElements _⟩

/-- An invalid array of two 16-bit elements. -/
def arrayPoint : MpValue .default64 :=
  ⟨some (2, 2), [0, 0, 0, 0], false, by
    rintro d ⟨⟩
    decide⟩

/-- A record of both, read by points that hold something else. -/
theorem round_trip_counterArray : ∃ bytes,
    (ofSchema .default64 2#8 0#8).getData [counterPoint, arrayPoint] 64 = some bytes
      ∧ bytes.length = 28
      ∧ (ofSchema .default64 2#8 0#8).putData
          [{ counterPoint with data := [1, 2, 3, 4], valid := false },
            { arrayPoint with data := [9, 9, 9, 9], valid := true }] (bytes ++ [5])
        = some ([counterPoint, arrayPoint], true) := by
  have hsame : SameShape
      [{ counterPoint with data := [1, 2, 3, 4], valid := false },
        { arrayPoint with data := [9, 9, 9, 9], valid := true }]
      [counterPoint, arrayPoint] := rfl
  obtain ⟨bytes, hget, hlen, hput⟩ := record_round_trip (ofSchema .default64 2#8 0#8)
    (ofSchema .default64 2#8 0#8) ⟨rfl, rfl⟩ hsame 64 (by decide) (by decide)
  exact ⟨bytes, hget, hlen, hput [5]⟩

/-- A region of 64 bytes with one frame of a CRC chunk, the rest erased. -/
def oldFrame (data : List Byte) : Unit → List Byte := fun _ =>
  CrcChunk.frameOf .default64 false data ++ replicate (52 - data.length) 0xff#8

/-- Schema 1.0 stored as many bytes as schema 2.0 needs. -/
theorem upgrades_sameLength :
    Upgrades (ofSchema .default64 2#8 0#8) (.crc ⟨(), 0⟩)
      (oldFrame [1, 0, 1, 2, 3, 4, 1]) [counterPoint] (.zero _) := by
  have hstored : (Chunk.crc ⟨(), 0⟩).Stored .default64
      (oldFrame [1, 0, 1, 2, 3, 4, 1]) [1, 0, 1, 2, 3, 4, 1] :=
    ⟨by decide +kernel, by decide +kernel, by decide +kernel⟩
  refine (upgrades_iff rfl hstored ?_ (fun _ => rfl) ?_ (.zero _)).mpr
    (by decide +kernel)
  · exact ⟨1#8, 0#8, 1#8, [2, 3, 4, 1], rfl, by decide, rfl⟩
  · exact ⟨by decide +kernel, by decide +kernel⟩

/-- **The upgrade is lost**: schema 1.0 stored three bytes, schema 2.0 needs seven,
which with the metadata have room in the region and in the work buffer.  The update
that follows the reset is refused. -/
theorem upgrade_lost :
    (Chunk.crc ⟨(), 0⟩).Stored .default64 (oldFrame [1, 0, 9]) [1, 0, 9]
    ∧ (Chunk.crc ⟨(), 0⟩).HasRoom .default64 (oldFrame [1, 0, 9])
        (getRecordSize [counterPoint])
    ∧ OtherSchema (ofSchema .default64 2#8 0#8) [counterPoint] [1, 0, 9]
    ∧ ¬ Upgrades (ofSchema .default64 2#8 0#8) (.crc ⟨(), 0⟩) (oldFrame [1, 0, 9])
        [counterPoint] (.zero _) := by
  refine ⟨⟨by decide +kernel, by decide +kernel, by decide +kernel⟩,
    ⟨by decide +kernel, by decide +kernel⟩, ⟨1#8, 0#8, 9#8, [], rfl, by decide, rfl⟩, ?_⟩
  rintro ⟨st, hst, hwritten, -⟩
  have hrefused : ((ofSchema .default64 2#8 0#8).start (.crc ⟨(), 0⟩)
      (oldFrame [1, 0, 9]) [counterPoint] (.zero _)).map Started.written
        = some (some false) := by
    decide +kernel
  rw [hst, Option.map_some, hwritten] at hrefused
  cases hrefused

end Record

end ColonyCore.Dm.Persistent
