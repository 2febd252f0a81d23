/-
  ColonyCore.Text.FrameWalk
  **WHAT THE DECODER RETURNS OF A STREAM OF FRAMES, HOWEVER THE STREAM IS CUT.**

  `find` walks the bytes one by one, without buffer or reads; the scans of the decoder
  are walks over the bytes it has not read yet (`scanLoop_found`, `scanLoop_failed`).
  When the client's buffer is full the decoder leaves the frame and looks for SOF again, in
  the rest of the content; `keep` says what a character of the content does to what will be
  returned.

    • `decoded_from_stream` — the reads of the source do not matter,
    • `Within` — nothing is stored at or beyond the end of the client's buffer,
    • `find_symbols` — the decoder follows `keep` through the content of a frame,
    • `find_frames`, `scans_frames` — a stream of frames, some of them over-long.
-/
import ColonyCore.Text.Frame
import Mathlib.Tactic.SplitIfs

namespace ColonyCore.Text.Frame

open List

/-- A printable ASCII character. -/
def Printable (c : UInt8) : Prop := 0x20 ≤ c ∧ c ≤ 0x7E

instance (c : UInt8) : Decidable (Printable c) := inferInstanceAs (Decidable (_ ∧ _))

/-! ## §1. A scan is a walk over the bytes not yet read. -/

/-- The bytes a decoder has still to process: its buffer, then the source. -/
def DecoderState.pending (s : DecoderState) : List UInt8 := s.data ++ s.source.stream

theorem Source.read_some {src src' : Source} {data : List UInt8} {numBytes : Nat}
    (h : src.read numBytes = some (data, src')) : src.stream = data ++ src'.stream := by
  obtain ⟨stream, offers⟩ := src
  cases offers with
  | cons offer offers =>
    obtain ⟨rfl, rfl⟩ := h
    exact (take_append_drop _ _).symm
  | nil =>
    simp only [Source.read] at h
    split at h
    next => cases h
    next =>
      obtain ⟨rfl, rfl⟩ := h
      exact (take_append_drop _ _).symm

theorem Source.read_none {src : Source} {numBytes : Nat} (h : src.read numBytes = none) :
    src.stream = [] := by
  obtain ⟨stream, offers⟩ := src
  cases offers with
  | cons offer offers => cases h
  | nil =>
    simp only [Source.read] at h
    split at h
    next hempty => exact isEmpty_iff.1 hempty
    next => cases h

namespace AsciiDecoder

variable (d : AsciiDecoder) (M : Nat)

/-- The walk: the frame in progress at the first end of a frame, and the bytes after. -/
def find : Progress → List UInt8 → Option (Progress × List UInt8)
  | _, [] => none
  | p, c :: cs =>
    match d.processChar M p c with
    | none => some (p, cs)
    | some p' => find p' cs

/-- The walk through a buffer and on. -/
theorem find_append (p : Progress) (data more : List UInt8) :
    d.find M p (data ++ more) =
      match d.processBuffer M p data with
      | (true, p', rest) => some (p', rest ++ more)
      | (false, p', _) => d.find M p' more := by
  induction data generalizing p with
  | nil => rfl
  | cons c cs ih =>
    simp only [cons_append, find, processBuffer]
    cases d.processChar M p c with
    | none => rfl
    | some p' => exact ih p'

variable {s : DecoderState}

theorem fill_some {data : List UInt8} {source : Source}
    (h : d.fill s = some (data, source)) : s.pending = data ++ source.stream := by
  unfold fill at h
  split at h
  next hempty =>
    rw [DecoderState.pending, isEmpty_iff.1 hempty, Source.read_some h]
    rfl
  next =>
    cases h
    rfl

theorem fill_none (h : d.fill s = none) : s.pending = [] := by
  unfold fill at h
  split at h
  next hempty =>
    rw [DecoderState.pending, isEmpty_iff.1 hempty, Source.read_none h]
    rfl
  next => cases h

/-- What a partial scan says about the walk. -/
theorem scanPart_find (s : DecoderState) :
    match d.scanPart M s with
    | .ioError _ _ => d.find M s.progress s.pending = none
    | .inProgress s' =>
      d.find M s.progress s.pending = d.find M s'.progress s'.pending
    | .isEof frameSize s' => ∃ p, d.find M s.progress s.pending =
        some (p, s'.pending) ∧ frameSize = p.frameSize ∧ s'.progress = p.initializeFrame := by
  unfold scanPart
  cases hfill : d.fill s with
  | none =>
    -- nothing in the buffer, and nothing to come
    rw [d.fill_none hfill]
    rfl
  | some r =>
    obtain ⟨data, source⟩ := r
    simp only
    have hfind := d.find_append M s.progress data source.stream
    have hrest := d.processBuffer_rest M s.progress data
    rw [d.fill_some hfill]
    rcases hbuf : d.processBuffer M s.progress data with ⟨atEof, p, rest⟩
    rw [hbuf] at hfind hrest
    cases atEof with
    | true => exact ⟨p, hfind, rfl, rfl⟩
    | false =>
      -- the whole buffer was processed
      have hnil : rest = [] := hrest rfl
      subst hnil
      exact hfind

/-- **A scan finds what the walk finds.** -/
theorem scanLoop_found (s : DecoderState) (p : Progress) (rest : List UInt8)
    (h : d.find M s.progress s.pending = some (p, rest)) :
    ∃ s', d.scanLoop M s = (true, p.frameSize, s') ∧
      s'.progress = p.initializeFrame ∧ s'.pending = rest := by
  have hpart := d.scanPart_find M s
  fun_induction scanLoop d M s with
  | case1 s size s' hs =>
    rw [hs] at hpart
    simp only [h, reduceCtorEq] at hpart
  | case2 s s' hs ih =>
    rw [hs] at hpart
    rw [hpart] at h
    exact ih h (d.scanPart_find M s')
  | case3 s size s' hs =>
    rw [hs] at hpart
    obtain ⟨p', hp', rfl, hprog⟩ := hpart
    rw [h] at hp'
    cases hp'
    exact ⟨s', rfl, hprog, rfl⟩

/-- **A scan fails where the walk finds nothing.** -/
theorem scanLoop_failed (s : DecoderState) (h : d.find M s.progress s.pending = none) :
    (d.scanLoop M s).1 = false := by
  have hpart := d.scanPart_find M s
  fun_induction scanLoop d M s with
  | case1 s size s' hs => rfl
  | case2 s s' hs ih =>
    rw [hs] at hpart
    rw [hpart] at h
    exact ih h (d.scanPart_find M s')
  | case3 s size s' hs =>
    rw [hs] at hpart
    obtain ⟨p', hp', -⟩ := hpart
    simp only [h, reduceCtorEq] at hp'

/-- A scan that fails has read everything. -/
theorem scanLoop_exhausts (h : (d.scanLoop M s).1 = false) : (d.scanLoop M s).2.2.pending = [] := by
  fun_induction scanLoop d M s with
  | case1 s size s' hs =>
    unfold scanPart at hs
    split at hs
    next hfill =>
      cases hs
      exact (append_eq_nil_iff.mp (d.fill_none hfill)).2
    next => split at hs <;> cases hs
  | case2 s s' hs ih => exact ih h
  | case3 => cases h

/-- Where the walk finds the same, the scans return the same. -/
theorem scans_congr (n : Nat) {s s' : DecoderState}
    (h : d.find M s.progress.initializeFrame s.pending
      = d.find M s'.progress.initializeFrame s'.pending) :
    (d.scans M n s).1 = (d.scans M n s').1 := by
  induction n generalizing s s' with
  | zero => rfl
  | succ n ih =>
    cases hfind : d.find M s.progress.initializeFrame s.pending with
    | none =>
      -- both fail, and nothing is left for the later scans
      have hfail : (d.scan M s).1 = false := d.scanLoop_failed M _ hfind
      have hfail' : (d.scan M s').1 = false := d.scanLoop_failed M _ (h ▸ hfind)
      simp only [scans, hfail, hfail']
      refine congrArg (none :: ·) (ih ?_)
      unfold scan at *
      rw [d.scanLoop_exhausts M hfail, d.scanLoop_exhausts M hfail']
      rfl
    | some r =>
      obtain ⟨t, hscan, hprog, hrest⟩ := d.scanLoop_found M
        ⟨s.data, s.progress.initializeFrame, s.source⟩ r.1 r.2 hfind
      obtain ⟨t', hscan', hprog', hrest'⟩ := d.scanLoop_found M
        ⟨s'.data, s'.progress.initializeFrame, s'.source⟩ r.1 r.2 (h ▸ hfind)
      simp only [scans, scan, hscan, hscan', hprog, hprog']
      refine congrArg (_ :: ·) (ih ?_)
      rw [hprog, hprog', hrest, hrest']

/-- **WHAT IS DECODED DEPENDS ON THE STREAM ALONE**, encoded or not, and not on how the source
hands it out. -/
theorem decoded_from_stream (n : Nat) (memory : Nat → UInt8) (stream : List UInt8)
    (offers offers' : List Nat) :
    (d.scans M n (.start memory ⟨stream, offers⟩)).1
      = (d.scans M n (.start memory ⟨stream, offers'⟩)).1 :=
  d.scans_congr M n rfl

/-! ## §2. Nothing is stored beyond the client's buffer. -/

/-- The pointer and the size agree inside a frame, and the memory at and beyond the end
of the client's buffer is what it was. -/
structure Within (memory : Nat → UInt8) (p : Progress) : Prop where
  pointer : p.inFrame = true → p.framePtr = p.frameSize
  beyond : ∀ i, M ≤ i → p.frame i = memory i

variable {d M} {memory : Nat → UInt8}

variable {p : Progress}

theorem Within.initializeFrame (h : Within M memory p) :
    Within M memory p.initializeFrame :=
  ⟨(fun hin => nomatch hin), h.beyond⟩

theorem Within.store (h : Within M memory p) (hin : p.inFrame = true)
    (hroom : p.frameSize < M) (c : UInt8) :
    Within M memory (p.store c) := by
  have hptr := h.pointer hin
  constructor
  · intro _
    simp only [Progress.store]
    omega
  · intro i hi
    have hne : i ≠ p.framePtr := by omega
    simp only [Progress.store, Function.update_of_ne hne]
    exact h.beyond i hi

variable {c : UInt8}

/-- **One character** stores within the buffer. -/
theorem Within.processChar {p' : Progress} (h : Within M memory p)
    (hc : d.processChar M p c = some p') : Within M memory p' := by
  unfold AsciiDecoder.processChar at hc
  split_ifs at hc with hin hlegal hesc heof hch hroom hroom hsof <;> cases hc
  · exact ⟨(fun hf => nomatch hf), h.beyond⟩
  · exact h.store hin hroom c
  · exact h.initializeFrame
  · exact ⟨h.pointer, h.beyond⟩
  · exact Within.store (p := { p with escaping := false }) ⟨h.pointer, h.beyond⟩ hin hroom c
  · exact h.initializeFrame
  · exact ⟨fun _ => rfl, h.beyond⟩
  · exact h

theorem Within.processBuffer (h : Within M memory p) (data : List UInt8) :
    Within M memory (d.processBuffer M p data).2.1 := by
  induction data generalizing p with
  | nil => exact h
  | cons c cs ih =>
    unfold AsciiDecoder.processBuffer
    cases hc : d.processChar M p c with
    | none => exact h
    | some p' => exact ih (h.processChar hc)

theorem Within.scanPart (h : Within M memory s.progress) :
    match d.scanPart M s with
    | .ioError _ s' | .inProgress s' | .isEof _ s' =>
      Within M memory s'.progress := by
  unfold AsciiDecoder.scanPart
  cases d.fill s with
  | none => exact h.initializeFrame
  | some r =>
    have hbuf := h.processBuffer (d := d) r.1
    rcases hr : d.processBuffer M s.progress r.1 with ⟨atEof, p, rest⟩
    rw [hr] at hbuf
    simp only [hr]
    cases atEof with
    | true => exact Within.initializeFrame hbuf
    | false => exact hbuf

theorem Within.scanLoop (h : Within M memory s.progress) :
    Within M memory (d.scanLoop M s).2.2.progress := by
  have hpart := h.scanPart (d := d)
  fun_induction AsciiDecoder.scanLoop d M s with
  | case1 s size s' hs | case3 s size s' hs => rw [hs] at hpart; exact hpart
  | case2 s s' hs ih => rw [hs] at hpart; exact ih hpart (Within.scanPart hpart)

/-- **Any number of scans**, of any stream, stores within the buffer. -/
theorem Within.scans (n : Nat) (h : Within M memory s.progress) :
    Within M memory (d.scans M n s).2.progress := by
  induction n generalizing s with
  | zero => exact h
  | succ n ih =>
    unfold AsciiDecoder.scans
    exact ih (Within.scanLoop
      h.initializeFrame)

/-- **NO STREAM OVERRUNS THE CLIENT'S BUFFER.** -/
theorem client_buffer_kept (n i : Nat) (source : Source) :
    (d.scans M n (.start memory source)).2.progress.frame (M + i) = memory (M + i) :=
  (Within.scans (s := .start memory source) n ⟨(fun hin => by cases hin), fun _ _ => rfl⟩).beyond _
    (Nat.le_add_right M i)

/-! ## §3. Frames on the wire. -/

section Wire

variable (d : AsciiDecoder) (M : Nat)

/-- A character of a frame, and whether it is sent with an escape. -/
abbrev Symbol := UInt8 × Bool

def Symbol.raw (s : Symbol) : List UInt8 := if s.2 then [d.esc, s.1] else [s.1]

/-- The content is printable, and the markers in it are escaped (SOF need not be). -/
def Encoded (body : List Symbol) : Prop :=
  ∀ s ∈ body, Printable s.1 ∧ (s.1 = d.esc ∨ s.1 = d.eof → s.2 = true)

instance (body : List Symbol) : Decidable (d.Encoded body) :=
  inferInstanceAs (Decidable (∀ s ∈ body, _))

/-- A frame, after a text that someone else puts into the stream; `newline` follows EOF. -/
def framed (newline : List UInt8) (item : List UInt8 × List Symbol) : List UInt8 :=
  item.1 ++ d.sof :: (item.2.flatMap (Symbol.raw d) ++ d.eof :: newline)

/-- What is collected after one more character: nothing once the buffer is full, until a SOF
is met. -/
def keep : Option (List UInt8) → Symbol → Option (List UInt8)
  | some xs, s => if xs.length < M then some (xs ++ [s.1]) else none
  | none, s => if s.1 = d.sof then some [] else none

/-- What the decoder returns of a frame. -/
def received (item : List UInt8 × List Symbol) : Option (List UInt8) :=
  item.2.foldl (d.keep M) (some [])

end Wire

/-- While the buffer has room for them, all characters are collected. -/
theorem foldl_keep_of_le (body : List Symbol) (xs : List UInt8) (h : xs.length + body.length ≤ M) :
    body.foldl (d.keep M) (some xs) = some (xs ++ body.map Prod.fst) := by
  induction body generalizing xs with
  | nil => simp
  | cons s body ih =>
    rw [length_cons] at h
    rw [foldl_cons, keep, if_pos (by omega), ih _ (by simp; omega)]
    simp

/-- A frame that fits is returned whole. -/
theorem received_of_le {item : List UInt8 × List Symbol} (h : item.2.length ≤ M) :
    d.received M item = some (item.2.map Prod.fst) :=
  foldl_keep_of_le item.2 [] (by simpa using h)

/-- One character too many, and nothing is collected any more. -/
theorem foldl_keep_full {first : List Symbol} (h : first.length = M + 1) :
    first.foldl (d.keep M) (some []) = none := by
  have hlast : first.drop M = [first.get ⟨M, by omega⟩] := by
    rw [drop_eq_getElem_cons (by omega), drop_eq_nil_of_le (by omega)]
    rfl
  rw [← take_append_drop M first, foldl_append,
    foldl_keep_of_le _ _ (by rw [length_take, length_nil]; omega), hlast, foldl_cons, keep,
    if_neg (by simp; omega)]
  rfl

/-- Without a SOF nothing is collected again. -/
theorem foldl_keep_none {body : List Symbol} (h : ∀ s ∈ body, s.1 ≠ d.sof) :
    body.foldl (d.keep M) none = none := by
  induction body with
  | nil => rfl
  | cons s body ih =>
    rw [foldl_cons, keep, if_neg (h s mem_cons_self)]
    exact ih fun t ht => h t (mem_cons_of_mem _ ht)

/-- **The content of an over-long frame of which nothing is returned.**  Behind its first
`M + 1` characters there is no SOF, or the text behind the first SOF there is again one of
which nothing is returned. -/
inductive Swallowed (d : AsciiDecoder) (M : Nat) : List Symbol → Prop
  | ends (first rest : List Symbol) (hfull : first.length = M + 1)
      (hsof : ∀ s ∈ rest, s.1 ≠ d.sof) : Swallowed d M (first ++ rest)
  | again (first text rest : List Symbol) (s : Symbol) (hfull : first.length = M + 1)
      (hsof : ∀ s ∈ text, s.1 ≠ d.sof) (hs : s.1 = d.sof) (hrest : Swallowed d M rest) :
      Swallowed d M (first ++ (text ++ s :: rest))

theorem Swallowed.foldl_keep {body : List Symbol} (h : Swallowed d M body) :
    body.foldl (d.keep M) (some []) = none := by
  induction h with
  | ends first rest hfull hsof => rw [foldl_append, foldl_keep_full hfull, foldl_keep_none hsof]
  | again first text rest s hfull hsof hs _ ih =>
    rw [foldl_append, foldl_keep_full hfull, foldl_append, foldl_keep_none hsof,
      foldl_cons, keep, if_pos hs, ih]

/-- What returns nothing is over-long, and the search for a SOF starts behind the character
that did not fit: the induction is on the length, since it goes on behind that SOF. -/
theorem swallowed_of_foldl_keep (body : List Symbol)
    (h : body.foldl (d.keep M) (some []) = none) : Swallowed d M body := by
  by_cases hlong : body.length ≤ M
  · rw [foldl_keep_of_le body [] (by simpa using hlong)] at h
    cases h
  have hfull : (body.take (M + 1)).length = M + 1 := by
    rw [length_take]
    omega
  rw [← take_append_drop (M + 1) body] at h ⊢
  rw [foldl_append, foldl_keep_full hfull] at h
  cases hfind : (body.drop (M + 1)).find? (·.1 = d.sof) with
  | none => exact .ends _ _ hfull (by simpa using hfind)
  | some s =>
    obtain ⟨hs, text, rest, hsplit, htext⟩ := find?_eq_some_iff_append.mp hfind
    have hsof : ∀ s ∈ text, s.1 ≠ d.sof := by simpa using htext
    have hlt : rest.length < body.length := by
      have hlen := congrArg length hsplit
      simp only [length_drop, length_append, length_cons] at hlen
      omega
    rw [hsplit, foldl_append, foldl_keep_none hsof, foldl_cons, keep,
      if_pos (by simpa using hs)] at h
    rw [hsplit]
    exact .again _ _ _ _ hfull hsof (by simpa using hs) (swallowed_of_foldl_keep rest h)
  termination_by body.length

/-- **Nothing is returned of a frame** exactly if its content is swallowed. -/
theorem received_eq_none_iff {item : List UInt8 × List Symbol} :
    d.received M item = none ↔ Swallowed d M item.2 :=
  ⟨swallowed_of_foldl_keep item.2, Swallowed.foldl_keep⟩

/-! ## §4. The walk over a frame. -/

/-- Inside a frame of which `xs` is stored, no escape in progress. -/
structure Stored (p : Progress) (xs : List UInt8) : Prop where
  inFrame : p.inFrame = true
  escaping : p.escaping = false
  pointer : p.framePtr = xs.length
  size : p.frameSize = xs.length
  bytes : (range xs.length).map p.frame = xs

variable {xs : List UInt8}

theorem Stored.store (h : Stored p xs) (c : UInt8) : Stored (p.store c) (xs ++ [c]) := by
  refine ⟨h.inFrame, h.escaping, ?_, ?_, ?_⟩
  · simp [Progress.store, h.pointer]
  · simp [Progress.store, h.size]
  · -- the old bytes are below the one that is written
    have hold : (range xs.length).map (p.store c).frame = xs := by
      conv_rhs => rw [← h.bytes]
      refine map_congr_left fun i hi => ?_
      have hlt := mem_range.1 hi
      have hne : i ≠ p.framePtr := by rw [h.pointer]; omega
      simp [Progress.store, Function.update_of_ne hne]
    have hnew : (p.store c).frame xs.length = c := by
      simp [Progress.store, ← h.pointer]
    rw [length_append, length_singleton, range_succ, map_append, hold,
      map_singleton, hnew]

theorem isLegalCharacter_of_printable (hc : Printable c) : d.isLegalCharacter c = true := by
  have hlt : c < 0x80 := UInt8.lt_of_le_of_lt hc.2 (by decide)
  simp [isLegalCharacter, hlt, hc.1, hc.2]

/-- **Text** before a frame is skipped. -/
theorem find_text (hidle : p.inFrame = false) (text more : List UInt8) (htext : d.sof ∉ text) :
    d.find M p (text ++ more) = d.find M p more := by
  induction text with
  | nil => rfl
  | cons c cs ih =>
    have hc : c ≠ d.sof := fun heq => htext (heq ▸ mem_cons_self)
    have hstep : d.processChar M p c = some p := by
      simp [processChar, hidle, hc]
    simp only [cons_append, find, hstep]
    exact ih fun hmem => htext (mem_cons_of_mem _ hmem)

/-- **SOF** opens a frame. -/
theorem find_sof (hidle : p.inFrame = false) (more : List UInt8) :
    ∃ p', d.find M p (d.sof :: more) = d.find M p' more ∧ Stored p' [] := by
  refine ⟨{ p with inFrame := true, escaping := false, frameSize := 0, framePtr := 0 }, ?_,
    rfl, rfl, rfl, rfl, rfl⟩
  simp [find, processChar, hidle]

/-- A frame the walk finds is returned by the next scan. -/
theorem scans_found {rest : List UInt8} (h : Stored p xs)
    (hfind : d.find M s.progress.initializeFrame s.pending = some (p, rest)) :
    ∃ s', s'.pending = rest ∧
      ∀ n, (d.scans M (n + 1) s).1 = some xs :: (d.scans M n s').1 := by
  obtain ⟨s', hscan, hprog, hrest⟩ := d.scanLoop_found M
    { s with progress := s.progress.initializeFrame } p rest hfind
  refine ⟨s', hrest, fun n => ?_⟩
  have hbytes : (range p.frameSize).map s'.progress.frame = xs := by
    rw [hprog, h.size]
    exact h.bytes
  simp [scans, scan, hscan, hbytes]

/-- Where the walk finds nothing the next scan fails. -/
theorem scans_failed (h : d.find M s.progress.initializeFrame s.pending = none) :
    (d.scans M 1 s).1 = [none] := by
  have hfail := d.scanLoop_failed M
    { s with progress := s.progress.initializeFrame } h
  simp [scans, scan, hfail]

/-- Any other character outside a frame is skipped. -/
theorem find_skip (hidle : p.inFrame = false) {c : UInt8} (hc : c ≠ d.sof) (more : List UInt8) :
    d.find M p (c :: more) = d.find M p more :=
  find_text hidle [c] more (by simpa using hc.symm)

/-- The decoder collects `xs`, or is outside a frame. -/
def Tracks (p : Progress) : Option (List UInt8) → Prop
  | some xs => Stored p xs
  | none => p.inFrame = false

variable {kept : Option (List UInt8)}

section Markers

variable (hesc : Printable d.esc) (hne : d.esc ≠ d.eof)

include hesc hne

/-- **A character inside a frame** is stored, or the buffer is full and the frame is left. -/
theorem find_char (h : Stored p xs) {s : Symbol}
    (hs : Printable s.1 ∧ (s.1 = d.esc ∨ s.1 = d.eof → s.2 = true)) (more : List UInt8) :
    d.find M p (s.raw d ++ more) =
      d.find M
        (if xs.length < M then p.store s.1 else p.initializeFrame) more := by
  obtain ⟨c, esc⟩ := s
  obtain ⟨inFrame, escaping, framePtr, frameSize, frame⟩ := p
  obtain ⟨rfl, rfl, rfl, rfl, -⟩ := h
  have hlegal := isLegalCharacter_of_printable (d := d) hs.1
  cases esc with
  | false =>
    have hplain := not_or.mp fun heq => Bool.false_ne_true (hs.2 heq)
    by_cases hroom : xs.length < M <;>
      simp [Symbol.raw, find, processChar, hlegal, hplain, hroom]
  | true =>
    -- the escape character first, then the character itself
    have hlegal' := isLegalCharacter_of_printable (d := d) hesc
    by_cases hroom : xs.length < M <;>
      simp [Symbol.raw, find, processChar, hlegal, hlegal', hne, hroom, Progress.initializeFrame]

/-- **One character of the content.** -/
theorem find_symbol (h : Tracks p kept) (hse : kept = none → d.esc ≠ d.sof) {s : Symbol}
    (hs : Printable s.1 ∧ (s.1 = d.esc ∨ s.1 = d.eof → s.2 = true)) (more : List UInt8) :
    ∃ p', d.find M p (s.raw d ++ more) = d.find M p' more
      ∧ Tracks p' (d.keep M kept s) := by
  match kept with
  | some xs =>
    refine ⟨_, find_char hesc hne h hs more, ?_⟩
    rw [keep]
    split
    · exact Stored.store h s.1
    · rfl
  | none =>
    have hraw : d.find M p (s.raw d ++ more) =
        d.find M p (s.1 :: more) := by
      unfold Symbol.raw
      split
      · exact find_skip h (hse rfl) (s.1 :: more)
      · rfl
    rw [hraw, keep]
    split
    next hsof =>
      rw [hsof]
      exact find_sof h more
    next hsof => exact ⟨p, find_skip h hsof more, h⟩

/-- Through the content of a frame; outside frames SOF must not be taken for an escape. -/
theorem find_symbols (body : List Symbol) (hbody : d.Encoded body) (h : Tracks p kept)
    (hse : d.esc ≠ d.sof ∨ ∃ xs, kept = some xs ∧ xs.length + body.length ≤ M)
    (more : List UInt8) :
    ∃ p', d.find M p (body.flatMap (Symbol.raw d) ++ more) =
        d.find M p' more
      ∧ Tracks p' (body.foldl (d.keep M) kept) := by
  induction body generalizing p kept with
  | nil => exact ⟨p, rfl, h⟩
  | cons s body ih =>
    obtain ⟨p₁, hfind₁, h₁⟩ := find_symbol hesc hne (M := M) h
      (by rcases hse with hse | ⟨xs, rfl, -⟩; exacts [fun _ => hse, nofun])
      (hbody s mem_cons_self) (body.flatMap (Symbol.raw d) ++ more)
    obtain ⟨p', hfind, h'⟩ := ih (fun t ht => hbody t (mem_cons_of_mem _ ht)) h₁ (by
      refine hse.imp id ?_
      rintro ⟨xs, rfl, hlen⟩
      rw [length_cons] at hlen
      exact ⟨xs ++ [s.1], if_pos (by omega), by simp; omega⟩)
    exact ⟨p', by rw [flatMap_cons, append_assoc, hfind₁, hfind], h'⟩

variable (heof : Printable d.eof) (newline : List UInt8)

include heof

/-- **A frame and its end**: returned, or passed over. -/
theorem find_framed (hidle : p.inFrame = false) {item : List UInt8 × List Symbol}
    (htext : d.sof ∉ item.1) (hbody : d.Encoded item.2)
    (hout : item.2.length ≤ M ∨ d.esc ≠ d.sof ∧ d.eof ≠ d.sof) (more : List UInt8) :
    ∃ p', Tracks p' (d.received M item)
      ∧ d.find M p (d.framed newline item ++ more) =
        if (d.received M item).isSome then some (p', newline ++ more)
        else d.find M p' (newline ++ more) := by
  obtain ⟨p₁, hsof, hopen⟩ := find_sof hidle
    (item.2.flatMap (Symbol.raw d) ++ d.eof :: (newline ++ more))
  obtain ⟨p', hfind, h'⟩ := find_symbols hesc hne item.2 hbody (show Tracks p₁ (some []) from hopen)
    (hout.symm.imp And.left fun hfits => ⟨[], rfl, by simpa using hfits⟩)
    (d.eof :: (newline ++ more))
  have hstream : d.framed newline item ++ more =
      item.1 ++ d.sof :: (item.2.flatMap (Symbol.raw d) ++ d.eof :: (newline ++ more)) := by
    simp [framed]
  refine ⟨p', h', ?_⟩
  rw [hstream, find_text hidle _ _ htext, hsof, hfind]
  change Tracks p' (d.received M item) at h'
  cases hkept : d.received M item with
  | none =>
    rw [hkept] at h'
    refine find_skip h' (hout.resolve_left fun hfits => ?_).2 _
    rw [received_of_le hfits] at hkept
    cases hkept
  | some xs =>
    rw [hkept] at h'
    have hlegal := isLegalCharacter_of_printable (d := d) heof
    have hend : d.processChar M p' d.eof = none := by
      simp [processChar, Stored.inFrame h', Stored.escaping h', hlegal]
    simp [find, hend]

variable {newline} (hnewline : d.sof ∉ newline) {tail : List UInt8} (htail : d.sof ∉ tail)

include hnewline htail

/-- **The next frame that is returned**, if there is one; `lead` is what is left of the text
before. -/
theorem find_frames (hidle : p.inFrame = false) (items : List (List UInt8 × List Symbol))
    (hitems : ∀ item ∈ items, d.sof ∉ item.1 ∧ d.Encoded item.2
      ∧ (item.2.length ≤ M ∨ d.esc ≠ d.sof ∧ d.eof ≠ d.sof))
    {lead : List UInt8} (hlead : d.sof ∉ lead) :
    (items.filterMap (d.received M) = []
        ∧ d.find M p (lead ++ (items.flatMap (d.framed newline) ++ tail)) = none)
      ∨ ∃ p' xs later, Stored p' xs ∧ later <:+ items
        ∧ items.filterMap (d.received M) =
          xs :: later.filterMap (d.received M)
        ∧ d.find M p (lead ++ (items.flatMap (d.framed newline) ++ tail)) =
          some (p', newline ++ (later.flatMap (d.framed newline) ++ tail)) := by
  rw [find_text hidle lead _ hlead]
  induction items generalizing p with
  | nil =>
    refine .inl ⟨rfl, ?_⟩
    rw [flatMap_nil, nil_append, ← append_nil tail, find_text hidle tail [] htail]
    rfl
  | cons item items ih =>
    obtain ⟨htext, hbody, hout⟩ := hitems item mem_cons_self
    obtain ⟨p', htracks, hfind⟩ := find_framed hesc hne heof newline hidle htext hbody hout
      (items.flatMap (d.framed newline) ++ tail)
    rw [flatMap_cons, append_assoc, hfind, filterMap_cons]
    cases hkept : d.received M item with
    | none =>
      -- passed over: the walk goes on outside a frame
      rw [hkept] at htracks
      simp only
      rw [find_text htracks newline _ hnewline]
      refine (ih htracks fun it hit => hitems it (mem_cons_of_mem _ hit)).imp id ?_
      rintro ⟨p', xs, later, hstored, hlater, hfound⟩
      exact ⟨p', xs, later, hstored, hlater.trans (suffix_cons _ _), hfound⟩
    | some xs =>
      rw [hkept] at htracks
      exact .inr ⟨p', xs, items, htracks, suffix_cons _ _, rfl, rfl⟩

/-- **The scans of a stream of frames.** -/
theorem scans_frames (items : List (List UInt8 × List Symbol))
    (hitems : ∀ item ∈ items, d.sof ∉ item.1 ∧ d.Encoded item.2
      ∧ (item.2.length ≤ M ∨ d.esc ≠ d.sof ∧ d.eof ≠ d.sof))
    {lead : List UInt8} (hlead : d.sof ∉ lead) (s : DecoderState)
    (hpending : s.pending = lead ++ (items.flatMap (d.framed newline) ++ tail)) :
    (d.scans M ((items.filterMap (d.received M)).length + 1) s).1 =
      (items.filterMap (d.received M)).map some ++ [none] := by
  rcases find_frames hesc hne heof hnewline htail (p := s.progress.initializeFrame) rfl items hitems
    hlead with ⟨hnil, hfind⟩ | ⟨p', xs, later, hstored, hlater, hfound, hfind⟩
  · rw [hnil]
    exact scans_failed (hpending ▸ hfind)
  · obtain ⟨s', hrest, hscans⟩ := scans_found hstored (hpending ▸ hfind)
    rw [hfound, length_cons, hscans,
      scans_frames later (fun item hit => hitems item (hlater.subset hit)) hnewline s' hrest]
    rfl
  termination_by (items.filterMap (d.received M)).length
  decreasing_by
    rw [hfound]
    exact Nat.lt_succ_self _

end Markers

end AsciiDecoder

/-- A selection that leaves out some of what another one takes is the same selection only if
it leaves out nothing. -/
theorem eq_of_filterMap_eq {α β : Type} {f g : α → Option β} (hfg : ∀ a, g a = f a ∨ g a = none)
    {l : List α} (h : l.filterMap f = l.filterMap g) : ∀ a ∈ l, f a = g a := by
  have hle : ∀ l : List α, (l.filterMap g).length ≤ (l.filterMap f).length := by
    intro l
    induction l with
    | nil => exact Nat.le_refl _
    | cons a l ih =>
      rcases hfg a with ha | ha
      · cases hf : f a <;> simp [ha, hf, ih]
      · cases hf : f a <;> simp [ha, hf] <;> omega
  induction l with
  | nil => simp
  | cons a l ih =>
    have hhead : f a = g a := by
      rcases hfg a with ha | ha
      · exact ha.symm
      · cases hf : f a with
        | none => exact ha.symm
        | some b =>
          -- one more on the left, and not fewer behind it
          have hlen := congrArg length h
          have := hle l
          simp only [filterMap_cons, hf, ha, length_cons] at hlen
          omega
    refine forall_mem_cons.mpr ⟨hhead, ih ?_⟩
    rw [filterMap_cons, filterMap_cons, ← hhead] at h
    cases hf : f a <;> simpa [hf] using h

/-- **OVER-LONG FRAMES.**  For all printable, pairwise distinct markers, all frames of printable
characters with the texts between them, every buffer size and every way the source hands out the
stream, the scans return `received` of each frame, in order, and then fail.  Those are the frames
that fit and no others EXACTLY if the content of every over-long one is `Swallowed`. -/
theorem overlong_frames (d : AsciiDecoder) (heof : Printable d.eof) (hesc : Printable d.esc)
    (hne : d.esc ≠ d.eof) (hse : d.esc ≠ d.sof) (hee : d.eof ≠ d.sof) (maxSizeOfFrame : Nat)
    (items : List (List UInt8 × List AsciiDecoder.Symbol))
    (hitems : ∀ item ∈ items, d.sof ∉ item.1 ∧ d.Encoded item.2) (newline tail : List UInt8)
    (hnewline : d.sof ∉ newline) (htail : d.sof ∉ tail) (offers : List Nat)
    (memory : Nat → UInt8) :
    let found := items.filterMap (d.received maxSizeOfFrame)
    (d.scans maxSizeOfFrame (found.length + 1)
        (DecoderState.start memory ⟨items.flatMap (d.framed newline) ++ tail, offers⟩)).1 =
        found.map some ++ [none]
      ∧ ((found = items.filterMap fun item =>
            if item.2.length ≤ maxSizeOfFrame then some (item.2.map Prod.fst) else none)
          ↔ ∀ item ∈ items, maxSizeOfFrame < item.2.length → d.Swallowed maxSizeOfFrame item.2) := by
  refine ⟨AsciiDecoder.scans_frames hesc hne heof hnewline htail items (fun item hit =>
    ⟨(hitems item hit).1, (hitems item hit).2, .inr ⟨hse, hee⟩⟩) not_mem_nil _ rfl, ?_, ?_⟩
  · intro hfound item hitem hlong
    refine AsciiDecoder.received_eq_none_iff.mp
      ((eq_of_filterMap_eq (fun item => ?_) hfound item hitem).trans (if_neg (by omega)))
    split
    next hfits => exact .inl (AsciiDecoder.received_of_le hfits).symm
    next => exact .inr rfl
  · intro hlong
    refine filterMap_congr fun item hitem => ?_
    split
    next hfits => exact AsciiDecoder.received_of_le hfits
    next hlonger =>
      exact AsciiDecoder.received_eq_none_iff.mpr (hlong item hitem (Nat.lt_of_not_le hlonger))

/-- The markers of the examples in `Decoder.h`, and a buffer of one character. -/
def dotDecoder : AsciiDecoder := ⟨0x2E, 0x3B, 0x7E, true, 1, by decide⟩

/-- The frames `a` and `bcd.e.f`, of which the second is too long for two characters, and so is
the text behind the first SOF in it. -/
theorem overlong_frames_two :
    (dotDecoder.scans 2 2 (DecoderState.start (fun _ => 0) ⟨[0x2E, 0x61, 0x3B,
        0x2E, 0x62, 0x63, 0x64, 0x2E, 0x65, 0x2E, 0x66, 0x3B], []⟩)).1 = [some [0x61], none]
      ∧ [([], [(0x61, false)]), ([], [0x62, 0x63, 0x64, 0x2E, 0x65, 0x2E, 0x66].map (·, false))].filterMap
          (dotDecoder.received 2) = [[0x61]] := by
  obtain ⟨hscans, hfound⟩ := overlong_frames dotDecoder (by decide) (by decide) (by decide)
    (by decide) (by decide) 2
    [([], [(0x61, false)]), ([], [0x62, 0x63, 0x64, 0x2E, 0x65, 0x2E, 0x66].map (·, false))]
    (by decide +kernel) [] [] not_mem_nil not_mem_nil [] fun _ => 0
  refine ⟨hscans, hfound.mpr ?_⟩
  refine forall_mem_cons.mpr ⟨fun hlong => absurd hlong (by decide), ?_⟩
  refine forall_mem_singleton.mpr fun _ => ?_
  exact .again ([0x62, 0x63, 0x64].map (·, false)) [] _ (0x2E, false) rfl nofun rfl
    (.ends ([0x65, 0x2E, 0x66].map (·, false)) [] rfl nofun)

/-- The frame `abc.d` is too long for two characters, and `d` is returned. -/
theorem overlong_frames_residue :
    (dotDecoder.scans 2 2 (DecoderState.start (fun _ => 0)
      ⟨[0x2E, 0x61, 0x62, 0x63, 0x2E, 0x64, 0x3B], []⟩)).1 = [some [0x64], none] :=
  AsciiDecoder.scans_frames
    (by decide) (by decide) (by decide) not_mem_nil not_mem_nil
    [([], [(0x61, false), (0x62, false), (0x63, false), (0x2E, false), (0x64, false)])]
    (by decide +kernel) not_mem_nil _ rfl

end ColonyCore.Text.Frame
