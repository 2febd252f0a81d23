/-
  ColonyCore.Text.FrameRoundTrip
  **WHAT THE ENCODER WRITES, THE DECODER READS BACK, HOWEVER THE STREAM IS CUT.**

    • `transmit_put` — the stream an encoder produces,
    • `framedAll_eq` — that stream as frames on the wire,
    • `frames_round_trip` — the two together.
-/
import ColonyCore.Text.FrameWalk

namespace ColonyCore.Text.Frame

open List

/-! ## §1. The stream of an encoder. -/

/-- A frame's characters with the escapes. -/
def escaped (esc eof : UInt8) : List UInt8 → List UInt8
  | [] => []
  | c :: cs => (if c = esc ∨ c = eof then [esc, c] else [c]) ++ escaped esc eof cs

/-- The characters of a frame given in pieces. -/
def content (pieces : List Encoder.Piece) : List UInt8 := pieces.flatMap Encoder.Piece.content

namespace Encoder

/-- The encoder's stream of one frame. -/
def framed (e : Encoder) (body : List UInt8) : List UInt8 :=
  e.sof :: (escaped e.esc e.eof body ++ e.eof :: (if e.appendNewline then NewLine.standard else []))

/-- The stream of several, each after its text. -/
def framedAll (e : Encoder) : List (List UInt8 × List Piece) → List UInt8
  | [] => []
  | item :: items => item.1 ++ e.framed (content item.2) ++ framedAll e items

theorem escaped_eq_flatMap (esc eof : UInt8) (xs : List UInt8) :
    escaped esc eof xs = xs.flatMap fun c => escaped esc eof [c] := by
  induction xs with
  | nil => rfl
  | cons x xs ih => rw [escaped, ih]; simp [escaped]

theorem escaped_content (esc eof : UInt8) (pieces : List Piece) :
    escaped esc eof (content pieces) = pieces.flatMap fun p => escaped esc eof p.content := by
  rw [escaped_eq_flatMap, content, flatMap_assoc]
  simp [← escaped_eq_flatMap]

@[simp] theorem put_put (e : Encoder) (xs ys : List UInt8) :
    (e.put xs).put ys = e.put (xs ++ ys) := by
  simp only [put, append_assoc]

@[simp] theorem put_nil (e : Encoder) : e.put [] = e := by
  simp only [put, append_nil]

variable {e : Encoder}

/-- Calls in a row write what each of them writes. -/
theorem foldlM_put {X : Type} {f : Encoder → X → Option Encoder} {g : X → List UInt8}
    (h : ∀ ys x, f (e.put ys) x = some ((e.put ys).put (g x))) (xs : List X) :
    xs.foldlM f e = some (e.put (xs.flatMap g)) := by
  have hall : ∀ ys, xs.foldlM f (e.put ys) = some (e.put (ys ++ xs.flatMap g)) := by
    induction xs with
    | nil => simp
    | cons x xs ih =>
      intro ys
      rw [foldlM_cons, h]
      show xs.foldlM f _ = _
      rw [put_put, ih, flatMap_cons, append_assoc]
  simpa using hall []

section

variable (hin : e.inFrame = true) (hesc : e.esc ≠ 0)

include hin hesc

theorem output_put (c : UInt8) :
    e.output c = some (e.put (escaped e.esc e.eof [c])) := by
  by_cases hc : c = e.esc ∨ c = e.eof <;>
    simp [output, escaped, append, hin, hesc, hc, put]

theorem outputBytes_put (src : List UInt8) :
    e.outputBytes src = some (e.put (escaped e.esc e.eof src)) := by
  rw [escaped_eq_flatMap]
  exact foldlM_put (fun ys c => output_put (show (e.put ys).inFrame = true from hin) hesc c) src

theorem outputPiece_put (p : Piece) :
    e.outputPiece p = some (e.put (escaped e.esc e.eof p.content)) := by
  cases p with
  | char src => exact output_put hin hesc src
  | text src | bytes src => exact outputBytes_put hin hesc _

theorem outputPieces_put (pieces : List Piece) :
    pieces.foldlM outputPiece e = some (e.put (escaped e.esc e.eof (content pieces))) := by
  rw [escaped_content]
  exact foldlM_put (fun ys p => outputPiece_put (show (e.put ys).inFrame = true from hin) hesc p) pieces

end

theorem ne_zero_of_printable {c : UInt8} (h : Printable c) : c ≠ 0 := by
  rintro rfl
  exact absurd h (by decide)

/-- The newline is not printable, so it is not escaped. -/
theorem escaped_newline {esc eof : UInt8} (hesc : Printable esc) (heof : Printable eof) :
    escaped esc eof NewLine.standard = NewLine.standard := by
  have hne : ¬ ((0x0A : UInt8) = esc ∨ (0x0A : UInt8) = eof) := by
    rintro (rfl | rfl)
    · exact absurd hesc (by decide)
    · exact absurd heof (by decide)
  simp [NewLine.standard, escaped, if_neg hne]

section

variable (hidle : e.inFrame = false) (hsof : Printable e.sof) (heof : Printable e.eof)
  (hesc : Printable e.esc)

include hidle hsof heof hesc

/-- **One frame**, from an encoder that is not in a frame. -/
theorem sendFrame_put (pieces : List Piece) :
    e.sendFrame pieces = some (e.put (e.framed (content pieces))) := by
  have hesc0 := ne_zero_of_printable hesc
  obtain ⟨inFrame, sof, eof, esc, appendNewline, dst⟩ := e
  simp only at hidle hsof heof hesc hesc0
  subst hidle
  have hstart : startFrame ⟨false, sof, eof, esc, appendNewline, dst⟩ =
      some ⟨true, sof, eof, esc, appendNewline, dst ++ [sof]⟩ := by
    simp [startFrame, ne_zero_of_printable hsof, append, put]
  have hpieces := outputPieces_put (e := ⟨true, sof, eof, esc, appendNewline, dst ++ [sof]⟩)
    rfl hesc0 pieces
  have hnewline : ∀ dst', outputText ⟨true, sof, eof, esc, appendNewline, dst'⟩ NewLine.standard =
      some ⟨true, sof, eof, esc, appendNewline, dst' ++ NewLine.standard⟩ := by
    intro dst'
    have htext : NewLine.standard.takeWhile (· ≠ 0) = NewLine.standard := by decide
    rw [outputText, htext, outputBytes_put rfl hesc0, escaped_newline hesc heof]
    rfl
  unfold sendFrame
  rw [hstart]
  show (foldlM outputPiece _ pieces >>= endFrame) = _
  rw [hpieces, Option.bind_eq_bind]
  -- the newline, if any, goes through `output` as well
  cases appendNewline with
  | false | true => simp [endFrame, append, framed, put, hnewline]

/-- **The whole stream.** -/
theorem transmit_put (items : List (List UInt8 × List Piece)) :
    e.transmit items = some (e.put (e.framedAll items)) := by
  have hall : e.framedAll items = items.flatMap fun item => item.1 ++ e.framed (content item.2) := by
    induction items with
    | nil => rfl
    | cons item items ih => rw [framedAll, ih, flatMap_cons]
  rw [hall]
  refine foldlM_put (fun ys item => ?_) items
  rw [sendFrame_put (show ((e.put ys).put item.1).inFrame = false from hidle) hsof heof hesc, put_put]
  rfl

end

/-- The characters of a frame, each with its escape. -/
def symbols (e : Encoder) (body : List UInt8) : List AsciiDecoder.Symbol :=
  body.map fun c => (c, decide (c = e.esc ∨ c = e.eof))

/-- **The stream as frames on the wire.** -/
theorem framedAll_eq {d : AsciiDecoder} (hsof : e.sof = d.sof) (heof : e.eof = d.eof)
    (hesc : e.esc = d.esc) (items : List (List UInt8 × List Piece)) :
    e.framedAll items = (items.map fun item => (item.1, e.symbols (content item.2))).flatMap
      (d.framed (if e.appendNewline then NewLine.standard else [])) := by
  have hbody : ∀ body, (e.symbols body).flatMap (AsciiDecoder.Symbol.raw d) =
      escaped e.esc e.eof body := by
    intro body
    induction body with
    | nil => rfl
    | cons c cs ih =>
      rw [escaped, ← ih]
      simp [symbols, AsciiDecoder.Symbol.raw, hesc]
  induction items with
  | nil => rfl
  | cons item items ih =>
    simp [framedAll, ih, framed, AsciiDecoder.framed, hbody, hsof, heof]

end Encoder

/-- **THE DECODER READS BACK WHAT THE ENCODER WROTE.**  For every choice of printable
markers with the escape character apart from EOF, all frames of printable
characters that fit the client's buffer, sent in any pieces, with any text free of SOF
between them and after them, every buffer size and every way the source hands out the
stream: the scans return the frames in order, with their bytes and sizes, then fail at
the end of the input; and no scan changes the memory beyond the client's buffer. -/
theorem frames_round_trip (e : Encoder) (d : AsciiDecoder) (hidle : e.inFrame = false)
    (hsof : e.sof = d.sof) (heof : e.eof = d.eof) (hesc : e.esc = d.esc) (hsofp : Printable d.sof)
    (heofp : Printable d.eof) (hescp : Printable d.esc) (hne : d.esc ≠ d.eof)
    (maxSizeOfFrame : Nat) (items : List (List UInt8 × List Encoder.Piece)) (tail : List UInt8)
    (offers : List Nat) (memory : Nat → UInt8) (hdst : e.dst = [])
    (htexts : ∀ item ∈ items, d.sof ∉ item.1) (htail : d.sof ∉ tail)
    (hframes : ∀ item ∈ items, (∀ c ∈ content item.2, Printable c) ∧ (content item.2).length
      ≤ maxSizeOfFrame) :
    ∃ e', e.transmit items = some e' ∧
      (d.scans maxSizeOfFrame (items.length + 1)
          (DecoderState.start memory ⟨e'.dst ++ tail, offers⟩)).1 =
        items.map (fun item => some (content item.2)) ++ [none] ∧
      ∀ n i, maxSizeOfFrame ≤ i →
        (d.scans maxSizeOfFrame n
          (DecoderState.start memory ⟨e'.dst ++ tail, offers⟩)).2.progress.frame i = memory i := by
  refine ⟨e.put (e.framedAll items), Encoder.transmit_put hidle (hsof ▸ hsofp) (heof ▸ heofp)
    (hesc ▸ hescp) items, ?_, ?_⟩
  · -- after the end of a frame comes the newline, which is no start of a frame either
    have hnewline : d.sof ∉ (if e.appendNewline then NewLine.standard else []) := by
      split
      · intro hmem
        rw [mem_singleton.mp hmem] at hsofp
        exact absurd hsofp (by decide)
      · exact not_mem_nil
    have hlength : ∀ body, (e.symbols body).length = body.length := fun body => length_map _
    have hfound : (items.map fun item => (item.1, e.symbols (content item.2))).filterMap
        (d.received maxSizeOfFrame) = items.map fun item => content item.2 := by
      rw [filterMap_map, ← filterMap_eq_map']
      refine filterMap_congr fun item hitem => ?_
      rw [Function.comp_apply, AsciiDecoder.received_of_le
        (by rw [hlength]; exact (hframes item hitem).2), Encoder.symbols]
      simp [Function.comp_def]
    have hscans := AsciiDecoder.scans_frames (M := maxSizeOfFrame) hescp hne heofp hnewline htail
      (items.map fun item => (item.1, e.symbols (content item.2))) ?_ not_mem_nil
      (DecoderState.start memory ⟨(e.put (e.framedAll items)).dst ++ tail, offers⟩) ?_
    · rw [hfound, length_map, map_map] at hscans
      exact hscans
    · intro _ hmem
      obtain ⟨item, hitem, rfl⟩ := mem_map.mp hmem
      obtain ⟨hbody, hfits⟩ := hframes item hitem
      refine ⟨htexts item hitem, fun s hs => ?_, .inl (by rw [hlength]; exact hfits)⟩
      obtain ⟨c, hc, rfl⟩ := mem_map.mp hs
      exact ⟨hbody c hc, by simp [hesc, heof]⟩
    · simp [DecoderState.pending, DecoderState.start, Encoder.put, hdst,
        Encoder.framedAll_eq hsof heof hesc]
  · intro n i hi
    have hstart : AsciiDecoder.Within maxSizeOfFrame memory
        (DecoderState.start memory ⟨(e.put (e.framedAll items)).dst ++ tail, offers⟩).progress :=
      ⟨(fun hin => by cases hin), fun _ _ => rfl⟩
    exact (hstart.scans n).beyond i hi

/-- The frame `a;~.` between two texts, sent in two pieces and read two bytes at a time,
one of the reads empty. -/
theorem frames_round_trip_escapes :
    ∃ e', Encoder.transmit ⟨false, 0x2E, 0x3B, 0x7E, true, []⟩
        [([0x78, 0x3B], [.char 0x61, .bytes [0x3B, 0x7E, 0x2E]])] = some e' ∧
      (AsciiDecoder.scans ⟨0x2E, 0x3B, 0x7E, true, 2, by decide⟩ 4 2
          (DecoderState.start (fun _ => 0) ⟨e'.dst ++ [0x79], [1, 0, 2]⟩)).1 =
        [some [0x61, 0x3B, 0x7E, 0x2E], none] := by
  have hbody : ∀ c ∈ ([0x61, 0x3B, 0x7E, 0x2E] : List UInt8), Printable c := by
    intro c hc
    simp only [mem_cons, not_mem_nil, or_false] at hc
    rcases hc with rfl | rfl | rfl | rfl <;> decide
  obtain ⟨e', hsent, hscans, -⟩ := frames_round_trip ⟨false, 0x2E, 0x3B, 0x7E, true, []⟩
    ⟨0x2E, 0x3B, 0x7E, true, 2, by decide⟩ rfl rfl rfl rfl (by decide) (by decide) (by decide)
    (by decide) 4 [([0x78, 0x3B], [.char 0x61, .bytes [0x3B, 0x7E, 0x2E]])] [0x79] [1, 0, 2]
    (fun _ => 0) rfl (by decide) (by decide)
    (fun item hitem => mem_singleton.1 hitem ▸ ⟨hbody, by decide⟩)
  exact ⟨e', hsent, hscans⟩

end ColonyCore.Text.Frame
