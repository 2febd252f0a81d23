/-
  ColonyCore.Text.Frame
  **THE FRAME ENCODER AND THE FRAME DECODER.**

  `Encoder` is `Encoder_` over a destination that accepts every character;
  `AsciiDecoder` is `Decoder_` with the predicates of `AsciiDecoder` and the `read` of
  `StreamDecoder`.  The decoder keeps the unread part of its input buffer between scans
  and stores the frame through a pointer into the client's buffer, which is a memory
  without an end: what is written past the frame can be seen.
-/
import Mathlib.Logic.Function.Basic
import Mathlib.Data.List.Basic

namespace ColonyCore.Text.Frame

/-! ## §1. `Encoder_`. -/

/-- An encoder, with what it has written so far. -/
structure Encoder where
  inFrame : Bool
  sof : UInt8
  eof : UInt8
  esc : UInt8
  appendNewline : Bool
  dst : List UInt8

/-- `Cpl::Io::NewLine::standard()`. -/
def NewLine.standard : List UInt8 := [0x0A]

namespace Encoder

variable (e : Encoder)

/-- Characters written to the destination. -/
def put (src : List UInt8) : Encoder := { e with dst := e.dst ++ src }

/-- `append`, and `start( char )`, of the stream encoder. -/
def append (src : UInt8) : Encoder := e.put [src]

/-- `startFrame`; a frame inside a frame is a fatal error. -/
def startFrame : Option Encoder :=
  if e.inFrame then none
  else
    let e := { e with inFrame := true }
    if e.sof ≠ 0 then some (e.append e.sof) else some e

/-- `output( char )`. -/
def output (src : UInt8) : Option Encoder :=
  if e.inFrame then
    if e.esc ≠ 0 ∧ (src = e.esc ∨ src = e.eof) then some ((e.append e.esc).append src)
    else some (e.append src)
  else none

/-- `output( const char*, size_t )`. -/
def outputBytes (src : List UInt8) : Option Encoder := src.foldlM output e

/-- `output( const char* )`: up to the terminating null character. -/
def outputText (src : List UInt8) : Option Encoder :=
  e.outputBytes (src.takeWhile (· ≠ 0))

/-- `endFrame`. -/
def endFrame : Option Encoder :=
  if e.inFrame then
    let e := append { e with inFrame := false } e.eof
    if e.appendNewline then
      -- the flag is set back to use `output` for the newline
      (outputText { e with inFrame := true } NewLine.standard).map
        fun e => { e with inFrame := false }
    else some e
  else none

/-- One call of an `output` method. -/
inductive Piece where
  | char (src : UInt8)
  | text (src : List UInt8)
  | bytes (src : List UInt8)

/-- The characters a call is about. -/
def Piece.content : Piece → List UInt8
  | .char src => [src]
  | .text src => src.takeWhile (· ≠ 0)
  | .bytes src => src

def outputPiece : Piece → Option Encoder
  | .char src => e.output src
  | .text src => e.outputText src
  | .bytes src => e.outputBytes src

/-- A whole frame: `startFrame`, the pieces, `endFrame`. -/
def sendFrame (pieces : List Piece) : Option Encoder := do
  let e ← e.startFrame
  let e ← pieces.foldlM outputPiece e
  e.endFrame

/-- Frames, each with the text that someone else puts into the stream before it. -/
def transmit (items : List (List UInt8 × List Piece)) : Option Encoder :=
  items.foldlM (fun e item => (e.put item.1).sendFrame item.2) e

end Encoder

/-! ## §2. `Decoder_`. -/

/-- The input source: the characters to come, and how many of them are there at each of
the next reads.  When those are used up, a read gives as much as it is asked for. -/
structure Source where
  stream : List UInt8
  offers : List Nat

/-- `read`; `none` is the end of the input. -/
def Source.read (src : Source) (numBytes : Nat) : Option (List UInt8 × Source) :=
  match src.offers with
  | offer :: offers =>
    let bytesRead := min offer numBytes
    some (src.stream.take bytesRead, ⟨src.stream.drop bytesRead, offers⟩)
  | [] =>
    if src.stream.isEmpty then none
    else some (src.stream.take numBytes, ⟨src.stream.drop numBytes, []⟩)

/-- Every read uses an offer or a character. -/
theorem Source.read_lt {src src' : Source} {data : List UInt8} {numBytes : Nat}
    (hpos : 1 ≤ numBytes) (h : src.read numBytes = some (data, src')) :
    src'.offers.length + src'.stream.length < src.offers.length + src.stream.length := by
  obtain ⟨stream, offers⟩ := src
  cases offers with
  | cons offer offers =>
    obtain ⟨-, rfl⟩ := h
    simp only [List.length_drop, List.length_cons]
    omega
  | nil =>
    simp only [Source.read] at h
    split at h
    next => cases h
    next hne =>
      obtain ⟨-, rfl⟩ := h
      have hlen : stream.length ≠ 0 := by
        simpa using hne
      simp only [List.length_drop]
      omega

/-- The frame in progress: the members of the decoder about it, and the client's buffer
with the position `m_framePtr` points to (of no meaning outside a frame). -/
structure Progress where
  inFrame : Bool
  escaping : Bool
  framePtr : Nat
  frameSize : Nat
  frame : Nat → UInt8

/-- `initializeFrame`. -/
def Progress.initializeFrame (p : Progress) : Progress :=
  { p with inFrame := false, escaping := false, framePtr := 0, frameSize := 0 }

/-- `*m_framePtr++ = src; m_frameSize++`. -/
def Progress.store (p : Progress) (src : UInt8) : Progress :=
  { p with frame := Function.update p.frame p.framePtr src, framePtr := p.framePtr + 1,
           frameSize := p.frameSize + 1 }

/-- The constants of a decoder. -/
structure AsciiDecoder where
  sof : UInt8
  eof : UInt8
  esc : UInt8
  restricted : Bool
  bufSize : Nat
  bufSize_pos : 1 ≤ bufSize

/-- The rest of a decoder: the unread part of the input buffer, the frame in progress
and the input source. -/
structure DecoderState where
  data : List UInt8
  progress : Progress
  source : Source

namespace AsciiDecoder

variable (d : AsciiDecoder)

/-- `isLegalCharacter`. -/
def isLegalCharacter (c : UInt8) : Bool :=
  decide (c < 0x80) && (!d.restricted || (decide (c ≤ 0x7E) && decide (c ≥ 0x20)))

variable (maxSizeOfFrame : Nat)

/-- One turn of the loop over the input buffer; `none` is the end of a frame. -/
def processChar (p : Progress) (c : UInt8) : Option Progress :=
  if p.inFrame then
    if !d.isLegalCharacter c then some { p with inFrame := false }
    else if !p.escaping then
      if c = d.eof then none
      else if c ≠ d.esc then
        if p.frameSize < maxSizeOfFrame then some (p.store c) else some p.initializeFrame
      else some { p with escaping := true }
    else
      if p.frameSize < maxSizeOfFrame then some (Progress.store { p with escaping := false } c)
      else some p.initializeFrame
  else
    if c = d.sof then
      some { p with inFrame := true, escaping := false, frameSize := 0, framePtr := 0 }
    else some p

/-- The loop over the input buffer: whether it left at the end of a frame, and what it
left unread. -/
def processBuffer (maxSizeOfFrame : Nat) : Progress → List UInt8 → Bool × Progress × List UInt8
  | p, [] => (false, p, [])
  | p, c :: cs =>
    match d.processChar maxSizeOfFrame p c with
    | none => (true, p, cs)
    | some p' => processBuffer maxSizeOfFrame p' cs

/-- How a partial scan ends. -/
inductive Scanned where
  | ioError (frameSize : Nat) (s : DecoderState)
  | inProgress (s : DecoderState)
  | isEof (frameSize : Nat) (s : DecoderState)

/-- The input buffer, filled by one read if it is empty, and the source after. -/
def fill (s : DecoderState) : Option (List UInt8 × Source) :=
  if s.data.isEmpty then s.source.read d.bufSize else some (s.data, s.source)

/-- `scan` with `isEof`: what is in the buffer, or else one read. -/
def scanPart (s : DecoderState) : Scanned :=
  match d.fill s with
  | none => .ioError s.progress.frameSize ⟨[], s.progress.initializeFrame, s.source⟩
  | some (data, source) =>
    match d.processBuffer maxSizeOfFrame s.progress data with
    | (true, p, rest) => .isEof p.frameSize ⟨rest, p.initializeFrame, source⟩
    | (false, p, rest) => .inProgress ⟨rest, p, source⟩

/-- What there is left for the scans: reads to come, then the buffer. -/
def measure (s : DecoderState) : Nat :=
  2 * (s.source.offers.length + s.source.stream.length) + (if s.data.isEmpty then 0 else 1)

theorem processBuffer_rest (p : Progress) (data : List UInt8)
    (h : (d.processBuffer maxSizeOfFrame p data).1 = false) :
    (d.processBuffer maxSizeOfFrame p data).2.2 = [] := by
  induction data generalizing p with
  | nil => rfl
  | cons c cs ih =>
    unfold processBuffer at h ⊢
    cases hc : d.processChar maxSizeOfFrame p c with
    | none => rw [hc] at h; cases h
    | some p' => rw [hc] at h; exact ih p' h

/-- A partial scan that neither fails nor ends a frame has used a read or the buffer. -/
theorem scanPart_lt {maxSizeOfFrame : Nat} {s s' : DecoderState}
    (h : d.scanPart maxSizeOfFrame s = .inProgress s') : measure s' < measure s := by
  unfold scanPart at h
  split at h
  next => cases h
  next data source hread =>
    split at h
    next => cases h
    next p rest hbuf =>
      cases h
      have hrest := d.processBuffer_rest maxSizeOfFrame s.progress data (by rw [hbuf])
      rw [hbuf] at hrest
      subst hrest
      unfold fill at hread
      by_cases hdata : s.data.isEmpty
      · rw [if_pos hdata] at hread
        have := Source.read_lt d.bufSize_pos hread
        simp only [measure, List.isEmpty_nil, hdata]
        omega
      · rw [if_neg hdata] at hread
        cases hread
        simp only [measure, hdata]
        simp

/-- The loop of `scan`. -/
def scanLoop (maxSizeOfFrame : Nat) (s : DecoderState) : Bool × Nat × DecoderState :=
  match _h : d.scanPart maxSizeOfFrame s with
  | .ioError frameSize s' => (false, frameSize, s')
  | .inProgress s' => scanLoop maxSizeOfFrame s'
  | .isEof frameSize s' => (true, frameSize, s')
  termination_by measure s
  decreasing_by exact d.scanPart_lt _h

/-- `scan`: whether a frame was found, its size, and the state after. -/
def scan (s : DecoderState) : Bool × Nat × DecoderState :=
  d.scanLoop maxSizeOfFrame { s with progress := s.progress.initializeFrame }

/-- Repeated scans, with the bytes of each frame found. -/
def scans (maxSizeOfFrame : Nat) : Nat → DecoderState → List (Option (List UInt8)) × DecoderState
  | 0, s => ([], s)
  | n + 1, s =>
    let (found, frameSize, s') := d.scan maxSizeOfFrame s
    let (frames, s'') := scans maxSizeOfFrame n s'
    ((if found then some ((List.range frameSize).map s'.progress.frame) else none) :: frames, s'')

end AsciiDecoder

/-- A decoder after its constructor, with the client's buffer and the source. -/
def DecoderState.start (frame : Nat → UInt8) (source : Source) : DecoderState :=
  ⟨[], ⟨false, false, 0, 0, frame⟩, source⟩

end ColonyCore.Text.Frame
