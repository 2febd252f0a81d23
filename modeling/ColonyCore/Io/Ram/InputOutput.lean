/-
  ColonyCore.Io.Ram.InputOutput
  **THE RAM STREAM (`Cpl/Io/Ram/InputOutput.cpp`).**

  Any threads `read`, `write`, `reset` and `close` one stream over a ring buffer.  A step
  is one critical section of `m_lock` or one semaphore wait; the signals of a section are
  part of it.

    • a thread that finds nothing to do counts itself as waiting, leaves the section and
      waits; it then starts its loop again,
    • a section that removes (adds) a byte signals ALL waiting writers (readers),
    • `reset` clears the buffer and signals nobody.

  A thread waits only before its first byte, so a wait keeps just the call's arguments.
  `accepted`, `delivered` (since the last reset), `reads` and `writes` are histories.
-/
import ColonyCore.Container.RingBufferFifo
import ColonyCore.Lib.Interleaving

namespace ColonyCore.Io.Ram

open ColonyCore.Container

/-- Where a thread is. -/
inductive Pc
  | idle
  /-- `read`, before the section that tests `m_opened` -/
  | readCheck (numBytes : Nat)
  /-- `read`, before the section with the loop -/
  | readLoop (numBytes : Nat)
  /-- `m_semaReaders.wait()` -/
  | readWait (numBytes : Nat)
  | writeCheck (data : List UInt8)
  | writeLoop (data : List UInt8)
  /-- `m_semaWriters.wait()` -/
  | writeWait (data : List UInt8)
  deriving DecidableEq

/-- A `read` call that has returned. -/
structure ReadResult where
  numBytes : Nat
  result : Bool
  bytes : List UInt8

/-- A `write` call that has returned. -/
structure WriteResult where
  data : List UInt8
  result : Bool
  bytesWritten : Nat

/-- The stream, its threads `τ` and the histories. -/
structure InputOutput (τ : Type) where
  ringBuffer : RingBuffer UInt8
  writersWaiting : Nat
  readersWaiting : Nat
  semaWriters : Nat
  semaReaders : Nat
  opened : Bool
  pc : τ → Pc
  accepted : List UInt8
  delivered : List UInt8
  reads : List ReadResult
  writes : List WriteResult

/-- How a section with a loop ends: the call returns, or the thread goes to wait. -/
inductive SectionEnd
  | returns
  | waits
  deriving DecidableEq

namespace InputOutput

variable {τ : Type}

/-- The constructor, over a memory of `n` bytes. -/
def construct (memory : Nat → UInt8) (n : Nat) (h : 0 < n) : InputOutput τ where
  ringBuffer := RingBuffer.init memory n h
  writersWaiting := 0
  readersWaiting := 0
  semaWriters := 0
  semaReaders := 0
  opened := true
  pc _ := .idle
  accepted := []
  delivered := []
  reads := []
  writes := []

/-- `for ( ; m_writersWaiting; m_writersWaiting-- ) m_semaWriters.signal();` -/
def signalWriters (s : InputOutput τ) : InputOutput τ :=
  { s with semaWriters := s.semaWriters + s.writersWaiting, writersWaiting := 0 }

def signalReaders (s : InputOutput τ) : InputOutput τ :=
  { s with semaReaders := s.semaReaders + s.readersWaiting, readersWaiting := 0 }

/-- The loop of `read` under the lock; `bytes` are those already removed. -/
def readSection : Nat → InputOutput τ → List UInt8 → SectionEnd × List UInt8 × InputOutput τ
  | 0, s, bytes => (.returns, bytes, s)
  | n + 1, s, bytes =>
    if s.opened then
      match s.ringBuffer.remove with
      | some (byte, ring) =>
        readSection n (signalWriters { s with ringBuffer := ring }) (bytes ++ [byte])
      | none =>
        if bytes ≠ [] then (.returns, bytes, s)
        else (.waits, bytes, { s with readersWaiting := s.readersWaiting + 1 })
    else (.returns, bytes, s)

/-- The loop of `write` under the lock; `bytes` are those already added. -/
def writeSection : List UInt8 → InputOutput τ → List UInt8 → SectionEnd × List UInt8 × InputOutput τ
  | [], s, bytes => (.returns, bytes, s)
  | byte :: rest, s, bytes =>
    if s.opened then
      match s.ringBuffer.add byte with
      | some ring =>
        writeSection rest (signalReaders { s with ringBuffer := ring }) (bytes ++ [byte])
      | none =>
        if bytes ≠ [] then (.returns, bytes, s)
        else (.waits, bytes, { s with writersWaiting := s.writersWaiting + 1 })
    else (.returns, bytes, s)

variable [DecidableEq τ]

def goto (s : InputOutput τ) (t : τ) (pc : Pc) : InputOutput τ :=
  { s with pc := Function.update s.pc t pc }

/-- A `read` returns. -/
def returnRead (s : InputOutput τ) (t : τ) (r : ReadResult) : InputOutput τ :=
  { s with pc := Function.update s.pc t .idle, reads := s.reads ++ [r] }

/-- A `write` returns. -/
def returnWrite (s : InputOutput τ) (t : τ) (r : WriteResult) : InputOutput τ :=
  { s with pc := Function.update s.pc t .idle, writes := s.writes ++ [r] }

/-- The calls, and the next step of a thread in one. -/
inductive Act (τ : Type)
  | read (t : τ) (numBytes : Nat)
  | write (t : τ) (data : List UInt8)
  | reset (t : τ)
  | close (t : τ)
  | next (t : τ)

/-- The next step of thread `t`. -/
def nextStep (s : InputOutput τ) (t : τ) : Option (InputOutput τ) :=
  match s.pc t with
  | .idle => none
  | .readCheck n =>
    if s.opened = false then some (s.returnRead t ⟨n, false, []⟩)
    else if n = 0 then some (s.returnRead t ⟨n, true, []⟩)
    else some (s.goto t (.readLoop n))
  | .readLoop n =>
    match readSection n s [] with
    | (.returns, bytes, s) =>
      some (returnRead { s with delivered := s.delivered ++ bytes } t ⟨n, true, bytes⟩)
    | (.waits, _, s) => some (s.goto t (.readWait n))
  | .readWait n =>
    if s.semaReaders = 0 then none
    else some (goto { s with semaReaders := s.semaReaders - 1 } t (.readLoop n))
  | .writeCheck data =>
    if s.opened = false then some (s.returnWrite t ⟨data, false, 0⟩)
    else if data = [] then some (s.returnWrite t ⟨data, true, 0⟩)
    else some (s.goto t (.writeLoop data))
  | .writeLoop data =>
    match writeSection data s [] with
    | (.returns, bytes, s) =>
      -- a partial write returns true, and then the stream is open
      some (returnWrite { s with accepted := s.accepted ++ bytes } t ⟨data, s.opened, bytes.length⟩)
    | (.waits, _, s) => some (s.goto t (.writeWait data))
  | .writeWait data =>
    if s.semaWriters = 0 then none
    else some (goto { s with semaWriters := s.semaWriters - 1 } t (.writeLoop data))

/-- One step of any thread. -/
def step (s : InputOutput τ) : Act τ → Option (InputOutput τ)
  | .read t n => if s.pc t = .idle then some (s.goto t (.readCheck n)) else none
  | .write t data => if s.pc t = .idle then some (s.goto t (.writeCheck data)) else none
  | .reset t =>
    if s.pc t = .idle then
      some { s with
        ringBuffer := if s.opened then s.ringBuffer.clearTheBuffer else s.ringBuffer
        accepted := []
        delivered := [] }
    else none
  | .close t =>
    if s.pc t = .idle then
      some (if s.opened then signalReaders (signalWriters { s with opened := false }) else s)
    else none
  | .next t => s.nextStep t

end InputOutput

end ColonyCore.Io.Ram
