/-
  ColonyCore.Persistent.IndexedEntryServer
  **FROM THE RING BUFFER TO THE LOG (`Cpl/Container/RingBufferMP.h`,
  `Cpl/Persistent/IndexedEntryServer.h`).**

  Producers add entries to a ring buffer and then count them in a model point.  The
  server observes the count: a change that leaves it above zero makes it drain a batch.
  Ring and count are two things under two locks, so they may DISAGREE in between.

    • `EntryServer.step` — one locked section of one thread,
    • `write_spec`       — what a change of the count does to its observer.
-/
import ColonyCore.Container.RingBuffer
import ColonyCore.Dm.Solo

namespace ColonyCore.Persistent

open Container LittleEndian Dm

/-! ## §1. The code. -/

/-- `OPTION_CPL_PERSISTENT_INDEXED_ENTRY_SERVER_MAX_BATCH_WRITE`. -/
def MAX_BATCH_WRITE : Nat := 4

/-- An add in progress, after the ring operation: before the test of the model point,
before `write( 1 )`, and before `increment()`. -/
inductive AddPhase where
  | isNotValid
  | writeOne
  | increment
  deriving DecidableEq

/-- Where `elementCountChanged` is. -/
inductive Callback (α : Type) where
  | outside
  /-- `readData` of `readAndSync`. -/
  | readData
  /-- Its `attachSubscriber`, with what was read. -/
  | attach (valid : Bool) (count : Nat) (seqNum : SeqNum)
  | loop (iterations : Nat)
  /-- `decrementMp` after the ring operation: the test, and what follows it. -/
  | isNotValid (entry : α) (iterations : Nat)
  | writeZero (entry : α) (iterations : Nat)
  | decrement (entry : α) (iterations : Nat)
  /-- `hookAddingEntry` and `addEntry`. -/
  | addEntry (entry : α) (iterations : Nat)
  | returned
  deriving DecidableEq

/-- The ring buffer, its model point with the observer, the adds in progress and the
server.  The last three members record what has happened: the entries added to the ring,
the entries passed to `addEntry`, and the changes of the count since the callback read
it. -/
structure EntryServer (P : Platform) (α : Type) where
  ring : RingBuffer α
  mp : Machine.Solo P
  adds : List AddPhase
  callback : Callback α
  opened : Bool
  added : List α
  written : List α
  changes : Nat

/-- One section of one thread: the ring operation of `add`, the next section of an add in
progress, the request that opens the server, and the next section of the server. -/
inductive ServerEvent (α : Type) where
  | add (item : α)
  | producer (i : Nat)
  | openRequest
  | server

/-- The `uint32_t` in a model point. -/
def elementCount {P : Platform} (d : PointData P) : Nat := ofLeBytes d.value.data

/-- `write( newValue )`. -/
def writeCount (newValue : Nat) : PointData.Write := .writeData (some (leBytes 4 newValue)) .eNO_REQUEST

namespace EntryServer

variable {P : Platform} {α : Type}

def valid (s : EntryServer P α) : Bool := s.mp.data.value.valid

def count (s : EntryServer P α) : Nat := elementCount s.mp.data

/-- A step of the model point and its observer. -/
def stepMp (s : EntryServer P α) (e : Dm.Event Unit Unit) : Except Fatal (EntryServer P α) :=
  (s.mp.step e).map fun mp => { s with mp := mp }

/-- A write of the count. -/
def write (s : EntryServer P α) (newValue : Nat) : Except Fatal (EntryServer P α) :=
  { s with changes := if (s.mp.data.write (writeCount newValue)).2 then s.changes + 1 else s.changes }.stepMp
    (.write () (writeCount newValue))

/-- The next section of the `i`-th add in progress: `incrementMp`. -/
def stepAdd (s : EntryServer P α) (i : Nat) : Except Fatal (EntryServer P α) :=
  match s.adds[i]? with
  | none => .ok s
  | some .isNotValid => .ok { s with adds := s.adds.set i (if s.valid then .increment else .writeOne) }
  | some .writeOne => { s with adds := s.adds.eraseIdx i }.write 1
  | some .increment => { s with adds := s.adds.eraseIdx i }.write (s.count + 1)

/-- The next section of the server's thread. -/
def stepServer (s : EntryServer P α) : Except Fatal (EntryServer P α) :=
  match s.callback with
  | .outside => do
      let s ← s.stepMp .loop
      return { s with callback := if s.mp.phase = .calling () () then .readData else .outside }
  | .readData => .ok { s with callback := .attach s.valid s.count s.mp.seq, changes := 0 }
  | .attach valid count seqNum => do
      let s ← s.stepMp (.attach () () seqNum)
      return { s with callback := if valid ∧ 0 < count then .loop 0 else .returned }
  | .loop iterations =>
    if iterations < MAX_BATCH_WRITE then
      match s.ring.remove with
      | none => .ok { s with callback := .returned }
      | some (entry, ring) => .ok { s with ring := ring, callback := .isNotValid entry iterations }
    else .ok { s with callback := .returned }
  | .isNotValid entry iterations =>
    .ok { s with callback := if s.valid then .decrement entry iterations else .writeZero entry iterations }
  | .writeZero entry iterations => { s with callback := .addEntry entry iterations }.write 0
  | .decrement entry iterations =>
    { s with callback := .addEntry entry iterations }.write (s.count + (2 ^ 32 - 1))
  | .addEntry entry iterations =>
    .ok { s with written := s.written ++ [entry], callback := .loop (iterations + 1) }
  | .returned => do
      let s ← s.stepMp .loop
      return { s with callback := .outside }

def step (s : EntryServer P α) : ServerEvent α → Except Fatal (EntryServer P α)
  | .add item =>
    match s.ring.add item with
    | none => .ok s
    | some ring => .ok { s with ring := ring, adds := s.adds ++ [.isNotValid], added := s.added ++ [item] }
  | .producer i => s.stepAdd i
  | .openRequest =>
    if s.opened then .ok s
    else { s with opened := true }.stepMp (.attach () () SEQUENCE_NUMBER_UNKNOWN)
  | .server => s.stepServer

def run (s : EntryServer P α) : List (ServerEvent α) → Except Fatal (EntryServer P α)
  | [] => .ok s
  | e :: es => s.step e >>= fun s => s.run es

/-- After construction: an empty ring, and a model point with the given data. -/
def init (ring : RingBuffer α) (data : PointData P) : EntryServer P α :=
  ⟨ring, Machine.init fun _ => data, [], .outside, false, [], [], 0⟩

/-! ## §2. The count and its sequence number. -/

theorem ofLeBytes_count (newValue : Nat) : ofLeBytes (leBytes 4 newValue) = newValue % 2 ^ 32 := by
  rw [ofLeBytes_leBytes, show 256 ^ 4 = 2 ^ 32 by decide]

/-- What a write that changes the count does to the model point and its observer. -/
structure Counted (mp mp' : Machine.Solo P) (newValue : Nat) : Prop where
  inv : Machine.Inv mp'
  phase : mp'.phase = mp.phase
  valid : mp'.data.value.valid = true
  count : elementCount mp'.data = newValue % 2 ^ 32
  size : mp'.data.value.data.length = 4
  unlocked : mp'.data.locked = false
  seq : mp'.seq = advanceSequenceNumber mp.seq
  seqNumber : mp'.subscriber.seqNumber = mp.subscriber.seqNumber
  point : mp'.subscriber.point = mp.subscriber.point
  state : mp'.subscriber.state ≠ .eSTATE_IDLE

/-- **A write of another value, or of the first one**, is a change. -/
theorem write_spec {s : EntryServer P α} {newValue : Nat} (hinv : Machine.Inv s.mp)
    (hsize : s.mp.data.value.data.length = 4) (hunlocked : s.mp.data.locked = false)
    (hnew : s.valid = false ∨ newValue % 2 ^ 32 ≠ s.count) :
    ∃ mp', s.write newValue = .ok { s with mp := mp', changes := s.changes + 1 }
      ∧ Counted s.mp mp' newValue := by
  have hdata : s.mp.data.write (writeCount newValue)
      = (⟨{ s.mp.data.value with data := leBytes 4 newValue, valid := true }, false⟩, true) := by
    have hne : s.mp.data.value.valid = false ∨ s.mp.data.value.data ≠ leBytes 4 newValue := by
      refine hnew.imp id fun hne heq => hne ?_
      unfold count elementCount
      rw [heq, ofLeBytes_count]
    have htake : (leBytes 4 newValue).take s.mp.data.value.data.length = leBytes 4 newValue :=
      List.take_of_length_le (by rw [length_leBytes, hsize])
    unfold writeCount PointData.write
    simp only [htake, hunlocked, PointData.testAndUpdateLock, Bool.not_false, true_and]
    rw [if_pos hne]
  obtain ⟨mp', hrun, hinv', hphase, hdata', hseq, hnumber, hpoint, hstate⟩ :=
    Machine.solo_write hinv (by rw [hdata])
  rw [hdata] at hdata'
  refine ⟨mp', ?_, hinv', hphase, by rw [hdata'], ?_, ?_, by rw [hdata'], hseq, hnumber, hpoint, hstate⟩
  · unfold write stepMp
    rw [hdata, hrun]
    rfl
  · unfold elementCount
    rw [hdata', ofLeBytes_count]
  · rw [hdata', length_leBytes]

end EntryServer

end ColonyCore.Persistent
