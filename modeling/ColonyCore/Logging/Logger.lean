/-
  ColonyCore.Logging.Logger
  **THE LOGGER (`Cpl/Logging/Logger.cpp`, `Cpl/Logging/EntryData_T.h`).**

  Log calls put entries into a FIFO that a consumer empties.  The add that fills the FIFO
  sets `queueFull_`; calls are then dropped and counted until enough slots are free again,
  and the call that finds them free stores an OVERFLOW ENTRY before its own one.

    • the text with the count of dropped calls goes to the trace engine only: the overflow
      entry keeps the empty text of the constructor of `EntryData_T`,
    • `initializeLogging` leaves `overflowCount_` as it is.

  `calls`, `stream` and `removed` are histories since the last `initializeLogging`.
-/
import Mathlib.Data.BitVec
import ColonyCore.Container.RingBufferFifo

namespace ColonyCore.Logging

open ColonyCore.Container

/-- The compile-time options. -/
structure Options where
  /-- `OPTION_CPL_LOGGING_MIN_QUEUE_SPACE`: "can NOT be less than 2" -/
  minQueueSpace : Nat
  two_le : 2 ≤ minQueueSpace
  maxMsgTextLen : Nat
  maxLenCategoryIdText : Nat
  maxLenMessageIdText : Nat

/-- The options when the application sets none. -/
def Options.default : Options := ⟨3, by decide, 128, 16, 32⟩

def Options.maxFormattedMsgTextLen (o : Options) : Nat :=
  o.maxMsgTextLen + o.maxLenCategoryIdText + 1 + o.maxLenMessageIdText + 2

/-- `EntryData_T`; `msgText` up to its null terminator. -/
structure EntryData where
  timestamp : BitVec 64
  category : BitVec 32
  msgId : BitVec 16
  msgText : List Char
  deriving DecidableEq

/-- The constructor. -/
def EntryData.construct : EntryData := ⟨0, 0, 0, []⟩

/-- An entry that went into the FIFO: the one of a log call, or an overflow entry. -/
inductive Stored
  | call (entry : EntryData)
  | overflow (entry : EntryData)
  deriving DecidableEq

def Stored.entry : Stored → EntryData
  | .call entry => entry
  | .overflow entry => entry

/-- The static variables (`unsigned` has `w` bits) and the histories. -/
structure Logger (w : Nat) where
  queueFull : Bool
  overflowCount : BitVec w
  logEntryFIFO : RingBuffer EntryData
  categoryMask : BitVec 32
  overflowCatId : BitVec 32
  overflowMsgId : BitVec 16
  overflowCatText : List Char
  overflowMsgText : List Char
  /-- the texts handed to the trace engine -/
  trace : List (List Char)
  /-- the entries of the enabled calls -/
  calls : List EntryData
  /-- what was added to the FIFO -/
  stream : List Stored
  /-- what the consumer removed -/
  removed : List EntryData
  /-- an `add` returned false -/
  addFailed : Bool

/-- The arguments of `initializeLogging`. -/
structure Setup (o : Options) where
  logEntryFIFO : RingBuffer EntryData
  room : o.minQueueSpace ≤ logEntryFIFO.getMaxItems
  categoryIdForQueueOverflow : BitVec 32
  categoryQueueOverflowText : List Char
  messageIdForQueueOverflow : BitVec 16
  messageQueueOverflowText : List Char

/-- The arguments of a log call.  `text` is what `format` and `ap` print; the two times are
    the ones that `now()` returns for its entry and for an overflow entry. -/
structure Call where
  category : BitVec 32
  catIdText : List Char
  msgId : BitVec 16
  msgIdText : List Char
  text : List Char
  now : BitVec 64
  overflowNow : BitVec 64

namespace Logger

variable {w : Nat} (o : Options)

variable (s : Logger w)

/-- `Cpl::Logging::initialize`. -/
def initializeLogging (setup : Setup o) : Logger w :=
  { s with
    logEntryFIFO := setup.logEntryFIFO.clearTheBuffer
    categoryMask := 0xFFFFFFFF#32
    overflowCatId := setup.categoryIdForQueueOverflow
    overflowCatText := setup.categoryQueueOverflowText
    overflowMsgId := setup.messageIdForQueueOverflow
    overflowMsgText := setup.messageQueueOverflowText
    queueFull := false
    calls := []
    stream := []
    removed := [] }

def enableCategory (categoryMask : BitVec 32) : BitVec 32 × Logger w :=
  (s.categoryMask, { s with categoryMask := s.categoryMask ||| categoryMask })

def disableCategory (categoryMask : BitVec 32) : BitVec 32 × Logger w :=
  (s.categoryMask, { s with categoryMask := s.categoryMask &&& ~~~categoryMask })

def setCategoryMask (newMask : BitVec 32) : Logger w :=
  { s with categoryMask := newMask }

/-- `"%.*s:%.*s. "`. -/
def startText (catIdText msgIdText : List Char) : List Char :=
  catIdText.take o.maxLenCategoryIdText ++ ":".toList
    ++ msgIdText.take o.maxLenMessageIdText ++ ". ".toList

/-- `logEntryFIFO_->add`. -/
def addToFIFO (x : Stored) : Logger w :=
  match s.logEntryFIFO.add x.entry with
  | some fifo => { s with logEntryFIFO := fifo, stream := s.stream ++ [x] }
  | none => { s with addFailed := true }

/-- The entry of `createAndAddOverflowEntry`. -/
def overflowEntry (now : BitVec 64) : EntryData :=
  { EntryData.construct with
    category := s.overflowCatId
    msgId := s.overflowMsgId
    timestamp := now }

/-- `createAndAddOverflowEntry`: `%d` prints the unsigned counter as a signed number. -/
def createAndAddOverflowEntry (now : BitVec 64) : Logger w :=
  let stringBuf := (startText o s.overflowCatText s.overflowMsgText
    ++ "overflow count=".toList ++ (toString s.overflowCount.toInt).toList).take
      o.maxFormattedMsgTextLen
  let s := s.addToFIFO (.overflow (s.overflowEntry now))
  { s with trace := s.trace ++ [stringBuf] }

/-- The free slots of the FIFO. -/
def available : Nat :=
  s.logEntryFIFO.getMaxItems - s.logEntryFIFO.getNumItems

/-- `isQueFull`. -/
def isQueFull (now : BitVec 64) : Bool × Logger w :=
  if s.queueFull = false then (false, s)
  else if o.minQueueSpace ≤ s.available then
    (false, { s.createAndAddOverflowEntry o now with overflowCount := 0#w, queueFull := false })
  else (true, { s with overflowCount := s.overflowCount + 1#w })

/-- The entry of a log call; `vsnprintf` cuts the text. -/
def logEntry (call : Call) : EntryData :=
  ⟨call.now, call.category, call.msgId, call.text.take o.maxMsgTextLen⟩

/-- The call's category is enabled. -/
def enabled (call : Call) : Bool := call.category &&& s.categoryMask ≠ 0#32

/-- `add`, and the latch. -/
def addEntry (entry : EntryData) : Logger w :=
  let s := s.addToFIFO (.call entry)
  if s.logEntryFIFO.isFull then { s with queueFull := true } else s

/-- `createAndAddLogEntry_`. -/
def createAndAddLogEntry (call : Call) : Logger w :=
  if s.enabled call then
    let entry := logEntry o call
    let (full, s) := { s with calls := s.calls ++ [entry] }.isQueFull o call.overflowNow
    let s := if full then s else s.addEntry entry
    let stringBuf := (startText o call.catIdText call.msgIdText ++ entry.msgText).take
      o.maxFormattedMsgTextLen
    { s with trace := s.trace ++ [stringBuf] }
  else s

/-- The consumer's `remove`. -/
def consume : Logger w :=
  match s.logEntryFIFO.remove with
  | some (entry, fifo) => { s with logEntryFIFO := fifo, removed := s.removed ++ [entry] }
  | none => s

/-- What can happen. -/
inductive Op (o : Options)
  | initializeLogging (setup : Setup o)
  | enableCategory (categoryMask : BitVec 32)
  | disableCategory (categoryMask : BitVec 32)
  | setCategoryMask (newMask : BitVec 32)
  | createAndAddLogEntry (call : Call)
  | consume

variable {o}

def step : Op o → Logger w
  | .initializeLogging setup => s.initializeLogging o setup
  | .enableCategory mask => (s.enableCategory mask).2
  | .disableCategory mask => (s.disableCategory mask).2
  | .setCategoryMask newMask => s.setCategoryMask newMask
  | .createAndAddLogEntry call => s.createAndAddLogEntry o call
  | .consume => s.consume

/-- The first `initializeLogging`, on the zeroed static variables. -/
def boot (setup : Setup o) : Logger w :=
  initializeLogging o
    { queueFull := false, overflowCount := 0#w, logEntryFIFO := setup.logEntryFIFO
      categoryMask := 0#32, overflowCatId := 0#32, overflowMsgId := 0#16
      overflowCatText := [], overflowMsgText := [], trace := [], calls := [], stream := []
      removed := [], addFailed := false } setup

end Logger

end ColonyCore.Logging
