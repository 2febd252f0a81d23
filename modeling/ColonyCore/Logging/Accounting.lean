/-
  ColonyCore.Logging.Accounting
  **EVERY LOG CALL IS STORED OR COUNTED — AND WHEN THE STORED COUNT IS THE RIGHT ONE.**

  `Accounts` says how the stream of entries relates to the calls: a call is stored, or it
  is counted in the next overflow entry (or still pending).

    • `Sound.step` — what every run keeps: no `add` fails, the FIFO is the end of the stream,
    • `Kept.step` — the accounts, as far as one step agrees with them,
    • `logging_accounts_iff` — with the text: only until an overflow entry is stored,
    • `overflow_text_empty` — a run that stores one.
-/
import ColonyCore.Lib.Interleaving
import ColonyCore.Logging.Logger

namespace ColonyCore.Logging

open ColonyCore.Container Interleaving List

/-! ## §1. The accounts. -/

/-- **The accounts** of a list of calls: a stream and the number of pending drops.
    An overflow entry stands for the `k` calls dropped since the entry stored before it,
    and comes before the next call that is stored.  `R` says that it reports `k`. -/
inductive Accounts (R : EntryData → Nat → Prop) : List EntryData → List Stored → Nat → Prop
  | none : Accounts R [] [] 0
  | stored {calls : List EntryData} {stream : List Stored} (entry : EntryData) :
      Accounts R calls stream 0 → Accounts R (calls ++ [entry]) (stream ++ [.call entry]) 0
  | dropped {calls : List EntryData} {stream : List Stored} {k : Nat} (entry : EntryData) :
      Accounts R calls stream k → Accounts R (calls ++ [entry]) stream (k + 1)
  | overflow {calls : List EntryData} {stream : List Stored} {k : Nat} (entry : EntryData) :
      Accounts R calls stream k → 0 < k → R entry k →
      Accounts R calls (stream ++ [.overflow entry]) 0

namespace Accounts

variable {R : EntryData → Nat → Prop} {calls : List EntryData} {stream : List Stored} {k : Nat}

/-- Every overflow entry reports some count. -/
theorem reports (h : Accounts R calls stream k) {entry : EntryData}
    (hmem : Stored.overflow entry ∈ stream) : ∃ n, R entry n := by
  induction h with
  | none => cases hmem
  | stored _ _ ih =>
    rcases mem_append.mp hmem with hold | hnew
    · exact ih hold
    · cases mem_singleton.mp hnew
  | dropped _ _ ih => exact ih hmem
  | overflow other hbefore hpos hR ih =>
    rcases mem_append.mp hmem with hold | hnew
    · exact ih hold
    · cases mem_singleton.mp hnew
      exact ⟨_, hR⟩

/-- Without overflow entries the pending drops are all the drops. -/
theorem length_calls (h : Accounts R calls stream k)
    (hno : ∀ entry, Stored.overflow entry ∉ stream) : calls.length = stream.length + k := by
  induction h with
  | none => rfl
  | stored entry _ ih =>
    have hlen := ih fun e he => hno e (mem_append_left _ he)
    simp only [length_append, length_singleton]
    omega
  | dropped entry _ ih =>
    have hlen := ih hno
    simp only [length_append, length_singleton]
    omega
  | overflow entry _ _ _ _ => exact absurd (by simp) (hno entry)

end Accounts

/-- The text of the entry shows the number, in decimal. -/
def Reports (entry : EntryData) (k : Nat) : Prop := Nat.toDigits 10 k <:+: entry.msgText

theorem not_reports_empty {entry : EntryData} (h : entry.msgText = []) (k : Nat) :
    ¬ Reports entry k := by
  intro hreports
  rw [Reports, h, infix_nil] at hreports
  exact absurd hreports Nat.toDigits_ne_nil

namespace Logger

variable {w : Nat} {o : Options}

/-- **Every log call is stored or accounted for.** -/
structure Accounted (s : Logger w) : Prop where
  accounts : Accounts Reports s.calls s.stream s.overflowCount.toNat
  /-- the FIFO holds the stream from the first entry that was not removed on -/
  fifo : s.stream.map Stored.entry = s.removed ++ s.logEntryFIFO.toList
  noneFail : s.addFailed = false

/-- `Accounted` at every moment of a run. -/
def AllAccounted : Logger w → List (Op o) → Prop
  | s, [] => s.Accounted
  | s, op :: ops => s.Accounted ∧ AllAccounted (s.step op) ops

variable (s : Logger w)

/-- The step stores no overflow entry, does not wrap the counter around and does not
    re-initialise the logger while drops are pending. -/
def Meets : Op o → Prop
  | .createAndAddLogEntry call => s.enabled call = true → s.queueFull = true →
      s.available < o.minQueueSpace ∧ s.overflowCount.toNat + 1 < 2 ^ w
  | .initializeLogging _ => s.overflowCount = 0#w
  | _ => True

/-! ## §2. What a log call does. -/

/-- `addToFIFO` on a FIFO with a free slot. -/
theorem addToFIFO_room (x : Stored)
    (hroom : s.logEntryFIFO.getNumItems < s.logEntryFIFO.getMaxItems) :
    ∃ fifo, s.addToFIFO x = { s with logEntryFIFO := fifo, stream := s.stream ++ [x] }
      ∧ fifo.toList = s.logEntryFIFO.toList ++ [x.entry]
      ∧ fifo.getMaxItems = s.logEntryFIFO.getMaxItems := by
  rcases s.logEntryFIFO.add_spec x.entry with ⟨_, hfull⟩ | ⟨fifo, hadd, hlist, hmem⟩
  · rw [RingBuffer.length_toList] at hfull
    omega
  · refine ⟨fifo, ?_, hlist, by rw [RingBuffer.getMaxItems, hmem, RingBuffer.getMaxItems]⟩
    simp [addToFIFO, hadd]

/-- `addEntry` on a FIFO with a free slot: the latch shows whether it was the last one. -/
theorem addEntry_room (entry : EntryData) (hq : s.queueFull = false)
    (hroom : s.logEntryFIFO.getNumItems < s.logEntryFIFO.getMaxItems) :
    ∃ fifo, s.addEntry entry = { s with
        logEntryFIFO := fifo, stream := s.stream ++ [.call entry], queueFull := fifo.isFull }
      ∧ fifo.toList = s.logEntryFIFO.toList ++ [entry]
      ∧ fifo.getMaxItems = s.logEntryFIFO.getMaxItems := by
  obtain ⟨fifo, hadd, hlist, hmax⟩ := s.addToFIFO_room (.call entry) hroom
  refine ⟨fifo, ?_, hlist, hmax⟩
  unfold addEntry
  rw [hadd]
  cases hfull : fifo.isFull with
  | true => simp only [hfull, if_true]
  | false => simp [hfull, hq]

section

variable (call : Call) (hen : s.enabled call = true)

include hen

/-- A call that does not find the latch set is stored. -/
theorem createAndAddLogEntry_stored (hq : s.queueFull = false)
    (hroom : s.logEntryFIFO.getNumItems < s.logEntryFIFO.getMaxItems) :
    ∃ fifo, s.createAndAddLogEntry o call = { s with
        calls := s.calls ++ [logEntry o call], logEntryFIFO := fifo
        stream := s.stream ++ [.call (logEntry o call)], queueFull := fifo.isFull
        trace := (s.createAndAddLogEntry o call).trace }
      ∧ fifo.toList = s.logEntryFIFO.toList ++ [logEntry o call]
      ∧ fifo.getMaxItems = s.logEntryFIFO.getMaxItems := by
  obtain ⟨fifo, hadd, hlist, hmax⟩ :=
    addEntry_room { s with calls := s.calls ++ [logEntry o call] } (logEntry o call) hq hroom
  refine ⟨fifo, ?_, hlist, hmax⟩
  simp only [createAndAddLogEntry, if_pos hen, isQueFull, hq, if_true, Bool.false_eq_true,
    if_false]
  simp only [hq] at hadd
  rw [hadd]

/-- A call that finds the latch set and enough room is stored after an overflow entry. -/
theorem createAndAddLogEntry_recovered (hq : s.queueFull = true)
    (hroom : o.minQueueSpace ≤ s.available) :
    ∃ fifo, s.createAndAddLogEntry o call = { s with
        calls := s.calls ++ [logEntry o call], logEntryFIFO := fifo
        stream := s.stream ++ [.overflow (s.overflowEntry call.overflowNow)]
          ++ [.call (logEntry o call)]
        queueFull := fifo.isFull, overflowCount := 0#w
        trace := (s.createAndAddLogEntry o call).trace }
      ∧ fifo.toList = s.logEntryFIFO.toList ++ [s.overflowEntry call.overflowNow]
          ++ [logEntry o call]
      ∧ fifo.getMaxItems = s.logEntryFIFO.getMaxItems := by
  -- two slots at least are free
  have htwo := o.two_le
  have havail : 2 ≤ s.logEntryFIFO.getMaxItems - s.logEntryFIFO.getNumItems := by
    unfold available at hroom
    omega
  obtain ⟨fifo₁, hadd₁, hlist₁, hmax₁⟩ :=
    addToFIFO_room { s with calls := s.calls ++ [logEntry o call] }
      (.overflow (s.overflowEntry call.overflowNow)) (by simp only; omega)
  have hnum : fifo₁.getNumItems = s.logEntryFIFO.getNumItems + 1 := by
    rw [← RingBuffer.length_toList, hlist₁]
    simp
  have hfree : fifo₁.getNumItems < fifo₁.getMaxItems := by
    simp only at hmax₁
    omega
  obtain ⟨fifo, hadd, hlist, hmax⟩ := addEntry_room
    { s with
      calls := s.calls ++ [logEntry o call], logEntryFIFO := fifo₁
      stream := s.stream ++ [.overflow (s.overflowEntry call.overflowNow)]
      trace := s.trace ++ [(startText o s.overflowCatText s.overflowMsgText
        ++ "overflow count=".toList ++ (toString s.overflowCount.toInt).toList).take
          o.maxFormattedMsgTextLen]
      overflowCount := 0#w, queueFull := false }
    (logEntry o call) rfl hfree
  refine ⟨fifo, ?_, by rw [hlist, hlist₁]; rfl, hmax.trans hmax₁⟩
  have hlatched : ¬ s.queueFull = false := by simp [hq]
  have hroom' : o.minQueueSpace ≤ available { s with calls := s.calls ++ [logEntry o call] } :=
    hroom
  simp only [createAndAddLogEntry, if_pos hen, isQueFull, if_neg hlatched, if_pos hroom',
    createAndAddOverflowEntry, Bool.false_eq_true, if_false]
  have hentry : overflowEntry { s with calls := s.calls ++ [logEntry o call] } call.overflowNow
      = s.overflowEntry call.overflowNow := rfl
  rw [hentry, hadd₁, hadd]

/-- A call that finds the latch set and too little room is counted. -/
theorem createAndAddLogEntry_dropped (hq : s.queueFull = true)
    (hroom : s.available < o.minQueueSpace) :
    s.createAndAddLogEntry o call = { s with
      calls := s.calls ++ [logEntry o call], overflowCount := s.overflowCount + 1#w
      trace := (s.createAndAddLogEntry o call).trace } := by
  have hlatched : ¬ s.queueFull = false := by simp [hq]
  have hroom' : ¬ o.minQueueSpace ≤ available { s with calls := s.calls ++ [logEntry o call] } :=
    Nat.not_le.mpr hroom
  simp [createAndAddLogEntry, if_pos hen, isQueFull, if_neg hlatched, if_neg hroom']

end

/-! ## §3. What every run keeps. -/

/-- **What every run keeps.** -/
structure Sound (o : Options) (s : Logger w) : Prop where
  room : o.minQueueSpace ≤ s.logEntryFIFO.getMaxItems
  fifo : s.stream.map Stored.entry = s.removed ++ s.logEntryFIFO.toList
  noneFail : s.addFailed = false
  notFull : s.queueFull = false → s.logEntryFIFO.getNumItems < s.logEntryFIFO.getMaxItems
  texts : ∀ entry, Stored.overflow entry ∈ s.stream → entry.msgText = []

variable {s : Logger w}

theorem Sound.initializeLogging (hfail : s.addFailed = false) (setup : Setup o) :
    Sound o (s.initializeLogging o setup) where
  room := setup.room
  fifo := rfl
  noneFail := hfail
  notFull _ := by
    have hroom := setup.room
    have htwo := o.two_le
    show 0 < setup.logEntryFIFO.getMaxItems
    omega
  texts _ h := by cases h

theorem Sound.boot (setup : Setup o) : Sound o (boot setup : Logger w) :=
  Sound.initializeLogging rfl setup

/-- A latch that was not set by an add means a free slot. -/
theorem lt_of_not_isFull {fifo : RingBuffer EntryData} (h : fifo.isFull = false) :
    fifo.getNumItems < fifo.getMaxItems := by
  have hne : fifo.getNumItems ≠ fifo.getMaxItems := by
    intro heq
    rw [fifo.isFull_iff.mpr heq] at h
    cases h
  have hlt := fifo.getNumItems_lt
  unfold RingBuffer.getMaxItems at hne ⊢
  omega

theorem Sound.createAndAddLogEntry (hs : Sound o s) (call : Call) :
    Sound o (s.createAndAddLogEntry o call) := by
  by_cases hen : s.enabled call = true
  · cases hq : s.queueFull with
    | false =>
      obtain ⟨fifo, heq, hlist, hmax⟩ :=
        s.createAndAddLogEntry_stored call hen hq (hs.notFull hq)
      rw [heq]
      constructor
      case room => exact hmax ▸ hs.room
      case fifo =>
        simp only [map_append, hs.fifo, hlist]
        exact append_assoc _ _ _
      case noneFail => exact hs.noneFail
      case notFull => exact lt_of_not_isFull
      case texts =>
        intro entry hmem
        rcases mem_append.mp hmem with hold | hnew
        · exact hs.texts entry hold
        · cases mem_singleton.mp hnew
    | true =>
      by_cases hroom : o.minQueueSpace ≤ s.available
      · obtain ⟨fifo, heq, hlist, hmax⟩ := s.createAndAddLogEntry_recovered call hen hq hroom
        rw [heq]
        constructor
        case room => exact hmax ▸ hs.room
        case fifo =>
          simp only [map_append, hs.fifo, hlist, append_assoc]
          rfl
        case noneFail => exact hs.noneFail
        case notFull => exact lt_of_not_isFull
        case texts =>
          intro entry hmem
          rcases mem_append.mp hmem with hold | hnew
          · rcases mem_append.mp hold with hold | hover
            · exact hs.texts entry hold
            · cases mem_singleton.mp hover
              rfl
          · cases mem_singleton.mp hnew
      · rw [s.createAndAddLogEntry_dropped call hen hq (Nat.not_le.mp hroom)]
        exact ⟨hs.room, hs.fifo, hs.noneFail, hs.notFull, hs.texts⟩
  · unfold Logger.createAndAddLogEntry
    rw [if_neg hen]
    exact hs

theorem Sound.consume (hs : Sound o s) : Sound o s.consume := by
  unfold Logger.consume
  rcases s.logEntryFIFO.remove_spec with ⟨hnone, _⟩ | ⟨entry, fifo, hsome, hlist, hmem⟩
  · rw [hnone]
    exact hs
  · rw [hsome]
    have hmax : fifo.getMaxItems = s.logEntryFIFO.getMaxItems := by
      rw [RingBuffer.getMaxItems, hmem, RingBuffer.getMaxItems]
    have hnum : s.logEntryFIFO.getNumItems = fifo.getNumItems + 1 := by
      rw [← RingBuffer.length_toList, hlist, length_cons, RingBuffer.length_toList]
    constructor
    case room => exact hmax ▸ hs.room
    case fifo =>
      simp only [hs.fifo, hlist, append_assoc]
      rfl
    case noneFail => exact hs.noneFail
    case notFull =>
      intro hq
      have hlt := hs.notFull hq
      simp only
      omega
    case texts => exact hs.texts

theorem Sound.step (hs : Sound o s) (op : Op o) : Sound o (s.step op) := by
  cases op with
  | initializeLogging setup => exact .initializeLogging hs.noneFail setup
  | createAndAddLogEntry call => exact hs.createAndAddLogEntry call
  | consume => exact hs.consume
  | _ => exact ⟨hs.room, hs.fifo, hs.noneFail, hs.notFull, hs.texts⟩

/-- **WHAT EVERY RUN KEEPS**, with no condition on the run: no `add` fails, the consumer gets the
    stream in its order, and no overflow entry has a text. -/
theorem logger_sound (setup : Setup o) (ops : List (Op o)) :
    Sound o (ops.foldl step (boot setup : Logger w)) :=
  foldlRecOn ops step (.boot setup) fun _ hs op _ => hs.step op

/-! ## §4. The accounts of a run. -/

/-- The accounts are right, and no drop is pending unless the latch is set. -/
structure Kept (R : EntryData → Nat → Prop) (s : Logger w) : Prop where
  accounts : Accounts R s.calls s.stream s.overflowCount.toNat
  noPending : s.queueFull = false → s.overflowCount = 0#w

/-- The step agrees with the accounts: an overflow entry stands for a drop and reports the
    number, the counter does not wrap around, and no pending drop is forgotten. -/
def Agrees (R : EntryData → Nat → Prop) (s : Logger w) : Op o → Prop
  | .createAndAddLogEntry call => s.enabled call = true → s.queueFull = true →
      (o.minQueueSpace ≤ s.available → 0 < s.overflowCount.toNat
        ∧ R (s.overflowEntry call.overflowNow) s.overflowCount.toNat)
      ∧ (s.available < o.minQueueSpace → s.overflowCount.toNat + 1 < 2 ^ w)
  | .initializeLogging _ => s.overflowCount = 0#w
  | _ => True

variable {R : EntryData → Nat → Prop}

theorem Kept.initializeLogging (h : s.overflowCount = 0#w) (setup : Setup o) :
    Kept R (s.initializeLogging o setup) where
  accounts := by
    show Accounts R [] [] s.overflowCount.toNat
    rw [h, BitVec.toNat_ofNat]
    exact .none
  noPending _ := h

theorem toNat_succ {n : BitVec w} (h : n.toNat + 1 < 2 ^ w) : (n + 1#w).toNat = n.toNat + 1 := by
  rw [BitVec.toNat_add, BitVec.toNat_ofNat, Nat.add_mod_mod, Nat.mod_eq_of_lt h]

theorem Kept.createAndAddLogEntry (hk : Kept R s) (hs : Sound o s) {call : Call}
    (hagrees : Agrees R s (.createAndAddLogEntry call : Op o)) :
    Kept R (s.createAndAddLogEntry o call) := by
  by_cases hen : s.enabled call = true
  · cases hq : s.queueFull with
    | false =>
      obtain ⟨fifo, heq, _, _⟩ := s.createAndAddLogEntry_stored call hen hq (hs.notFull hq)
      rw [heq]
      have hzero : s.overflowCount.toNat = 0 := by
        rw [hk.noPending hq, BitVec.toNat_ofNat, Nat.zero_mod]
      have haccounts := hk.accounts
      rw [hzero] at haccounts
      refine ⟨?_, fun _ => hk.noPending hq⟩
      simp only [hzero]
      exact haccounts.stored _
    | true =>
      obtain ⟨hrecovers, hcounts⟩ := hagrees hen hq
      by_cases hroom : o.minQueueSpace ≤ s.available
      · obtain ⟨fifo, heq, _, _⟩ := s.createAndAddLogEntry_recovered call hen hq hroom
        obtain ⟨hpos, hreports⟩ := hrecovers hroom
        rw [heq]
        refine ⟨?_, fun _ => rfl⟩
        exact (hk.accounts.overflow _ hpos hreports).stored _
      · have hlt := Nat.not_le.mp hroom
        rw [s.createAndAddLogEntry_dropped call hen hq hlt]
        refine ⟨?_, fun hc => absurd (hq.symm.trans hc) (by decide)⟩
        simp only [toNat_succ (hcounts hlt)]
        exact hk.accounts.dropped _
  · unfold Logger.createAndAddLogEntry
    rw [if_neg hen]
    exact hk

/-- The consumer touches the FIFO only. -/
theorem consume_eq (s : Logger w) : s.consume = { s with
    logEntryFIFO := s.consume.logEntryFIFO, removed := s.consume.removed } := by
  unfold consume
  split <;> rfl

variable {op : Op o}

/-- **One step keeps the accounts**, if it agrees with them. -/
theorem Kept.step (hk : Kept R s) (hs : Sound o s)
    (hagrees : Agrees R s op) : Kept R (s.step op) := by
  cases op with
  | initializeLogging setup => exact .initializeLogging hagrees setup
  | createAndAddLogEntry call => exact hk.createAndAddLogEntry hs hagrees
  | consume =>
    show Kept R s.consume
    rw [consume_eq]
    exact ⟨hk.accounts, hk.noPending⟩
  | _ => exact ⟨hk.accounts, hk.noPending⟩

/-! ## §5. The text of the overflow entries. -/

/-- A step that meets the condition agrees with the accounts: it stores no overflow entry. -/
theorem Meets.agrees (h : s.Meets op) : Agrees Reports s op := by
  cases op with
  | createAndAddLogEntry call =>
    intro hen hq
    obtain ⟨hlt, hwrap⟩ := h hen hq
    exact ⟨fun hroom => absurd hlt (Nat.not_lt.mpr hroom), fun _ => hwrap⟩
  | initializeLogging setup => exact h
  | _ => trivial

theorem Kept.accounted (hk : Kept Reports s) (hs : Sound o s) : s.Accounted :=
  ⟨hk.accounts, hs.fifo, hs.noneFail⟩

/-- An accounted stream has no overflow entry, because its text would be empty. -/
theorem Accounted.no_overflow (h : s.Accounted) (hs : Sound o s)
    (entry : EntryData) : Stored.overflow entry ∉ s.stream := by
  intro hmem
  obtain ⟨k, hreports⟩ := h.accounts.reports hmem
  exact not_reports_empty (hs.texts entry hmem) k hreports

theorem Accounted.length_calls (h : s.Accounted) (hs : Sound o s) :
    s.calls.length = s.stream.length + s.overflowCount.toNat :=
  h.accounts.length_calls (h.no_overflow hs)

/-- **A step between accounted states meets the condition.** -/
theorem Meets.of_accounted (hs : Sound o s) (h : s.Accounted)
    (h' : (s.step op).Accounted) : s.Meets op := by
  have hlen := h.length_calls hs
  have hlen' := h'.length_calls (hs.step op)
  cases op with
  | createAndAddLogEntry call =>
    intro hen hq
    by_cases hroom : o.minQueueSpace ≤ s.available
    · -- the overflow entry of this step cannot be accounted for
      obtain ⟨fifo, heq, _, _⟩ := s.createAndAddLogEntry_recovered call hen hq hroom
      refine absurd ?_ (h'.no_overflow (hs.step _) (s.overflowEntry call.overflowNow))
      show _ ∈ (s.createAndAddLogEntry o call).stream
      rw [heq]
      simp
    · have hlt := Nat.not_le.mp hroom
      -- one call more with the same stream: the counter has gone up by one
      have heq : s.step (.createAndAddLogEntry call : Op o) = _ :=
        s.createAndAddLogEntry_dropped call hen hq hlt
      rw [heq] at hlen'
      simp only [length_append, length_singleton] at hlen'
      omega
  | initializeLogging setup =>
    have hzero : 0 = 0 + s.overflowCount.toNat := hlen'
    apply BitVec.eq_of_toNat_eq
    rw [BitVec.toNat_ofNat, Nat.zero_mod]
    omega
  | _ => trivial

/-- **WHEN EVERY LOG CALL IS ACCOUNTED FOR**: exactly as long as no overflow entry is stored,
    no drop is pending at an initialisation and the counter does not wrap around. -/
theorem logging_accounts_iff (setup : Setup o) (ops : List (Op o)) :
    AllAccounted (boot setup : Logger w) ops
      ↔ Along (fun s op => some (step s op)) Meets (boot setup : Logger w) ops := by
  have hboot : Kept Reports (boot setup : Logger w) := .initializeLogging rfl setup
  have hsound : Sound o (boot setup : Logger w) := .boot setup
  revert hboot hsound
  generalize (boot setup : Logger w) = s
  intro hboot hsound
  induction ops generalizing s with
  | nil => exact ⟨fun _ => trivial, fun _ => hboot.accounted hsound⟩
  | cons op ops ih =>
    have hnext : s.Meets op → _ := fun hmeets =>
      ih (s.step op) (hboot.step hsound hmeets.agrees) (hsound.step op)
    rw [along_cons_total]
    constructor
    · rintro ⟨hhere, hrest⟩
      have hafter : (s.step op).Accounted := by
        cases ops with
        | nil => exact hrest
        | cons _ _ => exact hrest.1
      have hmeets := Meets.of_accounted hsound hhere hafter
      exact ⟨hmeets, (hnext hmeets).mp hrest⟩
    · rintro ⟨hmeets, hrest⟩
      exact ⟨hboot.accounted hsound, (hnext hmeets).mpr hrest⟩

/-- A FIFO with three slots. -/
def threeSlots : Setup Options.default where
  logEntryFIFO := RingBuffer.init (fun _ => EntryData.construct) 4 (by decide)
  room := by decide
  categoryIdForQueueOverflow := 1#32
  categoryQueueOverflowText := "WARN".toList
  messageIdForQueueOverflow := 2#16
  messageQueueOverflowText := "OVERFLOW".toList

/-- A log call. -/
def hello : Call where
  category := 4#32
  catIdText := "INFO".toList
  msgId := 7#16
  msgIdText := "HELLO".toList
  text := "hello".toList
  now := 10#64
  overflowNow := 11#64

def sayHello : Op Options.default := .createAndAddLogEntry hello

/-- The logger over three slots after some steps. -/
def after (ops : List (Op Options.default)) : Logger 32 := ops.foldl step (boot threeSlots)

/-- **WHERE THE ACCOUNTS FAIL.**  After three calls the FIFO is full and the latch set.
    (a) A fourth call is dropped, the consumer empties the FIFO, and the fifth call stores an
    overflow entry with an empty text.  (b) The consumer empties the FIFO before the fourth
    call: an overflow entry, and nothing was dropped.  (c) A fourth call is dropped and the
    logger is initialised again: the new log starts with a pending drop. -/
theorem overflow_text_empty :
    let a := after [sayHello, sayHello, sayHello, sayHello, .consume, .consume, .consume, sayHello]
    let b := after [sayHello, sayHello, sayHello, .consume, .consume, .consume, sayHello]
    let c := after [sayHello, sayHello, sayHello, sayHello, .initializeLogging threeSlots]
    let entry := Stored.call (logEntry Options.default hello)
    let overflow := Stored.overflow ⟨11#64, 1#32, 2#16, []⟩
    (a.stream = [entry, entry, entry, overflow, entry] ∧ a.calls.length = 5 ∧ ¬ a.Accounted)
    ∧ (b.stream = [entry, entry, entry, overflow, entry] ∧ b.calls.length = 4)
    ∧ c.overflowCount = 1#32 ∧ c.calls = [] := by
  refine ⟨⟨by decide, by decide, ?_⟩, ⟨by decide, by decide⟩, by decide, by decide⟩
  intro haccounted
  obtain ⟨k, hreports⟩ := haccounted.accounts.reports
    (show Stored.overflow ⟨11#64, 1#32, 2#16, []⟩ ∈ _ by decide)
  exact not_reports_empty rfl k hreports

end Logger

end ColonyCore.Logging
