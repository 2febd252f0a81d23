/-
  ColonyCore.Io.Ram.BlockingFifo
  **WHEN THE RAM STREAM IS A BLOCKING FIFO.**

  The threads in a wait are exactly those counted as waiting plus the signals that no one
  has taken.  Threads are counted only while the buffer has nothing for them, so a thread
  with work has a signal.

    • `readSection_spec`, `writeSection_spec` — one section,
    • `step_inv` — the invariant, for runs that do not `reset` under a waiting writer and
      do not `close` under a reader,
    • `blocking_fifo` — order, wake-ups and reads,
    • `wakeup_lost` — what the two exceptions do.
-/
import ColonyCore.Io.Ram.InputOutput

namespace ColonyCore.Io.Ram

open ColonyCore.Container Function List Interleaving
open Interleaving (threads threads_pos threads_enter threads_leave)

namespace InputOutput

variable {τ : Type}

/-! ## §1. The sections. -/

/-- What a locked loop leaves alone. -/
structure Frame (s s' : InputOutput τ) : Prop where
  memory : s'.ringBuffer.memoryNumElements = s.ringBuffer.memoryNumElements
  opened : s'.opened = s.opened
  pc : s'.pc = s.pc
  accepted : s'.accepted = s.accepted
  delivered : s'.delivered = s.delivered
  reads : s'.reads = s.reads

theorem Frame.refl (s : InputOutput τ) : Frame s s := ⟨rfl, rfl, rfl, rfl, rfl, rfl⟩

theorem Frame.trans {s₁ s₂ s₃ : InputOutput τ} (h : Frame s₁ s₂) (h' : Frame s₂ s₃) :
    Frame s₁ s₃ where
  memory := h'.memory.trans h.memory
  opened := h'.opened.trans h.opened
  pc := h'.pc.trans h.pc
  accepted := h'.accepted.trans h.accepted
  delivered := h'.delivered.trans h.delivered
  reads := h'.reads.trans h.reads

/-- **A locked loop**: it moves the bytes `moved`; `own` threads wait in it, `other` ones are
    signalled by it. -/
structure Loop (own ownSema other otherSema : InputOutput τ → Nat) (s : InputOutput τ)
    (bytes : List UInt8) (e : SectionEnd) (bytes' : List UInt8) (s' : InputOutput τ)
    (moved : List UInt8) : Prop where
  frame : Frame s s'
  bytes : bytes' = bytes ++ moved
  sema : ownSema s' = ownSema s
  signals : other s' + otherSema s' = other s + otherSema s
  freed : moved ≠ [] → other s' = 0
  kept : moved = [] → other s' = other s
  counted : own s' = own s + if e = .waits then 1 else 0
  waits : e = .waits → bytes' = [] ∧ s.opened = true

section Loop

variable {own ownSema other otherSema : InputOutput τ → Nat} {s s₁ s' : InputOutput τ}
  {bytes bytes' moved : List UInt8} {e : SectionEnd}

theorem Loop.stop : Loop own ownSema other otherSema s bytes .returns bytes s [] := by
  constructor
  case frame => exact .refl s
  all_goals simp

/-- A byte is moved, and the others are signalled. -/
theorem Loop.cons {byte : UInt8}
    (h : Loop own ownSema other otherSema s₁ (bytes ++ [byte]) e bytes' s' moved)
    (hframe : Frame s s₁) (hown : own s₁ = own s) (hsema : ownSema s₁ = ownSema s)
    (hother : other s₁ = 0) (hsignal : otherSema s₁ = otherSema s + other s) :
    bytes' ≠ [] ∧ Loop own ownSema other otherSema s bytes e bytes' s' (byte :: moved) := by
  have hnonempty : bytes' ≠ [] := by
    rw [h.bytes]
    simp
  exact ⟨hnonempty, {
    frame := hframe.trans h.frame
    bytes := by rw [h.bytes, append_assoc, singleton_append]
    sema := h.sema.trans hsema
    signals := by
      rw [h.signals]
      omega
    freed := fun _ => by
      by_cases hmoved : moved = []
      · rw [h.kept hmoved, hother]
      · exact h.freed hmoved
    kept := nofun
    counted := by rw [h.counted, hown]
    waits := fun he => absurd (h.waits he).1 hnonempty }⟩

end Loop

/-- **The loop of `read`.** -/
structure ReadEnds (n : Nat) (s : InputOutput τ) (bytes : List UInt8) (e : SectionEnd)
    (bytes' : List UInt8) (s' : InputOutput τ) (taken : List UInt8) : Prop extends
    Loop readersWaiting semaReaders writersWaiting semaWriters s bytes e bytes' s' taken where
  ring : s.ringBuffer.toList = taken ++ s'.ringBuffer.toList
  empty : e = .waits → s'.ringBuffer.toList = []
  returns : e = .returns → bytes' ≠ [] ∨ n = 0 ∨ s.opened = false

/-- The loop stops where it is. -/
theorem ReadEnds.stop {n : Nat} {s : InputOutput τ} {bytes : List UInt8}
    (h : bytes ≠ [] ∨ n = 0 ∨ s.opened = false) : ReadEnds n s bytes .returns bytes s [] :=
  ⟨Loop.stop, rfl, nofun, fun _ => h⟩

theorem readSection_spec (n : Nat) (s : InputOutput τ) (bytes : List UInt8) :
    ∃ e bytes' s' taken, readSection n s bytes = (e, bytes', s')
      ∧ ReadEnds n s bytes e bytes' s' taken := by
  induction n generalizing s bytes with
  | zero => exact ⟨.returns, bytes, s, [], rfl, .stop (.inr (.inl rfl))⟩
  | succ n ih =>
    by_cases hopen : s.opened = true
    · rcases s.ringBuffer.remove_spec with ⟨hnone, hempty⟩ | ⟨byte, ring, hsome, hlist, hmem⟩
      · by_cases hbytes : bytes = []
        · -- empty, and nothing read yet: the thread counts itself as waiting
          refine ⟨.waits, bytes, { s with readersWaiting := s.readersWaiting + 1 }, [], ?_,
            ⟨⟨rfl, rfl, rfl, rfl, rfl, rfl⟩, ?_, rfl, rfl, ?_, fun _ => rfl, rfl, fun _ => ⟨hbytes, hopen⟩⟩,
            rfl, fun _ => hempty, nofun⟩
          · simp [readSection, hopen, hnone, hbytes]
          all_goals simp
        · refine ⟨.returns, bytes, s, [], ?_, .stop (.inl hbytes)⟩
          simp [readSection, hnone, hbytes]
      · obtain ⟨e, bytes', s', taken, hrun, h⟩ :=
          ih (signalWriters { s with ringBuffer := ring }) (bytes ++ [byte])
        obtain ⟨hnonempty, hloop⟩ := h.toLoop.cons (s := s) ⟨hmem, rfl, rfl, rfl, rfl, rfl⟩ rfl rfl rfl rfl
        refine ⟨e, bytes', s', byte :: taken, ?_, hloop, ?_, h.empty, fun _ => .inl hnonempty⟩
        · simp only [readSection, if_pos hopen, hsome]
          exact hrun
        · rw [hlist, cons_append, ← h.ring]
          rfl
    · refine ⟨.returns, bytes, s, [], ?_, .stop (.inr (.inr (by simpa using hopen)))⟩
      simp [readSection, hopen]

/-- **The loop of `write`.** -/
structure WriteEnds (s : InputOutput τ) (bytes : List UInt8) (e : SectionEnd)
    (bytes' : List UInt8) (s' : InputOutput τ) (added : List UInt8) : Prop extends
    Loop writersWaiting semaWriters readersWaiting semaReaders s bytes e bytes' s' added where
  ring : s'.ringBuffer.toList = s.ringBuffer.toList ++ added
  full : e = .waits → s'.ringBuffer.toList.length = s'.ringBuffer.getMaxItems

theorem WriteEnds.stop {s : InputOutput τ} {bytes : List UInt8} :
    WriteEnds s bytes .returns bytes s [] :=
  ⟨Loop.stop, (append_nil _).symm, nofun⟩

theorem writeSection_spec (data : List UInt8) (s : InputOutput τ) (bytes : List UInt8) :
    ∃ e bytes' s' added, writeSection data s bytes = (e, bytes', s')
      ∧ WriteEnds s bytes e bytes' s' added := by
  induction data generalizing s bytes with
  | nil => exact ⟨.returns, bytes, s, [], rfl, .stop⟩
  | cons byte rest ih =>
    by_cases hopen : s.opened = true
    · rcases s.ringBuffer.add_spec byte with ⟨hnone, hfull⟩ | ⟨ring, hsome, hlist, hmem⟩
      · by_cases hbytes : bytes = []
        · refine ⟨.waits, bytes, { s with writersWaiting := s.writersWaiting + 1 }, [], ?_,
            ⟨⟨rfl, rfl, rfl, rfl, rfl, rfl⟩, ?_, rfl, rfl, ?_, fun _ => rfl, rfl, fun _ => ⟨hbytes, hopen⟩⟩,
            ?_, fun _ => hfull⟩
          · simp [writeSection, hopen, hnone, hbytes]
          all_goals simp
        · refine ⟨.returns, bytes, s, [], ?_, .stop⟩
          simp [writeSection, hnone, hbytes]
      · obtain ⟨e, bytes', s', added, hrun, h⟩ :=
          ih (signalReaders { s with ringBuffer := ring }) (bytes ++ [byte])
        obtain ⟨-, hloop⟩ := h.toLoop.cons (s := s) ⟨hmem, rfl, rfl, rfl, rfl, rfl⟩ rfl rfl rfl rfl
        refine ⟨e, bytes', s', byte :: added, ?_, hloop, ?_, h.full⟩
        · simp only [writeSection, if_pos hopen, hsome]
          exact hrun
        · rw [h.ring]
          show ring.toList ++ added = _
          rw [hlist, append_assoc, singleton_append]
    · refine ⟨.returns, bytes, s, [], ?_, .stop⟩
      simp [writeSection, hopen]

/-! ## §2. The invariant. -/

def isReadWait : Pc → Bool
  | .readWait _ => true
  | _ => false

def isWriteWait : Pc → Bool
  | .writeWait _ => true
  | _ => false

/-- The bytes asked for by a `read` that has found the stream open. -/
def asked : Pc → Option Nat
  | .readLoop n => some n
  | .readWait n => some n
  | _ => none

variable [Fintype τ]

/-- **The invariant.** -/
structure Inv (s : InputOutput τ) : Prop where
  bytes : s.opened = true → s.accepted = s.delivered ++ s.ringBuffer.toList
  order : s.delivered <+: s.accepted
  readers : threads isReadWait s.pc = s.readersWaiting + s.semaReaders
  writers : threads isWriteWait s.pc = s.writersWaiting + s.semaWriters
  emptyThen : s.readersWaiting ≠ 0 → s.ringBuffer.toList = [] ∧ s.opened = true
  fullThen : s.writersWaiting ≠ 0 →
    s.ringBuffer.toList.length = s.ringBuffer.getMaxItems ∧ s.opened = true
  noReader : s.opened = false → ∀ t, asked (s.pc t) = none
  positive : ∀ t n, asked (s.pc t) = some n → n ≠ 0
  phantom : ∀ r ∈ s.reads, r.result = true → 1 ≤ r.numBytes → r.bytes ≠ []

theorem construct_inv (memory : Nat → UInt8) (n : Nat) (h : 0 < n) :
    Inv (construct memory n h : InputOutput τ) where
  bytes _ := rfl
  order := prefix_refl _
  readers := by simp [threads, construct, isReadWait]
  writers := by simp [threads, construct, isWriteWait]
  emptyThen h := absurd rfl h
  fullThen h := absurd rfl h
  noReader h := by cases h
  positive _ _ h := by cases h
  phantom r hr := by cases hr

variable [DecidableEq τ]

/-- The step does not `reset` while a writer is counted as waiting, and does not `close`
    while a `read` is past its test of `m_opened`. -/
def Meets (s : InputOutput τ) : Act τ → Prop
  | .reset _ => s.opened = true → s.writersWaiting = 0
  | .close _ => s.opened = true → ∀ t, asked (s.pc t) = none
  | _ => True

variable {t : τ} {s : InputOutput τ}

/-- The facts about the places of all threads, when one of them has moved. -/
theorem Inv.noReader_update (hs : Inv s) {pc : Pc} (hpc : s.opened = false → asked pc = none)
    (hclosed : s.opened = false) : ∀ u, asked (update s.pc t pc u) = none :=
  (forall_update_iff s.pc fun _ p => asked p = none).mpr
    ⟨hpc hclosed, fun u _ => hs.noReader hclosed u⟩

theorem Inv.positive_update (hs : Inv s) {pc : Pc} (hpc : ∀ n, asked pc = some n → n ≠ 0) :
    ∀ u n, asked (update s.pc t pc u) = some n → n ≠ 0 :=
  (forall_update_iff s.pc fun _ p => ∀ n, asked p = some n → n ≠ 0).mpr
    ⟨hpc, fun u _ => hs.positive u⟩

/-- A thread that is in no wait goes to a place that is none, with nothing else changed
    but the results of calls. -/
theorem Inv.moved (hs : Inv s) {old : Pc} (hold : s.pc t = old) (hr : isReadWait old = false)
    (hw : isWriteWait old = false) (pc : Pc) (hr' : isReadWait pc = false)
    (hw' : isWriteWait pc = false) (hopen : s.opened = false → asked pc = none)
    (hn : ∀ n, asked pc = some n → n ≠ 0) (reads : List ReadResult) (writes : List WriteResult)
    (hreads : ∀ r ∈ reads, r.result = true → 1 ≤ r.numBytes → r.bytes ≠ []) :
    Inv { s with pc := update s.pc t pc, reads := reads, writes := writes } := by
  subst hold
  have hreaders := threads_enter hr pc
  have hwriters := threads_enter hw pc
  rw [hr'] at hreaders
  rw [hw'] at hwriters
  exact { hs with
    readers := hreaders.trans hs.readers
    writers := hwriters.trans hs.writers
    noReader := hs.noReader_update hopen
    positive := hs.positive_update hn
    phantom := hreads }

omit [DecidableEq τ] in
/-- A reader past its test: the stream is open. -/
theorem Inv.opened (hs : Inv s) {n : Nat} (hpc : asked (s.pc t) = some n) : s.opened = true := by
  by_contra hclosed
  have hnone := hs.noReader (by simpa using hclosed) t
  rw [hpc] at hnone
  cases hnone

section Sections

variable {s₁ : InputOutput τ} {e : SectionEnd} {bytes : List UInt8}

/-- **The section of `read`**: the thread goes to `pc`, a wait if the section says so. -/
theorem Inv.readLoop (hs : Inv s) {n : Nat} {taken : List UInt8} (hpc : s.pc t = .readLoop n)
    (h : ReadEnds n s [] e bytes s₁ taken) (pc : Pc)
    (hwait : isReadWait pc = decide (e = .waits)) (hw : isWriteWait pc = false)
    (hasked : ∀ k, asked pc = some k → k = n)
    {delivered : List UInt8} (hdelivered : delivered = s₁.delivered ++ bytes)
    {reads : List ReadResult}
    (hreads : ∀ r ∈ reads, r.result = true → 1 ≤ r.numBytes → r.bytes ≠ []) :
    Inv { s₁ with pc := update s₁.pc t pc, delivered := delivered, reads := reads } := by
  have hat : asked (s.pc t) = some n := by rw [hpc]; rfl
  have hopen := hs.opened hat
  have hopen₁ : s₁.opened = true := h.frame.opened.trans hopen
  have hbytes : bytes = taken := h.bytes
  have hstream : s₁.accepted = delivered ++ s₁.ringBuffer.toList := by
    rw [hdelivered, hbytes, h.frame.accepted, h.frame.delivered, hs.bytes hopen, h.ring,
      append_assoc]
  constructor
  case bytes => exact fun _ => hstream
  case order =>
    show delivered <+: s₁.accepted
    rw [hstream]
    exact prefix_append _ _
  case readers =>
    show threads isReadWait (update s₁.pc t pc) = s₁.readersWaiting + s₁.semaReaders
    rw [h.frame.pc, threads_enter (by rw [hpc]; rfl), hwait, hs.readers, h.counted, h.sema]
    simp only [decide_eq_true_eq]
    omega
  case writers =>
    rw [h.frame.pc, threads_enter (by rw [hpc]; rfl), hw, hs.writers, h.signals]
    rfl
  case emptyThen =>
    intro hne
    refine ⟨?_, hopen₁⟩
    cases e with
    | waits => exact h.empty rfl
    | returns =>
      -- readers were counted before, so there was nothing to take
      have hcounted : s₁.readersWaiting = s.readersWaiting := h.counted
      have hempty := (hs.emptyThen (hcounted ▸ hne)).1
      rw [h.ring] at hempty
      exact (append_eq_nil_iff.mp hempty).2
  case fullThen =>
    -- waiting writers are left only if no byte was taken
    intro hne
    have htaken : taken = [] := by
      by_contra hsome
      exact hne (h.freed hsome)
    have hring := h.ring
    rw [htaken, nil_append] at hring
    refine ⟨?_, hopen₁⟩
    show s₁.ringBuffer.toList.length = s₁.ringBuffer.memoryNumElements - 1
    rw [← hring, h.frame.memory]
    exact (hs.fullThen (h.kept htaken ▸ hne)).1
  case noReader => exact fun hclosed => nomatch hopen₁.symm.trans hclosed
  case positive =>
    show ∀ u k, asked (update s₁.pc t pc u) = some k → k ≠ 0
    rw [h.frame.pc]
    exact hs.positive_update fun k hk => hasked k hk ▸ hs.positive t n hat
  case phantom => exact hreads

/-- **The section of `write`.** -/
theorem Inv.writeLoop (hs : Inv s) {data added : List UInt8} (hpc : s.pc t = .writeLoop data)
    (h : WriteEnds s [] e bytes s₁ added) (pc : Pc)
    (hwait : isWriteWait pc = decide (e = .waits)) (hr : isReadWait pc = false)
    (hasked : asked pc = none) {accepted : List UInt8}
    (haccepted : accepted = s₁.accepted ++ bytes) (writes : List WriteResult) :
    Inv { s₁ with pc := update s₁.pc t pc, accepted := accepted, writes := writes } := by
  have hbytes : bytes = added := h.bytes
  constructor
  case bytes =>
    intro hopen
    show accepted = s₁.delivered ++ s₁.ringBuffer.toList
    rw [haccepted, hbytes, h.frame.accepted, h.frame.delivered,
      hs.bytes (h.frame.opened.symm.trans hopen), h.ring, append_assoc]
  case order =>
    show s₁.delivered <+: accepted
    rw [haccepted, h.frame.accepted, h.frame.delivered]
    exact hs.order.trans (prefix_append _ _)
  case readers =>
    show threads isReadWait (update s₁.pc t pc) = s₁.readersWaiting + s₁.semaReaders
    rw [h.frame.pc, threads_enter (by rw [hpc]; rfl), hr, hs.readers, h.signals]
    rfl
  case writers =>
    show threads isWriteWait (update s₁.pc t pc) = s₁.writersWaiting + s₁.semaWriters
    rw [h.frame.pc, threads_enter (by rw [hpc]; rfl), hwait, hs.writers, h.counted, h.sema]
    simp only [decide_eq_true_eq]
    omega
  case emptyThen =>
    -- waiting readers are left only if no byte was added
    intro hne
    have hadded : added = [] := by
      by_contra hsome
      exact hne (h.freed hsome)
    show s₁.ringBuffer.toList = [] ∧ s₁.opened = true
    rw [h.ring, hadded, append_nil, h.frame.opened]
    exact hs.emptyThen (h.kept hadded ▸ hne)
  case fullThen =>
    intro hne
    cases e with
    | waits =>
      exact ⟨h.full rfl, h.frame.opened.trans (h.waits rfl).2⟩
    | returns =>
      have hcounted : s₁.writersWaiting = s.writersWaiting := h.counted
      obtain ⟨hfull, hopen⟩ := hs.fullThen (hcounted ▸ hne)
      -- a ring buffer never holds more than its maximum
      have hlt := s₁.ringBuffer.getNumItems_lt
      have hmax : s.ringBuffer.toList.length = s.ringBuffer.memoryNumElements - 1 := hfull
      have hlen := congrArg length h.ring
      refine ⟨?_, h.frame.opened.trans hopen⟩
      show s₁.ringBuffer.toList.length = s₁.ringBuffer.memoryNumElements - 1
      rw [length_append, hmax, ← h.frame.memory] at hlen
      rw [RingBuffer.length_toList] at hlen ⊢
      omega
  case noReader =>
    show s₁.opened = false → ∀ u, asked (update s₁.pc t pc u) = none
    rw [h.frame.pc, h.frame.opened]
    exact hs.noReader_update fun _ => hasked
  case positive =>
    show ∀ u k, asked (update s₁.pc t pc u) = some k → k ≠ 0
    rw [h.frame.pc]
    exact hs.positive_update (by rw [hasked]; nofun)
  case phantom => exact h.frame.reads ▸ hs.phantom

end Sections

/-! ## §3. The steps. -/

/-- A reader takes a signal and starts its loop again. -/
theorem Inv.wokenReader (hs : Inv s) {n : Nat} (hpc : s.pc t = .readWait n)
    (hsema : s.semaReaders ≠ 0) :
    Inv (goto { s with semaReaders := s.semaReaders - 1 } t (.readLoop n)) := by
  have hat : asked (s.pc t) = some n := by rw [hpc]; rfl
  have hleave := threads_leave (P := isReadWait) (f := s.pc) (t := t) (v := .readLoop n)
    (by rw [hpc]; rfl) rfl
  have hstay := threads_enter (P := isWriteWait) (f := s.pc) (t := t) (by rw [hpc]; rfl)
    (.readLoop n)
  have hcount := hs.readers
  exact { hs with
    readers := by
      show threads isReadWait (update s.pc t _) = s.readersWaiting + (s.semaReaders - 1)
      omega
    writers := hstay.trans hs.writers
    noReader := fun hclosed => nomatch (hs.opened hat).symm.trans hclosed
    positive := hs.positive_update fun k hk => Option.some.inj hk ▸ hs.positive t n hat }

/-- A writer takes a signal. -/
theorem Inv.wokenWriter (hs : Inv s) {data : List UInt8} (hpc : s.pc t = .writeWait data)
    (hsema : s.semaWriters ≠ 0) :
    Inv (goto { s with semaWriters := s.semaWriters - 1 } t (.writeLoop data)) := by
  have hleave := threads_leave (P := isWriteWait) (f := s.pc) (t := t) (v := .writeLoop data)
    (by rw [hpc]; rfl) rfl
  have hstay := threads_enter (P := isReadWait) (f := s.pc) (t := t) (by rw [hpc]; rfl)
    (.writeLoop data)
  have hcount := hs.writers
  exact { hs with
    readers := hstay.trans hs.readers
    writers := by
      show threads isWriteWait (update s.pc t _) = s.writersWaiting + (s.semaWriters - 1)
      omega
    noReader := hs.noReader_update fun _ => rfl
    positive := hs.positive_update nofun }

theorem nextStep_inv {s' : InputOutput τ} (hs : Inv s) (h : s.nextStep t = some s') : Inv s' := by
  unfold nextStep at h
  split at h
  · cases h
  next n hpc =>
    -- a call that returns at its test read nothing, and was not asked to or returns false
    have hreturn : ∀ result, (result = true → n = 0) →
        Inv (s.returnRead t ⟨n, result, []⟩) := by
      intro result hzero
      refine hs.moved hpc rfl rfl .idle rfl rfl (fun _ => rfl) nofun _ _ ?_
      refine forall_mem_append.mpr ⟨hs.phantom, forall_mem_singleton.mpr ?_⟩
      intro htrue hpos
      have hn := hzero htrue
      simp only at hpos
      omega
    split at h
    · cases h
      exact hreturn false nofun
    next hopen =>
      split at h
      next hzero =>
        cases h
        exact hreturn true fun _ => hzero
      next hpos =>
        cases h
        exact hs.moved hpc rfl rfl (.readLoop n) rfl rfl (fun hc => absurd hc hopen)
          (fun k hk => Option.some.inj hk ▸ hpos) _ _ hs.phantom
  next n hpc =>
    obtain ⟨e, bytes, s₁, taken, hrun, hends⟩ := readSection_spec n s []
    have hreads := hends.frame.reads ▸ hs.phantom
    rw [hrun] at h
    cases e with
    | returns =>
      cases h
      refine hs.readLoop hpc hends .idle rfl rfl nofun rfl ?_
      refine forall_mem_append.mpr ⟨hreads, forall_mem_singleton.mpr fun _ hpos => ?_⟩
      rcases hends.returns rfl with hsome | hzero | hclosed
      · exact hsome
      · simp only [hzero] at hpos
        omega
      · have hopen := hs.opened (t := t) (n := n) (by rw [hpc]; rfl)
        exact nomatch hopen.symm.trans hclosed
    | waits =>
      cases h
      refine hs.readLoop hpc hends (.readWait n) rfl rfl (fun k hk => ?_) ?_ hreads
      · exact (Option.some.inj hk).symm
      · rw [(hends.waits rfl).1, append_nil]
  next n hpc =>
    split at h
    · cases h
    next hsema =>
      cases h
      exact hs.wokenReader hpc hsema
  next data hpc =>
    split at h
    · cases h
      exact hs.moved hpc rfl rfl .idle rfl rfl (fun _ => rfl) nofun _ _ hs.phantom
    · split at h
      · cases h
        exact hs.moved hpc rfl rfl .idle rfl rfl (fun _ => rfl) nofun _ _ hs.phantom
      · cases h
        exact hs.moved hpc rfl rfl (.writeLoop data) rfl rfl (fun _ => rfl) nofun _ _ hs.phantom
  next data hpc =>
    obtain ⟨e, bytes, s₁, added, hrun, hends⟩ := writeSection_spec data s []
    rw [hrun] at h
    cases e with
    | returns =>
      cases h
      exact hs.writeLoop hpc hends .idle rfl rfl rfl rfl _
    | waits =>
      cases h
      refine hs.writeLoop hpc hends (.writeWait data) rfl rfl rfl ?_ s₁.writes
      rw [(hends.waits rfl).1, append_nil]
  next data hpc =>
    split at h
    · cases h
    next hsema =>
      cases h
      exact hs.wokenWriter hpc hsema

omit [DecidableEq τ] in
/-- `reset` clears the buffer; no writer is counted as waiting, so none is forgotten. -/
theorem Inv.reset (hs : Inv s) (hmeets : s.opened = true → s.writersWaiting = 0) :
    Inv { s with
      ringBuffer := if s.opened then s.ringBuffer.clearTheBuffer else s.ringBuffer
      accepted := []
      delivered := [] } := by
  have hclear : s.ringBuffer.clearTheBuffer.toList = [] := rfl
  by_cases hopen : s.opened = true
  · simp only [if_pos hopen]
    exact { hs with
      bytes := fun _ => hclear.symm
      order := prefix_refl _
      emptyThen := fun _ => ⟨hclear, hopen⟩
      fullThen := fun hne => absurd (hmeets hopen) hne }
  · simp only [if_neg hopen]
    exact { hs with
      bytes := fun hc => absurd hc hopen
      order := prefix_refl _ }

omit [DecidableEq τ] in
/-- `close` signals everyone who is counted as waiting. -/
theorem Inv.close (hs : Inv s) (hmeets : ∀ t, asked (s.pc t) = none) :
    Inv (signalReaders (signalWriters { s with opened := false })) where
  bytes h := by cases h
  order := hs.order
  readers := by
    show threads isReadWait s.pc = 0 + (s.semaReaders + s.readersWaiting)
    rw [hs.readers]
    omega
  writers := by
    show threads isWriteWait s.pc = 0 + (s.semaWriters + s.writersWaiting)
    rw [hs.writers]
    omega
  emptyThen h := absurd rfl h
  fullThen h := absurd rfl h
  noReader _ := hmeets
  positive := hs.positive
  phantom := hs.phantom

/-- **One step keeps the invariant**, if it meets the condition. -/
theorem step_inv {s' : InputOutput τ} {a : Act τ} (hs : Inv s) (hmeets : Meets s a)
    (h : s.step a = some s') : Inv s' := by
  cases a with
  | read t n =>
    simp only [step] at h
    split at h
    next hpc =>
      cases h
      exact hs.moved hpc rfl rfl (.readCheck n) rfl rfl (fun _ => rfl) nofun _ _ hs.phantom
    · cases h
  | write t data =>
    simp only [step] at h
    split at h
    next hpc =>
      cases h
      exact hs.moved hpc rfl rfl (.writeCheck data) rfl rfl (fun _ => rfl) nofun _ _ hs.phantom
    · cases h
  | reset t =>
    simp only [step] at h
    split at h
    · cases h
      exact hs.reset hmeets
    · cases h
  | close t =>
    simp only [step] at h
    split at h
    · cases h
      by_cases hopen : s.opened = true
      · rw [if_pos hopen]
        exact hs.close (hmeets hopen)
      · rw [if_neg hopen]
        exact hs
    · cases h
  | next t => exact nextStep_inv hs h

/-! ## §4. The stream. -/

/-- **A blocking FIFO without lost wake-ups.** -/
structure BlockingFifo (s : InputOutput τ) : Prop where
  /-- the bytes come out in the order they went in -/
  order : s.delivered <+: s.accepted
  /-- a reader is blocked only on an empty stream that is open -/
  readers : ∀ t n, s.pc t = .readWait n → s.semaReaders = 0 →
    s.ringBuffer.toList = [] ∧ s.opened = true
  /-- a writer is blocked only on a full stream that is open -/
  writers : ∀ t data, s.pc t = .writeWait data → s.semaWriters = 0 →
    s.ringBuffer.toList.length = s.ringBuffer.getMaxItems ∧ s.opened = true
  /-- a read that returns true delivered a byte -/
  reads : ∀ r ∈ s.reads, r.result = true → 1 ≤ r.numBytes → r.bytes ≠ []

theorem Inv.blockingFifo (hs : Inv s) : BlockingFifo s where
  order := hs.order
  readers t n hpc hsema := by
    refine hs.emptyThen fun hzero => ?_
    -- the thread is one of those that are counted or have a signal
    have hpos := threads_pos (P := isReadWait) (f := s.pc) (t := t) (by rw [hpc]; rfl)
    have hcount := hs.readers
    omega
  writers t data hpc hsema := by
    refine hs.fullThen fun hzero => ?_
    have hpos := threads_pos (P := isWriteWait) (f := s.pc) (t := t) (by rw [hpc]; rfl)
    have hcount := hs.writers
    omega
  reads := hs.phantom

/-- **WHEN THE STREAM IS A BLOCKING FIFO**: after every run whose steps do not `reset` under a
    waiting writer and do not `close` under a `read`. -/
theorem blocking_fifo (memory : Nat → UInt8) (n : Nat) (hn : 0 < n) (acts : List (Act τ))
    (s : InputOutput τ) (hmeets : Along step Meets (construct memory n hn) acts)
    (hrun : run step (construct memory n hn) acts = some s) : BlockingFifo s :=
  (run_invariant_along Inv (fun _ _ _ => step_inv) (construct_inv memory n hn)
    hmeets hrun).blockingFifo

/-- One byte written by one thread and read by another. -/
theorem blocking_fifo_byte :
    ∃ s : InputOutput (Fin 2),
      run step (construct (fun _ => 0) 2 (by decide))
        [.read 0 1, .next 0, .next 0, .write 1 [7], .next 1, .next 1, .next 0, .next 0] = some s
      ∧ s.delivered = [7] ∧ BlockingFifo s := by
  obtain ⟨s, hrun, hbyte⟩ : ∃ s : InputOutput (Fin 2),
      run step (construct (fun _ => 0) 2 (by decide))
        [.read 0 1, .next 0, .next 0, .write 1 [7], .next 1, .next 1, .next 0, .next 0] = some s
      ∧ s.delivered = [7] := ⟨_, rfl, rfl⟩
  refine ⟨s, hrun, hbyte, blocking_fifo _ 2 _ _ s ?_ hrun⟩
  -- the condition is about `reset` and `close` only
  repeat' refine And.intro trivial fun _ _ => ?_
  trivial

/-- **WHAT THE TWO EXCEPTIONS DO.**  A writer waits on a full stream, `reset` empties it, and
    the writer goes on waiting: nobody else is in a call.  A reader waits on an empty stream,
    `close` wakes it, and its `read` returns true without a byte. -/
theorem wakeup_lost :
    (∃ s : InputOutput (Fin 2),
      run step (construct (fun _ => 0) 2 (by decide))
        [.write 0 [1], .next 0, .next 0, .write 0 [2], .next 0, .next 0, .reset 1] = some s
      ∧ s.pc 0 = .writeWait [2] ∧ s.semaWriters = 0 ∧ s.pc 1 = .idle
      ∧ s.ringBuffer.toList = [] ∧ s.ringBuffer.getMaxItems = 1)
    ∧ ∃ s : InputOutput (Fin 2),
      run step (construct (fun _ => 0) 2 (by decide))
        [.read 0 1, .next 0, .next 0, .close 1, .next 0, .next 0] = some s
      ∧ s.reads = [⟨1, true, []⟩] :=
  ⟨⟨_, rfl, rfl, rfl, rfl, rfl, rfl⟩, ⟨_, rfl, rfl⟩⟩

end InputOutput

end ColonyCore.Io.Ram
