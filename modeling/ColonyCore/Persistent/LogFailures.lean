/-
  ColonyCore.Persistent.LogFailures
  **APPENDS THAT FAIL, AND WHAT `getLatest` SEES AFTER THEM.**

  A run is a list of `addEntry` calls, newest first, each with the fates of its
  region writes.  The entry a caller may count on is the `survivor`: the most
  recent call that returned true and whose slot no later call was aimed at.

    • `Attempts.head`          — the head is where the last successful index write
      put it, whether or not the entry followed,
    • `getLatest_survivor`     — when that last index write was followed by its
      entry, `getLatest` returns the survivor,
    • `getLatest_misses_survivor` — when it was not, `getLatest` returns false.
-/
import ColonyCore.Persistent.LogRing

namespace ColonyCore.Persistent

open ByteStore LittleEndian

variable {P : Platform} {g : Geometry P}

/-! ## §1. Runs of appends. -/

/-- One `addEntry` call: the slot it was aimed at, its payload, the fates of its
region writes and its result. -/
structure Attempt (g : Geometry P) where
  slot : Nat
  entry : Entry g
  fates : Log.AddFates
  stored : Bool

/-- **A run of `addEntry` calls** from the log `s₀`, newest first. -/
inductive Attempts (s₀ : Log g) : List (Attempt g) → Log g → Prop
  | nil : Attempts s₀ [] s₀
  | add {as : List (Attempt g)} {s s' : Log g} {e : Entry g} {fates : Log.AddFates} {stored : Bool} :
      Attempts s₀ as s → s.addEntry (.ofBytes e.bytes) fates = some (s', stored) →
      Attempts s₀ (⟨s.targetSlot, e, fates, stored⟩ :: as) s'

/-- The most recent call that returned true and whose slot is none of `later`. -/
def survivorAmong (later : List Nat) : List (Attempt g) → Option (Attempt g)
  | [] => none
  | a :: older =>
    if a.stored ∧ a.slot ∉ later then some a else survivorAmong (a.slot :: later) older

/-- **The survivor** of a run: the most recent call that returned true and whose
slot was not the target of a later call. -/
def survivor (as : List (Attempt g)) : Option (Attempt g) := survivorAmong [] as

/-- **The condition**: the last call whose index write succeeded also had its entry
write succeed. -/
def HeadStored : List (Attempt g) → Prop
  | [] => True
  | a :: older => if a.fates.indexOk then a.fates.entryOk = true else HeadStored older

/-! ## §2. Where a run leaves the head. -/

/-- What a run has left: the head stands at the slot of the last call whose index
write succeeded; calls after it were all aimed at the slot after the head. -/
def HeadAt (s : Log g) : List (Attempt g) → Prop
  | [] => True
  | a :: older =>
    a.slot < g.maxEntries ∧ a.stored = (a.fates.indexOk && a.fates.entryOk)
      ∧ if a.fates.indexOk then
          s.latestOffset = a.slot * g.entrySize
            ∧ (a.stored = true → ∃ ts, ts < 2 ^ 64 ∧
                slice (s.media .entries) (a.slot * g.entrySize) g.entrySize
                  = entryFrame P ts a.entry.bytes)
        else a.slot = s.targetSlot ∧ HeadAt s older

variable {as : List (Attempt g)}

theorem HeadAt.congr {s s' : Log g} (hm : s'.media .entries = s.media .entries)
    (ho : s'.latestOffset = s.latestOffset) (h : HeadAt s as) : HeadAt s' as := by
  have htarget : s'.targetSlot = s.targetSlot := by
    unfold Log.targetSlot
    rw [ho]
  induction as with
  | nil => trivial
  | cons a older ih =>
    obtain ⟨hlt, hres, hhead⟩ := h
    refine ⟨hlt, hres, ?_⟩
    split at hhead
    next hok =>
      rw [if_pos hok, ho, hm]
      exact hhead
    next hok =>
      rw [if_neg hok, htarget]
      exact ⟨hhead.1, ih hhead.2⟩

/-- **Every run** of appends leaves a live log with its head in place. -/
theorem Attempts.head {s₀ s : Log g} (h : Attempts s₀ as s) (hlive : Live s₀) :
    Live s ∧ HeadAt s as := by
  induction h with
  | nil => exact ⟨hlive, trivial⟩
  | @add as s s' e fates stored _ hadd ih =>
    obtain ⟨hls, hhead⟩ := ih
    obtain ⟨hlt, -⟩ := hls.target
    rcases addEntry_cases hls hadd with ⟨hidx, rfl, href⟩ | ⟨hidx, -, hst, hap⟩
    · -- the index write failed: the head stays
      have htarget : s'.targetSlot = s.targetSlot := by
        unfold Log.targetSlot
        rw [href.offset]
      refine ⟨href.live, hlt, by rw [hidx]; rfl, ?_⟩
      rw [if_neg (by rw [hidx]; decide), htarget]
      exact ⟨rfl, hhead.congr href.entries href.offset⟩
    · -- the index write succeeded: the head has moved
      refine ⟨hap.live, hlt, by rw [hidx]; exact hst, ?_⟩
      rw [if_pos hidx]
      refine ⟨hap.offset, ?_⟩
      intro hstored
      have hframe : (entryFrame P s.nextTimestamp e.bytes).length = g.entrySize := length_entryFrame e.size
      have hle := g.slot_le hlt
      have hself := slice_overlay_self (s.media .entries) (s.targetSlot * g.entrySize)
        (entryFrame P s.nextTimestamp e.bytes) (by rw [hframe, hls.shape.length]; exact hle)
      rw [hframe, ← hap.written hstored] at hself
      exact ⟨s.nextTimestamp, Nat.mod_lt _ (by omega), hself⟩

/-! ## §3. The survivor and the head. -/

/-- A survivor is a call of the run whose slot is not among the later ones. -/
theorem survivorAmong_slot {later : List Nat} {a : Attempt g}
    (h : survivorAmong later as = some a) : a ∈ as ∧ a.slot ∉ later := by
  induction as generalizing later with
  | nil => cases h
  | cons b older ih =>
    unfold survivorAmong at h
    split at h
    next hb =>
      cases h
      exact ⟨List.mem_cons_self, hb.2⟩
    next =>
      obtain ⟨hmem, hnot⟩ := ih h
      exact ⟨List.mem_cons_of_mem b hmem, fun hin => hnot (List.mem_cons_of_mem _ hin)⟩

/-- The slots of a run are slots of the ring. -/
def InRing (g : Geometry P) (as : List (Attempt g)) : Prop := ∀ a ∈ as, a.slot < g.maxEntries

theorem Attempts.inRing {s₀ s : Log g} (h : Attempts s₀ as s) (hlive : Live s₀) : InRing g as := by
  induction h with
  | nil => intro a ha; cases ha
  | @add as s s' e fates stored hrun _ ih =>
    intro a ha
    rcases List.mem_cons.mp ha with rfl | ha
    · exact (hrun.head hlive).1.target.1
    · exact ih a ha

/-- **The survivor is the entry at the head**, when the last index write was
followed by its entry.  `later` are the slots of calls after the ones looked at;
they were all aimed at the slot after the head. -/
theorem survivorAmong_head {s : Log g} (hhead : HeadAt s as) (hin : InRing g as)
    (hcond : HeadStored as) {later : List Nat} (hlater : ∀ j ∈ later, j = s.targetSlot)
    {a : Attempt g} (h : survivorAmong later as = some a) :
    s.latestOffset = a.slot * g.entrySize
      ∧ ∃ ts, ts < 2 ^ 64 ∧ slice (s.media .entries) (a.slot * g.entrySize) g.entrySize
          = entryFrame P ts a.entry.bytes := by
  induction as generalizing later with
  | nil => cases h
  | cons b older ih =>
    obtain ⟨hlt, hres, hb⟩ := hhead
    unfold HeadStored at hcond
    unfold survivorAmong at h
    by_cases hidx : b.fates.indexOk = true
    · rw [if_pos hidx] at hcond hb
      have hstored : b.stored = true := by rw [hres, hidx, hcond]; rfl
      by_cases hnot : b.slot ∉ later
      · -- the last call whose index write succeeded is the survivor
        rw [if_pos ⟨hstored, hnot⟩] at h
        cases h
        exact ⟨hb.1, hb.2 hstored⟩
      · -- its slot was aimed at again without moving the head: a ring of one slot
        rw [if_neg (fun hc => hnot hc.2)] at h
        obtain ⟨hmem, hslot⟩ := survivorAmong_slot h
        have hsame := hlater b.slot (Decidable.not_not.mp hnot)
        rw [(Log.targetSlot_eq hlt hb.1).1] at hsame
        have hone : g.maxEntries = 1 := by
          unfold Geometry.nextSlot at hsame
          split at hsame
          · omega
          · omega
        have ha := hin a (List.mem_cons_of_mem b hmem)
        exact absurd (List.mem_cons.mpr (Or.inl (show a.slot = b.slot by omega))) hslot
    · rw [if_neg hidx] at hcond hb
      have hstored : b.stored = false := by
        rw [hres, Bool.eq_false_iff.mpr hidx]
        rfl
      rw [if_neg (by rw [hstored]; simp)] at h
      refine ih hb.2 (fun c hc => hin c (List.mem_cons_of_mem b hc)) hcond ?_ h
      intro j hj
      rcases List.mem_cons.mp hj with rfl | hj
      · exact hb.1
      · exact hlater j hj

/-- **Failed appends do not hide the log** as long as the last call whose index
write succeeded also stored its entry: `getLatest` then returns the survivor. -/
theorem getLatest_survivor {s₀ s : Log g} {as : List (Attempt g)} (hrun : Attempts s₀ as s)
    (hlive : Live s₀) (hfit : EntriesFit g) (hcond : HeadStored as) {a : Attempt g}
    (hsurv : survivor as = some a) {dst : Payload} (hput : dst.putData a.entry.bytes = true) :
    ∃ marker, (s.getLatest dst).2 = some (a.entry.bytes, marker) := by
  obtain ⟨hls, hhead⟩ := hrun.head hlive
  obtain ⟨hoff, ts, h64, hslice⟩ := survivorAmong_head hhead (hrun.inRing hlive) hcond
    (fun j hj => by cases hj) hsurv
  obtain ⟨s', hread, -, hts, -⟩ := Log.readFromMedia_some hls.shape.region
    ⟨hfit, h64, a.entry.size, hslice⟩ (some dst)
  refine ⟨⟨ts, s.latestOffset⟩, ?_⟩
  unfold Log.getLatest Log.getByOffset
  rw [hoff, hread]
  simp [Log.accepts, hput, hts]

/-! ## §4. Two appends, the second of which fails. -/

variable (fates : Log.AddFates)

/-- Erased media, `start`, an `addEntry` of `1` that succeeds and one of `2` with the
given fates; each log with the result of the call that left it. -/
def twoAppends :
    Option (Log twoSlots × (Log twoSlots × Bool) × (Log twoSlots × Bool)) :=
  (Log.create twoSlots (erased twoSlots)).start.bind fun s₀ =>
    (s₀.addEntry (.ofBytes [1]) .none).bind fun r₁ =>
      (r₁.1.addEntry (.ofBytes [2]) fates).map fun r₂ => (s₀, r₁, r₂)

/-- The two calls as attempts. -/
def twoAttempts : List (Attempt twoSlots) :=
  [⟨0, ⟨[2], rfl⟩, fates, false⟩, ⟨1, ⟨[1], rfl⟩, .none, true⟩]

/-- The run of `twoAppends`, when its results and targets are as expected. -/
theorem twoAppends_run
    (h : (twoAppends fates).map (fun r => (r.2.1.2, r.2.2.2, r.1.targetSlot, r.2.1.1.targetSlot))
      = some (true, false, 1, 0)) :
    ∃ s₀ s₁ s₂ : Log twoSlots, twoAppends fates = some (s₀, (s₁, true), (s₂, false))
      ∧ Live s₀ ∧ Attempts s₀ (twoAttempts fates) s₂ := by
  rw [Option.map_eq_some_iff] at h
  obtain ⟨⟨s₀, ⟨s₁, b₁⟩, ⟨s₂, b₂⟩⟩, hrun, heq⟩ := h
  simp only [Prod.mk.injEq] at heq
  obtain ⟨rfl, rfl, ht₀, ht₁⟩ := heq
  refine ⟨s₀, s₁, s₂, hrun, ?_, ?_⟩
  all_goals
    unfold twoAppends at hrun
    simp only [Option.bind_eq_some_iff, Option.map_eq_some_iff, Prod.mk.injEq] at hrun
    obtain ⟨s₀', hstart, r₁, hadd₁, r₂, hadd₂, rfl, rfl, rfl⟩ := hrun
  · obtain ⟨s', hstart', hrunning, -⟩ := start_virgin (erased_virgin twoSlots)
    obtain rfl : s' = s₀' := Option.some.inj (hstart'.symm.trans hstart)
    exact hrunning.live
  · have h₁ := Attempts.add (e := ⟨[1], rfl⟩) (Attempts.nil : Attempts s₀' [] s₀') hadd₁
    have h₂ := Attempts.add (e := ⟨[2], rfl⟩) h₁ hadd₂
    rw [ht₀, ht₁] at h₂
    exact h₂

/-- A second append whose index write fails. -/
theorem getLatest_survivor_indexFails : ∃ s₀ s : Log twoSlots,
    Attempts s₀ (twoAttempts ⟨[.fail []], [.fail []], []⟩) s
      ∧ survivor (twoAttempts ⟨[.fail []], [.fail []], []⟩) = some ⟨1, ⟨[1], rfl⟩, .none, true⟩
      ∧ ∃ marker, (s.getLatest (.ofBytes [])).2 = some ([1], marker) := by
  obtain ⟨s₀, s₁, s₂, -, hlive, hrun⟩ :=
    twoAppends_run ⟨[.fail []], [.fail []], []⟩ (by decide +kernel)
  exact ⟨s₀, s₂, hrun, rfl, getLatest_survivor hrun hlive (by decide) rfl rfl rfl⟩

/-- **A failed entry write hides the log**: the first entry was acknowledged and its
slot was never aimed at again, the failed write left its own slot unchanged, and
`getLatest` returns false. -/
theorem getLatest_misses_survivor : ∃ s₀ s₁ s₂ : Log twoSlots,
    twoAppends ⟨[], [], [.fail [], .fail [], .fail []]⟩ = some (s₀, (s₁, true), (s₂, false))
      ∧ Attempts s₀ (twoAttempts ⟨[], [], [.fail [], .fail [], .fail []]⟩) s₂
      ∧ survivor (twoAttempts ⟨[], [], [.fail [], .fail [], .fail []]⟩)
          = some ⟨1, ⟨[1], rfl⟩, .none, true⟩
      ∧ s₂.media .entries = s₁.media .entries
      ∧ (s₂.getLatest (.ofBytes [])).2 = none := by
  obtain ⟨s₀, s₁, s₂, heq, -, hrun⟩ :=
    twoAppends_run ⟨[], [], [.fail [], .fail [], .fail []]⟩ (by decide +kernel)
  have hobs : (twoAppends ⟨[], [], [.fail [], .fail [], .fail []]⟩).map
      (fun r => (decide (r.2.2.1.media .entries = r.2.1.1.media .entries),
        (r.2.2.1.getLatest (.ofBytes [])).2.isNone)) = some (true, true) := by decide +kernel
  rw [heq, Option.map_some, Option.some.injEq, Prod.mk.injEq] at hobs
  exact ⟨s₀, s₁, s₂, heq, hrun, rfl, of_decide_eq_true hobs.1, Option.isNone_iff_eq_none.mp hobs.2⟩

end ColonyCore.Persistent
