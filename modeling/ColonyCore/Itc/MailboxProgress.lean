/-
  ColonyCore.Itc.MailboxProgress
  **THE MAILBOX SERVER NEVER SLEEPS ON WORK.**

  Two ranks fall with every step of the server and are not raised by the posters:

    • `flagRank n` — the steps to the `processEventFlag( n )` call of a flag that is set,
    • `messageRank k` — the steps until the first `k` messages are processed,

  so a bounded number of steps of the server's OWN is enough, whatever the posters do in
  between.  `Inv.serverStep_enabled` says that the server can take them: only a wait on a
  zero count may have to be left to a signal or a timeout.
-/
import ColonyCore.Itc.MailboxServer

namespace ColonyCore.Itc

open List

open Interleaving (run_progress run_invariant)

namespace MailboxServer

variable {μ τ : Type} {w : Nat} {s s' : MailboxServer μ τ w}

/-! ## §1. Event flags. -/

/-- The server's steps up to the next capture of `m_events`. -/
def toCapture : Pc μ w → Nat
  | .capture => 1
  | .recheckRun => 2
  | .timedWait => 3
  | .checkTime _ => 4
  | .checkRun _ => 5
  | .isPending => 6
  | .process _ => 7
  | .get => 8
  | .timers => 9
  | .dispatch _ n => 9 + (w - n)
  | .stopped => 0

/-- Flag `n` has been captured and its turn in the loop is still to come. -/
def Captured (n : Nat) : Pc μ w → Prop
  | .dispatch events k => events.getLsbD n = true ∧ k ≤ n
  | _ => False

instance (n : Nat) (pc : Pc μ w) : Decidable (Captured n pc) := by
  cases pc <;> unfold Captured <;> infer_instance

/-- The steps to the call for flag `n`. -/
def flagRank (n : Nat) (pc : Pc μ w) : Nat :=
  match pc with
  | .dispatch events k => if Captured n (.dispatch events k : Pc μ w) then n - k
    else toCapture (.dispatch events k : Pc μ w) + n
  | pc => toCapture pc + n

/-- Flag `n` is set. -/
def FlagSet (n : Nat) (s : MailboxServer μ τ w) : Prop :=
  s.events.getLsbD n = true ∨ Captured n s.pc

variable {n : Nat}

theorem Goes.flagRank_lt {old pc : Pc μ w} (h : Goes s old pc) (hrun : s.run = true) (n : Nat) :
    flagRank n pc + 1 ≤ flagRank n old := by
  cases h with
  | stops _ hoff | ends hoff =>
    rw [hoff] at hrun
    cases hrun
  | _ =>
    simp only [flagRank, toCapture]
    omega

/-- **The server's step** makes the call for a flag that is set, or comes closer to it. -/
theorem ServerMove.flag (h : ServerMove s s') (hs : Inv s) (hrun : s.run = true)
    (hflag : FlagSet n s) :
    s'.flagCalls = s.flagCalls ++ [n]
      ∨ FlagSet n s' ∧ flagRank n s'.pc + 1 ≤ flagRank n s.pc := by
  have hbit : ¬ Captured n s.pc → s.events.getLsbD n = true := Or.resolve_right hflag
  cases h with
  | goes hpc h =>
    rw [hpc] at hbit ⊢
    exact .inr ⟨.inl (hbit (by cases h <;> exact id)), h.flagRank_lt hrun n⟩
  | takes hpc | gets msg rest hpc hq | processes msg hpc =>
    rw [hpc] at hbit ⊢
    exact .inr ⟨.inl (hbit id), by simp only [flagRank, toCapture]; omega⟩
  | captures hpc =>
    rw [hpc] at hbit ⊢
    have hzero : s.events ≠ 0#w := by
      intro hz
      rw [hz, BitVec.getLsbD_zero] at hbit
      exact nomatch hbit id
    have hcap : Captured n (.dispatch s.events 0 : Pc μ w) := ⟨hbit id, Nat.zero_le n⟩
    refine .inr ⟨.inr ?_, ?_⟩
    · simp only [if_neg hzero]
      exact hcap
    · simp only [if_neg hzero, flagRank, if_pos hcap, toCapture]
      omega
  | dispatches events k hpc =>
    have hk : k < w := hs.dispatching events k hpc
    rw [hpc] at hbit ⊢
    by_cases hcap : Captured n (.dispatch events k : Pc μ w)
    · obtain ⟨hset, hle⟩ := hcap
      have hn : n < w := BitVec.lt_of_getLsbD hset
      rcases Nat.eq_or_lt_of_le hle with rfl | hlt
      · -- its turn has come
        simp [hset]
      · have hnext : k + 1 < w := by omega
        have hcap' : Captured n (.dispatch events (k + 1) : Pc μ w) := ⟨hset, hlt⟩
        refine .inr ⟨.inr ?_, ?_⟩
        · simp only [if_pos hnext]
          exact hcap'
        · simp only [if_pos hnext, flagRank, if_pos hcap',
            if_pos (show Captured n (.dispatch events k : Pc μ w) from ⟨hset, hle⟩)]
          omega
    · -- the flag was set after the capture that is being dispatched
      refine .inr ⟨.inl (hbit hcap), ?_⟩
      by_cases hnext : k + 1 < w
      · have hcap' : ¬ Captured n (.dispatch events (k + 1) : Pc μ w) := by
          intro hc
          exact hcap ⟨hc.1, by have := hc.2; omega⟩
        simp only [if_pos hnext, flagRank, if_neg hcap, if_neg hcap', toCapture]
        omega
      · simp only [if_neg hnext, flagRank, if_neg hcap, toCapture]
        omega

theorem flagRank_le (hn : n < w) (pc : Pc μ w) : flagRank n pc ≤ 2 * w + 8 := by
  cases pc with
  | dispatch events k =>
    simp only [flagRank, toCapture]
    by_cases hcap : Captured n (.dispatch events k : Pc μ w)
    · rw [if_pos hcap]
      omega
    · rw [if_neg hcap]
      omega
  | _ =>
    simp only [flagRank, toCapture]
    omega

variable [DecidableEq τ] [DecidableEq μ]

/-- A flag that is set stays set until its call, and a poster does not move the server. -/
theorem step_flag {a : Act μ τ w} (hs : Inv s) (hrun : s.run = true)
    (hflag : FlagSet n s) (h : s.step a = some s') :
    s'.flagCalls = s.flagCalls ++ [n]
      ∨ FlagSet n s' ∧ flagRank n s'.pc + (if a.isServer then 1 else 0)
          ≤ flagRank n s.pc := by
  rcases step_cases h with ⟨ha, hmove⟩ | ⟨ha, hpost⟩
  · rw [ha]
    exact hmove.flag hs hrun hflag
  · refine .inr ⟨Or.imp (hpost.events n) (fun hcap => ?_) hflag, ?_⟩
    · rw [hpost.pc]
      exact hcap
    · rw [ha, hpost.pc]
      exact le_rfl

/-- The steps of the server in a run. -/
def serverSteps (acts : List (Act μ τ w)) : Nat := acts.countP Act.isServer

/-- **Every flag that is set is followed by its call**, within `2 w + 9` steps of the server. -/
theorem flag_called (hs : Inv s) (hbit : s.events.getLsbD n = true)
    {acts : List (Act μ τ w)} (hrun : Interleaving.run step s acts = some s') (hon : s'.run = true)
    (hsteps : 2 * w + 9 ≤ serverSteps acts) : n ∈ s'.flagCalls.drop s.flagCalls.length := by
  have hn : n < w := BitVec.lt_of_getLsbD hbit
  have hgoal : s'.run = false ∨ n ∈ s'.flagCalls.drop s.flagCalls.length := by
    refine run_progress
      (fun r => Inv r ∧ r.run = true ∧ FlagSet n r ∧ s.flagCalls <+: r.flagCalls)
      (fun r => r.run = false ∨ n ∈ r.flagCalls.drop s.flagCalls.length)
      (fun r => flagRank n r.pc) Act.isServer ?_ ?_ ?_ hrun
    · -- a call that was made stays in the history
      intro r a r' hr hstep
      have hgrows := step_grows hstep
      exact hr.imp hgrows.stays fun hmem => (hgrows.flagCalls.drop _).subset hmem
    · rintro r a r' ⟨hinv, hron, hflag, hprefix⟩ hstep
      have hcalls := (step_grows hstep).flagCalls
      by_cases hron' : r'.run = true
      · rcases step_flag hinv hron hflag hstep with hcall | ⟨hflag', hrank⟩
        · rw [hcall, drop_append_of_le_length hprefix.length_le]
          simp
        · exact .inr ⟨⟨step_inv hinv hstep, hron', hflag', hprefix.trans hcalls⟩, hrank⟩
      · exact .inl (.inl (by simpa using hron'))
    · by_cases hron : s.run = true
      · refine .inr ⟨⟨hs, hron, .inl hbit, prefix_refl _⟩, ?_⟩
        have hle := flagRank_le hn s.pc
        have hcount : 2 * w + 9 ≤ acts.countP Act.isServer := hsteps
        omega
      · exact .inl (.inl (by simpa using hron))
  exact hgoal.resolve_left (by simp [hon])

/-! ## §2. Messages. -/

/-- The server's steps up to the end of the next `process()`, if a message is queued. -/
def toProcess : Pc μ w → Nat
  | .process _ => 1
  | .get => 2
  | .timers => 3
  | .dispatch _ n => 3 + (w - n)
  | .capture => w + 4
  | .recheckRun => w + 5
  | .timedWait => w + 6
  | .checkTime _ => w + 7
  | .checkRun _ => w + 8
  | .isPending => w + 9
  | .stopped => 0

/-- The steps until `k` messages are processed; a pass takes at most `w + 9`. -/
def messageRank (k : Nat) (s : MailboxServer μ τ w) : Nat :=
  (k - s.processed.length - 1) * (w + 9) + toProcess s.pc

omit [DecidableEq τ] [DecidableEq μ] in
/-- **The server's step** processes the message, or comes closer to it. -/
theorem ServerMove.message {k : Nat} (h : ServerMove s s') (hs : Inv s) (hrun : s.run = true)
    (hk : k ≤ s.posted.length) (hmore : s.processed.length < k) :
    k ≤ s'.processed.length ∨ messageRank k s' + 1 ≤ messageRank k s := by
  -- all steps but `process` leave the messages alone
  have hmove : s'.processed = s.processed → toProcess s'.pc + 1 ≤ toProcess s.pc →
      k ≤ s'.processed.length ∨ messageRank k s' + 1 ≤ messageRank k s := by
    intro hsame hle
    unfold messageRank
    rw [hsame]
    omega
  cases h with
  | goes hpc h =>
    cases h with
    | startsOver hq =>
      -- nothing is queued or in hand, so all that was posted is processed
      have hc := hs.conserved
      rw [hpc, hq] at hc
      rw [hc] at hk
      simp [Pc.inHand] at hk
      omega
    | _ => simp_all [toProcess]
  | takes hpc | gets msg rest hpc hq =>
    rw [hpc] at hmove
    exact hmove rfl le_rfl
  | captures hpc =>
    rw [hpc] at hmove
    refine hmove rfl ?_
    by_cases hzero : s.events = 0#w
    · simp only [if_pos hzero, toProcess]
      omega
    · simp only [if_neg hzero, toProcess]
      omega
  | dispatches events n hpc =>
    have hn : n < w := hs.dispatching events n hpc
    rw [hpc] at hmove
    refine hmove rfl ?_
    by_cases hnext : n + 1 < w
    · simp only [if_pos hnext, toProcess]
      omega
    · simp only [if_neg hnext, toProcess]
      omega
  | processes msg hpc =>
    by_cases hdone : k ≤ (s.processed ++ [msg]).length
    · exact .inl hdone
    · rw [length_append, length_singleton] at hdone
      obtain ⟨q, hq⟩ : ∃ q, k = s.processed.length + 2 + q :=
        ⟨k - s.processed.length - 2, by omega⟩
      have hbefore : k - s.processed.length - 1 = q + 1 := by omega
      have hafter : k - (s.processed ++ [msg]).length - 1 = q := by
        rw [length_append, length_singleton]
        omega
      simp only [messageRank, hpc, hbefore, hafter, toProcess, Nat.succ_mul]
      omega

/-- A poster takes nothing out and does not move the server. -/
theorem step_message {a : Act μ τ w} {k : Nat} (hs : Inv s) (hrun : s.run = true)
    (hk : k ≤ s.posted.length) (hmore : s.processed.length < k) (h : s.step a = some s') :
    k ≤ s'.processed.length
      ∨ s'.processed.length < k
        ∧ messageRank k s' + (if a.isServer then 1 else 0) ≤ messageRank k s := by
  rcases step_cases h with ⟨ha, hmove⟩ | ⟨ha, hpost⟩
  · by_cases hdone : k ≤ s'.processed.length
    · exact .inl hdone
    · rw [ha]
      exact .inr ⟨by omega, (hmove.message hs hrun hk hmore).resolve_left hdone⟩
  · unfold messageRank
    rw [ha, hpost.processed, hpost.pc]
    exact .inr ⟨hmore, le_rfl⟩

omit [DecidableEq τ] [DecidableEq μ] in
theorem toProcess_le (pc : Pc μ w) : toProcess pc ≤ w + 9 := by
  cases pc <;> simp only [toProcess] <;> omega

/-- **Everything posted is processed**, a message a pass. -/
theorem messages_processed (hs : Inv s) {acts : List (Act μ τ w)}
    (hrun : Interleaving.run step s acts = some s') (hon : s'.run = true)
    (hsteps : (s.queue.length + 1) * (w + 9) < serverSteps acts) : s.posted <+: s'.processed := by
  have hgoal : s'.run = false ∨ s.posted.length ≤ s'.processed.length := by
    refine run_progress
      (fun r => Inv r ∧ r.run = true ∧ s.posted.length ≤ r.posted.length
        ∧ r.processed.length < s.posted.length)
      (fun r => r.run = false ∨ s.posted.length ≤ r.processed.length)
      (messageRank s.posted.length) Act.isServer ?_ ?_ ?_ hrun
    · intro r a r' hr hstep
      have hgrows := step_grows hstep
      exact hr.imp hgrows.stays fun hle => Nat.le_trans hle hgrows.processed.length_le
    · rintro r a r' ⟨hinv, hron, hposted, hmore⟩ hstep
      have hgrows := step_grows hstep
      by_cases hron' : r'.run = true
      · rcases step_message hinv hron hposted hmore hstep with hdone | ⟨hmore', hrank⟩
        · exact .inl (.inr hdone)
        · exact .inr ⟨⟨step_inv hinv hstep, hron',
            Nat.le_trans hposted hgrows.posted.length_le, hmore'⟩, hrank⟩
      · exact .inl (.inl (by simpa using hron'))
    · by_cases hron : s.run = true
      · by_cases hdone : s.posted.length ≤ s.processed.length
        · exact .inl (.inr hdone)
        · refine .inr ⟨⟨hs, hron, le_rfl, by omega⟩, ?_⟩
          -- at most the queue and one message in hand are not processed yet
          have hlen : s.posted.length ≤ s.processed.length + 1 + s.queue.length := by
            rw [hs.conserved]
            have hhand : s.pc.inHand.length ≤ 1 := by
              cases s.pc <;> simp [Pc.inHand]
            simp only [length_append]
            omega
          have hbound : messageRank s.posted.length s ≤ (s.queue.length + 1) * (w + 9) := by
            unfold messageRank
            have hrest : s.posted.length - s.processed.length - 1 ≤ s.queue.length := by omega
            have hmul := Nat.mul_le_mul_right (w + 9) hrest
            have hpass := toProcess_le s.pc
            rw [Nat.succ_mul]
            omega
          exact Nat.lt_of_le_of_lt hbound hsteps
      · exact .inl (.inl (by simpa using hron))
  -- what is processed is an initial part of what was posted, and long enough
  have hinv' : Inv s' := run_invariant Inv (fun _ _ _ => step_inv) hs hrun
  have hposted : s.posted <+: s'.posted :=
    run_invariant (fun r => s.posted <+: r.posted)
      (fun _ _ _ hr hstep => hr.trans (step_grows hstep).posted) (prefix_refl _) hrun
  have hprocessed : s'.processed <+: s'.posted := by
    rw [hinv'.conserved, append_assoc]
    exact prefix_append _ _
  exact prefix_of_prefix_length_le hposted hprocessed (hgoal.resolve_left (by simp [hon]))

/-! ## §3. The server. -/

omit [DecidableEq τ] [DecidableEq μ] in
/-- **The server is never stuck.**  While nobody asks it to stop, its next step is possible
    wherever it is, except for a wait on a zero count that does not time out. -/
theorem Inv.serverStep_enabled (hs : Inv s) (hon : s.run = true) {late : Bool}
    (hwait : s.pc = .timedWait → s.sema ≠ 0 ∨ late = true) :
    ∃ s', s.serverStep late = some s' := by
  unfold serverStep
  cases hpc : s.pc with
  | timedWait =>
    by_cases hcount : s.sema ≠ 0
    · exact ⟨_, if_pos hcount⟩
    · have hlate : late = true := (hwait hpc).resolve_left hcount
      exact ⟨_, (if_neg hcount).trans (if_pos hlate)⟩
  | get =>
    cases hq : s.queue with
    | nil => exact ⟨_, rfl⟩
    | cons msg rest => exact ⟨_, rfl⟩
  | stopped =>
    -- `appRun` returns only when it was asked to
    rw [hs.ended hpc] at hon
    cases hon
  | _ => exact ⟨_, rfl⟩

/-- **THE MAILBOX SERVER NEVER SLEEPS ON WORK.**  After every interleaving of any posters
    with the server:

    1. the messages processed, in hand and queued are the posted ones, each once and in the
       order of the locked puts;
    2. a server blocked in `timedWait` with a zero count has an empty queue and no event
       flag, unless a poster has still to make its signal;
    3. while nobody asks it to stop, the server's next step is possible, unless it waits on
       a zero count and does not time out;
    4. while nobody asks it to stop, a flag that is set is followed by its call, and a
       posted message by its processing, within a bounded number of the server's steps. -/
theorem server_never_sleeps (acts : List (Act μ τ w)) (s : MailboxServer μ τ w)
    (hrun : Interleaving.run step start acts = some s) :
    s.posted = s.processed ++ s.pc.inHand ++ s.queue
    ∧ (s.pc = .timedWait → s.sema = 0 → (∀ t, s.owes t = false) →
        s.queue = [] ∧ s.events = 0#w)
    ∧ (s.run = true → ∀ late, (s.pc = .timedWait → s.sema ≠ 0 ∨ late = true) →
        ∃ s', s.step (.server late) = some s')
    ∧ ∀ acts' s', Interleaving.run step s acts' = some s' → s'.run = true →
        (∀ n, s.events.getLsbD n = true → 2 * w + 9 ≤ serverSteps acts' →
          n ∈ s'.flagCalls.drop s.flagCalls.length)
        ∧ ((s.queue.length + 1) * (w + 9) < serverSteps acts' → s.posted <+: s'.processed) := by
  have hs : Inv s := run_invariant Inv (fun _ _ _ => step_inv) start_inv hrun
  refine ⟨hs.conserved, fun hpc hsema howes => ?_, fun hon late hwait =>
    hs.serverStep_enabled hon hwait, fun acts' s' hrun' hon => ⟨?_, ?_⟩⟩
  · have hquiet : ¬ s.WakeUp := by
      rintro (hcount | ⟨t, ht⟩)
      · exact hcount hsema
      · rw [howes t] at ht
        cases ht
    have hq : ¬ s.queue ≠ [] := fun hne => hquiet (hs.messages (by rw [hpc]; trivial) hne)
    have hev : ¬ s.events ≠ 0#w := fun hne => hquiet (hs.flags (by rw [hpc]; exact id) hne)
    exact ⟨not_not.mp hq, not_not.mp hev⟩
  · intro n hbit hsteps
    exact flag_called hs hbit hrun' hon hsteps
  · intro hsteps
    exact messages_processed hs hrun' hon hsteps

/-- One poster, one message and the one flag of a one-bit mask: the server goes on, and both
    are processed after 24 steps. -/
theorem server_never_sleeps_one :
    ∃ s s' : MailboxServer Nat Unit 1,
      Interleaving.run step start [.put () 7, .signal (), .notifyEvents () 1#1] = some s
      ∧ (∀ late, ∃ s₁, s.step (.server late) = some s₁)
      ∧ Interleaving.run step s (.signal () :: replicate 24 (.server false)) = some s'
      ∧ 0 ∈ s'.flagCalls.drop s.flagCalls.length ∧ s.posted <+: s'.processed :=
  ⟨_, _, rfl,
    fun late => (server_never_sleeps [.put () 7, .signal (), .notifyEvents () 1#1] _ rfl).2.2.1
      rfl late nofun,
    rfl,
    ((server_never_sleeps [.put () 7, .signal (), .notifyEvents () 1#1] _ rfl).2.2.2
      (.signal () :: replicate 24 (.server false)) _ rfl rfl).1 0 rfl (by decide),
    ((server_never_sleeps [.put () 7, .signal (), .notifyEvents () 1#1] _ rfl).2.2.2
      (.signal () :: replicate 24 (.server false)) _ rfl rfl).2 (by decide)⟩

end MailboxServer

end ColonyCore.Itc
