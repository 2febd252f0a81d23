/-
  ColonyCore.Lib.Interleaving
  **RUNS OF INTERLEAVED STEPS.**

  A system of threads is a partial step function: `step s a = none` says that action `a`
  is not possible in state `s`.  A run is a list of actions, whoever's they are.

    • `run_invariant`, `run_invariant_along` — what every step keeps, every run keeps,
    • `along_imp`, `along_congr` — conditions on the steps of a run that imply one another,
    • `run_flag` — a flag that stays up is down exactly after a run that never raised it,
    • `run_progress` — a rank that falls with every counted action: after enough of them
      the goal has been reached, whatever other actions are between them,
    • `threads_update` — how many threads are at a place, when one of them moves,
    • `IsTrace.fair`, `leaves_of_rank` — infinite runs: what a fair action leads to, and what
      comes to an end.
-/
import Mathlib.Algebra.Order.BigOperators.Group.Finset
import Mathlib.Algebra.BigOperators.Group.Finset.Piecewise
import Mathlib.Data.Fintype.Basic

namespace Interleaving

open Function

variable {S A : Type} {step : S → A → Option S} {s s' : S} {acts : List A}

/-- The state after a list of actions. -/
def run (step : S → A → Option S) (s : S) : List A → Option S
  | [] => some s
  | a :: acts => (step s a).bind fun s' => run step s' acts

theorem run_cons {a : A} (h : run step s (a :: acts) = some s') :
    ∃ s₁, step s a = some s₁ ∧ run step s₁ acts = some s' :=
  Option.bind_eq_some_iff.mp h

variable (I : S → Prop)

/-- **The invariant rule.** -/
theorem run_invariant (hstep : ∀ s a s', I s → step s a = some s' → I s')
    (hs : I s) (h : run step s acts = some s') : I s' := by
  induction acts generalizing s with
  | nil =>
    cases h
    exact hs
  | cons a acts ih =>
    obtain ⟨s₁, hs₁, hrest⟩ := run_cons h
    exact ih (hstep s a s₁ hs hs₁) hrest

/-- `C` holds of every step of a run, in the state before it. -/
def Along (step : S → A → Option S) (C : S → A → Prop) : S → List A → Prop
  | _, [] => True
  | s, a :: acts => C s a ∧ ∀ s', step s a = some s' → Along step C s' acts

variable {C : S → A → Prop}

theorem along_cons {a : A} (hstep : step s a = some s') (hC : C s a)
    (hrest : Along step C s' acts) : Along step C s (a :: acts) := by
  refine ⟨hC, fun s₁ hs₁ => ?_⟩
  obtain rfl : s' = s₁ := Option.some.inj (hstep.symm.trans hs₁)
  exact hrest

/-- In a system whose actions are always possible. -/
theorem along_cons_total {next : S → A → S} {a : A} :
    Along (fun s a => some (next s a)) C s (a :: acts)
      ↔ C s a ∧ Along (fun s a => some (next s a)) C (next s a) acts :=
  ⟨fun h => ⟨h.1, h.2 _ rfl⟩, fun h => along_cons rfl h.1 h.2⟩

instance Along.decidable [∀ s a, Decidable (C s a)] :
    (s : S) → (acts : List A) → Decidable (Along step C s acts)
  | _, [] => isTrue trivial
  | s, a :: acts =>
    match h : step s a with
    | none => decidable_of_iff (C s a)
        ⟨fun hC => ⟨hC, fun s' hs' => by rw [h] at hs'; cases hs'⟩, And.left⟩
    | some s' =>
      have := Along.decidable s' acts
      decidable_of_iff (C s a ∧ Along step C s' acts)
        ⟨fun hC => along_cons h hC.1 hC.2, fun hC => ⟨hC.1, hC.2 s' h⟩⟩

/-- A condition that follows from another one wherever that has held so far. -/
theorem along_imp {D : S → A → Prop} (hCD : ∀ s a, a ∈ acts → I s → C s a → D s a)
    (hkeep : ∀ s a s', a ∈ acts → I s → C s a → step s a = some s' → I s') (hs : I s)
    (h : Along step C s acts) : Along step D s acts := by
  induction acts generalizing s with
  | nil => trivial
  | cons a acts ih =>
    obtain ⟨hC, hrest⟩ := h
    refine ⟨hCD s a List.mem_cons_self hs hC, fun s' hs' => ?_⟩
    exact ih (fun s b hb => hCD s b (List.mem_cons_of_mem _ hb))
      (fun s b s' hb => hkeep s b s' (List.mem_cons_of_mem _ hb))
      (hkeep s a s' List.mem_cons_self hs hC hs') (hrest s' hs')

/-- Two conditions that agree wherever one of them has held so far. -/
theorem along_congr {D : S → A → Prop}
    (hCD : ∀ s a, a ∈ acts → I s → (C s a ↔ D s a))
    (hkeep : ∀ s a s', I s → C s a → step s a = some s' → I s') (hs : I s) :
    Along step C s acts ↔ Along step D s acts :=
  ⟨along_imp I (fun s a ha hI => (hCD s a ha hI).mp) (fun s a s' _ => hkeep s a s') hs,
    along_imp I (fun s a ha hI => (hCD s a ha hI).mpr)
      (fun s a s' ha hI hD => hkeep s a s' hI ((hCD s a ha hI).mpr hD)) hs⟩

/-- **The invariant rule** for runs whose steps all meet a condition. -/
theorem run_invariant_along
    (hstep : ∀ s a s', I s → C s a → step s a = some s' → I s') (hs : I s)
    (halong : Along step C s acts) (h : run step s acts = some s') : I s' := by
  induction acts generalizing s with
  | nil =>
    cases h
    exact hs
  | cons a acts ih =>
    obtain ⟨s₁, hs₁, hrest⟩ := run_cons h
    exact ih (hstep s a s₁ hs halong.1 hs₁) (halong.2 s₁ hs₁) hrest

/-- **A flag that stays up**, in a system where every action is possible: it is down after a
    run exactly if it was down before and every step met the condition that keeps it down. -/
theorem run_flag (C : S → A → Prop) (flag : S → Bool)
    (hstep : ∀ s a, I s → ∃ s', step s a = some s' ∧ I s'
      ∧ (flag s' = false ↔ flag s = false ∧ C s a))
    (hs : I s) (acts : List A) :
    ∃ s', run step s acts = some s' ∧ I s'
      ∧ (flag s' = false ↔ flag s = false ∧ Along step C s acts) := by
  induction acts generalizing s with
  | nil => exact ⟨s, rfl, hs, by simp [Along]⟩
  | cons a acts ih =>
    obtain ⟨s₁, hs₁, hI₁, hflag₁⟩ := hstep s a hs
    obtain ⟨s', hrest, hI', hflag'⟩ := ih hI₁
    refine ⟨s', ?_, hI', hflag'.trans ?_⟩
    · show (step s a).bind _ = _
      rw [hs₁]
      exact hrest
    · rw [hflag₁, and_assoc]
      refine and_congr_right fun _ => ⟨fun h => along_cons hs₁ h.1 h.2, fun h => ⟨h.1, h.2 s₁ hs₁⟩⟩

/-- **The progress rule**: as long as the goal is not reached, a counted action lowers the
    rank and no other action raises it. -/
theorem run_progress (I goal : S → Prop) (rank : S → Nat) (counts : A → Bool)
    (hgoal : ∀ s a s', goal s → step s a = some s' → goal s')
    (hstep : ∀ s a s', I s → step s a = some s' → goal s' ∨ I s'
      ∧ rank s' + (if counts a then 1 else 0) ≤ rank s)
    (hs : goal s ∨ I s ∧ rank s < acts.countP counts) (h : run step s acts = some s') :
    goal s' := by
  induction acts generalizing s with
  | nil =>
    cases h
    refine hs.resolve_right ?_
    rintro ⟨-, hlt⟩
    exact Nat.not_lt_zero _ hlt
  | cons a acts ih =>
    obtain ⟨s₁, hs₁, hrest⟩ := run_cons h
    refine ih ?_ hrest
    rcases hs with hdone | ⟨hI, hlt⟩
    · exact .inl (hgoal s a s₁ hdone hs₁)
    · rcases hstep s a s₁ hI hs₁ with hdone | ⟨hI₁, hle⟩
      · exact .inl hdone
      · refine .inr ⟨hI₁, ?_⟩
        rw [List.countP_cons] at hlt
        omega

/-! ## Counting threads. -/

section Threads

variable {τ σ : Type} [Fintype τ] {P : σ → Bool} {f : τ → σ} {t : τ}

/-- The number of threads whose place satisfies `P`. -/
def threads (P : σ → Bool) (f : τ → σ) : Nat := ∑ t, if P (f t) then 1 else 0

theorem threads_split [DecidableEq τ] (f : τ → σ) (t : τ) :
    threads P f
      = (if P (f t) then 1 else 0) + ∑ u ∈ Finset.univ.erase t, if P (f u) then 1 else 0 :=
  (Finset.add_sum_erase _ _ (Finset.mem_univ t)).symm

theorem threads_pos [DecidableEq τ] (h : P (f t) = true) : 0 < threads P f := by
  rw [threads_split f t, if_pos h]
  omega

theorem exists_of_threads_pos (h : 0 < threads P f) : ∃ t, P (f t) = true := by
  obtain ⟨t, _, ht⟩ := Finset.exists_ne_zero_of_sum_ne_zero (Nat.pos_iff_ne_zero.mp h)
  refine ⟨t, ?_⟩
  by_contra hnot
  exact ht (if_neg hnot)

/-- **One thread moves.** -/
theorem threads_update [DecidableEq τ] (v : σ) :
    threads P (update f t v) + (if P (f t) then 1 else 0)
      = threads P f + if P v then 1 else 0 := by
  have hrest : (∑ u ∈ Finset.univ.erase t, if P (update f t v u) then 1 else 0)
      = ∑ u ∈ Finset.univ.erase t, if P (f u) then 1 else 0 := by
    refine Finset.sum_congr rfl fun u hu => ?_
    rw [update_of_ne (Finset.ne_of_mem_erase hu)]
  rw [threads_split (update f t v) t, threads_split f t, update_self]
  omega

/-- A thread comes from elsewhere. -/
theorem threads_enter [DecidableEq τ] (h : P (f t) = false) (v : σ) :
    threads P (update f t v) = threads P f + if P v then 1 else 0 := by
  have hmove := threads_update (P := P) (f := f) (t := t) v
  rw [if_neg (by simp [h])] at hmove
  exact hmove

/-- A thread goes elsewhere. -/
theorem threads_leave [DecidableEq τ] (h : P (f t) = true) {v : σ} (hv : P v = false) :
    threads P (update f t v) + 1 = threads P f := by
  have hmove := threads_update (P := P) (f := f) (t := t) v
  rw [if_pos h, if_neg (by simp [hv])] at hmove
  exact hmove

/-- As many threads as a list without repetition names. -/
theorem length_le_threads [DecidableEq τ] {l : List τ} (hnodup : l.Nodup)
    (h : ∀ t ∈ l, P (f t) = true) : l.length ≤ threads P f := by
  calc l.length = ∑ t ∈ l.toFinset, if P (f t) then 1 else 0 := by
        rw [Finset.sum_congr rfl fun t ht => if_pos (h t (List.mem_toFinset.mp ht)),
          ← Finset.card_eq_sum_ones, List.toFinset_card_of_nodup hnodup]
    _ ≤ threads P f := Finset.sum_le_univ_sum_of_nonneg fun _ => Nat.zero_le _

/-- No more threads than a list names. -/
theorem threads_le_length [DecidableEq τ] {l : List τ} (h : ∀ t, P (f t) = true → t ∈ l) :
    threads P f ≤ l.length := by
  calc threads P f ≤ ∑ t, if t ∈ l.toFinset then 1 else 0 := by
        refine Finset.sum_le_sum fun t _ => ?_
        split
        next ht => rw [if_pos (List.mem_toFinset.mpr (h t ht))]
        · exact Nat.zero_le _
    _ = l.toFinset.card := by
        rw [Finset.sum_ite_mem, Finset.univ_inter, ← Finset.card_eq_sum_ones]
    _ ≤ l.length := List.toFinset_card_le l

end Threads

/-! ## Traces. -/

section Traces

variable {σ : Nat → S} {act : Nat → Option A} {n : Nat}

/-- An infinite run; `none` is a pause. -/
def IsTrace (step : S → A → Option S) (σ : Nat → S) (act : Nat → Option A) : Prop :=
  ∀ n, match act n with
    | none => σ (n + 1) = σ n
    | some a => step (σ n) a = some (σ (n + 1))

/-- **The invariant rule** of a trace. -/
theorem IsTrace.invariant (htrace : IsTrace step σ act) (I : S → Prop)
    (hstep : ∀ s a s', I s → step s a = some s' → I s') (hzero : I (σ 0)) (n : Nat) : I (σ n) := by
  induction n with
  | zero => exact hzero
  | succ n ih =>
    have hn := htrace n
    cases hact : act n with
    | none =>
      simp only [hact] at hn
      rw [hn]
      exact ih
    | some a =>
      simp only [hact] at hn
      exact hstep _ a _ ih hn

/-- What lasts until `Q`, lasts to any later time or meets `Q` before it. -/
theorem IsTrace.lasts (htrace : IsTrace step σ act) (P Q : S → Prop)
    (hkeep : ∀ s a s', P s → step s a = some s' → P s' ∨ Q s') (hP : P (σ n)) {m : Nat}
    (hm : n ≤ m) : P (σ m) ∨ ∃ k, n ≤ k ∧ k ≤ m ∧ Q (σ k) := by
  induction m, hm using Nat.le_induction with
  | base => exact .inl hP
  | succ m hm ih =>
    rcases ih with hP | ⟨k, hk, hle, hQ⟩
    · have hstep := htrace m
      cases hact : act m with
      | none =>
        simp only [hact] at hstep
        exact .inl (hstep ▸ hP)
      | some a =>
        simp only [hact] at hstep
        exact (hkeep _ a _ hP hstep).imp_right fun hQ => ⟨m + 1, by omega, Nat.le_refl _, hQ⟩
    · exact .inr ⟨k, hk, by omega, hQ⟩

/-- **The fairness rule**: `P` lasts until `Q`, and the action `a`, which is taken at some time,
    leads from `P` to `Q`. -/
theorem IsTrace.fair (htrace : IsTrace step σ act) (P Q : S → Prop) {a : A}
    (hkeep : ∀ s b s', P s → step s b = some s' → P s' ∨ Q s')
    (hdone : ∀ s s', P s → step s a = some s' → Q s')
    (hP : P (σ n)) {m : Nat} (hm : n ≤ m) (hact : act m = some a) : ∃ m, n ≤ m ∧ Q (σ m) := by
  rcases htrace.lasts P Q hkeep hP hm with hP' | ⟨k, hk, _, hQ⟩
  · have hstep := htrace m
    simp only [hact] at hstep
    exact ⟨m + 1, by omega, hdone _ _ hP' hstep⟩
  · exact ⟨k, hk, hQ⟩

/-- **The rank rule**: what lowers a rank again and again comes to an end. -/
theorem leaves_of_rank (stays : S → Prop) (rank : S → Nat)
    (progress : ∀ n, stays (σ n) → ∃ m, n ≤ m ∧ (stays (σ m) → rank (σ m) < rank (σ n)))
    (n : Nat) : ∃ m, n ≤ m ∧ ¬ stays (σ m) := by
  induction hr : rank (σ n) using Nat.strong_induction_on generalizing n with
  | _ r ih =>
    by_cases hstays : stays (σ n)
    · obtain ⟨m, hm, hlower⟩ := progress n hstays
      by_cases hstays' : stays (σ m)
      · obtain ⟨k, hk, hleft⟩ := ih _ (hr ▸ hlower hstays') m rfl
        exact ⟨k, by omega, hleft⟩
      · exact ⟨m, hm, hstays'⟩
    · exact ⟨n, Nat.le_refl n, hstays⟩

end Traces

end Interleaving
