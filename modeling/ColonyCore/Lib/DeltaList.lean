/-
  ColonyCore.Lib.DeltaList
  **A QUEUE OF DUE TIMES STORED AS DIFFERENCES.**

  Each entry holds the time between the entry before it and itself, so that time
  passing changes the first entry only.  `dues base` gives the absolute times back;
  every operation is stated by what it does to them:

    • `insert` adds one due time (`dues_insert`),
    • `remove` takes one out and gives its difference to the next (`dues_remove`),
    • taking `n` from the head moves the base by `n` (`dues_advance`).
-/
import Mathlib.Data.List.Nodup
import Mathlib.Data.List.Perm.Basic

namespace DeltaList

variable {τ : Type}

/-- The due times of the entries, counted from `base`. -/
def dues : Nat → List (τ × Nat) → List (τ × Nat)
  | _, [] => []
  | base, (t, c) :: rest => (t, base + c) :: dues (base + c) rest

/-- Insert `t` to be due after `c`. -/
def insert (t : τ) : Nat → List (τ × Nat) → List (τ × Nat)
  | c, [] => [(t, c)]
  | c, (u, k) :: rest =>
    if c < k then (t, c) :: (u, k - c) :: rest
    else if c - k = 0 then (u, k) :: (t, 0) :: rest
    else (u, k) :: insert t (c - k) rest

/-- Give a difference to the first entry. -/
def bump (c : Nat) : List (τ × Nat) → List (τ × Nat)
  | [] => []
  | (u, k) :: rest => (u, k + c) :: rest

/-- Take an entry out. -/
def remove [DecidableEq τ] (t : τ) : List (τ × Nat) → List (τ × Nat)
  | [] => []
  | (u, c) :: rest => if u = t then bump c rest else (u, c) :: remove t rest

/-- The entries, whatever their times. -/
def keys (l : List (τ × Nat)) : List τ := l.map Prod.fst

@[simp] theorem dues_nil (base : Nat) : dues base ([] : List (τ × Nat)) = [] := rfl

@[simp] theorem dues_cons (base : Nat) (t : τ) (c : Nat) (rest : List (τ × Nat)) :
    dues base ((t, c) :: rest) = (t, base + c) :: dues (base + c) rest := rfl

@[simp] theorem keys_cons (p : τ × Nat) (l : List (τ × Nat)) : keys (p :: l) = p.1 :: keys l := rfl

/-- Absolute or relative, the entries are the same. -/
@[simp] theorem keys_dues (base : Nat) (l : List (τ × Nat)) : keys (dues base l) = keys l := by
  induction l generalizing base with
  | nil => rfl
  | cons p rest ih =>
    obtain ⟨t, c⟩ := p
    simp only [dues_cons, keys_cons, ih]

/-- Nothing is due before the base. -/
theorem base_le_of_mem_dues {base : Nat} {l : List (τ × Nat)} {p : τ × Nat} (h : p ∈ dues base l) :
    base ≤ p.2 := by
  induction l generalizing base with
  | nil => simp at h
  | cons q rest ih =>
    obtain ⟨t, c⟩ := q
    rcases List.mem_cons.mp h with rfl | h
    · exact Nat.le_add_right base c
    · exact Nat.le_trans (Nat.le_add_right base c) (ih h)

/-- The first entry is due first. -/
theorem head_le_of_mem_dues {base c : Nat} {t : τ} {rest : List (τ × Nat)} {p : τ × Nat}
    (h : p ∈ dues base ((t, c) :: rest)) : base + c ≤ p.2 := by
  rcases List.mem_cons.mp h with rfl | h
  · exact Nat.le_refl _
  · exact base_le_of_mem_dues h

/-- **Time passes**: the head gives `n` to the base. -/
theorem dues_advance {base c n : Nat} (t : τ) (rest : List (τ × Nat)) (h : n ≤ c) :
    dues (base + n) ((t, c - n) :: rest) = dues base ((t, c) :: rest) := by
  simp only [dues_cons]
  rw [show base + n + (c - n) = base + c by omega]

/-- The next entry takes over the difference of one that leaves. -/
theorem dues_bump (base c : Nat) (l : List (τ × Nat)) :
    dues base (bump c l) = dues (base + c) l := by
  cases l with
  | nil => rfl
  | cons p rest =>
    obtain ⟨t, k⟩ := p
    simp only [bump, dues_cons]
    rw [show base + (k + c) = base + c + k by omega]

/-- **An insertion** adds its due time and changes no other. -/
theorem dues_insert (t : τ) (l : List (τ × Nat)) : ∀ base c,
    (dues base (insert t c l)).Perm ((t, base + c) :: dues base l) := by
  induction l with
  | nil =>
    intro base c
    exact List.Perm.refl _
  | cons p rest ih =>
    obtain ⟨u, k⟩ := p
    intro base c
    unfold insert
    split
    next hlt =>
      -- in front: the entry after it counts from the new one
      simp only [dues_cons]
      rw [show base + c + (k - c) = base + k by omega]
    next hge =>
      split
      next htie =>
        rw [show base + c = base + k by omega]
        exact List.Perm.swap _ _ _
      next hlater =>
        have h := (ih (base + k) (c - k)).cons (u, base + k)
        rw [show base + k + (c - k) = base + c by omega] at h
        exact h.trans (List.Perm.swap _ _ _)

section Remove

variable [DecidableEq τ]

/-- **A removal** takes out the times of `t` and changes no other. -/
theorem dues_remove (t : τ) {l : List (τ × Nat)} (h : (keys l).Nodup) : ∀ base,
    dues base (remove t l) = (dues base l).filter fun p => p.1 ≠ t := by
  induction l with
  | nil => intro base; rfl
  | cons p rest ih =>
    obtain ⟨u, c⟩ := p
    obtain ⟨hu, hrest⟩ := List.nodup_cons.mp h
    intro base
    unfold remove
    by_cases hut : u = t
    · -- the keys are distinct: nothing after the entry is taken out
      subst hut
      rw [if_pos rfl, dues_bump, dues_cons, List.filter_cons_of_neg (by simp)]
      symm
      rw [List.filter_eq_self]
      intro p hp
      have hmem : p.1 ∈ keys (dues (base + c) rest) := List.mem_map_of_mem hp
      rw [keys_dues] at hmem
      rw [decide_eq_true_iff]
      rintro rfl
      exact hu hmem
    · rw [if_neg hut, dues_cons, dues_cons, List.filter_cons_of_pos (by simpa using hut), ih hrest]

end Remove

end DeltaList
