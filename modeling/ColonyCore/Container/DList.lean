/-
  ColonyCore.Container.DList
  **INTRUSIVE LISTS AS SEQUENCES (`Cpl/Container/DList.h`, `Cpl/Container/Item.cpp`).**

  An item carries its own links, so it can be in ONE list at a time; the back
  pointer `m_inListPtr_` says in which.  `Lists ι σ` is the state of all lists
  (named by `ι`) over all items, and carries the agreement of the sequences with
  the back pointers:

    • `put`    fails on an item that is in a list (the double-insert error),
    • `remove` does nothing unless the item is in THIS list,
    • `get`    takes the head.
-/
import Mathlib.Logic.Function.Basic
import Mathlib.Data.List.Nodup

namespace ColonyCore.Container

open Function

/-- The lists and the back pointers of their items. -/
structure Lists (ι σ : Type) where
  content : ι → List σ
  inList : σ → Option ι
  mem_iff : ∀ l s, s ∈ content l ↔ inList s = some l
  nodup : ∀ l, (content l).Nodup

namespace Lists

variable {ι σ : Type}

/-- No list has an item. -/
def empty : Lists ι σ where
  content _ := []
  inList _ := none
  mem_iff _ _ := by simp
  nodup _ := List.nodup_nil

/-- The back pointers determine how long a list is. -/
theorem length_content (L : Lists ι σ) {l : ι} {items : List σ} (hnodup : items.Nodup)
    (h : ∀ t, L.inList t = some l ↔ t ∈ items) : (L.content l).length = items.length := by
  have hperm : (L.content l).Perm items := by
    rw [List.perm_ext_iff_of_nodup (L.nodup l) hnodup]
    intro t
    rw [L.mem_iff, h]
  exact hperm.length_eq

/-- A free item is in no list. -/
theorem notMem_of_free {L : Lists ι σ} {s : σ} (h : L.inList s = none) (k : ι) :
    s ∉ L.content k := by
  rw [L.mem_iff, h]
  nofun

variable [DecidableEq ι]

theorem nodup_update {content : ι → List σ} (h : ∀ k, (content k).Nodup) {l : ι} {xs : List σ}
    (hxs : xs.Nodup) : ∀ k, (update content l xs k).Nodup :=
  (forall_update_iff content fun _ => List.Nodup).mpr ⟨hxs, fun k _ => h k⟩

variable [DecidableEq σ]

/-- The marks agree when a free item goes into one list. -/
theorem mem_update_iff {L : Lists ι σ} {l : ι} {s : σ} {xs : List σ} (hfree : L.inList s = none)
    (hxs : ∀ t, t ∈ xs ↔ t = s ∨ t ∈ L.content l) (k : ι) (t : σ) :
    t ∈ update L.content l xs k
      ↔ update L.inList s (some l) t = some k := by
  by_cases hk : k = l
  · subst hk
    rw [update_self, hxs, L.mem_iff]
    by_cases hts : t = s
    · simp [hts]
    · simp [hts]
  · rw [update_of_ne hk]
    by_cases hts : t = s
    · subst hts
      simp [notMem_of_free hfree k, Ne.symm hk]
    · simp [hts, L.mem_iff]

/-- `put`: append at the tail; `none` is the double-insert error of `insert_`. -/
def put (L : Lists ι σ) (l : ι) (s : σ) : Option (Lists ι σ) :=
  if hfree : L.inList s = none then
    some
      { content := update L.content l (L.content l ++ [s])
        inList := update L.inList s (some l)
        mem_iff := mem_update_iff hfree fun t => by simp [or_comm]
        nodup := nodup_update L.nodup <| List.nodup_append_comm.mpr <|
          List.nodup_cons.mpr ⟨notMem_of_free hfree l, L.nodup l⟩ }
  else none

/-- `remove`: unlink an item of this list. -/
def remove (L : Lists ι σ) (l : ι) (s : σ) : Lists ι σ :=
  if hin : L.inList s = some l then
    { content := update L.content l ((L.content l).erase s)
      inList := update L.inList s none
      mem_iff := by
        intro k t
        by_cases hk : k = l
        · subst hk
          rw [update_self, (L.nodup k).mem_erase_iff, L.mem_iff]
          by_cases hts : t = s
          · simp [hts]
          · simp [hts]
        · rw [update_of_ne hk, L.mem_iff]
          by_cases hts : t = s
          · subst hts
            simp [hin, Ne.symm hk]
          · simp [hts]
      nodup := nodup_update L.nodup ((L.nodup l).erase s) }
  else L

/-- `get`: unlink the head. -/
def get (L : Lists ι σ) (l : ι) : Option (σ × Lists ι σ) :=
  match L.content l with
  | [] => none
  | s :: _ => some (s, L.remove l s)

variable {L L' : Lists ι σ} {l : ι} {s : σ}

/-! ## §1. What the operations do. -/

/-- A free item is appended. -/
theorem put_free (L : Lists ι σ) (l : ι) (h : L.inList s = none) :
    ∃ L', L.put l s = some L' ∧ L'.content = update L.content l (L.content l ++ [s])
      ∧ L'.inList = update L.inList s (some l) := by
  refine ⟨_, dif_pos h, rfl, rfl⟩

theorem remove_of_in (h : L.inList s = some l) :
    (L.remove l s).content = update L.content l ((L.content l).erase s)
    ∧ (L.remove l s).inList = update L.inList s none := by
  unfold remove
  rw [dif_pos h]
  exact ⟨rfl, rfl⟩

theorem remove_of_not_in (h : L.inList s ≠ some l) : L.remove l s = L := by
  unfold remove
  rw [dif_neg h]

theorem get_nil (h : L.content l = []) : L.get l = none := by
  unfold get
  rw [h]

/-- The head is unlinked. -/
theorem get_cons {rest : List σ} (h : L.content l = s :: rest) :
    ∃ L', L.get l = some (s, L') ∧ L'.content = update L.content l rest
      ∧ L'.inList = update L.inList s none := by
  have hin : L.inList s = some l := by
    rw [← L.mem_iff, h]
    exact List.mem_cons_self
  obtain ⟨hcontent, hinList⟩ := remove_of_in hin
  refine ⟨L.remove l s, ?_, ?_, hinList⟩
  · unfold get
    rw [h]
  · rw [hcontent, h, List.erase_cons_head]

/-- The back pointers after a removal. -/
theorem inList_remove (L : Lists ι σ) (l : ι) (s t : σ) :
    (L.remove l s).inList t
      = if t = s ∧ L.inList s = some l then none else L.inList t := by
  by_cases hin : L.inList s = some l
  · rw [(remove_of_in hin).2]
    by_cases hts : t = s
    · subst hts
      simp [hin]
    · simp [hts]
  · rw [remove_of_not_in hin, if_neg (fun h => hin h.2)]

end Lists

end ColonyCore.Container
