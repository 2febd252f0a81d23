/-
  ColonyCore.Container.ListSpec
  **THE INTRUSIVE LISTS AS AN ABSTRACT DATA TYPE.**

  The operations of `SList.h` and `DList.h` on `Lists`, the sequences that know where
  each item is.  Nothing here has links: an insertion is an index, a removal erases.

    • `insertAt` — every insertion of a free item; an item that is in a list stays there,
    • `getLast`, `clear`, `move` — the operations `Container.DList` does not have,
    • `Op`, `apply` — one call, its answer and the lists after it.
-/
import Mathlib.Data.List.Perm.Basic
import ColonyCore.Container.DList

namespace ColonyCore.Container

open Function List

namespace Lists

/-! ## §1. The lists are determined by their sequences. -/

section Ext

variable {ι σ : Type} {L L' : Lists ι σ}

theorem ext_content (h : L.content = L'.content) : L = L' := by
  have hin : L.inList = L'.inList := by
    funext s
    refine Option.ext fun l => ?_
    rw [← L.mem_iff, ← L'.mem_iff, h]
  cases L
  cases L'
  cases h
  cases hin
  rfl

/-- No item is in two lists. -/
theorem eq_of_mem {l k : ι} {s : σ} (hl : s ∈ L.content l) (hk : s ∈ L.content k) : l = k := by
  rw [L.mem_iff] at hl hk
  rw [hl] at hk
  exact Option.some.inj hk

end Ext

/-! ## §2. The operations. -/

variable {ι σ : Type} [DecidableEq ι] [DecidableEq σ]

/-- A free item goes to position `i`; an item that is in a list is left where it is. -/
def insertAt (L : Lists ι σ) (l : ι) (i : Nat) (s : σ) : Lists ι σ :=
  if h : L.inList s = none ∧ i ≤ (L.content l).length then
    { content := update L.content l ((L.content l).insertIdx i s)
      inList := update L.inList s (some l)
      mem_iff := mem_update_iff h.1 fun _ => mem_insertIdx h.2
      nodup := nodup_update L.nodup <| (perm_insertIdx s _ h.2).nodup_iff.mpr <|
        nodup_cons.mpr ⟨notMem_of_free h.1 l, L.nodup l⟩ }
  else L

/-- The last item is unlinked. -/
def getLast (L : Lists ι σ) (l : ι) : Option (σ × Lists ι σ) :=
  match (L.content l).getLast? with
  | none => none
  | some s => some (s, L.remove l s)

/-- All items of a list become free. -/
def clear (L : Lists ι σ) (l : ι) : Lists ι σ where
  content := update L.content l []
  inList s := if L.inList s = some l then none else L.inList s
  mem_iff k s := by
    by_cases hk : k = l
    · subst hk
      simp
    · rw [update_of_ne hk, L.mem_iff]
      by_cases hs : L.inList s = some l
      · simp [hs, Ne.symm hk]
      · simp [hs]
  nodup := nodup_update L.nodup nodup_nil

/-- The items of `src` replace those of `dst`. -/
def move (L : Lists ι σ) (src dst : ι) : Lists ι σ :=
  if h : src = dst then L.clear dst else
    { content := update (update L.content dst (L.content src)) src []
      inList s :=
        if L.inList s = some src then some dst
        else if L.inList s = some dst then none
        else L.inList s
      mem_iff := by
        intro k s
        by_cases hks : k = src
        · subst hks
          by_cases hs : L.inList s = some k
          · simp [hs, Ne.symm h]
          · by_cases hd : L.inList s = some dst
            · simp [hd, Ne.symm h]
            · simp [hs, hd]
        · rw [update_of_ne hks]
          by_cases hkd : k = dst
          · subst hkd
            rw [update_self, L.mem_iff]
            by_cases hs : L.inList s = some src
            · simp [hs]
            · simp [hs]
          · rw [update_of_ne hkd, L.mem_iff]
            by_cases hs : L.inList s = some src
            · simp [hs, Ne.symm hks, Ne.symm hkd]
            · by_cases hd : L.inList s = some dst
              · simp [hd, Ne.symm h, Ne.symm hkd]
              · simp [hs, hd]
      nodup := nodup_update (nodup_update L.nodup (L.nodup src)) nodup_nil }

variable {L : Lists ι σ} {l : ι} {s : σ} {a b : List σ}

/-- A list cut anywhere takes a free item at the cut. -/
theorem insertAt_split (hfree : L.inList s = none) (hsplit : L.content l = a ++ b) :
    (L.insertAt l a.length s).content = update L.content l (a ++ s :: b)
    ∧ (L.insertAt l a.length s).inList = update L.inList s (some l) := by
  have hidx : (L.content l).insertIdx a.length s = a ++ s :: b := by
    rw [hsplit]
    clear hsplit
    induction a with
    | nil => rfl
    | cons x a ih => simp [ih]
  unfold insertAt
  rw [dif_pos ⟨hfree, by simp [hsplit]⟩]
  exact ⟨congrArg (update L.content l) hidx, rfl⟩

theorem insertAt_busy (h : L.inList s ≠ none) (i : Nat) : L.insertAt l i s = L := by
  unfold insertAt
  rw [dif_neg (fun hc => h hc.1)]

variable (hsplit : L.content l = a ++ s :: b)

include hsplit

omit [DecidableEq ι] [DecidableEq σ] in
/-- The items before a position are not the one at it. -/
theorem notMem_of_split : s ∉ a := by
  have hnodup := L.nodup l
  rw [hsplit, nodup_append] at hnodup
  exact fun hs => hnodup.2.2 s hs s mem_cons_self rfl

/-- Taking an item out of the middle. -/
theorem remove_split :
    (L.remove l s).content = update L.content l (a ++ b)
    ∧ (L.remove l s).inList = update L.inList s none := by
  have hin : L.inList s = some l := by
    rw [← L.mem_iff, hsplit]
    simp
  obtain ⟨hcontent, hinList⟩ := remove_of_in hin
  rw [hsplit, erase_append_right _ (notMem_of_split hsplit), erase_cons_head] at hcontent
  exact ⟨hcontent, hinList⟩

omit [DecidableEq ι] in
/-- Where an item stands in its list. -/
theorem idxOf_split : (L.content l).idxOf s = a.length := by
  have hfresh := notMem_of_split hsplit
  rw [hsplit, idxOf_append_of_notMem hfresh, idxOf_cons_self, Nat.add_zero]

end Lists

/-! ## §3. Calls on a set of lists. -/

/-- A list object: the items of both kinds share the links and the owner mark. -/
inductive ListAddr (σ δ : Type)
  | slist (l : σ)
  | dlist (l : δ)
  deriving DecidableEq

/-- One call.  `move` is typed: source and destination are of one kind. -/
inductive ListOp (σ δ ι : Type)
  | put (l : ListAddr σ δ) (item : ι)
  | putFirst (l : ListAddr σ δ) (item : ι)
  | insertBefore (l : ListAddr σ δ) (before item : ι)
  | insertAfter (l : ListAddr σ δ) (after item : ι)
  | remove (l : ListAddr σ δ) (item : ι)
  | get (l : ListAddr σ δ)
  | getLast (l : ListAddr σ δ)
  | moveSList (src dst : σ)
  | moveDList (src dst : δ)
  | clearTheList (l : ListAddr σ δ)

/-- What a call returns. -/
inductive ListAnswer (ι : Type)
  | void
  | flag (b : Bool)
  | item (x : Option ι)
  deriving DecidableEq

namespace Lists

variable {σ δ ι : Type} [DecidableEq σ] [DecidableEq δ] [DecidableEq ι]

/-- The answer of `get` and `getLast`. -/
def taken (L : Lists (ListAddr σ δ) ι) :
    Option (ι × Lists (ListAddr σ δ) ι) → ListAnswer ι × Lists (ListAddr σ δ) ι
  | none => (.item none, L)
  | some (x, L') => (.item (some x), L')

/-- **One call on the sequences.** -/
def apply (L : Lists (ListAddr σ δ) ι) :
    ListOp σ δ ι → ListAnswer ι × Lists (ListAddr σ δ) ι
  | .put l x => (.void, L.insertAt l (L.content l).length x)
  | .putFirst l x => (.void, L.insertAt l 0 x)
  | .insertBefore l r x => (.void, L.insertAt l ((L.content l).idxOf r) x)
  | .insertAfter l r x => (.void, L.insertAt l ((L.content l).idxOf r + 1) x)
  | .remove l x => (.flag (decide (x ∈ L.content l)), L.remove l x)
  | .get l => L.taken (L.get l)
  | .getLast l => L.taken (L.getLast l)
  | .moveSList src dst => (.void, L.move (.slist src) (.slist dst))
  | .moveDList src dst => (.void, L.move (.dlist src) (.dlist dst))
  | .clearTheList l => (.void, L.clear l)

/-- The reference item of a positioned insertion is in the list. -/
def Allowed (L : Lists (ListAddr σ δ) ι) : ListOp σ δ ι → Prop
  | .insertBefore l r _ => r ∈ L.content l
  | .insertAfter l r _ => r ∈ L.content l
  | _ => True

instance (L : Lists (ListAddr σ δ) ι) (op : ListOp σ δ ι) : Decidable (L.Allowed op) := by
  cases op <;> unfold Allowed <;> infer_instance

/-- A sequence of calls: the answers and the lists at the end. -/
def applyAll (L : Lists (ListAddr σ δ) ι) :
    List (ListOp σ δ ι) → List (ListAnswer ι) × Lists (ListAddr σ δ) ι
  | [] => ([], L)
  | op :: ops =>
    ((L.apply op).1 :: ((L.apply op).2.applyAll ops).1, ((L.apply op).2.applyAll ops).2)

/-- Every call of a sequence is allowed when it is made. -/
def AllAllowed (L : Lists (ListAddr σ δ) ι) : List (ListOp σ δ ι) → Prop
  | [] => True
  | op :: ops => L.Allowed op ∧ (L.apply op).2.AllAllowed ops

instance (L : Lists (ListAddr σ δ) ι) (ops : List (ListOp σ δ ι)) :
    Decidable (L.AllAllowed ops) := by
  induction ops generalizing L with
  | nil => exact isTrue trivial
  | cons op ops ih => exact @instDecidableAnd _ _ _ (ih _)

/-! ## §4. How long the lists get. -/

section Length

variable {L : Lists (ListAddr σ δ) ι} {n : Nat}

omit [DecidableEq ι] in
theorem length_update {content : ListAddr σ δ → List ι} (h : ∀ k, (content k).length ≤ n)
    {l : ListAddr σ δ} {xs : List ι} (hxs : xs.length ≤ n) :
    ∀ k, (update content l xs k).length ≤ n :=
  (forall_update_iff content fun _ ys => ys.length ≤ n).mpr ⟨hxs, fun k _ => h k⟩

variable (h : ∀ l, (L.content l).length ≤ n)

include h

theorem length_insertAt (l : ListAddr σ δ) (i : Nat) (s : ι) (k : ListAddr σ δ) :
    ((L.insertAt l i s).content k).length ≤ n + 1 := by
  unfold insertAt
  split
  next hfits =>
    refine length_update (fun k => Nat.le_succ_of_le (h k)) ?_ k
    rw [length_insertIdx_of_le_length hfits.2]
    exact Nat.succ_le_succ (h l)
  · exact Nat.le_succ_of_le (h k)

theorem length_remove (l : ListAddr σ δ) (s : ι) (k : ListAddr σ δ) :
    ((L.remove l s).content k).length ≤ n := by
  by_cases hin : L.inList s = some l
  · rw [(remove_of_in hin).1]
    exact length_update h (Nat.le_trans length_erase_le (h l)) k
  · rw [remove_of_not_in hin]
    exact h k

omit [DecidableEq ι] in
theorem length_clear (l k : ListAddr σ δ) :
    ((L.clear l).content k).length ≤ n :=
  length_update h (show [].length ≤ n from Nat.zero_le n) k

omit [DecidableEq ι] in
theorem length_move (src dst k : ListAddr σ δ) :
    ((L.move src dst).content k).length ≤ n := by
  unfold move
  split
  · exact length_clear h dst k
  · exact length_update (length_update h (h src)) (show [].length ≤ n from Nat.zero_le n) k

/-- A call makes no list longer by more than one item. -/
theorem length_apply (op : ListOp σ δ ι) (k : ListAddr σ δ) :
    ((L.apply op).2.content k).length ≤ n + 1 := by
  cases op with
  | put l s | putFirst l s | insertBefore l r s | insertAfter l r s =>
    exact length_insertAt h l _ s k
  | remove l s => exact Nat.le_succ_of_le (length_remove h l s k)
  | get l =>
    show ((L.taken (L.get l)).2.content k).length ≤ n + 1
    unfold get
    split
    · exact Nat.le_succ_of_le (h k)
    · exact Nat.le_succ_of_le (length_remove h l _ k)
  | getLast l =>
    show ((L.taken (L.getLast l)).2.content k).length ≤ n + 1
    unfold getLast
    split
    · exact Nat.le_succ_of_le (h k)
    · exact Nat.le_succ_of_le (length_remove h l _ k)
  | moveSList src dst | moveDList src dst => exact Nat.le_succ_of_le (length_move h _ _ k)
  | clearTheList l => exact Nat.le_succ_of_le (length_clear h l k)

end Length

end Lists

end ColonyCore.Container
