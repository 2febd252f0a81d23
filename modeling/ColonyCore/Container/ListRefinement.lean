/-
  ColonyCore.Container.ListRefinement
  **THE LINKED LISTS REFINE THE SEQUENCES.**

  `Represents m A` relates the pointers to the abstract lists.  Every operation of the
  code is one of two memory surgeries, `linkedIn` and `linkedOut`; each surgery is shown
  ONCE to keep the relation, and each operation is shown to BE its surgery.

    • `Represents.linkedIn`, `Represents.linkedOut` — the surgeries,
    • `call_refines` — one call: the answer and the lists of `Lists.apply`,
    • `run_refines` — any sequence of calls.
-/
import ColonyCore.Container.LinkedLists

namespace ColonyCore.Container

open LinkedSeq Function List LinkMemory

variable {σ δ ι : Type}

/-- **The pointers hold the sequences.** -/
structure Represents (m : LinkMemory ι (ListAddr σ δ)) (A : Lists (ListAddr σ δ) ι) : Prop where
  inList : m.inListPtr = A.inList
  head : ∀ l, m.headPtr l = (A.content l).head?
  tail : ∀ l, m.tailPtr l = (A.content l).getLast?
  next : ∀ l, Path m.nextPtr (A.content l) none
  prev : ∀ d, Path m.prevPtr (A.content (.dlist d)).reverse none

theorem represents_constructed :
    Represents (constructed : LinkMemory ι (ListAddr σ δ)) Lists.empty where
  inList := rfl
  head _ := rfl
  tail _ := rfl
  next _ := trivial
  prev _ := trivial

/-! ## §1. The two surgeries. -/

section Surgeries

variable [DecidableEq σ] [DecidableEq δ] [DecidableEq ι]

/-- `s` linked between `a` and `b`, the parts of list `l`. -/
def linkedIn (m : LinkMemory ι (ListAddr σ δ)) (l : ListAddr σ δ) (s : ι) (a b : List ι) :
    LinkMemory ι (ListAddr σ δ) where
  nextPtr := linkIn m.nextPtr s a b
  prevPtr := match l with
    | .slist _ => m.prevPtr
    | .dlist _ => linkIn m.prevPtr s b.reverse a.reverse
  inListPtr := update m.inListPtr s (some l)
  headPtr := update m.headPtr l (a ++ s :: b).head?
  tailPtr := update m.tailPtr l (a ++ s :: b).getLast?

/-- `s` taken out from between `a` and `b`. -/
def linkedOut (m : LinkMemory ι (ListAddr σ δ)) (l : ListAddr σ δ) (s : ι) (a b : List ι) :
    LinkMemory ι (ListAddr σ δ) where
  nextPtr := linkOut m.nextPtr a b
  prevPtr := match l with
    | .slist _ => m.prevPtr
    | .dlist _ => linkOut m.prevPtr b.reverse a.reverse
  inListPtr := update m.inListPtr s none
  headPtr := update m.headPtr l (a ++ b).head?
  tailPtr := update m.tailPtr l (a ++ b).getLast?

omit [DecidableEq ι] in
/-- An end pointer follows its list. -/
theorem end_update {f : List ι → Option ι} {p : ListAddr σ δ → Option ι}
    {content : ListAddr σ δ → List ι} (h : ∀ k, p k = f (content k)) (l : ListAddr σ δ)
    (xs : List ι) (k : ListAddr σ δ) :
    update p l (f xs) k = f (update content l xs k) := by
  rw [apply_update (fun _ => f), funext h]

variable {m : LinkMemory ι (ListAddr σ δ)} {A A' : Lists (ListAddr σ δ) ι}
  {l : ListAddr σ δ} {s : ι} {a b : List ι}

omit [DecidableEq ι] in
/-- The backward sequences of the doubly linked lists. -/
theorem reverse_update (content : ListAddr σ δ → List ι) (l d : δ) (xs : List ι) :
    (update content (.dlist l) xs (.dlist d)).reverse
      = update (fun d => (content (.dlist d)).reverse) l xs.reverse d := by
  by_cases hd : d = l
  · simp [hd]
  · simp [hd]

omit [DecidableEq σ] [DecidableEq δ] [DecidableEq ι] in
theorem Lists.apart {k : ListAddr σ δ} (hk : k ≠ l) {x : ι} (hx : x ∈ A.content l) :
    x ∉ A.content k :=
  fun hxk => hk (Lists.eq_of_mem hxk hx)

omit [DecidableEq σ] [DecidableEq δ] [DecidableEq ι] in
theorem Lists.apart_reverse {d k : δ} (hk : k ≠ d) {x : ι}
    (hx : x ∈ (A.content (.dlist d)).reverse) : x ∉ (A.content (.dlist k)).reverse := by
  rw [mem_reverse] at hx ⊢
  exact Lists.apart (by simpa using hk) hx

theorem Represents.linkedIn (h : Represents m A) (hfree : A.inList s = none)
    (hsplit : A.content l = a ++ b)
    (hcontent : A'.content = update A.content l (a ++ s :: b))
    (hin : A'.inList = update A.inList s (some l)) :
    Represents (linkedIn m l s a b) A' := by
  have hfresh := Lists.notMem_of_free hfree
  constructor
  · rw [hin, ← h.inList]
    rfl
  · rw [hcontent]
    exact end_update h.head l _
  · rw [hcontent]
    exact end_update h.tail l _
  · rw [hcontent]
    exact path_linkIn h.next (A.nodup l) hsplit hfresh fun _ hk _ => Lists.apart hk
  · intro d
    rw [hcontent]
    cases l with
    | slist l =>
      rw [update_of_ne (by simp)]
      exact h.prev d
    | dlist l =>
      rw [reverse_update, reverse_append, reverse_cons, append_assoc]
      refine path_linkIn h.prev (nodup_reverse.mpr (A.nodup _)) ?_ (fun k hs => ?_)
        (fun _ hk _ => Lists.apart_reverse hk) d
      · rw [hsplit, reverse_append]
      · exact hfresh _ (mem_reverse.mp hs)

theorem Represents.linkedOut (h : Represents m A) (hsplit : A.content l = a ++ s :: b) :
    Represents (linkedOut m l s a b) (A.remove l s) := by
  obtain ⟨hcontent, hin⟩ := Lists.remove_split hsplit
  constructor
  · rw [hin, ← h.inList]
    rfl
  · rw [hcontent]
    exact end_update h.head l _
  · rw [hcontent]
    exact end_update h.tail l _
  · rw [hcontent]
    exact path_linkOut h.next (A.nodup l) hsplit fun _ hk _ => Lists.apart hk
  · intro d
    rw [hcontent]
    cases l with
    | slist l =>
      rw [update_of_ne (by simp)]
      exact h.prev d
    | dlist l =>
      rw [reverse_update, reverse_append]
      refine path_linkOut (s := s) h.prev (nodup_reverse.mpr (A.nodup _)) ?_
        (fun _ hk _ => Lists.apart_reverse hk) d
      rw [hsplit, reverse_append, reverse_cons, append_assoc]
      rfl

end Surgeries

/-! ## §2. The links around a position. -/

variable {m : LinkMemory ι (ListAddr σ δ)} {A : Lists (ListAddr σ δ) ι} {x : ι} {a b : List ι}

theorem Represents.ends (h : Represents m A) {l : ListAddr σ δ} {xs : List ι}
    (hxs : A.content l = xs) : m.headPtr l = xs.head? ∧ m.tailPtr l = xs.getLast? :=
  hxs ▸ ⟨h.head l, h.tail l⟩

theorem Represents.next_of_split {l : ListAddr σ δ} (h : Represents m A)
    (hsplit : A.content l = a ++ x :: b) : m.nextPtr x = b.head? :=
  Path.next_eq (hsplit ▸ h.next l)

theorem Represents.prev_of_split {d : δ} (h : Represents m A)
    (hsplit : A.content (.dlist d) = a ++ x :: b) : m.prevPtr x = a.getLast? := by
  have hpath := h.prev d
  rw [hsplit, reverse_append, reverse_cons, append_assoc, singleton_append]
    at hpath
  rw [hpath.next_eq, head?_reverse]

/-! ## §3. The insertions. -/

section Insertions

variable [DecidableEq ι] {s r : ι}

theorem insert_free (h : Represents m A) (hfree : A.inList s = none) (l : ListAddr σ δ) :
    Item.insert_ m s l = (true, m.setInList s (some l)) := by
  unfold Item.insert_
  rw [h.inList, hfree]

theorem insert_busy (h : Represents m A) (hbusy : A.inList s ≠ none) (l : ListAddr σ δ) :
    Item.insert_ m s l = (false, m) := by
  obtain ⟨k, hk⟩ := Option.ne_none_iff_exists'.mp hbusy
  unfold Item.insert_
  rw [h.inList, hk]

omit [DecidableEq ι] in
/-- A list without the item is not touched by links to the item. -/
theorem ne_of_free {l : ListAddr σ δ} (hfree : A.inList s = none) (hx : x ∈ A.content l) :
    x ≠ s := by
  rintro rfl
  exact Lists.notMem_of_free hfree l hx

/-- The search loop finds an item of the list, with the item before it. -/
theorem SList.locate_eq {κ : Type} {m : LinkMemory ι κ} (hpath : Path m.nextPtr (a ++ r :: b) none)
    (hr : r ∉ a) (prv : Option ι) (fuel : Nat) (hfuel : a.length < fuel) :
    SList.locate m r fuel (a ++ r :: b).head? prv = some (some (a.getLast?.or prv)) := by
  induction a generalizing prv fuel with
  | nil =>
    obtain ⟨n, rfl⟩ : ∃ n, fuel = n + 1 := ⟨fuel - 1, by omega⟩
    show (if r = r then _ else _) = _
    rw [if_pos rfl]
    rfl
  | cons x a ih =>
    obtain ⟨n, rfl⟩ : ∃ n, fuel = n + 1 := ⟨fuel - 1, by omega⟩
    have hne : x ≠ r := fun heq => hr (heq ▸ mem_cons_self)
    have hnext : m.next x = (a ++ r :: b).head? := by
      have hx := hpath.1
      rwa [Option.or_none] at hx
    show (if x = r then _ else SList.locate m r n (m.next x) (some x)) = _
    rw [if_neg hne, hnext, ih hpath.2 (fun hmem => hr (mem_cons_of_mem x hmem)) (some x) n
      (by simp at hfuel; omega)]
    cases a with
    | nil => rfl
    | cons y ys => simp [getLast?_cons]

variable [DecidableEq σ] [DecidableEq δ] (h : Represents m A) (hfree : A.inList s = none)
include h hfree

/-- A free item is put at the end. -/
theorem put_free (l : ListAddr σ δ) (fuel : Nat) :
    m.call fuel (.put l s) = some (.void, linkedIn m l s (A.content l) []) := by
  obtain ⟨hhead, htail⟩ := h.ends (l := l) rfl
  rcases eq_nil_or_concat (A.content l) with hnil | ⟨a, t, hsplit⟩
  · rw [hnil] at hhead ⊢
    cases l <;> simp [call, void, SList.put, DList.put, insert_free h hfree,
      linkedIn, linkIn, hhead]
  · rw [hsplit, concat_eq_append] at hhead htail ⊢
    cases l <;> simp [call, void, SList.put, DList.put, insert_free h hfree,
      linkedIn, linkIn, hhead, htail]

theorem putFirst_free (l : ListAddr σ δ) (fuel : Nat) :
    m.call fuel (.putFirst l s) = some (.void, linkedIn m l s [] (A.content l)) := by
  cases hsplit : A.content l with
  | nil | cons y ys =>
    cases l <;> simp [call, void, SList.putFirst, DList.putFirst,
      insert_free h hfree, linkedIn, linkIn, h.ends hsplit]

theorem insertAfter_free {l : ListAddr σ δ} (hsplit : A.content l = a ++ r :: b) (fuel : Nat) :
    m.call fuel (.insertAfter l r s) = some (.void, linkedIn m l s (a ++ [r]) b) := by
  obtain ⟨hhead, htail⟩ := h.ends hsplit
  have hnext := h.next_of_split hsplit
  have hne : ∀ x ∈ a ++ r :: b, x ≠ s := fun x hx => ne_of_free hfree (hsplit ▸ hx)
  have hr : r ≠ s := hne r (by simp)
  cases b with
  | nil =>
    cases l <;> simp [call, void, SList.insertAfter, DList.insertAfter,
      insert_free h hfree, linkedIn, linkIn, hnext, hhead, update_comm hr]
  | cons n b =>
    have hn : n ≠ s := hne n (by simp)
    cases l <;> simp [call, void, SList.insertAfter, DList.insertAfter,
      insert_free h hfree, linkedIn, linkIn, hnext, hhead, htail, update_comm hr,
      update_comm hn]

theorem SList.insertBefore_free {l : σ} (hsplit : A.content (.slist l) = a ++ r :: b) {fuel : Nat}
    (hfuel : (A.content (.slist l)).length < fuel) :
    SList.insertBefore fuel m (.slist l) r s = some (linkedIn m (.slist l) s a (r :: b)) := by
  obtain ⟨hhead, htail⟩ := h.ends hsplit
  have hne : ∀ x ∈ a, x ≠ s := fun x hx => ne_of_free hfree (l := .slist l) (by simp [hsplit, hx])
  -- the owner mark has been set when the search starts; the links have not
  have hlocate := SList.locate_eq (m := m.setInList s (some (.slist l))) (a := a) (b := b)
    (hsplit ▸ h.next (.slist l)) (Lists.notMem_of_split hsplit) none fuel
    (by simp [hsplit] at hfuel; omega)
  rw [← hhead] at hlocate
  unfold SList.insertBefore
  rw [insert_free h hfree]
  simp only [first, setInList] at hlocate ⊢
  rw [hlocate]
  rcases eq_nil_or_concat a with rfl | ⟨a, p, rfl⟩
  · simp [linkedIn, linkIn, htail]
  · have hp : s ≠ p := (hne p (by simp)).symm
    simp [linkedIn, linkIn, hhead, htail, update_comm hp]

theorem DList.insertBefore_free {l : δ} (hsplit : A.content (.dlist l) = a ++ r :: b) :
    DList.insertBefore m (.dlist l) r s = linkedIn m (.dlist l) s a (r :: b) := by
  obtain ⟨hhead, htail⟩ := h.ends hsplit
  have hprev := h.prev_of_split hsplit
  have hne : ∀ x ∈ a ++ r :: b, x ≠ s := fun x hx => ne_of_free hfree (hsplit ▸ hx)
  have hr : r ≠ s := hne r (by simp)
  rcases eq_nil_or_concat a with rfl | ⟨a, p, rfl⟩
  · simp [DList.insertBefore, insert_free h hfree, linkedIn, linkIn, hprev, htail,
      update_comm hr]
  · have hp : p ≠ s := hne p (by simp)
    simp [DList.insertBefore, insert_free h hfree, linkedIn, linkIn, hprev, hhead, htail,
      update_comm hr, update_comm hp]

end Insertions

/-! ## §4. The removals. -/

section Removals

variable [DecidableEq σ] [DecidableEq δ] {s : ι}

theorem isInContainer_of_split {l : ListAddr σ δ} (h : Represents m A)
    (hsplit : A.content l = a ++ s :: b) : Item.isInContainer_ m s l = true := by
  unfold Item.isInContainer_
  rw [decide_eq_true_iff, h.inList, ← A.mem_iff, hsplit]
  simp

variable [DecidableEq ι]

theorem SList.remove_of_split (h : Represents m A) {l : σ}
    (hsplit : A.content (.slist l) = a ++ s :: b) {fuel : Nat}
    (hfuel : (A.content (.slist l)).length < fuel) :
    SList.remove fuel m (.slist l) s = some (true, linkedOut m (.slist l) s a b) := by
  obtain ⟨hhead, htail⟩ := h.ends hsplit
  have hnext := h.next_of_split hsplit
  have hlocate := SList.locate_eq (hsplit ▸ h.next (.slist l)) (Lists.notMem_of_split hsplit) none
    fuel (by simp [hsplit] at hfuel; omega)
  rw [← hhead] at hlocate
  unfold SList.remove
  rw [if_pos (isInContainer_of_split h hsplit), first, hlocate]
  rcases eq_nil_or_concat a with rfl | ⟨a, p, rfl⟩
  · cases b with
    | nil | cons n b => simp [Item.remove_, linkedOut, linkOut, hnext, htail]
  · cases b with
    | nil | cons n b => simp [Item.remove_, linkedOut, linkOut, hnext, hhead, htail]

theorem DList.remove_of_split (h : Represents m A) {l : δ}
    (hsplit : A.content (.dlist l) = a ++ s :: b) :
    DList.remove m (.dlist l) s = (true, linkedOut m (.dlist l) s a b) := by
  obtain ⟨hhead, htail⟩ := h.ends hsplit
  have hnext := h.next_of_split hsplit
  have hprev := h.prev_of_split hsplit
  unfold DList.remove
  rw [if_pos (isInContainer_of_split h hsplit)]
  rcases eq_nil_or_concat a with rfl | ⟨a, p, rfl⟩
  · cases b with
    | nil | cons n b => simp [Item.remove_, linkedOut, linkOut, hnext, hprev, htail]
  · cases b with
    | nil | cons n b => simp [Item.remove_, linkedOut, linkOut, hnext, hprev, hhead, htail]

/-- `SList::get` unlinks the head without a search. -/
theorem SList.get_of_cons (h : Represents m A) {l : σ} (hsplit : A.content (.slist l) = s :: b) :
    SList.get m (.slist l) = (some s, linkedOut m (.slist l) s [] b) := by
  obtain ⟨hhead, htail⟩ := h.ends hsplit
  have hnext := h.next_of_split (a := []) hsplit
  cases b with
  | nil | cons n b => simp [SList.get, Item.remove_, linkedOut, linkOut, hnext, hhead, htail]

end Removals

/-! ## §5. One call. -/

section Calls

variable [DecidableEq σ] [DecidableEq δ] [DecidableEq ι] {l : ListAddr σ δ} {s r : ι}
 

omit [DecidableEq σ] [DecidableEq δ] [DecidableEq ι] in
/-- The answer of a call of a `void` function. -/
theorem void_refines {result : Option (LinkMemory ι (ListAddr σ δ))}
    {A' : Lists (ListAddr σ δ) ι} :
    (∃ m', result.map void = some (.void, m') ∧ Represents m' A')
      ↔ ∃ m', result = some m' ∧ Represents m' A' := by
  cases result <;> simp [void]

/-- The list and the item of an insertion. -/
def insertion : ListOp σ δ ι → Option (ListAddr σ δ × ι)
  | .put l s | .putFirst l s | .insertBefore l _ s | .insertAfter l _ s => some (l, s)
  | _ => none

variable {fuel : Nat} {op : ListOp σ δ ι}

/-- An insertion that is the surgery on a free item; on any other it does nothing. -/
theorem insert_refines (h : Represents m A) (hop : insertion op = some (l, s))
    (hsplit : A.content l = a ++ b)
    (hfree : A.inList s = none → m.call fuel op = some (.void, linkedIn m l s a b)) :
    ∃ m', m.call fuel op = some (.void, m') ∧ Represents m' (A.insertAt l a.length s) := by
  by_cases hs : A.inList s = none
  · obtain ⟨hcontent, hin⟩ := Lists.insertAt_split hs hsplit
    exact ⟨_, hfree hs, h.linkedIn hs hsplit hcontent hin⟩
  · refine ⟨m, ?_, (Lists.insertAt_busy hs _).symm ▸ h⟩
    have hbusy := insert_busy h hs
    cases op with
    | put | putFirst | insertBefore | insertAfter =>
      cases hop
      cases l <;> simp [call, void, SList.put, SList.putFirst,
        SList.insertBefore, SList.insertAfter, DList.put, DList.putFirst, DList.insertBefore,
        DList.insertAfter, hbusy]
    | _ => cases hop

theorem put_refines (h : Represents m A) (l : ListAddr σ δ) (s : ι) (fuel : Nat) :
    ∃ m', m.call fuel (.put l s) = some (.void, m')
      ∧ Represents m' (A.insertAt l (A.content l).length s) :=
  insert_refines h rfl (append_nil _).symm fun hs => put_free h hs l fuel

/-- What `put` does on a list, as the loop of `move` uses it. -/
def PutsLast (put : LinkMemory ι (ListAddr σ δ) → ι → Option (LinkMemory ι (ListAddr σ δ)))
    (l : ListAddr σ δ) : Prop :=
  ∀ m A s, Represents m A →
    ∃ m', put m s = some m' ∧ Represents m' (A.insertAt l (A.content l).length s)

theorem SList.putsLast (l : σ) :
    PutsLast (fun m : LinkMemory ι (ListAddr σ δ) => SList.put m (.slist l)) (.slist l) :=
  fun _ _ s h => void_refines.mp (put_refines h (.slist l) s 0)

theorem DList.putsLast (l : δ) :
    PutsLast (fun m : LinkMemory ι (ListAddr σ δ) => DList.put m (.dlist l)) (.dlist l) :=
  fun _ _ s h => void_refines.mp (put_refines h (.dlist l) s 0)

/-- What `get` does on a list, as the loops use it. -/
def TakesHead (get : LinkMemory ι (ListAddr σ δ) → Option ι × LinkMemory ι (ListAddr σ δ))
    (l : ListAddr σ δ) : Prop :=
  ∀ m A, Represents m A → (A.content l = [] → get m = (none, m))
    ∧ ∀ s b, A.content l = s :: b → ∃ m', get m = (some s, m') ∧ Represents m' (A.remove l s)

theorem SList.takesHead (l : σ) :
    TakesHead (fun m : LinkMemory ι (ListAddr σ δ) => SList.get m (.slist l)) (.slist l) := by
  intro m A h
  constructor
  · intro hnil
    have hhead := h.head (.slist l)
    rw [hnil] at hhead
    simp [SList.get, hhead, Item.remove_]
  · intro s b hcons
    exact ⟨_, SList.get_of_cons h hcons, h.linkedOut hcons⟩

theorem DList.takesHead (l : δ) :
    TakesHead (fun m : LinkMemory ι (ListAddr σ δ) => DList.get m (.dlist l)) (.dlist l) := by
  intro m A h
  have hhead := h.head (.dlist l)
  constructor
  · intro hnil
    rw [hnil] at hhead
    simp [DList.get, hhead]
  · intro s b hcons
    rw [hcons] at hhead
    refine ⟨_, ?_, h.linkedOut (a := []) hcons⟩
    simp [DList.get, hhead, DList.remove_of_split (a := []) h hcons]

variable {get getDst : LinkMemory ι (ListAddr σ δ) → Option ι × LinkMemory ι (ListAddr σ δ)}
  {put : LinkMemory ι (ListAddr σ δ) → ι → Option (LinkMemory ι (ListAddr σ δ))}
  {src dst : ListAddr σ δ}

theorem drainLoop_refines (hget : TakesHead get l) (h : Represents m A)
    (hfuel : (A.content l).length < fuel) :
    ∃ m', drainLoop get fuel m = some m' ∧ Represents m' (A.clear l) := by
  induction fuel generalizing m A with
  | zero => omega
  | succ fuel ih =>
    obtain ⟨hempty, hcons⟩ := hget m A h
    unfold drainLoop
    cases hlist : A.content l with
    | nil =>
      rw [hempty hlist]
      refine ⟨m, rfl, ?_⟩
      have hsame : A.clear l = A := by
        refine Lists.ext_content ?_
        show update A.content l [] = A.content
        rw [← hlist, update_eq_self]
      rw [hsame]
      exact h
    | cons s b =>
      obtain ⟨m', hm', hrep⟩ := hcons s b hlist
      obtain ⟨hcontent, -⟩ := Lists.remove_split (a := []) hlist
      have hclear : (A.remove l s).clear l = A.clear l := by
        refine Lists.ext_content ?_
        show update (A.remove l s).content l [] = update A.content l []
        rw [hcontent, update_idem]
      rw [hm', ← hclear]
      refine ih hrep ?_
      rw [hcontent]
      simp [hlist] at hfuel ⊢
      omega

theorem moveLoop_refines (hne : src ≠ dst) (hget : TakesHead get src) (hput : PutsLast put dst)
    (h : Represents m A) (hfuel : (A.content src).length < fuel) :
    ∃ m' A', moveLoop get put fuel m = some m' ∧ Represents m' A'
      ∧ A'.content = update
          (update A.content dst (A.content dst ++ A.content src)) src [] := by
  induction fuel generalizing m A with
  | zero => omega
  | succ fuel ih =>
    obtain ⟨hempty, hcons⟩ := hget m A h
    unfold moveLoop
    cases hlist : A.content src with
    | nil =>
      rw [hempty hlist]
      refine ⟨m, A, rfl, h, ?_⟩
      rw [append_nil, update_eq_self, ← hlist, update_eq_self]
    | cons s b =>
      obtain ⟨m₁, hm₁, hrep₁⟩ := hcons s b hlist
      obtain ⟨hcontent₁, hin₁⟩ := Lists.remove_split (a := []) hlist
      obtain ⟨m₂, hm₂, hrep₂⟩ := hput m₁ _ s hrep₁
      -- the item was just taken out, so it is free and really is appended
      have hfree : (A.remove src s).inList s = none := by
        rw [hin₁, update_self]
      obtain ⟨hcontent₂, -⟩ := Lists.insertAt_split hfree (append_nil _).symm
      have hsrc : ((A.remove src s).insertAt dst ((A.remove src s).content dst).length s).content
          src = b := by
        rw [hcontent₂, update_of_ne hne, hcontent₁, update_self]
        rfl
      obtain ⟨m', A', hm', hrep', hcontent'⟩ := ih hrep₂ (by
        rw [hsrc]
        simp [hlist] at hfuel
        omega)
      refine ⟨m', A', ?_, hrep', ?_⟩
      · rw [hm₁]
        show (put m₁ s).bind _ = _
        rw [hm₂]
        exact hm'
      · rw [hcontent', hsrc, hcontent₂, hcontent₁]
        funext k
        by_cases hks : k = src
        · subst hks
          simp
        · by_cases hkd : k = dst
          · subst hkd
            simp [hks]
          · simp [hks, hkd]

/-- `move`, for either kind: clear the destination, then get and put. -/
theorem move_refines (hsrc : TakesHead get src) (hdst : TakesHead getDst dst)
    (hput : PutsLast put dst) (h : Represents m A) (hfuel : ∀ l, (A.content l).length < fuel) :
    ∃ m', (drainLoop getDst fuel m).bind (moveLoop get put fuel) = some m'
      ∧ Represents m' (A.move src dst) := by
  obtain ⟨m₁, hm₁, hrep₁⟩ := drainLoop_refines hdst h (hfuel dst)
  rw [hm₁, Option.bind_some]
  by_cases hsame : src = dst
  · -- moving a list to itself only clears it
    subst hsame
    have hmove : A.move src src = A.clear src := dif_pos rfl
    obtain ⟨n, rfl⟩ : ∃ n, fuel = n + 1 := ⟨fuel - 1, by have := hfuel src; omega⟩
    refine ⟨m₁, ?_, hmove ▸ hrep₁⟩
    unfold moveLoop
    rw [((hsrc m₁ _ hrep₁).1 (update_self src _ A.content))]
  · have hsrc₁ : (A.clear dst).content src = A.content src := update_of_ne hsame _ _
    have hdst₁ : (A.clear dst).content dst = [] := update_self dst _ _
    obtain ⟨m', A', hm', hrep', hcontent⟩ :=
      moveLoop_refines hsame hsrc hput hrep₁ (hsrc₁ ▸ hfuel src)
    refine ⟨m', hm', ?_⟩
    have hA' : A' = A.move src dst := by
      refine Lists.ext_content ?_
      rw [hcontent, hsrc₁, hdst₁]
      show update (update (update A.content dst []) dst _) src [] = _
      rw [update_idem]
      unfold Lists.move
      rw [dif_neg hsame]
      rfl
    exact hA' ▸ hrep'

/-- An item that is not in the list is refused, and the memory stays as it is. -/
theorem remove_absent (h : Represents m A) (hs : s ∉ A.content l) (fuel : Nat) :
    m.call fuel (.remove l s) = some (.flag false, m) := by
  have hmark : ¬ Item.isInContainer_ m s l = true := by
    unfold Item.isInContainer_
    rw [decide_eq_true_iff, h.inList, ← A.mem_iff]
    exact hs
  cases l <;> simp [call, flag, SList.remove, DList.remove, hmark]

theorem remove_refines (h : Represents m A) (hfuel : (A.content l).length < fuel) :
    ∃ m', m.call fuel (.remove l s) = some (.flag (decide (s ∈ A.content l)), m')
      ∧ Represents m' (A.remove l s) := by
  by_cases hs : s ∈ A.content l
  · obtain ⟨a, b, hsplit⟩ := append_of_mem hs
    refine ⟨linkedOut m l s a b, ?_, h.linkedOut hsplit⟩
    rw [decide_eq_true hs]
    cases l with
    | slist l => simp [call, flag, SList.remove_of_split h hsplit hfuel]
    | dlist l => simp [call, flag, DList.remove_of_split h hsplit]
  · refine ⟨m, ?_, ?_⟩
    · rw [decide_eq_false hs]
      exact remove_absent h hs fuel
    · rw [Lists.remove_of_not_in fun hin => hs ((A.mem_iff l s).mpr hin)]
      exact h

theorem get_refines (hget : TakesHead get l) (h : Represents m A) :
    ∃ m', item (get m) = ((A.taken (A.get l)).1, m')
      ∧ Represents m' (A.taken (A.get l)).2 := by
  obtain ⟨hempty, hcons⟩ := hget m A h
  unfold Lists.get
  cases hlist : A.content l with
  | nil =>
    rw [hempty hlist]
    exact ⟨m, rfl, h⟩
  | cons s b =>
    obtain ⟨m', hm', hrep⟩ := hcons s b hlist
    rw [hm']
    exact ⟨m', rfl, hrep⟩

variable (h : Represents m A)

include h

theorem getLast_refines (hfuel : (A.content l).length < fuel) :
    ∃ m', m.call fuel (.getLast l) = some ((A.taken (A.getLast l)).1, m')
      ∧ Represents m' (A.taken (A.getLast l)).2 := by
  have htail := h.tail l
  unfold Lists.getLast
  cases hlast : (A.content l).getLast? with
  | none =>
    rw [hlast] at htail
    refine ⟨m, ?_, h⟩
    cases l <;> simp [call, item, SList.getLast, DList.getLast, htail,
      Lists.taken]
  | some s =>
    rw [hlast] at htail
    obtain ⟨a, hsplit⟩ := getLast?_eq_some_iff.mp hlast
    refine ⟨linkedOut m l s a [], ?_, h.linkedOut hsplit⟩
    cases l with
    | slist l =>
      simp [call, item, SList.getLast, htail, Lists.taken,
        SList.remove_of_split h hsplit hfuel]
    | dlist l =>
      simp [call, item, DList.getLast, htail, Lists.taken,
        DList.remove_of_split h hsplit]

theorem insertBefore_refines (hr : r ∈ A.content l) (hfuel : (A.content l).length < fuel) :
    ∃ m', m.call fuel (.insertBefore l r s) = some (.void, m')
      ∧ Represents m' (A.insertAt l ((A.content l).idxOf r) s) := by
  obtain ⟨a, b, hsplit⟩ := append_of_mem hr
  rw [Lists.idxOf_split hsplit]
  refine insert_refines h rfl hsplit fun hs => ?_
  cases l with
  | slist l => exact congrArg (Option.map void) (SList.insertBefore_free h hs hsplit hfuel)
  | dlist l => exact congrArg (some ∘ void) (DList.insertBefore_free h hs hsplit)

theorem insertAfter_refines (hr : r ∈ A.content l) :
    ∃ m', m.call fuel (.insertAfter l r s) = some (.void, m')
      ∧ Represents m' (A.insertAt l ((A.content l).idxOf r + 1) s) := by
  obtain ⟨a, b, hsplit⟩ := append_of_mem hr
  have hcut : A.content l = (a ++ [r]) ++ b := by
    rw [hsplit, append_assoc, singleton_append]
  have hlen : (a ++ [r]).length = a.length + 1 := by simp
  rw [Lists.idxOf_split hsplit, ← hlen]
  exact insert_refines h rfl hcut fun hs => insertAfter_free h hs hsplit fuel

/-- **One call of the code is one call on the sequences.** -/
theorem call_refines {op : ListOp σ δ ι} (hallowed : A.Allowed op)
    (hfuel : ∀ l, (A.content l).length < fuel) :
    ∃ m', m.call fuel op = some ((A.apply op).1, m') ∧ Represents m' (A.apply op).2 := by
  cases op with
  | put l s => exact put_refines h l s fuel
  | putFirst l s => exact insert_refines h rfl rfl fun hs => putFirst_free h hs l fuel
  | insertBefore l r s => exact insertBefore_refines h hallowed (hfuel l)
  | insertAfter l r s => exact insertAfter_refines h hallowed
  | remove l s => exact remove_refines h (hfuel l)
  | get l =>
    cases l with
    | slist l =>
      obtain ⟨m', hm', hrep⟩ := get_refines (SList.takesHead l) h
      exact ⟨m', congrArg some hm', hrep⟩
    | dlist l =>
      obtain ⟨m', hm', hrep⟩ := get_refines (DList.takesHead l) h
      exact ⟨m', congrArg some hm', hrep⟩
  | getLast l => exact getLast_refines h (hfuel l)
  | moveSList src dst =>
    exact void_refines.mpr (move_refines (SList.takesHead src) (SList.takesHead dst)
      (SList.putsLast dst) h hfuel)
  | moveDList src dst =>
    exact void_refines.mpr (move_refines (DList.takesHead src) (DList.takesHead dst)
      (DList.putsLast dst) h hfuel)
  | clearTheList l =>
    cases l with
    | slist l => exact void_refines.mpr (drainLoop_refines (SList.takesHead l) h (hfuel _))
    | dlist l => exact void_refines.mpr (drainLoop_refines (DList.takesHead l) h (hfuel _))

end Calls

/-! ## §6. Any sequence of calls. -/

section Runs

variable [DecidableEq σ] [DecidableEq δ] [DecidableEq ι]

/-- **The run lemma**: `n` bounds the lists so far, each call adds at most one item. -/
theorem run_refines (ops : List (ListOp σ δ ι)) (h : Represents m A) (hallowed : A.AllAllowed ops)
    {n : Nat} (hlen : ∀ l, (A.content l).length ≤ n) (fuel : Nat) (hfuel : n + ops.length < fuel) :
    ∃ m', m.run fuel ops = some ((A.applyAll ops).1, m')
      ∧ Represents m' (A.applyAll ops).2
      ∧ ∀ l, ((A.applyAll ops).2.content l).length < fuel := by
  induction ops generalizing m A n with
  | nil =>
    refine ⟨m, rfl, h, fun l => ?_⟩
    exact Nat.lt_of_le_of_lt (hlen l) hfuel
  | cons op ops ih =>
    rw [length_cons] at hfuel
    have hroom : ∀ l, (A.content l).length < fuel := fun l => by
      have := hlen l
      omega
    obtain ⟨m₁, hm₁, hrep₁⟩ := call_refines h hallowed.1 hroom
    obtain ⟨m', hm', hrep', hshort⟩ := ih hrep₁ hallowed.2 (Lists.length_apply hlen op) (by omega)
    refine ⟨m', ?_, hrep', hshort⟩
    unfold run
    rw [hm₁, Option.bind_some, hm']
    rfl

/-- **Intrusive lists are sequences.**  Whatever calls have been made on freshly constructed
    items and lists, they have returned with the answers of the abstract lists, and every
    list object then shows its abstract sequence. -/
theorem linked_lists_are_sequences (ops : List (ListOp σ δ ι)) (fuel : Nat)
    (hfuel : ops.length < fuel) (hallowed : (Lists.empty : Lists (ListAddr σ δ) ι).AllAllowed ops) :
    ∃ m, (constructed : LinkMemory ι (ListAddr σ δ)).run fuel ops
        = some ((Lists.empty.applyAll ops).1, m)
      ∧ ∀ l : ListAddr σ δ,
        walk m.next fuel (m.first l) = some ((Lists.empty.applyAll ops).2.content l)
        ∧ (∀ d, l = .dlist d →
            (walk m.previous fuel (m.last l)).map reverse
              = some ((Lists.empty.applyAll ops).2.content l))
        ∧ m.first l = ((Lists.empty.applyAll ops).2.content l).head?
        ∧ m.last l = ((Lists.empty.applyAll ops).2.content l).getLast?
        ∧ (∀ x, m.find l x = true ↔ x ∈ (Lists.empty.applyAll ops).2.content l)
        ∧ (∀ x k, m.find l x = true → m.find k x = true → l = k)
        ∧ ∀ x, x ∉ (Lists.empty.applyAll ops).2.content l →
            m.call fuel (.remove l x) = some (.flag false, m) := by
  obtain ⟨m, hm, hrep, hshort⟩ := run_refines ops represents_constructed hallowed
    (fun _ => Nat.le_refl 0) fuel (by omega)
  have hfind : ∀ l x, m.find l x = true ↔ x ∈ (Lists.empty.applyAll ops).2.content l := by
    intro l x
    unfold find Item.isInContainer_
    rw [decide_eq_true_iff, hrep.inList, Lists.mem_iff]
  refine ⟨m, hm, fun l => ⟨?_, ?_, hrep.head l, hrep.tail l, hfind l, ?_, ?_⟩⟩
  · rw [first, hrep.head]
    exact walk_eq (hrep.next l) (Nat.le_of_lt (hshort l))
  · rintro d rfl
    rw [last, hrep.tail, ← head?_reverse]
    show Option.map reverse (walk m.prevPtr fuel _) = _
    rw [walk_eq (hrep.prev d) (by simpa using Nat.le_of_lt (hshort (.dlist d)))]
    simp
  · intro x k hl hk
    rw [hfind] at hl hk
    exact Lists.eq_of_mem hl hk
  · intro x hx
    exact remove_absent hrep hx fuel

/-- Four items, two lists of each kind: an item in the middle, a removal at the head, a move. -/
theorem linked_lists_are_sequences_four :
    ∃ m, (constructed : LinkMemory (Fin 4) (ListAddr Bool Bool)).run 8
          [.put (.slist true) 0, .put (.dlist true) 1, .putFirst (.dlist true) 2,
            .insertBefore (.dlist true) 1 3, .remove (.dlist true) 2, .moveDList true false]
        = some ([.void, .void, .void, .void, .flag true, .void], m)
      ∧ walk m.next 8 (m.first (.dlist false)) = some [3, 1]
      ∧ m.find (.slist true) 0 = true := by
  obtain ⟨m, hm, hlists⟩ := linked_lists_are_sequences
    ([.put (.slist true) 0, .put (.dlist true) 1, .putFirst (.dlist true) 2,
      .insertBefore (.dlist true) 1 3, .remove (.dlist true) 2, .moveDList true false]
      : List (ListOp Bool Bool (Fin 4))) 8 (by decide) (by decide)
  refine ⟨m, hm, (hlists (.dlist false)).1, ?_⟩
  exact ((hlists (.slist true)).2.2.2.2.1 0).mpr (by decide)

end Runs

end ColonyCore.Container
