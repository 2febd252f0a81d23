/-
  ColonyCore.Container.AvlHeap
  **HEAPS THAT HOLD A TREE.**

  `Rep h par t` says that the links of the heap, below a node `par`, are those of the
  tree `t`; `Above h ctx p` says it of a context whose hole holds the pointer `p`.
  `At h ctx t` is both, for the whole tree with one subtree in focus, and the focus
  moves up and down by `at_attach`.  One lemma per operation of the source:

    • `At.setBalance`, `At.rotate` — what they do to the subtree in focus,
    • `At.grew`, `At.otherShorter` — the rebalancing rules of `AvlShape`.
-/
import ColonyCore.Container.AvlTree

namespace ColonyCore.Container

open AvlShape Shape List

variable {ι : Type}

/-! ## §1. Fields of nodes. -/

/-- Two nodes with the same links. -/
structure SameLinks (n n' : MapItem ι) : Prop where
  parent : n.parent = n'.parent
  child : ∀ s, n.child s = n'.child s
  balance : n.balance = n'.balance
  isNotRoot : n.isNotRoot = n'.isNotRoot

theorem SameLinks.refl (n : MapItem ι) : SameLinks n n := ⟨rfl, fun _ => rfl, rfl, rfl⟩

variable {n : MapItem ι}

theorem SameLinks.trans {n' n'' : MapItem ι} (h : SameLinks n n') (h' : SameLinks n' n'') :
    SameLinks n n'' :=
  ⟨h.parent.trans h'.parent, fun s => (h.child s).trans (h'.child s), h.balance.trans h'.balance,
    h.isNotRoot.trans h'.isNotRoot⟩

theorem SameLinks.eq {n' : MapItem ι} (h : SameLinks n n') (hlist : n.inList = n'.inList) :
    n = n' := by
  obtain ⟨p, l, r, b, i, m⟩ := n
  obtain ⟨p', l', r', b', i', m'⟩ := n'
  have hl : l = l' := h.child .left
  have hr : r = r' := h.child .right
  have hp : p = p' := h.parent
  have hb : b = b' := h.balance
  have hi : i = i' := h.isNotRoot
  have hm : m = m' := hlist
  rw [hl, hr, hp, hb, hi, hm]

/-- The first node is the second with another parent. -/
structure Reparented (n n' : MapItem ι) (par : Addr ι) : Prop where
  parent : n.parent = some par
  child : ∀ s, n.child s = n'.child s
  balance : n.balance = n'.balance
  isNotRoot : n.isNotRoot = n'.isNotRoot

/-- The first node is the second with another child on one side. -/
structure Relinked (n n' : MapItem ι) (s : Side) (p : Option (Addr ι)) : Prop where
  parent : n.parent = n'.parent
  child : n.child s = p
  other : n.child s.other = n'.child s.other
  balance : n.balance = n'.balance
  isNotRoot : n.isNotRoot = n'.isNotRoot

namespace MapItem

variable (n : MapItem ι) (s u : Side) (p : Option (Addr ι))

theorem left_eq : n.left = n.child .left := rfl

theorem right_eq : n.right = n.child .right := rfl

theorem child_setChild : (n.setChild s p).child u = if u = s then p else n.child u := by
  cases s <;> cases u <;> rfl

@[simp] theorem parent_setChild : (n.setChild s p).parent = n.parent := by cases s <;> rfl

@[simp] theorem balance_setChild : (n.setChild s p).balance = n.balance := by cases s <;> rfl

@[simp] theorem isNotRoot_setChild : (n.setChild s p).isNotRoot = n.isNotRoot := by cases s <;> rfl

@[simp] theorem inList_setChild : (n.setChild s p).inList = n.inList := by cases s <;> rfl

end MapItem

namespace Heap

variable [DecidableEq ι] (h : Heap ι) (x y : Addr ι) (s u : Side) (p q : Option (Addr ι)) (b : Balance)

theorem modify_apply (f : MapItem ι → MapItem ι) :
    (h.modify x f) y = if y = x then f (h x) else h y := by
  show Function.update h.node x (f (h x)) y = _
  rw [Function.update_apply]

theorem child_setChild :
    ((h.setChild s x p) y).child u = if y = x ∧ u = s then p else (h y).child u := by
  unfold setChild
  rw [modify_apply]
  by_cases hy : y = x
  · subst hy
    simp [MapItem.child_setChild]
  · simp [hy]

/-- A field that a change leaves alone. -/
theorem modify_keeps {β : Type} (g : MapItem ι → β) (f : MapItem ι → MapItem ι)
    (hf : ∀ n, g (f n) = g n) : g ((h.modify x f) y) = g (h y) := by
  rw [modify_apply]
  split
  next hy => rw [hf, hy]
  next => rfl

@[simp] theorem parent_setChild : ((h.setChild s x p) y).parent = (h y).parent :=
  h.modify_keeps x y (·.parent) _ fun n => n.parent_setChild s p

@[simp] theorem balance_setChild : ((h.setChild s x p) y).balance = (h y).balance :=
  h.modify_keeps x y (·.balance) _ fun n => n.balance_setChild s p

@[simp] theorem isNotRoot_setChild : ((h.setChild s x p) y).isNotRoot = (h y).isNotRoot :=
  h.modify_keeps x y (·.isNotRoot) _ fun n => n.isNotRoot_setChild s p

@[simp] theorem inList_setChild : ((h.setChild s x p) y).inList = (h y).inList :=
  h.modify_keeps x y (·.inList) _ fun n => n.inList_setChild s p

theorem parent_setParent : ((h.setParent x p) y).parent = if y = x then p else (h y).parent := by
  unfold setParent
  rw [modify_apply]
  split <;> rfl

@[simp] theorem child_setParent : ((h.setParent x p) y).child u = (h y).child u :=
  h.modify_keeps x y (·.child u) _ fun _ => by cases u <;> rfl

@[simp] theorem balance_setParent : ((h.setParent x p) y).balance = (h y).balance :=
  h.modify_keeps x y (·.balance) _ fun _ => rfl

@[simp] theorem isNotRoot_setParent : ((h.setParent x p) y).isNotRoot = (h y).isNotRoot :=
  h.modify_keeps x y (·.isNotRoot) _ fun _ => rfl

@[simp] theorem inList_setParent : ((h.setParent x p) y).inList = (h y).inList :=
  h.modify_keeps x y (·.inList) _ fun _ => rfl

theorem balance_setBalance :
    ((h.setBalance x b) y).balance = if y = x then b else (h y).balance := by
  unfold setBalance
  rw [modify_apply]
  split <;> rfl

@[simp] theorem child_setBalance : ((h.setBalance x b) y).child u = (h y).child u :=
  h.modify_keeps x y (·.child u) _ fun _ => by cases u <;> rfl

@[simp] theorem parent_setBalance : ((h.setBalance x b) y).parent = (h y).parent :=
  h.modify_keeps x y (·.parent) _ fun _ => rfl

@[simp] theorem isNotRoot_setBalance : ((h.setBalance x b) y).isNotRoot = (h y).isNotRoot :=
  h.modify_keeps x y (·.isNotRoot) _ fun _ => rfl

@[simp] theorem inList_setBalance : ((h.setBalance x b) y).inList = (h y).inList :=
  h.modify_keeps x y (·.inList) _ fun _ => rfl

theorem parent_setParent? :
    ((h.setParent? p x) y).parent = if p = some y then some x else (h y).parent := by
  unfold setParent?
  cases p with
  | none => rfl
  | some z =>
    simp only [parent_setParent, Option.some.injEq]
    by_cases hy : y = z
    · rw [if_pos hy, if_pos hy.symm]
    · rw [if_neg hy, if_neg (Ne.symm hy)]

@[simp] theorem child_setParent? : ((h.setParent? p x) y).child u = (h y).child u := by
  cases p <;> simp [setParent?]

@[simp] theorem balance_setParent? : ((h.setParent? p x) y).balance = (h y).balance := by
  cases p <;> simp [setParent?]

@[simp] theorem isNotRoot_setParent? : ((h.setParent? p x) y).isNotRoot = (h y).isNotRoot := by
  cases p <;> simp [setParent?]

@[simp] theorem inList_setParent? : ((h.setParent? p x) y).inList = (h y).inList := by
  cases p <;> simp [setParent?]

end Heap

/-! ## §2. Trees in a heap. -/

/-- The pointer to a subtree. -/
def ptr : Shape ι → Option (Addr ι)
  | .nil => none
  | .node _ a _ _ => some (.item a)

@[simp] theorem ptr_fork (s : Side) (t o : Shape ι) (a : ι) (b : Balance) :
    ptr (fork s t a b o) = some (.item a) := by
  cases s <;> rfl

variable {t : Shape ι} {i : ι}

theorem mem_of_ptr (h : ptr t = some (.item i)) : i ∈ t.toList := by
  cases t with
  | nil => cases h
  | node l a b r =>
    cases h
    exact mem_append_right _ mem_cons_self

theorem eq_nil_of_ptr (h : ptr t = none) : t = .nil := by
  cases t with
  | nil => rfl
  | node l a b r => cases h

theorem ptr_ne_root (t : Shape ι) : ptr t ≠ some .root := by
  cases t <;> simp [ptr]

/-- The links of an inner node, with `p` on its side `s`. -/
structure Linked (n : MapItem ι) (par : Addr ι) (s : Side) (p : Option (Addr ι)) (b : Balance)
    (q : Option (Addr ι)) : Prop where
  parent : n.parent = some par
  child : n.child s = p
  other : n.child s.other = q
  balance : n.balance = b
  isNotRoot : n.isNotRoot = true

variable {par : Addr ι} {s : Side} {p : Option (Addr ι)} {b : Balance}

theorem Linked.congr {n' : MapItem ι} {q : Option (Addr ι)}
    (h : Linked n par s p b q) (hsame : SameLinks n' n) : Linked n' par s p b q :=
  ⟨hsame.parent.trans h.parent, (hsame.child s).trans h.child, (hsame.child s.other).trans h.other,
    hsame.balance.trans h.balance, hsame.isNotRoot.trans h.isNotRoot⟩

theorem linked_other {q : Option (Addr ι)} : Linked n par s.other p b q ↔ Linked n par s q b p :=
  ⟨fun h => ⟨h.parent, by simpa using h.other, h.child, h.balance, h.isNotRoot⟩,
    fun h => ⟨h.parent, h.other, by simpa using h.child, h.balance, h.isNotRoot⟩⟩

/-- **The heap holds the tree** below `par`. -/
def Rep (h : Heap ι) (par : Addr ι) : Shape ι → Prop
  | .nil => True
  | .node l a b r => Linked (h (.item a)) par .left (ptr l) b (ptr r)
      ∧ Rep h (.item a) l ∧ Rep h (.item a) r

variable {h : Heap ι}

theorem rep_fork {o : Shape ι} {a : ι} :
    Rep h par (fork s t a b o) ↔ Linked (h (.item a)) par s (ptr t) b (ptr o)
      ∧ Rep h (.item a) t ∧ Rep h (.item a) o := by
  cases s with
  | left => exact Iff.rfl
  | right =>
    show Linked _ par Side.right.other _ _ _ ∧ _ ∧ _ ↔ _
    rw [linked_other, and_comm (a := Rep h (.item a) o)]

variable {h' : Heap ι}

/-- A tree stays where its nodes are left alone. -/
theorem Rep.congr (hrep : Rep h par t)
    (hsame : ∀ i ∈ t.toList, SameLinks (h' (.item i)) (h (.item i))) : Rep h' par t := by
  induction t generalizing par with
  | nil => trivial
  | node l a b r ihl ihr =>
    obtain ⟨hnode, hl, hr⟩ := hrep
    refine ⟨hnode.congr (hsame a (mem_append_right _ mem_cons_self)), ihl hl ?_, ihr hr ?_⟩
    · exact fun i hi => hsame i (mem_append_left _ hi)
    · exact fun i hi => hsame i (mem_append_right _ (mem_cons_of_mem _ hi))

/-- A tree is moved below another node by the parent link of its top. -/
theorem Rep.reparent {par' : Addr ι} (hrep : Rep h par t) (hnodup : t.toList.Nodup)
    (htop : ∀ i, ptr t = some (.item i) → Reparented (h' (.item i)) (h (.item i)) par')
    (hrest : ∀ i ∈ t.toList, ptr t ≠ some (.item i) → SameLinks (h' (.item i)) (h (.item i))) :
    Rep h' par' t := by
  cases t with
  | nil => trivial
  | node l a b r =>
    obtain ⟨hnode, hl, hr⟩ := hrep
    have hmoved := htop a rfl
    obtain ⟨hnl, hnr, hdisj⟩ := nodup_append.mp hnodup
    have hal : ∀ i ∈ l.toList, ptr (.node l a b r) ≠ some (.item i) := by
      rintro i hi heq
      cases heq
      exact hdisj a hi a mem_cons_self rfl
    have har : ∀ i ∈ r.toList, ptr (.node l a b r) ≠ some (.item i) := by
      rintro i hi heq
      cases heq
      exact (nodup_cons.mp hnr).1 hi
    refine ⟨⟨hmoved.parent, (hmoved.child _).trans hnode.child, (hmoved.child _).trans hnode.other,
      hmoved.balance.trans hnode.balance, hmoved.isNotRoot.trans hnode.isNotRoot⟩,
      hl.congr ?_, hr.congr ?_⟩
    · exact fun i hi => hrest i (mem_append_left _ hi) (hal i hi)
    · exact fun i hi => hrest i (mem_append_right _ (mem_cons_of_mem _ hi)) (har i hi)

/-- The item on an end of a list. -/
def endOf (s : Side) (xs : List ι) : Option ι :=
  match s with
  | .left => xs.head?
  | .right => xs.getLast?

theorem endOf_fork (s : Side) (t o : Shape ι) (a : ι) (b : Balance) :
    endOf s (fork s t a b o).toList = (endOf s t.toList).or (some a) := by
  cases s with
  | left => cases h : t.toList <;> simp [endOf, fork, toList, h]
  | right =>
    show ((o.toList ++ a :: t.toList).getLast?) = t.toList.getLast?.or (some a)
    rw [getLast?_append, getLast?_cons]
    cases h : t.toList.getLast? <;> simp

/-- **The loop down a side** ends at the item on that end. -/
theorem Rep.extreme_end {x : Addr ι} {fuel : Nat} (s : Side) (hrep : Rep h par t)
    (hx : ptr t = some x) (hfuel : t.height ≤ fuel) :
    ∃ c, endOf s t.toList = some c ∧ h.extreme s fuel x = some (.item c) := by
  induction fuel generalizing par x t with
  | zero =>
    cases t with
    | nil => cases hx
    | node l a b r => exact absurd hfuel (by simp [Shape.height])
  | succ m ih =>
    cases t with
    | nil => cases hx
    | node l a b r =>
      obtain ⟨t, o, hfork⟩ := eq_fork s l a b r
      rw [hfork] at hrep hx hfuel ⊢
      rw [ptr_fork] at hx
      cases hx
      obtain ⟨hnode, ht, -⟩ := rep_fork.mp hrep
      unfold Heap.extreme
      rw [hnode.child, endOf_fork]
      cases hp : ptr t with
      | none =>
        obtain rfl := eq_nil_of_ptr hp
        exact ⟨a, by cases s <;> rfl, rfl⟩
      | some y =>
        have hheight : t.height ≤ m := by
          have := height_lt_fork s t a b o
          omega
        obtain ⟨c, hc, hrun⟩ := ih ht hp hheight
        exact ⟨c, by rw [hc, Option.some_or], hrun⟩

/-- The node above the focus, and the side the focus hangs on. -/
def parentOf : List (Frame ι) → Addr ι
  | [] => .root
  | f :: _ => .item f.label

def sideOf : List (Frame ι) → Side
  | [] => .left
  | f :: _ => f.side

/-- **The heap holds the context**, with the pointer `p` in its hole. -/
def Above (h : Heap ι) : List (Frame ι) → Option (Addr ι) → Prop
  | [], p => (h .root).left = p ∧ (h .root).right = none ∧ (h .root).isNotRoot = false
  | f :: fs, p => Linked (h (.item f.label)) (parentOf fs) f.side p f.balance (ptr f.other)
      ∧ Rep h (.item f.label) f.other ∧ Above h fs (some (.item f.label))

variable {ctx : List (Frame ι)}

/-- A context stays where its nodes are left alone. -/
theorem Above.congr (habove : Above h ctx p) (hroot : SameLinks (h' .root) (h .root))
    (hsame : ∀ i ∈ labels ctx, SameLinks (h' (.item i)) (h (.item i))) : Above h' ctx p := by
  induction ctx generalizing p with
  | nil =>
    obtain ⟨hl, hr, hn⟩ := habove
    exact ⟨(hroot.child .left).trans hl, (hroot.child .right).trans hr, hroot.isNotRoot.trans hn⟩
  | cons f fs ih =>
    obtain ⟨hnode, hother, hfs⟩ := habove
    refine ⟨hnode.congr (hsame _ (mem_labels_cons.mpr (.inl rfl))), hother.congr ?_, ih hfs ?_⟩
    · exact fun i hi => hsame i (mem_labels_cons.mpr (.inr (.inl hi)))
    · exact fun i hi => hsame i (mem_labels_cons.mpr (.inr (.inr hi)))

/-- Another pointer goes into the hole of a context. -/
theorem Above.relink {p' : Option (Addr ι)} (habove : Above h ctx p) (hnodup : (labels ctx).Nodup)
    (hlink : Relinked (h' (parentOf ctx)) (h (parentOf ctx)) (sideOf ctx) p')
    (hroot : parentOf ctx ≠ .root → SameLinks (h' .root) (h .root))
    (hrest : ∀ i ∈ labels ctx, parentOf ctx ≠ .item i → SameLinks (h' (.item i)) (h (.item i))) :
    Above h' ctx p' := by
  cases ctx with
  | nil =>
    obtain ⟨-, hr, hn⟩ := habove
    exact ⟨hlink.child, hlink.other.trans hr, hlink.isNotRoot.trans hn⟩
  | cons f fs =>
    obtain ⟨hnode, hother, hfs⟩ := habove
    obtain ⟨hfresh, hrestnodup⟩ := nodup_cons.mp
      (show (f.label :: (f.other.toList ++ labels fs)).Nodup from hnodup)
    have hsame : ∀ i ∈ f.other.toList ++ labels fs, SameLinks (h' (.item i)) (h (.item i)) := by
      intro i hi
      refine hrest i (mem_cons_of_mem f.label hi) ?_
      rintro heq
      cases heq
      exact hfresh hi
    refine ⟨⟨hlink.parent.trans hnode.parent, hlink.child, hlink.other.trans hnode.other,
      hlink.balance.trans hnode.balance, hlink.isNotRoot.trans hnode.isNotRoot⟩,
      hother.congr ?_, hfs.congr (hroot (by simp [parentOf])) ?_⟩
    · exact fun i hi => hsame i (mem_append_left _ hi)
    · exact fun i hi => hsame i (mem_append_right _ hi)

/-- **The heap holds the whole tree**, seen from the subtree in focus. -/
structure At (h : Heap ι) (ctx : List (Frame ι)) (t : Shape ι) : Prop where
  above : Above h ctx (ptr t)
  rep : Rep h (parentOf ctx) t
  nodup : (t.toList ++ labels ctx).Nodup

/-- **The ends of the whole tree.** -/
theorem At.endmost {fuel : Nat} (hat : At h [] t) (s : Side) (hfuel : t.height ≤ fuel) :
    h.endmost s fuel = some ((endOf s t.toList).map .item) := by
  have htop : (h .root).left = ptr t := hat.above.1
  unfold Heap.endmost
  rw [htop]
  cases hp : ptr t with
  | none =>
    obtain rfl := eq_nil_of_ptr hp
    cases s <;> rfl
  | some x =>
    obtain ⟨c, hc, hrun⟩ := hat.rep.extreme_end s hp hfuel
    show (h.extreme s fuel x).map some = _
    rw [hrun, hc]
    rfl

/-- The labels of a fork in its context. -/
theorem labels_attach_perm (f : Frame ι) (ctx : List (Frame ι)) (t : Shape ι) :
    ((f.attach t).toList ++ labels ctx).Perm (t.toList ++ labels (f :: ctx)) := by
  have hfork := (toList_fork_perm f.side t f.label f.balance f.other).append_right (labels ctx)
  refine hfork.trans (List.Perm.of_eq ?_)
  simp [labels]

/-- **The focus moves** to a subtree and back. -/
theorem at_attach {f : Frame ι} : At h ctx (f.attach t) ↔ At h (f :: ctx) t := by
  constructor
  · rintro ⟨habove, hrep, hnodup⟩
    obtain ⟨hnode, ht, ho⟩ := rep_fork.mp hrep
    exact ⟨⟨hnode, ho, by simpa [Frame.attach] using habove⟩, ht,
      (labels_attach_perm f ctx t).nodup_iff.mp hnodup⟩
  · rintro ⟨⟨hnode, ho, habove⟩, ht, hnodup⟩
    exact ⟨by simpa [Frame.attach] using habove, rep_fork.mpr ⟨hnode, ht, ho⟩,
      (labels_attach_perm f ctx t).nodup_iff.mpr hnodup⟩

/-- What happens to a tree stays in it, and nothing is put in or taken out of a
container. -/
structure Keeps (ids : List ι) (h h' : Heap ι) : Prop where
  links : ∀ i, i ∉ ids → SameLinks (h' (.item i)) (h (.item i))
  inList : ∀ x, (h' x).inList = (h x).inList

theorem Keeps.refl (ids : List ι) (h : Heap ι) : Keeps ids h h :=
  ⟨fun _ _ => SameLinks.refl _, fun _ => rfl⟩

theorem Keeps.trans {ids : List ι} {h'' : Heap ι} (h₁ : Keeps ids h h') (h₂ : Keeps ids h' h'') :
    Keeps ids h h'' :=
  ⟨fun i hi => (h₂.links i hi).trans (h₁.links i hi), fun x => (h₂.inList x).trans (h₁.inList x)⟩

/-- **The tree in focus becomes another one** of the same items. -/
structure Moves (ctx : List (Frame ι)) (h : Heap ι) (t : Shape ι) (h' : Heap ι) (t' : Shape ι) :
    Prop where
  holds : At h' ctx t'
  items : t'.toList = t.toList
  keeps : Keeps (plug ctx t).toList h h'

theorem Moves.refl (hat : At h ctx t) : Moves ctx h t h t := ⟨hat, rfl, Keeps.refl _ _⟩

theorem Moves.trans {h'' : Heap ι} {t' t'' : Shape ι} (h₁ : Moves ctx h t h' t')
    (h₂ : Moves ctx h' t' h'' t'') : Moves ctx h t h'' t'' :=
  ⟨h₂.holds, h₂.items.trans h₁.items,
    h₁.keeps.trans (toList_plug_congr h₁.items ctx ▸ h₂.keeps)⟩

/-- The focus moves up. -/
theorem Moves.attach {f : Frame ι} {t' : Shape ι} (hmove : Moves (f :: ctx) h t h' t') :
    Moves ctx h (f.attach t) h' (f.attach t') :=
  ⟨at_attach.mpr hmove.holds, toList_plug_congr hmove.items [f], hmove.keeps⟩

/-! ## §3. The node above the focus. -/

theorem parentOf_ne (hi : i ∉ labels ctx) : parentOf ctx ≠ .item i := by
  cases ctx with
  | nil => exact fun h => nomatch h
  | cons f fs =>
    rintro heq
    cases heq
    exact hi mem_cons_self

theorem Above.child (habove : Above h ctx p) : (h (parentOf ctx)).child (sideOf ctx) = p := by
  cases ctx with
  | nil => exact habove.1
  | cons f fs => exact habove.1.child

/-- The other side of the parent holds no node of the focus. -/
theorem Above.other_ne (habove : Above h ctx p) (hi : i ∉ labels ctx) :
    (h (parentOf ctx)).child (sideOf ctx).other ≠ some (.item i) := by
  cases ctx with
  | nil =>
    show (h .root).right ≠ _
    rw [habove.2.1]
    exact fun h => nomatch h
  | cons f fs =>
    show (h (.item f.label)).child f.side.other ≠ _
    rw [habove.1.other]
    intro heq
    exact hi (mem_cons_of_mem _ (mem_append_left _ (mem_of_ptr heq)))

/-- **The side a node is found on** by asking its parent. -/
theorem Above.side_eq [DecidableEq ι]
    (habove : Above h ctx (some (.item i))) (hi : i ∉ labels ctx) (s : Side) :
    (if (h (parentOf ctx)).child s = some (.item i) then s else s.other) = sideOf ctx := by
  rcases (sideOf ctx).eq_or_eq_other s with rfl | hs
  · rw [if_pos habove.child]
  · rw [hs, if_neg (habove.other_ne hi), Side.other_other]

section Ops

variable {h : Heap ι} {s : Side} {t o : Shape ι} {a : ι}

/-- The focus and its context are disjoint. -/
theorem At.disjoint {t : Shape ι} (hat : At h ctx t) {i : ι} (hi : i ∈ t.toList) : i ∉ labels ctx :=
  fun hlab => (nodup_append.mp hat.nodup).2.2 i hi i hlab rfl

/-- The focus moves to the side `s` of a fork, or to the other. -/
theorem At.child (hat : At h ctx (fork s t a b o)) : At h (⟨s, a, b, o⟩ :: ctx) t :=
  at_attach |>.mp hat

theorem At.other (hat : At h ctx (fork s t a b o)) : At h (⟨s.other, a, b, t⟩ :: ctx) o := by
  rw [← fork_other] at hat
  exact hat.child

/-- What happens on one side of a fork. -/
theorem Moves.child {h' : Heap ι} {t' : Shape ι} (hmove : Moves (⟨s, a, b, o⟩ :: ctx) h t h' t') :
    Moves ctx h (fork s t a b o) h' (fork s t' a b o) :=
  hmove.attach

theorem Moves.other {h' : Heap ι} {o' : Shape ι}
    (hmove : Moves (⟨s.other, a, b, t⟩ :: ctx) h o h' o') :
    Moves ctx h (fork s t a b o) h' (fork s t a b o') := by
  rw [← fork_other s o, ← fork_other s o']
  exact hmove.child

/-- The node on top of the focus is nowhere else. -/
theorem At.top_fresh (hat : At h ctx (fork s t a b o)) :
    a ∉ t.toList ∧ a ∉ o.toList ∧ a ∉ labels ctx := by
  refine ⟨fun hi => ?_, fun hi => ?_, hat.disjoint (mem_toList_fork.mpr (.inr (.inl rfl)))⟩
  · exact hat.child.disjoint hi (mem_labels_cons.mpr (.inl rfl))
  · exact hat.other.disjoint hi (mem_labels_cons.mpr (.inl rfl))

variable {bc : Balance}

/-- What the code reads of a node and of its child. -/
theorem At.reads {l m : Shape ι} {c : ι} (hat : At h ctx (fork s (fork s l c bc m) a b o)) :
    (h (.item a)).child s = some (.item c) ∧ (h (.item c)).balance = bc
      ∧ (h (.item c)).child s.other = ptr m := by
  obtain ⟨hA, hC, -⟩ := rep_fork.mp hat.rep
  have hchild := hA.child
  rw [ptr_fork] at hchild
  exact ⟨hchild, (rep_fork.mp hC).1.balance, (rep_fork.mp hC).1.other⟩

/-- What the code reads of the inner grandchild. -/
theorem At.reads_inner {l x y : Shape ι} {c g : ι} {bg : Balance}
    (hat : At h ctx (fork s (fork s l c bc (fork s x g bg y)) a b o)) :
    (h (.item c)).child s.other = some (.item g) ∧ (h (.item g)).balance = bg := by
  obtain ⟨hG, -, -⟩ := rep_fork.mp hat.child.other.rep
  exact ⟨hat.reads.2.2.trans (ptr_fork ..), hG.balance⟩

variable [DecidableEq ι]

variable {x : Addr ι}

theorem sameLinks_setBalance {y : Addr ι} (hne : y ≠ x) : SameLinks ((h.setBalance x b) y) (h y) :=
  ⟨by simp, fun u => by simp, by rw [h.balance_setBalance, if_neg hne], by simp⟩

/-- **The balance of the top node is set.** -/
theorem At.setBalance (hat : At h ctx (fork s t a b o)) (b' : Balance) :
    Moves ctx h (fork s t a b o) (h.setBalance (.item a) b') (fork s t a b' o) := by
  obtain ⟨hat', hao, hactx⟩ := hat.top_fresh
  obtain ⟨hnode, ht, ho⟩ := rep_fork.mp hat.rep
  have hsame : ∀ i, i ≠ a → SameLinks ((h.setBalance (.item a) b') (.item i)) (h (.item i)) :=
    fun i hi => sameLinks_setBalance (fun heq => hi (by cases heq; rfl))
  have hlist := toList_fork_balance s t a b' b o
  refine ⟨⟨?_, rep_fork.mpr ⟨?_, ht.congr ?_, ho.congr ?_⟩, hlist ▸ hat.nodup⟩, hlist,
    fun i hi => hsame i ?_, fun x => by simp⟩
  · have habove := hat.above
    rw [ptr_fork] at habove ⊢
    refine habove.congr (sameLinks_setBalance (by simp)) ?_
    exact fun i hi => hsame i (fun heq => hactx (heq ▸ hi))
  · exact ⟨by simpa using hnode.parent, by simpa using hnode.child, by simpa using hnode.other,
      by simp [h.balance_setBalance], by simpa using hnode.isNotRoot⟩
  · exact fun i hi => hsame i (fun heq => hat' (heq ▸ hi))
  · exact fun i hi => hsame i (fun heq => hao (heq ▸ hi))
  · rintro rfl
    exact hi (mem_toList_plug.mpr (.inl (mem_toList_fork.mpr (.inr (.inl rfl)))))

/-- **A ROTATION** brings the child on side `s` above the node on top of the focus. -/
theorem At.rotate {l m : Shape ι} {c : ι} (hat : At h ctx (fork s (fork s l c bc m) a b o)) :
    ∃ h', h.rotate s.other (.item a) = some (h', .item c)
      ∧ Moves ctx h (fork s (fork s l c bc m) a b o) h' (fork s l c bc (fork s m a b o)) := by
  -- the parts of the tree are disjoint, and hold neither of the two nodes
  obtain ⟨-, hao, hactx⟩ := hat.top_fresh
  obtain ⟨-, -, hcctx⟩ := hat.child.top_fresh
  have hlfresh : ∀ i ∈ l.toList, _ := fun i hi => hat.child.child.disjoint hi
  have hmfresh : ∀ i ∈ m.toList, _ := fun i hi => hat.child.other.disjoint hi
  have hofresh : ∀ i ∈ o.toList, _ := fun i hi => hat.other.disjoint hi
  simp only [mem_labels_cons, mem_toList_fork, not_or] at hcctx hlfresh hmfresh hofresh
  obtain ⟨hca, hco, hcctx⟩ := hcctx
  obtain ⟨hA, hC', ho⟩ := rep_fork.mp hat.rep
  obtain ⟨hC, hl, hm⟩ := rep_fork.mp hC'
  have habove := hat.above
  rw [ptr_fork] at habove hA
  have hPA := parentOf_ne hactx
  have hPC := parentOf_ne hcctx
  have hAC : (Addr.item a : Addr ι) ≠ .item c := fun heq => hca (Addr.item.inj heq).symm
  have hptr : ∀ x, ptr m = some x → x ≠ .item a ∧ x ≠ .item c ∧ x ≠ parentOf ctx := by
    intro x hx
    cases x with
    | root => exact absurd hx (ptr_ne_root m)
    | item i =>
      obtain ⟨hic, -, hia, -, hictx⟩ := hmfresh i (mem_of_ptr hx)
      exact ⟨by simpa using hia, by simpa using hic, (parentOf_ne hictx).symm⟩
  have hma : ptr m ≠ some (.item a) := fun hx => (hptr _ hx).1 rfl
  -- the links after the rotation
  let h' := ((((((h.setChild s (.item a) (ptr m)).setChild s.other (.item c) (some (.item a))).setChild
    (sideOf ctx) (parentOf ctx) (some (.item c))).setParent? (ptr m) (.item a)).setParent (.item c)
    (some (parentOf ctx))).setParent (.item a) (some (.item c)))
  have hrun : h.rotate s.other (.item a) = some (h', .item c) := by
    have hside := habove.side_eq hactx s.other
    rw [Side.other_other] at hside
    have hpick : ∀ (g : Heap ι) (q : Prop) [Decidable q] (x : Addr ι) (p : Option (Addr ι)),
        (if q then g.setChild s.other x p else g.setChild s x p)
          = g.setChild (if q then s.other else s) x p := by
      intro g q _ x p
      split <;> rfl
    unfold Heap.rotate
    simp only [Side.other_other, hA.child, Option.bind_eq_bind, Option.bind_some, hC.other,
      Heap.parent_setChild, hA.parent, hpick, Heap.child_setChild, hPA, hPC, false_and, if_false,
      hside, hPA.symm, Side.ne_other, and_false, and_self, if_true, Heap.parent_setParent?, hma]
    rfl
  have hpar : ∀ x, (h' x).parent = if x = .item a then some (.item c) else if x = .item c then
      some (parentOf ctx) else if ptr m = some x then some (.item a) else (h x).parent := by
    intro x
    simp [h', Heap.parent_setParent, Heap.parent_setParent?]
  have hchild : ∀ x u, (h' x).child u = if x = parentOf ctx ∧ u = sideOf ctx then some (.item c)
      else if x = .item c ∧ u = s.other then some (.item a) else if x = .item a ∧ u = s then ptr m
      else (h x).child u := by
    intro x u
    simp [h', Heap.child_setChild]
  have hbalance : ∀ x, (h' x).balance = (h x).balance := fun x => by simp [h']
  have hnotRoot : ∀ x, (h' x).isNotRoot = (h x).isNotRoot := fun x => by simp [h']
  have hinList : ∀ x, (h' x).inList = (h x).inList := fun x => by simp [h']
  have hkeep : ∀ x, x ≠ .item a → x ≠ .item c → x ≠ parentOf ctx → ptr m ≠ some x →
      SameLinks (h' x) (h x) := by
    intro x ha hc hp hm'
    exact ⟨by simp [hpar, ha, hc, hm'], fun u => by simp [hchild, ha, hc, hp], hbalance x, hnotRoot x⟩
  clear_value h'
  have hout : ∀ i, i ≠ a → i ≠ c → i ∉ labels ctx → i ∉ m.toList →
      SameLinks (h' (.item i)) (h (.item i)) := by
    intro i ha hc hctx hi
    exact hkeep _ (by simpa using ha) (by simpa using hc) (parentOf_ne hctx).symm
      (fun hx => hi (mem_of_ptr hx))
  have hlist := toList_rotate s l m o c a bc b bc b
  refine ⟨h', hrun, ⟨?_, rep_fork.mpr ⟨?_, hl.congr ?_, rep_fork.mpr ⟨?_, hm.reparent ?_ ?_ ?_,
    ho.congr ?_⟩⟩, hlist ▸ hat.nodup⟩, hlist, ?_, hinList⟩
  · -- the parent points to the new top
    rw [ptr_fork]
    refine habove.relink (nodup_append.mp hat.nodup).2.1 ⟨?_, ?_, ?_, hbalance _, hnotRoot _⟩ ?_ ?_
    · rw [hpar, if_neg hPA, if_neg hPC, if_neg (fun hx => (hptr _ hx).2.2 rfl)]
    · rw [hchild, if_pos ⟨rfl, rfl⟩]
    · simp [hchild, hPA, hPC]
    · intro hroot
      exact hkeep _ (by simp) (by simp) hroot.symm (ptr_ne_root m)
    · intro i hi hne
      have hia : i ≠ a := fun heq => hactx (heq ▸ hi)
      have hic : i ≠ c := fun heq => hcctx (heq ▸ hi)
      exact hkeep _ (by simpa using hia) (by simpa using hic) hne.symm
        (fun hx => (hmfresh i (mem_of_ptr hx)).2.2.2.2 hi)
  · -- the new top
    exact ⟨by simp [hpar, hAC.symm], by simp [hchild, hPC.symm, hAC.symm, hC.child],
      by simp [hchild, hPC.symm], (hbalance _).trans hC.balance, (hnotRoot _).trans hC.isNotRoot⟩
  · intro i hi
    obtain ⟨hic, him, hia, hio, hictx⟩ := hlfresh i hi
    exact hout i hia hic hictx him
  · -- the node that went down
    exact ⟨by simp [hpar], by simp [hchild, hPA.symm], by simp [hchild, hPA.symm, hAC, hA.other],
      (hbalance _).trans hA.balance, (hnotRoot _).trans hA.isNotRoot⟩
  · exact (nodup_append.mp hat.child.other.nodup).1
  · intro i hi
    obtain ⟨hia, hic, hip⟩ := hptr _ hi
    exact ⟨by simp [hpar, hia, hic, hi], fun u => by simp [hchild, hia, hic, hip], hbalance _,
      hnotRoot _⟩
  · intro i hi hne
    obtain ⟨hic, -, hia, -, hictx⟩ := hmfresh i hi
    exact hkeep _ (by simpa using hia) (by simpa using hic) (parentOf_ne hictx).symm hne
  · intro i hi
    obtain ⟨hia, ⟨-, hic, him⟩, hictx⟩ := hofresh i hi
    exact hout i hia hic hictx him
  · intro i hi
    simp only [mem_toList_plug, mem_toList_fork, not_or] at hi
    obtain ⟨⟨⟨-, hic, him⟩, hia, -⟩, hictx⟩ := hi
    exact hout i hia hic hictx him

/-! ## §4. Rebalancing. -/

/-- Writing what is already there. -/
theorem Heap.modify_self {f : MapItem ι → MapItem ι} (hx : f (h x) = h x) : h.modify x f = h := by
  apply Heap.ext
  funext y
  rw [h.modify_apply]
  split
  next hy => rw [hx, hy]
  next => rfl

theorem Heap.setChild_self {p : Option (Addr ι)} (hx : (h x).child s = p) :
    h.setChild s x p = h := by
  refine Heap.modify_self ?_
  subst hx
  cases s <;> rfl

theorem Heap.setParent_self {p : Option (Addr ι)} (hx : (h x).parent = p) :
    h.setParent x p = h := by
  refine Heap.modify_self ?_
  subst hx
  rfl

theorem doubleBalance_eq (s : Side) (b : Balance) :
    Heap.doubleBalance s b = (topBalance s b, childBalance s b) := by
  cases s <;> cases b <;> rfl

section Double

variable {l m x y : Shape ι} {c g : ι} {bc bg : Balance}

/-- **The inner rotation** of a double rotation: the grandchild comes above the child. -/
theorem At.rotate_inner (hat : At h ctx (fork s (fork s l c bc (fork s x g bg y)) a b o)) :
    ∃ h', h.rotate s (.item c) = some (h', .item g)
      ∧ Moves ctx h (fork s (fork s l c bc (fork s x g bg y)) a b o) h'
          (fork s (fork s (fork s l c bc x) g bg y) a b o) := by
  have hdown := hat.child
  rw [← fork_other s (fork s x g bg y), ← fork_other s y] at hdown
  obtain ⟨h', hrun, hmove⟩ := hdown.rotate
  rw [Side.other_other] at hrun
  rw [fork_other, fork_other s x, fork_other, fork_other s y] at hmove
  exact ⟨h', hrun, hmove.child⟩

/-- **The balances of a double rotation are set**, and the grandchild comes above the
child. -/
theorem At.double (hat : At h ctx (fork s (fork s l c bc (fork s x g bg y)) a b o))
      (ba' bc' : Balance) :
    ∃ h', (((h.setBalance (.item a) ba').setBalance (.item c) bc').setBalance (.item g) .even).rotate s
          (.item c) = some (h', .item g)
      ∧ Moves ctx h (fork s (fork s l c bc (fork s x g bg y)) a b o) h'
          (fork s (fork s (fork s l c bc' x) g .even y) a ba' o) := by
  have htop := hat.setBalance ba'
  have hchild := (htop.holds.child.setBalance bc').child
  have hinner := (hchild.holds.child.other.setBalance .even).other.child
  obtain ⟨h', hrun, hmove⟩ := hinner.holds.rotate_inner
  exact ⟨h', hrun, htop.trans (hchild.trans (hinner.trans hmove))⟩

/-- A rotation, and then the balances of the node that went down and of the new top. -/
theorem At.rotate_balances (hat : At h ctx (fork s (fork s l c bc m) a b o)) (ba' bc' : Balance) :
    ∃ h', h.rotate s.other (.item a) = some (h', .item c)
      ∧ Moves ctx h (fork s (fork s l c bc m) a b o)
          ((h'.setBalance (.item a) ba').setBalance (.item c) bc')
          (fork s l c bc' (fork s m a ba' o)) := by
  obtain ⟨h', hrun, hmove⟩ := hat.rotate
  have hdown := (hmove.holds.other.setBalance ba').other
  exact ⟨h', hrun, hmove.trans (hdown.trans (hdown.holds.setBalance bc'))⟩

/-- **`grewLeft` and `grewRight`** rotate. -/
theorem At.grew {t u : Shape ι} (hat : At h ctx (fork s t a b o)) (hrot : Rotated s a o t u true) :
    ∃ h', h.grew s (.item a) = some (h', false) ∧ Moves ctx h (fork s t a b o) h' u := by
  cases hrot with
  | single l m c =>
    obtain ⟨hchild, hbalance, -⟩ := hat.reads
    have htop := hat.setBalance .even
    have hlow := (htop.holds.child.setBalance .even).child
    obtain ⟨h', hrun, hmove⟩ := hlow.holds.rotate
    refine ⟨h', ?_, htop.trans (hlow.trans hmove)⟩
    unfold Heap.grew
    simp only [hchild, Option.bind_eq_bind, Option.bind_some, hbalance, hrun]
    rfl
  | double l x y c g bg =>
    obtain ⟨hchild, hbalance, -⟩ := hat.reads
    obtain ⟨hinner, hbg⟩ := hat.reads_inner
    obtain ⟨h₁, hrun₁, hmove₁⟩ := hat.double (topBalance s bg) (childBalance s bg)
    obtain ⟨h', hrun, hmove⟩ := hmove₁.holds.rotate
    -- the links that `grew` writes once more are there already
    have hA := hmove₁.holds.reads.1
    have hG : (h₁ (.item g)).parent = some (.item a) :=
      (rep_fork.mp hmove₁.holds.child.rep).1.parent
    refine ⟨h', ?_, hmove₁.trans hmove⟩
    unfold Heap.grew
    simp only [hchild, Option.bind_eq_bind, Option.bind_some, hbalance, Side.other_heavy_ne,
      Side.heavy_ne_even, hinner, hbg, doubleBalance_eq, hrun₁, Heap.setChild_self hA,
      Heap.setParent_self hG, hrun]
    rfl

/-- **`rightShorter` and `leftShorter`** rotate. -/
theorem At.otherShorter {t u : Shape ι} {lower : Bool} (hat : At h ctx (fork s t a b o))
    (hrot : Rotated s a o t u lower) :
    ∃ h', h.otherShorter s (.item a) = some (h', lower) ∧ Moves ctx h (fork s t a b o) h' u := by
  cases hrot with
  | single l m c =>
    obtain ⟨hchild, hbalance, -⟩ := hat.reads
    obtain ⟨h₁, hrun, hmove⟩ := hat.rotate_balances .even .even
    refine ⟨_, ?_, hmove⟩
    unfold Heap.otherShorter
    simp only [hchild, Option.bind_eq_bind, Option.bind_some, hbalance, hrun]
    rfl
  | singleEven l m c =>
    obtain ⟨hchild, hbalance, -⟩ := hat.reads
    obtain ⟨h₁, hrun, hmove⟩ := hat.rotate_balances s.heavy s.other.heavy
    refine ⟨_, ?_, hmove⟩
    unfold Heap.otherShorter
    simp only [hchild, Option.bind_eq_bind, Option.bind_some, hbalance, Side.even_ne_heavy, hrun]
    rfl
  | double l x y c g bg =>
    obtain ⟨hchild, hbalance, -⟩ := hat.reads
    obtain ⟨hinner, hbg⟩ := hat.reads_inner
    obtain ⟨h₁, hrun₁, hmove₁⟩ := hat.double (topBalance s bg) (childBalance s bg)
    obtain ⟨h', hrun, hmove⟩ := hmove₁.holds.rotate
    refine ⟨h', ?_, hmove₁.trans hmove⟩
    unfold Heap.otherShorter
    simp only [hchild, Option.bind_eq_bind, Option.bind_some, hbalance, Side.other_heavy_ne,
      Side.heavy_ne_even, hinner, hbg, doubleBalance_eq, hrun₁, hrun]
    rfl

end Double

end Ops

end ColonyCore.Container
