/-
  ColonyCore.Container.AvlIterate
  **WALKING THE AVL TREE IN ORDER**, over the parent links.

  The successor of a node is the first one of its right subtree, or else the first node
  above it that it lies to the left of; the predecessor is its mirror image but for the
  helper node, whose only child is the left one.

    • `Below.climb` — how far up the loops go,
    • `At.next`, `At.previous` — successor and predecessor in the order of the tree,
    • `tree_iterates` — for every tree that is reached: both walks visit every item once.
-/
import ColonyCore.Container.AvlInvariant

namespace ColonyCore.Container

open AvlShape Shape

variable {ι κ : Type}

namespace Heap

variable [DecidableEq ι]

/-- The loop of `next` and `previous`: up while the node is the child on side `s`. -/
def climb (s : Side) (h : Heap ι) : Nat → Addr ι → Option (Addr ι)
  | 0, _ => none
  | fuel + 1, parentPtr =>
    if (h parentPtr).isNotRoot then do
      let upPtr ← (h parentPtr).parent
      if (h upPtr).child s = some parentPtr then climb s h fuel upPtr else return parentPtr
    else some parentPtr

/-- `next`. -/
def next (fuel : Nat) (h : Heap ι) (node : Addr ι) : Option (Option (Addr ι)) :=
  match (h node).right with
  | some rightPtr => (extreme .left h fuel rightPtr).map some
  | none => do
      let parentPtr ← (h node).parent
      if (h parentPtr).left = some node then
        return if (h parentPtr).isNotRoot then some parentPtr else none
      else if (h parentPtr).right = some node then
        let parentPtr ← climb .right h fuel parentPtr
        let upPtr ← (h parentPtr).parent
        return if (h upPtr).isNotRoot then some upPtr else none
      else return none

/-- `previous`; here the loop may end at the helper node, which has no parent. -/
def previous (fuel : Nat) (h : Heap ι) (node : Addr ι) : Option (Option (Addr ι)) :=
  match (h node).left with
  | some leftPtr => (extreme .right h fuel leftPtr).map some
  | none => do
      let parentPtr ← (h node).parent
      if (h parentPtr).right = some node then return some parentPtr
      else if (h parentPtr).left = some node then
        let parentPtr ← climb .left h fuel parentPtr
        if (h parentPtr).isNotRoot then
          let upPtr ← (h parentPtr).parent
          return if (h upPtr).isNotRoot then some upPtr else none
        else return none
      else return none

/-- The nodes a walk visits, from a pointer until it is null. -/
def visits (step : Addr ι → Option (Option (Addr ι))) :
    Nat → Option (Addr ι) → Option (List (Addr ι))
  | _, none => some []
  | 0, some _ => none
  | fuel + 1, some node => do
      let rest ← visits step fuel (← step node)
      return node :: rest

end Heap

variable {t : Shape ι} {h : Heap ι} {fuel : Nat}

/-! ## §1. The way up. -/

section Climb

variable {h : Heap ι} {ctx : List (Frame ι)} {i : ι} {fuel : Nat}

/-- A node in its context, as the loops see it. -/
structure Below (h : Heap ι) (ctx : List (Frame ι)) (i : ι) : Prop where
  above : Above h ctx (some (.item i))
  parent : (h (.item i)).parent = some (parentOf ctx)
  isNotRoot : (h (.item i)).isNotRoot = true
  nodup : (i :: labels ctx).Nodup

theorem Below.up {f : Frame ι} {fs : List (Frame ι)} (hb : Below h (f :: fs) i) :
    Below h fs f.label := by
  obtain ⟨⟨hnode, -, habove⟩, -, -, hnodup⟩ := hb
  have hsub : (f.label :: labels fs).Sublist (i :: labels (f :: fs)) := by
    refine .cons _ (.cons_cons _ ?_)
    exact List.sublist_append_right _ _
  exact ⟨habove, hnode.parent, hnode.isNotRoot, hnodup.sublist hsub⟩

theorem Below.fresh (hb : Below h ctx i) : i ∉ labels ctx := (List.nodup_cons.mp hb.nodup).1

theorem At.below {l r : Shape ι} {x : ι} {b : Balance} (hat : At h ctx (.node l x b r)) :
    Below h ctx x := by
  have hmem : x ∈ (Shape.node l x b r).toList := List.mem_append_right _ List.mem_cons_self
  obtain ⟨hnode, -, -⟩ := hat.rep
  exact ⟨hat.above, hnode.parent, hnode.isNotRoot,
    List.nodup_cons.mpr ⟨hat.disjoint hmem, (List.nodup_append.mp hat.nodup).2.1⟩⟩

variable [DecidableEq ι]

/-- What the node's parent says about its sides. -/
theorem Below.child_iff (hb : Below h ctx i) (s : Side) :
    (h (parentOf ctx)).child s = some (.item i) ↔ sideOf ctx = s := by
  have hside := hb.above.side_eq hb.fresh s
  constructor
  · intro hs
    rw [if_pos hs] at hside
    exact hside.symm
  · rintro rfl
    exact hb.above.child

/-- One turn of the loop, by the side the node hangs on. -/
theorem Below.climb_succ (hb : Below h ctx i) (s : Side) (fuel : Nat) :
    h.climb s (fuel + 1) (.item i) =
      if sideOf ctx = s then h.climb s fuel (parentOf ctx) else some (.item i) := by
  show (if (h (.item i)).isNotRoot = true then
      (h (.item i)).parent.bind fun upPtr =>
        if (h upPtr).child s = some (.item i) then h.climb s fuel upPtr else some (.item i)
    else some (.item i)) = _
  rw [hb.isNotRoot, if_pos rfl, hb.parent, Option.bind_some]
  exact if_congr (hb.child_iff s) rfl rfl

/-- The loop stops at the helper node. -/
theorem Above.climb_root {p : Option (Addr ι)} (habove : Above h [] p) (s : Side) (fuel : Nat) :
    h.climb s (fuel + 1) .root = some .root := by
  unfold Heap.climb
  rw [habove.2.2, if_neg Bool.false_ne_true]

/-- What comes next to a context: after it or, if the way up is by left links, before it. -/
def beside (s : Side) (ctx : List (Frame ι)) : Option ι :=
  match s with
  | .left => (before ctx).getLast?
  | .right => (after ctx).head?

/-- **The loop climbs** to the node whose parent, if it is not the helper node, is next to the
subtree it started from; by left links it may end at the helper node. -/
theorem Below.climb (s : Side) (hb : Below h ctx i) (hfuel : ctx.length + 1 < fuel) :
    ∃ p, h.climb s fuel (.item i) = some p ∧
      (s = .left ∧ (h p).isNotRoot = false ∧ beside s ctx = none ∨
        ∃ up, (h p).isNotRoot = true ∧ (h p).parent = some up ∧
          (if (h up).isNotRoot then some up else none) = (beside s ctx).map .item) := by
  induction ctx generalizing i fuel with
  | nil =>
    obtain ⟨m, rfl⟩ : ∃ m, fuel = m + 2 := ⟨fuel - 2, by simp at hfuel; omega⟩
    have hroot := hb.above.2.2
    rw [hb.climb_succ]
    cases s with
    | left =>
      exact ⟨.root, hb.above.climb_root .left m, .inl ⟨rfl, hroot, rfl⟩⟩
    | right =>
      refine ⟨.item i, if_neg (fun heq => nomatch heq), .inr ⟨.root, hb.isNotRoot, hb.parent, ?_⟩⟩
      rw [hroot]
      rfl
  | cons f fs ih =>
    obtain ⟨m, rfl⟩ : ∃ m, fuel = m + 1 := ⟨fuel - 1, by omega⟩
    rw [hb.climb_succ]
    obtain ⟨side, a, b, o⟩ := f
    by_cases hs : side = s
    · subst hs
      obtain ⟨p, hrun, hp⟩ := ih hb.up (Nat.lt_of_succ_lt_succ hfuel)
      refine ⟨p, (if_pos rfl).trans hrun, ?_⟩
      cases side <;> exact hp
    · -- the parent is next to the subtree: stop here
      refine ⟨.item i, if_neg hs, .inr ⟨.item a, hb.isNotRoot, hb.parent, ?_⟩⟩
      rw [hb.up.isNotRoot]
      cases s <;> cases side <;> first | exact absurd rfl hs | simp [beside, before, after]

end Climb

/-! ## §2. Successor and predecessor. -/

section Neighbours

variable {h : Heap ι} {ctx : List (Frame ι)} {l r : Shape ι} {x : ι} {b : Balance} {fuel : Nat}
  [DecidableEq ι]

/-- The two tests of the side a node hangs on. -/
theorem Below.sides (hb : Below h ctx x) (s : Side) {α : Type} (p q e : α) :
    (if (h (parentOf ctx)).child s = some (.item x) then p
      else if (h (parentOf ctx)).child s.other = some (.item x) then q else e)
      = if sideOf ctx = s then p else q := by
  simp only [hb.child_iff]
  rcases s.eq_or_eq_other (sideOf ctx) with hs | hs <;> simp [hs]

/-- **`next` is the successor.** -/
theorem At.next (hat : At h ctx (.node l x b r)) (hr : r.height ≤ fuel) (hctx : ctx.length < fuel) :
    h.next fuel (.item x) = some ((r.toList ++ after ctx).head?.map .item) := by
  obtain ⟨hnode, -, hrep⟩ := hat.rep
  have hb := hat.below
  have hright : (h (.item x)).right = ptr r := hnode.other
  unfold Heap.next
  rw [hright]
  cases hp : ptr r with
  | some y =>
    obtain ⟨c, hc, hrun⟩ := hrep.extreme_end .left hp hr
    have hhead : r.toList.head? = some c := hc
    show (h.extreme .left fuel y).map some = _
    rw [hrun, List.head?_append, hhead]
    rfl
  | none =>
    obtain rfl := eq_nil_of_ptr hp
    show (h (.item x)).parent.bind _ = some ((after ctx).head?.map Addr.item)
    rw [hb.parent, Option.bind_some]
    refine (hb.sides .left _ _ _).trans ?_
    cases ctx with
    | nil =>
      show some (if (h (parentOf [])).isNotRoot = true then _ else _) = _
      rw [show (h (parentOf [])).isNotRoot = false from hb.above.2.2]
      rfl
    | cons f fs =>
      have hup := hb.up
      obtain ⟨side, a, c, o⟩ := f
      cases side with
      | left =>
        show some (if (h (.item a)).isNotRoot then _ else _) = _
        rw [hup.isNotRoot]
        rfl
      | right =>
        obtain ⟨p, hclimb, ⟨hs, -⟩ | ⟨up, -, hparent, hafter⟩⟩ := hup.climb .right hctx
        · cases hs
        show (h.climb .right fuel (.item a)).bind _ = _
        rw [hclimb, Option.bind_some, hparent]
        exact congrArg some hafter

/-- **`previous` is the predecessor.** -/
theorem At.previous (hat : At h ctx (.node l x b r)) (hl : l.height ≤ fuel)
    (hctx : ctx.length < fuel) :
    h.previous fuel (.item x) = some ((before ctx ++ l.toList).getLast?.map .item) := by
  obtain ⟨hnode, hrep, -⟩ := hat.rep
  have hb := hat.below
  have hleft : (h (.item x)).left = ptr l := hnode.child
  unfold Heap.previous
  rw [hleft]
  cases hp : ptr l with
  | some y =>
    obtain ⟨c, hc, hrun⟩ := hrep.extreme_end .right hp hl
    have hlast : l.toList.getLast? = some c := hc
    show (h.extreme .right fuel y).map some = _
    rw [hrun, List.getLast?_append, hlast]
    rfl
  | none =>
    obtain rfl := eq_nil_of_ptr hp
    show (h (.item x)).parent.bind _ = some ((before ctx ++ []).getLast?.map Addr.item)
    rw [hb.parent, Option.bind_some, List.append_nil]
    refine (hb.sides .right _ _ _).trans ?_
    cases ctx with
    | nil =>
      obtain ⟨m, rfl⟩ : ∃ m, fuel = m + 1 := ⟨fuel - 1, by simp at hctx; omega⟩
      show (h.climb .left (m + 1) .root).bind _ = _
      rw [hb.above.climb_root, Option.bind_some, hb.above.2.2]
      rfl
    | cons f fs =>
      have hup := hb.up
      obtain ⟨side, a, c, o⟩ := f
      cases side with
      | right =>
        simp [before, parentOf, sideOf]
      | left =>
        obtain ⟨p, hclimb, hend⟩ := hup.climb .left hctx
        show (h.climb .left fuel (.item a)).bind _ = some ((beside .left fs).map Addr.item)
        rw [hclimb, Option.bind_some]
        rcases hend with ⟨-, hroot, hnone⟩ | ⟨up, hnot, hparent, hbefore⟩
        · rw [hroot, hnone]
          rfl
        · rw [hnot, hparent, ← hbefore]
          rfl

end Neighbours

/-! ## §3. Walks over the whole tree. -/

theorem height_le_size (t : Shape ι) : t.height ≤ t.size := by
  induction t with
  | nil => exact Nat.le_refl 0
  | node l a b r ihl ihr =>
    rw [size_node]
    unfold height
    omega

/-- A walk that takes the successor at every item visits the list. -/
theorem visits_eq {step : Addr ι → Option (Option (Addr ι))} {xs : List ι}
    (hstep : ∀ pre x post, xs = pre ++ x :: post → step (.item x) = some (post.head?.map .item))
    (hfuel : xs.length ≤ fuel) :
    Heap.visits step fuel (xs.head?.map .item) = some (xs.map .item) := by
  suffices h : ∀ post pre fuel, xs = pre ++ post → post.length ≤ fuel →
      Heap.visits step fuel (post.head?.map .item) = some (post.map .item) from
    h xs [] fuel rfl hfuel
  intro post
  induction post with
  | nil =>
    intro _ fuel _ _
    cases fuel <;> rfl
  | cons x post ih =>
    intro pre fuel hxs hlen
    obtain ⟨m, rfl⟩ : ∃ m, fuel = m + 1 := ⟨fuel - 1, by simp at hlen; omega⟩
    have hrest := ih (pre ++ [x]) m (by simp [hxs]) (by simpa using hlen)
    show (step (.item x)).bind _ = _
    rw [hstep pre x post hxs, Option.bind_some, hrest]
    rfl

/-- An item of the tree in focus, with what comes before and after it. -/
theorem At.focus {pre post : List ι} {x : ι} (hat : At h [] t)
    (hsplit : t.toList = pre ++ x :: post) :
    ∃ ctx l b r, At h ctx (.node l x b r) ∧ t = plug ctx (.node l x b r) ∧
      pre = before ctx ++ l.toList ∧ post = r.toList ++ after ctx := by
  have hmem : x ∈ t.toList := by
    rw [hsplit]
    exact List.mem_append_right _ List.mem_cons_self
  have hnodup : t.toList.Nodup := (List.nodup_append.mp hat.nodup).1
  obtain ⟨ctx, l, b, r, rfl⟩ := exists_plug hmem
  have hlist : (plug ctx (.node l x b r)).toList =
      (before ctx ++ l.toList) ++ x :: (r.toList ++ after ctx) := by
    simp [toList_plug, toList]
  have hfresh : ∀ {front back : List ι}, (front ++ x :: back).Nodup → x ∉ front ∧ x ∉ back := by
    intro front back hn
    obtain ⟨-, hback, hdisj⟩ := List.nodup_append.mp hn
    exact ⟨fun hx => hdisj x hx x List.mem_cons_self rfl, (List.nodup_cons.mp hback).1⟩
  have h₁ := hfresh (hsplit ▸ hnodup)
  obtain ⟨hpre, -, hpost⟩ :=
    (List.append_cons_inj_of_notMem h₁.1 h₁.2).mp (hsplit.symm.trans hlist)
  exact ⟨ctx, l, b, r, at_plug.mpr hat, rfl, hpre, hpost⟩

variable [DecidableEq ι]

/-- **The order the tree is walked in.** -/
structure Iterates (h : Heap ι) (fuel : Nat) (xs : List ι) : Prop where
  /-- `first` followed by `next` until it is 0. -/
  forward : (h.first fuel).bind (Heap.visits (h.next fuel) fuel) = some (xs.map .item)
  /-- `last` followed by `previous`. -/
  backward : (h.last fuel).bind (Heap.visits (h.previous fuel) fuel) =
    some (xs.reverse.map .item)
  next : ∀ pre x post, xs = pre ++ x :: post →
    h.next fuel (.item x) = some (post.head?.map .item)
  previous : ∀ pre x post, xs = pre ++ x :: post →
    h.previous fuel (.item x) = some (pre.getLast?.map .item)

/-- **Every heap that holds a tree** is walked in the order of the tree. -/
theorem At.iterates (hat : At h [] t) (hfuel : t.size < fuel) : Iterates h fuel t.toList := by
  have hheight : t.height ≤ fuel := (height_le_size t).trans (Nat.le_of_lt hfuel)
  have hnext : ∀ pre x post, t.toList = pre ++ x :: post →
      h.next fuel (.item x) = some (post.head?.map .item) := by
    intro pre x post hsplit
    obtain ⟨ctx, l, b, r, hfocus, rfl, -, rfl⟩ := hat.focus hsplit
    have hlen := length_add_height_le ctx (.node l x b r)
    have hnode : (Shape.node l x b r).height = max l.height r.height + 1 := rfl
    exact hfocus.next (by omega) (by omega)
  have hprevious : ∀ pre x post, t.toList = pre ++ x :: post →
      h.previous fuel (.item x) = some (pre.getLast?.map .item) := by
    intro pre x post hsplit
    obtain ⟨ctx, l, b, r, hfocus, rfl, rfl, -⟩ := hat.focus hsplit
    have hlen := length_add_height_le ctx (.node l x b r)
    have hnode : (Shape.node l x b r).height = max l.height r.height + 1 := rfl
    exact hfocus.previous (by omega) (by omega)
  refine ⟨?_, ?_, hnext, hprevious⟩
  · rw [Heap.first, hat.endmost .left hheight]
    exact visits_eq hnext (Nat.le_of_lt hfuel)
  · rw [Heap.last, hat.endmost .right hheight]
    show Heap.visits _ _ (t.toList.getLast?.map Addr.item) = _
    rw [← List.head?_reverse]
    refine visits_eq ?_ (by rw [List.length_reverse]; exact Nat.le_of_lt hfuel)
    intro pre x post hsplit
    have hsplit' : t.toList = post.reverse ++ x :: pre.reverse := by
      rw [← List.reverse_reverse t.toList, hsplit]
      simp
    rw [hprevious _ _ _ hsplit', List.getLast?_reverse]

/-- **IN-ORDER ITERATION.**  Every tree reached by a sequence of `insert` and `removeItem`
is walked in the order of the keys, forwards and backwards, over exactly the items it
holds; `next` and `previous` of an item are its neighbours in that order. -/
theorem tree_iterates (K : Keys ι κ) (hK : K.Ordered) (ops : List (TreeOp ι)) (fuel : Nat)
    (hfuel : ops.length < fuel) (h : Heap ι)
    (hrun : (Heap.empty : Heap ι).applyAll K fuel ops = some h) :
    ∃ xs, xs.Perm (heldAfter K ops) ∧ K.Sorted xs ∧ Iterates h fuel xs := by
  obtain ⟨t, ht⟩ := (holds_empty K).of_applyAll hK ops (by simpa using hfuel) hrun
  refine ⟨t.toList, ht.items, ht.sorted, ht.links.iterates ?_⟩
  have hsize : t.size = (heldAfter K ops).length := ht.items.length_eq
  have hlen := length_foldl_held_le K [] ops
  rw [List.length_nil] at hlen
  unfold heldAfter at hsize
  omega

/-- Three insertions and a removal. -/
theorem tree_iterates_three :
    ∃ h, (Heap.empty : Heap Nat).applyAll natKeys 5
        [.insert 2, .insert 1, .insert 3, .removeItem 2] = some h ∧
      ∃ xs, xs.Perm [3, 1] ∧ natKeys.Sorted xs ∧ Iterates h 5 xs := by
  obtain ⟨h, hrun⟩ : ∃ h, (Heap.empty : Heap Nat).applyAll natKeys 5
      [.insert 2, .insert 1, .insert 3, .removeItem 2] = some h := ⟨_, rfl⟩
  exact ⟨h, hrun, tree_iterates natKeys natKeys_ordered _ 5 (by decide) h hrun⟩

end ColonyCore.Container
