/-
  ColonyCore.Container.AvlRemove
  **REMOVING FROM THE AVL TREE.**

  A node with two children first changes places with its predecessor
  (`At.exchangeWithPrev`): the same tree with the two labels exchanged, which for a
  moment is out of order.  Then the node has at most one child, which takes its place
  (`At.unlink`), and the way up applies the rules for shrinking (`At.removeClimb`).
-/
import ColonyCore.Container.AvlInsert

namespace ColonyCore.Container

open AvlShape Shape Option

variable {ι : Type} {h : Heap ι} {ctx : List (Frame ι)}

/-! ## §1. Spines. -/

/-- The top of a tree with a node in it. -/
theorem ptr_plug (ctx : List (Frame ι)) (l : Shape ι) (a : ι) (b : Balance) (r : Shape ι) :
    ∃ i, ptr (plug ctx (.node l a b r)) = some (.item i) := by
  cases hptr : plug ctx (.node l a b r) with
  | node _ i _ _ => exact ⟨i, rfl⟩
  | nil =>
    have hmem : a ∈ (plug ctx (.node l a b r)).toList := mem_toList_plug.mpr (.inl (mem_of_ptr rfl))
    rw [hptr] at hmem
    cases hmem

variable {f : Frame ι}

variable {spine : List (Frame ι)} {p : ι} {bp : Balance} {pl : Shape ι} {fuel : Nat}
  {child : Bool}

/-- The loop of `exchangeWithPrev` follows the spine. -/
theorem findPrev_spine (hspine : ∀ f ∈ spine, f.side = .right) {par x : Addr ι}
    (hrep : Rep h par (plug spine (.node pl p bp .nil)))
    (hx : ptr (plug spine (.node pl p bp .nil)) = some x) (hfuel : spine.length < fuel) :
    h.findPrev fuel x child = some (.item p, if spine = [] then child else false) := by
  -- from the top of the spine down, that is from its last frame
  induction spine using List.reverseRecOn generalizing par x fuel child with
  | nil =>
    cases hx
    obtain ⟨m, rfl⟩ : ∃ m, fuel = m + 1 := ⟨fuel - 1, by omega⟩
    have hright : (h (.item p)).right = none := hrep.1.other
    unfold Heap.findPrev
    rw [hright]
    rfl
  | append_singleton fs f ih =>
    rw [plug_append] at hrep hx
    obtain ⟨m, rfl⟩ : ∃ m, fuel = m + 1 := ⟨fuel - 1, by omega⟩
    have hf : f.side = .right := hspine f (List.mem_append_right _ List.mem_cons_self)
    change Rep h par (fork f.side _ _ _ _) at hrep
    change ptr (fork f.side _ _ _ _) = _ at hx
    rw [ptr_fork] at hx
    cases hx
    rw [hf] at hrep
    obtain ⟨hnode, hdown, -⟩ := rep_fork.mp hrep
    have hlen : fs.length < m := by
      rw [List.length_append] at hfuel
      simp only [List.length_cons] at hfuel
      omega
    obtain ⟨y, hy⟩ := ptr_plug fs pl p bp .nil
    have hright : (h (.item f.label)).right = some (.item y) := hnode.child.trans hy
    unfold Heap.findPrev
    rw [hright]
    simp only
    rw [ih (fun g hg => hspine g (List.mem_append_left _ hg)) hdown hy hlen]
    simp

variable {t : Shape ι}

/-- A subtree outside the context is not the node above the focus. -/
theorem ptr_ne_parentOf (hfresh : ∀ i ∈ t.toList, i ∉ labels ctx) :
    ptr t ≠ some (parentOf ctx) := by
  cases ctx with
  | nil => exact ptr_ne_root t
  | cons f fs => exact fun hptr => hfresh _ (mem_of_ptr hptr) List.mem_cons_self

variable {a : ι} {b : Balance} {R : Shape ι}

/-- The focus moves over several frames. -/
theorem at_append {inner : List (Frame ι)} : At h (inner ++ ctx) t ↔ At h ctx (plug inner t) := by
  induction inner generalizing t with
  | nil => exact Iff.rfl
  | cons f fs ih => exact at_attach.symm.trans ih

/-- **The places of an exchange**: the node `a`, its predecessor `p` and the spine between
them are apart from the subtrees that move and from the context. -/
structure Apart (spine : List (Frame ι)) (a p : ι) (pl R : Shape ι) (ctx : List (Frame ι)) : Prop where
  ne : a ≠ p
  spine_ne : ∀ i ∈ labels spine, i ≠ a ∧ i ≠ p
  nodup : (labels spine).Nodup
  parts : (pl.toList ++ R.toList ++ labels ctx).Nodup
  fresh : ∀ i ∈ a :: p :: labels spine, i ∉ pl.toList ++ R.toList ++ labels ctx

theorem At.apart (hat : At h (spine ++ ⟨.left, a, b, R⟩ :: ctx) (.node pl p bp .nil)) :
    Apart spine a p pl R ctx := by
  have hnodup : (pl.toList ++ p :: (labels spine ++ (a :: (R.toList ++ labels ctx)))).Nodup := by
    simpa [Shape.toList, labels] using hat.nodup
  have hsub : List.Sublist (pl.toList ++ R.toList ++ labels ctx)
      (pl.toList ++ p :: (labels spine ++ (a :: (R.toList ++ labels ctx)))) := by
    rw [List.append_assoc]
    exact List.Sublist.append_left ((List.sublist_append_right (p :: labels spine ++ [a]) _).trans (by simp)) _
  have hspine := (List.nodup_cons.mp (List.nodup_append.mp hnodup).2.1).2
  refine ⟨?_, ?_, hspine.sublist (List.sublist_append_left _ _), hnodup.sublist hsub, ?_⟩
  · rintro rfl
    simp [List.nodup_append] at hnodup
  · intro i hi
    exact ⟨by grind, by grind⟩
  · grind

theorem Apart.ptr_ne {i : ι} (hap : Apart spine a p pl R ctx) (hi : i ∈ a :: p :: labels spine) :
    ptr pl ≠ some (.item i) ∧ ptr R ≠ some (.item i) ∧ parentOf ctx ≠ .item i :=
  ⟨fun heq => hap.fresh i hi (by simp [mem_of_ptr heq]), fun heq => hap.fresh i hi (by simp [mem_of_ptr heq]),
    parentOf_ne fun hmem => hap.fresh i hi (List.mem_append_right _ hmem)⟩

/-- The nodes that a removal leaves alone, and the one it takes out of the container. -/
structure Removed (ids : List ι) (node : ι) (h h' : Heap ι) : Prop where
  links : ∀ i, i ≠ node → i ∉ ids → SameLinks (h' (.item i)) (h (.item i))
  inList : ∀ i, i ≠ node → (h' (.item i)).inList = (h (.item i)).inList
  detached : h' (.item node) = MapItem.detached

variable {node : ι} {h' : Heap ι}

theorem Removed.of_keeps {ids ids' : List ι} {h₁ : Heap ι} (hrem : Removed ids node h₁ h')
    (hkeep : Keeps ids' h h₁) (hsub : ∀ i ∈ ids, i ∈ ids') : Removed ids' node h h' :=
  ⟨fun i hne hi => (hrem.links i hne (fun hmem => hi (hsub i hmem))).trans (hkeep.links i hi),
    fun i hne => (hrem.inList i hne).trans (hkeep.inList _), hrem.detached⟩

variable [DecidableEq ι]

/-! ## §2. The way up. -/

/-- **The switch of `removeItem`** follows the rules for shrinking. -/
theorem At.removeBalance {u : Shape ι} {shorter : Bool} (hat : At h (f :: ctx) t)
    (hshrink : Shrink f t u shorter) :
    ∃ h', h.removeBalance f.side (.item f.label) = some (h', shorter)
      ∧ Moves ctx h (f.attach t) h' u := by
  have hbalance : (h (.item f.label)).balance = f.balance := hat.above.1.balance
  have hup : At h ctx (fork f.side t f.label f.balance f.other) := at_attach.mpr hat
  unfold Heap.removeBalance
  rw [hbalance]
  cases hshrink with
  | heavy hb =>
    rw [if_pos hb]
    exact ⟨_, rfl, hup.setBalance .even⟩
  | even hb =>
    rw [hb, if_neg (Side.even_ne_heavy _)]
    exact ⟨_, rfl, hup.setBalance f.side.other.heavy⟩
  | rotate hb hrot =>
    rw [hb, if_neg (Side.other_heavy_ne _), if_neg (Side.heavy_ne_even _)]
    show ∃ h', _ ∧ Moves ctx h (fork f.side t f.label f.balance f.other) h' u
    rw [← fork_other] at hup ⊢
    exact hup.otherShorter hrot

/-- **The way up** rebalances the tree. -/
theorem At.removeClimb {k : Nat} (hat : At h ctx t) (hctx : CtxAvl ctx (k + 1))
    (ht : t.Avl k) (hfuel : ctx.length < fuel) :
    ∃ h' u n, Heap.removeClimb fuel h (parentOf ctx) (sideOf ctx) = some h'
      ∧ Moves [] h (plug ctx t) h' u ∧ u.Avl n := by
  induction ctx generalizing h t k fuel with
  | nil =>
    obtain ⟨n, rfl⟩ : ∃ n, fuel = n + 1 := ⟨fuel - 1, by omega⟩
    refine ⟨h, t, k, ?_, .refl hat, ht⟩
    unfold Heap.removeClimb
    have hroot : (h (parentOf [])).isNotRoot = false := hat.above.2.2
    simp [hroot]
  | cons f fs ih =>
    obtain ⟨m, rfl⟩ : ∃ m, fuel = m + 1 := ⟨fuel - 1, by omega⟩
    obtain ⟨n, hf, hfs⟩ := hctx
    obtain ⟨u, shorter, hshrink, hu⟩ := shrink_exists hf ht
    obtain ⟨h₁, hrun, hmove⟩ := hat.removeBalance hshrink
    have hnotRoot : (h (.item f.label)).isNotRoot = true := hat.above.1.isNotRoot
    have hparent : (h (.item f.label)).parent = some (parentOf fs) := hat.above.1.parent
    have hside : (if (h (parentOf fs)).left = some (.item f.label) then Side.left else .right) = sideOf fs :=
      Above.side_eq hat.above.2.2
        ((at_attach.mpr hat).disjoint (mem_toList_fork.mpr (.inr (.inl rfl)))) .left
    have hstep : Heap.removeClimb (m + 1) h (parentOf (f :: fs)) (sideOf (f :: fs))
        = if shorter then Heap.removeClimb m h₁ (parentOf fs) (sideOf fs) else some h₁ := by
      show Heap.removeClimb (m + 1) h (.item f.label) f.side = _
      conv_lhs => unfold Heap.removeClimb
      simp only [hnotRoot, hparent, bind_eq_bind, bind_some, hside, hrun]
      rfl
    rw [hstep]
    cases shorter with
    | false =>
      obtain ⟨n', hn'⟩ := avl_plug.mpr ⟨n, hu, hfs⟩
      exact ⟨h₁, plug fs u, n', rfl, hmove.plug, hn'⟩
    | true =>
      have hn : n - 1 + 1 = n := by
        obtain ⟨j, -, ⟨-, -, rfl⟩ | ⟨-, -, rfl⟩ | ⟨-, -, rfl⟩⟩ := hf <;> omega
      have hlen : fs.length < m := by
        change fs.length + 1 < m + 1 at hfuel
        omega
      obtain ⟨h', u', n', hrun', hmove', hn'⟩ :=
        ih hmove.holds (k := n - 1) (by rw [hn]; exact hfs) hu hlen
      exact ⟨h', u', n', hrun', hmove.plug.trans hmove', hn'⟩

/-! ## §3. A node with at most one child. -/

/-- **The only child takes the place of the node.** -/
theorem At.unlink {s : Side} (hat : At h ctx (fork s t a b .nil)) :
    At ((h.setChild (sideOf ctx) (parentOf ctx) (ptr t)).setParent? (ptr t) (parentOf ctx)) ctx t
      ∧ Keeps (plug ctx t).toList h
          ((h.setChild (sideOf ctx) (parentOf ctx) (ptr t)).setParent? (ptr t) (parentOf ctx)) := by
  obtain ⟨-, ht, -⟩ := rep_fork.mp hat.rep
  have hfresh : ∀ i ∈ t.toList, i ∉ labels ctx :=
    fun i hi => hat.disjoint (mem_toList_fork.mpr (.inl hi))
  have hP := ptr_ne_parentOf hfresh
  let h' := (h.setChild (sideOf ctx) (parentOf ctx) (ptr t)).setParent? (ptr t) (parentOf ctx)
  have hparent : ∀ x, (h' x).parent = if ptr t = some x then some (parentOf ctx) else (h x).parent :=
    fun x => by simp [h', Heap.parent_setParent?]
  have hchild : ∀ x u, (h' x).child u = if x = parentOf ctx ∧ u = sideOf ctx then ptr t else (h x).child u :=
    fun x u => by simp [h', Heap.child_setChild]
  have hbalance : ∀ x, (h' x).balance = (h x).balance := fun x => by simp [h']
  have hnotRoot : ∀ x, (h' x).isNotRoot = (h x).isNotRoot := fun x => by simp [h']
  have hkeep : ∀ x, x ≠ parentOf ctx → ptr t ≠ some x → SameLinks (h' x) (h x) := fun x hx hp =>
    ⟨by simp [hparent, hp], fun u => by simp [hchild, hx], hbalance x, hnotRoot x⟩
  have hnodup : (t.toList ++ labels ctx).Nodup := by
    refine List.nodup_append.mpr ⟨(List.nodup_append.mp hat.child.nodup).1,
      (List.nodup_append.mp hat.nodup).2.1, ?_⟩
    rintro i hi j hj rfl
    exact hfresh i hi hj
  refine ⟨⟨hat.above.relink (List.nodup_append.mp hat.nodup).2.1 ?_ ?_ ?_, ht.reparent ?_ ?_ ?_, hnodup⟩,
    ?_, fun x => by simp⟩
  · exact ⟨by rw [hparent, if_neg hP], by rw [hchild, if_pos ⟨rfl, rfl⟩],
      by simp [Heap.child_setChild], hbalance _, hnotRoot _⟩
  · exact fun hroot => hkeep _ hroot.symm (ptr_ne_root t)
  · exact fun i hi hne => hkeep _ hne.symm (fun hp => hfresh i (mem_of_ptr hp) hi)
  · exact (List.nodup_append.mp hnodup).1
  · intro i hi
    have hx : (Addr.item i : Addr ι) ≠ parentOf ctx := fun heq => hP (heq ▸ hi)
    exact ⟨by rw [hparent, if_pos hi], fun u => by simp [Heap.child_setChild, hx], hbalance _, hnotRoot _⟩
  · exact fun i hi hne => hkeep _ (parentOf_ne (hfresh i hi)).symm hne
  · intro i hi
    rw [mem_toList_plug, not_or] at hi
    exact hkeep _ (parentOf_ne hi.2).symm (fun hp => hi.1 (mem_of_ptr hp))

/-! ## §4. The node and its predecessor. -/

/-- **The links after `exchangeWithPrev`** of the nodes `A` and `P`.  `Q` is the parent
that `A` had, `N` the parent it gets, and `Y` the left child that `P` gets. -/
structure Exchanged (h h' : Heap ι) (A P Q N Y : Addr ι) (S : Side) (child : Bool) (b bp : Balance)
    (pl pR : Option (Addr ι)) : Prop where
  parent : ∀ x, (h' x).parent = if pl = some x then some A else if pR = some x then some P
    else if x = Y then some P else if x = P then some Q else if x = A then some N else (h x).parent
  child : ∀ x u, (h' x).child u = if x = Q ∧ u = S then some P
    else if x = N ∧ u = (if child then .left else .right) then some A
    else if x = P ∧ u = .right then pR else if x = P ∧ u = .left then some Y
    else if x = A ∧ u = .right then none else if x = A ∧ u = .left then pl else (h x).child u
  balance : ∀ x, (h' x).balance = if x = P then b else if x = A then bp else (h x).balance
  isNotRoot : ∀ x, (h' x).isNotRoot = (h x).isNotRoot
  inList : ∀ x, (h' x).inList = (h x).inList

/-- **What `exchangeWithPrev` writes.** -/
theorem exchangeWithPrev_eq {A P Q X N Y : Addr ι} {S : Side} {pl pR : Option (Addr ι)}
    (hAP : A ≠ P) (hQA : Q ≠ A) (hQP : Q ≠ P) (hNA : N ≠ A) (hleft : (h A).child .left = some X)
    (hright : (h A).child .right = pR) (hparent : (h A).parent = some Q)
    (hside : (if (h Q).left = some A then Side.left else .right) = S)
    (hbalance : (h A).balance = b) (hprev : h.findPrev fuel X true = some (P, child))
    (hpl : (h P).child .left = pl) (hpr : (h P).child .right = none) (hpb : (h P).balance = bp)
    (hN : if child then N = P else (h P).parent = some N ∧ N ≠ P)
    (hY : Y = if child then A else X) :
    ∃ h', h.exchangeWithPrev fuel A = some h' ∧ Exchanged h h' A P Q N Y S child b bp pl pR := by
  refine ⟨((((((((((((h.setChild .left A pl).setChild .right A none).setBalance A bp).setParent A
    (some N)).setChild .left P (some Y)).setChild .right P pR).setParent P (some Q)).setBalance P
    b).setChild (if child then .left else .right) N (some A)).setChild S Q (some P)).setParent Y
    (some P)).setParent? pR P).setParent? pl A, ?_, ⟨?_, ?_, ?_, ?_, ?_⟩⟩
  · unfold Heap.exchangeWithPrev
    simp only [hparent, bind_eq_bind, bind_some, hside]
    simp only [MapItem.left_eq, MapItem.right_eq, hleft, hright, hbalance, hprev,
      bind_some, if_true, Heap.child_setChild, if_false, hpl, hpr,
      Heap.balance_setChild, hpb, Heap.parent_setBalance, Heap.parent_setParent, Heap.parent_setChild, hAP,
      Heap.child_setParent, Heap.child_setBalance, Heap.child_setParent?, hQP.symm, hQA.symm,
      reduceCtorEq, and_false]
    cases child with
    | true =>
      obtain rfl : N = P := hN
      obtain rfl : Y = A := hY
      simp [hAP, Heap.setParent?]
    | false =>
      obtain ⟨hpp, hNP⟩ : (h P).parent = some N ∧ N ≠ P := hN
      obtain rfl : Y = X := hY
      simp [hpp, hNP.symm, hNA.symm, Heap.setParent?]
  · intro x
    simp [Heap.parent_setParent?, Heap.parent_setParent]
  · intro x u
    simp [Heap.child_setChild]
  · intro x
    simp [Heap.balance_setBalance]
  · simp
  · simp

/-- The node at an address under other labels. -/
def Addr.map (g : ι → ι) : Addr ι → Addr ι
  | .root => .root
  | .item i => .item (g i)

/-- The first node has the links of the second under other labels. -/
structure Renamed (g : ι → ι) (n n' : MapItem ι) : Prop where
  parent : n.parent = n'.parent.map (Addr.map g)
  child : ∀ s, n.child s = (n'.child s).map (Addr.map g)
  balance : n.balance = n'.balance
  isNotRoot : n.isNotRoot = n'.isNotRoot

section Renamed

omit [DecidableEq ι]

variable {g : ι → ι} {par x : Addr ι} {i j : ι} {s : Side} {l r : Shape ι}

theorem ptr_map (t : Shape ι) : ptr (t.map g) = (ptr t).map (Addr.map g) := by
  cases t <;> rfl

/-- A heap with its nodes renamed holds the renamed tree. -/
theorem Rep.map (hrep : Rep h par t)
    (hren : ∀ i ∈ t.toList, Renamed g (h' (.item (g i))) (h (.item i))) :
    Rep h' (par.map g) (t.map g) := by
  induction t generalizing par with
  | nil => trivial
  | node l a b r ihl ihr =>
    obtain ⟨hnode, hl, hr⟩ := hrep
    simp only [Shape.toList, List.mem_append, List.mem_cons] at hren
    have ha := hren a (.inr (.inl rfl))
    refine ⟨⟨?_, ?_, ?_, ha.balance.trans hnode.balance, ha.isNotRoot.trans hnode.isNotRoot⟩,
      ihl hl fun i hi => hren i (.inl hi), ihr hr fun i hi => hren i (.inr (.inr hi))⟩
    · rw [ha.parent, hnode.parent]
      rfl
    · rw [ha.child, hnode.child, ptr_map]
    · rw [ha.child, hnode.other, ptr_map]

theorem At.map (hat : At h [] t) (hg : Function.Injective g)
    (hroot : ∀ s, (h' .root).child s = ((h .root).child s).map (Addr.map g))
    (hnot : (h' .root).isNotRoot = (h .root).isNotRoot)
    (hren : ∀ i ∈ t.toList, Renamed g (h' (.item (g i))) (h (.item i))) : At h' [] (t.map g) := by
  obtain ⟨⟨hl, hr, hn⟩, hrep, hnodup⟩ := hat
  refine ⟨⟨?_, ?_, hnot.trans hn⟩, hrep.map hren, ?_⟩
  · rw [MapItem.left_eq, hroot, ptr_map, ← hl]
    rfl
  · rw [MapItem.right_eq, hroot, ← MapItem.right_eq, hr]
    rfl
  · simpa [labels] using (List.nodup_append.mp hnodup).1.map hg

theorem Rep.parent_ptr (hrep : Rep h par t) (hptr : ptr t = some (.item i)) :
    (h (.item i)).parent = some par := by
  cases t with
  | nil => cases hptr
  | node l a b r =>
    cases hptr
    exact hrep.1.parent

/-- A child points back to its parent. -/
theorem At.parent_of_child (hat : At h [] t) (hx : ∀ j, x = .item j → j ∈ t.toList)
    (hchild : (h x).child s = some (.item i)) : (h (.item i)).parent = some x := by
  cases x with
  | root =>
    cases s with
    | left => exact hat.rep.parent_ptr (hat.above.1.symm.trans hchild)
    | right => exact nomatch hat.above.2.1.symm.trans hchild
  | item j =>
    obtain ⟨ctx, l, b, r, rfl⟩ := exists_plug (hx j rfl)
    obtain ⟨hnode, hl, hr⟩ := (at_plug.mpr hat).rep
    cases s with
    | left => exact hl.parent_ptr (hnode.child.symm.trans hchild)
    | right => exact hr.parent_ptr (hnode.other.symm.trans hchild)

/-- Only the node above the focus points down to it. -/
theorem At.child_iff (hat : At h ctx (.node l i b r))
    (hx : ∀ j, x = .item j → j ∈ (plug ctx (.node l i b r)).toList) (s : Side) :
    (h x).child s = some (.item i) ↔ x = parentOf ctx ∧ s = sideOf ctx := by
  constructor
  · intro hchild
    have hparent := (at_plug.mp hat).parent_of_child hx hchild
    obtain rfl : x = parentOf ctx := some.inj (hparent.symm.trans hat.rep.1.parent)
    refine ⟨rfl, ((sideOf ctx).eq_or_eq_other s).resolve_right ?_⟩
    rintro rfl
    exact hat.above.other_ne (hat.disjoint (mem_of_ptr rfl)) hchild
  · rintro ⟨rfl, rfl⟩
    exact hat.above.child

/-- Only the children of the focus point up to it. -/
theorem At.parent_iff (hat : At h ctx (.node l i b r))
    (hj : j ∈ (plug ctx (.node l i b r)).toList) :
    (h (.item j)).parent = some (.item i) ↔ ptr l = some (.item j) ∨ ptr r = some (.item j) := by
  obtain ⟨hnode, hl, hr⟩ := hat.rep
  refine ⟨fun hparent => ?_, fun hptr => hptr.elim hl.parent_ptr hr.parent_ptr⟩
  obtain ⟨ctx', l', b', r', heq⟩ := exists_plug hj
  have hat' : At h ctx' (.node l' j b' r') := at_plug.mpr (heq ▸ at_plug.mp hat)
  have hchild := hat'.above.child
  rw [some.inj (hat'.rep.1.parent.symm.trans hparent)] at hchild
  cases hside : sideOf ctx' with
  | left =>
    rw [hside] at hchild
    exact .inl (hnode.child.symm.trans hchild)
  | right =>
    rw [hside] at hchild
    exact .inr (hnode.other.symm.trans hchild)

end Renamed

section Exchanged

variable {A P Q N Y x : Addr ι} {S : Side} {pl pR : Option (Addr ι)}

/-- The nodes that are neither exchanged nor next to an exchanged one keep their links. -/
theorem Exchanged.same (hx : Exchanged h h' A P Q N Y S child b bp pl pR) (hA : x ≠ A) (hP : x ≠ P)
    (hQ : x ≠ Q) (hN : x ≠ N) (hY : x ≠ Y) (hpl : pl ≠ some x) (hpR : pR ≠ some x) :
    SameLinks (h' x) (h x) :=
  ⟨by simp [hx.parent, hA, hP, hY, hpl, hpR], fun u => by simp [hx.child, hA, hP, hQ, hN],
    by simp [hx.balance, hA, hP], hx.isNotRoot x⟩

theorem Addr.map_swap (x : Addr ι) : x.map (Equiv.swap a p)
    = if x = .item a then .item p else if x = .item p then .item a else x := by
  cases x with
  | root => rfl
  | item i => simp [Addr.map, Equiv.swap_apply_def, apply_ite Addr.item]

theorem option_map_swap (v : Option (Addr ι)) : v.map (Addr.map (Equiv.swap a p))
    = if v = some (.item a) then some (.item p) else if v = some (.item p) then some (.item a) else v := by
  cases v with
  | none => rfl
  | some x => simp [Addr.map_swap, apply_ite some]

theorem eq_map_swap (ha : x ≠ .item a) (hp : x ≠ .item p) : x = N.map (Equiv.swap a p) ↔ x = N := by
  rw [Addr.map_swap]
  grind

theorem prev_eq_map_swap : .item p = N.map (Equiv.swap a p) ↔ .item a = N := by
  rw [Addr.map_swap]
  grind

theorem node_eq_map_swap : .item a = N.map (Equiv.swap a p) ↔ .item p = N := by
  rw [Addr.map_swap]
  grind

end Exchanged

section Places

omit [DecidableEq ι] in
theorem At.above_spine (hat : At h (spine ++ ⟨.left, a, b, R⟩ :: ctx) (.node pl p bp .nil)) :
    At h ctx (.node (plug spine (.node pl p bp .nil)) a b R) :=
  at_attach.mpr (at_append.mp hat)

omit [DecidableEq ι] in
/-- The tree seen from the node and from its predecessor. -/
theorem mem_plug_spine {i : ι}
    (hi : i ∈ (plug (spine ++ ⟨.left, a, b, R⟩ :: ctx) (.node pl p bp .nil)).toList) :
    i ∈ (plug ctx (.node (plug spine (.node pl p bp .nil)) a b R)).toList := by
  rw [plug_append] at hi
  exact hi

variable {X : ι} (hat : At h (spine ++ ⟨.left, a, b, R⟩ :: ctx) (.node pl p bp .nil))
  (hptr : ptr (plug spine (.node pl p bp .nil)) = some (.item X))
  (hchild : sideOf (spine ++ ⟨.left, a, b, R⟩ :: ctx) = if child then .left else .right)
  (hx : Exchanged h h' (.item a) (.item p) (parentOf ctx)
    ((parentOf (spine ++ ⟨.left, a, b, R⟩ :: ctx)).map (Equiv.swap a p))
    ((Addr.item X).map (Equiv.swap a p)) (sideOf ctx) child b bp (ptr pl) (ptr R))

include hat hchild hx

/-- The pointers down to the two nodes are exchanged. -/
theorem Exchanged.child_other {x : Addr ι} (hxa : x ≠ .item a) (hxp : x ≠ .item p)
    (hmem : ∀ j, x = .item j → j ∈ (plug (spine ++ ⟨.left, a, b, R⟩ :: ctx) (.node pl p bp .nil)).toList)
    (u : Side) : (h' x).child u = ((h x).child u).map (Addr.map (Equiv.swap a p)) := by
  have ha := hat.above_spine.child_iff (fun j hj => mem_plug_spine (hmem j hj)) u
  have hp := hat.child_iff hmem u
  simp only [option_map_swap, ha, hp, hx.child, hchild, eq_map_swap hxa hxp, hxa, hxp, false_and,
    if_false]

include hptr

omit hchild in
/-- The node has the links of its predecessor. -/
theorem Exchanged.renamed_prev : Renamed (Equiv.swap a p) (h' (.item a)) (h (.item p)) := by
  obtain ⟨hpla, hRa, hQa⟩ := hat.apart.ptr_ne (i := a) List.mem_cons_self
  obtain ⟨hplp, -, -⟩ := hat.apart.ptr_ne (i := p) (List.mem_cons_of_mem _ List.mem_cons_self)
  obtain ⟨hP, -, -⟩ := hat.rep
  have hNp := (parentOf_ne (hat.disjoint (i := p) (mem_of_ptr rfl))).symm
  have hne : Addr.item a ≠ Addr.item p := by simpa using hat.apart.ne
  refine ⟨?_, fun u => ?_, by rw [hx.balance, if_neg hne, if_pos rfl, hP.balance],
    by rw [hx.isNotRoot, hat.above_spine.rep.1.isNotRoot, hP.isNotRoot]⟩
  · rw [hx.parent, if_neg hpla, if_neg hRa, if_neg hne, if_pos rfl]
    split
    next heq =>
      -- the predecessor is the left child of the node
      cases node_eq_map_swap.mp heq
      rw [hat.above_spine.rep.2.1.parent_ptr hptr, map_some, Addr.map, Equiv.swap_apply_left]
    next => rw [hP.parent, map_some]
  · simp only [hx.child, hQa.symm, node_eq_map_swap, hNp, hne, false_and, if_false, true_and]
    cases u with
    | left =>
      rw [hP.child, option_map_swap, if_neg hpla, if_neg hplp]
      rfl
    | right =>
      rw [show (h (.item p)).child .right = none from hP.other]
      rfl

/-- The predecessor has the links of the node. -/
theorem Exchanged.renamed_node : Renamed (Equiv.swap a p) (h' (.item p)) (h (.item a)) := by
  obtain ⟨hA, -, -⟩ := hat.above_spine.rep
  obtain ⟨-, hRa, hQa⟩ := hat.apart.ptr_ne (i := a) List.mem_cons_self
  obtain ⟨hplp, hRp, hQp⟩ := hat.apart.ptr_ne (i := p) (List.mem_cons_of_mem _ List.mem_cons_self)
  have hXa : Addr.item a ≠ Addr.item X := by
    rintro ⟨⟩
    exact (At.top_fresh (s := .left) hat.above_spine).1 (mem_of_ptr hptr)
  refine ⟨?_, fun u => ?_, by rw [hx.balance, if_pos rfl, hA.balance],
    by rw [hx.isNotRoot, hat.rep.1.isNotRoot, hA.isNotRoot]⟩
  · rw [hx.parent, hA.parent, option_map_swap, if_neg hplp, if_neg hRp, if_neg, if_pos rfl,
        if_neg (by simpa using hQa), if_neg (by simpa using hQp)]
    rwa [prev_eq_map_swap]
  · have hp := hat.child_iff (x := .item a) (by rintro _ ⟨⟩; simp [labels_append]) u
    simp only [hx.child, ← hchild, hQp.symm, prev_eq_map_swap, ← hp, false_and, if_false]
    split
    next hc =>
      rw [hc, map_some, Addr.map, Equiv.swap_apply_right]
    next =>
      cases u with
      | left =>
        rw [hA.child, hptr]
        rfl
      | right =>
        rw [show (h (.item a)).child .right = ptr R from hA.other, option_map_swap, if_neg hRa,
            if_neg hRp]
        rfl

/-- **The exchange renames the nodes.** -/
theorem Exchanged.renamed {i : ι}
    (hi : i ∈ (plug (spine ++ ⟨.left, a, b, R⟩ :: ctx) (.node pl p bp .nil)).toList) :
    Renamed (Equiv.swap a p) (h' (.item (Equiv.swap a p i))) (h (.item i)) := by
  by_cases hia : i = a
  · rw [hia, Equiv.swap_apply_left]
    exact hx.renamed_node hat hptr hchild
  by_cases hip : i = p
  · rw [hip, Equiv.swap_apply_right]
    exact hx.renamed_prev hat hptr
  rw [Equiv.swap_apply_of_ne_of_ne hia hip]
  have hxa : Addr.item i ≠ Addr.item a := by simpa using hia
  have hxp : Addr.item i ≠ Addr.item p := by simpa using hip
  refine ⟨?_, hx.child_other hat hchild hxa hxp ?_, ?_, hx.isNotRoot _⟩
  · have ha := hat.above_spine.parent_iff (mem_plug_spine hi)
    have hp := hat.parent_iff hi
    simp only [option_map_swap, hx.parent, hxa, hxp, if_false, eq_map_swap hxa hxp]
    grind [ptr]
  · rintro j ⟨⟩
    exact hi
  · rw [hx.balance, if_neg hxp, if_neg hxa]

end Places

section

variable (hspine : ∀ f ∈ spine, f.side = .right)
  (hat : At h (spine ++ ⟨.left, a, b, R⟩ :: ctx) (.node pl p bp .nil))

include hspine hat

/-- **The places of `exchangeWithPrev`**: the parent that the node gets and the left child that its
predecessor gets are those of the other, renamed. -/
theorem At.exchanged {X : ι} (hptr : ptr (plug spine (.node pl p bp .nil)) = some (.item X))
    (hfuel : spine.length < fuel) :
    ∃ h', h.exchangeWithPrev fuel (.item a) = some h'
      ∧ Exchanged h h' (.item a) (.item p) (parentOf ctx)
          ((parentOf (spine ++ ⟨.left, a, b, R⟩ :: ctx)).map (Equiv.swap a p))
          ((Addr.item X).map (Equiv.swap a p)) (sideOf ctx) (if spine = [] then true else false) b bp
          (ptr pl) (ptr R) := by
  obtain ⟨hA, hdown, -⟩ := hat.above_spine.rep
  obtain ⟨hP, -, -⟩ := hat.rep
  obtain ⟨-, -, hQa⟩ := hat.apart.ptr_ne List.mem_cons_self
  obtain ⟨-, -, hQp⟩ := hat.apart.ptr_ne (List.mem_cons_of_mem _ List.mem_cons_self)
  have hNp := parentOf_ne (hat.disjoint (mem_of_ptr rfl))
  refine exchangeWithPrev_eq (by simpa using hat.apart.ne) hQa hQp ?_ (hA.child.trans hptr) hA.other
    hA.parent (Above.side_eq hat.above_spine.above (hat.above_spine.disjoint (mem_of_ptr rfl)) .left)
    hA.balance (findPrev_spine hspine hdown hptr hfuel) hP.child hP.other hP.balance ?_ ?_
  · exact fun heq => hNp (node_eq_map_swap.mp heq.symm).symm
  · cases spine with
    | nil => exact congrArg Addr.item (Equiv.swap_apply_left a p)
    | cons f fs =>
      have hf := hat.apart.spine_ne f.label (mem_labels_cons.mpr (.inl rfl))
      have hfix : (Addr.item f.label).map (Equiv.swap a p) = .item f.label :=
        congrArg Addr.item (Equiv.swap_apply_of_ne_of_ne hf.1 hf.2)
      show (h (.item p)).parent = some ((Addr.item f.label).map _) ∧ (Addr.item f.label).map _ ≠ _
      rw [hfix]
      exact ⟨hP.parent, by simpa using hf.2⟩
  · cases spine with
    | nil =>
      cases hptr
      exact congrArg Addr.item (Equiv.swap_apply_right a p)
    | cons f fs =>
      have hf := hat.apart.spine_ne f.label (mem_labels_cons.mpr (.inl rfl))
      refine congrArg Addr.item (Equiv.swap_apply_of_ne_of_ne ?_ ?_)
      · rintro rfl
        exact (At.top_fresh (s := .left) hat.above_spine).1 (mem_of_ptr hptr)
      · rintro rfl
        -- the top of the spine hangs below the node, and the predecessor does not
        have hparent := (hdown.parent_ptr hptr).symm.trans hP.parent
        exact hf.1 (Addr.item.inj (some.inj hparent)).symm

/-- **`exchangeWithPrev`** exchanges the labels of the node and of its predecessor. -/
theorem At.exchangeWithPrev (hfuel : spine.length < fuel) :
    ∃ h', h.exchangeWithPrev fuel (.item a) = some h'
      ∧ At h' (spine ++ ⟨.left, p, b, R⟩ :: ctx) (.node pl a bp .nil)
      ∧ Keeps (plug (spine ++ ⟨.left, a, b, R⟩ :: ctx) (.node pl p bp .nil)).toList h h' := by
  obtain ⟨X, hptr⟩ := ptr_plug spine pl p bp .nil
  obtain ⟨h', hrun, hx⟩ := hat.exchanged hspine hptr hfuel
  have hchild : sideOf (spine ++ ⟨.left, a, b, R⟩ :: ctx)
      = if (if spine = [] then true else false) then .left else .right := by
    cases spine with
    | nil => rfl
    | cons f fs => exact hspine f List.mem_cons_self
  have hmap := (at_plug.mp hat).map (Equiv.injective (Equiv.swap a p))
    (hx.child_other hat hchild nofun nofun nofun) (hx.isNotRoot _) fun i hi => hx.renamed hat hptr hchild hi
  have hfix : ∀ i ∈ labels spine ++ (pl.toList ++ R.toList ++ labels ctx), Equiv.swap a p i = i := by
    intro i hi
    have hne : i ≠ a ∧ i ≠ p := by
      refine (List.mem_append.mp hi).elim (hat.apart.spine_ne i) fun hi => ⟨?_, ?_⟩
      · rintro rfl
        exact hat.apart.fresh _ List.mem_cons_self hi
      · rintro rfl
        exact hat.apart.fresh _ (List.mem_cons_of_mem _ List.mem_cons_self) hi
    exact Equiv.swap_apply_of_ne_of_ne hne.1 hne.2
  simp only [List.mem_append] at hfix
  refine ⟨h', hrun, at_plug.mpr ?_, ⟨fun i hi => ?_, hx.inList⟩⟩
  · rw [map_plug, List.map_append, List.map_cons, frames_map_eq_self fun i hi => hfix i (.inl hi),
        frames_map_eq_self fun i hi => hfix i (.inr (.inr hi)), Shape.map,
        map_eq_self fun i hi => hfix i (.inr (.inl (.inl hi))), Frame.map,
        map_eq_self fun i hi => hfix i (.inr (.inl (.inr hi))), Equiv.swap_apply_left,
        Equiv.swap_apply_right] at hmap
    exact hmap
  · have hspine' : i ∉ (plug spine (.node pl p bp .nil)).toList := fun hmem =>
      hi (by rw [plug_append]; exact mem_toList_plug.mpr (.inl hmem))
    simp only [mem_toList_plug, labels_append, List.mem_append, mem_labels_cons, Shape.toList,
      List.mem_cons, not_or] at hi
    obtain ⟨⟨hil, hip, -⟩, his, hia, hiR, hic⟩ := hi
    have hxa : Addr.item i ≠ Addr.item a := by simpa using hia
    have hxp : Addr.item i ≠ Addr.item p := by simpa using hip
    refine hx.same hxa hxp (parentOf_ne hic).symm ?_ ?_ (fun heq => hil (mem_of_ptr heq))
      (fun heq => hiR (mem_of_ptr heq))
    · rw [Ne, eq_map_swap hxa hxp]
      exact (parentOf_ne (by simp [labels_append, his, hia, hiR, hic])).symm
    · rw [Ne, eq_map_swap hxa hxp]
      rintro ⟨⟩
      exact hspine' (mem_of_ptr hptr)

end

/-! ## §5. The removal. -/

/-- **The second half of `removeItem`.** -/
theorem At.removeNode {s : Side} {k : Nat} (hat : At h ctx (fork s t node b .nil))
    (havl : (fork s t node b .nil).Avl k) (hctx : CtxAvl ctx k) (hfuel : ctx.length < fuel) :
    ∃ h' u n, h.removeNode fuel node = some (h', true) ∧ At h' [] u ∧ u.Avl n
      ∧ u.toList = before ctx ++ t.toList ++ after ctx
      ∧ Removed (plug ctx (fork s t node b .nil)).toList node h h' := by
  obtain ⟨j, rfl, ht⟩ := avl_only_child havl
  obtain ⟨hat₁, hkeep₁⟩ := hat.unlink
  obtain ⟨h₂, u, n, hclimb, ⟨hat₂, hlist, hkeep₂⟩, hu⟩ := hat₁.removeClimb hctx ht hfuel
  obtain ⟨hnode, -, -⟩ := rep_fork.mp hat.rep
  obtain ⟨hfresh, -, hfreshctx⟩ := hat.top_fresh
  have hside : (if (h (parentOf ctx)).left = some (.item node) then Side.left else .right) = sideOf ctx :=
    Above.side_eq (by simpa using hat.above) hfreshctx .left
  have hchild : (if (h (.item node)).left ≠ none then (h (.item node)).left
      else if (h (.item node)).right ≠ none then (h (.item node)).right else none) = ptr t := by
    cases s with
    | left =>
      have hl : (h (.item node)).left = ptr t := hnode.child
      have hr : (h (.item node)).right = none := hnode.other
      rw [hl, hr]
      cases ptr t <;> simp
    | right =>
      have hl : (h (.item node)).left = none := hnode.other
      have hr : (h (.item node)).right = ptr t := hnode.child
      rw [hl, hr]
      cases ptr t <;> simp
  let h' := (h₂.initialized (.item node) none).remove_ (.item node)
  have hother : ∀ x, x ≠ .item node → h' x = h₂ x := fun x hx => by
    simp [h', Heap.initialized, Heap.remove_, Heap.modify_apply, hx]
  have hnot : node ∉ u.toList := by
    rw [hlist, mem_toList_plug, not_or]
    exact ⟨hfresh, hfreshctx⟩
  refine ⟨h', u, n, ?_, ⟨hat₂.above.congr ?_ ?_, hat₂.rep.congr ?_, hat₂.nodup⟩, hu,
    hlist.trans (toList_plug ctx t), ?_, ?_, ?_⟩
  · unfold Heap.removeNode
    simp only [hnode.parent, bind_eq_bind, bind_some, hchild, hside, hclimb]
    rfl
  · exact SameLinks.refl _
  · exact fun i hi => nomatch hi
  · intro i hi
    rw [hother _ (by rintro heq; cases heq; exact hnot hi)]
    exact SameLinks.refl _
  · intro i hne hi
    rw [hother _ (by simpa using hne)]
    rw [mem_toList_plug, mem_toList_fork, not_or, not_or] at hi
    exact (hkeep₁.trans hkeep₂).links i (by simpa using ⟨hi.1.1, hi.2⟩)
  · intro i hne
    rw [hother _ (by simpa using hne)]
    exact (hkeep₁.trans hkeep₂).inList _
  · simp [h', Heap.initialized, Heap.remove_, Heap.modify_apply, MapItem.initialized, MapItem.detached]

/-- **`removeItem` of a node with two children**: its predecessor takes its place. -/
theorem At.removeExchanged {l r : Shape ι} {n : Nat} (hl : l ≠ .nil)
    (hat : At h ctx (.node l node b r)) (havl : (plug ctx (.node l node b r)).Avl n) (hfuel : n
      < fuel) :
    ∃ h₁ h' u n', h.exchangeWithPrev fuel (.item node) = some h₁ ∧ h₁.removeNode fuel node = some (h', true)
      ∧ At h' [] u ∧ u.Avl n' ∧ u.toList = before ctx ++ (l.toList ++ r.toList) ++ after ctx
      ∧ Removed (plug ctx (.node l node b r)).toList node h h' := by
  obtain ⟨spine, pl, p, c, rfl, hspine⟩ : ∃ spine pl p c, l = plug spine (.node pl p c .nil)
      ∧ ∀ f ∈ spine, f.side = .right := by
    cases l with
    | nil => exact absurd rfl hl
    | node ll la lb lr => exact exists_extreme .right ll la lb lr
  have hplug : plug ctx (.node (plug spine (.node pl p c .nil)) node b r)
      = plug (spine ++ ⟨.left, node, b, r⟩ :: ctx) (.node pl p c .nil) := by
    rw [plug_append]
    rfl
  rw [hplug] at havl ⊢
  have hlen : (spine ++ (⟨.left, p, b, r⟩ : Frame ι) :: ctx).length < fuel := by
    have hle := length_add_height_le (spine ++ ⟨.left, node, b, r⟩ :: ctx) (.node pl p c .nil)
    rw [havl.height_eq] at hle
    simp only [List.length_append, List.length_cons] at hle ⊢
    omega
  have hat' : At h (spine ++ ⟨.left, node, b, r⟩ :: ctx) (.node pl p c .nil) :=
    at_append.mpr (at_attach.mp hat)
  have hshort : spine.length < fuel := by
    rw [List.length_append] at hlen
    omega
  obtain ⟨h₁, hexch, hat₁, hkeep⟩ := hat'.exchangeWithPrev hspine hshort
  -- the node stands at the end of the spine now, without a right child
  obtain ⟨k, hk, hctx⟩ := avl_plug.mp ⟨n, havl⟩
  have hk' : (fork .left pl node c .nil).Avl k := by cases c <;> exact hk
  obtain ⟨h', u, n', hrun, hatu, hu, hlist, hrem⟩ :=
    At.removeNode hat₁ hk' (hctx.relabel p) hlen
  refine ⟨h₁, h', u, n', hexch, hrun, hatu, hu, ?_, hrem.of_keeps hkeep ?_⟩
  · rw [hlist]
    simp [before_append, after_append, after_eq_nil hspine, before, after, toList_plug, Shape.toList]
  · intro i hi
    simp only [mem_toList_plug, labels_append, List.mem_append, mem_labels_cons, mem_toList_fork,
      Shape.toList, List.mem_cons] at hi ⊢
    tauto

/-- **`removeItem`**: the tree without the node, balanced again. -/
theorem At.removeItem {n : Nat} (hat : At h [] t) (havl : t.Avl n)
    (hmem : node ∈ t.toList) (hin : (h (.item node)).inList = true) (hfuel : n < fuel) :
    ∃ h' u n' pre post, h.removeItem fuel node = some (h', true) ∧ At h' [] u ∧ u.Avl n'
      ∧ t.toList = pre ++ node :: post ∧ u.toList = pre ++ post ∧ Removed t.toList node h h' := by
  obtain ⟨ctx, l, b, r, rfl⟩ := exists_plug hmem
  obtain ⟨k, hk, hctx⟩ := avl_plug.mp ⟨n, havl⟩
  have hat' : At h ctx (.node l node b r) := at_plug.mpr hat
  have hleft : (h (.item node)).left = ptr l := hat'.rep.1.child
  have hright : (h (.item node)).right = ptr r := hat'.rep.1.other
  have hlen : ctx.length < fuel := by
    have hle := length_add_height_le ctx (.node l node b r)
    rw [havl.height_eq] at hle
    omega
  have hlist : (plug ctx (.node l node b r)).toList
      = (before ctx ++ l.toList) ++ node :: (r.toList ++ after ctx) := by
    simp [toList_plug, Shape.toList]
  unfold Heap.removeItem
  rw [if_pos hin, hleft, hright]
  by_cases hone : l = .nil ∨ r = .nil
  · -- at most one child, on either side
    obtain ⟨s, t, hfork, hitems⟩ : ∃ s t, Shape.node l node b r = fork s t node b .nil
        ∧ t.toList = l.toList ++ r.toList := by
      rcases hone with rfl | rfl
      · exact ⟨.right, r, rfl, rfl⟩
      · exact ⟨.left, l, rfl, (List.append_nil _).symm⟩
    have hnot : ¬ (ptr l ≠ none ∧ ptr r ≠ none) := by
      rcases hone with rfl | rfl <;> simp [ptr]
    obtain ⟨h', u, n', hrun, hatu, hu, hulist, hrem⟩ :=
      At.removeNode (hfork ▸ hat') (hfork ▸ hk) hctx hlen
    refine ⟨h', u, n', _, _, ?_, hatu, hu, hlist, ?_, hfork ▸ hrem⟩
    · rw [if_neg hnot]
      exact hrun
    · simpa [hitems] using hulist
  · obtain ⟨hl, hr⟩ := not_or.mp hone
    obtain ⟨h₁, h', u, n', hexch, hrun, hatu, hu, hulist, hrem⟩ := hat'.removeExchanged hl havl hfuel
    have hboth : ptr l ≠ none ∧ ptr r ≠ none :=
      ⟨fun hp => hl (eq_nil_of_ptr hp), fun hp => hr (eq_nil_of_ptr hp)⟩
    refine ⟨h', u, n', _, _, ?_, hatu, hu, hlist, ?_, hrem⟩
    · rw [if_pos hboth, hexch]
      exact hrun
    · simpa using hulist

end ColonyCore.Container
