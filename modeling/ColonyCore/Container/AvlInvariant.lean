/-
  ColonyCore.Container.AvlInvariant
  **THE REPRESENTATION INVARIANT OF THE AVL TREE**, over every sequence of `insert` and
  `removeItem` that starts from an empty tree.

  • `Holds` is the invariant: parent and child links agree, the keys are in order, every
    balance is height right − height left, and the items outside are detached.
  • One lemma for each operation says that it keeps the invariant and what it does to the
    items held; `Holds.applyAll` is the induction over a run.
  • `insert` records its way down in an array of `MAX_TREE_DEPTH` places without looking
    at its length, so it does not stay within it in a tree that is higher.  The least such
    tree has fib 35 − 1 items.
-/
import ColonyCore.Container.AvlRemove

namespace ColonyCore.Container

open AvlShape List

variable {ι κ : Type}

/-! ## §1. The order of the keys. -/

/-- **`compareKey` orders the keys**, by the sign of the `int` it returns. -/
structure Keys.Ordered (K : Keys ι κ) : Prop where
  refl : ∀ a, K.compareKey a a = 0
  swap : ∀ a b, K.compareKey a b < 0 ↔ 0 < K.compareKey b a
  trans : ∀ a b c, K.compareKey a b ≤ 0 → K.compareKey b c ≤ 0 → K.compareKey a c ≤ 0

/-- The keys of the items are strictly increasing. -/
def Keys.Sorted (K : Keys ι κ) (xs : List ι) : Prop :=
  xs.Pairwise fun x y => K.compareKey (K.key x) (K.key y) < 0

namespace Keys.Ordered

variable {K : Keys ι κ} (hK : K.Ordered)
include hK

theorem not_lt_iff {a b : κ} : ¬ K.compareKey a b < 0 ↔ K.compareKey b a ≤ 0 := by
  rw [hK.swap, not_lt]

theorem lt_of_lt_of_le {a b c : κ} (hab : K.compareKey a b < 0) (hbc : K.compareKey b c ≤ 0) :
    K.compareKey a c < 0 := by
  by_contra hac
  exact hK.not_lt_iff.mpr (hK.trans b c a hbc (hK.not_lt_iff.mp hac)) hab

theorem lt_of_le_of_lt {a b c : κ} (hab : K.compareKey a b ≤ 0) (hbc : K.compareKey b c < 0) :
    K.compareKey a c < 0 := by
  by_contra hac
  exact hK.not_lt_iff.mpr (hK.trans c a b (hK.not_lt_iff.mp hac) hab) hbc

/-- The keys of items in order direct the search for every key. -/
theorem directs {xs : List ι} (hs : K.Sorted xs) (k : κ) : Directs (probe K k) xs := by
  refine List.Pairwise.imp ?_ hs
  intro x y hxy
  refine ⟨fun hy => hK.lt_of_lt_of_le hxy hy, fun hx => ?_⟩
  have hkx : K.compareKey k (K.key x) ≤ 0 := hK.not_lt_iff.mp (not_lt.mpr hx)
  exact (hK.swap k (K.key y)).mp (hK.lt_of_le_of_lt hkx hxy)

/-- An item goes where the comparison with its key changes sign. -/
theorem sorted_insert {pre post : List ι} {i : ι} (hs : K.Sorted (pre ++ post))
    (hpre : ∀ j ∈ pre, probe K (K.key i) j < 0) (hpost : ∀ j ∈ post, 0 < probe K (K.key i) j) :
    K.Sorted (pre ++ i :: post) := by
  obtain ⟨hs₁, hs₂, hs₃⟩ := pairwise_append.mp hs
  refine pairwise_append.mpr ⟨hs₁, pairwise_cons.mpr ⟨fun j hj => ?_, hs₂⟩, fun x hx y hy => ?_⟩
  · exact (hK.swap _ _).mpr (hpost j hj)
  · rcases mem_cons.mp hy with rfl | hy
    · exact hpre x hx
    · exact hs₃ x hx y hy

end Keys.Ordered

/-! ## §2. The invariant. -/

/-- **The representation invariant** of a heap that holds the items `ids`, with the tree
they are in. -/
structure HoldsTree (K : Keys ι κ) (h : Heap ι) (t : Shape ι) (ids : List ι) : Prop where
  /-- The links of the helper node, which has a left child at most, and of every node:
  parent, children and balance. -/
  links : At h [] t
  /-- Keys in order. -/
  sorted : K.Sorted t.toList
  /-- Every balance is height right − height left. -/
  balanced : t.Balanced
  /-- The items reached are the ones held. -/
  items : t.toList.Perm ids
  inList : ∀ i, (h (.item i)).inList = true ↔ i ∈ ids
  /-- The other items are in no container and have no links. -/
  detached : ∀ i, i ∉ ids → h (.item i) = MapItem.detached

def Holds (K : Keys ι κ) (h : Heap ι) (ids : List ι) : Prop := ∃ t, HoldsTree K h t ids

theorem holds_empty (K : Keys ι κ) : Holds K (Heap.empty : Heap ι) [] :=
  ⟨.nil, ⟨⟨rfl, rfl, rfl⟩, trivial, nodup_nil⟩, List.Pairwise.nil, trivial, List.Perm.nil,
    fun _ => ⟨(fun h => nomatch h), (fun h => nomatch h)⟩, fun _ _ => rfl⟩

/-- The items that any tree of `MAX_TREE_DEPTH` levels has room for in the worst case. -/
def maxItems : Nat := 9227463

theorem maxItems_lt_fib : maxItems + 1 < Nat.fib (MAX_TREE_DEPTH + 3) := by decide +kernel

/-- **A tree of few items is not too high.** -/
theorem HoldsTree.height_le {K : Keys ι κ} {h : Heap ι} {t : Shape ι} {ids : List ι}
    (hold : HoldsTree K h t ids) (hfew : ids.length ≤ maxItems) : t.height ≤ MAX_TREE_DEPTH := by
  have hsize : t.size = ids.length := hold.items.length_eq
  have hfib := (Shape.avl_height_iff.mpr hold.balanced).fib_le_size
  by_contra hhigh
  have hmono : Nat.fib (MAX_TREE_DEPTH + 3) ≤ Nat.fib (t.height + 2) := Nat.fib_mono (by omega)
  have := maxItems_lt_fib
  omega

variable {fuel : Nat}

theorem HoldsTree.height_lt {K : Keys ι κ} {h : Heap ι} {t : Shape ι} {ids : List ι}
    (hold : HoldsTree K h t ids) (hfuel : MAX_TREE_DEPTH < fuel) (hfew : ids.length ≤ maxItems) :
    t.height < fuel :=
  Nat.lt_of_le_of_lt (hold.height_le hfew) hfuel

variable [DecidableEq ι] {K : Keys ι κ} {h : Heap ι} {ids : List ι}

/-! ## §3. One operation. -/

/-- **`insert`** keeps the invariant.  It refuses an item whose key is there, and can only
fail when there are too many items. -/
theorem Holds.insert (hK : K.Ordered) (hold : Holds K h ids) (newNode : ι) :
    (maxItems < ids.length ∧ h.insert K newNode = none)
      ∨ ((∃ i ∈ ids, K.compareKey (K.key i) (K.key newNode) = 0) ∧ h.insert K newNode = some (h, false))
      ∨ ((∀ i ∈ ids, K.compareKey (K.key i) (K.key newNode) ≠ 0)
        ∧ ∃ h', h.insert K newNode = some (h', true) ∧ Holds K h' (newNode :: ids)) := by
  obtain ⟨t, ht⟩ := hold
  have hdir := hK.directs ht.sorted (K.key newNode)
  have hfind : descend (probe K (K.key newNode)) t [] = none ↔ ∃ i ∈ t.toList, probe K (K.key newNode) i = 0 :=
    descend_none_iff hdir
  have hmem : ∀ i, i ∈ t.toList ↔ i ∈ ids := fun i => ht.items.mem_iff
  have hequal : newNode ∈ t.toList → descend (probe K (K.key newNode)) t [] = none :=
    fun hin => hfind.mpr ⟨newNode, hin, hK.refl _⟩
  have hfree : newNode ∉ t.toList → (h (.item newNode)).inList = false := fun hnot => by
    rw [ht.detached newNode (fun hin => hnot ((hmem newNode).mpr hin))]
    rfl
  rcases ht.links.insert K (Shape.avl_height_iff.mpr ht.balanced) hequal hfree with
    ⟨hdeep, hrun⟩ | ⟨hnone, hrun⟩ | ⟨ctx, hsome, hnew, h', u, n', hrun, hat, hu, hlist, hins⟩
  · refine .inl ⟨?_, hrun⟩
    by_contra hfew
    have := ht.height_le (by omega)
    omega
  · obtain ⟨i, hi, h0⟩ := hfind.mp hnone
    exact .inr (.inl ⟨⟨i, (hmem i).mp hi, h0⟩, hrun⟩)
  · have hne : ∀ i ∈ ids, K.compareKey (K.key i) (K.key newNode) ≠ 0 := by
      intro i hi h0
      rw [hfind.mpr ⟨i, (hmem i).mpr hi, h0⟩] at hsome
      cases hsome
    obtain ⟨hsplit, hbefore, hafter⟩ := descend_splits hdir hsome
    refine .inr (.inr ⟨hne, h', hrun, u, hat, ?_, Shape.avl_height_iff.mp (hu.height_eq ▸ hu), ?_, ?_, ?_⟩)
    · rw [hlist]
      exact hK.sorted_insert (hsplit ▸ ht.sorted) hbefore hafter
    · rw [hlist]
      exact perm_middle.trans ((hsplit ▸ ht.items).cons newNode)
    · intro i
      rw [hins.inList, mem_cons, ← ht.inList]
      by_cases hi : i = newNode
      · simp
      · simp
    · intro i hi
      rw [mem_cons, not_or] at hi
      have hnot : i ∉ t.toList := fun hin => hi.2 ((hmem i).mp hin)
      have hsame := (hins.links i hi.1 hnot).eq (by rw [hins.inList, if_neg (by simpa using hi.1)])
      rw [hsame, ht.detached i hi.2]

/-- **`removeItem`** keeps the invariant: it takes an item out, and answers that it is not
there otherwise. -/
theorem Holds.removeItem (hfuel : ∀ t, HoldsTree K h t ids → t.height < fuel)
    (hold : Holds K h ids) (node : ι) :
    ∃ h', h.removeItem fuel node = some (h', decide (node ∈ ids)) ∧ Holds K h' (ids.erase node) := by
  obtain ⟨t, ht⟩ := hold
  by_cases hin : node ∈ ids
  · have hmem : node ∈ t.toList := ht.items.mem_iff.mpr hin
    have hheight : t.height < fuel := hfuel t ht
    obtain ⟨h', u, n', pre, post, hrun, hat, hu, hlist, hlist', hrem⟩ :=
      ht.links.removeItem (Shape.avl_height_iff.mpr ht.balanced) hmem ((ht.inList node).mpr hin) hheight
    have hnodup : ids.Nodup := ht.items.nodup_iff.mp (nodup_append.mp ht.links.nodup).1
    have hperm : (node :: (pre ++ post)).Perm ids := perm_middle.symm.trans (hlist ▸ ht.items)
    refine ⟨h', by simp [hrun, hin], u, hat, ?_, Shape.avl_height_iff.mp (hu.height_eq ▸ hu), ?_, ?_, ?_⟩
    · rw [hlist']
      refine List.Pairwise.sublist ?_ (hlist ▸ ht.sorted : K.Sorted (pre ++ node :: post))
      exact List.Sublist.append_left (sublist_cons_self node post) pre
    · rw [hlist']
      simpa using hperm.erase node
    · intro i
      rw [hnodup.mem_erase_iff]
      by_cases hi : i = node
      · rw [hi, hrem.detached]
        simp [MapItem.detached]
      · rw [hrem.inList i hi, ht.inList]
        simp [hi]
    · intro i hi
      rw [hnodup.mem_erase_iff] at hi
      by_cases hne : i = node
      · rw [hne]
        exact hrem.detached
      · have hout : i ∉ ids := fun hmem => hi ⟨hne, hmem⟩
        have hnot : i ∉ t.toList := fun hmem => hout (ht.items.mem_iff.mp hmem)
        rw [(hrem.links i hne hnot).eq (hrem.inList i hne), ht.detached i hout]
  · have hout : (h (.item node)).inList = false := by
      rw [ht.detached node hin]
      rfl
    rw [erase_of_not_mem hin]
    refine ⟨h, ?_, t, ht⟩
    simp [Heap.removeItem, hout, hin]

/-! ## §4. Runs. -/

/-- The operations on a tree. -/
inductive TreeOp (ι : Type) where
  | insert (node : ι)
  | removeItem (node : ι)

/-- One operation, with the heap after it. -/
def Heap.apply (K : Keys ι κ) (fuel : Nat) (h : Heap ι) : TreeOp ι → Option (Heap ι)
  | .insert node => (h.insert K node).map (·.1)
  | .removeItem node => (h.removeItem fuel node).map (·.1)

/-- A sequence of operations. -/
def Heap.applyAll (K : Keys ι κ) (fuel : Nat) (h : Heap ι) (ops : List (TreeOp ι)) : Option (Heap ι) :=
  ops.foldlM (Heap.apply K fuel) h

/-- The items held after an operation: those that were inserted and not removed. -/
def held (K : Keys ι κ) (ids : List ι) : TreeOp ι → List ι
  | .insert node => if ∃ i ∈ ids, K.compareKey (K.key i) (K.key node) = 0 then ids else node :: ids
  | .removeItem node => ids.erase node

/-- The items held after a sequence of operations on an empty tree. -/
def heldAfter (K : Keys ι κ) (ops : List (TreeOp ι)) : List ι := ops.foldl (held K) []

/-- An operation keeps the invariant, or fails because there are too many items. -/
theorem Holds.apply_cases (hK : K.Ordered) (hfuel : ∀ t, HoldsTree K h t ids → t.height < fuel)
    (hold : Holds K h ids) (op : TreeOp ι) :
    (maxItems < ids.length ∧ h.apply K fuel op = none)
      ∨ ∃ h', h.apply K fuel op = some h' ∧ Holds K h' (held K ids op) := by
  cases op with
  | insert node =>
    rcases hold.insert hK node with ⟨hmany, hrun⟩ | ⟨hequal, hrun⟩ | ⟨hnew, h', hrun, hold'⟩
    · exact .inl ⟨hmany, by simp [Heap.apply, hrun]⟩
    · refine .inr ⟨h, by simp [Heap.apply, hrun], ?_⟩
      rwa [held, if_pos hequal]
    · refine .inr ⟨h', by simp [Heap.apply, hrun], ?_⟩
      rwa [held, if_neg (fun ⟨i, hi, h0⟩ => hnew i hi h0)]
  | removeItem node =>
    obtain ⟨h', hrun, hold'⟩ := hold.removeItem hfuel node
    exact .inr ⟨h', by simp [Heap.apply, hrun], hold'⟩

/-- **One operation** keeps the invariant. -/
theorem Holds.apply (hK : K.Ordered) (hfuel : MAX_TREE_DEPTH < fuel) (hold : Holds K h ids)
    (hfew : ids.length ≤ maxItems) (op : TreeOp ι) :
    ∃ h', h.apply K fuel op = some h' ∧ Holds K h' (held K ids op) :=
  (hold.apply_cases hK (fun _ ht => ht.height_lt hfuel hfew) op).resolve_left
    fun ⟨hmany, _⟩ => by omega

/-- **Every run** keeps the invariant, as long as there are not too many items. -/
theorem Holds.applyAll (hK : K.Ordered) (hfuel : MAX_TREE_DEPTH < fuel) (ops : List (TreeOp ι))
    (hold : Holds K h ids)
    (hfew : ∀ pre, pre <+: ops → (pre.foldl (held K) ids).length ≤ maxItems) :
    ∃ h', h.applyAll K fuel ops = some h' ∧ Holds K h' (ops.foldl (held K) ids) := by
  induction ops generalizing h ids with
  | nil => exact ⟨h, rfl, hold⟩
  | cons op ops ih =>
    obtain ⟨h₁, hrun, hold₁⟩ := hold.apply hK hfuel (hfew [] nil_prefix) op
    obtain ⟨h', hrun', hold'⟩ := ih hold₁ (fun pre hpre => hfew (op :: pre) (cons_prefix_cons.mpr ⟨rfl, hpre⟩))
    refine ⟨h', ?_, hold'⟩
    unfold Heap.applyAll at hrun' ⊢
    simp [hrun, hrun']

/-- **THE REPRESENTATION INVARIANT.**  Every sequence of `insert` and `removeItem` on an
empty tree, with at most `maxItems` items in it at a time, ends in a heap that satisfies the
invariant and holds exactly the items that were inserted and not removed. -/
theorem avl_invariant (K : Keys ι κ) (hK : K.Ordered) (fuel : Nat) (hfuel : MAX_TREE_DEPTH < fuel)
    (ops : List (TreeOp ι)) (hfew : ∀ pre, pre <+: ops → (heldAfter K pre).length ≤ maxItems) :
    ∃ h, (Heap.empty : Heap ι).applyAll K fuel ops = some h ∧ Holds K h (heldAfter K ops) :=
  (holds_empty K).applyAll hK hfuel ops hfew

/-- No operation adds more than one item. -/
theorem length_held_le (K : Keys ι κ) (ids : List ι) (op : TreeOp ι) :
    (held K ids op).length ≤ ids.length + 1 := by
  cases op with
  | insert node =>
    simp only [held]
    split
    · exact Nat.le_succ _
    · exact le_rfl
  | removeItem node => exact Nat.le_succ_of_le (length_erase_le)

theorem length_foldl_held_le (K : Keys ι κ) (ids : List ι) (ops : List (TreeOp ι)) :
    (ops.foldl (held K) ids).length ≤ ids.length + ops.length := by
  induction ops generalizing ids with
  | nil => exact le_rfl
  | cons op ops ih =>
    have hrest := ih (held K ids op)
    have hstep := length_held_le K ids op
    simp only [foldl_cons, length_cons]
    omega

/-! ## §5. The array of `insert`. -/

/-- **Every run that returns** keeps the invariant, however many items there were. -/
theorem Holds.of_applyAll (hK : K.Ordered) (ops : List (TreeOp ι)) (hold : Holds K h ids)
    (hfuel : ids.length + ops.length < fuel) {h' : Heap ι} (hrun : h.applyAll K fuel ops = some h') :
    Holds K h' (ops.foldl (held K) ids) := by
  induction ops generalizing h ids with
  | nil =>
    cases hrun
    exact hold
  | cons op ops ih =>
    have hheight : ∀ t, HoldsTree K h t ids → t.height < fuel := fun t ht => by
      have hsize : t.size = ids.length := ht.items.length_eq
      have hfib := (Shape.avl_height_iff.mpr ht.balanced).fib_le_size
      have hle := Nat.le_fib_add_one (t.height + 2)
      omega
    have hlen := length_held_le K ids op
    rw [length_cons] at hfuel
    rw [Heap.applyAll, foldlM_cons] at hrun
    rcases hold.apply_cases hK hheight op with ⟨-, hnone⟩ | ⟨h₁, hsome, hold₁⟩
    · rw [hnone] at hrun
      cases hrun
    · rw [hsome] at hrun
      exact ih hold₁ (by omega) hrun

/-- Items that are their own keys. -/
def natKeys : Keys Nat Nat := ⟨id, fun a b => (a : Int) - b⟩

omit [DecidableEq ι] in
/-- Keys compared by the difference of two numbers. -/
theorem ordered_sub (key : ι → κ) (num : κ → Int) :
    Keys.Ordered (⟨key, fun a b => num a - num b⟩ : Keys ι κ) where
  refl a := Int.sub_self _
  swap a b := by simp only; omega
  trans a b c := by simp only; omega

theorem natKeys_ordered : natKeys.Ordered := ordered_sub id Nat.cast

/-- Four operations, the last one removes the top of the tree. -/
theorem avl_invariant_four : ∃ h, (Heap.empty : Heap Nat).applyAll natKeys 33
    [.insert 2, .insert 1, .insert 3, .removeItem 2] = some h ∧ Holds natKeys h [3, 1] := by
  refine avl_invariant natKeys natKeys_ordered 33 (by decide) _ fun pre hpre => ?_
  have hlen : (heldAfter natKeys pre).length ≤ 0 + pre.length := length_foldl_held_le natKeys [] pre
  have hpre' : pre.length ≤ 4 := hpre.length_le
  unfold maxItems
  omega

/-- A sequence of insertions. -/
def Heap.insertAll (K : Keys ι κ) (h : Heap ι) (nodes : List ι) : Option (Heap ι) :=
  nodes.foldlM (fun h node => (h.insert K node).map (·.1)) h

theorem Heap.applyAll_insert (K : Keys ι κ) (fuel : Nat) (h : Heap ι) (nodes : List ι) :
    h.applyAll K fuel (nodes.map .insert) = h.insertAll K nodes := by
  simp only [Heap.applyAll, foldlM_map]
  rfl

theorem Heap.insertAll_concat (K : Keys ι κ) (h : Heap ι) (nodes : List ι) (node : ι) :
    h.insertAll K (nodes ++ [node]) = (h.insertAll K nodes).bind fun h => (h.insert K node).map (·.1) := by
  simp [Heap.insertAll]

/-- Ever larger items, with room between them. -/
def ascending (m : Nat) : List Nat := (range m).map fun j => 2 * j + 2

/-- The ascending items are all in the tree, unless a fault came before. -/
theorem ascending_holds (m : Nat) :
    (Heap.empty : Heap Nat).insertAll natKeys (ascending m) = none
      ∨ ∃ h ids, (Heap.empty : Heap Nat).insertAll natKeys (ascending m) = some h
        ∧ Holds natKeys h ids ∧ ids.length = m ∧ ∀ i ∈ ids, ∃ j < m, i = 2 * j + 2 := by
  induction m with
  | zero => exact .inr ⟨_, [], rfl, holds_empty natKeys, rfl, fun i hi => nomatch hi⟩
  | succ m ih =>
    have hsplit : ascending (m + 1) = ascending m ++ [2 * m + 2] := by
      simp [ascending, range_succ]
    rw [hsplit, Heap.insertAll_concat]
    rcases ih with hfault | ⟨h, ids, hrun, hold, hlen, hids⟩
    · rw [hfault]
      exact .inl rfl
    · rw [hrun, Option.bind_some]
      rcases hold.insert natKeys_ordered (2 * m + 2) with ⟨-, hrun'⟩ | ⟨⟨i, hi, h0⟩, -⟩ | ⟨-, h', hrun', hold'⟩
      · exact .inl (by rw [hrun']; rfl)
      · obtain ⟨j, hj, rfl⟩ := hids i hi
        change ((2 * j + 2 : Nat) : Int) - ((2 * m + 2 : Nat) : Int) = 0 at h0
        omega
      · refine .inr ⟨h', _, by rw [hrun']; rfl, hold', by simp [hlen], fun i hi => ?_⟩
        rcases mem_cons.mp hi with rfl | hi
        · exact ⟨m, Nat.lt_succ_self m, rfl⟩
        · obtain ⟨j, hj, rfl⟩ := hids i hi
          exact ⟨j, Nat.lt_succ_of_lt hj, rfl⟩

/-- **Between even numbers** there is an odd one at every place. -/
theorem exists_between {pre post : List Nat} (hs : natKeys.Sorted (pre ++ post))
    (heven : ∀ i ∈ pre ++ post, ∃ j, i = 2 * j + 2) :
    ∃ k, (∀ i ∈ pre, probe natKeys k i < 0) ∧ ∀ i ∈ post, 0 < probe natKeys k i := by
  have hlt : ∀ k i : Nat, (probe natKeys k i < 0 ↔ i < k) ∧ (0 < probe natKeys k i ↔ k < i) := by
    intro k i
    show ((i : Int) - k < 0 ↔ i < k) ∧ (0 < (i : Int) - k ↔ k < i)
    omega
  have hsorted : (pre ++ post).Pairwise (· < ·) := hs.imp fun hxy => ((hlt _ _).1).mp hxy
  rcases pre.eq_nil_or_concat' with rfl | ⟨front, last, rfl⟩
  · refine ⟨1, fun i hi => (nomatch hi), fun i hi => (hlt 1 i).2.mpr ?_⟩
    obtain ⟨j, rfl⟩ := heven i (by simpa using hi)
    omega
  · obtain ⟨hpre, -, hcross⟩ := pairwise_append.mp hsorted
    refine ⟨last + 1, fun i hi => (hlt _ i).1.mpr ?_, fun i hi => (hlt _ i).2.mpr ?_⟩
    · rcases mem_append.mp hi with hfront | hlast
      · have := (pairwise_append.mp hpre).2.2 i hfront last mem_cons_self
        omega
      · rw [mem_singleton.mp hlast]
        exact Nat.lt_succ_self last
    · obtain ⟨j, rfl⟩ := heven i (mem_append_right _ hi)
      obtain ⟨j', hj'⟩ := heven last (by simp)
      have := hcross last (by simp) _ hi
      omega

/-- **A tree of more than `MAX_TREE_DEPTH` levels** over even numbers has a place that
`insert` does not reach within its array. -/
theorem HoldsTree.exists_fault {h : Heap Nat} {t : Shape Nat} {ids : List Nat}
    (ht : HoldsTree natKeys h t ids) (heven : ∀ i ∈ ids, ∃ j, i = 2 * j + 2)
    (hhigh : MAX_TREE_DEPTH < t.height) : ∃ node, h.insert natKeys node = none := by
  obtain ⟨ctx, rfl, hlen⟩ := exists_deepest t
  have hlist : (plug ctx .nil).toList = before ctx ++ after ctx := by
    simp [toList_plug, Shape.toList]
  obtain ⟨k, hbefore, hafter⟩ := exists_between (hlist ▸ ht.sorted)
    (fun i hi => heven i (ht.items.mem_iff.mp (hlist ▸ hi)))
  have hdown : descend (probe natKeys (natKeys.key k)) (plug ctx .nil) [] = some (ctx ++ []) :=
    descend_plug hbefore hafter .nil []
  obtain ⟨x, hx⟩ : ∃ x, ptr (plug ctx .nil) = some x := by
    cases hp : ptr (plug ctx .nil) with
    | none =>
      rw [eq_nil_of_ptr hp] at hhigh
      exact absurd hhigh (Nat.not_lt_zero _)
    | some x => exact ⟨x, rfl⟩
  refine ⟨k, ?_⟩
  have htop : (h .root).left = some x := ht.links.above.1.trans hx
  unfold Heap.insert
  rw [htop]
  rcases ht.links.insertSearch natKeys k MAX_TREE_DEPTH hx with ⟨-, hfits⟩ | ⟨-, hnone⟩
  · have hle : ctx.length ≤ MAX_TREE_DEPTH := by simpa using hfits _ hdown
    omega
  · simp only [show h.insertSearch natKeys k MAX_TREE_DEPTH x [] = none from hnone]
    rfl

/-- **`insert` overruns its array**: there is a sequence of insertions on an empty tree
that ends in a fault. -/
theorem insert_overruns : natKeys.Ordered
    ∧ ∃ nodes : List Nat, ∀ fuel, (Heap.empty : Heap Nat).applyAll natKeys fuel (nodes.map .insert) = none := by
  refine ⟨natKeys_ordered, ?_⟩
  simp only [Heap.applyAll_insert]
  rcases ascending_holds (2 ^ (MAX_TREE_DEPTH + 1)) with hfault | ⟨h, ids, hrun, ⟨t, ht⟩, hlen, hids⟩
  · exact ⟨_, fun _ => hfault⟩
  · have hsize : t.size = 2 ^ (MAX_TREE_DEPTH + 1) := ht.items.length_eq.trans hlen
    have hhigh : MAX_TREE_DEPTH < t.height := by
      have hlt := t.size_lt
      rw [hsize] at hlt
      have := (Nat.pow_lt_pow_iff_right (by decide)).mp hlt
      omega
    obtain ⟨node, hnode⟩ := ht.exists_fault (fun i hi => (hids i hi).imp fun _ hj => hj.2) hhigh
    refine ⟨ascending (2 ^ (MAX_TREE_DEPTH + 1)) ++ [node], fun _ => ?_⟩
    rw [Heap.insertAll_concat, hrun, Option.bind_some, hnode]
    rfl

end ColonyCore.Container
