/-
  ColonyCore.Container.Map
  **A MAP IS AN ORDERED DICTIONARY**, where `find` sees the sign of every comparison.

  • `Map.step` are the operations of the source over the heap of the AVL tree;
    `Dict.step` is what they are for, over the items alone.
  • `map_refines`: every run of the one gives the answers of the other, and `find` looks
    up in the items held.
  • `find` converts the `int` of `compareKey` to `int8_t`, `insert` takes its sign.  A
    comparison that is a multiple of 256 is an equal key for the one and not for the
    other: `find_confuses`.
-/
import ColonyCore.Container.AvlInvariant

namespace ColonyCore.Container

open AvlShape List

variable {ι κ : Type}

/-! ## §1. The operations. -/

inductive MapOp (ι κ : Type) where
  | insert (node : ι)
  | remove (keyOfItemToDelete : κ)
  | removeItem (node : ι)
  | getFirst
  | getLast

/-- What an operation returns: a flag, or an item (`none` is the null pointer). -/
inductive Answer (ι : Type) where
  | flag (b : Bool)
  | item (nodePtr : Option ι)
deriving DecidableEq

namespace Map

variable [DecidableEq ι]

/-- `nodePtr ? m_tree.removeItem( *nodePtr ) : 0`. -/
def take (fuel : Nat) (h : Heap ι) : Option (Addr ι) → Option (Heap ι × Answer ι)
  | some (.item i) => (h.removeItem fuel i).map fun r => (r.1, .item (if r.2 then some i else none))
  | some .root => none
  | none => some (h, .item none)

def step (K : Keys ι κ) (fuel : Nat) (h : Heap ι) : MapOp ι κ → Option (Heap ι × Answer ι)
  | .insert node => (h.insert K node).map fun r => (r.1, .flag r.2)
  | .remove key => (h.find K fuel key).bind (take fuel h)
  | .removeItem node => (h.removeItem fuel node).map fun r => (r.1, .flag r.2)
  | .getFirst => (h.first fuel).bind (take fuel h)
  | .getLast => (h.last fuel).bind (take fuel h)

/-- A sequence of operations, with their answers. -/
def run (K : Keys ι κ) (fuel : Nat) : Heap ι → List (MapOp ι κ) → Option (Heap ι × List (Answer ι))
  | h, [] => some (h, [])
  | h, op :: ops => do
      let (h, answer) ← step K fuel h op
      let (h, answers) ← run K fuel h ops
      return (h, answer :: answers)

end Map

/-! ## §2. The dictionary. -/

variable (K : Keys ι κ)

/-- The key of `a` is not on the far side of the key of `j`. -/
def Keys.before (s : Side) (a j : ι) : Prop :=
  match s with
  | .left => K.compareKey (K.key a) (K.key j) ≤ 0
  | .right => K.compareKey (K.key j) (K.key a) ≤ 0

instance (K : Keys ι κ) : (s : Side) → (a j : ι) → Decidable (K.before s a j)
  | .left, a, j => inferInstanceAs (Decidable (K.compareKey (K.key a) (K.key j) ≤ 0))
  | .right, a, j => inferInstanceAs (Decidable (K.compareKey (K.key j) (K.key a) ≤ 0))

namespace Dict

/-- The item with an equal key. -/
def matching (ids : List ι) (k : κ) : Option ι :=
  ids.find? fun i => K.compareKey (K.key i) k = 0

/-- The item on the given end of the order: no key is smaller, or none is larger. -/
def endmost (s : Side) (ids : List ι) : Option ι :=
  ids.find? fun i => ∀ j ∈ ids, K.before s i j

variable [DecidableEq ι]

/-- The item is returned and is no longer there. -/
def take (ids : List ι) (nodePtr : Option ι) : List ι × Answer ι :=
  (nodePtr.elim ids ids.erase, .item nodePtr)

def step (ids : List ι) : MapOp ι κ → List ι × Answer ι
  | .insert node => if (matching K ids (K.key node)).isSome then (ids, .flag false)
    else (node :: ids, .flag true)
  | .remove key => take ids (matching K ids key)
  | .removeItem node => (ids.erase node, .flag (decide (node ∈ ids)))
  | .getFirst => take ids (endmost K .left ids)
  | .getLast => take ids (endmost K .right ids)

def run (K : Keys ι κ) : List ι → List (MapOp ι κ) → List ι × List (Answer ι)
  | ids, [] => (ids, [])
  | ids, op :: ops =>
    let (ids, answer) := step K ids op
    let (ids, answers) := run K ids ops
    (ids, answer :: answers)

end Dict

/-- **Every comparison keeps its sign** as an `int8_t`. -/
def Keys.FitsInt8 : Prop :=
  ∀ (i : ι) (k : κ), (0 < toInt8 (K.compareKey (K.key i) k) ↔ 0 < K.compareKey (K.key i) k)
    ∧ (toInt8 (K.compareKey (K.key i) k) = 0 ↔ K.compareKey (K.key i) k = 0)

/-! ## §3. The one item that is looked for. -/

variable {xs : List ι}

/-- At most one item of a list is looked for: its place does not matter. -/
theorem find?_eq_some_iff_of_unique {p : ι → Bool} (huniq : ∀ a ∈ xs, ∀ b ∈ xs, p a → p b → a = b)
    {a : ι} : xs.find? p = some a ↔ a ∈ xs ∧ p a := by
  constructor
  · exact fun hfind => ⟨mem_of_find?_eq_some hfind, find?_some hfind⟩
  · rintro ⟨hmem, hp⟩
    cases hfind : xs.find? p with
    | none => exact absurd hp (find?_eq_none.mp hfind a hmem)
    | some b =>
      rw [huniq b (mem_of_find?_eq_some hfind) a hmem (find?_some hfind) hp]

variable {K : Keys ι κ}

/-- Items in order have different keys. -/
theorem Keys.Ordered.eq_of_compare (hK : K.Ordered) (hs : K.Sorted xs) {a b : ι} (ha : a ∈ xs)
    (hb : b ∈ xs) (h0 : K.compareKey (K.key a) (K.key b) = 0) : a = b := by
  by_contra hne
  have hpair : xs.Pairwise fun x y => K.compareKey (K.key x) (K.key y) ≠ 0 :=
    List.Pairwise.imp (fun hlt => by omega) hs
  have : Std.Symm fun x y : ι => K.compareKey (K.key x) (K.key y) ≠ 0 := ⟨fun x y hxy => by
    have h₁ := hK.swap (K.key x) (K.key y)
    have h₂ := hK.swap (K.key y) (K.key x)
    omega⟩
  exact hpair.forall ha hb hne h0

/-- Keys equal to one key are equal. -/
theorem Keys.Ordered.compare_of_equal (hK : K.Ordered) {a b k : κ} (ha : K.compareKey a k = 0)
    (hb : K.compareKey b k = 0) : K.compareKey a b = 0 := by
  have hswap := hK.swap b k
  have h₁ := hK.trans a k b (by omega) (by omega)
  have h₂ : ¬ K.compareKey a b < 0 := fun hlt => by
    have := hK.lt_of_lt_of_le hlt (by omega : K.compareKey b k ≤ 0)
    omega
  omega

/-- At most one item has a key equal to `k`. -/
theorem Keys.Ordered.matching_unique (hK : K.Ordered) (hs : K.Sorted xs) (k : κ) :
    ∀ a ∈ xs, ∀ b ∈ xs, decide (K.compareKey (K.key a) k = 0) →
      decide (K.compareKey (K.key b) k = 0) → a = b := by
  intro a ha b hb hak hbk
  exact hK.eq_of_compare hs ha hb (hK.compare_of_equal (of_decide_eq_true hak) (of_decide_eq_true hbk))

/-- At most one item is on an end of the order. -/
theorem Keys.Ordered.endmost_unique (hK : K.Ordered) (hs : K.Sorted xs) (s : Side) :
    ∀ a ∈ xs, ∀ b ∈ xs, decide (∀ j ∈ xs, K.before s a j) → decide (∀ j ∈ xs, K.before s b j) → a = b := by
  intro a ha b hb hall hall'
  have hab := of_decide_eq_true hall b hb
  have hba := of_decide_eq_true hall' a ha
  have hswap := hK.swap (K.key a) (K.key b)
  refine hK.eq_of_compare hs ha hb ?_
  unfold Keys.before at hab hba
  cases s <;> omega

/-! ## §4. Searching. -/

open Shape

variable {h : Heap ι} {t : Shape ι} {ids : List ι} {fuel : Nat}

/-- **`find`** in a tree, from its top. -/
theorem Rep.findFrom {par : Addr ι} (hfit : K.FitsInt8) {k : κ} (hrep : Rep h par t)
    (hdir : Directs (probe K k) t.toList) (hfuel : t.height ≤ fuel) :
    h.findFrom K k fuel (ptr t) = some ((t.toList.find? fun i => probe K k i = 0).map .item) := by
  induction t generalizing par fuel with
  | nil => cases fuel <;> rfl
  | node l a b r ihl ihr =>
    have hheight : max l.height r.height + 1 ≤ fuel := hfuel
    obtain ⟨m, rfl⟩ : ∃ m, fuel = m + 1 := ⟨fuel - 1, by omega⟩
    obtain ⟨hnode, hl, hr⟩ := hrep
    obtain ⟨hdirl, hdirr, hal, har⟩ := hdir.node
    obtain ⟨hpos, hzero⟩ := hfit a k
    have hleft : (h (.item a)).left = ptr l := hnode.child
    have hright : (h (.item a)).right = ptr r := hnode.other
    show (if toInt8 (K.compareKey (K.key a) k) > 0 then h.findFrom K k m (h (.item a)).left
      else if toInt8 (K.compareKey (K.key a) k) = 0 then some (some (.item a))
      else h.findFrom K k m (h (.item a)).right) = _
    have hlist : (Shape.node l a b r).toList = l.toList ++ a :: r.toList := rfl
    rw [hlist, find?_append, find?_cons]
    by_cases hgt : 0 < probe K k a
    · -- the key is in the left subtree, if anywhere
      have hr0 : (r.toList.find? fun i => probe K k i = 0) = none := find?_eq_none.mpr fun i hi => by
        have := (har i hi).2 (by omega)
        simp only [decide_eq_true_eq]
        omega
      rw [if_pos (hpos.mpr hgt), hleft, ihl hl hdirl (by omega), hr0]
      have hne : ¬ probe K k a = 0 := by omega
      simp [hne]
    · have hl0 : (l.toList.find? fun i => probe K k i = 0) = none := find?_eq_none.mpr fun i hi => by
        have := (hal i hi).1 (by omega)
        simp only [decide_eq_true_eq]
        omega
      rw [if_neg (fun h => hgt (hpos.mp h)), hl0]
      by_cases heq : probe K k a = 0
      · rw [if_pos (hzero.mpr heq)]
        simp [heq]
      · rw [if_neg (fun h => heq (hzero.mp h)), hright, ihr hr hdirr (by omega)]
        simp [heq]

/-- **`find`** looks up in the items held. -/
theorem HoldsTree.find (hK : K.Ordered) (hfit : K.FitsInt8) (ht : HoldsTree K h t ids)
    (hfuel : t.height ≤ fuel) (k : κ) :
    h.find K fuel k = some ((Dict.matching K ids k).map .item) := by
  have htop : (h .root).left = ptr t := ht.links.above.1
  unfold Heap.find
  rw [htop, ht.links.rep.findFrom hfit (hK.directs ht.sorted k) hfuel]
  have hsame : Dict.matching K ids k = t.toList.find? fun i => probe K k i = 0 := by
    refine Option.ext fun a => ?_
    have huniq := hK.matching_unique ht.sorted k
    have huniq' : ∀ a ∈ ids, ∀ b ∈ ids, _ := fun a ha b hb =>
      huniq a (ht.items.mem_iff.mpr ha) b (ht.items.mem_iff.mpr hb)
    unfold Dict.matching probe
    rw [find?_eq_some_iff_of_unique huniq', find?_eq_some_iff_of_unique huniq, ht.items.mem_iff]
  rw [hsame]

theorem Keys.Ordered.before_refl (hK : K.Ordered) (s : Side) (a : ι) : K.before s a a := by
  cases s <;> exact Int.le_of_eq (hK.refl _)

/-- **The item on an end** of the order. -/
theorem Keys.Sorted.before_of_endOf (hK : K.Ordered) {xs : List ι} (hs : K.Sorted xs) {s : Side}
    {a : ι} (hend : endOf s xs = some a) : a ∈ xs ∧ ∀ i ∈ xs, K.before s a i := by
  cases s with
  | left =>
    obtain ⟨rest, rfl⟩ := head?_eq_some_iff.mp hend
    obtain ⟨hlt, -⟩ := pairwise_cons.mp hs
    exact ⟨mem_cons_self, forall_mem_cons.mpr
      ⟨hK.before_refl .left a, fun i hi => Int.le_of_lt (hlt i hi)⟩⟩
  | right =>
    obtain ⟨rest, rfl⟩ := getLast?_eq_some_iff.mp hend
    obtain ⟨-, -, hlt⟩ := pairwise_append.mp hs
    refine ⟨mem_append_right _ mem_cons_self, forall_mem_append.mpr
      ⟨fun i hi => Int.le_of_lt (hlt i hi a mem_cons_self), ?_⟩⟩
    simpa using hK.before_refl .right a

/-- **`first` and `last`** return the smallest and the largest item. -/
theorem HoldsTree.endmost (hK : K.Ordered) (s : Side) (ht : HoldsTree K h t ids)
    (hfuel : t.height ≤ fuel) : h.endmost s fuel = some ((Dict.endmost K s ids).map .item) := by
  rw [ht.links.endmost s hfuel]
  have hids : ∀ i, i ∈ ids ↔ i ∈ t.toList := fun i => ht.items.mem_iff.symm
  cases hend : endOf s t.toList with
  | none =>
    have hnil : t.toList = [] := by cases s <;> simpa [endOf] using hend
    obtain rfl : ids = [] := (hnil ▸ ht.items).symm.eq_nil
    rfl
  | some a =>
    obtain ⟨ha, hall⟩ := ht.sorted.before_of_endOf hK hend
    have huniq : ∀ a ∈ ids, ∀ b ∈ ids, decide (∀ j ∈ ids, K.before s a j) →
        decide (∀ j ∈ ids, K.before s b j) → a = b := by
      simpa [hids] using hK.endmost_unique ht.sorted s
    have hdict : Dict.endmost K s ids = some a := by
      refine (find?_eq_some_iff_of_unique huniq).mpr ⟨(hids a).mpr ha, decide_eq_true fun j hj => ?_⟩
      exact hall j ((hids j).mp hj)
    rw [hdict]

/-! ## §5. One operation, and every run. -/

theorem Dict.mem_of_matching {k : κ} {i : ι} (hmatch : Dict.matching K ids k = some i) : i ∈ ids :=
  mem_of_find?_eq_some hmatch

theorem Dict.mem_of_endmost {s : Side} {i : ι} (hend : Dict.endmost K s ids = some i) : i ∈ ids :=
  mem_of_find?_eq_some hend

variable [DecidableEq ι]

/-- An item that was found is taken out. -/
theorem Holds.take (hfuel : MAX_TREE_DEPTH < fuel) (hfew : ids.length ≤ maxItems)
    (hold : Holds K h ids) {nodePtr : Option ι} (hmem : ∀ i, nodePtr = some i → i ∈ ids) :
    ∃ h', Map.take fuel h (nodePtr.map .item) = some (h', (Dict.take ids nodePtr).2)
      ∧ Holds K h' (Dict.take ids nodePtr).1 := by
  cases nodePtr with
  | none => exact ⟨h, rfl, hold⟩
  | some i =>
    obtain ⟨h', hrun, hold'⟩ := hold.removeItem (fun _ ht => ht.height_lt hfuel hfew) i
    refine ⟨h', ?_, hold'⟩
    show (h.removeItem fuel i).map _ = _
    simp [hrun, hmem i rfl, Dict.take]

/-- **One operation** of the map is one of the dictionary. -/
theorem Holds.mapStep (hK : K.Ordered) (hfit : K.FitsInt8) (hfuel : MAX_TREE_DEPTH < fuel)
    (hfew : ids.length ≤ maxItems) (hold : Holds K h ids) (op : MapOp ι κ) :
    ∃ h', Map.step K fuel h op = some (h', (Dict.step K ids op).2) ∧ Holds K h' (Dict.step K ids op).1 := by
  obtain ⟨t, ht⟩ := hold
  have hheight : t.height ≤ fuel := Nat.le_of_lt (Nat.lt_of_le_of_lt (ht.height_le hfew) hfuel)
  have hold : Holds K h ids := ⟨t, ht⟩
  cases op with
  | insert i =>
    have hsome : (Dict.matching K ids (K.key i)).isSome ↔ ∃ j ∈ ids, K.compareKey (K.key j) (K.key i) = 0 := by
      simp [Dict.matching]
    rcases hold.insert hK i with ⟨hmany, -⟩ | ⟨hequal, hrun⟩ | ⟨hnew, h', hrun, hold'⟩
    · omega
    · refine ⟨h, ?_, ?_⟩
      · simp [Map.step, Dict.step, hrun, hsome.mpr hequal]
      · simpa [Dict.step, hsome.mpr hequal] using hold
    · have hnone : ¬ (Dict.matching K ids (K.key i)).isSome := by
        rw [hsome]
        exact fun ⟨j, hj, h0⟩ => hnew j hj h0
      refine ⟨h', ?_, ?_⟩
      · simp only [Map.step, Dict.step, hrun, if_neg hnone]
        rfl
      · simpa [Dict.step, if_neg hnone] using hold'
  | remove k =>
    obtain ⟨h', hrun, hold'⟩ := hold.take hfuel hfew (fun i hi => Dict.mem_of_matching hi)
    refine ⟨h', ?_, hold'⟩
    show (h.find K fuel k).bind _ = _
    rw [ht.find hK hfit hheight k]
    exact hrun
  | removeItem i =>
    obtain ⟨h', hrun, hold'⟩ := hold.removeItem (fun _ ht => ht.height_lt hfuel hfew) i
    refine ⟨h', ?_, hold'⟩
    show (h.removeItem fuel i).map _ = _
    rw [hrun]
    rfl
  | getFirst =>
    obtain ⟨h', hrun, hold'⟩ := hold.take hfuel hfew (fun i hi => Dict.mem_of_endmost hi)
    refine ⟨h', ?_, hold'⟩
    show (h.endmost .left fuel).bind _ = _
    rw [ht.endmost hK .left hheight]
    exact hrun
  | getLast =>
    obtain ⟨h', hrun, hold'⟩ := hold.take hfuel hfew (fun i hi => Dict.mem_of_endmost hi)
    refine ⟨h', ?_, hold'⟩
    show (h.endmost .right fuel).bind _ = _
    rw [ht.endmost hK .right hheight]
    exact hrun

/-- **Every run** of the map is one of the dictionary. -/
theorem Holds.mapRun (hK : K.Ordered) (hfit : K.FitsInt8) (hfuel : MAX_TREE_DEPTH < fuel)
    (ops : List (MapOp ι κ)) (hold : Holds K h ids)
    (hfew : ∀ pre, pre <+: ops → (Dict.run K ids pre).1.length ≤ maxItems) :
    ∃ h', Map.run K fuel h ops = some (h', (Dict.run K ids ops).2) ∧ Holds K h' (Dict.run K ids ops).1 := by
  induction ops generalizing h ids with
  | nil => exact ⟨h, rfl, hold⟩
  | cons op ops ih =>
    obtain ⟨h₁, hrun, hold₁⟩ := hold.mapStep hK hfit hfuel (hfew [] nil_prefix) op
    obtain ⟨h', hrun', hold'⟩ :=
      ih hold₁ (fun pre hpre => hfew (op :: pre) (cons_prefix_cons.mpr ⟨rfl, hpre⟩))
    refine ⟨h', ?_, hold'⟩
    unfold Map.run
    simp only [hrun, hrun', Option.bind_eq_bind, Option.bind_some]
    rfl

/-- **A MAP IS AN ORDERED DICTIONARY.**  Every sequence of operations on an empty map gives
the answers of the dictionary, and after it `find` returns the item with an equal key, or
null.  The comparisons keep their signs as `int8_t`, and the map has at most `maxItems`
items at a time. -/
theorem map_refines (K : Keys ι κ) (hK : K.Ordered) (hfit : K.FitsInt8) (fuel : Nat)
    (hfuel : MAX_TREE_DEPTH < fuel) (ops : List (MapOp ι κ))
    (hfew : ∀ pre, pre <+: ops → (Dict.run K [] pre).1.length ≤ maxItems) :
    ∃ h, Map.run K fuel Heap.empty ops = some (h, (Dict.run K [] ops).2)
      ∧ ∀ k, h.find K fuel k = some ((Dict.matching K (Dict.run K [] ops).1 k).map .item) := by
  obtain ⟨h, hrun, hold⟩ := (holds_empty K).mapRun hK hfit hfuel ops hfew
  refine ⟨h, hrun, fun k => ?_⟩
  obtain ⟨t, ht⟩ := hold
  have hheight := ht.height_le (hfew ops (prefix_refl ops))
  exact ht.find hK hfit (Nat.le_of_lt (Nat.lt_of_le_of_lt hheight hfuel)) k

/-- No operation adds more than one item. -/
theorem Dict.length_step_le (K : Keys ι κ) (ids : List ι) (op : MapOp ι κ) :
    (Dict.step K ids op).1.length ≤ ids.length + 1 := by
  have htake : ∀ r : Option ι, (Dict.take ids r).1.length ≤ ids.length + 1 := by
    intro r
    cases r with
    | none => exact Nat.le_succ _
    | some i => exact Nat.le_succ_of_le length_erase_le
  cases op with
  | insert i =>
    simp only [Dict.step]
    split
    · exact Nat.le_succ _
    · exact le_rfl
  | remove k => exact htake _
  | removeItem i => exact Nat.le_succ_of_le length_erase_le
  | getFirst => exact htake _
  | getLast => exact htake _

theorem Dict.length_run_le (K : Keys ι κ) (ids : List ι) (ops : List (MapOp ι κ)) :
    (Dict.run K ids ops).1.length ≤ ids.length + ops.length := by
  induction ops generalizing ids with
  | nil => exact le_rfl
  | cons op ops ih =>
    have hstep := Dict.length_step_le K ids op
    have hrest : (Dict.run K ids (op :: ops)).1.length ≤ (Dict.step K ids op).1.length + ops.length := ih _
    simp only [length_cons]
    omega

/-- Keys below 100. -/
def smallKeys : Keys (Fin 100) (Fin 100) := ⟨id, fun a b => (a.val : Int) - b.val⟩

theorem smallKeys_ordered : smallKeys.Ordered := ordered_sub id fun a : Fin 100 => (a.val : Int)

theorem smallKeys_fitsInt8 : smallKeys.FitsInt8 := by
  intro i k
  show (0 < toInt8 ((i.val : Int) - k.val) ↔ 0 < (i.val : Int) - k.val)
    ∧ (toInt8 ((i.val : Int) - k.val) = 0 ↔ (i.val : Int) - k.val = 0)
  unfold toInt8
  omega

/-- A refused item, one removed by its key, and the smallest of the rest. -/
theorem map_refines_small : ∃ h, Map.run smallKeys 33 Heap.empty
      [.insert 5, .insert 3, .insert 7, .insert 5, .remove 3, .getFirst]
        = some (h, [.flag true, .flag true, .flag true, .flag false, .item (some 3), .item (some 5)])
    ∧ ∀ k, h.find smallKeys 33 k = some ((Dict.matching smallKeys [7] k).map .item) := by
  refine map_refines smallKeys smallKeys_ordered smallKeys_fitsInt8 33 (by decide) _ fun pre hpre => ?_
  have hlen : (Dict.run smallKeys [] pre).1.length ≤ 0 + pre.length := Dict.length_run_le smallKeys [] pre
  have hpre' : pre.length ≤ 6 := hpre.length_le
  unfold maxItems
  omega

/-- **`find` takes a far key for an equal one.**  The keys 256 and 0 differ by a multiple
of 256; the map holds 256 only, and `find` of 0 returns it. -/
theorem find_confuses : natKeys.Ordered
    ∧ (Map.run natKeys 33 Heap.empty [.insert 256]).map (·.2) = some [.flag true]
    ∧ ((Map.run natKeys 33 Heap.empty [.insert 256]).bind fun r => r.1.find natKeys 33 0)
        = some (some (.item 256))
    ∧ Dict.matching natKeys [256] 0 = none :=
  ⟨natKeys_ordered, by decide, by decide, by decide⟩

end ColonyCore.Container
