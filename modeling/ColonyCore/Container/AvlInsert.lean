/-
  ColonyCore.Container.AvlInsert
  **INSERTING INTO THE AVL TREE.**

  The way down of `insert` is the search of `AvlShape` (`insertSearch_eq`), the way up
  applies its rules for growing to one node after the other (`At.insertClimb`).  The
  array `comparisons` holds the sides of the way down, so that it is long enough exactly
  if the way is no longer than MAX_TREE_DEPTH.
-/
import ColonyCore.Container.AvlHeap

namespace ColonyCore.Container

open AvlShape Shape

variable {ι κ : Type} {h : Heap ι} {ctx : List (Frame ι)}

variable {t : Shape ι}

/-- The focus moves to the top of the tree. -/
theorem at_plug : At h ctx t ↔ At h [] (plug ctx t) := by
  induction ctx generalizing t with
  | nil => exact Iff.rfl
  | cons f fs ih => exact at_attach.symm.trans ih

theorem Moves.plug {h' : Heap ι} {t' : Shape ι} (hmove : Moves ctx h t h' t') :
    Moves [] h (AvlShape.plug ctx t) h' (AvlShape.plug ctx t') :=
  ⟨at_plug.mp hmove.holds, toList_plug_congr hmove.items ctx, hmove.keeps⟩

variable [DecidableEq ι]

/-! ## §1. The way up. -/

/-- **The switch of `insert`** follows the rules for growing. -/
theorem At.insertBalance {f : Frame ι} {u : Shape ι} {taller : Bool} (hat : At h (f :: ctx) t)
    (hgrow : Grow f t u taller) :
    ∃ h', h.insertBalance f.side (.item f.label) = some (h', taller)
      ∧ Moves ctx h (f.attach t) h' u := by
  have hbalance : (h (.item f.label)).balance = f.balance := hat.above.1.balance
  have hup : At h ctx (fork f.side t f.label f.balance f.other) := at_attach.mpr hat
  unfold Heap.insertBalance
  rw [hbalance]
  cases hgrow with
  | even hb =>
    rw [hb, if_neg (Side.even_ne_heavy _)]
    exact ⟨_, rfl, hup.setBalance f.side.heavy⟩
  | level hb =>
    rw [hb, if_neg (Side.other_heavy_ne _), if_neg (Side.heavy_ne_even _)]
    exact ⟨_, rfl, hup.setBalance .even⟩
  | rotate hb hrot =>
    rw [if_pos hb]
    exact hup.grew hrot

/-- What `insert` keeps of the way down. -/
def comparisonOf : Side → Int
  | .left => 1
  | .right => -1

/-- One round of the loop on the way up. -/
theorem insertClimb_cons (h : Heap ι) (curPtr : Addr ι) (taller : Bool) (s : Side) (cs : List Int) :
    h.insertClimb curPtr taller (comparisonOf s :: cs)
      = (h.insertBalance s curPtr).bind fun r =>
          if r.2 ∧ cs ≠ [] then ((h curPtr).parent).bind fun next => r.1.insertClimb next r.2 cs
          else some r.1 := by
  cases s <;> rfl

/-- **The way up** rebalances the tree. -/
theorem At.insertClimb {k : Nat} (hat : At h ctx t) (hctx : CtxAvl ctx k) (ht : Grown t k)
    (taller : Bool) :
    ∃ h' u n, h.insertClimb (parentOf ctx) taller (ctx.map fun f => comparisonOf f.side) = some h'
      ∧ Moves [] h (plug ctx t) h' u ∧ u.Avl n := by
  induction ctx generalizing h t k taller with
  | nil => exact ⟨h, t, k + 1, rfl, .refl hat, ht.1⟩
  | cons f fs ih =>
    obtain ⟨n, hf, hfs⟩ := hctx
    obtain ⟨u, taller', hgrow, hu⟩ := grow_exists hf ht
    obtain ⟨h₁, hrun, hmove⟩ := hat.insertBalance hgrow
    have hparent : (h (.item f.label)).parent = some (parentOf fs) := hat.above.1.parent
    show ∃ h' u n, h.insertClimb (.item f.label) taller (comparisonOf f.side :: _) = some h' ∧ _
    rw [insertClimb_cons, hrun, Option.bind_some, hparent]
    cases taller' with
    | false =>
      obtain ⟨n', hn'⟩ := avl_plug.mpr ⟨n, hu, hfs⟩
      exact ⟨h₁, plug fs u, n', by simp, hmove.plug, hn'⟩
    | true =>
      by_cases hfs' : fs = []
      · subst hfs'
        exact ⟨h₁, u, n + 1, by simp, hmove, hu.1⟩
      · obtain ⟨h', u', n', hrun', hmove', hn'⟩ := ih hmove.holds hfs hu true
        rw [if_pos ⟨rfl, by simpa using hfs'⟩]
        exact ⟨h', u', n', hrun', hmove.plug.trans hmove', hn'⟩

/-! ## §2. The way down. -/

variable (K : Keys ι κ)

/-- The probe of the keys with a new one. -/
def probe (k : κ) (i : ι) : Int := K.compareKey (K.key i) k

section

variable (newNode : ι) (h : Heap ι) (slots : Nat) (cs : List Int)

/-- One round of the loop on the way down: at a node whose key is not equal, on side
`s`. -/
theorem insertSearch_succ {a : ι} {s : Side}
    (hs : (s = .left ∧ 0 < probe K (K.key newNode) a)
      ∨ (s = .right ∧ probe K (K.key newNode) a < 0)) :
    h.insertSearch K newNode (slots + 1) (.item a) cs
      = match (h (.item a)).child s with
        | none => some (some (h.setChild s (.item a) (some (.item newNode)), .item a, comparisonOf s :: cs))
        | some next => h.insertSearch K newNode slots next (comparisonOf s :: cs) := by
  conv_lhs => unfold Heap.insertSearch
  rcases hs with ⟨rfl, hpos⟩ | ⟨rfl, hneg⟩
  · have hresult : ¬ K.compare (.item a) (K.key newNode) < 0 := by
      show ¬ probe K (K.key newNode) a < 0
      omega
    simp only [hresult, show K.compare (.item a) (K.key newNode) > 0 from hpos]
    rfl
  · simp only [show K.compare (.item a) (K.key newNode) < 0 from hneg]
    rfl

/-- One round of the loop on the way down, at an equal key. -/
theorem insertSearch_equal {a : ι} (hzero : probe K (K.key newNode) a = 0) :
    h.insertSearch K newNode (slots + 1) (.item a) cs = some none := by
  have hresult : K.compare (.item a) (K.key newNode) = 0 := hzero
  unfold Heap.insertSearch
  simp [hresult]

end

/-- What the way down leaves: the new node linked below its parent, and the sides. -/
def linkedBelow (h : Heap ι) (newNode : ι) (ctx : List (Frame ι)) : Heap ι × Addr ι × List Int :=
  (h.setChild (sideOf ctx) (parentOf ctx) (some (.item newNode)), parentOf ctx,
    ctx.map fun f => comparisonOf f.side)

variable {x : Addr ι}

/-- **The way down** ends at the place of the new node or at an equal key, unless the
tree is higher than the array is long. -/
theorem At.insertSearch (newNode : ι) (slots : Nat)
    (hat : At h ctx t) (hx : ptr t = some x) :
    h.insertSearch K newNode slots x (ctx.map fun f => comparisonOf f.side)
          = some ((descend (probe K (K.key newNode)) t ctx).map (linkedBelow h newNode))
        ∧ (∀ ctx', descend (probe K (K.key newNode)) t ctx = some ctx' →
          ctx'.length ≤ ctx.length + slots)
      ∨ slots < t.height
        ∧ h.insertSearch K newNode slots x (ctx.map fun f => comparisonOf f.side) = none := by
  induction t generalizing ctx x slots with
  | nil => cases hx
  | node l a b r ihl ihr =>
    cases hx
    have hlh : l.height ≤ max l.height r.height := Nat.le_max_left _ _
    have hrh : r.height ≤ max l.height r.height := Nat.le_max_right _ _
    cases slots with
    | zero => exact .inr ⟨Nat.succ_pos _, rfl⟩
    | succ n =>
      obtain ⟨hnode, hl, hr⟩ := hat.rep
      have hshift {f : Frame ι} {d : Option (List (Frame ι))}
          (h : ∀ ctx', d = some ctx' → ctx'.length ≤ (f :: ctx).length + n) (ctx' : List (Frame ι))
          (hd : d = some ctx') : ctx'.length ≤ ctx.length + (n + 1) :=
        (h ctx' hd).trans (by simp only [List.length_cons]; omega)
      unfold descend
      by_cases hpos : 0 < probe K (K.key newNode) a
      · rw [if_pos hpos, insertSearch_succ K newNode h n _ (.inl ⟨rfl, hpos⟩), hnode.child]
        cases hp : ptr l with
        | none =>
          rw [eq_nil_of_ptr hp]
          exact .inl ⟨rfl, fun ctx' hdown => by cases hdown; simp⟩
        | some y =>
          refine (@ihl (⟨.left, a, b, r⟩ :: ctx) y n (At.child hat) hp).imp (And.imp_right hshift) ?_
          exact And.imp_left fun hlt => Nat.succ_lt_succ (Nat.lt_of_lt_of_le hlt hlh)
      · rw [if_neg hpos]
        by_cases hneg : probe K (K.key newNode) a < 0
        · have hright : (h (.item a)).child .right = ptr r := hnode.other
          rw [if_pos hneg, insertSearch_succ K newNode h n _ (.inr ⟨rfl, hneg⟩), hright]
          cases hp : ptr r with
          | none =>
            rw [eq_nil_of_ptr hp]
            exact .inl ⟨rfl, fun ctx' hdown => by cases hdown; simp⟩
          | some y =>
            refine (@ihr (⟨.right, a, b, l⟩ :: ctx) y n (At.other (s := .left) hat) hp).imp
              (And.imp_right hshift) ?_
            exact And.imp_left fun hlt => Nat.succ_lt_succ (Nat.lt_of_lt_of_le hlt hrh)
        · rw [if_neg hneg, insertSearch_equal K newNode h n _ (by omega)]
          exact .inl ⟨rfl, fun ctx' hdown => by cases hdown⟩

/-! ## §3. The new node. -/

/-- Changes of two nodes commute. -/
theorem Heap.modify_comm (h : Heap ι) {y : Addr ι} (hne : x ≠ y) (f g : MapItem ι → MapItem ι) :
    (h.modify x f).modify y g = (h.modify y g).modify x f := by
  apply Heap.ext
  funext z
  simp only [Heap.modify_apply]
  by_cases hx : z = x
  · subst hx
    simp [hne]
  · by_cases hy : z = y
    · subst hy
      simp [hx]
    · simp [hx, hy]

variable {newNode : ι}

/-- **The new node is linked** below its parent. -/
theorem At.link (hat : At h ctx .nil) (hnew : newNode ∉ labels ctx) :
    At ((h.setChild (sideOf ctx) (parentOf ctx) (some (.item newNode))).initialized (.item newNode)
        (some (parentOf ctx))) ctx (.node .nil newNode .even .nil)
      ∧ Keeps (newNode :: labels ctx) h
          ((h.setChild (sideOf ctx) (parentOf ctx) (some (.item newNode))).initialized (.item newNode)
            (some (parentOf ctx))) := by
  have hP := parentOf_ne hnew
  have happly : ∀ x, ((h.setChild (sideOf ctx) (parentOf ctx) (some (.item newNode))).initialized
      (.item newNode) (some (parentOf ctx))) x
      = if x = .item newNode then ((h x).initialized (some (parentOf ctx)))
        else (h.setChild (sideOf ctx) (parentOf ctx) (some (.item newNode))) x := by
    intro x
    unfold Heap.initialized
    rw [Heap.modify_apply]
    split
    next hx =>
      subst hx
      unfold Heap.setChild
      rw [Heap.modify_apply, if_neg hP.symm]
    next => rfl
  generalize (h.setChild (sideOf ctx) (parentOf ctx) (some (.item newNode))).initialized (.item newNode)
      (some (parentOf ctx)) = h' at happly ⊢
  have hkeep : ∀ x, x ≠ .item newNode → x ≠ parentOf ctx → SameLinks (h' x) (h x) := by
    intro x hx hp
    rw [happly, if_neg hx]
    exact ⟨by simp, fun u => by simp [Heap.child_setChild, hp], by simp, by simp⟩
  refine ⟨⟨hat.above.relink (List.nodup_append.mp hat.nodup).2.1 ?_ ?_ ?_, ⟨?_, trivial, trivial⟩, ?_⟩, ?_, ?_⟩
  · rw [happly, if_neg hP]
    exact ⟨by simp, by simp [Heap.child_setChild, ptr], by simp [Heap.child_setChild], by simp, by simp⟩
  · exact fun hroot => hkeep _ (by simp) hroot.symm
  · intro i hi hne
    exact hkeep _ (fun heq => hnew (Addr.item.inj heq ▸ hi)) hne.symm
  · rw [happly, if_pos rfl]
    exact ⟨rfl, rfl, rfl, rfl, rfl⟩
  · exact List.nodup_cons.mpr ⟨hnew, (List.nodup_append.mp hat.nodup).2.1⟩
  · intro i hi
    rw [List.mem_cons, not_or] at hi
    exact hkeep _ (by simpa using hi.1) (parentOf_ne hi.2).symm
  · intro x
    rw [happly]
    split
    · rfl
    · simp

/-- The nodes that an insertion leaves alone, and the one it puts in the container. -/
structure Inserted (ids : List ι) (newNode : ι) (h h' : Heap ι) : Prop where
  links : ∀ i, i ≠ newNode → i ∉ ids → SameLinks (h' (.item i)) (h (.item i))
  inList : ∀ x, (h' x).inList = if x = .item newNode then true else (h x).inList

/-- `insert_` of a node that is in no container. -/
theorem At.insert_ (hat : At h ctx t) (hfree : (h (.item newNode)).inList = false) :
    ∃ h', h.insert_ (.item newNode) = some h' ∧ At h' ctx t ∧ (∀ x, SameLinks (h' x) (h x))
      ∧ ∀ x, (h' x).inList = if x = .item newNode then true else (h x).inList := by
  refine ⟨h.modify (.item newNode) ({ · with inList := true }), by simp [Heap.insert_, hfree], ?_⟩
  have hsame : ∀ x, SameLinks ((h.modify (.item newNode) ({ · with inList := true })) x) (h x) := by
    intro x
    exact ⟨h.modify_keeps _ x (·.parent) _ fun _ => rfl,
      fun u => h.modify_keeps _ x (·.child u) _ fun _ => by cases u <;> rfl,
      h.modify_keeps _ x (·.balance) _ fun _ => rfl, h.modify_keeps _ x (·.isNotRoot) _ fun _ => rfl⟩
  refine ⟨⟨hat.above.congr (hsame _) (fun i _ => hsame _), hat.rep.congr (fun i _ => hsame _), hat.nodup⟩,
    hsame, ?_⟩
  intro x
  rw [Heap.modify_apply]
  split <;> rfl

/-- From the hole to the end of `insert`: the node is linked, the tree rebalanced on the
way up, and the node put in the container. -/
theorem At.insert_at {n : Nat} (hat : At h ctx .nil) (hplug : plug ctx .nil = t)
    (havl : t.Avl n) (hnew : newNode ∉ t.toList) (hfree : (h (.item newNode)).inList = false) :
    ∃ h₁ h₂ u n', ((h.setChild (sideOf ctx) (parentOf ctx) (some (.item newNode))).initialized
          (.item newNode) (some (parentOf ctx))).insertClimb (parentOf ctx) false
          (ctx.map fun f => comparisonOf f.side) = some h₁
      ∧ h₁.insert_ (.item newNode) = some h₂ ∧ At h₂ [] u ∧ u.Avl n'
      ∧ u.toList = before ctx ++ newNode :: after ctx ∧ Inserted t.toList newNode h h₂ := by
  have hids : ∀ i, i ∈ t.toList ↔ i ∈ labels ctx := by
    intro i
    rw [← hplug, mem_toList_plug]
    exact ⟨fun hi => hi.resolve_left (fun hnil => nomatch hnil), .inr⟩
  have hnew' : newNode ∉ labels ctx := fun hi => hnew ((hids newNode).mpr hi)
  obtain ⟨hlink, hkeep⟩ := hat.link hnew'
  -- a new leaf has grown from nothing
  obtain ⟨k, hk, hctx⟩ := avl_plug.mp ⟨n, hplug ▸ havl⟩
  obtain rfl : k = 0 := hk
  have hleaf : Grown (.node .nil newNode .even .nil) 0 := ⟨⟨0, rfl, rfl, rfl⟩, .inl rfl⟩
  obtain ⟨h₁, u, n', hclimb, ⟨hat₁, hlist, hkeep₁⟩, hu⟩ := hlink.insertClimb hctx hleaf false
  have hfree₁ : (h₁ (.item newNode)).inList = false := by
    rw [hkeep₁.inList, hkeep.inList]
    exact hfree
  obtain ⟨h₂, hrun, hat₂, hsame, hinList⟩ := hat₁.insert_ hfree₁
  refine ⟨h₁, h₂, u, n', hclimb, hrun, hat₂, hu, ?_, ?_, ?_⟩
  · rw [hlist, toList_plug]
    simp [toList]
  · intro i hi hit
    have hnot : i ∉ labels ctx := fun hlab => hit ((hids i).mpr hlab)
    have hplug' : i ∉ (plug ctx (.node .nil newNode .even .nil)).toList := by
      simp [toList, hi, hnot]
    exact (hsame _).trans ((hkeep₁.links i hplug').trans (hkeep.links i (by simp [hi, hnot])))
  · intro x
    rw [hinList, hkeep₁.inList, hkeep.inList]

/-- **`insert`**: the new node in its place in a tree that is balanced again, or nothing
changed at an equal key; a fault only in a tree that is too high. -/
theorem At.insert {n : Nat} (hat : At h [] t) (havl : t.Avl n)
    (hequal : newNode ∈ t.toList → descend (probe K (K.key newNode)) t [] = none)
    (hfree : newNode ∉ t.toList → (h (.item newNode)).inList = false) :
    (MAX_TREE_DEPTH < n ∧ h.insert K newNode = none)
      ∨ (descend (probe K (K.key newNode)) t [] = none ∧ h.insert K newNode = some (h, false))
      ∨ ∃ ctx, descend (probe K (K.key newNode)) t [] = some ctx ∧ newNode ∉ t.toList
        ∧ ∃ h' u n', h.insert K newNode = some (h', true) ∧ At h' [] u ∧ u.Avl n'
          ∧ u.toList = before ctx ++ newNode :: after ctx ∧ Inserted t.toList newNode h h' := by
  have htop : (h .root).left = ptr t := hat.above.1
  unfold Heap.insert
  rw [htop]
  cases hp : ptr t with
  | none =>
    -- the empty tree
    obtain rfl := eq_nil_of_ptr hp
    have hnew : newNode ∉ (Shape.nil : Shape ι).toList := by simp [toList]
    refine .inr (.inr ⟨[], rfl, hnew, ?_⟩)
    obtain ⟨h₁, h₂, u, n', hclimb, hrun, hat₂, hu, hlist, hins⟩ := hat.insert_at rfl havl hnew (hfree hnew)
    cases hclimb
    have hrun' : ((h.initialized (.item newNode) (some .root)).setChild .left .root
        (some (.item newNode))).insert_ (.item newNode) = some h₂ := by
      have hne : (Addr.item newNode : Addr ι) ≠ .root := by simp
      unfold Heap.initialized Heap.setChild
      rw [Heap.modify_comm _ hne]
      exact hrun
    refine ⟨h₂, u, n', ?_, hat₂, hu, hlist, hins⟩
    simp only [hrun']
    rfl
  | some x =>
    rcases hat.insertSearch K newNode MAX_TREE_DEPTH hp with ⟨hsearch, -⟩ | ⟨hdeep, hsearch⟩
    · change h.insertSearch K newNode MAX_TREE_DEPTH x [] = _ at hsearch
      simp only [hsearch]
      cases hdown : descend (probe K (K.key newNode)) t [] with
      | none => exact .inr (.inl ⟨rfl, rfl⟩)
      | some ctx =>
        have hnew : newNode ∉ t.toList := fun hmem => by
          rw [hequal hmem] at hdown
          cases hdown
        have hplug := (plug_descend hdown).1
        obtain ⟨h₁, h₂, u, n', hclimb, hrun, hat₂, hu, hlist, hins⟩ :=
          (at_plug.mpr (hplug ▸ hat : At h [] (plug ctx .nil))).insert_at hplug havl hnew (hfree hnew)
        refine .inr (.inr ⟨ctx, rfl, hnew, h₂, u, n', ?_, hat₂, hu, hlist, hins⟩)
        simp only [Option.map_some, linkedBelow, Option.bind_eq_bind, Option.bind_some, hclimb, hrun]
        rfl
    · refine .inl ⟨havl.height_eq ▸ hdeep, ?_⟩
      change h.insertSearch K newNode MAX_TREE_DEPTH x [] = none at hsearch
      simp only [hsearch]
      rfl

end ColonyCore.Container
