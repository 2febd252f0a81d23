/-
  ColonyCore.Container.DictionaryBag
  **A DICTIONARY IS A KEYED BAG, EXCEPT FOR `isInDictionary`.**

  `Stored t b` says that the tables hold the bag `b`: each contained item stands in the
  bucket of its key's hash and remembers that index.  Every call keeps it.

    • `items_mem`, `items_nodup` — the buckets end to end are the contained items,
    • `next_path` — `first()`/`next()` go through them,
    • `call_step` — one call, with an answer of the bag unless it is `isInDictionary`,
    • `dictionary_iff` — a run follows the bag iff `isInDictionary` is asked only about
      items that are NOT in that dictionary.
-/
import ColonyCore.Lib.Interleaving
import ColonyCore.Container.Dictionary
import ColonyCore.Container.ListRefinement

namespace ColonyCore.Container

open LinkedSeq Tables Function List Option Interleaving

variable {D ι κ : Type} {w : Nat} {S : DictSetup D ι κ} {t : Tables D ι w} {b b' : Bag D ι}
  {A A' : Lists (ListAddr Empty (DictObject D)) ι} {d : D} {x : ι}

/-! ## §1. The buckets end to end. -/

/-- The owner marks of a bag: the bucket of the key's hash. -/
def Marks (S : DictSetup D ι κ) (A : Lists (ListAddr Empty (DictObject D)) ι) (b : Bag D ι) :
    Prop :=
  ∀ x, A.inList x = (b x).map fun d => bucketAddr d (index S d (S.getKey x))

/-- The items in the buckets from `i` on. -/
def itemsFrom (S : DictSetup D ι κ) (A : Lists (ListAddr Empty (DictObject D)) ι) (d : D)
    (i : Nat) : List ι :=
  (range' i (S.numBuckets d - i)).flatMap fun j => A.content (bucketAddr d j)

theorem Marks.mem_bucket (h : Marks S A b) {i : Nat} :
    x ∈ A.content (bucketAddr d i) ↔ b x = some d ∧ i = index S d (S.getKey x) := by
  rw [A.mem_iff, h x]
  cases hb : b x with
  | none => simp
  | some d' =>
    constructor
    · intro heq
      obtain ⟨rfl, rfl⟩ := heq
      exact ⟨rfl, rfl⟩
    · rintro ⟨hd, rfl⟩
      cases hd
      rfl

theorem Marks.items_mem (h : Marks S A b) : x ∈ itemsFrom S A d 0 ↔ b x = some d := by
  unfold itemsFrom
  rw [mem_flatMap]
  constructor
  · rintro ⟨i, -, hx⟩
    exact (h.mem_bucket.mp hx).1
  · intro hx
    have hlt : index S d (S.getKey x) < S.numBuckets d := S.hashKey_lt d _
    exact ⟨_, by simpa using hlt, h.mem_bucket.mpr ⟨hx, rfl⟩⟩

/-- No item is in two buckets. -/
theorem items_nodup : (itemsFrom S A d 0).Nodup := by
  unfold itemsFrom
  rw [nodup_flatMap]
  refine ⟨fun i _ => A.nodup _, ?_⟩
  refine (nodup_range').imp ?_
  intro i j hij x hi hj
  have heq := Lists.eq_of_mem hi hj
  simp only [ListAddr.dlist.injEq, DictObject.bucket.injEq] at heq
  exact hij heq.2

section

variable (h : Marks S A b) (h' : Marks S A' b')

include h h'

/-- A dictionary with only items of another one is not longer than that. -/
theorem Marks.length_le {d d' : D} (hsub : ∀ x, b' x = some d' → b x = some d) :
    (itemsFrom S A' d' 0).length ≤ (itemsFrom S A d 0).length := by
  refine (items_nodup.subperm fun x hx => ?_).length_le
  rw [h.items_mem]
  exact hsub x (h'.items_mem.mp hx)

/-- Bags that agree on a dictionary have it equally long. -/
theorem Marks.length_eq (hsame : ∀ x, b' x = some d ↔ b x = some d) :
    (itemsFrom S A' d 0).length = (itemsFrom S A d 0).length :=
  Nat.le_antisymm (h.length_le h' fun x hx => (hsame x).mp hx)
    (h'.length_le h fun x hx => (hsame x).mpr hx)

/-- One item more. -/
theorem Marks.length_succ (hfree : b x ≠ some d)
    (hsame : ∀ y, b' y = some d ↔ y = x ∨ b y = some d) :
    (itemsFrom S A' d 0).length = (itemsFrom S A d 0).length + 1 := by
  have hperm : (itemsFrom S A' d 0).Perm (x :: itemsFrom S A d 0) := by
    rw [perm_ext_iff_of_nodup items_nodup]
    · intro y
      rw [h'.items_mem, mem_cons, h.items_mem, hsame]
    · rw [nodup_cons, h.items_mem]
      exact ⟨hfree, items_nodup⟩
  exact hperm.length_eq

end

/-- One item less. -/
theorem Marks.length_without [DecidableEq ι] (h : Marks S A b)
    (h' : Marks S A' (update b x none)) (hx : b x = some d) :
    (itemsFrom S A d 0).length = (itemsFrom S A' d 0).length + 1 := by
  refine h'.length_succ h (x := x) (by simp) fun y => ?_
  by_cases hy : y = x
  · simp [hy, hx]
  · simp [hy]

/-! ## §2. The tables hold a bag. -/

/-- **The tables hold the bag `b`**, the links those of `A`. -/
structure Stored (S : DictSetup D ι κ) (t : Tables D ι w)
    (A : Lists (ListAddr Empty (DictObject D)) ι) (b : Bag D ι) : Prop where
  links : Represents t.mem A
  marks : Marks S A b
  code : ∀ x d, b x = some d → t.hashCode x = index S d (S.getKey x)
  count : ∀ d, (t.numItems d).toNat = (itemsFrom S A d 0).length

theorem stored_constructed :
    Stored S (constructed : Tables D ι w) Lists.empty fun _ => none where
  links := represents_constructed
  marks _ := rfl
  code _ _ h := by cases h
  count d := by
    have hnil : itemsFrom S Lists.empty d 0 = [] := by
      unfold itemsFrom
      rw [flatMap_eq_nil_iff]
      intro i _
      rfl
    rw [hnil]
    exact BitVec.toNat_zero

/-- The scan over the buckets finds the head of what is left. -/
theorem Stored.firstFrom_eq (h : Stored S t A b) (d : D) (i : Nat) :
    t.firstFrom S d i = (itemsFrom S A d i).head? := by
  unfold firstFrom itemsFrom
  rw [head?_flatMap]
  congr 1
  funext j
  exact h.links.head _

theorem Stored.first_eq (h : Stored S t A b) (d : D) : t.first S d = (itemsFrom S A d 0).head? := by
  unfold first
  by_cases hzero : t.numItems d ≠ 0#w
  · rw [if_pos hzero, h.firstFrom_eq]
  · rw [if_neg hzero]
    rw [not_not] at hzero
    have hlen := h.count d
    rw [hzero] at hlen
    have hnil : itemsFrom S A d 0 = [] := by
      rw [← length_eq_zero_iff, ← hlen]
      exact BitVec.toNat_zero
    rw [hnil]
    rfl

/-- `next()` leads through the buckets. -/
theorem Stored.next_path (h : Stored S t A b) (d : D) (i : Nat) :
    Path (t.next S d) (itemsFrom S A d i) none := by
  -- induction on the number of buckets that are left
  generalize hn : S.numBuckets d - i = n
  induction n generalizing i with
  | zero =>
    unfold itemsFrom
    rw [hn]
    trivial
  | succ n ih =>
    have hcut : itemsFrom S A d i = A.content (bucketAddr d i) ++ itemsFrom S A d (i + 1) := by
      unfold itemsFrom
      rw [hn, range'_succ, flatMap_cons, show S.numBuckets d - (i + 1) = n by omega]
    rw [hcut, path_append, or_none]
    refine ⟨(h.links.next _).extend fun x hx => ?_, ih (i + 1) (by omega)⟩
    obtain ⟨hb, hi⟩ := h.marks.mem_bucket.mp hx
    have hnext : t.next S d x = (t.mem.next x).or (t.firstFrom S d (t.hashCode x + 1)) := by
      unfold Tables.next
      cases t.mem.next x <;> rfl
    rw [hnext, h.code x d hb, ← hi, h.firstFrom_eq]
    rfl

variable {fuel : Nat}

/-- **The enumeration** of a dictionary. -/
theorem Stored.enumerates (h : Stored S t A b) (d : D) (hfuel : (itemsFrom S A d 0).length ≤ fuel) :
    walk (t.next S d) fuel (t.first S d) = some (itemsFrom S A d 0) := by
  rw [h.first_eq]
  exact walk_eq (h.next_path d 0) hfuel

/-- The search loop is `List.find?` on the bucket. -/
theorem findLoop_eq {t : Tables D ι w} {xs : List ι} (hpath : Path t.mem.nextPtr xs none)
    (key : κ) (hfuel : xs.length ≤ fuel) :
    t.findLoop S key fuel xs.head?
      = some (xs.find? fun x => S.compareKey (S.getKey x) key = 0) := by
  induction xs generalizing fuel with
  | nil => cases fuel <;> rfl
  | cons x xs ih =>
    obtain ⟨n, rfl⟩ : ∃ n, fuel = n + 1 := ⟨fuel - 1, by simp at hfuel; omega⟩
    have hnext : t.mem.next x = xs.head? := by
      have hx := hpath.1
      rw [or_none] at hx
      exact hx
    show (if S.compareKey (S.getKey x) key = 0 then _ else t.findLoop S key n (t.mem.next x)) = _
    by_cases hkey : S.compareKey (S.getKey x) key = 0
    · rw [if_pos hkey, find?_cons_of_pos (by simpa using hkey)]
    · rw [if_neg hkey, hnext, ih hpath.2 (by simpa using hfuel),
        find?_cons_of_neg (by simpa using hkey)]

/-- A bucket is a part of the dictionary. -/
theorem Marks.length_bucket_le (h : Marks S A b) (d : D) (i : Nat) :
    (A.content (bucketAddr d i)).length ≤ (itemsFrom S A d 0).length := by
  refine ((A.nodup _).subperm fun x hx => ?_).length_le
  rw [h.items_mem]
  exact (h.mem_bucket.mp hx).1

/-- **`find`** answers as the bag does. -/
theorem Stored.finds (h : Stored S t A b) (d : D) (key : κ)
    (hfuel : (itemsFrom S A d 0).length ≤ fuel) :
    ∃ x, t.find S fuel d key = some x ∧ b.Finds S d key x := by
  have hlen := h.marks.length_bucket_le d (index S d key)
  refine ⟨(A.content (bucketAddr d (index S d key))).find?
    fun x => S.compareKey (S.getKey x) key = 0, ?_, ?_⟩
  · unfold find
    rw [LinkMemory.first, h.links.head]
    exact findLoop_eq (h.links.next _) key (by omega)
  · cases hfind : (A.content (bucketAddr d (index S d key))).find?
        fun x => S.compareKey (S.getKey x) key = 0 with
    | some x =>
      have hmem := mem_of_find?_eq_some hfind
      have hkey : S.compareKey (S.getKey x) key = 0 := by
        simpa using find?_some hfind
      exact ⟨(h.marks.mem_bucket.mp hmem).1, (S.compare_iff _ _).mp hkey⟩
    | none =>
      -- an item with this key would stand in the bucket that was searched
      intro x hx hraw
      have hindex : index S d key = index S d (S.getKey x) := by
        unfold index
        rw [hraw]
      have hnot := find?_eq_none.mp hfind x (h.marks.mem_bucket.mpr ⟨hx, hindex⟩)
      simp only [decide_eq_true_eq] at hnot
      exact hnot ((S.compare_iff _ _).mpr hraw)

theorem Stored.picks (h : Stored S t A b) (d : D) : b.Picks d (t.first S d) := by
  rw [h.first_eq]
  cases hitems : itemsFrom S A d 0 with
  | nil =>
    intro x hx
    rw [← h.marks.items_mem, hitems] at hx
    cases hx
  | cons x xs =>
    show b x = some d
    rw [← h.marks.items_mem, hitems]
    exact mem_cons_self

/-! ## §3. The updates. -/

section Updates

variable [DecidableEq D]

theorem Stored.isInDictionary_eq (h : Stored S t A b) (d : D) (x : ι) :
    t.isInDictionary d x = false := by
  unfold isInDictionary Item.isInContainer_
  rw [h.links.inList, h.marks x]
  cases b x with
  | none | some d' => simp

variable [DecidableEq ι]

section

variable (h : Stored S t A b)

include h

/-- **`insert`** of an item that is in no container, while the counter does not wrap. -/
theorem Stored.insert (hfree : b x = none) (hcount : (itemsFrom S A d 0).length + 1 < 2 ^ w) :
    ∃ t' A', t.insert S d x = some t' ∧ Stored S t' A' (update b x (some d)) := by
  have hmark : A.inList x = none := by
    rw [h.marks x, hfree]
    rfl
  obtain ⟨m', hput, hlinks⟩ := DList.putsLast (.bucket d (index S d (S.getKey x))) _ _ x h.links
  obtain ⟨-, hin⟩ := Lists.insertAt_split (l := bucketAddr d (index S d (S.getKey x)))
    hmark (append_nil _).symm
  generalize A.insertAt _ _ x = A' at hlinks hin
  have hmarks : Marks S A' (update b x (some d)) := by
    intro y
    rw [hin]
    by_cases hy : y = x
    · subst hy
      simp
    · simp [hy, h.marks y]
  refine ⟨_, A', congrArg (Option.map _) hput, ?_⟩
  constructor
  · exact hlinks
  · exact hmarks
  · intro y d' hy
    show update t.hashCode x _ y = _
    by_cases hyx : y = x
    · subst hyx
      rw [update_self] at hy ⊢
      cases hy
      rfl
    · rw [update_of_ne hyx] at hy ⊢
      exact h.code y d' hy
  · intro d'
    show (update t.numItems d (t.numItems d + 1#w) d').toNat = _
    by_cases hd : d' = d
    · subst hd
      rw [update_self, h.marks.length_succ hmarks (x := x) (by simp [hfree]) fun y => ?_,
        ← h.count d']
      · rw [← h.count d'] at hcount
        rw [BitVec.toNat_add, BitVec.toNat_ofNat, Nat.add_mod_mod, Nat.mod_eq_of_lt hcount]
      · by_cases hy : y = x
        · simp [hy]
        · simp [hy]
    · rw [update_of_ne hd, h.count, h.marks.length_eq hmarks fun y => ?_]
      by_cases hy : y = x
      · subst hy
        simp [hfree, Ne.symm hd]
      · simp [hy]

/-- **`removeItem`** of a contained item. -/
theorem Stored.removeItem_mem (hx : b x = some d) :
    ∃ t' A', t.removeItem d x = (some x, t') ∧ Stored S t' A' (update b x none) := by
  have hmem : x ∈ A.content (bucketAddr d (t.hashCode x)) := by
    rw [h.marks.mem_bucket]
    exact ⟨hx, h.code x d hx⟩
  obtain ⟨a, c, hsplit⟩ := append_of_mem hmem
  have hremove := DList.remove_of_split h.links hsplit
  obtain ⟨hcontent, hin⟩ := Lists.remove_split hsplit
  have hmarks : Marks S (A.remove (bucketAddr d (t.hashCode x)) x) (update b x none) := by
    intro y
    rw [hin]
    by_cases hy : y = x
    · subst hy
      simp
    · simp [hy, h.marks y]
  refine ⟨{ t with
      mem := linkedOut t.mem (bucketAddr d (t.hashCode x)) x a c
      numItems := update t.numItems d (t.numItems d - 1#w) },
    A.remove (bucketAddr d (t.hashCode x)) x, ?_, ?_⟩
  · unfold removeItem
    rw [hremove]
  constructor
  · exact h.links.linkedOut hsplit
  · exact hmarks
  · intro y d' hy
    by_cases hyx : y = x
    · subst hyx
      rw [update_self] at hy
      cases hy
    · rw [update_of_ne hyx] at hy
      exact h.code y d' hy
  · intro d'
    show (update t.numItems d (t.numItems d - 1#w) d').toNat = _
    by_cases hd : d' = d
    · subst hd
      have hlen := h.marks.length_without hmarks hx
      rw [update_self]
      have hcount := h.count d'
      have hpos : 1 ≤ (t.numItems d').toNat := by omega
      have hw : 1 < 2 ^ w := by
        omega
      rw [BitVec.toNat_sub_of_le]
      · rw [BitVec.toNat_ofNat, Nat.mod_eq_of_lt hw]
        omega
      · rw [BitVec.le_def, BitVec.toNat_ofNat, Nat.mod_eq_of_lt hw]
        exact hpos
    · rw [update_of_ne hd, h.count, h.marks.length_eq hmarks fun y => ?_]
      by_cases hy : y = x
      · subst hy
        simp [hx, Ne.symm hd]
      · simp [hy]

/-- `removeItem` of an item that is not in the dictionary: the cached index is then one of
    another dictionary, or stale, and the owner mark is not the bucket at it. -/
theorem Stored.removeItem_absent (hx : b x ≠ some d) :
    t.removeItem d x = (none, t) := by
  have hmark : ¬ Item.isInContainer_ t.mem x (bucketAddr d (t.hashCode x)) = true := by
    unfold Item.isInContainer_
    rw [decide_eq_true_iff, h.links.inList, ← A.mem_iff, h.marks.mem_bucket]
    exact fun hc => hx hc.1
  unfold removeItem DList.remove
  rw [if_neg hmark]

/-- An item that was found is taken out. -/
theorem Stored.removeItem_found (found : Option ι) (hfound : ∀ x, found = some x → b x = some d) :
    ∃ t' A', (match found with
        | some node => t.removeItem d node
        | none => (none, t)) = (found, t') ∧ Stored S t' A' (b.without found) := by
  cases found with
  | none => exact ⟨t, A, rfl, h⟩
  | some x => exact h.removeItem_mem (hfound x rfl)

theorem Stored.getFirst (d : D) :
    ∃ t' A', t.getFirst S d = (t.first S d, t') ∧ Stored S t' A' (b.without (t.first S d)) := by
  have hpicks := h.picks d
  refine h.removeItem_found _ fun x hx => ?_
  rw [hx] at hpicks
  exact hpicks

end

omit [DecidableEq D] in
theorem Bag.without_le {b : Bag D ι} (found : Option ι) {y : ι} {d : D}
    (h : b.without found y = some d) : b y = some d := by
  cases found with
  | none => exact h
  | some x =>
    by_cases hy : y = x
    · simp [Bag.without, hy] at h
    · simpa [Bag.without, hy] using h

/-! ## §4. The loops. -/

variable {fuel : Nat}

theorem Stored.clear (h : Stored S t A b) (hfuel : (itemsFrom S A d 0).length < fuel) :
    ∃ t' A', clearTheDictionary S d fuel t = some t' ∧ Stored S t' A' (b.clear d) := by
  induction fuel generalizing t A b with
  | zero => omega
  | succ fuel ih =>
    obtain ⟨t₁, A₁, hget, h₁⟩ := h.getFirst d
    have hpicks := h.picks d
    unfold clearTheDictionary
    rw [hget]
    cases hfirst : t.first S d with
    | none =>
      rw [hfirst] at h₁ hpicks
      refine ⟨t₁, A₁, rfl, ?_⟩
      have hsame : b.clear d = b := by
        funext y
        exact if_neg (hpicks y)
      rw [hsame]
      exact h₁
    | some x =>
      rw [hfirst] at h₁ hpicks
      have hlen := h.marks.length_without h₁.marks hpicks
      have hclear : (b.without (some x)).clear d = b.clear d := by
        funext y
        unfold Bag.clear
        by_cases hy : y = x
        · subst hy
          simp [Bag.without, show b y = some d from hpicks]
        · simp [Bag.without, hy]
      rw [← hclear]
      exact ih h₁ (by omega)

/-- The copy loop: the items that are still in `src` go to `dst`, which has room for them. -/
theorem Stored.moveLoop {src dst : D} (hne : src ≠ dst) (h : Stored S t A b)
    (hfuel : (itemsFrom S A src 0).length < fuel)
    (hroom : (itemsFrom S A dst 0).length + (itemsFrom S A src 0).length < 2 ^ w) :
    ∃ t' A', Tables.moveLoop S src dst fuel t = some t'
      ∧ Stored S t' A' fun x => if b x = some src then some dst else b x := by
  induction fuel generalizing t A b with
  | zero => omega
  | succ fuel ih =>
    obtain ⟨t₁, A₁, hget, h₁⟩ := h.getFirst src
    have hpicks := h.picks src
    unfold Tables.moveLoop
    rw [hget]
    cases hfirst : t.first S src with
    | none =>
      rw [hfirst] at h₁ hpicks
      refine ⟨t₁, A₁, rfl, ?_⟩
      have hsame : (fun x => if b x = some src then some dst else b x) = b := by
        funext y
        exact if_neg (hpicks y)
      rw [hsame]
      exact h₁
    | some x =>
      rw [hfirst] at h₁ hpicks
      have hx : b x = some src := hpicks
      have hsrc := h.marks.length_without h₁.marks hx
      have hdst := h.marks.length_eq h₁.marks (d := dst) fun y => by
        by_cases hy : y = x
        · subst hy
          simp [Bag.without, hx, hne]
        · simp [Bag.without, hy]
      obtain ⟨t₂, A₂, hins, h₂⟩ := h₁.insert (d := dst) (update_self x _ b)
        (by omega)
      have hdst₂ := h₁.marks.length_succ h₂.marks (d := dst) (x := x) (by simp [Bag.without])
        fun y => by
          by_cases hy : y = x
          · simp [hy]
          · simp [hy]
      have hsrc₂ := h₁.marks.length_eq h₂.marks (d := src) fun y => by
        by_cases hy : y = x
        · subst hy
          simp [Bag.without, Ne.symm hne]
        · simp [hy]
      obtain ⟨t', A', hloop, h'⟩ := ih h₂ (by omega) (by omega)
      refine ⟨t', A', ?_, ?_⟩
      · show (t₁.insert S dst x).bind _ = _
        rw [hins]
        exact hloop
      · convert h' using 1
        funext y
        by_cases hy : y = x
        · subst hy
          simp [hx]
        · simp [Bag.without, hy]

theorem Stored.move (h : Stored S t A b) (src dst : D)
    (hfuel : ∀ d, (itemsFrom S A d 0).length < fuel) :
    ∃ t' A', t.move S fuel src dst = some t' ∧ Stored S t' A' (b.move src dst) := by
  obtain ⟨t₁, A₁, hclear, h₁⟩ := h.clear (hfuel dst)
  have hmove : t.move S fuel src dst = Tables.moveLoop S src dst fuel t₁ := by
    unfold Tables.move
    rw [hclear]
    rfl
  have hempty : ∀ y, b.clear dst y ≠ some dst := by
    intro y
    unfold Bag.clear
    split
    · simp
    · assumption
  have hlen₁ : (itemsFrom S A₁ dst 0).length = 0 := by
    rw [length_eq_zero_iff, eq_nil_iff_forall_not_mem]
    intro y hy
    exact hempty y (h₁.marks.items_mem.mp hy)
  rw [hmove]
  by_cases hne : src = dst
  · -- the dictionary was cleared, so there is nothing to copy
    subst hne
    obtain ⟨n, rfl⟩ : ∃ n, fuel = n + 1 := ⟨fuel - 1, by have := hfuel src; omega⟩
    have hfirst : t₁.first S src = none := by
      rw [h₁.first_eq, length_eq_zero_iff.mp hlen₁]
      rfl
    have hsame : b.move src src = b.clear src := by
      funext y
      exact if_neg (hempty y)
    refine ⟨t₁, A₁, ?_, hsame ▸ h₁⟩
    unfold Tables.moveLoop Tables.getFirst
    rw [hfirst]
  · have hsrc₁ : (itemsFrom S A₁ src 0).length ≤ (itemsFrom S A src 0).length := by
      refine h.marks.length_le h₁.marks fun y hy => ?_
      unfold Bag.clear at hy
      split at hy
      · cases hy
      · exact hy
    have hfits : (itemsFrom S A src 0).length < 2 ^ w := by
      rw [← h.count src]
      exact (t.numItems src).isLt
    have hshort := hfuel src
    exact h₁.moveLoop hne (by omega) (by omega)

end Updates

/-! ## §5. One call. -/

section Calls

variable [DecidableEq D] [DecidableEq ι] {op : DictOp D ι κ} {ans : DictAnswer ι}

/-- Which dictionary each item is in, read off the owner marks. -/
def Tables.bag (t : Tables D ι w) : Bag D ι := fun x =>
  match t.mem.inListPtr x with
  | some (.dlist (.bucket d _)) => some d
  | _ => none

omit [DecidableEq D] [DecidableEq ι] in
theorem Stored.bag_eq (h : Stored S t A b) : t.bag = b := by
  funext x
  unfold Tables.bag
  rw [h.links.inList, h.marks x]
  cases b x with
  | none => rfl
  | some d => rfl

/-- An inserted item is in no container, and the counter does not wrap. -/
def Tables.InsertAllowed (t : Tables D ι w) : DictOp D ι κ → Prop
  | .insert d node => t.mem.inListPtr node = none ∧ (t.numItems d).toNat + 1 < 2 ^ w
  | _ => True

/-- `isInDictionary` is asked about an item that is not in the dictionary. -/
def Tables.AskAllowed (t : Tables D ι w) : DictOp D ι κ → Prop
  | .isInDictionary d node => t.bag node ≠ some d
  | _ => True

/-- The answer determines the bag after the call. -/
theorem BagStep.unique {b₁ b₂ : Bag D ι} (h₁ : BagStep S b op ans b₁)
    (h₂ : BagStep S b op ans b₂) : b₁ = b₂ := by
  cases op with
  | remove d key | getFirst d =>
    obtain ⟨x, -, rfl, rfl⟩ := h₁
    obtain ⟨y, -, heq, rfl⟩ := h₂
    cases heq
    rfl
  | _ => exact h₁.2.trans h₂.2.symm

/-- No dictionary of a bag gets longer by more than one item in a step. -/
theorem BagStep.length_le (hstep : BagStep S b op ans b') (h : Marks S A b) (h' : Marks S A' b')
    {n : Nat} (hlen : ∀ d, (itemsFrom S A d 0).length ≤ n) (d : D) :
    (itemsFrom S A' d 0).length ≤ n + 1 := by
  -- all calls but `insert` leave only items that were there, `move` those of the source
  have hold : (∃ d₀, ∀ y, b' y = some d → b y = some d₀) →
      (itemsFrom S A' d 0).length ≤ n + 1 := by
    rintro ⟨d₀, hsub⟩
    exact Nat.le_succ_of_le (Nat.le_trans (h.length_le h' hsub) (hlen d₀))
  cases op with
  | insert d₁ x =>
    obtain ⟨-, rfl⟩ := hstep
    have hsub : itemsFrom S A' d 0 ⊆ x :: itemsFrom S A d 0 := by
      intro y hy
      rw [h'.items_mem] at hy
      rw [mem_cons, h.items_mem]
      by_cases hyx : y = x
      · exact .inl hyx
      · exact .inr (by simpa [hyx] using hy)
    have hle := (items_nodup.subperm hsub).length_le
    have := hlen d
    simp only [length_cons] at hle
    omega
  | remove d₁ key | getFirst d₁ =>
    obtain ⟨x, -, -, rfl⟩ := hstep
    exact hold ⟨d, fun y hy => Bag.without_le _ hy⟩
  | removeItem d₁ x =>
    obtain ⟨-, rfl⟩ := hstep
    refine hold ⟨d, fun y hy => ?_⟩
    split at hy
    · exact Bag.without_le (some x) hy
    · exact hy
  | move src dst =>
    obtain ⟨-, rfl⟩ := hstep
    by_cases hd : d = dst
    · refine hold ⟨src, fun y hy => ?_⟩
      unfold Bag.move Bag.clear at hy
      grind
    · refine hold ⟨d, fun y hy => ?_⟩
      unfold Bag.move Bag.clear at hy
      grind
  | clearTheDictionary d₁ =>
    obtain ⟨-, rfl⟩ := hstep
    refine hold ⟨d, fun y hy => ?_⟩
    unfold Bag.clear at hy
    grind
  | find d₁ key | enumerate d₁ | isInDictionary d₁ x =>
    obtain ⟨-, rfl⟩ := hstep
    exact hold ⟨d, fun y hy => hy⟩

/-- **One call other than `isInDictionary`** returns with an answer of the bag. -/
theorem Stored.call (h : Stored S t A b) (hins : t.InsertAllowed op) {fuel : Nat}
    (hfuel : ∀ d, (itemsFrom S A d 0).length < fuel) (hop : ∀ d x, op ≠ .isInDictionary d x) :
    ∃ ans t' A' b', t.call S fuel op = some (ans, t') ∧ Stored S t' A' b'
      ∧ BagStep S b op ans b' := by
  cases op with
  | insert d x =>
    obtain ⟨hmark, hcount⟩ := hins
    have hfree : b x = none := by
      rw [h.links.inList, h.marks x] at hmark
      exact map_eq_none_iff.mp hmark
    rw [h.count d] at hcount
    obtain ⟨t', A', ht', h'⟩ := h.insert hfree hcount
    exact ⟨.void, t', A', _, congrArg (Option.map _) ht', h', rfl, rfl⟩
  | remove d key =>
    obtain ⟨x, hx, hfinds⟩ := h.finds d key (Nat.le_of_lt (hfuel d))
    obtain ⟨t', A', ht', h'⟩ := h.removeItem_found x fun y hy => by
      subst hy
      exact hfinds.1
    refine ⟨.item x, t', A', _, ?_, h', x, hfinds, rfl, rfl⟩
    show Option.map _ (t.remove S fuel d key) = _
    unfold Tables.remove
    rw [hx]
    exact congrArg (fun r : Option ι × Tables D ι w => some (DictAnswer.item r.1, r.2)) ht'
  | removeItem d x =>
    by_cases hx : b x = some d
    · obtain ⟨t', A', ht', h'⟩ := h.removeItem_mem hx
      refine ⟨.flag true, t', A', _, ?_, h', ?_, ?_⟩
      · show some _ = _
        rw [ht']
        rfl
      · rw [decide_eq_true hx]
      · rw [if_pos hx]
    · have ht' := h.removeItem_absent hx
      refine ⟨.flag false, t, A, b, ?_, h, ?_, ?_⟩
      · show some _ = _
        rw [ht']
        rfl
      · rw [decide_eq_false hx]
      · rw [if_neg hx]
  | getFirst d =>
    obtain ⟨t', A', ht', h'⟩ := h.getFirst d
    refine ⟨.item (t.first S d), t', A', _, ?_, h', _, h.picks d, rfl, rfl⟩
    show some _ = _
    rw [ht']
  | move src dst =>
    obtain ⟨t', A', ht', h'⟩ := h.move src dst hfuel
    exact ⟨.void, t', A', _, congrArg (Option.map _) ht', h', rfl, rfl⟩
  | clearTheDictionary d =>
    obtain ⟨t', A', ht', h'⟩ := h.clear (hfuel d)
    exact ⟨.void, t', A', _, congrArg (Option.map _) ht', h', rfl, rfl⟩
  | find d key =>
    obtain ⟨x, hx, hfinds⟩ := h.finds d key (Nat.le_of_lt (hfuel d))
    exact ⟨.item x, t, A, b, congrArg (Option.map _) hx, h, ⟨x, hfinds, rfl⟩, rfl⟩
  | enumerate d =>
    have hwalk := h.enumerates d (Nat.le_of_lt (hfuel d))
    exact ⟨.items _, t, A, b, congrArg (Option.map _) hwalk, h,
      ⟨_, items_nodup, fun x => h.marks.items_mem, rfl⟩, rfl⟩
  | isInDictionary d x => exact absurd rfl (hop d x)

end Calls

/-! ## §6. Runs. -/

section Runs

variable [DecidableEq D] [DecidableEq ι]

/-- A condition holds before every call of the run. -/
abbrev AlongRun (S : DictSetup D ι κ) (fuel : Nat) :
    (Tables D ι w → DictOp D ι κ → Prop) → Tables D ι w → List (DictOp D ι κ) → Prop :=
  Along fun t op => (t.call S fuel op).map Prod.snd

instance (t : Tables D ι w) (op : DictOp D ι κ) : Decidable (t.InsertAllowed op) := by
  cases op <;> unfold Tables.InsertAllowed <;> infer_instance

instance (t : Tables D ι w) (op : DictOp D ι κ) : Decidable (t.AskAllowed op) := by
  cases op <;> unfold Tables.AskAllowed <;> infer_instance

/-- The run lemma: `n` bounds the dictionaries so far. -/
theorem Stored.follows_iff (ops : List (DictOp D ι κ)) {fuel n : Nat} (h : Stored S t A b)
    (hlen : ∀ d, (itemsFrom S A d 0).length ≤ n) (hfuel : n + ops.length < fuel)
    (hins : AlongRun S fuel Tables.InsertAllowed t ops) :
    FollowsBag S fuel b t ops ↔ AlongRun S fuel Tables.AskAllowed t ops := by
  induction ops generalizing t A b n with
  | nil => exact Iff.rfl
  | cons op ops ih =>
    rw [length_cons] at hfuel
    obtain ⟨hop, hrest⟩ := hins
    by_cases hask : ∃ d x, op = .isInDictionary d x
    · -- the query changes nothing, and its answer is false
      obtain ⟨d, x, rfl⟩ := hask
      have hcall : t.call S fuel (.isInDictionary d x) = some (.flag false, t) := by
        show some (DictAnswer.flag (t.isInDictionary d x), t) = _
        rw [h.isInDictionary_eq]
      have hnext : (t.call S fuel (.isInDictionary d x)).map Prod.snd = some t := by rw [hcall]; rfl
      have ih := ih h hlen (by omega) (hrest t hnext)
      constructor
      · rintro ⟨ans, t', b', hcall', ⟨hans, rfl⟩, hfollows⟩
        rw [hcall] at hcall'
        cases hcall'
        refine along_cons hnext ?_ (ih.mp hfollows)
        show t.bag x ≠ some d
        rw [h.bag_eq]
        simpa using hans
      · rintro ⟨hne, hrun⟩
        have hx : b x ≠ some d := by
          have hbag : t.bag x ≠ some d := hne
          rwa [h.bag_eq] at hbag
        exact ⟨_, t, b, hcall, ⟨by rw [decide_eq_false hx], rfl⟩, ih.mpr (hrun t hnext)⟩
    · have hnot : ∀ d x, op ≠ .isInDictionary d x := fun d x heq => hask ⟨d, x, heq⟩
      have hfree : t.AskAllowed op := by
        cases op <;> first | trivial | exact absurd rfl (hnot _ _)
      have hroom : ∀ d, (itemsFrom S A d 0).length < fuel := fun d => by
        have := hlen d
        omega
      obtain ⟨ans, t', A', b', hcall, h', hstep⟩ := h.call hop hroom hnot
      have hnext : (t.call S fuel op).map Prod.snd = some t' := by rw [hcall]; rfl
      have ih := ih h' (hstep.length_le h.marks h'.marks hlen) (by omega) (hrest t' hnext)
      constructor
      · rintro ⟨ans₁, t₁, b₁, hcall₁, hstep₁, hfollows⟩
        rw [hcall] at hcall₁
        cases hcall₁
        rw [hstep₁.unique hstep] at hfollows
        exact along_cons hnext hfree (ih.mp hfollows)
      · rintro ⟨-, hrun⟩
        exact ⟨ans, t', b', hcall, hstep, ih.mpr (hrun t' hnext)⟩

/-- **WHEN DICTIONARIES ARE KEYED BAGS.**  For any number of dictionaries over one pool of
    items, with any numbers of buckets and any hash functions, and every sequence of calls
    that inserts only items in no container and does not wrap a counter: all answers are
    those of the bag IF AND ONLY IF `isInDictionary` is only asked about items that are not
    in the dictionary. -/
theorem dictionary_iff (S : DictSetup D ι κ) (ops : List (DictOp D ι κ)) (fuel : Nat)
    (hfuel : ops.length < fuel)
    (hins : AlongRun S fuel Tables.InsertAllowed (constructed : Tables D ι w) ops) :
    FollowsBag S fuel (fun _ => none) (constructed : Tables D ι w) ops
      ↔ AlongRun S fuel Tables.AskAllowed (constructed : Tables D ι w) ops := by
  refine stored_constructed.follows_iff ops (n := 0) (fun d => ?_) (by omega) hins
  have hcount := (stored_constructed (S := S) (w := w)).count d
  rw [← hcount]
  exact Nat.le_of_eq BitVec.toNat_zero

/-- Two dictionaries, of two buckets and of one, and items that are their own keys. -/
def byteKeys : DictSetup Bool UInt8 UInt8 where
  numBuckets d := if d then 2 else 1
  getKey x := x
  getRawKey k := [k]
  compareKey a b := (a.toNat : Int) - b.toNat
  compare_iff a b := by
    rw [singleton_inj, ← UInt8.toNat_inj]
    omega
  hashKey d raw := (raw.headD 0).toNat % if d then 2 else 1
  hashKey_lt d raw := Nat.mod_lt _ (by split <;> decide)

/-- Items 1 and 2 in one dictionary, 3 in the other; 3 is asked about in the first. -/
theorem dictionary_iff_bytes :
    FollowsBag byteKeys 9 (fun _ => none) (constructed : Tables Bool UInt8 32)
      [.insert true 1, .insert true 2, .insert false 3, .isInDictionary true 3,
        .removeItem true 3, .enumerate true, .move true false, .find false 2] := by
  exact (dictionary_iff byteKeys _ 9 (by decide) (by decide)).mpr (by decide)

/-- **THE MEMBER THAT IS NOT FOUND**: an item that was just inserted is not in the dictionary
    for `isInDictionary`. -/
theorem isInDictionary_denies :
    ¬ FollowsBag byteKeys 3 (fun _ => none) (constructed : Tables Bool UInt8 32)
      [.insert true 1, .isInDictionary true 1] := by
  rintro ⟨_, t, b, hcall, ⟨-, rfl⟩, ans, t', b', hcall', ⟨hans, -⟩, -⟩
  have hdenied : ((constructed : Tables Bool UInt8 32).call byteKeys 3 (.insert true 1)).map
      (fun r => r.2.isInDictionary true 1) = some false := by
    decide
  rw [hcall] at hdenied
  have hfalse : t.isInDictionary true 1 = false := some.inj hdenied
  have hans' : ans = .flag (t.isInDictionary true 1) := by
    cases hcall'
    rfl
  rw [hfalse, hans] at hans'
  revert hans'
  decide

end Runs

end ColonyCore.Container
