/-
  ColonyCore.Lib.AvlShape
  **AVL TREES AND THEIR CONTEXTS**, over any type of labels.

  A tree is looked at from one of its subtrees: the subtree in focus and the list of
  frames above it.  Left and right are one argument, `Side`, so that every rebalancing
  rule is stated once.

    • `fork s t a b o` — the node `a` with `t` on its side `s`,
    • `plug` — a subtree back in its context; `avl_plug`, `toList_plug`,
    • `Grow` / `Shrink` — what one node does when a subtree became taller / shorter,
      with `grow_exists` / `shrink_exists`: the rules cover every AVL tree,
    • `fib_le_size` — the least number of nodes of a given height.
-/
import Mathlib.Data.Nat.Fib.Basic
import Mathlib.Data.List.Nodup

namespace AvlShape

variable {ι : Type}

/-! ## §1. Trees and sides. -/

inductive Side where
  | left
  | right
deriving DecidableEq, Repr

inductive Balance where
  | left
  | even
  | right
deriving DecidableEq, Repr

namespace Side

def other : Side → Side
  | left => right
  | right => left

/-- The balance of a node whose subtree on this side is the taller one. -/
def heavy : Side → Balance
  | left => .left
  | right => .right

variable (s : Side)

@[simp] theorem other_other : s.other.other = s := by cases s <;> rfl

@[simp] theorem other_ne : s.other ≠ s := by cases s <;> exact Side.noConfusion

@[simp] theorem ne_other : s ≠ s.other := by cases s <;> exact Side.noConfusion

@[simp] theorem heavy_ne_even :
    s.heavy ≠ .even := by cases s <;> exact Balance.noConfusion

@[simp] theorem even_ne_heavy : Balance.even ≠ s.heavy := by
  cases s <;> exact Balance.noConfusion

@[simp] theorem heavy_ne_other : s.heavy ≠ s.other.heavy := by
  cases s <;> exact Balance.noConfusion

@[simp] theorem other_heavy_ne : s.other.heavy ≠ s.heavy := by
  cases s <;> exact Balance.noConfusion

theorem eq_or_eq_other (s u : Side) : u = s ∨ u = s.other := by cases s <;> cases u <;> simp [other]

/-- The three balances, seen from a side. -/
theorem balance_cases (b : Balance) : b = .even ∨ b = s.heavy ∨ b = s.other.heavy := by
  cases s <;> cases b <;> simp [heavy, other]

end Side

/-- A binary tree whose nodes carry a balance. -/
inductive Shape (ι : Type) where
  | nil
  | node (l : Shape ι) (a : ι) (b : Balance) (r : Shape ι)

namespace Shape

/-- The labels, in order. -/
def toList : Shape ι → List ι
  | nil => []
  | node l a _ r => l.toList ++ a :: r.toList

def height : Shape ι → Nat
  | nil => 0
  | node l _ _ r => max l.height r.height + 1

/-- The node `a` with `t` on its side `s` and `o` on the other. -/
def fork (s : Side) (t : Shape ι) (a : ι) (b : Balance) (o : Shape ι) : Shape ι :=
  match s with
  | .left => node t a b o
  | .right => node o a b t

theorem fork_other (s : Side) (t : Shape ι) (a : ι) (b : Balance) (o : Shape ι) :
    fork s.other t a b o = fork s o a b t := by
  cases s <;> rfl

/-- Every tree but the empty one is a fork, from either side. -/
theorem eq_fork (s : Side) (l : Shape ι) (a : ι) (b : Balance) (r : Shape ι) :
    ∃ t o, node l a b r = fork s t a b o := by
  cases s with
  | left => exact ⟨l, r, rfl⟩
  | right => exact ⟨r, l, rfl⟩

/-- A node is found from the labels. -/
theorem toList_fork_perm (s : Side) (t : Shape ι) (a : ι) (b : Balance) (o : Shape ι) :
    (fork s t a b o).toList.Perm (t.toList ++ a :: o.toList) := by
  cases s with
  | left => exact List.Perm.refl _
  | right =>
    have hswap : (a :: (o.toList ++ t.toList)).Perm (a :: (t.toList ++ o.toList)) :=
      List.perm_append_comm.cons a
    exact (List.perm_middle.trans hswap).trans List.perm_middle.symm

variable {t : Shape ι}

@[simp] theorem mem_toList_fork {s : Side} {o : Shape ι} {a i : ι} {b : Balance} :
    i ∈ (fork s t a b o).toList ↔ i ∈ t.toList ∨ i = a ∨ i ∈ o.toList := by
  rw [(toList_fork_perm s t a b o).mem_iff, List.mem_append, List.mem_cons]

theorem toList_fork_balance (s : Side) (t : Shape ι) (a : ι) (b b' : Balance) (o : Shape ι) :
    (fork s t a b o).toList = (fork s t a b' o).toList := by
  cases s <;> rfl

/-- The balance of the top node. -/
def balance? : Shape ι → Option Balance
  | nil => none
  | node _ _ b _ => some b

@[simp] theorem balance?_fork (s : Side) (t : Shape ι) (a : ι) (b : Balance) (o : Shape ι) :
    (fork s t a b o).balance? = some b := by
  cases s <;> rfl

theorem toList_rotate (s : Side) (l m o : Shape ι) (c a : ι) (bc ba bc' ba' : Balance) :
    (fork s l c bc' (fork s m a ba' o)).toList = (fork s (fork s l c bc m) a ba o).toList := by
  cases s <;> simp [fork, toList]

/-- The number of nodes. -/
def size (t : Shape ι) : Nat := t.toList.length

theorem size_node (l r : Shape ι) (a : ι) (b : Balance) :
    (node l a b r).size = l.size + r.size + 1 := by
  simp [size, toList]
  omega

/-- **Every balance is height right − height left**, and at most 1. -/
def Balanced : Shape ι → Prop
  | nil => True
  | node l _ b r => l.Balanced ∧ r.Balanced ∧
      match b with
      | .left => l.height = r.height + 1
      | .even => l.height = r.height
      | .right => r.height = l.height + 1

/-- A balanced tree and its height, in the form the proofs use. -/
def Avl : Shape ι → Nat → Prop
  | nil, n => n = 0
  | node l _ .left r, n => ∃ m, l.Avl (m + 1) ∧ r.Avl m ∧ n = m + 2
  | node l _ .even r, n => ∃ m, l.Avl m ∧ r.Avl m ∧ n = m + 1
  | node l _ .right r, n => ∃ m, l.Avl m ∧ r.Avl (m + 1) ∧ n = m + 2

theorem Avl.height_eq {n : Nat} (h : t.Avl n) : t.height = n := by
  induction t generalizing n with
  | nil => exact h.symm
  | node l a b r ihl ihr =>
    unfold height
    cases b with
    | left | even | right =>
      obtain ⟨m, hl, hr, rfl⟩ := h
      rw [ihl hl, ihr hr]
      omega

theorem avl_height_iff : t.Avl t.height ↔ t.Balanced := by
  induction t with
  | nil => exact ⟨fun _ => trivial, fun _ => rfl⟩
  | node l a b r ihl ihr =>
    unfold Balanced
    rw [← ihl, ← ihr]
    constructor
    · intro h
      cases b with
      | left | even | right =>
        obtain ⟨m, hl, hr, -⟩ := h
        have hl' := hl.height_eq
        have hr' := hr.height_eq
        exact ⟨by rwa [hl'], by rwa [hr'], by dsimp only; omega⟩
    · rintro ⟨hl, hr, hb⟩
      cases b with
      | left | even =>
        rw [hb] at hl
        exact ⟨r.height, hl, hr, by show max _ _ + 1 = _; omega⟩
      | right =>
        rw [hb] at hr
        exact ⟨l.height, hl, hr, by show max _ _ + 1 = _; omega⟩

/-- **A tree of height `n` has at least fib (n + 2) − 1 nodes.** -/
theorem Avl.fib_le_size {n : Nat} (h : t.Avl n) : Nat.fib (n + 2) ≤ t.size + 1 := by
  induction t generalizing n with
  | nil =>
    cases h
    exact Nat.le_refl 1
  | node l a b r ihl ihr =>
    rw [size_node]
    -- fib (m + 4) = fib (m + 2) + fib (m + 3), one summand for each subtree
    cases b with
    | left | right =>
      obtain ⟨m, hl, hr, rfl⟩ := h
      have hl' := ihl hl
      have hr' := ihr hr
      have hfib : Nat.fib (m + 2 + 2) = Nat.fib (m + 2) + Nat.fib (m + 1 + 2) := Nat.fib_add_two
      omega
    | even =>
      obtain ⟨m, hl, hr, rfl⟩ := h
      have hl' := ihl hl
      have hr' := ihr hr
      have hfib : Nat.fib (m + 1 + 2) = Nat.fib (m + 1) + Nat.fib (m + 2) := Nat.fib_add_two
      have hmono : Nat.fib (m + 1) ≤ Nat.fib (m + 2) := Nat.fib_le_fib_succ
      omega

/-- A tree of height `n` has less than 2 ^ n nodes. -/
theorem size_lt (t : Shape ι) : t.size < 2 ^ t.height := by
  induction t with
  | nil => exact Nat.one_pos
  | node l a b r ihl ihr =>
    rw [size_node]
    unfold height
    have hl := Nat.pow_le_pow_right (n := 2) (by decide) (Nat.le_max_left l.height r.height)
    have hr := Nat.pow_le_pow_right (n := 2) (by decide) (Nat.le_max_right l.height r.height)
    omega

section Fork

variable {s : Side} {t o : Shape ι} {a : ι} {n : Nat}

theorem avl_fork_even : (fork s t a .even o).Avl n ↔ ∃ m, t.Avl m ∧ o.Avl m ∧ n = m + 1 := by
  cases s with
  | left => exact Iff.rfl
  | right => exact exists_congr fun m => and_left_comm

theorem avl_fork_heavy :
    (fork s t a s.heavy o).Avl n ↔ ∃ m, t.Avl (m + 1) ∧ o.Avl m ∧ n = m + 2 := by
  cases s with
  | left => exact Iff.rfl
  | right => exact exists_congr fun m => and_left_comm

theorem avl_fork_light :
    (fork s t a s.other.heavy o).Avl n ↔ ∃ m, t.Avl m ∧ o.Avl (m + 1) ∧ n = m + 2 := by
  cases s with
  | left => exact Iff.rfl
  | right => exact exists_congr fun m => and_left_comm

end Fork

end Shape

open Shape

/-! ## §2. A subtree in its context. -/

/-- A node above the focus: the side the focus hangs on, and the subtree on the other. -/
structure Frame (ι : Type) where
  side : Side
  label : ι
  balance : Balance
  other : Shape ι

def Frame.attach (f : Frame ι) (t : Shape ι) : Shape ι := fork f.side t f.label f.balance f.other

/-- The whole tree around the focus; the innermost frame comes first. -/
def plug : List (Frame ι) → Shape ι → Shape ι
  | [], t => t
  | f :: fs, t => plug fs (f.attach t)

/-- The labels of a context. -/
def labels (ctx : List (Frame ι)) : List ι := ctx.flatMap fun f => f.label :: f.other.toList

variable {f : Frame ι} {ctx : List (Frame ι)}

@[simp] theorem mem_labels_cons {i : ι} :
    i ∈ labels (f :: ctx) ↔ i = f.label ∨ i ∈ f.other.toList ∨ i ∈ labels ctx := by
  simp only [labels, List.flatMap_cons, List.mem_append, List.mem_cons, or_assoc]

/-- What comes before the focus. -/
def before : List (Frame ι) → List ι
  | [] => []
  | ⟨.left, _, _, _⟩ :: fs => before fs
  | ⟨.right, a, _, o⟩ :: fs => before fs ++ (o.toList ++ [a])

/-- What comes after the focus. -/
def after : List (Frame ι) → List ι
  | [] => []
  | ⟨.left, a, _, o⟩ :: fs => a :: o.toList ++ after fs
  | ⟨.right, _, _, _⟩ :: fs => after fs

theorem toList_plug (ctx : List (Frame ι)) (t : Shape ι) :
    (plug ctx t).toList = before ctx ++ t.toList ++ after ctx := by
  induction ctx generalizing t with
  | nil => simp [plug, before, after]
  | cons f fs ih =>
    obtain ⟨side, a, b, o⟩ := f
    unfold plug
    rw [ih]
    cases side <;> simp [Frame.attach, fork, toList, before, after]

theorem toList_plug_perm (ctx : List (Frame ι)) (t : Shape ι) :
    (plug ctx t).toList.Perm (t.toList ++ labels ctx) := by
  induction ctx generalizing t with
  | nil => simp [plug, labels]
  | cons f fs ih =>
    have hfork := (toList_fork_perm f.side t f.label f.balance f.other).append_right (labels fs)
    refine (ih (f.attach t)).trans (hfork.trans (List.Perm.of_eq ?_))
    simp [labels]

variable {t : Shape ι}

/-- The same labels in the focus, the same labels in the whole. -/
theorem toList_plug_congr {u : Shape ι} (h : t.toList = u.toList) (ctx : List (Frame ι)) :
    (plug ctx t).toList = (plug ctx u).toList := by
  rw [toList_plug, toList_plug, h]

@[simp] theorem mem_toList_plug {i : ι} :
    i ∈ (plug ctx t).toList ↔ i ∈ t.toList ∨ i ∈ labels ctx := by
  rw [(toList_plug_perm ctx t).mem_iff, List.mem_append]

/-- The tree and the frame under other labels. -/
def Shape.map (g : ι → ι) : Shape ι → Shape ι
  | nil => nil
  | node l a b r => node (l.map g) (g a) b (r.map g)

def Frame.map (g : ι → ι) (f : Frame ι) : Frame ι := ⟨f.side, g f.label, f.balance, f.other.map g⟩

variable {g : ι → ι}

@[simp] theorem toList_map (t : Shape ι) : (t.map g).toList = t.toList.map g := by
  induction t with
  | nil => rfl
  | node l a b r ihl ihr => simp [Shape.map, toList, ihl, ihr]

theorem map_plug (ctx : List (Frame ι)) (t : Shape ι) :
    (plug ctx t).map g = plug (ctx.map (Frame.map g)) (t.map g) := by
  induction ctx generalizing t with
  | nil => rfl
  | cons f fs ih =>
    have hattach : (f.attach t).map g = (f.map g).attach (t.map g) := by
      obtain ⟨s, a, b, o⟩ := f
      cases s <;> rfl
    rw [plug, ih, hattach]
    rfl

theorem map_eq_self (hg : ∀ i ∈ t.toList, g i = i) : t.map g = t := by
  induction t with
  | nil => rfl
  | node l a b r ihl ihr =>
    simp only [toList, List.mem_append, List.mem_cons] at hg
    rw [Shape.map, ihl fun i hi => hg i (.inl hi), hg a (.inr (.inl rfl)),
        ihr fun i hi => hg i (.inr (.inr hi))]

theorem frames_map_eq_self (hg : ∀ i ∈ labels ctx, g i = i) : ctx.map (Frame.map g) = ctx := by
  induction ctx with
  | nil => rfl
  | cons f fs ih =>
    simp only [mem_labels_cons] at hg
    rw [List.map_cons, ih fun i hi => hg i (.inr (.inr hi)), Frame.map, hg _ (.inl rfl),
        map_eq_self fun i hi => hg i (.inr (.inl hi))]

variable (inner outer : List (Frame ι))

theorem plug_append (t : Shape ι) :
    plug (inner ++ outer) t = plug outer (plug inner t) := by
  induction inner generalizing t with
  | nil => rfl
  | cons f fs ih => exact ih (f.attach t)

theorem labels_append :
    labels (inner ++ outer) = labels inner ++ labels outer := List.flatMap_append

variable {a : ι}

/-- Every label of a tree has a context. -/
theorem exists_plug (h : a ∈ t.toList) : ∃ ctx l b r, t = plug ctx (node l a b r) := by
  induction t with
  | nil => cases h
  | node l c b r ihl ihr =>
    rcases List.mem_append.mp h with hl | hr
    · obtain ⟨ctx, l', b', r', rfl⟩ := ihl hl
      exact ⟨ctx ++ [⟨.left, c, b, r⟩], l', b', r', by rw [plug_append]; rfl⟩
    · rcases List.mem_cons.mp hr with rfl | hr
      · exact ⟨[], l, b, r, rfl⟩
      · obtain ⟨ctx, l', b', r', rfl⟩ := ihr hr
        exact ⟨ctx ++ [⟨.right, c, b, l⟩], l', b', r', by rw [plug_append]; rfl⟩

theorem before_append :
    before (inner ++ outer) = before outer ++ before inner := by
  induction inner with
  | nil => simp [before]
  | cons f fs ih =>
    obtain ⟨side, a, b, o⟩ := f
    cases side <;> simp [before, ih]

theorem after_append :
    after (inner ++ outer) = after inner ++ after outer := by
  induction inner with
  | nil => rfl
  | cons f fs ih =>
    obtain ⟨side, a, b, o⟩ := f
    cases side <;> simp [after, ih]

/-- Nothing comes after the last node of a spine. -/
theorem after_eq_nil {spine : List (Frame ι)} (h : ∀ f ∈ spine, f.side = .right) :
    after spine = [] := by
  induction spine with
  | nil => rfl
  | cons f fs ih =>
    obtain ⟨side, a, b, o⟩ := f
    obtain rfl : side = .right := h _ List.mem_cons_self
    exact ih (fun f hf => h f (List.mem_cons_of_mem _ hf))

theorem height_lt_fork (s : Side) (t : Shape ι) (a : ι) (b : Balance) (o : Shape ι) :
    t.height < (fork s t a b o).height := by
  cases s <;> simp only [fork, height] <;> omega

theorem length_add_height_le (ctx : List (Frame ι)) (t : Shape ι) :
    ctx.length + t.height ≤ (plug ctx t).height := by
  induction ctx generalizing t with
  | nil => simp [plug]
  | cons f fs ih =>
    have hstep := ih (f.attach t)
    have hchild : t.height < (f.attach t).height := height_lt_fork ..
    show fs.length + 1 + t.height ≤ (plug fs (f.attach t)).height
    omega

/-- A tree has a hole as deep as it is high. -/
theorem exists_deepest (t : Shape ι) : ∃ ctx, plug ctx .nil = t ∧ ctx.length = t.height := by
  induction t with
  | nil => exact ⟨[], rfl, rfl⟩
  | node l a b r ihl ihr =>
    obtain ⟨ctxl, hl, hlenl⟩ := ihl
    obtain ⟨ctxr, hr, hlenr⟩ := ihr
    rcases Nat.le_total r.height l.height with hle | hle
    · refine ⟨ctxl ++ [⟨.left, a, b, r⟩], by rw [plug_append, hl]; rfl, ?_⟩
      rw [List.length_append, hlenl]
      exact congrArg (· + 1) (Nat.max_eq_left hle).symm
    · refine ⟨ctxr ++ [⟨.right, a, b, l⟩], by rw [plug_append, hr]; rfl, ?_⟩
      rw [List.length_append, hlenr]
      exact congrArg (· + 1) (Nat.max_eq_right hle).symm

/-- The last node on a side, and the frames down to it. -/
theorem exists_extreme (s : Side) (l : Shape ι) (a : ι) (b : Balance) (r : Shape ι) :
    ∃ spine t p c, node l a b r = plug spine (fork s nil p c t) ∧ ∀ f ∈ spine, f.side = s := by
  have hall : ∀ t : Shape ι, t ≠ nil →
      ∃ spine u p c, t = plug spine (fork s nil p c u) ∧ ∀ f ∈ spine, f.side = s := by
    intro t
    induction t with
    | nil => exact fun h => absurd rfl h
    | node l a b r ihl ihr =>
      intro _
      obtain ⟨t, o, hfork⟩ := eq_fork s l a b r
      have ih : t ≠ nil → ∃ spine u p c, t = plug spine (fork s nil p c u) ∧ ∀ f ∈ spine, f.side = s := by
        cases s with
        | left =>
          cases hfork
          exact ihl
        | right =>
          cases hfork
          exact ihr
      rw [hfork]
      by_cases ht : t = nil
      · exact ⟨[], o, a, b, by rw [ht]; rfl, fun f hf => nomatch hf⟩
      · obtain ⟨spine, u, p, c, rfl, hspine⟩ := ih ht
        refine ⟨spine ++ [⟨s, a, b, o⟩], u, p, c, by rw [plug_append]; rfl, ?_⟩
        intro f hf
        rcases List.mem_append.mp hf with hf | hf
        · exact hspine f hf
        · rw [List.mem_singleton.mp hf]
  exact hall _ (fun h => nomatch h)

variable {s : Side} {k : Nat}

/-- Without its node, a tree with one child is one lower. -/
theorem avl_only_child {b : Balance}
    (h : (fork s t a b .nil).Avl k) : ∃ j, k = j + 1 ∧ t.Avl j := by
  rcases s.balance_cases b with rfl | rfl | rfl
  · obtain ⟨m, ht, -, rfl⟩ := avl_fork_even.mp h
    exact ⟨m, rfl, ht⟩
  · obtain ⟨m, ht, -, rfl⟩ := avl_fork_heavy.mp h
    exact ⟨m + 1, rfl, ht⟩
  · obtain ⟨m, -, hnil, -⟩ := avl_fork_light.mp h
    cases hnil

/-- The heights a frame allows: `k` for the focus, `n` for the whole. -/
def Frame.Avl (f : Frame ι) (k n : Nat) : Prop :=
  ∃ m, f.other.Avl m ∧ ((f.balance = .even ∧ m = k ∧ n = k + 1)
    ∨ (f.balance = f.side.heavy ∧ k = m + 1 ∧ n = m + 2)
    ∨ (f.balance = f.side.other.heavy ∧ m = k + 1 ∧ n = k + 2))

theorem avl_attach {n : Nat} : (f.attach t).Avl n ↔ ∃ k, t.Avl k ∧ f.Avl k n := by
  obtain ⟨s, a, b, o⟩ := f
  show (fork s t a b o).Avl n ↔ ∃ k, t.Avl k ∧ (Frame.mk s a b o).Avl k n
  unfold Frame.Avl
  rcases s.balance_cases b with rfl | rfl | rfl
  · rw [avl_fork_even]
    simp only [true_and, Side.even_ne_heavy, false_and, or_false]
    exact ⟨fun ⟨m, ht, ho, hn⟩ => ⟨m, ht, m, ho, rfl, hn⟩,
      fun ⟨k, ht, m, ho, hm, hn⟩ => ⟨k, ht, hm ▸ ho, hn⟩⟩
  · rw [avl_fork_heavy]
    simp only [Side.heavy_ne_even, true_and, Side.heavy_ne_other, false_and, false_or, or_false]
    exact ⟨fun ⟨m, ht, ho, hn⟩ => ⟨m + 1, ht, m, ho, rfl, hn⟩,
      fun ⟨k, ht, m, ho, hm, hn⟩ => ⟨m, hm ▸ ht, ho, hn⟩⟩
  · rw [avl_fork_light]
    simp only [Side.heavy_ne_even, true_and, Side.other_heavy_ne, false_and, false_or]
    exact ⟨fun ⟨m, ht, ho, hn⟩ => ⟨m, ht, m + 1, ho, rfl, hn⟩,
      fun ⟨k, ht, m, ho, hm, hn⟩ => ⟨k, ht, hm ▸ ho, hn⟩⟩

/-- A context of an AVL tree with a hole of height `k`. -/
def CtxAvl : List (Frame ι) → Nat → Prop
  | [], _ => True
  | f :: fs, k => ∃ n, f.Avl k n ∧ CtxAvl fs n

/-- The labels of the frames do not matter to the heights. -/
theorem CtxAvl.relabel {spine : List (Frame ι)} (p : ι)
    (hctx : CtxAvl (spine ++ f :: ctx) k) : CtxAvl (spine ++ { f with label := p } :: ctx) k := by
  induction spine generalizing k with
  | nil => exact hctx
  | cons g gs ih =>
    obtain ⟨n, hg, hgs⟩ := hctx
    exact ⟨n, hg, ih hgs⟩

theorem avl_plug : (∃ n, (plug ctx t).Avl n) ↔ ∃ k, t.Avl k ∧ CtxAvl ctx k := by
  induction ctx generalizing t with
  | nil => exact exists_congr fun n => (and_iff_left trivial).symm
  | cons f fs ih =>
    show (∃ n, (plug fs (f.attach t)).Avl n) ↔ ∃ k, t.Avl k ∧ ∃ n, f.Avl k n ∧ CtxAvl fs n
    rw [ih]
    constructor
    · rintro ⟨n, hn, hctx⟩
      obtain ⟨k, ht, hf⟩ := avl_attach.mp hn
      exact ⟨k, ht, n, hf, hctx⟩
    · rintro ⟨k, ht, n, hf, hctx⟩
      exact ⟨n, avl_attach.mpr ⟨k, ht, hf⟩, hctx⟩

/-! ## §3. Rebalancing one node. -/

/-- The inner child of a double rotation: its balance, for the child and for the top. -/
def childBalance (s : Side) (b : Balance) : Balance := if b = s.other.heavy then s.heavy else .even

def topBalance (s : Side) (b : Balance) : Balance := if b = s.heavy then s.other.heavy else .even

/-- **The two rotations** of a node `a` whose subtree on side `s` is too tall, with the
balances they leave; the flag tells whether the height went down. -/
inductive Rotated (s : Side) (a : ι) (o : Shape ι) : Shape ι → Shape ι → Bool → Prop where
  | single (l m : Shape ι) (c : ι) :
      Rotated s a o (fork s l c s.heavy m) (fork s l c .even (fork s m a .even o)) true
  | singleEven (l m : Shape ι) (c : ι) :
      Rotated s a o (fork s l c .even m)
        (fork s l c s.other.heavy (fork s m a s.heavy o)) false
  | double (l x y : Shape ι) (c g : ι) (b : Balance) :
      Rotated s a o (fork s l c s.other.heavy (fork s x g b y))
        (fork s (fork s l c (childBalance s b) x) g .even (fork s y a (topBalance s b) o)) true

/-- The balances of a double rotation, from that of the inner child. -/
theorem avl_double {l x y o : Shape ι} {c g : ι} {bg : Balance} (hl : l.Avl k) (ho : o.Avl k)
    (hm : (fork s x g bg y).Avl (k + 1)) :
    (fork s l c (childBalance s bg) x).Avl (k + 1) ∧ (fork s y a (topBalance s bg) o).Avl (k + 1) := by
  rcases s.balance_cases bg with rfl | rfl | rfl
  · obtain ⟨i, hx, hy, hi⟩ := avl_fork_even.mp hm
    obtain rfl : i = k := by omega
    rw [childBalance, if_neg (by simp), topBalance, if_neg (by simp)]
    exact ⟨avl_fork_even.mpr ⟨i, hl, hx, rfl⟩, avl_fork_even.mpr ⟨i, hy, ho, rfl⟩⟩
  · obtain ⟨i, hx, hy, hi⟩ := avl_fork_heavy.mp hm
    obtain rfl : k = i + 1 := by omega
    rw [childBalance, if_neg (by simp), topBalance, if_pos rfl]
    exact ⟨avl_fork_even.mpr ⟨i + 1, hl, hx, rfl⟩, avl_fork_light.mpr ⟨i, hy, ho, rfl⟩⟩
  · obtain ⟨i, hx, hy, hi⟩ := avl_fork_light.mp hm
    obtain rfl : k = i + 1 := by omega
    rw [childBalance, if_pos rfl, topBalance, if_neg (by simp)]
    exact ⟨avl_fork_heavy.mpr ⟨i, hl, hx, rfl⟩, avl_fork_even.mpr ⟨i + 1, hy, ho, rfl⟩⟩

/-- The rotations cover every tree that is two levels taller than the other side. -/
theorem rotated_exists {o : Shape ι} (ho : o.Avl k) (ht : t.Avl (k + 2)) :
    ∃ u lower, Rotated s a o t u lower ∧ u.Avl (if lower then k + 2 else k + 3) := by
  cases t with
  | nil => cases ht
  | node l₀ c b r₀ =>
    obtain ⟨l, m, hfork⟩ := eq_fork s l₀ c b r₀
    rw [hfork] at ht ⊢
    rcases s.balance_cases b with rfl | rfl | rfl
    · obtain ⟨j, hl, hm, hj⟩ := avl_fork_even.mp ht
      obtain rfl : j = k + 1 := by omega
      exact ⟨_, _, .singleEven l m c,
        avl_fork_light.mpr ⟨k + 1, hl, avl_fork_heavy.mpr ⟨k, hm, ho, rfl⟩, rfl⟩⟩
    · obtain ⟨j, hl, hm, hj⟩ := avl_fork_heavy.mp ht
      obtain rfl : j = k := by omega
      exact ⟨_, _, .single l m c,
        avl_fork_even.mpr ⟨j + 1, hl, avl_fork_even.mpr ⟨j, hm, ho, rfl⟩, rfl⟩⟩
    · obtain ⟨j, hl, hm, hj⟩ := avl_fork_light.mp ht
      obtain rfl : j = k := by omega
      cases m with
      | nil => cases hm
      | node x₀ g bg y₀ =>
        obtain ⟨x, y, hinner⟩ := eq_fork s x₀ g bg y₀
        rw [hinner] at hm ⊢
        obtain ⟨hchild, htop⟩ := avl_double hl ho hm
        exact ⟨_, _, .double l x y c g bg, avl_fork_even.mpr ⟨j + 1, hchild, htop, rfl⟩⟩

/-- **One node above a subtree that became taller**: the new subtree, and whether it
became taller itself. -/
inductive Grow (f : Frame ι) (t : Shape ι) : Shape ι → Bool → Prop where
  | even (h : f.balance = .even) : Grow f t (fork f.side t f.label f.side.heavy f.other) true
  | level (h : f.balance = f.side.other.heavy) :
      Grow f t (fork f.side t f.label .even f.other) false
  | rotate {u : Shape ι} (h : f.balance = f.side.heavy)
      (hrot : Rotated f.side f.label f.other t u true) : Grow f t u false

/-- **One node above a subtree that became shorter.** -/
inductive Shrink (f : Frame ι) (t : Shape ι) : Shape ι → Bool → Prop where
  | heavy (h : f.balance = f.side.heavy) : Shrink f t (fork f.side t f.label .even f.other) true
  | even (h : f.balance = .even) :
      Shrink f t (fork f.side t f.label f.side.other.heavy f.other) false
  | rotate {u : Shape ι} {lower : Bool} (h : f.balance = f.side.other.heavy)
      (hrot : Rotated f.side.other f.label t f.other u lower) : Shrink f t u lower

/-- A subtree of height `k` that became taller: a new leaf, or one that leans. -/
def Grown (t : Shape ι) (k : Nat) : Prop :=
  t.Avl (k + 1) ∧ (k = 0 ∨ t.balance? ≠ some .even)

/-- The rules for growing cover every AVL tree. -/
theorem grow_exists {n : Nat} (hf : f.Avl k n) (ht : Grown t k) :
    ∃ u taller, Grow f t u taller ∧ if taller then Grown u n else u.Avl n := by
  obtain ⟨m, ho, ⟨hb, rfl, rfl⟩ | ⟨hb, rfl, rfl⟩ | ⟨hb, rfl, rfl⟩⟩ := hf
  · exact ⟨_, _, .even hb, avl_fork_heavy.mpr ⟨m, ht.1, ho, rfl⟩, .inr (by simp)⟩
  · obtain ⟨u, lower, hrot, hu⟩ := rotated_exists (s := f.side) ho ht.1
    -- a subtree that grew leans to one side
    have hlower : lower = true := by
      have hlean := ht.2.resolve_left (by omega)
      cases hrot with
      | single l m c => rfl
      | singleEven l m c => exact absurd (balance?_fork ..) hlean
      | double l x y c g b => rfl
    subst hlower
    exact ⟨u, false, .rotate hb hrot, hu⟩
  · exact ⟨_, _, .level hb, avl_fork_even.mpr ⟨k + 1, ht.1, ho, rfl⟩⟩

/-- The rules for shrinking cover every AVL tree. -/
theorem shrink_exists {n : Nat} (hf : f.Avl (k + 1) n) (ht : t.Avl k) :
    ∃ u shorter, Shrink f t u shorter ∧ u.Avl (if shorter then n - 1 else n) := by
  obtain ⟨m, ho, ⟨hb, rfl, rfl⟩ | ⟨hb, hm, rfl⟩ | ⟨hb, rfl, rfl⟩⟩ := hf
  · exact ⟨_, _, .even hb, avl_fork_light.mpr ⟨k, ht, ho, rfl⟩⟩
  · obtain rfl : m = k := by omega
    exact ⟨_, _, .heavy hb, avl_fork_even.mpr ⟨m, ht, ho, rfl⟩⟩
  · obtain ⟨u, lower, hrot, hu⟩ := rotated_exists ht ho
    exact ⟨u, lower, .rotate hb hrot, by cases lower <;> exact hu⟩

/-! ## §4. Searching. -/

/-- A probe tells for each label whether what is looked for comes after it (negative),
is it (0) or comes before it (positive); on the list it is ordered. -/
def Directs (look : ι → Int) (xs : List ι) : Prop :=
  xs.Pairwise fun x y => (look y ≤ 0 → look x < 0) ∧ (0 ≤ look x → 0 < look y)

/-- The way down to the place of what is looked for: its context, or `none` if the probe
finds it. -/
def descend (look : ι → Int) : Shape ι → List (Frame ι) → Option (List (Frame ι))
  | .nil, ctx => some ctx
  | .node l a b r, ctx =>
    if 0 < look a then descend look l (⟨.left, a, b, r⟩ :: ctx)
    else if look a < 0 then descend look r (⟨.right, a, b, l⟩ :: ctx)
    else none

variable {look : ι → Int}

theorem Directs.node {l r : Shape ι} {b : Balance} (h : Directs look (node l a b r).toList) :
    Directs look l.toList ∧ Directs look r.toList
      ∧ (∀ i ∈ l.toList, (look a ≤ 0 → look i < 0) ∧ (0 ≤ look i → 0 < look a))
      ∧ ∀ i ∈ r.toList, (look i ≤ 0 → look a < 0) ∧ (0 ≤ look a → 0 < look i) := by
  obtain ⟨hl, har, hcross⟩ := List.pairwise_append.mp h
  obtain ⟨ha, hr⟩ := List.pairwise_cons.mp har
  exact ⟨hl, hr, fun i hi => hcross i hi a List.mem_cons_self, ha⟩

/-- The way down leads to a hole of the same tree, no longer than the tree is high. -/
theorem plug_descend {ctx' : List (Frame ι)} (h : descend look t ctx = some ctx') :
    plug ctx' .nil = plug ctx t ∧ ctx'.length ≤ ctx.length + t.height := by
  induction t generalizing ctx with
  | nil =>
    cases h
    exact ⟨rfl, Nat.le_add_right _ _⟩
  | node l a b r ihl ihr =>
    have hheight : (node l a b r).height = max l.height r.height + 1 := rfl
    have hlen (f : Frame ι) : (f :: ctx).length = ctx.length + 1 := rfl
    unfold descend at h
    split at h
    · exact (ihl h).imp_right fun hle => by rw [hlen] at hle; omega
    · split at h
      · exact (ihr h).imp_right fun hle => by rw [hlen] at hle; omega
      · cases h

/-- The hole is where the probe changes sign. -/
theorem descend_some {ctx' : List (Frame ι)} (hdir : Directs look t.toList)
    (hbefore : ∀ i ∈ before ctx, look i < 0) (hafter : ∀ i ∈ after ctx, 0 < look i)
    (h : descend look t ctx = some ctx') :
    (∀ i ∈ before ctx', look i < 0) ∧ ∀ i ∈ after ctx', 0 < look i := by
  induction t generalizing ctx with
  | nil =>
    cases h
    exact ⟨hbefore, hafter⟩
  | node l a b r ihl ihr =>
    obtain ⟨hl, hr, hal, har⟩ := hdir.node
    unfold descend at h
    split at h
    next hpos =>
      refine @ihl (⟨.left, a, b, r⟩ :: ctx) hl hbefore ?_ h
      intro i hi
      rcases List.mem_append.mp hi with hi | hi
      · rcases List.mem_cons.mp hi with rfl | hi
        · exact hpos
        · exact (har i hi).2 (by omega)
      · exact hafter i hi
    next =>
      split at h
      next hneg =>
        refine @ihr (⟨.right, a, b, l⟩ :: ctx) hr ?_ hafter h
        intro i hi
        rcases List.mem_append.mp hi with hi | hi
        · exact hbefore i hi
        · rcases List.mem_append.mp hi with hi | hi
          · exact (hal i hi).1 (by omega)
          · rw [List.mem_singleton.mp hi]
            exact hneg
      next => cases h

/-- A search that ends in a hole splits the labels. -/
theorem descend_splits (hdir : Directs look t.toList) (h : descend look t [] = some ctx) :
    t.toList = before ctx ++ after ctx ∧ (∀ i ∈ before ctx, look i < 0) ∧ ∀ i ∈ after ctx, 0 < look i := by
  refine ⟨?_, descend_some hdir (by simp [before]) (by simp [after]) h⟩
  rw [show t = plug ctx .nil from (plug_descend h).1.symm, toList_plug]
  simp [toList]

/-- A probe that changes sign at a hole leads to it. -/
theorem descend_plug (hbefore : ∀ i ∈ before ctx, look i < 0)
    (hafter : ∀ i ∈ after ctx, 0 < look i) (t : Shape ι) (outer : List (Frame ι)) :
    descend look (plug ctx t) outer = descend look t (ctx ++ outer) := by
  induction ctx generalizing t with
  | nil => rfl
  | cons f fs ih =>
    obtain ⟨side, a, b, o⟩ := f
    cases side with
    | left =>
      have ha : 0 < look a := hafter a (by simp [after])
      refine (ih hbefore (fun i hi => hafter i (by simp [after, hi])) _).trans ?_
      show descend look (.node t a b o) (fs ++ outer) = _
      conv_lhs => unfold descend
      rw [if_pos ha]
      rfl
    | right =>
      have ha : look a < 0 := hbefore a (by simp [before])
      refine (ih (fun i hi => hbefore i (by simp [before, hi])) hafter _).trans ?_
      show descend look (.node o a b t) (fs ++ outer) = _
      conv_lhs => unfold descend
      rw [if_neg (by omega), if_pos ha]
      rfl

/-- The probe finds what it answers 0 for. -/
theorem descend_none_iff (hdir : Directs look t.toList) :
    descend look t ctx = none ↔ ∃ i ∈ t.toList, look i = 0 := by
  induction t generalizing ctx with
  | nil => simp [descend, toList]
  | node l a b r ihl ihr =>
    obtain ⟨hl, hr, hal, har⟩ := hdir.node
    unfold descend
    simp only [toList, List.mem_append, List.mem_cons]
    split
    next hpos =>
      rw [ihl hl]
      constructor
      · exact fun ⟨i, hi, h0⟩ => ⟨i, .inl hi, h0⟩
      · rintro ⟨i, hi | rfl | hi, h0⟩
        · exact ⟨i, hi, h0⟩
        · omega
        · have := (har i hi).2 (by omega)
          omega
    next =>
      split
      next hneg =>
        rw [ihr hr]
        constructor
        · exact fun ⟨i, hi, h0⟩ => ⟨i, .inr (.inr hi), h0⟩
        · rintro ⟨i, hi | rfl | hi, h0⟩
          · have := (hal i hi).1 (by omega)
            omega
          · omega
          · exact ⟨i, hi, h0⟩
      next => exact ⟨fun _ => ⟨a, .inr (.inl rfl), by omega⟩, fun _ => rfl⟩

end AvlShape
