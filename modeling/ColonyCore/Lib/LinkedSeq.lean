/-
  ColonyCore.Lib.LinkedSeq
  **SEQUENCES HELD BY LINKS.**

  `Path next xs e` says that the link of every node of `xs` leads to the node behind it,
  and the link of the last one to `e`.  Backward links are forward links of the reversed
  sequence, so one set of lemmas serves both directions.

    • `path_append` — a path is cut anywhere,
    • `Path.congr`, `Path.retarget` — the frame rule, and the one link that leaves a path,
    • `Path.linkIn`, `Path.linkOut` — one node more or less, at any position,
    • `walk_eq` — following the links enumerates the sequence.
-/
import Mathlib.Data.List.Nodup
import Mathlib.Logic.Function.Basic

namespace LinkedSeq

open Function List

variable {ι : Type}

/-- The links lead through `xs` and from its last node to `e`. -/
def Path (next : ι → Option ι) : List ι → Option ι → Prop
  | [], _ => True
  | x :: xs, e => next x = xs.head?.or e ∧ Path next xs e

variable {next next' : ι → Option ι} {xs a b : List ι} {x s : ι} {e e' : Option ι}

theorem path_append : Path next (a ++ b) e ↔ Path next a (b.head?.or e) ∧ Path next b e := by
  induction a with
  | nil => simp [Path]
  | cons x a ih =>
    have hhead : (a ++ b).head?.or e = a.head?.or (b.head?.or e) := by
      rw [head?_append, Option.or_assoc]
    simp only [cons_append, Path, ih, hhead, and_assoc]

/-- The link out of a node with `b` behind it. -/
theorem Path.next_eq (h : Path next (a ++ x :: b) none) : next x = b.head? := by
  have hx := (path_append.mp h).2.1
  rwa [Option.or_none] at hx

/-- A path stays where its links are left alone. -/
theorem Path.congr (h : Path next xs e) (hsame : ∀ x ∈ xs, next' x = next x) : Path next' xs e := by
  induction xs with
  | nil => trivial
  | cons x xs ih =>
    refine ⟨(hsame x mem_cons_self).trans h.1, ih h.2 fun y hy => ?_⟩
    exact hsame y (mem_cons_of_mem x hy)

/-- Links that go on to `e` where the path ends. -/
theorem Path.extend (h : Path next xs none) (hnext : ∀ x ∈ xs, next' x = (next x).or e) :
    Path next' xs e := by
  induction xs with
  | nil => trivial
  | cons x xs ih =>
    refine ⟨?_, ih h.2 fun y hy => hnext y (mem_cons_of_mem x hy)⟩
    rw [hnext x mem_cons_self, h.1, Option.or_none]

/-- Another end for a path: only the link of its last node changes. -/
theorem Path.retarget (h : Path next xs e) (hnodup : xs.Nodup)
    (hlast : ∀ x, xs.getLast? = some x → next' x = e')
    (hsame : ∀ x ∈ xs, xs.getLast? ≠ some x → next' x = next x) : Path next' xs e' := by
  induction xs with
  | nil => trivial
  | cons x xs ih =>
    obtain ⟨hfresh, hrest⟩ := nodup_cons.mp hnodup
    cases xs with
    | nil => exact ⟨hlast x rfl, trivial⟩
    | cons y ys =>
      have hlast_eq : (x :: y :: ys).getLast? = (y :: ys).getLast? := getLast?_cons_cons
      refine ⟨?_, ih h.2 hrest (fun z hz => hlast z (hlast_eq.trans hz)) fun z hz hne => ?_⟩
      · rw [hsame x mem_cons_self, h.1]
        · rfl
        · -- the first node of at least two is not the last
          exact fun heq => hfresh (mem_of_getLast? heq)
      · exact hsame z (mem_cons_of_mem x hz) (by rwa [hlast_eq])

/-- **One node more** between `a` and `b`. -/
theorem Path.insert (h : Path next (a ++ b) none) (hnodup : (a ++ b).Nodup)
    (hself : next' s = b.head?) (hlast : ∀ x, a.getLast? = some x → next' x = some s)
    (hsame : ∀ x ∈ a ++ b, a.getLast? ≠ some x → next' x = next x) :
    Path next' (a ++ s :: b) none := by
  obtain ⟨ha, hb⟩ := path_append.mp h
  obtain ⟨hna, -, hdisj⟩ := nodup_append.mp hnodup
  refine path_append.mpr ⟨ha.retarget hna hlast fun x hx hne => ?_, ?_, hb.congr fun x hx => ?_⟩
  · exact hsame x (mem_append_left b hx) hne
  · rw [Option.or_none]
    exact hself
  · refine hsame x (mem_append_right a hx) fun heq => ?_
    exact hdisj x (mem_of_getLast? heq) x hx rfl

/-- **One node less** between `a` and `b`. -/
theorem Path.remove (h : Path next (a ++ s :: b) none) (hnodup : (a ++ b).Nodup)
    (hlast : ∀ x, a.getLast? = some x → next' x = b.head?)
    (hsame : ∀ x ∈ a ++ b, a.getLast? ≠ some x → next' x = next x) : Path next' (a ++ b) none := by
  obtain ⟨ha, -, hb⟩ := path_append.mp h
  obtain ⟨hna, -, hdisj⟩ := nodup_append.mp hnodup
  refine path_append.mpr ⟨?_, hb.congr fun x hx => ?_⟩
  · rw [Option.or_none]
    exact ha.retarget hna hlast fun x hx hne => hsame x (mem_append_left b hx) hne
  · refine hsame x (mem_append_right a hx) fun heq => ?_
    exact hdisj x (mem_of_getLast? heq) x hx rfl

/-! ## The two link updates. -/

section Updates

variable [DecidableEq ι]

/-- The links after `s` has gone between `a` and `b`. -/
def linkIn (next : ι → Option ι) (s : ι) (a b : List ι) : ι → Option ι :=
  match a.getLast? with
  | none => update next s b.head?
  | some t => update (update next t (some s)) s b.head?

/-- The links after the node between `a` and `b` has gone. -/
def linkOut (next : ι → Option ι) (a b : List ι) : ι → Option ι :=
  match a.getLast? with
  | none => next
  | some t => update next t b.head?

theorem linkIn_self : linkIn next s a b s = b.head? := by
  unfold linkIn
  cases a.getLast? with
  | none => exact update_self s _ next
  | some t => exact update_self s _ _

theorem linkIn_last (hx : a.getLast? = some x) (hne : x ≠ s) : linkIn next s a b x = some s := by
  unfold linkIn
  rw [hx]
  simp [hne]

theorem linkIn_same (hx : a.getLast? ≠ some x) (hne : x ≠ s) : linkIn next s a b x = next x := by
  unfold linkIn
  cases ht : a.getLast? with
  | none => exact update_of_ne hne _ next
  | some t =>
    have hxt : x ≠ t := by
      rintro rfl
      exact hx ht
    exact (update_of_ne hne _ _).trans (update_of_ne hxt _ next)

theorem linkOut_last (hx : a.getLast? = some x) : linkOut next a b x = b.head? := by
  unfold linkOut
  rw [hx]
  exact update_self x _ next

theorem linkOut_same (hx : a.getLast? ≠ some x) : linkOut next a b x = next x := by
  unfold linkOut
  cases ht : a.getLast? with
  | none => rfl
  | some t =>
    have hxt : x ≠ t := by
      rintro rfl
      exact hx ht
    exact update_of_ne hxt _ next

theorem Path.linkIn (h : Path next (a ++ b) none) (hnodup : (a ++ b).Nodup) (hs : s ∉ a ++ b) :
    Path (linkIn next s a b) (a ++ s :: b) none := by
  have hne : ∀ x ∈ a ++ b, x ≠ s := fun x hx heq => hs (heq ▸ hx)
  refine h.insert hnodup linkIn_self (fun x hx => linkIn_last hx (hne x ?_)) fun x hx hlast => ?_
  · exact mem_append_left b (mem_of_getLast? hx)
  · exact linkIn_same hlast (hne x hx)

theorem Path.linkOut (h : Path next (a ++ s :: b) none) (hnodup : (a ++ b).Nodup) :
    Path (linkOut next a b) (a ++ b) none :=
  h.remove hnodup (fun _ hx => linkOut_last hx) fun _ _ hlast => linkOut_same hlast

/-- A sequence with no node in common keeps its links. -/
theorem Path.frame_linkIn (h : Path next xs e) (hs : s ∉ xs) (ha : ∀ x ∈ a, x ∉ xs) :
    Path (LinkedSeq.linkIn next s a b) xs e :=
  h.congr fun x hx => linkIn_same (fun hlast => ha x (mem_of_getLast? hlast) hx)
    fun heq => hs (heq ▸ hx)

theorem Path.frame_linkOut (h : Path next xs e) (ha : ∀ x ∈ a, x ∉ xs) :
    Path (LinkedSeq.linkOut next a b) xs e :=
  h.congr fun x hx => linkOut_same fun hlast => ha x (mem_of_getLast? hlast) hx

/-! The paths of a family, of which one gets a node more or less. -/

section Family

variable {κ : Type} [DecidableEq κ] {paths : κ → List ι} {l : κ}

variable (h : ∀ k, Path next (paths k) none) (hnodup : (paths l).Nodup)

include h hnodup

theorem path_linkIn (hsplit : paths l = a ++ b) (hfresh : ∀ k, s ∉ paths k)
    (hother : ∀ k, k ≠ l → ∀ x ∈ paths l, x ∉ paths k) (k : κ) :
    Path (linkIn next s a b) (update paths l (a ++ s :: b) k) none := by
  refine (forall_update_iff paths fun _ xs => Path _ xs none).mpr ⟨?_, fun k hk => ?_⟩ k
  · exact Path.linkIn (hsplit ▸ h l) (hsplit ▸ hnodup) (hsplit ▸ hfresh l)
  · refine (h k).frame_linkIn (hfresh k) fun x hx => hother k hk x ?_
    rw [hsplit]
    exact mem_append_left b hx

theorem path_linkOut (hsplit : paths l = a ++ s :: b)
    (hother : ∀ k, k ≠ l → ∀ x ∈ paths l, x ∉ paths k) (k : κ) :
    Path (linkOut next a b) (update paths l (a ++ b) k) none := by
  refine (forall_update_iff paths fun _ xs => Path _ xs none).mpr ⟨?_, fun k hk => ?_⟩ k
  · refine Path.linkOut (hsplit ▸ h l) ?_
    rw [hsplit, nodup_middle] at hnodup
    exact hnodup.of_cons
  · refine (h k).frame_linkOut fun x hx => hother k hk x ?_
    rw [hsplit]
    exact mem_append_left _ hx

end Family

end Updates

/-! ## Following the links. -/

/-- The nodes met by following the links from `p` until there is none. -/
def walk (next : ι → Option ι) : Nat → Option ι → Option (List ι)
  | _, none => some []
  | 0, some _ => none
  | fuel + 1, some x => (walk next fuel (next x)).map (x :: ·)

theorem walk_eq (h : Path next xs none) {fuel : Nat} (hfuel : xs.length ≤ fuel) :
    walk next fuel xs.head? = some xs := by
  induction xs generalizing fuel with
  | nil => cases fuel <;> rfl
  | cons x xs ih =>
    obtain ⟨m, rfl⟩ : ∃ m, fuel = m + 1 := ⟨fuel - 1, by simp at hfuel; omega⟩
    have hnext : next x = xs.head? := by
      rw [h.1, Option.or_none]
    show (walk next m (next x)).map (x :: ·) = some (x :: xs)
    rw [hnext, ih h.2 (by simpa using hfuel)]
    rfl

end LinkedSeq
