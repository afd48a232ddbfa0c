import Mathlib.Logic.Function.Basic
import Mathlib.Data.List.Basic
import Mathlib.Tactic.Common

/-! # Rooted Labelled Trees as Parent Maps

    A tree is given by the parent and the label of each of its nodes but the
    root. This file has paths from an ancestor, well-formedness (connected to
    the root, no two siblings with one label), and what changing one entry
    does: adding, moving and relabelling a node are all one update, deleting a
    set of nodes closed under children is a restriction.

    * `PathFrom`: the labels between two nodes, one below the other.
    * `Below`: a node is below another one if there is such a path.
    * `WellFormed`: what makes a parent map a tree. Nodes and paths from the root
      then determine each other.
    * `rerooted_update`: an update re-roots the paths through the changed node.
    * `depthAtMost_update_iff`: what an update does to the depth of the tree.
    * `WellFormed.restrict`: a deletion keeps the tree.
-/

namespace Framework

/-- Parent and label of each node of the tree. -/
abbrev ParentMap (N L : Type) : Type := N → Option (N × L)

namespace ParentMap

variable {N L : Type} {T : ParentMap N L} {root a b c n p : N} {l s : List L} {x : L}

/-! ## Section 1: Paths -/

/-- The labels on the way down from the ancestor `a`. -/
inductive PathFrom (T : ParentMap N L) (a : N) : N → List L → Prop where
  /-- The path to the node itself is empty. -/
  | nil   : PathFrom T a a []
  /-- One more label leads to a child. -/
  | child : ∀ {n p x l}, T n = some (p, x) → PathFrom T a p l → PathFrom T a n (l ++ [x])

/-- `a` is `n` or one of its ancestors. -/
def Below (T : ParentMap N L) (a n : N) : Prop := ∃ l, PathFrom T a n l

/-- Every node is below itself. -/
theorem Below.refl : Below T a a := ⟨[], PathFrom.nil⟩

/-- What hangs at a node below `a` is below `a`. -/
theorem Below.child (h : T n = some (p, x)) (hp : Below T a p) : Below T a n := by
  obtain ⟨l, hl⟩ := hp
  exact ⟨l ++ [x], PathFrom.child h hl⟩

/-- The last step of a path that is not trivial. -/
theorem Below.cases_last (h : Below T a n) (hne : n ≠ a) :
    ∃ p x, T n = some (p, x) ∧ Below T a p := by
  obtain ⟨l, hl⟩ := h
  cases hl with
  | nil => exact absurd rfl hne
  | child hT hp => exact ⟨_, _, hT, _, hp⟩

/-- A path to a node leads through its parent. -/
theorem Below.through_parent (h : Below T a n) (hne : n ≠ a) (hT : T n = some (p, x)) :
    Below T a p := by
  obtain ⟨q, y, hT', hq⟩ := h.cases_last hne
  rw [hT] at hT'
  cases hT'
  exact hq

/-- The last name of a path leads from the parent. -/
theorem PathFrom.snoc_inv (h : PathFrom T a n (l ++ [x])) :
    ∃ p, T n = some (p, x) ∧ PathFrom T a p l := by
  generalize hs : l ++ [x] = s at h
  cases h with
  | nil => simp at hs
  | child hT hp =>
    obtain ⟨hl, hx⟩ := List.append_inj' hs rfl
    cases hx
    exact ⟨_, hT, hl ▸ hp⟩

/-- Paths are joined. -/
theorem PathFrom.trans (h₁ : PathFrom T a b l) (h₂ : PathFrom T b c s) :
    PathFrom T a c (l ++ s) := by
  induction h₂ with
  | nil => simpa using h₁
  | child hT _ ih =>
    rw [← List.append_assoc]
    exact PathFrom.child hT ih

/-- What is below a node below `a` is below `a`. -/
theorem Below.trans (h₁ : Below T a b) (h₂ : Below T b c) : Below T a c := by
  obtain ⟨l, hl⟩ := h₁
  obtain ⟨s, hs⟩ := h₂
  exact ⟨l ++ s, hl.trans hs⟩

/-- A path from the root passes through every ancestor. -/
theorem PathFrom.split (hroot : T root = none) (hn : PathFrom T root n l)
    (hs : PathFrom T a n s) : ∃ la, PathFrom T root a la ∧ l = la ++ s := by
  -- On the lower path, whose last step is the last step of the whole path.
  induction hs generalizing l with
  | nil => exact ⟨l, hn, by simp⟩
  | child hT _ ih =>
    cases hn with
    | nil => rw [hroot] at hT; cases hT
    | child hT' hp =>
      rw [hT] at hT'
      cases hT'
      obtain ⟨la, hla, heq⟩ := ih hp
      exact ⟨la, hla, by rw [heq, List.append_assoc]⟩

/-- The first step of a path. -/
theorem PathFrom.cases_head (h : PathFrom T a n l) :
    (n = a ∧ l = []) ∨
      ∃ c x s, T c = some (a, x) ∧ PathFrom T c n s ∧ l = x :: s := by
  induction h with
  | nil => exact Or.inl ⟨rfl, rfl⟩
  | @child m p x l hT _ ih =>
    rcases ih with ⟨rfl, rfl⟩ | ⟨c, y, s, hc, hs, rfl⟩
    · exact Or.inr ⟨m, x, [], hT, PathFrom.nil, rfl⟩
    · exact Or.inr ⟨c, y, s ++ [x], hc, PathFrom.child hT hs, rfl⟩

/-- A path grows at its front as well. -/
theorem PathFrom.cons {s : List L} (hT : T c = some (a, x)) (h : PathFrom T c n s) :
    PathFrom T a n (x :: s) :=
  (PathFrom.child hT PathFrom.nil).trans h

/-- A node has one path from the root. -/
theorem PathFrom.unique (hroot : T root = none) (h₁ : PathFrom T root n l)
    (h₂ : PathFrom T root n s) : l = s := by
  induction h₁ generalizing s with
  | nil =>
    -- the root has no parent, so both paths end there or neither does
    cases h₂ with
    | nil => rfl
    | child hT _ => rw [hroot] at hT; cases hT
  | child hT _ ih =>
    cases h₂ with
    | nil => rw [hroot] at hT; cases hT
    | child hT' hp =>
      -- the last step is the same
      rw [hT] at hT'
      cases hT'
      rw [ih hp]

/-- A node of the tree is not above its own parent. -/
theorem not_below_parent (hroot : T root = none) (hn : PathFrom T root n l)
    (hT : T n = some (p, x)) : ¬ Below T n p := by
  intro ⟨s, hs⟩
  cases hn with
  | nil => rw [hroot] at hT; cases hT
  | child hT' hp =>
    rw [hT] at hT'
    cases hT'
    -- the path to `n` would be longer than itself
    obtain ⟨la, hla, heq⟩ := hp.split hroot hs
    have hlen := congrArg List.length (hla.unique hroot (PathFrom.child hT hp))
    rw [heq] at hlen
    simp at hlen

/-- The ancestors of a node form a chain. -/
theorem Below.total (ha : Below T a n) (hb : Below T b n) : Below T a b ∨ Below T b a := by
  obtain ⟨l, hl⟩ := ha
  induction hl with
  | nil => exact Or.inr hb
  | @child n p x l hT hp ih =>
    -- induction on the path from `a`: `b` is met on the way, or it is above `a`
    by_cases hnb : n = b
    · subst hnb
      exact Or.inl ⟨_, PathFrom.child hT hp⟩
    · exact ih (hb.through_parent hnb hT)

/-! ## Section 2: Well-formed trees -/

/-- Siblings have different labels, and every node is connected to the root. -/
structure WellFormed (T : ParentMap N L) (root : N) : Prop where
  /-- The root has no parent. -/
  root_free : T root = none
  /-- Under one parent a label stands for one node. -/
  sibling_inj : ∀ {a b : N} {e : N × L}, T a = some e → T b = some e → a = b
  /-- Every node with a parent is below the root. -/
  connected : ∀ {n : N} {e : N × L}, T n = some e → Below T root n

namespace WellFormed

/-- Parents are below the root, as their children are. -/
theorem parent (hwf : WellFormed T root) (hT : T n = some (p, x)) : Below T root p := by
  apply (hwf.connected hT).through_parent _ hT
  intro rfl
  rw [hwf.root_free] at hT
  cases hT

/-- A parent is the root or hangs somewhere itself. -/
theorem parent_mem (hwf : WellFormed T root) (hT : T n = some (p, x)) :
    p = root ∨ (T p).isSome := by
  by_cases hp : p = root
  · exact Or.inl hp
  · obtain ⟨q, y, hT', _⟩ := (hwf.parent hT).cases_last hp
    exact Or.inr (by rw [hT']; rfl)

theorem not_below_parent (hwf : WellFormed T root) (hT : T n = some (p, x)) :
    ¬ Below T n p := by
  obtain ⟨l, hl⟩ := hwf.connected hT
  exact ParentMap.not_below_parent hwf.root_free hl hT

/-- Two nodes with the same path from the root are equal. -/
theorem path_inj (hwf : WellFormed T root) (ha : PathFrom T root a l)
    (hb : PathFrom T root b l) : a = b := by
  induction ha generalizing b with
  | nil =>
    generalize hs : ([] : List L) = s at hb
    cases hb with
    | nil => rfl
    | child => simp at hs
  | @child n p x l hT _ ih =>
    generalize hs : l ++ [x] = s at hb
    cases hb with
    | nil => simp at hs
    | child hT' hq =>
      -- the same path to the parents, then the same label
      obtain ⟨rfl, hx⟩ := List.append_inj' hs rfl
      cases hx
      have hpq := ih hq
      subst hpq
      exact hwf.sibling_inj hT hT'

/-- Nothing lies below a node that is no node of the tree, but the node. -/
theorem below_of_not_mem (hwf : WellFormed T root) (hn : T n = none) (hroot : n ≠ root)
    (h : Below T n a) : a = n := by
  obtain ⟨l, hl⟩ := h
  -- A path that has left the set cannot come back into it.
  induction hl with
  | nil => rfl
  | child hT _ ih =>
    subst ih
    rcases hwf.parent_mem hT with h | h
    · exact absurd h hroot
    · rw [hn] at h; cases h

end WellFormed

/-! ## Section 3: Changing one entry -/

section update

variable [DecidableEq N] {e : Option (N × L)}

/-- Paths that avoid the changed node stay. -/
theorem PathFrom.update_of_not_below (h : PathFrom T a c l) (hn : ¬ Below T n c) :
    PathFrom (Function.update T n e) a c l := by
  induction h with
  | nil => exact PathFrom.nil
  | @child m q y l hT _ ih =>
    have hmn : m ≠ n := fun h => hn (h ▸ Below.refl)
    refine PathFrom.child ?_ (ih fun hq => hn (hq.child hT))
    rw [Function.update_of_ne hmn]
    exact hT

/-- Paths from the changed node down stay. -/
theorem PathFrom.update_from (hn : ∀ p x, T n = some (p, x) → ¬ Below T n p)
    (h : PathFrom T n c s) : PathFrom (Function.update T n e) n c s := by
  induction h with
  | nil => exact PathFrom.nil
  | @child m q y l hT hq ih =>
    have hmn : m ≠ n := by
      intro rfl
      exact hn _ _ hT ⟨_, hq⟩
    refine PathFrom.child ?_ ih
    rw [Function.update_of_ne hmn]
    exact hT

/-- The new paths of the subtree of a node that is put under `p` with label `x`. -/
theorem PathFrom.update_below (hp : PathFrom T root p l) (hnp : ¬ Below T n p)
    (hn : ∀ q y, T n = some (q, y) → ¬ Below T n q) (hc : PathFrom T n c s) :
    PathFrom (Function.update T n (some (p, x))) root c (l ++ [x] ++ s) := by
  have hp' : PathFrom (Function.update T n (some (p, x))) root p l :=
    hp.update_of_not_below hnp
  exact (PathFrom.child (Function.update_self ..) hp').trans (hc.update_from hn)

/-- All paths after `n` has been put under `p`: those in the subtree of `n` lead through
    `p` now, the others are as before. -/
theorem PathFrom.of_update (hwf : WellFormed T root) (hroot : n ≠ root)
    (hp : PathFrom T root p l) (hnp : ¬ Below T n p) {m : N} {k : List L}
    (h : PathFrom (Function.update T n (some (p, x))) root m k) :
    (¬ Below T n m ∧ PathFrom T root m k) ∨ ∃ s, PathFrom T n m s ∧ k = l ++ [x] ++ s := by
  induction h with
  | nil =>
    refine Or.inl ⟨?_, PathFrom.nil⟩
    intro hb
    -- nothing is above the root
    obtain ⟨q, y, hT, _⟩ := hb.cases_last (Ne.symm hroot)
    rw [hwf.root_free] at hT
    cases hT
  | @child m q y k hT _ ih =>
    by_cases hmn : m = n
    · -- the changed node itself
      subst hmn
      rw [Function.update_self] at hT
      cases hT
      rcases ih with ⟨_, hq⟩ | ⟨s, hs, _⟩
      · refine Or.inr ⟨[], PathFrom.nil, ?_⟩
        rw [PathFrom.unique hwf.root_free hp hq, List.append_nil]
      · exact absurd ⟨s, hs⟩ hnp
    · -- any other node goes with its parent
      rw [Function.update_of_ne hmn] at hT
      rcases ih with ⟨hnq, hq⟩ | ⟨s, hs, hk⟩
      · refine Or.inl ⟨?_, PathFrom.child hT hq⟩
        exact fun hb => hnq (hb.through_parent hmn hT)
      · exact Or.inr ⟨s ++ [y], PathFrom.child hT hs, by rw [hk, List.append_assoc]⟩

/-- Putting a node under `p` with label `x`: a new node, a move or a relabelling. -/
theorem WellFormed.update (hwf : WellFormed T root) (hroot : n ≠ root)
    (hp : Below T root p) (hnp : ¬ Below T n p)
    (hfresh : ∀ m, T m = some (p, x) → m = n) :
    WellFormed (Function.update T n (some (p, x))) root where
  root_free := by
    rw [Function.update_of_ne (Ne.symm hroot)]
    exact hwf.root_free
  sibling_inj := by
    intro c d e' hc hd
    by_cases hcn : c = n
    · by_cases hdn : d = n
      · rw [hcn, hdn]
      · -- `d` would be an old node with the new place of `n`
        subst hcn
        rw [Function.update_self] at hc
        rw [Function.update_of_ne hdn] at hd
        cases hc
        exact (hfresh d hd).symm
    · by_cases hdn : d = n
      · subst hdn
        rw [Function.update_self] at hd
        rw [Function.update_of_ne hcn] at hc
        cases hd
        exact hfresh c hc
      · rw [Function.update_of_ne hcn] at hc
        rw [Function.update_of_ne hdn] at hd
        exact hwf.sibling_inj hc hd
  connected := by
    obtain ⟨lp, hlp⟩ := hp
    have hp' : Below (Function.update T n (some (p, x))) root p :=
      ⟨lp, hlp.update_of_not_below hnp⟩
    have hn' : Below (Function.update T n (some (p, x))) root n :=
      hp'.child (Function.update_self ..)
    -- every node reached in the old tree is reached in the new one
    have hall : ∀ c l, PathFrom T root c l →
        Below (Function.update T n (some (p, x))) root c := by
      intro c l hc
      induction hc with
      | nil => exact Below.refl
      | @child m q y l hT _ ih =>
        by_cases hmn : m = n
        · exact hmn ▸ hn'
        · apply ih.child (x := y)
          rw [Function.update_of_ne hmn]
          exact hT
    intro c e' hc
    by_cases hcn : c = n
    · exact hcn ▸ hn'
    · rw [Function.update_of_ne hcn] at hc
      obtain ⟨l, hl⟩ := hwf.connected hc
      exact hall c l hl

/-! ### Re-rooting -/

/-- The subtree of `n` has left the end of the path `old` for the end of `new`; all other
    paths are the same. -/
structure Rerooted (T T' : ParentMap N L) (root n : N) (old new : List L) : Prop where
  /-- Below `n` the first part of a path is exchanged. -/
  subtree : ∀ m k, Below T n m → PathFrom T root m k →
    ∃ s, k = old ++ s ∧ PathFrom T' root m (new ++ s)
  /-- No other path is changed. -/
  others : ∀ m k, ¬ Below T n m → PathFrom T root m k → PathFrom T' root m k

/-- Moving or relabelling a node re-roots its subtree. -/
theorem rerooted_update {q : N} {y : L} {k : List L} (hwf : WellFormed T root)
    (hn : T n = some (q, y)) (hq : PathFrom T root q k) (hp : PathFrom T root p l)
    (hnp : ¬ Below T n p) :
    Rerooted T (Function.update T n (some (p, x))) root n (k ++ [y]) (l ++ [x]) := by
  constructor
  case subtree =>
    intro m j ⟨s, hs⟩ hj
    have hold : PathFrom T root m (k ++ [y] ++ s) := (PathFrom.child hn hq).trans hs
    refine ⟨s, hj.unique hwf.root_free hold, ?_⟩
    exact PathFrom.update_below hp hnp (fun _ _ h => hwf.not_below_parent h) hs
  case others => exact fun m j hm hj => hj.update_of_not_below hm

/-! ### Bounded depth -/

/-- Paths from the root have at most `k` labels. -/
def DepthAtMost (T : ParentMap N L) (root : N) (k : Nat) : Prop :=
  ∀ m l, PathFrom T root m l → l.length ≤ k

/-- A bound stays if and only if the subtree that is put under `p` fits below it. -/
theorem depthAtMost_update_iff {k : Nat} (hwf : WellFormed T root) (hroot : n ≠ root)
    (hp : PathFrom T root p l) (hnp : ¬ Below T n p) (hdepth : DepthAtMost T root k) :
    DepthAtMost (Function.update T n (some (p, x))) root k ↔
      ∀ m s, PathFrom T n m s → l.length + 1 + s.length ≤ k := by
  constructor
  · intro hdepth' m s hs
    have hle := hdepth' m _ (hp.update_below hnp (fun q y hT => hwf.not_below_parent hT) hs)
    rwa [List.length_append, List.length_append, List.length_singleton] at hle
  · intro hfits m l' hl'
    rcases PathFrom.of_update hwf hroot hp hnp hl' with ⟨_, hold⟩ | ⟨s, hs, heq⟩
    · exact hdepth m l' hold
    · rw [heq, List.length_append, List.length_append, List.length_singleton]
      exact hfits m s hs

end update

/-! ## Section 4: Deleting nodes -/

section restrict

variable (D : N → Prop) [DecidablePred D]

/-- The tree without the nodes of `D`. -/
def restrict (T : ParentMap N L) : ParentMap N L := fun n => if D n then none else T n

variable {D}

/-- The nodes that stay keep their parents and names. -/
theorem restrict_eq_some {y : N × L} : restrict D T n = some y ↔ ¬ D n ∧ T n = some y := by
  unfold restrict
  by_cases h : D n <;> simp [h]

/-- Paths to nodes that stay. -/
theorem PathFrom.restrict (hclosed : ∀ n p x, T n = some (p, x) → D p → D n)
    (h : PathFrom T a c l) (hc : ¬ D c) : PathFrom (ParentMap.restrict D T) a c l := by
  -- Each step of the path stays, because its node does.
  induction h with
  | nil => exact PathFrom.nil
  | child hT _ ih =>
    refine PathFrom.child (restrict_eq_some.mpr ⟨hc, hT⟩) (ih fun hp => ?_)
    exact hc (hclosed _ _ _ hT hp)

/-- Taking away nodes together with all that hangs at them keeps the map well formed. -/
theorem WellFormed.restrict (hwf : WellFormed T root)
    (hclosed : ∀ n p x, T n = some (p, x) → D p → D n) :
    WellFormed (ParentMap.restrict D T) root where
  root_free := by
    unfold ParentMap.restrict
    split
    · rfl
    · exact hwf.root_free
  sibling_inj := fun ha hb =>
    hwf.sibling_inj (restrict_eq_some.mp ha).2 (restrict_eq_some.mp hb).2
  connected := by
    intro n e hn
    obtain ⟨hD, hT⟩ := restrict_eq_some.mp hn
    obtain ⟨l, hl⟩ := hwf.connected hT
    exact ⟨l, hl.restrict hclosed hD⟩

end restrict

end ParentMap

end Framework
