import Mathlib.Data.List.Induction
import VirtualFS.Framework.ParentMap

/-! # Trees Seen from Outside

    A path map gives the value at the end of each path. The view of a parent
    map is the path map of the values at its nodes: it forgets which node is
    where, so that two trees with the same view cannot be told apart by their
    paths.

    * `view_insert`: a new node is one new path.
    * `view_rebase`: moving or relabelling a node re-roots the paths through it.
    * `view_prune`: deleting nodes cuts their paths.
    * `view_write`: changing a value changes it at one path.
-/

namespace Framework

/-- The value at the end of each path. -/
abbrev PathMap (L V : Type) : Type := List L → Option V

namespace PathMap

variable {L V : Type} {m : PathMap L V} {old new l s : List L}

/-! ## Section 1: Changing a path map -/

/-- What was at `old` and below is at `new` and below. -/
def rebase [DecidableEq L] (old new : List L) (m : PathMap L V) : PathMap L V := fun l =>
  if new <+: l then m (old ++ l.drop new.length)
  else if old <+: l then none
  else m l

/-- Where a path leads after what was at `old` has gone to `new`. -/
def reroot [DecidableEq L] (old new l : List L) : List L :=
  if old <+: l then new ++ l.drop old.length else l

/-- Nothing is left at the paths in `P`. -/
def prune (P : List L → Prop) [DecidablePred P] (m : PathMap L V) : PathMap L V := fun l =>
  if P l then none else m l

@[simp] theorem rebase_new [DecidableEq L] : rebase old new m (new ++ s) = m (old ++ s) := by
  simp [rebase]

@[simp] theorem reroot_append [DecidableEq L] : reroot old new (old ++ s) = new ++ s := by
  simp [reroot]

/-- Paths that do not start with `old` stay. -/
theorem reroot_other [DecidableEq L] (h : ¬ old <+: l) : reroot old new l = l := if_neg h

/-- Nothing is left at the old place. -/
theorem rebase_old [DecidableEq L] (hnew : ¬ new <+: l) (hold : old <+: l) :
    rebase old new m l = none := by
  rw [rebase, if_neg hnew, if_pos hold]

/-- Nothing changes away from the two places. -/
theorem rebase_other [DecidableEq L] (hnew : ¬ new <+: l) (hold : ¬ old <+: l) :
    rebase old new m l = m l := by
  rw [rebase, if_neg hnew, if_neg hold]

/-- What has gone to a free place can come back. -/
theorem rebase_rebase [DecidableEq L] (hfree : ∀ s, m (new ++ s) = none) :
    rebase new old (rebase old new m) = m := by
  funext l
  by_cases hold : old <+: l
  · obtain ⟨s, rfl⟩ := hold
    rw [rebase_new, rebase_new]
  · by_cases hnew : new <+: l
    · rw [rebase_old hold hnew]
      obtain ⟨s, rfl⟩ := hnew
      exact (hfree s).symm
    · rw [rebase_other hold hnew, rebase_other hnew hold]

/-- Moving to a fresh place and back again changes no path. -/
theorem reroot_reroot [DecidableEq L] (hnew : ¬ new <+: l) :
    reroot new old (reroot old new l) = l := by
  by_cases hold : old <+: l
  · obtain ⟨s, rfl⟩ := hold
    rw [reroot_append, reroot_append]
  · rw [reroot_other hold, reroot_other hnew]

variable {P : List L → Prop} [DecidablePred P]

/-- What is taken away is gone. -/
theorem prune_of (h : P l) : prune P m l = none := if_pos h

/-- The rest is kept. -/
theorem prune_of_not (h : ¬ P l) : prune P m l = m l := if_neg h

/-- What is left in a pruned map was there and was not taken away. -/
theorem prune_eq_some {v : V} : prune P m l = some v ↔ ¬ P l ∧ m l = some v := by
  unfold prune
  split
  · next h => simp [h]
  · next h => simp [h]

end PathMap

namespace ParentMap

variable {N L V : Type} {T T' : ParentMap N L} {root n p q c : N} {l k s : List L} {x y : L}
  {val val' : N → V}

/-! ## Section 2: The view of a tree -/

open Classical in
/-- The value at the node that a path from the root leads to. -/
noncomputable def view (T : ParentMap N L) (root : N) (val : N → V) : PathMap L V := fun l =>
  if h : ∃ n, PathFrom T root n l then some (val h.choose) else none

/-- Along the path of a node its value is seen. -/
theorem WellFormed.view_eq (hwf : WellFormed T root) (h : PathFrom T root n l) :
    view T root val l = some (val n) := by
  have hex : ∃ n, PathFrom T root n l := ⟨n, h⟩
  unfold view
  rw [dif_pos hex, hwf.path_inj hex.choose_spec h]

/-- Nothing is seen along a path to no node. -/
theorem view_eq_none (h : ∀ n, ¬ PathFrom T root n l) : view T root val l = none :=
  dif_neg fun ⟨n, hn⟩ => h n hn

/-- What is seen along a path is the value of the one node it leads to. -/
theorem WellFormed.view_eq_some_iff (hwf : WellFormed T root) {v : V} :
    view T root val l = some v ↔ ∃ n, PathFrom T root n l ∧ val n = v := by
  by_cases h : ∃ n, PathFrom T root n l
  · obtain ⟨n, hn⟩ := h
    rw [hwf.view_eq hn]
    constructor
    · intro hv
      exact ⟨n, hn, Option.some.inj hv⟩
    · rintro ⟨m, hm, rfl⟩
      rw [hwf.path_inj hn hm]
  · have hnone : ∀ n, ¬ PathFrom T root n l := fun n hn => h ⟨n, hn⟩
    rw [view_eq_none hnone]
    constructor
    · intro hv
      cases hv
    · rintro ⟨n, hn, -⟩
      exact absurd hn (hnone n)

/-- The view is the only map with the right value at every path of the tree and with no
    other paths. -/
theorem WellFormed.view_unique (hwf : WellFormed T root) {m : PathMap L V}
    (hsome : ∀ n l, PathFrom T root n l → m l = some (val n))
    (hnone : ∀ l, (∀ n, ¬ PathFrom T root n l) → m l = none) : view T root val = m := by
  funext l
  by_cases h : ∃ n, PathFrom T root n l
  · obtain ⟨n, hn⟩ := h
    rw [hwf.view_eq hn, hsome n l hn]
  · have hno : ∀ n, ¬ PathFrom T root n l := fun n hn => h ⟨n, hn⟩
    rw [view_eq_none hno, hnone l hno]

/-- The values of nodes that are not below the root are not seen. -/
theorem WellFormed.view_congr (hwf : WellFormed T root)
    (h : ∀ n, Below T root n → val' n = val n) : view T root val' = view T root val := by
  apply hwf.view_unique
  · intro n l hl
    rw [hwf.view_eq hl, h n ⟨l, hl⟩]
  · exact fun l hl => view_eq_none hl

/-- A path that continues another one leads through its end. -/
theorem PathFrom.append_inv {a : N} (h : PathFrom T a n (l ++ s)) :
    ∃ c, PathFrom T a c l ∧ PathFrom T c n s := by
  induction s using List.reverseRecOn generalizing n with
  | nil => exact ⟨n, by simpa using h, PathFrom.nil⟩
  | append_singleton s x ih =>
    rw [← List.append_assoc] at h
    obtain ⟨p, hT, hp⟩ := h.snoc_inv
    obtain ⟨c, hc, hs⟩ := ih hp
    exact ⟨c, hc, PathFrom.child hT hs⟩

/-- A path through a node passes below it. -/
theorem WellFormed.below_of_prefix (hwf : WellFormed T root) (hn : PathFrom T root n l)
    (h : PathFrom T root c (l ++ s)) : PathFrom T n c s := by
  obtain ⟨a, ha, hs⟩ := h.append_inv
  rw [hwf.path_inj hn ha]
  exact hs

/-- The nodes below one are those whose paths continue its path. -/
theorem WellFormed.below_iff_prefix (hwf : WellFormed T root) (hn : PathFrom T root n l)
    (hc : PathFrom T root c k) : Below T n c ↔ l <+: k := by
  constructor
  · rintro ⟨s, hs⟩
    obtain ⟨l', hl', rfl⟩ := hc.split hwf.root_free hs
    rw [hn.unique hwf.root_free hl']
    exact List.prefix_append _ _
  · rintro ⟨s, rfl⟩
    exact ⟨s, hwf.below_of_prefix hn hc⟩

/-- No path ends with a step that no node has taken. -/
theorem WellFormed.no_step (hwf : WellFormed T root) (hp : PathFrom T root p l)
    (hfresh : ∀ m, T m ≠ some (p, x)) : ¬ PathFrom T root n (l ++ [x]) := by
  intro h
  obtain ⟨q, hT, hq⟩ := h.snoc_inv
  rw [hwf.path_inj hq hp] at hT
  exact hfresh n hT

/-- No path goes through a name that no child of `p` has. -/
theorem WellFormed.no_path (hwf : WellFormed T root) (hp : PathFrom T root p l)
    (hfresh : ∀ m, T m ≠ some (p, x)) : ¬ PathFrom T root n (l ++ [x] ++ s) := by
  intro h
  obtain ⟨c, hc, -⟩ := h.append_inv
  exact hwf.no_step hp hfresh hc

/-! ## Section 3: Views of changed trees -/

section update

variable [DecidableEq N] [DecidableEq L]

/-- **A new node** is one new path. -/
theorem WellFormed.view_insert (hwf : WellFormed T root) (hroot : n ≠ root) (hn : T n = none)
    (hp : PathFrom T root p l) (hnp : n ≠ p) (hfresh : ∀ m, T m ≠ some (p, x))
    (hval : ∀ m, m ≠ n → Below T root m → val' m = val m) :
    view (Function.update T n (some (p, x))) root val' =
      Function.update (view T root val) (l ++ [x]) (some (val' n)) := by
  have hbelow : ∀ m, Below T n m → m = n := fun m hm => hwf.below_of_not_mem hn hroot hm
  have hnp' : ¬ Below T n p := fun h => hnp (hbelow p h).symm
  have hwf' := hwf.update (x := x) hroot ⟨l, hp⟩ hnp' fun m hm => absurd hm (hfresh m)
  have hnew : PathFrom (Function.update T n (some (p, x))) root n (l ++ [x]) :=
    PathFrom.child (Function.update_self ..) (hp.update_of_not_below hnp')
  apply hwf'.view_unique
  · intro m j hj
    rcases PathFrom.of_update hwf hroot hp hnp' hj with ⟨hm, hold⟩ | ⟨s, hs, rfl⟩
    · -- an old node at its old path
      have hne : j ≠ l ++ [x] := by
        rintro rfl
        exact hwf.no_step hp hfresh hold
      have hmn : m ≠ n := fun h => hm (h ▸ Below.refl)
      rw [Function.update_of_ne hne, hwf.view_eq hold, hval m hmn ⟨j, hold⟩]
    · have hmn := hbelow m ⟨s, hs⟩
      subst hmn
      rw [hj.unique hwf'.root_free hnew, Function.update_self]
  · intro j hj
    have hne : j ≠ l ++ [x] := by
      rintro rfl
      exact hj n hnew
    rw [Function.update_of_ne hne]
    apply view_eq_none
    intro m hm
    apply hj m
    apply hm.update_of_not_below
    intro hb
    -- the new node was on no path
    have hmn := hbelow m hb
    subst hmn
    obtain ⟨q, y, hT, -⟩ := Below.cases_last ⟨j, hm⟩ hroot
    rw [hn] at hT
    cases hT

/-- **Moving or relabelling** a node takes the paths through it along. -/
theorem WellFormed.view_rebase (hwf : WellFormed T root) (hn : T n = some (q, y))
    (hq : PathFrom T root q k) (hp : PathFrom T root p l) (hnp : ¬ Below T n p)
    (hfresh : ∀ m, T m ≠ some (p, x)) (hval : ∀ m, Below T root m → val' m = val m) :
    view (Function.update T n (some (p, x))) root val' =
      (view T root val).rebase (k ++ [y]) (l ++ [x]) := by
  have hroot : n ≠ root := by
    rintro rfl
    rw [hwf.root_free] at hn
    cases hn
  have hold : PathFrom T root n (k ++ [y]) := PathFrom.child hn hq
  have hwf' := hwf.update (x := x) hroot ⟨l, hp⟩ hnp fun m hm => absurd hm (hfresh m)
  have hsub : ∀ {m s}, PathFrom T n m s →
      PathFrom (Function.update T n (some (p, x))) root m (l ++ [x] ++ s) :=
    fun hs => hp.update_below hnp (fun _ _ h => hwf.not_below_parent h) hs
  apply hwf'.view_unique
  · intro m j hj
    rcases PathFrom.of_update hwf hroot hp hnp hj with ⟨hm, hpath⟩ | ⟨s, hs, rfl⟩
    · -- a node outside the subtree at its old path
      rw [PathMap.rebase_other, hwf.view_eq hpath, hval m ⟨j, hpath⟩]
      · rintro ⟨s, rfl⟩
        exact hwf.no_path hp hfresh hpath
      · exact fun hpre => hm ((hwf.below_iff_prefix hold hpath).mpr hpre)
    · rw [PathMap.rebase_new, hwf.view_eq (hold.trans hs), hval m ⟨_, hold.trans hs⟩]
  · intro j hj
    by_cases hnew : l ++ [x] <+: j
    · obtain ⟨s, rfl⟩ := hnew
      rw [PathMap.rebase_new]
      exact view_eq_none fun m hm => hj m (hsub (hwf.below_of_prefix hold hm))
    · by_cases hpre : k ++ [y] <+: j
      · exact PathMap.rebase_old hnew hpre
      · rw [PathMap.rebase_other hnew hpre]
        apply view_eq_none
        intro m hm
        apply hj m
        exact hm.update_of_not_below fun hb => hpre ((hwf.below_iff_prefix hold hm).mp hb)

end update

/-- **Deleting nodes** cuts their paths. -/
theorem WellFormed.view_prune {D : N → Prop} {P : List L → Prop} [DecidablePred P]
    (hwf : WellFormed T root) (hwf' : WellFormed T' root)
    (hpaths : ∀ m j, PathFrom T' root m j ↔ PathFrom T root m j ∧ ¬ D m)
    (hP : ∀ m j, PathFrom T root m j → (P j ↔ D m))
    (hval : ∀ m, Below T' root m → val' m = val m) :
    view T' root val' = (view T root val).prune P := by
  apply hwf'.view_unique
  · intro m j hj
    obtain ⟨hm, hD⟩ := (hpaths m j).mp hj
    rw [PathMap.prune_of_not fun h => hD ((hP m j hm).mp h), hwf.view_eq hm, hval m ⟨j, hj⟩]
  · intro j hj
    by_cases hPj : P j
    · exact PathMap.prune_of hPj
    · rw [PathMap.prune_of_not hPj]
      apply view_eq_none
      intro m hm
      exact hj m ((hpaths m j).mpr ⟨hm, fun hD => hPj ((hP m j hm).mpr hD)⟩)

/-- **Writing a value** changes it at one path. -/
theorem WellFormed.view_write [DecidableEq L] (hwf : WellFormed T root)
    (hn : PathFrom T root n l) (hval : ∀ m, m ≠ n → Below T root m → val' m = val m) :
    view T root val' = Function.update (view T root val) l (some (val' n)) := by
  apply hwf.view_unique
  · intro m j hj
    -- One node is written, so one path sees another value.
    by_cases hjl : j = l
    · subst hjl
      rw [Function.update_self, hwf.path_inj hj hn]
    · have hmn : m ≠ n := by
        rintro rfl
        exact hjl (hj.unique hwf.root_free hn)
      rw [Function.update_of_ne hjl, hwf.view_eq hj, hval m hmn ⟨j, hj⟩]
  · intro j hj
    have hjl : j ≠ l := by
      rintro rfl
      exact hj n hn
    rw [Function.update_of_ne hjl]
    exact view_eq_none hj

end ParentMap

end Framework
