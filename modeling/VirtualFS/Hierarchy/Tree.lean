import VirtualFS.Framework.ParentMap
import VirtualFS.Hierarchy.Names

/-! # The Folder Tree

    The entry store keeps one tree three times: in parent pointers, in the
    slots of folders and in the allocation maps. `FolderTree` says that the
    three agree. The tree as such is the parent map `tree`; the theorems of
    Section 3 reduce an edit of the store to an update of that map.

    * `SameTree`: nothing that the tree is made of has changed.
    * `PutUnder`: one node hangs somewhere else, or is new.
    * `TakenOut`: one node without children is gone.
    * `FolderTree.same`, `FolderTree.put`, `FolderTree.takeOut`: each of them keeps
      the invariant. The proofs go through `of_tree`, which asks for the tree as a
      parent map and for the agreement of the slots with it.
-/

namespace VirtualFS

open Framework ParentMap

/-! ## Section 1: Committed entries and their tree -/

namespace VFSEntryStore

/-- The entry is inside its array and marked in the allocation map. -/
def committed (es : VFSEntryStore) : VFSNode → Prop
  | .file f => f < VFS_MAX_FILES_AMOUNT ∧ es.files_allocation_map f = true
  | .folder .root => False
  | .folder (.slot i) => i < VFS_MAX_FOLDERS_AMOUNT ∧ es.folders_allocation_map i = true

instance (es : VFSEntryStore) : DecidablePred es.committed
  | .file _ => inferInstanceAs (Decidable (_ ∧ _))
  | .folder .root => inferInstanceAs (Decidable False)
  | .folder (.slot _) => inferInstanceAs (Decidable (_ ∧ _))

/-- The root or a committed folder. -/
def live (es : VFSEntryStore) (r : FolderRef) : Prop := r = .root ∨ es.committed (.folder r)

instance (es : VFSEntryStore) (r : FolderRef) : Decidable (es.live r) :=
  inferInstanceAs (Decidable (_ ∨ _))

/-- The name ends inside its buffer. -/
def nameTerminated (es : VFSEntryStore) : VFSNode → Prop
  | .file f => (es.files f).name.Terminated
  | .folder r => (es.folderAt r).name.Terminated

/-- Parent and name of every committed entry. -/
def tree (es : VFSEntryStore) : ParentMap VFSNode (List Byte) := fun n =>
  if es.committed n then (es.parentOf n).map fun r => (.folder r, es.nameOf n) else none

variable {es es' : VFSEntryStore} {n m : VFSNode} {p r : FolderRef}

theorem live_root : es.live .root := Or.inl rfl

theorem committed.live (h : es.committed (.folder r)) : es.live r := Or.inr h

theorem committed.ne_root (h : es.committed n) : n ≠ .folder .root := by
  intro rfl
  exact h

theorem tree_of_not_committed (hn : ¬ es.committed n) : es.tree n = none := if_neg hn

theorem tree_of_committed (hn : es.committed n) (hp : es.parentOf n = some p) :
    es.tree n = some (.folder p, es.nameOf n) := by
  simp [tree, hn, hp]

/-- The edges of the tree. -/
theorem tree_eq_some {q : VFSNode} {x : List Byte} :
    es.tree n = some (q, x) ↔
      es.committed n ∧ ∃ r, es.parentOf n = some r ∧ q = .folder r ∧ x = es.nameOf n := by
  by_cases hn : es.committed n
  · cases hp : es.parentOf n with
    | none => simp [tree, hn, hp]
    | some r =>
      simp only [tree, hn, hp, if_true, Option.map_some, Option.some.injEq, Prod.mk.injEq,
        true_and]
      constructor
      · intro ⟨rfl, rfl⟩
        exact ⟨r, rfl, rfl, rfl⟩
      · intro ⟨r', hr, hq, hx⟩
        subst hr hq hx
        exact ⟨rfl, rfl⟩
  · simp [tree, hn]

@[simp] theorem tree_root : es.tree (.folder .root) = none := by
  simp [tree, committed]

end VFSEntryStore

open VFSEntryStore

/-! ## Section 2: The invariant -/

/-- **Folder tree invariant.** `children` lists the non-NULL slots of a folder. -/
structure FolderTree (es : VFSEntryStore) : Prop where
  /-- The root is marked as the root. -/
  root_is_root : es.root.is_root = true
  /-- It has no parent. -/
  root_parent : es.root.parent_folder = none
  /-- No other live folder is marked as the root. -/
  not_root : ∀ i, es.committed (.folder (.slot i)) → (es.folders i).is_root = false
  /-- Every committed entry is in one slot of its parent and in no slot of another
      folder. -/
  linked : ∀ n, es.committed n →
    ∃ r, es.parentOf n = some r ∧ es.live r ∧ (es.children r).count n = 1 ∧
      ∀ q, es.live q → q ≠ r → n ∉ es.children q
  /-- Slots of live folders hold committed entries that point back. -/
  children_committed : ∀ r, es.live r → ∀ n ∈ es.children r,
    es.committed n ∧ es.parentOf n = some r
  /-- Parent pointers lead to the root. -/
  rooted : ∀ n, es.committed n → Below es.tree (.folder .root) n
  /-- Siblings have different names, files and folders alike. -/
  names_distinct : ∀ r, es.live r → ∀ m ∈ es.children r, ∀ n ∈ es.children r,
    es.nameOf m = es.nameOf n → m = n
  /-- No name is empty, reserved or holds a delimiter. -/
  names_acceptable : ∀ n, es.committed n → NameAcceptable (es.nameOf n)
  /-- Every name ends inside its buffer. -/
  names_terminated : ∀ n, es.committed n → es.nameTerminated n

namespace FolderTree

variable {es es' : VFSEntryStore} {n m : VFSNode} {p r : FolderRef}

/-- Children and parents agree. -/
theorem mem_children_iff (h : FolderTree es) (hr : es.live r) :
    n ∈ es.children r ↔ es.committed n ∧ es.parentOf n = some r := by
  constructor
  · exact h.children_committed r hr n
  · intro ⟨hn, hp⟩
    obtain ⟨q, hq, _, hcount, _⟩ := h.linked n hn
    rw [hp] at hq
    cases hq
    exact List.count_pos_iff.mp (by omega)

/-- No child is in two slots. -/
theorem children_nodup (h : FolderTree es) (hr : es.live r) : (es.children r).Nodup := by
  apply List.nodup_iff_count_le_one.mpr
  intro n
  by_cases hn : n ∈ es.children r
  · obtain ⟨hcomm, hp⟩ := h.children_committed r hr n hn
    obtain ⟨q, hq, _, hcount, _⟩ := h.linked n hcomm
    rw [hp] at hq
    cases hq
    omega
  · rw [List.count_eq_zero_of_not_mem hn]
    omega

/-- An entry is in the slots of no other folder. -/
theorem slot_folder_unique (h : FolderTree es) (hp : es.live p) (hr : es.live r)
    (hnp : n ∈ es.children p) (hnr : n ∈ es.children r) : p = r := by
  have h₁ := (h.children_committed p hp n hnp).2
  have h₂ := (h.children_committed r hr n hnr).2
  rw [h₁] at h₂
  exact Option.some.inj h₂

/-- The parent of an entry is live. -/
theorem parent_live (h : FolderTree es) (hn : es.committed n) (hp : es.parentOf n = some p) :
    es.live p := by
  obtain ⟨q, hq, hlive, _⟩ := h.linked n hn
  rw [hp] at hq
  cases hq
  exact hlive

theorem mem_children_parent (h : FolderTree es) (hn : es.committed n)
    (hp : es.parentOf n = some p) : n ∈ es.children p :=
  (h.mem_children_iff (h.parent_live hn hp)).mpr ⟨hn, hp⟩

/-- The root is the only live folder with the flag. -/
theorem is_root_iff (h : FolderTree es) (hr : es.live r) :
    (es.folderAt r).is_root = true ↔ r = .root := by
  cases r with
  | root => exact ⟨fun _ => rfl, fun _ => h.root_is_root⟩
  | slot i =>
    have hi : es.committed (.folder (.slot i)) := by simpa [live] using hr
    have hflag : (es.folderAt (.slot i)).is_root = false := h.not_root i hi
    rw [hflag]
    simp

theorem tree_eq (h : FolderTree es) (hr : es.live r) (hn : n ∈ es.children r) :
    es.tree n = some (.folder r, es.nameOf n) := by
  obtain ⟨hcomm, hp⟩ := h.children_committed r hr n hn
  exact tree_of_committed hcomm hp

/-- The parent map of the store is a tree. -/
theorem wellFormed (h : FolderTree es) : WellFormed es.tree (.folder .root) where
  root_free := tree_root
  sibling_inj := by
    intro m n ⟨q, x⟩ hm hn
    obtain ⟨hmc, r, hmr, rfl, rfl⟩ := tree_eq_some.mp hm
    obtain ⟨hnc, r', hnr, hrr, hname⟩ := tree_eq_some.mp hn
    cases hrr
    exact h.names_distinct r (h.parent_live hmc hmr) m (h.mem_children_parent hmc hmr) n
      (h.mem_children_parent hnc hnr) hname
  connected := by
    intro n ⟨q, x⟩ hn
    exact h.rooted n (tree_eq_some.mp hn).1

/-- Every live folder has a path from the root. -/
theorem exists_path (h : FolderTree es) (hr : es.live r) :
    ∃ l, PathFrom es.tree (.folder .root) (.folder r) l := by
  rcases hr with rfl | hr
  · exact ⟨[], PathFrom.nil⟩
  · exact h.rooted _ hr

/-- The invariant from the tree: the form in which it is proved after an edit. -/
theorem of_tree (hroot : es.root.is_root = true) (hparent : es.root.parent_folder = none)
    (hnot : ∀ i, es.committed (.folder (.slot i)) → (es.folders i).is_root = false)
    (hwf : WellFormed es.tree (.folder .root))
    (hsome : ∀ n, es.committed n → ∃ r, es.parentOf n = some r)
    (hmem : ∀ r, es.live r → ∀ n,
      n ∈ es.children r ↔ es.committed n ∧ es.parentOf n = some r)
    (hnodup : ∀ r, es.live r → (es.children r).Nodup)
    (hname : ∀ n, es.committed n → NameAcceptable (es.nameOf n))
    (hterm : ∀ n, es.committed n → es.nameTerminated n) : FolderTree es where
  root_is_root := hroot
  root_parent := hparent
  not_root := hnot
  linked := by
    intro n hn
    -- The parent is live, because it is the root or occurs in the tree.
    obtain ⟨r, hr⟩ := hsome n hn
    have hlive : es.live r := by
      rcases hwf.parent_mem (tree_of_committed hn hr) with h | h
      · cases h
        exact live_root
      · obtain ⟨e, he⟩ := Option.isSome_iff_exists.mp h
        exact (tree_eq_some.mp he).1.live
    refine ⟨r, hr, hlive,
      List.count_eq_one_of_mem (hnodup r hlive) ((hmem r hlive n).mpr ⟨hn, hr⟩), ?_⟩
    intro q hq hqr hnq
    have hparent := ((hmem q hq n).mp hnq).2
    rw [hr] at hparent
    exact hqr (Option.some.inj hparent).symm
  children_committed := fun r hr n hn => (hmem r hr n).mp hn
  rooted := by
    intro n hn
    obtain ⟨r, hr⟩ := hsome n hn
    exact hwf.connected (tree_of_committed hn hr)
  names_distinct := by
    intro r hr m hm n hn hmn
    obtain ⟨hmc, hmp⟩ := (hmem r hr m).mp hm
    obtain ⟨hnc, hnp⟩ := (hmem r hr n).mp hn
    have hm' := tree_of_committed hmc hmp
    rw [hmn] at hm'
    exact hwf.sibling_inj hm' (tree_of_committed hnc hnp)
  names_acceptable := hname
  names_terminated := hterm

end FolderTree

/-! ## Section 3: Edits of the store and of the tree -/

/-- Two stores with the same live part. -/
structure SameTree (es es' : VFSEntryStore) : Prop where
  /-- The same entries are in the store. -/
  committed_iff : ∀ n, es'.committed n ↔ es.committed n
  /-- They have the same parents, names and terminators. -/
  parentOf_eq : ∀ n, es.committed n → es'.parentOf n = es.parentOf n
  nameOf_eq : ∀ n, es.committed n → es'.nameOf n = es.nameOf n
  terminated_iff : ∀ n, es.committed n → (es'.nameTerminated n ↔ es.nameTerminated n)
  /-- The root mark is not moved. -/
  is_root_eq : ∀ r, es.live r → (es'.folderAt r).is_root = (es.folderAt r).is_root
  root_parent_eq : es'.parentOf (.folder .root) = es.parentOf (.folder .root)
  /-- The slots list the same children in the same order. -/
  children_eq : ∀ r, es.live r → es'.children r = es.children r

/-- `es'` is `es` with the entry `n`, new or not, put under the folder `p`. -/
structure PutUnder (es es' : VFSEntryStore) (n : VFSNode) (p : FolderRef) : Prop where
  /-- The entry is in the store, besides those that were. -/
  committed_iff : ∀ m, es'.committed m ↔ es.committed m ∨ m = n
  /-- It points to its new parent. -/
  parent_eq : es'.parentOf n = some p
  /-- Its name ends inside the buffer. -/
  terminated : es'.nameTerminated n
  /-- All other parent pointers, names and terminators are kept. -/
  parentOf_eq : ∀ m, m ≠ n → es.committed m → es'.parentOf m = es.parentOf m
  nameOf_eq : ∀ m, m ≠ n → es.committed m → es'.nameOf m = es.nameOf m
  terminated_iff : ∀ m, m ≠ n → es.committed m →
    (es'.nameTerminated m ↔ es.nameTerminated m)
  /-- The root mark is not moved. -/
  is_root_eq : ∀ r, es.live r → (es'.folderAt r).is_root = (es.folderAt r).is_root
  not_root : ∀ i, n = .folder (.slot i) → (es'.folders i).is_root = false
  root_parent_eq : es'.parentOf (.folder .root) = es.parentOf (.folder .root)
  /-- The entry is listed below `p` once and below no other folder. -/
  children_perm : ∀ r, es.live r → (es'.children r).Perm
    (if r = p then n :: (es.children r).erase n else (es.children r).erase n)
  /-- A folder that is new has no children. -/
  children_new : ∀ r, es'.live r → ¬ es.live r → es'.children r = []

/-- `es'` is `es` without the entry `n`. -/
structure TakenOut (es es' : VFSEntryStore) (n : VFSNode) : Prop where
  /-- The entry is the only one that has gone. -/
  committed_iff : ∀ m, es'.committed m ↔ es.committed m ∧ m ≠ n
  /-- All other parent pointers, names and terminators are kept. -/
  parentOf_eq : ∀ m, m ≠ n → es.committed m → es'.parentOf m = es.parentOf m
  nameOf_eq : ∀ m, m ≠ n → es.committed m → es'.nameOf m = es.nameOf m
  terminated_iff : ∀ m, m ≠ n → es.committed m →
    (es'.nameTerminated m ↔ es.nameTerminated m)
  /-- The root mark is not moved. -/
  is_root_eq : ∀ r, es'.live r → (es'.folderAt r).is_root = (es.folderAt r).is_root
  root_parent_eq : es'.parentOf (.folder .root) = es.parentOf (.folder .root)
  /-- The entry is struck from the list of its parent. -/
  children_perm : ∀ r, es'.live r → (es'.children r).Perm ((es.children r).erase n)

section edits

variable {es es' es'' : VFSEntryStore} {n m : VFSNode} {p r : FolderRef}

theorem live_iff_of_committed_iff (h : ∀ n, es'.committed n ↔ es.committed n) :
    es'.live r ↔ es.live r := by
  simp [live, h]

/-! ### The same live part -/

theorem SameTree.refl : SameTree es es where
  committed_iff := fun _ => Iff.rfl
  parentOf_eq := fun _ _ => rfl
  nameOf_eq := fun _ _ => rfl
  terminated_iff := fun _ _ => Iff.rfl
  is_root_eq := fun _ _ => rfl
  root_parent_eq := rfl
  children_eq := fun _ _ => rfl

/-- The same entries, parents and names make the same tree. -/
theorem SameTree.tree_eq (h : SameTree es es') : es'.tree = es.tree := by
  funext n
  unfold tree
  by_cases hn : es.committed n
  · rw [if_pos hn, if_pos ((h.committed_iff n).mpr hn), h.parentOf_eq n hn, h.nameOf_eq n hn]
  · rw [if_neg hn, if_neg (fun hn' => hn ((h.committed_iff n).mp hn'))]

theorem SameTree.live_iff (h : SameTree es es') : es'.live r ↔ es.live r :=
  live_iff_of_committed_iff h.committed_iff

/-- What the tree is made of is unchanged, so the invariant holds. -/
theorem FolderTree.same (ht : FolderTree es) (h : SameTree es es') : FolderTree es' := by
  -- The tree is read off committed nodes, their parents and their names: it is the same tree.
  have hwf : WellFormed es'.tree (.folder .root) := by
    rw [h.tree_eq]
    exact ht.wellFormed
  refine FolderTree.of_tree ?hroot ?hparent ?hnot hwf ?hsome ?hmem ?hnodup ?hname ?hterm
  case hroot =>
    have := h.is_root_eq .root live_root
    exact this.trans ht.root_is_root
  case hparent =>
    exact h.root_parent_eq.trans ht.root_parent
  case hnot =>
    intro i hi
    have hi' := (h.committed_iff _).mp hi
    exact (h.is_root_eq _ hi'.live).trans (ht.not_root i hi')
  case hsome =>
    intro n hn
    have hn' := (h.committed_iff n).mp hn
    obtain ⟨r, hr, _⟩ := ht.linked n hn'
    exact ⟨r, (h.parentOf_eq n hn').trans hr⟩
  case hmem =>
    intro r hr n
    have hr' := h.live_iff.mp hr
    rw [h.children_eq r hr', ht.mem_children_iff hr', h.committed_iff]
    apply and_congr_right
    intro hn
    rw [h.parentOf_eq n hn]
  case hnodup =>
    intro r hr
    have hr' := h.live_iff.mp hr
    rw [h.children_eq r hr']
    exact ht.children_nodup hr'
  case hname =>
    intro n hn
    have hn' := (h.committed_iff n).mp hn
    rw [h.nameOf_eq n hn']
    exact ht.names_acceptable n hn'
  case hterm =>
    intro n hn
    have hn' := (h.committed_iff n).mp hn
    exact (h.terminated_iff n hn').mpr (ht.names_terminated n hn')

/-! ### Putting an entry under a folder -/

theorem PutUnder.committed_self (h : PutUnder es es' n p) : es'.committed n :=
  (h.committed_iff n).mpr (Or.inr rfl)

/-- The edit is one update of the tree. -/
theorem PutUnder.tree_eq (h : PutUnder es es' n p) :
    es'.tree = Function.update es.tree n (some (.folder p, es'.nameOf n)) := by
  funext m
  by_cases hmn : m = n
  · subst hmn
    rw [Function.update_self, tree_of_committed h.committed_self h.parent_eq]
  · rw [Function.update_of_ne hmn]
    unfold tree
    by_cases hm : es.committed m
    · rw [if_pos hm, if_pos ((h.committed_iff m).mpr (Or.inl hm)), h.parentOf_eq m hmn hm,
        h.nameOf_eq m hmn hm]
    · rw [if_neg hm, if_neg]
      intro hm'
      rcases (h.committed_iff m).mp hm' with hc | hc
      · exact hm hc
      · exact hmn hc

theorem PutUnder.live_of_live (h : PutUnder es es' n p) (hr : es.live r) : es'.live r := by
  rcases hr with rfl | hr
  · exact live_root
  · exact Or.inr ((h.committed_iff _).mpr (Or.inl hr))

/-- A folder that has become live is the entry itself. -/
theorem PutUnder.eq_of_not_live (h : PutUnder es es' n p) (hr : es'.live r)
    (hnr : ¬ es.live r) : n = .folder r := by
  rcases hr with rfl | hr
  · exact absurd live_root hnr
  · rcases (h.committed_iff _).mp hr with hc | hc
    · exact absurd hc.live hnr
    · exact hc.symm

/-- No child is in two slots afterwards. -/
theorem PutUnder.nodup (ht : FolderTree es) (h : PutUnder es es' n p) (hr : es'.live r) :
    (es'.children r).Nodup := by
  by_cases hlive : es.live r
  · have hnd := ht.children_nodup hlive
    apply (h.children_perm r hlive).nodup_iff.mpr
    split
    · exact List.nodup_cons.mpr ⟨hnd.not_mem_erase, hnd.erase n⟩
    · exact hnd.erase n
  · rw [h.children_new r hr hlive]
    exact List.nodup_nil

/-- **Edit rule**: creating, moving and renaming an entry keep the folder tree, if
    the entry is not put under itself and no other child has its name. -/
theorem FolderTree.put (ht : FolderTree es) (h : PutUnder es es' n p) (hp : es.live p)
    (hn : n ≠ .folder .root) (hcycle : ¬ Below es.tree n (.folder p))
    (hname : NameAcceptable (es'.nameOf n))
    (hnew : ∀ m ∈ es.children p, es.nameOf m = es'.nameOf n → m = n) :
    FolderTree es' := by
  have hrooted : Below es.tree (.folder .root) (.folder p) := by
    rcases hp with rfl | hp
    · exact Below.refl
    · exact ht.rooted _ hp
  have hfresh : ∀ m, es.tree m = some (.folder p, es'.nameOf n) → m = n := by
    intro m hm
    obtain ⟨hmc, r, hmr, hr, hmn⟩ := tree_eq_some.mp hm
    cases hr
    exact hnew m (ht.mem_children_parent hmc hmr) hmn.symm
  have hwf : WellFormed es'.tree (.folder .root) := by
    rw [h.tree_eq]
    exact ht.wellFormed.update hn hrooted hcycle hfresh
  refine FolderTree.of_tree ?hroot ?hparent ?hnot hwf ?hsome ?hmem (fun r hr => h.nodup ht hr)
    ?hname ?hterm
  case hroot =>
    have := h.is_root_eq .root live_root
    exact this.trans ht.root_is_root
  case hparent =>
    exact h.root_parent_eq.trans ht.root_parent
  case hnot =>
    intro i hi
    rcases (h.committed_iff _).mp hi with hi' | hi'
    · exact (h.is_root_eq _ hi'.live).trans (ht.not_root i hi')
    · exact h.not_root i hi'.symm
  case hsome =>
    intro m hm
    by_cases hmn : m = n
    · exact ⟨p, hmn ▸ h.parent_eq⟩
    · have hm' := ((h.committed_iff m).mp hm).resolve_right hmn
      obtain ⟨r, hr, _⟩ := ht.linked m hm'
      exact ⟨r, (h.parentOf_eq m hmn hm').trans hr⟩
  case hmem =>
    intro r hr m
    by_cases hlive : es.live r
    · have hnd := ht.children_nodup hlive
      rw [(h.children_perm r hlive).mem_iff]
      by_cases hmn : m = n
      · subst hmn
        rw [h.parent_eq]
        by_cases hrp : r = p
        · subst hrp
          simp [h.committed_self]
        · rw [if_neg hrp]
          simp [hnd.not_mem_erase, Ne.symm hrp]
      · have hmem : m ∈ (if r = p then n :: (es.children r).erase n
            else (es.children r).erase n) ↔ m ∈ es.children r := by
          split <;> simp [hmn, List.mem_erase_of_ne hmn]
        rw [hmem, ht.mem_children_iff hlive, h.committed_iff]
        simp only [hmn, or_false]
        apply and_congr_right
        intro hm
        rw [h.parentOf_eq m hmn hm]
    · -- a new folder: nothing points to it yet
      have hnr := h.eq_of_not_live hr hlive
      rw [h.children_new r hr hlive]
      simp only [List.not_mem_nil, false_iff, not_and]
      intro hm hmr
      by_cases hmn : m = n
      · subst hmn
        rw [h.parent_eq] at hmr
        cases hmr
        exact hlive hp
      · have hm' := ((h.committed_iff m).mp hm).resolve_right hmn
        rw [h.parentOf_eq m hmn hm'] at hmr
        exact hlive (ht.parent_live hm' hmr)
  case hname =>
    intro m hm
    by_cases hmn : m = n
    · exact hmn ▸ hname
    · have hm' := ((h.committed_iff m).mp hm).resolve_right hmn
      rw [h.nameOf_eq m hmn hm']
      exact ht.names_acceptable m hm'
  case hterm =>
    intro m hm
    by_cases hmn : m = n
    · exact hmn ▸ h.terminated
    · have hm' := ((h.committed_iff m).mp hm).resolve_right hmn
      exact (h.terminated_iff m hmn hm').mpr (ht.names_terminated m hm')

/-! ### Taking an entry out -/

/-- The tree without the node. -/
theorem TakenOut.tree_eq (h : TakenOut es es' n) :
    es'.tree = ParentMap.restrict (fun m => m = n) es.tree := by
  funext m
  unfold ParentMap.restrict
  by_cases hmn : m = n
  · rw [if_pos hmn]
    unfold tree
    rw [if_neg (fun hm => ((h.committed_iff m).mp hm).2 hmn)]
  · rw [if_neg hmn]
    unfold tree
    by_cases hm : es.committed m
    · rw [if_pos hm, if_pos ((h.committed_iff m).mpr ⟨hm, hmn⟩), h.parentOf_eq m hmn hm,
        h.nameOf_eq m hmn hm]
    · rw [if_neg hm, if_neg (fun hm' => hm ((h.committed_iff m).mp hm').1)]

theorem TakenOut.live_of_live (h : TakenOut es es' n) (hr : es'.live r) : es.live r := by
  rcases hr with rfl | hr
  · exact live_root
  · exact Or.inr ((h.committed_iff _).mp hr).1

/-- **Edit rule**: deleting an entry without children keeps the folder tree. -/
theorem FolderTree.takeOut (ht : FolderTree es) (h : TakenOut es es' n)
    (hflat : ∀ r, n = .folder r → es.children r = []) : FolderTree es' := by
  -- Nothing hangs at the node, so the rest of the tree is closed under parents.
  have hclosed : ∀ m q x, es.tree m = some (q, x) → q = n → m = n := by
    intro m q x hm rfl
    obtain ⟨hmc, r, hmr, rfl, _⟩ := tree_eq_some.mp hm
    have := ht.mem_children_parent hmc hmr
    rw [hflat r rfl] at this
    cases this
  have hwf : WellFormed es'.tree (.folder .root) := by
    rw [h.tree_eq]
    exact ht.wellFormed.restrict hclosed
  refine FolderTree.of_tree ?hroot ?hparent ?hnot hwf ?hsome ?hmem ?hnodup ?hname ?hterm
  case hroot =>
    have := h.is_root_eq .root live_root
    exact this.trans ht.root_is_root
  case hparent =>
    exact h.root_parent_eq.trans ht.root_parent
  case hnot =>
    intro i hi
    exact (h.is_root_eq _ hi.live).trans (ht.not_root i ((h.committed_iff _).mp hi).1)
  case hsome =>
    intro m hm
    obtain ⟨hm', hmn⟩ := (h.committed_iff m).mp hm
    obtain ⟨r, hr, _⟩ := ht.linked m hm'
    exact ⟨r, (h.parentOf_eq m hmn hm').trans hr⟩
  case hmem =>
    intro r hr m
    have hr' := h.live_of_live hr
    have hnd := ht.children_nodup hr'
    rw [(h.children_perm r hr).mem_iff, hnd.mem_erase_iff, ht.mem_children_iff hr',
      h.committed_iff]
    constructor
    · intro ⟨hmn, hm, hmr⟩
      exact ⟨⟨hm, hmn⟩, (h.parentOf_eq m hmn hm).trans hmr⟩
    · intro ⟨⟨hm, hmn⟩, hmr⟩
      exact ⟨hmn, hm, (h.parentOf_eq m hmn hm).symm.trans hmr⟩
  case hnodup =>
    intro r hr
    exact (h.children_perm r hr).nodup_iff.mpr
      ((ht.children_nodup (h.live_of_live hr)).erase n)
  case hname =>
    intro m hm
    obtain ⟨hm', hmn⟩ := (h.committed_iff m).mp hm
    rw [h.nameOf_eq m hmn hm']
    exact ht.names_acceptable m hm'
  case hterm =>
    intro m hm
    obtain ⟨hm', hmn⟩ := (h.committed_iff m).mp hm
    exact (h.terminated_iff m hmn hm').mpr (ht.names_terminated m hm')

end edits

end VirtualFS
