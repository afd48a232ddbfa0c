import VirtualFS.Disk.Contents
import VirtualFS.Framework.FileTree
import VirtualFS.Paths.Resolution
import VirtualFS.Store.Rerooting
import VirtualFS.Store.SubtreeDeletion
import VirtualFS.Store.Truncation

/-! # Views of the Store

    The view of the store is what its paths lead to: which slots and addresses
    the entries have, and which chunks their data is in, cannot be seen in it.
    Each kind of step has one effect on it.

    * `VFS.view`: the items at the paths of the store.
    * `Edited.view_insert`, `Edited.view_rebase`: putting an entry in place.
    * `FileEffect.view_write`: changing the data of a file.
    * `PrunesAll.view_prune`: removing entries.

    Each is the rule for path maps of the same name, at the tree of the store.
-/

namespace VirtualFS

open Framework Prog Outcome ParentMap VFSEntryStore

variable {s s' : VFS} {es : VFSEntryStore} {n m : VFSNode} {f : FileRef} {p q r : FolderRef}
  {l k : List (List Byte)} {P : VFSNode → Prop}

/-! ## Section 1: The view -/

/-- What an entry is for a user of the file system. -/
def VFS.itemOf (s : VFS) : VFSNode → Item (List Byte)
  | .file f => .file (s.content f)
  | .folder _ => .folder

/-- What the paths from the root lead to. -/
noncomputable def VFS.view (s : VFS) : PathMap (List Byte) (Item (List Byte)) :=
  ParentMap.view s.entry_store.tree (.folder .root) s.itemOf

/-- At the path of a node its item is seen. -/
theorem view_of_path (ht : FolderTree s.entry_store) (h : s.entry_store.PathTo n l) :
    s.view l = some (s.itemOf n) :=
  ht.wellFormed.view_eq h

/-- What is seen at a path is the item of the node there. -/
theorem view_eq_some_iff (ht : FolderTree s.entry_store) {v : Item (List Byte)} :
    s.view l = some v ↔ ∃ n, s.entry_store.PathTo n l ∧ s.itemOf n = v :=
  ht.wellFormed.view_eq_some_iff

/-- Something is seen at the paths of nodes only. -/
theorem view_isSome_iff (ht : FolderTree s.entry_store) :
    (s.view l).isSome ↔ ∃ n, s.entry_store.PathTo n l := by
  rw [Option.isSome_iff_exists]
  simp only [view_eq_some_iff ht]
  constructor
  · rintro ⟨v, n, hn, -⟩
    exact ⟨n, hn⟩
  · rintro ⟨n, hn⟩
    exact ⟨_, n, hn, rfl⟩

/-- A folder is seen at the paths of folders. -/
theorem view_folder_iff (ht : FolderTree s.entry_store) :
    s.view l = some .folder ↔ ∃ r, s.entry_store.PathTo (.folder r) l := by
  rw [view_eq_some_iff ht]
  constructor
  · rintro ⟨n, hn, hv⟩
    cases n with
    | file f => cases hv
    | folder r => exact ⟨r, hn⟩
  · rintro ⟨r, hr⟩
    exact ⟨_, hr, rfl⟩

/-- A file is seen at the path of a file, with its content. -/
theorem view_file_iff (ht : FolderTree s.entry_store) {data : List Byte} :
    s.view l = some (.file data) ↔
      ∃ f, s.entry_store.PathTo (.file f) l ∧ s.content f = data := by
  rw [view_eq_some_iff ht]
  constructor
  · rintro ⟨n, hn, hv⟩
    cases n with
    | file f => exact ⟨f, hn, Item.file.inj hv⟩
    | folder r => cases hv
  · rintro ⟨f, hf, hv⟩
    exact ⟨_, hf, congrArg _ hv⟩

/-- A path leads to the root, or to an entry in the store. -/
theorem present_of_path (h : es.PathTo n l) : es.present n := by
  cases h with
  | nil => exact Or.inl rfl
  | child hT _ => exact Or.inr (tree_eq_some.mp hT).1

theorem committed_of_path_file (h : es.PathTo (.file f) l) : es.committed (.file f) :=
  present_file.mp (present_of_path h)

theorem live_of_path_folder (h : es.PathTo (.folder r) l) : es.live r :=
  present_folder.mp (present_of_path h)

/-- Names on a path are names of entries. -/
theorem exists_named (es : VFSEntryStore) {n : VFSNode} (h : es.PathTo n l) :
    ∀ x ∈ l, ∃ m, es.committed m ∧ es.nameOf m = x := by
  -- The last name of a path is that of its node, the others lead to the parent.
  induction h with
  | nil => exact fun x hx => absurd hx List.not_mem_nil
  | @child m _ y _ hT _ ih =>
    intro x hx
    rcases List.mem_append.mp hx with hmem | hmem
    · exact ih x hmem
    · obtain ⟨hm, _, _, _, heq⟩ := tree_eq_some.mp hT
      exact ⟨m, hm, by rw [List.mem_singleton.mp hmem, heq]⟩

theorem present_of_below (h : Below es.tree (.folder .root) n) : es.present n := by
  obtain ⟨l, hl⟩ := h
  exact present_of_path hl

/-- The file tree that is the view of the store. -/
theorem exists_fileTree (ht : FolderTree s.entry_store) :
    ∃ t : FileTree (List Byte) (List Byte), t.item = s.view := by
  refine ⟨⟨s.view, view_of_path ht PathFrom.nil, ?_⟩, rfl⟩
  intro l x h
  obtain ⟨n, hn⟩ := (view_isSome_iff ht).mp h
  obtain ⟨q, hT, hq⟩ := hn.snoc_inv
  obtain ⟨-, r, -, rfl, -⟩ := tree_eq_some.mp hT
  exact view_of_path ht hq

/-! ## Section 2: What steps do to the view -/

/-- Two stores show the same if paths and contents are the same. -/
theorem view_congr (ht : FolderTree s.entry_store)
    (htree : s'.entry_store.tree = s.entry_store.tree)
    (hcontent : ∀ f, s.entry_store.committed (.file f) → s'.content f = s.content f) :
    s'.view = s.view := by
  unfold VFS.view
  rw [htree]
  apply ht.wellFormed.view_congr
  intro n hn
  cases n with
  | file f => exact congrArg Item.file (hcontent f (present_file.mp (present_of_below hn)))
  | folder r => rfl

/-- The same store on the same disk is seen in the same way. -/
theorem SameStore.view_eq (h : SameStore s.entry_store s'.entry_store)
    (ht : FolderTree s.entry_store) (hm : s'.storage_man = s.storage_man) : s'.view = s.view := by
  apply view_congr ht h.same.tree_eq
  intro f hf
  exact content_congr (h.files_eq f hf ▸ SameData.refl _) fun c _ => by rw [hm]

/-- Contents of the files that are not edited. -/
theorem Edited.itemOf_eq (h : Edited s.entry_store s'.entry_store n p)
    (hm : s'.storage_man = s.storage_man) (hk : s.entry_store.present m) :
    s'.itemOf m = s.itemOf m := by
  cases m with
  | file f =>
    exact congrArg Item.file (content_congr (h.data f (present_file.mp hk)) fun c _ => by rw [hm])
  | folder r => rfl

/-- A new file is empty. -/
theorem content_of_blank (h : Blank (s.entry_store.files f)) : s.content f = [] := by
  rw [content_eq, h.chunks_eq]
  rfl

/-- No node hangs under a folder by a name that is new there. -/
theorem nameIsNew_fresh (ht : FolderTree s.entry_store) (hp : s.entry_store.live p)
    {name : List Byte} (hnew : s.entry_store.NameIsNew p name) (m : VFSNode) :
    s.entry_store.tree m ≠ some (.folder p, name) := by
  intro hT
  obtain ⟨hmem, hname⟩ := (ht.tree_eq_some_iff hp).mp hT
  exact hnew m hmem hname

/-- **Creating** an entry. -/
theorem Edited.view_insert (h : Edited s.entry_store s'.entry_store n p)
    (ht : FolderTree s.entry_store) (hm : s'.storage_man = s.storage_man)
    (hfree : ¬ s.entry_store.committed n)
    (hnew : s.entry_store.NameIsNew p (s'.entry_store.nameOf n))
    (hl : s.entry_store.PathTo (.folder p) l) :
    s'.view = Function.update s.view (l ++ [s'.entry_store.nameOf n]) (some (s'.itemOf n)) := by
  unfold VFS.view
  rw [h.tree_eq]
  apply ht.wellFormed.view_insert h.ne_root (tree_of_not_committed hfree) hl
  · rintro rfl
    rcases present_of_path hl with heq | hc
    · exact h.ne_root heq
    · exact hfree hc
  · exact nameIsNew_fresh ht h.parent_live hnew
  · exact fun m _ hb => h.itemOf_eq hm (present_of_below hb)

/-- **Moving and renaming** an entry. -/
theorem Edited.view_rebase (h : Edited s.entry_store s'.entry_store n p)
    (ht : FolderTree s.entry_store) (hm : s'.storage_man = s.storage_man)
    (hn : s.entry_store.committed n)
    (hnew : s.entry_store.NameIsNew p (s'.entry_store.nameOf n))
    (hk : s.entry_store.PathTo n k) (hl : s.entry_store.PathTo (.folder p) l) :
    s'.view = s.view.rebase k (l ++ [s'.entry_store.nameOf n]) := by
  cases hk with
  | nil => exact absurd hn id
  | child hT hq =>
    unfold VFS.view
    rw [h.tree_eq]
    apply ht.wellFormed.view_rebase hT hq hl h.no_cycle
    · exact nameIsNew_fresh ht h.parent_live hnew
    · exact fun m hb => h.itemOf_eq hm (present_of_below hb)

/-- **Changing the data** of a file. -/
theorem FileEffect.view_write (h : FileEffect s s' f) (hs : Sound s)
    (hf : s.entry_store.committed (.file f)) (hl : s.entry_store.PathTo (.file f) l) :
    s'.view = Function.update s.view l (some (.file (s'.content f))) := by
  unfold VFS.view
  rw [h.sameTree.tree_eq]
  apply hs.tree.wellFormed.view_write hl
  intro m hmf hb
  cases m with
  | file g =>
    have hg := present_file.mp (present_of_below hb)
    have hgf : g ≠ f := fun heq => hmf (congrArg _ heq)
    exact congrArg Item.file (h.othersKept hs.chunks hf g hg hgf).2
  | folder r => rfl

/-! ### Removal -/

/-- What is left looks as it did. -/
theorem Prunes.itemOf_eq (h : Prunes P s s') (hm : s'.entry_store.present m) :
    s'.itemOf m = s.itemOf m := by
  cases m with
  | file f =>
    have hfile := (h.same (present_file.mp hm)).2.2 f rfl
    exact congrArg Item.file (content_congr (hfile ▸ SameData.refl _) fun c _ => by
      unfold StorageMan.chunk
      rw [h.storage_eq])
  | folder r => rfl

/-- **Removing a subtree.** -/
theorem PrunesAll.view_prune (h : PrunesAll P s s') (hs : Sound s)
    (hn : s.entry_store.PathTo n l)
    (hP : ∀ m, P m ↔ Below s.entry_store.tree n m) (hroot : n ≠ .folder .root) :
    s'.view = s.view.prune (l <+: ·) := by
  have ht := hs.tree
  have ht' := (h.prunes.sound hs).tree
  apply ht.wellFormed.view_prune (D := P) ht'.wellFormed
  · intro m j
    constructor
    · intro hj
      refine ⟨h.prunes.pathFrom_of hj, fun hPm => ?_⟩
      rcases present_of_path hj with rfl | hc
      · -- nothing is above the root
        obtain ⟨_, _, hT, -⟩ := ((hP _).mp hPm).cases_last (Ne.symm hroot)
        rw [tree_root] at hT
        cases hT
      · exact h.gone m hPm hc
    · rintro ⟨hj, hPm⟩
      rw [hP] at hPm
      induction hj with
      | nil => exact PathFrom.nil
      | child hT hq ih =>
        have hq' := ih fun hb => hPm (hb.child hT)
        have hc := h.prunes.kept (tree_eq_some.mp hT).1 fun hPm' => hPm ((hP _).mp hPm')
        exact PathFrom.child ((h.prunes.tree_eq hc).trans hT) hq'
  · intro m j hj
    rw [hP, ht.wellFormed.below_iff_prefix hn hj]
  · exact fun m hb => h.prunes.itemOf_eq (present_of_below hb)

/-- **Removing entries below another one.** -/
theorem Prunes.view_below (h : Prunes P s s') (hs : Sound s) (hn : s.entry_store.PathTo n l)
    (hP : ∀ m, P m → Below s.entry_store.tree n m ∧ m ≠ n) (k : List (List Byte)) :
    s'.view k = s.view k ∨ (s'.view k = none ∧ l <+: k ∧ k ≠ l) := by
  have ht := hs.tree
  have ht' := (h.sound hs).tree
  cases hk : s'.view k with
  | some v =>
    -- what is left is as before
    obtain ⟨m, hm, rfl⟩ := (view_eq_some_iff ht').mp hk
    rw [view_of_path ht (h.pathFrom_of hm), h.itemOf_eq (present_of_path hm)]
    exact Or.inl rfl
  | none =>
    cases hold : s.view k with
    | none => exact Or.inl rfl
    | some v =>
      obtain ⟨m, hm, rfl⟩ := (view_eq_some_iff ht).mp hold
      refine Or.inr ⟨rfl, ?_⟩
      -- an entry on the way has been deleted
      have hgone : ∃ a, Below s.entry_store.tree a m ∧ P a := by
        by_contra hno
        have hm' : s'.entry_store.PathTo m k := by
          clear hk hold
          induction hm with
          | nil => exact PathFrom.nil
          | child hT hq ih =>
            have hq' := ih fun ⟨a, ha, hPa⟩ => hno ⟨a, ha.child hT, hPa⟩
            have hc := h.kept (tree_eq_some.mp hT).1 fun hPm => hno ⟨_, Below.refl, hPm⟩
            exact PathFrom.child ((h.tree_eq hc).trans hT) hq'
        rw [view_of_path ht' hm'] at hk
        cases hk
      obtain ⟨a, ham, hPa⟩ := hgone
      obtain ⟨hna, hne⟩ := hP a hPa
      have hpre := (ht.wellFormed.below_iff_prefix hn hm).mp (hna.trans ham)
      refine ⟨hpre, ?_⟩
      rintro rfl
      -- then `n` itself would be below a proper descendant of it
      have hmn := ht.wellFormed.path_inj hm hn
      subst hmn
      obtain ⟨p, x, hT, hp⟩ := hna.cases_last hne
      exact ht.wellFormed.not_below_parent hT (ham.trans hp)

end VirtualFS
