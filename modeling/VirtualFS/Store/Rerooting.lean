import VirtualFS.Store.Reachable

/-! # Re-rooting

    A successful move or rename writes two slots and a parent pointer, or one
    name. In the tree it is the update of one node, so the paths of the whole
    subtree get a new beginning and no other path changes.

    * `Relocated`: what is kept and what is changed, by paths.
    * `relocation_reroots`: successful moves and renames are relocations.
-/

namespace VirtualFS

open Framework Prog Outcome ParentMap VFSEntryStore

variable {es : VFSEntryStore} {s s' : VFS} {n : VFSNode} {p : FolderRef} {l : List (List Byte)}
  {op : StoreOp}

/-! ## Section 1: Paths -/

/-- The names from the child of the root down to the node. -/
def VFSEntryStore.PathTo (es : VFSEntryStore) (n : VFSNode) (l : List (List Byte)) : Prop :=
  PathFrom es.tree (.folder .root) n l

/-- Every committed entry has exactly one path: that of its parent, then its name. -/
theorem FolderTree.path_unique (ht : FolderTree es) (hn : es.committed n)
    (hp : es.parentOf n = some p) (hl : es.PathTo (.folder p) l) {k : List (List Byte)} :
    es.PathTo n k ↔ k = l ++ [es.nameOf n] := by
  have hpath : es.PathTo n (l ++ [es.nameOf n]) := PathFrom.child (tree_of_committed hn hp) hl
  constructor
  · exact fun hk => PathFrom.unique ht.wellFormed.root_free hk hpath
  · intro rfl
    exact hpath

/-! ## Section 2: Moves and renames -/

/-- The calls that leave the entry `n`, which is committed, under `p`. -/
def StoreOp.Relocates (op : StoreOp) (es : VFSEntryStore) (n : VFSNode) (p : FolderRef) : Prop :=
  match op with
  | .rename_file f _ => n = .file f ∧ es.parentOf n = some p
  | .rename_folder d _ => n = .folder d ∧ es.parentOf n = some p
  | .move_file f new_parent => n = .file f ∧ p = new_parent
  | .move_folder d new_parent => n = .folder d ∧ p = new_parent
  | _ => False

/-- The subtree of `n` has moved from `old` to `new`. What is committed, the data of files
    and the stored bytes are as before. -/
structure Relocated (s s' : VFS) (n : VFSNode) (old new : List (List Byte)) : Prop where
  /-- Paths below the entry are re-rooted, and all others are kept. -/
  paths : Rerooted s.entry_store.tree s'.entry_store.tree (.folder .root) n old new
  /-- No entry appears or is lost. -/
  committed_iff : ∀ e, s'.entry_store.committed e ↔ s.entry_store.committed e
  /-- Files keep their extents and sizes. -/
  data : ∀ f, s.entry_store.committed (.file f) →
    SameData (s.entry_store.files f) (s'.entry_store.files f)
  /-- No byte or mark of the disk is touched. -/
  storage_eq : s'.storage_man = s.storage_man

/-- A successful call is an edit of the tree. -/
theorem relocation_sat (ht : FolderTree s.entry_store) (hin : op.inStore s.entry_store)
    (hn : s.entry_store.committed n) (hop : op.Relocates s.entry_store n p) :
    (op.exec s).Sat
      (fun _ s' => Edited s.entry_store s'.entry_store n p ∧
        s'.entry_store.nameOf n = op.newName s.entry_store n ∧ s'.storage_man = s.storage_man)
      (fun _ _ => True) (fun _ => True) := by
  cases op with
  | rename_file f name =>
    obtain ⟨rfl, hp⟩ := hop
    apply zoom_sat
    by_cases hlen : name.length < MAX_NAME_LENGTH
    · refine (rename_file_sat ht hn hlen).mono ?_ (fun _ _ _ => trivial) (fun _ _ => trivial)
      intro _ es' ⟨_, ⟨q, hq, hedit⟩, hname⟩
      rw [hp] at hq
      cases hq
      exact ⟨hedit, hname, rfl⟩
    · -- a longer name does not come to a normal end
      refine (rename_file_long ht hn (Nat.le_of_not_lt hlen)).mono ?_ (fun _ _ _ => trivial)
        (fun _ _ => trivial)
      exact fun _ _ hF => hF.elim
  | rename_folder d name =>
    obtain ⟨rfl, hp⟩ := hop
    apply zoom_sat
    refine (rename_folder_sat ht hn name).mono ?_ (fun _ _ _ => trivial) (fun _ _ => trivial)
    intro _ es' ⟨_, ⟨q, hq, hedit⟩, hname⟩
    rw [hp] at hq
    cases hq
    exact ⟨hedit, hname, rfl⟩
  | move_file f new_parent =>
    obtain ⟨rfl, rfl⟩ := hop
    apply zoom_sat
    refine (move_file_sat ht hn hin.2).mono ?_ (fun _ _ _ => trivial) (fun _ hF => hF.elim)
    exact fun _ es' ⟨_, hedit, hname⟩ => ⟨hedit, hname, rfl⟩
  | move_folder d new_parent =>
    obtain ⟨rfl, rfl⟩ := hop
    apply zoom_sat
    refine (move_folder_sat ht hn hin.2).mono ?_ (fun _ _ _ => trivial) (fun _ hF => hF.elim)
    exact fun _ es' ⟨_, hedit, hname⟩ => ⟨hedit, hname, rfl⟩
  | _ => exact hop.elim

/-- An edit of a committed entry re-roots its subtree. -/
theorem Edited.rerooted {es' : VFSEntryStore} {q : FolderRef} {k : List (List Byte)}
    (h : Edited es es' n p) (ht : FolderTree es) (hn : es.committed n)
    (hq : es.parentOf n = some q) (hk : es.PathTo (.folder q) k) (hl : es.PathTo (.folder p) l) :
    Rerooted es.tree es'.tree (.folder .root) n (k ++ [es.nameOf n]) (l ++ [es'.nameOf n]) := by
  rw [h.tree_eq]
  exact rerooted_update ht.wellFormed (tree_of_committed hn hq) hk hl h.no_cycle

/-- **Re-rooting.** After a successful move or rename of `n` the paths that went through its
    old parent and its old name go through the new ones, and nothing else has changed. -/
theorem relocation_reroots (ht : FolderTree s.entry_store) (hin : op.inStore s.entry_store)
    (hn : s.entry_store.committed n) (hop : op.Relocates s.entry_store n p)
    (h : op.exec s = .ok () s') :
    ∃ q k l, s.entry_store.parentOf n = some q ∧ s.entry_store.PathTo (.folder q) k ∧
      s.entry_store.PathTo (.folder p) l ∧
      Relocated s s' n (k ++ [s.entry_store.nameOf n]) (l ++ [op.newName s.entry_store n]) := by
  have hsat := relocation_sat ht hin hn hop
  rw [h] at hsat
  obtain ⟨hedit, hname, hstorage⟩ := hsat
  -- The paths of the old and of the new parent, both taken in the store before the step.
  obtain ⟨q, hq, hlive, _⟩ := ht.linked n hn
  obtain ⟨k, hk⟩ := ht.exists_path hlive
  obtain ⟨l, hl⟩ := ht.exists_path hedit.parent_live
  refine ⟨q, k, l, hq, hk, hl, ?_⟩
  constructor
  case paths =>
    rw [← hname]
    exact hedit.rerooted ht hn hq hk hl
  case committed_iff =>
    intro e
    rw [hedit.put.committed_iff]
    constructor
    · intro he
      rcases he with he | rfl
      · exact he
      · exact hn
    · exact Or.inl
  case data => exact hedit.data
  case storage_eq => exact hstorage

/-- A folder with a file in it is moved under the folder next to it. -/
theorem relocation_reroots_run :
    ∃ s, runStore
      [.vfs_sub_folder_init [97] .root, .vfs_sub_folder_init [98] .root,
        .vfs_sub_file_init [99] (.slot 0)] = some s ∧
      ∃ s', (StoreOp.move_folder (.slot 0) (.slot 1)).exec s = .ok () s' ∧
        ∃ q k l, s.entry_store.parentOf (.folder (.slot 0)) = some q ∧
          s.entry_store.PathTo (.folder q) k ∧ s.entry_store.PathTo (.folder (.slot 1)) l ∧
          Relocated s s' (.folder (.slot 0)) (k ++ [s.entry_store.nameOf (.folder (.slot 0))])
            (l ++ [s.entry_store.nameOf (.folder (.slot 0))]) := by
  refine exists_of_run
    (Q := fun s => (StoreOp.move_folder (.slot 0) (.slot 1)).inStore s.entry_store ∧
      s.entry_store.committed (.folder (.slot 0)) ∧
      ((StoreOp.move_folder (.slot 0) (.slot 1)).exec s).succeeded = true)
    (by decide +kernel) fun s hs ⟨hin, hn, hsucc⟩ => ?_
  obtain ⟨_, s', h⟩ := exists_of_succeeded hsucc
  have ht := folderTree_of_runStore hs
  exact ⟨s', h, relocation_reroots ht hin hn ⟨rfl, rfl⟩ h⟩

end VirtualFS
