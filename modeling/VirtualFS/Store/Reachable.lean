import VirtualFS.Disk.Contents
import VirtualFS.Store.System

/-! # Reachable Stores

    What holds after every run of the store: the folder tree invariant, and
    with a storage manager that starts empty the disk ownership invariant,
    stated here by positions in the arrays. An operation on one file leaves
    the data of the others alone.

    * `folder_tree_invariant`: the tree, after runs that end in any statuses.
    * `disk_invariant`: the chunks, after runs from an initialised system.
    * `file_isolation`: an operation that spares a file keeps its content, its
      size and its extents, whether it succeeds or fails.
-/

namespace VirtualFS

open Framework Prog Outcome ParentMap VFSEntryStore

variable {s s' : VFS} {es es' : VFSEntryStore} {n : VFSNode} {f g : FileRef} {r d : FolderRef}
  {c i j : Nat}

/-! ## Section 1: Start-up -/

/-- A store with nothing but a root. -/
structure NoEntries (es : VFSEntryStore) : Prop where
  root_is_root : es.root.is_root = true
  root_parent : es.root.parent_folder = none
  root_children : es.children .root = []
  none_committed : ∀ n, ¬ es.committed n

/-- An initialised store has no entries. -/
theorem NoEntries.of_init (h : vfs_entry_store_init es = .ok () es') : NoEntries es' := by
  have hlen : ¬ root_name.length > MAX_NAME_LENGTH := by decide
  obtain ⟨name, hname⟩ : ∃ name, es.root.name.write 0 (root_name ++ [0]) = some name :=
    CharBuf.write_isSome (by decide)
  simp only [vfs_entry_store_init, root_folder_init, bind_run, modifyState_run, bind_ok,
    readState_run, hlen, if_false, hname, ok.injEq, true_and] at h
  subst h
  constructor
  case root_is_root => rfl
  case root_parent => rfl
  case root_children => exact children_eq_nil (fun i hi => if_pos hi) (fun i hi => if_pos hi)
  case none_committed =>
    rintro (f | _ | i)
    · intro ⟨hf, hmap⟩
      simp [hf] at hmap
    · exact id
    · intro ⟨hi, hmap⟩
      simp [hi] at hmap

/-- A store without entries is a tree. -/
theorem NoEntries.folderTree (h : NoEntries es) : FolderTree es where
  root_is_root := h.root_is_root
  root_parent := h.root_parent
  not_root := fun i hi => absurd hi (h.none_committed _)
  linked := fun n hn => absurd hn (h.none_committed n)
  children_committed := by
    rintro r (rfl | hr) n hn
    · rw [h.root_children] at hn
      cases hn
    · exact absurd hr (h.none_committed _)
  rooted := fun n hn => absurd hn (h.none_committed n)
  names_distinct := by
    rintro r (rfl | hr) m hm
    · rw [h.root_children] at hm
      cases hm
    · exact absurd hr (h.none_committed _)
  names_acceptable := fun n hn => absurd hn (h.none_committed n)
  names_terminated := fun n hn => absurd hn (h.none_committed n)

/-- It satisfies all invariants of the tree and its files. -/
theorem NoEntries.sound (h : NoEntries s.entry_store) : Sound s where
  tree := h.folderTree
  chunks :=
    { file_ok := fun _ hf => absurd hf (h.none_committed _)
      allocated := fun _ hf => absurd hf (h.none_committed _)
      disjoint := fun _ _ hf => absurd hf (h.none_committed _) }

theorem NoEntries.onEntryStore (h : onEntryStore vfs_entry_store_init s = .ok () s') :
    NoEntries s'.entry_store ∧ s'.storage_man = s.storage_man := by
  unfold VirtualFS.onEntryStore at h
  rw [zoom_run] at h
  obtain ⟨es', hinit, hs'⟩ := exists_of_mapState h
  subst hs'
  exact ⟨NoEntries.of_init hinit, rfl⟩

/-- A storage manager whose chunks are all free. -/
structure AllFree (sm : StorageMan) : Prop where
  none_allocated : ∀ c, c < CHUNKS_AMOUNT → sm.allocation_map c = false
  free_count : sm.CountOk

/-- An initialised disk is free. -/
theorem AllFree.of_init {sm sm' : StorageMan} {storage : Nat → Byte} {map : Nat → Bool}
    {size : Nat} (h : storage_man_init storage STORAGE_SIZE map size sm = .ok () sm') :
    AllFree sm' :=
  ⟨fun _ hc => none_allocated_of_init h hc, (countOk_of_init h).mpr rfl⟩

/-- The initial states have neither entries nor allocated chunks. -/
theorem SystemInitialised.empty (h : SystemInitialised s) :
    NoEntries s.entry_store ∧ AllFree s.storage_man := by
  obtain ⟨memory, storage, map, size, hrun⟩ := h
  unfold system_init onStorageMan at hrun
  rw [bind_run, zoom_run] at hrun
  obtain ⟨_, s₁, hstorage, hstore⟩ := exists_of_bind hrun
  obtain ⟨sm, hinit, hs₁⟩ := exists_of_mapState hstorage
  obtain ⟨hempty, hman⟩ := NoEntries.onEntryStore hstore
  subst hs₁
  rw [hman]
  exact ⟨hempty, AllFree.of_init hinit⟩

/-! ## Section 2: The invariants of all runs -/

/-- The invariants hold after every run. -/
theorem treeSystem_sound (h : treeSystem.Reachable s) : Sound s := by
  refine h.invariant ?_ ?_
  · intro s ⟨memory, hrun⟩
    exact (NoEntries.onEntryStore hrun).1.sound
  · intro s op s' _ hs ⟨hadm, hfinal⟩
    exact (StoreOp.exec_step hs hadm.1 hfinal).sound hs

/-- On a free disk nothing is owned and nothing allocated. -/
theorem NoEntries.ownership (h : NoEntries s.entry_store) (hfree : AllFree s.storage_man) :
    Ownership s where
  toChunksOwned := h.sound.chunks
  owned := by
    intro c hc hmap
    rw [hfree.none_allocated c hc] at hmap
    cases hmap
  free_count := hfree.free_count

/-- With its storage manager the disk is in order as well. -/
theorem storeSystem_sound (h : storeSystem.Reachable s) : Sound s ∧ Ownership s := by
  refine h.invariant (I := fun s => Sound s ∧ Ownership s) ?_ ?_
  · intro s hinit
    obtain ⟨hempty, hfree⟩ := SystemInitialised.empty hinit
    exact ⟨hempty.sound, hempty.ownership hfree⟩
  · intro s op s' _ ⟨hs, ho⟩ ⟨hadm, hfinal⟩
    have hstep := StoreOp.exec_step hs hadm.1 hfinal
    exact ⟨hstep.sound hs, hstep.ownership hs ho⟩

/-- A store with its storage manager is a store. -/
theorem treeSystem_of_storeSystem (h : storeSystem.Reachable s) : treeSystem.Reachable s := by
  refine h.simulates (f := id) ?_ ?_
  · intro s ⟨memory, storage, map, size, hrun⟩
    unfold system_init at hrun
    obtain ⟨_, s₁, _, hstore⟩ := exists_of_bind hrun
    exact System.Reachable.init ⟨s₁, hstore⟩
  · exact fun s op s' _ _ hstep => Or.inr ⟨op, hstep⟩

/-- What a computed run ends in is reachable. -/
theorem storeSystem_of_runStore {ops : List StoreOp} (h : runStore ops = some s) :
    storeSystem.Reachable s := by
  obtain ⟨s₀, hinit, hrun⟩ := Option.bind_eq_some_iff.mp h
  refine (Prog.steps_of_runAll hrun).reachable (System.Reachable.init ?_)
  refine ⟨VFS.zeroed, fun _ => 0, fun _ => false, CHUNKS_AMOUNT, ?_⟩
  have hok : system_init (fun _ => 0) (fun _ => false) CHUNKS_AMOUNT VFS.zeroed = .ok () s₀ := by
    cases hinit
    rfl
  exact hok

theorem folderTree_of_runStore {ops : List StoreOp} (h : runStore ops = some s) :
    FolderTree s.entry_store :=
  (treeSystem_sound (treeSystem_of_storeSystem (storeSystem_of_runStore h))).tree

theorem diskInvariant_of_runStore {ops : List StoreOp} (h : runStore ops = some s) :
    DiskInvariant s :=
  (storeSystem_sound (storeSystem_of_runStore h)).2.diskInvariant

/-- **Folder tree invariant** of every run, over any storage manager. -/
theorem folder_tree_invariant (h : treeSystem.Reachable s) : FolderTree s.entry_store :=
  (treeSystem_sound h).tree

/-- Entries are created, moved below each other, renamed and deleted in turn. -/
theorem folder_tree_invariant_run :
    ∃ s, runStore
      [.vfs_sub_folder_init [97] .root, .vfs_sub_folder_init [98] (.slot 0),
        .vfs_sub_file_init [99] (.slot 1), .move_folder (.slot 0) (.slot 1),
        .rename_folder (.slot 1) [100], .move_folder (.slot 1) .root,
        .delete_vfs_folder (.slot 0) true, .delete_vfs_folder .root true] = some s ∧
      FolderTree s.entry_store := by
  refine exists_of_run (Q := fun _ => True) (by decide +kernel) fun s hs _ => ?_
  exact folder_tree_invariant (treeSystem_of_storeSystem (storeSystem_of_runStore hs))

/-- **Disk ownership invariant** of every run. -/
theorem disk_invariant (h : storeSystem.Reachable s) : DiskInvariant s :=
  (storeSystem_sound h).2.diskInvariant

/-- Data is appended to two files in turn, truncated and deleted. -/
theorem disk_invariant_run :
    ∃ s, runStore
      [.vfs_sub_file_init [97] .root, .vfs_sub_file_init [98] .root,
        .file_append 0 [1, 2, 3], .file_append 1 [4, 5, 6, 7, 8, 9, 10, 11, 12],
        .file_append 0 [13], .file_truncate_by 1 9, .delete_vfs_file 0,
        .vfs_sub_file_init [99] .root, .file_append 0 [14, 15]] = some s ∧
      DiskInvariant s := by
  refine exists_of_run (Q := fun _ => True) (by decide +kernel) fun s hs _ => ?_
  exact disk_invariant (storeSystem_of_runStore hs)

/-! ## Section 3: Isolation of files -/

/-- `f` is still there with its extents, size and content. -/
structure FileKept (s s' : VFS) (f : FileRef) : Prop where
  committed : s'.entry_store.committed (.file f)
  extents : (s'.entry_store.files f).data_chunk_extents =
    (s.entry_store.files f).data_chunk_extents
  size : (s'.entry_store.files f).allocated_size = (s.entry_store.files f).allocated_size
  content : s'.content f = s.content f

/-- The operation is addressed to another file, creates an entry, or deletes a folder
    that does not contain `f`. -/
def StoreOp.Spares (es : VFSEntryStore) (f : FileRef) : StoreOp → Prop
  | rename_file g _ => g ≠ f
  | move_file g _ => g ≠ f
  | delete_vfs_file g => g ≠ f
  | delete_vfs_folder d _ => ¬ Below es.tree (.folder d) (.file f)
  | file_append g _ => g ≠ f
  | file_truncate_by g _ => g ≠ f
  | file_delete_data g => g ≠ f
  | _ => True

/-- An operation that spares a file does not touch it, nor a folder that it is in. -/
theorem StoreOp.Spares.not_touches {op : StoreOp} (h : op.Spares s.entry_store f)
    (hs : Sound s) (hin : op.inStore s.entry_store) :
    ¬ op.touches s.entry_store (.file f) := by
  cases op with
  | delete_vfs_folder d force =>
    exact fun ht => h (hs.tree.below_of_folderDeletes hin ht)
  | delete_vfs_file g => exact fun ht => h (VFSNode.file.inj ht).symm
  | file_append g data => exact fun ht => h (VFSNode.file.inj ht).symm
  | file_truncate_by g amount => exact fun ht => h (VFSNode.file.inj ht).symm
  | file_delete_data g => exact fun ht => h (VFSNode.file.inj ht).symm
  | vfs_sub_file_init name p => exact id
  | vfs_sub_folder_init name p => exact id
  | rename_file g name => exact id
  | rename_folder d name => exact id
  | move_file g p => exact id
  | move_folder d p => exact id

/-- A file that keeps its data and its bytes is kept. -/
theorem FileKept.of_sameData (hcomm : s'.entry_store.committed (.file f))
    (hdata : SameData (s.entry_store.files f) (s'.entry_store.files f))
    (hbytes : ∀ c ∈ (s.entry_store.files f).chunks,
      s'.storage_man.chunk c = s.storage_man.chunk c) : FileKept s s' f where
  committed := hcomm
  extents := hdata.2
  size := hdata.1
  content := content_congr hdata hbytes

/-- **Frame rule**: a step that does not touch a file keeps its data. -/
theorem StoreStep.fileKept {op : StoreOp} (h : StoreStep op s s') (hs : Sound s)
    (hf : s.entry_store.committed (.file f)) (hT : ¬ op.touches s.entry_store (.file f)) :
    FileKept s s' f := by
  -- By what the step does to the store: nothing, one entry put in place, the data of one other
  -- file, or a removal.
  cases h with
  | same _ hsame hm =>
    refine FileKept.of_sameData ((hsame.same.committed_iff _).mpr hf) ?_ ?_
    · rw [hsame.files_eq f hf]
      exact SameData.refl _
    · intro c _
      rw [hm]
  | edit n p _ _ _ hedit hm =>
    refine FileKept.of_sameData ((hedit.put.committed_iff _).mpr (Or.inl hf))
      (hedit.data f hf) ?_
    intro c _
    rw [hm]
  | effect g _ hg hTg heffect =>
    have hfg : f ≠ g := by
      intro rfl
      exact hT hTg
    refine FileKept.of_sameData (by rwa [heffect.committed_eq]) ?_ ?_
    · rw [heffect.files_eq hfg]
      exact SameData.refl _
    · intro c hc
      exact heffect.chunk_eq c (hs.chunks.allocated f hf c hc)
        (hs.chunks.disjoint f g hf hg hfg c hc)
  | prune _ hp =>
    have hkept := hp.prunes.kept hf hT
    refine FileKept.of_sameData hkept ?_ ?_
    · rw [(hp.prunes.same hkept).2.2 f rfl]
      exact SameData.refl _
    · intro c _
      unfold StorageMan.chunk
      rw [hp.prunes.storage_eq]

/-- **File isolation.** An operation that spares `f` has a defined end, and succeeding
    or failing it leaves the data of `f` as it was. -/
theorem file_isolation (h : storeSystem.Reachable s) (hf : s.entry_store.committed (.file f))
    {op : StoreOp} (hadm : op.admissible s) (hspares : op.Spares s.entry_store f) :
    (op.exec s).Sat (fun _ s' => FileKept s s' f) (fun _ s' => FileKept s s' f)
      (fun _ => False) := by
  have hs := (storeSystem_sound h).1
  have hT := hspares.not_touches hs hadm.1
  refine (StoreOp.exec_admissible_sat hs op hadm).mono ?_ ?_ (fun _ hF => hF)
  · exact fun _ _ hstep => hstep.fileKept hs hf hT
  · exact fun _ _ hstep => hstep.fileKept hs hf hT

/-- The neighbour on the disk is truncated. -/
theorem file_isolation_run :
    ∃ s, runStore
      [.vfs_sub_file_init [97] .root, .vfs_sub_file_init [98] .root,
        .file_append 0 [1, 2, 3], .file_append 1 [4, 5, 6, 7, 8, 9, 10, 11, 12]] = some s ∧
      ((StoreOp.file_truncate_by 1 9).exec s).Sat (fun _ s' => FileKept s s' 0)
        (fun _ s' => FileKept s s' 0) (fun _ => False) := by
  refine exists_of_run
    (Q := fun s => s.entry_store.committed (.file 0) ∧
      (StoreOp.file_truncate_by 1 9).admissible s) (by decide +kernel) fun s hs hQ => ?_
  exact file_isolation (storeSystem_of_runStore hs) hQ.1 hQ.2 Nat.one_ne_zero

end VirtualFS
