import VirtualFS.Store.Reachable

/-! # All-or-Nothing Deletion

    When a failing `delete_vfs_folder` leaves the store as it was. The
    recursion has to fail before it deletes the first file or folder; it does
    if and only if it only meets folders without files on its way down to the
    depth limit.

    * `StoreUnchanged`: nothing that belongs to the store has changed.
    * `AllOrNothing`: the call succeeds, or it leaves the store unchanged.
    * `VFSEntryStore.deletionIsSafe`: the condition, on the shape of the folder.
    * `deletion_atomic_iff`: it is exact, in all reachable stores.
    * `deletion_not_atomic`: the root is emptied before it is refused.
-/

namespace VirtualFS

open Framework Prog Outcome ParentMap VFSEntryStore

variable {s s' : VFS} {es : VFSEntryStore} {m : VFSNode} {r d : FolderRef} {force : Bool}
  {i k : Nat}

/-! ## Section 1: Deletions that delete nothing -/

/-- Entering the first sub-folder again and again passes `k` folders without files. -/
def VFSEntryStore.descends (es : VFSEntryStore) : (k : Nat) → (r : FolderRef) → Prop
  | 0, _ => True
  | k + 1, r =>
    (∀ f, .file f ∉ es.children r) ∧
      ∃ i d, i < MAX_SUB_FOLDERS_AMOUNT ∧ (es.folderAt r).sub_folders i = some d ∧
        (∀ j, j < i → (es.folderAt r).sub_folders j = none) ∧ es.descends k d

/-- A folder in a slot is a live child. -/
theorem FolderTree.live_sub_folder (ht : FolderTree es) (hr : es.live r)
    (hi : i < MAX_SUB_FOLDERS_AMOUNT) (hd : (es.folderAt r).sub_folders i = some d) :
    .folder d ∈ es.children r ∧ es.committed (.folder d) := by
  have hmem : .folder d ∈ es.children r := folder_mem_children.mpr ⟨i, hi, hd⟩
  exact ⟨hmem, (ht.children_committed r hr _ hmem).1⟩

/-- Such a folder is too deep for `k` steps. -/
theorem FolderTree.not_fits_of_descends (ht : FolderTree es) (hr : es.live r)
    (h : es.descends k r) : ¬ es.fits k r := by
  -- Along the chain of first sub-folders, the recursion goes one level down at a time.
  induction k generalizing r with
  | zero => exact fun hf => absurd (hf r [] PathFrom.nil) (Nat.not_lt_zero _)
  | succ k ih =>
    obtain ⟨_, i, d, hi, hd, _, hdesc⟩ := h
    obtain ⟨hmem, hc⟩ := ht.live_sub_folder hr hi hd
    exact fun hf => ih hc.live hdesc ((ht.fits_succ_iff hr).mp hf d hmem)

/-- A recursion that only goes down deletes nothing. -/
theorem FolderTree.not_deletes_of_descends (ht : FolderTree es) (hr : es.live r)
    (h : es.descends k r) : ¬ es.deletes k r m := by
  induction k generalizing r with
  | zero => exact id
  | succ k ih =>
    have hdeep := ht.not_fits_of_descends hr h
    obtain ⟨hfiles, i, d, hi, hd, hfirst, hdesc⟩ := h
    have hc := (ht.live_sub_folder hr hi hd).2
    rintro (⟨f, rfl, hf⟩ | ⟨j, d', hj, hd', hbefore, hdel⟩ | ⟨_, _, hfit⟩)
    · exact hfiles f hf
    · -- the first sub-folder is the only one that is entered
      rcases Nat.lt_trichotomy i j with hij | hij | hij
      · exact ht.not_fits_of_descends hc.live hdesc (hbefore i d hij hd)
      · subst hij
        rw [hd] at hd'
        cases hd'
        exact ih hc.live hdesc hdel
      · rw [hfirst j hij] at hd'
        cases hd'
    · exact hdeep hfit

/-- The first occupied slot of sub-folders. -/
theorem first_sub_folder (hi : i < MAX_SUB_FOLDERS_AMOUNT)
    (hd : (es.folderAt r).sub_folders i = some d) :
    ∃ i d, i < MAX_SUB_FOLDERS_AMOUNT ∧ (es.folderAt r).sub_folders i = some d ∧
      ∀ j, j < i → (es.folderAt r).sub_folders j = none := by
  obtain ⟨k, hk⟩ := find_range_isSome (p := fun i => ((es.folderAt r).sub_folders i).isSome) hi
    (by simp [hd])
  obtain ⟨hkn, hsome, hnone⟩ := find_range_some hk
  obtain ⟨t, ht⟩ := Option.isSome_iff_exists.mp hsome
  exact ⟨k, t, hkn, ht, fun j hj => by simpa using hnone j hj⟩

/-- Otherwise the recursion gets to delete something. -/
theorem FolderTree.exists_deletes (ht : FolderTree es) (hr : es.live r)
    (h : ¬ es.descends k r) (hne : r ≠ .root ∨ es.children r ≠ []) : ∃ m, es.deletes k r m := by
  induction k generalizing r with
  | zero => exact absurd trivial h
  | succ k ih =>
    by_cases hfile : ∃ f, .file f ∈ es.children r
    · obtain ⟨f, hf⟩ := hfile
      exact ⟨.file f, Or.inl ⟨f, rfl, hf⟩⟩
    · by_cases hsub : ∃ i d, i < MAX_SUB_FOLDERS_AMOUNT ∧
          (es.folderAt r).sub_folders i = some d
      · obtain ⟨i, d, hi, hd⟩ := hsub
        obtain ⟨i, d, hi, hd, hfirst⟩ := first_sub_folder hi hd
        have hc := (ht.live_sub_folder hr hi hd).2
        have hdesc : ¬ es.descends k d :=
          fun hdesc => h ⟨fun f hf => hfile ⟨f, hf⟩, i, d, hi, hd, hfirst, hdesc⟩
        have hdr : d ≠ .root := fun hd => hc.ne_root (congrArg _ hd)
        obtain ⟨m, hm⟩ := ih hc.live hdesc (Or.inl hdr)
        refine ⟨m, Or.inr (Or.inl ⟨i, d, hi, hd, fun j d' hj hd' => ?_, hm⟩)⟩
        rw [hfirst j hj] at hd'
        cases hd'
      · -- a folder without children is deleted itself
        have hfolder : ∀ d, .folder d ∉ es.children r := by
          intro d hd
          obtain ⟨i, hi, hslot⟩ := folder_mem_children.mp hd
          exact hsub ⟨i, d, hi, hslot⟩
        have hnil : es.children r = [] := by
          apply List.eq_nil_iff_forall_not_mem.mpr
          intro n hn
          rcases n with f | d
          · exact hfile ⟨f, hn⟩
          · exact hfolder d hn
        have hroot : r ≠ .root := hne.resolve_right fun h => h hnil
        refine ⟨.folder r, Or.inr (Or.inr ⟨rfl, hroot, ?_⟩)⟩
        exact (ht.fits_succ_iff hr).mpr fun d hd => absurd hd (hfolder d)

/-! ## Section 2: The condition -/

/-- Maps, records of live entries and the storage manager are the same. -/
structure StoreUnchanged (s s' : VFS) : Prop where
  files_allocation_map :
    s'.entry_store.files_allocation_map = s.entry_store.files_allocation_map
  folders_allocation_map :
    s'.entry_store.folders_allocation_map = s.entry_store.folders_allocation_map
  files : ∀ f, s.entry_store.committed (.file f) →
    s'.entry_store.files f = s.entry_store.files f
  folders : ∀ r, s.entry_store.live r → s'.entry_store.folderAt r = s.entry_store.folderAt r
  storage_man : s'.storage_man = s.storage_man

theorem StoreUnchanged.refl (s : VFS) : StoreUnchanged s s :=
  ⟨rfl, rfl, fun _ _ => rfl, fun _ _ => rfl, rfl⟩

theorem StoreUnchanged.committed_iff (h : StoreUnchanged s s') :
    s'.entry_store.committed m ↔ s.entry_store.committed m := by
  rcases m with f | (_ | i)
  · simp [committed, h.files_allocation_map]
  · exact Iff.rfl
  · simp [committed, h.folders_allocation_map]

/-- If the call fails, nothing has changed. -/
def AllOrNothing (s : VFS) (r : FolderRef) (force : Bool) : Prop :=
  (delete_vfs_folder r force s).Sat (fun _ _ => True) (fun _ s' => StoreUnchanged s s')
    (fun _ => False)

/-- The call does not recurse; or the recursion gets through; or it reaches its depth
    limit before it meets a file or a folder without children. -/
def VFSEntryStore.deletionIsSafe (es : VFSEntryStore) (r : FolderRef) (force : Bool) : Prop :=
  force = false ∨ es.children r = [] ∨
    (r ≠ .root ∧ es.fits (MAX_FOLDER_DEPTH + 1) r) ∨ es.descends (MAX_FOLDER_DEPTH + 1) r

/-- Only committed entries are deleted. -/
theorem FolderTree.committed_of_folderDeletes (ht : FolderTree es) (hr : es.live r)
    (h : es.folderDeletes r force m) : es.committed m := by
  by_cases hm : m = .folder r
  · subst hm
    rcases hr with rfl | hc
    · exact absurd h (ht.not_folderDeletes_root live_root)
    · exact hc
  · obtain ⟨q, x, hT, _⟩ := (ht.below_of_folderDeletes hr h).cases_last hm
    exact (tree_eq_some.mp hT).1

/-- A failing call deletes nothing under the condition. -/
theorem FolderTree.not_folderDeletes_of_safe (ht : FolderTree es) (hr : es.live r)
    (h : es.deletionIsSafe r force)
    (hfail : r = .root ∨ es.children r ≠ [] ∧
      (force = false ∨ ¬ es.fits (MAX_FOLDER_DEPTH + 1) r)) : ¬ es.folderDeletes r force m := by
  rintro (⟨hflat, hne, _⟩ | ⟨hchildren, hforce, hdel⟩)
  · rcases hfail with hroot | hfail
    · exact hne hroot
    · exact hfail.1 hflat
  · rcases h with h | h | ⟨hne, hfit⟩ | hdesc
    · rw [h] at hforce
      cases hforce
    · exact hchildren h
    · rcases hfail with hroot | ⟨_, h | hdeep⟩
      · exact hne hroot
      · rw [h] at hforce
        cases hforce
      · exact hdeep hfit
    · exact ht.not_deletes_of_descends hr hdesc hdel

/-- Without the condition something is deleted. -/
theorem FolderTree.exists_folderDeletes (ht : FolderTree es) (hr : es.live r)
    (h : ¬ es.deletionIsSafe r force) : ∃ m, es.folderDeletes r force m := by
  obtain ⟨hforce, hchildren, _, hdesc⟩ :
      force = true ∧ es.children r ≠ [] ∧
        ¬ (r ≠ .root ∧ es.fits (MAX_FOLDER_DEPTH + 1) r) ∧
        ¬ es.descends (MAX_FOLDER_DEPTH + 1) r := by
    simpa [VFSEntryStore.deletionIsSafe] using h
  obtain ⟨m, hm⟩ := ht.exists_deletes hr hdesc (Or.inr hchildren)
  exact ⟨m, Or.inr ⟨hchildren, hforce, hm⟩⟩

/-- The condition, for a folder in a store that satisfies the invariants. -/
theorem allOrNothing_iff (hs : Sound s) (hr : s.entry_store.live r) (force : Bool) :
    AllOrNothing s r force ↔ s.entry_store.deletionIsSafe r force := by
  have hsat := delete_vfs_folder_sat hs hr force
  unfold AllOrNothing
  constructor
  · intro h
    by_contra hunsafe
    obtain ⟨m, hm⟩ := hs.tree.exists_folderDeletes hr hunsafe
    rcases hsat.ok_or_fail with ⟨_, s', _, _, hgone, hfit⟩ | ⟨e, s', hrun, hpruned, _⟩
    · -- a successful call meets the condition
      have hne : r ≠ .root := by
        intro rfl
        exact hgone live_root
      rcases hfit with hflat | hfit
      · exact hunsafe (Or.inr (Or.inl hflat))
      · exact hunsafe (Or.inr (Or.inr (Or.inl ⟨hne, hfit⟩)))
    · rw [hrun] at h
      exact hpruned.gone m hm
        ((StoreUnchanged.committed_iff h).mpr (hs.tree.committed_of_folderDeletes hr hm))
  · intro hsafe
    refine hsat.mono (fun _ _ _ => trivial) ?_ (fun _ hF => hF)
    intro e s' ⟨hp, hfail⟩
    rw [hp.prunes.eq_of_none fun m => hs.tree.not_folderDeletes_of_safe hr hsafe hfail]
    exact StoreUnchanged.refl s

/-! ## Section 3: Reachable stores -/

/-- **Atomic deletion.** In a reachable store a call is all-or-nothing if and only if it
    meets the condition. -/
theorem deletion_atomic_iff (h : treeSystem.Reachable s) (hr : s.entry_store.live r)
    (force : Bool) : AllOrNothing s r force ↔ s.entry_store.deletionIsSafe r force :=
  allOrNothing_iff (treeSystem_sound h) hr force

/-- Deleting a folder that holds one file. -/
theorem deletion_atomic_iff_run :
    ∃ s, runStore [.vfs_sub_folder_init [97] .root, .vfs_sub_file_init [98] (.slot 0)] =
        some s ∧
      (AllOrNothing s (.slot 0) true ↔ s.entry_store.deletionIsSafe (.slot 0) true) := by
  refine exists_of_run (Q := fun s => s.entry_store.live (.slot 0)) (by decide +kernel)
    fun s hs hlive => ?_
  exact deletion_atomic_iff (treeSystem_of_storeSystem (storeSystem_of_runStore hs)) hlive true

/-- Deleting the root with one folder in it fails after the folder has been deleted. -/
theorem deletion_not_atomic :
    ∃ s, runStore [.vfs_sub_folder_init [97] .root] = some s ∧ storeSystem.Reachable s ∧
      s.entry_store.live .root ∧
      status (delete_vfs_folder .root true s) = some .INVALID_ROOT_OPERATION ∧
      ¬ AllOrNothing s .root true := by
  refine exists_of_run
    (Q := fun s => s.entry_store.committed (.folder (.slot 0)) ∧
      status (delete_vfs_folder .root true s) = some .INVALID_ROOT_OPERATION ∧
      (delete_vfs_folder .root true s).final.map
        (fun s' => decide (s'.entry_store.committed (.folder (.slot 0)))) = some false)
    (by decide +kernel) ?_
  intro s hs ⟨hc, hstatus, hgone⟩
  refine ⟨storeSystem_of_runStore hs, live_root, hstatus, fun h => ?_⟩
  unfold AllOrNothing at h
  cases hrun : delete_vfs_folder .root true s with
  | ok a s' =>
    rw [hrun] at hstatus
    cases hstatus
  | fail e s' =>
    rw [hrun] at h hgone
    have hc' := (StoreUnchanged.committed_iff h).mpr hc
    simp [hc'] at hgone
  | fault x =>
    rw [hrun] at hstatus
    cases hstatus

end VirtualFS
