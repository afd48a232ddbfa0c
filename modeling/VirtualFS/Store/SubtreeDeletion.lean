import Mathlib.Data.Set.Card
import VirtualFS.Store.Reachable

/-! # Deleting Subtrees

    `delete_vfs_folder` with `force` on a folder that is not too deep. The
    recursion gets through, so what it deletes is the whole subtree; the slot
    of the folder and the chunks of the files in it become free, and the rest
    of the store is as before.

    * `VFS.subtreeChunks`: the chunks of the files below a folder.
    * `SubtreeDeleted`: what is gone, what is free and what is left.
    * `delete_vfs_folder_subtree`: the call succeeds with this effect.
-/

namespace VirtualFS

open Framework Prog Outcome ParentMap VFSEntryStore

variable {s s' : VFS} {es : VFSEntryStore} {n m : VFSNode} {f g : FileRef} {r d : FolderRef}
  {P : VFSNode → Prop} {c i k : Nat}

/-! ## Section 1: The whole subtree -/

/-- What is below a folder is the folder or below one of its children. -/
theorem FolderTree.below_cases (ht : FolderTree es) (hr : es.live r)
    (h : Below es.tree (.folder r) m) :
    m = .folder r ∨ ∃ n ∈ es.children r, Below es.tree n m := by
  obtain ⟨l, hl⟩ := h
  rcases hl.cases_head with ⟨hm, -⟩ | ⟨n, x, t, hn, ht', -⟩
  · exact Or.inl hm
  · -- the first step leads to a committed entry with parent `r`
    obtain ⟨hc, q, hq, heq, -⟩ := tree_eq_some.mp hn
    cases heq
    exact Or.inr ⟨n, (ht.mem_children_iff hr).mpr ⟨hc, hq⟩, t, ht'⟩

/-- A recursion that gets through deletes everything. -/
theorem FolderTree.deletes_of_below (ht : FolderTree es) (hr : es.live r) (hne : r ≠ .root)
    (hfits : es.fits k r) (h : Below es.tree (.folder r) m) : es.deletes k r m := by
  induction k generalizing r with
  | zero => exact absurd (hfits r [] PathFrom.nil) (Nat.not_lt_zero 0)
  | succ k ih =>
    have hsub := (ht.fits_succ_iff hr).mp hfits
    rcases ht.below_cases hr h with hm | ⟨n, hn, hnm⟩
    · exact Or.inr (Or.inr ⟨hm, hne, hfits⟩)
    · match n with
      | .file f =>
        obtain ⟨l, hl⟩ := hnm
        rw [(pathFrom_file hl).1]
        exact Or.inl ⟨f, rfl, hn⟩
      | .folder d =>
        have hc := (ht.children_committed r hr _ hn).1
        have hd : d ≠ .root := by
          intro heq
          exact hc.ne_root (congrArg _ heq)
        obtain ⟨i, hi, hslot⟩ := folder_mem_children.mp hn
        -- the sub-folders in earlier slots fit as well
        have hbefore : ∀ j d', j < i → (es.folderAt r).sub_folders j = some d' →
            es.fits k d' := by
          intro j d' hj hd'
          exact hsub d' (folder_mem_children.mpr ⟨j, Nat.lt_trans hj hi, hd'⟩)
        exact Or.inr (Or.inl ⟨i, d, hi, hslot, hbefore, ih hc.live hd (hsub d hn) hnm⟩)

/-- If the recursion gets through, the whole subtree is deleted. -/
theorem FolderTree.folderDeletes_iff (ht : FolderTree es) (hd : es.committed (.folder d))
    (hfits : es.fits (MAX_FOLDER_DEPTH + 1) d) :
    es.folderDeletes d true m ↔ Below es.tree (.folder d) m := by
  have hne : d ≠ .root := by
    intro heq
    exact hd.ne_root (congrArg _ heq)
  constructor
  · exact ht.below_of_folderDeletes hd.live
  · intro h
    by_cases hflat : es.children d = []
    · rcases ht.below_cases hd.live h with hm | ⟨n, hn, -⟩
      · exact Or.inl ⟨hflat, hne, hm⟩
      · rw [hflat] at hn
        cases hn
    · exact Or.inr ⟨hflat, rfl, ht.deletes_of_below hd.live hne hfits h⟩

/-! ## Section 2: Chunks of deleted files -/

/-- A chunk becomes free if and only if a file with this chunk has been deleted. -/
theorem Prunes.allocated_iff (h : Prunes P s s') (c : Nat) :
    s'.storage_man.allocation_map c = true ↔ s.storage_man.allocation_map c = true ∧
      ∀ f, s.entry_store.committed (.file f) → c ∈ (s.entry_store.files f).chunks →
        s'.entry_store.committed (.file f) := by
  induction h with
  | refl => exact ⟨fun hmap => ⟨hmap, fun _ hf _ => hf⟩, fun hmap => hmap.1⟩
  | @remove s₁ s' n hp _ hrem ih =>
    rw [hrem.allocated_iff, ih]
    have hfile : ∀ f, s₁.entry_store.committed (.file f) →
        s₁.entry_store.files f = s.entry_store.files f :=
      fun f hf => (hp.same hf).2.2 f rfl
    constructor
    · intro ⟨⟨hmap, hkept⟩, hnot⟩
      refine ⟨hmap, fun f hf hc => (hrem.out.committed_iff _).mpr ⟨hkept f hf hc, ?_⟩⟩
      intro heq
      exact hnot f heq.symm (hfile f (hkept f hf hc) ▸ hc)
    · intro ⟨hmap, hkept⟩
      refine ⟨⟨hmap, fun f hf hc => ((hrem.out.committed_iff _).mp (hkept f hf hc)).1⟩, ?_⟩
      -- a chunk of the file that is removed now is a chunk of no other file
      intro f hn hc
      have hf₁ : s₁.entry_store.committed (.file f) := hn ▸ hrem.committed
      rw [hfile f hf₁] at hc
      exact ((hrem.out.committed_iff _).mp (hkept f (hp.committed_of hf₁) hc)).2 hn.symm

/-- The chunks of the files below a folder. -/
def VFS.subtreeChunks (s : VFS) (d : FolderRef) : Set Nat :=
  {c | ∃ f, Below s.entry_store.tree (.folder d) (.file f) ∧ c ∈ (s.entry_store.files f).chunks}

/-- The count grows by the number of chunks that become free. -/
theorem free_count_of_freed {sm sm' : StorageMan} {chunks : Set Nat} (h : sm.CountOk)
    (h' : sm'.CountOk)
    (halloc : ∀ c ∈ chunks, c < CHUNKS_AMOUNT ∧ sm.allocation_map c = true)
    (hmap : ∀ c, sm'.allocation_map c = true ↔ sm.allocation_map c = true ∧ c ∉ chunks) :
    sm'.free_chunk_count = sm.free_chunk_count + chunks.ncard := by
  have hmap' : ∀ c, sm'.allocation_map c = false ↔ sm.allocation_map c = false ∨ c ∈ chunks := by
    intro c
    rw [← Bool.not_eq_true, hmap, ← Bool.not_eq_true]
    tauto
  have hsub : freeChunks sm.allocation_map ⊆ freeChunks sm'.allocation_map := by
    intro c hc
    obtain ⟨hlt, hfree⟩ := mem_freeChunks.mp hc
    exact mem_freeChunks.mpr ⟨hlt, (hmap' c).mpr (Or.inl hfree)⟩
  -- the chunks that have become free are those of `chunks`
  have hset : chunks = ↑(freeChunks sm'.allocation_map \ freeChunks sm.allocation_map) := by
    ext c
    rw [Finset.mem_coe, Finset.mem_sdiff, mem_freeChunks, mem_freeChunks, hmap']
    constructor
    · intro hc
      obtain ⟨hlt, hold⟩ := halloc c hc
      exact ⟨⟨hlt, Or.inr hc⟩, fun hfree => by rw [hold] at hfree; cases hfree.2⟩
    · rintro ⟨⟨hlt, hfree | hc⟩, hnot⟩
      · exact absurd ⟨hlt, hfree⟩ hnot
      · exact hc
  have hle := Finset.card_le_card hsub
  rw [h, h', hset, Set.ncard_coe_finset, Finset.card_sdiff_of_subset hsub]
  omega

/-! ## Section 3: Deleting a subtree -/

/-- The state after the folder `d` has been deleted with everything below it. -/
structure SubtreeDeleted (s s' : VFS) (d : FolderRef) : Prop where
  /-- Exactly the folder and what was below it have gone. -/
  committed_iff : ∀ n, s'.entry_store.committed n ↔
    s.entry_store.committed n ∧ ¬ Below s.entry_store.tree (.folder d) n
  /-- The slot of `d` in its former parent is NULL. -/
  unlinked : ∃ p i, i < MAX_SUB_FOLDERS_AMOUNT ∧
    s.entry_store.parentOf (.folder d) = some p ∧
    (s.entry_store.folderAt p).sub_folders i = some d ∧
    (s'.entry_store.folderAt p).sub_folders i = none
  /-- All other slots of the folders that stay are as before. -/
  slots_eq : ∀ r, s'.entry_store.live r → ∀ m i, i < slotsFor m →
    s.entry_store.slotAt r m i ≠ some (.folder d) →
    s'.entry_store.slotAt r m i = s.entry_store.slotAt r m i
  /-- The entries that stay keep their parents and names. -/
  parentOf_eq : ∀ n, s'.entry_store.committed n →
    s'.entry_store.parentOf n = s.entry_store.parentOf n
  nameOf_eq : ∀ n, s'.entry_store.committed n →
    s'.entry_store.nameOf n = s.entry_store.nameOf n
  /-- Files that stay keep their records and contents. -/
  files_eq : ∀ g, s'.entry_store.committed (.file g) →
    s'.entry_store.files g = s.entry_store.files g ∧ s'.content g = s.content g
  /-- Exactly the chunks of the deleted files have become free. -/
  freed : ∀ c, s'.storage_man.allocation_map c = true ↔
    s.storage_man.allocation_map c = true ∧ c ∉ s.subtreeChunks d
  /-- As many are counted as free in addition. -/
  free_count : s'.storage_man.free_chunk_count =
    s.storage_man.free_chunk_count + (s.subtreeChunks d).ncard

/-- The chunks below a folder are allocated. -/
theorem subtree_chunk (hs : Sound s) (hc : c ∈ s.subtreeChunks d) :
    c < CHUNKS_AMOUNT ∧ s.storage_man.allocation_map c = true := by
  obtain ⟨f, hf, hcf⟩ := hc
  -- an entry below `d` other than `d` is committed
  obtain ⟨p, x, hT, -⟩ := hf.cases_last (by rintro ⟨⟩)
  have hcomm := (tree_eq_some.mp hT).1
  exact ⟨(hs.chunks.file_ok f hcomm).on_disk hcf, hs.chunks.allocated f hcomm c hcf⟩

/-- What a removal of the subtree amounts to, for the store and the disk. -/
theorem subtreeDeleted_of_prunes (hs : Sound s) (ho : Ownership s)
    (hd : s.entry_store.committed (.folder d))
    (h : PrunesAll (fun n => Below s.entry_store.tree (.folder d) n) s s') :
    SubtreeDeleted s s' d := by
  have hp := h.prunes
  have hs' := hp.sound hs
  have hcomm : ∀ n, s'.entry_store.committed n ↔
      s.entry_store.committed n ∧ ¬ Below s.entry_store.tree (.folder d) n := by
    intro n
    exact ⟨fun hn => ⟨hp.committed_of hn, fun hb => h.gone n hb hn⟩, fun hn => hp.kept hn.1 hn.2⟩
  have hfreed : ∀ c, s'.storage_man.allocation_map c = true ↔
      s.storage_man.allocation_map c = true ∧ c ∉ s.subtreeChunks d := by
    intro c
    rw [hp.allocated_iff]
    refine and_congr_right fun _ => ⟨?_, ?_⟩
    · intro hkept ⟨f, hf, hc⟩
      obtain ⟨p, x, hT, -⟩ := hf.cases_last (by rintro ⟨⟩)
      exact ((hcomm _).mp (hkept f (tree_eq_some.mp hT).1 hc)).2 hf
    · intro hnot f hf hc
      exact (hcomm _).mpr ⟨hf, fun hb => hnot ⟨f, hb, hc⟩⟩
  constructor
  case committed_iff => exact hcomm
  case unlinked =>
    obtain ⟨p, hparent, hlive, -⟩ := hs.tree.linked _ hd
    have hmem := hs.tree.mem_children_parent hd hparent
    obtain ⟨i, hi, hslot⟩ := folder_mem_children.mp hmem
    have hT := hs.tree.tree_eq hlive hmem
    refine ⟨p, i, hi, hparent, hslot, ?_⟩
    have hlive' : s'.entry_store.live p :=
      hp.live_kept hlive (hs.tree.wellFormed.not_below_parent hT)
    rcases hp.slot_cases p (.folder d) i with heq | ⟨hnone, -⟩
    · -- a slot that still holds `d` would hold an entry that is gone
      rw [slotAt_folder_eq_some.mpr hslot] at heq
      exact absurd heq (hs'.slot_ne hlive' hi (h.gone _ Below.refl))
    · exact slotAt_folder_eq_none.mp hnone
  case slots_eq =>
    intro r hr m i hi hne
    rcases hp.slot_cases r m i with heq | ⟨-, n, hn, hbelow⟩
    · exact heq
    · -- an entry below `d` in a slot of `r`, which is not below `d`, would be `d`
      exfalso
      have hlive := hp.live_of hr
      have hin : n ∈ s.entry_store.children r := by
        have hkind : slotsFor n = slotsFor m ∧
            s.entry_store.slotAt r n i = s.entry_store.slotAt r m i := by
          match m with
          | .file _ =>
            obtain ⟨f, -, rfl⟩ := Option.map_eq_some_iff.mp hn
            exact ⟨rfl, rfl⟩
          | .folder _ =>
            obtain ⟨e, -, rfl⟩ := Option.map_eq_some_iff.mp hn
            exact ⟨rfl, rfl⟩
        exact mem_children_of_slotAt (hkind.1 ▸ hi) (hkind.2.trans hn)
      have hT := hs.tree.tree_eq hlive hin
      by_cases hnd : n = .folder d
      · exact hne (hnd ▸ hn)
      · have hrb := hbelow.through_parent hnd hT
        rcases hr with hroot | hc
        · -- nor is the root below `d`
          rw [hroot] at hrb
          obtain ⟨p, x, hroot', -⟩ := hrb.cases_last (Ne.symm hd.ne_root)
          rw [tree_root] at hroot'
          cases hroot'
        · exact h.gone _ hrb hc
  case parentOf_eq => exact fun n hn => (hp.same hn).1
  case nameOf_eq => exact fun n hn => (hp.same hn).2.1
  case files_eq =>
    intro g hg
    have hfile := (hp.same hg).2.2 g rfl
    refine ⟨hfile, content_congr ⟨by rw [hfile], by rw [hfile]⟩ fun c _ => ?_⟩
    exact chunk_congr fun i _ => congrFun hp.storage_eq _
  case freed => exact hfreed
  case free_count =>
    exact free_count_of_freed ho.free_count (hp.ownership hs ho).free_count
      (fun c hc => subtree_chunk hs hc) hfreed

/-- **Deleting a subtree.** If nothing lies more than `MAX_FOLDER_DEPTH` levels below the
    folder, deletion with `force` succeeds and removes the subtree and nothing else. -/
theorem delete_vfs_folder_subtree (ht : FolderTree s.entry_store) (hs : DiskInvariant s)
    (hd : s.entry_store.committed (.folder d))
    (hdepth : ∀ n l, PathFrom s.entry_store.tree (.folder d) n l → l.length ≤ MAX_FOLDER_DEPTH) :
    ∃ s', delete_vfs_folder d true s = .ok () s' ∧ SubtreeDeleted s s' d ∧
      FolderTree s'.entry_store ∧ DiskInvariant s' := by
  have hsound : Sound s := ⟨ht, hs.ownership.toChunksOwned⟩
  have hfits : s.entry_store.fits (MAX_FOLDER_DEPTH + 1) d :=
    fun e l hl => Nat.lt_succ_of_le (hdepth _ l hl)
  have hsat := delete_vfs_folder_sat hsound hd.live true
  generalize hrun : delete_vfs_folder d true s = o at hsat
  match o, hsat with
  | .ok _ s', ⟨hprunes, _, _⟩ =>
    have h := hprunes.congr fun m => (ht.folderDeletes_iff hd hfits).symm
    exact ⟨s', rfl, subtreeDeleted_of_prunes hsound hs.ownership hd h,
      (h.prunes.sound hsound).tree, (h.prunes.ownership hsound hs.ownership).diskInvariant⟩
  | .fail _ s', ⟨_, hfail⟩ =>
    -- neither the root nor a folder that is too deep
    rcases hfail with hroot | ⟨-, hforce | hdeep⟩
    · exact absurd (congrArg VFSNode.folder hroot) hd.ne_root
    · cases hforce
    · exact absurd hfits hdeep

/-- Paths from a folder whose only child is a file. -/
theorem path_length_of_single_file {l : List (List Byte)} (ht : FolderTree es) (hr : es.live r)
    (hchildren : es.children r = [.file f]) (h : PathFrom es.tree (.folder r) n l) :
    l.length ≤ 1 := by
  rcases h.cases_head with ⟨-, hl⟩ | ⟨m, x, t, hT, hpath, hl⟩
  · rw [hl]
    exact Nat.zero_le 1
  · obtain ⟨hc, q, hq, heq, -⟩ := tree_eq_some.mp hT
    cases heq
    have hm : m ∈ es.children r := (ht.mem_children_iff hr).mpr ⟨hc, hq⟩
    rw [hchildren, List.mem_singleton] at hm
    rw [hm] at hpath
    rw [hl, (pathFrom_file hpath).2]
    exact Nat.le_refl 1

/-- A folder with a file of two chunks in it. -/
theorem delete_vfs_folder_subtree_run :
    ∃ s, runStore
      [.vfs_sub_folder_init [97] .root, .vfs_sub_file_init [98] (.slot 0),
        .file_append 0 [1, 2, 3, 4, 5, 6, 7, 8, 9], .vfs_sub_file_init [99] .root,
        .file_append 1 [10]] = some s ∧
      ∃ s', delete_vfs_folder (.slot 0) true s = .ok () s' ∧ SubtreeDeleted s s' (.slot 0) ∧
        FolderTree s'.entry_store ∧ DiskInvariant s' := by
  refine exists_of_run
    (Q := fun s => s.entry_store.committed (.folder (.slot 0)) ∧
      s.entry_store.children (.slot 0) = [.file 0]) (by decide +kernel) fun s hs hQ => ?_
  have ht := folderTree_of_runStore hs
  apply delete_vfs_folder_subtree ht (diskInvariant_of_runStore hs) hQ.1
  intro n l hl
  have := path_length_of_single_file ht hQ.1.live hQ.2 hl
  exact Nat.le_trans this (by decide)

end VirtualFS
