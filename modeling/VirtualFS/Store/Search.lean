import Mathlib.Data.Set.Card
import VirtualFS.Store.Reachable

/-! # Flat Search

    `global_search_nodes_by_name` scans the arrays of the store and their
    allocation maps. In a folder tree the committed positions are the entries
    that a traversal from the root meets, so the scan finds what the traversal
    finds.

    * `VFSEntryStore.namesakes`: the hits of the scan, in the order of the arrays.
    * `VFSEntryStore.linkedWithName`: what a traversal of the tree finds.
    * `SearchAgrees`: the result of the search in terms of the traversal, when the
      buffer is large enough and when it is not.
    * `global_search_agrees`: it holds in every reachable store.
-/

namespace VirtualFS

open Framework ParentMap VFSEntryStore

variable {es : VFSEntryStore} {s : VFS} {n : VFSNode} {p r : FolderRef} {name : List Byte}
  {limit : Nat}

/-! ## Section 1: The scan -/

section loop

variable {k : Nat} (map : Nat → Bool) (name_of : Nat → CharBuf k) (node_of : Nat → VFSNode)
  (name : List Byte)

/-- The nodes of the marked positions with the name, in the order of the scan. -/
def hits (positions : List Nat) : List VFSNode :=
  (positions.filter fun i => map i && decide ((name_of i).str = cutAtNul name)).map node_of

variable {map name_of node_of name}

/-- A position that is not marked, or has another name, is no hit. -/
theorem hits_cons_of_neg {i : Nat} {positions : List Nat}
    (h : ¬ (map i = true ∧ (name_of i).str = cutAtNul name)) :
    hits map name_of node_of name (i :: positions) =
      hits map name_of node_of name positions := by
  unfold hits
  rw [List.filter_cons_of_neg]
  simpa using h

/-- A marked position with the name is a hit. -/
theorem hits_cons_of_pos {i : Nat} {positions : List Nat} (hi : map i = true)
    (heq : (name_of i).str = cutAtNul name) :
    hits map name_of node_of name (i :: positions) =
      node_of i :: hits map name_of node_of name positions := by
  unfold hits
  rw [List.filter_cons_of_pos, List.map_cons]
  simp [hi, heq]

/-- The hits are the marked positions with the name. -/
theorem mem_hits {positions : List Nat} :
    n ∈ hits map name_of node_of name positions ↔
      ∃ i ∈ positions, map i = true ∧ (name_of i).str = cutAtNul name ∧ node_of i = n := by
  unfold hits
  simp only [List.mem_map, List.mem_filter, Bool.and_eq_true, decide_eq_true_eq, and_assoc]

/-- The loop adds the hits behind what has been found, as far as the buffer has room. -/
theorem global_search_loop_eq (hne : name ≠ []) (positions : List Nat) {found : List VFSNode}
    (hfound : found.length ≤ limit) :
    global_search_loop map name_of node_of name limit positions found =
      (if (found ++ hits map name_of node_of name positions).length ≤ limit then .SUCCESS
        else .DATA_OVER_FLOW,
        (found ++ hits map name_of node_of name positions).take limit) := by
  induction positions generalizing found with
  | nil =>
    show (StatusCode.SUCCESS, found) = _
    rw [show hits map name_of node_of name [] = [] from rfl, List.append_nil, if_pos hfound,
      List.take_of_length_le hfound]
  | cons i positions ih =>
    unfold global_search_loop
    by_cases hi : map i = true
    · rw [if_neg (by simp [hi]), name_eq_of_ne_nil _ hne]
      by_cases heq : (name_of i).str = cutAtNul name
      · rw [hits_cons_of_pos hi heq, decide_eq_true heq]
        by_cases hfull : found.length ≥ limit
        · -- the buffer is full
          have hlen : found.length = limit := Nat.le_antisymm hfound hfull
          have hover : ¬ (found ++ node_of i ::
              hits map name_of node_of name positions).length ≤ limit := by
            rw [List.length_append, List.length_cons]
            omega
          show (if found.length ≥ limit then (StatusCode.DATA_OVER_FLOW, found) else _) = _
          rw [if_pos hfull, if_neg hover, List.take_left' hlen]
        · show (if found.length ≥ limit then (StatusCode.DATA_OVER_FLOW, found) else _) = _
          rw [if_neg hfull, ih (by rw [List.length_append, List.length_singleton]; omega),
            List.append_assoc, List.singleton_append]
      · rw [hits_cons_of_neg fun h => heq h.2, decide_eq_false heq]
        exact ih hfound
    · rw [if_pos (by simpa using hi), hits_cons_of_neg fun h => hi h.1]
      exact ih hfound

end loop

/-- All files and folders with the name, in the order of the scan. -/
def VFSEntryStore.namesakes (es : VFSEntryStore) (name : List Byte) : List VFSNode :=
  hits es.files_allocation_map es.fileName .file name (List.range VFS_MAX_FILES_AMOUNT) ++
    hits es.folders_allocation_map (fun i => es.folderName (.slot i))
      (fun i => .folder (.slot i)) name (List.range VFS_MAX_FOLDERS_AMOUNT)

/-- **The scan** returns the first entries with the name, and whether these are all. -/
theorem global_search_eq (hne : name ≠ []) (hlimit : 0 < limit) :
    global_search_nodes_by_name es name limit =
      (if (es.namesakes name).length ≤ limit then .SUCCESS else .DATA_OVER_FLOW,
        (es.namesakes name).take limit) := by
  have hlen : ¬ name.length = 0 := fun h => hne (List.length_eq_zero_iff.mp h)
  unfold global_search_nodes_by_name VFSEntryStore.namesakes
  rw [if_neg (by omega), if_neg hlen, global_search_loop_eq hne _ (Nat.zero_le _),
    List.nil_append]
  generalize hits es.files_allocation_map es.fileName .file name
    (List.range VFS_MAX_FILES_AMOUNT) = files
  by_cases hfiles : files.length ≤ limit
  · rw [if_pos hfiles, List.take_of_length_le hfiles]
    exact global_search_loop_eq hne _ hfiles
  · -- the files alone fill the buffer
    have hover : ∀ folders : List VFSNode, ¬ (files ++ folders).length ≤ limit := by
      intro folders
      rw [List.length_append]
      omega
    rw [if_neg hfiles, if_neg (hover _), List.take_append_of_le_length (by omega)]

/-- The scan finds the committed entries of that name. -/
theorem mem_namesakes :
    n ∈ es.namesakes name ↔ es.committed n ∧ es.nameOf n = cutAtNul name := by
  unfold VFSEntryStore.namesakes
  rw [List.mem_append, mem_hits, mem_hits]
  -- a file is found by the first loop, a folder of the array by the second one, the root by none
  match n with
  | .file f =>
    constructor
    · rintro (⟨i, hi, hmap, heq, hnode⟩ | ⟨i, _, _, _, hnode⟩)
      · cases hnode
        exact ⟨⟨List.mem_range.mp hi, hmap⟩, heq⟩
      · cases hnode
    · intro ⟨hf, heq⟩
      exact Or.inl ⟨f, List.mem_range.mpr hf.1, hf.2, heq, rfl⟩
  | .folder .root =>
    constructor
    · rintro (⟨i, _, _, _, hnode⟩ | ⟨i, _, _, _, hnode⟩) <;> cases hnode
    · exact fun h => h.1.elim
  | .folder (.slot i) =>
    constructor
    · rintro (⟨j, _, _, _, hnode⟩ | ⟨j, hj, hmap, heq, hnode⟩)
      · cases hnode
      · cases hnode
        exact ⟨⟨List.mem_range.mp hj, hmap⟩, heq⟩
    · intro ⟨hd, heq⟩
      exact Or.inr ⟨i, List.mem_range.mpr hd.1, hd.2, heq, rfl⟩

/-- No entry is found twice. -/
theorem nodup_namesakes (es : VFSEntryStore) (name : List Byte) :
    (es.namesakes name).Nodup := by
  unfold VFSEntryStore.namesakes hits
  refine List.nodup_append.mpr ⟨?files, ?folders, ?disjoint⟩
  case files =>
    exact (List.nodup_range.filter _).map fun _ _ h => VFSNode.file.inj h
  case folders =>
    exact (List.nodup_range.filter _).map
      fun _ _ h => FolderRef.slot.inj (VFSNode.folder.inj h)
  case disjoint =>
    intro a ha b hb
    obtain ⟨i, _, rfl⟩ := List.mem_map.mp ha
    obtain ⟨j, _, rfl⟩ := List.mem_map.mp hb
    exact VFSNode.noConfusion

/-! ## Section 2: The traversal -/

/-- Reachable from the root through the slots of folders. -/
inductive VFSEntryStore.Linked (es : VFSEntryStore) : VFSNode → Prop where
  | top  : ∀ {n}, n ∈ es.children .root → Linked es n
  | down : ∀ {r n}, Linked es (.folder r) → n ∈ es.children r → Linked es n

/-- A traversal meets what is committed. -/
theorem FolderTree.linked_iff (ht : FolderTree es) : es.Linked n ↔ es.committed n := by
  constructor
  · intro h
    induction h with
    | top hmem => exact (ht.children_committed _ live_root _ hmem).1
    | down _ hmem ih => exact (ht.children_committed _ ih.live _ hmem).1
  · intro hn
    obtain ⟨l, hl⟩ := ht.rooted n hn
    -- along the path from the root
    induction hl with
    | nil => exact absurd rfl hn.ne_root
    | child hT _ ih =>
      obtain ⟨_, r, hr, rfl, _⟩ := tree_eq_some.mp hT
      have hmem := ht.mem_children_parent hn hr
      rcases ht.parent_live hn hr with rfl | hlive
      · exact Linked.top hmem
      · exact Linked.down (ih hlive) hmem

/-- What a search for the name should find. -/
def VFSEntryStore.linkedWithName (es : VFSEntryStore) (name : List Byte) : Set VFSNode :=
  {n | es.Linked n ∧ es.nameOf n = cutAtNul name}

/-- In a tree these are the entries that can be reached from the root. -/
theorem FolderTree.mem_namesakes_iff (ht : FolderTree es) :
    n ∈ es.namesakes name ↔ n ∈ es.linkedWithName name := by
  rw [mem_namesakes, ← ht.linked_iff]
  rfl

/-- The set that a traversal finds is the list that the scan finds. -/
theorem FolderTree.linkedWithName_eq (ht : FolderTree es) (name : List Byte) :
    es.linkedWithName name = ↑(es.namesakes name).toFinset := by
  ext n
  rw [← ht.mem_namesakes_iff, Finset.mem_coe, List.mem_toFinset]

/-- So they have the same number of elements. -/
theorem FolderTree.ncard_linkedWithName (ht : FolderTree es) (name : List Byte) :
    (es.linkedWithName name).ncard = (es.namesakes name).length := by
  rw [ht.linkedWithName_eq, Set.ncard_coe_finset,
    List.toFinset_card_of_nodup (nodup_namesakes es name)]

/-! ## Section 3: Agreement -/

/-- The search with a buffer of `limit` nodes finds what is linked under the name. -/
structure SearchAgrees (es : VFSEntryStore) (name : List Byte) (limit : Nat) : Prop where
  /-- There are finitely many entries of the name. -/
  finite : (es.linkedWithName name).Finite
  /-- The search succeeds if the buffer has room for all of them. -/
  success_iff : (global_search_nodes_by_name es name limit).1 = .SUCCESS ↔
    (es.linkedWithName name).ncard ≤ limit
  /-- Then the buffer lists them, each once. -/
  all_found : (es.linkedWithName name).ncard ≤ limit →
    (global_search_nodes_by_name es name limit).2.Nodup ∧
      ∀ n, n ∈ (global_search_nodes_by_name es name limit).2 ↔ n ∈ es.linkedWithName name
  /-- Otherwise it is full of different ones. -/
  overflow : limit < (es.linkedWithName name).ncard →
    (global_search_nodes_by_name es name limit).1 = .DATA_OVER_FLOW ∧
      (global_search_nodes_by_name es name limit).2.length = limit ∧
      (global_search_nodes_by_name es name limit).2.Nodup ∧
      ∀ n ∈ (global_search_nodes_by_name es name limit).2, n ∈ es.linkedWithName name

/-- The result of the search in any folder tree. -/
theorem FolderTree.searchAgrees (ht : FolderTree es) (hne : name ≠ []) (hlimit : 0 < limit) :
    SearchAgrees es name limit := by
  have hsearch : global_search_nodes_by_name es name limit = _ := global_search_eq hne hlimit
  -- All namesakes are linked, so their number decides between the two results.
  have hcard := ht.ncard_linkedWithName name
  constructor
  case finite =>
    rw [ht.linkedWithName_eq]
    exact Finset.finite_toSet _
  case success_iff =>
    rw [hsearch, hcard]
    show (if _ then _ else _) = _ ↔ _
    split
    · next hle => exact iff_of_true rfl hle
    · next hlt => exact iff_of_false (fun h => by cases h) hlt
  case all_found =>
    intro hle
    rw [hcard] at hle
    rw [hsearch, List.take_of_length_le hle]
    exact ⟨nodup_namesakes es name, fun n => ht.mem_namesakes_iff⟩
  case overflow =>
    intro hlt
    rw [hcard] at hlt
    rw [hsearch, if_neg (Nat.not_le.mpr hlt)]
    refine ⟨rfl, List.length_take_of_le hlt.le, ?_, fun n hn => ?_⟩
    · exact (nodup_namesakes es name).sublist (List.take_sublist ..)
    · exact ht.mem_namesakes_iff.mp (List.mem_of_mem_take hn)

/-- **Flat search agrees with the tree** in every run. -/
theorem global_search_agrees (h : treeSystem.Reachable s) (hne : name ≠ [])
    (hlimit : 0 < limit) : SearchAgrees s.entry_store name limit :=
  (treeSystem_sound h).tree.searchAgrees hne hlimit

/-- A slot that was used before, and the same name in two folders. -/
theorem global_search_agrees_run :
    ∃ s, runStore
      [.vfs_sub_folder_init [97] .root, .vfs_sub_file_init [98] .root, .delete_vfs_file 0,
        .vfs_sub_file_init [99] .root, .vfs_sub_folder_init [99] (.slot 0)] = some s ∧
      (global_search_nodes_by_name s.entry_store [99, 0, 100] 1).1 = .DATA_OVER_FLOW ∧
      SearchAgrees s.entry_store [99, 0, 100] 1 := by
  refine exists_of_run
    (Q := fun s => (global_search_nodes_by_name s.entry_store [99, 0, 100] 1).1 =
      .DATA_OVER_FLOW) (by decide +kernel) fun s hs hstatus => ⟨hstatus, ?_⟩
  exact global_search_agrees (treeSystem_of_storeSystem (storeSystem_of_runStore hs))
    (by decide) (by decide)

end VirtualFS
