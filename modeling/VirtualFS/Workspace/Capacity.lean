import VirtualFS.Framework.Counting
import VirtualFS.Workspace.Completeness

/-! # Room as Users See It

    Whether there is room for an operation is a question about slots,
    positions and chunks. Users see none of them, but they can count: slots
    and positions run out when the tree has as many entries as there are, and
    the free chunks are what the data in the tree leaves of the disk.

    * `workspace_accepts_as_seen`: what is accepted depends on the tree only.
    * `storage_accounted`: data and free chunks make up the disk.
    * `append_accepted_of_free`: how much has to be free for an append, however
      the disk is fragmented.
-/

namespace VirtualFS

open Framework Prog Outcome ParentMap VFSEntryStore

variable {ws : Workspace} {σ σ' : FileSystem} {s : VFS} {es : VFSEntryStore} {n : VFSNode}
  {f : FileRef} {p r d : FolderRef} {l k : List (List Byte)} {x : List Byte} {path : CString}
  {op : WsOp} {reply : Reply} {levels : Nat}

/-! ## Section 1: What users can count -/

namespace FileSystem

variable (σ : FileSystem)

/-- The paths of files. -/
def filePaths : Set (List (List Byte)) := {l | ∃ data, σ.tree.item l = some (.file data)}

/-- The root does not count. -/
def folderPaths : Set (List (List Byte)) := {l | l ≠ [] ∧ σ.tree.item l = some .folder}

/-- The entries of the folder at `l` that are of the same kind as `v`. -/
def entriesIn (l : List (List Byte)) (v : Item (List Byte)) : Set (List Byte) :=
  {x | ∃ w, σ.tree.item (l ++ [x]) = some w ∧ w.isFolder = v.isFolder}

/-- How many entries of the kind a folder may have. -/
def entryLimit : Item (List Byte) → Nat
  | .file _ => MAX_SUB_FILES_AMOUNT
  | .folder => MAX_SUB_FOLDERS_AMOUNT

/-- The folder at `l` is not full. -/
def TakesEntry (l : List (List Byte)) (v : Item (List Byte)) : Prop :=
  (σ.entriesIn l v).ncard < entryLimit v

/-- Folders are less than `levels` levels below `l`. -/
def Fits (levels : Nat) (l : List (List Byte)) : Prop :=
  ∀ k, σ.tree.item (l ++ k) = some .folder → k.length < levels

/-- Files have one byte less for their name. -/
def nameLimit : Item (List Byte) → Nat
  | .file _ => MAX_NAME_LENGTH - 1
  | .folder => MAX_NAME_LENGTH

/-- What an operation needs besides being allowed; appended data also needs chunks. -/
def HasRoom : WsOp → Prop
  | .ws_create_file name =>
    name.chars.length < MAX_NAME_LENGTH ∧ σ.filePaths.ncard < VFS_MAX_FILES_AMOUNT ∧
      ∀ l, σ.cwd = some l → σ.TakesEntry l (.file [])
  | .ws_create_folder name =>
    name.chars.length ≤ MAX_NAME_LENGTH ∧ σ.folderPaths.ncard < VFS_MAX_FOLDERS_AMOUNT ∧
      ∀ l, σ.cwd = some l → σ.TakesEntry l .folder
  | .ws_remove_folder path _ => ∀ l, σ.target path = some l → σ.Fits (MAX_FOLDER_DEPTH + 1) l
  | .ws_move_node path parent_path =>
    ∀ k l v, σ.target path = some k → σ.tree.item k = some v → σ.target parent_path = some l →
      σ.TakesEntry l v ∧ (v = .folder → σ.Fits MAX_FOLDER_DEPTH k)
  | .ws_rename_node path name =>
    ∀ k v, σ.target path = some k → σ.tree.item k = some v → name.chars.length ≤ nameLimit v
  | .ws_change_cur_folder path =>
    ∀ reply σ', σ.Performs (.ws_change_cur_folder path) reply σ' →
      ∀ l, σ'.cwd = some l → l.length ≤ MAX_PATH_NODES_AMOUNT
  | .ws_global_search_by_name name length => name.chars ≠ [] ∧ 0 < length
  | _ => True

end FileSystem

/-! ## Section 2: Counting entries -/

/-- Entries have one path each. -/
theorem ncard_paths (ht : FolderTree es) {ns : List VFSNode} {S : Set (List (List Byte))}
    (hnodup : ns.Nodup) (hns : ∀ n ∈ ns, es.committed n)
    (hmem : ∀ l, l ∈ S ↔ ∃ n ∈ ns, es.PathTo n l) : S.ncard = ns.length := by
  have hpaths : ∀ n ∈ ns, ∃ l, es.PathTo n l := fun n hn => ht.rooted n (hns n hn)
  -- Nodes and their paths determine each other.
  choose! path hpath using hpaths
  rw [← List.length_map (f := path)]
  apply ncard_eq_length
  · apply hnodup.map_on
    intro m hm n hn heq
    have hm' := hpath m hm
    rw [heq] at hm'
    exact ht.wellFormed.path_inj hm' (hpath n hn)
  · intro l
    rw [hmem, List.mem_map]
    constructor
    · rintro ⟨n, hn, hl⟩
      exact ⟨n, hn, (hpath n hn).unique tree_root hl⟩
    · rintro ⟨n, hn, rfl⟩
      exact ⟨n, hn, hpath n hn⟩

/-- Positions run out with the entries that take them. -/
theorem position_iff (ht : FolderTree es) {map : Nat → Bool} {limit : Nat}
    {S : Set (List (List Byte))} (node : Nat → VFSNode) (hinj : Function.Injective node)
    (hcommitted : ∀ i, es.committed (node i) ↔ i < limit ∧ map i = true)
    (hmem : ∀ l, l ∈ S ↔ ∃ i, es.committed (node i) ∧ es.PathTo (node i) l) :
    (∃ i, i < limit ∧ map i = false) ↔ S.ncard < limit := by
  have htaken : ∀ i, i ∈ (List.range limit).filter map ↔ es.committed (node i) := by
    intro i
    rw [hcommitted, List.mem_filter, List.mem_range]
  -- Taken positions are counted by the paths of their entries.
  have hcount : S.ncard = ((List.range limit).filter map).length := by
    rw [← List.length_map (f := node)]
    apply ncard_paths ht
    · exact (List.nodup_range.filter _).map hinj
    · intro n hn
      obtain ⟨i, hi, rfl⟩ := List.mem_map.mp hn
      exact (htaken i).mp hi
    · intro l
      rw [hmem]
      constructor
      · rintro ⟨i, hi, hl⟩
        exact ⟨_, List.mem_map_of_mem ((htaken i).mpr hi), hl⟩
      · rintro ⟨n, hn, hl⟩
        obtain ⟨i, hi, rfl⟩ := List.mem_map.mp hn
        exact ⟨i, (htaken i).mp hi, hl⟩
  have hlength := List.length_filter_lt_length_iff_exists (l := List.range limit) (p := map)
  rw [List.length_range] at hlength
  rw [hcount, hlength]
  simp

/-- The entries of the folder that are of the same kind as `n`. -/
def VFSEntryStore.siblings (es : VFSEntryStore) (p : FolderRef) : VFSNode → List VFSNode
  | .file _ => (occupants MAX_SUB_FILES_AMOUNT (es.folderAt p).sub_files).map .file
  | .folder _ => (occupants MAX_SUB_FOLDERS_AMOUNT (es.folderAt p).sub_folders).map .folder

theorem siblings_sublist (es : VFSEntryStore) (p : FolderRef) (n : VFSNode) :
    (es.siblings p n).Sublist (es.children p) := by
  cases n with
  | file f => exact List.sublist_append_left _ _
  | folder d => exact List.sublist_append_right _ _

/-- The children of the same kind. -/
theorem mem_siblings {m : VFSNode} :
    m ∈ es.siblings p n ↔ m ∈ es.children p ∧ (s.itemOf m).isFolder = (s.itemOf n).isFolder := by
  unfold VFSEntryStore.siblings VFSEntryStore.children
  cases n with
  | file f => cases m with
    | file g => simp [VFS.itemOf, Item.isFolder]
    | folder d => simp [VFS.itemOf, Item.isFolder]
  | folder d => cases m with
    | file g => simp [VFS.itemOf, Item.isFolder]
    | folder c => simp [VFS.itemOf, Item.isFolder]

/-- There is a vacant slot if fewer are occupied than there are. -/
theorem vacant_iff {α : Type} (slots : Nat → Option α) (limit : Nat) :
    (∃ i, i < limit ∧ slots i = none) ↔ (occupants limit slots).length < limit := by
  have hlength : (occupants limit slots).length < (List.range limit).length ↔
      ∃ i, ∃ (_ : i ∈ List.range limit), slots i = none :=
    List.length_filterMap_lt_length_iff_exists
  rw [List.length_range] at hlength
  rw [hlength]
  simp

/-- Slots run out with the entries in them. -/
theorem hasSlot_iff_length (s : VFS) (p : FolderRef) (n : VFSNode) :
    s.entry_store.HasSlot p n ↔
      (s.entry_store.siblings p n).length < FileSystem.entryLimit (s.itemOf n) := by
  cases n with
  | file f =>
    show (∃ i, i < MAX_SUB_FILES_AMOUNT ∧ _) ↔ (List.map _ _).length < MAX_SUB_FILES_AMOUNT
    rw [List.length_map, vacant_iff]
  | folder d =>
    show (∃ i, i < MAX_SUB_FOLDERS_AMOUNT ∧ _) ↔ (List.map _ _).length < MAX_SUB_FOLDERS_AMOUNT
    rw [List.length_map, vacant_iff]

theorem siblings_length_le (s : VFS) (p : FolderRef) (n : VFSNode) :
    (s.entry_store.siblings p n).length ≤ FileSystem.entryLimit (s.itemOf n) := by
  have hslots : ∀ {α : Type} (slots : Nat → Option α) (limit : Nat),
      (occupants limit slots).length ≤ limit := by
    intro α slots limit
    exact (List.length_filterMap_le _ _).trans_eq List.length_range
  cases n with
  | file f =>
    show (List.map _ _).length ≤ MAX_SUB_FILES_AMOUNT
    rw [List.length_map]
    exact hslots _ _
  | folder d =>
    show (List.map _ _).length ≤ MAX_SUB_FOLDERS_AMOUNT
    rw [List.length_map]
    exact hslots _ _

namespace Abstracts

variable (h : Abstracts ws σ) (ht : FolderTree ws.entry_store)
include h ht

/-- A free position for a file shows in the number of files. -/
theorem hasFilePosition_iff :
    ws.entry_store.HasFilePosition ↔ σ.filePaths.ncard < VFS_MAX_FILES_AMOUNT := by
  apply position_iff ht .file (fun _ _ => VFSNode.file.inj) fun _ => Iff.rfl
  intro l
  show (∃ data, σ.tree.item l = some (.file data)) ↔ _
  rw [h.item_eq]
  constructor
  · rintro ⟨data, hdata⟩
    obtain ⟨f, hf, -⟩ := (view_file_iff ht).mp hdata
    exact ⟨f, committed_of_path_file hf, hf⟩
  · rintro ⟨f, -, hf⟩
    exact ⟨_, (view_file_iff ht).mpr ⟨f, hf, rfl⟩⟩

/-- A free position for a folder shows in the number of folders. -/
theorem hasFolderPosition_iff :
    ws.entry_store.HasFolderPosition ↔ σ.folderPaths.ncard < VFS_MAX_FOLDERS_AMOUNT := by
  apply position_iff ht (fun i => .folder (.slot i)) _ fun _ => Iff.rfl
  · intro l
    show (l ≠ [] ∧ σ.tree.item l = some .folder) ↔ _
    rw [h.item_eq, view_folder_iff ht]
    constructor
    · rintro ⟨hne, r, hr⟩
      have hc := committed_of_pathFrom hr hne
      cases r with
      | root => exact absurd rfl hc.ne_root
      | slot i => exact ⟨i, hc, hr⟩
    · rintro ⟨i, hc, hi⟩
      refine ⟨?_, _, hi⟩
      rintro rfl
      exact hc.ne_root (ht.wellFormed.path_inj hi PathFrom.nil)
  · intro i j heq
    exact FolderRef.slot.inj (VFSNode.folder.inj heq)

/-- The entries at a path are those in the slots. -/
theorem name_iff (hl : ws.entry_store.PathTo (.folder p) l) {v : Item (List Byte)} :
    σ.tree.item (l ++ [x]) = some v ↔
      ∃ n ∈ ws.entry_store.children p, ws.entry_store.nameOf n = x ∧ ws.itemOf n = v := by
  have hlive := live_of_path_folder hl
  rw [h.item_eq, view_eq_some_iff ht]
  constructor
  · rintro ⟨n, hn, hv⟩
    obtain ⟨q, hq, hpath⟩ := hn.snoc_inv
    obtain rfl := ht.wellFormed.path_inj hl hpath
    obtain ⟨hc, q', hparent, heq, hx⟩ := tree_eq_some.mp hq
    cases heq
    exact ⟨n, ht.mem_children_parent hc hparent, hx.symm, hv⟩
  · rintro ⟨n, hn, rfl, hv⟩
    exact ⟨n, hl.child (ht.tree_eq hlive hn), hv⟩

/-- The entries of a folder by their names. -/
theorem mem_entriesIn (hl : ws.entry_store.PathTo (.folder p) l) (n : VFSNode) :
    x ∈ σ.entriesIn l (ws.itemOf n) ↔
      x ∈ (ws.entry_store.siblings p n).map ws.entry_store.nameOf := by
  show (∃ w, σ.tree.item (l ++ [x]) = some w ∧ _) ↔ _
  rw [List.mem_map]
  constructor
  · rintro ⟨w, hw, hkind⟩
    obtain ⟨m, hm, hx, rfl⟩ := (h.name_iff ht hl).mp hw
    exact ⟨m, mem_siblings.mpr ⟨hm, hkind⟩, hx⟩
  · rintro ⟨m, hm, hx⟩
    obtain ⟨hchild, hkind⟩ := (mem_siblings (s := ws.toVFS)).mp hm
    exact ⟨_, (h.name_iff ht hl).mpr ⟨m, hchild, hx, rfl⟩, hkind⟩

/-- Entries of a folder have one name each. -/
theorem ncard_entriesIn (hl : ws.entry_store.PathTo (.folder p) l) (n : VFSNode) :
    (σ.entriesIn l (ws.itemOf n)).ncard = (ws.entry_store.siblings p n).length := by
  have hlive := live_of_path_folder hl
  have hsub := siblings_sublist ws.entry_store p n
  rw [← List.length_map (f := ws.entry_store.nameOf)]
  apply ncard_eq_length
  · apply (hsub.nodup (ht.children_nodup hlive)).map_on
    intro a ha b hb heq
    exact ht.names_distinct p hlive a (hsub.subset ha) b (hsub.subset hb) heq
  · exact fun x => h.mem_entriesIn ht hl n

/-- A folder is full when the tree shows as many entries of the kind. -/
theorem hasSlot_iff (hl : ws.entry_store.PathTo (.folder p) l) (n : VFSNode) :
    ws.entry_store.HasSlot p n ↔ σ.TakesEntry l (ws.itemOf n) := by
  unfold FileSystem.TakesEntry
  rw [h.ncard_entriesIn ht hl n]
  exact hasSlot_iff_length ws.toVFS p n

/-- The depth below a folder, in nodes and in paths. -/
theorem fits_iff (hl : ws.entry_store.PathTo (.folder d) l) :
    ws.entry_store.fits levels d ↔ σ.Fits levels l := by
  unfold FileSystem.Fits
  rw [h.item_eq]
  constructor
  · intro hfits k hk
    obtain ⟨r, hr⟩ := (view_folder_iff ht).mp hk
    exact hfits r k (ht.wellFormed.below_of_prefix hl hr)
  · intro hfits r k hk
    exact hfits k ((view_folder_iff ht).mpr ⟨r, hl.trans hk⟩)

end Abstracts

/-! ## Section 3: Room in the tree -/

section room

variable (h : Abstracts ws σ) (hws : WorkspaceSound ws)
include h hws

/-- **Room can be seen**: the slots and positions that are left show in the tree. -/
theorem hasRoom_iff (hallows : σ.Allows op)
    (happend : ∀ path data, op ≠ .ws_file_append path data) :
    op.HasRoom ws ↔ σ.HasRoom op := by
  have ht := hws.sound.tree
  obtain ⟨reply, σ', hp⟩ := hallows
  -- For each operation the conditions on slots, positions and depth are read at the paths of the
  -- nodes.
  cases op with
  | ws_create_file name =>
    obtain ⟨-, l, hcwd, -⟩ := hp
    show _ ∧ _ ↔ _ ∧ _ ∧ ∀ l, σ.cwd = some l → _
    simp only [hcwd, Option.some.injEq, forall_eq']
    have hslot := h.hasSlot_iff ht (h.cwd_path l hcwd) (.file 0)
    exact and_congr_right fun _ => and_congr (h.hasFilePosition_iff ht) hslot
  | ws_create_folder name =>
    obtain ⟨-, l, hcwd, -⟩ := hp
    show _ ∧ _ ↔ _ ∧ _ ∧ ∀ l, σ.cwd = some l → _
    simp only [hcwd, Option.some.injEq, forall_eq']
    have hslot := h.hasSlot_iff ht (h.cwd_path l hcwd) (.folder .root)
    exact and_congr_right fun _ => and_congr (h.hasFolderPosition_iff ht) hslot
  | ws_remove_folder path recursive =>
    obtain ⟨-, l, htarget, hitem, -⟩ := hp
    obtain ⟨d, hd⟩ := h.folder_of_item ht hitem
    have hat := folderAtPath_eq_some.mpr (h.resolves hws htarget hd)
    show (∀ d, folderAtPath ws path = some d → _) ↔ ∀ l, σ.target path = some l → _
    rw [hat, htarget]
    simp only [Option.some.injEq, forall_eq']
    exact h.fits_iff ht hd
  | ws_move_node path parent_path =>
    obtain ⟨-, k, x, l, htarget, hparent, -, hrelocate, -⟩ := hp
    obtain ⟨⟨-, hsome⟩, -, hfolder, -⟩ := FileTree.relocate_eq_some.mp hrelocate
    obtain ⟨n, hn⟩ := h.node_of_item ht hsome
    obtain ⟨p, hpl⟩ := h.folder_of_item ht hfolder
    have hres := h.resolves hws htarget hn
    have hat := folderAtPath_eq_some.mpr (h.resolves hws hparent hpl)
    have hitem : σ.tree.item (k ++ [x]) = some (ws.itemOf n) := by
      rw [h.item_eq]
      exact view_of_path ht hn
    have hkind : (∀ d, n = .folder d → ws.entry_store.fits MAX_FOLDER_DEPTH d) ↔
        (ws.itemOf n = .folder → σ.Fits MAX_FOLDER_DEPTH (k ++ [x])) := by
      cases n with
      | file f => exact iff_of_true nofun nofun
      | folder d =>
        constructor
        · exact fun hfits _ => (h.fits_iff ht hn).mp (hfits d rfl)
        · rintro hfits _ ⟨⟩
          exact (h.fits_iff ht hn).mpr (hfits rfl)
    show (∀ n p, ws_resolve_path ws path = .ok n → folderAtPath ws parent_path = some p → _) ↔
      ∀ k l v, σ.target path = some k → σ.tree.item k = some v → σ.target parent_path = some l → _
    rw [hres, hat, htarget, hparent]
    constructor
    · rintro hroom _ _ v ⟨⟩ hv ⟨⟩
      rw [hitem] at hv
      cases hv
      obtain ⟨hslot, hfits⟩ := hroom n p rfl rfl
      exact ⟨(h.hasSlot_iff ht hpl n).mp hslot, hkind.mp hfits⟩
    · rintro hroom _ _ ⟨⟩ ⟨⟩
      obtain ⟨htakes, hfits⟩ := hroom _ l _ rfl hitem rfl
      exact ⟨(h.hasSlot_iff ht hpl n).mpr htakes, hkind.mpr hfits⟩
  | ws_rename_node path name =>
    obtain ⟨-, k, x, htarget, -, hrelocate, -⟩ := hp
    obtain ⟨⟨-, hsome⟩, -⟩ := FileTree.relocate_eq_some.mp hrelocate
    obtain ⟨n, hn⟩ := h.node_of_item ht hsome
    have hres := h.resolves hws htarget hn
    have hitem : σ.tree.item (k ++ [x]) = some (ws.itemOf n) := by
      rw [h.item_eq]
      exact view_of_path ht hn
    have hlimit : n.nameLimit = FileSystem.nameLimit (ws.itemOf n) := by
      cases n with
      | file f => rfl
      | folder d => rfl
    show (∀ n, ws_resolve_path ws path = .ok n → _) ↔
      ∀ k v, σ.target path = some k → σ.tree.item k = some v → _
    rw [hres, htarget]
    constructor
    · rintro hroom _ v ⟨⟩ hv
      rw [hitem] at hv
      cases hv
      exact hlimit ▸ hroom n rfl
    · rintro hroom _ ⟨⟩
      exact hlimit ▸ hroom _ _ rfl hitem
  | ws_change_cur_folder path =>
    constructor
    · intro hroom reply' σ'' hp' l hl
      obtain ⟨r, l', hto, hr, hcwd⟩ := h.goesTo hws hp'
      rw [hl] at hcwd
      cases hcwd
      exact hroom r l hto hr
    · intro hroom r l hto hr
      obtain ⟨r', l', hto', hr', hcwd⟩ := h.goesTo hws hp
      rw [hto] at hto'
      cases hto'
      rw [hr.unique tree_root hr']
      exact hroom reply σ' hp l' hcwd
  | ws_file_append path data => exact absurd rfl (happend path data)
  | _ => exact Iff.rfl

end room

/-- **What is accepted can be foreseen.** In every state that a run can reach an operation
    other than an append succeeds exactly if it is allowed and the tree leaves room for it:
    which slots, positions and chunks are in use makes no difference. -/
theorem workspace_accepts_as_seen (h : workspaceSystem.Reachable ws) (hσ : Abstracts ws σ)
    (hin : op.InRange) (happend : ∀ path data, op ≠ .ws_file_append path data) :
    (op.exec ws).succeeded = true ↔ σ.Allows op ∧ σ.HasRoom op := by
  have hws := workspaceSystem_sound h
  have ho := workspaceSystem_ownership h
  constructor
  · intro hsucc
    have hallows := allows_of_succeeded hσ hws ho hin hsucc
    have hroom := (succeeded_of_allows hσ hws ho (safe_mode_of_reachable h) hallows).mp hsucc
    exact ⟨hallows, (hasRoom_iff hσ hws hallows happend).mp hroom⟩
  · rintro ⟨hallows, hroom⟩
    have hroom := (hasRoom_iff hσ hws hallows happend).mpr hroom
    exact (succeeded_of_allows hσ hws ho (safe_mode_of_reachable h) hallows).mpr hroom

/-- The folder was full of files, and one of them has been removed. -/
theorem workspace_accepts_as_seen_run :
    ∃ ws, runWorkspace (fun _ _ => True)
        ([97, 98, 99, 100, 101, 102, 103, 104, 105, 106].map
          (fun c => .ws_create_file (.ofBytes [c])) ++ [.ws_remove_file (.ofBytes [99])]) =
            some ws ∧
      ∃ σ, Abstracts ws σ ∧
        ((((WsOp.ws_create_file (.ofBytes [107])).exec ws).succeeded = true ↔
          σ.Allows (.ws_create_file (.ofBytes [107])) ∧
            σ.HasRoom (.ws_create_file (.ofBytes [107])))) := by
  refine exists_of_run (Q := fun _ => True) (by decide +kernel) fun ws hrun _ => ?_
  have hreach : workspaceSystem.Reachable ws := reachable_of_runWorkspace hrun
  obtain ⟨σ, hσ⟩ := exists_abstracts (workspaceSystem_sound hreach)
  exact ⟨σ, hσ, workspace_accepts_as_seen hreach hσ trivial nofun⟩

/-! ## Section 4: The disk -/

/-- The files in use, in the order of their positions. -/
def VFSEntryStore.committedFiles (es : VFSEntryStore) : List FileRef :=
  (List.range VFS_MAX_FILES_AMOUNT).filter es.files_allocation_map

theorem mem_committedFiles : f ∈ es.committedFiles ↔ es.committed (.file f) := by
  unfold VFSEntryStore.committedFiles
  rw [List.mem_filter, List.mem_range]
  exact Iff.rfl

theorem committedFiles_nodup (es : VFSEntryStore) : es.committedFiles.Nodup :=
  List.nodup_range.filter _

/-- The chunks of the files and the free ones are all there are. -/
theorem chunks_accounted (ho : Ownership s) :
    s.storage_man.free_chunk_count +
      (s.entry_store.committedFiles.map fun f => (s.entry_store.files f).chunks.length).sum =
        CHUNKS_AMOUNT := by
  rw [← List.length_flatMap]
  have hnodup : (s.entry_store.committedFiles.flatMap
      fun f => (s.entry_store.files f).chunks).Nodup := by
    rw [List.nodup_flatMap]
    constructor
    · exact fun f hf => (ho.file_ok f (mem_committedFiles.mp hf)).nodup
    · apply (committedFiles_nodup _).pairwise_of_forall_ne
      intro f hf g hg hne c hcf hcg
      exact ho.disjoint f g (mem_committedFiles.mp hf) (mem_committedFiles.mp hg) hne c hcf hcg
  -- the chunks in use are those of the files, each of one file only
  have hused : (s.entry_store.committedFiles.flatMap
      fun f => (s.entry_store.files f).chunks).toFinset =
        (Finset.range CHUNKS_AMOUNT).filter fun c => ¬ s.storage_man.allocation_map c = false := by
    ext c
    rw [List.mem_toFinset, List.mem_flatMap, Finset.mem_filter, Finset.mem_range,
      Bool.not_eq_false]
    constructor
    · rintro ⟨f, hf, hc⟩
      have hf := mem_committedFiles.mp hf
      exact ⟨(ho.file_ok f hf).on_disk hc, ho.allocated f hf c hc⟩
    · rintro ⟨hlt, hmap⟩
      obtain ⟨f, hf, hc⟩ := ho.owned c hlt hmap
      exact ⟨f, mem_committedFiles.mpr hf, hc⟩
  rw [← List.toFinset_card_of_nodup hnodup, hused, ho.free_count]
  have hsplit := Finset.card_filter_add_card_filter_not (s := Finset.range CHUNKS_AMOUNT)
    fun c => s.storage_man.allocation_map c = false
  rwa [Finset.card_range] at hsplit

namespace FileSystem

/-- The data at a path; where no file is there is none. -/
def dataAt (σ : FileSystem) (l : List (List Byte)) : List Byte :=
  match σ.tree.item l with
  | some (.file data) => data
  | _ => []

/-- The bytes of all visible files. -/
noncomputable def dataSize (σ : FileSystem) : Nat := ∑ᶠ l, (σ.dataAt l).length

end FileSystem

/-- They are the contents of the committed files. -/
theorem Abstracts.dataSize_eq (h : Abstracts ws σ) (ht : FolderTree ws.entry_store) :
    σ.dataSize =
      (ws.entry_store.committedFiles.map fun f => (ws.content f).length).sum := by
  have hpaths : ∀ f, ws.entry_store.committed (.file f) →
      ∃ l, ws.entry_store.PathTo (.file f) l := fun f hf => ht.rooted _ hf
  choose! path hpath using hpaths
  have hdata : ∀ {f l}, ws.entry_store.PathTo (.file f) l → σ.dataAt l = ws.content f := by
    intro f l hl
    unfold FileSystem.dataAt
    rw [h.item_file ht hl]
  -- different files have different paths, so no data is counted twice
  have hnodup : (ws.entry_store.committedFiles.map path).Nodup := by
    apply (committedFiles_nodup _).map_on
    intro f hf g hg heq
    have hf' := hpath f (mem_committedFiles.mp hf)
    rw [heq] at hf'
    exact VFSNode.file.inj (ht.wellFormed.path_inj hf' (hpath g (mem_committedFiles.mp hg)))
  unfold FileSystem.dataSize
  rw [finsum_eq_sum hnodup, List.map_map]
  · apply congrArg List.sum
    apply List.map_congr_left
    intro f hf
    exact congrArg _ (hdata (hpath f (mem_committedFiles.mp hf)))
  · intro l hl
    unfold FileSystem.dataAt at hl
    split at hl
    · next data hitem =>
      rw [h.item_eq] at hitem
      obtain ⟨f, hf, -⟩ := (view_file_iff ht).mp hitem
      have hc := committed_of_path_file hf
      have heq := (hpath f hc).unique tree_root hf
      exact List.mem_map.mpr ⟨f, mem_committedFiles.mpr hc, heq⟩
    · exact absurd rfl hl

/-- Data and free chunks make up the disk. -/
theorem Abstracts.storage_split (h : Abstracts ws σ) (hws : WorkspaceSound ws)
    (ho : Ownership ws.toVFS) :
    ws.storage_man.free_chunk_count * CHUNK_SIZE + σ.dataSize = STORAGE_SIZE := by
  have hsize : σ.dataSize = (ws.entry_store.committedFiles.map
      fun f => (ws.entry_store.files f).chunks.length).sum * CHUNK_SIZE := by
    rw [h.dataSize_eq hws.sound.tree, ← List.sum_map_mul_right]
    apply congrArg List.sum
    apply List.map_congr_left
    intro f hf
    have hok := ho.file_ok f (mem_committedFiles.mp hf)
    rw [length_content hok, hok.length_chunks]
  rw [hsize, ← Nat.add_mul, chunks_accounted ho, Nat.mul_comm]
  rfl

/-- **Nothing is lost on the disk.** In every state that a run can reach the free chunks are
    what the data in the tree leaves of the disk. -/
theorem storage_accounted (h : workspaceSystem.Reachable ws) (hσ : Abstracts ws σ) :
    ws.storage_man.free_chunk_count * CHUNK_SIZE + σ.dataSize = STORAGE_SIZE :=
  hσ.storage_split (workspaceSystem_sound h) (workspaceSystem_ownership h)

/-- Nine bytes take two chunks. -/
theorem storage_accounted_run :
    ∃ ws, runWorkspace (fun _ _ => True) [.ws_create_file (.ofBytes [97]),
        .ws_file_append (.ofBytes [97]) [1, 2, 3, 4, 5, 6, 7, 8, 9]] = some ws ∧
      ∃ σ, Abstracts ws σ ∧ 498 * CHUNK_SIZE + σ.dataSize = STORAGE_SIZE := by
  refine exists_of_run (Q := fun ws => ws.storage_man.free_chunk_count = 498)
    (by decide +kernel) fun ws hrun hfree => ?_
  have hreach : workspaceSystem.Reachable ws := reachable_of_runWorkspace hrun
  obtain ⟨σ, hσ⟩ := exists_abstracts (workspaceSystem_sound hreach)
  rw [← hfree]
  exact ⟨σ, hσ, storage_accounted hreach hσ⟩

/-! ## Section 5: Fragmentation -/

/-- How many blocks the chunks in use are made of. -/
def VFS.extentsAmount (s : VFS) : Nat :=
  (s.entry_store.committedFiles.map fun f => (s.entry_store.files f).extents.length).sum

/-- A block of used chunks ends where an extent does. -/
theorem exists_freeRun (ho : Ownership s) {k : Nat}
    (hmany : k * (s.extentsAmount + 1) < s.storage_man.free_chunk_count) :
    ∃ pos, FreeRun s.storage_man.allocation_map pos (k + 1) := by
  -- Behind the end of a used run there is the end of some file's extent: so there are no more runs
  -- than extents.
  have hends : ∀ i, i + 1 < CHUNKS_AMOUNT → s.storage_man.allocation_map i = true →
      s.storage_man.allocation_map (i + 1) = false →
        i ∈ ((s.entry_store.committedFiles.flatMap fun f => (s.entry_store.files f).extents).map
          fun x => x.start + x.chunk_amount - 1).toFinset := by
    intro i hi hused hfree
    obtain ⟨f, hf, hc⟩ := ho.owned i (by omega) hused
    obtain ⟨x, hx, hix⟩ := List.mem_flatMap.mp hc
    have hrange := mem_chunks.mp hix
    have hlast : ¬ i + 1 < x.start + x.chunk_amount := by
      intro hlt
      have hnext : i + 1 ∈ (s.entry_store.files f).chunks :=
        List.mem_flatMap.mpr ⟨x, hx, mem_chunks.mpr ⟨by omega, hlt⟩⟩
      rw [ho.allocated f hf _ hnext] at hfree
      cases hfree
    rw [List.mem_toFinset, List.mem_map]
    exact ⟨x, List.mem_flatMap.mpr ⟨f, mem_committedFiles.mpr hf, hx⟩, by omega⟩
  apply exists_gap hends
  calc k * (_ + 1) ≤ k * (s.extentsAmount + 1) := by
        apply Nat.mul_le_mul_left
        apply Nat.succ_le_succ
        apply (List.toFinset_card_le _).trans
        rw [List.length_map, List.length_flatMap]
        exact Nat.le_refl _
    _ < s.storage_man.free_chunk_count := hmany
    _ = (freeEntries s.storage_man.allocation_map CHUNKS_AMOUNT).card := ho.free_count

/-- Enough free chunks contain a run that is long enough, however they are scattered. -/
theorem hasChunks_of_free (ho : Ownership s) (hf : s.entry_store.committed (.file f))
    {data : List Byte} (hdata : 0 < data.length)
    (hextent : (s.entry_store.files f).extents.length < MAX_FILE_CHUNK_EXTENTS_AMOUNT)
    (hmany : (chunksFor data.length - 1) * (s.extentsAmount + 1) <
      s.storage_man.free_chunk_count) : s.HasChunks f data := by
  refine ⟨(empty_extent_iff (ho.file_ok f hf).compact).mpr hextent, ?_⟩
  have hpos : 0 < chunksFor data.length := by
    unfold chunksFor
    have : 0 < CHUNK_SIZE := by decide
    exact Nat.div_pos (by omega) this
  obtain ⟨pos, hrun⟩ := exists_freeRun ho hmany
  rw [Nat.sub_add_cancel hpos] at hrun
  exact ⟨pos, hrun⟩

/-- **Fragmentation is bounded.** In every state that a run can reach data can be appended
    to a file that has an extent left, if for each block of used chunks there is a gap of
    free ones that is one chunk too short, and one chunk more. Data for one chunk can be
    appended as long as the disk is not full. -/
theorem append_accepted_of_free (h : workspaceSystem.Reachable ws) (hσ : Abstracts ws σ)
    {data : List Byte} (hf : fileAtPath ws path = some f) (hdata : 0 < data.length)
    (hextent : (ws.entry_store.files f).extents.length < MAX_FILE_CHUNK_EXTENTS_AMOUNT)
    (hfree : σ.dataSize + (chunksFor data.length - 1) * (ws.extentsAmount + 1) * CHUNK_SIZE <
      STORAGE_SIZE) :
    ((WsOp.ws_file_append path data).exec ws).succeeded = true := by
  have hws := workspaceSystem_sound h
  have ho := workspaceSystem_ownership h
  have hsplit := hσ.storage_split hws ho
  have hreq : (WsOp.ws_file_append path data).request ws = some (.file_append f data) := by
    simp [WsOp.request, hf]
  have hc : ws.entry_store.committed (.file f) := WsOp.request_inStore hws hreq
  have hmany : (chunksFor data.length - 1) * (ws.extentsAmount + 1) <
      ws.storage_man.free_chunk_count := by
    apply Nat.lt_of_mul_lt_mul_right (a := CHUNK_SIZE)
    omega
  rw [succeeded_of_request hws ho hreq]
  exact ⟨hdata, hasChunks_of_free ho hc hdata hextent hmany⟩

/-- There is one free chunk before the block in use, and the data needs two. -/
theorem append_accepted_of_free_run :
    ∃ ws, runWorkspace (fun _ _ => True) [.ws_create_file (.ofBytes [97]),
        .ws_create_file (.ofBytes [98]), .ws_file_append (.ofBytes [97]) [1],
        .ws_file_append (.ofBytes [98]) [2], .ws_file_clear (.ofBytes [97])] = some ws ∧
      ws.storage_man.allocation_map 0 = false ∧ ws.storage_man.allocation_map 1 = true ∧
      ((WsOp.ws_file_append (.ofBytes [97]) [1, 2, 3, 4, 5, 6, 7, 8, 9]).exec ws).succeeded =
        true := by
  refine exists_of_run
    (Q := fun ws => ws.storage_man.allocation_map 0 = false ∧
      ws.storage_man.allocation_map 1 = true ∧ fileAtPath ws (.ofBytes [97]) = some 0 ∧
      (ws.entry_store.files 0).extents.length < MAX_FILE_CHUNK_EXTENTS_AMOUNT ∧
      ws.extentsAmount = 1 ∧ ws.storage_man.free_chunk_count = 499)
    (by decide +kernel) fun ws hrun hfacts => ?_
  obtain ⟨hfree, hused, hf, hextent, hamount, hcount⟩ := hfacts
  have hreach : workspaceSystem.Reachable ws := reachable_of_runWorkspace hrun
  have hws := workspaceSystem_sound hreach
  obtain ⟨σ, hσ⟩ := exists_abstracts hws
  have hsplit := hσ.storage_split hws (workspaceSystem_ownership hreach)
  refine ⟨hfree, hused, append_accepted_of_free hreach hσ hf (by decide) hextent ?_⟩
  rw [hamount, show chunksFor [1, 2, 3, 4, 5, 6, 7, 8, (9 : Byte)].length = 2 from rfl]
  have hchunk : CHUNK_SIZE = 8 := rfl
  have hstorage : STORAGE_SIZE = 4000 := rfl
  rw [hcount, hchunk, hstorage] at hsplit
  rw [hchunk, hstorage]
  omega

end VirtualFS
