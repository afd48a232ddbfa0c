import VirtualFS.Store.FileData
import VirtualFS.Store.FolderMoves

/-! # Accepted Calls

    When a call of the store succeeds. The checks of each call are conditions
    on the tree, on the free slots and positions and on the free chunks, and no
    call fails for another reason.

    * `VFSEntryStore.HasSlot`, `VFSEntryStore.HasFilePosition`, `VFS.HasChunks`: the
      room that a call may need.
    * `StoreOp.Accepts`: the condition of each call, read off the state before it.
    * `StoreOp.succeeded_iff`: calls succeed if and only if it holds.
-/

namespace VirtualFS

open Framework Prog Outcome ParentMap VFSEntryStore

variable {es : VFSEntryStore} {s : VFS} {f : FileRef} {p d : FolderRef}
  {op : StoreOp} {name : List Byte}

/-! ## Section 1: Room -/

/-- The folder has a slot for the entry. -/
def VFSEntryStore.HasSlot (es : VFSEntryStore) (p : FolderRef) : VFSNode → Prop
  | .file _ => ∃ i, i < MAX_SUB_FILES_AMOUNT ∧ (es.folderAt p).sub_files i = none
  | .folder _ => ∃ i, i < MAX_SUB_FOLDERS_AMOUNT ∧ (es.folderAt p).sub_folders i = none

/-- There is a free position for a file. -/
def VFSEntryStore.HasFilePosition (es : VFSEntryStore) : Prop :=
  ∃ i, i < VFS_MAX_FILES_AMOUNT ∧ es.files_allocation_map i = false

/-- There is a free position for a folder. -/
def VFSEntryStore.HasFolderPosition (es : VFSEntryStore) : Prop :=
  ∃ i, i < VFS_MAX_FOLDERS_AMOUNT ∧ es.folders_allocation_map i = false

/-- There is an extent for the data, and there are chunks for it next to each other. -/
def VFS.HasChunks (s : VFS) (f : FileRef) (data : List Byte) : Prop :=
  (∃ i, i < MAX_FILE_CHUNK_EXTENTS_AMOUNT ∧
    ((s.entry_store.files f).data_chunk_extents i).is_empty = true) ∧
  ∃ pos, FreeRun s.storage_man.allocation_map pos (chunksFor data.length)

theorem available_sub_file_iff (es : VFSEntryStore) (p : FolderRef) (f : FileRef) :
    (∃ i, get_available_sub_file_position es p = .ok i) ↔ es.HasSlot p (.file f) := by
  constructor
  · rintro ⟨i, hi⟩
    obtain ⟨hlt, hslot⟩ := available_sub_file_slot (f := f) hi
    exact ⟨i, hlt, Option.map_eq_none_iff.mp hslot⟩
  · rintro ⟨i, hi, hslot⟩
    obtain ⟨j, hj⟩ := find_range_isSome (p := fun k => ((es.folderAt p).sub_files k).isNone) hi
      (by rw [hslot]; rfl)
    exact ⟨j, by rw [get_available_sub_file_position, hj]⟩

theorem available_position_iff (map : Nat → Bool) (length : Nat) :
    (∃ i, get_available_allocation_map_position map length = .ok i) ↔
      ∃ i, i < length ∧ map i = false := by
  constructor
  · rintro ⟨i, hi⟩
    exact ⟨i, available_position hi⟩
  · rintro ⟨i, hi, hfree⟩
    obtain ⟨j, hj⟩ := find_range_isSome (p := fun k => map k = false) hi (decide_eq_true hfree)
    exact ⟨j, by rw [get_available_allocation_map_position, hj]⟩

/-! ## Section 2: Checks -/

/-- What is checked when a file is created. -/
theorem sub_file_checks_iff (hname : (0 : Byte) ∉ name) :
    sub_file_checks es name p ↔
      es.live p ∧ NameAcceptable name ∧ es.NameIsNew p name ∧
        name.length < MAX_NAME_LENGTH ∧ es.HasFilePosition ∧ es.HasSlot p (.file 0) := by
  unfold sub_file_checks
  rw [validate_vfs_folder_ok_iff, cutAtNul_of_nul_not_mem hname, validate_sub_entry_name_ok_iff,
    available_sub_file_iff es p 0]
  have hpos : (∃ i, get_available_file_position es = .ok i) ↔ es.HasFilePosition :=
    available_position_iff _ _
  rw [hpos]
  constructor
  · rintro ⟨hlive, hposition, hlen, ⟨hok, -, hnew⟩, hslot⟩
    exact ⟨hlive, hok, hnew, hlen, hposition, hslot⟩
  · rintro ⟨hlive, hok, hnew, hlen, hposition, hslot⟩
    exact ⟨hlive, hposition, hlen, ⟨hok, hlen.le, hnew⟩, hslot⟩

/-- What is checked when a folder is created. -/
theorem sub_folder_checks_iff :
    sub_folder_checks es name p ↔
      es.live p ∧ NameAcceptable name ∧ es.NameIsNew p name ∧
        name.length ≤ MAX_NAME_LENGTH ∧ es.HasFolderPosition ∧ es.HasSlot p (.folder .root) := by
  unfold sub_folder_checks
  rw [validate_vfs_folder_ok_iff, validate_sub_entry_name_ok_iff, available_sub_folder_iff]
  have hpos : (∃ i, get_available_folder_position es = .ok i) ↔ es.HasFolderPosition :=
    available_position_iff _ _
  rw [hpos]
  constructor
  · rintro ⟨hlive, hposition, ⟨hok, hlen, hnew⟩, hslot⟩
    exact ⟨hlive, hok, hnew, hlen, hposition, hslot⟩
  · rintro ⟨hlive, hok, hnew, hlen, hposition, hslot⟩
    exact ⟨hlive, hposition, ⟨hok, hlen, hnew⟩, hslot⟩

/-- Names in the store are acceptable and not too long. -/
theorem move_file_checks_iff (ht : FolderTree es) (hf : es.committed (.file f)) :
    move_file_checks es f p ↔
      es.NameIsNew p (es.nameOf (.file f)) ∧ es.HasSlot p (.file f) := by
  have hok : NameAcceptable (es.files f).name.str := ht.names_acceptable _ hf
  have hlen : (es.files f).name.str.length < MAX_NAME_LENGTH :=
    CharBuf.length_str_lt (ht.names_terminated _ hf)
  unfold move_file_checks
  rw [validate_sub_entry_name_ok_iff, available_sub_file_iff es p f]
  exact ⟨fun h => ⟨h.1.2.2, h.2⟩, fun h => ⟨⟨hok, hlen.le, h.1⟩, h.2⟩⟩

/-! ## Section 3: Calls -/

/-- What a call needs to succeed. -/
def StoreOp.Accepts (s : VFS) : StoreOp → Prop
  | rename_file f name =>
    rename_checks s.entry_store (.file f) name ∧ name.length < MAX_NAME_LENGTH
  | delete_vfs_file _ => True
  | delete_vfs_folder d force =>
    d ≠ .root ∧ s.entry_store.fits (MAX_FOLDER_DEPTH + 1) d ∧
      (force = true ∨ s.entry_store.children d = [])
  | file_append f data => 0 < data.length ∧ s.HasChunks f data
  | file_truncate_by f amount => amount < (s.entry_store.files f).allocated_size * CHUNK_SIZE
  | file_delete_data _ => True
  | op => op.passes s.entry_store

theorem succeeded_onEntryStore {α : Type} (prog : Sys VFSEntryStore α) (s : VFS) :
    (onEntryStore prog s).succeeded = (prog s.entry_store).succeeded := by
  unfold onEntryStore
  rw [zoom_run]
  cases prog s.entry_store with
  | ok a es => rfl
  | fail e es => rfl
  | fault x => rfl

/-- Dropping what is returned does not matter. -/
theorem succeeded_drop {α : Type} (prog : Sys VFS α) (s : VFS) :
    ((do let _ ← prog : Sys VFS Unit) s).succeeded = (prog s).succeeded := by
  show ((prog s).bind fun _ s' => .ok () s').succeeded = _
  cases prog s with
  | ok a s' => rfl
  | fail e s' => rfl
  | fault x => rfl

/-- A renaming succeeds under its checks if the name fits in the buffer. -/
theorem rename_file_accepts_iff (ht : FolderTree es) (hf : es.committed (.file f)) :
    (rename_file f name es).succeeded = true ↔
      rename_checks es (.file f) name ∧ name.length < MAX_NAME_LENGTH := by
  by_cases hlen : name.length < MAX_NAME_LENGTH
  · rw [and_iff_left hlen]
    exact (rename_file_sat ht hf hlen).succeeded_iff (fun _ _ h => h.1) fun _ _ h => h.2
  · constructor
    · intro hsucc
      obtain ⟨a, es', hrun⟩ := exists_of_succeeded hsucc
      have hsat := rename_file_long ht hf (Nat.le_of_not_lt hlen)
      rw [hrun] at hsat
      exact hsat.elim
    · exact fun h => absurd h.2 hlen

/-- A folder without children is not too deep. -/
theorem fits_of_flat (ht : FolderTree es) (hd : es.live d) (hflat : es.children d = []) :
    es.fits (MAX_FOLDER_DEPTH + 1) d := by
  rw [ht.fits_succ_iff hd, hflat]
  intro c hc
  cases hc

/-- When a folder is deleted. -/
theorem delete_vfs_folder_accepts_iff (hs : Sound s) (hd : s.entry_store.live d) (force : Bool) :
    (delete_vfs_folder d force s).succeeded = true ↔
      d ≠ .root ∧ s.entry_store.fits (MAX_FOLDER_DEPTH + 1) d ∧
        (force = true ∨ s.entry_store.children d = []) := by
  apply (delete_vfs_folder_sat hs hd force).succeeded_iff
  · rintro _ s' ⟨hp, hgone, hfits⟩
    refine ⟨?_, ?_, ?_⟩
    · rintro rfl
      exact hgone live_root
    · exact hfits.elim (fits_of_flat hs.tree hd) id
    · -- without children or the flag nothing is deleted
      by_contra hnot
      rw [not_or] at hnot
      have hnone : ∀ m, ¬ s.entry_store.folderDeletes d force m := by
        rintro m (⟨hflat, -⟩ | ⟨-, hforce, -⟩)
        · exact hnot.2 hflat
        · exact hnot.1 hforce
      rw [hp.prunes.eq_of_none hnone] at hgone
      exact hgone hd
  · rintro e s' ⟨-, hfail⟩ ⟨hne, hfits, hmay⟩
    rcases hfail with hroot | ⟨hchildren, hforce | hdeep⟩
    · exact hne hroot
    · rcases hmay with htrue | hflat
      · rw [hforce] at htrue
        cases htrue
      · exact hchildren hflat
    · exact hdeep hfits

/-- The array of extents has an empty slot if not all of them are in use. -/
theorem empty_extent_iff {l : List ChunkExtent} {extents : Nat → ChunkExtent}
    (h : HasExtents extents l) :
    (∃ i, i < MAX_FILE_CHUNK_EXTENTS_AMOUNT ∧ (extents i).is_empty = true) ↔
      l.length < MAX_FILE_CHUNK_EXTENTS_AMOUNT := by
  constructor
  · rintro ⟨i, hi, hempty⟩
    by_contra hfull
    obtain ⟨heq, hne⟩ := h.extent_eq (List.getElem?_eq_getElem (show i < l.length by omega))
    rw [heq, hne] at hempty
    cases hempty
  · exact fun hlt => ⟨_, hlt, h.is_empty_of_le (Nat.le_refl _) hlt⟩

/-- When data is appended. -/
theorem file_append_accepts_iff (ho : Ownership s) (hf : s.entry_store.committed (.file f))
    (data : List Byte) :
    (file_append f data s).succeeded = true ↔ 0 < data.length ∧ s.HasChunks f data := by
  have hext := (ho.ownsChunks hf).file_ok.compact
  have hamount : chunksFor data.length = get_chunks_amount data.length :=
    (get_chunks_amount_eq data.length).symm
  unfold VFS.HasChunks
  rw [empty_extent_iff hext, hamount]
  -- Append refuses for want of an extent, of free chunks, of data, or of a run.
  constructor
  · intro hsucc
    rcases file_append_cases hext data with ⟨e, hfail⟩ | ⟨hlt, hpos, pos, hrun, -⟩
    · rw [hfail s (SameMeta.refl s)] at hsucc
      cases hsucc
    · refine ⟨?_, hlt, pos, hrun⟩
      by_contra hzero
      have hnil : data.length = 0 := by omega
      rw [hnil] at hpos
      exact absurd hpos (by decide)
  · rintro ⟨hdata, hlt, pos, hrun⟩
    obtain ⟨pos', hok⟩ := file_append_succeeds hext ho.diskInvariant.free_count hlt hdata hrun
    rw [hok]
    rfl

/-- **Which calls succeed.** -/
theorem StoreOp.succeeded_iff (hs : Sound s) (ho : Ownership s) (op : StoreOp)
    (hin : op.inStore s.entry_store) : (op.exec s).succeeded = true ↔ op.Accepts s := by
  have ht := hs.tree
  cases op with
  | vfs_sub_file_init name p =>
    show ((do let _ ← onEntryStore (VirtualFS.vfs_sub_file_init name p) : Sys VFS Unit)
      s).succeeded = true ↔ _
    rw [succeeded_drop, succeeded_onEntryStore]
    exact (vfs_sub_file_init_sat ht name p).succeeded_iff (fun _ _ h => h.1) fun _ _ h => h.2
  | vfs_sub_folder_init name p =>
    show ((do let _ ← onEntryStore (VirtualFS.vfs_sub_folder_init name p) : Sys VFS Unit)
      s).succeeded = true ↔ _
    rw [succeeded_drop, succeeded_onEntryStore]
    exact (vfs_sub_folder_init_sat ht name p).succeeded_iff (fun _ _ h => h.1) fun _ _ h => h.2
  | rename_file f name =>
    show (onEntryStore (VirtualFS.rename_file f name) s).succeeded = true ↔ _
    rw [succeeded_onEntryStore]
    exact rename_file_accepts_iff ht hin
  | rename_folder d name =>
    show (onEntryStore (VirtualFS.rename_folder d name) s).succeeded = true ↔ _
    rw [succeeded_onEntryStore]
    rcases hin with rfl | hd
    · obtain ⟨hrun, hchecks⟩ := rename_root ht name
      rw [hrun]
      exact ⟨nofun, fun h => absurd h hchecks⟩
    · exact (rename_folder_sat ht hd name).succeeded_iff (fun _ _ h => h.1) fun _ _ h => h.2
  | move_file f p =>
    show (onEntryStore (VirtualFS.move_file f p) s).succeeded = true ↔ _
    rw [succeeded_onEntryStore]
    exact (move_file_sat ht hin.1 hin.2).succeeded_iff (fun _ _ h => h.1) fun _ _ h => h.2
  | move_folder d p =>
    show (onEntryStore (VirtualFS.move_folder d p) s).succeeded = true ↔ _
    rw [succeeded_onEntryStore]
    obtain ⟨hd, hp⟩ := hin
    rcases hd with rfl | hd
    · obtain ⟨⟨e, hrun⟩, hchecks⟩ := move_root ht hp
      rw [hrun]
      exact ⟨nofun, fun h => absurd h hchecks⟩
    · exact (move_folder_sat ht hd hp).succeeded_iff (fun _ _ h => h.1) fun _ _ h => h.2
  | delete_vfs_file f =>
    obtain ⟨s', hrun, -⟩ := delete_vfs_file_run hs hin
    show (VirtualFS.delete_vfs_file f s).succeeded = true ↔ _
    rw [hrun]
    exact ⟨fun _ => trivial, fun _ => rfl⟩
  | delete_vfs_folder d force => exact delete_vfs_folder_accepts_iff hs hin force
  | file_append f data => exact file_append_accepts_iff ho hin data
  | file_truncate_by f amount =>
    show (VirtualFS.file_truncate_by f amount s).succeeded = true ↔ _
    have howns := ho.ownsChunks hin
    constructor
    · intro hsucc
      by_contra hall
      obtain ⟨a, s', hrun⟩ := exists_of_succeeded hsucc
      have hsat := file_truncate_by_all howns.file_ok.stored (Nat.le_of_not_lt hall)
      rw [hrun] at hsat
      exact hsat.elim
    · intro hamount
      obtain ⟨s', hrun, -⟩ := file_truncate_by_effect howns hamount
      rw [hrun]
      rfl
  | file_delete_data f =>
    obtain ⟨s', hrun, -⟩ := file_delete_data_effect (ho.ownsChunks hin)
    show (VirtualFS.file_delete_data f s).succeeded = true ↔ _
    rw [hrun]
    exact ⟨fun _ => trivial, fun _ => rfl⟩

end VirtualFS
