import VirtualFS.System.FileLogic
import VirtualFS.System.EntryRelocation

/-! # Entry Store

    Model of `vfs_entry_store.c`: creating and deleting entries of the store.

    An entry is created in three steps: a free position is looked up, the record
    is initialised and linked, and the position is marked. A failure on the way
    leaves the position unmarked. Deleting a folder with its sub-entries goes down
    `MAX_FOLDER_DEPTH` levels at most; what has been deleted when it fails stays
    deleted.
-/

namespace VirtualFS

open Framework Prog

/-! ## Section 1: Initialisation -/

/-- Nothing but the allocation maps and the root is initialised. -/
def vfs_entry_store_init : Sys VFSEntryStore Unit := do
  modifyState fun es =>
    { es with
      files_allocation_map := fun i =>
        if i < VFS_MAX_FILES_AMOUNT then false else es.files_allocation_map i
      folders_allocation_map := fun i =>
        if i < VFS_MAX_FOLDERS_AMOUNT then false else es.folders_allocation_map i }
  root_folder_init

/-- NULL lies before `entry_store->folders`. -/
def validate_vfs_folder (es : VFSEntryStore) : Option FolderRef → Except StatusCode Unit
  | none => .error .UNKNOWN_ENTRY
  | some .root => .ok ()
  | some (.slot i) =>
    if i ≥ VFS_MAX_FOLDERS_AMOUNT then
      .error .UNKNOWN_ENTRY
    else if es.folders_allocation_map i = false then
      .error .UNINITIALISED_ENTRY
    else
      .ok ()

/-- The first free position of a map. -/
def get_available_allocation_map_position (allocation_map : Nat → Bool)
    (allocation_map_length : Nat) : Except StatusCode Nat :=
  match (List.range allocation_map_length).find? fun i => allocation_map i = false with
  | some i => .ok i
  | none => .error .NO_SPACE

/-- The place of the next new file. -/
def get_available_file_position (es : VFSEntryStore) : Except StatusCode Nat :=
  get_available_allocation_map_position es.files_allocation_map VFS_MAX_FILES_AMOUNT

/-- The place of the next new folder. -/
def get_available_folder_position (es : VFSEntryStore) : Except StatusCode Nat :=
  get_available_allocation_map_position es.folders_allocation_map VFS_MAX_FOLDERS_AMOUNT

/-! ## Section 2: Creating entries -/

/-- Returns the new file. -/
def vfs_sub_file_init (file_name : List Byte) (parent_folder : FolderRef) :
    Sys VFSEntryStore FileRef := do
  let es ← readState
  ofExcept (validate_vfs_folder es parent_folder)
  let file_pos ← ofExcept (get_available_file_position es)
  file_init file_pos file_name
  sub_file_init file_pos parent_folder
  -- marked as occupied only after complete success
  modifyState fun es =>
    { es with files_allocation_map := Function.update es.files_allocation_map file_pos true }
  return file_pos

/-- Returns the new folder. -/
def vfs_sub_folder_init (folder_name : List Byte) (parent_folder : FolderRef) :
    Sys VFSEntryStore FolderRef := do
  let es ← readState
  ofExcept (validate_vfs_folder es parent_folder)
  let folder_pos ← ofExcept (get_available_folder_position es)
  sub_folder_init (.slot folder_pos) folder_name parent_folder
  modifyState fun es =>
    { es with
      folders_allocation_map := Function.update es.folders_allocation_map folder_pos true }
  return .slot folder_pos

/-! ## Section 3: Deleting entries -/

/-- Unlinks the file, frees its chunks and gives back its position, in this order. The parent is
    validated first, so a file that hangs nowhere cannot be deleted. -/
def delete_vfs_file (file : FileRef) : Sys VFS Unit := do
  let s ← readState
  ofExcept (validate_vfs_folder s.entry_store (s.entry_store.files file).parent_folder)
  if file ≥ VFS_MAX_FILES_AMOUNT then
    returnStatus .UNKNOWN_ENTRY
  onEntryStore (unlink_sub_file file)
  file_delete_data file
  onEntryStore <| modifyState fun es =>
    { es with files_allocation_map := Function.update es.files_allocation_map file false }

/-- `folders_allocation_map[folder - folders] = false`; the root is no element
    of the array, its index lies outside the map. -/
def release_folder (folder : FolderRef) : Sys VFSEntryStore Unit :=
  match folder with
  | .root => undefinedBehaviour .out_of_bounds
  | .slot i => modifyState fun es =>
      { es with folders_allocation_map := Function.update es.folders_allocation_map i false }

/-- Deletes a folder without sub-entries: unlinking it fails for the root and for a folder that
    has some. -/
def delete_flat_folder (folder : FolderRef) : Sys VFSEntryStore Unit := do
  unlink_sub_folder folder false
  release_folder folder

/-- `steps_left` is `MAX_FOLDER_DEPTH + 1 - cur_step`. -/
def delete_children_recursive_from : (steps_left : Nat) → (cur_folder : FolderRef) → Sys VFS Unit
  | 0, _ => returnStatus .RECURSIVE_OPERATION_LIMIT_EXCEEDED
  | n + 1, cur_folder => do
    let s ← readState
    ofExcept (validate_vfs_folder s.entry_store cur_folder)
    forEach (List.range MAX_SUB_FILES_AMOUNT) fun i => do
      let s ← readState
      match (s.entry_store.folderAt cur_folder).sub_files i with
      | none => return ()
      | some file => delete_vfs_file file
    forEach (List.range MAX_SUB_FOLDERS_AMOUNT) fun i => do
      let s ← readState
      match (s.entry_store.folderAt cur_folder).sub_folders i with
      | none => return ()
      | some sub_folder => delete_children_recursive_from n sub_folder
    -- the children have been deleted, the folder has become flat
    onEntryStore (delete_flat_folder cur_folder)

/-- Deletes a folder with all its sub-entries, from the leaves up. -/
def delete_children_recursive (cur_folder : FolderRef) : Sys VFS Unit :=
  delete_children_recursive_from (MAX_FOLDER_DEPTH + 1) cur_folder

/-- A folder with sub-entries is deleted only with `force`. Whether it is the root is found out
    last, when it has already been emptied. -/
def delete_vfs_folder (folder : FolderRef) (force : Bool) : Sys VFS Unit := do
  let s ← readState
  ofExcept (validate_vfs_folder s.entry_store folder)
  if has_sub_entries (s.entry_store.folderAt folder) = false then
    onEntryStore (delete_flat_folder folder)
  else if force = false then
    returnStatus .ATTEMPTED_TO_DELETE_FOLDER_WITH_SUB_ENTRIES
  else
    delete_children_recursive folder

end VirtualFS
