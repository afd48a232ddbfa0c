import VirtualFS.System.Folders

/-! # Entry Relocation

    Model of `entry_relocation.c`: renaming and moving files and folders.

    All four functions check first and write afterwards. What is checked of a name
    does not depend on whether a file or a folder gets it; the buffers of the two
    differ by one byte, and only the write can tell.
-/

namespace VirtualFS

open Framework Prog

/-! ## Section 1: Rename -/

/-- The new name is checked among the sub-entries of the parent, the old name of the file
    included. -/
def rename_file (file : FileRef) (name : List Byte) : Sys VFSEntryStore Unit := do
  let es ← readState
  match (es.files file).parent_folder with
  | none => returnStatus .INVALID_ARGUMENT
  | some parent =>
    ofExcept (validate_sub_entry_name es parent name)
    match set_entry_name name (es.files file).name with
    | none => undefinedBehaviour .out_of_bounds
    | some entry_name =>
      modifyState fun es => es.setFile file { es.files file with name := entry_name }

/-- As `rename_file`, but the root cannot be renamed. -/
def rename_folder (folder : FolderRef) (name : List Byte) : Sys VFSEntryStore Unit := do
  let es ← readState
  if (es.folderAt folder).is_root then
    returnStatus .INVALID_ROOT_OPERATION
  match (es.folderAt folder).parent_folder with
  | none => returnStatus .INVALID_ARGUMENT
  | some parent =>
    ofExcept (validate_sub_entry_name es parent name)
    match set_entry_name name (es.folderAt folder).name with
    | none => undefinedBehaviour .out_of_bounds
    | some entry_name =>
      modifyState fun es => es.setFolder folder { es.folderAt folder with name := entry_name }

/-! ## Section 2: Move -/

/-- Both checks are made before the file is unlinked, so a failure leaves it where it is. -/
def move_file (file : FileRef) (new_parent : FolderRef) : Sys VFSEntryStore Unit := do
  let es ← readState
  ofExcept (validate_sub_entry_name es new_parent (es.files file).name.str)
  let new_file_index ← ofExcept (get_available_sub_file_position es new_parent)
  unlink_sub_file file
  modifyState fun es => es.setSubFile new_parent new_file_index (some file)
  modifyState fun es => es.setFileParent file (some new_parent)

/-- The first failing status of a list of checks. -/
def firstError : List (Except StatusCode Unit) → Except StatusCode Unit
  | [] => .ok ()
  | .error e :: _ => .error e
  | .ok () :: checks => firstError checks

/-- `steps_left` is `MAX_FOLDER_DEPTH - step_count`. -/
def validate_no_cyclic_move_from (es : VFSEntryStore) (new_parent : FolderRef) :
    (steps_left : Nat) → (folder : FolderRef) → Except StatusCode Unit
  | 0, _ => .error .RECURSIVE_OPERATION_LIMIT_EXCEEDED
  | n + 1, folder =>
    if new_parent = folder then
      .error .ATTEMPTED_TO_ENFORCE_CYCLIC_RELATION
    else
      firstError <| (es.folderAt folder).folderSlots.map fun
        | none => .ok ()
        | some sub_folder => validate_no_cyclic_move_from es new_parent n sub_folder

/-- Makes sure that `new_parent` is not a descendant of `folder`. -/
def validate_no_cyclic_move (es : VFSEntryStore) (new_parent folder : FolderRef) :
    Except StatusCode Unit :=
  validate_no_cyclic_move_from es new_parent MAX_FOLDER_DEPTH folder

/-- All checks are made before the folder is unlinked; the paths of its sub-entries are not looked
    at, nor is the depth of the new place. -/
def move_folder (folder new_parent : FolderRef) : Sys VFSEntryStore Unit := do
  let es ← readState
  ofExcept (validate_sub_entry_name es new_parent (es.folderAt folder).name.str)
  ofExcept (validate_no_cyclic_move es new_parent folder)
  let new_folder_index ← ofExcept (get_available_sub_folder_position es new_parent)
  -- unlinked whether or not there are children; linked to the new parent below
  unlink_sub_folder folder true
  modifyState fun es => es.setSubFolder new_parent new_folder_index (some folder)
  modifyState fun es => es.setFolderParent folder (some new_parent)

end VirtualFS
