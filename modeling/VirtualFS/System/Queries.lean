import VirtualFS.System.Folders
import VirtualFS.System.PathUtils

/-! # Queries

    Model of `queries.c`: looking up sub-entries by name, resolving paths and
    searching the whole store.

    A file is found before a folder of the same name. `resolve_path` follows all
    names but the last as folders; `global_search_nodes_by_name` does not follow
    links, but scans the arrays of the store.
-/

namespace VirtualFS

open Framework

/-! ## Section 1: Search in one folder -/

/-- The sub-folder of that name. -/
def search_sub_folder (es : VFSEntryStore) (current_folder : FolderRef)
    (target_folder_name : List Byte) : Except StatusCode FolderRef := do
  if target_folder_name.length = 0 ∨ target_folder_name.length > MAX_NAME_LENGTH then
    throw .INVALID_ARGUMENT
  match ← scan_sub_entries es.folderName target_folder_name
      (es.folderAt current_folder).folderSlots with
  | some folder => return folder
  | none => throw .SEARCH_TARGET_NOT_FOUND

/-- The sub-file of that name. -/
def search_sub_file (es : VFSEntryStore) (current_folder : FolderRef)
    (target_file_name : List Byte) : Except StatusCode FileRef := do
  if target_file_name.length = 0 ∨ target_file_name.length > MAX_NAME_LENGTH then
    throw .INVALID_ARGUMENT
  match ← scan_sub_entries es.fileName target_file_name
      (es.folderAt current_folder).fileSlots with
  | some file => return file
  | none => throw .SEARCH_TARGET_NOT_FOUND

/-- A file of that name, else a folder of that name. -/
def get_vfs_node (es : VFSEntryStore) (name : List Byte) (cur_folder : FolderRef) :
    Except StatusCode VFSNode :=
  match search_sub_file es cur_folder name with
  | .ok file => .ok (.file file)
  | .error .SEARCH_TARGET_NOT_FOUND => do
    let folder ← search_sub_folder es cur_folder name
    return .folder folder
  | .error e => .error e

/-! ## Section 2: Path resolution -/

/-- All names but the last are folders. The rows hold C strings. -/
def resolve_nodes (es : VFSEntryStore) :
    (node_names : List (List Byte)) → (cur_folder : FolderRef) → Except StatusCode VFSNode
  | [], _ => .error .PATH_IS_EMPTY
  | [name], cur_folder => get_vfs_node es (cutAtNul name) cur_folder
  | name :: names, cur_folder => do
    let next ← search_sub_folder es cur_folder (cutAtNul name)
    resolve_nodes es names next

/-- The node at the end of a path that starts below `root_folder`. -/
def resolve_path (es : VFSEntryStore) (path : List Byte) (root_folder : FolderRef) :
    Except StatusCode VFSNode :=
  if path.length = 0 then
    .error .PATH_IS_EMPTY
  else
    match parse_path path MAX_NAME_LENGTH MAX_PATH_NODES_AMOUNT with
    | (.SUCCESS, node_names) => resolve_nodes es node_names root_folder
    | (e, _) => .error e

/-! ## Section 3: Global search -/

/-- One of the two loops of `global_search_nodes_by_name`: `found` is the front
    of the output buffer. -/
def global_search_loop {n : Nat} (allocation_map : Nat → Bool) (name_of : Nat → CharBuf n)
    (node_of : Nat → VFSNode) (name : List Byte) (nodes_buffer_length : Nat) :
    (positions : List Nat) → (found : List VFSNode) → StatusCode × List VFSNode
  | [], found => (.SUCCESS, found)
  | i :: positions, found =>
    if allocation_map i = false then
      global_search_loop allocation_map name_of node_of name nodes_buffer_length positions found
    else
      match name_eq (name_of i) name with
      | .error e => (e, found)
      | .ok false =>
        global_search_loop allocation_map name_of node_of name nodes_buffer_length
          positions found
      | .ok true =>
        if found.length ≥ nodes_buffer_length then
          (.DATA_OVER_FLOW, found)
        else
          global_search_loop allocation_map name_of node_of name nodes_buffer_length
            positions (found ++ [node_of i])

/-- Returns the status and the nodes in the output buffer. -/
def global_search_nodes_by_name (es : VFSEntryStore) (name : List Byte)
    (nodes_buffer_length : Nat) : StatusCode × List VFSNode :=
  if nodes_buffer_length = 0 then
    (.INSUFFICIENT_ARRAY_PASSED, [])
  else if name.length = 0 then
    (.INVALID_OPERATION, [])
  else
    match global_search_loop es.files_allocation_map es.fileName .file name nodes_buffer_length
        (List.range VFS_MAX_FILES_AMOUNT) [] with
    | (.SUCCESS, found) =>
      global_search_loop es.folders_allocation_map (fun i => es.folderName (.slot i))
        (fun i => .folder (.slot i)) name nodes_buffer_length
        (List.range VFS_MAX_FOLDERS_AMOUNT) found
    | failed => failed

end VirtualFS
