import VirtualFS.Workspace.Workspace

/-! # Workspace Operations

    Model of `vfs_ops.c` and `file_io.c`: entries are addressed by path.

    Each operation resolves its paths and passes the node on to the system. A path
    to a node of the wrong kind is refused here. Removals are refused altogether in
    safe mode.
-/

namespace VirtualFS

open Framework Prog

/-! ## Section 1: Entry operations -/

/-- Creates an empty file in the current folder. -/
def ws_create_file (file_name : CString) : Sys Workspace Unit := do
  let ws ← readState
  let _ ← onSystem (onEntryStore (vfs_sub_file_init file_name.chars ws.cur_folder))

/-- Creates a folder in the current folder. -/
def ws_create_folder (folder_name : CString) : Sys Workspace Unit := do
  let ws ← readState
  let _ ← onSystem (onEntryStore (vfs_sub_folder_init folder_name.chars ws.cur_folder))

/-- Refused in safe mode, and for folders. -/
def ws_remove_file (file_path : CString) : Sys Workspace Unit := do
  let ws ← readState
  if ws.safe_mode then
    returnStatus .INVALID_SAFE_MODE_OP
  let path_node ← ofExcept (ws_resolve_path ws file_path)
  match path_node with
  | .folder _ => returnStatus .EXPECTED_FILE_GOT_FOLDER
  | .file file => onSystem (delete_vfs_file file)

/-- Refused in safe mode, and for files. The current folder may be removed. -/
def ws_remove_folder (folder_path : CString) (recursive : Bool) : Sys Workspace Unit := do
  let ws ← readState
  if ws.safe_mode then
    returnStatus .INVALID_SAFE_MODE_OP
  let path_node ← ofExcept (ws_resolve_path ws folder_path)
  match path_node with
  | .file _ => returnStatus .EXPECTED_FILE_GOT_FOLDER
  | .folder folder => onSystem (delete_vfs_folder folder recursive)

/-- Moves a file or a folder to another folder. -/
def ws_move_node (node_path target_new_parent_path : CString) : Sys Workspace Unit := do
  let ws ← readState
  let node ← ofExcept (ws_resolve_path ws node_path)
  let target_new_parent_node ← ofExcept (ws_resolve_path ws target_new_parent_path)
  match target_new_parent_node with
  | .file _ => returnStatus .EXPECTED_FOLDER_GOT_FILE
  | .folder new_parent =>
    match node with
    | .file file => onSystem (onEntryStore (move_file file new_parent))
    | .folder folder => onSystem (onEntryStore (move_folder folder new_parent))

/-- Renames a file or a folder where it is. -/
def ws_rename_node (target_node_path new_name : CString) : Sys Workspace Unit := do
  let ws ← readState
  let target_node ← ofExcept (ws_resolve_path ws target_node_path)
  match target_node with
  | .file file => onSystem (onEntryStore (rename_file file new_name.chars))
  | .folder folder => onSystem (onEntryStore (rename_folder folder new_name.chars))

/-! ## Section 2: File input and output -/

/-- The file at the path: the first half of every `ws_file_*` function. -/
def ws_resolve_file (path : CString) : Sys Workspace FileRef := do
  let ws ← readState
  let node ← ofExcept (ws_resolve_path ws path)
  match node with
  | .folder _ => returnStatus .EXPECTED_FILE_GOT_FOLDER
  | .file file => return file

/-- A path that leads to a file is resolved to it. -/
theorem ws_resolve_file_run {ws : Workspace} {path : CString} {f : FileRef}
    (hpath : ws_resolve_path ws path = .ok (.file f)) : ws_resolve_file path ws = .ok f ws := by
  simp [ws_resolve_file, hpath]

/-- Appends data to the file at a path. -/
def ws_file_append (target_file_path : CString) (data : List Byte) : Sys Workspace Unit := do
  let file ← ws_resolve_file target_file_path
  onSystem (file_append file data)

/-- Removes all data of the file at a path. -/
def ws_file_clear (target_file_path : CString) : Sys Workspace Unit := do
  let file ← ws_resolve_file target_file_path
  onSystem (file_delete_data file)

/-- Returns the bytes copied to the buffer. -/
def ws_file_read_all (target_file_path : CString) (buffer_size : Nat) :
    Sys Workspace (List Byte) := do
  let file ← ws_resolve_file target_file_path
  let ws ← readState
  let size := (ws.entry_store.files file).allocated_size * CHUNK_SIZE
  if buffer_size < size then
    returnStatus .INSUFFICIENT_ARRAY_PASSED
  if (ws.entry_store.files file).allocated_size = 0 then
    return []
  else
    onSystem (file_read_at file 0 size buffer_size)

/-- Returns the bytes copied to the buffer. -/
def ws_file_read_at (target_file_path : CString) (offset amount buffer_size : Nat) :
    Sys Workspace (List Byte) := do
  if buffer_size < amount then
    returnStatus .INSUFFICIENT_ARRAY_PASSED
  let file ← ws_resolve_file target_file_path
  onSystem (file_read_at file offset amount buffer_size)

/-- Removes data from the end of the file at a path. -/
def ws_file_truncate (target_file_path : CString) (amount : Nat) : Sys Workspace Unit := do
  let file ← ws_resolve_file target_file_path
  onSystem (file_truncate_by file amount)

end VirtualFS
