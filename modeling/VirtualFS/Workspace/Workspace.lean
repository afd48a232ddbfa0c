import VirtualFS.System.EntryStore
import VirtualFS.System.Queries

/-! # Workspace

    Model of `workspace.c` and `navigation.c`: the current folder, its cached
    path, and path resolution relative to it.

    The printed path of the current folder is stored when a folder is entered, and
    it is this copy that the command line shows. `..` reads the parent pointer of
    the current folder, and does not look whether the folder is still in the store.
-/

namespace VirtualFS

open Framework Prog

/-- `Workspace`, with the entry store and the storage manager it points to. -/
structure Workspace extends VFS where
  /-- Deleting is restricted in this mode; it is off from start-up on. -/
  safe_mode : Bool
  /-- The folder that relative paths start from. -/
  cur_folder : FolderRef
  /-- The path of the current folder when it was entered. -/
  cur_path : CharBuf PATH_BUFFER_LENGTH

/-! ## Section 1: Parts of the workspace -/

/-- A function of the system, run in the workspace. -/
def onSystem {α : Type} (p : Sys VFS α) : Sys Workspace α :=
  Prog.zoom Workspace.toVFS (fun ws s => { ws with toVFS := s }) p

/-- A function of the buffer of the current path. -/
def onCurPath {α : Type} (p : Sys (CharBuf PATH_BUFFER_LENGTH) α) : Sys Workspace α :=
  Prog.zoom Workspace.cur_path (fun ws path => { ws with cur_path := path }) p

/-! ## Section 2: Initialisation -/

/-- The path of the root is one delimiter. -/
def root_path_init : Sys (CharBuf PATH_BUFFER_LENGTH) Unit := do
  let path ← readState
  match path.write 0 [PATH_DELIMITER, 0] with
  | none => undefinedBehaviour .out_of_bounds
  | some path => modifyState fun _ => path

/-- Starts in the root, with its path, and not in safe mode. -/
def workspace_init : Sys Workspace Unit := do
  modifyState fun ws => { ws with cur_folder := .root, safe_mode := false }
  onCurPath root_path_init

/-! ## Section 3: Navigation -/

/-- Absolute paths start with the delimiter; the empty path is the root. -/
def ws_resolve_path (ws : Workspace) (path : CString) : Except StatusCode VFSNode :=
  match path.chars with
  | [] => .ok (.folder .root)
  | c :: rest =>
    if c = PATH_DELIMITER then
      if rest.length = 0 then
        .ok (.folder .root)
      else
        resolve_path ws.entry_store rest .root
    else
      resolve_path ws.entry_store (c :: rest) ws.cur_folder

/-- Enters the parent or the folder at a path, and prints the path of the folder that has been
    entered. -/
def ws_change_cur_folder (path : CString) : Sys Workspace Unit := do
  let ws ← readState
  if path.chars = BACK_TO_PARENT_OPERATOR then
    if (ws.entry_store.folderAt ws.cur_folder).is_root then
      returnStatus .INVALID_ROOT_OPERATION
    match (ws.entry_store.folderAt ws.cur_folder).parent_folder with
    | none =>
      -- `get_node_path` reads `node->node.folder->is_root`
      undefinedBehaviour .null_dereference
    | some parent => do
      onCurPath (get_node_path ws.entry_store (.folder parent))
      modifyState fun ws => { ws with cur_folder := parent }
  else do
    let target_node ← ofExcept (ws_resolve_path ws path)
    match target_node with
    | .file _ => returnStatus .EXPECTED_FOLDER_GOT_FILE
    | .folder target => do
      onCurPath (get_node_path ws.entry_store (.folder target))
      modifyState fun ws => { ws with cur_folder := target }

/-- Lists the sub-entries of the folder at the path, or of the current folder;
    a short buffer is filled before the call fails. -/
def ws_get_sub_entries (path : Option CString) (node_buffer_length : Nat) :
    Sys Workspace (List VFSNode) := do
  let ws ← readState
  let target_folder ← match path with
    | none => pure ws.cur_folder
    | some path => do
      let node ← ofExcept (ws_resolve_path ws path)
      match node with
      | .file _ => returnStatus .EXPECTED_FOLDER_GOT_FILE
      | .folder r => pure r
  let nodes := ws.entry_store.children target_folder
  if nodes.length > node_buffer_length then
    returnStatus .DATA_OVER_FLOW
  return nodes

/-- All entries of that name, anywhere in the store. -/
def ws_global_search_by_name (name : CString) (nodes_buffer_length : Nat) :
    Sys Workspace (List VFSNode) := do
  let ws ← readState
  match global_search_nodes_by_name ws.entry_store name.chars nodes_buffer_length with
  | (.SUCCESS, nodes) => return nodes
  | (e, _) => returnStatus e

end VirtualFS
