import VirtualFS.System.Entries

/-! # Paths

    Model of `path_utils.c`: splitting a path into node names, and printing the
    path of a node. The splitting comes twice: as the list of the rows, which the
    callers use, and into the array of the output parameters.

    The parser never looks at the tree, and the printer never at the parser. The
    printer first collects the parents of a node in an array of
    `MAX_PATH_NODES_AMOUNT - 1` places; a write behind it is undefined.
-/

namespace VirtualFS

open Framework Prog

/-! ## Section 1: Parsing -/

/-- Result of `parse_node`: the status, the characters written to the row, and
    the rest of the path. -/
structure ParsedNode where
  /-- `SUCCESS`, or why the node does not fit. -/
  status : StatusCode
  /-- What has been written to the row, without a terminator. -/
  row : List Byte
  /-- What is left to parse. -/
  rest : List Byte

/-- Copies the characters up to the delimiter or the end of the path into a row
    of `node_name_buffer_length` bytes; `row` is what the row holds so far. -/
def parse_node (node_name_buffer_length : Nat) : (path row : List Byte) → ParsedNode
  | [], row => ⟨.SUCCESS, row, []⟩
  | c :: path, row =>
    if c = PATH_DELIMITER then
      ⟨.SUCCESS, row, c :: path⟩
    else if row.length ≥ node_name_buffer_length - 1 then
      ⟨.IDENTIFIER_IS_TOO_LONG, row, c :: path⟩
    else
      parse_node node_name_buffer_length path (row ++ [c])

/-- The loop of `parse_path` over the rows that are left. Returns the status and
    the rows written; all but the last one of a failed call are complete. -/
def parse_path_loop (node_name_buffer_length : Nat) :
    (rows : Nat) → (path : List Byte) → StatusCode × List (List Byte)
  | _, [] => (.SUCCESS, [])
  | 0, _ :: _ => (.PATH_IS_TOO_LONG, [])
  | rows + 1, c :: path =>
    let node := parse_node node_name_buffer_length (c :: path) []
    if node.status = .SUCCESS then
      -- one step over the delimiter, also at the end of the path
      let tail := parse_path_loop node_name_buffer_length rows (node.rest.drop 1)
      (tail.1, node.row :: tail.2)
    else
      (node.status, [node.row])

/-- Splits a path into its node names. Each row holds `node_name_buffer_length - 1` characters at
    most, and there are `node_names_array_length` rows. -/
def parse_path (path : List Byte) (node_name_buffer_length node_names_array_length : Nat) :
    StatusCode × List (List Byte) :=
  if node_name_buffer_length = 0 ∨ node_names_array_length = 0 then
    (.INVALID_ARGUMENT, [])
  else if path.length = 0 then
    (.PATH_IS_EMPTY, [])
  else
    parse_path_loop node_name_buffer_length node_names_array_length path

/-- The output parameters of `parse_path`: the amount of nodes and the array of
    node names. -/
structure NodeNames (node_name_buffer_length node_names_array_length : Nat) where
  /-- How many nodes have been copied to their rows. -/
  out_nodes_amount : Nat
  /-- The rows, each with room for one name and its terminator. -/
  out_node_names : Fin node_names_array_length → CharBuf node_name_buffer_length

section IntoArray

variable {L N : Nat}

/-- One row of the array is replaced. -/
def NodeNames.setRow (out : NodeNames L N) (i : Fin N) (row : CharBuf L) : NodeNames L N :=
  { out with out_node_names := Function.update out.out_node_names i row }

/-- `*out_node_name_buffer = c`, where the pointer has reached column `col` of
    row `cur_node`. -/
def write_node_name (cur_node col : Nat) (c : Byte) : Sys (NodeNames L N) Unit := do
  let out ← readState
  if h : cur_node < N then
    match (out.out_node_names ⟨cur_node, h⟩).write col [c] with
    | none => undefinedBehaviour .out_of_bounds
    | some row => modifyState fun out => out.setRow ⟨cur_node, h⟩ row
  else
    undefinedBehaviour .out_of_bounds

/-- `parse_node` with its output buffer, the row `cur_node` of length `L`. Returns
    the rest of the path. -/
def parse_node_into (cur_node : Nat) :
    (path : List Byte) → (col : Nat) → Sys (NodeNames L N) (List Byte)
  | [], col => do
    write_node_name cur_node col 0
    pure []
  | c :: path, col =>
    if c = PATH_DELIMITER then do
      write_node_name cur_node col 0
      pure (c :: path)
    else if col ≥ L - 1 then
      returnStatus .IDENTIFIER_IS_TOO_LONG
    else do
      write_node_name cur_node col c
      parse_node_into cur_node path (col + 1)

/-- The loop of `parse_path` with `rows` rows left from `cur_node` on. -/
def parse_path_into_loop : (rows cur_node : Nat) → (path : List Byte) → Sys (NodeNames L N) Unit
  | _, _, [] => pure ()
  | 0, _, _ :: _ => returnStatus .PATH_IS_TOO_LONG
  | rows + 1, cur_node, c :: path => do
    let rest ← parse_node_into cur_node (c :: path) 0
    modifyState fun out => { out with out_nodes_amount := out.out_nodes_amount + 1 }
    parse_path_into_loop rows (cur_node + 1) (rest.drop 1)

/-- `parse_path` with its output parameters. -/
def parse_path_into (path : List Byte) : Sys (NodeNames L N) Unit := do
  if L = 0 ∨ N = 0 then
    returnStatus .INVALID_ARGUMENT
  if path.length = 0 then
    returnStatus .PATH_IS_EMPTY
  modifyState fun out => { out with out_nodes_amount := 0 }
  parse_path_into_loop N 0 path

end IntoArray

/-! ## Section 2: Printing -/

/-- Parent pointer and name of a node. -/
def VFSEntryStore.parentOf (es : VFSEntryStore) : VFSNode → Option FolderRef
  | .file f => (es.files f).parent_folder
  | .folder r => (es.folderAt r).parent_folder

/-- The name of a node, as the string its buffer holds. -/
def VFSEntryStore.nameOf (es : VFSEntryStore) : VFSNode → List Byte
  | .file f => (es.files f).name.str
  | .folder r => (es.folderAt r).name.str

/-- The node is a folder with the root flag. -/
def VFSEntryStore.isRoot (es : VFSEntryStore) : VFSNode → Bool
  | .file _ => false
  | .folder r => (es.folderAt r).is_root

/-- The loop of `get_parent_folders`, `n` iterations from its end. `parents` has
    been written to the front of the array of `capacity` elements and ends with
    `last`. -/
def get_parent_folders_loop {σ : Type} (es : VFSEntryStore) (capacity : Nat) :
    (n : Nat) → (parents : List FolderRef) → (last : FolderRef) → Sys σ (List FolderRef)
  | 0, _, _ => returnStatus .PATH_IS_TOO_LONG
  | n + 1, parents, last =>
    match (es.folderAt last).parent_folder with
    | none => undefinedBehaviour .null_dereference
    | some parent =>
      if (es.folderAt parent).is_root then
        pure parents
      else if parents.length ≥ capacity then
        -- writes `out_parent_folders[i]` behind the array
        undefinedBehaviour .out_of_bounds
      else
        get_parent_folders_loop es capacity n (parents ++ [parent]) parent

/-- The parent folders of the node without the root, closest first, written to
    an array of `capacity` elements. -/
def get_parent_folders {σ : Type} (es : VFSEntryStore) (node : VFSNode) (capacity : Nat) :
    Sys σ (List FolderRef) :=
  if es.isRoot node then
    pure []
  else
    match es.parentOf node with
    | none => undefinedBehaviour .null_dereference
    | some parent =>
      if (es.folderAt parent).is_root then
        pure []
      else if capacity = 0 then
        undefinedBehaviour .out_of_bounds
      else
        get_parent_folders_loop es capacity (MAX_PATH_NODES_AMOUNT - 1) [parent] parent

/-- Writes the delimiter, the name and the terminator at `path_end`. -/
def append_node_name_to_path {n : Nat} (node_name : List Byte)
    (path_end available_bytes_amount : Nat) : Sys (CharBuf n) Unit := do
  if available_bytes_amount = 0 then
    returnStatus .DATA_OVER_FLOW
  if available_bytes_amount < node_name.length + 1 then
    returnStatus .DATA_OVER_FLOW
  let path ← readState
  match path.write path_end (PATH_DELIMITER :: node_name ++ [0]) with
  | none => undefinedBehaviour .out_of_bounds
  | some path => modifyState fun _ => path

/-- The loop of `get_node_path` over the names from the root on. Returns the
    position in the path and the available bytes. -/
def append_names_to_path {n : Nat} :
    (names : List (List Byte)) → (cur_position_in_path available_bytes_amount : Nat) →
      Sys (CharBuf n) (Nat × Nat)
  | [], pos, available => pure (pos, available)
  | name :: names, pos, available => do
    append_node_name_to_path name pos available
    append_names_to_path names (pos + (name.length + 1)) (available - (name.length + 1))

/-- Prints the path of the node into the buffer. -/
def get_node_path {n : Nat} (es : VFSEntryStore) (node : VFSNode) : Sys (CharBuf n) Unit := do
  if n < PATH_BUFFER_LENGTH then
    returnStatus .INSUFFICIENT_ARRAY_PASSED
  if es.isRoot node then
    let path ← readState
    match path.write 0 [PATH_DELIMITER, 0] with
    | none => undefinedBehaviour .out_of_bounds
    | some path => modifyState fun _ => path
  else do
    let parent_folders ← get_parent_folders es node (MAX_PATH_NODES_AMOUNT - 1)
    let (pos, available) ← append_names_to_path
      (parent_folders.reverse.map fun r => es.nameOf (.folder r)) 0 n
    append_node_name_to_path (es.nameOf node) pos available

/-! ## Section 3: Truncating -/

/-- `*cur_char = '\0'`, where `cur_char` points to position `i`. -/
def clear_char {n : Nat} (i : Nat) : Sys (CharBuf n) Unit := do
  let path ← readState
  match path.write i [0] with
  | none => undefinedBehaviour .out_of_bounds
  | some path => modifyState fun _ => path

/-- The loop of `truncate_path` from position `i` down. -/
def truncate_path_loop {n : Nat} : (i : Nat) → Sys (CharBuf n) Unit
  | 0 => clear_char 0
  | i + 1 => do
    let path ← readState
    clear_char (i + 1)
    if path.bytes[i + 1]? = some PATH_DELIMITER then
      pure ()
    else
      truncate_path_loop i

/-- Cuts off the last name of the path and the delimiter in front of it. -/
def truncate_path {n : Nat} (path_string_length : Nat) : Sys (CharBuf n) Unit :=
  if path_string_length = 0 then
    pure ()
  else
    truncate_path_loop (path_string_length - 1)

end VirtualFS
