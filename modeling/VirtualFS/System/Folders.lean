import VirtualFS.System.Entries

/-! # Folders

    Model of `files.c` and `folders.c`: initialising entries, names, and the
    links between a folder and its sub-entries.

    Names are compared up to the first NUL of either side. A slot of a folder is
    either empty or holds an address; the scans run over the slots in order.
    Reading a parent pointer that is null is undefined where the code dereferences
    it, and an error where the code asks.
-/

namespace VirtualFS

open Framework Prog

/-! ## Section 1: Names -/

/-- The loop of `name_eq` over `uninitialised_name`, next to the bytes of the
    terminated name. -/
def name_eq_loop : (initialised_name uninitialised_name : List Byte) → Bool
  | initialised, [] => initialised.headD 0 == 0
  | initialised, c :: cs =>
    if initialised.headD 0 = 0 then
      c == 0
    else if initialised.headD 0 ≠ c then
      false
    else
      name_eq_loop initialised.tail cs

/-- Compares a terminated name with one of a given length, in which a NUL ends it as well. -/
def name_eq {n : Nat} (initialised_name : CharBuf n) (uninitialised_name : List Byte) :
    Except StatusCode Bool :=
  if uninitialised_name.length = 0 then
    .error .INSUFFICIENT_ARRAY_PASSED
  else
    .ok (name_eq_loop initialised_name.bytes uninitialised_name)

/-- The scan over an array of sub-entries that `search_sub_file`,
    `search_sub_folder` and `sub_entry_name_is_unique` share: the first
    occupied slot whose entry has the name. -/
def scan_sub_entries {α : Type} {n : Nat} (name_of : α → CharBuf n) (name : List Byte) :
    List (Option α) → Except StatusCode (Option α)
  | [] => .ok none
  | none :: slots => scan_sub_entries name_of name slots
  | some x :: slots => do
    let names_are_equal ← name_eq (name_of x) name
    if names_are_equal then
      return some x
    else
      scan_sub_entries name_of name slots

def Folder.fileSlots (folder : Folder) : List (Option FileRef) :=
  (List.range MAX_SUB_FILES_AMOUNT).map folder.sub_files

def Folder.folderSlots (folder : Folder) : List (Option FolderRef) :=
  (List.range MAX_SUB_FOLDERS_AMOUNT).map folder.sub_folders

def VFSEntryStore.fileName (es : VFSEntryStore) (f : FileRef) : CharBuf MAX_NAME_LENGTH :=
  (es.files f).name

def VFSEntryStore.folderName (es : VFSEntryStore) (r : FolderRef) :
    CharBuf (MAX_NAME_LENGTH + 1) :=
  (es.folderAt r).name

/-- No file and no folder of `parent_folder` has the name. -/
def sub_entry_name_is_unique (es : VFSEntryStore) (parent_folder : FolderRef)
    (name : List Byte) : Except StatusCode Bool := do
  let folder := es.folderAt parent_folder
  match ← scan_sub_entries es.fileName name folder.fileSlots with
  | some _ => return false
  | none =>
    match ← scan_sub_entries es.folderName name folder.folderSlots with
    | some _ => return false
    | none => return true

/-- The NUL and the path delimiter. -/
def INVALID_CHARS : List Byte := [0, PATH_DELIMITER]

/-- None of the characters is an invalid one. -/
def name_chars_are_valid (name : List Byte) : Bool :=
  name.all fun c => INVALID_CHARS.all fun invalid => c != invalid

/-- The five checks of a name, in the order of the source; the name of the root is reserved. -/
def validate_sub_entry_name (es : VFSEntryStore) (parent_folder : FolderRef)
    (entry_name : List Byte) : Except StatusCode Unit := do
  if entry_name.length > MAX_NAME_LENGTH then
    throw .DATA_OVER_FLOW
  if entry_name.length = 0 then
    throw .INSUFFICIENT_ARRAY_PASSED
  if name_chars_are_valid entry_name = false then
    throw .INVALID_CHARECTER_IN_IDENTIFIER
  if entry_name.length = root_name.length ∧ entry_name = root_name then
    throw .IDENTIFIER_NOT_AVAILABLE
  let name_is_unique ← sub_entry_name_is_unique es parent_folder entry_name
  if name_is_unique = false then
    throw .IDENTIFIER_NOT_AVAILABLE

/-- Copies the name up to its length or first NUL and terminates it. Neither
    the buffer's size nor its use for a file or a folder is looked at. -/
def set_entry_name {n : Nat} (name : List Byte) (out_entry_name : CharBuf n) :
    Option (CharBuf n) :=
  out_entry_name.write 0 (cutAtNul name ++ [0])

/-! ## Section 2: Slots -/

/-- Some slot of the folder is occupied. -/
def has_sub_entries (folder : Folder) : Bool :=
  folder.fileSlots.any Option.isSome || folder.folderSlots.any Option.isSome

/-- The first empty slot for a sub-folder. -/
def get_available_sub_folder_position (es : VFSEntryStore) (parent_folder : FolderRef) :
    Except StatusCode Nat :=
  match (List.range MAX_SUB_FOLDERS_AMOUNT).find? fun i =>
      ((es.folderAt parent_folder).sub_folders i).isNone with
  | some i => .ok i
  | none => .error .NO_SPACE

/-- The first empty slot for a sub-file. -/
def get_available_sub_file_position (es : VFSEntryStore) (parent_folder : FolderRef) :
    Except StatusCode Nat :=
  match (List.range MAX_SUB_FILES_AMOUNT).find? fun i =>
      ((es.folderAt parent_folder).sub_files i).isNone with
  | some i => .ok i
  | none => .error .NO_SPACE

/-- `parent_folder->sub_files[i] = value` -/
def VFSEntryStore.setSubFile (es : VFSEntryStore) (parent_folder : FolderRef) (i : Nat)
    (value : Option FileRef) : VFSEntryStore :=
  let folder := es.folderAt parent_folder
  es.setFolder parent_folder
    { folder with sub_files := Function.update folder.sub_files i value }

/-- `parent_folder->sub_folders[i] = value` -/
def VFSEntryStore.setSubFolder (es : VFSEntryStore) (parent_folder : FolderRef) (i : Nat)
    (value : Option FolderRef) : VFSEntryStore :=
  let folder := es.folderAt parent_folder
  es.setFolder parent_folder
    { folder with sub_folders := Function.update folder.sub_folders i value }

/-- `file->parent_folder = value` -/
def VFSEntryStore.setFileParent (es : VFSEntryStore) (f : FileRef)
    (value : Option FolderRef) : VFSEntryStore :=
  es.setFile f { es.files f with parent_folder := value }

/-- `folder->parent_folder = value` -/
def VFSEntryStore.setFolderParent (es : VFSEntryStore) (r : FolderRef)
    (value : Option FolderRef) : VFSEntryStore :=
  es.setFolder r { es.folderAt r with parent_folder := value }

/-! ## Section 3: Initialising entries -/

/-- Every slot is set to NULL. -/
def folder_free_sub_entries (folder : Folder) : Folder :=
  { folder with
    sub_folders := fun i => if i < MAX_SUB_FOLDERS_AMOUNT then none else folder.sub_folders i
    sub_files := fun i => if i < MAX_SUB_FILES_AMOUNT then none else folder.sub_files i }

/-- The root is named `root`, has the root flag, and has no parent. -/
def root_folder_init : Sys VFSEntryStore Unit := do
  if root_name.length > MAX_NAME_LENGTH then
    returnStatus .DATA_OVER_FLOW
  let es ← readState
  match es.root.name.write 0 (root_name ++ [0]) with
  | none => undefinedBehaviour .out_of_bounds
  | some name =>
    modifyState fun es =>
      { es with
        root :=
          { folder_free_sub_entries es.root with
            name := name
            is_root := true
            parent_folder := none } }

/-- Only the flags of the extents are initialised. -/
def init_empty_extensions (extents : Nat → ChunkExtent) : Nat → ChunkExtent :=
  fun i =>
    if i < MAX_FILE_CHUNK_EXTENTS_AMOUNT then { extents i with is_empty := true }
    else extents i

/-- The name is copied with all its bytes and terminated. -/
def file_init (out_file : FileRef) (file_name : List Byte) : Sys VFSEntryStore Unit := do
  if file_name.length ≥ MAX_NAME_LENGTH then
    returnStatus .INSUFFICIENT_ARRAY_PASSED
  let es ← readState
  match (es.files out_file).name.write 0 (file_name ++ [0]) with
  | none => undefinedBehaviour .out_of_bounds
  | some name =>
    modifyState fun es => es.setFile out_file
      { name := name
        allocated_size := 0
        data_chunk_extents := init_empty_extensions (es.files out_file).data_chunk_extents
        parent_folder := none }

/-- Links a file that `file_init` has set up: a slot of the parent, then the parent pointer. -/
def sub_file_init (file : FileRef) (parent_folder : FolderRef) : Sys VFSEntryStore Unit := do
  let es ← readState
  ofExcept (validate_sub_entry_name es parent_folder (es.files file).name.str)
  let sub_file_index ← ofExcept (get_available_sub_file_position es parent_folder)
  modifyState fun es => es.setSubFile parent_folder sub_file_index (some file)
  modifyState fun es => es.setFileParent file (some parent_folder)

/-- Names a new folder and links it. Nothing is written before the name has been checked and
    a slot found, so a failure leaves nothing behind. -/
def sub_folder_init (folder : FolderRef) (name : List Byte) (parent_folder : FolderRef) :
    Sys VFSEntryStore Unit := do
  let es ← readState
  ofExcept (validate_sub_entry_name es parent_folder name)
  let sub_folder_index ← ofExcept (get_available_sub_folder_position es parent_folder)
  match set_entry_name name (es.folderAt folder).name with
  | none => undefinedBehaviour .out_of_bounds
  | some entry_name =>
    modifyState fun es => es.setFolder folder
      (folder_free_sub_entries
        { es.folderAt folder with name := entry_name, is_root := false })
    modifyState fun es => es.setFolderParent folder (some parent_folder)
    modifyState fun es => es.setSubFolder parent_folder sub_folder_index (some folder)

/-! ## Section 4: Unlinking -/

/-- The slot of `parent_folder` that holds the file; a null parent is refused here. -/
def find_sub_file_index (es : VFSEntryStore) (parent_folder : Option FolderRef)
    (file : FileRef) : Except StatusCode Nat :=
  match parent_folder with
  | none => .error .NULL_POINTER_PASSED
  | some parent =>
    match (List.range MAX_SUB_FILES_AMOUNT).find? fun i =>
        (es.folderAt parent).sub_files i = some file with
    | some i => .ok i
    | none => .error .SEARCH_TARGET_NOT_FOUND

/-- Empties the slot and clears the parent pointer. -/
def unlink_sub_file (file : FileRef) : Sys VFSEntryStore Unit := do
  let es ← readState
  let sub_file_index ← ofExcept (find_sub_file_index es (es.files file).parent_folder file)
  match (es.files file).parent_folder with
  | none => undefinedBehaviour .null_dereference
  | some parent =>
    modifyState fun es => es.setSubFile parent sub_file_index none
    modifyState fun es => es.setFileParent file none

/-- The search reads the slots of `sub_folder->parent_folder`. -/
def find_sub_folder_index (sub_folder : FolderRef) : Sys VFSEntryStore Nat := do
  let es ← readState
  if (es.folderAt sub_folder).is_root then
    returnStatus .INVALID_ROOT_OPERATION
  match (es.folderAt sub_folder).parent_folder with
  | none => undefinedBehaviour .null_dereference
  | some parent =>
    match (List.range MAX_SUB_FOLDERS_AMOUNT).find? fun i =>
        (es.folderAt parent).sub_folders i = some sub_folder with
    | some i => return i
    | none => returnStatus .SEARCH_TARGET_NOT_FOUND

/-- Unlinks a folder that is not the root. Without `force` it has to be empty. -/
def unlink_sub_folder (sub_folder : FolderRef) (force : Bool) : Sys VFSEntryStore Unit := do
  let es ← readState
  if (es.folderAt sub_folder).is_root then
    returnStatus .INVALID_ROOT_OPERATION
  if has_sub_entries (es.folderAt sub_folder) ∧ force = false then
    returnStatus .ATTEMPTED_TO_DELETE_FOLDER_WITH_SUB_ENTRIES
  let sub_folder_index ← find_sub_folder_index sub_folder
  match (es.folderAt sub_folder).parent_folder with
  | none => undefinedBehaviour .null_dereference
  | some parent =>
    modifyState fun es => es.setSubFolder parent sub_folder_index none
    modifyState fun es => es.setFolderParent sub_folder none

/-! ## Section 5: Printing -/

/-- The text that is printed for a folder, `levels` levels above the limit: `step_count` is
    `MAX_FOLDER_DEPTH + 1 - levels`. The status of the calls for sub-folders is ignored. -/
def print_folder_recursion (es : VFSEntryStore) :
    (levels : Nat) → (cur_folder : FolderRef) → Except StatusCode (List Byte)
  | 0, _ => .error .RECURSIVE_OPERATION_LIMIT_EXCEEDED
  | levels + 1, cur_folder =>
    let folder := es.folderAt cur_folder
    -- after `step_count++`
    let indentation := List.replicate (2 * (MAX_FOLDER_DEPTH + 1 - levels)) SPACE
    .ok (folder.name.str ++ ascii "/\n" ++
      ((occupants MAX_SUB_FILES_AMOUNT folder.sub_files).flatMap fun f =>
        indentation ++ (es.files f).name.str ++ ascii "\n") ++
      (occupants MAX_SUB_FOLDERS_AMOUNT folder.sub_folders).flatMap fun d =>
        indentation ++ (print_folder_recursion es levels d).toOption.getD [])

/-- The text printed for a folder and what is below it. -/
def print_folder (es : VFSEntryStore) (folder : FolderRef) : Except StatusCode (List Byte) :=
  print_folder_recursion es (MAX_FOLDER_DEPTH + 1) folder

end VirtualFS
