import VirtualFS.Framework.Slots
import VirtualFS.System.Storage

/-! # Files, Folders and the Entry Store

    The data types of `files.h`, `folders.h` and `vfs_entry_store.h`. An
    address of a file or folder is its position in the entry store; positions
    from `VFS_MAX_FILES_AMOUNT` (`VFS_MAX_FOLDERS_AMOUNT`) on stand for
    objects outside the store.

    A folder holds the addresses of its sub-entries in two arrays of slots, and
    every entry the address of its parent. The root is a record of its own, apart
    from the array of folders. `onEntryStore` and `onStorageMan` run a function of
    one part of the memory on the whole.
-/

namespace VirtualFS

open Framework

/-! ## Section 1: Entries -/

/-- If `is_empty` then the other two fields are not initialised. -/
structure ChunkExtent where
  is_empty : Bool
  start : Nat
  chunk_amount : Nat
  deriving DecidableEq

/-- `File *`, not NULL. -/
abbrev FileRef := Nat

/-- `Folder *`, not NULL: the root of the store or a position of its
    `folders` array. -/
inductive FolderRef where
  /-- The root, which lies outside of the array. -/
  | root
  /-- A position of the `folders` array. -/
  | slot (i : Nat)
  deriving DecidableEq

/-- Only the first `MAX_FILE_CHUNK_EXTENTS_AMOUNT` extents are inside the array. -/
structure File where
  /-- The size in chunks, tracked at allocation and deallocation. -/
  allocated_size : Nat
  /-- `NULL` until the file is linked. -/
  parent_folder : Option FolderRef
  data_chunk_extents : Nat → ChunkExtent
  /-- There is no room for a terminator behind a name of full length. -/
  name : CharBuf MAX_NAME_LENGTH

/-- A sub-entry is vacant if and only if it is NULL. -/
structure Folder where
  /-- `NULL` for the root, and for a folder that is not linked. -/
  parent_folder : Option FolderRef
  /-- Marks the root of the store. -/
  is_root : Bool
  /-- One byte longer than the buffer of a file. -/
  name : CharBuf (MAX_NAME_LENGTH + 1)
  sub_files : Nat → Option FileRef
  sub_folders : Nat → Option FolderRef

/-- `VFSNode`: either a file or a folder. -/
inductive VFSNode where
  | file (f : FileRef)
  | folder (r : FolderRef)
  deriving DecidableEq

/-- `VFSEntryStore` -/
structure VFSEntryStore where
  /-- The array of file records; a record is in use if it is marked in the map. -/
  files : FileRef → File
  folders : Nat → Folder
  /-- Which positions of `files` are in use. -/
  files_allocation_map : Nat → Bool
  /-- Which positions of `folders` are in use. -/
  folders_allocation_map : Nat → Bool
  /-- The root lies outside of the array and is never freed. -/
  root : Folder

/-- The memory of the core system: the entry store and the storage manager. -/
structure VFS where
  entry_store : VFSEntryStore
  storage_man : StorageMan

/-! ## Section 2: Reading and writing through addresses -/

namespace VFSEntryStore

/-- `*r` -/
def folderAt (es : VFSEntryStore) : FolderRef → Folder
  | .root => es.root
  | .slot i => es.folders i

/-- `*r = d` -/
def setFolder (es : VFSEntryStore) (r : FolderRef) (d : Folder) : VFSEntryStore :=
  match r with
  | .root => { es with root := d }
  | .slot i => { es with folders := Function.update es.folders i d }

/-- `*file = d`, for an element of the array of files. -/
def setFile (es : VFSEntryStore) (f : FileRef) (d : File) : VFSEntryStore :=
  { es with files := Function.update es.files f d }

variable (es : VFSEntryStore) (r r' : FolderRef) (d : Folder) (f f' : FileRef) (e : File)

/-- A folder is written in its own place only, the root apart from the array. -/
theorem folderAt_setFolder :
    (es.setFolder r d).folderAt r' = if r' = r then d else es.folderAt r' := by
  cases r <;> cases r' <;> simp [setFolder, folderAt, Function.update_apply]

@[simp] theorem folderAt_setFolder_self : (es.setFolder r d).folderAt r = d := by
  simp [folderAt_setFolder]

@[simp] theorem folderAt_setFolder_ne (h : r' ≠ r) :
    (es.setFolder r d).folderAt r' = es.folderAt r' := by
  simp [folderAt_setFolder, h]

@[simp] theorem files_setFolder : (es.setFolder r d).files = es.files := by
  cases r <;> rfl

@[simp] theorem files_allocation_map_setFolder :
    (es.setFolder r d).files_allocation_map = es.files_allocation_map := by
  cases r <;> rfl

@[simp] theorem folders_allocation_map_setFolder :
    (es.setFolder r d).folders_allocation_map = es.folders_allocation_map := by
  cases r <;> rfl

@[simp] theorem folderAt_setFile : (es.setFile f e).folderAt r = es.folderAt r := by
  cases r <;> rfl

@[simp] theorem files_setFile : (es.setFile f e).files = Function.update es.files f e := rfl

@[simp] theorem files_allocation_map_setFile :
    (es.setFile f e).files_allocation_map = es.files_allocation_map := rfl

@[simp] theorem folders_allocation_map_setFile :
    (es.setFile f e).folders_allocation_map = es.folders_allocation_map := rfl

/-- Two stores with the same arrays and the same root are equal. -/
theorem ext_folderAt {es es' : VFSEntryStore} (hfiles : es.files = es'.files)
    (hfolders : ∀ r, es.folderAt r = es'.folderAt r)
    (hfm : es.files_allocation_map = es'.files_allocation_map)
    (hdm : es.folders_allocation_map = es'.folders_allocation_map) : es = es' := by
  have hroot : es.root = es'.root := hfolders .root
  have harr : es.folders = es'.folders := funext fun i => hfolders (.slot i)
  cases es
  cases es'
  simp_all

end VFSEntryStore

/-- The sub-entries of a folder in the order of its slots. -/
def VFSEntryStore.children (es : VFSEntryStore) (r : FolderRef) : List VFSNode :=
  (occupants MAX_SUB_FILES_AMOUNT (es.folderAt r).sub_files).map .file ++
    (occupants MAX_SUB_FOLDERS_AMOUNT (es.folderAt r).sub_folders).map .folder

/-! ## Section 3: Parts of the memory -/

/-- A function that only touches the entry store. -/
def onEntryStore {α : Type} (p : Sys VFSEntryStore α) : Sys VFS α :=
  Prog.zoom VFS.entry_store (fun s es => { s with entry_store := es }) p

/-- A function that only touches the storage manager. -/
def onStorageMan {α : Type} (p : Sys StorageMan α) : Sys VFS α :=
  Prog.zoom VFS.storage_man (fun s storage_man => { s with storage_man := storage_man }) p

/-- Update the record of one file. -/
def VFS.modifyFile (s : VFS) (f : FileRef) (g : File → File) : VFS :=
  { s with entry_store := s.entry_store.setFile f (g (s.entry_store.files f)) }

end VirtualFS
