import VirtualFS.Disk.Truncation
import VirtualFS.Framework.FileTree
import VirtualFS.Paths.Splitting
import VirtualFS.Store.FileData
import VirtualFS.Workspace.System

/-! # What the Workspace Is For

    The file system that the workspace offers: a tree of paths and the path of
    the current folder. Slots, addresses, extents and chunks do not appear. An
    operation is performed or refused, and what it replies is part of the
    specification. This is a statement of purpose, not a translation of the
    source; the names of the operations are those of the workspace.

    * `FileSystem`: the tree, and the path of the current folder if it still exists.
    * `FileSystem.Performs`: an operation succeeds with a reply.
    * `FileSystem.Refuses`: an operation fails. A recursive removal that fails may
      have removed something below its target, everything else changes nothing.
    * `fileSystem`: the system of these steps.
-/

namespace VirtualFS

open Framework

/-! ## Section 1: States and replies -/

/-- The current folder may have been removed, then it has no path. -/
@[ext] structure FileSystem where
  tree : FileTree (List Byte) (List Byte)
  cwd : Option (List (List Byte))
  cwd_folder : ∀ l, cwd = some l → tree.item l = some .folder

/-- What is handed back: an entry is listed with its path and whether it is a folder. -/
inductive Reply where
  /-- The operation has been performed, and there is nothing to show. -/
  | done
  /-- The data that has been read. -/
  | bytes (data : List Byte)
  /-- The entries that have been listed or found. -/
  | entries (es : List (List (List Byte) × Bool))
  deriving DecidableEq

/-- The names on a path, if there are not too many and none is too long. -/
def pathNames (path : List Byte) : Option (List (List Byte)) :=
  if (pathComponents path).length ≤ MAX_PATH_NODES_AMOUNT ∧
      ∀ name ∈ pathComponents path, name.length ≤ MAX_NAME_LENGTH - 1 then
    some (pathComponents path)
  else none

namespace FileSystem

/-- The root alone, which is the current folder. -/
def fresh : FileSystem where
  tree := FileTree.empty
  cwd := some []
  cwd_folder := by
    intro l h
    cases h
    rfl

variable (σ : FileSystem)

/-- The path that is meant: absolute paths start with a delimiter. -/
def target (path : CString) : Option (List (List Byte)) :=
  match path.chars with
  | [] => some []
  | c :: rest =>
    if c = PATH_DELIMITER then
      if rest = [] then some [] else pathNames rest
    else
      σ.cwd.bind fun l => (pathNames (c :: rest)).map (l ++ ·)

/-! ## Section 2: Changes -/

/-- There is a new entry `x` in the folder at `l`. -/
def Creates (l : List (List Byte)) (x : List Byte) (v : Item (List Byte)) (σ' : FileSystem) :
    Prop :=
  NameAcceptable x ∧ σ.tree.create l x v = some σ'.tree ∧ σ'.cwd = σ.cwd

/-- The file at `l` has the data `d`. -/
def Writes (l : List (List Byte)) (d : List Byte) (σ' : FileSystem) : Prop :=
  σ.tree.write l d = some σ'.tree ∧ σ'.cwd = σ.cwd

/-- What was at `l` is gone, perhaps with the current folder. -/
def Removes (l : List (List Byte)) (σ' : FileSystem) : Prop :=
  σ.tree.remove l = some σ'.tree ∧ σ'.cwd = σ.cwd.filter fun k => ! decide (l <+: k)

/-- What was at `old` is the entry `x` of the folder at `l`; the current folder goes along. -/
def Relocates (old l : List (List Byte)) (x : List Byte) (σ' : FileSystem) : Prop :=
  NameAcceptable x ∧ σ.tree.relocate old l x = some σ'.tree ∧
    σ'.cwd = σ.cwd.map (PathMap.reroot old (l ++ [x]))

/-- The folder at `l` is the current one. -/
def Enters (l : List (List Byte)) (σ' : FileSystem) : Prop :=
  σ.tree.item l = some .folder ∧ σ'.tree = σ.tree ∧ σ'.cwd = some l

/-- The entries at the paths in `P`, each once. -/
def Lists (P : List (List Byte) → Prop) (es : List (List (List Byte) × Bool)) : Prop :=
  es.Nodup ∧ ∀ l b, (l, b) ∈ es ↔ P l ∧ ∃ v, σ.tree.item l = some v ∧ v.isFolder = b

/-! ## Section 3: Operations -/

/-- The operation is performed. -/
def Performs : WsOp → Reply → FileSystem → Prop
  | .ws_create_file name, reply, σ' =>
    reply = .done ∧ ∃ l, σ.cwd = some l ∧ σ.Creates l name.chars (.file []) σ'
  | .ws_create_folder name, reply, σ' =>
    reply = .done ∧ ∃ l, σ.cwd = some l ∧ σ.Creates l name.chars .folder σ'
  | .ws_remove_file path, reply, σ' =>
    reply = .done ∧ ∃ l d, σ.target path = some l ∧ σ.tree.item l = some (.file d) ∧
      σ.Removes l σ'
  | .ws_remove_folder path recursive, reply, σ' =>
    reply = .done ∧ ∃ l, σ.target path = some l ∧ σ.tree.item l = some .folder ∧
      (recursive = true ∨ ∀ x, σ.tree.item (l ++ [x]) = none) ∧ σ.Removes l σ'
  | .ws_move_node path parent_path, reply, σ' =>
    reply = .done ∧ ∃ k x l, σ.target path = some (k ++ [x]) ∧ σ.target parent_path = some l ∧
      σ.Relocates (k ++ [x]) l x σ'
  | .ws_rename_node path name, reply, σ' =>
    reply = .done ∧ ∃ k x, σ.target path = some (k ++ [x]) ∧
      σ.Relocates (k ++ [x]) k name.chars σ'
  | .ws_change_cur_folder path, reply, σ' =>
    reply = .done ∧
      if path.chars = BACK_TO_PARENT_OPERATOR then
        ∃ k x, σ.cwd = some (k ++ [x]) ∧ σ.Enters k σ'
      else
        ∃ l, σ.target path = some l ∧ σ.Enters l σ'
  | .ws_get_sub_entries path length, reply, σ' =>
    σ' = σ ∧ ∃ es, reply = .entries es ∧ es.length ≤ length ∧
      match path with
      | none => σ.Lists (fun k => ∃ l x, σ.cwd = some l ∧ k = l ++ [x]) es
      | some path => ∃ l, σ.target path = some l ∧ σ.tree.item l = some .folder ∧
          σ.Lists (fun k => ∃ x, k = l ++ [x]) es
  | .ws_global_search_by_name name length, reply, σ' =>
    σ' = σ ∧ ∃ es, reply = .entries es ∧ es.length ≤ length ∧
      σ.Lists (fun k => ∃ l, k = l ++ [name.chars]) es
  | .ws_file_append path data, reply, σ' =>
    reply = .done ∧ 0 < data.length ∧ ∃ l d, σ.target path = some l ∧
      σ.tree.item l = some (.file d) ∧ σ.Writes l (d ++ padded data) σ'
  | .ws_file_clear path, reply, σ' =>
    reply = .done ∧ ∃ l d, σ.target path = some l ∧ σ.tree.item l = some (.file d) ∧
      σ.Writes l [] σ'
  | .ws_file_truncate path amount, reply, σ' =>
    reply = .done ∧ ∃ l d, σ.target path = some l ∧ σ.tree.item l = some (.file d) ∧
      amount < d.length ∧ σ.Writes l (truncateBytes amount d) σ'
  | .ws_file_read_all path size, reply, σ' =>
    σ' = σ ∧ ∃ l d, σ.target path = some l ∧ σ.tree.item l = some (.file d) ∧
      d.length ≤ size ∧ reply = .bytes d
  | .ws_file_read_at path offset amount size, reply, σ' =>
    σ' = σ ∧ ∃ l d, σ.target path = some l ∧ σ.tree.item l = some (.file d) ∧
      0 < amount ∧ amount ≤ size ∧ offset + amount ≤ d.length ∧
      reply = .bytes ((d.drop offset).take amount)

/-- The operation is refused: nothing changes, but a recursive removal may have got stuck
    after it has removed some of what is below its target. -/
def Refuses (op : WsOp) (σ' : FileSystem) : Prop :=
  σ' = σ ∨ ∃ path l, op = .ws_remove_folder path true ∧ σ.target path = some l ∧
    σ.tree.PrunedBelow σ'.tree l ∧
    σ'.cwd = σ.cwd.filter fun k => (σ'.tree.item k).isSome

end FileSystem

/-- Runs of the specified file system: a step shows the reply, or that there is none. -/
def fileSystem : System FileSystem (WsOp × Option Reply) where
  init := fun σ => σ = FileSystem.fresh
  step := fun σ label σ' =>
    match label.2 with
    | some reply => σ.Performs label.1 reply σ'
    | none => σ.Refuses label.1 σ'

end VirtualFS
