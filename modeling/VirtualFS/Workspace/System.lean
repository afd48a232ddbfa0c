import VirtualFS.Disk.Reading
import VirtualFS.Paths.Printing
import VirtualFS.Paths.Resolution
import VirtualFS.Store.Reachable
import VirtualFS.Workspace.Operations

/-! # Runs of the Workspace

    The workspace as a transition system: one step is one operation with any
    arguments, successful or not. What an operation does is nothing, one call
    of the entry store on entries that the paths resolve to, or a change of
    the current folder.

    * `WsOp`, `WsOp.exec`: the operations and their results.
    * `WsOp.request`: the call of the store that an operation stands for.
    * `WsStep`: what a step does. Every invariant of the store is one of the
      workspace because of it.
    * `workspaceSystem_sound`: the tree, and a current folder that is live or vacant.
-/

namespace VirtualFS

open Framework Prog Outcome ParentMap VFSEntryStore

variable {ws ws' : Workspace} {s s' : VFS} {n : VFSNode} {f : FileRef} {r d : FolderRef}
  {path : CString}

/-! ## Section 1: The system -/

/-- The operations with their arguments. -/
inductive WsOp where
  | ws_create_file (file_name : CString)
  | ws_create_folder (folder_name : CString)
  | ws_remove_file (file_path : CString)
  | ws_remove_folder (folder_path : CString) (recursive : Bool)
  | ws_move_node (node_path target_new_parent_path : CString)
  | ws_rename_node (target_node_path new_name : CString)
  | ws_change_cur_folder (path : CString)
  | ws_get_sub_entries (path : Option CString) (node_buffer_length : Nat)
  | ws_global_search_by_name (name : CString) (nodes_buffer_length : Nat)
  | ws_file_append (target_file_path : CString) (data : List Byte)
  | ws_file_clear (target_file_path : CString)
  | ws_file_truncate (target_file_path : CString) (amount : Nat)
  | ws_file_read_all (target_file_path : CString) (buffer_size : Nat)
  | ws_file_read_at (target_file_path : CString) (offset amount buffer_size : Nat)
  deriving DecidableEq

/-- What an operation hands back besides its status. -/
inductive WsResult where
  /-- Nothing but the status. -/
  | done
  /-- What has been read from a file. -/
  | bytes (data : List Byte)
  /-- Sub-entries, or what a search has found. -/
  | nodes (nodes : List VFSNode)
  deriving DecidableEq

/-- The program with its result made a `WsResult`. -/
def returning {α : Type} (p : Sys Workspace α) (result : α → WsResult) :
    Sys Workspace WsResult := do
  let a ← p
  return result a

namespace WsOp

/-- The function that an operation runs, with its result. -/
def exec : WsOp → Sys Workspace WsResult
  | ws_create_file n => returning (VirtualFS.ws_create_file n) fun _ => .done
  | ws_create_folder n => returning (VirtualFS.ws_create_folder n) fun _ => .done
  | ws_remove_file p => returning (VirtualFS.ws_remove_file p) fun _ => .done
  | ws_remove_folder p rec => returning (VirtualFS.ws_remove_folder p rec) fun _ => .done
  | ws_move_node p q => returning (VirtualFS.ws_move_node p q) fun _ => .done
  | ws_rename_node p n => returning (VirtualFS.ws_rename_node p n) fun _ => .done
  | ws_change_cur_folder p => returning (VirtualFS.ws_change_cur_folder p) fun _ => .done
  | ws_get_sub_entries p len => returning (VirtualFS.ws_get_sub_entries p len) .nodes
  | ws_global_search_by_name n len =>
    returning (VirtualFS.ws_global_search_by_name n len) .nodes
  | ws_file_append p data => returning (VirtualFS.ws_file_append p data) fun _ => .done
  | ws_file_clear p => returning (VirtualFS.ws_file_clear p) fun _ => .done
  | ws_file_truncate p amount =>
    returning (VirtualFS.ws_file_truncate p amount) fun _ => .done
  | ws_file_read_all p size => returning (VirtualFS.ws_file_read_all p size) .bytes
  | ws_file_read_at p off amount size =>
    returning (VirtualFS.ws_file_read_at p off amount size) .bytes

end WsOp

/-- The file that a path resolves to. -/
def fileAtPath (ws : Workspace) (path : CString) : Option FileRef :=
  match ws_resolve_path ws path with
  | .ok (.file f) => some f
  | _ => none

/-- The folder that a path resolves to. -/
def folderAtPath (ws : Workspace) (path : CString) : Option FolderRef :=
  match ws_resolve_path ws path with
  | .ok (.folder r) => some r
  | _ => none

/-- The call of the entry store that an operation ends in, if its paths resolve. -/
def WsOp.request (ws : Workspace) : WsOp → Option StoreOp
  | ws_create_file n => some (.vfs_sub_file_init n.chars ws.cur_folder)
  | ws_create_folder n => some (.vfs_sub_folder_init n.chars ws.cur_folder)
  | ws_remove_file p =>
    if ws.safe_mode then none else (fileAtPath ws p).map .delete_vfs_file
  | ws_remove_folder p rec =>
    if ws.safe_mode then none else (folderAtPath ws p).map (.delete_vfs_folder · rec)
  | ws_move_node p q =>
    match ws_resolve_path ws p, folderAtPath ws q with
    | .ok (.file f), some new_parent => some (.move_file f new_parent)
    | .ok (.folder r), some new_parent => some (.move_folder r new_parent)
    | _, _ => none
  | ws_rename_node p n =>
    match ws_resolve_path ws p with
    | .ok (.file f) => some (.rename_file f n.chars)
    | .ok (.folder r) => some (.rename_folder r n.chars)
    | .error _ => none
  | ws_file_append p data => (fileAtPath ws p).map (.file_append · data)
  | ws_file_clear p => (fileAtPath ws p).map .file_delete_data
  | ws_file_truncate p amount => (fileAtPath ws p).map (.file_truncate_by · amount)
  | _ => none

/-- Start-up as in `main`; the arrays are arbitrary. -/
def workspace_start (storage : Nat → Byte) (allocation_map : Nat → Bool)
    (allocation_map_size : Nat) : Sys Workspace Unit := do
  onSystem (system_init storage allocation_map allocation_map_size)
  workspace_init

/-- The workspace over an entry store and storage manager that have been initialised. -/
def WorkspaceInitialised (ws : Workspace) : Prop :=
  ∃ memory storage allocation_map allocation_map_size,
    workspace_start storage allocation_map allocation_map_size memory = .ok () ws

/-- Runs whose steps all meet a condition. -/
def workspaceSystemWith (condition : Workspace → WsOp → Prop) : System Workspace WsOp :=
  Prog.system WorkspaceInitialised condition WsOp.exec

/-- All runs of the workspace. -/
def workspaceSystem : System Workspace WsOp := workspaceSystemWith fun _ _ => True

/-- Memory before start-up. -/
def Workspace.zeroed : Workspace := ⟨VFS.zeroed, false, .root, CharBuf.zeroed _⟩

/-- Run operations that meet a condition from start-up in zeroed memory. -/
def runWorkspace (condition : Workspace → WsOp → Prop) [∀ ws op, Decidable (condition ws op)]
    (ops : List WsOp) : Option Workspace :=
  (workspace_start (fun _ => 0) (fun _ => false) CHUNKS_AMOUNT Workspace.zeroed).final.bind
    (runAll condition WsOp.exec ops)

/-! ## Section 2: What an operation does -/

theorem fileAtPath_eq_some :
    fileAtPath ws path = some f ↔ ws_resolve_path ws path = .ok (.file f) := by
  unfold fileAtPath
  split
  · next g hg => simp [hg]
  · next hnot => simpa using hnot f

theorem folderAtPath_eq_some :
    folderAtPath ws path = some r ↔ ws_resolve_path ws path = .ok (.folder r) := by
  unfold folderAtPath
  split
  · next d hd => simp [hd]
  · next hnot => simpa using hnot r

/-- The path leads to a file, or the operation fails. -/
theorem ws_resolve_file_cases (ws : Workspace) (path : CString) :
    (∃ f, fileAtPath ws path = some f ∧ ws_resolve_file path ws = .ok f ws) ∨
      (fileAtPath ws path = none ∧ ∃ e, ws_resolve_file path ws = .fail e ws) := by
  unfold fileAtPath ws_resolve_file
  rw [bind_run, readState_run, bind_ok]
  cases ws_resolve_path ws path with
  | ok n =>
    cases n with
    | file f => exact Or.inl ⟨f, rfl, rfl⟩
    | folder r => exact Or.inr ⟨rfl, _, rfl⟩
  | error e => exact Or.inr ⟨rfl, e, rfl⟩

/-- A read-only operation, or one that fails before it calls the store. -/
def LeavesAlone (p : Sys Workspace WsResult) (ws : Workspace) : Prop :=
  (p ws).Sat (fun _ ws' => ws' = ws) (fun _ ws' => ws' = ws) (fun _ => False)

/-- The operation is the call of the store. -/
def CallsStore (p : Sys Workspace WsResult) (ws : Workspace) (sop : StoreOp) : Prop :=
  p ws = (onSystem sop.exec ws).bind fun _ ws' => .ok .done ws'

/-- Failing without an effect. -/
theorem leavesAlone_of_fail {p : Sys Workspace WsResult} {e : StatusCode}
    (h : p ws = .fail e ws) : LeavesAlone p ws := by
  unfold LeavesAlone
  rw [h]
  exact rfl

/-- Reading has no effect. -/
theorem leavesAlone_of_readOnly {α : Type} {p : Sys Workspace α} (hp : ReadOnly p)
    (result : α → WsResult) : LeavesAlone (returning p result) ws :=
  (hp.bind fun a => ReadOnly.pure (result a)) ws

/-- The result of a creation is dropped by the workspace. -/
theorem callsStore_create {α : Type} {p : Workspace → Sys VFS α} {sop : StoreOp}
    (hp : sop.exec = do let _ ← p ws) :
    CallsStore (returning (do
      let ws ← readState
      let _ ← onSystem (p ws)) fun _ => .done) ws sop := by
  unfold CallsStore returning onSystem
  rw [hp]
  simp only [bind_run, readState_run, bind_ok, zoom_run]
  cases p ws ws.toVFS with
  | ok a s => rfl
  | fail e s => rfl
  | fault x => rfl

/-! ### Reading -/

theorem onSystem_readOnly {α : Type} {p : Sys VFS α} (hp : ReadOnly p) : ReadOnly (onSystem p) :=
  hp.zoom fun _ => rfl

theorem ws_resolve_file_readOnly (path : CString) : ReadOnly (ws_resolve_file path) := by
  apply ReadOnly.readState.bind
  intro ws
  apply (ReadOnly.ofExcept _).bind
  intro n
  cases n with
  | file f => exact ReadOnly.pure f
  | folder r => exact ReadOnly.returnStatus _

theorem ws_file_read_all_readOnly (path : CString) (size : Nat) :
    ReadOnly (ws_file_read_all path size) := by
  apply (ws_resolve_file_readOnly path).bind
  intro f
  apply ReadOnly.readState.bind
  intro ws
  apply ReadOnly.guard
  apply ReadOnly.ite
  · exact ReadOnly.pure _
  · exact onSystem_readOnly (file_read_at_readOnly _ _ _ _)

theorem ws_file_read_at_readOnly (path : CString) (off amount size : Nat) :
    ReadOnly (ws_file_read_at path off amount size) := by
  unfold ws_file_read_at
  apply ReadOnly.guard
  apply (ws_resolve_file_readOnly path).bind
  intro f
  exact onSystem_readOnly (file_read_at_readOnly _ _ _ _)

theorem ws_get_sub_entries_readOnly (path : Option CString) (len : Nat) :
    ReadOnly (ws_get_sub_entries path len) := by
  apply ReadOnly.readState.bind
  intro ws
  cases path with
  | none =>
    apply ReadOnly.guard
    exact ReadOnly.pure _
  | some path =>
    apply (ReadOnly.ofExcept _).bind
    intro n
    cases n with
    | file f => exact ReadOnly.returnStatus _
    | folder r =>
      apply ReadOnly.guard
      exact ReadOnly.pure _

theorem ws_global_search_readOnly (name : CString) (len : Nat) :
    ReadOnly (ws_global_search_by_name name len) := by
  apply ReadOnly.readState.bind
  intro ws
  split
  · exact ReadOnly.pure _
  · exact ReadOnly.returnStatus _

/-! ### All operations -/

/-- An operation calls the store on what its paths resolve to, or it leaves the
    workspace alone. -/
def Dispatches (op : WsOp) (ws : Workspace) : Prop :=
  (∃ sop, op.request ws = some sop ∧ CallsStore op.exec ws sop) ∨
    (op.request ws = none ∧ LeavesAlone op.exec ws)

/-- An operation that fails early asks nothing of the store. -/
theorem dispatches_of_fail {op : WsOp} {e : StatusCode} (hreq : op.request ws = none)
    (h : op.exec ws = .fail e ws) : Dispatches op ws :=
  Or.inr ⟨hreq, leavesAlone_of_fail h⟩

theorem ws_remove_file_dispatches (p : CString) (ws : Workspace) :
    Dispatches (.ws_remove_file p) ws := by
  by_cases hsafe : ws.safe_mode = true
  · apply dispatches_of_fail (e := .INVALID_SAFE_MODE_OP)
    · simp [WsOp.request, hsafe]
    · simp [WsOp.exec, returning, ws_remove_file, hsafe]
  · cases hpath : ws_resolve_path ws p with
    | error e =>
      apply dispatches_of_fail (e := e)
      · simp [WsOp.request, fileAtPath, hpath]
      · simp [WsOp.exec, returning, ws_remove_file, hsafe, hpath]
    | ok n =>
      cases n with
      | folder r =>
        apply dispatches_of_fail (e := .EXPECTED_FILE_GOT_FOLDER)
        · simp [WsOp.request, fileAtPath, hpath]
        · simp [WsOp.exec, returning, ws_remove_file, hsafe, hpath]
      | file f =>
        refine Or.inl ⟨.delete_vfs_file f, ?_, ?_⟩
        · simp [WsOp.request, fileAtPath, hpath, hsafe]
        · simp [CallsStore, WsOp.exec, returning, ws_remove_file, hsafe, hpath, StoreOp.exec]

theorem ws_remove_folder_dispatches (p : CString) (recursive : Bool) (ws : Workspace) :
    Dispatches (.ws_remove_folder p recursive) ws := by
  by_cases hsafe : ws.safe_mode = true
  · apply dispatches_of_fail (e := .INVALID_SAFE_MODE_OP)
    · simp [WsOp.request, hsafe]
    · simp [WsOp.exec, returning, ws_remove_folder, hsafe]
  · cases hpath : ws_resolve_path ws p with
    | error e =>
      apply dispatches_of_fail (e := e)
      · simp [WsOp.request, folderAtPath, hpath]
      · simp [WsOp.exec, returning, ws_remove_folder, hsafe, hpath]
    | ok n =>
      cases n with
      | file f =>
        apply dispatches_of_fail (e := .EXPECTED_FILE_GOT_FOLDER)
        · simp [WsOp.request, folderAtPath, hpath]
        · simp [WsOp.exec, returning, ws_remove_folder, hsafe, hpath]
      | folder r =>
        refine Or.inl ⟨.delete_vfs_folder r recursive, ?_, ?_⟩
        · simp [WsOp.request, folderAtPath, hpath, hsafe]
        · simp [CallsStore, WsOp.exec, returning, ws_remove_folder, hsafe, hpath, StoreOp.exec]

theorem ws_move_node_dispatches (p q : CString) (ws : Workspace) :
    Dispatches (.ws_move_node p q) ws := by
  cases hp : ws_resolve_path ws p with
  | error e =>
    apply dispatches_of_fail (e := e)
    · simp [WsOp.request, hp]
    · simp [WsOp.exec, returning, ws_move_node, hp]
  | ok n =>
    cases hq : ws_resolve_path ws q with
    | error e =>
      apply dispatches_of_fail (e := e)
      · simp [WsOp.request, folderAtPath, hq]
      · simp [WsOp.exec, returning, ws_move_node, hp, hq]
    | ok target =>
      cases target with
      | file g =>
        apply dispatches_of_fail (e := .EXPECTED_FOLDER_GOT_FILE)
        · simp [WsOp.request, folderAtPath, hq]
        · simp [WsOp.exec, returning, ws_move_node, hp, hq]
      | folder new_parent =>
        cases n with
        | file f =>
          refine Or.inl ⟨.move_file f new_parent, ?_, ?_⟩
          · simp [WsOp.request, folderAtPath, hp, hq]
          · simp [CallsStore, WsOp.exec, returning, ws_move_node, hp, hq, StoreOp.exec]
        | folder r =>
          refine Or.inl ⟨.move_folder r new_parent, ?_, ?_⟩
          · simp [WsOp.request, folderAtPath, hp, hq]
          · simp [CallsStore, WsOp.exec, returning, ws_move_node, hp, hq, StoreOp.exec]

theorem ws_rename_node_dispatches (p name : CString) (ws : Workspace) :
    Dispatches (.ws_rename_node p name) ws := by
  cases hp : ws_resolve_path ws p with
  | error e =>
    apply dispatches_of_fail (e := e)
    · simp [WsOp.request, hp]
    · simp [WsOp.exec, returning, ws_rename_node, hp]
  | ok n =>
    cases n with
    | file f =>
      refine Or.inl ⟨.rename_file f name.chars, ?_, ?_⟩
      · simp [WsOp.request, hp]
      · simp [CallsStore, WsOp.exec, returning, ws_rename_node, hp, StoreOp.exec]
    | folder r =>
      refine Or.inl ⟨.rename_folder r name.chars, ?_, ?_⟩
      · simp [WsOp.request, hp]
      · simp [CallsStore, WsOp.exec, returning, ws_rename_node, hp, StoreOp.exec]

/-- The functions of `file_io.c` that change a file. -/
theorem file_op_dispatches {op : WsOp} {path : CString} (p : FileRef → Sys VFS Unit)
    (sop : FileRef → StoreOp) (hp : ∀ f, (sop f).exec = p f)
    (hreq : op.request ws = (fileAtPath ws path).map sop)
    (hop : op.exec = returning (do
      let file ← ws_resolve_file path
      onSystem (p file)) fun _ => .done) : Dispatches op ws := by
  rcases ws_resolve_file_cases ws path with ⟨f, hf, hrun⟩ | ⟨hnone, e, hrun⟩
  · refine Or.inl ⟨sop f, by rw [hreq, hf]; rfl, ?_⟩
    unfold CallsStore
    rw [hop, hp, returning, bind_run, bind_run, hrun]
    rfl
  · apply dispatches_of_fail (e := e)
    · rw [hreq, hnone]
      rfl
    · rw [hop, returning, bind_run, bind_run, hrun]
      rfl

/-- **Step lemma**: all operations but a change of the current folder. -/
theorem WsOp.dispatches (op : WsOp) (ws : Workspace) :
    Dispatches op ws ∨ ∃ path, op = .ws_change_cur_folder path := by
  -- Changing the current folder is the only operation that writes to the workspace itself.
  cases op with
  | ws_change_cur_folder p => exact Or.inr ⟨p, rfl⟩
  | ws_create_file n => exact Or.inl (Or.inl ⟨_, rfl, callsStore_create rfl⟩)
  | ws_create_folder n => exact Or.inl (Or.inl ⟨_, rfl, callsStore_create rfl⟩)
  | ws_remove_file p => exact Or.inl (ws_remove_file_dispatches p ws)
  | ws_remove_folder p rec => exact Or.inl (ws_remove_folder_dispatches p rec ws)
  | ws_move_node p q => exact Or.inl (ws_move_node_dispatches p q ws)
  | ws_rename_node p n => exact Or.inl (ws_rename_node_dispatches p n ws)
  | ws_get_sub_entries p len =>
    exact Or.inl (Or.inr ⟨rfl, leavesAlone_of_readOnly (ws_get_sub_entries_readOnly p len) _⟩)
  | ws_global_search_by_name n len =>
    exact Or.inl (Or.inr ⟨rfl, leavesAlone_of_readOnly (ws_global_search_readOnly n len) _⟩)
  | ws_file_append p data =>
    exact Or.inl (file_op_dispatches (fun f => file_append f data) (.file_append · data)
      (fun _ => rfl) rfl rfl)
  | ws_file_clear p =>
    exact Or.inl (file_op_dispatches file_delete_data .file_delete_data (fun _ => rfl) rfl rfl)
  | ws_file_truncate p amount =>
    exact Or.inl (file_op_dispatches (fun f => file_truncate_by f amount)
      (.file_truncate_by · amount) (fun _ => rfl) rfl rfl)
  | ws_file_read_all p size =>
    exact Or.inl (Or.inr ⟨rfl, leavesAlone_of_readOnly (ws_file_read_all_readOnly p size) _⟩)
  | ws_file_read_at p off amount size =>
    exact Or.inl (Or.inr ⟨rfl,
      leavesAlone_of_readOnly (ws_file_read_at_readOnly p off amount size) _⟩)

/-! ## Section 3: Changing the current folder -/

/-- The current folder is in the store, or it has been deleted and has no links left. -/
structure WorkspaceSound (ws : Workspace) : Prop where
  /-- The store is sound in any case. -/
  sound : Sound ws.toVFS
  cur : ws.entry_store.live ws.cur_folder ∨ Vacated ws.entry_store ws.cur_folder

theorem WorkspaceSound.resolved_present (h : WorkspaceSound ws)
    (hpath : ws_resolve_path ws path = .ok n) : ws.entry_store.present n :=
  ws_resolve_path_present h.sound.tree (h.cur.imp id Vacated.children_eq) hpath

theorem WorkspaceSound.live_of_path (h : WorkspaceSound ws)
    (hpath : folderAtPath ws path = some r) : ws.entry_store.live r :=
  present_folder.mp (h.resolved_present (folderAtPath_eq_some.mp hpath))

theorem WorkspaceSound.committed_of_path (h : WorkspaceSound ws)
    (hpath : fileAtPath ws path = some f) : ws.entry_store.committed (.file f) :=
  present_file.mp (h.resolved_present (fileAtPath_eq_some.mp hpath))

/-- `ws'` is `ws` after the path of `r` has been printed and `r` entered. -/
def Enters (ws ws' : Workspace) (r : FolderRef) : Prop :=
  ∃ b, get_node_path ws.entry_store (.folder r) ws.cur_path = .ok () b ∧
    ws' = { ws with cur_folder := r, cur_path := b }

/-- Some folder is too deep for its path to be printed. -/
def VFSEntryStore.tooDeep (es : VFSEntryStore) : Prop :=
  ∃ r l, PathFrom es.tree (.folder .root) (.folder r) l ∧ MAX_PATH_NODES_AMOUNT < l.length

/-- The end of `ws_change_cur_folder`. -/
def enter_folder (es : VFSEntryStore) (r : FolderRef) : Sys Workspace Unit := do
  onCurPath (get_node_path es (.folder r))
  modifyState fun ws => { ws with cur_folder := r }

/-- A live folder is entered, unless it is too deep for its path to be printed. -/
theorem enter_folder_sat (ht : FolderTree ws.entry_store) (hr : ws.entry_store.live r) :
    (enter_folder ws.entry_store r ws).Sat (fun _ ws' => Enters ws ws' r) (fun _ _ => False)
      (fun x => x = .out_of_bounds ∧ ws.entry_store.tooDeep) := by
  obtain ⟨l, hl⟩ := ht.exists_path hr
  unfold enter_folder onCurPath
  rw [bind_run, zoom_run]
  by_cases hlen : l.length ≤ MAX_PATH_NODES_AMOUNT
  · obtain ⟨b, hb, _⟩ := get_node_path_run ht hl hlen ws.cur_path
    rw [hb]
    exact ⟨b, hb, rfl⟩
  · rw [get_node_path_deep ht hl (Nat.lt_of_not_le hlen) ws.cur_path]
    exact ⟨rfl, r, l, hl, Nat.lt_of_not_le hlen⟩

/-- The folder that `ws_change_cur_folder` goes to. -/
def goesTo (ws : Workspace) (path : CString) : Option FolderRef :=
  if path.chars = BACK_TO_PARENT_OPERATOR then
    if (ws.entry_store.folderAt ws.cur_folder).is_root then none
    else (ws.entry_store.folderAt ws.cur_folder).parent_folder
  else folderAtPath ws path

/-- The folder to be entered is in the store. -/
theorem goesTo_live (h : WorkspaceSound ws) (hto : goesTo ws path = some r) :
    ws.entry_store.live r := by
  unfold goesTo at hto
  split at hto
  · split at hto
    · cases hto
    · next hroot =>
      rcases h.cur with hlive | hvac
      · rcases hlive with hcur | hcur
        · rw [hcur] at hroot
          exact absurd h.sound.tree.root_is_root hroot
        · exact h.sound.tree.parent_live hcur hto
      · rw [hvac.parent_eq] at hto
        cases hto
  · exact h.live_of_path hto

/-- **Navigation.** A failing call changes nothing. -/
theorem ws_change_cur_folder_sat (h : WorkspaceSound ws) (path : CString) :
    (ws_change_cur_folder path ws).Sat
      (fun _ ws' => ∃ r, goesTo ws path = some r ∧ Enters ws ws' r)
      (fun _ ws' => ws' = ws)
      (fun x => x = .out_of_bounds ∧ ws.entry_store.tooDeep ∨
        ¬ ws.entry_store.live ws.cur_folder) := by
  have henter : ∀ r, goesTo ws path = some r →
      (enter_folder ws.entry_store r ws).Sat
        (fun _ ws' => ∃ r, goesTo ws path = some r ∧ Enters ws ws' r) (fun _ ws' => ws' = ws)
        (fun x => x = .out_of_bounds ∧ ws.entry_store.tooDeep ∨
          ¬ ws.entry_store.live ws.cur_folder) := by
    intro r hto
    apply (enter_folder_sat h.sound.tree (goesTo_live h hto)).mono
    · exact fun _ ws' hws' => ⟨r, hto, hws'⟩
    · exact fun _ _ hF => hF.elim
    · exact fun _ hx => Or.inl hx
  unfold ws_change_cur_folder
  rw [bind_run, readState_run, bind_ok]
  by_cases hpath : path.chars = BACK_TO_PARENT_OPERATOR
  · rw [if_pos hpath]
    by_cases hroot : (ws.entry_store.folderAt ws.cur_folder).is_root = true
    · simp [hroot]
    · cases hparent : (ws.entry_store.folderAt ws.cur_folder).parent_folder with
      | none =>
        -- only a folder that has been deleted has no parent
        have hdead : ¬ ws.entry_store.live ws.cur_folder := by
          intro hlive
          rcases hlive with hcur | hcur
          · rw [hcur] at hroot
            exact hroot h.sound.tree.root_is_root
          · obtain ⟨p, hp, _⟩ := h.sound.tree.linked _ hcur
            have hnone : ws.entry_store.parentOf (.folder ws.cur_folder) = none := hparent
            rw [hnone] at hp
            cases hp
        simp [hroot, hdead]
      | some p =>
        have hto : goesTo ws path = some p := by simp [goesTo, hpath, hroot, hparent]
        simpa [hroot, enter_folder] using henter p hto
  · rw [if_neg hpath]
    cases hres : ws_resolve_path ws path with
    | error e => exact rfl
    | ok n =>
      cases n with
      | file f => exact rfl
      | folder r =>
        have hto : goesTo ws path = some r := by
          unfold goesTo
          rw [if_neg hpath]
          exact folderAtPath_eq_some.mpr hres
        exact henter r hto

/-- A folder that a path resolves to is entered, if its own path can be printed. -/
theorem ws_change_cur_folder_run {l : List (List Byte)} (ht : FolderTree ws.entry_store)
    (hpath : path.chars ≠ BACK_TO_PARENT_OPERATOR)
    (hres : ws_resolve_path ws path = .ok (.folder r))
    (hl : PathFrom ws.entry_store.tree (.folder .root) (.folder r) l)
    (hlen : l.length ≤ MAX_PATH_NODES_AMOUNT) :
    ∃ b, ws_change_cur_folder path ws = .ok () { ws with cur_folder := r, cur_path := b } := by
  obtain ⟨b, hb, _⟩ := get_node_path_run ht hl hlen ws.cur_path
  refine ⟨b, ?_⟩
  simp only [ws_change_cur_folder, bind_run, readState_run, bind_ok, hpath, if_false, hres,
    ofExcept_ok_run, onCurPath, zoom_run, hb, mapState_ok, modifyState_run]

/-! ## Section 4: Steps -/

/-- A step leaves the workspace alone, calls the store, or enters a folder. -/
inductive WsStep (op : WsOp) (ws ws' : Workspace) : Prop where
  /-- The operation asks for no call, or has been refused before it. -/
  | stay (hreq : op.request ws = none) (h : ws' = ws)
  /-- The call of the store that the operation makes, succeeding or failing. -/
  | call (sop : StoreOp) (s' : VFS) (hreq : op.request ws = some sop)
      (hrun : (sop.exec ws.toVFS).final = some s') (h : ws' = { ws with toVFS := s' })
  /-- The current folder is changed and its path is printed anew. -/
  | enter (path : CString) (r : FolderRef) (hop : op = .ws_change_cur_folder path)
      (hto : goesTo ws path = some r) (h : Enters ws ws' r)

/-- The entries that are passed to the store belong to it. -/
theorem WsOp.request_inStore {op : WsOp} {sop : StoreOp} (h : WorkspaceSound ws)
    (hreq : op.request ws = some sop) : sop.inStore ws.entry_store := by
  -- what a path resolves to is committed
  have hfile : ∀ {path sop'}, (fileAtPath ws path).map sop' = some sop →
      (∀ f, ws.entry_store.committed (.file f) → (sop' f).inStore ws.entry_store) →
      sop.inStore ws.entry_store := by
    intro path sop' hmap hin
    obtain ⟨f, hf, rfl⟩ := Option.map_eq_some_iff.mp hmap
    exact hin f (h.committed_of_path hf)
  cases op with
  | ws_create_file n =>
    cases hreq
    exact trivial
  | ws_create_folder n =>
    cases hreq
    exact trivial
  | ws_remove_file p =>
    by_cases hsafe : ws.safe_mode = true
    · simp [WsOp.request, hsafe] at hreq
    · simp only [WsOp.request, hsafe] at hreq
      exact hfile hreq fun f hf => hf
  | ws_remove_folder p recursive =>
    by_cases hsafe : ws.safe_mode = true
    · simp [WsOp.request, hsafe] at hreq
    · simp only [WsOp.request, hsafe] at hreq
      obtain ⟨r, hr, rfl⟩ := Option.map_eq_some_iff.mp hreq
      exact h.live_of_path hr
  | ws_move_node p q =>
    simp only [WsOp.request] at hreq
    split at hreq
    · next f new_parent hp hq =>
      cases hreq
      exact ⟨present_file.mp (h.resolved_present hp), h.live_of_path hq⟩
    · next r new_parent hp hq =>
      cases hreq
      exact ⟨present_folder.mp (h.resolved_present hp), h.live_of_path hq⟩
    · cases hreq
  | ws_rename_node p n =>
    simp only [WsOp.request] at hreq
    split at hreq
    · next f hp =>
      cases hreq
      exact present_file.mp (h.resolved_present hp)
    · next r hp =>
      cases hreq
      exact present_folder.mp (h.resolved_present hp)
    · cases hreq
  | ws_file_append p data => exact hfile hreq fun f hf => hf
  | ws_file_clear p => exact hfile hreq fun f hf => hf
  | ws_file_truncate p amount => exact hfile hreq fun f hf => hf
  | ws_change_cur_folder p => cases hreq
  | ws_get_sub_entries p len => cases hreq
  | ws_global_search_by_name n len => cases hreq
  | ws_file_read_all p size => cases hreq
  | ws_file_read_at p off amount size => cases hreq

/-- The end of an operation is the end of its call. -/
theorem CallsStore.final {op : WsOp} {sop : StoreOp} (h : CallsStore op.exec ws sop)
    (hfinal : (op.exec ws).final = some ws') :
    ∃ s', (sop.exec ws.toVFS).final = some s' ∧ ws' = { ws with toVFS := s' } := by
  rw [h] at hfinal
  unfold onSystem at hfinal
  rw [zoom_run] at hfinal
  cases hrun : sop.exec ws.toVFS with
  | ok a s' =>
    rw [hrun] at hfinal
    exact ⟨s', rfl, (Option.some.inj hfinal).symm⟩
  | fail e s' =>
    rw [hrun] at hfinal
    exact ⟨s', rfl, (Option.some.inj hfinal).symm⟩
  | fault x =>
    rw [hrun] at hfinal
    cases hfinal

/-- What an operation does, however it ends. -/
theorem WsOp.exec_step {op : WsOp} (h : WorkspaceSound ws)
    (hfinal : (op.exec ws).final = some ws') : WsStep op ws ws' := by
  -- A request, a reading, or a change of the current folder.
  rcases op.dispatches ws with (⟨sop, hreq, hcall⟩ | ⟨hreq, halone⟩) | ⟨path, rfl⟩
  · obtain ⟨s', hrun, hws'⟩ := hcall.final hfinal
    exact WsStep.call sop s' hreq hrun hws'
  · exact WsStep.stay hreq (Outcome.Sat.final (P := fun t => t = ws) halone hfinal)
  · have hsat := ws_change_cur_folder_sat h path
    simp only [WsOp.exec, returning, bind_run] at hfinal
    cases hrun : VirtualFS.ws_change_cur_folder path ws with
    | ok a ws₁ =>
      rw [hrun] at hsat hfinal
      cases hfinal
      obtain ⟨r, hto, henters⟩ := hsat
      exact WsStep.enter path r rfl hto henters
    | fail e ws₁ =>
      rw [hrun] at hsat hfinal
      cases hfinal
      exact WsStep.stay rfl hsat
    | fault x =>
      rw [hrun] at hfinal
      cases hfinal

theorem Vacated.of_folderAt {es es' : VFSEntryStore} (h : Vacated es r)
    (heq : es'.folderAt r = es.folderAt r) : Vacated es' r where
  children_eq := by
    have hchildren := h.children_eq
    unfold children at hchildren ⊢
    rwa [heq]
  parent_eq := by rw [heq, h.parent_eq]
  not_root := by rw [heq, h.not_root]

/-- Folders stay in the store unless they are deleted. -/
theorem StoreStep.live_kept {op : StoreOp} (h : StoreStep op s s') (hr : s.entry_store.live r)
    (hT : ¬ op.touches s.entry_store (.folder r)) : s'.entry_store.live r := by
  cases h with
  | same _ hsame hm => exact hsame.same.live_iff.mpr hr
  | edit n p _ _ _ hedit hm => exact hedit.put.live_of_live hr
  | effect f _ _ _ heffect => exact heffect.sameTree.live_iff.mpr hr
  | prune _ hp => exact hp.prunes.live_kept hr hT

/-- A folder outside the store stays without links until it is created again. -/
theorem StoreStep.live_or_vacated {op : StoreOp} (h : StoreStep op s s')
    (hr : s.entry_store.live r ∨ Vacated s.entry_store r) :
    s'.entry_store.live r ∨ Vacated s'.entry_store r := by
  by_cases hlive' : s'.entry_store.live r
  · exact Or.inl hlive'
  · right
    by_cases hlive : s.entry_store.live r
    · -- it has just been deleted
      cases h with
      | same _ hsame hm => exact absurd (hsame.same.live_iff.mpr hlive) hlive'
      | edit n p _ _ _ hedit hm => exact absurd (hedit.put.live_of_live hlive) hlive'
      | effect f _ _ _ heffect => exact absurd (heffect.sameTree.live_iff.mpr hlive) hlive'
      | prune _ hp => exact hp.prunes.vacated hlive hlive'
    · apply (hr.resolve_left hlive).of_folderAt
      cases h with
      | same _ hsame hm => exact hsame.folderAt_eq r
      | edit n p _ _ _ hedit hm =>
        apply hedit.frame r hlive
        intro hn
        exact hlive' (Or.inr ((hedit.put.committed_iff _).mpr (Or.inr hn.symm)))
      | effect f _ _ _ heffect => exact heffect.folderAt_eq r
      | prune _ hp => exact hp.prunes.frame hlive

/-- Every step keeps the workspace sound. -/
theorem WsStep.workspaceSound {op : WsOp} (h : WsStep op ws ws') (hws : WorkspaceSound ws) :
    WorkspaceSound ws' := by
  cases h with
  | stay hreq h => rwa [h]
  | call sop s' hreq hrun h =>
    have hstep := StoreOp.exec_step hws.sound (WsOp.request_inStore hws hreq) hrun
    subst h
    exact ⟨hstep.sound hws.sound, hstep.live_or_vacated hws.cur⟩
  | enter path r hop hto h =>
    have hlive := goesTo_live hws hto
    obtain ⟨b, _, rfl⟩ := h
    exact ⟨hws.sound, Or.inl hlive⟩

/-! ## Section 5: Reachable workspaces -/

/-- At start-up the root is the current folder. -/
structure FreshWorkspace (ws : Workspace) : Prop where
  /-- No entry is in the store. -/
  empty : NoEntries ws.entry_store
  /-- No chunk is allocated. -/
  all_free : AllFree ws.storage_man
  cur_root : ws.cur_folder = .root
  /-- The printed path is that of the root. -/
  path_root : ws.cur_path.str = pathString []
  path_terminated : ws.cur_path.Terminated

theorem workspace_init_run (ws : Workspace) :
    ∃ b, workspace_init ws =
        .ok () { ws with cur_folder := .root, safe_mode := false, cur_path := b } ∧
      b.str = pathString [] ∧ b.Terminated := by
  have hfits : 0 + [PATH_DELIMITER, 0].length ≤ PATH_BUFFER_LENGTH := by decide
  obtain ⟨b, hwrite⟩ := CharBuf.write_isSome (b := ws.cur_path) hfits
  have hstr : b.str = cutAtNul [PATH_DELIMITER] ∧ b.Terminated := CharBuf.str_of_write_zero hwrite
  refine ⟨b, ?_, hstr⟩
  simp only [workspace_init, onCurPath, root_path_init, bind_run, modifyState_run, bind_ok,
    zoom_run, readState_run, hwrite, mapState_ok]

/-- What initialisation has set up. -/
theorem FreshWorkspace.of_init (h : WorkspaceInitialised ws) : FreshWorkspace ws := by
  obtain ⟨memory, storage, map, size, hrun⟩ := h
  unfold workspace_start onSystem at hrun
  rw [bind_run, zoom_run] at hrun
  obtain ⟨_, ws₁, hsystem, hworkspace⟩ := exists_of_bind hrun
  obtain ⟨s, hsys, hws₁⟩ := exists_of_mapState hsystem
  obtain ⟨b, hinit, hstr, hterm⟩ := workspace_init_run { memory with toVFS := s }
  subst hws₁
  simp only [hinit, ok.injEq, true_and] at hworkspace
  subst hworkspace
  obtain ⟨hempty, hfree⟩ := SystemInitialised.empty ⟨memory.toVFS, storage, map, size, hsys⟩
  exact ⟨hempty, hfree, rfl, hstr, hterm⟩

theorem FreshWorkspace.workspaceSound (h : FreshWorkspace ws) : WorkspaceSound ws where
  sound := h.empty.sound
  cur := by
    rw [h.cur_root]
    exact Or.inl live_root

variable {condition : Workspace → WsOp → Prop}

/-- What all runs keep, whatever condition their steps meet. -/
theorem workspaceSystem_sound (h : (workspaceSystemWith condition).Reachable ws) :
    WorkspaceSound ws := by
  apply h.invariant
  · intro ws hinit
    exact (FreshWorkspace.of_init hinit).workspaceSound
  · intro ws op ws' _ hws hstep
    exact (WsOp.exec_step hws hstep.2).workspaceSound hws

/-- **Run rule**: an invariant of all steps that meet the condition. -/
theorem workspaceSystem_invariant {I : Workspace → Prop}
    (hinit : ∀ ws, FreshWorkspace ws → I ws)
    (hstep : ∀ ws op ws', WorkspaceSound ws → I ws → condition ws op → WsStep op ws ws' → I ws')
    (h : (workspaceSystemWith condition).Reachable ws) : I ws := by
  apply h.invariant
  · exact fun ws hws => hinit ws (FreshWorkspace.of_init hws)
  · intro ws op ws' hreach hI hop
    have hws := workspaceSystem_sound hreach
    exact hstep ws op ws' hws hI hop.1 (WsOp.exec_step hws hop.2)

/-- Runs under a condition are runs under every weaker one. -/
theorem workspaceSystem_mono {condition' : Workspace → WsOp → Prop}
    (hweaker : ∀ ws op, WorkspaceSound ws → condition ws op → condition' ws op)
    (h : (workspaceSystemWith condition).Reachable ws) :
    (workspaceSystemWith condition').Reachable ws := by
  apply h.simulates (f := id)
  · exact fun ws hinit => System.Reachable.init hinit
  · intro ws op ws' hreach _ hop
    exact Or.inr ⟨op, hweaker ws op (workspaceSystem_sound hreach) hop.1, hop.2⟩

theorem workspaceInitialised_of_start
    (h : (workspace_start (fun _ => 0) (fun _ => false) CHUNKS_AMOUNT Workspace.zeroed).final =
      some ws) : WorkspaceInitialised ws := by
  refine ⟨Workspace.zeroed, fun _ => 0, fun _ => false, CHUNKS_AMOUNT, ?_⟩
  cases h
  rfl

/-- What a computed run ends in is reachable. -/
theorem reachable_of_runWorkspace [∀ ws op, Decidable (condition ws op)] {ops : List WsOp}
    (h : runWorkspace condition ops = some ws) : (workspaceSystemWith condition).Reachable ws := by
  obtain ⟨ws₀, hinit, hrun⟩ := Option.bind_eq_some_iff.mp h
  apply (Prog.steps_of_runAll hrun).reachable
  exact System.Reachable.init (workspaceInitialised_of_start hinit)

end VirtualFS
