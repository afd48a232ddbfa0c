import VirtualFS.Store.FreeBytes
import VirtualFS.Workspace.System

/-! # Deleted Bytes Stay Secret

    Two workspaces that differ only in the bytes of free chunks cannot be
    told apart: whatever operations are run from both, every call returns the
    same status and the same result. The bytes of a deleted file, and those
    that were on the disk at start-up, are never seen again.

    * `AlikeWorkspace`: alike systems with one current folder and path.
    * `WsOp.exec_agrees`: operations end alike.
    * `free_bytes_never_seen`: so do lists of operations.
-/

namespace VirtualFS

open Framework Prog Outcome

variable {α : Type} {ws vs : Workspace}

/-! ## Section 1: Workspaces that look alike -/

/-- Two workspaces that differ at most in the bytes of free chunks. -/
structure AlikeWorkspace (ws vs : Workspace) : Prop where
  system : AlikeSystem ws.toVFS vs.toVFS
  safe_mode : vs.safe_mode = ws.safe_mode
  cur_folder : vs.cur_folder = ws.cur_folder
  cur_path : vs.cur_path = ws.cur_path

/-- The same workspace over other bytes. -/
def Workspace.withStorage (ws : Workspace) (storage : Nat → Byte) : Workspace :=
  { ws with storage_man := { ws.storage_man with storage := storage } }

/-- Alike workspaces are equal but for the bytes of their disks. -/
theorem AlikeWorkspace.eq_withStorage (h : AlikeWorkspace ws vs) :
    vs = ws.withStorage vs.storage_man.storage := by
  obtain ⟨hsystem, hsafe, hfolder, hpath⟩ := h
  have hsys := hsystem.eq_withStorage
  cases ws
  cases vs
  dsimp only at hsafe hfolder hpath
  subst hsafe hfolder hpath
  exact congrArg (Workspace.mk · _ _ _) hsys

/-- Changing bytes of free chunks makes an alike workspace. -/
theorem alike_withStorage {storage : Nat → Byte}
    (hfree : ∀ addr, ¬ FreeByte ws.storage_man.allocation_map addr →
      storage addr = ws.storage_man.storage addr) : AlikeWorkspace ws (ws.withStorage storage) :=
  ⟨⟨rfl, rfl, rfl, rfl, hfree⟩, rfl, rfl, rfl⟩

/-- **Read rule** for the workspace. -/
theorem agreeing_read_workspace {p : Workspace → Sys Workspace α}
    (hp : ∀ ws, Agreeing AlikeWorkspace (p ws))
    (hsame : ∀ (ws : Workspace) storage, p (ws.withStorage storage) = p ws) :
    Agreeing AlikeWorkspace (readState >>= p) := by
  apply Agreeing.read hp
  intro ws vs h
  rw [h.eq_withStorage]
  exact hsame ws _

/-- Functions of the system run in both. -/
theorem onSystem_agreeing {p : Sys VFS α} (hp : Agreeing AlikeSystem p) :
    Agreeing AlikeWorkspace (onSystem p) := by
  apply hp.zoom
  · exact fun ws vs h => h.system
  · intro ws vs s t h hst
    exact ⟨hst, h.safe_mode, h.cur_folder, h.cur_path⟩

theorem onCurPath_agreeing (p : Sys (CharBuf PATH_BUFFER_LENGTH) α) :
    Agreeing AlikeWorkspace (onCurPath p) := by
  apply (Agreeing.of_eq p).zoom
  · exact fun ws vs h => h.cur_path.symm
  · intro ws vs b b' h hb
    exact ⟨h.system, h.safe_mode, h.cur_folder, hb.symm⟩

/-- A result that is passed on is the same in both. -/
theorem returning_agreeing {p : Sys Workspace α} (hp : Agreeing AlikeWorkspace p)
    (result : α → WsResult) : Agreeing AlikeWorkspace (returning p result) :=
  hp.bind fun a => Agreeing.pure (result a)

/-! ## Section 2: The operations -/

/-- The creations only touch the entry store. -/
theorem create_agreeing (p : Workspace → Sys VFSEntryStore α)
    (hsame : ∀ (ws : Workspace) storage, p (ws.withStorage storage) = p ws) :
    Agreeing AlikeWorkspace (do
      let ws ← readState
      let _ ← onSystem (onEntryStore (p ws))) := by
  apply agreeing_read_workspace
  · intro ws
    apply Agreeing.bind (onSystem_agreeing (onEntryStore_agreeing _))
    exact fun _ => Agreeing.pure ()
  · intro ws storage
    rw [hsame]

theorem ws_remove_file_agreeing (path : CString) :
    Agreeing AlikeWorkspace (ws_remove_file path) := by
  apply agreeing_read_workspace
  · intro ws
    apply Agreeing.guard
    apply Agreeing.bind (Agreeing.ofExcept _)
    intro n
    cases n with
    | file f => exact onSystem_agreeing (delete_vfs_file_agreeing f)
    | folder r => exact Agreeing.returnStatus _
  · exact fun _ _ => rfl

theorem ws_remove_folder_agreeing (path : CString) (recursive : Bool) :
    Agreeing AlikeWorkspace (ws_remove_folder path recursive) := by
  apply agreeing_read_workspace
  · intro ws
    apply Agreeing.guard
    apply Agreeing.bind (Agreeing.ofExcept _)
    intro n
    cases n with
    | file f => exact Agreeing.returnStatus _
    | folder r => exact onSystem_agreeing (delete_vfs_folder_agreeing r recursive)
  · exact fun _ _ => rfl

theorem ws_move_node_agreeing (path target : CString) :
    Agreeing AlikeWorkspace (ws_move_node path target) := by
  apply agreeing_read_workspace
  · intro ws
    apply Agreeing.bind (Agreeing.ofExcept _)
    intro n
    apply Agreeing.bind (Agreeing.ofExcept _)
    intro m
    cases m with
    | file g => exact Agreeing.returnStatus _
    | folder p =>
      cases n with
      | file f => exact onSystem_agreeing (onEntryStore_agreeing _)
      | folder r => exact onSystem_agreeing (onEntryStore_agreeing _)
  · exact fun _ _ => rfl

theorem ws_rename_node_agreeing (path name : CString) :
    Agreeing AlikeWorkspace (ws_rename_node path name) := by
  apply agreeing_read_workspace
  · intro ws
    apply Agreeing.bind (Agreeing.ofExcept _)
    intro n
    cases n with
    | file f => exact onSystem_agreeing (onEntryStore_agreeing _)
    | folder r => exact onSystem_agreeing (onEntryStore_agreeing _)
  · exact fun _ _ => rfl

/-- Both print the same path. -/
theorem enter_folder_agreeing (es : VFSEntryStore) (r : FolderRef) :
    Agreeing AlikeWorkspace (enter_folder es r) := by
  apply Agreeing.bind (onCurPath_agreeing _)
  intro _
  apply Agreeing.modifyState
  intro ws vs h
  exact ⟨h.system, h.safe_mode, rfl, h.cur_path⟩

theorem ws_change_cur_folder_agreeing (path : CString) :
    Agreeing AlikeWorkspace (ws_change_cur_folder path) := by
  apply agreeing_read_workspace
  · intro ws
    apply Agreeing.ite
    · apply Agreeing.guard
      cases (ws.entry_store.folderAt ws.cur_folder).parent_folder with
      | none => exact Agreeing.undefinedBehaviour _
      | some parent => exact enter_folder_agreeing _ parent
    · apply Agreeing.bind (Agreeing.ofExcept _)
      intro n
      cases n with
      | file f => exact Agreeing.returnStatus _
      | folder r => exact enter_folder_agreeing _ r
  · exact fun _ _ => rfl

theorem ws_get_sub_entries_agreeing (path : Option CString) (len : Nat) :
    Agreeing AlikeWorkspace (ws_get_sub_entries path len) := by
  apply agreeing_read_workspace
  · intro ws
    cases path with
    | none =>
      apply Agreeing.guard
      exact Agreeing.pure _
    | some path =>
      apply Agreeing.bind (Agreeing.ofExcept _)
      intro n
      cases n with
      | file f => exact Agreeing.returnStatus _
      | folder r =>
        apply Agreeing.guard
        exact Agreeing.pure _
  · exact fun _ _ => rfl

theorem ws_global_search_agreeing (name : CString) (len : Nat) :
    Agreeing AlikeWorkspace (ws_global_search_by_name name len) := by
  apply agreeing_read_workspace
  · intro ws
    split
    · exact Agreeing.pure _
    · exact Agreeing.returnStatus _
  · exact fun _ _ => rfl

/-! ### Files -/

/-- Both paths lead to the same file, or to none. -/
theorem ws_resolve_file_agreeing (path : CString) :
    Agreeing AlikeWorkspace (ws_resolve_file path) := by
  apply agreeing_read_workspace
  · intro ws
    apply Agreeing.bind (Agreeing.ofExcept _)
    intro n
    cases n with
    | file f => exact Agreeing.pure f
    | folder r => exact Agreeing.returnStatus _
  · exact fun _ _ => rfl

/-- The functions of `file_io.c` that call one function of the core system. -/
theorem file_op_agreeing (path : CString) {p : FileRef → Sys VFS α}
    (hp : ∀ f, Agreeing AlikeSystem (p f)) :
    Agreeing AlikeWorkspace (do
      let file ← ws_resolve_file path
      onSystem (p file)) :=
  (ws_resolve_file_agreeing path).bind fun f => onSystem_agreeing (hp f)

/-- A path resolves to a file of the store, whose chunks append leaves alone. -/
theorem ws_file_append_agrees (hws : WorkspaceSound ws) (h : AlikeWorkspace ws vs)
    (path : CString) (data : List Byte) :
    Agrees AlikeWorkspace (ws_file_append path data ws) (ws_file_append path data vs) := by
  have hresolve := ws_resolve_file_agreeing path ws vs h
  unfold ws_file_append
  rw [bind_run, bind_run]
  rcases ws_resolve_file_cases ws path with ⟨f, hf, hrun⟩ | ⟨_, e, hrun⟩
  · rw [hrun] at hresolve ⊢
    generalize ws_resolve_file path vs = o at hresolve ⊢
    cases hresolve with
    | ok _ h =>
      have hfile := hws.sound.chunks.ownsChunks (hws.committed_of_path hf)
      apply (file_append_agrees hfile h.system data).mapState
      exact fun s t hst => ⟨hst, h.safe_mode, h.cur_folder, h.cur_path⟩
  · rw [hrun] at hresolve ⊢
    generalize ws_resolve_file path vs = o at hresolve ⊢
    cases hresolve with
    | fail _ h => exact Agrees.fail e h

theorem ws_file_read_all_agreeing (path : CString) (size : Nat) :
    Agreeing AlikeWorkspace (ws_file_read_all path size) := by
  apply Agreeing.bind (ws_resolve_file_agreeing path)
  intro f
  apply agreeing_read_workspace
  · intro ws
    apply Agreeing.guard
    apply Agreeing.ite
    · exact Agreeing.pure _
    · exact onSystem_agreeing (file_read_at_agreeing f _ _ _)
  · exact fun _ _ => rfl

theorem ws_file_read_at_agreeing (path : CString) (off amount size : Nat) :
    Agreeing AlikeWorkspace (ws_file_read_at path off amount size) := by
  apply Agreeing.guard
  exact file_op_agreeing path fun f => file_read_at_agreeing f off amount size

/-- **Step lemma**: an operation ends alike in alike workspaces, and hands back the same. -/
theorem WsOp.exec_agrees (hws : WorkspaceSound ws) (h : AlikeWorkspace ws vs) (op : WsOp) :
    Agrees AlikeWorkspace (op.exec ws) (op.exec vs) := by
  -- The comparison of two appends needs the extents of the file, the others nothing.
  cases op with
  | ws_create_file n => exact returning_agreeing (create_agreeing _ fun _ _ => rfl) _ ws vs h
  | ws_create_folder n => exact returning_agreeing (create_agreeing _ fun _ _ => rfl) _ ws vs h
  | ws_remove_file p => exact returning_agreeing (ws_remove_file_agreeing p) _ ws vs h
  | ws_remove_folder p recursive =>
    exact returning_agreeing (ws_remove_folder_agreeing p recursive) _ ws vs h
  | ws_move_node p q => exact returning_agreeing (ws_move_node_agreeing p q) _ ws vs h
  | ws_rename_node p n => exact returning_agreeing (ws_rename_node_agreeing p n) _ ws vs h
  | ws_change_cur_folder p =>
    exact returning_agreeing (ws_change_cur_folder_agreeing p) _ ws vs h
  | ws_get_sub_entries p len =>
    exact returning_agreeing (ws_get_sub_entries_agreeing p len) _ ws vs h
  | ws_global_search_by_name n len =>
    exact returning_agreeing (ws_global_search_agreeing n len) _ ws vs h
  | ws_file_append p data =>
    exact (ws_file_append_agrees hws h p data).bind fun _ _ _ h => Agrees.ok _ h
  | ws_file_clear p =>
    exact returning_agreeing (file_op_agreeing p file_delete_data_agreeing) _ ws vs h
  | ws_file_truncate p amount =>
    exact returning_agreeing
      (file_op_agreeing p fun f => file_truncate_by_agreeing f amount) _ ws vs h
  | ws_file_read_all p size =>
    exact returning_agreeing (ws_file_read_all_agreeing p size) _ ws vs h
  | ws_file_read_at p off amount size =>
    exact returning_agreeing (ws_file_read_at_agreeing p off amount size) _ ws vs h

/-! ## Section 3: Runs -/

/-- **Secrecy of free chunks.** From two workspaces that differ at most in the bytes of
    free chunks, every list of operations returns the same statuses and results, and
    the workspaces it ends in differ at most in the bytes of free chunks. -/
theorem free_bytes_never_seen (hws : workspaceSystem.Reachable ws) (h : AlikeWorkspace ws vs)
    (ops : List WsOp) :
    seenAll WsOp.exec ops ws = seenAll WsOp.exec ops vs ∧
      Option.Rel AlikeWorkspace (runAll (fun _ _ => True) WsOp.exec ops ws)
        (runAll (fun _ _ => True) WsOp.exec ops vs) := by
  apply Prog.runs_agree (I := WorkspaceSound)
  · exact fun op ws vs hws h => WsOp.exec_agrees hws h op
  · intro op ws ws' hws hrun
    exact (WsOp.exec_step hws hrun).workspaceSound hws
  · exact workspaceSystem_sound hws
  · exact h

/-- A file is written and deleted, and its first byte is replaced on the disk. A new
    file is then written to the same chunk and read. -/
theorem free_bytes_never_seen_run :
    ∃ ws, runWorkspace (fun _ _ => True)
        [.ws_create_file (.ofBytes [97]), .ws_file_append (.ofBytes [97]) [65],
          .ws_remove_file (.ofBytes [97])] = some ws ∧
      ∃ vs : Workspace, vs.storage_man.storage 0 ≠ ws.storage_man.storage 0 ∧
        seenAll WsOp.exec
            [.ws_create_file (.ofBytes [98]), .ws_file_append (.ofBytes [98]) [66, 67],
              .ws_file_read_all (.ofBytes [98]) 8] ws =
          seenAll WsOp.exec
            [.ws_create_file (.ofBytes [98]), .ws_file_append (.ofBytes [98]) [66, 67],
              .ws_file_read_all (.ofBytes [98]) 8] vs ∧
        Option.Rel AlikeWorkspace
          (runAll (fun _ _ => True) WsOp.exec
            [.ws_create_file (.ofBytes [98]), .ws_file_append (.ofBytes [98]) [66, 67],
              .ws_file_read_all (.ofBytes [98]) 8] ws)
          (runAll (fun _ _ => True) WsOp.exec
            [.ws_create_file (.ofBytes [98]), .ws_file_append (.ofBytes [98]) [66, 67],
              .ws_file_read_all (.ofBytes [98]) 8] vs) := by
  refine exists_of_run
    (Q := fun ws => ws.storage_man.storage 0 = 65 ∧ ws.storage_man.allocation_map 0 = false)
    (by decide +kernel) fun ws hrun hQ => ?_
  obtain ⟨hbyte, hfree⟩ := hQ
  have halike : AlikeWorkspace ws
      (ws.withStorage fun addr => if addr = 0 then 7 else ws.storage_man.storage addr) := by
    apply alike_withStorage
    intro addr haddr
    apply if_neg
    intro h0
    subst h0
    exact haddr ⟨by decide, hfree⟩
  refine ⟨_, ?_, free_bytes_never_seen (reachable_of_runWorkspace hrun) halike _⟩
  show (7 : Byte) ≠ ws.storage_man.storage 0
  rw [hbyte]
  decide

end VirtualFS
