import VirtualFS.Workspace.Depth

/-! # Failing Operations

    The checks of an operation come before its first visible write, so a
    failing operation leaves the file system as it was. Removing folders is
    not among these, nor is cutting a file to nothing.

    * `Unchanged`: entries, maps, root, storage manager, current folder and path.
    * `WsOp.Covered`: the operations that it holds for.
    * `failure_changes_nothing`: it holds of each of them after any failure.
-/

namespace VirtualFS

open Framework Prog Outcome ParentMap VFSEntryStore

variable {ws ws' : Workspace} {s s' : VFS} {op : WsOp} {sop : StoreOp} {f : FileRef}
  {r : FolderRef}

/-! ## Section 1: What stays -/

/-- Both allocation maps, the records of the committed entries and of the root, and the
    storage manager are as before. -/
structure EntriesUnchanged (s s' : VFS) : Prop where
  /-- The same positions are in use. -/
  files_allocation_map : ∀ i, i < VFS_MAX_FILES_AMOUNT →
    s'.entry_store.files_allocation_map i = s.entry_store.files_allocation_map i
  folders_allocation_map : ∀ i, i < VFS_MAX_FOLDERS_AMOUNT →
    s'.entry_store.folders_allocation_map i = s.entry_store.folders_allocation_map i
  /-- The records that are in use are the same, the root's among them. -/
  files : ∀ f, s.entry_store.committed (.file f) → s'.entry_store.files f = s.entry_store.files f
  folders : ∀ r, s.entry_store.live r → s'.entry_store.folderAt r = s.entry_store.folderAt r
  /-- Neither the marks nor the bytes of the disk have changed. -/
  storage_man : s'.storage_man = s.storage_man

/-- The store, the current folder and its printed path are as before. -/
structure Unchanged (ws ws' : Workspace) : Prop where
  /-- Nothing that is in use in the store has changed. -/
  store : EntriesUnchanged ws.toVFS ws'.toVFS
  /-- The current folder is the same. -/
  cur_folder : ws'.cur_folder = ws.cur_folder
  /-- So is its printed path. -/
  cur_path : ws'.cur_path = ws.cur_path

theorem Unchanged.refl (ws : Workspace) : Unchanged ws ws :=
  ⟨⟨fun _ _ => rfl, fun _ _ => rfl, fun _ _ => rfl, fun _ _ => rfl, rfl⟩, rfl, rfl⟩

/-- Bits of the maps below the bounds say what is committed. -/
theorem SameStore.entriesUnchanged (h : SameStore s.entry_store s'.entry_store)
    (hm : s'.storage_man = s.storage_man) : EntriesUnchanged s s' := by
  constructor
  case files_allocation_map =>
    intro i hi
    have hiff := h.same.committed_iff (.file i)
    rw [Bool.eq_iff_iff]
    exact ⟨fun hb => (hiff.mp ⟨hi, hb⟩).2, fun hb => (hiff.mpr ⟨hi, hb⟩).2⟩
  case folders_allocation_map =>
    intro i hi
    have hiff := h.same.committed_iff (.folder (.slot i))
    rw [Bool.eq_iff_iff]
    exact ⟨fun hb => (hiff.mp ⟨hi, hb⟩).2, fun hb => (hiff.mpr ⟨hi, hb⟩).2⟩
  case files => exact h.files_eq
  case folders => exact fun r _ => h.folderAt_eq r
  case storage_man => exact hm

/-! ## Section 2: Which operations -/

/-- All operations but the removal of a folder, and a truncation by exactly the size of
    the file. -/
def WsOp.Covered (ws : Workspace) : WsOp → Prop
  | ws_remove_folder _ _ => False
  | ws_file_truncate path amount => ∀ f, fileAtPath ws path = some f →
      amount ≠ (ws.entry_store.files f).allocated_size * CHUNK_SIZE
  | _ => True

theorem WsOp.request_delete_vfs_folder {force : Bool}
    (h : op.request ws = some (.delete_vfs_folder r force)) :
    ∃ path, op = .ws_remove_folder path force := by
  cases op with
  | ws_remove_folder path recursive =>
    by_cases hsafe : ws.safe_mode = true
    · simp [WsOp.request, hsafe] at h
    · simp only [WsOp.request, hsafe] at h
      obtain ⟨_, _, heq⟩ := Option.map_eq_some_iff.mp h
      cases heq
      exact ⟨path, rfl⟩
  | ws_move_node p q =>
    simp only [WsOp.request] at h
    split at h <;> cases h
  | ws_rename_node p name =>
    simp only [WsOp.request] at h
    split at h <;> cases h
  | _ => simp [WsOp.request] at h

theorem WsOp.request_file_truncate_by {amount : Nat}
    (h : op.request ws = some (.file_truncate_by f amount)) :
    ∃ path, op = .ws_file_truncate path amount ∧ fileAtPath ws path = some f := by
  cases op with
  | ws_file_truncate path k =>
    obtain ⟨g, hg, heq⟩ := Option.map_eq_some_iff.mp h
    cases heq
    exact ⟨path, rfl, hg⟩
  | ws_move_node p q =>
    simp only [WsOp.request] at h
    split at h <;> cases h
  | ws_rename_node p name =>
    simp only [WsOp.request] at h
    split at h <;> cases h
  | _ => simp [WsOp.request] at h

/-- Of the calls that these operations end in, only the renaming of a file may leave a
    buffer. -/
theorem WsOp.Covered.request (hop : op.Covered ws) (hreq : op.request ws = some sop) :
    sop.deletesFolder = false ∧
      (sop.mayFault ws.toVFS →
        ∃ f name, sop = .rename_file f name ∧ MAX_NAME_LENGTH ≤ name.length) := by
  cases sop with
  | delete_vfs_folder d force =>
    obtain ⟨path, rfl⟩ := WsOp.request_delete_vfs_folder hreq
    exact hop.elim
  | file_truncate_by f amount =>
    obtain ⟨path, rfl, hf⟩ := WsOp.request_file_truncate_by hreq
    exact ⟨rfl, fun hsize => absurd hsize (hop f hf)⟩
  | rename_file f name => exact ⟨rfl, fun hlong => ⟨f, name, rfl, hlong⟩⟩
  | _ => exact ⟨rfl, False.elim⟩

/-! ## Section 3: Failing leaves no trace -/

/-- The operation renames a file to a name that does not fit in its buffer. -/
def WsOp.OverflowsName (ws : Workspace) (op : WsOp) : Prop :=
  ∃ f name, op.request ws = some (.rename_file f name) ∧ MAX_NAME_LENGTH ≤ name.length

/-- A call of the store that fails. -/
theorem callsStore_failure (hws : WorkspaceSound ws) (hop : op.Covered ws)
    (hreq : op.request ws = some sop) (hcall : CallsStore op.exec ws sop) :
    (op.exec ws).Sat (fun _ _ => True) (fun _ ws' => Unchanged ws ws')
      (fun _ => op.OverflowsName ws) := by
  obtain ⟨hdel, hfault⟩ := hop.request hreq
  rw [hcall]
  apply Sat.bind (R := fun _ _ => True)
  · apply zoom_sat
    apply (sop.exec_sat hws.sound (WsOp.request_inStore hws hreq)).mono
    · exact fun _ _ _ => trivial
    · intro _ s' ⟨_, hclean⟩
      obtain ⟨hsame, hm⟩ := hclean hdel
      exact ⟨hsame.entriesUnchanged hm, rfl, rfl⟩
    · intro _ hF
      obtain ⟨f, name, rfl, hlong⟩ := hfault hF
      exact ⟨f, name, hreq, hlong⟩
  · exact fun _ _ _ => trivial

/-- **Failing operations** change nothing, and the only way to have no defined end is to
    write a name behind its buffer. -/
theorem failure_changes_nothing (h : workspaceSystem.Reachable ws)
    (hcur : ws.entry_store.live ws.cur_folder)
    (hdepth : ws.entry_store.depthAtMost MAX_PATH_NODES_AMOUNT) (hop : op.Covered ws) :
    (op.exec ws).Sat (fun _ _ => True) (fun _ ws' => Unchanged ws ws')
      (fun _ => op.OverflowsName ws) := by
  have hws := workspaceSystem_sound h
  rcases op.dispatches ws with (⟨sop, hreq, hcall⟩ | ⟨_, halone⟩) | ⟨path, rfl⟩
  · exact callsStore_failure hws hop hreq hcall
  · refine Sat.mono halone (fun _ _ _ => trivial) ?_ (fun _ hF => hF.elim)
    intro _ ws' hws'
    exact hws' ▸ Unchanged.refl ws
  · show ((ws_change_cur_folder path ws).bind fun _ ws' => .ok WsResult.done ws').Sat _ _ _
    apply Sat.bind (R := fun _ _ => True)
    · apply (ws_change_cur_folder_sat hws path).mono
      · exact fun _ _ _ => trivial
      · exact fun _ ws' hws' => hws' ▸ Unchanged.refl ws
      · -- the current folder is live, and no folder is too deep
        rintro x (⟨_, r, l, hl, hdeep⟩ | hdead)
        · exact absurd (hdepth _ l hl) (Nat.not_le.mpr hdeep)
        · exact absurd hcur hdead
    · exact fun _ _ _ => trivial

/-- A folder is moved below itself. -/
theorem failure_changes_nothing_run :
    ∃ ws, runWorkspace ClimbsToRoot
        [.ws_create_folder (.ofBytes [97]), .ws_change_cur_folder (.ofBytes [97]),
          .ws_create_folder (.ofBytes [98]), .ws_create_file (.ofBytes [99])] = some ws ∧
      status ((WsOp.ws_move_node (.ofBytes [47, 97]) (.ofBytes [98])).exec ws) =
        some .ATTEMPTED_TO_ENFORCE_CYCLIC_RELATION ∧
      ((WsOp.ws_move_node (.ofBytes [47, 97]) (.ofBytes [98])).exec ws).Sat (fun _ _ => True)
        (fun _ ws' => Unchanged ws ws')
        (fun _ => WsOp.OverflowsName ws (.ws_move_node (.ofBytes [47, 97]) (.ofBytes [98]))) := by
  refine exists_of_run
    (Q := fun ws => ws.entry_store.live ws.cur_folder ∧
      status ((WsOp.ws_move_node (.ofBytes [47, 97]) (.ofBytes [98])).exec ws) =
        some .ATTEMPTED_TO_ENFORCE_CYCLIC_RELATION)
    (by decide +kernel) fun ws hrun ⟨hcur, hstatus⟩ => ⟨hstatus, ?_⟩
  have hreach := reachable_of_runWorkspace hrun
  refine failure_changes_nothing (workspaceSystem_mono (fun _ _ _ _ => trivial) hreach) hcur ?_
    trivial
  exact depth_of_reachable (workspaceSystem_mono
    (fun ws op hws hop => ClimbsToRoot.keepsDepth hws hop) hreach)

end VirtualFS
