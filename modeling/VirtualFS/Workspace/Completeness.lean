import VirtualFS.Store.Acceptance
import VirtualFS.Workspace.Refinement
import VirtualFS.Workspace.UndefinedBehaviour

/-! # The Workspace Refuses Nothing Without Need

    The other half of the refinement. An operation that the specification
    allows succeeds, unless the implementation has no room for it: slots,
    positions, chunks, or places in a path. So an operation is refused for one
    of two reasons, and both can be read off the state before it.

    * `FileSystem.Allows`: the specification has a step for the operation.
    * `WsOp.HasRoom`: the implementation has room for it.
    * `workspace_accepts_iff`: an operation succeeds if and only if both hold.
-/

namespace VirtualFS

open Framework Prog Outcome ParentMap VFSEntryStore

variable {ws ws' : Workspace} {σ σ' : FileSystem} {n : VFSNode} {f : FileRef}
  {p r d : FolderRef} {l k : List (List Byte)} {x : List Byte} {path : CString}
  {op : WsOp} {sop : StoreOp} {reply : Reply}

/-! ## Section 1: Reasons to refuse -/

/-- The specification has an end for the operation. -/
def FileSystem.Allows (σ : FileSystem) (op : WsOp) : Prop := ∃ reply σ', σ.Performs op reply σ'

/-- Files have one byte less for their name. -/
def VFSNode.nameLimit : VFSNode → Nat
  | .file _ => MAX_NAME_LENGTH - 1
  | .folder _ => MAX_NAME_LENGTH

/-- What the implementation needs besides. -/
def WsOp.HasRoom (ws : Workspace) : WsOp → Prop
  | ws_create_file name =>
    name.chars.length < MAX_NAME_LENGTH ∧ ws.entry_store.HasFilePosition ∧
      ws.entry_store.HasSlot ws.cur_folder (.file 0)
  | ws_create_folder name =>
    name.chars.length ≤ MAX_NAME_LENGTH ∧ ws.entry_store.HasFolderPosition ∧
      ws.entry_store.HasSlot ws.cur_folder (.folder .root)
  | ws_remove_folder path _ =>
    ∀ d, folderAtPath ws path = some d → ws.entry_store.fits (MAX_FOLDER_DEPTH + 1) d
  | ws_move_node path parent_path =>
    ∀ n p, ws_resolve_path ws path = .ok n → folderAtPath ws parent_path = some p →
      ws.entry_store.HasSlot p n ∧
        ∀ d, n = .folder d → ws.entry_store.fits MAX_FOLDER_DEPTH d
  | ws_rename_node path name =>
    ∀ n, ws_resolve_path ws path = .ok n → name.chars.length ≤ n.nameLimit
  | ws_change_cur_folder path =>
    ∀ r l, goesTo ws path = some r → ws.entry_store.PathTo (.folder r) l →
      l.length ≤ MAX_PATH_NODES_AMOUNT
  | ws_global_search_by_name name length => name.chars ≠ [] ∧ 0 < length
  | ws_file_append path data => ∀ f, fileAtPath ws path = some f → ws.HasChunks f data
  | _ => True

/-! ## Section 2: Requests -/

theorem CallsStore.succeeded (h : CallsStore op.exec ws sop) :
    (op.exec ws).succeeded = (sop.exec ws.toVFS).succeeded := by
  rw [h]
  unfold onSystem
  rw [zoom_run]
  cases sop.exec ws.toVFS with
  | ok a s => rfl
  | fail e s => rfl
  | fault x => rfl

/-- A requested call decides. -/
theorem succeeded_of_request (hws : WorkspaceSound ws) (ho : Ownership ws.toVFS)
    (hreq : op.request ws = some sop) :
    (op.exec ws).succeeded = true ↔ sop.Accepts ws.toVFS := by
  rw [← StoreOp.succeeded_iff hws.sound ho sop (WsOp.request_inStore hws hreq)]
  rcases op.dispatches ws with (⟨sop', hreq', hcall⟩ | ⟨hnone, -⟩) | ⟨path, rfl⟩
  · rw [hreq] at hreq'
    cases hreq'
    rw [hcall.succeeded]
  · rw [hreq] at hnone
    cases hnone
  · cases hreq

/-- Nothing sets the flag. -/
theorem safe_mode_of_reachable {condition : Workspace → WsOp → Prop}
    (h : (workspaceSystemWith condition).Reachable ws) : ws.safe_mode = false := by
  apply h.invariant
  · rintro ws ⟨memory, storage, map, size, hrun⟩
    unfold workspace_start onSystem at hrun
    rw [bind_run, zoom_run] at hrun
    obtain ⟨_, ws₁, -, hworkspace⟩ := exists_of_bind hrun
    obtain ⟨b, hinit, -, -⟩ := workspace_init_run ws₁
    rw [hinit] at hworkspace
    cases hworkspace
    rfl
  · intro ws op ws' hreach hsafe hstep
    cases WsOp.exec_step (workspaceSystem_sound hreach) hstep.2 with
    | stay hreq h => rwa [h]
    | call sop s' hreq hrun h =>
      subst h
      exact hsafe
    | enter path r hop hto h =>
      obtain ⟨b, -, rfl⟩ := h
      exact hsafe

/-! ## Section 3: What the specification knows -/

namespace Abstracts

/-- An item is shown at the path of some node. -/
theorem node_of_item (h : Abstracts ws σ) (ht : FolderTree ws.entry_store)
    (hitem : (σ.tree.item l).isSome) : ∃ n, ws.entry_store.PathTo n l := by
  rw [h.item_eq] at hitem
  exact (view_isSome_iff ht).mp hitem

/-- A file is shown at the path of a file. -/
theorem file_of_item (h : Abstracts ws σ) (ht : FolderTree ws.entry_store) {data : List Byte}
    (hitem : σ.tree.item l = some (.file data)) :
    ∃ f, ws.entry_store.PathTo (.file f) l ∧ ws.content f = data := by
  rw [h.item_eq] at hitem
  exact (view_file_iff ht).mp hitem

/-- A folder is shown at the path of a folder. -/
theorem folder_of_item (h : Abstracts ws σ) (ht : FolderTree ws.entry_store)
    (hitem : σ.tree.item l = some .folder) : ∃ r, ws.entry_store.PathTo (.folder r) l := by
  rw [h.item_eq] at hitem
  exact (view_folder_iff ht).mp hitem

/-- A path that the specification understands resolves to the node there. -/
theorem resolves (h : Abstracts ws σ) (hws : WorkspaceSound ws) (htarget : σ.target path = some l)
    (hn : ws.entry_store.PathTo n l) : ws_resolve_path ws path = .ok n :=
  (h.resolve_iff hws).mpr ⟨l, htarget, hn⟩

/-- A name is new in a folder if its path leads nowhere. -/
theorem nameIsNew (h : Abstracts ws σ) (ht : FolderTree ws.entry_store)
    (hl : ws.entry_store.PathTo (.folder p) l) (hfree : σ.tree.item (l ++ [x]) = none) :
    ws.entry_store.NameIsNew p x := by
  rintro n hn rfl
  have hpath : ws.entry_store.PathTo n (l ++ [ws.entry_store.nameOf n]) :=
    PathFrom.child (ht.tree_eq (live_of_path_folder hl) hn) hl
  rw [h.item_eq, view_of_path ht hpath] at hfree
  cases hfree

/-- The file that is meant by a path to one. -/
theorem fileAtPath_of_item (h : Abstracts ws σ) (hws : WorkspaceSound ws) {data : List Byte}
    (htarget : σ.target path = some l) (hitem : σ.tree.item l = some (.file data)) :
    ∃ f, fileAtPath ws path = some f ∧ ws.entry_store.committed (.file f) ∧
      ws.content f = data := by
  obtain ⟨f, hf, hdata⟩ := h.file_of_item hws.sound.tree hitem
  exact ⟨f, fileAtPath_eq_some.mpr (h.resolves hws htarget hf), committed_of_path_file hf, hdata⟩

end Abstracts

/-! ## Section 4: Operations that change the store -/

section changes

variable (h : Abstracts ws σ) (hws : WorkspaceSound ws) (ho : Ownership ws.toVFS)
include h hws ho

/-- An allowed creation of a file needs a position and a slot. -/
theorem create_file_accepts {name : CString}
    (hp : σ.Performs (.ws_create_file name) reply σ') :
    ((WsOp.ws_create_file name).exec ws).succeeded = true ↔
      (WsOp.ws_create_file name).HasRoom ws := by
  have ht := hws.sound.tree
  obtain ⟨-, l, hcwd, hok, hcreate, -⟩ := hp
  obtain ⟨-, hfree, -⟩ := FileTree.create_eq_some.mp hcreate
  have hl := h.cwd_path l hcwd
  rw [succeeded_of_request hws ho rfl]
  show sub_file_checks _ _ _ ↔ _
  rw [sub_file_checks_iff name.nul_free]
  constructor
  · exact fun hchecks => hchecks.2.2.2
  · exact fun hroom => ⟨live_of_path_folder hl, hok, h.nameIsNew ht hl hfree, hroom⟩

/-- So does an allowed creation of a folder, in the arrays of folders. -/
theorem create_folder_accepts {name : CString}
    (hp : σ.Performs (.ws_create_folder name) reply σ') :
    ((WsOp.ws_create_folder name).exec ws).succeeded = true ↔
      (WsOp.ws_create_folder name).HasRoom ws := by
  have ht := hws.sound.tree
  obtain ⟨-, l, hcwd, hok, hcreate, -⟩ := hp
  obtain ⟨-, hfree, -⟩ := FileTree.create_eq_some.mp hcreate
  have hl := h.cwd_path l hcwd
  rw [succeeded_of_request hws ho rfl]
  show sub_folder_checks _ _ _ ↔ _
  rw [sub_folder_checks_iff]
  constructor
  · exact fun hchecks => hchecks.2.2.2
  · exact fun hroom => ⟨live_of_path_folder hl, hok, h.nameIsNew ht hl hfree, hroom⟩

/-- Removing a file needs no room. -/
theorem remove_file_accepts (hsafe : ws.safe_mode = false)
    (hp : σ.Performs (.ws_remove_file path) reply σ') :
    ((WsOp.ws_remove_file path).exec ws).succeeded = true := by
  obtain ⟨-, l, data, htarget, hitem, -⟩ := hp
  obtain ⟨f, hf, -, -⟩ := h.fileAtPath_of_item hws htarget hitem
  have hreq : (WsOp.ws_remove_file path).request ws = some (.delete_vfs_file f) := by
    simp [WsOp.request, hsafe, hf]
  exact (succeeded_of_request hws ho hreq).mpr trivial

/-- Removing a folder needs a recursion that gets through. -/
theorem remove_folder_accepts (hsafe : ws.safe_mode = false) {recursive : Bool}
    (hp : σ.Performs (.ws_remove_folder path recursive) reply σ') :
    ((WsOp.ws_remove_folder path recursive).exec ws).succeeded = true ↔
      (WsOp.ws_remove_folder path recursive).HasRoom ws := by
  have ht := hws.sound.tree
  obtain ⟨-, l, htarget, hitem, hmay, hremove, -⟩ := hp
  obtain ⟨hne, -, -⟩ := FileTree.remove_eq_some.mp hremove
  obtain ⟨d, hd⟩ := h.folder_of_item ht hitem
  have hat : folderAtPath ws path = some d :=
    folderAtPath_eq_some.mpr (h.resolves hws htarget hd)
  have hreq : (WsOp.ws_remove_folder path recursive).request ws =
      some (.delete_vfs_folder d recursive) := by simp [WsOp.request, hsafe, hat]
  -- the root cannot be removed in the specification either
  have hroot : d ≠ .root := by
    rintro rfl
    exact hne (hd.unique tree_root PathFrom.nil)
  have hflat : recursive = true ∨ ws.entry_store.children d = [] := by
    apply hmay.imp_right
    intro hnone
    rw [List.eq_nil_iff_forall_not_mem]
    intro n hn
    exact h.nameIsNew ht hd (hnone _) n hn rfl
  rw [succeeded_of_request hws ho hreq]
  constructor
  · intro haccepts d' hd'
    rw [hat] at hd'
    cases hd'
    exact haccepts.2.1
  · exact fun hroom => ⟨hroot, hroom d hat, hflat⟩

/-- A move needs a slot, and a folder has to be above the depth limit. -/
theorem move_node_accepts {parent_path : CString}
    (hp : σ.Performs (.ws_move_node path parent_path) reply σ') :
    ((WsOp.ws_move_node path parent_path).exec ws).succeeded = true ↔
      (WsOp.ws_move_node path parent_path).HasRoom ws := by
  have ht := hws.sound.tree
  obtain ⟨-, k, x, l, htarget, hparent, -, hrelocate, -⟩ := hp
  obtain ⟨⟨hne, hsome⟩, hcycle, hfolder, hfree, -⟩ := FileTree.relocate_eq_some.mp hrelocate
  obtain ⟨n, hn⟩ := h.node_of_item ht hsome
  obtain ⟨p, hpl⟩ := h.folder_of_item ht hfolder
  have hres := h.resolves hws htarget hn
  have hat : folderAtPath ws parent_path = some p :=
    folderAtPath_eq_some.mpr (h.resolves hws hparent hpl)
  have hc : ws.entry_store.committed n := by
    apply (present_of_path hn).resolve_left
    rintro rfl
    exact hne (hn.unique tree_root PathFrom.nil)
  obtain ⟨k', hk', -⟩ := path_eq_snoc hc hn
  obtain ⟨-, hx⟩ := List.append_inj' hk' rfl
  cases hx
  have hnew := h.nameIsNew ht hpl hfree
  have hroom : (WsOp.ws_move_node path parent_path).HasRoom ws ↔
      ws.entry_store.HasSlot p n ∧ ∀ d, n = .folder d → ws.entry_store.fits MAX_FOLDER_DEPTH d := by
    constructor
    · exact fun hroom => hroom n p hres hat
    · intro hroom n' p' hn' hp'
      rw [hres] at hn'
      rw [hat] at hp'
      cases hn'
      cases hp'
      exact hroom
  rw [hroom]
  -- What remains to be checked is room, and for folders the depth the walk can go down.
  cases n with
  | file f =>
    have hreq : (WsOp.ws_move_node path parent_path).request ws = some (.move_file f p) := by
      simp [WsOp.request, hres, hat]
    rw [succeeded_of_request hws ho hreq]
    show move_file_checks _ _ _ ↔ _
    rw [move_file_checks_iff ht hc]
    constructor
    · intro hchecks
      refine ⟨hchecks.2, ?_⟩
      rintro d ⟨⟩
    · exact fun hroom => ⟨hnew, hroom.1⟩
  | folder d =>
    have hreq : (WsOp.ws_move_node path parent_path).request ws = some (.move_folder d p) := by
      simp [WsOp.request, hres, hat]
    rw [succeeded_of_request hws ho hreq]
    show move_folder_checks _ _ _ ↔ _
    rw [move_folder_checks_iff ht hc]
    constructor
    · intro hmovable
      refine ⟨hmovable.vacant, ?_⟩
      rintro d' ⟨⟩
      exact hmovable.shallow
    · intro hroom
      refine ⟨hnew, ?_, hroom.2 d rfl, hroom.1⟩
      exact fun hbelow => hcycle ((ht.wellFormed.below_iff_prefix hn hpl).mp hbelow)

/-- A renaming needs a name that fits in the buffer. -/
theorem rename_node_accepts {name : CString}
    (hp : σ.Performs (.ws_rename_node path name) reply σ') :
    ((WsOp.ws_rename_node path name).exec ws).succeeded = true ↔
      (WsOp.ws_rename_node path name).HasRoom ws := by
  have ht := hws.sound.tree
  obtain ⟨-, k, x, htarget, hok, hrelocate, -⟩ := hp
  obtain ⟨⟨hne, hsome⟩, -, -, hfree, -⟩ := FileTree.relocate_eq_some.mp hrelocate
  obtain ⟨n, hn⟩ := h.node_of_item ht hsome
  have hres := h.resolves hws htarget hn
  have hc : ws.entry_store.committed n := by
    apply (present_of_path hn).resolve_left
    rintro rfl
    exact hne (hn.unique tree_root PathFrom.nil)
  obtain ⟨k', hk', q, hq, hqk⟩ := path_eq_snoc hc hn
  obtain ⟨rfl, -⟩ := List.append_inj' hk' rfl
  have hnew := h.nameIsNew ht hqk hfree
  have hroom : (WsOp.ws_rename_node path name).HasRoom ws ↔ name.chars.length ≤ n.nameLimit := by
    constructor
    · exact fun hroom => hroom n hres
    · intro hroom n' hn'
      rw [hres] at hn'
      cases hn'
      exact hroom
  -- the name is acceptable and new by the specification, so only its length is left
  have hchecks : rename_checks ws.entry_store n name.chars ↔
      name.chars.length ≤ MAX_NAME_LENGTH := by
    constructor
    · rintro ⟨p, -, hvalid⟩
      exact ((validate_sub_entry_name_ok_iff _ _ _).mp hvalid).2.1
    · exact fun hlen => ⟨q, hq, (validate_sub_entry_name_ok_iff _ _ _).mpr ⟨hok, hlen, hnew⟩⟩
  rw [hroom]
  have hlimit : MAX_NAME_LENGTH = 32 := rfl
  cases n with
  | file f =>
    have hreq : (WsOp.ws_rename_node path name).request ws =
        some (.rename_file f name.chars) := by simp [WsOp.request, hres]
    rw [succeeded_of_request hws ho hreq]
    show rename_checks _ _ _ ∧ _ ↔ name.chars.length ≤ MAX_NAME_LENGTH - 1
    rw [hchecks]
    omega
  | folder d =>
    have hreq : (WsOp.ws_rename_node path name).request ws =
        some (.rename_folder d name.chars) := by simp [WsOp.request, hres]
    rw [succeeded_of_request hws ho hreq]
    exact hchecks

/-- An append needs an extent and a run of free chunks. -/
theorem file_append_accepts {data : List Byte}
    (hp : σ.Performs (.ws_file_append path data) reply σ') :
    ((WsOp.ws_file_append path data).exec ws).succeeded = true ↔
      (WsOp.ws_file_append path data).HasRoom ws := by
  obtain ⟨-, hpos, l, old, htarget, hitem, -⟩ := hp
  obtain ⟨f, hf, -, -⟩ := h.fileAtPath_of_item hws htarget hitem
  have hreq : (WsOp.ws_file_append path data).request ws = some (.file_append f data) := by
    simp [WsOp.request, hf]
  rw [succeeded_of_request hws ho hreq]
  constructor
  · intro haccepts g hg
    rw [hf] at hg
    cases hg
    exact haccepts.2
  · exact fun hroom => ⟨hpos, hroom f hf⟩

/-- Clearing needs no room. -/
theorem file_clear_accepts (hp : σ.Performs (.ws_file_clear path) reply σ') :
    ((WsOp.ws_file_clear path).exec ws).succeeded = true := by
  obtain ⟨-, l, old, htarget, hitem, -⟩ := hp
  obtain ⟨f, hf, -, -⟩ := h.fileAtPath_of_item hws htarget hitem
  have hreq : (WsOp.ws_file_clear path).request ws = some (.file_delete_data f) := by
    simp [WsOp.request, hf]
  exact (succeeded_of_request hws ho hreq).mpr trivial

/-- Truncating needs no room. -/
theorem file_truncate_accepts {amount : Nat}
    (hp : σ.Performs (.ws_file_truncate path amount) reply σ') :
    ((WsOp.ws_file_truncate path amount).exec ws).succeeded = true := by
  obtain ⟨-, l, old, htarget, hitem, hamount, -⟩ := hp
  obtain ⟨f, hf, hc, rfl⟩ := h.fileAtPath_of_item hws htarget hitem
  have hreq : (WsOp.ws_file_truncate path amount).request ws =
      some (.file_truncate_by f amount) := by simp [WsOp.request, hf]
  rw [length_content (ho.ownsChunks hc).file_ok] at hamount
  exact (succeeded_of_request hws ho hreq).mpr hamount

end changes

/-! ## Section 5: Operations that do not -/

theorem succeeded_returning {α : Type} (prog : Sys Workspace α) (result : α → WsResult)
    (ws : Workspace) : (returning prog result ws).succeeded = (prog ws).succeeded := by
  unfold returning
  rw [bind_run]
  cases prog ws with
  | ok a ws' => rfl
  | fail e ws' => rfl
  | fault x => rfl

/-- A list is determined by what it lists, up to the order. -/
theorem FileSystem.Lists.length_eq {P : List (List Byte) → Prop}
    {es es' : List (List (List Byte) × Bool)} (h : σ.Lists P es) (h' : σ.Lists P es') :
    es.length = es'.length := by
  apply List.Perm.length_eq
  rw [List.perm_ext_iff_of_nodup h.1 h'.1]
  rintro ⟨l, b⟩
  rw [h.2, h'.2]

theorem Abstracts.length_lists {P : List (List Byte) → Prop} {ns : List VFSNode}
    {es : List (List (List Byte) × Bool)} (h : Abstracts ws σ) (ht : FolderTree ws.entry_store)
    (hnodup : ns.Nodup) (hns : ∀ n ∈ ns, ws.entry_store.committed n)
    (hmem : ∀ n l, ws.entry_store.PathTo n l → (n ∈ ns ↔ P l)) (hes : σ.Lists P es) :
    ns.length = es.length := by
  obtain ⟨es', hshow⟩ := exists_shown ht hns
  rw [hshow.length_eq]
  exact (h.lists ht hnodup hmem hshow).length_eq hes

/-- The folder that a change of the current folder goes to. -/
theorem Abstracts.goesTo (h : Abstracts ws σ) (hws : WorkspaceSound ws)
    (hp : σ.Performs (.ws_change_cur_folder path) reply σ') :
    ∃ r l, goesTo ws path = some r ∧ ws.entry_store.PathTo (.folder r) l ∧
      σ'.cwd = some l := by
  have ht := hws.sound.tree
  obtain ⟨-, hp⟩ := hp
  unfold VirtualFS.goesTo
  split at hp
  · next hback =>
    rw [if_pos hback]
    obtain ⟨k, x, hcwd, -, -, hcwd'⟩ := hp
    have hcur := h.cwd_path _ hcwd
    have hc : ws.entry_store.committed (.folder ws.cur_folder) := by
      apply (present_of_path hcur).resolve_left
      intro heq
      rw [heq] at hcur
      exact absurd (hcur.unique tree_root PathFrom.nil) (by simp)
    obtain ⟨k', heq, q, hq, hqk⟩ := path_eq_snoc hc hcur
    obtain ⟨rfl, -⟩ := List.append_inj' heq rfl
    have hroot : ¬ (ws.entry_store.folderAt ws.cur_folder).is_root = true := by
      rw [ht.is_root_iff hc.live]
      exact fun heq => hc.ne_root (congrArg _ heq)
    rw [if_neg hroot]
    exact ⟨q, k, hq, hqk, hcwd'⟩
  · next hback =>
    rw [if_neg hback]
    obtain ⟨l, htarget, hitem, -, hcwd'⟩ := hp
    obtain ⟨r, hr⟩ := h.folder_of_item ht hitem
    exact ⟨r, l, folderAtPath_eq_some.mpr (h.resolves hws htarget hr), hr, hcwd'⟩

/-- Entering a folder needs a path that can be printed. -/
theorem change_cur_folder_accepts (h : Abstracts ws σ) (hws : WorkspaceSound ws)
    (hp : σ.Performs (.ws_change_cur_folder path) reply σ') :
    ((WsOp.ws_change_cur_folder path).exec ws).succeeded = true ↔
      (WsOp.ws_change_cur_folder path).HasRoom ws := by
  have ht := hws.sound.tree
  obtain ⟨r, l, hto, hl, -⟩ := h.goesTo hws hp
  have hroom : (WsOp.ws_change_cur_folder path).HasRoom ws ↔ l.length ≤ MAX_PATH_NODES_AMOUNT := by
    constructor
    · exact fun hroom => hroom r l hto hl
    · intro hlen r' l' hto' hl'
      rw [hto] at hto'
      cases hto'
      rwa [hl'.unique tree_root hl]
  show (returning (ws_change_cur_folder path) _ ws).succeeded = true ↔ _
  rw [hroom, succeeded_returning]
  rcases ws_change_cur_folder_cases hws path with
    ⟨r', hto', hrun⟩ | ⟨hnone, -⟩ | ⟨hback, hdead, -⟩
  · rw [hto] at hto'
    cases hto'
    rw [hrun]
    unfold enter_folder onCurPath
    rw [bind_run, zoom_run]
    -- The path of the folder entered is printed; it fits, or the printing is undefined.
    by_cases hlen : l.length ≤ MAX_PATH_NODES_AMOUNT
    · obtain ⟨b, hb, -⟩ := get_node_path_run ht hl hlen ws.cur_path
      rw [hb]
      exact ⟨fun _ => hlen, fun _ => rfl⟩
    · rw [get_node_path_deep ht hl (Nat.lt_of_not_le hlen) ws.cur_path]
      exact ⟨nofun, fun hle => absurd hle hlen⟩
  · rw [hto] at hnone
    cases hnone
  · exact absurd (live_of_goesTo_parent hws hback hto) hdead

theorem ws_get_sub_entries_succeeds {path : Option CString} {length : Nat}
    (hr : listedFolder ws path = some r) (hfit : (ws.entry_store.children r).length ≤ length) :
    (ws_get_sub_entries path length ws).succeeded = true := by
  have hnot : ¬ (ws.entry_store.children r).length > length := Nat.not_lt.mpr hfit
  unfold ws_get_sub_entries
  cases path with
  | none =>
    cases hr
    simp [hnot]
  | some path => simp [folderAtPath_eq_some.mp hr, hnot]

/-- Listing needs no room but the buffer, which is part of the operation. -/
theorem get_sub_entries_accepts {path : Option CString} {length : Nat} (h : Abstracts ws σ)
    (hws : WorkspaceSound ws) (hp : σ.Performs (.ws_get_sub_entries path length) reply σ') :
    ((WsOp.ws_get_sub_entries path length).exec ws).succeeded = true := by
  have ht := hws.sound.tree
  show (returning (ws_get_sub_entries path length) _ ws).succeeded = true
  rw [succeeded_returning]
  obtain ⟨-, es, -, hfit, hlists⟩ := hp
  -- the listed entries and the children correspond one to one
  have hlength : ∀ {r l P}, ws.entry_store.PathTo (.folder r) l →
      (∀ n k, ws.entry_store.PathTo n k → (n ∈ ws.entry_store.children r ↔ P k)) →
      σ.Lists P es → (ws.entry_store.children r).length ≤ length := by
    intro r l P hl hmem hes
    have hlive := live_of_path_folder hl
    have hchildren : ∀ n ∈ ws.entry_store.children r, ws.entry_store.committed n :=
      fun n hn => (ht.children_committed r hlive n hn).1
    rw [h.length_lists ht (ht.children_nodup hlive) hchildren hmem hes]
    exact hfit
  cases path with
  | none =>
    apply ws_get_sub_entries_succeeds rfl
    rcases hws.cur with hlive | hvac
    · obtain ⟨l, hl⟩ := ht.exists_path hlive
      refine hlength hl ?_ hlists
      intro n k hk
      rw [mem_children_iff_path ht hl hk, h.cwd_eq_some hl]
      simp
    · rw [hvac.children_eq]
      exact Nat.zero_le _
  | some path =>
    obtain ⟨l, htarget, hitem, hlists⟩ := hlists
    obtain ⟨r, hr⟩ := h.folder_of_item ht hitem
    have hlisted : listedFolder ws (some path) = some r :=
      folderAtPath_eq_some.mpr (h.resolves hws htarget hr)
    apply ws_get_sub_entries_succeeds hlisted
    exact hlength hr (fun n k hk => mem_children_iff_path ht hr hk) hlists

/-- A search needs a name and a buffer. -/
theorem global_search_accepts {name : CString} {length : Nat} (h : Abstracts ws σ)
    (hws : WorkspaceSound ws) (hp : σ.Performs (.ws_global_search_by_name name length) reply σ') :
    ((WsOp.ws_global_search_by_name name length).exec ws).succeeded = true ↔
      (WsOp.ws_global_search_by_name name length).HasRoom ws := by
  show (returning (ws_global_search_by_name name length) _ ws).succeeded = true ↔ _
  rw [succeeded_returning]
  unfold ws_global_search_by_name
  rw [bind_run, readState_run, bind_ok]
  -- Without a name or without a buffer the search is refused, whatever there is to find.
  constructor
  · intro hsucc
    constructor
    · rintro hnil
      by_cases hlength : length = 0
      · simp [global_search_nodes_by_name, hlength, succeeded] at hsucc
      · simp [global_search_nodes_by_name, hlength, hnil, succeeded] at hsucc
    · by_contra hzero
      simp [global_search_nodes_by_name, Nat.eq_zero_of_not_pos hzero, succeeded] at hsucc
  · rintro ⟨hne, hpos⟩
    obtain ⟨-, es, -, hfit, hlists⟩ := hp
    have hlength : (ws.entry_store.namesakes name.chars).length = es.length := by
      apply h.length_lists hws.sound.tree (nodup_namesakes _ _) _ _ hlists
      · exact fun n hn => (mem_namesakes.mp hn).1
      · exact fun n k hk => mem_namesakes_iff_path name.nul_free hk
    rw [global_search_eq hne hpos, if_pos (by omega)]
    rfl

section reading

variable (h : Abstracts ws σ) (hws : WorkspaceSound ws) (ho : Ownership ws.toVFS)
include h hws ho

/-- Reading needs no room. -/
theorem file_read_all_accepts {size : Nat}
    (hp : σ.Performs (.ws_file_read_all path size) reply σ') :
    ((WsOp.ws_file_read_all path size).exec ws).succeeded = true := by
  obtain ⟨-, l, data, htarget, hitem, hfit, -⟩ := hp
  obtain ⟨f, hf, hc, rfl⟩ := h.fileAtPath_of_item hws htarget hitem
  have howns := ho.ownsChunks hc
  rw [length_content howns.file_ok] at hfit
  show (returning (ws_file_read_all path size) _ ws).succeeded = true
  rw [succeeded_returning]
  unfold ws_file_read_all
  rw [bind_run, ws_resolve_file_run (fileAtPath_eq_some.mp hf), bind_ok, bind_run, readState_run,
    bind_ok]
  simp only [Nat.not_lt.mpr hfit, if_false]
  by_cases hzero : (ws.entry_store.files f).allocated_size = 0
  · simp [hzero]
  · have hpos : 0 < (ws.entry_store.files f).allocated_size * CHUNK_SIZE :=
      Nat.mul_pos (Nat.pos_of_ne_zero hzero) (by decide)
    simp only [hzero, if_false, onSystem, zoom_run,
      file_read_at_run howns hpos hfit (Nat.le_of_eq (Nat.zero_add _))]
    rfl

theorem file_read_at_accepts {offset amount size : Nat}
    (hp : σ.Performs (.ws_file_read_at path offset amount size) reply σ') :
    ((WsOp.ws_file_read_at path offset amount size).exec ws).succeeded = true := by
  obtain ⟨-, l, data, htarget, hitem, hpos, hfit, hend, -⟩ := hp
  obtain ⟨f, hf, hc, rfl⟩ := h.fileAtPath_of_item hws htarget hitem
  have howns := ho.ownsChunks hc
  rw [length_content howns.file_ok] at hend
  show (returning (ws_file_read_at path offset amount size) _ ws).succeeded = true
  rw [succeeded_returning]
  unfold ws_file_read_at
  simp only [Nat.not_lt.mpr hfit, if_false]
  rw [bind_run, ws_resolve_file_run (fileAtPath_eq_some.mp hf), bind_ok]
  simp only [onSystem, zoom_run, file_read_at_run howns hpos hfit hend]
  rfl

end reading

/-! ## Section 6: All operations -/

/-- What succeeds is allowed. -/
theorem allows_of_succeeded (h : Abstracts ws σ) (hws : WorkspaceSound ws)
    (ho : Ownership ws.toVFS) (hin : op.InRange) (hsucc : (op.exec ws).succeeded = true) :
    σ.Allows op := by
  obtain ⟨result, ws', hrun⟩ := exists_of_succeeded hsucc
  have hfinal : (op.exec ws).final = some ws' := by rw [hrun]; rfl
  have hws' := (WsOp.exec_step hws hfinal).workspaceSound hws
  obtain ⟨σ', h'⟩ := exists_abstracts hws'
  obtain ⟨reply, -, hobs⟩ := exists_observation hws hin hfinal
  cases reply with
  | none =>
    obtain ⟨e, hfail⟩ := hobs
    rw [hrun] at hfail
    cases hfail
  | some reply =>
    obtain ⟨result', hok, hshow⟩ := hobs
    exact ⟨reply, σ', exec_performs h hws ho h' hin hok hshow⟩

theorem succeeded_of_allows (h : Abstracts ws σ) (hws : WorkspaceSound ws)
    (ho : Ownership ws.toVFS) (hsafe : ws.safe_mode = false) (hallows : σ.Allows op) :
    (op.exec ws).succeeded = true ↔ op.HasRoom ws := by
  obtain ⟨reply, σ', hp⟩ := hallows
  cases op with
  | ws_create_file name => exact create_file_accepts h hws ho hp
  | ws_create_folder name => exact create_folder_accepts h hws ho hp
  | ws_remove_file path => exact iff_of_true (remove_file_accepts h hws ho hsafe hp) trivial
  | ws_remove_folder path recursive => exact remove_folder_accepts h hws ho hsafe hp
  | ws_move_node path parent_path => exact move_node_accepts h hws ho hp
  | ws_rename_node path name => exact rename_node_accepts h hws ho hp
  | ws_change_cur_folder path => exact change_cur_folder_accepts h hws hp
  | ws_get_sub_entries path length => exact iff_of_true (get_sub_entries_accepts h hws hp) trivial
  | ws_global_search_by_name name length => exact global_search_accepts h hws hp
  | ws_file_append path data => exact file_append_accepts h hws ho hp
  | ws_file_clear path => exact iff_of_true (file_clear_accepts h hws ho hp) trivial
  | ws_file_truncate path amount => exact iff_of_true (file_truncate_accepts h hws ho hp) trivial
  | ws_file_read_all path size => exact iff_of_true (file_read_all_accepts h hws ho hp) trivial
  | ws_file_read_at path offset amount size =>
    exact iff_of_true (file_read_at_accepts h hws ho hp) trivial

/-- **Nothing is refused without need.** In every state that a run can reach an operation
    succeeds exactly if the specification allows it and there is room. -/
theorem workspace_accepts_iff (h : workspaceSystem.Reachable ws) (hσ : Abstracts ws σ)
    (hin : op.InRange) : (op.exec ws).succeeded = true ↔ σ.Allows op ∧ op.HasRoom ws := by
  have hws := workspaceSystem_sound h
  have ho := workspaceSystem_ownership h
  constructor
  · intro hsucc
    have hallows := allows_of_succeeded hσ hws ho hin hsucc
    exact ⟨hallows, (succeeded_of_allows hσ hws ho (safe_mode_of_reachable h) hallows).mp hsucc⟩
  · rintro ⟨hallows, hroom⟩
    exact (succeeded_of_allows hσ hws ho (safe_mode_of_reachable h) hallows).mpr hroom

/-- The folder is full of files, so that no file can be created, though a folder can. -/
theorem workspace_accepts_iff_run :
    ∃ ws, runWorkspace (fun _ _ => True)
        ([97, 98, 99, 100, 101, 102, 103, 104, 105, 106].map
          fun c => .ws_create_file (.ofBytes [c])) = some ws ∧
      ((WsOp.ws_create_file (.ofBytes [107])).exec ws).succeeded = false ∧
      ((WsOp.ws_create_folder (.ofBytes [107])).exec ws).succeeded = true ∧
      ∃ σ, Abstracts ws σ ∧
        ((((WsOp.ws_create_file (.ofBytes [107])).exec ws).succeeded = true ↔
          σ.Allows (.ws_create_file (.ofBytes [107])) ∧
            (WsOp.ws_create_file (.ofBytes [107])).HasRoom ws)) := by
  refine exists_of_run
    (Q := fun ws => ((WsOp.ws_create_file (.ofBytes [107])).exec ws).succeeded = false ∧
      ((WsOp.ws_create_folder (.ofBytes [107])).exec ws).succeeded = true)
    (by decide +kernel) fun ws hrun hQ => ⟨hQ.1, hQ.2, ?_⟩
  have hreach : workspaceSystem.Reachable ws := reachable_of_runWorkspace hrun
  obtain ⟨σ, hσ⟩ := exists_abstracts (workspaceSystem_sound hreach)
  exact ⟨σ, hσ, workspace_accepts_iff hreach hσ trivial⟩

end VirtualFS
