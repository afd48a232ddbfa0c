import VirtualFS.Store.NameBuffer
import VirtualFS.Store.Rerooting
import VirtualFS.Workspace.CurrentFolder
import VirtualFS.Workspace.Depth

/-! # Undefined Behaviour

    The workspace checks its arguments, so that few calls have no defined
    end. This module lists them, and shows that the list is complete:

    * a file is renamed to a name that is as long as its buffer,
    * a file is cut by exactly what has been allocated for it,
    * `..` is entered from a folder that has been removed,
    * a folder is entered whose path has more than `MAX_PATH_NODES_AMOUNT`
      names.

    * `workspace_undefined_iff`: undefined behaviour, for any operation in any
      reachable workspace.
    * `navigable_undefined_iff`: the first two are left in runs that keep the depth
      and the current folder.
-/

namespace VirtualFS

open Framework Prog Outcome ParentMap VFSEntryStore

variable {ws ws' : Workspace} {s : VFS} {op : WsOp} {sop : StoreOp} {path : CString}
  {r : FolderRef} {f : FileRef}

/-! ## Section 1: Calls of the store -/

/-- The calls of the entry store that have no defined end. -/
def StoreOp.Undefined (s : VFS) : StoreOp → Prop
  | rename_file f name =>
    ∃ p, s.entry_store.parentOf (.file f) = some p ∧ FillsNameBuffer s.entry_store p name
  | file_truncate_by f amount =>
    0 < amount ∧ amount = (s.entry_store.files f).allocated_size * CHUNK_SIZE
  | _ => False

/-- The name passes the checks, and its terminator has no byte. -/
theorem rename_file_final_eq_none_iff {es : VFSEntryStore}
    (hp : es.parentOf (.file f) = some r) (name : List Byte) :
    (rename_file f name es).final = none ↔ FillsNameBuffer es r name := by
  have hp' : (es.files f).parent_folder = some r := hp
  constructor
  · intro hnone
    by_contra hfits
    cases hv : validate_sub_entry_name es r name with
    | error e => simp [rename_file, hp', hv, final] at hnone
    | ok _ =>
      cases hb : set_entry_name name (es.files f).name with
      | none =>
        have hlen := (set_entry_name_file_eq_none_iff hv _).mp hb
        exact hfits (fillsNameBuffer_iff.mpr ⟨hv, hlen⟩)
      | some b => simp [rename_file, hp', hv, hb, final] at hnone
  · intro hfills
    rw [rename_file_overflows hp hfills]
    rfl

/-- A name that fills the buffer and passes the checks. -/
theorem rename_file_undefined_iff (ht : FolderTree s.entry_store)
    (hf : s.entry_store.committed (.file f)) (name : List Byte) :
    ((StoreOp.rename_file f name).exec s).final = none ↔
      (StoreOp.rename_file f name).Undefined s := by
  obtain ⟨p, hp, -⟩ := ht.linked _ hf
  have hcall : ((StoreOp.rename_file f name).exec s).final = none ↔
      (rename_file f name s.entry_store).final = none := by
    show (onEntryStore (rename_file f name) s).final = none ↔ _
    unfold onEntryStore
    rw [zoom_run, final_mapState, Option.map_eq_none_iff]
  rw [hcall, rename_file_final_eq_none_iff hp]
  constructor
  · exact fun hfills => ⟨p, hp, hfills⟩
  · rintro ⟨q, hq, hfills⟩
    rw [hp] at hq
    cases hq
    exact hfills

theorem allocated_size_pos {l : List ChunkExtent} {x : ChunkExtent} (howns : OwnsChunks s f)
    (hl : (s.entry_store.files f).extents = l ++ [x]) :
    0 < (s.entry_store.files f).allocated_size := by
  have hstored := howns.file_ok.stored
  have hpos := howns.file_ok.amount_pos x (by simp [hl])
  rw [hl] at hstored
  rw [hstored.size_eq, chunksOf_append, List.length_append, chunksOf_cons, chunksOf_nil,
    List.append_nil, length_chunks]
  omega

/-- The last extent is freed, and the one before the array is read. -/
theorem file_truncate_by_undefined_iff (howns : OwnsChunks s f) (amount : Nat) :
    ((StoreOp.file_truncate_by f amount).exec s).final = none ↔
      (StoreOp.file_truncate_by f amount).Undefined s := by
  have hstored := howns.file_ok.stored
  show (file_truncate_by f amount s).final = none ↔
    0 < amount ∧ amount = (s.entry_store.files f).allocated_size * CHUNK_SIZE
  rcases Nat.lt_trichotomy amount ((s.entry_store.files f).allocated_size * CHUNK_SIZE)
    with hlt | heq | hgt
  · obtain ⟨s', hrun, -⟩ := file_truncate_by_effect howns hlt
    rw [hrun]
    exact ⟨nofun, fun h => absurd h.2 (Nat.ne_of_lt hlt)⟩
  · rcases List.eq_nil_or_concat' (s.entry_store.files f).extents with hnil | ⟨l, x, hl⟩
    · -- an empty file has no bytes to remove
      rw [hnil] at hstored
      have hsize : (s.entry_store.files f).allocated_size = 0 := hstored.size_eq
      have hzero : amount = 0 := by rw [heq, hsize, Nat.zero_mul]
      rw [hzero, file_truncate_by_empty hstored]
      exact ⟨nofun, fun h => absurd h.1 (Nat.lt_irrefl 0)⟩
    · have hsize := allocated_size_pos howns hl
      rw [hl] at hstored
      have hpos : 0 < amount := by
        rw [heq]
        exact Nat.mul_pos hsize (by decide)
      refine ⟨fun _ => ⟨hpos, heq⟩, fun _ => ?_⟩
      rw [heq, file_truncate_by_whole hstored]
      rfl
  · rw [file_truncate_by_too_much hgt]
    exact ⟨nofun, fun h => absurd h.2 (Nat.ne_of_gt hgt)⟩

/-- A call with arguments from the store. -/
theorem StoreOp.undefined_iff (hs : Sound s) (hin : sop.inStore s.entry_store) :
    (sop.exec s).final = none ↔ sop.Undefined s := by
  have hsat := sop.exec_sat hs hin
  cases sop with
  | rename_file f name => exact rename_file_undefined_iff hs.tree hin name
  | file_truncate_by f amount =>
    exact file_truncate_by_undefined_iff (hs.chunks.ownsChunks hin) amount
  | _ => exact ⟨fun hnone => absurd hnone hsat.final_ne_none, False.elim⟩

/-! ## Section 2: Changes of the current folder -/

/-- `..` does nothing at the root, and needs a parent below it. The path of the folder
    that is entered needs a place for each of its names. -/
def UndefinedChange (ws : Workspace) (path : CString) : Prop :=
  (path.chars = BACK_TO_PARENT_OPERATOR ∧ ¬ ws.entry_store.live ws.cur_folder) ∨
    ∃ r l, goesTo ws path = some r ∧ ws.entry_store.PathTo (.folder r) l ∧
      MAX_PATH_NODES_AMOUNT < l.length

/-- A path that is too long to be printed. -/
theorem enter_folder_undefined_iff (ht : FolderTree ws.entry_store) {l : List (List Byte)}
    (hl : ws.entry_store.PathTo (.folder r) l) :
    (enter_folder ws.entry_store r ws).final = none ↔ MAX_PATH_NODES_AMOUNT < l.length := by
  unfold enter_folder onCurPath
  rw [bind_run, zoom_run]
  by_cases hlen : l.length ≤ MAX_PATH_NODES_AMOUNT
  · obtain ⟨b, hb, -⟩ := get_node_path_run ht hl hlen ws.cur_path
    rw [hb]
    exact ⟨nofun, fun hdeep => absurd hlen (Nat.not_le.mpr hdeep)⟩
  · rw [get_node_path_deep ht hl (Nat.lt_of_not_le hlen) ws.cur_path]
    exact ⟨fun _ => Nat.lt_of_not_le hlen, fun _ => rfl⟩

theorem live_of_goesTo_parent (hws : WorkspaceSound ws)
    (hpath : path.chars = BACK_TO_PARENT_OPERATOR) (hto : goesTo ws path = some r) :
    ws.entry_store.live ws.cur_folder := by
  rcases hws.cur with hlive | hvac
  · exact hlive
  · unfold goesTo at hto
    rw [if_pos hpath, hvac.not_root, hvac.parent_eq] at hto
    cases hto

/-- A removed folder has lost its parent; every other one below the root has one. -/
theorem ws_change_cur_folder_cases (hws : WorkspaceSound ws) (path : CString) :
    (∃ r, goesTo ws path = some r ∧
      ws_change_cur_folder path ws = enter_folder ws.entry_store r ws) ∨
    (goesTo ws path = none ∧
      (path.chars = BACK_TO_PARENT_OPERATOR → ws.entry_store.live ws.cur_folder) ∧
      ∃ e, ws_change_cur_folder path ws = .fail e ws) ∨
    (path.chars = BACK_TO_PARENT_OPERATOR ∧ ¬ ws.entry_store.live ws.cur_folder ∧
      ws_change_cur_folder path ws = .fault .null_dereference) := by
  have ht := hws.sound.tree
  -- `..` reads the parent of the current folder, which a removed folder does not have.
  by_cases hpath : path.chars = BACK_TO_PARENT_OPERATOR
  · by_cases hroot : (ws.entry_store.folderAt ws.cur_folder).is_root = true
    · refine Or.inr (Or.inl ⟨by simp [goesTo, hpath, hroot], fun _ => ?_, ?_⟩)
      · rcases hws.cur with hlive | hvac
        · exact hlive
        · rw [hvac.not_root] at hroot
          cases hroot
      · exact ⟨.INVALID_ROOT_OPERATION, by simp [ws_change_cur_folder, hpath, hroot]⟩
    · cases hparent : (ws.entry_store.folderAt ws.cur_folder).parent_folder with
      | some p =>
        refine Or.inl ⟨p, by simp [goesTo, hpath, hroot, hparent], ?_⟩
        simp [ws_change_cur_folder, enter_folder, hpath, hroot, hparent]
      | none =>
        refine Or.inr (Or.inr ⟨hpath, fun hlive => ?_, ?_⟩)
        · rcases hlive with hcur | hcur
          · rw [hcur] at hroot
            exact hroot ht.root_is_root
          · obtain ⟨p, hp, -⟩ := ht.linked _ hcur
            have hnone : ws.entry_store.parentOf (.folder ws.cur_folder) = none := hparent
            rw [hnone] at hp
            cases hp
        · simp [ws_change_cur_folder, hpath, hroot, hparent]
  · cases hres : ws_resolve_path ws path with
    | error e =>
      refine Or.inr (Or.inl ⟨?_, fun h => absurd h hpath, e, ?_⟩)
      · simp [goesTo, hpath, folderAtPath, hres]
      · simp [ws_change_cur_folder, hpath, hres]
    | ok n =>
      cases n with
      | file f =>
        refine Or.inr (Or.inl ⟨?_, fun h => absurd h hpath, .EXPECTED_FOLDER_GOT_FILE, ?_⟩)
        · simp [goesTo, hpath, folderAtPath, hres]
        · simp [ws_change_cur_folder, hpath, hres]
      | folder r =>
        refine Or.inl ⟨r, ?_, ?_⟩
        · simp [goesTo, hpath, folderAtPath, hres]
        · simp [ws_change_cur_folder, enter_folder, hpath, hres]

/-- The two ways in which entering a folder is undefined. -/
theorem ws_change_cur_folder_undefined_iff (hws : WorkspaceSound ws) (path : CString) :
    (ws_change_cur_folder path ws).final = none ↔ UndefinedChange ws path := by
  have ht := hws.sound.tree
  rcases ws_change_cur_folder_cases hws path with
    ⟨r, hto, hrun⟩ | ⟨hto, hlive, e, hrun⟩ | ⟨hpath, hdead, hrun⟩
  · obtain ⟨l, hl⟩ := ht.exists_path (goesTo_live hws hto)
    rw [hrun, enter_folder_undefined_iff ht hl]
    constructor
    · exact fun hdeep => Or.inr ⟨r, l, hto, hl, hdeep⟩
    · rintro (⟨hpath, hdead⟩ | ⟨r', l', hto', hl', hdeep⟩)
      · exact absurd (live_of_goesTo_parent hws hpath hto) hdead
      · rw [hto] at hto'
        cases hto'
        rw [hl.unique tree_root hl']
        exact hdeep
  · rw [hrun]
    refine ⟨nofun, ?_⟩
    rintro (⟨hpath, hdead⟩ | ⟨r', l', hto', -⟩)
    · exact absurd (hlive hpath) hdead
    · rw [hto] at hto'
      cases hto'
  · rw [hrun]
    exact ⟨fun _ => Or.inl ⟨hpath, hdead⟩, fun _ => rfl⟩

/-! ## Section 3: The list is complete -/

/-- The operations that have no defined end. -/
def WsOp.Undefined (ws : Workspace) : WsOp → Prop
  | ws_change_cur_folder path => UndefinedChange ws path
  | op => ∃ sop, op.request ws = some sop ∧ sop.Undefined ws.toVFS

/-- An operation is as undefined as its call. -/
theorem dispatched_undefined_iff (hws : WorkspaceSound ws) (h : Dispatches op ws) :
    (op.exec ws).final = none ↔ ∃ sop, op.request ws = some sop ∧ sop.Undefined ws.toVFS := by
  rcases h with ⟨sop, hreq, hcall⟩ | ⟨hreq, halone⟩
  · -- the call is the whole operation, so it is undefined exactly when the call is
    have hcalled : (op.exec ws).final = none ↔ (sop.exec ws.toVFS).final = none := by
      rw [hcall]
      unfold onSystem
      rw [zoom_run]
      cases sop.exec ws.toVFS with
      | ok a s => exact ⟨nofun, nofun⟩
      | fail e s => exact ⟨nofun, nofun⟩
      | fault x => exact ⟨fun _ => rfl, fun _ => rfl⟩
    rw [hcalled, StoreOp.undefined_iff hws.sound (WsOp.request_inStore hws hreq)]
    constructor
    · exact fun hundef => ⟨sop, hreq, hundef⟩
    · rintro ⟨sop', hreq', hundef⟩
      rw [hreq] at hreq'
      cases hreq'
      exact hundef
  · refine ⟨fun hnone => absurd hnone (Sat.final_ne_none halone), ?_⟩
    rintro ⟨sop, hreq', -⟩
    rw [hreq] at hreq'
    cases hreq'

/-- An operation has no defined end exactly if it is on the list. -/
theorem exec_undefined_iff (hws : WorkspaceSound ws) (op : WsOp) :
    (op.exec ws).final = none ↔ op.Undefined ws := by
  have hdispatch := op.dispatches ws
  cases op with
  | ws_change_cur_folder path =>
    show ((ws_change_cur_folder path ws).bind fun _ ws' => .ok WsResult.done ws').final = none ↔
      UndefinedChange ws path
    rw [← ws_change_cur_folder_undefined_iff hws path]
    cases ws_change_cur_folder path ws with
    | ok a ws' => exact ⟨nofun, nofun⟩
    | fail e ws' => exact ⟨nofun, nofun⟩
    | fault x => exact ⟨fun _ => rfl, fun _ => rfl⟩
  | _ =>
    rcases hdispatch with hdispatch | ⟨path, hpath⟩
    · exact dispatched_undefined_iff hws hdispatch
    · cases hpath

/-- **Where the behaviour is defined.** In every state that a run can reach an operation has
    no defined end exactly if it is on the list. -/
theorem workspace_undefined_iff (h : workspaceSystem.Reachable ws) (op : WsOp) :
    (op.exec ws).final = none ↔ op.Undefined ws :=
  exec_undefined_iff (workspaceSystem_sound h) op

/-- The longest name is one byte too long for a file; the folder of that name is renamed. -/
theorem workspace_undefined_iff_run :
    ∃ ws, runWorkspace (fun _ _ => True)
        [.ws_create_file (.ofBytes [97]), .ws_create_folder (.ofBytes [98]),
          .ws_rename_node (.ofBytes [98]) (.ofBytes (List.replicate 32 99))] = some ws ∧
      (((WsOp.ws_rename_node (.ofBytes [97]) (.ofBytes (List.replicate 32 98))).exec ws).final =
        none ↔
      WsOp.Undefined ws (.ws_rename_node (.ofBytes [97]) (.ofBytes (List.replicate 32 98)))) ∧
      ((WsOp.ws_rename_node (.ofBytes [97]) (.ofBytes (List.replicate 32 98))).exec ws).final =
        none := by
  refine exists_of_run
    (Q := fun ws =>
      ((WsOp.ws_rename_node (.ofBytes [97]) (.ofBytes (List.replicate 32 98))).exec ws).final.isNone
        = true)
    (by decide +kernel) fun ws hrun hnone => ⟨?_, Option.isNone_iff_eq_none.mp hnone⟩
  exact workspace_undefined_iff
    (workspaceSystem_mono (fun _ _ _ _ => trivial) (reachable_of_runWorkspace hrun)) _

/-! ## Section 4: Runs that stay navigable -/

/-- The operation keeps the bound on the depth and the current folder. -/
def StaysNavigable (ws : Workspace) (op : WsOp) : Prop :=
  KeepsDepth ws op ∧ KeepsCurrentFolder ws op

/-- **Navigation is defined** after every run that stays navigable: what is left of the list
    are the two calls of the store. -/
theorem navigable_undefined_iff (h : (workspaceSystemWith StaysNavigable).Reachable ws)
    (op : WsOp) : (op.exec ws).final = none ↔
      ∃ sop, op.request ws = some sop ∧ sop.Undefined ws.toVFS := by
  have hws := workspaceSystem_sound (workspaceSystem_mono (fun _ _ _ _ => trivial) h)
  rw [exec_undefined_iff hws op]
  have hlive := live_cur_of_reachable (workspaceSystem_mono (fun _ _ _ hop => hop.2) h)
  have hdepth := depth_of_reachable (workspaceSystem_mono (fun _ _ _ hop => hop.1) h)
  cases op with
  | ws_change_cur_folder path =>
    constructor
    · rintro (⟨-, hdead⟩ | ⟨r, l, -, hl, hdeep⟩)
      · exact absurd hlive hdead
      · exact absurd (hdepth _ l hl) (Nat.not_le.mpr hdeep)
    · rintro ⟨sop, hreq, -⟩
      cases hreq
  | _ => exact Iff.rfl

/-- A way down and back, with a removal at the root. -/
theorem navigable_undefined_iff_run :
    ∃ ws, runWorkspace (fun ws op => ClimbsToRoot ws op ∧ RemovesAtRoot ws op)
        [.ws_create_folder (.ofBytes [97]), .ws_change_cur_folder (.ofBytes [97]),
          .ws_create_folder (.ofBytes [98]), .ws_change_cur_folder (.ofBytes [46, 46]),
          .ws_remove_folder (.ofBytes [47, 97]) true] = some ws ∧
      (((WsOp.ws_change_cur_folder (.ofBytes [46, 46])).exec ws).final = none ↔
        ∃ sop, (WsOp.ws_change_cur_folder (.ofBytes [46, 46])).request ws = some sop ∧
          sop.Undefined ws.toVFS) := by
  refine exists_of_run (Q := fun _ => True) (by decide +kernel) fun ws hrun _ => ?_
  exact navigable_undefined_iff (workspaceSystem_mono
    (fun ws op hws hop => And.intro (hop.1.keepsDepth hws) (hop.2.keepsCurrentFolder hws))
    (reachable_of_runWorkspace hrun)) _

end VirtualFS
