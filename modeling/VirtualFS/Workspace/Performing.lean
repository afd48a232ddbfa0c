import Mathlib.Data.List.Forall2
import VirtualFS.Framework.Simulation
import VirtualFS.Store.FileExtents
import VirtualFS.Store.Search
import VirtualFS.Workspace.Abstraction
import VirtualFS.Workspace.Failures

/-! # Performing the Specification

    What a step of the workspace shows to an observer, and that the specified
    file system may take the same step: operations that succeed are performed,
    and those that fail are refused.

    * `observedSystem`: the workspace with the reply of each operation as a part of
      the label. A reply names entries by their paths.
    * `WsOp.InRange`: sizes that fit in a `size_t`, as those of all callers do.
    * `exec_performs`, `exec_refuses`: the two halves of the simulation, from one
      lemma for each operation.
-/

namespace VirtualFS

open Framework Prog Outcome ParentMap VFSEntryStore

variable {ws ws' : Workspace} {s s' : VFS} {σ σ' : FileSystem} {n m : VFSNode} {f : FileRef}
  {p r : FolderRef} {l k : List (List Byte)} {x : List Byte} {path : CString}
  {op : WsOp} {sop : StoreOp} {result : WsResult}

/-! ## Section 1: Observations -/

/-- An entry is seen as its path and its kind. -/
def VFS.ShowsNode (s : VFS) (n : VFSNode) (e : List (List Byte) × Bool) : Prop :=
  s.entry_store.PathTo n e.1 ∧ (s.itemOf n).isFolder = e.2

/-- What is seen of a result. -/
def VFS.Shows (s : VFS) : WsResult → Reply → Prop
  | .done, .done => True
  | .bytes data, .bytes data' => data' = data
  | .nodes ns, .entries es => List.Forall₂ s.ShowsNode ns es
  | _, _ => False

/-- Offsets and amounts are values of `size_t`. -/
def WsOp.InRange : WsOp → Prop
  | ws_file_read_at _ offset amount _ => offset < SIZE_T_RANGE ∧ amount < SIZE_T_RANGE
  | _ => True

/-- Runs of the workspace with what is seen of each step: a reply, or a failure. -/
def observedSystem : System Workspace (WsOp × Option Reply) where
  init := WorkspaceInitialised
  step := fun ws label ws' => label.1.InRange ∧
    match label.2 with
    | some reply => ∃ result, label.1.exec ws = .ok result ws' ∧ ws.Shows result reply
    | none => ∃ e, label.1.exec ws = .fail e ws'

/-- Observing a run does not change it. -/
theorem workspace_of_observed (h : observedSystem.Reachable ws) :
    workspaceSystem.Reachable ws := by
  apply h.simulates (f := id)
  · exact fun ws hinit => System.Reachable.init hinit
  · rintro ws ⟨op, reply⟩ ws' - - ⟨-, hstep⟩
    refine Or.inr ⟨op, trivial, ?_⟩
    show (op.exec ws).final = some ws'
    cases reply with
    | some reply =>
      obtain ⟨result, hrun, -⟩ := hstep
      exact congrArg final hrun
    | none =>
      obtain ⟨e, hrun⟩ := hstep
      exact congrArg final hrun

/-- What every run keeps, the accounts of the disk included. -/
theorem workspaceSystem_ownership {condition : Workspace → WsOp → Prop}
    (h : (workspaceSystemWith condition).Reachable ws) : Ownership ws.toVFS := by
  apply workspaceSystem_invariant (I := fun ws => Ownership ws.toVFS) _ _ h
  · exact fun ws hfresh => hfresh.empty.ownership hfresh.all_free
  · intro ws op ws' hws ho _ hstep
    cases hstep with
    | stay hreq h => rwa [h]
    | call sop s' hreq hrun h =>
      subst h
      have hstep := StoreOp.exec_step hws.sound (WsOp.request_inStore hws hreq) hrun
      exact hstep.ownership hws.sound ho
    | enter path r hop hto h =>
      obtain ⟨b, -, rfl⟩ := h
      exact ho

/-! ## Section 2: Lists of entries -/

/-- Nodes and the entries that show them determine each other. -/
theorem showsNode_biUnique (ht : FolderTree s.entry_store) : Relator.BiUnique s.ShowsNode := by
  constructor
  · rintro n m ⟨l, b⟩ ⟨hn, -⟩ ⟨hm, -⟩
    exact ht.wellFormed.path_inj hn hm
  · rintro n ⟨l, b⟩ ⟨k, c⟩ ⟨hl, hb⟩ ⟨hk, hc⟩
    exact Prod.ext (hl.unique tree_root hk) (hb.symm.trans hc)

theorem exists_of_mem_forall₂ {α β : Type} {R : α → β → Prop} {as : List α} {bs : List β} {b : β}
    (h : List.Forall₂ R as bs) (hb : b ∈ bs) : ∃ a ∈ as, R a b := by
  induction h with
  | nil => cases hb
  | cons hR _ ih =>
    rcases List.mem_cons.mp hb with rfl | hb
    · exact ⟨_, List.mem_cons_self .., hR⟩
    · obtain ⟨a, ha, hab⟩ := ih hb
      exact ⟨a, List.mem_cons_of_mem _ ha, hab⟩

/-- A list of nodes is seen as the list of what their paths lead to. -/
theorem Abstracts.lists {P : List (List Byte) → Prop} {ns : List VFSNode}
    {es : List (List (List Byte) × Bool)} (h : Abstracts ws σ) (ht : FolderTree ws.entry_store)
    (hnodup : ns.Nodup) (hmem : ∀ n l, ws.entry_store.PathTo n l → (n ∈ ns ↔ P l))
    (hshow : List.Forall₂ ws.ShowsNode ns es) : σ.Lists P es := by
  have huniq := showsNode_biUnique ht
  refine ⟨(List.rel_nodup huniq hshow).mp hnodup, ?_⟩
  intro l b
  rw [h.item_eq]
  constructor
  · intro hlb
    obtain ⟨n, hn, hpath, hb⟩ := exists_of_mem_forall₂ hshow hlb
    exact ⟨(hmem n l hpath).mp hn, _, view_of_path ht hpath, hb⟩
  · rintro ⟨hP, v, hv, rfl⟩
    obtain ⟨n, hpath, rfl⟩ := (view_eq_some_iff ht).mp hv
    exact (List.rel_mem huniq (show ws.ShowsNode n _ from ⟨hpath, rfl⟩) hshow).mp
      ((hmem n l hpath).mpr hP)

/-- The children of a folder are what is one step below it. -/
theorem mem_children_iff_path {es : VFSEntryStore} (ht : FolderTree es)
    (hl : es.PathTo (.folder r) l) (hk : es.PathTo n k) :
    n ∈ es.children r ↔ ∃ x, k = l ++ [x] := by
  have hr := live_of_path_folder hl
  constructor
  · intro hmem
    have hpath := PathFrom.child (ht.tree_eq hr hmem) hl
    exact ⟨_, hk.unique tree_root hpath⟩
  · rintro ⟨x, rfl⟩
    obtain ⟨q, hT, hq⟩ := hk.snoc_inv
    obtain rfl := ht.wellFormed.path_inj hq hl
    exact ((ht.tree_eq_some_iff hr).mp hT).1

/-- Namesakes are what paths with the name at their end lead to. -/
theorem mem_namesakes_iff_path {es : VFSEntryStore} (hx : (0 : Byte) ∉ x)
    (hk : es.PathTo n k) : n ∈ es.namesakes x ↔ ∃ l, k = l ++ [x] := by
  rw [mem_namesakes, cutAtNul_of_nul_not_mem hx]
  constructor
  · rintro ⟨hn, rfl⟩
    cases hk with
    | nil => exact hn.elim
    | child hT hq =>
      obtain ⟨-, -, -, -, rfl⟩ := tree_eq_some.mp hT
      exact ⟨_, rfl⟩
  · rintro ⟨l, rfl⟩
    obtain ⟨q, hT, -⟩ := hk.snoc_inv
    obtain ⟨hn, -, -, -, rfl⟩ := tree_eq_some.mp hT
    exact ⟨hn, rfl⟩

/-! ## Section 3: Successful operations -/

theorem onSystem_ok {α : Type} {prog : Sys VFS α} {a : α} (h : onSystem prog ws = .ok a ws') :
    ∃ s', prog ws.toVFS = .ok a s' ∧ ws' = { ws with toVFS := s' } := by
  obtain ⟨s', hs', rfl⟩ := exists_of_mapState h
  exact ⟨s', hs', rfl⟩

theorem onEntryStore_ok {α : Type} {prog : Sys VFSEntryStore α} {a : α}
    (h : onEntryStore prog s = .ok a s') :
    ∃ es', prog s.entry_store = .ok a es' ∧ s' = { s with entry_store := es' } := by
  obtain ⟨es', hes', rfl⟩ := exists_of_mapState h
  exact ⟨es', hes', rfl⟩

/-- The last step of a path to an entry is its name. -/
theorem path_eq_snoc {es : VFSEntryStore} (hn : es.committed n) (hl : es.PathTo n l) :
    ∃ k, l = k ++ [es.nameOf n] ∧ ∃ q, es.parentOf n = some q ∧ es.PathTo (.folder q) k := by
  cases hl with
  | nil => exact hn.elim
  | child hT hq =>
    obtain ⟨-, q, hp, rfl, rfl⟩ := tree_eq_some.mp hT
    exact ⟨_, rfl, q, hp, hq⟩

/-- The current folder after a change that leaves the store alone. -/
theorem Abstracts.enters (h : Abstracts ws σ) (ht : FolderTree ws.entry_store)
    (hl : ws.entry_store.PathTo (.folder r) l) (henters : VirtualFS.Enters ws ws' r)
    (h' : Abstracts ws' σ') : σ.Enters l σ' := by
  obtain ⟨b, -, rfl⟩ := henters
  refine ⟨h.item_folder ht hl, ?_, h'.cwd_eq_some hl⟩
  apply FileTree.ext
  rw [h.item_eq]
  exact h'.item_eq

section operations

variable (h : Abstracts ws σ) (hws : WorkspaceSound ws) (h' : Abstracts ws' σ')
include h hws h'

theorem ws_create_file_performs {name : CString} (hrun : ws_create_file name ws = .ok () ws') :
    σ.Performs (.ws_create_file name) .done σ' := by
  unfold ws_create_file at hrun
  rw [bind_run, readState_run, bind_ok] at hrun
  obtain ⟨f, ws₁, hcreate, hret⟩ := exists_of_bind hrun
  cases hret
  obtain ⟨s', hs, rfl⟩ := onSystem_ok hcreate
  obtain ⟨es', hes, rfl⟩ := onEntryStore_ok hs
  have hsat := vfs_sub_file_init_sat hws.sound.tree name.chars ws.cur_folder
  rw [hes] at hsat
  obtain ⟨hpass, hfree, hedit, hname⟩ := hsat
  rw [cutAtNul_of_nul_not_mem name.nul_free] at hname
  have hnew := ((validate_sub_entry_name_ok_iff _ _ _).mp hpass.2.2.2.1).2.2
  rw [cutAtNul_of_nul_not_mem name.nul_free] at hnew
  refine ⟨rfl, h.creates h' hws hedit rfl hfree hname hnew ?_⟩
  exact congrArg Item.file (content_of_blank (hedit.blank f rfl hfree))

theorem ws_create_folder_performs {name : CString}
    (hrun : ws_create_folder name ws = .ok () ws') :
    σ.Performs (.ws_create_folder name) .done σ' := by
  unfold ws_create_folder at hrun
  rw [bind_run, readState_run, bind_ok] at hrun
  obtain ⟨d, ws₁, hcreate, hret⟩ := exists_of_bind hrun
  cases hret
  obtain ⟨s', hs, rfl⟩ := onSystem_ok hcreate
  obtain ⟨es', hes, rfl⟩ := onEntryStore_ok hs
  have hsat := vfs_sub_folder_init_sat hws.sound.tree name.chars ws.cur_folder
  rw [hes] at hsat
  obtain ⟨hpass, hdead, hedit, hname, -⟩ := hsat
  have hnew := ((validate_sub_entry_name_ok_iff _ _ _).mp hpass.2.2.1).2.2
  exact ⟨rfl, h.creates h' hws hedit rfl (fun hc => hdead hc.live) hname hnew rfl⟩

/-- The file and nothing else is removed. -/
theorem ws_remove_file_performs (hrun : ws_remove_file path ws = .ok () ws') :
    σ.Performs (.ws_remove_file path) .done σ' := by
  have ht := hws.sound.tree
  unfold ws_remove_file at hrun
  rw [bind_run, readState_run, bind_ok] at hrun
  by_cases hsafe : ws.safe_mode = true
  · simp [hsafe] at hrun
  cases hres : ws_resolve_path ws path with
  | error e => simp [hsafe, hres] at hrun
  | ok n =>
    cases n with
    | folder r => simp [hsafe, hres] at hrun
    | file f =>
      simp only [hsafe, Bool.false_eq_true, if_false, hres, bind_run, ofExcept_ok_run,
        bind_ok] at hrun
      obtain ⟨s', hs, rfl⟩ := onSystem_ok hrun
      obtain ⟨l, htarget, hl⟩ := (h.resolve_iff hws).mp hres
      have hf := committed_of_path_file hl
      obtain ⟨s'', hdel, hremoved⟩ := delete_vfs_file_run hws.sound hf
      rw [hs] at hdel
      cases hdel
      refine ⟨rfl, l, _, htarget, h.item_file ht hl, ?_⟩
      apply h.removes h' hws (P := fun m => m = .file f) _ hl
      · intro m
        constructor
        · rintro rfl
          exact Below.refl
        · rintro ⟨k, hk⟩
          exact (pathFrom_file hk).1
      · exact hf.ne_root
      · refine (PrunesAll.refl (P := fun _ => False) fun _ => id).remove hremoved fun m => ?_
        exact ⟨Or.inr, fun hm => hm.resolve_left id⟩

/-- The folder is removed with everything below it. -/
theorem ws_remove_folder_performs {recursive : Bool}
    (hrun : ws_remove_folder path recursive ws = .ok () ws') :
    σ.Performs (.ws_remove_folder path recursive) .done σ' := by
  have ht := hws.sound.tree
  unfold ws_remove_folder at hrun
  rw [bind_run, readState_run, bind_ok] at hrun
  by_cases hsafe : ws.safe_mode = true
  · simp [hsafe] at hrun
  cases hres : ws_resolve_path ws path with
  | error e => simp [hsafe, hres] at hrun
  | ok n =>
    cases n with
    | file f => simp [hsafe, hres] at hrun
    | folder r =>
      simp only [hsafe, Bool.false_eq_true, if_false, hres, bind_run, ofExcept_ok_run,
        bind_ok] at hrun
      obtain ⟨s', hs, rfl⟩ := onSystem_ok hrun
      obtain ⟨l, htarget, hl⟩ := (h.resolve_iff hws).mp hres
      have hlive := live_of_path_folder hl
      have hsat := delete_vfs_folder_sat hws.sound hlive recursive
      rw [hs] at hsat
      obtain ⟨hprunes, hgone, hfits⟩ := hsat
      have hroot : r ≠ .root := by
        rintro rfl
        exact hgone live_root
      have hc := hlive.resolve_left hroot
      by_cases hflat : ws.entry_store.children r = []
      · -- a folder without entries is deleted alone
        have hiff : ∀ m, ws.entry_store.folderDeletes r recursive m ↔
            Below ws.entry_store.tree (.folder r) m := by
          intro m
          constructor
          · exact ht.below_of_folderDeletes hlive
          · intro hb
            rcases ht.below_cases hlive hb with rfl | ⟨n, hn, -⟩
            · exact Or.inl ⟨hflat, hroot, rfl⟩
            · rw [hflat] at hn
              cases hn
        refine ⟨rfl, l, htarget, h.item_folder ht hl, Or.inr ?_,
          h.removes h' hws hprunes hl hiff hc.ne_root⟩
        intro x
        rw [h.item_eq, ← Option.not_isSome_iff_eq_none, view_isSome_iff ht]
        rintro ⟨m, hm⟩
        have hmem := (mem_children_iff_path ht hl hm).mpr ⟨x, rfl⟩
        rw [hflat] at hmem
        cases hmem
      · cases recursive with
        | false =>
          -- then nothing was deleted
          rcases hfits with hno | -
          · exact absurd hno hflat
          · refine absurd (hprunes.prunes.live_kept hlive ?_) hgone
            rintro (⟨hno, -⟩ | ⟨-, hno, -⟩)
            · exact hflat hno
            · cases hno
        | true =>
          have hfit := hfits.resolve_left hflat
          refine ⟨rfl, l, htarget, h.item_folder ht hl, Or.inl rfl,
            h.removes h' hws hprunes hl (fun m => ht.folderDeletes_iff hc hfit) hc.ne_root⟩

/-- The node is relocated with everything below it. -/
theorem ws_move_node_performs {parent_path : CString}
    (hrun : ws_move_node path parent_path ws = .ok () ws') :
    σ.Performs (.ws_move_node path parent_path) .done σ' := by
  have ht := hws.sound.tree
  unfold ws_move_node at hrun
  rw [bind_run, readState_run, bind_ok] at hrun
  cases hres : ws_resolve_path ws path with
  | error e => simp [hres] at hrun
  | ok n =>
    cases hpar : ws_resolve_path ws parent_path with
    | error e => simp [hres, hpar] at hrun
    | ok q =>
      cases q with
      | file g => simp [hres, hpar] at hrun
      | folder p =>
        obtain ⟨l, hltarget, hl⟩ := (h.resolve_iff hws).mp hres
        obtain ⟨lp, hptarget, hlp⟩ := (h.resolve_iff hws).mp hpar
        have hp := live_of_path_folder hlp
        simp only [hres, hpar, bind_run, ofExcept_ok_run, bind_ok] at hrun
        -- files and folders are moved by different functions of the store
        cases n with
        | file f =>
          have hf := committed_of_path_file hl
          obtain ⟨s', hs, rfl⟩ := onSystem_ok hrun
          obtain ⟨es', hes, rfl⟩ := onEntryStore_ok hs
          have hsat := move_file_sat ht hf hp
          rw [hes] at hsat
          obtain ⟨hpass, hedit, hname⟩ := hsat
          have hnew := ((validate_sub_entry_name_ok_iff _ _ _).mp hpass.1).2.2
          obtain ⟨k, rfl, -⟩ := path_eq_snoc hf hl
          exact ⟨rfl, k, _, lp, hltarget, hptarget,
            h.relocates h' hws hedit rfl hf hname hnew hl hlp⟩
        | folder r =>
          obtain ⟨s', hs, rfl⟩ := onSystem_ok hrun
          obtain ⟨es', hes, rfl⟩ := onEntryStore_ok hs
          rcases live_of_path_folder hl with rfl | hr
          · obtain ⟨⟨e, hfail⟩, -⟩ := move_root ht hp
            rw [hfail] at hes
            cases hes
          · have hsat := move_folder_sat ht hr hp
            rw [hes] at hsat
            obtain ⟨hpass, hedit, hname⟩ := hsat
            have hnew := ((validate_sub_entry_name_ok_iff _ _ _).mp hpass.1).2.2
            obtain ⟨k, rfl, -⟩ := path_eq_snoc hr hl
            exact ⟨rfl, k, _, lp, hltarget, hptarget,
              h.relocates h' hws hedit rfl hr hname hnew hl hlp⟩

/-- The node is relocated in its folder. -/
theorem ws_rename_node_performs {name : CString}
    (hrun : ws_rename_node path name ws = .ok () ws') :
    σ.Performs (.ws_rename_node path name) .done σ' := by
  have ht := hws.sound.tree
  unfold ws_rename_node at hrun
  rw [bind_run, readState_run, bind_ok] at hrun
  cases hres : ws_resolve_path ws path with
  | error e => simp [hres] at hrun
  | ok n =>
    obtain ⟨l, htarget, hl⟩ := (h.resolve_iff hws).mp hres
    simp only [hres, bind_run, ofExcept_ok_run, bind_ok] at hrun
    -- both kinds of entries stay in their folder under the new name
    have hfinish : ∀ {es' : VFSEntryStore}, ws.entry_store.committed n →
        rename_checks ws.entry_store n name.chars →
        (∃ p, ws.entry_store.parentOf n = some p ∧ Edited ws.entry_store es' n p) →
        es'.nameOf n = name.chars →
        Abstracts { ws with entry_store := es' } σ' →
        σ.Performs (.ws_rename_node path name) .done σ' := by
      rintro es' hn ⟨q, hq, hvalid⟩ ⟨p, hp, hedit⟩ hname h'
      rw [hp] at hq
      cases hq
      have hnew := ((validate_sub_entry_name_ok_iff _ _ _).mp hvalid).2.2
      obtain ⟨k, rfl, q, hq, hk⟩ := path_eq_snoc hn hl
      rw [hp] at hq
      cases hq
      have hrelocates : σ.Relocates (k ++ [ws.entry_store.nameOf n]) k name.chars σ' :=
        h.relocates h' hws hedit rfl hn hname hnew hl hk
      exact ⟨rfl, k, _, htarget, hrelocates⟩
    cases n with
    | file f =>
      have hf := committed_of_path_file hl
      obtain ⟨s', hs, rfl⟩ := onSystem_ok hrun
      obtain ⟨es', hes, rfl⟩ := onEntryStore_ok hs
      by_cases hlen : name.chars.length < MAX_NAME_LENGTH
      · have hsat := rename_file_sat ht hf hlen
        rw [hes] at hsat
        exact hfinish hf hsat.1 hsat.2.1 hsat.2.2 h'
      · have hsat := rename_file_long ht hf (Nat.le_of_not_lt hlen)
        rw [hes] at hsat
        exact hsat.elim
    | folder r =>
      obtain ⟨s', hs, rfl⟩ := onSystem_ok hrun
      obtain ⟨es', hes, rfl⟩ := onEntryStore_ok hs
      rcases live_of_path_folder hl with rfl | hr
      · rw [(rename_root ht name.chars).1] at hes
        cases hes
      · have hsat := rename_folder_sat ht hr name.chars
        rw [hes] at hsat
        exact hfinish hr hsat.1 hsat.2.1 hsat.2.2 h'

/-- The folder at the end of the path is entered. -/
theorem ws_change_cur_folder_performs (hrun : ws_change_cur_folder path ws = .ok () ws') :
    σ.Performs (.ws_change_cur_folder path) .done σ' := by
  have ht := hws.sound.tree
  have hsat := ws_change_cur_folder_sat hws path
  rw [hrun] at hsat
  obtain ⟨r, hto, henters⟩ := hsat
  have hlive := goesTo_live hws hto
  refine ⟨rfl, ?_⟩
  unfold goesTo at hto
  by_cases hpath : path.chars = BACK_TO_PARENT_OPERATOR
  · rw [if_pos hpath] at hto ⊢
    split at hto
    · cases hto
    · -- the parent has the path without the last name
      have hcur : ws.entry_store.committed (.folder ws.cur_folder) := by
        rcases hws.cur with hcur | hvac
        · next hroot =>
          refine hcur.resolve_left fun heq => ?_
          rw [heq] at hroot
          exact hroot ht.root_is_root
        · rw [hvac.parent_eq] at hto
          cases hto
      obtain ⟨l, hl⟩ := ht.exists_path hcur.live
      obtain ⟨k, rfl, q, hq, hk⟩ := path_eq_snoc hcur hl
      have hqr : some q = some r := hq.symm.trans hto
      cases hqr
      exact ⟨k, _, h.cwd_eq_some hl, h.enters ht hk henters h'⟩
  · rw [if_neg hpath] at hto ⊢
    obtain ⟨l, htarget, hl⟩ := (h.resolve_iff hws).mp (folderAtPath_eq_some.mp hto)
    exact ⟨l, htarget, h.enters ht hl henters h'⟩

end operations

/-! ### Files -/

theorem Abstracts.resolve_file (h : Abstracts ws σ) (hws : WorkspaceSound ws)
    (hrun : ws_resolve_file path ws = .ok f ws') :
    ws' = ws ∧ ws.entry_store.committed (.file f) ∧
      ∃ l, σ.target path = some l ∧ ws.entry_store.PathTo (.file f) l := by
  rcases ws_resolve_file_cases ws path with ⟨g, hg, hok⟩ | ⟨-, e, hfail⟩
  · rw [hrun] at hok
    cases hok
    exact ⟨rfl, hws.committed_of_path hg, (h.resolve_iff hws).mp (fileAtPath_eq_some.mp hg)⟩
  · rw [hrun] at hfail
    cases hfail

theorem dataAppended_of_ok {data : List Byte} (ho : Ownership s)
    (hf : s.entry_store.committed (.file f)) (hrun : file_append f data s = .ok () s') :
    0 < data.length ∧ DataAppended s s' f data := by
  rcases file_append_cases (ho.ownsChunks hf).file_ok.compact data with
    ⟨e, hfail⟩ | ⟨hlt, hpos, pos, hfree, hok⟩
  · rw [hfail s (SameMeta.refl s)] at hrun
    cases hrun
  · rw [hok s (SameMeta.refl s)] at hrun
    cases hrun
    refine ⟨?_, dataAppended_of_run ho hf hlt hpos hfree⟩
    by_contra hzero
    have hnil : data.length = 0 := by omega
    rw [hnil] at hpos
    exact absurd hpos (by decide)

section files

variable (h : Abstracts ws σ) (hws : WorkspaceSound ws) (ho : Ownership ws.toVFS)
  (h' : Abstracts ws' σ')
include h hws ho h'

/-- The data is written behind the content, padded to whole chunks. -/
theorem ws_file_append_performs {data : List Byte}
    (hrun : ws_file_append path data ws = .ok () ws') :
    σ.Performs (.ws_file_append path data) .done σ' := by
  obtain ⟨f, ws₁, hfile, hsys⟩ := exists_of_bind hrun
  obtain ⟨rfl, hf, l, htarget, hl⟩ := h.resolve_file hws hfile
  obtain ⟨s', hs, rfl⟩ := onSystem_ok hsys
  have heffect := file_append_effect (ho.ownsChunks hf) data
  obtain ⟨hpos, happended⟩ := dataAppended_of_ok ho hf hs
  rw [hs] at heffect
  have hwrites := h.writes h' hws heffect hf hl
  rw [happended.content, List.append_assoc] at hwrites
  exact ⟨rfl, hpos, l, _, htarget, h.item_file hws.sound.tree hl, hwrites⟩

theorem ws_file_clear_performs (hrun : ws_file_clear path ws = .ok () ws') :
    σ.Performs (.ws_file_clear path) .done σ' := by
  obtain ⟨f, ws₁, hfile, hsys⟩ := exists_of_bind hrun
  obtain ⟨rfl, hf, l, htarget, hl⟩ := h.resolve_file hws hfile
  obtain ⟨s', hs, rfl⟩ := onSystem_ok hsys
  obtain ⟨s'', hok, heffect, hchunks, -⟩ := file_delete_data_effect (ho.ownsChunks hf)
  rw [hs] at hok
  cases hok
  have hwrites := h.writes h' hws heffect hf hl
  have hempty : s'.content f = [] := by
    rw [content_eq, hchunks]
    rfl
  rw [hempty] at hwrites
  exact ⟨rfl, l, _, htarget, h.item_file hws.sound.tree hl, hwrites⟩

theorem ws_file_truncate_performs {amount : Nat}
    (hrun : ws_file_truncate path amount ws = .ok () ws') :
    σ.Performs (.ws_file_truncate path amount) .done σ' := by
  obtain ⟨f, ws₁, hfile, hsys⟩ := exists_of_bind hrun
  obtain ⟨rfl, hf, l, htarget, hl⟩ := h.resolve_file hws hfile
  obtain ⟨s', hs, rfl⟩ := onSystem_ok hsys
  have howns := ho.ownsChunks hf
  by_cases hamount : amount < (ws₁.entry_store.files f).allocated_size * CHUNK_SIZE
  · obtain ⟨s'', hok, heffect, htrunc⟩ := file_truncate_by_truncated howns hamount
    rw [hs] at hok
    cases hok
    have hwrites := h.writes h' hws heffect hf hl
    rw [htrunc.content_eq] at hwrites
    rw [← length_content howns.file_ok] at hamount
    exact ⟨rfl, l, _, htarget, h.item_file hws.sound.tree hl, hamount, hwrites⟩
  · have hsat := file_truncate_by_all howns.file_ok.stored (Nat.le_of_not_lt hamount)
    rw [hs] at hsat
    exact hsat.elim

/-- The whole content is returned. -/
theorem ws_file_read_all_performs {size : Nat} {data : List Byte}
    (hrun : ws_file_read_all path size ws = .ok data ws') :
    σ.Performs (.ws_file_read_all path size) (.bytes data) σ' := by
  obtain ⟨f, ws₁, hfile, hread⟩ := exists_of_bind hrun
  obtain ⟨rfl, hf, l, htarget, hl⟩ := h.resolve_file hws hfile
  have howns := ho.ownsChunks hf
  have hlen := length_content howns.file_ok
  have hitem := h.item_file hws.sound.tree hl
  rw [bind_run, readState_run, bind_ok] at hread
  by_cases hsize : size < (ws₁.entry_store.files f).allocated_size * CHUNK_SIZE
  · simp [hsize] at hread
  have hle : (ws₁.content f).length ≤ size := by omega
  simp only [hsize, if_false] at hread
  by_cases hzero : (ws₁.entry_store.files f).allocated_size = 0
  · -- an empty file is not read
    have hnil : ws₁.content f = [] := by
      rw [← List.length_eq_zero_iff, hlen, hzero, Nat.zero_mul]
    rw [hnil] at hitem
    simp only [hzero, if_true, pure_run] at hread
    cases hread
    exact ⟨h.unique h', l, [], htarget, hitem, Nat.zero_le _, rfl⟩
  · have hpos : 0 < (ws₁.entry_store.files f).allocated_size * CHUNK_SIZE :=
      Nat.mul_pos (Nat.pos_of_ne_zero hzero) (by decide)
    simp only [hzero, if_false] at hread
    obtain ⟨s', hs, rfl⟩ := onSystem_ok hread
    rw [file_read_at_run howns hpos (Nat.le_of_not_lt hsize) (Nat.le_of_eq (Nat.zero_add _)),
      ← hlen, slice_full] at hs
    cases hs
    exact ⟨h.unique h', l, _, htarget, hitem, hle, rfl⟩

/-- The part of the content is returned. -/
theorem ws_file_read_at_performs {offset amount size : Nat} {data : List Byte}
    (hoffset : offset < SIZE_T_RANGE) (hamount : amount < SIZE_T_RANGE)
    (hrun : ws_file_read_at path offset amount size ws = .ok data ws') :
    σ.Performs (.ws_file_read_at path offset amount size) (.bytes data) σ' := by
  unfold ws_file_read_at at hrun
  by_cases hsize : size < amount
  · simp [hsize] at hrun
  simp only [hsize, if_false] at hrun
  obtain ⟨f, ws₁, hfile, hread⟩ := exists_of_bind hrun
  obtain ⟨rfl, hf, l, htarget, hl⟩ := h.resolve_file hws hfile
  have howns := ho.ownsChunks hf
  obtain ⟨s', hs, rfl⟩ := onSystem_ok hread
  have hitem := h.item_file hws.sound.tree hl
  by_cases hin : 0 < amount ∧ amount ≤ size ∧
      offset + amount ≤ (ws₁.entry_store.files f).allocated_size * CHUNK_SIZE
  · rw [file_read_at_run howns hin.1 hin.2.1 hin.2.2] at hs
    cases hs
    rw [← length_content howns.file_ok] at hin
    exact ⟨h.unique h', l, _, htarget, hitem, hin.1, hin.2.1, hin.2.2, rfl⟩
  · obtain ⟨e, hfail⟩ := file_read_at_fails howns hin hoffset hamount
    rw [hs] at hfail
    cases hfail

end files

/-! ### Listings -/

/-- The folder whose children are listed. -/
def listedFolder (ws : Workspace) : Option CString → Option FolderRef
  | none => some ws.cur_folder
  | some path => folderAtPath ws path

/-- A successful listing returns the children of the folder. -/
theorem ws_get_sub_entries_ok {path : Option CString} {length : Nat} {ns : List VFSNode}
    (hrun : ws_get_sub_entries path length ws = .ok ns ws') :
    ∃ r, listedFolder ws path = some r ∧ ns = ws.entry_store.children r ∧ ns.length ≤ length ∧
      ws' = ws := by
  unfold ws_get_sub_entries at hrun
  rw [bind_run, readState_run, bind_ok] at hrun
  have hfinish : ∀ {r}, listedFolder ws path = some r →
      (if (ws.entry_store.children r).length > length then
        .fail StatusCode.DATA_OVER_FLOW ws
      else .ok (ws.entry_store.children r) ws : Outcome StatusCode Fault Workspace _) =
          .ok ns ws' →
      ∃ r, listedFolder ws path = some r ∧ ns = ws.entry_store.children r ∧
        ns.length ≤ length ∧ ws' = ws := by
    intro r hr h
    split at h
    · cases h
    · next hfit =>
      cases h
      exact ⟨r, hr, rfl, Nat.le_of_not_lt hfit, rfl⟩
  cases path with
  | none => exact hfinish rfl (by simpa using hrun)
  | some path =>
    cases hres : ws_resolve_path ws path with
    | error e => simp [hres] at hrun
    | ok n =>
      cases n with
      | file f => simp [hres] at hrun
      | folder r => exact hfinish (folderAtPath_eq_some.mpr hres) (by simpa [hres] using hrun)

/-- A successful search returns all hits. -/
theorem ws_global_search_ok {name : CString} {length : Nat} {ns : List VFSNode}
    (hrun : ws_global_search_by_name name length ws = .ok ns ws') :
    ns = ws.entry_store.namesakes name.chars ∧ ns.length ≤ length ∧ ws' = ws := by
  unfold ws_global_search_by_name at hrun
  rw [bind_run, readState_run, bind_ok] at hrun
  by_cases hlimit : length = 0
  · simp [global_search_nodes_by_name, hlimit] at hrun
  by_cases hname : name.chars = []
  · simp [global_search_nodes_by_name, hlimit, hname] at hrun
  rw [global_search_eq hname (Nat.pos_of_ne_zero hlimit)] at hrun
  by_cases hfit : (ws.entry_store.namesakes name.chars).length ≤ length
  · rw [if_pos hfit, List.take_of_length_le hfit] at hrun
    cases hrun
    exact ⟨rfl, hfit, rfl⟩
  · rw [if_neg hfit] at hrun
    cases hrun

theorem ws_get_sub_entries_performs {path : Option CString} {length : Nat} {ns : List VFSNode}
    {es : List (List (List Byte) × Bool)} (h : Abstracts ws σ) (hws : WorkspaceSound ws)
    (h' : Abstracts ws' σ') (hrun : ws_get_sub_entries path length ws = .ok ns ws')
    (hshow : List.Forall₂ ws.ShowsNode ns es) :
    σ.Performs (.ws_get_sub_entries path length) (.entries es) σ' := by
  have ht := hws.sound.tree
  have hlen := hshow.length_eq
  obtain ⟨r, hr, rfl, hfit, rfl⟩ := ws_get_sub_entries_ok hrun
  refine ⟨h.unique h', es, rfl, by omega, ?_⟩
  cases path with
  | none =>
    cases hr
    rcases hws.cur with hlive | hvac
    · obtain ⟨l, hl⟩ := ht.exists_path hlive
      apply h.lists ht (ht.children_nodup hlive) _ hshow
      intro n k hk
      rw [mem_children_iff_path ht hl hk, h.cwd_eq_some hl]
      simp
    · -- nothing is listed in a folder that has been removed
      rw [hvac.children_eq] at hshow
      cases hshow
      refine ⟨List.nodup_nil, fun l b => iff_of_false List.not_mem_nil ?_⟩
      rintro ⟨⟨k, x, hk, rfl⟩, v, hv, -⟩
      have hcwd := h.cwd_path k hk
      rw [h.item_eq] at hv
      obtain ⟨n, hn, -⟩ := (view_eq_some_iff ht).mp hv
      have hmem := (mem_children_iff_path ht hcwd hn).mpr ⟨x, rfl⟩
      rw [hvac.children_eq] at hmem
      cases hmem
  | some path =>
    obtain ⟨l, htarget, hl⟩ := (h.resolve_iff hws).mp (folderAtPath_eq_some.mp hr)
    refine ⟨l, htarget, h.item_folder ht hl, ?_⟩
    apply h.lists ht (ht.children_nodup (live_of_path_folder hl)) _ hshow
    exact fun n k hk => mem_children_iff_path ht hl hk

theorem ws_global_search_performs {name : CString} {length : Nat} {ns : List VFSNode}
    {es : List (List (List Byte) × Bool)} (h : Abstracts ws σ) (hws : WorkspaceSound ws)
    (h' : Abstracts ws' σ') (hrun : ws_global_search_by_name name length ws = .ok ns ws')
    (hshow : List.Forall₂ ws.ShowsNode ns es) :
    σ.Performs (.ws_global_search_by_name name length) (.entries es) σ' := by
  have hlen := hshow.length_eq
  obtain ⟨rfl, hfit, rfl⟩ := ws_global_search_ok hrun
  refine ⟨h.unique h', es, rfl, by omega, ?_⟩
  apply h.lists hws.sound.tree (nodup_namesakes _ _) _ hshow
  exact fun n k hk => mem_namesakes_iff_path name.nul_free hk

/-! ## Section 4: Failing operations -/

/-- A folder is deleted after all that is below it. -/
theorem FolderTree.fits_of_deletes {es : VFSEntryStore} {steps : Nat} (ht : FolderTree es)
    (hr : es.live r) (h : es.deletes steps r (.folder r)) : es.fits steps r := by
  cases steps with
  | zero => exact h.elim
  | succ steps =>
    rcases h with ⟨f, hf, -⟩ | ⟨i, d, hi, hd, -, hm⟩ | ⟨-, -, hfits⟩
    · cases hf
    · -- a folder is not below its children
      have hmem : .folder d ∈ es.children r := folder_mem_children.mpr ⟨i, hi, hd⟩
      have hlive := (ht.children_committed r hr _ hmem).1.live
      exact absurd (ht.below_of_deletes hlive hm)
        (ht.wellFormed.not_below_parent (ht.tree_eq hr hmem))
    · exact hfits

/-- A failing removal of a folder. -/
theorem ws_remove_folder_refuses {recursive : Bool} {e : StatusCode} (h : Abstracts ws σ)
    (hws : WorkspaceSound ws) (hres : ws_resolve_path ws path = .ok (.folder r))
    (hrun : delete_vfs_folder r recursive ws.toVFS = .fail e s')
    (h' : Abstracts { ws with toVFS := s' } σ') :
    σ.Refuses (.ws_remove_folder path recursive) σ' := by
  have ht := hws.sound.tree
  obtain ⟨l, htarget, hl⟩ := (h.resolve_iff hws).mp hres
  have hlive := live_of_path_folder hl
  have hsat := delete_vfs_folder_sat hws.sound hlive recursive
  rw [hrun] at hsat
  obtain ⟨hprunes, hstuck⟩ := hsat
  cases recursive with
  | false =>
    -- nothing has been deleted
    have heq : s' = ws.toVFS := by
      apply hprunes.prunes.eq_of_none
      rintro m (⟨hflat, hroot, -⟩ | ⟨-, hno, -⟩)
      · rcases hstuck with hr | ⟨hne, -⟩
        · exact hroot hr
        · exact hne hflat
      · cases hno
    subst heq
    exact Or.inl (h.unique h')
  | true =>
    have hbelow : ∀ m, ws.entry_store.folderDeletes r true m →
        Below ws.entry_store.tree (.folder r) m ∧ m ≠ .folder r := by
      intro m hm
      refine ⟨ht.below_of_folderDeletes hlive hm, ?_⟩
      rintro rfl
      -- the folder itself is only deleted when nothing is stuck
      rcases hstuck with rfl | ⟨hne, hno | hfits⟩
      · exact ht.not_folderDeletes_root hlive hm
      · cases hno
      · rcases hm with ⟨hflat, -⟩ | ⟨-, -, hdel⟩
        · exact hne hflat
        · exact hfits (ht.fits_of_deletes hlive hdel)
    obtain ⟨hpruned, hcwd⟩ := h.prunedBelow h' hws hprunes.prunes hl hbelow
    exact Or.inr ⟨path, l, rfl, htarget, hpruned, hcwd⟩

/-- **A failing operation is refused.** -/
theorem exec_refuses {e : StatusCode} (h : Abstracts ws σ) (hws : WorkspaceSound ws)
    (h' : Abstracts ws' σ') (hfail : op.exec ws = .fail e ws') : σ.Refuses op σ' := by
  -- By what the operation does: a request to the store, a reading, or a change of the current
  -- folder.
  rcases op.dispatches ws with (⟨sop, hreq, hcall⟩ | ⟨-, halone⟩) | ⟨path, rfl⟩
  · rw [hcall] at hfail
    unfold onSystem at hfail
    rw [zoom_run] at hfail
    have hsat := sop.exec_sat hws.sound (WsOp.request_inStore hws hreq)
    cases hrun : sop.exec ws.toVFS with
    | ok a s' =>
      rw [hrun] at hfail
      cases hfail
    | fault x =>
      rw [hrun] at hfail
      cases hfail
    | fail e' s' =>
      rw [hrun] at hfail hsat
      cases hfail
      -- only the removal of a folder may fail half-way
      cases hdel : sop.deletesFolder with
      | false =>
        obtain ⟨hsame, hm⟩ := hsat.2 hdel
        exact Or.inl (h.same h' hws hsame hm)
      | true =>
        cases sop with
        | delete_vfs_folder r force =>
          obtain ⟨path, rfl⟩ := WsOp.request_delete_vfs_folder hreq
          have hres : ws_resolve_path ws path = .ok (.folder r) := by
            by_cases hsafe : ws.safe_mode = true
            · simp [WsOp.request, hsafe] at hreq
            · simp only [WsOp.request, hsafe] at hreq
              obtain ⟨_, hr, heq⟩ := Option.map_eq_some_iff.mp hreq
              cases heq
              exact folderAtPath_eq_some.mp hr
          exact ws_remove_folder_refuses h hws hres hrun h'
        | _ => cases hdel
  · unfold LeavesAlone at halone
    rw [hfail] at halone
    cases halone
    exact Or.inl (h.unique h')
  · have hsat := ws_change_cur_folder_sat hws path
    cases hrun : VirtualFS.ws_change_cur_folder path ws with
    | fail e' ws₁ =>
      rw [hrun] at hsat
      simp only [WsOp.exec, returning, bind_run, hrun, bind_fail] at hfail
      cases hfail
      cases hsat
      exact Or.inl (h.unique h')
    | ok a ws₁ => simp [WsOp.exec, returning, hrun] at hfail
    | fault x => simp [WsOp.exec, returning, hrun] at hfail

end VirtualFS
