import VirtualFS.Workspace.Performing

/-! # The Workspace Refines Its Specification

    Every run of the workspace is a run of the specified file system, with the
    same operations and the same replies. Failing operations are refused, and
    what an operation replies is what the specification allows.

    * `workspace_refines`: the theorem for runs, by the rule of forward simulation.
    * `exists_observation`, `exists_trace`: every run has a trace, so the theorem
      speaks about all runs.
-/

namespace VirtualFS

open Framework Prog Outcome ParentMap VFSEntryStore

variable {ws ws' : Workspace} {s : VFS} {σ σ' : FileSystem} {n m : VFSNode} {f : FileRef}
  {r : FolderRef} {l : List (List Byte)} {x : List Byte} {path : CString} {op : WsOp}
  {result : WsResult}

/-! ## Section 1: Simulation -/

/-- **A successful operation is performed**, with the reply that is seen. -/
theorem exec_performs {reply : Reply} (h : Abstracts ws σ) (hws : WorkspaceSound ws)
    (ho : Ownership ws.toVFS) (h' : Abstracts ws' σ') (hin : op.InRange)
    (hrun : op.exec ws = .ok result ws') (hshow : ws.Shows result reply) :
    σ.Performs op reply σ' := by
  -- a result without a value is seen as such
  have hdone : ∀ {prog : Sys Workspace Unit}, returning prog (fun _ => .done) ws = .ok result ws' →
      prog ws = .ok () ws' ∧ reply = .done := by
    intro prog hprog
    obtain ⟨a, ws₁, ha, hret⟩ := exists_of_bind hprog
    cases hret
    cases reply with
    | done => exact ⟨ha, rfl⟩
    | bytes data => exact hshow.elim
    | entries es => exact hshow.elim
  have hbytes : ∀ {prog : Sys Workspace (List Byte)}, returning prog .bytes ws = .ok result ws' →
      ∃ data, prog ws = .ok data ws' ∧ reply = .bytes data := by
    intro prog hprog
    obtain ⟨a, ws₁, ha, hret⟩ := exists_of_bind hprog
    cases hret
    cases reply with
    | done => exact hshow.elim
    | bytes data => exact ⟨a, ha, congrArg Reply.bytes hshow⟩
    | entries es => exact hshow.elim
  have hnodes : ∀ {prog : Sys Workspace (List VFSNode)},
      returning prog .nodes ws = .ok result ws' →
      ∃ ns es, prog ws = .ok ns ws' ∧ reply = .entries es ∧ List.Forall₂ ws.ShowsNode ns es := by
    intro prog hprog
    obtain ⟨a, ws₁, ha, hret⟩ := exists_of_bind hprog
    cases hret
    cases reply with
    | done => exact hshow.elim
    | bytes data => exact hshow.elim
    | entries es => exact ⟨a, es, ha, rfl, hshow⟩
  cases op with
  | ws_create_file name =>
    obtain ⟨hok, rfl⟩ := hdone hrun
    exact ws_create_file_performs h hws h' hok
  | ws_create_folder name =>
    obtain ⟨hok, rfl⟩ := hdone hrun
    exact ws_create_folder_performs h hws h' hok
  | ws_remove_file path =>
    obtain ⟨hok, rfl⟩ := hdone hrun
    exact ws_remove_file_performs h hws h' hok
  | ws_remove_folder path recursive =>
    obtain ⟨hok, rfl⟩ := hdone hrun
    exact ws_remove_folder_performs h hws h' hok
  | ws_move_node path parent_path =>
    obtain ⟨hok, rfl⟩ := hdone hrun
    exact ws_move_node_performs h hws h' hok
  | ws_rename_node path name =>
    obtain ⟨hok, rfl⟩ := hdone hrun
    exact ws_rename_node_performs h hws h' hok
  | ws_change_cur_folder path =>
    obtain ⟨hok, rfl⟩ := hdone hrun
    exact ws_change_cur_folder_performs h hws h' hok
  | ws_get_sub_entries path length =>
    obtain ⟨ns, es, hok, rfl, hes⟩ := hnodes hrun
    exact ws_get_sub_entries_performs h hws h' hok hes
  | ws_global_search_by_name name length =>
    obtain ⟨ns, es, hok, rfl, hes⟩ := hnodes hrun
    exact ws_global_search_performs h hws h' hok hes
  | ws_file_append path data =>
    obtain ⟨hok, rfl⟩ := hdone hrun
    exact ws_file_append_performs h hws ho h' hok
  | ws_file_clear path =>
    obtain ⟨hok, rfl⟩ := hdone hrun
    exact ws_file_clear_performs h hws ho h' hok
  | ws_file_truncate path amount =>
    obtain ⟨hok, rfl⟩ := hdone hrun
    exact ws_file_truncate_performs h hws ho h' hok
  | ws_file_read_all path size =>
    obtain ⟨data, hok, rfl⟩ := hbytes hrun
    exact ws_file_read_all_performs h hws ho h' hok
  | ws_file_read_at path offset amount size =>
    obtain ⟨data, hok, rfl⟩ := hbytes hrun
    exact ws_file_read_at_performs h hws ho h' hin.1 hin.2 hok

/-- At start-up the workspace is empty. -/
theorem FreshWorkspace.abstracts (h : FreshWorkspace ws) : Abstracts ws FileSystem.fresh := by
  have hsound := h.workspaceSound
  have ht := hsound.sound.tree
  obtain ⟨σ, hσ⟩ := exists_abstracts hsound
  have hcwd : σ.cwd = some [] := hσ.cwd_eq_some (by rw [h.cur_root]; exact PathFrom.nil)
  have htree : σ.tree = FileTree.empty := by
    apply FileTree.ext
    rw [hσ.item_eq]
    funext l
    by_cases hl : l = []
    · subst hl
      exact view_of_path ht PathFrom.nil
    · show ws.view l = if l = [] then _ else _
      rw [if_neg hl, ← Option.not_isSome_iff_eq_none, view_isSome_iff ht]
      rintro ⟨n, hn⟩
      rcases present_of_path hn with rfl | hc
      · exact hl (hn.unique tree_root PathFrom.nil)
      · exact h.empty.none_committed n hc
  have heq : FileSystem.fresh = σ := FileSystem.ext htree.symm hcwd.symm
  rw [heq]
  exact hσ

/-- The specified file system takes the same step. -/
theorem exists_specified_step {step : WsOp × Option Reply} (hreach : observedSystem.Reachable ws)
    (h : Abstracts ws σ) (hstep : observedSystem.step ws step ws') :
    ∃ σ', fileSystem.step σ step σ' ∧ Abstracts ws' σ' := by
  obtain ⟨op, reply⟩ := step
  have hws := workspaceSystem_sound (workspace_of_observed hreach)
  have ho := workspaceSystem_ownership (workspace_of_observed hreach)
  have hws' := workspaceSystem_sound (workspace_of_observed (hreach.step _ hstep))
  obtain ⟨σ', h'⟩ := exists_abstracts hws'
  refine ⟨σ', ?_, h'⟩
  obtain ⟨hin, hstep⟩ := hstep
  cases reply with
  | some reply =>
    obtain ⟨result, hrun, hshow⟩ := hstep
    exact exec_performs h hws ho h' hin hrun hshow
  | none =>
    obtain ⟨e, hrun⟩ := hstep
    exact exec_refuses h hws h' hrun

/-- The simulation: start-up, and one step. -/
theorem observedSystem_refines : observedSystem.Refines fileSystem Abstracts where
  init := by
    intro ws hinit
    exact ⟨_, rfl, (FreshWorkspace.of_init hinit).abstracts⟩
  step := by
    intro ws σ step ws' hreach _ h hstep
    exact exists_specified_step hreach h hstep

/-! ## Section 2: Every run can be observed -/

/-- Committed nodes can be shown by their paths. -/
theorem exists_shown {ns : List VFSNode} (ht : FolderTree s.entry_store)
    (hns : ∀ n ∈ ns, s.entry_store.committed n) : ∃ es, List.Forall₂ s.ShowsNode ns es := by
  induction ns with
  | nil => exact ⟨[], List.Forall₂.nil⟩
  | cons n ns ih =>
    obtain ⟨es, hes⟩ := ih fun m hm => hns m (List.mem_cons_of_mem n hm)
    obtain ⟨l, hl⟩ := ht.rooted n (hns n (List.mem_cons_self ..))
    exact ⟨(l, (s.itemOf n).isFolder) :: es, List.Forall₂.cons ⟨hl, rfl⟩ hes⟩

/-- Only entries of the store are listed. -/
theorem listed_committed {ns : List VFSNode} (hws : WorkspaceSound ws)
    (hrun : op.exec ws = .ok (.nodes ns) ws') : ∀ n ∈ ns, ws.entry_store.committed n := by
  have ht := hws.sound.tree
  have hno : ∀ {α : Type} {prog : Sys Workspace α} {result : α → WsResult},
      (∀ a, result a ≠ .nodes ns) → returning prog result ws ≠ .ok (.nodes ns) ws' := by
    intro α prog result hne hprog
    obtain ⟨a, ws₁, -, hret⟩ := exists_of_bind hprog
    exact hne a (Outcome.ok.inj hret).1
  cases op with
  | ws_get_sub_entries path length =>
    obtain ⟨a, ws₁, hok, hret⟩ := exists_of_bind hrun
    cases hret
    obtain ⟨r, hr, rfl, -, -⟩ := ws_get_sub_entries_ok hok
    -- the listed folder is live, or it has been removed and is empty
    have hfolder : ws.entry_store.live r ∨ Vacated ws.entry_store r := by
      cases path with
      | none =>
        cases hr
        exact hws.cur
      | some path => exact Or.inl (hws.live_of_path hr)
    intro n hn
    rcases hfolder with hlive | hvac
    · exact (ht.children_committed r hlive n hn).1
    · rw [hvac.children_eq] at hn
      cases hn
  | ws_global_search_by_name name length =>
    obtain ⟨a, ws₁, hok, hret⟩ := exists_of_bind hrun
    cases hret
    obtain ⟨rfl, -, -⟩ := ws_global_search_ok hok
    exact fun n hn => (mem_namesakes.mp hn).1
  | ws_create_file name => exact absurd hrun (hno fun _ => nofun)
  | ws_create_folder name => exact absurd hrun (hno fun _ => nofun)
  | ws_remove_file path => exact absurd hrun (hno fun _ => nofun)
  | ws_remove_folder path recursive => exact absurd hrun (hno fun _ => nofun)
  | ws_move_node path parent_path => exact absurd hrun (hno fun _ => nofun)
  | ws_rename_node path name => exact absurd hrun (hno fun _ => nofun)
  | ws_change_cur_folder path => exact absurd hrun (hno fun _ => nofun)
  | ws_file_append path data => exact absurd hrun (hno fun _ => nofun)
  | ws_file_clear path => exact absurd hrun (hno fun _ => nofun)
  | ws_file_truncate path amount => exact absurd hrun (hno fun _ => nofun)
  | ws_file_read_all path size => exact absurd hrun (hno fun _ => nofun)
  | ws_file_read_at path offset amount size => exact absurd hrun (hno fun _ => nofun)

/-- Every step can be observed. -/
theorem exists_observation (hws : WorkspaceSound ws) (hin : op.InRange)
    (hfinal : (op.exec ws).final = some ws') : ∃ reply, observedSystem.step ws (op, reply) ws' := by
  -- By the outcome; a result that lists nodes is observed as their paths.
  cases hrun : op.exec ws with
  | fault x =>
    rw [hrun] at hfinal
    cases hfinal
  | fail e ws₁ =>
    rw [hrun] at hfinal
    cases hfinal
    exact ⟨none, hin, e, hrun⟩
  | ok result ws₁ =>
    rw [hrun] at hfinal
    cases hfinal
    cases result with
    | done => exact ⟨some .done, hin, _, hrun, trivial⟩
    | bytes data => exact ⟨some (.bytes data), hin, _, hrun, rfl⟩
    | nodes ns =>
      obtain ⟨es, hes⟩ := exists_shown hws.sound.tree (listed_committed hws hrun)
      exact ⟨some (.entries es), hin, _, hrun, hes⟩

/-- Operations without a result have been done if they succeed. -/
theorem observed_done (op : WsOp) {prog : Sys Workspace Unit} {result : WsResult} (hin : op.InRange)
    (hexec : op.exec = returning prog fun _ => .done) (hrun : op.exec ws = .ok result ws') :
    observedSystem.step ws (op, some .done) ws' := by
  refine ⟨hin, result, hrun, ?_⟩
  rw [hexec] at hrun
  obtain ⟨a, ws₁, -, hret⟩ := exists_of_bind hrun
  rw [← (Outcome.ok.inj hret).1]
  trivial

/-- Each step of a run has a reply or fails. -/
theorem exists_trace {ops : List WsOp} (hrun : workspaceSystem.Steps ws ops ws')
    (hws : WorkspaceSound ws) (hin : ∀ op ∈ ops, op.InRange) :
    ∃ trace, trace.map Prod.fst = ops ∧ observedSystem.Steps ws trace ws' := by
  -- On the run; every state reached is sound, so each result can be observed.
  induction hrun with
  | nil ws => exact ⟨[], rfl, System.Steps.nil ws⟩
  | cons op ops hstep _ ih =>
    obtain ⟨reply, hobs⟩ :=
      exists_observation hws (hin op (List.mem_cons_self ..)) hstep.2
    have hws' := (WsOp.exec_step hws hstep.2).workspaceSound hws
    obtain ⟨trace, rfl, htrace⟩ := ih hws' fun op' hop' => hin op' (List.mem_cons_of_mem op hop')
    exact ⟨(op, reply) :: trace, rfl, System.Steps.cons _ _ hobs htrace⟩

/-- **The workspace is the file system it should be.** Every run from start-up is a run of
    the specification with the same operations and replies. -/
theorem workspace_refines {trace : List (WsOp × Option Reply)} (hinit : WorkspaceInitialised ws)
    (hrun : observedSystem.Steps ws trace ws') :
    ∃ σ, fileSystem.Steps FileSystem.fresh trace σ ∧ Abstracts ws' σ := by
  obtain ⟨σ, hsteps, -, h⟩ := observedSystem_refines.steps hrun (System.Reachable.init hinit)
    (System.Reachable.init rfl) (FreshWorkspace.of_init hinit).abstracts
  exact ⟨σ, hsteps, h⟩

/-- A folder with a file is moved while it is the current one; reading the file fails by its
    old path, and a removal gets stuck at the root. -/
theorem workspace_refines_run :
    ∃ ws ws' trace σ, trace.map Prod.fst =
        [.ws_create_folder (CString.ofBytes (ascii "a")),
          .ws_create_folder (CString.ofBytes (ascii "b")),
          .ws_change_cur_folder (CString.ofBytes (ascii "a")),
          .ws_create_file (CString.ofBytes (ascii "f")),
          .ws_file_append (CString.ofBytes (ascii "f")) [1, 2, 3],
          .ws_move_node (CString.ofBytes (ascii "/a")) (CString.ofBytes (ascii "/b")),
          .ws_file_read_all (CString.ofBytes (ascii "f")) 8,
          .ws_file_read_all (CString.ofBytes (ascii "/a/f")) 8,
          .ws_global_search_by_name (CString.ofBytes (ascii "f")) 3,
          .ws_remove_folder (CString.ofBytes (ascii "/")) true,
          .ws_get_sub_entries none 4] ∧
      observedSystem.Steps ws trace ws' ∧ fileSystem.Steps FileSystem.fresh trace σ ∧
        Abstracts ws' σ := by
  have hstart : ∃ ws, (workspace_start (fun _ => 0) (fun _ => false) CHUNKS_AMOUNT
      Workspace.zeroed).final = some ws ∧ ∃ ws', runAll (fun _ _ => True) WsOp.exec
        [.ws_create_folder (CString.ofBytes (ascii "a")),
          .ws_create_folder (CString.ofBytes (ascii "b")),
          .ws_change_cur_folder (CString.ofBytes (ascii "a")),
          .ws_create_file (CString.ofBytes (ascii "f")),
          .ws_file_append (CString.ofBytes (ascii "f")) [1, 2, 3],
          .ws_move_node (CString.ofBytes (ascii "/a")) (CString.ofBytes (ascii "/b")),
          .ws_file_read_all (CString.ofBytes (ascii "f")) 8,
          .ws_file_read_all (CString.ofBytes (ascii "/a/f")) 8,
          .ws_global_search_by_name (CString.ofBytes (ascii "f")) 3,
          .ws_remove_folder (CString.ofBytes (ascii "/")) true,
          .ws_get_sub_entries none 4] ws = some ws' := by
    refine exists_of_run (Q := fun ws => (runAll (fun _ _ => True) WsOp.exec _ ws).isSome = true)
      (by decide +kernel) fun ws _ hQ => Option.isSome_iff_exists.mp hQ
  obtain ⟨ws, hws, ws', hrun⟩ := hstart
  have hinit := workspaceInitialised_of_start hws
  have hsteps : workspaceSystem.Steps ws _ ws' := Prog.steps_of_runAll hrun
  obtain ⟨trace, htrace, hobs⟩ :=
    exists_trace hsteps (FreshWorkspace.of_init hinit).workspaceSound (by simp [WsOp.InRange])
  obtain ⟨σ, hspec, habs⟩ := workspace_refines hinit hobs
  exact ⟨ws, ws', trace, σ, htrace, hobs, hspec, habs⟩

end VirtualFS
