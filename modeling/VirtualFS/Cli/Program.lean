import VirtualFS.Cli.Dialogue

/-! # The Program

    `main` from start-up on: the file system that is specified, under the operations
    that the typed lines ask for.

    * `Serves`: what a run of the program has done when it ends, and that a run
      without a defined end is stuck at one of the typed commands.
    * `main_serves`: `main` serves what is typed, on any disk and memory.
-/

namespace VirtualFS

open Framework Prog Outcome

variable {ws ws' : Workspace} {rt rt' : CliRuntime} {cmd : Command} {op : WsOp}

/-! ## Section 1: Start-up -/

/-- Initialising the entry store cannot fail. -/
theorem vfs_entry_store_init_run (es : VFSEntryStore) :
    ∃ es', vfs_entry_store_init es = .ok () es' := by
  have hlen : ¬ root_name.length > MAX_NAME_LENGTH := by decide
  obtain ⟨name, hname⟩ : ∃ name, es.root.name.write 0 (root_name ++ [0]) = some name :=
    CharBuf.write_isSome (by decide)
  simp only [vfs_entry_store_init, root_folder_init, bind_run, modifyState_run, bind_ok,
    readState_run, hlen, if_false, hname]
  exact ⟨_, rfl⟩

/-- Nor can initialising the system, with arrays of the right sizes. -/
theorem system_init_run (storage : Nat → Byte) (allocation_map : Nat → Bool) (memory : VFS) :
    ∃ s, system_init storage allocation_map CHUNKS_AMOUNT memory = .ok () s := by
  obtain ⟨sm, hsm⟩ := @storage_man_init_accepts storage STORAGE_SIZE CHUNKS_AMOUNT allocation_map
    memory.storage_man (Nat.le_refl _) (Nat.le_refl _)
  obtain ⟨es, hes⟩ := vfs_entry_store_init_run memory.entry_store
  refine ⟨⟨es, sm⟩, ?_⟩
  unfold system_init onStorageMan onEntryStore
  rw [bind_run, zoom_run, hsm, mapState_ok, bind_ok, zoom_run, hes]
  rfl

/-- Start-up does not fail. -/
theorem workspace_start_run (storage : Nat → Byte) (allocation_map : Nat → Bool)
    (memory : Workspace) :
    ∃ ws, workspace_start storage allocation_map CHUNKS_AMOUNT memory = .ok () ws ∧
      WorkspaceInitialised ws := by
  obtain ⟨s, hs⟩ := system_init_run storage allocation_map memory.toVFS
  obtain ⟨b, hb, -, -⟩ := workspace_init_run { memory with toVFS := s }
  refine ⟨{ memory with
    toVFS := s, cur_folder := .root, safe_mode := false, cur_path := b }, ?_⟩
  have hrun : workspace_start storage allocation_map CHUNKS_AMOUNT memory =
      .ok () { memory with
        toVFS := s, cur_folder := .root, safe_mode := false, cur_path := b } := by
    unfold workspace_start onSystem
    rw [bind_run, zoom_run, hs, mapState_ok, bind_ok, hb]
  exact ⟨hrun, memory, storage, allocation_map, CHUNKS_AMOUNT, hrun⟩

/-! ## Section 2: Runs of the program -/

/-- `main` runs the loop on the workspace that has been started. -/
theorem main_of_start {storage : Nat → Byte} {allocation_map : Nat → Bool}
    (hstart : workspace_start storage allocation_map CHUNKS_AMOUNT rt.workspace = .ok () ws) :
    main storage allocation_map rt = (cli_run { rt with workspace := ws }).bind
      fun status rt' =>
        .ok (if status = .code .SUCCESS then EXIT_SUCCESS else EXIT_FAILURE) rt' := by
  have hrun : (onCli (onWorkspace (workspace_start storage allocation_map CHUNKS_AMOUNT)) :
      Sys CliRuntime Unit) rt = .ok () { rt with workspace := ws } := by
    unfold onCli onWorkspace
    rw [zoom_run, zoom_run, hstart]
    rfl
  unfold main
  rw [bind_run, attempt_of_ok hrun, bind_ok]
  show (cli_run >>= fun status =>
    if status ≠ .code .SUCCESS then pure EXIT_FAILURE else pure EXIT_SUCCESS) _ = _
  rw [bind_run]
  -- The exit code is read off the status of the loop.
  cases cli_run { rt with workspace := ws } with
  | ok status rt' =>
    by_cases hstatus : status = .code .SUCCESS
    · simp [hstatus]
    · simp [hstatus]
  | fail e rt' => rfl
  | fault x => rfl

/-- What `main` ends with, started in the workspace that start-up has made. It has answered
    the lines as in a dialogue, on the real workspace, and the specified file system has
    taken the same steps with the same replies; the exit code says how the input has ended.
    It gets stuck only at a line that asks for an operation without a defined end, or at a
    `find` of an entry that is too deep to be printed. -/
def Serves (ws : Workspace) (printed : List Byte) (items : List TypedLine)
    (ending : RuntimeStatus) (outcome : Outcome StatusCode Fault CliRuntime Nat) : Prop :=
  outcome.Sat
    (fun exit_code rt =>
      exit_code = (if ending = .code .SUCCESS then EXIT_SUCCESS else EXIT_FAILURE) ∧
      ∃ trace out σ, Converses ws items trace out rt.workspace ∧
        trace.map Prod.fst = items.filterMap TypedLine.asked ∧
        rt.stdout = printed ++ out ++ promptText rt.workspace ++ reportText ending ∧
        fileSystem.Steps FileSystem.fresh trace σ ∧ Abstracts rt.workspace σ)
    (fun _ _ => False)
    (fun _ => ∃ before cmd behind after trace out ws' op,
      items = before ++ .command cmd behind :: after ∧ Converses ws before trace out ws' ∧
      (TypedLine.command cmd behind).asked = some op ∧
      (op.Undefined ws' ∨ FindsTooDeep ws' cmd op))

/-- The specified file system takes the steps of a dialogue. -/
theorem Converses.specified {items : List TypedLine} {trace : List (WsOp × Option Reply)}
    {out : List Byte} (hinit : WorkspaceInitialised ws) (h : Converses ws items trace out ws') :
    ∃ σ, fileSystem.Steps FileSystem.fresh trace σ ∧ Abstracts ws' σ := by
  obtain ⟨σ, hspec, -, habs⟩ := observedSystem_refines.steps h.steps (System.Reachable.init hinit)
    (System.Reachable.init rfl) (FreshWorkspace.of_init hinit).abstracts
  exact ⟨σ, hspec, habs⟩

/-- **The program serves a file system.** Start-up succeeds, and from then on `main` is the
    dialogue of what is typed. -/
theorem main_serves (storage : Nat → Byte) (allocation_map : Nat → Bool) (rt : CliRuntime) :
    ∃ ws, workspace_start storage allocation_map CHUNKS_AMOUNT rt.workspace = .ok () ws ∧
      Serves ws (rt.stdout ++ greetingText) (typed rt.stdin).1 (typed rt.stdin).2
        (main storage allocation_map rt) := by
  obtain ⟨ws, hstart, hinit⟩ := workspace_start_run storage allocation_map rt.workspace
  refine ⟨ws, hstart, ?_⟩
  have hws : WorkspaceSound ws := (FreshWorkspace.of_init hinit).workspaceSound
  have hfollows := @cli_run_dialogue { rt with workspace := ws } hws
  unfold Follows at hfollows
  unfold Serves
  rw [main_of_start hstart]
  -- The three ways the loop may end, each with the lines that have been followed until then.
  cases hrun : cli_run { rt with workspace := ws } with
  | ok status rt' =>
    rw [hrun] at hfollows
    obtain ⟨rfl, trace, out, hlines, hoperations, hstdout⟩ := hfollows
    obtain ⟨σ, hspec, habs⟩ := hlines.specified hinit
    exact ⟨rfl, trace, out, σ, hlines, hoperations, hstdout, hspec, habs⟩
  | fail e rt' =>
    rw [hrun] at hfollows
    exact hfollows
  | fault x =>
    rw [hrun] at hfollows
    obtain ⟨before, cmd, behind, after, trace, out, ws', op, hitems, hlines, hop, hstuck⟩ :=
      hfollows
    refine ⟨before, cmd, behind, after, trace, out, ws', op, hitems, hlines, hop, ?_⟩
    exact hstuck.imp_left
      (exec_undefined_iff (workspaceSound_of_observed hws hlines.steps) op).mp

end VirtualFS
