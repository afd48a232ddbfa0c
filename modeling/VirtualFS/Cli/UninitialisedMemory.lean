import VirtualFS.Cli.InputBuffers
import VirtualFS.Cli.Program
import VirtualFS.Workspace.Secrecy

/-! # Uninitialised Memory

    The disk and the input buffers are not initialised by the program. Two command
    lines that differ at most in the bytes of free chunks and in the input buffers
    print the same, whatever is typed: every executer, the loop and the whole
    program end alike in both.

    * `AlikeCli`, `AlikeRuntime`: alike workspaces with the same terminal, whatever
      the buffers hold.
    * `cli_loop_agreeing`: the loop, by induction on its rounds.
    * `main_ignores_memory`: the program, from start-up on.
-/

namespace VirtualFS

open Framework Prog Outcome

variable {cli cli' : Cli} {rt rt' : CliRuntime} {left : Nat}

/-! ## Section 1: Command lines that look alike -/

/-- Two command lines that differ at most in the bytes of free chunks and in the data
    buffer. -/
structure AlikeCli (cli cli' : Cli) : Prop where
  sound : WorkspaceSound cli.workspace
  workspace : AlikeWorkspace cli.workspace cli'.workspace
  stdin : cli'.stdin = cli.stdin
  stdout : cli'.stdout = cli.stdout
  exit_flag : cli'.exit_flag = cli.exit_flag

/-- The entry stores are the same. -/
theorem AlikeCli.entry_store (h : AlikeCli cli cli') :
    cli'.workspace.entry_store = cli.workspace.entry_store := h.workspace.system.entry_store

/-- What an operation returns is seen through its result. -/
theorem seen_of_returning {α : Type} {p : Sys Workspace α} {result : α → WsResult}
    (hinj : Function.Injective result) {ws vs : Workspace}
    (h : (returning p result ws).seen = (returning p result vs).seen) :
    (p ws).seen = (p vs).seen := by
  change ((p ws).bind fun a s => .ok (result a) s).seen =
    ((p vs).bind fun a s => .ok (result a) s).seen at h
  generalize p ws = o at h ⊢
  generalize p vs = o' at h ⊢
  cases o with
  | ok a s =>
    cases o' with
    | ok b t => exact congrArg Seen.returned (hinj (Seen.returned.inj h))
    | fail e t => cases h
    | fault x => cases h
  | fail e s =>
    cases o' with
    | ok b t => cases h
    | fail e' t =>
      cases h
      rfl
    | fault x => cases h
  | fault x =>
    cases o' with
    | ok b t => cases h
    | fail e t => cases h
    | fault y =>
      cases h
      rfl

/-- The program of an operation, in workspaces that look alike. -/
theorem onWorkspace_agreeing {α : Type} {p : Sys Workspace α} {result : α → WsResult}
    (op : WsOp) (h : op.exec = returning p result) (hinj : Function.Injective result) :
    Agreeing AlikeCli (onWorkspace p) := by
  have hp : Agreeing (fun ws vs => WorkspaceSound ws ∧ AlikeWorkspace ws vs) p := by
    rintro ws vs ⟨hws, halike⟩
    have hagrees := WsOp.exec_agrees hws halike op
    rw [h] at hagrees
    have hfinal := hagrees.final_rel
    rw [final_returning, final_returning] at hfinal
    apply agrees_of_seen (seen_of_returning hinj hagrees.seen_eq)
    -- the operation leads to a sound workspace
    generalize hws' : (p ws).final = final at hfinal ⊢
    generalize (p vs).final = final' at hfinal ⊢
    cases hfinal with
    | none => exact Option.Rel.none
    | some halike' =>
      rw [← final_returning p result, ← h] at hws'
      exact Option.Rel.some ⟨(WsOp.exec_step hws hws').workspaceSound hws, halike'⟩
  apply hp.zoom
  · exact fun _ _ h => ⟨h.sound, h.workspace⟩
  · intro cli cli' ws vs h hws
    exact ⟨hws.1, hws.2, h.stdin, h.stdout, h.exit_flag⟩

/-- Both print the same bytes. -/
theorem printf_agreeing (bytes : List Byte) : Agreeing AlikeCli (printf bytes) := by
  apply Agreeing.modifyState
  intro cli cli' h
  exact ⟨h.sound, h.workspace, h.stdin, congrArg (· ++ bytes) h.stdout, h.exit_flag⟩

/-- The arguments are in the command, not in the memory. -/
theorem arg_agreeing (cmd : Command) (i : Nat) : Agreeing AlikeCli (cmd.arg i) := by
  unfold Command.arg
  split
  · exact Agreeing.pure _
  · exact Agreeing.undefinedBehaviour _

theorem check_amounts_agreeing (cmd : Command) (args_amount : Nat) :
    Agreeing AlikeCli (check_amounts cmd args_amount) :=
  .guard (.guard ((Agreeing.returnStatus _).ite (.pure _)))

/-! ## Section 2: Executers -/

/-- Operations whose result is not looked at. -/
theorem injective_done : Function.Injective fun _ : Unit => WsResult.done := fun _ _ _ => rfl

theorem injective_bytes : Function.Injective WsResult.bytes := fun _ _ => WsResult.bytes.inj

theorem injective_nodes : Function.Injective WsResult.nodes := fun _ _ => WsResult.nodes.inj

/-- Executers that hand their only argument to an operation. -/
theorem one_arg_agreeing (cmd : Command) {p : CString → Sys Workspace Unit} (op : CString → WsOp)
    (h : ∀ arg, (op arg).exec = returning (p arg) fun _ => .done) :
    Agreeing AlikeCli (do
      check_amounts cmd 1
      onWorkspace (p (← cmd.arg 0))) := by
  apply (check_amounts_agreeing cmd 1).bind
  intro _
  apply (arg_agreeing cmd 0).bind
  intro arg
  exact onWorkspace_agreeing (op arg) (h arg) injective_done

/-- Executers that hand their two arguments to an operation. -/
theorem two_args_agreeing (cmd : Command) {p : CString → CString → Sys Workspace Unit}
    (op : CString → CString → WsOp)
    (h : ∀ arg arg', (op arg arg').exec = returning (p arg arg') fun _ => .done) :
    Agreeing AlikeCli (do
      check_amounts cmd 2
      onWorkspace (p (← cmd.arg 0) (← cmd.arg 1))) := by
  apply (check_amounts_agreeing cmd 2).bind
  intro _
  apply (arg_agreeing cmd 0).bind
  intro arg
  apply (arg_agreeing cmd 1).bind
  intro arg'
  exact onWorkspace_agreeing (op arg arg') (h arg arg') injective_done

/-- Executers agree, because their operations do and they print what these return. -/
theorem cmd_cd_exec_agreeing (cmd : Command) : Agreeing AlikeCli (cmd_cd_exec cmd) := by
  apply Agreeing.guard
  apply Agreeing.guard
  apply Agreeing.guard
  apply (arg_agreeing cmd 0).bind
  intro path
  exact onWorkspace_agreeing (.ws_change_cur_folder path) rfl injective_done

theorem cmd_pwd_exec_agreeing (cmd : Command) : Agreeing AlikeCli (cmd_pwd_exec cmd) := by
  apply Agreeing.read
  · exact fun _ => printf_agreeing _
  · intro cli cli' h
    rw [h.workspace.cur_path]

theorem cmd_ls_exec_agreeing (cmd : Command) : Agreeing AlikeCli (cmd_ls_exec cmd) := by
  apply Agreeing.guard
  apply Agreeing.guard
  apply (onWorkspace_agreeing (.ws_get_sub_entries _ _) rfl injective_nodes).bind
  intro nodes
  apply Agreeing.read
  · intro cli
    apply Agreeing.ite
    · exact Agreeing.pure _
    · apply Agreeing.bind
      · apply Agreeing.forEach
        rintro ⟨node, i⟩
        apply Agreeing.ite
        · exact (printf_agreeing _).bind fun _ => printf_agreeing _
        · exact printf_agreeing _
      · exact fun _ => printf_agreeing _
  · intro cli cli' h
    rw [h.entry_store]

theorem cmd_tree_exec_agreeing (cmd : Command) : Agreeing AlikeCli (cmd_tree_exec cmd) := by
  have hprint : ∀ (es : VFSEntryStore) r,
      Agreeing AlikeCli (ofExcept (print_folder es r) >>= printf) :=
    fun es r => (Agreeing.ofExcept _).bind fun bytes => printf_agreeing bytes
  apply Agreeing.guard
  apply Agreeing.guard
  apply Agreeing.read
  · intro cli
    split
    · exact hprint _ _
    · apply Agreeing.bind (Agreeing.ofExcept _)
      intro node
      cases node with
      | file f => exact (Agreeing.returnStatus _).bind fun r => hprint _ r
      | folder r => exact hprint _ r
  · intro cli cli' h
    rw [h.workspace.eq_withStorage]
    rfl

theorem cmd_rmdir_exec_agreeing (cmd : Command) : Agreeing AlikeCli (cmd_rmdir_exec cmd) := by
  have hremove : ∀ flag, Agreeing AlikeCli (do
      onWorkspace (ws_remove_folder (← cmd.arg 0) flag)) := by
    intro flag
    apply (arg_agreeing cmd 0).bind
    intro path
    exact onWorkspace_agreeing (.ws_remove_folder path flag) rfl injective_done
  apply Agreeing.guard
  apply Agreeing.guard
  apply Agreeing.guard
  split
  · exact hremove false
  · exact Agreeing.guard (hremove true)

theorem cmd_find_exec_agreeing (cmd : Command) : Agreeing AlikeCli (cmd_find_exec cmd) := by
  apply (check_amounts_agreeing cmd 1).bind
  intro _
  apply (arg_agreeing cmd 0).bind
  intro name
  apply (onWorkspace_agreeing (.ws_global_search_by_name name _) rfl injective_nodes).bind
  intro nodes
  apply Agreeing.read
  · intro cli
    apply Agreeing.forEach
    intro node
    split
    · exact printf_agreeing _
    · exact Agreeing.returnStatus _
    · exact Agreeing.undefinedBehaviour _
  · intro cli cli' h
    rw [h.entry_store]

/-- **Append** takes what has been typed, and nothing else that is in the buffer. -/
theorem cmd_append_exec_agreeing (cmd : Command) :
    Agreeing AlikeCli (cmd_append_exec cmd INPUT_DATA_BUFFER_SIZE) := by
  apply (check_amounts_agreeing cmd 1).bind
  intro _
  apply Agreeing.ite
  · exact Agreeing.pure _
  intro cli cli' h
  have hinput : SameInput (⟨cli.stdin, cli.data_buffer⟩ : InputState INPUT_DATA_BUFFER_SIZE)
      ⟨cli'.stdin, cli'.data_buffer⟩ := h.stdin
  rw [bind_run, bind_run]
  unfold onInput
  rw [zoom_run, zoom_run]
  rcases multi_line_read_same hinput with
    ⟨amount, s, t, hs, ht, hsame, htake⟩ | ⟨e, s, t, hs, ht, hsame⟩
  · rw [hs, ht, mapState_ok, mapState_ok, bind_ok, bind_ok]
    have h' : AlikeCli { cli with stdin := s.stdin, data_buffer := s.buffer }
        { cli' with stdin := t.stdin, data_buffer := t.buffer } :=
      ⟨h.sound, h.workspace, hsame, h.stdout, h.exit_flag⟩
    by_cases hnothing : amount = 0
    · rw [if_pos hnothing]
      exact Agrees.ok () h'
    rw [if_neg hnothing, bind_run, bind_run, readState_run, readState_run, bind_ok, bind_ok]
    dsimp only
    rw [htake]
    have happend : ∀ data, Agreeing AlikeCli (do
        onWorkspace (ws_file_append (← cmd.arg 0) data)) := by
      intro data
      apply (arg_agreeing cmd 0).bind
      intro path
      exact onWorkspace_agreeing (.ws_file_append path data) rfl injective_done
    exact happend _ _ _ h'
  · rw [hs, ht]
    exact Agrees.fail e ⟨h.sound, h.workspace, hsame, h.stdout, h.exit_flag⟩

/-- The end of the executers that print data. -/
theorem print_data_agreeing (data : List Byte) : Agreeing AlikeCli (do
    printf data
    printf (ascii "\n")) := (printf_agreeing _).bind fun _ => printf_agreeing _

theorem cmd_cat_exec_agreeing (cmd : Command) (data_buffer_length : Nat) :
    Agreeing AlikeCli (cmd_cat_exec cmd data_buffer_length) := by
  apply Agreeing.guard
  apply (check_amounts_agreeing cmd 1).bind
  intro _
  apply (arg_agreeing cmd 0).bind
  intro path
  apply (onWorkspace_agreeing (.ws_file_read_all path data_buffer_length) rfl
    injective_bytes).bind
  intro data
  exact (Agreeing.pure _).ite (print_data_agreeing data)

theorem cmd_read_exec_agreeing (cmd : Command) (data_buffer_length : Nat) :
    Agreeing AlikeCli (cmd_read_exec cmd data_buffer_length) := by
  apply (check_amounts_agreeing cmd 3).bind
  intro _
  apply (arg_agreeing cmd 1).bind
  intro offset
  apply Agreeing.guard
  apply Agreeing.guard
  apply (arg_agreeing cmd 2).bind
  intro amount
  have hrest : Agreeing AlikeCli (do
      if (strtol amount.chars).erange then
        returnStatus .CMD_INPUT_OUT_OF_RANGE
      if (strtol offset.chars).value < 0 ∨ (strtol amount.chars).value < 0 then
        returnStatus .CMD_EXPECTED_POSATIVE_NUMBER
      if (strtol amount.chars).value = 0 then
        return
      let data ← onWorkspace (ws_file_read_at (← cmd.arg 0) (strtol offset.chars).value.toNat
        (strtol amount.chars).value.toNat data_buffer_length)
      printf data
      printf (ascii "\n")) := by
    apply Agreeing.guard
    apply Agreeing.guard
    apply Agreeing.ite
    · exact Agreeing.pure _
    · apply (arg_agreeing cmd 0).bind
      intro path
      apply (onWorkspace_agreeing (.ws_file_read_at path _ _ data_buffer_length) rfl
        injective_bytes).bind
      intro data
      exact print_data_agreeing data
  -- what is behind the number is printed first
  apply Agreeing.ite
  · apply (printf_agreeing _).bind
    intro _
    exact (Agreeing.returnStatus _).bind fun _ => hrest
  · exact hrest

theorem cmd_trunc_exec_agreeing (cmd : Command) : Agreeing AlikeCli (cmd_trunc_exec cmd) := by
  apply (check_amounts_agreeing cmd 2).bind
  intro _
  apply (arg_agreeing cmd 1).bind
  intro amount
  apply Agreeing.guard
  apply Agreeing.guard
  apply Agreeing.guard
  apply (arg_agreeing cmd 0).bind
  intro path
  exact onWorkspace_agreeing (.ws_file_truncate path _) rfl injective_done

theorem cmd_help_exec_agreeing (cmd : Command) : Agreeing AlikeCli (cmd_help_exec cmd) := by
  apply Agreeing.guard
  apply Agreeing.guard
  split
  · exact (Agreeing.ofExcept _).bind fun hint => printf_agreeing hint
  · apply (printf_agreeing _).bind
    intro _
    exact Agreeing.forEach (fun hint => printf_agreeing _) _

theorem cmd_exit_exec_agreeing (cmd : Command) : Agreeing AlikeCli (cmd_exit_exec cmd) := by
  apply (check_amounts_agreeing cmd 0).bind
  intro _
  apply Agreeing.modifyState
  intro cli cli' h
  exact ⟨h.sound, h.workspace, h.stdin, h.stdout, rfl⟩

/-- **Step lemma**: a command prints and returns the same in both. -/
theorem command_dispatch_agreeing (cmd : Command) (output_buffer_size : Nat) :
    Agreeing AlikeCli (command_dispatch cmd output_buffer_size) := by
  unfold command_dispatch
  cases cmd.func with
  | CMD_CD => exact cmd_cd_exec_agreeing cmd
  | CMD_PWD => exact cmd_pwd_exec_agreeing cmd
  | CMD_LS => exact cmd_ls_exec_agreeing cmd
  | CMD_TREE => exact cmd_tree_exec_agreeing cmd
  | CMD_TOUCH => exact one_arg_agreeing cmd .ws_create_file fun _ => rfl
  | CMD_MKDIR => exact one_arg_agreeing cmd .ws_create_folder fun _ => rfl
  | CMD_RM => exact one_arg_agreeing cmd .ws_remove_file fun _ => rfl
  | CMD_RMDIR => exact cmd_rmdir_exec_agreeing cmd
  | CMD_MV => exact two_args_agreeing cmd .ws_move_node fun _ _ => rfl
  | CMD_RENAME => exact two_args_agreeing cmd .ws_rename_node fun _ _ => rfl
  | CMD_FIND => exact cmd_find_exec_agreeing cmd
  | CMD_DF => exact Agreeing.returnStatus _
  | CMD_DU => exact Agreeing.returnStatus _
  | CMD_STAT => exact Agreeing.returnStatus _
  | CMD_CAT => exact cmd_cat_exec_agreeing cmd output_buffer_size
  | CMD_READ => exact cmd_read_exec_agreeing cmd output_buffer_size
  | CMD_APPEND => exact cmd_append_exec_agreeing cmd
  | CMD_CLEAR => exact one_arg_agreeing cmd .ws_file_clear fun _ => rfl
  | CMD_TRUNC => exact cmd_trunc_exec_agreeing cmd
  | CMD_HELP => exact cmd_help_exec_agreeing cmd
  | CMD_EXIT => exact cmd_exit_exec_agreeing cmd

/-! ## Section 3: The loop -/

/-- The command buffer may differ as well. -/
def AlikeRuntime (rt rt' : CliRuntime) : Prop := AlikeCli rt.toCli rt'.toCli

/-- A function of the command line runs in both. -/
theorem onCli_agreeing {α : Type} {p : Sys Cli α} (hp : Agreeing AlikeCli p) :
    Agreeing AlikeRuntime (onCli p) := by
  apply hp.zoom
  · exact fun _ _ h => h
  · exact fun _ _ _ _ _ h => h

/-- Both report the same status. -/
theorem report_status_agreeing (status : RuntimeStatus) :
    Agreeing AlikeRuntime (onCli (report_status status)) := by
  apply onCli_agreeing
  apply Agreeing.ite
  · exact Agreeing.pure _
  · exact printf_agreeing _

/-- Both prompts show the same path. -/
theorem print_prompt_context_agreeing : Agreeing AlikeRuntime (onCli print_prompt_context) := by
  apply onCli_agreeing
  apply Agreeing.read
  · exact fun _ => printf_agreeing _
  · intro cli cli' h
    rw [h.workspace.cur_path]

/-- Both loops go on, or both end. -/
theorem finish_iteration_agreeing (result : Except StatusCode Unit)
    (hloop : Agreeing AlikeRuntime (cli_loop left)) :
    Agreeing AlikeRuntime (finish_iteration left result) := by
  apply Agreeing.read
  · intro rt
    apply Agreeing.ite
    · exact Agreeing.pure _
    · cases result with
      | error e => exact (report_status_agreeing _).bind fun _ => hloop
      | ok u => exact (report_status_agreeing _).bind fun _ => hloop
  · intro rt rt' h
    rw [h.exit_flag]

/-- The iteration only depends on the line in the buffer. -/
theorem parse_iteration_agrees (hloop : Agreeing AlikeRuntime (cli_loop left))
    (h : AlikeRuntime rt rt') {line : CString} {tail tail' : List Byte}
    (hbuf : rt.command_buffer.bytes = line.chars ++ 0 :: tail)
    (hbuf' : rt'.command_buffer.bytes = line.chars ++ 0 :: tail')
    (hlength : line.chars.length ≤ MAX_COMMAND_LENGTH) :
    Agrees AlikeRuntime (parse_iteration left rt) (parse_iteration left rt') := by
  -- The two lines are equal up to their terminator, so they hold the same command or none.
  rcases cmd_parse_same hbuf hbuf' hlength with
    ⟨cur_command, b, b', hrun, hrun', hcommand⟩ | ⟨e, b, b', hrun, hrun'⟩
  · rw [parse_iteration_of_ok left hrun, parse_iteration_of_ok left hrun']
    unfold dispatch_iteration
    rw [bind_run, bind_run, readState_run, readState_run, bind_ok, bind_ok]
    dsimp only
    rw [hcommand]
    have hdispatch : Agreeing AlikeRuntime (do
        let result ← attempt
          (onCli (command_dispatch (cur_command.command b) OUTPUT_BUFFER_SIZE))
        finish_iteration left result) :=
      (onCli_agreeing (command_dispatch_agreeing _ _)).attempt.bind fun result =>
        finish_iteration_agreeing result hloop
    exact hdispatch _ _ h
  · rw [parse_iteration_of_fail left hrun, parse_iteration_of_fail left hrun']
    have hreport : Agreeing AlikeRuntime (do
        onCli (report_status (.code e))
        cli_loop left) :=
      (report_status_agreeing _).bind fun _ => hloop
    exact hreport _ _ h

/-- A line is read alike; if it is read, it stands at the start of both buffers. -/
theorem read_line_same {s t : InputState COMMAND_BUFFER_SIZE} (h : SameInput s t) :
    ∃ status s' t', new_line_terminated_read COMMAND_BUFFER_SIZE s = .ok status s' ∧
      new_line_terminated_read COMMAND_BUFFER_SIZE t = .ok status t' ∧ SameInput s' t' ∧
      (status = .code .SUCCESS → ∃ (line : CString) (tail tail' : List Byte),
        line.chars.length ≤ MAX_COMMAND_LENGTH ∧ s'.buffer.bytes = line.chars ++ 0 :: tail ∧
        t'.buffer.bytes = line.chars ++ 0 :: tail') := by
  have hsize : 1 ≤ COMMAND_BUFFER_SIZE := by decide
  have hagrees := new_line_terminated_read_agreeing COMMAND_BUFFER_SIZE s t h
  have hs := new_line_terminated_read_sat hsize s
  have ht := new_line_terminated_read_sat hsize t
  rw [show t.stdin = s.stdin from h] at ht
  -- what is read is the same line; the bytes behind it may differ
  generalize new_line_terminated_read COMMAND_BUFFER_SIZE s = o at hagrees hs ⊢
  generalize new_line_terminated_read COMMAND_BUFFER_SIZE t = o' at hagrees ht ⊢
  cases hagrees with
  | @ok status s' t' hsame =>
    refine ⟨status, s', t', rfl, rfl, hsame, ?_⟩
    rintro rfl
    cases hs with
    | line bytes rest buf tail hstdin _ hlength hbuf =>
      cases ht with
      | line bytes' rest' buf' tail' hstdin' _ _ hbuf' =>
        rw [hstdin] at hstdin'
        cases hstdin'
        refine ⟨lineString bytes, tail, tail', ?_, hbuf, hbuf'⟩
        exact (length_lineString_le bytes).trans (Nat.le_of_lt (hlength.trans (by decide)))
  | fail e hsame => exact hs.elim
  | fault x => exact hs.elim

/-- **The loop** prints and returns the same. -/
theorem cli_loop_agreeing (left : Nat) : Agreeing AlikeRuntime (cli_loop left) := by
  -- On the rounds; the memory that differs is never looked at before it is written.
  induction left with
  | zero => exact Agreeing.undefinedBehaviour _
  | succ left ih =>
    intro rt rt' h
    by_cases hexit : rt.exit_flag = true
    · have hstop : ∀ rt : CliRuntime, rt.exit_flag = true →
          cli_loop (left + 1) rt = .ok (.code .SUCCESS) rt := by
        intro rt hexit
        rw [cli_loop, bind_run, readState_run, bind_ok, if_pos hexit]
        rfl
      rw [hstop rt hexit, hstop rt' (h.exit_flag.trans hexit)]
      exact Agrees.ok _ h
    have hrunning : rt.exit_flag = false := Bool.eq_false_iff.mpr hexit
    rw [cli_loop_eq left hrunning, cli_loop_eq left (h.exit_flag.trans hrunning), bind_run,
      bind_run]
    apply (print_prompt_context_agreeing rt rt' h).bind
    intro _ rt rt' h
    have hinput : SameInput (⟨rt.stdin, rt.command_buffer⟩ : InputState COMMAND_BUFFER_SIZE)
        ⟨rt'.stdin, rt'.command_buffer⟩ := h.stdin
    obtain ⟨status, s, t, hs, ht, hsame, hline⟩ := read_line_same hinput
    rw [bind_run, bind_run]
    unfold onCommandInput
    rw [zoom_run, zoom_run, hs, ht, mapState_ok, mapState_ok, bind_ok, bind_ok]
    have h' : AlikeRuntime { rt with stdin := s.stdin, command_buffer := s.buffer }
        { rt' with stdin := t.stdin, command_buffer := t.buffer } :=
      ⟨h.sound, h.workspace, hsame, h.stdout, h.exit_flag⟩
    by_cases hstatus : status = .code .SUCCESS
    · obtain ⟨line, tail, tail', hlength, hbuf, hbuf'⟩ := hline hstatus
      rw [if_neg (not_not_intro hstatus)]
      exact parse_iteration_agrees ih h' hbuf hbuf' hlength
    · rw [if_pos hstatus]
      exact ((report_status_agreeing status).bind fun _ => Agreeing.pure status) _ _ h'

/-! ## Section 4: The program -/

section Start

variable {storage storage' : Nat → Byte} {allocation_map allocation_map' : Nat → Bool}

/-- All chunks are free then, so that their bytes may differ. -/
theorem storage_man_init_agrees
    (hstorage : ∀ addr, STORAGE_SIZE ≤ addr → storage' addr = storage addr)
    (hmap : ∀ c, CHUNKS_AMOUNT ≤ c → allocation_map' c = allocation_map c) (memory : StorageMan) :
    Agrees AlikeDisk (storage_man_init storage STORAGE_SIZE allocation_map CHUNKS_AMOUNT memory)
      (storage_man_init storage' STORAGE_SIZE allocation_map' CHUNKS_AMOUNT memory) := by
  have hsize : ¬ STORAGE_SIZE < CHUNK_SIZE * CHUNKS_AMOUNT := Nat.lt_irrefl _
  have hlength : ¬ CHUNKS_AMOUNT < CHUNKS_AMOUNT := Nat.lt_irrefl _
  simp only [storage_man_init, hsize, hlength, if_false, modifyState_run]
  refine Agrees.ok () ⟨rfl, rfl, ?_, ?_⟩
  · funext c
    show allocation_map_init allocation_map' c = allocation_map_init allocation_map c
    unfold allocation_map_init
    by_cases hc : c < CHUNKS_AMOUNT
    · rw [if_pos hc, if_pos hc]
    · rw [if_neg hc, if_neg hc, hmap c (Nat.le_of_not_lt hc)]
  · intro addr hused
    apply hstorage
    by_contra hdisk
    have hchunk : addr / CHUNK_SIZE < CHUNKS_AMOUNT :=
      Nat.div_lt_of_lt_mul (Nat.lt_of_not_le hdisk)
    exact hused ⟨hchunk, if_pos hchunk⟩

/-- Start-up marks all chunks as free, so what the disk held is not seen. -/
theorem workspace_start_agrees
    (hstorage : ∀ addr, STORAGE_SIZE ≤ addr → storage' addr = storage addr)
    (hmap : ∀ c, CHUNKS_AMOUNT ≤ c → allocation_map' c = allocation_map c) (memory : Workspace) :
    Agrees AlikeWorkspace (workspace_start storage allocation_map CHUNKS_AMOUNT memory)
      (workspace_start storage' allocation_map' CHUNKS_AMOUNT memory) := by
  have hsystem : Agrees AlikeSystem
      (system_init storage allocation_map CHUNKS_AMOUNT memory.toVFS)
      (system_init storage' allocation_map' CHUNKS_AMOUNT memory.toVFS) := by
    have hdisk := storage_man_init_agrees hstorage hmap memory.storage_man
    unfold system_init onStorageMan
    rw [bind_run, bind_run, zoom_run, zoom_run]
    apply Agrees.bind
    · exact hdisk.mapState fun _ _ h => ⟨rfl, h⟩
    · exact fun _ => onEntryStore_agreeing _
  have hinit : Agreeing AlikeWorkspace workspace_init := by
    apply Agreeing.bind
    · exact Agreeing.modifyState fun _ _ h => ⟨h.system, rfl, rfl, h.cur_path⟩
    · exact fun _ => onCurPath_agreeing _
  unfold workspace_start onSystem
  rw [bind_run, bind_run, zoom_run, zoom_run]
  apply Agrees.bind
  · exact hsystem.mapState fun _ _ h => ⟨h, rfl, rfl, rfl⟩
  · exact fun _ => hinit

/-- The flag is cleared first. -/
theorem cli_run_agrees
    (h : AlikeRuntime { rt with exit_flag := false } { rt' with exit_flag := false }) :
    Agrees AlikeRuntime (cli_run rt) (cli_run rt') := by
  have hrest : Agreeing AlikeRuntime (do
      onCli print_starting_instructions
      let rt ← readState
      cli_loop (rt.stdin.length + 1)) := by
    apply Agreeing.bind (onCli_agreeing (printf_agreeing _))
    intro _
    apply Agreeing.read
    · exact fun _ => cli_loop_agreeing _
    · intro rt rt' h
      rw [h.stdin]
  exact hrest _ _ h

/-- **Uninitialised memory is never seen.** What the program prints and what it returns is
    determined by what is typed: whatever the two arrays that it allocates hold, and
    whatever the input buffers held, it is the same. The functions only stand for the
    arrays up to their sizes. -/
theorem main_ignores_memory
    (hstorage : ∀ addr, STORAGE_SIZE ≤ addr → storage' addr = storage addr)
    (hmap : ∀ c, CHUNKS_AMOUNT ≤ c → allocation_map' c = allocation_map c)
    (hworkspace : rt'.workspace = rt.workspace) (hstdin : rt'.stdin = rt.stdin)
    (hstdout : rt'.stdout = rt.stdout) :
    (main storage allocation_map rt).seen = (main storage' allocation_map' rt').seen ∧
      (main storage allocation_map rt).final.map (fun rt => rt.stdout) =
        (main storage' allocation_map' rt').final.map (fun rt => rt.stdout) := by
  have hagrees := workspace_start_agrees hstorage hmap rt.workspace
  obtain ⟨ws, hstart, hinit⟩ := workspace_start_run storage allocation_map rt.workspace
  obtain ⟨vs, hstart', -⟩ := workspace_start_run storage' allocation_map' rt.workspace
  rw [hstart, hstart'] at hagrees
  rw [← hworkspace] at hstart'
  rw [main_of_start hstart, main_of_start hstart']
  -- Both workspaces are fresh and alike, and the terminals are the same.
  have halike : AlikeRuntime { rt with workspace := ws, exit_flag := false }
      { rt' with workspace := vs, exit_flag := false } := by
    cases hagrees with
    | ok _ h =>
      exact ⟨(FreshWorkspace.of_init hinit).workspaceSound, h, hstdin, hstdout, rfl⟩
  have hrun : Agrees AlikeRuntime (cli_run { rt with workspace := ws })
      (cli_run { rt' with workspace := vs }) := cli_run_agrees halike
  generalize cli_run { rt with workspace := ws } = o at hrun ⊢
  generalize cli_run { rt' with workspace := vs } = o' at hrun ⊢
  cases hrun with
  | ok status h => exact ⟨rfl, congrArg some h.stdout.symm⟩
  | fail e h => exact ⟨rfl, congrArg some h.stdout.symm⟩
  | fault x => exact ⟨rfl, rfl⟩

/-- A file is written and printed, with zeros and with other bytes in all of the memory. -/
theorem main_ignores_memory_run :
    ∃ rt rt' : CliRuntime,
      rt.stdin = [.line (ascii "touch f\n"), .line (ascii "append f\n"), .line (ascii "hello\n"),
        .line [], .line (ascii "cat f\n"), .line (ascii "exit\n")] ∧
      rt'.data_buffer.bytes = List.replicate INPUT_DATA_BUFFER_SIZE 65 ∧
      (main (fun _ => 0) (fun _ => false) rt).seen =
        (main (fun addr => if addr < STORAGE_SIZE then 7 else 0)
          (fun c => decide (c < CHUNKS_AMOUNT)) rt').seen ∧
      (main (fun _ => 0) (fun _ => false) rt).final.map (fun rt => rt.stdout) =
        (main (fun addr => if addr < STORAGE_SIZE then 7 else 0)
          (fun c => decide (c < CHUNKS_AMOUNT)) rt').final.map (fun rt => rt.stdout) := by
  let stdin : List TerminalEvent :=
    [.line (ascii "touch f\n"), .line (ascii "append f\n"), .line (ascii "hello\n"), .line [],
      .line (ascii "cat f\n"), .line (ascii "exit\n")]
  refine ⟨⟨⟨Workspace.zeroed, CharBuf.zeroed _, stdin, [], false⟩, CharBuf.zeroed _⟩,
    ⟨⟨Workspace.zeroed, ⟨List.replicate _ 65, List.length_replicate⟩, stdin, [], true⟩,
      ⟨List.replicate _ 65, List.length_replicate⟩⟩, rfl, rfl, ?_⟩
  apply main_ignores_memory
  · exact fun addr haddr => if_neg (Nat.not_lt.mpr haddr)
  · exact fun c hc => decide_eq_false (Nat.not_lt.mpr hc)
  · rfl
  · rfl
  · rfl

end Start

end VirtualFS
