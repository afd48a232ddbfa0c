import VirtualFS.Cli.CommandDispatcher
import VirtualFS.Workspace.System

/-! # Sessions of the Command Line

    Commands with any options and arguments are dispatched one after the other.
    What a command does to the workspace is at most one of the workspace's
    operations, so all that holds in the runs of the workspace holds in every
    session.

    * `cliSystem`: one step dispatches one command, with any status.
    * `command_dispatch_preserves`: a command keeps the workspace reachable.
    * `workspace_of_session`: so the workspace of a session is a reachable one.
-/

namespace VirtualFS

open Framework Prog Outcome

variable {cli cli' : Cli} {ws ws' : Workspace}

/-! ## Section 1: Executers -/

/-- Commands start from a workspace that operations have made. -/
def Cli.Reachable (cli : Cli) : Prop := workspaceSystem.Reachable cli.workspace

theorem final_returning {α : Type} (p : Sys Workspace α) (result : α → WsResult)
    (ws : Workspace) : (returning p result ws).final = (p ws).final := by
  show ((p ws).bind fun a s => .ok (result a) s).final = (p ws).final
  cases p ws with
  | ok a s => rfl
  | fail e s => rfl
  | fault x => rfl

/-- The program of an operation leads to another reachable workspace. -/
theorem onWorkspace_preserves {α : Type} {p : Sys Workspace α} {result : α → WsResult}
    (op : WsOp) (h : op.exec = returning p result) : Preserves Cli.Reachable (onWorkspace p) := by
  apply Preserves.zoom
  intro cli ws hreach hfinal
  apply System.Reachable.step op hreach
  refine ⟨trivial, ?_⟩
  rw [h, final_returning]
  exact hfinal

/-- Input is read into buffers of the command line. -/
theorem onInput_preserves {α : Type} (p : Sys (InputState INPUT_DATA_BUFFER_SIZE) α) :
    Preserves Cli.Reachable (onInput p) :=
  Preserves.zoom fun _ _ hreach _ => hreach

theorem printf_preserves (bytes : List Byte) : Preserves Cli.Reachable (printf bytes) :=
  Preserves.modifyState fun _ hreach => hreach

/-- Reading an argument leaves the workspace alone. -/
theorem arg_preserves (cmd : Command) (i : Nat) : Preserves Cli.Reachable (cmd.arg i) := by
  unfold Command.arg
  split
  · exact Preserves.pure _
  · exact Preserves.undefinedBehaviour _

theorem check_amounts_preserves (cmd : Command) (args_amount : Nat) :
    Preserves Cli.Reachable (check_amounts cmd args_amount) :=
  .guard (.guard ((Preserves.returnStatus _).ite (.pure _)))

/-- Executers that hand their only argument to an operation. -/
theorem one_arg_preserves (cmd : Command) {α : Type} {p : CString → Sys Workspace α}
    (op : CString → WsOp) {result : α → WsResult}
    (h : ∀ arg, (op arg).exec = returning (p arg) result) :
    Preserves Cli.Reachable (do
      check_amounts cmd 1
      onWorkspace (p (← cmd.arg 0))) := by
  apply (check_amounts_preserves cmd 1).bind
  intro _
  apply (arg_preserves cmd 0).bind
  intro arg
  exact onWorkspace_preserves (op arg) (h arg)

/-- Executers that hand their two arguments to an operation. -/
theorem two_args_preserves (cmd : Command) {α : Type} {p : CString → CString → Sys Workspace α}
    (op : CString → CString → WsOp) {result : α → WsResult}
    (h : ∀ arg arg', (op arg arg').exec = returning (p arg arg') result) :
    Preserves Cli.Reachable (do
      check_amounts cmd 2
      onWorkspace (p (← cmd.arg 0) (← cmd.arg 1))) := by
  apply (check_amounts_preserves cmd 2).bind
  intro _
  apply (arg_preserves cmd 0).bind
  intro arg
  apply (arg_preserves cmd 1).bind
  intro arg'
  exact onWorkspace_preserves (op arg arg') (h arg arg')

/-- Each executer runs at most one operation of the workspace, and prints. -/
theorem cmd_cd_exec_preserves (cmd : Command) : Preserves Cli.Reachable (cmd_cd_exec cmd) := by
  apply Preserves.guard
  apply Preserves.guard
  apply Preserves.guard
  apply (arg_preserves cmd 0).bind
  intro path
  exact onWorkspace_preserves (.ws_change_cur_folder path) rfl

theorem cmd_pwd_exec_preserves (cmd : Command) : Preserves Cli.Reachable (cmd_pwd_exec cmd) :=
  .readState fun _ => printf_preserves _

theorem cmd_ls_exec_preserves (cmd : Command) : Preserves Cli.Reachable (cmd_ls_exec cmd) := by
  apply Preserves.guard
  apply Preserves.guard
  apply (onWorkspace_preserves (.ws_get_sub_entries _ _) rfl).bind
  intro nodes
  apply Preserves.readState
  intro cli
  apply Preserves.ite
  · exact .pure _
  · apply Preserves.bind
    · apply Preserves.forEach
      intro ⟨node, i⟩
      apply Preserves.ite
      · exact (printf_preserves _).bind fun _ => printf_preserves _
      · exact printf_preserves _
    · exact fun _ => printf_preserves _

theorem cmd_tree_exec_preserves (cmd : Command) :
    Preserves Cli.Reachable (cmd_tree_exec cmd) := by
  apply Preserves.guard
  apply Preserves.guard
  apply Preserves.readState
  intro cli
  have hprint : ∀ r, Preserves Cli.Reachable
      (ofExcept (print_folder cli.workspace.entry_store r) >>= printf) :=
    fun r => .ofExcept printf_preserves
  split
  · exact hprint _
  · apply Preserves.ofExcept
    intro node
    cases node with
    | file f => exact (Preserves.returnStatus _).bind hprint
    | folder r => exact hprint r

theorem cmd_rmdir_exec_preserves (cmd : Command) :
    Preserves Cli.Reachable (cmd_rmdir_exec cmd) := by
  have hremove : ∀ flag, Preserves Cli.Reachable (do
      onWorkspace (ws_remove_folder (← cmd.arg 0) flag)) := by
    intro flag
    apply (arg_preserves cmd 0).bind
    intro path
    exact onWorkspace_preserves (.ws_remove_folder path flag) rfl
  apply Preserves.guard
  apply Preserves.guard
  apply Preserves.guard
  split
  · exact hremove false
  · exact .guard (hremove true)

theorem cmd_find_exec_preserves (cmd : Command) :
    Preserves Cli.Reachable (cmd_find_exec cmd) := by
  apply (check_amounts_preserves cmd 1).bind
  intro _
  apply (arg_preserves cmd 0).bind
  intro name
  apply (onWorkspace_preserves (.ws_global_search_by_name name _) rfl).bind
  intro nodes
  apply Preserves.readState
  intro cli
  apply Preserves.forEach
  intro node
  split
  · exact printf_preserves _
  · exact .returnStatus _
  · exact .undefinedBehaviour _

theorem cmd_append_exec_preserves (cmd : Command) (data_buffer_length : Nat) :
    Preserves Cli.Reachable (cmd_append_exec cmd data_buffer_length) := by
  apply (check_amounts_preserves cmd 1).bind
  intro _
  apply Preserves.ite
  · exact .pure _
  · apply (onInput_preserves _).bind
    intro amount_read
    apply Preserves.ite
    · exact .pure _
    · apply Preserves.readState
      intro cli
      apply (arg_preserves cmd 0).bind
      intro path
      exact onWorkspace_preserves (.ws_file_append path _) rfl

/-- The end of the executers that print data. -/
theorem print_data_preserves (data : List Byte) : Preserves Cli.Reachable (do
    printf data
    printf (ascii "\n")) := (printf_preserves _).bind fun _ => printf_preserves _

theorem cmd_cat_exec_preserves (cmd : Command) (data_buffer_length : Nat) :
    Preserves Cli.Reachable (cmd_cat_exec cmd data_buffer_length) := by
  apply Preserves.guard
  apply (check_amounts_preserves cmd 1).bind
  intro _
  apply (arg_preserves cmd 0).bind
  intro path
  apply (onWorkspace_preserves (.ws_file_read_all path data_buffer_length) rfl).bind
  intro data
  exact (Preserves.pure _).ite (print_data_preserves data)

/-- An early return after a message. -/
theorem message_guard_preserves {c : Prop} [Decidable c] {bytes : List Byte} {e : StatusCode}
    {p : Sys Cli Unit} (hp : Preserves Cli.Reachable p) :
    Preserves Cli.Reachable
      (if c then printf bytes >>= fun _ => (returnStatus e : Sys Cli Unit) >>= fun _ => p else p) :=
  ((printf_preserves bytes).bind fun _ => (Preserves.returnStatus e).bind fun _ => hp).ite hp

theorem cmd_read_exec_preserves (cmd : Command) (data_buffer_length : Nat) :
    Preserves Cli.Reachable (cmd_read_exec cmd data_buffer_length) := by
  apply (check_amounts_preserves cmd 3).bind
  intro _
  apply (arg_preserves cmd 1).bind
  intro offset
  apply Preserves.guard
  apply Preserves.guard
  apply (arg_preserves cmd 2).bind
  intro amount
  apply message_guard_preserves
  apply Preserves.guard
  apply Preserves.guard
  apply Preserves.ite
  · exact .pure _
  · apply (arg_preserves cmd 0).bind
    intro path
    apply (onWorkspace_preserves (.ws_file_read_at path _ _ data_buffer_length) rfl).bind
    intro data
    exact print_data_preserves data

theorem cmd_trunc_exec_preserves (cmd : Command) :
    Preserves Cli.Reachable (cmd_trunc_exec cmd) := by
  apply (check_amounts_preserves cmd 2).bind
  intro _
  apply (arg_preserves cmd 1).bind
  intro amount
  apply Preserves.guard
  apply Preserves.guard
  apply Preserves.guard
  apply (arg_preserves cmd 0).bind
  intro path
  exact onWorkspace_preserves (.ws_file_truncate path _) rfl

theorem cmd_help_exec_preserves (cmd : Command) :
    Preserves Cli.Reachable (cmd_help_exec cmd) := by
  apply Preserves.guard
  apply Preserves.guard
  split
  · exact .ofExcept printf_preserves
  · apply (printf_preserves _).bind
    intro _
    exact .forEach (fun hint => printf_preserves _) _

theorem cmd_exit_exec_preserves (cmd : Command) :
    Preserves Cli.Reachable (cmd_exit_exec cmd) :=
  (check_amounts_preserves cmd 0).bind fun _ => .modifyState fun _ hreach => hreach

/-! ## Section 2: The dispatcher -/

/-- **Step lemma**: a command leads to a reachable workspace, whatever it returns. -/
theorem command_dispatch_preserves (cmd : Command) (output_buffer_size : Nat) :
    Preserves Cli.Reachable (command_dispatch cmd output_buffer_size) := by
  unfold command_dispatch
  cases cmd.func with
  | CMD_CD => exact cmd_cd_exec_preserves cmd
  | CMD_PWD => exact cmd_pwd_exec_preserves cmd
  | CMD_LS => exact cmd_ls_exec_preserves cmd
  | CMD_TREE => exact cmd_tree_exec_preserves cmd
  | CMD_TOUCH => exact one_arg_preserves cmd .ws_create_file fun _ => rfl
  | CMD_MKDIR => exact one_arg_preserves cmd .ws_create_folder fun _ => rfl
  | CMD_RM => exact one_arg_preserves cmd .ws_remove_file fun _ => rfl
  | CMD_RMDIR => exact cmd_rmdir_exec_preserves cmd
  | CMD_MV => exact two_args_preserves cmd .ws_move_node fun _ _ => rfl
  | CMD_RENAME => exact two_args_preserves cmd .ws_rename_node fun _ _ => rfl
  | CMD_FIND => exact cmd_find_exec_preserves cmd
  | CMD_DF => exact .returnStatus _
  | CMD_DU => exact .returnStatus _
  | CMD_STAT => exact .returnStatus _
  | CMD_CAT => exact cmd_cat_exec_preserves cmd output_buffer_size
  | CMD_READ => exact cmd_read_exec_preserves cmd output_buffer_size
  | CMD_APPEND => exact cmd_append_exec_preserves cmd INPUT_DATA_BUFFER_SIZE
  | CMD_CLEAR => exact one_arg_preserves cmd .ws_file_clear fun _ => rfl
  | CMD_TRUNC => exact cmd_trunc_exec_preserves cmd
  | CMD_HELP => exact cmd_help_exec_preserves cmd
  | CMD_EXIT => exact cmd_exit_exec_preserves cmd

/-! ## Section 3: Sessions -/

/-- The command line before its first command. -/
structure Cli.Initial (cli : Cli) : Prop where
  workspace : WorkspaceInitialised cli.workspace
  stdout : cli.stdout = []
  exit_flag : cli.exit_flag = false

/-- Commands are dispatched until one of them sets the flag. -/
def cliSystem : System Cli Command :=
  Prog.system Cli.Initial (fun cli _ => cli.exit_flag = false)
    fun cmd => command_dispatch cmd OUTPUT_BUFFER_SIZE

/-- Run commands from start-up in zeroed memory, with this input at the terminal. -/
def runSession (stdin : List TerminalEvent) (cmds : List Command) : Option Cli :=
  (workspace_start (fun _ => 0) (fun _ => false) CHUNKS_AMOUNT
      Workspace.zeroed).final.bind fun ws =>
    runAll (fun cli _ => cli.exit_flag = false)
      (fun cmd => command_dispatch cmd OUTPUT_BUFFER_SIZE) cmds
      ⟨ws, CharBuf.zeroed _, stdin, [], false⟩

/-- **Sessions** only reach workspaces that the operations of the workspace reach. -/
theorem workspace_of_session (h : cliSystem.Reachable cli) :
    workspaceSystem.Reachable cli.workspace := by
  apply h.invariant (I := Cli.Reachable)
  · exact fun cli hinit => .init hinit.workspace
  · intro cli cmd cli' _ hreach hstep
    exact (command_dispatch_preserves cmd OUTPUT_BUFFER_SIZE).final hreach hstep.2

/-- What a computed session ends in is reachable. -/
theorem session_of_runSession {stdin : List TerminalEvent} {cmds : List Command}
    (h : runSession stdin cmds = some cli) : cliSystem.Reachable cli := by
  obtain ⟨ws, hws, hrun⟩ := Option.bind_eq_some_iff.mp h
  apply (Prog.steps_of_runAll hrun).reachable
  exact System.Reachable.init ⟨workspaceInitialised_of_start hws, rfl, rfl⟩

end VirtualFS
