import Mathlib.Algebra.Group.Int.Defs
import VirtualFS.Cli.Help
import VirtualFS.Cli.InputHandler
import VirtualFS.Workspace.Operations

/-! # Command Executers

    Model of `command_exec.c`. Standard output is the list of all bytes that
    have been printed; what was printed before an executer failed stays.

    An executer checks the numbers of options and arguments, runs one operation of
    the workspace and prints what it returns. `append` first reads its data from
    the terminal, `read` and `trunc` first convert their numbers.
-/

namespace VirtualFS

open Framework Prog

/-! ## Section 1: The state of the command line -/

/-- The workspace, `input_handler->data_buffer`, the terminal and the exit flag. -/
structure Cli where
  workspace : Workspace
  /-- Where `append` collects the lines it is given. -/
  data_buffer : CharBuf INPUT_DATA_BUFFER_SIZE
  /-- What has not been read yet. -/
  stdin : List TerminalEvent
  /-- What has been printed so far. -/
  stdout : List Byte
  /-- Set by `exit`; the loop ends behind the command. -/
  exit_flag : Bool

/-- A function of the workspace, run in the command line. -/
def onWorkspace {α : Type} (p : Sys Workspace α) : Sys Cli α :=
  Prog.zoom Cli.workspace (fun cli ws => { cli with workspace := ws }) p

/-- A function of the terminal, with the buffer of the data. -/
def onInput {α : Type} (p : Sys (InputState INPUT_DATA_BUFFER_SIZE) α) : Sys Cli α :=
  Prog.zoom (fun cli => ⟨cli.stdin, cli.data_buffer⟩)
    (fun cli s => { cli with stdin := s.stdin, data_buffer := s.buffer }) p

/-- The command line after some bytes have been printed. -/
def Cli.printing (cli : Cli) (bytes : List Byte) : Cli :=
  { cli with stdout := cli.stdout ++ bytes }

/-- Prints bytes that have been formatted already. -/
def printf (bytes : List Byte) : Sys Cli Unit := modifyState fun cli => cli.printing bytes

/-- `cmd->args[i]`; behind the used part the array is not initialised. -/
def Command.arg (cmd : Command) (i : Nat) : Sys Cli CString :=
  match cmd.args[i]? with
  | some arg => pure arg
  | none => undefinedBehaviour .out_of_bounds

/-- The checks that most executers start with: no options and this many arguments. -/
def check_amounts (cmd : Command) (args_amount : Nat) : Sys Cli Unit := do
  if cmd.opts.length > 0 then
    returnStatus .CMD_TOO_MANY_OPTS
  if cmd.args.length > args_amount then
    returnStatus .CMD_TOO_MANY_ARGS
  if cmd.args.length < args_amount then
    returnStatus .CMD_TOO_FEW_ARGS

@[simp] theorem withArg_arg (func : CommandFunction) (arg : CString) (cli : Cli) :
    (Command.withArg func arg).arg 0 cli = .ok arg cli := rfl

@[simp] theorem check_amounts_withArg (func : CommandFunction) (arg : CString) (cli : Cli) :
    check_amounts (.withArg func arg) 1 cli = .ok () cli := rfl

/-! ## Section 2: Navigation -/

/-- `cd path` -/
def cmd_cd_exec (cmd : Command) : Sys Cli Unit := do
  if cmd.args.length = 0 then
    returnStatus .CMD_TOO_FEW_ARGS
  if cmd.args.length > 1 then
    returnStatus .CMD_TOO_MANY_ARGS
  if cmd.opts.length > 0 then
    returnStatus .CMD_TOO_FEW_OPTS
  onWorkspace (ws_change_cur_folder (← cmd.arg 0))

/-- The command is not looked at. -/
def cmd_pwd_exec (_cmd : Command) : Sys Cli Unit := do
  let cli ← readState
  printf (cli.workspace.cur_path.str ++ ascii "\n")

/-- The layout of a listing. -/
def SUB_ENTRIES_PRINTED_PER_LINE : Nat := 7
def SUB_ENTRY_PADDING_WIDTH : Nat := 7
def SUB_ENTRY_SPACING_WIDTH : Nat := 3

/-- A name, padded to the width of a column. -/
def print_entry_name_column (name : List Byte) : List Byte :=
  name ++ List.replicate (SUB_ENTRY_PADDING_WIDTH - name.length) SPACE ++
    List.replicate SUB_ENTRY_SPACING_WIDTH SPACE

/-- `ls [path]` -/
def cmd_ls_exec (cmd : Command) : Sys Cli Unit := do
  if cmd.opts.length > 0 then
    returnStatus .CMD_TOO_MANY_OPTS
  if cmd.args.length > 1 then
    returnStatus .CMD_TOO_MANY_OPTS
  let nodes ← onWorkspace
    (ws_get_sub_entries cmd.args.head? (MAX_SUB_FILES_AMOUNT + MAX_SUB_FOLDERS_AMOUNT))
  let cli ← readState
  if nodes.length = 0 then
    return
  forEach nodes.zipIdx fun (node, i) => do
    if i ≠ 0 ∧ i % SUB_ENTRIES_PRINTED_PER_LINE = 0 then
      printf (ascii "\n")
    printf (print_entry_name_column (cli.workspace.entry_store.nameOf node))
  printf (ascii "\n")

/-- `tree [path]` -/
def cmd_tree_exec (cmd : Command) : Sys Cli Unit := do
  if cmd.opts.length > 0 then
    returnStatus .CMD_TOO_MANY_OPTS
  if cmd.args.length > 1 then
    returnStatus .CMD_TOO_MANY_ARGS
  let cli ← readState
  let target_folder ← match cmd.args.head? with
    | none => pure cli.workspace.cur_folder
    | some path => do
      match ← ofExcept (ws_resolve_path cli.workspace path) with
      | .file _ => returnStatus .EXPECTED_FOLDER_GOT_FILE
      | .folder r => pure r
  printf (← ofExcept (print_folder cli.workspace.entry_store target_folder))

/-! ## Section 3: File system operations -/

/-- `touch name` -/
def cmd_touch_exec (cmd : Command) : Sys Cli Unit := do
  check_amounts cmd 1
  onWorkspace (ws_create_file (← cmd.arg 0))

/-- `mkdir name` -/
def cmd_mkdir_exec (cmd : Command) : Sys Cli Unit := do
  check_amounts cmd 1
  onWorkspace (ws_create_folder (← cmd.arg 0))

/-- `rm path` -/
def cmd_rm_exec (cmd : Command) : Sys Cli Unit := do
  check_amounts cmd 1
  onWorkspace (ws_remove_file (← cmd.arg 0))

/-- `'r'` -/
def RECURSIVE_OPTION : Byte := 114

/-- `rmdir [-r] path` -/
def cmd_rmdir_exec (cmd : Command) : Sys Cli Unit := do
  if cmd.opts.length > 1 then
    returnStatus .CMD_TOO_MANY_OPTS
  if cmd.args.length > 1 then
    returnStatus .CMD_TOO_MANY_ARGS
  if cmd.args.length = 0 then
    returnStatus .CMD_TOO_FEW_ARGS
  let recursive_flag ← match cmd.opts with
    | [] => pure false
    | opt :: _ => do
      if opt ≠ RECURSIVE_OPTION then
        returnStatus .CMD_UNKNOWN_OPT
      pure true
  onWorkspace (ws_remove_folder (← cmd.arg 0) recursive_flag)

/-- `mv path folder` -/
def cmd_mv_exec (cmd : Command) : Sys Cli Unit := do
  check_amounts cmd 2
  onWorkspace (ws_move_node (← cmd.arg 0) (← cmd.arg 1))

/-- `rename path name` -/
def cmd_rename_exec (cmd : Command) : Sys Cli Unit := do
  check_amounts cmd 2
  onWorkspace (ws_rename_node (← cmd.arg 0) (← cmd.arg 1))

/-! ## Section 4: Queries -/

/-- How many entries `find` can print. -/
def QUERIES_NODE_BUFFER_SIZE : Nat := 50

/-- `find name` -/
def cmd_find_exec (cmd : Command) : Sys Cli Unit := do
  check_amounts cmd 1
  let nodes ← onWorkspace (ws_global_search_by_name (← cmd.arg 0) QUERIES_NODE_BUFFER_SIZE)
  let cli ← readState
  -- the path buffer is overwritten from its start for each node
  forEach nodes fun node =>
    match get_node_path cli.workspace.entry_store node (CharBuf.zeroed PATH_BUFFER_LENGTH) with
    | .ok _ path_buffer => printf (path_buffer.str ++ ascii "\n")
    | .fail e _ => returnStatus e
    | .fault x => undefinedBehaviour x

/-! ## Section 5: Integer arguments -/

/-- The range of a `long`. -/
def LONG_MAX : Int := 2 ^ 63 - 1
def LONG_MIN : Int := - 2 ^ 63

/-- `isspace` and `isdigit` in the "C" locale. -/
def isspace (c : Byte) : Bool := c = SPACE || (9 ≤ c && c ≤ 13)
def isdigit (c : Byte) : Bool := 48 ≤ c && c ≤ 57

/-- The value, the string that `*endptr` points to, and whether `errno` is set to
    `ERANGE`. -/
structure StrtolResult where
  value : Int
  termination_point : List Byte
  erange : Bool

/-- `strtol(s, endptr, 10)`: without a digit nothing is converted, and the end is the
    start of the string. -/
def strtol (s : List Byte) : StrtolResult :=
  let (negative, rest) := match s.dropWhile isspace with
    | 43 :: rest => (false, rest)
    | 45 :: rest => (true, rest)
    | rest => (false, rest)
  let digits := rest.takeWhile isdigit
  let magnitude : Nat := digits.foldl (fun n d => 10 * n + (d.toNat - 48)) 0
  let value : Int := if negative then -magnitude else magnitude
  if digits = [] then
    ⟨0, s, false⟩
  else if LONG_MAX < value then
    ⟨LONG_MAX, rest.dropWhile isdigit, true⟩
  else if value < LONG_MIN then
    ⟨LONG_MIN, rest.dropWhile isdigit, true⟩
  else
    ⟨value, rest.dropWhile isdigit, false⟩

/-! ## Section 6: File input and output -/

/-- `append path`, with the data in the lines behind it. -/
def cmd_append_exec (cmd : Command) (data_buffer_length : Nat) : Sys Cli Unit := do
  check_amounts cmd 1
  if data_buffer_length = 0 then
    return
  let amount_read ← onInput (multi_line_read data_buffer_length)
  if amount_read = 0 then
    return
  let cli ← readState
  onWorkspace (ws_file_append (← cmd.arg 0) (cli.data_buffer.bytes.take amount_read))

/-- `cat path` -/
def cmd_cat_exec (cmd : Command) (data_buffer_length : Nat) : Sys Cli Unit := do
  if data_buffer_length = 0 then
    returnStatus .NULL_POINTER_PASSED
  check_amounts cmd 1
  let data ← onWorkspace (ws_file_read_all (← cmd.arg 0) data_buffer_length)
  if data.length = 0 then
    return
  printf data
  printf (ascii "\n")

/-- `clear path` -/
def cmd_clear_exec (cmd : Command) : Sys Cli Unit := do
  check_amounts cmd 1
  onWorkspace (ws_file_clear (← cmd.arg 0))

/-- `read path offset amount` -/
def cmd_read_exec (cmd : Command) (data_buffer_length : Nat) : Sys Cli Unit := do
  check_amounts cmd 3
  let offset := strtol (← cmd.arg 1).chars
  if offset.termination_point ≠ [] then
    returnStatus .CMD_EXPECTED_INT
  if offset.erange then
    returnStatus .CMD_INPUT_OUT_OF_RANGE
  let amount := strtol (← cmd.arg 2).chars
  if amount.termination_point ≠ [] then
    printf amount.termination_point
    returnStatus .CMD_EXPECTED_INT
  if amount.erange then
    returnStatus .CMD_INPUT_OUT_OF_RANGE
  if offset.value < 0 ∨ amount.value < 0 then
    returnStatus .CMD_EXPECTED_POSATIVE_NUMBER
  if amount.value = 0 then
    return
  let data ← onWorkspace
    (ws_file_read_at (← cmd.arg 0) offset.value.toNat amount.value.toNat data_buffer_length)
  printf data
  printf (ascii "\n")

/-- `trunc path amount` -/
def cmd_trunc_exec (cmd : Command) : Sys Cli Unit := do
  check_amounts cmd 2
  let amount := strtol (← cmd.arg 1).chars
  if amount.erange then
    returnStatus .CMD_INPUT_OUT_OF_RANGE
  if amount.termination_point ≠ [] then
    returnStatus .CMD_EXPECTED_INT
  if amount.value < 0 then
    returnStatus .CMD_EXPECTED_POSATIVE_NUMBER
  onWorkspace (ws_file_truncate (← cmd.arg 0) amount.value.toNat)

/-! ## Section 7: User interface -/

/-- `help [function]` -/
def cmd_help_exec (cmd : Command) : Sys Cli Unit := do
  if cmd.opts.length > 0 then
    returnStatus .CMD_TOO_MANY_OPTS
  if cmd.args.length > 1 then
    returnStatus .CMD_TOO_MANY_ARGS
  match cmd.args.head? with
  | some name => printf (← ofExcept (print_str_command_function_help_hint name))
  | none => do
    printf (ascii "Run \"help [COMMAND_FUNCTION]\" to get COMMAND_FUNCTION's details\n\n")
    forEach HELP_HINTS_TABLE fun hint => printf (hint.synopsis ++ ascii "\n")

/-- `exit` -/
def cmd_exit_exec (cmd : Command) : Sys Cli Unit := do
  check_amounts cmd 0
  modifyState fun cli => { cli with exit_flag := true }

end VirtualFS
