import VirtualFS.Cli.CommandDispatcher
import VirtualFS.Workspace.System

/-! # Command Line Runtime

    Model of `cli_runtime.c` and `main.c`: the loop that prompts, reads a line,
    parses it and dispatches the command. Statuses are values here, since the
    loop looks at them.

    The loop reads one line per round. It ends at the end of the input or with the
    `exit` command; the model gives it as many rounds as there are reads left in
    the terminal, and one more.
-/

namespace VirtualFS

open Framework Prog

/-! ## Section 1: Statuses -/

/-- The numbers of `status.h`. -/
def StatusCode.value : StatusCode → Int
  | SUCCESS => 0
  | NULL_POINTER_PASSED => -1
  | INVALID_ARGUMENT => -2
  | INDEX_OUT_OF_BOUNDS => -3
  | NO_SPACE => -11
  | INSUFFICIENT_ARRAY_PASSED => -12
  | FREE_CHUNK_ACCESS_ATTEMPT => -13
  | DATA_OVER_FLOW => -14
  | DATA_SET_IS_EMPTY => -15
  | FILE_CHUNK_EXTENT_LIMIT_EXCEEDED => -21
  | CHUNK_DOES_NOT_BELONG_TO_FILE => -22
  | NOT_FOUND_CHUNKS_TERMINATED => -23
  | FILE_IS_EMPTY => -24
  | INVALID_OPERATION => -31
  | INVALID_ROOT_OPERATION => -32
  | ATTEMPTED_TO_DELETE_FOLDER_WITH_SUB_ENTRIES => -34
  | ATTEMPTED_TO_ENFORCE_CYCLIC_RELATION => -35
  | SEARCH_TARGET_NOT_FOUND => -41
  | PATH_IS_TOO_LONG => -42
  | PATH_IS_EMPTY => -43
  | IDENTIFIER_NOT_AVAILABLE => -51
  | IDENTIFIER_IS_TOO_LONG => -52
  | INVALID_CHARECTER_IN_IDENTIFIER => -53
  | UNKNOWN_ENTRY => -61
  | UNINITIALISED_ENTRY => -62
  | RECURSIVE_OPERATION_LIMIT_EXCEEDED => -71
  | EXPECTED_FOLDER_GOT_FILE => -301
  | EXPECTED_FILE_GOT_FOLDER => -302
  | INVALID_SAFE_MODE_OP => -311
  | TOO_MANY_ARGUMENTS => -401
  | TOO_MANY_OPTIONS => -402
  | TOO_MANY_TOKENS => -403
  | CMD_IS_TOO_LONG => -404
  | CMD_IS_EMPTY => -405
  | INVALID_CMD_FUNCTION => -406
  | INVALID_CMD_OPT => -407
  | READ_ERROR => -411
  | INPUT_BUFFER_OVER_FLOW => -413
  | TOO_MANY_LINES => -414
  | INPUT_LINE_IS_TOO_LONG => -415
  | COMMAND_FUNCTION_NOT_FOUND => -421
  | CMD_TOO_FEW_ARGS => -431
  | CMD_TOO_MANY_ARGS => -432
  | CMD_TOO_FEW_OPTS => -433
  | CMD_TOO_MANY_OPTS => -434
  | CMD_UNKNOWN_OPT => -435
  | CMD_EXPECTED_INT => -437
  | CMD_EXPECTED_POSATIVE_NUMBER => -438
  | CMD_INPUT_OUT_OF_RANGE => -439

/-- The number of a status, as it is printed. -/
def RuntimeStatus.value : RuntimeStatus → Int
  | code status => status.value
  | ATTEMPTED_TO_READ_AT_EOF => -412

/-! ## Section 2: The state of the runtime -/

/-- The command line with `input_handler.command_buffer`. -/
structure CliRuntime extends Cli where
  command_buffer : CharBuf COMMAND_BUFFER_SIZE

/-- A function of the command line, run in the runtime. -/
def onCli {α : Type} (p : Sys Cli α) : Sys CliRuntime α :=
  Prog.zoom CliRuntime.toCli (fun rt cli => { rt with toCli := cli }) p

def onCommandBuffer {α : Type} (p : Sys (CharBuf COMMAND_BUFFER_SIZE) α) : Sys CliRuntime α :=
  Prog.zoom CliRuntime.command_buffer (fun rt buffer => { rt with command_buffer := buffer }) p

/-- A function of the terminal, with the buffer of the command. -/
def onCommandInput {α : Type} (p : Sys (InputState COMMAND_BUFFER_SIZE) α) : Sys CliRuntime α :=
  Prog.zoom (fun rt => ⟨rt.stdin, rt.command_buffer⟩)
    (fun rt s => { rt with stdin := s.stdin, command_buffer := s.buffer }) p

/-! ## Section 3: Messages -/

/-- The greeting. -/
def print_starting_instructions : Sys Cli Unit :=
  printf (ascii "When in multiline read mode(such as when you call append), " ++
    ascii "use CTRL + D on empty line to submit.\n\n")

/-- The prompt: the cached path of the current folder. -/
def print_prompt_context : Sys Cli Unit := do
  let cli ← readState
  printf (ascii "VFS:" ++ cli.workspace.cur_path.str ++ ascii "# ")

/-- `SUCCESS` is not reported. -/
def report_status (status : RuntimeStatus) : Sys Cli Unit :=
  if status = .code .SUCCESS then
    pure ()
  else
    printf (ascii "Status [" ++ ascii (toString status.value) ++ ascii "]\n")

/-! ## Section 4: The loop -/

/-- The loop of `cli_run`, `left` iterations from the end of the model. -/
def cli_loop : (left : Nat) → Sys CliRuntime RuntimeStatus
  | 0 => undefinedBehaviour .diverges
  | left + 1 => do
    let rt ← readState
    if rt.exit_flag then
      return .code .SUCCESS
    onCli print_prompt_context
    let status ← onCommandInput (new_line_terminated_read COMMAND_BUFFER_SIZE)
    if status ≠ .code .SUCCESS then
      onCli (report_status status)
      return status
    match ← attempt (onCommandBuffer cmd_parse) with
    | .error status =>
      onCli (report_status (.code status))
      cli_loop left
    | .ok cur_command =>
      let rt ← readState
      let result ← attempt (onCli
        (command_dispatch (cur_command.command rt.command_buffer) OUTPUT_BUFFER_SIZE))
      let rt ← readState
      if rt.exit_flag then
        return .code .SUCCESS
      match result with
      | .error status => onCli (report_status (.code status))
      | .ok _ => onCli (report_status (.code .SUCCESS))
      cli_loop left

/-- Every iteration reads, and only so much has been typed. -/
def cli_run : Sys CliRuntime RuntimeStatus := do
  modifyState fun rt => { rt with exit_flag := false }
  onCli print_starting_instructions
  let rt ← readState
  cli_loop (rt.stdin.length + 1)

/-! ## Section 5: The program -/

def EXIT_SUCCESS : Nat := 0
def EXIT_FAILURE : Nat := 1

/-- The exit code; the arrays are what `storage_man_create` allocates. -/
def main (storage : Nat → Byte) (allocation_map : Nat → Bool) : Sys CliRuntime Nat := do
  match ← attempt (onCli (onWorkspace
      (workspace_start storage allocation_map CHUNKS_AMOUNT))) with
  | .error _ => return EXIT_FAILURE
  | .ok _ =>
    let status ← cli_run
    if status ≠ .code .SUCCESS then
      return EXIT_FAILURE
    return EXIT_SUCCESS

end VirtualFS
