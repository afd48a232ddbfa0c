import VirtualFS.Cli.CommandExec

/-! # Command Dispatcher

    Model of `command_dispatcher.c` and of the tables in `command_dispatcher.h`.

    The executers are found in two tables, one of them for the executers that are
    handed the length of a buffer. `exit` is handled before the tables are
    searched; `df`, `du` and `stat` are in neither of them.
-/

namespace VirtualFS

open Framework Prog

/-- Bytes of the buffer that `cat` and `read` print from. -/
def OUTPUT_BUFFER_SIZE : Nat := 1024

/-- The executers that take the command alone. -/
def CMD_ARGUMENT_BASED_FUNCTIONS_TABLE : List (CommandFunction × (Command → Sys Cli Unit)) :=
  [(.CMD_CD, cmd_cd_exec),
   (.CMD_PWD, cmd_pwd_exec),
   (.CMD_LS, cmd_ls_exec),
   (.CMD_TOUCH, cmd_touch_exec),
   (.CMD_MKDIR, cmd_mkdir_exec),
   (.CMD_RM, cmd_rm_exec),
   (.CMD_RMDIR, cmd_rmdir_exec),
   (.CMD_MV, cmd_mv_exec),
   (.CMD_RENAME, cmd_rename_exec),
   (.CMD_CLEAR, cmd_clear_exec),
   (.CMD_TRUNC, cmd_trunc_exec),
   (.CMD_FIND, cmd_find_exec),
   (.CMD_TREE, cmd_tree_exec),
   (.CMD_HELP, cmd_help_exec)]

/-- These executers take the length of the buffer they are handed. -/
def CMD_PAYLOAD_BASED_FUNCTIONS_TABLE :
    List (CommandFunction × (Command → Nat → Sys Cli Unit)) :=
  [(.CMD_APPEND, cmd_append_exec),
   (.CMD_CAT, cmd_cat_exec),
   (.CMD_READ, cmd_read_exec)]

/-- Commands whose data is typed behind them. -/
def MULTI_LINE_READ_PROMPTING_FUNCTIONS : List CommandFunction := [.CMD_APPEND]

/-- Commands that print data of files. -/
def DATA_OUTPUTING_FUNCTIONS : List CommandFunction := [.CMD_CAT, .CMD_READ]

def is_data_outputting (command_func : CommandFunction) : Bool :=
  DATA_OUTPUTING_FUNCTIONS.contains command_func

def is_multi_line_read_prompting (command_func : CommandFunction) : Bool :=
  MULTI_LINE_READ_PROMPTING_FUNCTIONS.contains command_func

/-- Looks the executer of a command up and runs it. -/
def command_dispatch (cmd : Command) (output_buffer_size : Nat) : Sys Cli Unit :=
  if cmd.func = .CMD_EXIT then
    cmd_exit_exec cmd
  else
    match CMD_ARGUMENT_BASED_FUNCTIONS_TABLE.lookup cmd.func with
    | some executor_function => executor_function cmd
    | none =>
      match CMD_PAYLOAD_BASED_FUNCTIONS_TABLE.lookup cmd.func with
      | none => returnStatus .COMMAND_FUNCTION_NOT_FOUND
      | some executor_function =>
        if is_multi_line_read_prompting cmd.func then
          executor_function cmd INPUT_DATA_BUFFER_SIZE
        else if is_data_outputting cmd.func then
          executor_function cmd output_buffer_size
        else
          returnStatus .COMMAND_FUNCTION_NOT_FOUND

end VirtualFS
