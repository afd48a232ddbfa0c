import VirtualFS.Cli.Commands

/-! # Help

    Model of `help.c` and of the table of hints in `help.h`.
-/

namespace VirtualFS

/-- A row of the table of hints. -/
structure HelpHint where
  func : CommandFunction
  name : List Byte
  synopsis : List Byte
  description : List Byte

/-- The hints, one for each command. -/
def HELP_HINTS_TABLE : List HelpHint :=
  [{ func := .CMD_CD
     name := ascii "Change Directory"
     synopsis := ascii "cd [TARGET_DIRECTORY_PATH]"
     description := ascii "Changes the current directory" },
   { func := .CMD_PWD
     name := ascii "Print Working Directory"
     synopsis := ascii "pwd"
     description := ascii "Prints the path of the current working directory." },
   { func := .CMD_LS
     name := ascii "List Sub-Entries"
     synopsis := ascii "ls [optional: TARGET_DIRECTORY_PATH]"
     description :=
       ascii "If TARGET_DIRECTORY_PATH is not supplied the command lists the sub-entries of " ++
       ascii "the Current Working Directory.\n" ++
       ascii "If TARGET_DIRECTORY_PATH is supplied the command lists the sub-entries of the " ++
       ascii "directory located at TARGET_DIRECTORY_PATH." },
   { func := .CMD_TREE
     name := ascii "Tree"
     synopsis := ascii "tree [optional: TARGET_DIRECTORY_PATH]"
     description :=
       ascii "If TARGET_DIRECTORY_PATH is not supplied the command lists the hierarchical " ++
       ascii "structure of the entries under the current working directory.\n" ++
       ascii "If TARGET_DIRECTORY_PATH is supplied the command lists the hierarchical " ++
       ascii "structure of the entries under directory located at TARGET_DIRECTORY_PATH." },
   { func := .CMD_TOUCH
     name := ascii "Touch"
     synopsis := ascii "touch [FILE_NAME]"
     description :=
       ascii "Creates a sub file of the current working directory with name FILE_NAME." },
   { func := .CMD_MKDIR
     name := ascii "Make Directory"
     synopsis := ascii "mkdir [DIRECTORY_NAME]"
     description :=
       ascii "Creates a sub directory of the current working directory with name " ++
       ascii "DIRECTORY_NAME." },
   { func := .CMD_RM
     name := ascii "Remove"
     synopsis := ascii "rm [TARGET_FILE_PATH]"
     description := ascii "Deletes the file located at TARGET_FILE_PATH." },
   { func := .CMD_RMDIR
     name := ascii "Remove Directory"
     synopsis := ascii "rmdir [optional: -r] [TARGET_DIRECTORY_PATH]"
     description :=
       ascii "Removes the directory at TARGET_DIRECTORY_PATH.\n" ++
       ascii "If the directory has sub entries then it will not be removed unless \"-r\" " ++
       ascii "the recursion option is supplied." },
   { func := .CMD_MV
     name := ascii "Move"
     synopsis := ascii "mv [SOURCE_PATH] [TARGET_PATH]"
     description := ascii "Moves the entry at SOURCE_PATH to the directory at TARGET_PATH." },
   { func := .CMD_RENAME
     name := ascii "Rename"
     synopsis := ascii "rename [TARGET_ENTRY_PATH] [NEW_NAME]"
     description :=
       ascii "Changes the name of the entry located at TARGET_ENTRY_PATH to NEW_NAME." },
   { func := .CMD_FIND
     name := ascii "Find"
     synopsis := ascii "find [TARGET_NAME]"
     description := ascii "Lists the paths of all the entries with the name TARGET_NAME." },
   { func := .CMD_CAT
     name := ascii "Concatenate (Legacy)"
     synopsis := ascii "cat [TARGET_FILE_PATH]"
     description := ascii "Prints all the contents of the file located at TARGET_FILE_PATH." },
   { func := .CMD_READ
     name := ascii "Read"
     synopsis := ascii "read [TARGET_FILE_PATH] [OFFSET] [AMOUNT]"
     description :=
       ascii "Reads AMOUNT number of bytes from the file located at TARGET_FILE_PATH " ++
       ascii "starting at the position OFFSET." },
   { func := .CMD_APPEND
     name := ascii "Append"
     synopsis := ascii "append [TARGET_FILE_PATH]"
     description :=
       ascii "Starts a multiline prompt. Press CTRL + D to submit.\n" ++
       ascii "Writes data submitted onto the end of the file located at TARGET_FILE_PATH." },
   { func := .CMD_CLEAR
     name := ascii "Clear"
     synopsis := ascii "clear [TARGET_FILE_PATH]"
     description := ascii "Deletes all the data stored in the file located at TARGET_FILE_PATH." },
   { func := .CMD_TRUNC
     name := ascii "Truncate"
     synopsis := ascii "trunc [TARGET_FILE_PATH] [AMOUNT]"
     description :=
       ascii "Removes AMOUNT number of bytes from the end of the file located at " ++
       ascii "TARGET_FILE_PATH.\n" ++
       ascii "*Note: As of now, Truncate removes storage bytes not logical bytes which " ++
       ascii "means the empty bytes allocated at the end of a file count." },
   { func := .CMD_HELP
     name := ascii "help"
     synopsis := ascii "help [COMMAND_FUNCTION]"
     description := ascii "(;" }]

/-- The hint of a command function. -/
def get_command_function_help_hint (command_function : CommandFunction) :
    Except StatusCode HelpHint :=
  match HELP_HINTS_TABLE.find? fun hint => hint.func = command_function with
  | some hint => .ok hint
  | none => .error .COMMAND_FUNCTION_NOT_FOUND

/-- The text that is printed. -/
def print_help_hint_format (help_hint : HelpHint) : List Byte :=
  ascii "Name\n   " ++ help_hint.name ++ ascii "\n\nSynopsis\n   " ++ help_hint.synopsis ++
    ascii "\n\nDescription\n   " ++ help_hint.description ++ ascii "\n"

/-- The hint for a function given by its name. -/
def print_str_command_function_help_hint (command_function_string : CString) :
    Except StatusCode (List Byte) := do
  let command_function ← resolve_cmd_function command_function_string
  let help_hint ← get_command_function_help_hint command_function
  return print_help_hint_format help_hint

end VirtualFS
