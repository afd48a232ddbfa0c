import VirtualFS.System.Settings

/-! # Commands

    The data types of `commands.h`, the table of the command functions, and the
    parser of `commands.c`. The parser cuts the command string into tokens in
    place; tokens and arguments are positions in that string.

    Reading and writing a character goes through the buffer and is undefined
    outside of it. A command keeps its numbers of options and arguments within the
    limits as fields.
-/

namespace VirtualFS

open Framework Prog

/-! ## Section 1: Commands -/

inductive CommandFunction where
  -- navigation
  | CMD_CD
  | CMD_PWD
  | CMD_LS
  | CMD_TREE
  -- file system operations
  | CMD_TOUCH
  | CMD_MKDIR
  | CMD_RM
  | CMD_RMDIR
  | CMD_MV
  | CMD_RENAME
  -- queries
  | CMD_FIND
  -- space
  | CMD_DF
  | CMD_DU
  | CMD_STAT
  -- file IO
  | CMD_CAT
  | CMD_READ
  | CMD_APPEND
  | CMD_CLEAR
  | CMD_TRUNC
  -- UI
  | CMD_HELP
  | CMD_EXIT
  deriving DecidableEq, Repr

def MAX_CMD_ARGUMENT_AMOUNT : Nat := 3
def MAX_CMD_OPTION_AMOUNT : Nat := 1

def MAX_CMD_ARGUMENT_LENGTH : Nat := MAX_NAME_LENGTH * MAX_PATH_NODES_AMOUNT

def MAX_COMMAND_LENGTH : Nat :=
  MAX_CMD_ARGUMENT_AMOUNT * MAX_CMD_ARGUMENT_LENGTH + MAX_CMD_OPTION_AMOUNT

def MAX_TOKENS_AMOUNT : Nat := 1 + MAX_CMD_ARGUMENT_AMOUNT + MAX_CMD_OPTION_AMOUNT

def COMMAND_DELIMITER : Byte := SPACE

/-- `'-'` -/
def OPTION_PREFIX : Byte := 45

/-- `Command`: the lists are the used parts of the two arrays. -/
structure Command where
  func : CommandFunction
  /-- The letters behind a dash, in their order. -/
  opts : List Byte
  /-- What the remaining words point to. -/
  args : List CString
  opts_amount_le : opts.length ≤ MAX_CMD_OPTION_AMOUNT
  args_amount_le : args.length ≤ MAX_CMD_ARGUMENT_AMOUNT

/-- The command `func arg`, without options. -/
def Command.withArg (func : CommandFunction) (arg : CString) : Command where
  func := func
  opts := []
  args := [arg]
  opts_amount_le := Nat.zero_le _
  args_amount_le := Nat.le_of_ble_eq_true rfl

def COMMAND_TABLE : List (CommandFunction × List Byte) :=
  [(.CMD_CD, ascii "cd"),
   (.CMD_PWD, ascii "pwd"),
   (.CMD_LS, ascii "ls"),
   (.CMD_TREE, ascii "tree"),
   (.CMD_TOUCH, ascii "touch"),
   (.CMD_MKDIR, ascii "mkdir"),
   (.CMD_RM, ascii "rm"),
   (.CMD_RMDIR, ascii "rmdir"),
   (.CMD_MV, ascii "mv"),
   (.CMD_RENAME, ascii "rename"),
   (.CMD_FIND, ascii "find"),
   (.CMD_DF, ascii "df"),
   (.CMD_DU, ascii "du"),
   (.CMD_STAT, ascii "stat"),
   (.CMD_CAT, ascii "cat"),
   (.CMD_READ, ascii "read"),
   (.CMD_APPEND, ascii "append"),
   (.CMD_CLEAR, ascii "clear"),
   (.CMD_TRUNC, ascii "trunc"),
   (.CMD_HELP, ascii "help"),
   (.CMD_EXIT, ascii "exit")]

def resolve_cmd_function (func_str : CString) : Except StatusCode CommandFunction :=
  if func_str.chars = [] then
    .error .CMD_IS_EMPTY
  else
    match COMMAND_TABLE.find? fun entry => func_str.chars = entry.2 with
    | some entry => .ok entry.1
    | none => .error .INVALID_CMD_FUNCTION

/-! ## Section 2: Tokens -/

section Parser

variable {n : Nat}

/-- `command_str[i]` -/
def char_at (i : Nat) : Sys (CharBuf n) Byte := do
  let command_str ← readState
  match command_str.bytes[i]? with
  | none => undefinedBehaviour .out_of_bounds
  | some c => pure c

/-- `command_str[i] = c` -/
def set_char (i : Nat) (c : Byte) : Sys (CharBuf n) Unit := do
  let command_str ← readState
  match command_str.write i [c] with
  | none => undefinedBehaviour .out_of_bounds
  | some command_str => modifyState fun _ => command_str

/-- The C string at a position of the command string. -/
def string_at (i : Nat) : Sys (CharBuf n) CString := do
  let command_str ← readState
  if (0 : Byte) ∈ command_str.bytes.drop i then
    pure (CString.ofBytes (command_str.bytes.drop i))
  else
    undefinedBehaviour .out_of_bounds

/-- The first loop of `cmd_tokenize`, `left` characters before the end. -/
def skip_delimiters : (left cur_char_index : Nat) → Sys (CharBuf n) Nat
  | 0, cur_char_index => pure cur_char_index
  | left + 1, cur_char_index => do
    let c ← char_at cur_char_index
    if c ≠ COMMAND_DELIMITER then
      pure cur_char_index
    else
      skip_delimiters left (cur_char_index + 1)

/-- The second loop of `cmd_tokenize`, `left` characters before the end. -/
def cmd_tokenize_loop (command_length tokens_capacity : Nat) :
    (left cur_char_index : Nat) → (tokens : List Nat) → Sys (CharBuf n) (List Nat)
  | 0, _, tokens => pure tokens
  | left + 1, cur_char_index, tokens => do
    let c ← char_at cur_char_index
    if c = COMMAND_DELIMITER then do
      set_char cur_char_index 0
      if cur_char_index + 1 ≥ command_length then
        -- a delimiter directly before the terminator
        pure tokens
      else do
        let next ← char_at (cur_char_index + 1)
        if next = COMMAND_DELIMITER then
          cmd_tokenize_loop command_length tokens_capacity left (cur_char_index + 1) tokens
        else if tokens.length ≥ tokens_capacity then
          returnStatus .TOO_MANY_TOKENS
        else
          cmd_tokenize_loop command_length tokens_capacity left (cur_char_index + 1)
            (tokens ++ [cur_char_index + 1])
    else
      cmd_tokenize_loop command_length tokens_capacity left (cur_char_index + 1) tokens

/-- Replaces delimiters by terminators and returns the starts of the tokens. -/
def cmd_tokenize (tokens_capacity : Nat) : Sys (CharBuf n) (List Nat) := do
  if tokens_capacity = 0 then
    returnStatus .INSUFFICIENT_ARRAY_PASSED
  let command_str ← string_at 0
  let command_length := command_str.chars.length
  if command_length = 0 then
    returnStatus .CMD_IS_EMPTY
  let cur_char_index ← skip_delimiters command_length 0
  if cur_char_index = command_length then
    returnStatus .CMD_IS_EMPTY
  cmd_tokenize_loop command_length tokens_capacity (command_length - cur_char_index)
    cur_char_index [cur_char_index]

/-! ## Section 3: Parsing -/

/-- `Command` as `cmd_parse` fills it: the arguments point into the command
    string. -/
structure ParsedCommand where
  func : CommandFunction
  opts : List Byte
  /-- Positions in the command string where the arguments start. -/
  args : List Nat
  opts_amount_le : opts.length ≤ MAX_CMD_OPTION_AMOUNT
  args_amount_le : args.length ≤ MAX_CMD_ARGUMENT_AMOUNT

/-- The command with the strings that its arguments point to. -/
def ParsedCommand.command (out_command : ParsedCommand) (command_str : CharBuf n) : Command where
  func := out_command.func
  opts := out_command.opts
  args := out_command.args.map fun arg => CString.ofBytes (command_str.bytes.drop arg)
  opts_amount_le := out_command.opts_amount_le
  args_amount_le := (List.length_map _).trans_le out_command.args_amount_le

def ParsedCommand.addOption (out_command : ParsedCommand) (opt : Byte)
    (h : out_command.opts.length ≠ MAX_CMD_OPTION_AMOUNT) : ParsedCommand :=
  { out_command with
    opts := out_command.opts ++ [opt]
    opts_amount_le := by
      rw [List.length_append]
      exact Nat.lt_of_le_of_ne out_command.opts_amount_le h }

def ParsedCommand.addArgument (out_command : ParsedCommand) (arg : Nat)
    (h : out_command.args.length ≠ MAX_CMD_ARGUMENT_AMOUNT) : ParsedCommand :=
  { out_command with
    args := out_command.args ++ [arg]
    args_amount_le := by
      rw [List.length_append]
      exact Nat.lt_of_le_of_ne out_command.args_amount_le h }

/-- The loop of `cmd_parse` over the tokens behind the first. -/
def cmd_parse_loop : (tokens : List Nat) → (out_command : ParsedCommand) →
    Sys (CharBuf n) ParsedCommand
  | [], out_command => pure out_command
  | token :: tokens, out_command => do
    let c ← char_at token
    if c = OPTION_PREFIX then
      if h : out_command.opts.length = MAX_CMD_OPTION_AMOUNT then
        returnStatus .TOO_MANY_OPTIONS
      else do
        let opt ← char_at (token + 1)
        if opt = 0 then
          returnStatus .INVALID_CMD_OPT
        let terminator ← char_at (token + 2)
        if terminator ≠ 0 then
          returnStatus .INVALID_CMD_OPT
        cmd_parse_loop tokens (out_command.addOption opt h)
    else if h : out_command.args.length = MAX_CMD_ARGUMENT_AMOUNT then
      returnStatus .TOO_MANY_ARGUMENTS
    else
      cmd_parse_loop tokens (out_command.addArgument token h)

/-- Parses the C string at the start of the buffer. -/
def cmd_parse : Sys (CharBuf n) ParsedCommand := do
  let command_str ← string_at 0
  let command_length := command_str.chars.length
  if command_length = 0 then
    returnStatus .CMD_IS_EMPTY
  if command_length > MAX_COMMAND_LENGTH then
    returnStatus .CMD_IS_TOO_LONG
  let tokens ← cmd_tokenize MAX_TOKENS_AMOUNT
  match tokens with
  | [] => returnStatus .CMD_IS_EMPTY
  | token :: tokens => do
    let func_str ← string_at token
    let func ← ofExcept (resolve_cmd_function func_str)
    cmd_parse_loop tokens ⟨func, [], [], Nat.zero_le _, Nat.zero_le _⟩

end Parser

end VirtualFS
