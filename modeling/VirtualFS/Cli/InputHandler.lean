import VirtualFS.System.Settings

/-! # Input Handler

    Model of `input_handler.c`. The terminal is the sequence of what its reads
    yield; a read takes at most as many bytes as it asks for, and leaves the rest
    of the line for the next one.

    `multi_line_read` collects lines until an empty read, `new_line_terminated_read`
    takes one line and cuts its line break off. A read that fails yields nothing
    and is told apart from the end of the input by its status.
-/

namespace VirtualFS

open Framework Prog

/-- Limits of the data that is typed behind a command. -/
def MAX_MULTI_LINE_INPUT_LINES_AMOUNT : Nat := 16
def MAX_MULTI_LINE_INPUT_LINE_LENGTH : Nat := 256

/-- Room for as many lines of that length. -/
def INPUT_DATA_BUFFER_SIZE : Nat :=
  MAX_MULTI_LINE_INPUT_LINE_LENGTH * MAX_MULTI_LINE_INPUT_LINES_AMOUNT

/-- What the terminal yields at once: a line, which is empty at the end of the
    input, or an error. -/
inductive TerminalEvent where
  /-- The bytes of a line, with its line break if there was one. -/
  | line (bytes : List Byte)
  /-- `read` returns a negative amount. -/
  | error
  deriving DecidableEq

/-- The terminal and the array that input is collected in. -/
structure InputState (n : Nat) where
  stdin : List TerminalEvent
  buffer : CharBuf n

variable {size : Nat}

/-- `read(STDIN_FILENO, _, count)`: `none` if the amount is negative. -/
def read (count : Nat) : Sys (InputState size) (Option (List Byte)) := do
  let s ← readState
  match s.stdin with
  | [] => return some []
  | .error :: rest =>
    modifyState fun s => { s with stdin := rest }
    return none
  | .line bytes :: rest =>
    if bytes.length ≤ count then
      modifyState fun s => { s with stdin := rest }
      return some bytes
    else
      modifyState fun s => { s with stdin := .line (bytes.drop count) :: rest }
      return some (bytes.take count)

/-- Copy `data` into the array; undefined if it leaves the array. -/
def write_input (pos : Nat) (data : List Byte) : Sys (InputState size) Unit := do
  let s ← readState
  match s.buffer.write pos data with
  | none => undefinedBehaviour .out_of_bounds
  | some buffer => modifyState fun s => { s with buffer := buffer }

/-- The loop of `multi_line_read`, `n` iterations from its end. -/
def multi_line_read_loop (buffer_size : Nat) :
    (n cur_input_buffer_pos : Nat) → Sys (InputState size) Nat
  | 0, _ => returnStatus .TOO_MANY_LINES
  | n + 1, cur_input_buffer_pos => do
    -- one byte more than a line may have, so that an overflow shows
    match ← read (MAX_MULTI_LINE_INPUT_LINE_LENGTH + 1) with
    | none => returnStatus .READ_ERROR
    | some line_buffer =>
      if line_buffer.length = 0 then
        write_input cur_input_buffer_pos [0]
        return cur_input_buffer_pos
      if line_buffer.length = MAX_MULTI_LINE_INPUT_LINE_LENGTH + 1 then
        returnStatus .INPUT_LINE_IS_TOO_LONG
      if sizeAdd line_buffer.length cur_input_buffer_pos > sizeSub buffer_size 1 then
        returnStatus .INPUT_BUFFER_OVER_FLOW
      write_input cur_input_buffer_pos line_buffer
      multi_line_read_loop buffer_size n (cur_input_buffer_pos + line_buffer.length)

/-- Returns the amount of bytes before the terminator. -/
def multi_line_read (buffer_size : Nat) : Sys (InputState size) Nat :=
  multi_line_read_loop buffer_size MAX_MULTI_LINE_INPUT_LINES_AMOUNT 0

/-- Room for a command line, its terminator included. -/
def COMMAND_BUFFER_SIZE : Nat := 256

/-- `'\n'` -/
def NEW_LINE : Byte := 10

/-- The status of a call that reads commands: one of the codes that the layers below
    return, or that the input has ended. -/
inductive RuntimeStatus where
  /-- A status of the layers below. -/
  | code (status : StatusCode)
  /-- The input has ended. -/
  | ATTEMPTED_TO_READ_AT_EOF
  deriving DecidableEq, Repr

/-- Reads a line and terminates it; the last byte of the buffer is there to detect an
    overflow. -/
def new_line_terminated_read (buffer_length : Nat) : Sys (InputState size) RuntimeStatus := do
  if buffer_length = 0 then
    return .code .INSUFFICIENT_ARRAY_PASSED
  match ← read buffer_length with
  | none => return .code .READ_ERROR
  | some bytes =>
    -- `read` stores the bytes
    write_input 0 bytes
    if bytes.length = 0 then
      return .ATTEMPTED_TO_READ_AT_EOF
    if bytes.length = buffer_length then
      return .code .INPUT_BUFFER_OVER_FLOW
    if bytes.getLast? = some NEW_LINE then
      write_input (bytes.length - 1) [0]
    else
      write_input bytes.length [0]
    return .code .SUCCESS

end VirtualFS
