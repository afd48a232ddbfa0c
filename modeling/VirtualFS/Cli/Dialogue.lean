import VirtualFS.Cli.CarriedOperations

/-! # Dialogues

    A whole run of the command line. The lines that it answers, and the status that
    it ends with, are functions of what is typed. For each line there is an exchange:
    the operation that the line asks for is run on the workspace, once, and its reply
    or its failing status is printed behind the prompt.

    * `typed`: the lines, and the status that the input ends with.
    * `Converses`: what a dialogue does to the workspace and what it prints.
    * `cli_run_follows`: the loop is the dialogue of what is typed.

    The proof follows one round of the loop at a time. What a round prints and does
    to the workspace is an `Exchange`; the rounds that are left are the dialogue of
    the input that is left.
-/

namespace VirtualFS

open Framework Prog Outcome

variable {ws ws' ws'' : Workspace} {rt rt' : CliRuntime} {cmd : Command} {op : WsOp}
  {stdin rest behind : List TerminalEvent} {left : Nat} {printed out text : List Byte}
  {items : List TypedLine} {trace : List (WsOp × Option Reply)} {ending : RuntimeStatus}

/-! ## Section 1: What is typed -/

/-- A line that the loop goes on after. -/
inductive TypedLine where
  /-- No command is spelled. -/
  | unspelled (line : CString)
  /-- A command, and what is typed behind it. -/
  | command (cmd : Command) (behind : List TerminalEvent)

/-- The operation that the line asks for. -/
def TypedLine.asked : TypedLine → Option WsOp
  | unspelled _ => none
  | command cmd behind => cmd.operation (cmd.input behind).1

/-- The lines that are answered, in order, and the status that the loop ends with; `left`
    lines from the end. -/
def dialogue : (left : Nat) → (stdin : List TerminalEvent) → List TypedLine × RuntimeStatus
  | 0, _ => ([], .ATTEMPTED_TO_READ_AT_EOF)
  | _ + 1, [] => ([], .ATTEMPTED_TO_READ_AT_EOF)
  | _ + 1, .error :: _ => ([], .code .READ_ERROR)
  | left + 1, .line bytes :: rest =>
    if bytes = [] then
      ([], .ATTEMPTED_TO_READ_AT_EOF)
    else if COMMAND_BUFFER_SIZE ≤ bytes.length then
      ([], .code .INPUT_BUFFER_OVER_FLOW)
    else
      match commandOf (lineString bytes) with
      | none =>
        let next := dialogue left rest
        (.unspelled (lineString bytes) :: next.1, next.2)
      | some cmd =>
        if cmd.exits then
          ([], .code .SUCCESS)
        else
          -- an `append` has read some of the lines behind it
          let next := dialogue left (cmd.input rest).2
          (.command cmd rest :: next.1, next.2)

/-- All that has been typed. -/
def typed (stdin : List TerminalEvent) : List TypedLine × RuntimeStatus :=
  dialogue (stdin.length + 1) stdin

/-- `strtol` returns `LONG_MAX` where a number is larger. -/
theorem strtol_le (s : List Byte) : (strtol s).value ≤ LONG_MAX := by
  have hzero : (0 : Int) ≤ LONG_MAX := by decide
  have hclamp : ∀ (value : Int) (rest : List Byte),
      (if LONG_MAX < value then ⟨LONG_MAX, rest, true⟩
        else if value < LONG_MIN then ⟨LONG_MIN, rest, true⟩
        else ⟨value, rest, false⟩ : StrtolResult).value ≤ LONG_MAX := by
    intro value rest
    split
    · exact Int.le_refl _
    · next hmax =>
      split
      · exact (by decide : LONG_MIN ≤ LONG_MAX)
      · exact Int.not_lt.mp hmax
  unfold strtol
  split
  next negative rest _ =>
    dsimp only
    split
    · exact hzero
    · exact hclamp _ _

theorem decimal_lt {s : CString} {k : Nat} (h : decimal s = some k) : k < SIZE_T_RANGE := by
  obtain ⟨-, -, hvalue⟩ := decimal_eq_some_iff.mp h
  have hle := strtol_le s.chars
  have hmax : LONG_MAX < (SIZE_T_RANGE : Int) := by decide
  omega

/-- What can be typed is in the range of `size_t`. -/
theorem operation_inRange {data : Option (List Byte)} (h : cmd.operation data = some op) :
    op.InRange := by
  have hone : ∀ {f : CString → WsOp}, cmd.oneArg f = some op → (∀ arg, (f arg).InRange) →
      op.InRange := by
    intro f hop hf
    unfold Command.oneArg at hop
    split at hop
    · cases hop
      exact hf _
    · cases hop
  have htwo : ∀ {f : CString → CString → WsOp}, cmd.twoArgs f = some op →
      (∀ arg arg', (f arg arg').InRange) → op.InRange := by
    intro f hop hf
    unfold Command.twoArgs at hop
    split at hop
    · cases hop
      exact hf _ _
    · cases hop
  unfold Command.operation at h
  split at h
  · exact hone h fun _ => trivial
  · cases h
  · unfold Command.listing at h
    split at h
    · cases h
      trivial
    · cases h
  · cases h
  · exact hone h fun _ => trivial
  · exact hone h fun _ => trivial
  · exact hone h fun _ => trivial
  · unfold Command.removal at h
    split at h
    · cases h
      trivial
    · split at h
      · cases h
        trivial
      · cases h
    · cases h
  · exact htwo h fun _ _ => trivial
  · exact htwo h fun _ _ => trivial
  · exact hone h fun _ => trivial
  · cases h
  · cases h
  · cases h
  · exact hone h fun _ => trivial
  · -- the numbers of `read`
    unfold Command.reading at h
    split at h
    · next path offset amount _ _ =>
      split at h
      · next o a ho ha =>
        split at h
        · cases h
        · cases h
          exact ⟨decimal_lt ho, decimal_lt ha⟩
      · cases h
    · cases h
  · cases data with
    | none => cases h
    | some data =>
      unfold Command.appending at h
      simp only at h
      split at h
      · cases h
      · exact hone h fun _ => trivial
  · exact hone h fun _ => trivial
  · unfold Command.truncation at h
    split at h
    · next path amount _ _ =>
      obtain ⟨k, -, rfl⟩ := Option.map_eq_some_iff.mp h
      trivial
    · cases h
  · cases h
  · cases h

/-! ## Section 2: What is printed -/

def promptText (ws : Workspace) : List Byte := ascii "VFS:" ++ ws.cur_path.str ++ ascii "# "

/-- Statuses are reported by their numbers, but for `SUCCESS`. -/
def reportText (status : RuntimeStatus) : List Byte :=
  if status = .code .SUCCESS then []
  else ascii "Status [" ++ ascii (toString status.value) ++ ascii "]\n"

def greetingText : List Byte :=
  ascii "When in multiline read mode(such as when you call append), " ++
    ascii "use CTRL + D on empty line to submit.\n\n"

/-- What a line does to the workspace, as it is observed, and what is printed for it. -/
inductive Exchange (ws : Workspace) :
    TypedLine → List (WsOp × Option Reply) → List Byte → Workspace → Prop where
  /-- The parser has refused the line, and its status is reported. -/
  | refused {line : CString} {buf buf' : CharBuf COMMAND_BUFFER_SIZE} {tail : List Byte}
      {e : StatusCode} (hbuf : buf.bytes = line.chars ++ 0 :: tail)
      (hparse : cmd_parse buf = .fail e buf') :
      Exchange ws (.unspelled line) [] (reportText (.code e)) ws
  /-- The operation has been run, and its reply is printed. -/
  | answered {cmd : Command} {behind : List TerminalEvent} {op : WsOp} {reply : Reply}
      {ws' : Workspace} (hasked : (TypedLine.command cmd behind).asked = some op)
      (hstep : observedSystem.step ws (op, some reply) ws') (hdeep : ¬ FindsTooDeep ws cmd op) :
      Exchange ws (.command cmd behind) [(op, some reply)] (cmd.rendering reply) ws'
  /-- The operation has failed, and its status is reported. -/
  | declined {cmd : Command} {behind : List TerminalEvent} {op : WsOp} {e : StatusCode}
      {ws' : Workspace} (hasked : (TypedLine.command cmd behind).asked = some op)
      (hin : op.InRange) (hfail : op.exec ws = .fail e ws') :
      Exchange ws (.command cmd behind) [(op, none)] (reportText (.code e)) ws'
  /-- The command has succeeded without an operation. -/
  | said {cmd : Command} {said : List Byte} {cli cli' : Cli} (hws : cli.workspace = ws)
      (hasked : (TypedLine.command cmd cli.stdin).asked = none)
      (hok : command_dispatch cmd OUTPUT_BUFFER_SIZE cli = .ok () cli') (hsaid : cmd.Says ws said) :
      Exchange ws (.command cmd cli.stdin) [] said ws
  /-- The command has failed without an operation, and its status is reported. -/
  | muttered {cmd : Command} {said : List Byte} {e : StatusCode} {cli cli' : Cli}
      (hws : cli.workspace = ws) (hasked : (TypedLine.command cmd cli.stdin).asked = none)
      (hfail : command_dispatch cmd OUTPUT_BUFFER_SIZE cli = .fail e cli')
      (hsaid : cmd.Mutters said) :
      Exchange ws (.command cmd cli.stdin) [] (said ++ reportText (.code e)) ws

/-- The exchanges of a dialogue, each behind a prompt with the path of the current folder. -/
inductive Converses :
    Workspace → List TypedLine → List (WsOp × Option Reply) → List Byte → Workspace → Prop where
  | done (ws : Workspace) : Converses ws [] [] [] ws
  | line {ws ws' ws'' : Workspace} {item : TypedLine} {items : List TypedLine}
      {trace trace' : List (WsOp × Option Reply)} {text out : List Byte}
      (hline : Exchange ws item trace text ws') (hrest : Converses ws' items trace' out ws'') :
      Converses ws (item :: items) (trace ++ trace') (promptText ws ++ text ++ out) ws''

/-- An exchange is a step of the observed workspace, or none. -/
theorem Exchange.steps {item : TypedLine} (h : Exchange ws item trace text ws') :
    observedSystem.Steps ws trace ws' := by
  cases h with
  | refused hbuf hparse => exact System.Steps.nil _
  | answered hasked hstep hdeep => exact System.Steps.cons _ [] hstep (System.Steps.nil _)
  | declined hasked hin hfail =>
    exact System.Steps.cons _ [] ⟨hin, _, hfail⟩ (System.Steps.nil _)
  | said hws hasked hok hsaid => exact System.Steps.nil _
  | muttered hws hasked hfail hsaid => exact System.Steps.nil _

theorem Exchange.operations {item : TypedLine} (h : Exchange ws item trace text ws') :
    trace.map Prod.fst = item.asked.toList := by
  cases h with
  | refused hbuf hparse => rfl
  | answered hasked hstep hdeep => rw [hasked]; rfl
  | declined hasked hin hfail => rw [hasked]; rfl
  | said hws hasked hok hsaid => rw [hasked]; rfl
  | muttered hws hasked hfail hsaid => rw [hasked]; rfl

/-- A dialogue is a run of the observed workspace. -/
theorem Converses.steps (h : Converses ws items trace out ws') :
    observedSystem.Steps ws trace ws' := by
  -- On the exchanges; a line without an operation takes no step.
  induction h with
  | done ws => exact System.Steps.nil ws
  | line hline _ ih => exact hline.steps.append ih

/-- Its operations are those that the lines ask for, each once and in their order. -/
theorem Converses.operations (h : Converses ws items trace out ws') :
    trace.map Prod.fst = items.filterMap TypedLine.asked := by
  -- Each exchange takes the operations that its line stands for, in the order of the lines.
  induction h with
  | done ws => rfl
  | @line ws ws' ws'' item items trace trace' text out hline _ ih =>
    rw [List.map_append, hline.operations, ih, List.filterMap_cons]
    cases item.asked with
    | none => rfl
    | some op => rfl

theorem workspaceSound_of_observed (hws : WorkspaceSound ws)
    (h : observedSystem.Steps ws trace ws') : WorkspaceSound ws' := by
  -- Soundness is kept by every step.
  induction h with
  | nil ws => exact hws
  | @cons ws ws' ws'' label trace hstep _ ih =>
    apply ih
    obtain ⟨op, reply⟩ := label
    obtain ⟨-, hstep⟩ := hstep
    cases reply with
    | some reply =>
      obtain ⟨result, hrun, -⟩ := hstep
      exact (WsOp.exec_step hws (congrArg final hrun)).workspaceSound hws
    | none =>
      obtain ⟨e, hrun⟩ := hstep
      exact (WsOp.exec_step hws (congrArg final hrun)).workspaceSound hws

/-! ## Section 3: Iterations -/

/-- What the loop returns has come out of the dialogue. It gets stuck only at a line that
    asks for an operation without a defined end, or at a `find` of an entry that is too deep
    to be printed. -/
def Follows (ws : Workspace) (printed : List Byte) (items : List TypedLine)
    (ending : RuntimeStatus) (outcome : Outcome StatusCode Fault CliRuntime RuntimeStatus) :
    Prop :=
  outcome.Sat
    (fun status rt => status = ending ∧ ∃ trace out,
      Converses ws items trace out rt.workspace ∧
      trace.map Prod.fst = items.filterMap TypedLine.asked ∧
      rt.stdout = printed ++ out ++ promptText rt.workspace ++ reportText ending)
    (fun _ _ => False)
    (fun _ => ∃ before cmd behind after trace out ws' op,
      items = before ++ .command cmd behind :: after ∧ Converses ws before trace out ws' ∧
      (TypedLine.command cmd behind).asked = some op ∧
      ((op.exec ws').final = none ∨ FindsTooDeep ws' cmd op))

/-- **Rule for lines**: one exchange, then the rest of the dialogue. -/
theorem Follows.line {item : TypedLine}
    {outcome : Outcome StatusCode Fault CliRuntime RuntimeStatus}
    (hline : Exchange ws item trace text ws')
    (h : Follows ws' (printed ++ promptText ws ++ text) items ending outcome) :
    Follows ws printed (item :: items) ending outcome := by
  unfold Follows at h ⊢
  apply h.mono
  · rintro status rt ⟨hstatus, trace', out, hrest, -, hstdout⟩
    have hlines := Converses.line hline hrest
    refine ⟨hstatus, _, _, hlines, hlines.operations, ?_⟩
    rw [hstdout]
    simp only [List.append_assoc]
  · exact fun _ _ h => h
  · rintro _ ⟨before, cmd, behind, after, trace', out, ws'', op, rfl, hrest, hstuck⟩
    exact ⟨item :: before, cmd, behind, after, _, _, ws'', op, rfl, .line hline hrest, hstuck⟩

/-- **Rule for the end**: the last prompt has no line behind it that is answered. -/
theorem follows_of_return {status : RuntimeStatus}
    (hstdout : rt.stdout = printed ++ promptText rt.workspace ++ reportText status) :
    Follows rt.workspace printed [] status (.ok status rt) := by
  refine ⟨rfl, [], [], .done _, rfl, ?_⟩
  rw [hstdout, List.append_nil]

theorem report_status_run (status : RuntimeStatus) (rt : CliRuntime) :
    onCli (report_status status) rt =
      .ok () { rt with stdout := rt.stdout ++ reportText status } := by
  unfold report_status reportText onCli
  rw [zoom_run]
  by_cases hstatus : status = .code .SUCCESS
  · rw [if_pos hstatus, if_pos hstatus, List.append_nil]
    rfl
  · rw [if_neg hstatus, if_neg hstatus]
    rfl

theorem print_prompt_context_run (rt : CliRuntime) :
    onCli print_prompt_context rt =
      .ok () { rt with stdout := rt.stdout ++ promptText rt.workspace } := rfl

/-- The end of an iteration that has dispatched a command. -/
def finish_iteration (left : Nat) (result : Except StatusCode Unit) :
    Sys CliRuntime RuntimeStatus := do
  let rt ← readState
  if rt.exit_flag then
    return .code .SUCCESS
  match result with
  | .error status => onCli (report_status (.code status))
  | .ok _ => onCli (report_status (.code .SUCCESS))
  cli_loop left

/-- An iteration from its command on. -/
def dispatch_iteration (left : Nat) (cur_command : ParsedCommand) :
    Sys CliRuntime RuntimeStatus := do
  let rt ← readState
  let result ← attempt (onCli
    (command_dispatch (cur_command.command rt.command_buffer) OUTPUT_BUFFER_SIZE))
  finish_iteration left result

/-- An iteration from the line that has been read on. -/
def parse_iteration (left : Nat) : Sys CliRuntime RuntimeStatus := do
  match ← attempt (onCommandBuffer cmd_parse) with
  | .error status =>
    onCli (report_status (.code status))
    cli_loop left
  | .ok cur_command => dispatch_iteration left cur_command

theorem parse_iteration_of_ok (left : Nat) {cur_command : ParsedCommand}
    {buf : CharBuf COMMAND_BUFFER_SIZE}
    (hparse : cmd_parse rt.command_buffer = .ok cur_command buf) :
    parse_iteration left rt =
      dispatch_iteration left cur_command { rt with command_buffer := buf } := by
  have hrun : (onCommandBuffer cmd_parse : Sys CliRuntime _) rt =
      .ok cur_command { rt with command_buffer := buf } := by
    unfold onCommandBuffer
    rw [zoom_run, hparse]
    rfl
  unfold parse_iteration
  rw [bind_run, attempt_of_ok hrun]
  rfl

theorem parse_iteration_of_fail (left : Nat) {e : StatusCode} {buf : CharBuf COMMAND_BUFFER_SIZE}
    (hparse : cmd_parse rt.command_buffer = .fail e buf) :
    parse_iteration left rt = (do
      onCli (report_status (.code e))
      cli_loop left : Sys CliRuntime RuntimeStatus) { rt with command_buffer := buf } := by
  have hrun : (onCommandBuffer cmd_parse : Sys CliRuntime _) rt =
      .fail e { rt with command_buffer := buf } := by
    unfold onCommandBuffer
    rw [zoom_run, hparse]
    rfl
  unfold parse_iteration
  rw [bind_run, attempt_of_fail hrun]
  rfl

theorem dispatch_iteration_of_ok (left : Nat) {cur_command : ParsedCommand} {u : Unit} {cli' : Cli}
    (hcmd : cur_command.command rt.command_buffer = cmd)
    (hrun : command_dispatch cmd OUTPUT_BUFFER_SIZE rt.toCli = .ok u cli') :
    dispatch_iteration left cur_command rt =
      finish_iteration left (.ok u) { rt with toCli := cli' } := by
  have hok : onCli (command_dispatch cmd OUTPUT_BUFFER_SIZE) rt =
      .ok u { rt with toCli := cli' } := by
    unfold onCli
    rw [zoom_run, hrun]
    rfl
  unfold dispatch_iteration
  rw [bind_run, readState_run, bind_ok, hcmd, bind_run, attempt_of_ok hok]
  rfl

theorem dispatch_iteration_of_fail (left : Nat) {cur_command : ParsedCommand} {e : StatusCode}
    {cli' : Cli} (hcmd : cur_command.command rt.command_buffer = cmd)
    (hrun : command_dispatch cmd OUTPUT_BUFFER_SIZE rt.toCli = .fail e cli') :
    dispatch_iteration left cur_command rt =
      finish_iteration left (.error e) { rt with toCli := cli' } := by
  have hfail : onCli (command_dispatch cmd OUTPUT_BUFFER_SIZE) rt =
      .fail e { rt with toCli := cli' } := by
    unfold onCli
    rw [zoom_run, hrun]
    rfl
  unfold dispatch_iteration
  rw [bind_run, readState_run, bind_ok, hcmd, bind_run, attempt_of_fail hfail]
  rfl

theorem dispatch_iteration_of_fault (left : Nat) {cur_command : ParsedCommand} {x : Fault}
    (hcmd : cur_command.command rt.command_buffer = cmd)
    (hrun : command_dispatch cmd OUTPUT_BUFFER_SIZE rt.toCli = .fault x) :
    dispatch_iteration left cur_command rt = .fault x := by
  have hfault : onCli (command_dispatch cmd OUTPUT_BUFFER_SIZE) rt = .fault x := by
    unfold onCli
    rw [zoom_run, hrun]
    rfl
  unfold dispatch_iteration
  rw [bind_run, readState_run, bind_ok, hcmd, bind_run, attempt_of_fault hfault]
  rfl

theorem cli_loop_eq (left : Nat) (hexit : rt.exit_flag = false) :
    cli_loop (left + 1) rt = (do
      onCli print_prompt_context
      let status ← onCommandInput (new_line_terminated_read COMMAND_BUFFER_SIZE)
      if status ≠ .code .SUCCESS then
        onCli (report_status status)
        return status
      parse_iteration left : Sys CliRuntime RuntimeStatus) rt := by
  rw [cli_loop, bind_run, readState_run, bind_ok]
  simp only [hexit, Bool.false_eq_true, if_false]
  rfl

/-- A failing status is reported before the loop goes on. -/
theorem finish_iteration_error (left : Nat) (e : StatusCode) (hexit : rt.exit_flag = false) :
    finish_iteration left (.error e) rt =
      cli_loop left { rt with stdout := rt.stdout ++ reportText (.code e) } := by
  have hflag : ¬ rt.exit_flag = true := by simp [hexit]
  unfold finish_iteration
  rw [bind_run, readState_run, bind_ok, if_neg hflag]
  show (onCli (report_status (.code e)) >>= fun _ => cli_loop left) rt = _
  rw [bind_run, report_status_run]
  rfl

theorem finish_iteration_ok (left : Nat) (u : Unit) (hexit : rt.exit_flag = false) :
    finish_iteration left (.ok u) rt = cli_loop left rt := by
  have hflag : ¬ rt.exit_flag = true := by simp [hexit]
  unfold finish_iteration
  rw [bind_run, readState_run, bind_ok, if_neg hflag]
  show (onCli (report_status (.code .SUCCESS)) >>= fun _ => cli_loop left) rt = _
  rw [bind_run, report_status_run]
  have hnothing : reportText (.code .SUCCESS) = [] := if_pos rfl
  rw [hnothing, List.append_nil]
  rfl

/-- The command that ends the session. -/
theorem exit_dispatch (h : cmd.exits = true) (output_buffer_size : Nat) (cli : Cli) :
    command_dispatch cmd output_buffer_size cli = .ok () { cli with exit_flag := true } := by
  simp only [Command.exits, Bool.and_eq_true, decide_eq_true_eq, List.isEmpty_iff] at h
  obtain ⟨⟨hfunc, hopts⟩, hargs⟩ := h
  simp [command_dispatch, hfunc, cmd_exit_exec, check_amounts, hopts, hargs]

theorem exists_shows {result : WsResult} (hws : WorkspaceSound ws) (hin : op.InRange)
    (hrun : op.exec ws = .ok result ws') : ∃ reply, ws.Shows result reply := by
  obtain ⟨reply, hstep⟩ := exists_observation hws hin (congrArg final hrun)
  obtain ⟨-, hstep⟩ := hstep
  cases reply with
  | none =>
    obtain ⟨e, hfail⟩ := hstep
    rw [hrun] at hfail
    cases hfail
  | some reply =>
    obtain ⟨result', hok, hshows⟩ := hstep
    rw [hrun] at hok
    cases hok
    exact ⟨reply, hshows⟩

/-- What a command does that succeeds is its exchange. -/
theorem exchange_of_answers {cli cli' : Cli} {u : Unit} (hws : WorkspaceSound cli.workspace)
    (hrun : command_dispatch cmd OUTPUT_BUFFER_SIZE cli = .ok u cli')
    (h : cli.Answers cmd (cmd.operation (cmd.input cli.stdin).1) rest cli') :
    ∃ trace text, Exchange cli.workspace (.command cmd cli.stdin) trace text cli'.workspace ∧
      cli'.stdout = cli.stdout ++ text := by
  obtain ⟨-, -, hran⟩ := h
  -- With an operation its reply is observed; without one the text is the command's own.
  cases hasked : cmd.operation (cmd.input cli.stdin).1 with
  | none =>
    rw [hasked] at hran
    obtain ⟨hsame, said, hsaid, hstdout⟩ := hran
    refine ⟨[], said, ?_, hstdout⟩
    rw [hsame]
    exact .said rfl hasked hrun hsaid
  | some op =>
    rw [hasked] at hran
    obtain ⟨hdeep, result, hexec, hprints⟩ := hran
    have hin := operation_inRange hasked
    obtain ⟨reply, hshows⟩ := exists_shows hws hin hexec
    exact ⟨_, _, .answered hasked ⟨hin, result, hexec, hshows⟩ hdeep, hprints reply hshows⟩

/-- What a command does that fails, with the report of its status, is its exchange. -/
theorem exchange_of_declines {cli cli' : Cli} {e : StatusCode}
    (hrun : command_dispatch cmd OUTPUT_BUFFER_SIZE cli = .fail e cli')
    (h : cli.Declines cmd (cmd.operation (cmd.input cli.stdin).1) rest e cli') :
    ∃ trace text, Exchange cli.workspace (.command cmd cli.stdin) trace text cli'.workspace ∧
      cli'.stdout ++ reportText (.code e) = cli.stdout ++ text := by
  obtain ⟨-, -, hran⟩ := h
  cases hasked : cmd.operation (cmd.input cli.stdin).1 with
  | none =>
    rw [hasked] at hran
    obtain ⟨hsame, said, hsaid, hstdout⟩ := hran
    refine ⟨[], said ++ reportText (.code e), ?_, ?_⟩
    · rw [hsame]
      exact .muttered rfl hasked hrun hsaid
    · rw [hstdout, List.append_assoc]
  | some op =>
    rw [hasked] at hran
    obtain ⟨hexec, hstdout⟩ := hran
    refine ⟨_, _, .declined hasked (operation_inRange hasked) hexec, ?_⟩
    rw [hstdout]

/-- **Dispatching**: a command that has been typed behind a prompt is answered, and the loop
    goes on behind what the command has read. -/
theorem dispatch_iteration_follows (hws : WorkspaceSound rt.workspace)
    (hexit : rt.exit_flag = false) (hprompt : rt.stdout = printed ++ promptText rt.workspace)
    {cur_command : ParsedCommand} (hcmd : cur_command.command rt.command_buffer = cmd)
    (hnext : ∀ rt' : CliRuntime, WorkspaceSound rt'.workspace → rt'.exit_flag = false →
      rt'.stdin = (cmd.input rt.stdin).2 →
      Follows rt'.workspace rt'.stdout (dialogue left (cmd.input rt.stdin).2).1
        (dialogue left (cmd.input rt.stdin).2).2 (cli_loop left rt')) :
    Follows rt.workspace printed
      (if cmd.exits then [] else .command cmd rt.stdin :: (dialogue left (cmd.input rt.stdin).2).1)
      (if cmd.exits then .code .SUCCESS else (dialogue left (cmd.input rt.stdin).2).2)
      (dispatch_iteration left cur_command rt) := by
  have hcarries : rt.toCli.Carries (command_dispatch cmd OUTPUT_BUFFER_SIZE) cmd
      (cmd.operation (cmd.input rt.stdin).1) (cmd.input rt.stdin).2 :=
    command_dispatch_carries hws cmd
  by_cases hexits : cmd.exits = true
  · -- the flag is set and nothing is reported
    rw [if_pos hexits, if_pos hexits,
      dispatch_iteration_of_ok left hcmd (exit_dispatch hexits OUTPUT_BUFFER_SIZE rt.toCli)]
    refine @follows_of_return { rt with exit_flag := true } printed (.code .SUCCESS) ?_
    exact hprompt.trans (List.append_nil _).symm
  rw [if_neg hexits, if_neg hexits]
  -- whatever the status is, the loop goes on with the final state
  have hcontinue : ∀ (cli' : Cli) (trace : List (WsOp × Option Reply)) (text : List Byte),
      dispatch_iteration left cur_command rt = cli_loop left { rt with toCli := cli' } →
      cli'.stdin = (cmd.input rt.stdin).2 → cli'.exit_flag = false →
      Exchange rt.workspace (.command cmd rt.stdin) trace text cli'.workspace →
      cli'.stdout = rt.stdout ++ text →
      Follows rt.workspace printed
        (.command cmd rt.stdin :: (dialogue left (cmd.input rt.stdin).2).1)
        (dialogue left (cmd.input rt.stdin).2).2 (dispatch_iteration left cur_command rt) := by
    intro cli' trace text hrun hstdin hflag hline hstdout
    have hrest := hnext { rt with toCli := cli' } (workspaceSound_of_observed hws hline.steps)
      hflag hstdin
    rw [hrun]
    apply Follows.line hline
    rw [← hprompt, ← hstdout]
    exact hrest
  unfold Cli.Carries at hcarries
  -- Success and failure continue the loop; a stuck command is the last line that is followed.
  cases hrun : command_dispatch cmd OUTPUT_BUFFER_SIZE rt.toCli with
  | ok u cli' =>
    rw [hrun] at hcarries
    have hflag : cli'.exit_flag = false := by
      rw [hcarries.2.1, hexit, Bool.eq_false_iff.mpr hexits]
      rfl
    obtain ⟨trace, text, hline, hstdout⟩ := exchange_of_answers hws hrun hcarries
    apply hcontinue cli' trace text _ hcarries.1 hflag hline hstdout
    exact (dispatch_iteration_of_ok left hcmd hrun).trans (finish_iteration_ok left u hflag)
  | fail e cli' =>
    rw [hrun] at hcarries
    have hflag : cli'.exit_flag = false := hcarries.2.1.trans hexit
    obtain ⟨trace, text, hline, hstdout⟩ := exchange_of_declines hrun hcarries
    apply hcontinue { cli' with stdout := cli'.stdout ++ reportText (.code e) } trace text _
      hcarries.1 hflag hline hstdout
    exact (dispatch_iteration_of_fail left hcmd hrun).trans (finish_iteration_error left e hflag)
  | fault x =>
    rw [hrun] at hcarries
    obtain ⟨op, hop, hstuck⟩ := hcarries
    rw [dispatch_iteration_of_fault left hcmd hrun]
    exact ⟨[], cmd, rt.stdin, _, [], [], rt.workspace, op, rfl, .done _, hop, hstuck⟩

/-! ## Section 4: The loop -/

/-- The dialogue from a line on. -/
def lineDialogue (left : Nat) (line : CString) (rest : List TerminalEvent) :
    List TypedLine × RuntimeStatus :=
  match commandOf line with
  | none =>
    let next := dialogue left rest
    (.unspelled line :: next.1, next.2)
  | some cmd =>
    if cmd.exits then
      ([], .code .SUCCESS)
    else
      let next := dialogue left (cmd.input rest).2
      (.command cmd rest :: next.1, next.2)

theorem length_input_le (cmd : Command) (stdin : List TerminalEvent) :
    (cmd.input stdin).2.length ≤ stdin.length := by
  unfold Command.input
  split
  · exact length_collected_le _ _ _
  · exact Nat.le_refl _

/-- **Parsing**: a line that spells no command is reported and skipped. -/
theorem parse_iteration_follows (hws : WorkspaceSound rt.workspace) (hexit : rt.exit_flag = false)
    (hprompt : rt.stdout = printed ++ promptText rt.workspace)
    {line : CString} {tail : List Byte} (hbuf : rt.command_buffer.bytes = line.chars ++ 0 :: tail)
    (hlength : line.chars.length ≤ MAX_COMMAND_LENGTH)
    (hnext : ∀ (rest : List TerminalEvent) (rt' : CliRuntime), rest.length ≤ rt.stdin.length →
      WorkspaceSound rt'.workspace → rt'.exit_flag = false → rt'.stdin = rest →
      Follows rt'.workspace rt'.stdout (dialogue left rest).1 (dialogue left rest).2
        (cli_loop left rt')) :
    Follows rt.workspace printed (lineDialogue left line rt.stdin).1
      (lineDialogue left line rt.stdin).2 (parse_iteration left rt) := by
  unfold lineDialogue
  rcases (cmd_parse_commandOf hbuf hlength).ok_or_fail with
    ⟨cur_command, buf, hparse, hcmd⟩ | ⟨e, buf, hparse, hcmd⟩
  · rw [hcmd, parse_iteration_of_ok left hparse]
    have hdispatch := @dispatch_iteration_follows { rt with command_buffer := buf } _ left printed
      hws hexit hprompt cur_command rfl
      fun rt' hws' hexit' hstdin => hnext _ rt' (length_input_le _ _) hws' hexit' hstdin
    by_cases hexits : (cur_command.command buf).exits = true
    · simpa [hexits] using hdispatch
    · simpa [hexits] using hdispatch
  · rw [hcmd, parse_iteration_of_fail left hparse, bind_run, report_status_run, bind_ok]
    apply Follows.line (.refused hbuf hparse)
    rw [← hprompt]
    exact hnext rt.stdin
      { rt with command_buffer := buf, stdout := rt.stdout ++ reportText (.code e) } (Nat.le_refl _)
      hws hexit rfl

/-- **The loop is the dialogue.** -/
theorem cli_loop_follows (hleft : rt.stdin.length < left) (hws : WorkspaceSound rt.workspace)
    (hexit : rt.exit_flag = false) :
    Follows rt.workspace rt.stdout (dialogue left rt.stdin).1 (dialogue left rt.stdin).2
      (cli_loop left rt) := by
  induction left generalizing rt with
  | zero => exact absurd hleft (Nat.not_lt_zero _)
  | succ left ih =>
    have hread := new_line_terminated_read_sat (show 1 ≤ COMMAND_BUFFER_SIZE from by decide)
      (⟨rt.stdin, rt.command_buffer⟩ : InputState COMMAND_BUFFER_SIZE)
    rcases hread.ok_or_fail with ⟨status, s', hrun, hline⟩ | ⟨_, _, _, hfalse⟩
    swap
    · exact hfalse.elim
    have hiteration : cli_loop (left + 1) rt =
        (if status ≠ .code .SUCCESS then do
            onCli (report_status status)
            return status
          else parse_iteration left : Sys CliRuntime RuntimeStatus)
          { rt with
            stdout := rt.stdout ++ promptText rt.workspace
            stdin := s'.stdin
            command_buffer := s'.buffer } := by
      rw [cli_loop_eq left hexit, bind_run, print_prompt_context_run, bind_ok, bind_run]
      unfold onCommandInput
      rw [zoom_run, hrun]
      rfl
    -- any other status is reported and returned
    have hstop : status ≠ .code .SUCCESS → (dialogue (left + 1) rt.stdin) = ([], status) →
        Follows rt.workspace rt.stdout (dialogue (left + 1) rt.stdin).1
          (dialogue (left + 1) rt.stdin).2 (cli_loop (left + 1) rt) := by
      intro hstatus hdialogue
      rw [hdialogue, hiteration, if_pos hstatus, bind_run, report_status_run, bind_ok]
      exact @follows_of_return
        { rt with
          stdout := rt.stdout ++ promptText rt.workspace ++ reportText status
          stdin := s'.stdin
          command_buffer := s'.buffer } rt.stdout status rfl
    generalize hstdin : rt.stdin = stdin at *
    cases hline with
    | eof heof s' =>
      apply hstop (by decide)
      rcases heof with rfl | ⟨rest, rfl⟩
      · rfl
      · rfl
    | error rest hevent s' =>
      subst hevent
      exact hstop (by decide) rfl
    | long bytes rest hevent hlength s' =>
      subst hevent
      apply hstop (by decide)
      have hne : ¬ bytes = [] := by
        rintro rfl
        exact absurd hlength (by decide)
      rw [dialogue, if_neg hne, if_pos hlength]
    | line bytes rest buf tail hevent hne hlength hbuf =>
      subst hevent
      rw [if_neg (not_not_intro rfl)] at hiteration
      have hdialogue : dialogue (left + 1) (.line bytes :: rest) =
          lineDialogue left (lineString bytes) rest := by
        rw [dialogue, if_neg hne, if_neg (Nat.not_le.mpr hlength)]
        rfl
      rw [hdialogue, hiteration]
      have hshort : (lineString bytes).chars.length ≤ MAX_COMMAND_LENGTH :=
        (length_lineString_le bytes).trans (Nat.le_of_lt (hlength.trans (by decide)))
      refine @parse_iteration_follows
        { rt with
          stdout := rt.stdout ++ promptText rt.workspace
          stdin := rest
          command_buffer := buf } left rt.stdout hws hexit rfl _ tail hbuf hshort ?_
      intro rest' rt' hle hws' hexit' hrest
      subst hrest
      have hshorter : rt'.stdin.length < left :=
        Nat.lt_of_le_of_lt hle (Nat.lt_of_succ_lt_succ hleft)
      exact ih hshorter hws' hexit'

theorem cli_run_run (rt : CliRuntime) :
    cli_run rt = cli_loop (rt.stdin.length + 1)
      { rt with exit_flag := false, stdout := rt.stdout ++ greetingText } := rfl

theorem cli_run_dialogue (hws : WorkspaceSound rt.workspace) :
    Follows rt.workspace (rt.stdout ++ greetingText) (typed rt.stdin).1 (typed rt.stdin).2
      (cli_run rt) := by
  rw [cli_run_run]
  exact @cli_loop_follows { rt with exit_flag := false, stdout := rt.stdout ++ greetingText } _
    (Nat.lt_succ_self _) hws rfl

/-- **The command line answers what is typed**, from every workspace that operations have
    made: it ends with the status that the input ends with, it has run the operations that
    the lines ask for, each once and in this order, and it has printed their replies. -/
theorem cli_run_follows (h : workspaceSystem.Reachable rt.workspace) :
    Follows rt.workspace (rt.stdout ++ greetingText) (typed rt.stdin).1 (typed rt.stdin).2
      (cli_run rt) :=
  cli_run_dialogue (workspaceSystem_sound h)

/-- Bytes are appended to a file, after a line that spells no command, and printed. -/
theorem cli_run_follows_run :
    ∃ ws, runWorkspace (fun _ _ => True) [.ws_create_file (.ofBytes (ascii "f"))] = some ws ∧
      ∃ rt : CliRuntime, rt.workspace = ws ∧
        (typed rt.stdin).1.filterMap TypedLine.asked =
          [.ws_file_append (.ofBytes (ascii "f")) (ascii "hello\n"),
            .ws_file_read_all (.ofBytes (ascii "f")) OUTPUT_BUFFER_SIZE] ∧
        (typed rt.stdin).2 = .code .SUCCESS ∧
        Follows rt.workspace (rt.stdout ++ greetingText) (typed rt.stdin).1 (typed rt.stdin).2
          (cli_run rt) := by
  refine exists_of_run (Q := fun _ => True) (by decide +kernel) fun ws hrun _ => ?_
  refine ⟨⟨⟨ws, CharBuf.zeroed _,
    [.line (ascii "append f\n"), .line (ascii "hello\n"), .line [], .line (ascii "save f\n"),
      .line (ascii "cat f\n"), .line (ascii "exit\n")], [], false⟩, CharBuf.zeroed _⟩,
    rfl, by dsimp only; decide +kernel, by dsimp only; decide +kernel, ?_⟩
  exact cli_run_follows (reachable_of_runWorkspace hrun)

end VirtualFS
