import VirtualFS.Cli.Sessions
import VirtualFS.Cli.TypedLines
import VirtualFS.Workspace.Refinement
import VirtualFS.Workspace.UndefinedBehaviour

/-! # Commands as Operations

    A command is at most one operation of the workspace. Which one, and what is
    printed of its reply, is a function of the command and of the data that is
    typed behind it. This module has these functions, and the rules by which an
    executer is shown to follow them.

    * `Command.operation`: the operation that a command stands for, if any.
    * `Command.input`: the data that is collected behind an `append`.
    * `Command.rendering`: what is printed of a reply.
    * `Cli.Carries`: an executer does this much and no more.
-/

namespace VirtualFS

open Framework Prog Outcome

variable {cli cli' : Cli} {ws ws' : Workspace} {cmd : Command} {op : WsOp} {arg : CString}

/-! ## Section 1: What a command asks for -/

/-- The value of a decimal argument; it is not negative and fits in a `long`. -/
def decimal (s : CString) : Option Nat :=
  if (strtol s.chars).termination_point = [] ∧ (strtol s.chars).erange = false ∧
      0 ≤ (strtol s.chars).value then
    some (strtol s.chars).value.toNat
  else none

namespace Command

/-- Commands with one argument and no options. -/
def oneArg (cmd : Command) (op : CString → WsOp) : Option WsOp :=
  match cmd.opts, cmd.args with
  | [], [arg] => some (op arg)
  | _, _ => none

/-- Commands with two arguments and no options. -/
def twoArgs (cmd : Command) (op : CString → CString → WsOp) : Option WsOp :=
  match cmd.opts, cmd.args with
  | [], [arg, arg'] => some (op arg arg')
  | _, _ => none

/-- `ls`: the current folder or the one at the path. -/
def listing (cmd : Command) : Option WsOp :=
  if cmd.opts = [] ∧ cmd.args.length ≤ 1 then
    some (.ws_get_sub_entries cmd.args.head? (MAX_SUB_FILES_AMOUNT + MAX_SUB_FOLDERS_AMOUNT))
  else none

/-- `rmdir`, perhaps with the option to remove what is below the folder. -/
def removal (cmd : Command) : Option WsOp :=
  match cmd.opts, cmd.args with
  | [], [path] => some (.ws_remove_folder path false)
  | [opt], [path] =>
    if opt = RECURSIVE_OPTION then some (.ws_remove_folder path true) else none
  | _, _ => none

/-- `read`: some bytes from an offset on. -/
def reading (cmd : Command) : Option WsOp :=
  match cmd.opts, cmd.args with
  | [], [path, offset, amount] =>
    match decimal offset, decimal amount with
    | some offset, some amount =>
      if amount = 0 then none
      else some (.ws_file_read_at path offset amount OUTPUT_BUFFER_SIZE)
    | _, _ => none
  | _, _ => none

/-- `trunc`: some bytes from the end. -/
def truncation (cmd : Command) : Option WsOp :=
  match cmd.opts, cmd.args with
  | [], [path, amount] => (decimal amount).map (.ws_file_truncate path)
  | _, _ => none

/-- `append`: the data, if any has been collected. -/
def appending (cmd : Command) : (data : Option (List Byte)) → Option WsOp
  | none => none
  | some data => if data = [] then none else cmd.oneArg (.ws_file_append · data)

/-- The operation that the command asks for, with the data that has been collected. -/
def operation (cmd : Command) (data : Option (List Byte)) : Option WsOp :=
  match cmd.func with
  | .CMD_CD => cmd.oneArg .ws_change_cur_folder
  | .CMD_PWD => none
  | .CMD_LS => cmd.listing
  | .CMD_TREE => none
  | .CMD_TOUCH => cmd.oneArg .ws_create_file
  | .CMD_MKDIR => cmd.oneArg .ws_create_folder
  | .CMD_RM => cmd.oneArg .ws_remove_file
  | .CMD_RMDIR => cmd.removal
  | .CMD_MV => cmd.twoArgs .ws_move_node
  | .CMD_RENAME => cmd.twoArgs .ws_rename_node
  | .CMD_FIND => cmd.oneArg fun name => .ws_global_search_by_name name QUERIES_NODE_BUFFER_SIZE
  | .CMD_DF => none
  | .CMD_DU => none
  | .CMD_STAT => none
  | .CMD_CAT => cmd.oneArg fun path => .ws_file_read_all path OUTPUT_BUFFER_SIZE
  | .CMD_READ => cmd.reading
  | .CMD_APPEND => cmd.appending data
  | .CMD_CLEAR => cmd.oneArg .ws_file_clear
  | .CMD_TRUNC => cmd.truncation
  | .CMD_HELP => none
  | .CMD_EXIT => none

/-- The command is an `append` that reads data. -/
def collects (cmd : Command) : Bool :=
  cmd.func = .CMD_APPEND && cmd.opts.isEmpty && cmd.args.length = 1

/-- What is typed behind the command, and the rest of the input. -/
def input (cmd : Command) (stdin : List TerminalEvent) :
    Option (List Byte) × List TerminalEvent :=
  if cmd.collects then appended stdin else (some [], stdin)

/-- The command ends the session. -/
def exits (cmd : Command) : Bool :=
  cmd.func = .CMD_EXIT && cmd.opts.isEmpty && cmd.args.isEmpty

end Command

/-- The columns of `ls`: a new line in front of every row but the first, and one at the
    end. -/
def nameColumns (names : List (List Byte)) : List Byte :=
  if names = [] then []
  else
    (names.zipIdx.map fun (name, i) =>
      (if i ≠ 0 ∧ i % SUB_ENTRIES_PRINTED_PER_LINE = 0 then ascii "\n" else []) ++
        print_entry_name_column name).flatten ++ ascii "\n"

/-- What is printed of the reply to the operation. -/
def Command.rendering (cmd : Command) : Reply → List Byte
  | .done => []
  | .bytes data => if cmd.func = .CMD_CAT ∧ data = [] then [] else data ++ ascii "\n"
  | .entries es =>
    if cmd.func = .CMD_FIND then (es.map fun e => pathString e.1 ++ ascii "\n").flatten
    else nameColumns (es.map fun e => e.1.getLast?.getD [])

/-! ## Section 2: What dispatching may end with -/

/-- A search finds an entry whose path cannot be printed. -/
def FindsTooDeep (ws : Workspace) (cmd : Command) (op : WsOp) : Prop :=
  cmd.func = .CMD_FIND ∧ ∃ ns ws' n l, op.exec ws = .ok (.nodes ns) ws' ∧ n ∈ ns ∧
    ws.entry_store.PathTo n l ∧ MAX_PATH_NODES_AMOUNT < l.length

/-- The ways for a command to have no defined end. -/
def Command.Faults (cmd : Command) (ws : Workspace) (asked : Option WsOp) : Prop :=
  ∃ op, asked = some op ∧ ((op.exec ws).final = none ∨ FindsTooDeep ws cmd op)

/-- What `help` prints: the hint for a command, or the synopses of all of them. -/
def Command.helpText (cmd : Command) : Except StatusCode (List Byte) :=
  match cmd.args.head? with
  | some name => print_str_command_function_help_hint name
  | none =>
    .ok (ascii "Run \"help [COMMAND_FUNCTION]\" to get COMMAND_FUNCTION's details\n\n" ++
      (HELP_HINTS_TABLE.map fun hint => hint.synopsis ++ ascii "\n").flatten)

/-- What a command prints that succeeds without an operation: the path of the current
    folder, the outline of a folder, or help. An `append` without data, a `read` of no bytes
    and an `exit` print nothing. -/
def Command.Says (cmd : Command) (ws : Workspace) (said : List Byte) : Prop :=
  match cmd.func with
  | .CMD_PWD => said = ws.cur_path.str ++ ascii "\n"
  | .CMD_TREE => ∃ r, listedFolder ws cmd.args.head? = some r ∧
      print_folder ws.entry_store r = .ok said
  | .CMD_HELP => cmd.helpText = .ok said
  | _ => said = []

/-- What a command prints that fails without an operation: nothing, but a `read` prints what
    is left of an amount that is no number. -/
def Command.Mutters (cmd : Command) (said : List Byte) : Prop :=
  said = [] ∨ cmd.func = .CMD_READ ∧ ∃ amount, cmd.args[2]? = some amount ∧
    said = (strtol amount.chars).termination_point

/-- The command has returned `SUCCESS`: the operation has been run, and its reply has been
    printed. Without an operation the workspace is as before. -/
def Cli.Answers (cli : Cli) (cmd : Command) (asked : Option WsOp) (rest : List TerminalEvent)
    (cli' : Cli) : Prop :=
  cli'.stdin = rest ∧ cli'.exit_flag = (cli.exit_flag || cmd.exits) ∧
    match asked with
    | none => cli'.workspace = cli.workspace ∧
      ∃ said, cmd.Says cli.workspace said ∧ cli'.stdout = cli.stdout ++ said
    | some op => ¬ FindsTooDeep cli.workspace cmd op ∧
      ∃ result, op.exec cli.workspace = .ok result cli'.workspace ∧
        ∀ reply, cli.workspace.Shows result reply →
          cli'.stdout = cli.stdout ++ cmd.rendering reply

/-- The command has returned a failing status: that of the operation, which has printed
    nothing. -/
def Cli.Declines (cli : Cli) (cmd : Command) (asked : Option WsOp) (rest : List TerminalEvent)
    (e : StatusCode) (cli' : Cli) : Prop :=
  cli'.stdin = rest ∧ cli'.exit_flag = cli.exit_flag ∧
    match asked with
    | none => cli'.workspace = cli.workspace ∧
      ∃ said, cmd.Mutters said ∧ cli'.stdout = cli.stdout ++ said
    | some op => op.exec cli.workspace = .fail e cli'.workspace ∧ cli'.stdout = cli.stdout

/-- The program does what the operation says. -/
def Cli.Carries (cli : Cli) (p : Sys Cli Unit) (cmd : Command) (asked : Option WsOp)
    (rest : List TerminalEvent) : Prop :=
  (p cli).Sat (fun _ cli' => cli.Answers cmd asked rest cli')
    (fun e cli' => cli.Declines cmd asked rest e cli') (fun _ => cmd.Faults cli.workspace asked)

/-- A message may be printed before the status is returned. -/
theorem carries_of_muttering {p : Sys Cli Unit} {e : StatusCode} {said : List Byte}
    (hsaid : cmd.Mutters said) (h : p cli = .fail e (cli.printing said)) :
    cli.Carries p cmd none cli.stdin := by
  unfold Cli.Carries
  rw [h]
  exact ⟨rfl, rfl, rfl, said, hsaid, rfl⟩

/-- A command that fails early asks for no operation. -/
theorem carries_of_fail {p : Sys Cli Unit} {e : StatusCode} (h : p cli = .fail e cli) :
    cli.Carries p cmd none cli.stdin := by
  have hnothing : cli.printing [] = cli := by simp [Cli.printing]
  apply @carries_of_muttering _ _ _ _ [] (Or.inl rfl)
  rw [hnothing]
  exact h

/-- Programs with the same run carry the same. -/
theorem carries_of_eq {p q : Sys Cli Unit} {asked : Option WsOp} {rest : List TerminalEvent}
    (h : p cli = q cli) (hq : cli.Carries q cmd asked rest) : cli.Carries p cmd asked rest := by
  unfold Cli.Carries at hq ⊢
  rw [h]
  exact hq

/-- Programs that only print carry no operation. -/
theorem carries_of_saying {p : Sys Cli Unit} {said : List Byte} (hexits : cmd.exits = false)
    (hsaid : cmd.Says cli.workspace said) (h : p cli = .ok () (cli.printing said)) :
    cli.Carries p cmd none cli.stdin := by
  unfold Cli.Carries
  rw [h]
  refine ⟨rfl, ?_, rfl, said, hsaid, rfl⟩
  rw [hexits, Bool.or_false]
  rfl

/-- **Rule for operations**: the operation is run, then what it returns is printed. -/
theorem carries_operation {α : Type} {q : Sys Workspace α} {result : α → WsResult}
    {next : α → Sys Cli Unit} (hop : op.exec = returning q result) (hexits : cmd.exits = false)
    (hnext : ∀ a ws', q cli.workspace = .ok a ws' →
      (next a { cli with workspace := ws' }).Sat
        (fun _ cli' => cli'.stdin = cli.stdin ∧ cli'.exit_flag = cli.exit_flag ∧
          cli'.workspace = ws' ∧ ¬ FindsTooDeep cli.workspace cmd op ∧
          ∀ reply, cli.workspace.Shows (result a) reply →
            cli'.stdout = cli.stdout ++ cmd.rendering reply)
        (fun _ _ => False) (fun _ => FindsTooDeep cli.workspace cmd op)) :
    cli.Carries (onWorkspace q >>= next) cmd (some op) cli.stdin := by
  have hrun : op.exec cli.workspace = (q cli.workspace).bind fun a s => .ok (result a) s := by
    rw [hop]
    rfl
  unfold Cli.Carries onWorkspace
  rw [bind_run, zoom_run]
  -- The command fails and faults with its operation; after success it only prints.
  cases hq : q cli.workspace with
  | fail e ws' =>
    rw [hq] at hrun
    exact ⟨rfl, rfl, hrun, rfl⟩
  | fault x =>
    rw [hq] at hrun
    refine ⟨op, rfl, Or.inl ?_⟩
    rw [hrun]
    rfl
  | ok a ws' =>
    rw [hq] at hrun
    apply (hnext a ws' hq).mono
    · rintro _ cli' ⟨hstdin, hexit, rfl, hdeep, hprints⟩
      exact ⟨hstdin, by rw [hexit, hexits, Bool.or_false], hdeep, result a, hrun, hprints⟩
    · exact fun _ _ h => h.elim
    · exact fun _ hdeep => ⟨op, rfl, Or.inr hdeep⟩

theorem not_findsTooDeep (hfunc : cmd.func ≠ .CMD_FIND) : ¬ FindsTooDeep ws cmd op :=
  fun h => hfunc h.1

/-- Operations that reply with nothing. -/
theorem carries_silent {q : Sys Workspace Unit} (hop : op.exec = returning q fun _ => .done)
    (hfunc : cmd.func ≠ .CMD_FIND) (hexits : cmd.exits = false) :
    cli.Carries (onWorkspace q) cmd (some op) cli.stdin := by
  have hcarries : cli.Carries (onWorkspace q >>= fun a => pure a) cmd (some op) cli.stdin := by
    apply carries_operation hop hexits
    intro a ws' _
    refine ⟨rfl, rfl, rfl, not_findsTooDeep hfunc, ?_⟩
    intro reply hshows
    cases reply with
    | done => exact (List.append_nil _).symm
    | bytes data => exact hshows.elim
    | entries es => exact hshows.elim
  rw [bind_pure_eq] at hcarries
  exact hcarries

/-! ## Section 3: Rules for executers -/

/-- The numbers of options and arguments are right, or the command fails. -/
theorem check_amounts_cases (cmd : Command) (k : Nat) (cli : Cli) :
    (cmd.opts = [] ∧ cmd.args.length = k ∧ check_amounts cmd k cli = .ok () cli) ∨
      (¬ (cmd.opts = [] ∧ cmd.args.length = k) ∧ ∃ e, check_amounts cmd k cli = .fail e cli) := by
  by_cases hopts : cmd.opts = []
  · rcases Nat.lt_trichotomy cmd.args.length k with hlt | heq | hgt
    · refine Or.inr ⟨fun h => absurd h.2 (Nat.ne_of_lt hlt), .CMD_TOO_FEW_ARGS, ?_⟩
      simp [check_amounts, hopts, hlt, Nat.not_lt.mpr (Nat.le_of_lt hlt)]
    · exact Or.inl ⟨hopts, heq, by simp [check_amounts, hopts, heq]⟩
    · refine Or.inr ⟨fun h => absurd h.2 (Nat.ne_of_gt hgt), .CMD_TOO_MANY_ARGS, ?_⟩
      simp [check_amounts, hopts, hgt]
  · refine Or.inr ⟨fun h => hopts h.1, .CMD_TOO_MANY_OPTS, ?_⟩
    simp [check_amounts, List.length_pos_iff.mpr hopts]

/-- **Rule for checks**: a command with other amounts asks for nothing. -/
theorem carries_checked {k : Nat} {p : Sys Cli Unit} {asked : Option WsOp}
    {rest : List TerminalEvent}
    (hnone : ¬ (cmd.opts = [] ∧ cmd.args.length = k) → asked = none ∧ rest = cli.stdin)
    (h : cmd.opts = [] → cmd.args.length = k → cli.Carries p cmd asked rest) :
    cli.Carries (do
      check_amounts cmd k
      p) cmd asked rest := by
  rcases check_amounts_cases cmd k cli with ⟨hopts, hargs, hrun⟩ | ⟨hnot, e, hrun⟩
  · have hcarries := h hopts hargs
    unfold Cli.Carries at hcarries ⊢
    rw [bind_run, hrun]
    exact hcarries
  · obtain ⟨rfl, rfl⟩ := hnone hnot
    have hfail : (check_amounts cmd k >>= fun _ => p) cli = .fail e cli := by
      rw [bind_run, hrun]
      rfl
    exact carries_of_fail hfail

theorem oneArg_eq_none {op : CString → WsOp} (h : ¬ (cmd.opts = [] ∧ cmd.args.length = 1)) :
    cmd.oneArg op = none := by
  unfold Command.oneArg
  split
  · next arg hopts hargs => exact absurd ⟨hopts, by rw [hargs]; rfl⟩ h
  · rfl

theorem oneArg_eq_some {op : CString → WsOp} (hopts : cmd.opts = []) (hargs : cmd.args = [arg]) :
    cmd.oneArg op = some (op arg) := by
  simp [Command.oneArg, hopts, hargs]

theorem twoArgs_eq_none {op : CString → CString → WsOp}
    (h : ¬ (cmd.opts = [] ∧ cmd.args.length = 2)) : cmd.twoArgs op = none := by
  unfold Command.twoArgs
  split
  · next arg arg' hopts hargs => exact absurd ⟨hopts, by rw [hargs]; rfl⟩ h
  · rfl

/-- **Rule for arguments.** -/
theorem carries_arg {i : Nat} {next : CString → Sys Cli Unit} {asked : Option WsOp}
    {rest : List TerminalEvent} (harg : cmd.args[i]? = some arg)
    (h : cli.Carries (next arg) cmd asked rest) :
    cli.Carries (cmd.arg i >>= next) cmd asked rest := by
  have hrun : cmd.arg i cli = .ok arg cli := by simp [Command.arg, harg]
  unfold Cli.Carries at h ⊢
  rw [bind_run, hrun]
  exact h

/-- Executers that hand their only argument to an operation without a reply. -/
theorem one_arg_carries {q : CString → Sys Workspace Unit} {op : CString → WsOp}
    (hop : ∀ arg, (op arg).exec = returning (q arg) fun _ => .done)
    (hfunc : cmd.func ≠ .CMD_FIND) (hexits : cmd.exits = false) :
    cli.Carries (do
      check_amounts cmd 1
      onWorkspace (q (← cmd.arg 0))) cmd (cmd.oneArg op) cli.stdin := by
  apply carries_checked
  · exact fun hnot => ⟨oneArg_eq_none hnot, rfl⟩
  · intro hopts hlength
    obtain ⟨arg, hargs⟩ := List.length_eq_one_iff.mp hlength
    rw [oneArg_eq_some hopts hargs]
    exact carries_arg (by rw [hargs]; rfl) (carries_silent (hop arg) hfunc hexits)

/-- The rule for commands with two arguments. -/
theorem two_args_carries {q : CString → CString → Sys Workspace Unit}
    {op : CString → CString → WsOp}
    (hop : ∀ arg arg', (op arg arg').exec = returning (q arg arg') fun _ => .done)
    (hfunc : cmd.func ≠ .CMD_FIND) (hexits : cmd.exits = false) :
    cli.Carries (do
      check_amounts cmd 2
      onWorkspace (q (← cmd.arg 0) (← cmd.arg 1))) cmd (cmd.twoArgs op) cli.stdin := by
  apply carries_checked
  · exact fun hnot => ⟨twoArgs_eq_none hnot, rfl⟩
  · intro hopts hlength
    obtain ⟨arg, arg', hargs⟩ := List.length_eq_two.mp hlength
    have hasked : cmd.twoArgs op = some (op arg arg') := by simp [Command.twoArgs, hopts, hargs]
    rw [hasked]
    apply carries_arg (by rw [hargs]; rfl)
    exact carries_arg (by rw [hargs]; rfl) (carries_silent (hop arg arg') hfunc hexits)

end VirtualFS
