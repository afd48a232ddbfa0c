import VirtualFS.Cli.Sessions

/-! # Printing Files

    `cat` prints the content of a file if the file fits in the output buffer of
    the command line. Files grow beyond that: the disk is larger than the
    buffer, and one `append` may bring more bytes than the buffer holds.

    * `PrintsFile`: the command prints the content of the file and nothing else.
    * `cat_prints_file_iff`: the files for which it does, by their size.
    * `cat_does_not_print`: a file that is one chunk too large.
-/

namespace VirtualFS

open Framework Prog Outcome VFSEntryStore

variable {ws : Workspace} {cli : Cli} {path : CString} {f : FileRef} {buffer_size : Nat}

/-! ## Section 1: Reading whole files -/

/-- The whole content is read. -/
theorem ws_file_read_all_run (h : OwnsChunks ws.toVFS f)
    (hpath : ws_resolve_path ws path = .ok (.file f))
    (hsize : (ws.entry_store.files f).allocated_size * CHUNK_SIZE ≤ buffer_size) :
    ws_file_read_all path buffer_size ws = .ok (ws.content f) ws := by
  have hlen := length_content h.file_ok
  have hlt : ¬ buffer_size < (ws.entry_store.files f).allocated_size * CHUNK_SIZE := by omega
  simp only [ws_file_read_all, bind_run, ws_resolve_file_run hpath, bind_ok, readState_run, hlt,
    ↓reduceIte]
  by_cases hzero : (ws.entry_store.files f).allocated_size = 0
  · -- nothing is copied
    have hnil : ws.content f = [] := by
      apply List.eq_nil_of_length_eq_zero
      rw [hlen, hzero, Nat.zero_mul]
    simp [hzero, hnil]
  · have hpos : 0 < (ws.entry_store.files f).allocated_size * CHUNK_SIZE := by
      unfold CHUNK_SIZE
      omega
    have hend : 0 + (ws.entry_store.files f).allocated_size * CHUNK_SIZE ≤
        (ws.entry_store.files f).allocated_size * CHUNK_SIZE := by omega
    have hread := file_read_at_run h hpos hsize hend
    rw [← hlen, slice_full, hlen] at hread
    simp [hzero, onSystem, hread]

/-- The buffer has to hold the whole file. -/
theorem ws_file_read_all_fails (hpath : ws_resolve_path ws path = .ok (.file f))
    (hsize : buffer_size < (ws.entry_store.files f).allocated_size * CHUNK_SIZE) :
    ws_file_read_all path buffer_size ws = .fail .INSUFFICIENT_ARRAY_PASSED ws := by
  simp [ws_file_read_all, ws_resolve_file_run hpath, hsize]

/-! ## Section 2: The command -/

/-- Bytes that are printed with the end of the line, unless there are none. -/
def printedLine (bytes : List Byte) : List Byte :=
  if bytes = [] then [] else bytes ++ ascii "\n"

theorem command_dispatch_cat (path : CString) (output_buffer_size : Nat) :
    command_dispatch (.withArg .CMD_CAT path) output_buffer_size =
      cmd_cat_exec (.withArg .CMD_CAT path) output_buffer_size := rfl

/-- What `cat path` does with the outcome of the read. -/
theorem cmd_cat_exec_eq (hpos : 0 < buffer_size) :
    cmd_cat_exec (.withArg .CMD_CAT path) buffer_size cli =
      ((onWorkspace (ws_file_read_all path buffer_size) cli).bind fun data cli' =>
        .ok () (cli'.printing (printedLine data))) := by
  have hne : buffer_size ≠ 0 := by omega
  simp only [cmd_cat_exec, bind_run, hne, ↓reduceIte, check_amounts_withArg, withArg_arg, bind_ok]
  congr 1
  funext data cli'
  by_cases hnil : data = []
  · simp [hnil, printedLine, Cli.printing]
  · simp [hnil, printedLine, Cli.printing, printf]

/-- A file that fits in the buffer is printed. -/
theorem cmd_cat_exec_run (h : OwnsChunks cli.workspace.toVFS f)
    (hpath : ws_resolve_path cli.workspace path = .ok (.file f)) (hpos : 0 < buffer_size)
    (hsize : (cli.workspace.entry_store.files f).allocated_size * CHUNK_SIZE ≤ buffer_size) :
    cmd_cat_exec (.withArg .CMD_CAT path) buffer_size cli =
      .ok () (cli.printing (printedLine (cli.workspace.content f))) := by
  rw [cmd_cat_exec_eq hpos, onWorkspace, zoom_run, ws_file_read_all_run h hpath hsize]
  rfl

/-- A larger one is refused. -/
theorem cmd_cat_exec_fails (hpath : ws_resolve_path cli.workspace path = .ok (.file f))
    (hpos : 0 < buffer_size)
    (hsize : buffer_size < (cli.workspace.entry_store.files f).allocated_size * CHUNK_SIZE) :
    cmd_cat_exec (.withArg .CMD_CAT path) buffer_size cli =
      .fail .INSUFFICIENT_ARRAY_PASSED cli := by
  rw [cmd_cat_exec_eq hpos, onWorkspace, zoom_run, ws_file_read_all_fails hpath hsize]
  rfl

/-! ## Section 3: Files of reachable workspaces -/

/-- Running `cat path` succeeds and prints the content of the file. -/
def PrintsFile (cli : Cli) (path : CString) (f : FileRef) : Prop :=
  ∃ cli', command_dispatch (.withArg .CMD_CAT path) OUTPUT_BUFFER_SIZE cli = .ok () cli' ∧
    cli'.stdout = cli.stdout ++ printedLine (cli.workspace.content f)

/-- **What was appended is printed**, all of it and in order, if the file fits in the
    output buffer, and only then. -/
theorem cat_prints_file_iff (h : workspaceSystem.Reachable cli.workspace)
    (hpath : ws_resolve_path cli.workspace path = .ok (.file f)) :
    (cli.workspace.content f).length =
        (cli.workspace.entry_store.files f).allocated_size * CHUNK_SIZE ∧
      (PrintsFile cli path f ↔
        (cli.workspace.entry_store.files f).allocated_size * CHUNK_SIZE ≤ OUTPUT_BUFFER_SIZE) := by
  have hws := workspaceSystem_sound h
  have hf := hws.committed_of_path (fileAtPath_eq_some.mpr hpath)
  have howns := hws.sound.chunks.ownsChunks hf
  have hpos : 0 < OUTPUT_BUFFER_SIZE := by decide
  unfold PrintsFile
  rw [command_dispatch_cat]
  refine ⟨length_content howns.file_ok, ?_⟩
  -- A file that does not fit the buffer is not printed at all.
  constructor
  · intro ⟨cli', hrun, _⟩
    apply Nat.le_of_not_lt
    intro hlt
    rw [cmd_cat_exec_fails hpath hpos hlt] at hrun
    cases hrun
  · intro hsize
    exact ⟨_, cmd_cat_exec_run howns hpath hpos hsize, rfl⟩

/-- A file of one chunk. -/
theorem cat_prints_file_iff_run :
    ∃ cli, runSession [.line (ascii "hi\n"), .line []]
        [.withArg .CMD_TOUCH (.ofBytes (ascii "a")), .withArg .CMD_APPEND (.ofBytes (ascii "a"))] =
          some cli ∧
      cli.workspace.content 0 = ascii "hi\n" ++ List.replicate 5 EOC_OPERATOR ∧
      (cli.workspace.content 0).length =
        (cli.workspace.entry_store.files 0).allocated_size * CHUNK_SIZE ∧
      (PrintsFile cli (.ofBytes (ascii "a")) 0 ↔
        (cli.workspace.entry_store.files 0).allocated_size * CHUNK_SIZE ≤ OUTPUT_BUFFER_SIZE) := by
  refine exists_of_run (Q := fun cli =>
      ws_resolve_path cli.workspace (.ofBytes (ascii "a")) = .ok (.file 0) ∧
      cli.workspace.content 0 = ascii "hi\n" ++ List.replicate 5 EOC_OPERATOR)
    (by decide +kernel) fun cli hrun ⟨hpath, hcontent⟩ => ⟨hcontent, ?_⟩
  exact cat_prints_file_iff (workspace_of_session (session_of_runSession hrun)) hpath

/-- A line that is as long as a line of input may be. -/
def longLine : TerminalEvent := .line (List.replicate MAX_MULTI_LINE_INPUT_LINE_LENGTH 97)

/-- One byte more than the output buffer holds is appended to a file. -/
theorem cat_does_not_print :
    ∃ cli, runSession [longLine, longLine, longLine, longLine, .line [97], .line []]
        [.withArg .CMD_TOUCH (.ofBytes (ascii "a")), .withArg .CMD_APPEND (.ofBytes (ascii "a"))] =
          some cli ∧
      workspaceSystem.Reachable cli.workspace ∧
      ws_resolve_path cli.workspace (.ofBytes (ascii "a")) = .ok (.file 0) ∧
      cli.workspace.entry_store.committed (.file 0) ∧
      status (command_dispatch (.withArg .CMD_CAT (.ofBytes (ascii "a"))) OUTPUT_BUFFER_SIZE cli) =
        some .INSUFFICIENT_ARRAY_PASSED := by
  refine exists_of_run (Q := fun cli =>
      ws_resolve_path cli.workspace (.ofBytes (ascii "a")) = .ok (.file 0) ∧
      cli.workspace.entry_store.committed (.file 0) ∧
      status (command_dispatch (.withArg .CMD_CAT (.ofBytes (ascii "a"))) OUTPUT_BUFFER_SIZE cli) =
        some .INSUFFICIENT_ARRAY_PASSED)
    (by decide +kernel) fun cli hrun hQ => ⟨?_, hQ⟩
  exact workspace_of_session (session_of_runSession hrun)

end VirtualFS
