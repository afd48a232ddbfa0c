import VirtualFS.Cli.CliRuntime
import VirtualFS.Cli.CommandParsing
import VirtualFS.Cli.MultiLineInput

/-! # Typed Lines

    What the runtime makes of its input, as functions of the input alone: the
    command that a line spells, and the data that is collected behind an
    `append`. The buffers that the code reads into do not matter.

    * `commandOf`: the command that a line spells, if it spells one.
    * `lineString`: the line without its line break.
    * `appended`: the data behind an `append`, and what is left of the input.
-/

namespace VirtualFS

open Framework Prog Outcome

variable {n size : Nat} {buf buf' : CharBuf n} {cmd cmd' : Command} {line : CString}
  {w bytes data : List Byte} {ws : List (List Byte)} {stdin rest : List TerminalEvent}

/-! ## Section 1: Commands -/

/-- The words say the function, the options and the arguments of the command. -/
def Command.SpelledBy (cmd : Command) (ws : List (List Byte)) : Prop :=
  ∃ name later, ws = name :: later ∧ (cmd.func, name) ∈ COMMAND_TABLE ∧
    cmd.opts.map (fun opt => [OPTION_PREFIX, opt]) = optionWords later ∧
    cmd.args.map CString.chars = argumentWords later

/-- The command that a line spells, if there is one. -/
def commandOf (line : CString) : Option Command :=
  match words COMMAND_DELIMITER line.chars with
  | [] => none
  | name :: later =>
    match COMMAND_TABLE.find? fun entry => name = entry.2 with
    | none => none
    | some entry =>
      if h : (∀ w ∈ optionWords later, w.length = 2) ∧
          (optionWords later).length ≤ MAX_CMD_OPTION_AMOUNT ∧
          (argumentWords later).length ≤ MAX_CMD_ARGUMENT_AMOUNT then
        some
          { func := entry.1
            opts := (optionWords later).map fun w => w.getLastD 0
            args := (argumentWords later).map CString.ofBytes
            opts_amount_le := (List.length_map _).trans_le h.2.1
            args_amount_le := (List.length_map _).trans_le h.2.2 }
      else
        none

/-- An option is its prefix and one letter. -/
theorem option_eq (hw : isOption w = true) (hlength : w.length = 2) :
    [OPTION_PREFIX, w.getLastD 0] = w := by
  obtain ⟨c, opt, rfl⟩ := List.length_eq_two.mp hlength
  obtain rfl : c = OPTION_PREFIX := Option.some.inj (of_decide_eq_true hw)
  rfl

/-- Bytes without NUL are a string. -/
theorem ofBytes_chars {bytes : List Byte} (hnul : (0 : Byte) ∉ bytes) :
    (CString.ofBytes bytes).chars = bytes := cutAtNul_of_nul_not_mem hnul

theorem cstring_ext {s t : CString} (h : s.chars = t.chars) : s = t := by
  cases s
  cases t
  cases h
  rfl

/-- At most one command is spelled by the same words. -/
theorem Command.SpelledBy.unique (h : cmd.SpelledBy ws) (h' : cmd'.SpelledBy ws) : cmd = cmd' := by
  obtain ⟨name, later, rfl, hfunc, hopts, hargs⟩ := h
  obtain ⟨name', later', heq, hfunc', hopts', hargs'⟩ := h'
  obtain ⟨rfl, rfl⟩ := List.cons.inj heq
  have hsameOpts : cmd.opts = cmd'.opts := by
    apply List.map_injective_iff.mpr _ (hopts.trans hopts'.symm)
    intro opt opt' hopt
    exact (List.cons.inj (List.cons.inj hopt).2).1
  have hsameArgs : cmd.args = cmd'.args :=
    List.map_injective_iff.mpr (fun _ _ => cstring_ext) (hargs.trans hargs'.symm)
  cases cmd
  cases cmd'
  cases func_unique hfunc hfunc'
  cases hsameOpts
  cases hsameArgs
  rfl

/-- The command of a line is spelled by its words. -/
theorem commandOf_spelled (h : commandOf line = some cmd) :
    cmd.SpelledBy (words COMMAND_DELIMITER line.chars) := by
  have hok := words_ok line
  unfold commandOf at h
  -- no words, an unknown name, or too many options: the line is no command
  split at h
  · cases h
  · next name later hwords =>
    rw [hwords] at hok
    split at h
    · cases h
    · next entry hfind =>
      split at h
      · next hlimits =>
        cases h
        have hname : name = entry.2 := by simpa using List.find?_some hfind
        refine ⟨name, later, hwords, ?_, ?_, ?_⟩
        · rw [hname]
          exact List.mem_of_find?_eq_some hfind
        · show ((optionWords later).map fun w => w.getLastD 0).map _ = _
          rw [List.map_map]
          apply List.map_congr_left (g := id) _ |>.trans (List.map_id _)
          intro w hw
          exact option_eq (List.mem_filter.mp hw).2 (hlimits.1 w hw)
        · show ((argumentWords later).map CString.ofBytes).map CString.chars = _
          rw [List.map_map]
          apply List.map_congr_left (g := id) _ |>.trans (List.map_id _)
          intro w hw
          exact ofBytes_chars (hok w (List.mem_cons_of_mem _ (List.mem_filter.mp hw).1)).2
      · cases h

/-- A spelled command is within the limits. -/
theorem Command.SpelledBy.limits {later : List (List Byte)}
    (hopts : cmd.opts.map (fun opt => [OPTION_PREFIX, opt]) = optionWords later)
    (hargs : cmd.args.map CString.chars = argumentWords later) :
    (∀ w ∈ optionWords later, w.length = 2) ∧
      (optionWords later).length ≤ MAX_CMD_OPTION_AMOUNT ∧
      (argumentWords later).length ≤ MAX_CMD_ARGUMENT_AMOUNT := by
  rw [← hopts, ← hargs, List.length_map, List.length_map]
  refine ⟨?_, cmd.opts_amount_le, cmd.args_amount_le⟩
  intro w hw
  obtain ⟨opt, -, rfl⟩ := List.mem_map.mp hw
  rfl

/-- **The command of a line** is the one that its words spell. -/
theorem commandOf_eq_some_iff :
    commandOf line = some cmd ↔ cmd.SpelledBy (words COMMAND_DELIMITER line.chars) := by
  constructor
  · exact commandOf_spelled
  · intro h
    -- A spelled line passes all checks, so it is some command; and only one is spelled.
    have hcommand : ∃ cmd', commandOf line = some cmd' := by
      obtain ⟨name, later, hwords, hfunc, hopts, hargs⟩ := h
      obtain ⟨entry, hentry⟩ : ∃ entry, (COMMAND_TABLE.find? fun entry => name = entry.2) =
          some entry := by
        apply Option.isSome_iff_exists.mp
        rw [List.find?_isSome]
        exact ⟨_, hfunc, by simp⟩
      unfold commandOf
      rw [hwords]
      simp only [hentry]
      rw [dif_pos (Command.SpelledBy.limits hopts hargs)]
      exact ⟨_, rfl⟩
    obtain ⟨cmd', hcmd'⟩ := hcommand
    rw [hcmd', (commandOf_spelled hcmd').unique h]

/-- What spells a command is in the command language. -/
theorem Command.SpelledBy.isCommand (h : cmd.SpelledBy ws) : IsCommand ws := by
  obtain ⟨name, later, rfl, hfunc, hopts, hargs⟩ := h
  obtain ⟨hlength, hle, hle'⟩ := Command.SpelledBy.limits hopts hargs
  refine ⟨name, later, rfl, ⟨_, hfunc⟩, ?_, hle, hle'⟩
  exact fun w hw hopt => hlength w (List.mem_filter.mpr ⟨hw, hopt⟩)

/-- The strings that the arguments of a parsed command point to. -/
theorem CommandHolds.spelledBy {out_command : ParsedCommand} (h : CommandHolds buf out_command ws)
    (hnul : ∀ w ∈ ws, (0 : Byte) ∉ w) : (out_command.command buf).SpelledBy ws := by
  obtain ⟨name, later, rfl, hfunc, hopts, hargs⟩ := h
  refine ⟨name, later, rfl, hfunc, hopts, ?_⟩
  show (out_command.args.map fun arg => CString.ofBytes (buf.bytes.drop arg)).map CString.chars = _
  have hwords : ∀ w ∈ argumentWords later, (0 : Byte) ∉ w :=
    fun w hw => hnul w (List.mem_cons_of_mem _ (List.mem_filter.mp hw).1)
  generalize argumentWords later = args at hargs hwords
  generalize out_command.args = tokens at hargs
  rw [List.map_map]
  -- Each argument is the string that starts at its token.
  induction hargs with
  | nil => rfl
  | @cons token w tokens args htoken _ ih =>
    obtain ⟨tail, htail⟩ := htoken
    have hstring : (CString.ofBytes (buf.bytes.drop token)).chars = w := by
      show cutAtNul _ = w
      rw [htail, cutAtNul_append_nul]
      exact cutAtNul_of_nul_not_mem (hwords w (List.mem_cons_self ..))
    rw [List.map_cons, ih fun w hw => hwords w (List.mem_cons_of_mem _ hw)]
    exact congrArg (· :: args) hstring

/-- The parser returns the command that the line spells. -/
theorem cmd_parse_commandOf {tail : List Byte} (h : buf.bytes = line.chars ++ 0 :: tail)
    (hlength : line.chars.length ≤ MAX_COMMAND_LENGTH) :
    (cmd_parse buf).Sat
      (fun out_command buf' => commandOf line = some (out_command.command buf'))
      (fun _ _ => commandOf line = none) (fun _ => False) := by
  apply (cmd_parse_sat h).mono
  · rintro out_command buf' ⟨-, hholds⟩
    exact commandOf_eq_some_iff.mpr (hholds.spelledBy fun w hw => (words_ok line w hw).2)
  · intro e buf' hnot
    apply Option.eq_none_iff_forall_ne_some.mpr
    intro cmd hcmd
    exact hnot ⟨hlength, (commandOf_eq_some_iff.mp hcmd).isCommand⟩
  · exact fun _ hF => hF

/-! ## Section 2: The line of a command -/

/-- The string that the bytes of a line are read as. -/
def lineString (bytes : List Byte) : CString :=
  CString.ofBytes (if bytes.getLast? = some NEW_LINE then bytes.dropLast else bytes)

/-- Cutting off a line break makes nothing longer. -/
theorem length_lineString_le (bytes : List Byte) :
    (lineString bytes).chars.length ≤ bytes.length := by
  have hcut : ∀ l : List Byte, (cutAtNul l).length ≤ l.length :=
    fun l => (List.takeWhile_sublist _).length_le
  unfold lineString
  split
  · exact (hcut _).trans (by rw [List.length_dropLast]; omega)
  · exact hcut _

/-- The string at the start of a buffer that holds a terminator. -/
theorem exists_string (bytes tail : List Byte) :
    ∃ tail', bytes ++ 0 :: tail = (CString.ofBytes bytes).chars ++ 0 :: tail' := by
  -- The first NUL among the bytes ends the string before the appended one.
  induction bytes with
  | nil => exact ⟨tail, rfl⟩
  | cons c bytes ih =>
    obtain ⟨tail', htail⟩ := ih
    by_cases hc : c = 0
    · refine ⟨bytes ++ 0 :: tail, ?_⟩
      rw [hc]
      rfl
    · refine ⟨tail', ?_⟩
      show c :: (bytes ++ 0 :: tail) = cutAtNul (c :: bytes) ++ 0 :: tail'
      rw [htail]
      simp [cutAtNul, hc, CString.ofBytes]

/-- What a read of a line ends with: the line in the buffer, or no further command. -/
inductive LineRead (size : Nat) (stdin : List TerminalEvent) :
    RuntimeStatus → InputState size → Prop where
  /-- A line that fits: the buffer holds it up to its first NUL, and a terminator. -/
  | line (bytes : List Byte) (rest : List TerminalEvent) (buf : CharBuf size) (tail : List Byte)
      (hstdin : stdin = .line bytes :: rest) (hne : bytes ≠ []) (hlength : bytes.length < size)
      (hbuf : buf.bytes = (lineString bytes).chars ++ 0 :: tail) :
      LineRead size stdin (.code .SUCCESS) ⟨rest, buf⟩
  /-- Nothing is left, or an empty line that stands for the end. -/
  | eof (heof : AtEof stdin) (s : InputState size) :
      LineRead size stdin .ATTEMPTED_TO_READ_AT_EOF s
  /-- `read` has failed. -/
  | error (rest : List TerminalEvent) (hstdin : stdin = .error :: rest) (s : InputState size) :
      LineRead size stdin (.code .READ_ERROR) s
  /-- The line does not fit with its terminator. -/
  | long (bytes : List Byte) (rest : List TerminalEvent) (hstdin : stdin = .line bytes :: rest)
      (hlength : size ≤ bytes.length) (s : InputState size) :
      LineRead size stdin (.code .INPUT_BUFFER_OVER_FLOW) s

/-- The line is terminated in front of or behind its last byte. -/
theorem terminate_line {s : InputState size} {buf₁ : CharBuf size} (status : RuntimeStatus)
    (hlength : bytes.length < size) (hwrite : s.buffer.write 0 bytes = some buf₁) :
    ∃ buf₂ tail, buf₂.bytes = (lineString bytes).chars ++ 0 :: tail ∧
      ((if bytes.getLast? = some NEW_LINE then do
          write_input (bytes.length - 1) [0]
          return status
        else do
          write_input bytes.length [0]
          return status : Sys (InputState size) RuntimeStatus) { s with buffer := buf₁ }) =
        .ok status { s with buffer := buf₂ } := by
  have htake : buf₁.bytes.take bytes.length = bytes := by
    simpa using CharBuf.take_of_write hwrite (Nat.zero_le _)
  -- A line break is overwritten by the terminator, an unfinished line gets it behind its end.
  by_cases hlast : bytes.getLast? = some NEW_LINE
  · obtain ⟨front, rfl⟩ := List.getLast?_eq_some_iff.mp hlast
    have hfront : (front ++ [NEW_LINE]).length - 1 = front.length := by simp
    rw [List.length_append, List.length_singleton] at hlength htake
    obtain ⟨buf₂, hwrite₂, hrun⟩ := write_input_run (s := { s with buffer := buf₁ })
      (show front.length + [(0 : Byte)].length ≤ size from by simp; omega)
    have hprefix : buf₁.bytes.take front.length = front := by
      have := congrArg (List.take front.length) htake
      rwa [List.take_take, Nat.min_eq_left (Nat.le_succ _), List.take_left] at this
    obtain ⟨tail, htail⟩ := exists_string front (buf₁.bytes.drop (front.length + 1))
    refine ⟨buf₂, tail, ?_, ?_⟩
    · rw [CharBuf.bytes_of_write hwrite₂, hprefix, List.append_assoc, List.singleton_append]
      unfold lineString
      rw [if_pos hlast, List.dropLast_concat]
      exact htail
    · rw [if_pos hlast, hfront, bind_run, hrun]
      rfl
  · obtain ⟨buf₂, hwrite₂, hrun⟩ := write_input_run (s := { s with buffer := buf₁ })
      (show bytes.length + [(0 : Byte)].length ≤ size from by simp; omega)
    obtain ⟨tail, htail⟩ := exists_string bytes (buf₁.bytes.drop (bytes.length + 1))
    refine ⟨buf₂, tail, ?_, ?_⟩
    · rw [CharBuf.bytes_of_write hwrite₂, htake, List.append_assoc, List.singleton_append]
      unfold lineString
      rw [if_neg hlast]
      exact htail
    · rw [if_neg hlast, bind_run, hrun]
      rfl

/-- What one read yields of a typed line. -/
theorem read_line_run (buffer : CharBuf size) (rest : List TerminalEvent) (bytes : List Byte)
    (count : Nat) : ∃ s' : InputState size,
      read count (⟨.line bytes :: rest, buffer⟩ : InputState size) =
        .ok (some (bytes.take count)) s' ∧
      s'.buffer = buffer ∧ (bytes.length ≤ count → s'.stdin = rest) := by
  by_cases hlength : bytes.length ≤ count
  · refine ⟨⟨rest, buffer⟩, ?_, rfl, fun _ => rfl⟩
    rw [List.take_of_length_le hlength]
    exact read_line rfl hlength
  · refine ⟨⟨.line (bytes.drop count) :: rest, buffer⟩, ?_, rfl, fun h => absurd h hlength⟩
    simp [read, hlength]

/-- **A line is read** as its string, or there is a reason to stop. -/
theorem new_line_terminated_read_sat (hsize : 1 ≤ size) (s : InputState size) :
    (new_line_terminated_read size s).Sat (fun status s' => LineRead size s.stdin status s')
      (fun _ _ => False) (fun _ => False) := by
  obtain ⟨stdin, buffer⟩ := s
  have hpos : ¬ size = 0 := by omega
  unfold new_line_terminated_read
  simp only [hpos, if_false, bind_run]
  cases stdin with
  | nil =>
    obtain ⟨s₁, hwrite, hrun⟩ := write_input_run (s := (⟨[], buffer⟩ : InputState size))
      (show 0 + ([] : List Byte).length ≤ size from Nat.zero_le _)
    simp only [read, bind_run, readState_run, bind_ok, pure_run, hrun, List.length_nil, if_true]
    exact LineRead.eof (Or.inl rfl) _
  | cons event rest =>
    cases event with
    | error =>
      simp only [read, bind_run, readState_run, bind_ok, modifyState_run, pure_run]
      exact LineRead.error rest rfl _
    | line bytes =>
      obtain ⟨s₁, hread, hbuffer, hrest⟩ := read_line_run buffer rest bytes size
      obtain ⟨buf₁, hwrite, hrun⟩ := write_input_run (s := s₁)
        (show 0 + (bytes.take size).length ≤ size from by simp)
      simp only [hread, bind_ok, bind_run, hrun]
      by_cases hempty : bytes = []
      · subst hempty
        simp only [List.take_nil, List.length_nil, if_true, pure_run]
        exact LineRead.eof (Or.inr ⟨rest, rfl⟩) _
      have hzero : ¬ (bytes.take size).length = 0 := by
        have := List.length_pos_iff.mpr hempty
        rw [List.length_take]
        omega
      by_cases hlong : size ≤ bytes.length
      · -- the buffer is full
        have hfull : (bytes.take size).length = size := by
          rw [List.length_take]
          omega
        simp only [hfull, hpos, if_true, if_false, ite_run, pure_run]
        exact LineRead.long bytes rest rfl hlong _
      · have hlength : bytes.length < size := Nat.lt_of_not_le hlong
        have hwhole : bytes.take size = bytes := List.take_of_length_le (Nat.le_of_lt hlength)
        rw [hwhole] at hwrite hzero ⊢
        obtain ⟨buf₂, tail, hbytes, hterminate⟩ := terminate_line (.code .SUCCESS) hlength hwrite
        simp only [hzero, Nat.ne_of_lt hlength, if_false]
        rw [hterminate, hrest (Nat.le_of_lt hlength)]
        exact LineRead.line bytes rest buf₂ tail rfl hempty hlength hbytes

/-! ## Section 3: The data behind an `append` -/

/-- The data that `multi_line_read` collects, and what is left of the input; `left`
    iterations from its end. -/
def collected : (left : Nat) → (stdin : List TerminalEvent) → (data : List Byte) →
    Option (List Byte) × List TerminalEvent
  | 0, stdin, _ => (none, stdin)
  | _ + 1, [], data => (some data, [])
  | _ + 1, .error :: rest, _ => (none, rest)
  | left + 1, .line bytes :: rest, data =>
    if bytes = [] then
      (some data, rest)
    else if bytes.length = MAX_MULTI_LINE_INPUT_LINE_LENGTH + 1 then
      (none, rest)
    else if MAX_MULTI_LINE_INPUT_LINE_LENGTH + 1 < bytes.length then
      (none, .line (bytes.drop (MAX_MULTI_LINE_INPUT_LINE_LENGTH + 1)) :: rest)
    else if INPUT_DATA_BUFFER_SIZE - 1 < data.length + bytes.length then
      (none, rest)
    else
      collected left rest (data ++ bytes)

/-- What is written behind the data follows it. -/
theorem take_write_end {b b' : CharBuf size} (hdata : b.bytes.take data.length = data)
    (hle : data.length ≤ size) (hwrite : b.write data.length bytes = some b') :
    b'.bytes.take (data ++ bytes).length = data ++ bytes := by
  rw [List.length_append, CharBuf.take_of_write hwrite hle, hdata]

/-- At the end of the input the data is terminated. -/
theorem terminate_data {s : InputState size} (hdata : s.buffer.bytes.take data.length = data)
    (hle : data.length < size) :
    ∃ buf', buf'.bytes.take data.length = data ∧
      (do
        write_input data.length [0]
        return data.length : Sys (InputState size) Nat) s =
          .ok data.length { s with buffer := buf' } := by
  obtain ⟨buf', hwrite, hrun⟩ :=
    write_input_run (s := s) (show data.length + [(0 : Byte)].length ≤ size from hle)
  refine ⟨buf', ?_, by rw [bind_run, hrun]; rfl⟩
  have htake := congrArg (List.take data.length) (take_write_end hdata (Nat.le_of_lt hle) hwrite)
  rwa [List.take_take, List.length_append, Nat.min_eq_left (Nat.le_add_right _ _), List.take_left]
    at htake

/-- A line that is too long ends the collecting. -/
theorem multi_line_read_loop_long {s s' : InputState size} {buffer_size left pos : Nat}
    (hread : read (MAX_MULTI_LINE_INPUT_LINE_LENGTH + 1) s = .ok (some bytes) s')
    (hlength : bytes.length = MAX_MULTI_LINE_INPUT_LINE_LENGTH + 1) :
    multi_line_read_loop buffer_size (left + 1) pos s = .fail .INPUT_LINE_IS_TOO_LONG s' := by
  have hzero : ¬ MAX_MULTI_LINE_INPUT_LINE_LENGTH + 1 = 0 := by decide
  rw [multi_line_read_loop, bind_run, hread, bind_ok]
  simp only [hlength, hzero, if_true, if_false, bind_run, returnStatus_run, bind_fail]

/-- The input is collected at the start of the buffer, or the call fails. -/
theorem multi_line_read_loop_collected {left : Nat} {s : InputState INPUT_DATA_BUFFER_SIZE}
    (hdata : s.buffer.bytes.take data.length = data)
    (hroom : data.length ≤ INPUT_DATA_BUFFER_SIZE - 1) :
    (multi_line_read_loop INPUT_DATA_BUFFER_SIZE left data.length s).Sat
      (fun amount s' => ∃ data', collected left s.stdin data = (some data', s'.stdin) ∧
        amount = data'.length ∧ s'.buffer.bytes.take amount = data')
      (fun _ s' => collected left s.stdin data = (none, s'.stdin)) (fun _ => False) := by
  obtain ⟨stdin, buffer⟩ := s
  have hlt : data.length < INPUT_DATA_BUFFER_SIZE := Nat.lt_of_le_of_lt hroom (by decide)
  induction left generalizing stdin buffer data with
  | zero => rfl
  | succ left ih =>
    rw [multi_line_read_loop, bind_run]
    cases stdin with
    | nil =>
      obtain ⟨buf', htake, hrun⟩ :=
        terminate_data (s := (⟨[], buffer⟩ : InputState INPUT_DATA_BUFFER_SIZE)) hdata hlt
      show (((do
        write_input data.length [0]
        return data.length : Sys (InputState INPUT_DATA_BUFFER_SIZE) Nat) ⟨[], buffer⟩)).Sat _ _ _
      rw [hrun]
      exact ⟨data, rfl, rfl, htake⟩
    | cons event rest =>
      cases event with
      | error => rfl
      | line bytes =>
        by_cases hempty : bytes = []
        · subst hempty
          obtain ⟨buf', htake, hrun⟩ :=
            terminate_data (s := (⟨rest, buffer⟩ : InputState INPUT_DATA_BUFFER_SIZE)) hdata hlt
          show (((do
            write_input data.length [0]
            return data.length : Sys (InputState INPUT_DATA_BUFFER_SIZE) Nat)
              ⟨rest, buffer⟩)).Sat _ _ _
          rw [hrun]
          exact ⟨data, rfl, rfl, htake⟩
        have hzero : ¬ bytes.length = 0 := by
          rw [List.length_eq_zero_iff]
          exact hempty
        rcases Nat.lt_trichotomy bytes.length (MAX_MULTI_LINE_INPUT_LINE_LENGTH + 1)
          with hshort | hlong | hlonger
        · have hread := read_line (s := (⟨.line bytes :: rest, buffer⟩ :
            InputState INPUT_DATA_BUFFER_SIZE)) rfl (Nat.le_of_lt hshort)
          have hnotLong : ¬ bytes.length = MAX_MULTI_LINE_INPUT_LINE_LENGTH + 1 := by omega
          have hnotLonger : ¬ MAX_MULTI_LINE_INPUT_LINE_LENGTH + 1 < bytes.length := by omega
          have hsum : sizeAdd bytes.length data.length = data.length + bytes.length := by
            rw [sizeAdd_of_lt, Nat.add_comm]
            have : MAX_MULTI_LINE_INPUT_LINE_LENGTH + 1 + INPUT_DATA_BUFFER_SIZE <
              SIZE_T_RANGE := by decide
            omega
          have hlast : sizeSub INPUT_DATA_BUFFER_SIZE 1 = INPUT_DATA_BUFFER_SIZE - 1 := by decide
          simp only [hread, bind_ok, hzero, hnotLong, if_false, hsum, hlast]
          by_cases hfits : data.length + bytes.length > INPUT_DATA_BUFFER_SIZE - 1
          · simp only [hfits, if_true, bind_run, returnStatus_run, bind_fail, sat_fail, collected,
              hempty, hnotLong, hnotLonger, if_false]
          · obtain ⟨buf₁, hwrite, hrun⟩ := write_input_run
              (s := (⟨rest, buffer⟩ : InputState INPUT_DATA_BUFFER_SIZE))
              (show data.length + bytes.length ≤ INPUT_DATA_BUFFER_SIZE from by omega)
            have htake := take_write_end hdata (Nat.le_of_lt hlt) hwrite
            simp only [hfits, if_false, bind_run, hrun, bind_ok, collected, hempty, hnotLong,
              hnotLonger]
            have hnext : (data ++ bytes).length = data.length + bytes.length :=
              List.length_append
            rw [← hnext]
            exact ih (by omega) rest buf₁ htake (by omega)
        · -- one byte more than a line may have
          have hread := read_line (s := (⟨.line bytes :: rest, buffer⟩ :
            InputState INPUT_DATA_BUFFER_SIZE)) rfl (Nat.le_of_eq hlong)
          rw [← bind_run, ← multi_line_read_loop, multi_line_read_loop_long hread hlong]
          simp only [collected, hempty, hlong, if_true, if_false, sat_fail]
        · have hread : read (MAX_MULTI_LINE_INPUT_LINE_LENGTH + 1)
              (⟨.line bytes :: rest, buffer⟩ : InputState INPUT_DATA_BUFFER_SIZE) =
                .ok (some (bytes.take (MAX_MULTI_LINE_INPUT_LINE_LENGTH + 1)))
                  ⟨.line (bytes.drop (MAX_MULTI_LINE_INPUT_LINE_LENGTH + 1)) :: rest, buffer⟩ := by
            simp [read, Nat.not_le.mpr hlonger]
          have htaken : (bytes.take (MAX_MULTI_LINE_INPUT_LINE_LENGTH + 1)).length =
              MAX_MULTI_LINE_INPUT_LINE_LENGTH + 1 := by
            rw [List.length_take]
            omega
          rw [← bind_run, ← multi_line_read_loop, multi_line_read_loop_long hread htaken]
          simp only [collected, hempty, Nat.ne_of_gt hlonger, hlonger, if_true, if_false, sat_fail]

/-- What is typed behind an `append`: the data, if it is collected, and the rest. -/
def appended (stdin : List TerminalEvent) : Option (List Byte) × List TerminalEvent :=
  collected MAX_MULTI_LINE_INPUT_LINES_AMOUNT stdin []

/-- **Multi-line input** depends on the terminal alone. -/
theorem multi_line_read_appended (s : InputState INPUT_DATA_BUFFER_SIZE) :
    (multi_line_read INPUT_DATA_BUFFER_SIZE s).Sat
      (fun amount s' => ∃ data, appended s.stdin = (some data, s'.stdin) ∧
        amount = data.length ∧ s'.buffer.bytes.take amount = data)
      (fun _ s' => appended s.stdin = (none, s'.stdin)) (fun _ => False) := by
  have hnothing : s.buffer.bytes.take ([] : List Byte).length = [] := rfl
  exact multi_line_read_loop_collected hnothing (Nat.zero_le _)

/-- Collecting takes from the input and adds nothing to it. -/
theorem length_collected_le (left : Nat) (stdin : List TerminalEvent) (data : List Byte) :
    (collected left stdin data).2.length ≤ stdin.length := by
  -- Each round takes one event, or ends.
  induction left generalizing stdin data with
  | zero => exact Nat.le_refl _
  | succ left ih =>
    cases stdin with
    | nil => exact Nat.le_refl _
    | cons event rest =>
      cases event with
      | error => exact Nat.le_succ _
      | line bytes =>
        unfold collected
        split_ifs
        · exact Nat.le_succ _
        · exact Nat.le_succ _
        · exact Nat.le_refl _
        · exact Nat.le_succ _
        · exact (ih rest _).trans (Nat.le_succ _)

end VirtualFS
