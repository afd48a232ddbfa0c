import VirtualFS.Cli.InputHandler

/-! # Multi-Line Input

    `multi_line_read` on a terminal that yields a line per call and nothing at
    the end of the input. The loop counts the reads, and the end of the input
    takes one as well; so one line less is collected than the limit says. It
    never writes past the size it is given.

    * `Collected`: the buffer after the data has been collected.
    * `multi_line_read_exact`: fewer lines than the limit are collected, and no byte
      behind the given size is written, whatever the input.
    * `sixteen_lines_not_collected`: as many lines as the limit are too many.
-/

namespace VirtualFS

open Framework Prog Outcome

variable {size : Nat} {s s' : InputState size} {eof : List TerminalEvent}
  {lines : List (List Byte)} {buffer_size n pos count : Nat} {data : List Byte}

/-! ## Section 1: Reads and writes -/

/-- The next read yields nothing. -/
def AtEof (stdin : List TerminalEvent) : Prop :=
  stdin = [] ∨ ∃ rest, stdin = .line [] :: rest

/-- At the end of the input nothing is read. -/
theorem read_at_eof (count : Nat) (h : AtEof s.stdin) :
    ∃ s', read count s = .ok (some []) s' ∧ s'.buffer = s.buffer := by
  obtain ⟨stdin, buffer⟩ := s
  rcases h with hnil | ⟨rest, hline⟩
  · change stdin = [] at hnil
    subst hnil
    exact ⟨_, rfl, rfl⟩
  · change stdin = .line [] :: rest at hline
    subst hline
    exact ⟨_, rfl, rfl⟩

/-- A line that is short enough is read as a whole. -/
theorem read_line {rest : List TerminalEvent} (h : s.stdin = .line data :: rest)
    (hlen : data.length ≤ count) :
    read count s = .ok (some data) { s with stdin := rest } := by
  simp [read, h, hlen]

/-- A read leaves the buffer, and takes no more than it asks for. -/
theorem read_sat (count : Nat) (s : InputState size) :
    (read count s).Sat
      (fun r s' => s'.buffer = s.buffer ∧ ∀ bytes, r = some bytes → bytes.length ≤ count)
      (fun _ _ => False) (fun _ => False) := by
  unfold read
  simp only [bind_run, readState_run, bind_ok]
  match s.stdin with
  | [] =>
    refine ⟨rfl, ?_⟩
    rintro bytes ⟨⟩
    exact Nat.zero_le count
  | .error :: rest => exact ⟨rfl, fun bytes h => by cases h⟩
  | .line bytes :: rest =>
    by_cases hlen : bytes.length ≤ count
    · simp only [hlen, if_true, bind_run, modifyState_run, bind_ok, pure_run, sat_ok]
      refine ⟨trivial, ?_⟩
      rintro _ ⟨⟩
      exact hlen
    · simp only [hlen, if_false, bind_run, modifyState_run, bind_ok, pure_run, sat_ok]
      refine ⟨trivial, ?_⟩
      rintro _ ⟨⟩
      exact List.length_take_le count bytes

/-- Data that fits is written. -/
theorem write_input_run (h : pos + data.length ≤ size) :
    ∃ buffer, s.buffer.write pos data = some buffer ∧
      write_input pos data s = .ok () { s with buffer := buffer } := by
  obtain ⟨buffer, hwrite⟩ := CharBuf.write_isSome (b := s.buffer) h
  exact ⟨buffer, hwrite, by simp [write_input, hwrite]⟩

/-! ## Section 2: The lines that are collected -/

/-- What is expected of the lines: none empty, none too long. -/
def LinesOk (lines : List (List Byte)) : Prop :=
  ∀ line ∈ lines, line ≠ [] ∧ line.length ≤ MAX_MULTI_LINE_INPUT_LINE_LENGTH

/-- One iteration takes a line to the end of what has been collected. -/
theorem multi_line_read_step {line : List Byte} {rest : List TerminalEvent}
    (hstdin : s.stdin = .line line :: rest) (hne : line ≠ [])
    (hlen : line.length ≤ MAX_MULTI_LINE_INPUT_LINE_LENGTH)
    (hroom : pos + line.length ≤ buffer_size - 1) (hpos : 1 ≤ buffer_size)
    (hsize : buffer_size ≤ size) (hrange : buffer_size < SIZE_T_RANGE) :
    ∃ buffer, s.buffer.write pos line = some buffer ∧
      multi_line_read_loop buffer_size (n + 1) pos s =
        multi_line_read_loop buffer_size n (pos + line.length)
          { stdin := rest, buffer := buffer } := by
  obtain ⟨buffer, hwrite, hrun⟩ :=
    write_input_run (s := { s with stdin := rest }) (show pos + line.length ≤ size from by omega)
  have hzero : ¬ line.length = 0 := by
    rw [List.length_eq_zero_iff]
    exact hne
  have hlong : ¬ line.length = MAX_MULTI_LINE_INPUT_LINE_LENGTH + 1 := by omega
  -- neither the sum nor the difference wraps
  have hfits : ¬ sizeAdd line.length pos > sizeSub buffer_size 1 := by
    rw [sizeAdd_of_lt (by omega), sizeSub_of_le hpos hrange]
    omega
  refine ⟨buffer, hwrite, ?_⟩
  rw [multi_line_read_loop]
  simp only [bind_run, read_line hstdin (Nat.le_succ_of_le hlen), bind_ok, hzero, hlong, hfits,
    if_false, hrun]

/-- With an iteration left for the end of the input, everything is collected. -/
theorem multi_line_read_loop_collects (hstdin : s.stdin = lines.map TerminalEvent.line ++ eof)
    (heof : AtEof eof) (hlines : LinesOk lines) (hn : lines.length < n)
    (hroom : pos + lines.flatten.length ≤ buffer_size - 1) (hpos : 1 ≤ buffer_size)
    (hsize : buffer_size ≤ size) (hrange : buffer_size < SIZE_T_RANGE) :
    ∃ s', multi_line_read_loop buffer_size n pos s =
        .ok (pos + lines.flatten.length) s' ∧
      s'.buffer.bytes.take (pos + lines.flatten.length + 1) =
        s.buffer.bytes.take pos ++ lines.flatten ++ [0] := by
  -- one line fewer at every iteration
  induction lines generalizing s n pos with
  | nil =>
    obtain ⟨n, rfl⟩ : ∃ m, n = m + 1 := ⟨n - 1, by omega⟩
    have heof' : AtEof s.stdin := by rwa [hstdin]
    obtain ⟨s₁, hread, hbuffer⟩ := read_at_eof (MAX_MULTI_LINE_INPUT_LINE_LENGTH + 1) heof'
    rw [List.flatten_nil, List.length_nil] at hroom
    obtain ⟨buffer, hwrite, hrun⟩ :=
      write_input_run (s := s₁) (show pos + [(0 : Byte)].length ≤ size from by simp; omega)
    refine ⟨{ s₁ with buffer := buffer }, ?_, ?_⟩
    · rw [multi_line_read_loop]
      simp only [bind_run, hread, bind_ok, List.length_nil, if_true, hrun, pure_run,
        List.flatten_nil]
      rfl
    · rw [hbuffer] at hwrite
      rw [List.flatten_nil, List.append_nil]
      exact CharBuf.take_of_write hwrite (by omega)
  | cons line lines ih =>
    obtain ⟨n, rfl⟩ : ∃ m, n = m + 1 := ⟨n - 1, by omega⟩
    obtain ⟨hne, hlen⟩ := hlines line (List.mem_cons_self ..)
    have htotal : pos + (line :: lines).flatten.length =
        pos + line.length + lines.flatten.length := by
      rw [List.flatten_cons, List.length_append, Nat.add_assoc]
    rw [htotal] at hroom
    have hnext : s.stdin = .line line :: (lines.map TerminalEvent.line ++ eof) := hstdin
    obtain ⟨buffer, hwrite, hstep⟩ := multi_line_read_step (n := n) hnext hne hlen
      (show pos + line.length ≤ buffer_size - 1 from by omega) hpos hsize hrange
    obtain ⟨s', hrun, hbytes⟩ := ih (n := n)
      (s := { stdin := lines.map TerminalEvent.line ++ eof, buffer := buffer }) rfl
      (fun l hl => hlines l (List.mem_cons_of_mem _ hl)) (Nat.lt_of_succ_lt_succ hn) hroom
    refine ⟨s', ?_, ?_⟩
    · rw [hstep, hrun, htotal]
    · rw [htotal, hbytes, CharBuf.take_of_write hwrite (by omega), List.flatten_cons,
        List.append_assoc (s.buffer.bytes.take pos)]

/-- As many lines as iterations: the end of the input is not seen. -/
theorem multi_line_read_loop_too_many (hstdin : s.stdin = lines.map TerminalEvent.line ++ eof)
    (hlines : LinesOk lines) (hroom : pos + lines.flatten.length ≤ buffer_size - 1)
    (hpos : 1 ≤ buffer_size) (hsize : buffer_size ≤ size) (hrange : buffer_size < SIZE_T_RANGE) :
    ∃ s', multi_line_read_loop buffer_size lines.length pos s = .fail .TOO_MANY_LINES s' := by
  -- All lines fit, so each round reads one of them, until no round is left.
  induction lines generalizing s pos with
  | nil => exact ⟨s, rfl⟩
  | cons line lines ih =>
    obtain ⟨hne, hlen⟩ := hlines line (List.mem_cons_self ..)
    rw [List.flatten_cons, List.length_append] at hroom
    have hnext : s.stdin = .line line :: (lines.map TerminalEvent.line ++ eof) := hstdin
    obtain ⟨buffer, -, hstep⟩ := multi_line_read_step (n := lines.length) hnext hne hlen
      (show pos + line.length ≤ buffer_size - 1 from by omega) hpos hsize hrange
    obtain ⟨s', hrun⟩ := ih
      (s := { stdin := lines.map TerminalEvent.line ++ eof, buffer := buffer }) rfl
      (fun l hl => hlines l (List.mem_cons_of_mem _ hl))
      (show pos + line.length + lines.flatten.length ≤ buffer_size - 1 from by omega)
    exact ⟨s', by rw [List.length_cons, hstep, hrun]⟩

/-! ## Section 3: Bytes behind the buffer -/

/-- Whatever the terminal yields, nothing is written at `buffer_size` or behind it. -/
theorem multi_line_read_loop_frame (hpos : 1 ≤ buffer_size) (hsize : buffer_size ≤ size)
    (hrange : buffer_size < SIZE_T_RANGE) (hbound : pos ≤ buffer_size - 1)
    (hsmall : pos + n * MAX_MULTI_LINE_INPUT_LINE_LENGTH ≤ INPUT_DATA_BUFFER_SIZE) :
    (multi_line_read_loop buffer_size n pos s).Sat
      (fun _ s' => s'.buffer.bytes.drop buffer_size = s.buffer.bytes.drop buffer_size)
      (fun _ s' => s'.buffer.bytes.drop buffer_size = s.buffer.bytes.drop buffer_size)
      (fun _ => False) := by
  induction n generalizing s pos with
  | zero => rfl
  | succ n ih =>
    rw [multi_line_read_loop, bind_run]
    apply ((read_sat _ s).mono (fun _ _ h => h) (fun _ _ h => h.elim) (fun _ h => h)).bind
    rintro (_ | line) s₁ ⟨hbuffer, hlen⟩
    · -- an error
      show s₁.buffer.bytes.drop buffer_size = _
      rw [hbuffer]
    · have hcount := hlen line rfl
      rw [← hbuffer]
      by_cases hzero : line.length = 0
      · -- the terminator is in front of the last byte
        obtain ⟨buffer, hwrite, hrun⟩ :=
          write_input_run (s := s₁) (show pos + [(0 : Byte)].length ≤ size from by simp; omega)
        simp only [hzero, if_true, bind_run, hrun, bind_ok, pure_run, sat_ok]
        exact CharBuf.drop_of_write hwrite (by simp; omega)
      by_cases hlong : line.length = MAX_MULTI_LINE_INPUT_LINE_LENGTH + 1
      · simp only [hlong, if_true]
        rfl
      by_cases hfits : sizeAdd line.length pos > sizeSub buffer_size 1
      · simp only [hzero, hlong, hfits, if_true, if_false, bind_run, returnStatus_run, bind_fail,
          sat_fail]
      · -- the sum does not wrap: only so many lines are read
        have hlt : line.length + pos < SIZE_T_RANGE := by
          have : INPUT_DATA_BUFFER_SIZE + MAX_MULTI_LINE_INPUT_LINE_LENGTH + 1 <
            SIZE_T_RANGE := by decide
          omega
        have hroom : pos + line.length ≤ buffer_size - 1 := by
          rw [sizeAdd_of_lt hlt, sizeSub_of_le hpos hrange] at hfits
          omega
        obtain ⟨buffer, hwrite, hrun⟩ :=
          write_input_run (s := s₁) (show pos + line.length ≤ size from by omega)
        simp only [hzero, hlong, hfits, if_false, bind_run, hrun, bind_ok]
        have hdrop := CharBuf.drop_of_write hwrite
          (show pos + line.length ≤ buffer_size from by omega)
        rw [← hdrop]
        apply ih hroom
        rw [Nat.succ_mul] at hsmall
        omega

/-! ## Section 4: The function -/

/-- The lines are in the buffer, with a terminator behind them, and their amount is
    returned. -/
def Collected (s : InputState size) (buffer_size : Nat) (lines : List (List Byte)) : Prop :=
  ∃ s', multi_line_read buffer_size s = .ok lines.flatten.length s' ∧
    s'.buffer.bytes.take (lines.flatten.length + 1) = lines.flatten ++ [0]

/-- **Multi-line input** is collected if and only if there are fewer lines than the limit.
    In no case is anything written behind the buffer. -/
theorem multi_line_read_exact (hpos : 1 ≤ buffer_size) (hsize : buffer_size ≤ size)
    (hrange : buffer_size < SIZE_T_RANGE) :
    (∀ (s : InputState size) (lines : List (List Byte)) (eof : List TerminalEvent),
      s.stdin = lines.map TerminalEvent.line ++ eof → AtEof eof → LinesOk lines →
      lines.length ≤ MAX_MULTI_LINE_INPUT_LINES_AMOUNT →
      lines.flatten.length ≤ buffer_size - 1 →
      (Collected s buffer_size lines ↔
        lines.length < MAX_MULTI_LINE_INPUT_LINES_AMOUNT)) ∧
    ∀ s : InputState size, (multi_line_read buffer_size s).Sat
      (fun _ s' => s'.buffer.bytes.drop buffer_size = s.buffer.bytes.drop buffer_size)
      (fun _ s' => s'.buffer.bytes.drop buffer_size = s.buffer.bytes.drop buffer_size)
      (fun _ => False) := by
  constructor
  · intro s lines eof hstdin heof hlines hamount htotal
    rw [← Nat.zero_add lines.flatten.length] at htotal
    constructor
    · intro ⟨s', hok, _⟩
      by_contra hnot
      -- the last iteration has taken the last line
      have hmax : lines.length = MAX_MULTI_LINE_INPUT_LINES_AMOUNT := by omega
      obtain ⟨s'', hfail⟩ := multi_line_read_loop_too_many hstdin hlines htotal hpos hsize hrange
      rw [hmax] at hfail
      unfold multi_line_read at hok
      rw [hfail] at hok
      cases hok
    · intro hlt
      obtain ⟨s', hok, hbytes⟩ :=
        multi_line_read_loop_collects hstdin heof hlines hlt htotal hpos hsize hrange
      rw [Nat.zero_add] at hok hbytes
      exact ⟨s', hok, by simpa using hbytes⟩
  · intro s
    apply multi_line_read_loop_frame hpos hsize hrange (Nat.zero_le _)
    decide

/-- Two lines and the end of the input. -/
theorem multi_line_read_exact_two :
    Collected (⟨[.line [97, 10], .line [98, 10]], CharBuf.zeroed 8⟩ : InputState 8) 8
        [[97, 10], [98, 10]] ↔ 2 < MAX_MULTI_LINE_INPUT_LINES_AMOUNT :=
  (@multi_line_read_exact 8 8 (by decide) (by decide) (by decide)).1 _ _ [] rfl
    (Or.inl rfl) (by simp [LinesOk, MAX_MULTI_LINE_INPUT_LINE_LENGTH]) (by decide) (by decide)

/-- Sixteen lines of one byte do not arrive. -/
theorem sixteen_lines_not_collected :
    LinesOk (List.replicate MAX_MULTI_LINE_INPUT_LINES_AMOUNT [10]) ∧
      (List.replicate MAX_MULTI_LINE_INPUT_LINES_AMOUNT ([10] : List Byte)).flatten.length ≤
        INPUT_DATA_BUFFER_SIZE - 1 ∧
      status (multi_line_read INPUT_DATA_BUFFER_SIZE
        (⟨(List.replicate MAX_MULTI_LINE_INPUT_LINES_AMOUNT [10]).map .line, CharBuf.zeroed _⟩ :
          InputState INPUT_DATA_BUFFER_SIZE)) = some .TOO_MANY_LINES := by
  refine ⟨?_, by decide, by decide +kernel⟩
  intro line hline
  rw [(List.mem_replicate.mp hline).2]
  decide

end VirtualFS
