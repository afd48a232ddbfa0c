import VirtualFS.Cli.TypedLines
import VirtualFS.Framework.TwoRuns

/-! # Input Buffers

    The buffers that input is read into are not initialised. What a buffer held
    before changes nothing: the reads end alike whatever is in it, and the parser
    only looks at the string at its start.

    * `SameInput`: two states of a terminal that yield the same.
    * `SameStart`: two buffers that agree up to a position.
    * `cmd_parse_same`: the parser yields the same command from both.
-/

namespace VirtualFS

open Framework Prog Outcome

variable {n size i left last command_length capacity : Nat} {buf other : CharBuf n}
  {tokens : List Nat} {line : CString}

/-! ## Section 1: Reads -/

/-- The same is going to be typed; the buffers may differ. -/
def SameInput (s t : InputState size) : Prop := t.stdin = s.stdin

/-- A read takes the same bytes in both states. -/
theorem read_agreeing (count : Nat) :
    Agreeing (@SameInput size) (VirtualFS.read count) := by
  apply Agreeing.read
  · intro s
    have hrest : ∀ rest : List TerminalEvent,
        Agreeing SameInput
          (modifyState fun s => { s with stdin := rest } : Sys (InputState size) Unit) :=
      fun rest => Agreeing.modifyState fun _ _ _ => rfl
    split
    · exact Agreeing.pure _
    · exact (hrest _).bind fun _ => Agreeing.pure _
    · apply Agreeing.ite
      · exact (hrest _).bind fun _ => Agreeing.pure _
      · exact (hrest _).bind fun _ => Agreeing.pure _
  · intro s t h
    rw [show t.stdin = s.stdin from h]

/-- Whether the data fits does not depend on what it replaces. -/
theorem write_input_agreeing (pos : Nat) (data : List Byte) :
    Agreeing (@SameInput size) (write_input pos data) := by
  intro s t h
  by_cases hfits : pos + data.length ≤ size
  · obtain ⟨b, -, hs⟩ := write_input_run (s := s) hfits
    obtain ⟨b', -, ht⟩ := write_input_run (s := t) hfits
    rw [hs, ht]
    exact Agrees.ok () h
  · have hout : ∀ s : InputState size, write_input pos data s = .fault .out_of_bounds := by
      intro s
      simp [write_input, CharBuf.write_eq_none (b := s.buffer) (Nat.lt_of_not_le hfits)]
    rw [hout, hout]
    exact Agrees.fault _

/-- Both loops collect the same lines. -/
theorem multi_line_read_loop_agreeing (buffer_size left pos : Nat) :
    Agreeing (@SameInput size) (multi_line_read_loop buffer_size left pos) := by
  -- Both loops read the same lines and write them at the same position, whatever the buffers held.
  induction left generalizing pos with
  | zero => exact Agreeing.returnStatus _
  | succ left ih =>
    apply Agreeing.bind (read_agreeing _)
    intro line_buffer
    cases line_buffer with
    | none => exact Agreeing.returnStatus _
    | some line_buffer =>
      apply Agreeing.ite
      · exact (write_input_agreeing _ _).bind fun _ => Agreeing.pure _
      · apply Agreeing.guard
        apply Agreeing.guard
        exact (write_input_agreeing _ _).bind fun _ => ih _

/-- **Multi-line input**: the same amount of the same bytes, or the same status. -/
theorem multi_line_read_same {s t : InputState INPUT_DATA_BUFFER_SIZE} (h : SameInput s t) :
    (∃ amount s' t', multi_line_read INPUT_DATA_BUFFER_SIZE s = .ok amount s' ∧
      multi_line_read INPUT_DATA_BUFFER_SIZE t = .ok amount t' ∧ SameInput s' t' ∧
      t'.buffer.bytes.take amount = s'.buffer.bytes.take amount) ∨
    ∃ e s' t', multi_line_read INPUT_DATA_BUFFER_SIZE s = .fail e s' ∧
      multi_line_read INPUT_DATA_BUFFER_SIZE t = .fail e t' ∧ SameInput s' t' := by
  have hagrees : Agrees SameInput (multi_line_read INPUT_DATA_BUFFER_SIZE s)
      (multi_line_read INPUT_DATA_BUFFER_SIZE t) := multi_line_read_loop_agreeing _ _ _ s t h
  have hs := multi_line_read_appended s
  have ht := multi_line_read_appended t
  rw [show t.stdin = s.stdin from h] at ht
  generalize multi_line_read INPUT_DATA_BUFFER_SIZE s = o at hagrees hs ⊢
  generalize multi_line_read INPUT_DATA_BUFFER_SIZE t = o' at hagrees ht ⊢
  cases hagrees with
  | @ok amount s' t' hsame =>
    -- the terminal alone says which data has been collected
    obtain ⟨data, hdata, -, htake⟩ := hs
    obtain ⟨data', hdata', -, htake'⟩ := ht
    have heq : data' = data := by
      rw [hdata] at hdata'
      exact (Option.some.inj (congrArg Prod.fst hdata')).symm
    exact Or.inl ⟨amount, s', t', rfl, rfl, hsame, by rw [htake', htake, heq]⟩
  | @fail e s' t' hsame => exact Or.inr ⟨e, s', t', rfl, rfl, hsame⟩
  | fault x => exact hs.elim

/-- Both reads return the same status. -/
theorem new_line_terminated_read_agreeing (buffer_length : Nat) :
    Agreeing (@SameInput size) (new_line_terminated_read buffer_length) := by
  apply Agreeing.ite
  · exact Agreeing.pure _
  · apply Agreeing.bind (read_agreeing _)
    intro bytes
    cases bytes with
    | none => exact Agreeing.pure _
    | some bytes =>
      apply Agreeing.bind (write_input_agreeing _ _)
      intro _
      apply Agreeing.ite
      · exact Agreeing.pure _
      · apply Agreeing.ite
        · exact Agreeing.pure _
        · apply Agreeing.ite
          · exact (write_input_agreeing _ _).bind fun _ => Agreeing.pure _
          · exact (write_input_agreeing _ _).bind fun _ => Agreeing.pure _

/-! ## Section 2: The string at the start -/

/-- The same bytes up to a terminator at `last`. -/
def SameStart (last : Nat) (buf other : CharBuf n) : Prop :=
  ∃ d tail tail', d.length = last ∧ buf.bytes = d ++ 0 :: tail ∧ other.bytes = d ++ 0 :: tail'

/-- The character at a position of the string, or its terminator. -/
theorem char_at_start {d tail : List Byte} (h : buf.bytes = d ++ 0 :: tail) (hi : i ≤ d.length) :
    ∃ c, (d ++ [0])[i]? = some c ∧ char_at i buf = .ok c buf := by
  have hlt : i < (d ++ [0]).length := by
    rw [List.length_append, List.length_singleton]
    omega
  refine ⟨(d ++ [0])[i], List.getElem?_eq_getElem hlt, ?_⟩
  apply char_at_run
  rw [h, ← List.singleton_append, ← List.append_assoc, List.getElem?_append_left hlt]
  exact List.getElem?_eq_getElem hlt

/-- A character in front of `last` is the same in both buffers. -/
theorem char_at_agreeing (hi : i ≤ last) :
    Agreeing (SameStart (n := n) last) (char_at i) := by
  rintro buf other ⟨d, tail, tail', rfl, h, h'⟩
  obtain ⟨c, hc, hrun⟩ := char_at_start h hi
  obtain ⟨c', hc', hrun'⟩ := char_at_start h' hi
  obtain rfl : c = c' := Option.some.inj (hc.symm.trans hc')
  rw [hrun, hrun']
  exact Agrees.ok c ⟨d, tail, tail', rfl, h, h'⟩

/-- Behind the last character of the string is its terminator. -/
theorem char_at_returns (h : SameStart last buf other) :
    Returns (fun c => c ≠ 0 → i ≤ last → i < last) (char_at i) buf := by
  obtain ⟨d, tail, tail', rfl, h, -⟩ := h
  by_cases hi : i ≤ d.length
  · obtain ⟨c, hc, hrun⟩ := char_at_start h hi
    unfold Returns
    rw [hrun]
    intro hne hle
    apply Nat.lt_of_le_of_ne hle
    rintro rfl
    rw [List.getElem?_concat_length] at hc
    exact hne (Option.some.inj hc).symm
  · exact Returns.of_forall (fun _ _ hle => absurd hle hi) _ _

/-- Replacing a character of the string. -/
theorem set_char_agreeing (x : Byte) (hi : i < last) :
    Agreeing (SameStart (n := n) last) (set_char i x) := by
  rintro buf other ⟨d, tail, tail', rfl, h, h'⟩
  have hd : d = d.take i ++ d[i] :: d.drop (i + 1) := by simp
  have hlen : (d.take i).length = i := List.length_take_of_le (Nat.le_of_lt hi)
  have hsplit : ∀ tail : List Byte,
      d ++ 0 :: tail = d.take i ++ d[i] :: (d.drop (i + 1) ++ 0 :: tail) := by
    intro tail
    conv_lhs => rw [hd]
    rw [List.append_assoc, List.cons_append]
  obtain ⟨buf₁, hrun, hbytes⟩ := set_char_run x (h.trans (hsplit tail)) hlen
  obtain ⟨other₁, hrun', hbytes'⟩ := set_char_run x (h'.trans (hsplit tail')) hlen
  rw [hrun, hrun']
  refine Agrees.ok () ⟨d.take i ++ x :: d.drop (i + 1), tail, tail', ?_, ?_, ?_⟩
  · rw [List.length_append, List.length_cons, hlen, List.length_drop]
    omega
  · rw [hbytes, List.append_assoc, List.cons_append]
  · rw [hbytes', List.append_assoc, List.cons_append]

/-- The string that starts at a position of the string. -/
theorem string_at_start {d tail : List Byte} (h : buf.bytes = d ++ 0 :: tail)
    (hi : i ≤ d.length) : string_at i buf = .ok (CString.ofBytes (d.drop i)) buf := by
  have hdrop : buf.bytes.drop i = d.drop i ++ 0 :: tail := by
    rw [h, List.drop_append_of_le_length hi]
  have hstring : CString.ofBytes (d.drop i ++ 0 :: tail) = CString.ofBytes (d.drop i) :=
    cstring_ext (cutAtNul_append_nul _ _)
  have hmem : (0 : Byte) ∈ d.drop i ++ 0 :: tail :=
    List.mem_append_right _ (List.mem_cons_self ..)
  simp [string_at, hdrop, hstring]

/-- So is the string at a position there. -/
theorem string_at_agreeing (hi : i ≤ last) :
    Agreeing (SameStart (n := n) last) (string_at i) := by
  rintro buf other ⟨d, tail, tail', rfl, h, h'⟩
  rw [string_at_start h hi, string_at_start h' hi]
  exact Agrees.ok _ ⟨d, tail, tail', rfl, h, h'⟩

theorem string_at_returns (h : SameStart last buf other) :
    Returns (fun command_str => command_str.chars.length ≤ last) (string_at 0) buf := by
  obtain ⟨d, tail, tail', rfl, h, -⟩ := h
  unfold Returns
  rw [string_at_start h (Nat.zero_le _)]
  exact (List.takeWhile_sublist _).length_le

/-! ## Section 3: The parser -/

theorem skip_delimiters_agreeing (h : i + left ≤ last) :
    Agreeing (SameStart (n := n) last) (skip_delimiters left i) := by
  induction left generalizing i with
  | zero => exact Agreeing.pure _
  | succ left ih =>
    apply Agreeing.bind (char_at_agreeing (by omega))
    intro c
    apply Agreeing.ite
    · exact Agreeing.pure _
    · exact ih (by omega)

theorem skip_delimiters_returns (left i : Nat) (buf : CharBuf n) :
    Returns (fun cur_char_index => cur_char_index ≤ i + left) (skip_delimiters left i) buf := by
  -- The index never passes the end of the line.
  induction left generalizing i buf with
  | zero => exact Nat.le_refl i
  | succ left ih =>
    apply Returns.after
    intro c buf'
    apply Returns.ite
    · exact fun _ => Nat.le_add_right i (left + 1)
    · intro _
      apply (ih (i + 1) buf').mono
      intro j hj
      omega

/-- Both loops find the same tokens. -/
theorem cmd_tokenize_loop_agreeing (h : i + left ≤ last) (tokens : List Nat) :
    Agreeing (SameStart (n := n) last)
      (cmd_tokenize_loop command_length capacity left i tokens) := by
  -- Only characters up to `last` are read, and the two buffers agree there.
  induction left generalizing i tokens with
  | zero => exact Agreeing.pure _
  | succ left ih =>
    apply Agreeing.bind (char_at_agreeing (by omega))
    intro c
    apply Agreeing.ite
    · apply Agreeing.bind (set_char_agreeing 0 (by omega))
      intro _
      apply Agreeing.ite
      · exact Agreeing.pure _
      · apply Agreeing.bind (char_at_agreeing (by omega))
        intro next
        apply Agreeing.ite
        · exact ih (by omega) _
        · apply Agreeing.ite
          · exact Agreeing.returnStatus _
          · exact ih (by omega) _
    · exact ih (by omega) _

/-- Every token starts in the string. -/
theorem cmd_tokenize_loop_returns (left i : Nat) (buf : CharBuf n)
    (h : ∀ token ∈ tokens, token < command_length) :
    Returns (fun tokens' => ∀ token ∈ tokens', token < command_length)
      (cmd_tokenize_loop command_length capacity left i tokens) buf := by
  induction left generalizing i tokens buf with
  | zero => exact h
  | succ left ih =>
    apply Returns.after
    intro c buf₁
    apply Returns.ite
    · intro _
      apply Returns.after
      intro _ buf₂
      apply Returns.ite
      · exact fun _ => h
      · intro hmore
        apply Returns.after
        intro next buf₃
        apply Returns.ite
        · exact fun _ => ih _ buf₃ h
        · intro _
          apply Returns.ite
          · exact fun _ => trivial
          · intro _
            apply ih
            -- the new token is in front of the end
            intro token htoken
            rcases List.mem_append.mp htoken with htoken | htoken
            · exact h token htoken
            · rw [List.mem_singleton.mp htoken]
              exact Nat.lt_of_not_le hmore
    · exact fun _ => ih _ buf₁ h

/-- Both tokenizers find the same tokens. -/
theorem cmd_tokenize_agreeing (capacity : Nat) :
    Agreeing (SameStart (n := n) last) (cmd_tokenize capacity) := by
  apply Agreeing.guard
  apply Agreeing.bind_returned (string_at_agreeing (Nat.zero_le _))
  · exact fun _ _ h => string_at_returns h
  intro command_str hle
  apply Agreeing.guard
  apply Agreeing.bind_returned (skip_delimiters_agreeing (by omega))
  · exact fun buf _ _ => skip_delimiters_returns _ _ buf
  intro cur_char_index hindex
  apply Agreeing.guard
  exact cmd_tokenize_loop_agreeing (by omega) _

/-- All tokens are in front of `last`. -/
theorem cmd_tokenize_returns (h : SameStart last buf other) (capacity : Nat) :
    Returns (fun tokens => ∀ token ∈ tokens, token < last) (cmd_tokenize capacity) buf := by
  apply Returns.guard
  intro _
  apply (string_at_returns h).bind
  intro command_str buf₁ hle
  apply Returns.guard
  intro _
  apply (skip_delimiters_returns _ _ buf₁).bind
  intro cur_char_index buf₂ hindex
  apply Returns.guard
  intro hne
  have hfirst : ∀ token ∈ [cur_char_index], token < command_str.chars.length := by
    intro token htoken
    rw [List.mem_singleton.mp htoken]
    omega
  apply (cmd_tokenize_loop_returns _ _ buf₂ hfirst).mono
  exact fun tokens hlt token htoken => Nat.lt_of_lt_of_le (hlt token htoken) hle

/-- Both loops parse the same tokens. -/
theorem cmd_parse_loop_agreeing (htokens : ∀ token ∈ tokens, token < last)
    (out_command : ParsedCommand) :
    Agreeing (SameStart (n := n) last) (cmd_parse_loop tokens out_command) := by
  induction tokens generalizing out_command with
  | nil => exact Agreeing.pure _
  | cons token tokens ih =>
    have htoken : token < last := htokens token (List.mem_cons_self ..)
    have ih := ih fun t ht => htokens t (List.mem_cons_of_mem token ht)
    apply Agreeing.bind (char_at_agreeing (Nat.le_of_lt htoken))
    intro c
    apply Agreeing.ite
    · split
      · exact Agreeing.returnStatus _
      · -- the terminator of the string is not passed
        apply Agreeing.bind_returned (char_at_agreeing htoken)
        · exact fun _ _ h => char_at_returns h
        intro opt hopt
        apply Agreeing.guard_neg
        intro hzero
        apply Agreeing.bind (char_at_agreeing (hopt hzero htoken))
        intro terminator
        apply Agreeing.guard
        exact ih _
    · split
      · exact Agreeing.returnStatus _
      · exact ih _

/-- Both parsers read the same command. -/
theorem cmd_parse_agreeing : Agreeing (SameStart (n := n) last) cmd_parse := by
  apply Agreeing.bind (string_at_agreeing (Nat.zero_le _))
  intro command_str
  apply Agreeing.guard
  apply Agreeing.guard
  apply Agreeing.bind_returned (cmd_tokenize_agreeing _)
  · exact fun _ _ h => cmd_tokenize_returns h _
  intro tokens htokens
  cases tokens with
  | nil => exact Agreeing.returnStatus _
  | cons token tokens =>
    have htoken : token < last := htokens token (List.mem_cons_self ..)
    apply Agreeing.bind (string_at_agreeing (Nat.le_of_lt htoken))
    intro func_str
    apply Agreeing.bind (Agreeing.ofExcept _)
    intro func
    exact cmd_parse_loop_agreeing (fun t ht => htokens t (List.mem_cons_of_mem token ht)) _

/-- **Parsing a line**: the same command or the same status, whatever the buffer holds
    behind the line. -/
theorem cmd_parse_same {tail tail' : List Byte} (h : buf.bytes = line.chars ++ 0 :: tail)
    (h' : other.bytes = line.chars ++ 0 :: tail')
    (hlength : line.chars.length ≤ MAX_COMMAND_LENGTH) :
    (∃ cur_command b b', cmd_parse buf = .ok cur_command b ∧
      cmd_parse other = .ok cur_command b' ∧ cur_command.command b' = cur_command.command b) ∨
    ∃ e b b', cmd_parse buf = .fail e b ∧ cmd_parse other = .fail e b' := by
  have hagrees := cmd_parse_agreeing buf other ⟨line.chars, tail, tail', rfl, h, h'⟩
  have hline := cmd_parse_commandOf h hlength
  have hline' := cmd_parse_commandOf h' hlength
  generalize cmd_parse buf = o at hagrees hline ⊢
  generalize cmd_parse other = o' at hagrees hline' ⊢
  cases hagrees with
  | @ok cur_command b b' _ =>
    exact Or.inl ⟨cur_command, b, b', rfl, rfl, Option.some.inj (hline'.symm.trans hline)⟩
  | @fail e b b' _ => exact Or.inr ⟨e, b, b', rfl, rfl⟩
  | fault x => exact hline.elim

end VirtualFS
