import VirtualFS.Cli.Tokenizer

/-! # Parsing Commands

    `cmd_parse` reads the words of a command string: a function name, options of
    one letter and arguments. The limits on tokens, options and arguments agree,
    so that exactly the command language is accepted.

    * `IsCommand`: the command language, on lists of words.
    * `CommandHolds`: a parsed command holds the words, as positions in the buffer.
    * `cmd_parse_exact`: success, the tokens, and that spacing does not matter.
-/

namespace VirtualFS

open Framework Prog Outcome

variable {n : Nat} {buf buf' : CharBuf n} {c : Byte} {rest w : List Byte}
  {ws : List (List Byte)} {tokens : List Nat}

/-! ## Section 1: Options and arguments -/

/-- The word starts with the prefix of options. -/
def isOption (w : List Byte) : Bool := w.head? = some OPTION_PREFIX

/-- The options among the words. -/
def optionWords (ws : List (List Byte)) : List (List Byte) := ws.filter isOption

/-- The arguments among the words. -/
def argumentWords (ws : List (List Byte)) : List (List Byte) := ws.filter fun w => !isOption w

theorem optionWords_of_option (hw : isOption w = true) :
    optionWords (w :: ws) = w :: optionWords ws := List.filter_cons_of_pos hw

theorem optionWords_of_argument (hw : isOption w = false) :
    optionWords (w :: ws) = optionWords ws := by
  simp [optionWords, hw]

theorem argumentWords_of_option (hw : isOption w = true) :
    argumentWords (w :: ws) = argumentWords ws := by
  simp [argumentWords, hw]

theorem argumentWords_of_argument (hw : isOption w = false) :
    argumentWords (w :: ws) = w :: argumentWords ws := by
  simp [argumentWords, hw]

/-- What the words behind the function have to be like when `opts` options and
    `args` arguments are already there. -/
structure LaterWordsOk (opts args : Nat) (ws : List (List Byte)) : Prop where
  option_length : ∀ w ∈ ws, isOption w = true → w.length = 2
  options_le : opts + (optionWords ws).length ≤ MAX_CMD_OPTION_AMOUNT
  arguments_le : args + (argumentWords ws).length ≤ MAX_CMD_ARGUMENT_AMOUNT

variable {opts args : Nat}

/-- An option is counted. -/
theorem laterWordsOk_option (hw : isOption w = true) :
    LaterWordsOk opts args (w :: ws) ↔ w.length = 2 ∧ LaterWordsOk (opts + 1) args ws := by
  have hopts := @optionWords_of_option w ws hw
  have hargs := @argumentWords_of_option w ws hw
  constructor
  · intro ⟨hlength, hle, hle'⟩
    rw [hopts, List.length_cons] at hle
    rw [hargs] at hle'
    exact ⟨hlength w (List.mem_cons_self ..) hw,
      fun x hx => hlength x (List.mem_cons_of_mem w hx), by omega, hle'⟩
  · intro ⟨htwo, hlength, hle, hle'⟩
    refine ⟨?_, by rw [hopts, List.length_cons]; omega, by rwa [hargs]⟩
    intro x hx hopt
    rcases List.mem_cons.mp hx with rfl | hx
    · exact htwo
    · exact hlength x hx hopt

/-- An argument is counted. -/
theorem laterWordsOk_argument (hw : isOption w = false) :
    LaterWordsOk opts args (w :: ws) ↔ LaterWordsOk opts (args + 1) ws := by
  have hopts := @optionWords_of_argument w ws hw
  have hargs := @argumentWords_of_argument w ws hw
  constructor
  · intro ⟨hlength, hle, hle'⟩
    rw [hopts] at hle
    rw [hargs, List.length_cons] at hle'
    exact ⟨fun x hx => hlength x (List.mem_cons_of_mem w hx), hle, by omega⟩
  · intro ⟨hlength, hle, hle'⟩
    refine ⟨?_, by rwa [hopts], by rw [hargs, List.length_cons]; omega⟩
    intro x hx hopt
    rcases List.mem_cons.mp hx with rfl | hx
    · rw [hw] at hopt
      cases hopt
    · exact hlength x hx hopt

/-- The options as the words they were. -/
def ParsedCommand.optionWords (out_command : ParsedCommand) : List (List Byte) :=
  out_command.opts.map fun opt => [OPTION_PREFIX, opt]

theorem optionWords_addOption {out_command : ParsedCommand} {opt : Byte}
    (h : out_command.opts.length ≠ MAX_CMD_OPTION_AMOUNT) :
    (out_command.addOption opt h).optionWords =
      out_command.optionWords ++ [[OPTION_PREFIX, opt]] :=
  List.map_append

/-- An option of one letter is taken when there is room for it. -/
theorem cmd_parse_loop_option {token : Nat} {opt : Byte} {out_command : ParsedCommand}
    (htoken : TokenAt buf token [OPTION_PREFIX, opt]) (hopt : ¬ opt = 0)
    (hroom : ¬ out_command.opts.length = MAX_CMD_OPTION_AMOUNT) :
    cmd_parse_loop (token :: tokens) out_command buf =
      cmd_parse_loop tokens (out_command.addOption opt hroom) buf := by
  have hprefix : char_at token buf = .ok OPTION_PREFIX buf := char_at_token (k := 0) htoken rfl
  have hletter : char_at (token + 1) buf = .ok opt buf := char_at_token htoken rfl
  have hterminator : char_at (token + 2) buf = .ok 0 buf := char_at_token htoken rfl
  rw [cmd_parse_loop, bind_run, hprefix, bind_ok, ite_run, if_pos rfl, dif_neg hroom]
  simp only [bind_run, hletter, bind_ok, hopt, if_false, hterminator, ne_eq, not_true_eq_false]

/-- Other options are refused. -/
theorem cmd_parse_loop_option_fails (tokens : List Nat) {token : Nat} {out_command : ParsedCommand}
    (htoken : TokenAt buf token w) (hw : isOption w = true) (hnul : (0 : Byte) ∉ w)
    (h : out_command.opts.length = MAX_CMD_OPTION_AMOUNT ∨ w.length ≠ 2) :
    ∃ e, cmd_parse_loop (token :: tokens) out_command buf = .fail e buf := by
  obtain ⟨w, rfl⟩ : ∃ w', w = OPTION_PREFIX :: w' :=
    List.head?_eq_some_iff.mp (of_decide_eq_true hw)
  have hprefix : char_at token buf = .ok OPTION_PREFIX buf := char_at_token (k := 0) htoken rfl
  rw [cmd_parse_loop, bind_run, hprefix, bind_ok, ite_run, if_pos rfl]
  by_cases hfull : out_command.opts.length = MAX_CMD_OPTION_AMOUNT
  · rw [dif_pos hfull]
    exact ⟨_, rfl⟩
  · rw [dif_neg hfull]
    match w with
    | [] =>
      -- the prefix alone
      have hletter : char_at (token + 1) buf = .ok 0 buf := char_at_token htoken rfl
      exact ⟨.INVALID_CMD_OPT, by simp [hletter]⟩
    | [opt] =>
      rcases h with h | h
      · exact absurd h hfull
      · exact absurd rfl h
    | opt :: d :: w =>
      -- more than one letter
      have hletter : char_at (token + 1) buf = .ok opt buf := char_at_token htoken rfl
      have hterminator : char_at (token + 2) buf = .ok d buf := char_at_token htoken rfl
      have hd : ¬ d = 0 := by
        intro rfl
        exact hnul (by simp)
      exact ⟨.INVALID_CMD_OPT, by simp [hletter, hterminator, hd]⟩

theorem cmd_parse_loop_argument {token : Nat} {out_command : ParsedCommand}
    (hread : char_at token buf = .ok c buf) (hc : c ≠ OPTION_PREFIX) :
    cmd_parse_loop (token :: tokens) out_command buf =
      if h : out_command.args.length = MAX_CMD_ARGUMENT_AMOUNT then
        .fail .TOO_MANY_ARGUMENTS buf
      else
        cmd_parse_loop tokens (out_command.addArgument token h) buf := by
  rw [cmd_parse_loop, bind_run, hread, bind_ok, ite_run, if_neg hc]
  split
  · rfl
  · rfl

/-- The loop sorts the words into options and arguments. -/
theorem cmd_parse_loop_sat (htokens : List.Forall₂ (TokenAt buf) tokens ws)
    (hws : ∀ w ∈ ws, w ≠ [] ∧ (0 : Byte) ∉ w) (out_command : ParsedCommand) :
    (cmd_parse_loop tokens out_command buf).Sat
      (fun out_command' buf' => buf' = buf ∧
        LaterWordsOk out_command.opts.length out_command.args.length ws ∧
        out_command'.func = out_command.func ∧
        out_command'.optionWords = out_command.optionWords ++ optionWords ws ∧
        ∃ args, out_command'.args = out_command.args ++ args ∧
          List.Forall₂ (TokenAt buf) args (argumentWords ws))
      (fun _ _ => ¬ LaterWordsOk out_command.opts.length out_command.args.length ws)
      (fun _ => False) := by
  -- the words that are still to come are judged by what is in the command already
  induction htokens generalizing out_command with
  | nil =>
    refine ⟨rfl, ⟨by simp, ?_, ?_⟩, rfl, ?_, [], ?_, List.Forall₂.nil⟩
    · exact out_command.opts_amount_le
    · exact out_command.args_amount_le
    · exact (List.append_nil _).symm
    · exact (List.append_nil _).symm
  | @cons token w tokens ws htoken _ ih =>
    obtain ⟨hne, hnul⟩ := hws w (List.mem_cons_self ..)
    have hws' : ∀ x ∈ ws, x ≠ [] ∧ (0 : Byte) ∉ x := fun x hx => hws x (List.mem_cons_of_mem w hx)
    match hw : isOption w with
    | true =>
      rw [laterWordsOk_option hw, optionWords_of_option hw, argumentWords_of_option hw]
      by_cases hbad : out_command.opts.length = MAX_CMD_OPTION_AMOUNT ∨ w.length ≠ 2
      · obtain ⟨e, hrun⟩ := cmd_parse_loop_option_fails tokens htoken hw hnul hbad
        rw [hrun, sat_fail]
        intro ⟨hlength, hok⟩
        have := hok.options_le
        rcases hbad with hfull | hbad
        · omega
        · exact hbad hlength
      · -- the word is the prefix and one letter
        rw [not_or, ne_eq, not_not] at hbad
        obtain ⟨c, opt, rfl⟩ := List.length_eq_two.mp hbad.2
        obtain rfl : c = OPTION_PREFIX := Option.some.inj (of_decide_eq_true hw)
        have hopt : ¬ opt = 0 := by
          intro rfl
          exact hnul (by simp)
        have hcount : (out_command.addOption opt hbad.1).opts.length =
            out_command.opts.length + 1 := List.length_append
        rw [cmd_parse_loop_option htoken hopt hbad.1]
        apply (ih hws' (out_command.addOption opt hbad.1)).mono
        · intro out_command' buf' ⟨hbuf, hok, hfunc, hwords, hnewArgs⟩
          rw [hcount] at hok
          refine ⟨hbuf, ⟨rfl, hok⟩, hfunc, ?_, hnewArgs⟩
          rw [hwords, optionWords_addOption, List.append_assoc]
          rfl
        · intro _ _ hnot ⟨_, hok⟩
          rw [hcount] at hnot
          exact hnot hok
        · exact fun _ h => h
    | false =>
      rw [laterWordsOk_argument hw, optionWords_of_argument hw, argumentWords_of_argument hw]
      obtain ⟨c, w, rfl⟩ := List.exists_cons_of_ne_nil hne
      have hc : c ≠ OPTION_PREFIX := by
        intro rfl
        cases hw
      have hread : char_at token buf = .ok c buf := char_at_token (k := 0) htoken rfl
      rw [cmd_parse_loop_argument hread hc]
      by_cases hfull : out_command.args.length = MAX_CMD_ARGUMENT_AMOUNT
      · rw [dif_pos hfull, sat_fail]
        intro hok
        have := hok.arguments_le
        omega
      · have hcount : (out_command.addArgument token hfull).args.length =
            out_command.args.length + 1 := List.length_append
        rw [dif_neg hfull]
        apply (ih hws' (out_command.addArgument token hfull)).mono
        · intro out_command' buf' ⟨hbuf, hok, hfunc, hwords, args, hout, hnewArgs⟩
          rw [hcount] at hok
          refine ⟨hbuf, hok, hfunc, hwords, token :: args, ?_, List.Forall₂.cons htoken hnewArgs⟩
          rw [hout]
          exact List.append_assoc ..
        · intro _ _ hnot hok
          rw [hcount] at hnot
          exact hnot hok
        · exact fun _ h => h

/-! ## Section 2: The command language -/

/-- The words of a command: a function name, options of one letter and
    arguments, not too many of either. -/
def IsCommand (ws : List (List Byte)) : Prop :=
  ∃ name later, ws = name :: later ∧ (∃ func, (func, name) ∈ COMMAND_TABLE) ∧
    (∀ w ∈ later, isOption w = true → w.length = 2) ∧
    (optionWords later).length ≤ MAX_CMD_OPTION_AMOUNT ∧
    (argumentWords later).length ≤ MAX_CMD_ARGUMENT_AMOUNT

/-- The parsed command is the one that the words say; its arguments are
    terminated strings in the buffer. -/
def CommandHolds (buf : CharBuf n) (out_command : ParsedCommand) (ws : List (List Byte)) : Prop :=
  ∃ name later, ws = name :: later ∧ (out_command.func, name) ∈ COMMAND_TABLE ∧
    out_command.optionWords = optionWords later ∧
    List.Forall₂ (TokenAt buf) out_command.args (argumentWords later)

theorem isCommand_cons {name : List Byte} :
    IsCommand (name :: ws) ↔ (∃ func, (func, name) ∈ COMMAND_TABLE) ∧ LaterWordsOk 0 0 ws := by
  constructor
  · intro ⟨_, _, heq, hfunc, hlength, hopts, hargs⟩
    obtain ⟨rfl, rfl⟩ := List.cons.inj heq
    exact ⟨hfunc, hlength, by omega, by omega⟩
  · intro ⟨hfunc, hlength, hopts, hargs⟩
    exact ⟨name, ws, rfl, hfunc, hlength, by omega, by omega⟩

/-- The limits on options and arguments leave room for every token. -/
theorem IsCommand.length_le (h : IsCommand ws) : ws.length ≤ MAX_TOKENS_AMOUNT := by
  obtain ⟨name, later, rfl, -, -, hopts, hargs⟩ := h
  have hsplit : later.length = (optionWords later).length + (argumentWords later).length :=
    List.length_eq_length_filter_add isOption
  unfold MAX_TOKENS_AMOUNT
  rw [List.length_cons]
  omega

theorem resolve_cmd_function_ok {s : CString} {func : CommandFunction}
    (h : resolve_cmd_function s = .ok func) : (func, s.chars) ∈ COMMAND_TABLE := by
  unfold resolve_cmd_function at h
  split at h
  · cases h
  · split at h
    · next entry hfind =>
      cases h
      have hname : s.chars = entry.2 := by simpa using List.find?_some hfind
      rw [hname]
      exact List.mem_of_find?_eq_some hfind
    · cases h

theorem resolve_cmd_function_error {s : CString} {e : StatusCode}
    (h : resolve_cmd_function s = .error e) (hne : s.chars ≠ []) (func : CommandFunction) :
    (func, s.chars) ∉ COMMAND_TABLE := by
  intro hmem
  unfold resolve_cmd_function at h
  rw [if_neg hne] at h
  split at h
  · cases h
  · next hfind =>
    have := List.find?_eq_none.mp hfind _ hmem
    simp at this

/-- The words of a C string can be tokens. -/
theorem words_ok (s : CString) :
    ∀ w ∈ words COMMAND_DELIMITER s.chars, w ≠ [] ∧ (0 : Byte) ∉ w :=
  fun _ hw => ⟨ne_nil_of_mem_words hw, fun h0 => s.nul_free (mem_of_mem_words hw h0)⟩

/-- From the tokens on: the first is the function, the others are sorted. -/
theorem parse_tokens_sat {token : Nat} {name : List Byte} (htoken : TokenAt buf token name)
    (htokens : List.Forall₂ (TokenAt buf) tokens ws)
    (hok : ∀ w ∈ name :: ws, w ≠ [] ∧ (0 : Byte) ∉ w) :
    ((do
        let func_str ← string_at token
        let func ← ofExcept (resolve_cmd_function func_str)
        cmd_parse_loop tokens ⟨func, [], [], Nat.zero_le _, Nat.zero_le _⟩ :
          Sys (CharBuf n) ParsedCommand) buf).Sat
      (fun out_command buf' => IsCommand (name :: ws) ∧ CommandHolds buf' out_command (name :: ws))
      (fun _ _ => ¬ IsCommand (name :: ws)) (fun _ => False) := by
  obtain ⟨hne, hnul⟩ := hok name (List.mem_cons_self ..)
  rw [bind_run, string_at_run htoken hnul, bind_ok, bind_run, isCommand_cons]
  match hfunc : resolve_cmd_function ⟨name, hnul⟩ with
  | .error e =>
    rw [ofExcept_error_run, bind_fail, sat_fail]
    intro ⟨⟨func, hmem⟩, _⟩
    exact resolve_cmd_function_error hfunc hne func hmem
  | .ok func =>
    have hmem := resolve_cmd_function_ok hfunc
    rw [ofExcept_ok_run, bind_ok]
    apply (cmd_parse_loop_sat htokens (fun w hw => hok w (List.mem_cons_of_mem name hw)) _).mono
    · intro out_command' _ ⟨rfl, hlater, hsame, hopts, args, hargs, hheld⟩
      refine ⟨⟨⟨func, hmem⟩, hlater⟩, name, ws, rfl, ?_, hopts, ?_⟩
      · rw [hsame]
        exact hmem
      · rw [hargs]
        exact hheld
    · exact fun _ _ hnot hcommand => hnot hcommand.2
    · exact fun _ h => h

/-- What `cmd_parse` accepts and returns. -/
theorem cmd_parse_sat {s : CString} (h : buf.bytes = s.chars ++ 0 :: rest) :
    (cmd_parse buf).Sat
      (fun out_command buf' => (s.chars.length ≤ MAX_COMMAND_LENGTH ∧
        IsCommand (words COMMAND_DELIMITER s.chars)) ∧
        CommandHolds buf' out_command (words COMMAND_DELIMITER s.chars))
      (fun _ _ => ¬ (s.chars.length ≤ MAX_COMMAND_LENGTH ∧
        IsCommand (words COMMAND_DELIMITER s.chars)))
      (fun _ => False) := by
  have hstring : string_at 0 buf = .ok s buf :=
    string_at_run (show TokenAt buf 0 s.chars from ⟨rest, h⟩) s.nul_free
  have hok := words_ok s
  unfold cmd_parse
  simp only [bind_run, hstring, bind_ok, ite_run]
  by_cases hempty : s.chars.length = 0
  · -- no words at all
    simp only [hempty, if_true, returnStatus_run, bind_fail, sat_fail]
    rw [List.length_eq_zero_iff.mp hempty]
    rintro ⟨_, name, later, hwords, _⟩
    cases hwords
  by_cases hlong : s.chars.length > MAX_COMMAND_LENGTH
  · simp only [hempty, if_false, hlong, if_true, returnStatus_run, bind_fail, sat_fail]
    rintro ⟨hle, _⟩
    omega
  have hle : s.chars.length ≤ MAX_COMMAND_LENGTH := Nat.le_of_not_lt hlong
  have htokenize := cmd_tokenize_sat h (show 1 ≤ MAX_TOKENS_AMOUNT from by decide)
  simp only [hempty, hlong, if_false]
  rcases htokenize.ok_or_fail with ⟨tokens, buf', hrun, -, htokens⟩ | ⟨e, buf', hrun, hlimit⟩
  · -- the command is decided by the words alone
    rw [hrun, bind_ok]
    generalize words COMMAND_DELIMITER s.chars = ws at htokens hok ⊢
    cases htokens with
    | nil =>
      show ¬ _
      rintro ⟨_, name, later, hwords, _⟩
      cases hwords
    | cons htoken htokens =>
      apply (parse_tokens_sat htoken htokens hok).mono
      · exact fun _ _ hcommand => ⟨⟨hle, hcommand.1⟩, hcommand.2⟩
      · exact fun _ _ hnot hcommand => hnot hcommand.2
      · exact fun _ h => h
  · -- no words or too many
    rw [hrun, bind_fail, sat_fail]
    rintro ⟨_, hcommand⟩
    rcases hlimit with hnone | hmany
    · obtain ⟨name, later, hwords, -⟩ := hcommand
      rw [hnone] at hwords
      cases hwords
    · have := hcommand.length_le
      omega

/-- The names of the table differ. -/
theorem func_unique {func func' : CommandFunction} {name : List Byte}
    (h : (func, name) ∈ COMMAND_TABLE) (h' : (func', name) ∈ COMMAND_TABLE) : func = func' := by
  have hunique : ∀ e ∈ COMMAND_TABLE, ∀ e' ∈ COMMAND_TABLE, e.2 = e'.2 → e.1 = e'.1 := by
    decide +kernel
  exact hunique _ h _ h' rfl

/-- The strings that the tokens are. -/
theorem map_ofBytes_tokens (h : List.Forall₂ (TokenAt buf) tokens ws) :
    (tokens.map fun token => CString.ofBytes (buf.bytes.drop token)) =
      ws.map CString.ofBytes := by
  induction h with
  | nil => rfl
  | cons htoken _ ih =>
    obtain ⟨tail, hdrop⟩ := htoken
    rw [List.map_cons, List.map_cons, ih, hdrop]
    simp [CString.ofBytes, cutAtNul_append_nul]

/-- The words say which command it is. -/
theorem CommandHolds.command_eq {m : Nat} {other : CharBuf m} {a b : ParsedCommand}
    (h : CommandHolds buf a ws) (h' : CommandHolds other b ws) :
    a.command buf = b.command other := by
  obtain ⟨name, later, rfl, hfunc, hopts, hargs⟩ := h
  obtain ⟨_, _, heq, hfunc', hopts', hargs'⟩ := h'
  obtain ⟨rfl, rfl⟩ := List.cons.inj heq
  -- an option word is the prefix and the letter
  have hletters : a.opts = b.opts := by
    apply List.map_injective_iff.mpr _ (hopts.trans hopts'.symm)
    intro x y hxy
    exact (List.cons.inj (List.cons.inj hxy).2).1
  simp only [ParsedCommand.command, Command.mk.injEq]
  exact ⟨func_unique hfunc hfunc', hletters,
    (map_ofBytes_tokens hargs).trans (map_ofBytes_tokens hargs').symm⟩

/-- **`cmd_parse` accepts exactly the command language.** A C string is parsed
    when it is not too long and its words are those of a command; the result is
    what the words say. The spacing makes no difference. -/
theorem cmd_parse_exact {n : Nat} (buf : CharBuf n) (s : CString) (rest : List Byte)
    (h : buf.bytes = s.chars ++ 0 :: rest) :
    ((cmd_parse buf).succeeded = true ↔
        s.chars.length ≤ MAX_COMMAND_LENGTH ∧ IsCommand (words COMMAND_DELIMITER s.chars)) ∧
      (cmd_parse buf).faulted = none ∧
      (∀ out_command buf', cmd_parse buf = .ok out_command buf' →
        CommandHolds buf' out_command (words COMMAND_DELIMITER s.chars)) ∧
      ∀ (m : Nat) (other : CharBuf m) (t : CString) (rest' : List Byte),
        other.bytes = t.chars ++ 0 :: rest' →
        words COMMAND_DELIMITER t.chars = words COMMAND_DELIMITER s.chars →
        t.chars.length ≤ MAX_COMMAND_LENGTH →
        ∀ out_command buf', cmd_parse buf = .ok out_command buf' →
          ∃ out_command' other', cmd_parse other = .ok out_command' other' ∧
            out_command'.command other' = out_command.command buf' := by
  have hsat := cmd_parse_sat h
  refine ⟨?_, hsat.faulted_eq_none, ?_, ?_⟩
  · exact hsat.succeeded_iff (fun _ _ h => h.1) fun _ _ h => h
  · intro out_command buf' hrun
    rw [hrun] at hsat
    exact hsat.2
  · intro m other t rest' hother hwords hle out_command buf' hrun
    rw [hrun] at hsat
    obtain ⟨⟨-, hcommand⟩, hholds⟩ := hsat
    have hsat' := cmd_parse_sat hother
    rw [hwords] at hsat'
    rcases hsat'.ok_or_fail with
      ⟨out_command', other', hrun', -, hholds'⟩ | ⟨e, other', hrun', hnot⟩
    · exact ⟨out_command', other', hrun', hholds'.command_eq hholds⟩
    · exact absurd ⟨hle, hcommand⟩ hnot

/-- Two spacings of `mv a -r`. -/
theorem cmd_parse_exact_mv :
    words COMMAND_DELIMITER (ascii " mv  a -r ") = words COMMAND_DELIMITER (ascii "mv a -r") ∧
      (cmd_parse (⟨ascii " mv  a -r " ++ [0], rfl⟩ : CharBuf 11)).succeeded = true := by
  have hexact := cmd_parse_exact (⟨ascii " mv  a -r " ++ [0], rfl⟩ : CharBuf 11)
    ⟨ascii " mv  a -r ", by decide⟩ [] rfl
  refine ⟨by decide, hexact.1.mpr ⟨by decide, ?_⟩⟩
  exact ⟨ascii "mv", [ascii "a", ascii "-r"], by decide, ⟨.CMD_MV, by decide⟩, by decide,
    by decide, by decide⟩

end VirtualFS
