import VirtualFS.Cli.CommandOperations

/-! # Executers Carry Out Operations

    Each executer runs the operation that its command asks for, prints the reply
    and returns the status, and so does the dispatcher.

    * `command_dispatch_carries`: what dispatching a command does, in terms of the
      operation that it stands for.
    * `command_carries`: the same in every reachable session.
    * `command_undefined_iff`: when dispatching has no defined end.
-/

namespace VirtualFS

open Framework Prog Outcome

variable {cli cli' : Cli} {ws ws' : Workspace} {cmd : Command} {op : WsOp}

/-! ## Section 1: Listing -/

theorem printing_printing (cli : Cli) (bytes bytes' : List Byte) :
    (cli.printing bytes).printing bytes' = cli.printing (bytes ++ bytes') := by
  simp [Cli.printing]

/-- A loop that prints at every index prints all of it in order. -/
theorem forEach_printing {ι : Type} {body : ι → Sys Cli Unit} {out : ι → List Byte}
    (h : ∀ i cli, body i cli = .ok () (cli.printing (out i))) (is : List ι) (cli : Cli) :
    forEach is body cli = .ok () (cli.printing (is.map out).flatten) := by
  induction is generalizing cli with
  | nil =>
    show Outcome.ok () cli = .ok () (cli.printing [])
    simp [Cli.printing]
  | cons i is ih =>
    rw [forEach_cons_run, h, bind_ok, ih, printing_printing]
    rfl

/-- A text is printed in front of what a loop prints. -/
theorem printf_forEach_run {ι : Type} (bytes : List Byte) (out : ι → List Byte) (is : List ι)
    (cli : Cli) :
    (do
      printf bytes
      forEach is fun i => printf (out i) : Sys Cli Unit) cli =
        .ok () (cli.printing (bytes ++ (is.map out).flatten)) := by
  rw [← printing_printing]
  exact forEach_printing (fun _ _ => rfl) is _

/-- The names of entries are the ends of their paths. -/
theorem names_of_shown {ns : List VFSNode} {es : List (List (List Byte) × Bool)}
    (hns : ∀ n ∈ ns, ws.entry_store.committed n) (hshow : List.Forall₂ ws.ShowsNode ns es) :
    ns.map ws.entry_store.nameOf = es.map fun e => e.1.getLast?.getD [] := by
  induction hshow with
  | nil => rfl
  | @cons n e ns es hhead _ ih =>
    obtain ⟨k, hk, -⟩ := path_eq_snoc (hns n (List.mem_cons_self ..)) hhead.1
    rw [List.map_cons, List.map_cons, ih fun m hm => hns m (List.mem_cons_of_mem n hm), hk,
      List.getLast?_concat]
    rfl

/-- The end of `cmd_ls_exec`. -/
def print_columns (es : VFSEntryStore) (nodes : List VFSNode) : Sys Cli Unit := do
  forEach nodes.zipIdx fun (node, i) => do
    if i ≠ 0 ∧ i % SUB_ENTRIES_PRINTED_PER_LINE = 0 then
      printf (ascii "\n")
    printf (print_entry_name_column (es.nameOf node))
  printf (ascii "\n")

/-- The columns are printed in one go. -/
theorem print_columns_run (es : VFSEntryStore) {nodes : List VFSNode} (hne : nodes ≠ [])
    (cli : Cli) :
    print_columns es nodes cli = .ok () (cli.printing (nameColumns (nodes.map es.nameOf))) := by
  -- what is printed for one entry: a line break after every full line, and its column
  have hbody : ∀ (p : VFSNode × Nat) (cli : Cli),
      ((if p.2 ≠ 0 ∧ p.2 % SUB_ENTRIES_PRINTED_PER_LINE = 0 then do
          printf (ascii "\n")
          printf (print_entry_name_column (es.nameOf p.1))
        else printf (print_entry_name_column (es.nameOf p.1)) : Sys Cli Unit) cli) =
        .ok () (cli.printing
          ((if p.2 ≠ 0 ∧ p.2 % SUB_ENTRIES_PRINTED_PER_LINE = 0 then ascii "\n" else []) ++
            print_entry_name_column (es.nameOf p.1))) := by
    intro p cli
    split
    · rw [← printing_printing]
      rfl
    · rfl
  unfold print_columns
  rw [bind_run, forEach_printing hbody, bind_ok]
  show Outcome.ok () ((cli.printing _).printing (ascii "\n")) = _
  rw [printing_printing]
  unfold nameColumns
  rw [if_neg (by simpa using hne), List.zipIdx_map, List.map_map]
  rfl

/-- Nothing is printed for an empty folder. -/
theorem print_listing_run (nodes : List VFSNode) (cli : Cli) :
    (readState >>= fun cli =>
      if nodes.length = 0 then pure ()
      else print_columns cli.workspace.entry_store nodes : Sys Cli Unit) cli =
      .ok () (cli.printing (nameColumns (nodes.map cli.workspace.entry_store.nameOf))) := by
  rw [bind_run, readState_run, bind_ok, ite_run]
  cases nodes with
  | nil =>
    show Outcome.ok () cli = .ok () (cli.printing [])
    simp [Cli.printing]
  | cons n ns =>
    have hlength : ¬ (n :: ns).length = 0 := Nat.succ_ne_zero _
    rw [if_neg hlength]
    exact print_columns_run _ (List.cons_ne_nil n ns) cli

/-- `ls` lists a folder in columns. -/
theorem cmd_ls_exec_carries (hws : WorkspaceSound cli.workspace) (hfunc : cmd.func = .CMD_LS) :
    cli.Carries (cmd_ls_exec cmd) cmd cmd.listing cli.stdin := by
  have hexits : cmd.exits = false := by simp [Command.exits, hfunc]
  unfold cmd_ls_exec Command.listing
  -- the two arity checks, in the order of the source
  by_cases hopts : cmd.opts = []
  swap
  · have hnot : ¬ (cmd.opts = [] ∧ cmd.args.length ≤ 1) := fun h => hopts h.1
    rw [if_neg hnot, if_pos (List.length_pos_iff.mpr hopts)]
    exact carries_of_fail rfl
  by_cases hlength : cmd.args.length ≤ 1
  swap
  · have hnot : ¬ (cmd.opts = [] ∧ cmd.args.length ≤ 1) := fun h => hlength h.2
    rw [if_neg hnot, if_neg (by simp [hopts]), if_pos (Nat.lt_of_not_le hlength)]
    exact carries_of_fail rfl
  rw [if_neg (by simp [hopts]), if_neg (Nat.not_lt.mpr hlength), if_pos ⟨hopts, hlength⟩]
  apply carries_operation rfl hexits
  intro nodes ws' hrun
  obtain ⟨r, -, rfl, -, rfl⟩ := ws_get_sub_entries_ok hrun
  have hexec : (WsOp.ws_get_sub_entries cmd.args.head?
      (MAX_SUB_FILES_AMOUNT + MAX_SUB_FOLDERS_AMOUNT)).exec cli.workspace =
        .ok (.nodes (cli.workspace.entry_store.children r)) cli.workspace := by
    show (ws_get_sub_entries _ _ _).bind _ = _
    rw [hrun]
    rfl
  show ((readState >>= fun cli' : Cli =>
      if (cli.workspace.entry_store.children r).length = 0 then pure ()
      else print_columns cli'.workspace.entry_store (cli.workspace.entry_store.children r) :
        Sys Cli Unit) cli).Sat _ _ _
  rw [print_listing_run]
  refine ⟨rfl, rfl, rfl, not_findsTooDeep (by simp [hfunc]), ?_⟩
  intro reply hshows
  cases reply with
  | done => exact hshows.elim
  | bytes data => exact hshows.elim
  | entries es =>
    have hrender : cmd.rendering (.entries es) =
        nameColumns (es.map fun e => e.1.getLast?.getD []) :=
      if_neg (by simp [hfunc])
    rw [hrender, ← names_of_shown (listed_committed hws hexec) hshows]
    rfl

/-! ## Section 2: Searching -/

/-- The end of `cmd_find_exec`. -/
def print_paths (es : VFSEntryStore) (nodes : List VFSNode) : Sys Cli Unit :=
  forEach nodes fun node =>
    match get_node_path es node (CharBuf.zeroed PATH_BUFFER_LENGTH) with
    | .ok _ path_buffer => printf (path_buffer.str ++ ascii "\n")
    | .fail e _ => returnStatus e
    | .fault x => undefinedBehaviour x

/-- The paths are printed until one of them is too deep. -/
theorem print_paths_sat (ht : FolderTree ws.entry_store) {nodes : List VFSNode}
    {es : List (List (List Byte) × Bool)} (hshow : List.Forall₂ ws.ShowsNode nodes es) (cli : Cli) :
    (print_paths ws.entry_store nodes cli).Sat
      (fun _ cli' => cli' = cli.printing (es.map fun e => pathString e.1 ++ ascii "\n").flatten ∧
        ∀ e ∈ es, e.1.length ≤ MAX_PATH_NODES_AMOUNT)
      (fun _ _ => False) (fun _ => ∃ e ∈ es, MAX_PATH_NODES_AMOUNT < e.1.length) := by
  -- On the entries; the first one that is too deep stops the printing, and the behaviour is
  -- undefined.
  induction hshow generalizing cli with
  | nil => exact ⟨by simp [Cli.printing], fun e he => absurd he List.not_mem_nil⟩
  | @cons n e nodes es hhead _ ih =>
    unfold print_paths
    rw [forEach_cons_run]
    by_cases hlen : e.1.length ≤ MAX_PATH_NODES_AMOUNT
    · obtain ⟨b, hb, hstr, -⟩ :=
        get_node_path_run ht hhead.1 hlen (CharBuf.zeroed PATH_BUFFER_LENGTH)
      rw [hb]
      apply (ih (cli.printing (b.str ++ ascii "\n"))).mono
      · rintro _ cli' ⟨rfl, hall⟩
        refine ⟨?_, ?_⟩
        · rw [printing_printing, hstr]
          rfl
        · intro e' he'
          rcases List.mem_cons.mp he' with rfl | he'
          · exact hlen
          · exact hall e' he'
      · exact fun _ _ h => h
      · rintro x ⟨e', he', hdeep⟩
        exact ⟨e', List.mem_cons_of_mem e he', hdeep⟩
    · rw [get_node_path_deep ht hhead.1 (Nat.lt_of_not_le hlen)]
      exact ⟨e, List.mem_cons_self .., Nat.lt_of_not_le hlen⟩

/-- `find` prints a path for each hit; a hit that lies too deep has no path. -/
theorem cmd_find_exec_carries (hws : WorkspaceSound cli.workspace) (hfunc : cmd.func = .CMD_FIND) :
    cli.Carries (cmd_find_exec cmd) cmd
      (cmd.oneArg fun name => .ws_global_search_by_name name QUERIES_NODE_BUFFER_SIZE)
      cli.stdin := by
  have hexits : cmd.exits = false := by simp [Command.exits, hfunc]
  have ht := hws.sound.tree
  apply carries_checked
  · exact fun hnot => ⟨oneArg_eq_none hnot, rfl⟩
  intro hopts hlength
  obtain ⟨name, hargs⟩ := List.length_eq_one_iff.mp hlength
  rw [oneArg_eq_some hopts hargs]
  apply carries_arg (by rw [hargs]; rfl)
  apply carries_operation rfl hexits
  intro nodes ws' hrun
  obtain ⟨rfl, -, rfl⟩ := ws_global_search_ok hrun
  have hexec : (WsOp.ws_global_search_by_name name QUERIES_NODE_BUFFER_SIZE).exec cli.workspace =
      .ok (.nodes (cli.workspace.entry_store.namesakes name.chars)) cli.workspace := by
    show (ws_global_search_by_name _ _ _).bind _ = _
    rw [hrun]
    rfl
  obtain ⟨es, hes⟩ := exists_shown ht (listed_committed hws hexec)
  -- an entry is shown too deep exactly when its node lies too deep
  have hdeep : (∃ e ∈ es, MAX_PATH_NODES_AMOUNT < e.1.length) ↔
      FindsTooDeep cli.workspace cmd (.ws_global_search_by_name name QUERIES_NODE_BUFFER_SIZE) := by
    constructor
    · rintro ⟨e, he, hlen⟩
      obtain ⟨n, hn, hpath, -⟩ := exists_of_mem_forall₂ hes he
      exact ⟨hfunc, _, _, n, e.1, hexec, hn, hpath, hlen⟩
    · rintro ⟨-, ns, ws', n, l, hexec', hn, hpath, hlen⟩
      rw [hexec] at hexec'
      cases hexec'
      have hshown : cli.workspace.ShowsNode n (l, (cli.workspace.itemOf n).isFolder) := ⟨hpath, rfl⟩
      exact ⟨_, (List.rel_mem (showsNode_biUnique ht) hshown hes).mp hn, hlen⟩
  apply (print_paths_sat ht hes cli).mono
  · rintro _ cli' ⟨rfl, hall⟩
    refine ⟨rfl, rfl, rfl, ?_, ?_⟩
    · intro htoo
      obtain ⟨e, he, hlen⟩ := hdeep.mpr htoo
      exact absurd (hall e he) (Nat.not_le.mpr hlen)
    · intro reply hshows
      cases reply with
      | done => exact hshows.elim
      | bytes data => exact hshows.elim
      | entries es' =>
        have hsame : es' = es := (showsNode_biUnique ht).2.forall₂ hshows hes
        have hrender : cmd.rendering (.entries es) =
            (es.map fun e => pathString e.1 ++ ascii "\n").flatten := if_pos hfunc
        rw [hsame, hrender]
        rfl
  · exact fun _ _ h => h
  · exact fun _ h => hdeep.mp h

/-! ## Section 3: Folders -/

/-- `cd` enters a folder and prints nothing. -/
theorem cmd_cd_exec_carries (hfunc : cmd.func = .CMD_CD) :
    cli.Carries (cmd_cd_exec cmd) cmd (cmd.oneArg .ws_change_cur_folder) cli.stdin := by
  have hexits : cmd.exits = false := by simp [Command.exits, hfunc]
  unfold cmd_cd_exec
  by_cases hlength : cmd.args.length = 1
  swap
  · rw [oneArg_eq_none fun h => hlength h.2]
    by_cases hzero : cmd.args.length = 0
    · rw [if_pos hzero]
      exact carries_of_fail rfl
    · rw [if_neg hzero, if_pos (by omega)]
      exact carries_of_fail rfl
  rw [if_neg (by omega), if_neg (by omega)]
  by_cases hopts : cmd.opts = []
  swap
  · rw [oneArg_eq_none fun h => hopts h.1, if_pos (List.length_pos_iff.mpr hopts)]
    exact carries_of_fail rfl
  obtain ⟨path, hargs⟩ := List.length_eq_one_iff.mp hlength
  rw [oneArg_eq_some hopts hargs, if_neg (by simp [hopts])]
  apply carries_arg (by rw [hargs]; rfl)
  exact carries_silent rfl (by simp [hfunc]) hexits

/-- `rmdir` removes a folder, with its one option recursively. -/
theorem cmd_rmdir_exec_carries (hfunc : cmd.func = .CMD_RMDIR) :
    cli.Carries (cmd_rmdir_exec cmd) cmd cmd.removal cli.stdin := by
  have hexits : cmd.exits = false := by simp [Command.exits, hfunc]
  have hle : cmd.opts.length ≤ 1 := cmd.opts_amount_le
  -- the removal itself, with and without the option
  have hremove : ∀ path recursive, cmd.args = [path] →
      cli.Carries (do onWorkspace (ws_remove_folder (← cmd.arg 0) recursive)) cmd
        (some (.ws_remove_folder path recursive)) cli.stdin := by
    intro path recursive hargs
    apply carries_arg (by rw [hargs]; rfl)
    exact carries_silent rfl (by simp [hfunc]) hexits
  unfold cmd_rmdir_exec
  rw [if_neg (Nat.not_lt.mpr hle)]
  by_cases hlength : cmd.args.length = 1
  swap
  · have hnone : cmd.removal = none := by
      unfold Command.removal
      split
      · next path _ hargs => exact absurd (by rw [hargs]; rfl) hlength
      · next opt path _ hargs => exact absurd (by rw [hargs]; rfl) hlength
      · rfl
    rw [hnone]
    by_cases hgt : cmd.args.length > 1
    · rw [if_pos hgt]
      exact carries_of_fail rfl
    · rw [if_neg hgt, if_pos (by omega)]
      exact carries_of_fail rfl
  obtain ⟨path, hargs⟩ := List.length_eq_one_iff.mp hlength
  rw [if_neg (by omega), if_neg (by omega)]
  unfold Command.removal
  rw [hargs]
  cases hopts : cmd.opts with
  | nil => exact hremove path false hargs
  | cons opt opts =>
    rw [hopts] at hle
    have hnil : opts = [] := List.eq_nil_of_length_eq_zero (by
      rw [List.length_cons] at hle
      exact Nat.le_zero.mp (Nat.le_of_succ_le_succ hle))
    rw [hnil]
    show cli.Carries (if opt ≠ RECURSIVE_OPTION then _ else _) cmd
      (if opt = RECURSIVE_OPTION then some (.ws_remove_folder path true) else none) cli.stdin
    by_cases hopt : opt = RECURSIVE_OPTION
    · rw [if_pos hopt]
      rw [if_neg (not_not_intro hopt)]
      exact hremove path true hargs
    · rw [if_neg hopt]
      rw [if_pos hopt]
      exact carries_of_fail rfl

/-! ## Section 4: Data -/

/-- Operations that reply with data, which is printed. -/
theorem carries_data {q : Sys Workspace (List Byte)} {next : List Byte → Sys Cli Unit}
    (hop : op.exec = returning q .bytes) (hfunc : cmd.func ≠ .CMD_FIND) (hexits : cmd.exits = false)
    (hnext : ∀ data cli, next data cli = .ok () (cli.printing (cmd.rendering (.bytes data)))) :
    cli.Carries (onWorkspace q >>= next) cmd (some op) cli.stdin := by
  apply carries_operation hop hexits
  intro data ws' _
  rw [hnext]
  refine ⟨rfl, rfl, rfl, not_findsTooDeep hfunc, ?_⟩
  intro reply hshows
  cases reply with
  | done => exact hshows.elim
  | bytes data' =>
    have hsame : data' = data := hshows
    rw [hsame]
    rfl
  | entries es => exact hshows.elim

/-- `cat` prints a whole file. -/
theorem cmd_cat_exec_carries (hfunc : cmd.func = .CMD_CAT) :
    cli.Carries (cmd_cat_exec cmd OUTPUT_BUFFER_SIZE) cmd
      (cmd.oneArg fun path => .ws_file_read_all path OUTPUT_BUFFER_SIZE) cli.stdin := by
  have hexits : cmd.exits = false := by simp [Command.exits, hfunc]
  unfold cmd_cat_exec
  rw [if_neg (by decide)]
  apply carries_checked
  · exact fun hnot => ⟨oneArg_eq_none hnot, rfl⟩
  intro hopts hlength
  obtain ⟨path, hargs⟩ := List.length_eq_one_iff.mp hlength
  rw [oneArg_eq_some hopts hargs]
  apply carries_arg (by rw [hargs]; rfl)
  apply carries_data rfl (by simp [hfunc]) hexits
  intro data cli
  unfold Command.rendering
  cases data with
  | nil => simp [hfunc, Cli.printing]
  | cons c data => simp [hfunc, printf, Cli.printing]

/-- Data is read before the path is looked at. -/
theorem cmd_append_exec_carries (hfunc : cmd.func = .CMD_APPEND) :
    cli.Carries (cmd_append_exec cmd INPUT_DATA_BUFFER_SIZE) cmd
      (cmd.appending (cmd.input cli.stdin).1) (cmd.input cli.stdin).2 := by
  have hexits : cmd.exits = false := by simp [Command.exits, hfunc]
  unfold Command.input
  apply carries_checked
  · intro hnot
    have hcollects : cmd.collects = false := by
      by_contra h
      simp only [Command.collects, hfunc, decide_true, Bool.true_and, Bool.not_eq_false,
        Bool.and_eq_true, List.isEmpty_iff, decide_eq_true_eq] at h
      exact hnot h
    rw [hcollects]
    exact ⟨rfl, rfl⟩
  intro hopts hlength
  have hcollects : cmd.collects = true := by simp [Command.collects, hfunc, hopts, hlength]
  obtain ⟨path, hargs⟩ := List.length_eq_one_iff.mp hlength
  rw [hcollects, if_pos rfl, if_neg (by decide)]
  have hread := multi_line_read_appended ⟨cli.stdin, cli.data_buffer⟩
  unfold Cli.Carries onInput
  rw [bind_run, zoom_run]
  rcases hread.ok_or_fail with ⟨amount, s', hrun, data, hdata, rfl, htake⟩ | ⟨e, s', hrun, hnone⟩
  · rw [hrun, mapState_ok, bind_ok, hdata]
    by_cases hempty : data = []
    · subst hempty
      exact ⟨rfl, by simp [hexits], rfl, [], by simp [Command.Says, hfunc],
        (List.append_nil _).symm⟩
    · have hasked : cmd.appending (some data) = some (.ws_file_append path data) := by
        show (if data = [] then none else cmd.oneArg (.ws_file_append · data)) = _
        rw [if_neg hempty, oneArg_eq_some hopts hargs]
      have hlength : ¬ data.length = 0 := by
        rw [List.length_eq_zero_iff]
        exact hempty
      rw [hasked]
      -- the operation gets what is in the buffer
      have hcarries : ({ cli with stdin := s'.stdin, data_buffer := s'.buffer } : Cli).Carries
          (cmd.arg 0 >>= fun path => onWorkspace
            (ws_file_append path (s'.buffer.bytes.take data.length))) cmd
          (some (.ws_file_append path data)) s'.stdin := by
        rw [htake]
        exact carries_arg (by rw [hargs]; rfl) (carries_silent rfl (by simp [hfunc]) hexits)
      simp only [hlength, if_false]
      exact hcarries
  · rw [hrun, mapState_fail, bind_fail, hnone]
    exact ⟨rfl, rfl, rfl, [], Or.inl rfl, (List.append_nil _).symm⟩

/-! ## Section 5: Numbers -/

/-- The checks behind a conversion. -/
theorem decimal_eq_some_iff {s : CString} {k : Nat} :
    decimal s = some k ↔ (strtol s.chars).termination_point = [] ∧
      (strtol s.chars).erange = false ∧ (strtol s.chars).value = k := by
  unfold decimal
  constructor
  · intro h
    split at h
    · next hs =>
      refine ⟨hs.1, hs.2.1, ?_⟩
      have := Option.some.inj h
      omega
    · cases h
  · rintro ⟨hend, hrange, hvalue⟩
    rw [if_pos ⟨hend, hrange, by omega⟩, hvalue]
    rfl

/-- An argument that is no number, or not a decimal one in the range. -/
theorem decimal_eq_none {s : CString} (h : (strtol s.chars).termination_point ≠ [] ∨
    (strtol s.chars).erange = true ∨ (strtol s.chars).value < 0) : decimal s = none := by
  apply Option.eq_none_iff_forall_ne_some.mpr
  intro k hk
  obtain ⟨hend, hrange, hvalue⟩ := decimal_eq_some_iff.mp hk
  rcases h with h | h | h
  · exact h hend
  · rw [hrange] at h
    cases h
  · omega

theorem exists_decimal {s : CString} (hend : (strtol s.chars).termination_point = [])
    (hrange : ¬ (strtol s.chars).erange = true) (hvalue : ¬ (strtol s.chars).value < 0) :
    ∃ k, decimal s = some k ∧ (strtol s.chars).value = k := by
  refine ⟨(strtol s.chars).value.toNat, decimal_eq_some_iff.mpr ⟨hend, ?_, ?_⟩, ?_⟩
  · exact Bool.eq_false_iff.mpr hrange
  · omega
  · omega

/-- What is returned for an argument that is no number. -/
def NumberError (e : StatusCode) : Prop :=
  e = .CMD_EXPECTED_INT ∨ e = .CMD_INPUT_OUT_OF_RANGE ∨ e = .CMD_EXPECTED_POSATIVE_NUMBER

section numbers

variable {path s t : CString}

/-- `trunc` runs on a number, or fails on anything else. -/
theorem cmd_trunc_exec_run (hopts : cmd.opts = []) (hargs : cmd.args = [path, s]) (cli : Cli) :
    (∃ n, decimal s = some n ∧
      cmd_trunc_exec cmd cli = onWorkspace (ws_file_truncate path n) cli) ∨
    decimal s = none ∧ ∃ e, NumberError e ∧ cmd_trunc_exec cmd cli = .fail e cli := by
  have hpath : cmd.arg 0 cli = .ok path cli := by simp [Command.arg, hargs]
  have hamount : cmd.arg 1 cli = .ok s cli := by simp [Command.arg, hargs]
  have hchecks : check_amounts cmd 2 cli = .ok () cli := by simp [check_amounts, hopts, hargs]
  unfold cmd_trunc_exec
  rw [bind_run, hchecks, bind_ok, bind_run, hamount, bind_ok]
  by_cases hrange : (strtol s.chars).erange = true
  · exact Or.inr ⟨decimal_eq_none (Or.inr (Or.inl hrange)), _, Or.inr (Or.inl rfl),
      by simp [hrange]⟩
  by_cases hend : (strtol s.chars).termination_point = []
  swap
  · exact Or.inr ⟨decimal_eq_none (Or.inl hend), _, Or.inl rfl, by simp [hrange, hend]⟩
  by_cases hvalue : (strtol s.chars).value < 0
  · exact Or.inr ⟨decimal_eq_none (Or.inr (Or.inr hvalue)), _, Or.inr (Or.inr rfl),
      by simp [hrange, hend, hvalue]⟩
  obtain ⟨n, hn, hvalue'⟩ := exists_decimal hend hrange hvalue
  refine Or.inl ⟨n, hn, ?_⟩
  simp [hrange, hend, hvalue', hpath]

/-- Reads `n` bytes from the offset `k` and prints them; nothing is done for zero bytes. -/
def read_and_print (path : CString) (k n : Nat) : Sys Cli Unit :=
  if n = 0 then
    pure ()
  else do
    let data ← onWorkspace (ws_file_read_at path k n OUTPUT_BUFFER_SIZE)
    printf data
    printf (ascii "\n")

/-- Only an amount that is no number is printed, from where it stops being one. -/
theorem cmd_read_exec_run (hopts : cmd.opts = []) (hargs : cmd.args = [path, s, t]) (cli : Cli) :
    (∃ k n, decimal s = some k ∧ decimal t = some n ∧
      cmd_read_exec cmd OUTPUT_BUFFER_SIZE cli = read_and_print path k n cli) ∨
    (decimal s = none ∨ decimal t = none) ∧ ∃ e said, NumberError e ∧
      (said = [] ∨ said = (strtol t.chars).termination_point) ∧
      cmd_read_exec cmd OUTPUT_BUFFER_SIZE cli = .fail e (cli.printing said) := by
  have hnothing : cli.printing [] = cli := by simp [Cli.printing]
  have hpath : cmd.arg 0 cli = .ok path cli := by simp [Command.arg, hargs]
  have hoffset : cmd.arg 1 cli = .ok s cli := by simp [Command.arg, hargs]
  have hamount : cmd.arg 2 cli = .ok t cli := by simp [Command.arg, hargs]
  have hchecks : check_amounts cmd 3 cli = .ok () cli := by simp [check_amounts, hopts, hargs]
  unfold cmd_read_exec
  rw [bind_run, hchecks, bind_ok, bind_run, hoffset, bind_ok]
  by_cases hend : (strtol s.chars).termination_point = []
  swap
  · exact Or.inr ⟨Or.inl (decimal_eq_none (Or.inl hend)), _, [], Or.inl rfl, Or.inl rfl,
      by simp [hend, hnothing]⟩
  by_cases hrange : (strtol s.chars).erange = true
  · exact Or.inr ⟨Or.inl (decimal_eq_none (Or.inr (Or.inl hrange))), _, [],
      Or.inr (Or.inl rfl), Or.inl rfl, by simp [hend, hrange, hnothing]⟩
  by_cases hend' : (strtol t.chars).termination_point = []
  swap
  · exact Or.inr ⟨Or.inr (decimal_eq_none (Or.inl hend')), _,
      (strtol t.chars).termination_point, Or.inl rfl, Or.inr rfl,
      by simp [hend, hrange, hamount, hend', printf]⟩
  by_cases hrange' : (strtol t.chars).erange = true
  · exact Or.inr ⟨Or.inr (decimal_eq_none (Or.inr (Or.inl hrange'))), _, [],
      Or.inr (Or.inl rfl), Or.inl rfl, by simp [hend, hrange, hamount, hend', hrange', hnothing]⟩
  by_cases hvalues : (strtol s.chars).value < 0 ∨ (strtol t.chars).value < 0
  · refine Or.inr ⟨?_, _, [], Or.inr (Or.inr rfl), Or.inl rfl,
      by simp [hend, hrange, hamount, hend', hrange', hvalues, hnothing]⟩
    exact hvalues.imp (fun h => decimal_eq_none (Or.inr (Or.inr h)))
      (fun h => decimal_eq_none (Or.inr (Or.inr h)))
  obtain ⟨hoff, hamt⟩ := not_or.mp hvalues
  obtain ⟨k, hk, hkvalue⟩ := exists_decimal hend hrange hoff
  obtain ⟨n, hn, hnvalue⟩ := exists_decimal hend' hrange' hamt
  refine Or.inl ⟨k, n, hk, hn, ?_⟩
  by_cases hzero : n = 0
  · simp [hend, hrange, hamount, hend', hrange', hkvalue, hnvalue, hzero, read_and_print]
  · simp [hend, hrange, hamount, hend', hrange', hkvalue, hnvalue, hzero, read_and_print, hpath]

end numbers

/-- Without a number there is no operation. -/
theorem cmd_trunc_exec_carries (hfunc : cmd.func = .CMD_TRUNC) :
    cli.Carries (cmd_trunc_exec cmd) cmd cmd.truncation cli.stdin := by
  have hexits : cmd.exits = false := by simp [Command.exits, hfunc]
  by_cases hshape : cmd.opts = [] ∧ cmd.args.length = 2
  · obtain ⟨hopts, hlength⟩ := hshape
    obtain ⟨path, s, hargs⟩ := List.length_eq_two.mp hlength
    have hasked : cmd.truncation = (decimal s).map (.ws_file_truncate path) := by
      simp [Command.truncation, hopts, hargs]
    rw [hasked]
    rcases cmd_trunc_exec_run hopts hargs cli with ⟨n, hn, hrun⟩ | ⟨hnone, e, -, hrun⟩
    · rw [hn]
      exact carries_of_eq hrun (carries_silent rfl (by simp [hfunc]) hexits)
    · rw [hnone]
      exact carries_of_fail hrun
  · apply carries_checked
    · intro hnot
      refine ⟨?_, rfl⟩
      unfold Command.truncation
      split
      · next path s hopts hargs => exact absurd ⟨hopts, by rw [hargs]; rfl⟩ hnot
      · rfl
    · exact fun hopts hlength => absurd ⟨hopts, hlength⟩ hshape

theorem reading_eq_none {path s t : CString} (hopts : cmd.opts = [])
    (hargs : cmd.args = [path, s, t]) (h : decimal s = none ∨ decimal t = none) :
    cmd.reading = none := by
  unfold Command.reading
  rw [hopts, hargs]
  rcases h with h | h
  · simp [h]
  · simp [h]

/-- Numbers are checked before the file is looked at. -/
theorem cmd_read_exec_carries (hfunc : cmd.func = .CMD_READ) :
    cli.Carries (cmd_read_exec cmd OUTPUT_BUFFER_SIZE) cmd cmd.reading cli.stdin := by
  have hexits : cmd.exits = false := by simp [Command.exits, hfunc]
  by_cases hshape : cmd.opts = [] ∧ cmd.args.length = 3
  · obtain ⟨hopts, hlength⟩ := hshape
    obtain ⟨path, s, t, hargs⟩ := List.length_eq_three.mp hlength
    rcases cmd_read_exec_run hopts hargs cli with
      ⟨k, n, hk, hn, hrun⟩ | ⟨hnone, e, said, -, hsaid, hrun⟩
    · have hasked : cmd.reading = if n = 0 then none
          else some (.ws_file_read_at path k n OUTPUT_BUFFER_SIZE) := by
        simp [Command.reading, hopts, hargs, hk, hn]
      rw [hasked]
      apply carries_of_eq hrun
      unfold read_and_print
      by_cases hzero : n = 0
      · rw [if_pos hzero, if_pos hzero]
        apply carries_of_saying hexits (show cmd.Says cli.workspace [] from by
          simp [Command.Says, hfunc])
        simp [Cli.printing]
      · rw [if_neg hzero, if_neg hzero]
        apply carries_data rfl (by simp [hfunc]) hexits
        intro data cli
        simp [Command.rendering, hfunc, printf, Cli.printing]
    · rw [reading_eq_none hopts hargs hnone]
      exact carries_of_muttering (hsaid.imp_right fun hsaid =>
        ⟨hfunc, t, by rw [hargs]; rfl, hsaid⟩) hrun
  · apply carries_checked
    · intro hnot
      refine ⟨?_, rfl⟩
      unfold Command.reading
      split
      · next path s t hopts hargs => exact absurd ⟨hopts, by rw [hargs]; rfl⟩ hnot
      · rfl
    · exact fun hopts hlength => absurd ⟨hopts, hlength⟩ hshape

/-! ## Section 6: Commands that only print -/

/-- `pwd` prints the cached path and asks for no operation. -/
theorem cmd_pwd_exec_carries (hfunc : cmd.func = .CMD_PWD) :
    cli.Carries (cmd_pwd_exec cmd) cmd none cli.stdin := by
  have hsaying : cmd.Says cli.workspace (cli.workspace.cur_path.str ++ ascii "\n") := by
    simp [Command.Says, hfunc]
  exact carries_of_saying (by simp [Command.exits, hfunc]) hsaying rfl

/-- The folder is looked up as for `ls`. -/
theorem cmd_tree_exec_carries (hfunc : cmd.func = .CMD_TREE) :
    cli.Carries (cmd_tree_exec cmd) cmd none cli.stdin := by
  have hexits : cmd.exits = false := by simp [Command.exits, hfunc]
  -- the rest of the executer behind the lookup
  have hprint : ∀ r, listedFolder cli.workspace cmd.args.head? = some r →
      cli.Carries (ofExcept (print_folder cli.workspace.entry_store r) >>= printf) cmd none
        cli.stdin := by
    intro r hr
    cases hprint : print_folder cli.workspace.entry_store r with
    | error e => exact carries_of_fail rfl
    | ok said =>
      have hsaying : cmd.Says cli.workspace said := by
        unfold Command.Says
        rw [hfunc]
        exact ⟨r, hr, hprint⟩
      exact carries_of_saying hexits hsaying rfl
  unfold cmd_tree_exec
  by_cases hopts : cmd.opts.length > 0
  · rw [if_pos hopts]
    exact carries_of_fail rfl
  by_cases hlength : cmd.args.length > 1
  · rw [if_neg hopts, if_pos hlength]
    exact carries_of_fail rfl
  rw [if_neg hopts, if_neg hlength]
  cases hargs : cmd.args.head? with
  | none =>
    rw [hargs] at hprint
    exact carries_of_eq (by rfl) (hprint cli.workspace.cur_folder rfl)
  | some path =>
    rw [hargs] at hprint
    cases hpath : ws_resolve_path cli.workspace path with
    | error e => exact @carries_of_fail _ _ _ e (by simp [hpath])
    | ok n =>
      cases n with
      | file f => exact @carries_of_fail _ _ _ .EXPECTED_FOLDER_GOT_FILE (by simp [hpath])
      | folder r =>
        exact carries_of_eq (by simp [hpath]) (hprint r (folderAtPath_eq_some.mpr hpath))

/-- `help` prints hints and asks for no operation. -/
theorem cmd_help_exec_carries (hfunc : cmd.func = .CMD_HELP) :
    cli.Carries (cmd_help_exec cmd) cmd none cli.stdin := by
  have hexits : cmd.exits = false := by simp [Command.exits, hfunc]
  unfold cmd_help_exec
  by_cases hopts : cmd.opts.length > 0
  · rw [if_pos hopts]
    exact carries_of_fail rfl
  by_cases hlength : cmd.args.length > 1
  · rw [if_neg hopts, if_pos hlength]
    exact carries_of_fail rfl
  rw [if_neg hopts, if_neg hlength]
  have hsaying : ∀ said, cmd.helpText = .ok said → cmd.Says cli.workspace said := by
    intro said hsaid
    unfold Command.Says
    rw [hfunc]
    exact hsaid
  unfold Command.helpText at hsaying
  cases hargs : cmd.args.head? with
  | some name =>
    rw [hargs] at hsaying
    cases hhint : print_str_command_function_help_hint name with
    | error e => exact @carries_of_fail _ _ _ e (by simp [hhint])
    | ok said => exact carries_of_saying hexits (hsaying said hhint) (by simp [hhint, printf])
  | none =>
    rw [hargs] at hsaying
    apply carries_of_saying hexits (hsaying _ rfl)
    exact printf_forEach_run _ _ _ cli

/-- `exit` sets the flag. -/
theorem cmd_exit_exec_carries (hfunc : cmd.func = .CMD_EXIT) :
    cli.Carries (cmd_exit_exec cmd) cmd none cli.stdin := by
  apply carries_checked
  · exact fun _ => ⟨rfl, rfl⟩
  · intro hopts hlength
    have hexits : cmd.exits = true := by
      simp [Command.exits, hfunc, hopts, List.length_eq_zero_iff.mp hlength]
    exact ⟨rfl, by simp [hexits], rfl, [], by simp [Command.Says, hfunc],
      (List.append_nil _).symm⟩

/-! ## Section 7: The dispatcher -/

/-- **A command is the operation that it asks for.** What dispatching it does, prints and
    returns is what the operation does, replies and returns. -/
theorem command_dispatch_carries (hws : WorkspaceSound cli.workspace) (cmd : Command) :
    cli.Carries (command_dispatch cmd OUTPUT_BUFFER_SIZE) cmd
      (cmd.operation (cmd.input cli.stdin).1) (cmd.input cli.stdin).2 := by
  -- only `append` reads the terminal
  have hinput : cmd.func ≠ .CMD_APPEND → cmd.input cli.stdin = (some [], cli.stdin) := by
    intro hfunc
    simp [Command.input, Command.collects, hfunc]
  have hexits : cmd.func ≠ .CMD_EXIT → cmd.exits = false := by
    intro hfunc
    simp [Command.exits, hfunc]
  unfold command_dispatch Command.operation
  cases hfunc : cmd.func with
  | CMD_CD =>
    rw [hinput (by simp [hfunc])]
    exact cmd_cd_exec_carries hfunc
  | CMD_PWD =>
    rw [hinput (by simp [hfunc])]
    exact cmd_pwd_exec_carries hfunc
  | CMD_LS =>
    rw [hinput (by simp [hfunc])]
    exact cmd_ls_exec_carries hws hfunc
  | CMD_TREE =>
    rw [hinput (by simp [hfunc])]
    exact cmd_tree_exec_carries hfunc
  | CMD_TOUCH =>
    rw [hinput (by simp [hfunc])]
    exact one_arg_carries (fun _ => rfl) (by simp [hfunc]) (hexits (by simp [hfunc]))
  | CMD_MKDIR =>
    rw [hinput (by simp [hfunc])]
    exact one_arg_carries (fun _ => rfl) (by simp [hfunc]) (hexits (by simp [hfunc]))
  | CMD_RM =>
    rw [hinput (by simp [hfunc])]
    exact one_arg_carries (fun _ => rfl) (by simp [hfunc]) (hexits (by simp [hfunc]))
  | CMD_RMDIR =>
    rw [hinput (by simp [hfunc])]
    exact cmd_rmdir_exec_carries hfunc
  | CMD_MV =>
    rw [hinput (by simp [hfunc])]
    exact two_args_carries (fun _ _ => rfl) (by simp [hfunc]) (hexits (by simp [hfunc]))
  | CMD_RENAME =>
    rw [hinput (by simp [hfunc])]
    exact two_args_carries (fun _ _ => rfl) (by simp [hfunc]) (hexits (by simp [hfunc]))
  | CMD_FIND =>
    rw [hinput (by simp [hfunc])]
    exact cmd_find_exec_carries hws hfunc
  | CMD_DF =>
    rw [hinput (by simp [hfunc])]
    exact carries_of_fail rfl
  | CMD_DU =>
    rw [hinput (by simp [hfunc])]
    exact carries_of_fail rfl
  | CMD_STAT =>
    rw [hinput (by simp [hfunc])]
    exact carries_of_fail rfl
  | CMD_CAT =>
    rw [hinput (by simp [hfunc])]
    exact cmd_cat_exec_carries hfunc
  | CMD_READ =>
    rw [hinput (by simp [hfunc])]
    exact cmd_read_exec_carries hfunc
  | CMD_APPEND => exact cmd_append_exec_carries hfunc
  | CMD_CLEAR =>
    rw [hinput (by simp [hfunc])]
    exact one_arg_carries (fun _ => rfl) (by simp [hfunc]) (hexits (by simp [hfunc]))
  | CMD_TRUNC =>
    rw [hinput (by simp [hfunc])]
    exact cmd_trunc_exec_carries hfunc
  | CMD_HELP =>
    rw [hinput (by simp [hfunc])]
    exact cmd_help_exec_carries hfunc
  | CMD_EXIT =>
    rw [hinput (by simp [hfunc])]
    exact cmd_exit_exec_carries hfunc

/-! ## Section 8: Sessions -/

/-- **Where commands are defined.** A command of a session has no defined end exactly if its
    operation has none, or it is a `find` that finds an entry too deep to be printed. -/
theorem command_undefined_iff (h : cliSystem.Reachable cli) (cmd : Command) :
    (command_dispatch cmd OUTPUT_BUFFER_SIZE cli).final = none ↔
      ∃ op, cmd.operation (cmd.input cli.stdin).1 = some op ∧
        (op.Undefined cli.workspace ∨ FindsTooDeep cli.workspace cmd op) := by
  have hws := workspaceSystem_sound (workspace_of_session h)
  have hcarries := command_dispatch_carries hws cmd
  unfold Cli.Carries at hcarries
  -- What the command carries out is known; it is undefined exactly when that operation is stuck or
  -- its printing is.
  constructor
  · intro hnone
    cases hrun : command_dispatch cmd OUTPUT_BUFFER_SIZE cli with
    | ok _ cli' => simp [hrun, final] at hnone
    | fail e cli' => simp [hrun, final] at hnone
    | fault x =>
      rw [hrun] at hcarries
      obtain ⟨op, hop, hstuck⟩ := hcarries
      exact ⟨op, hop, hstuck.imp_left (exec_undefined_iff hws op).mp⟩
  · rintro ⟨op, hop, hstuck⟩
    rw [hop] at hcarries
    have hstuck := hstuck.imp_left (exec_undefined_iff hws op).mpr
    cases hrun : command_dispatch cmd OUTPUT_BUFFER_SIZE cli with
    | fault x => rfl
    | ok _ cli' =>
      rw [hrun] at hcarries
      obtain ⟨-, -, hdeep, result, hexec, -⟩ := hcarries
      rcases hstuck with hundef | hfinds
      · rw [hexec] at hundef
        cases hundef
      · exact absurd hfinds hdeep
    | fail e cli' =>
      rw [hrun] at hcarries
      obtain ⟨-, -, hexec, -⟩ := hcarries
      rcases hstuck with hundef | ⟨-, ns, ws', n, l, hok, -⟩
      · rw [hexec] at hundef
        cases hundef
      · rw [hexec] at hok
        cases hok

/-- A folder is created one level below the deepest folder that can be entered; the search
    for it gets stuck. -/
theorem command_undefined_iff_run :
    ∃ cli, runSession [] ((List.replicate MAX_PATH_NODES_AMOUNT
          [.withArg .CMD_MKDIR (.ofBytes (ascii "a")),
            .withArg .CMD_CD (.ofBytes (ascii "a"))]).flatten
          ++ [.withArg .CMD_MKDIR (.ofBytes (ascii "b"))]) = some cli ∧
      (command_dispatch (.withArg .CMD_FIND (.ofBytes (ascii "b"))) OUTPUT_BUFFER_SIZE
        cli).final.isNone = true ∧
      ((command_dispatch (.withArg .CMD_FIND (.ofBytes (ascii "b"))) OUTPUT_BUFFER_SIZE cli).final =
          none ↔
        ∃ op, Command.operation (.withArg .CMD_FIND (.ofBytes (ascii "b")))
            (Command.input (.withArg .CMD_FIND (.ofBytes (ascii "b"))) cli.stdin).1 = some op ∧
          (op.Undefined cli.workspace ∨
            FindsTooDeep cli.workspace (.withArg .CMD_FIND (.ofBytes (ascii "b"))) op)) := by
  refine exists_of_run (by decide +kernel) fun cli hrun hnone => ⟨hnone, ?_⟩
  exact command_undefined_iff (session_of_runSession hrun) _

end VirtualFS
