import VirtualFS.Cli.CarriedOperations
import VirtualFS.Framework.Outline
import VirtualFS.Paths.RoundTrip
import VirtualFS.Workspace.Capacity

/-! # Reading What a Search Prints

    `find` prints a path for each entry with a name. A printed path can be
    given to another command, and then it means the entry it was printed for.

    * `find_accepts`: with few enough hits, none of them too deep, `find` prints.
    * `find_reads_back`: then the printed lines are the paths of the namesakes, and
      each of them can be typed.
-/

namespace VirtualFS

open Framework Prog Outcome ParentMap VFSEntryStore

variable {cli cli' : Cli} {cmd : Command} {σ : FileSystem} {l k : List (List Byte)}
  {name x : List Byte} {path : CString}

/-! ## Section 1: The command -/

/-- What is printed for the entries found. -/
theorem rendering_find (hfunc : cmd.func = .CMD_FIND) (es : List (List (List Byte) × Bool)) :
    cmd.rendering (.entries es) = (es.map fun e => pathString e.1).flatMap (· ++ [NEW_LINE]) := by
  have hrender : cmd.rendering (.entries es) =
      (es.map fun e => pathString e.1 ++ ascii "\n").flatten := if_pos hfunc
  rw [hrender, List.flatMap_map]
  rfl

/-- The paths of the entries with this name. -/
def FileSystem.namesakes (σ : FileSystem) (x : List Byte) : Set (List (List Byte)) :=
  {l | (∃ k, l = k ++ [x]) ∧ (σ.tree.item l).isSome}

/-- The namesakes of the tree are the paths of the hits. -/
theorem Abstracts.mem_namesakes_iff (h : Abstracts cli.workspace σ)
    (ht : FolderTree cli.workspace.entry_store) (hx : (0 : Byte) ∉ x) :
    l ∈ σ.namesakes x ↔
      ∃ n ∈ cli.workspace.entry_store.namesakes x, cli.workspace.entry_store.PathTo n l := by
  show (∃ k, l = k ++ [x]) ∧ _ ↔ _
  rw [h.item_eq, view_isSome_iff ht]
  constructor
  · rintro ⟨hk, n, hn⟩
    exact ⟨n, (mem_namesakes_iff_path hx hn).mpr hk, hn⟩
  · rintro ⟨n, hmem, hn⟩
    exact ⟨(mem_namesakes_iff_path hx hn).mp hmem, n, hn⟩

/-- A search finds as many entries as the tree shows. -/
theorem Abstracts.ncard_namesakes (h : Abstracts cli.workspace σ)
    (ht : FolderTree cli.workspace.entry_store) (hx : (0 : Byte) ∉ x) :
    (σ.namesakes x).ncard = (cli.workspace.entry_store.namesakes x).length :=
  ncard_paths ht (nodup_namesakes _ _) (fun _ hn => (mem_namesakes.mp hn).1)
    fun _ => h.mem_namesakes_iff ht hx

/-- `find` succeeds if it finds no more entries than it has room for, none of them too deep. -/
theorem find_accepts {name : CString} (hws : WorkspaceSound cli.workspace)
    (hσ : Abstracts cli.workspace σ) (hfunc : cmd.func = .CMD_FIND) (hopts : cmd.opts = [])
    (hargs : cmd.args = [name]) (hname : name.chars ≠ [])
    (hfew : (σ.namesakes name.chars).ncard ≤ QUERIES_NODE_BUFFER_SIZE)
    (hdepth : ∀ l ∈ σ.namesakes name.chars, l.length ≤ MAX_PATH_NODES_AMOUNT) :
    ∃ cli' ns, command_dispatch cmd OUTPUT_BUFFER_SIZE cli = .ok () cli' ∧
      (WsOp.ws_global_search_by_name name QUERIES_NODE_BUFFER_SIZE).exec cli.workspace =
        .ok (.nodes ns) cli.workspace ∧
      ∀ es, List.Forall₂ cli.workspace.ShowsNode ns es →
        cli'.stdout = cli.stdout ++ cmd.rendering (.entries es) := by
  have ht := hws.sound.tree
  rw [hσ.ncard_namesakes ht name.nul_free] at hfew
  have hexec : (WsOp.ws_global_search_by_name name QUERIES_NODE_BUFFER_SIZE).exec cli.workspace =
      .ok (.nodes (cli.workspace.entry_store.namesakes name.chars)) cli.workspace := by
    show (ws_global_search_by_name _ _ _).bind _ = _
    unfold ws_global_search_by_name
    rw [bind_run, readState_run, bind_ok, global_search_eq hname (by decide), if_pos hfew,
      List.take_of_length_le hfew]
    rfl
  -- no hit is too deep to be printed
  have hshallow : ¬ FindsTooDeep cli.workspace cmd
      (.ws_global_search_by_name name QUERIES_NODE_BUFFER_SIZE) := by
    rintro ⟨-, ns, ws', n, l, hok, hn, hl, hlong⟩
    rw [hexec] at hok
    cases hok
    have hmem := (hσ.mem_namesakes_iff ht name.nul_free).mpr ⟨n, hn, hl⟩
    exact absurd (hdepth l hmem) (Nat.not_le.mpr hlong)
  have hcarries := command_dispatch_carries hws cmd
  have hop : cmd.operation (cmd.input cli.stdin).1 =
      some (.ws_global_search_by_name name QUERIES_NODE_BUFFER_SIZE) := by
    unfold Command.operation
    rw [hfunc]
    exact oneArg_eq_some hopts hargs
  unfold Cli.Carries at hcarries
  rw [hop] at hcarries
  -- The operation succeeds, so neither failure nor undefined behaviour is left.
  cases hrun : command_dispatch cmd OUTPUT_BUFFER_SIZE cli with
  | ok u cli' =>
    rw [hrun] at hcarries
    obtain ⟨-, -, -, result, hok, hprints⟩ := hcarries
    rw [hexec] at hok
    obtain ⟨rfl, -⟩ := Outcome.ok.inj hok
    exact ⟨cli', _, rfl, hexec, fun es hes => hprints (.entries es) hes⟩
  | fail e cli' =>
    rw [hrun] at hcarries
    obtain ⟨-, -, hfail, -⟩ := hcarries
    rw [hexec] at hfail
    cases hfail
  | fault f =>
    rw [hrun] at hcarries
    obtain ⟨op, hsame, hstuck⟩ := hcarries
    cases hsame
    rcases hstuck with hundefined | hdeep
    · rw [hexec] at hundefined
      cases hundefined
    · exact absurd hdeep hshallow

/-- **What `find` prints can be typed back.** If there are no more than
    `QUERIES_NODE_BUFFER_SIZE` entries with the name, and their paths are not too long and of
    legible names, then `find` succeeds: every line that it prints is a path of such an entry,
    and every such entry has one line. -/
theorem find_reads_back {name : CString} (h : cliSystem.Reachable cli)
    (hσ : Abstracts cli.workspace σ) (hfunc : cmd.func = .CMD_FIND) (hopts : cmd.opts = [])
    (hargs : cmd.args = [name]) (hname : name.chars ≠ [])
    (hfew : (σ.namesakes name.chars).ncard ≤ QUERIES_NODE_BUFFER_SIZE)
    (hdepth : ∀ l ∈ σ.namesakes name.chars, l.length ≤ MAX_PATH_NODES_AMOUNT)
    (hlegible : ∀ l ∈ σ.namesakes name.chars,
      ∀ x ∈ l, NEW_LINE ∉ x ∧ x.length < MAX_NAME_LENGTH) :
    ∃ cli' text, command_dispatch cmd OUTPUT_BUFFER_SIZE cli = .ok () cli' ∧
      cli'.stdout = cli.stdout ++ text ∧ (textLines NEW_LINE text).Nodup ∧
      (∀ line ∈ textLines NEW_LINE text, ∃ path : CString, path.chars = line ∧
        ∃ l ∈ σ.namesakes name.chars, σ.target path = some l) ∧
      ∀ l ∈ σ.namesakes name.chars,
        ∃ path : CString, path.chars ∈ textLines NEW_LINE text ∧ σ.target path = some l := by
  have hws := workspaceSystem_sound (workspace_of_session h)
  have ho := workspaceSystem_ownership (workspace_of_session h)
  have ht := hws.sound.tree
  obtain ⟨cli', ns, hrun, hexec, hprints⟩ :=
    find_accepts hws hσ hfunc hopts hargs hname hfew hdepth
  obtain ⟨es, hshow⟩ := exists_shown ht (listed_committed hws hexec)
  have hin : (WsOp.ws_global_search_by_name name QUERIES_NODE_BUFFER_SIZE).InRange := trivial
  have hshows : cli.workspace.Shows (.nodes ns) (.entries es) := hshow
  obtain ⟨-, _, ⟨⟩, -, hnodup, hlists⟩ := exec_performs hσ hws ho hσ hin hexec hshows
  have hmem : ∀ l b, (l, b) ∈ es → l ∈ σ.namesakes name.chars := by
    intro l b he
    obtain ⟨hk, v, hv, -⟩ := (hlists l b).mp he
    exact ⟨hk, by rw [hv]; rfl⟩
  -- the paths that are printed
  have htypeable : ∀ e ∈ es, Typeable e.1 ∧ NEW_LINE ∉ pathString e.1 := by
    rintro ⟨l, b⟩ he
    obtain ⟨n, hn, hpath, -⟩ := exists_of_mem_forall₂ hshow he
    have hl := hmem l b he
    have hgood := hlegible l hl
    refine ⟨⟨⟨hdepth l hl, fun x hx => (hgood x hx).2⟩,
      fun x hx => (ht.names_on_path hpath x hx).1⟩, ?_⟩
    obtain ⟨k, rfl⟩ := hl.1
    rw [pathString, if_neg (by simp)]
    intro hmem
    obtain ⟨x, hx, hmem⟩ := List.mem_flatMap.mp hmem
    rcases List.mem_cons.mp hmem with heq | hmem
    · exact absurd heq (by decide)
    · exact (hgood x hx).1 hmem
  have hlines : textLines NEW_LINE (cmd.rendering (.entries es)) =
      es.map fun e => pathString e.1 := by
    rw [rendering_find hfunc]
    apply textLines_flatMap
    intro line hline
    obtain ⟨e, he, rfl⟩ := List.mem_map.mp hline
    exact (htypeable e he).2
  refine ⟨cli', _, hrun, hprints es hshow, ?_, ?_, ?_⟩
  · -- different entries have different paths, and these are printed differently
    rw [hlines]
    apply hnodup.map_on
    rintro ⟨l, b⟩ he ⟨k, c⟩ he' heq
    have hl := (htypeable _ he).1
    have hk := (htypeable _ he').1
    obtain rfl : l = k := pathString_injective (fun x hx => (hl.acceptable x hx).no_delimiter)
      (fun x hx => (hk.acceptable x hx).no_delimiter) hl.nil_not_mem hk.nil_not_mem heq
    obtain ⟨-, v, hv, rfl⟩ := (hlists l b).mp he
    obtain ⟨-, v', hv', rfl⟩ := (hlists l c).mp he'
    rw [hv] at hv'
    cases hv'
    rfl
  · rw [hlines]
    intro line hline
    obtain ⟨⟨l, b⟩, he, rfl⟩ := List.mem_map.mp hline
    obtain ⟨hl, -⟩ := htypeable _ he
    exact ⟨hl.printed, rfl, l, hmem l b he, target_of_printed hl rfl⟩
  · rintro l ⟨hk, hl⟩
    obtain ⟨v, hv⟩ := Option.isSome_iff_exists.mp hl
    have he : (l, v.isFolder) ∈ es := (hlists _ _).mpr ⟨hk, v, hv, rfl⟩
    obtain ⟨htyped, -⟩ := htypeable _ he
    refine ⟨htyped.printed, ?_, target_of_printed htyped rfl⟩
    rw [hlines]
    exact List.mem_map_of_mem (f := fun e : List (List Byte) × Bool => pathString e.1) he

/-- A file in the root and one with the same name below it. -/
theorem find_reads_back_run :
    ∃ cli, runSession [] [.withArg .CMD_TOUCH (.ofBytes (ascii "f")),
        .withArg .CMD_MKDIR (.ofBytes (ascii "d")), .withArg .CMD_CD (.ofBytes (ascii "d")),
        .withArg .CMD_TOUCH (.ofBytes (ascii "f"))] = some cli ∧
      ∃ σ cli' text, Abstracts cli.workspace σ ∧
        command_dispatch (.withArg .CMD_FIND (.ofBytes (ascii "f"))) OUTPUT_BUFFER_SIZE cli =
          .ok () cli' ∧
        cli'.stdout = cli.stdout ++ text ∧
        ∀ l ∈ σ.namesakes (ascii "f"),
          ∃ path : CString, path.chars ∈ textLines NEW_LINE text ∧ σ.target path = some l := by
  refine exists_of_run
    (Q := fun cli => cli.workspace.entry_store.namesakes (ascii "f") = [.file 0, .file 1] ∧
      cli.workspace.entry_store.parentOf (.file 0) = some .root ∧
      cli.workspace.entry_store.parentOf (.file 1) = some (.slot 0) ∧
      cli.workspace.entry_store.folders_allocation_map 0 = true ∧
      cli.workspace.entry_store.parentOf (.folder (.slot 0)) = some .root ∧
      cli.workspace.entry_store.nameOf (.file 0) = ascii "f" ∧
      cli.workspace.entry_store.nameOf (.file 1) = ascii "f" ∧
      cli.workspace.entry_store.nameOf (.folder (.slot 0)) = ascii "d")
    (by decide +kernel) fun cli hrun hfacts => ?_
  obtain ⟨hfound, hparent, hparent', hfolder, hparentFolder, hname, hname', hnameFolder⟩ := hfacts
  have hsession := session_of_runSession hrun
  have hws := workspaceSystem_sound (workspace_of_session hsession)
  have ht := hws.sound.tree
  obtain ⟨σ, hσ⟩ := exists_abstracts hws
  have hroot : ∀ k, cli.workspace.entry_store.PathTo (.folder .root) k → k = [] :=
    fun k hk => hk.unique tree_root PathFrom.nil
  have hpaths : ∀ l ∈ σ.namesakes (ascii "f"), l = [ascii "f"] ∨ l = [ascii "d", ascii "f"] := by
    intro l hl
    obtain ⟨n, hn, hpath⟩ := (hσ.mem_namesakes_iff ht (by decide)).mp hl
    obtain ⟨k, rfl, q, hq, hk⟩ := path_eq_snoc (mem_namesakes.mp hn).1 hpath
    rw [hfound] at hn
    rcases List.mem_cons.mp hn with rfl | hn
    · rw [hparent] at hq
      cases hq
      rw [hroot k hk, hname]
      exact Or.inl rfl
    · obtain rfl := List.mem_singleton.mp hn
      rw [hparent'] at hq
      cases hq
      obtain ⟨j, rfl, r, hr, hj⟩ := path_eq_snoc
        (show cli.workspace.entry_store.committed (.folder (.slot 0)) from ⟨by decide, hfolder⟩) hk
      rw [hparentFolder] at hr
      cases hr
      rw [hroot j hj, hnameFolder, hname']
      exact Or.inr rfl
  have hfew : (σ.namesakes (ascii "f")).ncard ≤ QUERIES_NODE_BUFFER_SIZE := by
    rw [hσ.ncard_namesakes ht (by decide), hfound]
    decide
  have hdepth : ∀ l ∈ σ.namesakes (ascii "f"), l.length ≤ MAX_PATH_NODES_AMOUNT := by
    intro l hl
    rcases hpaths l hl with rfl | rfl
    · decide
    · decide
  have hlegible : ∀ l ∈ σ.namesakes (ascii "f"),
      ∀ x ∈ l, NEW_LINE ∉ x ∧ x.length < MAX_NAME_LENGTH := by
    intro l hl
    rcases hpaths l hl with rfl | rfl
    · decide
    · decide
  have hargs : (Command.withArg .CMD_FIND (.ofBytes (ascii "f"))).args = [.ofBytes (ascii "f")] :=
    rfl
  obtain ⟨cli', text, hfind, htext, -, -, hall⟩ :=
    find_reads_back hsession hσ rfl rfl hargs (by decide) hfew hdepth hlegible
  exact ⟨σ, cli', text, hσ, hfind, htext, hall⟩

end VirtualFS
