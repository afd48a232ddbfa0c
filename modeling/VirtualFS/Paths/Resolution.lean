import VirtualFS.Hierarchy.Tree
import VirtualFS.Paths.Parsing
import VirtualFS.Workspace.Workspace

/-! # Resolving Paths

    In a folder tree a search finds the child of the name, and resolving a list
    of names follows the path with these names from the folder down.

    * `FolderTree.search_sub_folder_ok_iff`, `FolderTree.search_sub_file_ok_iff`: a
      search finds the one child with the name.
    * `FolderTree.resolve_path_ok_iff`: a path resolves to the node at its end.
    * `ws_resolve_path_cases`: absolute, relative and empty paths.
-/

namespace VirtualFS

open Framework ParentMap VFSEntryStore

variable {es : VFSEntryStore} {n : VFSNode} {r d : FolderRef} {f : FileRef} {name : List Byte}
  {names : List (List Byte)} {ws : Workspace} {path : CString}

/-! ## Section 1: Searching one folder -/

/-- The edges of the tree are the children and their names. -/
theorem FolderTree.tree_eq_some_iff (ht : FolderTree es) (hr : es.live r) :
    es.tree n = some (.folder r, name) ↔ n ∈ es.children r ∧ es.nameOf n = name := by
  constructor
  · intro h
    obtain ⟨hn, p, hp, heq, hname⟩ := tree_eq_some.mp h
    cases heq
    exact ⟨ht.mem_children_parent hn hp, hname.symm⟩
  · intro ⟨hmem, hname⟩
    rw [ht.tree_eq hr hmem, hname]

/-- A name that a search accepts. -/
structure Searchable (name : List Byte) : Prop where
  nul_free : (0 : Byte) ∉ name
  short : name.length ≤ MAX_NAME_LENGTH

theorem cutAtNul_of_searchable (h : Searchable name) : cutAtNul name = name :=
  cutAtNul_of_nul_not_mem h.nul_free

/-- The empty name is never found. -/
theorem search_empty_name : search_sub_folder es r [] = .error .INVALID_ARGUMENT ∧
    search_sub_file es r [] = .error .INVALID_ARGUMENT := ⟨rfl, rfl⟩

theorem FolderTree.name_ne_nil (ht : FolderTree es) (hr : es.live r)
    (hmem : n ∈ es.children r) : es.nameOf n ≠ [] :=
  (ht.names_acceptable n (ht.children_committed r hr n hmem).1).not_empty

/-- The scan of an array of slots finds the child of the name. -/
theorem FolderTree.find_child_iff {α : Type} {k len : Nat} {slots : Nat → Option α}
    {node : α → VFSNode} {name_of : α → CharBuf len} {x : α} (ht : FolderTree es)
    (hr : es.live r) (hinj : Function.Injective node)
    (hmem : ∀ x, x ∈ occupants k slots ↔ node x ∈ es.children r)
    (hname : ∀ x, (name_of x).str = es.nameOf (node x)) :
    (occupants k slots).find? (fun x => decide ((name_of x).str = name)) = some x ↔
      node x ∈ es.children r ∧ es.nameOf (node x) = name := by
  rw [find_eq_some_iff, hmem, decide_eq_true_iff, hname]
  -- siblings have different names
  intro x hx y hy hpx hpy
  have hx' := (hname x).symm.trans (of_decide_eq_true hpx)
  have hy' := (hname y).symm.trans (of_decide_eq_true hpy)
  exact hinj (ht.names_distinct r hr _ ((hmem x).mp hx) _ ((hmem y).mp hy)
    (hx'.trans hy'.symm))

theorem folderName_str (es : VFSEntryStore) (d : FolderRef) :
    (es.folderName d).str = es.nameOf (.folder d) := rfl

theorem fileName_str (es : VFSEntryStore) (f : FileRef) :
    (es.fileName f).str = es.nameOf (.file f) := rfl

/-- The search finds the sub-folder of that name. -/
theorem FolderTree.search_sub_folder_ok_iff (ht : FolderTree es) (hr : es.live r)
    (hname : Searchable name) :
    search_sub_folder es r name = .ok d ↔
      .folder d ∈ es.children r ∧ es.nameOf (.folder d) = name := by
  -- An empty name is refused, and no sub-folder has one.
  by_cases hne : name = []
  · subst hne
    rw [search_empty_name.1]
    constructor
    · intro h
      cases h
    · intro ⟨hmem, hempty⟩
      exact absurd hempty (ht.name_ne_nil hr hmem)
  · rw [search_sub_folder_eq es r hne hname.short hname.nul_free,
      ← ht.find_child_iff hr (fun _ _ => VFSNode.folder.inj)
        (fun x => by rw [folder_mem_children, mem_occupants]) (folderName_str es)]
    split
    · next x hx =>
      rw [hx]
      exact ⟨fun h => congrArg some (Except.ok.inj h), fun h => congrArg _ (Option.some.inj h)⟩
    · next hx =>
      rw [hx]
      constructor
      · intro h
        cases h
      · intro h
        cases h

/-- The search finds the file of that name. -/
theorem FolderTree.search_sub_file_ok_iff (ht : FolderTree es) (hr : es.live r)
    (hname : Searchable name) :
    search_sub_file es r name = .ok f ↔
      .file f ∈ es.children r ∧ es.nameOf (.file f) = name := by
  by_cases hne : name = []
  · subst hne
    rw [search_empty_name.2]
    constructor
    · intro h
      cases h
    · intro ⟨hmem, hempty⟩
      exact absurd hempty (ht.name_ne_nil hr hmem)
  · rw [search_sub_file_eq es r hne hname.short hname.nul_free,
      ← ht.find_child_iff hr (fun _ _ => VFSNode.file.inj)
        (fun x => by rw [file_mem_children, mem_occupants]) (fileName_str es)]
    split
    · next x hx =>
      rw [hx]
      exact ⟨fun h => congrArg some (Except.ok.inj h), fun h => congrArg _ (Option.some.inj h)⟩
    · next hx =>
      rw [hx]
      constructor
      · intro h
        cases h
      · intro h
        cases h

/-- A failing search for a file that is not there continues with the folders. -/
theorem search_sub_file_error (hname : Searchable name) (hne : name ≠ []) {e : StatusCode}
    (h : search_sub_file es r name = .error e) : e = .SEARCH_TARGET_NOT_FOUND := by
  rw [search_sub_file_eq es r hne hname.short hname.nul_free] at h
  split at h
  · cases h
  · cases h
    rfl

/-- **Lookup** of a name in a folder. -/
theorem FolderTree.get_vfs_node_ok_iff (ht : FolderTree es) (hr : es.live r)
    (hname : Searchable name) :
    get_vfs_node es name r = .ok n ↔ es.tree n = some (.folder r, name) := by
  rw [ht.tree_eq_some_iff hr]
  unfold get_vfs_node
  -- A file found ends the search; only if there is none the folders are looked at.
  cases hfile : search_sub_file es r name with
  | ok f =>
    obtain ⟨hmem, hf⟩ := (ht.search_sub_file_ok_iff hr hname).mp hfile
    constructor
    · intro h
      cases h
      exact ⟨hmem, hf⟩
    · intro ⟨hmem', hn⟩
      rw [ht.names_distinct r hr n hmem' _ hmem (hn.trans hf.symm)]
  | error e =>
    have hnofile : ∀ f, n = .file f → ¬ (n ∈ es.children r ∧ es.nameOf n = name) := by
      intro f hf h
      subst hf
      rw [(ht.search_sub_file_ok_iff hr hname).mpr h] at hfile
      cases hfile
    by_cases hne : name = []
    · subst hne
      rw [search_empty_name.2] at hfile
      cases hfile
      constructor
      · intro h
        cases h
      · intro ⟨hmem, hempty⟩
        exact absurd hempty (ht.name_ne_nil hr hmem)
    · rw [search_sub_file_error hname hne hfile]
      cases n with
      | file f =>
        refine ⟨fun h => ?_, fun h => absurd h (hnofile f rfl)⟩
        cases hsub : search_sub_folder es r name with
        | ok d =>
          rw [hsub] at h
          cases h
        | error e =>
          rw [hsub] at h
          cases h
      | folder d =>
        rw [← ht.search_sub_folder_ok_iff hr hname]
        cases hsub : search_sub_folder es r name with
        | ok d' =>
          constructor
          · intro h
            cases h
            rfl
          · intro h
            cases h
            rfl
        | error e =>
          constructor
          · intro h
            cases h
          · intro h
            cases h

/-! ## Section 2: Following names -/

theorem pathFrom_singleton :
    PathFrom es.tree (.folder r) n [name] ↔ es.tree n = some (.folder r, name) := by
  constructor
  · intro h
    rcases h.cases_head with ⟨_, h⟩ | ⟨c, x, s, hT, hs, heq⟩
    · cases h
    · cases heq
      rcases hs.cases_head with ⟨rfl, _⟩ | ⟨_, _, _, _, _, heq⟩
      · exact hT
      · cases heq
  · intro h
    exact PathFrom.cons h PathFrom.nil

/-- The first step of a longer path leads to a folder. -/
theorem pathFrom_cons_cons {name' : List Byte} :
    PathFrom es.tree (.folder r) n (name :: name' :: names) ↔
      ∃ d, es.tree (.folder d) = some (.folder r, name) ∧
        PathFrom es.tree (.folder d) n (name' :: names) := by
  constructor
  · intro h
    rcases h.cases_head with ⟨_, h⟩ | ⟨c, x, s, hT, hs, heq⟩
    · cases h
    · cases heq
      rcases hs.cases_head with ⟨_, h⟩ | ⟨c', x', s', hT', hs', _⟩
      · cases h
      · obtain ⟨_, d, _, hd, _⟩ := tree_eq_some.mp hT'
        subst hd
        exact ⟨d, hT, hs⟩
  · intro ⟨d, hT, hs⟩
    exact PathFrom.cons hT hs

/-- **Path resolution** follows the path with these names. -/
theorem FolderTree.resolve_nodes_ok_iff (ht : FolderTree es) (hr : es.live r)
    (hnames : ∀ name ∈ names, Searchable name) (hne : names ≠ []) :
    resolve_nodes es names r = .ok n ↔ PathFrom es.tree (.folder r) n names := by
  induction names generalizing r with
  | nil => exact absurd rfl hne
  | cons name names ih =>
    have hname := hnames name (List.mem_cons_self ..)
    have hnames' : ∀ x ∈ names, Searchable x :=
      fun x hx => hnames x (List.mem_cons_of_mem name hx)
    cases names with
    | nil =>
      show get_vfs_node es (cutAtNul name) r = .ok n ↔ _
      rw [cutAtNul_of_searchable hname, ht.get_vfs_node_ok_iff hr hname, pathFrom_singleton]
    | cons y ys =>
      rw [pathFrom_cons_cons]
      have hstep : ∀ d, search_sub_folder es r name = .ok d ↔
          es.tree (.folder d) = some (.folder r, name) := by
        intro d
        rw [ht.search_sub_folder_ok_iff hr hname, ht.tree_eq_some_iff hr]
      show (search_sub_folder es r (cutAtNul name) >>= fun next =>
        resolve_nodes es (y :: ys) next) = .ok n ↔ _
      rw [cutAtNul_of_searchable hname]
      cases hsearch : search_sub_folder es r name with
      | ok d =>
        have hT := (hstep d).mp hsearch
        have hd : es.live d := (tree_eq_some.mp hT).1.live
        show resolve_nodes es (y :: ys) d = .ok n ↔ _
        rw [ih hd hnames' (List.cons_ne_nil y ys)]
        constructor
        · intro h
          exact ⟨d, hT, h⟩
        · intro ⟨d', hT', h⟩
          -- the folder of that name is unique
          have hd' := (hstep d').mpr hT'
          rw [hsearch] at hd'
          cases hd'
          exact h
      | error e =>
        constructor
        · intro h
          cases h
        · intro ⟨d, hT, _⟩
          rw [(hstep d).mpr hT] at hsearch
          cases hsearch

/-- Nothing is found in a folder without children. -/
theorem search_flat (hflat : es.children r = []) (hname : Searchable name) :
    (∃ e, search_sub_folder es r name = .error e) ∧ get_vfs_node es name r ≠ .ok n := by
  obtain ⟨hfiles, hfolders⟩ := List.append_eq_nil_iff.mp hflat
  rw [List.map_eq_nil_iff] at hfiles hfolders
  by_cases hne : name = []
  · subst hne
    exact ⟨⟨_, search_empty_name.1⟩, fun h => by cases h⟩
  · have hfolder : search_sub_folder es r name = .error .SEARCH_TARGET_NOT_FOUND := by
      rw [search_sub_folder_eq es r hne hname.short hname.nul_free, hfolders]
      rfl
    have hfile : search_sub_file es r name = .error .SEARCH_TARGET_NOT_FOUND := by
      rw [search_sub_file_eq es r hne hname.short hname.nul_free, hfiles]
      rfl
    refine ⟨⟨_, hfolder⟩, fun h => ?_⟩
    simp only [get_vfs_node, hfile, hfolder] at h
    cases h

/-- Nothing is found below a folder without children. -/
theorem resolve_nodes_flat (hflat : es.children r = [])
    (hnames : ∀ name ∈ names, Searchable name) : resolve_nodes es names r ≠ .ok n := by
  intro h
  cases names with
  | nil => cases h
  | cons name names =>
    have hname := hnames name (List.mem_cons_self ..)
    obtain ⟨⟨e, hfolder⟩, hnode⟩ := search_flat (n := n) hflat hname
    cases names with
    | nil =>
      rw [← cutAtNul_of_searchable hname] at hnode
      exact hnode h
    | cons y ys =>
      change (search_sub_folder es r (cutAtNul name) >>= fun next =>
        resolve_nodes es (y :: ys) next) = .ok n at h
      rw [cutAtNul_of_searchable hname, hfolder] at h
      cases h

/-! ## Section 3: Following a path -/

theorem mem_relativePath {c : Byte} (hname : name ∈ names) (hc : c ∈ name) :
    c ∈ relativePath names := by
  cases names with
  | nil => cases hname
  | cons x xs =>
    apply List.mem_append.mpr
    rcases List.mem_cons.mp hname with rfl | hmem
    · exact Or.inl hc
    · right
      exact List.mem_flatMap.mpr ⟨name, hmem, List.mem_cons_of_mem _ hc⟩

/-- The names in a C string are short C strings. -/
theorem searchable_of_parse {path : List Byte} {rows : Nat} (hnul : (0 : Byte) ∉ path)
    (h : parse_path path MAX_NAME_LENGTH rows = (.SUCCESS, names)) :
    ∀ name ∈ names, Searchable name := by
  intro name hname
  obtain ⟨hfit, _, _, hprinted⟩ := parse_path_success h
  have hlen := (hfit name hname).2
  refine ⟨fun h0 => hnul ?_, by omega⟩
  have hmem := mem_relativePath hname h0
  rcases hprinted with h | h
  · exact h ▸ hmem
  · exact h ▸ List.mem_append_left _ hmem

theorem resolve_path_of_parse {path : List Byte}
    (h : parse_path path MAX_NAME_LENGTH MAX_PATH_NODES_AMOUNT = (.SUCCESS, names)) :
    resolve_path es path r = resolve_nodes es names r := by
  have hne : ¬ path.length = 0 := by
    intro hlen
    rw [List.length_eq_zero_iff.mp hlen] at h
    cases h
  unfold resolve_path
  rw [if_neg hne, h]

/-- A path that resolves has been parsed. -/
theorem parse_of_resolve_path {path : List Byte} (h : resolve_path es path r = .ok n) :
    ∃ names, parse_path path MAX_NAME_LENGTH MAX_PATH_NODES_AMOUNT = (.SUCCESS, names) ∧
      resolve_nodes es names r = .ok n := by
  unfold resolve_path at h
  split at h
  · cases h
  · split at h
    · next names hparse => exact ⟨names, hparse, h⟩
    · cases h

/-- `resolve_path` reads the names and follows them. -/
theorem FolderTree.resolve_path_ok_iff (ht : FolderTree es) (hr : es.live r)
    {path : List Byte} (hnul : (0 : Byte) ∉ path) :
    resolve_path es path r = .ok n ↔
      ∃ names, parse_path path MAX_NAME_LENGTH MAX_PATH_NODES_AMOUNT = (.SUCCESS, names) ∧
        PathFrom es.tree (.folder r) n names := by
  constructor
  · intro h
    obtain ⟨names, hparse, hnodes⟩ := parse_of_resolve_path h
    have hnames := searchable_of_parse hnul hparse
    have hne := (parse_path_success hparse).2.2.1
    exact ⟨names, hparse, (ht.resolve_nodes_ok_iff hr hnames hne).mp hnodes⟩
  · intro ⟨names, hparse, hpath⟩
    have hnames := searchable_of_parse hnul hparse
    have hne := (parse_path_success hparse).2.2.1
    rw [resolve_path_of_parse hparse]
    exact (ht.resolve_nodes_ok_iff hr hnames hne).mpr hpath

/-- No path leads anywhere from a folder without children. -/
theorem resolve_path_flat (hflat : es.children r = []) {path : List Byte}
    (hnul : (0 : Byte) ∉ path) : resolve_path es path r ≠ .ok n := by
  intro h
  obtain ⟨names, hparse, hnodes⟩ := parse_of_resolve_path h
  exact resolve_nodes_flat hflat (searchable_of_parse hnul hparse) hnodes

/-- A path from a live folder ends in an entry of the store. -/
theorem committed_of_pathFrom (hpath : PathFrom es.tree (.folder r) n names)
    (hne : names ≠ []) : es.committed n := by
  cases hpath with
  | nil => exact absurd rfl hne
  | child hT _ => exact (tree_eq_some.mp hT).1

/-- What is resolved relative to a live folder is committed. -/
theorem FolderTree.committed_of_resolve_path (ht : FolderTree es) (hr : es.live r)
    {path : List Byte} (hnul : (0 : Byte) ∉ path) (h : resolve_path es path r = .ok n) :
    es.committed n := by
  obtain ⟨names, hparse, hpath⟩ := (ht.resolve_path_ok_iff hr hnul).mp h
  exact committed_of_pathFrom hpath (parse_path_success hparse).2.2.1

/-! ## Section 4: Paths of the workspace -/

/-- The root or a committed entry. -/
def VFSEntryStore.present (es : VFSEntryStore) (n : VFSNode) : Prop :=
  n = .folder .root ∨ es.committed n

theorem present_folder : es.present (.folder r) ↔ es.live r :=
  or_congr_left ⟨VFSNode.folder.inj, congrArg _⟩

theorem present_file : es.present (.file f) ↔ es.committed (.file f) :=
  or_iff_right fun h => by cases h

/-- A path behind a delimiter starts at the root. -/
theorem ws_resolve_path_absolute {rest : List Byte}
    (hpath : path.chars = PATH_DELIMITER :: rest) (hne : rest ≠ []) :
    ws_resolve_path ws path = resolve_path ws.entry_store rest .root := by
  have hlen : ¬ rest.length = 0 := fun h => hne (List.length_eq_zero_iff.mp h)
  unfold ws_resolve_path
  rw [hpath]
  exact (if_pos rfl).trans (if_neg hlen)

/-- Any other path starts at the current folder. -/
theorem ws_resolve_path_relative {c : Byte} {rest : List Byte} (hpath : path.chars = c :: rest)
    (hc : c ≠ PATH_DELIMITER) :
    ws_resolve_path ws path = resolve_path ws.entry_store path.chars ws.cur_folder := by
  unfold ws_resolve_path
  rw [hpath]
  exact if_neg hc

/-- The three kinds of paths. -/
theorem ws_resolve_path_cases (ws : Workspace) (path : CString) :
    ws_resolve_path ws path = .ok (.folder .root) ∨
      (∃ rest, path.chars = PATH_DELIMITER :: rest ∧
        ws_resolve_path ws path = resolve_path ws.entry_store rest .root) ∨
      ws_resolve_path ws path = resolve_path ws.entry_store path.chars ws.cur_folder := by
  cases hpath : path.chars with
  | nil =>
    left
    unfold ws_resolve_path
    rw [hpath]
  | cons c rest =>
    by_cases hc : c = PATH_DELIMITER
    · subst hc
      by_cases hne : rest = []
      · left
        subst hne
        unfold ws_resolve_path
        rw [hpath]
        rfl
      · right
        left
        exact ⟨rest, rfl, ws_resolve_path_absolute hpath hne⟩
    · right
      right
      rw [← hpath]
      exact ws_resolve_path_relative hpath hc

/-- Paths only resolve to entries of the store, also when the current folder has been
    left without links. -/
theorem ws_resolve_path_present (ht : FolderTree ws.entry_store)
    (hcur : ws.entry_store.live ws.cur_folder ∨ ws.entry_store.children ws.cur_folder = [])
    (h : ws_resolve_path ws path = .ok n) : ws.entry_store.present n := by
  rcases ws_resolve_path_cases ws path with hroot | ⟨rest, hpath, habs⟩ | hrel
  · rw [hroot] at h
    cases h
    exact Or.inl rfl
  · have hnul : (0 : Byte) ∉ rest := by
      intro h0
      apply path.nul_free
      rw [hpath]
      exact List.mem_cons_of_mem _ h0
    rw [habs] at h
    exact Or.inr (ht.committed_of_resolve_path live_root hnul h)
  · rw [hrel] at h
    rcases hcur with hlive | hflat
    · exact Or.inr (ht.committed_of_resolve_path hlive path.nul_free h)
    · exact absurd h (resolve_path_flat hflat path.nul_free)

end VirtualFS
