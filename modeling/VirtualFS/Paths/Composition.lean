import VirtualFS.Paths.RoundTrip

/-! # Composing Paths

    A path behind the path of a folder is resolved as it is from that folder,
    with the same status if it fails. The rows of the parser are the limit: a
    name that is too long needs a row before it is reported.

    * `rows_written`: the rows that the parser needs for a path.
    * `paths_append`: resolving a path behind another one.
    * `paths_compose`: this, and the same for paths behind the printed path of the
      current folder, which mean what they mean in it.
    * `paths_not_append_by_nodes_amount`: counting the nodes is not enough.
-/

namespace VirtualFS

open Framework ParentMap VFSEntryStore

variable {es : VFSEntryStore} {ws : Workspace} {n : VFSNode} {F G : FolderRef}
  {name path p q : List Byte} {names names' l : List (List Byte)} {k rows : Nat}

/-! ## Section 1: Parsing -/

theorem drop_absolutePath_append (hne : names ≠ []) :
    (absolutePath names ++ PATH_DELIMITER :: q).drop 1 =
      relativePath names ++ PATH_DELIMITER :: q := by
  rw [absolutePath_of_ne_nil hne]
  rfl

/-- The rows of a printed path come first, then those of the path behind it. -/
theorem parse_path_loop_append (hfit : NamesFit k names) (hne : names ≠ []) :
    parse_path_loop k (names.length + rows) (relativePath names ++ PATH_DELIMITER :: q) =
      ((parse_path_loop k rows q).1, names ++ (parse_path_loop k rows q).2) := by
  induction names with
  | nil => exact absurd rfl hne
  | cons name names ih =>
    obtain ⟨hname, hlen⟩ := hfit name (List.mem_cons_self ..)
    have hpath : relativePath (name :: names) ++ PATH_DELIMITER :: q =
        name ++ (absolutePath names ++ PATH_DELIMITER :: q) := List.append_assoc ..
    have hdelim : AtDelimiter (absolutePath names ++ PATH_DELIMITER :: q) := by
      cases names with
      | nil => exact Or.inr ⟨q, rfl⟩
      | cons y ys => exact Or.inr ⟨_, rfl⟩
    have hnode : parse_node k (name ++ (absolutePath names ++ PATH_DELIMITER :: q)) [] =
        ⟨.SUCCESS, name, absolutePath names ++ PATH_DELIMITER :: q⟩ := by
      apply parse_node_run hname hdelim
      rw [List.length_nil, Nat.zero_add]
      exact hlen
    have hcons : name ++ (absolutePath names ++ PATH_DELIMITER :: q) ≠ [] := by simp
    rw [hpath, show (name :: names).length + rows = (names.length + rows) + 1 from by
      rw [List.length_cons]; omega]
    obtain ⟨c, tail, htail⟩ := List.exists_cons_of_ne_nil hcons
    rw [htail] at hnode ⊢
    rw [parse_path_loop_step hnode rfl]
    by_cases hnil : names = []
    · -- the path behind it starts here
      subst hnil
      show ((parse_path_loop k (0 + rows) q).1, name :: (parse_path_loop k (0 + rows) q).2) = _
      rw [Nat.zero_add]
      rfl
    · show ((parse_path_loop k (names.length + rows)
          ((absolutePath names ++ PATH_DELIMITER :: q).drop 1)).1, name :: _) = _
      rw [drop_absolutePath_append hnil,
        ih (fun x hx => hfit x (List.mem_cons_of_mem name hx)) hnil]
      rfl

/-- Rows that are not written to make no difference. -/
theorem parse_path_loop_rows {more : Nat} (hmore : rows < more)
    (h : (parse_path_loop k more path).2.length ≤ rows) :
    parse_path_loop k rows path = parse_path_loop k more path := by
  induction rows generalizing more path with
  | zero =>
    cases path with
    | nil => simp only [parse_path_loop]
    | cons c path =>
      obtain ⟨more, rfl⟩ : ∃ m, more = m + 1 := ⟨more - 1, by omega⟩
      -- the first name has a row
      by_cases hstatus : (parse_node k (c :: path) []).status = .SUCCESS
      · rw [parse_path_loop_step rfl hstatus] at h
        exact absurd h (Nat.not_succ_le_zero _)
      · rw [parse_path_loop_stop rfl hstatus] at h
        exact absurd h (Nat.not_succ_le_zero _)
  | succ rows ih =>
    cases path with
    | nil => simp only [parse_path_loop]
    | cons c path =>
      obtain ⟨more, rfl⟩ : ∃ m, more = m + 1 := ⟨more - 1, by omega⟩
      by_cases hstatus : (parse_node k (c :: path) []).status = .SUCCESS
      · rw [parse_path_loop_step rfl hstatus] at h ⊢
        have htail := ih (Nat.lt_of_succ_lt_succ hmore) (Nat.le_of_succ_le_succ h)
        rw [parse_path_loop_step rfl hstatus, htail]
      · rw [parse_path_loop_stop rfl hstatus, parse_path_loop_stop rfl hstatus]

/-- The rows that `parse_path` writes to, the last one of a failed call included. -/
def rows_written (path : List Byte) : Nat :=
  (parse_path path MAX_NAME_LENGTH MAX_PATH_NODES_AMOUNT).2.length

/-- What `parse_path` leaves in `*out_nodes_amount`: a name that is too long is not
    counted. -/
def nodes_amount (path : List Byte) : Nat :=
  match parse_path path MAX_NAME_LENGTH MAX_PATH_NODES_AMOUNT with
  | (.IDENTIFIER_IS_TOO_LONG, rows) => rows.length - 1
  | (_, rows) => rows.length

/-- The checks in front of the loop pass. -/
theorem parse_path_of_ne_nil (hne : path ≠ []) :
    parse_path path MAX_NAME_LENGTH MAX_PATH_NODES_AMOUNT =
      parse_path_loop MAX_NAME_LENGTH MAX_PATH_NODES_AMOUNT path := by
  have hlen : ¬ path.length = 0 := fun h => hne (List.length_eq_zero_iff.mp h)
  unfold parse_path
  rw [if_neg (by decide), if_neg hlen]

/-- **Parsing** a composed path, if there are rows for both parts. -/
theorem parse_path_append
    (hp : parse_path p MAX_NAME_LENGTH MAX_PATH_NODES_AMOUNT = (.SUCCESS, names))
    (hend : p.getLast? ≠ some PATH_DELIMITER) (hq : q ≠ [])
    (hrows : rows_written p + rows_written q ≤ MAX_PATH_NODES_AMOUNT) :
    parse_path (p ++ PATH_DELIMITER :: q) MAX_NAME_LENGTH MAX_PATH_NODES_AMOUNT =
      ((parse_path q MAX_NAME_LENGTH MAX_PATH_NODES_AMOUNT).1,
        names ++ (parse_path q MAX_NAME_LENGTH MAX_PATH_NODES_AMOUNT).2) := by
  obtain ⟨hfit, _, hne, hprinted⟩ := parse_path_success hp
  -- A path that does not end in a delimiter is its names printed, so the delimiter added after it
  -- starts the next name.
  have hpath : p = relativePath names := by
    rcases hprinted with h | h
    · exact h
    · exact absurd (by rw [h, List.getLast?_concat]) hend
  have hpos : 0 < names.length := List.length_pos_iff.mpr hne
  unfold rows_written at hrows
  rw [hp, parse_path_of_ne_nil hq] at hrows
  have hrows : names.length +
      (parse_path_loop MAX_NAME_LENGTH MAX_PATH_NODES_AMOUNT q).2.length ≤
        MAX_PATH_NODES_AMOUNT := hrows
  have hless : parse_path_loop MAX_NAME_LENGTH (MAX_PATH_NODES_AMOUNT - names.length) q =
      parse_path_loop MAX_NAME_LENGTH MAX_PATH_NODES_AMOUNT q :=
    parse_path_loop_rows (by omega) (by omega)
  have hsum : MAX_PATH_NODES_AMOUNT =
      names.length + (MAX_PATH_NODES_AMOUNT - names.length) := by omega
  rw [parse_path_of_ne_nil hq, parse_path_of_ne_nil (by simp), hpath]
  calc parse_path_loop MAX_NAME_LENGTH MAX_PATH_NODES_AMOUNT
        (relativePath names ++ PATH_DELIMITER :: q)
      = parse_path_loop MAX_NAME_LENGTH
          (names.length + (MAX_PATH_NODES_AMOUNT - names.length))
          (relativePath names ++ PATH_DELIMITER :: q) := by rw [← hsum]
    _ = _ := parse_path_loop_append hfit hne
    _ = _ := by rw [hless]

/-! ## Section 2: Resolving -/

/-- A folder that the lookup of a last name finds is found as a name in between, too. -/
theorem search_sub_folder_of_get_vfs_node (h : get_vfs_node es name F = .ok (.folder G)) :
    search_sub_folder es F name = .ok G := by
  unfold get_vfs_node at h
  split at h
  · cases h
  · cases hsearch : search_sub_folder es F name with
    | error e =>
      rw [hsearch] at h
      cases h
    | ok d =>
      rw [hsearch] at h
      cases h
      rfl
  · cases h

/-- Names behind the names of a folder are followed from that folder. -/
theorem resolve_nodes_append (h : resolve_nodes es names F = .ok (.folder G))
    (hne : names' ≠ []) :
    resolve_nodes es (names ++ names') F = resolve_nodes es names' G := by
  obtain ⟨y, ys, rfl⟩ := List.exists_cons_of_ne_nil hne
  -- On the names of the first path; its last one is resolved as a node there, and as a folder to
  -- go on from here.
  induction names generalizing F with
  | nil => cases h
  | cons name names ih =>
    cases names with
    | nil =>
      have hnext := search_sub_folder_of_get_vfs_node (show get_vfs_node es _ F = _ from h)
      show (search_sub_folder es F (cutAtNul name) >>= fun next => _) = _
      rw [hnext]
      rfl
    | cons z zs =>
      cases hnext : search_sub_folder es F (cutAtNul name) with
      | error e =>
        simp only [resolve_nodes, hnext] at h
        cases h
      | ok d =>
        have hrest : resolve_nodes es (z :: zs) d = .ok (.folder G) := by
          simp only [resolve_nodes, hnext] at h
          exact h
        show (search_sub_folder es F (cutAtNul name) >>= fun next =>
          resolve_nodes es (z :: zs ++ y :: ys) next) = _
        rw [hnext]
        exact ih hrest

/-- Paths behind the path of a folder, as long as the counts of both parts stay within
    the limit. -/
def PathsAppend (es : VFSEntryStore) (count : List Byte → Nat) : Prop :=
  ∀ (F G : FolderRef) (p q : List Byte), (0 : Byte) ∉ p → (0 : Byte) ∉ q →
    p.getLast? ≠ some PATH_DELIMITER → q ≠ [] → resolve_path es p F = .ok (.folder G) →
    count p + count q ≤ MAX_PATH_NODES_AMOUNT →
    resolve_path es (p ++ PATH_DELIMITER :: q) F = resolve_path es q G

/-- The rule for appended paths, counting rows. -/
theorem paths_append (es : VFSEntryStore) : PathsAppend es rows_written := by
  intro F G p q _ _ hend hq hp hrows
  obtain ⟨names, hparse, hnodes⟩ := parse_of_resolve_path hp
  have happend := parse_path_append hparse hend hq hrows
  have hlen : ¬ (p ++ PATH_DELIMITER :: q).length = 0 := by simp
  have hlen' : ¬ q.length = 0 := fun h => hq (List.length_eq_zero_iff.mp h)
  unfold resolve_path
  rw [if_neg hlen, if_neg hlen', happend]
  rcases hpq : parse_path q MAX_NAME_LENGTH MAX_PATH_NODES_AMOUNT with ⟨status, names'⟩
  by_cases hstatus : status = .SUCCESS
  · subst hstatus
    obtain ⟨_, _, hne, _⟩ := parse_path_success hpq
    exact resolve_nodes_append hnodes hne
  · -- both calls end with the status of the parser
    cases status with
    | SUCCESS => exact absurd rfl hstatus
    | _ => rfl

/-! ## Section 3: Relative and absolute paths -/

/-- A printed path does not end in a delimiter. -/
theorem getLast_relativePath (hnames : ∀ name ∈ l, NameAcceptable name) :
    (relativePath l).getLast? ≠ some PATH_DELIMITER := by
  rcases List.eq_nil_or_concat l with rfl | ⟨front, x, rfl⟩
  · simp [relativePath]
  · obtain ⟨text, htext⟩ : ∃ text, relativePath (front ++ [x]) = text ++ x := by
      cases front with
      | nil => exact ⟨[], List.append_nil x⟩
      | cons y ys =>
        refine ⟨y ++ (absolutePath ys ++ [PATH_DELIMITER]), ?_⟩
        show y ++ absolutePath (ys ++ [x]) = _
        rw [absolutePath_append, absolutePath_cons, absolutePath_nil, List.append_nil]
        simp only [List.append_assoc, List.singleton_append]
    have hx := hnames x (by simp)
    intro h
    rw [List.concat_eq_append, htext, List.getLast?_append_of_ne_nil _ hx.not_empty] at h
    exact hx.no_delimiter (List.mem_of_getLast? h)

/-- Resolving composes. The printed path of the current folder, followed by a path, is
    resolved like that path from the current folder. -/
structure PathsCompose (ws : Workspace) : Prop where
  append : PathsAppend ws.entry_store rows_written
  relative_eq_absolute : ∀ (b b' : CharBuf PATH_BUFFER_LENGTH) (q path : CString),
    get_node_path ws.entry_store (.folder ws.cur_folder) b = .ok () b' →
    ws.cur_folder ≠ .root →
    ws_resolve_path ws b'.toCString = .ok (.folder ws.cur_folder) → q.chars ≠ [] →
    rows_written (b'.str.drop 1) + rows_written q.chars ≤ MAX_PATH_NODES_AMOUNT →
    path.chars = b'.str ++ PATH_DELIMITER :: q.chars →
    ws_resolve_path ws path = resolve_path ws.entry_store q.chars ws.cur_folder

/-- **Composition** of paths in every store with the folder tree invariant. -/
theorem paths_compose (ht : FolderTree ws.entry_store)
    (hcur : ws.entry_store.live ws.cur_folder) : PathsCompose ws := by
  constructor
  case append => exact paths_append ws.entry_store
  case relative_eq_absolute =>
    intro b b' q path hprint hroot hresolve hq hrows hpath
    obtain ⟨l, hl⟩ := ht.rooted _ (hcur.resolve_left hroot)
    obtain ⟨_, hstr, _⟩ := get_node_path_ok ht hl hprint
    -- the current folder is not the root, so its path names at least one folder
    have hne : l ≠ [] := by
      intro hnil
      rcases hl.cases_head with ⟨hnode, _⟩ | ⟨_, _, _, _, _, hcons⟩
      · exact hroot (VFSNode.folder.inj hnode)
      · rw [hnil] at hcons
        cases hcons
    have hnames := fun name hname => (ht.names_on_path hl name hname).1
    have hp : b'.str = PATH_DELIMITER :: relativePath l := by
      rw [hstr, pathString, if_neg hne, absolutePath_of_ne_nil hne]
    have hchars : b'.toCString.chars = PATH_DELIMITER :: relativePath l := hp
    rw [ws_resolve_path_absolute hchars (relativePath_ne_nil hne hnames)] at hresolve
    rw [hp] at hpath hrows
    have hpath' : path.chars =
        PATH_DELIMITER :: (relativePath l ++ PATH_DELIMITER :: q.chars) := hpath
    rw [ws_resolve_path_absolute hpath' (by simp)]
    apply paths_append ws.entry_store
    · exact fun h => b'.nul_not_mem_str (hp ▸ List.mem_cons_of_mem _ h)
    · exact q.nul_free
    · exact getLast_relativePath hnames
    · exact hq
    · exact hresolve
    · exact hrows

/-- A current folder with a file in a folder below it. -/
theorem paths_compose_run :
    ∃ s, runStore
      [.vfs_sub_folder_init [97] .root, .vfs_sub_folder_init [98] (.slot 0),
        .vfs_sub_file_init [99] (.slot 1)] = some s ∧
      PathsCompose ⟨s, false, .slot 0, CharBuf.zeroed _⟩ := by
  refine exists_of_run (Q := fun s => s.entry_store.live (.slot 0)) (by decide +kernel)
    fun s hs hlive => ?_
  have ht := folderTree_of_runStore hs
  let ws : Workspace := ⟨s, false, .slot 0, CharBuf.zeroed _⟩
  show PathsCompose ws
  exact paths_compose ht hlive

/-- Nine names and one that is too long: `out_nodes_amount` is nine, but behind one more name
    the rows run out first, and the status is another one. -/
theorem paths_not_append_by_nodes_amount :
    ∃ s, runStore [.vfs_sub_folder_init [100] .root] = some s ∧ FolderTree s.entry_store ∧
      ¬ PathsAppend s.entry_store nodes_amount := by
  refine exists_of_run
    (Q := fun s => resolve_path s.entry_store [100] .root = .ok (.folder (.slot 0)) ∧
      resolve_path s.entry_store
        ([100] ++ PATH_DELIMITER :: ((List.replicate 9 [97, 47]).flatten ++ List.replicate 32 98))
        .root = .error .PATH_IS_TOO_LONG ∧
      resolve_path s.entry_store ((List.replicate 9 [97, 47]).flatten ++ List.replicate 32 98)
        (.slot 0) = .error .IDENTIFIER_IS_TOO_LONG) (by decide +kernel) ?_
  intro s hs ⟨hp, hboth, hq⟩
  refine ⟨folderTree_of_runStore hs, ?_⟩
  intro h
  have heq := h .root (.slot 0) [100]
    ((List.replicate 9 [97, 47]).flatten ++ List.replicate 32 98) (by decide) (by decide)
    (by decide) (by decide) hp (by decide +kernel)
  rw [hboth, hq] at heq
  cases heq

end VirtualFS
