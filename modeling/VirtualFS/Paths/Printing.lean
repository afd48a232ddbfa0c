import VirtualFS.Hierarchy.Tree
import VirtualFS.Paths.Parsing

/-! # Printing Paths

    `get_node_path` prints the names on the path from the root, each behind a
    delimiter. The array for the parent folders has room for nodes with up to
    `MAX_PATH_NODES_AMOUNT` names; below that it is written past its end.

    * `get_node_path_run`: the path of a node that is not too deep.
    * `get_node_path_deep`: the array of parents overflows for a deeper one.
    * `get_node_path_ok`: a path that has been printed is the path of the node.

    The buffer is followed through `CharBuf.StartsWith`, the text at its front.
-/

namespace VirtualFS

open Framework Prog Outcome ParentMap VFSEntryStore

variable {es : VFSEntryStore} {n : VFSNode} {r last : FolderRef} {name text : List Byte}
  {names l : List (List Byte)} {k : Nat}

/-! ## Section 1: Writing names to the buffer -/

/-- The buffer starts with the text. -/
def CharBuf.StartsWith (b : CharBuf k) (text : List Byte) : Prop :=
  ∃ rest, b.bytes = text ++ rest

theorem CharBuf.startsWith_nil (b : CharBuf k) : b.StartsWith [] := ⟨b.bytes, rfl⟩

theorem CharBuf.StartsWith.left {b : CharBuf k} {text' : List Byte}
    (h : b.StartsWith (text ++ text')) : b.StartsWith text := by
  obtain ⟨rest, hrest⟩ := h
  exact ⟨text' ++ rest, by rw [hrest, List.append_assoc]⟩

/-- A terminated text is the string in the buffer. -/
theorem CharBuf.StartsWith.str_eq {b : CharBuf k} (h : b.StartsWith (text ++ [0]))
    (hnul : (0 : Byte) ∉ text) : b.str = text ∧ b.Terminated := by
  obtain ⟨rest, hrest⟩ := h
  rw [List.append_assoc, List.singleton_append] at hrest
  constructor
  · unfold CharBuf.str
    rw [hrest, cutAtNul_append_nul, cutAtNul_of_nul_not_mem hnul]
  · unfold CharBuf.Terminated
    rw [hrest]
    exact List.mem_append_right _ (List.mem_cons_self ..)

/-- The name is printed behind the text if there is room for it. -/
theorem append_node_name_to_path_run {b : CharBuf k} (htext : b.StartsWith text)
    (hroom : text.length + name.length + 2 ≤ k) :
    ∃ b', append_node_name_to_path name text.length (k - text.length) b = .ok () b' ∧
      b'.StartsWith (text ++ PATH_DELIMITER :: name ++ [0]) := by
  have hlen : text.length + (PATH_DELIMITER :: name ++ [0]).length ≤ k := by
    rw [List.length_append, List.length_cons, List.length_singleton]
    omega
  obtain ⟨b', hwrite⟩ := CharBuf.write_isSome (b := b) hlen
  refine ⟨b', ?_, ?_⟩
  · have hsome : ¬ k - text.length = 0 := by omega
    have hmore : ¬ k - text.length < name.length + 1 := by omega
    simp only [append_node_name_to_path, hsome, hmore, if_false, bind_run, bind_ok,
      readState_run, hwrite, modifyState_run]
  · obtain ⟨rest, hrest⟩ := htext
    refine ⟨b.bytes.drop (text.length + (PATH_DELIMITER :: name ++ [0]).length), ?_⟩
    rw [CharBuf.bytes_of_write hwrite, hrest, List.take_left]
    simp only [List.append_assoc]

/-- The names are appended, each behind its delimiter. -/
theorem append_names_to_path_run {b : CharBuf k} (htext : b.StartsWith text)
    (hroom : text.length + (absolutePath names).length + 1 ≤ k) :
    ∃ b', append_names_to_path names text.length (k - text.length) b =
        .ok ((text ++ absolutePath names).length,
          k - (text ++ absolutePath names).length) b' ∧
      b'.StartsWith (text ++ absolutePath names) := by
  -- `text` is what the buffer holds so far; the position and the room left follow it.
  induction names generalizing text b with
  | nil =>
    rw [absolutePath_nil, List.append_nil]
    exact ⟨b, rfl, htext⟩
  | cons name names ih =>
    rw [absolutePath_cons, List.length_cons, List.length_append] at hroom
    have hroom' : text.length + name.length + 2 ≤ k := by omega
    obtain ⟨b₁, hrun, hstart⟩ := append_node_name_to_path_run htext hroom'
    have hlen : (text ++ PATH_DELIMITER :: name).length = text.length + (name.length + 1) := by
      rw [List.length_append, List.length_cons]
    obtain ⟨b₂, hrest, hstart₂⟩ := ih hstart.left (by omega)
    have hsub : k - text.length - (name.length + 1) = k - (text.length + (name.length + 1)) :=
      Nat.sub_sub ..
    have happ : text ++ absolutePath (name :: names) =
        text ++ PATH_DELIMITER :: name ++ absolutePath names := by
      rw [absolutePath_cons, List.append_assoc, List.cons_append]
    refine ⟨b₂, ?_, ?_⟩
    · rw [happ, ← hrest, hlen, ← hsub]
      simp only [append_names_to_path, bind_run, hrun, bind_ok]
    · rw [happ]
      exact hstart₂

/-! ## Section 2: The parent folders -/

/-- Names of folders, from the root down. -/
def VFSEntryStore.namesOf (es : VFSEntryStore) (parents : List FolderRef) : List (List Byte) :=
  parents.reverse.map fun r => es.nameOf (.folder r)

theorem namesOf_append (parents : List FolderRef) (r : FolderRef) :
    es.namesOf (parents ++ [r]) = es.nameOf (.folder r) :: es.namesOf parents := by
  simp [namesOf]

/-- The parent of a node with its path. -/
theorem FolderTree.parent_of_path (ht : FolderTree es)
    (h : PathFrom es.tree (.folder .root) n (l ++ [name])) :
    ∃ p, es.committed n ∧ es.nameOf n = name ∧ es.parentOf n = some p ∧ es.live p ∧
      PathFrom es.tree (.folder .root) (.folder p) l := by
  obtain ⟨q, hT, hq⟩ := h.snoc_inv
  obtain ⟨hn, p, hp, heq, hname⟩ := tree_eq_some.mp hT
  subst heq
  exact ⟨p, hn, hname.symm, hp, ht.parent_live hn hp, hq⟩

/-- Only the root has the empty path. -/
theorem FolderTree.is_root_of_path (ht : FolderTree es) (hr : es.live r)
    (h : PathFrom es.tree (.folder .root) (.folder r) l) :
    (es.folderAt r).is_root = true ↔ l = [] := by
  rw [ht.is_root_iff hr]
  constructor
  · intro heq
    subst heq
    exact h.unique tree_root PathFrom.nil
  · intro hnil
    subst hnil
    generalize hs : ([] : List (List Byte)) = s at h
    cases h with
    | nil => rfl
    | child => simp at hs

section loop

variable {σ : Type} {capacity i : Nat} {parents : List FolderRef} {p : FolderRef}

/-- The loop stops below the root. -/
theorem get_parent_folders_loop_root (s : σ) (hp : (es.folderAt last).parent_folder = some p)
    (hroot : (es.folderAt p).is_root = true) :
    get_parent_folders_loop es capacity (i + 1) parents last s = .ok parents s := by
  simp [get_parent_folders_loop, hp, hroot]

/-- A parent for which there is no place is written behind the array. -/
theorem get_parent_folders_loop_full (s : σ) (hp : (es.folderAt last).parent_folder = some p)
    (hroot : (es.folderAt p).is_root = false) (hfull : parents.length ≥ capacity) :
    get_parent_folders_loop es capacity (i + 1) parents last s = .fault .out_of_bounds := by
  simp [get_parent_folders_loop, hp, hroot, hfull]

/-- The loop takes one parent more. -/
theorem get_parent_folders_loop_step (s : σ) (hp : (es.folderAt last).parent_folder = some p)
    (hroot : (es.folderAt p).is_root = false) (hroom : ¬ parents.length ≥ capacity) :
    get_parent_folders_loop es capacity (i + 1) parents last s =
      get_parent_folders_loop es capacity i (parents ++ [p]) p s := by
  simp [get_parent_folders_loop, hp, hroot, hroom]

/-- The loop collects the parent folders of `last`, unless there are more of them than
    the array has room for. -/
theorem get_parent_folders_loop_run (ht : FolderTree es) (s : σ)
    (hpath : PathFrom es.tree (.folder .root) (.folder last) (l ++ [name]))
    (hi : i + parents.length = capacity + 1) (hle : parents.length ≤ capacity) :
    (l.length + parents.length ≤ capacity →
      ∃ res, get_parent_folders_loop es capacity i parents last s = .ok res s ∧
        es.namesOf res = l ++ es.namesOf parents) ∧
    (capacity < l.length + parents.length →
      get_parent_folders_loop es capacity i parents last s = .fault .out_of_bounds) := by
  obtain ⟨i, rfl⟩ : ∃ j, i = j + 1 := ⟨i - 1, by omega⟩
  -- induction on the path, from the last folder up to the root
  induction l using List.reverseRecOn generalizing i parents last name with
  | nil =>
    obtain ⟨p, _, _, hp, hlive, hpath'⟩ := ht.parent_of_path hpath
    have hroot := (ht.is_root_of_path hlive hpath').mpr rfl
    constructor
    · intro _
      exact ⟨parents, get_parent_folders_loop_root s hp hroot, rfl⟩
    · intro hlt
      rw [List.length_nil] at hlt
      omega
  | append_singleton l y ih =>
    obtain ⟨p, _, _, hp, hlive, hpath'⟩ := ht.parent_of_path hpath
    obtain ⟨_, _, hname, _⟩ := ht.parent_of_path hpath'
    have hroot : (es.folderAt p).is_root = false := by
      rw [← Bool.not_eq_true, ht.is_root_of_path hlive hpath']
      simp
    rw [List.length_append, List.length_singleton]
    by_cases hfull : parents.length ≥ capacity
    · constructor
      · intro hroom
        omega
      · intro _
        exact get_parent_folders_loop_full s hp hroot hfull
    · have hlen : (parents ++ [p]).length = parents.length + 1 := by simp
      obtain ⟨i, rfl⟩ : ∃ j, i = j + 1 := ⟨i - 1, by omega⟩
      have hle' : (parents ++ [p]).length ≤ capacity := by omega
      obtain ⟨hok, hdeep⟩ := ih hpath' hle' i (by omega)
      rw [get_parent_folders_loop_step s hp hroot hfull]
      constructor
      · intro hroom
        obtain ⟨res, hrun, hres⟩ := hok (by omega)
        refine ⟨res, hrun, ?_⟩
        rw [hres, namesOf_append, hname, List.append_assoc, List.singleton_append]
      · intro hlt
        exact hdeep (by omega)

end loop

/-- Committed nodes are not the root. -/
theorem FolderTree.isRoot_eq_false (ht : FolderTree es) (hn : es.committed n) :
    es.isRoot n = false := by
  cases n with
  | file f => rfl
  | folder r =>
    show (es.folderAt r).is_root = false
    rw [← Bool.not_eq_true, ht.is_root_iff hn.live]
    exact fun h => hn.ne_root (congrArg _ h)

/-- **Parent folders** of a committed node: they are found if the array has room. -/
theorem get_parent_folders_run {σ : Type} (ht : FolderTree es) (s : σ)
    (hpath : PathFrom es.tree (.folder .root) n (l ++ [name])) :
    (l.length < MAX_PATH_NODES_AMOUNT →
      ∃ res, get_parent_folders es n (MAX_PATH_NODES_AMOUNT - 1) s = .ok res s ∧
        es.namesOf res = l) ∧
    (MAX_PATH_NODES_AMOUNT ≤ l.length →
      get_parent_folders es n (MAX_PATH_NODES_AMOUNT - 1) s = .fault .out_of_bounds) := by
  obtain ⟨p, hn, _, hp, hlive, hpath'⟩ := ht.parent_of_path hpath
  have hcap : ¬ MAX_PATH_NODES_AMOUNT - 1 = 0 := by decide
  have hmax : MAX_PATH_NODES_AMOUNT = 9 + 1 := rfl
  unfold get_parent_folders
  simp only [ht.isRoot_eq_false hn, hp, Bool.false_eq_true, if_false]
  -- a node directly below the root has no parents to print
  by_cases hnil : l = []
  · subst hnil
    have hroot := (ht.is_root_of_path hlive hpath').mpr rfl
    constructor
    · intro _
      simp only [hroot, if_true]
      exact ⟨[], rfl, rfl⟩
    · intro hlt
      rw [List.length_nil] at hlt
      omega
  · have hroot : (es.folderAt p).is_root = false := by
      rw [← Bool.not_eq_true, ht.is_root_of_path hlive hpath']
      exact hnil
    obtain ⟨l', y, rfl⟩ := (List.eq_nil_or_concat' l).resolve_left hnil
    obtain ⟨_, _, hname, _⟩ := ht.parent_of_path hpath'
    have hsteps : MAX_PATH_NODES_AMOUNT - 1 + [p].length = MAX_PATH_NODES_AMOUNT - 1 + 1 := rfl
    have hone : [p].length ≤ MAX_PATH_NODES_AMOUNT - 1 := Nat.one_le_iff_ne_zero.mpr hcap
    have hloop := get_parent_folders_loop_run ht s hpath' hsteps hone
    have hnames : es.namesOf [p] = [y] := by
      rw [← hname]
      rfl
    rw [hnames, List.length_singleton] at hloop
    rw [List.length_append, List.length_singleton]
    simp only [hroot, hcap, if_false, Bool.false_eq_true]
    constructor
    · intro hlt
      exact hloop.1 (by omega)
    · intro hle
      exact hloop.2 (by omega)

/-! ## Section 3: The printed path -/

/-- No name is longer than the limit, since each is terminated in its buffer. -/
theorem FolderTree.name_length_le (ht : FolderTree es) (hn : es.committed n) :
    (es.nameOf n).length ≤ MAX_NAME_LENGTH := by
  have hterm := ht.names_terminated n hn
  cases n with
  | file f => exact Nat.le_of_lt (CharBuf.length_str_lt hterm)
  | folder r => exact Nat.le_of_lt_succ (CharBuf.length_str_lt hterm)

/-- The names on a path, as the tree has them. -/
theorem FolderTree.names_on_path (ht : FolderTree es) {a : VFSNode}
    (h : PathFrom es.tree a n l) :
    ∀ name ∈ l, NameAcceptable name ∧ name.length ≤ MAX_NAME_LENGTH := by
  -- On the path: each of its names is the name of a committed node.
  induction h with
  | nil => exact fun name hname => absurd hname List.not_mem_nil
  | child hT _ ih =>
    intro name hname
    rcases List.mem_append.mp hname with hmem | hmem
    · exact ih name hmem
    · obtain ⟨hn, _, _, _, heq⟩ := tree_eq_some.mp hT
      rw [List.mem_singleton.mp hmem, heq]
      exact ⟨ht.names_acceptable _ hn, ht.name_length_le hn⟩

/-- The buffer is large enough for as many names as there may be. -/
theorem length_absolutePath_le (h : ∀ name ∈ l, name.length ≤ MAX_NAME_LENGTH) :
    (absolutePath l).length ≤ l.length * (MAX_NAME_LENGTH + 1) := by
  induction l with
  | nil => exact Nat.zero_le _
  | cons name names ih =>
    have hname := h name (List.mem_cons_self ..)
    have hnames := ih fun x hx => h x (List.mem_cons_of_mem name hx)
    rw [absolutePath_cons, List.length_cons, List.length_append, List.length_cons, Nat.succ_mul]
    omega

theorem nul_not_mem_absolutePath (h : ∀ name ∈ l, NameAcceptable name) :
    (0 : Byte) ∉ absolutePath l := by
  intro hmem
  obtain ⟨name, hname, h0⟩ := List.mem_flatMap.mp hmem
  rcases List.mem_cons.mp h0 with h0 | h0
  · cases h0
  · exact (h name hname).no_nul h0

theorem FolderTree.nul_not_mem_path (ht : FolderTree es) {a : VFSNode}
    (h : PathFrom es.tree a n l) : (0 : Byte) ∉ pathString l := by
  unfold pathString
  split
  · decide
  · exact nul_not_mem_absolutePath fun name hname => (ht.names_on_path h name hname).1

/-- Printing behind the array check. -/
theorem get_node_path_of_committed (ht : FolderTree es) (hn : es.committed n)
    (b : CharBuf PATH_BUFFER_LENGTH) :
    get_node_path es n b =
      (get_parent_folders es n (MAX_PATH_NODES_AMOUNT - 1) b).bind fun parents b =>
        (append_names_to_path (es.namesOf parents) 0 PATH_BUFFER_LENGTH b).bind fun a b =>
          append_node_name_to_path (es.nameOf n) a.1 a.2 b := by
  have hlen : ¬ PATH_BUFFER_LENGTH < PATH_BUFFER_LENGTH := Nat.lt_irrefl _
  simp only [get_node_path, hlen, if_false, ht.isRoot_eq_false hn, Bool.false_eq_true, bind_run]
  rfl

/-- The path of the root. -/
theorem get_node_path_root (ht : FolderTree es) (b : CharBuf PATH_BUFFER_LENGTH) :
    ∃ b', get_node_path es (.folder .root) b = .ok () b' ∧ b'.str = pathString [] ∧
      b'.Terminated := by
  have hroot : es.isRoot (.folder .root) = true := ht.root_is_root
  have hlen : ¬ PATH_BUFFER_LENGTH < PATH_BUFFER_LENGTH := Nat.lt_irrefl _
  have hfits : 0 + [PATH_DELIMITER, 0].length ≤ PATH_BUFFER_LENGTH := by decide
  obtain ⟨b', hwrite⟩ := CharBuf.write_isSome (b := b) hfits
  refine ⟨b', ?_, ?_⟩
  · simp only [get_node_path, hlen, if_false, hroot, if_true, bind_run, readState_run, bind_ok,
      hwrite, modifyState_run]
  · have hslash : b.write 0 ([PATH_DELIMITER] ++ [0]) = some b' := hwrite
    exact CharBuf.str_of_write_zero hslash

/-- **Printing** the path of a node with at most `MAX_PATH_NODES_AMOUNT` names succeeds,
    without writing behind the buffer. -/
theorem get_node_path_run (ht : FolderTree es)
    (hpath : PathFrom es.tree (.folder .root) n l) (hlen : l.length ≤ MAX_PATH_NODES_AMOUNT)
    (b : CharBuf PATH_BUFFER_LENGTH) :
    ∃ b', get_node_path es n b = .ok () b' ∧ b'.str = pathString l ∧ b'.Terminated := by
  rcases List.eq_nil_or_concat' l with hnil | ⟨l', name, hl⟩
  · -- the root
    subst hnil
    have hn : n = .folder .root := ht.wellFormed.path_inj hpath PathFrom.nil
    subst hn
    exact get_node_path_root ht b
  · subst hl
    obtain ⟨_, hn, hname, _⟩ := ht.parent_of_path hpath
    have hnul := ht.nul_not_mem_path hpath
    have hroom : (absolutePath (l' ++ [name])).length + 1 ≤ PATH_BUFFER_LENGTH := by
      have hle := length_absolutePath_le fun x hx => (ht.names_on_path hpath x hx).2
      have hmul := Nat.mul_le_mul_right (MAX_NAME_LENGTH + 1) hlen
      have hbuf : PATH_BUFFER_LENGTH = MAX_PATH_NODES_AMOUNT * (MAX_NAME_LENGTH + 1) + 1 := rfl
      omega
    rw [List.length_append, List.length_singleton] at hlen
    rw [absolutePath_append, List.length_append] at hroom
    obtain ⟨parents, hparents, hnames⟩ := (get_parent_folders_run ht b hpath).1 (by omega)
    -- the names of the parent folders, then the name of the node
    obtain ⟨b₁, hprint, hstart⟩ : ∃ b', append_names_to_path l' 0 PATH_BUFFER_LENGTH b =
        .ok ((absolutePath l').length, PATH_BUFFER_LENGTH - (absolutePath l').length) b' ∧
          b'.StartsWith (absolutePath l') :=
      append_names_to_path_run b.startsWith_nil (by rw [List.length_nil]; omega)
    have hname_len : (absolutePath [name]).length = name.length + 1 := by
      rw [absolutePath_cons, absolutePath_nil, List.append_nil, List.length_cons]
    have hroom' : (absolutePath l').length + name.length + 2 ≤ PATH_BUFFER_LENGTH := by omega
    obtain ⟨b₂, hlast, hstart₂⟩ := append_node_name_to_path_run hstart hroom'
    have htext : absolutePath l' ++ PATH_DELIMITER :: name = pathString (l' ++ [name]) := by
      unfold pathString
      rw [if_neg (by simp), absolutePath_append, absolutePath_cons, absolutePath_nil,
        List.append_nil]
    rw [htext] at hstart₂
    refine ⟨b₂, ?_, hstart₂.str_eq hnul⟩
    rw [get_node_path_of_committed ht hn, hparents, bind_ok, hnames, hprint, bind_ok, hname]
    exact hlast

/-- Below that the array of parent folders is written past its end. -/
theorem get_node_path_deep (ht : FolderTree es)
    (hpath : PathFrom es.tree (.folder .root) n l) (hlen : MAX_PATH_NODES_AMOUNT < l.length)
    (b : CharBuf PATH_BUFFER_LENGTH) :
    get_node_path es n b = .fault .out_of_bounds := by
  obtain ⟨l', name, rfl⟩ := (List.eq_nil_or_concat' l).resolve_left (by
    intro hnil
    rw [hnil] at hlen
    cases hlen)
  obtain ⟨_, hn, _⟩ := ht.parent_of_path hpath
  rw [List.length_append, List.length_singleton] at hlen
  rw [get_node_path_of_committed ht hn, (get_parent_folders_run ht b hpath).2 (by omega)]
  rfl

/-- What a successful call has printed. -/
theorem get_node_path_ok (ht : FolderTree es) (hpath : PathFrom es.tree (.folder .root) n l)
    {b b' : CharBuf PATH_BUFFER_LENGTH} (h : get_node_path es n b = .ok () b') :
    l.length ≤ MAX_PATH_NODES_AMOUNT ∧ b'.str = pathString l ∧ b'.Terminated := by
  by_cases hlen : l.length ≤ MAX_PATH_NODES_AMOUNT
  · obtain ⟨b'', hrun, hstr, hterm⟩ := get_node_path_run ht hpath hlen b
    rw [hrun] at h
    cases h
    exact ⟨hlen, hstr, hterm⟩
  · rw [get_node_path_deep ht hpath (Nat.lt_of_not_le hlen) b] at h
    cases h

end VirtualFS
