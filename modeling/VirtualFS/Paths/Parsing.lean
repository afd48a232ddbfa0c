import VirtualFS.System.PathUtils

/-! # Parsing Paths

    `parse_path` reads the names that a path is made of. It accepts exactly the
    printed form of a list of names without delimiters that fit in a row, with or
    without one more delimiter behind them.

    * `absolutePath`, `relativePath`: how a list of names is printed.
    * `parse_path_run`: printed names are read.
    * `parse_path_success`: what is read was printed.
    * `absolutePath_injective`: different lists of names have different paths.
-/

namespace VirtualFS

open Framework

/-! ## Section 1: Printed paths -/

/-- Every name behind a delimiter. -/
def absolutePath (names : List (List Byte)) : List Byte :=
  names.flatMap fun name => PATH_DELIMITER :: name

/-- The names with delimiters between them. -/
def relativePath : List (List Byte) → List Byte
  | [] => []
  | name :: names => name ++ absolutePath names

/-- The path of the node below the root with these names; the root itself is `"/"`. -/
def pathString (names : List (List Byte)) : List Byte :=
  if names = [] then [PATH_DELIMITER] else absolutePath names

variable {name path row rest : List Byte} {names : List (List Byte)} {k rows : Nat}

@[simp] theorem absolutePath_nil : absolutePath [] = [] := rfl

@[simp] theorem absolutePath_cons :
    absolutePath (name :: names) = PATH_DELIMITER :: (name ++ absolutePath names) := rfl

/-- Printing is compatible with joining. -/
theorem absolutePath_append (names names' : List (List Byte)) :
    absolutePath (names ++ names') = absolutePath names ++ absolutePath names' :=
  List.flatMap_append

/-- An absolute path is a relative one behind a delimiter. -/
theorem absolutePath_of_ne_nil (h : names ≠ []) :
    absolutePath names = PATH_DELIMITER :: relativePath names := by
  cases names with
  | nil => exact absurd rfl h
  | cons name names => rfl

/-! ## Section 2: One name -/

/-- What follows a name: nothing or a delimiter. -/
def AtDelimiter (rest : List Byte) : Prop := rest = [] ∨ ∃ tail, rest = PATH_DELIMITER :: tail

/-- A printed path starts with a delimiter, or is empty. -/
theorem atDelimiter_absolutePath : AtDelimiter (absolutePath names) := by
  cases names with
  | nil => exact Or.inl rfl
  | cons name names => exact Or.inr ⟨_, rfl⟩

/-- The name ends at a delimiter. -/
theorem parse_node_delimiter :
    parse_node k (PATH_DELIMITER :: path) row = ⟨.SUCCESS, row, PATH_DELIMITER :: path⟩ :=
  if_pos rfl

/-- The row is full before the name ends. -/
theorem parse_node_full {c : Byte} (hc : c ≠ PATH_DELIMITER) (hfull : row.length ≥ k - 1) :
    parse_node k (c :: path) row = ⟨.IDENTIFIER_IS_TOO_LONG, row, c :: path⟩ :=
  (if_neg hc).trans (if_pos hfull)

/-- A character of the name is put into the row. -/
theorem parse_node_cons {c : Byte} (hc : c ≠ PATH_DELIMITER) (hroom : ¬ row.length ≥ k - 1) :
    parse_node k (c :: path) row = parse_node k path (row ++ [c]) :=
  (if_neg hc).trans (if_neg hroom)

/-- A name that fits in the row is copied. -/
theorem parse_node_run (hname : PATH_DELIMITER ∉ name) (hrest : AtDelimiter rest)
    (hlen : row.length + name.length ≤ k - 1) :
    parse_node k (name ++ rest) row = ⟨.SUCCESS, row ++ name, rest⟩ := by
  -- The row grows by one character of the name in each step and never fills up.
  induction name generalizing row with
  | nil =>
    rw [List.append_nil]
    rcases hrest with h | ⟨tail, h⟩
    · rw [h]
      rfl
    · rw [h]
      exact parse_node_delimiter
  | cons c name ih =>
    have hc : c ≠ PATH_DELIMITER := fun h => hname (h ▸ List.mem_cons_self ..)
    have hname' : PATH_DELIMITER ∉ name := fun h => hname (List.mem_cons_of_mem c h)
    rw [List.length_cons] at hlen
    have hroom : ¬ row.length ≥ k - 1 := by omega
    have hlen' : (row ++ [c]).length + name.length ≤ k - 1 := by
      rw [List.length_append, List.length_singleton]
      omega
    rw [List.cons_append, parse_node_cons hc hroom, ih hname' hlen', List.append_assoc]
    rfl

/-- What a successful call has read. -/
theorem parse_node_success (hrow : row.length ≤ k - 1)
    (h : (parse_node k path row).status = .SUCCESS) :
    ∃ name, PATH_DELIMITER ∉ name ∧ (parse_node k path row).row = row ++ name ∧
      path = name ++ (parse_node k path row).rest ∧
      AtDelimiter (parse_node k path row).rest ∧ row.length + name.length ≤ k - 1 := by
  induction path generalizing row with
  | nil =>
    refine ⟨[], ?_, ?_, rfl, Or.inl rfl, hrow⟩
    · exact List.not_mem_nil
    · exact (List.append_nil row).symm
  | cons c path ih =>
    by_cases hc : c = PATH_DELIMITER
    · subst hc
      rw [parse_node_delimiter]
      refine ⟨[], List.not_mem_nil, ?_, rfl, Or.inr ⟨path, rfl⟩, hrow⟩
      exact (List.append_nil row).symm
    · by_cases hroom : row.length ≥ k - 1
      · -- the row is full
        rw [parse_node_full hc hroom] at h
        cases h
      · rw [parse_node_cons hc hroom] at h ⊢
        have hrow' : (row ++ [c]).length ≤ k - 1 := by
          rw [List.length_append, List.length_singleton]
          omega
        obtain ⟨name, hname, hrow_eq, hpath, hrest, hlen⟩ := ih hrow' h
        rw [List.length_append, List.length_singleton] at hlen
        refine ⟨c :: name, ?_, ?_, ?_, hrest, ?_⟩
        · intro hmem
          rcases List.mem_cons.mp hmem with heq | hmem
          · exact hc heq.symm
          · exact hname hmem
        · rw [hrow_eq, List.append_assoc]
          rfl
        · rw [List.cons_append, ← hpath]
        · rw [List.length_cons]
          omega

/-! ## Section 3: All names -/

/-- Names that a row can hold. -/
def NamesFit (k : Nat) (names : List (List Byte)) : Prop :=
  ∀ name ∈ names, PATH_DELIMITER ∉ name ∧ name.length ≤ k - 1

/-- One step of the loop. -/
theorem parse_path_loop_step {c : Byte} {node : ParsedNode}
    (hnode : parse_node k (c :: path) [] = node) (hstatus : node.status = .SUCCESS) :
    parse_path_loop k (rows + 1) (c :: path) =
      ((parse_path_loop k rows (node.rest.drop 1)).1,
        node.row :: (parse_path_loop k rows (node.rest.drop 1)).2) := by
  subst hnode
  exact if_pos hstatus

/-- A row that fails ends the loop. -/
theorem parse_path_loop_stop {c : Byte} {node : ParsedNode}
    (hnode : parse_node k (c :: path) [] = node) (hstatus : node.status ≠ .SUCCESS) :
    parse_path_loop k (rows + 1) (c :: path) = (node.status, [node.row]) := by
  subst hnode
  simp only [parse_path_loop, hstatus, if_false]

/-- Printed names are read back. -/
theorem parse_path_loop_run (hfit : NamesFit k names) (hne : [] ∉ names)
    (hrows : names.length ≤ rows) :
    parse_path_loop k rows (relativePath names) = (.SUCCESS, names) := by
  induction names generalizing rows with
  | nil =>
    cases rows with
    | zero => rfl
    | succ rows => rfl
  | cons name names ih =>
    obtain ⟨hname, hlen⟩ := hfit name (List.mem_cons_self ..)
    have hfit' : NamesFit k names := fun x hx => hfit x (List.mem_cons_of_mem name hx)
    have hne' : [] ∉ names := fun h => hne (List.mem_cons_of_mem name h)
    rw [List.length_cons] at hrows
    obtain ⟨rows, rfl⟩ : ∃ rows', rows = rows' + 1 := ⟨rows - 1, by omega⟩
    -- the name is not empty, so the loop is entered
    obtain ⟨c, name, rfl⟩ := List.exists_cons_of_ne_nil
      (fun h : name = [] => hne (h ▸ List.mem_cons_self ..))
    have hnode : parse_node k (c :: (name ++ absolutePath names)) [] =
        ⟨.SUCCESS, c :: name, absolutePath names⟩ := by
      rw [← List.cons_append]
      apply parse_node_run hname atDelimiter_absolutePath
      rw [List.length_nil, Nat.zero_add]
      exact hlen
    have hdrop : (absolutePath names).drop 1 = relativePath names := by
      cases names with
      | nil => rfl
      | cons y ys => rfl
    have htail : parse_path_loop k rows (relativePath names) = (.SUCCESS, names) :=
      ih hfit' hne' (by omega)
    show parse_path_loop k (rows + 1) (c :: (name ++ absolutePath names)) = _
    rw [parse_path_loop_step hnode rfl]
    show ((parse_path_loop k rows ((absolutePath names).drop 1)).1, _ :: _) = _
    rw [hdrop, htail]

/-- The printed form of the names up to one delimiter at the end. -/
def Printed (path : List Byte) (names : List (List Byte)) : Prop :=
  path = relativePath names ∨ path = relativePath names ++ [PATH_DELIMITER]

/-- A name in front of a printed path. -/
theorem Printed.cons (hrest : AtDelimiter rest) (hend : rest = [] → names = [])
    (hnil : names = [] → rest.drop 1 = []) (h : Printed (rest.drop 1) names) :
    Printed (name ++ rest) (name :: names) := by
  rcases hrest with hrest | ⟨tail, hrest⟩
  · -- the path ends with this name
    left
    rw [hend hrest, hrest]
    rfl
  · subst hrest
    rw [List.drop_one, List.tail_cons] at hnil h
    cases names with
    | nil =>
      -- one delimiter behind the last name
      right
      rw [hnil rfl]
      show _ = name ++ absolutePath [] ++ [PATH_DELIMITER]
      rw [absolutePath_nil, List.append_nil]
    | cons y ys =>
      have habs := absolutePath_of_ne_nil (List.cons_ne_nil y ys)
      rcases h with h | h
      · left
        show _ = name ++ absolutePath (y :: ys)
        rw [habs, h]
      · right
        show _ = name ++ absolutePath (y :: ys) ++ [PATH_DELIMITER]
        rw [habs, h, List.append_assoc, List.cons_append]

/-- What a successful call has read. -/
theorem parse_path_loop_success (h : parse_path_loop k rows path = (.SUCCESS, names)) :
    NamesFit k names ∧ names.length ≤ rows ∧ (names = [] ↔ path = []) ∧ Printed path names := by
  -- On the rows left; each round takes one name off the path.
  induction rows generalizing path names with
  | zero =>
    cases path with
    | nil =>
      cases h
      exact ⟨fun x hx => absurd hx List.not_mem_nil, Nat.le_refl _, ⟨fun _ => rfl, fun _ => rfl⟩,
        Or.inl rfl⟩
    | cons c path => cases h
  | succ rows ih =>
    cases path with
    | nil =>
      cases h
      exact ⟨fun x hx => absurd hx List.not_mem_nil, Nat.zero_le _, ⟨fun _ => rfl, fun _ => rfl⟩,
        Or.inl rfl⟩
    | cons c path =>
      have hstatus : (parse_node k (c :: path) []).status = .SUCCESS := by
        by_contra hfail
        simp only [parse_path_loop, hfail, if_false] at h
        exact hfail (Prod.mk.inj h).1
      obtain ⟨name, hname, hrow, hpath, hrest, hlen⟩ :=
        parse_node_success (Nat.zero_le _) hstatus
      rw [parse_path_loop_step rfl hstatus] at h
      rw [hpath]
      generalize parse_node k (c :: path) [] = node at *
      rw [List.nil_append] at hrow
      rw [List.length_nil, Nat.zero_add] at hlen
      obtain ⟨htail, rfl⟩ := Prod.mk.inj h
      obtain ⟨hfit, hrows, hnil, hprinted⟩ := ih (Prod.ext htail rfl)
      rw [hrow]
      refine ⟨?_, Nat.succ_le_succ hrows, ?_, ?_⟩
      · intro x hx
        rcases List.mem_cons.mp hx with rfl | hx
        · exact ⟨hname, hlen⟩
        · exact hfit x hx
      · exact ⟨fun hnil => absurd hnil (List.cons_ne_nil _ _),
          fun hnil => absurd (hpath.trans hnil) (List.cons_ne_nil _ _)⟩
      · apply hprinted.cons hrest
        · intro hend
          rw [hnil, hend]
          rfl
        · exact hnil.mp

/-- `parse_path` reads back printed names. -/
theorem parse_path_run (hk : 1 < k) (hfit : NamesFit k names) (hne : [] ∉ names)
    (hnames : names ≠ []) (hrows : names.length ≤ rows) :
    parse_path (relativePath names) k rows = (.SUCCESS, names) := by
  have hpos : 0 < names.length := List.length_pos_iff.mpr hnames
  have hpath : ¬ (relativePath names).length = 0 := by
    intro h
    cases names with
    | nil => exact hnames rfl
    | cons name names =>
      have hname : name = [] := (List.append_eq_nil_iff.mp (List.length_eq_zero_iff.mp h)).1
      exact hne (hname ▸ List.mem_cons_self ..)
  unfold parse_path
  rw [if_neg (by omega), if_neg hpath]
  exact parse_path_loop_run hfit hne hrows

/-- What is read without an error has been printed. -/
theorem parse_path_success (h : parse_path path k rows = (.SUCCESS, names)) :
    NamesFit k names ∧ names.length ≤ rows ∧ names ≠ [] ∧ Printed path names := by
  unfold parse_path at h
  split at h
  · cases h
  · split at h
    · cases h
    · next hpath =>
      obtain ⟨hfit, hrows, hnil, hprinted⟩ := parse_path_loop_success h
      refine ⟨hfit, hrows, ?_, hprinted⟩
      intro hnames
      exact hpath (by rw [hnil.mp hnames]; rfl)

/-! ## Section 4: Different names, different paths -/

/-- The name in front of a path can be read off. -/
theorem takeWhile_name (hname : PATH_DELIMITER ∉ name) (hrest : AtDelimiter rest) :
    (name ++ rest).takeWhile (· ≠ PATH_DELIMITER) = name := by
  have hall : ∀ c ∈ name, decide (c ≠ PATH_DELIMITER) = true := by
    intro c hc
    exact decide_eq_true fun heq => hname (heq ▸ hc)
  rw [List.takeWhile_append_of_pos hall]
  rcases hrest with hnil | ⟨tail, htail⟩
  · simp [hnil]
  · simp [htail]

/-- Different names make different paths. -/
theorem absolutePath_injective {names' : List (List Byte)}
    (h : ∀ name ∈ names, PATH_DELIMITER ∉ name) (h' : ∀ name ∈ names', PATH_DELIMITER ∉ name)
    (heq : absolutePath names = absolutePath names') : names = names' := by
  induction names generalizing names' with
  | nil =>
    cases names' with
    | nil => rfl
    | cons name' names' => cases heq
  | cons name names ih =>
    cases names' with
    | nil => cases heq
    | cons name' names' =>
      rw [absolutePath_cons, absolutePath_cons] at heq
      have htail := List.tail_eq_of_cons_eq heq
      have hdelim : AtDelimiter (absolutePath names) := atDelimiter_absolutePath
      have hdelim' : AtDelimiter (absolutePath names') := atDelimiter_absolutePath
      -- the first name ends at the first delimiter in both paths
      have hsame : name = name' := by
        rw [← takeWhile_name (h name (List.mem_cons_self ..)) hdelim,
          ← takeWhile_name (h' name' (List.mem_cons_self ..)) hdelim', htail]
      subst hsame
      have hrest := ih (fun x hx => h x (List.mem_cons_of_mem _ hx))
        (fun x hx => h' x (List.mem_cons_of_mem _ hx)) (List.append_cancel_left htail)
      rw [hrest]

/-- The path of a node determines its names. -/
theorem pathString_injective {names' : List (List Byte)}
    (h : ∀ name ∈ names, PATH_DELIMITER ∉ name) (h' : ∀ name ∈ names', PATH_DELIMITER ∉ name)
    (hne : [] ∉ names) (hne' : [] ∉ names') (heq : pathString names = pathString names') :
    names = names' := by
  have hroot : ∀ name ∈ [([] : List Byte)], PATH_DELIMITER ∉ name := by simp
  unfold pathString at heq
  split at heq
  · next hnil =>
    split at heq
    · next hnil' => rw [hnil, hnil']
    · -- the path of the root looks like that of an empty name
      have hempty : [[]] = names' := absolutePath_injective hroot h' heq
      exact absurd (hempty ▸ List.mem_singleton_self _) hne'
  · split at heq
    · have hempty : names = [[]] := absolutePath_injective h hroot heq
      exact absurd (hempty ▸ List.mem_singleton_self _) hne
    · exact absolutePath_injective h h' heq

end VirtualFS
