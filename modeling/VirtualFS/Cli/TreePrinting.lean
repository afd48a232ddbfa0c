import VirtualFS.Cli.CarriedOperations
import VirtualFS.Framework.Outline
import VirtualFS.Workspace.Completeness

/-! # Reading a Printed Tree

    `tree` prints an outline of what is below a folder. The printed lines show
    names and depths only, but they can be read back: nothing is missing in
    them, and nothing is printed twice.

    * `VFSEntryStore.outline`: the listing of a folder, with all below it.
    * `print_folder_outline`: the code prints this listing.
    * `readTree`: a reader of printed trees.
    * `tree_reads_back`: it finds all entries, each of them once.
-/

namespace VirtualFS

open Framework Prog Outcome ParentMap VFSEntryStore

variable {cli : Cli} {cmd : Command} {σ : FileSystem} {es : VFSEntryStore} {n m : VFSNode}
  {r d : FolderRef} {l k s : List (List Byte)} {x : List Byte} {levels : Nat}
  {e : Outlined (List Byte) Bool}

/-! ## Section 1: The outline of a folder -/

/-- The node is a folder. -/
def VFSNode.isFolder : VFSNode → Bool
  | .file _ => false
  | .folder _ => true

/-- What is below a folder, down to `levels` levels below it; the path of the folder is
    `k`. -/
def VFSEntryStore.outline (es : VFSEntryStore) :
    (levels : Nat) → (r : FolderRef) → (k : List (List Byte)) → List (Outlined (List Byte) Bool)
  | 0, _, _ => []
  | levels + 1, r, k => (es.children r).flatMap fun n =>
    ⟨k, es.nameOf n, n.isFolder⟩ ::
      match n with
      | .file _ => []
      | .folder d => es.outline levels d (k ++ [es.nameOf n])

/-- The lines for an entry: its own, and those of what is below it. -/
def VFSEntryStore.outlineOf (es : VFSEntryStore) (levels : Nat) (k : List (List Byte))
    (n : VFSNode) : List (Outlined (List Byte) Bool) :=
  ⟨k, es.nameOf n, n.isFolder⟩ ::
    match n with
    | .file _ => []
    | .folder d => es.outline levels d (k ++ [es.nameOf n])

theorem outline_succ (es : VFSEntryStore) (levels : Nat) (r : FolderRef) (k : List (List Byte)) :
    es.outline (levels + 1) r k = (es.children r).flatMap (es.outlineOf levels k) := rfl

/-- All listed paths are below the folder. -/
theorem outline_under (es : VFSEntryStore) (levels : Nat) (r : FolderRef) (k : List (List Byte)) :
    Outlined.Under k (es.outline levels r k) := by
  -- The listing of a folder is that of its children, one level further down.
  induction levels generalizing r k with
  | zero => exact fun _ h => absurd h List.not_mem_nil
  | succ levels ih =>
    rw [outline_succ]
    apply Outlined.Under.flatMap
    intro n _ e he
    rcases List.mem_cons.mp he with rfl | he
    · exact List.prefix_refl k
    · cases n with
      | file f => cases he
      | folder d => exact (List.prefix_append _ _).trans (ih _ _ e he)

theorem outlineOf_under (es : VFSEntryStore) (levels : Nat) (k : List (List Byte)) (n : VFSNode) :
    Outlined.Under k (es.outlineOf levels k n) := by
  intro e he
  rcases List.mem_cons.mp he with rfl | he
  · exact List.prefix_refl k
  · cases n with
    | file f => cases he
    | folder d => exact (List.prefix_append _ _).trans (outline_under _ _ _ _ e he)

/-- Each listed path hangs from the one in front of it. -/
theorem outline_nested (es : VFSEntryStore) (levels : Nat) (r : FolderRef)
    (k : List (List Byte)) : Outlined.Nested k (es.outline levels r k) := by
  -- A child is listed in front of what is below it, and that is nested by induction.
  induction levels generalizing r k with
  | zero => trivial
  | succ levels ih =>
    rw [outline_succ]
    apply Outlined.Nested.flatMap (fun n _ => outlineOf_under es levels k n)
    intro n _
    apply Outlined.Nested.cons
    cases n with
    | file f => trivial
    | folder d => exact ih _ _

/-! ### What is listed -/

/-- Each line of an entry starts with its path. -/
theorem path_of_mem_outlineOf (he : e ∈ es.outlineOf levels k n) :
    k ++ [es.nameOf n] <+: e.path := by
  rcases List.mem_cons.mp he with rfl | he
  · exact List.prefix_refl _
  · cases n with
    | file f => cases he
    | folder d => exact (outline_under _ _ _ _ e he).trans (List.prefix_append _ _)

/-- No path is listed twice. -/
theorem outline_nodup (ht : FolderTree es) (hr : es.live r) :
    (es.outline levels r k).Nodup := by
  induction levels generalizing r k with
  | zero => exact List.nodup_nil
  | succ levels ih =>
    rw [outline_succ, List.nodup_flatMap]
    constructor
    · intro n hn
      apply List.nodup_cons.mpr
      cases n with
      | file f => exact ⟨List.not_mem_nil, List.nodup_nil⟩
      | folder d =>
        constructor
        · intro he
          have hlength := (outline_under _ _ _ _ _ he).length_le
          simp at hlength
        · exact ih (ht.children_committed r hr _ hn).1.live
    · apply (ht.children_nodup hr).pairwise_of_forall_ne
      intro m hm n hn hne e he he'
      -- lines of different children start with different names
      have hprefix := List.prefix_or_prefix_of_prefix (path_of_mem_outlineOf he)
        (path_of_mem_outlineOf he')
      have hname : es.nameOf m = es.nameOf n := by
        have heq : k ++ [es.nameOf m] = k ++ [es.nameOf n] := by
          rcases hprefix with hpre | hpre
          · exact hpre.eq_of_length (by simp)
          · exact (hpre.eq_of_length (by simp)).symm
        simpa using heq
      exact hne (ht.names_distinct r hr m hm n hn hname)

/-- **What is below a folder is listed**, if no folder lies deeper than `levels`. -/
theorem mem_outline_iff (ht : FolderTree es) (hr : es.live r) (hfits : es.fits levels r) :
    e ∈ es.outline levels r k ↔
      ∃ n s, PathFrom es.tree (.folder r) n s ∧ s ≠ [] ∧ e.path = k ++ s ∧ e.note = n.isFolder := by
  induction levels generalizing r k with
  | zero => exact absurd (hfits r [] PathFrom.nil) (Nat.not_lt_zero _)
  | succ levels ih =>
    have hsub := (ht.fits_succ_iff hr).mp hfits
    rw [outline_succ, List.mem_flatMap]
    constructor
    · rintro ⟨n, hn, he⟩
      have hT := ht.tree_eq hr hn
      rcases List.mem_cons.mp he with rfl | he
      · exact ⟨n, [es.nameOf n], PathFrom.cons hT PathFrom.nil, by simp, rfl, rfl⟩
      · cases n with
        | file f => cases he
        | folder d =>
          have hd := (ht.children_committed r hr _ hn).1.live
          obtain ⟨m, s, hs, hne, hpath, hnote⟩ := (ih hd (hsub d hn)).mp he
          refine ⟨m, es.nameOf (.folder d) :: s, PathFrom.cons hT hs, by simp, ?_, hnote⟩
          rw [hpath, List.append_assoc, List.singleton_append]
    · rintro ⟨n, s, hs, hne, hpath, hnote⟩
      rcases hs.cases_head with ⟨-, rfl⟩ | ⟨c, x, t, hc, ht', rfl⟩
      · exact absurd rfl hne
      obtain ⟨hcc, q, hq, heq, rfl⟩ := tree_eq_some.mp hc
      cases heq
      have hmem : c ∈ es.children r := ht.mem_children_parent hcc hq
      refine ⟨c, hmem, ?_⟩
      by_cases hnil : t = []
      · -- the child itself
        subst hnil
        obtain ⟨rfl, -⟩ : n = c ∧ True := by
          rcases ht'.cases_head with ⟨heq, -⟩ | ⟨_, _, _, _, _, heq⟩
          · exact ⟨heq, trivial⟩
          · cases heq
        apply List.mem_cons.mpr
        left
        obtain ⟨parent, label, note⟩ := e
        obtain ⟨hparent, hlabel⟩ := List.append_inj' hpath rfl
        cases hparent
        cases hlabel
        cases hnote
        rfl
      · cases c with
        | file f => exact absurd (pathFrom_file ht').2 hnil
        | folder d =>
          apply List.mem_cons.mpr
          right
          apply (ih hcc.live (hsub d hmem)).mpr
          refine ⟨n, t, ht', hnil, ?_, hnote⟩
          rw [hpath, List.append_assoc, List.singleton_append]

/-! ## Section 2: What is printed -/

/-- The line of an entry, without its end. -/
def treeLine (e : Outlined (List Byte) Bool) : List Byte :=
  List.replicate (2 * (e.parent.length + 1)) SPACE ++
    (e.label ++ if e.note then [PATH_DELIMITER] else [])

/-- The text behind the name of the folder. -/
def treeText (es : List (Outlined (List Byte) Bool)) : List Byte :=
  es.flatMap fun e => treeLine e ++ [NEW_LINE]

theorem treeText_cons (e : Outlined (List Byte) Bool) (es : List (Outlined (List Byte) Bool)) :
    treeText (e :: es) = treeLine e ++ [NEW_LINE] ++ treeText es := List.flatMap_cons

/-- The text of a folder is that of its children. -/
theorem treeText_outline (es : VFSEntryStore) (levels : Nat) (r : FolderRef)
    (k : List (List Byte)) :
    treeText (es.outline (levels + 1) r k) =
      (es.children r).flatMap fun n => treeText (es.outlineOf levels k n) := by
  rw [outline_succ]
  exact List.flatMap_assoc

/-- One level of the printing, given the levels below it. -/
theorem print_folder_step (hdepth : k.length + levels = MAX_FOLDER_DEPTH)
    (hsub : ∀ d, .folder d ∈ es.children r → print_folder_recursion es levels d =
      .ok (es.nameOf (.folder d) ++ ascii "/\n" ++
        treeText (es.outline levels d (k ++ [es.nameOf (.folder d)])))) :
    print_folder_recursion es (levels + 1) r =
      .ok (es.nameOf (.folder r) ++ ascii "/\n" ++ treeText (es.outline (levels + 1) r k)) := by
  -- the indentation is the depth, counted from the limit in the code and from the root here
  have hindent : MAX_FOLDER_DEPTH + 1 - levels = k.length + 1 := by omega
  have hend : ascii "\n" = [NEW_LINE] := rfl
  have hslash : ascii "/\n" = [PATH_DELIMITER] ++ [NEW_LINE] := rfl
  have hfile : ∀ f, treeText (es.outlineOf levels k (.file f)) =
      List.replicate (2 * (k.length + 1)) SPACE ++ (es.files f).name.str ++ ascii "\n" := by
    intro f
    show treeText [⟨k, (es.files f).name.str, false⟩] = _
    rw [treeText_cons, hend]
    simp [treeLine, treeText]
  have hfolder : ∀ d, .folder d ∈ es.children r → treeText (es.outlineOf levels k (.folder d)) =
      List.replicate (2 * (k.length + 1)) SPACE ++
        (print_folder_recursion es levels d).toOption.getD [] := by
    intro d hd
    show treeText (⟨k, es.nameOf (.folder d), true⟩ ::
      es.outline levels d (k ++ [es.nameOf (.folder d)])) = _
    rw [treeText_cons, hsub d hd, hslash]
    simp [treeLine, Except.toOption]
  have htext : treeText (es.outline (levels + 1) r k) =
      ((occupants MAX_SUB_FILES_AMOUNT (es.folderAt r).sub_files).flatMap fun f =>
        List.replicate (2 * (k.length + 1)) SPACE ++ (es.files f).name.str ++ ascii "\n") ++
      (occupants MAX_SUB_FOLDERS_AMOUNT (es.folderAt r).sub_folders).flatMap fun d =>
        List.replicate (2 * (k.length + 1)) SPACE ++
          (print_folder_recursion es levels d).toOption.getD [] := by
    rw [treeText_outline]
    unfold children
    rw [List.flatMap_append, List.flatMap_map, List.flatMap_map]
    apply congr
    · exact congrArg _ (List.flatMap_congr fun f _ => hfile f)
    · apply List.flatMap_congr
      intro d hd
      exact hfolder d (List.mem_append_right _ (List.mem_map_of_mem hd))
  rw [print_folder_recursion, hindent, htext, ← List.append_assoc]
  rfl

/-- **The printed text** is that of the outline. -/
theorem print_folder_outline (ht : FolderTree es) (hr : es.live r)
    (hfits : es.fits (levels + 1) r) (hdepth : k.length + levels = MAX_FOLDER_DEPTH) :
    print_folder_recursion es (levels + 1) r =
      .ok (es.nameOf (.folder r) ++ ascii "/\n" ++ treeText (es.outline (levels + 1) r k)) := by
  -- On the levels left; the depth of `k` grows as they get fewer.
  induction levels generalizing r k with
  | zero =>
    apply print_folder_step hdepth
    intro d hd
    have hnone := (ht.fits_succ_iff hr).mp hfits d hd
    exact absurd (hnone d [] PathFrom.nil) (Nat.not_lt_zero _)
  | succ levels ih =>
    apply print_folder_step hdepth
    intro d hd
    have hlive := (ht.children_committed r hr _ hd).1.live
    have hlength : (k ++ [es.nameOf (.folder d)]).length + levels = MAX_FOLDER_DEPTH := by
      rw [List.length_append, List.length_singleton]
      omega
    exact ih hlive ((ht.fits_succ_iff hr).mp hfits d hd) hlength

/-! ## Section 3: Reading it back -/

/-- A name that can be told from what is printed around it. -/
def Legible (name : List Byte) : Prop := NEW_LINE ∉ name ∧ name.head? ≠ some SPACE

instance (name : List Byte) : Decidable (Legible name) := inferInstanceAs (Decidable (_ ∧ _))

/-- Depth, name and kind, as a line shows them. -/
def readTreeLine (line : List Byte) : Nat × List Byte × Bool :=
  let name := line.dropWhile (· = SPACE)
  ((line.takeWhile (· = SPACE)).length / 2 - 1,
    if name.getLast? = some PATH_DELIMITER then (name.dropLast, true) else (name, false))

/-- What the text behind the name of the folder says. -/
def readTree (text : List Byte) : List (Outlined (List Byte) Bool) :=
  Outlined.read [] ((textLines NEW_LINE text).map readTreeLine)

/-- A printed line is read back. -/
theorem readTreeLine_treeLine (hok : NameAcceptable e.label) (hlegible : Legible e.label) :
    readTreeLine (treeLine e) = e.line := by
  obtain ⟨parent, label, note⟩ := e
  obtain ⟨c, cs, rfl⟩ := List.exists_cons_of_ne_nil hok.not_empty
  have hc : c ≠ SPACE := by
    rintro rfl
    exact hlegible.2 rfl
  -- The name does not start with a space, so the indentation is read off exactly.
  have hspaces : ∀ a ∈ List.replicate (2 * (parent.length + 1)) SPACE,
      decide (a = SPACE) = true := by
    intro a ha
    exact decide_eq_true (List.eq_of_mem_replicate ha)
  unfold readTreeLine treeLine
  have htake : ∀ rest, (c :: rest).takeWhile (· = SPACE) = [] :=
    fun rest => List.takeWhile_cons_of_neg (by simpa using hc)
  have hdrop : ∀ rest, (c :: rest).dropWhile (· = SPACE) = c :: rest :=
    fun rest => List.dropWhile_cons_of_neg (by simpa using hc)
  have hdepth : 2 * (parent.length + 1) / 2 - 1 = parent.length := by omega
  simp only [List.takeWhile_append_of_pos hspaces, List.dropWhile_append_of_pos hspaces,
    List.cons_append, htake, hdrop, List.append_nil, List.length_replicate, hdepth]
  cases note with
  | true =>
    have hlast : (c :: (cs ++ [PATH_DELIMITER])).getLast? = some PATH_DELIMITER :=
      List.getLast?_concat (l := c :: cs)
    have hinit : (c :: (cs ++ [PATH_DELIMITER])).dropLast = c :: cs :=
      show ((c :: cs) ++ [PATH_DELIMITER]).dropLast = _ from List.dropLast_concat
    simp only [if_true, hlast, hinit]
    rfl
  | false =>
    have hlast : (c :: cs).getLast? ≠ some PATH_DELIMITER :=
      fun hlast => hok.no_delimiter (List.mem_of_getLast? hlast)
    simp only [Bool.false_eq_true, if_false, List.append_nil, hlast]
    rfl

/-- A printed listing is read back. -/
theorem readTree_treeText {es : List (Outlined (List Byte) Bool)} (hnested : Outlined.Nested [] es)
    (hok : ∀ e ∈ es, NameAcceptable e.label) (hlegible : ∀ e ∈ es, Legible e.label) :
    readTree (treeText es) = es := by
  -- No name contains a line break, so the lines are those that were printed.
  have hlines : textLines NEW_LINE (treeText es) = es.map treeLine := by
    have htext : treeText es = (es.map treeLine).flatMap fun line => line ++ [NEW_LINE] := by
      rw [List.flatMap_map]
      rfl
    rw [htext]
    apply textLines_flatMap
    intro line hline
    obtain ⟨e, he, rfl⟩ := List.mem_map.mp hline
    have hspace : NEW_LINE ≠ SPACE := by decide
    have hdelimiter : NEW_LINE ≠ PATH_DELIMITER := by decide
    have hlabel := (hlegible e he).1
    unfold treeLine
    cases e.note with
    | true => simp [hspace, hdelimiter, hlabel]
    | false => simp [hspace, hlabel]
  have hread : (es.map treeLine).map readTreeLine = es.map Outlined.line := by
    rw [List.map_map]
    exact List.map_congr_left fun e he => readTreeLine_treeLine (hok e he) (hlegible e he)
  unfold readTree
  rw [hlines, hread, Outlined.read_lines hnested]

/-! ## Section 4: The command -/

/-- The folder at `l` is the one to print: the current one, or the one at the path. -/
def FileSystem.PrintsTreeAt (σ : FileSystem) (cmd : Command) (l : List (List Byte)) : Prop :=
  match cmd.args.head? with
  | none => σ.cwd = some l
  | some path => σ.target path = some l ∧ σ.tree.item l = some .folder

/-- The folder whose tree is printed. -/
theorem Abstracts.tree_folder (h : Abstracts cli.workspace σ)
    (hws : WorkspaceSound cli.workspace) (hat : σ.PrintsTreeAt cmd l) :
    ∃ r, listedFolder cli.workspace cmd.args.head? = some r ∧
      cli.workspace.entry_store.PathTo (.folder r) l := by
  unfold FileSystem.PrintsTreeAt at hat
  cases hargs : cmd.args.head? with
  | none =>
    rw [hargs] at hat
    exact ⟨_, rfl, h.cwd_path l hat⟩
  | some path =>
    rw [hargs] at hat
    obtain ⟨r, hr⟩ := h.folder_of_item hws.sound.tree hat.2
    exact ⟨r, folderAtPath_eq_some.mpr (h.resolves hws hat.1 hr), hr⟩

/-- The command prints what `print_folder` yields. -/
theorem cmd_tree_exec_run {text : List Byte} (hopts : cmd.opts = []) (hargs : cmd.args.length ≤ 1)
    (hr : listedFolder cli.workspace cmd.args.head? = some r)
    (hprint : print_folder cli.workspace.entry_store r = .ok text) :
    cmd_tree_exec cmd cli = .ok () (cli.printing text) := by
  have hnot : ¬ cmd.args.length > 1 := Nat.not_lt.mpr hargs
  unfold cmd_tree_exec
  cases hhead : cmd.args.head? with
  | none =>
    rw [hhead] at hr
    cases hr
    simp [hopts, hnot, hprint, printf, Cli.printing]
  | some path =>
    rw [hhead] at hr
    have hres := folderAtPath_eq_some.mp hr
    simp [hopts, hnot, hres, hprint, printf, Cli.printing]

/-- **What `tree` prints can be read back.** If no folder is too deep for it and all names
    are legible, the lines behind the first one are each entry below the folder, once. -/
theorem tree_reads_back (h : cliSystem.Reachable cli) (hσ : Abstracts cli.workspace σ)
    (hfunc : cmd.func = .CMD_TREE) (hopts : cmd.opts = []) (hargs : cmd.args.length ≤ 1)
    (hat : σ.PrintsTreeAt cmd l)
    (hshallow : ∀ k, σ.tree.item (l ++ k) = some .folder → k.length ≤ MAX_FOLDER_DEPTH)
    (hlegible : ∀ k x, (σ.tree.item (l ++ k ++ [x])).isSome → Legible x) :
    ∃ r text, cli.workspace.entry_store.PathTo (.folder r) l ∧
      command_dispatch cmd OUTPUT_BUFFER_SIZE cli = .ok () (cli.printing
        (cli.workspace.entry_store.nameOf (.folder r) ++ ascii "/\n" ++ text)) ∧
      (readTree text).Nodup ∧
      ∀ k x b, ⟨k, x, b⟩ ∈ readTree text ↔
        ∃ v, σ.tree.item (l ++ k ++ [x]) = some v ∧ v.isFolder = b := by
  have hws := workspaceSystem_sound (workspace_of_session h)
  have ht := hws.sound.tree
  obtain ⟨r, hr, hl⟩ := hσ.tree_folder hws hat
  have hlive := live_of_path_folder hl
  have hfits : cli.workspace.entry_store.fits (MAX_FOLDER_DEPTH + 1) r := by
    intro d k hk
    exact Nat.lt_succ_of_le (hshallow k (hσ.item_folder ht (hl.trans hk)))
  have hprint := print_folder_outline (k := []) ht hlive hfits rfl
  -- the lines stand for what is below the folder
  have hlisted : ∀ k x b, (⟨k, x, b⟩ : Outlined (List Byte) Bool) ∈
      cli.workspace.entry_store.outline (MAX_FOLDER_DEPTH + 1) r [] ↔
        ∃ v, σ.tree.item (l ++ k ++ [x]) = some v ∧ v.isFolder = b := by
    intro k x b
    rw [mem_outline_iff ht hlive hfits, hσ.item_eq, List.append_assoc]
    constructor
    · rintro ⟨n, s, hs, -, hpath, rfl⟩
      have hs' : k ++ [x] = s := hpath
      subst hs'
      refine ⟨_, view_of_path ht (hl.trans hs), ?_⟩
      cases n with
      | file f => rfl
      | folder d => rfl
    · rintro ⟨v, hv, rfl⟩
      obtain ⟨n, hn, rfl⟩ := (view_eq_some_iff ht).mp hv
      refine ⟨n, k ++ [x], ht.wellFormed.below_of_prefix hl hn, by simp, rfl, ?_⟩
      cases n with
      | file f => rfl
      | folder d => rfl
  have hread : readTree (treeText (cli.workspace.entry_store.outline (MAX_FOLDER_DEPTH + 1) r [])) =
      cli.workspace.entry_store.outline (MAX_FOLDER_DEPTH + 1) r [] := by
    apply readTree_treeText (outline_nested _ _ _ _)
    · rintro ⟨k, x, b⟩ he
      obtain ⟨n, s, hs, -, hpath, -⟩ := (mem_outline_iff ht hlive hfits).mp he
      have hs' : k ++ [x] = s := hpath
      subst hs'
      obtain ⟨q, hT, -⟩ := hs.snoc_inv
      obtain ⟨hn, -, -, -, hx⟩ := tree_eq_some.mp hT
      show NameAcceptable x
      rw [hx]
      exact ht.names_acceptable n hn
    · rintro ⟨k, x, b⟩ he
      obtain ⟨v, hv, -⟩ := (hlisted k x b).mp he
      exact hlegible k x (by rw [hv]; rfl)
  refine ⟨r, treeText (cli.workspace.entry_store.outline (MAX_FOLDER_DEPTH + 1) r []), hl, ?_, ?_⟩
  · have hdispatch : command_dispatch cmd OUTPUT_BUFFER_SIZE cli = cmd_tree_exec cmd cli := by
      unfold command_dispatch
      rw [hfunc]
      rfl
    rw [hdispatch]
    exact cmd_tree_exec_run hopts hargs hr hprint
  · rw [hread]
    exact ⟨outline_nodup ht hlive, hlisted⟩

/-- A root that holds the folder d and the file f: the printed outline is read back as exactly
    these two entries. -/
theorem tree_reads_back_run :
    ∃ cli, runSession [] [.withArg .CMD_MKDIR (.ofBytes (ascii "d")),
        .withArg .CMD_TOUCH (.ofBytes (ascii "f"))] = some cli ∧
      ∃ σ text, Abstracts cli.workspace σ ∧
        command_dispatch (.withArg .CMD_TREE (.ofBytes (ascii "/"))) OUTPUT_BUFFER_SIZE cli =
          .ok () (cli.printing (ascii "root" ++ ascii "/\n" ++ text)) ∧
        ∀ k x b, ⟨k, x, b⟩ ∈ readTree text ↔
          ∃ v, σ.tree.item (k ++ [x]) = some v ∧ v.isFolder = b := by
  refine exists_of_run
    (Q := fun cli =>
      cli.workspace.entry_store.children .root = [.file 0, .folder (.slot 0)] ∧
      cli.workspace.entry_store.children (.slot 0) = [] ∧
      (∀ e ∈ cli.workspace.entry_store.outline 2 .root [], Legible e.label) ∧
      cli.workspace.entry_store.nameOf (.folder .root) = ascii "root")
    (by decide +kernel) fun cli hrun hfacts => ?_
  obtain ⟨hchildren, hempty, hlegible, hname⟩ := hfacts
  have hsession := session_of_runSession hrun
  have hws := workspaceSystem_sound (workspace_of_session hsession)
  have ht := hws.sound.tree
  obtain ⟨σ, hσ⟩ := exists_abstracts hws
  have hroot : cli.workspace.entry_store.PathTo (.folder .root) [] := PathFrom.nil
  have hlive := live_of_path_folder hroot
  have hfits : cli.workspace.entry_store.fits 2 .root := by
    apply (ht.fits_succ_iff hlive).mpr
    intro d hd
    apply (ht.fits_succ_iff (ht.children_committed .root hlive _ hd).1.live).mpr
    intro c hc
    obtain rfl : d = .slot 0 := by simpa [hchildren] using hd
    simp [hempty] at hc
  have hat : σ.PrintsTreeAt (.withArg .CMD_TREE (.ofBytes (ascii "/"))) [] :=
    ⟨rfl, hσ.item_folder ht hroot⟩
  have hargs : (Command.withArg .CMD_TREE (.ofBytes (ascii "/"))).args.length ≤ 1 := Nat.le_refl 1
  obtain ⟨r, text, hr, hrun', -, hread⟩ := tree_reads_back hsession hσ rfl rfl hargs hat
    (by
      intro k hk
      rw [hσ.item_eq] at hk
      obtain ⟨d, hd⟩ := (view_folder_iff ht).mp hk
      exact (hfits d _ hd).le.trans (by decide))
    (by
      intro k x hx
      rw [hσ.item_eq, List.nil_append] at hx
      obtain ⟨n, hn⟩ := (view_isSome_iff ht).mp hx
      exact hlegible ⟨k, x, n.isFolder⟩
        ((mem_outline_iff ht hlive hfits).mpr ⟨n, k ++ [x], hn, by simp, rfl, rfl⟩))
  obtain rfl : r = .root := by
    rcases hr.cases_head with ⟨heq, -⟩ | ⟨_, _, _, _, _, heq⟩
    · exact VFSNode.folder.inj heq
    · cases heq
  rw [hname] at hrun'
  exact ⟨σ, text, hσ, hrun', hread⟩

end VirtualFS
