import VirtualFS.Paths.RoundTrip
import VirtualFS.Store.Views
import VirtualFS.Workspace.Specification

/-! # The Specified File System in a Workspace

    A workspace stands for the file system that its paths show. Path strings
    mean the same in both, and each kind of change of the store is the change
    of the specification.

    * `Abstracts`: a workspace and the file system that its paths show.
    * `Abstracts.resolve_iff`: a path leads to a node in the one if it leads to its
      item in the other.
    * `creates`, `relocates`, `writes`, `removes`: what the store does to its tree
      is what the specification asks for.
    * `Typeable`: paths that can be given to a command.
-/

namespace VirtualFS

open Framework Prog Outcome ParentMap VFSEntryStore

variable {ws : Workspace} {s' : VFS} {σ σ' : FileSystem} {n m : VFSNode} {f : FileRef}
  {p r : FolderRef} {l k j : List (List Byte)} {x : List Byte} {path : CString}
  {P : VFSNode → Prop}

/-! ## Section 1: The relation -/

/-- The file system that a workspace stands for. -/
structure Abstracts (ws : Workspace) (σ : FileSystem) : Prop where
  /-- The tree shows what is at each path. -/
  item_eq : σ.tree.item = ws.view
  /-- The current folder is at the path that the state names. -/
  cwd_path : ∀ l, σ.cwd = some l → ws.entry_store.PathTo (.folder ws.cur_folder) l
  /-- Without such a path the current folder has been removed. -/
  cwd_none : σ.cwd = none → ¬ ws.entry_store.live ws.cur_folder

/-- Every workspace in order shows a file system. -/
theorem exists_abstracts (h : WorkspaceSound ws) : ∃ σ, Abstracts ws σ := by
  have ht := h.sound.tree
  obtain ⟨t, ht'⟩ := exists_fileTree ht
  by_cases hlive : ws.entry_store.live ws.cur_folder
  · obtain ⟨l, hl⟩ := ht.exists_path hlive
    have hfolder : ∀ k, some l = some k → t.item k = some .folder := by
      intro k hk
      rw [← Option.some.inj hk, ht']
      exact view_of_path ht hl
    refine ⟨⟨t, some l, hfolder⟩, ht', ?_, fun hnone => absurd hnone (Option.some_ne_none l)⟩
    intro k hk
    rw [← Option.some.inj hk]
    exact hl
  · have hno : ∀ {k : List (List Byte)} {C : Prop}, none = some k → C :=
      fun hk => absurd hk.symm (Option.some_ne_none _)
    exact ⟨⟨t, none, fun _ hk => hno hk⟩, ht', fun _ hk => hno hk, fun _ => hlive⟩

namespace Abstracts

/-- A live current folder is shown by its path. -/
theorem cwd_eq_some (h : Abstracts ws σ) (hl : ws.entry_store.PathTo (.folder ws.cur_folder) l) :
    σ.cwd = some l := by
  cases hcwd : σ.cwd with
  | none => exact absurd (live_of_path_folder hl) (h.cwd_none hcwd)
  | some k => rw [(h.cwd_path k hcwd).unique tree_root hl]

/-- A removed current folder has no path. -/
theorem cwd_eq_none (h : Abstracts ws σ) (hdead : ¬ ws.entry_store.live ws.cur_folder) :
    σ.cwd = none := by
  cases hcwd : σ.cwd with
  | none => rfl
  | some k => exact absurd (live_of_path_folder (h.cwd_path k hcwd)) hdead

/-- A workspace stands for one file system. -/
theorem unique (h : Abstracts ws σ) (h' : Abstracts ws σ') : σ' = σ := by
  apply FileSystem.ext
  · apply FileTree.ext
    rw [h.item_eq, h'.item_eq]
  · cases hcwd : σ.cwd with
    | none => exact h'.cwd_eq_none (h.cwd_none hcwd)
    | some l => exact h'.cwd_eq_some (h.cwd_path l hcwd)

/-- Folders are shown as folders. -/
theorem item_folder (h : Abstracts ws σ) (ht : FolderTree ws.entry_store)
    (hl : ws.entry_store.PathTo (.folder r) l) : σ.tree.item l = some .folder := by
  rw [h.item_eq]
  exact view_of_path ht hl

/-- Files are shown with their content. -/
theorem item_file (h : Abstracts ws σ) (ht : FolderTree ws.entry_store)
    (hl : ws.entry_store.PathTo (.file f) l) :
    σ.tree.item l = some (.file (ws.content f)) := by
  rw [h.item_eq]
  exact view_of_path ht hl

end Abstracts

/-! ## Section 2: Path strings -/

/-- The parser of the code and the names of the specification agree. -/
theorem parse_path_ok_iff {path : List Byte} (hpath : path ≠ []) {names : List (List Byte)} :
    parse_path path MAX_NAME_LENGTH MAX_PATH_NODES_AMOUNT = (.SUCCESS, names) ↔
      pathNames path = some names := by
  have hlimits : ¬ (MAX_NAME_LENGTH = 0 ∨ MAX_PATH_NODES_AMOUNT = 0) := by decide
  have hlen : ¬ path.length = 0 := fun h => hpath (List.length_eq_zero_iff.mp h)
  have hleft : componentsLeft path = pathComponents path := if_neg hpath
  obtain ⟨hiff, hnames, -⟩ := parse_path_loop_splits MAX_NAME_LENGTH MAX_PATH_NODES_AMOUNT path
  rw [hleft] at hiff hnames
  unfold parse_path pathNames
  rw [if_neg hlimits, if_neg hlen]
  -- The path splits into components that fit, or it is refused.
  by_cases hfit : ComponentsFit MAX_NAME_LENGTH MAX_PATH_NODES_AMOUNT (pathComponents path)
  · have hok := hiff.mpr hfit
    have hrun : parse_path_loop MAX_NAME_LENGTH MAX_PATH_NODES_AMOUNT path =
        (.SUCCESS, pathComponents path) := Prod.ext hok (hnames hok)
    rw [if_pos (show _ ∧ _ from hfit), hrun, Prod.mk.injEq, Option.some.injEq]
    exact and_iff_right rfl
  · rw [if_neg (show ¬ (_ ∧ _) from hfit)]
    constructor
    · intro h
      exact absurd (hiff.mp (congrArg Prod.fst h)) hfit
    · intro h
      cases h

/-- **Path strings** resolve to what the target path leads to. -/
theorem Abstracts.resolve_iff (h : Abstracts ws σ) (hws : WorkspaceSound ws) :
    ws_resolve_path ws path = .ok n ↔
      ∃ l, σ.target path = some l ∧ ws.entry_store.PathTo n l := by
  have ht := hws.sound.tree
  have hroot : ∀ {l}, l = [] → (ws.entry_store.PathTo n l ↔ .folder .root = n) := by
    rintro l rfl
    constructor
    · intro hn
      exact ht.wellFormed.path_inj PathFrom.nil hn
    · rintro rfl
      exact PathFrom.nil
  unfold FileSystem.target
  cases hpath : path.chars with
  | nil =>
    have hres : ws_resolve_path ws path = .ok (.folder .root) := by
      unfold ws_resolve_path
      rw [hpath]
    simp only [hres, Except.ok.injEq, Option.some.injEq, exists_eq_left', (hroot rfl)]
  | cons c rest =>
    have hnul : (0 : Byte) ∉ c :: rest := hpath ▸ path.nul_free
    by_cases hc : c = PATH_DELIMITER
    · subst hc
      by_cases hrest : rest = []
      · have hres : ws_resolve_path ws path = .ok (.folder .root) := by
          unfold ws_resolve_path
          rw [hpath, hrest]
          rfl
        simp only [hres, hrest, if_true, Except.ok.injEq, Option.some.injEq, exists_eq_left',
          (hroot rfl)]
      · have hnul' : (0 : Byte) ∉ rest := fun h0 => hnul (List.mem_cons_of_mem _ h0)
        rw [ws_resolve_path_absolute hpath hrest, ht.resolve_path_ok_iff live_root hnul']
        simp only [if_true, if_neg hrest, parse_path_ok_iff hrest]
        rfl
    · rw [ws_resolve_path_relative hpath hc, hpath]
      simp only [if_neg hc]
      cases hcwd : σ.cwd with
      | none =>
        -- the current folder has been removed, nothing is found in it
        have hvac := hws.cur.resolve_left (h.cwd_none hcwd)
        constructor
        · exact fun hok => absurd hok (resolve_path_flat hvac.children_eq hnul)
        · rintro ⟨l, hl, -⟩
          cases hl
      | some lc =>
        have hlc := h.cwd_path lc hcwd
        rw [ht.resolve_path_ok_iff (live_of_path_folder hlc) hnul]
        simp only [parse_path_ok_iff (List.cons_ne_nil c rest), Option.bind_some]
        constructor
        · rintro ⟨names, hnames, hn⟩
          exact ⟨lc ++ names, by rw [hnames]; rfl, hlc.trans hn⟩
        · rintro ⟨l, hl, hn⟩
          obtain ⟨names, hnames, rfl⟩ := Option.map_eq_some_iff.mp hl
          exact ⟨names, hnames, ht.wellFormed.below_of_prefix hlc hn⟩

/-! ### Printed paths as arguments -/

/-- The limits of `parse_path`: these paths are short enough for it. -/
structure Parseable (l : List (List Byte)) : Prop where
  /-- At most as many names as `parse_path` has rows. -/
  length_le : l.length ≤ MAX_PATH_NODES_AMOUNT
  /-- Each name fits in its row with the terminator. -/
  short : ∀ x ∈ l, x.length < MAX_NAME_LENGTH

/-- Paths that can be printed and parsed. -/
structure Typeable (l : List (List Byte)) : Prop extends Parseable l where
  acceptable : ∀ x ∈ l, NameAcceptable x

theorem Typeable.nil_not_mem (h : Typeable l) : [] ∉ l :=
  fun hmem => (h.acceptable _ hmem).not_empty rfl

/-- The printed path. -/
def Typeable.printed (h : Typeable l) : CString where
  chars := pathString l
  nul_free := by
    unfold pathString
    split
    · decide
    · exact nul_not_mem_absolutePath h.acceptable

theorem pathNames_relativePath (h : Typeable l) (hne : l ≠ []) :
    pathNames (relativePath l) = some l := by
  have hfit : NamesFit MAX_NAME_LENGTH l :=
    fun x hx => ⟨(h.acceptable x hx).no_delimiter, Nat.le_sub_one_of_lt (h.short x hx)⟩
  exact (parse_path_ok_iff (relativePath_ne_nil hne h.acceptable)).mp
    (parse_path_run (by decide) hfit h.nil_not_mem hne h.length_le)

/-- A printed path leads to what it was printed for. -/
theorem target_of_printed (h : Typeable l) (hpath : path.chars = pathString l) :
    σ.target path = some l := by
  unfold FileSystem.target
  rw [hpath]
  by_cases hnil : l = []
  · subst hnil
    rfl
  · rw [pathString, if_neg hnil, absolutePath_of_ne_nil hnil]
    show (if PATH_DELIMITER = PATH_DELIMITER then
      if relativePath l = [] then some [] else pathNames (relativePath l) else _) = _
    rw [if_pos rfl, if_neg (relativePath_ne_nil hnil h.acceptable)]
    exact pathNames_relativePath h hnil

/-- The name of an entry of the current folder is a path of it. -/
theorem target_of_name (hcwd : σ.cwd = some l) (hx : NameAcceptable path.chars)
    (hshort : path.chars.length < MAX_NAME_LENGTH) :
    σ.target path = some (l ++ [path.chars]) := by
  have htyped : Typeable [path.chars] := by
    constructor
    · constructor
      · exact Nat.succ_le_of_lt (by decide)
      · exact fun x hx => by rw [List.mem_singleton.mp hx]; exact hshort
    · exact fun y hy => by rw [List.mem_singleton.mp hy]; exact hx
  have hnames := pathNames_relativePath htyped (List.cons_ne_nil _ _)
  have hrelative : relativePath [path.chars] = path.chars := List.append_nil _
  rw [hrelative] at hnames
  unfold FileSystem.target
  split
  · next hnil => exact absurd hnil hx.not_empty
  · next c rest hchars =>
    have hc : c ≠ PATH_DELIMITER := by
      rintro rfl
      exact hx.no_delimiter (by rw [hchars]; exact List.mem_cons_self ..)
    rw [if_neg hc, ← hchars, hnames, hcwd]
    rfl

/-! ## Section 3: Changes -/

/-- The path of an entry after a move or a rename. -/
theorem Edited.path_reroot {es es' : VFSEntryStore} (h : Edited es es' n p)
    (ht : FolderTree es) (hn : es.committed n) (hk : es.PathTo n k)
    (hl : es.PathTo (.folder p) l) (hm : es.PathTo m j) :
    es'.PathTo m (PathMap.reroot k (l ++ [es'.nameOf n]) j) := by
  obtain ⟨q, hq, hlive, -⟩ := ht.linked n hn
  obtain ⟨kq, hkq⟩ := ht.exists_path hlive
  obtain rfl := (ht.path_unique hn hq hkq).mp hk
  have hrerooted := h.rerooted ht hn hq hkq hl
  by_cases hb : Below es.tree n m
  · obtain ⟨s, rfl, hs⟩ := hrerooted.subtree m j hb hm
    rw [PathMap.reroot_append]
    exact hs
  · rw [PathMap.reroot_other fun hpre => hb ((ht.wellFormed.below_iff_prefix hk hm).mpr hpre)]
    exact hrerooted.others m j hb hm

/-- A new entry is on no path of another one. -/
theorem Edited.path_insert {es es' : VFSEntryStore} (h : Edited es es' n p)
    (ht : FolderTree es) (hfree : ¬ es.committed n) (hm : es.PathTo m j) : es'.PathTo m j := by
  show PathFrom es'.tree _ _ _
  rw [h.tree_eq]
  apply hm.update_of_not_below
  intro hb
  have hmn := ht.wellFormed.below_of_not_mem (tree_of_not_committed hfree) h.ne_root hb
  subst hmn
  exact hfree ((present_of_path hm).resolve_left h.ne_root)

namespace Abstracts

variable (h : Abstracts ws σ) (h' : Abstracts { ws with toVFS := s' } σ')
include h h'

theorem unchanged_cwd
    (hpaths : ∀ j, ws.entry_store.PathTo (.folder ws.cur_folder) j →
      s'.entry_store.PathTo (.folder ws.cur_folder) j)
    (hlive : s'.entry_store.live ws.cur_folder → ws.entry_store.live ws.cur_folder) :
    σ'.cwd = σ.cwd := by
  cases hcwd : σ.cwd with
  | none => exact h'.cwd_eq_none fun hl => h.cwd_none hcwd (hlive hl)
  | some j => exact h'.cwd_eq_some (hpaths j (h.cwd_path j hcwd))

variable (hws : WorkspaceSound ws)
include hws

/-- Nothing to be seen has happened. -/
theorem same (hsame : SameStore ws.entry_store s'.entry_store)
    (hm : s'.storage_man = ws.storage_man) : σ' = σ := by
  apply FileSystem.ext
  · apply FileTree.ext
    rw [h.item_eq, h'.item_eq]
    exact hsame.view_eq hws.sound.tree hm
  · apply h.unchanged_cwd h'
    · intro j hj
      show PathFrom s'.entry_store.tree _ _ _
      rw [hsame.same.tree_eq]
      exact hj
    · exact hsame.same.live_iff.mp

/-- An entry has been created in the current folder. -/
theorem creates {v : Item (List Byte)}
    (hedit : Edited ws.entry_store s'.entry_store n ws.cur_folder)
    (hm : s'.storage_man = ws.storage_man) (hfree : ¬ ws.entry_store.committed n)
    (hname : s'.entry_store.nameOf n = x) (hnew : ws.entry_store.NameIsNew ws.cur_folder x)
    (hv : s'.itemOf n = v) : ∃ l, σ.cwd = some l ∧ σ.Creates l x v σ' := by
  have ht := hws.sound.tree
  obtain ⟨l, hl⟩ := ht.exists_path hedit.parent_live
  subst hname hv
  refine ⟨l, h.cwd_eq_some hl, hedit.name_acceptable, ?_, ?_⟩
  · rw [FileTree.create_eq_some, h.item_eq, h'.item_eq]
    refine ⟨view_of_path ht hl, ?_, hedit.view_insert ht hm hfree hnew hl⟩
    rw [← Option.not_isSome_iff_eq_none, view_isSome_iff ht]
    rintro ⟨m, hmp⟩
    exact ht.wellFormed.no_step hl (nameIsNew_fresh ht hedit.parent_live hnew) hmp
  · apply h.unchanged_cwd h'
    · exact fun j hj => hedit.path_insert ht hfree hj
    · exact fun _ => hedit.parent_live

/-- An entry has been moved or renamed. -/
theorem relocates (hedit : Edited ws.entry_store s'.entry_store n p)
    (hm : s'.storage_man = ws.storage_man) (hn : ws.entry_store.committed n)
    (hname : s'.entry_store.nameOf n = x) (hnew : ws.entry_store.NameIsNew p x)
    (hk : ws.entry_store.PathTo n k) (hl : ws.entry_store.PathTo (.folder p) l) :
    σ.Relocates k l x σ' := by
  have ht := hws.sound.tree
  subst hname
  refine ⟨hedit.name_acceptable, ?_, ?_⟩
  · rw [FileTree.relocate_eq_some, h.item_eq, h'.item_eq]
    refine ⟨⟨?_, ?_⟩, ?_, view_of_path ht hl, ?_, hedit.view_rebase ht hm hn hnew hk hl⟩
    · rintro rfl
      exact hn.ne_root (ht.wellFormed.path_inj hk PathFrom.nil)
    · rw [view_of_path ht hk]
      rfl
    · exact fun hpre => hedit.no_cycle ((ht.wellFormed.below_iff_prefix hk hl).mpr hpre)
    · rw [← Option.not_isSome_iff_eq_none, view_isSome_iff ht]
      rintro ⟨m, hmp⟩
      exact ht.wellFormed.no_step hl (nameIsNew_fresh ht hedit.parent_live hnew) hmp
  · -- the current folder goes along if it is below the node
    cases hcwd : σ.cwd with
    | none =>
      apply h'.cwd_eq_none
      intro hlive
      rcases hlive with hroot | hc
      · exact h.cwd_none hcwd (Or.inl hroot)
      · rcases (hedit.put.committed_iff _).mp hc with hc | rfl
        · exact h.cwd_none hcwd hc.live
        · exact h.cwd_none hcwd hn.live
    | some j =>
      exact h'.cwd_eq_some (hedit.path_reroot ht hn hk hl (h.cwd_path j hcwd))

/-- The data of a file has been changed. -/
theorem writes (heffect : FileEffect ws.toVFS s' f) (hf : ws.entry_store.committed (.file f))
    (hl : ws.entry_store.PathTo (.file f) l) : σ.Writes l (s'.content f) σ' := by
  have ht := hws.sound.tree
  have htree := heffect.sameTree.tree_eq
  constructor
  · rw [FileTree.write_eq_some, h.item_eq, h'.item_eq]
    exact ⟨⟨_, view_of_path ht hl⟩, heffect.view_write hws.sound hf hl⟩
  · apply h.unchanged_cwd h'
    · intro j hj
      show PathFrom s'.entry_store.tree _ _ _
      rw [htree]
      exact hj
    · exact heffect.sameTree.live_iff.mp

/-- What is left of the path of the current folder. -/
theorem cwd_filter (hprunes : Prunes P ws.toVFS s') :
    σ'.cwd = σ.cwd.filter fun k => (σ'.tree.item k).isSome := by
  have ht := hws.sound.tree
  have ht' := (hprunes.sound hws.sound).tree
  cases hcwd : σ.cwd with
  | none => exact h'.cwd_eq_none fun hl => h.cwd_none hcwd (hprunes.live_of hl)
  | some j =>
    have hj := h.cwd_path j hcwd
    -- The current folder is removed or keeps its path; it is not put anywhere else.
    by_cases hlive : s'.entry_store.live ws.cur_folder
    · obtain ⟨j', hj'⟩ := ht'.exists_path hlive
      obtain rfl := (hprunes.pathFrom_of hj').unique ht.wellFormed.root_free hj
      rw [h'.cwd_eq_some hj', Option.filter_some_pos]
      rw [h'.item_eq]
      exact (view_isSome_iff ht').mpr ⟨_, hj'⟩
    · rw [h'.cwd_eq_none hlive, Option.filter_some_neg]
      rw [h'.item_eq, ← Bool.not_eq_true]
      intro hsome
      obtain ⟨m, hmj⟩ := (view_isSome_iff ht').mp hsome
      obtain rfl := ht.wellFormed.path_inj (hprunes.pathFrom_of hmj) hj
      exact hlive (live_of_path_folder hmj)

/-- An entry has been removed with all that was below it. -/
theorem removes (hprunes : PrunesAll P ws.toVFS s') (hl : ws.entry_store.PathTo n l)
    (hP : ∀ m, P m ↔ Below ws.entry_store.tree n m) (hroot : n ≠ .folder .root) :
    σ.Removes l σ' := by
  have ht := hws.sound.tree
  -- the items below the node are gone, all others are as they were
  have hitem : σ'.tree.item = σ.tree.item.prune (l <+: ·) := by
    rw [h.item_eq, h'.item_eq]
    exact hprunes.view_prune hws.sound hl hP hroot
  constructor
  · rw [FileTree.remove_eq_some]
    refine ⟨?_, ?_, hitem⟩
    · rintro rfl
      exact hroot (ht.wellFormed.path_inj hl PathFrom.nil)
    · rw [h.item_eq, view_of_path ht hl]
      rfl
  · rw [h.cwd_filter h' hws hprunes.prunes]
    cases hcwd : σ.cwd with
    | none => rfl
    | some j =>
      have hsome := σ.cwd_folder j hcwd
      simp only [Option.filter_some, hitem, PathMap.prune]
      by_cases hpre : l <+: j
      · simp [hpre]
      · simp [hpre, hsome]

/-- Entries below another one have been removed. -/
theorem prunedBelow (hprunes : Prunes P ws.toVFS s') (hl : ws.entry_store.PathTo n l)
    (hP : ∀ m, P m → Below ws.entry_store.tree n m ∧ m ≠ n) :
    σ.tree.PrunedBelow σ'.tree l ∧
      σ'.cwd = σ.cwd.filter fun k => (σ'.tree.item k).isSome := by
  refine ⟨?_, h.cwd_filter h' hws hprunes⟩
  intro k
  rw [h.item_eq, h'.item_eq]
  exact hprunes.view_below hws.sound hl hP k

end Abstracts

end VirtualFS
