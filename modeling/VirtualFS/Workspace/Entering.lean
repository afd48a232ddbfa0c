import VirtualFS.Workspace.Depth

/-! # Entering New Folders

    Names are validated when a folder is created and parsed when it is
    entered. The two do not accept the same names: a name of the maximal
    length does not fit in a row of the parser, and `".."` leads to the
    parent. Every other new folder can be entered by its name.

    * `Enterable`: the name resolves to the folder, and entering it gets there.
    * `new_folder_enterable_iff`: the names for which a new folder is enterable.
    * `new_folder_not_enterable`: the two kinds that are accepted and are not.
-/

namespace VirtualFS

open Framework Prog Outcome ParentMap VFSEntryStore

variable {ws ws' : Workspace} {m : VFSNode} {r d : FolderRef} {name path : CString}
  {names : List (List Byte)}

/-! ## Section 1: Names as paths -/

/-- A path without delimiters is the name it is parsed to. -/
theorem names_of_parse_name {text : List Byte} {k rows : Nat} (hdelim : PATH_DELIMITER ∉ text)
    (h : parse_path text k rows = (.SUCCESS, names)) : names = [text] ∧ text.length ≤ k - 1 := by
  obtain ⟨hfit, _, hne, hprinted⟩ := parse_path_success h
  cases names with
  | nil => exact absurd rfl hne
  | cons first rest =>
    have hlen := (hfit first (List.mem_cons_self ..)).2
    rcases hprinted with htext | htext
    · cases rest with
      | nil =>
        have htext' : text = first := by simpa [relativePath] using htext
        rw [htext']
        exact ⟨rfl, hlen⟩
      | cons second rest =>
        exact absurd (by simp [htext, relativePath]) hdelim
    · exact absurd (by simp [htext]) hdelim

/-- **Names as paths**: the child of that name, unless the name fills the row. -/
theorem ws_resolve_name_iff (ht : FolderTree ws.entry_store)
    (hcur : ws.entry_store.live ws.cur_folder) (hok : NameAcceptable name.chars) :
    ws_resolve_path ws name = .ok m ↔ name.chars.length < MAX_NAME_LENGTH ∧
      ws.entry_store.tree m = some (.folder ws.cur_folder, name.chars) := by
  -- An acceptable name does not start with the delimiter, so the path is relative.
  have hrel : ws_resolve_path ws name =
      resolve_path ws.entry_store name.chars ws.cur_folder := by
    cases hchars : name.chars with
    | nil => exact absurd hchars hok.not_empty
    | cons c rest =>
      have hc : c ≠ PATH_DELIMITER := by
        intro heq
        apply hok.no_delimiter
        rw [hchars, heq]
        exact List.mem_cons_self ..
      rw [ws_resolve_path_relative hchars hc, hchars]
  rw [hrel, ht.resolve_path_ok_iff hcur name.nul_free]
  constructor
  · intro ⟨names, hparse, hpath⟩
    obtain ⟨hnames, hlen⟩ := names_of_parse_name hok.no_delimiter hparse
    subst hnames
    exact ⟨Nat.lt_of_le_of_lt hlen (by decide), pathFrom_singleton.mp hpath⟩
  · intro ⟨hlen, htree⟩
    refine ⟨[name.chars], ?_, pathFrom_singleton.mpr htree⟩
    have hfit : NamesFit MAX_NAME_LENGTH [name.chars] := by
      intro x hx
      rw [List.mem_singleton.mp hx]
      exact ⟨hok.no_delimiter, by omega⟩
    have hempty : [] ∉ [name.chars] := fun h => hok.not_empty (List.mem_singleton.mp h).symm
    have hrows : [name.chars].length ≤ MAX_PATH_NODES_AMOUNT := by
      rw [List.length_singleton]
      decide
    have hparse := parse_path_run (by decide) hfit hempty (List.cons_ne_nil _ _) hrows
    simpa [relativePath] using hparse

/-! ## Section 2: Creating and entering -/

/-- What a successful `ws_create_folder` does. -/
theorem ws_create_folder_ok (hws : WorkspaceSound ws)
    (hrun : ws_create_folder name ws = .ok () ws') :
    ∃ d es', ws' = { ws with entry_store := es' } ∧ ¬ ws.entry_store.live d ∧
      Edited ws.entry_store es' (.folder d) ws.cur_folder ∧
      es'.nameOf (.folder d) = name.chars := by
  have hsat := vfs_sub_folder_init_sat hws.sound.tree name.chars ws.cur_folder
  simp only [ws_create_folder, onSystem, onEntryStore, bind_run, readState_run, bind_ok,
    zoom_run] at hrun
  rcases hsat.ok_or_fail with ⟨d, es', hinit, _, hdead, hedit, hname, _⟩ | ⟨e, es', hinit, _⟩
  · rw [hinit] at hrun
    cases hrun
    exact ⟨d, es', rfl, hdead, hedit, hname⟩
  · rw [hinit] at hrun
    cases hrun

/-- The name resolves to `d`, and changing to it makes `d` the current folder. -/
def Enterable (ws : Workspace) (name : CString) (d : FolderRef) : Prop :=
  ws_resolve_path ws name = .ok (.folder d) ∧
    ∃ ws', ws_change_cur_folder name ws = .ok () ws' ∧ ws'.cur_folder = d

/-- `d` is the folder that has been added to the store. -/
def IsNewFolder (ws ws' : Workspace) (d : FolderRef) : Prop :=
  ¬ ws.entry_store.live d ∧ ws'.entry_store.live d

/-- Going back to the parent does not enter a new folder. -/
theorem not_entered_by_parent_operator {es' : VFSEntryStore} {ws'' : Workspace}
    (hws : WorkspaceSound ws) (hws' : WorkspaceSound { ws with entry_store := es' })
    (hcur : ws.entry_store.live ws.cur_folder) (hdead : ¬ ws.entry_store.live d)
    (hedit : Edited ws.entry_store es' (.folder d) ws.cur_folder)
    (hname : name.chars = BACK_TO_PARENT_OPERATOR)
    (hrun : ws_change_cur_folder name { ws with entry_store := es' } = .ok () ws'') :
    ws''.cur_folder ≠ d := by
  have hsat := ws_change_cur_folder_sat hws' name
  rw [hrun] at hsat
  obtain ⟨r, hto, b, _, hws''⟩ := hsat
  subst hws''
  intro hrd
  have hrd' : r = d := hrd
  subst hrd'
  unfold goesTo at hto
  rw [if_pos hname] at hto
  split at hto
  · cases hto
  · next hroot =>
    rcases hcur with hcur | hcur
    · -- the root has no parent
      apply hroot
      have htree := hws'.sound.tree.root_is_root
      show (es'.folderAt ws.cur_folder).is_root = true
      rw [hcur]
      exact htree
    · have hne : VFSNode.folder ws.cur_folder ≠ .folder r := by
        intro heq
        exact hdead (VFSNode.folder.inj heq ▸ hcur.live)
      have hparent : es'.parentOf (.folder ws.cur_folder) = some r := hto
      rw [hedit.put.parentOf_eq _ hne hcur] at hparent
      exact hdead (hws.sound.tree.parent_live hcur hparent)

/-- **New folders.** In a reachable workspace whose current folder has room below it, the
    new folder can be entered by its name if and only if the name is not `".."` and
    shorter than the maximal length. -/
theorem new_folder_enterable_iff (h : workspaceSystem.Reachable ws)
    (hcur : ws.entry_store.live ws.cur_folder)
    (hdepth : ∀ l, PathFrom ws.entry_store.tree (.folder .root) (.folder ws.cur_folder) l →
      l.length ≤ MAX_PATH_NODES_AMOUNT - 1)
    (hrun : ws_create_folder name ws = .ok () ws') :
    ∃ d, (∀ r, IsNewFolder ws ws' r ↔ r = d) ∧
      (Enterable ws' name d ↔
        name.chars ≠ BACK_TO_PARENT_OPERATOR ∧ name.chars.length < MAX_NAME_LENGTH) := by
  have hws := workspaceSystem_sound h
  obtain ⟨d, es', rfl, hdead, hedit, hname⟩ := ws_create_folder_ok hws hrun
  have ht' : FolderTree es' := hedit.folderTree hws.sound.tree
  have hcur' : es'.live ws.cur_folder := hedit.put.live_of_live hcur
  have hws' : WorkspaceSound { ws with entry_store := es' } := by
    apply workspaceSystem_sound (h.step (.ws_create_folder name) ⟨trivial, ?_⟩)
    show ((ws_create_folder name ws).bind fun _ ws' =>
      (.ok .done ws' : Outcome StatusCode Fault Workspace WsResult)).final = _
    rw [hrun]
    rfl
  have hok : NameAcceptable name.chars := hname ▸ hedit.name_acceptable
  have htree : es'.tree (.folder d) = some (.folder ws.cur_folder, name.chars) := by
    rw [hedit.tree_eq, Function.update_self, hname]
  have hres := ws_resolve_name_iff (m := .folder d) hws'.sound.tree hcur' hok
  refine ⟨d, ?_, ?_⟩
  · intro r
    constructor
    · intro ⟨hr, hr'⟩
      exact (VFSNode.folder.inj (hedit.put.eq_of_not_live hr' hr)).symm
    · intro hr
      subst hr
      exact ⟨hdead, hedit.put.committed_self.live⟩
  · constructor
    · -- `cd ..` enters the parent, and the new folder is not its own parent
      intro ⟨hresolves, ws'', henter, hcur''⟩
      refine ⟨?_, (hres.mp hresolves).1⟩
      intro hback
      exact not_entered_by_parent_operator hws hws' hcur hdead hedit hback henter hcur''
    · intro ⟨hback, hlen⟩
      have hresolves := hres.mpr ⟨hlen, htree⟩
      obtain ⟨l, hl⟩ := hws.sound.tree.exists_path hcur
      have hle := hdepth l hl
      have hl' : PathFrom es'.tree (.folder .root) (.folder d) (l ++ [name.chars]) := by
        apply PathFrom.child htree
        rw [hedit.tree_eq]
        exact hl.update_of_not_below hedit.no_cycle
      have hlen' : (l ++ [name.chars]).length ≤ MAX_PATH_NODES_AMOUNT := by
        rw [List.length_append, List.length_singleton]
        have : 0 < MAX_PATH_NODES_AMOUNT := by decide
        omega
      obtain ⟨b, hb⟩ := ws_change_cur_folder_run ht' hback hresolves hl' hlen'
      exact ⟨hresolves, _, hb, rfl⟩

/-- The folder `b` is created in the folder `a`. -/
theorem new_folder_enterable_iff_run :
    ∃ ws, runWorkspace (fun _ _ => True)
        [.ws_create_folder (.ofBytes [97]), .ws_change_cur_folder (.ofBytes [97])] = some ws ∧
      ∃ ws', ws_create_folder (.ofBytes [98]) ws = .ok () ws' ∧
        ∃ d, (∀ r, IsNewFolder ws ws' r ↔ r = d) ∧
          (Enterable ws' (.ofBytes [98]) d ↔
            (CString.ofBytes [98]).chars ≠ BACK_TO_PARENT_OPERATOR ∧
              (CString.ofBytes [98]).chars.length < MAX_NAME_LENGTH) := by
  refine exists_of_run
    (Q := fun ws => ws.entry_store.live ws.cur_folder ∧
      ws.entry_store.climbs MAX_PATH_NODES_AMOUNT ws.cur_folder = true ∧
      (ws_create_folder (.ofBytes [98]) ws).succeeded = true)
    (by decide +kernel) fun ws hrun hQ => ?_
  obtain ⟨hcur, hclimbs, hok⟩ := hQ
  obtain ⟨_, ws', hcreate⟩ := exists_of_succeeded hok
  refine ⟨ws', hcreate, ?_⟩
  exact new_folder_enterable_iff (reachable_of_runWorkspace hrun) hcur
    (fun l hl => Nat.le_pred_of_lt (length_lt_of_climbs hclimbs hl)) hcreate

/-- In the root folders can be created that cannot be entered: one with the name of the
    parent operator, and one whose name has the maximal length. -/
theorem new_folder_not_enterable :
    ∃ ws, runWorkspace (fun _ _ => True) [] = some ws ∧ workspaceSystem.Reachable ws ∧
      ws.cur_folder = .root ∧
      ∀ name ∈ [CString.ofBytes [46, 46], CString.ofBytes (List.replicate 32 97)],
        ∃ ws', ws_create_folder name ws = .ok () ws' ∧
          ¬ ∃ d, IsNewFolder ws ws' d ∧ Enterable ws' name d := by
  refine exists_of_run
    (Q := fun ws => ws.cur_folder = .root ∧
      ∀ name ∈ [CString.ofBytes [46, 46], CString.ofBytes (List.replicate 32 97)],
        (ws_create_folder name ws).succeeded = true ∧
          (ws_create_folder name ws).final.all
            (fun ws' => !(ws_change_cur_folder name ws').succeeded) = true)
    (by decide +kernel) fun ws hrun hQ => ?_
  obtain ⟨hroot, hnames⟩ := hQ
  refine ⟨reachable_of_runWorkspace hrun, hroot, ?_⟩
  intro name hname
  obtain ⟨hok, hstuck⟩ := hnames name hname
  obtain ⟨_, ws', hcreate⟩ := exists_of_succeeded hok
  refine ⟨ws', hcreate, ?_⟩
  intro ⟨d, _, _, ws'', henter, _⟩
  rw [hcreate] at hstuck
  simp [henter] at hstuck

end VirtualFS
