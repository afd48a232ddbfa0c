import VirtualFS.Workspace.Depth

/-! # The Path of the Current Folder

    `cur_path` is printed when a folder is entered and never refreshed. It
    stays right until the current folder, or a folder above it, is moved or
    renamed; every such move or renaming makes it wrong.

    * `KeepsCurrentPath`: what is moved or renamed is not above the current folder.
    * `current_path_shown`: in runs of such operations the cached path is the path.
    * `current_path_not_shown`: a renamed current folder is shown by its old name.
-/

namespace VirtualFS

open Framework Prog Outcome ParentMap VFSEntryStore

variable {ws ws' : Workspace} {s s' : VFS} {es es' : VFSEntryStore} {op : WsOp} {sop : StoreOp}
  {n m : VFSNode} {p q r : FolderRef} {l : List (List Byte)}

/-! ## Section 1: The condition -/

/-- The operation does not move or rename the current folder or a folder above it. -/
def KeepsCurrentPath (ws : Workspace) (op : WsOp) : Prop :=
  ∀ sop n p, op.request ws = some sop → sop.passes ws.entry_store →
    sop.puts ws.entry_store n p → ¬ Below ws.entry_store.tree n (.folder ws.cur_folder)

/-- The cached path is that of the current folder. -/
def PathIsCurrent (ws : Workspace) : Prop :=
  ∀ l, PathFrom ws.entry_store.tree (.folder .root) (.folder ws.cur_folder) l →
    ws.cur_path.str = pathString l

theorem keepsCurrentPath_of_none (hreq : op.request ws = none) : KeepsCurrentPath ws op := by
  intro sop n p hsop
  rw [hreq] at hsop
  cases hsop

/-- Nothing in the tree is below an entry that is not. -/
theorem FolderTree.not_below_new (ht : FolderTree es) (hn : ¬ es.committed n)
    (hroot : n ≠ .folder .root) (hr : es.live r) : ¬ Below es.tree n (.folder r) := by
  intro hb
  have heq := ht.wellFormed.below_of_not_mem (tree_of_not_committed hn) hroot hb
  rcases hr with hr | hr
  · exact hroot (heq ▸ congrArg _ hr)
  · exact hn (heq ▸ hr)

/-- An operation that puts an entry above a folder puts only that one. -/
theorem StoreOp.puts_unique (ht : FolderTree es) (hr : es.live r) (hn : sop.puts es n p)
    (hm : sop.puts es m q) (hb : Below es.tree m (.folder r)) : n = m := by
  cases sop with
  | vfs_sub_file_init name p' =>
    obtain ⟨⟨f, hf⟩, hfree, _⟩ := hm
    exact absurd hb (ht.not_below_new hfree (by simp [hf]) hr)
  | vfs_sub_folder_init name p' =>
    obtain ⟨⟨i, hi⟩, hfree, _⟩ := hm
    exact absurd hb (ht.not_below_new hfree (by simp [hi]) hr)
  | rename_file f name => rw [hn.1, hm.1]
  | rename_folder d name => rw [hn.1, hm.1]
  | move_file f p' => rw [hn.1, hm.1]
  | move_folder d p' => rw [hn.1, hm.1]
  | _ => exact hn.elim

/-! ## Section 2: Paths after an edit -/

/-- The paths of the subtree of an entry change when the entry is moved or renamed. -/
theorem Edited.path_ne (h : Edited es es' n p) (ht : FolderTree es)
    (hnew : es.NameIsNew p (es'.nameOf n)) {l l' : List (List Byte)}
    (hl : PathFrom es.tree (.folder .root) (.folder r) l)
    (hl' : PathFrom es'.tree (.folder .root) (.folder r) l')
    (hb : Below es.tree n (.folder r)) : l ≠ l' := by
  intro heq
  subst heq
  obtain ⟨lp, hlp⟩ := ht.exists_path h.parent_live
  rw [h.tree_eq] at hl'
  rcases PathFrom.of_update ht.wellFormed h.ne_root hlp h.no_cycle hl' with ⟨hnb, _⟩ | ⟨s, hs, hk⟩
  · exact hnb hb
  · obtain ⟨ln, hln, hsplit⟩ := PathFrom.split tree_root hl hs
    -- the new path of `n` would be the old one
    have hlast : ln = lp ++ [es'.nameOf n] := List.append_cancel_right (hsplit.symm.trans hk)
    subst hlast
    obtain ⟨q, hT, hq⟩ := hln.snoc_inv
    have hqp : q = .folder p := ht.wellFormed.path_inj hq hlp
    subst hqp
    have hmem := (ht.tree_eq_some_iff h.parent_live).mp hT
    exact hnew n hmem.1 hmem.2

/-- A folder that is not live has no path from the root. -/
theorem not_pathFrom_root (hr : ¬ es.live r) :
    ¬ PathFrom es.tree (.folder .root) (.folder r) l := by
  intro hl
  cases hl with
  | nil => exact hr live_root
  | child hT _ => exact hr (tree_eq_some.mp hT).1.live

/-- If the call creates an entry, it does so in this folder. -/
def StoreOp.createsIn (r : FolderRef) : StoreOp → Prop
  | vfs_sub_file_init _ p => p = r
  | vfs_sub_folder_init _ p => p = r
  | _ => True

/-- Entries are only created in the current folder. -/
theorem WsOp.request_createsIn {op : WsOp} (hreq : op.request ws = some sop) :
    sop.createsIn ws.cur_folder := by
  -- the operations on a file that is found by its path
  have hfile : ∀ {path sop'}, (fileAtPath ws path).map sop' = some sop →
      (∀ f, (sop' f).createsIn ws.cur_folder) → sop.createsIn ws.cur_folder := by
    intro path sop' hmap hcreates
    obtain ⟨f, _, rfl⟩ := Option.map_eq_some_iff.mp hmap
    exact hcreates f
  cases op with
  | ws_create_file n =>
    cases hreq
    exact rfl
  | ws_create_folder n =>
    cases hreq
    exact rfl
  | ws_remove_file q =>
    simp only [WsOp.request] at hreq
    split at hreq
    · cases hreq
    · exact hfile hreq fun _ => trivial
  | ws_remove_folder q recursive =>
    simp only [WsOp.request] at hreq
    split at hreq
    · cases hreq
    · obtain ⟨r, _, rfl⟩ := Option.map_eq_some_iff.mp hreq
      exact trivial
  | ws_move_node q q' =>
    simp only [WsOp.request] at hreq
    split at hreq <;> cases hreq <;> exact trivial
  | ws_rename_node q name =>
    simp only [WsOp.request] at hreq
    split at hreq <;> cases hreq <;> exact trivial
  | ws_file_append q data => exact hfile hreq fun _ => trivial
  | ws_file_clear q => exact hfile hreq fun _ => trivial
  | ws_file_truncate q amount => exact hfile hreq fun _ => trivial
  | _ => cases hreq

/-- A current folder that has been deleted does not come back. -/
theorem WsOp.puts_ne_dead {op : WsOp} (hws : WorkspaceSound ws) (hreq : op.request ws = some sop)
    (hpass : sop.passes ws.entry_store) (hputs : sop.puts ws.entry_store n p)
    (hdead : ¬ ws.entry_store.live ws.cur_folder) : n ≠ .folder ws.cur_folder := by
  have hin := WsOp.request_inStore hws hreq
  intro hn
  cases sop with
  | vfs_sub_folder_init name q =>
    have hq : q = ws.cur_folder := WsOp.request_createsIn hreq
    rw [← hq] at hdead
    exact hdead (validate_vfs_folder_ok_iff.mp hpass.1)
  | rename_folder d name =>
    rw [VFSNode.folder.inj (hn.symm.trans hputs.1)] at hdead
    exact hdead hin
  | move_folder d q =>
    rw [VFSNode.folder.inj (hn.symm.trans hputs.1)] at hdead
    exact hdead hin.1
  | vfs_sub_file_init name q =>
    obtain ⟨f, hf⟩ := hputs.1
    cases hn.symm.trans hf
  | rename_file f name => cases hn.symm.trans hputs.1
  | move_file f q => cases hn.symm.trans hputs.1
  | _ => exact hputs.elim

/-! ## Section 3: Steps -/

/-- An edit while the current folder is live. -/
theorem Edited.pathIsCurrent_iff (h : Edited ws.entry_store s'.entry_store n p)
    (ht : FolderTree ws.entry_store) (hlive : ws.entry_store.live ws.cur_folder)
    (hnew : ws.entry_store.NameIsNew p (s'.entry_store.nameOf n)) (hpath : PathIsCurrent ws) :
    PathIsCurrent { ws with toVFS := s' } ↔
      ¬ Below ws.entry_store.tree n (.folder ws.cur_folder) := by
  have ht' := h.folderTree ht
  obtain ⟨lp, hlp⟩ := ht.exists_path h.parent_live
  -- The path of the current folder changes exactly if the node edited is above it.
  constructor
  · intro hcur hb
    obtain ⟨l, hl⟩ := ht.exists_path hlive
    obtain ⟨l', hl'⟩ := ht'.exists_path (h.put.live_of_live hlive)
    have hstr : pathString l = pathString l' := (hpath l hl).symm.trans (hcur l' hl')
    have hnames := ht.names_on_path hl
    have hnames' := ht'.names_on_path hl'
    apply h.path_ne ht hnew hl hl' hb
    apply pathString_injective ?_ ?_ ?_ ?_ hstr
    · exact fun x hx => (hnames x hx).1.no_delimiter
    · exact fun x hx => (hnames' x hx).1.no_delimiter
    · exact fun hx => (hnames _ hx).1.not_empty rfl
    · exact fun hx => (hnames' _ hx).1.not_empty rfl
  · intro hnb l' hl'
    have hl'' : PathFrom s'.entry_store.tree (.folder .root) (.folder ws.cur_folder) l' := hl'
    rw [h.tree_eq] at hl''
    rcases PathFrom.of_update ht.wellFormed h.ne_root hlp h.no_cycle hl'' with
      ⟨_, hold⟩ | ⟨s, hs, _⟩
    · exact hpath l' hold
    · exact absurd ⟨s, hs⟩ hnb

/-- **Step lemma**: a step keeps the path right if and only if it meets the condition. -/
theorem WsStep.pathIsCurrent_iff (h : WsStep op ws ws') (hws : WorkspaceSound ws)
    (hpath : PathIsCurrent ws) : PathIsCurrent ws' ↔ KeepsCurrentPath ws op := by
  have ht := hws.sound.tree
  cases h with
  | stay hreq h =>
    rw [h]
    exact iff_of_true hpath (keepsCurrentPath_of_none hreq)
  | call sop s' hreq hrun h =>
    have hvacuous : ¬ sop.passes ws.entry_store → KeepsCurrentPath ws op := by
      intro hfail sop' n p hreq' hpass
      rw [hreq] at hreq'
      cases hreq'
      exact absurd hpass hfail
    rw [h]
    cases StoreOp.exec_step hws.sound (WsOp.request_inStore hws hreq) hrun with
    | same hfail hsame hm =>
      refine iff_of_true ?_ (hvacuous hfail)
      intro l hl
      exact hpath l (hsame.same.tree_eq ▸ hl)
    | edit n p hpass hputs hname hedit hm =>
      by_cases hlive : ws.entry_store.live ws.cur_folder
      · have hnew := StoreOp.nameIsNew hpass hputs
        rw [← hname] at hnew
        rw [hedit.pathIsCurrent_iff ht hlive hnew hpath]
        constructor
        · intro hnb sop' m q hreq' _ hputs' hb
          rw [hreq] at hreq'
          cases hreq'
          exact hnb (StoreOp.puts_unique ht hlive hputs hputs' hb ▸ hb)
        · exact fun hkeeps => hkeeps sop n p hreq hpass hputs
      · -- nothing is said about a current folder that is not live
        refine iff_of_true ?_ ?_
        · intro l hl
          refine absurd hl (not_pathFrom_root ?_)
          intro hlive'
          have hn := hedit.put.eq_of_not_live hlive' hlive
          exact WsOp.puts_ne_dead hws hreq hpass hputs hlive hn
        · intro sop' m q hreq' hpass' hputs' hb
          rw [hreq] at hreq'
          cases hreq'
          have hm := WsOp.puts_ne_dead hws hreq hpass' hputs' hlive
          obtain ⟨q', x, hT, _⟩ := hb.cases_last (Ne.symm hm)
          exact hlive (tree_eq_some.mp hT).1.live
    | effect f hfail _ _ heffect =>
      refine iff_of_true ?_ (hvacuous hfail)
      intro l hl
      exact hpath l (heffect.sameTree.tree_eq ▸ hl)
    | prune hfail hp =>
      refine iff_of_true ?_ (hvacuous hfail)
      exact fun l hl => hpath l (hp.prunes.pathFrom_of hl)
  | enter path r hop hto h =>
    obtain ⟨b, hb, rfl⟩ := h
    subst hop
    refine iff_of_true ?_ (keepsCurrentPath_of_none rfl)
    exact fun l hl => (get_node_path_ok ht hl hb).2.1

/-! ## Section 4: Runs -/

/-- If the current folder is live and not too deep, the cached path is the string that
    `get_node_path` prints for it. -/
def CurrentPathShown (ws : Workspace) : Prop :=
  ws.entry_store.live ws.cur_folder → ∀ l,
    PathFrom ws.entry_store.tree (.folder .root) (.folder ws.cur_folder) l →
    l.length ≤ MAX_PATH_NODES_AMOUNT → ∀ b : CharBuf PATH_BUFFER_LENGTH,
      ∃ b', get_node_path ws.entry_store (.folder ws.cur_folder) b = .ok () b' ∧
        ws.cur_path.str = b'.str ∧ ws.cur_path.Terminated

/-- A path that is up to date is what is shown. -/
theorem currentPathShown_of (ht : FolderTree ws.entry_store) (hpath : PathIsCurrent ws)
    (hterm : ws.cur_path.Terminated) : CurrentPathShown ws := by
  intro _ l hl hlen b
  obtain ⟨b', hb', hstr, _⟩ := get_node_path_run ht hl hlen b
  exact ⟨b', hb', (hpath l hl).trans hstr.symm, hterm⟩

/-- The cached path always ends in its buffer. -/
theorem WsStep.terminated (h : WsStep op ws ws') (hws : WorkspaceSound ws)
    (hterm : ws.cur_path.Terminated) : ws'.cur_path.Terminated := by
  cases h with
  | stay hreq h => rwa [h]
  | call sop s' hreq hrun h => rwa [h]
  | enter path r hop hto h =>
    obtain ⟨l, hl⟩ := hws.sound.tree.exists_path (goesTo_live hws hto)
    obtain ⟨b, hb, rfl⟩ := h
    exact (get_node_path_ok hws.sound.tree hl hb).2.2

/-- The path is up to date in runs of such operations. -/
theorem pathIsCurrent_of_reachable (h : (workspaceSystemWith KeepsCurrentPath).Reachable ws) :
    PathIsCurrent ws ∧ ws.cur_path.Terminated := by
  apply workspaceSystem_invariant (I := fun ws => PathIsCurrent ws ∧ ws.cur_path.Terminated) ?_ ?_ h
  · intro ws hfresh
    refine ⟨?_, hfresh.path_terminated⟩
    intro l hl
    rw [hfresh.cur_root] at hl
    rw [hfresh.path_root, PathFrom.unique tree_root hl PathFrom.nil]
  · intro ws op ws' hws ⟨hpath, hterm⟩ hkeeps hstep
    exact ⟨(hstep.pathIsCurrent_iff hws hpath).mpr hkeeps, hstep.terminated hws hterm⟩

/-- **The path of the current folder** is right in every run that leaves the folders on it
    in place, and the next step keeps it right if and only if it does so too. -/
theorem current_path_shown (h : (workspaceSystemWith KeepsCurrentPath).Reachable ws) :
    CurrentPathShown ws ∧ ∀ op ws', (op.exec ws).final = some ws' →
      (PathIsCurrent ws' ↔ KeepsCurrentPath ws op) := by
  have hws := workspaceSystem_sound h
  obtain ⟨hpath, hterm⟩ := pathIsCurrent_of_reachable h
  refine ⟨currentPathShown_of hws.sound.tree hpath hterm, ?_⟩
  exact fun op ws' hfinal => (WsOp.exec_step hws hfinal).pathIsCurrent_iff hws hpath

/-! ## Section 5: Runs that can be evaluated -/

/-- The call moves or renames a folder. -/
def StoreOp.relocatesFolder : StoreOp → Bool
  | rename_folder _ _ => true
  | move_folder _ _ => true
  | _ => false

/-- Folders are only moved and renamed while the root is the current folder. -/
def RelocatesAtRoot (ws : Workspace) (op : WsOp) : Prop :=
  (op.request ws).any StoreOp.relocatesFolder = true → ws.cur_folder = .root

instance (ws : Workspace) (op : WsOp) : Decidable (RelocatesAtRoot ws op) :=
  inferInstanceAs (Decidable (_ → _))

/-- Relocations that are tried in the root only never touch the current path. -/
theorem RelocatesAtRoot.keepsCurrentPath (hws : WorkspaceSound ws) (h : RelocatesAtRoot ws op) :
    KeepsCurrentPath ws op := by
  intro sop n p hreq hpass hputs hb
  have hin := WsOp.request_inStore hws hreq
  have hcreates := WsOp.request_createsIn hreq
  have ht := hws.sound.tree
  -- A folder that is relocated while the current folder is below it has to be the root, and the
  -- root can be neither renamed nor moved.
  have hroot : sop.relocatesFolder = true → n = .folder .root := by
    intro hrel
    rw [h (by rw [hreq]; exact hrel)] at hb
    by_contra hne
    obtain ⟨q, x, hT, _⟩ := hb.cases_last (Ne.symm hne)
    rw [tree_root] at hT
    cases hT
  cases sop with
  | vfs_sub_file_init name q =>
    obtain ⟨f, rfl⟩ := hputs.1
    exact not_below_file _ f _ hb
  | vfs_sub_folder_init name q =>
    obtain ⟨⟨i, hi⟩, hfree, _⟩ := hputs
    have hq : q = ws.cur_folder := hcreates
    have hlive : ws.entry_store.live q := validate_vfs_folder_ok_iff.mp hpass.1
    exact ht.not_below_new hfree (by simp [hi]) (hq ▸ hlive) hb
  | rename_file f name =>
    rw [hputs.1] at hb
    exact not_below_file _ f _ hb
  | rename_folder d name =>
    rw [VFSNode.folder.inj (hputs.1.symm.trans (hroot rfl))] at hpass
    exact (rename_root ht name).2 hpass
  | move_file f q =>
    rw [hputs.1] at hb
    exact not_below_file _ f _ hb
  | move_folder d q =>
    rw [VFSNode.folder.inj (hputs.1.symm.trans (hroot rfl))] at hpass
    exact (move_root ht hin.2).2 hpass
  | _ => exact hputs.elim

/-- A folder is renamed from the root and entered by its new name. -/
theorem current_path_shown_run :
    ∃ ws, runWorkspace RelocatesAtRoot
        [.ws_create_folder (.ofBytes [97]), .ws_create_folder (.ofBytes [98]),
          .ws_move_node (.ofBytes [98]) (.ofBytes [97]),
          .ws_rename_node (.ofBytes [97]) (.ofBytes [99]),
          .ws_change_cur_folder (.ofBytes [99, 47, 98]),
          .ws_create_folder (.ofBytes [100])] = some ws ∧
      CurrentPathShown ws ∧ ∀ op ws', (op.exec ws).final = some ws' →
        (PathIsCurrent ws' ↔ KeepsCurrentPath ws op) := by
  refine exists_of_run (Q := fun _ => True) (by decide +kernel) fun ws hrun _ => ?_
  exact current_path_shown (workspaceSystem_mono
    (fun ws op hws hop => RelocatesAtRoot.keepsCurrentPath hws hop)
    (reachable_of_runWorkspace hrun))

/-- The current folder is renamed: the cached path still has its old name. -/
theorem current_path_not_shown :
    ∃ ws, runWorkspace (fun _ _ => True)
        [.ws_create_folder (.ofBytes [97]), .ws_change_cur_folder (.ofBytes [97]),
          .ws_rename_node (.ofBytes [47, 97]) (.ofBytes [98])] = some ws ∧
      workspaceSystem.Reachable ws ∧ ws.entry_store.live ws.cur_folder ∧
      ws.cur_path.str = [47, 97] ∧ ¬ CurrentPathShown ws := by
  refine exists_of_run
    (Q := fun ws => ws.entry_store.live ws.cur_folder ∧
      ws.entry_store.climbs MAX_PATH_NODES_AMOUNT ws.cur_folder = true ∧
      ws.cur_path.str = [47, 97] ∧
      (get_node_path ws.entry_store (.folder ws.cur_folder) ws.cur_path).final.map CharBuf.str =
        some [47, 98])
    (by decide +kernel) fun ws hrun hQ => ?_
  obtain ⟨hlive, hclimbs, hcached, hprinted⟩ := hQ
  have hreach := reachable_of_runWorkspace hrun
  refine ⟨hreach, hlive, hcached, ?_⟩
  intro hshown
  obtain ⟨l, hl⟩ := (workspaceSystem_sound hreach).sound.tree.exists_path hlive
  obtain ⟨b, hb, hstr, _⟩ :=
    hshown hlive l hl (Nat.le_of_lt (length_lt_of_climbs hclimbs hl)) ws.cur_path
  rw [hb, final_ok, Option.map_some, ← hstr, hcached] at hprinted
  cases hprinted

end VirtualFS
