import VirtualFS.Workspace.System

/-! # The Depth of the Tree

    `get_node_path` has room for paths of `MAX_PATH_NODES_AMOUNT` names, but
    no check limits the depth of a creation or of a move. A step keeps the
    bound if and only if what it puts under a folder fits there.

    * `KeepsDepth`: what is put in place fits above the limit, with all below it.
    * `PathsBounded`: what the limit is for; all parents fit in their array.
    * `depth_bound`: runs and steps that keep it.
    * `depth_not_bounded`: eleven folders, one in the other.
-/

namespace VirtualFS

open Framework Prog Outcome ParentMap VFSEntryStore

variable {ws ws' : Workspace} {s s' : VFS} {es es' : VFSEntryStore} {op : WsOp} {sop : StoreOp}
  {n m : VFSNode} {p q r : FolderRef} {k : Nat}

/-! ## Section 1: Bounded paths -/

/-- Paths from the root have at most `k` names. -/
def VFSEntryStore.depthAtMost (es : VFSEntryStore) (k : Nat) : Prop :=
  DepthAtMost es.tree (.folder .root) k

/-- Under `p`, the entries of the subtree of `n` have at most `k` names on their paths. -/
def VFSEntryStore.fitsBelow (es : VFSEntryStore) (k : Nat) (n : VFSNode) (p : FolderRef) : Prop :=
  ∀ l m s, PathFrom es.tree (.folder .root) (.folder p) l → PathFrom es.tree n m s →
    l.length + 1 + s.length ≤ k

/-- An entry that is not in the tree has no subtree but itself. -/
theorem FolderTree.fitsBelow_new (ht : FolderTree es) (hn : ¬ es.committed n)
    (hroot : n ≠ .folder .root) : es.fitsBelow k n p ↔
      ∀ l, PathFrom es.tree (.folder .root) (.folder p) l → l.length + 1 ≤ k := by
  have hnone := tree_of_not_committed hn
  constructor
  · intro hfits l hl
    exact hfits l n [] hl PathFrom.nil
  · intro hroom l m s hl hs
    have hm := ht.wellFormed.below_of_not_mem hnone hroot ⟨s, hs⟩
    subst hm
    cases hs with
    | nil => exact hroom l hl
    | child hT _ =>
      rw [hnone] at hT
      cases hT

/-- An edit keeps a bound if and only if the entry fits. -/
theorem Edited.depthAtMost_iff (h : Edited es es' n p) (ht : FolderTree es)
    (hdepth : es.depthAtMost k) : es'.depthAtMost k ↔ es.fitsBelow k n p := by
  obtain ⟨l, hl⟩ := ht.exists_path h.parent_live
  unfold depthAtMost fitsBelow
  rw [h.tree_eq, depthAtMost_update_iff ht.wellFormed h.ne_root hl h.no_cycle hdepth]
  constructor
  · intro hfits l' m s hl' hs
    rw [PathFrom.unique tree_root hl' hl]
    exact hfits m s hs
  · exact fun hfits m s hs => hfits l m s hl hs

/-! ## Section 2: Steps -/

/-- If the checks of the code pass, what the operation puts under a folder fits there. -/
def KeepsDepth (ws : Workspace) (op : WsOp) : Prop :=
  ∀ sop n p, op.request ws = some sop → sop.passes ws.entry_store →
    sop.puts ws.entry_store n p → ws.entry_store.fitsBelow MAX_PATH_NODES_AMOUNT n p

theorem keepsDepth_of_none (hreq : op.request ws = none) : KeepsDepth ws op := by
  intro sop n p hsop
  rw [hreq] at hsop
  cases hsop

/-- An operation puts one entry under one folder, or any new entry of one kind. -/
theorem StoreOp.puts_fits (ht : FolderTree es) (hn : sop.puts es n p) (hm : sop.puts es m q)
    (hfits : es.fitsBelow k n p) : es.fitsBelow k m q := by
  have hnew : ¬ es.committed n → n ≠ .folder .root → ¬ es.committed m → m ≠ .folder .root →
      q = p → es.fitsBelow k m q := by
    intro hn hnr hm hmr hqp
    rw [hqp]
    exact (ht.fitsBelow_new hm hmr).mpr ((ht.fitsBelow_new hn hnr).mp hfits)
  -- A new entry has nothing below it, whichever place in the array it gets.
  cases sop with
  | vfs_sub_file_init name p' =>
    obtain ⟨⟨f, hf⟩, hfree, hp⟩ := hn
    obtain ⟨⟨g, hg⟩, hfree', hq⟩ := hm
    exact hnew hfree (by simp [hf]) hfree' (by simp [hg]) (hq.trans hp.symm)
  | vfs_sub_folder_init name p' =>
    obtain ⟨⟨i, hi⟩, hfree, hp⟩ := hn
    obtain ⟨⟨j, hj⟩, hfree', hq⟩ := hm
    exact hnew hfree (by simp [hi]) hfree' (by simp [hj]) (hq.trans hp.symm)
  | rename_file f name =>
    have hpq : some p = some q := by rw [← hn.2, ← hm.2, hn.1, hm.1]
    rw [hm.1, ← hn.1, ← Option.some.inj hpq]
    exact hfits
  | rename_folder d name =>
    have hpq : some p = some q := by rw [← hn.2, ← hm.2, hn.1, hm.1]
    rw [hm.1, ← hn.1, ← Option.some.inj hpq]
    exact hfits
  | move_file f p' =>
    rw [hm.1, hm.2, ← hn.1, ← hn.2]
    exact hfits
  | move_folder d p' =>
    rw [hm.1, hm.2, ← hn.1, ← hn.2]
    exact hfits
  | _ => exact hn.elim

/-- **Step lemma**: a step keeps the bound if and only if it meets the condition. -/
theorem WsStep.depthAtMost_iff (h : WsStep op ws ws') (hws : WorkspaceSound ws)
    (hdepth : ws.entry_store.depthAtMost MAX_PATH_NODES_AMOUNT) :
    ws'.entry_store.depthAtMost MAX_PATH_NODES_AMOUNT ↔ KeepsDepth ws op := by
  have ht := hws.sound.tree
  -- By the kind of step; only a request that puts a node somewhere can make a path longer.
  cases h with
  | stay hreq h =>
    rw [h]
    exact iff_of_true hdepth (keepsDepth_of_none hreq)
  | call sop s' hreq hrun h =>
    have hvacuous : ¬ sop.passes ws.entry_store → KeepsDepth ws op := by
      intro hfail sop' n p hreq' hpass
      rw [hreq] at hreq'
      cases hreq'
      exact absurd hpass hfail
    rw [h]
    show s'.entry_store.depthAtMost MAX_PATH_NODES_AMOUNT ↔ KeepsDepth ws op
    cases StoreOp.exec_step hws.sound (WsOp.request_inStore hws hreq) hrun with
    | same hfail hsame hm =>
      refine iff_of_true ?_ (hvacuous hfail)
      unfold depthAtMost
      rwa [hsame.same.tree_eq]
    | edit n p hpass hputs _ hedit hm =>
      rw [hedit.depthAtMost_iff ht hdepth]
      constructor
      · intro hfits sop' m q hreq' _ hputs'
        rw [hreq] at hreq'
        cases hreq'
        exact StoreOp.puts_fits ht hputs hputs' hfits
      · exact fun hkeeps => hkeeps sop n p hreq hpass hputs
    | effect f hfail _ _ heffect =>
      refine iff_of_true ?_ (hvacuous hfail)
      unfold depthAtMost
      rwa [heffect.sameTree.tree_eq]
    | prune hfail hp =>
      refine iff_of_true ?_ (hvacuous hfail)
      exact fun m l hl => hdepth m l (hp.prunes.pathFrom_of hl)
  | enter path r hop hto h =>
    obtain ⟨b, _, rfl⟩ := h
    subst hop
    exact iff_of_true hdepth (keepsDepth_of_none rfl)

/-! ## Section 3: Runs -/

/-- Every entry has at most `MAX_PATH_NODES_AMOUNT` names on its path. Its parent folders
    fit in the array of `get_node_path`, and its path is printed. -/
structure PathsBounded (ws : Workspace) : Prop where
  /-- No path has more names than `MAX_PATH_NODES_AMOUNT`. -/
  depth : ∀ n l, ws.entry_store.committed n →
    PathFrom ws.entry_store.tree (.folder .root) n l → l.length ≤ MAX_PATH_NODES_AMOUNT
  /-- The walk to the root stays inside the array of parents. -/
  parent_folders : ∀ n, ws.entry_store.committed n → ∀ b : CharBuf PATH_BUFFER_LENGTH,
    ∃ parents, get_parent_folders ws.entry_store n (MAX_PATH_NODES_AMOUNT - 1) b =
      .ok parents b ∧ parents.length ≤ MAX_PATH_NODES_AMOUNT - 1
  /-- Every path can be printed to a path buffer. -/
  printed : ∀ n, ws.entry_store.committed n → ∀ b : CharBuf PATH_BUFFER_LENGTH,
    ∃ b', get_node_path ws.entry_store n b = .ok () b'

/-- The bound on parents and paths is a bound on the depth. -/
theorem pathsBounded_iff (ht : FolderTree ws.entry_store) :
    PathsBounded ws ↔ ws.entry_store.depthAtMost MAX_PATH_NODES_AMOUNT := by
  constructor
  · intro h n l hl
    by_cases hn : ws.entry_store.committed n
    · exact h.depth n l hn hl
    · cases hl with
      | nil => exact Nat.zero_le _
      | child hT _ => exact absurd (tree_eq_some.mp hT).1 hn
  · intro hdepth
    constructor
    case depth => exact fun n l _ hl => hdepth n l hl
    -- the printing stores the parents without a check, and there are too few to overflow
    case parent_folders =>
      intro n hn b
      obtain ⟨l, hl⟩ := ht.rooted n hn
      rcases List.eq_nil_or_concat' l with hnil | ⟨l', name, hcons⟩
      · subst hnil
        exact absurd (ht.wellFormed.path_inj hl PathFrom.nil) hn.ne_root
      · subst hcons
        have hle := hdepth n _ hl
        rw [List.length_append, List.length_singleton] at hle
        obtain ⟨parents, hrun, hnames⟩ := (get_parent_folders_run ht b hl).1 (by omega)
        refine ⟨parents, hrun, ?_⟩
        have hlen := congrArg List.length hnames
        rw [namesOf, List.length_map, List.length_reverse] at hlen
        omega
    case printed =>
      intro n hn b
      obtain ⟨l, hl⟩ := ht.rooted n hn
      obtain ⟨b', hb', _⟩ := get_node_path_run ht hl (hdepth n l hl) b
      exact ⟨b', hb'⟩

/-- The depth is bounded in runs of such operations. -/
theorem depth_of_reachable (h : (workspaceSystemWith KeepsDepth).Reachable ws) :
    ws.entry_store.depthAtMost MAX_PATH_NODES_AMOUNT := by
  apply workspaceSystem_invariant
    (I := fun ws => ws.entry_store.depthAtMost MAX_PATH_NODES_AMOUNT) ?_ ?_ h
  · intro ws hfresh n l hl
    cases hl with
    | nil => exact Nat.zero_le _
    | child hT _ => exact absurd (tree_eq_some.mp hT).1 (hfresh.empty.none_committed n)
  · intro ws op ws' hws hdepth hkeeps hstep
    exact (hstep.depthAtMost_iff hws hdepth).mpr hkeeps

/-- **The depth bound** of every run whose creations and moves fit, and the next step
    keeps it if and only if it is another of these. -/
theorem depth_bound (h : (workspaceSystemWith KeepsDepth).Reachable ws) :
    PathsBounded ws ∧ ∀ op ws', (op.exec ws).final = some ws' →
      (PathsBounded ws' ↔ KeepsDepth ws op) := by
  have hws := workspaceSystem_sound h
  have hdepth := depth_of_reachable h
  refine ⟨(pathsBounded_iff hws.sound.tree).mpr hdepth, ?_⟩
  intro op ws' hfinal
  have hstep := WsOp.exec_step hws hfinal
  rw [pathsBounded_iff (hstep.workspaceSound hws).sound.tree]
  exact hstep.depthAtMost_iff hws hdepth

/-! ## Section 4: Runs that can be evaluated -/

/-- Fewer than `k` parent pointers lead from `r` to the root. -/
def VFSEntryStore.climbs (es : VFSEntryStore) : (k : Nat) → (r : FolderRef) → Bool
  | 0, _ => false
  | _ + 1, .root => true
  | k + 1, .slot i =>
    match (es.folders i).parent_folder with
    | none => false
    | some p => es.climbs k p

/-- Whoever reaches the root in `k` steps is less than `k` deep. -/
theorem length_lt_of_climbs (h : es.climbs k r = true) {l : List (List Byte)}
    (hl : PathFrom es.tree (.folder .root) (.folder r) l) : l.length < k := by
  -- Each step up takes the last name off the path.
  induction k generalizing r l with
  | zero => cases h
  | succ k ih =>
    cases hl with
    | nil => exact Nat.succ_pos k
    | @child _ q x l hT hq =>
      obtain ⟨hc, p, hp, hqp, _⟩ := tree_eq_some.mp hT
      subst hqp
      cases r with
      | root => exact hc.elim
      | slot i =>
        have hp' : (es.folders i).parent_folder = some p := hp
        unfold climbs at h
        rw [hp'] at h
        rw [List.length_append, List.length_singleton]
        exact Nat.succ_lt_succ (ih h hq)

/-- Entries are created under folders with fewer names, and only files are moved. -/
def StoreOp.climbs (es : VFSEntryStore) : StoreOp → Bool
  | vfs_sub_file_init _ p => es.climbs MAX_PATH_NODES_AMOUNT p
  | vfs_sub_folder_init _ p => es.climbs MAX_PATH_NODES_AMOUNT p
  | move_file _ p => es.climbs MAX_PATH_NODES_AMOUNT p
  | move_folder _ _ => false
  | rename_file _ _ => false
  | rename_folder _ _ => false
  | _ => true

def ClimbsToRoot (ws : Workspace) (op : WsOp) : Prop :=
  (op.request ws).all (StoreOp.climbs ws.entry_store) = true

instance (ws : Workspace) (op : WsOp) : Decidable (ClimbsToRoot ws op) :=
  inferInstanceAs (Decidable (_ = _))

/-- Creating entries in folders that are close to the root keeps the depth. -/
theorem ClimbsToRoot.keepsDepth (hws : WorkspaceSound ws) (h : ClimbsToRoot ws op) :
    KeepsDepth ws op := by
  intro sop n p hreq _ hputs
  unfold ClimbsToRoot at h
  rw [hreq, Option.all_some] at h
  have ht := hws.sound.tree
  -- A new entry hangs one level below a folder from which the root is reached in time.
  cases sop with
  | vfs_sub_file_init name p' =>
    obtain ⟨⟨f, hf⟩, hfree, hp⟩ := hputs
    subst hp
    exact (ht.fitsBelow_new hfree (by simp [hf])).mpr fun l hl => length_lt_of_climbs h hl
  | vfs_sub_folder_init name p' =>
    obtain ⟨⟨i, hi⟩, hfree, hp⟩ := hputs
    subst hp
    exact (ht.fitsBelow_new hfree (by simp [hi])).mpr fun l hl => length_lt_of_climbs h hl
  | move_file f p' =>
    obtain ⟨hn, hp⟩ := hputs
    subst hn hp
    intro l m s hl hs
    rw [(pathFrom_file hs).2]
    exact length_lt_of_climbs h hl
  | move_folder d p' => cases h
  | rename_file f name => cases h
  | rename_folder d name => cases h
  | _ => exact hputs.elim

/-- Two folders deep a file is moved up and the folder it was in removed. -/
theorem depth_bound_run :
    ∃ ws, runWorkspace ClimbsToRoot
        [.ws_create_folder (.ofBytes [97]), .ws_change_cur_folder (.ofBytes [97]),
          .ws_create_folder (.ofBytes [98]), .ws_change_cur_folder (.ofBytes [98]),
          .ws_create_file (.ofBytes [99]), .ws_change_cur_folder (.ofBytes [46, 46]),
          .ws_move_node (.ofBytes [98, 47, 99]) (.ofBytes [47]),
          .ws_remove_folder (.ofBytes [98]) false] = some ws ∧
      PathsBounded ws ∧ ∀ op ws', (op.exec ws).final = some ws' →
        (PathsBounded ws' ↔ KeepsDepth ws op) := by
  refine exists_of_run (Q := fun _ => True) (by decide +kernel) fun ws hrun _ => ?_
  exact depth_bound (workspaceSystem_mono (fun ws op hws hop => ClimbsToRoot.keepsDepth hws hop)
    (reachable_of_runWorkspace hrun))

/-- One folder more than the bound: printing its path writes behind the array. -/
theorem depth_not_bounded :
    ∃ ws, runWorkspace (fun _ _ => True)
        ((List.replicate MAX_PATH_NODES_AMOUNT
          [WsOp.ws_create_folder (.ofBytes [97]), .ws_change_cur_folder (.ofBytes [97])]).flatten
          ++ [.ws_create_folder (.ofBytes [97])]) = some ws ∧
      workspaceSystem.Reachable ws ∧ ws.entry_store.committed (.folder (.slot 10)) ∧
      get_node_path ws.entry_store (.folder (.slot 10)) ws.cur_path = .fault .out_of_bounds ∧
      ¬ PathsBounded ws := by
  refine exists_of_run
    (Q := fun ws => ws.entry_store.committed (.folder (.slot 10)) ∧
      (get_node_path ws.entry_store (.folder (.slot 10)) ws.cur_path).faulted =
        some .out_of_bounds)
    (by decide +kernel) fun ws hrun hQ => ?_
  obtain ⟨hc, hfault⟩ := hQ
  refine ⟨reachable_of_runWorkspace hrun, hc, eq_fault_of_faulted hfault, ?_⟩
  intro hbounded
  obtain ⟨b, hb⟩ := hbounded.printed _ hc ws.cur_path
  rw [hb] at hfault
  cases hfault

end VirtualFS
