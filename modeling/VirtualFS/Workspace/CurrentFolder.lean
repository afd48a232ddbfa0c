import VirtualFS.Workspace.System

/-! # The Current Folder

    The workspace keeps a pointer to the current folder, and `ws_remove_folder`
    does not look at it. As long as no removal reaches the current folder it
    stays in the store, linked to its parent; a removal that does reach it
    leaves the pointer behind.

    * `KeepsCurrentFolder`: a removal is not aimed at the current folder or above.
    * `current_folder_live`: in runs of such operations the current folder is live,
      and a step keeps it so if and only if the condition holds.
    * `current_folder_not_live`: `mkdir`, `cd` and `rmdir` of the same folder.
-/

namespace VirtualFS

open Framework Prog Outcome ParentMap VFSEntryStore

variable {ws ws' : Workspace} {es : VFSEntryStore} {op : WsOp} {sop : StoreOp} {r : FolderRef}
  {path : CString}

/-! ## Section 1: The condition -/

/-- The operation does not remove the current folder. -/
def KeepsCurrentFolder (ws : Workspace) (op : WsOp) : Prop :=
  ∀ g recursive, op.request ws = some (.delete_vfs_folder g recursive) →
    ¬ ws.entry_store.folderDeletes g recursive (.folder ws.cur_folder)

/-- Only the removal of a folder can touch a folder. -/
theorem touches_folder_iff : sop.touches es (.folder r) ↔
    ∃ g force, sop = .delete_vfs_folder g force ∧ es.folderDeletes g force (.folder r) := by
  constructor
  · intro hT
    cases sop with
    | delete_vfs_folder g force => exact ⟨g, force, rfl, hT⟩
    | _ => cases hT
  · intro ⟨g, force, hsop, hdel⟩
    subst hsop
    exact hdel

/-- The condition, for an operation with a request. -/
theorem keepsCurrentFolder_iff (hreq : op.request ws = some sop) :
    KeepsCurrentFolder ws op ↔ ¬ sop.touches ws.entry_store (.folder ws.cur_folder) := by
  rw [touches_folder_iff]
  unfold KeepsCurrentFolder
  rw [hreq]
  constructor
  · intro hkeeps ⟨g, force, hsop, hdel⟩
    exact hkeeps g force (congrArg some hsop) hdel
  · intro hnot g force hsop hdel
    exact hnot ⟨g, force, Option.some.inj hsop, hdel⟩

theorem keepsCurrentFolder_of_none (hreq : op.request ws = none) : KeepsCurrentFolder ws op := by
  intro g force hsop
  rw [hreq] at hsop
  cases hsop

/-- What a removal reaches is gone after the call. -/
theorem not_live_of_touches {s s' : VFS} (hs : Sound s) (hin : sop.inStore s.entry_store)
    (hrun : (sop.exec s).final = some s') (hT : sop.touches s.entry_store (.folder r)) :
    ¬ s'.entry_store.live r := by
  obtain ⟨g, force, rfl, hdel⟩ := touches_folder_iff.mp hT
  have hsat := delete_vfs_folder_sat hs hin force
  have hprunes : PrunesAll (s.entry_store.folderDeletes g force) s s' := by
    apply Outcome.Sat.final (P := fun t => PrunesAll (s.entry_store.folderDeletes g force) s t)
      (hsat.mono ?_ ?_ fun _ hF => hF) hrun
    · exact fun _ _ h => h.1
    · exact fun _ _ h => h.1
  intro hlive
  rcases hlive with rfl | hc
  · exact hs.tree.not_folderDeletes_root hin hdel
  · exact hprunes.gone _ hdel hc

/-- **Step lemma**: a step keeps the current folder in the store if and only if it meets
    the condition. -/
theorem WsStep.live_cur_iff (h : WsStep op ws ws') (hws : WorkspaceSound ws)
    (hlive : ws.entry_store.live ws.cur_folder) :
    ws'.entry_store.live ws.cur_folder ↔ KeepsCurrentFolder ws op := by
  cases h with
  | stay hreq h =>
    rw [h]
    exact iff_of_true hlive (keepsCurrentFolder_of_none hreq)
  | call sop s' hreq hrun h =>
    have hin := WsOp.request_inStore hws hreq
    rw [keepsCurrentFolder_iff hreq, h]
    constructor
    · exact fun hlive' hT => not_live_of_touches hws.sound hin hrun hT hlive'
    · exact (StoreOp.exec_step hws.sound hin hrun).live_kept hlive
  | enter path r hop hto h =>
    obtain ⟨b, _, rfl⟩ := h
    subst hop
    exact iff_of_true hlive (keepsCurrentFolder_of_none rfl)

/-! ## Section 2: Runs -/

/-- The current folder is in the store and linked to its parent, and going back to the
    parent never follows a NULL pointer. -/
structure CurrentFolderLive (ws : Workspace) : Prop where
  /-- The current folder has not been removed. -/
  live : ws.entry_store.live ws.cur_folder
  /-- It is listed below its parent, unless it is the root. -/
  linked : ws.cur_folder ≠ .root →
    ∃ p, (ws.entry_store.folderAt ws.cur_folder).parent_folder = some p ∧
      ws.entry_store.live p ∧ .folder ws.cur_folder ∈ ws.entry_store.children p
  /-- `..` has a parent to go to. -/
  no_null : ∀ path, path.chars = BACK_TO_PARENT_OPERATOR →
    (ws_change_cur_folder path ws).Sat (fun _ _ => True) (fun _ _ => True)
      (fun x => x ≠ .null_dereference)

/-- A live current folder is the root or hangs in its parent. -/
theorem CurrentFolderLive.of_live (hws : WorkspaceSound ws)
    (hlive : ws.entry_store.live ws.cur_folder) : CurrentFolderLive ws where
  live := hlive
  linked := by
    intro hne
    have hc : ws.entry_store.committed (.folder ws.cur_folder) := hlive.resolve_left hne
    obtain ⟨p, hp, hplive, _⟩ := hws.sound.tree.linked _ hc
    exact ⟨p, hp, hplive, hws.sound.tree.mem_children_parent hc hp⟩
  no_null := by
    intro path _
    apply (ws_change_cur_folder_sat hws path).mono
    · exact fun _ _ _ => trivial
    · exact fun _ _ _ => trivial
    · intro x hx hnull
      rcases hx with ⟨hx, _⟩ | hdead
      · rw [hx] at hnull
        cases hnull
      · exact hdead hlive

/-- The current folder is live in runs of such operations. -/
theorem live_cur_of_reachable (h : (workspaceSystemWith KeepsCurrentFolder).Reachable ws) :
    ws.entry_store.live ws.cur_folder := by
  apply workspaceSystem_invariant (I := fun ws => ws.entry_store.live ws.cur_folder) ?_ ?_ h
  · intro ws hfresh
    rw [hfresh.cur_root]
    exact live_root
  · intro ws op ws' hws hlive hkeeps hstep
    have hkept := (hstep.live_cur_iff hws hlive).mpr hkeeps
    cases hstep with
    | stay hreq h => rwa [h]
    | call sop s' hreq hrun h =>
      rw [h] at hkept ⊢
      exact hkept
    | enter path r hop hto h =>
      have hr := goesTo_live hws hto
      obtain ⟨b, _, rfl⟩ := h
      exact hr

/-- **The current folder is live** in every run without a removal that reaches it, and
    the next step leaves it in the store if and only if it is no such removal. -/
theorem current_folder_live (h : (workspaceSystemWith KeepsCurrentFolder).Reachable ws) :
    CurrentFolderLive ws ∧ ∀ op ws', (op.exec ws).final = some ws' →
      (ws'.entry_store.live ws.cur_folder ↔ KeepsCurrentFolder ws op) := by
  have hws := workspaceSystem_sound h
  have hlive := live_cur_of_reachable h
  refine ⟨CurrentFolderLive.of_live hws hlive, ?_⟩
  exact fun op ws' hfinal => (WsOp.exec_step hws hfinal).live_cur_iff hws hlive

/-! ## Section 3: Runs that can be evaluated -/

/-- Folders are only removed while the root is the current folder. -/
def RemovesAtRoot (ws : Workspace) (op : WsOp) : Prop :=
  (op.request ws).any StoreOp.deletesFolder = true → ws.cur_folder = .root

instance (ws : Workspace) (op : WsOp) : Decidable (RemovesAtRoot ws op) :=
  inferInstanceAs (Decidable (_ → _))

/-- Removals that are tried in the root only are never aimed at the current folder. -/
theorem RemovesAtRoot.keepsCurrentFolder (hws : WorkspaceSound ws) (h : RemovesAtRoot ws op) :
    KeepsCurrentFolder ws op := by
  intro g force hreq
  have hin : ws.entry_store.live g := WsOp.request_inStore hws hreq
  rw [h (by rw [hreq]; rfl)]
  exact hws.sound.tree.not_folderDeletes_root hin

/-- The folder `a` is entered and left again before it is removed. -/
theorem current_folder_live_run :
    ∃ ws, runWorkspace RemovesAtRoot
        [.ws_create_folder (.ofBytes [97]), .ws_change_cur_folder (.ofBytes [97]),
          .ws_create_folder (.ofBytes [98]), .ws_change_cur_folder (.ofBytes [46, 46]),
          .ws_remove_folder (.ofBytes [47, 97]) true] = some ws ∧
      CurrentFolderLive ws ∧ ∀ op ws', (op.exec ws).final = some ws' →
        (ws'.entry_store.live ws.cur_folder ↔ KeepsCurrentFolder ws op) := by
  refine exists_of_run (Q := fun _ => True) (by decide +kernel) fun ws hrun _ => ?_
  exact current_folder_live (workspaceSystem_mono
    (fun ws op hws hop => RemovesAtRoot.keepsCurrentFolder hws hop)
    (reachable_of_runWorkspace hrun))

/-- The current folder is removed by its absolute path: the way back to its parent follows
    a NULL pointer. -/
theorem current_folder_not_live :
    ∃ ws, runWorkspace (fun _ _ => True)
        [.ws_create_folder (.ofBytes [97]), .ws_change_cur_folder (.ofBytes [97]),
          .ws_remove_folder (.ofBytes [47, 97]) false] = some ws ∧
      workspaceSystem.Reachable ws ∧ ¬ ws.entry_store.live ws.cur_folder ∧
      ws_change_cur_folder (.ofBytes [46, 46]) ws = .fault .null_dereference := by
  refine exists_of_run
    (Q := fun ws => ¬ ws.entry_store.live ws.cur_folder ∧
      (ws_change_cur_folder (.ofBytes [46, 46]) ws).faulted = some .null_dereference)
    (by decide +kernel) fun ws hrun hQ => ?_
  exact ⟨reachable_of_runWorkspace hrun, hQ.1, eq_fault_of_faulted hQ.2⟩

end VirtualFS
