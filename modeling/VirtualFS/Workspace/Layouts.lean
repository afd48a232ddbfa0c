import VirtualFS.Workspace.Undo
import VirtualFS.Workspace.UndefinedBehaviour

/-! # Layouts

    Two workspaces may stand for one file system though their entries are in
    other slots and their data is in other chunks. Only an append that finds no
    run of free chunks and a recursive removal that gets stuck can tell them
    apart.

    * `Abstracts.undefined_iff`: undefined behaviour can be foreseen.
    * `agree_step`: what one workspace does the other one does too.
    * `workspaces_agree`: the same for runs.

    The proof is a bisimulation. Both workspaces are related to one file system;
    what one of them does is a step of it, and the other one accepts what the
    specification allows.
-/

namespace VirtualFS

open Framework Prog Outcome ParentMap VFSEntryStore

variable {ws ws' ws₁ ws₂ ws₁' ws₂' : Workspace} {σ σ' σ'' : FileSystem} {l k : List (List Byte)}
  {x : List Byte} {op : WsOp} {reply reply' : Reply} {path : CString} {p : FolderRef}

/-! ## Section 1: Undefined behaviour -/

/-- The operations without a defined end, as far as the file system shows. -/
def FileSystem.Undefined (σ : FileSystem) : WsOp → Prop
  | .ws_rename_node path name =>
    name.chars.length = MAX_NAME_LENGTH ∧ PATH_DELIMITER ∉ name.chars ∧
      ∃ k x d, σ.target path = some (k ++ [x]) ∧ σ.tree.item (k ++ [x]) = some (.file d) ∧
        σ.tree.item (k ++ [name.chars]) = none
  | .ws_change_cur_folder path =>
    (path.chars = BACK_TO_PARENT_OPERATOR ∧ σ.cwd = none) ∨
      ∃ reply σ' l, σ.Performs (.ws_change_cur_folder path) reply σ' ∧ σ'.cwd = some l ∧
        MAX_PATH_NODES_AMOUNT < l.length
  | .ws_file_truncate path amount =>
    0 < amount ∧ ∃ l d, σ.target path = some l ∧ σ.tree.item l = some (.file d) ∧
      amount = d.length
  | _ => False

namespace Abstracts

variable (h : Abstracts ws σ) (hws : WorkspaceSound ws)
include h hws

/-- A name is new in a folder if its path is free. -/
theorem nameIsNew_iff (hl : ws.entry_store.PathTo (.folder p) l) :
    ws.entry_store.NameIsNew p x ↔ σ.tree.item (l ++ [x]) = none := by
  constructor
  · intro hnew
    apply Option.eq_none_iff_forall_ne_some.mpr
    intro v hv
    obtain ⟨n, hn, hx, -⟩ := (h.name_iff hws.sound.tree hl).mp hv
    exact hnew n hn hx
  · exact h.nameIsNew hws.sound.tree hl

/-- The folder that is gone to is the one of the specification. -/
theorem performs_of_goesTo {r : FolderRef} (hto : VirtualFS.goesTo ws path = some r)
    (hl : ws.entry_store.PathTo (.folder r) l) :
    ∃ σ', σ.Performs (.ws_change_cur_folder path) .done σ' ∧ σ'.cwd = some l := by
  have ht := hws.sound.tree
  have hitem := h.item_folder ht hl
  have hfolder : ∀ k, some l = some k → σ.tree.item k = some .folder := by
    intro k hk
    rw [← Option.some.inj hk]
    exact hitem
  have henters : σ.Enters l ⟨σ.tree, some l, hfolder⟩ := ⟨hitem, rfl, rfl⟩
  refine ⟨⟨σ.tree, some l, hfolder⟩, ⟨rfl, ?_⟩, rfl⟩
  -- `..` leads one level up, any other path to the folder that it resolves to.
  by_cases hback : path.chars = BACK_TO_PARENT_OPERATOR
  · rw [if_pos hback]
    have hlive := live_of_goesTo_parent hws hback hto
    unfold VirtualFS.goesTo at hto
    rw [if_pos hback] at hto
    split at hto
    · cases hto
    · next hroot =>
      have hc : ws.entry_store.committed (.folder ws.cur_folder) := by
        apply hlive.resolve_left
        intro heq
        exact hroot ((ht.is_root_iff hlive).mpr heq)
      obtain ⟨c, hcur⟩ := ht.exists_path hlive
      obtain ⟨k, rfl, q, hq, hk⟩ := path_eq_snoc hc hcur
      have hparent : ws.entry_store.parentOf (.folder ws.cur_folder) = some r := hto
      rw [hparent] at hq
      cases hq
      obtain rfl := hl.unique tree_root hk
      exact ⟨l, _, h.cwd_eq_some hcur, henters⟩
  · rw [if_neg hback]
    unfold VirtualFS.goesTo at hto
    rw [if_neg hback] at hto
    obtain ⟨k, htarget, hk⟩ := (h.resolve_iff hws).mp (folderAtPath_eq_some.mp hto)
    obtain rfl := hl.unique tree_root hk
    exact ⟨l, htarget, henters⟩

/-- Entering a folder: undefined behaviour shows in the tree. -/
theorem undefinedChange_iff :
    UndefinedChange ws path ↔ σ.Undefined (.ws_change_cur_folder path) := by
  have hdead : ¬ ws.entry_store.live ws.cur_folder ↔ σ.cwd = none :=
    ⟨h.cwd_eq_none, h.cwd_none⟩
  unfold UndefinedChange FileSystem.Undefined
  rw [hdead]
  apply or_congr Iff.rfl
  constructor
  · rintro ⟨r, l, hto, hl, hdeep⟩
    obtain ⟨σ', hp, hcwd⟩ := h.performs_of_goesTo hws hto hl
    exact ⟨.done, σ', l, hp, hcwd, hdeep⟩
  · rintro ⟨reply, σ', l, hp, hcwd, hdeep⟩
    obtain ⟨r, l', hto, hl, hcwd'⟩ := h.goesTo hws hp
    rw [hcwd] at hcwd'
    cases hcwd'
    exact ⟨r, l, hto, hl, hdeep⟩

/-- Renaming a file: undefined behaviour shows in the tree. -/
theorem rename_undefined_iff {name : CString} :
    (WsOp.ws_rename_node path name).Undefined ws ↔ σ.Undefined (.ws_rename_node path name) := by
  have ht := hws.sound.tree
  -- Both sides name the same file; its siblings are the entries at the sibling paths.
  constructor
  · rintro ⟨sop, hreq, hundef⟩
    cases hres : ws_resolve_path ws path with
    | error e => simp [WsOp.request, hres] at hreq
    | ok n =>
      cases n with
      | folder r =>
        simp only [WsOp.request, hres, Option.some.injEq] at hreq
        subst hreq
        exact hundef.elim
      | file f =>
        simp only [WsOp.request, hres, Option.some.injEq] at hreq
        subst hreq
        obtain ⟨p, hp, hlen, -, hdelim, hnew⟩ := hundef
        obtain ⟨l, htarget, hl⟩ := (h.resolve_iff hws).mp hres
        obtain ⟨k, rfl, q, hq, hk⟩ := path_eq_snoc (committed_of_path_file hl) hl
        rw [hp] at hq
        cases hq
        exact ⟨hlen, hdelim, k, _, _, htarget, h.item_file ht hl, (h.nameIsNew_iff hws hk).mp hnew⟩
  · rintro ⟨hlen, hdelim, k, x, d, htarget, hitem, hfree⟩
    obtain ⟨f, hl, -⟩ := h.file_of_item ht hitem
    have hres := h.resolves hws htarget hl
    obtain ⟨k', heq, q, hq, hk⟩ := path_eq_snoc (committed_of_path_file hl) hl
    obtain ⟨rfl, -⟩ := List.append_inj' heq rfl
    refine ⟨.rename_file f name.chars, by simp [WsOp.request, hres], q, hq, ?_⟩
    exact ⟨hlen, name.nul_free, hdelim, (h.nameIsNew_iff hws hk).mpr hfree⟩

/-- Truncating a file: undefined behaviour shows in its content. -/
theorem truncate_undefined_iff (ho : Ownership ws.toVFS) {amount : Nat} :
    (WsOp.ws_file_truncate path amount).Undefined ws ↔
      σ.Undefined (.ws_file_truncate path amount) := by
  have ht := hws.sound.tree
  have hsize : ∀ {f}, ws.entry_store.committed (.file f) →
      (ws.content f).length = (ws.entry_store.files f).allocated_size * CHUNK_SIZE :=
    fun hf => length_content (ho.ownsChunks hf).file_ok
  constructor
  · rintro ⟨sop, hreq, hundef⟩
    obtain ⟨f, hf, rfl⟩ := Option.map_eq_some_iff.mp hreq
    obtain ⟨hpos, hamount⟩ := hundef
    obtain ⟨l, htarget, hl⟩ := (h.resolve_iff hws).mp (fileAtPath_eq_some.mp hf)
    rw [← hsize (committed_of_path_file hl)] at hamount
    exact ⟨hpos, l, _, htarget, h.item_file ht hl, hamount⟩
  · rintro ⟨hpos, l, d, htarget, hitem, hamount⟩
    obtain ⟨f, hf, hc, rfl⟩ := h.fileAtPath_of_item hws htarget hitem
    rw [hsize hc] at hamount
    exact ⟨.file_truncate_by f amount, Option.map_eq_some_iff.mpr ⟨f, hf, rfl⟩, hpos, hamount⟩

/-- Undefined behaviour can be foreseen. -/
theorem undefined_iff (ho : Ownership ws.toVFS) (op : WsOp) :
    op.Undefined ws ↔ σ.Undefined op := by
  -- Three operations can be undefined; the requests of the others never are.
  cases op with
  | ws_change_cur_folder path => exact h.undefinedChange_iff hws
  | ws_rename_node path name => exact h.rename_undefined_iff hws
  | ws_file_truncate path amount => exact h.truncate_undefined_iff hws ho
  | ws_create_file name | ws_create_folder name =>
    refine iff_of_false ?_ id
    rintro ⟨sop, hreq, hundef⟩
    cases hreq
    exact hundef
  | ws_remove_file path | ws_remove_folder path recursive =>
    refine iff_of_false ?_ id
    rintro ⟨sop, hreq, hundef⟩
    simp only [WsOp.request] at hreq
    split at hreq
    · cases hreq
    · obtain ⟨r, -, rfl⟩ := Option.map_eq_some_iff.mp hreq
      exact hundef
  | ws_move_node path parent_path =>
    refine iff_of_false ?_ id
    rintro ⟨sop, hreq, hundef⟩
    simp only [WsOp.request] at hreq
    split at hreq
    · cases hreq
      exact hundef
    · cases hreq
      exact hundef
    · cases hreq
  | ws_file_append path data | ws_file_clear path =>
    refine iff_of_false ?_ id
    rintro ⟨sop, hreq, hundef⟩
    obtain ⟨f, -, rfl⟩ := Option.map_eq_some_iff.mp hreq
    exact hundef
  | ws_get_sub_entries path length | ws_global_search_by_name name length
  | ws_file_read_all path size | ws_file_read_at path offset amount size =>
    refine iff_of_false ?_ id
    rintro ⟨sop, hreq, -⟩
    cases hreq

end Abstracts

/-! ## Section 2: Replies -/

/-- The order of a listing is that of the slots. -/
def Reply.Same : Reply → Reply → Prop
  | .done, .done => True
  | .bytes data, .bytes data' => data = data'
  | .entries es, .entries es' => es.Perm es'
  | _, _ => False

/-- Two listings of the same entries differ in their order only. -/
theorem FileSystem.Lists.perm {P : List (List Byte) → Prop}
    {es es' : List (List (List Byte) × Bool)} (h : σ.Lists P es) (h' : σ.Lists P es') :
    es.Perm es' := by
  rw [List.perm_ext_iff_of_nodup h.1 h'.1]
  rintro ⟨l, b⟩
  exact (h.2 l b).trans (h'.2 l b).symm

/-- What an operation replies is settled by the file system. -/
theorem FileSystem.reply_unique (h : σ.Performs op reply σ') (h' : σ.Performs op reply' σ'') :
    reply.Same reply' := by
  cases op with
  | ws_get_sub_entries path length =>
    obtain ⟨-, es, rfl, -, hes⟩ := h
    obtain ⟨-, es', rfl, -, hes'⟩ := h'
    cases path with
    | none => exact hes.perm hes'
    | some path =>
      obtain ⟨l, hl, -, hes⟩ := hes
      obtain ⟨l', hl', -, hes'⟩ := hes'
      rw [hl] at hl'
      cases hl'
      exact hes.perm hes'
  | ws_global_search_by_name name length =>
    obtain ⟨-, es, rfl, -, hes⟩ := h
    obtain ⟨-, es', rfl, -, hes'⟩ := h'
    exact hes.perm hes'
  | ws_file_read_all path size =>
    obtain ⟨-, l, d, hl, hd, -, rfl⟩ := h
    obtain ⟨-, l', d', hl', hd', -, rfl⟩ := h'
    rw [hl] at hl'
    cases hl'
    rw [hd] at hd'
    cases hd'
    rfl
  | ws_file_read_at path offset amount size =>
    obtain ⟨-, l, d, hl, hd, -, -, -, rfl⟩ := h
    obtain ⟨-, l', d', hl', hd', -, -, -, rfl⟩ := h'
    rw [hl] at hl'
    cases hl'
    rw [hd] at hd'
    cases hd'
    rfl
  | _ =>
    rw [h.1, h'.1]
    trivial

/-! ## Section 3: Two workspaces -/

/-- The outcome does not depend on runs of free chunks or on the order of slots. -/
def Regular (step : WsOp × Option Reply) : Prop :=
  (∀ path data, step.1 ≠ .ws_file_append path data) ∧
    (step.2 = none → ∀ path, step.1 ≠ .ws_remove_folder path true)

/-- The same operation with the same reply, or with none. -/
def SameStep (step step' : WsOp × Option Reply) : Prop :=
  step.1 = step'.1 ∧ Option.Rel Reply.Same step.2 step'.2

/-- They stand for one file system. -/
def Agree (ws₁ ws₂ : Workspace) : Prop := ∃ σ, Abstracts ws₁ σ ∧ Abstracts ws₂ σ

section agreement

variable (h₁ : Abstracts ws₁ σ) (h₂ : Abstracts ws₂ σ)
  (hreach₁ : workspaceSystem.Reachable ws₁) (hreach₂ : workspaceSystem.Reachable ws₂)
include h₁ h₂ hreach₁ hreach₂

/-- What succeeds in one of them succeeds in the other. -/
theorem succeeded_of_agree (hin : op.InRange)
    (happend : ∀ path data, op ≠ .ws_file_append path data)
    (hsucc : (op.exec ws₁).succeeded = true) : (op.exec ws₂).succeeded = true := by
  have hws₁ := workspaceSystem_sound hreach₁
  have hws₂ := workspaceSystem_sound hreach₂
  have ho₁ := workspaceSystem_ownership hreach₁
  have hallows := allows_of_succeeded h₁ hws₁ ho₁ hin hsucc
  have hroom := (succeeded_of_allows h₁ hws₁ ho₁ (safe_mode_of_reachable hreach₁) hallows).mp hsucc
  rw [hasRoom_iff h₁ hws₁ hallows happend, ← hasRoom_iff h₂ hws₂ hallows happend] at hroom
  exact (succeeded_of_allows h₂ hws₂ (workspaceSystem_ownership hreach₂)
    (safe_mode_of_reachable hreach₂) hallows).mpr hroom

/-- An end in one of them is an end in the other. -/
theorem final_of_agree (hfinal : (op.exec ws₁).final ≠ none) :
    ∃ ws₂', (op.exec ws₂).final = some ws₂' := by
  have hws₁ := workspaceSystem_sound hreach₁
  have hws₂ := workspaceSystem_sound hreach₂
  apply Option.ne_none_iff_exists'.mp
  rw [Ne, exec_undefined_iff hws₂, h₂.undefined_iff hws₂ (workspaceSystem_ownership hreach₂),
    ← h₁.undefined_iff hws₁ (workspaceSystem_ownership hreach₁), ← exec_undefined_iff hws₁]
  exact hfinal

end agreement

/-- A step of one workspace is a step of the other. -/
theorem agree_step {step : WsOp × Option Reply} (hreach₁ : observedSystem.Reachable ws₁)
    (hreach₂ : observedSystem.Reachable ws₂) (hagree : Agree ws₁ ws₂) (hregular : Regular step)
    (hstep : observedSystem.step ws₁ step ws₁') :
    ∃ step' ws₂', SameStep step step' ∧ observedSystem.step ws₂ step' ws₂' ∧
      Agree ws₁' ws₂' := by
  obtain ⟨op, answer⟩ := step
  obtain ⟨σ, h₁, h₂⟩ := hagree
  obtain ⟨happend, hregular⟩ := hregular
  have hws₁ := workspace_of_observed hreach₁
  have hws₂ := workspace_of_observed hreach₂
  have hin : op.InRange := hstep.1
  have hfinal : (op.exec ws₁).final ≠ none := by
    cases answer with
    | none =>
      obtain ⟨-, e, hrun⟩ := hstep
      rw [hrun]
      exact nofun
    | some reply =>
      obtain ⟨-, result, hrun, -⟩ := hstep
      rw [hrun]
      exact nofun
  obtain ⟨ws₂', hfinal'⟩ := final_of_agree h₁ h₂ hws₁ hws₂ hfinal
  obtain ⟨answer', hstep'⟩ := exists_observation (workspaceSystem_sound hws₂) hin hfinal'
  obtain ⟨σ₁, hp₁, h₁'⟩ := exists_specified_step hreach₁ h₁ hstep
  obtain ⟨σ₂, hp₂, h₂'⟩ := exists_specified_step hreach₂ h₂ hstep'
  have hsucc : ∀ {ws ws' reply}, observedSystem.step ws (op, some reply) ws' →
      (op.exec ws).succeeded = true := by
    rintro ws ws' reply ⟨-, result, hrun, -⟩
    rw [hrun]
    rfl
  have hfail : ∀ {ws ws'}, observedSystem.step ws (op, none) ws' →
      (op.exec ws).succeeded = false := by
    rintro ws ws' ⟨-, e, hrun⟩
    rw [hrun]
    rfl
  cases answer with
  | some reply =>
    have hsucc₂ := succeeded_of_agree h₁ h₂ hws₁ hws₂ hin happend (hsucc hstep)
    cases answer' with
    | none =>
      rw [hfail hstep'] at hsucc₂
      cases hsucc₂
    | some reply' =>
      obtain rfl := FileSystem.performs_unique hp₁ hp₂
      exact ⟨(op, some reply'), ws₂', ⟨rfl, .some (FileSystem.reply_unique hp₁ hp₂)⟩, hstep',
        σ₁, h₁', h₂'⟩
  | none =>
    cases answer' with
    | some reply' =>
      have hsucc₁ := succeeded_of_agree h₂ h₁ hws₂ hws₁ hin happend (hsucc hstep')
      rw [hfail hstep] at hsucc₁
      cases hsucc₁
    | none =>
      -- nothing has changed in either of them
      have hsame : ∀ {σ'}, σ.Refuses op σ' → σ' = σ := by
        rintro σ' (hsame | ⟨path, l, hop, -⟩)
        · exact hsame
        · exact absurd hop (hregular rfl path)
      rw [hsame hp₁] at h₁'
      rw [hsame hp₂] at h₂'
      exact ⟨(op, none), ws₂', ⟨rfl, .none⟩, hstep', σ, h₁', h₂'⟩

/-- **Layouts cannot be told apart.** Two workspaces that stand for one file system do the
    same in every run of regular steps: the same operations succeed, with the same replies up
    to the order of listings, and the file systems in the end are the same. -/
theorem workspaces_agree {trace : List (WsOp × Option Reply)}
    (hreach₁ : observedSystem.Reachable ws₁) (hreach₂ : observedSystem.Reachable ws₂)
    (h₁ : Abstracts ws₁ σ) (h₂ : Abstracts ws₂ σ) (hrun : observedSystem.Steps ws₁ trace ws₁')
    (hregular : ∀ step ∈ trace, Regular step) :
    ∃ trace' ws₂', List.Forall₂ SameStep trace trace' ∧ observedSystem.Steps ws₂ trace' ws₂' ∧
      ∃ σ', Abstracts ws₁' σ' ∧ Abstracts ws₂' σ' :=
  System.Steps.matched (fun _ _ _ _ hs ht hR hgood hstep => agree_step hs ht hR hgood hstep)
    hrun hreach₁ hreach₂ ⟨σ, h₁, h₂⟩ hregular

/-- Two files may be created in either order. -/
theorem FileSystem.creates_comm {σ₁ σ₂ τ₁ τ₂ : FileSystem} {y : List Byte} {v w : Item (List Byte)}
    (hne : l ++ [x] ≠ l ++ [y]) (hx : σ.Creates l x v σ₁) (hy : σ₁.Creates l y w σ₂)
    (hy' : σ.Creates l y w τ₁) (hx' : τ₁.Creates l x v τ₂) : τ₂ = σ₂ := by
  obtain ⟨-, hx, hcx⟩ := hx
  obtain ⟨-, hy, hcy⟩ := hy
  obtain ⟨-, hy', hcy'⟩ := hy'
  obtain ⟨-, hx', hcx'⟩ := hx'
  apply FileSystem.ext
  · apply FileTree.ext
    rw [(FileTree.create_eq_some.mp hx').2.2, (FileTree.create_eq_some.mp hy').2.2,
      (FileTree.create_eq_some.mp hy).2.2, (FileTree.create_eq_some.mp hx).2.2,
      Function.update_comm hne]
  · rw [hcx', hcy', hcy, hcx]

/-- Two files, one after the other. -/
def createTwo (x y : CString) : Sys Workspace WsResult :=
  WsOp.exec (.ws_create_file x) >>= fun _ => WsOp.exec (.ws_create_file y)

/-- What the two creations do to the specified file system. -/
theorem exists_created {x y : CString} (hinit : WorkspaceInitialised ws)
    (hsucc : (createTwo x y ws).succeeded = true) :
    ∃ ws' σ₁ σ₂, (createTwo x y ws).final = some ws' ∧ observedSystem.Reachable ws' ∧
      Abstracts ws' σ₂ ∧ FileSystem.fresh.Creates [] x.chars (.file []) σ₁ ∧
      σ₁.Creates [] y.chars (.file []) σ₂ := by
  obtain ⟨result, ws₂, hboth⟩ := exists_of_succeeded hsucc
  obtain ⟨result₁, ws₁, hfirst, hsecond⟩ := exists_of_bind hboth
  have hstep₁ := observed_done (.ws_create_file x) trivial rfl hfirst
  have hstep₂ := observed_done (.ws_create_file y) trivial rfl hsecond
  have hreach : observedSystem.Reachable ws := System.Reachable.init hinit
  have hreach₁ := hreach.step _ hstep₁
  have hσ := (FreshWorkspace.of_init hinit).abstracts
  obtain ⟨σ₁, ⟨-, l₁, hl₁, hx⟩, hσ₁⟩ := exists_specified_step hreach hσ hstep₁
  obtain ⟨σ₂, ⟨-, l₂, hl₂, hy⟩, hσ₂⟩ := exists_specified_step hreach₁ hσ₁ hstep₂
  cases hl₁
  rw [hx.2.2] at hl₂
  cases hl₂
  exact ⟨ws₂, σ₁, σ₂, congrArg final hboth, hreach₁.step _ hstep₂, hσ₂, hx, hy⟩

/-- Two files are created in either order, so that they are in different slots. -/
theorem workspaces_agree_run :
    ∃ ws₁ ws₂ ws₁' ws₂' trace trace', observedSystem.Reachable ws₁ ∧
      observedSystem.Reachable ws₂ ∧ ws₁.entry_store.nameOf (.file 0) = ascii "a" ∧
      ws₂.entry_store.nameOf (.file 0) = ascii "b" ∧
      trace.map Prod.fst = [.ws_get_sub_entries none 2] ∧ observedSystem.Steps ws₁ trace ws₁' ∧
      List.Forall₂ SameStep trace trace' ∧ observedSystem.Steps ws₂ trace' ws₂' := by
  have hstart : ∃ ws, (workspace_start (fun _ => 0) (fun _ => false) CHUNKS_AMOUNT
      Workspace.zeroed).final = some ws ∧ ∀ xy ∈ [("a", "b"), ("b", "a")],
      (createTwo (.ofBytes (ascii xy.1)) (.ofBytes (ascii xy.2)) ws).succeeded = true ∧
      (createTwo (.ofBytes (ascii xy.1)) (.ofBytes (ascii xy.2)) ws).final.map
        (fun ws => ws.entry_store.nameOf (.file 0)) = some (ascii xy.1) := by
    refine exists_of_run
      (Q := fun ws => ∀ xy ∈ [("a", "b"), ("b", "a")],
        (createTwo (.ofBytes (ascii xy.1)) (.ofBytes (ascii xy.2)) ws).succeeded = true ∧
        (createTwo (.ofBytes (ascii xy.1)) (.ofBytes (ascii xy.2)) ws).final.map
          (fun ws => ws.entry_store.nameOf (.file 0)) = some (ascii xy.1))
      (by decide +kernel) fun ws _ hQ => hQ
  obtain ⟨ws, hws, hcreated⟩ := hstart
  have hinit := workspaceInitialised_of_start hws
  obtain ⟨hab, hname₁⟩ := hcreated ("a", "b") (by decide)
  obtain ⟨hba, hname₂⟩ := hcreated ("b", "a") (by decide)
  obtain ⟨ws₁, σ₁, σ, hfinal₁, hreach₁, h₁, ha, hb⟩ := exists_created hinit hab
  obtain ⟨ws₂, τ₁, τ, hfinal₂, hreach₂, h₂, hb', ha'⟩ := exists_created hinit hba
  rw [FileSystem.creates_comm (by decide) ha hb hb' ha'] at h₂
  rw [hfinal₁] at hname₁
  rw [hfinal₂] at hname₂
  have hsound := workspaceSystem_sound (workspace_of_observed hreach₁)
  have ho := workspaceSystem_ownership (workspace_of_observed hreach₁)
  have hlist : ((WsOp.ws_get_sub_entries none 2).exec ws₁).final ≠ none := by
    rw [Ne, exec_undefined_iff hsound, h₁.undefined_iff hsound ho]
    exact id
  obtain ⟨ws₁', hlist⟩ := Option.ne_none_iff_exists'.mp hlist
  have hin : (WsOp.ws_get_sub_entries none 2).InRange := trivial
  obtain ⟨reply, hstep⟩ := exists_observation hsound hin hlist
  have hrun := System.Steps.cons _ _ hstep (System.Steps.nil ws₁')
  have hregular : ∀ step ∈ [(WsOp.ws_get_sub_entries none 2, reply)], Regular step := by
    intro step hmem
    rw [List.mem_singleton] at hmem
    subst hmem
    exact ⟨nofun, fun _ => nofun⟩
  obtain ⟨trace', ws₂', hsame, hrun', -⟩ :=
    workspaces_agree hreach₁ hreach₂ h₁ h₂ hrun hregular
  exact ⟨ws₁, ws₂, ws₁', ws₂', _, trace', hreach₁, hreach₂, Option.some.inj hname₁,
    Option.some.inj hname₂, rfl, hrun, hsame, hrun'⟩

end VirtualFS
