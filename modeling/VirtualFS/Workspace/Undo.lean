import VirtualFS.Workspace.Capacity

/-! # Undoing

    The workspace has no command to undo, but what has been created, moved,
    renamed, appended or entered can be taken back by another operation, if the
    paths that this operation needs can be typed. It is never refused, so that whole
    runs can be taken back: in the end the file system is what it was, though its
    entries may be elsewhere.

    * `FileSystem.exists_undo`: what can be taken back.
    * `FileSystem.performs_undo`: what an undoing operation does to the tree.
    * `workspace_undoes`: the undoing operations of a run are accepted.

    An operation can be taken back if the specification allows the undo in the new
    state and there is room for it there. Room is the harder half: what an undo
    needs is what the operation has set free, or what was there before.
-/

namespace VirtualFS

open Framework Prog Outcome ParentMap VFSEntryStore

variable {ws ws' : Workspace} {σ σ' σ'' : FileSystem} {n : VFSNode} {l k : List (List Byte)}
  {x : List Byte} {op undo : WsOp} {reply reply' : Reply} {v : Item (List Byte)}

/-! ## Section 1: Undoing operations -/

namespace FileSystem

/-- In `σ'`, after `op`, the other operation takes back what `op` has done to `σ`. The paths
    need not be typed as before. -/
def UndoneBy (σ σ' : FileSystem) : WsOp → WsOp → Prop
  | .ws_create_file name, .ws_remove_file path =>
    ∃ l, σ.cwd = some l ∧ σ'.target path = some (l ++ [name.chars])
  | .ws_create_folder name, .ws_remove_folder path _ =>
    ∃ l, σ.cwd = some l ∧ σ'.target path = some (l ++ [name.chars])
  | .ws_move_node path parent_path, .ws_move_node back old_parent =>
    ∃ k x l, σ.target path = some (k ++ [x]) ∧ σ.target parent_path = some l ∧
      σ'.target back = some (l ++ [x]) ∧ σ'.target old_parent = some k
  | .ws_rename_node path name, .ws_rename_node back old_name =>
    ∃ k, σ.target path = some (k ++ [old_name.chars]) ∧ σ'.target back = some (k ++ [name.chars])
  | .ws_file_append path data, .ws_file_truncate back amount =>
    ∃ l d, σ.target path = some l ∧ σ.tree.item l = some (.file d) ∧ d ≠ [] ∧
      σ'.target back = some l ∧ amount = (padded data).length
  | .ws_file_append path _, .ws_file_clear back =>
    ∃ l, σ.target path = some l ∧ σ.tree.item l = some (.file []) ∧ σ'.target back = some l
  | .ws_change_cur_folder _, .ws_change_cur_folder back =>
    ∃ l, σ.cwd = some l ∧ l.length ≤ MAX_PATH_NODES_AMOUNT ∧
      back.chars ≠ BACK_TO_PARENT_OPERATOR ∧ σ'.target back = some l
  | _, _ => False

/-- What can be taken back. The new folder, both ends of a move, the new name and the folder
    that is left have to be short enough to be typed; what is found by the same path again
    may be anywhere. Operations that only look leave nothing to take back, and what has been
    removed, cleared or truncated is lost. -/
def Undoable (σ : FileSystem) : WsOp → Prop
  | .ws_create_file _ => True
  | .ws_create_folder name => name.chars.length < MAX_NAME_LENGTH
  | .ws_move_node path parent_path =>
    ∀ k x l, σ.target path = some (k ++ [x]) → σ.target parent_path = some l →
      Parseable k ∧ Parseable (l ++ [x])
  | .ws_rename_node path name =>
    ∀ k x, σ.target path = some (k ++ [x]) → Parseable (k ++ [name.chars])
  | .ws_file_append _ _ => True
  | .ws_change_cur_folder _ => ∃ l, σ.cwd = some l ∧ Parseable l
  | .ws_get_sub_entries _ _ => True
  | .ws_global_search_by_name _ _ => True
  | .ws_file_read_all _ _ => True
  | .ws_file_read_at _ _ _ _ => True
  | _ => False

/-- A step can be taken back, if it has succeeded, or has changed nothing by failing. -/
def CanUndo (σ : FileSystem) (label : WsOp × Option Reply) : Prop :=
  match label.2 with
  | some _ => σ.Undoable label.1
  | none => ∀ path, label.1 ≠ .ws_remove_folder path true

/-- Truncating by what was appended takes the appended bytes off. -/
theorem truncateBytes_padded (d data : List Byte) :
    truncateBytes (padded data).length (d ++ padded data) = d := by
  have hpos : 0 < CHUNK_SIZE := by decide
  have hmod : (padded data).length % CHUNK_SIZE = 0 := by
    rw [length_padded, Nat.mul_mod_left]
  have hdiv : CHUNK_SIZE * ((padded data).length / CHUNK_SIZE) = (padded data).length := by
    rw [length_padded, Nat.mul_div_cancel _ hpos, Nat.mul_comm]
  unfold truncateBytes
  rw [hmod, hdiv, List.length_append, Nat.add_sub_cancel, List.take_left]
  simp [overwriteLast]

/-- A path that leads to a folder is not below a free place. -/
theorem not_prefix_of_free (hcwd : σ.cwd = some l) (hfree : σ.tree.item k = none) :
    ¬ k <+: l := by
  intro hpre
  have hsome := FileTree.isSome_of_prefix (by rw [σ.cwd_folder l hcwd]; rfl) hpre
  rw [hfree] at hsome
  cases hsome

/-- The old current folder is still there after a creation. -/
theorem cwd_filter_free (hfree : σ.tree.item k = none) :
    (σ.cwd.filter fun l => ! decide (k <+: l)) = σ.cwd := by
  cases hcwd : σ.cwd with
  | none => rfl
  | some l =>
    have hpre := not_prefix_of_free hcwd hfree
    simp [hpre]

/-- What has been created can be removed, and nothing else is missing then. -/
theorem removes_create (h : σ.Creates l x v σ') : σ'.Removes (l ++ [x]) σ := by
  obtain ⟨-, hcreate, hcwd⟩ := h
  refine ⟨FileTree.remove_create hcreate, ?_⟩
  rw [hcwd]
  exact (cwd_filter_free (FileTree.create_eq_some.mp hcreate).2.1).symm

/-- What has been moved or renamed can go back under its old name. -/
theorem relocates_relocate {y : List Byte} (hx : NameAcceptable x)
    (h : σ.Relocates (k ++ [x]) l y σ') : σ'.Relocates (l ++ [y]) k x σ := by
  obtain ⟨-, hrelocate, hcwd⟩ := h
  refine ⟨hx, FileTree.relocate_relocate hrelocate, ?_⟩
  obtain ⟨-, -, -, hfree, -⟩ := FileTree.relocate_eq_some.mp hrelocate
  rw [hcwd]
  cases hold : σ.cwd with
  | none => rfl
  | some c =>
    have hpre := not_prefix_of_free hold hfree
    exact congrArg some (PathMap.reroot_reroot hpre).symm

/-- The old data of a file can be put back. -/
theorem writes_writes {d data : List Byte} (hitem : σ.tree.item l = some (.file d))
    (h : σ.Writes l data σ') : σ'.Writes l d σ :=
  ⟨FileTree.write_write hitem h.1, h.2.symm⟩

/-- The names in the tree could be given again. -/
structure Bounded (σ : FileSystem) : Prop where
  /-- A folder has finitely many entries of each kind. -/
  entries_finite : ∀ l v, (σ.entriesIn l v).Finite
  /-- They fit in the slots of one folder. -/
  entries_le : ∀ l v, (σ.entriesIn l v).ncard ≤ entryLimit v
  /-- Each name is acceptable and fits in the buffer of its kind. -/
  names : ∀ k x v, σ.tree.item (k ++ [x]) = some v → NameAcceptable x ∧ x.length ≤ nameLimit v

/-- Undoing operations reply with nothing, and they append nothing. -/
theorem UndoneBy.silent (h : σ.UndoneBy σ' op undo) :
    undo.InRange ∧ (∀ path data, undo ≠ .ws_file_append path data) ∧
      ∀ τ reply τ', FileSystem.Performs τ undo reply τ' → reply = .done := by
  unfold UndoneBy at h
  split at h
  · exact ⟨trivial, nofun, fun _ _ _ hp => hp.1⟩
  · exact ⟨trivial, nofun, fun _ _ _ hp => hp.1⟩
  · exact ⟨trivial, nofun, fun _ _ _ hp => hp.1⟩
  · exact ⟨trivial, nofun, fun _ _ _ hp => hp.1⟩
  · exact ⟨trivial, nofun, fun _ _ _ hp => hp.1⟩
  · exact ⟨trivial, nofun, fun _ _ _ hp => hp.1⟩
  · exact ⟨trivial, nofun, fun _ _ _ hp => hp.1⟩
  · exact h.elim

/-- Names on the way to an entry are acceptable. -/
theorem Bounded.acceptable (hσ : σ.Bounded) (hl : (σ.tree.item l).isSome) :
    ∀ x ∈ l, NameAcceptable x := by
  intro x hx
  obtain ⟨k, t, rfl⟩ := List.append_of_mem hx
  have hpre : k ++ [x] <+: k ++ x :: t := ⟨t, by simp⟩
  obtain ⟨v, hv⟩ := Option.isSome_iff_exists.mp (FileTree.isSome_of_prefix hl hpre)
  exact (hσ.names k x v hv).1

theorem Bounded.typeable (hσ : σ.Bounded) (hl : (σ.tree.item l).isSome) (h : Parseable l) :
    Typeable l := ⟨h, hσ.acceptable hl⟩

/-- A printed path is never the one that means the parent. -/
theorem printed_ne_back (h : Typeable l) : h.printed.chars ≠ BACK_TO_PARENT_OPERATOR := by
  show pathString l ≠ _
  by_cases hnil : l = []
  · subst hnil
    decide
  · rw [pathString, if_neg hnil, absolutePath_of_ne_nil hnil]
    intro heq
    exact absurd (List.cons.inj heq).1 (by decide)

/-- **What can be taken back** has an operation for it, or nothing has changed. -/
theorem exists_undo (hσ : σ.Bounded) (hσ' : σ'.Bounded) (hp : σ.Performs op reply σ')
    (hcan : σ.Undoable op) : (∃ undo, σ.UndoneBy σ' op undo) ∨ σ' = σ := by
  cases op with
  | ws_create_file name =>
    obtain ⟨-, l, hcwd, hname, hcreate, hcwd'⟩ := hp
    obtain ⟨-, -, hitem⟩ := FileTree.create_eq_some.mp hcreate
    have hfile : σ'.tree.item (l ++ [name.chars]) = some (.file []) := by
      rw [hitem, Function.update_self]
    have hshort : name.chars.length < MAX_NAME_LENGTH :=
      Nat.lt_of_le_of_lt (hσ'.names l _ _ hfile).2 (by decide)
    exact Or.inl ⟨.ws_remove_file name, l, hcwd, target_of_name (hcwd'.trans hcwd) hname hshort⟩
  | ws_create_folder name =>
    obtain ⟨-, l, hcwd, hname, -, hcwd'⟩ := hp
    exact Or.inl ⟨.ws_remove_folder name false, l, hcwd,
      target_of_name (hcwd'.trans hcwd) hname hcan⟩
  | ws_move_node path parent_path =>
    obtain ⟨-, k, x, l, htarget, hparent, hname, hrelocate, -⟩ := hp
    obtain ⟨⟨-, hsome⟩, -, -, -, -⟩ := FileTree.relocate_eq_some.mp hrelocate
    obtain ⟨hk, hl⟩ := hcan k x l htarget hparent
    have hold : Typeable k :=
      hσ.typeable (FileTree.isSome_of_prefix hsome (List.prefix_append k [x])) hk
    have hmoved := FileTree.item_relocated hrelocate []
    rw [List.append_nil, List.append_nil] at hmoved
    have hnew : Typeable (l ++ [x]) := hσ'.typeable (by rw [hmoved]; exact hsome) hl
    exact Or.inl ⟨.ws_move_node hnew.printed hold.printed, k, x, l, htarget, hparent,
      target_of_printed hnew rfl, target_of_printed hold rfl⟩
  | ws_rename_node path name =>
    obtain ⟨-, k, x, htarget, hname, hrelocate, -⟩ := hp
    obtain ⟨⟨-, hsome⟩, -, -, -, -⟩ := FileTree.relocate_eq_some.mp hrelocate
    have hmoved := FileTree.item_relocated hrelocate []
    rw [List.append_nil, List.append_nil] at hmoved
    have hnew : Typeable (k ++ [name.chars]) :=
      hσ'.typeable (by rw [hmoved]; exact hsome) (hcan k x htarget)
    have hx : NameAcceptable x := hσ.acceptable hsome x (by simp)
    exact Or.inl ⟨.ws_rename_node hnew.printed ⟨x, hx.no_nul⟩, k, htarget,
      target_of_printed hnew rfl⟩
  | ws_file_append path data =>
    obtain ⟨-, -, l, d, htarget, hitem, -, hcwd⟩ := hp
    have hback : σ'.target path = some l := by
      unfold target at htarget ⊢
      rw [hcwd]
      exact htarget
    by_cases hd : d = []
    · subst hd
      exact Or.inl ⟨.ws_file_clear path, l, htarget, hitem, hback⟩
    · exact Or.inl ⟨.ws_file_truncate path (padded data).length, l, d, htarget, hitem, hd, hback,
        rfl⟩
  | ws_change_cur_folder path =>
    obtain ⟨l, hcwd, hl⟩ := hcan
    have hfolder := σ.cwd_folder l hcwd
    have htyped : Typeable l := hσ.typeable (by rw [hfolder]; rfl) hl
    exact Or.inl ⟨.ws_change_cur_folder htyped.printed, l, hcwd, hl.length_le,
      printed_ne_back htyped, target_of_printed htyped rfl⟩
  | ws_get_sub_entries path length | ws_global_search_by_name name length
  | ws_file_read_all path size | ws_file_read_at path offset amount size => exact Or.inr hp.1
  | ws_remove_file path | ws_remove_folder path recursive | ws_file_clear path
  | ws_file_truncate path amount => exact hcan.elim

/-- **What undoes an operation**: the old tree and the old current folder come back. -/
theorem performs_undo (hσ : σ.Bounded) (hp : σ.Performs op reply σ')
    (hundo : σ.UndoneBy σ' op undo) : σ'.Performs undo .done σ := by
  unfold UndoneBy at hundo
  split at hundo
  · -- a new file
    obtain ⟨l, hcwd, htarget⟩ := hundo
    obtain ⟨-, l', hcwd', hcreates⟩ := hp
    rw [hcwd] at hcwd'
    cases hcwd'
    obtain ⟨-, -, hitem⟩ := FileTree.create_eq_some.mp hcreates.2.1
    refine ⟨rfl, _, [], htarget, ?_, removes_create hcreates⟩
    rw [hitem, Function.update_self]
  · -- a new folder, which is empty
    obtain ⟨l, hcwd, htarget⟩ := hundo
    obtain ⟨-, l', hcwd', hcreates⟩ := hp
    rw [hcwd] at hcwd'
    cases hcwd'
    obtain ⟨-, hfree, hitem⟩ := FileTree.create_eq_some.mp hcreates.2.1
    refine ⟨rfl, _, htarget, ?_, Or.inr ?_, removes_create hcreates⟩
    · rw [hitem, Function.update_self]
    · intro y
      rw [hitem, Function.update_of_ne (by simp)]
      exact FileTree.item_append_eq_none hfree
  · -- a move
    obtain ⟨k, x, l, htarget, hparent, hback, hold⟩ := hundo
    obtain ⟨-, k', x', l', htarget', hparent', hrelocates⟩ := hp
    rw [htarget, Option.some.injEq] at htarget'
    rw [hparent] at hparent'
    cases hparent'
    obtain ⟨rfl, hx⟩ := List.append_inj' htarget' rfl
    cases hx
    exact ⟨rfl, l, x, k, hback, hold, relocates_relocate hrelocates.1 hrelocates⟩
  · -- a new name
    obtain ⟨k, htarget, hback⟩ := hundo
    obtain ⟨-, k', x', htarget', hrelocates⟩ := hp
    rw [htarget, Option.some.injEq] at htarget'
    obtain ⟨rfl, hx⟩ := List.append_inj' htarget' rfl
    cases hx
    obtain ⟨⟨-, hsome⟩, -⟩ := FileTree.relocate_eq_some.mp hrelocates.2.1
    obtain ⟨v, hv⟩ := Option.isSome_iff_exists.mp hsome
    exact ⟨rfl, k, _, hback, relocates_relocate (hσ.names k _ v hv).1 hrelocates⟩
  · -- data behind other data
    obtain ⟨l, d, htarget, hitem, hne, hback, rfl⟩ := hundo
    obtain ⟨-, -, l', d', htarget', hitem', hwrites⟩ := hp
    rw [htarget] at htarget'
    cases htarget'
    rw [hitem] at hitem'
    cases hitem'
    obtain ⟨-, hnew⟩ := FileTree.write_eq_some.mp hwrites.1
    refine ⟨rfl, l, _, hback, by rw [hnew, Function.update_self], ?_, ?_⟩
    · have hpos := List.length_pos_iff.mpr hne
      rw [List.length_append]
      omega
    · rw [truncateBytes_padded]
      exact writes_writes hitem hwrites
  · -- the first data of a file
    obtain ⟨l, htarget, hitem, hback⟩ := hundo
    obtain ⟨-, -, l', d', htarget', hitem', hwrites⟩ := hp
    rw [htarget] at htarget'
    cases htarget'
    obtain ⟨-, hnew⟩ := FileTree.write_eq_some.mp hwrites.1
    exact ⟨rfl, l, _, hback, by rw [hnew, Function.update_self], writes_writes hitem hwrites⟩
  · -- another current folder
    obtain ⟨l, hcwd, -, hnot, hback⟩ := hundo
    obtain ⟨-, hp⟩ := hp
    have htree : σ'.tree = σ.tree := by
      split at hp
      · obtain ⟨k, x, -, -, htree, -⟩ := hp
        exact htree
      · obtain ⟨k, -, -, htree, -⟩ := hp
        exact htree
    refine ⟨rfl, ?_⟩
    rw [if_neg hnot]
    refine ⟨l, hback, ?_, htree.symm, hcwd⟩
    rw [htree]
    exact σ.cwd_folder l hcwd
  · exact hundo.elim

/-- The old folder of a moved entry has room for it. -/
theorem takesEntry_undo (hσ : σ.Bounded) (h : σ.Relocates (k ++ [x]) l x σ')
    (hv : σ'.tree.item (l ++ [x]) = some v) : σ'.TakesEntry k v := by
  obtain ⟨⟨-, hsome⟩, -, -, hfree, hitem⟩ := FileTree.relocate_eq_some.mp h.2.1
  have hmoved := FileTree.item_relocated h.2.1 []
  rw [List.append_nil, List.append_nil, hv] at hmoved
  have hparent := σ.tree.parent_folder k x hsome
  have hnew : ∀ y, ¬ l ++ [x] <+: k ++ [y] := by
    intro y hpre
    rcases List.prefix_concat_iff.mp hpre with heq | hpre
    · obtain ⟨rfl, -⟩ := List.append_inj' heq rfl
      rw [hfree] at hsome
      cases hsome
    · have hsome' := FileTree.isSome_of_prefix (by rw [hparent]; rfl) hpre
      rw [hfree] at hsome'
      cases hsome'
  have hsub : σ'.entriesIn k v ⊂ σ.entriesIn k v := by
    apply (Set.ssubset_iff_of_subset _).mpr
    · -- the moved entry is gone
      refine ⟨x, ⟨v, hmoved.symm, rfl⟩, ?_⟩
      rintro ⟨w, hw, -⟩
      rw [hitem, PathMap.rebase_old (hnew x) (List.prefix_refl _)] at hw
      cases hw
    · rintro y ⟨w, hw, hkind⟩
      refine ⟨w, ?_, hkind⟩
      by_cases hy : k ++ [x] <+: k ++ [y]
      · rw [hitem, PathMap.rebase_old (hnew y) hy] at hw
        cases hw
      · rwa [hitem, PathMap.rebase_other (hnew y) hy] at hw
  exact (Set.ncard_lt_ncard hsub (hσ.entries_finite k v)).trans_le (hσ.entries_le k v)

/-- An undoing operation has room. -/
theorem hasRoom_undo (hσ : σ.Bounded) (hp : σ.Performs op reply σ')
    (hroom : (∀ path data, op ≠ .ws_file_append path data) → σ.HasRoom op)
    (hundo : σ.UndoneBy σ' op undo) : σ'.HasRoom undo := by
  unfold UndoneBy at hundo
  split at hundo
  · trivial
  · obtain ⟨l, hcwd, htarget⟩ := hundo
    obtain ⟨-, l', hcwd', hcreates⟩ := hp
    rw [hcwd] at hcwd'
    cases hcwd'
    obtain ⟨-, hfree, hitem⟩ := FileTree.create_eq_some.mp hcreates.2.1
    intro l' hl' k hk
    rw [htarget] at hl'
    cases hl'
    have hnil : k = [] := by
      by_contra hne
      rw [hitem, Function.update_of_ne (by simpa using hne),
        FileTree.item_append_eq_none hfree] at hk
      cases hk
    rw [hnil]
    decide
  · obtain ⟨k, x, l, htarget, hparent, hback, hold⟩ := hundo
    obtain ⟨-, k', x', l', htarget', hparent', hrelocates⟩ := hp
    rw [htarget, Option.some.injEq] at htarget'
    rw [hparent] at hparent'
    cases hparent'
    obtain ⟨rfl, hx⟩ := List.append_inj' htarget' rfl
    cases hx
    intro j i v hj hv hi
    rw [hback] at hj
    cases hj
    rw [hold] at hi
    cases hi
    refine ⟨takesEntry_undo hσ hrelocates hv, ?_⟩
    rintro rfl s hs
    -- the folder had room for the way there
    have hmoved := FileTree.item_relocated hrelocates.2.1 []
    rw [List.append_nil, List.append_nil, hv] at hmoved
    rw [FileTree.item_relocated hrelocates.2.1] at hs
    exact (hroom nofun _ l .folder htarget hmoved.symm hparent).2 rfl s hs
  · obtain ⟨k, htarget, hback⟩ := hundo
    obtain ⟨-, k', x', htarget', hrelocates⟩ := hp
    rw [htarget, Option.some.injEq] at htarget'
    obtain ⟨rfl, hx⟩ := List.append_inj' htarget' rfl
    cases hx
    intro j v hj hv
    rw [hback] at hj
    cases hj
    have hmoved := FileTree.item_relocated hrelocates.2.1 []
    rw [List.append_nil, List.append_nil, hv] at hmoved
    exact (hσ.names k _ v hmoved.symm).2
  · trivial
  · trivial
  · obtain ⟨l, hcwd, hlen, hnot, hback⟩ := hundo
    rintro reply' σ'' ⟨-, hp'⟩ j hj
    rw [if_neg hnot] at hp'
    obtain ⟨l', hl', -, -, hcwd'⟩ := hp'
    rw [hback] at hl'
    cases hl'
    rw [hcwd'] at hj
    cases hj
    exact hlen
  · exact hundo.elim

/-! ## Section 2: Operations have one outcome -/

theorem ext_of_some {t : Option (FileTree (List Byte) (List Byte))}
    {cwd : Option (List (List Byte))} (h : t = some σ'.tree ∧ σ'.cwd = cwd)
    (h' : t = some σ''.tree ∧ σ''.cwd = cwd) : σ' = σ'' :=
  FileSystem.ext (Option.some.inj (h.1.symm.trans h'.1)) (h.2.trans h'.2.symm)

/-- The specification is deterministic. -/
theorem performs_unique (h : σ.Performs op reply σ') (h' : σ.Performs op reply' σ'') :
    σ' = σ'' := by
  -- The paths that the operation names lead to one place each, and there the new tree is a
  -- function of the old one.
  cases op with
  | ws_create_file name | ws_create_folder name =>
    obtain ⟨-, l, hl, -, hc⟩ := h
    obtain ⟨-, l', hl', -, hc'⟩ := h'
    rw [hl] at hl'
    cases hl'
    exact ext_of_some hc hc'
  | ws_remove_file path =>
    obtain ⟨-, l, d, hl, -, hr⟩ := h
    obtain ⟨-, l', d', hl', -, hr'⟩ := h'
    rw [hl] at hl'
    cases hl'
    exact ext_of_some hr hr'
  | ws_remove_folder path recursive =>
    obtain ⟨-, l, hl, -, -, hr⟩ := h
    obtain ⟨-, l', hl', -, -, hr'⟩ := h'
    rw [hl] at hl'
    cases hl'
    exact ext_of_some hr hr'
  | ws_move_node path parent_path =>
    obtain ⟨-, k, x, l, hk, hl, -, hr⟩ := h
    obtain ⟨-, k', x', l', hk', hl', -, hr'⟩ := h'
    rw [hk, Option.some.injEq] at hk'
    obtain ⟨rfl, hx⟩ := List.append_inj' hk' rfl
    cases hx
    rw [hl] at hl'
    cases hl'
    exact ext_of_some hr hr'
  | ws_rename_node path name =>
    obtain ⟨-, k, x, hk, -, hr⟩ := h
    obtain ⟨-, k', x', hk', -, hr'⟩ := h'
    rw [hk, Option.some.injEq] at hk'
    obtain ⟨rfl, hx⟩ := List.append_inj' hk' rfl
    cases hx
    exact ext_of_some hr hr'
  | ws_change_cur_folder path =>
    obtain ⟨-, h⟩ := h
    obtain ⟨-, h'⟩ := h'
    split at h
    · next hback =>
      rw [if_pos hback] at h'
      obtain ⟨k, x, hk, -, htree, hcwd⟩ := h
      obtain ⟨k', x', hk', -, htree', hcwd'⟩ := h'
      rw [hk, Option.some.injEq] at hk'
      obtain ⟨rfl, -⟩ := List.append_inj' hk' rfl
      exact FileSystem.ext (htree.trans htree'.symm) (hcwd.trans hcwd'.symm)
    · next hback =>
      rw [if_neg hback] at h'
      obtain ⟨l, hl, -, htree, hcwd⟩ := h
      obtain ⟨l', hl', -, htree', hcwd'⟩ := h'
      rw [hl] at hl'
      cases hl'
      exact FileSystem.ext (htree.trans htree'.symm) (hcwd.trans hcwd'.symm)
  | ws_file_append path data =>
    obtain ⟨-, -, l, d, hl, hd, hw⟩ := h
    obtain ⟨-, -, l', d', hl', hd', hw'⟩ := h'
    rw [hl] at hl'
    cases hl'
    rw [hd] at hd'
    cases hd'
    exact ext_of_some hw hw'
  | ws_file_clear path =>
    obtain ⟨-, l, d, hl, -, hw⟩ := h
    obtain ⟨-, l', d', hl', -, hw'⟩ := h'
    rw [hl] at hl'
    cases hl'
    exact ext_of_some hw hw'
  | ws_file_truncate path amount =>
    obtain ⟨-, l, d, hl, hd, -, hw⟩ := h
    obtain ⟨-, l', d', hl', hd', -, hw'⟩ := h'
    rw [hl] at hl'
    cases hl'
    rw [hd] at hd'
    cases hd'
    exact ext_of_some hw hw'
  | ws_get_sub_entries path length | ws_global_search_by_name name length
  | ws_file_read_all path size | ws_file_read_at path offset amount size =>
    exact h.1.trans h'.1.symm

end FileSystem

/-! ## Section 3: The workspace -/

/-- The tree of a workspace keeps to the limits of names. -/
theorem Abstracts.bounded (h : Abstracts ws σ) (ht : FolderTree ws.entry_store) : σ.Bounded := by
  have hcount : ∀ l v, (σ.entriesIn l v).Finite ∧
      (σ.entriesIn l v).ncard ≤ FileSystem.entryLimit v := by
    intro l v
    by_cases hfolder : σ.tree.item l = some .folder
    · obtain ⟨p, hp⟩ := h.folder_of_item ht hfolder
      obtain ⟨n, hsame, hlimit⟩ : ∃ n, σ.entriesIn l v = σ.entriesIn l (ws.itemOf n) ∧
          FileSystem.entryLimit v = FileSystem.entryLimit (ws.itemOf n) := by
        cases v with
        | file d => exact ⟨.file 0, rfl, rfl⟩
        | folder => exact ⟨.folder .root, rfl, rfl⟩
      rw [hsame, hlimit]
      constructor
      · exact (List.finite_toSet _).subset fun x hx => (h.mem_entriesIn ht hp n).mp hx
      · rw [h.ncard_entriesIn ht hp n]
        exact siblings_length_le ws.toVFS p n
    · -- nothing is below what is no folder
      have hempty : σ.entriesIn l v = ∅ := by
        apply Set.eq_empty_of_forall_notMem
        rintro x ⟨w, hw, -⟩
        exact hfolder (σ.tree.parent_folder l x (by rw [hw]; rfl))
      rw [hempty]
      exact ⟨Set.finite_empty, by simp⟩
  constructor
  case entries_finite => exact fun l v => (hcount l v).1
  case entries_le => exact fun l v => (hcount l v).2
  case names =>
    intro k x v hv
    obtain ⟨n, hn, rfl⟩ := (view_eq_some_iff ht).mp (h.item_eq ▸ hv)
    obtain ⟨q, hq, -⟩ := hn.snoc_inv
    obtain ⟨hc, -, -, -, rfl⟩ := tree_eq_some.mp hq
    refine ⟨ht.names_acceptable n hc, ?_⟩
    have hterm := ht.names_terminated n hc
    cases n with
    | file f => exact Nat.le_sub_one_of_lt (CharBuf.length_str_lt hterm)
    | folder r => exact Nat.le_of_lt_succ (CharBuf.length_str_lt hterm)

/-- One step back: whatever the slots and chunks in use are, the operation is accepted. -/
theorem undo_step (h : workspaceSystem.Reachable ws') (h' : Abstracts ws' σ') (hσ : σ.Bounded)
    (hp : σ.Performs op reply σ')
    (hroom : (∀ path data, op ≠ .ws_file_append path data) → σ.HasRoom op)
    (hundo : σ.UndoneBy σ' op undo) :
    ∃ ws'', observedSystem.step ws' (undo, some .done) ws'' ∧ Abstracts ws'' σ := by
  have hws := workspaceSystem_sound h
  have ho := workspaceSystem_ownership h
  have hback := FileSystem.performs_undo hσ hp hundo
  have hallows : σ'.Allows undo := ⟨.done, σ, hback⟩
  obtain ⟨hin, hnot, hdone⟩ := hundo.silent
  have hroom' := (hasRoom_iff h' hws hallows hnot).mpr (FileSystem.hasRoom_undo hσ hp hroom hundo)
  have hsucc := (succeeded_of_allows h' hws ho (safe_mode_of_reachable h) hallows).mpr hroom'
  -- The undo is allowed and has room, so the workspace accepts it.
  obtain ⟨result, ws'', hrun⟩ := exists_of_succeeded hsucc
  have hfinal : (undo.exec ws').final = some ws'' := congrArg final hrun
  have hws'' := (WsOp.exec_step hws hfinal).workspaceSound hws
  obtain ⟨σ'', h''⟩ := exists_abstracts hws''
  obtain ⟨reply', hobs⟩ := exists_observation hws hin hfinal
  cases reply' with
  | none =>
    obtain ⟨-, e, hfail⟩ := hobs
    rw [hrun] at hfail
    cases hfail
  | some reply' =>
    have hobs' := hobs
    obtain ⟨-, result', hrun', hshow⟩ := hobs'
    have hperforms := exec_performs h' hws ho h'' hin hrun' hshow
    rw [hdone _ _ _ hperforms] at hobs
    rw [FileSystem.performs_unique hperforms hback] at h''
    exact ⟨ws'', hobs, h''⟩

/-! ## Section 4: Runs -/

/-- The operations undo those of a run, from its end to its start; steps that cannot change
    anything are not undone. -/
inductive FileSystem.RunUndoneBy :
    FileSystem → List (WsOp × Option Reply) → List WsOp → FileSystem → Prop where
  /-- Nothing is to be undone. -/
  | nil : ∀ σ, RunUndoneBy σ [] [] σ
  /-- The step has been performed, and its undo comes after those of the later steps. -/
  | cons : ∀ {σ σ' σ'' : FileSystem} {op undo : WsOp} {reply : Reply} {trace undos},
             σ.Performs op reply σ' → σ.UndoneBy σ' op undo → RunUndoneBy σ' trace undos σ'' →
               RunUndoneBy σ ((op, some reply) :: trace) (undos ++ [undo]) σ''
  /-- The step cannot have changed anything. -/
  | idle : ∀ {σ σ' : FileSystem} {label trace undos},
             (∀ τ, fileSystem.step σ label τ → τ = σ) → RunUndoneBy σ trace undos σ' →
               RunUndoneBy σ (label :: trace) undos σ'

/-- The operations that undo those of a run from a reachable state are all accepted, and then
    the file system is what it was before the run. -/
theorem run_undone {trace : List (WsOp × Option Reply)} {undos : List WsOp}
    (h : observedSystem.Reachable ws) (hσ : Abstracts ws σ)
    (hrun : observedSystem.Steps ws trace ws') (hundo : σ.RunUndoneBy trace undos σ') :
    ∃ ws'', observedSystem.Steps ws' (undos.map fun op => (op, some .done)) ws'' ∧
      Abstracts ws'' σ := by
  induction hundo generalizing ws with
  | nil σ =>
    cases hrun
    exact ⟨ws', System.Steps.nil ws', hσ⟩
  | @idle σ σ₁ label trace undos hidle _ ih =>
    cases hrun with
    | cons _ _ hstep hrest =>
      obtain ⟨τ, hspec, hτ⟩ := exists_specified_step h hσ hstep
      rw [hidle τ hspec] at hτ
      exact ih (h.step _ hstep) hτ hrest
  | @cons σ σ₁ σ₂ op undo reply trace undos hp hback _ ih =>
    cases hrun with
    | @cons _ ws₁ _ _ _ hstep hrest =>
      have hreach := workspace_of_observed h
      have hws := workspaceSystem_sound hreach
      have ho := workspaceSystem_ownership hreach
      have hreach₁ := h.step _ hstep
      -- after the first step the tree is the one that is undone
      obtain ⟨τ, hperforms, hτ⟩ := exists_specified_step h hσ hstep
      rw [FileSystem.performs_unique hperforms hp] at hτ
      obtain ⟨ws₂, hsteps, h₂⟩ := ih hreach₁ hτ hrest
      have hsucc : (op.exec ws).succeeded = true := by
        obtain ⟨-, result, hexec, -⟩ := hstep
        rw [hexec]
        rfl
      have hroom : (∀ path data, op ≠ .ws_file_append path data) → σ.HasRoom op := by
        intro happend
        have hallows : σ.Allows op := ⟨reply, σ₁, hp⟩
        have hroom := (succeeded_of_allows hσ hws ho (safe_mode_of_reachable hreach) hallows).mp
          hsucc
        exact (hasRoom_iff hσ hws hallows happend).mp hroom
      have hreach₂ : observedSystem.Reachable ws₂ := hsteps.reachable (hrest.reachable hreach₁)
      obtain ⟨ws'', hlast, h''⟩ := undo_step (workspace_of_observed hreach₂) h₂
        (hσ.bounded hws.sound.tree) hp hroom hback
      refine ⟨ws'', ?_, h''⟩
      rw [List.map_append]
      exact hsteps.append (System.Steps.cons _ _ hlast (System.Steps.nil ws''))

/-- Runs of which every step can be taken back where it is taken. -/
def undoableSystem : System Workspace (WsOp × Option Reply) where
  init := WorkspaceInitialised
  step := fun ws label ws' =>
    observedSystem.step ws label ws' ∧ ∀ σ, Abstracts ws σ → σ.CanUndo label

/-- Runs of such operations are runs. -/
theorem observed_of_undoable {trace : List (WsOp × Option Reply)}
    (h : undoableSystem.Steps ws trace ws') : observedSystem.Steps ws trace ws' := by
  induction h with
  | nil ws => exact System.Steps.nil ws
  | cons label trace hstep _ ih => exact System.Steps.cons label trace hstep.1 ih

/-- A run has operations that undo it. -/
theorem exists_undos {trace : List (WsOp × Option Reply)} (h : observedSystem.Reachable ws)
    (hσ : Abstracts ws σ) (hrun : undoableSystem.Steps ws trace ws') :
    ∃ undos σ', Abstracts ws' σ' ∧ σ.RunUndoneBy trace undos σ' := by
  induction hrun generalizing σ with
  | nil ws => exact ⟨[], σ, hσ, .nil σ⟩
  | @cons ws ws₁ ws' label trace hstep _ ih =>
    obtain ⟨hobs, hcan⟩ := hstep
    have hcan := hcan σ hσ
    have h₁ := h.step _ hobs
    obtain ⟨τ, hspec, hτ⟩ := exists_specified_step h hσ hobs
    obtain ⟨undos, σ', hσ', hundos⟩ := ih h₁ hτ
    obtain ⟨op, reply⟩ := label
    cases reply with
    | none =>
      -- a refused operation has changed nothing
      have hidle : ∀ τ, fileSystem.step σ (op, none) τ → τ = σ := by
        rintro τ (hsame | ⟨path, l, hop, -⟩)
        · exact hsame
        · exact absurd hop (hcan path)
      rw [hidle τ hspec] at hundos
      exact ⟨undos, σ', hσ', .idle hidle hundos⟩
    | some reply =>
      have hbounded := hσ.bounded (workspaceSystem_sound (workspace_of_observed h)).sound.tree
      have hbounded₁ := hτ.bounded (workspaceSystem_sound (workspace_of_observed h₁)).sound.tree
      rcases FileSystem.exists_undo hbounded hbounded₁ hspec hcan with ⟨undo, hundo⟩ | rfl
      · exact ⟨_, σ', hσ', .cons hspec hundo hundos⟩
      · refine ⟨undos, σ', hσ', .idle ?_ hundos⟩
        exact fun τ' hτ' => FileSystem.performs_unique hτ' hspec

/-- **Runs can be undone.** A run from a reachable state whose steps can be taken back has
    operations that undo it from its end to its start. They are all accepted, whatever slots
    and chunks are in use, and then the file system is what it was before the run. -/
theorem workspace_undoes {trace : List (WsOp × Option Reply)} (h : observedSystem.Reachable ws)
    (hσ : Abstracts ws σ) (hrun : undoableSystem.Steps ws trace ws') :
    ∃ undos σ' ws'', Abstracts ws' σ' ∧ σ.RunUndoneBy trace undos σ' ∧
      observedSystem.Steps ws' (undos.map fun op => (op, some .done)) ws'' ∧
      Abstracts ws'' σ := by
  obtain ⟨undos, σ', hσ', hundos⟩ := exists_undos h hσ hrun
  obtain ⟨ws'', hsteps, h''⟩ := run_undone h hσ (observed_of_undoable hrun) hundos
  exact ⟨undos, σ', ws'', hσ', hundos, hsteps, h''⟩

/-- A folder is created and renamed; there are operations that take this back. -/
theorem workspace_undoes_run :
    ∃ ws ws' undos σ' ws'', workspaceSystem.Reachable ws ∧
      undoableSystem.Steps ws [(.ws_create_folder (.ofBytes (ascii "a")), some .done),
        (.ws_rename_node (.ofBytes (ascii "/a")) (.ofBytes (ascii "b")), some .done)] ws' ∧
      Abstracts ws FileSystem.fresh ∧ Abstracts ws' σ' ∧
      FileSystem.fresh.RunUndoneBy
        [(.ws_create_folder (.ofBytes (ascii "a")), some .done),
          (.ws_rename_node (.ofBytes (ascii "/a")) (.ofBytes (ascii "b")), some .done)] undos σ' ∧
      observedSystem.Steps ws' (undos.map fun op => (op, some .done)) ws'' ∧
      Abstracts ws'' FileSystem.fresh := by
  have hstart : ∃ ws, (workspace_start (fun _ => 0) (fun _ => false) CHUNKS_AMOUNT
      Workspace.zeroed).final = some ws ∧
      ((WsOp.exec (.ws_create_folder (.ofBytes (ascii "a"))) >>= fun _ =>
        WsOp.exec (.ws_rename_node (.ofBytes (ascii "/a")) (.ofBytes (ascii "b"))))
          ws).succeeded = true := by
    refine exists_of_run
      (Q := fun ws => ((WsOp.exec (.ws_create_folder (.ofBytes (ascii "a"))) >>= fun _ =>
        WsOp.exec (.ws_rename_node (.ofBytes (ascii "/a")) (.ofBytes (ascii "b"))))
          ws).succeeded = true)
      (by decide +kernel) fun ws _ hQ => hQ
  obtain ⟨ws, hws, hsucc⟩ := hstart
  have hinit := workspaceInitialised_of_start hws
  have hreach : observedSystem.Reachable ws := System.Reachable.init hinit
  obtain ⟨result, ws₂, hboth⟩ := exists_of_succeeded hsucc
  obtain ⟨result₁, ws₁, hfirst, hsecond⟩ := exists_of_bind hboth
  have hstep₁ := observed_done (.ws_create_folder (.ofBytes (ascii "a"))) trivial rfl hfirst
  have hstep₂ := observed_done (.ws_rename_node (.ofBytes (ascii "/a")) (.ofBytes (ascii "b")))
    trivial rfl hsecond
  -- both names are short
  have hcan₁ : ∀ σ : FileSystem,
      σ.CanUndo (.ws_create_folder (.ofBytes (ascii "a")), some .done) :=
    fun _ => (by decide : (CString.ofBytes (ascii "a")).chars.length < MAX_NAME_LENGTH)
  have hcan₂ : ∀ σ : FileSystem, σ.CanUndo
      (.ws_rename_node (.ofBytes (ascii "/a")) (.ofBytes (ascii "b")), some .done) := by
    intro σ k x htarget
    have hpath : σ.target (.ofBytes (ascii "/a")) = some ([] ++ [ascii "a"]) := rfl
    rw [hpath, Option.some.injEq] at htarget
    obtain ⟨rfl, -⟩ := List.append_inj' htarget rfl
    exact ⟨by decide, by decide⟩
  have hsteps := @System.Steps.cons _ _ undoableSystem _ _ _ _ _ ⟨hstep₁, fun σ _ => hcan₁ σ⟩
    (System.Steps.cons _ _ ⟨hstep₂, fun σ _ => hcan₂ σ⟩ (System.Steps.nil ws₂))
  have hσ := (FreshWorkspace.of_init hinit).abstracts
  obtain ⟨undos, σ', ws'', hσ', hundos, hback, h''⟩ := workspace_undoes hreach hσ hsteps
  exact ⟨ws, ws₂, undos, σ', ws'', workspace_of_observed hreach, hsteps, hσ, hσ', hundos, hback,
    h''⟩

end VirtualFS
