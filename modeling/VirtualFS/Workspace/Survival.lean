import VirtualFS.Workspace.Refinement

/-! # What Becomes of an Entry

    Runs move entries about, in folders and under names that change. An entry
    keeps its kind and its data all the same, until a step is aimed at it where
    it then is, or at a folder that it is in.

    * `FileSystem.follow`: where an entry is after a step.
    * `FileSystem.item_follow`: a step that is aimed elsewhere keeps the entry.
    * `entry_survives`: the same for runs.

    The induction is on the run. Where an entry is after a step is a function of
    the specification's state and the step, so the entry has one place at a time.
-/

namespace VirtualFS

open Framework Prog Outcome

variable {ws ws' ws'' : Workspace} {σ σ' : FileSystem} {l k k' : List (List Byte)} {x : List Byte}
  {v : Item (List Byte)} {op : WsOp} {reply : Reply} {step : WsOp × Option Reply}
  {trace : List (WsOp × Option Reply)}

/-! ## Section 1: Steps -/

namespace FileSystem

/-- Where the entry at `k` is after a step: what is below a moved entry goes along. -/
def follow (σ : FileSystem) : WsOp × Option Reply → List (List Byte) → List (List Byte)
  | (.ws_move_node path parent_path, some _), k =>
    match σ.target path with
    | some old =>
      match σ.target parent_path with
      | some l => PathMap.reroot old (l ++ old.getLast?.toList) k
      | none => k
    | none => k
  | (.ws_rename_node path name, some _), k =>
    match σ.target path with
    | some old => PathMap.reroot old (old.dropLast ++ [name.chars]) k
    | none => k
  | _, k => k

/-- The step is aimed at the entry at `k`, or at a folder that it is in. A recursive removal
    may do harm though it fails. -/
def Touches (σ : FileSystem) : WsOp × Option Reply → List (List Byte) → Prop
  | (.ws_remove_file path, some _), k => σ.target path = some k
  | (.ws_remove_folder path recursive, answer), k =>
    (recursive = true ∨ answer ≠ none) ∧ ∃ l, σ.target path = some l ∧ l <+: k
  | (.ws_file_append path _, some _), k => σ.target path = some k
  | (.ws_file_clear path, some _), k => σ.target path = some k
  | (.ws_file_truncate path _, some _), k => σ.target path = some k
  | _, _ => False

/-- Writing to another file keeps the entry. -/
theorem item_written {d : List Byte} (h : σ.Writes l d σ') (hitem : σ.tree.item k = some v)
    (hne : l ≠ k) : σ'.tree.item k = some v := by
  obtain ⟨-, heq⟩ := FileTree.write_eq_some.mp h.1
  rw [heq, Function.update_of_ne hne.symm]
  exact hitem

/-- A new entry is at a path that was free. -/
theorem item_created {w : Item (List Byte)} (h : σ.Creates l x w σ')
    (hitem : σ.tree.item k = some v) : σ'.tree.item k = some v := by
  obtain ⟨-, hfree, heq⟩ := FileTree.create_eq_some.mp h.2.1
  rw [heq, Function.update_of_ne]
  · exact hitem
  · rintro rfl
    rw [hfree] at hitem
    cases hitem

/-- Removing something that is not above the entry keeps it. -/
theorem item_left (h : σ.Removes l σ') (hitem : σ.tree.item k = some v) (hpre : ¬ l <+: k) :
    σ'.tree.item k = some v := by
  obtain ⟨-, -, heq⟩ := FileTree.remove_eq_some.mp h.1
  rw [heq, PathMap.prune_of_not hpre]
  exact hitem

/-- A relocation takes the entry along, or leaves it where it is. -/
theorem item_relocated {old : List (List Byte)} (h : σ.Relocates old l x σ')
    (hitem : σ.tree.item k = some v) :
    σ'.tree.item (PathMap.reroot old (l ++ [x]) k) = some v := by
  rw [FileTree.item_reroot h.2.1 (by rw [hitem]; rfl)]
  exact hitem

/-- Below a file there is nothing. -/
theorem eq_of_prefix_file {d : List Byte} (hfile : σ.tree.item l = some (.file d))
    (hitem : σ.tree.item k = some v) (hpre : l <+: k) : l = k := by
  obtain ⟨s, rfl⟩ := hpre
  by_contra hne
  have hs : s ≠ [] := by
    rintro rfl
    exact hne (List.append_nil l).symm
  rw [FileTree.folder_of_isSome (by rw [hitem]; rfl) hs] at hfile
  cases hfile

/-- What is performed keeps the entry where it takes it. -/
theorem item_performed (h : σ.Performs op reply σ') (hitem : σ.tree.item k = some v)
    (hnot : ¬ σ.Touches (op, some reply) k) :
    σ'.tree.item (σ.follow (op, some reply) k) = some v := by
  -- By what the operation does to the tree: adds an item, takes one away, relocates one, writes
  -- one, or nothing.
  cases op with
  | ws_create_file name | ws_create_folder name =>
    obtain ⟨-, l, -, hcreates⟩ := h
    exact item_created hcreates hitem
  | ws_remove_file path =>
    obtain ⟨-, l, d, htarget, hfile, hremoves⟩ := h
    apply item_left hremoves hitem
    intro hpre
    rw [eq_of_prefix_file hfile hitem hpre] at htarget
    exact hnot htarget
  | ws_remove_folder path recursive =>
    obtain ⟨-, l, htarget, -, -, hremoves⟩ := h
    apply item_left hremoves hitem
    exact fun hpre => hnot ⟨Or.inr (Option.some_ne_none _), l, htarget, hpre⟩
  | ws_move_node path parent_path =>
    obtain ⟨-, j, x, l, htarget, hparent, hrelocates⟩ := h
    have hfollow : σ.follow (.ws_move_node path parent_path, some reply) k =
        PathMap.reroot (j ++ [x]) (l ++ [x]) k := by
      simp [follow, htarget, hparent]
    rw [hfollow]
    exact item_relocated hrelocates hitem
  | ws_rename_node path name =>
    obtain ⟨-, j, x, htarget, hrelocates⟩ := h
    have hfollow : σ.follow (.ws_rename_node path name, some reply) k =
        PathMap.reroot (j ++ [x]) (j ++ [name.chars]) k := by
      simp [follow, htarget]
    rw [hfollow]
    exact item_relocated hrelocates hitem
  | ws_change_cur_folder path =>
    obtain ⟨-, h⟩ := h
    have htree : σ'.tree = σ.tree := by
      split at h
      · obtain ⟨j, x, -, -, htree, -⟩ := h
        exact htree
      · obtain ⟨j, -, -, htree, -⟩ := h
        exact htree
    rw [htree]
    exact hitem
  | ws_file_append path data =>
    obtain ⟨-, -, l, d, htarget, -, hwrites⟩ := h
    apply item_written hwrites hitem
    rintro rfl
    exact hnot htarget
  | ws_file_clear path =>
    obtain ⟨-, l, d, htarget, -, hwrites⟩ := h
    apply item_written hwrites hitem
    rintro rfl
    exact hnot htarget
  | ws_file_truncate path amount =>
    obtain ⟨-, l, d, htarget, -, -, hwrites⟩ := h
    apply item_written hwrites hitem
    rintro rfl
    exact hnot htarget
  | ws_get_sub_entries path length | ws_global_search_by_name name length
  | ws_file_read_all path size | ws_file_read_at path offset amount size =>
    rw [h.1]
    exact hitem

/-- A refused operation keeps the entry, unless it is a removal aimed at it. -/
theorem item_refused (h : σ.Refuses op σ') (hitem : σ.tree.item k = some v)
    (hnot : ¬ σ.Touches (op, none) k) : σ'.tree.item k = some v := by
  rcases h with rfl | ⟨path, l, rfl, htarget, hpruned, -⟩
  · exact hitem
  · rcases hpruned k with heq | ⟨-, hpre, -⟩
    · rw [heq]
      exact hitem
    · exact absurd ⟨Or.inl rfl, l, htarget, hpre⟩ hnot

/-- **One step**: an entry that the step is not aimed at is kept where the step takes it. -/
theorem item_follow (h : fileSystem.step σ step σ') (hitem : σ.tree.item k = some v)
    (hnot : ¬ σ.Touches step k) : σ'.tree.item (σ.follow step k) = some v := by
  obtain ⟨op, answer⟩ := step
  cases answer with
  | some reply => exact item_performed h hitem hnot
  | none =>
    have hstay : σ.follow (op, none) k = k := by cases op <;> rfl
    rw [hstay]
    exact item_refused h hitem hnot

end FileSystem

/-! ## Section 2: Runs -/

/-- No step of a run is aimed at the entry that is at `k` before it and at `k'` after it. -/
inductive Unharmed : Workspace → List (WsOp × Option Reply) → List (List Byte) →
    Workspace → List (List Byte) → Prop where
  /-- The run is over. -/
  | nil : ∀ ws k, Unharmed ws [] k ws k
  /-- The step spares the entry, whose path is followed. -/
  | cons : ∀ {ws ws' ws'' : Workspace} {σ : FileSystem} {step trace k k'},
             observedSystem.step ws step ws' → Abstracts ws σ → ¬ σ.Touches step k →
               Unharmed ws' trace (σ.follow step k) ws'' k' →
                 Unharmed ws (step :: trace) k ws'' k'

/-- **Entries survive.** In every run an entry keeps its kind and its data wherever it is
    moved, up to the first step that is aimed at it where it then is. -/
theorem entry_survives (hreach : observedSystem.Reachable ws) (hσ : Abstracts ws σ)
    (hσ' : Abstracts ws' σ') (hrun : observedSystem.Steps ws trace ws')
    (hitem : σ.tree.item k = some v) :
    (∃ k', Unharmed ws trace k ws' k' ∧ σ'.tree.item k' = some v) ∨
      ∃ before step after ws₁ σ₁ k₁, trace = before ++ step :: after ∧
        Unharmed ws before k ws₁ k₁ ∧ observedSystem.Steps ws₁ (step :: after) ws' ∧
        Abstracts ws₁ σ₁ ∧ σ₁.tree.item k₁ = some v ∧ σ₁.Touches step k₁ := by
  -- On the run: the first step that touches the entry splits it, otherwise the entry is followed
  -- through.
  induction hrun generalizing σ k with
  | nil ws =>
    rw [hσ.unique hσ']
    exact Or.inl ⟨k, Unharmed.nil ws k, hitem⟩
  | @cons ws ws₂ ws' step trace hstep hrest ih =>
    by_cases htouch : σ.Touches step k
    · exact Or.inr ⟨[], step, trace, ws, σ, k, rfl, Unharmed.nil ws k,
        System.Steps.cons step trace hstep hrest, hσ, hitem, htouch⟩
    obtain ⟨σ₂, hspec, h₂⟩ := exists_specified_step hreach hσ hstep
    have hitem₂ := FileSystem.item_follow hspec hitem htouch
    rcases ih (hreach.step step hstep) h₂ hσ' hitem₂ with
      ⟨k', hrest', hitem'⟩ | ⟨before, step', after, ws₁, σ₁, k₁, rfl, hbefore, hlast⟩
    · exact Or.inl ⟨k', Unharmed.cons hstep hσ htouch hrest', hitem'⟩
    · exact Or.inr ⟨step :: before, step', after, ws₁, σ₁, k₁, rfl,
        Unharmed.cons hstep hσ htouch hbefore, hlast⟩

/-- A file with data goes to another folder, which then gets a new name. -/
theorem entry_survives_run :
    ∃ ws ws' trace σ σ' d, trace.map Prod.fst =
        [.ws_move_node (.ofBytes (ascii "/f")) (.ofBytes (ascii "/a")),
          .ws_rename_node (.ofBytes (ascii "/a")) (.ofBytes (ascii "b"))] ∧
      observedSystem.Reachable ws ∧ Abstracts ws σ ∧ Abstracts ws' σ' ∧
      observedSystem.Steps ws trace ws' ∧ σ.tree.item [ascii "f"] = some (.file d) ∧
      ((∃ k', Unharmed ws trace [ascii "f"] ws' k' ∧ σ'.tree.item k' = some (.file d)) ∨
        ∃ before step after ws₁ σ₁ k₁, trace = before ++ step :: after ∧
          Unharmed ws before [ascii "f"] ws₁ k₁ ∧ observedSystem.Steps ws₁ (step :: after) ws' ∧
          Abstracts ws₁ σ₁ ∧ σ₁.tree.item k₁ = some (.file d) ∧ σ₁.Touches step k₁) := by
  have hstart : ∃ ws, (workspace_start (fun _ => 0) (fun _ => false) CHUNKS_AMOUNT
      Workspace.zeroed).final = some ws ∧ ∃ ws₁, runAll (fun _ _ => True) WsOp.exec
        [.ws_create_folder (.ofBytes (ascii "a")), .ws_create_file (.ofBytes (ascii "f")),
          .ws_file_append (.ofBytes (ascii "f")) [1, 2, 3]] ws = some ws₁ ∧
        ws_resolve_path ws₁ (.ofBytes (ascii "/f")) = .ok (.file 0) ∧
        ∃ ws', runAll (fun _ _ => True) WsOp.exec
          [.ws_move_node (.ofBytes (ascii "/f")) (.ofBytes (ascii "/a")),
            .ws_rename_node (.ofBytes (ascii "/a")) (.ofBytes (ascii "b"))] ws₁ = some ws' := by
    refine exists_of_run
      (Q := fun ws => (runAll (fun _ _ => True) WsOp.exec
        [.ws_create_folder (.ofBytes (ascii "a")), .ws_create_file (.ofBytes (ascii "f")),
          .ws_file_append (.ofBytes (ascii "f")) [1, 2, 3]] ws).any (fun ws₁ =>
            decide (ws_resolve_path ws₁ (.ofBytes (ascii "/f")) = .ok (.file 0)) &&
            (runAll (fun _ _ => True) WsOp.exec
              [.ws_move_node (.ofBytes (ascii "/f")) (.ofBytes (ascii "/a")),
                .ws_rename_node (.ofBytes (ascii "/a")) (.ofBytes (ascii "b"))] ws₁).isSome) =
          true)
      (by decide +kernel) fun ws _ hQ => ?_
    obtain ⟨ws₁, hrun, hboth⟩ := (Option.any_eq_true _ _).mp hQ
    obtain ⟨hres, hsome⟩ := Bool.and_eq_true_iff.mp hboth
    exact ⟨ws₁, hrun, of_decide_eq_true hres, Option.isSome_iff_exists.mp hsome⟩
  obtain ⟨ws₀, hws₀, ws, hbefore, hres, ws', hrun⟩ := hstart
  have hinit := workspaceInitialised_of_start hws₀
  have hsteps₀ : workspaceSystem.Steps ws₀ _ ws := Prog.steps_of_runAll hbefore
  have hsteps : workspaceSystem.Steps ws _ ws' := Prog.steps_of_runAll hrun
  obtain ⟨trace₀, -, hobs₀⟩ :=
    exists_trace hsteps₀ (FreshWorkspace.of_init hinit).workspaceSound (by simp [WsOp.InRange])
  have hreach : observedSystem.Reachable ws := hobs₀.reachable (System.Reachable.init hinit)
  have hws := workspaceSystem_sound (workspace_of_observed hreach)
  obtain ⟨trace, htrace, hobs⟩ := exists_trace hsteps hws (by simp [WsOp.InRange])
  have hws' := workspaceSystem_sound (workspace_of_observed (hobs.reachable hreach))
  obtain ⟨σ, hσ⟩ := exists_abstracts hws
  obtain ⟨σ', hσ'⟩ := exists_abstracts hws'
  obtain ⟨l, htarget, hl⟩ := (hσ.resolve_iff hws).mp hres
  cases htarget
  have hitem := hσ.item_file hws.sound.tree hl
  exact ⟨ws, ws', trace, σ, σ', _, htrace, hreach, hσ, hσ', hobs, hitem,
    entry_survives hreach hσ hσ' hobs hitem⟩

end VirtualFS
