import VirtualFS.Paths.RoundTrip
import VirtualFS.Store.Views
import VirtualFS.Workspace.System

/-! # Truncated Paths

    `truncate_path` cuts the last name off a path in its buffer. Cut off the
    printed path of an entry it leaves a path of the folder of the entry. For
    entries of the root nothing is left, and the empty path is the root.

    * `truncate_path_run`: what is cut off a path in a buffer.
    * `truncate_path_parent`: for the printed path of an entry it is the path of
      the parent folder, and it resolves to that folder.
-/

namespace VirtualFS

open Framework Prog Outcome ParentMap VFSEntryStore

variable {ws : Workspace} {n : VFSNode} {p : FolderRef} {l : List (List Byte)}
  {front name rest : List Byte} {k i : Nat}

/-! ## Section 1: The loop -/

/-- One character becomes a terminator. -/
theorem clear_char_run {b : CharBuf k} {c : Byte} (hb : b.bytes = front ++ c :: rest) :
    ∃ b', clear_char front.length b = .ok () b' ∧ b'.bytes = front ++ 0 :: rest := by
  have hroom : front.length + [(0 : Byte)].length ≤ k := by
    rw [← b.size_eq, hb]
    simp only [List.length_append, List.length_cons, List.length_nil]
    omega
  obtain ⟨b', hwrite⟩ := CharBuf.write_isSome hroom
  refine ⟨b', ?_, ?_⟩
  · unfold clear_char
    rw [bind_run, readState_run, bind_ok, hwrite]
    rfl
  · rw [CharBuf.bytes_of_write hwrite, hb]
    simp [List.drop_append]

/-- One round: the loop ends at the delimiter that it has cleared. -/
theorem truncate_path_loop_step {b : CharBuf k} {c : Byte} (hb : b.bytes = front ++ c :: rest) :
    ∃ b', b'.bytes = front ++ 0 :: rest ∧ truncate_path_loop front.length b =
      if c = PATH_DELIMITER ∨ front = [] then .ok () b'
      else truncate_path_loop (front.length - 1) b' := by
  obtain ⟨b', hclear, hb'⟩ := clear_char_run hb
  refine ⟨b', hb', ?_⟩
  have hc : b.bytes[front.length]? = some c := by
    rw [hb, List.getElem?_append_right (Nat.le_refl _), Nat.sub_self]
    rfl
  cases hlen : front.length with
  | zero =>
    rw [hlen] at hclear
    rw [if_pos (Or.inr (List.length_eq_zero_iff.mp hlen))]
    exact hclear
  | succ i =>
    have hne : front ≠ [] := by
      rintro rfl
      cases hlen
    rw [hlen] at hclear hc
    rw [truncate_path_loop, bind_run, readState_run, bind_ok, bind_run, hclear, bind_ok]
    simp only [hc, Option.some.injEq, hne, or_false, Nat.add_sub_cancel]
    split
    · rfl
    · rfl

/-- The last name and the delimiter in front of it are overwritten. -/
theorem truncate_path_loop_run (hname : PATH_DELIMITER ∉ name) {b : CharBuf k}
    (hb : b.bytes = front ++ PATH_DELIMITER :: name ++ rest) :
    ∃ b', truncate_path_loop (front.length + name.length) b = .ok () b' ∧
      b'.bytes = front ++ List.replicate (name.length + 1) 0 ++ rest := by
  -- The loop runs from the end of the path: the last character of the name goes first.
  induction name using List.reverseRecOn generalizing b rest with
  | nil =>
    have hb₁ : b.bytes = front ++ PATH_DELIMITER :: rest := by simpa using hb
    obtain ⟨b', hb', hrun⟩ := truncate_path_loop_step hb₁
    rw [if_pos (Or.inl rfl)] at hrun
    exact ⟨b', hrun, by simpa using hb'⟩
  | append_singleton name c ih =>
    have hc : c ≠ PATH_DELIMITER := by
      rintro rfl
      exact hname (List.mem_append_right _ (List.mem_singleton_self _))
    have hb₁ : b.bytes = (front ++ PATH_DELIMITER :: name) ++ c :: rest := by simpa using hb
    obtain ⟨b', hb', hrun⟩ := truncate_path_loop_step hb₁
    rw [if_neg (by simp [hc]), List.length_append, List.length_cons] at hrun
    obtain ⟨b'', hrun', hb''⟩ := ih (fun h => hname (List.mem_append_left _ h)) hb'
    refine ⟨b'', ?_, ?_⟩
    · rw [List.length_append, List.length_singleton, ← hrun']
      exact hrun
    · rw [hb'', List.length_append, List.length_singleton,
        List.replicate_succ' (n := name.length + 1)]
      simp only [List.append_assoc, List.singleton_append]

/-! ## Section 2: Strings -/

/-- The string in front of the last delimiter is left. -/
theorem truncate_path_run (hname : PATH_DELIMITER ∉ name) {b : CharBuf k}
    (hstr : b.str = front ++ PATH_DELIMITER :: name) :
    ∃ b', truncate_path b.str.length b = .ok () b' ∧ b'.str = front ∧ b'.Terminated := by
  have hnul : (0 : Byte) ∉ front := fun h0 =>
    b.nul_not_mem_str (hstr ▸ List.mem_append_left _ h0)
  have hb : b.bytes = b.str ++ b.bytes.dropWhile (· ≠ 0) := List.takeWhile_append_dropWhile.symm
  rw [hstr] at hb
  obtain ⟨b', hrun, hb'⟩ := truncate_path_loop_run hname hb
  have hlen : b.str.length - 1 = front.length + name.length := by
    rw [hstr, List.length_append, List.length_cons]
    rfl
  have hne : ¬ b.str.length = 0 := by
    rw [hstr, List.length_append, List.length_cons]
    omega
  have hstart : b'.StartsWith (front ++ [0]) := by
    refine ⟨List.replicate name.length 0 ++ b.bytes.dropWhile (· ≠ 0), ?_⟩
    rw [hb', List.replicate_succ]
    simp only [List.append_assoc, List.cons_append, List.nil_append]
  refine ⟨b', ?_, hstart.str_eq hnul⟩
  unfold truncate_path
  rw [if_neg hne, hlen, hrun]

/-! ## Section 3: Printed paths -/

/-- The empty path is a path of the root, as `"/"` is. -/
theorem ws_resolve_path_empty {path : CString} (h : path.chars = []) :
    ws_resolve_path ws path = .ok (.folder .root) := by
  unfold ws_resolve_path
  rw [h]

/-- **From an entry to its folder.** In every state that a run can reach, truncating the
    printed path of an entry leaves the printed path of its parent, or the empty path for
    the root. It resolves to the parent if the names on it are short enough to be parsed. -/
theorem truncate_path_parent (h : workspaceSystem.Reachable ws)
    (hn : ws.entry_store.committed n) (hp : ws.entry_store.parentOf n = some p)
    {b b' : CharBuf PATH_BUFFER_LENGTH}
    (hprint : get_node_path ws.entry_store n b = .ok () b') :
    ∃ b'', truncate_path b'.str.length b' = .ok () b'' ∧
      (if p = .root then b''.str = []
        else ∃ b₁, get_node_path ws.entry_store (.folder p) b = .ok () b₁ ∧ b''.str = b₁.str) ∧
      ((∀ l, ws.entry_store.PathTo (.folder p) l → ∀ x ∈ l, x.length < MAX_NAME_LENGTH) →
        ws_resolve_path ws b''.toCString = .ok (.folder p)) := by
  have ht := (workspaceSystem_sound h).sound.tree
  obtain ⟨l, hl⟩ := ht.exists_path (ht.parent_live hn hp)
  have hpath : ws.entry_store.PathTo n (l ++ [ws.entry_store.nameOf n]) :=
    hl.child (tree_of_committed hn hp)
  obtain ⟨hlen, hstr, -⟩ := get_node_path_ok ht hpath hprint
  rw [List.length_append, List.length_singleton] at hlen
  have hsplit : b'.str = absolutePath l ++ PATH_DELIMITER :: ws.entry_store.nameOf n := by
    rw [hstr, pathString, if_neg (by simp), absolutePath_append, absolutePath_cons,
      absolutePath_nil, List.append_nil]
  obtain ⟨b'', hrun, hstr', -⟩ := truncate_path_run (ht.names_acceptable n hn).no_delimiter hsplit
  refine ⟨b'', hrun, ?_⟩
  by_cases hroot : p = .root
  · subst hroot
    obtain rfl : l = [] := hl.unique tree_root PathFrom.nil
    rw [if_pos rfl]
    exact ⟨hstr', fun _ => ws_resolve_path_empty hstr'⟩
  · have hne : l ≠ [] := by
      rintro rfl
      exact hroot (VFSNode.folder.inj (ht.wellFormed.path_inj hl PathFrom.nil))
    have hprinted : pathString l = absolutePath l := if_neg hne
    obtain ⟨b₁, hb₁, hstr₁, -⟩ := get_node_path_run ht hl (by omega) b
    rw [if_neg hroot]
    refine ⟨⟨b₁, hb₁, by rw [hstr', hstr₁, hprinted]⟩, fun hshort => ?_⟩
    apply ws_resolve_pathString ht hl (by omega) (hshort l hl)
    rw [hprinted]
    exact hstr'

/-- The path of a file in a folder of the root. -/
theorem truncate_path_parent_run :
    ∃ ws, runWorkspace (fun _ _ => True) [.ws_create_folder (.ofBytes (ascii "a")),
        .ws_change_cur_folder (.ofBytes (ascii "a")), .ws_create_file (.ofBytes (ascii "f"))] =
          some ws ∧
      ∃ b' b'' : CharBuf PATH_BUFFER_LENGTH,
        get_node_path ws.entry_store (.file 0) (CharBuf.zeroed _) = .ok () b' ∧
        truncate_path b'.str.length b' = .ok () b'' ∧
        ws_resolve_path ws b''.toCString = .ok (.folder (.slot 0)) := by
  refine exists_of_run
    (Q := fun ws => ws.entry_store.committed (.file 0) ∧
      ws.entry_store.parentOf (.file 0) = some (.slot 0) ∧
      (get_node_path ws.entry_store (.file 0) (CharBuf.zeroed PATH_BUFFER_LENGTH)).succeeded =
        true ∧
      (∀ i < VFS_MAX_FILES_AMOUNT, ws.entry_store.files_allocation_map i = true →
        (ws.entry_store.nameOf (.file i)).length < MAX_NAME_LENGTH) ∧
      ∀ i < VFS_MAX_FOLDERS_AMOUNT, ws.entry_store.folders_allocation_map i = true →
        (ws.entry_store.nameOf (.folder (.slot i))).length < MAX_NAME_LENGTH)
    (by decide +kernel) fun ws hrun hfacts => ?_
  obtain ⟨hn, hp, hprints, hfiles, hfolders⟩ := hfacts
  obtain ⟨⟨⟩, b', hb'⟩ := exists_of_succeeded hprints
  obtain ⟨b'', hrun', -, hresolve⟩ :=
    truncate_path_parent (reachable_of_runWorkspace hrun) hn hp hb'
  refine ⟨b', b'', hb', hrun', hresolve ?_⟩
  intro l hl x hx
  obtain ⟨m, hm, rfl⟩ := exists_named _ hl x hx
  cases m with
  | file i => exact hfiles i hm.1 hm.2
  | folder r =>
    cases r with
    | root => exact hm.elim
    | slot i => exact hfolders i hm.1 hm.2

end VirtualFS
