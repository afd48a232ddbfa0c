import VirtualFS.Store.Reachable

/-! # Moving Folders

    When `move_folder` succeeds. The guard against cycles visits the folders
    below the one that is moved, at most `MAX_FOLDER_DEPTH` levels of them;
    it does not visit files. It never lets a cycle through, so no sequence of
    moves detaches an entry from the root.

    * `MovableTo`: the four conditions of a successful move.
    * `move_folder_exact`: success, and the tree after any sequence of moves.
    * `move_folder_over_deep_file`: a file deeper than the limit stops no move.
-/

namespace VirtualFS

open Framework Prog Outcome ParentMap VFSEntryStore

variable {es es' es₁ : VFSEntryStore} {n : VFSNode} {d p : FolderRef}

/-! ## Section 1: The condition -/

/-- What has to hold for the folder `d` to be moved under `p`. -/
structure MovableTo (es : VFSEntryStore) (d p : FolderRef) : Prop where
  name_new : ∀ m ∈ es.children p, es.nameOf m ≠ es.nameOf (.folder d)
  not_below : ¬ Below es.tree (.folder d) (.folder p)
  /-- No folder lies `MAX_FOLDER_DEPTH` or more levels below `d`. -/
  shallow : ∀ e l, PathFrom es.tree (.folder d) (.folder e) l → l.length < MAX_FOLDER_DEPTH
  vacant : ∃ i, i < MAX_SUB_FOLDERS_AMOUNT ∧ (es.folderAt p).sub_folders i = none

/-- The checks of the code, in terms of the tree. -/
theorem move_folder_checks_iff (ht : FolderTree es) (hd : es.committed (.folder d)) :
    move_folder_checks es d p ↔ MovableTo es d p := by
  have hok : NameAcceptable (es.folderAt d).name.str := ht.names_acceptable _ hd
  have hlen : (es.folderAt d).name.str.length ≤ MAX_NAME_LENGTH :=
    Nat.le_of_lt_succ (CharBuf.length_str_lt (ht.names_terminated _ hd))
  unfold move_folder_checks
  rw [validate_sub_entry_name_ok_iff, validate_no_cyclic_move_ok_iff ht hd.live,
    available_sub_folder_iff]
  constructor
  · intro ⟨⟨_, _, hnew⟩, ⟨hfits, hbelow⟩, hvacant⟩
    exact ⟨hnew, hbelow, hfits, hvacant⟩
  · intro h
    exact ⟨⟨hok, hlen, h.name_new⟩, ⟨h.shallow, h.not_below⟩, h.vacant⟩

/-- A move succeeds exactly under the four conditions. -/
theorem move_folder_succeeds_iff (ht : FolderTree es) (hd : es.committed (.folder d))
    (hp : es.live p) : (move_folder d p es).succeeded = true ↔ MovableTo es d p := by
  rw [← move_folder_checks_iff ht hd]
  have hsat := move_folder_sat ht hd hp
  generalize move_folder d p es = o at hsat
  match o, hsat with
  | .ok _ _, h => exact ⟨fun _ => h.1, fun _ => rfl⟩
  | .fail _ _, h =>
    exact ⟨fun hsucc => absurd hsucc Bool.false_ne_true, fun hchecks => absurd hchecks h.2⟩

/-! ## Section 2: Sequences of moves -/

/-- Any number of moves of folders under folders, whether they succeed or not. -/
inductive MoveRun (es : VFSEntryStore) : VFSEntryStore → Prop where
  | refl : MoveRun es es
  | move : ∀ {es₁ es' : VFSEntryStore} (d p : FolderRef), MoveRun es es₁ →
             es₁.committed (.folder d) → es₁.live p →
             (move_folder d p es₁).final = some es' → MoveRun es es'

/-- One move keeps the tree and the committed entries. -/
theorem move_folder_keeps (ht : FolderTree es) (hd : es.committed (.folder d)) (hp : es.live p)
    (h : (move_folder d p es).final = some es') :
    FolderTree es' ∧ ∀ n, es'.committed n ↔ es.committed n := by
  have hsat := move_folder_sat ht hd hp
  generalize move_folder d p es = o at hsat h
  match o, hsat with
  | .ok _ _, hok =>
    cases h
    refine ⟨hok.2.1.folderTree ht, fun n => ?_⟩
    rw [hok.2.1.put.committed_iff]
    exact or_iff_left_of_imp fun hn => hn ▸ hd
  | .fail _ _, hfail =>
    cases h
    rw [hfail.1]
    exact ⟨ht, fun _ => Iff.rfl⟩

/-- No sequence of moves breaks the tree or loses a node. -/
theorem MoveRun.keeps (h : MoveRun es es') (ht : FolderTree es) :
    FolderTree es' ∧ ∀ n, es'.committed n ↔ es.committed n := by
  -- On the run; a move keeps the tree and the set of its nodes.
  induction h with
  | refl => exact ⟨ht, fun _ => Iff.rfl⟩
  | move d p _ hd hp hmove ih =>
    obtain ⟨ht', hcomm⟩ := move_folder_keeps ih.1 hd hp hmove
    exact ⟨ht', fun n => (hcomm n).trans (ih.2 n)⟩

/-! ## Section 3: The guard -/

/-- **The guard against cycles is exact** on folders, and after any sequence of moves every
    entry still hangs from the root. -/
theorem move_folder_exact (ht : FolderTree es) (hd : es.committed (.folder d))
    (hp : es.live p) :
    ((move_folder d p es).succeeded = true ↔
      (∀ m ∈ es.children p, es.nameOf m ≠ es.nameOf (.folder d)) ∧
      ¬ Below es.tree (.folder d) (.folder p) ∧
      (∀ e l, PathFrom es.tree (.folder d) (.folder e) l → l.length < MAX_FOLDER_DEPTH) ∧
      ∃ i, i < MAX_SUB_FOLDERS_AMOUNT ∧ (es.folderAt p).sub_folders i = none) ∧
    ∀ es', MoveRun es es' → FolderTree es' ∧
      ∀ n, es.committed n → es'.committed n ∧ Below es'.tree (.folder .root) n := by
  constructor
  · rw [move_folder_succeeds_iff ht hd hp]
    exact ⟨fun h => ⟨h.name_new, h.not_below, h.shallow, h.vacant⟩,
      fun ⟨h₁, h₂, h₃, h₄⟩ => ⟨h₁, h₂, h₃, h₄⟩⟩
  · intro es' hrun
    obtain ⟨ht', hcomm⟩ := hrun.keeps ht
    refine ⟨ht', fun n hn => ?_⟩
    have hn' : es'.committed n := (hcomm n).mpr hn
    exact ⟨hn', ht'.rooted n hn'⟩

/-- A folder with another one in it moves under a third. -/
theorem move_folder_exact_run :
    ∃ s, runStore
      [.vfs_sub_folder_init [97] .root, .vfs_sub_folder_init [98] (.slot 0),
        .vfs_sub_folder_init [99] .root] = some s ∧
      (((move_folder (.slot 0) (.slot 2) s.entry_store).succeeded = true ↔
        (∀ m ∈ s.entry_store.children (.slot 2),
          s.entry_store.nameOf m ≠ s.entry_store.nameOf (.folder (.slot 0))) ∧
        ¬ Below s.entry_store.tree (.folder (.slot 0)) (.folder (.slot 2)) ∧
        (∀ e l, PathFrom s.entry_store.tree (.folder (.slot 0)) (.folder e) l →
          l.length < MAX_FOLDER_DEPTH) ∧
        ∃ i, i < MAX_SUB_FOLDERS_AMOUNT ∧
          (s.entry_store.folderAt (.slot 2)).sub_folders i = none) ∧
      ∀ es', MoveRun s.entry_store es' → FolderTree es' ∧
        ∀ n, s.entry_store.committed n → es'.committed n ∧ Below es'.tree (.folder .root) n) := by
  refine exists_of_run
    (Q := fun s => s.entry_store.committed (.folder (.slot 0)) ∧
      s.entry_store.committed (.folder (.slot 2))) (by decide +kernel) fun s hs hQ => ?_
  have ht := folderTree_of_runStore hs
  exact move_folder_exact ht hQ.1 hQ.2.live

/-- Ten folders one in the other and a file in the last of them, ten levels below the first,
    which moves all the same. -/
theorem move_folder_over_deep_file :
    ∃ s, runStore
      [.vfs_sub_folder_init [97] .root, .vfs_sub_folder_init [97] (.slot 0),
        .vfs_sub_folder_init [97] (.slot 1), .vfs_sub_folder_init [97] (.slot 2),
        .vfs_sub_folder_init [97] (.slot 3), .vfs_sub_folder_init [97] (.slot 4),
        .vfs_sub_folder_init [97] (.slot 5), .vfs_sub_folder_init [97] (.slot 6),
        .vfs_sub_folder_init [97] (.slot 7), .vfs_sub_folder_init [97] (.slot 8),
        .vfs_sub_file_init [97] (.slot 9), .vfs_sub_folder_init [98] .root] = some s ∧
      FolderTree s.entry_store ∧ s.entry_store.committed (.folder (.slot 0)) ∧
      s.entry_store.live (.slot 10) ∧
      (move_folder (.slot 0) (.slot 10) s.entry_store).succeeded = true ∧
      ∃ l, PathFrom s.entry_store.tree (.folder (.slot 0)) (.file 0) l ∧
        MAX_FOLDER_DEPTH ≤ l.length := by
  refine exists_of_run
    (Q := fun s => s.entry_store.committed (.folder (.slot 0)) ∧
      s.entry_store.live (.slot 10) ∧
      (move_folder (.slot 0) (.slot 10) s.entry_store).succeeded = true ∧
      s.entry_store.tree (.file 0) = some (.folder (.slot 9), [97]) ∧
      ∀ i, i < 9 →
        s.entry_store.tree (.folder (.slot (i + 1))) = some (.folder (.slot i), [97]))
    (by decide +kernel) fun s hs hQ => ?_
  obtain ⟨hd, hp, hsucc, hfile, hfolders⟩ := hQ
  have ht := folderTree_of_runStore hs
  -- one label for every folder on the way down
  have hpath : ∀ i, i ≤ 9 → ∃ l, l.length = i ∧
      PathFrom s.entry_store.tree (.folder (.slot 0)) (.folder (.slot i)) l := by
    intro i hi
    induction i with
    | zero => exact ⟨[], rfl, PathFrom.nil⟩
    | succ i ih =>
      obtain ⟨l, hlen, hl⟩ := ih (by omega)
      exact ⟨l ++ [[97]], by simp [hlen], PathFrom.child (hfolders i (by omega)) hl⟩
  obtain ⟨l, hlen, hl⟩ := hpath 9 (Nat.le_refl 9)
  refine ⟨ht, hd, hp, hsucc, l ++ [[97]], PathFrom.child hfile hl, ?_⟩
  rw [List.length_append, hlen]
  decide

end VirtualFS
