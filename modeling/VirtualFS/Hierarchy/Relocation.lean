import VirtualFS.System.EntryStore
import VirtualFS.Hierarchy.Edits

/-! # Renaming and Moving Entries

    Postconditions for a store that satisfies the folder tree invariant: if
    the checks of the code pass the call is an edit of the tree, otherwise it
    fails and changes nothing. Only renaming a file can run into undefined
    behaviour.

    * `rename_file_sat`, `rename_folder_sat`: renaming. `rename_file_long` is the
      case of a name that leaves no room for the terminator.
    * `move_file_sat`, `move_folder_sat`: moving, with the walk that looks for the
      new parent below the folder in `validate_no_cyclic_move_from_ok_iff`.
    * `VFSEntryStore.fits`: all folders below a folder are above the depth limit.
-/

namespace VirtualFS

open Framework Prog Outcome ParentMap VFSEntryStore

variable {es es' : VFSEntryStore} {n : VFSNode} {f : FileRef} {p q r d : FolderRef}

/-! ## Section 1: Names and slots -/

/-- A name that is shorter than the buffer is copied. -/
theorem set_entry_name_isSome {k : Nat} {name : List Byte} (b : CharBuf k)
    (h : name.length < k) : ∃ b', set_entry_name name b = some b' := by
  apply CharBuf.write_isSome
  have : (cutAtNul name).length ≤ name.length := (List.takeWhile_sublist _).length_le
  simp only [List.length_append, List.length_singleton]
  omega

/-- The buffer then holds the name. -/
theorem set_entry_name_str {k : Nat} {name : List Byte} {b b' : CharBuf k}
    (hname : (0 : Byte) ∉ name) (h : set_entry_name name b = some b') :
    b'.str = name ∧ b'.Terminated := by
  unfold set_entry_name at h
  rw [cutAtNul_of_nul_not_mem hname] at h
  obtain ⟨hstr, hterm⟩ := CharBuf.str_of_write_zero h
  exact ⟨hstr.trans (cutAtNul_of_nul_not_mem hname), hterm⟩

/-- A slot that is returned is vacant. -/
theorem available_sub_file_slot {i : Nat} (h : get_available_sub_file_position es p = .ok i) :
    i < slotsFor (.file f) ∧ es.slotAt p (.file f) i = none := by
  unfold get_available_sub_file_position at h
  split at h
  · next j hj =>
    cases h
    obtain ⟨hi, hv, _⟩ := find_range_some hj
    exact ⟨hi, by simpa [slotAt] using hv⟩
  · cases h

theorem available_sub_folder_slot {i : Nat}
    (h : get_available_sub_folder_position es p = .ok i) :
    i < slotsFor (.folder r) ∧ es.slotAt p (.folder r) i = none := by
  unfold get_available_sub_folder_position at h
  split at h
  · next j hj =>
    cases h
    obtain ⟨hi, hv, _⟩ := find_range_some hj
    exact ⟨hi, by simpa [slotAt] using hv⟩
  · cases h

/-- A slot is available if and only if one is NULL. -/
theorem available_sub_folder_iff (es : VFSEntryStore) (p : FolderRef) :
    (∃ i, get_available_sub_folder_position es p = .ok i) ↔
      ∃ i, i < MAX_SUB_FOLDERS_AMOUNT ∧ (es.folderAt p).sub_folders i = none := by
  constructor
  · intro ⟨i, hi⟩
    obtain ⟨hlt, hslot⟩ := available_sub_folder_slot (r := .root) hi
    exact ⟨i, hlt, Option.map_eq_none_iff.mp hslot⟩
  · intro ⟨i, hi, hslot⟩
    obtain ⟨j, hj⟩ := find_range_isSome (p := fun k => ((es.folderAt p).sub_folders k).isNone) hi
      (by rw [hslot]; rfl)
    exact ⟨j, by rw [get_available_sub_folder_position, hj]⟩

/-- The slot of a linked file is found. -/
theorem find_sub_file_index_ok (hmem : .file f ∈ es.children q) :
    ∃ j, find_sub_file_index es (some q) f = .ok j ∧ j < slotsFor (.file f) ∧
      es.slotAt q (.file f) j = some (.file f) := by
  obtain ⟨k, hk, hs⟩ := file_mem_children.mp hmem
  obtain ⟨j, hj⟩ := find_range_isSome (p := fun i => (es.folderAt q).sub_files i = some f) hk
    (decide_eq_true hs)
  obtain ⟨hjlt, hjs, _⟩ := find_range_some hj
  refine ⟨j, ?_, hjlt, ?_⟩
  · simp only [find_sub_file_index, hj]
  · simp only [slotAt, of_decide_eq_true hjs, Option.map_some]

/-- The slot of a linked folder is found. -/
theorem find_sub_folder_index_ok (hroot : (es.folderAt d).is_root = false)
    (hq : (es.folderAt d).parent_folder = some q) (hmem : .folder d ∈ es.children q) :
    ∃ j, find_sub_folder_index d es = .ok j es ∧ j < slotsFor (.folder d) ∧
      es.slotAt q (.folder d) j = some (.folder d) := by
  obtain ⟨k, hk, hs⟩ := folder_mem_children.mp hmem
  obtain ⟨j, hj⟩ := find_range_isSome
    (p := fun i => (es.folderAt q).sub_folders i = some d) hk (decide_eq_true hs)
  obtain ⟨hjlt, hjs, _⟩ := find_range_some hj
  refine ⟨j, ?_, hjlt, ?_⟩
  · simp [find_sub_folder_index, hroot, hq, hj]
  · simp only [slotAt, of_decide_eq_true hjs, Option.map_some]

/-! ## Section 2: Unlinking -/

/-- Unlinking a committed file cannot fail. -/
theorem unlink_sub_file_run (ht : FolderTree es) (hf : es.committed (.file f)) :
    ∃ q j, es.parentOf (.file f) = some q ∧ j < slotsFor (.file f) ∧
      es.slotAt q (.file f) j = some (.file f) ∧
      unlink_sub_file f es =
        .ok () ((es.clearSlot q (.file f) j).setParent (.file f) none) := by
  obtain ⟨q, hq, hlive, _⟩ := ht.linked _ hf
  obtain ⟨j, hj, hjlt, hjs⟩ := find_sub_file_index_ok (ht.mem_children_parent hf hq)
  have hq' : (es.files f).parent_folder = some q := hq
  refine ⟨q, j, hq, hjlt, hjs, ?_⟩
  simp [unlink_sub_file, hq', hj, clearSlot, setParent]

/-- Nor can unlinking a committed folder, with `force` or without children. -/
theorem unlink_sub_folder_run (ht : FolderTree es) (hd : es.committed (.folder d))
    (force : Bool) (hforce : force = true ∨ es.children d = []) :
    ∃ q j, es.parentOf (.folder d) = some q ∧ j < slotsFor (.folder d) ∧
      es.slotAt q (.folder d) j = some (.folder d) ∧
      unlink_sub_folder d force es =
        .ok () ((es.clearSlot q (.folder d) j).setParent (.folder d) none) := by
  obtain ⟨q, hq, hlive, _⟩ := ht.linked _ hd
  have hroot : (es.folderAt d).is_root = false := by
    have := (ht.is_root_iff hd.live).not.mpr fun h => hd.ne_root (congrArg _ h)
    simpa using this
  obtain ⟨j, hj, hjlt, hjs⟩ :=
    find_sub_folder_index_ok hroot hq (ht.mem_children_parent hd hq)
  have hq' : (es.folderAt d).parent_folder = some q := hq
  have hflat : ¬ (has_sub_entries (es.folderAt d) ∧ force = false) := by
    intro ⟨hsub, hf⟩
    rcases hforce with h | h
    · rw [hf] at h; cases h
    · exact has_sub_entries_iff.mp hsub h
  refine ⟨q, j, hq, hjlt, hjs, ?_⟩
  simp [unlink_sub_folder, hroot, hflat, hj, hq', clearSlot, setParent]

/-! ## Section 3: Renaming -/

/-- The check of `rename_file` and `rename_folder`. -/
def rename_checks (es : VFSEntryStore) (n : VFSNode) (name : List Byte) : Prop :=
  ∃ p, es.parentOf n = some p ∧ validate_sub_entry_name es p name = .ok ()

/-- The checks have failed, for they are made in the folder of the node. -/
theorem not_rename_checks {name : List Byte} {e : StatusCode} (hp : es.parentOf n = some p)
    (hv : validate_sub_entry_name es p name = .error e) : ¬ rename_checks es n name := by
  intro ⟨p', hp', hv'⟩
  rw [hp] at hp'
  cases hp'
  rw [hv] at hv'
  cases hv'

/-- A name that is not valid changes nothing. -/
theorem rename_file_invalid {name : List Byte} {e : StatusCode}
    (hp : es.parentOf (.file f) = some p) (hv : validate_sub_entry_name es p name = .error e) :
    rename_file f name es = .fail e es := by
  have hp' : (es.files f).parent_folder = some p := hp
  simp [rename_file, hp', hv]

/-- Renaming a file to a name that fits in its buffer. -/
theorem rename_file_sat (ht : FolderTree es) (hf : es.committed (.file f)) {name : List Byte}
    (hlen : name.length < MAX_NAME_LENGTH) :
    (rename_file f name es).Sat
      (fun _ es' => rename_checks es (.file f) name ∧
        (∃ p, es.parentOf (.file f) = some p ∧ Edited es es' (.file f) p) ∧
        es'.nameOf (.file f) = name)
      (fun _ es' => es' = es ∧ ¬ rename_checks es (.file f) name) (fun _ => False) := by
  obtain ⟨p, hp, hlive, _⟩ := ht.linked _ hf
  have hp' : (es.files f).parent_folder = some p := hp
  obtain ⟨b, hb⟩ := set_entry_name_isSome (es.files f).name hlen
  cases hv : validate_sub_entry_name es p name with
  | error e =>
    rw [rename_file_invalid hp hv]
    exact ⟨rfl, not_rename_checks hp hv⟩
  | ok _ =>
    obtain ⟨hok, _, hnew⟩ := (validate_sub_entry_name_ok_iff es p name).mp hv
    obtain ⟨hstr, hterm⟩ := set_entry_name_str hok.no_nul hb
    have hrun : rename_file f name es =
        .ok () (es.setFile f { es.files f with name := b }) := by
      simp [rename_file, hp', hv, hb]
    rw [hrun, sat_ok]
    have hname : (es.setFile f { es.files f with name := b }).nameOf (.file f) = name := by
      rw [nameOf_setFile, Function.update_self, hstr]
    have hput : PutUnder es (es.setFile f { es.files f with name := b }) (.file f) p := by
      refine putUnder_rename ht hf hp (committed_setFile ..) ?_ (nameOf_setFile es f _) ?_ ?_ ?_
      · exact (parentOf_setFile es f _).trans (Function.update_eq_self ..)
      · rw [nameTerminated_setFile, eq_true hterm]
      · simp
      · exact fun r => children_setFile es r f _
    have hcycle := ht.wellFormed.not_below_parent (tree_of_committed hf hp)
    refine ⟨⟨p, hp, hv⟩, ⟨p, hp, ?_⟩, hname⟩
    apply edited_of_committed hf hput hlive hcycle hname hok hnew
    · -- only the name in the record changes
      intro g
      by_cases hg : g = f
      · subst hg
        simp [SameData]
      · simp [SameData, hg]
    · exact fun r _ _ => folderAt_setFile ..

/-- A name that fills the buffer of a file is written past its end. -/
theorem rename_file_long (ht : FolderTree es) (hf : es.committed (.file f)) {name : List Byte}
    (hlen : MAX_NAME_LENGTH ≤ name.length) :
    (rename_file f name es).Sat (fun _ _ => False)
      (fun _ es' => es' = es ∧ ¬ rename_checks es (.file f) name) (fun _ => True) := by
  obtain ⟨p, hp, _⟩ := ht.linked _ hf
  have hp' : (es.files f).parent_folder = some p := hp
  cases hv : validate_sub_entry_name es p name with
  | error e =>
    rw [rename_file_invalid hp hv]
    exact ⟨rfl, not_rename_checks hp hv⟩
  | ok _ =>
    obtain ⟨hok, _, _⟩ := (validate_sub_entry_name_ok_iff es p name).mp hv
    -- The name passes the checks, and its terminator is one byte too much.
    have hnone : set_entry_name name (es.files f).name = none := by
      unfold set_entry_name
      rw [cutAtNul_of_nul_not_mem hok.no_nul]
      apply CharBuf.write_eq_none
      rw [List.length_append, List.length_singleton]
      omega
    simp [rename_file, hp', hv, hnone]

/-- Nothing but the check of the name can fail. -/
theorem rename_folder_sat (ht : FolderTree es) (hd : es.committed (.folder d))
    (name : List Byte) :
    (rename_folder d name es).Sat
      (fun _ es' => rename_checks es (.folder d) name ∧
        (∃ p, es.parentOf (.folder d) = some p ∧ Edited es es' (.folder d) p) ∧
        es'.nameOf (.folder d) = name)
      (fun _ es' => es' = es ∧ ¬ rename_checks es (.folder d) name) (fun _ => False) := by
  obtain ⟨p, hp, hlive, _⟩ := ht.linked _ hd
  have hp' : (es.folderAt d).parent_folder = some p := hp
  have hroot : (es.folderAt d).is_root = false := by
    have := (ht.is_root_iff hd.live).not.mpr fun h => hd.ne_root (congrArg _ h)
    simpa using this
  cases hv : validate_sub_entry_name es p name with
  | error e =>
    have hfail : rename_folder d name es = .fail e es := by simp [rename_folder, hroot, hp', hv]
    rw [hfail]
    exact ⟨rfl, not_rename_checks hp hv⟩
  | ok _ =>
    obtain ⟨hok, hlen, hnew⟩ := (validate_sub_entry_name_ok_iff es p name).mp hv
    -- A folder's buffer has room for the longest name and its terminator.
    obtain ⟨b, hb⟩ := set_entry_name_isSome (es.folderAt d).name (Nat.lt_succ_of_le hlen)
    obtain ⟨hstr, hterm⟩ := set_entry_name_str hok.no_nul hb
    have hrun : rename_folder d name es =
        .ok () (es.setFolder d { es.folderAt d with name := b }) := by
      simp [rename_folder, hroot, hp', hv, hb]
    rw [hrun, sat_ok]
    have hname : (es.setFolder d { es.folderAt d with name := b }).nameOf (.folder d) = name := by
      rw [nameOf_setFolder, Function.update_self, hstr]
    have hput : PutUnder es (es.setFolder d { es.folderAt d with name := b }) (.folder d) p := by
      refine putUnder_rename ht hd hp (committed_setFolder ..) ?_ (nameOf_setFolder es d _) ?_
        ?_ ?_
      · exact (parentOf_setFolder es d _).trans (Function.update_eq_self ..)
      · rw [nameTerminated_setFolder, eq_true hterm]
      · exact fun r => is_root_setFolder es d r rfl
      · exact fun r => children_setFolder_same es d r rfl rfl
    have hcycle := ht.wellFormed.not_below_parent (tree_of_committed hd hp)
    refine ⟨⟨p, hp, hv⟩, ⟨p, hp, ?_⟩, hname⟩
    apply edited_of_committed hd hput hlive hcycle hname hok hnew
    · intro g
      simp [SameData]
    · intro r _ hr
      apply folderAt_setFolder_ne
      intro rfl
      exact hr rfl

/-- The root is refused. -/
theorem rename_root (ht : FolderTree es) (name : List Byte) :
    rename_folder .root name es = .fail .INVALID_ROOT_OPERATION es ∧
      ¬ rename_checks es (.folder .root) name := by
  have hroot : (es.folderAt .root).is_root = true := ht.root_is_root
  refine ⟨by simp [rename_folder, hroot], ?_⟩
  intro ⟨p, hp, _⟩
  have hnone : es.parentOf (.folder .root) = none := ht.root_parent
  rw [hnone] at hp
  cases hp

/-! ## Section 4: Moving -/

theorem files_relocate {j i : Nat} (g : FileRef) :
    SameData (es.files g) ((es.relocate n q j p i).files g) := by
  rcases n with f | r
  · by_cases hg : g = f
    · subst hg
      simp [SameData, relocate, setParent, setFileParent, fillSlot, setSubFile, clearSlot]
    · simp [SameData, relocate, setParent, setFileParent, fillSlot, setSubFile, clearSlot, hg]
  · simp [SameData, relocate, setParent, setFolderParent, fillSlot, setSubFolder, clearSlot]

/-- Relocating keeps all names. -/
theorem nameOf_relocate {j i : Nat} : (es.relocate n q j p i).nameOf = es.nameOf := by
  simp [relocate]

/-- A relocation is an edit if the checks of the code have passed. -/
theorem edited_relocate {i j : Nat} (ht : FolderTree es) (hn : es.committed n)
    (hp : es.live p) (hq : es.parentOf n = some q) (hj : j < slotsFor n)
    (hs : es.slotAt q n j = some n) (hi : i < slotsFor n) (hv : es.slotAt p n i = none)
    (hcycle : ¬ Below es.tree n (.folder p)) (hnew : es.NameIsNew p (es.nameOf n)) :
    Edited es (es.relocate n q j p i) n p := by
  have hput := putUnder_relocate ht hn hq hj hs hi hv
  have hname : (es.relocate n q j p i).nameOf n = es.nameOf n := by rw [nameOf_relocate]
  apply edited_of_committed hn hput hp hcycle hname (ht.names_acceptable n hn) hnew
  · exact fun g => files_relocate g
  · -- the old and the new parent are live
    intro r hr hrn
    have hrp : r ≠ p := fun h => hr (h ▸ hp)
    have hrq : r ≠ q := fun h => hr (h ▸ ht.parent_live hn hq)
    simp [relocate, hrn, hrp, hrq]

/-- Nothing is below a file but the file. -/
theorem pathFrom_file {l : List (List Byte)} (h : PathFrom es.tree (.file f) n l) :
    n = .file f ∧ l = [] := by
  rcases h.cases_head with heq | ⟨c, x, s, hc, _⟩
  · exact heq
  · obtain ⟨_, _, _, hfile, _⟩ := tree_eq_some.mp hc
    cases hfile

/-- Nothing is below a file. -/
theorem not_below_file (es : VFSEntryStore) (f : FileRef) (r : FolderRef) :
    ¬ Below es.tree (.file f) (.folder r) := by
  intro ⟨l, hl⟩
  cases (pathFrom_file hl).1

/-- The checks of `move_file`. -/
def move_file_checks (es : VFSEntryStore) (file : FileRef) (new_parent : FolderRef) : Prop :=
  validate_sub_entry_name es new_parent (es.files file).name.str = .ok () ∧
    ∃ i, get_available_sub_file_position es new_parent = .ok i

/-- A file is moved exactly if the checks pass; otherwise nothing has changed. -/
theorem move_file_sat (ht : FolderTree es) (hf : es.committed (.file f)) (hp : es.live p) :
    (move_file f p es).Sat
      (fun _ es' => move_file_checks es f p ∧ Edited es es' (.file f) p ∧
        es'.nameOf (.file f) = es.nameOf (.file f))
      (fun _ es' => es' = es ∧ ¬ move_file_checks es f p) (fun _ => False) := by
  obtain ⟨q, j, hq, hj, hs, hunlink⟩ := unlink_sub_file_run ht hf
  unfold move_file
  simp only [bind_run, readState_run, bind_ok]
  -- the checks in the order of the source, all before the file is unlinked
  cases hv : validate_sub_entry_name es p (es.files f).name.str with
  | error e => simp [move_file_checks, hv]
  | ok _ =>
    cases hi : get_available_sub_file_position es p with
    | error e => simp [move_file_checks, hi]
    | ok i =>
      simp only [ofExcept_ok_run, bind_ok, hunlink, modifyState_run, sat_ok]
      obtain ⟨hilt, hvacant⟩ := available_sub_file_slot (f := f) hi
      obtain ⟨_, _, hnew⟩ := (validate_sub_entry_name_ok_iff _ _ _).mp hv
      refine ⟨⟨hv, i, hi⟩,
        edited_relocate ht hf hp hq hj hs hilt hvacant (not_below_file es f p) hnew, ?_⟩
      change (es.relocate (.file f) q j p i).nameOf _ = _
      rw [nameOf_relocate]

/-! ### The search for cycles -/

/-- No check has failed. -/
theorem firstError_ok_iff (checks : List (Except StatusCode Unit)) :
    firstError checks = .ok () ↔ ∀ c ∈ checks, c = .ok () := by
  induction checks with
  | nil => simp [firstError]
  | cons c checks ih =>
    cases c with
    | error e => simp [firstError]
    | ok _ => simp [firstError, ih]

/-- Every folder below `r` is reached from `r` in fewer than `k` steps. -/
def VFSEntryStore.fits (es : VFSEntryStore) (k : Nat) (r : FolderRef) : Prop :=
  ∀ d l, PathFrom es.tree (.folder r) (.folder d) l → l.length < k

/-- The sub-folders are the folders one step below. -/
theorem FolderTree.sub_folder_tree (ht : FolderTree es) (hr : es.live r) :
    .folder d ∈ es.children r ↔ ∃ x, es.tree (.folder d) = some (.folder r, x) := by
  constructor
  · intro h
    exact ⟨_, ht.tree_eq hr h⟩
  · intro ⟨x, hx⟩
    obtain ⟨hd, q, hq, heq, _⟩ := tree_eq_some.mp hx
    cases heq
    exact ht.mem_children_parent hd hq

/-- A folder fits in one level more if its sub-folders fit. -/
theorem FolderTree.fits_succ_iff {k : Nat} (ht : FolderTree es) (hr : es.live r) :
    es.fits (k + 1) r ↔ ∀ d, .folder d ∈ es.children r → es.fits k d := by
  constructor
  · intro h d hd c l hl
    obtain ⟨x, hx⟩ := (ht.sub_folder_tree hr).mp hd
    have := h c (x :: l) (PathFrom.cons hx hl)
    simpa using this
  · intro h d l hl
    rcases hl.cases_head with ⟨_, rfl⟩ | ⟨c, x, s, hc, hs, rfl⟩
    · exact Nat.succ_pos k
    · rcases c with g | c
      · exact absurd ⟨s, hs⟩ (not_below_file es _ d)
      · have := h c ((ht.sub_folder_tree hr).mpr ⟨x, hc⟩) d s hs
        simpa using this

/-- The search visits every folder below and fails when it meets the new parent or
    goes too deep. -/
theorem validate_no_cyclic_move_from_ok_iff (ht : FolderTree es) (new_parent : FolderRef)
    (k : Nat) (hr : es.live r) :
    validate_no_cyclic_move_from es new_parent k r = .ok () ↔
      es.fits k r ∧ ¬ Below es.tree (.folder r) (.folder new_parent) := by
  -- On the levels left: the walk over the sub-folders of `r` has one level less.
  induction k generalizing r with
  | zero =>
    constructor
    · intro h; cases h
    · rintro ⟨h, _⟩
      exact absurd (h r [] PathFrom.nil) (by simp)
  | succ k ih =>
    unfold validate_no_cyclic_move_from
    by_cases hnp : new_parent = r
    · subst hnp
      rw [if_pos rfl]
      constructor
      · intro h; cases h
      · rintro ⟨_, h⟩
        exact absurd Below.refl h
    · have hsub : ∀ d, .folder d ∈ es.children r →
          (validate_no_cyclic_move_from es new_parent k d = .ok () ↔
            es.fits k d ∧ ¬ Below es.tree (.folder d) (.folder new_parent)) := by
        intro d hd
        exact ih (ht.children_committed r hr _ hd).1.live
      rw [if_neg hnp, firstError_ok_iff, ht.fits_succ_iff hr]
      simp only [Folder.folderSlots, List.map_map, List.mem_map, List.mem_range,
        Function.comp_apply, forall_exists_index, and_imp]
      constructor
      · intro h
        have hall : ∀ d, .folder d ∈ es.children r →
            es.fits k d ∧ ¬ Below es.tree (.folder d) (.folder new_parent) := by
          intro d hd
          obtain ⟨i, hi, hs⟩ := folder_mem_children.mp hd
          apply (hsub d hd).mp
          have := h _ i hi rfl
          rwa [hs] at this
        refine ⟨fun d hd => (hall d hd).1, ?_⟩
        rintro ⟨l, hl⟩
        rcases hl.cases_head with ⟨h', _⟩ | ⟨c, x, s, hc, hs, _⟩
        · cases h'
          exact hnp rfl
        · rcases c with g | c
          · exact not_below_file es _ new_parent ⟨s, hs⟩
          · exact (hall c ((ht.sub_folder_tree hr).mpr ⟨x, hc⟩)).2 ⟨s, hs⟩
      · rintro ⟨hfits, hnb⟩ c i hi rfl
        cases hs : (es.folderAt r).sub_folders i with
        | none => rfl
        | some d =>
          have hd : .folder d ∈ es.children r := folder_mem_children.mpr ⟨i, hi, hs⟩
          obtain ⟨x, hx⟩ := (ht.sub_folder_tree hr).mp hd
          refine (hsub d hd).mpr ⟨hfits d hd, fun hb => hnb ?_⟩
          exact (Below.refl.child hx).trans hb

/-- The walk finds out cycles, and refuses trees that are too deep. -/
theorem validate_no_cyclic_move_ok_iff (ht : FolderTree es) (hr : es.live r) :
    validate_no_cyclic_move es p r = .ok () ↔
      es.fits MAX_FOLDER_DEPTH r ∧ ¬ Below es.tree (.folder r) (.folder p) :=
  validate_no_cyclic_move_from_ok_iff ht p MAX_FOLDER_DEPTH hr

/-- The checks of `move_folder`. -/
def move_folder_checks (es : VFSEntryStore) (folder new_parent : FolderRef) : Prop :=
  validate_sub_entry_name es new_parent (es.folderAt folder).name.str = .ok () ∧
    validate_no_cyclic_move es new_parent folder = .ok () ∧
    ∃ i, get_available_sub_folder_position es new_parent = .ok i

/-- The root is refused, by the guard against cycles. -/
theorem move_root (ht : FolderTree es) (hp : es.live p) :
    (∃ e, move_folder .root p es = .fail e es) ∧ ¬ move_folder_checks es .root p := by
  have hbelow : Below es.tree (.folder .root) (.folder p) := by
    rcases hp with rfl | hp
    · exact Below.refl
    · exact ht.rooted _ hp
  -- Every folder is below the root, so the walk meets the new parent or runs out of levels.
  have hcycle : validate_no_cyclic_move es p .root ≠ .ok () := by
    intro hc
    exact ((validate_no_cyclic_move_ok_iff ht live_root).mp hc).2 hbelow
  refine ⟨?_, fun h => hcycle h.2.1⟩
  unfold move_folder
  simp only [bind_run, readState_run, bind_ok]
  cases validate_sub_entry_name es p (es.folderAt .root).name.str with
  | error e => exact ⟨e, rfl⟩
  | ok _ =>
    cases hc : validate_no_cyclic_move es p .root with
    | error e => exact ⟨e, rfl⟩
    | ok _ => exact absurd hc hcycle

/-- A folder is moved exactly if the checks pass; otherwise nothing has changed. -/
theorem move_folder_sat (ht : FolderTree es) (hd : es.committed (.folder d)) (hp : es.live p) :
    (move_folder d p es).Sat
      (fun _ es' => move_folder_checks es d p ∧ Edited es es' (.folder d) p ∧
        es'.nameOf (.folder d) = es.nameOf (.folder d))
      (fun _ es' => es' = es ∧ ¬ move_folder_checks es d p) (fun _ => False) := by
  obtain ⟨q, j, hq, hj, hs, hunlink⟩ := unlink_sub_folder_run ht hd true (Or.inl rfl)
  unfold move_folder
  simp only [bind_run, readState_run, bind_ok]
  -- the checks in the order of the source, all before the folder is unlinked
  cases hv : validate_sub_entry_name es p (es.folderAt d).name.str with
  | error e => simp [move_folder_checks, hv]
  | ok _ =>
    cases hc : validate_no_cyclic_move es p d with
    | error e => simp [move_folder_checks, hc]
    | ok _ =>
      cases hi : get_available_sub_folder_position es p with
      | error e => simp [move_folder_checks, hi]
      | ok i =>
        simp only [ofExcept_ok_run, bind_ok, hunlink, modifyState_run, sat_ok]
        obtain ⟨hilt, hvacant⟩ := available_sub_folder_slot (r := d) hi
        obtain ⟨_, _, hnew⟩ := (validate_sub_entry_name_ok_iff _ _ _).mp hv
        obtain ⟨_, hcycle⟩ := (validate_no_cyclic_move_ok_iff ht hd.live).mp hc
        refine ⟨⟨hv, hc, i, hi⟩,
          edited_relocate ht hd hp hq hj hs hilt hvacant hcycle hnew, ?_⟩
        change (es.relocate (.folder d) q j p i).nameOf _ = _
        rw [nameOf_relocate]

end VirtualFS
