import VirtualFS.Hierarchy.Relocation

/-! # Creating and Removing Entries

    Postconditions for a store that satisfies the folder tree invariant. What
    a failing creation has written is the record of a file that is not
    committed; a folder without children can be removed.

    * `vfs_sub_file_init_sat`, `vfs_sub_folder_init_sat`: creating.
    * `delete_flat_folder_run`, `delete_root`: removing a folder without children.
    * `SameStore`: all that the allocation maps mark is as it was. A failing call
      may have written to records that are not marked.
-/

namespace VirtualFS

open Framework Prog Outcome ParentMap VFSEntryStore

variable {es es' : VFSEntryStore} {n : VFSNode} {f : FileRef} {p q r d : FolderRef}

/-! ## Section 1: Creating -/

/-- The folders that are accepted as parents are the live ones. -/
theorem validate_vfs_folder_ok_iff :
    validate_vfs_folder es (some p) = .ok () ↔ es.live p := by
  rcases p with _ | i
  · simp [validate_vfs_folder, live]
  · by_cases hi : i ≥ VFS_MAX_FOLDERS_AMOUNT
    · simp [validate_vfs_folder, live, committed, hi, Nat.not_lt.mpr hi]
    · by_cases hm : es.folders_allocation_map i = false
      · simp [validate_vfs_folder, live, committed, hi, hm]
      · simp [validate_vfs_folder, live, committed, hi, hm, Nat.lt_of_not_le hi]

/-- A position that is returned is free. -/
theorem available_position {map : Nat → Bool} {k i : Nat}
    (h : get_available_allocation_map_position map k = .ok i) : i < k ∧ map i = false := by
  unfold get_available_allocation_map_position at h
  split at h
  · next j hj =>
    cases h
    obtain ⟨hi, hv, _⟩ := find_range_some hj
    exact ⟨hi, of_decide_eq_true hv⟩
  · cases h

/-- The record of a position that is not committed may change. -/
theorem sameTree_setFile (hf : ¬ es.committed (.file f)) (e : File) :
    SameTree es (es.setFile f e) := by
  have hne : ∀ m, es.committed m → m ≠ .file f := by
    intro m hm rfl
    exact hf hm
  constructor
  case committed_iff => simp
  case parentOf_eq =>
    intro m hm
    rw [parentOf_setFile, Function.update_of_ne (hne m hm)]
  case nameOf_eq =>
    intro m hm
    rw [nameOf_setFile, Function.update_of_ne (hne m hm)]
  case terminated_iff =>
    intro m hm
    rw [nameTerminated_setFile, Function.update_of_ne (hne m hm)]
  case is_root_eq => simp
  case root_parent_eq => rw [parentOf_setFile, Function.update_of_ne (by simp)]
  case children_eq => exact fun r _ => children_setFile es r f e

/-- The record of a folder that is not live is not part of the tree. -/
theorem sameTree_setFolder (hd : ¬ es.live d) (rec : Folder) :
    SameTree es (es.setFolder d rec) := by
  have hne : ∀ m, es.committed m → m ≠ .folder d := by
    intro m hm rfl
    exact hd hm.live
  have hner : ∀ r, es.live r → r ≠ d := by
    intro r hr rfl
    exact hd hr
  constructor
  case committed_iff => simp
  case parentOf_eq =>
    intro m hm
    rw [parentOf_setFolder, Function.update_of_ne (hne m hm)]
  case nameOf_eq =>
    intro m hm
    rw [nameOf_setFolder, Function.update_of_ne (hne m hm)]
  case terminated_iff =>
    intro m hm
    rw [nameTerminated_setFolder, Function.update_of_ne (hne m hm)]
  case is_root_eq =>
    intro r hr
    rw [folderAt_setFolder_ne _ _ _ _ (hner r hr)]
  case root_parent_eq =>
    have hroot : d ≠ .root := fun h => hd (h ▸ live_root)
    rw [parentOf_setFolder, Function.update_of_ne (by simpa using Ne.symm hroot)]
  case children_eq => exact fun r hr => children_setFolder_ne es d r (hner r hr)

/-- `es'` agrees with `es` but for records of files that are not committed. -/
structure SameStore (es es' : VFSEntryStore) : Prop where
  same : SameTree es es'
  folderAt_eq : ∀ r, es'.folderAt r = es.folderAt r
  files_eq : ∀ f, es.committed (.file f) → es'.files f = es.files f

theorem SameStore.refl (es : VFSEntryStore) : SameStore es es :=
  ⟨SameTree.refl, fun _ => rfl, fun _ _ => rfl⟩

/-- The record of a file that is not committed is not part of the store. -/
theorem sameStore_setFile (hf : ¬ es.committed (.file f)) (e : File) :
    SameStore es (es.setFile f e) where
  same := sameTree_setFile hf e
  folderAt_eq := fun r => folderAt_setFile ..
  files_eq := by
    intro g hg
    have hgf : g ≠ f := by
      intro rfl
      exact hf hg
    simp [hgf]

/-- Initialising a file writes a blank record with its name. -/
theorem file_init_run (es : VFSEntryStore) (f : FileRef) {name : List Byte}
    (hlen : name.length < MAX_NAME_LENGTH) :
    ∃ e, file_init f name es = .ok () (es.setFile f e) ∧ e.name.Terminated ∧
      e.name.str = cutAtNul name ∧ Blank e := by
  have hfit : 0 + (name ++ [0]).length ≤ MAX_NAME_LENGTH := by
    rw [List.length_append, List.length_singleton]
    omega
  obtain ⟨b, hb⟩ := CharBuf.write_isSome (b := (es.files f).name) hfit
  obtain ⟨hstr, hterm⟩ := CharBuf.str_of_write_zero hb
  refine ⟨
    { name := b
      allocated_size := 0
      data_chunk_extents := init_empty_extensions (es.files f).data_chunk_extents
      parent_folder := none }, ?_, hterm, hstr, rfl, ?_⟩
  · simp [file_init, Nat.not_le.mpr hlen, hb]
  · intro i hi
    simp [init_empty_extensions, hi]

theorem files_mark_create (es₁ : VFSEntryStore) (n : VFSNode) (p : FolderRef) (i : Nat)
    (g : FileRef) :
    SameData (es₁.files g)
      ((((es₁.fillSlot p n i).setParent n (some p)).mark n true).files g) := by
  rcases n with f | r
  · by_cases hg : g = f
    · subst hg
      simp [SameData, setParent, setFileParent, fillSlot, setSubFile]
    · simp [SameData, setParent, setFileParent, fillSlot, setSubFile, hg]
  · simp [SameData, setParent, setFolderParent, fillSlot, setSubFolder]

/-- Linking and marking an entry whose record has been initialised in `es₁`. -/
theorem edited_create {es₁ : VFSEntryStore} {i : Nat} (ht : FolderTree es)
    (hsame : SameTree es es₁) (hn : n.inStore) (hfree : ¬ es.committed n) (hp : es.live p)
    (hterm : es₁.nameTerminated n)
    (hvacant : ∀ r, n = .folder r → es₁.children r = [] ∧ (es₁.folderAt r).is_root = false)
    (hi : i < slotsFor n) (hv : es₁.slotAt p n i = none)
    (hok : NameAcceptable (es₁.nameOf n)) (hnew : es₁.NameIsNew p (es₁.nameOf n))
    (hfiles : ∀ g, es.committed (.file g) → es₁.files g = es.files g)
    (hblank : ∀ g, n = .file g → Blank (es₁.files g))
    (hframe : ∀ r, n ≠ .folder r → es₁.folderAt r = es.folderAt r) :
    Edited es (((es₁.fillSlot p n i).setParent n (some p)).mark n true) n p := by
  have hname : (((es₁.fillSlot p n i).setParent n (some p)).mark n true).nameOf = es₁.nameOf := by
    simp
  constructor
  case put =>
    refine putUnder_create ht hsame hn hfree hp hterm hvacant ?_ (by simp) hname (by simp)
      (by simp) ?_
    · intro m
      rw [committed_mark_true hn]
      simp
    · intro r
      rw [children_mark, children_setParent]
      exact children_fillSlot hi hv
  case parent_live => exact hp
  -- a new node has no children yet, so the parent is not below it
  case no_cycle =>
    intro hb
    have hnp : VFSNode.folder p ≠ n := by
      intro rfl
      rcases hp with rfl | hp
      · exact hn
      · exact hfree hp
    have hnone : es.tree n = none := by simp [tree, hfree]
    refine hnp (ht.wellFormed.below_of_not_mem hnone ?_ hb)
    intro rfl
    exact hn
  case name_acceptable => rwa [hname]
  -- the siblings are those of before, and their names too
  case name_new =>
    intro m hm hmn
    rw [hname] at hmn
    have hmc := (ht.children_committed p hp m hm).1
    refine absurd ?_ (hnew m (by rwa [hsame.children_eq p hp]))
    rw [hsame.nameOf_eq m hmc, hmn]
  case data =>
    intro g hg
    rw [← hfiles g hg]
    exact files_mark_create es₁ n p i g
  case blank =>
    intro g hg _
    obtain ⟨hsize, hext⟩ := files_mark_create es₁ n p i g
    obtain ⟨hsize₁, hext₁⟩ := hblank g hg
    exact ⟨hsize.trans hsize₁, by rwa [hext]⟩
  case in_store => exact hn
  case frame =>
    intro r hr hnr
    have hrp : r ≠ p := fun h => hr (h ▸ hp)
    rw [folderAt_mark, folderAt_setParent_ne _ _ _ _ hnr, folderAt_fillSlot_ne _ _ _ _ _ hrp,
      hframe r hnr]

/-- Which names are new is read off the tree. -/
theorem SameTree.nameIsNew_iff (ht : FolderTree es) (h : SameTree es es') (hp : es.live p)
    (name : List Byte) : es'.NameIsNew p name ↔ es.NameIsNew p name := by
  unfold NameIsNew
  rw [h.children_eq p hp]
  apply forall₂_congr
  intro m hm
  rw [h.nameOf_eq m (ht.children_committed p hp m hm).1]

/-- The checks of `vfs_sub_file_init`. -/
def sub_file_checks (es : VFSEntryStore) (file_name : List Byte) (parent_folder : FolderRef) :
    Prop :=
  validate_vfs_folder es parent_folder = .ok () ∧
    (∃ pos, get_available_file_position es = .ok pos) ∧
    file_name.length < MAX_NAME_LENGTH ∧
    validate_sub_entry_name es parent_folder (cutAtNul file_name) = .ok () ∧
    ∃ i, get_available_sub_file_position es parent_folder = .ok i

/-- The checks of `vfs_sub_folder_init`. -/
def sub_folder_checks (es : VFSEntryStore) (folder_name : List Byte)
    (parent_folder : FolderRef) : Prop :=
  validate_vfs_folder es parent_folder = .ok () ∧
    (∃ pos, get_available_folder_position es = .ok pos) ∧
    validate_sub_entry_name es parent_folder folder_name = .ok () ∧
    ∃ i, get_available_sub_folder_position es parent_folder = .ok i

/-- A new file: the name is validated as it stands in the record. -/
theorem vfs_sub_file_init_sat (ht : FolderTree es) (name : List Byte) (p : FolderRef) :
    (vfs_sub_file_init name p es).Sat
      (fun f es' => sub_file_checks es name p ∧ ¬ es.committed (.file f) ∧
        Edited es es' (.file f) p ∧ es'.nameOf (.file f) = cutAtNul name)
      (fun _ es' => SameStore es es' ∧ ¬ sub_file_checks es name p) (fun _ => False) := by
  unfold vfs_sub_file_init
  simp only [bind_run, readState_run, bind_ok]
  cases hv : validate_vfs_folder es p with
  | error e => exact ⟨SameStore.refl es, by simp [sub_file_checks, hv]⟩
  | ok _ =>
    have hp : es.live p := validate_vfs_folder_ok_iff.mp hv
    cases hpos : get_available_file_position es with
    | error e => exact ⟨SameStore.refl es, by simp [sub_file_checks, hpos]⟩
    | ok f =>
      obtain ⟨hflt, hmap⟩ := available_position hpos
      have hfree : ¬ es.committed (.file f) := by
        intro ⟨_, h⟩
        rw [hmap] at h
        cases h
      simp only [ofExcept_ok_run, bind_ok]
      by_cases hlen : name.length ≥ MAX_NAME_LENGTH
      · have hrun : file_init f name es = .fail .INSUFFICIENT_ARRAY_PASSED es := by
          simp [file_init, hlen]
        rw [hrun]
        exact ⟨SameStore.refl es, fun hchecks => Nat.not_lt.mpr hlen hchecks.2.2.1⟩
      · obtain ⟨e, hrun, hterm, hstr, hblank⟩ := file_init_run es f (Nat.lt_of_not_le hlen)
        rw [hrun, bind_ok]
        have hsame := sameStore_setFile hfree e
        generalize hes₁ : es.setFile f e = es₁ at hsame
        have hrec : es₁.files f = e := by simp [← hes₁]
        unfold sub_file_init
        simp only [bind_run, readState_run, bind_ok, hrec]
        -- the record that has been written is not in the tree yet
        have hval : validate_sub_entry_name es₁ p e.name.str = .ok () ↔
            validate_sub_entry_name es p (cutAtNul name) = .ok () := by
          rw [validate_sub_entry_name_ok_iff, validate_sub_entry_name_ok_iff, hstr,
            hsame.same.nameIsNew_iff ht hp]
        have hslot : get_available_sub_file_position es₁ p =
            get_available_sub_file_position es p := by
          simp only [get_available_sub_file_position, hsame.folderAt_eq]
        cases hvn : validate_sub_entry_name es₁ p e.name.str with
        | error err =>
          refine ⟨hsame, fun hchecks => ?_⟩
          rw [hval.mpr hchecks.2.2.2.1] at hvn
          cases hvn
        | ok _ =>
          cases hi : get_available_sub_file_position es₁ p with
          | error err =>
            refine ⟨hsame, fun hchecks => ?_⟩
            obtain ⟨i, hi'⟩ := hchecks.2.2.2.2
            rw [hslot, hi'] at hi
            cases hi
          | ok i =>
            obtain ⟨hilt, hvacant⟩ := available_sub_file_slot (f := f) hi
            obtain ⟨hok, _, hnew⟩ := (validate_sub_entry_name_ok_iff _ _ _).mp hvn
            simp only [ofExcept_ok_run, bind_ok, modifyState_run, pure_run, sat_ok]
            have hname : es₁.nameOf (.file f) = e.name.str := congrArg (·.name.str) hrec
            have hchecks : sub_file_checks es name p :=
              ⟨hv, ⟨f, hpos⟩, Nat.lt_of_not_le hlen, hval.mp hvn, i, hslot ▸ hi⟩
            refine ⟨hchecks, hfree, ?_, ?_⟩
            · refine edited_create (n := .file f) (i := i) ht hsame.same hflt hfree hp ?_ ?_
                hilt hvacant ?_ ?_ hsame.files_eq ?_ fun r _ => hsame.folderAt_eq r
              · simpa [nameTerminated, hrec] using hterm
              · intro r hr
                cases hr
              · rwa [hname]
              · rwa [hname]
              · rintro g ⟨⟩
                rwa [hrec]
            · change (((es₁.fillSlot p (.file f) i).setParent (.file f) (some p)).mark
                (.file f) true).nameOf (.file f) = _
              rw [nameOf_mark, nameOf_setParent, nameOf_fillSlot, hname, hstr]

/-- The two assignments of a new link may be made in either order. -/
theorem fillSlot_setParent_comm {i : Nat} {value : Option FolderRef} (h : n ≠ .folder p) :
    (es.setParent n value).fillSlot p n i = (es.fillSlot p n i).setParent n value := by
  -- Different fields of the record of a file, or of two records, are written.
  cases n with
  | file f => cases p <;> rfl
  | folder d =>
    have hdp : d ≠ p := fun hd => h (congrArg _ hd)
    refine ext_folderAt ?_ ?_ ?_ ?_
    · simp [setParent, setFolderParent, fillSlot, setSubFolder]
    · intro r
      by_cases hrd : r = d
      · subst hrd
        simp [setParent, setFolderParent, fillSlot, setSubFolder, hdp]
      · by_cases hrp : r = p
        · subst hrp
          simp [setParent, setFolderParent, fillSlot, setSubFolder, hrd]
        · simp [setParent, setFolderParent, fillSlot, setSubFolder, hrd, hrp]
    · simp [setParent, setFolderParent, fillSlot, setSubFolder]
    · simp [setParent, setFolderParent, fillSlot, setSubFolder]

/-- A folder with its slots cleared has no children. -/
theorem children_free_sub_entries (rec : Folder) :
    (es.setFolder d (folder_free_sub_entries rec)).children d = [] := by
  simp only [VFSEntryStore.children, folderAt_setFolder_self, folder_free_sub_entries]
  rw [occupants_of_vacant, occupants_of_vacant]
  · rfl
  · intro i hi
    simp [hi]
  · intro i hi
    simp [hi]

/-- The record of a new folder, before it is linked and marked. -/
theorem sub_folder_record (hdead : ¬ es.live d) {name : List Byte}
    {b : CharBuf (MAX_NAME_LENGTH + 1)} (hstr : b.str = name) (hterm : b.Terminated)
    {es₁ : VFSEntryStore}
    (hes₁ : es.setFolder d
      (folder_free_sub_entries { es.folderAt d with name := b, is_root := false }) = es₁) :
    SameTree es es₁ ∧ es₁.children d = [] ∧ (es₁.folderAt d).is_root = false ∧
      es₁.nameOf (.folder d) = name ∧ es₁.nameTerminated (.folder d) ∧
      es₁.files = es.files ∧
      ∀ r, VFSNode.folder d ≠ .folder r → es₁.folderAt r = es.folderAt r := by
  -- The record that is written, of which all parts are read off.
  have hrec : es₁.folderAt d =
      folder_free_sub_entries { es.folderAt d with name := b, is_root := false } := by
    rw [← hes₁]
    exact folderAt_setFolder_self ..
  have hname : (es₁.folderAt d).name = b := by
    rw [hrec]
    rfl
  refine ⟨?_, ?_, ?_, ?_, ?_, ?_, ?_⟩
  · rw [← hes₁]
    exact sameTree_setFolder hdead _
  · rw [← hes₁]
    exact children_free_sub_entries _
  · rw [hrec]
    rfl
  · show (es₁.folderAt d).name.str = name
    rw [hname, hstr]
  · show (es₁.folderAt d).name.Terminated
    rwa [hname]
  · rw [← hes₁]
    exact files_setFolder ..
  · intro r hr
    rw [← hes₁]
    apply folderAt_setFolder_ne
    intro rfl
    exact hr rfl

/-- A new folder: nothing is written before all checks have passed. -/
theorem vfs_sub_folder_init_sat (ht : FolderTree es) (name : List Byte) (p : FolderRef) :
    (vfs_sub_folder_init name p es).Sat
      (fun d es' => sub_folder_checks es name p ∧ ¬ es.live d ∧
        Edited es es' (.folder d) p ∧ es'.nameOf (.folder d) = name ∧ es'.children d = [])
      (fun _ es' => es' = es ∧ ¬ sub_folder_checks es name p) (fun _ => False) := by
  unfold vfs_sub_folder_init
  simp only [bind_run, readState_run, bind_ok]
  cases hv : validate_vfs_folder es p with
  | error e => simp [sub_folder_checks, hv]
  | ok _ =>
    have hp : es.live p := validate_vfs_folder_ok_iff.mp hv
    cases hpos : get_available_folder_position es with
    | error e => simp [sub_folder_checks, hpos]
    | ok pos =>
      obtain ⟨hposlt, hmap⟩ := available_position hpos
      have hfree : ¬ es.committed (.folder (.slot pos)) := by
        intro ⟨_, h⟩
        rw [hmap] at h
        cases h
      have hdead : ¬ es.live (.slot pos) := by simpa [live] using hfree
      have hpd : p ≠ .slot pos := fun h => hdead (h ▸ hp)
      unfold sub_folder_init
      simp only [ofExcept_ok_run, bind_ok, bind_run, readState_run]
      cases hvn : validate_sub_entry_name es p name with
      | error e => simp [sub_folder_checks, hvn]
      | ok _ =>
        cases hi : get_available_sub_folder_position es p with
        | error e => simp [sub_folder_checks, hi]
        | ok i =>
          obtain ⟨hilt, hvacant⟩ := available_sub_folder_slot (r := .slot pos) hi
          obtain ⟨hok, hlen, hnew⟩ := (validate_sub_entry_name_ok_iff _ _ _).mp hvn
          obtain ⟨b, hb⟩ := set_entry_name_isSome (es.folderAt (.slot pos)).name
            (Nat.lt_succ_of_le hlen)
          obtain ⟨hstr, hterm⟩ := set_entry_name_str hok.no_nul hb
          simp only [ofExcept_ok_run, bind_ok, hb, bind_run, modifyState_run, pure_run, sat_ok]
          generalize hes₁ : es.setFolder (.slot pos) (folder_free_sub_entries
            { es.folderAt (.slot pos) with name := b, is_root := false }) = es₁
          obtain ⟨hsame, hchildren, hnroot, hname, hterm₁, hfiles, hframe⟩ :=
            sub_folder_record hdead hstr hterm hes₁
          have hedit : Edited es
              (((es₁.fillSlot p (.folder (.slot pos)) i).setParent (.folder (.slot pos))
                (some p)).mark (.folder (.slot pos)) true) (.folder (.slot pos)) p := by
            refine edited_create ht hsame hposlt hfree hp hterm₁ ?_ hilt ?_ ?_ ?_ ?_ ?_ hframe
            · rintro r ⟨⟩
              exact ⟨hchildren, hnroot⟩
            · rw [← hvacant]
              simp only [slotAt, hframe p (by simpa using Ne.symm hpd)]
            · rwa [hname]
            · rw [hname]
              exact (hsame.nameIsNew_iff ht hp name).mpr hnew
            · exact fun g _ => by rw [hfiles]
            · rintro g ⟨⟩
          -- the code links in the other order
          have hcomm : (es₁.setFolderParent (.slot pos) (some p)).setSubFolder p i
              (some (.slot pos)) =
              (es₁.fillSlot p (.folder (.slot pos)) i).setParent (.folder (.slot pos))
                (some p) :=
            fillSlot_setParent_comm (n := .folder (.slot pos)) (by simpa using Ne.symm hpd)
          rw [hcomm]
          refine ⟨⟨hv, ⟨pos, hpos⟩, hvn, i, hi⟩, hdead, hedit, ?_, ?_⟩
          · change (((es₁.fillSlot p (.folder (.slot pos)) i).setParent (.folder (.slot pos))
              (some p)).mark (.folder (.slot pos)) true).nameOf _ = name
            rw [nameOf_mark, nameOf_setParent, nameOf_fillSlot, hname]
          · exact hedit.put.children_new _ hedit.put.committed_self.live hdead

/-! ## Section 2: Removing -/

/-- A folder record without links. -/
structure Vacated (es : VFSEntryStore) (r : FolderRef) : Prop where
  /-- Its slots are NULL. -/
  children_eq : es.children r = []
  /-- Going to the parent follows a NULL pointer. -/
  parent_eq : (es.folderAt r).parent_folder = none
  /-- It is not taken for the root. -/
  not_root : (es.folderAt r).is_root = false

/-- `es'` is `es` after the removal of the folder `d`. -/
structure FolderRemoved (es es' : VFSEntryStore) (d : FolderRef) : Prop where
  /-- The folder was in the store. -/
  committed : es.committed (.folder d)
  /-- It had no children any more. -/
  flat : es.children d = []
  /-- It is the only entry that has gone. -/
  out : TakenOut es es' (.folder d)
  /-- No slot is changed but the one that pointed to it, which is NULL. -/
  slots : ∀ r m i, es'.slotAt r m i = es.slotAt r m i ∨
    (es.slotAt r m i = some (.folder d) ∧ es'.slotAt r m i = none)
  /-- No file record is touched. -/
  files_eq : es'.files = es.files
  /-- Its own record is reset. -/
  vacated : Vacated es' d
  /-- Records that were not in use stay as they are. -/
  frame : ∀ r, ¬ es.live r → es'.folderAt r = es.folderAt r

/-- The root is refused. -/
theorem delete_root (ht : FolderTree es) :
    delete_flat_folder .root es = .fail .INVALID_ROOT_OPERATION es := by
  have hroot : (es.folderAt .root).is_root = true := ht.root_is_root
  simp [delete_flat_folder, unlink_sub_folder, hroot]

/-- A folder without children is removed. -/
theorem delete_flat_folder_run (ht : FolderTree es) (hd : es.committed (.folder d))
    (hflat : es.children d = []) :
    ∃ es', delete_flat_folder d es = .ok () es' ∧ FolderRemoved es es' d := by
  obtain ⟨q, j, hq, hj, hs, hunlink⟩ := unlink_sub_folder_run ht hd false (Or.inr hflat)
  rcases d with _ | i
  · exact absurd rfl hd.ne_root
  have hrun : delete_flat_folder (.slot i) es = .ok ()
      (((es.clearSlot q (.folder (.slot i)) j).setParent (.folder (.slot i)) none).mark
        (.folder (.slot i)) false) := by
    simp [delete_flat_folder, hunlink, release_folder, mark]
  -- a folder is not its own parent
  have hqd : FolderRef.slot i ≠ q := by
    intro rfl
    exact ht.wellFormed.not_below_parent (tree_of_committed hd hq) Below.refl
  refine ⟨_, hrun, ?_⟩
  constructor
  case committed => exact hd
  case flat => exact hflat
  case out =>
    refine takenOut_remove ht hd hq hj hs ?_ ?_ (by simp) (by simp) (by simp) (by simp)
    · intro m
      rw [committed_mark_false]
      simp
    · intro m hm
      simp [hm]
  case slots =>
    intro r m k
    rw [slotAt_mark, slotAt_setParent]
    exact slotAt_clearSlot_cases hs
  case files_eq => simp [setParent, setFolderParent, clearSlot, setSubFolder]
  case vacated =>
    constructor
    · rw [children_mark, children_setParent]
      have := children_clearSlot (r := .slot i) hj hs
        (fun _ => ht.not_mem_other hd hq hd.live hqd)
      rw [hflat] at this
      exact List.perm_nil.mp this
    · simp [setParent, setFolderParent]
    · simp only [folderAt_mark, is_root_setParent, is_root_clearSlot]
      exact ht.not_root i hd
  case frame =>
    intro r hr
    have hri : VFSNode.folder (.slot i) ≠ .folder r := by
      rintro ⟨⟩
      exact hr hd.live
    have hrq : r ≠ q := fun h => hr (h ▸ ht.parent_live hd hq)
    rw [folderAt_mark, folderAt_setParent_ne _ _ _ _ hri, folderAt_clearSlot_ne _ _ _ _ _ hrq]

end VirtualFS
