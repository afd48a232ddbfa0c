import VirtualFS.Hierarchy.Tree

/-! # Links between Folders and Entries

    What the assignments of the code do to the tree: setting a parent pointer,
    filling a slot and clearing a slot, each for files and folders alike. The
    edits of `Tree.lean` are sequences of these.

    * `fillSlot`, `clearSlot`, `setParent`: the three kinds of assignments.
    * `children_fillSlot`, `children_clearSlot`: the children of all folders after
      an assignment, up to order.
-/

namespace VirtualFS

open Framework ParentMap

namespace VFSEntryStore

/-! ## Section 1: Assignments -/

/-- `n->parent_folder = value` -/
def setParent (es : VFSEntryStore) (n : VFSNode) (value : Option FolderRef) : VFSEntryStore :=
  match n with
  | .file f => es.setFileParent f value
  | .folder r => es.setFolderParent r value

/-- Number of the slots for entries of this kind. -/
def slotsFor : VFSNode → Nat
  | .file _ => MAX_SUB_FILES_AMOUNT
  | .folder _ => MAX_SUB_FOLDERS_AMOUNT

/-- The entry in slot `i` among those for entries of the kind of `n`. -/
def slotAt (es : VFSEntryStore) (p : FolderRef) (n : VFSNode) (i : Nat) : Option VFSNode :=
  match n with
  | .file _ => ((es.folderAt p).sub_files i).map .file
  | .folder _ => ((es.folderAt p).sub_folders i).map .folder

/-- Put `n` in slot `i` of `p`. -/
def fillSlot (es : VFSEntryStore) (p : FolderRef) (n : VFSNode) (i : Nat) : VFSEntryStore :=
  match n with
  | .file f => es.setSubFile p i (some f)
  | .folder r => es.setSubFolder p i (some r)

/-- Set slot `i` of `p`, among those for entries of the kind of `n`, to NULL. -/
def clearSlot (es : VFSEntryStore) (p : FolderRef) (n : VFSNode) (i : Nat) : VFSEntryStore :=
  match n with
  | .file _ => es.setSubFile p i none
  | .folder _ => es.setSubFolder p i none

variable (es : VFSEntryStore) (n m : VFSNode) (p r : FolderRef) (i : Nat)
  (value : Option FolderRef)

/-! ## Section 2: Fields after an assignment -/

theorem committed_congr {es es' : VFSEntryStore}
    (hf : es'.files_allocation_map = es.files_allocation_map)
    (hd : es'.folders_allocation_map = es.folders_allocation_map) :
    es'.committed = es.committed := by
  funext n
  unfold committed
  rw [hf, hd]

@[simp] theorem committed_setFile (f : FileRef) (e : File) :
    (es.setFile f e).committed = es.committed := committed_congr rfl rfl

@[simp] theorem committed_setFolder (d : Folder) :
    (es.setFolder r d).committed = es.committed := committed_congr (by simp) (by simp)

@[simp] theorem committed_setParent : (es.setParent n value).committed = es.committed := by
  cases n <;> simp [setParent, setFileParent, setFolderParent]

@[simp] theorem committed_fillSlot : (es.fillSlot p n i).committed = es.committed := by
  cases n <;> simp [fillSlot, setSubFile, setSubFolder]

@[simp] theorem committed_clearSlot : (es.clearSlot p n i).committed = es.committed := by
  cases n <;> simp [clearSlot, setSubFile, setSubFolder]

theorem parentOf_setFile (f : FileRef) (e : File) :
    (es.setFile f e).parentOf = Function.update es.parentOf (.file f) e.parent_folder := by
  funext m
  cases m with
  | file g =>
    by_cases hg : g = f
    · subst hg
      simp [parentOf]
    · simp [parentOf, hg]
  | folder r => simp [parentOf]

theorem parentOf_setFolder (d : Folder) :
    (es.setFolder r d).parentOf = Function.update es.parentOf (.folder r) d.parent_folder := by
  funext m
  cases m with
  | file g => simp [parentOf]
  | folder q =>
    by_cases hq : q = r
    · subst hq
      simp [parentOf]
    · simp [parentOf, hq]

theorem nameOf_setFile (f : FileRef) (e : File) :
    (es.setFile f e).nameOf = Function.update es.nameOf (.file f) e.name.str := by
  funext m
  cases m with
  | file g =>
    by_cases hg : g = f
    · subst hg
      simp [nameOf]
    · simp [nameOf, hg]
  | folder r => simp [nameOf]

theorem nameOf_setFolder (d : Folder) :
    (es.setFolder r d).nameOf = Function.update es.nameOf (.folder r) d.name.str := by
  funext m
  cases m with
  | file g => simp [nameOf]
  | folder q =>
    by_cases hq : q = r
    · subst hq
      simp [nameOf]
    · simp [nameOf, hq]

theorem nameTerminated_setFile (f : FileRef) (e : File) :
    (es.setFile f e).nameTerminated =
      Function.update es.nameTerminated (.file f) e.name.Terminated := by
  funext m
  cases m with
  | file g =>
    by_cases hg : g = f
    · subst hg
      simp [nameTerminated]
    · simp [nameTerminated, hg]
  | folder r => simp [nameTerminated]

theorem nameTerminated_setFolder (d : Folder) :
    (es.setFolder r d).nameTerminated =
      Function.update es.nameTerminated (.folder r) d.name.Terminated := by
  funext m
  cases m with
  | file g => simp [nameTerminated]
  | folder q =>
    by_cases hq : q = r
    · subst hq
      simp [nameTerminated]
    · simp [nameTerminated, hq]

@[simp] theorem parentOf_setParent :
    (es.setParent n value).parentOf = Function.update es.parentOf n value := by
  cases n with
  | file f => exact parentOf_setFile es f _
  | folder r => exact parentOf_setFolder es r _

@[simp] theorem nameOf_setParent : (es.setParent n value).nameOf = es.nameOf := by
  cases n with
  | file f => exact (nameOf_setFile es f _).trans (Function.update_eq_self ..)
  | folder r => exact (nameOf_setFolder es r _).trans (Function.update_eq_self ..)

@[simp] theorem nameTerminated_setParent :
    (es.setParent n value).nameTerminated = es.nameTerminated := by
  cases n with
  | file f => exact (nameTerminated_setFile es f _).trans (Function.update_eq_self ..)
  | folder r => exact (nameTerminated_setFolder es r _).trans (Function.update_eq_self ..)

@[simp] theorem parentOf_fillSlot : (es.fillSlot p n i).parentOf = es.parentOf := by
  cases n <;> exact (parentOf_setFolder es p _).trans (Function.update_eq_self ..)

@[simp] theorem nameOf_fillSlot : (es.fillSlot p n i).nameOf = es.nameOf := by
  cases n <;> exact (nameOf_setFolder es p _).trans (Function.update_eq_self ..)

@[simp] theorem nameTerminated_fillSlot :
    (es.fillSlot p n i).nameTerminated = es.nameTerminated := by
  cases n <;> exact (nameTerminated_setFolder es p _).trans (Function.update_eq_self ..)

@[simp] theorem parentOf_clearSlot : (es.clearSlot p n i).parentOf = es.parentOf := by
  cases n <;> exact (parentOf_setFolder es p _).trans (Function.update_eq_self ..)

@[simp] theorem nameOf_clearSlot : (es.clearSlot p n i).nameOf = es.nameOf := by
  cases n <;> exact (nameOf_setFolder es p _).trans (Function.update_eq_self ..)

@[simp] theorem nameTerminated_clearSlot :
    (es.clearSlot p n i).nameTerminated = es.nameTerminated := by
  cases n <;> exact (nameTerminated_setFolder es p _).trans (Function.update_eq_self ..)

theorem is_root_setFolder {d : Folder} (hd : d.is_root = (es.folderAt p).is_root) :
    ((es.setFolder p d).folderAt r).is_root = (es.folderAt r).is_root := by
  by_cases hr : r = p
  · subst hr
    rw [folderAt_setFolder_self, hd]
  · rw [folderAt_setFolder_ne _ _ _ _ hr]

@[simp] theorem is_root_setParent :
    ((es.setParent n value).folderAt r).is_root = (es.folderAt r).is_root := by
  cases n with
  | file f => exact congrArg Folder.is_root (folderAt_setFile ..)
  | folder q => exact is_root_setFolder es q r rfl

@[simp] theorem is_root_fillSlot :
    ((es.fillSlot p n i).folderAt r).is_root = (es.folderAt r).is_root := by
  cases n <;> exact is_root_setFolder es p r rfl

@[simp] theorem is_root_clearSlot :
    ((es.clearSlot p n i).folderAt r).is_root = (es.folderAt r).is_root := by
  cases n <;> exact is_root_setFolder es p r rfl

@[simp] theorem folderAt_setParent_ne (hr : n ≠ .folder r) :
    (es.setParent n value).folderAt r = es.folderAt r := by
  cases n with
  | file f => exact folderAt_setFile ..
  | folder q =>
    apply folderAt_setFolder_ne _ _ _ _
    intro rfl
    exact hr rfl

@[simp] theorem folderAt_fillSlot_ne (hr : r ≠ p) :
    (es.fillSlot p n i).folderAt r = es.folderAt r := by
  cases n <;> exact folderAt_setFolder_ne _ _ _ _ hr

@[simp] theorem folderAt_clearSlot_ne (hr : r ≠ p) :
    (es.clearSlot p n i).folderAt r = es.folderAt r := by
  cases n <;> exact folderAt_setFolder_ne _ _ _ _ hr

/-! ## Section 3: Children after an assignment -/

theorem children_setFile (f : FileRef) (e : File) :
    (es.setFile f e).children r = es.children r := by
  simp [children]

theorem children_setFolder_ne {d : Folder} (hr : r ≠ p) :
    (es.setFolder p d).children r = es.children r := by
  simp [children, hr]

theorem children_setFolder_same {d : Folder} (hf : d.sub_files = (es.folderAt p).sub_files)
    (hd : d.sub_folders = (es.folderAt p).sub_folders) :
    (es.setFolder p d).children r = es.children r := by
  by_cases hr : r = p
  · subst hr
    simp [children, hf, hd]
  · exact children_setFolder_ne es p r hr

@[simp] theorem children_setParent : (es.setParent n value).children r = es.children r := by
  cases n with
  | file f => exact children_setFile es r f _
  | folder q => exact children_setFolder_same es q r rfl rfl

variable {es n m p r i}

@[simp] theorem slotAt_setParent :
    (es.setParent n value).slotAt p m i = es.slotAt p m i := by
  cases n with
  | file f => cases m <;> simp [slotAt, setParent, setFileParent]
  | folder q =>
    by_cases hp : p = q
    · subst hp
      cases m <;> simp [slotAt, setParent, setFolderParent]
    · cases m <;> simp [slotAt, setParent, setFolderParent, hp]

theorem children_fillSlot (hi : i < slotsFor n) (hv : es.slotAt p n i = none) :
    ((es.fillSlot p n i).children r).Perm
      (if r = p then n :: es.children r else es.children r) := by
  by_cases hr : r = p
  · subst hr
    rw [if_pos rfl]
    -- Filling a slot adds one occupant to its array; the other array is untouched.
    cases n with
    | file f =>
      have hv' : (es.folderAt r).sub_files i = none := by simpa [slotAt] using hv
      have hperm := (occupants_fill (x := f) hi hv').map VFSNode.file
      have := hperm.append_right
        ((occupants MAX_SUB_FOLDERS_AMOUNT (es.folderAt r).sub_folders).map VFSNode.folder)
      simpa [children, fillSlot, setSubFile, slotsFor] using this
    | folder d =>
      have hv' : (es.folderAt r).sub_folders i = none := by simpa [slotAt] using hv
      have hperm := (occupants_fill (x := d) hi hv').map VFSNode.folder
      have := (hperm.append_left
        ((occupants MAX_SUB_FILES_AMOUNT (es.folderAt r).sub_files).map VFSNode.file)).trans
        List.perm_middle
      simpa [children, fillSlot, setSubFolder, slotsFor] using this
  · rw [if_neg hr]
    cases n with
    | file f => rw [fillSlot, setSubFile, children_setFolder_ne es p r hr]
    | folder d => rw [fillSlot, setSubFolder, children_setFolder_ne es p r hr]

theorem children_clearSlot (hi : i < slotsFor n) (hs : es.slotAt p n i = some n)
    (hother : r ≠ p → n ∉ es.children r) :
    ((es.clearSlot p n i).children r).Perm ((es.children r).erase n) := by
  by_cases hr : r = p
  · subst hr
    -- It is shown that putting `n` back gives the old list.
    refine (List.cons_perm_iff_perm_erase.mp ?_).2
    cases n with
    | file f =>
      have hs' : (es.folderAt r).sub_files i = some f := by simpa [slotAt] using hs
      have hperm := (occupants_clear hi hs').map VFSNode.file
      have := hperm.append_right
        ((occupants MAX_SUB_FOLDERS_AMOUNT (es.folderAt r).sub_folders).map VFSNode.folder)
      simpa [children, clearSlot, setSubFile, slotsFor] using this
    | folder d =>
      have hs' : (es.folderAt r).sub_folders i = some d := by simpa [slotAt] using hs
      have hperm := (occupants_clear hi hs').map VFSNode.folder
      have := List.perm_middle.symm.trans (hperm.append_left
        ((occupants MAX_SUB_FILES_AMOUNT (es.folderAt r).sub_files).map VFSNode.file))
      simpa [children, clearSlot, setSubFolder, slotsFor] using this
  · rw [List.erase_of_not_mem (hother hr)]
    cases n with
    | file f => rw [clearSlot, setSubFile, children_setFolder_ne es p r hr]
    | folder d => rw [clearSlot, setSubFolder, children_setFolder_ne es p r hr]

/-- Another slot stays vacant when one is cleared. -/
theorem slotAt_clearSlot_vacant {q : FolderRef} {j : Nat} (hv : es.slotAt p n i = none) :
    (es.clearSlot q n j).slotAt p n i = none := by
  by_cases hp : p = q
  · subst hp
    by_cases hij : i = j
    · subst hij
      cases n <;> simp [slotAt, clearSlot, setSubFile, setSubFolder]
    · cases n <;> simpa [slotAt, clearSlot, setSubFile, setSubFolder, hij] using hv
  · cases n <;> simpa [slotAt, clearSlot, setSubFile, setSubFolder, hp] using hv

/-- Clearing the slot of `n` leaves the other slots. -/
theorem slotAt_clearSlot_cases {j : Nat} (hs : es.slotAt p n j = some n) :
    (es.clearSlot p n j).slotAt r m i = es.slotAt r m i ∨
      (es.slotAt r m i = some n ∧ (es.clearSlot p n j).slotAt r m i = none) := by
  by_cases hr : r = p
  · subst hr
    by_cases hij : i = j
    · subst hij
      cases n <;> cases m <;>
        simp_all [slotAt, clearSlot, setSubFile, setSubFolder]
    · left
      cases n <;> cases m <;> simp [slotAt, clearSlot, setSubFile, setSubFolder, hij]
  · left
    cases m <;> simp only [slotAt, folderAt_clearSlot_ne _ _ _ _ _ hr]

theorem mem_children_of_slotAt (hi : i < slotsFor n) (hs : es.slotAt p n i = some n) :
    n ∈ es.children p := by
  cases n with
  | file f => exact file_mem_children.mpr ⟨i, hi, by simpa [slotAt] using hs⟩
  | folder d => exact folder_mem_children.mpr ⟨i, hi, by simpa [slotAt] using hs⟩

end VFSEntryStore

end VirtualFS
