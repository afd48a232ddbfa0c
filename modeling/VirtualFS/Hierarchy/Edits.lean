import VirtualFS.Hierarchy.Links

/-! # Edits of the Entry Store

    The stores that creating, moving, renaming and removing an entry end in,
    and the edit of the tree that each of them is.

    * `Edited`: one node has been put under a folder, new or from another place,
      under a name that is new there. All of creating, renaming and moving are
      edits, so the invariant is kept for one reason.
    * `Edited.folderTree`: the tree is a tree afterwards.
    * `Edited.tree_eq`: its parent map is the old one, updated at the node.
-/

namespace VirtualFS

open Framework ParentMap VFSEntryStore

variable {es es₁ es' : VFSEntryStore} {n m : VFSNode} {p q r : FolderRef} {i j : Nat}

/-! ## Section 1: Moving and renaming -/

/-- `n` leaves slot `j` of `q` for slot `i` of `p`. -/
def VFSEntryStore.relocate (es : VFSEntryStore) (n : VFSNode) (q : FolderRef) (j : Nat)
    (p : FolderRef) (i : Nat) : VFSEntryStore :=
  (((es.clearSlot q n j).setParent n none).fillSlot p n i).setParent n (some p)

theorem is_root_relocate (r : FolderRef) :
    ((es.relocate n q j p i).folderAt r).is_root = (es.folderAt r).is_root := by
  simp [relocate]

/-- The slot of `n` in its folder is its only one. -/
theorem FolderTree.not_mem_other (ht : FolderTree es) (hn : es.committed n)
    (hq : es.parentOf n = some q) (hr : es.live r) (hrq : r ≠ q) : n ∉ es.children r := by
  intro hmem
  exact hrq (ht.slot_folder_unique hr (ht.parent_live hn hq) hmem
    (ht.mem_children_parent hn hq))

theorem putUnder_relocate (ht : FolderTree es) (hn : es.committed n)
    (hq : es.parentOf n = some q) (hj : j < slotsFor n) (hs : es.slotAt q n j = some n)
    (hi : i < slotsFor n) (hv : es.slotAt p n i = none) :
    PutUnder es (es.relocate n q j p i) n p := by
  unfold relocate
  have hroot : n ≠ .folder .root := hn.ne_root
  constructor
  case committed_iff =>
    intro m
    simp only [committed_setParent, committed_fillSlot, committed_clearSlot]
    exact ⟨Or.inl, fun h => h.elim id (fun h => h ▸ hn)⟩
  case parent_eq => simp
  case terminated => simpa using ht.names_terminated n hn
  case parentOf_eq =>
    intro m hm _
    simp [hm]
  case nameOf_eq => simp
  case terminated_iff => simp
  case is_root_eq => simp
  case not_root =>
    intro k rfl
    exact (is_root_relocate (.slot k)).trans (ht.not_root k hn)
  case root_parent_eq => simp [Ne.symm hroot]
  case children_perm =>
    intro r hr
    -- the old folder loses `n`, the new one gets it; they may be the same
    have hclear : ((es.clearSlot q n j).children r).Perm ((es.children r).erase n) :=
      children_clearSlot hj hs (ht.not_mem_other hn hq hr)
    have hv' : ((es.clearSlot q n j).setParent n none).slotAt p n i = none := by
      rw [slotAt_setParent]
      exact slotAt_clearSlot_vacant hv
    have hfill := children_fillSlot (r := r) hi hv'
    rw [children_setParent] at hfill ⊢
    apply hfill.trans
    split
    · exact hclear.cons n
    · exact hclear
  case children_new =>
    intro r hr hnr
    -- no folder comes alive
    refine absurd ?_ hnr
    simpa [live] using hr

/-- A store that differs in the name of one committed entry. -/
theorem putUnder_rename (ht : FolderTree es) (hn : es.committed n)
    (hp : es.parentOf n = some p) {x : List Byte} (hcomm : es'.committed = es.committed)
    (hparent : es'.parentOf = es.parentOf) (hname : es'.nameOf = Function.update es.nameOf n x)
    (hterm : es'.nameTerminated = Function.update es.nameTerminated n True)
    (hroot : ∀ r, (es'.folderAt r).is_root = (es.folderAt r).is_root)
    (hchildren : ∀ r, es'.children r = es.children r) : PutUnder es es' n p := by
  constructor
  case committed_iff =>
    intro m
    rw [hcomm]
    exact ⟨Or.inl, fun h => h.elim id (fun h => h ▸ hn)⟩
  case parent_eq => rw [hparent, hp]
  case terminated => simp [hterm]
  case parentOf_eq =>
    intro m _ _
    rw [hparent]
  case nameOf_eq =>
    intro m hm _
    rw [hname, Function.update_of_ne hm]
  case terminated_iff =>
    intro m hm _
    rw [hterm, Function.update_of_ne hm]
  case is_root_eq => exact fun r _ => hroot r
  case not_root =>
    intro k rfl
    exact (hroot (.slot k)).trans (ht.not_root k hn)
  case root_parent_eq => rw [hparent]
  case children_perm =>
    intro r hr
    rw [hchildren]
    -- the child is taken out and put back in its folder
    by_cases hrp : r = p
    · subst hrp
      rw [if_pos rfl]
      exact List.perm_cons_erase (ht.mem_children_parent hn hp)
    · rw [if_neg hrp, List.erase_of_not_mem (ht.not_mem_other hn hp hr hrp)]
  case children_new =>
    intro r hr hnr
    refine absurd ?_ hnr
    simpa [live, hcomm] using hr

/-! ## Section 2: Creating and removing -/

/-- Mark an entry in its allocation map. -/
def VFSEntryStore.mark (es : VFSEntryStore) (n : VFSNode) (b : Bool) : VFSEntryStore :=
  match n with
  | .file f => { es with files_allocation_map := Function.update es.files_allocation_map f b }
  | .folder .root => es
  | .folder (.slot i) =>
    { es with folders_allocation_map := Function.update es.folders_allocation_map i b }

section mark

variable (es n r) (b : Bool)

@[simp] theorem folderAt_mark : (es.mark n b).folderAt r = es.folderAt r := by
  cases n with
  | file f => cases r <;> rfl
  | folder d => cases d <;> cases r <;> rfl

@[simp] theorem files_mark : (es.mark n b).files = es.files := by
  cases n with
  | file f => rfl
  | folder d => cases d <;> rfl

@[simp] theorem parentOf_mark : (es.mark n b).parentOf = es.parentOf := by
  funext m
  cases m <;> simp [parentOf]

@[simp] theorem nameOf_mark : (es.mark n b).nameOf = es.nameOf := by
  funext m
  cases m <;> simp [nameOf]

@[simp] theorem nameTerminated_mark : (es.mark n b).nameTerminated = es.nameTerminated := by
  funext m
  cases m <;> simp [nameTerminated]

@[simp] theorem slotAt_mark (i : Nat) : (es.mark n b).slotAt r m i = es.slotAt r m i := by
  cases m <;> simp [slotAt]

@[simp] theorem children_mark : (es.mark n b).children r = es.children r := by
  simp [children]

end mark

/-- Positions inside the arrays of the entry store. -/
def VFSNode.inStore : VFSNode → Prop
  | .file f => f < VFS_MAX_FILES_AMOUNT
  | .folder .root => False
  | .folder (.slot i) => i < VFS_MAX_FOLDERS_AMOUNT

theorem VFSEntryStore.committed.inStore (h : es.committed n) : n.inStore := by
  rcases n with f | (_ | i)
  · exact h.1
  · exact h
  · exact h.1

theorem committed_mark_true (hn : n.inStore) :
    (es.mark n true).committed m ↔ es.committed m ∨ m = n := by
  -- only the entry of the same kind at the same position changes
  rcases n with f | (_ | i) <;> rcases m with g | (_ | k)
  · by_cases hg : g = f
    · subst hg
      simpa [committed, VFSEntryStore.mark, VFSNode.inStore] using hn
    · simp [committed, VFSEntryStore.mark, hg]
  · simp [committed]
  · simp [committed, VFSEntryStore.mark]
  · simp [VFSNode.inStore] at hn
  · simp [VFSNode.inStore] at hn
  · simp [VFSNode.inStore] at hn
  · simp [committed, VFSEntryStore.mark]
  · simp [committed]
  · by_cases hk : k = i
    · subst hk
      simpa [committed, VFSEntryStore.mark, VFSNode.inStore] using hn
    · simp [committed, VFSEntryStore.mark, hk]

theorem committed_mark_false :
    (es.mark n false).committed m ↔ es.committed m ∧ m ≠ n := by
  rcases n with f | (_ | i) <;> rcases m with g | (_ | k)
  · by_cases hg : g = f
    · subst hg
      simp [committed, VFSEntryStore.mark]
    · simp [committed, VFSEntryStore.mark, hg]
  · simp [committed]
  · simp [committed, VFSEntryStore.mark]
  · simp [committed, VFSEntryStore.mark]
  · simp [committed]
  · simp [committed, VFSEntryStore.mark]
  · simp [committed, VFSEntryStore.mark]
  · simp [committed]
  · by_cases hk : k = i
    · subst hk
      simp [committed, VFSEntryStore.mark]
    · simp [committed, VFSEntryStore.mark, hk]

/-- The record of an entry that is not committed has been initialised (`es₁`), and
    the entry linked and marked (`es'`). -/
theorem putUnder_create (ht : FolderTree es) (hsame : SameTree es es₁) (hn : n.inStore)
    (hfree : ¬ es.committed n) (hp : es.live p) (hterm : es₁.nameTerminated n)
    (hvacant : ∀ r, n = .folder r → es₁.children r = [] ∧ (es₁.folderAt r).is_root = false)
    (hcomm : ∀ m, es'.committed m ↔ es₁.committed m ∨ m = n)
    (hparent : es'.parentOf = Function.update es₁.parentOf n (some p))
    (hname : es'.nameOf = es₁.nameOf) (hterm' : es'.nameTerminated = es₁.nameTerminated)
    (hroot : ∀ r, (es'.folderAt r).is_root = (es₁.folderAt r).is_root)
    (hchildren : ∀ r, (es'.children r).Perm
      (if r = p then n :: es₁.children r else es₁.children r)) :
    PutUnder es es' n p := by
  have hnroot : n ≠ .folder .root := by
    intro rfl
    exact hn
  -- the new entry is not its own parent
  have hnp : n ≠ .folder p := by
    intro rfl
    rcases hp with rfl | hp
    · exact hn
    · exact hfree hp
  constructor
  case committed_iff =>
    intro m
    rw [hcomm, hsame.committed_iff]
  case parent_eq => simp [hparent]
  case terminated => rwa [hterm']
  case parentOf_eq =>
    intro m hm hmc
    rw [hparent, Function.update_of_ne hm, hsame.parentOf_eq m hmc]
  case nameOf_eq =>
    intro m _ hmc
    rw [hname, hsame.nameOf_eq m hmc]
  case terminated_iff =>
    intro m _ hmc
    rw [hterm', hsame.terminated_iff m hmc]
  case is_root_eq =>
    intro r hr
    rw [hroot, hsame.is_root_eq r hr]
  case not_root =>
    intro k rfl
    exact (hroot (.slot k)).trans (hvacant _ rfl).2
  case root_parent_eq =>
    rw [hparent, Function.update_of_ne (Ne.symm hnroot)]
    exact hsame.root_parent_eq
  case children_perm =>
    intro r hr
    -- it was a child of no folder
    have hnr : n ∉ es.children r := fun h => hfree (ht.children_committed r hr n h).1
    rw [List.erase_of_not_mem hnr, ← hsame.children_eq r hr]
    exact hchildren r
  case children_new =>
    intro r hr hnr
    -- the only folder that comes alive is the new one, and it is vacant
    have hnr' : n = .folder r := by
      rcases hr with rfl | hr
      · exact absurd live_root hnr
      · rcases (hcomm _).mp hr with h | h
        · exact absurd ((hsame.committed_iff _).mp h).live hnr
        · exact h.symm
    have hrp : r ≠ p := fun h => hnp (h ▸ hnr')
    have := hchildren r
    rw [if_neg hrp, (hvacant r hnr').1] at this
    exact List.perm_nil.mp this

/-- The entry has been unlinked from its slot and unmarked. -/
theorem takenOut_remove (ht : FolderTree es) (hn : es.committed n)
    (hq : es.parentOf n = some q) (hj : j < slotsFor n) (hs : es.slotAt q n j = some n)
    (hcomm : ∀ m, es'.committed m ↔ es.committed m ∧ m ≠ n)
    (hparent : ∀ m, m ≠ n → es'.parentOf m = es.parentOf m)
    (hname : es'.nameOf = es.nameOf) (hterm : es'.nameTerminated = es.nameTerminated)
    (hroot : ∀ r, (es'.folderAt r).is_root = (es.folderAt r).is_root)
    (hchildren : ∀ r, es'.children r = (es.clearSlot q n j).children r) :
    TakenOut es es' n := by
  constructor
  case committed_iff => exact hcomm
  case parentOf_eq => exact fun m hm _ => hparent m hm
  case nameOf_eq =>
    intro m _ _
    rw [hname]
  case terminated_iff =>
    intro m _ _
    rw [hterm]
  case is_root_eq => exact fun r _ => hroot r
  case root_parent_eq => exact hparent _ (Ne.symm hn.ne_root)
  case children_perm =>
    intro r hr
    -- what is live afterwards was live before
    have hr' : es.live r := by
      rcases hr with rfl | hr
      · exact live_root
      · exact ((hcomm _).mp hr).1.live
    rw [hchildren]
    exact children_clearSlot hj hs (ht.not_mem_other hn hq hr')

/-! ## Section 3: Summary of an edit -/

/-- The data of a file: everything but its name and parent. -/
def SameData (e e' : File) : Prop :=
  e'.allocated_size = e.allocated_size ∧ e'.data_chunk_extents = e.data_chunk_extents

/-- A file without data. -/
def Blank (e : File) : Prop :=
  e.allocated_size = 0 ∧
    ∀ i, i < MAX_FILE_CHUNK_EXTENTS_AMOUNT → (e.data_chunk_extents i).is_empty = true

theorem SameData.refl (e : File) : SameData e e := ⟨rfl, rfl⟩

/-- What a successful creation, move or renaming does: the entry `n` is put under `p`
    with an acceptable name that no other child of `p` has. -/
structure Edited (es es' : VFSEntryStore) (n : VFSNode) (p : FolderRef) : Prop where
  /-- The entry hangs below `p`, and the rest of the tree is as before. -/
  put : PutUnder es es' n p
  /-- The new parent is in the store. -/
  parent_live : es.live p
  /-- The new parent is not below the entry. -/
  no_cycle : ¬ Below es.tree n (.folder p)
  /-- The new name has passed the checks. -/
  name_acceptable : NameAcceptable (es'.nameOf n)
  /-- No other child of the parent has it. -/
  name_new : ∀ m ∈ es.children p, es.nameOf m = es'.nameOf n → m = n
  /-- Files keep their sizes and their extents. -/
  data : ∀ f, es.committed (.file f) → SameData (es.files f) (es'.files f)
  /-- A new file has no chunks. -/
  blank : ∀ f, n = .file f → ¬ es.committed n → Blank (es'.files f)
  /-- The entry has a position in the arrays of the store. -/
  in_store : n.inStore
  /-- No other record that is not in use is touched. -/
  frame : ∀ r, ¬ es.live r → n ≠ .folder r → es'.folderAt r = es.folderAt r

/-- An entry that stays committed, under a new name or a new parent. -/
theorem edited_of_committed {x : List Byte} (hn : es.committed n) (hput : PutUnder es es' n p)
    (hp : es.live p) (hcycle : ¬ Below es.tree n (.folder p)) (hname : es'.nameOf n = x)
    (hok : NameAcceptable x) (hnew : es.NameIsNew p x)
    (hdata : ∀ f, SameData (es.files f) (es'.files f))
    (hframe : ∀ r, ¬ es.live r → n ≠ .folder r → es'.folderAt r = es.folderAt r) :
    Edited es es' n p where
  put := hput
  parent_live := hp
  no_cycle := hcycle
  name_acceptable := by rwa [hname]
  name_new := by
    rw [hname]
    exact fun m hm hmn => absurd hmn (hnew m hm)
  data := fun f _ => hdata f
  blank := fun _ _ hfree => absurd hn hfree
  in_store := hn.inStore
  frame := hframe

theorem Edited.ne_root (h : Edited es es' n p) : n ≠ .folder .root := by
  intro rfl
  exact h.in_store

theorem Edited.folderTree (h : Edited es es' n p) (ht : FolderTree es) : FolderTree es' :=
  ht.put h.put h.parent_live h.ne_root h.no_cycle h.name_acceptable h.name_new

theorem Edited.tree_eq (h : Edited es es' n p) :
    es'.tree = Function.update es.tree n (some (.folder p, es'.nameOf n)) :=
  h.put.tree_eq

end VirtualFS
