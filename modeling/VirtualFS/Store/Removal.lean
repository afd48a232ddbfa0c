import VirtualFS.Hierarchy.Operations
import VirtualFS.Disk.Ownership

/-! # Removing Entries

    Deleting one entry without children, and any number of them in sequence.
    `Prunes P` says that only entries with property `P` have been deleted, one
    by one; what stays is left as it was.

    * `EntryRemoved`: one entry is gone, with its slot, its mark and its chunks.
    * `Prunes`, `PrunesAll`: some of the entries with a property are gone, or all.
    * `Prunes.same`, `Prunes.frame`: what the others keep.
    * `Prunes.sound`: the invariants, by induction on the removals.
-/

namespace VirtualFS

open Framework Prog Outcome ParentMap VFSEntryStore

/-- What every operation on the store relies on. -/
structure Sound (s : VFS) : Prop where
  /-- The folder tree invariant. -/
  tree : FolderTree s.entry_store
  /-- Files hold allocated chunks, and no two of them share one. -/
  chunks : ChunksOwned s

variable {s s₁ s' : VFS} {n m : VFSNode} {f g : FileRef} {p r d : FolderRef} {c i : Nat}
  {P Q : VFSNode → Prop}

/-! ## Section 1: One entry -/

/-- `s'` is `s` after the deletion of `n`, which had no children. -/
structure EntryRemoved (s s' : VFS) (n : VFSNode) : Prop where
  /-- The entry was in the store. -/
  committed : s.entry_store.committed n
  /-- A folder has lost its children before it goes. -/
  flat : ∀ r, n = .folder r → s.entry_store.children r = []
  /-- It is the only entry that has gone. -/
  out : TakenOut s.entry_store s'.entry_store n
  /-- No slot is changed but the one that pointed to it, which is NULL. -/
  slots : ∀ r m i, s'.entry_store.slotAt r m i = s.entry_store.slotAt r m i ∨
    (s.entry_store.slotAt r m i = some n ∧ s'.entry_store.slotAt r m i = none)
  /-- The records of other files are kept. -/
  files_eq : ∀ g, n ≠ .file g → s'.entry_store.files g = s.entry_store.files g
  /-- The record of a folder is reset. -/
  vacated : ∀ r, n = .folder r → Vacated s'.entry_store r
  /-- Records that were not in use stay as they are. -/
  frame : ∀ r, ¬ s.entry_store.live r →
    s'.entry_store.folderAt r = s.entry_store.folderAt r
  /-- The chunks of a file are given back with it, and no others. -/
  allocated_iff : ∀ c, s'.storage_man.allocation_map c = true ↔
    s.storage_man.allocation_map c = true ∧
      ∀ f, n = .file f → c ∉ (s.entry_store.files f).chunks
  /-- A counter that was right is right again. -/
  free_count : s.storage_man.CountOk → s'.storage_man.CountOk
  /-- No byte of the disk is overwritten. -/
  storage_eq : s'.storage_man.storage = s.storage_man.storage

theorem FolderRemoved.entryRemoved {es' : VFSEntryStore}
    (h : FolderRemoved s.entry_store es' d) :
    EntryRemoved s { s with entry_store := es' } (.folder d) where
  committed := h.committed
  flat := by
    rintro r ⟨⟩
    exact h.flat
  out := h.out
  slots := h.slots
  files_eq := fun g _ => congrFun h.files_eq g
  vacated := by
    rintro r ⟨⟩
    exact h.vacated
  frame := h.frame
  allocated_iff := by simp
  free_count := id
  storage_eq := rfl

/-- Deleting a file always succeeds. -/
theorem delete_vfs_file_run (hs : Sound s) (hf : s.entry_store.committed (.file f)) :
    ∃ s', delete_vfs_file f s = .ok () s' ∧ EntryRemoved s s' (.file f) := by
  obtain ⟨q, j, hq, hj, hslot, hunlink⟩ := unlink_sub_file_run hs.tree hf
  have hlive : s.entry_store.live q := hs.tree.parent_live hf hq
  generalize hes₁ :
      (s.entry_store.clearSlot q (.file f) j).setParent (.file f) none = es₁ at hunlink
  -- unlinking keeps the data of files
  have hdata : ∀ g, SameData (s.entry_store.files g) (es₁.files g) := by
    intro g
    rw [← hes₁]
    by_cases hg : g = f
    · subst hg
      simp [SameData, setParent, setFileParent, clearSlot, setSubFile]
    · simp [SameData, setParent, setFileParent, clearSlot, setSubFile, hg]
  have howns : OwnsChunks { s with entry_store := es₁ } f := by
    have hold := hs.chunks.ownsChunks hf
    exact ⟨(hdata f).fileOk hold.file_ok, fun c hc => hold.allocated c
      ((hdata f).chunks_eq ▸ hc)⟩
  obtain ⟨s₂, hdelete, heffect, hchunks, hstorage⟩ := file_delete_data_effect howns
  refine ⟨{ s₂ with entry_store := s₂.entry_store.mark (.file f) false }, ?_, ?_⟩
  · have hparent : (s.entry_store.files f).parent_folder = some q := hq
    have hvalid := validate_vfs_folder_ok_iff.mpr hlive
    simp [delete_vfs_file, hparent, hvalid, Nat.not_le.mpr hf.1, onEntryStore, hunlink, hdelete,
      mark]
  · have hcomm : s₂.entry_store.committed = s.entry_store.committed := by
      rw [heffect.committed_eq, ← hes₁]
      simp
    constructor
    case committed => exact hf
    case flat =>
      rintro r ⟨⟩
    case out =>
      refine takenOut_remove hs.tree hf hq hj hslot ?_ ?_ ?_ ?_ ?_ ?_
      · intro m
        rw [committed_mark_false, hcomm]
      · intro m hm
        rw [parentOf_mark, heffect.parentOf_eq, ← hes₁, parentOf_setParent,
          Function.update_of_ne hm, parentOf_clearSlot]
      · rw [nameOf_mark, heffect.nameOf_eq, ← hes₁, nameOf_setParent, nameOf_clearSlot]
      · rw [nameTerminated_mark, heffect.nameTerminated_eq, ← hes₁, nameTerminated_setParent,
          nameTerminated_clearSlot]
      · intro r
        rw [folderAt_mark, heffect.folderAt_eq, ← hes₁, is_root_setParent, is_root_clearSlot]
      · intro r
        rw [children_mark, heffect.children_eq, ← hes₁, children_setParent]
    case slots =>
      intro r m k
      have : (s₂.entry_store.mark (.file f) false).slotAt r m k =
          (s.entry_store.clearSlot q (.file f) j).slotAt r m k := by
        rw [slotAt_mark]
        cases m <;>
          simp only [slotAt, heffect.folderAt_eq, ← hes₁, setParent, setFileParent,
            folderAt_setFile]
      rw [this]
      exact slotAt_clearSlot_cases hslot
    case files_eq =>
      intro g hg
      have hgf : g ≠ f := by
        intro rfl
        exact hg rfl
      rw [files_mark, heffect.files_eq hgf, ← hes₁]
      simp [setParent, setFileParent, clearSlot, setSubFile, hgf]
    case vacated =>
      rintro r ⟨⟩
    case frame =>
      intro r hr
      have hrq : r ≠ q := fun h => hr (h ▸ hlive)
      rw [folderAt_mark, heffect.folderAt_eq, ← hes₁, folderAt_setParent_ne _ _ _ _ (by simp),
        folderAt_clearSlot_ne _ _ _ _ _ hrq]
    case allocated_iff =>
      intro c
      have := heffect.allocated_iff c
      rw [hchunks, (hdata f).chunks_eq] at this
      simpa using this
    case free_count => exact heffect.free_count
    case storage_eq => exact hstorage

/-- Removing one entry keeps the invariants. -/
theorem EntryRemoved.sound (h : EntryRemoved s s' n) (hs : Sound s) : Sound s' where
  tree := hs.tree.takeOut h.out h.flat
  chunks := by
    -- the files that are left are others than the removed one, and unchanged
    have hkeep : ∀ g, s'.entry_store.committed (.file g) →
        s.entry_store.committed (.file g) ∧ n ≠ .file g ∧
          s'.entry_store.files g = s.entry_store.files g := by
      intro g hg
      obtain ⟨hg', hne⟩ := (h.out.committed_iff _).mp hg
      exact ⟨hg', Ne.symm hne, h.files_eq g (Ne.symm hne)⟩
    constructor
    case file_ok =>
      intro g hg
      obtain ⟨hg', _, heq⟩ := hkeep g hg
      rw [heq]
      exact hs.chunks.file_ok g hg'
    case allocated =>
      intro g hg c hc
      obtain ⟨hg', hne, heq⟩ := hkeep g hg
      rw [heq] at hc
      refine (h.allocated_iff c).mpr ⟨hs.chunks.allocated g hg' c hc, ?_⟩
      intro f rfl
      have hgf : g ≠ f := by
        intro rfl
        exact hne rfl
      exact hs.chunks.disjoint g f hg' h.committed hgf c hc
    case disjoint =>
      intro g k hg hk hgk c hcg
      obtain ⟨hg', _, heqg⟩ := hkeep g hg
      obtain ⟨hk', _, heqk⟩ := hkeep k hk
      rw [heqg] at hcg
      rw [heqk]
      exact hs.chunks.disjoint g k hg' hk' hgk c hcg

/-- The chunks of a removed file become free, and only those. -/
theorem EntryRemoved.ownership (h : EntryRemoved s s' n) (hs : Sound s) (ho : Ownership s) :
    Ownership s' where
  toChunksOwned := (h.sound hs).chunks
  owned := by
    intro c hc hmap
    obtain ⟨hold, hnot⟩ := (h.allocated_iff c).mp hmap
    obtain ⟨g, hg, hcg⟩ := ho.owned c hc hold
    have hne : VFSNode.file g ≠ n := by
      intro rfl
      exact hnot g rfl hcg
    exact ⟨g, (h.out.committed_iff _).mpr ⟨hg, hne⟩, by
      rwa [h.files_eq g (Ne.symm hne)]⟩
  free_count := h.free_count ho.free_count

/-! ## Section 2: Sequences of removals -/

/-- Entries with property `P` have been deleted one by one. -/
inductive Prunes (P : VFSNode → Prop) (s : VFS) : VFS → Prop where
  /-- No entry is removed. -/
  | refl   : Prunes P s s
  /-- One more entry is removed. -/
  | remove : ∀ {s₁ s' : VFS} (n : VFSNode),
               Prunes P s s₁ → P n → EntryRemoved s₁ s' n → Prunes P s s'

namespace Prunes

/-- A larger property allows more removals. -/
theorem mono (h : Prunes P s s') (hPQ : ∀ n, P n → Q n) : Prunes Q s s' := by
  induction h with
  | refl => exact Prunes.refl
  | remove n _ hn hrem ih => exact ih.remove n (hPQ n hn) hrem

theorem trans (h : Prunes P s s₁) (h' : Prunes P s₁ s') : Prunes P s s' := by
  induction h' with
  | refl => exact h
  | remove n _ hn hrem ih => exact ih.remove n hn hrem

/-- If nothing may be removed nothing has changed. -/
theorem eq_of_none (h : Prunes P s s') (hP : ∀ n, ¬ P n) : s' = s := by
  cases h with
  | refl => rfl
  | remove n _ hn _ => exact absurd hn (hP n)

/-- Any number of removals keeps the invariants. -/
theorem sound (h : Prunes P s s') (hs : Sound s) : Sound s' := by
  induction h with
  | refl => exact hs
  | remove n _ _ hrem ih => exact hrem.sound ih

theorem ownership (h : Prunes P s s') (hs : Sound s) (ho : Ownership s) : Ownership s' := by
  induction h with
  | refl => exact ho
  | remove n hp _ hrem ih => exact hrem.ownership (hp.sound hs) ih

theorem storage_eq (h : Prunes P s s') : s'.storage_man.storage = s.storage_man.storage := by
  induction h with
  | refl => rfl
  | remove n _ _ hrem ih => exact hrem.storage_eq.trans ih

/-- What is left was there before. -/
theorem committed_of (h : Prunes P s s') (hm : s'.entry_store.committed m) :
    s.entry_store.committed m := by
  induction h with
  | refl => exact hm
  | remove n _ _ hrem ih => exact ih ((hrem.out.committed_iff m).mp hm).1

theorem live_of (h : Prunes P s s') (hr : s'.entry_store.live r) : s.entry_store.live r :=
  hr.imp id h.committed_of

/-- Entries without property `P` stay. -/
theorem kept (h : Prunes P s s') (hm : s.entry_store.committed m) (hP : ¬ P m) :
    s'.entry_store.committed m := by
  induction h with
  | refl => exact hm
  | remove n _ hn hrem ih =>
    refine (hrem.out.committed_iff m).mpr ⟨ih, ?_⟩
    intro rfl
    exact hP hn

/-- A folder that may not be removed is still live. -/
theorem live_kept (h : Prunes P s s') (hr : s.entry_store.live r) (hP : ¬ P (.folder r)) :
    s'.entry_store.live r := hr.imp id fun hc => h.kept hc hP

/-- Parent, name and record of the entries that stay. -/
theorem same (h : Prunes P s s') (hm : s'.entry_store.committed m) :
    s'.entry_store.parentOf m = s.entry_store.parentOf m ∧
      s'.entry_store.nameOf m = s.entry_store.nameOf m ∧
      ∀ g, m = .file g → s'.entry_store.files g = s.entry_store.files g := by
  -- A node that is left at the end was left after every removal.
  induction h with
  | refl => exact ⟨rfl, rfl, fun _ _ => rfl⟩
  | remove n _ _ hrem ih =>
    obtain ⟨hm', hmn⟩ := (hrem.out.committed_iff m).mp hm
    obtain ⟨hparent, hname, hfile⟩ := ih hm'
    refine ⟨(hrem.out.parentOf_eq m hmn hm').trans hparent,
      (hrem.out.nameOf_eq m hmn hm').trans hname, ?_⟩
    intro g rfl
    exact (hrem.files_eq g (Ne.symm hmn)).trans (hfile g rfl)

/-- What is left hangs where it did. -/
theorem tree_eq (h : Prunes P s s') (hm : s'.entry_store.committed m) :
    s'.entry_store.tree m = s.entry_store.tree m := by
  obtain ⟨hparent, hname, _⟩ := h.same hm
  unfold VFSEntryStore.tree
  rw [if_pos hm, if_pos (h.committed_of hm), hparent, hname]

theorem tree_of {e : VFSNode × List Byte} (h : Prunes P s s')
    (he : s'.entry_store.tree m = some e) : s.entry_store.tree m = some e := by
  obtain ⟨q, x⟩ := e
  have hm := (tree_eq_some.mp he).1
  rw [← h.tree_eq hm]
  exact he

/-- Paths in what is left are paths in the old tree. -/
theorem pathFrom_of {l : List (List Byte)} (h : Prunes P s s')
    (hl : PathFrom s'.entry_store.tree n m l) : PathFrom s.entry_store.tree n m l := by
  induction hl with
  | nil => exact PathFrom.nil
  | child hT _ ih => exact PathFrom.child (h.tree_of hT) ih

/-- Paths in a subtree that is left alone stay. -/
theorem pathFrom {l : List (List Byte)} (h : Prunes P s s')
    (hP : ∀ k, Below s.entry_store.tree n k → ¬ P k)
    (hl : PathFrom s.entry_store.tree n m l) : PathFrom s'.entry_store.tree n m l := by
  induction hl with
  | nil => exact PathFrom.nil
  | child hT hp ih =>
    have hcomm := h.kept (tree_eq_some.mp hT).1 (hP _ (Below.child hT ⟨_, hp⟩))
    exact PathFrom.child ((h.tree_eq hcomm).trans hT) ih

/-- A slot changes only by being cleared. -/
theorem slot_cases (h : Prunes P s s') (r : FolderRef) (m : VFSNode) (i : Nat) :
    s'.entry_store.slotAt r m i = s.entry_store.slotAt r m i ∨
      s'.entry_store.slotAt r m i = none ∧
        ∃ n, s.entry_store.slotAt r m i = some n ∧ P n := by
  -- A slot is cleared at most once, by the removal of the node that it holds.
  induction h with
  | refl => exact Or.inl rfl
  | remove n _ hn hrem ih =>
    rcases hrem.slots r m i with heq | ⟨hold, hnone⟩
    · rw [heq]
      exact ih
    · rcases ih with heq | ⟨hnone', _⟩
      · exact Or.inr ⟨hnone, n, heq ▸ hold, hn⟩
      · rw [hnone'] at hold
        cases hold

theorem slot_vacant (h : Prunes P s s') (hv : s.entry_store.slotAt r m i = none) :
    s'.entry_store.slotAt r m i = none := by
  rcases h.slot_cases r m i with heq | ⟨hnone, _⟩
  · rw [heq, hv]
  · exact hnone

/-- A slot whose entry may not be removed keeps it. -/
theorem slot_kept (h : Prunes P s s') (hs : s.entry_store.slotAt r m i = some n) (hP : ¬ P n) :
    s'.entry_store.slotAt r m i = some n := by
  rcases h.slot_cases r m i with heq | ⟨_, k, hk, hPk⟩
  · rw [heq, hs]
  · rw [hs] at hk
    cases hk
    exact absurd hPk hP

/-- Records of folders outside the tree stay. -/
theorem frame (h : Prunes P s s') (hr : ¬ s.entry_store.live r) :
    s'.entry_store.folderAt r = s.entry_store.folderAt r := by
  induction h with
  | refl => rfl
  | remove n hp _ hrem ih =>
    rw [hrem.frame r fun hlive => hr (hp.live_of hlive), ih]

/-- A folder that is gone has been left without links. -/
theorem vacated (h : Prunes P s s') (hr : s.entry_store.live r)
    (hr' : ¬ s'.entry_store.live r) : Vacated s'.entry_store r := by
  induction h with
  | refl => exact absurd hr hr'
  | @remove s₁ s' n hp _ hrem ih =>
    by_cases hlive : s₁.entry_store.live r
    · -- deleted in the last step
      apply hrem.vacated r
      rcases hlive with rfl | hc
      · exact absurd live_root hr'
      · by_contra hne
        exact hr' ((hrem.out.committed_iff _).mpr ⟨hc, Ne.symm hne⟩).live
    · obtain ⟨hchildren, hparent, hroot⟩ := ih hlive
      have heq := hrem.frame r hlive
      refine ⟨?_, ?_, ?_⟩
      · rw [VFSEntryStore.children, heq]
        exact hchildren
      · rw [heq, hparent]
      · rw [heq, hroot]

end Prunes

/-! ### Exactly the entries with a property -/

/-- The entries with property `P` have been deleted and no others. -/
structure PrunesAll (P : VFSNode → Prop) (s s' : VFS) : Prop where
  /-- Only entries with the property have been deleted. -/
  prunes : Prunes P s s'
  /-- None of them is left. -/
  gone : ∀ m, P m → ¬ s'.entry_store.committed m

namespace PrunesAll

theorem refl (h : ∀ m, ¬ P m) : PrunesAll P s s := ⟨Prunes.refl, fun m hm => absurd hm (h m)⟩

theorem congr (h : PrunesAll P s s') (hPQ : ∀ m, Q m ↔ P m) : PrunesAll Q s s' :=
  ⟨h.prunes.mono fun m hm => (hPQ m).mpr hm, fun m hm => h.gone m ((hPQ m).mp hm)⟩

theorem trans {R : VFSNode → Prop} (h : PrunesAll P s s₁) (h' : PrunesAll Q s₁ s')
    (hR : ∀ m, R m ↔ P m ∨ Q m) : PrunesAll R s s' where
  prunes := (h.prunes.mono fun m hm => (hR m).mpr (Or.inl hm)).trans
    (h'.prunes.mono fun m hm => (hR m).mpr (Or.inr hm))
  gone := by
    intro m hm hc
    rcases (hR m).mp hm with hP | hQ
    · exact h.gone m hP (h'.prunes.committed_of hc)
    · exact h'.gone m hQ hc

theorem remove (h : PrunesAll P s s₁) (hn : EntryRemoved s₁ s' n)
    (hR : ∀ m, Q m ↔ P m ∨ m = n) : PrunesAll Q s s' :=
  h.trans (Q := fun m => m = n) ⟨Prunes.refl.remove n rfl hn,
    fun _ hm hc => ((hn.out.committed_iff _).mp hc).2 hm⟩ hR

end PrunesAll

end VirtualFS
