import VirtualFS.Store.Removal

/-! # Recursive Deletion

    The recursion of `delete_vfs_folder` deletes the files of a folder, then
    its sub-folders in the order of their slots, then the folder. It stops
    half-way when a sub-folder is too deep, and at the root. `deletes` says
    which entries are gone in the end, `fits` when the recursion gets through.

    The induction is on the levels of the recursion. A call deletes exactly the
    entries of `deletes`, so the sub-folders that are still to come are untouched
    by the calls for those before them; `Untouched` carries this along.

    * `delete_children_recursive_sat`: the recursion.
    * `delete_vfs_folder_sat`: the call, for any folder and with or without `force`.
-/

namespace VirtualFS

open Framework Prog Outcome ParentMap VFSEntryStore

variable {s s₁ s' : VFS} {es : VFSEntryStore} {n m : VFSNode} {f : FileRef}
  {p r d t : FolderRef} {i k : Nat}

/-! ## Section 1: What the recursion deletes -/

/-- The entries that the recursion deletes below `r` with `k` steps left: the files
    of `r`; what it deletes in the sub-folders up to the first one that is too deep;
    and `r` itself, if it gets that far. -/
def VFSEntryStore.deletes (es : VFSEntryStore) : (k : Nat) → (r : FolderRef) → VFSNode → Prop
  | 0, _, _ => False
  | k + 1, r, m =>
    (∃ f, m = .file f ∧ m ∈ es.children r) ∨
    (∃ i d, i < MAX_SUB_FOLDERS_AMOUNT ∧ (es.folderAt r).sub_folders i = some d ∧
      (∀ j d', j < i → (es.folderAt r).sub_folders j = some d' → es.fits k d') ∧
      es.deletes k d m) ∨
    (m = .folder r ∧ r ≠ .root ∧ es.fits (k + 1) r)

/-- Children are below their folder. -/
theorem FolderTree.below_child (ht : FolderTree es) (hr : es.live r) (hn : n ∈ es.children r) :
    Below es.tree (.folder r) n :=
  Below.refl.child (ht.tree_eq hr hn)

/-- Only entries below `r` are deleted. -/
theorem FolderTree.below_of_deletes (ht : FolderTree es) (hr : es.live r)
    (h : es.deletes k r m) : Below es.tree (.folder r) m := by
  -- On the levels of the recursion: a removed node is a file of the folder, is removed by a call
  -- for a sub-folder, or is the folder.
  induction k generalizing r with
  | zero => exact h.elim
  | succ k ih =>
    rcases h with ⟨f, rfl, hf⟩ | ⟨i, d, hi, hd, _, hm⟩ | ⟨rfl, _⟩
    · exact ht.below_child hr hf
    · have hmem : .folder d ∈ es.children r := folder_mem_children.mpr ⟨i, hi, hd⟩
      have hlive := (ht.children_committed r hr _ hmem).1.live
      exact (ht.below_child hr hmem).trans (ih hlive hm)
    · exact Below.refl

/-- The root is never deleted. -/
theorem FolderTree.not_deletes_root (ht : FolderTree es) (hr : es.live r) :
    ¬ es.deletes k r (.folder .root) := by
  -- The root is no sub-folder, and a call for the root does not remove it.
  induction k generalizing r with
  | zero => exact id
  | succ k ih =>
    rintro (⟨f, h, _⟩ | ⟨i, d, hi, hd, _, hm⟩ | ⟨h, hne, _⟩)
    · cases h
    · have hmem : .folder d ∈ es.children r := folder_mem_children.mpr ⟨i, hi, hd⟩
      exact ih (ht.children_committed r hr _ hmem).1.live hm
    · cases h
      exact hne rfl

/-- No entry is below two different children of a folder. -/
theorem FolderTree.below_siblings (ht : FolderTree es) (hr : es.live r) {a b : VFSNode}
    (ha : a ∈ es.children r) (hb : b ∈ es.children r) (ham : Below es.tree a m)
    (hbm : Below es.tree b m) : a = b := by
  have hta := ht.tree_eq hr ha
  have htb := ht.tree_eq hr hb
  by_contra hne
  rcases ham.total hbm with h | h
  · exact ht.wellFormed.not_below_parent hta (h.through_parent (Ne.symm hne) htb)
  · exact ht.wellFormed.not_below_parent htb (h.through_parent hne hta)

/-! ### Subtrees that are left alone -/

section untouched

variable {P : VFSNode → Prop}

/-- No entry below `d` has been deleted. -/
def Untouched (P : VFSNode → Prop) (s : VFS) (d : FolderRef) : Prop :=
  ∀ n, Below s.entry_store.tree (.folder d) n → ¬ P n

/-- What is below an untouched folder is untouched. -/
theorem Untouched.child (h : Untouched P s d) (ht : FolderTree s.entry_store)
    (hd : s.entry_store.live d) (ht' : .folder t ∈ s.entry_store.children d) :
    Untouched P s t :=
  fun n hn => h n ((ht.below_child hd ht').trans hn)

/-- Removals elsewhere do not change the depth below a folder. -/
theorem Untouched.fits_iff (h : Untouched P s d) (hp : Prunes P s s') :
    s'.entry_store.fits k d ↔ s.entry_store.fits k d := by
  constructor
  · intro hf c l hl
    exact hf c l (hp.pathFrom h hl)
  · intro hf c l hl
    exact hf c l (hp.pathFrom_of hl)

theorem slotAt_folder_eq_some :
    es.slotAt r (.folder t) i = some (.folder d) ↔ (es.folderAt r).sub_folders i = some d := by
  simp [slotAt]

theorem slotAt_file_eq_some {g : FileRef} :
    es.slotAt r (.file g) i = some (.file f) ↔ (es.folderAt r).sub_files i = some f := by
  simp [slotAt]

theorem slotAt_folder_eq_none :
    es.slotAt r (.folder t) i = none ↔ (es.folderAt r).sub_folders i = none := by
  simp [slotAt]

theorem slotAt_file_eq_none :
    es.slotAt r (.file f) i = none ↔ (es.folderAt r).sub_files i = none := by
  simp [slotAt]

/-- The slots of a folder in such a subtree. -/
theorem Untouched.sub_folders_eq (h : Untouched P s d) (hs : Sound s)
    (hd : s.entry_store.live d) (hp : Prunes P s s') (hi : i < MAX_SUB_FOLDERS_AMOUNT) :
    (s'.entry_store.folderAt d).sub_folders i = (s.entry_store.folderAt d).sub_folders i := by
  cases hslot : (s.entry_store.folderAt d).sub_folders i with
  | none => exact slotAt_folder_eq_none.mp (hp.slot_vacant (m := .folder d)
      (slotAt_folder_eq_none.mpr hslot))
  | some t =>
    have hmem : .folder t ∈ s.entry_store.children d :=
      folder_mem_children.mpr ⟨i, hi, hslot⟩
    have hkept := h _ (hs.tree.below_child hd hmem)
    exact slotAt_folder_eq_some.mp (hp.slot_kept (m := .folder d)
      (slotAt_folder_eq_some.mpr hslot) hkept)

theorem Untouched.file_mem_iff (h : Untouched P s d) (hs : Sound s)
    (hd : s.entry_store.live d) (hp : Prunes P s s') (hd' : s'.entry_store.live d) :
    .file f ∈ s'.entry_store.children d ↔ .file f ∈ s.entry_store.children d := by
  have hs' := hp.sound hs
  rw [hs'.tree.mem_children_iff hd', hs.tree.mem_children_iff hd]
  constructor
  · intro ⟨hc, hparent⟩
    exact ⟨hp.committed_of hc, (hp.same hc).1 ▸ hparent⟩
  · intro ⟨hc, hparent⟩
    have hmem := (hs.tree.mem_children_iff hd).mpr ⟨hc, hparent⟩
    have hc' := hp.kept hc (h _ (hs.tree.below_child hd hmem))
    exact ⟨hc', (hp.same hc').1.trans hparent⟩

/-- Nor do they change what the recursion deletes below it. -/
theorem Untouched.deletes_iff (h : Untouched P s d) (hs : Sound s)
    (hd : s.entry_store.live d) (hp : Prunes P s s') :
    s'.entry_store.deletes k d m ↔ s.entry_store.deletes k d m := by
  -- What the recursion removes below `d` depends on the slots below `d` only, and these have not
  -- been touched.
  induction k generalizing d with
  | zero => exact Iff.rfl
  | succ k ih =>
    have hd' : s'.entry_store.live d := hp.live_kept hd (h _ Below.refl)
    have hsub : ∀ i, i < MAX_SUB_FOLDERS_AMOUNT → ∀ t,
        (s.entry_store.folderAt d).sub_folders i = some t →
          .folder t ∈ s.entry_store.children d :=
      fun i hi t ht => folder_mem_children.mpr ⟨i, hi, ht⟩
    have hslots : ∀ i, i < MAX_SUB_FOLDERS_AMOUNT →
        (s'.entry_store.folderAt d).sub_folders i =
          (s.entry_store.folderAt d).sub_folders i :=
      fun i hi => h.sub_folders_eq hs hd hp hi
    unfold VFSEntryStore.deletes
    refine or_congr ?_ (or_congr ?_ ?_)
    · refine exists_congr fun f => and_congr_right ?_
      intro rfl
      exact h.file_mem_iff hs hd hp hd'
    · refine exists_congr fun i => exists_congr fun t => and_congr_right fun hi => ?_
      rw [hslots i hi]
      refine and_congr_right fun ht => and_congr ?_ ?_
      · refine forall_congr' fun j => forall_congr' fun t' => forall_congr' fun hj => ?_
        rw [hslots j (by omega)]
        apply forall_congr'
        intro ht'
        exact (h.child hs.tree hd (hsub j (by omega) t' ht')).fits_iff hp
      · have hmem := hsub i hi t ht
        exact ih (h.child hs.tree hd hmem) (hs.tree.children_committed d hd _ hmem).1.live
    · rw [h.fits_iff hp]

end untouched

/-! ## Section 2: The two loops -/

/-- A slot that held an entry which is gone is vacant. -/
theorem Sound.slot_ne (hs : Sound s) (hr : s.entry_store.live r) (hi : i < slotsFor n)
    (hn : ¬ s.entry_store.committed n) : s.entry_store.slotAt r n i ≠ some n :=
  fun h => hn (hs.tree.children_committed r hr n (mem_children_of_slotAt hi h)).1

/-- A folder is in one slot. -/
theorem FolderTree.sub_folder_slot_unique {j : Nat} (ht : FolderTree es) (hr : es.live r)
    (hi : i < MAX_SUB_FOLDERS_AMOUNT) (hj : j < MAX_SUB_FOLDERS_AMOUNT)
    (hid : (es.folderAt r).sub_folders i = some d)
    (hjd : (es.folderAt r).sub_folders j = some d) : i = j := by
  have hnd := (ht.children_nodup hr).of_append_right
  exact slot_unique (hnd.of_map _) hi hj hid hjd

/-- The loop over the files of a folder. -/
def delete_sub_files (cur_folder : FolderRef) : Sys VFS Unit :=
  forEach (List.range MAX_SUB_FILES_AMOUNT) fun i => do
    let s ← readState
    match (s.entry_store.folderAt cur_folder).sub_files i with
    | none => return ()
    | some file => delete_vfs_file file

/-- The first loop deletes the files of the folder. -/
theorem delete_sub_files_sat (hs : Sound s) (hr : s.entry_store.live r) :
    (delete_sub_files r s).Sat
      (fun _ s' =>
        PrunesAll (fun m => ∃ f, m = .file f ∧ m ∈ s.entry_store.children r) s s' ∧
        ∀ i, i < MAX_SUB_FILES_AMOUNT → (s'.entry_store.folderAt r).sub_files i = none)
      (fun _ _ => False) (fun _ => False) := by
  unfold delete_sub_files
  -- the slots that are not left to the loop are vacant
  refine (forEach_sat (E := fun _ _ => False) (F := fun _ => False)
    (fun is s₁ => (∀ i ∈ is, i < MAX_SUB_FILES_AMOUNT) ∧
      Prunes (fun m => ∃ f, m = .file f ∧ m ∈ s.entry_store.children r) s s₁ ∧
      ∀ i, i < MAX_SUB_FILES_AMOUNT → i ∉ is →
        (s₁.entry_store.folderAt r).sub_files i = none) ?_ _ s ?_).mono ?_
      (fun _ _ h => h) (fun _ h => h)
  · rintro i is s₁ ⟨hbound, hp, hvacant⟩
    have hs₁ := hp.sound hs
    have hr₁ : s₁.entry_store.live r := hp.live_kept hr (by rintro ⟨f, h, _⟩; cases h)
    have hi := hbound i (List.mem_cons_self ..)
    have hbound' : ∀ j ∈ is, j < MAX_SUB_FILES_AMOUNT :=
      fun j hj => hbound j (List.mem_cons_of_mem i hj)
    simp only [bind_run, readState_run, bind_ok]
    cases hslot : (s₁.entry_store.folderAt r).sub_files i with
    | none =>
      refine ⟨hbound', hp, fun j hj hjs => ?_⟩
      by_cases hji : j = i
      · rw [hji, hslot]
      · exact hvacant j hj (by simp [hji, hjs])
    | some f =>
      have hmem₁ : .file f ∈ s₁.entry_store.children r := file_mem_children.mpr ⟨i, hi, hslot⟩
      obtain ⟨hf₁, hparent₁⟩ := hs₁.tree.children_committed r hr₁ _ hmem₁
      have hmem : .file f ∈ s.entry_store.children r :=
        (hs.tree.mem_children_iff hr).mpr ⟨hp.committed_of hf₁, (hp.same hf₁).1 ▸ hparent₁⟩
      obtain ⟨s₂, hrun, hrem⟩ := delete_vfs_file_run hs₁ hf₁
      have hp₂ := hp.remove _ ⟨f, rfl, hmem⟩ hrem
      have hr₂ : s₂.entry_store.live r := hp₂.live_kept hr (by rintro ⟨f, h, _⟩; cases h)
      have hgone : ¬ s₂.entry_store.committed (.file f) :=
        fun h => ((hrem.out.committed_iff _).mp h).2 rfl
      simp only [hrun, sat_ok]
      refine ⟨hbound', hp₂, fun j hj hjs => ?_⟩
      by_cases hji : j = i
      · subst hji
        rcases hrem.slots r (.file f) j with heq | ⟨_, hnone⟩
        · exact absurd (heq.trans (slotAt_file_eq_some.mpr hslot))
            ((hp₂.sound hs).slot_ne hr₂ hj hgone)
        · exact slotAt_file_eq_none.mp hnone
      · have := hvacant j hj (by simp [hji, hjs])
        rcases hrem.slots r (.file f) j with heq | ⟨_, hnone⟩
        · exact slotAt_file_eq_none.mp (heq.trans (slotAt_file_eq_none.mpr this))
        · exact slotAt_file_eq_none.mp hnone
  · exact ⟨fun i hi => List.mem_range.mp hi, Prunes.refl,
      fun i hi hnot => absurd (List.mem_range.mpr hi) hnot⟩
  · rintro _ s' ⟨_, hp, hvacant⟩
    have hnone : ∀ i, i < MAX_SUB_FILES_AMOUNT →
        (s'.entry_store.folderAt r).sub_files i = none :=
      fun i hi => hvacant i hi (List.not_mem_nil)
    refine ⟨⟨hp, ?_⟩, hnone⟩
    -- a file that is still there would still be in a slot of `r`
    rintro m ⟨f, rfl, hf⟩ hc
    have hr' : s'.entry_store.live r := hp.live_kept hr (by rintro ⟨f, h, _⟩; cases h)
    have hparent := (hs.tree.children_committed r hr _ hf).2
    have hmem := ((hp.sound hs).tree.mem_children_iff hr').mpr
      ⟨hc, (hp.same hc).1.trans hparent⟩
    obtain ⟨i, hi, hslot⟩ := file_mem_children.mp hmem
    rw [hnone i hi] at hslot
    cases hslot

/-- The loop over the sub-folders, with `k` steps left for each. -/
def delete_sub_folders (k : Nat) (cur_folder : FolderRef) (positions : List Nat) : Sys VFS Unit :=
  forEach positions fun i => do
    let s ← readState
    match (s.entry_store.folderAt cur_folder).sub_folders i with
    | none => return ()
    | some sub_folder => delete_children_recursive_from k sub_folder

/-- What has been deleted before slot `a` is looked at. -/
def VFSEntryStore.deletesBefore (es : VFSEntryStore) (k : Nat) (r : FolderRef) (a : Nat)
    (m : VFSNode) : Prop :=
  ∃ i d, i < a ∧ (es.folderAt r).sub_folders i = some d ∧
    (∀ j d', j < i → (es.folderAt r).sub_folders j = some d' → es.fits k d') ∧
    es.deletes k d m

/-- The contract of the recursion with `k` steps left. -/
def DeletesChildren (k : Nat) : Prop :=
  ∀ (s : VFS) (r : FolderRef), Sound s → s.entry_store.live r →
    (delete_children_recursive_from k r s).Sat
      (fun _ s' => PrunesAll (s.entry_store.deletes k r) s s' ∧ ¬ s'.entry_store.live r ∧
        s.entry_store.fits k r)
      (fun _ s' => PrunesAll (s.entry_store.deletes k r) s s' ∧
        (¬ s.entry_store.fits k r ∨ r = .root))
      (fun _ => False)

/-- The subtrees of later slots are left alone. -/
theorem untouched_of_deletesBefore (hs : Sound s) (hr : s.entry_store.live r)
    (hi : i < MAX_SUB_FOLDERS_AMOUNT)
    (hd : (s.entry_store.folderAt r).sub_folders i = some d) :
    Untouched (s.entry_store.deletesBefore k r i) s d := by
  intro n hn ⟨j, d', hj, hd', _, hdel⟩
  have hmem : .folder d ∈ s.entry_store.children r := folder_mem_children.mpr ⟨i, hi, hd⟩
  have hmem' : .folder d' ∈ s.entry_store.children r :=
    folder_mem_children.mpr ⟨j, by omega, hd'⟩
  have hlive' := (hs.tree.children_committed r hr _ hmem').1.live
  have heq := hs.tree.below_siblings hr hmem hmem' hn (hs.tree.below_of_deletes hlive' hdel)
  cases heq
  have := hs.tree.sub_folder_slot_unique hr hi (by omega) hd hd'
  omega

/-! ### What one more slot adds -/

theorem deletesBefore_vacant (h : (es.folderAt r).sub_folders i = none) :
    es.deletesBefore k r (i + 1) m ↔ es.deletesBefore k r i m := by
  constructor
  · intro ⟨j, d, hj, hd, h'⟩
    have hji : j ≠ i := by
      intro rfl
      rw [h] at hd
      cases hd
    exact ⟨j, d, by omega, hd, h'⟩
  · intro ⟨j, d, hj, h'⟩
    exact ⟨j, d, by omega, h'⟩

/-- The calls before a slot and the call for it. -/
theorem deletesBefore_occupied (h : (es.folderAt r).sub_folders i = some d)
    (hfits : ∀ j d', j < i → (es.folderAt r).sub_folders j = some d' → es.fits k d') :
    es.deletesBefore k r (i + 1) m ↔ es.deletesBefore k r i m ∨ es.deletes k d m := by
  constructor
  · intro ⟨j, d', hj, hd', h'⟩
    by_cases hji : j = i
    · subst hji
      rw [h] at hd'
      cases hd'
      exact Or.inr h'.2
    · exact Or.inl ⟨j, d', by omega, hd', h'⟩
  · rintro (⟨j, d', hj, h'⟩ | h')
    · exact ⟨j, d', by omega, h'⟩
    · exact ⟨i, d, by omega, h, hfits, h'⟩

/-- Behind a sub-folder that is too deep nothing is deleted. -/
theorem deletesBefore_stuck {a : Nat} (h : (es.folderAt r).sub_folders i = some d)
    (hdeep : ¬ es.fits k d) (hia : i < a) :
    es.deletesBefore k r a m ↔ es.deletesBefore k r (i + 1) m := by
  constructor
  · intro ⟨j, d', hj, hd', hbefore, h'⟩
    have hji : j ≤ i := by
      by_contra hlt
      exact hdeep (hbefore i d (by omega) h)
    exact ⟨j, d', by omega, hd', hbefore, h'⟩
  · intro ⟨j, d', hj, h'⟩
    exact ⟨j, d', by omega, h'⟩

/-- The second loop deletes the sub-folders in the order of their slots, until one is too deep. -/
theorem delete_sub_folders_sat (hrec : DeletesChildren k) (hs : Sound s)
    (hr : s.entry_store.live r) (n : Nat) {a : Nat} (hn : a + n = MAX_SUB_FOLDERS_AMOUNT)
    (hp : PrunesAll (s.entry_store.deletesBefore k r a) s s₁)
    (hvacant : ∀ i, i < a → (s₁.entry_store.folderAt r).sub_folders i = none)
    (hfits : ∀ i d, i < a → (s.entry_store.folderAt r).sub_folders i = some d →
      s.entry_store.fits k d) :
    (delete_sub_folders k r (List.range' a n) s₁).Sat
      (fun _ s' => PrunesAll (s.entry_store.deletesBefore k r MAX_SUB_FOLDERS_AMOUNT) s s' ∧
        (∀ i, i < MAX_SUB_FOLDERS_AMOUNT →
          (s'.entry_store.folderAt r).sub_folders i = none) ∧
        s.entry_store.fits (k + 1) r)
      (fun _ s' => PrunesAll (s.entry_store.deletesBefore k r MAX_SUB_FOLDERS_AMOUNT) s s' ∧
        ¬ s.entry_store.fits (k + 1) r)
      (fun _ => False) := by
  induction n generalizing a s₁ with
  | zero =>
    rw [Nat.add_zero] at hn
    subst hn
    refine ⟨hp, hvacant, (hs.tree.fits_succ_iff hr).mpr fun d hd => ?_⟩
    obtain ⟨i, hi, hslot⟩ := folder_mem_children.mp hd
    exact hfits i d hi hslot
  | succ n ih =>
    have ha : a < MAX_SUB_FOLDERS_AMOUNT := by omega
    unfold delete_sub_folders
    rw [List.range'_succ, forEach_cons_run]
    simp only [bind_run, readState_run, bind_ok]
    cases hslot : (s.entry_store.folderAt r).sub_folders a with
    | none =>
      have hslot₁ : (s₁.entry_store.folderAt r).sub_folders a = none :=
        slotAt_folder_eq_none.mp (hp.prunes.slot_vacant (m := .folder r)
          (slotAt_folder_eq_none.mpr hslot))
      simp only [hslot₁, pure_run, bind_ok]
      refine ih (by omega) (hp.congr fun m => deletesBefore_vacant hslot) (fun i hi => ?_)
        fun i d hi hd => ?_
      · by_cases hia : i = a
        · rw [hia, hslot₁]
        · exact hvacant i (by omega)
      · by_cases hia : i = a
        · rw [hia, hslot] at hd
          cases hd
        · exact hfits i d (by omega) hd
    | some d =>
      have hmem : .folder d ∈ s.entry_store.children r :=
        folder_mem_children.mpr ⟨a, ha, hslot⟩
      have hdc := (hs.tree.children_committed r hr _ hmem).1
      have huntouched := untouched_of_deletesBefore (k := k) hs hr ha hslot
      have hslot₁ : (s₁.entry_store.folderAt r).sub_folders a = some d :=
        slotAt_folder_eq_some.mp (hp.prunes.slot_kept (m := .folder r)
          (slotAt_folder_eq_some.mpr hslot) (huntouched _ Below.refl))
      have hs₁ := hp.prunes.sound hs
      have hd₁ : s₁.entry_store.live d :=
        hp.prunes.live_kept hdc.live (huntouched _ Below.refl)
      -- what the recursion deletes in `d`, seen from the state before the loop
      have hstep : ∀ m, s.entry_store.deletesBefore k r (a + 1) m ↔
          s.entry_store.deletesBefore k r a m ∨ s₁.entry_store.deletes k d m := by
        intro m
        rw [deletesBefore_occupied hslot hfits, huntouched.deletes_iff hs hdc.live hp.prunes]
      simp only [hslot₁]
      refine ((hrec s₁ d hs₁ hd₁).mono (fun _ _ h => h) ?_ (fun _ h => h)).bind ?_
      · intro e s₂ ⟨hp₂, hfail⟩
        have hdeep : ¬ s.entry_store.fits k d := by
          rcases hfail with h | h
          · exact fun hf => h ((huntouched.fits_iff hp.prunes).mpr hf)
          · exact absurd (congrArg _ h) hdc.ne_root
        refine ⟨(hp.trans hp₂ hstep).congr fun m => deletesBefore_stuck hslot hdeep ha,
          fun hf => hdeep ((hs.tree.fits_succ_iff hr).mp hf d hmem)⟩
      · intro _ s₂ ⟨hp₂, hgone, hdfits⟩
        have hp' := hp.trans hp₂ hstep
        have hr₂ : s₂.entry_store.live r := by
          apply hp'.prunes.live_kept hr
          intro ⟨i, d', hi, hd', _, hdel⟩
          have hmem' : .folder d' ∈ s.entry_store.children r :=
            folder_mem_children.mpr ⟨i, by omega, hd'⟩
          have hlive' := (hs.tree.children_committed r hr _ hmem').1.live
          exact hs.tree.wellFormed.not_below_parent (hs.tree.tree_eq hr hmem')
            (hs.tree.below_of_deletes hlive' hdel)
        refine ih (by omega) hp' (fun i hi => ?_) fun i d' hi hd' => ?_
        · by_cases hia : i = a
          · subst hia
            rcases hp₂.prunes.slot_cases r (.folder d) i with heq | ⟨hnone, _⟩
            · have hne := (hp'.prunes.sound hs).slot_ne (n := .folder d) hr₂ ha
                fun h => hgone h.live
              exact absurd (heq.trans (slotAt_folder_eq_some.mpr hslot₁)) hne
            · exact slotAt_folder_eq_none.mp hnone
          · exact slotAt_folder_eq_none.mp (hp₂.prunes.slot_vacant (m := .folder r)
              (slotAt_folder_eq_none.mpr (hvacant i (by omega))))
        · by_cases hia : i = a
          · rw [hia, hslot] at hd'
            cases hd'
            exact (huntouched.fits_iff hp.prunes).mp hdfits
          · exact hfits i d' (by omega) hd'

/-! ## Section 3: The recursion -/

theorem children_eq_nil
    (hfiles : ∀ i, i < MAX_SUB_FILES_AMOUNT → (es.folderAt r).sub_files i = none)
    (hfolders : ∀ i, i < MAX_SUB_FOLDERS_AMOUNT → (es.folderAt r).sub_folders i = none) :
    es.children r = [] := by
  unfold VFSEntryStore.children
  rw [occupants_of_vacant hfiles, occupants_of_vacant hfolders]
  rfl

/-- One level of the recursion: two loops, then the folder. -/
theorem delete_children_succ (hr : s.entry_store.live r) :
    delete_children_recursive_from (k + 1) r s =
      (delete_sub_files r s).bind fun _ s₁ =>
        (delete_sub_folders k r (List.range' 0 MAX_SUB_FOLDERS_AMOUNT) s₁).bind fun _ s₂ =>
          onEntryStore (delete_flat_folder r) s₂ := by
  have hvalid := validate_vfs_folder_ok_iff.mpr hr
  rw [← List.range_eq_range']
  unfold delete_children_recursive_from
  simp only [bind_run, readState_run, bind_ok, hvalid, ofExcept_ok_run]
  rfl

/-- Removing files of `r` does not touch the subtrees of its sub-folders. -/
theorem untouched_of_files (hs : Sound s) (hr : s.entry_store.live r)
    (hd : .folder d ∈ s.entry_store.children r) :
    Untouched (fun m => ∃ f, m = .file f ∧ m ∈ s.entry_store.children r) s d := by
  intro n hn ⟨f, hf, hmem⟩
  subst hf
  have := hs.tree.below_siblings hr hd hmem hn Below.refl
  cases this

/-- **The recursion** deletes what `deletes` says; it gets through if and only if
    the folder fits and is not the root. -/
theorem delete_children_recursive_sat (k : Nat) : DeletesChildren k := by
  induction k with
  | zero =>
    intro s r _ _
    exact ⟨PrunesAll.refl fun _ => id, Or.inl fun h => absurd (h r [] PathFrom.nil) (by simp)⟩
  | succ k ih =>
    intro s r hs hr
    rw [delete_children_succ hr]
    refine ((delete_sub_files_sat hs hr).mono (fun _ _ h => h) (fun _ _ h => h.elim)
      (fun _ h => h)).bind ?_
    intro _ s₁ ⟨hp₁, hfiles⟩
    have hs₁ := hp₁.prunes.sound hs
    have hr₁ : s₁.entry_store.live r :=
      hp₁.prunes.live_kept hr (by rintro ⟨f, h, _⟩; cases h)
    -- the sub-folders are still in their slots
    have hslots : ∀ i d, (s₁.entry_store.folderAt r).sub_folders i = some d ↔
        (s.entry_store.folderAt r).sub_folders i = some d := by
      intro i d
      rw [← slotAt_folder_eq_some (t := r), ← slotAt_folder_eq_some (t := r)]
      constructor
      · intro h
        rcases hp₁.prunes.slot_cases r (.folder r) i with heq | ⟨hnone, _⟩
        · exact heq ▸ h
        · rw [hnone] at h
          cases h
      · intro h
        exact hp₁.prunes.slot_kept h (by rintro ⟨f, hf, _⟩; cases hf)
    have huntouched : ∀ i d, i < MAX_SUB_FOLDERS_AMOUNT →
        (s.entry_store.folderAt r).sub_folders i = some d →
          s.entry_store.live d ∧
            Untouched (fun m => ∃ f, m = .file f ∧ m ∈ s.entry_store.children r) s d := by
      intro i d hi hd
      have hmem : .folder d ∈ s.entry_store.children r := folder_mem_children.mpr ⟨i, hi, hd⟩
      exact ⟨(hs.tree.children_committed r hr _ hmem).1.live, untouched_of_files hs hr hmem⟩
    have hfits : s₁.entry_store.fits (k + 1) r ↔ s.entry_store.fits (k + 1) r := by
      constructor
      · intro h
        apply (hs.tree.fits_succ_iff hr).mpr
        intro d hd
        obtain ⟨i, hi, hslot⟩ := folder_mem_children.mp hd
        have hd₁ : .folder d ∈ s₁.entry_store.children r :=
          folder_mem_children.mpr ⟨i, hi, (hslots i d).mpr hslot⟩
        exact ((huntouched i d hi hslot).2.fits_iff hp₁.prunes).mp
          ((hs₁.tree.fits_succ_iff hr₁).mp h d hd₁)
      · intro h d l hl
        exact h d l (hp₁.prunes.pathFrom_of hl)
    have hsub : ∀ m, s₁.entry_store.deletesBefore k r MAX_SUB_FOLDERS_AMOUNT m ↔
        s.entry_store.deletesBefore k r MAX_SUB_FOLDERS_AMOUNT m := by
      intro m
      refine exists_congr fun i => exists_congr fun d => and_congr_right fun hi => ?_
      rw [hslots]
      refine and_congr_right fun hd => and_congr ?_ ?_
      · refine forall_congr' fun j => forall_congr' fun d' => forall_congr' fun hj => ?_
        rw [hslots]
        apply forall_congr'
        intro hslot
        exact (huntouched j d' (by omega) hslot).2.fits_iff hp₁.prunes
      · obtain ⟨hlive, hunt⟩ := huntouched i d hi hd
        exact hunt.deletes_iff hs hlive hp₁.prunes
    have hloop := delete_sub_folders_sat (a := 0) ih hs₁ hr₁ MAX_SUB_FOLDERS_AMOUNT
      (Nat.zero_add _) (PrunesAll.refl (by rintro m ⟨i, d, hi, _⟩; omega))
      (fun i hi => absurd hi (Nat.not_lt_zero i)) (fun i d hi => absurd hi (Nat.not_lt_zero i))
    refine (hloop.mono (fun _ _ h => h) ?_ (fun _ h => h)).bind ?_
    · intro e s₂ ⟨hp₂, hdeep⟩
      have hdeep' : ¬ s.entry_store.fits (k + 1) r := fun h => hdeep (hfits.mpr h)
      refine ⟨hp₁.trans hp₂ fun m => ?_, Or.inl hdeep'⟩
      rw [hsub]
      exact or_congr_right (or_iff_left fun h => hdeep' h.2.2)
    · intro _ s₂ ⟨hp₂, hfolders, hfit₁⟩
      have hfit := hfits.mp hfit₁
      have hs₂ := hp₂.prunes.sound hs₁
      have hflat : s₂.entry_store.children r = [] := by
        refine children_eq_nil (fun i hi => ?_) hfolders
        exact slotAt_file_eq_none.mp (hp₂.prunes.slot_vacant (m := .file 0)
          (slotAt_file_eq_none.mpr (hfiles i hi)))
      rcases hr with rfl | hr
      · -- the root itself is not deleted
        simp only [onEntryStore, zoom_run, delete_root hs₂.tree, mapState_fail, sat_fail]
        refine ⟨hp₁.trans hp₂ fun m => ?_, Or.inr trivial⟩
        rw [hsub]
        exact or_congr_right (or_iff_left fun h => h.2.1 rfl)
      · have hr₂ : s₂.entry_store.committed (.folder r) := by
          refine hp₂.prunes.kept (hp₁.prunes.kept hr (by rintro ⟨f, h, _⟩; cases h)) ?_
          intro ⟨i, d, hi, hd, _, hdel⟩
          have hmem : .folder d ∈ s₁.entry_store.children r :=
            folder_mem_children.mpr ⟨i, hi, hd⟩
          have hlive := (hs₁.tree.children_committed r hr₁ _ hmem).1.live
          exact hs₁.tree.wellFormed.not_below_parent (hs₁.tree.tree_eq hr₁ hmem)
            (hs₁.tree.below_of_deletes hlive hdel)
        obtain ⟨es', hrun, hrem⟩ := delete_flat_folder_run hs₂.tree hr₂ hflat
        have hrem' := hrem.entryRemoved (s := s₂)
        have hne : r ≠ .root := fun h => hr.ne_root (congrArg _ h)
        simp only [onEntryStore, zoom_run, hrun, mapState_ok, sat_ok]
        refine ⟨hp₁.trans (hp₂.remove hrem' fun m => Iff.rfl) fun m => ?_, ?_, hfit⟩
        · rw [hsub]
          refine or_congr_right (or_congr_right ?_)
          exact ⟨fun h => h.1, fun h => ⟨h, hne, hfit⟩⟩
        · rintro (h | h)
          · exact hne h
          · exact ((hrem'.out.committed_iff _).mp h).2 rfl

/-! ## Section 4: Deleting a folder -/

/-- The entries that `delete_vfs_folder` deletes. -/
def VFSEntryStore.folderDeletes (es : VFSEntryStore) (folder : FolderRef) (force : Bool)
    (m : VFSNode) : Prop :=
  (es.children folder = [] ∧ folder ≠ .root ∧ m = .folder folder) ∨
    (es.children folder ≠ [] ∧ force = true ∧ es.deletes (MAX_FOLDER_DEPTH + 1) folder m)

/-- Only entries below the folder are deleted. -/
theorem FolderTree.below_of_folderDeletes {force : Bool} (ht : FolderTree es) (hr : es.live r)
    (h : es.folderDeletes r force m) : Below es.tree (.folder r) m := by
  rcases h with ⟨_, _, rfl⟩ | ⟨_, _, h⟩
  · exact Below.refl
  · exact ht.below_of_deletes hr h

/-- The root is never deleted. -/
theorem FolderTree.not_folderDeletes_root {force : Bool} (ht : FolderTree es) (hr : es.live r) :
    ¬ es.folderDeletes r force (.folder .root) := by
  rintro (⟨_, hne, h⟩ | ⟨_, _, h⟩)
  · cases h
    exact hne rfl
  · exact ht.not_deletes_root hr h

/-- **Folder deletion.** Exactly the entries of `folderDeletes` are gone afterwards,
    whether the call succeeds or fails. -/
theorem delete_vfs_folder_sat (hs : Sound s) (hr : s.entry_store.live r) (force : Bool) :
    (delete_vfs_folder r force s).Sat
      (fun _ s' => PrunesAll (s.entry_store.folderDeletes r force) s s' ∧
        ¬ s'.entry_store.live r ∧
        (s.entry_store.children r = [] ∨ s.entry_store.fits (MAX_FOLDER_DEPTH + 1) r))
      (fun _ s' => PrunesAll (s.entry_store.folderDeletes r force) s s' ∧
        (r = .root ∨ s.entry_store.children r ≠ [] ∧
          (force = false ∨ ¬ s.entry_store.fits (MAX_FOLDER_DEPTH + 1) r)))
      (fun _ => False) := by
  have hvalid := validate_vfs_folder_ok_iff.mpr hr
  unfold delete_vfs_folder
  simp only [bind_run, readState_run, bind_ok, hvalid, ofExcept_ok_run, ite_run]
  by_cases hflat : s.entry_store.children r = []
  · have hsub : has_sub_entries (s.entry_store.folderAt r) = false :=
      Bool.eq_false_iff.mpr fun h => has_sub_entries_iff.mp h hflat
    rw [if_pos hsub]
    rcases hr with rfl | hr
    · simp only [onEntryStore, zoom_run, delete_root hs.tree, mapState_fail, sat_fail]
      refine ⟨PrunesAll.refl ?_, Or.inl trivial⟩
      rintro m (⟨_, hne, _⟩ | ⟨hne, _⟩)
      · exact hne rfl
      · exact hne hflat
    · obtain ⟨es', hrun, hrem⟩ := delete_flat_folder_run hs.tree hr hflat
      have hrem' := hrem.entryRemoved (s := s)
      have hne : r ≠ .root := fun h => hr.ne_root (congrArg _ h)
      simp only [onEntryStore, zoom_run, hrun, mapState_ok, sat_ok]
      refine ⟨(PrunesAll.refl (P := fun _ => False) fun _ => id).remove hrem' fun m => ?_, ?_,
        Or.inl hflat⟩
      · constructor
        · rintro (⟨_, _, h⟩ | ⟨h, _⟩)
          · exact Or.inr h
          · exact absurd hflat h
        · rintro (h | h)
          · exact h.elim
          · exact Or.inl ⟨hflat, hne, h⟩
      · rintro (h | h)
        · exact hne h
        · exact ((hrem'.out.committed_iff _).mp h).2 rfl
  · have hsub : ¬ has_sub_entries (s.entry_store.folderAt r) = false := by
      rw [Bool.not_eq_false]
      exact has_sub_entries_iff.mpr hflat
    rw [if_neg hsub]
    -- a folder with sub-entries: refused, or emptied from the leaves up
    cases force with
    | false =>
      simp only [if_true, returnStatus_run, sat_fail]
      refine ⟨PrunesAll.refl ?_, Or.inr ⟨hflat, Or.inl trivial⟩⟩
      rintro m (⟨h, _⟩ | ⟨_, h, _⟩)
      · exact hflat h
      · cases h
    | true =>
      have hiff : ∀ m, s.entry_store.folderDeletes r true m ↔
          s.entry_store.deletes (MAX_FOLDER_DEPTH + 1) r m := by
        intro m
        constructor
        · rintro (⟨h, _⟩ | ⟨_, _, h⟩)
          · exact absurd h hflat
          · exact h
        · exact fun h => Or.inr ⟨hflat, rfl, h⟩
      simp only [Bool.true_eq_false, if_false]
      refine (delete_children_recursive_sat _ s r hs hr).mono ?_ ?_ (fun _ h => h)
      · rintro _ s' ⟨hp, hgone, hfit⟩
        exact ⟨hp.congr hiff, hgone, Or.inr hfit⟩
      · rintro e s' ⟨hp, hfail⟩
        refine ⟨hp.congr hiff, ?_⟩
        rcases hfail with h | h
        · exact Or.inr ⟨hflat, Or.inr h⟩
        · exact Or.inl h

end VirtualFS
