import VirtualFS.Framework.TwoRuns
import VirtualFS.Store.Reachable

/-! # Bytes of Free Chunks

    The core system in two memories that differ only in the bytes of free
    chunks. Every function ends alike in both. Freeing a chunk only allows
    more bytes to differ, and reading checks that the chunk is allocated.
    Allocation is where the difference could become visible: append
    overwrites all the chunks that it takes.

    * `AlikeDisk`: two disks with one map that agree on the allocated chunks.
    * `AlikeSystem`: two systems with alike disks and one entry store.

    There is one lemma for each function; those for loops are by induction on their
    rounds. Only append needs to know that the file owns its chunks.
-/

namespace VirtualFS

open Framework Prog Outcome

variable {α : Type} {s t : VFS} {sm sm' : StorageMan} {f : FileRef}

/-! ## Section 1: Memories that look alike -/

/-- The address lies in a free chunk of the disk. -/
def FreeByte (allocation_map : Nat → Bool) (addr : Nat) : Prop :=
  addr / CHUNK_SIZE < CHUNKS_AMOUNT ∧ allocation_map (addr / CHUNK_SIZE) = false

/-- Two storage managers that differ at most in the bytes of free chunks. -/
structure AlikeDisk (sm sm' : StorageMan) : Prop where
  storage_size : sm'.storage_size = sm.storage_size
  free_chunk_count : sm'.free_chunk_count = sm.free_chunk_count
  allocation_map : sm'.allocation_map = sm.allocation_map
  bytes : ∀ addr, ¬ FreeByte sm.allocation_map addr → sm'.storage addr = sm.storage addr

/-- Two memories that differ at most in the bytes of free chunks. -/
structure AlikeSystem (s t : VFS) : Prop where
  entry_store : t.entry_store = s.entry_store
  disk : AlikeDisk s.storage_man t.storage_man

/-- Alike disks are equal but for their bytes. -/
theorem AlikeDisk.eq_withStorage (h : AlikeDisk sm sm') :
    sm' = { sm with storage := sm'.storage } := by
  obtain ⟨hsize, hcount, hmap, _⟩ := h
  cases sm
  cases sm'
  simp_all

/-- Alike systems are equal but for the bytes of their disks. -/
theorem AlikeSystem.eq_withStorage (h : AlikeSystem s t) :
    t = { s with storage_man := { s.storage_man with storage := t.storage_man.storage } } :=
  congrArg₂ VFS.mk h.entry_store h.disk.eq_withStorage

/-- What is known of one of two alike systems without its bytes is known of the other one. -/
theorem AlikeSystem.sameMeta (h : AlikeSystem s t) : SameMeta s t :=
  ⟨h.entry_store, h.disk.allocation_map, h.disk.free_chunk_count⟩

/-! ## Section 2: The storage manager -/

/-- The same bytes are written in both. -/
theorem AlikeDisk.writeBytes (h : AlikeDisk sm sm') (addr : Nat) (data : List Byte) :
    AlikeDisk { sm with storage := VirtualFS.writeBytes sm.storage addr data }
      { sm' with storage := VirtualFS.writeBytes sm'.storage addr data } where
  storage_size := h.storage_size
  free_chunk_count := h.free_chunk_count
  allocation_map := h.allocation_map
  bytes := by
    intro a ha
    simp only [VirtualFS.writeBytes, h.bytes a ha]

/-- Freeing a chunk lets its bytes differ. -/
theorem AlikeDisk.free (h : AlikeDisk sm sm') (c : Nat) : AlikeDisk (sm.free c) (sm'.free c) where
  storage_size := h.storage_size
  free_chunk_count := congrArg (sizeAdd · 1) h.free_chunk_count
  allocation_map := by
    show Function.update sm'.allocation_map c false = Function.update sm.allocation_map c false
    rw [h.allocation_map]
  bytes := by
    intro a ha
    apply h.bytes a
    -- a byte that was free is still free
    intro ⟨hdisk, hfree⟩
    apply ha
    refine ⟨hdisk, ?_⟩
    rw [free_map, hfree, ite_self]

/-- A chunk that is not free has the same bytes in both. -/
theorem AlikeDisk.chunk_eq {c : Nat} (h : AlikeDisk sm sm') (hc : sm.allocation_map c ≠ false) :
    sm'.chunk c = sm.chunk c := by
  unfold StorageMan.chunk
  apply List.map_congr_left
  intro i hi
  apply h.bytes
  intro ⟨_, hfree⟩
  have hdiv : (get_chunk_addr c + i) / CHUNK_SIZE = c := by
    have := List.mem_range.mp hi
    unfold get_chunk_addr CHUNK_SIZE at *
    omega
  rw [hdiv] at hfree
  exact hc hfree

theorem chfree_agreeing (c : Nat) : Agreeing AlikeDisk (chfree c) := by
  apply Agreeing.guard
  exact Agreeing.modifyState fun sm sm' h => h.free c

/-- **Reading a chunk** checks first that it is allocated. -/
theorem chread_agreeing (c len : Nat) : Agreeing AlikeDisk (chread c len) := by
  apply Agreeing.guard
  apply Agreeing.guard
  intro sm sm' h
  simp only [bind_run, readState_run, bind_ok, ite_run, h.allocation_map]
  by_cases hc : sm.allocation_map c = false
  · rw [if_pos hc, if_pos hc]
    exact Agrees.fail _ h
  · rw [if_neg hc, if_neg hc, h.chunk_eq hc]
    exact Agrees.ok _ h

theorem chtrunc_agreeing (c amount : Nat) : Agreeing AlikeDisk (chtrunc c amount) := by
  apply Agreeing.guard
  apply Agreeing.guard
  apply Agreeing.guard
  exact Agreeing.modifyState fun sm sm' h => h.writeBytes _ _

/-! ## Section 3: Parts of the memory -/

/-- **Read rule**: what is done next does not depend on the bytes on the disk. -/
theorem agreeing_read {p : VFS → Sys VFS α} (hp : ∀ s, Agreeing AlikeSystem (p s))
    (hsame : ∀ (s : VFS) storage,
      p { s with storage_man := { s.storage_man with storage := storage } } = p s) :
    Agreeing AlikeSystem (readState >>= p) := by
  apply Agreeing.read hp
  intro s t h
  rw [h.eq_withStorage]
  exact hsame s _

/-- The entry store is the same in both, so a function on it does the same. -/
theorem onEntryStore_agreeing (p : Sys VFSEntryStore α) :
    Agreeing AlikeSystem (onEntryStore p) := by
  apply (Agreeing.of_eq p).zoom
  · exact fun s t h => h.entry_store.symm
  · intro s t es es' h hes
    exact ⟨hes.symm, h.disk⟩

/-- Functions of the storage manager run in both. -/
theorem onStorageMan_agreeing {p : Sys StorageMan α} (hp : Agreeing AlikeDisk p) :
    Agreeing AlikeSystem (onStorageMan p) := by
  apply hp.zoom
  · exact fun s t h => h.disk
  · intro s t sm sm' h hsm
    exact ⟨h.entry_store, hsm⟩

theorem modifyFile_agreeing (f : FileRef) (g : File → File) :
    Agreeing AlikeSystem (modifyState fun s => s.modifyFile f g : Sys VFS Unit) := by
  apply Agreeing.modifyState
  intro s t h
  exact ⟨congrArg (fun es => es.setFile f (g (es.files f))) h.entry_store, h.disk⟩

/-! ## Section 4: Freeing chunks of a file -/

theorem chunk_extent_left_shift_agreeing (gap : ExtentRef) (f : FileRef) :
    Agreeing AlikeSystem (chunk_extent_left_shift gap f) := by
  apply agreeing_read
  · intro s
    apply Agreeing.guard
    apply Agreeing.guard
    apply Agreeing.ite
    · exact Agreeing.pure ()
    · exact modifyFile_agreeing f _
  · exact fun _ _ => rfl

theorem file_free_chunk_extent_agreeing (f : FileRef) (x : ExtentRef) :
    Agreeing AlikeSystem (file_free_chunk_extent f x) := by
  apply agreeing_read
  · intro s
    apply Agreeing.guard
    apply Agreeing.bind
    · exact Agreeing.forEach (fun c => onStorageMan_agreeing (chfree_agreeing c)) _
    intro _
    apply Agreeing.bind (modifyFile_agreeing _ _)
    intro _
    apply Agreeing.bind (modifyFile_agreeing f _)
    intro _
    exact chunk_extent_left_shift_agreeing x f
  · exact fun _ _ => rfl

theorem file_truncate_chunk_extent_agreeing (f : FileRef) (x : ExtentRef) (amount : Nat) :
    Agreeing AlikeSystem (file_truncate_chunk_extent f x amount) := by
  apply agreeing_read
  · intro s
    apply Agreeing.guard
    apply Agreeing.guard
    apply Agreeing.ite
    · exact file_free_chunk_extent_agreeing f x
    · apply Agreeing.forEach
      intro c
      apply Agreeing.bind (onStorageMan_agreeing (chfree_agreeing c))
      intro _
      apply Agreeing.bind (modifyFile_agreeing f _)
      intro _
      apply Agreeing.modifyState
      intro s t h
      rw [h.eq_withStorage]
      exact ⟨rfl, h.eq_withStorage ▸ h.disk⟩
  · exact fun _ _ => rfl

/-- The loop of truncation. -/
theorem free_full_extents_agreeing (f : FileRef) (full cursor deleted : Nat) :
    Agreeing AlikeSystem (free_full_extents f full cursor deleted) := by
  -- The extents are part of what is alike, so both loops stop at the same one.
  induction cursor generalizing deleted with
  | zero => exact Agreeing.pure _
  | succ cur ih =>
    apply agreeing_read
    · intro s
      apply Agreeing.ite
      · exact Agreeing.pure _
      · apply Agreeing.bind (file_free_chunk_extent_agreeing f _)
        intro _
        apply agreeing_read
        · exact fun s => ih _
        · exact fun _ _ => rfl
    · exact fun _ _ => rfl

/-- **Truncation** frees and overwrites the same chunks in both systems. -/
theorem file_truncate_by_agreeing (f : FileRef) (amount : Nat) :
    Agreeing AlikeSystem (file_truncate_by f amount) := by
  apply agreeing_read
  · intro s
    apply Agreeing.guard
    apply Agreeing.bind (Agreeing.ofExcept _)
    intro last
    apply Agreeing.bind (free_full_extents_agreeing f _ _ _)
    intro ⟨cursor, deleted⟩
    -- the cursor is returned by the loop, so it is the same in both runs
    cases cursor with
    | zero => exact Agreeing.undefinedBehaviour _
    | succ cur =>
      apply agreeing_read
      · intro s
        apply Agreeing.ite
        · exact (Agreeing.returnStatus _).ite (Agreeing.pure ())
        · apply Agreeing.guard
          apply Agreeing.bind (file_truncate_chunk_extent_agreeing f _ _)
          intro _
          apply agreeing_read
          · intro s
            apply Agreeing.ite
            · exact Agreeing.pure ()
            · exact onStorageMan_agreeing (chtrunc_agreeing _ _)
          · exact fun _ _ => rfl
      · exact fun _ _ => rfl
  · exact fun _ _ => rfl

/-- The loop of clearing. -/
theorem file_delete_data_loop_agreeing (f : FileRef) (n i : Nat) :
    Agreeing AlikeSystem (file_delete_data_loop f n i) := by
  -- Each round moves on or frees the same extent in both runs.
  induction n generalizing i with
  | zero => exact Agreeing.undefinedBehaviour _
  | succ n ih =>
    apply Agreeing.ite
    · exact Agreeing.pure ()
    · apply agreeing_read
      · intro s
        apply Agreeing.ite
        · exact ih (i + 1)
        · exact (file_free_chunk_extent_agreeing f _).bind fun _ => ih i
      · exact fun _ _ => rfl

/-- **Clearing** leaves the bytes where they are. -/
theorem file_delete_data_agreeing (f : FileRef) : Agreeing AlikeSystem (file_delete_data f) :=
  file_delete_data_loop_agreeing f _ 0

/-! ## Section 5: Append -/

/-- **Allocated chunks are overwritten**: where the bytes of a chunk differed, both
    memories now hold the appended ones. -/
theorem appended_alike {data : List Byte} (h : AlikeSystem s t) (f : FileRef) (pos : Nat) :
    AlikeSystem (s.appended f pos data) (t.appended f pos data) where
  entry_store :=
    congrArg (fun es => es.setFile f
      ((es.files f).addExtent pos (get_chunks_amount data.length))) h.entry_store
  disk :=
    { storage_size := h.disk.storage_size
      free_chunk_count :=
        congrArg (sizeSub · (get_chunks_amount data.length)) h.disk.free_chunk_count
      allocation_map :=
        congrArg (mark_as_allocated · pos (get_chunks_amount data.length)) h.disk.allocation_map
      bytes := by
        intro a ha
        show writeBytes t.storage_man.storage (get_chunk_addr pos) (padded data) a =
          writeBytes s.storage_man.storage (get_chunk_addr pos) (padded data) a
        by_cases hfree : FreeByte s.storage_man.allocation_map a
        · -- the chunk was free and is not any more: it has been taken
          have htaken : pos ≤ a / CHUNK_SIZE ∧
              a / CHUNK_SIZE < pos + get_chunks_amount data.length := by
            by_contra hout
            apply ha
            refine ⟨hfree.1, ?_⟩
            show mark_as_allocated s.storage_man.allocation_map pos
              (get_chunks_amount data.length) (a / CHUNK_SIZE) = false
            rw [mark_as_allocated, if_neg hout]
            exact hfree.2
          have hstart : get_chunk_addr pos ≤ a := by
            unfold get_chunk_addr CHUNK_SIZE at *
            omega
          have hin : a - get_chunk_addr pos < (padded data).length := by
            rw [length_padded]
            unfold get_chunk_addr CHUNK_SIZE at *
            omega
          simp only [writeBytes, if_pos hstart, List.getD_eq_getElem _ _ hin]
        · simp only [writeBytes, h.disk.bytes a hfree] }

/-- **Append** takes the same chunks, and fills them with the same bytes. -/
theorem file_append_agrees (hf : OwnsChunks s f) (h : AlikeSystem s t) (data : List Byte) :
    Agrees AlikeSystem (file_append f data s) (file_append f data t) := by
  rcases file_append_cases hf.file_ok.compact data with ⟨e, hfail⟩ | ⟨_, _, pos, _, hok⟩
  · rw [hfail s (SameMeta.refl s), hfail t h.sameMeta]
    exact Agrees.fail e h
  · rw [hok s (SameMeta.refl s), hok t h.sameMeta]
    exact Agrees.ok () (appended_alike h f pos)

/-! ## Section 6: Reading -/

theorem file_read_chunk_agreeing (f : FileRef) (c len : Nat) :
    Agreeing AlikeSystem (file_read_chunk f c len) := by
  apply Agreeing.guard
  apply agreeing_read
  · intro s
    apply Agreeing.guard
    exact onStorageMan_agreeing (chread_agreeing c len)
  · exact fun _ _ => rfl

theorem read_chunk_from_until_agreeing (f : FileRef) (off amount i : Nat) :
    Agreeing AlikeSystem (read_chunk_from_until f off amount i) := by
  apply Agreeing.guard
  apply agreeing_read
  · intro s
    apply Agreeing.bind (Agreeing.ofExcept _)
    intro c
    exact (file_read_chunk_agreeing f c CHUNK_SIZE).bind fun _ => Agreeing.pure _
  · exact fun _ _ => rfl

/-- The loop of reading. -/
theorem read_full_chunks_agreeing (f : FileRef) (n i : Nat) :
    Agreeing AlikeSystem (read_full_chunks_and_update_buffer_pointer f n i) := by
  induction n generalizing i with
  | zero => exact Agreeing.pure _
  | succ n ih =>
    apply agreeing_read
    · intro s
      apply Agreeing.bind (Agreeing.ofExcept _)
      intro c
      apply Agreeing.bind (file_read_chunk_agreeing f c CHUNK_SIZE)
      intro bytes
      exact (ih (i + 1)).bind fun _ => Agreeing.pure _
    · exact fun _ _ => rfl

/-- **Positional read** sees only bytes of the file, which are the same. -/
theorem file_read_at_agreeing (f : FileRef) (off amount size : Nat) :
    Agreeing AlikeSystem (file_read_at f off amount size) := by
  apply agreeing_read
  · intro s
    apply Agreeing.guard
    apply Agreeing.guard
    apply Agreeing.guard
    apply Agreeing.ite
    · exact read_chunk_from_until_agreeing f _ _ _
    · apply Agreeing.bind (read_chunk_from_until_agreeing f _ _ _)
      intro first
      apply Agreeing.bind (read_full_chunks_agreeing f _ _)
      intro full
      apply Agreeing.ite
      · exact Agreeing.pure _
      · exact (read_chunk_from_until_agreeing f _ _ _).bind fun _ => Agreeing.pure _
  · exact fun _ _ => rfl

/-! ## Section 7: Deletion -/

theorem delete_vfs_file_agreeing (f : FileRef) : Agreeing AlikeSystem (delete_vfs_file f) := by
  apply agreeing_read
  · intro s
    apply Agreeing.bind (Agreeing.ofExcept _)
    intro _
    apply Agreeing.guard
    apply Agreeing.bind (onEntryStore_agreeing _)
    intro _
    apply Agreeing.bind (file_delete_data_agreeing f)
    intro _
    exact onEntryStore_agreeing _
  · exact fun _ _ => rfl

/-- The recursion of deletion. -/
theorem delete_children_agreeing (n : Nat) (r : FolderRef) :
    Agreeing AlikeSystem (delete_children_recursive_from n r) := by
  -- Files first, then the sub-folders, then the folder, as in the code.
  induction n generalizing r with
  | zero => exact Agreeing.returnStatus _
  | succ n ih =>
    apply agreeing_read
    · intro s
      apply Agreeing.bind (Agreeing.ofExcept _)
      intro _
      apply Agreeing.bind
      · apply Agreeing.forEach
        intro i
        apply agreeing_read
        · intro s
          cases (s.entry_store.folderAt r).sub_files i with
          | none => exact Agreeing.pure ()
          | some g => exact delete_vfs_file_agreeing g
        · exact fun _ _ => rfl
      intro _
      apply Agreeing.bind
      · apply Agreeing.forEach
        intro i
        apply agreeing_read
        · intro s
          cases (s.entry_store.folderAt r).sub_folders i with
          | none => exact Agreeing.pure ()
          | some d => exact ih d
        · exact fun _ _ => rfl
      intro _
      exact onEntryStore_agreeing _
    · exact fun _ _ => rfl

theorem delete_vfs_folder_agreeing (r : FolderRef) (force : Bool) :
    Agreeing AlikeSystem (delete_vfs_folder r force) := by
  apply agreeing_read
  · intro s
    apply Agreeing.bind (Agreeing.ofExcept _)
    intro _
    apply Agreeing.ite
    · exact onEntryStore_agreeing _
    · apply Agreeing.ite
      · exact Agreeing.returnStatus _
      · exact delete_children_agreeing _ r
  · exact fun _ _ => rfl

end VirtualFS
