import VirtualFS.Disk.Addressing
import VirtualFS.Disk.Shifting
import VirtualFS.Store.Truncation

/-! # Extents of Files

    What the functions that walk over the extents of a file, or move them, do
    as a whole.

    * `file_delete_data_exact`: clearing ends and gives back all chunks.
    * `chunk_addressing_agrees`: relative positions and ownership of chunks.
    * `right_shift_exact`: a gap between the extents is opened and closed.

    All three hold under any layout of the extents, for files that satisfy the disk
    ownership invariant or, for the shift, have their extents in front.
-/

namespace VirtualFS

open Framework Prog Outcome VFSEntryStore

variable {s s' : VFS} {f : FileRef} {e : File} {c i p d n : Nat}

/-! ## Section 1: Clearing -/

/-- A file without chunks has no extents. -/
theorem FileOk.extents_eq_nil (h : FileOk e) (hchunks : e.chunks = []) : e.extents = [] := by
  rw [List.eq_nil_iff_forall_not_mem]
  intro x hx
  have hpos := h.amount_pos x hx
  -- the first chunk of an extent
  have hmem : x.start ∈ e.chunks :=
    List.mem_flatMap.mpr ⟨x, hx, mem_chunks.mpr ⟨Nat.le_refl _, by omega⟩⟩
  rw [hchunks] at hmem
  cases hmem

/-- All chunks of the file, and no others, have been given back. -/
structure Cleared (s s' : VFS) (f : FileRef) : Prop where
  /-- No extent is in use. -/
  empty : ∀ i, i < MAX_FILE_CHUNK_EXTENTS_AMOUNT →
    ((s'.entry_store.files f).data_chunk_extents i).is_empty = true
  /-- The tracked size is 0. -/
  size_eq : (s'.entry_store.files f).allocated_size = 0
  /-- What the file held was allocated and is free. -/
  freed : ∀ i c, (s.entry_store.files f).HoldsAt i c →
    s.storage_man.allocation_map c = true ∧ s'.storage_man.allocation_map c = false
  /-- No other mark has changed. -/
  map_eq : ∀ c, (∀ i, ¬ (s.entry_store.files f).HoldsAt i c) →
    s'.storage_man.allocation_map c = s.storage_man.allocation_map c
  /-- As many chunks as the file had are counted as free in addition. -/
  free_count : s'.storage_man.free_chunk_count =
    s.storage_man.free_chunk_count + (s.entry_store.files f).allocated_size
  /-- No other record has changed. -/
  files_eq : ∀ g, g ≠ f → s'.entry_store.files g = s.entry_store.files g

/-- A file without chunks has been cleared, and its chunks have been given back. -/
theorem FileEffect.cleared (h : FileEffect s s' f) (ho : OwnsChunks s f)
    (hcount : s'.storage_man.free_chunk_count =
      s.storage_man.free_chunk_count + (s.entry_store.files f).allocated_size)
    (hchunks : (s'.entry_store.files f).chunks = []) : Cleared s s' f := by
  have hext := ho.file_ok.compact
  have hnil := h.file_ok.extents_eq_nil hchunks
  -- No chunk is left to the file, so the map loses exactly its former chunks.
  have hiff : ∀ c, s'.storage_man.allocation_map c = true ↔
      s.storage_man.allocation_map c = true ∧ c ∉ (s.entry_store.files f).chunks := by
    intro c
    rw [h.allocated_iff, hchunks]
    simp
  constructor
  case empty =>
    intro i hi
    exact h.file_ok.compact.is_empty_of_le (by rw [hnil]; exact Nat.zero_le i) hi
  case size_eq => rw [← h.file_ok.length_chunks, hchunks, List.length_nil]
  case freed =>
    intro i c hc
    have hmem := hext.mem_chunks_iff.mpr ⟨i, hc⟩
    refine ⟨ho.allocated c hmem, ?_⟩
    rw [← Bool.not_eq_true, hiff]
    exact fun hmap => hmap.2 hmem
  case map_eq =>
    intro c hc
    have hnot : c ∉ (s.entry_store.files f).chunks := by
      rw [hext.mem_chunks_iff]
      exact fun hin => hin.elim hc
    rw [Bool.eq_iff_iff, hiff]
    exact and_iff_left hnot
  case free_count => exact hcount
  case files_eq => exact fun g hg => h.files_eq hg

/-- The count grows by the size of the file. -/
theorem file_delete_data_count (ho : OwnsChunks s f) (hcount : s.storage_man.CountOk)
    (hrun : file_delete_data f s = .ok () s') :
    s'.storage_man.free_chunk_count =
      s.storage_man.free_chunk_count + (s.entry_store.files f).allocated_size := by
  obtain ⟨e', hrun', -, -⟩ := file_delete_data_run ho.file_ok.stored
  rw [hrun] at hrun'
  cases hrun'
  rw [← ho.file_ok.length_chunks]
  exact hcount.freeAll_count ho.file_ok.nodup
    fun c hc => ⟨ho.file_ok.on_disk hc, ho.allocated c hc⟩

/-- An iteration frees an extent or passes an empty position, so the loop ends after as
    many iterations as there are extents and positions. -/
theorem file_delete_data_terminates (ho : OwnsChunks s f)
    (hrun : file_delete_data f s = .ok () s')
    (hn : (s.entry_store.files f).extents.length + MAX_FILE_CHUNK_EXTENTS_AMOUNT < n) :
    file_delete_data_loop f n 0 s = .ok () s' := by
  have hlen := ho.file_ok.compact.length_le
  obtain ⟨e', hloop, -, -⟩ := file_delete_data_loop_run _ ho.file_ok.stored (Nat.lt_succ_self _)
  -- the bound of the model is large enough
  have hbound := file_delete_data_loop_mono hloop
    (show _ ≤ 2 * MAX_FILE_CHUNK_EXTENTS_AMOUNT + 1 from by omega)
  have hsame := hrun.symm.trans hbound
  cases hsame
  exact file_delete_data_loop_mono hloop hn

/-- **Clearing end to end.** It ends, succeeds, and gives back the chunks of the file and
    nothing else. -/
theorem file_delete_data_exact (hs : DiskInvariant s) (hf : s.entry_store.committed (.file f)) :
    ∃ s', file_delete_data f s = .ok () s' ∧
      (∀ n, (s.entry_store.files f).extents.length + MAX_FILE_CHUNK_EXTENTS_AMOUNT < n →
        file_delete_data_loop f n 0 s = .ok () s') ∧
      Cleared s s' f ∧ DiskInvariant s' ∧ OthersKept s s' f := by
  have ho := hs.ownership
  have howns := ho.ownsChunks hf
  obtain ⟨s', hrun, heffect, hchunks, -⟩ := file_delete_data_effect howns
  have hcount := file_delete_data_count howns ho.free_count hrun
  exact ⟨s', hrun, fun n hn => file_delete_data_terminates howns hrun hn,
    heffect.cleared howns hcount hchunks, (ho.fileEffect hf heffect).diskInvariant,
    heffect.othersKept ho.toChunksOwned hf⟩

/-- A file with three extents, between those of another one. -/
theorem file_delete_data_exact_run :
    ∃ s, runStore
      [.vfs_sub_file_init [97] .root, .vfs_sub_file_init [98] .root,
        .file_append 0 [1, 2, 3], .file_append 1 [4],
        .file_append 0 [5, 6, 7, 8, 9, 10, 11, 12, 13], .file_append 1 [14],
        .file_append 0 [15]] = some s ∧
      ∃ s', file_delete_data 0 s = .ok () s' ∧
        (∀ n, (s.entry_store.files 0).extents.length + MAX_FILE_CHUNK_EXTENTS_AMOUNT < n →
          file_delete_data_loop 0 n 0 s = .ok () s') ∧
        Cleared s s' 0 ∧ DiskInvariant s' ∧ OthersKept s s' 0 := by
  refine exists_of_run (Q := fun s => s.entry_store.committed (.file 0)) (by decide +kernel)
    fun s hs hf => ?_
  exact file_delete_data_exact (diskInvariant_of_runStore hs) hf

/-! ## Section 2: Addressing -/

/-- **Addressing and ownership agree.** The chunks at the relative positions are those that
    the file owns, and a read never fails to find one. -/
theorem chunk_addressing_agrees (h : FileInvariant e) :
    AddressingAgrees e ∧
    ∀ (s : VFS) (f : FileRef) (offset amount size : Nat), s.entry_store.files f = e →
      status (file_read_at f offset amount size s) ≠ some .CHUNK_DOES_NOT_BELONG_TO_FILE ∧
      status (file_read_at f offset amount size s) ≠ some .NOT_FOUND_CHUNKS_TERMINATED := by
  refine ⟨h.fileOk.addressingAgrees, ?_⟩
  intro s f offset amount size he
  have hok : FileOk (s.entry_store.files f) := by
    rw [he]
    exact h.fileOk
  exact (file_read_at_finds hok).status_ne

/-- Two adjacent extents, and one behind a chunk of another file. -/
theorem chunk_addressing_agrees_run :
    ∃ s, runStore
      [.vfs_sub_file_init [97] .root, .vfs_sub_file_init [98] .root,
        .file_append 0 [1, 2, 3, 4, 5, 6, 7, 8, 9], .file_append 0 [10], .file_append 1 [11],
        .file_append 0 [12]] = some s ∧
      AddressingAgrees (s.entry_store.files 0) ∧
      ∀ (t : VFS) (f : FileRef) (offset amount size : Nat),
        t.entry_store.files f = s.entry_store.files 0 →
        status (file_read_at f offset amount size t) ≠ some .CHUNK_DOES_NOT_BELONG_TO_FILE ∧
        status (file_read_at f offset amount size t) ≠ some .NOT_FOUND_CHUNKS_TERMINATED := by
  refine exists_of_run (Q := fun s => s.entry_store.committed (.file 0)) (by decide +kernel)
    fun s hs hf => ?_
  exact chunk_addressing_agrees
    ((diskInvariant_of_runStore hs).fileInvariant hf)

/-! ## Section 3: Shifting -/

/-- **Right shift opens a gap, left shift closes it.** Only the extents of the file
    change. -/
theorem right_shift_exact {l : List ChunkExtent}
    (h : HasExtents (s.entry_store.files f).data_chunk_extents l) (hp : p < l.length)
    (hd : 1 ≤ d) (hfit : l.length - 1 + d < MAX_FILE_CHUNK_EXTENTS_AMOUNT) :
    ∃ e', chunk_extent_right_shift ⟨f, p⟩ d f s = .ok () (s.putFile f e') ∧
      GapOpened (s.entry_store.files f) e' l.length p d ∧
      e' = { s.entry_store.files f with data_chunk_extents := e'.data_chunk_extents } ∧
      (d = 1 → ∃ e'', chunk_extent_left_shift ⟨f, p⟩ f (s.putFile f e') =
          .ok () (s.putFile f e'') ∧
        HasExtents e''.data_chunk_extents l) := by
  obtain ⟨e', hrun, hopened, hslots, hsame⟩ := chunk_extent_right_shift_run h hp hd hfit
  refine ⟨e', hrun, hopened, hsame, ?_⟩
  intro hone
  -- For a gap of one, the left shift at the same position is the inverse.
  rw [hone] at hslots
  have hfile : (s.putFile f e').entry_store.files f = e' := by simp
  obtain ⟨extents, hleft, hext⟩ := chunk_extent_left_shift_closes (s := s.putFile f e')
    (f := f) h hp (by omega) (by rwa [hfile])
  rw [putFile_putFile] at hleft
  exact ⟨_, hleft, hext⟩

/-- The second and the third of three extents are moved. -/
theorem right_shift_exact_run :
    ∃ s, runStore
      [.vfs_sub_file_init [97] .root, .vfs_sub_file_init [98] .root,
        .file_append 0 [1, 2, 3], .file_append 1 [4],
        .file_append 0 [5, 6, 7, 8, 9, 10, 11, 12, 13], .file_append 1 [14],
        .file_append 0 [15]] = some s ∧
      ∃ e', chunk_extent_right_shift ⟨0, 1⟩ 1 0 s = .ok () (s.putFile 0 e') ∧
        GapOpened (s.entry_store.files 0) e' (s.entry_store.files 0).extents.length 1 1 ∧
        e' = { s.entry_store.files 0 with data_chunk_extents := e'.data_chunk_extents } ∧
        ∃ e'', chunk_extent_left_shift ⟨0, 1⟩ 0 (s.putFile 0 e') =
            .ok () (s.putFile 0 e'') ∧
          HasExtents e''.data_chunk_extents (s.entry_store.files 0).extents := by
  refine exists_of_run
    (Q := fun s => s.entry_store.committed (.file 0) ∧
      (s.entry_store.files 0).extents.length = 3) (by decide +kernel) fun s hs hQ => ?_
  have hext := (diskInvariant_of_runStore hs).hasExtents hQ.1
  have hlen := hQ.2
  obtain ⟨e', hright, hopened, hsame, hleft⟩ :=
    right_shift_exact hext (show 1 < (s.entry_store.files 0).extents.length from by omega)
      (Nat.le_refl 1) (by rw [hlen]; decide)
  exact ⟨e', hright, hopened, hsame, hleft rfl⟩

end VirtualFS
