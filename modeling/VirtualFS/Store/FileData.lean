import VirtualFS.Disk.Reading
import VirtualFS.Store.Reachable

/-! # Reading and Appending File Data

    `file_read_at` and `file_append` on a committed file, from any state that
    satisfies the disk ownership invariant: when they succeed, and what they
    then do to the content of the file.

    * `file_read_at_exact`: success, the length of the content, and the buffer.
    * `file_append_end_to_end`: success, and `DataAppended` after it.
    * `filled`: a buffer after bytes have been copied to its front.

    The arguments are any sizes; offsets and amounts whose sum wraps are among
    those that fail.
-/

namespace VirtualFS

open Framework Prog Outcome VFSEntryStore

variable {s s' : VFS} {f : FileRef} {data : List Byte}

/-! ## Section 1: Positional reads -/

/-- The buffer after the bytes have been copied to its front. -/
def filled (buffer bytes : List Byte) : List Byte := bytes ++ buffer.drop bytes.length

/-- **Positional reads are exact.** A read succeeds if it ends inside the file, where
    the bounds are added as natural numbers. Then it copies this slice of the content to
    the buffer, and nothing else. -/
theorem file_read_at_exact (h : DiskInvariant s) (hf : s.entry_store.committed (.file f))
    (offset amount : Nat) (hoffset : offset < SIZE_T_RANGE) (hamount : amount < SIZE_T_RANGE)
    (buffer : List Byte) :
    ((file_read_at f offset amount buffer.length s).succeeded = true ↔
        0 < amount ∧ amount ≤ buffer.length ∧
          offset + amount ≤ (s.entry_store.files f).allocated_size * CHUNK_SIZE) ∧
      (s.content f).length = (s.entry_store.files f).allocated_size * CHUNK_SIZE ∧
      ∀ bytes s', file_read_at f offset amount buffer.length s = .ok bytes s' →
        s' = s ∧ bytes.length = amount ∧
          filled buffer bytes = ((s.content f).drop offset).take amount ++ buffer.drop amount := by
  have ho := h.ownership.ownsChunks hf
  have hlen := length_content ho.file_ok
  -- The condition of the statement decides between the two run lemmas.
  by_cases hin : 0 < amount ∧ amount ≤ buffer.length ∧
      offset + amount ≤ (s.entry_store.files f).allocated_size * CHUNK_SIZE
  · have hrun := file_read_at_run ho hin.1 hin.2.1 hin.2.2
    have hslice : (slice offset amount (s.content f)).length = amount :=
      length_slice (by omega)
    refine ⟨⟨fun _ => hin, fun _ => by rw [hrun]; rfl⟩, hlen, ?_⟩
    intro bytes s' hok
    rw [hrun] at hok
    cases hok
    refine ⟨rfl, hslice, ?_⟩
    unfold filled
    rw [hslice]
    rfl
  · obtain ⟨e, hfail⟩ := file_read_at_fails ho hin hoffset hamount
    refine ⟨⟨fun hok => ?_, fun hc => absurd hc hin⟩, hlen, ?_⟩
    · rw [hfail] at hok
      cases hok
    · intro bytes s' hok
      rw [hfail] at hok
      cases hok

/-- The end of one extent and the start of the next are read. -/
theorem file_read_at_exact_run :
    ∃ s, runStore
      [.vfs_sub_file_init [97] .root, .file_append 0 [1, 2, 3], .vfs_sub_file_init [98] .root,
        .file_append 1 [4], .file_append 0 [5, 6, 7, 8, 9, 10, 11, 12, 13]] = some s ∧
      s.content 0 = [1, 2, 3, 30, 30, 30, 30, 30, 5, 6, 7, 8, 9, 10, 11, 12,
        13, 30, 30, 30, 30, 30, 30, 30] ∧
      ((file_read_at 0 2 15 (List.replicate 16 0).length s).succeeded = true ↔
        0 < 15 ∧ 15 ≤ (List.replicate 16 0).length ∧
          2 + 15 ≤ (s.entry_store.files 0).allocated_size * CHUNK_SIZE) := by
  refine exists_of_run
    (Q := fun s => s.entry_store.committed (.file 0) ∧
      s.content 0 = [1, 2, 3, 30, 30, 30, 30, 30, 5, 6, 7, 8, 9, 10, 11, 12,
        13, 30, 30, 30, 30, 30, 30, 30]) (by decide +kernel) fun s hs hQ => ⟨hQ.2, ?_⟩
  exact (file_read_at_exact (diskInvariant_of_runStore hs) hQ.1 2 15 (by decide)
    (by decide) (List.replicate 16 0)).1

/-! ## Section 2: Append -/

/-- The data is behind the old content and padded to whole chunks, which were free. -/
structure DataAppended (s s' : VFS) (f : FileRef) (data : List Byte) : Prop where
  /-- Behind the data the last chunk is filled up. -/
  content : s'.content f = s.content f ++ data ++
    List.replicate (chunksFor data.length * CHUNK_SIZE - data.length) EOC_OPERATOR
  /-- The file has grown by whole chunks. -/
  allocated_size : (s'.entry_store.files f).allocated_size =
    (s.entry_store.files f).allocated_size + chunksFor data.length
  /-- They are no longer counted as free. -/
  free_chunk_count : s'.storage_man.free_chunk_count + chunksFor data.length =
    s.storage_man.free_chunk_count
  /-- They are one run of the disk that was free. -/
  allocation_map : ∃ pos, FreeRun s.storage_man.allocation_map pos (chunksFor data.length) ∧
    ∀ c, s'.storage_man.allocation_map c = true ↔
      s.storage_man.allocation_map c = true ∨ (pos ≤ c ∧ c < pos + chunksFor data.length)

/-- The state after a successful append is the one that is specified. -/
theorem dataAppended_of_run {pos : Nat} (h : Ownership s) (hf : s.entry_store.committed (.file f))
    (hlt : (s.entry_store.files f).extents.length < MAX_FILE_CHUNK_EXTENTS_AMOUNT)
    (hpos : 0 < get_chunks_amount data.length)
    (hrun : FreeRun s.storage_man.allocation_map pos (get_chunks_amount data.length)) :
    DataAppended s (s.appended f pos data) f data := by
  have ho := h.ownsChunks hf
  have heffect := appended_effect ho hlt hpos hrun
  have hamount : chunksFor data.length = get_chunks_amount data.length :=
    (get_chunks_amount_eq data.length).symm
  constructor
  case content =>
    rw [appended_content ho hlt hrun, List.append_assoc]
    rfl
  case allocated_size =>
    rw [hamount, ← ho.file_ok.length_chunks, ← heffect.file_ok.length_chunks]
    have hchunks := ho.file_ok.compact.addExtent_chunks hlt
      pos (get_chunks_amount data.length)
    have := congrArg List.length hchunks
    rw [List.length_append, List.length_range'] at this
    simpa [VFS.appended] using this
  case free_chunk_count =>
    -- the count was accurate, so it does not wrap
    have hle := h.free_count.amount_le hrun
    have hcount := h.free_count.le
    have hrange := chunks_lt_size_t_range
    have hsub : (s.appended f pos data).storage_man.free_chunk_count =
        s.storage_man.free_chunk_count - get_chunks_amount data.length :=
      sizeSub_of_le hle (by omega)
    omega
  case allocation_map =>
    rw [hamount]
    refine ⟨pos, hrun, fun c => ?_⟩
    show (s.storage_man.allocate pos (get_chunks_amount data.length)).allocation_map c = true ↔ _
    rw [allocate_map, Bool.or_eq_true, decide_eq_true_eq]
    exact Or.comm

/-- **Append end to end.** It succeeds if there is data, room for an extent and a run of
    free chunks for the data, and then it adds the data. Otherwise it changes nothing.
    What it does is the same with any other rollback. -/
theorem file_append_end_to_end (h : DiskInvariant s) (hf : s.entry_store.committed (.file f))
    (data : List Byte) :
    ((file_append f data s).succeeded = true ↔
        0 < data.length ∧
        (∃ i, i < MAX_FILE_CHUNK_EXTENTS_AMOUNT ∧
          ((s.entry_store.files f).data_chunk_extents i).is_empty = true) ∧
        ∃ pos, FreeRun s.storage_man.allocation_map pos (chunksFor data.length)) ∧
      (file_append f data s).Sat (fun _ s' => DataAppended s s' f data) (fun _ s' => s' = s)
        (fun _ => False) ∧
      ∀ rollback, file_append_with rollback f data s = file_append f data s := by
  have ho := h.ownership.ownsChunks hf
  have hext := ho.file_ok.compact
  have hamount : chunksFor data.length = get_chunks_amount data.length :=
    (get_chunks_amount_eq data.length).symm
  refine ⟨?hiff, ?heffect, fun rollback => file_append_with_eq hext rollback⟩
  case hiff =>
    constructor
    · intro hsucc
      rcases file_append_cases hext data with ⟨err, hfail⟩ | ⟨hlt, hpos, pos, hrun, _⟩
      · rw [hfail s (SameMeta.refl s)] at hsucc
        cases hsucc
      · refine ⟨?_, ⟨_, hlt, hext.is_empty_of_le (Nat.le_refl _) hlt⟩, pos, hamount ▸ hrun⟩
        by_contra hzero
        have hnil : data.length = 0 := by omega
        rw [hnil] at hpos
        exact absurd hpos (by decide)
    · intro ⟨hdata, ⟨i, hi, hempty⟩, pos, hrun⟩
      rw [hamount] at hrun
      -- an array with an empty slot has room behind its extents
      have hlt : (s.entry_store.files f).extents.length < MAX_FILE_CHUNK_EXTENTS_AMOUNT := by
        by_contra hfull
        have hx := List.getElem?_eq_getElem
          (show i < (s.entry_store.files f).extents.length by omega)
        obtain ⟨heq, hne⟩ := hext.extent_eq hx
        rw [heq, hne] at hempty
        cases hempty
      obtain ⟨pos', hok⟩ := file_append_succeeds hext h.free_count hlt hdata hrun
      rw [hok]
      rfl
  case heffect =>
    rcases file_append_cases hext data with ⟨err, hfail⟩ | ⟨hlt, hpos, pos, hrun, hok⟩
    · rw [hfail s (SameMeta.refl s)]
      rfl
    · rw [hok s (SameMeta.refl s)]
      exact dataAppended_of_run h.ownership hf hlt hpos hrun

/-- Nine bytes are appended to a file next to another one. -/
theorem file_append_end_to_end_run :
    ∃ s, runStore
      [.vfs_sub_file_init [97] .root, .file_append 0 [1, 2, 3], .vfs_sub_file_init [98] .root,
        .file_append 1 [4]] = some s ∧
      (file_append 0 [5, 6, 7, 8, 9, 10, 11, 12, 13] s).Sat
        (fun _ s' => DataAppended s s' 0 [5, 6, 7, 8, 9, 10, 11, 12, 13]) (fun _ s' => s' = s)
        (fun _ => False) := by
  refine exists_of_run (Q := fun s => s.entry_store.committed (.file 0)) (by decide +kernel)
    fun s hs hQ => ?_
  exact (file_append_end_to_end (diskInvariant_of_runStore hs) hQ _).2.1

end VirtualFS
