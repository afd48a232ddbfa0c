import VirtualFS.Disk.Positions
import VirtualFS.Framework.Blocks

/-! # Contents of Files

    The content of a file is the concatenation of its chunks, which are blocks
    of one size. A relative chunk position is a position in the list of chunks:
    the walk over the extents in `get_chunk_index` finds the chunk there.

    * `VFS.content`: the bytes of a file, by the extents of its record.
    * `get_chunk_index_ok`: the walk over the extents and the list of chunks.
    * `appended_content`: an added extent is added at the end.
-/

namespace VirtualFS

open Framework Prog Outcome

variable {s s' : VFS} {sm : StorageMan} {e : File} {f : FileRef} {l : List ChunkExtent}
  {c p pos : Nat}

/-! ## Section 1: Content -/

/-- The bytes of a file in the order of its extents. -/
def VFS.content (s : VFS) (f : FileRef) : List Byte :=
  (s.entry_store.files f).extents.flatMap fun x => x.chunks.flatMap s.storage_man.chunk

theorem length_chunk (sm : StorageMan) (c : Nat) : (sm.chunk c).length = CHUNK_SIZE := by
  unfold StorageMan.chunk
  rw [List.length_map, List.length_range]

/-- The content, chunk by chunk. -/
theorem content_eq (s : VFS) (f : FileRef) :
    s.content f = (s.entry_store.files f).chunks.flatMap s.storage_man.chunk :=
  List.flatMap_assoc.symm

/-- The size counts the chunks. -/
theorem FileOk.length_chunks (h : FileOk e) : e.chunks.length = e.allocated_size :=
  h.stored.size_eq.symm

/-- The content fills the chunks of the file. -/
theorem length_content (h : FileOk (s.entry_store.files f)) :
    (s.content f).length = (s.entry_store.files f).allocated_size * CHUNK_SIZE := by
  rw [content_eq, length_blocks (length_chunk _), h.length_chunks]

/-- Content depends on the extents and on the bytes of the file's own chunks. -/
theorem content_congr (hdata : SameData (s.entry_store.files f) (s'.entry_store.files f))
    (hbytes : ∀ c ∈ (s.entry_store.files f).chunks,
      s'.storage_man.chunk c = s.storage_man.chunk c) : s'.content f = s.content f := by
  rw [content_eq, content_eq, hdata.chunks_eq]
  exact List.flatMap_congr hbytes

/-- Consecutive chunks hold consecutive bytes. -/
theorem flatMap_chunk (sm : StorageMan) (pos n : Nat) :
    (List.range' pos n).flatMap sm.chunk =
      (List.range' (get_chunk_addr pos) (n * CHUNK_SIZE)).map sm.storage := by
  -- A chunk ends where the next one begins.
  induction n generalizing pos with
  | zero => simp
  | succ n ih =>
    have haddr : get_chunk_addr (pos + 1) = get_chunk_addr pos + CHUNK_SIZE := Nat.succ_mul ..
    have hchunk : sm.chunk pos =
        (List.range' (get_chunk_addr pos) CHUNK_SIZE).map sm.storage := by
      rw [List.range'_eq_map_range, List.map_map]
      rfl
    rw [List.range'_succ, List.flatMap_cons, ih, haddr, hchunk, ← List.map_append,
      List.range'_append_1, Nat.succ_mul, Nat.add_comm CHUNK_SIZE]

/-- Chunks that have been overwritten hold the data. -/
theorem flatMap_chunk_writeBytes {data : List Byte} {n : Nat}
    (hlen : data.length = n * CHUNK_SIZE) :
    (List.range' pos n).flatMap
        ({ sm with storage := writeBytes sm.storage (get_chunk_addr pos) data } :
          StorageMan).chunk = data := by
  rw [flatMap_chunk, ← hlen]
  apply List.ext_getElem
  · simp
  · intro i h₁ h₂
    rw [List.getElem_map, List.getElem_range', Nat.one_mul]
    show writeBytes sm.storage (get_chunk_addr pos) data (get_chunk_addr pos + i) = data[i]
    unfold writeBytes
    rw [if_pos (Nat.le_add_right ..), Nat.add_sub_cancel_left, List.getD_eq_getElem]

/-! ## Section 2: Relative chunk positions -/

/-- The walk over the extents from `i` on, where `rel` chunks have been passed. -/
theorem get_chunk_index_loop_ok (h : HasExtents e.data_chunk_extents l) (n : Nat) {i rel : Nat}
    (hn : n + i = MAX_FILE_CHUNK_EXTENTS_AMOUNT) (hrel : rel ≤ p)
    (hc : (chunksOf (l.drop i))[p - rel]? = some c) :
    get_chunk_index_loop e p n i rel = .ok c := by
  induction n generalizing i rel with
  | zero =>
    -- behind the array there are no chunks
    have := h.length_le
    rw [List.drop_eq_nil_of_le (by omega)] at hc
    cases hc
  | succ n ih =>
    unfold get_chunk_index_loop
    rcases h.scan (i := i) (by omega) with ⟨_, hdrop⟩ | ⟨hemp, hdrop⟩
    · rw [hdrop] at hc
      cases hc
    · rw [hdrop, chunksOf_cons] at hc
      simp only [hemp, Bool.false_eq_true, if_false]
      by_cases hin : p < rel + (e.data_chunk_extents i).chunk_amount
      · -- the chunk is in this extent
        rw [List.getElem?_append_left (by rw [length_chunks]; omega), ChunkExtent.chunks,
          List.getElem?_range' (by omega), Nat.one_mul] at hc
        rw [if_pos hin]
        exact congrArg _ (Option.some.inj hc)
      · rw [List.getElem?_append_right (by rw [length_chunks]; omega), length_chunks,
          Nat.sub_sub] at hc
        rw [if_neg hin]
        exact ih (by omega) (by omega) hc

/-- The chunk at a relative position. -/
theorem get_chunk_index_ok (h : FileOk e) (hc : e.chunks[p]? = some c) :
    get_chunk_index e p = .ok c := by
  obtain ⟨hp, _⟩ := List.getElem?_eq_some_iff.mp hc
  rw [h.length_chunks] at hp
  unfold get_chunk_index
  rw [if_neg (by omega)]
  exact get_chunk_index_loop_ok h.compact _ rfl (Nat.zero_le p) hc

/-- Positions behind the last chunk are out of bounds. -/
theorem get_chunk_index_error (h : FileOk e) (hp : e.chunks.length ≤ p) :
    get_chunk_index e p = .error .INDEX_OUT_OF_BOUNDS :=
  if_pos (h.length_chunks ▸ hp)

/-! ## Section 3: Appended content -/

/-- The padded data is behind the old content. -/
theorem appended_content {data : List Byte} (h : OwnsChunks s f)
    (hlt : (s.entry_store.files f).extents.length < MAX_FILE_CHUNK_EXTENTS_AMOUNT)
    (hrun : FreeRun s.storage_man.allocation_map pos (get_chunks_amount data.length)) :
    (s.appended f pos data).content f = s.content f ++ padded data := by
  have hchunks : ((s.appended f pos data).entry_store.files f).chunks =
      (s.entry_store.files f).chunks ++ List.range' pos (get_chunks_amount data.length) := by
    have := h.file_ok.compact.addExtent_chunks hlt pos (get_chunks_amount data.length)
    simpa [VFS.appended] using this
  rw [content_eq, content_eq, hchunks, List.flatMap_append]
  congr 1
  · exact List.flatMap_congr fun c hc => appended_chunk_eq hrun (h.allocated c hc)
  · exact flatMap_chunk_writeBytes (length_padded data)

end VirtualFS
