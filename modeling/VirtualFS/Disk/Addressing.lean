import VirtualFS.Disk.Reading

/-! # Addressing Chunks

    The extents of a file are walked in two ways: `get_chunk_index` adds up
    their sizes, `file_owns_chunk` compares with their ranges. Both describe
    the list of chunks of the file, so a chunk that the one has found is never
    refused by the other.

    * `AddressingAgrees`: what the two walks have in common, for one file.
    * `FileOk.addressingAgrees`: it holds of files whose extents are in order.
    * `FindsChunks`: a read that never gets one of the two statuses by which the
      walks report that they disagree.
    * `file_read_at_finds`: reads are such, part by part.
-/

namespace VirtualFS

open Framework Prog Outcome

variable {α β : Type} {s s' : VFS} {e : File} {f : FileRef} {c i j n start offset amount size : Nat}
  {err : StatusCode}

/-! ## Section 1: The two walks -/

/-- A relative position is a position in the list of chunks. -/
theorem get_chunk_index_eq_ok_iff (h : FileOk e) :
    get_chunk_index e i = .ok c ↔ e.chunks[i]? = some c := by
  refine ⟨fun hc => ?_, get_chunk_index_ok h⟩
  by_cases hi : i < e.chunks.length
  · have hget := List.getElem?_eq_getElem hi
    rw [get_chunk_index_ok h hget] at hc
    rw [hget]
    exact congrArg some (Except.ok.inj hc)
  · rw [get_chunk_index_error h (Nat.le_of_not_lt hi)] at hc
    cases hc

/-- The walk over the extents never gets past them. -/
theorem get_chunk_index_eq_error (h : FileOk e) (herr : get_chunk_index e i = .error err) :
    err = .INDEX_OUT_OF_BOUNDS := by
  by_cases hi : i < e.chunks.length
  · rw [get_chunk_index_ok h (List.getElem?_eq_getElem hi)] at herr
    cases herr
  · rw [get_chunk_index_error h (Nat.le_of_not_lt hi)] at herr
    exact (Except.error.inj herr).symm

/-- The chunks of a file in array order. -/
theorem chunks_by_position (e : File) :
    e.chunks = (List.range MAX_FILE_CHUNK_EXTENTS_AMOUNT).flatMap fun k =>
      if (e.data_chunk_extents k).is_empty then []
      else List.range' (e.data_chunk_extents k).start (e.data_chunk_extents k).chunk_amount := by
  unfold File.chunks File.extents
  rw [flatMap_occupants]
  apply List.flatMap_congr
  intro k _
  unfold extentSlot
  split <;> rfl

/-- The two walks over the extents of a file agree. -/
structure AddressingAgrees (e : File) : Prop where
  /-- An address is found for exactly the indices below the size. -/
  succeeds_iff : ∀ i, (∃ c, get_chunk_index e i = .ok c) ↔ i < e.allocated_size
  /-- Different indices are different chunks. -/
  injective : ∀ i j c, get_chunk_index e i = .ok c → get_chunk_index e j = .ok c → i = j
  /-- The ownership test accepts exactly the chunks that have an index. -/
  owns_iff : ∀ c, file_owns_chunk e c = true ↔ ∃ i, get_chunk_index e i = .ok c
  /-- In the order of the array, and in each extent from its start to its end. -/
  in_order : (List.range e.allocated_size).map (get_chunk_index e) =
    (List.range MAX_FILE_CHUNK_EXTENTS_AMOUNT).flatMap fun k =>
      if (e.data_chunk_extents k).is_empty then []
      else (List.range' (e.data_chunk_extents k).start
        (e.data_chunk_extents k).chunk_amount).map .ok
  /-- The walk itself does not fail. -/
  error_eq : ∀ i err, get_chunk_index e i = .error err → err = .INDEX_OUT_OF_BOUNDS

/-- Files whose extents are in order are addressed alike by both walks. -/
theorem FileOk.addressingAgrees (h : FileOk e) : AddressingAgrees e where
  succeeds_iff := by
    intro i
    simp only [get_chunk_index_eq_ok_iff h, ← h.length_chunks]
    constructor
    · intro ⟨c, hc⟩
      exact (List.getElem?_eq_some_iff.mp hc).1
    · intro hi
      exact ⟨_, List.getElem?_eq_getElem hi⟩
  injective := by
    intro i j c hi hj
    rw [get_chunk_index_eq_ok_iff h] at hi hj
    obtain ⟨hlt, -⟩ := List.getElem?_eq_some_iff.mp hi
    exact (List.getElem?_inj hlt h.nodup).mp (hi.trans hj.symm)
  owns_iff := by
    intro c
    rw [file_owns_chunk_iff h.compact, List.mem_iff_getElem?]
    simp only [get_chunk_index_eq_ok_iff h]
  in_order := by
    -- position by position, the walk over the extents meets the chunk list
    have hmap : (List.range e.allocated_size).map (get_chunk_index e) = e.chunks.map .ok := by
      apply List.ext_getElem
      · rw [List.length_map, List.length_map, List.length_range, h.length_chunks]
      · intro i h₁ h₂
        rw [List.length_map] at h₂
        rw [List.getElem_map, List.getElem_map, List.getElem_range]
        exact get_chunk_index_ok h (List.getElem?_eq_getElem h₂)
    rw [hmap, chunks_by_position, List.map_flatMap]
    apply List.flatMap_congr
    intro k _
    split <;> rfl
  error_eq := fun _ _ herr => get_chunk_index_eq_error h herr

/-! ## Section 2: Reads -/

/-- The call changes nothing, and it does not fail because one of the two walks has not
    found a chunk. -/
def FindsChunks (s : VFS) (o : Outcome StatusCode Fault VFS α) : Prop :=
  o.Sat (fun _ s' => s' = s)
    (fun err _ => err ≠ .CHUNK_DOES_NOT_BELONG_TO_FILE ∧ err ≠ .NOT_FOUND_CHUNKS_TERMINATED)
    (fun _ => False)

/-- The rule of sequencing: what comes after a read finds its chunks as well. -/
theorem FindsChunks.bind {o : Outcome StatusCode Fault VFS α}
    {q : α → VFS → Outcome StatusCode Fault VFS β} (ho : FindsChunks s o)
    (hq : ∀ a, FindsChunks s (q a s)) : FindsChunks s (o.bind q) := by
  apply Sat.bind ho
  intro a t ht
  rw [ht]
  exact hq a

/-- The two statuses are never returned. -/
theorem FindsChunks.status_ne {o : Outcome StatusCode Fault VFS α} (ho : FindsChunks s o) :
    status o ≠ some .CHUNK_DOES_NOT_BELONG_TO_FILE ∧
      status o ≠ some .NOT_FOUND_CHUNKS_TERMINATED := by
  rcases ho.ok_or_fail with ⟨a, t, rfl, -⟩ | ⟨err, t, rfl, herr⟩
  · exact ⟨by simp [status], by simp [status]⟩
  · exact ⟨fun h => herr.1 (Option.some.inj h), fun h => herr.2 (Option.some.inj h)⟩

/-- What is done with the chunk at a relative position. -/
theorem get_chunk_index_finds {q : Nat → Sys VFS α} (h : FileOk (s.entry_store.files f))
    (hq : ∀ c ∈ (s.entry_store.files f).chunks, FindsChunks s (q c s)) :
    FindsChunks s ((ofExcept (get_chunk_index (s.entry_store.files f) i) >>= q) s) := by
  match hget : get_chunk_index (s.entry_store.files f) i with
  | .ok c =>
    rw [get_chunk_index_eq_ok_iff h] at hget
    exact hq c (List.mem_of_getElem? hget)
  | .error err =>
    rw [get_chunk_index_eq_error h hget]
    show _ ∧ _
    exact ⟨by decide, by decide⟩

/-- A chunk that `get_chunk_index` has found passes the check of ownership. -/
theorem file_read_chunk_finds (h : FileOk (s.entry_store.files f))
    (hc : c ∈ (s.entry_store.files f).chunks) (len : Nat) :
    FindsChunks s (file_read_chunk f c len s) := by
  have hdisk : ¬ c ≥ CHUNKS_AMOUNT := Nat.not_le.mpr (h.on_disk hc)
  have howns := (file_owns_chunk_iff h.compact).mpr hc
  have hread : file_read_chunk f c len s = onStorageMan (chread c len) s := by
    simp [file_read_chunk, hdisk, howns]
  rw [hread]
  by_cases hlen : len < CHUNK_SIZE
  · simp [onStorageMan, chread, hlen, FindsChunks]
  · by_cases hfree : s.storage_man.allocation_map c = false
    · simp [onStorageMan, chread, hlen, hdisk, hfree, FindsChunks]
    · simp [onStorageMan, chread, hlen, hdisk, hfree, FindsChunks]

theorem read_chunk_from_until_finds (h : FileOk (s.entry_store.files f)) :
    FindsChunks s (read_chunk_from_until f start amount i s) := by
  unfold read_chunk_from_until
  by_cases hover : start + amount > CHUNK_SIZE
  · simp [hover, FindsChunks]
  · simp only [hover, if_false]
    apply get_chunk_index_finds h
    intro c hc
    apply (file_read_chunk_finds h hc CHUNK_SIZE).bind
    exact fun bytes => rfl

/-- The loop over whole chunks. -/
theorem read_full_chunks_finds (h : FileOk (s.entry_store.files f)) (n : Nat) :
    FindsChunks s (read_full_chunks_and_update_buffer_pointer f n i s) := by
  -- Each round looks one chunk up and reads it; both find what they look for.
  induction n generalizing i with
  | zero => exact rfl
  | succ n ih =>
    unfold read_full_chunks_and_update_buffer_pointer
    apply get_chunk_index_finds h
    intro c hc
    apply (file_read_chunk_finds h hc CHUNK_SIZE).bind
    intro bytes
    exact ih.bind fun rest => rfl

/-- **Reads find their chunks**, whatever the bounds of the read. -/
theorem file_read_at_finds (h : FileOk (s.entry_store.files f)) :
    FindsChunks s (file_read_at f offset amount size s) := by
  unfold file_read_at
  simp only [bind_run, readState_run, bind_ok, ite_run]
  -- the three checks come first: none of their statuses is one of the two
  split
  · exact ⟨by decide, by decide⟩
  split
  · exact ⟨by decide, by decide⟩
  split
  · exact ⟨by decide, by decide⟩
  simp only [pure_run]
  split
  · exact read_chunk_from_until_finds h
  · apply (read_chunk_from_until_finds h).bind
    intro first
    apply (read_full_chunks_finds h _).bind
    intro full
    split
    · exact rfl
    · exact (read_chunk_from_until_finds h).bind fun last => rfl

end VirtualFS
