import VirtualFS.System.FileLogic
import VirtualFS.Disk.Extents

/-! # Append

    `file_append` either fails without effect, or adds one extent of free
    chunks and overwrites all of its bytes: the data, and the end-of-content
    bytes behind it. No write can fail once the extent is allocated.

    * `padded`: the appended bytes, filled up to whole chunks.
    * `file_append_cases`: the two ways an append ends.
    * `file_append_with`: the append with any code in the place of the rollback;
      as no write fails, the rollback is never run and the two are equal.
-/

namespace VirtualFS

open Framework Prog Outcome

variable {s t : VFS} {f : FileRef} {e : File} {l : List ChunkExtent} {c pos : Nat}
  {data : List Byte}

/-! ## Section 1: Writing chunks -/

/-- The file owns the chunk, and the chunk is allocated: all that writing checks. -/
def Writable (s : VFS) (f : FileRef) (c : Nat) : Prop :=
  c < CHUNKS_AMOUNT ∧ file_owns_chunk (s.entry_store.files f) c = true ∧
    s.storage_man.allocation_map c = true

/-- A chunk that the file owns and that is allocated can be written. -/
theorem file_write_chunk_run (h : Writable s f c) (hdata : data.length ≤ CHUNK_SIZE) :
    file_write_chunk f c data s = .ok () (s.writeAt (get_chunk_addr c) data) := by
  obtain ⟨hc, howns, hmap⟩ := h
  simp [file_write_chunk, Nat.not_le.mpr hc, howns, onStorageMan, chwrite,
    Nat.not_lt.mpr hdata, hmap, VFS.writeAt]

/-- The loop writes the front of the data, from the first chunk on. -/
theorem write_full_chunks_run (n : Nat) {cur : Nat}
    (h : ∀ c, cur ≤ c → c < cur + n → Writable s f c) (hdata : n * CHUNK_SIZE ≤ data.length) :
    write_full_chunks f n cur data s =
      .ok () (s.writeAt (get_chunk_addr cur) (data.take (n * CHUNK_SIZE))) := by
  induction n generalizing cur data s with
  | zero => simp [write_full_chunks]
  | succ n ih =>
    -- the first chunk takes its part of the data
    have hsize : CHUNK_SIZE ≤ data.length := by
      rw [Nat.succ_mul] at hdata
      omega
    have hlen : (data.take CHUNK_SIZE).length = CHUNK_SIZE := by simp [hsize]
    have haddr : get_chunk_addr (cur + 1) = get_chunk_addr cur + (data.take CHUNK_SIZE).length := by
      rw [hlen]
      simp only [get_chunk_addr, Nat.add_mul, Nat.one_mul]
    have hrest : n * CHUNK_SIZE ≤ (data.drop CHUNK_SIZE).length := by
      rw [List.length_drop]
      rw [Nat.succ_mul] at hdata
      omega
    -- writing changes neither extents nor map
    have hw : ∀ c, cur + 1 ≤ c → c < cur + 1 + n →
        Writable (s.writeAt (get_chunk_addr cur) (data.take CHUNK_SIZE)) f c :=
      fun c h₁ h₂ => h c (by omega) (by omega)
    -- two adjacent writes are one
    unfold write_full_chunks
    rw [bind_run, file_write_chunk_run (h cur (Nat.le_refl _) (by omega)) (by omega), bind_ok,
      ih hw hrest, haddr, writeAt_writeAt]
    congr 2
    rw [Nat.succ_mul, Nat.add_comm, List.take_add]

/-! ## Section 2: The appended bytes -/

/-- The chunks hold the data, and one chunk less would not. -/
theorem get_chunks_amount_bounds (n : Nat) :
    n ≤ get_chunks_amount n * CHUNK_SIZE ∧ get_chunks_amount n * CHUNK_SIZE < n + CHUNK_SIZE := by
  unfold get_chunks_amount uses_full_chunks CHUNK_SIZE
  split
  · next h =>
    have := beq_iff_eq.mp h
    omega
  · next h =>
    have : ¬ n % 8 = 0 := fun h' => h (beq_iff_eq.mpr h')
    omega

/-- The chunks that hold `n` bytes. -/
def chunksFor (n : Nat) : Nat := (n + (CHUNK_SIZE - 1)) / CHUNK_SIZE

/-- The code's amount of chunks is division rounding up. -/
theorem get_chunks_amount_eq (n : Nat) : get_chunks_amount n = chunksFor n := by
  have := get_chunks_amount_bounds n
  simp only [chunksFor, CHUNK_SIZE] at *
  omega

/-- Data is stored in whole chunks: end-of-content bytes fill the last one. -/
def padded (data : List Byte) : List Byte :=
  data ++ List.replicate (chunksFor data.length * CHUNK_SIZE - data.length) EOC_OPERATOR

/-- The padded data fills its chunks. -/
theorem length_padded (data : List Byte) :
    (padded data).length = get_chunks_amount data.length * CHUNK_SIZE := by
  have := (get_chunks_amount_bounds data.length).1
  simp only [padded, ← get_chunks_amount_eq, List.length_append, List.length_replicate]
  omega

/-- The writes of `file_append` to an extent that starts at `start`. -/
theorem append_writes_run {start : Nat}
    (h : ∀ c, start ≤ c → c < start + get_chunks_amount data.length → Writable s f c) :
    (do
      write_full_chunks f
        (get_chunks_amount data.length - (if uses_full_chunks data.length then 0 else 1))
        start data
      if uses_full_chunks data.length then
        return ()
      else
        file_write_chunk f
          (start + (get_chunks_amount data.length -
            (if uses_full_chunks data.length then 0 else 1)))
          (get_remaining_data
            (data.drop ((get_chunks_amount data.length -
              (if uses_full_chunks data.length then 0 else 1)) * CHUNK_SIZE))
            (data.length % CHUNK_SIZE)) : Sys VFS Unit) s =
      .ok () (s.writeAt (get_chunk_addr start) (padded data)) := by
  cases hfull : uses_full_chunks data.length with
  | true =>
    -- no padding
    have hmod : data.length % CHUNK_SIZE = 0 := beq_iff_eq.mp hfull
    have hamount : get_chunks_amount data.length * CHUNK_SIZE = data.length := by
      rw [get_chunks_amount, hfull, if_pos rfl]
      exact Nat.div_mul_cancel (Nat.dvd_of_mod_eq_zero hmod)
    have hpad : padded data = data := by simp [padded, ← get_chunks_amount_eq, hamount]
    simp only [if_true, Nat.sub_zero, bind_run]
    rw [write_full_chunks_run _ h (Nat.le_of_eq hamount), hamount, List.take_length, hpad]
    rfl
  | false =>
    have hmod : ¬ data.length % CHUNK_SIZE = 0 := by
      intro h0
      rw [uses_full_chunks, beq_iff_eq.mpr h0] at hfull
      cases hfull
    -- the last chunk is partially filled
    have hamount : get_chunks_amount data.length = data.length / CHUNK_SIZE + 1 := by
      simp [get_chunks_amount, hfull]
    have hdiv := Nat.div_add_mod data.length CHUNK_SIZE
    rw [Nat.mul_comm] at hdiv
    have hlt : data.length % CHUNK_SIZE < CHUNK_SIZE := Nat.mod_lt _ (by decide)
    rw [hamount] at h ⊢
    simp only [Bool.false_eq_true, if_false, Nat.add_sub_cancel, bind_run]
    -- `q` full chunks and `r` bytes in the last one
    generalize hq : data.length / CHUNK_SIZE = q at *
    generalize hr : data.length % CHUNK_SIZE = r at *
    have hlen : (data.take (q * CHUNK_SIZE)).length = q * CHUNK_SIZE := by
      rw [List.length_take]
      omega
    have haddr : get_chunk_addr (start + q) =
        get_chunk_addr start + (data.take (q * CHUNK_SIZE)).length := by
      rw [hlen]
      simp only [get_chunk_addr, Nat.add_mul]
    have hdrop : (data.drop (q * CHUNK_SIZE)).length = r := by
      rw [List.length_drop]
      omega
    -- the padding makes the last write one chunk long
    have hremaining : (get_remaining_data (data.drop (q * CHUNK_SIZE)) r).length ≤ CHUNK_SIZE := by
      simp only [get_remaining_data, List.length_append, List.length_take, List.length_replicate]
      omega
    have hw : Writable (s.writeAt (get_chunk_addr start) (data.take (q * CHUNK_SIZE))) f
        (start + q) := h _ (by omega) (by omega)
    rw [write_full_chunks_run q (fun c h₁ h₂ => h c h₁ (by omega)) (by omega), bind_ok,
      file_write_chunk_run hw hremaining, haddr, writeAt_writeAt]
    congr 2
    -- the full chunks, the rest of the data and the padding are `padded data`
    rw [padded, ← get_chunks_amount_eq, hamount, get_remaining_data, ← List.append_assoc, ← hdrop,
      List.take_length, List.take_append_drop, hdrop]
    congr 2
    rw [Nat.add_mul]
    omega

/-! ## Section 3: The outcome -/

/-- Two states that differ at most in the bytes on the disk. -/
structure SameMeta (s t : VFS) : Prop where
  entry_store : t.entry_store = s.entry_store
  allocation_map : t.storage_man.allocation_map = s.storage_man.allocation_map
  free_chunk_count : t.storage_man.free_chunk_count = s.storage_man.free_chunk_count

theorem SameMeta.refl (s : VFS) : SameMeta s s := ⟨rfl, rfl, rfl⟩

/-- The state after a successful append to the chunks from `pos` on. -/
def VFS.appended (s : VFS) (f : FileRef) (pos : Nat) (data : List Byte) : VFS :=
  (VFS.putFile
    { s with
      storage_man := s.storage_man.allocate pos (get_chunks_amount data.length) } f
    ((s.entry_store.files f).addExtent pos (get_chunks_amount data.length))).writeAt
      (get_chunk_addr pos) (padded data)

/-- `file_append` that answers a failing chunk write with `rollback`. -/
def file_append_with (rollback : ExtentRef → Sys VFS Unit) (file : FileRef) (data : List Byte) :
    Sys VFS Unit := do
  let s ← readState
  if data.length > s.storage_man.free_chunk_count * CHUNK_SIZE then
    returnStatus .DATA_OVER_FLOW
  if data.length = 0 then
    returnStatus .INVALID_OPERATION
  let chunks_needed := get_chunks_amount data.length
  let allocated_chunk_extent ← file_allocate_chunks file chunks_needed
  let s ← readState
  let start := (s.extentAt allocated_chunk_extent).start
  let full_chunks := chunks_needed - (if uses_full_chunks data.length then 0 else 1)
  onFailure
    (do
      write_full_chunks file full_chunks start data
      if uses_full_chunks data.length then
        return ()
      else
        file_write_chunk file (start + full_chunks)
          (get_remaining_data (data.drop (full_chunks * CHUNK_SIZE))
            (data.length % CHUNK_SIZE)))
    (rollback allocated_chunk_extent)

/-- The code's rollback, given as the parameter. -/
theorem file_append_eq :
    file_append f data = file_append_with (file_free_chunk_extent f) f data := rfl

/-- Without a failing check the data is written to the new extent, whatever the rollback. -/
theorem file_append_with_run (h : HasExtents (s.entry_store.files f).data_chunk_extents l)
    (hlt : l.length < MAX_FILE_CHUNK_EXTENTS_AMOUNT)
    (hspace : ¬ data.length > s.storage_man.free_chunk_count * CHUNK_SIZE)
    (hdata : ¬ data.length = 0)
    (hrun : FreeRun s.storage_man.allocation_map pos (get_chunks_amount data.length))
    (halloc : challoc (get_chunks_amount data.length) s.storage_man =
      .ok pos (s.storage_man.allocate pos (get_chunks_amount data.length)))
    (rollback : ExtentRef → Sys VFS Unit) :
    file_append_with rollback f data s = .ok () (s.appended f pos data) := by
  -- `s₁` is the state in which the writes start
  generalize hs₁ : VFS.putFile
    { s with
      storage_man := s.storage_man.allocate pos (get_chunks_amount data.length) } f
    ((s.entry_store.files f).addExtent pos (get_chunks_amount data.length)) = s₁
  have hfile : s₁.entry_store.files f =
      (s.entry_store.files f).addExtent pos (get_chunks_amount data.length) := by
    rw [← hs₁]
    simp
  have hallocate : file_allocate_chunks f (get_chunks_amount data.length) s =
      .ok ⟨f, l.length⟩ s₁ := by
    rw [← hs₁]
    simp [file_allocate_chunks, get_available_chunk_extent_index_eq h, hlt, onStorageMan, halloc,
      modifyFile_eq, File.addExtent, h.extents_eq]
  have hstart : (s₁.extentAt ⟨f, l.length⟩).start = pos := by
    simp [VFS.extentAt, hfile, File.addExtent, File.setExtent, h.extents_eq]
  -- the file owns the new chunks, and they are allocated
  have hw : ∀ c, pos ≤ c → c < pos + get_chunks_amount data.length → Writable s₁ f c := by
    intro c h₁ h₂
    have hnew := h.addExtent hlt pos (get_chunks_amount data.length)
    refine ⟨Nat.lt_of_lt_of_le h₂ hrun.1, ?_, ?_⟩
    · rw [hfile, file_owns_chunk_iff hnew, hnew.chunks_eq, List.flatMap_append]
      apply List.mem_append_right _
      simpa using mem_chunks.mpr ⟨h₁, h₂⟩
    · rw [← hs₁]
      simp [h₁, h₂]
  -- no write fails, so the cleanup is not run
  have hwrites := append_writes_run hw
  simp only [file_append_with, bind_run, readState_run, bind_ok, hspace, hdata, if_false,
    ite_run, hallocate, hstart]
  rw [onFailure_of_ok hwrites, ← hs₁]
  rfl

/-- **Append.** The outcome, the chunks included, does not depend on the bytes on
    the disk, nor on the rollback. -/
theorem file_append_with_cases (h : HasExtents (s.entry_store.files f).data_chunk_extents l)
    (data : List Byte) :
    (∃ err, ∀ rollback t, SameMeta s t → file_append_with rollback f data t = .fail err t) ∨
      (l.length < MAX_FILE_CHUNK_EXTENTS_AMOUNT ∧ 0 < get_chunks_amount data.length ∧
        ∃ pos, FreeRun s.storage_man.allocation_map pos (get_chunks_amount data.length) ∧
          ∀ rollback t, SameMeta s t →
            file_append_with rollback f data t = .ok () (t.appended f pos data)) := by
  -- the early returns, in the order of the code
  by_cases hspace : data.length > s.storage_man.free_chunk_count * CHUNK_SIZE
  · refine Or.inl ⟨.DATA_OVER_FLOW, fun rollback t ht => ?_⟩
    rw [← ht.free_chunk_count] at hspace
    simp [file_append_with, hspace]
  by_cases hdata : data.length = 0
  · refine Or.inl ⟨.INVALID_OPERATION, fun rollback t ht => ?_⟩
    simp [file_append_with, hdata]
  by_cases hlt : l.length < MAX_FILE_CHUNK_EXTENTS_AMOUNT
  · rcases challoc_cases s.storage_man.allocation_map (get_chunks_amount data.length) with
      ⟨err, hfail⟩ | ⟨pos, hpos, hrun, hok⟩
    · refine Or.inl ⟨err, fun rollback t ht => ?_⟩
      -- no run of free chunks is long enough
      have hfail' := hfail t.storage_man ht.allocation_map
      rw [← ht.free_chunk_count] at hspace
      rw [← ht.entry_store] at h
      simp [file_append_with, hspace, hdata, file_allocate_chunks,
        get_available_chunk_extent_index_eq h, hlt, onStorageMan, hfail']
    · refine Or.inr ⟨hlt, hpos, pos, hrun, fun rollback t ht => ?_⟩
      have hok' := hok t.storage_man ht.allocation_map
      rw [← ht.free_chunk_count] at hspace
      rw [← ht.entry_store] at h
      rw [← ht.allocation_map] at hrun
      exact file_append_with_run h hlt hspace hdata hrun hok' rollback
  · refine Or.inl ⟨.FILE_CHUNK_EXTENT_LIMIT_EXCEEDED, fun rollback t ht => ?_⟩
    rw [← ht.free_chunk_count] at hspace
    rw [← ht.entry_store] at h
    simp [file_append_with, hspace, hdata, file_allocate_chunks,
      get_available_chunk_extent_index_eq h, hlt]

/-- An append fails alike in all states with the same metadata, or it appends. -/
theorem file_append_cases (h : HasExtents (s.entry_store.files f).data_chunk_extents l)
    (data : List Byte) :
    (∃ err, ∀ t, SameMeta s t → file_append f data t = .fail err t) ∨
      (l.length < MAX_FILE_CHUNK_EXTENTS_AMOUNT ∧ 0 < get_chunks_amount data.length ∧
        ∃ pos, FreeRun s.storage_man.allocation_map pos (get_chunks_amount data.length) ∧
          ∀ t, SameMeta s t → file_append f data t = .ok () (t.appended f pos data)) := by
  rw [file_append_eq]
  rcases file_append_with_cases h data with ⟨err, hfail⟩ | ⟨hlt, hpos, pos, hrun, hok⟩
  · exact Or.inl ⟨err, hfail _⟩
  · exact Or.inr ⟨hlt, hpos, pos, hrun, hok _⟩

/-- Room for an extent and a run of free chunks are all that data needs. -/
theorem file_append_succeeds (h : HasExtents (s.entry_store.files f).data_chunk_extents l)
    (hcount : s.storage_man.CountOk) (hlt : l.length < MAX_FILE_CHUNK_EXTENTS_AMOUNT)
    (hdata : 0 < data.length)
    (hrun : FreeRun s.storage_man.allocation_map pos (get_chunks_amount data.length)) :
    ∃ pos', file_append f data s = .ok () (s.appended f pos' data) := by
  have hbounds := get_chunks_amount_bounds data.length
  have hpos : 0 < get_chunks_amount data.length := by
    by_contra hzero
    have : get_chunks_amount data.length = 0 := by omega
    rw [this] at hbounds
    omega
  -- the run is counted, so there is enough space for the first check
  have hspace : ¬ data.length > s.storage_man.free_chunk_count * CHUNK_SIZE := by
    have := Nat.mul_le_mul_right CHUNK_SIZE (hcount.amount_le hrun)
    omega
  obtain ⟨pos', _, hrun', hok⟩ := challoc_finds hpos hrun
  exact ⟨pos', file_append_with_run h hlt hspace (by omega) hrun' hok _⟩

/-- The rollback is never run. -/
theorem file_append_with_eq (h : HasExtents (s.entry_store.files f).data_chunk_extents l)
    (rollback : ExtentRef → Sys VFS Unit) :
    file_append_with rollback f data s = file_append f data s := by
  rw [file_append_eq]
  rcases file_append_with_cases h data with ⟨err, hfail⟩ | ⟨_, _, pos, _, hok⟩
  · rw [hfail _ s (SameMeta.refl s), hfail _ s (SameMeta.refl s)]
  · rw [hok _ s (SameMeta.refl s), hok _ s (SameMeta.refl s)]

end VirtualFS
