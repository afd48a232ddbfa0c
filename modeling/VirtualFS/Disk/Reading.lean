import VirtualFS.Disk.Contents

/-! # Positional Reads

    A read is a partial first chunk, a run of full chunks and a partial last
    chunk. Each part is a slice of the content of the file, and the slices
    meet. An offset and an amount whose sum wraps pass the first check; then
    one of the chunks that are read lies behind the end of the file.

    * `file_read_at_run`: a read in range returns the slice of the content.
    * `file_read_at_fails`: any other read fails, wrapped sums included.
    * `file_read_at_readOnly`: no read changes anything.
-/

namespace VirtualFS

open Framework Prog Outcome

variable {s s' : VFS} {f : FileRef} {c i n start offset amount size : Nat}

/-! ## Section 1: Parts of a read -/

/-- A chunk of the file is read. -/
theorem file_read_chunk_run (h : OwnsChunks s f) (hc : c ∈ (s.entry_store.files f).chunks) :
    file_read_chunk f c CHUNK_SIZE s = .ok (s.storage_man.chunk c) s := by
  have hdisk : ¬ c ≥ CHUNKS_AMOUNT := Nat.not_le.mpr (h.file_ok.on_disk hc)
  have howns := (file_owns_chunk_iff h.file_ok.compact).mpr hc
  have hmap := h.allocated c hc
  simp [file_read_chunk, onStorageMan, chread, hdisk, howns, hmap]

/-- A part of one chunk. -/
theorem read_chunk_from_until_run (h : OwnsChunks s f) (hle : start + amount ≤ CHUNK_SIZE)
    (hi : i < (s.entry_store.files f).chunks.length) :
    read_chunk_from_until f start amount i s =
      .ok (slice (i * CHUNK_SIZE + start) amount (s.content f)) s := by
  have hc := List.getElem?_eq_getElem hi
  have hmem := List.mem_of_getElem? hc
  unfold read_chunk_from_until
  simp only [Nat.not_lt.mpr hle, if_false, bind_run, readState_run, bind_ok, pure_run,
    get_chunk_index_ok h.file_ok hc, ofExcept_ok_run, file_read_chunk_run h hmem]
  rw [content_eq, slice_block (length_chunk _) hc hle]
  rfl

/-- A chunk behind the end of the file cannot be read. -/
theorem read_chunk_from_until_fails (h : OwnsChunks s f) (start amount : Nat)
    (hi : (s.entry_store.files f).chunks.length ≤ i) :
    ∃ e, read_chunk_from_until f start amount i s = .fail e s := by
  unfold read_chunk_from_until
  by_cases hover : start + amount > CHUNK_SIZE
  · exact ⟨_, by simp only [hover, if_true]; rfl⟩
  · refine ⟨.INDEX_OUT_OF_BOUNDS, ?_⟩
    simp only [hover, if_false, bind_run, readState_run, bind_ok, pure_run,
      get_chunk_index_error h.file_ok hi, ofExcept_error_run, bind_fail]

/-- A run of full chunks. -/
theorem read_full_chunks_run (h : OwnsChunks s f) (n : Nat)
    (hi : i + n ≤ (s.entry_store.files f).chunks.length) :
    read_full_chunks_and_update_buffer_pointer f n i s =
      .ok (slice (i * CHUNK_SIZE) (n * CHUNK_SIZE) (s.content f)) s := by
  induction n generalizing i with
  | zero => simp [read_full_chunks_and_update_buffer_pointer]
  | succ n ih =>
    have hc := List.getElem?_eq_getElem (show i < (s.entry_store.files f).chunks.length by omega)
    have hmem := List.mem_of_getElem? hc
    unfold read_full_chunks_and_update_buffer_pointer
    simp only [bind_run, readState_run, bind_ok, get_chunk_index_ok h.file_ok hc,
      ofExcept_ok_run, file_read_chunk_run h hmem, ih (i := i + 1) (by omega), pure_run]
    -- the chunk is the slice in front of the rest
    have hchunk : s.storage_man.chunk (s.entry_store.files f).chunks[i] =
        slice (i * CHUNK_SIZE + 0) CHUNK_SIZE (s.content f) := by
      rw [content_eq, slice_block (length_chunk _) hc (Nat.le_of_eq (Nat.zero_add _))]
      have hlen := length_chunk s.storage_man (s.entry_store.files f).chunks[i]
      rw [← hlen, slice_full]
    rw [hchunk, Nat.add_zero, Nat.succ_mul i, slice_append_slice, Nat.succ_mul n, Nat.add_comm]

/-- A run that ends behind the end of the file cannot be read. -/
theorem read_full_chunks_fails (h : OwnsChunks s f) (n : Nat) (hn : 0 < n)
    (hi : (s.entry_store.files f).chunks.length < i + n) :
    ∃ e, read_full_chunks_and_update_buffer_pointer f n i s = .fail e s := by
  -- The rounds succeed as long as the position is in the file; the first one beyond it fails, and
  -- it is reached.
  induction n generalizing i with
  | zero => exact absurd hn (Nat.lt_irrefl 0)
  | succ n ih =>
    unfold read_full_chunks_and_update_buffer_pointer
    by_cases hin : i < (s.entry_store.files f).chunks.length
    · have hc := List.getElem?_eq_getElem hin
      obtain ⟨e, he⟩ := ih (i := i + 1) (by omega) (by omega)
      refine ⟨e, ?_⟩
      simp only [bind_run, readState_run, bind_ok, get_chunk_index_ok h.file_ok hc,
        ofExcept_ok_run, file_read_chunk_run h (List.mem_of_getElem? hc), he, bind_fail]
    · refine ⟨.INDEX_OUT_OF_BOUNDS, ?_⟩
      simp only [bind_run, readState_run, bind_ok,
        get_chunk_index_error h.file_ok (Nat.le_of_not_lt hin), ofExcept_error_run, bind_fail]

/-! ## Section 2: Whole reads -/

/-- The parts of a read inside the file meet. -/
theorem file_read_at_run (h : OwnsChunks s f) (hpos : 0 < amount) (hsize : amount ≤ size)
    (hend : offset + amount ≤ (s.entry_store.files f).allocated_size * CHUNK_SIZE) :
    file_read_at f offset amount size s = .ok (slice offset amount (s.content f)) s := by
  have hlen := h.file_ok.length_chunks
  have hle := h.file_ok.length_le
  have hadd : sizeAdd offset amount = offset + amount := by
    apply sizeAdd_of_lt
    simp only [SIZE_T_RANGE, CHUNK_SIZE, CHUNKS_AMOUNT] at *
    omega
  -- `offset` lies in chunk `i` at `r`
  obtain ⟨i, hi⟩ : ∃ i, offset / CHUNK_SIZE = i := ⟨_, rfl⟩
  obtain ⟨r, hr⟩ : ∃ r, offset % CHUNK_SIZE = r := ⟨_, rfl⟩
  have hoffset : i * CHUNK_SIZE + r = offset := by
    rw [← hi, ← hr]
    exact Nat.div_add_mod' offset CHUNK_SIZE
  have hrlt : r < CHUNK_SIZE := hr ▸ Nat.mod_lt offset (by decide)
  unfold file_read_at
  simp only [bind_run, readState_run, bind_ok, pure_run, ite_run, hadd, hi, hr,
    Nat.not_lt.mpr hend, Nat.not_lt.mpr hsize, Nat.pos_iff_ne_zero.mp hpos, if_false]
  by_cases hfirst : amount ≤ CHUNK_SIZE - r
  · rw [if_pos hfirst, read_chunk_from_until_run h (by omega)
      (by simp only [CHUNK_SIZE] at *; omega), hoffset]
  · rw [if_neg hfirst]
    -- the rest starts with chunk `i + 1`
    obtain ⟨k, hk⟩ : ∃ k, CHUNK_SIZE - r = k := ⟨_, rfl⟩
    have hnext : offset + k = (i + 1) * CHUNK_SIZE := by
      rw [Nat.succ_mul]
      omega
    obtain ⟨n, hn⟩ : ∃ n, (amount - k) / CHUNK_SIZE = n := ⟨_, rfl⟩
    obtain ⟨m, hm⟩ : ∃ m, (amount - k) % CHUNK_SIZE = m := ⟨_, rfl⟩
    have hamount : n * CHUNK_SIZE + m = amount - k := by
      rw [← hn, ← hm]
      exact Nat.div_add_mod' (amount - k) CHUNK_SIZE
    have hmlt : m < CHUNK_SIZE := hm ▸ Nat.mod_lt _ (by decide)
    have hbound : i + 1 + n ≤ (s.entry_store.files f).chunks.length ∧
        (m ≠ 0 → i + n + 1 < (s.entry_store.files f).chunks.length) := by
      simp only [CHUNK_SIZE] at *
      omega
    rw [hk] at hfirst
    simp only [hk, hn, hm]
    rw [read_chunk_from_until_run h (by omega) (by omega), bind_ok,
      read_full_chunks_run h n hbound.1, bind_ok, hoffset, ← hnext, slice_append_slice]
    by_cases hlast : m = 0
    · rw [if_pos hlast]
      have htotal : k + n * CHUNK_SIZE = amount := by omega
      rw [htotal]
    · rw [if_neg hlast, read_chunk_from_until_run h (by omega) (hbound.2 hlast), bind_ok]
      -- the last chunk starts where the run of full ones ends
      have hstart : (i + n + 1) * CHUNK_SIZE + 0 = offset + (k + n * CHUNK_SIZE) := by
        simp only [CHUNK_SIZE] at *
        omega
      have htotal : k + n * CHUNK_SIZE + m = amount := by omega
      rw [hstart, slice_append_slice, htotal]

/-- A read that does not end inside the file fails, also when the sum of its bounds
    wraps. -/
theorem file_read_at_fails (h : OwnsChunks s f)
    (hout : ¬ (0 < amount ∧ amount ≤ size ∧
      offset + amount ≤ (s.entry_store.files f).allocated_size * CHUNK_SIZE))
    (hoffset : offset < SIZE_T_RANGE) (hamount : amount < SIZE_T_RANGE) :
    ∃ e, file_read_at f offset amount size s = .fail e s := by
  have hle := h.file_ok.length_le
  have hlen := h.file_ok.length_chunks
  unfold file_read_at
  by_cases hbound : sizeAdd offset amount > (s.entry_store.files f).allocated_size * CHUNK_SIZE
  · exact ⟨.INDEX_OUT_OF_BOUNDS, by simp [hbound]⟩
  by_cases hzero : amount = 0
  · exact ⟨.INVALID_OPERATION, by simp [hbound, eq_true hzero]⟩
  by_cases hsmall : size < amount
  · exact ⟨.INSUFFICIENT_ARRAY_PASSED, by simp [hbound, hzero, hsmall]⟩
  -- all checks are passed, so the sum has wrapped
  have hwrap : SIZE_T_RANGE ≤ offset + amount := by
    by_contra hlt
    rw [sizeAdd_of_lt (Nat.lt_of_not_le hlt)] at hbound
    exact hout ⟨by omega, by omega, by omega⟩
  obtain ⟨i, hi⟩ : ∃ i, offset / CHUNK_SIZE = i := ⟨_, rfl⟩
  obtain ⟨r, hr⟩ : ∃ r, offset % CHUNK_SIZE = r := ⟨_, rfl⟩
  have hdiv : i * CHUNK_SIZE + r = offset := by
    rw [← hi, ← hr]
    exact Nat.div_add_mod' offset CHUNK_SIZE
  simp only [bind_run, readState_run, bind_ok, pure_run, ite_run, hbound, hzero, hsmall, hi, hr,
    if_false]
  by_cases hfirst : amount ≤ CHUNK_SIZE - r
  · rw [if_pos hfirst]
    apply read_chunk_from_until_fails h r amount
    simp only [CHUNK_SIZE, SIZE_T_RANGE, CHUNKS_AMOUNT] at *
    omega
  · rw [if_neg hfirst]
    by_cases hin : i < (s.entry_store.files f).chunks.length
    · obtain ⟨n, hn⟩ : ∃ n, (amount - (CHUNK_SIZE - r)) / CHUNK_SIZE = n := ⟨_, rfl⟩
      have hmod := Nat.div_add_mod' (amount - (CHUNK_SIZE - r)) CHUNK_SIZE
      have hmlt := Nat.mod_lt (amount - (CHUNK_SIZE - r)) (show CHUNK_SIZE > 0 by decide)
      rw [hn] at hmod
      -- the run of full chunks ends behind the file
      have hrun : 0 < n ∧ (s.entry_store.files f).chunks.length < i + 1 + n := by
        simp only [CHUNK_SIZE, SIZE_T_RANGE, CHUNKS_AMOUNT] at *
        omega
      obtain ⟨e, he⟩ := read_full_chunks_fails h n hrun.1 hrun.2
      have hrlt : r < CHUNK_SIZE := hr ▸ Nat.mod_lt offset (by decide)
      refine ⟨e, ?_⟩
      rw [read_chunk_from_until_run h (by omega) hin, bind_ok, hn, he, bind_fail]
    · obtain ⟨e, he⟩ := read_chunk_from_until_fails h r (CHUNK_SIZE - r)
        (Nat.le_of_not_lt hin)
      exact ⟨e, by rw [he, bind_fail]⟩

/-! ## Section 3: Reading changes nothing -/

/-- Reading a chunk changes nothing, however it ends. -/
theorem file_read_chunk_readOnly (f : FileRef) (c len : Nat) :
    ReadOnly (file_read_chunk f c len) := by
  unfold file_read_chunk
  dsimp only
  apply ReadOnly.guard
  apply ReadOnly.readState.bind
  intro s
  apply ReadOnly.guard
  exact (chread_readOnly c len).zoom fun _ => rfl

theorem read_chunk_from_until_readOnly (f : FileRef) (off amount i : Nat) :
    ReadOnly (read_chunk_from_until f off amount i) := by
  unfold read_chunk_from_until
  dsimp only
  apply ReadOnly.guard
  apply ReadOnly.readState.bind
  intro s
  apply (ReadOnly.ofExcept _).bind
  intro c
  apply (file_read_chunk_readOnly f c CHUNK_SIZE).bind
  exact fun _ => ReadOnly.pure _

theorem read_full_chunks_readOnly (f : FileRef) (n i : Nat) :
    ReadOnly (read_full_chunks_and_update_buffer_pointer f n i) := by
  induction n generalizing i with
  | zero => exact ReadOnly.pure _
  | succ n ih =>
    apply ReadOnly.readState.bind
    intro s
    apply (ReadOnly.ofExcept _).bind
    intro c
    apply (file_read_chunk_readOnly f c CHUNK_SIZE).bind
    intro bytes
    apply (ih (i + 1)).bind
    exact fun _ => ReadOnly.pure _

/-- Reading a file changes nothing. -/
theorem file_read_at_readOnly (f : FileRef) (off amount size : Nat) :
    ReadOnly (file_read_at f off amount size) := by
  unfold file_read_at
  dsimp only
  apply ReadOnly.readState.bind
  intro s
  apply ReadOnly.guard
  apply ReadOnly.guard
  apply ReadOnly.guard
  apply ReadOnly.ite
  · exact read_chunk_from_until_readOnly _ _ _ _
  · apply (read_chunk_from_until_readOnly _ _ _ _).bind
    intro first
    apply (read_full_chunks_readOnly _ _ _).bind
    intro full
    apply ReadOnly.ite
    · exact ReadOnly.pure _
    · exact (read_chunk_from_until_readOnly _ _ _ _).bind fun _ => ReadOnly.pure _

end VirtualFS
