import VirtualFS.System.FileStorage

/-! # File Logic

    Model of `file_logic.c`: append, positional read, truncation and clearing.

    The loops are recursions on the number of rounds. A read returns the bytes that
    are copied to the buffer; the pointer that the code moves along is the length
    of what has been read so far. `file_delete_data` ends when its index has passed
    the last extent; the model gives it as many rounds as that can take and calls
    it divergent otherwise.
-/

namespace VirtualFS

open Framework Prog

/-! ## Section 1: Append -/

/-- The data fills its last chunk. -/
def uses_full_chunks (data_length : Nat) : Bool := data_length % CHUNK_SIZE == 0

/-- Data that does not fill its last chunk takes one chunk more. -/
def get_chunks_amount (data_length : Nat) : Nat :=
  if uses_full_chunks data_length then data_length / CHUNK_SIZE
  else data_length / CHUNK_SIZE + 1

/-- The last, partially filled chunk. -/
def get_remaining_data (data_start : List Byte) (data_amount : Nat) : List Byte :=
  data_start.take data_amount ++ List.replicate (CHUNK_SIZE - data_amount) EOC_OPERATOR

/-- The loop over the `n` full chunks from `cur_chunk` on. -/
def write_full_chunks (file : FileRef) : (n cur_chunk : Nat) → (data : List Byte) → Sys VFS Unit
  | 0, _, _ => pure ()
  | n + 1, cur_chunk, data => do
    file_write_chunk file cur_chunk (data.take CHUNK_SIZE)
    write_full_chunks file n (cur_chunk + 1) (data.drop CHUNK_SIZE)

/-- Allocates one extent for all the data, and fills it chunk by chunk. The capacity check counts
    free chunks only, so allocation may still fail for want of a free run. -/
def file_append (file : FileRef) (data : List Byte) : Sys VFS Unit := do
  let s ← readState
  if data.length > s.storage_man.free_chunk_count * CHUNK_SIZE then
    returnStatus .DATA_OVER_FLOW
  if data.length = 0 then
    returnStatus .INVALID_OPERATION
  let chunks_needed := get_chunks_amount data.length
  let allocated_chunk_extent ← file_allocate_chunks file chunks_needed
  let s ← readState
  let start := (s.extentAt allocated_chunk_extent).start
  let full_chunks := chunks_needed - (if uses_full_chunks data.length then 0 else 1)
  -- a failing write gives the new extent back
  onFailure
    (do
      write_full_chunks file full_chunks start data
      if uses_full_chunks data.length then
        return ()
      else
        file_write_chunk file (start + full_chunks)
          (get_remaining_data (data.drop (full_chunks * CHUNK_SIZE))
            (data.length % CHUNK_SIZE)))
    (file_free_chunk_extent file allocated_chunk_extent)

/-! ## Section 2: Read -/

/-- The loop of `get_chunk_index` over the `n` extents from `i` on. -/
def get_chunk_index_loop (f : File) (relative_chunk_position : Nat) :
    (n i cur_chunk_extent_relative_start : Nat) → Except StatusCode Nat
  | 0, _, _ => .error .CHUNK_DOES_NOT_BELONG_TO_FILE
  | n + 1, i, relative_start =>
    let extent := f.data_chunk_extents i
    if extent.is_empty then
      .error .NOT_FOUND_CHUNKS_TERMINATED
    else if relative_chunk_position < relative_start + extent.chunk_amount then
      .ok (extent.start + (relative_chunk_position - relative_start))
    else
      get_chunk_index_loop f relative_chunk_position n (i + 1)
        (relative_start + extent.chunk_amount)

/-- The chunk of the disk at a position in the file, counted over its extents. -/
def get_chunk_index (f : File) (relative_chunk_position : Nat) : Except StatusCode Nat :=
  if relative_chunk_position ≥ f.allocated_size then
    .error .INDEX_OUT_OF_BOUNDS
  else
    get_chunk_index_loop f relative_chunk_position MAX_FILE_CHUNK_EXTENTS_AMOUNT 0 0

/-- Returns the bytes copied to the buffer. -/
def read_chunk_from_until (file : FileRef) (start_offset amount relative_chunk_index : Nat) :
    Sys VFS (List Byte) := do
  if start_offset + amount > CHUNK_SIZE then
    returnStatus .DATA_OVER_FLOW
  let s ← readState
  let chunk_index ← ofExcept (get_chunk_index (s.entry_store.files file) relative_chunk_index)
  let temp_buffer ← file_read_chunk file chunk_index CHUNK_SIZE
  return (temp_buffer.drop start_offset).take amount

/-- Returns the bytes of `chunks_amount` chunks. -/
def read_full_chunks_and_update_buffer_pointer (file : FileRef) :
    (chunks_amount relative_chunk_index : Nat) → Sys VFS (List Byte)
  | 0, _ => pure []
  | n + 1, relative_chunk_index => do
    let s ← readState
    let cur_chunk_index ← ofExcept
      (get_chunk_index (s.entry_store.files file) relative_chunk_index)
    let bytes ← file_read_chunk file cur_chunk_index CHUNK_SIZE
    let rest ← read_full_chunks_and_update_buffer_pointer file n (relative_chunk_index + 1)
    return bytes ++ rest

/-- Returns the bytes copied to the buffer. -/
def file_read_at (file : FileRef) (offset amount buffer_size : Nat) : Sys VFS (List Byte) := do
  let s ← readState
  if sizeAdd offset amount > (s.entry_store.files file).allocated_size * CHUNK_SIZE then
    returnStatus .INDEX_OUT_OF_BOUNDS
  if amount = 0 then
    returnStatus .INVALID_OPERATION
  if buffer_size < amount then
    returnStatus .INSUFFICIENT_ARRAY_PASSED
  let first_partial_chunk_offset := offset % CHUNK_SIZE
  let first_partial_chunk_index := offset / CHUNK_SIZE
  let first_partial_chunk_size := CHUNK_SIZE - first_partial_chunk_offset
  if amount ≤ first_partial_chunk_size then
    read_chunk_from_until file first_partial_chunk_offset amount first_partial_chunk_index
  else do
    let first ← read_chunk_from_until file first_partial_chunk_offset first_partial_chunk_size
      first_partial_chunk_index
    let full_chunks_amount := (amount - first_partial_chunk_size) / CHUNK_SIZE
    let full ← read_full_chunks_and_update_buffer_pointer file full_chunks_amount
      (first_partial_chunk_index + 1)
    let final_partial_chunk_size := (amount - first_partial_chunk_size) % CHUNK_SIZE
    if final_partial_chunk_size = 0 then
      return first ++ full
    else do
      let last ← read_chunk_from_until file 0 final_partial_chunk_size
        (first_partial_chunk_index + full_chunks_amount + 1)
      return first ++ full ++ last

/-! ## Section 3: Truncation and clearing -/

/-- The loop of `file_get_last_chunk_extent` over the `n` extents from `i` on. -/
def file_get_last_chunk_extent_loop (f : File) : (n i cur : Nat) → Except StatusCode Nat
  | 0, _, cur => .ok cur
  | n + 1, i, cur =>
    if (f.data_chunk_extents i).is_empty then
      if (f.data_chunk_extents cur).is_empty then .error .FILE_IS_EMPTY else .ok cur
    else
      file_get_last_chunk_extent_loop f n (i + 1) i

/-- The position of the last non-empty extent. -/
def file_get_last_chunk_extent (f : File) : Except StatusCode Nat :=
  file_get_last_chunk_extent_loop f MAX_FILE_CHUNK_EXTENTS_AMOUNT 0 0

/-- The loop of `file_truncate_by` that removes whole extents from the back.
    The first argument is the cursor plus one: at zero `cur_chunk_extent` points
    before the array. Returns the cursor and the number of removed chunks. -/
def free_full_extents (file : FileRef) (full_chunks_to_be_deleted : Nat) :
    (cursor deleted_chunks_count : Nat) → Sys VFS (Nat × Nat)
  | 0, deleted => pure (0, deleted)
  | cur + 1, deleted => do
    let s ← readState
    if deleted + (s.extentAt ⟨file, cur⟩).chunk_amount > full_chunks_to_be_deleted then
      return (cur + 1, deleted)
    else do
      file_free_chunk_extent file ⟨file, cur⟩
      -- the freed extent is read again
      let s ← readState
      free_full_extents file full_chunks_to_be_deleted cur
        (deleted + (s.extentAt ⟨file, cur⟩).chunk_amount)

/-- Removes `amount` bytes of storage from the end: whole extents first, then whole chunks of the
    last extent left, then the end of its last chunk. -/
def file_truncate_by (file : FileRef) (amount : Nat) : Sys VFS Unit := do
  let s ← readState
  if amount > (s.entry_store.files file).allocated_size * CHUNK_SIZE then
    returnStatus .INDEX_OUT_OF_BOUNDS
  let full_chunks_to_be_deleted := amount / CHUNK_SIZE
  let last ← ofExcept (file_get_last_chunk_extent (s.entry_store.files file))
  let (cursor, deleted_chunks_count) ←
    free_full_extents file full_chunks_to_be_deleted (last + 1) 0
  match cursor with
  | 0 =>
    -- `cur_chunk_extent->is_empty` with the cursor before the array
    undefinedBehaviour .out_of_bounds
  | cur + 1 =>
    let s ← readState
    let cur_chunk_extent := s.extentAt ⟨file, cur⟩
    if cur_chunk_extent.is_empty then
      if deleted_chunks_count ≠ full_chunks_to_be_deleted then
        returnStatus .INDEX_OUT_OF_BOUNDS
      else
        return ()
    else do
      let truncation_amount := full_chunks_to_be_deleted - deleted_chunks_count
      if cur_chunk_extent.chunk_amount ≤ truncation_amount then
        returnStatus .INDEX_OUT_OF_BOUNDS
      file_truncate_chunk_extent file ⟨file, cur⟩ truncation_amount
      let s ← readState
      let cur_chunk_extent := s.extentAt ⟨file, cur⟩
      let final_chunk_index := cur_chunk_extent.start + cur_chunk_extent.chunk_amount - 1
      let final_chunk_truncation_amount := amount % CHUNK_SIZE
      if final_chunk_truncation_amount = 0 then
        return ()
      else
        onStorageMan (chtrunc final_chunk_index final_chunk_truncation_amount)

/-- The loop of `file_delete_data`: the index only moves over empty extents,
    because freeing an extent shifts the next one into its place. -/
def file_delete_data_loop (file : FileRef) :
    (iterations cur_chunk_extent_index : Nat) → Sys VFS Unit
  | 0, _ => undefinedBehaviour .diverges
  | n + 1, i => do
    if i ≥ MAX_FILE_CHUNK_EXTENTS_AMOUNT then
      return ()
    else do
      let s ← readState
      if (s.extentAt ⟨file, i⟩).is_empty then
        file_delete_data_loop file n (i + 1)
      else do
        file_free_chunk_extent file ⟨file, i⟩
        file_delete_data_loop file n i

/-- Every iteration passes an empty extent or frees one, and one more leaves
    the loop. -/
def file_delete_data (file : FileRef) : Sys VFS Unit :=
  file_delete_data_loop file (2 * MAX_FILE_CHUNK_EXTENTS_AMOUNT + 1) 0

end VirtualFS
