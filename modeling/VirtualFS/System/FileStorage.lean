import VirtualFS.System.Entries

/-! # File Storage

    Model of `file_storage.c`: chunk extents of a file, kept compact, and
    chunk access that checks the ownership of the chunk.

    Extents are addressed by their file and position, as the code addresses them by
    a pointer into the array of the file. The functions that take a pointer take it
    for any file; whose extent it is, is looked up late or not at all.
-/

namespace VirtualFS

open Framework Prog

/-- `ChunkExtent *`: a position of a file's `data_chunk_extents`. -/
structure ExtentRef where
  /-- The file whose array it points into. -/
  file : FileRef
  index : Nat
  deriving DecidableEq

/-- `*extent` -/
def VFS.extentAt (s : VFS) (extent : ExtentRef) : ChunkExtent :=
  (s.entry_store.files extent.file).data_chunk_extents extent.index

def File.setExtent (f : File) (i : Nat) (extent : ChunkExtent) : File :=
  { f with data_chunk_extents := Function.update f.data_chunk_extents i extent }

def VFS.setExtent (s : VFS) (extent : ExtentRef) (x : ChunkExtent) : VFS :=
  s.modifyFile extent.file fun f => f.setExtent extent.index x

/-! ## Section 1: Allocating and freeing extents -/

/-- The first empty position, if there is one. -/
def get_available_chunk_extent_index (f : File) : Option Nat :=
  (List.range MAX_FILE_CHUNK_EXTENTS_AMOUNT).find? fun i => (f.data_chunk_extents i).is_empty

/-- Returns the position of the new extent. -/
def file_allocate_chunks (file : FileRef) (chunks_amount : Nat) : Sys VFS ExtentRef := do
  let s ← readState
  match get_available_chunk_extent_index (s.entry_store.files file) with
  | none => returnStatus .FILE_CHUNK_EXTENT_LIMIT_EXCEEDED
  | some chunk_extent_index =>
    let first_chunk_index ← onStorageMan (challoc chunks_amount)
    modifyState fun s => s.modifyFile file fun f =>
      { f.setExtent chunk_extent_index ⟨false, first_chunk_index, chunks_amount⟩ with
        allocated_size := sizeAdd f.allocated_size chunks_amount }
    return ⟨file, chunk_extent_index⟩

/-- The position and size are copied, the flag is not. -/
def chunk_extent_copy_range (target copy : ChunkExtent) : ChunkExtent :=
  { target with chunk_amount := copy.chunk_amount, start := copy.start }

/-- The loop of `chunk_extent_left_shift` over the `n` positions from `pos` on. -/
def left_shift_loop : (n pos : Nat) → (Nat → ChunkExtent) → Nat → ChunkExtent
  | 0, _, extents => extents
  | n + 1, pos, extents =>
    if pos + 1 ≥ MAX_FILE_CHUNK_EXTENTS_AMOUNT ∨ (extents (pos + 1)).is_empty then
      Function.update extents pos { extents pos with is_empty := true }
    else
      left_shift_loop n (pos + 1) <|
        Function.update extents pos
          (chunk_extent_copy_range (extents pos) (extents (pos + 1)))

/-- Closes the gap at the emptied position. -/
def chunk_extent_left_shift (empty_position : ExtentRef) (file : FileRef) : Sys VFS Unit := do
  let s ← readState
  let extents := (s.entry_store.files file).data_chunk_extents
  if (s.extentAt empty_position).is_empty = false then
    returnStatus .INVALID_ARGUMENT
  if empty_position.file ≠ file ∨ empty_position.index ≥ MAX_FILE_CHUNK_EXTENTS_AMOUNT then
    returnStatus .INVALID_ARGUMENT
  if empty_position.index + 1 = MAX_FILE_CHUNK_EXTENTS_AMOUNT
      ∨ (extents (empty_position.index + 1)).is_empty then
    return ()
  else
    modifyState fun s => s.modifyFile file fun f =>
      { f with
        data_chunk_extents :=
          left_shift_loop (MAX_FILE_CHUNK_EXTENTS_AMOUNT - empty_position.index)
            empty_position.index
            (Function.update f.data_chunk_extents empty_position.index
              { f.data_chunk_extents empty_position.index with is_empty := false }) }

/-- The loop of `get_last_chunk_extent` over the `n` positions from `i` on. -/
def get_last_chunk_extent_loop (f : File) : (n i : Nat) → Except StatusCode Nat
  | 0, _ => .error .DATA_OVER_FLOW
  | n + 1, i =>
    if (f.data_chunk_extents i).is_empty then
      .ok (i - 1)
    else
      get_last_chunk_extent_loop f n (i + 1)

/-- The position of the last non-empty extent, unless the array ends there. -/
def get_last_chunk_extent (f : File) : Except StatusCode Nat :=
  if (f.data_chunk_extents 0).is_empty then
    .error .DATA_SET_IS_EMPTY
  else
    get_last_chunk_extent_loop f (MAX_FILE_CHUNK_EXTENTS_AMOUNT - 1) 1

/-- One iteration of the loop of `chunk_extent_right_shift`: the flags are set
    after the copy. -/
def right_shift_step (shift_amount cur_addrs : Nat) (extents : Nat → ChunkExtent) :
    Nat → ChunkExtent :=
  let copied := Function.update extents (cur_addrs + shift_amount)
    (chunk_extent_copy_range (extents (cur_addrs + shift_amount)) (extents cur_addrs))
  let emptied := Function.update copied cur_addrs { copied cur_addrs with is_empty := true }
  Function.update emptied (cur_addrs + shift_amount)
    { emptied (cur_addrs + shift_amount) with is_empty := false }

/-- The loop of `chunk_extent_right_shift` down to `position`. The cursor is
    `cur_addrs` plus one: at zero `cur_addrs` points before the array, and the
    loop has ended, because no position lies there. -/
def right_shift_loop (position shift_amount : Nat) :
    (cursor : Nat) → (Nat → ChunkExtent) → Nat → ChunkExtent
  | 0, extents => extents
  | cur_addrs + 1, extents =>
    if cur_addrs < position then
      extents
    else
      right_shift_loop position shift_amount cur_addrs
        (right_shift_step shift_amount cur_addrs extents)

/-- Opens a gap of `shift_amount` positions. -/
def chunk_extent_right_shift (position : ExtentRef) (shift_amount : Nat) (file : FileRef) :
    Sys VFS Unit := do
  let s ← readState
  if shift_amount = 0 then
    returnStatus .INVALID_OPERATION
  if (s.extentAt position).is_empty then
    returnStatus .INVALID_ARGUMENT
  if position.file ≠ file ∨ position.index ≥ MAX_FILE_CHUNK_EXTENTS_AMOUNT then
    returnStatus .INDEX_OUT_OF_BOUNDS
  let last_addrs ← ofExcept (get_last_chunk_extent (s.entry_store.files file))
  -- the address is taken not to wrap, however large the shift amount
  if last_addrs + shift_amount ≥ MAX_FILE_CHUNK_EXTENTS_AMOUNT then
    returnStatus .DATA_OVER_FLOW
  modifyState fun s => s.modifyFile file fun f =>
    { f with
      data_chunk_extents :=
        right_shift_loop position.index shift_amount (last_addrs + 1) f.data_chunk_extents }

/-- Frees the chunks of an extent one by one. -/
def free_chunk_extent (chunk_extent : ChunkExtent) : Sys VFS Unit :=
  forEach (List.range' chunk_extent.start chunk_extent.chunk_amount) fun cur_pos =>
    onStorageMan (chfree cur_pos)

/-- Frees the chunks of an extent, empties it, takes them off the size, and closes the gap in the
    array. The extent need not be one of the file's: only `chunk_extent_left_shift` looks, at the
    end. -/
def file_free_chunk_extent (file : FileRef) (chunk_extent : ExtentRef) : Sys VFS Unit := do
  let s ← readState
  let extent := s.extentAt chunk_extent
  if extent.is_empty then
    returnStatus .INVALID_ARGUMENT
  free_chunk_extent extent
  modifyState fun s => s.setExtent chunk_extent { extent with is_empty := true }
  modifyState fun s => s.modifyFile file fun f =>
    { f with allocated_size := sizeSub f.allocated_size extent.chunk_amount }
  chunk_extent_left_shift chunk_extent file

/-- Frees the last `amount` chunks of an extent; an extent that loses all its
    chunks is removed. -/
def file_truncate_chunk_extent (file : FileRef) (chunk_extent : ExtentRef) (amount : Nat) :
    Sys VFS Unit := do
  let s ← readState
  let extent := s.extentAt chunk_extent
  if extent.is_empty then
    returnStatus .INVALID_ARGUMENT
  if amount > extent.chunk_amount then
    returnStatus .INDEX_OUT_OF_BOUNDS
  if amount = extent.chunk_amount then
    file_free_chunk_extent file chunk_extent
  else
    forEach (List.range' (extent.start + extent.chunk_amount - amount) amount) fun cur_chunk => do
      onStorageMan (chfree cur_chunk)
      -- both sizes are kept accurate at every iteration
      modifyState fun s => s.modifyFile file fun f =>
        { f with allocated_size := sizeSub f.allocated_size 1 }
      modifyState fun s => s.setExtent chunk_extent
        { s.extentAt chunk_extent with
          chunk_amount := sizeSub (s.extentAt chunk_extent).chunk_amount 1 }

/-! ## Section 2: Chunk access with ownership -/

/-- The loop of `file_owns_chunk` over the `n` extents from `i` on. -/
def file_owns_chunk_loop (f : File) (chunk_pos : Nat) : (n i : Nat) → Bool
  | 0, _ => false
  | n + 1, i =>
    let extent := f.data_chunk_extents i
    if extent.is_empty then
      false
    else if extent.start ≤ chunk_pos ∧ extent.start + extent.chunk_amount > chunk_pos then
      true
    else
      file_owns_chunk_loop f chunk_pos n (i + 1)

/-- Some extent of the file contains the chunk. -/
def file_owns_chunk (f : File) (chunk_pos : Nat) : Bool :=
  file_owns_chunk_loop f chunk_pos MAX_FILE_CHUNK_EXTENTS_AMOUNT 0

/-- Writes a chunk that the file owns. -/
def file_write_chunk (file : FileRef) (chunk_pos : Nat) (data : List Byte) : Sys VFS Unit := do
  if chunk_pos ≥ CHUNKS_AMOUNT then
    returnStatus .INVALID_ARGUMENT
  let s ← readState
  if file_owns_chunk (s.entry_store.files file) chunk_pos = false then
    returnStatus .CHUNK_DOES_NOT_BELONG_TO_FILE
  onStorageMan (chwrite chunk_pos data)

/-- Reads a chunk that the file owns. -/
def file_read_chunk (file : FileRef) (chunk_pos data_length : Nat) : Sys VFS (List Byte) := do
  if chunk_pos ≥ CHUNKS_AMOUNT then
    returnStatus .INVALID_ARGUMENT
  let s ← readState
  if file_owns_chunk (s.entry_store.files file) chunk_pos = false then
    returnStatus .CHUNK_DOES_NOT_BELONG_TO_FILE
  onStorageMan (chread chunk_pos data_length)

end VirtualFS
