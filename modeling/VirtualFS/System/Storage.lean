import VirtualFS.System.Settings

/-! # Storage Manager

    Model of `storage.c`: the allocation map over the chunks of the virtual
    disk, the first-fit allocator, and reading and writing single chunks.

    The two arrays of the manager belong to the caller; the model keeps them as
    functions, with what lies behind their sizes left as it is. Reading and writing
    check the allocation map, freeing and truncating do not.
-/

namespace VirtualFS

open Framework Prog

/-- `StorageMan`. The two arrays are functions on indices. -/
structure StorageMan where
  /-- The bytes of the disk, not initialised at start-up. -/
  storage : Nat → Byte
  /-- The number of bytes allocated for the disk. -/
  storage_size : Nat
  /-- Tracked at allocation and deallocation. -/
  free_chunk_count : Nat
  /-- Which chunks are allocated. -/
  allocation_map : Nat → Bool

/-! ## Section 1: Initialisation -/

/-- All chunks are free. -/
def allocation_map_init (allocation_map : Nat → Bool) : Nat → Bool :=
  fun c => if c < CHUNKS_AMOUNT then false else allocation_map c

/-- The storage bytes are taken as they are. -/
def storage_man_init (storage : Nat → Byte) (storage_size : Nat)
    (allocation_map : Nat → Bool) (allocation_map_size : Nat) : Sys StorageMan Unit := do
  if storage_size < CHUNK_SIZE * CHUNKS_AMOUNT then
    returnStatus .INSUFFICIENT_ARRAY_PASSED
  if allocation_map_size < CHUNKS_AMOUNT then
    returnStatus .INSUFFICIENT_ARRAY_PASSED
  modifyState fun _ =>
    { storage := storage
      storage_size := storage_size
      free_chunk_count := storage_size / CHUNK_SIZE
      allocation_map := allocation_map_init allocation_map }

/-! ## Section 2: Allocation -/

/-- The loop of `challoc` over the `n` entries from `i` on; `cur_pos` starts
    the current run of free entries and `count` is its length. -/
def challoc_loop (allocation_map : Nat → Bool) (amount : Nat) :
    (n i cur_pos count : Nat) → Option Nat
  | 0, _, _, _ => none
  | n + 1, i, cur_pos, count =>
    if allocation_map i then
      challoc_loop allocation_map amount n (i + 1) (i + 1) 0
    else if count + 1 ≥ amount then
      some cur_pos
    else
      challoc_loop allocation_map amount n (i + 1) cur_pos (count + 1)

/-- The run of `amount` chunks from `offset` on becomes allocated. -/
def mark_as_allocated (allocation_map : Nat → Bool) (offset amount : Nat) : Nat → Bool :=
  fun c => if offset ≤ c ∧ c < offset + amount then true else allocation_map c

/-- Returns the index of the first allocated chunk. -/
def challoc (amount : Nat) : Sys StorageMan Nat := do
  if amount = 0 ∨ amount > CHUNKS_AMOUNT then
    returnStatus .INVALID_ARGUMENT
  -- `if (amount > free_chunk_count) { NO_SPACE; }` has no effect
  let storage_man ← readState
  match challoc_loop storage_man.allocation_map amount CHUNKS_AMOUNT 0 0 0 with
  | none => returnStatus .NO_SPACE
  | some cur_pos =>
    modifyState fun storage_man =>
      { storage_man with
        allocation_map := mark_as_allocated storage_man.allocation_map cur_pos amount
        free_chunk_count := sizeSub storage_man.free_chunk_count amount }
    return cur_pos

/-- What `chfree` does to the manager; the bytes stay. -/
def StorageMan.free (storage_man : StorageMan) (chunk_pos : Nat) : StorageMan :=
  { storage_man with
    allocation_map := Function.update storage_man.allocation_map chunk_pos false
    free_chunk_count := sizeAdd storage_man.free_chunk_count 1 }

/-- A chunk becomes free and is counted, whether or not it was allocated before. -/
def chfree (chunk_pos : Nat) : Sys StorageMan Unit := do
  if chunk_pos ≥ CHUNKS_AMOUNT then
    returnStatus .INDEX_OUT_OF_BOUNDS
  modifyState fun storage_man => storage_man.free chunk_pos

/-! ## Section 3: Chunk input and output -/

/-- The first byte of a chunk. -/
def get_chunk_addr (chunk_pos : Nat) : Nat := chunk_pos * CHUNK_SIZE

/-- Overwrite the bytes from `addr` on with `data`. -/
def writeBytes (storage : Nat → Byte) (addr : Nat) (data : List Byte) : Nat → Byte :=
  fun a => if addr ≤ a then data.getD (a - addr) (storage a) else storage a

/-- The bytes of a chunk. -/
def StorageMan.chunk (storage_man : StorageMan) (chunk_pos : Nat) : List Byte :=
  (List.range CHUNK_SIZE).map fun i => storage_man.storage (get_chunk_addr chunk_pos + i)

/-- Overwrites the start of an allocated chunk; what is behind the data stays. -/
def chwrite (chunk_pos : Nat) (data : List Byte) : Sys StorageMan Unit := do
  if data.length > CHUNK_SIZE then
    returnStatus .DATA_OVER_FLOW
  if chunk_pos ≥ CHUNKS_AMOUNT then
    returnStatus .INDEX_OUT_OF_BOUNDS
  let storage_man ← readState
  if storage_man.allocation_map chunk_pos = false then
    returnStatus .FREE_CHUNK_ACCESS_ATTEMPT
  modifyState fun storage_man =>
    { storage_man with
      storage := writeBytes storage_man.storage (get_chunk_addr chunk_pos) data }

/-- Returns the bytes copied to the output array. -/
def chread (chunk_index data_array_length : Nat) : Sys StorageMan (List Byte) := do
  if data_array_length < CHUNK_SIZE then
    returnStatus .INSUFFICIENT_ARRAY_PASSED
  if chunk_index ≥ CHUNKS_AMOUNT then
    returnStatus .INDEX_OUT_OF_BOUNDS
  let storage_man ← readState
  if storage_man.allocation_map chunk_index = false then
    returnStatus .FREE_CHUNK_ACCESS_ATTEMPT
  return storage_man.chunk chunk_index

/-- Overwrites the last `amount` bytes of a chunk. -/
def chtrunc (chunk_index amount : Nat) : Sys StorageMan Unit := do
  if chunk_index ≥ CHUNKS_AMOUNT then
    returnStatus .INDEX_OUT_OF_BOUNDS
  if amount > CHUNK_SIZE then
    returnStatus .INDEX_OUT_OF_BOUNDS
  if amount = 0 then
    returnStatus .INVALID_OPERATION
  modifyState fun storage_man =>
    { storage_man with
      storage := writeBytes storage_man.storage
        (get_chunk_addr chunk_index + (CHUNK_SIZE - amount))
        (List.replicate amount EOC_OPERATOR) }

end VirtualFS
