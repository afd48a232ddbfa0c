import Mathlib.Algebra.GroupWithZero.Nat
import Mathlib.Data.List.TakeWhile
import VirtualFS.Framework.Prog

/-! # Settings and Status Codes

    The constants of `settings.h`, the status codes of `status.h` that the
    modelled functions return, and the byte strings and fixed-size buffers
    that names and paths are kept in.

    Sizes are natural numbers, with the wrap-around of `size_t` where an operation
    can reach it. A call ends with a value, with a status other than `SUCCESS`, or
    in undefined behaviour; `Fault` has the kinds of the latter that occur.
-/

namespace VirtualFS

open Framework

/-! ## Section 1: Settings -/

/-- Bytes of a chunk. -/
def CHUNK_SIZE : Nat := 8
/-- Chunks of the disk. -/
def CHUNKS_AMOUNT : Nat := 500

/-- Bytes of the disk. -/
def STORAGE_SIZE : Nat := CHUNK_SIZE * CHUNKS_AMOUNT

/-- Extents that a file may consist of. -/
def MAX_FILE_CHUNK_EXTENTS_AMOUNT : Nat := 10

/-- A `char`, read as unsigned. -/
abbrev Byte := UInt8

/-- Marks the end of the data in a chunk that is not full. -/
def EOC_OPERATOR : Byte := 0x1E

/-- File names and folder names. -/
def MAX_NAME_LENGTH : Nat := 32

/-- Slots of a folder, for files and for folders. -/
def MAX_SUB_FILES_AMOUNT : Nat := 10
def MAX_SUB_FOLDERS_AMOUNT : Nat := 10

/-- `'/'` -/
def PATH_DELIMITER : Byte := 47
/-- Names in a path. -/
def MAX_PATH_NODES_AMOUNT : Nat := 10

/-- Levels that a recursion over folders goes down. -/
def MAX_FOLDER_DEPTH : Nat := MAX_PATH_NODES_AMOUNT

/-- Entries of the store, files and folders counted apart. -/
def VFS_MAX_FILES_AMOUNT : Nat := 50
def VFS_MAX_FOLDERS_AMOUNT : Nat := 50

/-- `".."` -/
def BACK_TO_PARENT_OPERATOR : List Byte := [46, 46]

/-- `"root"` (folders.c) -/
def root_name : List Byte := [114, 111, 111, 116]

/-- Enough for `MAX_PATH_NODES_AMOUNT` names with their delimiters and the
    terminator. -/
def PATH_BUFFER_LENGTH : Nat := MAX_PATH_NODES_AMOUNT * (MAX_NAME_LENGTH + 1) + 1

/-! ## Section 2: Status codes and faults -/

/-- What a call returns. The code tests a status by its value, a caller passes on the first one
    that is not `SUCCESS`. -/
inductive StatusCode where
  | SUCCESS
  | NULL_POINTER_PASSED
  | INVALID_ARGUMENT
  | INDEX_OUT_OF_BOUNDS
  | NO_SPACE
  | INSUFFICIENT_ARRAY_PASSED
  | FREE_CHUNK_ACCESS_ATTEMPT
  | DATA_OVER_FLOW
  | DATA_SET_IS_EMPTY
  | FILE_CHUNK_EXTENT_LIMIT_EXCEEDED
  | CHUNK_DOES_NOT_BELONG_TO_FILE
  | NOT_FOUND_CHUNKS_TERMINATED
  | FILE_IS_EMPTY
  | INVALID_OPERATION
  | INVALID_ROOT_OPERATION
  | ATTEMPTED_TO_DELETE_FOLDER_WITH_SUB_ENTRIES
  | ATTEMPTED_TO_ENFORCE_CYCLIC_RELATION
  | SEARCH_TARGET_NOT_FOUND
  | PATH_IS_TOO_LONG
  | PATH_IS_EMPTY
  | IDENTIFIER_NOT_AVAILABLE
  | IDENTIFIER_IS_TOO_LONG
  | INVALID_CHARECTER_IN_IDENTIFIER
  | UNKNOWN_ENTRY
  | UNINITIALISED_ENTRY
  | RECURSIVE_OPERATION_LIMIT_EXCEEDED
  | EXPECTED_FOLDER_GOT_FILE
  | EXPECTED_FILE_GOT_FOLDER
  | INVALID_SAFE_MODE_OP
  | TOO_MANY_ARGUMENTS
  | TOO_MANY_OPTIONS
  | TOO_MANY_TOKENS
  | CMD_IS_TOO_LONG
  | CMD_IS_EMPTY
  | INVALID_CMD_FUNCTION
  | INVALID_CMD_OPT
  | READ_ERROR
  | INPUT_BUFFER_OVER_FLOW
  | TOO_MANY_LINES
  | INPUT_LINE_IS_TOO_LONG
  | COMMAND_FUNCTION_NOT_FOUND
  | CMD_TOO_FEW_ARGS
  | CMD_TOO_MANY_ARGS
  | CMD_TOO_FEW_OPTS
  | CMD_TOO_MANY_OPTS
  | CMD_UNKNOWN_OPT
  | CMD_EXPECTED_INT
  | CMD_EXPECTED_POSATIVE_NUMBER
  | CMD_INPUT_OUT_OF_RANGE
  deriving DecidableEq, Repr

/-- Behaviour without a final state: undefined behaviour of the C program, or
    a loop that goes on past its bound in the model. A run stops there. -/
inductive Fault where
  /-- A NULL pointer has been followed. -/
  | null_dereference
  /-- A read or a write has left its array. -/
  | out_of_bounds
  /-- A loop of the model has run out of its bound. -/
  | diverges
  deriving DecidableEq, Repr

/-- A C function over the memory `σ`; a failing status keeps the memory. -/
abbrev Sys (σ α : Type) := Prog StatusCode Fault σ α

/-- The status a call returns, unless its behaviour is undefined. -/
def status {σ α : Type} : Outcome StatusCode Fault σ α → Option StatusCode
  | .ok _ _ => some .SUCCESS
  | .fail e _ => some e
  | .fault _ => none

/-! ## Section 3: `size_t` arithmetic

    Sizes are natural numbers. The two operations below wrap where the code
    adds to or subtracts from a `size_t` that may leave its range. -/

/-- A `size_t` has 64 bits. -/
def SIZE_T_RANGE : Nat := 2 ^ 64

/-- Addition of two sizes, wrapping. -/
def sizeAdd (a b : Nat) : Nat := (a + b) % SIZE_T_RANGE

/-- Subtraction of two sizes, wrapping. -/
def sizeSub (a b : Nat) : Nat := (a + (SIZE_T_RANGE - b)) % SIZE_T_RANGE

/-- A sum that fits does not wrap. -/
theorem sizeAdd_of_lt {a b : Nat} (h : a + b < SIZE_T_RANGE) : sizeAdd a b = a + b :=
  Nat.mod_eq_of_lt h

/-- Nothing wraps when the smaller is taken off the larger. -/
theorem sizeSub_of_le {a b : Nat} (hba : b ≤ a) (ha : a < SIZE_T_RANGE) :
    sizeSub a b = a - b := by
  unfold sizeSub
  have h : a + (SIZE_T_RANGE - b) = (a - b) + SIZE_T_RANGE := by omega
  rw [h, Nat.add_mod_right, Nat.mod_eq_of_lt (by omega)]

/-! ## Section 4: Strings and buffers -/

/-- The bytes of an ASCII string. -/
def ascii (s : String) : List Byte := s.toList.map Char.toUInt8

/-- `' '` -/
def SPACE : Byte := 32

/-- The bytes before the first NUL: how the code reads a name that ends at
    a length or at an earlier terminator. -/
def cutAtNul (bytes : List Byte) : List Byte := bytes.takeWhile (· ≠ 0)

/-- What is cut at a NUL contains none. -/
theorem nul_not_mem_cutAtNul (bytes : List Byte) : (0 : Byte) ∉ cutAtNul bytes := by
  intro h
  have := List.mem_takeWhile_imp h
  simp at this

/-- A name without NUL is read to its end. -/
theorem cutAtNul_of_nul_not_mem {bytes : List Byte} (h : (0 : Byte) ∉ bytes) :
    cutAtNul bytes = bytes := by
  apply List.takeWhile_eq_self_iff.mpr
  intro b hb
  have : b ≠ 0 := fun h0 => h (h0 ▸ hb)
  simp [this]

/-- Bytes behind a terminator are not read. -/
theorem cutAtNul_append_nul (name rest : List Byte) :
    cutAtNul (name ++ 0 :: rest) = cutAtNul name := by
  induction name with
  | nil => simp [cutAtNul]
  | cons b bs ih =>
    by_cases hb : b = 0
    · simp [cutAtNul, hb]
    · simpa [cutAtNul, hb] using ih

/-- A NUL-terminated string argument, without its terminator. -/
structure CString where
  chars : List Byte
  /-- The string ends at its first NUL. -/
  nul_free : (0 : Byte) ∉ chars
  deriving DecidableEq

/-- The string that some bytes start with. -/
def CString.ofBytes (bytes : List Byte) : CString := ⟨cutAtNul bytes, nul_not_mem_cutAtNul bytes⟩

/-- A `char` array of `n` bytes. -/
structure CharBuf (n : Nat) where
  bytes : List Byte
  size_eq : bytes.length = n

namespace CharBuf

variable {n : Nat}

/-- The C string at the start of the buffer. -/
def str (b : CharBuf n) : List Byte := cutAtNul b.bytes

/-- The string in the buffer ends inside it. -/
def Terminated (b : CharBuf n) : Prop := (0 : Byte) ∈ b.bytes

instance (b : CharBuf n) : Decidable b.Terminated :=
  inferInstanceAs (Decidable ((0 : Byte) ∈ b.bytes))

/-- Copy `data` into the buffer from `pos` on; undefined if it leaves the
    buffer. -/
def write (b : CharBuf n) (pos : Nat) (data : List Byte) : Option (CharBuf n) :=
  if h : pos + data.length ≤ n then
    some
      { bytes := b.bytes.take pos ++ data ++ b.bytes.drop (pos + data.length)
        size_eq := by
          have := b.size_eq
          simp only [List.length_append, List.length_take, List.length_drop]
          omega }
  else
    none

/-- A buffer initialised with `= {0}`. -/
def zeroed (n : Nat) : CharBuf n := ⟨List.replicate n 0, List.length_replicate⟩

theorem nul_not_mem_str (b : CharBuf n) : (0 : Byte) ∉ b.str := nul_not_mem_cutAtNul _

/-- A terminated string leaves room for its terminator. -/
theorem length_str_lt {b : CharBuf n} (h : b.Terminated) : b.str.length < n := by
  have hle : b.str.length ≤ b.bytes.length := (List.takeWhile_sublist _).length_le
  have hne : b.str.length ≠ b.bytes.length := by
    intro heq
    have hself : b.str = b.bytes :=
      (List.takeWhile_sublist _).eq_of_length heq
    exact b.nul_not_mem_str (hself ▸ h)
  have := b.size_eq
  omega

/-- Data that fits is written. -/
theorem write_isSome {b : CharBuf n} {pos : Nat} {data : List Byte}
    (h : pos + data.length ≤ n) : ∃ b', b.write pos data = some b' := by
  simp [write, h]

/-- Data that leaves the buffer is not: the source has no check here, so the caller's behaviour is
    undefined. -/
theorem write_eq_none {b : CharBuf n} {pos : Nat} {data : List Byte}
    (h : n < pos + data.length) : b.write pos data = none := by
  simp [write, Nat.not_le.mpr h]

/-- The whole buffer after a write: what is in front, the data, and what is behind. -/
theorem bytes_of_write {b b' : CharBuf n} {pos : Nat} {data : List Byte}
    (h : b.write pos data = some b') :
    b'.bytes = b.bytes.take pos ++ data ++ b.bytes.drop (pos + data.length) := by
  unfold write at h
  split at h
  · cases h; rfl
  · cases h

/-- What is in front of the end of the written data afterwards. -/
theorem take_of_write {b b' : CharBuf n} {pos : Nat} {data : List Byte}
    (h : b.write pos data = some b') (hpos : pos ≤ n) :
    b'.bytes.take (pos + data.length) = b.bytes.take pos ++ data := by
  have hlen : (b.bytes.take pos ++ data).length = pos + data.length := by
    have := b.size_eq
    rw [List.length_append, List.length_take]
    omega
  rw [bytes_of_write h, ← hlen, List.take_left]

/-- Bytes behind the written data stay. -/
theorem drop_of_write {b b' : CharBuf n} {pos k : Nat} {data : List Byte}
    (h : b.write pos data = some b') (hk : pos + data.length ≤ k) :
    b'.bytes.drop k = b.bytes.drop k := by
  by_cases hn : pos + data.length ≤ n
  · have hlen : (b.bytes.take pos ++ data).length = pos + data.length := by
      have := b.size_eq
      rw [List.length_append, List.length_take]
      omega
    rw [bytes_of_write h, List.drop_append, hlen, List.drop_of_length_le (by omega),
      List.drop_drop, List.nil_append, Nat.add_sub_cancel' hk]
  · rw [write_eq_none (by omega)] at h
    cases h

/-- Writing a string with its terminator at the start of a buffer. -/
theorem str_of_write_zero {b b' : CharBuf n} {name : List Byte}
    (h : b.write 0 (name ++ [0]) = some b') : b'.str = cutAtNul name ∧ b'.Terminated := by
  have hb := bytes_of_write h
  simp only [List.take_zero, List.nil_append, List.append_assoc, List.singleton_append] at hb
  constructor
  · unfold str
    rw [hb, cutAtNul_append_nul]
  · simp [Terminated, hb]

end CharBuf

end VirtualFS
