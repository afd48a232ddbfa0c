import VirtualFS.Store.Reachable

/-! # Validation of Names

    `validate_sub_entry_name` and the functions below it once more, now as they
    read memory: a name is an array of bytes with a length, and a read outside
    an array is undefined. The names of the children are terminated, so no
    comparison runs past their buffers.

    * `validate_sub_entry_name_checked_eq`: the reads stay inside the arrays.
    * `validate_sub_entry_name_exact`: which names are accepted.

    The copies of the functions read one byte at a time through `byte_at`, which is
    undefined outside the array. They are shown to end like the functions that the
    rest of the model uses, so what is proved of those holds of these.
-/

namespace VirtualFS

open Framework Prog Outcome VFSEntryStore

variable {σ α : Type} {s : σ} {es : VFSEntryStore} {p : FolderRef}
  {bytes name initialised : List Byte} {c : Byte} {i k n length : Nat}

/-! ## Section 1: Reading names by position -/

/-- `bytes[i]` -/
def byte_at (bytes : List Byte) (i : Nat) : Sys σ Byte :=
  match bytes[i]? with
  | none => undefinedBehaviour .out_of_bounds
  | some c => pure c

/-- The inner loop of `name_chars_are_valid` over `n` invalid characters. -/
def is_invalid_char_checked (name : List Byte) (name_char_index : Nat) :
    (n invalid_char_index : Nat) → Sys σ Bool
  | 0, _ => pure false
  | n + 1, invalid_char_index => do
    let c ← byte_at name name_char_index
    let invalid ← byte_at INVALID_CHARS invalid_char_index
    if c = invalid then
      return true
    else
      is_invalid_char_checked name name_char_index n (invalid_char_index + 1)

/-- The outer loop: its body is the inner loop, and the return follows it. -/
def name_chars_are_valid_checked_loop (name : List Byte) :
    (n name_char_index : Nat) → Sys σ Bool
  | 0, _ => pure true
  | n + 1, name_char_index => do
    if ← is_invalid_char_checked name name_char_index INVALID_CHARS.length 0 then
      return false
    else
      name_chars_are_valid_checked_loop name n (name_char_index + 1)

/-- `name_chars_are_valid`, reading by position. -/
def name_chars_are_valid_checked (name : List Byte) (name_length : Nat) : Sys σ Bool :=
  name_chars_are_valid_checked_loop name name_length 0

/-- `strncmp(s1, s2, n) == 0`, from position `i` on. -/
def strncmp_eq_checked (s1 s2 : List Byte) : (n i : Nat) → Sys σ Bool
  | 0, _ => pure true
  | n + 1, i => do
    let c1 ← byte_at s1 i
    let c2 ← byte_at s2 i
    if c1 ≠ c2 then
      return false
    else if c1 = 0 then
      return true
    else
      strncmp_eq_checked s1 s2 n (i + 1)

/-- The loop of `name_eq`, and the comparison behind it. -/
def name_eq_checked_loop (initialised_name uninitialised_name : List Byte) :
    (n i : Nat) → Sys σ Bool
  | 0, i => do
    let c ← byte_at initialised_name i
    return c == 0
  | n + 1, i => do
    let c ← byte_at initialised_name i
    if c = 0 then
      let d ← byte_at uninitialised_name i
      return d == 0
    else
      let d ← byte_at uninitialised_name i
      if c ≠ d then
        return false
      else
        name_eq_checked_loop initialised_name uninitialised_name n (i + 1)

/-- `name_eq`, reading by position. -/
def name_eq_checked (initialised_name uninitialised_name : List Byte)
    (uninitialised_name_length : Nat) : Sys σ Bool := do
  if uninitialised_name_length = 0 then
    returnStatus .INSUFFICIENT_ARRAY_PASSED
  name_eq_checked_loop initialised_name uninitialised_name uninitialised_name_length 0

/-- A loop of `sub_entry_name_is_unique` over the `n` slots from `i` on: some
    sub-entry has the name. -/
def name_is_taken_checked (name_of : α → List Byte) (slots : Nat → Option α) (name : List Byte)
    (name_length : Nat) : (n i : Nat) → Sys σ Bool
  | 0, _ => pure false
  | n + 1, i =>
    match slots i with
    | none => name_is_taken_checked name_of slots name name_length n (i + 1)
    | some x => do
      if ← name_eq_checked (name_of x) name name_length then
        return true
      else
        name_is_taken_checked name_of slots name name_length n (i + 1)

/-- `sub_entry_name_is_unique`, reading by position. -/
def sub_entry_name_is_unique_checked (parent_folder : FolderRef) (name : List Byte)
    (name_length : Nat) : Sys VFSEntryStore Bool := do
  let es ← readState
  let folder := es.folderAt parent_folder
  if ← name_is_taken_checked (fun f => (es.fileName f).bytes) folder.sub_files name name_length
      MAX_SUB_FILES_AMOUNT 0 then
    return false
  else if ← name_is_taken_checked (fun d => (es.folderName d).bytes) folder.sub_folders name
      name_length MAX_SUB_FOLDERS_AMOUNT 0 then
    return false
  else
    return true

/-- `validate_sub_entry_name` with every read checked. -/
def validate_sub_entry_name_checked (parent_folder : FolderRef) (entry_name : List Byte)
    (entry_name_length : Nat) : Sys VFSEntryStore Unit := do
  if entry_name_length > MAX_NAME_LENGTH then
    returnStatus .DATA_OVER_FLOW
  if entry_name_length = 0 then
    returnStatus .INSUFFICIENT_ARRAY_PASSED
  let chars_are_valid ← name_chars_are_valid_checked entry_name entry_name_length
  if chars_are_valid = false then
    returnStatus .INVALID_CHARECTER_IN_IDENTIFIER
  if entry_name_length = root_name.length then
    let eq ← strncmp_eq_checked entry_name (root_name ++ [0]) entry_name_length 0
    if eq then
      returnStatus .IDENTIFIER_NOT_AVAILABLE
  let name_is_unique ← sub_entry_name_is_unique_checked parent_folder entry_name entry_name_length
  if name_is_unique = false then
    returnStatus .IDENTIFIER_NOT_AVAILABLE

/-! ## Section 2: No read leaves an array -/

/-- A read inside the array is defined. -/
theorem byte_at_run (h : bytes[i]? = some c) : byte_at bytes i s = .ok c s := by
  unfold byte_at
  rw [h]
  rfl

/-- A part of an array from its first byte on. -/
theorem drop_take_succ (h : i + (n + 1) ≤ bytes.length) :
    ∃ c, bytes[i]? = some c ∧
      (bytes.drop i).take (n + 1) = c :: (bytes.drop (i + 1)).take n := by
  have hi : i < bytes.length := by omega
  exact ⟨bytes[i], List.getElem?_eq_getElem hi, by
    rw [List.drop_eq_getElem_cons hi, List.take_succ_cons]⟩

/-- The inner loop compares a character with the invalid ones that are left. -/
theorem is_invalid_char_checked_run (h : name[k]? = some c) (n : Nat)
    (hn : n + i = INVALID_CHARS.length) :
    is_invalid_char_checked name k n i s = .ok (decide (c ∈ INVALID_CHARS.drop i)) s := by
  -- On the invalid characters that are left; both reads stay inside their arrays.
  induction n generalizing i with
  | zero =>
    rw [List.drop_eq_nil_of_le (by omega)]
    simp [is_invalid_char_checked]
  | succ n ih =>
    have hi : i < INVALID_CHARS.length := by omega
    have hc := byte_at_run (s := s) h
    have hinvalid := byte_at_run (s := s) (List.getElem?_eq_getElem hi)
    have hmem : c ∈ INVALID_CHARS.drop i ↔
        c = INVALID_CHARS[i] ∨ c ∈ INVALID_CHARS.drop (i + 1) := by
      rw [List.drop_eq_getElem_cons hi, List.mem_cons]
    unfold is_invalid_char_checked
    simp only [bind_run, hc, hinvalid, bind_ok, ite_run, hmem]
    by_cases heq : c = INVALID_CHARS[i]
    · simp only [heq, if_true, true_or, decide_true, pure_run]
    · simp only [heq, if_false, false_or, ih (show n + (i + 1) = _ from by omega)]

/-- The outer loop takes the characters one by one. -/
theorem name_chars_are_valid_checked_run (h : i + n ≤ name.length) :
    name_chars_are_valid_checked_loop name n i s =
      .ok (name_chars_are_valid ((name.drop i).take n)) s := by
  -- On the characters that are left, the first of them read in each round.
  induction n generalizing i with
  | zero => rfl
  | succ n ih =>
    obtain ⟨c, hc, hsplit⟩ := drop_take_succ h
    have hinner := is_invalid_char_checked_run (s := s) hc _ (Nat.add_zero INVALID_CHARS.length)
    have hhead : name_chars_are_valid (c :: (name.drop (i + 1)).take n) =
        (!decide (c ∈ INVALID_CHARS) && name_chars_are_valid ((name.drop (i + 1)).take n)) := by
      rw [Bool.eq_iff_iff]
      simp [name_chars_are_valid, INVALID_CHARS]
    unfold name_chars_are_valid_checked_loop
    rw [bind_run, hinner, bind_ok, hsplit, hhead, List.drop_zero, ite_run]
    by_cases hin : c ∈ INVALID_CHARS
    · simp [hin]
    · simp [hin, ih (i := i + 1) (by omega)]

/-- Without a NUL in the first string, the comparison is that of the two parts. -/
theorem strncmp_eq_checked_run {s1 s2 : List Byte} (h1 : i + n ≤ s1.length)
    (h2 : i + n ≤ s2.length) (hnul : (0 : Byte) ∉ (s1.drop i).take n) :
    strncmp_eq_checked s1 s2 n i s =
      .ok (decide ((s1.drop i).take n = (s2.drop i).take n)) s := by
  induction n generalizing i with
  | zero => simp [strncmp_eq_checked]
  | succ n ih =>
    obtain ⟨c, hc, hsplit1⟩ := drop_take_succ h1
    obtain ⟨d, hd, hsplit2⟩ := drop_take_succ h2
    rw [hsplit1, List.mem_cons, not_or] at hnul
    unfold strncmp_eq_checked
    simp only [bind_run, byte_at_run hc, byte_at_run hd, bind_ok, ite_run]
    rw [hsplit1, hsplit2]
    by_cases hcd : c = d
    · rw [if_neg (not_not.mpr hcd), if_neg (Ne.symm hnul.1), ih (by omega) (by omega) hnul.2]
      simp [hcd]
    · rw [if_pos hcd]
      simp [hcd]

/-- The comparison with the name of the root, which has the length of the name. -/
theorem root_name_cmp_run (hroot : length = root_name.length) (h : length ≤ name.length)
    (hnul : (0 : Byte) ∉ name.take length) :
    strncmp_eq_checked name (root_name ++ [0]) length 0 s =
      .ok (decide (name.take length = root_name)) s := by
  have hcmp : strncmp_eq_checked name (root_name ++ [0]) length 0 s =
      .ok (decide (name.take length = (root_name ++ [0]).take length)) s :=
    strncmp_eq_checked_run (i := 0) (by omega) (by rw [hroot]; decide) hnul
  have htake : (root_name ++ [0]).take length = root_name := by
    rw [hroot]
    exact List.take_left
  rwa [htake] at hcmp

/-- A terminated string has a byte at every position up to its terminator. -/
theorem drop_of_nul_mem (hterm : (0 : Byte) ∈ bytes.drop i) :
    ∃ c, bytes[i]? = some c ∧ bytes.drop i = c :: bytes.drop (i + 1) := by
  have hi : i < bytes.length := by
    by_contra hge
    rw [List.drop_eq_nil_of_le (Nat.le_of_not_lt hge)] at hterm
    cases hterm
  exact ⟨bytes[i], List.getElem?_eq_getElem hi, List.drop_eq_getElem_cons hi⟩

/-- The comparison ends at the terminator at the latest. -/
theorem name_eq_checked_loop_run (hterm : (0 : Byte) ∈ initialised.drop i)
    (h : i + n ≤ name.length) :
    name_eq_checked_loop initialised name n i s =
      .ok (name_eq_loop (initialised.drop i) ((name.drop i).take n)) s := by
  induction n generalizing i with
  | zero =>
    obtain ⟨c, hc, hsplit⟩ := drop_of_nul_mem hterm
    unfold name_eq_checked_loop
    rw [bind_run, byte_at_run hc, bind_ok, pure_run, hsplit]
    rfl
  | succ n ih =>
    obtain ⟨c, hc, hinitialised⟩ := drop_of_nul_mem hterm
    obtain ⟨d, hd, hname⟩ := drop_take_succ h
    rw [hinitialised, List.mem_cons] at hterm
    unfold name_eq_checked_loop
    rw [hinitialised, hname]
    simp only [bind_run, byte_at_run hc, byte_at_run hd, bind_ok, ite_run, pure_run,
      name_eq_loop, List.headD_cons, List.tail_cons]
    by_cases hzero : c = 0
    · simp only [hzero, if_true]
    · by_cases hne : c = d
      · subst hne
        simp only [hzero, if_false, ne_eq, not_true_eq_false]
        -- the terminator is further on
        exact ih (hterm.resolve_left (Ne.symm hzero)) (by omega)
      · simp only [hzero, hne, if_false, ne_eq, not_false_eq_true, if_true]

/-- The comparison stops at the terminator, which is inside the buffer. -/
theorem name_eq_checked_run {b : CharBuf k} (hterm : b.Terminated) (h : length ≤ name.length) :
    name_eq_checked b.bytes name length s = ofExcept (name_eq b (name.take length)) s := by
  have hlen : (name.take length).length = length := List.length_take_of_le h
  unfold name_eq_checked name_eq
  rw [hlen]
  by_cases hzero : length = 0
  · simp [hzero]
  · simp only [hzero, if_false]
    exact name_eq_checked_loop_run (i := 0) hterm (by omega)

/-- The scan over the slots is that of `scan_sub_entries`. -/
theorem name_is_taken_checked_run {name_of : α → CharBuf k} {slots : Nat → Option α}
    (hterm : ∀ j x, i ≤ j → j < i + n → slots j = some x → (name_of x).Terminated)
    (h : length ≤ name.length) :
    name_is_taken_checked (fun x => (name_of x).bytes) slots name length n i s =
      ofExcept ((scan_sub_entries name_of (name.take length)
        ((List.range' i n).map slots)).map Option.isSome) s := by
  -- On the slots that are left; a vacant slot is skipped, and an entry found ends the scan.
  induction n generalizing i with
  | zero => rfl
  | succ n ih =>
    have hrest := ih (i := i + 1) fun j x h₁ h₂ hx => hterm j x (by omega) (by omega) hx
    unfold name_is_taken_checked
    rw [List.range'_succ, List.map_cons]
    cases hi : slots i with
    | none => exact hrest
    | some x =>
      show (name_eq_checked (name_of x).bytes name length s).bind _ = _
      rw [name_eq_checked_run (hterm i x (Nat.le_refl i) (by omega) hi) h, scan_sub_entries]
      cases name_eq (name_of x) (name.take length) with
      | error err => rfl
      | ok eq =>
        cases eq with
        | true => rfl
        | false => exact hrest

/-- The names of the children are all terminated, so no scan leaves its buffers. -/
theorem sub_entry_name_is_unique_checked_run (hterm : ∀ n ∈ es.children p, es.nameTerminated n)
    (h : length ≤ name.length) :
    sub_entry_name_is_unique_checked p name length es =
      ofExcept (sub_entry_name_is_unique es p (name.take length)) es := by
  -- the scans of the files and of the folders, one after the other
  have hfiles : name_is_taken_checked (fun f => (es.fileName f).bytes) (es.folderAt p).sub_files
      name length MAX_SUB_FILES_AMOUNT 0 es =
        ofExcept ((scan_sub_entries es.fileName (name.take length)
          (es.folderAt p).fileSlots).map Option.isSome) es := by
    rw [Folder.fileSlots, List.range_eq_range']
    exact name_is_taken_checked_run
      (fun j f _ hj hf => hterm (.file f) (file_mem_children.mpr ⟨j, by omega, hf⟩)) h
  have hfolders : name_is_taken_checked (fun d => (es.folderName d).bytes)
      (es.folderAt p).sub_folders name length MAX_SUB_FOLDERS_AMOUNT 0 es =
        ofExcept ((scan_sub_entries es.folderName (name.take length)
          (es.folderAt p).folderSlots).map Option.isSome) es := by
    rw [Folder.folderSlots, List.range_eq_range']
    exact name_is_taken_checked_run
      (fun j d _ hj hd => hterm (.folder d) (folder_mem_children.mpr ⟨j, by omega, hd⟩)) h
  unfold sub_entry_name_is_unique_checked sub_entry_name_is_unique
  simp only [bind_run, readState_run, bind_ok, hfiles]
  cases scan_sub_entries es.fileName (name.take length) (es.folderAt p).fileSlots with
  | error err => rfl
  | ok file =>
    cases file with
    | some f => rfl
    | none =>
      show (name_is_taken_checked _ _ _ _ _ _ es).bind _ = _
      rw [hfolders]
      cases scan_sub_entries es.folderName (name.take length) (es.folderAt p).folderSlots with
      | error err => rfl
      | ok folder =>
        cases folder with
        | some d => rfl
        | none => rfl

/-- Every read stays inside its array, and the outcome is that of the function on the
    bytes of the name. -/
theorem validate_sub_entry_name_checked_eq (hterm : ∀ n ∈ es.children p, es.nameTerminated n)
    (h : length ≤ name.length) :
    validate_sub_entry_name_checked p name length es =
      ofExcept (validate_sub_entry_name es p (name.take length)) es := by
  have hlen : (name.take length).length = length := List.length_take_of_le h
  have hchars : name_chars_are_valid_checked_loop name length 0 es =
      .ok (name_chars_are_valid (name.take length)) es :=
    name_chars_are_valid_checked_run (i := 0) (by omega)
  unfold validate_sub_entry_name_checked validate_sub_entry_name name_chars_are_valid_checked
  rw [hlen]
  by_cases hover : length > MAX_NAME_LENGTH
  · simp only [hover, if_true]
    rfl
  by_cases hzero : length = 0
  · simp only [hzero, if_true]
    rfl
  simp only [hover, hzero, if_false, bind_run, hchars, bind_ok, ite_run]
  by_cases hvalid : name_chars_are_valid (name.take length) = false
  · simp only [hvalid, if_true]
    rfl
  rw [if_neg hvalid, if_neg hvalid]
  -- what follows the comparison with the name of the root
  have hrest : ((sub_entry_name_is_unique_checked p name length es).bind fun unique s' =>
      if unique = false then
        (returnStatus .IDENTIFIER_NOT_AVAILABLE : Sys VFSEntryStore Unit) s'
      else (pure () : Sys VFSEntryStore Unit) s') =
      ofExcept (do
        let unique ← sub_entry_name_is_unique es p (name.take length)
        if unique = false then throw .IDENTIFIER_NOT_AVAILABLE else pure ()) es := by
    rw [sub_entry_name_is_unique_checked_run hterm h]
    match sub_entry_name_is_unique es p (name.take length) with
    | .error err => rfl
    | .ok true => rfl
    | .ok false => rfl
  by_cases hroot : length = root_name.length
  · rw [Bool.not_eq_false, name_chars_are_valid_iff] at hvalid
    rw [if_pos hroot, root_name_cmp_run hroot h hvalid.1, bind_ok]
    by_cases heq : name.take length = root_name
    · rw [if_pos (decide_eq_true heq), if_pos ⟨hroot, heq⟩]
      rfl
    · rw [if_neg (fun hd => heq (of_decide_eq_true hd)), if_neg (fun hand => heq hand.2)]
      exact hrest
  · rw [if_neg hroot, if_neg (fun hand => hroot hand.1)]
    exact hrest

/-! ## Section 3: The names that are accepted -/

/-- A value is missing in a prefix if it is at none of its positions. -/
theorem not_mem_take_iff (h : length ≤ bytes.length) :
    c ∉ bytes.take length ↔ ∀ i, i < length → bytes[i]? ≠ some c := by
  constructor
  · intro hnot i hi hget
    exact hnot (List.mem_iff_getElem?.mpr ⟨i, by rw [List.getElem?_take_of_lt hi, hget]⟩)
  · intro hall hmem
    obtain ⟨i, hi, hget⟩ := List.mem_iff_getElem.mp hmem
    rw [List.length_take_of_le h] at hi
    refine hall i hi ?_
    rw [← hget, ← List.getElem?_take_of_lt hi]
    exact List.getElem?_eq_getElem _

/-- The children slot by slot. -/
theorem nameIsNew_iff_slots :
    es.NameIsNew p name ↔
      (∀ i f, i < MAX_SUB_FILES_AMOUNT → (es.folderAt p).sub_files i = some f →
        (es.files f).name.str ≠ name) ∧
      ∀ i d, i < MAX_SUB_FOLDERS_AMOUNT → (es.folderAt p).sub_folders i = some d →
        (es.folderAt d).name.str ≠ name := by
  constructor
  · intro hnew
    exact ⟨fun i f hi hf => hnew (.file f) (file_mem_children.mpr ⟨i, hi, hf⟩),
      fun i d hi hd => hnew (.folder d) (folder_mem_children.mpr ⟨i, hi, hd⟩)⟩
  · intro ⟨hfiles, hfolders⟩ n hn
    match n with
    | .file f =>
      obtain ⟨i, hi, hf⟩ := file_mem_children.mp hn
      exact hfiles i f hi hf
    | .folder d =>
      obtain ⟨i, hi, hd⟩ := folder_mem_children.mp hn
      exact hfolders i d hi hd

/-- The first `length` bytes are a legal name, and no sub-entry of the folder has it. -/
structure FreeLegalName (es : VFSEntryStore) (p : FolderRef) (name : List Byte)
    (length : Nat) : Prop where
  length_pos : 1 ≤ length
  /-- A name may have the full length. -/
  length_le : length ≤ MAX_NAME_LENGTH
  /-- None of the first `length` bytes is a NUL or a delimiter. -/
  chars_ok : ∀ i, i < length → name[i]? ≠ some 0 ∧ name[i]? ≠ some PATH_DELIMITER
  /-- The name of the root is reserved. -/
  not_root_name : name.take length ≠ root_name
  /-- Slots behind the end of the arrays are not looked at. -/
  files_ne : ∀ i f, i < MAX_SUB_FILES_AMOUNT → (es.folderAt p).sub_files i = some f →
    (es.files f).name.str ≠ name.take length
  folders_ne : ∀ i d, i < MAX_SUB_FOLDERS_AMOUNT → (es.folderAt p).sub_folders i = some d →
    (es.folderAt d).name.str ≠ name.take length

/-- The accepted names, position by position. -/
theorem freeLegalName_iff (h : length ≤ name.length) :
    FreeLegalName es p name length ↔ validate_sub_entry_name es p (name.take length) = .ok () := by
  have htake : (name.take length).length = length := List.length_take_of_le h
  rw [validate_sub_entry_name_ok_iff, htake, nameIsNew_iff_slots]
  -- Field by field; `htake` gives the length of the prefix that is looked at.
  constructor
  · intro hfree
    refine ⟨?_, hfree.length_le, hfree.files_ne, hfree.folders_ne⟩
    constructor
    case not_empty =>
      apply List.length_pos_iff.mp
      rw [htake]
      exact hfree.length_pos
    case no_nul => exact (not_mem_take_iff h).mpr fun i hi => (hfree.chars_ok i hi).1
    case no_delimiter => exact (not_mem_take_iff h).mpr fun i hi => (hfree.chars_ok i hi).2
    case not_root_name => exact hfree.not_root_name
  · intro ⟨hacc, hle, hfiles, hfolders⟩
    constructor
    case length_pos =>
      rw [← htake]
      exact List.length_pos_iff.mpr hacc.not_empty
    case length_le => exact hle
    case chars_ok =>
      intro i hi
      exact ⟨(not_mem_take_iff h).mp hacc.no_nul i hi,
        (not_mem_take_iff h).mp hacc.no_delimiter i hi⟩
    case not_root_name => exact hacc.not_root_name
    case files_ne => exact hfiles
    case folders_ne => exact hfolders

/-- **Validation accepts exactly the free legal names**, and it reads no byte outside its
    arrays. -/
theorem validate_sub_entry_name_exact (es : VFSEntryStore) (p : FolderRef) (name : List Byte)
    (length : Nat) (hterm : ∀ n ∈ es.children p, es.nameTerminated n)
    (hbuf : length ≤ MAX_NAME_LENGTH → length ≤ name.length) :
    (validate_sub_entry_name_checked p name length es).faulted = none ∧
    ((validate_sub_entry_name_checked p name length es).succeeded = true ↔
      FreeLegalName es p name length) := by
  by_cases hover : length > MAX_NAME_LENGTH
  · -- too long: nothing is read
    have hfail : validate_sub_entry_name_checked p name length es = .fail .DATA_OVER_FLOW es := by
      simp [validate_sub_entry_name_checked, hover]
    rw [hfail]
    refine ⟨rfl, fun h => absurd h Bool.false_ne_true, fun h => ?_⟩
    exact absurd h.length_le (Nat.not_le.mpr hover)
  · have hlen := hbuf (Nat.le_of_not_lt hover)
    rw [validate_sub_entry_name_checked_eq hterm hlen, freeLegalName_iff hlen]
    match validate_sub_entry_name es p (name.take length) with
    | .ok () => exact ⟨rfl, fun _ => rfl, fun _ => rfl⟩
    | .error err => exact ⟨rfl, fun h => absurd h Bool.false_ne_true, fun h => by cases h⟩

/-- A proper prefix of the name of a file, in a buffer that goes on behind the name. -/
theorem validate_sub_entry_name_exact_run :
    ∃ s, runStore [.vfs_sub_file_init [97, 98] .root, .vfs_sub_folder_init [99] .root] = some s ∧
      (validate_sub_entry_name_checked .root [97, 98, 99] 1 s.entry_store).faulted = none ∧
      ((validate_sub_entry_name_checked .root [97, 98, 99] 1 s.entry_store).succeeded = true ↔
        FreeLegalName s.entry_store .root [97, 98, 99] 1) := by
  refine exists_of_run (Q := fun _ => True) (by decide +kernel) fun s hs _ => ?_
  have htree := folderTree_of_runStore hs
  refine validate_sub_entry_name_exact s.entry_store .root [97, 98, 99] 1 ?_ (fun _ => by decide)
  intro n hn
  exact htree.names_terminated n ((htree.mem_children_iff (Or.inl rfl)).mp hn).1

end VirtualFS
