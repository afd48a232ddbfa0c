import VirtualFS.Disk.Contents

/-! # Truncation

    `file_truncate_by` removes whole extents, then whole chunks, and overwrites
    the end of the last chunk that is left. Here the three steps are put
    together: what is left of the content, which chunks are free afterwards,
    and which bytes have been written. The accesses through the cursor are
    followed in a copy of the function that checks each of them.

    * `truncateBytes`: what is left of the content, as a function of it.
    * `Truncated`: the file, the map and the bytes after a truncation.
    * `file_truncate_by_checked`: the function with a check at each access; by
      `file_truncate_by_checked_eq` the checks are where the model faults.
-/

namespace VirtualFS

open Framework Prog Outcome

variable {s s' : VFS} {sm : StorageMan} {f : FileRef} {e' : File} {l : List ChunkExtent}
  {c d k amount : Nat} {freed : List Nat}

/-! ## Section 1: Content after truncation -/

/-- What a truncation by `amount` leaves of a content: whole chunks are cut off, and the
    rest of the amount is overwritten. -/
def truncateBytes (amount : Nat) (content : List Byte) : List Byte :=
  overwriteLast EOC_OPERATOR (amount % CHUNK_SIZE)
    (content.take (content.length - CHUNK_SIZE * (amount / CHUNK_SIZE)))

/-- The chunk whose end has been overwritten. -/
theorem chunk_overwriteEnd (hk : k ≤ CHUNK_SIZE) :
    (s.overwriteEnd c k).storage_man.chunk c =
      overwriteLast EOC_OPERATOR k (s.storage_man.chunk c) := by
  have hlen := length_chunk s.storage_man c
  apply List.ext_getElem?
  intro i
  rw [getElem?_overwriteLast (by omega), hlen]
  by_cases hi : i < CHUNK_SIZE
  · -- the byte at position `i` is in front of the written range or in it
    have hget : ∀ sm : StorageMan, (sm.chunk c)[i]? = some (sm.storage (get_chunk_addr c + i)) := by
      intro sm
      simp [StorageMan.chunk, hi]
    rw [hget, hget, if_pos hi]
    show some (writeBytes _ _ _ _) = _
    by_cases hfront : i < CHUNK_SIZE - k
    · rw [if_pos hfront, writeBytes_of_outside (Or.inl (by omega))]
    · rw [if_neg hfront]
      unfold writeBytes
      rw [if_pos (by omega), List.getD_eq_getElem _ _ (by rw [List.length_replicate]; omega),
        List.getElem_replicate]
  · rw [if_neg (by omega), if_neg hi, List.getElem?_eq_none]
    rw [length_chunk]
    omega

/-- Overwriting the end of one chunk leaves the others. -/
theorem chunk_overwriteEnd_ne (hc : c ≠ d) (hk : k ≤ CHUNK_SIZE) :
    (s.overwriteEnd d k).storage_man.chunk c = s.storage_man.chunk c := by
  refine chunk_congr fun i hi => writeBytes_of_outside ?_
  rw [List.length_replicate]
  simp only [get_chunk_addr, CHUNK_SIZE] at *
  omega

/-- The content of chunks the last of which is overwritten. -/
theorem flatMap_overwriteEnd {chunks : List Nat} (hnodup : chunks.Nodup)
    (hlast : chunks.getLast? = some c) (hk : k ≤ CHUNK_SIZE) :
    chunks.flatMap (s.overwriteEnd c k).storage_man.chunk =
      overwriteLast EOC_OPERATOR k (chunks.flatMap s.storage_man.chunk) := by
  obtain ⟨front, hfront⟩ := List.getLast?_eq_some_iff.mp hlast
  subst hfront
  have hnot : ∀ d ∈ front, d ≠ c := by
    intro d hd rfl
    exact (List.nodup_append.mp hnodup).2.2 d hd d (by simp) rfl
  have hrest : front.flatMap (s.overwriteEnd c k).storage_man.chunk =
      front.flatMap s.storage_man.chunk :=
    List.flatMap_congr fun d hd => chunk_overwriteEnd_ne (hnot d hd) hk
  simp only [List.flatMap_append, List.flatMap_singleton, hrest, chunk_overwriteEnd hk]
  rw [overwriteLast_append]
  rw [length_chunk]
  exact hk

/-! ## Section 2: What truncation does -/

/-- The state after the file `f` has been truncated by `amount` bytes. -/
structure Truncated (s s' : VFS) (f : FileRef) (amount : Nat) : Prop where
  /-- Only the record of `f` is changed, and in it neither name nor parent. -/
  record : ∃ e', s'.entry_store = s.entry_store.setFile f e' ∧
    SameHeader (s.entry_store.files f) e'
  file_ok : FileOk (s'.entry_store.files f)
  /-- Whole chunks are cut off, and the rest of the amount is overwritten. -/
  content_eq : s'.content f = truncateBytes amount (s.content f)
  /-- The first chunks are kept, in their order. -/
  kept : (s'.entry_store.files f).chunks = (s.entry_store.files f).chunks.take
    ((s.entry_store.files f).allocated_size - amount / CHUNK_SIZE)
  /-- The others are the chunks that become free. -/
  allocated_iff : ∀ c, s'.storage_man.allocation_map c = true ↔
    s.storage_man.allocation_map c = true ∧ c ∉ (s.entry_store.files f).chunks.drop
      ((s.entry_store.files f).allocated_size - amount / CHUNK_SIZE)
  /-- Only whole chunks are given back. -/
  free_count : s.storage_man.CountOk →
    s'.storage_man.free_chunk_count = s.storage_man.free_chunk_count + amount / CHUNK_SIZE
  /-- Bytes are written to the last chunk that is kept, and to no other. -/
  chunk_eq : ∀ c, (s'.entry_store.files f).chunks.getLast? ≠ some c →
    s'.storage_man.chunk c = s.storage_man.chunk c

/-- The size after a truncation. -/
theorem Truncated.size_eq (h : Truncated s s' f amount) (hok : FileOk (s.entry_store.files f)) :
    (s'.entry_store.files f).allocated_size =
      (s.entry_store.files f).allocated_size - amount / CHUNK_SIZE := by
  rw [← h.file_ok.length_chunks, h.kept, List.length_take, hok.length_chunks]
  exact Nat.min_eq_left (Nat.sub_le _ _)

/-- The chunks of a file are its first ones and the rest. -/
theorem chunks_split {chunks front rest : List Nat} (h : chunks = front ++ rest) :
    front = chunks.take (chunks.length - rest.length) ∧
      rest = chunks.drop (chunks.length - rest.length) := by
  have hlen : chunks.length - rest.length = front.length := by
    rw [h, List.length_append, Nat.add_sub_cancel]
  rw [hlen, h, List.take_left, List.drop_left]
  exact ⟨rfl, rfl⟩

/-- **Truncation** by fewer bytes than the file has. -/
theorem file_truncate_by_truncated (h : OwnsChunks s f)
    (hamount : amount < (s.entry_store.files f).allocated_size * CHUNK_SIZE) :
    ∃ s', file_truncate_by f amount s = .ok () s' ∧ FileEffect s s' f ∧
      Truncated s s' f amount := by
  obtain ⟨s', hok, heffect⟩ := file_truncate_by_effect h hamount
  obtain ⟨e', l', rest, freed, c, hrun, hheader, hstored, hsplit, hlen, hperm, _, hlast⟩ :=
    file_truncate_by_run h.file_ok.stored hamount
  rw [hok] at hrun
  cases hrun
  have hmod : amount % CHUNK_SIZE ≤ CHUNK_SIZE := Nat.le_of_lt (Nat.mod_lt _ (by decide))
  have hchunks : e'.chunks = chunksOf l' := hstored.extents.chunks_eq
  change (s.entry_store.files f).chunks = _ at hsplit
  rw [← hchunks] at hsplit hlast
  -- the state in front of the last write
  generalize ht : (s.putFile f e').freeAll freed = t at *
  have hfile : (t.overwriteEnd c (amount % CHUNK_SIZE)).entry_store.files f = e' := by
    rw [← ht]
    exact Function.update_self ..
  have hbytes : t.storage_man.storage = s.storage_man.storage := by
    rw [← ht]
    exact freeAll_storage freed
  have hchunk : t.storage_man.chunk = s.storage_man.chunk := by
    funext d
    exact chunk_congr fun i _ => congrFun hbytes _
  obtain ⟨hfront, hback⟩ := chunks_split hsplit
  rw [h.file_ok.length_chunks, hlen] at hfront hback
  have hnodup := h.file_ok.nodup
  rw [hsplit] at hnodup
  have hnodup_rest : rest.Nodup := (List.nodup_append.mp hnodup).2.1
  refine ⟨_, hok, heffect, ?_⟩
  constructor
  case record => exact heffect.record
  case file_ok => exact heffect.file_ok
  case content_eq =>
    have hle : amount / CHUNK_SIZE ≤ (s.entry_store.files f).allocated_size :=
      Nat.le_of_lt ((Nat.div_lt_iff_lt_mul (by decide)).mpr hamount)
    -- what is kept of the content is the content of the chunks that are kept
    have hkept : (s.content f).take ((s.content f).length - CHUNK_SIZE * (amount / CHUNK_SIZE)) =
        e'.chunks.flatMap s.storage_man.chunk := by
      have hlength : (s.content f).length - CHUNK_SIZE * (amount / CHUNK_SIZE) =
          (e'.chunks.flatMap s.storage_man.chunk).length := by
        rw [length_content h.file_ok, length_blocks (length_chunk _), hfront, List.length_take,
          h.file_ok.length_chunks, Nat.min_eq_left (Nat.sub_le _ _), Nat.sub_mul,
          Nat.mul_comm CHUNK_SIZE]
      rw [hlength, content_eq, hsplit, List.flatMap_append, List.take_left]
    unfold truncateBytes
    rw [hkept, content_eq, hfile, flatMap_overwriteEnd (List.nodup_append.mp hnodup).1 hlast hmod,
      hchunk]
  case kept => rw [hfile, ← hfront]
  case allocated_iff =>
    intro d
    have hmap : (t.overwriteEnd c (amount % CHUNK_SIZE)).storage_man.allocation_map d =
        if d ∈ freed then false else s.storage_man.allocation_map d := by
      rw [← ht]
      exact freeAll_map freed d
    rw [hmap, ← hback, ← hperm.mem_iff]
    by_cases hd : d ∈ freed <;> simp [hd]
  case free_count =>
    intro hcount
    have hcount' : (t.overwriteEnd c (amount % CHUNK_SIZE)).storage_man.free_chunk_count =
        (s.storage_man.freeAll freed).free_chunk_count := by
      rw [← ht]
      rfl
    rw [hcount', hcount.freeAll_count (hperm.nodup_iff.mpr hnodup_rest), hperm.length_eq, hlen]
    intro d hd
    have hmem : d ∈ (s.entry_store.files f).chunks :=
      hsplit ▸ List.mem_append_right _ (hperm.mem_iff.mp hd)
    exact ⟨h.file_ok.on_disk hmem, h.allocated d hmem⟩
  case chunk_eq =>
    intro d hd
    rw [hfile] at hd
    have hne : d ≠ c := by
      intro rfl
      exact hd hlast
    rw [chunk_overwriteEnd_ne hne hmod, hchunk]

/-! ## Section 3: Accesses through the cursor -/

/-- `*cur_chunk_extent`, where the cursor is a signed position: it is decremented after
    every extent that has been removed. -/
def derefCursor (file : FileRef) (cursor : Int) : Sys VFS ExtentRef :=
  if 0 ≤ cursor ∧ cursor < MAX_FILE_CHUNK_EXTENTS_AMOUNT then
    pure ⟨file, cursor.toNat⟩
  else
    undefinedBehaviour .out_of_bounds

/-- `free_full_extents` with every access checked. -/
def free_full_extents_checked (file : FileRef) (full_chunks_to_be_deleted : Nat) :
    (iterations : Nat) → (cursor : Int) → (deleted_chunks_count : Nat) → Sys VFS (Int × Nat)
  | 0, _, _ => undefinedBehaviour .diverges
  | n + 1, cursor, deleted => do
    if cursor < 0 then
      return (cursor, deleted)
    else do
      let cur_chunk_extent ← derefCursor file cursor
      let s ← readState
      if deleted + (s.extentAt cur_chunk_extent).chunk_amount > full_chunks_to_be_deleted then
        return (cursor, deleted)
      else do
        let cur_chunk_extent ← derefCursor file cursor
        file_free_chunk_extent file cur_chunk_extent
        let cur_chunk_extent ← derefCursor file cursor
        let s ← readState
        free_full_extents_checked file full_chunks_to_be_deleted n (cursor - 1)
          (deleted + (s.extentAt cur_chunk_extent).chunk_amount)

/-- `file_truncate_by` with every access checked. -/
def file_truncate_by_checked (file : FileRef) (amount : Nat) : Sys VFS Unit := do
  let s ← readState
  if amount > (s.entry_store.files file).allocated_size * CHUNK_SIZE then
    returnStatus .INDEX_OUT_OF_BOUNDS
  let full_chunks_to_be_deleted := amount / CHUNK_SIZE
  let last ← ofExcept (file_get_last_chunk_extent (s.entry_store.files file))
  let (cursor, deleted_chunks_count) ←
    free_full_extents_checked file full_chunks_to_be_deleted
      (MAX_FILE_CHUNK_EXTENTS_AMOUNT + 1) last 0
  let cur_chunk_extent ← derefCursor file cursor
  let s ← readState
  if (s.extentAt cur_chunk_extent).is_empty then
    if deleted_chunks_count ≠ full_chunks_to_be_deleted then
      returnStatus .INDEX_OUT_OF_BOUNDS
    else
      return ()
  else do
    let truncation_amount := full_chunks_to_be_deleted - deleted_chunks_count
    let cur_chunk_extent ← derefCursor file cursor
    if (s.extentAt cur_chunk_extent).chunk_amount ≤ truncation_amount then
      returnStatus .INDEX_OUT_OF_BOUNDS
    let cur_chunk_extent ← derefCursor file cursor
    file_truncate_chunk_extent file cur_chunk_extent truncation_amount
    let cur_chunk_extent ← derefCursor file cursor
    let s ← readState
    let extent := s.extentAt cur_chunk_extent
    let final_chunk_index := extent.start + extent.chunk_amount - 1
    let final_chunk_truncation_amount := amount % CHUNK_SIZE
    if final_chunk_truncation_amount = 0 then
      return ()
    else
      onStorageMan (chtrunc final_chunk_index final_chunk_truncation_amount)

/-- A cursor inside the array can be dereferenced. -/
theorem derefCursor_natCast {i : Nat} (hi : i < MAX_FILE_CHUNK_EXTENTS_AMOUNT) :
    derefCursor f (i : Int) s = .ok ⟨f, i⟩ s := by
  have hin : (0 : Int) ≤ i ∧ (i : Int) < MAX_FILE_CHUNK_EXTENTS_AMOUNT :=
    ⟨Int.natCast_nonneg i, Int.ofNat_lt.mpr hi⟩
  unfold derefCursor
  rw [if_pos hin]
  rfl

/-- The checks of the loop never fail: the cursor is at or behind the position it was
    decremented from. -/
theorem free_full_extents_checked_run (full : Nat) (n i deleted : Nat) (hn : i < n)
    (hi : i ≤ MAX_FILE_CHUNK_EXTENTS_AMOUNT) :
    free_full_extents_checked f full n ((i : Int) - 1) deleted s =
      (free_full_extents f full i deleted s).bind fun r s' =>
        .ok ((r.1 : Int) - 1, r.2) s' := by
  induction i generalizing s n deleted with
  | zero =>
    obtain ⟨n, rfl⟩ : ∃ m, n = m + 1 := ⟨n - 1, by omega⟩
    rfl
  | succ i ih =>
    obtain ⟨n, rfl⟩ : ∃ m, n = m + 1 := ⟨n - 1, by omega⟩
    have hcur : ((i + 1 : Nat) : Int) - 1 = (i : Int) := by omega
    have hnot : ¬ (i : Int) < 0 := by omega
    have hderef : ∀ t : VFS, derefCursor f (i : Int) t = .ok ⟨f, i⟩ t :=
      fun t => derefCursor_natCast (by omega)
    rw [hcur, free_full_extents_checked, free_full_extents]
    simp only [if_neg hnot, bind_run, hderef, bind_ok, readState_run]
    by_cases hstop : deleted + (s.extentAt ⟨f, i⟩).chunk_amount > full
    · -- the loop is left with the cursor where it is
      rw [if_pos hstop, if_pos hstop]
      show Outcome.ok ((i : Int), deleted) s = .ok (((i + 1 : Nat) : Int) - 1, deleted) s
      rw [hcur]
    · rw [if_neg hstop, if_neg hstop]
      simp only [bind_run, hderef, bind_ok]
      cases file_free_chunk_extent f ⟨f, i⟩ s with
      | ok a t => exact ih n _ (by omega) (by omega)
      | fail err t => rfl
      | fault x => rfl

/-- The loop moves its cursor down only. -/
theorem free_full_extents_cursor_le (full i deleted : Nat) :
    (free_full_extents f full i deleted s).Sat (fun r _ => r.1 ≤ i) (fun _ _ => True)
      (fun _ => True) := by
  -- The cursor only moves down.
  induction i generalizing s deleted with
  | zero => exact Nat.le_refl 0
  | succ i ih =>
    rw [free_full_extents]
    simp only [bind_run, readState_run, bind_ok]
    by_cases hstop : deleted + (s.extentAt ⟨f, i⟩).chunk_amount > full
    · rw [if_pos hstop]
      exact Nat.le_refl (i + 1)
    · rw [if_neg hstop, bind_run]
      cases file_free_chunk_extent f ⟨f, i⟩ s with
      | ok a t =>
        apply (ih _).mono
        · exact fun r _ hr => Nat.le_succ_of_le hr
        · exact fun _ _ h => h
        · exact fun _ h => h
      | fail err t => trivial
      | fault x => trivial

/-- The cursor starts inside the array. -/
theorem file_get_last_chunk_extent_lt {e : File} {last : Nat}
    (h : file_get_last_chunk_extent e = .ok last) : last < MAX_FILE_CHUNK_EXTENTS_AMOUNT := by
  -- the loop returns a position that it has passed
  have hloop : ∀ n i cur, n + i = MAX_FILE_CHUNK_EXTENTS_AMOUNT →
      cur < MAX_FILE_CHUNK_EXTENTS_AMOUNT →
      file_get_last_chunk_extent_loop e n i cur = .ok last →
      last < MAX_FILE_CHUNK_EXTENTS_AMOUNT := by
    intro n
    induction n with
    | zero =>
      intro i cur _ hcur hlast
      cases hlast
      exact hcur
    | succ n ih =>
      intro i cur hn hcur hlast
      rw [file_get_last_chunk_extent_loop] at hlast
      split at hlast
      · split at hlast
        · cases hlast
        · cases hlast
          exact hcur
      · exact ih (i + 1) i (by omega) (by omega) hlast
  exact hloop _ 0 0 rfl (by decide) h

/-- The checked function is `file_truncate_by`: a check fails exactly where the model
    has the undefined access. -/
theorem file_truncate_by_checked_eq (f : FileRef) (amount : Nat) :
    file_truncate_by_checked f amount = file_truncate_by f amount := by
  funext s
  simp only [file_truncate_by_checked, file_truncate_by, bind_run, readState_run, bind_ok]
  by_cases hgt : amount > (s.entry_store.files f).allocated_size * CHUNK_SIZE
  · simp only [hgt, if_true, bind_run, returnStatus_run, bind_fail]
  · simp only [hgt, if_false, bind_run]
    cases hlast : file_get_last_chunk_extent (s.entry_store.files f) with
    | error err => simp only [ofExcept_error_run, bind_fail]
    | ok last =>
      -- The cursor starts inside the array and only moves down, so an access is out of bounds
      -- exactly when it has moved below the start.
      have hlt := file_get_last_chunk_extent_lt hlast
      have hcur : (last : Int) = ((last + 1 : Nat) : Int) - 1 := by omega
      rw [ofExcept_ok_run, bind_ok, bind_ok, hcur,
        free_full_extents_checked_run _ _ _ _ (by omega) (by omega)]
      have hle := free_full_extents_cursor_le (s := s) (f := f) (amount / CHUNK_SIZE) (last + 1) 0
      generalize hrun : free_full_extents f (amount / CHUNK_SIZE) (last + 1) 0 s = o at hle
      cases o with
      | fail err t => rfl
      | fault x => rfl
      | ok r t =>
        obtain ⟨cursor, deleted⟩ := r
        simp only [bind_ok]
        cases cursor with
        | zero => rfl
        | succ cur =>
          have hin : cur < MAX_FILE_CHUNK_EXTENTS_AMOUNT := Nat.lt_of_lt_of_le hle hlt
          have hderef : ∀ t : VFS, derefCursor f (((cur + 1 : Nat) : Int) - 1) t =
              .ok ⟨f, cur⟩ t := by
            intro t
            rw [show ((cur + 1 : Nat) : Int) - 1 = (cur : Int) from by omega]
            exact derefCursor_natCast hin
          simp only [hderef, bind_ok, bind_run, readState_run, ite_run]

end VirtualFS
