import VirtualFS.System.FileLogic
import VirtualFS.Disk.Extents

/-! # Clearing and Truncation

    `file_delete_data` frees the extents from the front, `file_truncate_by`
    from the back. Both loops are followed extent by extent; the result is
    stated by the list of extents that is left and the chunks that were freed.

    * `Stored`: a file as the list of its extents and its size.
    * `file_truncate_by_run`: what is left when less than everything is cut off.
    * `file_truncate_by_all`: cutting off everything never succeeds. The call
      fails, or the cursor of the loop leaves the array.
-/

namespace VirtualFS

open Framework Prog Outcome

variable {s : VFS} {f : FileRef} {e e' : File} {l : List ChunkExtent} {x : ChunkExtent}
  {i : Nat}

/-- The chunks of a list of extents. -/
def chunksOf (l : List ChunkExtent) : List Nat := l.flatMap ChunkExtent.chunks

@[simp] theorem chunksOf_nil : chunksOf [] = [] := rfl

@[simp] theorem chunksOf_cons : chunksOf (x :: l) = x.chunks ++ chunksOf l := rfl

@[simp] theorem chunksOf_append (l l' : List ChunkExtent) :
    chunksOf (l ++ l') = chunksOf l ++ chunksOf l' := List.flatMap_append

@[simp] theorem length_chunks (x : ChunkExtent) : x.chunks.length = x.chunk_amount := by
  simp [ChunkExtent.chunks]

/-- The last chunk is the end of the last extent. -/
theorem getLast?_chunksOf (l : List ChunkExtent) (hpos : 0 < x.chunk_amount) :
    (chunksOf (l ++ [x])).getLast? = some (x.start + x.chunk_amount - 1) := by
  rw [chunksOf_append, chunksOf_cons, chunksOf_nil, List.append_nil, ChunkExtent.chunks,
    show x.chunk_amount = x.chunk_amount - 1 + 1 from by omega, List.range'_concat,
    ← List.append_assoc, List.getLast?_append, List.getLast?_singleton, Option.some_or]
  congr 1
  omega

theorem VFS.freeAll_freeAll (chunks chunks' : List Nat) :
    (s.freeAll chunks).freeAll chunks' = s.freeAll (chunks ++ chunks') := by
  simp only [VFS.freeAll, freeAll_append]

/-- The extents of a file, the size that goes with them, and chunks on the disk. -/
structure Stored (e : File) (l : List ChunkExtent) : Prop where
  /-- The extents are `l`, at the front of the array. -/
  extents : HasExtents e.data_chunk_extents l
  /-- The tracked size goes with them. -/
  size_eq : e.allocated_size = (chunksOf l).length
  /-- The size does not wrap around. -/
  size_lt : e.allocated_size < SIZE_T_RANGE
  /-- Every chunk of an extent exists. -/
  on_disk : ∀ c ∈ chunksOf l, c < CHUNKS_AMOUNT

/-- Freeing one extent of a file. -/
theorem Stored.free_extent (h : Stored (s.entry_store.files f) l) (hx : l[i]? = some x) :
    ∃ e', file_free_chunk_extent f ⟨f, i⟩ s = .ok () ((s.putFile f e').freeAll x.chunks) ∧
      SameHeader (s.entry_store.files f) e' ∧ Stored e' (l.eraseIdx i) ∧
      (i + 1 = l.length → (e'.data_chunk_extents i).chunk_amount = x.chunk_amount) := by
  obtain ⟨hi, hget⟩ := List.getElem?_eq_some_iff.mp hx
  -- the chunks of the extent and those of the others
  have hsplit : (chunksOf l).Perm (x.chunks ++ chunksOf (l.eraseIdx i)) := by
    have := (List.getElem_cons_eraseIdx_perm hi).symm.flatMap_right ChunkExtent.chunks
    rwa [hget] at this
  have hrange : ∀ c ∈ x.chunks, c < CHUNKS_AMOUNT :=
    fun c hc => h.on_disk c (hsplit.mem_iff.mpr (List.mem_append_left _ hc))
  obtain ⟨e', hrun, hheader, hsize, hholds, hlast⟩ :=
    file_free_chunk_extent_run h.extents hx hrange
  have hlen := hsplit.length_eq
  rw [List.length_append, length_chunks] at hlen
  -- the subtraction of `size_t` does not wrap
  have hsize' : e'.allocated_size = (chunksOf (l.eraseIdx i)).length := by
    have := h.size_eq
    have := h.size_lt
    rw [hsize, sizeSub_of_le (by omega) h.size_lt]
    omega
  refine ⟨e', hrun, hheader, ⟨hholds, hsize', ?_, ?_⟩, hlast⟩
  · have := h.size_eq
    have := h.size_lt
    omega
  · exact fun c hc => h.on_disk c (hsplit.mem_iff.mpr (List.mem_append_right _ hc))

/-! ## Section 1: Clearing -/

/-- Without extents the loop runs to the end of the array. -/
theorem file_delete_data_loop_empty
    (h : HasExtents (s.entry_store.files f).data_chunk_extents []) (n : Nat)
    (hn : MAX_FILE_CHUNK_EXTENTS_AMOUNT < n + i) :
    i ≤ MAX_FILE_CHUNK_EXTENTS_AMOUNT → file_delete_data_loop f n i s = .ok () s := by
  intro hi
  induction n generalizing i with
  | zero => omega
  | succ n ih =>
    unfold file_delete_data_loop
    by_cases hend : i ≥ MAX_FILE_CHUNK_EXTENTS_AMOUNT
    · simp [hend]
    · -- an empty extent: the index moves on
      have hlt : i < MAX_FILE_CHUNK_EXTENTS_AMOUNT := Nat.lt_of_not_le hend
      have hemp : (s.extentAt ⟨f, i⟩).is_empty = true := h.is_empty_of_le (Nat.zero_le i) hlt
      simp only [hend, if_false, bind_run, readState_run, bind_ok, hemp, if_true]
      exact ih (by omega) (by omega)

/-- Every iteration at the front frees an extent, until none is left. -/
theorem file_delete_data_loop_run (n : Nat) (h : Stored (s.entry_store.files f) l)
    (hn : l.length + MAX_FILE_CHUNK_EXTENTS_AMOUNT < n) :
    ∃ e', file_delete_data_loop f n 0 s = .ok () ((s.putFile f e').freeAll (chunksOf l)) ∧
      SameHeader (s.entry_store.files f) e' ∧ Stored e' [] := by
  -- one extent fewer at every iteration, and the index stays at zero
  induction l generalizing s n with
  | nil =>
    refine ⟨s.entry_store.files f, ?_, SameHeader.refl _, h⟩
    rw [putFile_self]
    exact file_delete_data_loop_empty h.extents n (by simpa using hn) (Nat.zero_le _)
  | cons x l ih =>
    obtain ⟨n, rfl⟩ : ∃ m, n = m + 1 := ⟨n - 1, by omega⟩
    obtain ⟨e', hfree, hheader, hstored, _⟩ := h.free_extent (i := 0) rfl
    have hocc : (s.extentAt ⟨f, 0⟩).is_empty = false := by
      obtain ⟨heq, hemp⟩ := h.extents.extent_eq (i := 0) rfl
      exact (congrArg ChunkExtent.is_empty heq).trans hemp
    have hfile : ((s.putFile f e').freeAll x.chunks).entry_store.files f = e' := by simp
    rw [List.eraseIdx_cons_zero] at hstored
    -- the next extents have moved to the front
    obtain ⟨e'', hrun, hheader', hstored'⟩ := ih (s := (s.putFile f e').freeAll x.chunks) n
      (by rwa [hfile]) (by simp only [List.length_cons] at hn; omega)
    rw [hfile] at hheader'
    refine ⟨e'', ?_, hheader.trans hheader', hstored'⟩
    unfold file_delete_data_loop
    have hmax : ¬ 0 ≥ MAX_FILE_CHUNK_EXTENTS_AMOUNT := by decide
    simp only [hmax, if_false, bind_run, readState_run, bind_ok, hocc, Bool.false_eq_true, hfree,
      hrun]
    rw [putFile_freeAll, putFile_putFile, VFS.freeAll_freeAll, chunksOf_cons]

/-- A loop that has ended is not run on. -/
theorem file_delete_data_loop_mono {n m : Nat} {s' : VFS}
    (h : file_delete_data_loop f n i s = .ok () s') (hle : n ≤ m) :
    file_delete_data_loop f m i s = .ok () s' := by
  -- The loops with `n` and with `m` rounds take the same steps until the first one ends.
  induction n generalizing m i s with
  | zero => cases h
  | succ n ih =>
    obtain ⟨m, rfl⟩ : ∃ k, m = k + 1 := ⟨m - 1, by omega⟩
    unfold file_delete_data_loop at h ⊢
    by_cases hend : i ≥ MAX_FILE_CHUNK_EXTENTS_AMOUNT
    · rwa [if_pos hend] at h ⊢
    · rw [if_neg hend] at h ⊢
      simp only [bind_run, readState_run, bind_ok, ite_run] at h ⊢
      split
      · next hemp =>
        rw [if_pos hemp] at h
        exact ih h (by omega)
      · next hocc =>
        rw [if_neg hocc] at h
        obtain ⟨a, t, hfree, hrest⟩ := exists_of_bind h
        rw [hfree]
        exact ih hrest (by omega)

/-- **Clearing** frees all chunks of the file and always succeeds. -/
theorem file_delete_data_run (h : Stored (s.entry_store.files f) l) :
    ∃ e', file_delete_data f s = .ok () ((s.putFile f e').freeAll (chunksOf l)) ∧
      SameHeader (s.entry_store.files f) e' ∧ Stored e' [] := by
  apply file_delete_data_loop_run _ h
  have := h.extents.length_le
  omega

/-! ## Section 2: Truncation -/

/-- The last extent is the last one of the list. -/
theorem file_get_last_chunk_extent_eq (h : HasExtents e.data_chunk_extents (l ++ [x])) :
    file_get_last_chunk_extent e = .ok l.length := by
  -- the scan keeps the position before `i`
  have hloop : ∀ n i cur, n + i = MAX_FILE_CHUNK_EXTENTS_AMOUNT → i ≤ l.length + 1 →
      (i = 0 ∨ cur + 1 = i) → file_get_last_chunk_extent_loop e n i cur = .ok l.length := by
    intro n
    have hlen := h.length_le
    rw [List.length_append, List.length_singleton] at hlen
    induction n with
    | zero =>
      intro i cur hn hi hcur
      have : cur = l.length := by
        have : 0 < MAX_FILE_CHUNK_EXTENTS_AMOUNT := by decide
        omega
      rw [this]
      rfl
    | succ n ih =>
      intro i cur hn hi hcur
      unfold file_get_last_chunk_extent_loop
      by_cases hend : i = l.length + 1
      · -- the first empty position, or the end of the array
        have hemp : (e.data_chunk_extents i).is_empty = true :=
          h.is_empty_of_le (by simp [hend]) (by omega)
        have hcur' : cur = l.length := by omega
        have hlast : (e.data_chunk_extents l.length).is_empty = false := by
          obtain ⟨heq, hocc⟩ := h.extent_eq (i := l.length) (x := x) (by simp)
          rw [heq, hocc]
        simp [hemp, hlast, hcur']
      · have hlt : i < (l ++ [x]).length := by simp; omega
        have hocc : (e.data_chunk_extents i).is_empty = false := by
          obtain ⟨heq, hocc⟩ := h.extent_eq (List.getElem?_eq_getElem hlt)
          rw [heq, hocc]
        simp only [hocc, Bool.false_eq_true, if_false]
        exact ih (i + 1) i (by omega) (by omega) (Or.inr rfl)
  exact hloop _ 0 0 rfl (by omega) (Or.inl rfl)

theorem extentAt_last (h : HasExtents (s.entry_store.files f).data_chunk_extents (l ++ [x])) :
    s.extentAt ⟨f, l.length⟩ = x :=
  (h.extent_eq (i := l.length) (by simp)).1

/-- One iteration of the loop: the last extent is removed as a whole. -/
theorem free_full_extents_step (full deleted : Nat)
    (h : Stored (s.entry_store.files f) (l ++ [x])) (hmore : ¬ deleted + x.chunk_amount > full) :
    ∃ e₁, SameHeader (s.entry_store.files f) e₁ ∧ Stored e₁ l ∧
      free_full_extents f full (l.length + 1) deleted s =
        free_full_extents f full l.length (deleted + x.chunk_amount)
          ((s.putFile f e₁).freeAll x.chunks) := by
  have hlast := extentAt_last h.extents
  obtain ⟨e₁, hfree, hheader, hstored, hkeep⟩ := h.free_extent (i := l.length) (x := x) (by simp)
  have herase : (l ++ [x]).eraseIdx l.length = l := by
    rw [List.eraseIdx_append_of_length_le (Nat.le_refl _), Nat.sub_self]
    simp
  rw [herase] at hstored
  -- the freed extent is read again: it still has its size
  have hread : (((s.putFile f e₁).freeAll x.chunks).extentAt ⟨f, l.length⟩).chunk_amount =
      x.chunk_amount := by
    have hfile : ((s.putFile f e₁).freeAll x.chunks).entry_store.files f = e₁ := by simp
    rw [VFS.extentAt, hfile]
    exact hkeep (by simp)
  refine ⟨e₁, hheader, hstored, ?_⟩
  rw [free_full_extents]
  simp only [bind_run, readState_run, bind_ok, hlast, hmore, if_false, hfree, hread]

/-- Extents are removed from the back while they are to be deleted as a whole. The
    loop stops at the extent `y` that is to be shortened. -/
theorem free_full_extents_run (full deleted : Nat)
    (h : Stored (s.entry_store.files f) l) (hle : deleted ≤ full)
    (hmore : full < deleted + (chunksOf l).length) :
    ∃ e' l' y r freed, l = l' ++ y :: r ∧ freed.Perm (chunksOf r) ∧
      free_full_extents f full l.length deleted s =
        .ok (l'.length + 1, deleted + (chunksOf r).length) ((s.putFile f e').freeAll freed) ∧
      SameHeader (s.entry_store.files f) e' ∧ Stored e' (l' ++ [y]) ∧
      deleted + (chunksOf r).length ≤ full ∧
      full < deleted + (chunksOf r).length + y.chunk_amount := by
  -- induction from the back, as the cursor moves
  induction l using List.reverseRecOn generalizing s deleted with
  | nil => simp at hmore; omega
  | append_singleton l x ih =>
    have hlen : (l ++ [x]).length = l.length + 1 := by simp
    have htotal : (chunksOf (l ++ [x])).length = (chunksOf l).length + x.chunk_amount := by
      simp
    rw [hlen]
    by_cases hstop : deleted + x.chunk_amount > full
    · -- the loop stops here
      refine ⟨s.entry_store.files f, l, x, [], [], rfl, List.Perm.refl _, ?_,
        SameHeader.refl _, h, by simpa using hle, by simpa using hstop⟩
      rw [free_full_extents]
      simp [extentAt_last h.extents, hstop, VFS.freeAll]
    · obtain ⟨e₁, hheader, hstored, hstep⟩ := free_full_extents_step full deleted h hstop
      have hfile : ((s.putFile f e₁).freeAll x.chunks).entry_store.files f = e₁ := by simp
      obtain ⟨e', l', y, r, freed, hl, hperm, hrun, hheader', hstored', hle', hlt'⟩ :=
        ih (s := (s.putFile f e₁).freeAll x.chunks) (deleted + x.chunk_amount)
          (by rwa [hfile]) (by omega) (by omega)
      rw [hfile] at hheader'
      have hrest : (chunksOf (r ++ [x])).length = (chunksOf r).length + x.chunk_amount := by simp
      -- `x` joins the removed extents at their end
      refine ⟨e', l', y, r ++ [x], x.chunks ++ freed, by simp [hl], ?_, ?_,
        hheader.trans hheader', hstored', by omega, by omega⟩
      · rw [chunksOf_append, chunksOf_cons, chunksOf_nil, List.append_nil]
        exact (hperm.append_left x.chunks).trans List.perm_append_comm
      · have hdeleted : deleted + x.chunk_amount + (chunksOf r).length =
            deleted + (chunksOf (r ++ [x])).length := by omega
        rw [hstep, hrun, hdeleted, putFile_freeAll, putFile_putFile, VFS.freeAll_freeAll]

/-! ### Shortening the last extent -/

/-- The record after `k` chunks have been cut off the extent at `i`. -/
def File.shorten (e : File) (i k : Nat) : File :=
  { e with
    allocated_size := e.allocated_size - k
    data_chunk_extents := Function.update e.data_chunk_extents i
      { e.data_chunk_extents i with
        chunk_amount := (e.data_chunk_extents i).chunk_amount - k } }

theorem shorten_zero : e.shorten i 0 = e := by
  simp [File.shorten]

/-- Two truncations of an extent are one. -/
theorem shorten_shorten (j k : Nat) : (e.shorten i j).shorten i k = e.shorten i (j + k) := by
  simp [File.shorten, Nat.sub_sub]

/-- The loop of `file_truncate_chunk_extent`. -/
theorem shorten_loop_run {chunks : List Nat} (hrange : ∀ c ∈ chunks, c < CHUNKS_AMOUNT)
    (hsize : chunks.length ≤ (s.entry_store.files f).allocated_size)
    (hamount : chunks.length ≤ (s.extentAt ⟨f, i⟩).chunk_amount)
    (hlt : (s.entry_store.files f).allocated_size < SIZE_T_RANGE)
    (hlt' : (s.extentAt ⟨f, i⟩).chunk_amount < SIZE_T_RANGE) :
    (forEach chunks fun c => do
      onStorageMan (chfree c)
      modifyState fun s => s.modifyFile f fun e =>
        { e with allocated_size := sizeSub e.allocated_size 1 }
      modifyState fun s => s.setExtent ⟨f, i⟩
        { s.extentAt ⟨f, i⟩ with
          chunk_amount := sizeSub (s.extentAt ⟨f, i⟩).chunk_amount 1 } : Sys VFS Unit) s =
      .ok () ((s.putFile f ((s.entry_store.files f).shorten i chunks.length)).freeAll chunks) := by
  induction chunks generalizing s with
  | nil => simp [shorten_zero, VFS.freeAll]
  | cons c chunks ih =>
    simp only [List.length_cons] at hsize hamount
    have hc := hrange c (List.mem_cons_self ..)
    generalize he : s.entry_store.files f = e at hsize hlt
    have hext : s.extentAt ⟨f, i⟩ = e.data_chunk_extents i := by rw [VFS.extentAt, he]
    rw [hext] at hamount hlt'
    -- one iteration
    have hstep : ((s.freeAll [c]).putFile f { e with
          allocated_size := sizeSub e.allocated_size 1 }).setExtent ⟨f, i⟩
            { e.data_chunk_extents i with
              chunk_amount := sizeSub (e.data_chunk_extents i).chunk_amount 1 } =
        (s.putFile f (e.shorten i 1)).freeAll [c] := by
      rw [sizeSub_of_le (by omega) hlt, sizeSub_of_le (by omega) hlt']
      simp [VFS.setExtent, modifyFile_eq, File.setExtent, File.shorten, putFile_freeAll]
    have hfile : ((s.putFile f (e.shorten i 1)).freeAll [c]).entry_store.files f =
        e.shorten i 1 := by simp
    have hext' : ((s.putFile f (e.shorten i 1)).freeAll [c]).extentAt ⟨f, i⟩ =
        { e.data_chunk_extents i with
          chunk_amount := (e.data_chunk_extents i).chunk_amount - 1 } := by
      simp [VFS.extentAt, File.shorten]
    -- the sizes stay large enough for the remaining iterations
    have hrun := ih (s := (s.putFile f (e.shorten i 1)).freeAll [c])
      (fun d hd => hrange d (List.mem_cons_of_mem c hd))
      (by rw [hfile]; simp only [File.shorten]; omega) (by rw [hext']; dsimp only; omega)
      (by rw [hfile]; simp only [File.shorten]; omega) (by rw [hext']; dsimp only; omega)
    rw [hfile, shorten_shorten, Nat.add_comm 1, putFile_freeAll, putFile_putFile,
      VFS.freeAll_freeAll] at hrun
    -- the iteration as the code runs it
    have hfree : onStorageMan (chfree c) s = .ok () (s.freeAll [c]) := by
      simp [onStorageMan, chfree_run hc, VFS.freeAll]
    have hread : ((s.freeAll [c]).putFile f { e with
        allocated_size := sizeSub e.allocated_size 1 }).extentAt ⟨f, i⟩ =
        e.data_chunk_extents i := by
      simp [VFS.extentAt]
    simp only [forEach_cons_run, bind_run, hfree, bind_ok, modifyState_run, modifyFile_eq,
      files_freeAll, he, hread, hstep]
    exact hrun

/-- Cutting chunks off the last extent, but not all of them. -/
theorem Stored.shorten {k : Nat} (h : Stored e (l ++ [x])) (hk : k < x.chunk_amount) :
    Stored (e.shorten l.length k) (l ++ [{ x with chunk_amount := x.chunk_amount - k }]) ∧
      chunksOf (l ++ [x]) = chunksOf (l ++ [{ x with chunk_amount := x.chunk_amount - k }]) ++
        List.range' (x.start + x.chunk_amount - k) k := by
  have hx : (l ++ [x])[l.length]? = some x := by simp
  obtain ⟨heq, hemp⟩ := h.extents.extent_eq hx
  -- the chunks that stay and those that are cut off
  have hsplit : x.chunks = List.range' x.start (x.chunk_amount - k) ++
      List.range' (x.start + x.chunk_amount - k) k := by
    have hstart : x.start + x.chunk_amount - k = x.start + (x.chunk_amount - k) := by omega
    have hamount : x.chunk_amount = x.chunk_amount - k + k := by omega
    rw [hstart, List.range'_append_1, ← hamount]
    rfl
  have hchunks : chunksOf (l ++ [x]) =
      chunksOf (l ++ [{ x with chunk_amount := x.chunk_amount - k }]) ++
        List.range' (x.start + x.chunk_amount - k) k := by
    simp only [chunksOf_append, chunksOf_cons, chunksOf_nil, List.append_nil, List.append_assoc]
    rw [hsplit]
    rfl
  refine ⟨⟨?_, ?_, ?_, ?_⟩, hchunks⟩
  · -- the extents
    have hlen := h.extents.length_le
    rw [List.length_append, List.length_singleton] at hlen
    refine h.extents.update (by simpa using hlen) ?_ fun j hj => ?_
    · simp [heq, hemp]
    · by_cases hjl : j < l.length
      · rw [List.getElem?_append_left hjl, List.getElem?_append_left hjl]
      · rw [List.getElem?_eq_none (by simp; omega), List.getElem?_eq_none (by simp; omega)]
  · -- the size
    have := h.size_eq
    have hlen := congrArg List.length hchunks
    simp only [List.length_append, List.length_range'] at hlen
    simp only [File.shorten]
    omega
  · have := h.size_lt
    simp only [File.shorten]
    omega
  · intro c hc
    apply h.on_disk c
    rw [hchunks]
    exact List.mem_append_left _ hc

/-- Cutting `k` chunks off the extent at `i`. -/
theorem file_truncate_chunk_extent_run {k : Nat} (h : Stored (s.entry_store.files f) (l ++ [x]))
    (hk : k < x.chunk_amount) :
    file_truncate_chunk_extent f ⟨f, l.length⟩ k s =
      .ok () ((s.putFile f ((s.entry_store.files f).shorten l.length k)).freeAll
        (List.range' (x.start + x.chunk_amount - k) k)) := by
  obtain ⟨_, hemp⟩ := h.extents.extent_eq (i := l.length) (x := x) (by simp)
  have hext := extentAt_last h.extents
  obtain ⟨hstored, hchunks⟩ := h.shorten hk
  have hsize := h.size_eq
  have hlt := h.size_lt
  have htotal : (chunksOf (l ++ [x])).length = (chunksOf l).length + x.chunk_amount := by simp
  have hrange : ∀ c ∈ List.range' (x.start + x.chunk_amount - k) k, c < CHUNKS_AMOUNT := by
    intro c hc
    exact h.on_disk c (hchunks ▸ List.mem_append_right _ hc)
  have hloop := shorten_loop_run (s := s) (f := f) (i := l.length) hrange
    (by rw [List.length_range']; omega) (by rw [List.length_range', hext]; omega) hlt
    (by rw [hext]; omega)
  rw [List.length_range'] at hloop
  -- the extent is not removed as a whole
  have hgt : ¬ k > x.chunk_amount := by omega
  have hne : ¬ k = x.chunk_amount := by omega
  simp only [file_truncate_chunk_extent, bind_run, readState_run, bind_ok, hext, hemp,
    Bool.false_eq_true, if_false, hgt, hne, ite_run]
  exact hloop

/-- The last `k` bytes of chunk `c` are overwritten. -/
def VFS.overwriteEnd (s : VFS) (c k : Nat) : VFS :=
  s.writeAt (get_chunk_addr c + (CHUNK_SIZE - k)) (List.replicate k EOC_OPERATOR)

@[simp] theorem overwriteEnd_zero (s : VFS) (c : Nat) : s.overwriteEnd c 0 = s := writeAt_nil _

/-- The end of a chunk is overwritten. -/
theorem chtrunc_run {c k : Nat} (hc : c < CHUNKS_AMOUNT) (hk : k ≠ 0) (hle : k ≤ CHUNK_SIZE) :
    onStorageMan (chtrunc c k) s = .ok () (s.overwriteEnd c k) := by
  simp [onStorageMan, chtrunc, Nat.not_le.mpr hc, hk, Nat.not_lt.mpr hle, VFS.overwriteEnd,
    VFS.writeAt]

/-- **Truncation** by fewer bytes than the file has always succeeds. The file keeps
    the front of its chunks, and the end of the last chunk it keeps is overwritten. -/
theorem file_truncate_by_run {amount : Nat} (h : Stored (s.entry_store.files f) l)
    (hamount : amount < (s.entry_store.files f).allocated_size * CHUNK_SIZE) :
    ∃ e' l' rest freed c,
      file_truncate_by f amount s =
        .ok () (((s.putFile f e').freeAll freed).overwriteEnd c (amount % CHUNK_SIZE)) ∧
      SameHeader (s.entry_store.files f) e' ∧ Stored e' l' ∧
      chunksOf l = chunksOf l' ++ rest ∧ rest.length = amount / CHUNK_SIZE ∧
      freed.Perm rest ∧
      ((∀ x ∈ l, 1 ≤ x.chunk_amount) → ∀ x ∈ l', 1 ≤ x.chunk_amount) ∧
      (chunksOf l').getLast? = some c := by
  have hsize := h.size_eq
  have hfull : amount / CHUNK_SIZE < (chunksOf l).length := by
    rw [← hsize]
    exact (Nat.div_lt_iff_lt_mul (by decide)).mpr hamount
  -- the file has a last extent
  obtain ⟨l₀, z, hl⟩ : ∃ l₀ z, l = l₀ ++ [z] := by
    rcases List.eq_nil_or_concat l with rfl | ⟨l₀, z, rfl⟩
    · simp at hfull
    · exact ⟨l₀, z, List.concat_eq_append⟩
  have hlast : file_get_last_chunk_extent (s.entry_store.files f) = .ok l₀.length :=
    file_get_last_chunk_extent_eq (hl ▸ h.extents)
  obtain ⟨e₁, l', y, r, freed, hsplit, hperm, hrun, hheader, hstored, hle, hlt⟩ :=
    free_full_extents_run (amount / CHUNK_SIZE) 0 h (Nat.zero_le _) (by omega)
  have hlen : l.length = l₀.length + 1 := by simp [hl]
  rw [hlen] at hrun
  rw [Nat.zero_add] at hrun hle hlt
  -- what is left to be deleted from the last extent
  generalize hk : amount / CHUNK_SIZE - (chunksOf r).length = k
  have hky : k < y.chunk_amount := by omega
  -- the state after the loop over full extents
  generalize hs₁ : (s.putFile f e₁).freeAll freed = s₁ at hrun
  have hfile₁ : s₁.entry_store.files f = e₁ := by simp [← hs₁]
  rw [← hfile₁] at hstored
  obtain ⟨_, hemp⟩ := hstored.extents.extent_eq (i := l'.length) (x := y) (by simp)
  have hext := extentAt_last hstored.extents
  have htrunc := file_truncate_chunk_extent_run hstored hky
  obtain ⟨hstored₂, hchunks₂⟩ := hstored.shorten hky
  rw [hfile₁] at htrunc hstored₂
  -- the state after the last extent has been shortened
  generalize hs₂ : (s₁.putFile f (e₁.shorten l'.length k)).freeAll
    (List.range' (y.start + y.chunk_amount - k) k) = s₂ at htrunc
  have hs₂' : s₂ = (s.putFile f (e₁.shorten l'.length k)).freeAll
      (freed ++ List.range' (y.start + y.chunk_amount - k) k) := by
    rw [← hs₂, ← hs₁, putFile_freeAll, putFile_putFile, VFS.freeAll_freeAll]
  generalize hy' : ({ y with chunk_amount := y.chunk_amount - k } : ChunkExtent) = y'
    at hstored₂ hchunks₂
  have hext₂ : s₂.extentAt ⟨f, l'.length⟩ = y' := by
    have hfile₂ : s₂.entry_store.files f = e₁.shorten l'.length k := by simp [hs₂']
    rw [VFS.extentAt, hfile₂]
    exact (hstored₂.extents.extent_eq (by simp)).1
  -- the chunk that is partially overwritten is the last one that is kept
  have hamount' : y'.chunk_amount = y.chunk_amount - k := by rw [← hy']
  have hfinal := getLast?_chunksOf l' (x := y') (by omega)
  have hrest : chunksOf l = chunksOf (l' ++ [y']) ++
      (List.range' (y.start + y.chunk_amount - k) k ++ chunksOf r) := by
    rw [hsplit, ← List.append_assoc, ← hchunks₂]
    simp
  have hgt : ¬ amount > (s.entry_store.files f).allocated_size * CHUNK_SIZE := by omega
  have hcut : ¬ y.chunk_amount ≤ k := by omega
  -- the program up to the last write
  have hfront : file_truncate_by f amount s =
      (if amount % CHUNK_SIZE = 0 then (pure () : Sys VFS Unit)
        else onStorageMan (chtrunc (y'.start + y'.chunk_amount - 1) (amount % CHUNK_SIZE))) s₂ := by
    simp only [file_truncate_by, bind_run, readState_run, bind_ok, hgt, if_false, hlast,
      ofExcept_ok_run, hrun, hext, hemp, Bool.false_eq_true, hk, hcut, htrunc, hext₂, ite_run]
  have hmod : amount % CHUNK_SIZE < CHUNK_SIZE := Nat.mod_lt _ (by decide)
  have hlength : (List.range' (y.start + y.chunk_amount - k) k ++ chunksOf r).length =
      amount / CHUNK_SIZE := by
    rw [List.length_append, List.length_range']
    omega
  have hfreed : (freed ++ List.range' (y.start + y.chunk_amount - k) k).Perm
      (List.range' (y.start + y.chunk_amount - k) k ++ chunksOf r) :=
    (hperm.append_right _).trans List.perm_append_comm
  have hpos : (∀ x ∈ l, 1 ≤ x.chunk_amount) → ∀ x ∈ l' ++ [y'], 1 ≤ x.chunk_amount := by
    intro hall x hx
    rcases List.mem_append.mp hx with hx | hx
    · exact hall x (hsplit ▸ List.mem_append_left _ hx)
    · rw [List.mem_singleton.mp hx, ← hy']
      exact Nat.sub_pos_of_lt hky
  refine ⟨e₁.shorten l'.length k, l' ++ [y'], _, _, y'.start + y'.chunk_amount - 1, ?_,
    hheader.trans ⟨rfl, rfl⟩, hstored₂, hrest, hlength, hfreed, hpos, hfinal⟩
  rw [hfront, ← hs₂']
  by_cases hr : amount % CHUNK_SIZE = 0
  · -- whole chunks only: no bytes are written
    rw [if_pos hr, hr, overwriteEnd_zero]
    rfl
  · have hdisk := hstored₂.on_disk _ (List.mem_of_getLast? hfinal)
    rw [if_neg hr, chtrunc_run hdisk hr (Nat.le_of_lt hmod)]

/-! ### Truncation to nothing -/

/-- All extents are removed, and the cursor ends before the array. -/
theorem free_full_extents_all (deleted : Nat) (h : Stored (s.entry_store.files f) l) :
    ∃ s', free_full_extents f (deleted + (chunksOf l).length) l.length deleted s =
      .ok (0, deleted + (chunksOf l).length) s' := by
  -- On the extents from the back, in the order in which the loop frees them.
  induction l using List.reverseRecOn generalizing s deleted with
  | nil => exact ⟨s, rfl⟩
  | append_singleton l x ih =>
    have htotal : deleted + (chunksOf (l ++ [x])).length =
        deleted + x.chunk_amount + (chunksOf l).length := by
      rw [chunksOf_append, List.length_append, chunksOf_cons, chunksOf_nil, List.append_nil,
        length_chunks]
      omega
    obtain ⟨e₁, _, hstored, hstep⟩ := free_full_extents_step
      (deleted + x.chunk_amount + (chunksOf l).length) deleted h (by omega)
    have hfile : ((s.putFile f e₁).freeAll x.chunks).entry_store.files f = e₁ := by simp
    rw [← hfile] at hstored
    obtain ⟨s', hrun⟩ := ih (deleted + x.chunk_amount) hstored
    refine ⟨s', ?_⟩
    rw [htotal, List.length_append, List.length_singleton, hstep]
    exact hrun

/-- More than the file has is refused. -/
theorem file_truncate_by_too_much {amount : Nat}
    (hamount : (s.entry_store.files f).allocated_size * CHUNK_SIZE < amount) :
    file_truncate_by f amount s = .fail .INDEX_OUT_OF_BOUNDS s := by
  simp [file_truncate_by, hamount]

/-- A file without extents has no last one. -/
theorem file_truncate_by_empty (h : Stored (s.entry_store.files f) []) :
    file_truncate_by f 0 s = .fail .FILE_IS_EMPTY s := by
  have hemp := h.extents.is_empty_of_le (Nat.zero_le 0) (by decide)
  have hlast : file_get_last_chunk_extent (s.entry_store.files f) = .error .FILE_IS_EMPTY := by
    show file_get_last_chunk_extent_loop _ (9 + 1) 0 0 = _
    unfold file_get_last_chunk_extent_loop
    rw [if_pos hemp, if_pos hemp]
  simp [file_truncate_by, hlast]

/-- Exactly as many bytes as the file has: the cursor passes the front of the array. -/
theorem file_truncate_by_whole (h : Stored (s.entry_store.files f) (l ++ [x])) :
    file_truncate_by f ((s.entry_store.files f).allocated_size * CHUNK_SIZE) s =
      .fault .out_of_bounds := by
  have hchunks : (s.entry_store.files f).allocated_size * CHUNK_SIZE / CHUNK_SIZE =
      0 + (chunksOf (l ++ [x])).length := by
    rw [Nat.mul_div_cancel _ (by decide), h.size_eq, Nat.zero_add]
  have hlast := file_get_last_chunk_extent_eq h.extents
  obtain ⟨s', hrun⟩ := free_full_extents_all 0 h
  rw [← hchunks, List.length_append, List.length_singleton] at hrun
  simp [file_truncate_by, hlast, hrun]

/-- **Truncation to nothing** fails, or reads an extent before the array. -/
theorem file_truncate_by_all {amount : Nat} (h : Stored (s.entry_store.files f) l)
    (hamount : (s.entry_store.files f).allocated_size * CHUNK_SIZE ≤ amount) :
    (file_truncate_by f amount s).Sat (fun _ _ => False) (fun _ s' => s' = s)
      (fun _ => amount = (s.entry_store.files f).allocated_size * CHUNK_SIZE) := by
  rcases Nat.eq_or_lt_of_le hamount with heq | hlt
  · rcases List.eq_nil_or_concat' l with hnil | ⟨l', x, hl⟩
    · -- no extents at all
      subst hnil
      have hzero : amount = 0 := by
        rw [← heq, h.size_eq]
        rfl
      rw [hzero, file_truncate_by_empty h]
      rfl
    · subst hl
      rw [← heq, file_truncate_by_whole h]
      rfl
  · rw [file_truncate_by_too_much hlt]
    rfl

end VirtualFS
