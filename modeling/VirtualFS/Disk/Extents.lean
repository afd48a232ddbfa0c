import VirtualFS.Disk.Allocation

/-! # Chunk Extents of a File

    The extents of a file as a list, kept compact at the front of the array:
    adding one appends to the list, freeing one erases it from the list.

    * `HasExtents`: the array holds a list of extents at its front.
    * `File.extents`, `File.chunks`: that list, and the chunks it stands for.
    * `VFS.putFile`, `VFS.writeAt`: the states that operations on files end in, so
      that a sequence of writes is one change of the record and one of the bytes.
    * `file_free_chunk_extent_run`: freeing an extent erases it from the list; the
      loop that shifts the others down is followed in `left_shift_loop`.
-/

namespace VirtualFS

open Framework Prog Outcome

/-! ## Section 1: The list of extents -/

/-- The extent at a position of the array, unless it is empty. -/
def extentSlot (extents : Nat → ChunkExtent) (i : Nat) : Option ChunkExtent :=
  if (extents i).is_empty then none else some (extents i)

/-- The non-empty extents are a prefix of the array, and `l` lists them. -/
def HasExtents (extents : Nat → ChunkExtent) (l : List ChunkExtent) : Prop :=
  Holds MAX_FILE_CHUNK_EXTENTS_AMOUNT (extentSlot extents) l

/-- The non-empty extents in array order. -/
def File.extents (e : File) : List ChunkExtent :=
  occupants MAX_FILE_CHUNK_EXTENTS_AMOUNT (extentSlot e.data_chunk_extents)

/-- The chunks of an extent. -/
def ChunkExtent.chunks (x : ChunkExtent) : List Nat := List.range' x.start x.chunk_amount

/-- The chunks of a file in the order of its data. -/
def File.chunks (e : File) : List Nat := e.extents.flatMap ChunkExtent.chunks

variable {extents : Nat → ChunkExtent} {e e' : File} {l : List ChunkExtent} {x : ChunkExtent}
  {i c : Nat} {s : VFS} {f g : FileRef} {data : List Byte}

/-- A slot is occupied if its extent is not marked empty. -/
theorem extentSlot_eq_some :
    extentSlot extents i = some x ↔ extents i = x ∧ x.is_empty = false := by
  unfold extentSlot
  cases h : (extents i).is_empty with
  | true =>
    simp only [if_true, reduceCtorEq, false_iff, not_and]
    intro rfl
    simp [h]
  | false =>
    simp only [Bool.false_eq_true, if_false, Option.some.injEq]
    refine ⟨?_, fun hx => hx.1⟩
    intro rfl
    exact ⟨rfl, h⟩

theorem extentSlot_eq_none : extentSlot extents i = none ↔ (extents i).is_empty = true := by
  unfold extentSlot
  cases (extents i).is_empty <;> simp

/-- The chunks of an extent are a range. -/
theorem mem_chunks {x : ChunkExtent} :
    c ∈ x.chunks ↔ x.start ≤ c ∧ c < x.start + x.chunk_amount := by
  simp [ChunkExtent.chunks, List.mem_range'_1]

namespace HasExtents

/-- The array holds one list of extents. -/
theorem extents_eq (h : HasExtents e.data_chunk_extents l) : e.extents = l := h.occupants_eq

/-- The chunks of a file, by its list of extents. -/
theorem chunks_eq (h : HasExtents e.data_chunk_extents l) :
    e.chunks = l.flatMap ChunkExtent.chunks := by
  rw [File.chunks, h.extents_eq]

theorem length_le (h : HasExtents extents l) : l.length ≤ MAX_FILE_CHUNK_EXTENTS_AMOUNT := h.1

/-- Positions in the list are positions in the array. -/
theorem lt_max (h : HasExtents extents l) (hx : l[i]? = some x) :
    i < MAX_FILE_CHUNK_EXTENTS_AMOUNT := by
  obtain ⟨hi, _⟩ := List.getElem?_eq_some_iff.mp hx
  have := h.length_le
  omega

/-- An element of the list is read at its position in the array. -/
theorem extent_eq (h : HasExtents extents l) (hx : l[i]? = some x) :
    extents i = x ∧ x.is_empty = false :=
  extentSlot_eq_some.mp ((h.2 i (h.lt_max hx)).trans hx)

/-- Behind the list the extents are empty. -/
theorem is_empty_of_le (h : HasExtents extents l) (hle : l.length ≤ i)
    (hi : i < MAX_FILE_CHUNK_EXTENTS_AMOUNT) : (extents i).is_empty = true :=
  extentSlot_eq_none.mp ((h.2 i hi).trans (List.getElem?_eq_none hle))

/-- What a scan from position `i` on sees next. -/
theorem scan (h : HasExtents extents l) (hi : i < MAX_FILE_CHUNK_EXTENTS_AMOUNT) :
    ((extents i).is_empty = true ∧ l.drop i = []) ∨
      ((extents i).is_empty = false ∧ l.drop i = extents i :: l.drop (i + 1)) := by
  by_cases hlt : i < l.length
  · have hx : l[i]? = some l[i] := List.getElem?_eq_getElem hlt
    obtain ⟨heq, hemp⟩ := h.extent_eq hx
    exact Or.inr ⟨heq ▸ hemp, by rw [heq]; exact List.drop_eq_getElem_cons hlt⟩
  · have hle := Nat.le_of_not_lt hlt
    exact Or.inl ⟨h.is_empty_of_le hle hi, List.drop_eq_nil_of_le hle⟩

/-- Changing one position, as long as the array stays compact. -/
theorem update (h : HasExtents extents l) {l' : List ChunkExtent}
    (hlen : l'.length ≤ MAX_FILE_CHUNK_EXTENTS_AMOUNT)
    (hself : (if x.is_empty then none else some x) = l'[i]?)
    (hother : ∀ j, j ≠ i → l'[j]? = l[j]?) : HasExtents (Function.update extents i x) l' := by
  refine ⟨hlen, fun j hj => ?_⟩
  by_cases hji : j = i
  · subst hji
    rw [← hself]
    simp [extentSlot]
  · rw [hother j hji, ← h.2 j hj]
    simp [extentSlot, Function.update_of_ne hji]

end HasExtents

/-- A compact array holds the list of its occupied extents. -/
theorem hasExtents_of_compact
    (h : Compact MAX_FILE_CHUNK_EXTENTS_AMOUNT (extentSlot e.data_chunk_extents)) :
    HasExtents e.data_chunk_extents e.extents := h.holds

/-! ## Section 2: Lookups -/

/-- The first empty position is behind the extents. -/
theorem get_available_chunk_extent_index_eq (h : HasExtents e.data_chunk_extents l) :
    get_available_chunk_extent_index e =
      if l.length < MAX_FILE_CHUNK_EXTENTS_AMOUNT then some l.length else none := by
  -- the positions before it are occupied
  have hoccupied : ∀ j, j < l.length → (e.data_chunk_extents j).is_empty = false := by
    intro j hj
    have hx : l[j]? = some l[j] := List.getElem?_eq_getElem hj
    obtain ⟨heq, hemp⟩ := h.extent_eq hx
    rw [heq, hemp]
  unfold get_available_chunk_extent_index
  split
  · next hlt =>
    refine List.find?_range_eq_some.mpr ⟨h.is_empty_of_le (Nat.le_refl _) hlt, ?_, ?_⟩
    · exact List.mem_range.mpr hlt
    · intro j hj
      simp [hoccupied j hj]
  · next hlt =>
    refine List.find?_range_eq_none.mpr fun j hj => ?_
    simp [hoccupied j (by omega)]

/-- The loop looks for the chunk in the extents from `i` on. -/
theorem file_owns_chunk_loop_iff (h : HasExtents e.data_chunk_extents l) (n : Nat)
    (hn : n + i = MAX_FILE_CHUNK_EXTENTS_AMOUNT) :
    file_owns_chunk_loop e c n i = true ↔ c ∈ (l.drop i).flatMap ChunkExtent.chunks := by
  induction n generalizing i with
  | zero =>
    have := h.length_le
    rw [List.drop_eq_nil_of_le (by omega)]
    simp [file_owns_chunk_loop]
  | succ n ih =>
    unfold file_owns_chunk_loop
    -- the scan stops at the first empty extent: none follows
    rcases h.scan (i := i) (by omega) with ⟨hemp, hdrop⟩ | ⟨hemp, hdrop⟩
    · simp [hemp, hdrop]
    · rw [hdrop, List.flatMap_cons, List.mem_append, mem_chunks, ← ih (by omega)]
      simp only [hemp, Bool.false_eq_true, if_false]
      split
      · next hin => simp [hin.1, hin.2]
      · next hin =>
        have : ¬ ((e.data_chunk_extents i).start ≤ c ∧
            c < (e.data_chunk_extents i).start + (e.data_chunk_extents i).chunk_amount) := hin
        simp [this]

/-- A file owns the chunks of its extents. -/
theorem file_owns_chunk_iff (h : HasExtents e.data_chunk_extents l) :
    file_owns_chunk e c = true ↔ c ∈ e.chunks := by
  rw [h.chunks_eq]
  exact file_owns_chunk_loop_iff h _ rfl

/-! ## Section 3: The state with one record or some bytes changed -/

/-- `*f = e` -/
def VFS.putFile (s : VFS) (f : FileRef) (e : File) : VFS :=
  { s with entry_store := s.entry_store.setFile f e }

/-- Name and parent of a file, which operations on its data leave alone. -/
def SameHeader (e e' : File) : Prop :=
  e'.name = e.name ∧ e'.parent_folder = e.parent_folder

theorem SameHeader.refl (e : File) : SameHeader e e := ⟨rfl, rfl⟩

theorem SameHeader.trans {e'' : File} (h : SameHeader e e') (h' : SameHeader e' e'') :
    SameHeader e e'' := ⟨h'.1.trans h.1, h'.2.trans h.2⟩

theorem modifyFile_eq (h : File → File) :
    s.modifyFile f h = s.putFile f (h (s.entry_store.files f)) := rfl

@[simp] theorem files_putFile :
    (s.putFile f e).entry_store.files = Function.update s.entry_store.files f e := rfl

@[simp] theorem storage_man_putFile : (s.putFile f e).storage_man = s.storage_man := rfl

@[simp] theorem putFile_putFile : (s.putFile f e).putFile f e' = s.putFile f e' := by
  simp [VFS.putFile, VFSEntryStore.setFile]

@[simp] theorem putFile_self : s.putFile f (s.entry_store.files f) = s := by
  simp [VFS.putFile, VFSEntryStore.setFile]

@[simp] theorem files_freeAll (chunks : List Nat) :
    (s.freeAll chunks).entry_store = s.entry_store := rfl

theorem putFile_freeAll (chunks : List Nat) :
    (s.freeAll chunks).putFile f e = (s.putFile f e).freeAll chunks := rfl

/-! ### Bytes -/

/-- The state with the bytes from `addr` on overwritten. -/
def VFS.writeAt (s : VFS) (addr : Nat) (data : List Byte) : VFS :=
  { s with
    storage_man :=
      { s.storage_man with storage := writeBytes s.storage_man.storage addr data } }

@[simp] theorem entry_store_writeAt (addr : Nat) :
    (s.writeAt addr data).entry_store = s.entry_store := rfl

@[simp] theorem allocation_map_writeAt (addr : Nat) :
    (s.writeAt addr data).storage_man.allocation_map = s.storage_man.allocation_map := rfl

/-- Two writes, one behind the other, are one write. -/
theorem writeAt_writeAt (addr : Nat) (data data' : List Byte) :
    (s.writeAt addr data).writeAt (addr + data.length) data' = s.writeAt addr (data ++ data') := by
  simp only [VFS.writeAt, writeBytes_append]

@[simp] theorem writeAt_nil (addr : Nat) : s.writeAt addr [] = s := by
  have : writeBytes s.storage_man.storage addr [] = s.storage_man.storage := by
    funext a
    exact writeBytes_of_outside (by simp; omega)
  simp only [VFS.writeAt, this]

/-! ## Section 4: Adding an extent -/

/-- The record with a new extent behind the others. -/
def File.addExtent (e : File) (start amount : Nat) : File :=
  { e.setExtent e.extents.length ⟨false, start, amount⟩ with
    allocated_size := sizeAdd e.allocated_size amount }

/-- An extent put into the first empty slot is the last one of the list. -/
theorem HasExtents.addExtent (h : HasExtents e.data_chunk_extents l)
    (hlt : l.length < MAX_FILE_CHUNK_EXTENTS_AMOUNT) (start amount : Nat) :
    HasExtents (e.addExtent start amount).data_chunk_extents
      (l ++ [⟨false, start, amount⟩]) := by
  simp only [File.addExtent, File.setExtent, h.extents_eq]
  have hlen : (l ++ [(⟨false, start, amount⟩ : ChunkExtent)]).length = l.length + 1 := by simp
  apply h.update (by omega) (by simp)
  intro j hj
  by_cases hjl : j < l.length
  · rw [List.getElem?_append_left hjl]
  · rw [List.getElem?_eq_none (by omega), List.getElem?_eq_none (by omega)]

/-! ## Section 5: Removing an extent -/

/-- Marking the last extent as empty erases it. -/
theorem HasExtents.erase_last (h : HasExtents extents l) (hend : l.length = i + 1)
    (hx : x.is_empty = true) : HasExtents (Function.update extents i x) (l.eraseIdx i) := by
  have hlen := h.length_le
  have herase : (l.eraseIdx i).length = l.length - 1 := List.length_eraseIdx_of_lt (by omega)
  apply h.update (by omega)
  · rw [if_pos hx, List.getElem?_eq_none (by omega)]
  · intro j hj
    rw [List.getElem?_eraseIdx]
    split
    · rfl
    · -- both lists end before `j`
      rw [List.getElem?_eq_none (by omega), List.getElem?_eq_none (by omega)]

/-- Shifting left from `pos` on erases the extent there. -/
theorem HasExtents.left_shift_loop (h : HasExtents extents l) (n : Nat) {pos : Nat}
    (hn : n + pos = MAX_FILE_CHUNK_EXTENTS_AMOUNT) (hpos : pos < l.length) :
    HasExtents (VirtualFS.left_shift_loop n pos extents) (l.eraseIdx pos) := by
  -- the list changes with the array: one copy to the left is one `set`
  induction n generalizing pos extents l with
  | zero =>
    have := h.length_le
    omega
  | succ n ih =>
    have hlen := h.length_le
    obtain ⟨heq, hemp⟩ := h.extent_eq (List.getElem?_eq_getElem hpos)
    unfold VirtualFS.left_shift_loop
    split
    · next hlast =>
      -- `pos` is the last extent
      have hend : l.length = pos + 1 := by
        by_contra hne
        have hnext : pos + 1 < l.length := by omega
        obtain ⟨heq', hemp'⟩ := h.extent_eq (List.getElem?_eq_getElem hnext)
        rcases hlast with h₁ | h₁
        · omega
        · rw [heq', hemp'] at h₁
          cases h₁
      exact h.erase_last hend rfl
    · next hmore =>
      obtain ⟨hnext, hocc⟩ := not_or.mp hmore
      have hnext' : pos + 1 < l.length := by
        by_contra hge
        exact hocc (h.is_empty_of_le (by omega) (by omega))
      obtain ⟨heq', hemp'⟩ := h.extent_eq (List.getElem?_eq_getElem hnext')
      -- the flag is not copied, but it is the same
      have hcopy : chunk_extent_copy_range (extents pos) (extents (pos + 1)) = l[pos + 1] := by
        rw [heq, heq']
        simp only [chunk_extent_copy_range, hemp, ← hemp']
      have hset : HasExtents (Function.update extents pos l[pos + 1]) (l.set pos l[pos + 1]) := by
        refine h.update (by simpa using hlen) ?_ fun j hj => ?_
        · simp [hemp', hpos]
        · rw [List.getElem?_set_ne (Ne.symm hj)]
      rw [hcopy]
      have hshift : HasExtents (VirtualFS.left_shift_loop n (pos + 1) _) _ :=
        ih hset (by omega) (by simpa using hnext')
      -- the copy at `pos + 1` is erased instead of the extent at `pos`
      have hlist : (l.set pos l[pos + 1]).eraseIdx (pos + 1) = l.eraseIdx pos := by
        apply List.ext_getElem?
        intro j
        simp only [List.getElem?_eraseIdx, List.getElem?_set]
        by_cases hj : j = pos
        · subst hj
          simp [hpos]
        · by_cases hlt : j < pos
          · simp [hlt, Nat.lt_succ_of_lt hlt, Ne.symm hj]
          · have h₁ : ¬ j < pos + 1 := by omega
            have h₂ : ¬ pos = j + 1 := by omega
            simp [hlt, h₁, h₂]
      rwa [hlist] at hshift

/-- The array of extents after the extent at `i` has been marked as empty. -/
def withGap (extents : Nat → ChunkExtent) (i : Nat) : Nat → ChunkExtent :=
  Function.update extents i { extents i with is_empty := true }

/-- Closing the gap at `i` erases the extent that was there. -/
theorem chunk_extent_left_shift_run {t : VFS} (h : HasExtents e.data_chunk_extents l)
    (hi : i < l.length)
    (ht : t.entry_store.files f =
      { e with data_chunk_extents := withGap e.data_chunk_extents i }) :
    ∃ extents, chunk_extent_left_shift ⟨f, i⟩ f t =
        .ok () (t.putFile f { e with data_chunk_extents := extents }) ∧
      HasExtents extents (l.eraseIdx i) ∧
      (i + 1 = l.length → extents i = { e.data_chunk_extents i with is_empty := true }) := by
  have hlen := h.length_le
  have hgap : (t.extentAt ⟨f, i⟩).is_empty = true := by
    simp [VFS.extentAt, ht, withGap]
  have hnext : withGap e.data_chunk_extents i (i + 1) = e.data_chunk_extents (i + 1) := by
    simp [withGap]
  by_cases hlast : i + 1 = l.length
  · -- the last extent: nothing is shifted
    refine ⟨withGap e.data_chunk_extents i, ?_, ?_, fun _ => by simp [withGap]⟩
    · -- the array ends here, or the next extent is empty
      have hstop : i + 1 = MAX_FILE_CHUNK_EXTENTS_AMOUNT ∨
          (e.data_chunk_extents (i + 1)).is_empty = true := by
        by_cases hmax : i + 1 = MAX_FILE_CHUNK_EXTENTS_AMOUNT
        · exact Or.inl hmax
        · exact Or.inr (h.is_empty_of_le (by omega) (by omega))
      have hput : t.putFile f { e with data_chunk_extents := withGap e.data_chunk_extents i } =
          t := by
        rw [← ht]
        exact putFile_self
      rw [hput]
      have hmax : ¬ MAX_FILE_CHUNK_EXTENTS_AMOUNT ≤ i := by omega
      simp [chunk_extent_left_shift, hgap, ht, hnext, hmax, hstop]
    · exact h.erase_last hlast.symm rfl
  · have hnext' : i + 1 < l.length := by omega
    -- an extent follows, and the loop runs
    obtain ⟨heq, hemp⟩ := h.extent_eq (List.getElem?_eq_getElem hi)
    obtain ⟨heq', hemp'⟩ := h.extent_eq (List.getElem?_eq_getElem hnext')
    have hshift := h.left_shift_loop (MAX_FILE_CHUNK_EXTENTS_AMOUNT - i) (by omega) hi
    refine ⟨_, ?_, hshift, fun hc => absurd hc hlast⟩
    have hmax : ¬ MAX_FILE_CHUNK_EXTENTS_AMOUNT ≤ i := by omega
    have hmore : ¬ (i + 1 = MAX_FILE_CHUNK_EXTENTS_AMOUNT ∨
        (e.data_chunk_extents (i + 1)).is_empty = true) := by
      rw [heq', hemp']
      simp
      omega
    -- the flag is cleared again before the loop
    have hrestore : Function.update (withGap e.data_chunk_extents i) i
        { withGap e.data_chunk_extents i i with is_empty := false } = e.data_chunk_extents := by
      simp only [withGap, Function.update_self, Function.update_idem]
      rw [← hemp, ← heq]
      exact Function.update_eq_self ..
    simp [chunk_extent_left_shift, hgap, hnext, hmax, hmore, modifyFile_eq, ht, hrestore]

/-- Freeing an extent frees its chunks and erases it from the list. The last
    extent keeps its old values. -/
theorem file_free_chunk_extent_run (h : HasExtents (s.entry_store.files f).data_chunk_extents l)
    (hx : l[i]? = some x) (hrange : ∀ c ∈ x.chunks, c < CHUNKS_AMOUNT) :
    ∃ e', file_free_chunk_extent f ⟨f, i⟩ s = .ok () ((s.putFile f e').freeAll x.chunks) ∧
      SameHeader (s.entry_store.files f) e' ∧
      e'.allocated_size = sizeSub (s.entry_store.files f).allocated_size x.chunk_amount ∧
      HasExtents e'.data_chunk_extents (l.eraseIdx i) ∧
      (i + 1 = l.length → (e'.data_chunk_extents i).chunk_amount = x.chunk_amount) := by
  obtain ⟨heq, hemp⟩ := h.extent_eq hx
  obtain ⟨hi, _⟩ := List.getElem?_eq_some_iff.mp hx
  have hfree : free_chunk_extent x s = .ok () (s.freeAll x.chunks) := forEach_chfree_run hrange
  have hext : s.extentAt ⟨f, i⟩ = x := heq
  generalize he : s.entry_store.files f = e at h heq
  -- the record before the gap is closed
  let e₁ : File := { e with allocated_size := sizeSub e.allocated_size x.chunk_amount }
  -- the chunks have been freed and the extent marked
  have ht : ((s.freeAll x.chunks).putFile f
      { e₁ with data_chunk_extents := withGap e.data_chunk_extents i }).entry_store.files f =
      { e₁ with data_chunk_extents := withGap e₁.data_chunk_extents i } := by simp [e₁]
  obtain ⟨extents, hrun, hholds, hlast⟩ := chunk_extent_left_shift_run (e := e₁) h hi ht
  refine ⟨{ e₁ with data_chunk_extents := extents }, ?_, ⟨rfl, rfl⟩, rfl, hholds, ?_⟩
  · rw [putFile_putFile] at hrun
    rw [← putFile_freeAll, ← hrun]
    simp [file_free_chunk_extent, hext, hemp, hfree, VFS.setExtent, modifyFile_eq, he,
      File.setExtent, withGap, e₁, heq]
  · intro hc
    have : (extents i).chunk_amount = (e.data_chunk_extents i).chunk_amount := by
      rw [hlast hc]
    rw [this, heq]

end VirtualFS
