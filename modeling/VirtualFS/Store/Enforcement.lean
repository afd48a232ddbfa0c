import VirtualFS.Disk.Reading
import VirtualFS.Store.Reachable

/-! # Enforcement of Ownership by the File Storage Layer

    A call of `file_storage.c` names a file and a chunk or an extent. Reads and
    writes look up the chunk among the extents of the file. Freeing and
    truncating take a pointer to an extent and do not ask whose it is.

    * `StorageCall`: the calls on a file with all their arguments.
    * `EnforcesOwnership`: what the layer promises for one call.
    * `ownership_enforced_iff`: the calls that keep the promise.

    * `StorageCall.addresses`: the chunks that a call reads, writes or frees.
    * `StorageCall.PassesForeign`: a pointer to an extent of another file is passed,
      and there is something to free in it.
    * `ownership_not_enforced`: such a call frees the chunks before it fails.
-/

namespace VirtualFS

open Framework Prog Outcome VFSEntryStore

variable {s s' t u : VFS} {f g : FileRef} {x : ExtentRef} {chunks chunks' : List Nat}
  {c amount : Nat}

/-! ## Section 1: The calls -/

/-- The calls on a file, with their arguments. -/
inductive StorageCall where
  | file_write_chunk (chunk_pos : Nat) (data : List Byte)
  | file_read_chunk (chunk_pos data_length : Nat)
  | file_free_chunk_extent (chunk_extent : ExtentRef)
  | file_truncate_chunk_extent (chunk_extent : ExtentRef) (amount : Nat)

namespace StorageCall

/-- The function that a call runs. -/
def exec (f : FileRef) : StorageCall → Sys VFS Unit
  | file_write_chunk c data => VirtualFS.file_write_chunk f c data
  | file_read_chunk c len => do
    let _ ← VirtualFS.file_read_chunk f c len
  | file_free_chunk_extent x => VirtualFS.file_free_chunk_extent f x
  | file_truncate_chunk_extent x amount => VirtualFS.file_truncate_chunk_extent f x amount

/-- An extent that is passed belongs to some committed file. -/
def inStore (s : VFS) : StorageCall → Prop
  | file_free_chunk_extent x =>
    s.entry_store.committed (.file x.file) ∧ x.index < MAX_FILE_CHUNK_EXTENTS_AMOUNT
  | file_truncate_chunk_extent x _ =>
    s.entry_store.committed (.file x.file) ∧ x.index < MAX_FILE_CHUNK_EXTENTS_AMOUNT
  | _ => True

/-- The chunks that a call addresses, if its arguments are valid. -/
def addresses (s : VFS) : StorageCall → List Nat
  | file_write_chunk c _ => [c]
  | file_read_chunk c _ => [c]
  | file_free_chunk_extent x =>
    if (s.extentAt x).is_empty then [] else (s.extentAt x).chunks
  | file_truncate_chunk_extent x amount =>
    if (s.extentAt x).is_empty ∨ amount > (s.extentAt x).chunk_amount then []
    else List.range' ((s.extentAt x).start + (s.extentAt x).chunk_amount - amount) amount

/-- The call passes an extent of another file, and its arguments are valid otherwise. -/
def PassesForeign (s : VFS) (f : FileRef) : StorageCall → Prop
  | file_free_chunk_extent x => x.file ≠ f ∧ (s.extentAt x).is_empty = false
  | file_truncate_chunk_extent x amount =>
    x.file ≠ f ∧ (s.extentAt x).is_empty = false ∧ 0 < amount ∧
      amount ≤ (s.extentAt x).chunk_amount
  | _ => False

end StorageCall

/-- The extents of `g`, the state of their chunks and their bytes are as before. -/
def Spared (s s' : VFS) (g : FileRef) : Prop :=
  (s'.entry_store.files g).data_chunk_extents = (s.entry_store.files g).data_chunk_extents ∧
    ∀ c ∈ (s.entry_store.files g).chunks,
      s'.storage_man.allocation_map c = s.storage_man.allocation_map c ∧
        s'.storage_man.chunk c = s.storage_man.chunk c

theorem Spared.refl (s : VFS) (g : FileRef) : Spared s s g := ⟨rfl, fun _ _ => ⟨rfl, rfl⟩⟩

/-- A call on `f` that addresses a chunk of another file returns an error, and no call
    on `f` changes anything that belongs to another file. -/
structure EnforcesOwnership (s : VFS) (f : FileRef) (call : StorageCall) : Prop where
  /-- A chunk that is not the file's own is refused. -/
  refuses : ∀ c ∈ call.addresses s, c ∉ (s.entry_store.files f).chunks →
    ∃ e s', call.exec f s = .fail e s'
  /-- Whether the call succeeds or fails, other files lose nothing. -/
  spares : ∀ g, s.entry_store.committed (.file g) → g ≠ f →
    (call.exec f s).Sat (fun _ s' => Spared s s' g) (fun _ s' => Spared s s' g) (fun _ => False)

/-! ## Section 2: What freeing changes -/

/-- The chunks are free, and the records of at most two files have changed. -/
structure Freed (s s' : VFS) (f g : FileRef) (chunks : List Nat) : Prop where
  /-- The chunks are unmarked, and all other marks are kept. -/
  map_eq : ∀ c, s'.storage_man.allocation_map c =
    if c ∈ chunks then false else s.storage_man.allocation_map c
  /-- No byte of the disk is overwritten. -/
  storage_eq : s'.storage_man.storage = s.storage_man.storage
  /-- The records of all other files are kept. -/
  files_eq : ∀ k, k ≠ f → k ≠ g → s'.entry_store.files k = s.entry_store.files k

theorem Freed.refl (s : VFS) (f g : FileRef) : Freed s s f g [] where
  map_eq := fun _ => rfl
  storage_eq := rfl
  files_eq := fun _ _ _ => rfl

/-- Chunks freed by two calls, one after the other. -/
theorem Freed.trans (h : Freed s t f g chunks) (h' : Freed t u f g chunks') :
    Freed s u f g (chunks ++ chunks') where
  map_eq := by
    intro c
    rw [h'.map_eq, h.map_eq]
    by_cases hc : c ∈ chunks <;> by_cases hc' : c ∈ chunks' <;> simp [hc, hc']
  storage_eq := h'.storage_eq.trans h.storage_eq
  files_eq := fun k hf hg => (h'.files_eq k hf hg).trans (h.files_eq k hf hg)

/-- Freeing chunks touches nothing else. -/
theorem freed_freeAll (s : VFS) (f g : FileRef) (chunks : List Nat) :
    Freed s (s.freeAll chunks) f g chunks where
  map_eq := freeAll_map chunks
  storage_eq := freeAll_storage chunks
  files_eq := fun _ _ _ => rfl

theorem freed_modifyFile (s : VFS) (h : File → File) (hg : g = f ∨ g = x.file) :
    Freed s (s.modifyFile g h) f x.file [] where
  map_eq := fun _ => rfl
  storage_eq := rfl
  files_eq := by
    intro k hf hx
    have hk : k ≠ g := by
      rcases hg with rfl | rfl
      · exact hf
      · exact hx
    show Function.update s.entry_store.files g _ k = _
    exact Function.update_of_ne hk _ _

/-- Nothing of a third file has changed, nor anything of a file without freed chunks. -/
theorem Freed.spared {k : FileRef} (h : Freed s s' f g chunks) (hf : k ≠ f) (hg : k ≠ g)
    (hdisj : ∀ c ∈ chunks, c ∉ (s.entry_store.files k).chunks) : Spared s s' k := by
  refine ⟨by rw [h.files_eq k hf hg], fun c hc => ⟨?_, ?_⟩⟩
  · rw [h.map_eq, if_neg fun hin => hdisj c hin hc]
  · unfold StorageMan.chunk
    rw [h.storage_eq]

/-- Shifting extents frees nothing. -/
theorem chunk_extent_left_shift_freed (x : ExtentRef) (f : FileRef) (s : VFS) :
    (chunk_extent_left_shift x f s).Sat (fun _ s' => Freed s s' f x.file [])
      (fun _ s' => Freed s s' f x.file []) (fun _ => False) := by
  unfold chunk_extent_left_shift
  simp only [bind_run, readState_run, bind_ok, ite_run, pure_run, returnStatus_run, bind_fail,
    modifyState_run]
  split
  · exact Freed.refl s f x.file
  · split
    · exact Freed.refl s f x.file
    · split
      · exact Freed.refl s f x.file
      · exact freed_modifyFile s _ (Or.inl rfl)

/-- Freeing an extent, whosever it is. -/
theorem file_free_chunk_extent_freed (hx : (s.extentAt x).is_empty = false)
    (hdisk : ∀ c ∈ (s.extentAt x).chunks, c < CHUNKS_AMOUNT) :
    (file_free_chunk_extent f x s).Sat
      (fun _ s' => Freed s s' f x.file (s.extentAt x).chunks)
      (fun _ s' => Freed s s' f x.file (s.extentAt x).chunks) (fun _ => False) := by
  have hfree : free_chunk_extent (s.extentAt x) s = .ok () (s.freeAll (s.extentAt x).chunks) :=
    forEach_chfree_run hdisk
  simp only [file_free_chunk_extent, bind_run, readState_run, bind_ok, hx, Bool.false_eq_true,
    if_false, ite_run, hfree, modifyState_run]
  -- the records are changed after the chunks have been freed
  generalize ht : VFS.modifyFile _ f _ = t
  have hfreed : Freed s t f x.file (s.extentAt x).chunks := by
    have h₁ := freed_freeAll s f x.file (s.extentAt x).chunks
    have h₂ := h₁.trans (freed_modifyFile (x := x) (f := f) _
      (fun e => e.setExtent x.index { s.extentAt x with is_empty := true }) (Or.inr rfl))
    have h₃ := h₂.trans (freed_modifyFile (x := x) (f := f) _
      (fun e => { e with
        allocated_size := sizeSub e.allocated_size (s.extentAt x).chunk_amount }) (Or.inl rfl))
    rw [List.append_nil, List.append_nil] at h₃
    rw [← ht]
    exact h₃
  have hshift := chunk_extent_left_shift_freed x f t
  have hall : ∀ s', Freed t s' f x.file [] → Freed s s' f x.file (s.extentAt x).chunks := by
    intro s' h
    have := hfreed.trans h
    rwa [List.append_nil] at this
  exact hshift.mono (fun _ s' h => hall s' h) (fun _ s' h => hall s' h) (fun _ hF => hF)

/-- The loop of `file_truncate_chunk_extent`, whosever the extent is. -/
theorem truncate_loop_freed (x : ExtentRef) (f : FileRef) {chunks : List Nat}
    (hdisk : ∀ c ∈ chunks, c < CHUNKS_AMOUNT) (s : VFS) :
    ∃ s', (forEach chunks fun c => do
      onStorageMan (chfree c)
      modifyState fun s => s.modifyFile f fun e =>
        { e with allocated_size := sizeSub e.allocated_size 1 }
      modifyState fun s => s.setExtent x
        { s.extentAt x with
          chunk_amount := sizeSub (s.extentAt x).chunk_amount 1 } : Sys VFS Unit) s = .ok () s' ∧
      Freed s s' f x.file chunks := by
  induction chunks generalizing s with
  | nil => exact ⟨s, rfl, Freed.refl s f x.file⟩
  | cons c chunks ih =>
    have hc := hdisk c (List.mem_cons_self ..)
    have hfree : onStorageMan (chfree c) s = .ok () (s.freeAll [c]) := by
      rw [onStorageMan, zoom_run, chfree_run hc, mapState_ok]
      rfl
    rw [forEach_cons_run]
    simp only [bind_run, hfree, bind_ok, modifyState_run]
    generalize ht : VFS.setExtent _ x _ = t
    obtain ⟨s', hrun, hrest⟩ := ih (fun d hd => hdisk d (List.mem_cons_of_mem c hd)) t
    refine ⟨s', hrun, ?_⟩
    -- the first iteration frees `c`
    have hfirst : Freed s t f x.file [c] := by
      have h₁ := freed_freeAll s f x.file [c]
      have h₂ := h₁.trans (freed_modifyFile (x := x) (f := f) (s.freeAll [c])
        (fun e => { e with allocated_size := sizeSub e.allocated_size 1 }) (Or.inl rfl))
      rw [← ht]
      exact h₂.trans (freed_modifyFile _ _ (Or.inr rfl))
    exact hfirst.trans hrest

/-! ## Section 3: The calls on extents -/

/-- The chunks of an extent are chunks of its file. -/
theorem FileOk.mem_chunks_of_extent {i : Nat} {e : File} (h : FileOk e)
    (hi : i < MAX_FILE_CHUNK_EXTENTS_AMOUNT) (hne : (e.data_chunk_extents i).is_empty = false)
    (hc : c ∈ (e.data_chunk_extents i).chunks) : c ∈ e.chunks :=
  List.mem_flatMap.mpr ⟨_, List.mem_of_getElem? ((h.compact.slot_eq hi).mp hne), hc⟩

/-- An extent that is not empty has chunks. -/
theorem extent_chunks_ne_nil (h : ChunksOwned s) (hf : s.entry_store.committed (.file x.file))
    (hi : x.index < MAX_FILE_CHUNK_EXTENTS_AMOUNT) (hne : (s.extentAt x).is_empty = false) :
    (s.extentAt x).chunks ≠ [] := by
  have hok := h.file_ok _ hf
  have hpos : 1 ≤ (s.extentAt x).chunk_amount :=
    hok.amount_pos _ (List.mem_of_getElem? ((hok.compact.slot_eq hi).mp hne))
  intro hnil
  rw [← length_chunks, hnil] at hpos
  exact absurd hpos (by simp)

/-- The extent that a call passes, unless it passes a chunk. -/
def StorageCall.extent : StorageCall → Option ExtentRef
  | file_free_chunk_extent x => some x
  | file_truncate_chunk_extent x _ => some x
  | _ => none

/-- The chunks that a call addresses through an extent belong to the extent's file. -/
theorem mem_chunks_of_addresses {call : StorageCall} (h : ChunksOwned s)
    (hin : call.inStore s) (hx : call.extent = some x) (hc : c ∈ call.addresses s) :
    c ∈ (s.entry_store.files x.file).chunks := by
  -- Only the two calls that take an extent address chunks through it.
  cases call with
  | file_write_chunk c data => cases hx
  | file_read_chunk c len => cases hx
  | file_free_chunk_extent y =>
    cases hx
    simp only [StorageCall.addresses] at hc
    split at hc
    · cases hc
    · next hne =>
      exact (h.file_ok _ hin.1).mem_chunks_of_extent hin.2 (by simpa [VFS.extentAt] using hne) hc
  | file_truncate_chunk_extent y amount =>
    cases hx
    simp only [StorageCall.addresses] at hc
    split at hc
    · cases hc
    · next hne =>
      obtain ⟨hne, hle⟩ := not_or.mp hne
      have hmem := List.mem_range'_1.mp hc
      refine (h.file_ok _ hin.1).mem_chunks_of_extent hin.2 (by simpa [VFS.extentAt] using hne)
        (mem_chunks.mpr ?_)
      show (s.extentAt x).start ≤ c ∧ c < (s.extentAt x).start + (s.extentAt x).chunk_amount
      omega

/-- A call on an extent frees the chunks it addresses, without asking whose they are. -/
theorem extent_call_freed {call : StorageCall} (h : ChunksOwned s) (hin : call.inStore s)
    (hx : call.extent = some x) :
    (call.exec f s).Sat (fun _ s' => Freed s s' f x.file (call.addresses s))
      (fun _ s' => Freed s s' f x.file (call.addresses s)) (fun _ => False) := by
  have hdisk : ∀ c ∈ call.addresses s, c < CHUNKS_AMOUNT := by
    intro c hc
    have hcomm : s.entry_store.committed (.file x.file) := by
      cases call <;> cases hx <;> exact hin.1
    exact (h.file_ok _ hcomm).on_disk (mem_chunks_of_addresses h hin hx hc)
  cases call with
  | file_write_chunk c data => cases hx
  | file_read_chunk c len => cases hx
  | file_free_chunk_extent y =>
    cases hx
    simp only [StorageCall.addresses] at hdisk ⊢
    by_cases hempty : (s.extentAt x).is_empty = true
    · rw [if_pos hempty]
      simp only [StorageCall.exec, file_free_chunk_extent, bind_run, readState_run, bind_ok,
        hempty, if_true]
      exact Freed.refl s f x.file
    · rw [if_neg hempty] at hdisk ⊢
      exact file_free_chunk_extent_freed (by simpa using hempty) hdisk
  | file_truncate_chunk_extent y amount =>
    cases hx
    simp only [StorageCall.addresses] at hdisk ⊢
    simp only [StorageCall.exec, file_truncate_chunk_extent, bind_run, readState_run, bind_ok,
      ite_run]
    by_cases hempty : (s.extentAt x).is_empty = true
    · simp only [hempty, true_or, if_true, returnStatus_run, bind_fail]
      exact Freed.refl s f x.file
    by_cases hgt : amount > (s.extentAt x).chunk_amount
    · simp only [hempty, hgt, or_true, if_true, Bool.false_eq_true, if_false,
        returnStatus_run, bind_fail]
      exact Freed.refl s f x.file
    rw [if_neg (not_or.mpr ⟨hempty, hgt⟩)] at hdisk ⊢
    simp only [hempty, hgt, Bool.false_eq_true, if_false]
    by_cases hall : amount = (s.extentAt x).chunk_amount
    · -- the whole extent is freed
      have hchunks : List.range' ((s.extentAt x).start + (s.extentAt x).chunk_amount - amount)
          amount = (s.extentAt x).chunks := by
        rw [hall, Nat.add_sub_cancel]
        rfl
      rw [hchunks] at hdisk ⊢
      simp only [hall, if_true]
      exact file_free_chunk_extent_freed (by simpa using hempty) hdisk
    · obtain ⟨s', hrun, hfreed⟩ := truncate_loop_freed x f hdisk s
      simp only [hall, if_false, hrun]
      exact hfreed

/-- A call that addresses no chunks changes nothing. -/
theorem extent_call_idle {call : StorageCall} (h : ChunksOwned s) (hin : call.inStore s)
    (hx : call.extent = some x) (haddr : call.addresses s = []) :
    (call.exec f s).Sat (fun _ s' => s' = s) (fun _ s' => s' = s) (fun _ => False) := by
  cases call with
  | file_write_chunk c data => cases hx
  | file_read_chunk c len => cases hx
  | file_free_chunk_extent y =>
    cases hx
    by_cases hempty : (s.extentAt x).is_empty = true
    · simp [StorageCall.exec, file_free_chunk_extent, hempty]
    · have hne := extent_chunks_ne_nil h hin.1 hin.2 (by simpa using hempty)
      simp only [StorageCall.addresses, hempty, Bool.false_eq_true, if_false] at haddr
      exact absurd haddr hne
  | file_truncate_chunk_extent y amount =>
    cases hx
    simp only [StorageCall.exec, file_truncate_chunk_extent, bind_run, readState_run, bind_ok,
      ite_run]
    by_cases hempty : (s.extentAt x).is_empty = true
    · simp [hempty]
    by_cases hgt : amount > (s.extentAt x).chunk_amount
    · simp [hempty, hgt]
    · have hne := extent_chunks_ne_nil h hin.1 hin.2 (by simpa using hempty)
      simp only [StorageCall.addresses, hempty, hgt, or_self, Bool.false_eq_true, if_false] at haddr
      -- the loop runs over no chunks, as not all chunks of the extent are freed
      have hzero : amount = 0 := List.range'_eq_nil_iff.mp haddr
      have hpart : ¬ amount = (s.extentAt x).chunk_amount := by
        intro hall
        rw [← length_chunks, hzero] at hall
        exact hne (List.eq_nil_of_length_eq_zero hall.symm)
      simp only [hempty, hgt, hpart, Bool.false_eq_true, if_false, haddr, forEach_nil_run, sat_ok]

/-- Its chunks are foreign if and only if the call passes a foreign extent. -/
theorem passesForeign_iff {call : StorageCall} (h : ChunksOwned s) (hin : call.inStore s)
    (hx : call.extent = some x) :
    call.PassesForeign s f ↔ x.file ≠ f ∧ call.addresses s ≠ [] := by
  cases call with
  | file_write_chunk c data => cases hx
  | file_read_chunk c len => cases hx
  | file_free_chunk_extent y =>
    cases hx
    simp only [StorageCall.PassesForeign, StorageCall.addresses]
    cases hempty : (s.extentAt x).is_empty with
    | true => simp
    | false =>
      simp [extent_chunks_ne_nil h hin.1 hin.2 hempty]
  | file_truncate_chunk_extent y amount =>
    cases hx
    simp only [StorageCall.PassesForeign, StorageCall.addresses]
    cases hempty : (s.extentAt x).is_empty with
    | true => simp
    | false =>
      by_cases hgt : amount > (s.extentAt x).chunk_amount
      · simp [hgt, Nat.not_le.mpr hgt]
      · simp [hgt, Nat.le_of_not_lt hgt, Nat.pos_iff_ne_zero]

/-! ## Section 4: Which calls are safe -/

/-- A chunk that the file does not own is not accessed. -/
theorem file_write_chunk_refused (data : List Byte)
    (hext : HasExtents (s.entry_store.files f).data_chunk_extents (s.entry_store.files f).extents)
    (hown : c ∉ (s.entry_store.files f).chunks) : ∃ e, file_write_chunk f c data s = .fail e s := by
  have howns : file_owns_chunk (s.entry_store.files f) c = false := by
    simpa [← file_owns_chunk_iff hext] using hown
  by_cases hdisk : c ≥ CHUNKS_AMOUNT
  · exact ⟨.INVALID_ARGUMENT, by simp [file_write_chunk, hdisk]⟩
  · exact ⟨.CHUNK_DOES_NOT_BELONG_TO_FILE, by simp [file_write_chunk, hdisk, howns]⟩

/-- A chunk of another file is not read. -/
theorem file_read_chunk_refused (len : Nat)
    (hext : HasExtents (s.entry_store.files f).data_chunk_extents (s.entry_store.files f).extents)
    (hown : c ∉ (s.entry_store.files f).chunks) : ∃ e, file_read_chunk f c len s = .fail e s := by
  have howns : file_owns_chunk (s.entry_store.files f) c = false := by
    simpa [← file_owns_chunk_iff hext] using hown
  by_cases hdisk : c ≥ CHUNKS_AMOUNT
  · exact ⟨.INVALID_ARGUMENT, by simp [file_read_chunk, hdisk]⟩
  · exact ⟨.CHUNK_DOES_NOT_BELONG_TO_FILE, by simp [file_read_chunk, hdisk, howns]⟩

/-- A call that fails without effect keeps the promise. -/
theorem enforces_of_fail {call : StorageCall} {e : StatusCode} (h : call.exec f s = .fail e s) :
    EnforcesOwnership s f call where
  refuses := fun _ _ _ => ⟨e, s, h⟩
  spares := by
    intro g _ _
    rw [h]
    exact Spared.refl s g

/-- Writing looks the chunk up first. -/
theorem file_write_chunk_enforces (h : ChunksOwned s) (hf : s.entry_store.committed (.file f))
    (c : Nat) (data : List Byte) : EnforcesOwnership s f (.file_write_chunk c data) := by
  have hext := (h.file_ok f hf).compact
  by_cases hown : c ∈ (s.entry_store.files f).chunks
  · constructor
    case refuses =>
      intro d hd hnot
      rw [List.mem_singleton.mp hd] at hnot
      exact absurd hown hnot
    case spares =>
      intro g hg hgf
      have hdisk : ¬ c ≥ CHUNKS_AMOUNT := Nat.not_le.mpr ((h.file_ok f hf).on_disk hown)
      simp only [StorageCall.exec, file_write_chunk, bind_run, readState_run, bind_ok, ite_run,
        hdisk, (file_owns_chunk_iff hext).mpr hown, if_false, Bool.true_eq_false]
      by_cases hlong : data.length > CHUNK_SIZE
      · -- `chwrite` refuses the data
        have hfail : onStorageMan (chwrite c data) s = .fail .DATA_OVER_FLOW s := by
          simp [onStorageMan, chwrite, hlong]
        rw [hfail]
        exact Spared.refl s g
      · have hmap := h.allocated f hf c hown
        have hok : onStorageMan (chwrite c data) s =
            .ok () (s.writeAt (get_chunk_addr c) data) := by
          simp [onStorageMan, chwrite, hlong, hdisk, hmap, VFS.writeAt]
        rw [hok]
        refine ⟨rfl, fun d hd => ⟨rfl, ?_⟩⟩
        -- the bytes are written to a chunk of `f`, and `d` is none
        have hdc : d ≠ c := by
          intro rfl
          exact h.disjoint f g hf hg (Ne.symm hgf) d hown hd
        have hlen : 0 + data.length ≤ 1 * CHUNK_SIZE := by omega
        have hside : d < c ∨ c + 1 ≤ d := by omega
        exact chunk_writeBytes hlen hside
  · obtain ⟨e, he⟩ := file_write_chunk_refused data hext hown
    exact enforces_of_fail he

/-- Reading looks the chunk up first. -/
theorem file_read_chunk_enforces (h : ChunksOwned s) (hf : s.entry_store.committed (.file f))
    (c len : Nat) : EnforcesOwnership s f (.file_read_chunk c len) := by
  have hext := (h.file_ok f hf).compact
  by_cases hown : c ∈ (s.entry_store.files f).chunks
  · constructor
    case refuses =>
      intro d hd hnot
      rw [List.mem_singleton.mp hd] at hnot
      exact absurd hown hnot
    case spares =>
      intro g _ _
      have hread : ReadOnly ((StorageCall.file_read_chunk c len).exec f) :=
        (file_read_chunk_readOnly f c len).bind fun _ => ReadOnly.pure _
      refine (hread s).mono ?_ ?_ (fun _ hF => hF)
      · intro _ s' hs'
        exact hs' ▸ Spared.refl s g
      · intro _ s' hs'
        exact hs' ▸ Spared.refl s g
  · obtain ⟨e, he⟩ := file_read_chunk_refused len hext hown
    have hfail : (StorageCall.file_read_chunk c len).exec f s = .fail e s := by
      simp only [StorageCall.exec, bind_run, he, bind_fail]
    exact enforces_of_fail hfail

/-- A chunk of another file is freed through an extent: it was allocated, and then it is
    free. -/
theorem not_enforces_of_foreign {call : StorageCall} (h : ChunksOwned s) (hin : call.inStore s)
    (hx : call.extent = some x) (hcomm : s.entry_store.committed (.file x.file))
    (hne : x.file ≠ f) (haddr : call.addresses s ≠ []) : ¬ EnforcesOwnership s f call := by
  intro henf
  have hfreed := extent_call_freed (f := f) h hin hx
  have hspared := henf.spares x.file hcomm hne
  obtain ⟨c, hc⟩ := List.exists_mem_of_ne_nil _ haddr
  have hmem := mem_chunks_of_addresses h hin hx hc
  have hold := h.allocated x.file hcomm c hmem
  -- A chunk that the call addresses is freed by it, and the file that owns it would have to keep
  -- it.
  have hclash : ∀ s', Freed s s' f x.file (call.addresses s) → Spared s s' x.file → False := by
    intro s' hfr hsp
    have hnew := (hsp.2 c hmem).1
    rw [hfr.map_eq, if_pos hc, hold] at hnew
    exact absurd hnew (by decide)
  apply not_sat_false (call.exec f s)
  apply (hfreed.and hspared).mono
  · exact fun _ s' ⟨hfr, hsp⟩ => hclash s' hfr hsp
  · exact fun _ s' ⟨hfr, hsp⟩ => hclash s' hfr hsp
  · exact fun _ hF => hF.1

/-- An extent of the file itself, or one that addresses no chunks. -/
theorem extent_call_enforces {call : StorageCall} (h : ChunksOwned s)
    (hf : s.entry_store.committed (.file f)) (hin : call.inStore s)
    (hx : call.extent = some x) (hown : call.addresses s ≠ [] → x.file = f) :
    EnforcesOwnership s f call := by
  constructor
  case refuses =>
    intro c hc hcf
    have hxf : x.file = f := hown (List.ne_nil_of_mem hc)
    exact absurd (hxf ▸ mem_chunks_of_addresses h hin hx hc) hcf
  case spares =>
    intro g hg hgf
    by_cases haddr : call.addresses s = []
    · apply (extent_call_idle h hin hx haddr).mono
      · intro _ s' hs'
        exact hs' ▸ Spared.refl s g
      · intro _ s' hs'
        exact hs' ▸ Spared.refl s g
      · exact fun _ hF => hF
    · have hxf := hown haddr
      have hdisj : ∀ c ∈ call.addresses s, c ∉ (s.entry_store.files g).chunks := by
        intro c hc
        apply h.disjoint f g hf hg (Ne.symm hgf) c
        exact hxf ▸ mem_chunks_of_addresses h hin hx hc
      apply (extent_call_freed h hin hx).mono
      · exact fun _ s' hfr => hfr.spared hgf (hxf ▸ hgf) hdisj
      · exact fun _ s' hfr => hfr.spared hgf (hxf ▸ hgf) hdisj
      · exact fun _ hF => hF

/-- **Enforcement.** A call keeps the promise if and only if it does not pass an extent of
    another file. -/
theorem ownership_enforced_iff (h : DiskInvariant s) (hf : s.entry_store.committed (.file f))
    {call : StorageCall} (hin : call.inStore s) :
    EnforcesOwnership s f call ↔ ¬ call.PassesForeign s f := by
  have ho := h.ownership.toChunksOwned
  -- A call with a chunk position checks its owner; a call with an extent does not.
  cases hx : call.extent with
  | none =>
    cases call with
    | file_write_chunk c data =>
      exact ⟨fun _ hF => hF, fun _ => file_write_chunk_enforces ho hf c data⟩
    | file_read_chunk c len =>
      exact ⟨fun _ hF => hF, fun _ => file_read_chunk_enforces ho hf c len⟩
    | file_free_chunk_extent x => cases hx
    | file_truncate_chunk_extent x amount => cases hx
  | some x =>
    have hcomm : s.entry_store.committed (.file x.file) := by
      cases call <;> cases hx <;> exact hin.1
    rw [passesForeign_iff ho hin hx]
    constructor
    · intro henf ⟨hne, haddr⟩
      exact not_enforces_of_foreign ho hin hx hcomm hne haddr henf
    · intro hnot
      apply extent_call_enforces ho hf hin hx
      intro haddr
      by_contra hne
      exact hnot ⟨hne, haddr⟩

/-- A file truncates an extent of its own, with a neighbour on the disk. -/
theorem ownership_enforced_iff_run :
    ∃ s, runStore
      [.vfs_sub_file_init [97] .root, .vfs_sub_file_init [98] .root,
        .file_append 0 [1, 2, 3, 4, 5, 6, 7, 8, 9], .file_append 1 [10]] = some s ∧
      (EnforcesOwnership s 0 (.file_truncate_chunk_extent ⟨0, 0⟩ 1) ↔
        ¬ StorageCall.PassesForeign s 0 (.file_truncate_chunk_extent ⟨0, 0⟩ 1)) := by
  refine exists_of_run (Q := fun s => s.entry_store.committed (.file 0)) (by decide +kernel)
    fun s hs hf => ?_
  exact ownership_enforced_iff (diskInvariant_of_runStore hs) hf
    ⟨hf, by decide⟩

/-- A file frees the extent of another one: the call fails, but the chunk is free. -/
theorem ownership_not_enforced :
    ∃ s, runStore
      [.vfs_sub_file_init [97] .root, .vfs_sub_file_init [98] .root,
        .file_append 1 [10]] = some s ∧ DiskInvariant s ∧
      s.entry_store.committed (.file 0) ∧
      StorageCall.inStore s (.file_free_chunk_extent ⟨1, 0⟩) ∧
      status (file_free_chunk_extent 0 ⟨1, 0⟩ s) = some .INVALID_ARGUMENT ∧
      ¬ EnforcesOwnership s 0 (.file_free_chunk_extent ⟨1, 0⟩) := by
  refine exists_of_run
    (Q := fun s => s.entry_store.committed (.file 0) ∧ s.entry_store.committed (.file 1) ∧
      StorageCall.addresses s (.file_free_chunk_extent ⟨1, 0⟩) ≠ [] ∧
      status (file_free_chunk_extent 0 ⟨1, 0⟩ s) = some .INVALID_ARGUMENT)
    (by decide +kernel) ?_
  intro s hs ⟨hf, hg, haddr, hstatus⟩
  have hinv := diskInvariant_of_runStore hs
  have hin : StorageCall.inStore s (.file_free_chunk_extent ⟨1, 0⟩) := ⟨hg, by decide⟩
  refine ⟨hinv, hf, hin, hstatus, ?_⟩
  exact not_enforces_of_foreign hinv.ownership.toChunksOwned hin rfl hg (by decide) haddr

end VirtualFS
