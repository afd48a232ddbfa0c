import VirtualFS.Hierarchy.Edits
import VirtualFS.Disk.Append
import VirtualFS.Disk.Removal

/-! # Ownership of Chunks

    The allocation map, the extents of the files and the count of free chunks
    describe one partition of the disk. `Ownership` says that they agree; each
    operation on the data of one file is a `FileEffect`, which keeps it and
    leaves the chunks of the other files alone.

    * `FileOk`: the extents of one file are disjoint, not empty, and on the disk.
    * `ChunksOwned`: the chunks of files are allocated, and no two files share one.
    * `Ownership`: besides, all allocated chunks belong to files, and the counter
      of free chunks is accurate.
    * `FileEffect`: what appending, truncating and clearing have in common; from it
      the invariant and the isolation of the other files follow once.
-/

namespace VirtualFS

open Framework Prog Outcome VFSEntryStore

variable {s s' t : VFS} {f g : FileRef} {e e' : File} {l : List ChunkExtent} {c pos : Nat}

/-! ## Section 1: One file -/

/-- The extents of a file are in order: at the front of the array, not empty, disjoint, and as
    many chunks as the size says. -/
structure FileOk (e : File) : Prop where
  /-- The non-empty extents form a prefix of the array. -/
  compact : HasExtents e.data_chunk_extents e.extents
  /-- No extent in use is empty. -/
  amount_pos : ∀ x ∈ e.extents, 1 ≤ x.chunk_amount
  /-- No extent reaches past the end of the disk. -/
  in_range : ∀ x ∈ e.extents, x.start + x.chunk_amount ≤ CHUNKS_AMOUNT
  /-- The tracked size is the number of chunks in the extents. -/
  size_eq : e.allocated_size = (e.extents.map ChunkExtent.chunk_amount).sum
  /-- No two extents of the file overlap. -/
  nodup : e.chunks.Nodup

theorem length_chunksOf (l : List ChunkExtent) :
    (chunksOf l).length = (l.map ChunkExtent.chunk_amount).sum := by
  induction l with
  | nil => rfl
  | cons x l ih => simp [ih]

/-- The chunks of a file are on the disk. -/
theorem FileOk.on_disk (h : FileOk e) (hc : c ∈ e.chunks) : c < CHUNKS_AMOUNT := by
  obtain ⟨x, hx, hcx⟩ := List.mem_flatMap.mp hc
  have := h.in_range x hx
  have := (mem_chunks.mp hcx).2
  omega

/-- There are not more different chunks than the disk has. -/
theorem length_le_of_on_disk {chunks : List Nat} (hnodup : chunks.Nodup)
    (hdisk : ∀ c ∈ chunks, c < CHUNKS_AMOUNT) : chunks.length ≤ CHUNKS_AMOUNT := by
  have hsub : chunks ⊆ List.range CHUNKS_AMOUNT :=
    fun c hc => List.mem_range.mpr (hdisk c hc)
  have := (hnodup.subperm hsub).length_le
  rwa [List.length_range] at this

/-- A file has at most as many chunks as the disk. -/
theorem FileOk.length_le (h : FileOk e) : e.chunks.length ≤ CHUNKS_AMOUNT :=
  length_le_of_on_disk h.nodup fun _ hc => h.on_disk hc

/-- A file in order is stored in its extents. -/
theorem FileOk.stored (h : FileOk e) : Stored e e.extents := by
  have hsize : e.allocated_size = e.chunks.length :=
    h.size_eq.trans (length_chunksOf e.extents).symm
  refine ⟨h.compact, hsize, ?_, fun c hc => h.on_disk hc⟩
  have := h.length_le
  have := chunks_lt_size_t_range
  omega

/-- The converse, for extents that are not empty and do not share chunks. -/
theorem Stored.fileOk (h : Stored e l) (hpos : ∀ x ∈ l, 1 ≤ x.chunk_amount)
    (hnodup : (chunksOf l).Nodup) : FileOk e := by
  have hext := h.extents.extents_eq
  have hchunks : e.chunks = chunksOf l := h.extents.chunks_eq
  refine ⟨hext ▸ h.extents, hext ▸ hpos, ?_, ?_, hchunks ▸ hnodup⟩
  · intro x hx
    have hpos' := hpos x (hext ▸ hx)
    have hlast : x.start + x.chunk_amount - 1 ∈ chunksOf l :=
      List.mem_flatMap.mpr ⟨x, hext ▸ hx, mem_chunks.mpr ⟨by omega, by omega⟩⟩
    have := h.on_disk _ hlast
    omega
  · rw [hext, ← length_chunksOf]
    exact h.size_eq

/-- A blank file has no extents. -/
theorem Blank.extents_eq (h : Blank e) : HasExtents e.data_chunk_extents [] := by
  refine ⟨Nat.zero_le _, fun i hi => ?_⟩
  rw [List.getElem?_nil]
  exact extentSlot_eq_none.mpr (h.2 i hi)

theorem Blank.chunks_eq (h : Blank e) : e.chunks = [] := h.extents_eq.chunks_eq

/-- A blank file is in order. -/
theorem Blank.fileOk (h : Blank e) : FileOk e := by
  have hstored : Stored e [] := ⟨h.extents_eq, h.1, h.1 ▸ by decide, by simp⟩
  exact hstored.fileOk (by simp) (by simp)

theorem SameData.extents_eq (h : SameData e e') : e'.extents = e.extents := by
  rw [File.extents, File.extents, h.2]

/-- Files with the same data have the same chunks. -/
theorem SameData.chunks_eq (h : SameData e e') : e'.chunks = e.chunks := by
  rw [File.chunks, File.chunks, h.extents_eq]

/-- Being in order is a matter of the data only. -/
theorem SameData.fileOk (h : SameData e e') (hok : FileOk e) : FileOk e' where
  compact := by
    rw [h.extents_eq, h.2]
    exact hok.compact
  amount_pos := h.extents_eq ▸ hok.amount_pos
  in_range := h.extents_eq ▸ hok.in_range
  size_eq := by rw [h.1, h.extents_eq, hok.size_eq]
  nodup := h.chunks_eq ▸ hok.nodup

/-! ## Section 2: The invariant -/

/-- The chunks of committed files are allocated and belong to one file each. -/
structure ChunksOwned (s : VFS) : Prop where
  /-- The extents of each committed file are in order. -/
  file_ok : ∀ f, s.entry_store.committed (.file f) → FileOk (s.entry_store.files f)
  /-- What a committed file holds is marked as allocated. -/
  allocated : ∀ f, s.entry_store.committed (.file f) →
    ∀ c ∈ (s.entry_store.files f).chunks, s.storage_man.allocation_map c = true
  /-- No chunk belongs to two files. -/
  disjoint : ∀ f g, s.entry_store.committed (.file f) → s.entry_store.committed (.file g) →
    f ≠ g → ∀ c ∈ (s.entry_store.files f).chunks, c ∉ (s.entry_store.files g).chunks

/-- **Disk ownership invariant**: moreover no chunk is lost, and the free chunks are
    counted. -/
structure Ownership (s : VFS) : Prop extends ChunksOwned s where
  /-- Every allocated chunk belongs to some committed file. -/
  owned : ∀ c, c < CHUNKS_AMOUNT → s.storage_man.allocation_map c = true →
    ∃ f, s.entry_store.committed (.file f) ∧ c ∈ (s.entry_store.files f).chunks
  /-- The counter of the manager is the number of free chunks. -/
  free_count : s.storage_man.CountOk

/-- What operations on the data of `f` rely on. -/
structure OwnsChunks (s : VFS) (f : FileRef) : Prop where
  file_ok : FileOk (s.entry_store.files f)
  allocated : ∀ c ∈ (s.entry_store.files f).chunks, s.storage_man.allocation_map c = true

/-- The clauses about one file. -/
theorem ChunksOwned.ownsChunks (h : ChunksOwned s) (hf : s.entry_store.committed (.file f)) :
    OwnsChunks s f := ⟨h.file_ok f hf, h.allocated f hf⟩

/-- What an operation on the data of `f` does: other files, and the bytes of all
    allocated chunks that are not those of `f`, stay as they are. -/
structure FileEffect (s s' : VFS) (f : FileRef) : Prop where
  /-- Of the records only that of `f` is changed, and not its name or parent. -/
  record : ∃ e', s'.entry_store = s.entry_store.setFile f e' ∧
    SameHeader (s.entry_store.files f) e'
  /-- Its extents are in order again. -/
  file_ok : FileOk (s'.entry_store.files f)
  /-- New chunks of the file were free before. -/
  from_free : ∀ c ∈ (s'.entry_store.files f).chunks,
    c ∈ (s.entry_store.files f).chunks ∨ s.storage_man.allocation_map c = false
  /-- What is allocated besides the chunks of the file is as before. -/
  allocated_iff : ∀ c, s'.storage_man.allocation_map c = true ↔
    c ∈ (s'.entry_store.files f).chunks ∨
      (s.storage_man.allocation_map c = true ∧ c ∉ (s.entry_store.files f).chunks)
  /-- A counter that was right is right again. -/
  free_count : s.storage_man.CountOk → s'.storage_man.CountOk
  /-- The bytes that other files can own are untouched. -/
  chunk_eq : ∀ c, s.storage_man.allocation_map c = true →
    c ∉ (s.entry_store.files f).chunks → s'.storage_man.chunk c = s.storage_man.chunk c

/-- The other files keep their records. -/
theorem FileEffect.files_eq (h : FileEffect s s' f) (hg : g ≠ f) :
    s'.entry_store.files g = s.entry_store.files g := by
  obtain ⟨e', hes, _⟩ := h.record
  rw [hes]
  simp [hg]

theorem FileEffect.folderAt_eq (h : FileEffect s s' f) (r : FolderRef) :
    s'.entry_store.folderAt r = s.entry_store.folderAt r := by
  obtain ⟨e', hes, _⟩ := h.record
  rw [hes]
  simp

/-- No entry is created or removed. -/
theorem FileEffect.committed_eq (h : FileEffect s s' f) :
    s'.entry_store.committed = s.entry_store.committed := by
  obtain ⟨e', hes, _⟩ := h.record
  rw [hes]
  simp

/-- The folder tree does not see the data of files. -/
theorem FileEffect.parentOf_eq (h : FileEffect s s' f) :
    s'.entry_store.parentOf = s.entry_store.parentOf := by
  obtain ⟨e', hes, hheader⟩ := h.record
  have hold : s.entry_store.parentOf (.file f) = e'.parent_folder := hheader.2.symm
  rw [hes, parentOf_setFile, ← hold]
  exact Function.update_eq_self ..

theorem FileEffect.nameOf_eq (h : FileEffect s s' f) :
    s'.entry_store.nameOf = s.entry_store.nameOf := by
  obtain ⟨e', hes, hheader⟩ := h.record
  have hold : s.entry_store.nameOf (.file f) = e'.name.str := by
    rw [hheader.1]
    rfl
  rw [hes, nameOf_setFile, ← hold]
  exact Function.update_eq_self ..

theorem FileEffect.nameTerminated_eq (h : FileEffect s s' f) :
    s'.entry_store.nameTerminated = s.entry_store.nameTerminated := by
  obtain ⟨e', hes, hheader⟩ := h.record
  have hold : s.entry_store.nameTerminated (.file f) = e'.name.Terminated := by
    rw [hheader.1]
    rfl
  rw [hes, nameTerminated_setFile, ← hold]
  exact Function.update_eq_self ..

theorem FileEffect.children_eq (h : FileEffect s s' f) (r : FolderRef) :
    s'.entry_store.children r = s.entry_store.children r := by
  simp only [children, h.folderAt_eq]

/-- The tree is not touched. -/
theorem FileEffect.sameTree (h : FileEffect s s' f) : SameTree s.entry_store s'.entry_store where
  committed_iff := fun n => by rw [h.committed_eq]
  parentOf_eq := fun n _ => by rw [h.parentOf_eq]
  nameOf_eq := fun n _ => by rw [h.nameOf_eq]
  terminated_iff := fun n _ => by rw [h.nameTerminated_eq]
  is_root_eq := fun r _ => by rw [h.folderAt_eq]
  root_parent_eq := by rw [h.parentOf_eq]
  children_eq := fun r _ => h.children_eq r

/-- Chunks of another file are not taken. -/
theorem FileEffect.not_taken (h : FileEffect s s' f) (ho : ChunksOwned s)
    (hf : s.entry_store.committed (.file f)) (hg : s.entry_store.committed (.file g))
    (hgf : g ≠ f) (hc : c ∈ (s.entry_store.files g).chunks) :
    c ∉ (s'.entry_store.files f).chunks := by
  intro hcf
  -- the chunks of `f` are its old ones or were free; both are not those of `g`
  rcases h.from_free c hcf with hold | hmap
  · exact ho.disjoint g f hg hf hgf c hc hold
  · rw [ho.allocated g hg c hc] at hmap
    cases hmap

/-- An operation on one file keeps the chunks of all files owned and apart. -/
theorem ChunksOwned.fileEffect (ho : ChunksOwned s) (hf : s.entry_store.committed (.file f))
    (h : FileEffect s s' f) : ChunksOwned s' := by
  have hcomm := h.committed_eq
  constructor
  case file_ok =>
    intro g hg
    by_cases hgf : g = f
    · exact hgf ▸ h.file_ok
    · rw [h.files_eq hgf]
      exact ho.file_ok g (hcomm ▸ hg)
  case allocated =>
    intro g hg c hc
    rw [h.allocated_iff]
    by_cases hgf : g = f
    · exact Or.inl (hgf ▸ hc)
    · rw [h.files_eq hgf] at hc
      rw [hcomm] at hg
      exact Or.inr ⟨ho.allocated g hg c hc, ho.disjoint g f hg hf hgf c hc⟩
  case disjoint =>
    intro g k hg hk hgk c hcg hck
    rw [hcomm] at hg hk
    -- `f` has taken no chunk of another file, whichever of the two it is
    by_cases hgf : g = f
    · subst hgf
      rw [h.files_eq (Ne.symm hgk)] at hck
      exact h.not_taken ho hf hk (Ne.symm hgk) hck hcg
    · rw [h.files_eq hgf] at hcg
      by_cases hkf : k = f
      · subst hkf
        exact h.not_taken ho hf hg hgf hcg hck
      · rw [h.files_eq hkf] at hck
        exact ho.disjoint g k hg hk hgk c hcg hck

/-- **Effects on one file keep the ownership invariant.** -/
theorem Ownership.fileEffect (ho : Ownership s) (hf : s.entry_store.committed (.file f))
    (h : FileEffect s s' f) : Ownership s' where
  toChunksOwned := ho.toChunksOwned.fileEffect hf h
  owned := by
    intro c hc hmap
    rw [h.committed_eq]
    -- an allocated chunk belongs to `f` now, or it is one of the old ones of other files
    rcases (h.allocated_iff c).mp hmap with hcf | ⟨hold, hnot⟩
    · exact ⟨f, hf, hcf⟩
    · obtain ⟨g, hg, hcg⟩ := ho.owned c hc hold
      have hgf : g ≠ f := by
        intro rfl
        exact hnot hcg
      exact ⟨g, hg, by rwa [h.files_eq hgf]⟩
  free_count := h.free_count ho.free_count

/-! ## Section 3: The effects of the operations -/

/-- The new chunks come after the old ones. -/
theorem HasExtents.addExtent_chunks (h : HasExtents e.data_chunk_extents l)
    (hlt : l.length < MAX_FILE_CHUNK_EXTENTS_AMOUNT) (pos amount : Nat) :
    (e.addExtent pos amount).chunks = e.chunks ++ List.range' pos amount := by
  rw [(h.addExtent hlt pos amount).chunks_eq, h.chunks_eq]
  simp [ChunkExtent.chunks]

/-- The bytes of the chunks that were allocated before stay. -/
theorem appended_chunk_eq {data : List Byte}
    (hrun : FreeRun s.storage_man.allocation_map pos (get_chunks_amount data.length))
    (hc : s.storage_man.allocation_map c = true) :
    (s.appended f pos data).storage_man.chunk c = s.storage_man.chunk c := by
  -- an allocated chunk lies outside the run
  have hout : c < pos ∨ pos + get_chunks_amount data.length ≤ c := by
    by_contra hin
    have := hrun.2 c (by omega) (by omega)
    rw [hc] at this
    cases this
  have hlen : 0 + (padded data).length ≤ get_chunks_amount data.length * CHUNK_SIZE := by
    rw [length_padded, Nat.zero_add]
  exact chunk_writeBytes hlen hout

/-- The chunks of a run were free, so none of them is an old one. -/
theorem OwnsChunks.nodup_append {amount : Nat} (h : OwnsChunks s f)
    (hrun : FreeRun s.storage_man.allocation_map pos amount) :
    ((s.entry_store.files f).chunks ++ List.range' pos amount).Nodup := by
  rw [List.nodup_append]
  refine ⟨h.file_ok.nodup, List.nodup_range', ?_⟩
  intro c hc d hd rfl
  obtain ⟨h₁, h₂⟩ := List.mem_range'_1.mp hd
  have hfree := hrun.2 c h₁ h₂
  rw [h.allocated c hc] at hfree
  cases hfree

/-- The chunks of the file and those of a free run are on the disk. -/
theorem OwnsChunks.on_disk_append {amount : Nat} (h : OwnsChunks s f)
    (hrun : FreeRun s.storage_man.allocation_map pos amount)
    (hc : c ∈ (s.entry_store.files f).chunks ++ List.range' pos amount) : c < CHUNKS_AMOUNT := by
  rcases List.mem_append.mp hc with hc | hc
  · exact h.file_ok.on_disk hc
  · have := (List.mem_range'_1.mp hc).2
    have := hrun.1
    omega

/-- They are no more than the disk has, since they are different. -/
theorem OwnsChunks.length_append_le {amount : Nat} (h : OwnsChunks s f)
    (hrun : FreeRun s.storage_man.allocation_map pos amount) :
    ((s.entry_store.files f).chunks ++ List.range' pos amount).length ≤ CHUNKS_AMOUNT :=
  length_le_of_on_disk (h.nodup_append hrun) fun _ hc => h.on_disk_append hrun hc

/-- Different chunks of the disk: the size does not overflow. -/
theorem OwnsChunks.size_addExtent {amount : Nat} (h : OwnsChunks s f)
    (hrun : FreeRun s.storage_man.allocation_map pos amount) :
    ((s.entry_store.files f).addExtent pos amount).allocated_size =
      ((s.entry_store.files f).chunks ++ List.range' pos amount).length := by
  have hlength := h.length_append_le hrun
  rw [List.length_append, List.length_range'] at hlength ⊢
  have hold := h.file_ok.stored.size_eq
  change _ = (s.entry_store.files f).chunks.length at hold
  have hadd : ((s.entry_store.files f).addExtent pos amount).allocated_size =
      sizeAdd (s.entry_store.files f).allocated_size amount := rfl
  have := chunks_lt_size_t_range
  rw [hadd, sizeAdd_of_lt (by omega), hold]

/-- Append adds chunks that were free. -/
theorem appended_effect {data : List Byte} (h : OwnsChunks s f)
    (hlt : (s.entry_store.files f).extents.length < MAX_FILE_CHUNK_EXTENTS_AMOUNT)
    (hpos : 0 < get_chunks_amount data.length)
    (hrun : FreeRun s.storage_man.allocation_map pos (get_chunks_amount data.length)) :
    FileEffect s (s.appended f pos data) f := by
  generalize hamount : get_chunks_amount data.length = amount at *
  have hnodup := h.nodup_append hrun
  have hsize := h.size_addExtent hrun
  have hext := h.file_ok.compact.addExtent hlt pos amount
  generalize he' : (s.entry_store.files f).addExtent pos amount = e' at hext hsize
  have hchunks : e'.chunks =
      (s.entry_store.files f).chunks ++ List.range' pos amount := by
    rw [← he']
    exact h.file_ok.compact.addExtent_chunks hlt pos amount
  have hfile : (s.appended f pos data).entry_store.files f = e' := by
    simp [VFS.appended, hamount, he']
  rw [← hchunks] at hnodup hsize
  constructor
  case record =>
    refine ⟨e', ?_, ?_⟩
    · simp only [VFS.appended, hamount, he']
      rfl
    · rw [← he']
      exact ⟨rfl, rfl⟩
  case file_ok =>
    rw [hfile]
    -- the record is in order by what holds of its chunks
    have hst : Stored e' ((s.entry_store.files f).extents ++ [⟨false, pos, amount⟩]) := by
      refine ⟨hext, ?_, ?_, ?_⟩
      · rw [hsize, hext.chunks_eq]
        rfl
      · have hlength := h.length_append_le hrun
        have := chunks_lt_size_t_range
        rw [hsize, hchunks]
        omega
      · intro c hc
        apply h.on_disk_append hrun
        rwa [← hchunks, hext.chunks_eq]
    refine hst.fileOk ?_ ?_
    · intro x hx
      rcases List.mem_append.mp hx with hx | hx
      · exact h.file_ok.amount_pos x hx
      · rw [List.mem_singleton.mp hx]
        exact hpos
    · have := hext.chunks_eq ▸ hnodup
      exact this
  case from_free =>
    rw [hfile, hchunks]
    intro c hc
    rcases List.mem_append.mp hc with hc | hc
    · exact Or.inl hc
    · obtain ⟨h₁, h₂⟩ := List.mem_range'_1.mp hc
      exact Or.inr (hrun.2 c h₁ h₂)
  case allocated_iff =>
    intro c
    rw [hfile, hchunks]
    have hmap : (s.appended f pos data).storage_man.allocation_map c =
        (decide (pos ≤ c ∧ c < pos + amount) || s.storage_man.allocation_map c) := by
      simp [VFS.appended, hamount]
    rw [hmap, Bool.or_eq_true, decide_eq_true_eq, List.mem_append, List.mem_range'_1]
    constructor
    · rintro (hin | hold)
      · exact Or.inl (Or.inr hin)
      · by_cases hc : c ∈ (s.entry_store.files f).chunks
        · exact Or.inl (Or.inl hc)
        · exact Or.inr ⟨hold, hc⟩
    · rintro ((hc | hin) | ⟨hold, _⟩)
      · exact Or.inr (h.allocated c hc)
      · exact Or.inl hin
      · exact Or.inr hold
  case free_count =>
    intro hcount
    have := hcount.allocate hrun
    simp only [VFS.appended, hamount]
    exact this
  case chunk_eq =>
    intro c hc _
    rw [← hamount] at hrun
    exact appended_chunk_eq hrun hc

/-- Freeing some of the chunks of a file, and writing to a chunk that it keeps. -/
theorem freed_effect {rest freed : List Nat} {addr : Nat} {bytes : List Byte}
    (h : OwnsChunks s f) (hheader : SameHeader (s.entry_store.files f) e')
    (hok : FileOk e') (hsplit : (s.entry_store.files f).chunks = e'.chunks ++ rest)
    (hperm : freed.Perm rest)
    (hbytes : bytes = [] ∨ ∃ c ∈ e'.chunks, get_chunk_addr c ≤ addr ∧
      addr + bytes.length ≤ get_chunk_addr c + CHUNK_SIZE) :
    FileEffect s (((s.putFile f e').freeAll freed).writeAt addr bytes) f := by
  have hfile : (((s.putFile f e').freeAll freed).writeAt addr bytes).entry_store.files f = e' := by
    simp
  -- no chunk is both kept and freed
  have hnodup := h.file_ok.nodup
  rw [hsplit, List.nodup_append] at hnodup
  obtain ⟨_, hnodup_rest, hdisj⟩ := hnodup
  constructor
  case record => exact ⟨e', rfl, hheader⟩
  case file_ok => rwa [hfile]
  case from_free =>
    rw [hfile, hsplit]
    exact fun c hc => Or.inl (List.mem_append_left _ hc)
  case allocated_iff =>
    intro c
    have hmap : (((s.putFile f e').freeAll freed).writeAt addr bytes).storage_man.allocation_map c =
        if c ∈ freed then false else s.storage_man.allocation_map c := freeAll_map freed c
    rw [hfile, hmap, hsplit, List.mem_append]
    -- freed, kept, or a chunk of another file
    by_cases hrest : c ∈ rest
    · rw [if_pos (hperm.mem_iff.mpr hrest)]
      have hnot : c ∉ e'.chunks := fun hc => hdisj c hc c hrest rfl
      simp [hrest, hnot]
    · rw [if_neg fun hc => hrest (hperm.mem_iff.mp hc)]
      by_cases hc : c ∈ e'.chunks
      · have := h.allocated c (hsplit ▸ List.mem_append_left _ hc)
        simp [hc, this]
      · simp [hc, hrest]
  case free_count =>
    intro hcount
    have : (s.storage_man.freeAll freed).CountOk := by
      apply hcount.freeAll (hperm.nodup_iff.mpr hnodup_rest)
      intro c hc
      have hmem : c ∈ (s.entry_store.files f).chunks :=
        hsplit ▸ List.mem_append_right _ (hperm.mem_iff.mp hc)
      exact ⟨h.file_ok.on_disk hmem, h.allocated c hmem⟩
    exact this
  case chunk_eq =>
    intro c _ hc
    apply chunk_congr
    intro i hi
    have hst : ((s.putFile f e').freeAll freed).storage_man.storage = s.storage_man.storage :=
      freeAll_storage freed
    simp only [VFS.writeAt, hst]
    apply writeBytes_of_outside
    rcases hbytes with rfl | ⟨d, hd, h₁, h₂⟩
    · simp only [List.length_nil]
      omega
    · -- the bytes are written to a chunk of `f`, and `c` is none
      have hcd : c ≠ d := by
        intro rfl
        exact hc (hsplit ▸ List.mem_append_left _ hd)
      simp only [get_chunk_addr, CHUNK_SIZE] at *
      omega

/-- Append is an operation on one file, or nothing. -/
theorem file_append_effect (h : OwnsChunks s f) (data : List Byte) :
    (file_append f data s).Sat (fun _ s' => FileEffect s s' f) (fun _ s' => s' = s)
      (fun _ => False) := by
  rcases file_append_cases h.file_ok.compact data with ⟨err, hfail⟩ | ⟨hlt, hpos, pos, hrun, hok⟩
  · rw [hfail s (SameMeta.refl s), sat_fail]
  · rw [hok s (SameMeta.refl s), sat_ok]
    exact appended_effect h hlt hpos hrun

/-- So is truncation, if something is left of the file. -/
theorem file_truncate_by_effect {amount : Nat} (h : OwnsChunks s f)
    (hamount : amount < (s.entry_store.files f).allocated_size * CHUNK_SIZE) :
    ∃ s', file_truncate_by f amount s = .ok () s' ∧ FileEffect s s' f := by
  obtain ⟨e', l', rest, freed, c, hrun, hheader, hstored, hsplit, _, hperm, hpos, hlast⟩ :=
    file_truncate_by_run h.file_ok.stored hamount
  have hchunks : e'.chunks = chunksOf l' := hstored.extents.chunks_eq
  have hnodup : (chunksOf l').Nodup := by
    have := h.file_ok.nodup
    change (chunksOf (s.entry_store.files f).extents).Nodup at this
    rw [hsplit, List.nodup_append] at this
    exact this.1
  -- bytes are written to the last chunk that is kept
  have hmod : amount % CHUNK_SIZE < CHUNK_SIZE := Nat.mod_lt _ (by decide)
  have hend : get_chunk_addr c + (CHUNK_SIZE - amount % CHUNK_SIZE) +
      (List.replicate (amount % CHUNK_SIZE) EOC_OPERATOR).length ≤
        get_chunk_addr c + CHUNK_SIZE := by
    rw [List.length_replicate]
    omega
  have hc : c ∈ e'.chunks := hchunks ▸ List.mem_of_getLast? hlast
  refine ⟨_, hrun, freed_effect h hheader (hstored.fileOk (hpos h.file_ok.amount_pos) hnodup)
    ?_ hperm (Or.inr ⟨c, hc, Nat.le_add_right _ _, hend⟩)⟩
  rw [hchunks]
  exact hsplit

/-- Clearing always succeeds, and no bytes are written. -/
theorem file_delete_data_effect (h : OwnsChunks s f) :
    ∃ s', file_delete_data f s = .ok () s' ∧ FileEffect s s' f ∧
      (s'.entry_store.files f).chunks = [] ∧
      s'.storage_man.storage = s.storage_man.storage := by
  obtain ⟨e', hrun, hheader, hstored⟩ := file_delete_data_run h.file_ok.stored
  have hchunks : e'.chunks = [] := hstored.extents.chunks_eq
  have heffect : FileEffect s
      (((s.putFile f e').freeAll (s.entry_store.files f).chunks).writeAt 0 []) f :=
    freed_effect h hheader (hstored.fileOk (by simp) (by simp)) (by rw [hchunks]; rfl)
      (List.Perm.refl _) (Or.inl rfl)
  rw [writeAt_nil] at heffect
  refine ⟨_, hrun, heffect, ?_, freeAll_storage _⟩
  simpa using hchunks

end VirtualFS
