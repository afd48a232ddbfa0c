import Mathlib.Algebra.BigOperators.Group.List.Basic
import VirtualFS.Disk.Ownership

/-! # Ownership by Positions

    The disk ownership invariant as a reader of `files.h` would state it: by
    positions in the extent arrays of the committed files.

    * `FileInvariant`: the clauses about one file.
    * `DiskInvariant`: the clauses about the disk. Two positions that hold one
      chunk are the same position of the same file.
    * `Ownership.diskInvariant`, `DiskInvariant.ownership`: the invariant by
      positions and the one by lists of chunks are the same.
-/

namespace VirtualFS

open Framework VFSEntryStore

variable {s : VFS} {e : File} {f g : FileRef} {c i j : Nat}

/-! ## Section 1: Extents of one file -/

/-- Chunk `c` lies in the non-empty extent at position `i`. -/
def File.HoldsAt (e : File) (i c : Nat) : Prop :=
  i < MAX_FILE_CHUNK_EXTENTS_AMOUNT ∧ (e.data_chunk_extents i).is_empty = false ∧
    (e.data_chunk_extents i).start ≤ c ∧
    c < (e.data_chunk_extents i).start + (e.data_chunk_extents i).chunk_amount

/-- The extent at a position of a compact array. -/
theorem HasExtents.slot_eq (h : HasExtents e.data_chunk_extents e.extents)
    (hi : i < MAX_FILE_CHUNK_EXTENTS_AMOUNT) :
    (e.data_chunk_extents i).is_empty = false ↔
      e.extents[i]? = some (e.data_chunk_extents i) := by
  rw [← h.2 i hi, extentSlot_eq_some]
  exact ⟨fun he => ⟨rfl, he⟩, fun he => he.2⟩

/-- Holding a chunk at a position of the array is holding it in the extent of the list there. -/
theorem HasExtents.holdsAt_iff (h : HasExtents e.data_chunk_extents e.extents) :
    e.HoldsAt i c ↔ ∃ x, e.extents[i]? = some x ∧ c ∈ x.chunks := by
  constructor
  · intro ⟨hi, he, hc⟩
    exact ⟨_, (h.slot_eq hi).mp he, mem_chunks.mpr hc⟩
  · intro ⟨x, hx, hc⟩
    have hi := h.lt_max hx
    obtain ⟨heq, he⟩ := h.extent_eq hx
    subst heq
    exact ⟨hi, he, mem_chunks.mp hc⟩

/-- The chunks of a file are those held at some position. -/
theorem HasExtents.mem_chunks_iff (h : HasExtents e.data_chunk_extents e.extents) :
    c ∈ e.chunks ↔ ∃ i, e.HoldsAt i c := by
  unfold File.chunks
  rw [List.mem_flatMap]
  constructor
  · intro ⟨x, hx, hc⟩
    obtain ⟨i, hi⟩ := List.getElem?_of_mem hx
    exact ⟨i, h.holdsAt_iff.mpr ⟨x, hi, hc⟩⟩
  · intro ⟨i, hi⟩
    obtain ⟨x, hx, hc⟩ := h.holdsAt_iff.mp hi
    exact ⟨x, List.mem_of_getElem? hx, hc⟩

/-- Two extents of one file have no chunk in common. -/
theorem FileOk.holdsAt_unique (h : FileOk e) (hi : e.HoldsAt i c) (hj : e.HoldsAt j c) :
    i = j := by
  obtain ⟨x, hx, hcx⟩ := h.compact.holdsAt_iff.mp hi
  obtain ⟨y, hy, hcy⟩ := h.compact.holdsAt_iff.mp hj
  exact flatMap_index_unique h.nodup hx hy hcx hcy

/-- The chunk amounts added up over the array. -/
theorem sum_by_position (e : File) :
    (e.extents.map ChunkExtent.chunk_amount).sum =
      ((List.range MAX_FILE_CHUNK_EXTENTS_AMOUNT).map fun i =>
        if (e.data_chunk_extents i).is_empty then 0
        else (e.data_chunk_extents i).chunk_amount).sum := by
  unfold File.extents
  rw [sum_occupants]
  congr 1
  apply List.map_congr_left
  intro i _
  unfold extentSlot
  split <;> rfl

/-- What the disk ownership invariant says of one file. -/
structure FileInvariant (e : File) : Prop where
  /-- Extents in use stand in front of the empty ones. -/
  compact : ∀ i j, i ≤ j → j < MAX_FILE_CHUNK_EXTENTS_AMOUNT →
    (e.data_chunk_extents j).is_empty = false → (e.data_chunk_extents i).is_empty = false
  /-- They have chunks and do not reach past the end of the disk. -/
  extent_bounds : ∀ i, i < MAX_FILE_CHUNK_EXTENTS_AMOUNT →
    (e.data_chunk_extents i).is_empty = false →
    1 ≤ (e.data_chunk_extents i).chunk_amount ∧
      (e.data_chunk_extents i).start + (e.data_chunk_extents i).chunk_amount ≤ CHUNKS_AMOUNT
  /-- Their lengths add up to the tracked size. -/
  size_eq : e.allocated_size =
    ((List.range MAX_FILE_CHUNK_EXTENTS_AMOUNT).map fun i =>
      if (e.data_chunk_extents i).is_empty then 0
      else (e.data_chunk_extents i).chunk_amount).sum
  /-- A chunk is in one extent at most. -/
  disjoint : ∀ i j c, e.HoldsAt i c → e.HoldsAt j c → i = j

/-- By the clause on empty slots the array is compact. -/
theorem FileInvariant.hasExtents (h : FileInvariant e) :
    HasExtents e.data_chunk_extents e.extents := by
  apply hasExtents_of_compact
  intro i hi hvacant
  rw [extentSlot_eq_none] at hvacant ⊢
  by_contra hne
  have := h.compact i (i + 1) (Nat.le_succ i) hi (by simpa using hne)
  rw [hvacant] at this
  cases this

/-- The invariant by positions gives the one by lists. -/
theorem FileInvariant.fileOk (h : FileInvariant e) : FileOk e := by
  have hext := h.hasExtents
  have hbounds : ∀ x ∈ e.extents, 1 ≤ x.chunk_amount ∧
      x.start + x.chunk_amount ≤ CHUNKS_AMOUNT := by
    intro x hx
    obtain ⟨i, hi⟩ := List.getElem?_of_mem hx
    obtain ⟨heq, hne⟩ := hext.extent_eq hi
    subst heq
    exact h.extent_bounds i (hext.lt_max hi) hne
  constructor
  case compact => exact hext
  case amount_pos => exact fun x hx => (hbounds x hx).1
  case in_range => exact fun x hx => (hbounds x hx).2
  case size_eq => exact h.size_eq.trans (sum_by_position _).symm
  case nodup =>
    -- each extent lists its chunks once, and two extents have none in common
    apply List.nodup_flatMap.mpr
    refine ⟨fun x _ => List.nodup_range', List.pairwise_iff_getElem.mpr ?_⟩
    intro i j hi hj hij c hci hcj
    have hat : ∀ k (hk : k < e.extents.length), c ∈ (e.extents[k]).chunks → e.HoldsAt k c :=
      fun k hk hc => hext.holdsAt_iff.mpr ⟨_, List.getElem?_eq_getElem hk, hc⟩
    have := h.disjoint i j c (hat i hi hci) (hat j hj hcj)
    omega

/-- Extents in order are in order position by position. -/
theorem FileOk.fileInvariant (h : FileOk e) : FileInvariant e where
  compact := by
    intro i j hij hj hne
    by_contra he
    -- behind an empty position there are only empty ones
    have hvacant : extentSlot e.data_chunk_extents i = none := by
      simpa [extentSlot_eq_none] using he
    have := h.compact.compact.vacant_of_le hij hj hvacant
    rw [extentSlot_eq_none, hne] at this
    cases this
  extent_bounds := by
    intro i hi hne
    have hmem := List.mem_of_getElem? ((h.compact.slot_eq hi).mp hne)
    exact ⟨h.amount_pos _ hmem, h.in_range _ hmem⟩
  size_eq := h.size_eq.trans (sum_by_position _)
  disjoint := fun _ _ _ hi hj => h.holdsAt_unique hi hj

/-! ## Section 2: The invariant by positions -/

/-- **Disk ownership invariant** by positions. -/
structure DiskInvariant (s : VFS) : Prop where
  /-- Extents in use stand in front of the empty ones. -/
  compact : ∀ f, s.entry_store.committed (.file f) → ∀ i j, i ≤ j →
    j < MAX_FILE_CHUNK_EXTENTS_AMOUNT →
    ((s.entry_store.files f).data_chunk_extents j).is_empty = false →
    ((s.entry_store.files f).data_chunk_extents i).is_empty = false
  /-- They have chunks and do not reach past the end of the disk. -/
  extent_bounds : ∀ f, s.entry_store.committed (.file f) →
    ∀ i, i < MAX_FILE_CHUNK_EXTENTS_AMOUNT →
    ((s.entry_store.files f).data_chunk_extents i).is_empty = false →
    1 ≤ ((s.entry_store.files f).data_chunk_extents i).chunk_amount ∧
      ((s.entry_store.files f).data_chunk_extents i).start +
        ((s.entry_store.files f).data_chunk_extents i).chunk_amount ≤ CHUNKS_AMOUNT
  /-- Their lengths add up to the tracked size of the file. -/
  size_eq : ∀ f, s.entry_store.committed (.file f) →
    (s.entry_store.files f).allocated_size =
      ((List.range MAX_FILE_CHUNK_EXTENTS_AMOUNT).map fun i =>
        if ((s.entry_store.files f).data_chunk_extents i).is_empty then 0
        else ((s.entry_store.files f).data_chunk_extents i).chunk_amount).sum
  /-- A chunk is in one extent of one committed file at most. -/
  disjoint : ∀ f g i j c, s.entry_store.committed (.file f) →
    s.entry_store.committed (.file g) → (s.entry_store.files f).HoldsAt i c →
    (s.entry_store.files g).HoldsAt j c → f = g ∧ i = j
  /-- The marked chunks are exactly those that committed files hold. -/
  allocated_iff : ∀ c, c < CHUNKS_AMOUNT → (s.storage_man.allocation_map c = true ↔
    ∃ f i, s.entry_store.committed (.file f) ∧ (s.entry_store.files f).HoldsAt i c)
  /-- The counter of the manager is the number of unmarked chunks. -/
  free_count : s.storage_man.free_chunk_count =
    ((Finset.range CHUNKS_AMOUNT).filter fun c => s.storage_man.allocation_map c = false).card

/-- The disk ownership invariant, read by positions. -/
theorem Ownership.diskInvariant (h : Ownership s) : DiskInvariant s where
  compact := fun f hf => (h.file_ok f hf).fileInvariant.compact
  extent_bounds := fun f hf => (h.file_ok f hf).fileInvariant.extent_bounds
  size_eq := fun f hf => (h.file_ok f hf).fileInvariant.size_eq
  disjoint := by
    intro f g i j c hf hg hi hj
    -- within one file by `nodup`, between two files by `disjoint`
    by_cases hfg : f = g
    · subst hfg
      exact ⟨rfl, (h.file_ok f hf).holdsAt_unique hi hj⟩
    · exact absurd ((h.file_ok g hg).compact.mem_chunks_iff.mpr ⟨j, hj⟩)
        (h.disjoint f g hf hg hfg c ((h.file_ok f hf).compact.mem_chunks_iff.mpr ⟨i, hi⟩))
  allocated_iff := by
    intro c hc
    constructor
    · intro hmap
      obtain ⟨f, hf, hcf⟩ := h.owned c hc hmap
      obtain ⟨i, hi⟩ := (h.file_ok f hf).compact.mem_chunks_iff.mp hcf
      exact ⟨f, i, hf, hi⟩
    · intro ⟨f, i, hf, hi⟩
      exact h.allocated f hf c ((h.file_ok f hf).compact.mem_chunks_iff.mpr ⟨i, hi⟩)
  free_count := h.free_count

/-! ## Section 3: From positions to lists -/

/-- Its clauses about one file. -/
theorem DiskInvariant.fileInvariant (h : DiskInvariant s)
    (hf : s.entry_store.committed (.file f)) : FileInvariant (s.entry_store.files f) where
  compact := h.compact f hf
  extent_bounds := h.extent_bounds f hf
  size_eq := h.size_eq f hf
  disjoint := fun i j c hi hj => (h.disjoint f f i j c hf hf hi hj).2

theorem DiskInvariant.hasExtents (h : DiskInvariant s) (hf : s.entry_store.committed (.file f)) :
    HasExtents (s.entry_store.files f).data_chunk_extents (s.entry_store.files f).extents :=
  (h.fileInvariant hf).hasExtents

theorem DiskInvariant.fileOk (h : DiskInvariant s) (hf : s.entry_store.committed (.file f)) :
    FileOk (s.entry_store.files f) := (h.fileInvariant hf).fileOk

/-- The invariant by positions says as much as the one by lists. -/
theorem DiskInvariant.ownership (h : DiskInvariant s) : Ownership s where
  file_ok := fun _ hf => h.fileOk hf
  allocated := by
    intro f hf c hc
    obtain ⟨i, hi⟩ := (h.hasExtents hf).mem_chunks_iff.mp hc
    exact (h.allocated_iff c ((h.fileOk hf).on_disk hc)).mpr ⟨f, i, hf, hi⟩
  disjoint := by
    intro f g hf hg hfg c hcf hcg
    obtain ⟨i, hi⟩ := (h.hasExtents hf).mem_chunks_iff.mp hcf
    obtain ⟨j, hj⟩ := (h.hasExtents hg).mem_chunks_iff.mp hcg
    exact hfg (h.disjoint f g i j c hf hg hi hj).1
  owned := by
    intro c hc hmap
    obtain ⟨f, i, hf, hi⟩ := (h.allocated_iff c hc).mp hmap
    exact ⟨f, hf, (h.hasExtents hf).mem_chunks_iff.mpr ⟨i, hi⟩⟩
  free_count := h.free_count

end VirtualFS
