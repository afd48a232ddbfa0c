import Mathlib.Data.List.GetD
import Mathlib.Order.Interval.Finset.Nat
import VirtualFS.System.FileStorage

/-! # Chunk Allocation

    What the storage manager computes: first fit returns a run of free chunks,
    the count of free chunks stays accurate, and writing to one chunk leaves
    the bytes of the others.

    * `FreeRun`: a run of free chunks on the disk.
    * `challoc_cases`: the scan either finds the first one or there is none.
    * `StorageMan.CountOk`: the counter is the number of free chunks; allocating a
      free run and freeing allocated chunks keep it.
    * `chunk_writeBytes`: what a write inside a chunk does to all chunks.
-/

namespace VirtualFS

open Framework Prog Outcome

variable {sm sm' : StorageMan} {s : VFS} {c pos amount : Nat}

/-! ## Section 1: First fit -/

/-- The chunks `pos, ..., pos + amount - 1` are on the disk and free. -/
def FreeRun (map : Nat → Bool) (pos amount : Nat) : Prop :=
  pos + amount ≤ CHUNKS_AMOUNT ∧ ∀ c, pos ≤ c → c < pos + amount → map c = false

/-- The entries from `cur_pos` up to `i` are the current run of free ones. -/
theorem challoc_loop_sound {map : Nat → Bool} (amount n i cur_pos count : Nat)
    (hcount : count < amount) (hrun : cur_pos + count = i)
    (hfree : ∀ c, cur_pos ≤ c → c < i → map c = false)
    (h : challoc_loop map amount n i cur_pos count = some pos) :
    pos + amount ≤ i + n ∧ ∀ c, pos ≤ c → c < pos + amount → map c = false := by
  induction n generalizing i cur_pos count with
  | zero => cases h
  | succ n ih =>
    unfold challoc_loop at h
    split at h
    · -- an allocated entry: the next run starts behind it
      obtain ⟨hle, hall⟩ := ih (i + 1) (i + 1) 0 (by omega) (by omega)
        (fun c h₁ h₂ => by omega) h
      exact ⟨by omega, hall⟩
    · next hi =>
      -- a free entry makes the current run one longer
      have hfree' : ∀ c, cur_pos ≤ c → c < i + 1 → map c = false := by
        intro c h₁ h₂
        -- the run is long enough
        by_cases hc : c = i
        · subst hc
          simpa using hi
        · exact hfree c h₁ (by omega)
      split at h
      · cases h
        exact ⟨by omega, fun c h₁ h₂ => hfree' c h₁ (by omega)⟩
      · obtain ⟨hle, hall⟩ := ih (i + 1) cur_pos (count + 1) (by omega) (by omega)
          hfree' h
        exact ⟨by omega, hall⟩

/-- The loop finds a run if there is one, and none that starts earlier. -/
theorem challoc_loop_complete {map : Nat → Bool} (amount n i cur_pos count : Nat)
    (hcount : count < amount) (hcur : cur_pos + count = i) (hle : cur_pos ≤ pos)
    (hend : pos + amount ≤ i + n) (hrun : ∀ c, pos ≤ c → c < pos + amount → map c = false) :
    ∃ pos', pos' ≤ pos ∧ challoc_loop map amount n i cur_pos count = some pos' := by
  induction n generalizing i cur_pos count with
  | zero => omega
  | succ n ih =>
    unfold challoc_loop
    split
    · next hi =>
      -- the run starts behind an allocated entry
      have hbehind : i + 1 ≤ pos := by
        by_contra hle'
        have := hrun i (by omega) (by omega)
        rw [hi] at this
        cases this
      exact ih (i + 1) (i + 1) 0 (by omega) rfl hbehind (by omega)
    · split
      · exact ⟨cur_pos, hle, rfl⟩
      · exact ih (i + 1) cur_pos (count + 1) (by omega) (by omega) hle (by omega)

/-- What a successful `challoc` does to the manager. -/
def StorageMan.allocate (sm : StorageMan) (pos amount : Nat) : StorageMan :=
  { sm with
    allocation_map := mark_as_allocated sm.allocation_map pos amount
    free_chunk_count := sizeSub sm.free_chunk_count amount }

/-- `challoc` allocates a run of free chunks or fails without effect; the outcome
    depends on the allocation map only. -/
theorem challoc_cases (map : Nat → Bool) (amount : Nat) :
    (∃ e, ∀ sm : StorageMan, sm.allocation_map = map → challoc amount sm = .fail e sm) ∨
      ∃ pos, 0 < amount ∧ FreeRun map pos amount ∧
        ∀ sm : StorageMan, sm.allocation_map = map →
          challoc amount sm = .ok pos (sm.allocate pos amount) := by
  by_cases hamount : amount = 0 ∨ amount > CHUNKS_AMOUNT
  · exact Or.inl ⟨.INVALID_ARGUMENT, fun sm _ => by simp [challoc, hamount]⟩
  · cases hloop : challoc_loop map amount CHUNKS_AMOUNT 0 0 0 with
    | none =>
      refine Or.inl ⟨.NO_SPACE, ?_⟩
      intro sm rfl
      simp [challoc, hamount, hloop]
    | some pos =>
      -- the run that is found starts with an empty one
      have hsound := challoc_loop_sound amount CHUNKS_AMOUNT 0 0 0 (by omega) rfl
        (fun c h₁ h₂ => absurd h₂ (Nat.not_lt_zero c)) hloop
      rw [Nat.zero_add] at hsound
      refine Or.inr ⟨pos, by omega, hsound, ?_⟩
      intro sm rfl
      simp [challoc, hamount, hloop, StorageMan.allocate]

/-- **Completeness**: a run of free chunks is found, at the first position possible. -/
theorem challoc_finds (hpos : 0 < amount) (hrun : FreeRun sm.allocation_map pos amount) :
    ∃ pos', pos' ≤ pos ∧ FreeRun sm.allocation_map pos' amount ∧
      challoc amount sm = .ok pos' (sm.allocate pos' amount) := by
  obtain ⟨pos', hle, hloop⟩ := challoc_loop_complete amount CHUNKS_AMOUNT 0 0 0 hpos rfl
    (Nat.zero_le pos) (by rw [Nat.zero_add]; exact hrun.1) hrun.2
  have hbound := hrun.1
  have hamount : ¬ (amount = 0 ∨ amount > CHUNKS_AMOUNT) := by omega
  have hok : challoc amount sm = .ok pos' (sm.allocate pos' amount) := by
    simp [challoc, hamount, hloop, StorageMan.allocate]
  refine ⟨pos', hle, ?_, hok⟩
  rcases challoc_cases sm.allocation_map amount with ⟨e, hfail⟩ | ⟨p, _, hrun', hok'⟩
  · rw [hfail sm rfl] at hok
    cases hok
  · rw [hok' sm rfl] at hok
    cases hok
    exact hrun'

/-! ## Section 2: Counting free chunks -/

/-- The free chunks of the disk. -/
def freeChunks (map : Nat → Bool) : Finset Nat :=
  (Finset.range CHUNKS_AMOUNT).filter fun c => map c = false

theorem mem_freeChunks {map : Nat → Bool} :
    c ∈ freeChunks map ↔ c < CHUNKS_AMOUNT ∧ map c = false := by
  simp [freeChunks]

/-- There are at most as many free chunks as chunks. -/
theorem card_freeChunks_le (map : Nat → Bool) : (freeChunks map).card ≤ CHUNKS_AMOUNT := by
  have := Finset.card_filter_le (Finset.range CHUNKS_AMOUNT) fun c => map c = false
  rwa [Finset.card_range] at this

/-- `free_chunk_count` is accurate. -/
def StorageMan.CountOk (sm : StorageMan) : Prop :=
  sm.free_chunk_count = (freeChunks sm.allocation_map).card

/-- An accurate counter is in range. -/
theorem StorageMan.CountOk.le (h : sm.CountOk) : sm.free_chunk_count ≤ CHUNKS_AMOUNT :=
  h ▸ card_freeChunks_le _

theorem chunks_lt_size_t_range : CHUNKS_AMOUNT + 1 < SIZE_T_RANGE := by decide

@[simp] theorem allocate_map (sm : StorageMan) (pos amount c : Nat) :
    (sm.allocate pos amount).allocation_map c =
      (decide (pos ≤ c ∧ c < pos + amount) || sm.allocation_map c) := by
  simp only [StorageMan.allocate, mark_as_allocated]
  split
  · next h => simp [h]
  · next h => simp [h]

/-- A run of free chunks is counted. -/
theorem FreeRun.subset {map : Nat → Bool} (hrun : FreeRun map pos amount) :
    Finset.Ico pos (pos + amount) ⊆ freeChunks map := by
  intro c hc
  obtain ⟨h₁, h₂⟩ := Finset.mem_Ico.mp hc
  exact mem_freeChunks.mpr ⟨Nat.lt_of_lt_of_le h₂ hrun.1, hrun.2 c h₁ h₂⟩

/-- A free run is at most as long as the counter says. -/
theorem StorageMan.CountOk.amount_le (h : sm.CountOk)
    (hrun : FreeRun sm.allocation_map pos amount) : amount ≤ sm.free_chunk_count := by
  have hcard : (Finset.Ico pos (pos + amount)).card = amount := by simp
  rw [h, ← hcard]
  exact Finset.card_le_card hrun.subset

/-- Allocating a free run keeps the counter accurate; it does not wrap. -/
theorem StorageMan.CountOk.allocate (h : sm.CountOk)
    (hrun : FreeRun sm.allocation_map pos amount) : (sm.allocate pos amount).CountOk := by
  have heq : freeChunks (sm.allocate pos amount).allocation_map =
      freeChunks sm.allocation_map \ Finset.Ico pos (pos + amount) := by
    ext c
    simp only [mem_freeChunks, allocate_map, Finset.mem_sdiff, Finset.mem_Ico,
      Bool.or_eq_false_iff, decide_eq_false_iff_not]
    exact ⟨fun ⟨h₁, h₂, h₃⟩ => ⟨⟨h₁, h₃⟩, h₂⟩, fun ⟨⟨h₁, h₃⟩, h₂⟩ => ⟨h₁, h₂, h₃⟩⟩
  have hcard : (Finset.Ico pos (pos + amount)).card = amount := by simp
  -- the allocated chunks are among the free ones, so the subtraction does not wrap
  unfold StorageMan.CountOk
  rw [heq, Finset.card_sdiff_of_subset hrun.subset, hcard, ← h]
  apply sizeSub_of_le (h.amount_le hrun)
  have := h.le
  have := chunks_lt_size_t_range
  omega

theorem free_map (sm : StorageMan) (c d : Nat) :
    (sm.free c).allocation_map d = if d = c then false else sm.allocation_map d := by
  simp [StorageMan.free, Function.update_apply]

/-- Freeing an allocated chunk keeps the counter accurate. -/
theorem StorageMan.CountOk.free (h : sm.CountOk) (hc : c < CHUNKS_AMOUNT)
    (hmap : sm.allocation_map c = true) : (sm.free c).CountOk := by
  have hnot : c ∉ freeChunks sm.allocation_map := by
    simp [mem_freeChunks, hmap]
  have heq : freeChunks (sm.free c).allocation_map = insert c (freeChunks sm.allocation_map) := by
    ext d
    by_cases hd : d = c
    · subst hd
      simp [mem_freeChunks, free_map, hc]
    · simp [mem_freeChunks, free_map, hd]
  -- nor does the addition: the chunk was not counted before
  unfold StorageMan.CountOk
  rw [heq, Finset.card_insert_of_notMem hnot, ← h]
  apply sizeAdd_of_lt
  have := h.le
  have := chunks_lt_size_t_range
  omega

/-! ### The constructor -/

section init

variable {storage : Nat → Byte} {storage_size allocation_map_size : Nat}
  {allocation_map : Nat → Bool} {memory : StorageMan}

/-- Arrays that are large enough are accepted. -/
theorem storage_man_init_accepts (hsize : CHUNK_SIZE * CHUNKS_AMOUNT ≤ storage_size)
    (hmap : CHUNKS_AMOUNT ≤ allocation_map_size) :
    ∃ sm, storage_man_init storage storage_size allocation_map allocation_map_size memory =
      .ok () sm := by
  simp only [storage_man_init, Nat.not_lt.mpr hsize, Nat.not_lt.mpr hmap, if_false,
    modifyState_run]
  exact ⟨_, rfl⟩

/-- The manager after a successful start-up. -/
theorem storage_man_init_ok
    (h : storage_man_init storage storage_size allocation_map allocation_map_size memory =
      .ok () sm) :
    sm.allocation_map = allocation_map_init allocation_map ∧
      sm.free_chunk_count = storage_size / CHUNK_SIZE := by
  by_cases hsize : storage_size < CHUNK_SIZE * CHUNKS_AMOUNT
  · simp [storage_man_init, hsize] at h
  by_cases hmap : allocation_map_size < CHUNKS_AMOUNT
  · simp [storage_man_init, hsize, hmap] at h
  simp only [storage_man_init, hsize, hmap, if_false, modifyState_run, ok.injEq, true_and] at h
  subst h
  exact ⟨rfl, rfl⟩

/-- All chunks are free after start-up. -/
theorem none_allocated_of_init
    (h : storage_man_init storage storage_size allocation_map allocation_map_size memory =
      .ok () sm) (hc : c < CHUNKS_AMOUNT) : sm.allocation_map c = false := by
  rw [(storage_man_init_ok h).1]
  exact if_pos hc

/-- The constructor counts the chunks of the storage it is given. -/
theorem countOk_of_init
    (h : storage_man_init storage storage_size allocation_map allocation_map_size memory =
      .ok () sm) : sm.CountOk ↔ storage_size / CHUNK_SIZE = CHUNKS_AMOUNT := by
  have hall : freeChunks sm.allocation_map = Finset.range CHUNKS_AMOUNT :=
    Finset.filter_true_of_mem fun c hc => none_allocated_of_init h (Finset.mem_range.mp hc)
  unfold StorageMan.CountOk
  rw [hall, Finset.card_range, (storage_man_init_ok h).2]

end init

/-! ## Section 3: Freeing several chunks -/

/-- The manager after `chfree` for each chunk of the list. -/
def StorageMan.freeAll (sm : StorageMan) (chunks : List Nat) : StorageMan :=
  chunks.foldl StorageMan.free sm

@[simp] theorem freeAll_nil : sm.freeAll [] = sm := rfl

@[simp] theorem freeAll_cons (chunks : List Nat) :
    sm.freeAll (c :: chunks) = (sm.free c).freeAll chunks := rfl

theorem freeAll_append (chunks chunks' : List Nat) :
    sm.freeAll (chunks ++ chunks') = (sm.freeAll chunks).freeAll chunks' :=
  List.foldl_append

@[simp] theorem freeAll_storage (chunks : List Nat) :
    (sm.freeAll chunks).storage = sm.storage := by
  induction chunks generalizing sm with
  | nil => rfl
  | cons c chunks ih => rw [freeAll_cons, ih]; rfl

/-- Exactly the given chunks have become free. -/
theorem freeAll_map (chunks : List Nat) (d : Nat) :
    (sm.freeAll chunks).allocation_map d =
      if d ∈ chunks then false else sm.allocation_map d := by
  induction chunks generalizing sm with
  | nil => simp
  | cons c chunks ih =>
    rw [freeAll_cons, ih, free_map]
    by_cases hd : d = c <;> by_cases hm : d ∈ chunks <;> simp [hd, hm]

/-- Freeing different allocated chunks keeps the counter accurate. -/
theorem StorageMan.CountOk.freeAll {chunks : List Nat} (h : sm.CountOk)
    (hnodup : chunks.Nodup)
    (hall : ∀ c ∈ chunks, c < CHUNKS_AMOUNT ∧ sm.allocation_map c = true) :
    (sm.freeAll chunks).CountOk := by
  -- A chunk is allocated when its turn comes, because no chunk is freed twice.
  induction chunks generalizing sm with
  | nil => exact h
  | cons c chunks ih =>
    obtain ⟨hnot, hnodup⟩ := List.nodup_cons.mp hnodup
    obtain ⟨hc, hmap⟩ := hall c (List.mem_cons_self ..)
    apply ih (h.free hc hmap) hnodup
    intro d hd
    obtain ⟨hd', hmap'⟩ := hall d (List.mem_cons_of_mem c hd)
    have hdc : d ≠ c := by
      intro rfl
      exact hnot hd
    exact ⟨hd', by rw [free_map, if_neg hdc, hmap']⟩

/-- Every chunk that is freed is counted. -/
theorem StorageMan.CountOk.freeAll_count {chunks : List Nat} (h : sm.CountOk)
    (hnodup : chunks.Nodup)
    (hall : ∀ c ∈ chunks, c < CHUNKS_AMOUNT ∧ sm.allocation_map c = true) :
    (sm.freeAll chunks).free_chunk_count = sm.free_chunk_count + chunks.length := by
  have hcard := h.freeAll hnodup hall
  have heq : freeChunks (sm.freeAll chunks).allocation_map =
      freeChunks sm.allocation_map ∪ chunks.toFinset := by
    ext c
    simp only [mem_freeChunks, freeAll_map, Finset.mem_union, List.mem_toFinset]
    by_cases hc : c ∈ chunks
    · simp [hc, (hall c hc).1]
    · simp [hc]
  -- the new free chunks were allocated, so none of them is counted already
  have hdisj : Disjoint (freeChunks sm.allocation_map) chunks.toFinset := by
    rw [Finset.disjoint_left]
    intro c hfree hc
    rw [mem_freeChunks, (hall c (List.mem_toFinset.mp hc)).2] at hfree
    cases hfree.2
  rw [hcard, heq, Finset.card_union_of_disjoint hdisj, List.toFinset_card_of_nodup hnodup, ← h]

/-- The state with the chunks freed. -/
def VFS.freeAll (s : VFS) (chunks : List Nat) : VFS :=
  { s with storage_man := s.storage_man.freeAll chunks }

theorem chfree_run (hc : c < CHUNKS_AMOUNT) : chfree c sm = .ok () (sm.free c) := by
  simp [chfree, Nat.not_le.mpr hc]

/-- A loop that frees the chunks of a list in order. -/
theorem forEach_chfree_run {chunks : List Nat} (hall : ∀ c ∈ chunks, c < CHUNKS_AMOUNT) :
    forEach chunks (fun c => onStorageMan (chfree c)) s = .ok () (s.freeAll chunks) := by
  induction chunks generalizing s with
  | nil => rfl
  | cons c chunks ih =>
    have hc := hall c (List.mem_cons_self ..)
    rw [forEach_cons_run, onStorageMan, zoom_run, chfree_run hc, mapState_ok, bind_ok,
      ih fun d hd => hall d (List.mem_cons_of_mem c hd)]
    rfl

/-! ## Section 4: Bytes of chunks -/

/-- Data written behind data already written. -/
theorem writeBytes_append (storage : Nat → Byte) (addr : Nat) (data data' : List Byte) :
    writeBytes (writeBytes storage addr data) (addr + data.length) data' =
      writeBytes storage addr (data ++ data') := by
  funext a
  simp only [writeBytes]
  -- before the first piece, in it, or in the second one
  by_cases h₁ : addr ≤ a
  · by_cases h₂ : addr + data.length ≤ a
    · have h₃ : data.length ≤ a - addr := by omega
      have h₄ : a - addr - data.length = a - (addr + data.length) := by omega
      rw [if_pos h₂, if_pos h₁, if_pos h₁, List.getD_append_right _ _ _ _ h₃, h₄,
        List.getD_eq_default _ _ h₃]
    · have h₃ : a - addr < data.length := by omega
      rw [if_neg h₂, if_pos h₁, if_pos h₁, List.getD_append _ _ _ _ h₃]
  · have h₂ : ¬ addr + data.length ≤ a := by omega
    simp [h₁, h₂]

/-- Bytes outside the written range stay. -/
theorem writeBytes_of_outside {storage : Nat → Byte} {addr a : Nat} {data : List Byte}
    (h : a < addr ∨ addr + data.length ≤ a) : writeBytes storage addr data a = storage a := by
  unfold writeBytes
  rcases h with h | h
  · rw [if_neg (by omega)]
  · rw [if_pos (by omega), List.getD_eq_default _ _ (by omega)]

/-- Bytes inside the written range do not depend on the old ones. -/
theorem writeBytes_of_inside {storage storage' : Nat → Byte} {addr a : Nat}
    {data : List Byte} (h₁ : addr ≤ a) (h₂ : a < addr + data.length) :
    writeBytes storage addr data a = writeBytes storage' addr data a := by
  unfold writeBytes
  have h : a - addr < data.length := by omega
  rw [if_pos h₁, if_pos h₁, List.getD_eq_getElem _ _ h, List.getD_eq_getElem _ _ h]

/-- A chunk is what its bytes are. -/
theorem chunk_congr (h : ∀ i, i < CHUNK_SIZE →
    sm'.storage (get_chunk_addr c + i) = sm.storage (get_chunk_addr c + i)) :
    sm'.chunk c = sm.chunk c :=
  List.map_congr_left fun i hi => h i (List.mem_range.mp hi)

/-- Writing to the chunks from `pos` on leaves the bytes of the others. -/
theorem chunk_writeBytes {off : Nat} {data : List Byte}
    (hoff : off + data.length ≤ amount * CHUNK_SIZE) (hc : c < pos ∨ pos + amount ≤ c) :
    (({ sm with storage := writeBytes sm.storage (get_chunk_addr pos + off) data } :
      StorageMan).chunk c) = sm.chunk c := by
  refine chunk_congr fun i hi => writeBytes_of_outside ?_
  simp only [get_chunk_addr, CHUNK_SIZE] at *
  omega

theorem chread_readOnly (c len : Nat) : ReadOnly (chread c len) := by
  unfold chread
  dsimp only
  apply ReadOnly.guard
  apply ReadOnly.guard
  apply ReadOnly.readState.bind
  intro sm
  apply ReadOnly.guard
  exact ReadOnly.pure _

end VirtualFS
