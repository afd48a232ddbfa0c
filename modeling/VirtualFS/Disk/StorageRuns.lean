import VirtualFS.Disk.Allocation

/-! # Runs of the Storage Manager

    The storage manager on its own, from any arguments that its constructor
    accepts and under any sequence of calls. It checks the allocation map
    before a chunk is read or written, but not before a chunk is freed or
    truncated, and it counts free chunks by what it is told to free.

    * `StorageOp`: the calls with all their arguments.
    * `RespectsAllocation`: what the layer promises for one call.
    * `allocation_respected_iff`: the runs that keep the promise at every call.
-/

namespace VirtualFS

open Framework Prog Outcome

variable {sm sm' : StorageMan} {op : StorageOp} {ops : List StorageOp} {c d amount addr : Nat}
  {data : List Byte}

/-! ## Section 1: Calls and runs -/

/-- The calls of `storage.h`, with their arguments. -/
inductive StorageOp where
  | challoc (amount : Nat)
  | chfree (chunk_pos : Nat)
  | chwrite (chunk_pos : Nat) (data : List Byte)
  | chread (chunk_index data_array_length : Nat)
  | chtrunc (chunk_index amount : Nat)

/-- What a call hands back besides its status. -/
inductive StorageResult where
  | done
  | first_chunk_index (pos : Nat)
  | bytes (data : List Byte)

namespace StorageOp

/-- The function that a call runs. -/
def exec : StorageOp → Sys StorageMan StorageResult
  | challoc amount => do
    let pos ← VirtualFS.challoc amount
    return .first_chunk_index pos
  | chfree c => do
    VirtualFS.chfree c
    return .done
  | chwrite c data => do
    VirtualFS.chwrite c data
    return .done
  | chread c len => do
    let data ← VirtualFS.chread c len
    return .bytes data
  | chtrunc c amount => do
    VirtualFS.chtrunc c amount
    return .done

/-- Only allocated chunks are freed and truncated. -/
def Disciplined (sm : StorageMan) : StorageOp → Prop
  | chfree c => c < CHUNKS_AMOUNT → sm.allocation_map c = true
  | chtrunc c amount =>
    c < CHUNKS_AMOUNT → 0 < amount → amount ≤ CHUNK_SIZE → sm.allocation_map c = true
  | _ => True

instance (sm : StorageMan) : DecidablePred (Disciplined sm)
  | challoc _ => inferInstanceAs (Decidable True)
  | chfree _ => inferInstanceAs (Decidable (_ → _))
  | chwrite _ _ => inferInstanceAs (Decidable True)
  | chread _ _ => inferInstanceAs (Decidable True)
  | chtrunc _ _ => inferInstanceAs (Decidable (_ → _))

end StorageOp

/-- Other bytes in one chunk. -/
def StorageMan.withChunk (sm : StorageMan) (c : Nat) (bytes : Nat → Byte) : StorageMan :=
  { sm with
    storage := fun a =>
      if get_chunk_addr c ≤ a ∧ a < get_chunk_addr c + CHUNK_SIZE then bytes a
      else sm.storage a }

/-- The call neither reads nor changes the bytes of the chunk: whatever they are, it does
    the same, and they are there afterwards. -/
def LeavesChunk (sm : StorageMan) (op : StorageOp) (c : Nat) : Prop :=
  ∀ bytes, op.exec (sm.withChunk c bytes) = (op.exec sm).mapState fun t => t.withChunk c bytes

/-- What is promised for one call, besides the count. -/
structure RespectsAllocation (sm : StorageMan) (op : StorageOp) : Prop where
  /-- Chunks that are handed out were free. -/
  fresh : ∀ amount, op = .challoc amount → ∀ pos sm', challoc amount sm = .ok pos sm' →
    FreeRun sm.allocation_map pos amount
  /-- Free chunks are not accessed. -/
  leaves : ∀ c, c < CHUNKS_AMOUNT → sm.allocation_map c = false → LeavesChunk sm op c

/-- The promise is kept at every call of a run, and the count is accurate before and after
    every call. -/
def RespectedAlong : List StorageOp → StorageMan → Prop
  | [], sm => sm.CountOk
  | op :: ops, sm =>
    sm.CountOk ∧ RespectsAllocation sm op ∧
      (op.exec sm).Sat (fun _ => RespectedAlong ops) (fun _ => RespectedAlong ops)
        (fun _ => False)

/-- Every call of a run is disciplined. -/
def DisciplinedAlong : List StorageOp → StorageMan → Prop
  | [], _ => True
  | op :: ops, sm =>
    op.Disciplined sm ∧
      (op.exec sm).Sat (fun _ => DisciplinedAlong ops) (fun _ => DisciplinedAlong ops)
        (fun _ => False)

/-! ## Section 2: The bytes of one chunk -/

@[simp] theorem withChunk_map (bytes : Nat → Byte) :
    (sm.withChunk c bytes).allocation_map = sm.allocation_map := rfl

/-- Replacing the bytes of one chunk leaves the others. -/
theorem withChunk_chunk_ne (hd : d ≠ c) (bytes : Nat → Byte) :
    (sm.withChunk c bytes).chunk d = sm.chunk d := by
  refine chunk_congr fun i hi => if_neg ?_
  simp only [get_chunk_addr, CHUNK_SIZE] at *
  omega

/-- Bytes that are written to another chunk. -/
theorem withChunk_writeBytes (sm : StorageMan) (hd : d ≠ c) (haddr : get_chunk_addr d ≤ addr)
    (hend : addr + data.length ≤ get_chunk_addr d + CHUNK_SIZE) (bytes : Nat → Byte) :
    { sm.withChunk c bytes with
      storage := writeBytes (sm.withChunk c bytes).storage addr data } =
      ({ sm with storage := writeBytes sm.storage addr data } : StorageMan).withChunk c bytes := by
  have hstorage : ∀ a, writeBytes (sm.withChunk c bytes).storage addr data a =
      if get_chunk_addr c ≤ a ∧ a < get_chunk_addr c + CHUNK_SIZE then bytes a
      else writeBytes sm.storage addr data a := by
    intro a
    by_cases hin : addr ≤ a ∧ a < addr + data.length
    · -- an address in chunk `d` is not one in chunk `c`
      have hout : ¬ (get_chunk_addr c ≤ a ∧ a < get_chunk_addr c + CHUNK_SIZE) := by
        simp only [get_chunk_addr, CHUNK_SIZE] at *
        omega
      rw [if_neg hout]
      exact writeBytes_of_inside hin.1 hin.2
    · have hout : a < addr ∨ addr + data.length ≤ a := by omega
      rw [writeBytes_of_outside hout, writeBytes_of_outside hout]
      rfl
  unfold StorageMan.withChunk at *
  simp only [StorageMan.mk.injEq, and_true, and_self]
  exact funext hstorage

/-! ## Section 3: Disciplined calls -/

/-- A free chunk and an allocated one are different. -/
theorem ne_of_map (hc : sm.allocation_map c = false) (hd : sm.allocation_map d = true) : d ≠ c := by
  intro rfl
  rw [hc] at hd
  cases hd

/-- Allocation does not look at bytes. -/
theorem challoc_leaves (amount : Nat) : LeavesChunk sm (.challoc amount) c := by
  intro bytes
  rcases challoc_cases sm.allocation_map amount with ⟨e, hfail⟩ | ⟨pos, _, _, hok⟩
  · simp only [StorageOp.exec, bind_run, hfail sm rfl, hfail (sm.withChunk c bytes) rfl,
      bind_fail, mapState_fail]
  · simp only [StorageOp.exec, bind_run, hok sm rfl, hok (sm.withChunk c bytes) rfl, bind_ok,
      pure_run, mapState_ok]
    rfl

/-- Nor does freeing. -/
theorem chfree_leaves (d : Nat) : LeavesChunk sm (.chfree d) c := by
  intro bytes
  by_cases hd : d ≥ CHUNKS_AMOUNT
  · simp [StorageOp.exec, chfree, hd]
  · simp only [StorageOp.exec, chfree, hd, if_false, bind_run, modifyState_run, bind_ok, pure_run,
      mapState_ok]
    rfl

/-- Writing needs an allocated chunk, so a free one keeps its bytes. -/
theorem chwrite_leaves (hc : sm.allocation_map c = false) (d : Nat) (data : List Byte) :
    LeavesChunk sm (.chwrite d data) c := by
  intro bytes
  unfold StorageOp.exec chwrite
  by_cases hlen : data.length > CHUNK_SIZE
  · simp [hlen]
  by_cases hd : d ≥ CHUNKS_AMOUNT
  · simp [hlen, hd]
  by_cases hmap : sm.allocation_map d = false
  · simp [hlen, hd, hmap]
  · have hne := ne_of_map hc (by simpa using hmap)
    have hbytes := withChunk_writeBytes sm hne (Nat.le_refl _)
      (show get_chunk_addr d + data.length ≤ _ by omega) bytes
    simp only [hlen, hd, hmap, if_false, bind_run, readState_run, bind_ok, pure_run,
      withChunk_map]
    exact congrArg _ hbytes

/-- Reading needs an allocated chunk, so a free one is not seen. -/
theorem chread_leaves (hc : sm.allocation_map c = false) (d len : Nat) :
    LeavesChunk sm (.chread d len) c := by
  intro bytes
  unfold StorageOp.exec chread
  by_cases hlen : len < CHUNK_SIZE
  · simp [hlen]
  by_cases hd : d ≥ CHUNKS_AMOUNT
  · simp [hlen, hd]
  by_cases hmap : sm.allocation_map d = false
  · simp [hlen, hd, hmap]
  · have hne := ne_of_map hc (by simpa using hmap)
    simp [hlen, hd, hmap, withChunk_chunk_ne hne]

/-- Truncation does not check; it leaves a free chunk alone if it is called for an allocated one.
    -/
theorem chtrunc_leaves (hc : sm.allocation_map c = false)
    (hop : (StorageOp.chtrunc d amount).Disciplined sm) : LeavesChunk sm (.chtrunc d amount) c := by
  intro bytes
  unfold StorageOp.exec chtrunc
  by_cases hd : d ≥ CHUNKS_AMOUNT
  · simp [hd]
  by_cases hlen : amount > CHUNK_SIZE
  · simp [hd, hlen]
  by_cases hzero : amount = 0
  · simp [hd, hzero]
  · -- The chunk written is allocated, so it is not the free chunk `c`.
    have hmap := hop (Nat.lt_of_not_le hd) (Nat.pos_of_ne_zero hzero) (Nat.le_of_not_lt hlen)
    have hend : get_chunk_addr d + (CHUNK_SIZE - amount) +
        (List.replicate amount EOC_OPERATOR).length ≤ get_chunk_addr d + CHUNK_SIZE := by
      rw [List.length_replicate]
      omega
    have hbytes := withChunk_writeBytes sm (ne_of_map hc hmap) (Nat.le_add_right ..) hend bytes
    simp only [hd, hlen, hzero, if_false, bind_run, bind_ok, modifyState_run, pure_run, mapState_ok]
    exact congrArg _ hbytes

theorem leaves_of_disciplined (hop : op.Disciplined sm) (hc : sm.allocation_map c = false) :
    LeavesChunk sm op c := by
  cases op with
  | challoc amount => exact challoc_leaves amount
  | chfree d => exact chfree_leaves d
  | chwrite d data => exact chwrite_leaves hc d data
  | chread d len => exact chread_leaves hc d len
  | chtrunc d amount => exact chtrunc_leaves hc hop

theorem challoc_fresh {pos : Nat} (hok : challoc amount sm = .ok pos sm') :
    FreeRun sm.allocation_map pos amount := by
  rcases challoc_cases sm.allocation_map amount with ⟨e, hfail⟩ | ⟨p, _, hrun, hok'⟩
  · rw [hfail sm rfl] at hok
    cases hok
  · rw [hok' sm rfl] at hok
    cases hok
    exact hrun

theorem respects_of_disciplined (hop : op.Disciplined sm) : RespectsAllocation sm op where
  fresh := fun _ _ _ _ hok => challoc_fresh hok
  leaves := fun _ _ hc => leaves_of_disciplined hop hc

/-- The count is accurate after the call. -/
def CountsRight {α : Type} (o : Outcome StatusCode Fault StorageMan α) : Prop :=
  o.Sat (fun _ => StorageMan.CountOk) (fun _ => StorageMan.CountOk) (fun _ => False)

theorem challoc_count (h : sm.CountOk) (amount : Nat) : CountsRight (challoc amount sm) := by
  rcases challoc_cases sm.allocation_map amount with ⟨e, hfail⟩ | ⟨pos, _, hrun, hok⟩
  · rw [hfail sm rfl]
    exact h
  · rw [hok sm rfl]
    exact h.allocate hrun

theorem chfree_count (h : sm.CountOk) (hop : (StorageOp.chfree d).Disciplined sm) :
    CountsRight (chfree d sm) := by
  by_cases hd : d < CHUNKS_AMOUNT
  · rw [chfree_run hd]
    exact h.free hd (hop hd)
  · simp only [chfree, Nat.le_of_not_lt hd, if_true, bind_run, returnStatus_run,
      bind_fail]
    exact h

/-- Writing leaves the map and the count alone. -/
theorem chwrite_count (h : sm.CountOk) (d : Nat) (data : List Byte) :
    CountsRight (chwrite d data sm) := by
  simp only [chwrite, bind_run, ite_run, readState_run, bind_ok, returnStatus_run, bind_fail,
    modifyState_run]
  split
  · exact h
  · split
    · exact h
    · split
      · exact h
      · exact h

theorem chtrunc_count (h : sm.CountOk) (d amount : Nat) : CountsRight (chtrunc d amount sm) := by
  simp only [chtrunc, bind_run, ite_run, returnStatus_run, bind_fail, modifyState_run]
  split
  · exact h
  · split
    · exact h
    · split
      · exact h
      · exact h

theorem exec_count (hop : op.Disciplined sm) (h : sm.CountOk) : CountsRight (op.exec sm) := by
  cases op with
  | challoc amount => exact (challoc_count h amount).bind fun _ _ h' => h'
  | chfree d => exact (chfree_count h hop).bind fun _ _ h' => h'
  | chwrite d data => exact (chwrite_count h d data).bind fun _ _ h' => h'
  | chread d len =>
    apply Sat.bind (R := fun _ => StorageMan.CountOk)
    · refine (chread_readOnly d len sm).mono ?_ ?_ (fun _ hF => hF)
      · exact fun _ _ hs => hs ▸ h
      · exact fun _ _ hs => hs ▸ h
    · exact fun _ _ h' => h'
  | chtrunc d amount => exact (chtrunc_count h d amount).bind fun _ _ h' => h'

/-! ## Section 4: Undisciplined calls -/

/-- The count goes wrong when a free chunk is freed. -/
theorem not_countOk_free (h : sm.CountOk) (hmap : sm.allocation_map c = false) :
    ¬ (sm.free c).CountOk := by
  intro hfree
  -- the map is the same, and the count is one more
  have hsame : (sm.free c).allocation_map = sm.allocation_map := by
    funext d
    rw [free_map]
    split
    · next hd => rw [hd, hmap]
    · rfl
  have hle := h.le
  have hrange := chunks_lt_size_t_range
  have hcount : (sm.free c).free_chunk_count = sm.free_chunk_count + 1 :=
    sizeAdd_of_lt (by omega)
  unfold StorageMan.CountOk at h hfree
  rw [hsame, hcount] at hfree
  omega

/-- A free chunk is written to when it is truncated. -/
theorem not_leaves_chtrunc (hc : c < CHUNKS_AMOUNT) (hpos : 0 < amount)
    (hle : amount ≤ CHUNK_SIZE) : ¬ LeavesChunk sm (.chtrunc c amount) c := by
  intro h
  have hrun := h fun _ => 0
  have hd : ¬ c ≥ CHUNKS_AMOUNT := Nat.not_le.mpr hc
  have hlen : ¬ amount > CHUNK_SIZE := Nat.not_lt.mpr hle
  simp only [StorageOp.exec, chtrunc, hd, hlen, Nat.pos_iff_ne_zero.mp hpos, if_false, bind_run,
    bind_ok, modifyState_run, pure_run, mapState_ok, ok.injEq, true_and] at hrun
  -- the last byte of the chunk is overwritten
  have hbyte := congrFun (congrArg StorageMan.storage hrun) (get_chunk_addr c + (CHUNK_SIZE - 1))
  have hin : get_chunk_addr c ≤ get_chunk_addr c + (CHUNK_SIZE - 1) ∧
      get_chunk_addr c + (CHUNK_SIZE - 1) < get_chunk_addr c + CHUNK_SIZE := by
    simp only [CHUNK_SIZE]
    omega
  have hstart : get_chunk_addr c + (CHUNK_SIZE - amount) ≤ get_chunk_addr c + (CHUNK_SIZE - 1) := by
    omega
  have hlast : get_chunk_addr c + (CHUNK_SIZE - 1) - (get_chunk_addr c + (CHUNK_SIZE - amount)) <
      (List.replicate amount EOC_OPERATOR).length := by
    rw [List.length_replicate]
    omega
  simp only [StorageMan.withChunk, if_pos hin, writeBytes, if_pos hstart,
    List.getD_eq_getElem _ _ hlast, List.getElem_replicate] at hbyte
  cases hbyte

/-- A call that keeps the promise and the count is disciplined. -/
theorem disciplined_of_respects (h : sm.CountOk) (hresp : RespectsAllocation sm op)
    (hcount : CountsRight (op.exec sm)) : op.Disciplined sm := by
  cases op with
  | challoc amount => trivial
  | chfree c =>
    intro hc
    by_contra hmap
    have hrun : (StorageOp.chfree c).exec sm = .ok .done (sm.free c) := by
      simp only [StorageOp.exec, bind_run, chfree_run hc, bind_ok, pure_run]
    rw [hrun] at hcount
    exact not_countOk_free h (by simpa using hmap) hcount
  | chwrite c data => trivial
  | chread c len => trivial
  | chtrunc c amount =>
    intro hc hpos hle
    by_contra hmap
    exact not_leaves_chtrunc hc hpos hle (hresp.leaves c hc (by simpa using hmap))

/-! ## Section 5: Runs -/

theorem RespectedAlong.countOk (h : RespectedAlong ops sm) : sm.CountOk := by
  cases ops with
  | nil => exact h
  | cons op ops => exact h.1

/-- From an accurate count the runs that keep the promise are the disciplined ones. -/
theorem respectedAlong_iff (h : sm.CountOk) : RespectedAlong ops sm ↔ DisciplinedAlong ops sm := by
  induction ops generalizing sm with
  | nil => exact ⟨fun _ => trivial, fun _ => h⟩
  | cons op ops ih =>
    unfold RespectedAlong DisciplinedAlong
    constructor
    · intro ⟨_, hresp, hrest⟩
      have hcount : CountsRight (op.exec sm) :=
        hrest.mono (fun _ _ h' => h'.countOk) (fun _ _ h' => h'.countOk) (fun _ hF => hF)
      refine ⟨disciplined_of_respects h hresp hcount, ?_⟩
      refine hrest.mono ?_ ?_ (fun _ hF => hF)
      · exact fun _ _ h' => (ih h'.countOk).mp h'
      · exact fun _ _ h' => (ih h'.countOk).mp h'
    · intro ⟨hop, hrest⟩
      refine ⟨h, respects_of_disciplined hop, ?_⟩
      -- the count stays accurate, so the rest of the run can be followed
      refine ((exec_count hop h).and hrest).mono ?_ ?_ (fun _ hF => hF.1)
      · exact fun _ _ h' => (ih h'.1).mpr h'.2
      · exact fun _ _ h' => (ih h'.1).mpr h'.2

/-- **Respect of allocation.** From any arguments that the constructor accepts, a run
    keeps the promise if and only if the storage has exactly the chunks of the map and every
    call is disciplined. -/
theorem allocation_respected_iff {storage : Nat → Byte} {storage_size allocation_map_size : Nat}
    {allocation_map : Nat → Bool} {memory : StorageMan}
    (h : storage_man_init storage storage_size allocation_map allocation_map_size memory =
      .ok () sm) (ops : List StorageOp) :
    RespectedAlong ops sm ↔
      storage_size / CHUNK_SIZE = CHUNKS_AMOUNT ∧ DisciplinedAlong ops sm := by
  by_cases hsize : storage_size / CHUNK_SIZE = CHUNKS_AMOUNT
  · rw [respectedAlong_iff ((countOk_of_init h).mpr hsize)]
    exact ⟨fun hd => ⟨hsize, hd⟩, fun hd => hd.2⟩
  · constructor
    · exact fun hr => absurd ((countOk_of_init h).mp hr.countOk) hsize
    · exact fun hd => absurd hd.1 hsize

/-- An oversized map, and a chunk that is truncated and freed once. -/
theorem allocation_respected_iff_run :
    ∃ sm, storage_man_init (fun _ => 0) STORAGE_SIZE (fun _ => true) (CHUNKS_AMOUNT + 1)
        ⟨fun _ => 1, 0, 0, fun _ => true⟩ = .ok () sm ∧
      (RespectedAlong [.challoc 2, .chtrunc 1 3, .chfree 1] sm ↔
        STORAGE_SIZE / CHUNK_SIZE = CHUNKS_AMOUNT ∧
          DisciplinedAlong [.challoc 2, .chtrunc 1 3, .chfree 1] sm) := by
  obtain ⟨sm, h⟩ := storage_man_init_accepts (Nat.le_refl _) (Nat.le_succ CHUNKS_AMOUNT)
  exact ⟨sm, h, allocation_respected_iff h _⟩

/-- With room for one chunk more the count is wrong from the start. With storage of the
    right size one call is enough: a free chunk is freed, or it is truncated. -/
theorem allocation_not_respected :
    (∃ sm, storage_man_init (fun _ => 0) (STORAGE_SIZE + CHUNK_SIZE) (fun _ => false)
        CHUNKS_AMOUNT ⟨fun _ => 0, 0, 0, fun _ => false⟩ = .ok () sm ∧
      ¬ RespectedAlong [] sm) ∧
    ∃ sm, storage_man_init (fun _ => 0) STORAGE_SIZE (fun _ => false) CHUNKS_AMOUNT
        ⟨fun _ => 0, 0, 0, fun _ => false⟩ = .ok () sm ∧
      ¬ RespectedAlong [.chfree 0] sm ∧ ¬ RespectedAlong [.chtrunc 0 1] sm := by
  constructor
  · -- one chunk too much: the counter starts above the number of chunks
    obtain ⟨sm, h⟩ := storage_man_init_accepts (Nat.le_add_right STORAGE_SIZE CHUNK_SIZE)
      (Nat.le_refl CHUNKS_AMOUNT)
    refine ⟨sm, h, fun hr => ?_⟩
    exact absurd ((countOk_of_init h).mp hr) (by decide)
  · -- a fresh disk: chunk 0 is free, yet both calls accept it
    obtain ⟨sm, h⟩ := storage_man_init_accepts (Nat.le_refl STORAGE_SIZE)
      (Nat.le_refl CHUNKS_AMOUNT)
    have hfree : ¬ sm.allocation_map 0 = true := by
      rw [none_allocated_of_init h (by decide)]
      decide
    have hcount : sm.CountOk := (countOk_of_init h).mpr rfl
    refine ⟨sm, h, ?_, ?_⟩
    · rw [respectedAlong_iff hcount]
      exact fun hd => hfree (hd.1 (by decide))
    · rw [respectedAlong_iff hcount]
      exact fun hd => hfree (hd.1 (by decide) (by decide) (by decide))

end VirtualFS
