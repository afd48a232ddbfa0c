import Mathlib.Order.Bounds.Basic
import VirtualFS.Disk.Allocation

/-! # First Fit

    `challoc` as an allocator: it succeeds exactly when the map has a run of
    free chunks of the length asked for, takes the leftmost one, and keeps the
    count of free chunks.  The early exit in front of the loop has no effect,
    so nothing here depends on `free_chunk_count`.

    * `FirstFit`: what a successful call does to the manager.
    * `challoc_first_fit`: success and effect, from any state of the manager.
-/

namespace VirtualFS

open Framework Prog Outcome

variable {sm sm' : StorageMan} {map : Nat → Bool} {pos pos' amount : Nat}

/-! ## Section 1: Runs of free chunks -/

/-- The positions a run of `amount` free chunks starts at. -/
def freeRuns (map : Nat → Bool) (amount : Nat) : Set Nat :=
  {pos | FreeRun map pos amount}

theorem FreeRun.amount_le (h : FreeRun map pos amount) : amount ≤ CHUNKS_AMOUNT :=
  Nat.le_trans (Nat.le_add_left amount pos) h.1

/-! ## Section 2: Success -/

/-- If there is a run the leftmost one is allocated. -/
theorem challoc_of_freeRun (hpos : 0 < amount) (hrun : FreeRun sm.allocation_map pos amount) :
    ∃ pos', IsLeast (freeRuns sm.allocation_map amount) pos' ∧
      challoc amount sm = .ok pos' (sm.allocate pos' amount) := by
  obtain ⟨pos', -, hrun', hok⟩ := challoc_finds hpos hrun
  have hleast : pos' ∈ lowerBounds (freeRuns sm.allocation_map amount) := by
    intro p hp
    -- completeness for the run at `p` finds one no later than `p`, and it is the same run
    obtain ⟨p', hle, -, hok'⟩ := challoc_finds hpos hp
    rw [hok] at hok'
    cases hok'
    exact hle
  exact ⟨pos', ⟨hrun', hleast⟩, hok⟩

/-- `challoc` succeeds exactly when there is a run to take. -/
theorem challoc_succeeds_iff : (challoc amount sm).succeeded = true ↔
    0 < amount ∧ ∃ pos, FreeRun sm.allocation_map pos amount := by
  constructor
  · intro h
    rcases challoc_cases sm.allocation_map amount with ⟨e, hfail⟩ | ⟨pos, hpos, hrun, -⟩
    · rw [hfail sm rfl] at h
      cases h
    · exact ⟨hpos, pos, hrun⟩
  · intro ⟨hpos, pos, hrun⟩
    obtain ⟨pos', -, hok⟩ := challoc_of_freeRun hpos hrun
    rw [hok]
    rfl

/-! ## Section 3: The allocator -/

/-- The manager after the leftmost run of `amount` free chunks is taken at `pos`. -/
structure FirstFit (sm : StorageMan) (amount pos : Nat) (sm' : StorageMan) : Prop where
  /-- No run of free chunks of this length starts further left. -/
  leftmost : IsLeast (freeRuns sm.allocation_map amount) pos
  /-- The chunks of the run are marked, and the marks of all others stay. -/
  marked : ∀ c, sm'.allocation_map c =
    if pos ≤ c ∧ c < pos + amount then true else sm.allocation_map c
  /-- Allocating writes no data. -/
  bytes : sm'.storage = sm.storage
  /-- The count goes down by the length of the run, without wrapping. -/
  counted : sm.CountOk → sm'.CountOk ∧ sm'.free_chunk_count + amount = sm.free_chunk_count

/-- Allocating the leftmost run is first fit. -/
theorem firstFit_allocate (h : IsLeast (freeRuns sm.allocation_map amount) pos) :
    FirstFit sm amount pos (sm.allocate pos amount) where
  leftmost := h
  marked := fun _ => rfl
  bytes := rfl
  counted := by
    intro hcount
    have hle := hcount.amount_le h.1
    have hlt : sm.free_chunk_count < SIZE_T_RANGE := by
      have := hcount.le
      have := chunks_lt_size_t_range
      omega
    -- the run is counted, so the subtraction does not wrap
    have hsub : (sm.allocate pos amount).free_chunk_count = sm.free_chunk_count - amount :=
      sizeSub_of_le hle hlt
    exact ⟨hcount.allocate h.1, by omega⟩

/-- **First fit**: for every map and every amount, `challoc` succeeds exactly when
    `amount` consecutive chunks are free, and takes the leftmost such run; a failing
    call changes nothing. -/
theorem challoc_first_fit (sm : StorageMan) (amount : Nat) :
    ((challoc amount sm).succeeded = true ↔
      1 ≤ amount ∧ amount ≤ CHUNKS_AMOUNT ∧ ∃ pos, FreeRun sm.allocation_map pos amount) ∧
    (challoc amount sm).Sat (fun pos sm' => FirstFit sm amount pos sm')
      (fun _ sm' => sm' = sm) (fun _ => False) := by
  constructor
  · rw [challoc_succeeds_iff]
    constructor
    · intro ⟨hpos, pos, hrun⟩
      exact ⟨hpos, hrun.amount_le, pos, hrun⟩
    · intro ⟨hpos, _, hrun⟩
      exact ⟨hpos, hrun⟩
  · -- The same case distinction serves both: the scan ends without a run, or at the leftmost
    -- one.
    rcases challoc_cases sm.allocation_map amount with ⟨e, hfail⟩ | ⟨pos, hpos, hrun, -⟩
    · rw [hfail sm rfl]
      rfl
    · obtain ⟨pos', hleast, hok⟩ := challoc_of_freeRun hpos hrun
      rw [hok]
      show FirstFit sm amount pos' (sm.allocate pos' amount)
      exact firstFit_allocate hleast

end VirtualFS
