import VirtualFS.Disk.Positions

/-! # Shifting Extents

    `chunk_extent_right_shift` moves extents one by one, from the last one
    down, so that no extent is overwritten before it has been moved. On the
    slots of the array the loop opens a gap; `chunk_extent_left_shift` closes
    a gap of one position.

    * `GapOpened`: the array after the shift, position by position.
    * `chunk_extent_right_shift_run`: the shift opens the gap.
    * `chunk_extent_left_shift_closes`: for a gap of one, it is closed again.
-/

namespace VirtualFS

open Framework Prog

variable {s : VFS} {f : FileRef} {e e' : File} {l : List ChunkExtent}
  {extents : Nat → ChunkExtent} {i k p d cursor : Nat}

/-! ## Section 1: The loop -/

/-- One step writes to two positions only. -/
theorem right_shift_step_of_ne (hi : i ≠ p) (hid : i ≠ p + d) :
    right_shift_step d p extents i = extents i := by
  simp only [right_shift_step]
  rw [Function.update_of_ne hid, Function.update_of_ne hi, Function.update_of_ne hid]

/-- One iteration moves one slot. The flag of the target is set, the one of the source
    was clear. -/
theorem extentSlot_right_shift_step (hd : 0 < d) (hp : (extents p).is_empty = false) :
    extentSlot (right_shift_step d p extents) = moveSlot d p (extentSlot extents) := by
  have hne : p ≠ p + d := by omega
  funext i
  unfold moveSlot
  by_cases htarget : i = p + d
  · -- position and size from the source, and the flag of the source
    have hcopy : right_shift_step d p extents (p + d) = extents p := by
      simp only [right_shift_step, chunk_extent_copy_range, Function.update_self,
        Function.update_of_ne (Ne.symm hne)]
      rw [← hp]
    rw [htarget, Function.update_self, extentSlot, extentSlot, hcopy]
  · rw [Function.update_of_ne htarget]
    by_cases hsource : i = p
    · have hempty : (right_shift_step d p extents p).is_empty = true := by
        simp only [right_shift_step, Function.update_of_ne hne, Function.update_self]
      rw [hsource, Function.update_self, extentSlot_eq_none]
      exact hempty
    · rw [Function.update_of_ne hsource, extentSlot, extentSlot,
        right_shift_step_of_ne hsource htarget]

/-- The loop only touches the positions that it moves extents from or to. -/
theorem right_shift_loop_of_outside (hi : i < p ∨ cursor + d ≤ i) (hd : 0 < d) :
    right_shift_loop p d cursor extents i = extents i := by
  -- The cursor moves down from the last extent; each round writes at the cursor and `d` behind it.
  induction cursor generalizing extents with
  | zero => rfl
  | succ cur ih =>
    unfold right_shift_loop
    split
    · rfl
    · next hcur =>
      rw [ih (by omega)]
      exact right_shift_step_of_ne (by omega) (by omega)

/-- The gap moves down with the cursor until it starts at `p`. -/
theorem extentSlot_right_shift_loop {slots : Nat → Option ChunkExtent} (hd : 0 < d)
    (hp : p ≤ cursor) (hcursor : cursor ≤ MAX_FILE_CHUNK_EXTENTS_AMOUNT)
    (hoccupied : ∀ i, i < cursor → slots i ≠ none)
    (h : ∀ i, i < MAX_FILE_CHUNK_EXTENTS_AMOUNT →
      extentSlot extents i = openGap cursor d slots i) :
    ∀ i, i < MAX_FILE_CHUNK_EXTENTS_AMOUNT →
      extentSlot (right_shift_loop p d cursor extents) i = openGap p d slots i := by
  induction cursor generalizing extents with
  | zero =>
    obtain rfl : p = 0 := Nat.le_zero.mp hp
    exact h
  | succ cur ih =>
    unfold right_shift_loop
    split
    · next hlt =>
      obtain rfl : p = cur + 1 := by omega
      exact h
    · next hge =>
      -- below the gap nothing has changed, so there is an extent at `cur`
      have hslot : extentSlot extents cur = slots cur :=
        (h cur (by omega)).trans (openGap_of_lt (Nat.lt_succ_self cur))
      have hocc : (extents cur).is_empty = false := by
        by_contra hne
        rw [Bool.not_eq_false, ← extentSlot_eq_none, hslot] at hne
        exact hoccupied cur (Nat.lt_succ_self cur) hne
      apply ih (by omega) (by omega) fun i hi => hoccupied i (Nat.lt_succ_of_lt hi)
      intro i hi
      rw [extentSlot_right_shift_step hd hocc, moveSlot_congr h (by omega) hi,
        moveSlot_openGap hd]

/-! ## Section 2: Opening a gap -/

/-- The `k` extents of `e`, with those from `p` on moved up by `d`. -/
structure GapOpened (e e' : File) (k p d : Nat) : Prop where
  /-- Extents in front of the gap keep their places. -/
  before : ∀ i, i < p → e'.data_chunk_extents i = e.data_chunk_extents i
  /-- The freed positions are marked as empty. -/
  gap : ∀ i, p ≤ i → i < p + d → (e'.data_chunk_extents i).is_empty = true
  /-- The extents from `p` on are found `d` further up. -/
  moved : ∀ i, p ≤ i → i < k → e'.data_chunk_extents (i + d) = e.data_chunk_extents i
  /-- Nothing is written behind the moved extents. -/
  behind : ∀ i, k + d ≤ i → e'.data_chunk_extents i = e.data_chunk_extents i

/-- The loop finds the last extent of the list. -/
theorem get_last_chunk_extent_loop_eq (h : HasExtents e.data_chunk_extents l)
    (hlt : l.length < MAX_FILE_CHUNK_EXTENTS_AMOUNT) (n : Nat)
    (hn : n + i = MAX_FILE_CHUNK_EXTENTS_AMOUNT) (hi : i ≤ l.length) :
    get_last_chunk_extent_loop e n i = .ok (l.length - 1) := by
  -- The loop stops at the first empty extent, the one at `l.length`.
  induction n generalizing i with
  | zero => omega
  | succ n ih =>
    unfold get_last_chunk_extent_loop
    by_cases hend : i = l.length
    · rw [if_pos (h.is_empty_of_le (Nat.le_of_eq hend.symm) (by omega)), hend]
    · obtain ⟨heq, hocc⟩ := h.extent_eq
        (List.getElem?_eq_getElem (show i < l.length from by omega))
      rw [heq, hocc, if_neg Bool.false_ne_true]
      exact ih (by omega) (by omega)

/-- The scan for the end of the extents. -/
theorem get_last_chunk_extent_eq (h : HasExtents e.data_chunk_extents l)
    (hpos : 0 < l.length) (hlt : l.length < MAX_FILE_CHUNK_EXTENTS_AMOUNT) :
    get_last_chunk_extent e = .ok (l.length - 1) := by
  obtain ⟨heq, hocc⟩ := h.extent_eq (List.getElem?_eq_getElem hpos)
  unfold get_last_chunk_extent
  rw [heq, hocc, if_neg Bool.false_ne_true]
  exact get_last_chunk_extent_loop_eq h hlt _ (by decide) hpos

/-- What the slots say about the records. -/
theorem gapOpened_of_slots (h : HasExtents e.data_chunk_extents l) (hd : 0 < d)
    (hfit : l.length + d ≤ MAX_FILE_CHUNK_EXTENTS_AMOUNT) (hp : p < l.length)
    (hslots : ∀ i, i < MAX_FILE_CHUNK_EXTENTS_AMOUNT →
      extentSlot e'.data_chunk_extents i = openGap p d (extentSlot e.data_chunk_extents) i)
    (hsame : ∀ i, i < p ∨ l.length + d ≤ i →
      e'.data_chunk_extents i = e.data_chunk_extents i) : GapOpened e e' l.length p d := by
  constructor
  case before => exact fun i hi => hsame i (Or.inl hi)
  case behind => exact fun i hi => hsame i (Or.inr hi)
  case gap =>
    intro i h₁ h₂
    rw [← extentSlot_eq_none, hslots i (by omega)]
    exact openGap_of_mem h₁ h₂
  -- what is behind the gap, read off the slots of the array
  case moved =>
    intro i h₁ h₂
    have hx := List.getElem?_eq_getElem h₂
    have hslot : extentSlot e'.data_chunk_extents (i + d) = some l[i] := by
      rw [hslots (i + d) (by omega), openGap_add h₁, h.2 i (by omega), hx]
    rw [(h.extent_eq hx).1]
    exact (extentSlot_eq_some.mp hslot).1

/-- **Right shift.** The extents before `p` stay, the others move up. -/
theorem chunk_extent_right_shift_run
    (h : HasExtents (s.entry_store.files f).data_chunk_extents l) (hp : p < l.length)
    (hd : 0 < d) (hfit : l.length - 1 + d < MAX_FILE_CHUNK_EXTENTS_AMOUNT) :
    ∃ e', chunk_extent_right_shift ⟨f, p⟩ d f s = .ok () (s.putFile f e') ∧
      GapOpened (s.entry_store.files f) e' l.length p d ∧
      (∀ i, i < MAX_FILE_CHUNK_EXTENTS_AMOUNT → extentSlot e'.data_chunk_extents i =
        openGap p d (extentSlot (s.entry_store.files f).data_chunk_extents) i) ∧
      e' = { s.entry_store.files f with data_chunk_extents := e'.data_chunk_extents } := by
  generalize he : s.entry_store.files f = e at h
  obtain ⟨heq, hocc⟩ := h.extent_eq (List.getElem?_eq_getElem hp)
  have hlast := get_last_chunk_extent_eq h (by omega) (by omega)
  have hcursor : l.length - 1 + 1 = l.length := by omega
  -- the gap starts behind the last extent
  have hslots : ∀ i, i < MAX_FILE_CHUNK_EXTENTS_AMOUNT →
      extentSlot (right_shift_loop p d l.length e.data_chunk_extents) i =
        openGap p d (extentSlot e.data_chunk_extents) i := by
    apply extentSlot_right_shift_loop hd (Nat.le_of_lt hp) h.length_le
    · intro i hi
      rw [h.2 i (by omega), List.getElem?_eq_getElem hi]
      exact Option.some_ne_none _
    · intro i hi
      exact (openGap_of_vacant (fun j h₁ h₂ =>
        (h.2 j h₂).trans (List.getElem?_eq_none h₁)) hi).symm
  refine ⟨{ e with
      data_chunk_extents := right_shift_loop p d l.length e.data_chunk_extents }, ?_,
    gapOpened_of_slots h hd (by omega) hp hslots
      fun i hi => right_shift_loop_of_outside hi hd, hslots, rfl⟩
  have hflag : (s.extentAt ⟨f, p⟩).is_empty = false := by
    rw [VFS.extentAt, he, heq, hocc]
  have hd' : ¬ d = 0 := by omega
  have hp' : ¬ MAX_FILE_CHUNK_EXTENTS_AMOUNT ≤ p := by omega
  have hfit' : ¬ MAX_FILE_CHUNK_EXTENTS_AMOUNT ≤ l.length - 1 + d := by omega
  simp [chunk_extent_right_shift, hflag, hd', hp', hfit', he, hlast, hcursor, modifyFile_eq]

/-! ## Section 3: Closing it again -/

/-- **Left shift** closes a gap of one position. -/
theorem chunk_extent_left_shift_closes (h : HasExtents e.data_chunk_extents l)
    (hp : p < l.length) (hlt : l.length < MAX_FILE_CHUNK_EXTENTS_AMOUNT)
    (hslots : ∀ i, i < MAX_FILE_CHUNK_EXTENTS_AMOUNT →
      extentSlot (s.entry_store.files f).data_chunk_extents i =
        openGap p 1 (extentSlot e.data_chunk_extents) i) :
    ∃ extents, chunk_extent_left_shift ⟨f, p⟩ f s = .ok ()
        (s.putFile f { s.entry_store.files f with data_chunk_extents := extents }) ∧
      HasExtents extents l := by
  generalize he : s.entry_store.files f = e' at hslots
  have hempty : (e'.data_chunk_extents p).is_empty = true := by
    rw [← extentSlot_eq_none, hslots p (by omega)]
    exact openGap_of_mem (Nat.le_refl p) (Nat.lt_succ_self p)
  -- the position of the gap counts as an extent while the loop runs
  obtain ⟨x, hx⟩ : ∃ x, x = { e'.data_chunk_extents p with is_empty := false } := ⟨_, rfl⟩
  have hfilled : HasExtents (Function.update e'.data_chunk_extents p x) (l.insertIdx p x) := by
    obtain ⟨hlen, hget⟩ := Holds.insertIdx h (x := x) (Nat.le_of_lt hp) hlt
    refine ⟨hlen, fun i hi => ?_⟩
    rw [← hget i hi]
    by_cases hip : i = p
    · rw [hip, Function.update_self, extentSlot, Function.update_self, hx]
      rfl
    · rw [Function.update_of_ne hip, ← hslots i hi, extentSlot, Function.update_of_ne hip,
        extentSlot]
  have hgap : withGap (Function.update e'.data_chunk_extents p x) p = e'.data_chunk_extents := by
    rw [withGap, Function.update_self, Function.update_idem, hx, ← hempty]
    exact Function.update_eq_self p _
  obtain ⟨extents, hrun, hholds, -⟩ := chunk_extent_left_shift_run (t := s) (f := f) (i := p)
    (e := { e' with data_chunk_extents := Function.update e'.data_chunk_extents p x }) hfilled
    (by rw [List.length_insertIdx_of_le_length (Nat.le_of_lt hp)]; omega)
    (by rw [hgap]; exact he)
  rw [List.eraseIdx_insertIdx_self] at hholds
  exact ⟨extents, hrun, hholds⟩

end VirtualFS
