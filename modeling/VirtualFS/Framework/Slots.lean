import Mathlib.Algebra.GroupWithZero.Nat
import Mathlib.Data.List.Nodup
import Mathlib.Data.List.Range
import Mathlib.Logic.Function.Basic

/-! # Slot Arrays

    An array of optional values as a function on positions, of which the first
    `n` are in use. `occupants` lists the occupied positions in order; filling
    and clearing a position changes it by one element, up to order.

    * `Compact`, `Holds`: arrays whose occupied positions come first.
    * `openGap`, `moveSlot`: shifting values up by some positions, one at a time.
    * `vacancies`: the number of vacant positions, which filling one takes down.
    * `find_range_some`, `find_range_none`: searching for the first position.
-/

namespace Framework

variable {α β : Type}

/-- The values in the occupied positions below `n`. -/
def occupants (n : Nat) (slots : Nat → Option α) : List α :=
  (List.range n).filterMap slots

/-- The occupants are the values of the occupied slots. -/
theorem mem_occupants {n : Nat} {slots : Nat → Option α} {x : α} :
    x ∈ occupants n slots ↔ ∃ i, i < n ∧ slots i = some x := by
  simp [occupants]

@[simp] theorem occupants_of_vacant {n : Nat} {slots : Nat → Option α}
    (h : ∀ i, i < n → slots i = none) : occupants n slots = [] := by
  apply List.filterMap_eq_nil_iff.mpr
  intro i hi
  exact h i (List.mem_range.mp hi)

/-- Filling a vacant position adds its value. -/
theorem occupants_fill {n i : Nat} {slots : Nat → Option α} {x : α} (hi : i < n)
    (hv : slots i = none) :
    (occupants n (Function.update slots i (some x))).Perm (x :: occupants n slots) := by
  obtain ⟨l₁, l₂, hrange⟩ := List.append_of_mem (List.mem_range.mpr hi)
  have hnd : (l₁ ++ i :: l₂).Nodup := hrange ▸ List.nodup_range
  have hi₁ : i ∉ l₁ := fun h => (List.disjoint_of_nodup_append hnd) h (List.mem_cons_self ..)
  have hi₂ : i ∉ l₂ := (List.nodup_cons.mp hnd.of_append_right).1
  have hcongr : ∀ l : List Nat, i ∉ l →
      l.filterMap (Function.update slots i (some x)) = l.filterMap slots := by
    intro l hl
    apply List.filterMap_congr
    intro j hj
    have hji : j ≠ i := by
      intro rfl
      exact hl hj
    exact Function.update_of_ne hji _ _
  unfold occupants
  rw [hrange, List.filterMap_append, List.filterMap_append, hcongr l₁ hi₁]
  simp only [List.filterMap_cons, Function.update_self, hv, hcongr l₂ hi₂]
  exact List.perm_middle

/-- Clearing an occupied position removes its value. -/
theorem occupants_clear {n i : Nat} {slots : Nat → Option α} {x : α} (hi : i < n)
    (hx : slots i = some x) :
    (x :: occupants n (Function.update slots i none)).Perm (occupants n slots) := by
  have hv : Function.update slots i none i = none := Function.update_self ..
  have hfill := occupants_fill (x := x) hi hv
  rw [Function.update_idem, ← hx, Function.update_eq_self] at hfill
  exact hfill.symm

/-- Without duplicates, a value has one position. -/
theorem slot_unique {n i j : Nat} {slots : Nat → Option α} {x : α}
    (hnd : (occupants n slots).Nodup) (hi : i < n) (hj : j < n) (hix : slots i = some x)
    (hjx : slots j = some x) : i = j := by
  by_contra hne
  have hclear := occupants_clear hi hix
  have hnd' := hclear.nodup_iff.mpr hnd
  refine (List.nodup_cons.mp hnd').1 (mem_occupants.mpr ⟨j, hj, ?_⟩)
  rw [Function.update_of_ne (Ne.symm hne)]
  exact hjx

/-- In a list of blocks without duplicates, a value is in one block. -/
theorem flatMap_index_unique {l : List α} {blocks : α → List β} (h : (l.flatMap blocks).Nodup)
    {i j : Nat} {x y : α} {b : β} (hi : l[i]? = some x) (hj : l[j]? = some y)
    (hx : b ∈ blocks x) (hy : b ∈ blocks y) : i = j := by
  have hpair := (List.nodup_flatMap.mp h).2
  have hlt : ∀ {i j : Nat} {x y : α}, l[i]? = some x → l[j]? = some y → b ∈ blocks x →
      b ∈ blocks y → ¬ i < j := by
    intro i j x y hi hj hx hy hij
    obtain ⟨hil, rfl⟩ := List.getElem?_eq_some_iff.mp hi
    obtain ⟨hjl, rfl⟩ := List.getElem?_eq_some_iff.mp hj
    exact List.pairwise_iff_getElem.mp hpair i j hil hjl hij hx hy
  have h₁ := hlt hi hj hx hy
  have h₂ := hlt hj hi hy hx
  omega

/-! ## Compact arrays -/

/-- No vacant position before an occupied one. -/
def Compact (n : Nat) (slots : Nat → Option α) : Prop :=
  ∀ i, i + 1 < n → slots i = none → slots (i + 1) = none

/-- The occupied positions are those below `l.length`, and `l` is what they hold. -/
def Holds (n : Nat) (slots : Nat → Option α) (l : List α) : Prop :=
  l.length ≤ n ∧ ∀ i, i < n → slots i = l[i]?

/-- Behind a vacant slot of a compact array all slots are vacant. -/
theorem Compact.vacant_of_le {n i j : Nat} {slots : Nat → Option α} (h : Compact n slots)
    (hij : i ≤ j) (hj : j < n) (hi : slots i = none) : slots j = none := by
  induction hij with
  | refl => exact hi
  | step _ ih => exact h _ hj (ih (by omega))

/-- An array that holds a list from its front on is compact. -/
theorem Holds.compact {n : Nat} {slots : Nat → Option α} {l : List α} (h : Holds n slots l) :
    Compact n slots := by
  intro i hi hv
  rw [h.2 i (by omega), List.getElem?_eq_none_iff] at hv
  rw [h.2 (i + 1) hi, List.getElem?_eq_none_iff]
  omega

/-- An array holds one list. -/
theorem Holds.unique {n : Nat} {slots : Nat → Option α} {l l' : List α}
    (h : Holds n slots l) (h' : Holds n slots l') : l = l' := by
  apply List.ext_getElem?
  intro i
  by_cases hi : i < n
  · rw [← h.2 i hi, h'.2 i hi]
  · have := h.1
    have := h'.1
    rw [List.getElem?_eq_none (by omega), List.getElem?_eq_none (by omega)]

/-- The last slot comes last. -/
theorem occupants_succ (n : Nat) (slots : Nat → Option α) :
    occupants (n + 1) slots = occupants n slots ++ (slots n).toList := by
  unfold occupants
  rw [List.range_succ, List.filterMap_append]
  cases h : slots n <;> simp [h]

/-- A sum over the occupied positions. -/
theorem sum_occupants (n : Nat) (slots : Nat → Option α) (weight : α → Nat) :
    ((occupants n slots).map weight).sum =
      ((List.range n).map fun i => ((slots i).map weight).getD 0).sum := by
  induction n with
  | zero => rfl
  | succ n ih =>
    rw [occupants_succ, List.range_succ, List.map_append, List.map_append, List.sum_append,
      List.sum_append, ih]
    cases hn : slots n <;> simp [hn]

/-- A concatenation over the occupied positions. -/
theorem flatMap_occupants (n : Nat) (slots : Nat → Option α) (block : α → List β) :
    (occupants n slots).flatMap block =
      (List.range n).flatMap fun i => ((slots i).map block).getD [] := by
  induction n with
  | zero => rfl
  | succ n ih =>
    rw [occupants_succ, List.range_succ, List.flatMap_append, List.flatMap_append, ih]
    cases hn : slots n <;> simp [hn]

/-- A compact array holds its occupants. -/
theorem Compact.holds {n : Nat} {slots : Nat → Option α} (h : Compact n slots) :
    Holds n slots (occupants n slots) := by
  induction n with
  | zero => exact ⟨by simp [occupants], fun i hi => absurd hi (Nat.not_lt_zero i)⟩
  | succ n ih =>
    obtain ⟨hlen, hget⟩ := ih fun i hi => h i (by omega)
    rw [occupants_succ]
    cases hn : slots n with
    | none =>
      -- a vacant position at the end
      rw [Option.toList_none, List.append_nil]
      refine ⟨by omega, fun i hi => ?_⟩
      by_cases hin : i < n
      · exact hget i hin
      · have : i = n := by omega
        rw [this, hn, List.getElem?_eq_none hlen]
    | some x =>
      -- every position before an occupied one is occupied
      have hfull : n ≤ (occupants n slots).length := by
        by_contra hlt
        have hv := hget _ (Nat.lt_of_not_le hlt)
        rw [List.getElem?_eq_none (Nat.le_refl _)] at hv
        have := h.vacant_of_le (j := n) (by omega) (by omega) hv
        rw [hn] at this
        cases this
      have hlen' : (occupants n slots).length = n := by omega
      -- so the new occupant comes next
      refine ⟨by simp [hlen'], fun i hi => ?_⟩
      by_cases hin : i < n
      · rw [List.getElem?_append_left (by omega)]
        exact hget i hin
      · have : i = n := by omega
        subst this
        rw [hn, List.getElem?_append_right (by omega), hlen']
        simp

/-- The occupants of a compact array are the list that it holds. -/
theorem Holds.occupants_eq {n : Nat} {slots : Nat → Option α} {l : List α}
    (h : Holds n slots l) : occupants n slots = l :=
  h.compact.holds.unique h

/-! ## Gaps -/

/-- Move the value at position `i` up by `d`. -/
def moveSlot (d i : Nat) (slots : Nat → Option α) : Nat → Option α :=
  Function.update (Function.update slots i none) (i + d) (slots i)

/-- The values from `pos` on are `d` positions higher. -/
def openGap (pos d : Nat) (slots : Nat → Option α) : Nat → Option α := fun i =>
  if i < pos then slots i else if i < pos + d then none else slots (i - d)

section Gaps

variable {n pos d i : Nat} {slots : Nat → Option α} {l : List α}

/-- Slots in front of the gap stay. -/
theorem openGap_of_lt (hi : i < pos) : openGap pos d slots i = slots i := if_pos hi

/-- The gap is vacant. -/
theorem openGap_of_mem (h₁ : pos ≤ i) (h₂ : i < pos + d) : openGap pos d slots i = none := by
  rw [openGap, if_neg (Nat.not_lt.mpr h₁), if_pos h₂]

/-- Slots behind the gap have moved up by its width. -/
theorem openGap_add (hi : pos ≤ i) : openGap pos d slots (i + d) = slots i := by
  rw [openGap, if_neg (by omega), if_neg (by omega), Nat.add_sub_cancel]

/-- A gap where the vacant positions start is no change. -/
theorem openGap_of_vacant (hv : ∀ j, pos ≤ j → j < n → slots j = none) (hi : i < n) :
    openGap pos d slots i = slots i := by
  unfold openGap
  split
  · rfl
  · rw [hv i (by omega) hi]
    split
    · rfl
    · exact hv (i - d) (by omega) (by omega)

/-- One more value is moved, and the gap starts one position lower. -/
theorem moveSlot_openGap (hd : 0 < d) :
    moveSlot d pos (openGap (pos + 1) d slots) = openGap pos d slots := by
  funext i
  unfold moveSlot
  by_cases htarget : i = pos + d
  · rw [htarget, Function.update_self, openGap_add (Nat.le_refl pos)]
    exact openGap_of_lt (Nat.lt_succ_self pos)
  · rw [Function.update_of_ne htarget]
    by_cases hsource : i = pos
    · rw [hsource, Function.update_self, openGap_of_mem (Nat.le_refl pos) (by omega)]
    · rw [Function.update_of_ne hsource]
      -- the two gaps differ at these two positions only
      have h₁ : i < pos + 1 ↔ i < pos := by omega
      have h₂ : i < pos + 1 + d ↔ i < pos + d := by omega
      simp only [openGap, h₁, h₂]

/-- A move looks at the first `n` slots only. -/
theorem moveSlot_congr {slots' : Nat → Option α} (h : ∀ j, j < n → slots j = slots' j)
    (hpos : pos < n) (hi : i < n) : moveSlot d pos slots i = moveSlot d pos slots' i := by
  simp only [moveSlot, Function.update_apply, h pos hpos, h i hi]

/-- Filling a gap of one position inserts its value. -/
theorem Holds.insertIdx (h : Holds n slots l) {x : α} (hpos : pos ≤ l.length)
    (hlt : l.length < n) :
    Holds n (Function.update (openGap pos 1 slots) pos (some x)) (l.insertIdx pos x) := by
  have hlen : (l.insertIdx pos x).length = l.length + 1 :=
    List.length_insertIdx_of_le_length hpos x
  refine ⟨by omega, fun i hi => ?_⟩
  rcases Nat.lt_trichotomy i pos with hbefore | rfl | hbehind
  · rw [Function.update_of_ne (Nat.ne_of_lt hbefore), openGap_of_lt hbefore, h.2 i hi,
      List.getElem?_insertIdx_of_lt hbefore]
  · rw [Function.update_self, List.getElem?_insertIdx_self, if_pos hpos]
  · obtain ⟨j, rfl⟩ : ∃ j, i = j + 1 := ⟨i - 1, by omega⟩
    rw [Function.update_of_ne (Nat.ne_of_gt hbehind), openGap_add (by omega), h.2 j (by omega),
      List.getElem?_insertIdx_of_gt hbehind, Nat.add_sub_cancel]

end Gaps

/-! ## Counting vacant positions -/

/-- How many of the positions below `n` are vacant. -/
def vacancies (n : Nat) (slots : Nat → Option α) : Nat :=
  ((List.range n).filter fun i => (slots i).isNone).length

/-- Each slot is vacant or occupied. -/
theorem vacancies_add_length (n : Nat) (slots : Nat → Option α) :
    vacancies n slots + (occupants n slots).length = n := by
  unfold vacancies
  -- Slot `n` is counted on one of the two sides.
  induction n with
  | zero => rfl
  | succ n ih =>
    rw [occupants_succ, List.range_succ, List.filter_append, List.length_append,
      List.length_append]
    cases h : slots n with
    | none => simp [h]; omega
    | some x => simp [h]; omega

/-- Filling a vacant position leaves one less. -/
theorem vacancies_fill {n i : Nat} {slots : Nat → Option α} {x : α} (hi : i < n)
    (hv : slots i = none) :
    vacancies n (Function.update slots i (some x)) + 1 = vacancies n slots := by
  have hfill := (occupants_fill (x := x) hi hv).length_eq
  have hnew := vacancies_add_length n (Function.update slots i (some x))
  have hold := vacancies_add_length n slots
  rw [List.length_cons] at hfill
  omega

/-- Where slots are counted as vacant there is one. -/
theorem exists_vacant {n : Nat} {slots : Nat → Option α} (h : 0 < vacancies n slots) :
    ∃ i, i < n ∧ slots i = none := by
  obtain ⟨i, hi⟩ := List.exists_mem_of_length_pos h
  obtain ⟨hlt, hnone⟩ := List.mem_filter.mp hi
  exact ⟨i, List.mem_range.mp hlt, Option.isNone_iff_eq_none.mp hnone⟩

/-! ## Searching an array -/

/-- The position found is the first one that satisfies the test. -/
theorem find_range_some {n i : Nat} {p : Nat → Bool}
    (h : (List.range n).find? p = some i) :
    i < n ∧ p i = true ∧ ∀ j, j < i → p j = false := by
  obtain ⟨hp, hi, hlt⟩ := List.find?_range_eq_some.mp h
  refine ⟨List.mem_range.mp hi, hp, fun j hj => ?_⟩
  have := hlt j hj
  simpa using this

/-- If none is found, no position satisfies the test. -/
theorem find_range_none {n : Nat} {p : Nat → Bool} (h : (List.range n).find? p = none) :
    ∀ i, i < n → p i = false := by
  intro i hi
  have := List.find?_range_eq_none.mp h i hi
  simpa using this

/-- A search succeeds if some position below `n` qualifies. -/
theorem find_range_isSome {n i : Nat} {p : Nat → Bool} (hi : i < n) (hp : p i = true) :
    ∃ j, (List.range n).find? p = some j := by
  cases h : (List.range n).find? p with
  | some j => exact ⟨j, rfl⟩
  | none =>
    have := find_range_none h i hi
    rw [hp] at this
    cases this

/-- A search for the only element that qualifies. -/
theorem find_eq_some_iff {l : List α} {p : α → Bool}
    (hunique : ∀ x ∈ l, ∀ y ∈ l, p x = true → p y = true → x = y) {x : α} :
    l.find? p = some x ↔ x ∈ l ∧ p x = true := by
  constructor
  · intro h
    exact ⟨List.mem_of_find?_eq_some h, List.find?_some h⟩
  · intro ⟨hx, hp⟩
    cases h : l.find? p with
    | none => exact absurd hp (List.find?_eq_none.mp h x hx)
    | some y =>
      rw [hunique y (List.mem_of_find?_eq_some h) x hx (List.find?_some h) hp]

end Framework
