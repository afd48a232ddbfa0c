import Mathlib.Data.List.Basic

/-! # Slices and Blocks

    A slice of a list is given by an offset and an amount. A list that is
    the concatenation of blocks of one size can be read block by block: what
    is read from the blocks, put together, is the slice of the whole.

    * `slice`: what is read at an offset. By `slice_append_slice` neighbouring
      slices make up one slice.
    * `slice_block`: a slice inside a block is a slice of the whole list.
    * `overwriteLast`: the last positions set to one value. Overwriting twice is
      overwriting once with the larger amount; `overwriteLast_eq_iff` says when
      two amounts give the same list.
-/

namespace Framework

variable {α β : Type}

/-! ## Section 1: Slices -/

/-- The `amount` elements of a list from `off` on. -/
def slice (off amount : Nat) (l : List α) : List α := (l.drop off).take amount

@[simp] theorem slice_zero (off : Nat) (l : List α) : slice off 0 l = [] := List.take_zero

/-- The slice of a whole list is the list. -/
theorem slice_full (l : List α) : slice 0 l.length l = l := List.take_length

/-- A slice inside the list has the length that was asked for. -/
theorem length_slice {off amount : Nat} {l : List α} (h : off + amount ≤ l.length) :
    (slice off amount l).length = amount := by
  unfold slice
  rw [List.length_take, List.length_drop]
  omega

/-- Two slices that meet are one slice. -/
theorem slice_append_slice (off a b : Nat) (l : List α) :
    slice off a l ++ slice (off + a) b l = slice off (a + b) l := by
  unfold slice
  rw [List.take_add, List.drop_drop]

/-- A slice of a prefix that is long enough. -/
theorem slice_of_append {off amount : Nat} {l : List α} (l' : List α)
    (h : off + amount ≤ l.length) : slice off amount (l ++ l') = slice off amount l := by
  unfold slice
  rw [List.drop_append_of_le_length (by omega), List.take_append_of_le_length]
  rw [List.length_drop]
  omega

/-! ## Section 2: Blocks of one size -/

section blocks

variable {size : Nat} {block : α → List β}

/-- Blocks of one size make up a list of a multiple of that size. -/
theorem length_blocks (hsize : ∀ x, (block x).length = size) (l : List α) :
    (l.flatMap block).length = l.length * size := by
  induction l with
  | nil => simp
  | cons x l ih =>
    rw [List.flatMap_cons, List.length_append, hsize, ih, List.length_cons, Nat.succ_mul,
      Nat.add_comm]

/-- Dropping whole blocks drops elements of the list they come from. -/
theorem drop_blocks (hsize : ∀ x, (block x).length = size) (l : List α) (n : Nat) :
    (l.flatMap block).drop (n * size) = (l.drop n).flatMap block := by
  induction n generalizing l with
  | zero => simp
  | succ n ih =>
    cases l with
    | nil => simp
    | cons x l =>
      -- the first block is as long as what is dropped first
      have hlen : (n + 1) * size = (block x).length + n * size := by
        rw [hsize, Nat.succ_mul, Nat.add_comm]
      rw [List.flatMap_cons, hlen, List.drop_length_add_append, List.drop_succ_cons]
      exact ih l

/-- A slice that stays within one block. -/
theorem slice_block (hsize : ∀ x, (block x).length = size) {l : List α} {n off amount : Nat}
    {x : α} (hx : l[n]? = some x) (hle : off + amount ≤ size) :
    slice (n * size + off) amount (l.flatMap block) = slice off amount (block x) := by
  obtain ⟨hn, rfl⟩ := List.getElem?_eq_some_iff.mp hx
  have hdrop : (l.flatMap block).drop (n * size) =
      block l[n] ++ (l.drop (n + 1)).flatMap block := by
    rw [drop_blocks hsize, List.drop_eq_getElem_cons hn, List.flatMap_cons]
  show ((l.flatMap block).drop (n * size + off)).take amount = _
  rw [← List.drop_drop, hdrop]
  exact slice_of_append _ (by rw [hsize]; exact hle)

end blocks

/-! ## Section 3: Overwriting the end -/

section overwrite

variable {x : α} {l l' : List α} {j k n : Nat}

/-- The list with its last `k` elements replaced by `x`. -/
def overwriteLast (x : α) (k : Nat) (l : List α) : List α :=
  l.take (l.length - k) ++ List.replicate k x

/-- Overwriting the end keeps the length. -/
theorem length_overwriteLast (h : k ≤ l.length) :
    (overwriteLast x k l).length = l.length := by
  unfold overwriteLast
  rw [List.length_append, List.length_take, List.length_replicate]
  omega

/-- The new value stands at the last `k` positions, the old values in front of them. -/
theorem getElem?_overwriteLast (h : k ≤ l.length) (i : Nat) :
    (overwriteLast x k l)[i]? =
      if i < l.length - k then l[i]? else if i < l.length then some x else none := by
  have hlen : (l.take (l.length - k)).length = l.length - k := by
    rw [List.length_take]
    omega
  unfold overwriteLast
  by_cases hi : i < l.length - k
  · rw [if_pos hi, List.getElem?_append_left (by omega), List.getElem?_take_of_lt hi]
  · rw [if_neg hi, List.getElem?_append_right (by omega), hlen, List.getElem?_replicate]
    have hiff : i - (l.length - k) < k ↔ i < l.length := by omega
    simp only [hiff]

/-- Only the second of two lists is long enough to matter. -/
theorem overwriteLast_append (h : k ≤ l'.length) :
    overwriteLast x k (l ++ l') = l ++ overwriteLast x k l' := by
  unfold overwriteLast
  rw [List.length_append, show l.length + l'.length - k = l.length + (l'.length - k) from by omega,
    List.take_length_add_append, List.append_assoc]

/-- What is in front of the overwritten elements stays. -/
theorem take_overwriteLast (h : n + k ≤ l.length) :
    (overwriteLast x k l).take n = l.take n := by
  unfold overwriteLast
  rw [List.take_append_of_le_length, List.take_take, Nat.min_eq_left (by omega)]
  rw [List.length_take]
  omega

/-- Overwriting twice overwrites the longer end. -/
theorem overwriteLast_overwriteLast (hj : j ≤ l.length) (hk : k ≤ l.length) :
    overwriteLast x k (overwriteLast x j l) = overwriteLast x (max j k) l := by
  have hlen := length_overwriteLast (x := x) hj
  apply List.ext_getElem?
  intro i
  rw [getElem?_overwriteLast (by omega), getElem?_overwriteLast hj,
    getElem?_overwriteLast (by omega), hlen]
  grind

/-- A longer end makes no difference exactly when the elements in between are `x` already. -/
theorem overwriteLast_eq_iff (hjk : j ≤ k) (hk : k ≤ l.length) :
    overwriteLast x k l = overwriteLast x j l ↔
      ∀ i, l.length - k ≤ i → i < l.length - j → l[i]? = some x := by
  constructor
  · intro h i hlo hhi
    have hi := congrArg (fun t => t[i]?) h
    rw [getElem?_overwriteLast hk, getElem?_overwriteLast (by omega), if_neg (by omega),
      if_pos (by omega), if_pos hhi] at hi
    exact hi.symm
  · intro h
    apply List.ext_getElem?
    intro i
    rw [getElem?_overwriteLast hk, getElem?_overwriteLast (by omega)]
    -- in front of both ends, between them, or in the shorter one
    by_cases hlo : i < l.length - k
    · rw [if_pos hlo, if_pos (show i < l.length - j from by omega)]
    · by_cases hhi : i < l.length - j
      · rw [if_neg hlo, if_pos hhi, if_pos (show i < l.length from by omega), h i (by omega) hhi]
      · rw [if_neg hlo, if_neg hhi]

end overwrite

end Framework
