import Mathlib.Algebra.BigOperators.Finprod
import Mathlib.Algebra.Order.BigOperators.Group.Finset
import Mathlib.Data.Set.Card
import Mathlib.Order.Interval.Finset.Nat

/-! # Counting

    Sets and sums over a type are counted through lists that have each element
    once. The second part counts the gaps of a bit map: if no gap is long, then
    there are few free entries for each block of used ones.

    * `exists_gap`: with more free entries than that, there is a long gap.

    * `ncard_eq_length`, `finsum_eq_sum`: counting and summing through a list.
    * `gapStart`: where the run of free entries around a position begins. Each gap
      but the first starts behind a used entry, so gaps are counted by the ends of
      the used blocks.
-/

namespace Framework

/-! ## Section 1: Lists without repetitions -/

section lists

variable {α : Type} {xs : List α} {S : Set α} {weight : α → Nat}

/-- A set listed without repetition has as many elements as the list. -/
theorem ncard_eq_length (hnodup : xs.Nodup) (hmem : ∀ a, a ∈ S ↔ a ∈ xs) :
    S.ncard = xs.length := by
  classical
  have hset : S = (xs.toFinset : Set α) := by
    ext a
    rw [hmem, Finset.mem_coe, List.mem_toFinset]
  rw [hset, Set.ncard_coe_finset, List.toFinset_card_of_nodup hnodup]

/-- A sum whose terms vanish outside a list is the sum over the list. -/
theorem finsum_eq_sum (hnodup : xs.Nodup) (hmem : ∀ a, weight a ≠ 0 → a ∈ xs) :
    ∑ᶠ a, weight a = (xs.map weight).sum := by
  classical
  rw [finsum_eq_finsetSum_of_support_subset (s := xs.toFinset), List.sum_toFinset _ hnodup]
  intro a ha
  exact List.mem_toFinset.mpr (hmem a ha)

end lists

/-! ## Section 2: Gaps -/

variable {map : Nat → Bool} {n k c i : Nat} {ends : Finset Nat}

/-- The free positions below `n`. -/
def freeEntries (map : Nat → Bool) (n : Nat) : Finset Nat :=
  (Finset.range n).filter fun c => map c = false

/-- `k` free entries next to each other. -/
def Gap (map : Nat → Bool) (n pos k : Nat) : Prop :=
  pos + k ≤ n ∧ ∀ c, pos ≤ c → c < pos + k → map c = false

/-- Where the gap starts that `c` is in. -/
def gapStart (map : Nat → Bool) : Nat → Nat
  | 0 => 0
  | c + 1 => if map c = true then c + 1 else gapStart map c

/-- A gap starts at or before its end. -/
theorem gapStart_le (map : Nat → Bool) (c : Nat) : gapStart map c ≤ c := by
  induction c with
  | zero => exact Nat.le_refl 0
  | succ c ih =>
    rw [gapStart]
    split
    · exact Nat.le_refl _
    · exact Nat.le_succ_of_le ih

/-- All positions from the start of a gap up to its end are free. -/
theorem free_of_gapStart_le (h : gapStart map c ≤ i) (hi : i < c) : map i = false := by
  induction c with
  | zero => exact absurd hi (Nat.not_lt_zero i)
  | succ c ih =>
    rw [gapStart] at h
    split at h
    · omega
    · next hfree =>
      rcases Nat.lt_succ_iff_lt_or_eq.mp hi with hi | rfl
      · exact ih h hi
      · exact Bool.eq_false_of_not_eq_true hfree

/-- Before a gap there is nothing, or a used entry. -/
theorem used_before_gapStart (h : gapStart map c = i + 1) : map i = true := by
  induction c with
  | zero => cases h
  | succ c ih =>
    rw [gapStart] at h
    split at h
    · next hused =>
      obtain rfl := Nat.succ.inj h
      exact hused
    · exact ih h

/-- A block of used entries has one end, and a gap follows each end. -/
theorem card_free_le (hends : ∀ i, i + 1 < n → map i = true → map (i + 1) = false → i ∈ ends)
    (hgap : ∀ pos, ¬ Gap map n pos (k + 1)) :
    (freeEntries map n).card ≤ k * (ends.card + 1) := by
  have hmaps : ∀ c ∈ freeEntries map n, gapStart map c ∈ insert 0 (ends.image (· + 1)) := by
    intro c hc
    obtain ⟨hn, hfree⟩ := Finset.mem_filter.mp hc
    rw [Finset.mem_range] at hn
    cases hstart : gapStart map c with
    | zero => exact Finset.mem_insert_self _ _
    | succ i =>
      have hle := gapStart_le map c
      have hnext : map (i + 1) = false := by
        rcases Nat.lt_or_eq_of_le hle with hlt | heq
        · exact free_of_gapStart_le (c := c) (Nat.le_of_eq hstart) (by omega)
        · rw [← hstart, heq]
          exact hfree
      apply Finset.mem_insert_of_mem
      apply Finset.mem_image.mpr
      exact ⟨i, hends i (by omega) (used_before_gapStart hstart) hnext, rfl⟩
  have hfiber : ∀ b ∈ insert 0 (ends.image (· + 1)),
      ((freeEntries map n).filter fun c => gapStart map c = b).card ≤ k := by
    intro b _
    have hsub : ((freeEntries map n).filter fun c => gapStart map c = b) ⊆
        Finset.Ico b (b + k) := by
      intro c hc
      obtain ⟨hmem, rfl⟩ := Finset.mem_filter.mp hc
      obtain ⟨hn, hfree⟩ := Finset.mem_filter.mp hmem
      rw [Finset.mem_range] at hn
      rw [Finset.mem_Ico]
      refine ⟨gapStart_le map c, Nat.lt_of_not_le fun hlong => ?_⟩
      -- the entries from the start of the gap up to `c` are free
      refine hgap (gapStart map c) ⟨by omega, fun i hi hi' => ?_⟩
      rcases Nat.lt_or_ge i c with hlt | hge
      · exact free_of_gapStart_le hi hlt
      · obtain rfl : i = c := by omega
        exact hfree
    calc ((freeEntries map n).filter fun c => gapStart map c = b).card
        ≤ (Finset.Ico b (b + k)).card := Finset.card_le_card hsub
      _ = k := by rw [Nat.card_Ico, Nat.add_sub_cancel_left]
  calc (freeEntries map n).card
      ≤ k * (insert 0 (ends.image (· + 1))).card :=
        Finset.card_le_mul_card_image_of_maps_to hmaps k hfiber
    _ ≤ k * (ends.card + 1) := by
        apply Nat.mul_le_mul_left
        exact (Finset.card_insert_le _ _).trans (Nat.succ_le_succ Finset.card_image_le)

/-- **There is a long gap**, if there are many free entries for few blocks of used ones. -/
theorem exists_gap (hends : ∀ i, i + 1 < n → map i = true → map (i + 1) = false → i ∈ ends)
    (hmany : k * (ends.card + 1) < (freeEntries map n).card) : ∃ pos, Gap map n pos (k + 1) := by
  by_contra hnone
  exact absurd (card_free_le hends fun pos hpos => hnone ⟨pos, hpos⟩) (Nat.not_le_of_lt hmany)

end Framework
