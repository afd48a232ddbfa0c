import Mathlib.Data.List.TakeWhile

/-! # Words

    The maximal parts of a list that do not contain a separator, read from the
    front: `words` of the whole list, and `laterWords`, those that begin behind
    the first separator.

    The first word of a list and the words behind it are told apart by where a
    word begins; so a scan that looks at one element and at the next one finds the
    same words.
-/

namespace Framework

variable {α : Type} [DecidableEq α] {sep c : α} {l l' : List α}

/-- The non-empty pieces between the separators. -/
def words (sep : α) (l : List α) : List (List α) := (l.splitOn sep).filter (· ≠ [])

/-- The words without the one that the list starts with. -/
def laterWords (sep : α) (l : List α) : List (List α) := (l.splitOn sep).tail.filter (· ≠ [])

@[simp] theorem words_cons_sep : words sep (sep :: l) = words sep l := by
  simp [words, List.splitOn_cons_eq_if_modifyHead]

@[simp] theorem laterWords_cons_sep : laterWords sep (sep :: l) = words sep l := by
  simp [words, laterWords, List.splitOn_cons_eq_if_modifyHead]

/-- A character of the current word is skipped. -/
theorem laterWords_cons_ne (h : c ≠ sep) : laterWords sep (c :: l) = laterWords sep l := by
  unfold laterWords
  rw [List.splitOn_cons_eq_if_modifyHead, if_neg (by simpa using h)]
  match l.splitOn sep with
  | [] => rfl
  | piece :: pieces => rfl

/-- The first piece is what stands in front of the first separator. -/
theorem splitOn_eq_takeWhile_cons (sep : α) (l : List α) :
    l.splitOn sep = l.takeWhile (· ≠ sep) :: (l.splitOn sep).tail := by
  -- Up to the first separator the head of the list belongs to the first part.
  induction l with
  | nil => rfl
  | cons c l ih =>
    rw [List.splitOn_cons_eq_if_modifyHead]
    by_cases h : c = sep
    · simp [h]
    · rw [if_neg (by simpa using h), List.takeWhile_cons_of_pos (by simpa using h), ih]
      rfl

/-- The first word ends at the first separator. -/
theorem words_cons_ne (h : c ≠ sep) :
    words sep (c :: l) = (c :: l).takeWhile (· ≠ sep) :: laterWords sep l := by
  have hne : (c :: l).takeWhile (· ≠ sep) ≠ [] := by simp [h]
  rw [← laterWords_cons_ne h]
  unfold words laterWords
  rw [splitOn_eq_takeWhile_cons, List.filter_cons_of_pos (by simpa using hne)]
  rfl

/-- Separators in front do not matter. -/
theorem words_append (h : ∀ x ∈ l', x = sep) : words sep (l' ++ l) = words sep l := by
  induction l' with
  | nil => rfl
  | cons x l' ih =>
    rw [h x (List.mem_cons_self ..), List.cons_append, words_cons_sep]
    exact ih fun y hy => h y (List.mem_cons_of_mem x hy)

/-- The parts of a list consist of its elements. -/
theorem mem_of_mem_splitOn {w : List α} (hw : w ∈ l.splitOn sep) {x : α} (hx : x ∈ w) : x ∈ l := by
  -- The head of the list starts a new part or is put in front of the first one.
  induction l generalizing w with
  | nil =>
    rw [List.splitOn_nil, List.mem_singleton] at hw
    rwa [← hw]
  | cons c l ih =>
    rw [List.splitOn_cons_eq_if_modifyHead] at hw
    split at hw
    · rcases List.mem_cons.mp hw with rfl | hw
      · exact absurd hx List.not_mem_nil
      · exact List.mem_cons_of_mem c (ih hw hx)
    · rw [splitOn_eq_takeWhile_cons, List.modifyHead_cons] at hw
      rcases List.mem_cons.mp hw with rfl | hw
      · rcases List.mem_cons.mp hx with rfl | hx
        · exact List.mem_cons_self ..
        · exact List.mem_cons_of_mem c ((List.takeWhile_sublist _).subset hx)
      · exact List.mem_cons_of_mem c (ih (List.mem_of_mem_tail hw) hx)

/-- A word is not empty. -/
theorem ne_nil_of_mem_words {w : List α} (hw : w ∈ words sep l) : w ≠ [] := by
  simpa using (List.mem_filter.mp hw).2

/-- The words of a list consist of its elements. -/
theorem mem_of_mem_words {w : List α} (hw : w ∈ words sep l) {x : α} (hx : x ∈ w) : x ∈ l :=
  mem_of_mem_splitOn (List.mem_filter.mp hw).1 hx

end Framework
