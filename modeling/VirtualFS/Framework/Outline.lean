import Mathlib.Data.List.Infix

/-! # Outlines

    A list of paths is written as an outline if each line shows the depth and
    the last label of a path only. The paths can be read back if each of them
    hangs from the one in the line before, or from a path above that. A
    traversal that goes down before it goes on makes such a list.

    * `Outlined.line`: what is written of an entry, its depth and its label.
    * `Outlined.Nested`: each entry hangs from the path in front of it.
    * `read_lines`: a nested list is read back from its lines.
    * `textLines`: a text is cut at its separators.
-/

namespace Framework

/-- A line of an outline: what hangs at `parent` under `label`, with a note. -/
structure Outlined (L B : Type) where
  parent : List L
  label : L
  note : B

namespace Outlined

variable {L B : Type} {last k : List L} {es es' : List (Outlined L B)} {e : Outlined L B}

/-- The path of a listed entry. -/
def path (e : Outlined L B) : List L := e.parent ++ [e.label]

/-- What the line shows. -/
def line (e : Outlined L B) : Nat × L × B := (e.parent.length, e.label, e.note)

/-- The lines, read behind the path `last`. -/
def read (last : List L) : List (Nat × L × B) → List (Outlined L B)
  | [] => []
  | (depth, label, note) :: lines =>
    ⟨last.take depth, label, note⟩ :: read (last.take depth ++ [label]) lines

/-- Each parent is the path before it or above that. -/
def Nested (last : List L) : List (Outlined L B) → Prop
  | [] => True
  | e :: es => e.parent <+: last ∧ Nested e.path es

/-- **Round trip**: nested lines say which paths they stand for. -/
theorem read_lines (h : Nested last es) : read last (es.map line) = es := by
  -- The lines are read one by one; `last` is the path of the line before.
  induction es generalizing last with
  | nil => rfl
  | cons e es ih =>
    obtain ⟨hparent, hrest⟩ := h
    have htake : last.take e.parent.length = e.parent :=
      (List.prefix_iff_eq_take.mp hparent).symm
    show Outlined.mk (last.take e.parent.length) e.label e.note ::
      read (last.take e.parent.length ++ [e.label]) (es.map line) = _
    rw [htake]
    exact congrArg (e :: ·) (ih hrest)

/-! ## Traversals -/

/-- All lines are below the path `k`. -/
def Under (k : List L) (es : List (Outlined L B)) : Prop := ∀ e ∈ es, k <+: e.parent

/-- A listing that follows an entry may also follow an entry further down. -/
theorem Nested.weaken (h : Nested k es) (hk : k <+: last) : Nested last es := by
  cases es with
  | nil => trivial
  | cons e es => exact ⟨h.1.trans hk, h.2⟩

/-- What is nested below `k` may follow other lines below `k`. -/
theorem Nested.append (h : Nested last es) (hlast : k <+: last) (hunder : Under k es)
    (h' : Nested k es') : Nested last (es ++ es') := by
  induction es generalizing last with
  | nil => exact h'.weaken hlast
  | cons e es ih =>
    have hpath : k <+: e.path :=
      (hunder e (List.mem_cons_self ..)).trans (List.prefix_append _ _)
    exact ⟨h.1, ih h.2 hpath fun e' he' => hunder e' (List.mem_cons_of_mem _ he')⟩

/-- Blocks that stay below `k` stay so one after the other. -/
theorem Under.flatMap {α : Type} {as : List α} {block : α → List (Outlined L B)}
    (h : ∀ a ∈ as, Under k (block a)) : Under k (as.flatMap block) := by
  intro e he
  obtain ⟨a, ha, he⟩ := List.mem_flatMap.mp he
  exact h a ha e he

/-- Blocks below `k`, one after the other. -/
theorem Nested.flatMap {α : Type} {as : List α} {block : α → List (Outlined L B)}
    (hunder : ∀ a ∈ as, Under k (block a)) (h : ∀ a ∈ as, Nested k (block a)) :
    Nested k (as.flatMap block) := by
  induction as with
  | nil => trivial
  | cons a as ih =>
    rw [List.flatMap_cons]
    apply (h a (List.mem_cons_self ..)).append (List.prefix_refl k)
    · exact hunder a (List.mem_cons_self ..)
    · exact ih (fun a' ha' => hunder a' (List.mem_cons_of_mem _ ha'))
        fun a' ha' => h a' (List.mem_cons_of_mem _ ha')

/-- A line and then what is below it. -/
theorem Nested.cons (h : Nested e.path es) : Nested e.parent (e :: es) :=
  ⟨List.prefix_refl _, h⟩

end Outlined

/-! ## Lines of a text -/

section text

variable {α : Type} [DecidableEq α] {sep : α} {x rest : List α}

/-- The lines of a text, each of which ends with the separator. -/
def textLines (sep : α) : List α → List (List α)
  | [] => []
  | c :: cs =>
    if c = sep then [] :: textLines sep cs
    else
      match textLines sep cs with
      | [] => [[c]]
      | l :: ls => (c :: l) :: ls

/-- The first line is read up to its separator. -/
theorem textLines_cons (hx : sep ∉ x) :
    textLines sep (x ++ sep :: rest) = x :: textLines sep rest := by
  induction x with
  | nil => simp [textLines]
  | cons c cs ih =>
    have hc : c ≠ sep := by
      rintro rfl
      exact hx (List.mem_cons_self ..)
    have hcs : sep ∉ cs := fun hmem => hx (List.mem_cons_of_mem _ hmem)
    rw [List.cons_append, textLines, if_neg hc, ih hcs]

/-- Lines written one after the other, each ended by the separator, are read back. -/
theorem textLines_flatMap {xs : List (List α)} (hxs : ∀ x ∈ xs, sep ∉ x) :
    textLines sep (xs.flatMap fun x => x ++ [sep]) = xs := by
  induction xs with
  | nil => rfl
  | cons x xs ih =>
    rw [List.flatMap_cons, List.append_assoc, List.singleton_append,
      textLines_cons (hxs x (List.mem_cons_self ..)),
      ih fun x' hx' => hxs x' (List.mem_cons_of_mem _ hx')]

end text

end Framework
