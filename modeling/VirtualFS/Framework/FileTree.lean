import Mathlib.Data.Option.Basic
import VirtualFS.Framework.PathMap

/-! # File Trees

    A file system as its users see it: a path leads to a folder, to a file with
    its data, or nowhere. Only folders have entries, and the root is one. The
    operations are partial: what they refuse is not defined.

    * `FileTree`: a path map in which only folders have something below them; the
      condition is a field, so each operation has to show that it is kept.
    * `write`, `remove`, `create`, `relocate`: the operations, each with a lemma
      that says when it is defined and what the new tree is.
    * `remove_create`, `relocate_relocate`: two of them undo each other.
-/

namespace Framework

/-- What a path leads to. -/
inductive Item (D : Type) where
  | folder
  | file (data : D)
  deriving DecidableEq

/-- Folders are the items without data. -/
def Item.isFolder {D : Type} : Item D → Bool
  | folder => true
  | file _ => false

/-- A path map whose paths lead through folders. -/
@[ext] structure FileTree (L D : Type) where
  item : PathMap L (Item D)
  root_folder : item [] = some .folder
  parent_folder : ∀ l x, (item (l ++ [x])).isSome → item l = some .folder

namespace FileTree

variable {L D : Type} {t t' : FileTree L D} {l k s old new : List L} {x : L} {v : Item D} {d : D}

/-! ## Section 1: Paths that lead somewhere -/

/-- Above an entry there are folders only. -/
theorem folder_of_isSome (h : (t.item (l ++ s)).isSome) (hs : s ≠ []) :
    t.item l = some .folder := by
  -- From the lower end of the path: each step up leads from an item to the folder it is in.
  induction s using List.reverseRecOn with
  | nil => exact absurd rfl hs
  | append_singleton s x ih =>
    rw [← List.append_assoc] at h
    have hparent := t.parent_folder _ x h
    by_cases hnil : s = []
    · subst hnil
      simpa using hparent
    · exact ih (by rw [hparent]; rfl) hnil

/-- Everything above an item exists, because only folders have something below them. -/
theorem isSome_of_prefix (h : (t.item k).isSome) (hl : l <+: k) : (t.item l).isSome := by
  obtain ⟨s, rfl⟩ := hl
  by_cases hs : s = []
  · subst hs
    simpa using h
  · rw [folder_of_isSome h hs]
    rfl

/-- A path that leads nowhere cannot be continued. -/
theorem item_append_eq_none (h : t.item l = none) : t.item (l ++ s) = none := by
  rw [← Option.not_isSome_iff_eq_none]
  intro hsome
  have := isSome_of_prefix hsome (List.prefix_append l s)
  rw [h] at this
  cases this

/-- The root alone. -/
def empty [DecidableEq L] : FileTree L D where
  item := fun l => if l = [] then some .folder else none
  root_folder := if_pos rfl
  parent_folder := by
    intro l x h
    rw [if_neg (by simp)] at h
    cases h

/-! ## Section 2: Operations -/

section operations

variable [DecidableEq L]

/-- New data for the file at `l`. -/
def write (t : FileTree L D) (l : List L) (d : D) : Option (FileTree L D) :=
  match h : t.item l with
  | some (.file _) =>
    some
      { item := Function.update t.item l (some (.file d))
        root_folder := by
          rw [Function.update_of_ne]
          · exact t.root_folder
          · rintro rfl
            rw [t.root_folder] at h
            cases h
        parent_folder := by
          intro k y hk
          have hfolder : t.item k = some .folder := by
            apply t.parent_folder k y
            by_cases heq : k ++ [y] = l
            · rw [heq, h]
              rfl
            · rwa [Function.update_of_ne heq] at hk
          rw [Function.update_of_ne]
          · exact hfolder
          · rintro rfl
            rw [h] at hfolder
            cases hfolder }
  | _ => none

/-- Writing needs a file, and changes that file only. -/
theorem write_eq_some :
    t.write l d = some t' ↔
      (∃ d', t.item l = some (.file d')) ∧
        t'.item = Function.update t.item l (some (.file d)) := by
  unfold write
  split
  · next d' h =>
    rw [Option.some.injEq, FileTree.ext_iff]
    exact ⟨fun heq => ⟨⟨d', h⟩, heq.symm⟩, fun heq => heq.2.symm⟩
  · next h =>
    constructor
    · intro heq
      cases heq
    · rintro ⟨⟨d', hd'⟩, -⟩
      exact absurd hd' (h d')

/-- The old data can be written back. -/
theorem write_write {d' : D} (hd : t.item l = some (.file d)) (h : t.write l d' = some t') :
    t'.write l d = some t := by
  obtain ⟨-, hitem⟩ := write_eq_some.mp h
  refine write_eq_some.mpr ⟨⟨d', by simp [hitem]⟩, ?_⟩
  rw [hitem, Function.update_idem, ← hd, Function.update_eq_self]

/-- The entry at `l` and all that is below it are gone. -/
def remove (t : FileTree L D) (l : List L) : Option (FileTree L D) :=
  if h : l ≠ [] ∧ (t.item l).isSome then
    some
      { item := t.item.prune (l <+: ·)
        root_folder := by
          rw [PathMap.prune_of_not]
          · exact t.root_folder
          · simpa using h.1
        parent_folder := by
          intro k y hk
          obtain ⟨v, hv⟩ := Option.isSome_iff_exists.mp hk
          obtain ⟨hpre, hv⟩ := PathMap.prune_eq_some.mp hv
          rw [PathMap.prune_of_not fun h => hpre (h.trans (List.prefix_append _ _))]
          apply t.parent_folder k y
          rw [hv]
          rfl }
  else none

/-- Removing takes away the item with everything below it; the root cannot be removed. -/
theorem remove_eq_some :
    t.remove l = some t' ↔
      l ≠ [] ∧ (t.item l).isSome ∧ t'.item = t.item.prune (l <+: ·) := by
  unfold remove
  split
  · next h =>
    rw [Option.some.injEq, FileTree.ext_iff]
    exact ⟨fun heq => ⟨h.1, h.2, heq.symm⟩, fun heq => heq.2.2.symm⟩
  · next h =>
    constructor
    · intro heq
      cases heq
    · exact fun heq => absurd ⟨heq.1, heq.2.1⟩ h

variable [DecidableEq D]

/-- A new entry of the folder at `l`. -/
def create (t : FileTree L D) (l : List L) (x : L) (v : Item D) : Option (FileTree L D) :=
  if h : t.item l = some .folder ∧ t.item (l ++ [x]) = none then
    some
      { item := Function.update t.item (l ++ [x]) (some v)
        root_folder := by
          rw [Function.update_of_ne (by simp)]
          exact t.root_folder
        parent_folder := by
          intro k y hk
          by_cases heq : k ++ [y] = l ++ [x]
          · obtain ⟨rfl, -⟩ := List.append_inj' heq rfl
            rw [Function.update_of_ne (by simp)]
            exact h.1
          · rw [Function.update_of_ne heq] at hk
            have hfolder := t.parent_folder k y hk
            rw [Function.update_of_ne]
            · exact hfolder
            · -- nothing was below the new entry
              rintro rfl
              rw [h.2] at hfolder
              cases hfolder }
  else none

/-- Creating needs a folder without an item of that name, and adds this item only. -/
theorem create_eq_some :
    t.create l x v = some t' ↔
      t.item l = some .folder ∧ t.item (l ++ [x]) = none ∧
        t'.item = Function.update t.item (l ++ [x]) (some v) := by
  unfold create
  split
  · next h =>
    rw [Option.some.injEq, FileTree.ext_iff]
    exact ⟨fun heq => ⟨h.1, h.2, heq.symm⟩, fun heq => heq.2.2.symm⟩
  · next h =>
    constructor
    · intro heq
      cases heq
    · exact fun heq => absurd ⟨heq.1, heq.2.1⟩ h

/-- The entry at `old` becomes the entry `x` of the folder at `l`, with all that is below. -/
def relocate (t : FileTree L D) (old l : List L) (x : L) : Option (FileTree L D) :=
  if h : (old ≠ [] ∧ (t.item old).isSome) ∧ ¬ old <+: l ∧ t.item l = some .folder ∧
      t.item (l ++ [x]) = none then
    some
      { item := t.item.rebase old (l ++ [x])
        root_folder := by
          rw [PathMap.rebase_other]
          · exact t.root_folder
          · simp
          · simpa using h.1.1
        parent_folder := by
          intro k y hk
          by_cases hnew : l ++ [x] <+: k
          · -- below the new place as below the old one
            obtain ⟨s, rfl⟩ := hnew
            rw [List.append_assoc, PathMap.rebase_new, ← List.append_assoc] at hk
            rw [PathMap.rebase_new]
            exact t.parent_folder _ y hk
          · by_cases heq : k = l
            · subst heq
              rw [PathMap.rebase_other hnew h.2.1]
              exact h.2.2.1
            · have hnew' : ¬ l ++ [x] <+: k ++ [y] := by
                intro hpre
                rcases List.prefix_concat_iff.mp hpre with heq' | hpre
                · exact heq (List.append_inj' heq' rfl).1.symm
                · exact hnew hpre
              have hold' : ¬ old <+: k ++ [y] := by
                intro hpre
                rw [PathMap.rebase_old hnew' hpre] at hk
                cases hk
              have hold : ¬ old <+: k := fun hpre => hold' (hpre.trans (List.prefix_append _ _))
              rw [PathMap.rebase_other hnew' hold'] at hk
              rw [PathMap.rebase_other hnew hold]
              exact t.parent_folder k y hk }
  else none

/-- Relocating needs an item below the root, a folder outside of it to hang it in, and a name that
    is not taken there; everything below the item goes along. -/
theorem relocate_eq_some :
    t.relocate old l x = some t' ↔
      (old ≠ [] ∧ (t.item old).isSome) ∧ ¬ old <+: l ∧ t.item l = some .folder ∧
        t.item (l ++ [x]) = none ∧ t'.item = t.item.rebase old (l ++ [x]) := by
  unfold relocate
  split
  · next h =>
    rw [Option.some.injEq, FileTree.ext_iff]
    exact ⟨fun heq => ⟨h.1, h.2.1, h.2.2.1, h.2.2.2, heq.symm⟩, fun heq => heq.2.2.2.2.symm⟩
  · next h =>
    constructor
    · intro heq
      cases heq
    · exact fun heq => absurd ⟨heq.1, heq.2.1, heq.2.2.1, heq.2.2.2.1⟩ h

/-! ## Section 3: Undoing -/

/-- A new entry can be removed. -/
theorem remove_create (h : t.create l x v = some t') : t'.remove (l ++ [x]) = some t := by
  obtain ⟨-, hfree, hitem⟩ := create_eq_some.mp h
  refine remove_eq_some.mpr ⟨by simp, by simp [hitem], ?_⟩
  funext k
  rw [hitem]
  by_cases hk : l ++ [x] <+: k
  · rw [PathMap.prune_of hk]
    obtain ⟨s, rfl⟩ := hk
    exact item_append_eq_none hfree
  · rw [PathMap.prune_of_not hk, Function.update_of_ne]
    rintro rfl
    exact hk (List.prefix_refl _)

/-- What was below the old place is below the new one. -/
theorem item_relocated (h : t.relocate old l x = some t') (s : List L) :
    t'.item (l ++ [x] ++ s) = t.item (old ++ s) := by
  obtain ⟨-, -, -, -, hitem⟩ := relocate_eq_some.mp h
  rw [hitem, PathMap.rebase_new]

/-- Entries are found where the relocation has taken them. -/
theorem item_reroot (h : t.relocate old l x = some t') (hk : (t.item k).isSome) :
    t'.item (PathMap.reroot old (l ++ [x]) k) = t.item k := by
  obtain ⟨-, -, -, hfree, hitem⟩ := relocate_eq_some.mp h
  by_cases hold : old <+: k
  · obtain ⟨s, rfl⟩ := hold
    rw [PathMap.reroot_append, item_relocated h]
  · have hnew : ¬ l ++ [x] <+: k := by
      intro hpre
      have hsome := isSome_of_prefix hk hpre
      rw [hfree] at hsome
      cases hsome
    rw [PathMap.reroot_other hold, hitem, PathMap.rebase_other hnew hold]

/-- What has been moved or renamed can be put back. -/
theorem relocate_relocate {y : L} (h : t.relocate (k ++ [x]) l y = some t') :
    t'.relocate (l ++ [y]) k x = some t := by
  obtain ⟨⟨-, hsome⟩, hcycle, hfolder, hfree, hitem⟩ := relocate_eq_some.mp h
  have hparent := t.parent_folder k x hsome
  have hk : ¬ l ++ [y] <+: k := by
    intro hpre
    have := isSome_of_prefix (by rw [hparent]; rfl) hpre
    rw [hfree] at this
    cases this
  have hk' : ¬ l ++ [y] <+: k ++ [x] := by
    intro hpre
    have := isSome_of_prefix hsome hpre
    rw [hfree] at this
    cases this
  have hnew := item_relocated h []
  have hbelow : ¬ k ++ [x] <+: k := by
    intro hpre
    have hlength := hpre.length_le
    rw [List.length_append] at hlength
    exact absurd hlength (Nat.not_succ_le_self _)
  refine relocate_eq_some.mpr ⟨⟨by simp, ?_⟩, hk, ?_, ?_, ?_⟩
  · rw [List.append_nil, List.append_nil] at hnew
    rwa [hnew]
  · rw [hitem, PathMap.rebase_other hk hbelow]
    exact hparent
  · rw [hitem, PathMap.rebase_old hk' (List.prefix_refl _)]
  · rw [hitem, PathMap.rebase_rebase fun s => item_append_eq_none hfree]

end operations

/-- Some of what was strictly below `l` is gone, and nothing else has changed. -/
def PrunedBelow (t t' : FileTree L D) (l : List L) : Prop :=
  ∀ k, t'.item k = t.item k ∨ (t'.item k = none ∧ l <+: k ∧ k ≠ l)

end FileTree

end Framework
