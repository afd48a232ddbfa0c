import VirtualFS.Store.Reachable

/-! # Name Buffers

    `set_entry_name` serves files and folders, and relies on a buffer of
    `MAX_NAME_LENGTH + 1` bytes. The buffer of a folder has that size; the
    buffer of a file is one byte shorter. A rename of a file therefore leaves
    `File.name` for exactly one length.

    * `RenamesInBuffer`: the rename writes the name and nothing behind it.
    * `FillsNameBuffer`: the name is accepted and has `MAX_NAME_LENGTH` bytes.
    * `rename_in_buffer_iff`: the first holds unless the second does.
-/

namespace VirtualFS

open Framework Prog Outcome VFSEntryStore

variable {es es' : VFSEntryStore} {f : FileRef} {p : FolderRef} {name : List Byte}

/-! ## Section 1: Copying a name -/

/-- The terminator needs a byte of its own. -/
theorem set_entry_name_eq_none_iff {k : Nat} (b : CharBuf k) :
    set_entry_name name b = none ↔ k ≤ (cutAtNul name).length := by
  have hlen : (cutAtNul name ++ [0]).length = (cutAtNul name).length + 1 := by
    rw [List.length_append, List.length_singleton]
  constructor
  · intro h
    by_contra hlt
    obtain ⟨b', hb'⟩ : ∃ b', b.write 0 (cutAtNul name ++ [0]) = some b' :=
      CharBuf.write_isSome (by omega)
    unfold set_entry_name at h
    rw [h] at hb'
    cases hb'
  · intro h
    exact CharBuf.write_eq_none (by omega)

/-- Whatever is copied ends inside the buffer. -/
theorem set_entry_name_terminated {k : Nat} {b b' : CharBuf k}
    (h : set_entry_name name b = some b') : b'.Terminated :=
  (CharBuf.str_of_write_zero h).2

/-- A name that passes the checks fills the buffer of a file up to the last
    byte or leaves room for the terminator. -/
theorem set_entry_name_file_eq_none_iff (hv : validate_sub_entry_name es p name = .ok ())
    (b : CharBuf MAX_NAME_LENGTH) :
    set_entry_name name b = none ↔ name.length = MAX_NAME_LENGTH := by
  obtain ⟨hok, hle, _⟩ := (validate_sub_entry_name_ok_iff es p name).mp hv
  rw [set_entry_name_eq_none_iff, cutAtNul_of_nul_not_mem hok.no_nul]
  omega

/-! ## Section 2: Renaming files -/

/-- Nothing but the bytes of `File.name` differs. -/
structure WritesOnlyName (es es' : VFSEntryStore) (f : FileRef) : Prop where
  /-- Of the record of `f` only the name is written. -/
  record_eq : ∃ name, es'.files f = { es.files f with name := name }
  /-- Other files keep their records. -/
  files_eq : ∀ g, g ≠ f → es'.files g = es.files g
  /-- So do all folders. -/
  folderAt_eq : ∀ r, es'.folderAt r = es.folderAt r
  files_allocation_map_eq : es'.files_allocation_map = es.files_allocation_map
  folders_allocation_map_eq : es'.folders_allocation_map = es.folders_allocation_map

theorem WritesOnlyName.refl (es : VFSEntryStore) (f : FileRef) : WritesOnlyName es es f :=
  ⟨⟨(es.files f).name, rfl⟩, fun _ _ => rfl, fun _ => rfl, rfl, rfl⟩

/-- One field of one record has been written. -/
theorem writesOnlyName_setFile (b : CharBuf MAX_NAME_LENGTH) :
    WritesOnlyName es (es.setFile f { es.files f with name := b }) f := by
  constructor
  case record_eq => exact ⟨b, Function.update_self ..⟩
  case files_eq => exact fun g hg => Function.update_of_ne hg _ _
  case folderAt_eq => exact fun r => folderAt_setFile ..
  case files_allocation_map_eq => rfl
  case folders_allocation_map_eq => rfl

/-- The call writes no byte outside `File.name`, and a name that it has set is
    terminated there. -/
def RenamesInBuffer (es : VFSEntryStore) (f : FileRef) (name : List Byte) : Prop :=
  (rename_file f name es).Sat
    (fun _ es' => WritesOnlyName es es' f ∧ (es'.files f).name.Terminated)
    (fun _ es' => WritesOnlyName es es' f) (fun _ => False)

/-- An acceptable and new name that is as long as the buffer. -/
def FillsNameBuffer (es : VFSEntryStore) (p : FolderRef) (name : List Byte) : Prop :=
  name.length = MAX_NAME_LENGTH ∧ (0 : Byte) ∉ name ∧ PATH_DELIMITER ∉ name ∧
    es.NameIsNew p name

/-- Names that fill the buffer are accepted ones of the maximal length. -/
theorem fillsNameBuffer_iff :
    FillsNameBuffer es p name ↔
      validate_sub_entry_name es p name = .ok () ∧ name.length = MAX_NAME_LENGTH := by
  rw [validate_sub_entry_name_ok_iff]
  constructor
  · intro ⟨hlen, hnul, hdelim, hnew⟩
    refine ⟨⟨⟨?_, hnul, hdelim, ?_⟩, hlen.le, hnew⟩, hlen⟩
    · intro rfl
      cases hlen
    · -- the name of the root is shorter
      intro rfl
      cases hlen
  · intro ⟨⟨hok, _, hnew⟩, hlen⟩
    exact ⟨hlen, hok.no_nul, hok.no_delimiter, hnew⟩

/-- The terminator of such a name is written behind the buffer. -/
theorem rename_file_overflows (hp : es.parentOf (.file f) = some p)
    (h : FillsNameBuffer es p name) : rename_file f name es = .fault .out_of_bounds := by
  obtain ⟨hv, hlen⟩ := fillsNameBuffer_iff.mp h
  have hp' : (es.files f).parent_folder = some p := hp
  have hnone := (set_entry_name_file_eq_none_iff hv (es.files f).name).mpr hlen
  simp [rename_file, hp', hv, hnone]

/-- **Renames stay in the buffer**, whatever the name, unless it is as long as the buffer
    and passes the checks. -/
theorem rename_in_buffer_iff (hp : es.parentOf (.file f) = some p) (name : List Byte) :
    RenamesInBuffer es f name ↔ ¬ FillsNameBuffer es p name := by
  have hp' : (es.files f).parent_folder = some p := hp
  unfold RenamesInBuffer
  -- The name fills the buffer: the terminator falls behind it.
  by_cases hfills : FillsNameBuffer es p name
  · rw [rename_file_overflows hp hfills, sat_fault]
    exact ⟨False.elim, fun hnot => hnot hfills⟩
  · refine ⟨fun _ => hfills, fun _ => ?_⟩
    -- Otherwise the name is refused, or there is room for it and its terminator.
    cases hv : validate_sub_entry_name es p name with
    | error e =>
      have hfail : rename_file f name es = .fail e es := by simp [rename_file, hp', hv]
      rw [hfail]
      exact WritesOnlyName.refl es f
    | ok _ =>
      cases hb : set_entry_name name (es.files f).name with
      | none =>
        exact absurd (fillsNameBuffer_iff.mpr
          ⟨hv, (set_entry_name_file_eq_none_iff hv _).mp hb⟩) hfills
      | some b =>
        have hrun : rename_file f name es =
            .ok () (es.setFile f { es.files f with name := b }) := by
          simp [rename_file, hp', hv, hb]
        rw [hrun, sat_ok]
        refine ⟨writesOnlyName_setFile b, ?_⟩
        rw [files_setFile, Function.update_self]
        exact set_entry_name_terminated hb

/-- The longest name that fits. -/
theorem rename_in_buffer_iff_run :
    ∃ s, runStore [.vfs_sub_file_init [97] .root] = some s ∧
      (RenamesInBuffer s.entry_store 0 (List.replicate 31 98) ↔
        ¬ FillsNameBuffer s.entry_store .root (List.replicate 31 98)) := by
  refine exists_of_run (Q := fun s => s.entry_store.parentOf (.file 0) = some .root)
    (by decide +kernel) fun s _ hp => ?_
  exact rename_in_buffer_iff hp _

/-- One byte more: the checks accept the name, and the terminator leaves the buffer. -/
theorem rename_not_in_buffer :
    ∃ s, runStore [.vfs_sub_file_init [97] .root] = some s ∧
      s.entry_store.committed (.file 0) ∧ s.entry_store.parentOf (.file 0) = some .root ∧
      s.entry_store.live .root ∧
      ¬ RenamesInBuffer s.entry_store 0 (List.replicate 32 98) := by
  refine exists_of_run
    (Q := fun s => s.entry_store.committed (.file 0) ∧
      s.entry_store.parentOf (.file 0) = some .root ∧
      validate_sub_entry_name s.entry_store .root (List.replicate 32 98) = .ok ())
    (by decide +kernel) fun s _ ⟨hf, hp, hv⟩ => ⟨hf, hp, live_root, fun hbuf => ?_⟩
  unfold RenamesInBuffer at hbuf
  rw [rename_file_overflows hp (fillsNameBuffer_iff.mpr ⟨hv, rfl⟩)] at hbuf
  exact hbuf

end VirtualFS
