import VirtualFS.System.Queries

/-! # Names of Sub-Entries

    What comparing, validating and searching names computes: the comparison
    loop decides equality of strings, a validated name is acceptable and new
    among the children of the folder, and a search returns a child of that
    name.

    * `NameAcceptable`: not empty, without NUL and delimiter, not the root's name.
    * `VFSEntryStore.NameIsNew`: no child of the folder has the name.
    * `validate_sub_entry_name_ok_iff`: the two and the length are what is checked.
-/

namespace VirtualFS

open Framework

/-! ## Section 1: Comparison -/

theorem cutAtNul_cons {b : Byte} (hb : b ≠ 0) (bs : List Byte) :
    cutAtNul (b :: bs) = b :: cutAtNul bs := by
  simp [cutAtNul, hb]

/-- Both strings end at a NUL or with their bytes. -/
theorem name_eq_loop_iff (initialised name : List Byte) :
    name_eq_loop initialised name = true ↔ cutAtNul initialised = cutAtNul name := by
  -- On the second name; the first one is read next to it and may end earlier.
  induction name generalizing initialised with
  | nil =>
    cases initialised with
    | nil => simp [name_eq_loop, cutAtNul]
    | cons b bs =>
      by_cases hb : b = 0 <;> simp [name_eq_loop, cutAtNul, hb]
  | cons c cs ih =>
    cases initialised with
    | nil => by_cases hc : c = 0 <;> simp [name_eq_loop, cutAtNul, hc]
    | cons b bs =>
      by_cases hb : b = 0
      · by_cases hc : c = 0 <;> simp [name_eq_loop, cutAtNul, hb, hc]
      · rw [cutAtNul_cons hb]
        by_cases hbc : b = c
        · subst hbc
          rw [cutAtNul_cons hb]
          simp [name_eq_loop, hb, ih bs]
        · by_cases hc : c = 0
          · simp [name_eq_loop, cutAtNul, hb, hc]
          · rw [cutAtNul_cons hc]
            simp [name_eq_loop, hb, hbc]

/-- The comparison decides equality with the string that the name starts with. -/
theorem name_eq_of_ne_nil {n : Nat} (b : CharBuf n) {name : List Byte} (hne : name ≠ []) :
    name_eq b name = .ok (decide (b.str = cutAtNul name)) := by
  have hlen : name.length ≠ 0 := fun h => hne (List.length_eq_zero_iff.mp h)
  have hiff := name_eq_loop_iff b.bytes name
  unfold name_eq
  rw [if_neg hlen, CharBuf.str]
  by_cases h : cutAtNul b.bytes = cutAtNul name
  · rw [hiff.mpr h]; simp [h]
  · have hfalse : name_eq_loop b.bytes name = false :=
      Bool.eq_false_iff.mpr fun ht => h (hiff.mp ht)
    rw [hfalse]
    simp [h]

/-- The scan finds the first occupant of that name. -/
theorem scan_sub_entries_eq {α : Type} {n k : Nat} (name_of : α → CharBuf n)
    (slots : Nat → Option α) {name : List Byte} (hne : name ≠ []) (hname : (0 : Byte) ∉ name) :
    scan_sub_entries name_of name ((List.range k).map slots) =
      .ok ((occupants k slots).find? fun x => decide ((name_of x).str = name)) := by
  unfold occupants
  induction List.range k with
  | nil => rfl
  | cons i is ih =>
    rw [List.map_cons, List.filterMap_cons]
    cases hi : slots i with
    | none => exact ih
    | some x =>
      rw [scan_sub_entries, name_eq_of_ne_nil _ hne, cutAtNul_of_nul_not_mem hname]
      by_cases hx : (name_of x).str = name
      · simp [hx, bind, Except.bind, pure, Except.pure]
      · simp [hx, ih, bind, Except.bind]

/-! ## Section 2: Children and their names -/

@[simp] theorem file_mem_children {es : VFSEntryStore} {r : FolderRef} {f : FileRef} :
    .file f ∈ es.children r ↔ ∃ i, i < MAX_SUB_FILES_AMOUNT ∧
      (es.folderAt r).sub_files i = some f := by
  simp [VFSEntryStore.children, mem_occupants]

@[simp] theorem folder_mem_children {es : VFSEntryStore} {r d : FolderRef} :
    .folder d ∈ es.children r ↔ ∃ i, i < MAX_SUB_FOLDERS_AMOUNT ∧
      (es.folderAt r).sub_folders i = some d := by
  simp [VFSEntryStore.children, mem_occupants]

theorem has_sub_entries_iff {es : VFSEntryStore} {r : FolderRef} :
    has_sub_entries (es.folderAt r) = true ↔ es.children r ≠ [] := by
  rw [Ne, List.eq_nil_iff_forall_not_mem]
  simp only [has_sub_entries, Folder.fileSlots, Folder.folderSlots, List.any_map,
    Bool.or_eq_true, List.any_eq_true, List.mem_range, Function.comp_apply, not_forall,
    not_not, Option.isSome_iff_exists]
  constructor
  · rintro (⟨i, hi, f, hf⟩ | ⟨i, hi, d, hd⟩)
    · exact ⟨.file f, file_mem_children.mpr ⟨i, hi, hf⟩⟩
    · exact ⟨.folder d, folder_mem_children.mpr ⟨i, hi, hd⟩⟩
  · intro ⟨n, hn⟩
    cases n with
    | file f =>
      obtain ⟨i, hi, hf⟩ := file_mem_children.mp hn
      exact Or.inl ⟨i, hi, f, hf⟩
    | folder d =>
      obtain ⟨i, hi, hd⟩ := folder_mem_children.mp hn
      exact Or.inr ⟨i, hi, d, hd⟩

/-! ## Section 3: Validation -/

/-- A string that can be the name of an entry. -/
structure NameAcceptable (name : List Byte) : Prop where
  not_empty : name ≠ []
  /-- The name is a string up to its end. -/
  no_nul : (0 : Byte) ∉ name
  /-- It is one node of a path. -/
  no_delimiter : PATH_DELIMITER ∉ name
  /-- A path that starts with it is not an absolute one. -/
  not_root_name : name ≠ root_name

/-- No child of the folder has the name. -/
def VFSEntryStore.NameIsNew (es : VFSEntryStore) (r : FolderRef) (name : List Byte) : Prop :=
  ∀ n ∈ es.children r, es.nameOf n ≠ name

/-- The characters of a valid name. -/
theorem name_chars_are_valid_iff (name : List Byte) :
    name_chars_are_valid name = true ↔ (0 : Byte) ∉ name ∧ PATH_DELIMITER ∉ name := by
  simp only [name_chars_are_valid, INVALID_CHARS, List.all_cons, List.all_nil,
    Bool.and_true, List.all_eq_true, Bool.and_eq_true, bne_iff_ne, ne_eq]
  constructor
  · intro h
    exact ⟨fun h0 => (h 0 h0).1 rfl, fun hd => (h _ hd).2 rfl⟩
  · intro ⟨h0, hd⟩ c hc
    exact ⟨fun h => h0 (h ▸ hc), fun h => hd (h ▸ hc)⟩

/-- The scan decides whether the name is new. -/
theorem sub_entry_name_is_unique_eq (es : VFSEntryStore) (r : FolderRef) {name : List Byte}
    (hne : name ≠ []) (hname : (0 : Byte) ∉ name) :
    ∃ b, sub_entry_name_is_unique es r name = .ok b ∧ (b = true ↔ es.NameIsNew r name) := by
  unfold sub_entry_name_is_unique
  simp only [Folder.fileSlots, Folder.folderSlots,
    scan_sub_entries_eq _ _ hne hname, bind, Except.bind]
  -- the files first; the folders are scanned only if none of them has the name
  cases hf : (occupants MAX_SUB_FILES_AMOUNT (es.folderAt r).sub_files).find?
      fun f => decide ((es.fileName f).str = name) with
  | some f =>
    refine ⟨false, rfl, by simp, fun hnew => ?_⟩
    have hmem : VFSNode.file f ∈ es.children r :=
      List.mem_append_left _ (List.mem_map_of_mem (List.mem_of_find?_eq_some hf))
    have := List.find?_some hf
    exact absurd (of_decide_eq_true this) (hnew _ hmem)
  | none =>
    have hfiles := List.find?_eq_none.mp hf
    cases hd : (occupants MAX_SUB_FOLDERS_AMOUNT (es.folderAt r).sub_folders).find?
        fun d => decide ((es.folderName d).str = name) with
    | some d =>
      refine ⟨false, rfl, by simp, fun hnew => ?_⟩
      have hmem : VFSNode.folder d ∈ es.children r :=
        List.mem_append_right _ (List.mem_map_of_mem (List.mem_of_find?_eq_some hd))
      have := List.find?_some hd
      exact absurd (of_decide_eq_true this) (hnew _ hmem)
    | none =>
      have hfolders := List.find?_eq_none.mp hd
      refine ⟨true, rfl, fun _ => ?_, fun _ => rfl⟩
      intro n hn
      rcases List.mem_append.mp hn with hn | hn
      · obtain ⟨f, hf, rfl⟩ := List.mem_map.mp hn
        exact fun h => hfiles f hf (decide_eq_true h)
      · obtain ⟨d, hd, rfl⟩ := List.mem_map.mp hn
        exact fun h => hfolders d hd (decide_eq_true h)

/-- **Validation of names**: the name is acceptable, not too long and new. -/
theorem validate_sub_entry_name_ok_iff (es : VFSEntryStore) (r : FolderRef)
    (name : List Byte) :
    validate_sub_entry_name es r name = .ok () ↔
      NameAcceptable name ∧ name.length ≤ MAX_NAME_LENGTH ∧ es.NameIsNew r name := by
  unfold validate_sub_entry_name
  -- One check after the other, in the order of the source; each failing one contradicts a part of
  -- the right side.
  by_cases hlen : name.length > MAX_NAME_LENGTH
  · rw [if_pos hlen]
    constructor
    · intro h; cases h
    · intro ⟨_, hle, _⟩; omega
  by_cases hnil : name.length = 0
  · rw [if_neg hlen, if_pos hnil]
    constructor
    · intro h; cases h
    · intro ⟨hok, _⟩
      exact absurd (List.length_eq_zero_iff.mp hnil) hok.not_empty
  by_cases hchars : name_chars_are_valid name = false
  · rw [if_neg hlen, if_neg hnil, if_pos hchars]
    constructor
    · intro h; cases h
    · intro ⟨hok, _⟩
      rw [(name_chars_are_valid_iff name).mpr ⟨hok.no_nul, hok.no_delimiter⟩] at hchars
      cases hchars
  by_cases hroot : name = root_name
  · rw [if_neg hlen, if_neg hnil, if_neg hchars, if_pos ⟨by rw [hroot], hroot⟩]
    constructor
    · intro h; cases h
    · intro ⟨hok, _⟩
      exact absurd hroot hok.not_root_name
  · have hne : name ≠ [] := fun h => hnil (by rw [h]; rfl)
    obtain ⟨h0, hd⟩ := (name_chars_are_valid_iff name).mp (by simpa using hchars)
    obtain ⟨b, hb, hiff⟩ := sub_entry_name_is_unique_eq es r hne h0
    rw [if_neg hlen, if_neg hnil, if_neg hchars, if_neg (fun h => hroot h.2), hb]
    cases b with
    | true =>
      refine ⟨fun _ => ⟨⟨hne, h0, hd, hroot⟩, by omega, hiff.mp rfl⟩, fun _ => rfl⟩
    | false =>
      constructor
      · intro h; cases h
      · intro ⟨_, _, hnew⟩
        exact absurd (hiff.mpr hnew) (by simp)

/-! ## Section 4: Search -/

/-- The search for a folder, as a search in the list of sub-folders. -/
theorem search_sub_folder_eq (es : VFSEntryStore) (r : FolderRef) {name : List Byte}
    (hne : name ≠ []) (hlen : name.length ≤ MAX_NAME_LENGTH) (hname : (0 : Byte) ∉ name) :
    search_sub_folder es r name =
      match (occupants MAX_SUB_FOLDERS_AMOUNT (es.folderAt r).sub_folders).find?
          fun d => decide ((es.folderName d).str = name) with
      | some d => .ok d
      | none => .error .SEARCH_TARGET_NOT_FOUND := by
  have hlen0 : name.length ≠ 0 := fun h => hne (List.length_eq_zero_iff.mp h)
  unfold search_sub_folder
  rw [if_neg (by omega)]
  simp only [Folder.folderSlots, scan_sub_entries_eq _ _ hne hname]
  rfl

/-- The search for a file, as a search in the list of files. -/
theorem search_sub_file_eq (es : VFSEntryStore) (r : FolderRef) {name : List Byte}
    (hne : name ≠ []) (hlen : name.length ≤ MAX_NAME_LENGTH) (hname : (0 : Byte) ∉ name) :
    search_sub_file es r name =
      match (occupants MAX_SUB_FILES_AMOUNT (es.folderAt r).sub_files).find?
          fun f => decide ((es.fileName f).str = name) with
      | some f => .ok f
      | none => .error .SEARCH_TARGET_NOT_FOUND := by
  have hlen0 : name.length ≠ 0 := fun h => hne (List.length_eq_zero_iff.mp h)
  unfold search_sub_file
  rw [if_neg (by omega)]
  simp only [Folder.fileSlots, scan_sub_entries_eq _ _ hne hname]
  rfl

end VirtualFS
