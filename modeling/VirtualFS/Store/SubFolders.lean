import VirtualFS.Store.System

/-! # Creating Sub-Folders

    `sub_folder_init` called for a list of name buffers, and what
    `search_sub_folder` then finds. A name is meant to end at its length or at
    an earlier NUL, and it does so where it is stored and compared; but the
    validation takes a NUL for an invalid character.

    * `NewSubFolders`: the calls name different new folders, and there is room.
    * `sub_folders_found_iff`: all of them are created and found afterwards if and
      only if no name contains a NUL among the bytes that are counted.
    * `sub_folder_from_c_string`: a string counted with its terminator is refused.
-/

namespace VirtualFS

open Framework Prog Outcome VFSEntryStore

variable {es es' es₁ : VFSEntryStore} {n : VFSNode} {d p r : FolderRef} {name : List Byte}
  {call : FolderRef × List Byte} {calls : List (FolderRef × List Byte)}

/-! ## Section 1: One call -/

/-- The store after the folder `d` has been created under `p`. -/
structure SubFolderAdded (es es' : VFSEntryStore) (d p : FolderRef) (name : List Byte) :
    Prop where
  /-- The folder is in a slot that was NULL, and no other slot has changed. -/
  slots : ∃ i, i < MAX_SUB_FOLDERS_AMOUNT ∧ (es.folderAt p).sub_folders i = none ∧
    (es'.folderAt p).sub_folders = Function.update (es.folderAt p).sub_folders i (some d)
  /-- The files of the parent stay in their slots. -/
  files : (es'.folderAt p).sub_files = (es.folderAt p).sub_files
  /-- It has the name that was asked for. -/
  named : es'.nameOf (.folder d) = name
  /-- All other entries keep their names. -/
  names_eq : ∀ n, n ≠ .folder d → es'.nameOf n = es.nameOf n

/-- A call with an acceptable new name adds one folder. -/
theorem sub_folder_init_added (hdp : d ≠ p) (hok : NameAcceptable name)
    (hlen : name.length ≤ MAX_NAME_LENGTH) (hnew : es.NameIsNew p name)
    (hvacant : ∃ i, i < MAX_SUB_FOLDERS_AMOUNT ∧ (es.folderAt p).sub_folders i = none) :
    ∃ es', sub_folder_init d name p es = .ok () es' ∧ SubFolderAdded es es' d p name := by
  have hvalid := (validate_sub_entry_name_ok_iff es p name).mpr ⟨hok, hlen, hnew⟩
  obtain ⟨i, hi⟩ := (available_sub_folder_iff es p).mpr hvacant
  obtain ⟨hilt, hslot⟩ := available_sub_folder_slot (r := .root) hi
  obtain ⟨b, hb⟩ := set_entry_name_isSome (es.folderAt d).name (Nat.lt_succ_of_le hlen)
  obtain ⟨hstr, -⟩ := set_entry_name_str hok.no_nul hb
  unfold sub_folder_init
  simp only [bind_run, readState_run, bind_ok, hvalid, ofExcept_ok_run, hi, hb, modifyState_run]
  refine ⟨_, rfl, ?_⟩
  constructor
  case slots =>
    refine ⟨i, hilt, Option.map_eq_none_iff.mp hslot, ?_⟩
    simp [setSubFolder, setFolderParent, Ne.symm hdp]
  case files =>
    simp [setSubFolder, setFolderParent, Ne.symm hdp]
  case named =>
    simp [setSubFolder, setFolderParent, nameOf_setFolder, hdp]
    exact hstr
  case names_eq =>
    intro n hn
    simp only [setSubFolder, setFolderParent, nameOf_setFolder]
    by_cases hnp : n = .folder p
    · subst hnp
      simp [Ne.symm hdp, nameOf]
    · rw [Function.update_of_ne hnp, Function.update_of_ne hn, Function.update_of_ne hn]

/-- Names with a NUL among their bytes are refused. -/
theorem nul_not_mem_of_sub_folder_init (h : sub_folder_init d name p es = .ok () es') :
    (0 : Byte) ∉ name := by
  unfold sub_folder_init at h
  simp only [bind_run, readState_run, bind_ok] at h
  cases hvalid : validate_sub_entry_name es p name with
  | error e =>
    rw [hvalid] at h
    cases h
  | ok _ => exact ((validate_sub_entry_name_ok_iff es p name).mp hvalid).1.no_nul

/-- The children afterwards are the new folder and the old ones. -/
theorem SubFolderAdded.children_perm (h : SubFolderAdded es es' d p name) :
    (es'.children p).Perm (.folder d :: es.children p) := by
  obtain ⟨i, hi, hv, hslots⟩ := h.slots
  have hfill := (occupants_fill (x := d) hi hv).map VFSNode.folder
  unfold VFSEntryStore.children
  rw [h.files, hslots]
  exact (hfill.append_left _).trans List.perm_middle

/-- The new folder is one more child. -/
theorem SubFolderAdded.mem_children_iff (h : SubFolderAdded es es' d p name) :
    n ∈ es'.children p ↔ n = .folder d ∨ n ∈ es.children p := by
  rw [h.children_perm.mem_iff, List.mem_cons]

/-! ## Section 2: A list of calls -/

/-- The calls of `sub_folder_init`, each with the record to be initialised and the bytes
    of its name buffer up to the length. -/
def init_sub_folders (calls : List (FolderRef × List Byte)) (parent_folder : FolderRef) :
    Sys VFSEntryStore Unit :=
  forEach calls fun call => sub_folder_init call.1 call.2 parent_folder

/-- What is asked of the calls. Names are cut at their first NUL. -/
structure NewSubFolders (es : VFSEntryStore) (p : FolderRef)
    (calls : List (FolderRef × List Byte)) : Prop where
  /-- The lengths that are passed are in range. -/
  lengths : ∀ call ∈ calls, 1 ≤ call.2.length ∧ call.2.length ≤ MAX_NAME_LENGTH
  /-- The parent has enough slots that are NULL. -/
  room : calls.length ≤ vacancies MAX_SUB_FOLDERS_AMOUNT (es.folderAt p).sub_folders
  /-- What is left of each name can be the name of an entry. -/
  names : ∀ call ∈ calls, cutAtNul call.2 ≠ [] ∧ PATH_DELIMITER ∉ cutAtNul call.2 ∧
    cutAtNul call.2 ≠ root_name
  /-- No child of the parent has it. -/
  names_new : ∀ call ∈ calls, ∀ n ∈ es.children p, es.nameOf n ≠ cutAtNul call.2
  /-- No two calls ask for one name. -/
  names_distinct : (calls.map fun call => cutAtNul call.2).Nodup
  /-- The records are different ones, none of them that of the parent or of a child. -/
  records_distinct : (calls.map Prod.fst).Nodup
  records_new : ∀ call ∈ calls, call.1 ≠ p ∧ .folder call.1 ∉ es.children p

/-- Without a NUL the first call passes the validation. -/
theorem NewSubFolders.head_acceptable (h : NewSubFolders es p (call :: calls))
    (hnul : (0 : Byte) ∉ call.2) :
    NameAcceptable call.2 ∧ call.2.length ≤ MAX_NAME_LENGTH ∧ es.NameIsNew p call.2 ∧
      ∃ i, i < MAX_SUB_FOLDERS_AMOUNT ∧ (es.folderAt p).sub_folders i = none := by
  have hmem : call ∈ call :: calls := List.mem_cons_self ..
  have hcut := cutAtNul_of_nul_not_mem hnul
  obtain ⟨hne, hdel, hroot⟩ := h.names call hmem
  have hnew := h.names_new call hmem
  rw [hcut] at hne hdel hroot hnew
  refine ⟨⟨hne, hnul, hdel, hroot⟩, (h.lengths call hmem).2, hnew, exists_vacant ?_⟩
  exact Nat.lt_of_lt_of_le (Nat.succ_pos calls.length) h.room

/-- The conditions on the remaining calls still hold. -/
theorem NewSubFolders.tail (h : NewSubFolders es p (call :: calls)) (hnul : (0 : Byte) ∉ call.2)
    (hadd : SubFolderAdded es es' call.1 p call.2) : NewSubFolders es' p calls := by
  obtain ⟨hname_not, hnames⟩ := List.nodup_cons.mp h.names_distinct
  obtain ⟨hrecord_not, hrecords⟩ := List.nodup_cons.mp h.records_distinct
  have hself := (h.records_new call (List.mem_cons_self ..)).2
  constructor
  case lengths => exact fun x hx => h.lengths x (List.mem_cons_of_mem _ hx)
  case room =>
    obtain ⟨i, hi, hv, hslots⟩ := hadd.slots
    have hroom := h.room
    rw [← vacancies_fill (x := call.1) hi hv, ← hslots, List.length_cons] at hroom
    exact Nat.le_of_succ_le_succ hroom
  case names => exact fun x hx => h.names x (List.mem_cons_of_mem _ hx)
  case names_new =>
    intro x hx n hn
    rcases hadd.mem_children_iff.mp hn with hnew | hold
    · -- the name of the first call is not among the others
      rw [hnew, hadd.named, ← cutAtNul_of_nul_not_mem hnul]
      intro heq
      exact hname_not (List.mem_map.mpr ⟨x, hx, heq.symm⟩)
    · have hne : n ≠ .folder call.1 := by
        intro heq
        exact hself (heq ▸ hold)
      rw [hadd.names_eq n hne]
      exact h.names_new x (List.mem_cons_of_mem _ hx) n hold
  case names_distinct => exact hnames
  case records_distinct => exact hrecords
  case records_new =>
    intro x hx
    obtain ⟨hxp, hxc⟩ := h.records_new x (List.mem_cons_of_mem _ hx)
    refine ⟨hxp, fun hmem => ?_⟩
    rcases hadd.mem_children_iff.mp hmem with hnew | hold
    · have heq : x.1 = call.1 := VFSNode.folder.inj hnew
      exact hrecord_not (heq ▸ List.mem_map_of_mem hx)
    · exact hxc hold

/-- The store after all the calls. -/
structure SubFoldersAdded (es es' : VFSEntryStore) (p : FolderRef)
    (calls : List (FolderRef × List Byte)) : Prop where
  mem_children_iff : ∀ n, n ∈ es'.children p ↔
    (∃ call ∈ calls, n = .folder call.1) ∨ n ∈ es.children p
  named : ∀ call ∈ calls, es'.nameOf (.folder call.1) = call.2
  names_eq : ∀ n, (∀ call ∈ calls, n ≠ .folder call.1) → es'.nameOf n = es.nameOf n

/-- Calls without a NUL all succeed. -/
theorem init_sub_folders_added (h : NewSubFolders es p calls)
    (hnul : ∀ call ∈ calls, (0 : Byte) ∉ call.2) :
    ∃ es', init_sub_folders calls p es = .ok () es' ∧ SubFoldersAdded es es' p calls := by
  -- On the calls; what is left of them stays admissible after the first.
  induction calls generalizing es with
  | nil => exact ⟨es, rfl, by simp, by simp, fun _ _ => rfl⟩
  | cons call calls ih =>
    have hnul' := hnul call (List.mem_cons_self ..)
    obtain ⟨hok, hlen, hnew, hvacant⟩ := h.head_acceptable hnul'
    obtain ⟨es₁, hrun, hadd⟩ := sub_folder_init_added
      (h.records_new call (List.mem_cons_self ..)).1 hok hlen hnew hvacant
    have htail := h.tail hnul' hadd
    obtain ⟨es', hrest, hall⟩ := ih htail fun x hx => hnul x (List.mem_cons_of_mem _ hx)
    refine ⟨es', ?_, ?_⟩
    · unfold init_sub_folders at hrest ⊢
      rw [forEach_cons_run, hrun, bind_ok]
      exact hrest
    · have hnot : ∀ x ∈ calls, VFSNode.folder call.1 ≠ .folder x.1 := by
        intro x hx heq
        have heq' : call.1 = x.1 := VFSNode.folder.inj heq
        exact (List.nodup_cons.mp h.records_distinct).1 (heq' ▸ List.mem_map_of_mem hx)
      constructor
      case mem_children_iff =>
        intro n
        rw [hall.mem_children_iff, hadd.mem_children_iff]
        simp only [List.exists_mem_cons_iff]
        rw [or_left_comm, or_assoc]
      case named =>
        intro x hx
        rcases List.mem_cons.mp hx with hfirst | hrest'
        · rw [hfirst, hall.names_eq _ hnot, hadd.named]
        · exact hall.named x hrest'
      case names_eq =>
        intro n hn
        rw [hall.names_eq n fun x hx => hn x (List.mem_cons_of_mem _ hx),
          hadd.names_eq n (hn call (List.mem_cons_self ..))]

/-- Successful calls had no NUL in their names. -/
theorem nul_not_mem_of_init_sub_folders (h : init_sub_folders calls p es = .ok () es') :
    ∀ call ∈ calls, (0 : Byte) ∉ call.2 := by
  -- Each call succeeded, and a name with a NUL is refused.
  induction calls generalizing es with
  | nil => simp
  | cons call calls ih =>
    unfold init_sub_folders at h ih
    rw [forEach_cons_run] at h
    obtain ⟨_, es₁, hrun, hcalls⟩ := exists_of_bind h
    intro x hx
    rcases List.mem_cons.mp hx with hfirst | hrest
    · rw [hfirst]
      exact nul_not_mem_of_sub_folder_init hrun
    · exact ih hcalls x hrest

/-! ## Section 3: Searching for the new folders -/

/-- The names are distinct, so the search finds the right one. -/
theorem SubFoldersAdded.search (hall : SubFoldersAdded es es' p calls)
    (h : NewSubFolders es p calls) (hnul : ∀ call ∈ calls, (0 : Byte) ∉ call.2)
    (hcall : call ∈ calls) : search_sub_folder es' p call.2 = .ok call.1 := by
  have hcut : ∀ x ∈ calls, cutAtNul x.2 = x.2 := fun x hx => cutAtNul_of_nul_not_mem (hnul x hx)
  have hne : call.2 ≠ [] := hcut call hcall ▸ (h.names call hcall).1
  rw [search_sub_folder_eq es' p hne (h.lengths call hcall).2 (hnul call hcall)]
  -- a folder of that name is the one created for it
  have hunique : ∀ d, .folder d ∈ es'.children p → (es'.folderName d).str = call.2 →
      d = call.1 := by
    intro d hd hname
    change es'.nameOf (.folder d) = call.2 at hname
    by_cases hnew : ∃ x ∈ calls, d = x.1
    · obtain ⟨x, hx, heq⟩ := hnew
      rw [heq, hall.named x hx, ← hcut x hx, ← hcut call hcall] at hname
      rw [heq, List.inj_on_of_nodup_map h.names_distinct hx hcall hname]
    · have hold : VFSNode.folder d ∈ es.children p := by
        rcases (hall.mem_children_iff _).mp hd with ⟨x, hx, heq⟩ | hold
        · exact absurd ⟨x, hx, VFSNode.folder.inj heq⟩ hnew
        · exact hold
      have hkeep : es'.nameOf (.folder d) = es.nameOf (.folder d) :=
        hall.names_eq _ fun x hx heq => hnew ⟨x, hx, VFSNode.folder.inj heq⟩
      rw [hkeep, ← hcut call hcall] at hname
      exact absurd hname (h.names_new call hcall _ hold)
  have hoccupant : ∀ d, d ∈ occupants MAX_SUB_FOLDERS_AMOUNT (es'.folderAt p).sub_folders ↔
      .folder d ∈ es'.children p := by
    intro d
    rw [mem_occupants, folder_mem_children]
  have hfind : (occupants MAX_SUB_FOLDERS_AMOUNT (es'.folderAt p).sub_folders).find?
      (fun d => decide ((es'.folderName d).str = call.2)) = some call.1 := by
    apply (find_eq_some_iff ?_).mpr
    · refine ⟨(hoccupant _).mpr ?_, decide_eq_true (hall.named call hcall)⟩
      exact (hall.mem_children_iff _).mpr (Or.inl ⟨call, hcall, rfl⟩)
    · intro d hd d' hd' hname hname'
      rw [hunique d ((hoccupant d).mp hd) (of_decide_eq_true hname),
        hunique d' ((hoccupant d').mp hd') (of_decide_eq_true hname')]
  rw [hfind]

/-- **Sub-folders are created and found** from their name buffers exactly when no buffer has
    a NUL before its length. -/
theorem sub_folders_found_iff (h : NewSubFolders es p calls) :
    (∃ es', init_sub_folders calls p es = .ok () es' ∧
      ∀ call ∈ calls, search_sub_folder es' p call.2 = .ok call.1) ↔
      ∀ call ∈ calls, (0 : Byte) ∉ call.2 := by
  constructor
  · intro ⟨es', hrun, _⟩
    exact nul_not_mem_of_init_sub_folders hrun
  · intro hnul
    obtain ⟨es', hrun, hall⟩ := init_sub_folders_added h hnul
    exact ⟨es', hrun, fun call hcall => hall.search h hnul hcall⟩

/-- Two folders next to nothing else; the second name is a prefix of the first. -/
theorem sub_folders_found_iff_two :
    (∃ es', init_sub_folders [(.slot 0, [97, 98]), (.slot 1, [97])] .root
        VFS.zeroed.entry_store = .ok () es' ∧
      ∀ call ∈ [(FolderRef.slot 0, ([97, 98] : List Byte)), (.slot 1, [97])],
        search_sub_folder es' .root call.2 = .ok call.1) ↔
      ∀ call ∈ [(FolderRef.slot 0, ([97, 98] : List Byte)), (.slot 1, [97])],
        (0 : Byte) ∉ call.2 := by
  apply sub_folders_found_iff
  exact ⟨by decide, by decide, by decide, by decide, by decide, by decide, by decide⟩

/-- A name buffer of two bytes with a name of one byte and its terminator. -/
theorem sub_folder_from_c_string :
    NewSubFolders VFS.zeroed.entry_store .root [(.slot 0, [97, 0])] ∧
      sub_folder_init (.slot 0) [97, 0] .root VFS.zeroed.entry_store =
        .fail .INVALID_CHARECTER_IN_IDENTIFIER VFS.zeroed.entry_store := by
  refine ⟨?_, rfl⟩
  exact ⟨by decide, by decide, by decide, by decide, by decide, by decide, by decide⟩

end VirtualFS
