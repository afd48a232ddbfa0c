import VirtualFS.Framework.Runs
import VirtualFS.Store.Deletion

/-! # Runs of the Entry Store

    The store as a transition system: one step is one call with arguments
    that are in the store, successful or not. Every step keeps the folder
    tree, and with a storage manager that was initialised along with the
    store it keeps the disk ownership invariant.

    * `StoreOp`: the calls with all their arguments.
    * `treeSystem`, `storeSystem`: the runs from an initialised store, over any
      storage manager and over one that has been initialised as well.
    * `StoreStep`: the four things that a step can do. Each invariant is shown for
      each of the four, not for each call.
    * `StoreOp.exec_sat`: every call is one of the four.
-/

namespace VirtualFS

open Framework Prog Outcome ParentMap VFSEntryStore

variable {s s' : VFS} {n : VFSNode} {f g : FileRef} {p r d : FolderRef} {c : Nat}
  {op : StoreOp}

/-! ## Section 1: The system -/

/-- The calls on the entry store and on its files, with their arguments. -/
inductive StoreOp where
  | vfs_sub_file_init (file_name : List Byte) (parent_folder : FolderRef)
  | vfs_sub_folder_init (folder_name : List Byte) (parent_folder : FolderRef)
  | rename_file (file : FileRef) (name : List Byte)
  | rename_folder (folder : FolderRef) (name : List Byte)
  | move_file (file : FileRef) (new_parent : FolderRef)
  | move_folder (folder new_parent : FolderRef)
  | delete_vfs_file (file : FileRef)
  | delete_vfs_folder (folder : FolderRef) (force : Bool)
  | file_append (file : FileRef) (data : List Byte)
  | file_truncate_by (file : FileRef) (amount : Nat)
  | file_delete_data (file : FileRef)

namespace StoreOp

/-- The function that a call runs; the new entry is not part of the result. -/
def exec : StoreOp → Sys VFS Unit
  | vfs_sub_file_init name p => do
    let _ ← onEntryStore (VirtualFS.vfs_sub_file_init name p)
  | vfs_sub_folder_init name p => do
    let _ ← onEntryStore (VirtualFS.vfs_sub_folder_init name p)
  | rename_file f name => onEntryStore (VirtualFS.rename_file f name)
  | rename_folder d name => onEntryStore (VirtualFS.rename_folder d name)
  | move_file f p => onEntryStore (VirtualFS.move_file f p)
  | move_folder d p => onEntryStore (VirtualFS.move_folder d p)
  | delete_vfs_file f => VirtualFS.delete_vfs_file f
  | delete_vfs_folder d force => VirtualFS.delete_vfs_folder d force
  | file_append f data => VirtualFS.file_append f data
  | file_truncate_by f amount => VirtualFS.file_truncate_by f amount
  | file_delete_data f => VirtualFS.file_delete_data f

/-- The entries that are passed belong to the store. -/
def inStore (es : VFSEntryStore) : StoreOp → Prop
  | vfs_sub_file_init _ _ => True
  | vfs_sub_folder_init _ _ => True
  | rename_file f _ => es.committed (.file f)
  | rename_folder d _ => es.live d
  | move_file f p => es.committed (.file f) ∧ es.live p
  | move_folder d p => es.live d ∧ es.live p
  | delete_vfs_file f => es.committed (.file f)
  | delete_vfs_folder d _ => es.live d
  | file_append f _ => es.committed (.file f)
  | file_truncate_by f _ => es.committed (.file f)
  | file_delete_data f => es.committed (.file f)

/-- A file is not renamed to a name that leaves its buffer, nor truncated to nothing. -/
def inBounds (s : VFS) : StoreOp → Prop
  | rename_file _ name => name.length < MAX_NAME_LENGTH
  | file_truncate_by f amount => amount < (s.entry_store.files f).allocated_size * CHUNK_SIZE
  | _ => True

/-- The arguments are in the store, and the call does not leave a buffer. -/
def admissible (s : VFS) (op : StoreOp) : Prop := op.inStore s.entry_store ∧ op.inBounds s

instance (es : VFSEntryStore) : DecidablePred (inStore es)
  | vfs_sub_file_init _ _ => inferInstanceAs (Decidable True)
  | vfs_sub_folder_init _ _ => inferInstanceAs (Decidable True)
  | rename_file f _ => inferInstanceAs (Decidable (es.committed (.file f)))
  | rename_folder d _ => inferInstanceAs (Decidable (es.live d))
  | move_file _ _ => inferInstanceAs (Decidable (_ ∧ _))
  | move_folder _ _ => inferInstanceAs (Decidable (_ ∧ _))
  | delete_vfs_file f => inferInstanceAs (Decidable (es.committed (.file f)))
  | delete_vfs_folder d _ => inferInstanceAs (Decidable (es.live d))
  | file_append f _ => inferInstanceAs (Decidable (es.committed (.file f)))
  | file_truncate_by f _ => inferInstanceAs (Decidable (es.committed (.file f)))
  | file_delete_data f => inferInstanceAs (Decidable (es.committed (.file f)))

instance (s : VFS) : DecidablePred (inBounds s)
  | vfs_sub_file_init _ _ => inferInstanceAs (Decidable True)
  | vfs_sub_folder_init _ _ => inferInstanceAs (Decidable True)
  | rename_file _ name => inferInstanceAs (Decidable (name.length < MAX_NAME_LENGTH))
  | rename_folder _ _ => inferInstanceAs (Decidable True)
  | move_file _ _ => inferInstanceAs (Decidable True)
  | move_folder _ _ => inferInstanceAs (Decidable True)
  | delete_vfs_file _ => inferInstanceAs (Decidable True)
  | delete_vfs_folder _ _ => inferInstanceAs (Decidable True)
  | file_append _ _ => inferInstanceAs (Decidable True)
  | file_truncate_by f amount => inferInstanceAs
      (Decidable (amount < (s.entry_store.files f).allocated_size * CHUNK_SIZE))
  | file_delete_data _ => inferInstanceAs (Decidable True)

instance (s : VFS) : DecidablePred (admissible s) :=
  fun op => inferInstanceAs (Decidable (op.inStore s.entry_store ∧ op.inBounds s))

/-- The entries that the operation may delete, and the file whose data it changes. -/
def touches (es : VFSEntryStore) : StoreOp → VFSNode → Prop
  | delete_vfs_file f, n => n = .file f
  | delete_vfs_folder d force, n => es.folderDeletes d force n
  | file_append f _, n => n = .file f
  | file_truncate_by f _, n => n = .file f
  | file_delete_data f, n => n = .file f
  | _, _ => False

end StoreOp

/-- The store as `vfs_entry_store_init` leaves it, over any storage manager. -/
def StoreInitialised (s : VFS) : Prop :=
  ∃ memory, onEntryStore vfs_entry_store_init memory = .ok () s

/-- Start-up with the given arrays for the storage and its map. -/
def system_init (storage : Nat → Byte) (allocation_map : Nat → Bool)
    (allocation_map_size : Nat) : Sys VFS Unit := do
  onStorageMan (storage_man_init storage STORAGE_SIZE allocation_map allocation_map_size)
  onEntryStore vfs_entry_store_init

/-- The store and its storage manager after start-up; the arrays are arbitrary. -/
def SystemInitialised (s : VFS) : Prop :=
  ∃ memory storage allocation_map allocation_map_size,
    system_init storage allocation_map allocation_map_size memory = .ok () s

/-- Runs of the store over any storage manager. -/
def treeSystem : System VFS StoreOp :=
  Prog.system StoreInitialised StoreOp.admissible StoreOp.exec

/-- Runs of the store with its storage manager. -/
def storeSystem : System VFS StoreOp :=
  Prog.system SystemInitialised StoreOp.admissible StoreOp.exec

/-- Memory before start-up: `main` sets its objects to zero. -/
def VFS.zeroed : VFS where
  entry_store :=
    { files := fun _ => ⟨0, none, fun _ => ⟨false, 0, 0⟩, CharBuf.zeroed _⟩
      folders := fun _ => ⟨none, false, CharBuf.zeroed _, fun _ => none, fun _ => none⟩
      files_allocation_map := fun _ => false
      folders_allocation_map := fun _ => false
      root := ⟨none, false, CharBuf.zeroed _, fun _ => none, fun _ => none⟩ }
  storage_man := ⟨fun _ => 0, 0, 0, fun _ => false⟩

/-- Run operations from start-up in zeroed memory. -/
def runStore (ops : List StoreOp) : Option VFS :=
  (system_init (fun _ => 0) (fun _ => false) CHUNKS_AMOUNT VFS.zeroed).final.bind
    (runAll StoreOp.admissible StoreOp.exec ops)

/-! ## Section 2: What a step can do -/

namespace StoreOp

def deletesFolder : StoreOp → Bool
  | delete_vfs_folder _ _ => true
  | _ => false

/-- The calls that may run into undefined behaviour. -/
def mayFault (s : VFS) : StoreOp → Prop
  | rename_file _ name => MAX_NAME_LENGTH ≤ name.length
  | file_truncate_by f amount =>
    amount = (s.entry_store.files f).allocated_size * CHUNK_SIZE
  | _ => False

/-- The checks of the operations that create, rename and move an entry. -/
def passes (es : VFSEntryStore) : StoreOp → Prop
  | vfs_sub_file_init name p => sub_file_checks es name p
  | vfs_sub_folder_init name p => sub_folder_checks es name p
  | rename_file f name => rename_checks es (.file f) name
  | rename_folder d name => rename_checks es (.folder d) name
  | move_file f p => move_file_checks es f p
  | move_folder d p => move_folder_checks es d p
  | _ => False

/-- The operation puts the entry `n` under `p`. -/
def puts (es : VFSEntryStore) : StoreOp → VFSNode → FolderRef → Prop
  | vfs_sub_file_init _ q, n, p => (∃ f, n = .file f) ∧ ¬ es.committed n ∧ p = q
  | vfs_sub_folder_init _ q, n, p => (∃ i, n = .folder (.slot i)) ∧ ¬ es.committed n ∧ p = q
  | rename_file f _, n, p => n = .file f ∧ es.parentOf n = some p
  | rename_folder d _, n, p => n = .folder d ∧ es.parentOf n = some p
  | move_file f q, n, p => n = .file f ∧ p = q
  | move_folder d q, n, p => n = .folder d ∧ p = q
  | _, _, _ => False

/-- The name that it has there. -/
def newName (es : VFSEntryStore) (n : VFSNode) : StoreOp → List Byte
  | vfs_sub_file_init name _ => cutAtNul name
  | vfs_sub_folder_init name _ => name
  | rename_file _ name => name
  | rename_folder _ name => name
  | _ => es.nameOf n

end StoreOp

/-- A step leaves the committed entries, edits one entry, changes the data of one file
    or deletes entries. -/
inductive StoreStep (op : StoreOp) (s s' : VFS) : Prop where
  /-- A call that leaves the tree and the disk as they were. -/
  | same (hfail : ¬ op.passes s.entry_store) (h : SameStore s.entry_store s'.entry_store)
      (hm : s'.storage_man = s.storage_man)
  /-- A call that creates, moves or renames the entry `n`. -/
  | edit (n : VFSNode) (p : FolderRef) (hpass : op.passes s.entry_store)
      (hputs : op.puts s.entry_store n p)
      (hname : s'.entry_store.nameOf n = op.newName s.entry_store n)
      (h : Edited s.entry_store s'.entry_store n p) (hm : s'.storage_man = s.storage_man)
  /-- A call on the data of one file. -/
  | effect (f : FileRef) (hfail : ¬ op.passes s.entry_store)
      (hf : s.entry_store.committed (.file f)) (hT : op.touches s.entry_store (.file f))
      (h : FileEffect s s' f)
  /-- A deletion has removed exactly the entries that it touches. -/
  | prune (hfail : ¬ op.passes s.entry_store) (h : PrunesAll (op.touches s.entry_store) s s')

/-- The checks make sure that the name is new where the entry is put. -/
theorem StoreOp.nameIsNew {es : VFSEntryStore} (hpass : op.passes es) (hputs : op.puts es n p) :
    es.NameIsNew p (op.newName es n) := by
  have hvalid : ∀ {q name}, validate_sub_entry_name es q name = .ok () → es.NameIsNew q name :=
    fun hv => ((validate_sub_entry_name_ok_iff es _ _).mp hv).2.2
  -- The name was validated in the folder that the node is put in.
  cases op with
  | vfs_sub_file_init name q =>
    rw [hputs.2.2]
    exact hvalid hpass.2.2.2.1
  | vfs_sub_folder_init name q =>
    rw [hputs.2.2]
    exact hvalid hpass.2.2.1
  | rename_file f name =>
    obtain ⟨q, hq, hv⟩ := hpass
    rw [← hputs.1, hputs.2] at hq
    cases hq
    exact hvalid hv
  | rename_folder d name =>
    obtain ⟨q, hq, hv⟩ := hpass
    rw [← hputs.1, hputs.2] at hq
    cases hq
    exact hvalid hv
  | move_file f q =>
    rw [hputs.1, hputs.2]
    exact hvalid hpass.1
  | move_folder d q =>
    rw [hputs.1, hputs.2]
    exact hvalid hpass.1
  | _ => exact hputs.elim

/-- A failing call leaves what is committed and the storage manager, unless it removes
    folders: that may stop halfway. -/
def StoreOp.FailsClean (op : StoreOp) (s s' : VFS) : Prop :=
  op.deletesFolder = false →
    SameStore s.entry_store s'.entry_store ∧ s'.storage_man = s.storage_man

theorem StoreOp.FailsClean.refl (op : StoreOp) (s : VFS) : op.FailsClean s s :=
  fun _ => ⟨SameStore.refl _, rfl⟩

/-- An operation on the entry store that edits one entry or fails. -/
theorem storeStep_sat {α : Type} {prog : Sys VFSEntryStore α} {op : StoreOp}
    {F : Fault → Prop}
    (h : (prog s.entry_store).Sat
      (fun _ es' => ∃ n p, op.passes s.entry_store ∧ op.puts s.entry_store n p ∧
        es'.nameOf n = op.newName s.entry_store n ∧ Edited s.entry_store es' n p)
      (fun _ es' => SameStore s.entry_store es' ∧ ¬ op.passes s.entry_store) F) :
    (onEntryStore prog s).Sat (fun _ s' => StoreStep op s s')
      (fun _ s' => StoreStep op s s' ∧ op.FailsClean s s') F := by
  apply zoom_sat
  apply h.mono
  · intro _ es' ⟨n, p, hpass, hputs, hname, hedit⟩
    exact StoreStep.edit n p hpass hputs hname hedit rfl
  · intro _ es' ⟨hsame, hfail⟩
    exact ⟨StoreStep.same hfail hsame rfl, fun _ => ⟨hsame, rfl⟩⟩
  · exact fun _ hF => hF

/-- A store that has not changed at all. -/
theorem sameStore_of_eq {es es' : VFSEntryStore} (h : es' = es) : SameStore es es' :=
  h ▸ SameStore.refl es

/-- **Step lemma**: what a call with arguments from the store does is a `StoreStep`, a
    failing one is clean, and few calls may have no defined end. -/
theorem StoreOp.exec_sat (hs : Sound s) (op : StoreOp) (hin : op.inStore s.entry_store) :
    (op.exec s).Sat (fun _ s' => StoreStep op s s')
      (fun _ s' => StoreStep op s s' ∧ op.FailsClean s s') (fun _ => op.mayFault s) := by
  -- One case for each operation, each from the specification of its function.
  cases op with
  | vfs_sub_file_init name p =>
    show ((onEntryStore (VirtualFS.vfs_sub_file_init name p) s).bind
      fun _ s' => .ok () s').Sat _ _ _
    apply Sat.bind (R := fun _ s' => StoreStep (.vfs_sub_file_init name p) s s')
    · apply storeStep_sat
      apply (vfs_sub_file_init_sat hs.tree name p).mono
      · intro f es' ⟨hpass, hfree, hedit, hname⟩
        exact ⟨.file f, p, hpass, ⟨⟨f, rfl⟩, hfree, rfl⟩, hname, hedit⟩
      · exact fun _ _ h => h
      · exact fun _ hF => hF.elim
    · exact fun _ _ h => h
  | vfs_sub_folder_init name p =>
    show ((onEntryStore (VirtualFS.vfs_sub_folder_init name p) s).bind
      fun _ s' => .ok () s').Sat _ _ _
    apply Sat.bind (R := fun _ s' => StoreStep (.vfs_sub_folder_init name p) s s')
    · apply storeStep_sat
      apply (vfs_sub_folder_init_sat hs.tree name p).mono
      · intro d es' ⟨hpass, hdead, hedit, hname, _⟩
        cases d with
        | root => exact absurd live_root hdead
        | slot i =>
          exact ⟨.folder (.slot i), p, hpass, ⟨⟨i, rfl⟩, fun hc => hdead hc.live, rfl⟩, hname,
            hedit⟩
      · exact fun _ _ h => ⟨sameStore_of_eq h.1, h.2⟩
      · exact fun _ hF => hF.elim
    · exact fun _ _ h => h
  | rename_file f name =>
    apply storeStep_sat
    by_cases hlen : name.length < MAX_NAME_LENGTH
    · apply (rename_file_sat hs.tree hin hlen).mono
      · intro _ _ ⟨hpass, ⟨p, hp, hedit⟩, hname⟩
        exact ⟨.file f, p, hpass, ⟨rfl, hp⟩, hname, hedit⟩
      · exact fun _ _ h => ⟨sameStore_of_eq h.1, h.2⟩
      · exact fun _ hF => hF.elim
    · apply (rename_file_long hs.tree hin (Nat.le_of_not_lt hlen)).mono
      · exact fun _ _ h => h.elim
      · exact fun _ _ h => ⟨sameStore_of_eq h.1, h.2⟩
      · exact fun _ _ => Nat.le_of_not_lt hlen
  | rename_folder d name =>
    apply storeStep_sat
    rcases hin with rfl | hd
    · obtain ⟨hrun, hfail⟩ := rename_root hs.tree name
      rw [hrun]
      exact ⟨SameStore.refl _, hfail⟩
    · apply (rename_folder_sat hs.tree hd name).mono
      · intro _ _ ⟨hpass, ⟨p, hp, hedit⟩, hname⟩
        exact ⟨.folder d, p, hpass, ⟨rfl, hp⟩, hname, hedit⟩
      · exact fun _ _ h => ⟨sameStore_of_eq h.1, h.2⟩
      · exact fun _ hF => hF.elim
  | move_file f p =>
    apply storeStep_sat
    apply (move_file_sat hs.tree hin.1 hin.2).mono
    · intro _ _ ⟨hpass, hedit, hname⟩
      exact ⟨.file f, p, hpass, ⟨rfl, rfl⟩, hname, hedit⟩
    · exact fun _ _ h => ⟨sameStore_of_eq h.1, h.2⟩
    · exact fun _ hF => hF.elim
  | move_folder d p =>
    apply storeStep_sat
    obtain ⟨hd, hp⟩ := hin
    rcases hd with rfl | hd
    · obtain ⟨⟨e, hrun⟩, hfail⟩ := move_root hs.tree hp
      rw [hrun]
      exact ⟨SameStore.refl _, hfail⟩
    · apply (move_folder_sat hs.tree hd hp).mono
      · intro _ _ ⟨hpass, hedit, hname⟩
        exact ⟨.folder d, p, hpass, ⟨rfl, rfl⟩, hname, hedit⟩
      · exact fun _ _ h => ⟨sameStore_of_eq h.1, h.2⟩
      · exact fun _ hF => hF.elim
  | delete_vfs_file f =>
    obtain ⟨s', hrun, hremoved⟩ := delete_vfs_file_run hs hin
    show (VirtualFS.delete_vfs_file f s).Sat _ _ _
    rw [hrun]
    apply StoreStep.prune id
    apply (PrunesAll.refl (P := fun _ => False) fun _ => id).remove hremoved
    exact fun m => ⟨Or.inr, fun h => h.resolve_left id⟩
  | delete_vfs_folder d force =>
    apply (delete_vfs_folder_sat hs hin force).mono
    · exact fun _ _ h => StoreStep.prune id h.1
    · intro _ s' h
      refine ⟨StoreStep.prune id h.1, fun hno => ?_⟩
      cases hno
    · exact fun _ hF => hF.elim
  | file_append f data =>
    apply (file_append_effect (hs.chunks.ownsChunks hin) data).mono
    · exact fun _ _ h => StoreStep.effect f id hin rfl h
    · intro _ s' hs'
      subst hs'
      exact ⟨StoreStep.same id (SameStore.refl _) rfl, FailsClean.refl _ _⟩
    · exact fun _ hF => hF.elim
  | file_truncate_by f amount =>
    have howns := hs.chunks.ownsChunks hin
    by_cases hamount : amount < (s.entry_store.files f).allocated_size * CHUNK_SIZE
    · obtain ⟨s', hrun, heffect⟩ := file_truncate_by_effect howns hamount
      show (VirtualFS.file_truncate_by f amount s).Sat _ _ _
      rw [hrun]
      exact StoreStep.effect f id hin rfl heffect
    · apply (file_truncate_by_all howns.file_ok.stored (Nat.le_of_not_lt hamount)).mono
      · exact fun _ _ h => h.elim
      · intro _ s' hs'
        subst hs'
        exact ⟨StoreStep.same id (SameStore.refl _) rfl, FailsClean.refl _ _⟩
      · exact fun _ hsize => hsize
  | file_delete_data f =>
    obtain ⟨s', hrun, heffect, _⟩ := file_delete_data_effect (hs.chunks.ownsChunks hin)
    show (VirtualFS.file_delete_data f s).Sat _ _ _
    rw [hrun]
    exact StoreStep.effect f id hin rfl heffect

/-- A call within its bounds has no undefined behaviour. -/
theorem StoreOp.not_mayFault {op : StoreOp} (h : op.inBounds s) : ¬ op.mayFault s := by
  cases op with
  | rename_file f name => exact Nat.not_le.mpr h
  | file_truncate_by f amount => exact Nat.ne_of_lt h
  | _ => exact id

/-- An admissible call has a defined end. -/
theorem StoreOp.exec_admissible_sat (hs : Sound s) (op : StoreOp) (ha : op.admissible s) :
    (op.exec s).Sat (fun _ s' => StoreStep op s s') (fun _ s' => StoreStep op s s')
      (fun _ => False) :=
  (StoreOp.exec_sat hs op ha.1).mono (fun _ _ h => h) (fun _ _ h => h.1)
    fun _ hF => op.not_mayFault ha.2 hF

/-- Where a call ends is a step away. -/
theorem StoreOp.exec_step {op : StoreOp} (hs : Sound s) (hin : op.inStore s.entry_store)
    (h : (op.exec s).final = some s') : StoreStep op s s' := by
  refine Outcome.Sat.final (F := fun _ => op.mayFault s) ?_ h
  exact (StoreOp.exec_sat hs op hin).mono (fun _ _ h => h) (fun _ _ h => h.1) (fun _ hF => hF)

/-! ## Section 3: The invariants -/

theorem Edited.sameData {es es' : VFSEntryStore} (h : Edited es es' n p)
    (hf : es'.committed (.file f)) :
    (es.committed (.file f) ∧ SameData (es.files f) (es'.files f)) ∨
      (¬ es.committed (.file f) ∧ Blank (es'.files f)) := by
  by_cases hc : es.committed (.file f)
  · exact Or.inl ⟨hc, h.data f hc⟩
  · have hn : n = .file f := by
      rcases (h.put.committed_iff _).mp hf with h' | h'
      · exact absurd h' hc
      · exact h'.symm
    exact Or.inr ⟨hc, h.blank f hn (hn ▸ hc)⟩

/-- A store whose files have kept their chunks, or have none. -/
theorem ChunksOwned.of_chunks (ho : ChunksOwned s)
    (hmap : s'.storage_man.allocation_map = s.storage_man.allocation_map)
    (hfiles : ∀ f, s'.entry_store.committed (.file f) →
      (s.entry_store.committed (.file f) ∧
        SameData (s.entry_store.files f) (s'.entry_store.files f)) ∨
      (¬ s.entry_store.committed (.file f) ∧ Blank (s'.entry_store.files f))) :
    ChunksOwned s' where
  -- a committed file kept its data, or it is new and has none
  file_ok := by
    intro f hf
    rcases hfiles f hf with ⟨hc, hdata⟩ | ⟨_, hblank⟩
    · exact hdata.fileOk (ho.file_ok f hc)
    · exact hblank.fileOk
  allocated := by
    intro f hf c hc
    rw [hmap]
    rcases hfiles f hf with ⟨hcomm, hdata⟩ | ⟨_, hblank⟩
    · exact ho.allocated f hcomm c (hdata.chunks_eq ▸ hc)
    · rw [hblank.chunks_eq] at hc
      cases hc
  disjoint := by
    intro f g hf hg hfg c hcf hcg
    rcases hfiles f hf with ⟨hcommf, hdataf⟩ | ⟨_, hblank⟩
    · rcases hfiles g hg with ⟨hcommg, hdatag⟩ | ⟨_, hblank⟩
      · rw [hdataf.chunks_eq] at hcf
        rw [hdatag.chunks_eq] at hcg
        exact ho.disjoint f g hcommf hcommg hfg c hcf hcg
      · rw [hblank.chunks_eq] at hcg
        cases hcg
    · rw [hblank.chunks_eq] at hcf
      cases hcf

theorem SameStore.sameData {es es' : VFSEntryStore} (h : SameStore es es')
    (hf : es'.committed (.file f)) :
    es.committed (.file f) ∧ SameData (es.files f) (es'.files f) := by
  have hc := (h.same.committed_iff _).mp hf
  exact ⟨hc, h.files_eq f hc ▸ SameData.refl _⟩

/-- Every step keeps the invariants of the tree and its files. -/
theorem StoreStep.sound (h : StoreStep op s s') (hs : Sound s) : Sound s' := by
  cases h with
  | same _ hsame hm =>
    exact ⟨hs.tree.same hsame.same, hs.chunks.of_chunks (by rw [hm])
      fun f hf => Or.inl (hsame.sameData hf)⟩
  | edit n p _ _ _ hedit hm =>
    exact ⟨hedit.folderTree hs.tree, hs.chunks.of_chunks (by rw [hm])
      fun f hf => hedit.sameData hf⟩
  | effect f _ hf _ heffect =>
    exact ⟨hs.tree.same heffect.sameTree, hs.chunks.fileEffect hf heffect⟩
  | prune _ hp => exact hp.prunes.sound hs

/-- Every step keeps the disk in order. -/
theorem StoreStep.ownership (h : StoreStep op s s') (hs : Sound s) (ho : Ownership s) :
    Ownership s' := by
  have hchunks := (h.sound hs).chunks
  -- By the kind of step; only the last two change what is allocated.
  cases h with
  | same _ hsame hm =>
    refine ⟨hchunks, ?_, ?_⟩
    · intro c hc hmap
      obtain ⟨f, hf, hcf⟩ := ho.owned c hc (hm ▸ hmap)
      exact ⟨f, (hsame.same.committed_iff _).mpr hf, by rwa [hsame.files_eq f hf]⟩
    · rw [hm]
      exact ho.free_count
  | edit n p _ _ _ hedit hm =>
    refine ⟨hchunks, ?_, ?_⟩
    · intro c hc hmap
      obtain ⟨f, hf, hcf⟩ := ho.owned c hc (hm ▸ hmap)
      exact ⟨f, (hedit.put.committed_iff _).mpr (Or.inl hf),
        by rwa [(hedit.data f hf).chunks_eq]⟩
    · rw [hm]
      exact ho.free_count
  | effect f _ hf _ heffect => exact ho.fileEffect hf heffect
  | prune _ hp => exact hp.prunes.ownership hs ho

end VirtualFS
