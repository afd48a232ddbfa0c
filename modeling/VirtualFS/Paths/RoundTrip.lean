import VirtualFS.Paths.Printing
import VirtualFS.Paths.Resolution
import VirtualFS.Store.Reachable

/-! # Printed Paths Resolve

    Printing and resolving are inverse: a printed path resolves to the node it
    was printed for, and an absolute path that resolves is the printed path of
    its node, with at most one delimiter behind it.

    * `PrintsAndResolves`: from nodes to strings and back.
    * `ResolvesAndPrints`: from strings to nodes and back.
    * `path_round_trip`: both, in every folder tree.
-/

namespace VirtualFS

open Framework ParentMap VFSEntryStore

variable {ws : Workspace} {n m : VFSNode} {l : List (List Byte)} {path : CString}

/-! ## Section 1: From nodes to strings and back -/

/-- Names print to something. -/
theorem relativePath_ne_nil (hne : l ≠ []) (hnames : ∀ name ∈ l, NameAcceptable name) :
    relativePath l ≠ [] := by
  cases l with
  | nil => exact absurd rfl hne
  | cons name names =>
    intro h
    have hname : name = [] := (List.append_eq_nil_iff.mp h).1
    exact (hnames name (List.mem_cons_self ..)).not_empty hname

/-- A printed path with names that fit in a row of the parser resolves. -/
theorem ws_resolve_pathString (ht : FolderTree ws.entry_store)
    (hpath : PathFrom ws.entry_store.tree (.folder .root) n l)
    (hlen : l.length ≤ MAX_PATH_NODES_AMOUNT)
    (hshort : ∀ name ∈ l, name.length < MAX_NAME_LENGTH) (hchars : path.chars = pathString l) :
    ws_resolve_path ws path = .ok n := by
  by_cases hnil : l = []
  · -- the path of the root
    subst hnil
    have hn : n = .folder .root := ht.wellFormed.path_inj hpath PathFrom.nil
    subst hn
    unfold ws_resolve_path
    rw [hchars]
    rfl
  · have hnames := ht.names_on_path hpath
    have hne := relativePath_ne_nil hnil fun name hname => (hnames name hname).1
    unfold pathString at hchars
    rw [if_neg hnil, absolutePath_of_ne_nil hnil] at hchars
    have hnul : (0 : Byte) ∉ relativePath l := by
      intro h0
      apply path.nul_free
      rw [hchars]
      exact List.mem_cons_of_mem _ h0
    have hfit : NamesFit MAX_NAME_LENGTH l := by
      intro name hname
      have hlt := hshort name hname
      exact ⟨(hnames name hname).1.no_delimiter, by omega⟩
    have hempty : [] ∉ l := fun h => (hnames [] h).1.not_empty rfl
    have hparse := parse_path_run (by decide) hfit hempty hnil hlen
    rw [ws_resolve_path_absolute hchars hne, ht.resolve_path_ok_iff live_root hnul]
    exact ⟨l, hparse, hpath⟩

/-- What an absolute path that resolves looks like. -/
theorem path_of_ws_resolve_path (ht : FolderTree ws.entry_store) {rest : List Byte}
    (hchars : path.chars = PATH_DELIMITER :: rest) (h : ws_resolve_path ws path = .ok n) :
    ∃ l, PathFrom ws.entry_store.tree (.folder .root) n l ∧ l.length ≤ MAX_PATH_NODES_AMOUNT ∧
      (path.chars = pathString l ∨ path.chars = pathString l ++ [PATH_DELIMITER]) := by
  by_cases hrest : rest = []
  · subst hrest
    unfold ws_resolve_path at h
    rw [hchars] at h
    cases h
    exact ⟨[], PathFrom.nil, Nat.zero_le _, Or.inl hchars⟩
  · have hnul : (0 : Byte) ∉ rest := by
      intro h0
      apply path.nul_free
      rw [hchars]
      exact List.mem_cons_of_mem _ h0
    rw [ws_resolve_path_absolute hchars hrest, ht.resolve_path_ok_iff live_root hnul] at h
    obtain ⟨l, hparse, hpath⟩ := h
    obtain ⟨_, hlen, hne, hprinted⟩ := parse_path_success hparse
    refine ⟨l, hpath, hlen, ?_⟩
    unfold pathString
    rw [if_neg hne, absolutePath_of_ne_nil hne, hchars]
    rcases hprinted with heq | heq
    · left
      rw [heq]
    · right
      rw [heq, List.cons_append]

/-! ## Section 2: The round trip -/

/-- The string in a buffer as an argument. -/
def CharBuf.toCString {k : Nat} (b : CharBuf k) : CString := ⟨b.str, b.nul_not_mem_str⟩

/-- A node whose path can be printed and parsed again. -/
def VFSEntryStore.Addressable (es : VFSEntryStore) (n : VFSNode) : Prop :=
  ∃ l, PathFrom es.tree (.folder .root) n l ∧ l.length ≤ MAX_PATH_NODES_AMOUNT ∧
    ∀ name ∈ l, name.length < MAX_NAME_LENGTH

/-- Printing ends normally and the string resolves to the node. -/
def PrintsAndResolves (ws : Workspace) (n : VFSNode) : Prop :=
  ∀ b : CharBuf PATH_BUFFER_LENGTH, ∃ b', get_node_path ws.entry_store n b = .ok () b' ∧
    ws_resolve_path ws b'.toCString = .ok n

/-- Resolving succeeds and printing yields the string, up to one delimiter. -/
def ResolvesAndPrints (ws : Workspace) (path : CString) (n : VFSNode) : Prop :=
  ∀ b : CharBuf PATH_BUFFER_LENGTH, ∃ b', get_node_path ws.entry_store n b = .ok () b' ∧
    (path.chars = b'.str ∨
      (1 < path.chars.length ∧ path.chars = b'.str ++ [PATH_DELIMITER]))

/-- Printing and resolving are inverse, and different nodes have different paths. -/
structure PathsRoundTrip (ws : Workspace) : Prop where
  prints_and_resolves : ∀ n, ws.entry_store.present n → ws.entry_store.Addressable n →
    PrintsAndResolves ws n
  injective : ∀ n m, ws.entry_store.Addressable n → ws.entry_store.Addressable m →
    ∀ b b₁ b₂ : CharBuf PATH_BUFFER_LENGTH,
      get_node_path ws.entry_store n b = .ok () b₁ →
      get_node_path ws.entry_store m b = .ok () b₂ → b₁.str = b₂.str → n = m
  resolves_and_prints : ∀ path n, path.chars.head? = some PATH_DELIMITER →
    ws_resolve_path ws path = .ok n → ResolvesAndPrints ws path n

/-- **Round trip** of paths, in both directions. -/
theorem path_round_trip (ht : FolderTree ws.entry_store) : PathsRoundTrip ws := by
  refine ⟨?_, ?_, ?_⟩
  · intro n _ ⟨l, hpath, hlen, hshort⟩ b
    obtain ⟨b', hrun, hstr, _⟩ := get_node_path_run ht hpath hlen b
    exact ⟨b', hrun, ws_resolve_pathString ht hpath hlen hshort hstr⟩
  · intro n m ⟨l, hpath, hlen, hshort⟩ ⟨l', hpath', hlen', hshort'⟩ b b₁ b₂ hrun₁ hrun₂ heq
    obtain ⟨c₁, hc₁, hstr₁, _⟩ := get_node_path_run ht hpath hlen b
    obtain ⟨c₂, hc₂, hstr₂, _⟩ := get_node_path_run ht hpath' hlen' b
    rw [hc₁] at hrun₁
    rw [hc₂] at hrun₂
    cases hrun₁
    cases hrun₂
    -- both strings resolve
    have hn : ws_resolve_path ws b₁.toCString = .ok n :=
      ws_resolve_pathString ht hpath hlen hshort hstr₁
    have hm : ws_resolve_path ws b₁.toCString = .ok m :=
      ws_resolve_pathString ht hpath' hlen' hshort' (heq.trans hstr₂)
    rw [hn] at hm
    exact Except.ok.inj hm
  · intro path n hhead h b
    obtain ⟨rest, hchars⟩ : ∃ rest, path.chars = PATH_DELIMITER :: rest :=
      List.head?_eq_some_iff.mp hhead
    obtain ⟨l, hpath, hlen, hprinted⟩ := path_of_ws_resolve_path ht hchars h
    obtain ⟨b', hrun, hstr, _⟩ := get_node_path_run ht hpath hlen b
    refine ⟨b', hrun, ?_⟩
    rw [hstr]
    rcases hprinted with heq | heq
    · exact Or.inl heq
    · refine Or.inr ⟨?_, heq⟩
      have hpos : 0 < (pathString l).length := by
        unfold pathString
        split
        · decide
        · next hne =>
          rw [absolutePath_of_ne_nil hne]
          exact Nat.succ_pos _
      rw [heq, List.length_append, List.length_singleton]
      omega

/-- The round trip in a workspace with a file two folders down. -/
theorem path_round_trip_run :
    ∃ s, runStore
      [.vfs_sub_folder_init [97] .root, .vfs_sub_folder_init [98] (.slot 0),
        .vfs_sub_file_init [99] (.slot 1)] = some s ∧
      PathsRoundTrip ⟨s, false, .slot 0, CharBuf.zeroed _⟩ := by
  refine exists_of_run (Q := fun _ => True) (by decide +kernel) fun s hs _ => ?_
  apply path_round_trip
  exact (treeSystem_sound (treeSystem_of_storeSystem (storeSystem_of_runStore hs))).tree

end VirtualFS
