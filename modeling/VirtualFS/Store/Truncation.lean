import VirtualFS.Disk.Truncation
import VirtualFS.Store.Reachable

/-! # Truncating Files

    `file_truncate_by` on a committed file, from any state that satisfies the
    disk ownership invariant.

    * `file_truncate_by_exact`: what truncation does.
    * `cursor_in_array_iff`: the amounts that keep the cursor in the extent array.
    * `truncation_additive_iff`: when two truncations do what one does.

    Two truncations differ from one in the bytes that are overwritten: each marks
    the end of its last chunk. `TruncatesAlike` says when the marks of the first
    one are gone, or are marks of the single one as well.
-/

namespace VirtualFS

open Framework Prog Outcome VFSEntryStore

variable {s s' s₁ s₂ : VFS} {f g : FileRef} {a b amount : Nat}

/-! ## Section 1: One truncation -/

/-- The other files have kept their records and their contents. -/
def OthersKept (s s' : VFS) (f : FileRef) : Prop :=
  ∀ g, s.entry_store.committed (.file g) → g ≠ f →
    s'.entry_store.files g = s.entry_store.files g ∧ s'.content g = s.content g

/-- The other files keep their records and their bytes. -/
theorem FileEffect.othersKept (h : FileEffect s s' f) (hs : ChunksOwned s)
    (hf : s.entry_store.committed (.file f)) : OthersKept s s' f := by
  intro g hg hgf
  have hfile := h.files_eq hgf
  refine ⟨hfile, content_congr ⟨by rw [hfile], by rw [hfile]⟩ fun c hc => ?_⟩
  exact h.chunk_eq c (hs.allocated g hg c hc) (hs.disjoint g f hg hf hgf c hc)

/-- **Truncation end to end.** By fewer bytes than the file has it succeeds, by more it
    fails and changes nothing. -/
theorem file_truncate_by_exact (hs : DiskInvariant s) (hf : s.entry_store.committed (.file f))
    (amount : Nat) :
    (amount < (s.entry_store.files f).allocated_size * CHUNK_SIZE →
      ∃ s', file_truncate_by f amount s = .ok () s' ∧ Truncated s s' f amount ∧
        s'.storage_man.free_chunk_count =
          s.storage_man.free_chunk_count + amount / CHUNK_SIZE ∧
        DiskInvariant s' ∧ OthersKept s s' f) ∧
    ((s.entry_store.files f).allocated_size * CHUNK_SIZE < amount →
      file_truncate_by f amount s = .fail .INDEX_OUT_OF_BOUNDS s) := by
  constructor
  · intro hamount
    have ho := hs.ownership
    obtain ⟨s', hok, heffect, htrunc⟩ := file_truncate_by_truncated (ho.ownsChunks hf) hamount
    exact ⟨s', hok, htrunc, htrunc.free_count ho.free_count,
      (ho.fileEffect hf heffect).diskInvariant, heffect.othersKept ho.toChunksOwned hf⟩
  · exact file_truncate_by_too_much

/-- The cut goes through the second of three extents. -/
theorem file_truncate_by_exact_run :
    ∃ s, runStore
      [.vfs_sub_file_init [97] .root, .vfs_sub_file_init [98] .root,
        .file_append 0 [1, 2, 3], .file_append 1 [4],
        .file_append 0 [5, 6, 7, 8, 9, 10, 11, 12, 13], .file_append 1 [14],
        .file_append 0 [15]] = some s ∧
      ∃ s', file_truncate_by 0 21 s = .ok () s' ∧ Truncated s s' 0 21 ∧
        s'.storage_man.free_chunk_count = s.storage_man.free_chunk_count + 21 / CHUNK_SIZE ∧
        DiskInvariant s' ∧ OthersKept s s' 0 := by
  refine exists_of_run
    (Q := fun s => s.entry_store.committed (.file 0) ∧
      21 < (s.entry_store.files 0).allocated_size * CHUNK_SIZE) (by decide +kernel)
    fun s hs hQ => ?_
  exact (file_truncate_by_exact (diskInvariant_of_runStore hs) hQ.1 21).1 hQ.2

/-! ## Section 2: The cursor -/

/-- **Accesses through the cursor.** They stay in the extent array unless all the bytes of
    the file are removed, and there are some. -/
theorem cursor_in_array_iff (hs : DiskInvariant s) (hf : s.entry_store.committed (.file f))
    (hamount : amount ≤ (s.entry_store.files f).allocated_size * CHUNK_SIZE) :
    (file_truncate_by_checked f amount s).faulted ≠ some .out_of_bounds ↔
      amount < (s.entry_store.files f).allocated_size * CHUNK_SIZE ∨
        (s.entry_store.files f).allocated_size = 0 := by
  have hstored := (hs.fileOk hf).stored
  rw [file_truncate_by_checked_eq]
  rcases Nat.eq_or_lt_of_le hamount with heq | hlt
  · rcases List.eq_nil_or_concat' (s.entry_store.files f).extents with hnil | ⟨l, x, hl⟩
    · -- there is nothing to be removed
      rw [hnil] at hstored
      have hsize : (s.entry_store.files f).allocated_size = 0 := hstored.size_eq
      have hzero : amount = 0 := by rw [heq, hsize, Nat.zero_mul]
      rw [hzero, file_truncate_by_empty hstored]
      exact ⟨fun _ => Or.inr hsize, fun _ h => by cases h⟩
    · -- the cursor passes the front of the array
      have hmem : x ∈ (s.entry_store.files f).extents := by simp [hl]
      have hpos := (hs.fileOk hf).amount_pos x hmem
      rw [hl] at hstored
      have hsize : 0 < (s.entry_store.files f).allocated_size := by
        rw [hstored.size_eq, chunksOf_append, List.length_append, chunksOf_cons, chunksOf_nil,
          List.append_nil, length_chunks]
        omega
      rw [heq, file_truncate_by_whole hstored]
      exact ⟨fun h => absurd rfl h, fun h => absurd h (by omega)⟩
  · obtain ⟨s', hok, _⟩ := file_truncate_by_truncated (hs.ownership.ownsChunks hf) hlt
    rw [hok]
    exact ⟨fun _ => Or.inl hlt, fun _ h => by cases h⟩

/-- A file of nine bytes, truncated by fifteen: the cursor stays in the array, for one chunk is
    left. -/
theorem cursor_in_array_iff_run :
    ∃ s, runStore
      [.vfs_sub_file_init [97] .root, .file_append 0 [1, 2, 3, 4, 5, 6, 7, 8, 9]] = some s ∧
      ((file_truncate_by_checked 0 15 s).faulted ≠ some .out_of_bounds ↔
        15 < (s.entry_store.files 0).allocated_size * CHUNK_SIZE ∨
          (s.entry_store.files 0).allocated_size = 0) := by
  refine exists_of_run
    (Q := fun s => s.entry_store.committed (.file 0) ∧
      15 ≤ (s.entry_store.files 0).allocated_size * CHUNK_SIZE) (by decide +kernel)
    fun s hs hQ => ?_
  exact cursor_in_array_iff (diskInvariant_of_runStore hs) hQ.1 hQ.2

/-- A file of one chunk is truncated to nothing. -/
theorem cursor_leaves_array :
    ∃ s, runStore [.vfs_sub_file_init [97] .root, .file_append 0 [1]] = some s ∧
      DiskInvariant s ∧ s.entry_store.committed (.file 0) ∧
      CHUNK_SIZE ≤ (s.entry_store.files 0).allocated_size * CHUNK_SIZE ∧
      (file_truncate_by_checked 0 CHUNK_SIZE s).faulted = some .out_of_bounds := by
  refine exists_of_run
    (Q := fun s => s.entry_store.committed (.file 0) ∧
      CHUNK_SIZE ≤ (s.entry_store.files 0).allocated_size * CHUNK_SIZE ∧
      (file_truncate_by_checked 0 CHUNK_SIZE s).faulted = some .out_of_bounds) (by decide +kernel)
    fun s hs hQ => ?_
  exact ⟨diskInvariant_of_runStore hs, hQ⟩

/-! ## Section 3: Two truncations -/

/-- The two states have the same size and content of the file, and the same free chunks. -/
structure SameResult (s₁ s₂ : VFS) (f : FileRef) : Prop where
  size_eq : (s₁.entry_store.files f).allocated_size = (s₂.entry_store.files f).allocated_size
  content_eq : s₁.content f = s₂.content f
  map_eq : ∀ c, s₁.storage_man.allocation_map c = s₂.storage_man.allocation_map c

/-- How many bytes at the end are overwritten after truncations by `a` and by `b`: if the
    second one removes a chunk, nothing is left of what the first one has overwritten. -/
def overwrittenInTwo (a b : Nat) : Nat :=
  if b / CHUNK_SIZE = 0 then max (a % CHUNK_SIZE) (b % CHUNK_SIZE) else b % CHUNK_SIZE

/-- The remainders do not make up a chunk, and the bytes that only one truncation by
    `a + b` overwrites are `EOC_OPERATOR` already. -/
def TruncatesAlike (content : List Byte) (a b : Nat) : Prop :=
  a % CHUNK_SIZE + b % CHUNK_SIZE < CHUNK_SIZE ∧
    ∀ i, content.length - CHUNK_SIZE * ((a + b) / CHUNK_SIZE) - (a + b) % CHUNK_SIZE ≤ i →
      i < content.length - CHUNK_SIZE * ((a + b) / CHUNK_SIZE) - overwrittenInTwo a b →
      content[i]? = some EOC_OPERATOR

/-- Whole chunks first: every byte that is overwritten is overwritten twice. -/
theorem truncatesAlike_of_dvd (content : List Byte) (b : Nat) (ha : CHUNK_SIZE ∣ a) :
    TruncatesAlike content a b := by
  have hmod := Nat.mod_eq_zero_of_dvd ha
  have hlt : b % CHUNK_SIZE < CHUNK_SIZE := Nat.mod_lt _ (by decide)
  have hsum : (a + b) % CHUNK_SIZE = b % CHUNK_SIZE := by
    rw [Nat.add_mod, hmod, Nat.zero_add, Nat.mod_mod]
  have htwo : overwrittenInTwo a b = b % CHUNK_SIZE := by
    unfold overwrittenInTwo
    rw [hmod, Nat.max_eq_right (Nat.zero_le _), ite_self]
  refine ⟨by omega, fun i h₁ h₂ => ?_⟩
  rw [hsum] at h₁
  rw [htwo] at h₂
  omega

/-- Without a carry the quotients and the remainders add up. -/
theorem div_mod_add (hmod : a % CHUNK_SIZE + b % CHUNK_SIZE < CHUNK_SIZE) :
    (a + b) / CHUNK_SIZE = a / CHUNK_SIZE + b / CHUNK_SIZE ∧
      (a + b) % CHUNK_SIZE = a % CHUNK_SIZE + b % CHUNK_SIZE := by
  simp only [CHUNK_SIZE] at *
  omega

/-- The content after two truncations. -/
theorem truncateBytes_truncateBytes {content : List Byte} (h : a + b < content.length)
    (hmod : a % CHUNK_SIZE + b % CHUNK_SIZE < CHUNK_SIZE) :
    truncateBytes b (truncateBytes a content) = overwriteLast EOC_OPERATOR (overwrittenInTwo a b)
      (content.take (content.length - CHUNK_SIZE * ((a + b) / CHUNK_SIZE))) := by
  obtain ⟨hdiv, -⟩ := div_mod_add hmod
  have ha := Nat.div_add_mod a CHUNK_SIZE
  have hb := Nat.div_add_mod b CHUNK_SIZE
  -- what the first truncation leaves, before its end is overwritten
  generalize hD : content.take (content.length - CHUNK_SIZE * (a / CHUNK_SIZE)) = D
  have hlen : D.length = content.length - CHUNK_SIZE * (a / CHUNK_SIZE) := by
    rw [← hD, List.length_take]
    omega
  have hfirst : (truncateBytes a content) = overwriteLast EOC_OPERATOR (a % CHUNK_SIZE) D := by
    rw [truncateBytes, hD]
  rw [hfirst, truncateBytes, length_overwriteLast (by omega), hdiv, Nat.mul_add, ← Nat.sub_sub,
    ← hlen]
  unfold overwrittenInTwo
  by_cases hnb : b / CHUNK_SIZE = 0
  · -- the second truncation overwrites the end of the same chunk
    rw [if_pos hnb, hnb, Nat.mul_zero, Nat.sub_zero, hlen, hD, List.take_of_length_le]
    · exact overwriteLast_overwriteLast (by omega) (by rw [hnb] at hb; omega)
    · rw [length_overwriteLast (by omega), hlen]
  · -- the chunk that has been overwritten is removed
    have hone : CHUNK_SIZE ≤ CHUNK_SIZE * (b / CHUNK_SIZE) :=
      Nat.le_mul_of_pos_right _ (Nat.pos_of_ne_zero hnb)
    rw [if_neg hnb, take_overwriteLast (by omega)]
    generalize hn : D.length - CHUNK_SIZE * (b / CHUNK_SIZE) = n
    rw [← hD, List.take_take, Nat.min_eq_left (by omega)]

/-- The content after one truncation by `a + b` is the one after two. -/
theorem truncateBytes_add_iff {content : List Byte} (h : a + b < content.length)
    (hmod : a % CHUNK_SIZE + b % CHUNK_SIZE < CHUNK_SIZE) :
    truncateBytes b (truncateBytes a content) = truncateBytes (a + b) content ↔
      TruncatesAlike content a b := by
  obtain ⟨hdiv, hrem⟩ := div_mod_add hmod
  have hsum := Nat.div_add_mod (a + b) CHUNK_SIZE
  have htwo : overwrittenInTwo a b ≤ (a + b) % CHUNK_SIZE := by
    unfold overwrittenInTwo
    split
    · omega
    · omega
  -- Both sides overwrite the end of the same prefix, in two steps or in one.
  rw [truncateBytes_truncateBytes h hmod]
  unfold truncateBytes TruncatesAlike
  generalize hm : content.length - CHUNK_SIZE * ((a + b) / CHUNK_SIZE) = m
  have hlen : (content.take m).length = m := by
    rw [List.length_take]
    omega
  have hget : ∀ i, i < m → (content.take m)[i]? = content[i]? := fun i hi =>
    List.getElem?_take_of_lt hi
  have hiff := overwriteLast_eq_iff (x := EOC_OPERATOR) (l := content.take m) htwo (by omega)
  rw [hlen] at hiff
  rw [eq_comm, hiff]
  constructor
  · intro hall
    exact ⟨hmod, fun i h₁ h₂ => by rw [← hget i (by omega)]; exact hall i h₁ h₂⟩
  · intro ⟨_, hall⟩ i h₁ h₂
    rw [hget i (by omega)]
    exact hall i h₁ h₂

/-- The chunks that two truncations free are those that one frees. -/
theorem mem_drop_iff (chunks : List Nat) {j k : Nat} (hjk : j ≤ k) (c : Nat) :
    c ∈ chunks.drop j ↔ c ∈ (chunks.take k).drop j ∨ c ∈ chunks.drop k := by
  have hsplit : chunks.drop j = (chunks.take k).drop j ++ chunks.drop k := by
    conv_lhs => rw [← List.take_append_drop k chunks]
    by_cases hk : k ≤ chunks.length
    · rw [List.drop_append_of_le_length]
      rw [List.length_take, Nat.min_eq_left hk]
      exact hjk
    · rw [List.drop_eq_nil_of_le (show chunks.length ≤ k from by omega), List.append_nil,
        List.append_nil]
  rw [hsplit, List.mem_append]

/-- Two truncations and the one by the sum of the amounts. -/
theorem two_truncations (hs : DiskInvariant s) (hf : s.entry_store.committed (.file f))
    (h : a + b < (s.entry_store.files f).allocated_size * CHUNK_SIZE) :
    ∃ s₁ s₂ s', file_truncate_by f a s = .ok () s₁ ∧ file_truncate_by f b s₁ = .ok () s₂ ∧
      file_truncate_by f (a + b) s = .ok () s' ∧
      Truncated s s₁ f a ∧ Truncated s₁ s₂ f b ∧ Truncated s s' f (a + b) := by
  have ho := hs.ownership
  obtain ⟨s₁, hrun₁, heffect₁, htrunc₁⟩ := file_truncate_by_truncated (ho.ownsChunks hf)
    (show a < (s.entry_store.files f).allocated_size * CHUNK_SIZE from by omega)
  have hf₁ : s₁.entry_store.committed (.file f) := heffect₁.committed_eq ▸ hf
  -- enough is left for the second one
  have hb : b < (s₁.entry_store.files f).allocated_size * CHUNK_SIZE := by
    rw [htrunc₁.size_eq (hs.fileOk hf)]
    simp only [CHUNK_SIZE] at *
    omega
  obtain ⟨s₂, hrun₂, -, htrunc₂⟩ :=
    file_truncate_by_truncated ((ho.fileEffect hf heffect₁).ownsChunks hf₁) hb
  obtain ⟨s', hrun, -, htrunc⟩ := file_truncate_by_truncated (ho.ownsChunks hf) h
  exact ⟨s₁, s₂, s', hrun₁, hrun₂, hrun, htrunc₁, htrunc₂, htrunc⟩

/-- **Additivity.** Two truncations leave the same file and the same free chunks as one by
    the sum of the amounts exactly when no byte tells them apart. -/
theorem truncation_additive_iff (hs : DiskInvariant s) (hf : s.entry_store.committed (.file f))
    (h : a + b < (s.entry_store.files f).allocated_size * CHUNK_SIZE) :
    ∃ s₁ s₂ s', file_truncate_by f a s = .ok () s₁ ∧ file_truncate_by f b s₁ = .ok () s₂ ∧
      file_truncate_by f (a + b) s = .ok () s' ∧
      (SameResult s₂ s' f ↔ TruncatesAlike (s.content f) a b) ∧
      (CHUNK_SIZE ∣ a → SameResult s₂ s' f) := by
  have hok := hs.fileOk hf
  obtain ⟨s₁, s₂, s', hrun₁, hrun₂, hrun, htrunc₁, htrunc₂, htrunc⟩ := two_truncations hs hf h
  have hsize₁ := htrunc₁.size_eq hok
  have hsize₂ := htrunc₂.size_eq htrunc₁.file_ok
  have hsize := htrunc.size_eq hok
  have hlength := length_content hok
  have hiff : SameResult s₂ s' f ↔ TruncatesAlike (s.content f) a b := by
    constructor
    · intro hsame
      -- the sizes agree, so the remainders do not make up a chunk
      have hmod : a % CHUNK_SIZE + b % CHUNK_SIZE < CHUNK_SIZE := by
        have := hsame.size_eq
        simp only [CHUNK_SIZE] at *
        omega
      rw [← truncateBytes_add_iff (by omega) hmod, ← htrunc₁.content_eq, ← htrunc₂.content_eq,
        ← htrunc.content_eq]
      exact hsame.content_eq
    · intro halike
      have hmod := halike.1
      obtain ⟨hdiv, -⟩ := div_mod_add hmod
      constructor
      case size_eq =>
        rw [hsize₂, hsize₁, hsize, hdiv]
        omega
      case content_eq =>
        rw [htrunc₂.content_eq, htrunc₁.content_eq, htrunc.content_eq]
        exact (truncateBytes_add_iff (by omega) hmod).mpr halike
      case map_eq =>
        intro c
        have hmem := mem_drop_iff (s.entry_store.files f).chunks (Nat.sub_le
          ((s.entry_store.files f).allocated_size - a / CHUNK_SIZE) (b / CHUNK_SIZE)) c
        rw [Bool.eq_iff_iff, htrunc₂.allocated_iff, htrunc₁.allocated_iff, htrunc.allocated_iff,
          htrunc₁.kept, hsize₁, hdiv, ← Nat.sub_sub, hmem, not_or, and_assoc,
          and_comm (a := c ∉ _)]
  exact ⟨s₁, s₂, s', hrun₁, hrun₂, hrun, hiff,
    fun hdvd => hiff.mpr (truncatesAlike_of_dvd _ _ hdvd)⟩

/-- First a chunk, then three bytes of the next one. -/
theorem truncation_additive_iff_run :
    ∃ s, runStore
      [.vfs_sub_file_init [97] .root, .file_append 0 [1, 2, 3, 4, 5, 6, 7, 8, 9]] = some s ∧
      ∃ s₁ s₂ s', file_truncate_by 0 8 s = .ok () s₁ ∧ file_truncate_by 0 3 s₁ = .ok () s₂ ∧
        file_truncate_by 0 (8 + 3) s = .ok () s' ∧
        (SameResult s₂ s' 0 ↔ TruncatesAlike (s.content 0) 8 3) ∧
        (CHUNK_SIZE ∣ 8 → SameResult s₂ s' 0) := by
  refine exists_of_run
    (Q := fun s => s.entry_store.committed (.file 0) ∧
      8 + 3 < (s.entry_store.files 0).allocated_size * CHUNK_SIZE) (by decide +kernel)
    fun s hs hQ => ?_
  exact truncation_additive_iff (diskInvariant_of_runStore hs) hQ.1 hQ.2

/-- Twice four bytes free no chunk, eight bytes free one. -/
theorem truncation_not_additive :
    ∃ s, runStore
      [.vfs_sub_file_init [97] .root, .file_append 0 [1, 2, 3, 4, 5, 6, 7, 8, 9]] = some s ∧
      DiskInvariant s ∧ s.entry_store.committed (.file 0) ∧
      4 + 4 < (s.entry_store.files 0).allocated_size * CHUNK_SIZE ∧
      ∃ s₁ s₂ s', file_truncate_by 0 4 s = .ok () s₁ ∧ file_truncate_by 0 4 s₁ = .ok () s₂ ∧
        file_truncate_by 0 (4 + 4) s = .ok () s' ∧
        (s₂.entry_store.files 0).allocated_size ≠ (s'.entry_store.files 0).allocated_size := by
  refine exists_of_run
    (Q := fun s => s.entry_store.committed (.file 0) ∧
      4 + 4 < (s.entry_store.files 0).allocated_size * CHUNK_SIZE) (by decide +kernel)
    fun s hs hQ => ?_
  have hinv := diskInvariant_of_runStore hs
  obtain ⟨s₁, s₂, s', hrun₁, hrun₂, hrun, htrunc₁, htrunc₂, htrunc⟩ :=
    two_truncations hinv hQ.1 hQ.2
  refine ⟨hinv, hQ.1, hQ.2, s₁, s₂, s', hrun₁, hrun₂, hrun, ?_⟩
  have hsize := hQ.2
  rw [htrunc₂.size_eq htrunc₁.file_ok, htrunc₁.size_eq (hinv.fileOk hQ.1),
    htrunc.size_eq (hinv.fileOk hQ.1)]
  simp only [CHUNK_SIZE] at *
  omega

end VirtualFS
