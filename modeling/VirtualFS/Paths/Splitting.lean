import VirtualFS.Paths.Parsing

/-! # Splitting Paths

    `parse_path` splits a path at its delimiters, after one delimiter at the end
    has been dropped; empty components are kept. The two cursors of the code, in
    the path and in the array of names, stay within their bounds.

    * `pathComponents`: what the path is split into.
    * `ComponentsFit`: the components fit in the rows, and the rows are enough.
    * `RowHolds`, `OnlyRows`: what is written to the array, and what is not.
    * `parse_path_splits`: status, names, count and array, for all paths and limits.
-/

namespace VirtualFS

open Framework Prog Outcome

variable {k rows : Nat} {name path row rest : List Byte} {names : List (List Byte)}

/-! ## Section 1: The components of a path -/

/-- The path without one delimiter at its end. -/
def withoutTrailingDelimiter (path : List Byte) : List Byte :=
  if path.getLast? = some PATH_DELIMITER then path.dropLast else path

/-- What stands between the delimiters. -/
def pathComponents (path : List Byte) : List (List Byte) :=
  (withoutTrailingDelimiter path).splitOn PATH_DELIMITER

example : pathComponents (ascii "/a//b/") = [[], ascii "a", [], ascii "b"] := by decide

/-- What the loop of `parse_path` has still to read. -/
def componentsLeft (path : List Byte) : List (List Byte) :=
  if path = [] then [] else pathComponents path

theorem withoutTrailingDelimiter_concat :
    withoutTrailingDelimiter (name ++ [PATH_DELIMITER]) = name := by
  unfold withoutTrailingDelimiter
  rw [if_pos List.getLast?_concat, List.dropLast_concat]

theorem withoutTrailingDelimiter_of_not_mem (h : PATH_DELIMITER ∉ path) :
    withoutTrailingDelimiter path = path :=
  if_neg fun hlast => h (List.mem_of_getLast? hlast)

/-- The end of a path is the end of its non-empty rest. -/
theorem withoutTrailingDelimiter_append (hrest : rest ≠ []) :
    withoutTrailingDelimiter (name ++ rest) = name ++ withoutTrailingDelimiter rest := by
  unfold withoutTrailingDelimiter
  rw [List.getLast?_append_of_ne_nil name hrest]
  split
  · rw [List.dropLast_append_of_ne_nil hrest]
  · rfl

/-- The first component is the name that `parse_node` reads. -/
theorem pathComponents_append (hname : PATH_DELIMITER ∉ name) (hrest : AtDelimiter rest) :
    pathComponents (name ++ rest) = name :: componentsLeft (rest.drop 1) := by
  unfold pathComponents
  rcases hrest with hrest | ⟨tail, hrest⟩
  · -- the path ends with the name
    rw [hrest, List.append_nil, withoutTrailingDelimiter_of_not_mem hname,
      List.splitOn_eq_singleton hname]
    rfl
  · rw [hrest, List.drop_one, List.tail_cons]
    by_cases htail : tail = []
    · -- the delimiter behind the name is the one that is dropped
      rw [htail, withoutTrailingDelimiter_concat, List.splitOn_eq_singleton hname]
      rfl
    · have hsplit : name ++ PATH_DELIMITER :: tail = (name ++ [PATH_DELIMITER]) ++ tail := by
        rw [List.append_assoc]
        rfl
      rw [hsplit, withoutTrailingDelimiter_append htail, List.append_assoc]
      show (name ++ PATH_DELIMITER :: withoutTrailingDelimiter tail).splitOn PATH_DELIMITER = _
      rw [List.splitOn_append_cons_self_of_not_mem hname]
      show _ = name :: componentsLeft tail
      rw [componentsLeft, if_neg htail]
      rfl

/-- A path is its first name and what follows it. -/
theorem exists_first_name (path : List Byte) :
    ∃ name rest, path = name ++ rest ∧ PATH_DELIMITER ∉ name ∧ AtDelimiter rest := by
  -- The name ends at the first delimiter or at the end of the path.
  induction path with
  | nil => exact ⟨[], [], rfl, List.not_mem_nil, Or.inl rfl⟩
  | cons c path ih =>
    by_cases hc : c = PATH_DELIMITER
    · exact ⟨[], c :: path, rfl, List.not_mem_nil, Or.inr ⟨path, by rw [hc]⟩⟩
    · obtain ⟨name, rest, hpath, hname, hrest⟩ := ih
      refine ⟨c :: name, rest, by rw [hpath]; rfl, ?_, hrest⟩
      intro hmem
      rcases List.mem_cons.mp hmem with heq | hmem
      · exact hc heq.symm
      · exact hname hmem

/-! ## Section 2: The names that are read -/

/-- A name that is too long for the row is refused. -/
theorem parse_node_too_long (hname : PATH_DELIMITER ∉ name) (hrest : AtDelimiter rest)
    (hlen : k - 1 < name.length) : (parse_node k (name ++ rest) []).status ≠ .SUCCESS := by
  intro h
  obtain ⟨name', hname', -, hpath, hrest', hlen'⟩ := parse_node_success (Nat.zero_le _) h
  have hsame : name' = name := by
    rw [← takeWhile_name hname' hrest', ← hpath, takeWhile_name hname hrest]
  rw [List.length_nil, Nat.zero_add, hsame] at hlen'
  omega

/-- What the components of a path have to be like. -/
def ComponentsFit (k rows : Nat) (components : List (List Byte)) : Prop :=
  components.length ≤ rows ∧ ∀ name ∈ components, name.length ≤ k - 1

theorem componentsFit_cons :
    ComponentsFit k (rows + 1) (name :: names) ↔
      name.length ≤ k - 1 ∧ ComponentsFit k rows names := by
  unfold ComponentsFit
  rw [List.length_cons, List.forall_mem_cons, Nat.succ_le_succ_iff]
  exact and_left_comm

/-- The loop accepts the components that fit, and its rows are those components. -/
theorem parse_path_loop_splits (k rows : Nat) (path : List Byte) :
    ((parse_path_loop k rows path).1 = .SUCCESS ↔ ComponentsFit k rows (componentsLeft path)) ∧
      ((parse_path_loop k rows path).1 = .SUCCESS →
        (parse_path_loop k rows path).2 = componentsLeft path) ∧
      (parse_path_loop k rows path).2.length ≤ (componentsLeft path).length := by
  -- one component fewer at every iteration
  induction rows generalizing path with
  | zero =>
    match path with
    | [] => simp [parse_path_loop, componentsLeft, ComponentsFit]
    | c :: path =>
      simp [parse_path_loop, componentsLeft, pathComponents, ComponentsFit]
  | succ rows ih =>
    match path with
    | [] => simp [parse_path_loop, componentsLeft, ComponentsFit]
    | c :: path =>
      obtain ⟨name, rest, hpath, hname, hrest⟩ := exists_first_name (c :: path)
      have hleft : componentsLeft (c :: path) = name :: componentsLeft (rest.drop 1) := by
        rw [componentsLeft, if_neg (List.cons_ne_nil c path), hpath,
          pathComponents_append hname hrest]
      rw [hleft, componentsFit_cons]
      by_cases hlen : name.length ≤ k - 1
      · -- the name is copied, and the loop goes on behind the delimiter
        have hnode : parse_node k (c :: path) [] = ⟨.SUCCESS, name, rest⟩ := by
          rw [hpath]
          exact parse_node_run hname hrest (by rwa [List.length_nil, Nat.zero_add])
        obtain ⟨hiff, hnames, hcount⟩ := ih (rest.drop 1)
        rw [parse_path_loop_step hnode rfl]
        refine ⟨?_, ?_, ?_⟩
        · exact hiff.trans ⟨fun h => ⟨hlen, h⟩, fun h => h.2⟩
        · intro hsuccess
          show name :: _ = _
          rw [hnames hsuccess]
        · exact Nat.succ_le_succ hcount
      · -- the name is refused
        have hstatus : (parse_node k (c :: path) []).status ≠ .SUCCESS := by
          rw [hpath]
          exact parse_node_too_long hname hrest (Nat.lt_of_not_le hlen)
        rw [parse_path_loop_stop rfl hstatus]
        refine ⟨?_, ?_, ?_⟩
        · exact ⟨fun h => absurd h hstatus, fun h => absurd h.1 hlen⟩
        · exact fun h => absurd h hstatus
        · exact Nat.succ_le_succ (Nat.zero_le _)

/-! ## Section 3: The rows that are written -/

variable {L N : Nat} {out out' out'' : NodeNames L N} {r : Fin N} {col cur_node : Nat}

/-- The row starts with the name and a terminator. -/
def RowHolds (row : CharBuf L) (name : List Byte) : Prop :=
  row.bytes.take (name.length + 1) = name ++ [0]

/-- Only this row differs. -/
def OnlyRow (r : Fin N) (out out' : NodeNames L N) : Prop :=
  out'.out_nodes_amount = out.out_nodes_amount ∧
    ∀ i, i ≠ r → out'.out_node_names i = out.out_node_names i

/-- Writes to one row are put one after the other. -/
theorem OnlyRow.trans (h : OnlyRow r out out') (h' : OnlyRow r out' out'') :
    OnlyRow r out out'' :=
  ⟨h'.1.trans h.1, fun i hi => (h'.2 i hi).trans (h.2 i hi)⟩

/-- A write in the row. -/
theorem write_node_name_run (out : NodeNames L N) (r : Fin N) (c : Byte) (hcol : col < L) :
    ∃ out', write_node_name r col c out = .ok () out' ∧ OnlyRow r out out' ∧
      (out'.out_node_names r).bytes.take (col + 1) =
        (out.out_node_names r).bytes.take col ++ [c] := by
  obtain ⟨row, hrow⟩ :=
    CharBuf.write_isSome (b := out.out_node_names r) (show col + [c].length ≤ L from hcol)
  refine ⟨out.setRow r row, ?_, ⟨rfl, ?_⟩, ?_⟩
  · simp [write_node_name, hrow]
  · intro i hi
    show Function.update out.out_node_names r row i = _
    rw [Function.update_of_ne hi]
  · show (Function.update out.out_node_names r row r).bytes.take _ = _
    rw [Function.update_self]
    exact CharBuf.take_of_write hrow (Nat.le_of_lt hcol)

/-- `parse_node` in its row: what it has written and what it returns. -/
theorem parse_node_into_sat (r : Fin N) (path : List Byte) (hL : 1 ≤ L) (hcol : col ≤ L - 1)
    (hrow : (out.out_node_names r).bytes.take col = row) :
    (parse_node_into r path col out).Sat
      (fun rest out' => (parse_node L path row).status = .SUCCESS ∧
        rest = (parse_node L path row).rest ∧ OnlyRow r out out' ∧
        RowHolds (out'.out_node_names r) (parse_node L path row).row)
      (fun e out' => (parse_node L path row).status = e ∧ e ≠ .SUCCESS ∧ OnlyRow r out out')
      (fun _ => False) := by
  have hlength : row.length = col := by
    have := (out.out_node_names r).size_eq
    rw [← hrow, List.length_take]
    omega
  -- a column further at every character
  induction path generalizing out col row with
  | nil =>
    obtain ⟨out', hrun, honly, hbytes⟩ :=
      write_node_name_run out r 0 (show col < L from by omega)
    simp only [parse_node_into, bind_run, hrun, bind_ok, pure_run, sat_ok]
    refine ⟨rfl, rfl, honly, ?_⟩
    show (out'.out_node_names r).bytes.take (row.length + 1) = row ++ [0]
    rw [hlength, hbytes, hrow]
  | cons c path ih =>
    by_cases hc : c = PATH_DELIMITER
    · subst hc
      obtain ⟨out', hrun, honly, hbytes⟩ :=
        write_node_name_run out r 0 (show col < L from by omega)
      rw [parse_node_delimiter]
      simp only [parse_node_into, if_true, bind_run, hrun, bind_ok, pure_run, sat_ok]
      refine ⟨trivial, trivial, honly, ?_⟩
      show (out'.out_node_names r).bytes.take (row.length + 1) = row ++ [0]
      rw [hlength, hbytes, hrow]
    · by_cases hfull : col ≥ L - 1
      · -- the row is full
        rw [parse_node_full hc (hlength ▸ hfull)]
        simp only [parse_node_into, hc, hfull, if_false, if_true, returnStatus_run, sat_fail]
        exact ⟨trivial, by simp, rfl, fun i hi => rfl⟩
      · obtain ⟨out', hrun, honly, hbytes⟩ :=
          write_node_name_run out r c (show col < L from by omega)
        have hstep : parse_node_into r (c :: path) col out =
            parse_node_into r path (col + 1) out' := by
          simp only [parse_node_into, hc, hfull, if_false, bind_run, hrun, bind_ok]
        rw [parse_node_cons hc (hlength ▸ hfull), hstep]
        have hrow' : (out'.out_node_names r).bytes.take (col + 1) = row ++ [c] := by
          rw [hbytes, hrow]
        have hlength' : (row ++ [c]).length = col + 1 := by
          rw [List.length_append, hlength, List.length_singleton]
        apply (ih (show col + 1 ≤ L - 1 from by omega) hrow' hlength').mono
        · rintro rest out'' ⟨hstatus, hrest, honly', hholds⟩
          exact ⟨hstatus, hrest, honly.trans honly', hholds⟩
        · rintro e out'' ⟨hstatus, he, honly'⟩
          exact ⟨hstatus, he, honly.trans honly'⟩
        · exact fun _ h => h

/-- The rows from `cur_node` on hold the names. -/
def RowsHold (out : NodeNames L N) (cur_node : Nat) (names : List (List Byte)) : Prop :=
  ∀ (i : Fin N) (name : List Byte), cur_node ≤ i → names[i - cur_node]? = some name →
    RowHolds (out.out_node_names i) name

/-- Only the `amount` rows from `cur_node` on differ. -/
def OnlyRows (cur_node amount : Nat) (out out' : NodeNames L N) : Prop :=
  ∀ i : Fin N, i < cur_node ∨ cur_node + amount ≤ i →
    out'.out_node_names i = out.out_node_names i

/-- A row and the rows behind it. -/
theorem OnlyRow.andRows {amount : Nat} (h : OnlyRow r out out')
    (h' : OnlyRows (r + 1) amount out' out'') : OnlyRows r (amount + 1) out out'' := by
  intro i hi
  have hne : i ≠ r := by
    intro rfl
    omega
  rw [h' i (by omega), h.2 i hne]

/-- The first of the rows keeps its name when the others are written. -/
theorem RowsHold.cons {amount : Nat} (hname : RowHolds (out.out_node_names r) name)
    (honly : OnlyRows (r + 1) amount out out') (hnames : RowsHold out' (r + 1) names) :
    RowsHold out' r (name :: names) := by
  intro i x hi hx
  by_cases heq : i = r
  · subst heq
    rw [Nat.sub_self, List.getElem?_cons_zero] at hx
    rw [← Option.some.inj hx, honly i (Or.inl (Nat.lt_succ_self _))]
    exact hname
  · have hlt : (r : Nat) + 1 ≤ i := by
      have hne : (i : Nat) ≠ r := fun h => heq (Fin.ext h)
      omega
    have hindex : (i : Nat) - r = (i - (r + 1)) + 1 := by omega
    rw [hindex, List.getElem?_cons_succ] at hx
    exact hnames i x hlt hx

/-- The loop of `parse_path` writes the rows that the names are read to. -/
theorem parse_path_into_loop_sat (path : List Byte) (out : NodeNames L N) (hL : 1 ≤ L)
    (hrows : cur_node + rows = N) :
    (parse_path_into_loop rows cur_node path out).Sat
      (fun _ out' => (parse_path_loop L rows path).1 = .SUCCESS ∧
        out'.out_nodes_amount = out.out_nodes_amount + (parse_path_loop L rows path).2.length ∧
        RowsHold out' cur_node (parse_path_loop L rows path).2 ∧
        OnlyRows cur_node (parse_path_loop L rows path).2.length out out')
      (fun e out' => (parse_path_loop L rows path).1 = e ∧ e ≠ .SUCCESS ∧
        OnlyRows cur_node (parse_path_loop L rows path).2.length out out')
      (fun _ => False) := by
  -- one row further at every iteration
  induction rows generalizing path cur_node out with
  | zero =>
    cases path with
    | nil => exact ⟨rfl, rfl, fun i name _ h => by simp [parse_path_loop] at h, fun i _ => rfl⟩
    | cons c path => exact ⟨rfl, by simp, fun i _ => rfl⟩
  | succ rows ih =>
    cases path with
    | nil => exact ⟨rfl, rfl, fun i name _ h => by simp [parse_path_loop] at h, fun i _ => rfl⟩
    | cons c path =>
      obtain ⟨r, rfl⟩ : ∃ r : Fin N, cur_node = r := ⟨⟨cur_node, by omega⟩, rfl⟩
      have hnode := parse_node_into_sat r (c :: path) hL (Nat.zero_le _)
        (List.take_zero : (out.out_node_names r).bytes.take 0 = [])
      rw [parse_path_into_loop, bind_run]
      rcases hnode.ok_or_fail with
        ⟨rest, out', hrun, hstatus, hrest, honly, hholds⟩ | ⟨e, out', hrun, hstatus, he, honly⟩
      · rw [parse_path_loop_step rfl hstatus, hrun, bind_ok, bind_run, modifyState_run, bind_ok,
          ← hrest]
        apply (ih _ _ (show (r : Nat) + 1 + rows = N from by omega)).mono
        · rintro _ out'' ⟨hloop, hcount, hnames, hsame⟩
          refine ⟨hloop, ?_, RowsHold.cons hholds hsame hnames, honly.andRows hsame⟩
          rw [hcount, List.length_cons]
          show out'.out_nodes_amount + 1 + _ = _
          rw [honly.1]
          omega
        · rintro e out'' ⟨hloop, he, hsame⟩
          exact ⟨hloop, he, honly.andRows hsame⟩
        · exact fun _ h => h
      · -- the name does not fit
        rw [parse_path_loop_stop rfl (hstatus ▸ he), hrun, bind_fail]
        exact ⟨hstatus, he, honly.andRows (show OnlyRows (r + 1) 0 out' out' from fun i _ => rfl)⟩

/-! ## Section 4: The whole function -/

/-- With room for at least one row, `parse_path` is its loop. -/
theorem parse_path_into_run (hpath : path ≠ []) (hL : 1 ≤ L) (hN : 1 ≤ N) :
    parse_path_into path out =
      parse_path_into_loop N 0 path { out with out_nodes_amount := 0 } := by
  have hlimits : ¬ (L = 0 ∨ N = 0) := by omega
  simp [parse_path_into, hlimits, hpath]

/-- **`parse_path` is splitting at the delimiter.** It succeeds exactly when the
    components fit in the rows, which then hold them, and it never writes
    outside of the array or to a row that no component needs. -/
theorem parse_path_splits {L N : Nat} (path : List Byte) (out : NodeNames L N) (hpath : path ≠ [])
    (hL : 1 ≤ L) (hN : 1 ≤ N) :
    ((parse_path_into path out).succeeded = true ↔
        (pathComponents path).length ≤ N ∧ ∀ name ∈ pathComponents path, name.length ≤ L - 1) ∧
      ∃ out', (parse_path_into path out).final = some out' ∧
        ((parse_path_into path out).succeeded = true →
          out'.out_nodes_amount = (pathComponents path).length ∧
          ∀ (i : Fin N) (name : List Byte), (pathComponents path)[i]? = some name →
            RowHolds (out'.out_node_names i) name) ∧
        ∀ i : Fin N, (pathComponents path).length ≤ i →
          out'.out_node_names i = out.out_node_names i := by
  have hleft : componentsLeft path = pathComponents path := if_neg hpath
  obtain ⟨hiff, hnames, hcount⟩ := parse_path_loop_splits L N path
  rw [hleft] at hiff hnames hcount
  have hsat := parse_path_into_loop_sat path { out with out_nodes_amount := 0 } hL (Nat.zero_add N)
  rw [parse_path_into_run hpath hL hN]
  -- what the loop writes is what `parse_path_loop` reads
  rcases hsat.ok_or_fail with
    ⟨_, out', hrun, hloop, hamount, hrows, hsame⟩ | ⟨e, out', hrun, hloop, he, hsame⟩
  · rw [hrun]
    rw [hnames hloop] at hamount hrows hsame
    refine ⟨⟨fun _ => hiff.mp hloop, fun _ => rfl⟩, out', rfl, fun _ => ⟨?_, ?_⟩, ?_⟩
    · rw [hamount]
      exact Nat.zero_add _
    · exact fun i name h => hrows i name (Nat.zero_le _) h
    · exact fun i hi => hsame i (Or.inr (by omega))
  · rw [hrun]
    refine ⟨⟨fun h => absurd h Bool.false_ne_true, ?_⟩, out', rfl,
      fun h => absurd h Bool.false_ne_true, ?_⟩
    · exact fun h => absurd (hloop.symm.trans (hiff.mpr h)) he
    · exact fun i hi => hsame i (Or.inr (by omega))

/-- `"a//"` in an array of two rows of two bytes. -/
theorem parse_path_splits_two :
    pathComponents (ascii "a//") = [ascii "a", []] ∧
      ∃ out' : NodeNames 2 2,
        (parse_path_into (ascii "a//") ⟨0, fun _ => CharBuf.zeroed 2⟩).final = some out' ∧
          out'.out_nodes_amount = 2 ∧ RowHolds (out'.out_node_names 0) (ascii "a") := by
  obtain ⟨hiff, out', hfinal, hrows, -⟩ :=
    parse_path_splits (ascii "a//") (⟨0, fun _ => CharBuf.zeroed 2⟩ : NodeNames 2 2)
      (by decide) (by decide) (by decide)
  obtain ⟨hamount, hholds⟩ := hrows (hiff.mpr (by decide))
  exact ⟨by decide, out', hfinal, hamount, hholds 0 (ascii "a") (by decide)⟩

end VirtualFS
