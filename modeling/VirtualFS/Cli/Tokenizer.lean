import Mathlib.Data.List.Forall2
import VirtualFS.Cli.Commands
import VirtualFS.Framework.Words

/-! # Tokens

    `cmd_tokenize` replaces the delimiters of the command string by terminators
    while it goes on, and collects the positions behind them. Every token is a
    word of the string that now ends with a terminator.

    * `TokenAt`: a terminated word starts at a position of the buffer.
    * `Tokenized`: the buffer and the tokens after the loop.
    * `cmd_tokenize_sat`: the tokens, and failure for no words or too many. The
      induction is on the characters that are left.
-/

namespace VirtualFS

open Framework Prog Outcome

variable {n i capacity : Nat} {buf buf' : CharBuf n} {c : Byte}
  {done r rest w : List Byte} {ws : List (List Byte)} {tokens : List Nat}

/-! ## Section 1: Reads and writes -/

/-- The word stands at this position, with a terminator behind it. -/
def TokenAt (buf : CharBuf n) (i : Nat) (w : List Byte) : Prop :=
  ∃ tail, buf.bytes.drop i = w ++ 0 :: tail

/-- A character of the buffer is read. -/
theorem char_at_run (h : buf.bytes[i]? = some c) : char_at i buf = .ok c buf := by
  simp [char_at, h]

/-- The character behind what has been passed. -/
theorem char_at_append (h : buf.bytes = done ++ c :: r) (hi : done.length = i) :
    char_at i buf = .ok c buf := by
  apply char_at_run
  rw [h, List.getElem?_append_right (Nat.le_of_eq hi), hi, Nat.sub_self]
  rfl

/-- A character of a token. -/
theorem char_at_token {k : Nat} (h : TokenAt buf i w) (hk : (w ++ [0])[k]? = some c) :
    char_at (i + k) buf = .ok c buf := by
  obtain ⟨tail, hdrop⟩ := h
  apply char_at_run
  have hlt : k < (w ++ [0]).length := (List.getElem?_eq_some_iff.mp hk).1
  rw [← List.getElem?_drop, hdrop]
  show (w ++ ([0] ++ tail))[k]? = some c
  rw [← List.append_assoc, List.getElem?_append_left hlt, hk]

/-- A character of the buffer is replaced. -/
theorem set_char_run (x : Byte) (h : buf.bytes = done ++ c :: r) (hi : done.length = i) :
    ∃ buf', set_char i x buf = .ok () buf' ∧ buf'.bytes = done ++ x :: r := by
  have hsize : done.length + (r.length + 1) = n := by
    rw [← buf.size_eq, h, List.length_append, List.length_cons]
  obtain ⟨buf', hwrite⟩ :=
    CharBuf.write_isSome (b := buf) (show i + [x].length ≤ n from by simp; omega)
  refine ⟨buf', by simp [set_char, hwrite], ?_⟩
  have hbytes := CharBuf.bytes_of_write hwrite
  subst hi
  rw [hbytes, h, List.take_left, List.append_assoc]
  congr 1
  rw [List.drop_append, List.drop_of_length_le (Nat.le_add_right _ _)]
  simp

/-- The string at a token is its word. -/
theorem string_at_run (h : TokenAt buf i w) (hnul : (0 : Byte) ∉ w) :
    string_at i buf = .ok ⟨w, hnul⟩ buf := by
  obtain ⟨tail, hdrop⟩ := h
  have hmem : (0 : Byte) ∈ w ++ 0 :: tail :=
    List.mem_append_right w (List.mem_cons_self ..)
  have hcut : cutAtNul (w ++ 0 :: tail) = w := by
    rw [cutAtNul_append_nul, cutAtNul_of_nul_not_mem hnul]
  simp [string_at, hdrop, CString.ofBytes, hcut]

/-! ## Section 2: Tokens -/

/-- The characters after their delimiters have been replaced. -/
def terminated (r : List Byte) : List Byte :=
  r.map fun c => if c = COMMAND_DELIMITER then 0 else c

theorem terminated_cons_delimiter (h : c = COMMAND_DELIMITER) :
    terminated (c :: r) = 0 :: terminated r := by
  simp [terminated, h]

theorem terminated_cons_ne (h : c ≠ COMMAND_DELIMITER) :
    terminated (c :: r) = c :: terminated r := by
  simp [terminated, h]

/-- The first word ends with a terminator. -/
theorem exists_terminated (r rest : List Byte) :
    ∃ tail, terminated r ++ 0 :: rest = r.takeWhile (· ≠ COMMAND_DELIMITER) ++ 0 :: tail := by
  -- The first delimiter becomes the terminator.
  induction r with
  | nil => exact ⟨rest, rfl⟩
  | cons c r ih =>
    by_cases hc : c = COMMAND_DELIMITER
    · exact ⟨terminated r ++ 0 :: rest, by simp [terminated, hc]⟩
    · obtain ⟨tail, htail⟩ := ih
      refine ⟨tail, ?_⟩
      rw [terminated_cons_ne hc, List.takeWhile_cons_of_pos (by simpa using hc), List.cons_append,
        htail]
      rfl

/-- The token behind what has been passed. -/
theorem tokenAt_terminated (h : buf.bytes = done ++ terminated r ++ 0 :: rest)
    (hi : done.length = i) : TokenAt buf i (r.takeWhile (· ≠ COMMAND_DELIMITER)) := by
  obtain ⟨tail, htail⟩ := exists_terminated r rest
  refine ⟨tail, ?_⟩
  rw [h, List.append_assoc, ← hi, List.drop_left, htail]

/-- Leading delimiters are skipped. -/
theorem skip_delimiters_run (h : buf.bytes = done ++ r ++ 0 :: rest) (hi : done.length = i) :
    ∃ lead r', r = lead ++ r' ∧ (∀ c ∈ lead, c = COMMAND_DELIMITER) ∧
      r'.head? ≠ some COMMAND_DELIMITER ∧
      skip_delimiters r.length i buf = .ok (i + lead.length) buf := by
  -- `done` is what lies in front of the index, `r` what is left of the line.
  induction r generalizing done i with
  | nil => exact ⟨[], [], rfl, by simp, by simp, rfl⟩
  | cons c r ih =>
    rw [List.append_assoc, List.cons_append] at h
    have hread := char_at_append h hi
    by_cases hc : c = COMMAND_DELIMITER
    · have h' : buf.bytes = (done ++ [c]) ++ r ++ 0 :: rest := by
        rw [h]
        simp
      obtain ⟨lead, r', hr, hlead, hhead, hrun⟩ :=
        ih (i := i + 1) h' (by rw [List.length_append, hi]; rfl)
      refine ⟨c :: lead, r', by rw [hr]; rfl, ?_, hhead, ?_⟩
      · intro x hx
        rcases List.mem_cons.mp hx with rfl | hx
        · exact hc
        · exact hlead x hx
      · rw [List.length_cons, skip_delimiters, bind_run, hread, bind_ok,
          if_neg (not_not_intro hc), hrun, List.length_cons]
        congr 1
        omega
    · refine ⟨[], c :: r, rfl, by simp, by simpa using hc, ?_⟩
      rw [List.length_cons, skip_delimiters, bind_run, hread, bind_ok, if_pos hc]
      rfl

section Steps

variable {command_length left : Nat} {buf₁ : CharBuf n} {d : Byte}

/-- A letter is passed over. -/
theorem cmd_tokenize_loop_letter (hread : char_at i buf = .ok c buf) (hc : c ≠ COMMAND_DELIMITER) :
    cmd_tokenize_loop command_length capacity (left + 1) i tokens buf =
      cmd_tokenize_loop command_length capacity left (i + 1) tokens buf := by
  rw [cmd_tokenize_loop, bind_run, hread, bind_ok, if_neg hc]

/-- A delimiter directly before the terminator. -/
theorem cmd_tokenize_loop_last (hread : char_at i buf = .ok c buf) (hc : c = COMMAND_DELIMITER)
    (hset : set_char i 0 buf = .ok () buf₁) (hlast : i + 1 ≥ command_length) :
    cmd_tokenize_loop command_length capacity (left + 1) i tokens buf = .ok tokens buf₁ := by
  rw [cmd_tokenize_loop, bind_run, hread, bind_ok, if_pos hc, bind_run, hset, bind_ok, ite_run,
    if_pos hlast]
  rfl

/-- A delimiter with the character `d` behind it. -/
theorem cmd_tokenize_loop_delimiter (hread : char_at i buf = .ok c buf)
    (hc : c = COMMAND_DELIMITER) (hset : set_char i 0 buf = .ok () buf₁)
    (hmore : ¬ i + 1 ≥ command_length) (hnext : char_at (i + 1) buf₁ = .ok d buf₁) :
    cmd_tokenize_loop command_length capacity (left + 1) i tokens buf =
      if d = COMMAND_DELIMITER then
        cmd_tokenize_loop command_length capacity left (i + 1) tokens buf₁
      else if tokens.length ≥ capacity then
        .fail .TOO_MANY_TOKENS buf₁
      else
        cmd_tokenize_loop command_length capacity left (i + 1) (tokens ++ [i + 1]) buf₁ := by
  rw [cmd_tokenize_loop, bind_run, hread, bind_ok, if_pos hc, bind_run, hset, bind_ok, ite_run,
    if_neg hmore, bind_run, hnext, bind_ok, ite_run, ite_run]
  rfl

end Steps

/-- What the tokenizer has done behind `done`: replaced the delimiters of `r` and
    collected one more token for every word that begins there. -/
def Tokenized (done r rest : List Byte) (capacity : Nat) (tokens tokens' : List Nat)
    (buf' : CharBuf n) : Prop :=
  buf'.bytes = done ++ terminated r ++ 0 :: rest ∧ tokens'.length ≤ capacity ∧
    ∃ new, tokens' = tokens ++ new ∧
      List.Forall₂ (TokenAt buf') new (laterWords COMMAND_DELIMITER r)

/-- One character further. -/
theorem Tokenized.cons {tokens' : List Nat} {x : Byte}
    (hx : terminated (c :: r) = x :: terminated r)
    (hwords : laterWords COMMAND_DELIMITER (c :: r) = laterWords COMMAND_DELIMITER r)
    (h : Tokenized (done ++ [x]) r rest capacity tokens tokens' buf') :
    Tokenized done (c :: r) rest capacity tokens tokens' buf' := by
  obtain ⟨hbytes, hnew⟩ := h
  refine ⟨?_, hwords ▸ hnew⟩
  rw [hbytes, hx]
  simp

/-- One token for every later word. -/
theorem cmd_tokenize_loop_sat (h : buf.bytes = done ++ r ++ 0 :: rest) (hi : done.length = i)
    (hcap : tokens.length ≤ capacity) :
    (cmd_tokenize_loop (i + r.length) capacity r.length i tokens buf).Sat
      (fun tokens' buf' => Tokenized done r rest capacity tokens tokens' buf')
      (fun _ _ => capacity < tokens.length + (laterWords COMMAND_DELIMITER r).length)
      (fun _ => False) := by
  -- a passed character goes over from `r` to `done`
  induction r generalizing done i tokens buf with
  | nil => exact ⟨h, hcap, [], (List.append_nil _).symm, List.Forall₂.nil⟩
  | cons c r ih =>
    rw [List.append_assoc, List.cons_append] at h
    have hread := char_at_append h hi
    have hi' : ∀ x : Byte, (done ++ [x]).length = i + 1 := by
      intro x
      rw [List.length_append, hi]
      rfl
    have hlength : i + (c :: r).length = (i + 1) + r.length := by
      rw [List.length_cons]
      omega
    rw [hlength, List.length_cons]
    by_cases hc : c = COMMAND_DELIMITER
    · obtain ⟨buf₁, hset, hbytes⟩ := set_char_run 0 h hi
      have h' : buf₁.bytes = (done ++ [0]) ++ r ++ 0 :: rest := by
        rw [hbytes]
        simp
      have hterm : terminated (c :: r) = 0 :: terminated r := terminated_cons_delimiter hc
      have hwords : laterWords COMMAND_DELIMITER (c :: r) = words COMMAND_DELIMITER r := by
        rw [hc, laterWords_cons_sep]
      match r with
      | [] =>
        -- the delimiter is the last character
        rw [cmd_tokenize_loop_last hread hc hset
          (show i + 1 ≥ i + 1 + ([] : List Byte).length from Nat.le_refl _), sat_ok]
        refine ⟨?_, hcap, [], (List.append_nil _).symm, ?_⟩
        · rw [h', hterm]
          simp [terminated]
        · rw [hwords]
          exact List.Forall₂.nil
      | d :: r =>
        have hnext : char_at (i + 1) buf₁ = .ok d buf₁ :=
          char_at_append (h'.trans (List.append_assoc ..)) (hi' 0)
        have hmore : ¬ i + 1 ≥ i + 1 + (d :: r).length := by
          rw [List.length_cons]
          omega
        rw [cmd_tokenize_loop_delimiter hread hc hset hmore hnext]
        by_cases hd : d = COMMAND_DELIMITER
        · -- repeated delimiters begin no token
          have hlater : words COMMAND_DELIMITER (d :: r) =
              laterWords COMMAND_DELIMITER (d :: r) := by
            rw [hd, words_cons_sep, laterWords_cons_sep]
          rw [if_pos hd]
          apply (ih h' (hi' 0) hcap).mono
          · exact fun _ _ h => h.cons hterm (hwords.trans hlater)
          · intro _ _ hlimit
            rwa [hwords, hlater]
          · exact fun _ h => h
        · have hword : words COMMAND_DELIMITER (d :: r) =
              (d :: r).takeWhile (· ≠ COMMAND_DELIMITER) ::
                laterWords COMMAND_DELIMITER (d :: r) := by
            rw [words_cons_ne hd, laterWords_cons_ne hd]
          rw [hword] at hwords
          rw [if_neg hd]
          by_cases hfull : tokens.length ≥ capacity
          · rw [if_pos hfull, sat_fail, hwords, List.length_cons]
            omega
          · -- the word behind the delimiter is the next token
            have hcap' : (tokens ++ [i + 1]).length ≤ capacity := by
              rw [List.length_append, List.length_singleton]
              omega
            rw [if_neg hfull]
            apply (ih h' (hi' 0) hcap').mono
            · intro tokens' buf' ⟨hfinal, hlimit, new, htokens, hnew⟩
              refine ⟨?_, hlimit, (i + 1) :: new, ?_, ?_⟩
              · rw [hfinal, hterm]
                simp
              · rw [htokens, List.append_assoc]
                rfl
              · rw [hwords]
                exact List.Forall₂.cons (tokenAt_terminated hfinal (hi' 0)) hnew
            · intro _ _ hlimit
              rw [List.length_append, List.length_singleton] at hlimit
              rw [hwords, List.length_cons]
              omega
            · exact fun _ h => h
    · -- inside of a word
      have h' : buf.bytes = (done ++ [c]) ++ r ++ 0 :: rest := by
        rw [h]
        simp
      have hwords : laterWords COMMAND_DELIMITER (c :: r) = laterWords COMMAND_DELIMITER r :=
        laterWords_cons_ne hc
      rw [cmd_tokenize_loop_letter hread hc, hwords]
      apply (ih h' (hi' c) hcap).mono
      · exact fun _ _ h => h.cons (terminated_cons_ne hc) hwords
      · exact fun _ _ h => h
      · exact fun _ h => h

/-- What `cmd_tokenize` has collected. -/
theorem cmd_tokenize_sat {s : CString} (h : buf.bytes = s.chars ++ 0 :: rest)
    (hcap : 1 ≤ capacity) :
    (cmd_tokenize capacity buf).Sat
      (fun tokens buf' => tokens.length ≤ capacity ∧
        List.Forall₂ (TokenAt buf') tokens (words COMMAND_DELIMITER s.chars))
      (fun _ _ => words COMMAND_DELIMITER s.chars = [] ∨
        capacity < (words COMMAND_DELIMITER s.chars).length)
      (fun _ => False) := by
  have hstring : string_at 0 buf = .ok s buf :=
    string_at_run (show TokenAt buf 0 s.chars from ⟨rest, h⟩) s.nul_free
  obtain ⟨lead, r, hs, hlead, hhead, hskip⟩ :=
    skip_delimiters_run (r := s.chars) (i := 0) (show buf.bytes = [] ++ s.chars ++ 0 :: rest from h)
      rfl
  have hwords : words COMMAND_DELIMITER s.chars = words COMMAND_DELIMITER r := by
    rw [hs, words_append hlead]
  rw [Nat.zero_add] at hskip
  unfold cmd_tokenize
  simp only [show ¬ capacity = 0 from by omega, if_false, bind_run, bind_ok, hstring, ite_run,
    hskip]
  by_cases hempty : s.chars.length = 0
  · -- the empty string
    simp only [hempty, if_true, returnStatus_run, bind_fail, sat_fail]
    left
    rw [List.length_eq_zero_iff.mp hempty]
    rfl
  · simp only [hempty, if_false]
    cases r with
    | nil =>
      -- nothing but delimiters
      have hall : lead.length = s.chars.length := by rw [hs, List.append_nil]
      simp only [hall, if_true, returnStatus_run, bind_fail, sat_fail]
      exact Or.inl hwords
    | cons c r =>
      have hsome : ¬ lead.length = s.chars.length := by
        rw [hs, List.length_append, List.length_cons]
        omega
      have hleft : s.chars.length - lead.length = (c :: r).length := by
        rw [hs, List.length_append]
        omega
      have hc : c ≠ COMMAND_DELIMITER := by simpa using hhead
      have hbytes : buf.bytes = lead ++ (c :: r) ++ 0 :: rest := by rw [h, hs]
      -- the loop starts at the first word, which is a token already
      simp only [hsome, if_false, hleft]
      rw [hs, List.length_append, ← hs, hwords, words_cons_ne hc, ← laterWords_cons_ne hc]
      apply (cmd_tokenize_loop_sat hbytes rfl (show [lead.length].length ≤ capacity from hcap)).mono
      · rintro tokens buf' ⟨hfinal, hlimit, new, rfl, hnew⟩
        exact ⟨hlimit, List.Forall₂.cons (tokenAt_terminated hfinal rfl) hnew⟩
      · intro _ _ hlimit
        right
        rw [List.length_singleton] at hlimit
        rw [List.length_cons]
        omega
      · exact fun _ h => h

end VirtualFS
