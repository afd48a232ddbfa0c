import Mathlib.Algebra.GroupWithZero.Nat
import Mathlib.Algebra.Group.Int.Defs
import Mathlib.Data.Nat.Digits.Defs
import VirtualFS.Cli.CarriedOperations

/-! # Numbers in Commands

    `read` and `trunc` take numbers. `strtol` converts the front of an argument;
    with the checks behind it the commands accept decimal numerals that are not
    negative and fit in a `long`, and nothing else but the empty argument.

    * `strtol_numeral`: the value of a numeral.
    * `decimal_iff`: which arguments are numbers.
    * `numbers_validated`: what the commands do with them.
-/

namespace VirtualFS

open Framework Prog Outcome

variable {chars spaces sign digits rest : List Byte} {n : Nat}
  {s : CString}

/-! ## Section 1: Numerals -/

def PLUS : Byte := 43
def MINUS : Byte := 45

/-- White space, perhaps a sign, and digits. -/
structure Numeral (chars spaces sign digits : List Byte) : Prop where
  split : chars = spaces ++ (sign ++ digits)
  /-- `strtol` skips what `isspace` accepts. -/
  spaces_ok : ∀ c ∈ spaces, isspace c = true
  /-- At most one sign, right before the digits. -/
  sign_ok : sign = [] ∨ sign = [PLUS] ∨ sign = [MINUS]
  digits_ok : ∀ c ∈ digits, isdigit c = true
  /-- A sign alone is no numeral. -/
  digits_ne : digits ≠ []

/-- The value of decimal digits, the last of which counts ones. -/
def digitsValue (digits : List Byte) : Nat :=
  Nat.ofDigits 10 (digits.reverse.map fun c => c.toNat - 48)

/-- The conversion of the code and the value of the digits are the same number. -/
theorem foldl_digits (digits : List Byte) :
    digits.foldl (fun n d => 10 * n + (d.toNat - 48)) 0 = digitsValue digits := by
  -- The last digit is the one that counts ones.
  induction digits using List.reverseRecOn with
  | nil => rfl
  | append_singleton digits d ih =>
    rw [List.foldl_append, ih]
    unfold digitsValue
    rw [List.reverse_append, List.reverse_singleton, List.singleton_append, List.map_cons,
      Nat.ofDigits_cons]
    simp [Nat.add_comm]

/-- The value of digits behind a sign. -/
def signedValue (negative : Bool) (digits : List Byte) : Int :=
  if negative then -digitsValue digits else digitsValue digits

/-- What `strtol` does behind the sign. -/
def converted (chars rest : List Byte) (negative : Bool) : StrtolResult :=
  if rest.takeWhile isdigit = [] then
    ⟨0, chars, false⟩
  else if LONG_MAX < signedValue negative (rest.takeWhile isdigit) then
    ⟨LONG_MAX, rest.dropWhile isdigit, true⟩
  else if signedValue negative (rest.takeWhile isdigit) < LONG_MIN then
    ⟨LONG_MIN, rest.dropWhile isdigit, true⟩
  else
    ⟨signedValue negative (rest.takeWhile isdigit), rest.dropWhile isdigit, false⟩

/-- Digits whose value is in range are converted. -/
theorem converted_in_range {negative : Bool} (hdigits : rest.takeWhile isdigit ≠ [])
    (hmin : LONG_MIN ≤ signedValue negative (rest.takeWhile isdigit))
    (hmax : signedValue negative (rest.takeWhile isdigit) ≤ LONG_MAX) :
    converted chars rest negative =
      ⟨signedValue negative (rest.takeWhile isdigit), rest.dropWhile isdigit, false⟩ := by
  unfold converted
  rw [if_neg hdigits, if_neg (Int.not_lt.mpr hmax), if_neg (Int.not_lt.mpr hmin)]

/-- No digits, a value out of range, or a conversion. -/
theorem converted_cases (chars rest : List Byte) (negative : Bool) :
    converted chars rest negative = ⟨0, chars, false⟩ ∨
      (converted chars rest negative).erange = true ∨
      rest.takeWhile isdigit ≠ [] ∧
        signedValue negative (rest.takeWhile isdigit) ≤ LONG_MAX ∧
        converted chars rest negative =
          ⟨signedValue negative (rest.takeWhile isdigit), rest.dropWhile isdigit, false⟩ := by
  unfold converted
  split
  · exact Or.inl rfl
  · next hdigits =>
    split
    · exact Or.inr (Or.inl rfl)
    · next hmax =>
      split
      · exact Or.inr (Or.inl rfl)
      · exact Or.inr (Or.inr ⟨hdigits, Int.not_lt.mp hmax, rfl⟩)

/-- White space and one sign are skipped. -/
theorem strtol_split (chars : List Byte) :
    ∃ sign rest, chars.dropWhile isspace = sign ++ rest ∧
      (sign = [] ∨ sign = [PLUS] ∨ sign = [MINUS]) ∧
      (sign = [] → ∀ tail, rest ≠ PLUS :: tail ∧ rest ≠ MINUS :: tail) ∧
      strtol chars = converted chars rest (decide (sign = [MINUS])) := by
  unfold strtol converted
  simp only [foldl_digits]
  -- A sign is taken off if there is one.
  cases htext : chars.dropWhile isspace with
  | nil => exact ⟨[], [], rfl, Or.inl rfl, fun _ _ => ⟨nofun, nofun⟩, rfl⟩
  | cons c tail =>
    by_cases hplus : c = PLUS
    · subst hplus
      exact ⟨[PLUS], tail, rfl, Or.inr (Or.inl rfl), nofun, rfl⟩
    by_cases hminus : c = MINUS
    · subst hminus
      exact ⟨[MINUS], tail, rfl, Or.inr (Or.inr rfl), nofun, rfl⟩
    · refine ⟨[], c :: tail, rfl, Or.inl rfl, fun _ _ => ⟨?_, ?_⟩, ?_⟩
      · rintro ⟨⟩
        exact hplus rfl
      · rintro ⟨⟩
        exact hminus rfl
      · split
        · next heq =>
          cases heq
          exact absurd rfl hplus
        · next heq =>
          cases heq
          exact absurd rfl hminus
        · rfl

/-- There is one way to read the sign. -/
theorem sign_unique {sign' rest' : List Byte}
    (hsign : sign = [] ∨ sign = [PLUS] ∨ sign = [MINUS])
    (hrest : sign = [] → ∀ tail, rest ≠ PLUS :: tail ∧ rest ≠ MINUS :: tail)
    (hsign' : sign' = [] ∨ sign' = [PLUS] ∨ sign' = [MINUS])
    (hrest' : sign' = [] → ∀ tail, rest' ≠ PLUS :: tail ∧ rest' ≠ MINUS :: tail)
    (h : sign ++ rest = sign' ++ rest') : sign = sign' ∧ rest = rest' := by
  have hdiffer : PLUS ≠ MINUS := by decide
  -- Nine combinations of two signs; the equal ones leave equal rests.
  rcases hsign with rfl | rfl | rfl
  · rcases hsign' with rfl | rfl | rfl
    · exact ⟨rfl, h⟩
    · exact absurd h (hrest rfl rest').1
    · exact absurd h (hrest rfl rest').2
  · rcases hsign' with rfl | rfl | rfl
    · exact absurd h.symm (hrest' rfl rest).1
    · exact ⟨rfl, (List.cons.inj h).2⟩
    · exact absurd (List.cons.inj h).1 hdiffer
  · rcases hsign' with rfl | rfl | rfl
    · exact absurd h.symm (hrest' rfl rest).2
    · exact absurd (List.cons.inj h).1.symm hdiffer
    · exact ⟨rfl, (List.cons.inj h).2⟩

theorem Numeral.head_ne (h : Numeral chars spaces sign digits) (tail : List Byte) :
    digits ≠ PLUS :: tail ∧ digits ≠ MINUS :: tail := by
  constructor
  · rintro rfl
    exact absurd (h.digits_ok PLUS (List.mem_cons_self ..)) (by decide)
  · rintro rfl
    exact absurd (h.digits_ok MINUS (List.mem_cons_self ..)) (by decide)

/-- A numeral is converted as a whole. -/
theorem strtol_numeral (h : Numeral chars spaces sign digits) :
    strtol chars = converted chars digits (decide (sign = [MINUS])) := by
  have hdrop : chars.dropWhile isspace = sign ++ digits := by
    rw [h.split, List.dropWhile_append_of_pos h.spaces_ok]
    obtain ⟨d, ds, rfl⟩ := List.exists_cons_of_ne_nil h.digits_ne
    have hd : ¬ isspace d = true := by
      have hdigit := h.digits_ok d (List.mem_cons_self ..)
      simp only [isdigit, Bool.and_eq_true, decide_eq_true_eq, UInt8.le_iff_toNat_le] at hdigit
      simp only [isspace, SPACE, Bool.or_eq_true, Bool.and_eq_true, decide_eq_true_eq,
        UInt8.le_iff_toNat_le, ← UInt8.toNat_inj]
      have hnine : (9 : Byte).toNat = 9 := rfl
      have hthirteen : (13 : Byte).toNat = 13 := rfl
      have hzero : (48 : Byte).toNat = 48 := rfl
      have hspace : (32 : Byte).toNat = 32 := rfl
      omega
    rcases h.sign_ok with rfl | rfl | rfl
    · exact List.dropWhile_cons_of_neg hd
    · rfl
    · rfl
  obtain ⟨sign', rest', hdrop', hsign', hrest', hrun⟩ := strtol_split chars
  obtain ⟨rfl, rfl⟩ := sign_unique h.sign_ok (fun _ => h.head_ne) hsign' hrest'
    (hdrop.symm.trans hdrop')
  exact hrun

/-- The arguments that mean the number `n`: its numerals, and the empty one for zero. -/
def IsNumber (chars : List Byte) (n : Nat) : Prop :=
  (chars = [] ∧ n = 0) ∨
    ∃ spaces sign digits, Numeral chars spaces sign digits ∧ n = digitsValue digits ∧
      (sign = [MINUS] → n = 0) ∧ (n : Int) ≤ LONG_MAX

/-- The accepted arguments are the numbers. -/
theorem decimal_iff : decimal s = some n ↔ IsNumber s.chars n := by
  rw [decimal_eq_some_iff]
  constructor
  · rintro ⟨hend, hrange, hvalue⟩
    obtain ⟨sign, rest, hdrop, hsign, -, hrun⟩ := strtol_split s.chars
    rw [hrun] at hend hrange hvalue
    rcases converted_cases s.chars rest (decide (sign = [MINUS])) with
      heq | hover | ⟨hdigits, hmax, heq⟩
    · rw [heq] at hend hvalue
      exact Or.inl ⟨hend, (Int.ofNat_inj.mp hvalue).symm⟩
    · rw [hover] at hrange
      cases hrange
    rw [heq] at hend hvalue
    -- all characters behind the sign are digits
    have hall : rest.takeWhile isdigit = rest := by
      have hparts := List.takeWhile_append_dropWhile (p := isdigit) (l := rest)
      rwa [show rest.dropWhile isdigit = [] from hend, List.append_nil] at hparts
    have hdigit : ∀ c ∈ rest, isdigit c = true := by
      rw [← hall]
      exact fun c hc => List.mem_takeWhile_imp hc
    rw [hall] at hdigits hvalue hmax
    have hvalue : signedValue (decide (sign = [MINUS])) rest = n := hvalue
    have hn : (n : Int) ≤ LONG_MAX := hvalue ▸ hmax
    refine Or.inr ⟨s.chars.takeWhile isspace, sign, rest, ⟨?_, ?_, hsign, hdigit, hdigits⟩, ?_⟩
    · rw [← hdrop, List.takeWhile_append_dropWhile]
    · exact fun c hc => List.mem_takeWhile_imp hc
    · unfold signedValue at hvalue
      split at hvalue
      · omega
      · next hplus => exact ⟨by omega, fun hminus => absurd (decide_eq_true hminus) hplus, hn⟩
  · rintro (⟨hnil, rfl⟩ | ⟨spaces, sign, digits, hnumeral, rfl, hminus, hmax⟩)
    · rw [hnil]
      exact ⟨rfl, rfl, rfl⟩
    · have htake : digits.takeWhile isdigit = digits :=
        List.takeWhile_eq_self_iff.mpr hnumeral.digits_ok
      have hdrop : digits.dropWhile isdigit = [] :=
        List.dropWhile_eq_nil_iff.mpr hnumeral.digits_ok
      have hvalue : signedValue (decide (sign = [MINUS])) digits = digitsValue digits := by
        unfold signedValue
        split
        · next hneg =>
          have hzero := hminus (of_decide_eq_true hneg)
          omega
        · rfl
      have hmin : LONG_MIN ≤ 0 := by decide
      rw [strtol_numeral hnumeral, converted_in_range]
      · rw [htake, hvalue, hdrop]
        exact ⟨rfl, rfl, rfl⟩
      · rw [htake]
        exact hnumeral.digits_ne
      · rw [htake, hvalue]
        omega
      · rw [htake, hvalue]
        exact hmax

/-! ## Section 2: The commands -/

/-- The command `trunc path s`. -/
def Command.trunc (path s : CString) : Command where
  func := .CMD_TRUNC
  opts := []
  args := [path, s]
  opts_amount_le := Nat.zero_le _
  args_amount_le := Nat.le_of_ble_eq_true rfl

/-- The command `read path s t`. -/
def Command.read (path s t : CString) : Command where
  func := .CMD_READ
  opts := []
  args := [path, s, t]
  opts_amount_le := Nat.zero_le _
  args_amount_le := Nat.le_of_ble_eq_true rfl

/-- Whatever denotes no number is refused. -/
theorem decimal_eq_none_iff : decimal s = none ↔ ∀ n, ¬ IsNumber s.chars n := by
  rw [Option.eq_none_iff_forall_ne_some]
  exact forall_congr' fun n => not_congr decimal_iff

/-- What commands are about, apart from what they print. -/
def Cli.core (cli : Cli) : Workspace × List TerminalEvent × Bool :=
  (cli.workspace, cli.stdin, cli.exit_flag)

/-- **Validation of numbers**: `trunc` and `read` do what they are for exactly when their
    arguments are numbers. Otherwise they fail, and nothing but the output changes. -/
theorem numbers_validated (path s t : CString) (cli : Cli) :
    ((∃ n, IsNumber s.chars n ∧
        command_dispatch (.trunc path s) OUTPUT_BUFFER_SIZE cli =
          onWorkspace (ws_file_truncate path n) cli) ∨
      (∀ n, ¬ IsNumber s.chars n) ∧ ∃ e, NumberError e ∧
        command_dispatch (.trunc path s) OUTPUT_BUFFER_SIZE cli = .fail e cli) ∧
    ((∃ k n, IsNumber s.chars k ∧ IsNumber t.chars n ∧
        command_dispatch (.read path s t) OUTPUT_BUFFER_SIZE cli = read_and_print path k n cli) ∨
      ((∀ n, ¬ IsNumber s.chars n) ∨ ∀ n, ¬ IsNumber t.chars n) ∧
        ∃ e cli', NumberError e ∧ cli'.core = cli.core ∧
          command_dispatch (.read path s t) OUTPUT_BUFFER_SIZE cli = .fail e cli') := by
  simp only [← decimal_eq_none_iff]
  simp only [← decimal_iff]
  refine ⟨cmd_trunc_exec_run rfl rfl cli, ?_⟩
  rcases @cmd_read_exec_run (.read path s t) path s t rfl rfl cli with
    hread | ⟨hnone, e, said, he, -, hrun⟩
  · exact Or.inl hread
  · exact Or.inr ⟨hnone, e, cli.printing said, he, rfl, hrun⟩

end VirtualFS
