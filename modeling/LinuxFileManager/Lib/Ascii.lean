import Mathlib

/-!
# Bytes as ASCII text

The character classes of the C locale, decimal numbers as `printf` writes them, and
`strtol`, `atoi` and `scanf` as glibc has them: a number that does not fit is cut to
the ends of `long`, and then to the low bits of `int`.

Results:

* `atoi_decimal`, `scanInt_decimal`: `atoi` and `scanf` read what `%d` has written.
-/

namespace LinuxFileManager.Lib

abbrev Bytes := List UInt8

def byte (c : Char) : UInt8 := UInt8.ofNat c.toNat

def bytes (s : String) : Bytes := s.toList.map byte

/-- `isspace` in the C locale. -/
def isspace (c : UInt8) : Bool := c = 0x20 || (0x09 ≤ c && c ≤ 0x0D)

def newline : UInt8 := byte '\n'

def isdigit (c : UInt8) : Bool := byte '0' ≤ c && c ≤ byte '9'

/-! ## Numbers -/

/-- The value of a row of digits. -/
def number (digits : Bytes) : ℕ := digits.foldl (fun n c => 10 * n + (c.toNat - '0'.toNat)) 0

/-- `%d`. -/
def decimal (n : ℤ) : Bytes :=
  (if n < 0 then '-' :: Nat.toDigits 10 n.natAbs else Nat.toDigits 10 n.natAbs).map byte

/-- The optional sign, and what is behind it. -/
def signOf : Bytes → Bool × Bytes
  | [] => (false, [])
  | c :: s => if c = byte '-' then (true, s) else if c = byte '+' then (false, s) else (false, c :: s)

/-- `strtol(s, NULL, 10)`. -/
def strtol (s : Bytes) : ℤ :=
  let (negative, s) := signOf (s.dropWhile isspace)
  let n : ℤ := number (s.takeWhile isdigit)
  max (-2 ^ 63) (min (2 ^ 63 - 1) (if negative then -n else n))

/-- `atoi`. -/
def atoi (s : Bytes) : ℤ := (strtol s).bmod (2 ^ 32)

/-- `scanf("%d", ...)`: the number, unless the input has none there, and the rest of the
    input. A sign without a digit behind it is read all the same. -/
def scanInt (s : Bytes) : Option ℤ × Bytes :=
  let (_, rest) := signOf (s.dropWhile isspace)
  if rest.takeWhile isdigit = [] then (none, rest) else (some (atoi s), rest.dropWhile isdigit)

/-- The values of an `int`. -/
def IsInt (n : ℤ) : Prop := -2 ^ 31 ≤ n ∧ n < 2 ^ 31

theorem isInt_atoi (s : Bytes) : IsInt (atoi s) := by
  have hlow := Int.le_bmod (x := strtol s) (m := 2 ^ 32) (by norm_num)
  have hhigh := Int.bmod_lt (x := strtol s) (m := 2 ^ 32) (by norm_num)
  rw [← atoi] at hlow hhigh
  norm_num at hlow hhigh
  exact ⟨by omega, by omega⟩

/-! ## Reading what was written -/

theorem toNat_byte {c : Char} (h : c.toNat < 256) : (byte c).toNat = c.toNat := by
  rw [byte, UInt8.toNat_ofNat']
  exact Nat.mod_eq_of_lt h

theorem isDigit_bounds {c : Char} (h : c.isDigit = true) : 48 ≤ c.toNat ∧ c.toNat ≤ 57 := by
  rw [Char.isDigit, Bool.and_eq_true, decide_eq_true_eq, decide_eq_true_eq] at h
  exact ⟨by simpa using UInt32.le_iff_toNat_le.mp h.1, by simpa using UInt32.le_iff_toNat_le.mp h.2⟩

theorem isdigit_byte {c : Char} (h : c.isDigit = true) : isdigit (byte c) = true := by
  obtain ⟨hlow, hhigh⟩ := isDigit_bounds h
  have hbyte := toNat_byte (c := c) (by omega)
  rw [isdigit, Bool.and_eq_true, decide_eq_true_eq, decide_eq_true_eq, UInt8.le_iff_toNat_le,
    UInt8.le_iff_toNat_le, hbyte]
  exact ⟨hlow, hhigh⟩

theorem number_map_byte {cs : List Char} (h : ∀ c ∈ cs, c.isDigit = true) :
    number (cs.map byte) = Nat.ofDigitChars 10 cs 0 := by
  rw [number, Nat.ofDigitChars_eq_foldl, List.foldl_map]
  refine List.foldl_ext _ _ 0 fun n c hc => ?_
  rw [toNat_byte (by have := isDigit_bounds (h c hc); omega)]

theorem isDigit_toDigits_ten {n : ℕ} : ∀ c ∈ Nat.toDigits 10 n, c.isDigit = true :=
  fun _ hc => Nat.isDigit_of_mem_toDigits (by decide) (by decide) hc

/-- The digits up to something else. -/
theorem takeWhile_digits (n : ℕ) {rest : Bytes} (hrest : ∀ c ∈ rest.head?, isdigit c = false) :
    ((Nat.toDigits 10 n).map byte ++ rest).takeWhile isdigit = (Nat.toDigits 10 n).map byte := by
  have hall : ∀ c ∈ (Nat.toDigits 10 n).map byte, isdigit c = true := by
    intro c hc
    obtain ⟨d, hd, rfl⟩ := List.mem_map.mp hc
    exact isdigit_byte (isDigit_toDigits_ten d hd)
  rw [List.takeWhile_append_of_pos hall]
  cases rest with
  | nil => exact List.append_nil _
  | cons c rest =>
    rw [List.takeWhile_cons_of_neg (Bool.eq_false_iff.mp (hrest c rfl)), List.append_nil]

theorem exists_digits (n : ℕ) : ∃ c cs, Nat.toDigits 10 n = c :: cs ∧ c.isDigit = true := by
  cases h : Nat.toDigits 10 n with
  | nil => exact absurd h Nat.toDigits_ne_nil
  | cons c cs => exact ⟨c, cs, rfl, isDigit_toDigits_ten c (h ▸ List.mem_cons_self)⟩

/-- A digit is neither a blank nor a sign. -/
theorem digit_ne {c : Char} (h : c.isDigit = true) :
    isspace (byte c) = false ∧ byte c ≠ byte '-' ∧ byte c ≠ byte '+' := by
  obtain ⟨hlow, hhigh⟩ := isDigit_bounds h
  have hbyte := toNat_byte (c := c) (by omega)
  refine ⟨?_, ?_, ?_⟩
  · rw [isspace, Bool.or_eq_false_iff, Bool.and_eq_false_iff, decide_eq_false_iff_not,
      decide_eq_false_iff_not, decide_eq_false_iff_not, UInt8.le_iff_toNat_le, UInt8.le_iff_toNat_le, hbyte]
    refine ⟨?_, .inr ?_⟩
    · intro heq
      have := congrArg UInt8.toNat heq
      rw [hbyte] at this
      have h32 : (0x20 : UInt8).toNat = 32 := rfl
      omega
    · have h13 : (0x0D : UInt8).toNat = 13 := rfl
      omega
  · intro heq
    have := congrArg UInt8.toNat heq
    rw [hbyte] at this
    have h45 : (byte '-').toNat = 45 := rfl
    omega
  · intro heq
    have := congrArg UInt8.toNat heq
    rw [hbyte] at this
    have h43 : (byte '+').toNat = 43 := rfl
    omega

theorem signOf_decimal (n : ℤ) (rest : Bytes) : signOf ((decimal n ++ rest).dropWhile isspace) =
    (decide (n < 0), (Nat.toDigits 10 n.natAbs).map byte ++ rest) := by
  obtain ⟨c, cs, hcs, hc⟩ := exists_digits n.natAbs
  obtain ⟨hspace, hminus, hplus⟩ := digit_ne hc
  by_cases hneg : n < 0
  · rw [decimal, if_pos hneg, List.map_cons, List.cons_append, List.dropWhile_cons_of_neg (by decide),
      signOf, if_pos rfl, decide_eq_true hneg]
  · rw [decimal, if_neg hneg, hcs, List.map_cons, List.cons_append,
      List.dropWhile_cons_of_neg (Bool.eq_false_iff.mp hspace), signOf, if_neg hminus, if_neg hplus,
      decide_eq_false hneg]

/-- Reading a number in front of something that is no digit. -/
theorem strtol_decimal {n : ℤ} (hn : IsInt n) (rest : Bytes)
    (hrest : ∀ c ∈ rest.head?, isdigit c = false) : strtol (decimal n ++ rest) = n := by
  have hdigits := takeWhile_digits n.natAbs hrest
  have hnumber : number ((Nat.toDigits 10 n.natAbs).map byte) = n.natAbs := by
    rw [number_map_byte isDigit_toDigits_ten, Nat.ofDigitChars_ten_toDigits]
  obtain ⟨hlow, hhigh⟩ := hn
  simp only [strtol, signOf_decimal, hdigits, hnumber, decide_eq_true_eq]
  split_ifs <;> omega

theorem atoi_decimal_append {n : ℤ} (hn : IsInt n) (rest : Bytes)
    (hrest : ∀ c ∈ rest.head?, isdigit c = false) : atoi (decimal n ++ rest) = n := by
  rw [atoi, strtol_decimal hn rest hrest]
  obtain ⟨hlow, hhigh⟩ := hn
  exact Int.bmod_eq_of_le (by norm_num; omega) (by norm_num; omega)

theorem atoi_decimal {n : ℤ} (hn : IsInt n) : atoi (decimal n) = n := by
  have h := atoi_decimal_append hn [] fun c hc => (Option.not_mem_none c hc).elim
  rwa [List.append_nil] at h

/-! ## `scanf` -/

/-- Blanks in front of a number are passed over. -/
theorem dropWhile_space {space : Bytes} (h : ∀ c ∈ space, isspace c = true) (s : Bytes) :
    (space ++ s).dropWhile isspace = s.dropWhile isspace :=
  List.dropWhile_append_of_pos h

/-- `scanf` reads what `%d` has written, and stops behind it. -/
theorem scanInt_decimal {n : ℤ} (hn : IsInt n) {space : Bytes} (hspace : ∀ c ∈ space, isspace c = true)
    (rest : Bytes) (hrest : ∀ c ∈ rest.head?, isdigit c = false) :
    scanInt (space ++ (decimal n ++ rest)) = (some n, rest) := by
  have hdigits := takeWhile_digits n.natAbs hrest
  have hbehind : ((Nat.toDigits 10 n.natAbs).map byte ++ rest).dropWhile isdigit = rest := by
    have happend := List.takeWhile_append_dropWhile (p := isdigit)
      (l := (Nat.toDigits 10 n.natAbs).map byte ++ rest)
    rw [hdigits] at happend
    exact List.append_cancel_left happend
  have hne : (Nat.toDigits 10 n.natAbs).map byte ≠ [] := by
    rw [Ne, List.map_eq_nil_iff]
    exact Nat.toDigits_ne_nil
  have hatoi : atoi (space ++ (decimal n ++ rest)) = n := by
    have h := atoi_decimal_append hn rest hrest
    rwa [atoi, strtol, ← dropWhile_space hspace] at h
  simp only [scanInt, dropWhile_space hspace, signOf_decimal, hdigits, if_neg hne, hatoi, hbehind]

@[simp] theorem scanInt_nil : scanInt [] = (none, []) := rfl

theorem length_signOf_le (s : Bytes) : (signOf s).2.length ≤ s.length := by
  unfold signOf
  split
  · exact le_rfl
  · split_ifs
    · exact Nat.le_succ _
    · exact Nat.le_succ _
    · exact le_rfl

theorem length_scanInt_le (s : Bytes) : (scanInt s).2.length ≤ s.length := by
  have hspace := (List.dropWhile_sublist isspace (l := s)).length_le
  have hsign := length_signOf_le (s.dropWhile isspace)
  have hdigits := (List.dropWhile_sublist isdigit (l := (signOf (s.dropWhile isspace)).2)).length_le
  unfold scanInt
  dsimp only
  split_ifs
  · exact hsign.trans hspace
  · exact hdigits.trans (hsign.trans hspace)

end LinuxFileManager.Lib
