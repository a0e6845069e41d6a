/-
# The value of a literal

The code that is generated for a literal sets a register to its value: `codeInteger` reads a number
with the sign in front of it, `sqlite3Dequote` takes the quotes off a text and `sqlite3HexToBlob`
reads the digits of a blob (`core/sqlite3.c`).

`literalValue_tokens`: the literal that is recorded for a value has this value, on every node that
executes the command.  A text has to be without a terminator in it, at which its literal ends
(`literalValue_str`), and a real number has to be the one that its text is read as.  A blob of zeros
is recorded as the call of a function.
-/

import AergoLite.Core.RecordedSql

namespace AergoLite
namespace Core
namespace Sql

open Lexing

/-! ## Texts and blobs -/

/-- `sqlite3Isquote`. -/
def isQuote (c : Char) : Bool := "'\"[`".toList.contains c

/-- The loop of `sqlite3Dequote`. -/
def dequoteLoop (quote : Char) : Text → Text
  | [] => []
  | [c] => if c = quote then [] else [c]
  | c :: c' :: z =>
    if c = quote then if c' = quote then quote :: dequoteLoop quote z else []
    else c :: dequoteLoop quote (c' :: z)

/-- `sqlite3Dequote`. -/
def sqlite3Dequote : Text → Text
  | [] => []
  | q :: z => if isQuote q then dequoteLoop (if q = '[' then ']' else q) z else q :: z

/-- `sqlite3HexToBlob`. -/
def sqlite3HexToBlob : Text → Bytes
  | c :: c' :: z =>
    UInt8.ofNat ((sqlite3HexToInt c.toNat <<< 4) ||| sqlite3HexToInt c'.toNat) :: sqlite3HexToBlob z
  | _ => []

/-! ## Numbers -/

/-- `LARGEST_INT64`. -/
def largestInt64 : ℕ := 0x7fffffffffffffff

/-- `SMALLEST_INT64`. -/
def smallestInt64 : ℤ := -1 - largestInt64

/-- The text after its zeros. -/
def skipZeroes (z : Text) : Text := z.dropWhile (· == '0')

/-- The loop of `compare2pow63`. -/
def compareDigits : Text → Text → ℤ
  | a :: z, b :: w => if a = b then compareDigits z w else ((a.toNat : ℤ) - b.toNat) * 10
  | _, _ => 0

def pow63 : Text := "922337203685477580".toList

/-- `compare2pow63`: of the first nineteen digits. -/
def compare2pow63 (z : Text) : ℤ :=
  let c := compareDigits (z.take 18) pow63
  if c = 0 then ((z.getD 18 '\x00').toNat : ℤ) - '8'.toNat else c

/-- `sqlite3Atoi64` behind the sign: the value, and what is returned. -/
def atoi64Digits (neg : Bool) (zStart : Text) : ℤ × ℕ :=
  let zNum := skipZeroes zStart
  let digits := zNum.takeWhile Char.isDigit
  let u := digits.foldl (fun u c => (u * 10 + (c.toNat - '0'.toNat)) % 2 ^ 64) 0
  let bound : ℤ := if neg then smallestInt64 else largestInt64
  let num : ℤ := if largestInt64 < u then bound else if neg then -u else u
  let rc :=
    if digits = [] ∧ zNum.length = zStart.length then 1
    else if (zNum.drop digits.length).any (!isSpace ·) then 1
    else 0
  if digits.length < 19 then (num, rc)
  else
    let c := if 19 < digits.length then 1 else compare2pow63 zNum
    if c < 0 then (num, rc)
    else if 0 < c then (bound, 2)
    else (bound, if neg then rc else 3)

/-- `sqlite3Atoi64`. -/
def sqlite3Atoi64 (zNum : Text) : ℤ × ℕ :=
  match zNum.dropWhile isSpace with
  | '-' :: z => atoi64Digits true z
  | '+' :: z => atoi64Digits false z
  | z => atoi64Digits false z

/-- `0x`. -/
def hexPrefix (z : Text) : Bool := z.head? == some '0' &&
  (z.tail.head? == some 'x' || z.tail.head? == some 'X')

/-- `sqlite3DecOrHexToI64`. -/
def sqlite3DecOrHexToI64 (z : Text) : ℤ × ℕ :=
  if hexPrefix z then
    let digits := (skipZeroes (z.drop 2)).takeWhile isXDigit
    let u := digits.foldl (fun u c => (u * 16 + sqlite3HexToInt c.toNat) % 2 ^ 64) 0
    (if largestInt64 < u then (u : ℤ) - 2 ^ 64 else u,
      if digits.length = (skipZeroes (z.drop 2)).length ∧ digits.length ≤ 16 then 0 else 2)
  else sqlite3Atoi64 z

/-- `sqlite3GetInt32` of the text of an integer, which has no sign. -/
def sqlite3GetInt32 (z : Text) : Option ℕ :=
  if hexPrefix z && (z.drop 2).head?.any isXDigit then
    let digits := ((skipZeroes (z.drop 2)).takeWhile isXDigit).take 8
    let u := digits.foldl (fun u c => u * 16 + sqlite3HexToInt c.toNat) 0
    if u < 0x80000000 ∧ ((skipZeroes (z.drop 2)).drop digits.length).head?.any isXDigit = false then
      some u
    else none
  else if z.head?.any Char.isDigit then
    let digits := ((skipZeroes z).takeWhile Char.isDigit).take 11
    if 10 < digits.length ∨ 2147483647 < decimal digits then none else some (decimal digits)
  else none

variable {ρ : Type}

/-- `codeInteger`; `codeReal` gives the value of a text, negated or not.  A hexadecimal number that
is too large is an error. -/
def codeInteger (codeReal : Bool → Text → ρ) (negFlag : Bool) (z : Text) : Option (Mem ρ) :=
  match sqlite3GetInt32 z with
  | some i => some (.int (if negFlag then -i else i))
  | none =>
    let (value, c) := sqlite3DecOrHexToI64 z
    if (c = 3 ∧ negFlag = false) ∨ c = 2 ∨ (negFlag = true ∧ value = smallestInt64) then
      if hexPrefix z then none else some (.real (codeReal negFlag z))
    else some (.int (if negFlag then if c = 3 then smallestInt64 else -value else value))

/-- `sqlite3ExprCodeTarget` of a literal. -/
def literalValue (codeReal : Bool → Text → ρ) : List SqlToken → Option (Mem ρ)
  | [⟨.keyword "NULL", _⟩] => some .null
  | [⟨.integer, z⟩] => codeInteger codeReal false z
  | [⟨.minus, _⟩, ⟨.integer, z⟩] => codeInteger codeReal true z
  | [⟨.float, z⟩] => some (.real (codeReal false z))
  | [⟨.minus, _⟩, ⟨.float, z⟩] => some (.real (codeReal true z))
  | [⟨.string, z⟩] => some (.str (sqlite3Dequote z))
  | [⟨.blob, z⟩] => some (.blob (sqlite3HexToBlob (z.drop 2).dropLast))
  | _ => none

/-! ## The decimal digits -/

theorem decimal_foldl (z : Text) (v : ℕ) :
    z.foldl (fun v c => v * 10 + (c.toNat - '0'.toNat)) v = v * 10 ^ z.length + decimal z := by
  induction z generalizing v with
  | nil => simp [decimal]
  | cons c z ih =>
      rw [decimal, List.foldl_cons, List.foldl_cons, ih, ih (0 * 10 + _), List.length_cons,
        Nat.pow_succ, Nat.zero_mul, Nat.zero_add, Nat.add_mul, Nat.add_assoc, Nat.mul_assoc,
        Nat.mul_comm 10]

theorem decimal_cons (c : Char) (z : Text) :
    decimal (c :: z) = (c.toNat - '0'.toNat) * 10 ^ z.length + decimal z := by
  rw [decimal, List.foldl_cons, decimal_foldl, Nat.zero_mul, Nat.zero_add]

theorem decimal_concat (z : Text) (c : Char) :
    decimal (z ++ [c]) = decimal z * 10 + (c.toNat - '0'.toNat) := by
  rw [decimal, List.foldl_append]
  rfl

theorem digit_le {c : Char} (h : c.isDigit = true) : c.toNat - '0'.toNat ≤ 9 := by
  have hle : c.toNat ≤ '9'.toNat := (Char.isDigit_iff_toNat.1 h).2
  exact Nat.sub_le_sub_right hle '0'.toNat

theorem decimal_lt {z : Text} (h : ∀ c ∈ z, c.isDigit = true) : decimal z < 10 ^ z.length := by
  induction z with
  | nil => exact Nat.one_pos
  | cons c z ih =>
      obtain ⟨hc, hz⟩ := List.forall_mem_cons.1 h
      have hfirst := Nat.mul_le_mul_right (10 ^ z.length) (digit_le hc)
      have hrest := ih hz
      rw [decimal_cons, List.length_cons, Nat.pow_succ]
      omega

theorem decimal_skipZeroes (z : Text) : decimal (skipZeroes z) = decimal z := by
  induction z with
  | nil => rfl
  | cons c z ih =>
      by_cases hc : c = '0'
      · rw [skipZeroes, List.dropWhile_cons_of_pos (by rw [hc]; rfl), decimal_cons, hc,
          Nat.sub_self, Nat.zero_mul, Nat.zero_add]
        exact ih
      · rw [skipZeroes, List.dropWhile_cons_of_neg (by simpa using hc)]

/-- A number with a digit in front that is no zero has at least this value. -/
theorem le_decimal {c : Char} {z : Text} (hc : c.isDigit = true) (hne : c ≠ '0') :
    10 ^ z.length ≤ decimal (c :: z) := by
  have hpos : 1 ≤ c.toNat - '0'.toNat := by
    have hle : '0'.toNat ≤ c.toNat := (Char.isDigit_iff_toNat.1 hc).1
    have hlt : '0'.toNat ≠ c.toNat := fun h => hne (Char.toNat_inj.1 h).symm
    omega
  rw [decimal_cons]
  exact Nat.le_trans (Nat.le_mul_of_pos_left _ hpos) (Nat.le_add_right _ _)

theorem isDigit_skipZeroes {z : Text} (hz : ∀ c ∈ z, c.isDigit = true) :
    ∀ c ∈ skipZeroes z, c.isDigit = true :=
  fun c hc => hz c ((List.dropWhile_sublist _).mem hc)

/-- A number with so many digits behind its zeros is no less. -/
theorem le_decimal_of_length {z : Text} (hz : ∀ c ∈ z, c.isDigit = true) {n : ℕ}
    (h : n < (skipZeroes z).length) : 10 ^ n ≤ decimal z := by
  have hdigits := isDigit_skipZeroes hz
  have hhalts : Halts (· == '0') (skipZeroes z) := halts_dropWhile _ z
  rw [← decimal_skipZeroes]
  cases hskip : skipZeroes z with
  | nil => exact absurd h (by simp [hskip])
  | cons c t =>
      rw [hskip] at hdigits hhalts h
      have hne : c ≠ '0' := by simpa using hhalts c rfl
      exact Nat.le_trans (Nat.pow_le_pow_right (by decide) (Nat.le_of_lt_succ h))
        (le_decimal (hdigits c List.mem_cons_self) hne)

theorem foldl_mod (z : Text) (v : ℕ) :
    z.foldl (fun u c => (u * 10 + (c.toNat - '0'.toNat)) % 2 ^ 64) (v % 2 ^ 64) =
      z.foldl (fun u c => u * 10 + (c.toNat - '0'.toNat)) v % 2 ^ 64 := by
  induction z generalizing v with
  | nil => rfl
  | cons c z ih =>
      rw [List.foldl_cons, List.foldl_cons, ← ih]
      congr 1
      omega

/-- The first digit that differs decides. -/
theorem compareDigits_spec {z w : Text} (hlength : z.length = w.length)
    (hz : ∀ c ∈ z, c.isDigit = true) (hw : ∀ c ∈ w, c.isDigit = true) :
    (compareDigits z w < 0 ∧ decimal z < decimal w) ∨ (compareDigits z w = 0 ∧ z = w) ∨
      (0 < compareDigits z w ∧ decimal w < decimal z) := by
  induction z generalizing w with
  | nil =>
      obtain rfl := List.length_eq_zero_iff.1 hlength.symm
      exact .inr (.inl ⟨rfl, rfl⟩)
  | cons a z ih =>
      cases w with
      | nil => exact absurd hlength (Nat.succ_ne_zero _)
      | cons b w =>
          obtain ⟨ha, hz⟩ := List.forall_mem_cons.1 hz
          obtain ⟨hb, hw⟩ := List.forall_mem_cons.1 hw
          have hlength : z.length = w.length := Nat.succ.inj hlength
          rw [compareDigits, decimal_cons, decimal_cons, hlength]
          by_cases hab : a = b
          · rw [if_pos hab, hab]
            rcases ih hlength hz hw with ⟨hc, hlt⟩ | ⟨hc, rfl⟩ | ⟨hc, hlt⟩
            · exact .inl ⟨hc, Nat.add_lt_add_left hlt _⟩
            · exact .inr (.inl ⟨hc, rfl⟩)
            · exact .inr (.inr ⟨hc, Nat.add_lt_add_left hlt _⟩)
          · have hzlt := decimal_lt hz
            have hwlt := decimal_lt hw
            have hale : '0'.toNat ≤ a.toNat := (Char.isDigit_iff_toNat.1 ha).1
            have hble : '0'.toNat ≤ b.toNat := (Char.isDigit_iff_toNat.1 hb).1
            have hne : a.toNat ≠ b.toNat := fun h => hab (Char.toNat_inj.1 h)
            rw [hlength] at hzlt
            rw [if_neg hab]
            rcases Nat.lt_or_gt_of_ne hne with hlt | hlt
            · have hstep := Nat.mul_le_mul_right (10 ^ w.length)
                (show a.toNat - '0'.toNat + 1 ≤ b.toNat - '0'.toNat by omega)
              rw [Nat.add_mul, Nat.one_mul] at hstep
              exact .inl ⟨by omega, by omega⟩
            · have hstep := Nat.mul_le_mul_right (10 ^ w.length)
                (show b.toNat - '0'.toNat + 1 ≤ a.toNat - '0'.toNat by omega)
              rw [Nat.add_mul, Nat.one_mul] at hstep
              exact .inr (.inr ⟨by omega, by omega⟩)

/-- `compare2pow63` compares. -/
theorem compare2pow63_spec {z : Text} (hz : ∀ c ∈ z, c.isDigit = true) (hlength : z.length = 19) :
    (compare2pow63 z < 0 ∧ decimal z < 2 ^ 63) ∨ (compare2pow63 z = 0 ∧ decimal z = 2 ^ 63) ∨
      (0 < compare2pow63 z ∧ 2 ^ 63 < decimal z) := by
  obtain ⟨d, hd⟩ : ∃ d, z.drop 18 = [d] := List.length_eq_one_iff.1 (by simp [hlength])
  have hsplit : z = z.take 18 ++ [d] := by rw [← hd, List.take_append_drop]
  have hlast : z.getD 18 '\x00' = d := by
    have hhead : z[18]? = some d := by rw [← List.head?_drop, hd]; rfl
    rw [List.getD_eq_getElem?_getD, hhead]
    rfl
  have hdigit : d.isDigit = true := hz d (hsplit ▸ List.mem_append_right _ List.mem_cons_self)
  have hdle := digit_le hdigit
  have hdge : '0'.toNat ≤ d.toNat := (Char.isDigit_iff_toNat.1 hdigit).1
  have hvalue : decimal z = decimal (z.take 18) * 10 + (d.toNat - '0'.toNat) := by
    conv_lhs => rw [hsplit]
    exact decimal_concat _ d
  have hpow : decimal pow63 = 922337203685477580 := by decide +kernel
  have htake : (z.take 18).length = pow63.length := by
    rw [List.length_take, hlength]
    rfl
  have hcompare := compareDigits_spec htake (fun c hc => hz c (List.mem_of_mem_take hc))
    (List.all_eq_true.1 (by rfl))
  have height : '8'.toNat = '0'.toNat + 8 := rfl
  rw [hpow] at hcompare
  rw [compare2pow63, hlast, hvalue]
  rcases hcompare with ⟨hc, hlt⟩ | ⟨hc, heq⟩ | ⟨hc, hlt⟩
  · rw [if_neg (Int.ne_of_lt hc)]
    exact .inl ⟨hc, by omega⟩
  · rw [if_pos hc, heq, hpow]
    omega
  · rw [if_neg (Int.ne_of_gt hc)]
    exact .inr (.inr ⟨hc, by omega⟩)

/-! ## Reading a number -/

theorem isSpace_of_isDigit {c : Char} (h : c.isDigit = true) : isSpace c = false :=
  forall_char (fun c => c.isDigit = true → isSpace c = false) (by decide +kernel)
    (fun _ hle h => absurd (toNat_lt_of_isDigit h) (Nat.not_lt.2 hle)) c h

theorem takeWhile_skipZeroes {z : Text} (hz : ∀ c ∈ z, c.isDigit = true) :
    (skipZeroes z).takeWhile Char.isDigit = skipZeroes z :=
  List.takeWhile_eq_self_iff.2 (isDigit_skipZeroes hz)

theorem hexPrefix_digits {z : Text} (hz : ∀ c ∈ z, c.isDigit = true) : hexPrefix z = false := by
  rcases z with _ | ⟨a, _ | ⟨b, z⟩⟩
  · rfl
  · exact Bool.and_false _
  · have hb : b.isDigit = true := hz b (by simp)
    have hx : b ≠ 'x' := by rintro rfl; exact absurd hb (by decide)
    have hX : b ≠ 'X' := by rintro rfl; exact absurd hb (by decide)
    simp [hexPrefix, hx, hX]

/-- A number is small, or read as a text. -/
theorem sqlite3GetInt32_digits {z : Text} (hne : z ≠ []) (hz : ∀ c ∈ z, c.isDigit = true) :
    sqlite3GetInt32 z = if 2147483647 < decimal z then none else some (decimal z) := by
  obtain ⟨c, t, rfl⟩ := List.exists_cons_of_ne_nil hne
  have hhead : (c :: t).head?.any Char.isDigit = true := hz c List.mem_cons_self
  rw [sqlite3GetInt32, hexPrefix_digits hz, Bool.false_and, if_neg Bool.false_ne_true, if_pos hhead,
    takeWhile_skipZeroes hz]
  dsimp only
  by_cases hlength : (skipZeroes (c :: t)).length ≤ 10
  · rw [List.take_of_length_le (Nat.le_succ_of_le hlength), decimal_skipZeroes]
    by_cases hlarge : 2147483647 < decimal (c :: t)
    · rw [if_pos (.inr hlarge), if_pos hlarge]
    · rw [if_neg (not_or.2 ⟨Nat.not_lt.2 hlength, hlarge⟩), if_neg hlarge]
  · have hle := le_decimal_of_length hz (Nat.not_le.1 hlength)
    have hlarge : 2147483647 < decimal (c :: t) := by omega
    rw [if_pos (.inl (by rw [List.length_take]; omega)), if_pos hlarge]

theorem sqlite3Atoi64_digits {z : Text} (hne : z ≠ []) (hz : ∀ c ∈ z, c.isDigit = true) :
    sqlite3Atoi64 z = atoi64Digits false z := by
  obtain ⟨c, t, rfl⟩ := List.exists_cons_of_ne_nil hne
  have hc := hz c List.mem_cons_self
  rw [sqlite3Atoi64, List.dropWhile_cons_of_neg (by rw [isSpace_of_isDigit hc]; exact
    Bool.false_ne_true)]
  split
  · rename_i heq
    obtain ⟨rfl, -⟩ := List.cons.inj heq
    exact absurd hc (by decide)
  · rename_i heq
    obtain ⟨rfl, -⟩ := List.cons.inj heq
    exact absurd hc (by decide)
  · rfl

/-- **`sqlite3Atoi64` of digits**: the value, or that it is too large; of 2 ^ 63 that it is so if
there is no sign in front of it. -/
theorem atoi64Digits_eq {z : Text} (hne : z ≠ []) (hz : ∀ c ∈ z, c.isDigit = true) (neg : Bool) :
    atoi64Digits neg z =
      if decimal z < 2 ^ 63 then (if neg then -(decimal z : ℤ) else decimal z, 0)
      else (if neg then smallestInt64 else largestInt64,
        if decimal z = 2 ^ 63 then if neg then 0 else 3 else 2) := by
  have hu : (skipZeroes z).foldl (fun u c => (u * 10 + (c.toNat - '0'.toNat)) % 2 ^ 64) 0 =
      decimal z % 2 ^ 64 := by
    have hmod := foldl_mod (skipZeroes z) 0
    rw [Nat.zero_mod] at hmod
    rw [hmod]
    change decimal (skipZeroes z) % 2 ^ 64 = _
    rw [decimal_skipZeroes]
  have hempty : ¬(skipZeroes z = [] ∧ (skipZeroes z).length = z.length) := by
    rintro ⟨hnil, hlength⟩
    rw [hnil] at hlength
    exact hne (List.length_eq_zero_iff.1 hlength.symm)
  have hlarge : largestInt64 = 2 ^ 63 - 1 := by decide
  rw [atoi64Digits, takeWhile_skipZeroes hz]
  dsimp only
  rw [hu, if_neg hempty, List.drop_length, List.any_nil, if_neg Bool.false_ne_true]
  -- the value that is read where it is not too large
  have hnum : decimal z < 2 ^ 63 → ∀ bound : ℤ,
      (if largestInt64 < decimal z % 2 ^ 64 then bound
        else if neg then -((decimal z % 2 ^ 64 : ℕ) : ℤ) else ((decimal z % 2 ^ 64 : ℕ) : ℤ)) =
      if neg then -(decimal z : ℤ) else decimal z := by
    intro hlt bound
    rw [Nat.mod_eq_of_lt (by omega), if_neg (by omega)]
  by_cases hshort : (skipZeroes z).length < 19
  · have hlt : decimal z < 2 ^ 63 := by
      have hlt := decimal_lt (isDigit_skipZeroes hz)
      have hpow := Nat.pow_le_pow_right (show 0 < 10 by decide)
        (show (skipZeroes z).length ≤ 18 by omega)
      rw [decimal_skipZeroes] at hlt
      omega
    rw [if_pos hshort, hnum hlt, if_pos hlt]
  rw [if_neg hshort]
  by_cases hlong : 19 < (skipZeroes z).length
  · have hle := le_decimal_of_length hz hlong
    have hgt : 2 ^ 63 < decimal z := by omega
    rw [if_pos hlong, if_neg (by decide), if_pos (by decide), if_neg (Nat.not_lt.2 hgt.le),
      if_neg (Nat.ne_of_gt hgt)]
  rw [if_neg hlong]
  have hcompare := compare2pow63_spec (isDigit_skipZeroes hz) (by omega)
  rw [decimal_skipZeroes] at hcompare
  rcases hcompare with ⟨hc, hlt⟩ | ⟨hc, heq⟩ | ⟨hc, hgt⟩
  · rw [if_pos hc, hnum hlt, if_pos hlt]
  · rw [hc, if_neg (Int.lt_irrefl 0), if_neg (Int.lt_irrefl 0), heq, if_neg (Nat.lt_irrefl _),
      if_pos rfl]
  · rw [if_neg (Int.not_lt.2 hc.le), if_pos hc, if_neg (Nat.not_lt.2 hgt.le),
      if_neg (Nat.ne_of_gt hgt)]

/-- **`codeInteger` of digits**: their value, from the smallest number to the largest one. -/
theorem codeInteger_digits (codeReal : Bool → Text → ρ) {z : Text} (hne : z ≠ [])
    (hz : ∀ c ∈ z, c.isDigit = true) {negFlag : Bool}
    (h : decimal z < 2 ^ 63 ∨ (decimal z = 2 ^ 63 ∧ negFlag = true)) :
    codeInteger codeReal negFlag z =
      some (.int (if negFlag then -(decimal z : ℤ) else decimal z)) := by
  have hlarge : largestInt64 = 2 ^ 63 - 1 := by decide
  have hsmall : smallestInt64 = -2 ^ 63 := by decide
  rw [codeInteger, sqlite3GetInt32_digits hne hz]
  by_cases hfits : 2147483647 < decimal z
  · rw [if_pos hfits]
    dsimp only
    rw [sqlite3DecOrHexToI64, hexPrefix_digits hz, if_neg Bool.false_ne_true,
      sqlite3Atoi64_digits hne hz, atoi64Digits_eq hne hz]
    simp only [Bool.false_eq_true, if_false]
    rcases h with hlt | ⟨heq, rfl⟩
    · rw [if_pos hlt]
      dsimp only
      rw [if_neg (by omega), if_neg (show ¬(0 = 3) by decide)]
    · rw [if_neg (Nat.not_lt.2 (Nat.le_of_eq heq.symm)), if_pos heq]
      dsimp only
      rw [if_neg (by rw [hlarge, hsmall]; decide), if_pos rfl, if_pos rfl, if_pos rfl, heq, hsmall]
      rfl
  · rw [if_neg hfits]

/-! ## The recorded literals -/

theorem decimal_toDigits (n : ℕ) : decimal (Nat.toDigits 10 n) = n := by
  have hfold : decimal (Nat.toDigits 10 n) = Nat.ofDigitChars 10 (Nat.toDigits 10 n) 0 := by
    simp [decimal, Nat.ofDigitChars, Nat.mul_comm]
  rw [hfold]
  exact Nat.ofDigitChars_toDigits (by decide) (by decide)

theorem literalValue_int (formatReal : ρ → Text) (codeReal : Bool → Text → ρ) {i : ℤ}
    (h : -2 ^ 63 ≤ i ∧ i < 2 ^ 63) :
    literalValue codeReal (literalTokens formatReal (.int i)) = some (.int i) := by
  have hne : Nat.toDigits 10 i.natAbs ≠ [] := Nat.toDigits_ne_nil
  have hz : ∀ c ∈ Nat.toDigits 10 i.natAbs, c.isDigit = true :=
    fun c hc => Nat.isDigit_of_mem_toDigits (by decide) (by decide) hc
  have hvalue := decimal_toDigits i.natAbs
  rw [literalTokens, signedTokens, int64Text]
  by_cases hneg : i < 0
  · rw [if_pos hneg, if_pos (by rfl)]
    change codeInteger codeReal true (Nat.toDigits 10 i.natAbs) = _
    have hle : decimal (Nat.toDigits 10 i.natAbs) ≤ 2 ^ 63 := by
      rw [hvalue]
      omega
    have hbound := (Nat.lt_or_eq_of_le hle).imp_right fun heq => And.intro heq (Eq.refl true)
    rw [codeInteger_digits codeReal hne hz hbound, if_pos rfl, hvalue]
    exact congrArg (fun i => some (Mem.int i)) (by omega)
  · have hhead : (Nat.toDigits 10 i.natAbs).head? ≠ some '-' := fun hminus =>
      absurd (hz '-' (List.mem_of_mem_head? hminus)) (by decide)
    rw [if_neg hneg, if_neg hhead]
    change codeInteger codeReal false (Nat.toDigits 10 i.natAbs) = _
    have hlt : decimal (Nat.toDigits 10 i.natAbs) < 2 ^ 63 := by
      rw [hvalue]
      omega
    rw [codeInteger_digits codeReal hne hz (.inl hlt), if_neg Bool.false_ne_true, hvalue]
    exact congrArg (fun i => some (Mem.int i)) (by omega)

theorem dequoteLoop_escape (z : Text) :
    dequoteLoop '\'' ((z.flatMap fun c => if c = '\'' then ['\'', '\''] else [c]) ++ ['\'']) =
      z := by
  induction z with
  | nil => rfl
  | cons c z ih =>
      rw [List.flatMap_cons, List.append_assoc]
      generalize hrest : (z.flatMap fun c => if c = '\'' then ['\'', '\''] else [c]) ++ ['\''] =
        rest at ih
      split_ifs with hc
      · rw [hc, List.cons_append, List.singleton_append, dequoteLoop, if_pos rfl, if_pos rfl, ih]
      · have hne : rest ≠ [] := hrest ▸ List.append_ne_nil_of_right_ne_nil _ (List.cons_ne_nil _ _)
        obtain ⟨c', rest, rfl⟩ := List.exists_cons_of_ne_nil hne
        rw [List.singleton_append, dequoteLoop, if_neg hc, ih]

/-- The text up to its terminator. -/
theorem literalValue_str (formatReal : ρ → Text) (codeReal : Bool → Text → ρ) (z : Text) :
    literalValue codeReal (literalTokens formatReal (.str z)) =
      some (.str (z.takeWhile (· != '\x00'))) :=
  congrArg (fun z => some (Mem.str z)) (dequoteLoop_escape _)

theorem sqlite3HexToBlob_toHex (z : Bytes) : sqlite3HexToBlob (toHex z) = z := by
  induction z with
  | nil => rfl
  | cons c z ih =>
      have hread := fromHex_toHex (c :: z)
      change _ :: fromHex (toHex z) = c :: z at hread
      change _ :: sqlite3HexToBlob (toHex z) = c :: z
      rw [ih]
      exact congrArg (· :: z) (List.cons.inj hread).1

/-- What is recorded of the value determines it. -/
def Kept (formatReal : ρ → Text) (codeReal : Bool → Text → ρ) : Mem ρ → Prop
  | .null => True
  | .int i => -2 ^ 63 ≤ i ∧ i < 2 ^ 63
  | .real r => (∀ z, formatReal r = '-' :: z → codeReal true z = r) ∧
    ((formatReal r).head? ≠ some '-' → codeReal false (formatReal r) = r)
  | .str z => '\x00' ∉ z
  | .zero _ => False
  | .blob _ => True

/-- **A literal has the value it was written for.** -/
theorem literalValue_tokens {formatReal : ρ → Text} {codeReal : Bool → Text → ρ} {v : Mem ρ}
    (h : Kept formatReal codeReal v) :
    literalValue codeReal (literalTokens formatReal v) = some v := by
  cases v with
  | null => rfl
  | int i => exact literalValue_int formatReal codeReal h
  | real r =>
      obtain ⟨hneg, hpos⟩ := h
      rw [literalTokens, signedTokens]
      split_ifs with hminus
      · obtain ⟨z, hz⟩ := List.head?_eq_some_iff.1 hminus
        rw [hz]
        exact congrArg (fun r => some (Mem.real r)) (hneg z hz)
      · exact congrArg (fun r => some (Mem.real r)) (hpos hminus)
  | str z =>
      rw [literalValue_str]
      refine congrArg (fun z => some (Mem.str z)) (List.takeWhile_eq_self_iff.2 fun c hc => ?_)
      exact bne_iff_ne.2 fun heq => h (heq ▸ hc)
  | zero n => exact h.elim
  | blob z =>
      refine congrArg (fun z => some (Mem.blob z)) ?_
      change sqlite3HexToBlob (toHex z ++ ['\'']).dropLast = z
      rw [List.dropLast_concat, sqlite3HexToBlob_toHex]

theorem kept_callStatement (formatReal : ℕ → Text) (codeReal : Bool → Text → ℕ) :
    ∀ v ∈ callStatement.aVar, Kept formatReal codeReal v := by
  intro v hv
  rcases List.mem_pair.1 hv with rfl | rfl
  · exact show '\x00' ∉ "it's".toList by decide
  · exact ⟨by decide, by decide⟩

end Sql
end Core
end AergoLite
