/-
# Base 58

`common/base58.c`.  `base58_decode` multiplies an array of 32-bit integers, whose greatest is the
first, by 58 for each character; `base58_encode` multiplies an array of digits by 256 for each
byte.  Both go through their array from its end, and a list is the array in this order, from the
end on.

What `base58_decode` stores is the number of its characters (`decodeLoop_eq_some_iff`,
`horner_writtenBytes`), and what `base58_encode` writes is the number of its bytes
(`encodeLoop_spec`).
-/

import AergoLite.Core.Basic
import AergoLite.Library.MultiPrecision
import Mathlib.Tactic.SplitIfs

namespace AergoLite
namespace Core

/-- `b58digits_map`. -/
def b58digitsMap : List ℤ :=
  [-1, -1, -1, -1, -1, -1, -1, -1, -1, -1, -1, -1, -1, -1, -1, -1,
    -1, -1, -1, -1, -1, -1, -1, -1, -1, -1, -1, -1, -1, -1, -1, -1,
    -1, -1, -1, -1, -1, -1, -1, -1, -1, -1, -1, -1, -1, -1, -1, -1,
    -1, 0, 1, 2, 3, 4, 5, 6, 7, 8, -1, -1, -1, -1, -1, -1,
    -1, 9, 10, 11, 12, 13, 14, 15, 16, -1, 17, 18, 19, 20, 21, -1,
    22, 23, 24, 25, 26, 27, 28, 29, 30, 31, 32, -1, -1, -1, -1, -1,
    -1, 33, 34, 35, 36, 37, 38, 39, 40, 41, 42, 43, -1, 44, 45, 46,
    47, 48, 49, 50, 51, 52, 53, 54, 55, 56, 57, -1, -1, -1, -1, -1]

/-- The character `'1'`, which is the digit 0. -/
def b58zero : UInt8 := 49

/-- The digit of a character, if it is one: the high bit is set on an invalid one, or the map has
none for it. -/
def b58digit (c : UInt8) : Option ℕ :=
  if c &&& 0x80 ≠ 0 then none
  else if b58digitsMap.getD c.toNat (-1) = -1 then none
  else some (b58digitsMap.getD c.toNat (-1)).toNat

/-! ## Decoding -/

/-- The inner loop of `base58_decode`, with a carry. -/
def mulAdd58 : ℕ → List ℕ → List ℕ × ℕ
  | c, [] => ([], c)
  | c, outi :: rest =>
    let t := outi * 58 + c
    let r := mulAdd58 ((t &&& 0x3f00000000) >>> 32) rest
    ((t &&& 0xffffffff) :: r.1, r.2)

/-- The loop over the characters, or `none` where one is invalid or the number is too big. -/
def decodeLoop (zeromask : ℕ) : List ℕ → Bytes → Option (List ℕ)
  | outi, [] => some outi
  | outi, c :: b58 =>
    (b58digit c).bind fun digit =>
      let r := mulAdd58 digit outi
      if r.2 ≠ 0 then none
      else if r.1.getLastD 0 &&& zeromask ≠ 0 then none
      else decodeLoop zeromask r.1 b58

/-- The bytes of an integer that are stored. -/
def outBytes (outi : ℕ) : Bytes :=
  [UInt8.ofNat ((outi >>> 0x18) &&& 0xff), UInt8.ofNat ((outi >>> 0x10) &&& 0xff),
    UInt8.ofNat ((outi >>> 8) &&& 0xff), UInt8.ofNat ((outi >>> 0) &&& 0xff)]

/-- The `switch` over the number of bytes in the first integer. -/
def headBytes (bytesleft outi : ℕ) : Bytes :=
  let byte1 := UInt8.ofNat (outi &&& 0xff)
  let byte2 := UInt8.ofNat ((outi &&& 0xff00) >>> 8)
  let byte3 := UInt8.ofNat ((outi &&& 0xff0000) >>> 16)
  match bytesleft with
  | 3 => [byte3, byte2, byte1]
  | 2 => [byte2, byte1]
  | 1 => [byte1]
  | _ => []

/-- What is stored at `binu`, in the order in which it is, of the integers from the first on. -/
def writtenBytes (bytesleft : ℕ) (outi : List ℕ) : Bytes :=
  headBytes bytesleft (outi.headD 0) ++
    (if bytesleft = 0 then outi else outi.drop 1).flatMap outBytes

/-- What `base58_decode` returns, what it stores at `bin`, from its begin on, and `*binszp`. -/
structure Base58Decoded where
  retval : Bool
  bin : Bytes
  binszp : ℕ
  deriving DecidableEq, Repr

/-- `base58_decode` of the characters in memory. -/
def base58Decode (b58 : Bytes) (b58sz binsz : ℕ) : Base58Decoded :=
  let outisz := (binsz + 3) / 4
  let bytesleft := binsz % 4
  let zeromask := if bytesleft ≠ 0 then (0xffffffff <<< (bytesleft * 8)) % 2 ^ 32 else 0
  let b58 := if b58sz = 0 then b58.takeWhile (· ≠ 0) else b58.take b58sz
  let zerocount := (b58.takeWhile (· = b58zero)).length
  match decodeLoop zeromask (List.replicate outisz 0) (b58.drop zerocount) with
  | none => ⟨false, [], binsz⟩
  | some outi =>
    let bin := writtenBytes bytesleft outi.reverse
    ⟨true, bin, binsz - ((bin.take binsz).takeWhile (· = 0)).length + zerocount⟩

/-! ## The checksum -/

/-- `double_sha256`, unless there is no data. -/
def doubleSha256 (sha256 : Bytes → Vector UInt8 32) (data : Bytes) : Option Bytes :=
  if data.length = 0 then none else some (sha256 (sha256 data).toList).toList

/-- The loop of `base58_check`: the byte and the character after the zeros, unless the memory ends
before. -/
def skipZeros : Bytes → Bytes → Option (UInt8 × UInt8)
  | b :: bin, c :: base58str => if b = 0 ∧ c = b58zero then skipZeros bin base58str else some (b, c)
  | _, _ => none

/-- `base58_check`, of what is in memory.  The result is `none` where memory is read that is not
there. -/
def base58Check (sha256 : Bytes → Vector UInt8 32) (base58str bin : Bytes) (binsz : ℕ) :
    Option ℤ :=
  if binsz < 4 then some (-4)
  else if bin.length < binsz - 4 then none
  else match doubleSha256 sha256 (bin.take (binsz - 4)) with
    | none => some (-2)
    | some buf =>
      if bin.length < binsz then none
      else if (bin.drop (binsz - 4)).take 4 ≠ buf.take 4 then some (-1)
      else (skipZeros bin base58str).map fun (b, c) =>
        if b = 0 ∨ c = b58zero then -3 else ((bin.headD 0).toNat : ℤ)

/-! ## Encoding -/

/-- `b58digits_ordered`. -/
def b58digitsOrdered : Bytes :=
  "123456789ABCDEFGHJKLMNPQRSTUVWXYZabcdefghijkmnopqrstuvwxyz".toList.map fun c =>
    UInt8.ofNat c.toNat

/-- The inner loop of `base58_encode`, where so many digits are in use: the digits, and how many
the loop has gone through.  The result is `none` where it leaves the array. -/
def addByte : ℕ → ℕ → List ℕ → Option (List ℕ × ℕ)
  | _, _, [] => none
  | used, carry, d :: buf =>
    if used = 0 ∧ carry = 0 then some (d :: buf, 0)
    else
      let carry := carry + 256 * d
      (addByte (used - 1) (carry / 58) buf).map fun r => (carry % 58 :: r.1, r.2 + 1)

/-- The loop over the bytes. -/
def encodeLoop : ℕ → List ℕ → Bytes → Option (List ℕ)
  | _, buf, [] => some buf
  | used, buf, b :: bin =>
    (addByte used b.toNat buf).bind fun r => encodeLoop r.2 r.1 bin

/-- `base58_encode`: the string it writes, unless there is no place for it, and it is `none` where
the array is left.  `*b58sz` is one more than its length. -/
def base58Encode (data : Bytes) (b58sz : ℕ) : Option (Option Bytes) :=
  let zcount := (data.takeWhile (· = 0)).length
  let size := (data.length - zcount) * 138 / 100 + 1
  (encodeLoop 0 (List.replicate size 0) (data.drop zcount)).map fun buf =>
    let digits := buf.reverse.dropWhile (· = 0)
    if b58sz ≤ zcount + digits.length then none
    else some (List.replicate zcount b58zero ++ digits.map (b58digitsOrdered.getD · 0))

/-- `base58check_encode`. -/
def base58checkEncode (sha256 : Bytes → Vector UInt8 32) (data : Bytes) (ver : UInt8)
    (b58csz : ℕ) : Option (Option Bytes) :=
  let buf := ver :: data
  match doubleSha256 sha256 buf with
  | none => some none
  | some hash => base58Encode (buf ++ hash.take 4) b58csz

/-! ## Digits -/

open MultiPrecision
open Nat (ofDigits)

theorem forall_byte {p : UInt8 → Prop} (h : ∀ n < 256, p (UInt8.ofNat n)) (c : UInt8) : p c := by
  have hc := h c.toNat (UInt8.toNat_lt c)
  rwa [UInt8.ofNat_toNat] at hc

/-- The map has the digits of the alphabet. -/
theorem b58digitsOrdered_of_b58digit {c : UInt8} {d : ℕ} (h : b58digit c = some d) :
    d < 58 ∧ b58digitsOrdered.getD d 0 = c := by
  have hall : ∀ n < 256, ∀ d ∈ b58digit (UInt8.ofNat n),
      d < 58 ∧ b58digitsOrdered.getD d 0 = UInt8.ofNat n := by decide +kernel
  exact forall_byte (p := fun c => ∀ d ∈ b58digit c, d < 58 ∧ b58digitsOrdered.getD d 0 = c) hall c
    d h

theorem b58digit_b58digitsOrdered {d : ℕ} (h : d < 58) :
    b58digit (b58digitsOrdered.getD d 0) = some d := by
  have hall : ∀ d < 58, b58digit (b58digitsOrdered.getD d 0) = some d := by decide +kernel
  exact hall d h

theorem b58digit_b58zero : b58digit b58zero = some 0 := by decide +kernel

/-! ## The integers -/

theorem and_low (t : ℕ) : t &&& 0xffffffff = t % 2 ^ 32 := Nat.and_two_pow_sub_one_eq_mod t 32

theorem and_carry {t : ℕ} (h : t < 2 ^ 38) : (t &&& 0x3f00000000) >>> 32 = t / 2 ^ 32 := by
  rw [Nat.shiftRight_and_distrib, Nat.shiftRight_eq_div_pow]
  have hmask : 0x3f00000000 >>> 32 = 2 ^ 6 - 1 := by decide
  rw [hmask, Nat.and_two_pow_sub_one_eq_mod]
  omega

/-- The inner loop has all of the carry. -/
theorem mulAdd58_eq {outi : List ℕ} (houti : ∀ x ∈ outi, x < 2 ^ 32) {c : ℕ} (hc : c < 58) :
    mulAdd58 c outi = mulAdd (2 ^ 32) 58 c outi := by
  induction outi generalizing c with
  | nil => rfl
  | cons x outi ih =>
    have hx := houti x List.mem_cons_self
    have hrest := ih (fun y hy => houti y (List.mem_cons_of_mem _ hy)) (carry_lt hx hc)
    simp only [mulAdd58, mulAdd, and_low, and_carry (t := x * 58 + c) (by omega), hrest]

/-- The mask is for what the first integer must not have. -/
theorem and_zeromask_eq_zero_iff {x : ℕ} (hx : x < 2 ^ 32) : x &&& 0xffff0000 = 0 ↔ x < 2 ^ 16 := by
  have hmask : 0xffff0000 = (2 ^ 16 - 1) <<< 16 := by decide
  have hhigh : (x &&& 0xffff0000) >>> 16 = x / 2 ^ 16 := by
    rw [Nat.shiftRight_and_distrib, Nat.shiftRight_eq_div_pow, hmask, Nat.shiftLeft_shiftRight,
      Nat.and_two_pow_sub_one_eq_mod]
    omega
  constructor
  · intro hzero
    rw [hzero, Nat.zero_shiftRight] at hhigh
    omega
  · intro hlt
    refine Nat.eq_of_testBit_eq fun i => ?_
    rw [hmask, Nat.testBit_and, Nat.testBit_shiftLeft, Nat.zero_testBit]
    by_cases hi : 16 ≤ i
    · have := Nat.pow_le_pow_right (n := 2) (by omega) hi
      rw [Nat.testBit_lt_two_pow (by omega), Bool.false_and]
    · simp [hi]

/-- The integers of a number of 38 bytes. -/
structure Limbs (outi : List ℕ) : Prop where
  length : outi.length = 10
  lt : ∀ x ∈ outi, x < 2 ^ 32

theorem limbs_zero : Limbs (List.replicate 10 0) :=
  ⟨List.length_replicate, fun x hx => by rw [List.eq_of_mem_replicate hx]; decide⟩

/-- The first integer has two bytes of the 38. -/
theorem Limbs.lt_iff {outi : List ℕ} (h : Limbs outi) :
    ofDigits (2 ^ 32) outi < 256 ^ 38 ↔ outi.getLastD 0 &&& 0xffff0000 = 0 := by
  have hne : outi ≠ [] := fun hnil => absurd h.length (by simp [hnil])
  obtain ⟨low, top, rfl⟩ := (List.eq_nil_or_concat outi).resolve_left hne
  have hlow := Nat.ofDigits_lt_base_pow_length (b := 2 ^ 32) (l := low) (by decide) fun x hx =>
    h.lt x (by simp [hx])
  have htop := h.lt top (by simp)
  have hlength : low.length = 9 := by simpa using h.length
  rw [List.concat_eq_append, Nat.ofDigits_append, Nat.ofDigits_singleton, List.getLastD_concat,
    and_zeromask_eq_zero_iff htop]
  rw [hlength] at hlow ⊢
  omega

theorem Limbs.mulAdd58 {outi : List ℕ} (h : Limbs outi) {c : ℕ} (hc : c < 58) :
    Limbs (mulAdd58 c outi).1 := by
  rw [mulAdd58_eq h.lt hc]
  exact ⟨by rw [length_mulAdd, h.length], mulAdd_lt (by decide) _ _ _⟩

/-- The number is not too big for its bytes. -/
theorem Limbs.fits_iff {outi : List ℕ} (h : Limbs outi) {c : ℕ} (hc : c < 58) :
    ((Core.mulAdd58 c outi).2 = 0 ∧ (Core.mulAdd58 c outi).1.getLastD 0 &&& 0xffff0000 = 0)
      ↔ 58 * ofDigits (2 ^ 32) outi + c < 256 ^ 38 := by
  have hcarry := mulAdd_carry_eq_zero_iff (by decide : 1 < 2 ^ 32) 58 c outi
  rw [← (h.mulAdd58 hc).lt_iff, mulAdd58_eq h.lt hc, hcarry, h.length]
  constructor
  · rintro ⟨hfit, hlt⟩
    rwa [ofDigits_mulAdd_of_lt (by decide) (by rw [h.length]; exact hfit)] at hlt
  · intro hlt
    have hfit : 58 * ofDigits (2 ^ 32) outi + c < (2 ^ 32) ^ 10 := by omega
    exact ⟨hfit, by rwa [ofDigits_mulAdd_of_lt (by decide) (by rw [h.length]; exact hfit)]⟩

theorem Limbs.ofDigits_mulAdd58 {outi : List ℕ} (h : Limbs outi) {c : ℕ} (hc : c < 58)
    (hlt : 58 * ofDigits (2 ^ 32) outi + c < 256 ^ 38) :
    ofDigits (2 ^ 32) (Core.mulAdd58 c outi).1 = 58 * ofDigits (2 ^ 32) outi + c := by
  rw [mulAdd58_eq h.lt hc]
  refine ofDigits_mulAdd_of_lt (by decide) ?_
  rw [h.length]
  omega

/-- **The loop reads the number of the characters**, where all of them are digits and it is not
too big. -/
theorem decodeLoop_eq_some {outi outi' : List ℕ} {b58 : Bytes} (h : Limbs outi)
    (hlt : ofDigits (2 ^ 32) outi < 256 ^ 38)
    (hloop : decodeLoop 0xffff0000 outi b58 = some outi') :
    ∃ digits, b58.mapM b58digit = some digits ∧ Limbs outi' ∧
      ofDigits (2 ^ 32) outi' = horner 58 (ofDigits (2 ^ 32) outi) digits ∧
      ofDigits (2 ^ 32) outi' < 256 ^ 38 := by
  induction b58 generalizing outi with
  | nil =>
    obtain rfl := Option.some.inj hloop
    exact ⟨[], rfl, h, rfl, hlt⟩
  | cons c b58 ih =>
    obtain ⟨digit, hdigit, hloop⟩ := Option.bind_eq_some_iff.1 hloop
    have hdigit58 := (b58digitsOrdered_of_b58digit hdigit).1
    dsimp only at hloop
    split_ifs at hloop with hcarry hmask
    have hfit := (h.fits_iff hdigit58).1 ⟨not_not.1 hcarry, not_not.1 hmask⟩
    have hvalue := h.ofDigits_mulAdd58 hdigit58 hfit
    obtain ⟨digits, hdigits, hlimbs, hhorner, hlt'⟩ :=
      ih (h.mulAdd58 hdigit58) (by rw [hvalue]; exact hfit) hloop
    refine ⟨digit :: digits, ?_, hlimbs, ?_, hlt'⟩
    · rw [List.mapM_cons, hdigit, hdigits]
      rfl
    · rw [hhorner, hvalue, horner_cons]

theorem exists_decodeLoop {outi digits : List ℕ} {b58 : Bytes} (h : Limbs outi)
    (hdigits : b58.mapM b58digit = some digits)
    (hlt : horner 58 (ofDigits (2 ^ 32) outi) digits < 256 ^ 38) :
    ∃ outi', decodeLoop 0xffff0000 outi b58 = some outi' := by
  induction b58 generalizing outi digits with
  | nil => exact ⟨outi, rfl⟩
  | cons c b58 ih =>
    rw [List.mapM_cons] at hdigits
    obtain ⟨digit, hdigit, hdigits⟩ := Option.bind_eq_some_iff.1 hdigits
    obtain ⟨rest, hrest, hdigits⟩ := Option.bind_eq_some_iff.1 hdigits
    obtain rfl := Option.some.inj hdigits
    have hdigit58 := (b58digitsOrdered_of_b58digit hdigit).1
    rw [horner_cons] at hlt
    have hfit := Nat.lt_of_le_of_lt (le_horner (by decide) _ rest) hlt
    obtain ⟨hcarry, hmask⟩ := (h.fits_iff hdigit58).2 hfit
    have hvalue := h.ofDigits_mulAdd58 hdigit58 hfit
    obtain ⟨outi', hloop⟩ := ih (h.mulAdd58 hdigit58) hrest (by rw [hvalue]; exact hlt)
    refine ⟨outi', ?_⟩
    rw [decodeLoop, hdigit, Option.bind_some]
    dsimp only
    rw [if_neg (not_not.2 hcarry), if_neg (not_not.2 hmask), hloop]

/-! ## The bytes -/

theorem toNat_outBytes {x : ℕ} (hx : x < 2 ^ 32) (v : ℕ) :
    horner 256 v ((outBytes x).map UInt8.toNat) = 2 ^ 32 * v + x := by
  have hbyte : ∀ n, n &&& 0xff = n % 2 ^ 8 := fun n => Nat.and_two_pow_sub_one_eq_mod n 8
  simp only [outBytes, List.map_cons, List.map_nil, horner_cons, horner_nil, hbyte,
    Nat.shiftRight_eq_div_pow, UInt8.toNat_ofNat']
  omega

theorem horner_outBytes {outi : List ℕ} (houti : ∀ x ∈ outi, x < 2 ^ 32) (v : ℕ) :
    horner 256 v ((outi.flatMap outBytes).map UInt8.toNat) = horner (2 ^ 32) v outi := by
  induction outi generalizing v with
  | nil => rfl
  | cons x outi ih =>
    rw [List.flatMap_cons, List.map_append, horner_append,
      toNat_outBytes (houti x List.mem_cons_self), horner_cons,
      ih fun y hy => houti y (List.mem_cons_of_mem _ hy)]

theorem length_outBytes (outi : List ℕ) : (outi.flatMap outBytes).length = 4 * outi.length := by
  induction outi with
  | nil => rfl
  | cons x outi ih =>
    have hx : (outBytes x).length = 4 := rfl
    rw [List.flatMap_cons, List.length_append, ih, hx, List.length_cons]
    omega

theorem horner_headBytes {x : ℕ} (hx : x < 2 ^ 16) :
    horner 256 0 ((headBytes 2 x).map UInt8.toNat) = x := by
  have hlow : x &&& 0xff = x % 2 ^ 8 := Nat.and_two_pow_sub_one_eq_mod x 8
  have hhigh : (x &&& 0xff00) >>> 8 = x / 2 ^ 8 % 2 ^ 8 := by
    rw [Nat.shiftRight_and_distrib, Nat.shiftRight_eq_div_pow,
      ← Nat.and_two_pow_sub_one_eq_mod (x / 2 ^ 8) 8]
    rfl
  simp only [headBytes, List.map_cons, List.map_nil, horner_cons, horner_nil, hlow, hhigh,
    UInt8.toNat_ofNat']
  omega

/-- **The buffer is filled, and not left.** -/
theorem Limbs.length_writtenBytes {outi : List ℕ} (h : Limbs outi) :
    (writtenBytes 2 outi.reverse).length = 38 := by
  have hhead : (headBytes 2 (outi.reverse.headD 0)).length = 2 := rfl
  unfold writtenBytes
  rw [List.length_append, hhead, if_neg (by decide), length_outBytes, List.length_drop,
    List.length_reverse, h.length]

/-- What is stored is the number. -/
theorem Limbs.horner_writtenBytes {outi : List ℕ} (h : Limbs outi)
    (hlt : ofDigits (2 ^ 32) outi < 256 ^ 38) :
    horner 256 0 ((writtenBytes 2 outi.reverse).map UInt8.toNat) = ofDigits (2 ^ 32) outi := by
  have hne : outi ≠ [] := fun hnil => absurd h.length (by simp [hnil])
  have hmask := h.lt_iff.1 hlt
  obtain ⟨low, top, rfl⟩ := (List.eq_nil_or_concat outi).resolve_left hne
  rw [List.concat_eq_append] at h hmask ⊢
  rw [List.getLastD_concat, and_zeromask_eq_zero_iff (h.lt top (by simp))] at hmask
  unfold writtenBytes
  rw [List.reverse_append, List.reverse_singleton, List.singleton_append, List.headD_cons,
    if_neg (by decide), List.drop_one, List.tail_cons, List.map_append, horner_append,
    horner_headBytes hmask, horner_outBytes fun x hx => h.lt x (by simp_all), horner_eq,
    List.reverse_reverse, Nat.ofDigits_append, Nat.ofDigits_singleton, List.length_reverse]
  omega

/-! ## The digits that are written -/

/-- The inner loop stops where the digits that are in use end and no carry is left. -/
theorem addByte_eq {used carry : ℕ} {buf : List ℕ} (hused : used < buf.length)
    (hzero : ∀ d ∈ buf.drop used, d = 0)
    (hfit : 256 * ofDigits 58 buf + carry < 58 ^ (buf.length - 1)) :
    ∃ n, addByte used carry buf = some ((mulAdd 58 256 carry buf).1, n) ∧ n < buf.length ∧
      ∀ d ∈ (mulAdd 58 256 carry buf).1.drop n, d = 0 := by
  induction buf generalizing used carry with
  | nil => exact absurd hused (Nat.not_lt_zero _)
  | cons d buf ih =>
    by_cases hstop : used = 0 ∧ carry = 0
    · obtain ⟨rfl, rfl⟩ := hstop
      rw [List.drop_zero] at hzero
      refine ⟨0, ?_, hused, ?_⟩
      · rw [addByte, if_pos ⟨rfl, rfl⟩, mulAdd_zero 58 256 hzero]
      · rw [mulAdd_zero 58 256 hzero]
        exact hzero
    · rw [Nat.ofDigits_cons, List.length_cons, Nat.add_sub_cancel] at hfit
      rw [List.length_cons] at hused
      have hmore : 0 < buf.length := by
        rcases buf with _ | ⟨d', buf⟩
        · simp only [Nat.ofDigits_nil, List.length_nil] at hfit hused
          omega
        · simp
      have hpow : 58 ^ buf.length = 58 * 58 ^ (buf.length - 1) := by
        rw [← Nat.pow_succ', Nat.succ_eq_add_one, Nat.sub_add_cancel hmore]
      have hdrop : ∀ d' ∈ buf.drop (used - 1), d' = 0 := by
        cases used with
        | zero => exact fun d' hd' => hzero d' (List.mem_cons_of_mem _ hd')
        | succ used => exact hzero
      obtain ⟨n, hloop, hn, hrest⟩ := @ih (used - 1) ((d * 256 + carry) / 58) (by omega) hdrop
        (by omega)
      refine ⟨n + 1, ?_, ?_, ?_⟩
      · rw [addByte, if_neg hstop]
        dsimp only
        rw [show carry + 256 * d = d * 256 + carry by omega, hloop]
        rfl
      · rw [List.length_cons]
        omega
      · exact hrest

/-- **The loop writes the number of the bytes**, where there is a digit more than it has. -/
theorem encodeLoop_spec {used : ℕ} {buf : List ℕ} {bin : Bytes} (hused : used < buf.length)
    (hzero : ∀ d ∈ buf.drop used, d = 0) (hbuf : ∀ d ∈ buf, d < 58)
    (hfit : horner 256 (ofDigits 58 buf) (bin.map UInt8.toNat) < 58 ^ (buf.length - 1)) :
    ∃ buf', encodeLoop used buf bin = some buf' ∧ buf'.length = buf.length ∧
      (∀ d ∈ buf', d < 58) ∧
      ofDigits 58 buf' = horner 256 (ofDigits 58 buf) (bin.map UInt8.toNat) := by
  induction bin generalizing used buf with
  | nil => exact ⟨buf, rfl, rfl, hbuf, rfl⟩
  | cons b bin ih =>
    rw [List.map_cons, horner_cons] at hfit ⊢
    have hstep := Nat.lt_of_le_of_lt (le_horner (by decide) _ _) hfit
    obtain ⟨n, hloop, hn, hrest⟩ := addByte_eq hused hzero hstep
    have hpow := Nat.pow_le_pow_right (n := 58) (by decide) (Nat.sub_le buf.length 1)
    have hvalue := @ofDigits_mulAdd_of_lt 58 (by decide) 256 b.toNat buf (by omega)
    have hlength := length_mulAdd 58 256 b.toNat buf
    obtain ⟨buf', hloop', hlength', hlt, hhorner⟩ := @ih n _ (by rw [hlength]; exact hn) hrest
      (mulAdd_lt (by decide) 256 b.toNat buf) (by rw [hvalue, hlength]; exact hfit)
    refine ⟨buf', ?_, by rw [hlength', hlength], hlt, by rw [hhorner, hvalue]⟩
    rw [encodeLoop, hloop, Option.bind_some, hloop']

/-- What is written of 38 bytes whose number has 52 digits. -/
theorem base58Encode_eq {data : Bytes} (hlength : data.length = 38) (hhead : data.head? ≠ some 0)
    (hge : 58 ^ 51 ≤ horner 256 0 (data.map UInt8.toNat))
    (hlt : horner 256 0 (data.map UInt8.toNat) < 58 ^ 52) :
    ∃ digits : List ℕ, digits.length = 52 ∧ (∀ d ∈ digits, d < 58) ∧
      horner 58 0 digits = horner 256 0 (data.map UInt8.toNat) ∧
      ∀ b58sz, base58Encode data b58sz = some (if b58sz ≤ 52 then none
        else some (digits.map (b58digitsOrdered.getD · 0))) := by
  have hzcount : data.takeWhile (· = 0) = [] := by
    cases data with
    | nil => rfl
    | cons b data => exact List.takeWhile_cons_of_neg (by simpa using hhead)
  obtain ⟨buf, hloop, hbuf, hdigits, hvalue⟩ := @encodeLoop_spec 0
    (List.replicate 53 0) data (by decide)
    (fun d hd => List.eq_of_mem_replicate (List.mem_of_mem_drop hd))
    (fun d hd => by rw [List.eq_of_mem_replicate hd]; decide)
    (by rw [Nat.ofDigits_replicate_zero, List.length_replicate]; exact hlt)
  rw [Nat.ofDigits_replicate_zero] at hvalue
  have hreverse : horner 58 0 buf.reverse = horner 256 0 (data.map UInt8.toNat) := by
    rw [← hvalue, horner_eq, List.reverse_reverse, Nat.mul_zero, Nat.zero_add]
  have hlt58 : ∀ d ∈ buf.reverse, d < 58 := fun d hd => hdigits d (List.mem_reverse.1 hd)
  have hcount := length_dropWhile_zero (by decide : 1 < 58) hlt58
    (by rw [hreverse]; exact hge) (by rw [hreverse]; exact hlt)
  refine ⟨buf.reverse.dropWhile (· = 0), hcount, ?_, ?_, fun b58sz => ?_⟩
  · exact fun d hd => hlt58 d ((List.dropWhile_suffix _).subset hd)
  · rw [horner_dropWhile_zero, hreverse]
  · unfold base58Encode
    rw [hzcount, hlength, List.length_nil]
    dsimp only
    rw [List.drop_zero, show (38 - 0) * 138 / 100 + 1 = 53 from rfl, hloop, Option.map_some, hcount]
    rfl

end Core
end AergoLite
