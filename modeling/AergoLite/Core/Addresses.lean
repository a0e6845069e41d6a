/-
# Addresses

`pubkey_to_address` and `address_to_pubkey` of `core/sqlite3.c`.  An address is the number of 38
bytes, the version, the public key and a checksum, in base 58; the version makes it a number of 52
digits.  A public key is found again in its address, and an address that is accepted is the one of
its public key (`address_roundtrip`).

The size that `base58_decode` reports for the buffer of 38 bytes is one byte greater for each `'1'`
in front of the address that no zero byte stands for.  It is at most 38 exactly if there is no such
`'1'` (`decoded_in_bounds_iff`); an address of 52 times `'1'` makes `base58_check` read 14 bytes
after the buffer.
-/

import AergoLite.Core.Base58

namespace AergoLite
namespace Core

open MultiPrecision
open Nat (ofDigits)

/-- `ADDRESS_VERSION`. -/
def addressVersion : UInt8 := 0x42

/-- `pubkey_to_address`: the address that is written. -/
def pubkeyToAddress (sha256 : Bytes → Vector UInt8 32) (pubkey : Bytes) (addressSize : ℕ) :
    Option (Option Bytes) := base58checkEncode sha256 pubkey addressVersion addressSize

/-- `address_to_pubkey`: the public key that is written, if there is one, where the memory goes on
`afterDecoded` after the buffer and `afterAddress` after the address.  The result is `none` where
memory is read that is not there. -/
def addressToPubkey (sha256 : Bytes → Vector UInt8 32) (afterDecoded afterAddress : Bytes)
    (address : Bytes) : Option (Option Bytes) :=
  if address.length ≠ addressLength then some none
  else
    let decoded := base58Decode address address.length (33 + 1 + 4)
    if decoded.retval = false then some none
    else
      (base58Check sha256 (address ++ afterAddress) (decoded.bin ++ afterDecoded)
        decoded.binszp).map fun res =>
          if res ≠ (addressVersion.toNat : ℤ) then none else some ((decoded.bin.drop 1).take 33)

/-! ## The number of an address -/

/-- The number of some characters, if they are digits. -/
def base58Number (b58 : Bytes) : Option ℕ := (b58.mapM b58digit).map (horner 58 0)

/-- How many `'1'` some characters begin with. -/
def leadingOnes (b58 : Bytes) : ℕ := (b58.takeWhile (· = b58zero)).length

theorem base58Number_cons_b58zero (b58 : Bytes) :
    base58Number (b58zero :: b58) = base58Number b58 := by
  unfold base58Number
  rw [List.mapM_cons, b58digit_b58zero]
  cases b58.mapM b58digit with
  | none => rfl
  | some digits => exact congrArg some (horner_zero_cons 58 digits)

/-- The characters that are not counted have the number of all. -/
theorem base58Number_drop (b58 : Bytes) :
    base58Number (b58.drop (leadingOnes b58)) = base58Number b58 := by
  induction b58 with
  | nil => rfl
  | cons c b58 ih =>
    by_cases hc : c = b58zero
    · have hones : leadingOnes (c :: b58) = leadingOnes b58 + 1 := by
        unfold leadingOnes
        rw [List.takeWhile_cons_of_pos (by simpa using hc), List.length_cons]
      rw [hones, List.drop_succ_cons, ih, hc, base58Number_cons_b58zero]
    · have hones : leadingOnes (c :: b58) = 0 := by
        unfold leadingOnes
        rw [List.takeWhile_cons_of_neg (by simpa using hc), List.length_nil]
      rw [hones, List.drop_zero]

theorem mapM_b58digit {digits : List ℕ} (h : ∀ d ∈ digits, d < 58) :
    (digits.map (b58digitsOrdered.getD · 0)).mapM b58digit = some digits := by
  induction digits with
  | nil => rfl
  | cons d digits ih =>
    rw [List.map_cons, List.mapM_cons, b58digit_b58digitsOrdered (h d List.mem_cons_self),
      ih fun d' hd' => h d' (List.mem_cons_of_mem _ hd')]
    rfl

theorem of_mapM_b58digit {b58 : Bytes} {digits : List ℕ} (h : b58.mapM b58digit = some digits) :
    digits.map (b58digitsOrdered.getD · 0) = b58 ∧ ∀ d ∈ digits, d < 58 := by
  induction b58 generalizing digits with
  | nil =>
    obtain rfl := Option.some.inj h
    exact ⟨rfl, nofun⟩
  | cons c b58 ih =>
    rw [List.mapM_cons] at h
    obtain ⟨digit, hdigit, h⟩ := Option.bind_eq_some_iff.1 h
    obtain ⟨rest, hrest, h⟩ := Option.bind_eq_some_iff.1 h
    obtain rfl := Option.some.inj h
    obtain ⟨hlt, hchar⟩ := b58digitsOrdered_of_b58digit hdigit
    obtain ⟨hmap, hrest⟩ := ih hrest
    refine ⟨by rw [List.map_cons, hchar, hmap], fun d hd => ?_⟩
    rcases List.mem_cons.1 hd with rfl | hd
    · exact hlt
    · exact hrest d hd

/-! ## What is decoded -/

theorem base58Decode_unfold {b58 : Bytes} (hne : b58 ≠ []) :
    base58Decode b58 b58.length 38
      = match decodeLoop 0xffff0000 (List.replicate 10 0) (b58.drop (leadingOnes b58)) with
        | none => ⟨false, [], 38⟩
        | some outi =>
          let bin := writtenBytes 2 outi.reverse
          ⟨true, bin, 38 - ((bin.take 38).takeWhile (· = 0)).length + leadingOnes b58⟩ := by
  unfold base58Decode
  rw [if_neg (mt List.length_eq_zero_iff.1 hne), List.take_length]
  rfl

/-- A number of 38 bytes is stored, all of it. -/
theorem base58Decode_of_lt {b58 : Bytes} (hne : b58 ≠ []) {n : ℕ}
    (hn : base58Number b58 = some n) (hlt : n < 256 ^ 38) :
    ∃ bin : Bytes, bin.length = 38 ∧ horner 256 0 (bin.map UInt8.toNat) = n ∧
      base58Decode b58 b58.length 38
        = ⟨true, bin, 38 - (bin.takeWhile (· = 0)).length + leadingOnes b58⟩ := by
  rw [← base58Number_drop] at hn
  obtain ⟨digits, hdigits, rfl⟩ := Option.map_eq_some_iff.1 hn
  have hzero : ofDigits (2 ^ 32) (List.replicate 10 0) = 0 := Nat.ofDigits_replicate_zero
  obtain ⟨outi, hloop⟩ := exists_decodeLoop limbs_zero hdigits (by rw [hzero]; exact hlt)
  obtain ⟨digits', hdigits', hlimbs, hvalue, hfit⟩ :=
    decodeLoop_eq_some limbs_zero (by rw [hzero]; decide) hloop
  obtain rfl := Option.some.inj (hdigits.symm.trans hdigits')
  have hlength := hlimbs.length_writtenBytes
  refine ⟨writtenBytes 2 outi.reverse, hlength, ?_, ?_⟩
  · rw [hlimbs.horner_writtenBytes hfit, hvalue, hzero]
  · rw [base58Decode_unfold hne, hloop]
    dsimp only
    rw [List.take_of_length_le (by omega)]

/-- Of other characters nothing is stored. -/
theorem base58Decode_of_not_lt {b58 : Bytes} (hne : b58 ≠ [])
    (h : ∀ n, base58Number b58 = some n → 256 ^ 38 ≤ n) :
    base58Decode b58 b58.length 38 = ⟨false, [], 38⟩ := by
  have hzero : ofDigits (2 ^ 32) (List.replicate 10 0) = 0 := Nat.ofDigits_replicate_zero
  rw [base58Decode_unfold hne]
  cases hloop : decodeLoop 0xffff0000 (List.replicate 10 0) (b58.drop (leadingOnes b58)) with
  | none => rfl
  | some outi =>
    obtain ⟨digits, hdigits, -, hvalue, hlt⟩ :=
      decodeLoop_eq_some limbs_zero (by rw [hzero]; decide) hloop
    rw [hvalue, hzero] at hlt
    have hnumber : base58Number b58 = some (horner 58 0 digits) := by
      rw [← base58Number_drop]
      unfold base58Number
      rw [hdigits, Option.map_some]
    exact absurd hlt (Nat.not_lt.2 (h _ hnumber))

/-- Nothing is stored after the buffer, and the size is the buffer's at most. -/
def Base58Decoded.InBounds (decoded : Base58Decoded) : Prop :=
  decoded.bin.length ≤ 38 ∧ decoded.binszp ≤ 38

instance (decoded : Base58Decoded) : Decidable decoded.InBounds :=
  inferInstanceAs (Decidable (_ ∧ _))

theorem length_takeWhile_toNat (bin : Bytes) :
    ((bin.map UInt8.toNat).takeWhile (· = 0)).length = (bin.takeWhile (· = 0)).length := by
  induction bin with
  | nil => rfl
  | cons b bin ih =>
    have hb : b.toNat = 0 ↔ b = 0 := UInt8.toNat_inj (b := 0)
    by_cases hzero : b = 0
    · rw [List.map_cons, List.takeWhile_cons_of_pos (by simpa using hb.2 hzero),
        List.takeWhile_cons_of_pos (by simpa using hzero), List.length_cons, List.length_cons, ih]
    · rw [List.map_cons, List.takeWhile_cons_of_neg (by simpa using mt hb.1 hzero),
        List.takeWhile_cons_of_neg (by simpa using hzero), List.length_nil, List.length_nil]

theorem toNat_lt_of_mem_map (bin : Bytes) : ∀ d ∈ bin.map UInt8.toNat, d < 256 := fun d hd => by
  obtain ⟨b, -, rfl⟩ := List.mem_map.1 hd
  exact UInt8.toNat_lt b

/-- **The size that is reported is in bounds exactly if the number has a zero byte for each `'1'`
in front of it**, where there is a number of 38 bytes.  The buffer is not left. -/
theorem decoded_in_bounds_iff (address : Bytes) (h : address.length = addressLength) :
    (base58Decode address address.length (33 + 1 + 4)).InBounds
      ↔ ∀ n, base58Number address = some n → n < 256 ^ 38 →
        leadingOnes address ≤ 38 ∧ n < 256 ^ (38 - leadingOnes address) := by
  have hne : address ≠ [] := by
    rintro rfl
    exact nomatch h
  by_cases hnumber : ∃ n, base58Number address = some n ∧ n < 256 ^ 38
  · obtain ⟨n, hn, hlt⟩ := hnumber
    obtain ⟨bin, hlength, hvalue, hdecode⟩ := base58Decode_of_lt hne hn hlt
    have hiff := le_length_takeWhile_zero_iff (by decide : 1 < 256) (toNat_lt_of_mem_map bin)
      (leadingOnes address)
    have hle := (List.takeWhile_prefix (l := bin) (· = 0)).length_le
    rw [hvalue, length_takeWhile_toNat, List.length_map, hlength] at hiff
    rw [hlength] at hle
    show Base58Decoded.InBounds (base58Decode address address.length 38) ↔ _
    rw [hdecode]
    unfold Base58Decoded.InBounds
    constructor
    · rintro ⟨-, hsize⟩ n' hn' -
      obtain rfl := Option.some.inj (hn.symm.trans hn')
      exact hiff.1 (by dsimp only at hsize; omega)
    · intro hbound
      have hones := hiff.2 (hbound n hn hlt)
      exact ⟨Nat.le_of_eq hlength, by dsimp only; omega⟩
  · have hdecode := base58Decode_of_not_lt hne fun n hn =>
      Nat.not_lt.1 fun hlt => hnumber ⟨n, hn, hlt⟩
    show Base58Decoded.InBounds (base58Decode address address.length 38) ↔ _
    rw [hdecode]
    exact iff_of_true (by decide) fun n hn hlt => absurd ⟨n, hn, hlt⟩ hnumber

theorem decoded_in_bounds_of_no_ones :
    (base58Decode (50 :: List.replicate 51 b58zero) 52 (33 + 1 + 4)).InBounds :=
  (decoded_in_bounds_iff (50 :: List.replicate 51 b58zero) rfl).2 fun _ _ hlt =>
    ⟨Nat.zero_le _, hlt⟩

/-- Of `'1'` only, 52 times, the size is 52, and the checksum is looked for after the buffer. -/
theorem ones_out_of_bounds :
    ¬(base58Decode (List.replicate 52 b58zero) 52 (33 + 1 + 4)).InBounds ∧
      addressToPubkey (fun _ => Vector.replicate 32 0) [] [0] (List.replicate 52 b58zero)
        = none := by
  decide +kernel

/-! ## Addresses and public keys -/

section address

variable {sha256 : Bytes → Vector UInt8 32}

/-- The bytes that an address is the number of. -/
def addressBytes (sha256 : Bytes → Vector UInt8 32) (pubkey : Bytes) : Bytes :=
  addressVersion :: pubkey ++
    (sha256 (sha256 (addressVersion :: pubkey)).toList).toList.take 4

theorem doubleSha256_cons (b : UInt8) (data : Bytes) :
    doubleSha256 sha256 (b :: data) = some (sha256 (sha256 (b :: data)).toList).toList := rfl

theorem length_addressBytes (sha256 : Bytes → Vector UInt8 32) {pubkey : Bytes} (h : pubkey.length = 33) :
    (addressBytes sha256 pubkey).length = 38 := by
  unfold addressBytes
  simp [h]

/-- The version makes it a number of 52 digits. -/
theorem addressBytes_bounds (bin : Bytes) (h : bin.length = 37) :
    58 ^ 51 ≤ horner 256 0 ((addressVersion :: bin).map UInt8.toNat) ∧
      horner 256 0 ((addressVersion :: bin).map UInt8.toNat) < 58 ^ 52 ∧
      horner 256 0 ((addressVersion :: bin).map UInt8.toNat) < 256 ^ 38 := by
  have hrest := horner_lt (by decide : 1 < 256) (toNat_lt_of_mem_map bin)
  have hvalue : horner 256 0 ((addressVersion :: bin).map UInt8.toNat)
      = 256 ^ 37 * 66 + horner 256 0 (bin.map UInt8.toNat) := by
    rw [List.map_cons, horner_cons, horner_eq, horner_eq 256 0, List.length_map, h]
    show 256 ^ 37 * 66 + _ = _
    omega
  rw [List.length_map, h] at hrest
  rw [hvalue]
  omega

theorem pubkeyToAddress_eq (pubkey : Bytes) (addressSize : ℕ) :
    pubkeyToAddress sha256 pubkey addressSize
      = base58Encode (addressBytes sha256 pubkey) addressSize := rfl

/-- An address is the number of its bytes, in 52 digits. -/
theorem exists_address (sha256 : Bytes → Vector UInt8 32) {pubkey : Bytes} (h : pubkey.length = 33) :
    ∃ digits : List ℕ, digits.length = 52 ∧ (∀ d ∈ digits, d < 58) ∧
      horner 58 0 digits = horner 256 0 ((addressBytes sha256 pubkey).map UInt8.toNat) ∧
      ∀ addressSize, pubkeyToAddress sha256 pubkey addressSize
        = some (if addressSize ≤ 52 then none
          else some (digits.map (b58digitsOrdered.getD · 0))) := by
  have hlength := length_addressBytes sha256 h
  have hbounds := addressBytes_bounds (addressBytes sha256 pubkey).tail
    (by rw [List.length_tail, hlength])
  have hhead : (addressBytes sha256 pubkey).head? ≠ some 0 := by
    show some addressVersion ≠ some 0
    decide
  exact base58Encode_eq hlength hhead hbounds.1 hbounds.2.1

/-- The characters of a number have as many digits. -/
theorem base58Number_lt {b58 : Bytes} {n : ℕ} (h : base58Number b58 = some n) :
    n < 58 ^ b58.length := by
  obtain ⟨digits, hdigits, rfl⟩ := Option.map_eq_some_iff.1 h
  obtain ⟨hmap, hlt⟩ := of_mapM_b58digit hdigits
  rw [← hmap, List.length_map]
  exact horner_lt (by decide) hlt

/-- A number of 52 digits has no `'1'` in front of it. -/
theorem leadingOnes_eq_zero {address : Bytes} {n : ℕ} (hlength : address.length = 52)
    (hn : base58Number address = some n) (hge : 58 ^ 51 ≤ n) : leadingOnes address = 0 := by
  by_contra hones
  rw [← base58Number_drop] at hn
  have hlt := base58Number_lt hn
  rw [List.length_drop, hlength] at hlt
  have := Nat.pow_le_pow_right (n := 58) (by decide) (by omega : 52 - leadingOnes address ≤ 51)
  omega

theorem bytes_inj {s t : Bytes} (hlength : s.length = t.length)
    (h : horner 256 0 (s.map UInt8.toNat) = horner 256 0 (t.map UInt8.toNat)) : s = t := by
  have hmap := horner_inj (by decide : 1 < 256) (by simp [hlength])
    (toNat_lt_of_mem_map s) (toNat_lt_of_mem_map t) h
  exact (List.map_inj_right fun _ _ => UInt8.toNat_inj.1).1 hmap

/-- The characters that a byte that is not zero is looked at with. -/
theorem skipZeros_cons {b c : UInt8} (hb : b ≠ 0) (bin base58str : Bytes) :
    skipZeros (b :: bin) (c :: base58str) = some (b, c) := by
  rw [skipZeros, if_neg fun h => hb h.1]

theorem head_ne_b58zero {c : UInt8} {b58 : Bytes} (h : leadingOnes (c :: b58) = 0) :
    c ≠ b58zero := by
  rintro rfl
  exact nomatch h

/-- The checksum of the bytes of an address is right. -/
theorem base58Check_addressBytes {pubkey : Bytes} (h : pubkey.length = 33) {address : Bytes}
    (hne : address ≠ []) (hones : leadingOnes address = 0) (afterDecoded afterAddress : Bytes) :
    base58Check sha256 (address ++ afterAddress) (addressBytes sha256 pubkey ++ afterDecoded) 38
      = some (addressVersion.toNat : ℤ) := by
  obtain ⟨c, address, rfl⟩ := List.exists_cons_of_ne_nil hne
  have hlength : (addressVersion :: pubkey).length = 34 := by rw [List.length_cons, h]
  have hall := length_addressBytes sha256 h
  have htake : (addressBytes sha256 pubkey ++ afterDecoded).take 34 = addressVersion :: pubkey := by
    unfold addressBytes
    rw [List.append_assoc, List.take_left' hlength]
  have hdrop : ((addressBytes sha256 pubkey ++ afterDecoded).drop 34).take 4
      = (sha256 (sha256 (addressVersion :: pubkey)).toList).toList.take 4 := by
    unfold addressBytes
    rw [List.append_assoc, List.drop_left' hlength]
    exact List.take_left' (by simp)
  have hfull : 38 ≤ (addressBytes sha256 pubkey ++ afterDecoded).length := by
    rw [List.length_append, hall]
    omega
  unfold base58Check
  rw [if_neg (by decide), if_neg (by omega), htake, doubleSha256_cons]
  dsimp only
  rw [if_neg (by omega), hdrop, if_neg (not_not.2 rfl)]
  show (skipZeros (addressVersion :: _) (c :: _)).map _ = _
  rw [skipZeros_cons (by decide), Option.map_some]
  dsimp only
  rw [if_neg (not_or.2 ⟨by decide, head_ne_b58zero hones⟩)]
  rfl

/-- The checksum is looked at where the number has 38 bytes. -/
theorem addressToPubkey_of_lt (sha256 : Bytes → Vector UInt8 32) {address : Bytes} {n : ℕ} (hlength : address.length = 52)
    (hn : base58Number address = some n) (hlt : n < 256 ^ 38)
    (afterDecoded afterAddress : Bytes) :
    ∃ bin : Bytes, bin.length = 38 ∧ horner 256 0 (bin.map UInt8.toNat) = n ∧
      addressToPubkey sha256 afterDecoded afterAddress address
        = (base58Check sha256 (address ++ afterAddress) (bin ++ afterDecoded)
            (38 - (bin.takeWhile (· = 0)).length + leadingOnes address)).map fun res =>
              if res ≠ (addressVersion.toNat : ℤ) then none else some ((bin.drop 1).take 33) := by
  have hne : address ≠ [] := by
    rintro rfl
    exact nomatch hlength
  have haccepted : ¬address.length ≠ addressLength := not_not.2 hlength
  obtain ⟨bin, hbin, hvalue, hdecode⟩ := base58Decode_of_lt hne hn hlt
  refine ⟨bin, hbin, hvalue, ?_⟩
  unfold addressToPubkey
  rw [if_neg haccepted]
  dsimp only
  rw [hdecode]
  rfl

theorem exists_number_of_addressToPubkey {pubkey address afterDecoded afterAddress : Bytes}
    (h : addressToPubkey sha256 afterDecoded afterAddress address = some (some pubkey)) :
    address.length = 52 ∧ ∃ n, base58Number address = some n ∧ n < 256 ^ 38 := by
  unfold addressToPubkey at h
  by_cases hlength : address.length ≠ addressLength
  · rw [if_pos hlength] at h
    exact nomatch h
  have hlength := not_not.1 hlength
  refine ⟨hlength, ?_⟩
  by_contra hnumber
  have hne : address ≠ [] := by
    rintro rfl
    exact nomatch hlength
  have hdecode := base58Decode_of_not_lt hne fun n hn =>
    Nat.not_lt.1 fun hlt => hnumber ⟨n, hn, hlt⟩
  rw [if_neg (not_not.2 hlength)] at h
  dsimp only at h
  rw [hdecode] at h
  exact nomatch h

/-- The public key is found in its address. -/
theorem addressToPubkey_of_pubkeyToAddress {pubkey address : Bytes} {addressSize : ℕ}
    (h : pubkey.length = 33)
    (haddress : pubkeyToAddress sha256 pubkey addressSize = some (some address))
    (afterDecoded afterAddress : Bytes) :
    addressToPubkey sha256 afterDecoded afterAddress address = some (some pubkey) := by
  obtain ⟨digits, hdigits, hlt, hvalue, hencode⟩ := exists_address sha256 h
  have hall := length_addressBytes sha256 h
  have hbounds := addressBytes_bounds (addressBytes sha256 pubkey).tail
    (by rw [List.length_tail, hall])
  have hbounds : 58 ^ 51 ≤ horner 58 0 digits ∧ horner 58 0 digits < 256 ^ 38 := by
    rw [hvalue]
    exact ⟨hbounds.1, hbounds.2.2⟩
  rw [hencode] at haddress
  have haddress := Option.some.inj haddress
  split_ifs at haddress with hsize
  obtain rfl := Option.some.inj haddress
  have hlength : (digits.map (b58digitsOrdered.getD · 0)).length = 52 := by
    rw [List.length_map, hdigits]
  have hne : digits.map (b58digitsOrdered.getD · 0) ≠ [] := by
    intro hnil
    rw [hnil] at hlength
    exact nomatch hlength
  have hnumber : base58Number (digits.map (b58digitsOrdered.getD · 0))
      = some (horner 58 0 digits) := by
    unfold base58Number
    rw [mapM_b58digit hlt, Option.map_some]
  have hones := leadingOnes_eq_zero hlength hnumber hbounds.1
  obtain ⟨bin, hbin, hbytes, hdecode⟩ := addressToPubkey_of_lt sha256 hlength hnumber
    hbounds.2 afterDecoded afterAddress
  obtain rfl : bin = addressBytes sha256 pubkey :=
    bytes_inj (by rw [hbin, hall]) (by rw [hbytes, hvalue])
  have hzeros : (addressBytes sha256 pubkey).takeWhile (· = 0) = [] := rfl
  rw [hdecode, hzeros, hones, List.length_nil, base58Check_addressBytes h hne hones,
    Option.map_some, if_neg (not_not.2 rfl)]
  exact congrArg (some ∘ some) (List.take_left' h)

/-- What was looked at where the version is returned. -/
theorem of_base58Check {base58str bin : Bytes} {binsz : ℕ}
    (h : base58Check sha256 base58str bin binsz = some (addressVersion.toNat : ℤ)) :
    4 ≤ binsz ∧ binsz ≤ bin.length ∧
      (∃ buf, doubleSha256 sha256 (bin.take (binsz - 4)) = some buf ∧
        (bin.drop (binsz - 4)).take 4 = buf.take 4) ∧
      bin.headD 0 = addressVersion ∧
      ∃ b c, skipZeros bin base58str = some (b, c) ∧ c ≠ b58zero := by
  unfold base58Check at h
  by_cases hsize : binsz < 4
  · rw [if_pos hsize] at h
    exact absurd (Option.some.inj h) (by decide)
  rw [if_neg hsize] at h
  by_cases hshort : bin.length < binsz - 4
  · rw [if_pos hshort] at h
    exact nomatch h
  rw [if_neg hshort] at h
  cases hhash : doubleSha256 sha256 (bin.take (binsz - 4)) with
  | none =>
    rw [hhash] at h
    exact absurd (Option.some.inj h) (by decide)
  | some buf =>
    rw [hhash] at h
    dsimp only at h
    split_ifs at h with hlength hchecksum
    · exact absurd (Option.some.inj h) (by decide)
    obtain ⟨⟨b, c⟩, hskip, hres⟩ := Option.map_eq_some_iff.1 h
    dsimp only at hres
    split_ifs at hres with hzero
    refine ⟨by omega, by omega, ⟨buf, rfl, not_not.1 hchecksum⟩, ?_, b, c, hskip,
      fun hc => hzero (.inr hc)⟩
    exact UInt8.toNat_inj.1 (Int.ofNat_inj.1 hres)

/-- An address that is accepted is the one of its public key. -/
theorem pubkeyToAddress_of_addressToPubkey {pubkey address afterDecoded afterAddress : Bytes}
    (h : addressToPubkey sha256 afterDecoded afterAddress address = some (some pubkey))
    {addressSize : ℕ} (hsize : 52 < addressSize) :
    pubkeyToAddress sha256 pubkey addressSize = some (some address) := by
  obtain ⟨hlength, n, hn, hlt⟩ := exists_number_of_addressToPubkey h
  obtain ⟨bin, hbin, hvalue, hdecode⟩ := addressToPubkey_of_lt sha256 hlength hn hlt
    afterDecoded afterAddress
  obtain ⟨first, rest, rfl⟩ : ∃ c rest, address = c :: rest := by
    rcases address with _ | ⟨c, rest⟩
    · exact nomatch hlength
    · exact ⟨c, rest, rfl⟩
  rw [hdecode] at h
  obtain ⟨res, hcheck, hpubkey⟩ := Option.map_eq_some_iff.1 h
  split_ifs at hpubkey with hres
  obtain rfl := Option.some.inj hpubkey
  rw [not_not.1 hres] at hcheck
  obtain ⟨-, -, ⟨buf, hbuf, hchecksum⟩, hversion, b, c, hskip, hc⟩ := of_base58Check hcheck
  obtain ⟨version, bytes, rfl⟩ : ∃ b bytes, bin = b :: bytes := by
    rcases bin with _ | ⟨b, bytes⟩
    · exact nomatch hbin
    · exact ⟨b, bytes, rfl⟩
  obtain rfl : version = addressVersion := hversion
  -- The version is not a zero, so that the first character is looked at.
  have hfirst : skipZeros (addressVersion :: bytes ++ afterDecoded) (first :: rest ++ afterAddress)
      = some (addressVersion, first) := skipZeros_cons (by decide) _ _
  obtain rfl := (Prod.mk.inj (Option.some.inj (hfirst.symm.trans hskip))).2
  have hones : leadingOnes (first :: rest) = 0 := by
    unfold leadingOnes
    rw [List.takeWhile_cons_of_neg (by simpa using hc), List.length_nil]
  have hzeros : (addressVersion :: bytes).takeWhile (· = 0) = [] := rfl
  rw [hzeros, hones] at hbuf hchecksum
  have hpubkey : (bytes.take 33).length = 33 := by
    rw [List.length_cons] at hbin
    rw [List.length_take]
    omega
  have hdata : (addressVersion :: bytes ++ afterDecoded).take 34
      = addressVersion :: bytes.take 33 := by
    rw [List.take_append_of_le_length (by omega), List.take_succ_cons]
  have hhash : ((addressVersion :: bytes ++ afterDecoded).drop 34).take 4
      = (addressVersion :: bytes).drop 34 := by
    rw [List.drop_append_of_le_length (by omega), List.take_left' (by rw [List.length_drop, hbin])]
  have hbytes : addressVersion :: bytes = addressBytes sha256 (bytes.take 33) := by
    rw [show 38 - List.length [] + 0 - 4 = 34 from rfl, hdata, doubleSha256_cons] at hbuf
    rw [show 38 - List.length [] + 0 - 4 = 34 from rfl, hhash, ← Option.some.inj hbuf] at hchecksum
    unfold addressBytes
    rw [← hchecksum]
    exact (List.take_append_drop 34 (addressVersion :: bytes)).symm
  obtain ⟨digits, hdigits, hdigits58, hhorner, hencode⟩ := exists_address sha256 hpubkey
  obtain ⟨digits', hmapM, rfl⟩ := Option.map_eq_some_iff.1 hn
  obtain ⟨hmap, hdigits58'⟩ := of_mapM_b58digit hmapM
  have hlength' : digits'.length = 52 := by rw [← hlength, ← hmap, List.length_map]
  obtain rfl : digits = digits' := horner_inj (by decide : 1 < 58) (by rw [hdigits, hlength'])
    hdigits58 hdigits58' (by rw [hhorner, ← hbytes, hvalue])
  show pubkeyToAddress sha256 (bytes.take 33) addressSize = _
  rw [hencode, if_neg (by omega), hmap]

/-- **A public key and its address determine one another**, whatever comes after them in
memory. -/
theorem address_roundtrip (sha256 : Bytes → Vector UInt8 32) :
    (∀ pubkey : Bytes, pubkey.length = 33 → ∀ addressSize, 52 < addressSize →
      ∃ address, pubkeyToAddress sha256 pubkey addressSize = some (some address) ∧
        address.length = 52) ∧
    (∀ (pubkey : Bytes) (addressSize : ℕ) (address afterDecoded afterAddress : Bytes),
      pubkey.length = 33 →
      pubkeyToAddress sha256 pubkey addressSize = some (some address) →
      addressToPubkey sha256 afterDecoded afterAddress address = some (some pubkey)) ∧
    (∀ (pubkey address afterDecoded afterAddress : Bytes) (addressSize : ℕ),
      addressToPubkey sha256 afterDecoded afterAddress address = some (some pubkey) →
      52 < addressSize →
      pubkeyToAddress sha256 pubkey addressSize = some (some address)) := by
  refine ⟨fun pubkey h addressSize hsize => ?_, fun pubkey addressSize address _ _ h haddress =>
    addressToPubkey_of_pubkeyToAddress h haddress _ _, fun pubkey address _ _ addressSize h hsize =>
    pubkeyToAddress_of_addressToPubkey h hsize⟩
  obtain ⟨digits, hdigits, -, -, hencode⟩ := exists_address sha256 h
  refine ⟨digits.map (b58digitsOrdered.getD · 0), ?_, by rw [List.length_map, hdigits]⟩
  rw [hencode, if_neg (by omega)]

/-- With the hash that is always 0, the public key of 33 bytes that are 7. -/
theorem address_roundtrip_sevens :
    let sha256 : Bytes → Vector UInt8 32 := fun _ => Vector.replicate 32 0
    ∃ address, pubkeyToAddress sha256 (List.replicate 33 7) 56 = some (some address) ∧
      addressToPubkey sha256 [] [0] address = some (some (List.replicate 33 7)) := by
  intro sha256
  obtain ⟨hexists, hdecode, -⟩ := address_roundtrip sha256
  obtain ⟨address, haddress, -⟩ := hexists (List.replicate 33 7) List.length_replicate 56
    (by decide)
  exact ⟨address, haddress, hdecode _ _ _ _ _ List.length_replicate haddress⟩

end address

end Core
end AergoLite
