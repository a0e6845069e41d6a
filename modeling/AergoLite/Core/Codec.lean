/-
# The codec

`core/codec.c`.  A page is encrypted in place, with a random `iv` that is written into its last
bytes, which are reserved; the first bytes of page 1, the header of the file, stay as they are.
A message is encrypted into new memory, with its `iv` in front of it.

`sqlite3_randomness` is a parameter, the `iv` it returns, and so is what new memory holds.  The file is compiled without `CODEC_ENCRYPT_DB_HEADER` and
`CODEC_USE_CUSTOM_HEADER`.

What the codec decrypts is what it encrypted, on pages and on messages
(`codec_decrypts_encrypted`).
-/

import AergoLite.Core.Ciphers
import Mathlib.Data.Nat.Notation

namespace AergoLite
namespace Core

/-- `iCipher`: `CIPHER_XRC4`, `CIPHER_CHACHA`, or another value. -/
inductive Cipher
  | unset | xrc4 | chacha
  deriving DecidableEq, Repr

/-- `CRYPTKEY`. -/
structure CryptKey where
  sbox : Sbox
  key : Vector UInt8 32
  deriving DecidableEq

/-- `CRYPTBLOCK`, as far as it is not memory: the buffer is of the size of a page. -/
structure CryptBlock where
  dwPageSize : ℕ
  iCipher : Cipher
  iRounds : ℤ
  hReadKey : Option CryptKey
  hWriteKey : Option CryptKey

/-- `SQLITE_HEADER_SIZE`. -/
def sqliteHeaderSize : ℕ := 100

/-- `IVLEN`. -/
def ivlen : ℕ := 8

/-- `MSGIVLEN`. -/
def msgIvlen : ℕ := 4

/-- The `switch` over the ciphers, where the result is written over the data. -/
def codecCrypt (iCipher : Cipher) (iRounds : ℤ) (hKey : CryptKey) (iv data : Bytes)
    (counter : UInt32) : Bytes :=
  match iCipher with
  | .xrc4 => xrc4Crypt data hKey.sbox iv counter
  | .chacha => chachaEncrypt data hKey.key.toList iv counter iRounds
  | .unset => data

/-- `codec_encrypt`. -/
def codecEncrypt (iCipher : Cipher) (iRounds : ℤ) (hKey : CryptKey) (pgno : UInt32)
    (data : Bytes) (iv : Vector UInt8 ivlen) : Bytes :=
  codecCrypt iCipher iRounds hKey iv.toList (data.take (data.length - ivlen)) pgno ++ iv.toList

/-- `codec_decrypt`. -/
def codecDecrypt (iCipher : Cipher) (iRounds : ℤ) (hKey : CryptKey) (pgno : UInt32)
    (data : Bytes) : Bytes :=
  let size := data.length - ivlen
  codecCrypt iCipher iRounds hKey (data.drop size) (data.take size) pgno ++ data.drop size

/-- The bytes at the begin of a page that are not encrypted. -/
def pageOffset (pgno : UInt32) : ℕ := if pgno = 1 then sqliteHeaderSize else 0

/-- `sqlite3Codec`: what the memory that is returned holds. -/
def sqlite3Codec (iv : Vector UInt8 ivlen) (pBlock : CryptBlock) (data : Bytes) (pgno : UInt32)
    (mode : ℕ) : Bytes :=
  let size := pBlock.dwPageSize
  let offset := pageOffset pgno
  match mode with
  | 0 | 2 | 3 =>
    match pBlock.hReadKey with
    | none => data
    | some hKey =>
      data.take offset ++
        codecDecrypt pBlock.iCipher pBlock.iRounds hKey pgno ((data.take size).drop offset) ++
        data.drop size
  | 6 =>
    match pBlock.hWriteKey with
    | none => data
    | some hKey =>
      data.take offset ++
        codecEncrypt pBlock.iCipher pBlock.iRounds hKey pgno ((data.take size).drop offset) iv
  | 7 =>
    match pBlock.hReadKey with
    | none => data
    | some hKey =>
      data.take offset ++
        codecEncrypt pBlock.iCipher pBlock.iRounds hKey pgno ((data.take size).drop offset) iv
  | _ => data

/-- `aergolite_msg_encrypt`: the message that is returned, if there is memory for it; `fresh` is
what that holds.  The result is `none` where the key is a null pointer. -/
def aergoliteMsgEncrypt (available : ℕ → Bool) (fresh : Bytes) (iv : Vector UInt8 msgIvlen)
    (pBlock : Option CryptBlock) (data : Bytes) (counter : UInt32) : Option (Option Bytes) :=
  match pBlock with
  | none => some (some data)
  | some pBlock =>
    if sqlite3Malloc available (BitVec.ofNat 32 (data.length + msgIvlen)) = false then some none
    else if pBlock.iCipher = .unset then some (some (iv.toList ++ fresh.take data.length))
    else pBlock.hReadKey.map fun hKey =>
      some (iv.toList ++ codecCrypt pBlock.iCipher pBlock.iRounds hKey iv.toList data counter)

/-- `aergolite_msg_decrypt` of a message in memory of its size: what the memory that is returned
holds, and the size.  The result is `none` where memory outside of the message is used, or the
key is a null pointer; the ciphers take the size as an `unsigned int`. -/
def aergoliteMsgDecrypt (pBlock : Option CryptBlock) (data : Bytes) (size : ℤ)
    (counter : UInt32) : Option (Bytes × ℤ) :=
  match pBlock with
  | none => some (data, size)
  | some pBlock =>
    let iv := data.take msgIvlen
    let data := data.drop msgIvlen
    let size := size - msgIvlen
    let len := (size % 2 ^ 32).toNat
    if pBlock.iCipher = .unset then some (data, size)
    else if data.length < len then none
    else pBlock.hReadKey.map fun hKey =>
      (codecCrypt pBlock.iCipher pBlock.iRounds hKey iv (data.take len) counter ++ data.drop len,
        size)

/-! ## Pages -/

open StreamCipher

@[simp] theorem length_codecCrypt (iCipher : Cipher) (iRounds : ℤ) (hKey : CryptKey)
    (iv data : Bytes) (counter : UInt32) :
    (codecCrypt iCipher iRounds hKey iv data counter).length = data.length := by
  cases iCipher with
  | unset => rfl
  | xrc4 => rw [codecCrypt, xrc4Crypt_eq_combine, length_combine]
  | chacha => rw [codecCrypt, chachaEncrypt_eq_combine, length_combine]

theorem codecCrypt_codecCrypt (iCipher : Cipher) (iRounds : ℤ) (hKey : CryptKey)
    (iv data : Bytes) (counter : UInt32) :
    codecCrypt iCipher iRounds hKey iv (codecCrypt iCipher iRounds hKey iv data counter) counter
      = data := by
  cases iCipher with
  | unset => rfl
  | xrc4 =>
    simp only [codecCrypt, xrc4Crypt_eq_combine]
    exact combine_combine xor_xor_byte _ data
  | chacha =>
    simp only [codecCrypt, chachaEncrypt_eq_combine]
    exact combine_combine xor_xor_byte _ data

/-- What a page holds, without the reserved bytes. -/
def payload (data : Bytes) : Bytes := data.take (data.length - ivlen)

theorem payload_append (data : Bytes) (iv : Vector UInt8 ivlen) :
    payload (data ++ iv.toList) = data := by
  unfold payload
  rw [List.length_append, Vector.length_toList, Nat.add_sub_cancel, List.take_left]

/-- The header of page 1 is a part of what it holds. -/
theorem take_append_payload {page : Bytes} {offset : ℕ} (h : offset + ivlen ≤ page.length) :
    page.take offset ++ payload (page.drop offset) = payload page := by
  have hsize : page.length - ivlen = offset + (page.length - offset - ivlen) := by omega
  unfold payload
  rw [List.length_drop, hsize, List.take_add]

theorem length_codecEncrypt {data : Bytes} (h : ivlen ≤ data.length) (iCipher : Cipher)
    (iRounds : ℤ) (hKey : CryptKey) (pgno : UInt32) (iv : Vector UInt8 ivlen) :
    (codecEncrypt iCipher iRounds hKey pgno data iv).length = data.length := by
  unfold codecEncrypt
  rw [List.length_append, length_codecCrypt, List.length_take, Vector.length_toList]
  omega

theorem codecDecrypt_append (iCipher : Cipher) (iRounds : ℤ) (hKey : CryptKey) (pgno : UInt32)
    (data : Bytes) (iv : Vector UInt8 ivlen) :
    codecDecrypt iCipher iRounds hKey pgno (data ++ iv.toList)
      = codecCrypt iCipher iRounds hKey iv.toList data pgno ++ iv.toList := by
  unfold codecDecrypt
  rw [List.length_append, Vector.length_toList, Nat.add_sub_cancel]
  dsimp only
  rw [List.take_left, List.drop_left]

/-- The `iv` stays in the reserved bytes. -/
theorem codecDecrypt_codecEncrypt (iCipher : Cipher) (iRounds : ℤ) (hKey : CryptKey)
    (pgno : UInt32) (data : Bytes) (iv : Vector UInt8 ivlen) :
    codecDecrypt iCipher iRounds hKey pgno (codecEncrypt iCipher iRounds hKey pgno data iv)
      = payload data ++ iv.toList := by
  unfold codecEncrypt
  rw [codecDecrypt_append, codecCrypt_codecCrypt]
  rfl

theorem pageOffset_le (pgno : UInt32) : pageOffset pgno ≤ 100 := by
  unfold pageOffset sqliteHeaderSize
  split_ifs <;> omega

/-- The key of a mode that encrypts. -/
def CryptBlock.encryptKey (pBlock : CryptBlock) (mode : ℕ) : Option CryptKey :=
  if mode = 6 then pBlock.hWriteKey else pBlock.hReadKey

/-- The two blocks are for one cipher. -/
structure CryptBlock.Agree (enc dec : CryptBlock) : Prop where
  iCipher : dec.iCipher = enc.iCipher
  iRounds : dec.iRounds = enc.iRounds

section page

variable {enc dec : CryptBlock} {mode : ℕ} {page : Bytes}

theorem sqlite3Codec_encrypt {hKey : CryptKey} (hmode : mode = 6 ∨ mode = 7)
    (hkey : enc.encryptKey mode = some hKey) (hsize : page.length = enc.dwPageSize)
    (iv : Vector UInt8 ivlen) (pgno : UInt32) :
    sqlite3Codec iv enc page pgno mode
      = page.take (pageOffset pgno) ++ codecEncrypt enc.iCipher enc.iRounds hKey pgno
          (page.drop (pageOffset pgno)) iv := by
  rcases hmode with rfl | rfl
  · simp only [sqlite3Codec, show enc.hWriteKey = some hKey from hkey, ← hsize, List.take_length]
  · simp only [sqlite3Codec, show enc.hReadKey = some hKey from hkey, ← hsize, List.take_length]

theorem sqlite3Codec_encrypt_none (hmode : mode = 6 ∨ mode = 7) (hkey : enc.encryptKey mode = none)
    (iv : Vector UInt8 ivlen) (pgno : UInt32) : sqlite3Codec iv enc page pgno mode = page := by
  rcases hmode with rfl | rfl
  · simp only [sqlite3Codec, show enc.hWriteKey = none from hkey]
  · simp only [sqlite3Codec, show enc.hReadKey = none from hkey]

theorem sqlite3Codec_decrypt {hKey : CryptKey} (hmode : mode = 0 ∨ mode = 2 ∨ mode = 3)
    (hkey : dec.hReadKey = some hKey) (hsize : page.length = dec.dwPageSize)
    (iv : Vector UInt8 ivlen) (pgno : UInt32) :
    sqlite3Codec iv dec page pgno mode
      = page.take (pageOffset pgno) ++ codecDecrypt dec.iCipher dec.iRounds hKey pgno
          (page.drop (pageOffset pgno)) := by
  rcases hmode with rfl | rfl | rfl <;>
    simp only [sqlite3Codec, hkey, ← hsize, List.take_length, List.drop_length, List.append_nil]

theorem sqlite3Codec_decrypt_none (hmode : mode = 0 ∨ mode = 2 ∨ mode = 3)
    (hkey : dec.hReadKey = none) (iv : Vector UInt8 ivlen) (pgno : UInt32) :
    sqlite3Codec iv dec page pgno mode = page := by
  rcases hmode with rfl | rfl | rfl <;> simp only [sqlite3Codec, hkey]

/-- What is loaded of a page that was stored. -/
theorem sqlite3Codec_sqlite3Codec {mode' : ℕ} {hKey : CryptKey} (hagree : enc.Agree dec)
    (hmode : mode = 6 ∨ mode = 7) (hmode' : mode' = 0 ∨ mode' = 2 ∨ mode' = 3)
    (hkey : enc.encryptKey mode = some hKey) (hkey' : dec.hReadKey = some hKey)
    (hsize : page.length = enc.dwPageSize) (hsize' : page.length = dec.dwPageSize)
    (hpage : 512 ≤ page.length) (iv iv' : Vector UInt8 ivlen) (pgno : UInt32) :
    sqlite3Codec iv' dec (sqlite3Codec iv enc page pgno mode) pgno mode'
      = payload page ++ iv.toList := by
  have hoffset := pageOffset_le pgno
  have hiv : ivlen = 8 := rfl
  have hrest : ivlen ≤ (page.drop (pageOffset pgno)).length := by
    rw [List.length_drop]
    omega
  have hheader : (page.take (pageOffset pgno)).length = pageOffset pgno := by
    rw [List.length_take]
    omega
  rw [sqlite3Codec_encrypt hmode hkey hsize, sqlite3Codec_decrypt hmode' hkey']
  · rw [List.take_left' hheader, List.drop_left' hheader, hagree.iCipher, hagree.iRounds,
      codecDecrypt_codecEncrypt, ← List.append_assoc, take_append_payload (by omega)]
  · rw [List.length_append, length_codecEncrypt hrest, hheader, List.length_drop]
    omega

end page

/-! ## Messages -/

section message

variable {enc dec : CryptBlock} {available : ℕ → Bool} {fresh : Bytes} {iv : Vector UInt8 msgIvlen}
  {data : Bytes} {counter : UInt32} {hKey : CryptKey}

theorem aergoliteMsgEncrypt_of_available (hcipher : enc.iCipher ≠ .unset)
    (hkey : enc.hReadKey = some hKey) :
    aergoliteMsgEncrypt available fresh iv (some enc) data counter
      = some (if sqlite3Malloc available (BitVec.ofNat 32 (data.length + msgIvlen)) then
          some (iv.toList ++ codecCrypt enc.iCipher enc.iRounds hKey iv.toList data counter)
        else none) := by
  unfold aergoliteMsgEncrypt
  dsimp only
  rw [if_neg hcipher, hkey]
  cases sqlite3Malloc available (BitVec.ofNat 32 (data.length + msgIvlen)) <;> rfl

/-- There is no memory for a message that is too long. -/
theorem length_lt_of_sqlite3Malloc {n : ℕ} (hn : n < 2 ^ 32)
    (h : sqlite3Malloc available (BitVec.ofNat 32 n) = true) : n < 0x7fffff00 := by
  unfold sqlite3Malloc at h
  simp only [Bool.and_eq_true, decide_eq_true_iff] at h
  obtain ⟨⟨hpos, hlt⟩, -⟩ := h
  rw [BitVec.toInt_eq_toNat_cond, BitVec.toNat_ofNat, Nat.mod_eq_of_lt hn] at hpos hlt
  split_ifs at hpos hlt <;> omega

theorem aergoliteMsgDecrypt_append (hcipher : dec.iCipher ≠ .unset)
    (hkey : dec.hReadKey = some hKey) (hlength : data.length < 2 ^ 32) :
    aergoliteMsgDecrypt (some dec) (iv.toList ++ data) (data.length + msgIvlen : ℕ) counter
      = some (codecCrypt dec.iCipher dec.iRounds hKey iv.toList data counter, (data.length : ℤ)) := by
  have hsize : ((data.length + msgIvlen : ℕ) : ℤ) - msgIvlen = data.length := by omega
  have hlen : (((data.length : ℤ) % 2 ^ 32)).toNat = data.length := by omega
  have hdrop : (iv.toList ++ data).drop msgIvlen = data := List.drop_left' Vector.length_toList
  have htake : (iv.toList ++ data).take msgIvlen = iv.toList :=
    List.take_left' Vector.length_toList
  unfold aergoliteMsgDecrypt
  dsimp only
  rw [if_neg hcipher, hsize, hlen, hdrop, htake, if_neg (Nat.lt_irrefl _), hkey, List.take_length,
    List.drop_length, Option.map_some, List.append_nil]

end message

/-- **The codec decrypts what it encrypted.**  A page that is loaded holds what it held when it
was stored, and its header is stored as it is.  A message is decrypted to what was encrypted, and
it is encrypted whenever there is memory for it. -/
theorem codec_decrypts_encrypted :
    (∀ (enc dec : CryptBlock) (mode mode' : ℕ) (iv iv' : Vector UInt8 ivlen) (pgno : UInt32)
        (page : Bytes),
      enc.Agree dec → (mode = 6 ∨ mode = 7) → (mode' = 0 ∨ mode' = 2 ∨ mode' = 3) →
      enc.encryptKey mode = dec.hReadKey → page.length = enc.dwPageSize →
      page.length = dec.dwPageSize → 512 ≤ page.length →
      let stored := sqlite3Codec iv enc page pgno mode
      let loaded := sqlite3Codec iv' dec stored pgno mode'
      loaded.length = page.length ∧ payload loaded = payload page ∧
        stored.take (pageOffset pgno) = page.take (pageOffset pgno)) ∧
    (∀ (enc dec : CryptBlock) (hKey : CryptKey) (available : ℕ → Bool) (fresh : Bytes)
        (iv : Vector UInt8 msgIvlen) (data : Bytes) (counter : UInt32),
      enc.Agree dec → enc.iCipher ≠ .unset → enc.hReadKey = some hKey →
      dec.hReadKey = some hKey → data.length < 2 ^ 31 →
      (∀ message, aergoliteMsgEncrypt available fresh iv (some enc) data counter
          = some (some message) →
        aergoliteMsgDecrypt (some dec) message message.length counter
          = some (data, (data.length : ℤ))) ∧
      (sqlite3Malloc available (BitVec.ofNat 32 (data.length + msgIvlen)) = true →
        ∃ message, aergoliteMsgEncrypt available fresh iv (some enc) data counter
          = some (some message))) := by
  constructor
  · intro enc dec mode mode' iv iv' pgno page hagree hmode hmode' hkeys hsize hsize' hpage
    dsimp only
    cases hkey : dec.hReadKey with
    | none =>
      rw [hkey] at hkeys
      rw [sqlite3Codec_encrypt_none hmode hkeys, sqlite3Codec_decrypt_none hmode' hkey]
      exact ⟨rfl, rfl, rfl⟩
    | some hKey =>
      rw [hkey] at hkeys
      have hoffset := pageOffset_le pgno
      rw [sqlite3Codec_sqlite3Codec hagree hmode hmode' hkeys hkey hsize hsize' hpage,
        sqlite3Codec_encrypt hmode hkeys hsize]
      refine ⟨?_, payload_append _ _, ?_⟩
      · have hiv : ivlen = 8 := rfl
        unfold payload
        rw [List.length_append, List.length_take, Vector.length_toList]
        omega
      · exact List.take_left' (by rw [List.length_take]; omega)
  · intro enc dec hKey available fresh iv data counter hagree hcipher hkey hkey' hlength
    have hiv : msgIvlen = 4 := rfl
    rw [aergoliteMsgEncrypt_of_available hcipher hkey]
    constructor
    · intro message hmessage
      have hmessage := Option.some.inj hmessage
      split_ifs at hmessage with hmalloc
      have hcrypt := length_codecCrypt enc.iCipher enc.iRounds hKey iv.toList data counter
      obtain rfl := Option.some.inj hmessage
      have hsum : (iv.toList ++ codecCrypt enc.iCipher enc.iRounds hKey iv.toList data
          counter).length = (codecCrypt enc.iCipher enc.iRounds hKey iv.toList data
            counter).length + msgIvlen := by
        rw [List.length_append, Vector.length_toList, Nat.add_comm]
      rw [hsum, aergoliteMsgDecrypt_append (by rw [hagree.iCipher]; exact hcipher) hkey'
        (by omega), hagree.iCipher, hagree.iRounds, codecCrypt_codecCrypt, hcrypt]
    · intro hmalloc
      exact ⟨_, by rw [if_pos hmalloc]⟩

/-- The first page of a file, and a message of three bytes. -/
theorem codec_decrypts_encrypted_chacha :
    let block : CryptBlock :=
      ⟨512, .chacha, 20, some ⟨Vector.replicate 256 0, Vector.replicate 32 7⟩,
        some ⟨Vector.replicate 256 0, Vector.replicate 32 7⟩⟩
    let iv : Vector UInt8 ivlen := #v[1, 2, 3, 4, 5, 6, 7, 8]
    payload (sqlite3Codec iv block (sqlite3Codec iv block (List.replicate 512 9) 1 6) 1 3)
        = payload (List.replicate 512 9) ∧
      ∃ message, aergoliteMsgEncrypt (fun _ => true) [] #v[1, 2, 3, 4] (some block) [1, 2, 3]
          0x4329017E = some (some message) ∧
        aergoliteMsgDecrypt (some block) message message.length 0x4329017E
          = some ([1, 2, 3], 3) := by
  intro block iv
  have hpage := codec_decrypts_encrypted.1 block block 6 3 iv iv 1 (List.replicate 512 9)
    ⟨rfl, rfl⟩ (.inl rfl) (.inr (.inr rfl)) rfl List.length_replicate List.length_replicate
    (Nat.le_of_eq List.length_replicate.symm)
  have hmessage := codec_decrypts_encrypted.2 block block _ (fun _ => true) [] #v[1, 2, 3, 4]
    [1, 2, 3] 0x4329017E ⟨rfl, rfl⟩ nofun rfl rfl (by decide)
  obtain ⟨message, hencrypt⟩ := hmessage.2 (by decide)
  exact ⟨hpage.2.1, message, hencrypt, hmessage.1 message hencrypt⟩

end Core
end AergoLite
