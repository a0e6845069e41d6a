/-
# The key of a file

`core/codec.c`: `sqlite3_rekey_v2` rewrites all pages of a file in one transaction, with the old
key as the read key and the new one as the write key; a file that is not encrypted has no read
key, and one that is decrypted gets no write key.  If the transaction fails both keys are the old
one again.  `sqlite3CodecAttach` opens a file with a key.

Only the bytes of a page before the reserved ones are kept (`blockSize`): the others hold the `iv`
while the file is encrypted.  After every run of writes, changes of the cipher and of the key,
whether they succeed or fail, and of connections that open the file with its key, what is read of
a page is what a plain file holds, and each page is stored as the present key encrypts it
(`codec_refines_plain`).

A page of the file is the one a transaction of this connection sees, whether it is in the log or
in the file itself.  `sqlite3GetInt32` is a parameter, and so is whether there is memory and how
the transaction ends.
-/

import AergoLite.Core.Codec
import AergoLite.Core.Xrc4
import AergoLite.Library.Transition
import Mathlib.Logic.Function.Basic

namespace AergoLite
namespace Core

open Transition

/-- `struct Pager`, as far as the codec goes. -/
structure CodecPager where
  pageSize : ℕ
  nReserve : ℕ
  iCipher : Cipher
  iRounds : ℤ
  codec : Option CryptBlock

/-- The bytes of a page that are not reserved. -/
def CodecPager.blockSize (pager : CodecPager) : ℕ := pager.pageSize - pager.nReserve

/-- `CreateCryptBlock`, where there is memory. -/
def createCryptBlock (pager : CodecPager) (hKey : Option CryptKey) : CryptBlock where
  dwPageSize := pager.pageSize
  iCipher := pager.iCipher
  iRounds := pager.iRounds
  hReadKey := hKey
  hWriteKey := hKey

/-- `DeriveKey`; no key is an empty one. -/
def deriveKey (iCipher : Cipher) (memory : Bool) (pKey : Bytes) :
    Except Text (Option CryptKey) :=
  if pKey = [] then .ok none
  else if memory = false then .error "no memory".toList
  else match iCipher with
  | .xrc4 =>
    -- the key is not empty
    .ok (some ⟨(xrc4Init pKey (Vector.replicate 256 0)).getD (Vector.replicate 256 0),
      Vector.replicate 32 0⟩)
  | .chacha =>
    if h : pKey.length = 32 then .ok (some ⟨Vector.replicate 256 0, ⟨pKey.toArray, h⟩⟩)
    else .error "The key for ChaCha must have 32 bytes".toList
  | .unset => .error ("The cipher was not set. Use 'cipher=...' on URI or the ".toList ++
      "'PRAGMA cipher=...' command".toList)

/-- `sqlite3_set_cipher`: the error, if any, and the pager. -/
def sqlite3SetCipher (getInt32 : Text → Option ℤ) (pCipher : Text) (pager : CodecPager) :
    Option Text × CodecPager :=
  if pager.codec.isSome then (some "the database is already encrypted".toList, pager)
  else if pCipher.map Char.toLower = "xrc4".toList then (none, { pager with iCipher := .xrc4 })
  else if (pCipher.take 6).map Char.toLower = "chacha".toList then
    match getInt32 (pCipher.drop 6) with
    | none => (some "you must inform the number of rounds. eg: chacha8".toList, pager)
    | some iRounds =>
      -- the number is stored before it is checked
      let pager := { pager with iRounds }
      if iRounds ≤ 0 ∨ iRounds % 2 = 1 then
        (some "the number of rounds must be a positive even number".toList, pager)
      else (none, { pager with iCipher := .chacha })
  else (some "cipher not recognized".toList, pager)

/-- A file, with the pager of the connection that has opened it.  `key` is not in the source: it
is the key that was attached or set last. -/
structure CodecFile where
  pager : CodecPager
  nPage : ℕ
  pages : ℕ → Bytes
  key : Bytes

/-- A page is written. -/
def CodecPager.store (pager : CodecPager) (iv : Vector UInt8 ivlen) (n : ℕ) (data : Bytes) :
    Bytes :=
  match pager.codec with
  | none => data
  | some pBlock => sqlite3Codec iv pBlock data (.ofNat n) 6

/-- A page is loaded. -/
def CodecPager.load (pager : CodecPager) (n : ℕ) (data : Bytes) : Bytes :=
  match pager.codec with
  | none => data
  | some pBlock => sqlite3Codec (Vector.replicate ivlen 0) pBlock data (.ofNat n) 3

/-- `sqlite3CodecAttach`, of the main database: the pager with the codec. -/
def sqlite3CodecAttach (memory : Bool × Bool) (nPage : ℕ) (pKey : Bytes) (pager : CodecPager) :
    Except Rc CodecPager :=
  if pKey = [] then .ok pager
  else match deriveKey pager.iCipher memory.1 pKey with
  | .error _ => .error .error
  | .ok hKey =>
    -- the reserved bytes of a file with pages are fixed
    if pager.nReserve ≠ ivlen ∧ nPage ≠ 0 then .error .error
    else if memory.2 = false then .error .nomem
    else
      let pager := { pager with nReserve := ivlen }
      .ok { pager with codec := some (createCryptBlock pager hKey) }

/-- The block that `sqlite3_rekey_v2` works with. -/
def rekeyBlock (pager : CodecPager) (memory : Bool) (hKey : Option CryptKey) :
    Except Rc CryptBlock :=
  match pager.codec with
  | none =>
    if pager.nReserve ≠ ivlen then .error .error
    else if memory = false then .error .nomem
    else .ok { createCryptBlock pager hKey with hReadKey := none }
  | some pBlock => .ok { pBlock with hWriteKey := hKey }

/-- The pages that are loaded with the read key and written with the write key. -/
def rekeyPages (nSkip : ℕ) (ivs : ℕ → Vector UInt8 ivlen) (pBlock : CryptBlock) (nPage : ℕ)
    (pages : ℕ → Bytes) (n : ℕ) : Bytes :=
  if 1 ≤ n ∧ n ≤ nPage ∧ n ≠ nSkip then
    sqlite3Codec (ivs n) pBlock
      (sqlite3Codec (Vector.replicate ivlen 0) pBlock (pages n) (.ofNat n) 3) (.ofNat n) 6
  else pages n

/-- A codec without keys is removed. -/
def CodecPager.settle (pager : CodecPager) (pBlock : CryptBlock) : CodecPager :=
  { pager with
    codec := if pBlock.hReadKey.isNone ∧ pBlock.hWriteKey.isNone then none else some pBlock }

/-- `sqlite3_rekey_v2`; `commit` is how the transaction ends, and `nSkip` is `PAGER_MJ_PGNO`. -/
def sqlite3RekeyV2 (nSkip : ℕ) (pKey : Bytes) (memory : Bool × Bool) (commit : Rc)
    (ivs : ℕ → Vector UInt8 ivlen) (s : CodecFile) : Rc × CodecFile :=
  match deriveKey s.pager.iCipher memory.1 pKey with
  | .error _ => (.error, s)
  | .ok hKey =>
    if s.pager.codec.isNone ∧ hKey.isNone then (.ok, s)
    else match rekeyBlock s.pager memory.2 hKey with
    | .error rc => (rc, s)
    | .ok pBlock =>
      if commit = .ok then
        (.ok, { s with
          pager := s.pager.settle { pBlock with hReadKey := pBlock.hWriteKey }
          pages := rekeyPages nSkip ivs pBlock s.nPage s.pages
          key := pKey })
      else (commit, { s with pager := s.pager.settle { pBlock with hWriteKey := pBlock.hReadKey } })

namespace CodecFile

/-- What is done with a file. -/
inductive Action
  | setCipher (pCipher : Text)
  /-- A page is written, and the transaction is committed. -/
  | write (n : ℕ) (data : Bytes) (iv : Vector UInt8 ivlen)
  | truncate (nPage : ℕ)
  | rekey (pKey : Bytes) (memory : Bool × Bool) (commit : Rc) (ivs : ℕ → Vector UInt8 ivlen)
  /-- The connection is closed, and another one opens the file. -/
  | opened (pCipher : Option Text) (pKey : Bytes) (memory : Bool × Bool)

section step

variable (getInt32 : Text → Option ℤ) (nSkip : ℕ)

/-- The pager of a connection with a cipher, or none. -/
def openPager (pCipher : Option Text) (pager : CodecPager) : CodecPager :=
  let pager := { pager with iCipher := .unset, iRounds := 0, codec := none }
  match pCipher with
  | none => pager
  | some pCipher => (sqlite3SetCipher getInt32 pCipher pager).2

/-- What happens then.  A file with pages is opened with the cipher and the key it has. -/
def step (s : CodecFile) : Action → Option CodecFile
  | .setCipher pCipher => some { s with pager := (sqlite3SetCipher getInt32 pCipher s.pager).2 }
  | .write n data iv =>
    if 1 ≤ n ∧ n ≠ nSkip ∧ (n ≤ s.nPage + 1 ∨ n = s.nPage + 2 ∧ s.nPage + 1 = nSkip) ∧
        data.length = s.pager.pageSize then
      some { s with
        nPage := max s.nPage n
        pages := Function.update s.pages n (s.pager.store iv n data) }
    else none
  | .truncate nPage => if nPage ≤ s.nPage then some { s with nPage } else none
  | .rekey pKey memory commit ivs => some (sqlite3RekeyV2 nSkip pKey memory commit ivs s).2
  | .opened pCipher pKey memory =>
    match sqlite3CodecAttach memory s.nPage pKey (openPager getInt32 pCipher s.pager) with
    | .error _ => none
    | .ok pager =>
      if s.nPage = 0 ∨ pKey = s.key ∧ s.pager.codec.all fun pBlock =>
          pager.iCipher == pBlock.iCipher && pager.iRounds == pBlock.iRounds then
        some { s with
          pager
          key := pKey }
      else none

end step

/-- What is read of a page. -/
def read (s : CodecFile) (n : ℕ) : Bytes := s.pager.load n (s.pages n)

/-- A file that is not encrypted. -/
structure Fresh (nSkip : ℕ) (s : CodecFile) : Prop where
  pageSize : 512 ≤ s.pager.pageSize
  codec : s.pager.codec = none
  key : s.key = []
  length : ∀ n, 1 ≤ n → n ≤ s.nPage → n ≠ nSkip → (s.pages n).length = s.pager.pageSize

end CodecFile

/-! ## A plain file -/

/-- A file whose pages are stored as they are. -/
structure PlainFile where
  nPage : ℕ
  pages : ℕ → Bytes

/-- Only writes are of concern. -/
def PlainFile.next (p : PlainFile) : CodecFile.Action → PlainFile
  | .write n data _ => ⟨max p.nPage n, Function.update p.pages n data⟩
  | .truncate nPage => ⟨nPage, p.pages⟩
  | _ => p

/-! ## Keys -/

theorem deriveKey_nil (iCipher : Cipher) (memory : Bool) :
    deriveKey iCipher memory [] = .ok none := if_pos rfl

theorem deriveKey_eq_none {iCipher : Cipher} {memory : Bool} {pKey : Bytes}
    (h : deriveKey iCipher memory pKey = .ok none) : pKey = [] := by
  by_contra hempty
  unfold deriveKey at h
  rw [if_neg hempty] at h
  by_cases hmemory : memory = false
  · rw [if_pos hmemory] at h
    simp at h
  rw [if_neg hmemory] at h
  cases iCipher with
  | xrc4 | unset => simp at h
  | chacha =>
      dsimp only at h
      split_ifs at h
      simp at h

/-- A key that is derived is the same wherever there is memory. -/
theorem deriveKey_memory {iCipher : Cipher} {memory : Bool} {pKey : Bytes} {hKey : Option CryptKey}
    (h : deriveKey iCipher memory pKey = .ok hKey) : deriveKey iCipher true pKey = .ok hKey := by
  unfold deriveKey at h ⊢
  by_cases hempty : pKey = []
  · rwa [if_pos hempty] at h ⊢
  rw [if_neg hempty] at h ⊢
  by_cases hmemory : memory = false
  · rw [if_pos hmemory] at h
    simp at h
  · rw [if_neg hmemory] at h
    rwa [if_neg (by decide)]

/-- `sqlite3_set_cipher` sets nothing else. -/
theorem sqlite3SetCipher_none (getInt32 : Text → Option ℤ) (pCipher : Text) {pager : CodecPager}
    (h : pager.codec = none) : ∃ iCipher iRounds,
      (sqlite3SetCipher getInt32 pCipher pager).2 = { pager with iCipher, iRounds } := by
  have hnot : ¬ pager.codec.isSome = true := by simp [h]
  unfold sqlite3SetCipher
  rw [if_neg hnot]
  split_ifs
  · exact ⟨_, _, rfl⟩
  · split
    · exact ⟨_, _, rfl⟩
    · dsimp only
      split_ifs
      all_goals exact ⟨_, _, rfl⟩
  · exact ⟨_, _, rfl⟩

/-! ## Pages -/

section pages

variable {enc dec : CryptBlock} {pager : CodecPager} {data : Bytes}

/-- What is loaded of a page that is stored, whether it is encrypted or not. -/
theorem sqlite3Codec_reload (hagree : enc.Agree dec) (hkey : dec.hReadKey = enc.hWriteKey)
    (hsize : data.length = enc.dwPageSize) (hsize' : data.length = dec.dwPageSize)
    (hpage : 512 ≤ data.length) (iv iv' : Vector UInt8 ivlen) (pgno : UInt32) :
    (sqlite3Codec iv' dec (sqlite3Codec iv enc data pgno 6) pgno 3).length = data.length ∧
      payload (sqlite3Codec iv' dec (sqlite3Codec iv enc data pgno 6) pgno 3) = payload data := by
  cases hread : dec.hReadKey with
  | none =>
      have hwrite : enc.encryptKey 6 = none := hkey.symm.trans hread
      rw [sqlite3Codec_encrypt_none (.inl rfl) hwrite,
        sqlite3Codec_decrypt_none (.inr (.inr rfl)) hread]
      exact ⟨rfl, rfl⟩
  | some hKey =>
      have hwrite : enc.encryptKey 6 = some hKey := hkey.symm.trans hread
      rw [sqlite3Codec_sqlite3Codec hagree (.inl rfl) (.inr (.inr rfl)) hwrite hread hsize hsize'
        hpage]
      refine ⟨?_, payload_append _ _⟩
      have hiv : ivlen = 8 := rfl
      unfold payload
      rw [List.length_append, List.length_take, Vector.length_toList]
      omega

/-- The codec of a pager has one key, and the reserved bytes are its own. -/
structure CodecPager.Sealed (pager : CodecPager) (pKey : Bytes) : Prop where
  pageSize : 512 ≤ pager.pageSize
  block : ∀ pBlock ∈ pager.codec, pager.nReserve = ivlen ∧ ∃ hKey,
    pBlock = createCryptBlock pager (some hKey) ∧
      deriveKey pager.iCipher true pKey = .ok (some hKey)
  key : pager.codec = none → pKey = []

/-- What is loaded of a page that the pager stores. -/
theorem CodecPager.Sealed.load_store {pKey : Bytes} (h : pager.Sealed pKey)
    (hsize : data.length = pager.pageSize) (iv : Vector UInt8 ivlen) (n : ℕ) :
    (pager.load n (pager.store iv n data)).take pager.blockSize = data.take pager.blockSize := by
  have hpage := h.pageSize
  unfold load store
  cases hcodec : pager.codec with
  | none => rfl
  | some pBlock =>
      obtain ⟨hreserve, hKey, rfl, -⟩ := h.block pBlock hcodec
      obtain ⟨hlength, hpayload⟩ := @sqlite3Codec_reload (createCryptBlock pager (some hKey)) _ data
        ⟨rfl, rfl⟩ rfl hsize hsize (by omega) iv (Vector.replicate ivlen 0) (.ofNat n)
      unfold payload at hpayload
      rw [hlength, hsize] at hpayload
      unfold blockSize
      rw [hreserve]
      exact hpayload

/-- The block that the pages are written with: its read key is the old key, or there was no
codec. -/
theorem rekeyBlock_spec {pKey : Bytes} (h : pager.Sealed pKey) {memory : Bool}
    {hKey : Option CryptKey} {pBlock : CryptBlock}
    (hblock : rekeyBlock pager memory hKey = .ok pBlock) : pager.nReserve = ivlen ∧ ∃ hReadKey,
      pBlock = { createCryptBlock pager hKey with hReadKey } ∧
        pager.codec = if hReadKey.isNone then none else some (createCryptBlock pager hReadKey) := by
  unfold rekeyBlock at hblock
  cases hcodec : pager.codec with
  | none =>
      rw [hcodec] at hblock
      dsimp only at hblock
      split_ifs at hblock with hreserve
      exact ⟨not_not.1 hreserve, none, (Except.ok.inj hblock).symm, rfl⟩
  | some old =>
      rw [hcodec] at hblock
      obtain ⟨hreserve, oldKey, rfl, -⟩ := h.block old hcodec
      exact ⟨hreserve, some oldKey, (Except.ok.inj hblock).symm, rfl⟩

/-- What is loaded with the read key of a page that is stored with it. -/
theorem rekey_load {hReadKey hKey : Option CryptKey} (hreserve : pager.nReserve = ivlen)
    (hcodec : pager.codec =
      if hReadKey.isNone then none else some (createCryptBlock pager hReadKey))
    (hsize : data.length = pager.pageSize) (hpage : 512 ≤ pager.pageSize)
    (iv iv' : Vector UInt8 ivlen) (n : ℕ) :
    (sqlite3Codec iv' { createCryptBlock pager hKey with hReadKey } (pager.store iv n data)
        (.ofNat n) 3).length = pager.pageSize ∧
      (sqlite3Codec iv' { createCryptBlock pager hKey with hReadKey } (pager.store iv n data)
        (.ofNat n) 3).take pager.blockSize = data.take pager.blockSize := by
  -- the page is stored as with the old key, or no key
  have hstore : pager.store iv n data =
      sqlite3Codec iv (createCryptBlock pager hReadKey) data (.ofNat n) 6 := by
    unfold CodecPager.store
    rw [hcodec]
    cases hReadKey <;> rfl
  obtain ⟨hlength, hpayload⟩ := @sqlite3Codec_reload (createCryptBlock pager hReadKey)
    { createCryptBlock pager hKey with hReadKey } data ⟨rfl, rfl⟩ rfl hsize hsize (by omega) iv iv'
    (.ofNat n)
  unfold payload at hpayload
  rw [hlength, hsize] at hpayload
  unfold CodecPager.blockSize
  rw [hstore, hreserve]
  exact ⟨hlength.trans hsize, hpayload⟩

end pages

/-! ## Steps -/

namespace CodecFile

variable {getInt32 : Text → Option ℤ} {nSkip : ℕ} {s t : CodecFile} {p : PlainFile}

/-- Each page is stored as the present key encrypts what the plain file holds. -/
structure Holds (nSkip : ℕ) (s : CodecFile) (p : PlainFile) : Prop where
  sealed : s.pager.Sealed s.key
  nPage : p.nPage = s.nPage
  pages : ∀ n, 1 ≤ n → n ≤ s.nPage → n ≠ nSkip → ∃ data iv, data.length = s.pager.pageSize ∧
    s.pages n = s.pager.store iv n data ∧
      data.take s.pager.blockSize = (p.pages n).take s.pager.blockSize

/-- The cipher is set while there is no key. -/
theorem Holds.setCipher (h : s.Holds nSkip p) (pCipher : Text) :
    ({ s with pager := (sqlite3SetCipher getInt32 pCipher s.pager).2 } : CodecFile).Holds nSkip
      p := by
  cases hcodec : s.pager.codec with
  | some pBlock =>
      have hsame : (sqlite3SetCipher getInt32 pCipher s.pager).2 = s.pager := by
        unfold sqlite3SetCipher
        rw [hcodec, if_pos (Option.isSome_some)]
      rw [hsame]
      exact h
  | none =>
      obtain ⟨iCipher, iRounds, heq⟩ := sqlite3SetCipher_none getInt32 pCipher hcodec
      rw [heq]
      refine ⟨⟨h.sealed.pageSize, fun pBlock hblock => ?_, h.sealed.key⟩, h.nPage,
        fun n hpos hle hne => ?_⟩
      · simp [hcodec] at hblock
      · obtain ⟨data, iv, hsize, hstored, hdata⟩ := h.pages n hpos hle hne
        refine ⟨data, iv, hsize, hstored.trans ?_, hdata⟩
        unfold CodecPager.store
        rw [hcodec]

/-- A page is written. -/
theorem Holds.write (h : s.Holds nSkip p) {n : ℕ} {data : Bytes} (iv : Vector UInt8 ivlen)
    (hnext : n ≤ s.nPage + 1 ∨ n = s.nPage + 2 ∧ s.nPage + 1 = nSkip)
    (hsize : data.length = s.pager.pageSize) :
    ({ s with
      nPage := max s.nPage n
      pages := Function.update s.pages n (s.pager.store iv n data) } : CodecFile).Holds nSkip
      (p.next (.write n data iv)) := by
  refine ⟨h.sealed, congrArg (max · n) h.nPage, fun m hpos hle hne => ?_⟩
  by_cases hm : m = n
  · subst hm
    refine ⟨data, iv, hsize, Function.update_self .., ?_⟩
    exact congrArg (List.take _) (Function.update_self m data p.pages).symm
  · have hold : m ≤ s.nPage := by
      change m ≤ max s.nPage n at hle
      omega
    obtain ⟨data', iv', hsize', hstored, hdata⟩ := h.pages m hpos hold hne
    have hother : Function.update p.pages n data m = p.pages m := Function.update_of_ne hm ..
    exact ⟨data', iv', hsize', (Function.update_of_ne hm ..).trans hstored,
      hdata.trans (congrArg (List.take _) hother.symm)⟩

/-- **A change of the key.** -/
theorem Holds.rekey (h : s.Holds nSkip p) (pKey : Bytes) (memory : Bool × Bool) (commit : Rc)
    (ivs : ℕ → Vector UInt8 ivlen) :
    (sqlite3RekeyV2 nSkip pKey memory commit ivs s).2.Holds nSkip p := by
  unfold sqlite3RekeyV2
  cases hderive : deriveKey s.pager.iCipher memory.1 pKey with
  | error message => exact h
  | ok hKey =>
      dsimp only
      by_cases hplain : s.pager.codec.isNone ∧ hKey.isNone
      · rw [if_pos hplain]
        exact h
      rw [if_neg hplain]
      cases hblock : rekeyBlock s.pager memory.2 hKey with
      | error rc => exact h
      | ok pBlock =>
          dsimp only
          obtain ⟨hreserve, hReadKey, rfl, hcodec⟩ := rekeyBlock_spec h.sealed hblock
          by_cases hcommit : commit = .ok
          · rw [if_pos hcommit]
            have hsettled : s.pager.settle { createCryptBlock s.pager hKey with hReadKey := hKey } =
                { s.pager with
                  codec := if hKey.isNone then none
                    else some (createCryptBlock s.pager hKey) } := by
              unfold CodecPager.settle
              cases hKey <;> rfl
            refine ⟨⟨h.sealed.pageSize, fun new hnew => ⟨hreserve, ?_⟩, fun hnone => ?_⟩, h.nPage,
              fun n hpos hle hne => ?_⟩
            · change new ∈ (s.pager.settle { createCryptBlock s.pager hKey with
                hReadKey := hKey }).codec at hnew
              rw [hsettled] at hnew
              cases hKey with
              | none => simp at hnew
              | some key => exact ⟨key, (Option.some.inj hnew).symm, deriveKey_memory hderive⟩
            · change (s.pager.settle { createCryptBlock s.pager hKey with
                hReadKey := hKey }).codec = none at hnone
              rw [hsettled] at hnone
              cases hKey with
              | none => exact deriveKey_eq_none hderive
              | some key => simp at hnone
            · obtain ⟨data, iv, hsize, hstored, hdata⟩ := h.pages n hpos hle hne
              obtain ⟨hlength, hloaded⟩ := @rekey_load s.pager data hReadKey hKey hreserve hcodec
                hsize h.sealed.pageSize iv (Vector.replicate ivlen 0) n
              refine ⟨_, ivs n, hlength, ?_, hloaded.trans hdata⟩
              change rekeyPages nSkip ivs _ s.nPage s.pages n =
                (s.pager.settle { createCryptBlock s.pager hKey with hReadKey := hKey }).store
                  (ivs n) n _
              rw [hsettled, rekeyPages, if_pos ⟨hpos, hle, hne⟩, hstored]
              cases hKey <;> rfl
          · -- both keys are the old one
            rw [if_neg hcommit]
            have hsettled : s.pager.settle { createCryptBlock s.pager hReadKey with hReadKey } =
                { s.pager with codec := s.pager.codec } := by
              unfold CodecPager.settle
              rw [hcodec]
              cases hReadKey <;> rfl
            have heq : ({ s with
                pager := s.pager.settle { createCryptBlock s.pager hReadKey with hReadKey } } :
                CodecFile) = s := by
              rw [hsettled]
            change ({ s with
              pager := s.pager.settle { createCryptBlock s.pager hReadKey with hReadKey } } :
              CodecFile).Holds nSkip p
            rw [heq]
            exact h

/-- **The file is opened** with its cipher and its key. -/
theorem Holds.opened (h : s.Holds nSkip p) {pCipher : Option Text} {pKey : Bytes}
    {memory : Bool × Bool} {pager : CodecPager}
    (hattach : sqlite3CodecAttach memory s.nPage pKey (openPager getInt32 pCipher s.pager) =
      .ok pager)
    (hsame : s.nPage = 0 ∨ pKey = s.key ∧ (s.pager.codec.all fun pBlock =>
      pager.iCipher == pBlock.iCipher && pager.iRounds == pBlock.iRounds) = true) :
    ({ s with
      pager
      key := pKey } : CodecFile).Holds nSkip p := by
  -- the pager of the new connection, before the key is attached
  have hopen : ∃ iCipher iRounds, openPager getInt32 pCipher s.pager =
      { s.pager with
        iCipher
        iRounds
        codec := none } := by
    unfold openPager
    cases pCipher with
    | none => exact ⟨_, _, rfl⟩
    | some pCipher =>
        obtain ⟨iCipher, iRounds, heq⟩ := sqlite3SetCipher_none getInt32 pCipher
          (show ({ s.pager with iCipher := .unset, iRounds := 0, codec := none } :
            CodecPager).codec = none from rfl)
        exact ⟨iCipher, iRounds, heq⟩
  obtain ⟨iCipher, iRounds, heq⟩ := hopen
  rw [heq] at hattach
  unfold sqlite3CodecAttach at hattach
  by_cases hempty : pKey = []
  · rw [if_pos hempty] at hattach
    obtain rfl := Except.ok.inj hattach
    refine ⟨⟨h.sealed.pageSize, fun pBlock hblock => ?_, fun _ => hempty⟩, h.nPage,
      fun n hpos hle hne => ?_⟩
    · simp at hblock
    · obtain ⟨data, iv, hsize, hstored, hdata⟩ := h.pages n hpos hle hne
      refine ⟨data, iv, hsize, hstored.trans ?_, hdata⟩
      have hsome : s.nPage ≠ 0 := Nat.ne_of_gt (Nat.lt_of_lt_of_le hpos hle)
      obtain ⟨hkey, -⟩ := hsame.resolve_left hsome
      have hnone : s.pager.codec = none := by
        refine Option.eq_none_iff_forall_not_mem.2 fun pBlock hblock => ?_
        obtain ⟨-, hKey, -, hderive⟩ := h.sealed.block pBlock hblock
        rw [← hkey, hempty, deriveKey_nil] at hderive
        simp at hderive
      unfold CodecPager.store
      rw [hnone]
  rw [if_neg hempty] at hattach
  cases hderive : deriveKey iCipher memory.1 pKey with
  | error message => simp [hderive] at hattach
  | ok hKey =>
      simp only [hderive] at hattach
      split_ifs at hattach with hfixed hmemory
      obtain rfl := Except.ok.inj hattach
      cases hKey with
      | none => exact absurd (deriveKey_eq_none hderive) hempty
      | some key =>
          refine ⟨⟨h.sealed.pageSize, fun pBlock hblock => ?_, fun hnone => ?_⟩, h.nPage,
            fun n hpos hle hne => ?_⟩
          · exact ⟨rfl, key, (Option.some.inj hblock).symm, deriveKey_memory hderive⟩
          · simp at hnone
          · -- the file has pages, and the key is that of the last connection
            have hsome : s.nPage ≠ 0 := Nat.ne_of_gt (Nat.lt_of_lt_of_le hpos hle)
            obtain ⟨hkey, hcipher⟩ := hsame.resolve_left hsome
            obtain ⟨data, iv, hsize, hstored, hdata⟩ := h.pages n hpos hle hne
            cases hcodec : s.pager.codec with
            | none => exact absurd (hkey.trans (h.sealed.key hcodec)) hempty
            | some pBlock =>
                obtain ⟨hreserve, oldKey, rfl, hold⟩ := h.sealed.block pBlock hcodec
                rw [hcodec, Option.all_some, Bool.and_eq_true, beq_iff_eq, beq_iff_eq] at hcipher
                obtain ⟨hsameCipher, hrounds⟩ : iCipher = s.pager.iCipher ∧
                  iRounds = s.pager.iRounds := hcipher
                have hnew := deriveKey_memory hderive
                rw [hkey, hsameCipher, hold] at hnew
                obtain rfl := Option.some.inj (Except.ok.inj hnew)
                refine ⟨data, iv, hsize, hstored.trans ?_, ?_⟩
                · unfold CodecPager.store
                  rw [hcodec, hsameCipher, hrounds]
                  rfl
                · unfold CodecPager.blockSize at hdata ⊢
                  rwa [hreserve] at hdata

/-- **One step** leaves what the plain file holds. -/
theorem Holds.step (h : s.Holds nSkip p) {a : Action}
    (hs : CodecFile.step getInt32 nSkip s a = some t) : t.Holds nSkip (p.next a) := by
  cases a with
  | setCipher pCipher =>
      obtain rfl := Option.some.inj hs
      exact h.setCipher pCipher
  | write n data iv =>
      unfold CodecFile.step at hs
      dsimp only at hs
      split_ifs at hs with hcheck
      obtain rfl := Option.some.inj hs
      exact h.write iv hcheck.2.2.1 hcheck.2.2.2
  | truncate nPage =>
      unfold CodecFile.step at hs
      dsimp only at hs
      split_ifs at hs with hle
      obtain rfl := Option.some.inj hs
      exact ⟨h.sealed, rfl, fun n hpos hn hne => h.pages n hpos (hn.trans hle) hne⟩
  | rekey pKey memory commit ivs =>
      obtain rfl := Option.some.inj hs
      exact h.rekey pKey memory commit ivs
  | opened pCipher pKey memory =>
      unfold CodecFile.step at hs
      dsimp only at hs
      split at hs
      · simp at hs
      · rename_i pager hattach
        split_ifs at hs with hsame
        obtain rfl := Option.some.inj hs
        exact h.opened hattach hsame

theorem Fresh.holds (h : s.Fresh nSkip) : s.Holds nSkip ⟨s.nPage, s.pages⟩ := by
  refine ⟨⟨h.pageSize, fun pBlock hblock => ?_, fun _ => h.key⟩, rfl, fun n hpos hle hne => ?_⟩
  · simp [h.codec] at hblock
  · refine ⟨s.pages n, Vector.replicate ivlen 0, h.length n hpos hle hne, ?_, rfl⟩
    unfold CodecPager.store
    rw [h.codec]

/-- **An encrypted file holds what a plain one does.**  After every run of writes, changes of the
cipher and of the key, which may fail, and of connections that open the file with its cipher and
its key, the file has as many pages as a plain one, what is read of each, up to the reserved bytes,
is what the plain one holds, and the page is stored as the present key encrypts it, or as it is if
there is none. -/
theorem codec_refines_plain (hs : s.Fresh nSkip) {actions : List Action}
    (hr : System.run (CodecFile.step getInt32 nSkip) s actions = some t) :
    let plain := actions.foldl PlainFile.next ⟨s.nPage, s.pages⟩
    plain.nPage = t.nPage ∧ ∀ n, 1 ≤ n → n ≤ t.nPage → n ≠ nSkip →
      (t.read n).take t.pager.blockSize = (plain.pages n).take t.pager.blockSize ∧
      ∃ data iv, t.pages n = t.pager.store iv n data ∧
        data.take t.pager.blockSize = (plain.pages n).take t.pager.blockSize := by
  have h := @System.simulates_of_run _ _ _ (CodecFile.step getInt32 nSkip) PlainFile.next
    (Holds nSkip) (fun h hs => h.step hs) _ _ _ _ hs.holds hr
  refine ⟨h.nPage, fun n hpos hle hne => ?_⟩
  obtain ⟨data, iv, hsize, hstored, hdata⟩ := h.pages n hpos hle hne
  refine ⟨?_, data, iv, hstored, hdata⟩
  unfold read
  rw [hstored, h.sealed.load_store hsize iv n, hdata]

/-! ## A file of one page -/

/-- A file whose page has reserved bytes. -/
def plainFile : CodecFile :=
  ⟨⟨512, 8, .unset, 0, none⟩, 1, fun _ => List.replicate 512 9, []⟩

/-- What `sqlite3GetInt32` reads of a digit. -/
def getDigit (z : Text) : Option ℤ :=
  if z = "8".toList then some 8 else if z = "0".toList then some 0 else none

/-- The key is set, a page is added, another connection opens the file, a change of the key fails,
and the file is decrypted. -/
def keyChanges : List Action :=
  [.setCipher "chacha8".toList,
    .rekey (List.replicate 32 7) (true, true) .ok fun _ => Vector.replicate ivlen 1,
    .write 2 (List.replicate 512 5) (Vector.replicate ivlen 2),
    .opened (some "chacha8".toList) (List.replicate 32 7) (true, true),
    .rekey (List.replicate 32 6) (true, true) .busy fun _ => Vector.replicate ivlen 3,
    .rekey [] (true, true) .ok fun _ => Vector.replicate ivlen 4]

/-- The first page holds what it held. -/
theorem codec_refines_plain_keyChanges :
    ∃ t, System.run (CodecFile.step getDigit 0) plainFile keyChanges = some t ∧
      (t.read 1).take 504 = List.replicate 504 9 := by
  have hrun : (System.run (CodecFile.step getDigit 0) plainFile keyChanges).any (fun t =>
      t.nPage == 2 && t.pager.blockSize == 504) = true := by decide +kernel
  obtain ⟨t, ht, hcheck⟩ := (Option.any_eq_true _ _).1 hrun
  rw [Bool.and_eq_true, beq_iff_eq, beq_iff_eq] at hcheck
  have hfresh : plainFile.Fresh 0 :=
    ⟨Nat.le_refl 512, rfl, rfl, fun _ _ _ _ => List.length_replicate⟩
  have hplain : ((keyChanges.foldl PlainFile.next ⟨plainFile.nPage, plainFile.pages⟩).pages 1).take
      504 = List.replicate 504 9 := by decide +kernel
  have hread := ((codec_refines_plain hfresh ht).2 1 (Nat.le_refl 1) (by omega) (by decide)).1
  rw [hcheck.2] at hread
  exact ⟨t, ht, hread.trans hplain⟩

/-- **A number of rounds that is refused is used**: the file is encrypted without rounds. -/
theorem rekey_refusedRounds :
    (System.run (CodecFile.step getDigit 0) plainFile [.setCipher "chacha8".toList,
        .setCipher "chacha0".toList, .rekey (List.replicate 32 7) (true, true) .ok
          fun _ => Vector.replicate ivlen 1]).map
      (fun t => t.pager.codec.map fun pBlock => (pBlock.iCipher, pBlock.iRounds)) =
        some (some (.chacha, 0)) ∧
    (sqlite3SetCipher getDigit "chacha0".toList plainFile.pager).1 =
      some "the number of rounds must be a positive even number".toList := by
  constructor <;> decide +kernel

end CodecFile

end Core
end AergoLite
