/-
# The ciphers

`core/chacha.c` and `core/xrc4.c`.  The key, the initialisation vector and the counter make a
keystream, which is combined with the data by exclusive or (`chachaEncrypt_eq_combine`,
`xrc4Crypt_eq_combine`): each of the ciphers decrypts what it encrypted, with the same function.
-/

import AergoLite.Library.StreamCipher
import AergoLite.Core.Basic
import Mathlib.Data.Int.Notation
import Mathlib.Tactic.SplitIfs

namespace AergoLite
namespace Core

/-! ## ChaCha -/

/-- `U8TO32_LITTLE`. -/
def u8to32Little (p : Bytes) (k : ℕ) : UInt32 :=
  (p.getD k 0).toUInt32 ||| ((p.getD (k + 1) 0).toUInt32 <<< 8) |||
    ((p.getD (k + 2) 0).toUInt32 <<< 16) ||| ((p.getD (k + 3) 0).toUInt32 <<< 24)

/-- `U32TO8_LITTLE`. -/
def u32to8Little (v : UInt32) : Bytes :=
  [v.toUInt8, (v >>> 8).toUInt8, (v >>> 16).toUInt8, (v >>> 24).toUInt8]

/-- `ROTL32`. -/
def rotl32 (v n : UInt32) : UInt32 := (v <<< n) ||| (v >>> (32 - n))

/-- `QUARTERROUND`. -/
def quarterround (a b c d : Fin 16) (x : Vector UInt32 16) : Vector UInt32 16 :=
  let x := x.set a (x[a] + x[b])
  let x := x.set d (rotl32 (x[d] ^^^ x[a]) 16)
  let x := x.set c (x[c] + x[d])
  let x := x.set b (rotl32 (x[b] ^^^ x[c]) 12)
  let x := x.set a (x[a] + x[b])
  let x := x.set d (rotl32 (x[d] ^^^ x[a]) 8)
  let x := x.set c (x[c] + x[d])
  x.set b (rotl32 (x[b] ^^^ x[c]) 7)

/-- The body of the loop of `ChaChaCore`. -/
def doubleround (x : Vector UInt32 16) : Vector UInt32 16 :=
  let x := quarterround 0 4 8 12 x
  let x := quarterround 1 5 9 13 x
  let x := quarterround 2 6 10 14 x
  let x := quarterround 3 7 11 15 x
  let x := quarterround 0 5 10 15 x
  let x := quarterround 1 6 11 12 x
  let x := quarterround 2 7 8 13 x
  quarterround 3 4 9 14 x

/-- `ChaChaCore`: the loop counts the rounds down by two, while they are positive. -/
def chachaCore (input : Vector UInt32 16) (numRounds : ℤ) : Bytes :=
  let x := doubleround^[((numRounds + 1) / 2).toNat] input
  (x.zipWith (· + ·) input).toList.flatMap u32to8Little

/-- `sigma`. -/
def sigma : Bytes := "A326oL1t3_r0CK5!".toList.map fun c => UInt8.ofNat c.toNat

/-- The begin of `chacha_encrypt`. -/
def chachaInput (key iv : Bytes) (counter : UInt32) : Vector UInt32 16 :=
  #v[u8to32Little sigma 0, u8to32Little sigma 4, u8to32Little sigma 8, u8to32Little sigma 12,
    u8to32Little key 0, u8to32Little key 4, u8to32Little key 8, u8to32Little key 12,
    u8to32Little key 16, u8to32Little key 20, u8to32Little key 24, u8to32Little key 28,
    counter,
    if 0 < iv.length then u8to32Little iv 0 else 0,
    if 4 < iv.length then u8to32Little iv 4 else 0,
    if 8 < iv.length then u8to32Little iv 8 else 0]

/-- The loop of `chacha_encrypt`, and the block that is not full after it. -/
def chachaLoop (rounds : ℤ) (input : Vector UInt32 16) (data : Bytes) : Bytes :=
  if 64 ≤ data.length then
    List.zipWith (· ^^^ ·) (data.take 64) (chachaCore input rounds) ++
      chachaLoop rounds (input.set 12 (input[12] + 1)) (data.drop 64)
  else if 0 < data.length then List.zipWith (· ^^^ ·) data (chachaCore input rounds)
  else []
  termination_by data.length
  decreasing_by rw [List.length_drop]; omega

/-- `chacha_encrypt`, and `chacha_decrypt`. -/
def chachaEncrypt (data key iv : Bytes) (counter : UInt32) (rounds : ℤ) : Bytes :=
  chachaLoop rounds (chachaInput key iv counter) data

/-! ## XRC4 -/

/-- The permutation of the bytes. -/
abbrev Sbox := Vector UInt8 256

/-- `SWAP(s[i], s[j])`. -/
def Sbox.swap (s : Sbox) (i j : UInt8) : Sbox :=
  (Vector.set s i.toFin (s.get j.toFin)).set j.toFin (s.get i.toFin)

/-- `xrc4_coprime`. -/
def xrc4Coprime (byte lastUsed : UInt8) : UInt8 :=
  let coprime := (if byte &&& 1 = 1 then byte else byte + 57) ^^^ 96
  if coprime = lastUsed then coprime + 2 else coprime

/-- `iv[j % ivlen]`, where the permutation stands for an `iv` that is not provided. -/
def xrc4Iv (iv : Bytes) (s : Sbox) (j : UInt8) : UInt8 :=
  if iv.length = 0 then s.get j.toFin else iv.getD (j.toNat % iv.length) 0

/-- The loop that swaps the permutation, using the `iv`. -/
def xrc4Setup (iv : Bytes) (increment : UInt8) : ℕ → UInt8 → UInt8 → Sbox → Sbox
  | 0, _, _, s => s
  | n + 1, i, j, s =>
    let i := i + increment
    let j := j + xrc4Iv iv s j + s.get i.toFin
    xrc4Setup iv increment n i j (s.swap i j)

/-- `i`, `j` and the permutation. -/
structure Xrc4State where
  i : UInt8
  j : UInt8
  s : Sbox

/-- One step of the loop that encrypts. -/
def Xrc4State.next (increment : UInt8) (state : Xrc4State) : Xrc4State :=
  let i := state.i + increment
  let j := state.j + state.s.get i.toFin
  ⟨i, j, state.s.swap i j⟩

/-- `s[(s[i] + s[j]) & 255]`. -/
def Xrc4State.byte (state : Xrc4State) : UInt8 :=
  state.s.get (state.s.get state.i.toFin + state.s.get state.j.toFin).toFin

/-- The loop that encrypts. -/
def xrc4Loop (increment : UInt8) : Xrc4State → Bytes → Bytes
  | _, [] => []
  | state, b :: data =>
    let state := state.next increment
    (b ^^^ state.byte) :: xrc4Loop increment state data

/-- `xrc4_crypt`.  The bytes of the counter are the first values of `i` and `j`. -/
def xrc4Crypt (data : Bytes) (sbox : Sbox) (iv : Bytes) (counter : UInt32) : Bytes :=
  let increment := xrc4Coprime (xrc4Iv iv sbox 0) 0
  let s := xrc4Setup iv increment 256 ((counter &&& 0xff0000) >>> 16).toUInt8
    ((counter &&& 0xff000000) >>> 24).toUInt8 sbox
  let i := (counter &&& 0xff).toUInt8
  let j := ((counter &&& 0xff00) >>> 8).toUInt8
  xrc4Loop (xrc4Coprime i increment) ⟨i, j, s⟩ data

/-! ## Keystreams -/

open StreamCipher

theorem xor_xor_byte (a k : UInt8) : a ^^^ k ^^^ k = a := by
  rw [UInt8.xor_assoc, UInt8.xor_self, UInt8.xor_zero]

theorem length_flatMap_u32to8Little (words : List UInt32) :
    (words.flatMap u32to8Little).length = 4 * words.length := by
  induction words with
  | nil => rfl
  | cons word words ih =>
    have hword : (u32to8Little word).length = 4 := rfl
    rw [List.flatMap_cons, List.length_append, ih, hword, List.length_cons]
    omega

theorem length_chachaCore (input : Vector UInt32 16) (rounds : ℤ) :
    (chachaCore input rounds).length = 64 := by
  unfold chachaCore
  rw [length_flatMap_u32to8Little, Vector.length_toList]

/-- The block of a counter that is so far from the first one. -/
def chachaBlock (rounds : ℤ) (input : Vector UInt32 16) (n : ℕ) : Bytes :=
  chachaCore (input.set 12 (input[12] + UInt32.ofNat n)) rounds

theorem chachaBlock_zero (rounds : ℤ) (input : Vector UInt32 16) :
    chachaBlock rounds input 0 = chachaCore input rounds := by
  show chachaCore (input.set 12 (input[12] + 0)) rounds = _
  rw [UInt32.add_zero, Vector.set_getElem_self]

theorem chachaBlock_succ (rounds : ℤ) (input : Vector UInt32 16) (n : ℕ) :
    chachaBlock rounds input (n + 1) = chachaBlock rounds (input.set 12 (input[12] + 1)) n := by
  unfold chachaBlock
  rw [Vector.set_set, Vector.getElem_set_self, UInt32.add_assoc, UInt32.add_comm 1,
    UInt32.ofNat_add]
  rfl

theorem chachaLoop_eq_combine (rounds : ℤ) (input : Vector UInt32 16) (data : Bytes) :
    chachaLoop rounds input data
      = combine (· ^^^ ·) (ofBlocks 64 (chachaBlock rounds input) 0) data := by
  have hblock : ∀ input, (chachaBlock rounds input 0).length = 64 := fun input =>
    length_chachaCore _ _
  induction input, data using chachaLoop.induct with
  | case1 input data hfull ih =>
    rw [chachaLoop, if_pos hfull, ih, ← chachaBlock_zero]
    calc _ = List.zipWith (· ^^^ ·) (data.take 64) (chachaBlock rounds input 0) ++
          combine (· ^^^ ·) (ofBlocks 64 (fun n => chachaBlock rounds input (n + 1)) 0)
            (data.drop 64) := by simp only [chachaBlock_succ]
      _ = _ := by
        rw [← combine_ofBlocks_append _ _ (by omega) (by simp [hfull]) (hblock input),
          List.take_append_drop]
  | case2 input data hfull hdata =>
    rw [chachaLoop, if_neg hfull, if_pos hdata, ← chachaBlock_zero,
      combine_ofBlocks_short _ _ (by omega) (hblock input)]
  | case3 input data hfull hdata =>
    have hnil : data = [] := List.length_eq_zero_iff.1 (by omega)
    rw [chachaLoop, if_neg hfull, if_neg hdata, hnil]
    rfl

/-- The keystream of `chacha_encrypt`. -/
def chachaKeystream (key iv : Bytes) (counter : UInt32) (rounds : ℤ) : ℕ → UInt8 :=
  ofBlocks 64 (chachaBlock rounds (chachaInput key iv counter)) 0

theorem chachaEncrypt_eq_combine (data key iv : Bytes) (counter : UInt32) (rounds : ℤ) :
    chachaEncrypt data key iv counter rounds
      = combine (· ^^^ ·) (chachaKeystream key iv counter rounds) data :=
  chachaLoop_eq_combine _ _ _

theorem xrc4Loop_eq_generate (increment : UInt8) (state : Xrc4State) (data : Bytes) :
    xrc4Loop increment state data
      = generate (· ^^^ ·) (Xrc4State.next increment) Xrc4State.byte state data := by
  induction data generalizing state with
  | nil => rfl
  | cons b data ih => rw [xrc4Loop, generate, ih]

/-- The keystream of `xrc4_crypt`. -/
def xrc4Keystream (sbox : Sbox) (iv : Bytes) (counter : UInt32) : ℕ → UInt8 :=
  let increment := xrc4Coprime (xrc4Iv iv sbox 0) 0
  let i := (counter &&& 0xff).toUInt8
  ofGenerator (Xrc4State.next (xrc4Coprime i increment)) Xrc4State.byte
    ⟨i, ((counter &&& 0xff00) >>> 8).toUInt8,
      xrc4Setup iv increment 256 ((counter &&& 0xff0000) >>> 16).toUInt8
        ((counter &&& 0xff000000) >>> 24).toUInt8 sbox⟩

theorem xrc4Crypt_eq_combine (data : Bytes) (sbox : Sbox) (iv : Bytes) (counter : UInt32) :
    xrc4Crypt data sbox iv counter = combine (· ^^^ ·) (xrc4Keystream sbox iv counter) data := by
  unfold xrc4Crypt
  rw [xrc4Loop_eq_generate, generate_eq_combine]
  rfl

end Core
end AergoLite
