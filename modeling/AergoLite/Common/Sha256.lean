/-
# SHA-256

`common/sha256.c`.  The context has a buffer of 64 bytes, which is not initialized, the number of
bytes in it, the number of bits that were compressed, and the state.  `sha256_update` counts the
bytes with an `unsigned int` up to a `size_t`, so from 2^32 bytes on it does not return; below,
`sha256` is the hash of the padded text, taken in blocks (`sha256_spec`), and two texts with one
hash are one text or a collision of `sha256_transform` (`eq_or_collides`).
-/

import AergoLite.Library.BlockHash
import Mathlib.Algebra.Order.Group.Nat
import Mathlib.Data.List.GetD
import Mathlib.Order.Basic

namespace AergoLite
namespace Common
namespace Sha256

open BlockHash

/-! ## The compression -/

/-- `kk` -/
def kk : List UInt32 :=
  [0x428a2f98, 0x71374491, 0xb5c0fbcf, 0xe9b5dba5, 0x3956c25b, 0x59f111f1, 0x923f82a4, 0xab1c5ed5,
    0xd807aa98, 0x12835b01, 0x243185be, 0x550c7dc3, 0x72be5d74, 0x80deb1fe, 0x9bdc06a7, 0xc19bf174,
    0xe49b69c1, 0xefbe4786, 0x0fc19dc6, 0x240ca1cc, 0x2de92c6f, 0x4a7484aa, 0x5cb0a9dc, 0x76f988da,
    0x983e5152, 0xa831c66d, 0xb00327c8, 0xbf597fc7, 0xc6e00bf3, 0xd5a79147, 0x06ca6351, 0x14292967,
    0x27b70a85, 0x2e1b2138, 0x4d2c6dfc, 0x53380d13, 0x650a7354, 0x766a0abb, 0x81c2c92e, 0x92722c85,
    0xa2bfe8a1, 0xa81a664b, 0xc24b8b70, 0xc76c51a3, 0xd192e819, 0xd6990624, 0xf40e3585, 0x106aa070,
    0x19a4c116, 0x1e376c08, 0x2748774c, 0x34b0bcb5, 0x391c0cb3, 0x4ed8aa4a, 0x5b9cca4f, 0x682e6ff3,
    0x748f82ee, 0x78a5636f, 0x84c87814, 0x8cc70208, 0x90befffa, 0xa4506ceb, 0xbef9a3f7, 0xc67178f2]

/-- `ROTRIGHT` -/
def rotright (a b : UInt32) : UInt32 := (a >>> b) ||| (a <<< (32 - b))

/-- `CH` -/
def ch (x y z : UInt32) : UInt32 := (x &&& y) ^^^ (~~~x &&& z)

/-- `MAJ` -/
def maj (x y z : UInt32) : UInt32 := (x &&& y) ^^^ (x &&& z) ^^^ (y &&& z)

/-- `EP0` -/
def ep0 (x : UInt32) : UInt32 := rotright x 2 ^^^ rotright x 13 ^^^ rotright x 22

/-- `EP1` -/
def ep1 (x : UInt32) : UInt32 := rotright x 6 ^^^ rotright x 11 ^^^ rotright x 25

/-- `SIG0` -/
def sig0 (x : UInt32) : UInt32 := rotright x 7 ^^^ rotright x 18 ^^^ (x >>> 3)

/-- `SIG1` -/
def sig1 (x : UInt32) : UInt32 := rotright x 17 ^^^ rotright x 19 ^^^ (x >>> 10)

/-- A word of a block. -/
def blockWord (data : List UInt8) (j : ℕ) : UInt32 :=
  ((data.getD j 0).toUInt32 <<< 24) ||| ((data.getD (j + 1) 0).toUInt32 <<< 16) |||
    ((data.getD (j + 2) 0).toUInt32 <<< 8) ||| (data.getD (j + 3) 0).toUInt32

/-- The second loop over `m`, from the word `m.length` on. -/
def extendWords : ℕ → List UInt32 → List UInt32
  | 0, m => m
  | n + 1, m =>
    let i := m.length
    extendWords n (m ++ [sig1 (m.getD (i - 2) 0) + m.getD (i - 7) 0 + sig0 (m.getD (i - 15) 0) +
      m.getD (i - 16) 0])

/-- `m` -/
def words (data : List UInt8) : List UInt32 :=
  extendWords 48 ((List.range 16).map fun i => blockWord data (4 * i))

/-- The variables of the rounds. -/
structure Working where
  a : UInt32
  b : UInt32
  c : UInt32
  d : UInt32
  e : UInt32
  f : UInt32
  g : UInt32
  h : UInt32
  deriving DecidableEq, Repr

/-- A round. -/
def Working.round (w : Working) (k m : UInt32) : Working :=
  let t1 := w.h + ep1 w.e + ch w.e w.f w.g + k + m
  let t2 := ep0 w.a + maj w.a w.b w.c
  ⟨t1 + t2, w.a, w.b, w.c, w.d + t1, w.e, w.f, w.g⟩

/-- `sha256_transform`, on `ctx->state`. -/
def sha256Transform (state : Working) (data : List UInt8) : Working :=
  let w := (kk.zip (words data)).foldl (fun w km => w.round km.1 km.2) state
  ⟨state.a + w.a, state.b + w.b, state.c + w.c, state.d + w.d, state.e + w.e, state.f + w.f,
    state.g + w.g, state.h + w.h⟩

/-! ## The context -/

/-- `SHA256_CTX` -/
structure Sha256Ctx where
  data : List UInt8
  datalen : ℕ
  bitlen : UInt64
  state : Working

/-- `ctx->state` at the begin. -/
def initialState : Working :=
  ⟨0x6a09e667, 0xbb67ae85, 0x3c6ef372, 0xa54ff53a, 0x510e527f, 0x9b05688c, 0x1f83d9ab, 0x5be0cd19⟩

/-- `sha256_init`; `fresh` is what the memory holds. -/
def sha256Init (fresh : Vector UInt8 64) : Sha256Ctx := ⟨fresh.toList, 0, 0, initialState⟩

/-- The body of the loop of `sha256_update`. -/
def Sha256Ctx.put (ctx : Sha256Ctx) (byte : UInt8) : Sha256Ctx :=
  let data := ctx.data.set ctx.datalen byte
  if ctx.datalen + 1 = 64 then
    ⟨data, 0, ctx.bitlen + 512, sha256Transform ctx.state data⟩
  else ⟨data, ctx.datalen + 1, ctx.bitlen, ctx.state⟩

/-- `sha256_update`: `i` is an `unsigned int`, the length a `size_t`. -/
def sha256Update (text : List UInt8) : ℕ → UInt32 → Sha256Ctx → Option Sha256Ctx
  | 0, _, _ => none
  | fuel + 1, i, ctx =>
    if i.toNat < text.length then sha256Update text fuel (i + 1) (ctx.put (text.getD i.toNat 0))
    else some ctx

/-- `while (i < ...) ctx->data[i++] = 0x00`, the number of bytes first. -/
def zeroFill : ℕ → ℕ → List UInt8 → List UInt8
  | 0, _, data => data
  | n + 1, i, data => zeroFill n (i + 1) (data.set i 0)

/-- The eight bytes of the length, `ctx->data[63]` first. -/
def putLength (bitlen : UInt64) (data : List UInt8) : List UInt8 :=
  ((((((((data.set 63 bitlen.toUInt8).set 62 (bitlen >>> 8).toUInt8).set 61
    (bitlen >>> 16).toUInt8).set 60 (bitlen >>> 24).toUInt8).set 59 (bitlen >>> 32).toUInt8).set 58
    (bitlen >>> 40).toUInt8).set 57 (bitlen >>> 48).toUInt8).set 56 (bitlen >>> 56).toUInt8)

/-- The bytes of a word, the highest first. -/
def wordBytes (w : UInt32) : List UInt8 :=
  [(w >>> 24).toUInt8, (w >>> 16).toUInt8, (w >>> 8).toUInt8, w.toUInt8]

/-- The bytes of the state. -/
def digest (state : Working) : List UInt8 :=
  wordBytes state.a ++ wordBytes state.b ++ wordBytes state.c ++ wordBytes state.d ++
    wordBytes state.e ++ wordBytes state.f ++ wordBytes state.g ++ wordBytes state.h

/-- `sha256_final` -/
def sha256Final (ctx : Sha256Ctx) : List UInt8 :=
  let i := ctx.datalen
  let marked := ctx.data.set i 0x80
  let (data, state) :=
    if ctx.datalen < 56 then (zeroFill (56 - (i + 1)) (i + 1) marked, ctx.state)
    else
      let full := zeroFill (64 - (i + 1)) (i + 1) marked
      (zeroFill 56 0 full, sha256Transform ctx.state full)
  digest (sha256Transform state (putLength (ctx.bitlen + UInt64.ofNat (ctx.datalen * 8)) data))

/-- `sha256` -/
def sha256 (fresh : Vector UInt8 64) (text : List UInt8) : Option (List UInt8) :=
  (sha256Update text (text.length + 1) 0 (sha256Init fresh)).map sha256Final

/-! ## The hash that is meant -/

/-- A length, in eight bytes. -/
def lengthBytes (bits : ℕ) : List UInt8 :=
  [UInt8.ofNat (bits / 2 ^ 56), UInt8.ofNat (bits / 2 ^ 48), UInt8.ofNat (bits / 2 ^ 40),
    UInt8.ofNat (bits / 2 ^ 32), UInt8.ofNat (bits / 2 ^ 24), UInt8.ofNat (bits / 2 ^ 16),
    UInt8.ofNat (bits / 2 ^ 8), UInt8.ofNat bits]

/-- The number of zeros that make the padded text one of whole blocks. -/
def zeros (length : ℕ) : ℕ := (119 - length % 64) % 64

/-- The padded text: a one bit, zeros, and the number of bits. -/
def padded (text : List UInt8) : List UInt8 :=
  text ++ ([0x80] ++ List.replicate (zeros text.length) 0 ++ lengthBytes (8 * text.length))

/-- The hash of the padded text. -/
def hash (text : List UInt8) : Working :=
  (blocks 64 (padded text)).foldl sha256Transform initialState

example : sha256 (Vector.replicate 64 7) [0x61, 0x62, 0x63] =
    some [0xba, 0x78, 0x16, 0xbf, 0x8f, 0x01, 0xcf, 0xea, 0x41, 0x41, 0x40, 0xde, 0x5d, 0xae, 0x22,
      0x23, 0xb0, 0x03, 0x61, 0xa3, 0x96, 0x17, 0x7a, 0x9c, 0xb4, 0x10, 0xff, 0x61, 0xf2, 0x00,
      0x15, 0xad] := by
  decide +kernel

/-! ## The loop of `sha256_update` -/

/-- The context has the state and the begin of the next block, of `count` bytes so far. -/
structure Holds (ctx : Sha256Ctx) (count : ℕ) (c : Working × List UInt8) : Prop where
  state : ctx.state = c.1
  datalen : ctx.datalen = c.2.length
  short : c.2.length < 64
  bitlen : ctx.bitlen + UInt64.ofNat (c.2.length * 8) = UInt64.ofNat (8 * count)
  data : ∃ stale, ctx.data = c.2 ++ stale ∧ c.2.length + stale.length = 64

theorem holds_init (fresh : Vector UInt8 64) : Holds (sha256Init fresh) 0 (initialState, []) :=
  ⟨rfl, rfl, Nat.succ_pos _, rfl, fresh.toList, rfl,
    (Nat.zero_add _).trans Vector.length_toList⟩

theorem set_append_length {pre stale : List UInt8} (x y : UInt8) :
    (pre ++ x :: stale).set pre.length y = pre ++ y :: stale := by
  rw [List.set_append_right _ _ (Nat.le_refl _), Nat.sub_self, List.set_cons_zero]

/-- The next byte, in a context. -/
theorem Holds.put {ctx : Sha256Ctx} {count : ℕ} {c : Working × List UInt8}
    (h : Holds ctx count c) (byte : UInt8) :
    Holds (ctx.put byte) (count + 1) (feed sha256Transform 64 c byte) := by
  obtain ⟨s, buffer⟩ := c
  obtain ⟨hstate, hdatalen, hshort, hbitlen, stale, hdata, hlength⟩ := h
  dsimp only at hstate hdatalen hshort hbitlen hdata hlength
  have hset : ctx.data.set ctx.datalen byte = (buffer ++ [byte]) ++ stale.tail := by
    cases stale with
    | nil =>
        rw [List.length_nil] at hlength
        omega
    | cons x stale =>
        rw [hdata, hdatalen, set_append_length, List.append_assoc]
        rfl
  have hcount : ctx.bitlen + UInt64.ofNat ((buffer.length + 1) * 8) =
      UInt64.ofNat (8 * (count + 1)) := by
    rw [Nat.add_mul, UInt64.ofNat_add, ← UInt64.add_assoc, hbitlen, Nat.mul_add, UInt64.ofNat_add]
  unfold Sha256Ctx.put feed
  dsimp only
  rw [hset, hdatalen]
  by_cases hfull : buffer.length + 1 = 64
  · have hstale : stale.tail = [] := by
      refine List.length_eq_zero_iff.1 ?_
      rw [List.length_tail]
      omega
    rw [if_pos hfull, if_pos hfull, hstale, List.append_nil]
    rw [hfull] at hcount
    exact ⟨congrArg (sha256Transform · _) hstate, rfl, Nat.succ_pos _,
      (UInt64.add_zero _).trans hcount, buffer ++ [byte], rfl, by
        rw [List.length_nil, List.length_append, List.length_singleton]
        omega⟩
  · rw [if_neg hfull, if_neg hfull]
    refine ⟨hstate, ?_, ?_, ?_, stale.tail, rfl, ?_⟩
    · rw [List.length_append, List.length_singleton]
    · rw [List.length_append, List.length_singleton]
      omega
    · rw [List.length_append, List.length_singleton]
      exact hcount
    · rw [List.length_append, List.length_singleton, List.length_tail]
      omega

theorem Holds.foldl {ctx : Sha256Ctx} {count : ℕ} {c : Working × List UInt8}
    (h : Holds ctx count c) (text : List UInt8) :
    Holds (text.foldl Sha256Ctx.put ctx) (count + text.length)
      (text.foldl (feed sha256Transform 64) c) := by
  induction text generalizing ctx count c with
  | nil => exact h
  | cons byte text ih =>
      rw [List.foldl_cons, List.foldl_cons, List.length_cons, Nat.add_comm text.length,
        ← Nat.add_assoc]
      exact ih (h.put byte)

theorem toNat_ofNat_lt {i : ℕ} (h : i < 2 ^ 32) : (UInt32.ofNat i).toNat = i := by
  rw [UInt32.toNat_ofNat', Nat.mod_eq_of_lt h]

/-- **The loop puts the bytes one after the other**, of a text that an `unsigned int` can count. -/
theorem sha256Update_eq {text : List UInt8} (htext : text.length < 2 ^ 32) {fuel i : ℕ}
    (hi : i ≤ text.length) (hfuel : text.length < fuel + i) (ctx : Sha256Ctx) :
    sha256Update text fuel (UInt32.ofNat i) ctx =
      some ((text.drop i).foldl Sha256Ctx.put ctx) := by
  induction fuel generalizing i ctx with
  | zero => omega
  | succ fuel ih =>
      have htoNat := toNat_ofNat_lt (show i < 2 ^ 32 by omega)
      unfold sha256Update
      rw [htoNat]
      by_cases hlt : i < text.length
      · have hnext : UInt32.ofNat i + 1 = UInt32.ofNat (i + 1) := (UInt32.ofNat_add i 1).symm
        rw [if_pos hlt, hnext, ih hlt (by omega) _, List.drop_eq_getElem_cons hlt, List.foldl_cons,
          List.getD_eq_getElem _ _ hlt]
      · rw [if_neg hlt, List.drop_eq_nil_of_le (by omega), List.foldl_nil]

/-- From 2^32 bytes on the counter starts again before it comes to the end. -/
theorem sha256Update_never {text : List UInt8} (htext : 2 ^ 32 ≤ text.length) (fuel : ℕ)
    (i : UInt32) (ctx : Sha256Ctx) : sha256Update text fuel i ctx = none := by
  induction fuel generalizing i ctx with
  | zero => rfl
  | succ fuel ih =>
      unfold sha256Update
      rw [if_pos (Nat.lt_of_lt_of_le i.toNat_lt htext)]
      exact ih _ _

/-! ## The padding -/

theorem zeroFill_eq (n : ℕ) (pre : List UInt8) {stale : List UInt8} (h : n ≤ stale.length) :
    zeroFill n pre.length (pre ++ stale) = pre ++ (List.replicate n 0 ++ stale.drop n) := by
  induction n generalizing pre stale with
  | zero => rfl
  | succ n ih =>
      cases stale with
      | nil =>
          rw [List.length_nil] at h
          omega
      | cons x stale =>
          have hpre : pre.length + 1 = (pre ++ [0]).length := by
            rw [List.length_append, List.length_singleton]
          have hset : pre ++ (0 : UInt8) :: stale = (pre ++ [0]) ++ stale :=
            (List.append_cons ..)
          unfold zeroFill
          rw [set_append_length, hset, hpre, ih _ (Nat.le_of_succ_le_succ h), List.append_assoc]
          rfl

theorem byte_of_ofNat {bits k : ℕ} (h : bits < 2 ^ 64) (hk : k < 64) :
    (UInt64.ofNat bits >>> UInt64.ofNat k).toUInt8 = UInt8.ofNat (bits / 2 ^ k) := by
  refine UInt8.toNat_inj.1 ?_
  rw [UInt64.toNat_toUInt8, UInt64.toNat_shiftRight, UInt64.toNat_ofNat', UInt64.toNat_ofNat',
    UInt8.toNat_ofNat', Nat.mod_eq_of_lt h, Nat.mod_eq_of_lt (show k < 2 ^ 64 by omega),
    Nat.mod_eq_of_lt hk, Nat.shiftRight_eq_div_pow]

theorem set_at {pre stale : List UInt8} {i k : ℕ} {y : UInt8} (hpre : pre.length = 56)
    (hi : i = 56 + k) : (pre ++ stale).set i y = pre ++ stale.set k y := by
  rw [List.set_append_right _ _ (by omega), hpre, hi, Nat.add_sub_cancel_left]

/-- The last bytes of a block are those of the length. -/
theorem putLength_eq {bits : ℕ} (h : bits < 2 ^ 64) {pre stale : List UInt8}
    (hpre : pre.length = 56) (hstale : stale.length = 8) :
    putLength (UInt64.ofNat bits) (pre ++ stale) = pre ++ lengthBytes bits := by
  obtain ⟨a, b, c, d, e, f, g, x, rfl⟩ : ∃ a b c d e f g x, stale = [a, b, c, d, e, f, g, x] := by
    match stale, hstale with
    | [a, b, c, d, e, f, g, x], _ => exact ⟨a, b, c, d, e, f, g, x, rfl⟩
  unfold putLength lengthBytes
  rw [set_at hpre (show 63 = 56 + 7 from rfl), set_at hpre (show 62 = 56 + 6 from rfl),
    set_at hpre (show 61 = 56 + 5 from rfl), set_at hpre (show 60 = 56 + 4 from rfl),
    set_at hpre (show 59 = 56 + 3 from rfl), set_at hpre (show 58 = 56 + 2 from rfl),
    set_at hpre (show 57 = 56 + 1 from rfl), set_at hpre (show 56 = 56 + 0 from rfl),
    ← byte_of_ofNat h (show 56 < 64 by decide), ← byte_of_ofNat h (show 48 < 64 by decide),
    ← byte_of_ofNat h (show 40 < 64 by decide), ← byte_of_ofNat h (show 32 < 64 by decide),
    ← byte_of_ofNat h (show 24 < 64 by decide), ← byte_of_ofNat h (show 16 < 64 by decide),
    ← byte_of_ofNat h (show 8 < 64 by decide)]
  have hlow : (UInt64.ofNat bits).toUInt8 = UInt8.ofNat bits := by
    refine UInt8.toNat_inj.1 ?_
    rw [UInt64.toNat_toUInt8, UInt64.toNat_ofNat', UInt8.toNat_ofNat', Nat.mod_eq_of_lt h]
  rw [← hlow]
  rfl

/-- What is put after the rest of a text: one block or two. -/
def tail (count : ℕ) (rest : List UInt8) : List UInt8 :=
  rest ++ ([0x80] ++ List.replicate (zeros rest.length) 0 ++ lengthBytes (8 * count))

theorem length_lengthBytes (bits : ℕ) : (lengthBytes bits).length = 8 := rfl

theorem blocks_one {b : List UInt8} (h : b.length = 64) : blocks 64 b = [b] := by
  have hblocks : blocks 64 [b].flatten = [b] := blocks_flatten (Nat.succ_pos 63) fun b' hb' => by
    rw [List.mem_singleton.1 hb', h]
  rwa [List.flatten_singleton] at hblocks

theorem blocks_two {b c : List UInt8} (hb : b.length = 64) (hc : c.length = 64) :
    blocks 64 (b ++ c) = [b, c] := by
  rw [blocks_append (Nat.succ_pos 63) hb, blocks_one hc]

/-- The rest and the length fit in one block. -/
theorem tail_one {rest : List UInt8} (h : rest.length < 56) (count : ℕ) :
    tail count rest =
      ((rest ++ [0x80]) ++ List.replicate (55 - rest.length) 0) ++ lengthBytes (8 * count) := by
  have hzeros : zeros rest.length = 55 - rest.length := by
    unfold zeros
    omega
  unfold tail
  rw [hzeros, List.append_assoc, List.append_assoc, List.append_assoc]

/-- The length comes in a block of its own. -/
theorem tail_two {rest : List UInt8} (h : 56 ≤ rest.length) (hshort : rest.length < 64) (count : ℕ) :
    tail count rest =
      ((rest ++ [0x80]) ++ List.replicate (63 - rest.length) 0) ++
        (List.replicate 56 0 ++ lengthBytes (8 * count)) := by
  have hzeros : zeros rest.length = (63 - rest.length) + 56 := by
    unfold zeros
    omega
  unfold tail
  rw [hzeros, ← List.replicate_append_replicate]
  simp only [List.append_assoc]

/-- **`sha256_final` compresses the padded rest of the text.** -/
theorem sha256Final_eq {ctx : Sha256Ctx} {count : ℕ} {c : Working × List UInt8}
    (h : Holds ctx count c) (hcount : count < 2 ^ 32) :
    sha256Final ctx = digest ((blocks 64 (tail count c.2)).foldl sha256Transform c.1) := by
  obtain ⟨s, rest⟩ := c
  obtain ⟨hstate, hdatalen, hshort, hbitlen, stale, hdata, hlength⟩ := h
  dsimp only at hstate hdatalen hshort hbitlen hdata hlength
  obtain ⟨x, stale, rfl⟩ : ∃ x stale', stale = x :: stale' := by
    cases stale with
    | nil =>
        rw [List.length_nil] at hlength
        omega
    | cons x stale => exact ⟨x, stale, rfl⟩
  rw [List.length_cons] at hlength
  have hmarked : ctx.data.set rest.length 0x80 = (rest ++ [0x80]) ++ stale := by
    rw [hdata, set_append_length, List.append_cons]
  have hpre : (rest ++ [(0x80 : UInt8)]).length = rest.length + 1 := by
    rw [List.length_append, List.length_singleton]
  have hbits : 8 * count < 2 ^ 64 := by omega
  unfold sha256Final
  dsimp only
  rw [hdatalen, hbitlen, hmarked, hstate]
  by_cases hone : rest.length < 56
  · have hfill := zeroFill_eq (55 - rest.length) (rest ++ [0x80])
      (show 55 - rest.length ≤ stale.length by omega)
    have hhead : (rest ++ [0x80] ++ List.replicate (55 - rest.length) (0 : UInt8)).length = 56 := by
      rw [List.length_append, hpre, List.length_replicate]
      omega
    rw [hpre, ← List.append_assoc] at hfill
    rw [if_pos hone, show 56 - (rest.length + 1) = 55 - rest.length by omega, hfill]
    dsimp only
    rw [putLength_eq hbits hhead (by rw [List.length_drop]; omega), tail_one hone, blocks_one,
      List.foldl_cons, List.foldl_nil]
    rw [List.length_append, hhead, length_lengthBytes]
  · have hfill := zeroFill_eq (63 - rest.length) (rest ++ [0x80])
      (show 63 - rest.length ≤ stale.length by omega)
    have hfull : (rest ++ [0x80] ++ List.replicate (63 - rest.length) (0 : UInt8)).length = 64 := by
      rw [List.length_append, hpre, List.length_replicate]
      omega
    have hstale : stale.drop (63 - rest.length) = [] := List.drop_eq_nil_of_le (by omega)
    have hzero : (List.replicate 56 (0 : UInt8)).length = 56 := List.length_replicate
    rw [hpre, ← List.append_assoc, hstale, List.append_nil] at hfill
    rw [if_neg hone, show 64 - (rest.length + 1) = 63 - rest.length by omega, hfill,
      tail_two (Nat.not_lt.1 hone) hshort]
    generalize rest ++ [0x80] ++ List.replicate (63 - rest.length) (0 : UInt8) = full at hfull
    have hclear := zeroFill_eq 56 [] (show 56 ≤ full.length by omega)
    rw [List.nil_append, List.nil_append, List.length_nil] at hclear
    dsimp only
    rw [hclear, putLength_eq hbits hzero (by rw [List.length_drop]; omega), blocks_two hfull,
      List.foldl_cons, List.foldl_cons, List.foldl_nil]
    rw [List.length_append, hzero, length_lengthBytes]

/-! ## The whole text -/

theorem blocks_flatten_append {bs : List (List UInt8)} (h : ∀ b ∈ bs, b.length = 64)
    (text : List UInt8) : blocks 64 (bs.flatten ++ text) = bs ++ blocks 64 text := by
  induction bs with
  | nil => rfl
  | cons b bs ih =>
      rw [List.flatten_cons, List.append_assoc, blocks_append (Nat.succ_pos 63)
        (h b List.mem_cons_self), ih fun b' hb' => h b' (List.mem_cons_of_mem _ hb')]
      rfl

theorem length_flatten {bs : List (List UInt8)} (h : ∀ b ∈ bs, b.length = 64) :
    bs.flatten.length = 64 * bs.length := by
  induction bs with
  | nil => rfl
  | cons b bs ih =>
      rw [List.flatten_cons, List.length_append, h b List.mem_cons_self,
        ih fun b' hb' => h b' (List.mem_cons_of_mem _ hb'), List.length_cons]
      omega

theorem sha256_eq (fresh : Vector UInt8 64) {text : List UInt8} (htext : text.length < 2 ^ 32) :
    sha256 fresh text = some (digest (hash text)) := by
  obtain ⟨bs, rest, rfl, hbs, hrest⟩ := exists_blocks (Nat.succ_pos 63) text
  have hupdate := sha256Update_eq htext (Nat.zero_le _)
    (show (bs.flatten ++ rest).length < (bs.flatten ++ rest).length + 1 + 0 by omega)
    (sha256Init fresh)
  have hholds := (holds_init fresh).foldl (bs.flatten ++ rest)
  rw [feed_spec (Nat.succ_pos 63) initialState hbs hrest, Nat.zero_add] at hholds
  have hpadded : padded (bs.flatten ++ rest) =
      bs.flatten ++ tail (bs.flatten ++ rest).length rest := by
    have hzeros : zeros (bs.flatten ++ rest).length = zeros rest.length := by
      unfold zeros
      rw [List.length_append, length_flatten hbs, Nat.mul_add_mod]
    unfold padded tail
    rw [hzeros, List.append_assoc]
  unfold sha256 hash
  rw [show (0 : UInt32) = UInt32.ofNat 0 from rfl, hupdate, List.drop_zero, Option.map_some,
    sha256Final_eq hholds htext, hpadded, blocks_flatten_append hbs, List.foldl_append]

/-- **`sha256` is the hash of the padded text**, and returns exactly when an `unsigned int` can
count the bytes of the text. -/
theorem sha256_spec (fresh : Vector UInt8 64) (text : List UInt8) :
    (text.length < 2 ^ 32 → sha256 fresh text = some (digest (hash text))) ∧
      (2 ^ 32 ≤ text.length → ∀ fuel, sha256Update text fuel 0 (sha256Init fresh) = none) :=
  ⟨sha256_eq fresh, fun htext fuel => sha256Update_never htext fuel 0 _⟩

/-! ## Collisions -/

theorem lengthBytes_inj {a b : ℕ} (ha : a < 2 ^ 64) (hb : b < 2 ^ 64)
    (h : lengthBytes a = lengthBytes b) : a = b := by
  have hbyte : ∀ {x y : ℕ}, UInt8.ofNat x = UInt8.ofNat y → x % 256 = y % 256 := by
    intro x y hxy
    have := congrArg UInt8.toNat hxy
    rwa [UInt8.toNat_ofNat', UInt8.toNat_ofNat'] at this
  unfold lengthBytes at h
  simp only [List.cons.injEq, and_true] at h
  obtain ⟨h0, h1, h2, h3, h4, h5, h6, h7⟩ := h
  have h0 := hbyte h0
  have h1 := hbyte h1
  have h2 := hbyte h2
  have h3 := hbyte h3
  have h4 := hbyte h4
  have h5 := hbyte h5
  have h6 := hbyte h6
  have h7 := hbyte h7
  omega

theorem length_padded (text : List UInt8) :
    (padded text).length = 64 * (text.length / 64 + if text.length % 64 < 56 then 1 else 2) := by
  unfold padded zeros
  rw [List.length_append, List.length_append, List.length_append, List.length_replicate,
    length_lengthBytes, List.length_singleton]
  split_ifs <;> omega

/-- A padded text is the blocks it is taken in. -/
theorem flatten_padded (text : List UInt8) :
    (blocks 64 (padded text)).flatten = padded text ∧
      ∀ b ∈ blocks 64 (padded text), b.length = 64 :=
  flatten_blocks (Nat.succ_pos 63) (by rw [length_padded, Nat.mul_mod_right])

/-- A padded text ends with the length. -/
theorem padded_eq (text : List UInt8) :
    padded text = (text ++ ([0x80] ++ List.replicate (zeros text.length) 0)) ++
      lengthBytes (8 * text.length) := by
  unfold padded
  rw [List.append_assoc, List.append_assoc, List.append_assoc]

/-- The length, in the last block. -/
theorem drop_last_block {text block : List UInt8} {bs : List (List UInt8)}
    (h : blocks 64 (padded text) = bs ++ [block]) :
    block.drop 56 = lengthBytes (8 * text.length) := by
  obtain ⟨hflatten, hsize⟩ := flatten_padded text
  rw [h] at hflatten hsize
  have hblock := hsize block (List.mem_append_right _ List.mem_cons_self)
  rw [List.flatten_append, List.flatten_singleton, ← List.take_append_drop 56 block,
    ← List.append_assoc, padded_eq] at hflatten
  refine (List.append_inj' hflatten ?_).2
  rw [List.length_drop, hblock]
  rfl

theorem length_eq_of_lengthBytes {a b : List UInt8} (ha : a.length < 2 ^ 32)
    (hb : b.length < 2 ^ 32) (h : lengthBytes (8 * a.length) = lengthBytes (8 * b.length)) :
    a.length = b.length :=
  Nat.eq_of_mul_eq_mul_left (by decide) (lengthBytes_inj (by omega) (by omega) h)

/-- **The padding tells the length of a text.** -/
theorem padding_padded :
    Padding 64 (fun text : List UInt8 => blocks 64 (padded text)) fun text =>
      text.length < 2 ^ 32 where
  size {text} _ := (flatten_padded text).2
  nonempty := by
    intro text _ hnil
    have hlength := length_padded text
    rw [← (flatten_padded text).1, hnil, List.flatten_nil, List.length_nil] at hlength
    split_ifs at hlength
  inj := by
    intro a b ha hb heq
    have hpadded : padded a = padded b := by
      rw [← (flatten_padded a).1, ← (flatten_padded b).1]
      exact congrArg List.flatten heq
    rw [padded_eq, padded_eq] at hpadded
    obtain ⟨htext, hbytes⟩ := List.append_inj' hpadded rfl
    exact (List.append_inj htext (length_eq_of_lengthBytes ha hb hbytes)).1
  last := by
    intro a b ha hb heq
    have hcount : ∀ text, (padded text).length = 64 * (blocks 64 (padded text)).length := by
      intro text
      rw [← length_flatten (flatten_padded text).2, (flatten_padded text).1]
    have hlength : a.length = b.length := by
      rcases List.eq_nil_or_concat (blocks 64 (padded a)) with hnil | ⟨as, x, hx⟩
      · have ha' := hcount a
        have hone := length_padded a
        rw [hnil, List.length_nil] at ha'
        split_ifs at hone <;> omega
      · rw [List.concat_eq_append] at hx
        rw [hx, List.getLast?_concat] at heq
        obtain ⟨bs, hbs⟩ := List.getLast?_eq_some_iff.1 heq.symm
        refine length_eq_of_lengthBytes ha hb ?_
        rw [← drop_last_block hx, ← drop_last_block hbs]
    have hsize : (padded a).length = (padded b).length := by
      rw [length_padded, length_padded, hlength]
    rw [hcount, hcount] at hsize
    exact Nat.eq_of_mul_eq_mul_left (by decide) hsize

theorem wordBytes_inj {v w : UInt32} (h : wordBytes v = wordBytes w) : v = w := by
  unfold wordBytes at h
  simp only [List.cons.injEq, and_true] at h
  obtain ⟨h0, h1, h2, h3⟩ := h
  have hbyte : ∀ {x y : UInt32}, x.toUInt8 = y.toUInt8 → x.toNat % 256 = y.toNat % 256 := by
    intro x y hxy
    have := congrArg UInt8.toNat hxy
    rwa [UInt32.toNat_toUInt8, UInt32.toNat_toUInt8] at this
  have h0 := hbyte h0
  have h1 := hbyte h1
  have h2 := hbyte h2
  have h3 := hbyte h3
  rw [UInt32.toNat_shiftRight, UInt32.toNat_shiftRight, Nat.shiftRight_eq_div_pow,
    Nat.shiftRight_eq_div_pow] at h0 h1 h2
  have hv := v.toNat_lt
  have hw := w.toNat_lt
  refine UInt32.toNat_inj.1 ?_
  change v.toNat / 2 ^ 24 % 256 = w.toNat / 2 ^ 24 % 256 at h0
  change v.toNat / 2 ^ 16 % 256 = w.toNat / 2 ^ 16 % 256 at h1
  change v.toNat / 2 ^ 8 % 256 = w.toNat / 2 ^ 8 % 256 at h2
  omega

/-- The bytes of the hash are those of one state. -/
theorem digest_inj {s t : Working} (h : digest s = digest t) : s = t := by
  have hword : ∀ {v w : UInt32} {x y : List UInt8}, x ++ wordBytes v = y ++ wordBytes w →
      x = y ∧ v = w := by
    intro v w x y hxy
    obtain ⟨hinit, hlast⟩ := List.append_inj' hxy rfl
    exact ⟨hinit, wordBytes_inj hlast⟩
  unfold digest at h
  obtain ⟨h, hh⟩ := hword h
  obtain ⟨h, hg⟩ := hword h
  obtain ⟨h, hf⟩ := hword h
  obtain ⟨h, he⟩ := hword h
  obtain ⟨h, hd⟩ := hword h
  obtain ⟨h, hc⟩ := hword h
  obtain ⟨h, hb⟩ := hword h
  have ha := wordBytes_inj h
  cases s
  cases t
  congr

/-- **Two texts with one hash are one text, or a collision of `sha256_transform`.** -/
theorem eq_or_collides {a b : List UInt8} (ha : a.length < 2 ^ 32) (hb : b.length < 2 ^ 32)
    {fresh fresh' : Vector UInt8 64} (h : sha256 fresh a = sha256 fresh' b) :
    a = b ∨ Collides sha256Transform 64 := by
  rw [sha256_eq fresh ha, sha256_eq fresh' hb] at h
  by_cases hne : a = b
  · exact Or.inl hne
  · exact Or.inr (collides_of_hash padding_padded initialState ha hb hne
      (digest_inj (Option.some.inj h)))

/-- What the memory held before does not matter. -/
theorem eq_or_collides_abc :
    [(0x61 : UInt8), 0x62, 0x63] = [0x61, 0x62, 0x63] ∨ Collides sha256Transform 64 := by
  refine @eq_or_collides [0x61, 0x62, 0x63] [0x61, 0x62, 0x63] (by decide) (by decide)
    (Vector.replicate 64 7) (Vector.replicate 64 9) ?_
  decide +kernel

end Sha256
end Common
end AergoLite
