/-
# The table of XRC4

`core/xrc4.c`.  `xrc4_init` fills a table of 256 bytes at steps of an odd number, and swaps its
entries as the key says; `xrc4_crypt` copies the table and swaps the entries of the copy, first
as the `iv` says and then once for each byte of the output.

The odd number has no factor in common with 256, so each entry is filled once, and with another
byte (`xrc4Fill_isPermutation`).  After that every step is a swap: the table holds each byte once
whatever has been encrypted (`xrc4_isPermutation`).
-/

import AergoLite.Core.Ciphers
import Mathlib.Data.Finite.Defs
import Mathlib.Logic.Equiv.Basic
import Mathlib.Data.Fintype.EquivFin
import Mathlib.Data.Nat.Prime.Basic

namespace AergoLite
namespace Core

/-- The first loop of `xrc4_init`; `n` is the byte that is written next. -/
def xrc4Fill (increment : UInt8) : ℕ → UInt8 → UInt8 → Sbox → Sbox
  | 0, _, _, sbox => sbox
  | count + 1, i, n, sbox =>
    let i := i + increment
    xrc4Fill increment count i (n + 1) (Vector.set sbox i.toFin n)

/-- The second loop of `xrc4_init`. -/
def xrc4Mix (key : Bytes) (increment : UInt8) : ℕ → UInt8 → UInt8 → Sbox → Sbox
  | 0, _, _, sbox => sbox
  | n + 1, i, j, sbox =>
    let i := i + increment
    let j := j + key.getD (i.toNat % key.length) 0 + sbox.get i.toFin
    xrc4Mix key increment n i j (sbox.swap i j)

/-- `xrc4_init`, with what was in the memory of the table.  An empty key has no first byte, and
the remainder by its length is undefined. -/
def xrc4Init (key : Bytes) (sbox : Sbox) : Option Sbox :=
  match key with
  | [] => none
  | first :: _ =>
    let increment := xrc4Coprime first 0
    let sbox := xrc4Fill increment 256 0 0 sbox
    let increment := xrc4Coprime (key.getD (1 % key.length) 0) increment
    some (xrc4Mix key increment (3 * 256) 0 0 sbox)

/-- `i`, `j` and the table of `xrc4_crypt` after a number of bytes. -/
def xrc4State (sbox : Sbox) (iv : Bytes) (counter : UInt32) (n : ℕ) : Xrc4State :=
  let increment := xrc4Coprime (xrc4Iv iv sbox 0) 0
  let s := xrc4Setup iv increment 256 ((counter &&& 0xff0000) >>> 16).toUInt8
    ((counter &&& 0xff000000) >>> 24).toUInt8 sbox
  let i := (counter &&& 0xff).toUInt8
  let j := ((counter &&& 0xff00) >>> 8).toUInt8
  (Xrc4State.next (xrc4Coprime i increment))^[n] ⟨i, j, s⟩

/-- The bytes of the output are those of the states. -/
theorem xrc4Crypt_eq_states (data : Bytes) (sbox : Sbox) (iv : Bytes) (counter : UInt32) :
    xrc4Crypt data sbox iv counter =
      data.mapIdx fun n b => b ^^^ (xrc4State sbox iv counter (n + 1)).byte :=
  xrc4Crypt_eq_combine data sbox iv counter

namespace Sbox

/-- **The table is a permutation of the bytes.** -/
def IsPermutation (s : Sbox) : Prop := Function.Bijective fun k : UInt8 => s.get k.toFin

theorem get_set (s : Sbox) (i n k : UInt8) :
    Vector.get (Vector.set s i.toFin n) k.toFin = if k = i then n else s.get k.toFin := by
  show (Vector.set s i.toFin n)[(k.toFin : ℕ)] = if k = i then n else s[(k.toFin : ℕ)]
  rw [Vector.getElem_set]
  have hiff : (i.toFin : ℕ) = k.toFin ↔ k = i := by
    rw [Fin.val_inj, UInt8.toFin_inj, eq_comm]
  simp only [hiff]

theorem get_swap (s : Sbox) (i j k : UInt8) :
    (s.swap i j).get k.toFin = s.get (Equiv.swap i j k).toFin := by
  unfold Sbox.swap
  rw [get_set, get_set, Equiv.swap_apply_def]
  split_ifs with hj hi hi
  · rw [← hj, hi]
  · rfl
  · rfl
  · rfl

/-- **A swap keeps a permutation.** -/
theorem IsPermutation.swap {s : Sbox} (h : s.IsPermutation) (i j : UInt8) :
    (s.swap i j).IsPermutation := by
  have hcomp : (fun k : UInt8 => (s.swap i j).get k.toFin) =
      (fun k : UInt8 => s.get k.toFin) ∘ Equiv.swap i j :=
    funext fun k => s.get_swap i j k
  unfold IsPermutation
  rw [hcomp]
  exact h.comp (Equiv.swap i j).bijective

end Sbox

open Sbox

/-! ## The table is filled -/

/-- The step is odd. -/
theorem xrc4Coprime_odd (byte lastUsed : UInt8) : Odd (xrc4Coprime byte lastUsed).toNat := by
  have hodd : ∀ n < 256, Odd ((if UInt8.ofNat n &&& 1 = 1 then UInt8.ofNat n
      else UInt8.ofNat n + 57) ^^^ 96).toNat := by
    decide +kernel
  have hbyte := hodd byte.toNat byte.toNat_lt
  rw [UInt8.ofNat_toNat] at hbyte
  unfold xrc4Coprime
  dsimp only
  generalize ((if byte &&& 1 = 1 then byte else byte + 57) ^^^ 96) = coprime at hbyte
  split_ifs
  · rw [Nat.odd_iff] at hbyte ⊢
    rw [UInt8.toNat_add]
    show (coprime.toNat + 2) % 256 % 2 = 1
    omega
  · exact hbyte

/-- Fewer than 256 steps do not lead back. -/
theorem ofNat_mul_ne_zero {increment : UInt8} (hodd : Odd increment.toNat) {m : ℕ} (hpos : 0 < m)
    (hless : m < 256) : UInt8.ofNat m * increment ≠ 0 := by
  intro hzero
  have hmod : m * increment.toNat % 256 = 0 := by
    have heq := congrArg UInt8.toNat hzero
    rw [UInt8.toNat_mul, UInt8.toNat_ofNat', Nat.mod_mul_mod] at heq
    exact heq
  have hcoprime : Nat.Coprime 256 increment.toNat :=
    Nat.Coprime.pow_left 8 (Nat.coprime_two_left.2 hodd)
  have hle := Nat.le_of_dvd hpos (hcoprime.dvd_of_dvd_mul_right (Nat.dvd_of_mod_eq_zero hmod))
  omega

/-- One step, and then a number of steps. -/
theorem add_mul_step (i increment : UInt8) (m : ℕ) :
    i + increment + UInt8.ofNat m * increment = i + UInt8.ofNat (m + 1) * increment := by
  rw [UInt8.ofNat_add]
  grind

/-- What the loop writes, and what it leaves. -/
theorem get_xrc4Fill {increment : UInt8} (hodd : Odd increment.toNat) {count : ℕ}
    (hcount : count ≤ 256) (i n : UInt8) (s : Sbox) :
    (∀ m < count, (xrc4Fill increment count i n s).get
        (i + UInt8.ofNat (m + 1) * increment).toFin = n + UInt8.ofNat m) ∧
      ∀ k, (∀ m < count, k ≠ i + UInt8.ofNat (m + 1) * increment) →
        (xrc4Fill increment count i n s).get k.toFin = s.get k.toFin := by
  induction count generalizing i n s with
  | zero => exact ⟨nofun, fun _ _ => rfl⟩
  | succ count ih =>
    obtain ⟨hwritten, hleft⟩ :=
      ih (by omega) (i + increment) (n + 1) (Vector.set s (i + increment).toFin n)
    simp only [add_mul_step] at hwritten hleft
    have hfirst : i + UInt8.ofNat 1 * increment = i + increment := by
      rw [← add_mul_step]
      show i + increment + 0 * increment = i + increment
      rw [UInt8.zero_mul, UInt8.add_zero]
    rw [xrc4Fill]
    refine ⟨fun m hm => ?_, fun k hk => ?_⟩
    · cases m with
      | zero =>
        rw [hfirst, hleft, get_set, if_pos rfl]
        · exact (UInt8.add_zero n).symm
        intro m hm heq
        -- the loop would have come back
        refine ofNat_mul_ne_zero hodd (Nat.succ_pos m) (by omega) ?_
        rw [← add_mul_step] at heq
        grind
      | succ m =>
        rw [hwritten m (by omega), UInt8.ofNat_add m]
        grind
    · rw [hleft k fun m hm => hk (m + 1) (by omega), get_set,
        if_neg (hfirst ▸ hk 0 (Nat.succ_pos _))]

/-- **After the first loop each byte is in the table once**, whatever was in its memory. -/
theorem xrc4Fill_isPermutation {increment : UInt8} (hodd : Odd increment.toNat) (s : Sbox) :
    (xrc4Fill increment 256 0 0 s).IsPermutation := by
  have : Finite UInt8 := Finite.of_injective UInt8.toFin fun _ _ => UInt8.toFin_inj.1
  refine Function.Surjective.bijective_of_finite fun n => ⟨UInt8.ofNat (n.toNat + 1) * increment, ?_⟩
  have hwritten := (get_xrc4Fill hodd le_rfl 0 0 s).1 n.toNat n.toNat_lt
  rwa [UInt8.zero_add, UInt8.zero_add, UInt8.ofNat_toNat] at hwritten

/-! ## The swaps -/

/-- After each step of the second loop. -/
theorem Sbox.IsPermutation.mix {s : Sbox} (h : s.IsPermutation) (key : Bytes) (increment : UInt8)
    (n : ℕ) (i j : UInt8) : (xrc4Mix key increment n i j s).IsPermutation := by
  induction n generalizing i j s with
  | zero => exact h
  | succ n ih => exact ih (h.swap _ _) _ _

/-- After each step with the `iv`, also where the table stands for it. -/
theorem Sbox.IsPermutation.setup {s : Sbox} (h : s.IsPermutation) (iv : Bytes) (increment : UInt8)
    (n : ℕ) (i j : UInt8) : (xrc4Setup iv increment n i j s).IsPermutation := by
  induction n generalizing i j s with
  | zero => exact h
  | succ n ih => exact ih (h.swap _ _) _ _

/-- After each byte of the output. -/
theorem Sbox.IsPermutation.iterate {state : Xrc4State} (h : state.s.IsPermutation)
    (increment : UInt8) (n : ℕ) : ((Xrc4State.next increment)^[n] state).s.IsPermutation := by
  induction n with
  | zero => exact h
  | succ n ih =>
    rw [Function.iterate_succ_apply']
    exact ih.swap _ _

/-- `xrc4_crypt` keeps a permutation. -/
theorem Sbox.IsPermutation.state {sbox : Sbox} (h : sbox.IsPermutation) (iv : Bytes)
    (counter : UInt32) (n : ℕ) : (xrc4State sbox iv counter n).s.IsPermutation := by
  unfold xrc4State
  refine Sbox.IsPermutation.iterate ?_ _ n
  dsimp only
  exact h.setup iv _ 256 _ _

/-- **The table is a permutation of the bytes** as the key has made it, and after every number of
bytes of the output. -/
theorem xrc4_isPermutation (key : Bytes) (hkey : key ≠ []) (memory : Sbox) :
    ∃ sbox, xrc4Init key memory = some sbox ∧ sbox.IsPermutation ∧
      ∀ iv counter n, (xrc4State sbox iv counter n).s.IsPermutation := by
  cases key with
  | nil => exact absurd rfl hkey
  | cons first key =>
    have hsbox : ∀ increment n, (xrc4Mix (first :: key) increment n 0 0
        (xrc4Fill (xrc4Coprime first 0) 256 0 0 memory)).IsPermutation := fun increment n =>
      (xrc4Fill_isPermutation (xrc4Coprime_odd first 0) memory).mix (first :: key) increment n 0 0
    rw [xrc4Init]
    exact ⟨_, rfl, hsbox _ _, fun iv counter n => (hsbox _ _).state iv counter n⟩

/-- With a key of one byte. -/
theorem xrc4_isPermutation_oneByte : ∃ sbox, xrc4Init [0] (Vector.replicate 256 0) = some sbox ∧
    sbox.IsPermutation ∧ ∀ iv counter n, (xrc4State sbox iv counter n).s.IsPermutation :=
  xrc4_isPermutation [0] (by decide) (Vector.replicate 256 0)

end Core
end AergoLite
