/-
# Cyclic redundancy checks

A reflected check of `w` bits shifts its register to the right, and adds the polynomial when a one
bit is shifted out (`step`).  This is linear, and it can be reversed where the highest bit of the
polynomial is one (`step_injective`).  Bytes that come one after the other act as the word that
they make up (`feedAll_eq`), as long as this fits in the register; so two texts that differ in a
burst of this length alone have different checks (`burst_detected`).
-/

import Mathlib.Data.Nat.Notation
import Mathlib.Tactic.Common
import Mathlib.Tactic.SplitIfs

namespace Crc

variable {w : ℕ}

/-- A bit is shifted out. -/
def step (p x : BitVec w) : BitVec w := (x >>> 1) ^^^ (if x.getLsbD 0 then p else 0)

/-- Some bits are shifted out. -/
def steps (p : BitVec w) : ℕ → BitVec w → BitVec w
  | 0, x => x
  | n + 1, x => steps p n (step p x)

variable {p : BitVec w}

theorem steps_add (m n : ℕ) (x : BitVec w) : steps p (m + n) x = steps p n (steps p m x) := by
  induction m generalizing x with
  | zero => rw [Nat.zero_add]; rfl
  | succ m ih =>
      rw [Nat.succ_add]
      exact ih (step p x)

theorem step_xor (x y : BitVec w) : step p (x ^^^ y) = step p x ^^^ step p y := by
  have hmask : (if (x ^^^ y).getLsbD 0 then p else 0) =
      (if x.getLsbD 0 then p else 0) ^^^ (if y.getLsbD 0 then p else 0) := by
    rw [BitVec.getLsbD_xor]
    cases x.getLsbD 0 <;> cases y.getLsbD 0 <;> simp
  unfold step
  rw [hmask, BitVec.ushiftRight_xor_distrib, BitVec.xor_assoc, BitVec.xor_assoc,
    ← BitVec.xor_assoc (y >>> 1), BitVec.xor_comm (y >>> 1), BitVec.xor_assoc]

theorem steps_xor (n : ℕ) (x y : BitVec w) :
    steps p n (x ^^^ y) = steps p n x ^^^ steps p n y := by
  induction n generalizing x y with
  | zero => rfl
  | succ n ih =>
      unfold steps
      rw [step_xor, ih]

theorem eq_zero_of_step (hp : p.msb = true) {x : BitVec w} (h : step p x = 0) : x = 0 := by
  have hw : 0 < w := by
    rcases Nat.eq_zero_or_pos w with rfl | hw
    · exact absurd (congrArg BitVec.msb (BitVec.eq_nil p)) (by rw [hp]; exact Bool.noConfusion)
    · exact hw
  have hlow : x.getLsbD 0 = false := by
    -- the highest bit of the register is the one of the polynomial
    by_contra hone
    rw [Bool.not_eq_false] at hone
    unfold step at h
    rw [if_pos hone] at h
    have hmsb := congrArg BitVec.msb h
    rw [BitVec.msb_xor, hp, BitVec.msb_ushiftRight] at hmsb
    simp at hmsb
  unfold step at h
  rw [hlow, if_neg Bool.false_ne_true] at h
  refine BitVec.eq_of_getLsbD_eq fun i _ => ?_
  cases i with
  | zero => exact hlow.trans BitVec.getLsbD_zero.symm
  | succ i =>
      have hbit := congrArg (fun y => y.getLsbD i) h
      simpa [Nat.add_comm] using hbit

theorem step_injective (hp : p.msb = true) {x y : BitVec w} (h : step p x = step p y) : x = y := by
  have hzero : step p (x ^^^ y) = 0 := by
    rw [step_xor, h]
    exact BitVec.xor_self
  exact BitVec.xor_eq_zero_iff.1 (eq_zero_of_step hp hzero)

theorem steps_injective (hp : p.msb = true) (n : ℕ) {x y : BitVec w}
    (h : steps p n x = steps p n y) : x = y := by
  induction n generalizing x y with
  | zero => exact h
  | succ n ih => exact step_injective hp (ih h)

/-- Zeros are shifted out without the polynomial. -/
theorem steps_of_low {n : ℕ} {x : BitVec w} (h : ∀ i < n, x.getLsbD i = false) :
    steps p n x = x >>> n := by
  induction n generalizing x with
  | zero => exact (BitVec.ushiftRight_zero x).symm
  | succ n ih =>
      have hstep : step p x = x >>> 1 := by
        unfold step
        rw [h 0 (Nat.succ_pos n), if_neg Bool.false_ne_true]
        exact BitVec.xor_zero
      have hlow : ∀ i < n, (x >>> 1).getLsbD i = false := by
        intro i hi
        rw [BitVec.getLsbD_ushiftRight]
        exact h (1 + i) (by omega)
      unfold steps
      rw [hstep, ih hlow, ← BitVec.shiftRight_add, Nat.add_comm]

/-- What is shifted out of a register is decided by its low bits. -/
theorem steps_split {n : ℕ} {mask : BitVec w} (hmask : ∀ i < w, mask.getLsbD i = decide (i < n))
    (x : BitVec w) : steps p n x = (x >>> n) ^^^ steps p n (x &&& mask) := by
  have hsplit : x = (x &&& ~~~mask) ^^^ (x &&& mask) := by
    refine BitVec.eq_of_getLsbD_eq fun i hi => ?_
    rw [BitVec.getLsbD_xor, BitVec.getLsbD_and, BitVec.getLsbD_and, BitVec.getLsbD_not,
      decide_eq_true hi]
    cases x.getLsbD i <;> cases mask.getLsbD i <;> rfl
  have hlow : ∀ i < n, (x &&& ~~~mask).getLsbD i = false := by
    intro i hi
    rw [BitVec.getLsbD_and, BitVec.getLsbD_not]
    by_cases hw : i < w
    · rw [hmask i hw, decide_eq_true hi, Bool.not_true, Bool.and_false, Bool.and_false]
    · rw [decide_eq_false hw, Bool.false_and, Bool.and_false]
  have hhigh : (x &&& ~~~mask) >>> n = x >>> n := by
    refine BitVec.eq_of_getLsbD_eq fun i _ => ?_
    rw [BitVec.getLsbD_ushiftRight, BitVec.getLsbD_ushiftRight, BitVec.getLsbD_and,
      BitVec.getLsbD_not]
    by_cases hw : n + i < w
    · rw [hmask _ hw, decide_eq_true hw, decide_eq_false (Nat.not_lt.2 (Nat.le_add_right n i)),
        Bool.not_false, Bool.and_true, Bool.and_true]
    · rw [BitVec.getLsbD_of_ge x (n + i) (Nat.not_lt.1 hw), Bool.false_and]
  calc steps p n x
      = steps p n ((x &&& ~~~mask) ^^^ (x &&& mask)) := by rw [← hsplit]
    _ = (x >>> n) ^^^ steps p n (x &&& mask) := by rw [steps_xor, steps_of_low hlow, hhigh]

/-! ## Bytes -/

/-- The next byte. -/
def feed (p s : BitVec w) (c : BitVec 8) : BitVec w := steps p 8 (s ^^^ c.setWidth w)

/-- The bytes of a text. -/
def feedAll (p s : BitVec w) (text : List (BitVec 8)) : BitVec w := text.foldl (feed p) s

theorem feedAll_append (s : BitVec w) (a b : List (BitVec 8)) :
    feedAll p s (a ++ b) = feedAll p (feedAll p s a) b :=
  List.foldl_append

/-- The word that bytes make up, the lowest first. -/
def word : List (BitVec 8) → BitVec w
  | [] => 0
  | c :: text => c.setWidth w ^^^ (word text <<< 8)

theorem getLsbD_word {text : List (BitVec 8)} {i : ℕ} (h : 8 * text.length ≤ i) :
    (word text : BitVec w).getLsbD i = false := by
  induction text generalizing i with
  | nil => exact BitVec.getLsbD_zero
  | cons c text ih =>
      rw [List.length_cons] at h
      unfold word
      rw [BitVec.getLsbD_xor, BitVec.getLsbD_setWidth, BitVec.getLsbD_shiftLeft,
        BitVec.getLsbD_of_ge c i (by omega), ih (by omega), Bool.and_false, Bool.and_false]
      rfl

theorem steps_word {text : List (BitVec 8)} (h : 8 * text.length + 8 ≤ w) :
    steps p 8 (word text <<< 8) = (word text : BitVec w) := by
  rw [steps_of_low]
  · refine BitVec.eq_of_getLsbD_eq fun i hi => ?_
    rw [BitVec.getLsbD_ushiftRight, BitVec.getLsbD_shiftLeft]
    by_cases hlt : 8 + i < w
    · rw [decide_eq_true hlt, decide_eq_false (by omega), Nat.add_sub_cancel_left]
      rfl
    · rw [decide_eq_false hlt, getLsbD_word (show 8 * text.length ≤ i by omega)]
      rfl
  · intro i hi
    rw [BitVec.getLsbD_shiftLeft, decide_eq_true hi, Bool.not_true, Bool.and_false,
      Bool.false_and]

theorem word_cons (c : BitVec 8) (text : List (BitVec 8)) :
    (word (c :: text) : BitVec w) = c.setWidth w ^^^ (word text <<< 8) := rfl

/-- **Bytes that fit in the register** act as one word. -/
theorem feedAll_eq {text : List (BitVec 8)} (h : 8 * text.length ≤ w) (s : BitVec w) :
    feedAll p s text = steps p (8 * text.length) (s ^^^ word text) := by
  induction text generalizing s with
  | nil => exact BitVec.xor_zero.symm
  | cons c text ih =>
      rw [List.length_cons] at h
      have hword : steps p 8 (s ^^^ c.setWidth w) ^^^ word text =
          steps p 8 (s ^^^ (c.setWidth w ^^^ (word text <<< 8))) := by
        rw [← BitVec.xor_assoc, steps_xor 8 (s ^^^ c.setWidth w), steps_word (by omega)]
      calc feedAll p s (c :: text)
          = feedAll p (feed p s c) text := rfl
        _ = steps p (8 * text.length) (feed p s c ^^^ word text) := ih (by omega) _
        _ = steps p (8 * text.length) (steps p 8 (s ^^^ word (c :: text))) := by
            unfold feed
            rw [hword, word_cons]
        _ = steps p (8 * (text.length + 1)) (s ^^^ word (c :: text)) := by
            rw [← steps_add, Nat.mul_add, Nat.add_comm]

theorem getLsbD_head {c : BitVec 8} {text : List (BitVec 8)} {i : ℕ} (hi : i < 8) :
    (word (c :: text) : BitVec w).getLsbD i = (decide (i < w) && c.getLsbD i) := by
  rw [word_cons, BitVec.getLsbD_xor, BitVec.getLsbD_setWidth, BitVec.getLsbD_shiftLeft,
    decide_eq_true hi, Bool.not_true, Bool.and_false, Bool.false_and, Bool.xor_false]

theorem getLsbD_tail {c : BitVec 8} {text : List (BitVec 8)} {i : ℕ} (hi : i + 8 < w) :
    (word (c :: text) : BitVec w).getLsbD (i + 8) = (word text : BitVec w).getLsbD i := by
  rw [word_cons, BitVec.getLsbD_xor, BitVec.getLsbD_setWidth, BitVec.getLsbD_shiftLeft,
    BitVec.getLsbD_of_ge c (i + 8) (by omega), decide_eq_true hi,
    decide_eq_false (Nat.not_lt.2 (Nat.le_add_left 8 i)), Nat.add_sub_cancel, Bool.and_false,
    Bool.false_xor, Bool.not_false, Bool.true_and, Bool.true_and]

theorem word_inj {a b : List (BitVec 8)} (hlength : a.length = b.length) (h : 8 * a.length ≤ w)
    (heq : (word a : BitVec w) = word b) : a = b := by
  induction a generalizing b with
  | nil => exact (List.length_eq_zero_iff.1 hlength.symm).symm
  | cons c a ih =>
      cases b with
      | nil => cases hlength
      | cons d b =>
          rw [List.length_cons] at h
          have hbit : ∀ i, (word (c :: a) : BitVec w).getLsbD i = (word (d :: b)).getLsbD i :=
            fun i => congrArg (fun x : BitVec w => x.getLsbD i) heq
          have hhead : c = d := by
            refine BitVec.eq_of_getLsbD_eq fun i hi => ?_
            have hlow := hbit i
            rw [getLsbD_head hi, getLsbD_head hi, decide_eq_true (by omega), Bool.true_and,
              Bool.true_and] at hlow
            exact hlow
          have htail : (word a : BitVec w) = word b := by
            refine BitVec.eq_of_getLsbD_eq fun i _ => ?_
            by_cases hin : i + 8 < w
            · have hhigh := hbit (i + 8)
              rw [getLsbD_tail hin, getLsbD_tail hin] at hhigh
              exact hhigh
            · rw [getLsbD_word (by omega),
                getLsbD_word (by rw [← Nat.succ.inj hlength]; omega)]
          rw [hhead, ih (Nat.succ.inj hlength) (by omega) htail]

theorem feedAll_injective (hp : p.msb = true) (text : List (BitVec 8)) {s t : BitVec w}
    (h : feedAll p s text = feedAll p t text) : s = t := by
  induction text generalizing s t with
  | nil => exact h
  | cons c text ih =>
      have hfeed := steps_injective hp 8 (ih h)
      exact (BitVec.xor_left_inj _).1 hfeed

/-- **A burst that fits in the register is detected**, wherever it is. -/
theorem burst_detected (hp : p.msb = true) {a b : List (BitVec 8)} (hlength : a.length = b.length)
    (h : 8 * a.length ≤ w) (hne : a ≠ b) (s : BitVec w) (before after : List (BitVec 8)) :
    feedAll p s (before ++ a ++ after) ≠ feedAll p s (before ++ b ++ after) := by
  intro heq
  rw [feedAll_append, feedAll_append _ (before ++ b)] at heq
  have hmiddle := feedAll_injective hp after heq
  rw [feedAll_append, feedAll_append, feedAll_eq h, feedAll_eq (show 8 * b.length ≤ w by omega),
    hlength] at hmiddle
  exact hne (word_inj hlength h (BitVec.xor_right_inj _ |>.1 (steps_injective hp _ hmiddle)))

end Crc
