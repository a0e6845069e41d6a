/-
# Numbers of several digits

A number as a list of digits, in two readings.  `Nat.ofDigits` has the least digit first, which is
the order in which a program multiplies a number by a factor and adds a digit to it (`mulAdd`).
`horner` has the greatest digit first, the order in which digits are read and written.  A
conversion from one base to another is one `mulAdd` in the new base for each digit of the old one,
and as many digits as there are determine the number (`horner_inj`).
-/

import Mathlib.Data.Nat.Digits.Defs

namespace MultiPrecision

open Nat (ofDigits)

/-! ## Multiplying and adding -/

/-- The digits of a number times a factor and a carry, and the carry that is left. -/
def mulAdd (base factor : ℕ) : ℕ → List ℕ → List ℕ × ℕ
  | carry, [] => ([], carry)
  | carry, d :: ds =>
    let r := mulAdd base factor ((d * factor + carry) / base) ds
    ((d * factor + carry) % base :: r.1, r.2)

@[simp] theorem length_mulAdd (base factor carry : ℕ) (ds : List ℕ) :
    (mulAdd base factor carry ds).1.length = ds.length := by
  induction ds generalizing carry with
  | nil => rfl
  | cons d ds ih => simp [mulAdd, ih]

theorem mulAdd_lt {base : ℕ} (hbase : 0 < base) (factor carry : ℕ) (ds : List ℕ) :
    ∀ d ∈ (mulAdd base factor carry ds).1, d < base := by
  induction ds generalizing carry with
  | nil => exact nofun
  | cons d ds ih =>
    intro d' hd'
    rcases List.mem_cons.1 hd' with rfl | hd'
    · exact Nat.mod_lt _ hbase
    · exact ih _ d' hd'

/-- Nothing is added to no number. -/
theorem mulAdd_zero (base factor : ℕ) {ds : List ℕ} (h : ∀ d ∈ ds, d = 0) :
    mulAdd base factor 0 ds = (ds, 0) := by
  induction ds with
  | nil => rfl
  | cons d ds ih =>
    obtain rfl : d = 0 := h d List.mem_cons_self
    simp [mulAdd, ih fun d' hd' => h d' (List.mem_cons_of_mem _ hd')]

theorem ofDigits_mulAdd (base factor carry : ℕ) (ds : List ℕ) :
    ofDigits base (mulAdd base factor carry ds).1
        + base ^ ds.length * (mulAdd base factor carry ds).2
      = factor * ofDigits base ds + carry := by
  induction ds generalizing carry with
  | nil => simp [mulAdd]
  | cons d ds ih =>
    have hdigit := Nat.mod_add_div (d * factor + carry) base
    have hrest := ih ((d * factor + carry) / base)
    simp only [mulAdd, Nat.ofDigits_cons, List.length_cons]
    generalize (mulAdd base factor ((d * factor + carry) / base) ds).1 = ds' at hrest ⊢
    generalize (mulAdd base factor ((d * factor + carry) / base) ds).2 = carry' at hrest ⊢
    calc _ = (d * factor + carry) % base
          + base * (ofDigits base ds' + base ^ ds.length * carry') := by ring
      _ = (d * factor + carry) % base + base * ((d * factor + carry) / base)
          + base * (factor * ofDigits base ds) := by rw [hrest]; ring
      _ = factor * (d + base * ofDigits base ds) + carry := by rw [hdigit]; ring

/-- The number fits into its digits exactly if no carry is left. -/
theorem mulAdd_carry_eq_zero_iff {base : ℕ} (hbase : 1 < base) (factor carry : ℕ)
    (ds : List ℕ) :
    (mulAdd base factor carry ds).2 = 0
      ↔ factor * ofDigits base ds + carry < base ^ ds.length := by
  have hvalue := ofDigits_mulAdd base factor carry ds
  have hlt := Nat.ofDigits_lt_base_pow_length hbase (mulAdd_lt (by omega) factor carry ds)
  rw [length_mulAdd] at hlt
  rw [← hvalue]
  constructor
  · intro hzero
    rw [hzero]
    omega
  · intro hfit
    by_contra hcarry
    have := Nat.le_mul_of_pos_right (base ^ ds.length) (Nat.pos_of_ne_zero hcarry)
    omega

theorem ofDigits_mulAdd_of_lt {base : ℕ} (hbase : 1 < base) {factor carry : ℕ} {ds : List ℕ}
    (h : factor * ofDigits base ds + carry < base ^ ds.length) :
    ofDigits base (mulAdd base factor carry ds).1 = factor * ofDigits base ds + carry := by
  have hvalue := ofDigits_mulAdd base factor carry ds
  rw [(mulAdd_carry_eq_zero_iff hbase factor carry ds).2 h] at hvalue
  exact hvalue

/-- A carry stays smaller than the factor. -/
theorem carry_lt {base factor carry d : ℕ} (hd : d < base) (hcarry : carry < factor) :
    (d * factor + carry) / base < factor := by
  refine Nat.div_lt_of_lt_mul ?_
  calc d * factor + carry < d * factor + factor := by omega
    _ = (d + 1) * factor := by ring
    _ ≤ base * factor := Nat.mul_le_mul_right _ hd

/-! ## Digits that are read -/

/-- What a number becomes when digits are read after it. -/
def horner (base v : ℕ) (ds : List ℕ) : ℕ := ds.foldl (fun v d => base * v + d) v

@[simp] theorem horner_nil (base v : ℕ) : horner base v [] = v := rfl

@[simp] theorem horner_cons (base v d : ℕ) (ds : List ℕ) :
    horner base v (d :: ds) = horner base (base * v + d) ds := rfl

theorem horner_append (base v : ℕ) (s t : List ℕ) :
    horner base v (s ++ t) = horner base (horner base v s) t := List.foldl_append

theorem horner_eq (base v : ℕ) (ds : List ℕ) :
    horner base v ds = base ^ ds.length * v + ofDigits base ds.reverse := by
  induction ds generalizing v with
  | nil => simp
  | cons d ds ih =>
    rw [horner_cons, ih, Nat.ofDigits_reverse_cons, List.length_cons]
    ring

theorem le_horner {base : ℕ} (hbase : 0 < base) (v : ℕ) (ds : List ℕ) : v ≤ horner base v ds := by
  rw [horner_eq]
  have := Nat.le_mul_of_pos_left v (Nat.pow_pos (n := ds.length) hbase)
  omega

theorem horner_lt {base : ℕ} (hbase : 1 < base) {ds : List ℕ} (h : ∀ d ∈ ds, d < base) :
    horner base 0 ds < base ^ ds.length := by
  have hlt := Nat.ofDigits_lt_base_pow_length hbase (l := ds.reverse) fun d hd =>
    h d (List.mem_reverse.1 hd)
  rw [List.length_reverse] at hlt
  rw [horner_eq]
  omega

/-- **The digits of a number are determined by it.** -/
theorem horner_inj {base : ℕ} (hbase : 1 < base) {s t : List ℕ} (hlength : s.length = t.length)
    (hs : ∀ d ∈ s, d < base) (ht : ∀ d ∈ t, d < base)
    (h : horner base 0 s = horner base 0 t) : s = t := by
  rw [horner_eq, horner_eq] at h
  refine List.reverse_inj.1 (Nat.ofDigits_inj_of_len_eq hbase (by simp [hlength]) ?_ ?_
    (by omega))
  · exact fun d hd => hs d (List.mem_reverse.1 hd)
  · exact fun d hd => ht d (List.mem_reverse.1 hd)

/-- A greatest digit that is not zero. -/
theorem pow_le_horner (base : ℕ) {d : ℕ} (hd : 0 < d) (ds : List ℕ) :
    base ^ ds.length ≤ horner base 0 (d :: ds) := by
  rw [horner_cons, horner_eq, Nat.mul_zero, Nat.zero_add]
  have := Nat.le_mul_of_pos_right (base ^ ds.length) hd
  omega

theorem horner_zero_cons (base : ℕ) (ds : List ℕ) : horner base 0 (0 :: ds) = horner base 0 ds := by
  rw [horner_cons, Nat.mul_zero]

theorem horner_dropWhile_zero (base : ℕ) (ds : List ℕ) :
    horner base 0 (ds.dropWhile (· = 0)) = horner base 0 ds := by
  induction ds with
  | nil => rfl
  | cons d ds ih =>
    by_cases hd : d = 0
    · rw [List.dropWhile_cons_of_pos (by simpa using hd), ih, hd, horner_zero_cons]
    · rw [List.dropWhile_cons_of_neg (by simpa using hd)]

/-- How many digits a number has without the zeros in front of it. -/
theorem length_dropWhile_zero {base n : ℕ} (hbase : 1 < base) {ds : List ℕ}
    (h : ∀ d ∈ ds, d < base) (hge : base ^ n ≤ horner base 0 ds)
    (hlt : horner base 0 ds < base ^ (n + 1)) : (ds.dropWhile (· = 0)).length = n + 1 := by
  rw [← horner_dropWhile_zero] at hge hlt
  have hdigits : ∀ d ∈ ds.dropWhile (· = 0), d < base := fun d hd =>
    h d ((List.dropWhile_suffix _).subset hd)
  have hlength := horner_lt hbase hdigits
  have hupper := (Nat.pow_lt_pow_iff_right hbase).1 (Nat.lt_of_le_of_lt hge hlength)
  cases hdrop : ds.dropWhile (· = 0) with
  | nil =>
    rw [hdrop] at hupper
    exact absurd hupper (Nat.not_lt_zero _)
  | cons d rest =>
    have hd : d ≠ 0 := by
      have := List.head_dropWhile_not (· = 0) (l := ds) (by simp [hdrop])
      simpa [hdrop] using this
    rw [hdrop] at hlt hupper
    have hlower := Nat.lt_of_le_of_lt (pow_le_horner base (Nat.pos_of_ne_zero hd) rest) hlt
    have := (Nat.pow_lt_pow_iff_right hbase).1 hlower
    rw [List.length_cons] at hupper ⊢
    omega

/-- How many zeros a number has in front of it. -/
theorem le_length_takeWhile_zero_iff {base : ℕ} (hbase : 1 < base) {ds : List ℕ}
    (h : ∀ d ∈ ds, d < base) (k : ℕ) :
    k ≤ (ds.takeWhile (· = 0)).length
      ↔ k ≤ ds.length ∧ horner base 0 ds < base ^ (ds.length - k) := by
  induction ds generalizing k with
  | nil => simp
  | cons d ds ih =>
    have hlt := horner_lt hbase h
    have hrest := ih fun d' hd' => h d' (List.mem_cons_of_mem _ hd')
    cases k with
    | zero => simpa using hlt
    | succ k =>
      by_cases hd : d = 0
      · rw [List.takeWhile_cons_of_pos (by simpa using hd), hd, horner_zero_cons,
          List.length_cons, List.length_cons, Nat.add_le_add_iff_right, Nat.add_le_add_iff_right,
          Nat.add_sub_add_right]
        exact hrest k
      · rw [List.takeWhile_cons_of_neg (by simpa using hd)]
        refine iff_of_false (Nat.not_succ_le_zero k) fun ⟨hk, hlt⟩ => ?_
        have hge := pow_le_horner base (Nat.pos_of_ne_zero hd) ds
        have := (Nat.pow_lt_pow_iff_right hbase).1 (Nat.lt_of_le_of_lt hge hlt)
        rw [List.length_cons] at this
        omega

end MultiPrecision
