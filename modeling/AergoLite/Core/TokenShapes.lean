/-
# Quoted texts, comments and numbers

What the longer tokens of an SQL text look like, and where they end: a quoted text behind the quote
that has no second one, a comment where it is closed or with the text, and a number that is legal
before a character that no word has.
-/

import AergoLite.Core.Tokenizer

namespace AergoLite
namespace Core
namespace Sql

open Lexing

/-! ## Quoted texts and comments -/

/-- What is behind the quote a text begins with, up to its end. -/
inductive Quoted (delim : Char) : Text → Prop
  | close : Quoted delim [delim]
  | double {z : Text} (h : Quoted delim z) : Quoted delim (delim :: delim :: z)
  | char {c : Char} {z : Text} (hc : c ≠ delim) (h : Quoted delim z) : Quoted delim (c :: z)

theorem quoteLength_of_quoted {delim : Char} {t r : Text} (h : Quoted delim t)
    (hr : Halts (· == delim) r) : quoteLength delim (t ++ r) = some t.length := by
  induction h with
  | close =>
      cases r with
      | nil => rw [List.append_nil, quoteLength, if_pos rfl]; rfl
      | cons d r =>
          have hd : d ≠ delim := beq_eq_false_iff_ne.1 (hr d rfl)
          rw [List.cons_append, List.nil_append, quoteLength, if_pos rfl, if_neg hd]
          rfl
  | double h ih =>
      rw [List.cons_append, List.cons_append, quoteLength, if_pos rfl, if_pos rfl, ih]
      rfl
  | @char c z hc h ih =>
      cases z with
      | nil => cases h
      | cons c' z =>
          rw [List.cons_append, List.cons_append, quoteLength, if_neg hc, ← List.cons_append, ih]
          rfl

theorem quoteLength_pos {delim : Char} {z : Text} {n : ℕ} (h : quoteLength delim z = some n) :
    0 < n := by
  fun_cases quoteLength delim z <;> simp_all [quoteLength] <;> omega

theorem quoteLength_le {delim : Char} {z : Text} {n : ℕ} (h : quoteLength delim z = some n) :
    n ≤ z.length := by
  induction z using quoteLength.induct delim generalizing n with
  | case1 => cases h
  | case2 =>
      rw [quoteLength, if_pos rfl] at h
      exact Option.some.inj h ▸ Nat.le_refl _
  | case3 c hc =>
      rw [quoteLength, if_neg hc] at h
      cases h
  | case4 z ih =>
      rw [quoteLength, if_pos rfl, if_pos rfl] at h
      obtain ⟨m, hm, rfl⟩ := Option.map_eq_some_iff.1 h
      exact Nat.add_le_add_right (ih hm) 2
  | case5 c' z hc' =>
      rw [quoteLength, if_pos rfl, if_neg hc'] at h
      rw [← Option.some.inj h]
      exact Nat.succ_le_succ (Nat.zero_le _)
  | case6 c c' z hc ih =>
      rw [quoteLength, if_neg hc] at h
      obtain ⟨m, hm, rfl⟩ := Option.map_eq_some_iff.1 h
      exact Nat.add_le_add_right (ih hm) 1

theorem quoted_of_quoteLength {delim : Char} {t r : Text}
    (h : quoteLength delim (t ++ r) = some t.length) : Quoted delim t ∧ Halts (· == delim) r := by
  induction t using quoteLength.induct delim with
  | case1 => exact absurd (quoteLength_pos h) (Nat.lt_irrefl 0)
  | case2 =>
      refine ⟨.close, fun d hd => ?_⟩
      cases r with
      | nil => cases hd
      | cons d' r =>
          obtain rfl : d' = d := Option.some.inj hd
          refine beq_eq_false_iff_ne.2 fun heq => ?_
          rw [List.cons_append, List.nil_append, quoteLength, if_pos rfl, if_pos heq] at h
          obtain ⟨m, -, hm⟩ := Option.map_eq_some_iff.1 h
          exact absurd hm (by rw [List.length_singleton]; omega)
  | case3 c hc =>
      cases r with
      | nil => rw [List.append_nil, quoteLength, if_neg hc] at h; cases h
      | cons d r =>
          rw [List.cons_append, List.nil_append, quoteLength, if_neg hc] at h
          obtain ⟨m, hm, hlength⟩ := Option.map_eq_some_iff.1 h
          exact absurd (quoteLength_pos hm) (by rw [List.length_singleton] at hlength; omega)
  | case4 z ih =>
      rw [List.cons_append, List.cons_append, quoteLength, if_pos rfl, if_pos rfl] at h
      obtain ⟨m, hm, hlength⟩ := Option.map_eq_some_iff.1 h
      obtain ⟨hz, hr⟩ := ih (hm.trans (congrArg some (Nat.add_right_cancel hlength)))
      exact ⟨.double hz, hr⟩
  | case5 c' z hc' =>
      rw [List.cons_append, List.cons_append, quoteLength, if_pos rfl, if_neg hc'] at h
      exact absurd (Option.some.inj h) (by rw [List.length_cons, List.length_cons]; omega)
  | case6 c c' z hc ih =>
      rw [List.cons_append, List.cons_append, quoteLength, if_neg hc, ← List.cons_append] at h
      obtain ⟨m, hm, hlength⟩ := Option.map_eq_some_iff.1 h
      obtain ⟨hz, hr⟩ := ih (hm.trans (congrArg some (Nat.add_right_cancel hlength)))
      exact ⟨.char hc hz, hr⟩

theorem commentLength_cons {c : Char} {z : Text} (h : ¬(c = '*' ∧ z.head? = some '/')) :
    commentLength (c :: z) = commentLength z + 1 := by
  refine commentLength.eq_2 c z fun tail hc hz => h ⟨hc, ?_⟩
  rw [hz]
  rfl

theorem commentLength_le (z : Text) : commentLength z ≤ z.length := by
  induction z with
  | nil => exact Nat.le_refl _
  | cons c z ih =>
      by_cases hclose : c = '*' ∧ z.head? = some '/'
      · obtain ⟨rfl, hz⟩ := hclose
        obtain ⟨z', rfl⟩ := List.head?_eq_some_iff.1 hz
        exact Nat.le_add_left 2 _
      · rw [commentLength_cons hclose]
        exact Nat.add_le_add_right ih 1

theorem eq_nil_of_commentLength {z : Text} (h : commentLength z = 0) : z = [] := by
  cases z with
  | nil => rfl
  | cons c z =>
      by_cases hclose : c = '*' ∧ z.head? = some '/'
      · obtain ⟨rfl, hz⟩ := hclose
        obtain ⟨z', rfl⟩ := List.head?_eq_some_iff.1 hz
        exact absurd h (Nat.succ_ne_zero 1)
      · rw [commentLength_cons hclose] at h
        exact absurd h (Nat.succ_ne_zero _)

/-- A comment ends where it is closed, or with the text. -/
theorem commentLength_congr {t r r' : Text} (h : commentLength (t ++ r) = t.length)
    (hnil : r = [] → r' = []) : commentLength (t ++ r') = t.length := by
  induction t with
  | nil => rw [hnil (eq_nil_of_commentLength h)]; rfl
  | cons c t ih =>
      by_cases hclose : c = '*' ∧ (t ++ r).head? = some '/'
      · obtain ⟨rfl, hz⟩ := hclose
        obtain ⟨z, hz⟩ := List.head?_eq_some_iff.1 hz
        rw [List.cons_append, hz, commentLength, List.length_cons] at h
        obtain ⟨d, rfl⟩ := List.length_eq_one_iff.1 (Nat.succ.inj h).symm
        rw [(List.cons.inj hz).1]
        rfl
      · rw [List.cons_append, commentLength_cons hclose, List.length_cons] at h
        have ht := Nat.succ.inj h
        have hopen : ¬(c = '*' ∧ (t ++ r').head? = some '/') := by
          cases t with
          | nil => rw [hnil (eq_nil_of_commentLength ht)]; exact fun hc => absurd hc.2 (by simp)
          | cons d t => exact hclose
        rw [List.cons_append, commentLength_cons hopen, ih ht, List.length_cons]

/-! ## Numbers -/

/-- The point and the digits of a number, and what is behind them. -/
inductive Fraction : Text → Text → Prop
  | none {r : Text} (h : Halts (· == '.') r) : Fraction [] r
  | digits {ds r : Text} (hds : ∀ c ∈ ds, c.isDigit = true) (h : Halts Char.isDigit r) :
      Fraction ('.' :: ds) r

theorem fractionLength_of_fraction {fr r : Text} (h : Fraction fr r) :
    fractionLength (fr ++ r) = fr.length := by
  cases h with
  | none h =>
      rw [List.nil_append]
      fun_cases fractionLength r with
      | case1 z => exact absurd (h '.' rfl) (by decide)
      | case2 => rfl
  | digits hds h =>
      rw [List.cons_append, fractionLength, takeWhile_append_of_halts hds h, List.length_cons,
        Nat.add_comm]

theorem exists_fraction (z : Text) : ∃ fr r, z = fr ++ r ∧ Fraction fr r := by
  by_cases h : z.head? = some '.'
  · obtain ⟨z, rfl⟩ := List.head?_eq_some_iff.1 h
    exact ⟨'.' :: z.takeWhile Char.isDigit, z.dropWhile Char.isDigit,
      by rw [List.cons_append, List.takeWhile_append_dropWhile],
      .digits (fun c hc => List.mem_takeWhile_imp hc) (halts_dropWhile _ z)⟩
  · exact ⟨[], z, rfl, .none fun c hc => beq_eq_false_iff_ne.2 fun heq => h (heq ▸ hc)⟩

theorem startsExponent_append {c : Char} {z r : Text} (h : Halts Char.isDigit r) :
    startsExponent (c :: z ++ r) = startsExponent (c :: z) := by
  rw [List.cons_append, startsExponent, startsExponent, List.head?_cons, List.head?_cons,
    List.tail_cons, List.tail_cons, any_head?_append _ h]

/-- The exponent of a number, and what is behind it. -/
inductive Exponent : Text → Text → Prop
  | none {r : Text} (h : exponentLength r = 0) : Exponent [] r
  | digits {e c : Char} {ds r : Text} (he : e = 'e' ∨ e = 'E')
      (hc : startsExponent (c :: ds) = true) (hds : ∀ c ∈ ds, c.isDigit = true)
      (h : Halts Char.isDigit r) : Exponent (e :: c :: ds) r

theorem exponentLength_of_exponent {ex r : Text} (h : Exponent ex r) :
    exponentLength (ex ++ r) = ex.length := by
  cases h with
  | none h => exact h
  | @digits e c ds _ he hc hds h =>
      have hstart : startsExponent (c :: ds ++ r) = true := by rw [startsExponent_append h, hc]
      rw [List.cons_append, exponentLength, if_pos ⟨he, hstart⟩, List.cons_append,
        List.drop_succ_cons, List.drop_zero, takeWhile_append_of_halts hds h, List.length_cons,
        List.length_cons, Nat.add_comm]

theorem exponentLength_of_halts {r : Text} (h : Halts isIdChar r) : exponentLength r = 0 := by
  cases r with
  | nil => rfl
  | cons c r =>
      rw [exponentLength, if_neg]
      rintro ⟨rfl | rfl, -⟩ <;> exact absurd (h _ rfl) (by decide)

theorem exists_exponent (z : Text) : ∃ ex r, z = ex ++ r ∧ Exponent ex r := by
  by_cases h : exponentLength z = 0
  · exact ⟨[], z, rfl, .none h⟩
  · fun_cases exponentLength z with
    | case1 e z hexponent =>
        cases z with
        | nil => exact absurd hexponent.2 (by decide)
        | cons c z =>
            have hhalts := halts_dropWhile Char.isDigit z
            have hstart : startsExponent (c :: z.takeWhile Char.isDigit) = true := by
              rw [← startsExponent_append hhalts, List.cons_append,
                List.takeWhile_append_dropWhile]
              exact hexponent.2
            exact ⟨e :: c :: z.takeWhile Char.isDigit, z.dropWhile Char.isDigit,
              by rw [List.cons_append, List.cons_append, List.takeWhile_append_dropWhile],
              .digits hexponent.1 hstart (fun c hc => List.mem_takeWhile_imp hc) hhalts⟩
    | case2 e z hexponent => exact absurd (by rw [exponentLength, if_neg hexponent]) h
    | case3 => exact absurd rfl h

/-- The digits, the fraction and the exponent of a number, and what is behind it. -/
structure Numeral (ds fr ex r : Text) : Prop where
  digits : ∀ c ∈ ds, c.isDigit = true
  fraction : Fraction fr (ex ++ r)
  exponent : Exponent ex r
  ends : Halts isIdChar r

/-- The digits end there. -/
theorem Numeral.halts {ds fr ex r : Text} (h : Numeral ds fr ex r) :
    Halts Char.isDigit (fr ++ (ex ++ r)) := by
  have hends : Halts Char.isDigit r := h.ends.mono fun c => isIdChar_of_isDigit
  cases h.fraction with
  | none _ =>
      cases h.exponent with
      | none _ => exact hends
      | digits he _ _ _ =>
          intro c hc
          obtain rfl := Option.some.inj hc
          rcases he with rfl | rfl <;> decide
  | digits _ _ =>
      intro c hc
      obtain rfl := Option.some.inj hc
      decide

/-- What the digits are followed by. -/
theorem Numeral.next {ds fr ex r : Text} (h : Numeral ds fr ex r) {c : Char}
    (hc : (fr ++ (ex ++ r)).head? = some c) : c ≠ 'x' ∧ c ≠ 'X' := by
  cases h.fraction with
  | none _ =>
      cases h.exponent with
      | none _ =>
          have hid := h.ends c hc
          constructor <;> rintro rfl <;> exact absurd hid (by decide)
      | digits he _ _ _ =>
          obtain rfl := Option.some.inj hc
          rcases he with rfl | rfl <;> decide
  | digits _ _ =>
      obtain rfl := Option.some.inj hc
      decide

/-- It is not hexadecimal. -/
theorem Numeral.not_hex {ds fr ex r : Text} (h : Numeral ds fr ex r)
    (hzero : (ds ++ (fr ++ (ex ++ r))).head? = some '0') :
    ¬((ds ++ (fr ++ (ex ++ r))).tail.head? = some 'x' ∨
      (ds ++ (fr ++ (ex ++ r))).tail.head? = some 'X') := by
  rcases ds with _ | ⟨d, _ | ⟨d', ds⟩⟩
  · exact absurd (h.halts _ hzero) (by decide)
  · rintro (hx | hx)
    · exact (h.next hx).1 rfl
    · exact (h.next hx).2 rfl
  · have hdigit := h.digits d' (List.mem_cons_of_mem _ List.mem_cons_self)
    rintro (hx | hx) <;> obtain rfl := Option.some.inj hx <;> exact absurd hdigit (by decide)

theorem getNumber_split {ds fr ex r : Text} (hds : ∀ c ∈ ds, c.isDigit = true)
    (hhalts : Halts Char.isDigit (fr ++ (ex ++ r))) (hfr : Fraction fr (ex ++ r))
    (hex : Exponent ex r)
    (hhex : ¬((ds ++ (fr ++ (ex ++ r))).head? = some '0' ∧
      ((ds ++ (fr ++ (ex ++ r))).tail.head? = some 'x' ∨
        (ds ++ (fr ++ (ex ++ r))).tail.head? = some 'X') ∧
      ((ds ++ (fr ++ (ex ++ r))).drop 2).head?.any isXDigit = true)) :
    getNumber (ds ++ (fr ++ (ex ++ r))) =
      (if 0 < (r.takeWhile isIdChar).length then .illegal
        else if fr = [] ∧ ex = [] then .integer else .float,
        (ds ++ (fr ++ ex)).length + (r.takeWhile isIdChar).length) := by
  have hdrop : (ds ++ (fr ++ (ex ++ r))).drop ds.length = fr ++ (ex ++ r) := List.drop_left
  have hdrop' : (ds ++ (fr ++ (ex ++ r))).drop (ds.length + fr.length) = ex ++ r := by
    rw [← List.drop_drop, hdrop, List.drop_left]
  have hdrop'' : (ds ++ (fr ++ (ex ++ r))).drop (ds.length + fr.length + ex.length) = r := by
    rw [← List.drop_drop, hdrop', List.drop_left]
  rw [getNumber, if_neg hhex]
  dsimp only
  rw [takeWhile_append_of_halts hds hhalts, hdrop, fractionLength_of_fraction hfr, hdrop',
    exponentLength_of_exponent hex, hdrop'']
  simp only [List.length_eq_zero_iff, List.length_append, Nat.add_assoc]

/-- **A number is read to its end.** -/
theorem getNumber_of_numeral {ds fr ex r : Text} (h : Numeral ds fr ex r) :
    getNumber (ds ++ (fr ++ (ex ++ r))) =
      (if fr = [] ∧ ex = [] then .integer else .float, (ds ++ (fr ++ ex)).length) := by
  rw [getNumber_split h.digits h.halts h.fraction h.exponent
    fun hhex => h.not_hex hhex.1 hhex.2.1, takeWhile_of_halts h.ends]
  rfl

/-- A number in hexadecimal notation. -/
structure HexNumeral (t r : Text) : Prop where
  shape : ∃ x d ds, t = '0' :: x :: d :: ds ∧ (x = 'x' ∨ x = 'X') ∧ isXDigit d = true ∧
    ∀ c ∈ ds, isXDigit c = true
  ends : Halts isXDigit r

theorem getNumber_of_hexNumeral {t r : Text} (h : HexNumeral t r) :
    getNumber (t ++ r) = (.integer, t.length) := by
  obtain ⟨⟨x, d, ds, rfl, hx, hd, hds⟩, hends⟩ := h
  have hhex : ('0' :: x :: d :: ds ++ r).head? = some '0' ∧
      (('0' :: x :: d :: ds ++ r).tail.head? = some 'x' ∨
        ('0' :: x :: d :: ds ++ r).tail.head? = some 'X') ∧
      (('0' :: x :: d :: ds ++ r).drop 2).head?.any isXDigit = true :=
    ⟨rfl, hx.imp (congrArg some) (congrArg some), hd⟩
  rw [getNumber, if_pos hhex]
  simp only [List.cons_append, List.drop_succ_cons, List.drop_zero,
    takeWhile_append_of_halts hds hends, List.length_cons, Nat.add_comm, Nat.add_left_comm]

/-- A number that is legal is hexadecimal, or has the form of a numeral. -/
theorem numeral_of_getNumber {t r : Text} {type : TokenType}
    (h : getNumber (t ++ r) = (type, t.length)) (hlegal : type ≠ .illegal) :
    (HexNumeral t r ∧ type = .integer) ∨
      ∃ ds fr ex, t = ds ++ (fr ++ ex) ∧ Numeral ds fr ex r := by
  by_cases hhex : (t ++ r).head? = some '0' ∧
      ((t ++ r).tail.head? = some 'x' ∨ (t ++ r).tail.head? = some 'X') ∧
      ((t ++ r).drop 2).head?.any isXDigit = true
  · left
    rw [getNumber, if_pos hhex] at h
    obtain ⟨htype, hlength⟩ := Prod.mk.inj h
    obtain ⟨c0, c1, c2, t, rfl⟩ : ∃ c0 c1 c2 t', t = c0 :: c1 :: c2 :: t' := by
      rcases t with _ | ⟨c0, _ | ⟨c1, _ | ⟨c2, t⟩⟩⟩
      · exact absurd hlength (by rw [List.length_nil]; omega)
      · exact absurd hlength (by rw [List.length_singleton]; omega)
      · exact absurd hlength (by rw [List.length_cons, List.length_singleton]; omega)
      · exact ⟨c0, c1, c2, t, rfl⟩
    obtain ⟨hzero, hx, hd⟩ := hhex
    simp only [List.cons_append, List.drop_succ_cons, List.drop_zero, List.length_cons] at hlength
    obtain ⟨hds, hends⟩ := @halts_of_length_takeWhile Char isXDigit t r (by omega)
    obtain rfl := Option.some.inj hzero
    exact ⟨⟨⟨c1, c2, t, rfl, hx.imp Option.some.inj Option.some.inj, hd, hds⟩, hends⟩, htype.symm⟩
  · right
    obtain ⟨fr, z, hz, hfr⟩ := exists_fraction ((t ++ r).dropWhile Char.isDigit)
    obtain ⟨ex, r', rfl, hex⟩ := exists_exponent z
    have hsplit : t ++ r = (t ++ r).takeWhile Char.isDigit ++ (fr ++ (ex ++ r')) := by
      rw [← hz, List.takeWhile_append_dropWhile]
    have hds : ∀ c ∈ (t ++ r).takeWhile Char.isDigit, c.isDigit = true :=
      fun c hc => List.mem_takeWhile_imp hc
    have hhalts : Halts Char.isDigit (fr ++ (ex ++ r')) := hz ▸ halts_dropWhile _ _
    generalize (t ++ r).takeWhile Char.isDigit = ds at hsplit hds
    rw [hsplit] at h hhex
    rw [getNumber_split hds hhalts hfr hex hhex] at h
    obtain ⟨htype, hlength⟩ := Prod.mk.inj h
    have hrest : ¬0 < (r'.takeWhile isIdChar).length := fun hpos => by
      rw [if_pos hpos] at htype
      exact hlegal htype.symm
    rw [Nat.eq_zero_of_not_pos hrest, Nat.add_zero] at hlength
    rw [← List.append_assoc fr, ← List.append_assoc ds] at hsplit
    obtain ⟨rfl, rfl⟩ := List.append_inj hsplit hlength.symm
    refine ⟨ds, fr, ex, rfl, hds, hfr, hex, fun c hc => ?_⟩
    cases hid : isIdChar c with
    | false => rfl
    | true =>
        obtain ⟨r', rfl⟩ := List.head?_eq_some_iff.1 hc
        rw [List.takeWhile_cons_of_pos hid] at hrest
        exact absurd (Nat.succ_pos _) hrest

theorem Numeral.congr {ds fr ex r r' : Text} (h : Numeral ds fr ex r)
    (hhead : r'.head? = r.head?) : Numeral ds fr ex r' := by
  have hhead' : (ex ++ r').head? = (ex ++ r).head? := by
    rw [List.head?_append, List.head?_append, hhead]
  have hends := h.ends.congr hhead
  refine ⟨h.digits, ?_, ?_, hends⟩
  · cases h.fraction with
    | none hr => exact .none (hr.congr hhead')
    | digits hds hr => exact .digits hds (hr.congr hhead')
  · cases h.exponent with
    | none _ => exact .none (exponentLength_of_halts hends)
    | digits he hc hds hr => exact .digits he hc hds (hr.congr hhead)

theorem getNumber_congr {t r r' : Text} {type : TokenType}
    (h : getNumber (t ++ r) = (type, t.length)) (hlegal : type ≠ .illegal)
    (hhead : r'.head? = r.head?) : getNumber (t ++ r') = (type, t.length) := by
  rcases numeral_of_getNumber h hlegal with ⟨hhex, rfl⟩ | ⟨ds, fr, ex, rfl, hnumeral⟩
  · exact getNumber_of_hexNumeral ⟨hhex.shape, hhex.ends.congr hhead⟩
  · rw [List.append_assoc, List.append_assoc] at h ⊢
    rw [getNumber_of_numeral hnumeral] at h
    rw [getNumber_of_numeral (hnumeral.congr hhead), h]

end Sql
end Core
end AergoLite
