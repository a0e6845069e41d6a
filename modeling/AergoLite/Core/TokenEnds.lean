/-
# Where a token ends

`sqlite3GetToken` takes at least a character, and no more than there are, so that it makes a lexer.

Where a token ends depends on the text behind it, but for a token that is legal only on the next
character: `getToken_congr` says so, with the one exception of a slash before a star that is the
end of the text.
-/

import AergoLite.Core.TokenShapes

namespace AergoLite
namespace Core
namespace Sql

open Lexing

/-! ## Progress -/

theorem fractionLength_le (z : Text) : fractionLength z ≤ z.length := by
  obtain ⟨fr, r, rfl, h⟩ := exists_fraction z
  rw [fractionLength_of_fraction h, List.length_append]
  exact Nat.le_add_right _ _

theorem exponentLength_le (z : Text) : exponentLength z ≤ z.length := by
  obtain ⟨ex, r, rfl, h⟩ := exists_exponent z
  rw [exponentLength_of_exponent h, List.length_append]
  exact Nat.le_add_right _ _

theorem getNumber_le (z : Text) : (getNumber z).2 ≤ z.length := by
  rw [getNumber]
  split_ifs with hhex
  · have hdrop := length_takeWhile_drop_le isXDigit z 3
    have hlength : 2 < z.length := by
      by_contra hshort
      rw [List.drop_eq_nil_of_le (Nat.not_lt.1 hshort)] at hhex
      exact Bool.false_ne_true hhex.2.2
    dsimp only
    omega
  · dsimp only
    have hdigits := length_takeWhile_drop_le Char.isDigit z 0
    have hfraction := fractionLength_le (z.drop (z.takeWhile Char.isDigit).length)
    have hexponent := exponentLength_le (z.drop ((z.takeWhile Char.isDigit).length +
      fractionLength (z.drop (z.takeWhile Char.isDigit).length)))
    have hrest := length_takeWhile_drop_le isIdChar z ((z.takeWhile Char.isDigit).length +
      fractionLength (z.drop (z.takeWhile Char.isDigit).length) +
      exponentLength (z.drop ((z.takeWhile Char.isDigit).length +
        fractionLength (z.drop (z.takeWhile Char.isDigit).length))))
    rw [List.drop_zero] at hdigits
    rw [List.length_drop] at hfraction hexponent
    omega

theorem variableName_le (n : Bool) (z : Text) : (variableName n z).2 ≤ z.length := by
  fun_induction variableName n z with
  | case1 => exact Nat.le_refl 0
  | case2 n c z hid ih => exact Nat.succ_le_succ ih
  | case3 n c z hid hparen i hclose =>
      obtain ⟨z', hz'⟩ := List.head?_eq_some_iff.1 hclose
      have hlength := congrArg List.length hz'
      rw [List.length_drop, List.length_cons] at hlength
      rw [List.length_cons]
      omega
  | case4 n c z hid hparen i hopen =>
      exact Nat.succ_le_succ (length_takeWhile_drop_le _ z 0)
  | case5 n z hid hparen ih => exact Nat.succ_le_succ (Nat.succ_le_succ ih)
  | case6 => exact Nat.zero_le _

theorem getMinus_le (z : Text) : (getMinus z).2 ≤ z.length + 1 := by
  rw [getMinus]
  split_ifs with h
  · have hpos := length_pos_of_head? h
    have htake := length_takeWhile_le (· != '\n') z.tail
    rw [List.length_tail] at htake
    dsimp only
    omega
  · exact Nat.succ_pos _

theorem getSlash_le (z : Text) : (getSlash z).2 ≤ z.length + 1 := by
  rw [getSlash]
  split_ifs with h
  · have hpos := length_pos_of_head? h.1
    have hcomment := commentLength_le z.tail
    rw [List.length_tail] at hcomment
    dsimp only
    omega
  · exact Nat.succ_pos _

theorem getQuoted_le (delim : Char) (z : Text) : (getQuoted delim z).2 ≤ z.length + 1 := by
  rw [getQuoted]
  cases hquote : quoteLength delim z with
  | some n => exact Nat.succ_le_succ (quoteLength_le hquote)
  | none => exact Nat.le_refl _

theorem getBracketed_le (z : Text) : (getBracketed z).2 ≤ z.length + 1 := by
  have htake := length_takeWhile_le (· != ']') z
  rw [getBracketed]
  split_ifs
  · dsimp only
    omega
  · exact Nat.succ_le_succ htake

theorem getWord_le (c : Char) (z : Text) : (getWord c z).2 ≤ z.length + 1 := by
  have htake := length_takeWhile_le isKeywordChar z
  have hdrop := length_takeWhile_drop_le isIdChar z (z.takeWhile isKeywordChar).length
  rw [getWord]
  dsimp only
  omega

theorem getX_le (z : Text) : (getX z).2 ≤ z.length + 1 := by
  dsimp only [getX]
  split_ifs with hquote hblob hclosed
  · have hpos := length_pos_of_head? hblob.1
    rw [List.length_drop, List.length_tail] at hpos
    dsimp only
    omega
  · rw [List.length_tail] at hclosed
    dsimp only
    omega
  · have hpos := length_pos_of_head? hquote
    have htake := length_takeWhile_le (· != '\'') z.tail
    rw [List.length_tail] at htake
    dsimp only
    omega
  · exact Nat.succ_le_succ (length_takeWhile_le isIdChar z)

theorem getToken_le (z : Text) : (getToken z).2 ≤ z.length := by
  rcases z with _ | ⟨c, z⟩
  · exact Nat.le_refl 0
  have hhead : ∀ {d}, z.head? = some d → 0 < z.length := length_pos_of_head?
  rw [getToken, List.length_cons]
  cases charClass c with
  | lp | rp | semi | plus | star | percent | comma | and | tilda | illegal | nul =>
      exact Nat.succ_pos _
  | space => exact Nat.succ_le_succ (length_takeWhile_le isSpace z)
  | minus => exact getMinus_le z
  | slash => exact getSlash_le z
  | eq | bang | pipe =>
      dsimp only
      split_ifs with h
      · exact Nat.succ_le_succ (hhead h)
      · exact Nat.succ_pos _
  | lt =>
      dsimp only
      split_ifs with h h' h''
      · exact Nat.succ_le_succ (hhead h)
      · exact Nat.succ_le_succ (hhead h')
      · exact Nat.succ_le_succ (hhead h'')
      · exact Nat.succ_pos _
  | gt =>
      dsimp only
      split_ifs with h h'
      · exact Nat.succ_le_succ (hhead h)
      · exact Nat.succ_le_succ (hhead h')
      · exact Nat.succ_pos _
  | quote => exact getQuoted_le c z
  | dot =>
      dsimp only
      split_ifs
      · exact getNumber_le _
      · exact Nat.succ_pos _
  | digit => exact getNumber_le _
  | quote2 => exact getBracketed_le z
  | varnum => exact Nat.succ_le_succ (length_takeWhile_le Char.isDigit z)
  | dollar | varalpha => exact Nat.succ_le_succ (variableName_le false z)
  | kywd => exact getWord_le c z
  | x => exact getX_le z
  | id => exact Nat.succ_le_succ (length_takeWhile_le isIdChar z)

theorem getNumber_pos {c : Char} {z : Text} (h : charClass c = .digit) :
    0 < (getNumber (c :: z)).2 := by
  rw [getNumber]
  split_ifs
  · exact Nat.succ_pos _
  · rw [List.takeWhile_cons_of_pos ((isDigit_iff c).2 h), List.length_cons]
    dsimp only
    omega

theorem eq_dot {c : Char} (h : charClass c = .dot) : c = '.' :=
  forall_char (fun c => charClass c = .dot → c = '.') (by decide +kernel)
    (fun c hle hdot => absurd ((charClass_of_le hle).symm.trans hdot) CharClass.noConfusion) c h

theorem getToken_pos (c : Char) (z : Text) : 0 < (getToken (c :: z)).2 := by
  rw [getToken]
  cases hclass : charClass c with
  | digit => exact getNumber_pos hclass
  | dot =>
      obtain rfl := eq_dot hclass
      dsimp only
      split_ifs
      · rw [getNumber, if_neg fun h => absurd (Option.some.inj h.1) (by decide)]
        rw [List.takeWhile_cons_of_neg (by decide)]
        have hfraction : fractionLength ('.' :: z) = (z.takeWhile Char.isDigit).length + 1 := rfl
        dsimp only [List.length_nil]
        rw [List.drop_zero, hfraction]
        omega
      · exact Nat.one_pos
  | minus => rw [getMinus]; split_ifs <;> exact Nat.succ_pos _
  | slash => rw [getSlash]; split_ifs <;> exact Nat.succ_pos _
  | quote => dsimp only [getQuoted]; split <;> exact Nat.succ_pos _
  | quote2 => rw [getBracketed]; split_ifs <;> exact Nat.succ_pos _
  | x => dsimp only [getX]; split_ifs <;> exact Nat.succ_pos _
  | eq | lt | gt | bang | pipe => dsimp only; split_ifs <;> exact Nat.succ_pos _
  | space | varnum | dollar | varalpha | kywd | id => exact Nat.succ_pos _
  | lp | rp | semi | plus | star | percent | comma | and | tilda | illegal | nul =>
      exact Nat.one_pos

/-- The tokens of SQL texts. -/
def lexer : Lexer Char TokenType := ⟨getToken, getToken_pos, getToken_le⟩

/-! ## What the end of a token depends on -/

/-- The tokens that letters, digits and quotes make up. -/
def TokenType.isWord : TokenType → Bool
  | .id | .string | .blob | .integer | .float | .variable | .dot | .keyword _ => true
  | _ => false

/-- What the other tokens go on with. -/
def operatorEnds : List (Char → Bool) :=
  [isSpace, (· != '\n'), fun _ => true, (· == '='), (· == '>'), (· == '<'), (· == '|')]

/-- Of the texts behind a token, neither makes it longer. -/
structure SameEnd (type : TokenType) (r r' : Text) : Prop where
  word : type.isWord = true → r'.head? = r.head?
  ends : ∀ p ∈ operatorEnds, Halts p r → Halts p r'
  minus : type = .minus → Halts (· == '-') r → Halts (· == '-') r'
  slash : type = .slash → ¬(r.head? = some '*' ∧ r.tail ≠ []) →
    ¬(r'.head? = some '*' ∧ r'.tail ≠ [])

/-- An operator that may have a second character. -/
theorem operator_congr {a : Char} {t r r' : Text} {type type₂ : TokenType}
    {f : Text → TokenType × ℕ}
    (h : (if (t ++ r).head? = some a then (type₂, 2) else f (t ++ r)) = (type, t.length + 1))
    (hr : Halts (· == a) r → Halts (· == a) r')
    (hf : f (t ++ r) = (type, t.length + 1) → f (t ++ r') = (type, t.length + 1)) :
    (if (t ++ r').head? = some a then (type₂, 2) else f (t ++ r')) = (type, t.length + 1) := by
  by_cases hhead : (t ++ r).head? = some a
  · rw [if_pos hhead] at h
    obtain ⟨d, rfl⟩ := List.length_eq_one_iff.1 (Nat.succ.inj (Prod.mk.inj h).2).symm
    rwa [if_pos (by exact hhead)]
  · rw [if_neg hhead] at h
    rw [if_neg (head?_append_ne hr hhead)]
    exact hf h

theorem getMinus_congr {t r r' : Text} {type : TokenType}
    (h : getMinus (t ++ r) = (type, t.length + 1)) (hsame : SameEnd type r r') :
    getMinus (t ++ r') = (type, t.length + 1) := by
  rw [getMinus] at h ⊢
  by_cases hhead : (t ++ r).head? = some '-'
  · rw [if_pos hhead] at h
    obtain ⟨rfl, hlength⟩ := Prod.mk.inj h
    cases t with
    | nil => exact absurd (Nat.succ.inj hlength) (Nat.succ_ne_zero _)
    | cons d t =>
        rw [if_pos (by exact hhead)]
        exact Prod.ext rfl (congrArg (· + 2) (takeWhile_congr (Nat.succ.inj (Nat.succ.inj hlength))
          (hsame.ends _ (by simp [operatorEnds]))))
  · rw [if_neg hhead] at h
    obtain ⟨rfl, hlength⟩ := Prod.mk.inj h
    rw [if_neg (head?_append_ne (hsame.minus rfl) hhead)]
    exact h

theorem SameEnd.nil {type : TokenType} {r r' : Text} (hsame : SameEnd type r r') (h : r = []) :
    r' = [] := by
  have hend := hsame.ends (fun _ => true) (by simp [operatorEnds])
    (h ▸ fun c hc => absurd hc (by simp))
  cases r' with
  | nil => rfl
  | cons d r' => exact absurd (hend d rfl) Bool.noConfusion

theorem getSlash_congr {t r r' : Text} {type : TokenType}
    (h : getSlash (t ++ r) = (type, t.length + 1)) (hsame : SameEnd type r r') :
    getSlash (t ++ r') = (type, t.length + 1) := by
  rw [getSlash] at h ⊢
  by_cases hopen : (t ++ r).head? = some '*' ∧ (t ++ r).tail ≠ []
  · rw [if_pos hopen] at h
    obtain ⟨rfl, hlength⟩ := Prod.mk.inj h
    cases t with
    | nil => exact absurd (Nat.succ.inj hlength) (Nat.succ_ne_zero _)
    | cons d t =>
        have hcomment := commentLength_congr (Nat.succ.inj (Nat.succ.inj hlength)) hsame.nil
        have hne : t ++ r' ≠ [] := by
          intro hempty
          obtain ⟨rfl, -⟩ := List.append_eq_nil_iff.1 hempty
          exact hopen.2 (eq_nil_of_commentLength (Nat.succ.inj (Nat.succ.inj hlength)))
        rw [if_pos ⟨hopen.1, hne⟩]
        exact Prod.ext rfl (congrArg (· + 2) hcomment)
  · rw [if_neg hopen] at h
    obtain ⟨rfl, hlength⟩ := Prod.mk.inj h
    obtain rfl := List.length_eq_zero_iff.1 (Nat.succ.inj hlength).symm
    rw [List.nil_append, if_neg (hsame.slash rfl hopen)]
    rfl

theorem getQuoted_congr {delim : Char} {t r r' : Text} {type : TokenType}
    (h : getQuoted delim (t ++ r) = (type, t.length + 1)) (hlegal : type ≠ .illegal)
    (hsame : SameEnd type r r') : getQuoted delim (t ++ r') = (type, t.length + 1) := by
  rw [getQuoted] at h ⊢
  cases hquote : quoteLength delim (t ++ r) with
  | none =>
      rw [hquote] at h
      exact absurd (Prod.mk.inj h).1.symm hlegal
  | some n =>
      rw [hquote] at h
      obtain ⟨htype, hlength⟩ := Prod.mk.inj h
      obtain ⟨hquoted, hr⟩ := quoted_of_quoteLength
        (hquote.trans (congrArg some (Nat.succ.inj hlength)))
      have hword : type.isWord = true := by
        rw [← htype]
        split_ifs <;> rfl
      rw [quoteLength_of_quoted hquoted (hr.congr (hsame.word hword)), ← htype]

theorem getBracketed_congr {t r r' : Text} {type : TokenType}
    (h : getBracketed (t ++ r) = (type, t.length + 1)) (hlegal : type ≠ .illegal) :
    getBracketed (t ++ r') = (type, t.length + 1) := by
  rw [getBracketed] at h ⊢
  by_cases hclosed : ((t ++ r).takeWhile (· != ']')).length < (t ++ r).length
  · rw [if_pos hclosed] at h
    obtain ⟨rfl, hlength⟩ := Prod.mk.inj h
    have hlt := length_takeWhile_lt
      (show ((t ++ r).takeWhile (· != ']')).length < t.length by omega)
    rw [takeWhile_append_of_lt hlt] at hlength
    rw [takeWhile_append_of_lt hlt, if_pos (by rw [List.length_append]; omega), hlength]
  · rw [if_neg hclosed] at h
    exact absurd (Prod.mk.inj h).1.symm hlegal

theorem getNumber_isWord {z : Text} {type : TokenType} {n : ℕ} (h : getNumber z = (type, n))
    (hlegal : type ≠ .illegal) : type.isWord = true := by
  rw [getNumber] at h
  split_ifs at h with hhex
  · rw [← (Prod.mk.inj h).1]
    rfl
  · obtain ⟨rfl, -⟩ := Prod.mk.inj h
    split_ifs at hlegal ⊢
    · exact absurd rfl hlegal
    · rfl
    · rfl

theorem getVariable_type {z : Text} {type : TokenType} {n : ℕ} (h : getVariable z = (type, n)) :
    type = .illegal ∨ type = .variable := by
  rw [getVariable] at h
  rw [← (Prod.mk.inj h).1]
  split_ifs
  · exact .inr rfl
  · exact .inl rfl

theorem keywordCode_isWord (word : Text) : (keywordCode word).isWord = true := by
  rw [keywordCode]
  split_ifs
  · rfl
  · split <;> rfl

theorem length_takeWhile_keyword (z : Text) : (z.takeWhile isKeywordChar).length +
    ((z.drop (z.takeWhile isKeywordChar).length).takeWhile isIdChar).length =
      (z.takeWhile isIdChar).length := by
  induction z with
  | nil => rfl
  | cons c z ih =>
      by_cases hc : isKeywordChar c = true
      · rw [List.takeWhile_cons_of_pos hc,
          List.takeWhile_cons_of_pos (isIdChar_of_isKeywordChar hc), List.length_cons,
          List.drop_succ_cons, List.length_cons, ← ih, Nat.add_right_comm]
      · rw [List.takeWhile_cons_of_neg hc, List.length_nil, List.drop_zero, Nat.zero_add]

/-- A word is a keyword or an identifier, whatever it is followed by. -/
theorem keyword_congr {t r : Text} (h : Halts isIdChar r) :
    ((t ++ r).takeWhile isKeywordChar).length = (t.takeWhile isKeywordChar).length ∧
    (t ++ r).take (t.takeWhile isKeywordChar).length = t.take (t.takeWhile isKeywordChar).length ∧
    (((t ++ r).drop (t.takeWhile isKeywordChar).length).takeWhile isIdChar).length =
      ((t.drop (t.takeWhile isKeywordChar).length).takeWhile isIdChar).length := by
  have hle : (t.takeWhile isKeywordChar).length ≤ t.length := (List.takeWhile_prefix _).length_le
  refine ⟨?_, List.take_append_of_le_length hle, ?_⟩
  · rw [takeWhile_append_halts (h.mono fun d => isIdChar_of_isKeywordChar)]
  · rw [List.drop_append_of_le_length hle, takeWhile_append_halts h]

theorem getWord_congr {c : Char} {t r r' : Text} {type : TokenType}
    (h : getWord c (t ++ r) = (type, t.length + 1)) (hsame : SameEnd type r r') :
    getWord c (t ++ r') = (type, t.length + 1) := by
  rw [getWord] at h ⊢
  obtain ⟨htype, hlength⟩ := Prod.mk.inj h
  rw [length_takeWhile_keyword] at hlength
  have hr := (halts_of_length_takeWhile (Nat.succ.inj hlength)).2
  have hword : type.isWord = true := by
    rw [← htype]
    split_ifs
    · rfl
    · exact keywordCode_isWord _
  obtain ⟨hi, htake, hrest⟩ := keyword_congr (t := t) hr
  obtain ⟨hi', htake', hrest'⟩ := keyword_congr (t := t) (hr.congr (hsame.word hword))
  rw [hi, htake, hrest] at h
  rw [hi', htake', hrest', h]

theorem getId_congr {t r r' : Text} {type : TokenType}
    (h : getId (t ++ r) = (type, t.length + 1)) (hsame : SameEnd type r r') :
    getId (t ++ r') = (type, t.length + 1) := by
  obtain ⟨rfl, hlength⟩ := Prod.mk.inj h
  exact Prod.ext rfl (congrArg Nat.succ (takeWhile_congr (Nat.succ.inj hlength)
    (Halts.congr (hsame.word rfl))))

theorem getX_congr {t r r' : Text} {type : TokenType} (h : getX (t ++ r) = (type, t.length + 1))
    (hlegal : type ≠ .illegal) (hsame : SameEnd type r r') :
    getX (t ++ r') = (type, t.length + 1) := by
  rw [getX] at h ⊢
  by_cases hquote : (t ++ r).head? = some '\''
  · rw [if_pos hquote] at h
    dsimp only at h
    by_cases hblob : ((t ++ r).tail.drop ((t ++ r).tail.takeWhile isXDigit).length).head? =
        some '\'' ∧ ((t ++ r).tail.takeWhile isXDigit).length % 2 = 0
    · rw [if_pos hblob] at h
      obtain ⟨rfl, hlength⟩ := Prod.mk.inj h
      cases t with
      | nil => exact absurd (Nat.succ.inj hlength) (Nat.succ_ne_zero _)
      | cons d t =>
          -- the quote that ends the blob is in its text
          have hlt := length_takeWhile_lt
            (show ((t ++ r).takeWhile isXDigit).length < t.length by
              have := Nat.succ.inj hlength
              rw [List.length_cons] at this
              exact Nat.lt_of_succ_le (Nat.le_of_eq (Nat.succ.inj this)))
          obtain ⟨hclose, heven⟩ := hblob
          rw [List.cons_append, List.tail_cons, takeWhile_append_of_lt hlt] at hclose heven hlength
          rw [List.drop_append_of_le_length (Nat.le_of_lt hlt)] at hclose
          rw [if_pos (by exact hquote), List.cons_append, List.tail_cons,
            takeWhile_append_of_lt hlt]
          dsimp only
          rw [List.drop_append_of_le_length (Nat.le_of_lt hlt)]
          have hne : t.drop (t.takeWhile isXDigit).length ≠ [] :=
            fun hnil => Nat.not_le.2 hlt (List.drop_eq_nil_iff.1 hnil)
          obtain ⟨e, z, hz⟩ := List.exists_cons_of_ne_nil hne
          rw [hz] at hclose ⊢
          rw [if_pos ⟨hclose, heven⟩, hlength]
    · rw [if_neg hblob] at h
      exact absurd (Prod.mk.inj h).1.symm hlegal
  · rw [if_neg hquote] at h
    have hhead := hsame.word ((Prod.mk.inj h).1 ▸ rfl)
    rw [if_neg (by rwa [head?_append_congr hhead])]
    exact getId_congr h hsame

/-- **Where a legal token ends** does not depend on more of the text behind it. -/
theorem getToken_congr {c : Char} {t r r' : Text} {type : TokenType}
    (h : getToken (c :: t ++ r) = (type, (c :: t).length)) (hlegal : type ≠ .illegal)
    (hvar : type ≠ .variable) (hsame : SameEnd type r r') :
    getToken (c :: t ++ r') = (type, (c :: t).length) := by
  have hends : ∀ {p : Char → Bool}, p ∈ operatorEnds → Halts p r → Halts p r' := hsame.ends _
  rw [List.cons_append, getToken, List.length_cons] at h ⊢
  cases hclass : charClass c with
  | lp | rp | semi | plus | star | percent | comma | and | tilda | illegal | nul =>
      rw [hclass] at h
      exact h
  | space =>
      rw [hclass] at h
      obtain ⟨rfl, hlength⟩ := Prod.mk.inj h
      exact Prod.ext rfl (congrArg Nat.succ (takeWhile_congr (Nat.succ.inj hlength)
        (hends (by simp [operatorEnds]))))
  | minus => rw [hclass] at h; exact getMinus_congr h hsame
  | slash => rw [hclass] at h; exact getSlash_congr h hsame
  | eq | bang | pipe =>
      rw [hclass] at h
      exact operator_congr (f := fun _ => (_, 1)) h (hends (by simp [operatorEnds])) id
  | lt =>
      rw [hclass] at h
      exact operator_congr (f := fun z => if z.head? = some '>' then (.ne, 2)
          else if z.head? = some '<' then (.lshift, 2) else (.lt, 1)) h
        (hends (by simp [operatorEnds])) fun h =>
          operator_congr (f := fun z => if z.head? = some '<' then (.lshift, 2) else (.lt, 1)) h
            (hends (by simp [operatorEnds])) fun h =>
              operator_congr (f := fun _ => (.lt, 1)) h (hends (by simp [operatorEnds])) id
  | gt =>
      rw [hclass] at h
      exact operator_congr (f := fun z => if z.head? = some '>' then (.rshift, 2) else (.gt, 1)) h
        (hends (by simp [operatorEnds])) fun h =>
          operator_congr (f := fun _ => (.gt, 1)) h (hends (by simp [operatorEnds])) id
  | quote => rw [hclass] at h; exact getQuoted_congr h hlegal hsame
  | dot =>
      rw [hclass] at h
      dsimp only at h ⊢
      by_cases hdigit : (t ++ r).head?.any Char.isDigit = true
      · rw [if_pos hdigit] at h
        have hhead := hsame.word (getNumber_isWord h hlegal)
        rw [if_pos (by rwa [head?_append_congr hhead])]
        exact getNumber_congr (t := c :: t) h hlegal hhead
      · rw [if_neg hdigit] at h
        have hhead := hsame.word ((Prod.mk.inj h).1 ▸ rfl)
        rw [if_neg (by rwa [head?_append_congr hhead])]
        exact h
  | digit =>
      rw [hclass] at h
      exact getNumber_congr (t := c :: t) h hlegal (hsame.word (getNumber_isWord h hlegal))
  | quote2 => rw [hclass] at h; exact getBracketed_congr h hlegal
  | varnum => rw [hclass] at h; exact absurd (Prod.mk.inj h).1.symm hvar
  | dollar | varalpha => rw [hclass] at h; exact ((getVariable_type h).elim hlegal hvar).elim
  | kywd => rw [hclass] at h; exact getWord_congr h hsame
  | x => rw [hclass] at h; exact getX_congr h hlegal hsame
  | id => rw [hclass] at h; exact getId_congr h hsame

end Sql
end Core
end AergoLite
