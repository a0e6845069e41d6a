/-
# Lexers

A lexer says of what type the token is that a text begins with, and how long it is.  `tokens` are
the tokens of the whole text, one after the other.

Where a token ends depends on the text behind it, so a text that is put together from pieces has
the tokens of the pieces only if each is read so with what follows it.  `Reads` is that judgment:
what is read of a text, one piece after the other (`Reads.append`), are its tokens
(`Reads.tokens_eq`).
-/

import Mathlib.Data.List.TakeWhile
import Mathlib.Tactic.Cases
import Mathlib.Tactic.SplitIfs

namespace Lexing

/-- A token, with its text. -/
structure Token (α τ : Type) where
  type : τ
  text : List α
  deriving DecidableEq, Repr

/-- The type and the length of the token a text begins with. -/
structure Lexer (α τ : Type) where
  next : List α → τ × ℕ
  progress : ∀ c z, 0 < (next (c :: z)).2
  bounded : ∀ z, (next z).2 ≤ z.length

variable {α τ : Type}

namespace Lexer

/-- The tokens, as long as there is fuel. -/
def tokensLoop (l : Lexer α τ) : ℕ → List α → List (Token α τ)
  | 0, _ => []
  | _ + 1, [] => []
  | fuel + 1, c :: z =>
    ⟨(l.next (c :: z)).1, (c :: z).take (l.next (c :: z)).2⟩ ::
      l.tokensLoop fuel ((c :: z).drop (l.next (c :: z)).2)

/-- The tokens of a text. -/
def tokens (l : Lexer α τ) (z : List α) : List (Token α τ) := l.tokensLoop z.length z

/-- Up to `rest` the text has these tokens. -/
inductive Reads (l : Lexer α τ) : List α → List (Token α τ) → List α → Prop
  | done (rest : List α) : Reads l rest [] rest
  | token {type : τ} {c : α} {t middle rest : List α} {ts : List (Token α τ)}
      (next : l.next (c :: t ++ middle) = (type, (c :: t).length))
      (reads : Reads l middle ts rest) : Reads l (c :: t ++ middle) (⟨type, c :: t⟩ :: ts) rest

variable {l : Lexer α τ}

theorem Reads.append {z middle rest : List α} {ts us : List (Token α τ)} (h : l.Reads z ts middle)
    (h' : l.Reads middle us rest) : l.Reads z (ts ++ us) rest := by
  induction h with
  | done => exact h'
  | token next _ ih => exact .token next (ih h')

/-- One token. -/
theorem Reads.single {type : τ} {c : α} {t rest : List α}
    (next : l.next (c :: t ++ rest) = (type, (c :: t).length)) :
    l.Reads (c :: t ++ rest) [⟨type, c :: t⟩] rest := .token next (.done rest)

/-- One token of one symbol. -/
theorem Reads.symbol {type : τ} {c : α} {rest : List α} (next : l.next (c :: rest) = (type, 1)) :
    l.Reads (c :: rest) [⟨type, [c]⟩] rest := .token (t := []) next (.done rest)

/-- A text is the texts of its tokens. -/
theorem Reads.text_eq {z rest : List α} {ts : List (Token α τ)} (h : l.Reads z ts rest) :
    z = ts.flatMap Token.text ++ rest := by
  induction h with
  | done => rfl
  | token next _ ih => rw [List.flatMap_cons, List.append_assoc, ← ih]

theorem tokensLoop_eq {z : List α} {ts : List (Token α τ)} (h : l.Reads z ts []) {fuel : ℕ}
    (hfuel : z.length ≤ fuel) : l.tokensLoop fuel z = ts := by
  induction fuel generalizing z ts with
  | zero =>
      obtain rfl := List.length_eq_zero_iff.1 (Nat.le_zero.1 hfuel)
      cases h with
      | done => rfl
  | succ fuel ih =>
      cases h with
      | done => rfl
      | @token type c t middle _ ts next reads =>
          have hlength : middle.length ≤ fuel := by
            simp only [List.length_append, List.length_cons] at hfuel
            omega
          rw [List.cons_append] at next ⊢
          rw [tokensLoop, next, ← List.cons_append, List.take_left, List.drop_left,
            ih reads hlength]

/-- **What is read are the tokens.** -/
theorem Reads.tokens_eq {z : List α} {ts : List (Token α τ)} (h : l.Reads z ts []) :
    l.tokens z = ts := tokensLoop_eq h (Nat.le_refl _)

theorem reads_tokensLoop (l : Lexer α τ) {fuel : ℕ} {z : List α} (hfuel : z.length ≤ fuel) :
    l.Reads z (l.tokensLoop fuel z) [] := by
  induction fuel generalizing z with
  | zero =>
      obtain rfl := List.length_eq_zero_iff.1 (Nat.le_zero.1 hfuel)
      exact .done []
  | succ fuel ih =>
      cases z with
      | nil => exact .done []
      | cons c z =>
          obtain ⟨n, hn⟩ : ∃ n, (l.next (c :: z)).2 = n + 1 :=
            ⟨_, (Nat.succ_pred_eq_of_pos (l.progress c z)).symm⟩
          have hle : n + 1 ≤ (c :: z).length := hn ▸ l.bounded (c :: z)
          have hsplit : c :: z.take n ++ z.drop n = c :: z := by
            rw [List.cons_append, List.take_append_drop]
          have hnext : l.next (c :: z.take n ++ z.drop n) =
              ((l.next (c :: z)).1, (c :: z.take n).length) := by
            rw [hsplit, List.length_cons, List.length_take,
              Nat.min_eq_left (Nat.le_of_succ_le_succ hle), ← hn]
          have hrest : (z.drop n).length ≤ fuel := by
            rw [List.length_cons] at hfuel
            rw [List.length_drop]
            omega
          rw [tokensLoop, hn, List.take_succ_cons, List.drop_succ_cons, ← hsplit]
          exact .token (hsplit.symm ▸ hnext) (ih hrest)

/-- **A text is read as its tokens.** -/
theorem reads_tokens (l : Lexer α τ) (z : List α) : l.Reads z (l.tokens z) [] :=
  reads_tokensLoop l (Nat.le_refl _)

/-- The tokens up to a place in the text, and those behind it. -/
theorem Reads.split {z rest : List α} {ts us : List (Token α τ)} (h : l.Reads z (ts ++ us) rest) :
    ∃ middle, l.Reads z ts middle ∧ l.Reads middle us rest := by
  induction ts generalizing z with
  | nil => exact ⟨z, .done z, h⟩
  | cons a ts ih =>
      cases h with
      | token next reads =>
          obtain ⟨middle, hts, hus⟩ := ih reads
          exact ⟨middle, .token next hts, hus⟩

/-- No token is empty. -/
theorem Reads.text_ne_nil {z rest : List α} {ts : List (Token α τ)} (h : l.Reads z ts rest)
    {t : Token α τ} (ht : t ∈ ts) : t.text ≠ [] := by
  induction h with
  | done => exact absurd ht List.not_mem_nil
  | token next _ ih =>
      rcases List.mem_cons.1 ht with rfl | ht
      · exact List.cons_ne_nil _ _
      · exact ih ht

end Lexer

/-! ## Where a token ends -/

/-- The text does not begin with such a symbol. -/
def Halts (p : α → Bool) (rest : List α) : Prop := ∀ c ∈ rest.head?, p c = false

theorem Halts.congr {p : α → Bool} {rest rest' : List α} (hhead : rest'.head? = rest.head?)
    (h : Halts p rest) : Halts p rest' := fun c hc => h c (hhead ▸ hc)

theorem Halts.mono {p q : α → Bool} {rest : List α} (hpq : ∀ c, q c = true → p c = true)
    (h : Halts p rest) : Halts q rest := by
  intro c hc
  cases hq : q c with
  | false => rfl
  | true => exact absurd (hpq c hq) (by rw [h c hc]; exact Bool.false_ne_true)

theorem takeWhile_of_halts {p : α → Bool} {rest : List α} (h : Halts p rest) :
    rest.takeWhile p = [] := by
  cases rest with
  | nil => rfl
  | cons c rest => exact List.takeWhile_cons_of_neg (by rw [h c rfl]; exact Bool.false_ne_true)

theorem takeWhile_append_of_halts {p : α → Bool} {t rest : List α} (ht : ∀ c ∈ t, p c = true)
    (h : Halts p rest) : (t ++ rest).takeWhile p = t := by
  rw [List.takeWhile_append_of_pos ht, takeWhile_of_halts h, List.append_nil]

theorem takeWhile_append_halts {p : α → Bool} {t rest : List α} (h : Halts p rest) :
    (t ++ rest).takeWhile p = t.takeWhile p := by
  rw [List.takeWhile_append]
  split_ifs with hall
  · rw [takeWhile_of_halts h, List.append_nil]
    exact ((List.takeWhile_prefix p).eq_of_length hall).symm
  · rfl

theorem takeWhile_append_of_lt {p : α → Bool} {t : List α}
    (h : (t.takeWhile p).length < t.length) (rest : List α) :
    (t ++ rest).takeWhile p = t.takeWhile p := by
  rw [List.takeWhile_append, if_neg (Nat.ne_of_lt h)]

theorem length_takeWhile_lt {p : α → Bool} {t rest : List α}
    (h : ((t ++ rest).takeWhile p).length < t.length) : (t.takeWhile p).length < t.length := by
  rw [List.takeWhile_append] at h
  split_ifs at h
  · rw [List.length_append] at h
    omega
  · exact h

theorem halts_dropWhile (p : α → Bool) (z : List α) : Halts p (z.dropWhile p) := by
  intro c hc
  have := List.head?_dropWhile_not p z
  rw [hc] at this
  simpa using this

theorem any_head?_append {z rest : List α} (p : α → Bool) (h : Halts p rest) :
    (z ++ rest).head?.any p = z.head?.any p := by
  cases z with
  | nil =>
      cases rest with
      | nil => rfl
      | cons c rest => exact h c rfl
  | cons c z => rfl

theorem head?_append_congr {t rest rest' : List α} (h : rest'.head? = rest.head?) :
    (t ++ rest').head? = (t ++ rest).head? := by
  rw [List.head?_append, List.head?_append, h]

theorem length_pos_of_head? {z : List α} {c : α} (h : z.head? = some c) : 0 < z.length := by
  obtain ⟨z', rfl⟩ := List.head?_eq_some_iff.1 h
  exact Nat.succ_pos _

theorem length_takeWhile_le (p : α → Bool) (z : List α) : (z.takeWhile p).length ≤ z.length :=
  (List.takeWhile_prefix p).length_le

theorem length_takeWhile_drop_le (p : α → Bool) (z : List α) (n : ℕ) :
    ((z.drop n).takeWhile p).length ≤ z.length - n :=
  List.length_drop ▸ length_takeWhile_le p (z.drop n)

/-- The symbols end with the token. -/
theorem halts_of_length_takeWhile {p : α → Bool} {t rest : List α}
    (h : ((t ++ rest).takeWhile p).length = t.length) : (∀ c ∈ t, p c = true) ∧ Halts p rest := by
  induction t with
  | nil =>
      refine ⟨fun c hc => absurd hc List.not_mem_nil, fun c hc => ?_⟩
      cases rest with
      | nil => exact absurd hc (by simp)
      | cons d rest =>
          obtain rfl : d = c := Option.some.inj hc
          cases hp : p d with
          | false => rfl
          | true =>
              rw [List.nil_append, List.takeWhile_cons_of_pos hp] at h
              exact absurd h (Nat.succ_ne_zero _)
  | cons d t ih =>
      rw [List.cons_append] at h
      cases hp : p d with
      | false =>
          rw [List.takeWhile_cons_of_neg (by rw [hp]; exact Bool.false_ne_true)] at h
          exact absurd h.symm (Nat.succ_ne_zero _)
      | true =>
          rw [List.takeWhile_cons_of_pos hp, List.length_cons, List.length_cons] at h
          obtain ⟨ht, hrest⟩ := ih (Nat.succ.inj h)
          exact ⟨List.forall_mem_cons.2 ⟨hp, ht⟩, hrest⟩

theorem takeWhile_congr {p : α → Bool} {t rest rest' : List α}
    (h : ((t ++ rest).takeWhile p).length = t.length) (hr : Halts p rest → Halts p rest') :
    ((t ++ rest').takeWhile p).length = t.length := by
  obtain ⟨ht, hends⟩ := halts_of_length_takeWhile h
  rw [takeWhile_append_of_halts ht (hr hends)]

theorem halts_beq_iff [DecidableEq α] {a : α} {rest : List α} :
    Halts (· == a) rest ↔ rest.head? ≠ some a :=
  ⟨fun h hhead => absurd (h a hhead) (by simp),
    fun h c hc => beq_eq_false_iff_ne.2 fun heq => h (heq ▸ hc)⟩

theorem head?_append_ne [DecidableEq α] {a : α} {t rest rest' : List α}
    (hr : Halts (· == a) rest → Halts (· == a) rest') (h : (t ++ rest).head? ≠ some a) :
    (t ++ rest').head? ≠ some a := by
  cases t with
  | nil => exact halts_beq_iff.1 (hr (halts_beq_iff.2 h))
  | cons d t => exact h

end Lexing
