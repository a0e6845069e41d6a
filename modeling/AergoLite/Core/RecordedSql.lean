/-
# The tokens of a recorded command

The other nodes parse the text that `sqlite3VdbeExpandSql` (`core/sqlite3.c`) writes, and to the
parser a text is its tokens.  A literal is read as it was written if nothing of a word follows it
directly, and what is in front of it ends where it did if it is no word.  In front of a negative
number there should be no minus sign either: two of them begin a comment.  Under these conditions
(`Apart`) the recorded text has the tokens of the statement, and those of the values in the places
of the parameters.
-/

import AergoLite.Core.ExpandedSql
import AergoLite.Common.Array

namespace AergoLite
namespace Core
namespace Sql

open Lexing

variable {ρ : Type}

/-! ## The tokens of a literal -/

/-- A literal goes on with such a character. -/
def goesOn (c : Char) : Bool := isIdChar c || c == '\'' || c == '.'

/-- The text of a number with a point, and maybe an exponent. -/
def FloatText (z : Text) : Prop :=
  ∃ d ds ds' ex, z = d :: ds ++ ('.' :: ds' ++ ex) ∧ (∀ c ∈ d :: ds, c.isDigit = true) ∧
    (∀ c ∈ ds', c.isDigit = true) ∧
    (ex = [] ∨ ∃ c es, ex = 'e' :: c :: es ∧ startsExponent (c :: es) = true ∧
      ∀ c ∈ es, c.isDigit = true)

/-- A real number is written with a point. -/
def Formats (formatReal : ρ → Text) : Mem ρ → Prop
  | .real r => ∃ z, FloatText z ∧ (formatReal r = z ∨ formatReal r = '-' :: z)
  | _ => True

/-- The tokens of a number that may be negative. -/
def signedTokens (type : TokenType) (z : Text) : List SqlToken :=
  if z.head? = some '-' then [⟨.minus, ['-']⟩, ⟨type, z.tail⟩] else [⟨type, z⟩]

/-- The tokens of a value. -/
def literalTokens (formatReal : ρ → Text) : Mem ρ → List SqlToken
  | .null => [⟨.keyword "NULL", "NULL".toList⟩]
  | .int i => signedTokens .integer (int64Text i)
  | .real r => signedTokens .float (formatReal r)
  | .str z => [⟨.string, '\'' :: (escapeQuotes z ++ ['\''])⟩]
  | .zero n =>
    ⟨.id, "zeroblob".toList⟩ :: ⟨.lp, ['(']⟩ :: (signedTokens .integer (int64Text n) ++
      [⟨.rp, [')']⟩])
  | .blob z => [⟨.blob, 'x' :: '\'' :: (toHex z ++ ['\''])⟩]

theorem halts_idChar {r : Text} (h : Halts goesOn r) : Halts isIdChar r :=
  h.mono fun c hc => by rw [goesOn, hc]; rfl

theorem halts_quote {r : Text} (h : Halts goesOn r) : Halts (· == '\'') r :=
  h.mono fun c hc => by rw [goesOn, hc, Bool.or_true]; rfl

theorem halts_point {r : Text} (h : Halts goesOn r) : Halts (· == '.') r :=
  h.mono fun c hc => by rw [goesOn, hc, Bool.or_true]

/-! ### Numbers -/

/-- A number without a sign, which is read as such. -/
structure Unsigned (type : TokenType) (z : Text) : Prop where
  head : z.head?.any Char.isDigit = true
  reads : ∀ r, Halts goesOn r → lexer.Reads (z ++ r) [⟨type, z⟩] r

/-- A numeral is one token. -/
theorem reads_numeral {d : Char} {ds fr ex r : Text} (h : Numeral (d :: ds) fr ex r) :
    lexer.Reads (d :: ds ++ (fr ++ ex) ++ r)
      [⟨if fr = [] ∧ ex = [] then .integer else .float, d :: ds ++ (fr ++ ex)⟩] r := by
  have hclass : charClass d = .digit := (isDigit_iff d).1 (h.digits d List.mem_cons_self)
  have hnumber := getNumber_of_numeral h
  rw [← List.append_assoc fr, ← List.append_assoc (d :: ds)] at hnumber
  refine Lexer.Reads.single ?_
  change getToken (d :: (ds ++ (fr ++ ex) ++ r)) = _
  rw [getToken, hclass]
  exact hnumber

theorem unsigned_digits {ds : Text} (hne : ds ≠ []) (hds : ∀ c ∈ ds, c.isDigit = true) :
    Unsigned .integer ds := by
  obtain ⟨d, ds, rfl⟩ := List.exists_cons_of_ne_nil hne
  refine ⟨hds d List.mem_cons_self, fun r hr => ?_⟩
  have hnumeral : Numeral (d :: ds) [] [] r :=
    ⟨hds, .none (halts_point hr), .none (exponentLength_of_halts (halts_idChar hr)),
      halts_idChar hr⟩
  have hreads := reads_numeral hnumeral
  rwa [if_pos ⟨rfl, rfl⟩, List.append_nil, List.append_nil] at hreads

theorem unsigned_float {z : Text} (h : FloatText z) : Unsigned .float z := by
  obtain ⟨d, ds, ds', ex, rfl, hds, hds', hex⟩ := h
  refine ⟨hds d List.mem_cons_self, fun r hr => ?_⟩
  have hexponent : Exponent ex r := by
    rcases hex with rfl | ⟨c, es, rfl, hstart, hes⟩
    · exact .none (exponentLength_of_halts (halts_idChar hr))
    · exact .digits (.inl rfl) hstart hes ((halts_idChar hr).mono fun c => isIdChar_of_isDigit)
  have hends : Halts Char.isDigit (ex ++ r) := by
    rcases hex with rfl | ⟨c, es, rfl, -, -⟩
    · exact (halts_idChar hr).mono fun c => isIdChar_of_isDigit
    · rintro c ⟨⟩
      rfl
  have hreads := reads_numeral (⟨hds, .digits hds' hends, hexponent, halts_idChar hr⟩ :
    Numeral (d :: ds) ('.' :: ds') ex r)
  rwa [if_neg fun h => absurd h.1 (List.cons_ne_nil _ _)] at hreads

/-- A minus sign in front of a number is a token of its own. -/
theorem Unsigned.signed {type : TokenType} {z s r : Text} (h : Unsigned type z)
    (hs : s = z ∨ s = '-' :: z) (hr : Halts goesOn r) :
    lexer.Reads (s ++ r) (signedTokens type s) r := by
  have hhead : z.head? ≠ some '-' := fun hminus => by
    have hdigit := h.head
    rw [hminus] at hdigit
    exact absurd hdigit (by decide)
  rcases hs with rfl | rfl
  · rw [signedTokens, if_neg hhead]
    exact h.reads r hr
  · have hne : z ≠ [] := fun hnil => by
      have hdigit := h.head
      rw [hnil] at hdigit
      exact Bool.false_ne_true hdigit
    obtain ⟨d, z, rfl⟩ := List.exists_cons_of_ne_nil hne
    have hnext : getToken ('-' :: (d :: z ++ r)) = (.minus, 1) := by
      change getMinus (d :: z ++ r) = _
      exact if_neg hhead
    rw [signedTokens, if_pos (by rfl)]
    exact (Lexer.Reads.symbol hnext).append (h.reads r hr)

theorem unsigned_toDigits (n : ℕ) : Unsigned .integer (Nat.toDigits 10 n) :=
  unsigned_digits Nat.toDigits_ne_nil fun _ hc =>
    Nat.isDigit_of_mem_toDigits (by decide) (by decide) hc

theorem int64Text_signed (i : ℤ) : int64Text i = Nat.toDigits 10 i.natAbs ∨
    int64Text i = '-' :: Nat.toDigits 10 i.natAbs := by
  rw [int64Text]
  split_ifs
  · exact .inr rfl
  · exact .inl rfl

theorem reads_int64 (i : ℤ) {r : Text} (hr : Halts goesOn r) :
    lexer.Reads (int64Text i ++ r) (signedTokens .integer (int64Text i)) r :=
  (unsigned_toDigits i.natAbs).signed (int64Text_signed i) hr

/-! ### Words, texts and blobs -/

/-- A word of letters is one token. -/
theorem reads_word {c : Char} {t r : Text} (hclass : charClass c = .kywd)
    (ht : ∀ c ∈ t, isKeywordChar c = true) (hr : Halts isIdChar r) :
    lexer.Reads (c :: t ++ r) [⟨keywordCode (c :: t), c :: t⟩] r := by
  refine Lexer.Reads.single ?_
  change getToken (c :: (t ++ r)) = _
  rw [getToken, hclass]
  dsimp only
  rw [getWord, takeWhile_append_of_halts ht (hr.mono fun c => isIdChar_of_isKeywordChar),
    List.drop_left, List.take_left, takeWhile_of_halts hr]
  rfl

theorem quoted_escapeQuotes (z : Text) : Quoted '\'' (escapeQuotes z ++ ['\'']) := by
  rw [escapeQuotes]
  induction z.takeWhile (· != '\x00') with
  | nil => exact .close
  | cons c z ih =>
      rw [List.flatMap_cons, List.append_assoc]
      split_ifs with hc
      · exact .double ih
      · exact .char hc ih

/-- **A text cannot end its literal**, whatever quotes it has. -/
theorem reads_string (z : Text) {r : Text} (hr : Halts (· == '\'') r) :
    lexer.Reads ('\'' :: (escapeQuotes z ++ ['\'']) ++ r)
      [⟨.string, '\'' :: (escapeQuotes z ++ ['\''])⟩] r := by
  refine Lexer.Reads.single ?_
  change getQuoted '\'' (escapeQuotes z ++ ['\''] ++ r) = _
  rw [getQuoted, quoteLength_of_quoted (quoted_escapeQuotes z) hr]
  rfl

theorem isXDigit_toHex {z : Bytes} {c : Char} (h : c ∈ toHex z) : isXDigit c = true := by
  have hdigit : ∀ n < 256, isXDigit (hexdigits.getD ((n >>> 4) &&& 0xf) '0') = true ∧
      isXDigit (hexdigits.getD (n &&& 0xf) '0') = true := by
    decide +kernel
  obtain ⟨b, -, hc⟩ := List.mem_flatMap.1 h
  rcases List.mem_pair.1 hc with rfl | rfl
  · exact (hdigit b.toNat b.toNat_lt).1
  · exact (hdigit b.toNat b.toNat_lt).2

theorem length_toHex_even (z : Bytes) : (toHex z).length % 2 = 0 := by
  induction z with
  | nil => rfl
  | cons b z ih =>
      have hcons : (toHex (b :: z)).length = (toHex z).length + 2 := rfl
      rw [hcons, Nat.add_mod_right, ih]

theorem reads_blob (z : Bytes) (r : Text) :
    lexer.Reads ('x' :: '\'' :: (toHex z ++ ['\'']) ++ r)
      [⟨.blob, 'x' :: '\'' :: (toHex z ++ ['\''])⟩] r := by
  have hdigits : (toHex z ++ ('\'' :: r)).takeWhile isXDigit = toHex z :=
    takeWhile_append_of_halts (fun c hc => isXDigit_toHex hc) (by rintro c ⟨⟩; rfl)
  refine Lexer.Reads.single ?_
  change getX ('\'' :: (toHex z ++ ['\''] ++ r)) = _
  rw [getX, if_pos (by rfl), List.tail_cons, List.append_assoc, List.singleton_append, hdigits]
  dsimp only
  rw [List.drop_left, if_pos ⟨rfl, length_toHex_even z⟩, List.length_cons, List.length_cons,
    List.length_append]
  rfl

theorem literal_zero (formatReal : ρ → Text) (n : ℕ) (r : Text) :
    literal formatReal (.zero n) ++ r =
      "zeroblob".toList ++ ('(' :: (int64Text n ++ (')' :: r))) := by
  have hopen : "zeroblob(".toList = "zeroblob".toList ++ ['('] := by decide
  change "zeroblob(".toList ++ (int64Text n ++ [')']) ++ r = _
  rw [hopen, List.append_assoc, List.append_assoc, List.append_assoc, List.singleton_append,
    List.singleton_append]

/-- **A literal is read as it was written.** -/
theorem reads_literal {formatReal : ρ → Text} {v : Mem ρ} (hformats : Formats formatReal v)
    {r : Text} (hr : Halts goesOn r) :
    lexer.Reads (literal formatReal v ++ r) (literalTokens formatReal v) r := by
  cases v with
  | null => exact reads_word (by decide) (List.all_eq_true.1 (by rfl)) (halts_idChar hr)
  | int i => exact reads_int64 i hr
  | real x =>
      obtain ⟨z, hz, hx⟩ := hformats
      exact (unsigned_float hz).signed hx hr
  | str z => exact reads_string z (halts_quote hr)
  | zero n =>
      have hword : lexer.Reads ("zeroblob".toList ++ ('(' :: (int64Text n ++ (')' :: r))))
          [⟨.id, "zeroblob".toList⟩] ('(' :: (int64Text n ++ (')' :: r))) :=
        reads_word (by decide) (List.all_eq_true.1 (by rfl)) (by rintro c ⟨⟩; rfl)
      have hopen : lexer.Reads ('(' :: (int64Text n ++ (')' :: r))) [⟨.lp, ['(']⟩]
          (int64Text n ++ (')' :: r)) := .symbol (by rfl)
      have hclose : lexer.Reads (')' :: r) [⟨.rp, [')']⟩] r := .symbol (by rfl)
      have hnumber : lexer.Reads (int64Text n ++ (')' :: r)) (signedTokens .integer (int64Text n))
          (')' :: r) := reads_int64 n (by rintro c ⟨⟩; rfl)
      have hreads := hword.append (hopen.append (hnumber.append hclose))
      rw [literal_zero]
      exact hreads
  | blob z => exact reads_blob z r

/-! ## A literal in the place of a parameter -/

/-- A literal begins with such a character. -/
def startsLiteral (c : Char) : Bool := c.isDigit || "-'Nzx".toList.contains c

theorem head_signed {type : TokenType} {z s : Text} (h : Unsigned type z)
    (hs : s = z ∨ s = '-' :: z) : ∃ c t, s = c :: t ∧ startsLiteral c = true := by
  rcases hs with rfl | rfl
  · cases s with
    | nil => exact absurd h.head Bool.false_ne_true
    | cons d z =>
        have hd : d.isDigit = true := h.head
        exact ⟨d, z, rfl, by rw [startsLiteral, hd]; rfl⟩
  · exact ⟨'-', z, rfl, by decide⟩

theorem literal_head {formatReal : ρ → Text} {v : Mem ρ} (hformats : Formats formatReal v) :
    ∃ c t, literal formatReal v = c :: t ∧ startsLiteral c = true := by
  cases v with
  | null => exact ⟨'N', "ULL".toList, by rfl, by decide⟩
  | int i =>
      have hdigits := unsigned_toDigits i.natAbs
      exact head_signed hdigits (int64Text_signed i)
  | real x =>
      obtain ⟨z, hz, hx⟩ := hformats
      exact head_signed (unsigned_float hz) hx
  | str z => exact ⟨'\'', _, rfl, by decide⟩
  | zero n =>
      have htext := literal_zero formatReal n []
      rw [List.append_nil] at htext
      exact ⟨'z', "eroblob".toList ++ ('(' :: (int64Text n ++ [')'])), htext, by decide⟩
  | blob z => exact ⟨'x', _, rfl, by decide⟩

/-- No operator goes on with this character. -/
def EndsOperator (c : Char) : Prop :=
  isSpace c = false ∧ c ≠ '=' ∧ c ≠ '>' ∧ c ≠ '<' ∧ c ≠ '|' ∧ c ≠ '*'

theorem endsOperator_of_startsLiteral {c : Char} (h : startsLiteral c = true) :
    EndsOperator c := by
  refine forall_char (fun c => startsLiteral c = true → EndsOperator c) ?_ (fun c hle hc => ?_) c h
  · unfold EndsOperator
    decide +kernel
  rw [startsLiteral, Bool.or_eq_true] at hc
  rcases hc with hc | hc
  · exact absurd (toNat_lt_of_isDigit hc) (Nat.not_lt.2 hle)
  · have hmem : c ∈ "-'Nzx".toList := List.contains_iff_mem.1 hc
    have hlt : ("-'Nzx".toList.all fun c => decide (c.toNat < 128)) = true := by rfl
    exact absurd (of_decide_eq_true (List.all_eq_true.1 hlt c hmem)) (Nat.not_lt.2 hle)

/-- What is in front of a parameter ends there in front of a literal as well. -/
theorem sameEnd_literal {type : TokenType} {d c : Char} {m n : Text} (hd : d ≠ '\n')
    (hc : EndsOperator c) (hword : type.isWord = false)
    (hminus : type = .minus → c ≠ '-') : SameEnd type (d :: m) (c :: n) := by
  obtain ⟨hspace, heq, hgt, hlt, hpipe, hstar⟩ := hc
  refine ⟨fun h => absurd h (by rw [hword]; exact Bool.false_ne_true), fun p hp h => ?_,
    fun htype _ => halts_beq_iff.2 fun h => hminus htype (Option.some.inj h),
    fun _ _ h => hstar (Option.some.inj h.1)⟩
  rintro e ⟨⟩
  have hhead := h d rfl
  simp only [operatorEnds, List.mem_cons, List.not_mem_nil, or_false] at hp
  rcases hp with rfl | rfl | rfl | rfl | rfl | rfl | rfl
  · exact hspace
  · exact absurd (by simpa using hhead) hd
  · exact absurd hhead Bool.noConfusion
  · exact beq_eq_false_iff_ne.2 heq
  · exact beq_eq_false_iff_ne.2 hgt
  · exact beq_eq_false_iff_ne.2 hlt
  · exact beq_eq_false_iff_ne.2 hpipe

/-- The same token is behind it. -/
theorem sameEnd_token {type : TokenType} {d : Char} {u m n : Text} (hnil : m = [] → n = []) :
    SameEnd type (d :: u ++ m) (d :: u ++ n) := by
  refine ⟨fun _ => rfl, fun p _ h => h.congr rfl, fun _ h => h.congr rfl, fun _ h hopen => ?_⟩
  refine h ⟨hopen.1, fun htail => hopen.2 ?_⟩
  obtain ⟨rfl, hm⟩ := List.append_eq_nil_iff.1 htail
  exact hnil hm

/-! ## The recorded text -/

/-- The tokens of a piece. -/
def Piece.tokens (formatReal : ρ → Text) : Piece ρ → List SqlToken
  | .kept t => [t]
  | .value v => literalTokens formatReal v

/-- The values stand apart: there is no word in front of one, and no minus sign if it is negative,
and nothing of a word behind it. -/
def Apart (formatReal : ρ → Text) : List (Piece ρ) → Prop
  | [] => True
  | .kept t :: ps =>
    (∀ v, ps.head? = some (.value v) → t.type.isWord = false ∧
      (t.type = .minus → (literal formatReal v).head? ≠ some '-')) ∧ Apart formatReal ps
  | .value _ :: ps => Halts goesOn (ps.flatMap (Piece.text formatReal)) ∧ Apart formatReal ps

/-- Only a space begins with the end of a line. -/
theorem head_ne_newline {type : TokenType} {d : Char} {t middle : Text}
    (h : getToken (d :: t ++ middle) = (type, (d :: t).length)) (htype : type ≠ .space) :
    d ≠ '\n' := by
  rintro rfl
  have hspace : (getToken ('\n' :: t ++ middle)).1 = .space := rfl
  rw [h] at hspace
  exact htype hspace

/-- A token that is not a parameter ends where it did. -/
theorem sameEnd_rest {formatReal : ρ → Text} {type : TokenType} {z : Text} {ts : List SqlToken}
    {vs : List (Mem ρ)} (h : lexer.Reads z ts []) (hvs : vs.length = (parameters ts).length)
    (hformats : ∀ v ∈ vs, Formats formatReal v)
    (hapart : ∀ v, (pieces ts vs).head? = some (.value v) → type.isWord = false ∧
      (type = .minus → (literal formatReal v).head? ≠ some '-')) :
    SameEnd type z ((pieces ts vs).flatMap (Piece.text formatReal)) := by
  cases h with
  | done => exact ⟨fun _ => rfl, fun _ _ h => h, fun _ h => h, fun _ h => h⟩
  | @token type' d u middle _ ts next reads =>
      by_cases htype : type' = .variable
      · rw [parameters_cons htype, List.length_cons] at hvs
        obtain ⟨v, vs, rfl⟩ : ∃ v vs', vs = v :: vs' :=
          List.exists_cons_of_length_pos (hvs ▸ Nat.succ_pos _)
        rw [pieces_value htype] at hapart ⊢
        obtain ⟨hword, hminus⟩ := hapart v rfl
        obtain ⟨c, n, hliteral, hc⟩ := literal_head (hformats v List.mem_cons_self)
        rw [hliteral] at hminus
        rw [List.flatMap_cons, Piece.text, hliteral]
        exact sameEnd_literal (head_ne_newline (htype ▸ next) TokenType.noConfusion)
          (endsOperator_of_startsLiteral hc) hword fun heq hhead => hminus heq (congrArg some hhead)
      · rw [pieces_keep (by exact htype), List.flatMap_cons]
        refine sameEnd_token fun hnil => ?_
        subst hnil
        cases reads
        rfl

/-- **What is put together is read piece by piece.** -/
theorem reads_pieces {formatReal : ρ → Text} {z : Text} {ts : List SqlToken} {vs : List (Mem ρ)}
    (h : lexer.Reads z ts []) (hlegal : ∀ t ∈ ts, t.type ≠ .illegal)
    (hvs : vs.length = (parameters ts).length) (hformats : ∀ v ∈ vs, Formats formatReal v)
    (hapart : Apart formatReal (pieces ts vs)) :
    lexer.Reads ((pieces ts vs).flatMap (Piece.text formatReal))
      ((pieces ts vs).flatMap (Piece.tokens formatReal)) [] := by
  induction ts generalizing z vs with
  | nil => exact .done []
  | cons t ts ih =>
      obtain ⟨ht, hrest⟩ := List.forall_mem_cons.1 hlegal
      cases h with
      | @token type c u middle _ _ next reads =>
          by_cases htype : type = .variable
          · rw [parameters_cons htype, List.length_cons] at hvs
            obtain ⟨v, vs, rfl⟩ : ∃ v vs', vs = v :: vs' :=
              List.exists_cons_of_length_pos (hvs ▸ Nat.succ_pos _)
            obtain ⟨hv, hformats⟩ := List.forall_mem_cons.1 hformats
            rw [pieces_value htype] at hapart ⊢
            rw [List.flatMap_cons, List.flatMap_cons]
            exact (reads_literal hv hapart.1).append
              (ih reads hrest (Nat.succ.inj hvs) hformats hapart.2)
          · have hkept : ∀ t ∈ [(⟨type, c :: u⟩ : SqlToken)], t.type ≠ .variable := by
              simpa using htype
            have hparameters : parameters (⟨type, c :: u⟩ :: ts) = parameters ts :=
              parameters_kept hkept ts
            rw [hparameters] at hvs
            rw [pieces_keep (by exact htype)] at hapart ⊢
            rw [List.flatMap_cons, List.flatMap_cons]
            exact .token (getToken_congr next ht htype (sameEnd_rest reads hvs hformats hapart.1))
              (ih reads hrest hvs hformats hapart.2)

/-- The tokens of a literal are none that the text cannot have, or that a value is asked for. -/
theorem type_literalTokens {formatReal : ρ → Text} {v : Mem ρ} {t : SqlToken}
    (h : t ∈ literalTokens formatReal v) : t.type ≠ .illegal ∧ t.type ≠ .variable := by
  have hsigned : ∀ {type : TokenType} {z : Text}, type ≠ .illegal ∧ type ≠ .variable →
      t ∈ signedTokens type z → t.type ≠ .illegal ∧ t.type ≠ .variable := by
    intro type z htype ht
    rw [signedTokens] at ht
    split_ifs at ht
    · rcases List.mem_pair.1 ht with rfl | rfl
      · exact ⟨TokenType.noConfusion, TokenType.noConfusion⟩
      · exact htype
    · rwa [List.mem_singleton.1 ht]
  cases v with
  | null | str | blob =>
      rw [List.mem_singleton.1 h]
      exact ⟨TokenType.noConfusion, TokenType.noConfusion⟩
  | int | real => exact hsigned ⟨TokenType.noConfusion, TokenType.noConfusion⟩ h
  | zero n =>
      rcases List.mem_cons.1 h with rfl | h
      · exact ⟨TokenType.noConfusion, TokenType.noConfusion⟩
      rcases List.mem_cons.1 h with rfl | h
      · exact ⟨TokenType.noConfusion, TokenType.noConfusion⟩
      rcases List.mem_append.1 h with h | h
      · exact hsigned ⟨TokenType.noConfusion, TokenType.noConfusion⟩ h
      · rw [List.mem_singleton.1 h]
        exact ⟨TokenType.noConfusion, TokenType.noConfusion⟩

/-- What is put together are tokens that are no parameters, and values. -/
theorem mem_pieces {ts : List SqlToken} {vs : List (Mem ρ)} {piece : Piece ρ}
    (h : piece ∈ pieces ts vs) :
    (∃ t ∈ ts, t.type ≠ .variable ∧ piece = .kept t) ∨ ∃ v ∈ vs, piece = .value v := by
  induction ts generalizing vs with
  | nil => exact absurd h List.not_mem_nil
  | cons a ts ih =>
      have hlater : ∀ {vs : List (Mem ρ)}, piece ∈ pieces ts vs →
          (∃ t ∈ a :: ts, t.type ≠ .variable ∧ piece = .kept t) ∨ ∃ v ∈ vs, piece = .value v := by
        intro vs h
        rcases ih h with ⟨t, ht, htype⟩ | hvalue
        · exact .inl ⟨t, List.mem_cons_of_mem _ ht, htype⟩
        · exact .inr hvalue
      by_cases ha : a.type = .variable
      · cases vs with
        | nil =>
            rw [pieces.eq_def] at h
            dsimp only at h
            rw [if_pos ha] at h
            exact absurd h List.not_mem_nil
        | cons v vs =>
            rw [pieces_value ha] at h
            rcases List.mem_cons.1 h with rfl | h
            · exact .inr ⟨v, List.mem_cons_self, rfl⟩
            · rcases hlater h with hkept | ⟨x, hx, heq⟩
              · exact .inl hkept
              · exact .inr ⟨x, List.mem_cons_of_mem _ hx, heq⟩
      · rw [pieces_keep ha] at h
        rcases List.mem_cons.1 h with rfl | h
        · exact .inl ⟨a, List.mem_cons_self, ha, rfl⟩
        · exact hlater h

/-- A statement as the parser leaves it: the parameters have the numbers `ns`, and for each number
up to the greatest there is a value. -/
structure Prepared (limit : ℕ) (rawSql : Text) (p : Vdbe ρ) (ns : List ℕ) : Prop where
  legal : ∀ t ∈ lexer.tokens rawSql, t.type ≠ .illegal
  numbers : assignVarNumbers limit ⟨0, []⟩ (parameters (lexer.tokens rawSql)) = some (p.numbers, ns)
  values : p.aVar.length = p.numbers.nVar

/-- The values with these numbers. -/
def Vdbe.bound (p : Vdbe ρ) (ns : List ℕ) : List (Mem ρ) := ns.filterMap p.var

theorem Vdbe.mapM_var {p : Vdbe ρ} {ns : List ℕ} (h : ∀ n ∈ ns, n ≠ 0 ∧ n ≤ p.aVar.length) :
    ns.mapM p.var = some (p.bound ns) := by
  induction ns with
  | nil => rfl
  | cons n ns ih =>
      obtain ⟨⟨hpos, hle⟩, hns⟩ := List.forall_mem_cons.1 h
      have hvar : p.var n = some p.aVar[n - 1] := by
        rw [Vdbe.var, if_neg hpos]
        exact List.getElem?_eq_getElem (by omega)
      have hbound : p.bound (n :: ns) = p.aVar[n - 1] :: p.bound ns := List.filterMap_cons_some hvar
      rw [List.mapM_cons, hvar, ih hns, hbound]
      rfl

theorem Vdbe.mem_bound {p : Vdbe ρ} {ns : List ℕ} {v : Mem ρ} (h : v ∈ p.bound ns) :
    v ∈ p.aVar := by
  obtain ⟨n, -, hn⟩ := List.mem_filterMap.1 h
  rw [Vdbe.var] at hn
  split_ifs at hn
  exact List.mem_of_getElem? hn

theorem length_assignVarNumbers {limit : ℕ} {st st' : VarNumbers} {names : List Text} {ns : List ℕ}
    (h : assignVarNumbers limit st names = some (st', ns)) : ns.length = names.length := by
  induction names generalizing st ns with
  | nil =>
      obtain ⟨rfl, rfl⟩ := Prod.mk.inj (Option.some.inj h)
      rfl
  | cons name names ih =>
      rw [assignVarNumbers, Option.bind_eq_some_iff] at h
      obtain ⟨⟨st₁, x⟩, -, h⟩ := h
      obtain ⟨⟨st₂, ns₂⟩, hrest, h⟩ := Option.map_eq_some_iff.1 h
      obtain ⟨rfl, rfl⟩ := Prod.mk.inj h
      exact congrArg Nat.succ (ih hrest)

section

variable {limit : ℕ} {rawSql : Text} {p : Vdbe ρ} {ns : List ℕ}

theorem Prepared.mem_numbers (h : Prepared limit rawSql p ns) :
    ∀ n ∈ ns, n ≠ 0 ∧ n ≤ p.numbers.nVar :=
  (assignVarNumbers_valid (fun _ he => absurd he List.not_mem_nil) h.numbers).2.2

theorem Prepared.mapM_var (h : Prepared limit rawSql p ns) : ns.mapM p.var = some (p.bound ns) :=
  Vdbe.mapM_var fun n hn => h.values ▸ h.mem_numbers n hn

theorem Prepared.length_bound (h : Prepared limit rawSql p ns) :
    (p.bound ns).length = (parameters (lexer.tokens rawSql)).length := by
  have hlength := congrArg List.length (Common.mapM_eq_some.1 h.mapM_var)
  rw [List.length_map, List.length_map] at hlength
  rw [← hlength, length_assignVarNumbers h.numbers]

/-- The recorded text: the values take the places of the parameters. -/
theorem Prepared.expandSql_eq (h : Prepared limit rawSql p ns)
    (horder : InOrder 0 0 ((parameters (lexer.tokens rawSql)).zip ns)) (formatReal : ρ → Text)
    {nVdbeExec : ℕ} (hexec : nVdbeExec ≤ 1) : expandSql formatReal nVdbeExec p rawSql =
      some ((pieces (lexer.tokens rawSql) (p.bound ns)).flatMap (Piece.text formatReal)) := by
  have hreads := lexer.reads_tokens rawSql
  have hnumbers : expandNumbers p.numbers.pVList 1 (parameters (lexer.tokens rawSql)) = ns :=
    (expandNumbers_eq_iff_from (fun _ he => absurd he List.not_mem_nil) h.numbers 0).2 horder
  have hloop : expandLoop formatReal p rawSql.length 1 rawSql = _ :=
    expandLoop_eq hreads (Nat.le_refl _)
  rw [hnumbers, h.mapM_var, Option.map_some] at hloop
  rw [expandSql, if_neg (Nat.not_lt.2 hexec)]
  split_ifs with hzero
  · -- a statement without parameters is recorded as it is
    have hns : ns = [] := List.eq_nil_iff_forall_not_mem.2 fun n hn => by
      have := h.mem_numbers n hn
      omega
    have hnone : ∀ t ∈ lexer.tokens rawSql, t.type ≠ .variable := by
      have hlength := length_assignVarNumbers h.numbers
      rw [hns, List.length_nil, eq_comm, List.length_eq_zero_iff, parameters,
        List.map_eq_nil_iff, List.filter_eq_nil_iff] at hlength
      exact fun t ht => by simpa using hlength t ht
    have hpieces := pieces_kept hnone [] (p.bound ns)
    rw [List.append_nil] at hpieces
    rw [hpieces, pieces, List.append_nil, flatMap_kept]
    have htext := hreads.text_eq
    rw [List.append_nil] at htext
    rw [← htext]
  · exact hloop

theorem Prepared.tokens_eq (h : Prepared limit rawSql p ns)
    (horder : InOrder 0 0 ((parameters (lexer.tokens rawSql)).zip ns)) {formatReal : ρ → Text}
    (hformats : ∀ v ∈ p.aVar, Formats formatReal v)
    (hapart : Apart formatReal (pieces (lexer.tokens rawSql) (p.bound ns)))
    {nVdbeExec : ℕ} (hexec : nVdbeExec ≤ 1) {sql : Text}
    (hsql : expandSql formatReal nVdbeExec p rawSql = some sql) : lexer.tokens sql =
      (pieces (lexer.tokens rawSql) (p.bound ns)).flatMap (Piece.tokens formatReal) := by
  rw [h.expandSql_eq horder formatReal hexec] at hsql
  obtain rfl := Option.some.inj hsql
  exact (reads_pieces (lexer.reads_tokens rawSql) h.legal h.length_bound
    (fun v hv => hformats v (Vdbe.mem_bound hv)) hapart).tokens_eq

end

/-- In front of a negative number a minus sign begins a comment. -/
example : (expandSql (ρ := ℕ) (fun _ => []) 1 ⟨⟨1, []⟩, [.int (-5)]⟩ "x-?".toList).map
    lexer.tokens = some [⟨.id, ['x']⟩, ⟨.space, "--5".toList⟩] := by decide +kernel

/-- A call with a text and a number. -/
def callStatement : Vdbe ℕ := ⟨⟨2, [(":a".toList, 2)]⟩, [.str "it's".toList, .int (-7)]⟩

theorem tokens_callStatement : lexer.tokens "f(?,:a)".toList =
    [⟨.id, ['f']⟩, ⟨.lp, ['(']⟩, ⟨.variable, ['?']⟩, ⟨.comma, [',']⟩, ⟨.variable, ":a".toList⟩,
      ⟨.rp, [')']⟩] := by
  decide +kernel

theorem prepared_callStatement : Prepared 9 "f(?,:a)".toList callStatement [1, 2] :=
  ⟨by rw [tokens_callStatement]; decide, by rw [tokens_callStatement]; rfl, rfl⟩

theorem apart_callStatement (formatReal : ℕ → Text) :
    Apart formatReal (pieces (lexer.tokens "f(?,:a)".toList) (callStatement.bound [1, 2])) := by
  rw [tokens_callStatement]
  refine ⟨by rintro v ⟨⟩, ?_, by rintro c ⟨⟩; rfl, ?_, by rintro c ⟨⟩; rfl, by rintro v ⟨⟩, trivial⟩
  · rintro v ⟨⟩
    exact ⟨rfl, TokenType.noConfusion⟩
  · rintro v ⟨⟩
    exact ⟨rfl, TokenType.noConfusion⟩

end Sql
end Core
end AergoLite
