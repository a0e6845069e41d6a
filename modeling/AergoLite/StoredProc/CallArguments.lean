/-
# The arguments of a recorded call

A CALL has its own parser, `parse_list` (`core/stored_proc.c`), which reads the arguments one token
at a time.  On the node that makes the call an argument may be a parameter with any value; what the
other nodes parse is the recorded text, with literals.

`parseList_literals`: they get the same values, but for a NULL and a blob of zeros, with which
the call is not parsed at all.  `sqlite3ValueFromToken` looks for NULL among the identifiers, and to
the tokenizer it is a keyword.
-/

import AergoLite.Core.LiteralValues

namespace AergoLite
namespace StoredProc

open Lexing AergoLite.Core AergoLite.Core.Sql

/-- `sqlite3_list`. -/
inductive ListItem (ρ : Type)
  /-- A parameter of the statement, or a variable of the procedure. -/
  | variable (name : Text)
  | value (v : Mem ρ)
  | list (items : List (ListItem ρ))

/-- The length of the token with the number behind a minus sign, and its type. -/
def numberToken (zToken : Text) : Option (TokenType × ℕ) :=
  let (tk, n) := getToken zToken
  if tk = .minus then
    let (tk, n) := getToken zToken.tail
    if tk = .integer ∨ tk = .float then some (tk, n + 1) else none
  else some (tk, n)

/-- The value of a token. -/
def tokenValue {ρ : Type} (atoF : Text → ρ) (tk : TokenType) (token : Text) : Option (Mem ρ) :=
  match tk with
  | .integer => some (.int (sqlite3Atoi64 token).1)
  | .float => some (.real (atoF token))
  | .string => some (.str (sqlite3Dequote token))
  | .blob => some (.blob (sqlite3HexToBlob (token.drop 2).dropLast))
  | .id =>
    if token.map Char.toLower = "true".toList then some (.int 1)
    else if token.map Char.toLower = "false".toList then some (.int 0)
    else if token.map Char.toLower = "null".toList then some .null
    else none
  | _ => none

/-- `sqlite3ValueFromToken`: the value, and the text behind it. -/
def sqlite3ValueFromToken {ρ : Type} (atoF : Text → ρ) (zToken : Text) : Option (Mem ρ × Text) :=
  (numberToken zToken).bind fun (tk, n) =>
    (tokenValue atoF tk (zToken.take n)).map fun v => (v, zToken.drop n)

/-- `while (sqlite3Isspace(*sql)) sql++`. -/
def skipSpaces (sql : Text) : Text := sql.dropWhile isSpace

/-- "invalid token: %s" -/
def invalidToken (sql : Text) : Option Text := some ("invalid token: ".toList ++ sql)

/-- "variable must exist: %.*s" -/
def variableMustExist (name : Text) : Option Text := some ("variable must exist: ".toList ++ name)

mutual

/-- `parse_list`: the items and the text behind the list, or the message, if there is one.  `known`
are the variables there are; the parameters of a statement all are. -/
def parseList {ρ : Type} (atoF : Text → ρ) (known : Text → Bool) :
    ℕ → Bool → Text → Except (Option Text) (List (ListItem ρ) × Text)
  | 0, _, _ => .error none
  | fuel + 1, isFunction, sql =>
    let sql := skipSpaces sql
    if sql.head? = some (if isFunction then '(' else '[') then
      parseItems atoF known fuel (if isFunction then ')' else ']') (skipSpaces sql.tail)
    else .error none

/-- The loop of `parse_list`. -/
def parseItems {ρ : Type} (atoF : Text → ρ) (known : Text → Bool) :
    ℕ → Char → Text → Except (Option Text) (List (ListItem ρ) × Text)
  | 0, _, _ => .error none
  | fuel + 1, listClose, sql =>
    let (tokenType, n) := getToken sql
    let item : Except (Option Text) (Option (ListItem ρ × Text)) :=
      if tokenType = .variable then
        if known (sql.take n) then .ok (some (.variable (sql.take n), sql.drop n))
        else .error (variableMustExist (sql.take n))
      else if sql.head? = some '[' then
        (parseList atoF known fuel false sql).map fun p => some (.list p.1, p.2)
      -- an empty list, or a comma at the end
      else if n = 1 ∧ sql.head? = some listClose then .ok none
      else
        match sqlite3ValueFromToken atoF sql with
        | some (v, z) => .ok (some (.value v, z))
        | none => .error (invalidToken sql)
    match item with
    | .error message => .error message
    | .ok none => .ok ([], skipSpaces sql.tail)
    | .ok (some (x, sql)) =>
      let sql := skipSpaces sql
      if sql.head? = some ',' then
        (parseItems atoF known fuel listClose (skipSpaces sql.tail)).map fun p => (x :: p.1, p.2)
      else if sql.head? = some listClose then .ok ([x], skipSpaces sql.tail)
      else .error (invalidToken sql)

end

variable {ρ : Type}

/-! ## One argument -/

/-- The arguments that `sqlite3ValueFromToken` reads. -/
def isArgument : Mem ρ → Bool
  | .null | .zero _ => false
  | .int _ | .real _ | .str _ | .blob _ => true

/-- What is recorded of the value determines it. -/
def Carried (formatReal : ρ → Text) (atoF : Text → ρ) : Mem ρ → Prop
  | .int i => -2 ^ 63 ≤ i ∧ i < 2 ^ 63
  | .real r => atoF (formatReal r) = r
  | .str z => '\x00' ∉ z
  | .null | .zero _ | .blob _ => True

theorem next_of_reads {z t rest : Text} {type : TokenType} {ts : List SqlToken}
    (h : lexer.Reads z (⟨type, t⟩ :: ts) rest) : getToken z = (type, t.length) := by
  cases h with
  | token next _ => exact next

theorem numberToken_of_ne {z : Text} {type : TokenType} {n : ℕ} (h : getToken z = (type, n))
    (htype : type ≠ .minus) : numberToken z = some (type, n) := by
  rw [numberToken, h]
  exact if_neg htype

/-- A number is taken with its sign. -/
theorem numberToken_signed {type : TokenType} {z s r : Text} (h : Unsigned type z)
    (htype : type = .integer ∨ type = .float) (hs : s = z ∨ s = '-' :: z) (hr : Halts goesOn r) :
    numberToken (s ++ r) = some (type, s.length) := by
  have hnumber := next_of_reads (h.reads r hr)
  rcases hs with rfl | rfl
  · refine numberToken_of_ne hnumber ?_
    rcases htype with rfl | rfl <;> exact TokenType.noConfusion
  · have hreads := h.signed (.inr rfl) hr
    rw [signedTokens, if_pos (by rfl)] at hreads
    rw [numberToken, next_of_reads hreads]
    dsimp only
    rw [if_pos rfl, List.cons_append, List.tail_cons, hnumber]
    dsimp only
    rw [if_pos htype]
    rfl

theorem sqlite3Atoi64_int64Text {i : ℤ} (h : -2 ^ 63 ≤ i ∧ i < 2 ^ 63) :
    (sqlite3Atoi64 (int64Text i)).1 = i := by
  have hne : Nat.toDigits 10 i.natAbs ≠ [] := Nat.toDigits_ne_nil
  have hz : ∀ c ∈ Nat.toDigits 10 i.natAbs, c.isDigit = true :=
    fun c hc => Nat.isDigit_of_mem_toDigits (by decide) (by decide) hc
  have hsmall : smallestInt64 = -2 ^ 63 := by decide
  rw [int64Text]
  split_ifs with hneg
  · change (atoi64Digits true (Nat.toDigits 10 i.natAbs)).1 = i
    rw [atoi64Digits_eq hne hz, decimal_toDigits]
    by_cases hlt : i.natAbs < 2 ^ 63
    · rw [if_pos hlt]
      change -(i.natAbs : ℤ) = i
      omega
    · rw [if_neg hlt]
      change smallestInt64 = i
      omega
  · rw [sqlite3Atoi64_digits hne hz, atoi64Digits_eq hne hz, decimal_toDigits, if_pos (by omega)]
    change (i.natAbs : ℤ) = i
    omega

theorem valueFromToken_of (atoF : Text → ρ) {type : TokenType} {t r : Text}
    (h : numberToken (t ++ r) = some (type, t.length)) :
    sqlite3ValueFromToken atoF (t ++ r) = (tokenValue atoF type t).map fun v => (v, r) := by
  rw [sqlite3ValueFromToken, h]
  dsimp only [Option.bind_some]
  rw [List.take_left, List.drop_left]

/-- **An argument is read as the value it was written for**, if it is not NULL or a blob of
zeros. -/
theorem valueFromToken_literal {formatReal : ρ → Text} {atoF : Text → ρ} {v : Mem ρ}
    (hformats : Formats formatReal v) (hcarried : Carried formatReal atoF v) {r : Text}
    (hr : Halts goesOn r) : sqlite3ValueFromToken atoF (literal formatReal v ++ r) =
      if isArgument v then some (v, r) else none := by
  have hreads := reads_literal hformats hr
  cases v with
  | null =>
      have hnumber : numberToken ("NULL".toList ++ r) =
          some (.keyword "NULL", "NULL".toList.length) :=
        numberToken_of_ne (next_of_reads hreads) TokenType.noConfusion
      exact valueFromToken_of atoF hnumber
  | int i =>
      have hnumber := numberToken_signed (unsigned_toDigits i.natAbs) (.inl rfl)
        (int64Text_signed i) hr
      have hvalue := valueFromToken_of atoF hnumber
      rw [tokenValue, sqlite3Atoi64_int64Text hcarried] at hvalue
      exact hvalue
  | real x =>
      obtain ⟨z, hz, hx⟩ := hformats
      have hnumber := numberToken_signed (unsigned_float hz) (.inr rfl) hx hr
      have hreal : atoF (formatReal x) = x := hcarried
      have hvalue := valueFromToken_of atoF hnumber
      rw [tokenValue, hreal] at hvalue
      exact hvalue
  | str z =>
      have hdequote : sqlite3Dequote (literal formatReal (.str z)) = z := by
        change dequoteLoop '\'' (escapeQuotes z ++ ['\'']) = z
        rw [escapeQuotes, dequoteLoop_escape]
        exact List.takeWhile_eq_self_iff.2 fun c hc => bne_iff_ne.2 fun heq => hcarried (heq ▸ hc)
      have hnumber := numberToken_of_ne (next_of_reads hreads) TokenType.noConfusion
      have hvalue := valueFromToken_of atoF hnumber
      rw [tokenValue, hdequote] at hvalue
      exact hvalue
  | zero n =>
      have hnumber := numberToken_of_ne (next_of_reads hreads) TokenType.noConfusion
      rw [literal_zero] at hnumber ⊢
      exact valueFromToken_of atoF hnumber
  | blob z =>
      have hhex : sqlite3HexToBlob ((literal formatReal (.blob z)).drop 2).dropLast = z := by
        change sqlite3HexToBlob (toHex z ++ ['\'']).dropLast = z
        rw [List.dropLast_concat, sqlite3HexToBlob_toHex]
      have hnumber := numberToken_of_ne (next_of_reads hreads) TokenType.noConfusion
      have hvalue := valueFromToken_of atoF hnumber
      rw [tokenValue, hhex] at hvalue
      exact hvalue

/-! ## The list -/

/-- The arguments, as they are recorded. -/
def argumentsText (formatReal : ρ → Text) : List (Mem ρ) → Text
  | [] => []
  | [v] => literal formatReal v
  | v :: w :: vs => literal formatReal v ++ ',' :: argumentsText formatReal (w :: vs)

theorem skipSpaces_cons {c : Char} (h : isSpace c = false) (z : Text) :
    skipSpaces (c :: z) = c :: z :=
  List.dropWhile_cons_of_neg (by rw [h]; exact Bool.false_ne_true)

/-- The loop at an argument. -/
theorem parseItems_literal {formatReal : ρ → Text} {atoF : Text → ρ} {known : Text → Bool}
    {v : Mem ρ} (hformats : Formats formatReal v) (hcarried : Carried formatReal atoF v)
    {r : Text} (hr : Halts goesOn r) (fuel : ℕ) :
    parseItems atoF known (fuel + 1) ')' (literal formatReal v ++ r) =
      if isArgument v then
        if (skipSpaces r).head? = some ',' then
          (parseItems atoF known fuel ')' (skipSpaces (skipSpaces r).tail)).map
            fun p => (.value v :: p.1, p.2)
        else if (skipSpaces r).head? = some ')' then
          .ok ([.value v], skipSpaces (skipSpaces r).tail)
        else .error (invalidToken (skipSpaces r))
      else .error (invalidToken (literal formatReal v ++ r)) := by
  have hvalue := valueFromToken_literal hformats hcarried hr
  obtain ⟨c, t, hliteral, hc⟩ := literal_head hformats
  have hvariable : (getToken (literal formatReal v ++ r)).1 ≠ .variable := by
    have hreads := reads_literal hformats hr
    cases htokens : literalTokens formatReal v with
    | nil =>
        rw [htokens] at hreads
        have htext := congrArg List.length hreads.text_eq
        rw [hliteral] at htext
        simp at htext
        omega
    | cons a ts =>
        rw [htokens] at hreads
        rw [next_of_reads hreads]
        exact (type_literalTokens (htokens ▸ List.mem_cons_self)).2
  have hopen : (literal formatReal v ++ r).head? ≠ some '[' := by
    rw [hliteral]
    intro heq
    rw [Option.some.inj heq] at hc
    exact absurd hc (by decide)
  have hclose : (literal formatReal v ++ r).head? ≠ some ')' := by
    rw [hliteral]
    intro heq
    rw [Option.some.inj heq] at hc
    exact absurd hc (by decide)
  rw [parseItems]
  dsimp only
  rw [if_neg hvariable, if_neg hopen, if_neg fun h => hclose h.2, hvalue]
  cases isArgument v with
  | false => rfl
  | true => rfl

theorem parseItems_literals {formatReal : ρ → Text} {atoF : Text → ρ} (known : Text → Bool)
    {vs : List (Mem ρ)} (hformats : ∀ v ∈ vs, Formats formatReal v)
    (hcarried : ∀ v ∈ vs, Carried formatReal atoF v) {fuel : ℕ} (hfuel : vs.length < fuel)
    (r : Text) :
    parseItems atoF known fuel ')' (argumentsText formatReal vs ++ ')' :: r) =
      if vs.all isArgument then .ok (vs.map .value, skipSpaces r)
      else .error (invalidToken
        (argumentsText formatReal (vs.dropWhile isArgument) ++ ')' :: r)) := by
  induction vs generalizing fuel with
  | nil =>
      cases fuel with
      | zero => exact absurd hfuel (Nat.not_lt_zero _)
      | succ fuel =>
          rw [parseItems]
          rfl
  | cons v vs ih =>
      obtain ⟨hv, hformats⟩ := List.forall_mem_cons.1 hformats
      obtain ⟨hcv, hcarried⟩ := List.forall_mem_cons.1 hcarried
      cases fuel with
      | zero => exact absurd hfuel (Nat.not_lt_zero _)
      | succ fuel =>
          cases vs with
          | nil =>
              rw [argumentsText, parseItems_literal hv hcv (by rintro c ⟨⟩; rfl),
                skipSpaces_cons (by decide)]
              have hcomma : (')' :: r).head? ≠ some ',' :=
                fun h => absurd (Option.some.inj h) (by decide)
              have hclose : (')' :: r).head? = some ')' := rfl
              rw [if_neg hcomma, if_pos hclose, List.all_cons, List.all_nil, Bool.and_true]
              cases hargument : isArgument v with
              | false =>
                  rw [List.dropWhile_cons_of_neg (by rw [hargument]; exact Bool.false_ne_true)]
                  rfl
              | true => rfl
          | cons w vs =>
              have hrest := ih hformats hcarried (Nat.lt_of_succ_lt_succ hfuel)
              obtain ⟨c, t, hliteral, hc⟩ := literal_head (hformats w List.mem_cons_self)
              obtain ⟨z, hz⟩ : ∃ z, argumentsText formatReal (w :: vs) ++ ')' :: r = c :: z := by
                cases vs with
                | nil => exact ⟨_, by rw [argumentsText, hliteral, List.cons_append]⟩
                | cons x vs => exact ⟨_, by rw [argumentsText, hliteral]; rfl⟩
              have hspace := (endsOperator_of_startsLiteral hc).1
              have hall : (v :: w :: vs).all isArgument =
                  (isArgument v && (w :: vs).all isArgument) := List.all_cons
              have hcomma : (',' :: (argumentsText formatReal (w :: vs) ++ ')' :: r)).head? =
                  some ',' := rfl
              rw [argumentsText, List.append_assoc, List.cons_append,
                parseItems_literal hv hcv (by rintro c ⟨⟩; rfl), skipSpaces_cons (by decide),
                if_pos hcomma, List.tail_cons, hz, skipSpaces_cons hspace, ← hz, hrest, hall]
              cases hargument : isArgument v with
              | false =>
                  have hdrop : (v :: w :: vs).dropWhile isArgument = v :: w :: vs :=
                    List.dropWhile_cons_of_neg (by rw [hargument]; exact Bool.false_ne_true)
                  rw [hdrop, argumentsText, List.append_assoc, List.cons_append]
                  rfl
              | true =>
                  rw [List.dropWhile_cons_of_pos hargument, if_pos rfl, Bool.true_and]
                  split_ifs <;> rfl

end StoredProc
end AergoLite
