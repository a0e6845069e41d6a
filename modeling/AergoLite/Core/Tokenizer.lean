/-
# The tokens of an SQL text

`sqlite3GetToken` (`core/sqlite3.c`) gives the type and the length of the token a text begins with.
The class of the first character, from a table, says how it goes on.  The parser, the expansion of
the parameters of a statement and the parser of the stored procedures all go through a text with it.
-/

import AergoLite.Core.Basic
import AergoLite.Library.Lexer

namespace AergoLite
namespace Core
namespace Sql

open Lexing

/-- `CC_*`, in the order of their numbers. -/
inductive CharClass
  | x | kywd | id | digit | dollar | varalpha | varnum | space | quote | quote2 | pipe | minus
  | lt | gt | eq | bang | slash | lp | rp | semi | plus | star | percent | comma | and | tilda
  | dot | illegal | nul
  deriving DecidableEq, Repr

/-- The classes, by their numbers. -/
def charClasses : List CharClass :=
  [.x, .kywd, .id, .digit, .dollar, .varalpha, .varnum, .space, .quote, .quote2, .pipe, .minus,
    .lt, .gt, .eq, .bang, .slash, .lp, .rp, .semi, .plus, .star, .percent, .comma, .and, .tilda,
    .dot, .illegal, .nul]

/-- The first half of `aiClass`; in the second all are `CC_ID`. -/
def aiClass : List ℕ :=
  [28, 27, 27, 27, 27, 27, 27, 27, 27,  7,  7, 27,  7,  7, 27, 27,
   27, 27, 27, 27, 27, 27, 27, 27, 27, 27, 27, 27, 27, 27, 27, 27,
    7, 15,  8,  5,  4, 22, 24,  8, 17, 18, 21, 20, 23, 11, 26, 16,
    3,  3,  3,  3,  3,  3,  3,  3,  3,  3,  5, 19, 12, 14, 13,  6,
    5,  1,  1,  1,  1,  1,  1,  1,  1,  1,  1,  1,  1,  1,  1,  1,
    1,  1,  1,  1,  1,  1,  1,  1,  0,  1,  1,  9, 27, 27, 27,  1,
    8,  1,  1,  1,  1,  1,  1,  1,  1,  1,  1,  1,  1,  1,  1,  1,
    1,  1,  1,  1,  1,  1,  1,  1,  0,  1,  1, 27, 10, 27, 25, 27]

def charClass (c : Char) : CharClass := charClasses.getD (aiClass.getD c.toNat 2) .illegal

/-- `sqlite3Isxdigit`. -/
def isXDigit (c : Char) : Bool :=
  c.isDigit || ('a'.toNat ≤ c.toNat && c.toNat ≤ 'f'.toNat) ||
    ('A'.toNat ≤ c.toNat && c.toNat ≤ 'F'.toNat)

/-- `IdChar`. -/
def isIdChar (c : Char) : Bool := c.isAlphanum || c == '_' || c == '$' || 128 ≤ c.toNat

/-- A character of a keyword. -/
def isKeywordChar (c : Char) : Bool := charClass c == .kywd || charClass c == .x

/-! ## Keywords -/

/-- `TK_*`: those that `sqlite3GetToken` names, and the codes of the keywords. -/
inductive TokenType
  | semi | lp | rp | comma | plus | minus | star | slash | rem | concat | eq | ne | lt | le | gt
  | ge | lshift | rshift | bitand | bitor | bitnot | dot | space | id | string | blob | integer
  | float | variable | illegal
  | keyword (code : String)
  deriving DecidableEq, Repr

/-- The keywords whose code has their name. -/
def keywords : List String :=
  ["REINDEX", "INDEXED", "INDEX", "DESC", "ESCAPE", "EACH", "CHECK", "KEY", "BEFORE", "FOREIGN",
    "FOR", "IGNORE", "EXPLAIN", "INSTEAD", "ADD", "DATABASE", "AS", "SELECT", "TABLE", "THEN",
    "END", "DEFERRABLE", "ELSE", "EXCEPT", "TRANSACTION", "ACTION", "ON", "ALTER", "RAISE",
    "EXCLUSIVE", "EXISTS", "SAVEPOINT", "INTERSECT", "TRIGGER", "REFERENCES", "CONSTRAINT", "INTO",
    "OFFSET", "OF", "SET", "TEMP", "OR", "UNIQUE", "QUERY", "WITHOUT", "WITH", "RELEASE", "ATTACH",
    "HAVING", "GROUP", "UPDATE", "BEGIN", "RANGE", "BETWEEN", "NOTHING", "BY", "CASCADE", "ASC",
    "DELETE", "CASE", "COLLATE", "CREATE", "DETACH", "IMMEDIATE", "JOIN", "INSERT", "MATCH", "PLAN",
    "ANALYZE", "PRAGMA", "ABORT", "VALUES", "VIRTUAL", "LIMIT", "WHEN", "NOTNULL", "NOT", "NO",
    "NULL", "WHERE", "RECURSIVE", "AFTER", "RENAME", "AND", "DEFAULT", "TO", "IN", "CAST",
    "COMMIT", "CONFLICT", "CURRENT", "PARTITION", "DEFERRED", "DISTINCT", "IS", "DROP",
    "PRECEDING", "FAIL", "FILTER", "REPLACE", "FOLLOWING", "FROM", "IF", "ISNULL", "ORDER",
    "RESTRICT", "OVER", "ROLLBACK", "ROWS", "ROW", "UNBOUNDED", "UNION", "USING", "VACUUM", "VIEW",
    "WINDOW", "DO", "INITIALLY", "ALL", "PRIMARY"]

/-- The others, with their codes. -/
def keywordCodes : List (String × String) :=
  [("REGEXP", "LIKE_KW"), ("GLOB", "LIKE_KW"), ("LIKE", "LIKE_KW"), ("LEFT", "JOIN_KW"),
    ("NATURAL", "JOIN_KW"), ("OUTER", "JOIN_KW"), ("INNER", "JOIN_KW"), ("CROSS", "JOIN_KW"),
    ("FULL", "JOIN_KW"), ("RIGHT", "JOIN_KW"), ("TEMPORARY", "TEMP"),
    ("CURRENT_DATE", "CTIME_KW"), ("CURRENT_TIMESTAMP", "CTIME_KW"), ("CURRENT_TIME", "CTIME_KW"),
    ("AUTOINCREMENT", "AUTOINCR"), ("COLUMN", "COLUMNKW")]

/-- `keywordCode`: the letters are compared in any case. -/
def keywordCode (word : Text) : TokenType :=
  let name := String.ofList (word.map Char.toUpper)
  if keywords.contains name then .keyword name
  else
    match keywordCodes.lookup name with
    | some code => .keyword code
    | none => .id

/-! ## Tokens -/

/-- The length of a comment, behind its first two characters. -/
def commentLength : Text → ℕ
  | '*' :: '/' :: _ => 2
  | _ :: z => commentLength z + 1
  | [] => 0

/-- The length of a quoted text, behind its quote; two quotes are a character of it. -/
def quoteLength (delim : Char) : Text → Option ℕ
  | [] => none
  | [c] => if c = delim then some 1 else none
  | c :: c' :: z =>
    if c = delim then if c' = delim then (quoteLength delim z).map (· + 2) else some 1
    else (quoteLength delim (c' :: z)).map (· + 1)

/-- The point and the digits behind it. -/
def fractionLength : Text → ℕ
  | '.' :: z => (z.takeWhile Char.isDigit).length + 1
  | _ => 0

/-- There is a digit, also behind a sign. -/
def startsExponent (z : Text) : Bool :=
  if z.head? = some '+' ∨ z.head? = some '-' then z.tail.head?.any Char.isDigit
  else z.head?.any Char.isDigit

def exponentLength : Text → ℕ
  | c :: z =>
    if (c = 'e' ∨ c = 'E') ∧ startsExponent z then ((z.drop 1).takeWhile Char.isDigit).length + 2
    else 0
  | [] => 0

/-- `CC_DIGIT`. -/
def getNumber (z : Text) : TokenType × ℕ :=
  if z.head? = some '0' ∧ (z.tail.head? = some 'x' ∨ z.tail.head? = some 'X') ∧
      (z.drop 2).head?.any isXDigit then
    (.integer, ((z.drop 3).takeWhile isXDigit).length + 3)
  else
    let digits := (z.takeWhile Char.isDigit).length
    let fraction := fractionLength (z.drop digits)
    let exponent := exponentLength (z.drop (digits + fraction))
    let i := digits + fraction + exponent
    let rest := ((z.drop i).takeWhile isIdChar).length
    (if 0 < rest then .illegal else if fraction = 0 ∧ exponent = 0 then .integer else .float,
      i + rest)

/-- The length of the name of a variable, behind its first character, and whether it is one; `n`
tells that there is a character in it.  A name may have an index in parentheses at its end. -/
def variableName : Bool → Text → Bool × ℕ
  | n, [] => (n, 0)
  | n, c :: z =>
    if isIdChar c then ((variableName true z).1, (variableName true z).2 + 1)
    else if c = '(' ∧ n = true then
      let i := (z.takeWhile fun c => !isSpace c && c != ')').length
      if (z.drop i).head? = some ')' then (true, i + 2) else (false, i + 1)
    else
      match c, z with
      | ':', ':' :: z => ((variableName n z).1, (variableName n z).2 + 2)
      | _, _ => (n, 0)

/-- `CC_DOLLAR` and `CC_VARALPHA`. -/
def getVariable (z : Text) : TokenType × ℕ :=
  (if (variableName false z).1 then .variable else .illegal, (variableName false z).2 + 1)

/-- `CC_MINUS`: two of them begin a comment. -/
def getMinus (z : Text) : TokenType × ℕ :=
  if z.head? = some '-' then (.space, (z.tail.takeWhile (· != '\n')).length + 2) else (.minus, 1)

/-- `CC_SLASH`. -/
def getSlash (z : Text) : TokenType × ℕ :=
  if z.head? = some '*' ∧ z.tail ≠ [] then (.space, commentLength z.tail + 2) else (.slash, 1)

/-- `CC_QUOTE`. -/
def getQuoted (delim : Char) (z : Text) : TokenType × ℕ :=
  match quoteLength delim z with
  | some n => (if delim = '\'' then .string else .id, n + 1)
  | none => (.illegal, z.length + 1)

/-- `CC_QUOTE2`. -/
def getBracketed (z : Text) : TokenType × ℕ :=
  let n := (z.takeWhile (· != ']')).length
  if n < z.length then (.id, n + 2) else (.illegal, n + 1)

/-- `CC_KYWD`. -/
def getWord (c : Char) (z : Text) : TokenType × ℕ :=
  let i := (z.takeWhile isKeywordChar).length
  let rest := ((z.drop i).takeWhile isIdChar).length
  (if 0 < rest then .id else keywordCode (c :: z.take i), i + rest + 1)

/-- `CC_ID`. -/
def getId (z : Text) : TokenType × ℕ := (.id, (z.takeWhile isIdChar).length + 1)

/-- `CC_X`: a blob has two digits for each byte. -/
def getX (z : Text) : TokenType × ℕ :=
  if z.head? = some '\'' then
    let n := (z.tail.takeWhile isXDigit).length
    if (z.tail.drop n).head? = some '\'' ∧ n % 2 = 0 then (.blob, n + 3)
    else
      let n := (z.tail.takeWhile (· != '\'')).length
      (.illegal, if n < z.tail.length then n + 3 else n + 2)
  else getId z

/-- `sqlite3GetToken`.  The end of the text is its terminator, the only character of `CC_NUL`. -/
def getToken : Text → TokenType × ℕ
  | [] => (.illegal, 0)
  | c :: z =>
    match charClass c with
    | .space => (.space, (z.takeWhile isSpace).length + 1)
    | .minus => getMinus z
    | .lp => (.lp, 1)
    | .rp => (.rp, 1)
    | .semi => (.semi, 1)
    | .plus => (.plus, 1)
    | .star => (.star, 1)
    | .slash => getSlash z
    | .percent => (.rem, 1)
    | .eq => if z.head? = some '=' then (.eq, 2) else (.eq, 1)
    | .lt =>
      if z.head? = some '=' then (.le, 2)
      else if z.head? = some '>' then (.ne, 2)
      else if z.head? = some '<' then (.lshift, 2)
      else (.lt, 1)
    | .gt =>
      if z.head? = some '=' then (.ge, 2)
      else if z.head? = some '>' then (.rshift, 2)
      else (.gt, 1)
    | .bang => if z.head? = some '=' then (.ne, 2) else (.illegal, 1)
    | .pipe => if z.head? = some '|' then (.concat, 2) else (.bitor, 1)
    | .comma => (.comma, 1)
    | .and => (.bitand, 1)
    | .tilda => (.bitnot, 1)
    | .quote => getQuoted c z
    | .dot => if z.head?.any Char.isDigit then getNumber (c :: z) else (.dot, 1)
    | .digit => getNumber (c :: z)
    | .quote2 => getBracketed z
    | .varnum => (.variable, (z.takeWhile Char.isDigit).length + 1)
    | .dollar => getVariable z
    | .varalpha => getVariable z
    | .kywd => getWord c z
    | .x => getX z
    | .id => getId z
    | .illegal => (.illegal, 1)
    | .nul => (.illegal, 1)

/-! ## Characters -/

theorem charClass_of_le {c : Char} (h : 128 ≤ c.toNat) : charClass c = .id := by
  have hrow : aiClass.getD c.toNat 2 = 2 := by
    rw [List.getD_eq_getElem?_getD, List.getElem?_eq_none (by exact h)]
    rfl
  rw [charClass, hrow]
  rfl

/-- A property of the characters is one of those in the table, and of the others. -/
theorem forall_char (P : Char → Prop) (htable : ∀ n < 128, P (Char.ofNat n))
    (hrest : ∀ c : Char, 128 ≤ c.toNat → P c) (c : Char) : P c := by
  by_cases h : c.toNat < 128
  · have hc := htable c.toNat h
    rwa [Char.ofNat_toNat] at hc
  · exact hrest c (Nat.not_lt.1 h)

theorem toNat_lt_of_isDigit {c : Char} (h : c.isDigit = true) : c.toNat < 128 := by
  have hle : c.toNat ≤ '9'.toNat := (Char.isDigit_iff_toNat.1 h).2
  exact Nat.lt_of_le_of_lt hle (by decide)

theorem isDigit_iff (c : Char) : c.isDigit = true ↔ charClass c = .digit := by
  refine forall_char (fun c => c.isDigit = true ↔ charClass c = .digit) (by decide +kernel)
    (fun c h => ?_) c
  rw [charClass_of_le h]
  exact iff_of_false (fun hdigit => absurd (toNat_lt_of_isDigit hdigit) (Nat.not_lt.2 h))
    CharClass.noConfusion

theorem isIdChar_iff (c : Char) : isIdChar c = true ↔
    charClass c ∈ [CharClass.x, .kywd, .id, .digit, .dollar] := by
  refine forall_char (fun c => isIdChar c = true ↔
    charClass c ∈ [CharClass.x, .kywd, .id, .digit, .dollar]) (by decide +kernel) (fun c h => ?_) c
  rw [charClass_of_le h]
  refine iff_of_true ?_ (by decide)
  simp [isIdChar, h]

theorem isIdChar_of_isDigit {c : Char} (h : c.isDigit = true) : isIdChar c = true := by
  rw [isIdChar_iff, (isDigit_iff c).1 h]
  decide

theorem isIdChar_of_isKeywordChar {c : Char} (h : isKeywordChar c = true) : isIdChar c = true := by
  rw [isIdChar_iff]
  rw [isKeywordChar, Bool.or_eq_true, beq_iff_eq, beq_iff_eq] at h
  rcases h with h | h <;> rw [h] <;> decide

end Sql
end Core
end AergoLite
