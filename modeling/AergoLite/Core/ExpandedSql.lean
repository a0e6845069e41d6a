/-
# The SQL text of a command

What a node records of a command is its text, with a literal in place of each parameter
(`sqlite3VdbeExpandSql`).  The other nodes execute this text, so it should mean to them what the
prepared statement meant, with its values, to the node.

Which value goes where is a matter of numbers: the parser gives `?` the number after the greatest
so far, and the expansion the number after the last one.  `expandNumbers_eq_iff` says when this
comes to the same.  The text is that of the tokens, with the literals in place of the parameters
(`expandLoop_eq`).

The text of a floating point number is a parameter.
-/

import AergoLite.Core.TokenEnds
import AergoLite.Core.Signing

namespace AergoLite
namespace Core
namespace Sql

open Lexing

/-- A value of a parameter. -/
inductive Mem (ρ : Type)
  | null
  | int (i : ℤ)
  | real (r : ρ)
  | str (z : Text)
  /-- A blob of zeros, with their number. -/
  | zero (n : ℕ)
  | blob (z : Bytes)
  deriving DecidableEq

/-! ## The numbers of the parameters -/

/-- The digits of `?NNN`. -/
def decimal (digits : Text) : ℕ := digits.foldl (fun v c => v * 10 + (c.toNat - '0'.toNat)) 0

/-- `nVar` and `pVList` of a parse: the greatest number, and the names with their numbers. -/
structure VarNumbers where
  nVar : ℕ
  pVList : List (Text × ℕ)

/-- `sqlite3VListNameToNum`: 0 for a name that is not there. -/
def nameToNum (pVList : List (Text × ℕ)) (name : Text) : ℕ := (pVList.lookup name).getD 0

/-- `sqlite3ExprAssignVarNumber`; `limit` is `SQLITE_LIMIT_VARIABLE_NUMBER`.  `#NNN` is a register,
and only for nested parses. -/
def exprAssignVarNumber (limit : ℕ) (st : VarNumbers) (name : Text) : Option (VarNumbers × ℕ) :=
  match name with
  | ['?'] => if limit < st.nVar + 1 then none else some (⟨st.nVar + 1, st.pVList⟩, st.nVar + 1)
  | '?' :: digits =>
    let x := decimal digits
    if x < 1 ∨ limit < x then none
    else if st.nVar < x then some (⟨x, st.pVList ++ [(name, x)]⟩, x)
    else if st.pVList.any (·.2 == x) then some (st, x)
    else some (⟨st.nVar, st.pVList ++ [(name, x)]⟩, x)
  | name =>
    if name.head? = some '#' ∧ (name.tail.head?.any Char.isDigit) then none
    else
      let x := nameToNum st.pVList name
      if x ≠ 0 then some (st, x)
      else if limit < st.nVar + 1 then none
      else some (⟨st.nVar + 1, st.pVList ++ [(name, st.nVar + 1)]⟩, st.nVar + 1)

/-- The parser numbers the parameters in the order of the text. -/
def assignVarNumbers (limit : ℕ) : VarNumbers → List Text → Option (VarNumbers × List ℕ)
  | st, [] => some (st, [])
  | st, name :: names =>
    (exprAssignVarNumber limit st name).bind fun p =>
      (assignVarNumbers limit p.1 names).map fun q => (q.1, p.2 :: q.2)

/-! ## The expansion -/

/-- `%q`: quotes are doubled, and the text ends at its terminator. -/
def escapeQuotes (z : Text) : Text :=
  (z.takeWhile (· != '\x00')).flatMap fun c => if c = '\'' then ['\'', '\''] else [c]

/-- What is written for a value. -/
def literal {ρ : Type} (formatReal : ρ → Text) : Mem ρ → Text
  | .null => "NULL".toList
  | .int i => int64Text i
  | .real r => formatReal r
  | .str z => '\'' :: (escapeQuotes z ++ ['\''])
  | .zero n => "zeroblob(".toList ++ (int64Text n ++ [')'])
  | .blob z => 'x' :: '\'' :: (toHex z ++ ['\''])

/-- `findNextHostParameter`: the length of what is in front of it, and its own; 0 where there is
none. -/
def findNextHostParameter : ℕ → Text → ℕ × ℕ
  | 0, _ => (0, 0)
  | _ + 1, [] => (0, 0)
  | fuel + 1, c :: z =>
    let (type, n) := getToken (c :: z)
    if type = .variable then (0, n)
    else
      let (nTotal, nToken) := findNextHostParameter fuel ((c :: z).drop n)
      (n + nTotal, nToken)

/-- The number of a parameter in the expansion. -/
def parameterIndex (pVList : List (Text × ℕ)) (nextIndex : ℕ) (name : Text) : ℕ :=
  match name with
  | ['?'] => nextIndex
  | '?' :: digits => decimal digits
  | name => nameToNum pVList name

/-- A prepared statement; `aVar` are the values of its `nVar` parameters. -/
structure Vdbe (ρ : Type) where
  numbers : VarNumbers
  aVar : List (Mem ρ)

/-- `aVar[idx-1]`, which is there for the numbers from 1 to `nVar`. -/
def Vdbe.var {ρ : Type} (p : Vdbe ρ) (idx : ℕ) : Option (Mem ρ) :=
  if idx = 0 then none else p.aVar[idx - 1]?

/-- The loop of `sqlite3VdbeExpandSql`. -/
def expandLoop {ρ : Type} (formatReal : ρ → Text) (p : Vdbe ρ) : ℕ → ℕ → Text → Option Text
  | 0, _, _ => some []
  | _ + 1, _, [] => some []
  | fuel + 1, nextIndex, c :: z =>
    let (n, nToken) := findNextHostParameter (c :: z).length (c :: z)
    let out := (c :: z).take n
    let rawSql := (c :: z).drop n
    if nToken = 0 then some out
    else
      let idx := parameterIndex p.numbers.pVList nextIndex (rawSql.take nToken)
      (p.var idx).bind fun var =>
        (expandLoop formatReal p fuel (idx + 1) (rawSql.drop nToken)).map fun rest =>
          out ++ (literal formatReal var ++ rest)

/-- A line, with its end. -/
def takeLine : Text → Text
  | [] => []
  | c :: z => if c = '\n' then [c] else c :: takeLine z

/-- The lines of a nested statement are made comments. -/
def commentLines : ℕ → Text → Text
  | 0, _ => []
  | _ + 1, [] => []
  | fuel + 1, c :: z =>
    let line := takeLine (c :: z)
    "-- ".toList ++ (line ++ commentLines fuel ((c :: z).drop line.length))

/-- `sqlite3VdbeExpandSql`.  Without a result the value of a parameter is looked for outside of
`aVar`. -/
def expandSql {ρ : Type} (formatReal : ρ → Text) (nVdbeExec : ℕ) (p : Vdbe ρ) (rawSql : Text) :
    Option Text :=
  if 1 < nVdbeExec then some (commentLines rawSql.length rawSql)
  else if p.numbers.nVar = 0 then some rawSql
  else expandLoop formatReal p rawSql.length 1 rawSql

/-! ## The numbers -/

/-- The numbers that the expansion finds. -/
def expandNumbers (pVList : List (Text × ℕ)) : ℕ → List Text → List ℕ
  | _, [] => []
  | nextIndex, name :: names =>
    let idx := parameterIndex pVList nextIndex name
    idx :: expandNumbers pVList (idx + 1) names

/-- Each `?` comes after the parameter with the greatest number so far; `last` is the number of the
parameter in front. -/
def InOrder : ℕ → ℕ → List (Text × ℕ) → Prop
  | _, _, [] => True
  | last, greatest, (name, x) :: rest =>
    (name = ['?'] → last = greatest) ∧ InOrder x (max greatest x) rest

instance instDecidableInOrder : ∀ last greatest ps, Decidable (InOrder last greatest ps)
  | _, _, [] => isTrue trivial
  | last, greatest, (name, x) :: rest =>
    haveI := instDecidableInOrder x (max greatest x) rest
    inferInstanceAs (Decidable ((name = ['?'] → last = greatest) ∧ InOrder x (max greatest x) rest))

/-- The names have numbers from 1 to `nVar`. -/
def VarNumbers.Valid (st : VarNumbers) : Prop := ∀ e ∈ st.pVList, e.2 ≠ 0 ∧ e.2 ≤ st.nVar

/-- What numbering a parameter does. -/
structure Assigned (st st' : VarNumbers) (name : Text) (x : ℕ) : Prop where
  positive : x ≠ 0
  nVar : st'.nVar = max st.nVar x
  pVList : st.pVList <+: st'.pVList
  valid : st'.Valid
  next : name = ['?'] → x = st.nVar + 1
  index : name ≠ ['?'] → ∀ later nextIndex,
    parameterIndex (st'.pVList ++ later) nextIndex name = x

theorem nameToNum_append {l later : List (Text × ℕ)} {name : Text} (h : nameToNum l name ≠ 0) :
    nameToNum (l ++ later) name = nameToNum l name := by
  unfold nameToNum at h ⊢
  rw [List.lookup_append]
  cases hlookup : l.lookup name with
  | none => rw [hlookup] at h; exact absurd rfl h
  | some x => rfl

theorem nameToNum_mem {l : List (Text × ℕ)} {name : Text} (h : nameToNum l name ≠ 0) :
    (name, nameToNum l name) ∈ l := by
  unfold nameToNum at h ⊢
  cases hlookup : l.lookup name with
  | none => rw [hlookup] at h; exact absurd rfl h
  | some x =>
      obtain ⟨before, after, hl, -⟩ := List.lookup_eq_some_iff.1 hlookup
      rw [hl]
      simp

/-- A name that is not there gets the number that is added. -/
theorem nameToNum_add {st : VarNumbers} (hvalid : st.Valid) {name : Text}
    (h : nameToNum st.pVList name = 0) (x : ℕ) : nameToNum (st.pVList ++ [(name, x)]) name = x := by
  have hnone : st.pVList.lookup name = none := by
    cases hlookup : st.pVList.lookup name with
    | none => rfl
    | some y =>
        obtain ⟨before, after, hl, -⟩ := List.lookup_eq_some_iff.1 hlookup
        unfold nameToNum at h
        rw [hlookup] at h
        exact absurd h (hvalid (name, y) (hl ▸ by simp)).1
  unfold nameToNum
  rw [List.lookup_append, hnone]
  simp

theorem VarNumbers.Valid.add {st : VarNumbers} (hvalid : st.Valid) (name : Text) {x n : ℕ}
    (hx : x ≠ 0) (hnVar : st.nVar ≤ n) (hle : x ≤ n) :
    VarNumbers.Valid ⟨n, st.pVList ++ [(name, x)]⟩ := by
  intro e he
  rcases List.mem_append.1 he with he | he
  · exact ⟨(hvalid e he).1, Nat.le_trans (hvalid e he).2 hnVar⟩
  · rw [List.mem_singleton.1 he]
    exact ⟨hx, hle⟩

theorem assigned {limit : ℕ} {st st' : VarNumbers} (hvalid : st.Valid) {name : Text} {x : ℕ}
    (h : exprAssignVarNumber limit st name = some (st', x)) : Assigned st st' name x := by
  unfold exprAssignVarNumber at h
  split at h
  · -- `?`
    split_ifs at h
    obtain ⟨rfl, rfl⟩ := Prod.mk.inj (Option.some.inj h)
    exact ⟨Nat.succ_ne_zero _, (Nat.max_eq_right (Nat.le_succ _)).symm, List.prefix_refl _,
      fun e he => ⟨(hvalid e he).1, Nat.le_succ_of_le (hvalid e he).2⟩, fun _ => rfl,
      fun hne => absurd rfl hne⟩
  · -- `?NNN`
    rename_i digits hbare
    have hne : '?' :: digits ≠ ['?'] := fun heq => hbare (List.cons.inj heq).2
    have hindex : ∀ pVList nextIndex, parameterIndex pVList nextIndex ('?' :: digits) =
        decimal digits := fun _ _ => by rw [parameterIndex]; exact hbare
    dsimp only at h
    split_ifs at h with hbad hnew hthere <;> obtain ⟨rfl, rfl⟩ := Prod.mk.inj (Option.some.inj h)
    · exact ⟨by omega, (Nat.max_eq_right (Nat.le_of_lt hnew)).symm, List.prefix_append _ _,
        hvalid.add _ (by omega) (Nat.le_of_lt hnew) (Nat.le_refl _), fun heq => absurd heq hne,
        fun _ _ _ => hindex _ _⟩
    · exact ⟨by omega, (Nat.max_eq_left (Nat.not_lt.1 hnew)).symm, List.prefix_refl _, hvalid,
        fun heq => absurd heq hne, fun _ _ _ => hindex _ _⟩
    · exact ⟨by omega, (Nat.max_eq_left (Nat.not_lt.1 hnew)).symm, List.prefix_append _ _,
        hvalid.add _ (by omega) (Nat.le_refl _) (Nat.not_lt.1 hnew), fun heq => absurd heq hne,
        fun _ _ _ => hindex _ _⟩
  · -- a name
    rename_i hbare hdigits
    have hne : name ≠ ['?'] := fun heq => hdigits [] heq
    have hindex : ∀ pVList nextIndex, parameterIndex pVList nextIndex name =
        nameToNum pVList name := fun _ _ => by
      rw [parameterIndex]
      · exact hbare
      · exact hdigits
    dsimp only at h
    split_ifs at h with hregister hthere hlimit <;>
      obtain ⟨rfl, rfl⟩ := Prod.mk.inj (Option.some.inj h)
    · have hle := (hvalid _ (nameToNum_mem hthere)).2
      exact ⟨hthere, (Nat.max_eq_left hle).symm, List.prefix_refl _, hvalid,
        fun heq => absurd heq hne,
        fun _ _ _ => (hindex _ _).trans (nameToNum_append hthere)⟩
    · have hadd := nameToNum_add hvalid (not_not.1 hthere) (st.nVar + 1)
      refine ⟨Nat.succ_ne_zero _, (Nat.max_eq_right (Nat.le_succ _)).symm, List.prefix_append _ _,
        hvalid.add _ (Nat.succ_ne_zero _) (Nat.le_succ _) (Nat.le_refl _),
        fun heq => absurd heq hne, fun _ later _ => (hindex _ _).trans ?_⟩
      rw [nameToNum_append (by rw [hadd]; exact Nat.succ_ne_zero _), hadd]

/-- The names keep their numbers. -/
theorem assignVarNumbers_valid {limit : ℕ} {st st' : VarNumbers} (hvalid : st.Valid)
    {names : List Text} {ns : List ℕ} (h : assignVarNumbers limit st names = some (st', ns)) :
    st.pVList <+: st'.pVList ∧ st.nVar ≤ st'.nVar ∧ ∀ n ∈ ns, n ≠ 0 ∧ n ≤ st'.nVar := by
  induction names generalizing st ns with
  | nil =>
      obtain ⟨rfl, rfl⟩ := Prod.mk.inj (Option.some.inj h)
      exact ⟨List.prefix_refl _, Nat.le_refl _, fun n hn => absurd hn List.not_mem_nil⟩
  | cons name names ih =>
      rw [assignVarNumbers, Option.bind_eq_some_iff] at h
      obtain ⟨⟨st₁, x⟩, hassign, h⟩ := h
      obtain ⟨⟨st₂, ns₂⟩, hrest, h⟩ := Option.map_eq_some_iff.1 h
      obtain ⟨rfl, rfl⟩ := Prod.mk.inj h
      have hstep := assigned hvalid hassign
      obtain ⟨hlist, hnVar, hns⟩ := ih hstep.valid hrest
      have hx : x ≤ st₁.nVar := hstep.nVar ▸ Nat.le_max_right _ _
      refine ⟨hstep.pVList.trans hlist,
        Nat.le_trans (hstep.nVar ▸ Nat.le_max_left _ _) hnVar, fun n hn => ?_⟩
      rcases List.mem_cons.1 hn with rfl | hn
      · exact ⟨hstep.positive, Nat.le_trans hx hnVar⟩
      · exact hns n hn

theorem expandNumbers_eq_iff_from {limit : ℕ} {st st' : VarNumbers} (hvalid : st.Valid)
    {names : List Text} {ns : List ℕ} (h : assignVarNumbers limit st names = some (st', ns))
    (last : ℕ) : expandNumbers st'.pVList (last + 1) names = ns ↔
      InOrder last st.nVar (names.zip ns) := by
  induction names generalizing st ns last with
  | nil =>
      obtain ⟨rfl, rfl⟩ := Prod.mk.inj (Option.some.inj h)
      exact iff_of_true rfl trivial
  | cons name names ih =>
      rw [assignVarNumbers, Option.bind_eq_some_iff] at h
      obtain ⟨⟨st₁, x⟩, hassign, h⟩ := h
      obtain ⟨⟨st₂, ns₂⟩, hrest, h⟩ := Option.map_eq_some_iff.1 h
      obtain ⟨rfl, rfl⟩ := Prod.mk.inj h
      have hstep := assigned hvalid hassign
      obtain ⟨later, hlater⟩ := (assignVarNumbers_valid hstep.valid hrest).1
      have hidx : parameterIndex st₂.pVList (last + 1) name = x ↔
          (name = ['?'] → last = st.nVar) := by
        by_cases hname : name = ['?']
        · rw [hstep.next hname, hname, parameterIndex]
          exact ⟨fun heq _ => Nat.succ.inj heq, fun heq => congrArg Nat.succ (heq rfl)⟩
        · rw [← hlater]
          exact iff_of_true (hstep.index hname later _) fun heq => absurd heq hname
      have hmax : max st.nVar x = st₁.nVar := hstep.nVar.symm
      rw [expandNumbers, List.zip_cons_cons, InOrder, hmax]
      dsimp only
      rw [List.cons.injEq, hidx]
      refine and_congr_right fun hin => ?_
      rw [hidx.2 hin]
      exact ih hstep.valid hrest x

/-- **The expansion finds the numbers of the parser** if and only if each `?` comes after the
parameter with the greatest number so far. -/
theorem expandNumbers_eq_iff {limit : ℕ} {st : VarNumbers} {names : List Text} {ns : List ℕ}
    (h : assignVarNumbers limit ⟨0, []⟩ names = some (st, ns)) :
    expandNumbers st.pVList 1 names = ns ↔ InOrder 0 0 (names.zip ns) :=
  expandNumbers_eq_iff_from (fun _ he => absurd he List.not_mem_nil) h 0

/-- A `?` behind a name that is used again. -/
theorem expandNumbers_eq_iff_reusedName :
    expandNumbers [(":a".toList, 1), (":b".toList, 2)] 1
        [":a".toList, ":b".toList, ":a".toList, "?".toList] = [1, 2, 1, 3] ↔
      InOrder 0 0 ([":a".toList, ":b".toList, ":a".toList, "?".toList].zip [1, 2, 1, 3]) := by
  have hassign : assignVarNumbers 9 ⟨0, []⟩
      [":a".toList, ":b".toList, ":a".toList, "?".toList] =
        some (⟨3, [(":a".toList, 1), (":b".toList, 2)]⟩, [1, 2, 1, 3]) := by rfl
  exact expandNumbers_eq_iff hassign

/-- It gets the value of the other name. -/
example : expandNumbers [(":a".toList, 1), (":b".toList, 2)] 1
    [":a".toList, ":b".toList, ":a".toList, "?".toList] = [1, 2, 1, 2] := by decide

/-- **The expansion stays within the values**, whatever numbers it finds. -/
theorem expandNumbers_le {limit : ℕ} {st st' : VarNumbers} (hvalid : st.Valid)
    {names : List Text} {ns : List ℕ} (h : assignVarNumbers limit st names = some (st', ns))
    {last : ℕ} (hlast : last ≤ st.nVar) :
    ∀ n ∈ expandNumbers st'.pVList (last + 1) names, n ≠ 0 ∧ n ≤ st'.nVar := by
  induction names generalizing st ns last with
  | nil => exact fun n hn => absurd hn List.not_mem_nil
  | cons name names ih =>
      rw [assignVarNumbers, Option.bind_eq_some_iff] at h
      obtain ⟨⟨st₁, x⟩, hassign, h⟩ := h
      obtain ⟨⟨st₂, ns₂⟩, hrest, h⟩ := Option.map_eq_some_iff.1 h
      obtain ⟨rfl, rfl⟩ := Prod.mk.inj h
      have hstep := assigned hvalid hassign
      obtain ⟨⟨later, hlater⟩, hnVar, -⟩ := assignVarNumbers_valid hstep.valid hrest
      have hmax := hstep.nVar
      have hidx : parameterIndex st₂.pVList (last + 1) name ≠ 0 ∧
          parameterIndex st₂.pVList (last + 1) name ≤ st₁.nVar := by
        by_cases hname : name = ['?']
        · have hnext := hstep.next hname
          rw [hname, parameterIndex]
          omega
        · rw [← hlater, hstep.index hname later _]
          exact ⟨hstep.positive, hmax ▸ Nat.le_max_right _ _⟩
      intro n hn
      rcases List.mem_cons.1 hn with rfl | hn
      · exact ⟨hidx.1, Nat.le_trans hidx.2 hnVar⟩
      · exact ih hstep.valid hrest hidx.2 n hn

/-! ## The pieces of the text -/

/-- The tokens of SQL texts. -/
abbrev SqlToken := Token Char TokenType

/-- The parameters of a statement, in order. -/
def parameters (ts : List SqlToken) : List Text :=
  (ts.filter fun t => t.type = .variable).map Token.text

/-- What the expansion puts together: tokens of the statement, and values. -/
inductive Piece (ρ : Type)
  | kept (t : SqlToken)
  | value (v : Mem ρ)

def Piece.text {ρ : Type} (formatReal : ρ → Text) : Piece ρ → Text
  | .kept t => t.text
  | .value v => literal formatReal v

/-- The values take the places of the parameters. -/
def pieces {ρ : Type} : List SqlToken → List (Mem ρ) → List (Piece ρ)
  | [], _ => []
  | t :: ts, vs =>
    if t.type = .variable then
      match vs with
      | v :: vs => .value v :: pieces ts vs
      | [] => []
    else .kept t :: pieces ts vs

variable {ρ : Type}

theorem findNextHostParameter_token {c : Char} {z middle : Text} {type : TokenType} {fuel : ℕ}
    (hnext : getToken (c :: z ++ middle) = (type, (c :: z).length)) :
    findNextHostParameter (fuel + 1) (c :: z ++ middle) =
      if type = .variable then (0, (c :: z).length)
      else ((c :: z).length + (findNextHostParameter fuel middle).1,
        (findNextHostParameter fuel middle).2) := by
  rw [List.cons_append] at hnext ⊢
  rw [findNextHostParameter, hnext, ← List.cons_append]
  dsimp only
  rw [List.drop_left]

/-- The next parameter, and what is in front of it. -/
theorem findNextHostParameter_some {z rest : Text} {kept : List SqlToken} {v : SqlToken}
    (h : lexer.Reads z (kept ++ [v]) rest) (hkept : ∀ t ∈ kept, t.type ≠ .variable)
    (hv : v.type = .variable) {fuel : ℕ} (hfuel : z.length ≤ fuel) :
    findNextHostParameter fuel z = ((kept.flatMap Token.text).length, v.text.length) := by
  induction kept generalizing z fuel with
  | nil =>
      cases h with
      | token next reads =>
          cases fuel with
          | zero => exact absurd hfuel (by simp)
          | succ fuel =>
              rw [findNextHostParameter_token next, if_pos hv]
              rfl
  | cons a kept ih =>
      obtain ⟨ha, hrest⟩ := List.forall_mem_cons.1 hkept
      cases h with
      | token next reads =>
          cases fuel with
          | zero => exact absurd hfuel (by simp)
          | succ fuel =>
              rw [findNextHostParameter_token next, if_neg ha,
                ih reads hrest (by
                  simp only [List.length_append, List.length_cons] at hfuel
                  omega),
                List.flatMap_cons, List.length_append]

theorem findNextHostParameter_none {z : Text} {ts : List SqlToken} (h : lexer.Reads z ts [])
    (hts : ∀ t ∈ ts, t.type ≠ .variable) {fuel : ℕ} (hfuel : z.length ≤ fuel) :
    findNextHostParameter fuel z = (z.length, 0) := by
  induction ts generalizing z fuel with
  | nil =>
      cases h with
      | done => cases fuel <;> rfl
  | cons a ts ih =>
      obtain ⟨ha, hrest⟩ := List.forall_mem_cons.1 hts
      cases h with
      | token next reads =>
          cases fuel with
          | zero => exact absurd hfuel (by simp)
          | succ fuel =>
              rw [findNextHostParameter_token next, if_neg ha,
                ih reads hrest (by
                  simp only [List.length_append, List.length_cons] at hfuel
                  omega),
                List.length_append]

/-- There is no parameter, or a first one. -/
theorem exists_parameter (ts : List SqlToken) : (∀ t ∈ ts, t.type ≠ .variable) ∨
    ∃ kept v rest, ts = kept ++ v :: rest ∧ (∀ t ∈ kept, t.type ≠ .variable) ∧
      v.type = .variable := by
  induction ts with
  | nil => exact .inl fun t ht => absurd ht List.not_mem_nil
  | cons a ts ih =>
      by_cases ha : a.type = .variable
      · exact .inr ⟨[], a, ts, rfl, fun t ht => absurd ht List.not_mem_nil, ha⟩
      · rcases ih with hts | ⟨kept, v, rest, rfl, hkept, hv⟩
        · exact .inl (List.forall_mem_cons.2 ⟨ha, hts⟩)
        · exact .inr ⟨a :: kept, v, rest, rfl, List.forall_mem_cons.2 ⟨ha, hkept⟩, hv⟩

theorem parameters_kept {kept : List SqlToken} (h : ∀ t ∈ kept, t.type ≠ .variable)
    (ts : List SqlToken) : parameters (kept ++ ts) = parameters ts := by
  rw [parameters, List.filter_append, List.filter_eq_nil_iff.2 fun t ht => by simp [h t ht]]
  rfl

theorem parameters_cons {v : SqlToken} (h : v.type = .variable) (ts : List SqlToken) :
    parameters (v :: ts) = v.text :: parameters ts := by
  rw [parameters, List.filter_cons_of_pos (by simp [h])]
  rfl

theorem pieces_keep {t : SqlToken} (h : t.type ≠ .variable) (ts : List SqlToken)
    (vs : List (Mem ρ)) : pieces (t :: ts) vs = .kept t :: pieces ts vs := by
  rw [pieces.eq_def]
  exact if_neg h

theorem pieces_value {t : SqlToken} (h : t.type = .variable) (ts : List SqlToken) (v : Mem ρ)
    (vs : List (Mem ρ)) : pieces (t :: ts) (v :: vs) = .value v :: pieces ts vs := by
  rw [pieces.eq_def]
  exact if_pos h

theorem pieces_kept {kept : List SqlToken} (h : ∀ t ∈ kept, t.type ≠ .variable)
    (ts : List SqlToken) (vs : List (Mem ρ)) :
    pieces (kept ++ ts) vs = kept.map .kept ++ pieces ts vs := by
  induction kept with
  | nil => rfl
  | cons a kept ih =>
      obtain ⟨ha, hrest⟩ := List.forall_mem_cons.1 h
      rw [List.cons_append, pieces_keep ha, ih hrest]
      rfl

theorem flatMap_kept (formatReal : ρ → Text) (ts : List SqlToken) :
    (ts.map .kept).flatMap (Piece.text formatReal) = ts.flatMap Token.text := by
  rw [List.flatMap_map]
  rfl

/-- **The expansion**: the values with the numbers that it finds take the places of the
parameters. -/
theorem expandLoop_eq {formatReal : ρ → Text} {p : Vdbe ρ} {z : Text} {ts : List SqlToken}
    (h : lexer.Reads z ts []) {fuel nextIndex : ℕ} (hfuel : z.length ≤ fuel) :
    expandLoop formatReal p fuel nextIndex z =
      ((expandNumbers p.numbers.pVList nextIndex (parameters ts)).mapM p.var).map fun vs =>
        (pieces ts vs).flatMap (Piece.text formatReal) := by
  induction fuel generalizing z ts nextIndex with
  | zero =>
      obtain rfl := List.length_eq_zero_iff.1 (Nat.le_zero.1 hfuel)
      cases h with
      | done => rfl
  | succ fuel ih =>
      cases z with
      | nil => cases h with | done => rfl
      | cons c z =>
          rcases exists_parameter ts with hts | ⟨kept, v, rest, rfl, hkept, hv⟩
          · have hparameters := parameters_kept hts []
            have hpieces := pieces_kept hts [] ([] : List (Mem ρ))
            rw [List.append_nil] at hparameters hpieces
            have htext := h.text_eq
            rw [List.append_nil] at htext
            rw [expandLoop, findNextHostParameter_none h hts (Nat.le_refl _), hparameters]
            dsimp only
            rw [if_pos rfl, List.take_length]
            change some (c :: z) = some ((pieces ts []).flatMap (Piece.text formatReal))
            rw [hpieces, pieces, List.append_nil, flatMap_kept, ← htext]
          · obtain ⟨middle, hfirst, hrest⟩ : ∃ middle, lexer.Reads (c :: z) (kept ++ [v]) middle ∧
                lexer.Reads middle rest [] :=
              Lexer.Reads.split (by rwa [List.append_assoc])
            have htext := hfirst.text_eq
            rw [List.flatMap_append, List.append_assoc, List.flatMap_singleton] at htext
            have hv0 : 0 < v.text.length := List.length_pos_iff.2 (hfirst.text_ne_nil (by simp))
            rw [expandLoop, findNextHostParameter_some hfirst hkept hv (Nat.le_refl _),
              parameters_kept hkept, parameters_cons hv, expandNumbers]
            dsimp only
            rw [if_neg (Nat.ne_of_gt hv0), htext, List.take_left, List.drop_left, List.take_left,
              List.drop_left, List.mapM_cons]
            have hlength : middle.length ≤ fuel := by
              rw [htext] at hfuel
              simp only [List.length_append] at hfuel
              omega
            rw [ih hrest hlength]
            generalize (expandNumbers p.numbers.pVList _ (parameters rest)).mapM p.var = later
            cases p.var (parameterIndex p.numbers.pVList nextIndex v.text) with
            | none => rfl
            | some var =>
                cases later with
                | none => rfl
                | some vs =>
                    change some _ = some ((pieces (kept ++ v :: rest) (var :: vs)).flatMap _)
                    rw [pieces_kept hkept, pieces_value hv, List.flatMap_append, flatMap_kept]
                    rfl

end Sql
end Core
end AergoLite
