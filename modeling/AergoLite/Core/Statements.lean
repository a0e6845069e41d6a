/-
# From a command to its statements

`aergolite_exec` of `core/sqlite3.c` executes a text: it prepares the first
statement, runs it, and goes on with what the preparation left over, until the
text is empty or an error occurs.  What a statement is, `checkSpecialCommand` of
`core/stored_proc.c` decides first: a procedure declaration, a `CALL`, and
everything else for the SQL parser.  A `CALL` ends at the parenthesis that
closes its parameters; no semicolon is needed before the next statement.

The SQL grammar is the parameter `Syntax`, what a statement does to a database
the parameter `Engine`.  `spell` lists the statements that a text spells out, as
far as the grammar accepts it, and `aergoliteExec_ran_prefix` says that those
that are run are the first ones of these, whatever the engine does.
-/

import AergoLite.Core.Databases

namespace AergoLite

/-- The parsers of the engine.  Each returns the text it leaves over, or `none`
for an error; a parser that succeeds consumes something. -/
structure Syntax where
  /-- `parseProcedureCall`, on the text after `CALL `. -/
  parseProcedureCall : Text → Option Text
  /-- `prepareNewStoredProcedure`, on the text after `CREATE PROCEDURE `. -/
  parseStoredProcedure : Text → Option Text
  /-- The SQL parser; the flag is `false` for a comment or white space. -/
  parse : Text → Option (Bool × Text)
  call_le : ∀ {s rest}, parseProcedureCall s = some rest → rest.length ≤ s.length
  procedure_lt : ∀ {s rest}, parseStoredProcedure s = some rest → rest.length < s.length
  parse_lt : ∀ {s r}, s ≠ [] → parse s = some r → r.2.length < s.length
  /-- `CALL` is no keyword of SQL, and no statement begins with an identifier. -/
  parse_call : ∀ {s}, Core.startsWithNoCase s "CALL".toList = true → parse s = none

/-- A prepared statement, with the text from which it was prepared. -/
inductive Statement
  | call (sql : Text)
  | storedProcedure (sql : Text)
  | sql (sql : Text)
  deriving DecidableEq, Repr

/-- The statement calls a stored procedure. -/
def Statement.isCall : Statement → Bool
  | call _ => true
  | _ => false

/-- What a statement does to the worker database: the semantic part of its
preparation (`sqlite3_prepare_v2` after parsing), and its run to completion in
the name of a node (`sqlite3_step`, `sqlite3_finalize`). -/
structure Engine (D : Type) extends Syntax where
  compile : Core.Worker D → Statement → Rc
  step : Core.Worker D → ℤ → Statement → Rc × D

namespace Core

/-- The text after `CREATE [OR REPLACE] PROCEDURE ` or `… FUNCTION `, if the text
starts so. -/
def afterCreateProcedure (s : Text) : Option Text :=
  if startsWithNoCase s "CREATE ".toList then
    let t := s.drop 7
    let t := if startsWithNoCase t "OR REPLACE ".toList then t.drop 11 else t
    if startsWithNoCase t "PROCEDURE ".toList || startsWithNoCase t "FUNCTION ".toList then some t
    else none
  else none

/-- `checkSpecialCommand` and, if it finds nothing, the SQL parser: the statement
at the beginning of a text, if there is one, and what is left. -/
def prepare (syn : Syntax) (s : Text) : Option (Option Statement × Text) :=
  match afterCreateProcedure s with
  | some t => (syn.parseStoredProcedure t).map fun rest => (some (.storedProcedure s), rest)
  | none =>
    if startsWithNoCase s "CALL ".toList then
      (syn.parseProcedureCall (s.drop 5)).map fun rest => (some (.call s), rest)
    else (syn.parse s).map fun r => (if r.1 then some (.sql s) else none, r.2)

/-- What the execution of a text returns: the statements that were run, in
order, the result code and the database. -/
structure Executed (D : Type) where
  ran : List Statement
  rc : Rc
  worker : Worker D

variable {D : Type}

/-- The loop of `aergolite_exec`; `fuel` bounds the length of the text. -/
def aergoliteExecLoop (eng : Engine D) (nodeId : ℤ) : ℕ → Worker D → Text → Executed D
  | 0, worker, _ => ⟨[], .ok, worker⟩
  | fuel + 1, worker, s =>
    if s = [] then ⟨[], .ok, worker⟩
    else match prepare eng.toSyntax s with
      | none => ⟨[], .error, worker⟩
      | some (none, rest) => aergoliteExecLoop eng nodeId fuel worker rest
      | some (some st, rest) =>
        if eng.compile worker st ≠ .ok then ⟨[], eng.compile worker st, worker⟩
        else
          let r := eng.step worker nodeId st
          let worker := { worker with data := r.2 }
          if r.1 ≠ .ok then ⟨[st], r.1, worker⟩
          else
            let next := aergoliteExecLoop eng nodeId fuel worker (rest.dropWhile isSpace)
            { next with ran := st :: next.ran }

/-- `aergolite_exec`. -/
def aergoliteExec (eng : Engine D) (worker : Worker D) (sql : Text) (nodeId : ℤ) : Executed D :=
  aergoliteExecLoop eng nodeId sql.length worker sql

/-- The statements a text spells out, and whether the grammar accepts all of it. -/
def spellLoop (syn : Syntax) : ℕ → Text → List Statement × Bool
  | 0, _ => ([], true)
  | fuel + 1, s =>
    if s = [] then ([], true)
    else match prepare syn s with
      | none => ([], false)
      | some (none, rest) => spellLoop syn fuel rest
      | some (some st, rest) =>
        let next := spellLoop syn fuel (rest.dropWhile isSpace)
        (st :: next.1, next.2)

/-- The statements a command spells out, and whether the grammar accepts it. -/
def spell (syn : Syntax) (sql : Text) : List Statement × Bool := spellLoop syn sql.length sql

/-- A text that declares a procedure is longer than what follows `CREATE`. -/
theorem length_afterCreateProcedure {s t : Text} (h : afterCreateProcedure s = some t) :
    t.length ≤ s.length := by
  unfold afterCreateProcedure at h
  split_ifs at h with hcreate
  simp only [Option.ite_none_right_eq_some, Option.some.injEq] at h
  obtain ⟨-, rfl⟩ := h
  split_ifs <;> simp only [List.length_drop] <;> omega

/-- The preparation of a statement consumes something. -/
theorem prepare_lt {syn : Syntax} {s rest : Text} {st : Option Statement} (hs : s ≠ [])
    (h : prepare syn s = some (st, rest)) : rest.length < s.length := by
  have hpos := List.length_pos_iff.2 hs
  unfold prepare at h
  split at h
  · rename_i t ht
    obtain ⟨u, hu, heq⟩ := Option.map_eq_some_iff.1 h
    obtain ⟨-, rfl⟩ := Prod.mk.inj heq
    have := length_afterCreateProcedure ht
    have := syn.procedure_lt hu
    omega
  · split_ifs at h
    · obtain ⟨u, hu, heq⟩ := Option.map_eq_some_iff.1 h
      obtain ⟨-, rfl⟩ := Prod.mk.inj heq
      have := syn.call_le hu
      simp only [List.length_drop] at this
      omega
    · obtain ⟨r, hr, heq⟩ := Option.map_eq_some_iff.1 h
      obtain ⟨-, rfl⟩ := Prod.mk.inj heq
      exact syn.parse_lt hs hr

theorem length_dropWhile_isSpace (s : Text) : (s.dropWhile isSpace).length ≤ s.length :=
  (List.dropWhile_sublist _).length_le

/-- The fuel of `aergoliteExecLoop` bounds the length of the text: more of it
changes nothing. -/
theorem aergoliteExecLoop_fuel (eng : Engine D) (nodeId : ℤ) {fuel fuel' : ℕ} {s : Text}
    (worker : Worker D) (h : s.length ≤ fuel) (h' : s.length ≤ fuel') :
    aergoliteExecLoop eng nodeId fuel worker s = aergoliteExecLoop eng nodeId fuel' worker s := by
  induction fuel generalizing fuel' worker s with
  | zero =>
      obtain rfl := List.length_eq_zero_iff.1 (Nat.le_zero.1 h)
      cases fuel' <;> simp [aergoliteExecLoop]
  | succ fuel ih =>
      by_cases hs : s = []
      · subst hs
        cases fuel' <;> simp [aergoliteExecLoop]
      obtain ⟨fuel', rfl⟩ : ∃ n, fuel' = n + 1 :=
        ⟨fuel' - 1, by have := List.length_pos_iff.2 hs; omega⟩
      simp only [aergoliteExecLoop, hs, ite_false]
      split
      · rfl
      · rename_i rest hp
        have := prepare_lt hs hp
        exact ih _ (by omega) (by omega)
      · rename_i st rest hp
        have := prepare_lt hs hp
        have := length_dropWhile_isSpace rest
        have hnext : aergoliteExecLoop eng nodeId fuel
            { worker with data := (eng.step worker nodeId st).2 } (rest.dropWhile isSpace) =
            aergoliteExecLoop eng nodeId fuel' _ _ := ih _ (by omega) (by omega)
        rw [hnext]

/-- What each statement keeps, a text keeps. -/
theorem aergoliteExecLoop_keeps (P : Worker D → Prop) {eng : Engine D} {nodeId : ℤ}
    (hstep : ∀ worker st, P worker → P { worker with data := (eng.step worker nodeId st).2 })
    {fuel : ℕ} {worker : Worker D} {s : Text} (h : P worker) :
    P (aergoliteExecLoop eng nodeId fuel worker s).worker := by
  induction fuel generalizing worker s with
  | zero => exact h
  | succ fuel ih =>
      unfold aergoliteExecLoop
      by_cases hs : s = []
      · rw [if_pos hs]
        exact h
      rw [if_neg hs]
      cases prepare eng.toSyntax s with
      | none => exact h
      | some r =>
          obtain ⟨st, rest⟩ := r
          cases st with
          | none => exact ih h
          | some st =>
              dsimp only
              split_ifs
              · exact h
              · exact hstep worker st h
              · exact ih (hstep worker st h)

/-- The statements that are run are the first ones of those the text spells out,
and all of them if the execution succeeds. -/
theorem aergoliteExecLoop_ran (eng : Engine D) (nodeId : ℤ) (fuel : ℕ) (worker : Worker D)
    (s : Text) :
    let r := aergoliteExecLoop eng nodeId fuel worker s
    r.ran <+: (spellLoop eng.toSyntax fuel s).1 ∧
      (r.rc = .ok → spellLoop eng.toSyntax fuel s = (r.ran, true)) := by
  induction fuel generalizing worker s with
  | zero => simp [aergoliteExecLoop, spellLoop]
  | succ fuel ih =>
      simp only [aergoliteExecLoop, spellLoop]
      split_ifs with hs
      · simp
      split
      · simp
      · exact ih _ _
      · rename_i st rest hp
        split_ifs with hcompile hstep
        · simp [hcompile]
        · simp [hstep]
        · obtain ⟨hpre, hok⟩ := ih { worker with data := (eng.step worker nodeId st).2 }
            (rest.dropWhile isSpace)
          exact ⟨List.prefix_cons_inj _ |>.2 hpre, fun h => by rw [hok h]⟩

/-- **What is run of a command** are the first ones of the statements it spells
out, whatever the engine makes of them. -/
theorem aergoliteExec_ran (eng : Engine D) (worker : Worker D) (sql : Text) (nodeId : ℤ) :
    (aergoliteExec eng worker sql nodeId).ran <+: (spell eng.toSyntax sql).1 ∧
      ((aergoliteExec eng worker sql nodeId).rc = .ok →
        spell eng.toSyntax sql = ((aergoliteExec eng worker sql nodeId).ran, true)) :=
  aergoliteExecLoop_ran eng nodeId sql.length worker sql

/-- A small grammar: the parameters of a call end at the first `)`, another
statement at the first `;`, and procedures are not declared. -/
def plainSyntax : Syntax where
  parseProcedureCall s :=
    if ')' ∈ s then some (((s.dropWhile (· != ')')).drop 1).dropWhile isSpace) else none
  parseStoredProcedure _ := none
  parse s :=
    if startsWithNoCase s "CALL".toList then none
    else some (true, (s.dropWhile (· != ';')).drop 1)
  call_le := by
    intro s rest h
    split_ifs at h
    obtain rfl := Option.some.inj h
    have h1 := length_dropWhile_isSpace ((s.dropWhile (· != ')')).drop 1)
    have h2 := (List.dropWhile_sublist (l := s) (· != ')')).length_le
    simp only [List.length_drop] at h1
    omega
  procedure_lt := by simp
  parse_lt := by
    intro s r hs h
    split_ifs at h
    obtain rfl := Option.some.inj h
    have h1 := (List.dropWhile_sublist (l := s) (· != ';')).length_le
    have h2 := List.length_pos_iff.2 hs
    simp only [List.length_drop]
    omega
  parse_call := by
    intro s h
    rw [if_pos h]

/-- An engine that compiles and runs every statement. -/
def obligingEngine (syn : Syntax) : Engine Unit where
  toSyntax := syn
  compile _ _ := .ok
  step _ _ _ := (.ok, ())

/-- On it everything that a command spells out is run. -/
theorem aergoliteExec_oblige (syn : Syntax) (worker : Worker Unit) (sql : Text) (nodeId : ℤ) :
    aergoliteExec (obligingEngine syn) worker sql nodeId =
      ⟨(spell syn sql).1, if (spell syn sql).2 then .ok else .error, worker⟩ := by
  suffices h : ∀ (fuel : ℕ) (s : Text),
      aergoliteExecLoop (obligingEngine syn) nodeId fuel worker s =
        ⟨(spellLoop syn fuel s).1, if (spellLoop syn fuel s).2 then .ok else .error, worker⟩ from
    h _ _
  have hsyn : (obligingEngine syn).toSyntax = syn := rfl
  have hcompile : ∀ w st, (obligingEngine syn).compile w st = .ok := fun _ _ => rfl
  have hstep : ∀ w n st, (obligingEngine syn).step w n st = (.ok, ()) := fun _ _ _ => rfl
  have hworker : ({ worker with data := () } : Worker Unit) = worker := rfl
  intro fuel
  induction fuel with
  | zero => intro s; rfl
  | succ fuel ih =>
      intro s
      by_cases hs : s = []
      · simp [aergoliteExecLoop, spellLoop, hs]
      simp only [aergoliteExecLoop, spellLoop, hs, ite_false, hsyn]
      cases hp : prepare syn s with
      | none => simp
      | some r =>
          obtain ⟨st, rest⟩ := r
          cases st with
          | none => simpa using ih rest
          | some st => simp [hcompile, hstep, hworker, ih]

end Core
end AergoLite
