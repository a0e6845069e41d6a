/-
# Stored procedures

A stored procedure (`core/stored_proc.c`) is parsed into a flat list of commands.  IF, ELSEIF
and ELSE have the position of the next one of their block, loops and their ends that of each
other, and BREAK and CONTINUE that of the first command of their loop.  The parser finds the
positions with a stack of the open IF blocks and one of the open loops.

The interpreter goes from command to command.  Whether a branch of a block was executed is a
flag of its IF command, and how far a FOREACH has come is its `current_item`.  Both are part of
the parsed procedure, which stays in memory from one call to the next.

What the commands do is the business of the SQL engine.
-/

import AergoLite.Core.Basic
import Mathlib.Logic.Function.Basic

namespace AergoLite
namespace StoredProc

/-- `CMD_TYPE_*`. -/
inductive CommandType
  | declare | set | statement | ret | raise | assert
  | cond | elseif | els | endif
  | loop | endloop | brk | cont | foreach
  deriving DecidableEq, Repr

/-- A command, with its links. -/
structure Command where
  type : CommandType
  nextIfCmd : ℕ
  relatedCmd : ℕ
  deriving DecidableEq, Repr

/-! ## The parser -/

/-- A statement of the body: its kind, and the level of BREAK and CONTINUE, 1 by default. -/
structure Statement where
  type : CommandType
  level : ℕ
  deriving DecidableEq, Repr

/-- `if_block`. -/
structure IfBlock where
  firstCmd : ℕ
  lastCmd : ℕ
  deriving DecidableEq, Repr

/-- The commands, and the stacks of open blocks; of a loop, its first command. -/
structure Parser where
  cmds : List Command
  ifStack : List IfBlock
  loopStack : List ℕ
  deriving DecidableEq, Repr

/-- `new_command`. -/
def Parser.newCommand (p : Parser) (type : CommandType) (relatedCmd : ℕ) : Parser :=
  { p with cmds := p.cmds ++ [⟨type, 0, relatedCmd⟩] }

/-- The next command of an IF block. -/
def setNextIf (cmd next : ℕ) (cmds : List Command) : List Command :=
  cmds.modify cmd fun c => { c with nextIfCmd := next }

/-- The last command of a loop. -/
def setRelated (cmd related : ℕ) (cmds : List Command) : List Command :=
  cmds.modify cmd fun c => { c with relatedCmd := related }

/-- `parseIfStatement`. -/
def parseIfStatement (p : Parser) : Except Rc Parser :=
  let pos := p.cmds.length
  .ok { p.newCommand .cond 0 with ifStack := ⟨pos, pos⟩ :: p.ifStack }

/-- `parseElseIfStatement` and `parseElseStatement`. -/
def parseElseStatement (type : CommandType) (p : Parser) : Except Rc Parser :=
  let pos := p.cmds.length
  match p.ifStack with
  | [] => .error .error
  | ifb :: ifs =>
    let p := p.newCommand type ifb.firstCmd
    .ok { p with
      cmds := setNextIf ifb.lastCmd pos p.cmds
      ifStack := ⟨ifb.firstCmd, pos⟩ :: ifs }

/-- `parseEndIfStatement`. -/
def parseEndIfStatement (p : Parser) : Except Rc Parser :=
  let pos := p.cmds.length
  match p.ifStack with
  | [] => .error .error
  | ifb :: ifs =>
    let p := p.newCommand .endif 0
    .ok { p with cmds := setNextIf ifb.lastCmd pos p.cmds, ifStack := ifs }

/-- `parseLoopStatement` and `parseForEachStatement`. -/
def parseLoopStatement (type : CommandType) (p : Parser) : Except Rc Parser :=
  .ok { p.newCommand type 0 with loopStack := p.cmds.length :: p.loopStack }

/-- `parseEndLoopStatement`. -/
def parseEndLoopStatement (p : Parser) : Except Rc Parser :=
  let pos := p.cmds.length
  match p.loopStack with
  | [] => .error .error
  | start :: loops =>
    let p := p.newCommand .endloop start
    .ok { p with cmds := setRelated start pos p.cmds, loopStack := loops }

/-- The loop of a level: 1, or less, is the innermost one. -/
def loopOfLevel : List ℕ → ℕ → Option ℕ
  | [], _ => none
  | start :: loops, level => if 1 < level then loopOfLevel loops (level - 1) else some start

/-- `parseBreakStatement` and `parseContinueStatement`. -/
def parseExitStatement (type : CommandType) (level : ℕ) (p : Parser) : Except Rc Parser :=
  match loopOfLevel p.loopStack level with
  | none => .error .error
  | some start => .ok (p.newCommand type start)

/-- One round of the loop of `parse_procedure_body`. -/
def parseStatement (p : Parser) (s : Statement) : Except Rc Parser :=
  match s.type with
  | .cond => parseIfStatement p
  | .elseif => parseElseStatement .elseif p
  | .els => parseElseStatement .els p
  | .endif => parseEndIfStatement p
  | .loop => parseLoopStatement .loop p
  | .foreach => parseLoopStatement .foreach p
  | .endloop => parseEndLoopStatement p
  | .brk => parseExitStatement .brk s.level p
  | .cont => parseExitStatement .cont s.level p
  | type => .ok (p.newCommand type 0)

/-- The loop of `parse_procedure_body`. -/
def parseStatements : Parser → List Statement → Except Rc Parser
  | p, [] => .ok p
  | p, s :: stmts =>
    match parseStatement p s with
    | .ok p => parseStatements p stmts
    | .error rc => .error rc

/-- `parse_procedure_body`.  The stacks are global variables, and have what a parse that failed
left there. -/
def parseProcedureBody (ifStack : List IfBlock) (loopStack : List ℕ) (stmts : List Statement) :
    Except Rc (List Command) :=
  (parseStatements ⟨[], ifStack, loopStack⟩ stmts).map Parser.cmds

/-! ## The SQL engine -/

/-- What a FOREACH goes through. -/
inductive ForeachInput
  /-- The variable has no list. -/
  | invalid
  | list (numItems : ℕ)
  | sql

/-- `sqlite3_step`. -/
inductive StepResult
  | row
  | done
  | error (rc : Rc)

/-- What the commands do; a command is given by its position.  The state is that of the
database, the variables and the prepared statements. -/
structure Engine (σ : Type) where
  /-- `executeSetCommand`, `executeStatementCommand`, `executeAssertCommand`,
  `executeReturnCommand` and `executeRaiseCommand`. -/
  execute : ℕ → σ → Rc × σ
  /-- `execute_expression`. -/
  expression : ℕ → σ → Except Rc Bool × σ
  input : ℕ → σ → ForeachInput
  /-- The statement of a FOREACH is prepared, or reset, and gets its variables. -/
  prepare : ℕ → σ → Rc × σ
  step : ℕ → σ → StepResult × σ
  /-- The columns are counted and stored in the variables; of a list, those of an item. -/
  store : ℕ → ℕ → σ → Rc × σ
  savepoint : σ → Rc × σ
  copyProcedureParameters : σ → σ
  /-- The savepoint is released, after a rollback where the execution failed. -/
  release : Bool → Rc → σ → Rc × σ

variable {σ : Type}

/-- What a FOREACH returns. -/
inductive Fetch
  | row
  | done
  | failed (rc : Rc)

/-- The row is stored in the variables. -/
def storeRow (e : Engine σ) (pos item next : ℕ) (state : σ) : Fetch × ℕ × σ :=
  match e.store pos item state with
  | (.ok, state) => (.row, next, state)
  | (rc, state) => (.failed rc, next, state)

/-- `executeForeachCommand`: what it returns, and the new `current_item`. -/
def executeForeachCommand (e : Engine σ) (pos item : ℕ) (state : σ) : Fetch × ℕ × σ :=
  match e.input pos state with
  -- the error message is set, but the result code is `SQLITE_OK`, with which the body is executed
  | .invalid => (.row, item, state)
  | .list numItems =>
    if numItems ≤ item then (.done, 0, state) else storeRow e pos item (item + 1) state
  | .sql =>
    match if item = 0 then e.prepare pos state else (.ok, state) with
    | (.ok, state) =>
      match e.step pos state with
      | (.row, state) => storeRow e pos item (item + 1) state
      | (.done, state) => (.done, 0, state)
      | (.error rc, state) => (.failed rc, item, state)
    | (rc, state) => (.failed rc, item, state)

/-! ## What has run -/

/-- A command was executed, the condition of an IF or ELSEIF was evaluated, a FOREACH has
retrieved an item and has a new `current_item`, or it was rejected, since its variable has no
list. -/
inductive Event
  | executed (pos : ℕ)
  | tested (pos : ℕ)
  | fetched (pos item next : ℕ)
  | rejected (pos : ℕ)
  deriving DecidableEq, Repr

/-- The state, and what has run. -/
@[ext] structure World (σ : Type) where
  state : σ
  ran : List Event

/-- A command is executed. -/
def World.execute (e : Engine σ) (pos : ℕ) (w : World σ) : Rc × World σ :=
  let (rc, state) := e.execute pos w.state
  (rc, ⟨state, w.ran ++ [.executed pos]⟩)

/-- A condition is evaluated. -/
def World.test (e : Engine σ) (pos : ℕ) (w : World σ) : Except Rc Bool × World σ :=
  let (result, state) := e.expression pos w.state
  (result, ⟨state, w.ran ++ [.tested pos]⟩)

/-- An item is retrieved. -/
def World.fetch (e : Engine σ) (pos item : ℕ) (w : World σ) : Fetch × ℕ × World σ :=
  let (fetch, next, state) := executeForeachCommand e pos item w.state
  (fetch, next, ⟨state, w.ran ++ [.fetched pos item next]⟩)

/-! ## The interpreter -/

/-- What changes while a procedure is executed: `CMD_FLAG_EXECUTED` of the IF commands and
`current_item` of the FOREACH commands as well. -/
structure Execution (σ : Type) where
  world : World σ
  executed : ℕ → Bool
  currentItem : ℕ → ℕ

/-- How an execution ends: at `loc_exit` or at `loc_error`, or not within the steps it is given. -/
inductive Ended
  | exit (rc : Rc)
  | error (rc : Rc)
  | running
  deriving DecidableEq, Repr

/-- Where the interpreter goes on. -/
inductive Next
  | goto (pos : ℕ)
  | ended (x : Ended)

/-- A branch of the block is executed, or not. -/
def Execution.setExecuted (s : Execution σ) (pos : ℕ) (flag : Bool) : Execution σ :=
  { s with executed := Function.update s.executed pos flag }

/-- The last command of the loop. -/
def endOf (cmds : List Command) (start : ℕ) : ℕ := (cmds[start]?.map Command.relatedCmd).getD 0

/-- One round of the loop of `executeStoredProcedure`. -/
def executeCommand (e : Engine σ) (cmds : List Command) (pos : ℕ) (cmd : Command)
    (s : Execution σ) : Next × Execution σ :=
  match cmd.type with
  | .declare | .endif | .loop => (.goto (pos + 1), s)
  | .set | .statement | .assert =>
    match s.world.execute e pos with
    | (.ok, world) => (.goto (pos + 1), { s with world })
    | (rc, world) => (.ended (.error rc), { s with world })
  | .ret =>
    match s.world.execute e pos with
    | (.ok, world) => (.ended (.exit .ok), { s with world })
    | (rc, world) => (.ended (.error rc), { s with world })
  | .raise =>
    match s.world.execute e pos with
    | (.ok, world) => (.ended (.exit .error), { s with world })
    | (rc, world) => (.ended (.error rc), { s with world })
  | .cond =>
    match s.world.test e pos with
    | (.error rc, world) => (.ended (.error rc), { s with world })
    | (.ok true, world) => (.goto (pos + 1), { s with world }.setExecuted pos true)
    | (.ok false, world) => (.goto cmd.nextIfCmd, { s with world }.setExecuted pos false)
  | .elseif =>
    if s.executed cmd.relatedCmd then (.goto cmd.nextIfCmd, s)
    else
      match s.world.test e pos with
      | (.error rc, world) => (.ended (.error rc), { s with world })
      | (.ok true, world) => (.goto (pos + 1), { s with world }.setExecuted cmd.relatedCmd true)
      | (.ok false, world) => (.goto cmd.nextIfCmd, { s with world })
  | .els =>
    if s.executed cmd.relatedCmd then (.goto cmd.nextIfCmd, s)
    else (.goto (pos + 1), s.setExecuted cmd.relatedCmd true)
  | .endloop | .cont => (.goto cmd.relatedCmd, s)
  | .brk => (.goto (endOf cmds cmd.relatedCmd + 1), s)
  | .foreach =>
    match s.world.fetch e pos (s.currentItem pos) with
    | (fetch, next, world) =>
      let s := { s with world, currentItem := Function.update s.currentItem pos next }
      match fetch with
      | .row => (.goto (pos + 1), s)
      | .done => (.goto (cmd.relatedCmd + 1), s)
      | .failed rc => (.ended (.error rc), s)

/-- The loop of `executeStoredProcedure`, from a position on. -/
def commandLoop (e : Engine σ) (cmds : List Command) :
    ℕ → ℕ → Execution σ → Ended × Execution σ
  | 0, _, s => (.running, s)
  | fuel + 1, pos, s =>
    match cmds[pos]? with
    | none => (.exit .ok, s)
    | some cmd =>
      match executeCommand e cmds pos cmd s with
      | (.goto pos, s) => commandLoop e cmds fuel pos s
      | (.ended x, s) => (x, s)

/-- `loc_exit` and `loc_error` of `executeStoredProcedure`: `none` where it is still running. -/
def finishCall {S : Type} (e : Engine σ) (get : S → σ) (put : σ → S → S) :
    Ended × S → Option Rc × S
  | (.running, s) => (none, s)
  | (.exit rc, s) => (some (e.release false rc (get s)).1, put (e.release false rc (get s)).2 s)
  | (.error rc, s) => (some (e.release true rc (get s)).1, put (e.release true rc (get s)).2 s)

/-- What `executeStoredProcedure` does around its loop. -/
def withSavepoint {S : Type} (e : Engine σ) (get : S → σ) (put : σ → S → S)
    (body : S → Ended × S) (s : S) : Option Rc × S :=
  match e.savepoint (get s) with
  | (.ok, state) => finishCall e get put (body (put (e.copyProcedureParameters state) s))
  | (rc, state) => (some rc, put state s)

/-- The state of the engine is another one. -/
def World.put (state : σ) (w : World σ) : World σ := { w with state }

/-- The state of the engine is another one. -/
def Execution.put (state : σ) (s : Execution σ) : Execution σ :=
  { s with world := s.world.put state }

/-- `executeStoredProcedure`, with as many commands as `fuel`. -/
def executeStoredProcedure (e : Engine σ) (cmds : List Command) (fuel : ℕ) (s : Execution σ) :
    Option Rc × Execution σ :=
  withSavepoint e (fun s => s.world.state) Execution.put (commandLoop e cmds fuel 0) s

/-- The state of the engine changes. -/
def World.change (f : σ → σ) (w : World σ) : World σ := w.put (f w.state)

/-- The state of the engine changes. -/
def Execution.change (f : σ → σ) (s : Execution σ) : Execution σ := s.put (f s.world.state)

/-- One call after the other.  Before each, the state of the engine changes: the variables are
reset (`resetStoredProcedure`, `resetProcedureCall`), the arguments are others, and so may be the
database. -/
def runCalls {S : Type} (change : (σ → σ) → S → S) (call : ℕ → S → Option Rc × S) :
    ℕ → List (σ → σ) → S → List (Option Rc) × S
  | _, [], s => ([], s)
  | i, f :: fs, s =>
    match call i (change f s) with
    | (none, s) => ([none], s)
    | (some rc, s) =>
      let (rcs, s) := runCalls change call (i + 1) fs s
      (some rc :: rcs, s)

/-- Calls of a procedure; `fuel` is for each of them. -/
def Execution.calls (e : Engine σ) (cmds : List Command) (fuel : ℕ → ℕ) (fs : List (σ → σ))
    (s : Execution σ) : List (Option Rc) × Execution σ :=
  runCalls Execution.change (fun i => executeStoredProcedure e cmds (fuel i)) 0 fs s

/-- A procedure that has been parsed. -/
def Execution.parsed (state : σ) : Execution σ := ⟨⟨state, []⟩, fun _ => false, fun _ => 0⟩

end StoredProc
end AergoLite
