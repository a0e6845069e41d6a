/-
# The blocks of a stored procedure

The body of a procedure whose blocks are well nested, as a tree, and the commands that it is
parsed into (`parseProcedureBody_blocks`): each block has its links, whatever was on the stacks
of the parser before.
-/

import AergoLite.StoredProc.Commands
import Mathlib.Algebra.Order.Group.Nat
import Mathlib.Data.List.GetD

namespace AergoLite
namespace StoredProc

/-- A command that is no part of a block. -/
inductive Action
  | declare | set | statement | ret | raise | assert
  deriving DecidableEq, Repr

/-- `CMD_TYPE_*` of the command. -/
def Action.type : Action → CommandType
  | .declare => .declare
  | .set => .set
  | .statement => .statement
  | .ret => .ret
  | .raise => .raise
  | .assert => .assert

mutual

/-- A sequence of commands and blocks. -/
inductive Block
  | nil
  | action (a : Action) (next : Block)
  | cond (body : Block) (rest : Branches) (next : Block)
  | loop (body next : Block)
  | foreach (body next : Block)
  | brk (level : ℕ) (next : Block)
  | cont (level : ℕ) (next : Block)

/-- What follows the first branch of an IF block, up to END IF. -/
inductive Branches
  | endif
  | elseif (body : Block) (rest : Branches)
  | els (body : Block)

end

mutual

/-- The statements of a sequence. -/
def Block.statements : Block → List Statement
  | .nil => []
  | .action a next => ⟨a.type, 1⟩ :: next.statements
  | .cond body rest next =>
    ⟨.cond, 1⟩ :: (body.statements ++ (rest.statements ++ next.statements))
  | .loop body next => ⟨.loop, 1⟩ :: (body.statements ++ ⟨.endloop, 1⟩ :: next.statements)
  | .foreach body next => ⟨.foreach, 1⟩ :: (body.statements ++ ⟨.endloop, 1⟩ :: next.statements)
  | .brk level next => ⟨.brk, level⟩ :: next.statements
  | .cont level next => ⟨.cont, level⟩ :: next.statements

/-- The statements of the other branches. -/
def Branches.statements : Branches → List Statement
  | .endif => [⟨.endif, 1⟩]
  | .elseif body rest => ⟨.elseif, 1⟩ :: (body.statements ++ rest.statements)
  | .els body => ⟨.els, 1⟩ :: (body.statements ++ [⟨.endif, 1⟩])

end

mutual

/-- The number of commands. -/
def Block.size : Block → ℕ
  | .nil => 0
  | .action _ next => 1 + next.size
  | .cond body rest next => 1 + body.size + rest.size + next.size
  | .loop body next => 2 + body.size + next.size
  | .foreach body next => 2 + body.size + next.size
  | .brk _ next => 1 + next.size
  | .cont _ next => 1 + next.size

/-- The number of commands of the other branches. -/
def Branches.size : Branches → ℕ
  | .endif => 1
  | .elseif body rest => 1 + body.size + rest.size
  | .els body => 2 + body.size

end

mutual

/-- BREAK and CONTINUE have the level of a loop around them, of which there are `depth`. -/
def Block.WellNested : Block → ℕ → Prop
  | .nil, _ => True
  | .action _ next, depth => next.WellNested depth
  | .cond body rest next, depth =>
    body.WellNested depth ∧ rest.WellNested depth ∧ next.WellNested depth
  | .loop body next, depth => body.WellNested (depth + 1) ∧ next.WellNested depth
  | .foreach body next, depth => body.WellNested (depth + 1) ∧ next.WellNested depth
  | .brk level next, depth => level - 1 < depth ∧ next.WellNested depth
  | .cont level next, depth => level - 1 < depth ∧ next.WellNested depth

/-- BREAK and CONTINUE in the other branches have the level of a loop around them. -/
def Branches.WellNested : Branches → ℕ → Prop
  | .endif, _ => True
  | .elseif body rest, depth => body.WellNested depth ∧ rest.WellNested depth
  | .els body, depth => body.WellNested depth

end

mutual

/-- The commands of a sequence that begins at a position, inside of loops that begin at others,
from the innermost one on. -/
def Block.commands : Block → List ℕ → ℕ → List Command
  | .nil, _, _ => []
  | .action a next, loops, pos => ⟨a.type, 0, 0⟩ :: next.commands loops (pos + 1)
  | .cond body rest next, loops, pos =>
    ⟨.cond, pos + 1 + body.size, 0⟩ :: (body.commands loops (pos + 1) ++
      (rest.commands loops pos (pos + 1 + body.size) ++
        next.commands loops (pos + 1 + body.size + rest.size)))
  | .loop body next, loops, pos =>
    ⟨.loop, 0, pos + 1 + body.size⟩ :: (body.commands (pos :: loops) (pos + 1) ++
      ⟨.endloop, 0, pos⟩ :: next.commands loops (pos + 1 + body.size + 1))
  | .foreach body next, loops, pos =>
    ⟨.foreach, 0, pos + 1 + body.size⟩ :: (body.commands (pos :: loops) (pos + 1) ++
      ⟨.endloop, 0, pos⟩ :: next.commands loops (pos + 1 + body.size + 1))
  | .brk level next, loops, pos =>
    ⟨.brk, 0, loops.getD (level - 1) 0⟩ :: next.commands loops (pos + 1)
  | .cont level next, loops, pos =>
    ⟨.cont, 0, loops.getD (level - 1) 0⟩ :: next.commands loops (pos + 1)

/-- The commands of the other branches of the IF block that begins at `first`. -/
def Branches.commands : Branches → List ℕ → ℕ → ℕ → List Command
  | .endif, _, _, _ => [⟨.endif, 0, 0⟩]
  | .elseif body rest, loops, first, pos =>
    ⟨.elseif, pos + 1 + body.size, first⟩ :: (body.commands loops (pos + 1) ++
      rest.commands loops first (pos + 1 + body.size))
  | .els body, loops, first, pos =>
    ⟨.els, pos + 1 + body.size, first⟩ :: (body.commands loops (pos + 1) ++ [⟨.endif, 0, 0⟩])

end

mutual

@[simp] theorem Block.length_commands : ∀ (b : Block) (loops : List ℕ) (pos : ℕ),
    (b.commands loops pos).length = b.size
  | .nil, _, _ => rfl
  | .action _ next, loops, pos => by
      rw [Block.commands, Block.size, List.length_cons, next.length_commands, Nat.add_comm]
  | .cond body rest next, loops, pos => by
      rw [Block.commands, Block.size, List.length_cons, List.length_append, List.length_append,
        body.length_commands, rest.length_commands, next.length_commands]
      omega
  | .loop body next, loops, pos => by
      rw [Block.commands, Block.size, List.length_cons, List.length_append, List.length_cons,
        body.length_commands, next.length_commands]
      omega
  | .foreach body next, loops, pos => by
      rw [Block.commands, Block.size, List.length_cons, List.length_append, List.length_cons,
        body.length_commands, next.length_commands]
      omega
  | .brk _ next, loops, pos => by
      rw [Block.commands, Block.size, List.length_cons, next.length_commands, Nat.add_comm]
  | .cont _ next, loops, pos => by
      rw [Block.commands, Block.size, List.length_cons, next.length_commands, Nat.add_comm]

@[simp] theorem Branches.length_commands : ∀ (r : Branches) (loops : List ℕ) (first pos : ℕ),
    (r.commands loops first pos).length = r.size
  | .endif, _, _, _ => rfl
  | .elseif body rest, loops, first, pos => by
      rw [Branches.commands, Branches.size, List.length_cons, List.length_append, body.length_commands,
        rest.length_commands]
      omega
  | .els body, loops, first, pos => by
      rw [Branches.commands, Branches.size, List.length_cons, List.length_append, body.length_commands]
      simp only [List.length_cons, List.length_nil]
      omega

end

/-! ## Parsing them -/

/-- A level that is inside of the loops. -/
theorem loopOfLevel_eq {loops : List ℕ} {level : ℕ} (h : level - 1 < loops.length) :
    loopOfLevel loops level = some (loops.getD (level - 1) 0) := by
  induction loops generalizing level with
  | nil => exact absurd h (Nat.not_lt_zero _)
  | cons start loops ih =>
      rw [List.length_cons] at h
      rw [loopOfLevel]
      by_cases hlevel : 1 < level
      · obtain ⟨level, rfl⟩ : ∃ n, level = n + 2 := ⟨level - 2, by omega⟩
        rw [if_pos hlevel, ih (by omega)]
        rfl
      · rw [if_neg hlevel, show level - 1 = 0 by omega, List.getD_cons_zero]

/-- A command in the middle of others is changed. -/
theorem modify_middle {α : Type} (f : α → α) (pre : List α) (x : α) (post : List α) :
    (pre ++ x :: post).modify pre.length f = pre ++ f x :: post := by
  induction pre with
  | nil => rfl
  | cons y pre ih => rw [List.cons_append, List.length_cons, List.modify_succ_cons, ih]; rfl

theorem parseStatements_cons {p p' : Parser} {s : Statement} (h : parseStatement p s = .ok p')
    (stmts : List Statement) : parseStatements p (s :: stmts) = parseStatements p' stmts := by
  rw [parseStatements, h]

/-- ELSEIF, ELSE or END IF: the last command of the block gets its position. -/
theorem setNextIf_last (pre mid : List Command) (c new : Command) (pos : ℕ) :
    setNextIf pre.length pos (pre ++ c :: mid ++ [new]) =
      pre ++ { c with nextIfCmd := pos } :: (mid ++ [new]) := by
  rw [setNextIf, List.append_assoc, List.cons_append, modify_middle]

theorem length_middle (pre mid : List Command) (c : Command) :
    (pre ++ c :: mid).length = pre.length + 1 + mid.length := by
  rw [List.length_append, List.length_cons]
  omega

theorem length_middle_concat (pre mid : List Command) (c new : Command) :
    (pre ++ c :: (mid ++ [new])).length = pre.length + 1 + mid.length + 1 := by
  rw [length_middle, List.length_append, List.length_singleton, ← Nat.add_assoc]

theorem append_middle (pre mid post : List Command) (c : Command) :
    pre ++ c :: mid ++ post = pre ++ c :: (mid ++ post) := by
  rw [List.append_assoc, List.cons_append]

theorem append_middle_concat (pre mid post : List Command) (c new : Command) :
    pre ++ c :: (mid ++ [new]) ++ post = pre ++ c :: (mid ++ new :: post) := by
  rw [append_middle, List.append_assoc, List.singleton_append]

/-- ELSEIF and ELSE. -/
theorem parseElse_last {type : CommandType} (htype : type = .elseif ∨ type = .els)
    (pre mid : List Command) (c : Command) (first : ℕ) (ifs : List IfBlock) (loops : List ℕ) :
    parseStatement ⟨pre ++ c :: mid, ⟨first, pre.length⟩ :: ifs, loops⟩ ⟨type, 1⟩ =
      .ok ⟨pre ++ { c with nextIfCmd := pre.length + 1 + mid.length } ::
        (mid ++ [⟨type, 0, first⟩]), ⟨first, pre.length + 1 + mid.length⟩ :: ifs, loops⟩ := by
  have hset := setNextIf_last pre mid c ⟨type, 0, first⟩ (pre ++ c :: mid).length
  rw [← length_middle pre mid c]
  rcases htype with rfl | rfl <;>
    exact congrArg (fun cmds => Except.ok
      (Parser.mk cmds (⟨first, (pre ++ c :: mid).length⟩ :: ifs) loops)) hset

/-- END IF. -/
theorem parseEndIf_last (pre mid : List Command) (c : Command) (first : ℕ) (ifs : List IfBlock)
    (loops : List ℕ) :
    parseStatement ⟨pre ++ c :: mid, ⟨first, pre.length⟩ :: ifs, loops⟩ ⟨.endif, 1⟩ =
      .ok ⟨pre ++ { c with nextIfCmd := pre.length + 1 + mid.length } ::
        (mid ++ [⟨.endif, 0, 0⟩]), ifs, loops⟩ := by
  rw [← length_middle pre mid c]
  exact congrArg (fun cmds => Except.ok (Parser.mk cmds ifs loops)) (setNextIf_last pre mid c _ _)

/-- END LOOP: the first command of the loop gets its position. -/
theorem setRelated_start (pre mid : List Command) (c new : Command) (pos : ℕ) :
    setRelated pre.length pos (pre ++ c :: mid ++ [new]) =
      pre ++ { c with relatedCmd := pos } :: (mid ++ [new]) := by
  rw [setRelated, List.append_assoc, List.cons_append, modify_middle]

/-- A body between the first command of a loop and its end. -/
theorem parseStatements_loop {type : CommandType} (htype : type = .loop ∨ type = .foreach)
    {body : List Statement} {bodyCmds : List Command} {cmds : List Command} {ifs : List IfBlock}
    {loops : List ℕ}
    (hbody : ∀ stmts, parseStatements ⟨cmds ++ [⟨type, 0, 0⟩], ifs, cmds.length :: loops⟩
        (body ++ stmts) =
      parseStatements ⟨cmds ++ ⟨type, 0, 0⟩ :: bodyCmds, ifs, cmds.length :: loops⟩ stmts)
    (stmts : List Statement) :
    parseStatements ⟨cmds, ifs, loops⟩ (⟨type, 1⟩ :: (body ++ ⟨.endloop, 1⟩ :: stmts)) =
      parseStatements ⟨cmds ++ ⟨type, 0, cmds.length + 1 + bodyCmds.length⟩ ::
        (bodyCmds ++ [⟨.endloop, 0, cmds.length⟩]), ifs, loops⟩ stmts := by
  have hstart : parseStatement ⟨cmds, ifs, loops⟩ ⟨type, 1⟩ =
      .ok ⟨cmds ++ [⟨type, 0, 0⟩], ifs, cmds.length :: loops⟩ := by
    rcases htype with rfl | rfl <;> rfl
  have hend : parseStatement ⟨cmds ++ ⟨type, 0, 0⟩ :: bodyCmds, ifs, cmds.length :: loops⟩
      ⟨.endloop, 1⟩ = .ok ⟨cmds ++ ⟨type, 0, cmds.length + 1 + bodyCmds.length⟩ ::
        (bodyCmds ++ [⟨.endloop, 0, cmds.length⟩]), ifs, loops⟩ := by
    have hset := setRelated_start cmds bodyCmds ⟨type, 0, 0⟩ ⟨.endloop, 0, cmds.length⟩
      (cmds ++ ⟨type, 0, 0⟩ :: bodyCmds).length
    rw [← length_middle cmds bodyCmds ⟨type, 0, 0⟩]
    exact congrArg (fun cmds => Except.ok (Parser.mk cmds ifs loops)) hset
  rw [parseStatements_cons hstart, hbody, parseStatements_cons hend]

mutual

/-- **A sequence is parsed into its commands**, and leaves the stacks as they were. -/
theorem Block.parseStatements_eq : ∀ (b : Block) {cmds : List Command} {ifs : List IfBlock}
    {loops : List ℕ} (_ : b.WellNested loops.length) (stmts : List Statement),
    parseStatements ⟨cmds, ifs, loops⟩ (b.statements ++ stmts) =
      parseStatements ⟨cmds ++ b.commands loops cmds.length, ifs, loops⟩ stmts
  | .nil, cmds, ifs, loops, _, stmts => by
      rw [Block.statements, Block.commands, List.nil_append, List.append_nil]
  | .action a next, cmds, ifs, loops, h, stmts => by
      have haction : parseStatement ⟨cmds, ifs, loops⟩ ⟨a.type, 1⟩ =
          .ok ⟨cmds ++ [⟨a.type, 0, 0⟩], ifs, loops⟩ := by cases a <;> rfl
      rw [Block.statements, List.cons_append, parseStatements_cons haction,
        next.parseStatements_eq h, Block.commands, List.append_assoc, List.length_append]
      rfl
  | .cond body rest next, cmds, ifs, loops, h, stmts => by
      obtain ⟨hbody, hrest, hnext⟩ := h
      have hcond : parseStatement ⟨cmds, ifs, loops⟩ ⟨.cond, 1⟩ =
          .ok ⟨cmds ++ [⟨.cond, 0, 0⟩], ⟨cmds.length, cmds.length⟩ :: ifs, loops⟩ := rfl
      rw [Block.statements, List.cons_append, List.append_assoc, List.append_assoc,
        parseStatements_cons hcond, body.parseStatements_eq hbody, List.append_assoc,
        List.singleton_append, List.length_append, rest.parseStatements_eq hrest,
        next.parseStatements_eq hnext, Block.commands]
      simp [Nat.add_assoc, Nat.add_comm]
  | .loop body next, cmds, ifs, loops, h, stmts => by
      have hbody := fun stmts => @Block.parseStatements_eq body (cmds ++ [⟨.loop, 0, 0⟩]) ifs
        (cmds.length :: loops) h.1 stmts
      rw [List.append_assoc, List.singleton_append, List.length_append] at hbody
      rw [Block.statements, List.cons_append, List.append_assoc, List.cons_append,
        parseStatements_loop (.inl rfl) hbody, next.parseStatements_eq h.2, Block.commands]
      simp [Nat.add_assoc, Nat.add_comm, Nat.add_left_comm]
  | .foreach body next, cmds, ifs, loops, h, stmts => by
      have hbody := fun stmts => @Block.parseStatements_eq body (cmds ++ [⟨.foreach, 0, 0⟩]) ifs
        (cmds.length :: loops) h.1 stmts
      rw [List.append_assoc, List.singleton_append, List.length_append] at hbody
      rw [Block.statements, List.cons_append, List.append_assoc, List.cons_append,
        parseStatements_loop (.inr rfl) hbody, next.parseStatements_eq h.2, Block.commands]
      simp [Nat.add_assoc, Nat.add_comm, Nat.add_left_comm]
  | .brk level next, cmds, ifs, loops, h, stmts => by
      have hbreak : parseStatement ⟨cmds, ifs, loops⟩ ⟨.brk, level⟩ =
          .ok ⟨cmds ++ [⟨.brk, 0, loops.getD (level - 1) 0⟩], ifs, loops⟩ := by
        simp only [parseStatement, parseExitStatement, loopOfLevel_eq h.1]
        rfl
      rw [Block.statements, List.cons_append, parseStatements_cons hbreak,
        next.parseStatements_eq h.2, Block.commands, List.append_assoc, List.length_append]
      rfl
  | .cont level next, cmds, ifs, loops, h, stmts => by
      have hcontinue : parseStatement ⟨cmds, ifs, loops⟩ ⟨.cont, level⟩ =
          .ok ⟨cmds ++ [⟨.cont, 0, loops.getD (level - 1) 0⟩], ifs, loops⟩ := by
        simp only [parseStatement, parseExitStatement, loopOfLevel_eq h.1]
        rfl
      rw [Block.statements, List.cons_append, parseStatements_cons hcontinue,
        next.parseStatements_eq h.2, Block.commands, List.append_assoc, List.length_append]
      rfl

/-- The other branches, where the last command of the block is `c`. -/
theorem Branches.parseStatements_eq : ∀ (r : Branches) {pre mid : List Command} {c : Command}
    {first : ℕ} {ifs : List IfBlock} {loops : List ℕ} (_ : r.WellNested loops.length)
    (stmts : List Statement),
    parseStatements ⟨pre ++ c :: mid, ⟨first, pre.length⟩ :: ifs, loops⟩
        (r.statements ++ stmts) =
      parseStatements ⟨pre ++ { c with nextIfCmd := pre.length + 1 + mid.length } ::
        (mid ++ r.commands loops first (pre.length + 1 + mid.length)), ifs, loops⟩ stmts
  | .endif, pre, mid, c, first, ifs, loops, _, stmts => by
      rw [Branches.statements, List.singleton_append,
        parseStatements_cons (parseEndIf_last pre mid c first ifs loops), Branches.commands]
  | .elseif body rest, pre, mid, c, first, ifs, loops, h, stmts => by
      have hrest := @Branches.parseStatements_eq rest
        (pre ++ { c with nextIfCmd := pre.length + 1 + mid.length } :: mid)
        (body.commands loops (pre.length + 1 + mid.length + 1)) ⟨.elseif, 0, first⟩ first ifs
        loops h.2 stmts
      rw [length_middle, List.append_assoc, List.cons_append, Block.length_commands] at hrest
      rw [Branches.statements, List.cons_append, List.append_assoc,
        parseStatements_cons (parseElse_last (.inl rfl) pre mid c first ifs loops),
        body.parseStatements_eq h.1, length_middle_concat, append_middle_concat, hrest,
        Branches.commands, append_middle]
  | .els body, pre, mid, c, first, ifs, loops, h, stmts => by
      have hendif := parseEndIf_last
        (pre ++ { c with nextIfCmd := pre.length + 1 + mid.length } :: mid)
        (body.commands loops (pre.length + 1 + mid.length + 1)) ⟨.els, 0, first⟩ first ifs loops
      rw [length_middle, List.append_assoc, List.cons_append, Block.length_commands] at hendif
      rw [Branches.statements, List.cons_append, List.append_assoc,
        parseStatements_cons (parseElse_last (.inr rfl) pre mid c first ifs loops),
        body.parseStatements_eq h, length_middle_concat, append_middle_concat,
        List.singleton_append, parseStatements_cons hendif, Branches.commands, append_middle]

end

mutual

/-- More loops around a sequence. -/
theorem Block.WellNested.mono : ∀ {b : Block} {m n : ℕ}, b.WellNested m → m ≤ n → b.WellNested n
  | .nil, _, _, _, _ => trivial
  | .action _ next, _, _, h, hle => @Block.WellNested.mono next _ _ h hle
  | .cond _ _ _, _, _, h, hle => ⟨h.1.mono hle, h.2.1.mono hle, h.2.2.mono hle⟩
  | .loop _ _, _, _, h, hle => ⟨h.1.mono (Nat.succ_le_succ hle), h.2.mono hle⟩
  | .foreach _ _, _, _, h, hle => ⟨h.1.mono (Nat.succ_le_succ hle), h.2.mono hle⟩
  | .brk _ _, _, _, h, hle => ⟨Nat.lt_of_lt_of_le h.1 hle, h.2.mono hle⟩
  | .cont _ _, _, _, h, hle => ⟨Nat.lt_of_lt_of_le h.1 hle, h.2.mono hle⟩

/-- More loops around the branches. -/
theorem Branches.WellNested.mono : ∀ {r : Branches} {m n : ℕ}, r.WellNested m → m ≤ n →
    r.WellNested n
  | .endif, _, _, _, _ => trivial
  | .elseif _ _, _, _, h, hle => ⟨h.1.mono hle, h.2.mono hle⟩
  | .els body, _, _, h, hle => @Block.WellNested.mono body _ _ h hle

end

/-- **A procedure is parsed into its commands**, whatever is on the stacks. -/
theorem parseProcedureBody_blocks {b : Block} (h : b.WellNested 0) (ifs : List IfBlock)
    (loops : List ℕ) :
    parseProcedureBody ifs loops b.statements = .ok (b.commands loops 0) := by
  have := @Block.parseStatements_eq b [] ifs loops (h.mono (Nat.zero_le _)) []
  rw [List.append_nil, List.nil_append] at this
  rw [parseProcedureBody, this]
  rfl

end StoredProc
end AergoLite
