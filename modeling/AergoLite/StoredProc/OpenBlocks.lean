/-
# The blocks that a parse leaves open

The stacks of open blocks are global variables.  `parse_procedure_body` stops at END, whether or not
there are open blocks, and an error leaves them where they are; nothing empties the stacks before
the next procedure is parsed.  The two stacks do not know of each other, either, so an IF block may
end inside of a loop that began in it, and ELSE may come after ELSE.

`keepsStructure_iff` says of which texts the stacks are empty again, an accepted body is one of
blocks that are nested, and its links are positions of its commands.
-/

import AergoLite.StoredProc.Blocks

namespace AergoLite
namespace StoredProc

/-! ## Parsing a procedure -/

/-- A statement of the text of a body, and what else decides whether it is parsed. -/
structure Clause where
  type : CommandType
  /-- The level of BREAK and CONTINUE. -/
  level : ℕ
  /-- There is memory for the command. -/
  allocated : Bool
  /-- There is memory for the block that it opens. -/
  blockAllocated : Bool
  /-- The result of what is parsed of it after its block: a condition up to THEN, the variables and
  the query of a FOREACH, a semicolon. -/
  rest : Rc
  deriving DecidableEq

/-- Its kind and its level. -/
def Clause.statement (c : Clause) : Statement :=
  ⟨c.type, if c.type = .brk ∨ c.type = .cont then c.level else 1⟩

/-- It opens a block. -/
def opensBlock : CommandType → Bool
  | .cond | .loop | .foreach => true
  | _ => false

/-- `parse_new_command`, or the SQL statement of `parse_procedure_body`.  The stacks are changed
before the rest of the statement is parsed. -/
def Clause.parse (p : Parser) (c : Clause) : Rc × Parser :=
  if !c.allocated then (.nomem, p)
  else match parseStatement p c.statement with
    | .error rc => (rc, p.newCommand c.type 0)
    | .ok p' =>
      if opensBlock c.type && !c.blockAllocated then (.nomem, p.newCommand c.type 0)
      else (c.rest, p')

/-- The loop of `parse_procedure_body`, with the parser as an error leaves it. -/
def parseClauses : Parser → List Clause → Rc × Parser
  | p, [] => (.ok, p)
  | p, c :: cs =>
    match c.parse p with
    | (.ok, p) => parseClauses p cs
    | (rc, p) => (rc, p)

/-- The text of a procedure: what comes before its body has a result, and its body has an END that
nothing follows, or not. -/
structure ProcedureText where
  header : Rc
  body : List Clause
  ended : Bool
  deriving DecidableEq

/-- `if_stack` and `loop_stack`. -/
@[ext] structure Globals where
  ifStack : List IfBlock
  loopStack : List ℕ
  deriving DecidableEq

/-- No block is open. -/
def Globals.empty : Globals := ⟨[], []⟩

/-- What a parse leaves. -/
structure Parsed where
  rc : Rc
  cmds : List Command
  globals : Globals
  deriving DecidableEq

/-- `parseStoredProcedure`. -/
def parseStoredProcedure (globals : Globals) (t : ProcedureText) : Parsed :=
  if t.header ≠ .ok then ⟨t.header, [], globals⟩
  else
    let (rc, p) := parseClauses ⟨[], globals.ifStack, globals.loopStack⟩ t.body
    ⟨if rc = .ok ∧ t.ended = false then .error else rc, p.cmds, ⟨p.ifStack, p.loopStack⟩⟩

/-- One procedure after the other. -/
def parseAll : Globals → List ProcedureText → List Parsed
  | _, [] => []
  | globals, t :: ts =>
    parseStoredProcedure globals t :: parseAll (parseStoredProcedure globals t).globals ts

/-- **The structure of a procedure is kept**: it is accepted only as a sequence of blocks that are
nested, the stacks are empty again, and the links of its commands are positions of its commands. -/
structure KeepsStructure (t : ProcedureText) (r : Parsed) : Prop where
  nested : r.rc = .ok →
    ∃ b : Block, b.WellNested 0 ∧ t.body.map Clause.statement = b.statements
  emptied : r.globals = .empty
  linked : r.rc = .ok → ∀ cmd ∈ r.cmds,
    cmd.nextIfCmd < r.cmds.length ∧ cmd.relatedCmd < r.cmds.length

/-! ## Counting the open blocks -/

/-- How many blocks of either kind are open. -/
@[ext] structure Depth where
  ifs : ℕ
  loops : ℕ
  deriving DecidableEq

/-- How many are open after a statement, and whether it is parsed. -/
def Clause.count (d : Depth) (c : Clause) : Bool × Depth :=
  if !c.allocated then (false, d)
  else match c.type with
    | .cond =>
      if c.blockAllocated then (c.rest = .ok, { d with ifs := d.ifs + 1 }) else (false, d)
    | .loop | .foreach =>
      if c.blockAllocated then (c.rest = .ok, { d with loops := d.loops + 1 }) else (false, d)
    | .elseif | .els => if d.ifs = 0 then (false, d) else (c.rest = .ok, d)
    | .endif => if d.ifs = 0 then (false, d) else (c.rest = .ok, { d with ifs := d.ifs - 1 })
    | .endloop =>
      if d.loops = 0 then (false, d) else (c.rest = .ok, { d with loops := d.loops - 1 })
    | .brk | .cont => if c.level - 1 < d.loops then (c.rest = .ok, d) else (false, d)
    | _ => (c.rest = .ok, d)

/-- How many are open where the parse stops, and whether all statements are parsed. -/
def countBlocks : Depth → List Clause → Bool × Depth
  | d, [] => (true, d)
  | d, c :: cs =>
    match c.count d with
    | (true, d) => countBlocks d cs
    | (false, d) => (false, d)

/-- **A text that keeps the structure**: if all of it is parsed it is that of blocks that are
nested, and otherwise as many blocks were ended as were opened, before the error. -/
def ProcedureText.WellFormed (t : ProcedureText) : Prop :=
  t.header = .ok →
    if (countBlocks ⟨0, 0⟩ t.body).1 = true ∧ t.ended = true then
      ∃ b : Block, b.WellNested 0 ∧ t.body.map Clause.statement = b.statements
    else (countBlocks ⟨0, 0⟩ t.body).2 = ⟨0, 0⟩

/-- How many blocks are open. -/
def Parser.depth (p : Parser) : Depth := ⟨p.ifStack.length, p.loopStack.length⟩

theorem loopOfLevel_eq_none {loops : List ℕ} {level : ℕ} (h : ¬level - 1 < loops.length) :
    loopOfLevel loops level = none := by
  induction loops generalizing level with
  | nil => rfl
  | cons start loops ih =>
      rw [List.length_cons] at h
      rw [loopOfLevel, if_pos (by omega), ih (by omega)]

/-- **The counts are those of the stacks**, after one statement. -/
theorem count_eq (p : Parser) (c : Clause) :
    c.count p.depth = (decide ((c.parse p).1 = .ok), (c.parse p).2.depth) := by
  obtain ⟨type, level, allocated, blockAllocated, rest⟩ := c
  obtain ⟨cmds, ifs, loops⟩ := p
  unfold Clause.count Clause.parse Clause.statement Parser.depth
  cases allocated with
  | false => rfl
  | true =>
      cases type with
      | declare | set | statement | ret | raise | assert => rfl
      | cond | loop | foreach => cases blockAllocated <;> rfl
      | elseif | els | endif => cases ifs <;> rfl
      | endloop => cases loops <;> rfl
      | brk | cont =>
          by_cases hlevel : level - 1 < loops.length
          · simp [parseStatement, parseExitStatement, loopOfLevel_eq hlevel, hlevel, opensBlock,
              Parser.newCommand]
          · simp [parseStatement, parseExitStatement, loopOfLevel_eq_none hlevel, hlevel,
              Parser.newCommand]

/-- **The counts are those of the stacks**, after all of the statements. -/
theorem countBlocks_eq (p : Parser) (cs : List Clause) :
    countBlocks p.depth cs =
      (decide ((parseClauses p cs).1 = .ok), (parseClauses p cs).2.depth) := by
  induction cs generalizing p with
  | nil => rfl
  | cons c cs ih =>
      have hcount := count_eq p c
      rw [countBlocks, parseClauses, hcount]
      generalize c.parse p = r
      obtain ⟨rc, p'⟩ := r
      cases rc with
      | ok => exact ih p'
      | _ => rfl

/-! ## The links of nested blocks -/

/-- Its links are positions before a bound. -/
def Command.LinksBelow (bound : ℕ) (cmd : Command) : Prop :=
  cmd.nextIfCmd < bound ∧ cmd.relatedCmd < bound

theorem linksBelow_mk {bound next related : ℕ} (type : CommandType) (hnext : next < bound)
    (hrelated : related < bound) : Command.LinksBelow bound ⟨type, next, related⟩ :=
  ⟨hnext, hrelated⟩

theorem Branches.size_pos (r : Branches) : 0 < r.size := by
  cases r with
  | endif => exact Nat.one_pos
  | elseif body rest =>
      rw [Branches.size]
      omega
  | els body =>
      rw [Branches.size]
      omega

/-- The commands of a loop, if those of its body have links below the bound. -/
theorem linksBelow_loop {bound pos size : ℕ} {type : CommandType} {body next : List Command}
    (hbound : pos + 1 + size < bound) (hbody : ∀ cmd ∈ body, cmd.LinksBelow bound)
    (hnext : ∀ cmd ∈ next, cmd.LinksBelow bound) :
    ∀ cmd ∈ ⟨type, 0, pos + 1 + size⟩ :: (body ++ ⟨.endloop, 0, pos⟩ :: next),
      cmd.LinksBelow bound := by
  intro cmd hcmd
  rcases List.mem_cons.1 hcmd with rfl | hcmd
  · exact linksBelow_mk type (by omega) hbound
  · rcases List.mem_append.1 hcmd with hcmd | hcmd
    · exact hbody cmd hcmd
    · rcases List.mem_cons.1 hcmd with rfl | hcmd
      · exact linksBelow_mk .endloop (by omega) (by omega)
      · exact hnext cmd hcmd

/-- BREAK and CONTINUE have the position of a loop around them. -/
theorem linksBelow_exit {bound level : ℕ} {type : CommandType} {loops : List ℕ}
    {next : List Command} (hlevel : level - 1 < loops.length)
    (hloops : ∀ start ∈ loops, start < bound) (hnext : ∀ cmd ∈ next, cmd.LinksBelow bound) :
    ∀ cmd ∈ ⟨type, 0, loops.getD (level - 1) 0⟩ :: next, cmd.LinksBelow bound := by
  intro cmd hcmd
  rcases List.mem_cons.1 hcmd with rfl | hcmd
  · have hstart : loops.getD (level - 1) 0 < bound := by
      rw [List.getD_eq_getElem _ _ hlevel]
      exact hloops _ (List.getElem_mem hlevel)
    exact linksBelow_mk type (by omega) hstart
  · exact hnext cmd hcmd

mutual

/-- **The links of nested blocks** are positions of their commands, or of a loop around them. -/
theorem Block.linksBelow {bound : ℕ} : ∀ (b : Block) {loops : List ℕ} {pos : ℕ}
    (_ : b.WellNested loops.length) (_ : pos + b.size ≤ bound)
    (_ : ∀ start ∈ loops, start < bound), ∀ cmd ∈ b.commands loops pos, cmd.LinksBelow bound
  | .nil, _, _, _, _, _ => fun _ hcmd => absurd hcmd List.not_mem_nil
  | .action a next, loops, pos, h, hbound, hloops => by
      rw [Block.size] at hbound
      intro cmd hcmd
      rcases List.mem_cons.1 hcmd with rfl | hcmd
      · exact linksBelow_mk a.type (by omega) (by omega)
      · exact next.linksBelow h (by omega) hloops cmd hcmd
  | .cond body rest next, loops, pos, h, hbound, hloops => by
      rw [Block.size] at hbound
      have hrest := rest.size_pos
      intro cmd hcmd
      rw [Block.commands, List.mem_cons, List.mem_append, List.mem_append] at hcmd
      rcases hcmd with rfl | hcmd | hcmd | hcmd
      · exact linksBelow_mk .cond (by omega) (by omega)
      · exact body.linksBelow h.1 (by omega) hloops cmd hcmd
      · exact rest.linksBelow h.2.1 (by omega) (by omega) hloops cmd hcmd
      · exact next.linksBelow h.2.2 (by omega) hloops cmd hcmd
  | .loop body next, loops, pos, h, hbound, hloops => by
      rw [Block.size] at hbound
      exact linksBelow_loop (by omega)
        (body.linksBelow h.1 (by omega) (List.forall_mem_cons.2 ⟨by omega, hloops⟩))
        (next.linksBelow h.2 (by omega) hloops)
  | .foreach body next, loops, pos, h, hbound, hloops => by
      rw [Block.size] at hbound
      exact linksBelow_loop (by omega)
        (body.linksBelow h.1 (by omega) (List.forall_mem_cons.2 ⟨by omega, hloops⟩))
        (next.linksBelow h.2 (by omega) hloops)
  | .brk level next, loops, pos, h, hbound, hloops => by
      rw [Block.size] at hbound
      exact linksBelow_exit h.1 hloops (next.linksBelow h.2 (by omega) hloops)
  | .cont level next, loops, pos, h, hbound, hloops => by
      rw [Block.size] at hbound
      exact linksBelow_exit h.1 hloops (next.linksBelow h.2 (by omega) hloops)

/-- The links of the other branches. -/
theorem Branches.linksBelow {bound : ℕ} : ∀ (r : Branches) {loops : List ℕ} {first pos : ℕ}
    (_ : r.WellNested loops.length) (_ : pos + r.size ≤ bound) (_ : first < bound)
    (_ : ∀ start ∈ loops, start < bound),
    ∀ cmd ∈ r.commands loops first pos, cmd.LinksBelow bound
  | .endif, _, _, _, _, _, hfirst, _ => by
      intro cmd hcmd
      obtain rfl := List.mem_singleton.1 hcmd
      exact linksBelow_mk .endif (by omega) (by omega)
  | .elseif body rest, loops, first, pos, h, hbound, hfirst, hloops => by
      rw [Branches.size] at hbound
      have hrest := rest.size_pos
      intro cmd hcmd
      rw [Branches.commands, List.mem_cons, List.mem_append] at hcmd
      rcases hcmd with rfl | hcmd | hcmd
      · exact linksBelow_mk .elseif (by omega) hfirst
      · exact body.linksBelow h.1 (by omega) hloops cmd hcmd
      · exact rest.linksBelow h.2 (by omega) hfirst hloops cmd hcmd
  | .els body, loops, first, pos, h, hbound, hfirst, hloops => by
      rw [Branches.size] at hbound
      intro cmd hcmd
      rw [Branches.commands, List.mem_cons, List.mem_append, List.mem_singleton] at hcmd
      rcases hcmd with rfl | hcmd | rfl
      · exact linksBelow_mk .els (by omega) hfirst
      · exact body.linksBelow h (by omega) hloops cmd hcmd
      · exact linksBelow_mk .endif (by omega) (by omega)

end

/-! ## The texts that keep the structure -/

/-- A block that is missing is an error. -/
theorem parseStatement_error {p : Parser} {st : Statement} {rc : Rc}
    (h : parseStatement p st = .error rc) : rc = .error := by
  obtain ⟨type, level⟩ := st
  cases type with
  | declare | set | statement | ret | raise | assert | cond | loop | foreach => cases h
  | elseif | els | endif =>
      obtain ⟨cmds, ifs, loops⟩ := p
      cases ifs with
      | nil => exact (Except.error.inj h).symm
      | cons ifb ifs => cases h
  | endloop =>
      obtain ⟨cmds, ifs, loops⟩ := p
      cases loops with
      | nil => exact (Except.error.inj h).symm
      | cons start loops => cases h
  | brk | cont =>
      simp only [parseStatement, parseExitStatement] at h
      cases hlevel : loopOfLevel p.loopStack level with
      | none =>
          rw [hlevel] at h
          exact (Except.error.inj h).symm
      | some start =>
          rw [hlevel] at h
          cases h

/-- A statement that is parsed. -/
theorem parse_eq_ok {p p' : Parser} {c : Clause} (h : c.parse p = (.ok, p')) :
    parseStatement p c.statement = .ok p' := by
  unfold Clause.parse at h
  by_cases hallocated : (!c.allocated) = true
  · rw [if_pos hallocated] at h
    cases h
  · rw [if_neg hallocated] at h
    cases hparse : parseStatement p c.statement with
    | error rc =>
        rw [hparse] at h
        obtain rfl := parseStatement_error hparse
        cases h
    | ok q =>
        rw [hparse] at h
        dsimp only at h
        split_ifs at h
        · cases h
        · exact congrArg Except.ok (Prod.mk.inj h).2

/-- All of the statements are parsed. -/
theorem parseStatements_of_parseClauses {p p' : Parser} {cs : List Clause}
    (h : parseClauses p cs = (.ok, p')) :
    parseStatements p (cs.map Clause.statement) = .ok p' := by
  induction cs generalizing p with
  | nil => exact congrArg Except.ok (Prod.mk.inj h).2
  | cons c cs ih =>
      rw [parseClauses] at h
      generalize hparse : c.parse p = r at h
      obtain ⟨rc, q⟩ := r
      cases rc with
      | ok =>
          rw [List.map_cons, parseStatements_cons (parse_eq_ok hparse)]
          exact ih h
      | _ => cases h

/-- **What an accepted body of nested blocks leaves**: their commands, and empty stacks. -/
theorem parser_of_blocks {cs : List Clause} {p : Parser} {b : Block}
    (h : parseClauses ⟨[], [], []⟩ cs = (.ok, p)) (hnest : b.WellNested 0)
    (hblocks : cs.map Clause.statement = b.statements) : p = ⟨b.commands [] 0, [], []⟩ := by
  have hparse := parseStatements_of_parseClauses h
  have hcommands := @Block.parseStatements_eq b [] [] [] hnest []
  rw [List.append_nil, List.nil_append] at hcommands
  rw [hblocks, hcommands] at hparse
  exact (Except.ok.inj hparse).symm

/-- **One parse**, where no block is open before. -/
theorem keepsStructure_parse_iff (t : ProcedureText) :
    KeepsStructure t (parseStoredProcedure .empty t) ↔ t.WellFormed := by
  unfold parseStoredProcedure ProcedureText.WellFormed
  by_cases hheader : t.header = .ok
  · rw [if_neg (not_not.2 hheader), imp_iff_right hheader]
    have hcount : countBlocks ⟨0, 0⟩ t.body = _ := countBlocks_eq ⟨[], [], []⟩ t.body
    rw [hcount]
    change KeepsStructure t ⟨if (parseClauses ⟨[], [], []⟩ t.body).1 = .ok ∧ t.ended = false
      then .error else (parseClauses ⟨[], [], []⟩ t.body).1,
      (parseClauses ⟨[], [], []⟩ t.body).2.cmds,
      ⟨(parseClauses ⟨[], [], []⟩ t.body).2.ifStack,
        (parseClauses ⟨[], [], []⟩ t.body).2.loopStack⟩⟩ ↔ _
    generalize hparse : parseClauses ⟨[], [], []⟩ t.body = r
    obtain ⟨rc, p⟩ := r
    dsimp only
    by_cases haccepted : rc = .ok ∧ t.ended = true
    · -- all of the body is parsed, and it has an END
      obtain ⟨rfl, hended⟩ := haccepted
      have hrc : (if Rc.ok = .ok ∧ t.ended = false then Rc.error else .ok) = .ok :=
        if_neg fun h => Bool.false_ne_true (h.2.symm.trans hended)
      rw [hrc, if_pos ⟨decide_eq_true rfl, hended⟩]
      constructor
      · intro hkeeps
        exact hkeeps.nested rfl
      · rintro ⟨b, hnest, hblocks⟩
        obtain rfl := parser_of_blocks hparse hnest hblocks
        have hlinks := @Block.linksBelow b.size b [] 0 hnest (by omega) nofun
        exact ⟨fun _ => ⟨b, hnest, hblocks⟩, rfl, fun _ cmd hcmd => by
          rw [Block.length_commands]
          exact hlinks cmd hcmd⟩
    · -- the parse fails, and the stacks are as it left them
      have hrc : (if rc = .ok ∧ t.ended = false then .error else rc) ≠ .ok := by
        split_ifs with h
        · exact nofun
        · exact fun hok => haccepted ⟨hok, Bool.not_eq_false _ ▸ fun hended => h ⟨hok, hended⟩⟩
      have hfails : ¬(decide (rc = .ok) = true ∧ t.ended = true) :=
        fun h => haccepted ⟨of_decide_eq_true h.1, h.2⟩
      rw [if_neg hfails]
      constructor
      · intro hkeeps
        have hifs : p.ifStack = [] := congrArg Globals.ifStack hkeeps.emptied
        have hloops : p.loopStack = [] := congrArg Globals.loopStack hkeeps.emptied
        rw [Parser.depth, hifs, hloops]
        rfl
      · intro hdepth
        have hifs := List.eq_nil_of_length_eq_zero (congrArg Depth.ifs hdepth)
        have hloops := List.eq_nil_of_length_eq_zero (congrArg Depth.loops hdepth)
        exact ⟨fun h => absurd h hrc, Globals.ext hifs hloops, fun h => absurd h hrc⟩
  · rw [if_pos hheader]
    exact iff_of_true ⟨fun h => absurd h hheader, rfl, fun h => absurd h hheader⟩
      fun h => absurd h hheader

/-- **The parses of a sequence** keep the structure of each text, if and only if each keeps it by
itself: no block is left open for the next one. -/
theorem keepsStructure_iff (ts : List ProcedureText) :
    List.Forall₂ KeepsStructure ts (parseAll .empty ts) ↔ ∀ t ∈ ts, t.WellFormed := by
  induction ts with
  | nil => exact iff_of_true .nil fun t ht => absurd ht List.not_mem_nil
  | cons t ts ih =>
      rw [parseAll, List.forall₂_cons, keepsStructure_parse_iff, List.forall_mem_cons]
      refine and_congr_right fun hwell => ?_
      rw [((keepsStructure_parse_iff t).2 hwell).emptied]
      exact ih

/-! ## A block that is left open -/

/-- A statement that is parsed, if its block is there. -/
def plainClause (type : CommandType) : Clause := ⟨type, 1, true, true, .ok⟩

/-- `IF @a THEN INSERT ...; END` -/
def openIf : ProcedureText := ⟨.ok, [plainClause .cond, plainClause .statement], true⟩

/-- `INSERT ...; END IF; END` -/
def strayEndIf : ProcedureText := ⟨.ok, [plainClause .statement, plainClause .endif], true⟩

/-- Both are accepted, the second one with the block that the first one has left open. -/
theorem openIf_not_kept :
    (parseAll .empty [openIf, strayEndIf]).map Parsed.rc = [.ok, .ok] ∧
      (parseStoredProcedure .empty strayEndIf).rc = .error ∧
        ¬List.Forall₂ KeepsStructure [openIf, strayEndIf]
          (parseAll .empty [openIf, strayEndIf]) := by
  refine ⟨by decide, by decide, fun h => ?_⟩
  have hfirst : KeepsStructure openIf (parseStoredProcedure .empty openIf) :=
    (List.forall₂_cons.1 h).1
  exact absurd hfirst.emptied (by decide)

end StoredProc
end AergoLite
