/-
# What the blocks of a stored procedure mean

The structured semantics of a procedure: a branch of an IF block is executed if its condition
holds and none before it did, LOOP repeats its body, FOREACH executes it for every item from the
first one on and fails if its variable has no list, BREAK and CONTINUE leave or continue the loop
of their level, and RETURN ends the call.

The semantics are a function: a loop gives up after `n` rounds.  What has run until then is
kept, so the runs that do not end are those that run on for every `n`.
-/

import AergoLite.StoredProc.Blocks
import Mathlib.Tactic.TypeStar

namespace AergoLite
namespace StoredProc

variable {σ : Type} (e : Engine σ)

/-- How a sequence ends.  Levels are counted from 0. -/
inductive Outcome
  | normal
  | brk (level : ℕ)
  | cont (level : ℕ)
  | ended (x : Ended)
  deriving DecidableEq, Repr

/-- What a loop does after its body: another round, or its own outcome. -/
def Outcome.afterBody : Outcome → Option Outcome
  | .normal => none
  | .cont 0 => none
  | .brk 0 => some .normal
  | .brk (level + 1) => some (.brk level)
  | .cont (level + 1) => some (.cont level)
  | .ended x => some (.ended x)

/-- A command that is no part of a block. -/
def Action.exec (a : Action) (pos : ℕ) (w : World σ) : Outcome × World σ :=
  match a with
  | .declare => (.normal, w)
  | .set | .statement | .assert =>
    match w.execute e pos with
    | (.ok, w) => (.normal, w)
    | (rc, w) => (.ended (.error rc), w)
  | .ret =>
    match w.execute e pos with
    | (.ok, w) => (.ended (.exit .ok), w)
    | (rc, w) => (.ended (.error rc), w)
  | .raise =>
    match w.execute e pos with
    | (.ok, w) => (.ended (.exit .error), w)
    | (rc, w) => (.ended (.error rc), w)

/-- What follows is executed where what comes before has ended normally. -/
def andThen (r : Outcome × World σ) (next : World σ → Outcome × World σ) : Outcome × World σ :=
  match r with
  | (.normal, w) => next w
  | (outcome, w) => (outcome, w)

/-- LOOP. -/
def repeatBody (body : World σ → Outcome × World σ) : ℕ → World σ → Outcome × World σ
  | 0, w => (.ended .running, w)
  | n + 1, w =>
    match (body w).1.afterBody with
    | none => repeatBody body n (body w).2
    | some outcome => (outcome, (body w).2)

/-- An item is retrieved, where there is a list. -/
def World.retrieve (pos item : ℕ) (w : World σ) : Fetch × ℕ × World σ :=
  match e.input pos w.state with
  | .invalid => (.failed .error, item, ⟨w.state, w.ran ++ [.rejected pos]⟩)
  | _ => w.fetch e pos item

/-- FOREACH, from an item on. -/
def forEachItem (pos : ℕ) (body : World σ → Outcome × World σ) :
    ℕ → ℕ → World σ → Outcome × World σ
  | 0, _, w => (.ended .running, w)
  | n + 1, item, w =>
    match w.retrieve e pos item with
    | (.row, item, w) =>
      match (body w).1.afterBody with
      | none => forEachItem pos body n item (body w).2
      | some outcome => (outcome, (body w).2)
    | (.done, _, w) => (.normal, w)
    | (.failed rc, _, w) => (.ended (.error rc), w)

mutual

/-- **The meaning of a sequence** that begins at a position. -/
def Block.exec (n : ℕ) : Block → ℕ → World σ → Outcome × World σ
  | .nil, _, w => (.normal, w)
  | .action a next, pos, w => andThen (a.exec e pos w) (next.exec n (pos + 1))
  | .cond body rest next, pos, w =>
    match w.test e pos with
    | (.error rc, w) => (.ended (.error rc), w)
    | (.ok true, w) =>
      andThen (body.exec n (pos + 1) w) (next.exec n (pos + 1 + body.size + rest.size))
    | (.ok false, w) =>
      andThen (rest.exec n (pos + 1 + body.size) w) (next.exec n (pos + 1 + body.size + rest.size))
  | .loop body next, pos, w =>
    andThen (repeatBody (body.exec n (pos + 1)) n w) (next.exec n (pos + 1 + body.size + 1))
  | .foreach body next, pos, w =>
    andThen (forEachItem e pos (body.exec n (pos + 1)) n 0 w)
      (next.exec n (pos + 1 + body.size + 1))
  | .brk level _, _, w => (.brk (level - 1), w)
  | .cont level _, _, w => (.cont (level - 1), w)

/-- The meaning of the other branches of an IF block, where none was executed before. -/
def Branches.exec (n : ℕ) : Branches → ℕ → World σ → Outcome × World σ
  | .endif, _, w => (.normal, w)
  | .elseif body rest, pos, w =>
    match w.test e pos with
    | (.error rc, w) => (.ended (.error rc), w)
    | (.ok true, w) => body.exec n (pos + 1) w
    | (.ok false, w) => rest.exec n (pos + 1 + body.size) w
  | .els body, pos, w => body.exec n (pos + 1) w

end

/-- The end of a call; outside of loops there is nothing to break or to continue. -/
def Outcome.toEnded : Outcome → Ended
  | .ended x => x
  | _ => .exit .ok

/-- A call of the procedure. -/
def Block.call (b : Block) (n : ℕ) (w : World σ) : Option Rc × World σ :=
  withSavepoint e World.state World.put
    (fun w => let (outcome, w) := b.exec e n 0 w; (outcome.toEnded, w)) w

/-- Calls of the procedure. -/
def Block.calls (b : Block) (n : ℕ) (fs : List (σ → σ)) (w : World σ) :
    List (Option Rc) × World σ :=
  runCalls World.change (fun _ => b.call e n) 0 fs w

/-! ## What has run stays so -/

variable {e}

/-- What has run is a beginning of what has run later. -/
def Extends (w w' : World σ) : Prop := w.ran <+: w'.ran

theorem Extends.refl (w : World σ) : Extends w w := List.prefix_refl _

theorem Extends.trans {w w' w'' : World σ} (h : Extends w w') (h' : Extends w' w'') :
    Extends w w'' := List.IsPrefix.trans h h'

theorem extends_execute (pos : ℕ) (w : World σ) : Extends w (w.execute e pos).2 :=
  List.prefix_append _ _

theorem extends_test (pos : ℕ) (w : World σ) : Extends w (w.test e pos).2 :=
  List.prefix_append _ _

theorem extends_fetch (pos item : ℕ) (w : World σ) : Extends w (w.fetch e pos item).2.2 :=
  List.prefix_append _ _

theorem extends_retrieve (pos item : ℕ) (w : World σ) :
    Extends w (w.retrieve e pos item).2.2 := by
  unfold World.retrieve
  cases e.input pos w.state with
  | invalid => exact List.prefix_append _ _
  | list numItems => exact extends_fetch pos item w
  | sql => exact extends_fetch pos item w

theorem extends_action (a : Action) (pos : ℕ) (w : World σ) : Extends w (a.exec e pos w).2 := by
  have hexecute := extends_execute (e := e) pos w
  unfold Action.exec
  generalize w.execute e pos = r at hexecute
  obtain ⟨rc, w'⟩ := r
  cases a <;> first | exact Extends.refl w | (cases rc <;> exact hexecute)

theorem extends_andThen {w : World σ} {r : Outcome × World σ}
    {next : World σ → Outcome × World σ} (h : Extends w r.2)
    (hnext : ∀ w, Extends w (next w).2) : Extends w (andThen r next).2 := by
  obtain ⟨outcome, w'⟩ := r
  cases outcome with
  | normal => exact h.trans (hnext w')
  | _ => exact h

theorem extends_repeatBody {body : World σ → Outcome × World σ}
    (hbody : ∀ w, Extends w (body w).2) (n : ℕ) (w : World σ) :
    Extends w (repeatBody body n w).2 := by
  induction n generalizing w with
  | zero => exact Extends.refl w
  | succ n ih =>
      unfold repeatBody
      cases (body w).1.afterBody with
      | none => exact (hbody w).trans (ih _)
      | some outcome => exact hbody w

theorem extends_forEachItem {pos : ℕ} {body : World σ → Outcome × World σ}
    (hbody : ∀ w, Extends w (body w).2) (n item : ℕ) (w : World σ) :
    Extends w (forEachItem e pos body n item w).2 := by
  induction n generalizing item w with
  | zero => exact Extends.refl w
  | succ n ih =>
      have hfetch := extends_retrieve (e := e) pos item w
      unfold forEachItem
      generalize w.retrieve e pos item = r at hfetch
      obtain ⟨fetch, next, w'⟩ := r
      cases fetch with
      | row =>
          dsimp only
          cases (body w').1.afterBody with
          | none => exact hfetch.trans ((hbody w').trans (ih _ _))
          | some outcome => exact hfetch.trans (hbody w')
      | done => exact hfetch
      | failed rc => exact hfetch

mutual

/-- **A sequence adds to what has run.** -/
theorem Block.extends_exec (n : ℕ) : ∀ (b : Block) (pos : ℕ) (w : World σ),
    Extends w (b.exec e n pos w).2
  | .nil, _, w => Extends.refl w
  | .action a next, pos, w => extends_andThen (extends_action a pos w) (next.extends_exec n _)
  | .cond body rest next, pos, w => by
      have htest := extends_test (e := e) pos w
      unfold Block.exec
      generalize w.test e pos = r at htest
      obtain ⟨result, w'⟩ := r
      match result with
      | .error rc => exact htest
      | .ok true =>
          exact htest.trans (extends_andThen (body.extends_exec n _ _) (next.extends_exec n _))
      | .ok false =>
          exact htest.trans (extends_andThen (rest.extends_exec n _ _) (next.extends_exec n _))
  | .loop body next, pos, w =>
      extends_andThen (extends_repeatBody (body.extends_exec n _) n w) (next.extends_exec n _)
  | .foreach body next, pos, w =>
      extends_andThen (extends_forEachItem (body.extends_exec n _) n 0 w) (next.extends_exec n _)
  | .brk _ _, _, w => Extends.refl w
  | .cont _ _, _, w => Extends.refl w

/-- The other branches add to what has run. -/
theorem Branches.extends_exec (n : ℕ) : ∀ (r : Branches) (pos : ℕ) (w : World σ),
    Extends w (r.exec e n pos w).2
  | .endif, _, w => Extends.refl w
  | .elseif body rest, pos, w => by
      have htest := extends_test (e := e) pos w
      unfold Branches.exec
      generalize w.test e pos = r at htest
      obtain ⟨result, w'⟩ := r
      match result with
      | .error rc => exact htest
      | .ok true => exact htest.trans (body.extends_exec n _ _)
      | .ok false => exact htest.trans (rest.extends_exec n _ _)
  | .els body, pos, w => body.extends_exec n _ _

end

theorem finishCall_ran (r : Ended × World σ) :
    (finishCall e World.state World.put r).2.ran = r.2.ran := by
  obtain ⟨x, w⟩ := r
  cases x <;> rfl

/-- A call adds to what has run. -/
theorem extends_call (b : Block) (n : ℕ) (w : World σ) : Extends w (b.call e n w).2 := by
  unfold Block.call withSavepoint
  generalize e.savepoint w.state = r
  obtain ⟨rc, state⟩ := r
  cases rc <;> try exact Extends.refl w
  have hexec : Extends w (b.exec e n 0 (w.put (e.copyProcedureParameters state))).2 :=
    b.extends_exec n 0 (w.put (e.copyProcedureParameters state))
  dsimp only
  unfold Extends
  rw [finishCall_ran]
  exact hexec

/-- Later calls add to what has run. -/
theorem extends_runCalls (b : Block) (n i : ℕ) (fs : List (σ → σ)) (w : World σ) :
    Extends w (runCalls World.change (fun _ => b.call e n) i fs w).2 := by
  induction fs generalizing i w with
  | nil => exact Extends.refl w
  | cons f fs ih =>
      have hcall : Extends w (b.call e n (w.change f)).2 := extends_call b n (w.change f)
      unfold runCalls
      generalize b.call e n (w.change f) = r at hcall
      obtain ⟨rc, w'⟩ := r
      cases rc with
      | none => exact hcall
      | some rc => exact hcall.trans (ih (i + 1) w')

/-! ## Levels -/

/-- BREAK and CONTINUE of one of the loops around. -/
def Outcome.Within (depth : ℕ) : Outcome → Prop
  | .brk level => level < depth
  | .cont level => level < depth
  | _ => True

/-- A loop is gone where it ends. -/
theorem within_afterBody {depth : ℕ} {outcome outcome' : Outcome}
    (h : outcome.Within (depth + 1)) (hafter : outcome.afterBody = some outcome') :
    outcome'.Within depth := by
  match outcome with
  | .normal => cases hafter
  | .cont 0 => cases hafter
  | .brk 0 => cases hafter; trivial
  | .brk (level + 1) => cases hafter; exact Nat.lt_of_succ_lt_succ h
  | .cont (level + 1) => cases hafter; exact Nat.lt_of_succ_lt_succ h
  | .ended x => cases hafter; trivial

theorem within_action (depth : ℕ) (a : Action) (pos : ℕ) (w : World σ) :
    (a.exec e pos w).1.Within depth := by
  unfold Action.exec
  generalize w.execute e pos = r
  obtain ⟨rc, w'⟩ := r
  cases a <;> first | trivial | (cases rc <;> trivial)

theorem within_andThen {depth : ℕ} {r : Outcome × World σ}
    {next : World σ → Outcome × World σ} (h : r.1.Within depth)
    (hnext : ∀ w, (next w).1.Within depth) : (andThen r next).1.Within depth := by
  obtain ⟨outcome, w'⟩ := r
  cases outcome with
  | normal => exact hnext w'
  | _ => exact h

theorem within_repeatBody {depth : ℕ} {body : World σ → Outcome × World σ}
    (hbody : ∀ w, (body w).1.Within (depth + 1)) (n : ℕ) (w : World σ) :
    (repeatBody body n w).1.Within depth := by
  induction n generalizing w with
  | zero => trivial
  | succ n ih =>
      unfold repeatBody
      cases hafter : (body w).1.afterBody with
      | none => exact ih _
      | some outcome => exact within_afterBody (hbody w) hafter

theorem within_forEachItem {depth pos : ℕ} {body : World σ → Outcome × World σ}
    (hbody : ∀ w, (body w).1.Within (depth + 1)) (n item : ℕ) (w : World σ) :
    (forEachItem e pos body n item w).1.Within depth := by
  induction n generalizing item w with
  | zero => trivial
  | succ n ih =>
      unfold forEachItem
      generalize w.retrieve e pos item = r
      obtain ⟨fetch, next, w'⟩ := r
      cases fetch with
      | row =>
          dsimp only
          cases hafter : (body w').1.afterBody with
          | none => exact ih _ _
          | some outcome => exact within_afterBody (hbody w') hafter
      | done => trivial
      | failed rc => trivial

mutual

/-- **A well-nested sequence leaves no more loops than there are.** -/
theorem Block.within_exec (n : ℕ) : ∀ (b : Block) {depth : ℕ} (_ : b.WellNested depth) (pos : ℕ)
    (w : World σ), (b.exec e n pos w).1.Within depth
  | .nil, _, _, _, _ => trivial
  | .action a next, _, h, pos, w =>
      within_andThen (within_action _ a pos w) (next.within_exec n h _)
  | .cond body rest next, _, h, pos, w => by
      unfold Block.exec
      generalize w.test e pos = r
      obtain ⟨result, w'⟩ := r
      match result with
      | .error rc => trivial
      | .ok true =>
          exact within_andThen (body.within_exec n h.1 _ _) (next.within_exec n h.2.2 _)
      | .ok false =>
          exact within_andThen (rest.within_exec n h.2.1 _ _) (next.within_exec n h.2.2 _)
  | .loop body next, _, h, pos, w =>
      within_andThen (within_repeatBody (body.within_exec n h.1 _) n w)
        (next.within_exec n h.2 _)
  | .foreach body next, _, h, pos, w =>
      within_andThen (within_forEachItem (body.within_exec n h.1 _) n 0 w)
        (next.within_exec n h.2 _)
  | .brk _ _, _, h, _, _ => h.1
  | .cont _ _, _, h, _, _ => h.1

/-- Well-nested branches leave no more loops than there are. -/
theorem Branches.within_exec (n : ℕ) : ∀ (r : Branches) {depth : ℕ} (_ : r.WellNested depth)
    (pos : ℕ) (w : World σ), (r.exec e n pos w).1.Within depth
  | .endif, _, _, _, _ => trivial
  | .elseif body rest, _, h, pos, w => by
      unfold Branches.exec
      generalize w.test e pos = r
      obtain ⟨result, w'⟩ := r
      match result with
      | .error rc => trivial
      | .ok true => exact body.within_exec n h.1 _ _
      | .ok false => exact rest.within_exec n h.2 _ _
  | .els body, _, h, pos, w => body.within_exec n h _ _

end

end StoredProc
end AergoLite
