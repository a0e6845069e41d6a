/-
# FOREACH over a list

The values that FOREACH goes through: a variable, or the list that is written in the procedure.
The body is executed once for each element, with the loop variables set from it, exactly if the
operand has a list, FOREACH begins with the first element and each element has as many values as
there are loop variables (`meets_iff`).  An empty list has no element to begin with.

Where the variable has no list, `executeForeachCommand` sets an error message but no result code,
and the body is executed for ever (`runs_for_ever`).  A SET that stores the rows of a statement
leaves such a variable where there are no rows (`meets_set_iff`).
-/

import AergoLite.StoredProc.Refinement

namespace AergoLite
namespace StoredProc

/-- `sqlite3_value`; a list is a value with a pointer to it. -/
inductive Value (α : Type)
  | null
  | scalar (v : α)
  | list (items : List (Value α))

variable {ν α W : Type}

/-- `get_list_from_value`. -/
def Value.getList : Value α → Option (List (Value α))
  | .list items => some items
  | _ => none

/-- The values of an element: those of a list, or the element itself. -/
def Value.columns (v : Value α) : List (Value α) := v.getList.getD [v]

/-- What a FOREACH goes through: `input_var`, `input_list`, or a statement. -/
inductive Operand (ν α : Type)
  | var (name : ν)
  | list (items : List (Value α))
  | sql

/-- The operands of the FOREACH commands, and their loop variables. -/
structure Foreachs (ν α : Type) where
  operand : ℕ → Operand ν α
  vars : ℕ → List ν

/-- The variables of the procedure, and the rest of the state. -/
structure Locals (ν α W : Type) where
  vars : ν → Value α
  rest : W

section Definitions

variable [DecidableEq ν]

/-- The values are stored in the variables, one after the other. -/
def storeColumns (vars : List ν) (columns : List (Value α)) (s : Locals ν α W) : Locals ν α W :=
  { s with vars := (vars.zip columns).foldl (fun f x => Function.update f x.1 x.2) s.vars }

/-- The value of an operand; that of a statement is not a list. -/
def Operand.value (s : Locals ν α W) : Operand ν α → Value α
  | .var name => s.vars name
  | .list items => .list items
  | .sql => .null

/-- An engine whose FOREACH commands go through the values of their operands. -/
def Engine.withLists (e : Engine (Locals ν α W)) (f : Foreachs ν α) : Engine (Locals ν α W) :=
  { e with
    input := fun pos s =>
      match f.operand pos with
      | .sql => .sql
      | operand =>
        match (operand.value s).getList with
        | none => .invalid
        | some items => .list items.length
    store := fun pos item s =>
      match f.operand pos with
      | .sql => e.store pos item s
      | operand =>
        match ((operand.value s).getList.getD [])[item]? with
        | none => (.error, s)
        | some row =>
          if row.columns.length ≠ (f.vars pos).length then (.error, s)
          else (.ok, storeColumns (f.vars pos) row.columns s) }

/-- The value that the rows of a statement are stored as. -/
def Value.ofRows (rows : List (List α)) : Value α :=
  if rows = [] then .null
  else .list (rows.map fun row => .list (row.map Value.scalar))

/-- `executeSetCommand`, of a statement whose rows are stored as a list. -/
def setRows (name : ν) (rows : List (List α)) (s : Locals ν α W) : Locals ν α W :=
  { s with vars := Function.update s.vars name (.ofRows rows) }

/-- A loop over values: its first command at `pos` and its end at `last`. -/
structure ForeachLoop (ν α W : Type) [DecidableEq ν] where
  base : Engine (Locals ν α W)
  foreachs : Foreachs ν α
  cmds : List Command
  pos : ℕ
  last : ℕ
  command : cmds[pos]? = some ⟨.foreach, 0, last⟩
  pos_lt : pos < last
  operand_ne : foreachs.operand pos ≠ .sql

namespace ForeachLoop

variable (l : ForeachLoop ν α W)

/-- The engine. -/
def engine : Engine (Locals ν α W) := l.base.withLists l.foreachs

/-- The value of the operand. -/
def operand (s : Execution (Locals ν α W)) : Value α :=
  (l.foreachs.operand l.pos).value s.world.state

/-- The loop variables. -/
def vars : List ν := l.foreachs.vars l.pos

/-- The first command of the loop is executed. -/
def head (s : Execution (Locals ν α W)) : Next × Execution (Locals ν α W) :=
  executeCommand l.engine l.cmds l.pos ⟨.foreach, 0, l.last⟩ s

/-- The commands from a position on are executed until the loop is at its first command again. -/
inductive BodyRun : ℕ → Execution (Locals ν α W) → Execution (Locals ν α W) → Prop
  | back (s : Execution (Locals ν α W)) : BodyRun l.pos s s
  | step {p p' : ℕ} {cmd : Command} {s s' t : Execution (Locals ν α W)} (hp : p ≠ l.pos)
      (hcmd : l.cmds[p]? = some cmd)
      (hexec : executeCommand l.engine l.cmds p cmd s = (.goto p', s')) (h : BodyRun p' s' t) :
      BodyRun p s t

/-- The body returns to the first command whenever it is executed, up to a number of times, and
leaves the operand as it was. -/
def Returns : ℕ → Execution (Locals ν α W) → Prop
  | 0, _ => True
  | n + 1, s => ∀ t, l.head s = (.goto (l.pos + 1), t) →
    ∃ s', l.BodyRun (l.pos + 1) t s' ∧ l.operand s' = l.operand s ∧ Returns n s'

/-- **The body is executed for the elements**, one after the other, with the loop variables set
from them, and the loop ends. -/
inductive Iterates : List (Value α) → Execution (Locals ν α W) → Prop
  | done {s t : Execution (Locals ν α W)} (h : l.head s = (.goto (l.last + 1), t)) : Iterates [] s
  | next {item : Value α} {items : List (Value α)} {s t s' : Execution (Locals ν α W)}
      (h : l.head s = (.goto (l.pos + 1), t)) (hlength : item.columns.length = l.vars.length)
      (hvars : t.world.state = storeColumns l.vars item.columns s.world.state)
      (hbody : l.BodyRun (l.pos + 1) t s') (hrest : Iterates items s') : Iterates (item :: items) s

/-- **What a FOREACH is to do**: it goes through its list, and fails without one. -/
def Meets (s : Execution (Locals ν α W)) : Prop :=
  match (l.operand s).getList with
  | some items => l.Iterates items s
  | none => ∃ rc t, rc ≠ .ok ∧ l.head s = (.ended (.error rc), t)

variable {l} {s : Execution (Locals ν α W)}

theorem input_eq (state : Locals ν α W) : l.engine.input l.pos state =
    match ((l.foreachs.operand l.pos).value state).getList with
    | none => .invalid
    | some items => .list items.length := by
  have hne := l.operand_ne
  dsimp only [engine, Engine.withLists]
  cases hoperand : l.foreachs.operand l.pos with
  | sql => exact absurd hoperand hne
  | var name => rfl
  | list items => rfl

theorem store_eq (item : ℕ) (state : Locals ν α W) : l.engine.store l.pos item state =
    match (((l.foreachs.operand l.pos).value state).getList.getD [])[item]? with
    | none => (.error, state)
    | some row =>
      if row.columns.length ≠ l.vars.length then (.error, state)
      else (.ok, storeColumns l.vars row.columns state) := by
  have hne := l.operand_ne
  dsimp only [engine, Engine.withLists]
  cases hoperand : l.foreachs.operand l.pos with
  | sql => exact absurd hoperand hne
  | var name => rfl
  | list items => rfl

/-- Without a list the body is executed. -/
theorem head_invalid (h : (l.operand s).getList = none) :
    ∃ t, l.head s = (.goto (l.pos + 1), t) ∧ t.world.state = s.world.state := by
  have hinput := @input_eq ν α W _ l s.world.state
  rw [show ((l.foreachs.operand l.pos).value s.world.state).getList = none from h] at hinput
  unfold head executeCommand World.fetch executeForeachCommand
  rw [hinput]
  exact ⟨_, rfl, rfl⟩

/-- After the last element the loop ends. -/
theorem head_done {items : List (Value α)} (h : (l.operand s).getList = some items)
    (hlength : items.length ≤ s.currentItem l.pos) : ∃ t, l.head s = (.goto (l.last + 1), t) := by
  have hinput := @input_eq ν α W _ l s.world.state
  rw [show ((l.foreachs.operand l.pos).value s.world.state).getList = some items from h] at hinput
  unfold head executeCommand World.fetch executeForeachCommand
  rw [hinput]
  dsimp only
  rw [if_pos hlength]
  exact ⟨_, rfl⟩

/-- **An element is stored in the loop variables**, and the body is executed. -/
theorem head_next {items : List (Value α)} {row : Value α}
    (h : (l.operand s).getList = some items) (hrow : items[s.currentItem l.pos]? = some row)
    (hfits : row.columns.length = l.vars.length) :
    ∃ t, l.head s = (.goto (l.pos + 1), t) ∧
      t.world.state = storeColumns l.vars row.columns s.world.state ∧
      t.currentItem l.pos = s.currentItem l.pos + 1 := by
  have hvalue : ((l.foreachs.operand l.pos).value s.world.state).getList = some items := h
  have hinput := @input_eq ν α W _ l s.world.state
  have hstore := @store_eq ν α W _ l (s.currentItem l.pos) s.world.state
  rw [hvalue] at hinput hstore
  rw [Option.getD_some, hrow] at hstore
  dsimp only at hstore
  rw [if_neg (not_not.2 hfits)] at hstore
  have hlt : ¬items.length ≤ s.currentItem l.pos :=
    Nat.not_le.2 (List.getElem?_eq_some_iff.1 hrow).1
  unfold head executeCommand World.fetch executeForeachCommand
  rw [hinput]
  dsimp only
  rw [if_neg hlt, storeRow, hstore]
  exact ⟨_, rfl, rfl, Function.update_self _ _ _⟩

/-- An element with another number of values is an error. -/
theorem head_misfit {items : List (Value α)} {row : Value α}
    (h : (l.operand s).getList = some items) (hrow : items[s.currentItem l.pos]? = some row)
    (hfits : row.columns.length ≠ l.vars.length) :
    ∃ t, l.head s = (.ended (.error .error), t) := by
  have hvalue : ((l.foreachs.operand l.pos).value s.world.state).getList = some items := h
  have hinput := @input_eq ν α W _ l s.world.state
  have hstore := @store_eq ν α W _ l (s.currentItem l.pos) s.world.state
  rw [hvalue] at hinput hstore
  rw [Option.getD_some, hrow] at hstore
  dsimp only at hstore
  rw [if_pos hfits] at hstore
  have hlt : ¬items.length ≤ s.currentItem l.pos :=
    Nat.not_le.2 (List.getElem?_eq_some_iff.1 hrow).1
  unfold head executeCommand World.fetch executeForeachCommand
  rw [hinput]
  dsimp only
  rw [if_neg hlt, storeRow, hstore]
  exact ⟨_, rfl⟩

/-- The way back to the first command is determined. -/
theorem BodyRun.unique {p : ℕ} {s t t' : Execution (Locals ν α W)} (h : l.BodyRun p s t)
    (h' : l.BodyRun p s t') : t = t' := by
  induction h with
  | back s =>
      cases h' with
      | back => rfl
      | step hp => exact absurd rfl hp
  | step hp hcmd hexec _ ih =>
      cases h' with
      | back => exact absurd rfl hp
      | step hp' hcmd' hexec' hrest =>
          obtain rfl := Option.some.inj (hcmd.symm.trans hcmd')
          obtain ⟨hgoto, rfl⟩ := Prod.mk.inj (hexec.symm.trans hexec')
          cases hgoto
          exact ih hrest

/-- A command leaves the position of every FOREACH but itself. -/
theorem currentItem_executeCommand {p q : ℕ} (hq : p ≠ q) (cmd : Command)
    (s : Execution (Locals ν α W)) :
    (executeCommand l.engine l.cmds p cmd s).2.currentItem q = s.currentItem q := by
  unfold executeCommand
  generalize s.world.execute l.engine p = r
  generalize s.world.test l.engine p = r'
  generalize s.world.fetch l.engine p (s.currentItem p) = r''
  obtain ⟨rc, w⟩ := r
  obtain ⟨result, w'⟩ := r'
  obtain ⟨fetch, next, w''⟩ := r''
  cases cmd.type with
  | declare | endif | loop | endloop | cont | brk => rfl
  | set | statement | assert | ret | raise => cases rc <;> rfl
  | cond => obtain _ | _ | _ := result <;> rfl
  | elseif => cases s.executed cmd.relatedCmd <;> obtain _ | _ | _ := result <;> rfl
  | els => cases s.executed cmd.relatedCmd <;> rfl
  | foreach => cases fetch <;> exact Function.update_of_ne hq.symm _ _

theorem BodyRun.currentItem {p : ℕ} {s t : Execution (Locals ν α W)} (h : l.BodyRun p s t) :
    t.currentItem l.pos = s.currentItem l.pos := by
  induction h with
  | back s => rfl
  | @step p p' cmd s s' t hp _ hexec _ ih =>
      have hkept := currentItem_executeCommand (l := l) hp cmd s
      rw [hexec] at hkept
      exact ih.trans hkept

/-- The body returns whenever it is executed, and leaves the operand as it was. -/
def BodyReturns (l : ForeachLoop ν α W) (s : Execution (Locals ν α W)) : Prop :=
  ∀ n, l.Returns n s

/-- After a round the body still returns. -/
theorem BodyReturns.round {t : Execution (Locals ν α W)} (h : l.BodyReturns s)
    (hhead : l.head s = (.goto (l.pos + 1), t)) :
    ∃ s', l.BodyRun (l.pos + 1) t s' ∧ l.operand s' = l.operand s ∧ l.BodyReturns s' := by
  obtain ⟨s', hbody, hoperand, -⟩ := h 1 t hhead
  refine ⟨s', hbody, hoperand, fun n => ?_⟩
  obtain ⟨s'', hbody', -, hreturns⟩ := h (n + 1) t hhead
  rwa [hbody.unique hbody']

/-- **What a loop that ends has gone through**: the elements from its position on, which all have
as many values as there are loop variables. -/
theorem Iterates.length {rest all : List (Value α)} (h : l.Iterates rest s)
    (hreturns : l.BodyReturns s) (hlist : (l.operand s).getList = some all) :
    rest.length = all.length - s.currentItem l.pos ∧
      ∀ item ∈ all.drop (s.currentItem l.pos), item.columns.length = l.vars.length := by
  induction h with
  | @done s t hhead =>
      have hle : all.length ≤ s.currentItem l.pos := by
        by_contra hlt
        rw [Nat.not_le] at hlt
        have hrow := List.getElem?_eq_getElem hlt
        -- the body would be executed, or the element refused
        by_cases hfits : (all[s.currentItem l.pos]).columns.length = l.vars.length
        · obtain ⟨t', hnext, -⟩ := head_next hlist hrow hfits
          obtain ⟨hgoto, -⟩ := Prod.mk.inj (hhead.symm.trans hnext)
          have hpos := l.pos_lt
          injection hgoto with hgoto
          omega
        · obtain ⟨t', hended⟩ := head_misfit hlist hrow hfits
          cases (Prod.mk.inj (hhead.symm.trans hended)).1
      rw [List.drop_eq_nil_of_le hle]
      exact ⟨by rw [List.length_nil]; omega, fun _ hmem => absurd hmem List.not_mem_nil⟩
  | @next item items s t s' hhead hlength hvars hbody hrest ih =>
      have hlt : s.currentItem l.pos < all.length := by
        by_contra hle
        rw [Nat.not_lt] at hle
        obtain ⟨t', hdone⟩ := head_done hlist hle
        obtain ⟨hgoto, -⟩ := Prod.mk.inj (hhead.symm.trans hdone)
        have hpos := l.pos_lt
        injection hgoto with hgoto
        omega
      have hrow := List.getElem?_eq_getElem hlt
      have hfits : (all[s.currentItem l.pos]).columns.length = l.vars.length := by
        by_contra hfits
        obtain ⟨t', hended⟩ := head_misfit hlist hrow hfits
        cases (Prod.mk.inj (hhead.symm.trans hended)).1
      obtain ⟨t', hnext, -, hitem⟩ := head_next hlist hrow hfits
      obtain rfl := (Prod.mk.inj (hhead.symm.trans hnext)).2
      obtain ⟨s'', hbody', hoperand, hreturns'⟩ := hreturns.round hhead
      obtain rfl := hbody.unique hbody'
      obtain ⟨hcount, hall⟩ := ih hreturns' (hoperand ▸ hlist)
      rw [hbody.currentItem, hitem] at hcount hall
      refine ⟨by rw [List.length_cons]; omega, fun row hmem => ?_⟩
      rw [List.drop_eq_getElem_cons hlt] at hmem
      rcases List.mem_cons.1 hmem with rfl | hmem
      · exact hfits
      · exact hall row hmem

/-- **The elements from the position on are gone through**, if each has as many values as there
are loop variables. -/
theorem iterates_drop {all : List (Value α)} (m : ℕ) {s : Execution (Locals ν α W)}
    (hreturns : l.BodyReturns s) (hlist : (l.operand s).getList = some all)
    (hm : all.length - s.currentItem l.pos = m)
    (hfits : ∀ item ∈ all.drop (s.currentItem l.pos), item.columns.length = l.vars.length) :
    l.Iterates (all.drop (s.currentItem l.pos)) s := by
  induction m generalizing s with
  | zero =>
      have hle : all.length ≤ s.currentItem l.pos := by omega
      obtain ⟨t, hdone⟩ := head_done hlist hle
      rw [List.drop_eq_nil_of_le hle]
      exact .done hdone
  | succ m ih =>
      have hlt : s.currentItem l.pos < all.length := by omega
      rw [List.drop_eq_getElem_cons hlt] at hfits ⊢
      have hrow := List.getElem?_eq_getElem hlt
      have hfirst := hfits _ List.mem_cons_self
      obtain ⟨t, hnext, hvars, hitem⟩ := head_next hlist hrow hfirst
      obtain ⟨s', hbody, hoperand, hreturns'⟩ := hreturns.round hnext
      have hposition : s'.currentItem l.pos = s.currentItem l.pos + 1 :=
        hbody.currentItem.trans hitem
      refine .next hnext hfirst hvars hbody ?_
      rw [← hposition]
      exact ih hreturns' (hoperand ▸ hlist) (by omega) fun item hmem =>
        hfits item (List.mem_cons_of_mem _ (hposition ▸ hmem))

/-- The loop is still running after the body if it is so at its first command. -/
theorem BodyRun.running {p fuel : ℕ} {s t : Execution (Locals ν α W)} (h : l.BodyRun p s t)
    (hrest : ∀ m ≤ fuel, (commandLoop l.engine l.cmds m l.pos t).1 = .running) :
    (commandLoop l.engine l.cmds fuel p s).1 = .running := by
  induction h generalizing fuel with
  | back s => exact hrest fuel le_rfl
  | step _ hcmd hexec _ ih =>
      cases fuel with
      | zero => rfl
      | succ fuel =>
          rw [commandLoop, hcmd]
          dsimp only
          rw [hexec]
          exact ih fun m hm => hrest m (by omega)

/-- **Without a list the loop runs for ever.** -/
theorem runs_for_ever (fuel : ℕ) (hreturns : l.BodyReturns s)
    (hlist : (l.operand s).getList = none) :
    (commandLoop l.engine l.cmds fuel l.pos s).1 = .running := by
  induction fuel using Nat.strong_induction_on generalizing s with
  | _ fuel ih =>
      cases fuel with
      | zero => rfl
      | succ fuel =>
          obtain ⟨t, hhead, -⟩ := head_invalid hlist
          obtain ⟨s', hbody, hoperand, hreturns'⟩ := hreturns.round hhead
          rw [commandLoop, l.command]
          dsimp only
          rw [show executeCommand l.engine l.cmds l.pos ⟨.foreach, 0, l.last⟩ s =
            (.goto (l.pos + 1), t) from hhead]
          exact hbody.running fun m hm => ih m (by omega) hreturns' (hoperand ▸ hlist)

/-- **When the loop does what it is to do**: the operand is a list, and if it is not empty,
FOREACH begins with its first element and each element has as many values as there are loop
variables. -/
theorem meets_iff (hreturns : l.BodyReturns s) :
    l.Meets s ↔ ∃ items, (l.operand s).getList = some items ∧
      (items = [] ∨ s.currentItem l.pos = 0 ∧
        ∀ item ∈ items, item.columns.length = l.vars.length) := by
  unfold Meets
  cases hlist : (l.operand s).getList with
  | none =>
      constructor
      · rintro ⟨rc, t, -, hended⟩
        obtain ⟨t', hgoto, -⟩ := head_invalid hlist
        cases (Prod.mk.inj (hended.symm.trans hgoto)).1
      · rintro ⟨items, hnone, -⟩
        cases hnone
  | some items =>
      constructor
      · intro hiterates
        obtain ⟨hlength, hfits⟩ := hiterates.length hreturns hlist
        refine ⟨items, rfl, ?_⟩
        by_cases hzero : s.currentItem l.pos = 0
        · rw [hzero, List.drop_zero] at hfits
          exact .inr ⟨hzero, hfits⟩
        · exact .inl (List.length_eq_zero_iff.1 (by omega))
      · rintro ⟨items', heq, rfl | ⟨hzero, hfits⟩⟩
        · obtain rfl := Option.some.inj heq
          obtain ⟨t, hdone⟩ := head_done hlist (Nat.zero_le _)
          exact .done hdone
        · obtain rfl := Option.some.inj heq
          have hdrop : items.drop (s.currentItem l.pos) = items := by rw [hzero, List.drop_zero]
          have hiterates := iterates_drop _ hreturns hlist rfl (hdrop.symm ▸ hfits)
          rwa [hdrop] at hiterates

/-- **After a SET that stores the rows of a statement** the loop goes through them, unless there
are none. -/
theorem meets_set_iff {name : ν} {rows : List (List α)}
    (hoperand : l.foreachs.operand l.pos = .var name)
    (hreturns : l.BodyReturns (s.change (setRows name rows))) :
    l.Meets (s.change (setRows name rows)) ↔
      rows ≠ [] ∧ s.currentItem l.pos = 0 ∧ ∀ row ∈ rows, row.length = l.vars.length := by
  have hvalue : l.operand (s.change (setRows name rows)) = .ofRows rows := by
    unfold operand
    rw [hoperand]
    exact Function.update_self _ _ _
  rw [meets_iff hreturns, hvalue]
  cases rows with
  | nil =>
      constructor
      · rintro ⟨items, hnone, -⟩
        cases hnone
      · exact fun h => absurd rfl h.1
  | cons row rows =>
      have hlist : (Value.ofRows (row :: rows)).getList =
          some ((row :: rows).map fun row => .list (row.map Value.scalar)) := rfl
      have hcolumns : (∀ item ∈ (row :: rows).map fun row => Value.list (row.map Value.scalar),
          item.columns.length = l.vars.length) ↔
            ∀ r ∈ row :: rows, r.length = l.vars.length := by
        rw [List.forall_mem_map]
        refine forall₂_congr fun r _ => ?_
        rw [show (Value.list (r.map Value.scalar)).columns = r.map Value.scalar from rfl,
          List.length_map]
      rw [hlist]
      constructor
      · rintro ⟨items, heq, hnil | ⟨hzero, hfits⟩⟩
        · obtain rfl := Option.some.inj heq
          cases hnil
        · obtain rfl := Option.some.inj heq
          exact ⟨List.cons_ne_nil _ _, hzero, hcolumns.1 hfits⟩
      · rintro ⟨-, hzero, hfits⟩
        exact ⟨_, rfl, .inr ⟨hzero, hcolumns.2 hfits⟩⟩

end ForeachLoop

open ForeachLoop

/-- **What a FOREACH over values does.**  Let its body return whenever it is executed, and leave
the operand as it is.  The loop goes through the elements exactly if the operand is a list, and,
if it is not empty, FOREACH begins with its first element and each element has as many values as
there are loop variables.  If the operand is not a list, the loop does not end. -/
theorem foreach_values (l : ForeachLoop ν α W) (s : Execution (Locals ν α W))
    (hreturns : l.BodyReturns s) :
    (l.Meets s ↔ ∃ items, (l.operand s).getList = some items ∧
      (items = [] ∨ s.currentItem l.pos = 0 ∧
        ∀ item ∈ items, item.columns.length = l.vars.length)) ∧
    ((l.operand s).getList = none →
      ∀ fuel, (commandLoop l.engine l.cmds fuel l.pos s).1 = .running) :=
  ⟨meets_iff hreturns, fun hlist fuel => runs_for_ever fuel hreturns hlist⟩

end Definitions

/-- `FOREACH @item IN <operand> DO END LOOP;`, where the loop variable is `true` and other
variables are `false`. -/
def emptyLoop (operand : Operand Bool ℕ) (h : operand ≠ .sql) : ForeachLoop Bool ℕ Unit where
  base :=
    { execute := fun _ s => (.ok, s)
      expression := fun _ s => (.ok true, s)
      input := fun _ _ => .sql
      prepare := fun _ s => (.ok, s)
      step := fun _ s => (.done, s)
      store := fun _ _ s => (.ok, s)
      savepoint := fun s => (.ok, s)
      copyProcedureParameters := id
      release := fun _ rc s => (rc, s) }
  foreachs := ⟨fun _ => operand, fun _ => [true]⟩
  cmds := [⟨.foreach, 0, 1⟩, ⟨.endloop, 0, 0⟩]
  pos := 0
  last := 1
  command := rfl
  pos_lt := Nat.one_pos
  operand_ne := h

/-- An empty body returns. -/
theorem bodyReturns_emptyLoop {operand : Operand Bool ℕ} {h : operand ≠ .sql}
    {I : Execution (Locals Bool ℕ Unit) → Prop}
    (hI : ∀ s t, I s → (emptyLoop operand h).head s = (.goto 1, t) →
      I t ∧ (emptyLoop operand h).operand t = (emptyLoop operand h).operand s)
    {s : Execution (Locals Bool ℕ Unit)} (hs : I s) : (emptyLoop operand h).BodyReturns s := by
  intro n
  induction n generalizing s with
  | zero => exact trivial
  | succ n ih =>
      intro t ht
      obtain ⟨hIt, hoperand⟩ := hI s t hs ht
      exact ⟨t, .step Nat.one_ne_zero rfl rfl (.back t), hoperand, ih hIt⟩

/-- The hypothesis holds of a list with two elements. -/
theorem foreach_values_twoElements :
    (emptyLoop (.list [.scalar 1, .scalar 2]) nofun).Meets (.parsed ⟨fun _ => .null, ()⟩) :=
  (foreach_values _ _ (bodyReturns_emptyLoop (I := fun _ => True)
    (fun _ _ _ _ => ⟨trivial, rfl⟩) trivial)).1.2
    ⟨_, rfl, .inr ⟨rfl, by simp [Value.columns, Value.getList, emptyLoop, ForeachLoop.vars]⟩⟩

/-- **A variable without a list.**  FOREACH does not fail, and its body is executed. -/
theorem null_not_met :
    ∃ s, (emptyLoop (.var false) nofun).operand s = .null ∧
      (emptyLoop (.var false) nofun).BodyReturns s ∧ ¬(emptyLoop (.var false) nofun).Meets s ∧
        ∃ t, (emptyLoop (.var false) nofun).head s = (.goto 1, t) := by
  have hreturns : (emptyLoop (.var false) nofun).BodyReturns (.parsed ⟨fun _ => .null, ()⟩) := by
    refine bodyReturns_emptyLoop
      (I := fun s => (emptyLoop (.var false) nofun).operand s = .null) (fun s t hs ht => ?_) rfl
    obtain ⟨t', ht', hstate⟩ := ForeachLoop.head_invalid (l := emptyLoop (.var false) nofun) (s := s)
      (congrArg Value.getList hs)
    obtain rfl := (Prod.mk.inj (ht.symm.trans ht')).2
    have hoperand : (emptyLoop (.var false) nofun).operand t =
        (emptyLoop (.var false) nofun).operand s := congrArg (fun state => state.vars false) hstate
    exact ⟨hoperand.trans hs, hoperand⟩
  refine ⟨_, rfl, hreturns, fun hmeets => ?_, _, rfl⟩
  obtain ⟨items, hnone, -⟩ := (ForeachLoop.meets_iff hreturns).1 hmeets
  cases hnone

end StoredProc
end AergoLite
