/-
# The rows that a procedure returns

A CALL is compiled to four opcodes, and RETURN rewrites two of them.  `executeReturnCommand` puts
the register array of the statement aside, and makes one for the longest row.  Variables are moved
to it at once.  Of a list, `sqlite3VdbeNextResult` fetches one row after the other; the procedure
has the list and the position in it.

The items that are lists are copied to the registers, but an item that is a value is moved there,
and the list has NULL in its place.  A list that is written in the procedure, or in the CALL, is
used by the next execution as well (`literal_once`).  The columns of an expression are moved
through variables that have their names, so of two columns with one name the second one is NULL.
The number of columns is a 16-bit integer.

`exact_rows` is about the executions that do not return such values.
-/

import AergoLite.StoredProc.Commands
import AergoLite.Library.Transition

namespace AergoLite
namespace StoredProc

open Transition

/-! ## Values -/

/-- `Mem`: NULL, a value, or a pointer to a list. -/
inductive Cell (α : Type)
  | null
  | scalar (v : α)
  | list (address : ℕ)
  deriving DecidableEq, Repr

/-- The lists, by their addresses.  The lists of a list are finished before it is. -/
@[ext] structure Lists (α : Type) where
  items : ℕ → List (Cell α)
  below : ∀ a b, .list b ∈ items a → b < a

variable {ν α ι : Type}

/-- `is_list`. -/
def Cell.isList : Cell α → Bool
  | .list _ => true
  | _ => false

/-- The cells of a row: those of a list, or one value. -/
def Lists.row (l : Lists α) : Cell α → List (Cell α)
  | .list b => l.items b
  | c => [c]

/-- The item of a list is moved away. -/
def Lists.take (l : Lists α) (a pos : ℕ) : Lists α where
  items := Function.update l.items a ((l.items a).set pos .null)
  below b c h := by
    by_cases hb : b = a
    · subst hb
      rw [Function.update_self] at h
      rcases List.mem_or_eq_of_mem_set h with h | h
      · exact l.below b c h
      · exact nomatch h
    · rw [Function.update_of_ne hb] at h
      exact l.below b c h

/-- The other lists are freed. -/
def Lists.only (l : Lists α) (keep : ℕ → Bool) : Lists α where
  items a := if keep a then l.items a else []
  below a b h := by
    split_ifs at h
    · exact l.below a b h
    · exact absurd h List.not_mem_nil

/-! ## RETURN -/

/-- What a RETURN has: variables, each of them once, or an expression, with the names of its
columns. -/
inductive ReturnCommand (ν α : Type)
  | vars (names : List ν) (nodup : names.Nodup)
  | expression (columns : List (ν × Cell α))

/-- How the commands of a procedure end: with an error, at the end of the body, or at a RETURN
with these variables and lists; with what the savepoint is released with. -/
inductive Ending (ν α : Type)
  | failed (rc : Rc) (h : rc ≠ .ok)
  | finished (release : Rc)
  | returned (cmd : ReturnCommand ν α) (vars : ν → Cell α) (lists : Lists α) (release : Rc)

/-- A procedure and its call.  The commands get the lists that are written there, and do not change
them. -/
structure PreparedCall (ν α ι : Type) where
  /-- `input_list` of the commands and of the call. -/
  literal : ℕ → Bool
  written : Lists α
  /-- The commands up to RETURN, with the arguments and the database. -/
  run : ι → Lists α → Ending ν α
  keeps : ∀ {x l cmd vars l' rc}, run x l = .returned cmd vars l' rc →
    ∀ a, literal a → l'.items a = l.items a

/-- The values of a RETURN. -/
def ReturnCommand.values (vars : ν → Cell α) : ReturnCommand ν α → List (Cell α)
  | .vars names _ => names.map vars
  | .expression columns => columns.map Prod.snd

/-- **The rows of the values.**  A list cannot be returned with other values. -/
def resultRows (l : Lists α) : List (Cell α) → List (List (Cell α))
  | [] => []
  | [.list a] => (l.items a).map l.row
  | values => if values.any Cell.isList then [] else [values]

/-- **The rows of an execution.** -/
def Ending.rows : Ending ν α → List (List (Cell α))
  | .returned cmd vars l .ok => resultRows l (cmd.values vars)
  | _ => []

/-- The lists as they are written. -/
def PreparedCall.literals (call : PreparedCall ν α ι) : Lists α := call.written.only call.literal

/-- The columns of a RETURN, with their names. -/
def ReturnCommand.columns (vars : ν → Cell α) : ReturnCommand ν α → List (ν × Cell α)
  | .vars names _ => names.map fun x => (x, vars x)
  | .expression columns => columns

/-- What can be returned: columns with one name are NULL, rows are counted with 16 bits, and a list
that stays has no values but NULL and lists. -/
structure Returnable (literal : ℕ → Bool) (cmd : ReturnCommand ν α) (vars : ν → Cell α)
    (l : Lists α) : Prop where
  names : (cmd.columns vars).Pairwise fun c d => c.1 = d.1 → c.2 = .null ∧ d.2 = .null
  width : ∀ row ∈ resultRows l (cmd.values vars), row.length < 2 ^ 16
  literal : ∀ a, cmd.values vars = [.list a] → literal a → ∀ v, .scalar v ∉ l.items a

/-- An execution returns nothing else. -/
def Ending.Clean (literal : ℕ → Bool) : Ending ν α → Prop
  | .returned cmd vars l _ => Returnable literal cmd vars l
  | _ => True

/-! ## The statement -/

/-- The opcodes. -/
inductive Opcode
  | callProcedure
  | noop
  | resultRow (p1 p2 : ℕ)
  | nextResult (p2 : ℕ)
  | halt
  deriving DecidableEq, Repr

/-- Where a statement is: it has been reset, has returned a row, or has ended. -/
inductive Status
  | ready
  | stopped (pc : ℕ)
  | halted
  deriving DecidableEq, Repr

/-- What `sqlite3_step` returns; `running` is for a program that has not come to an end. -/
inductive Stepped (α : Type)
  | row (cells : List (Cell α))
  | done
  | error (rc : Rc)
  | running

/-- The statement, and the procedure of its call. -/
structure Vdbe (ν α : Type) where
  status : Status
  /-- `pCall` is set. -/
  called : Bool
  /-- The opcodes at `POS_RESULT_ROW` and `POS_NEXT_RESULT`. -/
  resultRow : Opcode
  nextResult : Opcode
  aMem : Option (List (Cell α))
  nResColumn : ℕ
  vars : ν → Cell α
  lists : Lists α
  /-- `aMem` of the procedure. -/
  savedMem : Option (List (Cell α))
  resultList : Option ℕ
  /-- `current_row + 1`. -/
  nextRow : ℕ
  /-- A cell was written that is not one of `aMem`. -/
  overrun : Bool

/-- The program.  That of a CALL begins with `OP_CallProcedure`. -/
def Vdbe.op (s : Vdbe ν α) : ℕ → Opcode
  | 1 => .callProcedure
  | 2 => s.resultRow
  | 3 => s.nextResult
  | _ => .halt

/-- A cell is written. -/
def Vdbe.write (s : Vdbe ν α) (i : ℕ) (c : Cell α) : Vdbe ν α :=
  match s.aMem with
  | none => { s with overrun := true }
  | some mem =>
    if i < mem.length then { s with aMem := some (mem.set i c) } else { s with overrun := true }

/-- Cells are written one after the other. -/
def Vdbe.writeAll : ℕ → List (Cell α) → Vdbe ν α → Vdbe ν α
  | _, [], s => s
  | i, c :: cs, s => writeAll (i + 1) cs (s.write i c)

/-- `sqlite3VdbeSetNumCols`, and the result opcode; `nResColumn` is a `u16`. -/
def Vdbe.setNumCols (s : Vdbe ν α) (n : ℕ) : Vdbe ν α :=
  { s with nResColumn := n % 2 ^ 16, resultRow := .resultRow 1 n }

/-- `sqlite3VdbeNextResult`, and whether there is a row. -/
def Vdbe.sqlite3VdbeNextResult (s : Vdbe ν α) : Bool × Vdbe ν α :=
  match s.resultList with
  | none => (false, s)
  | some a =>
    match (s.lists.items a)[s.nextRow]? with
    | none => (false, { s with nextRow := s.nextRow + 1 })
    | some (.list b) =>
      let s := { s with nextRow := s.nextRow + 1 }
      (true, (Vdbe.writeAll 1 (s.lists.items b) s).setNumCols (s.lists.items b).length)
    -- `sqlite3VdbeMemMove`: the item of the list is NULL then
    | some c =>
      let s := { s with nextRow := s.nextRow + 1, lists := s.lists.take a s.nextRow }
      (true, (s.write 1 c).setNumCols 1)

/-- The register array of the statement is put aside, and that of the rows is freed. -/
def Vdbe.saveMem (s : Vdbe ν α) : Vdbe ν α :=
  match s.savedMem with
  | none => { s with savedMem := s.aMem, aMem := none }
  | some _ => { s with aMem := none }

/-- The number of columns of the longest row, at least 1. -/
def Lists.maxColumns (l : Lists α) (rows : List (Cell α)) : ℕ :=
  rows.foldl (fun n c =>
    match c with
    | .list b => max n (l.items b).length
    | _ => n) 1

/-- A register array for as many columns. -/
def Vdbe.allocate (s : Vdbe ν α) (n : ℕ) : Vdbe ν α :=
  { s with aMem := some (List.replicate (n + 1) .null) }

/-- The procedure has the list, and there is an opcode for the next row. -/
def Vdbe.setList (s : Vdbe ν α) (a : ℕ) : Vdbe ν α :=
  { s with resultList := some a, nextRow := 0, nextResult := .nextResult 2 }

/-- `resetProcedureCall`, and `sqlite3_reset`.  The lists of the variables are freed. -/
def PreparedCall.reset (call : PreparedCall ν α ι) (s : Vdbe ν α) : Vdbe ν α :=
  if s.called then
    { s with
      status := .ready
      aMem := if s.savedMem.isSome then s.savedMem else s.aMem
      savedMem := none
      vars := fun _ => .null
      lists := s.lists.only call.literal }
  else { s with status := .ready }

/-- A statement that has been prepared; its register array is any. -/
def PreparedCall.prepared (call : PreparedCall ν α ι) (mem : Option (List (Cell α))) : Vdbe ν α where
  status := .ready
  called := true
  resultRow := .noop
  nextResult := .noop
  aMem := mem
  nResColumn := 0
  vars := fun _ => .null
  lists := call.literals
  savedMem := none
  resultList := none
  nextRow := 0
  overrun := false

/-! ## The registers -/

/-- Cells from a position on are other ones. -/
def overwrite (mem : List (Cell α)) (i : ℕ) (cells : List (Cell α)) : List (Cell α) :=
  mem.take i ++ cells ++ mem.drop (i + cells.length)

theorem overwrite_nil (mem : List (Cell α)) (i : ℕ) : overwrite mem i [] = mem := by
  simp [overwrite]

theorem overwrite_set {mem : List (Cell α)} {i : ℕ} (h : i < mem.length) (c : Cell α)
    (cells : List (Cell α)) :
    overwrite (mem.set i c) (i + 1) cells = overwrite mem i (c :: cells) := by
  have htake : (mem.set i c).take (i + 1) = mem.take i ++ [c] := by
    rw [List.take_succ_eq_append_getElem (by simpa using h), List.take_set_of_le (Nat.le_refl i),
      List.getElem_set_self]
  have hdrop : (mem.set i c).drop (i + 1 + cells.length) = mem.drop (i + 1 + cells.length) :=
    List.drop_set_of_lt (by omega)
  rw [overwrite, overwrite, htake, hdrop, List.length_cons,
    show i + (cells.length + 1) = i + 1 + cells.length by omega]
  simp

/-- The registers from the first one on are the cells. -/
theorem shown_overwrite {mem : List (Cell α)} (h : 1 ≤ mem.length) (cells : List (Cell α)) :
    ((overwrite mem 1 cells).drop 1).take cells.length = cells := by
  rw [overwrite, List.append_assoc, List.drop_append_of_le_length (by rw [List.length_take]; omega)]
  have hdrop : (mem.take 1).drop 1 = [] := List.drop_eq_nil_of_le (by rw [List.length_take]; omega)
  rw [hdrop, List.nil_append, List.take_left]

theorem write_eq {s : Vdbe ν α} {mem : List (Cell α)} {i : ℕ} (hmem : s.aMem = some mem)
    (h : i < mem.length) (c : Cell α) : s.write i c = { s with aMem := some (mem.set i c) } := by
  simp [Vdbe.write, hmem, h]

/-- **A row that fits is copied**, and nothing else changes. -/
theorem writeAll_eq (cells : List (Cell α)) {i : ℕ} {s : Vdbe ν α} {mem : List (Cell α)}
    (hmem : s.aMem = some mem) (h : i + cells.length ≤ mem.length) :
    Vdbe.writeAll i cells s = { s with aMem := some (overwrite mem i cells) } := by
  induction cells generalizing i s mem with
  | nil =>
      rw [overwrite_nil, ← hmem]
      rfl
  | cons c cells ih =>
      rw [List.length_cons] at h
      have hi : i < mem.length := by omega
      rw [Vdbe.writeAll, write_eq hmem hi, ih rfl (by rw [List.length_set]; omega),
        overwrite_set hi]

/-! ## The rows of a list -/

theorem Lists.row_take {l : Lists α} {a : ℕ} {c : Cell α} (h : c ∈ l.items a) (pos : ℕ) :
    (l.take a pos).row c = l.row c := by
  cases c with
  | null => rfl
  | scalar v => rfl
  | list b =>
      have hb : b ≠ a := Nat.ne_of_lt (l.below a b h)
      exact Function.update_of_ne hb _ _

/-- Of an item that is NULL nothing is taken. -/
theorem Lists.items_take_null {l : Lists α} {a pos : ℕ} (h : (l.items a)[pos]? = some .null) :
    (l.take a pos).items a = l.items a := by
  obtain ⟨hlt, hget⟩ := List.getElem?_eq_some_iff.1 h
  have hset : (l.items a).set pos .null = l.items a := by
    rw [← hget]
    exact List.set_getElem_self hlt
  exact (Function.update_self ..).trans hset

variable (literal : ℕ → Bool)

/-- A row is in the registers. -/
structure Shows (s : Vdbe ν α) (row : List (Cell α)) : Prop where
  op : s.resultRow = .resultRow 1 row.length
  cells : ((s.aMem.getD []).drop 1).take s.nResColumn = row

/-- The rest of a list is to be returned. -/
structure Pending (s : Vdbe ν α) (a : ℕ) (mem cells : List (Cell α)) : Prop where
  op : s.nextResult = .nextResult 2
  list : s.resultList = some a
  aMem : s.aMem = some mem
  rest : (s.lists.items a).drop s.nextRow = cells
  fits : ∀ c ∈ cells, (s.lists.row c).length < mem.length ∧ (s.lists.row c).length < 2 ^ 16
  stays : literal a → ∀ v, .scalar v ∉ s.lists.items a

/-- These rows are to come. -/
def Rest (s : Vdbe ν α) (rows : List (List (Cell α))) : Prop :=
  (s.nextResult = .noop ∧ rows = []) ∨
    ∃ a mem cells, Pending literal s a mem cells ∧ rows = cells.map s.lists.row

/-- A statement whose written lists are as in another. -/
structure LeavesLists (s t : Vdbe ν α) : Prop where
  status : t.status = s.status
  called : t.called = s.called
  nextResult : t.nextResult = s.nextResult
  overrun : t.overrun = s.overrun
  lists : ∀ a, literal a → t.lists.items a = s.lists.items a

variable {literal} {s : Vdbe ν α} {a : ℕ} {mem : List (Cell α)}

theorem Pending.fetch_nil (h : Pending literal s a mem []) :
    s.sqlite3VdbeNextResult = (false, { s with nextRow := s.nextRow + 1 }) := by
  have hlength : (s.lists.items a).length ≤ s.nextRow := List.drop_eq_nil_iff.1 h.rest
  rw [Vdbe.sqlite3VdbeNextResult, h.list]
  dsimp only
  rw [List.getElem?_eq_none hlength]

theorem Pending.next {c : Cell α} {cells : List (Cell α)}
    (h : Pending literal s a mem (c :: cells)) :
    (s.lists.items a)[s.nextRow]? = some c ∧
      (s.lists.items a).drop (s.nextRow + 1) = cells ∧ ∀ d ∈ c :: cells, d ∈ s.lists.items a := by
  refine ⟨?_, ?_, fun d hd => List.mem_of_mem_drop (h.rest ▸ hd)⟩
  · rw [← List.head?_drop, h.rest, List.head?_cons]
  · rw [← List.tail_drop, h.rest, List.tail_cons]

/-- A row that is a list is copied to the registers. -/
theorem Pending.fetch_list {b : ℕ} {cells : List (Cell α)}
    (h : Pending literal s a mem (.list b :: cells)) :
    ∃ t, s.sqlite3VdbeNextResult = (true, t) ∧ LeavesLists literal s t ∧ Shows t (s.lists.items b) ∧
      ∃ mem', Pending literal t a mem' cells ∧ t.lists = s.lists := by
  obtain ⟨hget, hdrop, hmem⟩ := h.next
  obtain ⟨hfits, hwidth⟩ := h.fits _ (List.mem_cons_self ..)
  change (s.lists.items b).length < mem.length at hfits
  change (s.lists.items b).length < 2 ^ 16 at hwidth
  have hlength : (overwrite mem 1 (s.lists.items b)).length = mem.length := by
    simp only [overwrite, List.length_append, List.length_take, List.length_drop]
    omega
  have hnext : s.sqlite3VdbeNextResult = (true, ({ s with
      nextRow := s.nextRow + 1
      aMem := some (overwrite mem 1 (s.lists.items b)) }).setNumCols (s.lists.items b).length) := by
    have hwrite := @writeAll_eq ν α (s.lists.items b) 1 { s with nextRow := s.nextRow + 1 } mem
      h.aMem (by omega)
    have hall : s.sqlite3VdbeNextResult = (true, (Vdbe.writeAll 1 (s.lists.items b)
        { s with nextRow := s.nextRow + 1 }).setNumCols (s.lists.items b).length) := by
      unfold Vdbe.sqlite3VdbeNextResult
      rw [h.list]
      dsimp only
      rw [hget]
    rw [hall, hwrite]
  refine ⟨_, hnext, ⟨rfl, rfl, rfl, rfl, fun _ _ => rfl⟩, ⟨rfl, ?_⟩, _,
    ⟨h.op, h.list, rfl, hdrop, fun d hd => ?_, h.stays⟩, rfl⟩
  · dsimp only [Vdbe.setNumCols, Option.getD_some]
    rw [Nat.mod_eq_of_lt hwidth]
    exact shown_overwrite (by omega) _
  · rw [hlength]
    exact h.fits d (List.mem_cons_of_mem _ hd)

/-- A row that is a value is moved to the registers.  A list that stays is as it was. -/
theorem Pending.fetch_value {c : Cell α} {cells : List (Cell α)} (hc : c.isList = false)
    (h : Pending literal s a mem (c :: cells)) :
    ∃ t, s.sqlite3VdbeNextResult = (true, t) ∧ LeavesLists literal s t ∧ Shows t [c] ∧
      ∃ mem', Pending literal t a mem' cells ∧ cells.map t.lists.row = cells.map s.lists.row := by
  obtain ⟨hget, hdrop, hmem⟩ := h.next
  have hrow : s.lists.row c = [c] := by cases c <;> first | rfl | exact nomatch hc
  have hfits := (h.fits c (List.mem_cons_self ..)).1
  rw [hrow, List.length_singleton] at hfits
  have hnext : s.sqlite3VdbeNextResult = (true, ({ s with
      nextRow := s.nextRow + 1
      lists := s.lists.take a s.nextRow
      aMem := some (mem.set 1 c) }).setNumCols 1) := by
    have hwrite := @write_eq ν α
      { s with nextRow := s.nextRow + 1, lists := s.lists.take a s.nextRow } mem 1 h.aMem hfits c
    have hall : s.sqlite3VdbeNextResult = (true, ({ s with
        nextRow := s.nextRow + 1
        lists := s.lists.take a s.nextRow }.write 1 c).setNumCols 1) := by
      unfold Vdbe.sqlite3VdbeNextResult
      rw [h.list]
      dsimp only
      rw [hget]
      cases c with
      | null => rfl
      | scalar v => rfl
      | list b => exact nomatch hc
    rw [hall, hwrite]
  have hitems : literal a → (s.lists.take a s.nextRow).items a = s.lists.items a := fun ha => by
    refine Lists.items_take_null ?_
    cases c with
    | null => exact hget
    | scalar v => exact absurd (hmem _ (List.mem_cons_self ..)) (h.stays ha v)
    | list b => exact nomatch hc
  have hrows : ∀ d ∈ cells, (s.lists.take a s.nextRow).row d = s.lists.row d := fun d hd =>
    Lists.row_take (hmem d (List.mem_cons_of_mem _ hd)) _
  refine ⟨_, hnext, ⟨rfl, rfl, rfl, rfl, fun b hb => ?_⟩, ⟨rfl, ?_⟩, _,
    ⟨h.op, h.list, rfl, ?_, fun d hd => ?_, fun ha v => ?_⟩, List.map_congr_left hrows⟩
  · by_cases hba : b = a
    · rw [hba] at hb ⊢
      exact hitems hb
    · exact Function.update_of_ne hba _ _
  · dsimp only [Vdbe.setNumCols, Option.getD_some]
    rw [← overwrite_nil (mem.set 1 c) 2, overwrite_set hfits]
    exact shown_overwrite (by omega) [c]
  · refine Eq.trans ?_ hdrop
    dsimp only [Vdbe.setNumCols, Lists.take]
    rw [Function.update_self]
    exact List.drop_set_of_lt (by omega)
  · dsimp only [Vdbe.setNumCols]
    rw [List.length_set, hrows d hd]
    exact h.fits d (List.mem_cons_of_mem _ hd)
  · dsimp only [Vdbe.setNumCols]
    rw [hitems ha]
    exact h.stays ha v

/-- **The next row is put in the registers**, and those after it are still to come. -/
theorem Pending.fetch_cons {c : Cell α} {cells : List (Cell α)}
    (h : Pending literal s a mem (c :: cells)) :
    ∃ t, s.sqlite3VdbeNextResult = (true, t) ∧ LeavesLists literal s t ∧ Shows t (s.lists.row c) ∧
      ∃ mem', Pending literal t a mem' cells ∧
        cells.map t.lists.row = cells.map s.lists.row := by
  cases c with
  | null => exact h.fetch_value rfl
  | scalar v => exact h.fetch_value rfl
  | list b =>
      obtain ⟨t, hnext, hleaves, hshows, mem', hpending, hlists⟩ := h.fetch_list
      exact ⟨t, hnext, hleaves, hshows, mem', hpending, by rw [hlists]⟩

/-- **The registers have room for the longest row.** -/
theorem Lists.length_row_le (l : Lists α) (rows : List (Cell α)) :
    ∀ c ∈ rows, (l.row c).length ≤ l.maxColumns rows := by
  have hfold : ∀ (cells : List (Cell α)) (n : ℕ), 1 ≤ n →
      n ≤ cells.foldl (fun n c =>
        match c with
        | .list b => max n (l.items b).length
        | _ => n) n ∧
      ∀ c ∈ cells, (l.row c).length ≤ cells.foldl (fun n c =>
        match c with
        | .list b => max n (l.items b).length
        | _ => n) n := by
    intro cells
    induction cells with
    | nil => exact fun n _ => ⟨Nat.le_refl n, fun c hc => absurd hc List.not_mem_nil⟩
    | cons c cells ih =>
        intro n hn
        have hstep : ∀ m, 1 ≤ m → (l.row c).length ≤ m → n ≤ m → n ≤ cells.foldl _ m ∧
            ∀ d ∈ c :: cells, (l.row d).length ≤ cells.foldl _ m := fun m hm hc hnm => by
          obtain ⟨hle, hall⟩ := ih m hm
          refine ⟨Nat.le_trans hnm hle, fun d hd => ?_⟩
          rcases List.mem_cons.1 hd with rfl | hd
          · exact Nat.le_trans hc hle
          · exact hall d hd
        rw [List.foldl_cons]
        cases c with
        | null => exact hstep n hn hn (Nat.le_refl n)
        | scalar v => exact hstep n hn hn (Nat.le_refl n)
        | list b =>
            exact hstep _ (Nat.le_trans hn (Nat.le_max_left ..)) (Nat.le_max_right ..)
              (Nat.le_max_left ..)
  exact (hfold rows 1 (Nat.le_refl 1)).2

theorem resultRows_of_ne {l : Lists α} {values : List (Cell α)} (h : values ≠ [])
    (hlist : ∀ a, values ≠ [.list a]) :
    resultRows l values = if values.any Cell.isList then [] else [values] := by
  unfold resultRows
  split
  · exact absurd rfl h
  · exact absurd rfl (hlist _)
  · rfl

variable (literal) in
/-- The first of these rows is in the registers, and the rest is to come. -/
def Fetched (s : Vdbe ν α) : List (List (Cell α)) → Prop
  | [] => s.resultRow = .noop ∧ Rest literal s []
  | row :: rows => Shows s row ∧ Rest literal s rows

/-- The first row of a list is fetched at once. -/
theorem Pending.fetched {cells : List (Cell α)} (h : Pending literal s a mem cells)
    (hop : s.resultRow = .noop) :
    ∃ b t, s.sqlite3VdbeNextResult = (b, t) ∧ t.overrun = s.overrun ∧ t.called = s.called ∧
      (∀ b, literal b → t.lists.items b = s.lists.items b) ∧
      Fetched literal t (cells.map s.lists.row) := by
  cases cells with
  | nil =>
      refine ⟨_, _, h.fetch_nil, rfl, rfl, fun _ _ => rfl, hop,
        .inr ⟨a, mem, [], ⟨h.op, h.list, h.aMem, ?_, h.fits, h.stays⟩, rfl⟩⟩
      have hlength : (s.lists.items a).length ≤ s.nextRow := List.drop_eq_nil_iff.1 h.rest
      exact List.drop_eq_nil_of_le (Nat.le_succ_of_le hlength)
  | cons c cells =>
      obtain ⟨t, ht, hleaves, hshows, mem', hpending, hrows⟩ := h.fetch_cons
      exact ⟨_, t, ht, hleaves.overrun, hleaves.called, hleaves.lists, hshows,
        .inr ⟨a, mem', cells, hpending, hrows.symm⟩⟩

/-- The rows of a list are to come, when it is returned. -/
theorem pending_setList (hwidth : ∀ row ∈ (s.lists.items a).map s.lists.row, row.length < 2 ^ 16)
    (hstays : literal a → ∀ v, .scalar v ∉ s.lists.items a) :
    Pending literal ((s.allocate (s.lists.maxColumns (s.lists.items a))).setList a) a
      (List.replicate (s.lists.maxColumns (s.lists.items a) + 1) .null) (s.lists.items a) := by
  refine ⟨rfl, rfl, rfl, rfl, fun c hc => ⟨?_, hwidth _ (List.mem_map_of_mem hc)⟩, hstays⟩
  rw [List.length_replicate]
  exact Nat.lt_succ_of_le (s.lists.length_row_le (s.lists.items a) c hc)

variable (literal) in
/-- A RETURN of these rows fails without a row, or has the first one. -/
structure ReturnsRows (s : Vdbe ν α) (r : Rc × Vdbe ν α) (rows : List (List (Cell α))) : Prop where
  overrun : r.2.overrun = s.overrun
  none : r.1 ≠ .ok → rows = []
  called : r.1 = .ok → r.2.called = s.called
  lists : r.1 = .ok → ∀ a, literal a → r.2.lists.items a = s.lists.items a
  fetched : r.1 = .ok → Fetched literal r.2 rows

theorem saveMem_eq (s : Vdbe ν α) :
    s.saveMem = { s with savedMem := s.saveMem.savedMem, aMem := none } := by
  unfold Vdbe.saveMem
  cases s.savedMem <;> rfl

/-! ## Executions of a statement -/

/-- A statement, with the rows of its execution and those it has returned. -/
structure Stepping (ν α : Type) where
  stmt : Vdbe ν α
  expected : List (List (Cell α))
  yielded : List (List (Cell α))
  last : Stepped α

/-- What the application does; a step has what an execution that begins is about. -/
inductive StmtAction (ι : Type)
  | step (x : ι)
  | reset

/-- A step has been taken. -/
def Stepping.after (s : Stepping ν α) (r : Stepped α × Vdbe ν α) : Stepping ν α :=
  { s with
    stmt := r.2
    last := r.1
    yielded := match r.1 with
      | .row cells => s.yielded ++ [cells]
      | _ => s.yielded }

/-- An execution begins. -/
def PreparedCall.begin (call : PreparedCall ν α ι) (x : ι) (s : Stepping ν α) : Stepping ν α :=
  { s with
    expected := if s.stmt.called then (call.run x call.literals).rows else []
    yielded := [] }

/-- **The rows are those of the execution**: so far, and when it has ended all of them. -/
structure Stepping.Exact (s : Stepping ν α) : Prop where
  ends : s.last ≠ .running
  isPrefix : s.yielded <+: s.expected
  all : s.stmt.status = .halted → s.yielded = s.expected
  inBounds : s.stmt.overrun = false

variable {call : PreparedCall ν α ι} {x : ι} {rows : List (List (Cell α))}

/-- The call can be executed, and its lists are as they are written. -/
structure PreparedCall.Sound (call : PreparedCall ν α ι) (s : Vdbe ν α) : Prop where
  called : s.called = true
  overrun : s.overrun = false
  lists : ∀ a, call.literal a → s.lists.items a = call.written.items a

/-- What a step does when these rows are to come. -/
inductive PreparedCall.Steps (call : PreparedCall ν α ι) :
    List (List (Cell α)) → Stepped α × Vdbe ν α → Prop
  | row {row : List (Cell α)} {rows : List (List (Cell α))} {t : Vdbe ν α} (h : call.Sound t)
      (hstatus : t.status = .stopped 3) (hrest : Rest call.literal t rows) :
      Steps call (row :: rows) (.row row, t)
  | done {t : Vdbe ν α} (h : call.Sound t) (hstatus : t.status = .halted) : Steps call [] (.done, t)
  | error {rc : Rc} {t : Vdbe ν α} (hcalled : t.called = false) (hoverrun : t.overrun = false)
      (hstatus : t.status = .halted) : Steps call [] (.error rc, t)

theorem Rest.withStatus {t : Vdbe ν α} (h : Rest literal t rows) (status : Status) :
    Rest literal { t with status } rows := by
  rcases h with h | ⟨a, mem, cells, h, hrows⟩
  · exact .inl h
  · exact .inr ⟨a, mem, cells, ⟨h.op, h.list, h.aMem, h.rest, h.fits, h.stays⟩, hrows⟩

theorem PreparedCall.Sound.withStatus {t : Vdbe ν α} (h : call.Sound t) (status : Status) :
    call.Sound { t with status } :=
  ⟨h.called, h.overrun, h.lists⟩

/-- A written list is one of the lists an execution begins with. -/
theorem PreparedCall.items_literals (call : PreparedCall ν α ι) {a : ℕ} (ha : call.literal a) :
    call.literals.items a = call.written.items a :=
  if_pos ha

/-- What RETURN leaves, and the release of the savepoint. -/
theorem release_eq (r : Rc × Vdbe ν α) (release : Rc) :
    (match r with
      | (.ok, t) => (release, t)
      | (rc, t) => (rc, t)) = (if r.1 = .ok then release else r.1, r.2) := by
  obtain ⟨rc, t⟩ := r
  cases rc <;> rfl

/-- The rows that have been returned and those that are to come are those of the execution. -/
structure PreparedCall.Inv (call : PreparedCall ν α ι) (s : Stepping ν α) : Prop where
  ends : s.last ≠ .running
  overrun : s.stmt.overrun = false
  sound : s.stmt.called = true → call.Sound s.stmt
  ready : s.stmt.status = .ready →
    s.yielded = [] ∧ s.expected = [] ∧ (s.stmt.called = true → s.stmt.lists = call.literals)
  stopped : ∀ pc, s.stmt.status = .stopped pc → pc = 3 ∧ s.stmt.called = true ∧
    ∃ rows, s.expected = s.yielded ++ rows ∧ Rest call.literal s.stmt rows
  halted : s.stmt.status = .halted → s.yielded = s.expected

/-- The rows are those of the execution. -/
theorem PreparedCall.Inv.exact {s : Stepping ν α} (h : call.Inv s) : s.Exact := by
  refine ⟨h.ends, ?_, h.halted, h.overrun⟩
  cases hstatus : s.stmt.status with
  | ready =>
      rw [(h.ready hstatus).1]
      exact List.nil_prefix
  | stopped pc =>
      obtain ⟨-, -, rows, hrows, -⟩ := h.stopped pc hstatus
      exact ⟨rows, hrows.symm⟩
  | halted =>
      exact h.halted hstatus ▸ List.prefix_rfl

/-- A step keeps the invariant. -/
theorem PreparedCall.Steps.inv {s : Stepping ν α} {r : Stepped α × Vdbe ν α}
    (h : call.Steps rows r) (hrows : s.expected = s.yielded ++ rows) : call.Inv (s.after r) := by
  cases h with
  | row hsound hstatus hrest =>
      refine ⟨nofun, hsound.overrun, fun _ => hsound, fun h => ?_, fun pc h => ?_, fun h => ?_⟩
      · exact nomatch hstatus.symm.trans h
      · obtain rfl := Status.stopped.inj (hstatus.symm.trans h)
        exact ⟨rfl, hsound.called, _, hrows.trans (List.append_cons ..), hrest⟩
      · exact nomatch hstatus.symm.trans h
  | done hsound hstatus =>
      refine ⟨nofun, hsound.overrun, fun _ => hsound, fun h => ?_, fun pc h => ?_, fun _ => ?_⟩
      · exact nomatch hstatus.symm.trans h
      · exact nomatch hstatus.symm.trans h
      · rw [List.append_nil] at hrows
        exact hrows.symm
  | error hcalled hoverrun hstatus =>
      refine ⟨nofun, hoverrun, fun h => ?_, fun h => ?_, fun pc h => ?_, fun _ => ?_⟩
      · exact nomatch hcalled.symm.trans h
      · exact nomatch hstatus.symm.trans h
      · exact nomatch hstatus.symm.trans h
      · rw [List.append_nil] at hrows
        exact hrows.symm

/-- **After a reset** the lists are as they are written. -/
theorem PreparedCall.Sound.reset (h : call.Sound s) :
    call.Sound (call.reset s) ∧ (call.reset s).lists = call.literals := by
  have hlists : s.lists.only call.literal = call.literals := by
    refine Lists.ext (funext fun a => ?_)
    dsimp only [Lists.only, PreparedCall.literals]
    split_ifs with ha
    · exact h.lists a ha
    · rfl
  rw [PreparedCall.reset, if_pos h.called]
  exact ⟨⟨h.called, h.overrun, fun a ha => by rw [hlists, call.items_literals ha]⟩, hlists⟩

theorem reset_status (s : Vdbe ν α) : (call.reset s).status = .ready := by
  unfold PreparedCall.reset
  split_ifs <;> rfl

theorem reset_called (s : Vdbe ν α) : (call.reset s).called = s.called := by
  unfold PreparedCall.reset
  split_ifs <;> rfl

theorem reset_overrun (s : Vdbe ν α) : (call.reset s).overrun = s.overrun := by
  unfold PreparedCall.reset
  split_ifs <;> rfl

/-! ## The program -/

section Return

variable [DecidableEq ν]

/-- The columns of an expression are stored in variables with their names. -/
def storeExpression (columns : List (ν × Cell α)) (vars : ν → Cell α) : ν → Cell α :=
  columns.foldl (fun f c => Function.update f c.1 c.2) vars

/-- The variables are moved to the registers, up to one that has a list. -/
def Vdbe.moveVars : ℕ → List ν → Vdbe ν α → Rc × Vdbe ν α
  | _, [], s => (.ok, s)
  | i, x :: xs, s =>
    if (s.vars x).isList then (.error, s)
    else moveVars (i + 1) xs { s.write i (s.vars x) with vars := Function.update s.vars x .null }

/-- `executeReturnCommand` of these variables. -/
def Vdbe.returnVars (names : List ν) (s : Vdbe ν α) : Rc × Vdbe ν α :=
  match names.map s.vars with
  | [.list a] =>
    let s := (s.allocate (s.lists.maxColumns (s.lists.items a))).setList a
    (.ok, s.sqlite3VdbeNextResult.2)
  | _ =>
    match Vdbe.moveVars 1 names (s.allocate names.length) with
    | (.ok, s) => (.ok, s.setNumCols names.length)
    | (rc, s) => (rc, s)

/-- `executeReturnCommand`. -/
def Vdbe.executeReturnCommand (s : Vdbe ν α) : ReturnCommand ν α → Rc × Vdbe ν α
  | .vars [] _ => (.ok, s)
  | .vars names _ => s.saveMem.returnVars names
  | .expression [] => (.error, s.saveMem)
  | .expression columns =>
    { s.saveMem with vars := storeExpression columns s.vars }.returnVars (columns.map Prod.fst)

/-- `executeStoredProcedure`. -/
def PreparedCall.executeStoredProcedure (call : PreparedCall ν α ι) (x : ι) (s : Vdbe ν α) :
    Rc × Vdbe ν α :=
  let s := { s with resultRow := .noop, nextResult := .noop }
  match call.run x s.lists with
  | .failed rc _ => (rc, s)
  | .finished release => (release, s)
  | .returned cmd vars lists release =>
    match { s with vars, lists }.executeReturnCommand cmd with
    | (.ok, s) => (release, s)
    | (rc, s) => (rc, s)

/-- `sqlite3VdbeExec`, from an opcode on. -/
def PreparedCall.exec (call : PreparedCall ν α ι) (x : ι) :
    ℕ → ℕ → Vdbe ν α → Stepped α × Vdbe ν α
  | 0, _, s => (.running, s)
  | fuel + 1, pc, s =>
    match s.op pc with
    | .callProcedure =>
      if s.called then
        match call.executeStoredProcedure x s with
        | (.ok, s) => call.exec x fuel (pc + 1) s
        -- the call is released, and cannot be executed again
        | (rc, s) => (.error rc, { s with called := false, status := .halted })
      else (.error .misuse, { s with status := .halted })
    | .noop => call.exec x fuel (pc + 1) s
    | .resultRow p1 _ =>
      (.row (((s.aMem.getD []).drop p1).take s.nResColumn), { s with status := .stopped (pc + 1) })
    | .nextResult p2 =>
      match s.sqlite3VdbeNextResult with
      | (true, s) => call.exec x fuel p2 s
      | (false, s) => call.exec x fuel (pc + 1) s
    | .halt => (.done, { s with status := .halted })

/-- `sqlite3_step`, with what an execution that begins is about. -/
def PreparedCall.step (call : PreparedCall ν α ι) (x : ι) (s : Vdbe ν α) : Stepped α × Vdbe ν α :=
  match s.status with
  | .ready => call.exec x 6 1 s
  | .stopped pc => call.exec x 6 pc s
  | .halted => call.exec x 6 1 (call.reset s)

/-- The next state. -/
def PreparedCall.next (call : PreparedCall ν α ι) (s : Stepping ν α) :
    StmtAction ι → Option (Stepping ν α)
  | .step x =>
    match s.stmt.status with
    | .stopped _ => some (s.after (call.step x s.stmt))
    | _ => some ((call.begin x s).after (call.step x s.stmt))
  | .reset => some ⟨call.reset s.stmt, [], [], .done⟩

/-- The runs of a prepared statement. -/
def PreparedCall.system (call : PreparedCall ν α ι) : System (Stepping ν α) (StmtAction ι) :=
  System.ofStep (fun s => ∃ mem, s = ⟨call.prepared mem, [], [], .done⟩) call.next

/-- The execution that a step begins, if it does, is such. -/
def PreparedCall.CleanStep (call : PreparedCall ν α ι) (s : Stepping ν α) (a : StmtAction ι) :
    Prop :=
  ∀ x, a = .step x → (∀ pc, s.stmt.status ≠ .stopped pc) →
    (call.run x call.literals).Clean call.literal

/-- **The variables are moved**, unless one of them has a list. -/
theorem moveVars_eq (names : List ν) {i : ℕ} {s : Vdbe ν α} {mem : List (Cell α)}
    (hmem : s.aMem = some mem) (h : i + names.length ≤ mem.length)
    (hnames : names.Pairwise fun x y => x = y → s.vars x = .null) :
    ∃ t, Vdbe.moveVars i names s =
        (if (names.map s.vars).any Cell.isList then .error else .ok, t) ∧
      t.overrun = s.overrun ∧
      ((names.map s.vars).any Cell.isList = false →
        t = { s with aMem := some (overwrite mem i (names.map s.vars)), vars := t.vars }) := by
  induction names generalizing i s mem with
  | nil =>
      refine ⟨s, rfl, rfl, fun _ => ?_⟩
      rw [List.map_nil, overwrite_nil, ← hmem]
  | cons x xs ih =>
      rw [List.length_cons] at h
      rw [List.pairwise_cons] at hnames
      have hi : i < mem.length := by omega
      rw [Vdbe.moveVars, List.map_cons, List.any_cons]
      by_cases hx : (s.vars x).isList = true
      · rw [if_pos hx, hx, Bool.true_or, if_pos rfl]
        exact ⟨s, rfl, rfl, fun h => absurd h (by decide)⟩
      rw [if_neg hx, Bool.eq_false_iff.2 hx, Bool.false_or, write_eq hmem hi]
      -- a variable that comes again is NULL, and stays so
      have hsame : ∀ y ∈ xs, Function.update s.vars x .null y = s.vars y := fun y hy => by
        by_cases hyx : y = x
        · rw [hyx, Function.update_self, hnames.1 y hy hyx.symm]
        · exact Function.update_of_ne hyx _ _
      have hvalues : xs.map (Function.update s.vars x .null) = xs.map s.vars :=
        List.map_congr_left hsame
      obtain ⟨t, hmove, hoverrun, heq⟩ := @ih (i + 1)
        { s with aMem := some (mem.set i (s.vars x)), vars := Function.update s.vars x .null }
        (mem.set i (s.vars x)) rfl (by rw [List.length_set]; omega)
        (hnames.2.imp_of_mem fun hy _ hz hyz => (hsame _ hy).trans (hz hyz))
      dsimp only at hmove heq
      rw [hvalues] at hmove heq
      refine ⟨t, hmove, hoverrun, fun hany => (heq hany).trans ?_⟩
      rw [overwrite_set hi]

theorem storeExpression_of_not_mem {x : ν} (columns : List (ν × Cell α)) (vars : ν → Cell α)
    (h : ∀ c ∈ columns, c.1 ≠ x) : storeExpression columns vars x = vars x := by
  induction columns generalizing vars with
  | nil => rfl
  | cons c columns ih =>
      refine (ih _ fun d hd => h d (List.mem_cons_of_mem _ hd)).trans ?_
      exact Function.update_of_ne (h c (List.mem_cons_self ..)).symm _ _

/-- A variable has the value of its column, if the columns with one name are NULL. -/
theorem storeExpression_mem {columns : List (ν × Cell α)} (vars : ν → Cell α)
    (h : columns.Pairwise fun c d => c.1 = d.1 → c.2 = .null ∧ d.2 = .null) :
    ∀ c ∈ columns, storeExpression columns vars c.1 = c.2 := by
  induction columns generalizing vars with
  | nil => exact fun c hc => absurd hc List.not_mem_nil
  | cons c columns ih =>
      rw [List.pairwise_cons] at h
      intro d hd
      change storeExpression columns (Function.update vars c.1 c.2) d.1 = d.2
      rcases List.mem_cons.1 hd with rfl | hd
      · by_cases hmem : ∃ e ∈ columns, e.1 = d.1
        · obtain ⟨e, he, hname⟩ := hmem
          obtain ⟨hd, he'⟩ := h.1 e he hname.symm
          rw [← hname, ih _ h.2 e he, hd, he']
        · rw [storeExpression_of_not_mem columns _ fun e he hname => hmem ⟨e, he, hname⟩]
          exact Function.update_self ..
      · exact ih _ h.2 d hd

/-- **What RETURN does with values**: an error, or the first row. -/
theorem returnVars_spec {names : List ν} (hne : names ≠ []) (hop : s.resultRow = .noop)
    (hnext : s.nextResult = .noop)
    (hnames : names.Pairwise fun x y => x = y → s.vars x = .null)
    (hwidth : ∀ row ∈ resultRows s.lists (names.map s.vars), row.length < 2 ^ 16)
    (hstays : ∀ a, names.map s.vars = [.list a] → literal a → ∀ v, .scalar v ∉ s.lists.items a) :
    ReturnsRows literal s (s.returnVars names) (resultRows s.lists (names.map s.vars)) := by
  unfold Vdbe.returnVars
  split
  · rename_i a hvalues
    rw [hvalues] at hwidth ⊢
    have hpending := pending_setList hwidth (hstays a hvalues)
    obtain ⟨b, t, hfetch, hoverrun, hcalled, hlists, hfetched⟩ := hpending.fetched hop
    dsimp only
    rw [hfetch]
    exact ⟨hoverrun, fun h => absurd rfl h, fun _ => hcalled, fun _ => hlists, fun _ => hfetched⟩
  · rename_i hlist
    have hrows := @resultRows_of_ne α s.lists (names.map s.vars)
      (fun h => hne (List.map_eq_nil_iff.1 h)) fun a h => hlist a h
    rw [hrows] at hwidth ⊢
    obtain ⟨t, hmove, hoverrun, heq⟩ := @moveVars_eq ν α _ names 1 (s.allocate names.length)
      (List.replicate (names.length + 1) .null) rfl (by rw [List.length_replicate]; omega) hnames
    change Vdbe.moveVars 1 names (s.allocate names.length) =
      (if (names.map s.vars).any Cell.isList then .error else .ok, t) at hmove
    change (names.map s.vars).any Cell.isList = false → t = _ at heq
    rw [hmove]
    cases hany : (names.map s.vars).any Cell.isList with
    | true => exact ⟨hoverrun, fun _ => if_pos rfl, nofun, nofun, nofun⟩
    | false =>
        rw [hany, if_neg Bool.false_ne_true] at hwidth
        rw [if_neg Bool.false_ne_true, if_neg Bool.false_ne_true]
        have hlength := hwidth _ (List.mem_singleton.2 rfl)
        have ht := heq hany
        rw [List.length_map] at hlength
        refine ⟨hoverrun, fun h => absurd rfl h, fun _ => ?_, fun _ _ _ => ?_,
          fun _ => ⟨⟨?_, ?_⟩, .inl ⟨?_, rfl⟩⟩⟩
        · rw [ht]; rfl
        · rw [ht]; rfl
        · rw [List.length_map]; rfl
        · rw [ht]
          dsimp only [Vdbe.setNumCols, Option.getD_some]
          rw [Nat.mod_eq_of_lt hlength, ← List.length_map s.vars]
          exact shown_overwrite (by rw [List.length_replicate]; omega) _
        · rw [ht]; exact hnext

/-- The same with the register array put aside, and other variables. -/
theorem returnVars_saved {f : ν → Cell α} {names : List ν} {values : List (Cell α)}
    (hvalues : names.map f = values) (hne : names ≠ [])
    (hop : s.resultRow = .noop) (hnext : s.nextResult = .noop)
    (hnames : names.Pairwise fun x y => x = y → f x = .null)
    (hwidth : ∀ row ∈ resultRows s.lists values, row.length < 2 ^ 16)
    (hstays : ∀ a, values = [.list a] → literal a → ∀ v, .scalar v ∉ s.lists.items a) :
    ReturnsRows literal s ({ s.saveMem with vars := f }.returnVars names)
      (resultRows s.lists values) := by
  subst hvalues
  have hspec : ReturnsRows literal { s with savedMem := s.saveMem.savedMem, aMem := none, vars := f }
      _ _ := returnVars_spec hne hop hnext hnames hwidth hstays
  rw [saveMem_eq]
  exact ⟨hspec.overrun, hspec.none, hspec.called, hspec.lists, hspec.fetched⟩

/-- **`executeReturnCommand`**, of what can be returned. -/
theorem executeReturnCommand_spec {cmd : ReturnCommand ν α} (hop : s.resultRow = .noop)
    (hnext : s.nextResult = .noop) (h : Returnable literal cmd s.vars s.lists) :
    ReturnsRows literal s (s.executeReturnCommand cmd)
      (resultRows s.lists (cmd.values s.vars)) := by
  cases cmd with
  | vars names nodup =>
      cases names with
      | nil =>
          exact ⟨rfl, fun h => absurd rfl h, fun _ => rfl, fun _ _ _ => rfl,
            fun _ => ⟨hop, .inl ⟨hnext, rfl⟩⟩⟩
      | cons x xs =>
          have hsave : s.saveMem = { s.saveMem with vars := s.vars } := by rw [saveMem_eq]
          rw [show s.executeReturnCommand (.vars (x :: xs) nodup) =
            s.saveMem.returnVars (x :: xs) from rfl, hsave]
          exact returnVars_saved rfl (List.cons_ne_nil _ _) hop hnext
            (nodup.imp fun hne heq => absurd heq hne) h.width h.literal
  | expression columns =>
      cases columns with
      | nil =>
          refine ⟨?_, fun _ => rfl, nofun, nofun, nofun⟩
          change s.saveMem.overrun = s.overrun
          rw [saveMem_eq]
      | cons c cs =>
          have hstored := storeExpression_mem s.vars h.names
          have hvalues : ((c :: cs).map Prod.fst).map (storeExpression (c :: cs) s.vars) =
              (c :: cs).map Prod.snd := by
            rw [List.map_map]
            exact List.map_congr_left hstored
          have hnames : ((c :: cs).map Prod.fst).Pairwise fun x y =>
              x = y → storeExpression (c :: cs) s.vars x = .null := by
            rw [List.pairwise_map]
            exact List.Pairwise.imp_of_mem (fun hx _ hxy heq => (hstored _ hx).trans (hxy heq).1)
              h.names
          exact returnVars_saved hvalues (List.cons_ne_nil _ _) hop hnext hnames h.width h.literal

/-- A row that is in the registers is returned. -/
theorem exec_shows {t : Vdbe ν α} {row : List (Cell α)} (hsound : call.Sound t)
    (hshows : Shows t row) (hrest : Rest call.literal t rows) (fuel : ℕ) :
    call.Steps (row :: rows) (call.exec x (fuel + 1) 2 t) := by
  have hexec : call.exec x (fuel + 1) 2 t =
      (.row (((t.aMem.getD []).drop 1).take t.nResColumn), { t with status := .stopped 3 }) := by
    rw [PreparedCall.exec, show t.op 2 = t.resultRow from rfl, hshows.op]
  rw [hexec, hshows.cells]
  exact .row (hsound.withStatus _) rfl (hrest.withStatus _)

/-- **A step after a row** returns the next one. -/
theorem exec_rest (hsound : call.Sound s) (hrest : Rest call.literal s rows) (fuel : ℕ) :
    call.Steps rows (call.exec x (fuel + 2) 3 s) := by
  have hop : s.op 3 = s.nextResult := rfl
  have hhalt : ∀ t : Vdbe ν α, call.exec x (fuel + 1) 4 t = (.done, { t with status := .halted }) :=
    fun _ => rfl
  rcases hrest with ⟨hnoop, rfl⟩ | ⟨a, mem, cells, hpending, rfl⟩
  · rw [PreparedCall.exec, hop, hnoop]
    dsimp only
    rw [hhalt]
    exact .done (hsound.withStatus _) rfl
  cases cells with
  | nil =>
      rw [PreparedCall.exec, hop, hpending.op]
      dsimp only
      rw [hpending.fetch_nil]
      dsimp only
      rw [hhalt]
      exact .done ⟨hsound.called, hsound.overrun, hsound.lists⟩ rfl
  | cons c cells =>
      obtain ⟨t, hnext, hleaves, hshows, mem', hpending', hrows⟩ := hpending.fetch_cons
      have hsound' : call.Sound t :=
        ⟨hleaves.called.trans hsound.called, hleaves.overrun.trans hsound.overrun,
          fun a ha => (hleaves.lists a ha).trans (hsound.lists a ha)⟩
      rw [PreparedCall.exec, hop, hpending.op]
      dsimp only
      rw [hnext, List.map_cons, ← hrows]
      exact exec_shows hsound' hshows (.inr ⟨a, mem', cells, hpending', rfl⟩) fuel

/-- **`executeStoredProcedure`** has the first row of the execution, or fails without one. -/
theorem executeStoredProcedure_spec (hsound : call.Sound s) (hlists : s.lists = call.literals)
    (hclean : (call.run x call.literals).Clean call.literal) :
    ∃ rc t, call.executeStoredProcedure x s = (rc, t) ∧ t.overrun = false ∧
      (rc ≠ .ok → (call.run x call.literals).rows = []) ∧
      (rc = .ok → call.Sound t ∧ Fetched call.literal t (call.run x call.literals).rows) := by
  have hnoop : ∀ t : Vdbe ν α, t.resultRow = .noop → t.nextResult = .noop →
      Fetched call.literal t [] := fun t h h' => ⟨h, .inl ⟨h', rfl⟩⟩
  unfold PreparedCall.executeStoredProcedure
  dsimp only
  rw [hlists]
  cases hrun : call.run x call.literals with
  | failed rc h => exact ⟨rc, _, rfl, hsound.overrun, fun _ => rfl, fun hrc => absurd hrc h⟩
  | finished release =>
      exact ⟨release, _, rfl, hsound.overrun, fun _ => rfl, fun _ =>
        ⟨⟨hsound.called, hsound.overrun, fun a ha => call.items_literals ha⟩, hnoop _ rfl rfl⟩⟩
  | returned cmd vars lists release =>
      rw [hrun] at hclean
      have hspec : ReturnsRows call.literal
          { s with resultRow := .noop, nextResult := .noop, vars, lists } _ _ :=
        executeReturnCommand_spec rfl rfl hclean
      dsimp only
      generalize hr : Vdbe.executeReturnCommand _ cmd = r at hspec
      have hoverrun : r.2.overrun = false := hspec.overrun.trans hsound.overrun
      by_cases hrc : r.1 = .ok
      · have hsound' : call.Sound r.2 := by
          refine ⟨(hspec.called hrc).trans hsound.called, hoverrun, fun a ha => ?_⟩
          have hkeeps := call.keeps hrun a ha
          rw [hspec.lists hrc a ha, hkeeps, call.items_literals ha]
        refine ⟨_, _, release_eq r release, hoverrun, ?_, ?_⟩
        · rw [if_pos hrc]
          cases release with
          | ok => exact fun h => absurd rfl h
          | _ => exact fun _ => rfl
        · rw [if_pos hrc]
          rintro rfl
          exact ⟨hsound', hspec.fetched hrc⟩
      · refine ⟨_, _, release_eq r release, hoverrun, ?_, ?_⟩
        · cases release with
          | ok => exact fun _ => hspec.none hrc
          | _ => exact fun _ => rfl
        · rw [if_neg hrc]
          exact fun h => absurd h hrc

/-- **A step that begins an execution** returns its first row. -/
theorem exec_begin (hsound : call.Sound s) (hlists : s.lists = call.literals)
    (hclean : (call.run x call.literals).Clean call.literal) :
    call.Steps (call.run x call.literals).rows (call.exec x 6 1 s) := by
  obtain ⟨rc, t, hexec, hoverrun, hnone, hok⟩ := executeStoredProcedure_spec hsound hlists hclean
  rw [PreparedCall.exec, show s.op 1 = .callProcedure from rfl]
  dsimp only
  rw [if_pos hsound.called, hexec]
  by_cases hrc : rc = .ok
  · subst hrc
    obtain ⟨hsound', hfetched⟩ := hok rfl
    cases hrows : (call.run x call.literals).rows with
    | nil =>
        rw [hrows] at hfetched
        obtain ⟨hop, hrest⟩ := hfetched
        dsimp only
        rw [PreparedCall.exec, show t.op 2 = t.resultRow from rfl, hop]
        exact exec_rest hsound' hrest 2
    | cons row rows =>
        rw [hrows] at hfetched
        exact exec_shows hsound' hfetched.1 hfetched.2 4
  · rw [hnone hrc]
    cases rc with
    | ok => exact absurd rfl hrc
    | _ => exact .error rfl hoverrun rfl

/-! ## Runs -/

/-- The first step of an execution keeps the invariant. -/
theorem inv_begin {s : Stepping ν α} {u : Vdbe ν α} (hcalled : u.called = s.stmt.called)
    (hoverrun : u.overrun = false)
    (hsound : u.called = true → call.Sound u ∧ u.lists = call.literals)
    (hclean : (call.run x call.literals).Clean call.literal) :
    call.Inv ((call.begin x s).after (call.exec x 6 1 u)) := by
  by_cases hu : u.called = true
  · obtain ⟨hsound, hlists⟩ := hsound hu
    refine (exec_begin hsound hlists hclean).inv ?_
    exact if_pos (hcalled ▸ hu)
  · rw [PreparedCall.exec, show u.op 1 = .callProcedure from rfl]
    dsimp only
    rw [if_neg hu]
    have hmisuse : call.Steps [] (.error .misuse, { u with status := .halted }) :=
      .error (Bool.eq_false_iff.2 hu) hoverrun rfl
    refine hmisuse.inv ?_
    exact if_neg (hcalled ▸ hu)

/-- **Each action keeps the invariant**, if an execution that it begins returns only what can be
returned. -/
theorem inv_next {s t : Stepping ν α} {a : StmtAction ι} (h : call.Inv s)
    (hclean : call.CleanStep s a) (ht : call.next s a = some t) : call.Inv t := by
  cases a with
  | reset =>
      obtain rfl := Option.some.inj ht
      refine ⟨nofun, (reset_overrun _).trans h.overrun, fun hc => ?_,
        fun _ => ⟨rfl, rfl, fun hc => ?_⟩,
        fun pc hpc => ?_, fun hpc => ?_⟩
      · exact (h.sound ((reset_called _).symm.trans hc)).reset.1
      · exact (h.sound ((reset_called _).symm.trans hc)).reset.2
      · exact nomatch (reset_status _).symm.trans hpc
      · exact nomatch (reset_status _).symm.trans hpc
  | step x =>
      have hx := hclean x rfl
      unfold PreparedCall.next at ht
      cases hstatus : s.stmt.status with
      | ready =>
          simp only [hstatus, PreparedCall.step] at ht hx
          obtain rfl := Option.some.inj ht
          exact inv_begin rfl h.overrun
            (fun hc => ⟨h.sound hc, (h.ready hstatus).2.2 hc⟩) (hx nofun)
      | halted =>
          simp only [hstatus, PreparedCall.step] at ht hx
          obtain rfl := Option.some.inj ht
          exact inv_begin (reset_called _) ((reset_overrun _).trans h.overrun)
            (fun hc => (h.sound ((reset_called _).symm.trans hc)).reset) (hx nofun)
      | stopped pc =>
          obtain ⟨rfl, hcalled, rows, hrows, hrest⟩ := h.stopped pc hstatus
          simp only [hstatus, PreparedCall.step] at ht
          obtain rfl := Option.some.inj ht
          exact (exec_rest (h.sound hcalled) hrest 4).inv hrows

end Return

/-! ## A list that is written in the procedure -/

/-- `SET @list = [[1, 2], [], NULL]; RETURN @list`, where the item at the end may be another one. -/
def listProcedure (item : Cell ℕ) (h : ∀ b, item = .list b → b < 2) : PreparedCall Unit ℕ Unit where
  literal a := a < 3
  written :=
    { items := fun a =>
        if a = 0 then [.scalar 1, .scalar 2]
        else if a = 2 then [.list 0, .list 1, item]
        else []
      below := fun a b hb => by
        split_ifs at hb with h₀ h₂
        · simp at hb
        · subst h₂
          simp only [List.mem_cons, Cell.list.injEq, List.not_mem_nil, or_false] at hb
          rcases hb with rfl | rfl | hb
          · decide
          · decide
          · exact h b hb.symm
        · exact absurd hb List.not_mem_nil }
  run _ l := .returned (.vars [()] (List.pairwise_singleton _ _)) (fun _ => .list 2) l .ok
  keeps h a _ := by
    cases h
    rfl

end StoredProc
end AergoLite
