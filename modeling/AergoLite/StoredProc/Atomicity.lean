/-
# What a failed call of a procedure leaves

`executeStoredProcedure` opens a savepoint of a random name, executes the commands, and releases the
savepoint at `loc_exit`, after a rollback to it where the commands came to `loc_error`.  The two
labels jump to each other: a savepoint that cannot be released is rolled back once more, and
released once more.  That goes on for as long as it fails, which is forever if the savepoint is
gone, as it is after an `INSERT OR ROLLBACK` or an error that rolls back the transaction.  And RAISE
ends at `loc_exit`: its savepoint is released, with all that the commands have changed.

`atomicCall_iff` says when a call ends, and leaves the database and the savepoints as they were
wherever it returns an error.
-/

import AergoLite.Library.Loops
import AergoLite.Library.Savepoints
import AergoLite.StoredProc.Commands

namespace AergoLite
namespace StoredProc

open Loops Savepoints

/-! ## The savepoint of a call -/

/-- The result code of a command that fails. -/
abbrev Failure := { rc : Rc // rc ≠ .ok }

/-- What may happen to a command on a savepoint, whether it is open or not. -/
inductive Fault
  | none
  /-- The command does nothing, as where an SQL statement is in progress. -/
  | refused (rc : Failure)
  /-- The transaction is rolled back with all of its savepoints, as after an I/O error. -/
  | rolledBack (rc : Failure)
  deriving DecidableEq

/-- The command does nothing. -/
def Fault.IsRefused : Fault → Prop
  | refused _ => True
  | _ => False

/-- The transaction is rolled back. -/
def Fault.IsRolledBack : Fault → Prop
  | rolledBack _ => True
  | _ => False

/-- What happens to the commands on the savepoint of a call, one after the other. -/
structure Faults where
  savepoint : Fault
  rollback : ℕ → Fault
  release : ℕ → Fault

/-- The first `ROLLBACK TO` is over. -/
def Faults.afterRollback (f : Faults) : Faults := { f with rollback := fun i => f.rollback (i + 1) }

/-- The first `RELEASE` is over. -/
def Faults.afterRelease (f : Faults) : Faults := { f with release := fun i => f.release (i + 1) }

/-- The connection to the database: its content and savepoints, and what else the commands use, such
as the variables and the prepared statements. -/
structure Session (ν W V : Type) where
  content : W
  nesting : Nesting ν W
  rest : V

variable {ν W V : Type} [DecidableEq ν]

namespace Session

/-- `SAVEPOINT name`. -/
def savepoint (name : ν) (s : Session ν W V) : Option (Session ν W V) :=
  some { s with nesting := s.nesting.savepoint name s.content }

/-- `ROLLBACK TO name`. -/
def rollbackTo (name : ν) (s : Session ν W V) : Option (Session ν W V) :=
  (s.nesting.rollbackTo name).map fun r => { s with content := r.1, nesting := r.2 }

/-- `RELEASE name`. -/
def release (name : ν) (s : Session ν W V) : Option (Session ν W V) :=
  (s.nesting.release name).map fun nesting => { s with nesting }

/-- The transaction is rolled back. -/
def rollbackAll (s : Session ν W V) : Session ν W V :=
  { s with content := s.nesting.origin s.content, nesting := .closed }

/-- `sqlite3_exec` of a command on a savepoint. -/
def exec (op : Session ν W V → Option (Session ν W V)) (fault : Fault) (s : Session ν W V) :
    Rc × Session ν W V :=
  match fault with
  | .refused rc => (rc, s)
  | .rolledBack rc => (rc, s.rollbackAll)
  | .none =>
    match op s with
    | some s => (.ok, s)
    | none => (.error, s)

end Session

/-- What the commands do; `step` says whether there is a row. -/
structure Sql (ν W V : Type) where
  execute : ℕ → Session ν W V → Rc × Session ν W V
  expression : ℕ → Session ν W V → Except Failure Bool × Session ν W V
  input : ℕ → Session ν W V → ForeachInput
  prepare : ℕ → Session ν W V → Rc × Session ν W V
  step : ℕ → Session ν W V → Except Failure Bool × Session ν W V
  store : ℕ → ℕ → Session ν W V → Rc × Session ν W V
  copyProcedureParameters : V → V

/-- The engine of a procedure, with what it does to its savepoint. -/
def Sql.engine (sql : Sql ν W V) (savepoint : Session ν W V → Rc × Session ν W V)
    (release : Bool → Rc → Session ν W V → Rc × Session ν W V) : Engine (Session ν W V) where
  execute := sql.execute
  expression pos s :=
    match sql.expression pos s with
    | (.ok result, s) => (.ok result, s)
    | (.error rc, s) => (.error rc, s)
  input := sql.input
  prepare := sql.prepare
  step pos s :=
    match sql.step pos s with
    | (.ok true, s) => (.row, s)
    | (.ok false, s) => (.done, s)
    | (.error rc, s) => (.error rc, s)
  store := sql.store
  savepoint := savepoint
  copyProcedureParameters s := { s with rest := sql.copyProcedureParameters s.rest }
  release := release

/-- The engine, as far as the commands use it. -/
def Sql.commands (sql : Sql ν W V) : Engine (Session ν W V) :=
  sql.engine (fun s => (.ok, s)) fun _ rc s => (rc, s)

/-- Where `executeStoredProcedure` is after its commands: at `loc_error`, if it has `failed`, or at
`loc_exit`. -/
structure Labels (ν W V : Type) where
  failed : Bool
  faults : Faults
  rc : Rc
  session : Session ν W V

/-- The first error is the one that is returned. -/
def keepRc (rc rc2 : Rc) : Rc := if rc = .ok then rc2 else rc

/-- From a label to the other one, or to the end. -/
def labelRound (name : ν) (s : Labels ν W V) : Turn (Labels ν W V) (Rc × Session ν W V) :=
  if s.failed then
    let (rc2, session) := s.session.exec (Session.rollbackTo name) (s.faults.rollback 0)
    .again ⟨false, s.faults.afterRollback, keepRc s.rc rc2, session⟩
  else
    let (rc2, session) := s.session.exec (Session.release name) (s.faults.release 0)
    if rc2 ≠ .ok then .again ⟨true, s.faults.afterRelease, keepRc s.rc rc2, session⟩
    else .ends (s.rc, session)

/-- The labels that the commands come to. -/
def Ended.labels (f : Faults) (session : Session ν W V) : Ended → Option (Labels ν W V)
  | .exit rc => some ⟨false, f, rc, session⟩
  | .error rc => some ⟨true, f, rc, session⟩
  | .running => none

/-- `executeStoredProcedure`, with fuel for its commands and for its labels. -/
def executeToEnd (sql : Sql ν W V) (name : ν) (f : Faults) (cmds : List Command)
    (fuel rounds : ℕ) (s : Execution (Session ν W V)) :
    Option (Rc × Execution (Session ν W V)) :=
  match s.world.state.exec (Session.savepoint name) f.savepoint with
  | (.ok, session) =>
    let (x, s) := commandLoop sql.commands cmds fuel 0
      (s.put (sql.commands.copyProcedureParameters session))
    (x.labels f s.world.state).bind fun labels =>
      (run (labelRound name) rounds labels).map fun r => (r.1, s.put r.2)
  | (rc, session) => some (rc, s.put session)

/-! ## From one label to the other -/

/-- **The savepoint is released in the end**: the first `RELEASE` that succeeds comes after `k` that
were refused, and no `ROLLBACK TO` before it rolls back the transaction. -/
structure Faults.Recovers (f : Faults) (failed : Bool) (k : ℕ) : Prop where
  released : f.release k = .none
  refused : ∀ i < k, (f.release i).IsRefused
  kept : ∀ i < k + failed.toNat, ¬(f.rollback i).IsRolledBack

/-- One of the `ROLLBACK TO` before that succeeds. -/
def Faults.Restores (f : Faults) (failed : Bool) (k : ℕ) : Prop :=
  ∃ i < k + failed.toNat, f.rollback i = .none

instance (f : Faults) (failed : Bool) (k : ℕ) : Decidable (f.Restores failed k) := by
  unfold Faults.Restores
  infer_instance

section
variable {f : Faults} {k : ℕ}

theorem recovers_zero : f.Recovers false 0 ↔ f.release 0 = .none :=
  ⟨fun h => h.released, fun h => ⟨h, fun i hi => absurd hi (Nat.not_lt_zero i),
    fun i hi => absurd hi (Nat.not_lt_zero i)⟩⟩

theorem recovers_succ :
    f.Recovers false (k + 1) ↔ (f.release 0).IsRefused ∧ f.afterRelease.Recovers true k := by
  constructor
  · rintro ⟨hreleased, hrefused, hkept⟩
    exact ⟨hrefused 0 (Nat.succ_pos k), hreleased, fun i hi => hrefused (i + 1) (by omega), hkept⟩
  · rintro ⟨hfirst, hreleased, hrefused, hkept⟩
    refine ⟨hreleased, fun i hi => ?_, hkept⟩
    cases i with
    | zero => exact hfirst
    | succ i => exact hrefused i (by omega)

theorem recovers_failed : f.Recovers true k ↔
    ¬(f.rollback 0).IsRolledBack ∧ f.afterRollback.Recovers false k := by
  constructor
  · rintro ⟨hreleased, hrefused, hkept⟩
    exact ⟨hkept 0 (Nat.succ_pos k), hreleased, hrefused, fun i hi => hkept (i + 1) (by
      simp only [Bool.toNat_true, Bool.toNat_false] at hi ⊢
      omega)⟩
  · rintro ⟨hfirst, hreleased, hrefused, hkept⟩
    refine ⟨hreleased, hrefused, fun i hi => ?_⟩
    cases i with
    | zero => exact hfirst
    | succ i => exact hkept i (Nat.lt_of_succ_lt_succ hi)

theorem not_restores_zero : ¬f.Restores false 0 := fun ⟨i, hi, _⟩ => Nat.not_lt_zero i hi

theorem restores_succ : f.Restores false (k + 1) ↔ f.afterRelease.Restores true k := Iff.rfl

theorem restores_failed : f.Restores true k ↔
    f.rollback 0 = .none ∨ f.afterRollback.Restores false k := by
  constructor
  · rintro ⟨i, hi, hnone⟩
    cases i with
    | zero => exact .inl hnone
    | succ i => exact .inr ⟨i, Nat.lt_of_succ_lt_succ hi, hnone⟩
  · rintro (hnone | ⟨i, hi, hnone⟩)
    · exact ⟨0, Nat.succ_pos k, hnone⟩
    · exact ⟨i + 1, Nat.succ_lt_succ hi, hnone⟩

end

section
variable {name : ν} {s s' : Session ν W V} {fault : Fault} {w : W} {m : Nesting ν W} {rc rc2 : Rc}

omit [DecidableEq ν] in
theorem exec_some {op : Session ν W V → Option (Session ν W V)} (h : op s = some s') :
    s.exec op .none = (.ok, s') := by
  unfold Session.exec
  rw [h]

omit [DecidableEq ν] in
theorem exec_none {op : Session ν W V → Option (Session ν W V)} (h : op s = none) :
    s.exec op .none = (.error, s) := by
  unfold Session.exec
  rw [h]

omit [DecidableEq ν] in
theorem exec_refused (op : Session ν W V → Option (Session ν W V)) (h : fault.IsRefused) :
    ∃ rc : Failure, s.exec op fault = (rc.1, s) := by
  cases fault with
  | none => exact absurd h id
  | refused rc => exact ⟨rc, rfl⟩
  | rolledBack rc => exact absurd h id

theorem rollbackTo_over (h : s.nesting.Over name w m) : s.rollbackTo name =
    some { s with content := w, nesting := m.savepoint name w } := by
  rw [Session.rollbackTo, h.rollbackTo]
  rfl

theorem release_over (h : s.nesting.Over name w m) :
    s.release name = some { s with nesting := m } := by
  rw [Session.release, h.release]
  rfl

/-- The savepoint is open after a rollback to it. -/
theorem over_of_rollback (h : (s.exec (Session.rollbackTo name) fault).2.nesting.Over name w m) :
    s.nesting.Over name w m ∧ ¬fault.IsRolledBack ∧
      (s.exec (Session.rollbackTo name) fault).2.content =
        if fault = .none then w else s.content := by
  cases fault with
  | none =>
      by_cases hfree : s.nesting.Free name
      · rw [exec_none (by rw [Session.rollbackTo, hfree.rollbackTo]; rfl)] at h
        exact absurd hfree h.not_free
      · obtain ⟨w', m', hover⟩ := Nesting.exists_over hfree
        rw [exec_some (rollbackTo_over hover)] at h ⊢
        obtain ⟨rfl, rfl⟩ := h.unique Nesting.over_savepoint
        exact ⟨hover, id, (if_pos rfl).symm⟩
  | refused rc => exact ⟨h, id, (if_neg nofun).symm⟩
  | rolledBack rc => exact absurd Nesting.free_closed h.not_free

/-- The savepoint is still open after a `RELEASE` that fails. -/
theorem refused_of_release (h : s.exec (Session.release name) fault = (rc2, s')) (hrc : rc2 ≠ .ok)
    (hover : s'.nesting.Over name w m) : fault.IsRefused ∧ s' = s := by
  cases fault with
  | none =>
      by_cases hfree : s.nesting.Free name
      · rw [exec_none (by rw [Session.release, hfree.release]; rfl)] at h
        obtain ⟨-, rfl⟩ := Prod.mk.inj h
        exact absurd hfree hover.not_free
      · obtain ⟨w', m', hover'⟩ := Nesting.exists_over hfree
        rw [exec_some (release_over hover')] at h
        exact absurd (Prod.mk.inj h).1.symm hrc
  | refused rc => exact ⟨trivial, (Prod.mk.inj h).2.symm⟩
  | rolledBack rc =>
      obtain ⟨-, rfl⟩ := Prod.mk.inj h
      exact absurd Nesting.free_closed hover.not_free

/-- A `RELEASE` that succeeds. -/
theorem over_of_release (h : s.exec (Session.release name) fault = (.ok, s')) :
    fault = .none ∧ ∃ w m, s.nesting.Over name w m ∧ s' = { s with nesting := m } := by
  cases fault with
  | none =>
      by_cases hfree : s.nesting.Free name
      · rw [exec_none (by rw [Session.release, hfree.release]; rfl)] at h
        exact absurd (Prod.mk.inj h).1 nofun
      · obtain ⟨w, m, hover⟩ := Nesting.exists_over hfree
        rw [exec_some (release_over hover)] at h
        exact ⟨rfl, w, m, hover, (Prod.mk.inj h).2.symm⟩
  | refused rc => exact absurd (Prod.mk.inj h).1 rc.2
  | rolledBack rc => exact absurd (Prod.mk.inj h).1 rc.2

theorem keepRc_eq_ok : keepRc rc rc2 = .ok ↔ rc = .ok ∧ rc2 = .ok := by
  unfold keepRc
  split_ifs with h <;> simp [h]

end

section
variable {name : ν} {f : Faults} {failed : Bool} {rc : Rc} {s : Session ν W V} {w : W}
  {m : Nesting ν W} {k : ℕ} {r : Rc × Session ν W V}

/-- What the labels leave of a savepoint that saved `w` and was opened over `m`. -/
structure Leaves (f : Faults) (failed : Bool) (k : ℕ) (rc : Rc) (s : Session ν W V) (w : W)
    (m : Nesting ν W) (r : Rc × Session ν W V) : Prop where
  rc : r.1 = .ok ↔ rc = .ok ∧ k = 0
  content : r.2.content = if f.Restores failed k then w else s.content
  nesting : r.2.nesting = m

theorem labelRound_failed (name : ν) (f : Faults) (rc : Rc) (s : Session ν W V) :
    labelRound name ⟨true, f, rc, s⟩ =
      .again ⟨false, f.afterRollback,
        keepRc rc (s.exec (Session.rollbackTo name) (f.rollback 0)).1,
        (s.exec (Session.rollbackTo name) (f.rollback 0)).2⟩ := rfl

theorem labelRound_exit (name : ν) (f : Faults) (rc : Rc) (s : Session ν W V) :
    labelRound name ⟨false, f, rc, s⟩ =
      if (s.exec (Session.release name) (f.release 0)).1 ≠ .ok then
        .again ⟨true, f.afterRelease, keepRc rc (s.exec (Session.release name) (f.release 0)).1,
          (s.exec (Session.release name) (f.release 0)).2⟩
      else .ends (rc, (s.exec (Session.release name) (f.release 0)).2) := rfl

theorem labelRound_released (hover : s.nesting.Over name w m) (hrelease : f.release 0 = .none) :
    labelRound name ⟨false, f, rc, s⟩ = .ends (rc, { s with nesting := m }) := by
  rw [labelRound_exit, hrelease, exec_some (release_over hover)]
  rfl

theorem labelRound_refused (hrelease : (f.release 0).IsRefused) :
    ∃ rc' ≠ .ok, labelRound name ⟨false, f, rc, s⟩ = .again ⟨true, f.afterRelease, rc', s⟩ := by
  obtain ⟨rc2, hexec⟩ := exec_refused (s := s) (Session.release name) hrelease
  refine ⟨keepRc rc rc2, fun h => rc2.2 (keepRc_eq_ok.1 h).2, ?_⟩
  rw [labelRound_exit, hexec]
  exact if_pos rc2.2

/-- The rollback of `loc_error`, before what comes then. -/
theorem Leaves.rolledBack (hrc : rc ≠ .ok)
    (hrollback : (s.exec (Session.rollbackTo name) (f.rollback 0)).2.content =
      if f.rollback 0 = .none then w else s.content)
    (h : Leaves f.afterRollback false k (keepRc rc (s.exec (Session.rollbackTo name)
      (f.rollback 0)).1) (s.exec (Session.rollbackTo name) (f.rollback 0)).2 w m r) :
    Leaves f true k rc s w m r where
  rc := by
    rw [h.rc, keepRc_eq_ok]
    exact iff_of_false (fun heq => hrc heq.1.1) fun heq => hrc heq.1
  content := by
    rw [h.content, hrollback]
    by_cases hlater : f.afterRollback.Restores false k
    · rw [if_pos hlater, if_pos (restores_failed.2 (.inr hlater))]
    · by_cases hnone : f.rollback 0 = .none
      · rw [if_neg hlater, if_pos hnone, if_pos (restores_failed.2 (.inl hnone))]
      · rw [if_neg hlater, if_neg hnone, if_neg (mt restores_failed.1 (not_or.2 ⟨hnone, hlater⟩))]
  nesting := h.nesting

omit [DecidableEq ν] in
/-- The `RELEASE` of `loc_exit` fails, before what comes then. -/
theorem Leaves.retried {rc' : Rc} (hrc' : rc' ≠ .ok)
    (h : Leaves f.afterRelease true k rc' s w m r) :
    Leaves f false (k + 1) rc s w m r where
  rc := by
    rw [h.rc]
    exact iff_of_false (fun heq => hrc' heq.1) fun heq => Nat.succ_ne_zero k heq.2
  content := h.content
  nesting := h.nesting

omit [DecidableEq ν] in
theorem leaves_released : Leaves f false 0 rc s w m (rc, { s with nesting := m }) where
  rc := ⟨fun h => ⟨h, rfl⟩, fun h => h.1⟩
  content := (if_neg not_restores_zero).symm
  nesting := rfl

/-- **Where the labels come to an end**, the savepoint is open, and is released there. -/
theorem recovers_of_run {fuel : ℕ} (hrc : failed = true → rc ≠ .ok)
    (h : run (labelRound name) fuel ⟨failed, f, rc, s⟩ = some r) :
    ∃ w m k, s.nesting.Over name w m ∧ f.Recovers failed k ∧ Leaves f failed k rc s w m r := by
  induction fuel generalizing failed f rc s with
  | zero => exact absurd h nofun
  | succ fuel ih =>
      cases failed with
      | true =>
          rw [run_again (labelRound_failed name f rc s)] at h
          obtain ⟨w, m, k, hover, hrecovers, hleaves⟩ :=
            ih (fun hfailed => absurd hfailed Bool.false_ne_true) h
          obtain ⟨hopen, hkept, hcontent⟩ := over_of_rollback hover
          exact ⟨w, m, k, hopen, recovers_failed.2 ⟨hkept, hrecovers⟩,
            hleaves.rolledBack (hrc rfl) hcontent⟩
      | false =>
          have hround := labelRound_exit name f rc s
          generalize hexec : s.exec (Session.release name) (f.release 0) = e at hround
          obtain ⟨rc2, s'⟩ := e
          by_cases hok : rc2 = .ok
          · obtain rfl := hok
            obtain ⟨hnone, w, m, hover, rfl⟩ := over_of_release hexec
            rw [run_ends (hround.trans (if_neg (not_not.2 rfl)))] at h
            obtain rfl := Option.some.inj h
            exact ⟨w, m, 0, hover, recovers_zero.2 hnone, leaves_released⟩
          · rw [run_again (hround.trans (if_pos hok))] at h
            have hkeep : keepRc rc rc2 ≠ .ok := fun heq => hok (keepRc_eq_ok.1 heq).2
            obtain ⟨w, m, k, hover, hrecovers, hleaves⟩ := ih (fun _ => hkeep) h
            obtain ⟨hrefused, rfl⟩ := refused_of_release hexec hok hover
            exact ⟨w, m, k + 1, hover, recovers_succ.2 ⟨hrefused, hrecovers⟩,
              hleaves.retried hkeep⟩

/-- From `loc_error`, where the labels come to an end from `loc_exit` on. -/
theorem exists_run_failed (hrc : rc ≠ .ok) (hover : s.nesting.Over name w m)
    (hrecovers : f.Recovers true k)
    (hexit : ∀ (f : Faults) (rc : Rc) (s : Session ν W V), s.nesting.Over name w m →
      f.Recovers false k → ∃ fuel r, run (labelRound name) fuel ⟨false, f, rc, s⟩ = some r ∧
        Leaves f false k rc s w m r) :
    ∃ fuel r, run (labelRound name) fuel ⟨true, f, rc, s⟩ = some r ∧
      Leaves f true k rc s w m r := by
  obtain ⟨hkept, hrecovers⟩ := recovers_failed.1 hrecovers
  have hopen : (s.exec (Session.rollbackTo name) (f.rollback 0)).2.nesting.Over name w m := by
    cases hfault : f.rollback 0 with
    | none =>
        rw [exec_some (rollbackTo_over hover)]
        exact Nesting.over_savepoint
    | refused rc => exact hover
    | rolledBack rc =>
        rw [hfault] at hkept
        exact absurd trivial hkept
  obtain ⟨-, -, hcontent⟩ := over_of_rollback hopen
  obtain ⟨fuel, r, hrun, hleaves⟩ := hexit f.afterRollback _ _ hopen hrecovers
  exact ⟨fuel + 1, r, (run_again (labelRound_failed name f rc s) fuel).trans hrun,
    hleaves.rolledBack hrc hcontent⟩

/-- **Where the savepoint is open and can be released in the end**, the labels come to an end. -/
theorem exists_run (hrc : failed = true → rc ≠ .ok) (hover : s.nesting.Over name w m)
    (hrecovers : f.Recovers failed k) :
    ∃ fuel r, run (labelRound name) fuel ⟨failed, f, rc, s⟩ = some r ∧
      Leaves f failed k rc s w m r := by
  have hexit : ∀ (f : Faults) (rc : Rc) (s : Session ν W V), s.nesting.Over name w m →
      f.Recovers false k → ∃ fuel r, run (labelRound name) fuel ⟨false, f, rc, s⟩ = some r ∧
        Leaves f false k rc s w m r := by
    clear hrc hover hrecovers
    induction k with
    | zero =>
        intro f rc s hover hrecovers
        exact ⟨1, _, run_ends (labelRound_released hover (recovers_zero.1 hrecovers)) 0,
          leaves_released⟩
    | succ k ih =>
        intro f rc s hover hrecovers
        obtain ⟨hrefused, hrecovers⟩ := recovers_succ.1 hrecovers
        obtain ⟨rc', hrc', hround⟩ := @labelRound_refused _ _ _ _ name f rc s hrefused
        obtain ⟨fuel, r, hrun, hleaves⟩ := exists_run_failed hrc' hover hrecovers ih
        exact ⟨fuel + 1, r, (run_again hround fuel).trans hrun, hleaves.retried hrc'⟩
  cases failed with
  | true => exact exists_run_failed (hrc rfl) hover hrecovers hexit
  | false => exact hexit f rc s hover hrecovers

end

/-! ## The commands -/

section
variable {sql : Sql ν W V} {cmds : List Command} {s t : Execution (Session ν W V)} {x : Ended}

/-- The commands came to `loc_error`. -/
def Ended.failed : Ended → Bool
  | .error _ => true
  | _ => false

/-- The result code with which they came to a label. -/
def Ended.rc : Ended → Rc
  | .exit rc => rc
  | .error rc => rc
  | .running => .ok

omit [DecidableEq ν] in
theorem labels_eq_some {f : Faults} {session : Session ν W V} {labels : Labels ν W V} :
    x.labels f session = some labels ↔
      x ≠ .running ∧ labels = ⟨x.failed, f, x.rc, session⟩ := by
  cases x with
  | exit rc => exact ⟨fun h => ⟨nofun, (Option.some.inj h).symm⟩, fun h => congrArg some h.2.symm⟩
  | error rc => exact ⟨fun h => ⟨nofun, (Option.some.inj h).symm⟩, fun h => congrArg some h.2.symm⟩
  | running => exact ⟨nofun, fun h => absurd rfl h.1⟩

omit [DecidableEq ν] in
/-- The result code of a FOREACH that fails is that of an error. -/
theorem rc_ne_ok_of_fetch {pos item next : ℕ} {state state' : Session ν W V} {rc : Rc}
    (h : executeForeachCommand sql.commands pos item state = (.failed rc, next, state')) :
    rc ≠ .ok := by
  have hstore : ∀ item next' state, storeRow sql.commands pos item next' state =
      (.failed rc, next, state') → rc ≠ .ok := by
    intro item next' state h
    unfold storeRow at h
    generalize sql.commands.store pos item state = r at h
    obtain ⟨rc', s'⟩ := r
    cases rc' <;> cases h <;> exact nofun
  unfold executeForeachCommand at h
  cases hinput : sql.commands.input pos state with
  | invalid =>
      rw [hinput] at h
      cases h
  | list numItems =>
      rw [hinput] at h
      dsimp only at h
      split_ifs at h with hend
      · cases h
      · exact hstore _ _ _ h
  | sql =>
      rw [hinput] at h
      dsimp only at h
      generalize (if item = 0 then sql.commands.prepare pos state else (.ok, state)) = r at h
      obtain ⟨rc', s'⟩ := r
      cases rc' with
      | ok =>
          have hstep : sql.commands.step pos s' =
              match sql.step pos s' with
              | (.ok true, s) => (.row, s)
              | (.ok false, s) => (.done, s)
              | (.error rc, s) => (.error rc, s) := rfl
          generalize sql.step pos s' = r at hstep
          obtain ⟨result, s''⟩ := r
          dsimp only at h
          rw [hstep] at h
          match result with
          | .ok true => exact hstore _ _ _ h
          | .ok false => cases h
          | .error rc' =>
              cases h
              exact rc'.2
      | _ =>
          cases h
          exact nofun

omit [DecidableEq ν] in
/-- **The commands come to `loc_error` with the result code of an error.** -/
theorem rc_ne_ok_of_command {pos : ℕ} {cmd : Command} {rc : Rc}
    (h : (executeCommand sql.commands cmds pos cmd s).1 = .ended (.error rc)) : rc ≠ .ok := by
  have htest : s.world.test sql.commands pos =
      match sql.expression pos s.world.state with
      | (.ok result, state) => (.ok result, ⟨state, s.world.ran ++ [.tested pos]⟩)
      | (.error rc, state) => (.error rc, ⟨state, s.world.ran ++ [.tested pos]⟩) := by
    unfold World.test Sql.commands Sql.engine
    dsimp only
    generalize sql.expression pos s.world.state = r
    obtain ⟨result, state⟩ := r
    cases result <;> rfl
  unfold executeCommand at h
  generalize s.world.execute sql.commands pos = r at h
  rw [htest] at h
  generalize sql.expression pos s.world.state = r' at h
  obtain ⟨rc', world⟩ := r
  obtain ⟨result, state⟩ := r'
  cases htype : cmd.type with
  | declare | endif | loop | endloop | cont | brk =>
      rw [htype] at h
      cases h
  | set | statement | assert | ret | raise =>
      rw [htype] at h
      cases rc' <;> cases h <;> exact nofun
  | cond =>
      rw [htype] at h
      match result with
      | .error rc' =>
          cases h
          exact rc'.2
      | .ok true => cases h
      | .ok false => cases h
  | elseif =>
      rw [htype] at h
      dsimp only at h
      split_ifs at h
      match result with
      | .error rc' =>
          cases h
          exact rc'.2
      | .ok true => cases h
      | .ok false => cases h
  | els =>
      rw [htype] at h
      dsimp only at h
      split_ifs at h
  | foreach =>
      rw [htype] at h
      dsimp only [World.fetch] at h
      generalize hfetch : executeForeachCommand sql.commands pos (s.currentItem pos)
        s.world.state = r at h
      obtain ⟨fetch, next, state⟩ := r
      cases fetch with
      | row => cases h
      | done => cases h
      | failed rc' =>
          cases h
          exact rc_ne_ok_of_fetch hfetch

omit [DecidableEq ν] in
theorem rc_ne_ok_of_commandLoop {fuel pos : ℕ} {rc : Rc}
    (h : commandLoop sql.commands cmds fuel pos s = (.error rc, t)) : rc ≠ .ok := by
  induction fuel generalizing pos s with
  | zero => cases h
  | succ fuel ih =>
      unfold commandLoop at h
      cases hcmd : cmds[pos]? with
      | none =>
          rw [hcmd] at h
          cases h
      | some cmd =>
          rw [hcmd] at h
          dsimp only at h
          have herror := @rc_ne_ok_of_command ν W V sql cmds s pos cmd rc
          generalize executeCommand sql.commands cmds pos cmd s = r at h herror
          obtain ⟨next, s'⟩ := r
          cases next with
          | goto pos' => exact ih h
          | ended x =>
              cases h
              exact herror rfl

end

/-! ## The call -/

section
variable (sql : Sql ν W V) (name : ν) (f : Faults) (cmds : List Command)
  (s t : Execution (Session ν W V)) (x : Ended)

/-- **A call is atomic**: it comes to an end, and where it returns an error, the database and its
savepoints are what they were before. -/
def Atomic : Prop :=
  ∃ fuel rounds rc t, executeToEnd sql name f cmds fuel rounds s = some (rc, t) ∧
    (rc ≠ .ok → t.world.state.content = s.world.state.content ∧
      t.world.state.nesting = s.world.state.nesting)

/-- The session that the commands begin with. -/
def Execution.begun : Execution (Session ν W V) :=
  s.put
    { content := s.world.state.content
      nesting := s.world.state.nesting.savepoint name s.world.state.content
      rest := sql.copyProcedureParameters s.world.state.rest }

/-- The commands come to an end. -/
def CommandsEnd : Prop :=
  x ≠ .running ∧ ∃ fuel, commandLoop sql.commands cmds fuel 0 (s.begun sql name) = (x, t)

/-- **What the commands did is released or undone.**  The savepoint is open when they end; and it is
released at once after commands that end without an error, or else the database is, when it is
released, what it was before. -/
def Settled (before after : Session ν W V) : Prop :=
  ∃ w m, after.nesting.Over name w m ∧
    (x = .exit .ok ∧ f.release 0 = .none ∨
      m = before.nesting ∧ ∃ k, f.Recovers x.failed k ∧
        (if f.Restores x.failed k then w else after.content) = before.content)

end

section
variable {sql : Sql ν W V} {name : ν} {f : Faults} {cmds : List Command}
  {s t : Execution (Session ν W V)} {x : Ended}

theorem executeToEnd_refused {rc : Failure} (h : f.savepoint = .refused rc) (fuel rounds : ℕ) :
    executeToEnd sql name f cmds fuel rounds s = some (rc.1, s) := by
  obtain ⟨rc, hrc⟩ := rc
  unfold executeToEnd
  rw [h]
  cases rc <;> first | exact absurd rfl hrc | rfl

theorem executeToEnd_rolledBack {rc : Failure} (h : f.savepoint = .rolledBack rc)
    (fuel rounds : ℕ) : executeToEnd sql name f cmds fuel rounds s =
      some (rc.1, s.put s.world.state.rollbackAll) := by
  obtain ⟨rc, hrc⟩ := rc
  unfold executeToEnd
  rw [h]
  cases rc <;> first | exact absurd rfl hrc | rfl

theorem executeToEnd_opened (h : f.savepoint = .none) (fuel rounds : ℕ) :
    executeToEnd sql name f cmds fuel rounds s =
      ((commandLoop sql.commands cmds fuel 0 (s.begun sql name)).1.labels f
        (commandLoop sql.commands cmds fuel 0 (s.begun sql name)).2.world.state).bind fun labels =>
          (run (labelRound name) rounds labels).map fun r =>
            (r.1, (commandLoop sql.commands cmds fuel 0 (s.begun sql name)).2.put r.2) := by
  unfold executeToEnd
  rw [h]
  rfl

omit [DecidableEq ν] in
/-- The commands do not use the savepoint. -/
theorem commandLoop_engine (savepoint : Session ν W V → Rc × Session ν W V)
    (release : Bool → Rc → Session ν W V → Rc × Session ν W V) (fuel pos : ℕ) :
    commandLoop (sql.engine savepoint release) cmds fuel pos s =
      commandLoop sql.commands cmds fuel pos s := by
  induction fuel generalizing pos s with
  | zero => rfl
  | succ fuel ih =>
      unfold commandLoop
      cases cmds[pos]? with
      | none => rfl
      | some cmd =>
          have hcommand : executeCommand (sql.engine savepoint release) cmds pos cmd s =
              executeCommand sql.commands cmds pos cmd s := rfl
          dsimp only
          rw [hcommand]
          generalize executeCommand sql.commands cmds pos cmd s = r
          obtain ⟨next, s'⟩ := r
          cases next with
          | goto pos' => exact ih pos'
          | ended x => rfl

/-- **A call that comes to an end** is one of `executeStoredProcedure`, with an engine that opens
and releases the savepoint in this way. -/
theorem executeStoredProcedure_eq {fuel rounds : ℕ} {rc : Rc}
    (hend : executeToEnd sql name f cmds fuel rounds s = some (rc, t)) :
    executeStoredProcedure (sql.engine (fun s => s.exec (Session.savepoint name) f.savepoint)
      fun failed rc s => (run (labelRound name) rounds ⟨failed, f, rc, s⟩).getD (rc, s))
      cmds fuel s = (some rc, t) := by
  unfold executeStoredProcedure withSavepoint
  unfold executeToEnd at hend
  have hopen : (sql.engine (fun s => s.exec (Session.savepoint name) f.savepoint)
      fun failed rc s => (run (labelRound name) rounds ⟨failed, f, rc, s⟩).getD (rc, s)).savepoint
      s.world.state = s.world.state.exec (Session.savepoint name) f.savepoint := rfl
  rw [hopen]
  generalize s.world.state.exec (Session.savepoint name) f.savepoint = r at hend
  obtain ⟨rc', session⟩ := r
  cases rc' with
  | ok =>
      dsimp only at hend ⊢
      rw [commandLoop_engine]
      have hcopy : (sql.engine (fun s => s.exec (Session.savepoint name) f.savepoint)
          fun failed rc s => (run (labelRound name) rounds ⟨failed, f, rc, s⟩).getD
            (rc, s)).copyProcedureParameters session =
              sql.commands.copyProcedureParameters session := rfl
      rw [hcopy]
      generalize commandLoop sql.commands cmds fuel 0 _ = r at hend
      obtain ⟨x, t'⟩ := r
      obtain ⟨labels, hlabels, hmap⟩ := Option.bind_eq_some_iff.1 hend
      obtain ⟨r, hrun, hr⟩ := Option.map_eq_some_iff.1 hmap
      obtain ⟨rfl, rfl⟩ := Prod.mk.inj hr
      cases x with
      | exit rc =>
          obtain rfl := Option.some.inj hlabels
          simp only [finishCall, Sql.engine, hrun, Option.getD_some]
      | error rc =>
          obtain rfl := Option.some.inj hlabels
          simp only [finishCall, Sql.engine, hrun, Option.getD_some]
      | running => cases hlabels
  | _ =>
      cases hend
      rfl

omit [DecidableEq ν] in
/-- The labels that the commands come to have the result code of an error, or none. -/
theorem CommandsEnd.rc_ne_ok (h : CommandsEnd sql name cmds s t x) (hfailed : x.failed = true) :
    x.rc ≠ .ok := by
  obtain ⟨-, fuel, hloop⟩ := h
  cases x with
  | exit rc => exact absurd hfailed Bool.false_ne_true
  | error rc => exact rc_ne_ok_of_commandLoop hloop
  | running => exact absurd hfailed Bool.false_ne_true

/-- **What a call leaves that comes to an end.** -/
theorem leaves_of_executeToEnd {fuel rounds : ℕ} {rc : Rc} (h : f.savepoint = .none)
    (hend : executeToEnd sql name f cmds fuel rounds s = some (rc, t)) :
    ∃ x t', CommandsEnd sql name cmds s t' x ∧ ∃ w m k, t'.world.state.nesting.Over name w m ∧
      f.Recovers x.failed k ∧
        Leaves f x.failed k x.rc t'.world.state w m (rc, t.world.state) := by
  rw [executeToEnd_opened h] at hend
  generalize hloop : commandLoop sql.commands cmds fuel 0 (s.begun sql name) = r at hend
  obtain ⟨x, t'⟩ := r
  obtain ⟨labels, hlabels, hmap⟩ := Option.bind_eq_some_iff.1 hend
  obtain ⟨hx, rfl⟩ := labels_eq_some.1 hlabels
  obtain ⟨r, hrun, hr⟩ := Option.map_eq_some_iff.1 hmap
  obtain ⟨rfl, rfl⟩ := Prod.mk.inj hr
  have hcommands : CommandsEnd sql name cmds s t' x := ⟨hx, fuel, hloop⟩
  exact ⟨x, t', hcommands, recovers_of_run hcommands.rc_ne_ok hrun⟩

/-- **A call whose savepoint can be released in the end comes to an end.** -/
theorem exists_executeToEnd {w : W} {m : Nesting ν W} {k : ℕ} (h : f.savepoint = .none)
    (hcommands : CommandsEnd sql name cmds s t x) (hover : t.world.state.nesting.Over name w m)
    (hrecovers : f.Recovers x.failed k) :
    ∃ fuel rounds rc t', executeToEnd sql name f cmds fuel rounds s = some (rc, t') ∧
      Leaves f x.failed k x.rc t.world.state w m (rc, t'.world.state) := by
  obtain ⟨hx, fuel, hloop⟩ := id hcommands
  obtain ⟨rounds, r, hrun, hleaves⟩ := @exists_run _ _ _ _ name f _ x.rc _ _ _ _
    hcommands.rc_ne_ok hover hrecovers
  refine ⟨fuel, rounds, r.1, t.put r.2, ?_, hleaves⟩
  rw [executeToEnd_opened h, hloop, labels_eq_some.2 ⟨hx, rfl⟩, Option.bind_some, hrun]
  rfl

/-- **When a call is atomic.** -/
theorem atomicCall_iff : Atomic sql name f cmds s ↔
    match f.savepoint with
    | .refused _ => True
    | .rolledBack _ => s.world.state.nesting = .closed
    | .none => ∃ x t, CommandsEnd sql name cmds s t x ∧
        Settled name f x s.world.state t.world.state := by
  cases hsavepoint : f.savepoint with
  | refused rc =>
      refine iff_of_true ⟨0, 0, rc.1, s, executeToEnd_refused hsavepoint 0 0, fun _ => ?_⟩ trivial
      exact ⟨rfl, rfl⟩
  | rolledBack rc =>
      constructor
      · rintro ⟨fuel, rounds, rc', t, hend, hsame⟩
        rw [executeToEnd_rolledBack hsavepoint] at hend
        obtain ⟨rfl, rfl⟩ := Prod.mk.inj (Option.some.inj hend)
        exact (hsame rc.2).2.symm
      · intro hclosed
        refine ⟨0, 0, rc.1, _, executeToEnd_rolledBack hsavepoint 0 0, fun _ => ⟨?_, hclosed.symm⟩⟩
        show s.world.state.nesting.origin s.world.state.content = s.world.state.content
        rw [hclosed]
        rfl
  | none =>
      constructor
      · rintro ⟨fuel, rounds, rc, t, hend, hsame⟩
        obtain ⟨x, t', hcommands, w, m, k, hover, hrecovers, hleaves⟩ :=
          leaves_of_executeToEnd hsavepoint hend
        refine ⟨x, t', hcommands, w, m, hover, ?_⟩
        by_cases hrc : rc = .ok
        · obtain ⟨hx, rfl⟩ := hleaves.rc.1 hrc
          have hfailed : x.failed = false :=
            Bool.eq_false_iff.2 fun hfailed => hcommands.rc_ne_ok hfailed hx
          refine .inl ⟨?_, hrecovers.released⟩
          cases x with
          | exit rc' => exact congrArg Ended.exit hx
          | error rc' => exact absurd hfailed.symm Bool.false_ne_true
          | running => exact absurd rfl hcommands.1
        · obtain ⟨hcontent, hnesting⟩ := hsame hrc
          exact .inr ⟨hleaves.nesting.symm.trans hnesting, k, hrecovers,
            hleaves.content.symm.trans hcontent⟩
      · rintro ⟨x, t, hcommands, w, m, hover, ⟨rfl, hreleased⟩ | ⟨rfl, k, hrecovers, hcontent⟩⟩
        · obtain ⟨fuel, rounds, rc, t', hend, hleaves⟩ :=
            exists_executeToEnd hsavepoint hcommands hover (recovers_zero.2 hreleased)
          exact ⟨fuel, rounds, rc, t', hend, fun hrc => absurd (hleaves.rc.2 ⟨rfl, rfl⟩) hrc⟩
        · obtain ⟨fuel, rounds, rc, t', hend, hleaves⟩ :=
            exists_executeToEnd hsavepoint hcommands hover hrecovers
          exact ⟨fuel, rounds, rc, t', hend,
            fun _ => ⟨hleaves.content.trans hcontent, hleaves.nesting⟩⟩

end

section
variable {name : ν} {f : Faults} {before after : Session ν W V} {x : Ended}

/-- Where the commands have left the savepoint alone, what they did is undone by any `ROLLBACK TO`
that succeeds. -/
theorem settled_of_over (h : after.nesting.Over name before.content before.nesting) :
    Settled name f x before after ↔ x = .exit .ok ∧ f.release 0 = .none ∨
      ∃ k, f.Recovers x.failed k ∧ (f.Restores x.failed k ∨ after.content = before.content) := by
  have hundone : ∀ k, (if f.Restores x.failed k then before.content else after.content) =
      before.content ↔ f.Restores x.failed k ∨ after.content = before.content := by
    intro k
    split_ifs with hrestores
    · exact iff_of_true rfl (.inl hrestores)
    · exact ⟨.inr, fun h => h.resolve_left hrestores⟩
  simp only [← hundone]
  constructor
  · rintro ⟨w, m, hover, hreleased | ⟨-, hrecovers⟩⟩
    · exact .inl hreleased
    · obtain ⟨rfl, -⟩ := hover.unique h
      exact .inr hrecovers
  · rintro (hreleased | hrecovers)
    · exact ⟨_, _, h, .inl hreleased⟩
    · exact ⟨_, _, h, .inr ⟨rfl, hrecovers⟩⟩

/-- Where they have ended the transaction, the labels jump to each other forever. -/
theorem not_settled_of_free (h : after.nesting.Free name) : ¬Settled name f x before after :=
  fun ⟨_, _, hover, _⟩ => hover.not_free h

end

/-! ## RAISE, and INSERT OR ROLLBACK -/

/-- An empty database, without a transaction. -/
def emptySession : Session ℕ (List ℕ) Unit := ⟨[], .closed, ()⟩

/-- The first command does something, and the others nothing. -/
def firstDoes (does : Session ℕ (List ℕ) Unit → Rc × Session ℕ (List ℕ) Unit) :
    Sql ℕ (List ℕ) Unit where
  execute pos s := if pos = 0 then does s else (.ok, s)
  expression _ s := (.ok true, s)
  input _ _ := .sql
  prepare _ s := (.ok, s)
  step _ s := (.ok false, s)
  store _ _ s := (.ok, s)
  copyProcedureParameters _ := ()

/-- `INSERT`. -/
def insertRow : Sql ℕ (List ℕ) Unit :=
  firstDoes fun s => (.ok, { s with content := s.content ++ [1] })

/-- `INSERT OR ROLLBACK`, where the row is there. -/
def insertOrRollback : Sql ℕ (List ℕ) Unit := firstDoes fun s => (.constraint, s.rollbackAll)

/-- No command on a savepoint fails, if it is open. -/
def noFaults : Faults := ⟨.none, fun _ => .none, fun _ => .none⟩

/-- `BEGIN INSERT ...; RAISE '...'; END`: the call fails, and the row stays. -/
theorem raise_not_atomic :
    (∃ t, executeToEnd insertRow 0 noFaults [⟨.statement, 0, 0⟩, ⟨.raise, 0, 0⟩] 2 1
      (.parsed emptySession) = some (.error, t) ∧ t.world.state.content = [1]) ∧
    ¬Atomic insertRow 0 noFaults [⟨.statement, 0, 0⟩, ⟨.raise, 0, 0⟩] (.parsed emptySession) := by
  refine ⟨⟨_, rfl, rfl⟩, ?_⟩
  rintro ⟨fuel, rounds, rc, t, hend, hsame⟩
  match fuel, rounds, hend with
  | fuel + 2, rounds + 1, hend =>
      cases hend
      exact absurd (hsame nofun).1 nofun

/-- `BEGIN INSERT OR ROLLBACK ...; END`: the savepoint is gone, and the call does not return. -/
theorem insertOrRollback_runs (fuel rounds : ℕ) :
    executeToEnd insertOrRollback 0 noFaults [⟨.statement, 0, 0⟩] fuel rounds
      (.parsed emptySession) = none := by
  refine Option.eq_none_iff_forall_not_mem.2 fun r hend => ?_
  obtain ⟨x, t, ⟨hx, fuel', hloop⟩, w, m, k, hover, -⟩ := leaves_of_executeToEnd rfl hend
  match fuel', hloop with
  | 0, hloop => exact hx (Prod.mk.inj hloop).1.symm
  | fuel' + 1, hloop =>
      cases hloop
      exact hover.not_free Nesting.free_closed

end StoredProc
end AergoLite
