/-
# The runs whose transactions are recorded

A step is regular (`Connection.Regular`) if it does not take the log or the last command of a
transaction away before its pages are written.  Then the log is that of the commands that were
completed (`Connection.Sound`), the text of a command is in `lastcmd` until it halts, and the
transactions that are appended to `wal-local` are as expected (`recorded_of_regular`).
-/

import AergoLite.Core.CapturedRuns

namespace AergoLite
namespace Core
namespace Capture

open Transition

namespace Connection

/-! ## Regular steps -/

/-- Page 1 is released after the statement did not get its lock, and no transaction was open. -/
def Releases (p : Vdbe) (x : Execution) (s : Connection) : Prop :=
  p.opens.isSome = true ∧ s.inTrans = .none ∧ x.attempt.unlocked = true

instance instDecidableReleases (p : Vdbe) (x : Execution) (s : Connection) :
    Decidable (s.Releases p x) :=
  inferInstanceAs (Decidable (_ ∧ _ ∧ _))

/-- The text of a command is captured in the step in which it halts. -/
def Kept (p : Vdbe) (doingRerun : Bool) (x : Execution) (s : Connection) : Prop :=
  p.command = none ∨ s.Captures p doingRerun ∧ p.userCommand = p.command ∧ ¬s.Releases p x

instance instDecidableKept (p : Vdbe) (doingRerun : Bool) (x : Execution) (s : Connection) :
    Decidable (s.Kept p doingRerun x) :=
  inferInstanceAs (Decidable (_ ∨ _ ∧ _ ∧ ¬_))

/-- What `OP_Transaction` returns. -/
def lockRc (p : Vdbe) (x : Execution) (s : Connection) : VdbeRc :=
  match p.opens, s.inTrans with
  | none, _ | some _, .write _ | some false, .read => .ok
  | some true, .read | some _, .none => x.attempt.rc

/-- The statement ends with modified pages in the transaction. -/
def Modifies (p : Vdbe) (x : Execution) (s : Connection) : Prop :=
  s.inTrans = .write true ∨ x.modifies = true ∧ p.opens = some true

instance instDecidableModifies (p : Vdbe) (x : Execution) (s : Connection) :
    Decidable (s.Modifies p x) :=
  inferInstanceAs (Decidable (_ ∨ _ ∧ _))

/-- The statements that are active and read. -/
def readers (active : List Vdbe) : ℕ := active.countP fun p => p.isReader

/-- The database is unlocked when the statement halts. -/
def Unlocks (p : Vdbe) (s : Connection) : Prop :=
  p.isReader = true ∧ (p.opens.isSome = true ∨ s.inTrans ≠ .none) ∧ readers (s.active.erase p) = 0

instance instDecidableUnlocks (p : Vdbe) (s : Connection) : Decidable (s.Unlocks p) :=
  inferInstanceAs (Decidable (_ ∧ (_ ∨ _) ∧ _))

/-- **A command that is completed in auto-commit mode.**  No other statement is writing, and it is
captured where it writes pages, and otherwise only if the database is unlocked. -/
def CompletesAlone (p : Vdbe) (doingRerun : Bool) (x : Execution) (s : Connection) : Prop :=
  writers (s.active.erase p) = 0 ∧ (s.Modifies p x → s.Kept p doingRerun x) ∧
    (¬s.Modifies p x → s.Kept p doingRerun x → s.Unlocks p)

instance instDecidableCompletesAlone (p : Vdbe) (doingRerun : Bool) (x : Execution)
    (s : Connection) : Decidable (s.CompletesAlone p doingRerun x) :=
  inferInstanceAs (Decidable (_ ∧ (_ → _) ∧ (_ → _ → _)))

/-- **A command that fails in auto-commit mode**, but is committed: it is not captured. -/
def FailsAlone (p : Vdbe) (doingRerun : Bool) (x : Execution) (s : Connection) : Prop :=
  x.halting.errorAction = .fail → x.halting.rc.isSpecialError = false →
    writers (s.active.erase p) = 0 → s.Modifies p x → ¬s.Kept p doingRerun x

instance instDecidableFailsAlone (p : Vdbe) (doingRerun : Bool) (x : Execution)
    (s : Connection) : Decidable (s.FailsAlone p doingRerun x) :=
  inferInstanceAs (Decidable (_ → _ → _ → _ → _))

/-- A transaction is committed that has modified pages, and its commit fails neither before it
writes them nor with `SQLITE_BUSY` while it does. -/
def Commits (p : Vdbe) (doingRerun : Bool) (x : Execution) (s : Connection) : Prop :=
  s.inTrans = .write true ∧ s.Kept p doingRerun x ∧
    (x.halting.before = .busy ∨
      x.halting.before = .ok ∧ x.halting.sign ≠ .busy ∧ x.halting.write ≠ .busy)

instance instDecidableCommits (p : Vdbe) (doingRerun : Bool) (x : Execution) (s : Connection) :
    Decidable (s.Commits p doingRerun x) :=
  inferInstanceAs (Decidable (_ ∧ _ ∧ (_ ∨ _ ∧ _ ∧ _)))

instance instDecidableSpares (p : Vdbe) (x : Halting) : Decidable (Spares p x) :=
  inferInstanceAs (Decidable (_ → _ ∧ _ ∧ (_ → _)))

/-- A statement that has its lock is regular. -/
def RegularOp (p : Vdbe) (doingRerun : Bool) (x : Execution) (s : Connection) : Op → Prop
  | .other =>
    x.row = false →
      (s.autoCommit = true → p.command ≠ none →
        (x.halting.rc = .ok → s.CompletesAlone p doingRerun x) ∧
        (x.halting.rc ≠ .ok → s.FailsAlone p doingRerun x)) ∧
      (s.autoCommit = false →
        (x.halting.rc = .ok → s.Kept p doingRerun x) ∧ Spares p x.halting)
  | .autoCommit desiredAutoCommit iRollback =>
    desiredAutoCommit ≠ s.autoCommit →
      iRollback = false ∧
      (x.halting.deferredViolation = false →
        (desiredAutoCommit = true → (s.begun p).nVdbeWrite = 0 → s.Commits p doingRerun x) ∧
        (desiredAutoCommit = false → s.Kept p doingRerun x))
  | .savepoint .begin _ => (s.begun p).nVdbeWrite = 0 → s.Kept p doingRerun x
  | .savepoint .release zName =>
    s.fromSavepoint zName ≠ [] → (s.begun p).nVdbeWrite = 0 →
      ((s.fromSavepoint zName).tail = [] ∧ s.isTransactionSavepoint = true →
        x.halting.deferredViolation = false → s.Commits p doingRerun x) ∧
      (¬((s.fromSavepoint zName).tail = [] ∧ s.isTransactionSavepoint = true) →
        s.Kept p doingRerun x)
  | .savepoint .rollback zName => s.fromSavepoint zName ≠ [] → s.Kept p doingRerun x

instance instDecidableRegularOp (p : Vdbe) (doingRerun : Bool) (x : Execution) (s : Connection) :
    (op : Op) → Decidable (s.RegularOp p doingRerun x op)
  | .other =>
    inferInstanceAs (Decidable (_ → (_ → _ → (_ → _) ∧ (_ → _)) ∧ (_ → (_ → _) ∧ _)))
  | .autoCommit _ _ =>
    inferInstanceAs (Decidable (_ → _ ∧ (_ → (_ → _ → _) ∧ (_ → _))))
  | .savepoint .begin _ => inferInstanceAs (Decidable (_ → _))
  | .savepoint .release _ => inferInstanceAs (Decidable (_ → _ → (_ ∧ _ → _ → _) ∧ (¬_ → _)))
  | .savepoint .rollback _ => inferInstanceAs (Decidable (_ → _))

/-- **A step is regular**: it leaves the log and the last command of a transaction alone until its
pages are written. -/
def Regular (s : Connection) : Event → Prop
  | .step p doingRerun x =>
    (s.autoCommit = false → ¬s.Releases p x) ∧
    (s.autoCommit = false → s.lockRc p x ≠ .ok → s.lockRc p x ≠ .busy →
      Spares p { x.halting with rc := s.lockRc p x, errorAction := .abort }) ∧
    (s.lockRc p x = .ok → s.RegularOp p doingRerun x p.op)
  | .reset p x => s.autoCommit = false → Spares p x
  | .loadSchema x =>
    s.autoCommit = false → s.inTrans = .none →
      x.unlocked = false ∧ (x.rc = .ok → 1 < s.nVdbeRead)
  | .special .. => s.autoCommit = true
  | .processed _ | .rotated => True

instance instDecidableRegular (s : Connection) : (e : Event) → Decidable (s.Regular e)
  | .step _ _ _ => inferInstanceAs (Decidable ((_ → _) ∧ (_ → _ → _ → _) ∧ (_ → _)))
  | .reset _ _ => inferInstanceAs (Decidable (_ → _))
  | .loadSchema _ => inferInstanceAs (Decidable (_ → _ → _ ∧ (_ → _)))
  | .special _ _ _ _ => inferInstanceAs (Decidable (_ = _))
  | .processed _ | .rotated => inferInstanceAs (Decidable True)

/-! ## A statement that begins or goes on -/

variable {start : ℤ} {s : Connection} {p : Vdbe} {x : Execution} {doingRerun : Bool}

/-- **The log is that of the commands that were completed**, in auto-commit mode and in a
transaction of the application. -/
def Sound (start : ℤ) (s : Connection) : Prop :=
  s.InAutoCommit start ∨ s.autoCommit = false ∧ s.pager.Tracks start s.completed

theorem Sound.tracks (h : s.Sound start) : s.pager.Tracks start s.completed := by
  rcases h with h | h
  · rw [h.completed]
    exact h.tracks
  · exact h.2

theorem Sound.inAutoCommit (h : s.Sound start) (hauto : s.autoCommit = true) :
    s.InAutoCommit start :=
  h.resolve_right fun hand => Bool.noConfusion (hauto.symm.trans hand.1)

/-- The statement has begun, and its text may be captured. -/
def captured (p : Vdbe) (doingRerun : Bool) (s : Connection) : Connection :=
  (if s.Captures p doingRerun then s.aergoliteCheckUserCommand p else s).begun p

theorem captured_eq (p : Vdbe) (doingRerun : Bool) (s : Connection) :
    ∃ lastcmd, s.captured p doingRerun =
        { s with pager := { s.pager with lastcmd }, active := p :: s.active.erase p } ∧
      (s.pager.lastcmd = none →
        lastcmd = if s.Captures p doingRerun then p.userCommand else none) := by
  unfold captured
  by_cases hcaptures : s.Captures p doingRerun
  · rw [if_pos hcaptures, if_pos hcaptures]
    unfold aergoliteCheckUserCommand
    cases huser : p.userCommand with
    | none => exact ⟨s.pager.lastcmd, rfl, id⟩
    | some sql => exact ⟨some sql, rfl, fun _ => rfl⟩
  · rw [if_neg hcaptures, if_neg hcaptures]
    exact ⟨s.pager.lastcmd, rfl, id⟩

/-- The connection after `OP_Transaction`. -/
def locked (p : Vdbe) (x : Execution) (s : Connection) : Connection :=
  match p.opens with
  | none => s
  | some wrflag => (s.sqlite3BtreeBeginTrans wrflag x.attempt).2

theorem sqlite3BtreeBeginTrans_rc {wrflag : Bool} (hopens : p.opens = some wrflag) :
    (s.sqlite3BtreeBeginTrans wrflag x.attempt).1 = s.lockRc p x := by
  unfold lockRc sqlite3BtreeBeginTrans
  rw [hopens]
  cases s.inTrans <;> cases wrflag <;> rfl

theorem sqlite3VdbeExec_eq (p : Vdbe) (x : Execution) (s : Connection) :
    s.sqlite3VdbeExec p x =
      match s.lockRc p x with
      | .ok => (s.locked p x).runOp p x
      | .busy => (.busy, s.locked p x)
      | rc => (s.locked p x).abortDueToError p x.halting rc := by
  unfold sqlite3VdbeExec locked
  cases hopens : p.opens with
  | none =>
      have hrc : s.lockRc p x = .ok := by
        unfold lockRc
        rw [hopens]
      rw [hrc]
  | some wrflag =>
      rw [← sqlite3BtreeBeginTrans_rc hopens]
      dsimp only
      generalize s.sqlite3BtreeBeginTrans wrflag x.attempt = r
      obtain ⟨rc, t⟩ := r
      cases rc <;> rfl

/-- The transaction of the database after `OP_Transaction`: it is another one only where the
statement opens it, and it is open if the statement got its lock. -/
structure Locked (p : Vdbe) (x : Execution) (s : Connection) (inTrans : InTrans) : Prop where
  writes : ∀ modified, inTrans = .write modified →
    s.inTrans = .write modified ∨ p.opens = some true
  modified : inTrans = .write true ↔ s.inTrans = .write true
  granted : s.lockRc p x = .ok → p.opens = some true → ∃ modified, inTrans = .write modified
  opened : s.lockRc p x = .ok → p.opens.isSome = true ∨ s.inTrans ≠ .none → inTrans ≠ .none

/-- Nothing is to be opened. -/
theorem Locked.same (hwrite : p.opens = some true → ∃ modified, s.inTrans = .write modified)
    (hopens : p.opens.isSome = true → s.inTrans ≠ .none) : Locked p x s s.inTrans :=
  ⟨fun _ => .inl, Iff.rfl, fun _ => hwrite, fun _ hor => hor.elim hopens id⟩

/-- A transaction is opened, if the statement gets its lock. -/
theorem Locked.open {wrflag : Bool} (hopens : p.opens = some wrflag)
    (hrc : s.lockRc p x = x.attempt.rc) (hwrite : ∀ modified, s.inTrans ≠ .write modified)
    (hread : s.inTrans = .read → wrflag = true) :
    Locked p x s
      (if x.attempt.rc = .ok then if wrflag then .write false else .read else s.inTrans) := by
  rw [← hrc]
  by_cases hok : s.lockRc p x = .ok
  · rw [if_pos hok]
    cases wrflag with
    | false =>
        exact ⟨fun _ h => InTrans.noConfusion h,
          ⟨fun h => InTrans.noConfusion h, fun h => absurd h (hwrite true)⟩,
          fun _ h => Bool.noConfusion (Option.some.inj (hopens.symm.trans h)),
          fun _ _ h => InTrans.noConfusion h⟩
    | true =>
        exact ⟨fun _ _ => .inr hopens,
          ⟨fun h => Bool.noConfusion (InTrans.write.inj h), fun h => absurd h (hwrite true)⟩,
          fun _ _ => ⟨false, rfl⟩, fun _ _ h => InTrans.noConfusion h⟩
  · rw [if_neg hok]
    exact ⟨fun _ => .inl, Iff.rfl, fun h => absurd h hok, fun h => absurd h hok⟩

/-- **What `OP_Transaction` changes.**  The transaction of the database, and the log and the last
command where page 1 is released. -/
theorem locked_eq (p : Vdbe) (x : Execution) (s : Connection) :
    ∃ pager inTrans, s.locked p x = { s with pager, inTrans } ∧
      (s.Releases p x → pager = s.pager.aergoliteDiscardTransaction) ∧
      (¬s.Releases p x → pager = s.pager) ∧ Locked p x s inTrans := by
  unfold locked
  cases hopens : p.opens with
  | none =>
      have hsome : p.opens.isSome = true → False := by
        rw [hopens]
        exact Bool.noConfusion
      exact ⟨s.pager, s.inTrans, rfl, fun h => (hsome h.1).elim, fun _ => rfl,
        .same (fun h => (hsome (h ▸ rfl)).elim) (fun h => (hsome h).elim)⟩
  | some wrflag =>
      unfold sqlite3BtreeBeginTrans
      cases htrans : s.inTrans with
      | write modified =>
          refine ⟨s.pager, s.inTrans, rfl, fun h => ?_, fun _ => rfl,
            .same (fun _ => ⟨_, htrans⟩) ?_⟩
          · exact InTrans.noConfusion (htrans.symm.trans h.2.1)
          · exact fun _ h => InTrans.noConfusion (htrans.symm.trans h)
      | read =>
          have hnot : ¬s.Releases p x := fun h => InTrans.noConfusion (htrans.symm.trans h.2.1)
          cases wrflag with
          | false =>
              refine ⟨s.pager, s.inTrans, rfl, fun h => absurd h hnot, fun _ => rfl, .same ?_ ?_⟩
              · exact fun h => Bool.noConfusion (Option.some.inj (hopens.symm.trans h))
              · exact fun _ h => InTrans.noConfusion (htrans.symm.trans h)
          | true =>
              have hrc : s.lockRc p x = x.attempt.rc := by
                unfold lockRc
                rw [hopens, htrans]
              refine ⟨s.pager, _, ?_, fun h => absurd h hnot, fun _ => rfl, .open hopens hrc ?_ ?_⟩
              · rw [if_pos rfl]
                dsimp only
                split_ifs <;> rfl
              · exact fun modified h => InTrans.noConfusion (htrans.symm.trans h)
              · exact fun _ => rfl
      | none =>
          have hrc : s.lockRc p x = x.attempt.rc := by
            unfold lockRc
            rw [hopens, htrans]
          refine ⟨if x.attempt.unlocked then s.pager.aergoliteDiscardTransaction else s.pager, _,
            ?_, fun h => if_pos h.2.2, fun h => if_neg fun hunlocked => h ⟨?_, htrans, hunlocked⟩,
            .open hopens hrc ?_ ?_⟩
          · rw [htrans]
            dsimp only
            split_ifs
            all_goals first
              | rfl
              | exact congrArg (fun inTrans => { s with inTrans }) htrans
          · exact congrArg Option.isSome hopens
          · exact fun modified h => InTrans.noConfusion (htrans.symm.trans h)
          · exact fun h => InTrans.noConfusion (htrans.symm.trans h)

/-- **The connection when a statement is executed**: it has begun, its text may be captured and it
may have its lock. -/
structure Entered (start : ℤ) (p : Vdbe) (doingRerun : Bool) (x : Execution) (s : Connection)
    (pager : Pager) (inTrans : InTrans) : Prop extends Locked p x s inTrans where
  tracks : pager.Tracks start s.completed
  lastcmd : pager.lastcmd = if s.Kept p doingRerun x then p.command else none

/-- The text that is captured. -/
theorem lastcmd_of_kept {lastcmd : Option Text}
    (h : lastcmd = if s.Captures p doingRerun then p.userCommand else none)
    (hnot : ¬s.Releases p x) :
    lastcmd = if s.Kept p doingRerun x then p.command else none := by
  subst h
  by_cases hcaptures : s.Captures p doingRerun
  · rw [if_pos hcaptures]
    by_cases hkept : s.Kept p doingRerun x
    · rw [if_pos hkept]
      rcases hkept with hnone | ⟨-, heq, -⟩
      · cases huser : p.userCommand with
        | none => exact hnone.symm
        | some sql => exact (Vdbe.command_of_userCommand huser).symm
      · exact heq
    · rw [if_neg hkept]
      cases huser : p.userCommand with
      | none => rfl
      | some sql =>
          have hcommand := Vdbe.command_of_userCommand huser
          exact absurd (.inr ⟨hcaptures, huser.trans hcommand.symm, hnot⟩) hkept
  · rw [if_neg hcaptures]
    by_cases hkept : s.Kept p doingRerun x
    · rw [if_pos hkept]
      exact (hkept.resolve_right fun hand => hcaptures hand.1).symm
    · rw [if_neg hkept]

/-- Nothing is captured where page 1 is released. -/
theorem lastcmd_of_releases (h : s.Releases p x) :
    none = if s.Kept p doingRerun x then p.command else none := by
  by_cases hkept : s.Kept p doingRerun x
  · rw [if_pos hkept]
    exact (hkept.resolve_right fun hand => hand.2.2 h).symm
  · rw [if_neg hkept]

theorem entered (doingRerun : Bool) (h : s.Sound start) (hlast : s.pager.lastcmd = none)
    (hreleases : s.autoCommit = false → ¬s.Releases p x) :
    ∃ pager inTrans, (s.captured p doingRerun).locked p x =
        { s with pager, inTrans, active := p :: s.active.erase p } ∧
      (s.captured p doingRerun).lockRc p x = s.lockRc p x ∧
      Entered start p doingRerun x s pager inTrans := by
  obtain ⟨lastcmd, hcaptured, hlastcmd⟩ := captured_eq p doingRerun s
  obtain ⟨pager, inTrans, hlocked, hdiscards, hsame, htrans⟩ :=
    locked_eq p x (s.captured p doingRerun)
  rw [hcaptured] at hlocked hdiscards hsame htrans ⊢
  refine ⟨pager, inTrans, hlocked, rfl, ⟨htrans.writes, htrans.modified, htrans.granted,
    htrans.opened⟩, ?_, ?_⟩
  · by_cases hrel : s.Releases p x
    · have hauto : s.autoCommit = true := by
        by_contra hfalse
        exact hreleases (Bool.not_eq_true _ ▸ hfalse) hrel
      rw [hdiscards hrel, (h.inAutoCommit hauto).completed]
      exact ((h.inAutoCommit hauto).tracks.setLastcmd lastcmd).discard
    · rw [hsame hrel]
      exact h.tracks.setLastcmd lastcmd
  · by_cases hrel : s.Releases p x
    · rw [hdiscards hrel]
      exact lastcmd_of_releases hrel
    · rw [hsame hrel]
      exact lastcmd_of_kept (hlastcmd hlast) hrel

/-! ## A statement that is executed -/

/-- **What a statement leaves.**  The log is that of the commands.  Where it is done, the text of
its command is in `lastcmd` if the transaction goes on, and nothing is if it has ended. -/
structure Ready (start : ℤ) (p : Vdbe) (r : StepResult × Connection) : Prop where
  sound : r.2.Sound start
  ended : r.1 = .done → r.2.autoCommit = true →
    r.2.pager.lastcmd = none ∧ (p.command = none ∨ r.2.nVdbeWrite = 0)
  goesOn : r.1 = .done → r.2.autoCommit = false → r.2.pager.lastcmd = p.command

/-- A statement that is not done. -/
theorem Sound.ready (h : s.Sound start) {rc : StepResult} (hrc : rc ≠ .done) :
    Ready start p (rc, s) :=
  ⟨h, fun hdone => absurd hdone hrc, fun hdone => absurd hdone hrc⟩

/-- A statement that halts in a transaction of the application is not active any more. -/
theorem Sound.halted (h : s.Sound start) (hauto : s.autoCommit = false) :
    (s.halted p).Sound start :=
  .inr ⟨hauto, h.tracks⟩

/-- **A statement that is aborted** by an error that it runs into. -/
theorem Sound.abortDueToError (h : s.Sound start) {others : List Vdbe}
    (hactive : s.active = p :: others) {x : Halting} {rc : VdbeRc} (hrc : rc ≠ .ok)
    (hspares : s.autoCommit = false → Spares p { x with rc, errorAction := .abort }) :
    Ready start p (s.abortDueToError p x rc) := by
  unfold Connection.abortDueToError
  cases hauto : s.autoCommit with
  | false =>
      rw [sqlite3VdbeHalt_explicit hauto (hspares hauto)]
      exact (h.halted hauto).ready (fun heq => StepResult.noConfusion heq)
  | true =>
      have hnot : ¬(rc = .ok ∨ ErrorAction.abort = .fail ∧ rc.isSpecialError = false) := by
        rintro (hok | ⟨hfail, -⟩)
        · exact hrc hok
        · exact ErrorAction.noConfusion hfail
      rcases sqlite3VdbeHalt_autoCommit (p := p) (x := { x with rc, errorAction := .abort }) []
          (h.inAutoCommit hauto) hactive (fun _ _ hcommits => absurd hcommits hnot) with
        heq | ⟨rc', t, heq, hleft, -⟩
      · rw [heq]
        exact h.ready (fun heq => StepResult.noConfusion heq)
      · rw [heq]
        exact Sound.ready (.inl hleft.inAutoCommit) (fun heq => StepResult.noConfusion heq)

/-- A statement that begins or ends a transaction or a savepoint, and is refused. -/
theorem Sound.refused (h : s.Sound start) {others : List Vdbe} (hactive : s.active = p :: others)
    (hop : p.op ≠ .other) {x : Halting} {rc : VdbeRc} (hrc : rc ≠ .ok)
    (hspecial : rc.isSpecialError = false) : Ready start p (s.abortDueToError p x rc) :=
  h.abortDueToError hactive hrc fun _ =>
    spares_of_op hop hspecial (.inr fun heq => ErrorAction.noConfusion heq)

/-- **A statement is done in a transaction of the application**: its text is in `lastcmd`. -/
theorem Sound.haltOk (h : s.Sound start) (hauto : s.autoCommit = false) (hop : p.op ≠ .other)
    (hlast : s.pager.lastcmd = p.command) {x : Halting} :
    s.haltOk p x = (some .ok, s.halted p) ∧ Ready start p (finish (s.haltOk p x)) := by
  have heq : s.haltOk p x = (some .ok, s.halted p) :=
    sqlite3VdbeHalt_explicit hauto (spares_of_op hop rfl (.inl rfl))
  refine ⟨heq, ?_⟩
  rw [heq]
  exact ⟨h.halted hauto, fun _ htrue => Bool.noConfusion (hauto.symm.trans htrue), fun _ _ => hlast⟩

/-- The connection in which a statement is executed. -/
def enter (p : Vdbe) (pager : Pager) (inTrans : InTrans) (s : Connection) : Connection :=
  { s with pager, inTrans, active := p :: s.active.erase p }

theorem writers_begun (h : writers (p :: s.active.erase p) = 0) : writers s.active = 0 := by
  unfold writers at h ⊢
  rw [List.countP_eq_zero] at h ⊢
  intro q hq
  by_cases hsame : q = p
  · exact hsame ▸ h p List.mem_cons_self
  · exact h q (List.mem_cons_of_mem _ ((List.mem_erase_of_ne hsame).2 hq))

/-- **The log is still that of the commands** when a statement is executed. -/
theorem Entered.sound {pager : Pager} {inTrans : InTrans}
    (he : Entered start p doingRerun x s pager inTrans) (h : s.Sound start) :
    (s.enter p pager inTrans).Sound start := by
  rcases h with h | ⟨hauto, -⟩
  · refine .inl ⟨⟨h.autoCommit, h.completed ▸ he.tracks, h.completed, h.savepoints⟩, ?_⟩
    intro hzero modified htrans
    rcases he.writes modified htrans with hold | hopens
    · exact h.notWrite (writers_begun hzero) modified hold
    · have hcount := nVdbeWrite_cons (s := s.enter p pager inTrans) rfl
      rw [hzero, p.readOnly_of_opens hopens, if_neg Bool.false_ne_true] at hcount
      omega
  · exact .inr ⟨hauto, he.tracks⟩

/-- **Pages are modified** in the transaction of the statement. -/
theorem modify_eq (pager : Pager) {inTrans : InTrans} (hl : Locked p x s inTrans)
    (hlock : s.lockRc p x = .ok) :
    ∃ inTrans', (s.enter p pager inTrans).modify (x.modifies && p.opens == some true) =
        s.enter p pager inTrans' ∧
      (inTrans' = .write true ↔ s.Modifies p x) ∧
      (∀ modified, inTrans' = .write modified → ∃ before, inTrans = .write before) ∧
      (inTrans ≠ .none → inTrans' ≠ .none) := by
  have hnot : (∀ modified, inTrans ≠ .write modified) → ¬s.Modifies p x := by
    rintro hnot (hwrite | ⟨-, hopens⟩)
    · exact hnot true (hl.modified.2 hwrite)
    · obtain ⟨modified, hwrite⟩ := hl.granted hlock hopens
      exact hnot modified hwrite
  cases inTrans with
  | none =>
      refine ⟨.none, rfl, ⟨fun h => InTrans.noConfusion h, fun h => ?_⟩,
        fun _ h => InTrans.noConfusion h, id⟩
      exact absurd h (hnot fun _ h => InTrans.noConfusion h)
  | read =>
      refine ⟨.read, rfl, ⟨fun h => InTrans.noConfusion h, fun h => ?_⟩,
        fun _ h => InTrans.noConfusion h, id⟩
      exact absurd h (hnot fun _ h => InTrans.noConfusion h)
  | write before =>
      refine ⟨.write (before || (x.modifies && p.opens == some true)), rfl, ?_,
        fun _ _ => ⟨before, rfl⟩, fun _ h => InTrans.noConfusion h⟩
      have hbefore : before = true ↔ s.inTrans = .write true :=
        ⟨fun h => hl.modified.1 (congrArg InTrans.write h),
          fun h => InTrans.write.inj (hl.modified.2 h)⟩
      unfold Modifies
      rw [InTrans.write.injEq, Bool.or_eq_true_iff, hbefore, Bool.and_eq_true_iff, beq_iff_eq]

theorem Sound.modify {pager : Pager} {inTrans inTrans' : InTrans}
    (h : (s.enter p pager inTrans).Sound start)
    (hwrite : ∀ modified, inTrans' = .write modified → ∃ before, inTrans = .write before) :
    (s.enter p pager inTrans').Sound start := by
  rcases h with h | h
  · refine .inl ⟨⟨h.autoCommit, h.tracks, h.completed, h.savepoints⟩, ?_⟩
    intro hzero modified htrans
    obtain ⟨before, hbefore⟩ := hwrite modified htrans
    exact h.notWrite hzero before hbefore
  · exact .inr h

/-- A writing statement reads. -/
theorem isReader_of_write {pager : Pager} {modified : Bool}
    (h : (s.enter p pager (.write modified)).InAutoCommit start)
    (hothers : writers (s.active.erase p) = 0) : p.isReader = true := by
  by_contra hreader
  have hreadOnly : p.readOnly = true := by
    by_contra hwrites
    exact hreader (p.isReader_of_op (.inr (.inr (Bool.not_eq_true _ ▸ hwrites))))
  have hcount := nVdbeWrite_cons (s := s.enter p pager (.write modified)) rfl
  rw [hothers, if_pos hreadOnly] at hcount
  exact h.notWrite hcount modified rfl

/-- The statement is the only one that reads. -/
theorem nVdbeRead_enter {pager : Pager} {inTrans : InTrans} (hreader : p.isReader = true)
    (hothers : readers (s.active.erase p) = 0) : (s.enter p pager inTrans).nVdbeRead = 1 := by
  unfold nVdbeRead enter
  rw [List.countP_cons_of_pos hreader]
  exact congrArg (· + 1) hothers

theorem Entered.lastcmd_none {pager : Pager} {inTrans : InTrans}
    (he : Entered start p doingRerun x s pager inTrans)
    (h : p.command = none ∨ ¬s.Kept p doingRerun x) : pager.lastcmd = none := by
  rw [he.lastcmd]
  rcases h with hcommand | hnot
  · rw [hcommand, ite_self]
  · rw [if_neg hnot]

theorem Entered.lastcmd_kept {pager : Pager} {inTrans : InTrans}
    (he : Entered start p doingRerun x s pager inTrans) (h : s.Kept p doingRerun x) :
    pager.lastcmd = p.command := by
  rw [he.lastcmd, if_pos h]

/-- **A statement halts in auto-commit mode.** -/
theorem Entered.alone {pager : Pager} {inTrans inTrans' : InTrans}
    (he : Entered start p doingRerun x s pager inTrans) (hlock : s.lockRc p x = .ok)
    (h : (s.enter p pager inTrans').InAutoCommit start)
    (hmodified : inTrans' = .write true ↔ s.Modifies p x)
    (hopen : inTrans ≠ .none → inTrans' ≠ .none)
    (hregular : p.command ≠ none →
      (x.halting.rc = .ok → s.CompletesAlone p doingRerun x) ∧
      (x.halting.rc ≠ .ok → s.FailsAlone p doingRerun x)) :
    Ready start p (finish ((s.enter p pager inTrans').sqlite3VdbeHalt p x.halting
      p.command.toList)) := by
  have hactive : (s.enter p pager inTrans').active = p :: s.active.erase p := rfl
  -- what is in `lastcmd` when the pages are committed
  have hexact : writers (s.active.erase p) = 0 → inTrans' = .write true →
      x.halting.rc = .ok ∨ x.halting.errorAction = .fail ∧ x.halting.rc.isSpecialError = false →
        pager.lastcmd.toList = if x.halting.rc = .ok then p.command.toList else [] := by
    intro hothers hwrite hcommits
    rw [he.lastcmd]
    by_cases hcommand : p.command = none
    · rw [hcommand, ite_self, Option.toList_none, ite_self]
    · obtain ⟨hdone, hfails⟩ := hregular hcommand
      by_cases hok : x.halting.rc = .ok
      · rw [if_pos hok, if_pos ((hdone hok).2.1 (hmodified.1 hwrite))]
      · obtain ⟨hfail, hspecial⟩ := hcommits.resolve_left hok
        rw [if_neg hok,
          if_neg (hfails hok hfail hspecial hothers (hmodified.1 hwrite)), Option.toList_none]
  rcases sqlite3VdbeHalt_autoCommit (p := p) (x := x.halting) p.command.toList h hactive hexact with
    heq | ⟨rc, t, heq, hleft, hends⟩
  · rw [heq]
    exact Sound.ready (.inl h) (fun heq => StepResult.noConfusion heq)
  · rw [heq]
    have hauto := hleft.inAutoCommit.autoCommit
    refine ⟨.inl hleft.inAutoCommit, fun hdone _ => ?_,
      fun _ hfalse => Bool.noConfusion (hauto.symm.trans hfalse)⟩
    have hrc : rc = .ok := by
      by_contra hne
      rw [finish, if_neg hne] at hdone
      exact StepResult.noConfusion hdone
    obtain ⟨hok, hlast⟩ := hends hrc
    by_cases hcommand : p.command = none
    · exact ⟨hleft.lastcmd (he.lastcmd_none (.inl hcommand)), .inl hcommand⟩
    · obtain ⟨hothers, -, hunlocks⟩ := (hregular hcommand).1 hok
      refine ⟨?_, .inr ?_⟩
      · by_cases hmodifies : s.Modifies p x
        · have hwrite := hmodified.2 hmodifies
          exact hlast (isReader_of_write (hwrite ▸ h) hothers) hothers (.inl hwrite)
        · by_cases hkept : s.Kept p doingRerun x
          · obtain ⟨hreader, hopens, hreaders⟩ := hunlocks hmodifies hkept
            refine hlast hreader hothers (.inr ⟨hopen (he.opened hlock hopens), ?_⟩)
            exact (nVdbeRead_enter hreader hreaders).le
          · exact hleft.lastcmd (he.lastcmd_none (.inr hkept))
      · have hactive := (List.cons.inj hleft.active).2
        exact (congrArg writers hactive).trans hothers

/-- **A statement that neither begins nor ends a transaction or a savepoint.** -/
theorem Entered.other {pager : Pager} {inTrans : InTrans}
    (he : Entered start p doingRerun x s pager inTrans) (h : s.Sound start)
    (hlock : s.lockRc p x = .ok) (hop : p.op = .other)
    (hregular : s.RegularOp p doingRerun x .other) :
    Ready start p ((s.enter p pager inTrans).runOp p x) := by
  obtain ⟨inTrans', heq, hmodified, hwrite, hopen⟩ := modify_eq pager he.toLocked hlock
  have hsound := (he.sound h).modify hwrite
  unfold runOp
  rw [hop]
  dsimp only
  rw [heq]
  by_cases hrow : x.row = true
  · rw [if_pos hrow]
    exact hsound.ready (fun heq => StepResult.noConfusion heq)
  · rw [if_neg hrow]
    obtain ⟨halone, hexplicit⟩ := hregular (Bool.not_eq_true _ ▸ hrow)
    cases hauto : s.autoCommit with
    | true => exact he.alone hlock (hsound.inAutoCommit hauto) hmodified hopen (halone hauto)
    | false =>
        obtain ⟨hkept, hspares⟩ := hexplicit hauto
        have hgoesOn : (s.enter p pager inTrans').autoCommit = false := hauto
        rw [sqlite3VdbeHalt_explicit hgoesOn hspares]
        refine ⟨hsound.halted hauto, fun _ htrue => Bool.noConfusion (hauto.symm.trans htrue),
          fun hdone _ => he.lastcmd_kept (hkept ?_)⟩
        by_contra hne
        rw [finish, if_neg hne] at hdone
        exact StepResult.noConfusion hdone

/-- **A transaction of the application is committed**, or goes on where its commit is busy. -/
theorem Entered.commit {pager : Pager} {inTrans : InTrans}
    (he : Entered start p doingRerun x s pager inTrans) (hop : p.op ≠ .other)
    (hwriters : (s.begun p).nVdbeWrite = 0) (hdeferred : x.halting.deferredViolation = false)
    (hcommits : s.Commits p doingRerun x) :
    ({ s.enter p pager inTrans with autoCommit := true }.haltOk p x.halting =
      (none, { s.enter p pager inTrans with autoCommit := true })) ∨
    ∃ rc t, { s.enter p pager inTrans with autoCommit := true }.haltOk p x.halting = (some rc, t) ∧
      Ready start p (finish (some rc, t.sqlite3CloseSavepoints)) := by
  obtain ⟨hmodified, hkept, hresult⟩ := hcommits
  rcases haltOk_commit (s := { s.enter p pager inTrans with autoCommit := true }) rfl rfl hop
      he.tracks (he.modified.2 hmodified) (he.lastcmd_kept hkept) hwriters hdeferred hresult with
    heq | ⟨rc, pager', inTrans', heq, hended, hlast⟩
  · exact .inl heq
  · refine .inr ⟨rc, _, heq, .inl ⟨⟨rfl, hended.tracks, rfl, rfl⟩, fun _ => hended.notWrite⟩,
      fun hdone _ => ⟨hlast ?_, .inr ?_⟩, fun _ hfalse => Bool.noConfusion hfalse⟩
    · by_contra hne
      rw [finish, if_neg hne] at hdone
      exact StepResult.noConfusion hdone
    · have hcount := nVdbeWrite_cons (s := s.begun p) rfl
      rw [hwriters] at hcount
      exact (Nat.add_eq_zero_iff.1 hcount.symm).1

/-- **`BEGIN`, `COMMIT` and `ROLLBACK`.** -/
theorem Entered.opAutoCommit {pager : Pager} {inTrans : InTrans}
    (he : Entered start p doingRerun x s pager inTrans) (h : s.Sound start)
    {desiredAutoCommit iRollback : Bool} (hop : p.op ≠ .other)
    (hregular : s.RegularOp p doingRerun x (.autoCommit desiredAutoCommit iRollback)) :
    Ready start p ((s.enter p pager inTrans).opAutoCommit desiredAutoCommit iRollback p
      x.halting) := by
  have hsound := he.sound h
  unfold Connection.opAutoCommit
  by_cases hsame : desiredAutoCommit = (s.enter p pager inTrans).autoCommit
  · rw [if_pos hsame]
    exact hsound.refused rfl hop (fun heq => VdbeRc.noConfusion heq) rfl
  · obtain ⟨hrollback, hcommits⟩ := hregular hsame
    rw [if_neg hsame, hrollback, if_neg Bool.false_ne_true]
    by_cases hwriters : desiredAutoCommit = true ∧ 0 < (s.enter p pager inTrans).nVdbeWrite
    · rw [if_pos hwriters]
      exact hsound.refused rfl hop (fun heq => VdbeRc.noConfusion heq) rfl
    · rw [if_neg hwriters]
      cases hdeferred : x.halting.deferredViolation with
      | true => exact hsound.ready (fun heq => StepResult.noConfusion heq)
      | false =>
          rw [if_neg Bool.false_ne_true]
          cases desiredAutoCommit with
          | true =>
              have hzero : (s.begun p).nVdbeWrite = 0 :=
                Nat.eq_zero_of_not_pos fun hpos => hwriters ⟨rfl, hpos⟩
              rcases he.commit hop hzero hdeferred ((hcommits hdeferred).1 rfl hzero) with
                heq | ⟨rc, t, heq, hready⟩
              · rw [heq]
                exact Sound.ready (.inr ⟨rfl, he.tracks⟩) (fun heq => StepResult.noConfusion heq)
              · rw [heq]
                exact hready
          | false =>
              have hbegins : Sound start { s.enter p pager inTrans with autoCommit := false } :=
                .inr ⟨rfl, he.tracks⟩
              obtain ⟨heq, hready⟩ := hbegins.haltOk (x := x.halting) rfl hop
                (he.lastcmd_kept ((hcommits hdeferred).2 rfl))
              rw [heq] at hready ⊢
              exact ⟨.inr ⟨rfl, he.tracks⟩, fun _ htrue => Bool.noConfusion htrue, hready.goesOn⟩

/-- There are no savepoints in auto-commit mode. -/
theorem Sound.autoCommit_of_fromSavepoint (h : s.Sound start) {zName : Text}
    (hnames : s.fromSavepoint zName ≠ []) : s.autoCommit = false := by
  by_contra hauto
  refine hnames ?_
  unfold fromSavepoint
  rw [(h.inAutoCommit (Bool.not_eq_false _ ▸ hauto)).savepoints, List.dropWhile_nil]

/-- **`SAVEPOINT`**, in a transaction of the application or as its beginning. -/
theorem Entered.opSavepoint_begin {pager : Pager} {inTrans : InTrans}
    (he : Entered start p doingRerun x s pager inTrans) (h : s.Sound start) {zName : Text}
    (hop : p.op ≠ .other) (hregular : s.RegularOp p doingRerun x (.savepoint .begin zName)) :
    Ready start p ((s.enter p pager inTrans).opSavepoint .begin zName p x.halting) := by
  have hsound := he.sound h
  unfold opSavepoint
  dsimp only
  by_cases hwriters : 0 < (s.enter p pager inTrans).nVdbeWrite
  · rw [if_pos hwriters]
    exact hsound.refused rfl hop (fun heq => VdbeRc.noConfusion heq) rfl
  · rw [if_neg hwriters]
    have hlast := he.lastcmd_kept (hregular (Nat.eq_zero_of_not_pos hwriters))
    split_ifs with hauto
    · exact (Sound.haltOk (.inr ⟨rfl, he.tracks⟩) rfl hop hlast).2
    · exact (Sound.haltOk (.inr ⟨Bool.not_eq_true _ ▸ hauto, he.tracks⟩)
        (Bool.not_eq_true _ ▸ hauto) hop hlast).2

/-- **`RELEASE`**, of a savepoint or of the transaction that it began. -/
theorem Entered.opSavepoint_release {pager : Pager} {inTrans : InTrans}
    (he : Entered start p doingRerun x s pager inTrans) (h : s.Sound start) {zName : Text}
    (hop : p.op ≠ .other) (hregular : s.RegularOp p doingRerun x (.savepoint .release zName)) :
    Ready start p ((s.enter p pager inTrans).opSavepoint .release zName p x.halting) := by
  have hsound := he.sound h
  have hsame : (s.enter p pager inTrans).fromSavepoint zName = s.fromSavepoint zName := rfl
  unfold opSavepoint
  dsimp only
  cases hnames : s.fromSavepoint zName with
  | nil =>
      rw [hsame, hnames]
      exact hsound.refused rfl hop (fun heq => VdbeRc.noConfusion heq) rfl
  | cons name rest =>
      have hne : s.fromSavepoint zName ≠ [] := hnames ▸ List.cons_ne_nil name rest
      have htail : (s.fromSavepoint zName).tail = rest := congrArg List.tail hnames
      have hauto := h.autoCommit_of_fromSavepoint hne
      rw [hsame, hnames]
      dsimp only
      by_cases hwriters : 0 < (s.enter p pager inTrans).nVdbeWrite
      · rw [if_pos hwriters]
        exact hsound.refused rfl hop (fun heq => VdbeRc.noConfusion heq) rfl
      · have hzero := Nat.eq_zero_of_not_pos hwriters
        obtain ⟨hcommits, hkept⟩ := hregular hne hzero
        rw [htail] at hcommits hkept
        rw [if_neg hwriters]
        by_cases hends : rest = [] ∧ (s.enter p pager inTrans).isTransactionSavepoint = true
        · rw [if_pos hends]
          cases hdeferred : x.halting.deferredViolation with
          | true => exact hsound.ready (fun heq => StepResult.noConfusion heq)
          | false =>
              rw [if_neg Bool.false_ne_true]
              rcases he.commit hop hzero hdeferred (hcommits hends hdeferred) with
                heq | ⟨rc, t, heq, hready⟩
              · rw [heq]
                exact Sound.ready (.inr ⟨rfl, he.tracks⟩) (fun heq => StepResult.noConfusion heq)
              · rw [heq]
                exact hready
        · have hreleased : Sound start { s.enter p pager inTrans with savepoints := rest } :=
            .inr ⟨hauto, he.tracks⟩
          rw [if_neg hends]
          exact (hreleased.haltOk hauto hop (he.lastcmd_kept (hkept hends))).2

/-- **`ROLLBACK TO`** a savepoint. -/
theorem Entered.opSavepoint_rollback {pager : Pager} {inTrans : InTrans}
    (he : Entered start p doingRerun x s pager inTrans) (h : s.Sound start) {zName : Text}
    (hop : p.op ≠ .other) (hregular : s.RegularOp p doingRerun x (.savepoint .rollback zName)) :
    Ready start p ((s.enter p pager inTrans).opSavepoint .rollback zName p x.halting) := by
  have hsame : (s.enter p pager inTrans).fromSavepoint zName = s.fromSavepoint zName := rfl
  unfold opSavepoint
  dsimp only
  cases hnames : s.fromSavepoint zName with
  | nil =>
      rw [hsame, hnames]
      exact (he.sound h).refused rfl hop (fun heq => VdbeRc.noConfusion heq) rfl
  | cons name rest =>
      have hne : s.fromSavepoint zName ≠ [] := hnames ▸ List.cons_ne_nil name rest
      have hauto := h.autoCommit_of_fromSavepoint hne
      have hback : Sound start { s.enter p pager inTrans with savepoints := name :: rest } :=
        .inr ⟨hauto, he.tracks⟩
      rw [hsame, hnames]
      exact (hback.haltOk hauto hop (he.lastcmd_kept (hregular hne))).2

/-- **A statement that has its lock.** -/
theorem Entered.runOp {pager : Pager} {inTrans : InTrans}
    (he : Entered start p doingRerun x s pager inTrans) (h : s.Sound start)
    (hlock : s.lockRc p x = .ok) (hregular : s.RegularOp p doingRerun x p.op) :
    Ready start p ((s.enter p pager inTrans).runOp p x) := by
  cases hop : p.op with
  | other => exact he.other h hlock hop (hop ▸ hregular)
  | autoCommit desiredAutoCommit iRollback =>
      have hne : p.op ≠ .other := fun heq => Op.noConfusion (hop.symm.trans heq)
      unfold Connection.runOp
      rw [hop]
      exact he.opAutoCommit h hne (hop ▸ hregular)
  | savepoint p1 zName =>
      have hne : p.op ≠ .other := fun heq => Op.noConfusion (hop.symm.trans heq)
      unfold Connection.runOp
      rw [hop]
      rw [hop] at hregular
      cases p1 with
      | «begin» => exact he.opSavepoint_begin h hne hregular
      | release => exact he.opSavepoint_release h hne hregular
      | rollback => exact he.opSavepoint_rollback h hne hregular

/-- **A statement that is executed** in a regular step. -/
theorem Sound.sqlite3VdbeExec (h : s.Sound start) (hlast : s.pager.lastcmd = none)
    (hregular : s.Regular (.step p doingRerun x)) :
    Ready start p ((s.captured p doingRerun).sqlite3VdbeExec p x) := by
  obtain ⟨hreleases, hfails, hop⟩ := hregular
  obtain ⟨pager, inTrans, hlocked, hrc, he⟩ :=
    entered doingRerun h hlast hreleases
  have hsound := he.sound h
  rw [sqlite3VdbeExec_eq, hlocked, hrc]
  by_cases hok : s.lockRc p x = .ok
  · rw [hok]
    exact he.runOp h hok (hop hok)
  · by_cases hbusy : s.lockRc p x = .busy
    · rw [hbusy]
      exact hsound.ready (fun heq => StepResult.noConfusion heq)
    · have haborts := hsound.abortDueToError rfl hok fun hauto => hfails hauto hok hbusy
      generalize s.lockRc p x = rc at hok hbusy haborts
      cases rc <;> first | exact absurd rfl hok | exact absurd rfl hbusy | exact haborts

/-! ## Regular steps keep the log -/

/-- **Between two steps**: the log is that of the commands, and no text is captured. -/
structure Consistent (start : ℤ) (s : Connection) : Prop where
  sound : s.Sound start
  lastcmd : s.pager.lastcmd = none

/-- The log changes with the commands. -/
theorem Sound.withPager (h : s.Sound start) {pager : Pager}
    (htracks : pager.Tracks start s.completed) : Sound start { s with pager } := by
  rcases h with h | ⟨hauto, -⟩
  · exact .inl ⟨⟨h.autoCommit, h.completed ▸ htracks, h.completed, h.savepoints⟩, h.notWrite⟩
  · exact .inr ⟨hauto, htracks⟩

theorem storeLastCommand_of_none {pager : Pager} (h : pager.lastcmd = none) :
    pager.aergoliteStoreLastCommand = pager := by
  unfold Pager.aergoliteStoreLastCommand
  rw [h]

/-- The transaction has ended: there is nothing to store. -/
theorem Ready.done_of_autoCommit {t : Connection} (h : Ready start p (.done, t))
    (hauto : t.autoCommit = true) :
    (t.aergoliteCheckExecResult .done).noteCompleted p .done = t := by
  obtain ⟨hlast, hends⟩ := h.ended rfl hauto
  have hstored : t.aergoliteCheckExecResult .done = t := by
    unfold aergoliteCheckExecResult
    rw [if_pos rfl, storeLastCommand_of_none hlast]
  rw [hstored]
  unfold noteCompleted
  split_ifs with hnotes
  · -- another statement is writing, and this one has no command
    have hcommand : p.command = none := by
      refine hends.resolve_right fun hzero => ?_
      rcases hnotes.2 with hfalse | hpos
      · exact Bool.noConfusion (hauto.symm.trans hfalse)
      · exact Nat.ne_of_gt hpos hzero
    rw [hcommand, Option.toList_none, List.append_nil]
  · rfl

/-- **The command of a statement that is done** is stored. -/
theorem Ready.done {t : Connection} (h : Ready start p (.done, t)) :
    Consistent start ((t.aergoliteCheckExecResult .done).noteCompleted p .done) := by
  by_cases hauto : t.autoCommit = true
  · rw [h.done_of_autoCommit hauto]
    exact ⟨h.sound, (h.ended rfl hauto).1⟩
  · rw [Bool.not_eq_true] at hauto
    have hstored := h.sound.tracks.storeLastCommand
    rw [h.goesOn rfl hauto] at hstored
    unfold aergoliteCheckExecResult noteCompleted
    rw [if_pos rfl, if_pos ⟨rfl, .inl hauto⟩]
    exact ⟨.inr ⟨hauto, hstored⟩, t.pager.lastcmd_storeLastCommand⟩

/-- **What follows a statement that is executed.** -/
theorem Ready.consistent {rc : StepResult} {t : Connection} (h : Ready start p (rc, t)) :
    Consistent start ((t.aergoliteCheckExecResult rc).noteCompleted p rc) := by
  by_cases hdone : rc = .done
  · subst hdone
    exact h.done
  · unfold aergoliteCheckExecResult noteCompleted
    rw [if_neg hdone, if_neg fun hand => hdone hand.1]
    exact ⟨h.sound.withPager (h.sound.tracks.setLastcmd none), rfl⟩

/-- **A statement takes a step.** -/
theorem Consistent.sqlite3Step (h : s.Consistent start)
    (hregular : s.Regular (.step p doingRerun x)) :
    (s.sqlite3Step p doingRerun x).Consistent start :=
  (h.sound.sqlite3VdbeExec h.lastcmd hregular).consistent

theorem Sound.begun (h : s.Sound start) (p : Vdbe) : (s.begun p).Sound start := by
  rcases h with h | h
  · exact .inl ⟨⟨h.autoCommit, h.tracks, h.completed, h.savepoints⟩,
      fun hzero => h.notWrite (writers_begun hzero)⟩
  · exact .inr h

/-- **A statement is reset.** -/
theorem Consistent.sqlite3VdbeReset (h : s.Consistent start) {x : Halting}
    (hregular : s.Regular (.reset p x)) : (s.sqlite3VdbeReset p x).Consistent start := by
  have hsound := h.sound.begun p
  unfold Connection.sqlite3VdbeReset
  cases hauto : s.autoCommit with
  | true =>
      have hexact : s.pager.lastcmd.toList = if x.rc = .ok then [] else [] := by
        rw [h.lastcmd, ite_self]
        rfl
      rcases sqlite3VdbeHalt_autoCommit (x := x) [] (hsound.inAutoCommit hauto) rfl
          (fun _ _ _ => hexact) with heq | ⟨rc, t, heq, hleft, -⟩
      · rw [heq]
        exact ⟨hsound, h.lastcmd⟩
      · rw [heq]
        exact ⟨.inl hleft.inAutoCommit, hleft.lastcmd h.lastcmd⟩
  | false =>
      have hgoesOn : (s.begun p).autoCommit = false := hauto
      rw [sqlite3VdbeHalt_explicit hgoesOn (hregular hauto)]
      exact ⟨hsound.halted hauto, h.lastcmd⟩

/-- The read transaction of the schema is ended. -/
theorem btreeEndTransaction_read (h : s.inTrans = .read) :
    s.btreeEndTransaction =
      if 1 < s.nVdbeRead then { s with inTrans := .read }
      else { s with pager := s.pager.aergoliteDiscardTransaction, inTrans := .none } := by
  have hne : s.inTrans ≠ .none := fun hnone => InTrans.noConfusion (h.symm.trans hnone)
  unfold btreeEndTransaction
  by_cases hreaders : 1 < s.nVdbeRead
  · rw [if_pos ⟨hne, hreaders⟩, if_pos hreaders]
  · rw [if_neg fun hand => hreaders hand.2, if_neg hreaders, if_pos hne]

theorem loadSchema_none (hnone : s.inTrans = .none) (x : Attempt) :
    s.loadSchema x =
      if x.rc = .ok then
        { (if x.unlocked then { s with pager := s.pager.aergoliteDiscardTransaction } else s) with
          inTrans := .read }.btreeEndTransaction
      else if x.unlocked then { s with pager := s.pager.aergoliteDiscardTransaction } else s := by
  obtain ⟨rc, unlocked⟩ := x
  unfold loadSchema sqlite3BtreeBeginTrans
  rw [if_neg (not_not.2 hnone), hnone]
  cases rc <;> cases unlocked <;> rfl

/-- What is left of a schema that was loaded without a transaction: the log is discarded where the
database is unlocked. -/
theorem loadSchema_eq {x : Attempt} (hnone : s.inTrans = .none) :
    ∃ pager inTrans, s.loadSchema x = { s with pager, inTrans } ∧
      (∀ modified, inTrans ≠ .write modified) ∧
      (pager = s.pager ∨ pager = s.pager.aergoliteDiscardTransaction) ∧
      (x.unlocked = false → (x.rc = .ok → 1 < s.nVdbeRead) → pager = s.pager) := by
  have hopen : ∀ modified, InTrans.read ≠ .write modified := fun _ h => InTrans.noConfusion h
  have hclosed : ∀ modified, s.inTrans ≠ .write modified :=
    fun _ h => InTrans.noConfusion (hnone.symm.trans h)
  rw [loadSchema_none hnone]
  by_cases hok : x.rc = .ok
  · rw [if_pos hok, btreeEndTransaction_read rfl]
    cases hunlocked : x.unlocked with
    | false =>
        rw [if_neg Bool.false_ne_true]
        split_ifs with hreaders
        · exact ⟨s.pager, .read, rfl, hopen, .inl rfl, fun _ _ => rfl⟩
        · exact ⟨_, .none, rfl, fun _ h => InTrans.noConfusion h, .inr rfl,
            fun _ hmore => absurd (hmore hok) hreaders⟩
    | true =>
        rw [if_pos rfl]
        split_ifs
        · exact ⟨_, .read, rfl, hopen, .inr rfl, False.elim⟩
        · exact ⟨_, .none, rfl, fun _ h => InTrans.noConfusion h, .inr rfl, False.elim⟩
  · rw [if_neg hok]
    split_ifs with hunlocked
    · exact ⟨_, s.inTrans, rfl, hclosed, .inr rfl,
        fun h => Bool.noConfusion (h.symm.trans hunlocked)⟩
    · exact ⟨s.pager, s.inTrans, rfl, hclosed, .inl rfl, fun _ _ => rfl⟩

/-- **The schema is loaded.** -/
theorem Consistent.loadSchema (h : s.Consistent start) {x : Attempt}
    (hregular : s.Regular (.loadSchema x)) : (s.loadSchema x).Consistent start := by
  by_cases hnone : s.inTrans = .none
  · obtain ⟨pager, inTrans, heq, hwrite, hpager, hsame⟩ := loadSchema_eq (x := x) hnone
    rw [heq]
    refine ⟨?_, hpager.elim (fun heq => heq ▸ h.lastcmd) (fun heq => heq ▸ rfl)⟩
    rcases h.sound with hauto | ⟨hauto, htracks⟩
    · refine .inl ⟨⟨hauto.autoCommit, ?_, hauto.completed, hauto.savepoints⟩, fun _ => hwrite⟩
      rcases hpager with rfl | rfl
      · exact hauto.tracks
      · exact hauto.tracks.discard
    · obtain ⟨hunlocked, hreaders⟩ := hregular hauto hnone
      rw [hsame hunlocked hreaders]
      exact .inr ⟨hauto, htracks⟩
  · unfold Connection.loadSchema
    rw [if_pos hnone]
    exact h

/-- **A regular step** keeps the log that of the commands. -/
theorem Consistent.step (h : s.Consistent start) {e : Event} (hregular : s.Regular e)
    {t : Connection} (hstep : s.step e = some t) : t.Consistent start := by
  cases e with
  | step p doingRerun x =>
      obtain rfl := Option.some.inj hstep
      exact h.sqlite3Step hregular
  | reset p x =>
      obtain ⟨-, hreset⟩ := Option.ite_none_right_eq_some.1 hstep
      obtain rfl := Option.some.inj hreset
      exact h.sqlite3VdbeReset hregular
  | loadSchema x =>
      obtain rfl := Option.some.inj hstep
      exact h.loadSchema hregular
  | special sql signed verified saved =>
      obtain rfl := Option.some.inj hstep
      have hcompleted := (h.sound.inAutoCommit hregular).completed
      have htracks := h.sound.tracks
      rw [hcompleted] at htracks
      refine ⟨h.sound.withPager ?_, rfl⟩
      rw [hcompleted]
      exact htracks.createSpecialTransaction sql signed verified saved
  | processed nonce =>
      obtain ⟨⟨hle, hnewest⟩, hprocessed⟩ := Option.ite_none_right_eq_some.1 hstep
      obtain rfl := Option.some.inj hprocessed
      exact ⟨h.sound.withPager (h.sound.tracks.setProcessed hle hnewest), h.lastcmd⟩
  | rotated =>
      unfold Connection.step at hstep
      dsimp only at hstep
      split_ifs at hstep with hactive
      · obtain rfl := Option.some.inj hstep
        exact h
      · obtain rfl := Option.some.inj hstep
        exact ⟨h.sound.withPager (h.sound.tracks.rotated (Int.not_lt.1 hactive)), h.lastcmd⟩

end Connection

/-! ## Runs -/

/-- A connection that is opened: `start` is the last active or processed nonce. -/
def Starts (start : ℤ) (s : Connection) : Prop :=
  ∃ maxActiveNonce lastProcessedNonce, s = opened maxActiveNonce lastProcessedNonce ∧
    0 ≤ maxActiveNonce ∧ (maxActiveNonce ≠ 0 → lastProcessedNonce ≤ maxActiveNonce) ∧
    start = if maxActiveNonce = 0 then max lastProcessedNonce 0 else maxActiveNonce

/-- The runs of the connection: statements in any order, and what the node processes. -/
def captureSystem (start : ℤ) : System Connection Event :=
  System.ofStep (Starts start) Connection.step

theorem Starts.consistent {start : ℤ} {s : Connection} (h : Starts start s) :
    s.Consistent start := by
  obtain ⟨maxActiveNonce, lastProcessedNonce, rfl, hactive, hprocessed, hstart⟩ := h
  have hlast : lastOf start [] = start := add_zero start
  have hcounted : (opened maxActiveNonce lastProcessedNonce).pager.Counted start := by
    unfold opened
    refine ⟨recorded_nil start, ?_, fun hne => ?_, fun hzero => ?_, ?_⟩
    · split_ifs at hstart <;> omega
    · exact (hstart.trans (if_neg hne)).symm.trans hlast.symm
    · exact (hstart.trans (if_pos hzero)).symm.trans hlast.symm
    · dsimp only
      rw [hlast, hstart]
      split_ifs with hzero
      · exact le_max_left _ _
      · exact hprocessed hzero
  exact ⟨.inl ⟨⟨rfl, ⟨hcounted, rfl, .inl rfl⟩, rfl, rfl⟩,
    fun _ _ htrans => InTrans.noConfusion htrans⟩, rfl⟩

/-- **The transactions of a regular run** carry consecutive nonces, and each holds the commands that
were completed in it. -/
theorem recorded_of_regular {start : ℤ} {s : Connection}
    (h : ((captureSystem start).restrict Connection.Regular).Reachable s) :
    Recorded start s.pager.walLocal := by
  have hinvariant : ((captureSystem start).restrict Connection.Regular).Invariant
      (Connection.Consistent start) :=
    ⟨fun _ hstarts => Starts.consistent hstarts, fun _ _ _ hs hstep => hs.step hstep.1 hstep.2⟩
  exact (hinvariant.reachable h).sound.tracks.recorded

/-- A statement that begins or ends a transaction. -/
def control (id : ℕ) (zSql : String) (desiredAutoCommit iRollback : Bool) : Vdbe where
  id := id
  zSql := zSql.toList
  doNotLog := false
  usesBtree := false
  opens := none
  op := .autoCommit desiredAutoCommit iRollback
  readOnly := true
  isReader := true
  usesStmtJournal := false
  readOnly_of_opens h := absurd h.symm (Option.some_ne_none true)
  isReader_of_op _ := rfl
  usesStmtJournal_of_op _ := rfl
  op_of_isGlobal _ h := Op.noConfusion h

/-- An `INSERT` into a table. -/
def insert : Vdbe where
  id := 0
  zSql := "INSERT".toList
  doNotLog := false
  usesBtree := true
  opens := some true
  op := .other
  readOnly := false
  isReader := true
  usesStmtJournal := false
  readOnly_of_opens _ := rfl
  isReader_of_op _ := rfl
  usesStmtJournal_of_op _ := rfl
  op_of_isGlobal h := absurd h (by decide)

/-- It is executed without an error. -/
def executed (p : Vdbe) : Event :=
  .step p false ⟨⟨.ok, false⟩, true, false, ⟨.ok, .abort, false, .ok, .ok, .ok, .ok⟩⟩

/-- Two transactions that are committed. -/
theorem recorded_of_regular_commits :
    ∃ s, System.run Connection.step (opened 0 0) [executed (control 1 "BEGIN" false false),
        executed insert, executed (control 2 "COMMIT" true false), executed insert] = some s ∧
      s.pager.walLocal.length = 2 ∧ Recorded 0 s.pager.walLocal := by
  have hrun : (System.run (System.checked (fun s e => decide (s.Regular e)) Connection.step)
      (opened 0 0) [executed (control 1 "BEGIN" false false), executed insert,
        executed (control 2 "COMMIT" true false), executed insert]).map
      (fun s => s.pager.walLocal.length) = some 2 := by decide +kernel
  obtain ⟨s, hs, hlength⟩ := Option.map_eq_some_iff.1 hrun
  have hstarts : Starts 0 (opened 0 0) := ⟨0, 0, rfl, le_rfl, fun _ => le_rfl, rfl⟩
  exact ⟨s, System.run_of_checked hs, hlength, recorded_of_regular
    (System.reachable_restrict_of_run of_decide_eq_true hstarts hs)⟩

/-- **A transaction that is rolled back** has used up its nonce: the next one carries another. -/
theorem recorded_not_after_rollback :
    ∃ s, (captureSystem 0).Reachable s ∧ ¬Recorded 0 s.pager.walLocal := by
  have hrun : (System.run Connection.step (opened 0 0) [executed (control 1 "BEGIN" false false),
      executed insert, executed (control 3 "ROLLBACK" true true), executed insert]).any
      (fun s => !decide (Recorded 0 s.pager.walLocal)) = true := by decide +kernel
  obtain ⟨s, hs, hnot⟩ := (Option.any_eq_true _ _).1 hrun
  have hstarts : Starts 0 (opened 0 0) := ⟨0, 0, rfl, le_rfl, fun _ => le_rfl, rfl⟩
  exact ⟨s, System.reachable_of_run hstarts hs,
    of_decide_eq_false ((Bool.not_eq_true' _).mp hnot)⟩

end Capture
end Core
end AergoLite
