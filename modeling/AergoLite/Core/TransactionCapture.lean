/-
# The capture of local transactions

What the application executes on its connection is recorded by `core/sqlite3.c`: `sqlite3Step`
remembers the text of a statement that begins (`lastcmd`), the text is stored in the log of the
transaction when the statement is done or when its pages are committed, and the log is appended
to `wal-local` with the pages.  The nonce of the transaction is allocated with the first text
that is stored.  The functions below are translated from three layers: the log and the nonces
(`aergoliteStoreCommand` and its neighbours), the pager and the b-tree that commit and roll back
(`pagerWalFrames`, `pager_end_transaction`, `btreeEndTransaction`), and the statement that halts
(`sqlite3VdbeHalt`, `OP_AutoCommit`, `OP_Savepoint`, `sqlite3Step`).

The connection has one database, in WAL mode.  What a statement reads and writes, the locks it
gets and the errors it runs into are the input of a step.  `completed` is not in the source: the
commands that were completed since the transaction began.
-/

import AergoLite.Core.Basic
import AergoLite.Library.Transition
import Mathlib.Data.Int.Notation
import Mathlib.Data.List.Basic

namespace AergoLite
namespace Core
namespace Capture

/-! ## Statements -/

/-- `sqlite3StrNICmp` of a text and a word in lower case, over the length of the word. -/
def hasPrefix (word zSql : Text) : Bool := (zSql.take word.length).map Char.toLower == word

/-- The commands that `aergoliteCheckUserCommand` does not run on the other nodes. -/
def isQuery (zSql : Text) : Bool :=
  hasPrefix "select".toList zSql || hasPrefix "pragma".toList zSql

/-- The commands that it processes for all the attached databases. -/
def isGlobal (zSql : Text) : Bool :=
  hasPrefix "begin".toList zSql || hasPrefix "commit".toList zSql ||
    hasPrefix "savepoint".toList zSql || hasPrefix "release".toList zSql ||
    hasPrefix "rollback".toList zSql

/-- `SAVEPOINT_BEGIN`, `SAVEPOINT_RELEASE` and `SAVEPOINT_ROLLBACK`. -/
inductive SavepointOp
  | begin | release | rollback
  deriving DecidableEq

/-- What a statement does to the transaction: `OP_AutoCommit`, `OP_Savepoint`, or neither. -/
inductive Op
  | other
  | autoCommit (desiredAutoCommit iRollback : Bool)
  | savepoint (p1 : SavepointOp) (zName : Text)
  deriving DecidableEq

/-- `struct Vdbe`. -/
structure Vdbe where
  id : ℕ
  /-- The text after its leading blanks, with the values of its parameters. -/
  zSql : Text
  doNotLog : Bool
  /-- The database is in `btreeMask`. -/
  usesBtree : Bool
  /-- `OP_Transaction` on the database, for writing or not. -/
  opens : Option Bool
  op : Op
  readOnly : Bool
  isReader : Bool
  usesStmtJournal : Bool
  readOnly_of_opens : opens = some true → readOnly = false
  isReader_of_op : opens.isSome ∨ op ≠ .other ∨ readOnly = false → isReader = true
  usesStmtJournal_of_op : op ≠ .other → usesStmtJournal = false
  op_of_isGlobal : isGlobal zSql = true → op ≠ .other
  deriving DecidableEq

/-- `aergoliteCheckUserCommand`: the text that it stores in `lastcmd`. -/
def Vdbe.userCommand (p : Vdbe) : Option Text :=
  if p.doNotLog || isQuery p.zSql then none
  else if p.usesBtree || isGlobal p.zSql then some p.zSql
  else none

/-- The commands of a transaction: what is executed on the database other than a query, and what
begins and ends transactions and savepoints. -/
def Vdbe.command (p : Vdbe) : Option Text :=
  if p.doNotLog || isQuery p.zSql then none
  else if p.usesBtree || decide (p.op ≠ .other) then some p.zSql
  else none

/-- What is captured is a command. -/
theorem Vdbe.command_of_userCommand {p : Vdbe} {sql : Text} (h : p.userCommand = some sql) :
    p.command = some sql := by
  unfold userCommand at h
  unfold command
  split_ifs at h with hlog hmask
  have hcommand : (p.usesBtree || decide (p.op ≠ .other)) = true := by
    rcases Bool.or_eq_true_iff.1 hmask with hmask | hmask
    · exact Bool.or_eq_true_iff.2 (.inl hmask)
    · exact Bool.or_eq_true_iff.2 (.inr (decide_eq_true (p.op_of_isGlobal hmask)))
  rw [if_neg hlog, if_pos hcommand]
  exact h

/-! ## The log of a transaction -/

/-- The nonce and the commands of a log. -/
structure TxnLog where
  nonce : ℤ
  commands : List Text
  deriving DecidableEq

/-- What is appended to `wal-local` by a commit: its log, if any, and the commands of the
transaction that were completed, with the one that commits. -/
structure Appended where
  log : Option TxnLog
  completed : List Text
  deriving DecidableEq

/-- The fields of `struct Pager` and of `struct aergolite` that are about local transactions,
with what has been appended to `wal-local`. -/
structure Pager where
  log : Option TxnLog
  lastcmd : Option Text
  currentLocalNonce : ℤ
  maxActiveNonce : ℤ
  lastProcessedNonce : ℤ
  walLocal : List Appended
  deriving DecidableEq

namespace Pager

/-- The nonce from which `aergoliteStoreTransactionNonce` counts. -/
def lastNonce (s : Pager) : ℤ :=
  let lastNonce := if s.maxActiveNonce = 0 then s.lastProcessedNonce else s.maxActiveNonce
  if lastNonce < 0 then 0 else lastNonce

/-- `aergoliteStoreTransactionNonce`: the nonce of a new transaction. -/
def newNonce (s : Pager) : ℤ :=
  if s.currentLocalNonce = 0 then s.lastNonce + 1 else s.currentLocalNonce + 1

/-- `aergoliteCreateTransaction`. -/
def aergoliteCreateTransaction (s : Pager) : Pager :=
  if s.log.isSome then s
  else { s with log := some ⟨s.newNonce, []⟩, currentLocalNonce := s.newNonce }

/-- `aergoliteStoreCommand`. -/
def aergoliteStoreCommand (sql : Text) (s : Pager) : Pager :=
  let s := s.aergoliteCreateTransaction
  { s with log := s.log.map fun log => { log with commands := log.commands ++ [sql] } }

/-- `aergoliteStoreLastCommand`. -/
def aergoliteStoreLastCommand (s : Pager) : Pager :=
  match s.lastcmd with
  | none => s
  | some sql => { s.aergoliteStoreCommand sql with lastcmd := none }

/-- `aergoliteDiscardTransaction`. -/
def aergoliteDiscardTransaction (s : Pager) : Pager := { s with log := none, lastcmd := none }

/-- `aergoliteTransactionFailed`. -/
def aergoliteTransactionFailed (s : Pager) : Pager := { s with currentLocalNonce := 0 }

/-- `process_new_local_transaction`. -/
def processNewLocalTransaction (s : Pager) : Pager :=
  { s with maxActiveNonce := s.currentLocalNonce }

/-- `sqlite3WalFrames` of a commit, where it succeeds. -/
def append (completed : List Text) (s : Pager) : Pager :=
  { s with walLocal := s.walLocal ++ [⟨s.log, completed⟩] }

/-- `create_special_transaction`: the transaction is signed by the admin, verified and saved. -/
def createSpecialTransaction (sql : Text) (signed verified saved : Bool) (completed : List Text)
    (s : Pager) : Pager :=
  let s := s.aergoliteStoreCommand sql
  let s :=
    if !signed then s.aergoliteTransactionFailed
    else if !verified then s.aergoliteTransactionFailed
    else if !saved then s.aergoliteTransactionFailed
    else (s.append (completed ++ [sql])).processNewLocalTransaction
  s.aergoliteDiscardTransaction

end Pager

/-! ## The connection -/

/-- `inTrans` of the b-tree; a write transaction may have modified pages of the database
(`PAGER_WRITER_CACHEMOD`). -/
inductive InTrans
  | none | read | write (modified : Bool)
  deriving DecidableEq

/-- The result codes that `sqlite3VdbeHalt` tells apart. -/
inductive VdbeRc
  | ok | busy | nomem | ioErr | interrupt | full | constraint | error
  deriving DecidableEq

/-- `isSpecialError`. -/
def VdbeRc.isSpecialError : VdbeRc → Bool
  | .nomem | .ioErr | .interrupt | .full => true
  | _ => false

/-- `OE_Abort`, `OE_Fail` and `OE_Rollback`. -/
inductive ErrorAction
  | abort | fail | rollback
  deriving DecidableEq

/-- What `sqlite3BtreeBeginTrans` returns where it has to open a transaction, and whether page 1
was released after an attempt that failed. -/
structure Attempt where
  rc : VdbeRc
  unlocked : Bool
  deriving DecidableEq

/-- How a statement halts. -/
structure Halting where
  rc : VdbeRc
  errorAction : ErrorAction
  /-- A deferred foreign key is violated. -/
  deferredViolation : Bool
  /-- What the commit returns before it writes: the commit hook, for example. -/
  before : VdbeRc
  /-- `aergoliteCheckSignTransaction`. -/
  sign : VdbeRc
  /-- `sqlite3WalFrames`. -/
  write : VdbeRc
  /-- `sqlite3VdbeCloseStatement`. -/
  closeStatement : VdbeRc
  deriving DecidableEq

/-- What `sqlite3VdbeExec` does with a statement: it gets a lock, it modifies pages, and it
returns a row or halts. -/
structure Execution where
  attempt : Attempt
  modifies : Bool
  row : Bool
  halting : Halting
  deriving DecidableEq

/-- What `sqlite3VdbeExec` returns. -/
inductive StepResult
  | row | done | busy | error
  deriving DecidableEq

/-- The connection of the application. -/
structure Connection where
  pager : Pager
  inTrans : InTrans
  autoCommit : Bool
  isTransactionSavepoint : Bool
  /-- The names of the savepoints, the last one first. -/
  savepoints : List Text
  /-- The statements that have begun and not halted. -/
  active : List Vdbe
  completed : List Text
  deriving DecidableEq

namespace Connection

/-- `db->nVdbeRead`. -/
def nVdbeRead (s : Connection) : ℕ := s.active.countP fun p => p.isReader

/-- `db->nVdbeWrite`. -/
def nVdbeWrite (s : Connection) : ℕ := s.active.countP fun p => !p.readOnly

/-- `sqlite3BtreeBeginTrans`.  Page 1 is released if there was no transaction, and with it the log
and the last command. -/
def sqlite3BtreeBeginTrans (wrflag : Bool) (x : Attempt) (s : Connection) : VdbeRc × Connection :=
  match s.inTrans, wrflag with
  | .write _, _ => (.ok, s)
  | .read, false => (.ok, s)
  | .read, true => (x.rc, if x.rc = .ok then { s with inTrans := .write false } else s)
  | .none, _ =>
    let s := if x.unlocked then { s with pager := s.pager.aergoliteDiscardTransaction } else s
    (x.rc,
      if x.rc = .ok then { s with inTrans := if wrflag then .write false else .read } else s)

/-- Pages of the database are modified. -/
def modify (modifies : Bool) (s : Connection) : Connection :=
  match s.inTrans with
  | .write modified => { s with inTrans := .write (modified || modifies) }
  | _ => s

/-- `pagerWalFrames` of a commit. -/
def pagerWalFrames (x : Halting) (completed : List Text) (s : Pager) : VdbeRc × Pager :=
  let s := s.aergoliteStoreLastCommand
  if s.log.isSome then
    if x.sign ≠ .ok then (x.sign, s.aergoliteTransactionFailed)
    else if x.write ≠ .ok then (x.write, s.aergoliteTransactionFailed)
    else (.ok, s.append completed)
  else if x.write ≠ .ok then (x.write, s)
  else (.ok, s.append completed)

/-- `pager_end_transaction` of a write transaction. -/
def pagerEndTransaction (bCommit : Bool) (s : Pager) : Pager :=
  let s := if bCommit && decide (0 < s.currentLocalNonce) then s.processNewLocalTransaction else s
  if s.log.isSome then s.aergoliteDiscardTransaction else s

/-- `btreeEndTransaction`.  Where no other statement is reading, the database is unlocked, and
`pager_end_transaction` of the read transaction discards the log and the last command. -/
def btreeEndTransaction (s : Connection) : Connection :=
  if s.inTrans ≠ .none ∧ 1 < s.nVdbeRead then { s with inTrans := .read }
  else if s.inTrans ≠ .none then
    { s with pager := s.pager.aergoliteDiscardTransaction, inTrans := .none }
  else s

/-- `sqlite3BtreeCommitPhaseOne`. -/
def sqlite3BtreeCommitPhaseOne (x : Halting) (completed : List Text) (s : Connection) :
    VdbeRc × Connection :=
  match s.inTrans with
  | .write true =>
    let (rc, pager) := pagerWalFrames x completed s.pager
    (rc, { s with pager })
  | _ => (.ok, s)

/-- `sqlite3BtreeCommitPhaseTwo`. -/
def sqlite3BtreeCommitPhaseTwo (s : Connection) : Connection :=
  match s.inTrans with
  | .none => s
  | .read => s.btreeEndTransaction
  | .write _ => { s with pager := pagerEndTransaction true s.pager }.btreeEndTransaction

/-- `vdbeCommit`. -/
def vdbeCommit (x : Halting) (completed : List Text) (s : Connection) : VdbeRc × Connection :=
  if x.before ≠ .ok then (x.before, s)
  else
    match s.sqlite3BtreeCommitPhaseOne x completed with
    | (.ok, s) => (.ok, s.sqlite3BtreeCommitPhaseTwo)
    | (rc, s) => (rc, s)

/-- `sqlite3RollbackAll`. -/
def sqlite3RollbackAll (s : Connection) : Connection :=
  let s := { s with completed := [] }
  match s.inTrans with
  | .write _ => { s with pager := pagerEndTransaction false s.pager }.btreeEndTransaction
  | _ => s.btreeEndTransaction

/-- `sqlite3CloseSavepoints`. -/
def sqlite3CloseSavepoints (s : Connection) : Connection :=
  { s with savepoints := [], isTransactionSavepoint := false }

/-- The transaction is rolled back by a statement that halts. -/
def abortTransaction (s : Connection) : Connection :=
  { s.sqlite3RollbackAll.sqlite3CloseSavepoints with autoCommit := true }

/-! ## Statements that halt -/

/-- The special errors that roll back the transaction, before it is decided what to do. -/
def forcesRollback (p : Vdbe) (x : Halting) : Bool :=
  x.rc.isSpecialError && (!p.readOnly || x.rc != .interrupt) &&
    !((x.rc == .nomem || x.rc == .full) && p.usesStmtJournal)

/-- `eStatementOp` is `SAVEPOINT_ROLLBACK` after a special error. -/
def rollsBackStatement (p : Vdbe) (x : Halting) : Bool :=
  (x.rc == .nomem || x.rc == .full) && p.usesStmtJournal

/-- The commit or the rollback of a statement in auto-commit mode: `none` where the commit is
busy and the statement does not halt. -/
def commitOrRollback (p : Vdbe) (x : Halting) (done : List Text) (s : Connection) :
    Option VdbeRc × Connection :=
  if x.rc = .ok ∨ x.errorAction = .fail ∧ x.rc.isSpecialError = false then
    let (rc, s) :=
      if x.deferredViolation then (.constraint, s)
      else s.vdbeCommit x (s.completed ++ if x.rc = .ok then done else [])
    if rc = .busy ∧ p.readOnly then (none, s)
    else if rc ≠ .ok then (some rc, s.sqlite3RollbackAll)
    else (some x.rc, { s with completed := [] })
  else (some x.rc, s.sqlite3RollbackAll)

/-- `sqlite3VdbeCloseStatement`, and the rollback where it fails. -/
def closeStatement (p : Vdbe) (x : Halting) (rc : VdbeRc) (s : Connection) : VdbeRc × Connection :=
  if p.usesStmtJournal ∧ x.closeStatement ≠ .ok then
    (if rc = .ok ∨ rc = .constraint then x.closeStatement else rc, s.abortTransaction)
  else (rc, s)

/-- The statement is not active any more. -/
def halted (p : Vdbe) (s : Connection) : Connection := { s with active := s.active.erase p }

/-- `sqlite3VdbeHalt` after the special errors. -/
def endStatement (p : Vdbe) (x : Halting) (done : List Text) (s : Connection) :
    Option VdbeRc × Connection :=
  if s.autoCommit ∧ s.nVdbeWrite = if p.readOnly then 0 else 1 then
    match s.commitOrRollback p x done with
    | (none, s) => (none, s)
    | (some rc, s) =>
      let (rc, s) := if rollsBackStatement p x then s.closeStatement p x rc else (rc, s)
      (some rc, s.halted p)
  else if rollsBackStatement p x ∨ x.rc = .ok ∨ x.errorAction ≠ .rollback then
    let (rc, s) := s.closeStatement p x x.rc
    (some rc, s.halted p)
  else (some x.rc, s.abortTransaction.halted p)

/-- `sqlite3VdbeHalt`: `p->rc` afterwards, or `none` where it returns `SQLITE_BUSY`.  `done` is the
command that is completed if no error occurs. -/
def sqlite3VdbeHalt (p : Vdbe) (x : Halting) (done : List Text) (s : Connection) :
    Option VdbeRc × Connection :=
  if !p.isReader then (some x.rc, s.halted p)
  else (if forcesRollback p x then s.abortTransaction else s).endStatement p x done

/-- What a statement returns that halts. -/
def finish : Option VdbeRc × Connection → StepResult × Connection
  | (none, s) => (.busy, s)
  | (some rc, s) => (if rc = .ok then .done else .error, s)

/-- `abort_due_to_error`. -/
def abortDueToError (p : Vdbe) (x : Halting) (rc : VdbeRc) (s : Connection) :
    StepResult × Connection :=
  (.error, (s.sqlite3VdbeHalt p { x with rc, errorAction := .abort } []).2)

/-- The statement halts without an error of its own. -/
def haltOk (p : Vdbe) (x : Halting) (s : Connection) : Option VdbeRc × Connection :=
  s.sqlite3VdbeHalt p { x with rc := .ok } p.command.toList

/-- `OP_AutoCommit`. -/
def opAutoCommit (desiredAutoCommit iRollback : Bool) (p : Vdbe) (x : Halting) (s : Connection) :
    StepResult × Connection :=
  if desiredAutoCommit = s.autoCommit then s.abortDueToError p x .error
  else if iRollback then
    let s := { s.sqlite3RollbackAll with autoCommit := true }
    match s.haltOk p x with
    | (none, s) => (.busy, { s with autoCommit := !desiredAutoCommit })
    | (some rc, s) => finish (some rc, s.sqlite3CloseSavepoints)
  else if desiredAutoCommit ∧ 0 < s.nVdbeWrite then s.abortDueToError p x .busy
  else if x.deferredViolation then (.error, s)
  else
    match { s with autoCommit := desiredAutoCommit }.haltOk p x with
    | (none, s) => (.busy, { s with autoCommit := !desiredAutoCommit })
    | (some rc, s) => finish (some rc, s.sqlite3CloseSavepoints)

/-- `sqlite3StrICmp` of the name of a savepoint. -/
def sameName (zName name : Text) : Bool := name.map Char.toLower == zName.map Char.toLower

/-- The savepoint with a name, and those before it. -/
def fromSavepoint (zName : Text) (s : Connection) : List Text :=
  s.savepoints.dropWhile fun name => !sameName zName name

/-- `OP_Savepoint`. -/
def opSavepoint (p1 : SavepointOp) (zName : Text) (p : Vdbe) (x : Halting) (s : Connection) :
    StepResult × Connection :=
  match p1 with
  | .begin =>
    if 0 < s.nVdbeWrite then s.abortDueToError p x .busy
    else
      let s := { s with savepoints := zName :: s.savepoints }
      let s := if s.autoCommit then { s with autoCommit := false, isTransactionSavepoint := true }
        else s
      finish (s.haltOk p x)
  | .release =>
    match s.fromSavepoint zName with
    | [] => s.abortDueToError p x .error
    | _ :: rest =>
      if 0 < s.nVdbeWrite then s.abortDueToError p x .busy
      else if rest = [] ∧ s.isTransactionSavepoint then
        if x.deferredViolation then (.error, s)
        else
          match { s with autoCommit := true }.haltOk p x with
          | (none, s) => (.busy, { s with autoCommit := false })
          | (some rc, s) => finish (some rc, s.sqlite3CloseSavepoints)
      else finish ({ s with savepoints := rest }.haltOk p x)
  | .rollback =>
    match s.fromSavepoint zName with
    | [] => s.abortDueToError p x .error
    | names => finish ({ s with savepoints := names }.haltOk p x)

/-- The statement after `OP_Transaction`. -/
def runOp (p : Vdbe) (x : Execution) (s : Connection) : StepResult × Connection :=
  match p.op with
  | .other =>
    let s := s.modify (x.modifies && p.opens == some true)
    if x.row then (.row, s) else finish (s.sqlite3VdbeHalt p x.halting p.command.toList)
  | .autoCommit desiredAutoCommit iRollback =>
    s.opAutoCommit desiredAutoCommit iRollback p x.halting
  | .savepoint p1 zName => s.opSavepoint p1 zName p x.halting

/-- `sqlite3VdbeExec`. -/
def sqlite3VdbeExec (p : Vdbe) (x : Execution) (s : Connection) : StepResult × Connection :=
  match p.opens with
  | none => s.runOp p x
  | some wrflag =>
    match s.sqlite3BtreeBeginTrans wrflag x.attempt with
    | (.ok, s) => s.runOp p x
    | (.busy, s) => (.busy, s)
    | (rc, s) => s.abortDueToError p x.halting rc

/-! ## Steps -/

/-- The statement begins, or goes on. -/
def begun (p : Vdbe) (s : Connection) : Connection := { s with active := p :: s.active.erase p }

/-- The statement is captured in this step: it begins, and not after it was prepared again. -/
def Captures (p : Vdbe) (doingRerun : Bool) (s : Connection) : Prop :=
  p ∉ s.active ∧ doingRerun = false

instance instDecidableCaptures (p : Vdbe) (doingRerun : Bool) (s : Connection) :
    Decidable (s.Captures p doingRerun) :=
  inferInstanceAs (Decidable (_ ∧ _))

/-- `aergoliteCheckUserCommand`. -/
def aergoliteCheckUserCommand (p : Vdbe) (s : Connection) : Connection :=
  match p.userCommand with
  | none => s
  | some sql => { s with pager := { s.pager with lastcmd := some sql } }

/-- `aergoliteCheckExecResult`. -/
def aergoliteCheckExecResult (rc : StepResult) (s : Connection) : Connection :=
  if rc = .done then { s with pager := s.pager.aergoliteStoreLastCommand }
  else { s with pager := { s.pager with lastcmd := none } }

/-- A command that is done belongs to the transaction, if that has not ended with it. -/
def noteCompleted (p : Vdbe) (rc : StepResult) (s : Connection) : Connection :=
  if rc = .done ∧ (s.autoCommit = false ∨ 0 < s.nVdbeWrite) then
    { s with completed := s.completed ++ p.command.toList }
  else s

/-- `sqlite3Step`. -/
def sqlite3Step (p : Vdbe) (doingRerun : Bool) (x : Execution) (s : Connection) : Connection :=
  let s' := if s.Captures p doingRerun then s.aergoliteCheckUserCommand p else s
  let (rc, s') := (s'.begun p).sqlite3VdbeExec p x
  (s'.aergoliteCheckExecResult rc).noteCompleted p rc

/-- `sqlite3VdbeReset` of a statement that is active. -/
def sqlite3VdbeReset (p : Vdbe) (x : Halting) (s : Connection) : Connection :=
  ((s.begun p).sqlite3VdbeHalt p x []).2

/-- The schema is read while a statement is prepared: a read transaction, if there is none. -/
def loadSchema (x : Attempt) (s : Connection) : Connection :=
  if s.inTrans ≠ .none then s
  else
    match s.sqlite3BtreeBeginTrans false x with
    | (.ok, s) => s.sqlite3BtreeCommitPhaseTwo
    | (_, s) => s

end Connection

/-- The nonce of the last transaction. -/
def Pager.newest (s : Pager) : ℤ :=
  ((s.walLocal.filterMap Appended.log).getLast?.map TxnLog.nonce).getD s.lastNonce

/-- What happens to the connection, and to the nonces of the node: a block with its transactions is
committed, or the log is rotated. -/
inductive Event
  | step (p : Vdbe) (doingRerun : Bool) (x : Execution)
  | reset (p : Vdbe) (x : Halting)
  | loadSchema (x : Attempt)
  | special (sql : Text) (signed verified saved : Bool)
  | processed (nonce : ℤ)
  | rotated
  deriving DecidableEq

/-- A step: only statements that are active are reset, and only transactions that were appended
are processed. -/
def Connection.step (s : Connection) : Event → Option Connection
  | .step p doingRerun x => some (s.sqlite3Step p doingRerun x)
  | .reset p x => if p ∈ s.active then some (s.sqlite3VdbeReset p x) else none
  | .loadSchema x => some (s.loadSchema x)
  | .special sql signed verified saved =>
    some { s with
      pager := s.pager.createSpecialTransaction sql signed verified saved s.completed }
  | .processed nonce =>
    if s.pager.lastProcessedNonce ≤ nonce ∧ nonce ≤ s.pager.newest then
      some { s with pager := { s.pager with lastProcessedNonce := nonce } }
    else none
  | .rotated =>
    if s.pager.lastProcessedNonce < s.pager.maxActiveNonce then some s
    else some { s with pager := { s.pager with maxActiveNonce := 0 } }

/-- A connection that has just been opened. -/
def opened (maxActiveNonce lastProcessedNonce : ℤ) : Connection where
  pager := ⟨none, none, 0, maxActiveNonce, lastProcessedNonce, []⟩
  inTrans := .none
  autoCommit := true
  isTransactionSavepoint := false
  savepoints := []
  active := []
  completed := []

end Capture
end Core
end AergoLite
