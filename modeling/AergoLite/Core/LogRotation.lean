/-
# Log rotation

Once the blocks have the local transactions, `do_log_rotation` (`core/sqlite3.c`) deletes the
file `wal-local` and checkpoints `wal-consensus`.  Transactions in `wal-local` that no block has
yet are executed again first, into a file `wal-rotation`, which becomes the new `wal-local`.

The old file is deleted before the checkpoint and before the other file is renamed, and where a
file cannot be closed or deleted `wal-rotation` is left behind, to be appended to by the next
rotation.
-/

import AergoLite.Core.Transactions
import AergoLite.Library.Transition
import Mathlib.Data.List.Duplicate
import Mathlib.Data.List.Perm.Subperm
import Mathlib.Order.Basic

namespace AergoLite
namespace Core

open Transition

/-- What executing a local transaction again does, in `execute_transaction_locally`. -/
structure LocalRun where
  /-- `save_rotation_txn`. -/
  saveRotationTxn : Rc
  beginTxn : Rc
  /-- The results of the commands, in order. -/
  commands : ℕ → Rc
  commit : Rc
  /-- The commands modify a page: only then does the commit write frames. -/
  modifies : Bool

/-- The outcomes of what `do_log_rotation` calls. -/
structure RotationOutcomes where
  btree : Bool
  inTransaction : Bool
  /-- `worker_pager->pWal` is set. -/
  walOpen : Bool
  /-- The size of `wal-consensus`. -/
  fileSize : Except Rc ℕ
  openWalNew : Rc
  /-- The frames of a log in `wal-local` can be read. -/
  reads : Log → Bool
  run : Log → LocalRun
  /-- `unlink` of `wal-rotation`. -/
  unlinked : Bool
  closeWal1 : Rc
  closeWal2 : Rc
  deleteWal : Rc
  checkpoint : Rc
  renamed : Bool

/-- What `do_log_rotation` reads and writes of a node. -/
structure LocalNode where
  walLocal : List Log
  /-- The logs in `wal-rotation`. -/
  walRotation : List Log
  maxActiveNonce : ℤ
  lastProcessedNonce : ℤ
  currentLocalNonce : ℤ
  lastSentNonce : ℤ
  lastSentFrame : ℕ
  walConsensusEmpty : Bool
  dbIsReady : Bool
  stateIntegrity : Text

/-- `SQLITE_LOCKED`, `SQLITE_ABORT` or another result code. -/
inductive RotationRc
  | rc (rc : Rc)
  | locked
  | abort
  deriving DecidableEq

/-! ## The rotation -/

/-- The commands are executed until one fails. -/
def runCommands (result : ℕ → Rc) : ℕ → List Text → Rc
  | _, [] => .ok
  | n, _ :: sqls => if result n ≠ .ok then result n else runCommands result (n + 1) sqls

/-- `execute_transaction_locally`, and the logs in `wal-rotation` after it. -/
def executeTransactionLocally (run : LocalRun) (log : Log) (walNew : List Log) : Rc × List Log :=
  if isSpecialTransaction log then
    if run.saveRotationTxn ≠ .ok then (run.saveRotationTxn, walNew) else (.ok, walNew ++ [log])
  else if run.beginTxn ≠ .ok then (.busy, walNew)
  else if runCommands run.commands 0 (commandsToRun log) ≠ .ok then
    (runCommands run.commands 0 (commandsToRun log), walNew)
  else if run.commit ≠ .ok then (run.commit, walNew)
  else (.ok, if run.modifies then walNew ++ [log] else walNew)

/-- `reexecute_local_txn`. -/
def reexecuteLocalTxn (lastProcessedNonce : ℤ) (run : LocalRun) (log : Log) (walNew : List Log) :
    Rc × List Log :=
  if lastProcessedNonce < getTransactionNonce log then executeTransactionLocally run log walNew
  else (.ok, walNew)

/-- `aergoliteIterateWal` of `wal-local`, with `reexecute_local_txn`. -/
def iterateWalLocal (o : RotationOutcomes) (lastProcessedNonce : ℤ) :
    List Log → List Log → Rc × List Log
  | [], walNew => (.ok, walNew)
  | log :: logs, walNew =>
    if !o.reads log then (.error, walNew)
    else
      match reexecuteLocalTxn lastProcessedNonce (o.run log) log walNew with
      | (.ok, walNew) => iterateWalLocal o lastProcessedNonce logs walNew
      | (rc, walNew) => (rc, walNew)

/-- The transactions that no block has are executed again, and `wal-rotation` is deleted where
that fails. -/
def reexecute (o : RotationOutcomes) (s : LocalNode) : Rc × LocalNode :=
  if o.openWalNew ≠ .ok then (o.openWalNew, s)
  else
    match
      if s.walLocal = [] then (.empty, s.walRotation)
      else iterateWalLocal o s.lastProcessedNonce s.walLocal s.walRotation with
    | (.ok, walRotation) => (.ok, { s with walRotation })
    | (rc, walRotation) => (rc, { s with walRotation := if o.unlinked then [] else walRotation })

/-- The counters of a node whose `wal-local` is going to be replaced. -/
def LocalNode.resetCounters (hasUnprocessedTxns : Bool) (s : LocalNode) : LocalNode :=
  if hasUnprocessedTxns then { s with lastSentFrame := 0 }
  else { s with lastSentFrame := 0, maxActiveNonce := 0, lastSentNonce := 0 }

/-- `wal-local` is closed and deleted, `wal-consensus` is checkpointed and `wal-rotation` is
renamed. -/
def replaceWalLocal (o : RotationOutcomes) (hasUnprocessedTxns : Bool) (s : LocalNode) :
    RotationRc × LocalNode :=
  let s := s.resetCounters hasUnprocessedTxns
  if o.closeWal1 ≠ .ok then (.rc o.closeWal1, s)
  else if o.closeWal2 ≠ .ok then (.rc o.closeWal2, s)
  else if o.deleteWal ≠ .ok then (.rc o.deleteWal, s)
  else if o.checkpoint ≠ .ok then (.rc o.checkpoint, { s with walLocal := [] })
  else if hasUnprocessedTxns && !o.renamed then (.rc .error, { s with walLocal := [] })
  else
    (.rc .ok, { s with
      walLocal := if hasUnprocessedTxns then s.walRotation else []
      walRotation := if hasUnprocessedTxns then [] else s.walRotation
      walConsensusEmpty := true
      dbIsReady := true
      stateIntegrity := "OK".toList })

/-- `do_log_rotation`. -/
def doLogRotation (o : RotationOutcomes) (s : LocalNode) : RotationRc × LocalNode :=
  if !o.btree then (.rc .error, s)
  else if o.inTransaction then (.locked, s)
  else if !o.walOpen then (.abort, s)
  else
    match o.fileSize with
    | .error rc => (.rc rc, s)
    | .ok 0 => (.rc .ok, { s with walConsensusEmpty := true })
    | .ok (_ + 1) =>
      if s.lastProcessedNonce < s.maxActiveNonce then
        match reexecute o s with
        | (.ok, s) => replaceWalLocal o true s
        | (rc, s) => (.rc rc, s)
      else replaceWalLocal o false s

/-! ## The node in a run -/

/-- The nonce of the next transaction, `aergoliteStoreTransactionNonce`. -/
def LocalNode.nextNonce (s : LocalNode) : ℤ :=
  if s.currentLocalNonce = 0 then
    let lastNonce := if s.maxActiveNonce = 0 then s.lastProcessedNonce else s.maxActiveNonce
    (if lastNonce < 0 then 0 else lastNonce) + 1
  else s.currentLocalNonce + 1

/-- A transaction is committed locally, or fails; a block with transactions of the node is
committed; the log is rotated. -/
inductive LocalNode.Action
  | commit (log : Log)
  | failed
  | processed (nonce : ℤ)
  | rotate (o : RotationOutcomes)

/-- What is done then. -/
def LocalNode.step (s : LocalNode) : Action → Option LocalNode
  | .commit log =>
    if getTransactionNonce log = s.nextNonce then
      some { s with
        walLocal := s.walLocal ++ [log]
        currentLocalNonce := s.nextNonce
        maxActiveNonce := s.nextNonce }
    else none
  | .failed => some { s with currentLocalNonce := 0 }
  | .processed nonce =>
    if s.lastProcessedNonce ≤ nonce then some { s with lastProcessedNonce := nonce } else none
  | .rotate o => some (doLogRotation o s).2

/-- The nonces of logs increase, from 1 on. -/
structure NonceOrder (logs : List Log) : Prop where
  positive : ∀ log ∈ logs, 0 < getTransactionNonce log
  sorted : logs.Pairwise fun log log' => getTransactionNonce log < getTransactionNonce log'

/-- A node that starts: it reads the nonce of the last log in `wal-local`. -/
structure LocalNode.Starts (s : LocalNode) : Prop where
  order : NonceOrder s.walLocal
  rotation : s.walRotation = []
  max : s.maxActiveNonce = (s.walLocal.getLast?.map getTransactionNonce).getD 0
  current : s.currentLocalNonce = 0
  processed : 0 ≤ s.lastProcessedNonce

/-- A node and what it does in its runs. -/
def LocalNode.system : System LocalNode LocalNode.Action := System.ofStep Starts step

/-! ## What a rotation does -/

/-- The logs of transactions that no block has. -/
def unprocessed (lastProcessedNonce : ℤ) (logs : List Log) : List Log :=
  logs.filter fun log => lastProcessedNonce < getTransactionNonce log

/-- The local transactions that no block has. -/
def LocalNode.pending (s : LocalNode) : List Log := unprocessed s.lastProcessedNonce s.walLocal

/-- A transaction is saved without its commands, or they are executed. -/
structure LocalRun.Succeeds (run : LocalRun) (log : Log) : Prop where
  special : isSpecialTransaction log = true → run.saveRotationTxn = .ok
  sql : isSpecialTransaction log = false →
    run.beginTxn = .ok ∧ runCommands run.commands 0 (commandsToRun log) = .ok ∧ run.commit = .ok

/-- The log of the transaction is written again. -/
def RotationOutcomes.writes (o : RotationOutcomes) (log : Log) : Bool :=
  isSpecialTransaction log || (o.run log).modifies

/-- There is something to checkpoint, and nothing is in the way. -/
structure RotationOutcomes.Begins (o : RotationOutcomes) : Prop where
  btree : o.btree = true
  inTransaction : o.inTransaction = false
  walOpen : o.walOpen = true
  fileSize : ∃ size, o.fileSize = .ok (size + 1)

/-- Every local transaction that no block has is executed again. -/
structure RotationOutcomes.Reexecutes (o : RotationOutcomes) (s : LocalNode) : Prop where
  notEmpty : s.walLocal ≠ []
  opened : o.openWalNew = .ok
  reads : ∀ log ∈ s.walLocal, o.reads log = true
  succeeds : ∀ log ∈ s.pending, (o.run log).Succeeds log

/-- The old log is closed and deleted. -/
structure RotationOutcomes.Closes (o : RotationOutcomes) : Prop where
  closeWal1 : o.closeWal1 = .ok
  closeWal2 : o.closeWal2 = .ok
  deleteWal : o.deleteWal = .ok

theorem executeTransactionLocally_of_succeeds {run : LocalRun} {log : Log} (walNew : List Log)
    (h : run.Succeeds log) : executeTransactionLocally run log walNew =
      (.ok, if isSpecialTransaction log || run.modifies then walNew ++ [log] else walNew) := by
  unfold executeTransactionLocally
  cases hspecial : isSpecialTransaction log with
  | true => rw [if_pos rfl, if_neg (not_not.2 (h.special hspecial))]; rfl
  | false =>
      obtain ⟨hbegin, hcommands, hcommit⟩ := h.sql hspecial
      rw [if_neg Bool.false_ne_true, if_neg (not_not.2 hbegin), if_neg (not_not.2 hcommands),
        if_neg (not_not.2 hcommit)]
      rfl

theorem executeTransactionLocally_of_fails {run : LocalRun} {log : Log} (walNew : List Log)
    (h : ¬run.Succeeds log) :
    ∃ rc, rc ≠ .ok ∧ executeTransactionLocally run log walNew = (rc, walNew) := by
  unfold executeTransactionLocally
  cases hspecial : isSpecialTransaction log with
  | true =>
      by_cases hsave : run.saveRotationTxn = .ok
      · exact absurd ⟨fun _ => hsave, fun hsql => absurd (hspecial.symm.trans hsql) nofun⟩ h
      · exact ⟨_, hsave, by rw [if_pos rfl, if_pos hsave]⟩
  | false =>
      rw [if_neg Bool.false_ne_true]
      by_cases hbegin : run.beginTxn = .ok
      · rw [if_neg (not_not.2 hbegin)]
        by_cases hcommands : runCommands run.commands 0 (commandsToRun log) = .ok
        · rw [if_neg (not_not.2 hcommands)]
          by_cases hcommit : run.commit = .ok
          · exact absurd ⟨fun hsql => absurd (hspecial.symm.trans hsql) nofun,
              fun _ => ⟨hbegin, hcommands, hcommit⟩⟩ h
          · exact ⟨_, hcommit, by rw [if_pos hcommit]⟩
        · exact ⟨_, hcommands, by rw [if_pos hcommands]⟩
      · exact ⟨.busy, nofun, by rw [if_pos hbegin]⟩

/-- A log is read and, where no block has it, executed again. -/
def RotationOutcomes.Passes (o : RotationOutcomes) (lastProcessedNonce : ℤ) (log : Log) : Prop :=
  o.reads log = true ∧
    (lastProcessedNonce < getTransactionNonce log → (o.run log).Succeeds log)

/-- **Every log is executed again**: those that are written are appended, in order. -/
theorem iterateWalLocal_of_passes {o : RotationOutcomes} {n : ℤ} {logs walNew : List Log}
    (h : ∀ log ∈ logs, o.Passes n log) : iterateWalLocal o n logs walNew =
      (.ok, walNew ++ (unprocessed n logs).filter o.writes) := by
  induction logs generalizing walNew with
  | nil => rw [iterateWalLocal, unprocessed, List.filter_nil, List.filter_nil, List.append_nil]
  | cons log logs ih =>
      obtain ⟨⟨hreads, hsucceeds⟩, hlogs⟩ := List.forall_mem_cons.1 h
      rw [iterateWalLocal, hreads, reexecuteLocalTxn, unprocessed, List.filter_cons]
      by_cases hnonce : n < getTransactionNonce log
      · rw [if_pos hnonce, executeTransactionLocally_of_succeeds walNew (hsucceeds hnonce)]
        simp only [Bool.not_true, Bool.false_eq_true, if_false, hnonce, decide_true, if_true]
        rw [ih hlogs, List.filter_cons, RotationOutcomes.writes, unprocessed]
        cases isSpecialTransaction log || (o.run log).modifies <;> simp
      · rw [if_neg hnonce]
        simp only [Bool.not_true, Bool.false_eq_true, if_false, hnonce, decide_false]
        exact ih hlogs

/-- The iteration fails at the first log that does not pass. -/
theorem iterateWalLocal_of_fails {o : RotationOutcomes} {n : ℤ} {logs walNew : List Log}
    (h : ¬∀ log ∈ logs, o.Passes n log) : ∃ rc walNew', rc ≠ .ok ∧
      iterateWalLocal o n logs walNew = (rc, walNew') ∧
        ∀ log ∈ walNew', log ∈ walNew ∨ log ∈ logs := by
  induction logs generalizing walNew with
  | nil => exact absurd (fun log hlog => absurd hlog List.not_mem_nil) h
  | cons log logs ih =>
      rw [List.forall_mem_cons, not_and] at h
      rw [iterateWalLocal]
      cases hreads : o.reads log with
      | false => exact ⟨.error, walNew, nofun, rfl, fun log hlog => .inl hlog⟩
      | true =>
          simp only [Bool.not_true, Bool.false_eq_true, if_false]
          rw [reexecuteLocalTxn]
          by_cases hnonce : n < getTransactionNonce log
          · rw [if_pos hnonce]
            by_cases hsucceeds : (o.run log).Succeeds log
            · obtain ⟨rc, walNew', hrc, heq, hmem⟩ := @ih
                (if isSpecialTransaction log || (o.run log).modifies then walNew ++ [log]
                  else walNew) (h ⟨hreads, fun _ => hsucceeds⟩)
              rw [executeTransactionLocally_of_succeeds walNew hsucceeds]
              refine ⟨rc, walNew', hrc, heq, fun other hother => ?_⟩
              rcases hmem other hother with hold | hlogs
              · split at hold
                · rcases List.mem_append.1 hold with hold | hlog
                  · exact .inl hold
                  · exact .inr (List.mem_singleton.1 hlog ▸ List.mem_cons_self)
                · exact .inl hold
              · exact .inr (List.mem_cons_of_mem _ hlogs)
            · obtain ⟨rc, hrc, heq⟩ := executeTransactionLocally_of_fails walNew hsucceeds
              rw [heq]
              refine ⟨rc, walNew, hrc, ?_, fun log hlog => .inl hlog⟩
              cases rc <;> first | rfl | exact absurd rfl hrc
          · rw [if_neg hnonce]
            obtain ⟨rc, walNew', hrc, heq, hmem⟩ := @ih walNew
              (h ⟨hreads, fun hless => absurd hless hnonce⟩)
            exact ⟨rc, walNew', hrc, heq, fun other hother =>
              (hmem other hother).imp_right (List.mem_cons_of_mem _)⟩

theorem reexecute_of_reexecutes {o : RotationOutcomes} {s : LocalNode} (h : o.Reexecutes s) :
    reexecute o s =
      (.ok, { s with walRotation := s.walRotation ++ s.pending.filter o.writes }) := by
  have hpasses : ∀ log ∈ s.walLocal, o.Passes s.lastProcessedNonce log := fun log hlog =>
    ⟨h.reads log hlog, fun hless =>
      h.succeeds log (List.mem_filter.2 ⟨hlog, decide_eq_true hless⟩)⟩
  unfold reexecute
  rw [if_neg (not_not.2 h.opened), if_neg h.notEmpty, iterateWalLocal_of_passes hpasses]
  rfl

theorem reexecute_of_fails {o : RotationOutcomes} {s : LocalNode} (h : ¬o.Reexecutes s) :
    ∃ rc walRotation, rc ≠ .ok ∧ reexecute o s = (rc, { s with walRotation }) ∧
      ∀ log ∈ walRotation, log ∈ s.walRotation ∨ log ∈ s.walLocal := by
  have hunlinked : ∀ logs : List Log, (∀ log ∈ logs, log ∈ s.walRotation ∨ log ∈ s.walLocal) →
      ∀ log ∈ if o.unlinked then [] else logs, log ∈ s.walRotation ∨ log ∈ s.walLocal := by
    intro logs hlogs log hlog
    split at hlog
    · exact absurd hlog List.not_mem_nil
    · exact hlogs log hlog
  unfold reexecute
  by_cases hopened : o.openWalNew = .ok
  · rw [if_neg (not_not.2 hopened)]
    by_cases hempty : s.walLocal = []
    · rw [if_pos hempty]
      exact ⟨.empty, _, nofun, rfl, hunlinked _ fun log hlog => .inl hlog⟩
    · rw [if_neg hempty]
      have hpasses : ¬∀ log ∈ s.walLocal, o.Passes s.lastProcessedNonce log := fun hpasses =>
        h ⟨hempty, hopened, fun log hlog => (hpasses log hlog).1, fun log hlog =>
          (hpasses log (List.mem_of_mem_filter hlog)).2
            (of_decide_eq_true (List.mem_filter.1 hlog).2)⟩
      obtain ⟨rc, walNew, hrc, heq, hmem⟩ :=
        @iterateWalLocal_of_fails o s.lastProcessedNonce s.walLocal s.walRotation hpasses
      rw [heq]
      refine ⟨rc, _, hrc, ?_, hunlinked walNew hmem⟩
      cases rc <;> first | rfl | exact absurd rfl hrc
  · exact ⟨_, s.walRotation, hopened, by rw [if_pos hopened], fun log hlog => .inl hlog⟩

/-- What a rotation leaves alone. -/
structure Rotated (s t : LocalNode) : Prop where
  processed : t.lastProcessedNonce = s.lastProcessedNonce
  current : t.currentLocalNonce = s.currentLocalNonce
  rotation : ∀ log ∈ t.walRotation, log ∈ s.walRotation ∨ log ∈ s.walLocal

/-- **What a rotation does**: where it ends, and what becomes of `wal-local`. -/
inductive Rotation (o : RotationOutcomes) (s t : LocalNode) : Prop
  | kept (stops : o.Begins → s.lastProcessedNonce < s.maxActiveNonce ∧
        ¬(o.Reexecutes s ∧ o.Closes))
      (walLocal : t.walLocal = s.walLocal) (max : t.maxActiveNonce = s.maxActiveNonce)
  | lost (begins : o.Begins) (pending : s.lastProcessedNonce < s.maxActiveNonce)
      (reexecutes : o.Reexecutes s) (closes : o.Closes)
      (fails : ¬(o.checkpoint = .ok ∧ o.renamed = true)) (walLocal : t.walLocal = [])
  | replaced (begins : o.Begins) (pending : s.lastProcessedNonce < s.maxActiveNonce)
      (reexecutes : o.Reexecutes s) (closes : o.Closes)
      (renamed : o.checkpoint = .ok ∧ o.renamed = true)
      (walLocal : t.walLocal = s.walRotation ++ s.pending.filter o.writes)
      (rotation : t.walRotation = []) (max : t.maxActiveNonce = s.maxActiveNonce)
  | reset (begins : o.Begins) (processed : ¬s.lastProcessedNonce < s.maxActiveNonce)
      (fails : ¬o.Closes) (walLocal : t.walLocal = s.walLocal) (max : t.maxActiveNonce = 0)
  | emptied (begins : o.Begins) (processed : ¬s.lastProcessedNonce < s.maxActiveNonce)
      (closes : o.Closes) (walLocal : t.walLocal = []) (max : t.maxActiveNonce = 0)

/-- A file that cannot be closed or deleted: only the counters are reset. -/
theorem replaceWalLocal_of_fails {o : RotationOutcomes} {s : LocalNode} {has : Bool}
    (h : ¬o.Closes) : (replaceWalLocal o has s).2 = s.resetCounters has := by
  unfold replaceWalLocal
  dsimp only
  by_cases hclose1 : o.closeWal1 = .ok
  · rw [if_neg (not_not.2 hclose1)]
    by_cases hclose2 : o.closeWal2 = .ok
    · rw [if_neg (not_not.2 hclose2)]
      by_cases hdelete : o.deleteWal = .ok
      · exact absurd ⟨hclose1, hclose2, hdelete⟩ h
      · rw [if_pos hdelete]
    · rw [if_pos hclose2]
  · rw [if_pos hclose1]

/-- The old file is deleted. -/
theorem replaceWalLocal_of_closes {o : RotationOutcomes} {s : LocalNode} {has : Bool}
    (h : o.Closes) : (replaceWalLocal o has s).2 =
      if o.checkpoint ≠ .ok then { s.resetCounters has with walLocal := [] }
      else if has && !o.renamed then { s.resetCounters has with walLocal := [] }
      else
        { s.resetCounters has with
          walLocal := if has then (s.resetCounters has).walRotation else []
          walRotation := if has then [] else (s.resetCounters has).walRotation
          walConsensusEmpty := true
          dbIsReady := true
          stateIntegrity := "OK".toList } := by
  unfold replaceWalLocal
  dsimp only
  rw [if_neg (not_not.2 h.closeWal1), if_neg (not_not.2 h.closeWal2),
    if_neg (not_not.2 h.deleteWal), apply_ite Prod.snd, apply_ite Prod.snd]

/-- Every way to go out before the rotation begins. -/
theorem doLogRotation_of_not_begins {o : RotationOutcomes} {s : LocalNode} (h : ¬o.Begins) :
    (doLogRotation o s).2 = s ∨ (doLogRotation o s).2 = { s with walConsensusEmpty := true } := by
  unfold doLogRotation
  cases hbtree : o.btree with
  | false => exact .inl rfl
  | true =>
      cases htransaction : o.inTransaction with
      | true => exact .inl rfl
      | false =>
          cases hopen : o.walOpen with
          | false => exact .inl rfl
          | true =>
              match hsize : o.fileSize with
              | .error rc => exact .inl rfl
              | .ok 0 => exact .inr rfl
              | .ok (size + 1) => exact absurd ⟨hbtree, htransaction, hopen, size, hsize⟩ h

theorem doLogRotation_of_begins {o : RotationOutcomes} {s : LocalNode} (h : o.Begins) :
    doLogRotation o s =
      if s.lastProcessedNonce < s.maxActiveNonce then
        match reexecute o s with
        | (.ok, s) => replaceWalLocal o true s
        | (rc, s) => (.rc rc, s)
      else replaceWalLocal o false s := by
  obtain ⟨size, hsize⟩ := h.fileSize
  unfold doLogRotation
  rw [h.btree, h.inTransaction, h.walOpen, hsize]
  rfl

theorem doLogRotation_rotation (o : RotationOutcomes) (s : LocalNode) :
    Rotated s (doLogRotation o s).2 ∧ Rotation o s (doLogRotation o s).2 := by
  by_cases hbegins : o.Begins
  · rw [doLogRotation_of_begins hbegins]
    by_cases hpending : s.lastProcessedNonce < s.maxActiveNonce
    · rw [if_pos hpending]
      by_cases hreexecutes : o.Reexecutes s
      · rw [reexecute_of_reexecutes hreexecutes]
        dsimp only
        have hmem : ∀ log ∈ s.walRotation ++ s.pending.filter o.writes,
            log ∈ s.walRotation ∨ log ∈ s.walLocal := fun log hlog =>
          (List.mem_append.1 hlog).imp_right fun hpending =>
            List.mem_of_mem_filter (List.mem_of_mem_filter hpending)
        by_cases hcloses : o.Closes
        · rw [replaceWalLocal_of_closes hcloses]
          by_cases hcheckpoint : o.checkpoint = .ok
          · rw [if_neg (not_not.2 hcheckpoint)]
            cases hrenamed : o.renamed with
            | true => exact ⟨⟨rfl, rfl, fun log hlog => absurd hlog List.not_mem_nil⟩,
                .replaced hbegins hpending hreexecutes hcloses ⟨hcheckpoint, hrenamed⟩ rfl rfl rfl⟩
            | false => exact ⟨⟨rfl, rfl, hmem⟩, .lost hbegins hpending hreexecutes hcloses
                (fun hnot => Bool.false_ne_true (hrenamed.symm.trans hnot.2)) rfl⟩
          · rw [if_pos hcheckpoint]
            exact ⟨⟨rfl, rfl, hmem⟩, .lost hbegins hpending hreexecutes hcloses
              (fun hnot => hcheckpoint hnot.1) rfl⟩
        · rw [replaceWalLocal_of_fails hcloses]
          exact ⟨⟨rfl, rfl, hmem⟩, .kept (fun _ => ⟨hpending, fun hnot => hcloses hnot.2⟩) rfl rfl⟩
      · obtain ⟨rc, walRotation, hrc, heq, hmem⟩ := reexecute_of_fails hreexecutes
        have hrotate : (match reexecute o s with
            | (.ok, s) => replaceWalLocal o true s
            | (rc, s) => (.rc rc, s)) = (.rc rc, { s with walRotation }) := by
          rw [heq]
          cases rc <;> first | rfl | exact absurd rfl hrc
        rw [hrotate]
        exact ⟨⟨rfl, rfl, hmem⟩,
          .kept (fun _ => ⟨hpending, fun hnot => hreexecutes hnot.1⟩) rfl rfl⟩
    · rw [if_neg hpending]
      by_cases hcloses : o.Closes
      · rw [replaceWalLocal_of_closes hcloses]
        by_cases hcheckpoint : o.checkpoint = .ok
        · rw [if_neg (not_not.2 hcheckpoint)]
          exact ⟨⟨rfl, rfl, fun log hlog => .inl hlog⟩, .emptied hbegins hpending hcloses rfl rfl⟩
        · rw [if_pos hcheckpoint]
          exact ⟨⟨rfl, rfl, fun log hlog => .inl hlog⟩, .emptied hbegins hpending hcloses rfl rfl⟩
      · rw [replaceWalLocal_of_fails hcloses]
        exact ⟨⟨rfl, rfl, fun log hlog => .inl hlog⟩, .reset hbegins hpending hcloses rfl rfl⟩
  · rcases doLogRotation_of_not_begins (s := s) hbegins with heq | heq <;> rw [heq] <;>
      exact ⟨⟨rfl, rfl, fun log hlog => .inl hlog⟩, .kept (fun h => absurd h hbegins) rfl rfl⟩

/-! ## What must be kept -/

/-- The largest nonce of the logs, 0 if there is none. -/
structure LargestNonce (max : ℤ) (logs : List Log) : Prop where
  zero : max = 0 ↔ logs = []
  bound : ∀ log ∈ logs, getTransactionNonce log ≤ max
  attained : logs ≠ [] → ∃ log ∈ logs, getTransactionNonce log = max

/-- **No local transaction is lost**: those that no block has are still in `wal-local`, each once
and in the order of their nonces, and the largest nonce there is known. -/
structure Kept (s t : LocalNode) : Prop where
  present : s.pending.Sublist t.walLocal
  once : ∀ log ∈ s.pending, ¬t.walLocal.Duplicate log
  order : s.pending.Pairwise fun log log' => getTransactionNonce log < getTransactionNonce log'
  max : LargestNonce t.maxActiveNonce t.walLocal

/-- The rotations that keep them.  Where the old log is deleted and has transactions that no block
has, the checkpoint and the renaming succeed, and those transactions are the ones that
`wal-rotation` had before, followed by those that are written again: with no such file left
behind, all are special transactions or modify a page.  Where it has none of them, it is deleted,
or empty. -/
structure Rotates (o : RotationOutcomes) (s : LocalNode) : Prop where
  carried : o.Begins → s.lastProcessedNonce < s.maxActiveNonce → o.Reexecutes s → o.Closes →
    (o.checkpoint = .ok ∧ o.renamed = true) ∧
      s.pending = unprocessed s.lastProcessedNonce s.walRotation ++ s.pending.filter o.writes
  cleared : o.Begins → ¬s.lastProcessedNonce < s.maxActiveNonce → o.Closes ∨ s.walLocal = []

/-- The runs of a node whose rotations are all of this kind. -/
def LocalNode.Carries (s : LocalNode) : Action → Prop
  | .rotate o => Rotates o s
  | _ => True

/-- What holds of a node in such runs. -/
structure LocalNode.Consistent (s : LocalNode) : Prop where
  positive : ∀ log, log ∈ s.walLocal ∨ log ∈ s.walRotation → 0 < getTransactionNonce log
  order : s.pending.Pairwise fun log log' => getTransactionNonce log < getTransactionNonce log'
  max : LargestNonce s.maxActiveNonce s.walLocal
  current : s.currentLocalNonce = 0 ∨
    0 < s.currentLocalNonce ∧ s.maxActiveNonce ≤ s.currentLocalNonce
  processed : 0 ≤ s.lastProcessedNonce
  rotation : ∀ log ∈ s.walRotation, s.lastProcessedNonce < getTransactionNonce log →
    log ∈ s.walLocal

theorem largestNonce_nil : LargestNonce 0 [] :=
  ⟨⟨fun _ => rfl, fun _ => rfl⟩, fun _ hlog => absurd hlog List.not_mem_nil,
    fun hne => absurd rfl hne⟩

theorem mem_unprocessed {n : ℤ} {logs : List Log} {log : Log} :
    log ∈ unprocessed n logs ↔ log ∈ logs ∧ n < getTransactionNonce log := by
  rw [unprocessed, List.mem_filter, decide_eq_true_iff]

theorem unprocessed_append (n : ℤ) (logs logs' : List Log) :
    unprocessed n (logs ++ logs') = unprocessed n logs ++ unprocessed n logs' :=
  List.filter_append ..

/-- Local transactions are still unprocessed. -/
theorem unprocessed_filter_pending (s : LocalNode) (p : Log → Bool) :
    unprocessed s.lastProcessedNonce (s.pending.filter p) = s.pending.filter p :=
  List.filter_eq_self.2 fun _ hlog =>
    decide_eq_true (mem_unprocessed.1 (List.mem_of_mem_filter hlog)).2

namespace LocalNode.Consistent

variable {s t : LocalNode}

theorem max_nonneg (h : s.Consistent) : 0 ≤ s.maxActiveNonce := by
  by_cases hempty : s.walLocal = []
  · rw [h.max.zero.2 hempty]
  · obtain ⟨log, hlog, hnonce⟩ := h.max.attained hempty
    have := h.positive log (.inl hlog)
    omega

/-- What is pending while the largest nonce is not processed. -/
theorem exists_pending (h : s.Consistent) (hless : s.lastProcessedNonce < s.maxActiveNonce) :
    ∃ log ∈ s.pending, getTransactionNonce log = s.maxActiveNonce := by
  have hprocessed := h.processed
  have hempty : s.walLocal ≠ [] := fun hempty => by
    have := h.max.zero.2 hempty
    omega
  obtain ⟨log, hlog, hnonce⟩ := h.max.attained hempty
  exact ⟨log, mem_unprocessed.2 ⟨hlog, hnonce ▸ hless⟩, hnonce⟩

/-- Nothing is pending where the largest nonce is processed. -/
theorem pending_eq_nil (h : s.Consistent) (hless : ¬s.lastProcessedNonce < s.maxActiveNonce) :
    s.pending = [] :=
  List.eq_nil_iff_forall_not_mem.2 fun log hlog => by
    obtain ⟨hlocal, hnonce⟩ := mem_unprocessed.1 hlog
    have := h.max.bound log hlocal
    omega

theorem nodup_pending (h : s.Consistent) : s.pending.Nodup :=
  h.order.imp fun hless heq => by
    rw [heq] at hless
    exact absurd hless (lt_irrefl _)

/-- **What is kept**, where a file has no other unprocessed transactions: these are the same. -/
theorem kept_iff (h : s.Consistent) (hmem : ∀ log ∈ t.walLocal,
      s.lastProcessedNonce < getTransactionNonce log → log ∈ s.walLocal) :
    Kept s t ↔ unprocessed s.lastProcessedNonce t.walLocal = s.pending ∧
      LargestNonce t.maxActiveNonce t.walLocal := by
  have hsub : unprocessed s.lastProcessedNonce t.walLocal ⊆ s.pending := fun log hlog => by
    obtain ⟨hlocal, hnonce⟩ := mem_unprocessed.1 hlog
    exact mem_unprocessed.2 ⟨hmem log hlocal hnonce, hnonce⟩
  constructor
  · rintro ⟨hpresent, honce, -, hmax⟩
    refine ⟨?_, hmax⟩
    have hsublist : s.pending.Sublist (unprocessed s.lastProcessedNonce t.walLocal) := by
      have := hpresent.filter fun log => decide (s.lastProcessedNonce < getTransactionNonce log)
      rwa [show s.pending.filter _ = s.pending from List.filter_eq_self.2 fun log hlog =>
        decide_eq_true (mem_unprocessed.1 hlog).2] at this
    have hnodup : (unprocessed s.lastProcessedNonce t.walLocal).Nodup := by
      rw [List.nodup_iff_forall_not_duplicate]
      intro log hduplicate
      exact honce log (hsub hduplicate.mem)
        (hduplicate.mono_sublist List.filter_sublist)
    exact (hsublist.eq_of_length_le (List.Subperm.length_le (hnodup.subperm hsub))).symm
  · rintro ⟨heq, hmax⟩
    refine ⟨heq ▸ List.filter_sublist, fun log hlog hduplicate => ?_, h.order, hmax⟩
    have htwice : (unprocessed s.lastProcessedNonce [log, log]).Sublist
        (unprocessed s.lastProcessedNonce t.walLocal) :=
      (List.duplicate_iff_sublist.1 hduplicate).filter _
    have htwo : unprocessed s.lastProcessedNonce [log, log] = [log, log] := by
      simp [unprocessed, (mem_unprocessed.1 hlog).2]
    rw [htwo, heq] at htwice
    exact List.nodup_iff_forall_not_duplicate.1 h.nodup_pending log
      (List.duplicate_iff_sublist.2 htwice)

/-- What a rotation carries over has the same largest nonce. -/
theorem largestNonce_replaced (h : s.Consistent) {logs : List Log}
    (hless : s.lastProcessedNonce < s.maxActiveNonce)
    (heq : unprocessed s.lastProcessedNonce logs = s.pending) :
    LargestNonce s.maxActiveNonce logs := by
  have hprocessed := h.processed
  obtain ⟨log, hlog, hnonce⟩ := h.exists_pending hless
  have hmem : log ∈ logs := (mem_unprocessed.1 (heq ▸ hlog)).1
  refine ⟨⟨fun hzero => by omega, fun hnil => ?_⟩, fun other hother => ?_,
    fun _ => ⟨log, hmem, hnonce⟩⟩
  · rw [hnil] at hmem
    exact absurd hmem List.not_mem_nil
  · by_cases hnew : s.lastProcessedNonce < getTransactionNonce other
    · have hpending : other ∈ s.pending := heq ▸ mem_unprocessed.2 ⟨hother, hnew⟩
      exact h.max.bound other (mem_unprocessed.1 hpending).1
    · omega

/-- **A rotation keeps the local transactions exactly where it is one of `Rotates`.** -/
theorem kept_doLogRotation_iff (h : s.Consistent) (o : RotationOutcomes) :
    Kept s (doLogRotation o s).2 ↔ Rotates o s := by
  generalize ht : (doLogRotation o s).2 = t
  obtain ⟨-, hrotation⟩ := ht ▸ doLogRotation_rotation o s
  cases hrotation with
  | kept hstops hlocal hmax =>
      rw [h.kept_iff fun log hlog _ => hlocal ▸ hlog, hlocal, hmax]
      exact iff_of_true ⟨rfl, h.max⟩
        ⟨fun hbegins _ hreexecutes hcloses =>
          absurd ⟨hreexecutes, hcloses⟩ (hstops hbegins).2,
        fun hbegins hprocessed => absurd (hstops hbegins).1 hprocessed⟩
  | lost hbegins hpending hreexecutes hcloses hfails hlocal =>
      rw [h.kept_iff fun log hlog _ => absurd (hlocal ▸ hlog) List.not_mem_nil, hlocal]
      obtain ⟨log, hlog, -⟩ := h.exists_pending hpending
      refine iff_of_false (fun hkept => ?_) fun hrotates =>
        hfails (hrotates.carried hbegins hpending hreexecutes hcloses).1
      rw [← hkept.1] at hlog
      exact absurd hlog List.not_mem_nil
  | replaced hbegins hpending hreexecutes hcloses hrenamed hlocal _ hmax =>
      have hmem : ∀ log ∈ t.walLocal, s.lastProcessedNonce < getTransactionNonce log →
          log ∈ s.walLocal := fun log hlog hnonce => by
        rcases List.mem_append.1 (hlocal ▸ hlog) with hrotation | hwritten
        · exact h.rotation log hrotation hnonce
        · exact (mem_unprocessed.1 (List.mem_of_mem_filter hwritten)).1
      rw [h.kept_iff hmem, hmax]
      have heq : unprocessed s.lastProcessedNonce t.walLocal =
          unprocessed s.lastProcessedNonce s.walRotation ++ s.pending.filter o.writes := by
        rw [hlocal, unprocessed_append, unprocessed_filter_pending]
      constructor
      · rintro ⟨hkept, -⟩
        exact ⟨fun _ _ _ _ => ⟨hrenamed, hkept.symm.trans heq⟩,
          fun _ hprocessed => absurd hpending hprocessed⟩
      · intro hrotates
        have hkept := heq.trans (hrotates.carried hbegins hpending hreexecutes hcloses).2.symm
        exact ⟨hkept, h.largestNonce_replaced hpending hkept⟩
  | reset hbegins hprocessed hfails hlocal hmax =>
      rw [h.kept_iff fun log hlog _ => hlocal ▸ hlog, hlocal, hmax]
      constructor
      · rintro ⟨-, hlargest⟩
        exact ⟨fun _ hpending => absurd hpending hprocessed,
          fun _ _ => .inr (hlargest.zero.1 rfl)⟩
      · intro hrotates
        have hempty := (hrotates.cleared hbegins hprocessed).resolve_left hfails
        exact ⟨rfl, hempty ▸ largestNonce_nil⟩
  | emptied hbegins hprocessed hcloses hlocal hmax =>
      rw [h.kept_iff fun log hlog _ => absurd (hlocal ▸ hlog) List.not_mem_nil, hlocal, hmax]
      exact iff_of_true ⟨(h.pending_eq_nil hprocessed).symm, largestNonce_nil⟩
        ⟨fun _ hpending => absurd hpending hprocessed, fun _ _ => .inl hcloses⟩

/-- **A rotation that keeps them leaves the node consistent.** -/
theorem rotate (h : s.Consistent) {o : RotationOutcomes} (hrotates : Rotates o s) :
    (doLogRotation o s).2.Consistent := by
  have hkept := (h.kept_doLogRotation_iff o).2 hrotates
  generalize ht : (doLogRotation o s).2 = t at hkept
  obtain ⟨⟨hprocessed, hcurrent, hrotated⟩, hrotation⟩ := ht ▸ doLogRotation_rotation o s
  have hmax : t.maxActiveNonce = s.maxActiveNonce ∨ t.maxActiveNonce = 0 := by
    cases hrotation with
    | kept _ _ hmax => exact .inl hmax
    | lost hbegins hpending hreexecutes hcloses hfails =>
        exact absurd (hrotates.carried hbegins hpending hreexecutes hcloses).1 hfails
    | replaced _ _ _ _ _ _ _ hmax => exact .inl hmax
    | reset _ _ _ _ hmax => exact .inr hmax
    | emptied _ _ _ _ hmax => exact .inr hmax
  have hlocal : ∀ log ∈ t.walLocal, log ∈ s.walLocal ∨ log ∈ s.walRotation := by
    intro log hlog
    cases hrotation with
    | kept _ hlocal => exact .inl (hlocal ▸ hlog)
    | lost _ _ _ _ _ hlocal => exact absurd (hlocal ▸ hlog) List.not_mem_nil
    | replaced _ _ _ _ _ hlocal =>
        rcases List.mem_append.1 (hlocal ▸ hlog) with hrotation | hwritten
        · exact .inr hrotation
        · exact .inl (mem_unprocessed.1 (List.mem_of_mem_filter hwritten)).1
    | reset _ _ _ hlocal => exact .inl (hlocal ▸ hlog)
    | emptied _ _ _ hlocal => exact absurd (hlocal ▸ hlog) List.not_mem_nil
  have hunprocessed : ∀ log ∈ t.walLocal, s.lastProcessedNonce < getTransactionNonce log →
      log ∈ s.walLocal := fun log hlog hnonce =>
    (hlocal log hlog).elim id fun hrotation => h.rotation log hrotation hnonce
  have hpending : t.pending = s.pending := by
    unfold LocalNode.pending
    rw [hprocessed]
    exact ((h.kept_iff hunprocessed).1 hkept).1
  refine ⟨fun log hlog => ?_, hpending ▸ h.order, hkept.max, ?_, hprocessed ▸ h.processed,
    fun log hlog hnonce => ?_⟩
  · rcases hlog with hlog | hlog
    · exact h.positive log (hlocal log hlog)
    · exact h.positive log (hrotated log hlog).symm
  · rw [hcurrent]
    have hcurrent := h.current
    rcases hmax with hmax | hmax <;> rw [hmax] <;> omega
  · rw [hprocessed] at hnonce
    have hold : log ∈ s.walLocal := (hrotated log hlog).elim
      (fun hrotation => h.rotation log hrotation hnonce) id
    have hmem : log ∈ t.pending := hpending ▸ mem_unprocessed.2 ⟨hold, hnonce⟩
    exact (mem_unprocessed.1 hmem).1

/-- The nonce of the next transaction is larger than any other one. -/
theorem lt_nextNonce (h : s.Consistent) : 0 < s.nextNonce ∧ s.maxActiveNonce < s.nextNonce := by
  have hmax := h.max_nonneg
  have hprocessed := h.processed
  have hcurrent := h.current
  unfold LocalNode.nextNonce
  dsimp only
  split_ifs <;> omega

/-- A transaction is appended with the next nonce. -/
theorem commit (h : s.Consistent) {log : Log} (hnonce : getTransactionNonce log = s.nextNonce) :
    LocalNode.Consistent
      { s with
        walLocal := s.walLocal ++ [log]
        currentLocalNonce := s.nextNonce
        maxActiveNonce := s.nextNonce } := by
  obtain ⟨hpos, hless⟩ := h.lt_nextNonce
  refine ⟨fun other hother => ?_, ?_, ⟨⟨fun hzero => ?_, fun hnil => ?_⟩, fun other hother => ?_,
    fun _ => ⟨log, List.mem_append_right _ List.mem_cons_self, hnonce⟩⟩, .inr ⟨hpos, le_rfl⟩,
    h.processed, fun other hother hnew => List.mem_append_left _ (h.rotation other hother hnew)⟩
  · rcases hother with hother | hother
    · rcases List.mem_append.1 hother with hother | hother
      · exact h.positive other (.inl hother)
      · rw [List.mem_singleton.1 hother, hnonce]
        exact hpos
    · exact h.positive other (.inr hother)
  · show (unprocessed s.lastProcessedNonce (s.walLocal ++ [log])).Pairwise _
    rw [unprocessed_append]
    refine List.pairwise_append.2 ⟨h.order, (List.pairwise_singleton _ _).filter _,
      fun other hother last hlast => ?_⟩
    have hbound := h.max.bound other (mem_unprocessed.1 hother).1
    rw [List.mem_singleton.1 (mem_unprocessed.1 hlast).1, hnonce]
    exact lt_of_le_of_lt hbound hless
  · exact absurd hzero hpos.ne'
  · exact absurd (List.append_eq_nil_iff.1 hnil).2 (List.cons_ne_nil _ _)
  · rcases List.mem_append.1 hother with hother | hother
    · exact le_of_lt (lt_of_le_of_lt (h.max.bound other hother) hless)
    · rw [List.mem_singleton.1 hother, hnonce]

/-- More nonces are processed. -/
theorem process (h : s.Consistent) {nonce : ℤ} (hless : s.lastProcessedNonce ≤ nonce) :
    LocalNode.Consistent { s with lastProcessedNonce := nonce } := by
  refine ⟨h.positive, ?_, h.max, h.current, le_trans h.processed hless, fun log hlog hnew =>
    h.rotation log hlog (lt_of_le_of_lt hless hnew)⟩
  have hsub : (unprocessed nonce s.walLocal).Sublist s.pending :=
    List.monotone_filter_right s.walLocal fun log hnew =>
      decide_eq_true (lt_of_le_of_lt hless (of_decide_eq_true hnew))
  exact h.order.sublist hsub

end LocalNode.Consistent

/-- The last log has the largest nonce. -/
theorem NonceOrder.largest {logs : List Log} (h : NonceOrder logs) :
    LargestNonce ((logs.getLast?.map getTransactionNonce).getD 0) logs := by
  rcases List.eq_nil_or_concat' logs with rfl | ⟨before, last, rfl⟩
  · exact largestNonce_nil
  · have hlast : last ∈ before ++ [last] := List.mem_append_right _ List.mem_cons_self
    have hpos := h.positive last hlast
    rw [List.getLast?_concat, Option.map_some, Option.getD_some]
    refine ⟨⟨fun hzero => absurd hzero hpos.ne', fun hnil =>
      absurd (List.append_eq_nil_iff.1 hnil).2 (List.cons_ne_nil _ _)⟩, fun log hlog => ?_,
      fun _ => ⟨last, hlast, rfl⟩⟩
    rcases List.mem_append.1 hlog with hlog | hlog
    · exact le_of_lt ((List.pairwise_append.1 h.sorted).2.2 log hlog last List.mem_cons_self)
    · rw [List.mem_singleton.1 hlog]

/-- **A node is consistent in every run whose rotations keep its transactions.** -/
theorem LocalNode.invariant_consistent : (system.restrict Carries).Invariant Consistent where
  init s h := by
    refine ⟨fun log hlog => ?_, h.order.sorted.filter _, h.max ▸ h.order.largest, .inl h.current,
      h.processed, fun log hlog => ?_⟩
    · rw [h.rotation] at hlog
      exact h.order.positive log (hlog.resolve_right List.not_mem_nil)
    · rw [h.rotation] at hlog
      exact absurd hlog List.not_mem_nil
  step s a t h hs := by
    obtain ⟨hcarries, hstep⟩ := hs
    cases a with
    | commit log =>
        by_cases hnonce : getTransactionNonce log = s.nextNonce
        · cases (if_pos hnonce).symm.trans hstep
          exact h.commit hnonce
        · cases (if_neg hnonce).symm.trans hstep
    | failed =>
        cases hstep
        exact ⟨h.positive, h.order, h.max, .inl rfl, h.processed, h.rotation⟩
    | processed nonce =>
        by_cases hless : s.lastProcessedNonce ≤ nonce
        · cases (if_pos hless).symm.trans hstep
          exact h.process hless
        · cases (if_neg hless).symm.trans hstep
    | rotate o =>
        cases hstep
        exact h.rotate hcarries

/-- A node without local transactions. -/
def emptyNode : LocalNode := ⟨[], [], 0, 0, 0, 0, 0, false, true, "OK".toList⟩

/-- A transaction with one command. -/
def insertLog : Log := [.int64 1, .string "INSERT INTO t1 VALUES (1)".toList]

/-- The node after the transaction. -/
def insertNode : LocalNode :=
  { emptyNode with walLocal := [insertLog], maxActiveNonce := 1, currentLocalNonce := 1 }

/-- The transaction is executed again, and nothing fails. -/
def goodRotation : RotationOutcomes :=
  ⟨true, false, true, .ok 4096, .ok, fun _ => true, fun _ => ⟨.ok, .ok, fun _ => .ok, .ok, true⟩,
    true, .ok, .ok, .ok, .ok, true⟩

/-- A reader holds back the checkpoint. -/
def busyCheckpoint : RotationOutcomes := { goodRotation with checkpoint := .busy }

theorem reachable_insertNode :
    (LocalNode.system.restrict LocalNode.Carries).Reachable insertNode := by
  have hstart : LocalNode.Starts emptyNode :=
    ⟨⟨nofun, List.Pairwise.nil⟩, rfl, rfl, rfl, le_rfl⟩
  exact .step (.commit insertLog) (.init hstart) ⟨trivial, rfl⟩

end Core
end AergoLite
