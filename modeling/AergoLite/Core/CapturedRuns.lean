/-
# The transactions of a run

The transactions that are appended to `wal-local` should carry consecutive nonces and hold the
commands that were completed in them (`Recorded`).  The log is that of the commands
(`Pager.Tracks`), with the next nonce, which is allocated if and only if there is a command.  What
commits, rolls back or unlocks the database leaves it so as long as no log is discarded; a commit
whose pages are refused gives the nonce back, and a rollback does not.
-/

import AergoLite.Core.TransactionCapture
import Mathlib.Algebra.Order.Group.Int

namespace AergoLite
namespace Core
namespace Capture

open Transition

/-- The logs among what was appended. -/
def logsOf (walLocal : List Appended) : List TxnLog := walLocal.filterMap Appended.log

/-- **What is expected of the transactions in `wal-local`**, if `start` was the last nonce before
them: their nonces are consecutive, and each holds the commands that were completed in it. -/
structure Recorded (start : ℤ) (walLocal : List Appended) : Prop where
  nonces : (logsOf walLocal).map TxnLog.nonce =
    (List.range (logsOf walLocal).length).map fun i : ℕ => start + 1 + i
  commands : ∀ a ∈ walLocal,
    a.log.map TxnLog.commands = if a.completed = [] then none else some a.completed

instance instDecidableRecorded (start : ℤ) (walLocal : List Appended) :
    Decidable (Recorded start walLocal) :=
  decidable_of_iff ((logsOf walLocal).map TxnLog.nonce =
      (List.range (logsOf walLocal).length).map (fun i : ℕ => start + 1 + i) ∧
    ∀ a ∈ walLocal, a.log.map TxnLog.commands = if a.completed = [] then none else some a.completed)
    ⟨fun h => ⟨h.1, h.2⟩, fun h => ⟨h.nonces, h.commands⟩⟩

/-- The last nonce of the transactions. -/
def lastOf (start : ℤ) (walLocal : List Appended) : ℤ := start + (logsOf walLocal).length

theorem recorded_nil (start : ℤ) : Recorded start [] :=
  ⟨rfl, fun _ h => absurd h List.not_mem_nil⟩

theorem logsOf_concat (walLocal : List Appended) (a : Appended) :
    logsOf (walLocal ++ [a]) = logsOf walLocal ++ a.log.toList := by
  rw [logsOf, List.filterMap_append]
  cases ha : a.log with
  | none => rw [List.filterMap_cons_none ha, List.filterMap_nil]; rfl
  | some log => rw [List.filterMap_cons_some ha, List.filterMap_nil]; rfl

/-- The last nonce, after a transaction is appended. -/
theorem lastOf_some (start : ℤ) (walLocal : List Appended) (log : TxnLog) (completed : List Text) :
    lastOf start (walLocal ++ [⟨some log, completed⟩]) = lastOf start walLocal + 1 := by
  rw [lastOf, logsOf_concat, Option.toList_some, List.length_append, List.length_singleton, lastOf,
    Int.natCast_add]
  omega

theorem lastOf_none (start : ℤ) (walLocal : List Appended) (completed : List Text) :
    lastOf start (walLocal ++ [⟨none, completed⟩]) = lastOf start walLocal := by
  rw [lastOf, logsOf_concat, Option.toList_none, List.append_nil, lastOf]

/-- A transaction with the next nonce is appended. -/
theorem Recorded.append {start : ℤ} {walLocal : List Appended} (h : Recorded start walLocal)
    {cmds : List Text} (hcmds : cmds ≠ []) :
    Recorded start (walLocal ++ [⟨some ⟨lastOf start walLocal + 1, cmds⟩, cmds⟩]) := by
  constructor
  · rw [logsOf_concat, Option.toList_some, List.map_append, h.nonces, List.length_append,
      List.length_singleton, List.range_succ, List.map_append, List.map_singleton,
      List.map_singleton, lastOf]
    congr 2
    dsimp only
    omega
  · intro a ha
    rcases List.mem_append.1 ha with ha | ha
    · exact h.commands a ha
    · rw [List.mem_singleton.1 ha, if_neg hcmds]
      rfl

/-- Pages are appended without a transaction. -/
theorem Recorded.append_none {start : ℤ} {walLocal : List Appended} (h : Recorded start walLocal) :
    Recorded start (walLocal ++ [⟨none, []⟩]) := by
  constructor
  · rw [logsOf_concat, Option.toList_none, List.append_nil]
    exact h.nonces
  · intro a ha
    rcases List.mem_append.1 ha with ha | ha
    · exact h.commands a ha
    · rw [List.mem_singleton.1 ha]
      rfl

/-! ## The log and the nonces -/

namespace Pager

/-- The nonces of the node are those of the transactions. -/
structure Counted (start : ℤ) (s : Pager) : Prop where
  recorded : Recorded start s.walLocal
  nonneg : 0 ≤ start
  active : s.maxActiveNonce ≠ 0 → s.maxActiveNonce = lastOf start s.walLocal
  processed : s.maxActiveNonce = 0 → max s.lastProcessedNonce 0 = lastOf start s.walLocal
  processed_le : s.lastProcessedNonce ≤ lastOf start s.walLocal

/-- **The log is that of the commands**, with the next nonce, which is allocated if and only if
there is a command. -/
structure Tracks (start : ℤ) (cmds : List Text) (s : Pager) : Prop extends Counted start s where
  log : s.log = if cmds = [] then none else some ⟨lastOf start s.walLocal + 1, cmds⟩
  current : if cmds = [] then
      s.currentLocalNonce = 0 ∨ s.currentLocalNonce = lastOf start s.walLocal
    else s.currentLocalNonce = lastOf start s.walLocal + 1

variable {start : ℤ} {cmds : List Text} {s : Pager}

theorem Counted.lastOf_nonneg (h : s.Counted start) : 0 ≤ lastOf start s.walLocal :=
  Int.add_nonneg h.nonneg (Int.natCast_nonneg _)

/-- The node counts from the last transaction. -/
theorem Counted.lastNonce_eq (h : s.Counted start) : s.lastNonce = lastOf start s.walLocal := by
  have hnonneg := h.lastOf_nonneg
  unfold lastNonce
  dsimp only
  by_cases hmax : s.maxActiveNonce = 0
  · rw [if_pos hmax]
    have := h.processed hmax
    split_ifs <;> omega
  · rw [if_neg hmax]
    have := h.active hmax
    split_ifs <;> omega

/-- The nonce of a new transaction is the next one. -/
theorem Tracks.newNonce_eq (h : s.Tracks start []) : s.newNonce = lastOf start s.walLocal + 1 := by
  have hcurrent := h.current
  rw [if_pos rfl] at hcurrent
  unfold newNonce
  split_ifs with hzero
  · rw [h.lastNonce_eq]
  · rw [hcurrent.resolve_left hzero]

/-- **A command is stored.** -/
theorem Tracks.storeCommand (h : s.Tracks start cmds) (sql : Text) :
    (s.aergoliteStoreCommand sql).Tracks start (cmds ++ [sql]) := by
  have hne : cmds ++ [sql] ≠ [] := List.append_ne_nil_of_right_ne_nil _ (List.cons_ne_nil _ _)
  have hlog := h.log
  have hcurrent := h.current
  unfold aergoliteStoreCommand aergoliteCreateTransaction
  by_cases hcmds : cmds = []
  · subst hcmds
    rw [if_pos rfl] at hlog
    rw [if_neg (by rw [hlog]; exact Bool.false_ne_true)]
    refine ⟨⟨h.recorded, h.nonneg, h.active, h.processed, h.processed_le⟩, ?_, ?_⟩
    · rw [if_neg hne, ← h.newNonce_eq]
      rfl
    · rw [if_neg hne]
      exact h.newNonce_eq
  · rw [if_neg hcmds] at hlog hcurrent
    rw [if_pos (by rw [hlog]; rfl)]
    refine ⟨⟨h.recorded, h.nonneg, h.active, h.processed, h.processed_le⟩, ?_, ?_⟩
    · rw [if_neg hne]
      dsimp only
      rw [hlog]
      rfl
    · rw [if_neg hne]
      exact hcurrent

theorem lastcmd_storeLastCommand (s : Pager) : s.aergoliteStoreLastCommand.lastcmd = none := by
  unfold aergoliteStoreLastCommand
  cases hlast : s.lastcmd with
  | none => exact hlast
  | some sql => rfl

theorem Tracks.setLastcmd (h : s.Tracks start cmds) (lastcmd : Option Text) :
    Tracks start cmds { s with lastcmd } :=
  ⟨⟨h.recorded, h.nonneg, h.active, h.processed, h.processed_le⟩, h.log, h.current⟩

/-- The last command is stored, if there is one. -/
theorem Tracks.storeLastCommand (h : s.Tracks start cmds) :
    s.aergoliteStoreLastCommand.Tracks start (cmds ++ s.lastcmd.toList) := by
  unfold aergoliteStoreLastCommand
  cases hlast : s.lastcmd with
  | none =>
      rw [Option.toList_none, List.append_nil]
      exact h
  | some sql => exact (h.storeCommand sql).setLastcmd none

/-- The log of a transaction that was not begun is discarded. -/
theorem Tracks.discard (h : s.Tracks start []) :
    s.aergoliteDiscardTransaction.Tracks start [] :=
  ⟨⟨h.recorded, h.nonneg, h.active, h.processed, h.processed_le⟩, rfl, h.current⟩

/-- **A transaction that failed** is discarded, and its nonce is allocated again. -/
theorem Counted.failed (h : s.Counted start) :
    s.aergoliteTransactionFailed.aergoliteDiscardTransaction.Tracks start [] :=
  ⟨⟨h.recorded, h.nonneg, h.active, h.processed, h.processed_le⟩, rfl, .inl rfl⟩

/-- Without a log the end of a write transaction changes nothing but the last active nonce. -/
theorem Tracks.endTransaction (h : s.Tracks start []) (bCommit : Bool) :
    (Connection.pagerEndTransaction bCommit s).Tracks start [] := by
  have hlog := h.log
  have hcurrent := h.current
  rw [if_pos rfl] at hlog hcurrent
  unfold Connection.pagerEndTransaction
  dsimp only
  by_cases hactive : (bCommit && decide (0 < s.currentLocalNonce)) = true
  · have hprocessed : ¬s.processNewLocalTransaction.log.isSome = true := by
      rw [processNewLocalTransaction, hlog]
      exact Bool.false_ne_true
    have hpos : 0 < s.currentLocalNonce := of_decide_eq_true (Bool.and_eq_true_iff.1 hactive).2
    have hlast : s.currentLocalNonce = lastOf start s.walLocal := by omega
    rw [if_pos hactive, if_neg hprocessed]
    exact ⟨⟨h.recorded, h.nonneg, fun _ => hlast, fun hzero => absurd hzero (Int.ne_of_gt hpos),
      h.processed_le⟩, h.log, h.current⟩
  · rw [if_neg hactive, if_neg (hlog ▸ Bool.false_ne_true)]
    exact h

/-- **A transaction is appended**: its nonce is the last one now. -/
theorem Tracks.saved (h : s.Tracks start cmds) (hcmds : cmds ≠ []) :
    (s.append cmds).processNewLocalTransaction.aergoliteDiscardTransaction.Tracks start [] := by
  have hlog := h.log
  have hcurrent := h.current
  rw [if_neg hcmds] at hlog hcurrent
  have hnonneg := h.lastOf_nonneg
  have hlast := lastOf_some start s.walLocal ⟨lastOf start s.walLocal + 1, cmds⟩ cmds
  have hpos : 0 < s.currentLocalNonce := by omega
  have hrecorded := h.recorded.append hcmds
  unfold append
  rw [hlog]
  refine ⟨⟨hrecorded, h.nonneg, ?_, ?_, ?_⟩, rfl, .inr ?_⟩
  · exact fun _ => hcurrent.trans hlast.symm
  · exact fun hzero => absurd hzero (Int.ne_of_gt hpos)
  · exact (h.processed_le.trans (Int.le_add_one le_rfl)).trans (Int.le_of_eq hlast.symm)
  · exact hcurrent.trans hlast.symm

/-- **The log is appended** by a commit. -/
theorem Tracks.commit (h : s.Tracks start cmds) :
    (Connection.pagerEndTransaction true (s.append cmds)).Tracks start [] := by
  have hlog := h.log
  have hcurrent := h.current
  by_cases hcmds : cmds = []
  · subst hcmds
    rw [if_pos rfl] at hlog hcurrent
    have hlast := lastOf_none start s.walLocal []
    rw [append, hlog]
    apply Tracks.endTransaction
    refine ⟨⟨h.recorded.append_none, h.nonneg, ?_, ?_, ?_⟩, rfl, ?_⟩
    · exact fun hne => (h.active hne).trans hlast.symm
    · exact fun hzero => (h.processed hzero).trans hlast.symm
    · exact h.processed_le.trans (Int.le_of_eq hlast.symm)
    · rw [if_pos rfl, hlast]
      exact hcurrent
  · rw [if_neg hcmds] at hlog hcurrent
    have hnonneg := h.lastOf_nonneg
    have hpos : 0 < (s.append cmds).currentLocalNonce := by
      change 0 < s.currentLocalNonce
      omega
    have hsome : (s.append cmds).processNewLocalTransaction.log.isSome = true := by
      rw [processNewLocalTransaction, append, hlog]
      rfl
    unfold Connection.pagerEndTransaction
    dsimp only
    rw [decide_eq_true hpos, Bool.and_true, if_pos rfl, if_pos hsome]
    exact h.saved hcmds

/-- **A special transaction**, outside of a transaction of the application, is saved or it is
discarded. -/
theorem Tracks.createSpecialTransaction (h : s.Tracks start []) (sql : Text)
    (signed verified saved : Bool) :
    (s.createSpecialTransaction sql signed verified saved []).Tracks start [] := by
  have hstored := h.storeCommand sql
  have hfailed := hstored.toCounted.failed
  unfold Pager.createSpecialTransaction
  dsimp only
  split_ifs
  · exact hfailed
  · exact hfailed
  · exact hfailed
  · exact hstored.saved (List.cons_ne_nil sql [])

/-- **What is left of a commit** in `pagerWalFrames`: where it succeeds and the transaction ends,
and where it is refused and the transaction is rolled back, there is no log any more. -/
theorem Tracks.walFrames (h : s.Tracks start cmds) (x : Halting) :
    (Connection.pagerWalFrames x (cmds ++ s.lastcmd.toList) s).2.lastcmd = none ∧
      (Connection.pagerEndTransaction
        (decide ((Connection.pagerWalFrames x (cmds ++ s.lastcmd.toList) s).1 = .ok))
        (Connection.pagerWalFrames x (cmds ++ s.lastcmd.toList) s).2).Tracks start [] := by
  have hstored := h.storeLastCommand
  have hlastcmd := s.lastcmd_storeLastCommand
  generalize cmds ++ s.lastcmd.toList = all at hstored ⊢
  unfold Connection.pagerWalFrames
  generalize s.aergoliteStoreLastCommand = t at hstored hlastcmd ⊢
  have hlog := hstored.log
  dsimp only
  by_cases hall : all = []
  · subst hall
    rw [if_pos rfl] at hlog
    rw [if_neg (by rw [hlog]; exact Bool.false_ne_true)]
    by_cases hwrite : x.write = .ok
    · rw [if_neg (not_not.2 hwrite)]
      exact ⟨hlastcmd, hstored.commit⟩
    · rw [if_pos hwrite]
      exact ⟨hlastcmd, hstored.endTransaction _⟩
  · rw [if_neg hall] at hlog
    have hfailed : ∀ rc : VdbeRc, rc ≠ .ok →
        (Connection.pagerEndTransaction (decide (rc = .ok)) t.aergoliteTransactionFailed).Tracks
          start [] := by
      intro rc hrc
      rw [decide_eq_false hrc]
      have hsome : t.aergoliteTransactionFailed.log.isSome = true := by
        rw [show t.aergoliteTransactionFailed.log = t.log from rfl, hlog]
        rfl
      unfold Connection.pagerEndTransaction
      dsimp only
      rw [Bool.false_and, if_neg Bool.false_ne_true, if_pos hsome]
      exact hstored.toCounted.failed
    rw [if_pos (by rw [hlog]; rfl)]
    by_cases hsign : x.sign = .ok
    · rw [if_neg (not_not.2 hsign)]
      by_cases hwrite : x.write = .ok
      · rw [if_neg (not_not.2 hwrite)]
        exact ⟨hlastcmd, hstored.commit⟩
      · rw [if_pos hwrite]
        exact ⟨hlastcmd, hfailed _ hwrite⟩
    · rw [if_pos hsign]
      exact ⟨hlastcmd, hfailed _ hsign⟩

/-- The nonce of the last transaction, as the other nodes know it. -/
theorem Counted.newest_eq (h : s.Counted start) : s.newest = lastOf start s.walLocal := by
  have hnonces := h.recorded.nonces
  have hlastOf : lastOf start s.walLocal = start + (logsOf s.walLocal).length := rfl
  have hlast : (logsOf s.walLocal).getLast?.map TxnLog.nonce =
      (List.range (logsOf s.walLocal).length).getLast?.map fun i : ℕ => start + 1 + i := by
    rw [← List.getLast?_map, hnonces, List.getLast?_map]
  unfold newest
  rw [show s.walLocal.filterMap Appended.log = logsOf s.walLocal from rfl, hlast,
    List.getLast?_range]
  split_ifs with hempty
  · exact h.lastNonce_eq
  · rw [Option.map_some, Option.getD_some, hlastOf]
    omega

/-- Transactions are processed. -/
theorem Tracks.setProcessed (h : s.Tracks start cmds) {nonce : ℤ}
    (hle : s.lastProcessedNonce ≤ nonce) (hnewest : nonce ≤ s.newest) :
    Tracks start cmds { s with lastProcessedNonce := nonce } := by
  rw [h.newest_eq] at hnewest
  have hnonneg := h.lastOf_nonneg
  refine ⟨⟨h.recorded, h.nonneg, h.active, fun hzero => ?_, hnewest⟩, h.log, h.current⟩
  have hlast := h.processed hzero
  dsimp only
  omega

/-- The log is rotated when all its transactions have been processed. -/
theorem Tracks.rotated (h : s.Tracks start cmds) (hle : s.maxActiveNonce ≤ s.lastProcessedNonce) :
    Tracks start cmds { s with maxActiveNonce := 0 } := by
  refine ⟨⟨h.recorded, h.nonneg, fun hne => absurd rfl hne, fun _ => ?_, h.processed_le⟩, h.log,
    h.current⟩
  have hprocessed := h.processed_le
  have hnonneg := h.lastOf_nonneg
  by_cases hzero : s.maxActiveNonce = 0
  · exact h.processed hzero
  · have hactive := h.active hzero
    dsimp only
    omega

end Pager

/-! ## Commit and rollback -/

namespace Connection

variable {start : ℤ} {s : Connection} {p : Vdbe} {x : Halting}

/-- **The end of a transaction**: there is no log any more, and no transaction in which pages are
modified; a last command that there was not is not there now. -/
structure Ended (start : ℤ) (s : Connection) (pager : Pager) (inTrans : InTrans) : Prop where
  tracks : pager.Tracks start []
  notWrite : ∀ modified, inTrans ≠ .write modified
  lastcmd : s.pager.lastcmd = none → pager.lastcmd = none

theorem btreeEndTransaction_spec (h : s.pager.Tracks start []) :
    ∃ pager inTrans, s.btreeEndTransaction = { s with pager, inTrans } ∧
      Ended start s pager inTrans ∧ (s.inTrans ≠ .none → s.nVdbeRead ≤ 1 → pager.lastcmd = none) := by
  unfold btreeEndTransaction
  by_cases hnone : s.inTrans = .none
  · rw [if_neg (fun hand => hand.1 hnone), if_neg (not_not.2 hnone)]
    refine ⟨s.pager, s.inTrans, rfl, ⟨h, fun modified heq => ?_, id⟩, fun hne => absurd hnone hne⟩
    exact InTrans.noConfusion (hnone.symm.trans heq)
  · by_cases hread : 1 < s.nVdbeRead
    · rw [if_pos ⟨hnone, hread⟩]
      exact ⟨s.pager, .read, rfl, ⟨h, fun modified heq => InTrans.noConfusion heq, id⟩,
        fun _ hle => absurd hread (Nat.not_lt.2 hle)⟩
    · rw [if_neg (fun hand => hread hand.2), if_pos hnone]
      exact ⟨_, .none, rfl, ⟨h.discard, fun modified heq => InTrans.noConfusion heq, fun _ => rfl⟩,
        fun _ _ => rfl⟩

/-- The log and the nonces after the pager has rolled back. -/
def rolledBack (s : Connection) : Pager :=
  match s.inTrans with
  | .write _ => pagerEndTransaction false s.pager
  | _ => s.pager

theorem rolledBack_tracks (h : s.pager.Tracks start []) : s.rolledBack.Tracks start [] := by
  unfold rolledBack
  cases s.inTrans with
  | write modified => exact h.endTransaction false
  | none | read => exact h

theorem lastcmd_pagerEndTransaction {bCommit : Bool} {pager : Pager} (h : pager.lastcmd = none) :
    (pagerEndTransaction bCommit pager).lastcmd = none := by
  unfold pagerEndTransaction Pager.aergoliteDiscardTransaction Pager.processNewLocalTransaction
  dsimp only
  split_ifs <;> first | rfl | exact h

theorem sqlite3RollbackAll_eq (s : Connection) :
    s.sqlite3RollbackAll =
      { s with pager := s.rolledBack, completed := [] }.btreeEndTransaction := by
  unfold sqlite3RollbackAll rolledBack
  dsimp only
  cases s.inTrans <;> rfl

theorem lastcmd_rolledBack (h : s.pager.lastcmd = none) : s.rolledBack.lastcmd = none := by
  unfold rolledBack
  cases s.inTrans with
  | write modified => exact lastcmd_pagerEndTransaction h
  | none | read => exact h

/-- **A rollback** leaves no log. -/
theorem sqlite3RollbackAll_spec (h : s.rolledBack.Tracks start []) :
    ∃ pager inTrans, s.sqlite3RollbackAll = { s with pager, inTrans, completed := [] } ∧
      Ended start s pager inTrans := by
  obtain ⟨pager, inTrans, heq, hended, -⟩ := btreeEndTransaction_spec
    (s := { s with pager := s.rolledBack, completed := [] }) h
  exact ⟨pager, inTrans, s.sqlite3RollbackAll_eq.trans heq, hended.tracks, hended.notWrite,
    fun hnone => hended.lastcmd (lastcmd_rolledBack hnone)⟩

/-- `pagerWalFrames` returns what refuses the commit. -/
theorem pagerWalFrames_rc (x : Halting) (completed : List Text) (pager : Pager) :
    (pagerWalFrames x completed pager).1 = .ok ∨ (pagerWalFrames x completed pager).1 = x.sign ∨
      (pagerWalFrames x completed pager).1 = x.write := by
  unfold pagerWalFrames
  dsimp only
  split_ifs
  · exact .inr (.inl rfl)
  · exact .inr (.inr rfl)
  · exact .inl rfl
  · exact .inr (.inr rfl)
  · exact .inl rfl

/-- The second phase of a commit, where there is no log after `pager_end_transaction`. -/
theorem sqlite3BtreeCommitPhaseTwo_spec
    (h : s.inTrans = .none ∨ s.inTrans = .read → s.pager.Tracks start [])
    (hwrite : ∀ modified, s.inTrans = .write modified →
      (pagerEndTransaction true s.pager).Tracks start []) :
    ∃ pager inTrans, s.sqlite3BtreeCommitPhaseTwo = { s with pager, inTrans } ∧
      Ended start s pager inTrans ∧
      (s.inTrans ≠ .none → s.nVdbeRead ≤ 1 → pager.lastcmd = none) := by
  obtain ⟨pager, inTrans, autoCommit, isTransactionSavepoint, savepoints, active, completed⟩ := s
  cases inTrans with
  | none =>
      exact ⟨pager, .none, rfl, ⟨h (.inl rfl), fun modified heq => InTrans.noConfusion heq, id⟩,
        fun hne => absurd rfl hne⟩
  | read => exact btreeEndTransaction_spec (h (.inr rfl))
  | write modified =>
      obtain ⟨pager', inTrans', heq, hended, hlast⟩ := btreeEndTransaction_spec
        (s := ⟨pagerEndTransaction true pager, .write modified, autoCommit, isTransactionSavepoint,
          savepoints, active, completed⟩) (hwrite modified rfl)
      exact ⟨pager', inTrans', heq, ⟨hended.tracks, hended.notWrite,
        fun hnone => hended.lastcmd (lastcmd_pagerEndTransaction hnone)⟩, hlast⟩

/-- **A commit.**  It succeeds, and the transaction has ended; or it fails before it writes, and
nothing has changed; or its pages are refused, and after the rollback there is no log. -/
theorem vdbeCommit_spec {cmds completed : List Text} (h : s.pager.Tracks start cmds)
    (hpages : s.inTrans ≠ .write true → cmds = [])
    (hexact : s.inTrans = .write true → completed = cmds ++ s.pager.lastcmd.toList) :
    (∃ pager inTrans, s.vdbeCommit x completed = (.ok, { s with pager, inTrans }) ∧
      Ended start s pager inTrans ∧
      (s.inTrans = .write true ∨ s.inTrans ≠ .none ∧ s.nVdbeRead ≤ 1 → pager.lastcmd = none)) ∨
    (x.before ≠ .ok ∧ s.vdbeCommit x completed = (x.before, s)) ∨
    (x.before = .ok ∧ s.inTrans = .write true ∧ ∃ rc pager, rc ≠ .ok ∧
      (rc = x.sign ∨ rc = x.write) ∧
      s.vdbeCommit x completed = (rc, { s with pager }) ∧
      { s with pager }.rolledBack.Tracks start [] ∧ pager.lastcmd = none) := by
  unfold vdbeCommit
  by_cases hbefore : x.before = .ok
  · rw [if_neg (not_not.2 hbefore)]
    by_cases hmodified : s.inTrans = .write true
    · obtain ⟨hlast, hwal⟩ := h.walFrames x
      rw [← hexact hmodified] at hlast hwal
      have hrc := pagerWalFrames_rc x completed s.pager
      unfold sqlite3BtreeCommitPhaseOne
      rw [hmodified]
      dsimp only
      generalize pagerWalFrames x completed s.pager = r at hlast hwal hrc ⊢
      obtain ⟨rc, pager⟩ := r
      by_cases hok : rc = .ok
      · subst hok
        have hreads : s.inTrans = .none ∨ s.inTrans = .read → pager.Tracks start [] := by
          rintro (hor | hor)
          all_goals exact InTrans.noConfusion (hmodified.symm.trans hor)
        obtain ⟨pager', inTrans, heq, hended, -⟩ :=
          sqlite3BtreeCommitPhaseTwo_spec (s := { s with pager }) hreads (fun _ _ => hwal)
        refine .inl ⟨pager', inTrans, ?_, ⟨hended.tracks, hended.notWrite,
          fun _ => hended.lastcmd hlast⟩, fun _ => hended.lastcmd hlast⟩
        exact congrArg (Prod.mk VdbeRc.ok) (hmodified ▸ heq)
      · refine .inr (.inr ⟨hbefore, rfl, rc, pager, hok, hrc.resolve_left hok, ?_, ?_, hlast⟩)
        · cases rc <;> first | exact absurd rfl hok | rfl
        · unfold rolledBack
          rw [decide_eq_false hok] at hwal
          exact hwal
    · obtain rfl := hpages hmodified
      have hone : s.sqlite3BtreeCommitPhaseOne x completed = (.ok, s) := by
        unfold sqlite3BtreeCommitPhaseOne
        cases htrans : s.inTrans with
        | none | read => rfl
        | write modified =>
            cases modified with
            | true => exact absurd htrans hmodified
            | false => rfl
      rw [hone]
      obtain ⟨pager, inTrans, heq, hended, hlast⟩ := sqlite3BtreeCommitPhaseTwo_spec
        (s := s) (fun _ => h) (fun _ _ => h.endTransaction true)
      exact .inl ⟨pager, inTrans, congrArg (Prod.mk VdbeRc.ok) heq, hended, fun hor =>
        hlast (hor.resolve_left hmodified).1 (hor.resolve_left hmodified).2⟩
  · rw [if_pos hbefore]
    exact .inr (.inl ⟨hbefore, rfl⟩)

/-- **The end of a statement in auto-commit mode**: where its commit is not busy, the transaction
has ended. -/
theorem commitOrRollback_spec (done : List Text) (h : s.pager.Tracks start s.completed)
    (hpages : s.inTrans ≠ .write true → s.completed = [])
    (hexact : s.inTrans = .write true →
      x.rc = .ok ∨ x.errorAction = .fail ∧ x.rc.isSpecialError = false →
        s.pager.lastcmd.toList = if x.rc = .ok then done else [])
    (hrefused : s.completed ≠ [] → x.rc = .ok ∧ x.deferredViolation = false ∧
      (x.before = .ok ∨ x.before = .busy ∧ p.readOnly = true))
    (hbusy : p.readOnly = true → s.inTrans = .write true → x.before = .ok →
      x.sign ≠ .busy ∧ x.write ≠ .busy) :
    (s.commitOrRollback p x done = (none, s) ∧
      (x.rc = .ok ∨ x.errorAction = .fail ∧ x.rc.isSpecialError = false)) ∨
    ∃ rc pager inTrans,
      s.commitOrRollback p x done = (some rc, { s with pager, inTrans, completed := [] }) ∧
      Ended start s pager inTrans ∧ (rc = .ok → x.rc = .ok ∧
        (s.inTrans = .write true ∨ s.inTrans ≠ .none ∧ s.nVdbeRead ≤ 1 → pager.lastcmd = none)) := by
  unfold commitOrRollback
  by_cases hcommits : x.rc = .ok ∨ x.errorAction = .fail ∧ x.rc.isSpecialError = false
  · rw [if_pos hcommits]
    by_cases hdeferred : x.deferredViolation = true
    · have hcompleted : s.completed = [] := by
        by_contra hne
        exact Bool.noConfusion (hdeferred.symm.trans (hrefused hne).2.1)
      obtain ⟨pager, inTrans, heq, hended⟩ :=
        sqlite3RollbackAll_spec (rolledBack_tracks (hcompleted ▸ h))
      rw [if_pos hdeferred]
      exact .inr ⟨.constraint, pager, inTrans, congrArg (Prod.mk (some VdbeRc.constraint)) heq,
        hended, fun hrc => VdbeRc.noConfusion hrc⟩
    · rw [if_neg hdeferred]
      rcases vdbeCommit_spec (x := x) h hpages fun hmodified =>
          congrArg (s.completed ++ ·) (hexact hmodified hcommits).symm with
        ⟨pager, inTrans, heq, hended, hlast⟩ | ⟨hbefore, heq⟩ |
          ⟨hbefore, hmodified, rc, pager, hrc, hfrom, heq, hrolled, hlast⟩
      · rw [heq]
        exact .inr ⟨x.rc, pager, inTrans, rfl, hended, fun hrc => ⟨hrc, hlast⟩⟩
      · rw [heq]
        by_cases hbusy : x.before = .busy ∧ p.readOnly = true
        · exact .inl ⟨if_pos hbusy, hcommits⟩
        · have hcompleted : s.completed = [] := by
            by_contra hne
            rcases (hrefused hne).2.2 with hok | hand
            · exact hbefore hok
            · exact hbusy hand
          obtain ⟨pager, inTrans, hrolls, hended⟩ :=
            sqlite3RollbackAll_spec (rolledBack_tracks (hcompleted ▸ h))
          refine .inr ⟨x.before, pager, inTrans, ?_, hended, fun hok => absurd hok hbefore⟩
          dsimp only
          rw [if_neg hbusy, if_pos hbefore, hrolls]
      · rw [heq]
        have hnot : ¬(rc = .busy ∧ p.readOnly = true) := by
          rintro ⟨rfl, hro⟩
          rcases hfrom with hfrom | hfrom
          · exact (hbusy hro hmodified hbefore).1 hfrom.symm
          · exact (hbusy hro hmodified hbefore).2 hfrom.symm
        obtain ⟨pager', inTrans, hrolls, hended⟩ := sqlite3RollbackAll_spec hrolled
        refine .inr ⟨rc, pager', inTrans, ?_, ⟨hended.tracks, hended.notWrite,
          fun _ => hended.lastcmd hlast⟩, fun hok => absurd hok hrc⟩
        dsimp only
        rw [if_neg hnot, if_pos hrc, hrolls]
  · have hcompleted : s.completed = [] := by
      by_contra hne
      exact hcommits (.inl (hrefused hne).1)
    obtain ⟨pager, inTrans, heq, hended⟩ :=
      sqlite3RollbackAll_spec (rolledBack_tracks (hcompleted ▸ h))
    rw [if_neg hcommits]
    exact .inr ⟨x.rc, pager, inTrans, congrArg (Prod.mk (some x.rc)) heq, hended,
      fun hok => absurd (.inl hok) hcommits⟩

/-! ## Statements that halt -/

/-- The connection is in auto-commit mode, without a log. -/
structure Idle (start : ℤ) (s : Connection) : Prop where
  autoCommit : s.autoCommit = true
  tracks : s.pager.Tracks start []
  completed : s.completed = []
  savepoints : s.savepoints = []

/-- What a statement in auto-commit mode keeps: it leaves the connection idle, and where there was
no last command there is none. -/
structure Settles (start : ℤ) (s t : Connection) : Prop where
  idle : t.Idle start
  active : t.active = s.active
  lastcmd : s.pager.lastcmd = none → t.pager.lastcmd = none

theorem Idle.settles (h : s.Idle start) : s.Settles start s := ⟨h, rfl, id⟩

theorem Settles.trans {t u : Connection} (h : s.Settles start t) (h' : t.Settles start u) :
    s.Settles start u :=
  ⟨h'.idle, h'.active.trans h.active, fun hnone => h'.lastcmd (h.lastcmd hnone)⟩

/-- **A transaction that is aborted** without a log. -/
theorem abortTransaction_spec (h : s.pager.Tracks start []) :
    s.Settles start s.abortTransaction ∧
      ∀ modified, s.abortTransaction.inTrans ≠ .write modified := by
  obtain ⟨pager, inTrans, heq, hended⟩ := sqlite3RollbackAll_spec (rolledBack_tracks h)
  unfold abortTransaction sqlite3CloseSavepoints
  rw [heq]
  exact ⟨⟨⟨rfl, hended.tracks, rfl, rfl⟩, rfl, hended.lastcmd⟩, hended.notWrite⟩

/-- A statement transaction that is closed in auto-commit mode. -/
theorem closeStatement_spec (h : s.Idle start) (rc : VdbeRc) :
    s.Settles start (s.closeStatement p x rc).2 ∧
      ((∀ modified, s.inTrans ≠ .write modified) →
        ∀ modified, (s.closeStatement p x rc).2.inTrans ≠ .write modified) ∧
      ((s.closeStatement p x rc).1 = .ok → rc = .ok ∧ (s.closeStatement p x rc).2 = s) := by
  unfold closeStatement
  by_cases hfails : p.usesStmtJournal = true ∧ x.closeStatement ≠ .ok
  · rw [if_pos hfails]
    refine ⟨(abortTransaction_spec h.tracks).1, fun _ => (abortTransaction_spec h.tracks).2, ?_⟩
    dsimp only
    split_ifs with hrc
    · exact fun hok => absurd hok hfails.2
    · exact fun hok => absurd (.inl hok) hrc
  · rw [if_neg hfails]
    exact ⟨h.settles, id, fun hok => ⟨hok, rfl⟩⟩

/-- The statements that are active and write. -/
def writers (active : List Vdbe) : ℕ := active.countP fun p => !p.readOnly

theorem nVdbeWrite_cons {others : List Vdbe} (h : s.active = p :: others) :
    s.nVdbeWrite = writers others + if p.readOnly then 0 else 1 := by
  unfold nVdbeWrite writers
  rw [h, List.countP_cons]
  cases p.readOnly <;> rfl

/-- The statement commits or rolls back if no other one writes. -/
theorem nVdbeWrite_eq_iff {others : List Vdbe} (h : s.active = p :: others) :
    s.nVdbeWrite = (if p.readOnly then 0 else 1) ↔ writers others = 0 := by
  rw [nVdbeWrite_cons h]
  omega

/-- A write transaction belongs to an active statement that writes. -/
structure InAutoCommit (start : ℤ) (s : Connection) : Prop extends Idle start s where
  notWrite : s.nVdbeWrite = 0 → ∀ modified, s.inTrans ≠ .write modified

theorem halted_active {others : List Vdbe} (h : s.active = p :: others) :
    (s.halted p).active = others := by
  unfold halted
  rw [h]
  exact List.erase_cons_head ..

theorem Idle.halted (h : s.Idle start) : (s.halted p).Idle start :=
  ⟨h.autoCommit, h.tracks, h.completed, h.savepoints⟩

/-- What is left of a statement in auto-commit mode. -/
structure Left (start : ℤ) (p : Vdbe) (s t : Connection) : Prop where
  inAutoCommit : t.InAutoCommit start
  active : p :: t.active = s.active
  lastcmd : s.pager.lastcmd = none → t.pager.lastcmd = none

/-- A statement that does not commit or roll back leaves another one that writes. -/
theorem Settles.left {t : Connection} {others : List Vdbe} (h : s.Settles start t)
    (hactive : s.active = p :: others)
    (hnotWrite : writers others = 0 → ∀ modified, t.inTrans ≠ .write modified) :
    Left start p s (t.halted p) := by
  have hothers := halted_active (h.active.trans hactive)
  refine ⟨⟨h.idle.halted, fun hzero => hnotWrite ?_⟩, ?_, h.lastcmd⟩
  · rw [← hothers]
    exact hzero
  · rw [hothers, hactive]

/-- The end of a statement in auto-commit mode.  If it commits modified pages, the last command is
what it completes.  It is not captured any more where its pages are committed or the database is
unlocked. -/
theorem endStatement_spec {others : List Vdbe} (done : List Text) (h : s.InAutoCommit start)
    (hactive : s.active = p :: others)
    (hexact : writers others = 0 → s.inTrans = .write true →
      x.rc = .ok ∨ x.errorAction = .fail ∧ x.rc.isSpecialError = false →
        s.pager.lastcmd.toList = if x.rc = .ok then done else []) :
    (s.endStatement p x done = (none, s) ∧
      (x.rc = .ok ∨ x.errorAction = .fail ∧ x.rc.isSpecialError = false)) ∨
    ∃ rc t, s.endStatement p x done = (some rc, t) ∧ Left start p s t ∧
      (rc = .ok → x.rc = .ok ∧ (writers others = 0 →
        s.inTrans = .write true ∨ s.inTrans ≠ .none ∧ s.nVdbeRead ≤ 1 →
          t.pager.lastcmd = none)) := by
  unfold endStatement
  by_cases hsole : writers others = 0
  · rw [if_pos ⟨h.autoCommit, (nVdbeWrite_eq_iff hactive).2 hsole⟩]
    have hbusy : p.readOnly = true → s.inTrans = .write true → x.before = .ok →
        x.sign ≠ .busy ∧ x.write ≠ .busy := by
      intro hreadOnly hmodified
      have hnone := nVdbeWrite_cons hactive
      rw [hreadOnly, if_pos rfl, hsole] at hnone
      exact absurd hmodified (h.notWrite hnone true)
    rcases commitOrRollback_spec (p := p) (x := x) done (h.completed.symm ▸ h.tracks)
        (fun _ => h.completed) (hexact hsole) (fun hne => absurd h.completed hne) hbusy with
      ⟨heq, hcommits⟩ | ⟨rc, pager, inTrans, heq, hended, hlast⟩
    · rw [heq]
      exact .inl ⟨rfl, hcommits⟩
    · rw [heq]
      have hsettles : s.Settles start { s with pager, inTrans, completed := [] } :=
        ⟨⟨h.autoCommit, hended.tracks, rfl, h.savepoints⟩, rfl, hended.lastcmd⟩
      obtain ⟨hclosed, hnotWrite, hok⟩ := closeStatement_spec (p := p) (x := x) hsettles.idle rc
      dsimp only
      by_cases hrolls : rollsBackStatement p x = true
      · rw [if_pos hrolls]
        refine .inr ⟨_, _, rfl,
          (hsettles.trans hclosed).left hactive (fun _ => hnotWrite hended.notWrite), fun hrc => ?_⟩
        obtain ⟨hrc, hsame⟩ := hok hrc
        rw [hsame]
        exact ⟨(hlast hrc).1, fun _ => (hlast hrc).2⟩
      · rw [if_neg hrolls]
        exact .inr ⟨rc, _, rfl, hsettles.left hactive (fun _ => hended.notWrite), fun hrc =>
          ⟨(hlast hrc).1, fun _ => (hlast hrc).2⟩⟩
  · rw [if_neg (fun hand => hsole ((nVdbeWrite_eq_iff hactive).1 hand.2))]
    by_cases hcloses : rollsBackStatement p x = true ∨ x.rc = .ok ∨ x.errorAction ≠ .rollback
    · rw [if_pos hcloses]
      obtain ⟨hclosed, -, hok⟩ := closeStatement_spec (p := p) (x := x) h.toIdle x.rc
      exact .inr ⟨_, _, rfl, hclosed.left hactive (fun hzero => absurd hzero hsole),
        fun hrc => ⟨(hok hrc).1, fun hzero => absurd hzero hsole⟩⟩
    · rw [if_neg hcloses]
      exact .inr ⟨_, _, rfl,
        (abortTransaction_spec h.tracks).1.left hactive (fun hzero => absurd hzero hsole),
        fun hrc => absurd (.inr (.inl hrc)) hcloses⟩

theorem isSpecialError_of_forcesRollback (h : forcesRollback p x = true) :
    x.rc.isSpecialError = true :=
  (Bool.and_eq_true_iff.1 (Bool.and_eq_true_iff.1 h).1).1

/-- **A statement halts in auto-commit mode**, as `endStatement_spec` says. -/
theorem sqlite3VdbeHalt_autoCommit {others : List Vdbe} (done : List Text)
    (h : s.InAutoCommit start) (hactive : s.active = p :: others)
    (hexact : writers others = 0 → s.inTrans = .write true →
      x.rc = .ok ∨ x.errorAction = .fail ∧ x.rc.isSpecialError = false →
        s.pager.lastcmd.toList = if x.rc = .ok then done else []) :
    s.sqlite3VdbeHalt p x done = (none, s) ∨
    ∃ rc t, s.sqlite3VdbeHalt p x done = (some rc, t) ∧ Left start p s t ∧
      (rc = .ok → x.rc = .ok ∧ (p.isReader = true → writers others = 0 →
        s.inTrans = .write true ∨ s.inTrans ≠ .none ∧ s.nVdbeRead ≤ 1 →
          t.pager.lastcmd = none)) := by
  unfold sqlite3VdbeHalt
  by_cases hreader : p.isReader = true
  · rw [hreader, Bool.not_true, if_neg Bool.false_ne_true]
    by_cases hforces : forcesRollback p x = true
    · rw [if_pos hforces]
      have hspecial := isSpecialError_of_forcesRollback hforces
      obtain ⟨hsettles, hnotWrite⟩ := abortTransaction_spec h.tracks
      rcases endStatement_spec (p := p) (x := x) done
          ⟨hsettles.idle, fun _ => hnotWrite⟩ (hsettles.active.trans hactive)
          (fun _ hmodified => absurd hmodified (hnotWrite true)) with
        ⟨-, hok | ⟨-, hnot⟩⟩ | ⟨rc, t, heq, hleft, hlast⟩
      · rw [hok] at hspecial
        exact Bool.noConfusion hspecial
      · exact Bool.noConfusion (hspecial.symm.trans hnot)
      · refine .inr ⟨rc, t, heq, ⟨hleft.inAutoCommit, hleft.active.trans hsettles.active,
          fun hnone => hleft.lastcmd (hsettles.lastcmd hnone)⟩, fun hrc => ?_⟩
        rw [(hlast hrc).1] at hspecial
        exact Bool.noConfusion hspecial
    · rw [if_neg hforces]
      rcases endStatement_spec (p := p) (x := x) done h hactive hexact with
        ⟨heq, -⟩ | ⟨rc, t, heq, hleft, hlast⟩
      · exact .inl heq
      · exact .inr ⟨rc, t, heq, hleft, fun hrc => ⟨(hlast hrc).1, fun _ => (hlast hrc).2⟩⟩
  · -- a statement that reads nothing does not write
    have hreadOnly : p.readOnly = true := by
      by_contra hwrites
      exact hreader (p.isReader_of_op (.inr (.inr (Bool.not_eq_true _ ▸ hwrites))))
    rw [Bool.not_eq_true] at hreader
    rw [hreader, Bool.not_false, if_pos rfl]
    refine .inr ⟨x.rc, _, rfl, h.toIdle.settles.left hactive (fun hzero => h.notWrite ?_),
      fun hrc => ⟨hrc, fun hfalse => Bool.noConfusion hfalse⟩⟩
    rw [nVdbeWrite_cons hactive, hreadOnly, if_pos rfl, hzero]

/-- A statement that halts in a transaction of the application does not roll it back. -/
def Spares (p : Vdbe) (x : Halting) : Prop :=
  p.isReader = true → forcesRollback p x = false ∧
    (rollsBackStatement p x = true ∨ x.rc = .ok ∨ x.errorAction ≠ .rollback) ∧
    (p.usesStmtJournal = true → x.closeStatement = .ok)

/-- **A statement halts in a transaction of the application.** -/
theorem sqlite3VdbeHalt_explicit {done : List Text} (hauto : s.autoCommit = false)
    (hspares : Spares p x) : s.sqlite3VdbeHalt p x done = (some x.rc, s.halted p) := by
  unfold sqlite3VdbeHalt
  by_cases hreader : p.isReader = true
  · obtain ⟨hforces, hkeeps, hcloses⟩ := hspares hreader
    rw [hreader, Bool.not_true, if_neg Bool.false_ne_true, hforces, if_neg Bool.false_ne_true]
    unfold endStatement closeStatement
    rw [if_neg (fun hand => Bool.noConfusion (hauto.symm.trans hand.1)), if_pos hkeeps,
      if_neg (fun hand => hand.2 (hcloses hand.1))]
  · rw [Bool.not_eq_true] at hreader
    rw [hreader, Bool.not_false, if_pos rfl]

/-- The statements of a transaction spare it, unless they end it. -/
theorem spares_of_op (hop : p.op ≠ .other) (hspecial : x.rc.isSpecialError = false)
    (hkeeps : x.rc = .ok ∨ x.errorAction ≠ .rollback) : Spares p x := by
  intro
  refine ⟨?_, .inr hkeeps, fun hjournal => ?_⟩
  · unfold forcesRollback
    rw [hspecial, Bool.false_and, Bool.false_and]
  · exact Bool.noConfusion (hjournal.symm.trans (p.usesStmtJournal_of_op hop))

/-- **The transaction of the application is committed**: what it holds of modified pages is
written, or it is refused. -/
theorem haltOk_commit {others : List Vdbe} (hauto : s.autoCommit = true)
    (hactive : s.active = p :: others) (hop : p.op ≠ .other)
    (h : s.pager.Tracks start s.completed) (hmodified : s.inTrans = .write true)
    (hlast : s.pager.lastcmd = p.command) (hwriters : s.nVdbeWrite = 0)
    (hdeferred : x.deferredViolation = false)
    (hcommits : x.before = .busy ∨ x.before = .ok ∧ x.sign ≠ .busy ∧ x.write ≠ .busy) :
    s.haltOk p x = (none, s) ∨
    ∃ rc pager inTrans, s.haltOk p x =
        (some rc, { s with pager, inTrans, completed := [], active := others }) ∧
      Ended start s pager inTrans ∧ (rc = .ok → pager.lastcmd = none) := by
  have hcount := nVdbeWrite_cons hactive
  have hreadOnly : p.readOnly = true := by
    by_contra hwrites
    rw [if_neg hwrites] at hcount
    omega
  have hrolls : rollsBackStatement p { x with rc := .ok } = false := rfl
  have hforces : forcesRollback p { x with rc := .ok } = false := rfl
  unfold haltOk sqlite3VdbeHalt
  rw [p.isReader_of_op (.inr (.inl hop)), Bool.not_true, if_neg Bool.false_ne_true, hforces,
    if_neg Bool.false_ne_true]
  unfold endStatement
  rw [if_pos ⟨hauto, by rw [hwriters, if_pos hreadOnly]⟩]
  rcases commitOrRollback_spec (p := p) (x := { x with rc := .ok }) p.command.toList h
      (fun hne => absurd hmodified hne) (fun _ _ => by rw [hlast, if_pos rfl])
      (fun _ => ⟨rfl, hdeferred,
        hcommits.symm.imp (fun hok => hok.1) (fun hbusy => ⟨hbusy, hreadOnly⟩)⟩)
      (fun _ _ hbefore => (hcommits.resolve_left (hbefore ▸ VdbeRc.noConfusion)).2) with
    ⟨heq, -⟩ | ⟨rc, pager, inTrans, heq, hended, hok⟩
  · rw [heq]
    exact .inl rfl
  · rw [heq, hrolls]
    refine .inr ⟨rc, pager, inTrans, ?_, hended, fun hrc => (hok hrc).2 (.inl hmodified)⟩
    exact congrArg (fun active => (some rc, { s with pager, inTrans, completed := [], active }))
      (halted_active hactive)

end Connection

end Capture
end Core
end AergoLite
