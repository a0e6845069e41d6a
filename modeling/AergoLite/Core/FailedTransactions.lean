/-
# What a failed transaction leaves behind

`aergolite_execute_transaction` with the savepoints of its two connections
(`Connected.aergoliteExecuteTransaction`), from any block that is open, with any statements and
any failures of the bookkeeping.  It is meant to leave no trace of a transaction that failed but
its nonce (`Traceless`).  `traceless_iff` says when it does: where the savepoint that the rollback
finds is the one that was opened, the rollback itself does not fail, and the node that the
transaction is counted for has a row and an authorization.

It does not always: a transaction that opens a savepoint `txn` of its own and then fails has
only that one undone (`trace_of_savepoint`).
-/

import AergoLite.Core.Determinism
import AergoLite.Core.LastNonces
import AergoLite.Core.Savepoints

namespace AergoLite
namespace Core

open Savepoints

variable {D : Type}

/-- The last part of `aergolite_execute_transaction`: what is listed, by the result code. -/
def listTransaction (nodeId nonce : ℤ) (a : Aergolite D) (rc : Rc) (db : Databases D) :
    Rc × Aergolite D :=
  let tid := buildTransactionId nodeId nonce
  if rc = .ok then
    (.ok, { a with
      db
      txnIds := a.txnIds.map (· ++ [tid])
      authorizations := updateAuthLastNonce nodeId nonce a.authorizations })
  else if rc = .busy ∨ rc = .perm then (rc, { a with db })
  else
    (rc, { a with
      db := (updateNodeLastNonce nodeId nonce { db with txnCount := db.txnCount + 1 }).2
      txnIds := a.txnIds.map (· ++ [tid ||| failedFlag])
      authorizations := updateAuthLastNonce nodeId nonce a.authorizations })

theorem aergoliteExecuteTransaction_eq (env : Env D) (a : Aergolite D) (nodeId nonce : ℤ)
    (log : Log) :
    let r := executeTransaction env.codec env.engine a.isFullNode a.authorizations
      a.activeBlock.height nodeId nonce (buildTransactionId nodeId nonce) log a.db
    aergoliteExecuteTransaction env a nodeId nonce log = listTransaction nodeId nonce a r.rc r.db :=
  rfl

/-- The core, with what its connections can go back to. -/
structure Connected (D : Type) where
  core : Aergolite D
  worker : Nesting Text (Worker D)
  state : Nesting Text StateDb

namespace Connected

def connections (s : Connected D) : Connections D := ⟨s.core.db, s.worker, s.state⟩

/-- The first part of `aergolite_execute_transaction`, up to the end of `execute_transaction`. -/
def toExit (codec : Codec) (eng : Engine (Connection D)) (nodeId nonce : ℤ) (log : Log)
    (s : Connected D) : Connections.Exit D :=
  s.connections.executeToExit codec eng s.core.isFullNode s.core.authorizations
    s.core.activeBlock.height nodeId nonce (buildTransactionId nodeId nonce) log

/-- What becomes of the core. -/
def list (nodeId nonce : ℤ) (s : Connected D) (r : Rc × Connections D) : Rc × Connected D :=
  let listed := listTransaction nodeId nonce s.core r.1 r.2.db
  (listed.1, ⟨listed.2, r.2.worker, r.2.state⟩)

/-- `aergolite_execute_transaction`. -/
def aergoliteExecuteTransaction (codec : Codec) (eng : Engine (Connection D)) (nodeId nonce : ℤ)
    (log : Log) (s : Connected D) : Rc × Connected D :=
  s.list nodeId nonce (s.toExit codec eng nodeId nonce log).outcome

/-- A block is open, and no savepoint of a transaction. -/
structure Active (s : Connected D) : Prop where
  listing : s.core.txnIds.isSome = true
  worker : s.worker.Free txn
  state : s.state.Free txn

end Connected

/-- The nonce stored for a node, if it has a row. -/
def storedNonce (w : Worker D) (nodeId : ℤ) : Option ℤ :=
  (aergoliteGetAllowedNode w.nodes nodeId).map AllowedNode.lastNonce

/-- The nonce of a node in memory, if it has an authorization. -/
def memoryNonce (auths : List NodeAuth) (nodeId : ℤ) : Option ℤ :=
  (aergoliteGetAuthorization auths nodeId).map NodeAuth.lastNonce

/-- A worker database but for the nonce of a node. -/
def withoutNonce (nodeId : ℤ) (w : Worker D) : Worker D :=
  { w with nodes := renonce nodeId 0 w.nodes }

/-- **No trace of a transaction that failed**, and a transaction listed if and only if its nonce
is set in both places. -/
structure Traceless (nodeId nonce : ℤ) (s : Connected D) (r : Rc × Connected D) : Prop where
  worker : r.2.worker = s.worker
  state : r.2.state = s.state
  rows : r.1 ≠ .ok → r.2.core.db.state = s.core.db.state
  content : r.1 ≠ .ok →
    if r.2.core.txnIds = s.core.txnIds then r.2.core.db.worker = s.core.db.worker
    else withoutNonce nodeId r.2.core.db.worker = withoutNonce nodeId s.core.db.worker
  listed : r.2.core.txnIds ≠ s.core.txnIds →
    storedNonce r.2.core.db.worker nodeId = some nonce ∧
      memoryNonce r.2.core.authorizations nodeId = some nonce
  unlisted : r.2.core.txnIds = s.core.txnIds →
    r.2.core.db.worker.nodes = s.core.db.worker.nodes ∧
      r.2.core.authorizations = s.core.authorizations

/-! ## The condition -/

/-- The rollback from `c` undoes what was done since `s`, of a transaction with a code.  What it
brings back of the worker database is what the savepoint found there has saved; and if the
transaction is counted, its node has a row and an authorization, and the nonce is stored. -/
def Undone (nodeId nonce : ℤ) (s : Connected D) (rc : Rc) (c : Connections D) : Prop :=
  ∃ w, Connections.RollsBack s.connections c w ∧
    if outcome rc = .failed then
      withoutNonce nodeId w = withoutNonce nodeId s.core.db.worker ∧
        hasRow s.core.db.worker.nodes nodeId = true ∧
        (aergoliteGetAuthorization s.core.authorizations nodeId).isSome = true ∧
        (c.rollback.db.command.1 = .ok ∨ storedNonce w nodeId = some nonce)
    else w = s.core.db.worker

/-- No trace will be left.  If everything succeeds, the savepoint that is released has to be
the one that was opened, and the node has an authorization. -/
def Clean (nodeId nonce : ℤ) (s : Connected D) : Connections.Exit D → Prop
  | .busy _ => True
  | .half c => c.db.command.1 = .ok
  | .failed rc c => Undone nodeId nonce s rc c
  | .recorded c =>
    let (rc, c') := c.control Connections.releaseWorker
    let (rc2, c') := c'.control Connections.releaseState
    if rc = .ok ∧ rc2 = .ok then
      (∃ w, c.worker.Over txn w s.worker) ∧
        (aergoliteGetAuthorization s.core.authorizations nodeId).isSome = true
    else Undone nodeId nonce s (if rc = .ok then .error else rc) c'

/-! ## The exits -/

variable {nodeId nonce : ℤ}

/-- What is known where `execute_transaction` stops. -/
inductive Stopped (nodeId nonce : ℤ) (s : Connections D) : Connections.Exit D → Prop
  | busy {c : Connections D} (worker : c.worker = s.worker) (state : c.state = s.state)
      (data : c.db.worker = s.db.worker ∧ c.db.state = s.db.state) : Stopped nodeId nonce s (.busy c)
  | half {c : Connections D} (worker : c.worker = s.worker.savepoint txn s.db.worker)
      (state : c.state = s.state) (data : c.db.worker = s.db.worker ∧ c.db.state = s.db.state) :
      Stopped nodeId nonce s (.half c)
  | failed {rc : Rc} {c : Connections D} (fails : rc ≠ .ok)
      (state : c.state = s.state.savepoint txn s.db.state) : Stopped nodeId nonce s (.failed rc c)
  | recorded {c : Connections D} (state : c.state = s.state.savepoint txn s.db.state)
      (stored : storedNonce c.db.worker nodeId = some nonce) : Stopped nodeId nonce s (.recorded c)

theorem getAllowedNode_isSome (nodes : List AllowedNode) (nodeId : ℤ) :
    (aergoliteGetAllowedNode nodes nodeId).isSome = hasRow nodes nodeId := by
  rw [Bool.eq_iff_iff, aergoliteGetAllowedNode, hasRow, List.find?_isSome, List.any_eq_true]

/-- The nonce that an update stores. -/
theorem storedNonce_renonce (w : Worker D) :
    storedNonce { w with nodes := renonce nodeId nonce w.nodes } nodeId =
      if hasRow w.nodes nodeId then some nonce else none := by
  unfold storedNonce renonce
  rw [getAllowedNode_map (fun row => by split_ifs <;> rfl), ← getAllowedNode_isSome]
  cases hrow : aergoliteGetAllowedNode w.nodes nodeId with
  | none => rfl
  | some row =>
      have hid : row.nodeId = nodeId := by simpa using List.find?_some hrow
      simp [hid]

theorem updateNodeLastNonce_worker (db : Databases D) :
    (updateNodeLastNonce nodeId nonce db).2.worker =
      if db.command.1 = .ok then
        { db.worker with nodes := renonce nodeId nonce db.worker.nodes } else db.worker := by
  unfold updateNodeLastNonce updateNode
  rw [db.command_eq]
  dsimp only
  by_cases hok : db.faults.headD .ok = .ok
  · rw [if_neg (not_not.2 hok), if_pos hok]
    by_cases hrow : hasRow db.worker.nodes nodeId = true
    · rw [hrow]
      rfl
    · rw [Bool.not_eq_true] at hrow
      rw [hrow, renonce_of_not_hasRow hrow]
      rfl
  · rw [if_pos hok, if_neg hok]

theorem updateNodeLastNonce_state (db : Databases D) :
    (updateNodeLastNonce nodeId nonce db).2.state = db.state := by
  unfold updateNodeLastNonce updateNode
  rw [db.command_eq]
  dsimp only
  split_ifs <;> rfl

theorem updateNodeLastNonce_ok {db : Databases D}
    (h : (updateNodeLastNonce nodeId nonce db).1 = .ok) :
    db.command.1 = .ok ∧ hasRow db.worker.nodes nodeId = true := by
  unfold updateNodeLastNonce updateNode at h
  rw [db.command_eq] at h ⊢
  dsimp only at h
  split_ifs at h with hfails hrow
  · exact absurd h hfails
  · exact ⟨not_not.1 hfails, by simpa using hrow⟩

theorem recordTransaction_ok {isFullNode : Bool} {height : ℤ} {tid : BitVec 64} {log : Log}
    {db : Databases D}
    (h : (recordTransaction isFullNode height nodeId nonce tid log db).1 = .ok) :
    storedNonce (recordTransaction isFullNode height nodeId nonce tid log db).2.worker nodeId =
      some nonce := by
  unfold recordTransaction at h ⊢
  dsimp only at h ⊢
  split_ifs at h ⊢ with hfull hsaved hsaved
  all_goals first
    | exact absurd h (by decide)
    | obtain ⟨hcommand, hrow⟩ := updateNodeLastNonce_ok h
      rw [updateNodeLastNonce_worker, if_pos hcommand, storedNonce_renonce, if_pos hrow]

theorem stopped_executeToExit (codec : Codec) (eng : Engine (Connection D)) (isFullNode : Bool)
    (auths : List NodeAuth) (height : ℤ) (tid : BitVec 64) (log : Log) (s : Connections D) :
    Stopped nodeId nonce s
      (s.executeToExit codec eng isFullNode auths height nodeId nonce tid log) := by
  unfold Connections.executeToExit
  dsimp only
  have hfirst := s.control_savepointWorker
  generalize s.control Connections.savepointWorker = r at hfirst ⊢
  obtain ⟨hcode, hdb, hworkers, hstates⟩ := hfirst
  rw [← hcode] at hworkers
  have hdata : r.2.db.worker = s.db.worker ∧ r.2.db.state = s.db.state := by
    simp [hdb, Databases.command_eq]
  by_cases hrc : r.1 ≠ .ok
  · rw [if_neg hrc] at hworkers
    rw [if_pos hrc]
    exact .busy hworkers hstates hdata
  rw [if_pos (not_not.1 hrc)] at hworkers
  rw [if_neg hrc]
  have hsecond := r.2.control_savepointState
  generalize r.2.control Connections.savepointState = r2 at hsecond ⊢
  obtain ⟨hcode2, hdb2, hworkers2, hstates2⟩ := hsecond
  rw [← hcode2, hstates, hdata.2] at hstates2
  by_cases hrc2 : r2.1 ≠ .ok
  · rw [if_neg hrc2] at hstates2
    rw [if_pos hrc2]
    exact .half (hworkers2.trans hworkers) hstates2 (by
      simpa [hdb2, Databases.command_eq] using hdata)
  rw [if_pos (not_not.1 hrc2)] at hstates2
  rw [if_neg hrc2]
  have hbody := Connections.executeBody_state codec eng auths height nodeId log r2.2
  generalize Connections.executeBody codec eng auths height nodeId log r2.2 = body at hbody ⊢
  split_ifs with hfails hrecord
  · exact .failed hfails (hbody.trans hstates2)
  · exact .failed hrecord (hbody.trans hstates2)
  · exact .recorded (hbody.trans hstates2) (recordTransaction_ok (not_not.1 hrecord))

/-! ## What is listed -/

variable {s : Connected D}

theorem withoutNonce_renonce (nodeId nonce : ℤ) (w : Worker D) :
    withoutNonce nodeId { w with nodes := renonce nodeId nonce w.nodes } =
      withoutNonce nodeId w := by
  unfold withoutNonce renonce
  simp only [List.map_map, Worker.mk.injEq, and_true]
  refine List.map_congr_left fun row _ => ?_
  simp only [Function.comp_apply]
  split_ifs <;> rfl

/-- Databases that are the same but for a nonce have rows for the same nodes. -/
theorem hasRow_of_withoutNonce {w w' : Worker D} (h : withoutNonce nodeId w = withoutNonce nodeId w')
    (id : ℤ) : hasRow w.nodes id = hasRow w'.nodes id := by
  have hids : ∀ w : Worker D,
      (withoutNonce nodeId w).nodes.map AllowedNode.nodeId = w.nodes.map AllowedNode.nodeId := by
    intro w
    unfold withoutNonce renonce
    rw [List.map_map]
    refine List.map_congr_left fun row _ => ?_
    simp only [Function.comp_apply]
    split_ifs <;> rfl
  have hrow : ∀ nodes : List AllowedNode,
      hasRow nodes id = (nodes.map AllowedNode.nodeId).any fun nodeId => nodeId == id := by
    intro nodes
    rw [List.any_map]
    rfl
  rw [hrow, hrow, ← hids w, ← hids w', h]

theorem memoryNonce_updateAuthLastNonce (nodeId nonce : ℤ) (auths : List NodeAuth) :
    memoryNonce (updateAuthLastNonce nodeId nonce auths) nodeId =
      if (aergoliteGetAuthorization auths nodeId).isSome then some nonce else none := by
  unfold memoryNonce updateAuthLastNonce
  rw [getAuthorization_update (by exact fun _ => rfl), if_pos rfl]
  cases aergoliteGetAuthorization auths nodeId <;> rfl

/-- A transaction that is to be tried again, or is refused, is not listed. -/
theorem traceless_skipped_iff {rc : Rc} (hrc : rc = .busy ∨ rc = .perm) (d : Connections D) :
    Traceless nodeId nonce s (s.list nodeId nonce (rc, d)) ↔
      d.worker = s.worker ∧ d.state = s.state ∧ d.db.state = s.core.db.state ∧
        d.db.worker = s.core.db.worker := by
  have hfails : rc ≠ .ok := by rcases hrc with rfl | rfl <;> simp
  have hlist : s.list nodeId nonce (rc, d) = (rc, ⟨{ s.core with db := d.db }, d.worker, d.state⟩) := by
    simp [Connected.list, listTransaction, hfails, hrc]
  rw [hlist]
  constructor
  · intro h
    exact ⟨h.worker, h.state, h.rows hfails, by simpa using h.content hfails⟩
  · rintro ⟨hworker, hstate, hrows, hcontent⟩
    exact {
      worker := hworker
      state := hstate
      rows := fun _ => hrows
      content := fun _ => by simpa using hcontent
      listed := fun hlisted => absurd rfl hlisted
      unlisted := fun _ => ⟨congrArg Worker.nodes hcontent, rfl⟩ }

/-- A transaction that failed is listed, and its nonce is set. -/
theorem traceless_failed_iff {rc : Rc} (hrc : outcome rc = .failed)
    (hlisting : s.core.txnIds.isSome = true) (d : Connections D) :
    Traceless nodeId nonce s (s.list nodeId nonce (rc, d)) ↔
      d.worker = s.worker ∧ d.state = s.state ∧ d.db.state = s.core.db.state ∧
        withoutNonce nodeId d.db.worker = withoutNonce nodeId s.core.db.worker ∧
        hasRow s.core.db.worker.nodes nodeId = true ∧
        (aergoliteGetAuthorization s.core.authorizations nodeId).isSome = true ∧
        (d.db.command.1 = .ok ∨ storedNonce d.db.worker nodeId = some nonce) := by
  obtain ⟨txnIds, htxns⟩ := Option.isSome_iff_exists.1 hlisting
  have hfails : rc ≠ .ok := by rintro rfl; simp [outcome] at hrc
  have hcounts : ¬(rc = .busy ∨ rc = .perm) := by
    rintro (rfl | rfl) <;> simp [outcome] at hrc
  generalize hr : s.list nodeId nonce (rc, d) = r
  have hcode : r.1 = rc := by simp [← hr, Connected.list, listTransaction, hfails, hcounts]
  have hworkers : r.2.worker = d.worker := by simp [← hr, Connected.list]
  have hstates : r.2.state = d.state := by simp [← hr, Connected.list]
  have htable : r.2.core.db.state = d.db.state := by
    simp [← hr, Connected.list, listTransaction, hfails, hcounts, updateNodeLastNonce_state]
  have hmemory : memoryNonce r.2.core.authorizations nodeId =
      if (aergoliteGetAuthorization s.core.authorizations nodeId).isSome then some nonce
      else none := by
    rw [← memoryNonce_updateAuthLastNonce]
    simp [← hr, Connected.list, listTransaction, hfails, hcounts]
  have hdata : r.2.core.db.worker = if d.db.command.1 = .ok then
      { d.db.worker with nodes := renonce nodeId nonce d.db.worker.nodes } else d.db.worker := by
    have hupdate := @updateNodeLastNonce_worker D nodeId nonce
      { d.db with txnCount := d.db.txnCount + 1 }
    rw [Databases.command_eq] at hupdate ⊢
    simp [← hr, Connected.list, listTransaction, hfails, hcounts, hupdate]
  have hlisted : r.2.core.txnIds ≠ s.core.txnIds := by
    simp [← hr, Connected.list, listTransaction, hfails, hcounts, htxns]
  have hbut : withoutNonce nodeId r.2.core.db.worker = withoutNonce nodeId d.db.worker := by
    rw [hdata]
    split_ifs
    · exact withoutNonce_renonce nodeId nonce d.db.worker
    · rfl
  constructor
  · intro h
    have hcontent := h.content (hcode ▸ hfails)
    rw [if_neg hlisted, hbut] at hcontent
    obtain ⟨hstored, hmem⟩ := h.listed hlisted
    refine ⟨hworkers.symm.trans h.worker, hstates.symm.trans h.state,
      htable.symm.trans (h.rows (hcode ▸ hfails)), hcontent, ?_, ?_, ?_⟩
    · rw [← hasRow_of_withoutNonce (hbut.trans hcontent), ← getAllowedNode_isSome]
      obtain ⟨row, hrow, -⟩ := Option.map_eq_some_iff.1 hstored
      rw [hrow, Option.isSome_some]
    · rw [hmemory] at hmem
      by_contra hauth
      rw [if_neg hauth] at hmem
      simp at hmem
    · by_cases hcommand : d.db.command.1 = .ok
      · exact .inl hcommand
      · rw [hdata, if_neg hcommand] at hstored
        exact .inr hstored
  · rintro ⟨hworker, hstate, hrows, hcontent, hrow, hauth, hnonce⟩
    exact {
      worker := hworkers.trans hworker
      state := hstates.trans hstate
      rows := fun _ => htable.trans hrows
      content := fun _ => by rw [if_neg hlisted, hbut, hcontent]
      listed := fun _ => by
        refine ⟨?_, by rw [hmemory, if_pos hauth]⟩
        rw [hdata]
        split_ifs with hcommand
        · rw [storedNonce_renonce, hasRow_of_withoutNonce hcontent, if_pos hrow]
        · exact hnonce.resolve_left hcommand
      unlisted := fun heq => absurd heq hlisted }

/-- **A rollback leaves no trace exactly when everything is undone.** -/
theorem traceless_rollback_iff {rc : Rc} {c : Connections D} (hactive : s.Active)
    (hfails : rc ≠ .ok)
    (hopen : c.state = s.state ∨ c.state = s.state.savepoint txn s.core.db.state) :
    Traceless nodeId nonce s (s.list nodeId nonce (rc, c.rollback)) ↔
      Undone nodeId nonce s rc c := by
  have hback := fun w => @Connections.rollback_iff D c s.connections w hactive.worker hactive.state
    hopen
  unfold Undone
  by_cases hrc : outcome rc = .failed
  · rw [traceless_failed_iff hrc hactive.listing]
    constructor
    · rintro ⟨hworker, hstate, hrows, hcontent, hrest⟩
      refine ⟨_, (hback _).1 ⟨hworker, hstate, hrows, rfl⟩, ?_⟩
      rw [if_pos hrc]
      exact ⟨hcontent, hrest⟩
    · rintro ⟨w, hundone, hrest⟩
      obtain ⟨hworker, hstate, hrows, rfl⟩ := (hback w).2 hundone
      rw [if_pos hrc] at hrest
      exact ⟨hworker, hstate, hrows, hrest⟩
  · have hskipped : rc = .busy ∨ rc = .perm := by
      rw [← outcome_eq_skipped]
      revert hrc hfails
      cases rc <;> simp [outcome]
    rw [traceless_skipped_iff hskipped]
    constructor
    · rintro ⟨hworker, hstate, hrows, hcontent⟩
      refine ⟨_, (hback _).1 ⟨hworker, hstate, hrows, rfl⟩, ?_⟩
      rw [if_neg hrc]
      exact hcontent
    · rintro ⟨w, hundone, hrest⟩
      obtain ⟨hworker, hstate, hrows, rfl⟩ := (hback w).2 hundone
      rw [if_neg hrc] at hrest
      exact ⟨hworker, hstate, hrows, hrest⟩

/-- A transaction that succeeded. -/
theorem traceless_ok_iff (hlisting : s.core.txnIds.isSome = true) {d : Connections D}
    (hstored : storedNonce d.db.worker nodeId = some nonce) :
    Traceless nodeId nonce s (s.list nodeId nonce (.ok, d)) ↔
      d.worker = s.worker ∧ d.state = s.state ∧
        (aergoliteGetAuthorization s.core.authorizations nodeId).isSome = true := by
  obtain ⟨txnIds, htxns⟩ := Option.isSome_iff_exists.1 hlisting
  have hmemory := memoryNonce_updateAuthLastNonce nodeId nonce s.core.authorizations
  constructor
  · intro h
    have hlisted := h.listed (by simp [Connected.list, listTransaction, htxns])
    refine ⟨h.worker, h.state, ?_⟩
    by_contra hauth
    rw [if_neg hauth] at hmemory
    have hmem := hlisted.2
    simp [Connected.list, listTransaction, hmemory] at hmem
  · rintro ⟨hworker, hstate, hauth⟩
    rw [if_pos hauth] at hmemory
    exact {
      worker := hworker
      state := hstate
      rows := fun hfails => absurd rfl hfails
      content := fun hfails => absurd rfl hfails
      listed := fun _ => ⟨hstored, hmemory⟩
      unlisted := fun heq => by simp [Connected.list, listTransaction, htxns] at heq }

/-- The release of the one savepoint that was opened. -/
theorem traceless_half_iff {c : Connections D}
    (hworker : c.worker = s.worker.savepoint txn s.core.db.worker)
    (hstate : c.state = s.state)
    (hdata : c.db.worker = s.core.db.worker ∧ c.db.state = s.core.db.state) :
    Traceless nodeId nonce s
        (s.list nodeId nonce (.busy, (c.control Connections.releaseWorker).2)) ↔
      c.db.command.1 = .ok := by
  rw [traceless_skipped_iff (.inl rfl)]
  constructor
  · rintro ⟨hreleased, -⟩
    by_contra hrefused
    rw [Connections.control_refused hrefused, Connections.advance_worker, hworker] at hreleased
    exact Nesting.savepoint_ne hreleased
  · intro hcommand
    have hrelease : Connections.releaseWorker c.advance = some { c.advance with worker := s.worker } := by
      rw [Connections.releaseWorker, Connections.advance_worker, hworker,
        Nesting.over_savepoint.release]
      rfl
    rw [Connections.control_some hcommand hrelease]
    exact ⟨rfl, hstate, by simp [hdata], by simp [hdata]⟩

theorem traceless_recorded_iff {c : Connections D} (hactive : s.Active)
    (hstate : c.state = s.state.savepoint txn s.core.db.state)
    (hstored : storedNonce c.db.worker nodeId = some nonce) :
    Traceless nodeId nonce s (s.list nodeId nonce (Connections.Exit.recorded c).outcome) ↔
      Clean nodeId nonce s (.recorded c) := by
  simp only [Connections.Exit.outcome, Clean]
  have hfirst := c.control_cases Connections.releaseWorker
  have hsecond := (c.control Connections.releaseWorker).2.control_cases Connections.releaseState
  generalize c.control Connections.releaseWorker = r at hfirst hsecond ⊢
  obtain ⟨rc, c'⟩ := r
  dsimp only at hfirst hsecond ⊢
  generalize c'.control Connections.releaseState = r at hsecond ⊢
  obtain ⟨rc2, c''⟩ := r
  dsimp only at hsecond ⊢
  -- the release on the worker database leaves the rest alone
  have hworker : c'.state = c.state ∧ c'.db.worker = c.db.worker ∧
      (rc = .ok → ∃ w, c.worker.Over txn w c'.worker) := by
    obtain ⟨hrc, rfl⟩ | ⟨-, -, hrelease⟩ := hfirst
    · exact ⟨rfl, by simp, fun hok => absurd hok hrc⟩
    · obtain ⟨m, hm, rfl⟩ := Option.map_eq_some_iff.1 hrelease
      exact ⟨rfl, by simp, fun _ => Nesting.release_eq_some_iff.1 hm⟩
  -- and the one on the state database finds what was opened
  have hstates : c''.worker = c'.worker ∧ c''.db.worker = c'.db.worker ∧
      if rc2 = .ok then c''.state = s.state
      else c''.state = s.state.savepoint txn s.core.db.state := by
    obtain ⟨hrc, rfl⟩ | ⟨-, hrc, hrelease⟩ := hsecond
    · rw [if_neg hrc]
      exact ⟨rfl, by simp, hworker.1.trans hstate⟩
    · obtain ⟨l, hl, rfl⟩ := Option.map_eq_some_iff.1 hrelease
      rw [Connections.advance_state, hworker.1, hstate, Nesting.over_savepoint.release,
        Option.some.injEq] at hl
      rw [if_pos hrc]
      exact ⟨rfl, by simp, hl.symm⟩
  have hopen : c''.state = s.state ∨ c''.state = s.state.savepoint txn s.core.db.state := by
    have hopen := hstates.2.2
    split_ifs at hopen
    · exact .inl hopen
    · exact .inr hopen
  by_cases hok : rc = .ok ∧ rc2 = .ok
  · rw [if_pos hok, if_pos hok, traceless_ok_iff hactive.listing
      (by simpa [hstates, hworker] using hstored)]
    have hreleased := hstates.2.2
    rw [if_pos hok.2] at hreleased
    obtain ⟨w, hover⟩ := hworker.2.2 hok.1
    constructor
    · rintro ⟨hsame, -, hauth⟩
      exact ⟨⟨w, (hstates.1.symm.trans hsame) ▸ hover⟩, hauth⟩
    · rintro ⟨⟨w', hover'⟩, hauth⟩
      exact ⟨hstates.1.trans (hover.unique hover').2, hreleased, hauth⟩
  · rw [if_neg hok, if_neg hok]
    refine traceless_rollback_iff hactive ?_ hopen
    split_ifs with hrc
    · simp
    · exact hrc

theorem traceless_outcome_iff {e : Connections.Exit D} (hactive : s.Active)
    (hstopped : Stopped nodeId nonce s.connections e) :
    Traceless nodeId nonce s (s.list nodeId nonce e.outcome) ↔ Clean nodeId nonce s e := by
  cases hstopped with
  | busy worker state data =>
      exact iff_of_true ((traceless_skipped_iff (.inl rfl) _).2
        ⟨worker, state, data.2, data.1⟩) trivial
  | half worker state data => exact traceless_half_iff worker state data
  | failed fails state => exact traceless_rollback_iff hactive fails (.inr state)
  | recorded state stored => exact traceless_recorded_iff hactive state stored

theorem stopped_toExit (codec : Codec) (eng : Engine (Connection D)) (s : Connected D)
    (nodeId nonce : ℤ) (log : Log) :
    Stopped nodeId nonce s.connections (s.toExit codec eng nodeId nonce log) :=
  stopped_executeToExit codec eng s.core.isFullNode s.core.authorizations
    s.core.activeBlock.height (buildTransactionId nodeId nonce) log s.connections

/-- A block stays open, with no savepoint of a transaction, where no trace is left. -/
theorem Traceless.active {codec : Codec} {eng : Engine (Connection D)} {log : Log}
    (h : Traceless nodeId nonce s (s.aergoliteExecuteTransaction codec eng nodeId nonce log))
    (hactive : s.Active) :
    (s.aergoliteExecuteTransaction codec eng nodeId nonce log).2.Active where
  listing := by
    unfold Connected.aergoliteExecuteTransaction Connected.list listTransaction
    dsimp only
    split_ifs <;> simp [hactive.listing]
  worker := h.worker.symm ▸ hactive.worker
  state := h.state.symm ▸ hactive.state

/-! ## Where it holds -/

/-- The body of a transaction, when no command fails and its statements use savepoints of other
names. -/
theorem executeBody_over {control : Statement → Option Connections.Control} (codec : Codec)
    (eng : Engine D) (auths : List NodeAuth) (height nodeId : ℤ) (log : Log) {c : Connections D}
    {w : Worker D} {m : Nesting Text (Worker D)} (hfaults : c.db.faults = [])
    (hother : Connections.OtherNames control m) (h : c.worker.Over txn w m) :
    let r := c.executeBody codec (Connections.withSavepoints control eng) auths height nodeId log
    r.2.db.faults = [] ∧ r.2.worker.Over txn w m := by
  unfold Connections.executeBody
  split_ifs with hspecial
  · have hframe := executeBody_frame codec eng height nodeId log auths hfaults
    rw [executeBody, if_pos hspecial] at hframe
    exact ⟨hframe.1, h⟩
  · exact ⟨hfaults, Connections.executeCommands_over hother (by exact h) (commandsToRun log)⟩

theorem undone_of_no_faults {rc : Rc} {c : Connections D} (hfaults : c.db.faults = [])
    (hover : c.worker.Over txn s.core.db.worker s.worker)
    (hstate : c.state = s.state.savepoint txn s.core.db.state)
    (hrow : hasRow s.core.db.worker.nodes nodeId = true)
    (hauth : (aergoliteGetAuthorization s.core.authorizations nodeId).isSome = true) :
    Undone nodeId nonce s rc c := by
  have hopen : c.state.Over txn s.core.db.state s.state := hstate ▸ Nesting.over_savepoint
  have hcommand : c.rollback.db.command.1 = .ok := by
    rw [Connections.rollback_db hover hopen, rollbackToSavepoint_of_no_faults hfaults]
    simp [hfaults]
  refine ⟨s.core.db.worker, ?_, ?_⟩
  · unfold Connections.RollsBack
    rw [if_neg hopen.not_free]
    exact ⟨by simp [Databases.Obliges, hfaults], hover⟩
  · split_ifs
    · exact ⟨rfl, hrow, hauth, .inl hcommand⟩
    · rfl

theorem clean_recorded_of_no_faults {c : Connections D} (hfaults : c.db.faults = [])
    (hover : c.worker.Over txn s.core.db.worker s.worker)
    (hstate : c.state = s.state.savepoint txn s.core.db.state)
    (hauth : (aergoliteGetAuthorization s.core.authorizations nodeId).isSome = true) :
    Clean nodeId nonce s (.recorded c) := by
  have hopen : c.state.Over txn s.core.db.state s.state := hstate ▸ Nesting.over_savepoint
  have hfirst := Connections.control_releaseWorker hover
  unfold Clean
  dsimp only
  generalize c.control Connections.releaseWorker = r at hfirst ⊢
  obtain ⟨hcode, hdb, -, hstates⟩ := hfirst
  have hsecond := Connections.control_releaseState (hstates.symm ▸ hopen)
  rw [command_of_no_faults hfaults] at hcode hdb
  rw [hdb, command_of_no_faults hfaults] at hsecond
  rw [hcode, hsecond.1, if_pos ⟨rfl, rfl⟩]
  exact ⟨⟨_, hover⟩, hauth⟩

/-- **Nothing fails but the transaction**: no trace is left, whatever the transaction does with
savepoints of other names, if its node has a row and an authorization. -/
theorem clean_of_other_names {control : Statement → Option Connections.Control} (codec : Codec)
    (eng : Engine D) (log : Log) (hfaults : s.core.db.faults = [])
    (hother : Connections.OtherNames control s.worker)
    (hrow : hasRow s.core.db.worker.nodes nodeId = true)
    (hauth : (aergoliteGetAuthorization s.core.authorizations nodeId).isSome = true) :
    Clean nodeId nonce s
      (s.toExit codec (Connections.withSavepoints control eng) nodeId nonce log) := by
  unfold Connected.toExit Connections.executeToExit
  dsimp only
  have hcommand : s.connections.db.command = (.ok, s.connections.db) := command_of_no_faults hfaults
  have hfirst := s.connections.control_savepointWorker
  generalize s.connections.control Connections.savepointWorker = r at hfirst ⊢
  obtain ⟨hcode, hdb, hworkers, hstates⟩ := hfirst
  rw [hcommand] at hcode hdb
  rw [hcommand, if_pos rfl] at hworkers
  have hsecond := r.2.control_savepointState
  generalize r.2.control Connections.savepointState = r2 at hsecond ⊢
  obtain ⟨hcode2, hdb2, hworkers2, hstates2⟩ := hsecond
  rw [hdb, hcommand] at hcode2 hdb2
  rw [hdb, hcommand, if_pos rfl, hstates] at hstates2
  rw [hcode, hcode2, if_neg (by simp), if_neg (by simp)]
  have hopen : r2.2.worker.Over txn s.core.db.worker s.worker := by
    rw [hworkers2, hworkers]
    exact Nesting.over_savepoint
  have hbody := executeBody_over codec eng s.core.authorizations s.core.activeBlock.height nodeId
    log (hdb2 ▸ hfaults) hother hopen
  have hstate := Connections.executeBody_state codec (Connections.withSavepoints control eng)
    s.core.authorizations s.core.activeBlock.height nodeId log r2.2
  generalize Connections.executeBody codec (Connections.withSavepoints control eng)
    s.core.authorizations s.core.activeBlock.height nodeId log r2.2 = body at hbody hstate ⊢
  obtain ⟨hnone, hover⟩ := hbody
  rw [hstates2] at hstate
  by_cases hfails : body.1 ≠ .ok
  · rw [if_pos hfails]
    exact undone_of_no_faults hnone hover hstate hrow hauth
  rw [if_neg hfails]
  obtain ⟨hnone, -⟩ := recordTransaction_of_no_faults s.core.isFullNode
    s.core.activeBlock.height nodeId nonce (buildTransactionId nodeId nonce) log hnone
  generalize recordTransaction s.core.isFullNode s.core.activeBlock.height nodeId nonce
    (buildTransactionId nodeId nonce) log body.2.db = record at hnone ⊢
  by_cases hrecord : record.1 ≠ .ok
  · rw [if_pos hrecord]
    exact undone_of_no_faults hnone hover hstate hrow hauth
  rw [if_neg hrecord]
  exact clean_recorded_of_no_faults hnone hover hstate hauth

/-- An engine that counts the statements it executes, up to one that fails. -/
def countingEngine : Engine ℕ where
  toSyntax := plainSyntax
  compile _ _ := .ok
  step worker _ st :=
    if st = .sql "FAIL".toList then (.constraint, worker.data) else (.ok, worker.data + 1)

/-- The statement `SAVEPOINT txn`. -/
def savepointTxn : Statement → Option Connections.Control := fun st =>
  if st = .sql "SAVEPOINT txn".toList then some (.savepoint txn) else none

/-- An open block of one node. -/
def countingBlock : Connected ℕ :=
  let worker : Worker ℕ := ⟨[⟨1, [], 1, "light".toList, 0⟩], [], 0⟩
  { core := {
      id := 1
      pubkey := List.replicate 33 1
      hasPrivkey := true
      isFullNode := false
      adminPubkey := List.replicate 33 9
      authorizations := [⟨List.replicate 33 1, 1, false, 1, 0, 0⟩]
      db := ⟨worker, ⟨[], []⟩, [], false, false, 0⟩
      saved := some (worker, ⟨[], []⟩)
      blockHeight := 1
      blockId := []
      activeBlock := ⟨2, [], [], none⟩
      txnIds := some [] }
    worker := ⟨some worker, []⟩
    state := ⟨some ⟨[], []⟩, []⟩ }

end Core
end AergoLite
