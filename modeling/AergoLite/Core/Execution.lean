/-
# The execution of a transaction

`aergolite_execute_transaction` of `core/sqlite3.c` and what it calls.  A
transaction is executed between savepoints on the two databases: its commands on
the worker database, or the effect of its special command; on a full node a row
in the table `transactions`; and the nonce in the row of its node.  Whatever fails
rolls the savepoints back.  A transaction that failed is recorded as failed,
unless it is to be tried again (`SQLITE_BUSY`) or is refused (`SQLITE_PERM`).

Execution cannot change the authorization list but for the nonce of one entry:
the functions up to `executeTransaction` return the databases only.
-/

import AergoLite.Core.Pragmas
import AergoLite.Core.Statements

namespace AergoLite
namespace Core

variable {D : Type}

/-- What an executed transaction or a part of it returns: the statements that were
run, the result code and the databases. -/
structure Effect (D : Type) where
  ran : List Statement
  rc : Rc
  db : Databases D

/-- A statement of the core's own. -/
def systemStatement (sql : String) : Statement := .sql sql.toList

/-- There is a row for the node. -/
def hasRow (nodes : List AllowedNode) (nodeId : ℤ) : Bool :=
  nodes.any fun row => row.nodeId == nodeId

/-- `aergolite_insert_allowed_node`, in the block of a height.  The node id is the
primary key, chosen by the database if `0`. -/
def aergoliteInsertAllowedNode (height nodeId : ℤ) (pubkey : Bytes) (type : Text)
    (lastNonce : ℤ) (db : Databases D) : Rc × Databases D :=
  if !isValidNodeType type then (.invalid, db)
  else
    let nodes := db.worker.nodes
    let id := if nodeId ≠ 0 then nodeId else (nodes.map AllowedNode.nodeId).foldl max 0 + 1
    let (rc, db) := { db with nodesChanged := true }.command
    if rc ≠ .ok then (rc, db)
    else if hasRow nodes id then (.constraint, db)
    else (.ok, { db with worker := { db.worker with
      nodes := nodes ++ [⟨id, pubkey, height, type, lastNonce⟩] } })

/-- `UPDATE aergolite_nodes SET … WHERE node_id = ?`, `SQLITE_PERM` if there is no
such row. -/
def updateNode (nodeId : ℤ) (set : AllowedNode → AllowedNode) (db : Databases D) :
    Rc × Databases D :=
  let (rc, db) := db.command
  if rc ≠ .ok then (rc, db)
  else if !hasRow db.worker.nodes nodeId then (.perm, db)
  else (.ok, { db with worker := { db.worker with
    nodes := db.worker.nodes.map fun row => if row.nodeId = nodeId then set row else row } })

/-- `update_node_type`. -/
def updateNodeType (nodeId : ℤ) (type : Text) (db : Databases D) : Rc × Databases D :=
  let r := updateNode nodeId (fun row => { row with type }) db
  if r.1 ≠ .ok then r else (.ok, { r.2 with nodesChanged := true })

/-- `update_node_last_nonce`. -/
def updateNodeLastNonce (nodeId nonce : ℤ) (db : Databases D) : Rc × Databases D :=
  updateNode nodeId (fun row => { row with lastNonce := nonce }) db

/-- The loop over the nodes of a `pragma node_type`. -/
def updateNodeTypes (type : Text) : List ℤ → Databases D → Rc × Databases D
  | [], db => (.ok, db)
  | nodeId :: nodeIds, db =>
    let r := updateNodeType nodeId type db
    if r.1 ≠ .ok then (.invalid, r.2) else updateNodeTypes type nodeIds r.2

/-- `INSERT OR REPLACE INTO aergolite_config`, and the mark to reload it. -/
def saveConfig (key value : Text) (db : Databases D) : Rc × Databases D :=
  let (rc, db) := db.command
  if rc ≠ .ok then (rc, db)
  else (.ok, { db with
    worker := { db.worker with
      config := (db.worker.config.filter fun row => row.1 != key) ++ [(key, value)] }
    configChanged := true })

/-- `execute_special_transaction`. -/
def executeSpecialTransaction (codec : Codec) (auths : List NodeAuth) (height : ℤ) (log : Log)
    (db : Databases D) : Effect D :=
  match getTransactionItem BinnValue.string? log with
  | none => ⟨[], .invalid, db⟩
  | some sql =>
    match readNodeAuthorization codec sql with
    | .ok (pubkey, type) =>
        let r := aergoliteInsertAllowedNode height (codec.generateNodeIdFromPubkey pubkey)
          pubkey type 0 db
        ⟨[systemStatement "INSERT INTO aergolite_nodes"], r.1, r.2⟩
    | .error _ =>
      match readPragmaNodeType codec auths sql with
      | .ok (type, nodeIds, makeDefault) =>
          let r := updateNodeTypes type nodeIds db
          ⟨[systemStatement "UPDATE aergolite_nodes SET type"], r.1,
            if makeDefault && r.1 == .ok then { r.2 with configChanged := true } else r.2⟩
      | .error rc =>
        if startsWith sql anchoringPrefix then
          let config := sql.drop 17
          if !codec.parseAnchoringConfig config then ⟨[], .invalid, db⟩
          else
            let r := saveConfig "anchoring".toList config db
            ⟨[systemStatement "INSERT OR REPLACE INTO aergolite_config"], r.1, r.2⟩
        else ⟨[], rc, db⟩

/-- The loop of `execute_transaction` over the commands that it does not skip. -/
def executeCommands (eng : Engine D) (nodeId : ℤ) : Worker D → List Text → Executed D
  | worker, [] => ⟨[], .ok, worker⟩
  | worker, sql :: sqls =>
    let r := aergoliteExec eng worker sql nodeId
    if r.rc ≠ .ok then r
    else
      let next := executeCommands eng nodeId r.worker sqls
      { next with ran := r.ran ++ next.ran }

/-- What each statement keeps, the commands of a transaction keep. -/
theorem executeCommands_keeps (P : Worker D → Prop) {eng : Engine D} {nodeId : ℤ}
    (hstep : ∀ worker st, P worker → P { worker with data := (eng.step worker nodeId st).2 })
    {worker : Worker D} (sqls : List Text) (h : P worker) :
    P (executeCommands eng nodeId worker sqls).worker := by
  induction sqls generalizing worker with
  | nil => exact h
  | cons sql sqls ih =>
      unfold executeCommands
      dsimp only
      split_ifs
      · exact aergoliteExecLoop_keeps P hstep h
      · exact ih (aergoliteExecLoop_keeps P hstep h)

/-- `save_transaction`; the transaction id is the primary key. -/
def saveTransaction (row : TransactionRow) (db : Databases D) : Rc × Databases D :=
  let (rc, db) := db.command
  if rc ≠ .ok then (rc, db)
  else if db.state.transactions.any fun other => other.tid == row.tid then (.constraint, db)
  else (.ok, { db with state := { db.state with transactions := db.state.transactions ++ [row] } })

/-- The commands at `loc_rollback`: what was saved comes back, unless one of the
commands fails. -/
def rollbackToSavepoint (saved db : Databases D) : Databases D :=
  let (rc, db) := db.command
  if rc ≠ .ok then db
  else
    let (rc, db) := { db with worker := saved.worker }.command
    if rc ≠ .ok then db
    else
      let (rc, db) := db.command
      if rc ≠ .ok then db else { db with state := saved.state }.command.2

/-- The same commands where the savepoint of the state database is gone: the third one fails. -/
def rollbackWorker (saved db : Databases D) : Databases D :=
  let (rc, db) := db.command
  if rc ≠ .ok then db
  else
    let (rc, db) := { db with worker := saved.worker }.command
    if rc ≠ .ok then db else db.command.2

/-- The part of `execute_transaction` between the savepoints: the commands, or the
special command. -/
def executeBody (codec : Codec) (eng : Engine D) (auths : List NodeAuth) (height nodeId : ℤ)
    (log : Log) (db : Databases D) : Effect D :=
  if isSpecialTransaction log then executeSpecialTransaction codec auths height log db
  else
    let r := executeCommands eng nodeId db.worker (commandsToRun log)
    ⟨r.ran, r.rc, { db with worker := r.worker }⟩

/-- What `execute_transaction` records of a transaction whose commands succeeded:
the row of a full node, and the nonce. -/
def recordTransaction (isFullNode : Bool) (height nodeId nonce : ℤ) (tid : BitVec 64) (log : Log)
    (db : Databases D) : Rc × Databases D :=
  let r := if isFullNode then
    saveTransaction ⟨tid, height, db.txnCount + 1, nodeId, nonce, log⟩ db else (.ok, db)
  if r.1 ≠ .ok then (.busy, r.2) else updateNodeLastNonce nodeId nonce r.2

/-- `execute_transaction`. -/
def executeTransaction (codec : Codec) (eng : Engine D) (isFullNode : Bool)
    (auths : List NodeAuth) (height nodeId nonce : ℤ) (tid : BitVec 64) (log : Log)
    (db : Databases D) : Effect D :=
  let (rc, db) := db.command
  if rc ≠ .ok then ⟨[], .busy, db⟩
  else
    let (rc, db) := db.command
    if rc ≠ .ok then ⟨[], .busy, db.command.2⟩
    else
      let saved := db
      let body := executeBody codec eng auths height nodeId log db
      if body.rc ≠ .ok then ⟨body.ran, body.rc, rollbackToSavepoint saved body.db⟩
      else
        let (rc, db) := recordTransaction isFullNode height nodeId nonce tid log body.db
        if rc ≠ .ok then ⟨body.ran, rc, rollbackToSavepoint saved db⟩
        else
          -- the two savepoints are released one after the other, whatever the first returns, and
          -- the rollback stops at the first savepoint that is gone
          let (rc, db) := db.command
          let (rc2, db) := db.command
          if rc = .ok then
            if rc2 = .ok then ⟨body.ran, .ok, { db with txnCount := db.txnCount + 1 }⟩
            else ⟨body.ran, .error, db.command.2⟩
          else if rc2 = .ok then ⟨body.ran, rc, rollbackWorker saved db⟩
          else ⟨body.ran, rc, rollbackToSavepoint saved db⟩

/-- The statements a transaction runs are those of its commands. -/
theorem executeTransaction_ran {codec : Codec} {eng : Engine D} {isFullNode : Bool}
    {auths : List NodeAuth} {height nodeId nonce : ℤ} {tid : BitVec 64} {log : Log}
    {db : Databases D} {st : Statement}
    (h : st ∈ (executeTransaction codec eng isFullNode auths height nodeId nonce tid log db).ran) :
    ∃ db', st ∈ (executeBody codec eng auths height nodeId log db').ran := by
  unfold executeTransaction at h
  simp only at h
  split_ifs at h
  · simp at h
  · simp at h
  all_goals exact ⟨_, h⟩

/-- Without faults all of them are run. -/
theorem executeTransaction_ran_of_no_faults {codec : Codec} {eng : Engine D} {isFullNode : Bool}
    {auths : List NodeAuth} {height nodeId nonce : ℤ} {tid : BitVec 64} {log : Log}
    {db : Databases D} (h : db.faults = []) :
    (executeTransaction codec eng isFullNode auths height nodeId nonce tid log db).ran =
      (executeBody codec eng auths height nodeId log db).ran := by
  have hcommand : db.command = (.ok, db) := by simp [Databases.command, h]
  unfold executeTransaction
  simp only [hcommand, ne_eq, not_true_eq_false, ite_false]
  split_ifs <;> rfl

end Core
end AergoLite
