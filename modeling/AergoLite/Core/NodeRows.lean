/-
# The rows of the nodes in a block

While a block is open the table `aergolite_nodes` changes in two ways.  A transaction advances
the nonce of its node, which the list in memory follows at once; and a special transaction adds
a row or changes a type, which the list does not follow before the commit.  The mark
`nodes_changed` says whether it has to: whatever is rolled back meanwhile, a table that is not
marked has the keys, the blocks and the types it had when the block was opened
(`marked_executeTransaction`).
-/

import AergoLite.Core.Nonces

namespace AergoLite
namespace Core

variable {D : Type}

/-- What a row says of its node, the nonce apart. -/
def nodeFacts (nodes : List AllowedNode) : List (ℤ × Bytes × ℤ × Text) :=
  nodes.map fun row => (row.nodeId, row.pubkey, row.firstBlock, row.type)

/-- The ids of the rows. -/
def nodeIds (nodes : List AllowedNode) : List ℤ := nodes.map AllowedNode.nodeId

theorem nodeIds_eq (nodes : List AllowedNode) : nodeIds nodes = (nodeFacts nodes).map Prod.fst := by
  unfold nodeIds nodeFacts
  rw [List.map_map]
  rfl

/-- The nonce of a row is the one that is stored for its node. -/
theorem rowNonce_of_mem {rows : List AllowedNode} {row : AllowedNode}
    (hids : (nodeIds rows).Nodup) (hrow : row ∈ rows) :
    rowNonce rows row.nodeId = row.lastNonce := by
  have hfind : aergoliteGetAllowedNode rows row.nodeId = some row := by
    induction rows with
    | nil => exact absurd hrow List.not_mem_nil
    | cons head tail ih =>
        unfold nodeIds at hids
        rw [List.map_cons, List.nodup_cons] at hids
        unfold aergoliteGetAllowedNode
        rw [List.find?_cons]
        rcases List.mem_cons.1 hrow with rfl | hmem
        · rw [beq_self_eq_true]
        · have hne : (head.nodeId == row.nodeId) = false :=
            beq_eq_false_iff_ne.2 fun heq => hids.1 (heq ▸ List.mem_map_of_mem hmem)
          rw [hne]
          exact ih hids.2 hmem
  unfold rowNonce
  rw [hfind]
  rfl

theorem rowNonce_of_not_mem {rows : List AllowedNode} {nodeId : ℤ} (h : nodeId ∉ nodeIds rows) :
    rowNonce rows nodeId = 0 := by
  have hfind : aergoliteGetAllowedNode rows nodeId = none := by
    refine List.find?_eq_none.2 fun row hrow heq => h ?_
    exact beq_iff_eq.1 heq ▸ List.mem_map_of_mem hrow
  unfold rowNonce
  rw [hfind]
  rfl

/-- **What a part of a transaction does to the rows**: the ids stay distinct, and what is not
marked as changed is not changed. -/
structure Marked (db db' : Databases D) : Prop where
  distinct : (nodeIds db.worker.nodes).Nodup → (nodeIds db'.worker.nodes).Nodup
  marked : db'.nodesChanged = false →
    db.nodesChanged = false ∧ nodeFacts db'.worker.nodes = nodeFacts db.worker.nodes

theorem Marked.trans {db db' db'' : Databases D} (h : Marked db db') (h' : Marked db' db'') :
    Marked db db'' where
  distinct hids := h'.distinct (h.distinct hids)
  marked hflag := by
    obtain ⟨hflag', hfacts'⟩ := h'.marked hflag
    obtain ⟨hflag'', hfacts⟩ := h.marked hflag'
    exact ⟨hflag'', hfacts'.trans hfacts⟩

/-- The rows are the same. -/
theorem marked_of_nodes {db db' : Databases D} (hnodes : db'.worker.nodes = db.worker.nodes)
    (hflag : db'.nodesChanged = false → db.nodesChanged = false) : Marked db db' :=
  ⟨fun hids => hnodes ▸ hids, fun h => ⟨hflag h, hnodes ▸ rfl⟩⟩

theorem Marked.refl (db : Databases D) : Marked db db := marked_of_nodes rfl id

theorem nodesChanged_command (db : Databases D) :
    db.command.2.nodesChanged = db.nodesChanged := by
  unfold Databases.command
  split <;> rfl

theorem marked_command (db : Databases D) : Marked db db.command.2 :=
  marked_of_nodes (congrArg Worker.nodes (sameData_command db).worker)
    fun h => (nodesChanged_command db).symm.trans h

/-- A row is added for a node that has none. -/
theorem nodup_insert {nodes : List AllowedNode} {row : AllowedNode}
    (hnew : hasRow nodes row.nodeId = false) (h : (nodeIds nodes).Nodup) :
    (nodeIds (nodes ++ [row])).Nodup := by
  unfold nodeIds
  rw [List.map_append, List.map_singleton]
  refine List.nodup_append.2 ⟨h, List.nodup_singleton _, fun id hid id' hid' heq => ?_⟩
  obtain ⟨other, hother, rfl⟩ := List.mem_map.1 hid
  have hsame : other.nodeId = row.nodeId := heq.trans (List.mem_singleton.1 hid')
  have hhas : hasRow nodes row.nodeId = true :=
    List.any_eq_true.2 ⟨other, hother, beq_iff_eq.2 hsame⟩
  rw [hnew] at hhas
  exact Bool.false_ne_true hhas

theorem marked_insertAllowedNode (height nodeId : ℤ) (pubkey : Bytes) (type : Text)
    (lastNonce : ℤ) (db : Databases D) :
    Marked db (aergoliteInsertAllowedNode height nodeId pubkey type lastNonce db).2 := by
  have hnodes : ({ db with nodesChanged := true } : Databases D).command.2.worker = db.worker :=
    (sameData_command _).worker
  have hflag : ({ db with nodesChanged := true } : Databases D).command.2.nodesChanged = true :=
    nodesChanged_command _
  unfold aergoliteInsertAllowedNode
  dsimp only
  generalize (if nodeId ≠ 0 then nodeId
    else (db.worker.nodes.map AllowedNode.nodeId).foldl max 0 + 1) = newId
  generalize ({ db with nodesChanged := true } : Databases D).command = inserted at hnodes hflag ⊢
  split_ifs with htype hrc hrow
  · exact .refl db
  · exact marked_of_nodes (congrArg Worker.nodes hnodes) fun h => absurd (hflag.symm.trans h) nofun
  · exact marked_of_nodes (congrArg Worker.nodes hnodes) fun h => absurd (hflag.symm.trans h) nofun
  · rw [Bool.not_eq_true] at hrow
    exact ⟨nodup_insert hrow, fun h => absurd (hflag.symm.trans h) nofun⟩

/-- An update of the rows that keeps their ids. -/
theorem nodeIds_updateRows (set : AllowedNode → AllowedNode) (nodeId : ℤ)
    (hset : ∀ row, (set row).nodeId = row.nodeId) (nodes : List AllowedNode) :
    nodeIds (nodes.map fun row => if row.nodeId = nodeId then set row else row) =
      nodeIds nodes := by
  unfold nodeIds
  rw [List.map_map]
  refine List.map_congr_left fun row _ => ?_
  rw [Function.comp_apply]
  split_ifs
  · exact hset row
  · rfl

theorem nodesChanged_updateNode (nodeId : ℤ) (set : AllowedNode → AllowedNode)
    (db : Databases D) : (updateNode nodeId set db).2.nodesChanged = db.nodesChanged := by
  unfold updateNode
  dsimp only
  split_ifs <;> exact nodesChanged_command db

theorem marked_updateNodeType (nodeId : ℤ) (type : Text) (db : Databases D) :
    Marked db (updateNodeType nodeId type db).2 := by
  obtain ⟨hfails, hupdates⟩ := updateNode_spec nodeId (fun row => { row with type }) db
  have hflag := nodesChanged_updateNode nodeId (fun row => { row with type }) db
  unfold updateNodeType
  dsimp only
  split_ifs with hrc
  · exact marked_of_nodes (congrArg Worker.nodes (hfails hrc)) fun h => hflag.symm.trans h
  · refine ⟨fun hids => ?_, fun h => absurd h nofun⟩
    dsimp only
    rw [(hupdates (not_not.1 hrc)).2,
      nodeIds_updateRows (fun row => { row with type }) nodeId fun _ => rfl]
    exact hids

theorem marked_updateNodeTypes (type : Text) (ids : List ℤ) (db : Databases D) :
    Marked db (updateNodeTypes type ids db).2 := by
  induction ids generalizing db with
  | nil => exact .refl db
  | cons nodeId ids ih =>
      have hone := marked_updateNodeType nodeId type db
      unfold updateNodeTypes
      dsimp only
      split_ifs
      · exact hone
      · exact hone.trans (ih _)

theorem marked_updateNodeLastNonce (nodeId nonce : ℤ) (db : Databases D) :
    Marked db (updateNodeLastNonce nodeId nonce db).2 := by
  obtain ⟨hfails, hupdates⟩ :=
    updateNode_spec nodeId (fun row => { row with lastNonce := nonce }) db
  have hflag := nodesChanged_updateNode nodeId (fun row => { row with lastNonce := nonce }) db
  unfold updateNodeLastNonce
  by_cases hrc : (updateNode nodeId (fun row => { row with lastNonce := nonce }) db).1 = .ok
  · have hnodes := (hupdates hrc).2
    refine ⟨fun hids => ?_, fun h => ⟨hflag.symm.trans h, ?_⟩⟩
    · rw [hnodes, nodeIds_updateRows (fun row => { row with lastNonce := nonce }) nodeId fun _ => rfl]
      exact hids
    · rw [hnodes]
      unfold nodeFacts
      rw [List.map_map]
      refine List.map_congr_left fun row _ => ?_
      rw [Function.comp_apply]
      split_ifs <;> rfl
  · exact marked_of_nodes (congrArg Worker.nodes (hfails hrc)) fun h => hflag.symm.trans h

theorem marked_saveConfig (key value : Text) (db : Databases D) :
    Marked db (saveConfig key value db).2 := by
  refine marked_of_nodes (saveConfig_nodes key value db) fun h => ?_
  have hflag := nodesChanged_command db
  unfold saveConfig at h
  dsimp only at h
  split_ifs at h <;> exact hflag.symm.trans h

theorem marked_saveTransaction (row : TransactionRow) (db : Databases D) :
    Marked db (saveTransaction row db).2 := by
  refine marked_of_nodes (congrArg Worker.nodes (saveTransaction_worker row db)) fun h => ?_
  have hflag := nodesChanged_command db
  unfold saveTransaction at h
  dsimp only at h
  split_ifs at h <;> exact hflag.symm.trans h

theorem marked_executeSpecialTransaction (codec : Codec) (auths : List NodeAuth) (height : ℤ)
    (log : Log) (db : Databases D) :
    Marked db (executeSpecialTransaction codec auths height log db).db := by
  unfold executeSpecialTransaction
  split
  · exact .refl db
  split
  · exact marked_insertAllowedNode _ _ _ _ _ db
  split
  · dsimp only
    split_ifs
    · exact (marked_updateNodeTypes _ _ db).trans (marked_of_nodes rfl id)
    · exact marked_updateNodeTypes _ _ db
  · split_ifs
    · dsimp only
      split_ifs
      · exact .refl db
      · exact marked_saveConfig _ _ db
    · exact .refl db

/-- The commands of the users do not change the rows. -/
theorem marked_executeBody (codec : Codec) (eng : Engine D) (auths : List NodeAuth)
    (height nodeId : ℤ) (log : Log) (db : Databases D) :
    Marked db (executeBody codec eng auths height nodeId log db).db := by
  unfold executeBody
  split_ifs
  · exact marked_executeSpecialTransaction codec auths height log db
  · exact marked_of_nodes (executeCommands_nodes eng nodeId db.worker _) id

theorem marked_recordTransaction (isFullNode : Bool) (height nodeId nonce : ℤ) (tid : BitVec 64)
    (log : Log) (db : Databases D) :
    Marked db (recordTransaction isFullNode height nodeId nonce tid log db).2 := by
  have hsave : Marked db (if isFullNode then
      saveTransaction ⟨tid, height, db.txnCount + 1, nodeId, nonce, log⟩ db else (.ok, db)).2 := by
    split_ifs
    · exact marked_saveTransaction _ db
    · exact .refl db
  unfold recordTransaction
  dsimp only
  generalize (if isFullNode then
    saveTransaction ⟨tid, height, db.txnCount + 1, nodeId, nonce, log⟩ db
    else (.ok, db)) = saved at hsave ⊢
  split_ifs
  · exact hsave
  · exact hsave.trans (marked_updateNodeLastNonce _ _ _)

/-- A rollback to the savepoint does not take the mark back. -/
theorem marked_rollbackToSavepoint {saved db : Databases D} (h : Marked saved db) :
    Marked saved (rollbackToSavepoint saved db) := by
  have hflag : (rollbackToSavepoint saved db).nodesChanged = db.nodesChanged := by
    unfold rollbackToSavepoint
    dsimp only
    split_ifs
    · exact nodesChanged_command db
    all_goals simp only [nodesChanged_command]
  rcases rollbackToSavepoint_worker saved db with hworker | hworker
  · exact h.trans (marked_of_nodes (congrArg Worker.nodes hworker) fun hf => hflag.symm.trans hf)
  · exact marked_of_nodes (congrArg Worker.nodes hworker)
      fun hf => (h.marked (hflag.symm.trans hf)).1

theorem marked_rollbackWorker {saved db : Databases D} (h : Marked saved db) :
    Marked saved (rollbackWorker saved db) := by
  have hflag : (rollbackWorker saved db).nodesChanged = db.nodesChanged := by
    unfold rollbackWorker
    dsimp only
    split_ifs
    all_goals simp only [nodesChanged_command]
  rcases rollbackWorker_worker saved db with hworker | hworker
  · exact h.trans (marked_of_nodes (congrArg Worker.nodes hworker) fun hf => hflag.symm.trans hf)
  · exact marked_of_nodes (congrArg Worker.nodes hworker)
      fun hf => (h.marked (hflag.symm.trans hf)).1

/-- **What a transaction does to the rows.** -/
theorem marked_executeTransaction (codec : Codec) (eng : Engine D) (isFullNode : Bool)
    (auths : List NodeAuth) (height nodeId nonce : ℤ) (tid : BitVec 64) (log : Log)
    (db : Databases D) :
    Marked db (executeTransaction codec eng isFullNode auths height nodeId nonce tid log db).db := by
  have hone := marked_command db
  have htwo := hone.trans (marked_command _)
  have hthree := htwo.trans (marked_command _)
  unfold executeTransaction
  dsimp only
  generalize db.command.2.command.2 = start at htwo hthree ⊢
  have hbody := marked_executeBody codec eng auths height nodeId log start
  generalize executeBody codec eng auths height nodeId log start = body at hbody ⊢
  have hrecord := hbody.trans
    (marked_recordTransaction isFullNode height nodeId nonce tid log body.db)
  generalize recordTransaction isFullNode height nodeId nonce tid log body.db = recorded
    at hrecord ⊢
  have hreleased := (hrecord.trans (marked_command _)).trans (marked_command _)
  split_ifs
  · exact hone
  · exact hthree
  · exact htwo.trans (marked_rollbackToSavepoint hbody)
  · exact htwo.trans (marked_rollbackToSavepoint hrecord)
  · exact (htwo.trans hreleased).trans (marked_of_nodes rfl id)
  · exact (htwo.trans hreleased).trans (marked_command _)
  · exact htwo.trans (marked_rollbackWorker hreleased)
  · exact htwo.trans (marked_rollbackToSavepoint hreleased)

end Core
end AergoLite
