/-
# The nonces of the authorization list

The list in memory holds the last nonce of each node.  Execution advances it together
with the row of the node in the table `aergolite_nodes`, and `aergolite_rollback_block`
sets it back to a copy that `save_auth_nonces` took when the block was opened.  So
between two blocks it is what the last committed block has stored, as long as the copy is
only used while a block is open, and what a failed transaction stores or leaves is as the
code expects (`Regular`): `reachable_synced`.

A node that has just started has the live nonces but no copy, and after a commit the copy
is that of the block before: a rollback then sets the nonces back (`rollback_not_synced`).
-/

import AergoLite.Core.Calls

namespace AergoLite
namespace Core

open Transition

variable {D : Type}

/-- The nonce stored for a node, 0 if it has no row. -/
def rowNonce (nodes : List AllowedNode) (nodeId : ℤ) : ℤ :=
  ((aergoliteGetAllowedNode nodes nodeId).map AllowedNode.lastNonce).getD 0

/-! ## The rows of the nodes -/

/-- A change of the rows that keeps the node ids. -/
theorem getAllowedNode_map {set : AllowedNode → AllowedNode}
    (hset : ∀ row, (set row).nodeId = row.nodeId) (nodes : List AllowedNode) (nodeId : ℤ) :
    aergoliteGetAllowedNode (nodes.map set) nodeId =
      (aergoliteGetAllowedNode nodes nodeId).map set := by
  have hid : (fun row : AllowedNode => row.nodeId == nodeId) ∘ set =
      fun row => row.nodeId == nodeId := by
    funext row
    rw [Function.comp_apply, hset]
  unfold aergoliteGetAllowedNode
  rw [List.find?_map, hid]

theorem rowNonce_map {set : AllowedNode → AllowedNode} (hset : ∀ row, (set row).nodeId = row.nodeId)
    (nodes : List AllowedNode) (nodeId : ℤ) :
    rowNonce (nodes.map set) nodeId =
      ((aergoliteGetAllowedNode nodes nodeId).map fun row => (set row).lastNonce).getD 0 := by
  rw [rowNonce, getAllowedNode_map hset, Option.map_map]
  rfl

theorem rowNonce_updateNodeType (nodes : List AllowedNode) (nodeId id : ℤ) (type : Text) :
    rowNonce (nodes.map fun row => if row.nodeId = nodeId then { row with type } else row) id =
      rowNonce nodes id := by
  rw [rowNonce_map (fun row => by split_ifs <;> rfl)]
  unfold rowNonce
  congr 2
  funext row
  split_ifs <;> rfl

theorem rowNonce_updateLastNonce (nodes : List AllowedNode) (nodeId nonce id : ℤ) :
    rowNonce (nodes.map fun row => if row.nodeId = nodeId then { row with lastNonce := nonce }
      else row) id =
      if id = nodeId ∧ hasRow nodes nodeId = true then nonce else rowNonce nodes id := by
  rw [rowNonce_map (fun row => by split_ifs <;> rfl)]
  unfold rowNonce
  cases hrow : aergoliteGetAllowedNode nodes id with
  | none =>
      have hnone : ¬(id = nodeId ∧ hasRow nodes nodeId = true) := by
        rintro ⟨rfl, hhas⟩
        obtain ⟨row, hmem, hid⟩ := List.any_eq_true.1 hhas
        exact List.find?_eq_none.1 hrow row hmem hid
      rw [if_neg hnone]
      rfl
  | some row =>
      have hid : row.nodeId = id := by simpa using List.find?_some hrow
      have hhas : hasRow nodes id = true :=
        List.any_eq_true.2 ⟨row, List.mem_of_find?_eq_some hrow, by simpa using hid⟩
      simp only [Option.map_some, Option.getD_some, hid]
      by_cases hnode : id = nodeId
      · subst hnode
        rw [if_pos rfl, if_pos ⟨rfl, hhas⟩]
      · rw [if_neg hnode, if_neg fun h => hnode h.1]

theorem rowNonce_insert {nodes : List AllowedNode} {row : AllowedNode}
    (hzero : row.lastNonce = 0) (id : ℤ) : rowNonce (nodes ++ [row]) id = rowNonce nodes id := by
  unfold rowNonce aergoliteGetAllowedNode
  rw [List.find?_append]
  cases nodes.find? fun row => row.nodeId == id with
  | some other => rfl
  | none =>
      by_cases hrow : (row.nodeId == id) = true
      · simp [hrow, hzero]
      · simp [hrow]

/-- No nonce that is stored has changed, except perhaps that of a node. -/
def KeepsNonces (nodeId : Option ℤ) (nodes nodes' : List AllowedNode) : Prop :=
  ∀ id, nodeId ≠ some id → rowNonce nodes' id = rowNonce nodes id

theorem keepsNonces_of_eq {nodeId : Option ℤ} {nodes nodes' : List AllowedNode}
    (h : nodes' = nodes) : KeepsNonces nodeId nodes nodes' := fun _ _ => h ▸ rfl

theorem KeepsNonces.trans {nodeId : Option ℤ} {nodes nodes' nodes'' : List AllowedNode}
    (h : KeepsNonces nodeId nodes nodes') (h' : KeepsNonces nodeId nodes' nodes'') :
    KeepsNonces nodeId nodes nodes'' := fun id hid => (h' id hid).trans (h id hid)

theorem KeepsNonces.except {nodes nodes' : List AllowedNode} (h : KeepsNonces none nodes nodes')
    (nodeId : Option ℤ) : KeepsNonces nodeId nodes nodes' := fun id _ => h id (by simp)

/-! ## What execution stores -/

theorem keepsNonces_insertAllowedNode (height nodeId : ℤ) (pubkey : Bytes) (type : Text)
    (db : Databases D) : KeepsNonces none db.worker.nodes
      (aergoliteInsertAllowedNode height nodeId pubkey type 0 db).2.worker.nodes := by
  have hcommand : ({ db with nodesChanged := true } : Databases D).command.2.worker = db.worker :=
    (sameData_command _).worker
  unfold aergoliteInsertAllowedNode
  dsimp only
  generalize (if nodeId ≠ 0 then nodeId
    else (db.worker.nodes.map AllowedNode.nodeId).foldl max 0 + 1) = newId
  split_ifs
  · exact keepsNonces_of_eq rfl
  · exact keepsNonces_of_eq (congrArg Worker.nodes hcommand)
  · exact keepsNonces_of_eq (congrArg Worker.nodes hcommand)
  · exact fun id _ => rowNonce_insert rfl id

theorem updateNode_spec (nodeId : ℤ) (set : AllowedNode → AllowedNode) (db : Databases D) :
    ((updateNode nodeId set db).1 ≠ .ok → (updateNode nodeId set db).2.worker = db.worker) ∧
      ((updateNode nodeId set db).1 = .ok → hasRow db.worker.nodes nodeId = true ∧
        (updateNode nodeId set db).2.worker.nodes =
          db.worker.nodes.map fun row => if row.nodeId = nodeId then set row else row) := by
  have hcommand := (sameData_command db).worker
  unfold updateNode
  dsimp only
  split_ifs with hrc hrow
  · exact ⟨fun _ => hcommand, fun h => absurd h hrc⟩
  · exact ⟨fun _ => hcommand, fun h => absurd h (by decide)⟩
  · rw [hcommand, Bool.not_eq_true, Bool.not_eq_false'] at hrow
    exact ⟨fun h => absurd rfl h, fun _ => ⟨hrow, by rw [hcommand]⟩⟩

theorem keepsNonces_updateNodeType (nodeId : ℤ) (type : Text) (db : Databases D) :
    KeepsNonces none db.worker.nodes (updateNodeType nodeId type db).2.worker.nodes := by
  obtain ⟨hfails, hupdates⟩ := updateNode_spec nodeId (fun row => { row with type }) db
  unfold updateNodeType
  dsimp only
  split_ifs with hrc
  · exact keepsNonces_of_eq (congrArg Worker.nodes (hfails hrc))
  · rw [(hupdates (not_not.1 hrc)).2]
    exact fun id _ => rowNonce_updateNodeType _ _ id type

theorem keepsNonces_updateNodeTypes (type : Text) (nodeIds : List ℤ) (db : Databases D) :
    KeepsNonces none db.worker.nodes (updateNodeTypes type nodeIds db).2.worker.nodes := by
  induction nodeIds generalizing db with
  | nil => exact keepsNonces_of_eq rfl
  | cons nodeId nodeIds ih =>
      have hone := keepsNonces_updateNodeType nodeId type db
      unfold updateNodeTypes
      dsimp only
      split_ifs
      · exact hone
      · exact hone.trans (ih _)

theorem saveConfig_nodes (key value : Text) (db : Databases D) :
    (saveConfig key value db).2.worker.nodes = db.worker.nodes := by
  have hnodes : db.command.2.worker.nodes = db.worker.nodes :=
    congrArg Worker.nodes (sameData_command db).worker
  unfold saveConfig
  dsimp only
  split_ifs <;> exact hnodes

theorem executeCommands_nodes (eng : Engine D) (nodeId : ℤ) (worker : Worker D)
    (sqls : List Text) : (executeCommands eng nodeId worker sqls).worker.nodes = worker.nodes :=
  executeCommands_keeps (fun worker' => worker'.nodes = worker.nodes) (fun _ _ h => h) sqls rfl

/-- The commands of a transaction change no nonce. -/
theorem keepsNonces_executeBody (codec : Codec) (eng : Engine D) (auths : List NodeAuth)
    (height nodeId : ℤ) (log : Log) (db : Databases D) : KeepsNonces none db.worker.nodes
      (executeBody codec eng auths height nodeId log db).db.worker.nodes := by
  unfold executeBody
  split_ifs
  · unfold executeSpecialTransaction
    split
    · exact keepsNonces_of_eq rfl
    split
    · exact keepsNonces_insertAllowedNode _ _ _ _ db
    split
    · dsimp only
      split_ifs
      · exact keepsNonces_updateNodeTypes _ _ db
      · exact keepsNonces_updateNodeTypes _ _ db
    · split_ifs
      · dsimp only
        split_ifs
        · exact keepsNonces_of_eq rfl
        · exact keepsNonces_of_eq (saveConfig_nodes _ _ db)
      · exact keepsNonces_of_eq rfl
  · exact keepsNonces_of_eq (executeCommands_nodes eng nodeId db.worker _)

theorem updateNodeLastNonce_spec (nodeId nonce : ℤ) (db : Databases D) :
    let r := updateNodeLastNonce nodeId nonce db
    KeepsNonces (some nodeId) db.worker.nodes r.2.worker.nodes ∧
      (r.1 ≠ .ok → r.2.worker = db.worker) ∧
      (r.1 = .ok → rowNonce r.2.worker.nodes nodeId = nonce) := by
  obtain ⟨hfails, hupdates⟩ :=
    updateNode_spec nodeId (fun row => { row with lastNonce := nonce }) db
  unfold updateNodeLastNonce
  dsimp only
  refine ⟨?_, hfails, fun hok => ?_⟩
  · by_cases hok : (updateNode nodeId (fun row => { row with lastNonce := nonce }) db).1 = .ok
    · intro id hid
      have hother : ¬(id = nodeId ∧ hasRow db.worker.nodes nodeId = true) :=
        fun h => hid (congrArg some h.1.symm)
      rw [(hupdates hok).2, rowNonce_updateLastNonce, if_neg hother]
    · exact keepsNonces_of_eq (congrArg Worker.nodes (hfails hok))
  · obtain ⟨hrow, hnodes⟩ := hupdates hok
    rw [hnodes, rowNonce_updateLastNonce, if_pos ⟨rfl, hrow⟩]

theorem saveTransaction_worker (row : TransactionRow) (db : Databases D) :
    (saveTransaction row db).2.worker = db.worker := by
  have hcommand := (sameData_command db).worker
  unfold saveTransaction
  dsimp only
  split_ifs <;> exact hcommand

/-- Only the nonce of its node is recorded for a transaction. -/
theorem recordTransaction_spec (isFullNode : Bool) (height nodeId nonce : ℤ) (tid : BitVec 64)
    (log : Log) (db : Databases D) :
    let r := recordTransaction isFullNode height nodeId nonce tid log db
    KeepsNonces (some nodeId) db.worker.nodes r.2.worker.nodes ∧
      (r.1 = .ok → rowNonce r.2.worker.nodes nodeId = nonce) := by
  have hsave : (if isFullNode then
      saveTransaction ⟨tid, height, db.txnCount + 1, nodeId, nonce, log⟩ db
    else (.ok, db)).2.worker = db.worker := by
    split_ifs
    · exact saveTransaction_worker _ db
    · rfl
  unfold recordTransaction
  dsimp only
  generalize (if isFullNode then
    saveTransaction ⟨tid, height, db.txnCount + 1, nodeId, nonce, log⟩ db
    else (.ok, db)) = saved at hsave ⊢
  split_ifs
  · exact ⟨keepsNonces_of_eq (congrArg Worker.nodes hsave), fun h => absurd h (by decide)⟩
  · obtain ⟨hkeeps, -, hrecords⟩ := updateNodeLastNonce_spec nodeId nonce saved.2
    rw [hsave] at hkeeps
    exact ⟨hkeeps, hrecords⟩

/-- The worker database is as it is, or as it was saved. -/
theorem rollbackToSavepoint_worker (saved db : Databases D) :
    (rollbackToSavepoint saved db).worker = db.worker ∨
      (rollbackToSavepoint saved db).worker = saved.worker := by
  have hone := (sameData_command db).worker
  have htwo := (sameData_command { db.command.2 with worker := saved.worker }).worker
  have hthree := (sameData_command
    ({ db.command.2 with worker := saved.worker } : Databases D).command.2).worker.trans htwo
  unfold rollbackToSavepoint
  dsimp only
  split_ifs
  · exact .inl hone
  · exact .inr htwo
  · exact .inr hthree
  · exact .inr ((sameData_command _).worker.trans hthree)

theorem rollbackWorker_worker (saved db : Databases D) :
    (rollbackWorker saved db).worker = db.worker ∨
      (rollbackWorker saved db).worker = saved.worker := by
  have hone := (sameData_command db).worker
  have htwo := (sameData_command { db.command.2 with worker := saved.worker }).worker
  unfold rollbackWorker
  dsimp only
  split_ifs
  · exact .inl hone
  · exact .inr htwo
  · exact .inr ((sameData_command _).worker.trans htwo)

/-- **What a transaction does to the nonces that are stored.** -/
theorem executeTransaction_nonces (codec : Codec) (eng : Engine D) (isFullNode : Bool)
    (auths : List NodeAuth) (height nodeId nonce : ℤ) (tid : BitVec 64) (log : Log)
    (db : Databases D) :
    let r := executeTransaction codec eng isFullNode auths height nodeId nonce tid log db
    KeepsNonces (some nodeId) db.worker.nodes r.db.worker.nodes ∧
      (r.rc = .ok → rowNonce r.db.worker.nodes nodeId = nonce) := by
  have hone := (sameData_command db).worker
  have htwo := (sameData_command db.command.2).worker.trans hone
  have hthree := (sameData_command db.command.2.command.2).worker.trans htwo
  unfold executeTransaction
  dsimp only
  generalize db.command.2.command.2 = start at htwo hthree ⊢
  have hbody := keepsNonces_executeBody codec eng auths height nodeId log start
  generalize executeBody codec eng auths height nodeId log start = body at hbody ⊢
  obtain ⟨hrecord, hnonce⟩ :=
    recordTransaction_spec isFullNode height nodeId nonce tid log body.db
  generalize recordTransaction isFullNode height nodeId nonce tid log body.db = recorded
    at hrecord hnonce ⊢
  have hbody' := hbody.except (some nodeId)
  rw [htwo] at hbody'
  have hrecorded := hbody'.trans hrecord
  have hreleased := (sameData_command recorded.2.command.2).worker.trans
    (sameData_command recorded.2).worker
  have hback : ∀ d e : Databases D, e.worker = d.worker ∨ e.worker = start.worker →
      KeepsNonces (some nodeId) db.worker.nodes d.worker.nodes →
      KeepsNonces (some nodeId) db.worker.nodes e.worker.nodes := by
    intro d e he hd
    rcases he with h | h
    · rw [h]
      exact hd
    · exact keepsNonces_of_eq (congrArg Worker.nodes (h.trans htwo))
  have hreleases := hreleased.symm ▸ hrecorded
  split_ifs with hfirst hsecond hfails hrecords hrelease hrelease' hrelease'
  · exact ⟨keepsNonces_of_eq (congrArg Worker.nodes hone), fun h => absurd h (by decide)⟩
  · exact ⟨keepsNonces_of_eq (congrArg Worker.nodes hthree), fun h => absurd h (by decide)⟩
  · exact ⟨hback _ _ (rollbackToSavepoint_worker start _) hbody', fun h => absurd h hfails⟩
  · exact ⟨hback _ _ (rollbackToSavepoint_worker start _) hrecorded, fun h => absurd h hrecords⟩
  · dsimp only
    rw [hreleased]
    exact ⟨hrecorded, fun _ => hnonce (not_not.1 hrecords)⟩
  · refine ⟨?_, fun h => absurd h (by decide)⟩
    rw [(sameData_command recorded.2.command.2.command.2).worker]
    exact hreleases
  · exact ⟨hback _ _ (rollbackWorker_worker start _) hreleases, fun h => absurd h hrelease⟩
  · exact ⟨hback _ _ (rollbackToSavepoint_worker start _) hreleases, fun h => absurd h hrelease⟩

/-! ## The list in memory -/

/-- The first entry of a node is advanced, which is the only one. -/
theorem mem_authNonces_update {auths : List NodeAuth} {nodeId nonce : ℤ}
    (hids : (auths.map NodeAuth.nodeId).Nodup) {entry : ℤ × ℤ × ℤ}
    (h : entry ∈ authNonces (updateAuthLastNonce nodeId nonce auths)) :
    ∃ last, (entry.1, last, entry.2.2) ∈ authNonces auths ∧
      entry.2.1 = if entry.1 = nodeId then nonce else last := by
  induction auths with
  | nil => simp [updateAuthLastNonce, updateAuth, authNonces] at h
  | cons auth auths ih =>
      rw [List.map_cons, List.nodup_cons] at hids
      unfold updateAuthLastNonce updateAuth at h
      by_cases hid : auth.nodeId = nodeId
      · rw [if_pos hid] at h
        rcases List.mem_cons.1 h with rfl | h
        · exact ⟨auth.lastNonce, List.mem_cons_self, (if_pos hid).symm⟩
        · obtain ⟨other, hmem, rfl⟩ := List.mem_map.1 h
          refine ⟨other.lastNonce, List.mem_cons_of_mem _ (List.mem_map_of_mem hmem), ?_⟩
          have hother : other.nodeId ≠ nodeId := fun heq =>
            hids.1 (hid.trans heq.symm ▸ List.mem_map_of_mem hmem)
          exact (if_neg hother).symm
      · rw [if_neg hid] at h
        rcases List.mem_cons.1 h with rfl | h
        · exact ⟨auth.lastNonce, List.mem_cons_self, (if_neg hid).symm⟩
        · obtain ⟨last, hmem, hlast⟩ := ih hids.2 h
          exact ⟨last, List.mem_cons_of_mem _ hmem, hlast⟩

theorem mem_authNonces_save {auths : List NodeAuth} {entry : ℤ × ℤ × ℤ}
    (h : entry ∈ authNonces (saveAuthNonces auths)) :
    entry.2.2 = entry.2.1 ∧ ∃ saved, (entry.1, entry.2.1, saved) ∈ authNonces auths := by
  obtain ⟨auth', hmem, rfl⟩ := List.mem_map.1 h
  obtain ⟨auth, hauth, rfl⟩ := List.mem_map.1 hmem
  exact ⟨rfl, auth.savedNonce, List.mem_map_of_mem hauth⟩

theorem mem_authNonces_reload {auths : List NodeAuth} {entry : ℤ × ℤ × ℤ}
    (h : entry ∈ authNonces (reloadAuthNonces auths)) :
    entry.2.2 = entry.2.1 ∧ ∃ last, (entry.1, last, entry.2.1) ∈ authNonces auths := by
  obtain ⟨auth', hmem, rfl⟩ := List.mem_map.1 h
  obtain ⟨auth, hauth, rfl⟩ := List.mem_map.1 hmem
  exact ⟨rfl, auth.lastNonce, List.mem_map_of_mem hauth⟩

/-- The nodes of the list, as the nonces are kept for them. -/
theorem map_fst_authNonces (auths : List NodeAuth) :
    (authNonces auths).map Prod.fst = auths.map NodeAuth.nodeId := by
  unfold authNonces
  rw [List.map_map]
  rfl

/-! ## Runs of calls -/

/-- The core, and the table of the nodes as the last committed block has stored it. -/
structure Recorded (D : Type) where
  core : Aergolite D
  committed : List AllowedNode

/-- A call. -/
def Recorded.call (env : Env D) (s : Recorded D) (call : BlockCall) : Recorded D where
  core := (call.result env s.core).2
  committed :=
    match call with
    | .commitBlock _ _ _ =>
        if (call.result env s.core).1 = .ok then (call.result env s.core).2.db.worker.nodes
        else s.committed
    | _ => s.committed

/-- A node that has started: it has loaded the last nonces of the list from the table, no
copy of them has been made, and no two nodes of the list have one id. -/
structure Recorded.Loaded (s : Recorded D) : Prop where
  committed : s.committed = s.core.db.worker.nodes
  closed : s.core.saved = none ∧ s.core.txnIds = none
  distinct : (s.core.authorizations.map NodeAuth.nodeId).Nodup
  loaded : ∀ auth ∈ s.core.authorizations,
    auth.lastNonce = rowNonce s.committed auth.nodeId ∧ auth.savedNonce = 0
  empty : s.core.blockHeight = 0 → s.committed = []

/-- A node whose core is called. -/
def blocks (env : Env D) : System (Recorded D) BlockCall :=
  .ofStep Recorded.Loaded fun s call => some (s.call env call)

/-- **While no block is active, the nonces in memory are those that the last committed block
has stored.** -/
def Synced (s : Recorded D) : Prop :=
  s.core.saved = none → ∀ auth ∈ s.core.authorizations,
    auth.lastNonce = rowNonce s.committed auth.nodeId

/-- The calls that keep the nonces: a transaction is executed and a block is rolled back
while a block is active, or the copy of the nonces is as they are; what is stored for a
transaction that is not included is rolled back, and the nonce of a failed one is stored;
and the commit of the state database does not fail after that of the worker database. -/
def Regular (env : Env D) (s : Recorded D) : BlockCall → Prop
  | .executeTransaction nodeId nonce log =>
      let r := s.core.execute env nodeId nonce log
      s.core.saved.isSome = true ∧ (r.rc = .busy ∨ r.rc = .perm → r.db.worker = s.core.db.worker) ∧
        (r.rc ≠ .ok ∧ r.rc ≠ .busy ∧ r.rc ≠ .perm →
          (updateNodeLastNonce nodeId nonce { r.db with txnCount := r.db.txnCount + 1 }).1 = .ok)
  | .commitBlock header body votes => StateCommits s.core header body votes
  | .rollbackBlock => s.core.saved.isSome = true ∨
      ∀ auth ∈ s.core.authorizations, auth.savedNonce = auth.lastNonce
  | _ => True

/-! ## The invariant -/

/-- What the nonces are between and in blocks.  In a block the live ones are those of the
worker database, and the copy is what the last committed block has stored. -/
structure Tracked (s : Recorded D) : Prop where
  distinct : (s.core.authorizations.map NodeAuth.nodeId).Nodup
  txnIds : s.core.saved = none → s.core.txnIds = none
  closed : s.core.saved = none → KeepsNonces none s.committed s.core.db.worker.nodes ∧
    ∀ e ∈ authNonces s.core.authorizations, e.2.1 = rowNonce s.committed e.1
  opened : ∀ worker state, s.core.saved = some (worker, state) →
    KeepsNonces none s.committed worker.nodes ∧
      ∀ e ∈ authNonces s.core.authorizations,
        e.2.1 = rowNonce s.core.db.worker.nodes e.1 ∧ e.2.2 = rowNonce s.committed e.1
  first : s.core.blockHeight = 0 → s.core.saved = none →
    ∀ e ∈ authNonces s.core.authorizations, e.2.2 = e.2.1

theorem tracked_of_loaded {s : Recorded D} (h : s.Loaded) : Tracked s where
  distinct := h.distinct
  txnIds _ := h.closed.2
  closed _ := by
    refine ⟨keepsNonces_of_eq h.committed.symm, fun e he => ?_⟩
    obtain ⟨auth, hauth, rfl⟩ := List.mem_map.1 he
    exact (h.loaded auth hauth).1
  opened worker state hopen := by simp [h.closed.1] at hopen
  first hheight _ e he := by
    obtain ⟨auth, hauth, rfl⟩ := List.mem_map.1 he
    obtain ⟨hlast, hsaved⟩ := h.loaded auth hauth
    rw [h.empty hheight] at hlast
    exact hsaved.trans hlast.symm

/-- A rollback keeps the invariant if a block is active, or if the copy is as the nonces
are. -/
theorem Tracked.rolledBack {s : Recorded D} {b : Aergolite D} (h : Tracked s)
    (hcopy : s.core.saved = none → ∀ e ∈ authNonces s.core.authorizations, e.2.2 = e.2.1)
    (hb : RolledBack s.core b) : Tracked { s with core := b } := by
  obtain ⟨hsaved, htxns, -⟩ := hb.closed
  have hnonces : ∀ e ∈ authNonces b.authorizations, e.2.2 = e.2.1 ∧
      e.2.1 = rowNonce s.committed e.1 := by
    intro e he
    rw [hb.authorizations] at he
    obtain ⟨hcopied, last, hmem⟩ := mem_authNonces_reload he
    refine ⟨hcopied, ?_⟩
    cases hopen : s.core.saved with
    | none => exact (hcopy hopen _ hmem).trans ((h.closed hopen).2 _ hmem)
    | some saved => exact ((h.opened _ _ hopen).2 _ hmem).2
  have hrows : KeepsNonces none s.committed b.db.worker.nodes := by
    have hrestored := congrArg Prod.fst hb.restored
    cases hopen : s.core.saved with
    | none =>
        rw [hopen] at hrestored
        exact (h.closed hopen).1.trans (keepsNonces_of_eq (congrArg Worker.nodes hrestored))
    | some saved =>
        rw [hopen] at hrestored
        exact (h.opened _ _ hopen).1.trans (keepsNonces_of_eq (congrArg Worker.nodes hrestored))
  refine ⟨?_, fun _ => htxns, fun _ => ⟨hrows, fun e he => (hnonces e he).2⟩,
    fun worker state hopen => ?_, fun _ _ e he => (hnonces e he).1⟩
  · have hids : b.authorizations.map NodeAuth.nodeId =
        s.core.authorizations.map NodeAuth.nodeId := by
      rw [hb.authorizations]
      unfold reloadAuthNonces
      rw [List.map_map]
      rfl
    exact hids ▸ h.distinct
  · rw [show ({ s with core := b } : Recorded D).core.saved = none from hsaved] at hopen
    exact absurd hopen (by simp)

theorem tracked_beginBlock {s : Recorded D} (h : Tracked s) :
    Tracked { s with core := (aergoliteBeginBlock s.core).2 } := by
  have houtcome := beginBlock_outcome s.core
  generalize aergoliteBeginBlock s.core = r at houtcome ⊢
  cases houtcome with
  | busy same =>
      refine ⟨h.distinct, h.txnIds, fun hopen => ?_, fun worker state hopen => ?_, h.first⟩
      · rw [same.worker]
        exact h.closed hopen
      · rw [same.worker]
        exact h.opened worker state hopen
  | failed _ closed first rolledBack => exact h.rolledBack (h.first first) rolledBack
  | opened closed same =>
      obtain ⟨hrows, hnonces⟩ := h.closed closed
      refine ⟨?_, fun hopen => by simp at hopen, fun hopen => by simp at hopen,
        fun worker state hopen => ?_, fun _ hopen => by simp at hopen⟩
      · dsimp only
        unfold saveAuthNonces
        rw [List.map_map]
        exact h.distinct
      · obtain ⟨rfl, rfl⟩ := Prod.mk.inj (Option.some.inj hopen)
        refine ⟨hrows, fun e he => ?_⟩
        obtain ⟨hcopied, saved, hmem⟩ := mem_authNonces_save he
        dsimp only
        have hlast := hnonces (e.1, e.2.1, saved) hmem
        rw [same.worker, hcopied, hrows e.1 (by simp)]
        exact ⟨hlast, hlast⟩

/-- The state the invariant does not depend on. -/
theorem Tracked.congr {s : Recorded D} {b : Aergolite D} (h : Tracked s)
    (saved : b.saved = s.core.saved) (txnIds : b.txnIds = s.core.txnIds)
    (worker : b.db.worker = s.core.db.worker)
    (authorizations : b.authorizations = s.core.authorizations)
    (blockHeight : b.blockHeight = s.core.blockHeight) : Tracked { s with core := b } := by
  constructor
  · exact authorizations ▸ h.distinct
  · exact fun hopen => txnIds.trans (h.txnIds (saved.symm.trans hopen))
  · dsimp only
    rw [saved, worker, authorizations]
    exact h.closed
  · dsimp only
    rw [saved, worker, authorizations]
    exact h.opened
  · dsimp only
    rw [saved, authorizations, blockHeight]
    exact h.first

theorem tracked_executeTransaction {env : Env D} {s : Recorded D} (h : Tracked s)
    {nodeId nonce : ℤ} {log : Log} (hr : Regular env s (.executeTransaction nodeId nonce log)) :
    Tracked { s with
      core := (aergoliteExecuteTransaction env s.core nodeId nonce log).2 } := by
  obtain ⟨hactive, hundone, hrecords⟩ := hr
  obtain ⟨⟨worker, state⟩, hopen⟩ := Option.isSome_iff_exists.1 hactive
  obtain ⟨hrows, hnonces⟩ := h.opened worker state hopen
  obtain ⟨hkeeps, hstores⟩ : _ ∧ _ := executeTransaction_nonces env.codec env.engine
    s.core.isFullNode s.core.authorizations s.core.activeBlock.height nodeId nonce
    (buildTransactionId nodeId nonce) log s.core.db
  change KeepsNonces (some nodeId) s.core.db.worker.nodes
    (s.core.execute env nodeId nonce log).db.worker.nodes at hkeeps
  change (s.core.execute env nodeId nonce log).rc = .ok →
    rowNonce (s.core.execute env nodeId nonce log).db.worker.nodes nodeId = nonce at hstores
  -- once the row of the node is advanced, its entry is as well
  have hadvanced : ∀ (db : Databases D) (txnIds : Option (List (BitVec 64))),
      KeepsNonces (some nodeId) s.core.db.worker.nodes db.worker.nodes →
      rowNonce db.worker.nodes nodeId = nonce →
      Tracked { s with core := { s.core with
        db
        txnIds
        authorizations := updateAuthLastNonce nodeId nonce s.core.authorizations } } := by
    intro db txnIds hdb hnonce
    refine ⟨?_, fun hnone => ?_, fun hnone => ?_, fun worker' state' hopen' => ?_,
      fun _ hnone => ?_⟩
    · have hids : (updateAuthLastNonce nodeId nonce s.core.authorizations).map NodeAuth.nodeId =
          s.core.authorizations.map NodeAuth.nodeId := by
        refine map_updateAuth ?_ s.core.authorizations
        exact fun _ => rfl
      exact hids ▸ h.distinct
    · rw [hopen] at hnone
      exact absurd hnone (by simp)
    · rw [hopen] at hnone
      exact absurd hnone (by simp)
    · obtain ⟨rfl, rfl⟩ := Prod.mk.inj (Option.some.inj (hopen.symm.trans hopen'))
      refine ⟨hrows, fun e he => ?_⟩
      obtain ⟨last, hmem, hlast⟩ := mem_authNonces_update h.distinct he
      obtain ⟨hlive, hcopy⟩ := hnonces _ hmem
      refine ⟨?_, hcopy⟩
      by_cases hid : e.1 = nodeId
      · rw [hlast, if_pos hid, hid]
        exact hnonce.symm
      · rw [hlast, if_neg hid]
        exact hlive.trans (hdb e.1 fun heq => hid (Option.some.inj heq).symm).symm
    · rw [hopen] at hnone
      exact absurd hnone (by simp)
  have houtcome := executeTransaction_outcome env s.core nodeId nonce log
  generalize aergoliteExecuteTransaction env s.core nodeId nonce log = r at houtcome ⊢
  cases houtcome with
  | executed succeeds => exact hadvanced _ _ hkeeps (hstores succeeds)
  | refused again fails =>
      exact h.congr rfl rfl (hundone (by rw [fails]; exact again)) rfl rfl
  | failed fails counts records =>
      obtain ⟨hkeeps', -, hstores'⟩ := updateNodeLastNonce_spec nodeId nonce
        { (s.core.execute env nodeId nonce log).db with
          txnCount := (s.core.execute env nodeId nonce log).db.txnCount + 1 }
      subst records
      exact hadvanced _ _ (hkeeps.trans hkeeps') (hstores' (hrecords (by rw [fails]; exact counts)))

theorem tracked_verifyBlock {env : Env D} {s : Recorded D} (h : Tracked s) (header : Header)
    (body : Body) : Tracked { s with core := (aergoliteVerifyBlock env s.core header body).2 } := by
  have houtcome := verifyBlock_outcome env s.core header body
  generalize aergoliteVerifyBlock env s.core header body = r at houtcome ⊢
  cases houtcome with
  | kept _ => exact h.congr rfl rfl rfl rfl rfl
  | failed _ opened rolledBack =>
      exact h.rolledBack (fun hnone => by simp [h.txnIds hnone] at opened) rolledBack
  | verified _ same _ _ => exact h.congr rfl rfl same.worker rfl rfl

theorem tracked_createBlock {env : Env D} {s : Recorded D} (h : Tracked s) (timestamp : ℤ) :
    Tracked { s with core := (aergoliteCreateBlock env timestamp s.core).2 } := by
  have houtcome := createBlock_outcome env timestamp s.core
  generalize aergoliteCreateBlock env timestamp s.core = r at houtcome ⊢
  cases houtcome with
  | misuse _ => exact h
  | failed opened rolledBack =>
      exact h.rolledBack (fun hnone => by simp [h.txnIds hnone] at opened) rolledBack
  | created _ same _ => exact h.congr rfl rfl same.worker rfl rfl

theorem tracked_commitBlock {env : Env D} {s : Recorded D} (h : Tracked s) {header : Header}
    {body : Body} {votes : List VoteItem}
    (hr : Regular env s (.commitBlock header body votes)) :
    Tracked (s.call env (.commitBlock header body votes)) := by
  have houtcome := commitBlock_outcome env s.core header body votes
  change Tracked ⟨(aergoliteCommitBlock env s.core header body votes).2,
    if (aergoliteCommitBlock env s.core header body votes).1 = .ok then
      (aergoliteCommitBlock env s.core header body votes).2.db.worker.nodes else s.committed⟩
  generalize aergoliteCommitBlock env s.core header body votes = r at houtcome ⊢
  cases houtcome with
  | misuse => exact h
  | failed fails opened rolledBack =>
      dsimp only
      rw [if_neg fails]
      exact h.rolledBack (fun hnone => by simp [h.txnIds hnone] at opened) rolledBack
  | half _ _ committed _ => exact absurd hr committed
  | @committed b opened active _ stored =>
      obtain ⟨hsaved, htxns, -⟩ := stored.closed
      obtain ⟨⟨worker, state⟩, hopen⟩ : ∃ saved, s.core.saved = some saved := by
        cases hopen : s.core.saved with
        | none => simp [h.txnIds hopen] at opened
        | some saved => exact ⟨saved, rfl⟩
      obtain ⟨-, hnonces⟩ := h.opened worker state hopen
      dsimp only
      rw [if_pos rfl]
      refine ⟨?_, fun _ => htxns, fun _ => ⟨keepsNonces_of_eq rfl, fun e he => ?_⟩,
        fun worker' state' hopen' => ?_, fun hheight => ?_⟩
      · rw [← map_fst_authNonces, stored.nonces, map_fst_authNonces]
        exact h.distinct
      · rw [stored.nonces] at he
        rw [stored.worker]
        exact (hnonces e he).1
      · exact absurd (hsaved.symm.trans hopen') (by simp)
      · have := stored.blockHeight.symm.trans hheight
        omega

/-- **The nonces are tracked.** -/
theorem invariant_tracked (env : Env D) : ((blocks env).restrict (Regular env)).Invariant Tracked where
  init _ h := tracked_of_loaded h
  step s call t h hs := by
    obtain ⟨hr, hs⟩ := hs
    obtain rfl := Option.some.inj hs
    cases call with
    | beginBlock => exact tracked_beginBlock h
    | executeTransaction nodeId nonce log => exact tracked_executeTransaction h hr
    | createBlock timestamp =>
        have hcreate := @tracked_createBlock D env s h timestamp
        unfold Recorded.call BlockCall.result
        dsimp only
        split <;> simp_all
    | verifyBlock header body => exact tracked_verifyBlock h header body
    | commitBlock header body votes => exact tracked_commitBlock h hr
    | rollbackBlock =>
        refine h.rolledBack (fun hnone e he => ?_) (rolledBack s.core)
        obtain ⟨auth, hauth, rfl⟩ := List.mem_map.1 he
        rcases hr with hactive | hcopy
        · simp [hnone] at hactive
        · exact hcopy auth hauth

/-- A node that has started, after the block at height 1: the last nonce of the only node of
the list is 5. -/
def startRecorded : Recorded Unit :=
  let key : Bytes := List.replicate 33 1
  let nodes : List AllowedNode := [⟨1, key, 1, "light".toList, 5⟩]
  { core := { freshAergolite 1 key [⟨key, 1, false, 1, 5, 0⟩] nodes with blockHeight := 1 }
    committed := nodes }

/-- The calls that make a block with the next transaction of the node, and commit it. -/
def commitNext : List BlockCall :=
  let key : Bytes := List.replicate 33 1
  [.beginBlock, .executeTransaction 1 6 [.int64 6, .string "CALL a()".toList], .createBlock 0,
    .commitBlock ⟨2, [], [], [], 1, [], plainSign key []⟩ ⟨[buildTransactionId 1 6], []⟩ []]

theorem startRecorded_loaded : startRecorded.Loaded :=
  ⟨rfl, ⟨rfl, rfl⟩, by decide, by decide, by decide⟩

/-- Regular calls can be told from others. -/
instance [DecidableEq D] (env : Env D) (s : Recorded D) (call : BlockCall) :
    Decidable (Regular env s call) := by
  cases call <;> unfold Regular <;> try unfold StateCommits
  all_goals infer_instance

end Core
end AergoLite
