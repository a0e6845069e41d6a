/-
# The authorization list over runs

After a commit, a state update or a load, the list in memory should be what the table
`aergolite_nodes` says (`Consistent`): an entry for each row with its block, its type and its
last nonce, ids that are distinct and not 0, and in `is_full_node` the type of this node.

Of a full node it is not: `update_auth_type` returns when it has found the entry of the node,
and the lines that set `is_full_node` come after (`full_node_not_consistent`).  Otherwise it
depends on the runs.  A commit adds no entry, so the authorizations of the rows must be in the
list before it; the id of a node is 31 bits of a checksum, so two keys may have one; and a
special transaction on `wal-local` that is no authorization ends the load before the rows are
read.  `Safe` says what the calls of a run must avoid, and `consistent_iff_ownLight` that the list
is then consistent for all but full nodes.
-/

import AergoLite.Core.AuthorizationRefresh
import AergoLite.Core.NodeRows

namespace AergoLite
namespace Core

open Transition

variable {D : Type}

/-- **The list is consistent with the table.** -/
structure Consistent (a : Aergolite D) : Prop where
  recorded : ∀ row ∈ a.db.worker.nodes, ∃ auth ∈ a.authorizations, RecordsRow auth row ∧
    auth.lastNonce = row.lastNonce
  distinct : (a.authorizations.map NodeAuth.nodeId).Nodup
  nonzero : ∀ auth ∈ a.authorizations, auth.nodeId ≠ 0
  ownType : ∀ row ∈ a.db.worker.nodes, row.nodeId = a.id →
    a.isFullNode = (row.type == "full".toList)

/-! ## Runs -/

/-- What happens to a node: a call of the functions of a block, an authorization that arrives, a
state update, and a load of the databases, by the process that runs or by a new one. -/
inductive NodeCall (D : Type)
  | block (call : BlockCall)
  | newAuthorization (log : Log)
  | stateUpdate (queried : List AllowedNode) (column : ℤ → Log) (u : ReceivedState D)
  | load (fresh : Bool) (localTxns : List Log) (column : ℤ → Log)

/-- The process that loads the databases. -/
def Aergolite.process (a : Aergolite D) (fresh : Bool) : Aergolite D :=
  if fresh then newProcess a else a

/-- A call.  A new process whose load fails is not started. -/
def Recorded.step (env : Env D) (s : Recorded D) : NodeCall D → Option (Recorded D)
  | .block call => some (s.call env call)
  | .newAuthorization log =>
      (s.core.newAuthorization env log).map fun r => { s with core := r.2 }
  | .stateUpdate queried column u =>
      (aergoliteApplyStateUpdate env queried column u s.core).map fun r =>
        ⟨r.2, if r.1 = .ok then r.2.db.worker.nodes else s.committed⟩
  | .load fresh localTxns column =>
      (aergoliteLoadCurrentState env localTxns column (s.core.process fresh)).bind fun r =>
        if fresh = true ∧ r.1 ≠ .ok ∧ r.1 ≠ .empty then none else some { s with core := r.2 }

/-- The call is one of those that refresh the list, and it succeeds. -/
def NodeCall.Refreshes (env : Env D) (s : Recorded D) : NodeCall D → Prop
  | .block (.commitBlock header body votes) =>
      (aergoliteCommitBlock env s.core header body votes).1 = .ok
  | .stateUpdate queried column u =>
      ∃ b, aergoliteApplyStateUpdate env queried column u s.core = some (.ok, b)
  | .load fresh localTxns column =>
      ∃ b, aergoliteLoadCurrentState env localTxns column (s.core.process fresh) = some (.ok, b)
  | _ => False

/-- A node that is started for the first time: nothing is stored, and no node is authorized. -/
structure Recorded.New (s : Recorded D) : Prop where
  committed : s.committed = []
  nodes : s.core.db.worker.nodes = []
  closed : s.core.saved = none ∧ s.core.txnIds = none
  authorizations : s.core.authorizations = []
  isFullNode : s.core.isFullNode = false

/-- A node that is called, in any order. -/
def nodes (env : Env D) : System (Recorded D) (NodeCall D) := .ofStep Recorded.New (Recorded.step env)

/-! ## The condition -/

/-- The keys of the list. -/
def Aergolite.keys (a : Aergolite D) : List Bytes := a.authorizations.map NodeAuth.pk

/-- The nodes of the rows that a commit finds changed are in the list, and the rows can be
queried. -/
structure SafeCommit (a : Aergolite D) (header : Header) (body : Body) (votes : List VoteItem) :
    Prop where
  listed : ∀ row ∈ a.db.worker.nodes, (row.nodeId, row.pubkey) ∈ authKeys a.authorizations
  query : (storeBlock (a.row header body votes) a.db).2.command.2.command.1 = .ok

/-- No block is begun while one is open that has changed the rows. -/
def SafeBlock (a : Aergolite D) : BlockCall → Prop
  | .beginBlock => a.saved.isSome = true → a.db.nodesChanged = false
  | .commitBlock header body votes => a.db.nodesChanged = true → SafeCommit a header body votes
  | _ => True

/-- A node that is authorized has an id of its own, and no transaction yet. -/
def SafeAuthorization (env : Env D) (s : Recorded D) (log : Log) : Prop :=
  ∀ pk ∈ authorizedKey env s.core.adminPubkey log, pk ∉ s.core.keys →
    Distinct env.codec (pk :: s.core.keys) ∧
      rowNonce s.committed (env.codec.generateNodeIdFromPubkey pk) = 0 ∧
      rowNonce s.core.db.worker.nodes (env.codec.generateNodeIdFromPubkey pk) = 0

/-- The rows of a state update are authorized, the nodes with transactions stay, and what is saved
is committed and can be queried. -/
structure SafeUpdate (env : Env D) (a : Aergolite D) (column : ℤ → Log) (u : ReceivedState D) :
    Prop where
  distinct : Distinct env.codec (a.keys ++ u.worker.nodes.map AllowedNode.pubkey)
  rows : RowsAuthorized env a.adminPubkey (a.keys ++ u.worker.nodes.map AllowedNode.pubkey) column
    u.worker.nodes
  used : ∀ auth ∈ a.authorizations, auth.lastNonce ≠ 0 → auth.nodeId ∈ nodeIds u.worker.nodes
  height : u.header.height ≠ 0
  commits : (saveState u.row a.db.command.2).1 = .ok →
    (saveState u.row a.db.command.2).2.command.1 = .ok
  query : (saveState u.row a.db.command.2).2.command.2.command.1 = .ok

/-- The keys that a load adds to those of the list. -/
def loadedKeys (env : Env D) (localTxns : List Log) (a : Aergolite D) : List Bytes :=
  a.keys ++ localTxns.filterMap (authorizedKey env a.adminPubkey) ++
    a.db.worker.nodes.map AllowedNode.pubkey

/-- A block is stored, so the rows are loaded. -/
def hasState (blocks : List BlockRow) : Bool :=
  (lastBlock blocks).any fun block => block.height != 0

/-- No block is open; the special transactions on `wal-local` are authorizations and the rows are
authorized; what is queried is found; and there are no rows without a block. -/
structure SafeLoad (env : Env D) (localTxns : List Log) (column : ℤ → Log) (a : Aergolite D) :
    Prop where
  closed : a.saved = none
  distinct : Distinct env.codec (loadedKeys env localTxns a)
  specials : LocalAuthorized env a.adminPubkey (loadedKeys env localTxns a) localTxns
  rows : RowsAuthorized env a.adminPubkey (loadedKeys env localTxns a) column a.db.worker.nodes
  queries : a.db.command.1 = .ok ∧ a.db.command.2.command.1 = .ok ∧
    a.db.command.2.command.2.command.1 = .ok
  height : ∀ block ∈ lastBlock a.db.state.blocks, block.header.height ≠ 0
  empty : hasState a.db.state.blocks = false → a.db.worker.nodes = []

/-- **The calls that keep the list.**  A process that has no block does not load the databases again
once they hold one. -/
def Safe (env : Env D) (s : Recorded D) : NodeCall D → Prop
  | .block call => Regular env s call ∧ SafeBlock s.core call
  | .newAuthorization log => SafeAuthorization env s log
  | .stateUpdate _ column u => SafeUpdate env s.core column u
  | .load fresh localTxns column => SafeLoad env localTxns column (s.core.process fresh) ∧
      (fresh = false → s.core.blockHeight = 0 → hasState s.core.db.state.blocks = false)

/-- The rows that a call refreshes the list from. -/
def NodeCall.rows (s : Recorded D) : NodeCall D → List AllowedNode
  | .stateUpdate _ _ u => u.worker.nodes
  | .load fresh _ _ => (s.core.process fresh).db.worker.nodes
  | _ => s.core.db.worker.nodes

/-- This node is not a full node. -/
def OwnLight (id : ℤ) (rows : List AllowedNode) : Prop :=
  ∀ row ∈ rows, row.nodeId = id → row.type ≠ "full".toList

/-! ## The invariant -/

/-- The list describes the rows. -/
structure Listed (auths : List NodeAuth) (rows : List AllowedNode) : Prop where
  ids : (nodeIds rows).Nodup
  entries : ∀ row ∈ rows, ∃ auth, aergoliteGetAuthorization auths row.nodeId = some auth ∧
    RecordsRow auth row

/-- What the list is between and in blocks.  In a block it describes the rows as they were when
the block was opened, and the mark says whether they are the same. -/
structure Mirrored (env : Env D) (a : Aergolite D) : Prop where
  keyed : Keyed env.codec a.keys (authKeys a.authorizations)
  distinct : Distinct env.codec a.keys
  isFullNode : a.isFullNode = false
  closed : a.saved = none → Listed a.authorizations a.db.worker.nodes
  opened : ∀ worker state, a.saved = some (worker, state) →
    Listed a.authorizations worker.nodes ∧ (nodeIds a.db.worker.nodes).Nodup ∧
      (a.db.nodesChanged = false → nodeFacts a.db.worker.nodes = nodeFacts worker.nodes)

/-- The list without the nonces. -/
def withoutNonces (auths : List NodeAuth) : List NodeAuth :=
  auths.map fun auth => { auth with
    lastNonce := 0
    savedNonce := 0 }

@[simp] theorem withoutNonces_saveAuthNonces (auths : List NodeAuth) :
    withoutNonces (saveAuthNonces auths) = withoutNonces auths := by
  simp [withoutNonces, saveAuthNonces]

@[simp] theorem withoutNonces_reloadAuthNonces (auths : List NodeAuth) :
    withoutNonces (reloadAuthNonces auths) = withoutNonces auths := by
  simp [withoutNonces, reloadAuthNonces]

@[simp] theorem withoutNonces_updateAuthLastNonce (nodeId nonce : ℤ) (auths : List NodeAuth) :
    withoutNonces (updateAuthLastNonce nodeId nonce auths) = withoutNonces auths := by
  refine map_updateAuth ?_ auths
  exact fun _ => rfl

theorem authKeys_withoutNonces (auths : List NodeAuth) :
    authKeys (withoutNonces auths) = authKeys auths := by
  simp [authKeys, withoutNonces]

/-- The nonces do not matter. -/
theorem Listed.congr_auths {auths auths' : List NodeAuth} {rows : List AllowedNode}
    (h : Listed auths rows) (heq : withoutNonces auths' = withoutNonces auths) :
    Listed auths' rows := by
  have hfind : ∀ (as : List NodeAuth) (nodeId : ℤ),
      aergoliteGetAuthorization (withoutNonces as) nodeId =
        (aergoliteGetAuthorization as nodeId).map fun auth => { auth with
          lastNonce := 0
          savedNonce := 0 } := getAuthorization_map fun _ => rfl
  refine ⟨h.ids, fun row hrow => ?_⟩
  obtain ⟨auth, hauth, hrecords⟩ := h.entries row hrow
  have hsome := hfind auths' row.nodeId
  rw [heq, hfind, hauth, Option.map_some] at hsome
  obtain ⟨auth', hauth', hsame⟩ := Option.map_eq_some_iff.1 hsome.symm
  obtain ⟨hid, hpk, hsince, htype⟩ := hrecords
  refine ⟨auth', hauth', ?_, ?_, ?_, ?_⟩
  · exact (congrArg NodeAuth.nodeId hsame).trans hid
  · exact (congrArg NodeAuth.pk hsame).trans hpk
  · exact (congrArg NodeAuth.sinceBlock hsame).trans hsince
  · exact (congrArg NodeAuth.isFullNode hsame).trans htype

/-- Nor do the nonces of the rows. -/
theorem Listed.congr_rows {auths : List NodeAuth} {rows rows' : List AllowedNode}
    (h : Listed auths rows) (heq : nodeFacts rows' = nodeFacts rows) : Listed auths rows' := by
  have hrow : ∀ row' ∈ rows', ∃ row ∈ rows, row.nodeId = row'.nodeId ∧ row.pubkey = row'.pubkey ∧
      row.firstBlock = row'.firstBlock ∧ row.type = row'.type := by
    intro row' hmem
    have hfacts : (row'.nodeId, row'.pubkey, row'.firstBlock, row'.type) ∈ nodeFacts rows' :=
      List.mem_map_of_mem (f := fun row : AllowedNode =>
        (row.nodeId, row.pubkey, row.firstBlock, row.type)) hmem
    rw [heq] at hfacts
    obtain ⟨row, hrow, hsame⟩ := List.mem_map.1 hfacts
    simp only [Prod.mk.injEq] at hsame
    exact ⟨row, hrow, hsame⟩
  refine ⟨?_, fun row' hmem => ?_⟩
  · rw [nodeIds_eq, heq, ← nodeIds_eq]
    exact h.ids
  · obtain ⟨row, hmem, hid, hpk, hsince, htype⟩ := hrow row' hmem
    obtain ⟨auth, hauth, hrecords⟩ := h.entries row hmem
    rw [hid] at hauth
    exact ⟨auth, hauth, hrecords.nodeId.trans hid, hrecords.pk.trans hpk,
      hrecords.sinceBlock.trans hsince, htype ▸ hrecords.isFullNode⟩

/-- **Between two blocks the list is consistent if this node is not a full node.** -/
theorem consistent_iff_of_mirrored {env : Env D} {s : Recorded D} (ht : Tracked s)
    (hm : Mirrored env s.core) (hclosed : s.core.saved = none) :
    Consistent s.core ↔ OwnLight s.core.id s.core.db.worker.nodes := by
  have hlisted := hm.closed hclosed
  obtain ⟨hrows, hnonces⟩ := ht.closed hclosed
  constructor
  · intro h row hrow hid hfull
    have hown := h.ownType row hrow hid
    rw [hm.isFullNode, hfull, beq_self_eq_true] at hown
    exact Bool.false_ne_true hown
  · intro hown
    refine ⟨fun row hrow => ?_, ht.distinct, fun auth hauth => ?_, fun row hrow hid => ?_⟩
    · obtain ⟨auth, hauth, hrecords⟩ := hlisted.entries row hrow
      obtain ⟨hmem, hid⟩ := aergoliteGetAuthorization_some hauth
      have hnonce := hnonces _ (List.mem_map_of_mem hmem)
      dsimp only at hnonce
      refine ⟨auth, hmem, hrecords, hnonce.trans ?_⟩
      rw [← hrows auth.nodeId (by simp), hid]
      exact rowNonce_of_mem hlisted.ids hrow
    · have hid := hm.keyed.ids _ (List.mem_map_of_mem hauth)
      dsimp only at hid
      rw [hid]
      exact (hm.distinct auth.pk (List.mem_map_of_mem hauth)).1
    · rw [hm.isFullNode, eq_comm, beq_eq_false_iff_ne]
      exact hown row hrow hid

/-! ## The calls of a block -/

theorem keys_eq (a : Aergolite D) : a.keys = (authKeys a.authorizations).map Prod.snd :=
  map_pk_eq a.authorizations

/-- The entries of a list are those of its own keys. -/
theorem keyed_keys {codec : Codec} {auths : List NodeAuth} {keys : List Bytes}
    (hkeyed : Keyed codec keys (authKeys auths)) (hdistinct : Distinct codec keys) :
    Keyed codec (auths.map NodeAuth.pk) (authKeys auths) ∧
      Distinct codec (auths.map NodeAuth.pk) := by
  rw [map_pk_eq]
  have hknown : ∀ pk ∈ (authKeys auths).map Prod.snd, pk ∈ keys := by
    intro pk hpk
    obtain ⟨entry, hentry, rfl⟩ := List.mem_map.1 hpk
    exact hkeyed.known entry hentry
  exact ⟨⟨hkeyed.ids, fun entry hentry => List.mem_map_of_mem hentry, hkeyed.once⟩,
    hdistinct.mono hknown⟩

/-- The nonces are not part of the keys. -/
theorem Mirrored.keyed_of_auths {env : Env D} {a : Aergolite D} (h : Mirrored env a)
    {auths : List NodeAuth} (hauths : withoutNonces auths = withoutNonces a.authorizations) :
    Keyed env.codec (auths.map NodeAuth.pk) (authKeys auths) ∧
      Distinct env.codec (auths.map NodeAuth.pk) := by
  have hkeys : authKeys auths = authKeys a.authorizations := by
    rw [← authKeys_withoutNonces, hauths, authKeys_withoutNonces]
  refine keyed_keys ?_ h.distinct
  rw [hkeys]
  exact h.keyed

/-- The state the invariant does not depend on. -/
theorem Mirrored.congr {env : Env D} {a b : Aergolite D} (h : Mirrored env a)
    (saved : b.saved = a.saved)
    (auths : withoutNonces b.authorizations = withoutNonces a.authorizations)
    (worker : b.db.worker = a.db.worker) (flag : b.db.nodesChanged = a.db.nodesChanged)
    (isFullNode : b.isFullNode = a.isFullNode) : Mirrored env b := by
  obtain ⟨hkeyed, hdistinct⟩ := h.keyed_of_auths auths
  refine ⟨hkeyed, hdistinct, isFullNode.trans h.isFullNode, fun hclosed => ?_,
    fun w state hopen => ?_⟩
  · rw [worker]
    exact (h.closed (saved.symm.trans hclosed)).congr_auths auths
  · obtain ⟨hlisted, hids, hfacts⟩ := h.opened w state (saved.symm.trans hopen)
    rw [worker, flag]
    exact ⟨hlisted.congr_auths auths, hids, hfacts⟩

/-- A rollback brings back the rows that the list describes. -/
theorem Mirrored.rolledBack {env : Env D} {a b : Aergolite D} (h : Mirrored env a)
    (hb : RolledBack a b) (isFullNode : b.isFullNode = a.isFullNode) : Mirrored env b := by
  have hauths : withoutNonces b.authorizations = withoutNonces a.authorizations := by
    rw [hb.authorizations, withoutNonces_reloadAuthNonces]
  obtain ⟨hkeyed, hdistinct⟩ := h.keyed_of_auths hauths
  have hrestored := congrArg Prod.fst hb.restored
  refine ⟨hkeyed, hdistinct, isFullNode.trans h.isFullNode, fun _ => ?_, fun w state hopen => ?_⟩
  · cases hopen : a.saved with
    | none =>
        rw [hopen, Option.getD_none] at hrestored
        rw [show b.db.worker = a.db.worker from hrestored]
        exact (h.closed hopen).congr_auths hauths
    | some saved =>
        rw [hopen, Option.getD_some] at hrestored
        rw [show b.db.worker = saved.1 from hrestored]
        exact (h.opened saved.1 saved.2 hopen).1.congr_auths hauths
  · rw [hb.closed.1] at hopen
    cases hopen

theorem nodesChanged_prepareDb (db : Databases D) :
    (aergolitePrepareDb db).2.nodesChanged = db.nodesChanged := by
  unfold aergolitePrepareDb
  dsimp only
  split_ifs <;> simp only [nodesChanged_command]

theorem nodesChanged_rollbackBlock (a : Aergolite D) :
    (aergoliteRollbackBlock a).db.nodesChanged = a.db.nodesChanged := by
  unfold aergoliteRollbackBlock cleanupBlock
  cases a.saved <;> rfl

/-- A block begins with rows that are not marked. -/
theorem flags_beginBlock (a : Aergolite D) :
    (aergoliteBeginBlock a).2.db.nodesChanged = false ∧
      (aergoliteBeginBlock a).2.isFullNode = a.isFullNode := by
  unfold aergoliteBeginBlock
  dsimp only
  split_ifs
  all_goals
    refine ⟨?_, rfl⟩
    simp only [nodesChanged_rollbackBlock, nodesChanged_command, nodesChanged_prepareDb]

theorem flags_verifyBlock (env : Env D) (a : Aergolite D) (header : Header) (body : Body) :
    (aergoliteVerifyBlock env a header body).2.db.nodesChanged = a.db.nodesChanged ∧
      (aergoliteVerifyBlock env a header body).2.isFullNode = a.isFullNode := by
  have hflag := nodesChanged_command a.db
  unfold aergoliteVerifyBlock
  dsimp only
  split_ifs
  all_goals first
    | exact ⟨rfl, rfl⟩
    | exact ⟨hflag, rfl⟩
    | exact ⟨(nodesChanged_rollbackBlock _).trans hflag, rfl⟩

theorem flags_createBlock (env : Env D) (timestamp : ℤ) (a : Aergolite D) :
    (aergoliteCreateBlock env timestamp a).2.db.nodesChanged = a.db.nodesChanged ∧
      (aergoliteCreateBlock env timestamp a).2.isFullNode = a.isFullNode := by
  have hflag := nodesChanged_command a.db
  unfold aergoliteCreateBlock
  split
  · dsimp only
    split_ifs
    · exact ⟨nodesChanged_rollbackBlock a, rfl⟩
    · exact ⟨(nodesChanged_rollbackBlock _).trans hflag, rfl⟩
    · split
      · exact ⟨(nodesChanged_rollbackBlock _).trans hflag, rfl⟩
      · exact ⟨hflag, rfl⟩
  · exact ⟨rfl, rfl⟩

theorem nodesChanged_saveBlock (row : BlockRow) (db : Databases D) :
    (saveBlock row db).2.nodesChanged = db.nodesChanged := by
  unfold saveBlock
  dsimp only
  split_ifs <;> exact nodesChanged_command db

theorem nodesChanged_storeBlock (row : BlockRow) (db : Databases D) :
    (storeBlock row db).2.nodesChanged = db.nodesChanged := by
  unfold storeBlock
  dsimp only
  split_ifs <;> simp only [nodesChanged_command, nodesChanged_saveBlock]

/-- The node after the commit of both databases. -/
def committedNode (a : Aergolite D) (header : Header) (body : Body) (votes : List VoteItem) :
    Aergolite D :=
  cleanupBlock { a with
    db := (storeBlock (a.row header body votes) a.db).2.command.2
    blockHeight := a.activeBlock.height
    blockId := a.activeBlock.id }

theorem nodesChanged_committedNode (a : Aergolite D) (header : Header) (body : Body)
    (votes : List VoteItem) :
    (committedNode a header body votes).db.nodesChanged = a.db.nodesChanged :=
  (nodesChanged_command _).trans (nodesChanged_storeBlock _ _)

/-- A commit that succeeds updates the list if the rows are marked; one that fails leaves
`is_full_node`. -/
theorem commitBlock_flags (env : Env D) (a : Aergolite D) (header : Header) (body : Body)
    (votes : List VoteItem) :
    let r := aergoliteCommitBlock env a header body votes
    (r.1 ≠ .ok → r.2.isFullNode = a.isFullNode) ∧ (r.1 = .ok → r.2 =
      if a.db.nodesChanged then updateAuthorizations (committedNode a header body votes)
      else committedNode a header body votes) := by
  have hflag := nodesChanged_committedNode a header body votes
  have hmisuse : Rc.misuse ≠ .ok := by decide
  have hinvalid : Rc.invalid ≠ .ok := by decide
  unfold aergoliteCommitBlock
  by_cases hclosed : (a.txnIds.isNone || decide (a.activeBlock.height ≤ 0)) = true
  · rw [if_pos hclosed]
    exact ⟨fun _ => rfl, fun h => absurd h hmisuse⟩
  rw [if_neg hclosed]
  by_cases hverified : a.activeBlock.verified ≠ some (header, body)
  · rw [if_pos hverified]
    exact ⟨fun _ => rfl, fun h => absurd h hmisuse⟩
  rw [if_neg hverified]
  by_cases hpages : compareModifiedPages env a body ≠ .ok
  · rw [if_pos hpages]
    exact ⟨fun _ => rfl, fun h => absurd h hinvalid⟩
  have hrow : BlockRow.mk a.activeBlock.height header body votes = a.row header body votes := rfl
  rw [if_neg hpages, hrow]
  dsimp only
  by_cases hstored : (storeBlock (a.row header body votes) a.db).1 ≠ .ok
  · rw [if_pos hstored]
    exact ⟨fun _ => rfl, fun h => absurd h hstored⟩
  rw [if_neg hstored]
  by_cases hcommit : (storeBlock (a.row header body votes) a.db).2.command.1 ≠ .ok
  · rw [if_pos hcommit]
    exact ⟨fun _ => rfl, fun h => absurd h hcommit⟩
  rw [if_neg hcommit, ← hflag]
  exact ⟨fun h => absurd rfl h, fun _ => rfl⟩

variable {env : Env D} {a : Aergolite D}

theorem Mirrored.beginBlock (h : Mirrored env a) (hsafe : SafeBlock a .beginBlock) :
    Mirrored env (aergoliteBeginBlock a).2 := by
  have houtcome := beginBlock_outcome a
  have hflags := flags_beginBlock a
  generalize aergoliteBeginBlock a = r at houtcome hflags ⊢
  cases houtcome with
  | busy same =>
      refine ⟨h.keyed, h.distinct, h.isFullNode, fun hclosed => ?_, fun w state hopen => ?_⟩
      · rw [same.worker]
        exact h.closed hclosed
      · obtain ⟨hlisted, hids, hfacts⟩ := h.opened w state hopen
        have hopened : a.saved.isSome = true := Option.isSome_iff_exists.2 ⟨_, hopen⟩
        rw [same.worker]
        exact ⟨hlisted, hids, fun _ => hfacts (hsafe hopened)⟩
  | failed _ _ _ rolledBack => exact h.rolledBack rolledBack hflags.2
  | opened closed same =>
      have hauths := withoutNonces_saveAuthNonces a.authorizations
      have hlisted := (h.closed closed).congr_auths hauths
      obtain ⟨hkeyed, hdistinct⟩ := h.keyed_of_auths hauths
      refine ⟨hkeyed, hdistinct, h.isFullNode, fun hclosed => absurd hclosed nofun,
        fun w state hopen => ?_⟩
      obtain ⟨rfl, rfl⟩ := Prod.mk.inj (Option.some.inj hopen)
      dsimp only
      rw [same.worker]
      exact ⟨hlisted, hlisted.ids, fun _ => rfl⟩

/-- A part of a block changes the rows, and the nonces of the list. -/
theorem Mirrored.changed (h : Mirrored env a) (hopened : a.saved.isSome = true)
    {db : Databases D} (hdb : Marked a.db db) {auths : List NodeAuth}
    (hauths : withoutNonces auths = withoutNonces a.authorizations)
    (txnIds : Option (List (BitVec 64))) :
    Mirrored env { a with
      db
      txnIds
      authorizations := auths } := by
  obtain ⟨hkeyed, hdistinct⟩ := h.keyed_of_auths hauths
  refine ⟨hkeyed, hdistinct, h.isFullNode, fun hclosed => ?_, fun w state hopen => ?_⟩
  · rw [show a.saved = none from hclosed] at hopened
    exact absurd hopened nofun
  · obtain ⟨hlisted, hids, hfacts⟩ := h.opened w state hopen
    refine ⟨hlisted.congr_auths hauths, hdb.distinct hids, fun hflag => ?_⟩
    obtain ⟨hflag', hfacts'⟩ := hdb.marked hflag
    exact hfacts'.trans (hfacts hflag')

theorem Mirrored.executeTransaction (h : Mirrored env a) (hopened : a.saved.isSome = true)
    (nodeId nonce : ℤ) (log : Log) :
    Mirrored env (aergoliteExecuteTransaction env a nodeId nonce log).2 := by
  have hmarked := marked_executeTransaction env.codec env.engine a.isFullNode a.authorizations
    a.activeBlock.height nodeId nonce (buildTransactionId nodeId nonce) log a.db
  change Marked a.db (a.execute env nodeId nonce log).db at hmarked
  have houtcome := executeTransaction_outcome env a nodeId nonce log
  generalize aergoliteExecuteTransaction env a nodeId nonce log = r at houtcome ⊢
  cases houtcome with
  | executed _ =>
      exact h.changed hopened hmarked (withoutNonces_updateAuthLastNonce _ _ _) _
  | refused _ _ => exact h.changed hopened hmarked rfl a.txnIds
  | failed _ _ records =>
      have hcount : Marked (a.execute env nodeId nonce log).db
          { (a.execute env nodeId nonce log).db with
            txnCount := (a.execute env nodeId nonce log).db.txnCount + 1 } := marked_of_nodes rfl id
      have hrecorded := (hmarked.trans hcount).trans (marked_updateNodeLastNonce nodeId nonce _)
      rw [← records] at hrecorded
      exact h.changed hopened hrecorded (withoutNonces_updateAuthLastNonce _ _ _) _

theorem Mirrored.verifyBlock (h : Mirrored env a) (header : Header) (body : Body) :
    Mirrored env (aergoliteVerifyBlock env a header body).2 := by
  have houtcome := verifyBlock_outcome env a header body
  have hflags := flags_verifyBlock env a header body
  generalize aergoliteVerifyBlock env a header body = r at houtcome hflags ⊢
  cases houtcome with
  | kept _ => exact h.congr rfl rfl rfl hflags.1 rfl
  | failed _ _ rolledBack => exact h.rolledBack rolledBack hflags.2
  | verified _ same _ _ => exact h.congr rfl rfl same.worker hflags.1 rfl

theorem Mirrored.createBlock (h : Mirrored env a) (timestamp : ℤ) :
    Mirrored env (aergoliteCreateBlock env timestamp a).2 := by
  have houtcome := createBlock_outcome env timestamp a
  have hflags := flags_createBlock env timestamp a
  generalize aergoliteCreateBlock env timestamp a = r at houtcome hflags ⊢
  cases houtcome with
  | misuse _ => exact h
  | failed _ rolledBack => exact h.rolledBack rolledBack hflags.2
  | created _ same _ => exact h.congr rfl rfl same.worker hflags.1 rfl

/-- The list describes other rows than before. -/
theorem mirrored_of_listed {b : Aergolite D} {keys : List Bytes}
    (hkeyed : Keyed env.codec keys (authKeys b.authorizations)) (hdistinct : Distinct env.codec keys)
    (hfull : b.isFullNode = false) (hclosed : b.saved = none)
    (hlisted : Listed b.authorizations b.db.worker.nodes) : Mirrored env b := by
  obtain ⟨hkeyed, hdistinct⟩ := keyed_keys hkeyed hdistinct
  refine ⟨hkeyed, hdistinct, hfull, fun _ => hlisted, fun w state hopen => ?_⟩
  rw [hclosed] at hopen
  cases hopen

theorem Mirrored.commitBlock (h : Mirrored env a) {header : Header} {body : Body}
    {votes : List VoteItem} (hcommits : StateCommits a header body votes)
    (hsafe : SafeBlock a (.commitBlock header body votes))
    (hopened : a.txnIds.isSome = true → a.saved.isSome = true) :
    Mirrored env (aergoliteCommitBlock env a header body votes).2 := by
  have houtcome := commitBlock_outcome env a header body votes
  obtain ⟨hfails, hok⟩ : _ ∧ _ := commitBlock_flags env a header body votes
  generalize aergoliteCommitBlock env a header body votes = r at houtcome hfails hok ⊢
  cases houtcome with
  | misuse => exact h
  | failed fails _ rolledBack => exact h.rolledBack rolledBack (hfails fails)
  | half _ _ committed _ => exact absurd hcommits committed
  | committed opened _ _ stored =>
      obtain ⟨⟨w, state⟩, hsaved⟩ := Option.isSome_iff_exists.1 (hopened opened)
      obtain ⟨hlisted, hids, hfacts⟩ := h.opened w state hsaved
      have hb := hok rfl
      dsimp only at hb
      dsimp only
      have hworker : (committedNode a header body votes).db.worker = a.db.worker :=
        ((sameData_command _).worker).trans (storeBlock_spec _ _).1
      by_cases hchanged : a.db.nodesChanged = true
      · rw [if_pos hchanged] at hb
        obtain ⟨hkeys, hquery⟩ := hsafe hchanged
        have hnodup := h.keyed.nodup h.distinct
        have hrows := hworker ▸ hids
        obtain ⟨hsame, hentries⟩ := updateAuthorizations_refreshed
          (a := committedNode a header body votes) hnodup hrows (hworker ▸ hkeys) hquery
        have hauths := (authKeys_updateAuthorizations (committedNode a header body votes)).1
        rw [← hb] at hsame hentries hauths
        have hdb := stored.worker
        have hkeyed := h.keyed
        change Keyed env.codec a.keys
          (authKeys (committedNode a header body votes).authorizations) at hkeyed
        rw [← hauths] at hkeyed
        refine mirrored_of_listed hkeyed h.distinct ?_ stored.closed.1 ⟨?_, ?_⟩
        · rw [hsame]
          exact h.isFullNode
        · rw [hdb]
          exact hids
        · rw [hdb, ← hworker]
          exact hentries
      · rw [if_neg hchanged] at hb
        rw [Bool.not_eq_true] at hchanged
        rw [hb]
        refine mirrored_of_listed h.keyed h.distinct h.isFullNode rfl ?_
        rw [hworker]
        exact hlisted.congr_rows (hfacts hchanged)

/-- **The calls of a block keep the list.** -/
theorem Mirrored.block {s : Recorded D} (h : Mirrored env s.core) (ht : Tracked s)
    {call : BlockCall} (hr : Regular env s call) (hsafe : SafeBlock s.core call) :
    Mirrored env (s.call env call).core := by
  cases call with
  | beginBlock => exact h.beginBlock hsafe
  | executeTransaction nodeId nonce log => exact h.executeTransaction hr.1 nodeId nonce log
  | createBlock timestamp =>
      have hcreate := h.createBlock timestamp
      unfold Recorded.call BlockCall.result
      dsimp only
      split <;> simp_all
  | verifyBlock header body => exact h.verifyBlock header body
  | commitBlock header body votes =>
      refine h.commitBlock hr hsafe fun hopen => ?_
      cases hsaved : s.core.saved with
      | some saved => rfl
      | none =>
          rw [ht.txnIds hsaved] at hopen
          exact absurd hopen nofun
  | rollbackBlock => exact h.rolledBack (Core.rolledBack s.core) rfl

/-! ## An authorization that arrives -/

theorem mem_authNonces_append {auths : List NodeAuth} {auth : NodeAuth} {e : ℤ × ℤ × ℤ}
    (hzero : auth.lastNonce = 0 ∧ auth.savedNonce = 0) (h : e ∈ authNonces (auths ++ [auth])) :
    e ∈ authNonces auths ∨ e = (auth.nodeId, 0, 0) := by
  unfold authNonces at h ⊢
  rw [List.map_append, List.map_singleton, hzero.1, hzero.2] at h
  rcases List.mem_append.1 h with h | h
  · exact .inl h
  · exact .inr (List.mem_singleton.1 h)

/-- The node has no transaction yet, so its entry has the nonce that is stored. -/
theorem Tracked.authorize {s : Recorded D} (h : Tracked s) {auth : NodeAuth}
    (hzero : auth.lastNonce = 0 ∧ auth.savedNonce = 0)
    (hids : ((s.core.authorizations ++ [auth]).map NodeAuth.nodeId).Nodup)
    (hcommitted : rowNonce s.committed auth.nodeId = 0)
    (hrows : rowNonce s.core.db.worker.nodes auth.nodeId = 0) :
    Tracked { s with core := { s.core with
      authorizations := s.core.authorizations ++ [auth] } } := by
  refine ⟨hids, h.txnIds, fun hclosed => ?_, fun w state hopen => ?_, fun hheight hclosed e he => ?_⟩
  · obtain ⟨hkeeps, hnonces⟩ := h.closed hclosed
    refine ⟨hkeeps, fun e he => ?_⟩
    rcases mem_authNonces_append hzero he with he | rfl
    · exact hnonces e he
    · exact hcommitted.symm
  · obtain ⟨hkeeps, hnonces⟩ := h.opened w state hopen
    refine ⟨hkeeps, fun e he => ?_⟩
    rcases mem_authNonces_append hzero he with he | rfl
    · exact hnonces e he
    · exact ⟨hrows.symm, hcommitted.symm⟩
  · rcases mem_authNonces_append hzero he with he | rfl
    · exact h.first hheight hclosed e he
    · rfl

/-- An entry is added for a key that has none. -/
theorem Mirrored.authorize (h : Mirrored env a) {auth : NodeAuth}
    (hid : auth.nodeId = env.codec.generateNodeIdFromPubkey auth.pk) (hnew : auth.pk ∉ a.keys)
    (hdistinct : Distinct env.codec (auth.pk :: a.keys)) :
    Mirrored env { a with authorizations := a.authorizations ++ [auth] } := by
  have hkeyed : Keyed env.codec (auth.pk :: a.keys) (authKeys (a.authorizations ++ [auth])) :=
    (h.keyed.mono fun pk hpk => List.mem_cons_of_mem _ hpk).append hid List.mem_cons_self hnew
  have hlisted : ∀ {rows : List AllowedNode}, Listed a.authorizations rows →
      Listed (a.authorizations ++ [auth]) rows := by
    intro rows hlisted
    refine ⟨hlisted.ids, fun row hrow => ?_⟩
    obtain ⟨found, hfound, hrecords⟩ := hlisted.entries row hrow
    refine ⟨found, ?_, hrecords⟩
    rw [getAuthorization_append, hfound, Option.some_or]
  obtain ⟨hown, hapart⟩ := keyed_keys hkeyed hdistinct
  refine ⟨hown, hapart, h.isFullNode, fun hclosed => hlisted (h.closed hclosed),
    fun w state hopen => ?_⟩
  obtain ⟨hrows, hids, hfacts⟩ := h.opened w state hopen
  exact ⟨hlisted hrows, hids, hfacts⟩

/-! ## A state update and a load -/

/-- **The nonces after the list is loaded.** -/
theorem tracked_of_listLoaded {keys : List Bytes} {committed : List AllowedNode}
    {b d : Aergolite D} (hloaded : ListLoaded env.codec keys a b)
    (hdistinct : Distinct env.codec keys) (hids : (nodeIds a.db.worker.nodes).Nodup)
    (hkeeps : KeepsNonces none committed a.db.worker.nodes)
    (hused : ∀ auth ∈ a.authorizations, auth.nodeId ∉ nodeIds a.db.worker.nodes →
      auth.lastNonce = 0)
    (hauths : d.authorizations = b.authorizations) (hworker : d.db.worker = a.db.worker)
    (hclosed : d.saved = none ∧ d.txnIds = none) (hheight : d.blockHeight ≠ 0) :
    Tracked ⟨d, committed⟩ := by
  have hnodup := hloaded.keyed.nodup hdistinct
  refine ⟨hauths ▸ hnodup, fun _ => hclosed.2, fun _ => ⟨hworker ▸ hkeeps, fun e he => ?_⟩,
    fun w state hopen => ?_, fun h0 => absurd h0 hheight⟩
  · dsimp only at he
    rw [hauths] at he
    obtain ⟨auth, hauth, rfl⟩ := List.mem_map.1 he
    dsimp only
    rw [← hkeeps auth.nodeId (by simp)]
    by_cases hrow : auth.nodeId ∈ nodeIds a.db.worker.nodes
    · obtain ⟨row, hmem, hid⟩ := List.mem_map.1 hrow
      obtain ⟨found, hfound, -, hnonce⟩ := hloaded.rows row hmem
      have hself : b.auth auth.nodeId = some auth := getAuthorization_of_mem hnodup hauth
      rw [hid, hself] at hfound
      obtain rfl := Option.some.inj hfound
      rw [hnonce, ← hid]
      exact (rowNonce_of_mem hids hmem).symm
    · rw [rowNonce_of_not_mem hrow]
      rcases hloaded.others auth hauth hrow with hmem | hzero
      · exact hused auth hmem hrow
      · exact hzero
  · rw [show d.saved = none from hclosed.1] at hopen
    cases hopen

/-- The rows after the list is loaded. -/
theorem listed_of_listLoaded {keys : List Bytes} {b : Aergolite D}
    (hloaded : ListLoaded env.codec keys a b) (hids : (nodeIds a.db.worker.nodes).Nodup) :
    Listed b.authorizations a.db.worker.nodes := by
  refine ⟨hids, fun row hrow => ?_⟩
  obtain ⟨auth, hauth, hrecords, -⟩ := hloaded.rows row hrow
  exact ⟨auth, hauth, hrecords⟩

/-- The outcomes of a state update. -/
inductive ApplyOutcome (env : Env D) (column : ℤ → Log) (u : ReceivedState D) (a : Aergolite D) :
    Rc × Aergolite D → Prop
  | failed {rc : Rc} {faults : List Rc} (fails : rc ≠ .ok) :
      ApplyOutcome env column u a (rc, { a with db := { a.db with faults } })
  /-- The worker database is committed, and the state database is not. -/
  | half {rc : Rc} {b : Aergolite D} (stored : (saveState u.row a.db.command.2).1 = .ok)
      (fails : (saveState u.row a.db.command.2).2.command.1 ≠ .ok) :
      ApplyOutcome env column u a (rc, b)
  | applied {b : Aergolite D} (closed : a.saved = none)
      (reloaded : reloadAuthorizations env column
        (stateApplied u (saveState u.row a.db.command.2).2.command.2 a) = some b) :
      ApplyOutcome env column u a (.ok, b)

/-- **What a state update does.** -/
theorem applyStateUpdate_outcome {queried : List AllowedNode} {column : ℤ → Log}
    {u : ReceivedState D} {r : Rc × Aergolite D}
    (h : aergoliteApplyStateUpdate env queried column u a = some r) :
    ApplyOutcome env column u a r := by
  obtain ⟨faults, hcommand⟩ := command_eq a.db
  unfold aergoliteApplyStateUpdate at h
  by_cases hopened : a.saved.isSome = true
  · rw [if_pos hopened] at h
    obtain rfl := Option.some.inj h
    exact .failed (by decide)
  rw [if_neg hopened] at h
  have hclosed : a.saved = none := by simpa using hopened
  dsimp only at h
  by_cases hbegin : a.db.command.1 ≠ .ok
  · rw [if_pos hbegin] at h
    obtain rfl := Option.some.inj h
    rw [hcommand]
    exact .failed hbegin
  rw [if_neg hbegin] at h
  by_cases hverify : verifyState env queried u { a with db := a.db.command.2 } ≠ .ok
  · rw [if_pos hverify] at h
    obtain rfl := Option.some.inj h
    rw [hcommand] at hverify ⊢
    exact .failed hverify
  rw [if_neg hverify] at h
  by_cases hsaved : (saveState u.row a.db.command.2).1 ≠ .ok
  · rw [if_pos hsaved] at h
    obtain rfl := Option.some.inj h
    rw [hcommand] at hsaved ⊢
    exact .failed hsaved
  rw [if_neg hsaved] at h
  by_cases hcommit : (saveState u.row a.db.command.2).2.command.1 ≠ .ok
  · rw [if_pos hcommit] at h
    exact .half (not_not.1 hsaved) hcommit
  rw [if_neg hcommit] at h
  obtain ⟨b, hreload, rfl⟩ := Option.map_eq_some_iff.1 h
  exact .applied hclosed hreload

/-- The outcomes of a load whose queries succeed. -/
inductive LoadOutcome (env : Env D) (localTxns : List Log) (column : ℤ → Log) (a : Aergolite D) :
    Rc × Aergolite D → Prop
  | kept {rc : Rc} {faults : List Rc} (fails : rc ≠ .ok)
      (empty : rc = .empty → hasState a.db.state.blocks = false) :
      LoadOutcome env localTxns column a (rc, { a with db := { a.db with faults } })
  | loaded {block : BlockRow} {b : Aergolite D} {db : Databases D}
      (last : lastBlock a.db.state.blocks = some block) (height : block.height ≠ 0)
      (command : db = a.db.command.2.command.2)
      (loads : loadAuthorizations env localTxns column { a with db } = some b) :
      LoadOutcome env localTxns column a (loadLastBlock env block b)

theorem verifyRaw_ne_empty {env : Env D} {a : Aergolite D} {hash : Bytes} {nodeId : ℤ}
    {signature : Bytes} : a.verifyRaw env hash nodeId signature ≠ .empty := by
  unfold Aergolite.verifyRaw aergoliteVerifyRawById
  split
  · decide
  · unfold aergoliteVerifyRaw
    split_ifs <;> decide

/-- **What a load does.** -/
theorem loadCurrentState_outcome {localTxns : List Log} {column : ℤ → Log}
    {r : Rc × Aergolite D} (hfirst : a.db.command.1 = .ok) (hsecond : a.db.command.2.command.1 = .ok)
    (h : aergoliteLoadCurrentState env localTxns column a = some r) :
    LoadOutcome env localTxns column a r := by
  obtain ⟨faults, hcommand⟩ : ∃ faults, a.db.command.2.command.2 = { a.db with faults } := by
    obtain ⟨faults, hone⟩ := command_eq a.db
    obtain ⟨faults', htwo⟩ := command_eq a.db.command.2
    exact ⟨faults', by rw [htwo, hone]⟩
  have hblocks : a.db.command.2.command.2.state.blocks = a.db.state.blocks := by rw [hcommand]
  unfold aergoliteLoadCurrentState at h
  dsimp only at h
  rw [if_neg (not_not.2 hfirst), if_neg (not_not.2 hsecond)] at h
  split at h
  · rename_i hlast
    rw [hblocks] at hlast
    obtain rfl := Option.some.inj h
    rw [hcommand]
    exact .kept (by decide) fun _ => by rw [hasState, hlast, Option.any_none]
  · rename_i block hlast
    rw [hblocks] at hlast
    by_cases hheight : block.height = 0
    · rw [if_pos hheight] at h
      obtain rfl := Option.some.inj h
      rw [hcommand]
      exact .kept (by decide) fun _ => by simp [hasState, hlast, hheight]
    rw [if_neg hheight] at h
    by_cases hread : readBlockHeader env { a with db := a.db.command.2.command.2 } block.header ≠ .ok
    · rw [if_pos hread] at h
      obtain rfl := Option.some.inj h
      rw [hcommand] at hread ⊢
      exact .kept hread fun hempty => absurd hempty verifyRaw_ne_empty
    rw [if_neg hread] at h
    by_cases hhash : env.stateHash a.db.command.2.command.2.worker ≠ block.header.stateHash
    · rw [if_pos hhash] at h
      obtain rfl := Option.some.inj h
      rw [hcommand]
      exact .kept (by decide) fun hempty => absurd hempty (by decide)
    rw [if_neg hhash] at h
    obtain ⟨b, hloads, rfl⟩ := Option.map_eq_some_iff.1 h
    exact .loaded hlast hheight rfl hloads

/-- What a node has and a new process has not: the list; and what both have: the databases. -/
structure ProcessState (env : Env D) (committed : List AllowedNode) (a : Aergolite D) : Prop where
  txnIds : a.txnIds = none
  isFullNode : a.isFullNode = false
  keyed : Keyed env.codec a.keys (authKeys a.authorizations)
  keeps : KeepsNonces none committed a.db.worker.nodes
  used : ∀ auth ∈ a.authorizations, auth.nodeId ∉ nodeIds a.db.worker.nodes → auth.lastNonce = 0

theorem processState {s : Recorded D} (ht : Tracked s) (hm : Mirrored env s.core) {fresh : Bool}
    (hclosed : (s.core.process fresh).saved = none) :
    ProcessState env s.committed (s.core.process fresh) := by
  cases fresh with
  | false =>
      obtain ⟨hkeeps, hnonces⟩ := ht.closed hclosed
      refine ⟨ht.txnIds hclosed, hm.isFullNode, hm.keyed, hkeeps, fun auth hauth hrow => ?_⟩
      have hnonce := hnonces _ (List.mem_map_of_mem hauth)
      dsimp only at hnonce
      rw [hnonce, ← hkeeps auth.nodeId (by simp)]
      exact rowNonce_of_not_mem hrow
  | true =>
      have hkeeps : KeepsNonces none s.committed (newProcess s.core).db.worker.nodes := by
        unfold newProcess
        cases hopen : s.core.saved with
        | none => exact (ht.closed hopen).1
        | some saved => exact (ht.opened saved.1 saved.2 hopen).1
      refine ⟨rfl, rfl, ⟨?_, ?_, List.nodup_nil⟩, hkeeps, ?_⟩
      · exact fun entry hentry => absurd hentry List.not_mem_nil
      · exact fun entry hentry => absurd hentry List.not_mem_nil
      · exact fun auth hauth => absurd hauth List.not_mem_nil

theorem loadLastBlock_spec (env : Env D) (block : BlockRow) (b : Aergolite D) :
    let r := loadLastBlock env block b
    (r.1 = .ok ∧ r.2 = { b with blockHeight := block.header.height, blockId := block.header.id }) ∨
      (r.1 = .invalid ∧ r.2 = b) := by
  unfold loadLastBlock verifyBlockVotes
  dsimp only
  split_ifs with hvotes hfails
  · exact .inr ⟨rfl, rfl⟩
  · exact absurd (by decide) hfails
  · exact absurd rfl ‹_›
  · exact .inl ⟨rfl, rfl⟩

/-- The node after its list is refreshed from some rows. -/
structure RefreshedFrom (id : ℤ) (rows : List AllowedNode) (b : Aergolite D) : Prop where
  closed : b.saved = none
  id : b.id = id
  rows : b.db.worker.nodes = rows

/-- The list is loaded, and perhaps the last block. -/
theorem step_of_listLoaded {keys : List Bytes} {committed : List AllowedNode} {b d : Aergolite D}
    (hp : ProcessState env committed a) (hloaded : ListLoaded env.codec keys a b)
    (hdistinct : Distinct env.codec keys) (hids : (nodeIds a.db.worker.nodes).Nodup)
    (hclosed : a.saved = none)
    (hd : d = { b with blockHeight := d.blockHeight, blockId := d.blockId })
    (hheight : d.blockHeight ≠ 0) :
    Tracked ⟨d, committed⟩ ∧ Mirrored env d ∧ RefreshedFrom a.id a.db.worker.nodes d := by
  obtain ⟨faults, hsame⟩ := hloaded.same
  have hauths : d.authorizations = b.authorizations := by rw [hd]
  have hworker : d.db.worker = a.db.worker := by rw [hd, hsame]
  have hsaved : d.saved = none := by
    rw [hd, hsame]
    exact hclosed
  have htxns : d.txnIds = none := by
    rw [hd, hsame]
    exact hp.txnIds
  have hid : d.id = a.id := by rw [hd, hsame]
  have hfull : d.isFullNode = false := by
    rw [hd, hsame]
    exact hp.isFullNode
  refine ⟨tracked_of_listLoaded hloaded hdistinct hids hp.keeps hp.used hauths hworker
    ⟨hsaved, htxns⟩ hheight, mirrored_of_listed (hauths ▸ hloaded.keyed) hdistinct hfull hsaved ?_,
    hsaved, hid, congrArg Worker.nodes hworker⟩
  rw [hauths, hworker]
  exact listed_of_listLoaded hloaded hids

/-- **A load keeps the list.** -/
theorem load_step {s : Recorded D} (ht : Tracked s) (hm : Mirrored env s.core) {fresh : Bool}
    {localTxns : List Log} {column : ℤ → Log} {r : Rc × Aergolite D}
    (hsafe : SafeLoad env localTxns column (s.core.process fresh))
    (hheight : fresh = false → s.core.blockHeight = 0 → hasState s.core.db.state.blocks = false)
    (hstarts : ¬(fresh = true ∧ r.1 ≠ .ok ∧ r.1 ≠ .empty))
    (h : aergoliteLoadCurrentState env localTxns column (s.core.process fresh) = some r) :
    Tracked { s with core := r.2 } ∧ Mirrored env r.2 ∧ (r.1 = .ok →
      RefreshedFrom (s.core.process fresh).id (s.core.process fresh).db.worker.nodes r.2) := by
  have hp := processState ht hm hsafe.closed
  have houtcome := loadCurrentState_outcome hsafe.queries.1 hsafe.queries.2.1 h
  cases houtcome with
  | @kept rc faults fails empty =>
      cases fresh with
      | false =>
          exact ⟨ht.congr rfl rfl rfl rfl rfl, hm.congr rfl rfl rfl rfl rfl,
            fun h => absurd h fails⟩
      | true =>
          have hempty : rc = .empty := by
            by_contra hne
            exact hstarts ⟨rfl, fails, hne⟩
          have hrows := hsafe.empty (empty hempty)
          refine ⟨⟨List.nodup_nil, fun _ => rfl, fun _ => ⟨hp.keeps, ?_⟩, ?_, ?_⟩,
            ⟨hp.keyed, ?_, rfl, fun _ => ⟨?_, ?_⟩, ?_⟩, fun h => absurd h fails⟩
          · exact fun e he => absurd he List.not_mem_nil
          · exact fun w state hopen => absurd hopen nofun
          · exact fun _ _ e he => absurd he List.not_mem_nil
          · exact fun pk hpk => absurd hpk List.not_mem_nil
          · exact hsafe.rows.distinct
          · intro row hrow
            have hmem : row ∈ (s.core.process true).db.worker.nodes := hrow
            rw [hrows] at hmem
            exact absurd hmem List.not_mem_nil
          · exact fun w state hopen => absurd hopen nofun
  | @loaded block b db last height command loads =>
      obtain ⟨hfirst, hsecond, hquery⟩ := hsafe.queries
      have hnodes : db.worker = (s.core.process fresh).db.worker := by
        rw [command]
        exact (sameData_command _).worker.trans (sameData_command _).worker
      have hkeys : ∀ pk ∈ (s.core.process fresh).keys,
          pk ∈ loadedKeys env localTxns (s.core.process fresh) := fun pk hpk =>
        List.mem_append_left _ (List.mem_append_left _ hpk)
      have hrows := hsafe.rows
      rw [← hnodes] at hrows
      obtain ⟨c, hc, hloaded⟩ := loadAuthorizations_refreshed
        (a := { s.core.process fresh with db }) (hp.keyed.mono hkeys) hsafe.distinct
        hsafe.specials hrows (command ▸ hquery)
      obtain rfl := Option.some.inj (loads.symm.trans hc)
      have hp' : ProcessState env s.committed { s.core.process fresh with db } := by
        refine ⟨hp.txnIds, hp.isFullNode, hp.keyed, ?_, ?_⟩
        · dsimp only
          rw [hnodes]
          exact hp.keeps
        · dsimp only
          rw [hnodes]
          exact hp.used
      have hstep := fun (d : Aergolite D) => step_of_listLoaded (d := d) hp' hloaded hsafe.distinct
        hrows.distinct hsafe.closed
      rcases loadLastBlock_spec env block b with ⟨hrc, hd⟩ | ⟨hrc, hd⟩
      · rw [hd]
        obtain ⟨htracked, hmirrored, hsaved, hid, hnodes'⟩ := hstep { b with
          blockHeight := block.header.height
          blockId := block.header.id } rfl (hsafe.height block last)
        exact ⟨htracked, hmirrored, fun _ =>
          ⟨hsaved, hid, hnodes'.trans (congrArg Worker.nodes hnodes)⟩⟩
      · rw [hd, hrc]
        have hheight' : b.blockHeight ≠ 0 := by
          obtain ⟨faults, hsame⟩ := hloaded.same
          cases fresh with
          | true =>
              refine absurd ⟨rfl, ?_, ?_⟩ hstarts
              · rw [hrc]
                decide
              · rw [hrc]
                decide
          | false =>
              rw [hsame]
              intro h0
              have hstate := hheight rfl h0
              have hlast : lastBlock s.core.db.state.blocks = some block := last
              rw [hasState, hlast, Option.any_some, bne_eq_false_iff_eq] at hstate
              exact height hstate
        obtain ⟨htracked, hmirrored, -⟩ := hstep b rfl hheight'
        exact ⟨htracked, hmirrored, fun h => absurd h (by decide)⟩

/-- **A state update keeps the list.** -/
theorem stateUpdate_step {s : Recorded D} (ht : Tracked s) (hm : Mirrored env s.core)
    {queried : List AllowedNode} {column : ℤ → Log} {u : ReceivedState D} {r : Rc × Aergolite D}
    (hsafe : SafeUpdate env s.core column u)
    (h : aergoliteApplyStateUpdate env queried column u s.core = some r) :
    (r.1 ≠ .ok → Tracked { s with core := r.2 } ∧ Mirrored env r.2) ∧
      (r.1 = .ok → Tracked ⟨r.2, r.2.db.worker.nodes⟩ ∧ Mirrored env r.2 ∧
        RefreshedFrom s.core.id u.worker.nodes r.2) := by
  have houtcome := applyStateUpdate_outcome h
  cases houtcome with
  | failed fails =>
      exact ⟨fun _ => ⟨ht.congr rfl rfl rfl rfl rfl, hm.congr rfl rfl rfl rfl rfl⟩,
        fun h => absurd h fails⟩
  | half stored fails => exact absurd (hsafe.commits stored) fails
  | @applied b closed reloaded =>
      refine ⟨fun h => absurd rfl h, fun _ => ?_⟩
      have hkeys : ∀ pk ∈ s.core.keys,
          pk ∈ s.core.keys ++ u.worker.nodes.map AllowedNode.pubkey :=
        fun pk hpk => List.mem_append_left _ hpk
      have hquery := hsafe.query
      rw [command_rc] at hquery
      obtain ⟨c, hc, hloaded⟩ := reloadAuthorizations_refreshed
        (a := stateApplied u (saveState u.row s.core.db.command.2).2.command.2 s.core)
        (hm.keyed.mono hkeys) hsafe.distinct hsafe.rows ((command_rc _).trans hquery)
      obtain rfl := Option.some.inj (reloaded.symm.trans hc)
      obtain ⟨faults, hsame⟩ := hloaded.same
      have hworker : b.db.worker = u.worker := by rw [hsame, stateApplied]
      have hp : ProcessState env u.worker.nodes
          (stateApplied u (saveState u.row s.core.db.command.2).2.command.2 s.core) := by
        refine ⟨ht.txnIds closed, hm.isFullNode, hm.keyed, fun _ _ => rfl, fun auth hauth hrow => ?_⟩
        by_contra hne
        exact hrow (hsafe.used auth hauth hne)
      have hheight : b.blockHeight ≠ 0 := by
        rw [hsame]
        exact hsafe.height
      dsimp only
      rw [hworker]
      exact step_of_listLoaded hp hloaded hsafe.distinct hsafe.rows.distinct closed rfl
        hheight

/-! ## The theorem -/

/-- **Every safe call keeps the invariant.** -/
theorem invariant_mirrored (env : Env D) : ((nodes env).restrict (Safe env)).Invariant
    fun s => Tracked s ∧ Mirrored env s.core where
  init s h := by
    obtain ⟨hcommitted, hnodes, hclosed, hauths, hfull⟩ := h
    have hnonces : ∀ e ∈ authNonces s.core.authorizations, False := by
      rw [hauths]
      exact fun e he => List.not_mem_nil he
    have hkeys : ∀ pk ∈ s.core.keys, False := by
      unfold Aergolite.keys
      rw [hauths]
      exact fun pk hpk => List.not_mem_nil hpk
    refine ⟨⟨?_, fun _ => hclosed.2, fun _ => ⟨?_, fun e he => (hnonces e he).elim⟩, ?_,
      fun _ _ e he => (hnonces e he).elim⟩, ⟨?_, fun pk hpk => (hkeys pk hpk).elim, hfull,
      fun _ => ⟨?_, fun row hrow => ?_⟩, ?_⟩⟩
    · rw [hauths]
      exact List.nodup_nil
    · rw [hcommitted, hnodes]
      exact fun _ _ => rfl
    · intro w state hopen
      rw [hclosed.1] at hopen
      cases hopen
    · rw [hauths]
      exact ⟨fun entry he => absurd he List.not_mem_nil, fun entry he => absurd he List.not_mem_nil,
        List.nodup_nil⟩
    · rw [hnodes]
      exact List.nodup_nil
    · rw [hnodes] at hrow
      exact absurd hrow List.not_mem_nil
    · intro w state hopen
      rw [hclosed.1] at hopen
      cases hopen
  step s call t h hs := by
    obtain ⟨ht, hm⟩ := h
    obtain ⟨hsafe, hs⟩ := hs
    change s.step env call = some t at hs
    cases call with
    | block call =>
        obtain rfl := Option.some.inj hs
        exact ⟨(invariant_tracked env).step s call _ ht ⟨hsafe.1, rfl⟩,
          hm.block ht hsafe.1 hsafe.2⟩
    | newAuthorization log =>
        obtain ⟨r, hr, rfl⟩ := Option.map_eq_some_iff.1 hs
        rcases newAuthorization_outcome hr with hb | ⟨auth, hkey, hnew, hid, hzero, hb⟩
        · rw [hb]
          exact ⟨ht, hm⟩
        · obtain ⟨hdistinct, hcommitted, hrows⟩ := hsafe auth.pk hkey hnew
          have hmirrored := hm.authorize hid hnew hdistinct
          rw [hb]
          exact ⟨ht.authorize hzero (hmirrored.keyed.nodup hmirrored.distinct)
            (hid ▸ hcommitted) (hid ▸ hrows), hmirrored⟩
    | stateUpdate queried column u =>
        obtain ⟨r, hr, rfl⟩ := Option.map_eq_some_iff.1 hs
        obtain ⟨hfails, hok⟩ := stateUpdate_step ht hm hsafe hr
        by_cases hrc : r.1 = .ok
        · rw [if_pos hrc]
          exact ⟨(hok hrc).1, (hok hrc).2.1⟩
        · rw [if_neg hrc]
          exact hfails hrc
    | load fresh localTxns column =>
        obtain ⟨r, hr, ht'⟩ := Option.bind_eq_some_iff.1 hs
        split_ifs at ht' with hstarts
        obtain rfl := Option.some.inj ht'
        obtain ⟨htracked, hmirrored, -⟩ := load_step ht hm hsafe.1 hsafe.2 hstarts hr
        exact ⟨htracked, hmirrored⟩

/-- A call that refreshes the list closes the block. -/
theorem refreshedFrom_of_refreshes {s t : Recorded D} {call : NodeCall D} (ht : Tracked s)
    (hm : Mirrored env s.core) (hsafe : Safe env s call) (hrefreshes : call.Refreshes env s)
    (hstep : s.step env call = some t) : RefreshedFrom s.core.id (call.rows s) t.core := by
  cases call with
  | newAuthorization log => exact hrefreshes.elim
  | block call =>
      obtain rfl := Option.some.inj hstep
      cases call with
      | commitBlock header body votes =>
          have houtcome := commitBlock_outcome env s.core header body votes
          change RefreshedFrom s.core.id s.core.db.worker.nodes
            (aergoliteCommitBlock env s.core header body votes).2
          change (aergoliteCommitBlock env s.core header body votes).1 = .ok at hrefreshes
          generalize aergoliteCommitBlock env s.core header body votes = r at houtcome hrefreshes ⊢
          cases houtcome with
          | misuse => exact absurd hrefreshes nofun
          | failed fails _ _ => exact absurd hrefreshes fails
          | half fails _ _ _ => exact absurd hrefreshes fails
          | committed _ _ _ stored =>
              exact ⟨stored.closed.1, stored.constants.1, congrArg Worker.nodes stored.worker⟩
      | beginBlock => exact hrefreshes.elim
      | executeTransaction _ _ _ => exact hrefreshes.elim
      | createBlock _ => exact hrefreshes.elim
      | verifyBlock _ _ => exact hrefreshes.elim
      | rollbackBlock => exact hrefreshes.elim
  | stateUpdate queried column u =>
      obtain ⟨b, hb⟩ := hrefreshes
      obtain ⟨r, hr, rfl⟩ := Option.map_eq_some_iff.1 hstep
      obtain rfl := Option.some.inj (hb.symm.trans hr)
      exact ((stateUpdate_step ht hm hsafe hr).2 rfl).2.2
  | load fresh localTxns column =>
      obtain ⟨b, hb⟩ := hrefreshes
      obtain ⟨r, hr, ht'⟩ := Option.bind_eq_some_iff.1 hstep
      obtain rfl := Option.some.inj (hb.symm.trans hr)
      split_ifs at ht' with hstarts
      obtain rfl := Option.some.inj ht'
      have hid : (s.core.process fresh).id = s.core.id := by cases fresh <;> rfl
      exact hid ▸ (load_step ht hm hsafe.1 hsafe.2 hstarts hr).2.2 rfl

instance (id : ℤ) (rows : List AllowedNode) : Decidable (OwnLight id rows) := by
  unfold OwnLight
  infer_instance

instance (a : Aergolite D) (header : Header) (body : Body) (votes : List VoteItem) :
    Decidable (SafeCommit a header body votes) :=
  decidable_of_iff (_ ∧ _) ⟨fun h => ⟨h.1, h.2⟩, fun h => ⟨h.listed, h.query⟩⟩

instance (a : Aergolite D) : ∀ call : BlockCall, Decidable (SafeBlock a call)
  | .beginBlock => inferInstanceAs (Decidable (a.saved.isSome = true → a.db.nodesChanged = false))
  | .commitBlock header body votes =>
    inferInstanceAs (Decidable (a.db.nodesChanged = true → SafeCommit a header body votes))
  | .executeTransaction .. | .createBlock _ | .verifyBlock .. | .rollbackBlock =>
    inferInstanceAs (Decidable True)

instance (env : Env D) (s : Recorded D) (log : Log) : Decidable (SafeAuthorization env s log) := by
  unfold SafeAuthorization
  infer_instance

instance (env : Env D) (adminPubkey : Bytes) (keys : List Bytes) (column : ℤ → Log)
    (rows : List AllowedNode) : Decidable (RowsAuthorized env adminPubkey keys column rows) :=
  decidable_of_iff (_ ∧ _ ∧ _ ∧ _)
    ⟨fun h => ⟨h.1, h.2.1, h.2.2.1, h.2.2.2⟩, fun h => ⟨h.distinct, h.ids, h.known, h.authorized⟩⟩

instance (env : Env D) (adminPubkey : Bytes) (keys : List Bytes) (localTxns : List Log) :
    Decidable (LocalAuthorized env adminPubkey keys localTxns) := by
  unfold LocalAuthorized
  infer_instance

instance (env : Env D) (a : Aergolite D) (column : ℤ → Log) (u : ReceivedState D) :
    Decidable (SafeUpdate env a column u) :=
  decidable_of_iff (_ ∧ _ ∧ _ ∧ _ ∧ _ ∧ _)
    ⟨fun h => ⟨h.1, h.2.1, h.2.2.1, h.2.2.2.1, h.2.2.2.2.1, h.2.2.2.2.2⟩,
      fun h => ⟨h.distinct, h.rows, h.used, h.height, h.commits, h.query⟩⟩

instance (env : Env D) (localTxns : List Log) (column : ℤ → Log) (a : Aergolite D) :
    Decidable (SafeLoad env localTxns column a) :=
  decidable_of_iff (_ ∧ _ ∧ _ ∧ _ ∧ _ ∧ _ ∧ _)
    ⟨fun h => ⟨h.1, h.2.1, h.2.2.1, h.2.2.2.1, h.2.2.2.2.1, h.2.2.2.2.2.1, h.2.2.2.2.2.2⟩,
      fun h => ⟨h.closed, h.distinct, h.specials, h.rows, h.queries, h.height, h.empty⟩⟩

/-- Safe calls can be told from others. -/
instance [DecidableEq D] (env : Env D) (s : Recorded D) (call : NodeCall D) :
    Decidable (Safe env s call) := by
  cases call <;> unfold Safe <;> infer_instance

/-- An environment with one address, that of the node 1. -/
def oneAddressEnv : Env Unit := { plainEnv with codec :=
  ⟨fun address => if address = List.replicate 52 'A' then some (List.replicate 33 1) else none,
    fun _ => 1, fun _ => false⟩ }

/-- The authorization of the node 1 with a type, signed by the admin. -/
def authorizeOne (type : String) : Log :=
  let sql := addNodePrefix ++ type.toList ++ ':' :: List.replicate 52 'A'
  let data := int64Text 1 ++ '\n' :: "d".toList ++ '\n' :: sql
  let admin : Bytes := List.replicate 33 9
  [.int64 1, .datetime "d".toList, .string sql, .bool true,
    .list [.bool true, .blob admin, .blob (plainSign admin (plainCrypto.sha256 data))]]

/-- The node 1 before it is authorized. -/
def newNode : Recorded Unit := ⟨freshAergolite 1 (List.replicate 33 1) [] [], []⟩

/-- The node is authorized, and makes the first block with its authorization. -/
def firstBlockCalls (type : String) : List (NodeCall Unit) :=
  [.newAuthorization (authorizeOne type), .block .beginBlock,
    .block (.executeTransaction 1 1 (authorizeOne type)), .block (.createBlock 0)]

/-- The commit of the first block, with the vote of the node. -/
def commitFirst : NodeCall Unit :=
  let key : Bytes := List.replicate 33 1
  let header : Header := ⟨1, [], [], [], 1, [], plainSign key []⟩
  .block (.commitBlock header ⟨[buildTransactionId 1 1], []⟩ [⟨1, plainSign key header.id, 1⟩])

theorem newNode_new : newNode.New := ⟨rfl, rfl, ⟨rfl, rfl⟩, rfl, rfl⟩

/-- The load of the databases by a new process. -/
def reopen (type : String) : NodeCall Unit := .load true [] fun _ => authorizeOne type

end Core
end AergoLite
