/-
# Blocks in the core

The functions of `core/sqlite3.c` that execute a block: `aergolite_begin_block`
opens it, `aergolite_execute_transaction` adds a transaction,
`aergolite_verify_block` compares the outcome with the header and the body of a
received block or `aergolite_create_block` makes them, and then
`aergolite_commit_block` or `aergolite_rollback_block` closes it.

Of the authorization list these functions change the nonces only, as
`SameRoster` says, except for a commit, which reads `since_block` and the node
types from the table `aergolite_nodes`.
-/

import AergoLite.Core.Execution

namespace AergoLite
namespace Core

/-- What the program takes from libraries and from the machine: the curve library,
the SQL engine, the page hashes and the encoding of a block header. -/
structure Env (D : Type) where
  crypto : Crypto
  codec : Codec
  engine : Engine D
  /-- `secp256k1_ecdsa_sign` of a hash, by the owner of a public key. -/
  ecdsaSign : Bytes → Bytes → Option Bytes
  /-- The list of the pages in which the second database differs from the first. -/
  modifiedPages : Worker D → Worker D → Bytes
  /-- `calc_new_state_hash`. -/
  stateHash : Worker D → Bytes
  /-- `calc_txns_hash`. -/
  txnsHash : List (BitVec 64) → Bytes
  /-- The header data `build_block_header` signs: timestamp, height, previous
  hash, transactions hash, state hash and node id. -/
  headerData : ℤ → ℤ → Bytes → Bytes → Bytes → ℤ → Text

/-- `active_block`, with the header and the body that were verified. -/
structure ActiveBlock where
  height : ℤ
  prevHash : Bytes
  id : Bytes
  verified : Option (Header × Body)

/-- `struct aergolite`.  `saved` is what the databases were when the block was
opened, and `txnIds` is null unless one is open. -/
structure Aergolite (D : Type) where
  id : ℤ
  pubkey : Bytes
  hasPrivkey : Bool
  isFullNode : Bool
  adminPubkey : Bytes
  authorizations : List NodeAuth
  db : Databases D
  saved : Option (Worker D × StateDb)
  blockHeight : ℤ
  blockId : Bytes
  activeBlock : ActiveBlock
  txnIds : Option (List (BitVec 64))

variable {D : Type}

/-- The first entry for a node is updated, as the `update_auth_…` functions do. -/
def updateAuth (nodeId : ℤ) (set : NodeAuth → NodeAuth) : List NodeAuth → List NodeAuth
  | [] => []
  | auth :: auths =>
    if auth.nodeId = nodeId then set auth :: auths else auth :: updateAuth nodeId set auths

/-- `update_auth_last_nonce`. -/
def updateAuthLastNonce (nodeId lastNonce : ℤ) : List NodeAuth → List NodeAuth :=
  updateAuth nodeId fun auth => { auth with lastNonce }

/-- `save_auth_nonces`. -/
def saveAuthNonces (auths : List NodeAuth) : List NodeAuth :=
  auths.map fun auth => { auth with savedNonce := auth.lastNonce }

/-- `reload_auth_nonces`. -/
def reloadAuthNonces (auths : List NodeAuth) : List NodeAuth :=
  auths.map fun auth => { auth with lastNonce := auth.savedNonce }

/-- `update_authorizations_cb`: `update_auth_type` and `update_auth_first_block`. -/
def updateAuthorizationsCb (a : Aergolite D) (row : AllowedNode) : Aergolite D :=
  let isFullNode := row.type == "full".toList
  if a.authorizations.any fun auth => auth.nodeId == row.nodeId then
    { a with
      authorizations := updateAuth row.nodeId
        (fun auth => { auth with isFullNode, sinceBlock := row.firstBlock }) a.authorizations }
  else if a.id = row.nodeId then { a with isFullNode } else a

/-- `update_authorizations`. -/
def updateAuthorizations (a : Aergolite D) : Aergolite D :=
  let (rc, db) := a.db.command
  let a := { a with db }
  if rc ≠ .ok then a else a.db.worker.nodes.foldl updateAuthorizationsCb a

/-- `aergolite_sign_raw`. -/
def aergoliteSignRaw (env : Env D) (a : Aergolite D) (hash : Bytes) : Except Rc Bytes :=
  if !a.hasPrivkey then .error .empty
  else match env.ecdsaSign a.pubkey hash with
    | none => .error .error
    | some sig => .ok sig

/-- `aergolite_verify_raw`, called with a node id. -/
def Aergolite.verifyRaw (env : Env D) (a : Aergolite D) (hash : Bytes) (nodeId : ℤ)
    (signature : Bytes) : Rc :=
  aergoliteVerifyRawById env.crypto a.authorizations a.db.worker.nodes hash nodeId signature

/-- `cleanup_block`. -/
def cleanupBlock (a : Aergolite D) : Aergolite D :=
  { a with txnIds := none, activeBlock := ⟨0, [], [], none⟩, saved := none }

/-- `aergolite_rollback_block`. -/
def aergoliteRollbackBlock (a : Aergolite D) : Aergolite D :=
  let db := match a.saved with
    | none => a.db
    | some (worker, state) => { a.db with worker, state }
  { cleanupBlock { a with db } with authorizations := reloadAuthNonces a.authorizations }

/-- `aergolite_prepare_db`: three tables are created, which here exist already. -/
def aergolitePrepareDb (db : Databases D) : Rc × Databases D :=
  let (rc, db) := db.command
  if rc ≠ .ok then (rc, db)
  else
    let (rc, db) := db.command
    if rc ≠ .ok then (rc, db) else db.command

/-- `aergolite_begin_block`.  `BEGIN` fails while another block is open. -/
def aergoliteBeginBlock (a : Aergolite D) : Rc × Aergolite D :=
  let (rc, db) := { a.db with nodesChanged := false, configChanged := false }.command
  if rc ≠ .ok || a.saved.isSome then (.busy, { a with db })
  else
    let (rc, db) := db.command
    if rc ≠ .ok then (.busy, { a with db })
    else
      let a : Aergolite D := { a with
        db := { db with txnCount := 0 }
        saved := some (db.worker, db.state)
        activeBlock := ⟨a.blockHeight + 1, a.blockId, [], none⟩ }
      let (rc, db) := if a.activeBlock.height = 1 then aergolitePrepareDb a.db else (.ok, a.db)
      if rc ≠ .ok then (rc, aergoliteRollbackBlock { a with db })
      else (.ok, { a with
        db
        txnIds := some []
        authorizations := saveAuthNonces a.authorizations })

/-- The sign bit of a transaction id, set when the transaction failed. -/
def failedFlag : BitVec 64 := 0x8000000000000000#64

/-- An id without its flag. -/
theorem toNat_unflagged (tid : BitVec 64) : (tid &&& ~~~failedFlag).toNat = tid.toNat % 2 ^ 63 := by
  have hmask : (~~~failedFlag).toNat = 2 ^ 63 - 1 := by decide
  rw [BitVec.toNat_and, hmask, Nat.and_two_pow_sub_one_eq_mod]

theorem unflagged_flagged (tid : BitVec 64) :
    (tid ||| failedFlag) &&& ~~~failedFlag = tid &&& ~~~failedFlag := by
  unfold failedFlag
  ext i hi
  simp only [BitVec.getElem_and, BitVec.getElem_or, BitVec.getElem_not]
  cases tid[i] <;> simp

/-- `aergolite_execute_transaction`. -/
def aergoliteExecuteTransaction (env : Env D) (a : Aergolite D) (nodeId nonce : ℤ) (log : Log) :
    Rc × Aergolite D :=
  let tid := buildTransactionId nodeId nonce
  let r := executeTransaction env.codec env.engine a.isFullNode a.authorizations
    a.activeBlock.height nodeId nonce tid log a.db
  if r.rc = .ok then
    (.ok, { a with
      db := r.db
      txnIds := a.txnIds.map (· ++ [tid])
      authorizations := updateAuthLastNonce nodeId nonce a.authorizations })
  else if r.rc = .busy ∨ r.rc = .perm then (r.rc, { a with db := r.db })
  else
    -- the transaction failed: its nonce is used all the same
    let db := { r.db with txnCount := r.db.txnCount + 1 }
    (r.rc, { a with
      db := (updateNodeLastNonce nodeId nonce db).2
      txnIds := a.txnIds.map (· ++ [tid ||| failedFlag])
      authorizations := updateAuthLastNonce nodeId nonce a.authorizations })

/-- `read_block_header`: the signature on the header data. -/
def readBlockHeader (env : Env D) (a : Aergolite D) (header : Header) : Rc :=
  a.verifyRaw env (env.crypto.sha256 header.data) header.nodeId header.sig

/-- `aergolite_verify_block_header`. -/
def aergoliteVerifyBlockHeader (env : Env D) (a : Aergolite D) (header : Header) (body : Body) :
    Rc :=
  if readBlockHeader env a header ≠ .ok then readBlockHeader env a header
  else if env.txnsHash body.txnIds ≠ header.txnsHash then .invalid
  else .ok

/-- `compare_modified_pages`. -/
def compareModifiedPages (env : Env D) (a : Aergolite D) (body : Body) : Rc :=
  match a.saved with
  | none => .invalid
  | some (worker, _) =>
    if env.modifiedPages worker a.db.worker = body.modPages then .ok else .invalid

/-- `aergolite_verify_block`. -/
def aergoliteVerifyBlock (env : Env D) (a : Aergolite D) (header : Header) (body : Body) :
    Rc × Aergolite D :=
  if a.txnIds.isNone then (.misuse, a)
  else if readBlockHeader env a header ≠ .ok then (readBlockHeader env a header, a)
  else
    let a := { a with activeBlock := { a.activeBlock with id := header.id } }
    if header.height ≠ a.blockHeight + 1 then (.invalid, a)
    else if header.prevHash ≠ a.blockId then (.invalid, a)
    else
      let (rc, db) := a.db.command
      let a := { a with db }
      if rc ≠ .ok then (rc, aergoliteRollbackBlock a)
      else if compareModifiedPages env a body ≠ .ok then (.invalid, aergoliteRollbackBlock a)
      else if env.stateHash a.db.worker ≠ header.stateHash then
        (.invalid, aergoliteRollbackBlock a)
      else (.ok, { a with
        activeBlock := { a.activeBlock with verified := some (header, body) } })

/-- `aergolite_create_block`, at a time: the header and the body. -/
def aergoliteCreateBlock (env : Env D) (timestamp : ℤ) (a : Aergolite D) :
    Except Rc (Header × Body) × Aergolite D :=
  match a.txnIds, a.saved with
  | some txnIds, some (worker, _) =>
    if txnIds = [] then (.error .empty, aergoliteRollbackBlock a)
    else
      let (rc, db) := a.db.command
      let a := { a with db }
      if rc ≠ .ok then (.error rc, aergoliteRollbackBlock a)
      else
        let txnsHash := env.txnsHash txnIds
        let stateHash := env.stateHash a.db.worker
        let data := env.headerData timestamp a.activeBlock.height a.activeBlock.prevHash txnsHash
          stateHash a.id
        match aergoliteSignRaw env a (env.crypto.sha256 data) with
        | .error rc => (.error rc, aergoliteRollbackBlock a)
        | .ok sig =>
          let header : Header :=
            ⟨a.activeBlock.height, a.activeBlock.prevHash, txnsHash, stateHash, a.id, data, sig⟩
          let body : Body := ⟨txnIds, env.modifiedPages worker a.db.worker⟩
          (.ok (header, body), { a with activeBlock := { a.activeBlock with
            id := header.id
            verified := some (header, body) } })
  | _, _ => (.error .misuse, a)

/-- `save_block`; the height is the primary key. -/
def saveBlock (row : BlockRow) (db : Databases D) : Rc × Databases D :=
  let (rc, db) := db.command
  if rc ≠ .ok then (rc, db)
  else if db.state.blocks.any fun other => other.height == row.height then (.constraint, db)
  else (.ok, { db with state := { db.state with blocks := db.state.blocks ++ [row] } })

/-- The commands of `aergolite_commit_block` up to the one that commits the worker
database. -/
def storeBlock (row : BlockRow) (db : Databases D) : Rc × Databases D :=
  let (rc, db) := db.command
  if rc ≠ .ok then (.busy, db)
  else
    let (rc, db) := db.command
    if rc ≠ .ok then (rc, db)
    else
      let (rc, db) := saveBlock row db
      if rc ≠ .ok then (rc, db) else db.command

/-- `aergolite_commit_block`. -/
def aergoliteCommitBlock (env : Env D) (a : Aergolite D) (header : Header) (body : Body)
    (votes : List VoteItem) : Rc × Aergolite D :=
  if a.txnIds.isNone || a.activeBlock.height ≤ 0 then (.misuse, a)
  else if a.activeBlock.verified ≠ some (header, body) then (.misuse, a)
  else if compareModifiedPages env a body ≠ .ok then (.invalid, aergoliteRollbackBlock a)
  else
    let (rc, db) := storeBlock ⟨a.activeBlock.height, header, body, votes⟩ a.db
    if rc ≠ .ok then (rc, aergoliteRollbackBlock { a with db })
    else
      -- the worker database is committed: a rollback does not undo it any more
      let saved := a.saved.map fun s => (db.worker, s.2)
      let (rc, db) := db.command
      if rc ≠ .ok then (rc, aergoliteRollbackBlock { a with db, saved })
      else
        let a := cleanupBlock { a with
          db
          blockHeight := a.activeBlock.height
          blockId := a.activeBlock.id }
        (.ok, if a.db.nodesChanged then updateAuthorizations a else a)

theorem command_state (db : Databases D) : db.command.2.state = db.state := by
  unfold Databases.command
  split <;> rfl

theorem updateAuthorizations_state (a : Aergolite D) :
    (updateAuthorizations a).db.state = a.db.state := by
  have hrows : ∀ (rows : List AllowedNode) (b : Aergolite D),
      (rows.foldl updateAuthorizationsCb b).db = b.db := by
    intro rows
    induction rows with
    | nil => exact fun b => rfl
    | cons row rows ih =>
        intro b
        rw [List.foldl_cons, ih]
        unfold updateAuthorizationsCb
        dsimp only
        split_ifs <;> rfl
  unfold updateAuthorizations
  dsimp only
  split_ifs
  · exact command_state a.db
  · rw [hrows]
    exact command_state a.db

theorem saveBlock_stores {row : BlockRow} {db : Databases D} (h : (saveBlock row db).1 = .ok) :
    row ∈ (saveBlock row db).2.state.blocks := by
  unfold saveBlock at h ⊢
  dsimp only at h ⊢
  split_ifs at h ⊢ with hrc hsaved
  · exact absurd h hrc
  · exact List.mem_append_right _ List.mem_cons_self

theorem storeBlock_stores {row : BlockRow} {db : Databases D} (h : (storeBlock row db).1 = .ok) :
    row ∈ (storeBlock row db).2.state.blocks := by
  unfold storeBlock at h ⊢
  dsimp only at h ⊢
  split_ifs at h ⊢ with hbegin hrc hsaved
  · exact absurd h hrc
  · exact absurd h hsaved
  · rw [command_state]
    exact saveBlock_stores (not_not.1 hsaved)

/-- **A block that is committed is stored**, with its votes. -/
theorem aergoliteCommitBlock_stores {env : Env D} {a : Aergolite D} {header : Header}
    {body : Body} {votes : List VoteItem}
    (h : (aergoliteCommitBlock env a header body votes).1 = .ok) :
    ⟨a.activeBlock.height, header, body, votes⟩ ∈
      (aergoliteCommitBlock env a header body votes).2.db.state.blocks := by
  unfold aergoliteCommitBlock at h ⊢
  dsimp only at h ⊢
  split_ifs at h ⊢ with _ _ _ hstored hrc
  · exact absurd h hstored
  · exact absurd h hrc
  · rw [updateAuthorizations_state]
    exact (command_state _).symm ▸ storeBlock_stores (not_not.1 hstored)
  · exact (command_state _).symm ▸ storeBlock_stores (not_not.1 hstored)

/-- What voting reads of the authorization list: the nodes, their keys and the
blocks that authorized them, but not the nonces and the node types. -/
def roster (auths : List NodeAuth) : List NodeAuth :=
  auths.map fun auth => { auth with
    isFullNode := false
    lastNonce := 0
    savedNonce := 0 }

/-- The key stays, and so do the nodes of the list, their keys and the blocks that
authorized them. -/
structure SameRoster (a b : Aergolite D) : Prop where
  pubkey : b.pubkey = a.pubkey
  roster : roster b.authorizations = roster a.authorizations

theorem SameRoster.refl (a : Aergolite D) : SameRoster a a := ⟨rfl, rfl⟩

theorem SameRoster.trans {a b c : Aergolite D} (h : SameRoster a b) (h' : SameRoster b c) :
    SameRoster a c :=
  ⟨h'.pubkey.trans h.pubkey, h'.roster.trans h.roster⟩

/-- An update of an entry keeps what it does not change. -/
theorem map_updateAuth {β : Type} {f : NodeAuth → β} {set : NodeAuth → NodeAuth} {nodeId : ℤ}
    (h : ∀ auth, f (set auth) = f auth) (auths : List NodeAuth) :
    (updateAuth nodeId set auths).map f = auths.map f := by
  induction auths with
  | nil => rfl
  | cons auth auths ih =>
      rw [updateAuth]
      split_ifs
      · rw [List.map_cons, List.map_cons, h]
      · rw [List.map_cons, List.map_cons, ih]

@[simp] theorem roster_saveAuthNonces (auths : List NodeAuth) :
    roster (saveAuthNonces auths) = roster auths := by
  simp [roster, saveAuthNonces]

@[simp] theorem roster_reloadAuthNonces (auths : List NodeAuth) :
    roster (reloadAuthNonces auths) = roster auths := by
  simp [roster, reloadAuthNonces]

@[simp] theorem roster_updateAuthLastNonce (nodeId nonce : ℤ) (auths : List NodeAuth) :
    roster (updateAuthLastNonce nodeId nonce auths) = roster auths := by
  refine map_updateAuth ?_ auths
  exact fun _ => rfl

theorem sameRoster_rollbackBlock (a : Aergolite D) : SameRoster a (aergoliteRollbackBlock a) :=
  ⟨rfl, roster_reloadAuthNonces _⟩

theorem sameRoster_beginBlock (a : Aergolite D) : SameRoster a (aergoliteBeginBlock a).2 := by
  unfold aergoliteBeginBlock
  dsimp only
  split_ifs
  all_goals first
    | exact ⟨rfl, rfl⟩
    | exact ⟨rfl, roster_reloadAuthNonces _⟩
    | exact ⟨rfl, roster_saveAuthNonces _⟩

theorem sameRoster_executeTransaction (env : Env D) (a : Aergolite D) (nodeId nonce : ℤ)
    (log : Log) : SameRoster a (aergoliteExecuteTransaction env a nodeId nonce log).2 := by
  unfold aergoliteExecuteTransaction
  dsimp only
  split_ifs
  · exact ⟨rfl, roster_updateAuthLastNonce _ _ _⟩
  · exact ⟨rfl, rfl⟩
  · exact ⟨rfl, roster_updateAuthLastNonce _ _ _⟩

theorem sameRoster_verifyBlock (env : Env D) (a : Aergolite D) (header : Header) (body : Body) :
    SameRoster a (aergoliteVerifyBlock env a header body).2 := by
  unfold aergoliteVerifyBlock
  dsimp only
  split_ifs
  all_goals first
    | exact ⟨rfl, rfl⟩
    | exact ⟨rfl, roster_reloadAuthNonces _⟩

theorem sameRoster_createBlock (env : Env D) (timestamp : ℤ) (a : Aergolite D) :
    SameRoster a (aergoliteCreateBlock env timestamp a).2 := by
  unfold aergoliteCreateBlock
  split
  · dsimp only
    split_ifs
    · exact sameRoster_rollbackBlock a
    · exact ⟨rfl, roster_reloadAuthNonces _⟩
    · split
      · exact ⟨rfl, roster_reloadAuthNonces _⟩
      · exact ⟨rfl, rfl⟩
  · exact SameRoster.refl a

/-- The nodes of the list and their keys. -/
def authKeys (auths : List NodeAuth) : List (ℤ × Bytes) :=
  auths.map fun auth => (auth.nodeId, auth.pk)

@[simp] theorem authKeys_roster (auths : List NodeAuth) :
    authKeys (roster auths) = authKeys auths := by
  simp [authKeys, roster]

theorem authKeys_of_roster {auths auths' : List NodeAuth} (h : roster auths' = roster auths) :
    authKeys auths' = authKeys auths := by
  rw [← authKeys_roster, h, authKeys_roster]

theorem authKeys_updateAuthorizationsCb (a : Aergolite D) (row : AllowedNode) :
    authKeys (updateAuthorizationsCb a row).authorizations = authKeys a.authorizations ∧
      (updateAuthorizationsCb a row).pubkey = a.pubkey := by
  unfold updateAuthorizationsCb
  dsimp only
  split_ifs
  · refine ⟨map_updateAuth ?_ a.authorizations, rfl⟩
    exact fun _ => rfl
  · exact ⟨rfl, rfl⟩
  · exact ⟨rfl, rfl⟩

theorem authKeys_updateAuthorizations (a : Aergolite D) :
    authKeys (updateAuthorizations a).authorizations = authKeys a.authorizations ∧
      (updateAuthorizations a).pubkey = a.pubkey := by
  unfold updateAuthorizations
  dsimp only
  split_ifs
  · exact ⟨rfl, rfl⟩
  · suffices h : ∀ (rows : List AllowedNode) (b : Aergolite D),
        authKeys (rows.foldl updateAuthorizationsCb b).authorizations =
            authKeys b.authorizations ∧
          (rows.foldl updateAuthorizationsCb b).pubkey = b.pubkey from h _ _
    intro rows
    induction rows with
    | nil => exact fun b => ⟨rfl, rfl⟩
    | cons row rows ih =>
        intro b
        obtain ⟨hkeys, hpubkey⟩ := authKeys_updateAuthorizationsCb b row
        exact ⟨(ih _).1.trans hkeys, (ih _).2.trans hpubkey⟩

/-- **What a commit does to the list.**  The nodes and their keys stay; if it fails,
so do the blocks that authorized them. -/
theorem roster_commitBlock (env : Env D) (a : Aergolite D) (header : Header) (body : Body)
    (votes : List VoteItem) :
    let r := aergoliteCommitBlock env a header body votes
    r.2.pubkey = a.pubkey ∧ authKeys r.2.authorizations = authKeys a.authorizations ∧
      (r.1 ≠ .ok → roster r.2.authorizations = roster a.authorizations) := by
  have hrollback : ∀ b : Aergolite D, b.authorizations = a.authorizations → b.pubkey = a.pubkey →
      (aergoliteRollbackBlock b).pubkey = a.pubkey ∧
        authKeys (aergoliteRollbackBlock b).authorizations = authKeys a.authorizations ∧
        roster (aergoliteRollbackBlock b).authorizations = roster a.authorizations := by
    intro b hb hkey
    have h := sameRoster_rollbackBlock b
    rw [← hb, ← hkey]
    exact ⟨h.pubkey, authKeys_of_roster h.roster, h.roster⟩
  unfold aergoliteCommitBlock
  dsimp only
  split_ifs
  · exact ⟨rfl, rfl, fun _ => rfl⟩
  · exact ⟨rfl, rfl, fun _ => rfl⟩
  · obtain ⟨h, hkeys, hroster⟩ := hrollback a rfl rfl
    exact ⟨h, hkeys, fun _ => hroster⟩
  all_goals first
    | (obtain ⟨h, hkeys, hroster⟩ := hrollback _ rfl rfl
       exact ⟨h, hkeys, fun _ => hroster⟩)
    | skip
  · obtain ⟨hkeys, hpubkey⟩ := authKeys_updateAuthorizations (cleanupBlock _)
    exact ⟨hpubkey, hkeys, fun h => absurd rfl h⟩
  · exact ⟨rfl, rfl, fun _ => rfl⟩

/-- An environment to evaluate the definitions with: `plainSign` makes the
signatures, every statement succeeds, and pages and hashes are not told apart. -/
def plainEnv : Env Unit where
  crypto := plainCrypto
  codec := plainCodec
  engine := obligingEngine plainSyntax
  ecdsaSign pubkey hash := some (plainSign pubkey hash)
  modifiedPages _ _ := []
  stateHash _ := []
  txnsHash _ := []
  headerData _ _ _ _ _ _ := []

/-- A node that has committed nothing yet, with an authorization list. -/
def freshAergolite (id : ℤ) (pubkey : Bytes) (authorizations : List NodeAuth)
    (nodes : List AllowedNode) : Aergolite Unit where
  id := id
  pubkey := pubkey
  hasPrivkey := true
  isFullNode := false
  adminPubkey := List.replicate 33 9
  authorizations := authorizations
  db := { emptyDatabases with worker := ⟨nodes, [], ()⟩ }
  saved := none
  blockHeight := 0
  blockId := []
  activeBlock := ⟨0, [], [], none⟩
  txnIds := none

end Core
end AergoLite
