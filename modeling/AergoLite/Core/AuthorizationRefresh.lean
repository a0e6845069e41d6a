/-
# Loading the authorization list

Three functions of `core/sqlite3.c` bring the list in memory up to date with the table
`aergolite_nodes`:

* `load_authorizations`, when a node loads its database, after the authorizations that it has
  written itself, on `wal-local`;
* `reload_authorizations`, after a state update;
* `update_authorizations`, after a commit (`Core.Blocks`), which adds no entry and reads no
  nonce.

Each is a loop over the rows.  The step for a row writes the first entry with the id of the row,
so on a list whose ids are distinct it is a refresh of a view (`Library.Refresh`):
`updateAuthorizations_refreshed` and `reloadAuthorizations_refreshed`.

`update_auth_type` also keeps the type of this node in `this_node->is_full_node`, but it returns
as soon as the entry is found.
-/

import AergoLite.Core.Calls
import AergoLite.Core.LastNonces
import AergoLite.Library.Refresh

namespace AergoLite
namespace Core

open Refresh

variable {D : Type}

/-! ## The functions -/

/-- `aergolite_new_authorization`. -/
def Aergolite.newAuthorization (env : Env D) (a : Aergolite D) (log : Log) :
    Option (Rc × Aergolite D) :=
  (aergoliteNewAuthorization env.crypto env.codec a.adminPubkey a.authorizations log).map
    fun
    | .ok (authorizations, _) => (.ok, { a with authorizations })
    | .error rc => (rc, a)

/-- `load_authorizations_cb1`. -/
def loadAuthorizationsCb1 (env : Env D) (a : Aergolite D) (log : Log) :
    Option (Rc × Aergolite D) :=
  if isSpecialTransaction log then
    (a.newAuthorization env log).map fun (rc, a) => (if rc = .exist then .ok else rc, a)
  else some (.ok, a)

/-- `aergoliteIterateWal` over the local transactions, with `load_authorizations_cb1`. -/
def iterateLocalTxns (env : Env D) (a : Aergolite D) : List Log → Option (Rc × Aergolite D)
  | [] => some (.ok, a)
  | log :: logs => do
    let (rc, a) ← loadAuthorizationsCb1 env a log
    if rc ≠ .ok then some (rc, a) else iterateLocalTxns env a logs

/-- The three updates of an entry that `load_authorizations_cb2` makes; the first two are those
of `update_authorizations_cb`. -/
def refreshAuth (a : Aergolite D) (row : AllowedNode) : Aergolite D :=
  let a := updateAuthorizationsCb a row
  { a with authorizations := updateAuthLastNonce row.nodeId row.lastNonce a.authorizations }

/-- `load_authorizations_cb2`.  The column `authorization` of the table is a function of the
primary key. -/
def loadAuthorizationsCb2 (env : Env D) (column : ℤ → Log) (a : Aergolite D)
    (row : AllowedNode) : Option (Aergolite D) :=
  (a.newAuthorization env (column row.nodeId)).map fun (rc, a) =>
    if rc = .ok ∨ rc = .exist then refreshAuth a row else a

/-- `reload_authorizations`, and the second half of `load_authorizations`. -/
def reloadAuthorizations (env : Env D) (column : ℤ → Log) (a : Aergolite D) :
    Option (Aergolite D) :=
  let (rc, db) := a.db.command
  let a := { a with db }
  if rc ≠ .ok then some a else a.db.worker.nodes.foldlM (loadAuthorizationsCb2 env column) a

/-- `load_authorizations`; its result code is not read. -/
def loadAuthorizations (env : Env D) (localTxns : List Log) (column : ℤ → Log)
    (a : Aergolite D) : Option (Aergolite D) := do
  let (rc, a) ← iterateLocalTxns env a localTxns
  if rc ≠ .ok ∧ rc ≠ .empty then some a else reloadAuthorizations env column a

/-- `LOAD_BLOCK_LAST`: the block with the greatest height. -/
def lastBlock (blocks : List BlockRow) : Option BlockRow :=
  blocks.find? fun block => blocks.all fun other => other.height ≤ block.height

/-- The end of `aergolite_load_current_state`: the votes, and the last block. -/
def loadLastBlock (env : Env D) (block : BlockRow) (a : Aergolite D) : Rc × Aergolite D :=
  let rc := verifyBlockVotes env.crypto a.authorizations a.db.worker.nodes block.height
    block.header.id block.votes false
  if rc ≠ .ok then (rc, a)
  else (.ok, { a with blockHeight := block.header.height, blockId := block.header.id })

/-- `aergolite_load_current_state`: the last block and the list of page hashes are queried, and
the state is compared with the block. -/
def aergoliteLoadCurrentState (env : Env D) (localTxns : List Log) (column : ℤ → Log)
    (a : Aergolite D) : Option (Rc × Aergolite D) :=
  let (rc, db) := a.db.command
  let a := { a with db }
  if rc ≠ .ok then some (rc, a)
  else
    let (rc, db) := a.db.command
    let a := { a with db }
    if rc ≠ .ok then some (rc, a)
    else match lastBlock a.db.state.blocks with
      | none => some (.empty, a)
      | some block =>
        if block.height = 0 then some (.empty, a)
        else if readBlockHeader env a block.header ≠ .ok then
          some (readBlockHeader env a block.header, a)
        else if env.stateHash a.db.worker ≠ block.header.stateHash then some (.invalid, a)
        else (loadAuthorizations env localTxns column a).map (loadLastBlock env block)

/-- The state of a process that opens the databases: what was not committed is gone. -/
def newProcess (a : Aergolite D) : Aergolite D :=
  let (worker, state) := a.saved.getD (a.db.worker, a.db.state)
  { cleanupBlock a with
    isFullNode := false
    authorizations := []
    db := { a.db with worker, state, nodesChanged := false, configChanged := false, txnCount := 0 }
    blockHeight := 0
    blockId := [] }

/-- A state update that is received: the worker database once its pages are written, and the
last block of the sender. -/
structure ReceivedState (D : Type) where
  worker : Worker D
  header : Header
  votes : List VoteItem

/-- The row that a state update stores; it has no body. -/
def ReceivedState.row (u : ReceivedState D) : BlockRow := ⟨u.header.height, u.header, ⟨[], []⟩, u.votes⟩

/-- What a state update saves, up to the commit of the worker database: the list of modified
pages, the page hashes and the block. -/
def saveState (row : BlockRow) (db : Databases D) : Rc × Databases D :=
  let (rc, db) := db.command
  if rc ≠ .ok then (rc, db)
  else
    let (rc, db) := db.command
    if rc ≠ .ok then (rc, db)
    else
      let (rc, db) := saveBlock row db
      if rc ≠ .ok then (rc, db) else db.command

/-- What `aergolite_apply_state_update` verifies: the signature of the header, the state hash and
the votes.  The rows of the table that it is able to read are given. -/
def verifyState (env : Env D) (queried : List AllowedNode) (u : ReceivedState D)
    (a : Aergolite D) : Rc :=
  let rc := aergoliteVerifyRawById env.crypto a.authorizations queried
    (env.crypto.sha256 u.header.data) u.header.nodeId u.header.sig
  if rc ≠ .ok then rc
  else if env.stateHash u.worker ≠ u.header.stateHash then .invalid
  else verifyBlockVotes env.crypto a.authorizations queried u.header.height u.header.id u.votes true

/-- The node once the databases are committed. -/
def stateApplied (u : ReceivedState D) (db : Databases D) (a : Aergolite D) : Aergolite D :=
  { a with
    db := { db with worker := u.worker }
    blockHeight := u.header.height
    blockId := u.header.id }

/-- `aergolite_begin_state_update` with the pages, and `aergolite_apply_state_update`.  A failure
is rolled back; the current state, which the code loads then, is loaded in a call of its own. -/
def aergoliteApplyStateUpdate (env : Env D) (queried : List AllowedNode) (column : ℤ → Log)
    (u : ReceivedState D) (a : Aergolite D) : Option (Rc × Aergolite D) :=
  if a.saved.isSome then some (.misuse, a)
  else
    let (rc, db) := a.db.command
    let a := { a with db }
    if rc ≠ .ok then some (rc, a)
    else if verifyState env queried u a ≠ .ok then some (verifyState env queried u a, a)
    else
      let saved := saveState u.row a.db
      if saved.1 ≠ .ok then some (saved.1, { a with db := { a.db with faults := saved.2.faults } })
      else
        let (rc, db) := saved.2.command
        if rc ≠ .ok then
          -- the worker database is committed, and the state database is not
          some (rc, { a with db := { db with worker := u.worker, state := a.db.state } })
        else (reloadAuthorizations env column (stateApplied u db a)).map fun a => (.ok, a)

/-! ## Keys and ids -/

/-- **The nodes of a list of keys can be told apart**: their ids are distinct, and not 0. -/
def Distinct (codec : Codec) (keys : List Bytes) : Prop :=
  ∀ pk ∈ keys, codec.generateNodeIdFromPubkey pk ≠ 0 ∧ ∀ pk' ∈ keys,
    codec.generateNodeIdFromPubkey pk' = codec.generateNodeIdFromPubkey pk → pk' = pk

instance (codec : Codec) (keys : List Bytes) : Decidable (Distinct codec keys) := by
  unfold Distinct
  infer_instance

/-- The entries of a list are those of some of the keys, each with its id. -/
structure Keyed (codec : Codec) (keys : List Bytes) (entries : List (ℤ × Bytes)) : Prop where
  ids : ∀ entry ∈ entries, entry.1 = codec.generateNodeIdFromPubkey entry.2
  known : ∀ entry ∈ entries, entry.2 ∈ keys
  once : (entries.map Prod.snd).Nodup

variable {codec : Codec} {keys keys' : List Bytes}

theorem Distinct.mono (h : Distinct codec keys) (hsub : ∀ pk ∈ keys', pk ∈ keys) :
    Distinct codec keys' :=
  fun pk hpk => ⟨(h pk (hsub pk hpk)).1, fun pk' hpk' => (h pk (hsub pk hpk)).2 pk' (hsub pk' hpk')⟩

theorem Keyed.mono {entries : List (ℤ × Bytes)} (h : Keyed codec keys entries)
    (hsub : ∀ pk ∈ keys, pk ∈ keys') : Keyed codec keys' entries :=
  ⟨h.ids, fun entry hentry => hsub _ (h.known entry hentry), h.once⟩

theorem map_nodeId_eq (auths : List NodeAuth) :
    auths.map NodeAuth.nodeId = (authKeys auths).map Prod.fst := by
  unfold authKeys
  rw [List.map_map]
  rfl

theorem map_pk_eq (auths : List NodeAuth) :
    auths.map NodeAuth.pk = (authKeys auths).map Prod.snd := by
  unfold authKeys
  rw [List.map_map]
  rfl

/-- Distinct keys have distinct ids. -/
theorem Keyed.nodup {auths : List NodeAuth} (h : Keyed codec keys (authKeys auths))
    (hdistinct : Distinct codec keys) : (auths.map NodeAuth.nodeId).Nodup := by
  have hids : auths.map NodeAuth.nodeId =
      (auths.map NodeAuth.pk).map codec.generateNodeIdFromPubkey := by
    rw [List.map_map]
    exact List.map_congr_left fun auth hauth => h.ids _ (List.mem_map_of_mem hauth)
  have honce := h.once
  rw [← map_pk_eq] at honce
  have hknown : ∀ pk ∈ auths.map NodeAuth.pk, pk ∈ keys := by
    intro pk hpk
    obtain ⟨auth, hauth, rfl⟩ := List.mem_map.1 hpk
    exact h.known _ (List.mem_map_of_mem hauth)
  rw [hids]
  refine List.Nodup.map_on (fun pk hpk pk' hpk' heq => ?_) honce
  exact (hdistinct pk' (hknown pk' hpk')).2 pk (hknown pk hpk) heq

/-- An entry of a list with distinct ids is the one that is found. -/
theorem getAuthorization_of_mem {auths : List NodeAuth} {auth : NodeAuth}
    (hids : (auths.map NodeAuth.nodeId).Nodup) (hmem : auth ∈ auths) :
    aergoliteGetAuthorization auths auth.nodeId = some auth := by
  induction auths with
  | nil => exact absurd hmem List.not_mem_nil
  | cons head tail ih =>
      rw [List.map_cons, List.nodup_cons] at hids
      rw [getAuthorization_cons]
      rcases List.mem_cons.1 hmem with rfl | hmem
      · rw [if_pos rfl]
      · have hne : head.nodeId ≠ auth.nodeId := fun heq =>
          hids.1 (heq ▸ List.mem_map_of_mem hmem)
        rw [if_neg hne]
        exact ih hids.2 hmem

theorem getAuthorization_of_keys {auths : List NodeAuth} {nodeId : ℤ} {pk : Bytes}
    (hids : (auths.map NodeAuth.nodeId).Nodup) (hmem : (nodeId, pk) ∈ authKeys auths) :
    ∃ auth, aergoliteGetAuthorization auths nodeId = some auth ∧ auth.pk = pk := by
  obtain ⟨auth, hauth, heq⟩ := List.mem_map.1 hmem
  obtain ⟨rfl, rfl⟩ := Prod.mk.inj heq
  exact ⟨auth, getAuthorization_of_mem hids hauth, rfl⟩

/-! ## The step for a row -/

/-- The entry has the block and the type of the row. -/
structure RecordsRow (auth : NodeAuth) (row : AllowedNode) : Prop where
  nodeId : auth.nodeId = row.nodeId
  pk : auth.pk = row.pubkey
  sinceBlock : auth.sinceBlock = row.firstBlock
  isFullNode : auth.isFullNode = (row.type == "full".toList)

/-- What a function that refreshes the list changes. -/
def SameNode (a b : Aergolite D) : Prop := b = { a with authorizations := b.authorizations }

theorem SameNode.trans {a b c : Aergolite D} (h : SameNode a b) (h' : SameNode b c) :
    SameNode a c := by
  unfold SameNode at *
  rw [h', h]

/-- The entries of the list. -/
def Aergolite.auth (a : Aergolite D) (nodeId : ℤ) : Option NodeAuth :=
  aergoliteGetAuthorization a.authorizations nodeId

/-- An entry that is found is updated where it is, and this node is not. -/
theorem updateAuthorizationsCb_spec {a : Aergolite D} {row : AllowedNode} {auth : NodeAuth}
    (hauth : a.auth row.nodeId = some auth) :
    let b := updateAuthorizationsCb a row
    SameNode a b ∧ authKeys b.authorizations = authKeys a.authorizations ∧
      b.auth row.nodeId = some { auth with
        isFullNode := row.type == "full".toList
        sinceBlock := row.firstBlock } ∧
      ∀ id, id ≠ row.nodeId → b.auth id = a.auth id := by
  obtain ⟨hmem, hid⟩ := aergoliteGetAuthorization_some hauth
  have hany : a.authorizations.any (fun auth => auth.nodeId == row.nodeId) = true :=
    List.any_eq_true.2 ⟨auth, hmem, beq_iff_eq.2 hid⟩
  have hkeys := (authKeys_updateAuthorizationsCb a row).1
  have hfind := @getAuthorization_update (fun auth : NodeAuth => { auth with
    isFullNode := row.type == "full".toList
    sinceBlock := row.firstBlock }) (fun _ => rfl) a.authorizations row.nodeId
  have hcb : updateAuthorizationsCb a row = { a with
      authorizations := updateAuth row.nodeId (fun auth => { auth with
        isFullNode := row.type == "full".toList
        sinceBlock := row.firstBlock }) a.authorizations } := by
    unfold updateAuthorizationsCb
    rw [if_pos hany]
  dsimp only
  refine ⟨?_, hkeys, ?_, fun id hne => ?_⟩
  · rw [hcb]
    rfl
  · rw [hcb]
    unfold Aergolite.auth at hauth ⊢
    rw [hfind, if_pos rfl, hauth]
    rfl
  · rw [hcb]
    unfold Aergolite.auth
    rw [hfind, if_neg hne]

/-- **`load_authorizations_cb2` on an entry that is in the list.** -/
theorem refreshAuth_spec {a : Aergolite D} {row : AllowedNode} {auth : NodeAuth}
    (hauth : a.auth row.nodeId = some auth) (hpk : auth.pk = row.pubkey) :
    let b := refreshAuth a row
    SameNode a b ∧ authKeys b.authorizations = authKeys a.authorizations ∧
      (∃ auth, b.auth row.nodeId = some auth ∧ RecordsRow auth row ∧
        auth.lastNonce = row.lastNonce) ∧
      ∀ id, id ≠ row.nodeId → b.auth id = a.auth id := by
  obtain ⟨hsame, hkeys, hfound, hothers⟩ : _ ∧ _ := updateAuthorizationsCb_spec hauth
  have hfind := @getAuthorization_update
    (fun auth : NodeAuth => { auth with lastNonce := row.lastNonce }) (fun _ => rfl)
    (updateAuthorizationsCb a row).authorizations row.nodeId
  have hid := (aergoliteGetAuthorization_some hauth).2
  dsimp only
  refine ⟨hsame.trans rfl, ?_, ⟨{ auth with
      isFullNode := row.type == "full".toList
      sinceBlock := row.firstBlock
      lastNonce := row.lastNonce }, ?_, ⟨hid, hpk, rfl, rfl⟩, rfl⟩, fun id hne => ?_⟩
  · rw [← hkeys]
    refine map_updateAuth ?_ _
    exact fun _ => rfl
  · unfold Aergolite.auth at hfound ⊢
    unfold refreshAuth updateAuthLastNonce
    dsimp only
    rw [hfind, if_pos rfl, hfound]
    rfl
  · rw [← hothers id hne]
    unfold Aergolite.auth refreshAuth updateAuthLastNonce
    dsimp only
    rw [hfind, if_neg hne]

/-! ## The list after a commit -/

theorem command_eq (db : Databases D) : ∃ faults, db.command.2 = { db with faults } := by
  unfold Databases.command
  split
  · exact ⟨db.faults, rfl⟩
  · exact ⟨_, rfl⟩

/-- The outcome of a command depends on the faults alone. -/
theorem command_rc (db : Databases D) : db.command.1 = db.faults.headD .ok := by
  unfold Databases.command
  cases db.faults <;> rfl

/-- **What `update_authorizations` leaves**, of a list that has an entry for each row. -/
theorem updateAuthorizations_refreshed {a : Aergolite D}
    (hids : (a.authorizations.map NodeAuth.nodeId).Nodup)
    (hrows : (a.db.worker.nodes.map AllowedNode.nodeId).Nodup)
    (hkeys : ∀ row ∈ a.db.worker.nodes, (row.nodeId, row.pubkey) ∈ authKeys a.authorizations)
    (hquery : a.db.command.1 = .ok) :
    SameNode { a with db := a.db.command.2 } (updateAuthorizations a) ∧
      ∀ row ∈ a.db.worker.nodes, ∃ auth, (updateAuthorizations a).auth row.nodeId = some auth ∧
        RecordsRow auth row := by
  obtain ⟨faults, hcommand⟩ := command_eq a.db
  have hnodes : a.db.command.2.worker.nodes = a.db.worker.nodes := by rw [hcommand]
  have hupdate : updateAuthorizations a =
      a.db.worker.nodes.foldl updateAuthorizationsCb { a with db := a.db.command.2 } := by
    unfold updateAuthorizations
    dsimp only
    rw [if_neg (not_not.2 hquery), hnodes]
  have hstep : ∀ b : Aergolite D, SameNode { a with db := a.db.command.2 } b ∧
      authKeys b.authorizations = authKeys a.authorizations → ∀ row ∈ a.db.worker.nodes,
      Writes Aergolite.auth AllowedNode.nodeId
        (fun b => SameNode { a with db := a.db.command.2 } b ∧
          authKeys b.authorizations = authKeys a.authorizations)
        (fun row auth => ∃ found, auth = some found ∧ RecordsRow found row) b row
        (updateAuthorizationsCb b row) := by
    rintro b ⟨hsame, hb⟩ row hrow
    have hids' : (b.authorizations.map NodeAuth.nodeId).Nodup := by
      rw [map_nodeId_eq, hb, ← map_nodeId_eq]
      exact hids
    obtain ⟨auth, hauth, hpk⟩ := getAuthorization_of_keys hids' (hb ▸ hkeys row hrow)
    obtain ⟨hsame', hkeys', hfound, hothers⟩ : _ ∧ _ := updateAuthorizationsCb_spec hauth
    have hid := (aergoliteGetAuthorization_some hauth).2
    exact ⟨⟨hsame.trans hsame', hkeys'.trans hb⟩, ⟨_, hfound, hid, hpk, rfl, rfl⟩, hothers⟩
  have hrefreshed := foldl_refresh hrows hstep (s := { a with db := a.db.command.2 }) ⟨rfl, rfl⟩
  rw [hupdate]
  exact ⟨hrefreshed.inv.1, hrefreshed.good⟩

/-! ## The list after a reload -/

/-- The key that an authorization with a valid signature names. -/
def authorizedKey (env : Env D) (adminPubkey : Bytes) (log : Log) : Option Bytes :=
  match readAuthorizedPubkey env.codec log with
  | .error _ => none
  | .ok (pubkey, _) =>
    if aergoliteVerifyAuthorization env.crypto adminPubkey log = some .ok then some pubkey else none

variable {env : Env D} {a b : Aergolite D}

/-- **What `aergolite_new_authorization` does**: an entry is added for the key of the
authorization, or nothing. -/
theorem newAuthorization_outcome {log : Log} {rc : Rc}
    (h : a.newAuthorization env log = some (rc, b)) :
    b = a ∨ ∃ auth : NodeAuth, authorizedKey env a.adminPubkey log = some auth.pk ∧
      auth.pk ∉ a.authorizations.map NodeAuth.pk ∧
      auth.nodeId = env.codec.generateNodeIdFromPubkey auth.pk ∧
      (auth.lastNonce = 0 ∧ auth.savedNonce = 0) ∧
      b = { a with authorizations := a.authorizations ++ [auth] } := by
  unfold Aergolite.newAuthorization aergoliteNewAuthorization at h
  obtain ⟨added, hadded, heq⟩ := Option.map_eq_some_iff.1 h
  split at hadded
  · obtain rfl := Option.some.inj hadded
    exact .inl (Prod.mk.inj heq).2.symm
  · rename_i pubkey type hread
    by_cases hknown : (a.authorizations.any fun auth => auth.pk == pubkey) = true
    · rw [if_pos hknown] at hadded
      obtain rfl := Option.some.inj hadded
      exact .inl (Prod.mk.inj heq).2.symm
    · rw [if_neg hknown] at hadded
      obtain ⟨rc', hverify, hentry⟩ := Option.map_eq_some_iff.1 hadded
      by_cases hrc : rc' ≠ .ok
      · rw [if_pos hrc] at hentry
        subst hentry
        exact .inl (Prod.mk.inj heq).2.symm
      · rw [if_neg hrc] at hentry
        subst hentry
        refine .inr ⟨_, ?_, ?_, rfl, ⟨rfl, rfl⟩, (Prod.mk.inj heq).2.symm⟩
        · unfold authorizedKey
          rw [hread, hverify, not_not.1 hrc]
          exact if_pos rfl
        · intro hmem
          obtain ⟨auth, hauth, hpk⟩ := List.mem_map.1 hmem
          exact hknown (List.any_eq_true.2 ⟨auth, hauth, beq_iff_eq.2 hpk⟩)

/-- A valid authorization has an entry afterwards. -/
theorem newAuthorization_of_key {log : Log} {pk : Bytes}
    (h : authorizedKey env a.adminPubkey log = some pk) :
    (pk ∈ a.authorizations.map NodeAuth.pk ∧ a.newAuthorization env log = some (.exist, a)) ∨
      ∃ auth : NodeAuth, auth.pk = pk ∧ pk ∉ a.authorizations.map NodeAuth.pk ∧
        auth.nodeId = env.codec.generateNodeIdFromPubkey pk ∧
        (auth.lastNonce = 0 ∧ auth.savedNonce = 0) ∧
        a.newAuthorization env log =
          some (.ok, { a with authorizations := a.authorizations ++ [auth] }) := by
  unfold authorizedKey at h
  split at h
  · cases h
  · rename_i pubkey type hread
    split_ifs at h with hverify
    obtain rfl := Option.some.inj h
    unfold Aergolite.newAuthorization aergoliteNewAuthorization
    rw [hread]
    dsimp only
    by_cases hknown : (a.authorizations.any fun auth => auth.pk == pubkey) = true
    · obtain ⟨auth, hauth, hpk⟩ := List.any_eq_true.1 hknown
      rw [if_pos hknown]
      exact .inl ⟨List.mem_map.2 ⟨auth, hauth, beq_iff_eq.1 hpk⟩, rfl⟩
    · rw [if_neg hknown, hverify]
      refine .inr ⟨_, rfl, fun hmem => ?_, rfl, ⟨rfl, rfl⟩, rfl⟩
      obtain ⟨auth, hauth, hpk⟩ := List.mem_map.1 hmem
      exact hknown (List.any_eq_true.2 ⟨auth, hauth, beq_iff_eq.2 hpk⟩)

theorem authKeys_append (auths : List NodeAuth) (auth : NodeAuth) :
    authKeys (auths ++ [auth]) = authKeys auths ++ [(auth.nodeId, auth.pk)] := by
  unfold authKeys
  rw [List.map_append, List.map_singleton]

/-- An entry is added for a new key. -/
theorem Keyed.append {auths : List NodeAuth} (h : Keyed codec keys (authKeys auths))
    {auth : NodeAuth} (hid : auth.nodeId = codec.generateNodeIdFromPubkey auth.pk)
    (hknown : auth.pk ∈ keys) (hnew : auth.pk ∉ auths.map NodeAuth.pk) :
    Keyed codec keys (authKeys (auths ++ [auth])) := by
  rw [authKeys_append]
  refine ⟨fun entry hentry => ?_, fun entry hentry => ?_, ?_⟩
  · rcases List.mem_append.1 hentry with hentry | hentry
    · exact h.ids entry hentry
    · rw [List.mem_singleton.1 hentry]
      exact hid
  · rcases List.mem_append.1 hentry with hentry | hentry
    · exact h.known entry hentry
    · rw [List.mem_singleton.1 hentry]
      exact hknown
  · rw [List.map_append, List.map_singleton]
    refine List.nodup_append.2 ⟨h.once, List.nodup_singleton _, fun pk hpk pk' hpk' heq => ?_⟩
    have hnode : pk = auth.pk := heq.trans (List.mem_singleton.1 hpk')
    rw [← map_pk_eq, hnode] at hpk
    exact hnew hpk

/-- The local transactions that are special are valid authorizations of some of the keys. -/
def LocalAuthorized (env : Env D) (adminPubkey : Bytes) (keys : List Bytes)
    (localTxns : List Log) : Prop :=
  ∀ log ∈ localTxns, isSpecialTransaction log = true →
    ∃ pk ∈ keys, authorizedKey env adminPubkey log = some pk

/-- **The local transactions are all loaded.** -/
theorem iterateLocalTxns_spec {localTxns : List Log}
    (h : Keyed env.codec keys (authKeys a.authorizations))
    (hlocal : LocalAuthorized env a.adminPubkey keys localTxns) :
    ∃ b, iterateLocalTxns env a localTxns = some (.ok, b) ∧ SameNode a b ∧
      Keyed env.codec keys (authKeys b.authorizations) ∧
      ∀ auth ∈ b.authorizations, auth ∈ a.authorizations ∨ auth.lastNonce = 0 := by
  induction localTxns generalizing a with
  | nil => exact ⟨a, rfl, rfl, h, fun auth hauth => .inl hauth⟩
  | cons log logs ih =>
      have hlogs : LocalAuthorized env a.adminPubkey keys logs := fun other hother =>
        hlocal other (List.mem_cons_of_mem _ hother)
      unfold iterateLocalTxns loadAuthorizationsCb1
      by_cases hspecial : isSpecialTransaction log = true
      · obtain ⟨pk, hpk, hkey⟩ := hlocal log List.mem_cons_self hspecial
        rw [if_pos hspecial]
        rcases newAuthorization_of_key hkey with ⟨-, hexist⟩ | ⟨auth, rfl, hnew, hid, hzero, hok⟩
        · rw [hexist]
          exact ih h hlogs
        · rw [hok]
          obtain ⟨b, hb, hsame, hkeyed, hauths⟩ :=
            ih (a := { a with authorizations := a.authorizations ++ [auth] })
              (h.append hid hpk hnew) hlogs
          refine ⟨b, hb, hsame, hkeyed, fun other hother => ?_⟩
          rcases hauths other hother with hmem | hmem
          · rcases List.mem_append.1 hmem with hmem | hmem
            · exact .inl hmem
            · rw [List.mem_singleton.1 hmem]
              exact .inr hzero.1
          · exact .inr hmem
      · rw [if_neg hspecial]
        exact ih h hlogs

/-- The rows of the table have distinct ids, those of their keys, and hold a valid
authorization of the key. -/
structure RowsAuthorized (env : Env D) (adminPubkey : Bytes) (keys : List Bytes)
    (column : ℤ → Log) (rows : List AllowedNode) : Prop where
  distinct : (rows.map AllowedNode.nodeId).Nodup
  ids : ∀ row ∈ rows, row.nodeId = env.codec.generateNodeIdFromPubkey row.pubkey
  known : ∀ row ∈ rows, row.pubkey ∈ keys
  authorized : ∀ row ∈ rows, authorizedKey env adminPubkey (column row.nodeId) = some row.pubkey

/-- **What a load or a reload leaves**: an entry for each row, with what the row stores. -/
structure ListLoaded (codec : Codec) (keys : List Bytes) (a b : Aergolite D) : Prop where
  same : ∃ faults, SameNode { a with db := { a.db with faults } } b
  keyed : Keyed codec keys (authKeys b.authorizations)
  rows : ∀ row ∈ a.db.worker.nodes, ∃ auth, b.auth row.nodeId = some auth ∧ RecordsRow auth row ∧
    auth.lastNonce = row.lastNonce
  others : ∀ auth ∈ b.authorizations, auth.nodeId ∉ a.db.worker.nodes.map AllowedNode.nodeId →
    auth ∈ a.authorizations ∨ auth.lastNonce = 0

/-- The entry of a key of the list is found at the id of the key. -/
theorem Keyed.auth_of_mem (h : Keyed codec keys (authKeys a.authorizations))
    (hdistinct : Distinct codec keys) {pk : Bytes} (hmem : pk ∈ a.authorizations.map NodeAuth.pk) :
    ∃ auth, a.auth (codec.generateNodeIdFromPubkey pk) = some auth ∧ auth.pk = pk := by
  obtain ⟨auth, hauth, rfl⟩ := List.mem_map.1 hmem
  have hid := h.ids _ (List.mem_map_of_mem hauth)
  dsimp only at hid
  exact ⟨auth, hid ▸ getAuthorization_of_mem (h.nodup hdistinct) hauth, rfl⟩

/-- What the loop over the rows keeps: the entries are keyed, and those that have been added
have the nonce 0. -/
structure Loading (codec : Codec) (keys : List Bytes) (rows : List AllowedNode)
    (a b : Aergolite D) : Prop where
  same : SameNode a b
  keyed : Keyed codec keys (authKeys b.authorizations)
  others : ∀ auth ∈ b.authorizations, auth.nodeId ∉ rows.map AllowedNode.nodeId →
    auth ∈ a.authorizations ∨ auth.lastNonce = 0

/-- **The step for a row**: its entry is added if need be, and updated. -/
theorem loadAuthorizationsCb2_writes {column : ℤ → Log} {rows : List AllowedNode}
    (hdistinct : Distinct env.codec keys)
    (hrows : RowsAuthorized env a.adminPubkey keys column rows) (h : Loading env.codec keys rows a b)
    {row : AllowedNode} (hrow : row ∈ rows) :
    ∃ c, loadAuthorizationsCb2 env column b row = some c ∧
      Writes Aergolite.auth AllowedNode.nodeId (Loading env.codec keys rows a)
        (fun row auth => ∃ found, auth = some found ∧ RecordsRow found row ∧
          found.lastNonce = row.lastNonce) b row c := by
  have hid := hrows.ids row hrow
  have hknown := hrows.known row hrow
  have hadmin : b.adminPubkey = a.adminPubkey := by rw [h.same]
  have hkey := hadmin ▸ hrows.authorized row hrow
  have hrefresh : ∀ d : Aergolite D, Loading env.codec keys rows a d →
      (∃ auth, d.auth row.nodeId = some auth ∧ auth.pk = row.pubkey) →
      (∀ k, k ≠ row.nodeId → d.auth k = b.auth k) →
      Writes Aergolite.auth AllowedNode.nodeId (Loading env.codec keys rows a)
        (fun row auth => ∃ found, auth = some found ∧ RecordsRow found row ∧
          found.lastNonce = row.lastNonce) b row (refreshAuth d row) := by
    rintro d hd ⟨auth, hauth, hpk⟩ hsame
    obtain ⟨hsame', hkeys, hfound, hothers⟩ : _ ∧ _ := refreshAuth_spec hauth hpk
    have hkeyed := hkeys ▸ hd.keyed
    refine ⟨⟨hd.same.trans hsame', hkeyed, fun other hother hnone => ?_⟩, hfound,
      fun k hk => (hothers k hk).trans (hsame k hk)⟩
    have hne : other.nodeId ≠ row.nodeId := fun heq => hnone (heq ▸ List.mem_map_of_mem hrow)
    have hold : d.auth other.nodeId = some other :=
      (hothers _ hne).symm.trans (getAuthorization_of_mem (hkeyed.nodup hdistinct) hother)
    exact hd.others other (aergoliteGetAuthorization_some hold).1 hnone
  unfold loadAuthorizationsCb2
  rcases newAuthorization_of_key hkey with ⟨hmem, hexist⟩ | ⟨auth, hpk, hnew, hauth, hzero, hok⟩
  · rw [hexist]
    refine ⟨_, rfl, hrefresh b h ?_ fun _ _ => rfl⟩
    rw [hid]
    exact h.keyed.auth_of_mem hdistinct hmem
  · rw [hok]
    have hkeyed : Keyed env.codec keys (authKeys (b.authorizations ++ [auth])) :=
      h.keyed.append (hpk ▸ hauth) (hpk ▸ hknown) (hpk ▸ hnew)
    refine ⟨_, rfl, hrefresh { b with authorizations := b.authorizations ++ [auth] }
      ⟨h.same.trans rfl, hkeyed, fun other hother hnone => ?_⟩ ⟨auth, ?_, hpk⟩ fun k hk => ?_⟩
    · rcases List.mem_append.1 hother with hother | hother
      · exact h.others other hother hnone
      · rw [List.mem_singleton.1 hother]
        exact .inr hzero.1
    · have hself : aergoliteGetAuthorization (b.authorizations ++ [auth]) auth.nodeId = some auth :=
        getAuthorization_of_mem (hkeyed.nodup hdistinct) (List.mem_append_right _ List.mem_cons_self)
      rwa [hauth, ← hid] at hself
    · unfold Aergolite.auth
      rw [getAuthorization_append, if_neg (by rw [hauth, ← hid]; exact hk.symm), Option.or_none]

/-- **What `reload_authorizations` leaves.** -/
theorem reloadAuthorizations_refreshed {column : ℤ → Log}
    (h : Keyed env.codec keys (authKeys a.authorizations)) (hdistinct : Distinct env.codec keys)
    (hrows : RowsAuthorized env a.adminPubkey keys column a.db.worker.nodes)
    (hquery : a.db.command.1 = .ok) :
    ∃ b, reloadAuthorizations env column a = some b ∧ ListLoaded env.codec keys a b := by
  obtain ⟨faults, hcommand⟩ := command_eq a.db
  have hnodes : a.db.command.2.worker.nodes = a.db.worker.nodes := by rw [hcommand]
  obtain ⟨b, hb, hrefreshed⟩ := exists_foldlM_refresh (s := { a with db := a.db.command.2 })
    hrows.distinct
    (fun d hd row hrow => loadAuthorizationsCb2_writes
      (a := { a with db := a.db.command.2 }) hdistinct hrows hd hrow)
    ⟨rfl, h, fun auth hauth _ => .inl hauth⟩
  refine ⟨b, ?_, ⟨faults, hcommand ▸ hrefreshed.inv.same⟩, hrefreshed.inv.keyed,
    hrefreshed.good, hrefreshed.inv.others⟩
  unfold reloadAuthorizations
  dsimp only
  rw [if_neg (not_not.2 hquery), hnodes]
  exact hb

/-- **What `load_authorizations` leaves.** -/
theorem loadAuthorizations_refreshed {localTxns : List Log} {column : ℤ → Log}
    (h : Keyed env.codec keys (authKeys a.authorizations)) (hdistinct : Distinct env.codec keys)
    (hlocal : LocalAuthorized env a.adminPubkey keys localTxns)
    (hrows : RowsAuthorized env a.adminPubkey keys column a.db.worker.nodes)
    (hquery : a.db.command.1 = .ok) :
    ∃ b, loadAuthorizations env localTxns column a = some b ∧ ListLoaded env.codec keys a b := by
  obtain ⟨c, hc, hsame, hkeyed, hauths⟩ := iterateLocalTxns_spec h hlocal
  have hdb : c.db = a.db := by rw [hsame]
  have hadmin : c.adminPubkey = a.adminPubkey := by rw [hsame]
  have hsaved : RowsAuthorized env c.adminPubkey keys column c.db.worker.nodes := by
    rw [hdb, hadmin]
    exact hrows
  obtain ⟨b, hb, ⟨faults, hloaded⟩, hkeyed', hrows', hothers⟩ :=
    reloadAuthorizations_refreshed hkeyed hdistinct hsaved (hdb ▸ hquery)
  refine ⟨b, ?_, ⟨faults, ?_⟩, hkeyed', ?_, fun auth hauth hnone => ?_⟩
  · unfold loadAuthorizations
    rw [hc]
    exact hb
  · unfold SameNode at hloaded ⊢
    rw [hloaded, hsame]
  · rw [← hdb]
    exact hrows'
  · rcases hothers auth hauth (hdb ▸ hnone) with hmem | hzero
    · exact hauths auth hmem
    · exact .inr hzero

end Core
end AergoLite
