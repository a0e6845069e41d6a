/-
# Sending the local transactions

`send_local_transactions` of `plugins/no-leader/transactions.c` fetches the transactions in
`wal-local` one after the other, stores each in the mempool and hands it to
`broadcast_transaction`.  Storing one may run the consensus up to the commit of blocks and a log
rotation, before the next one is fetched.

The loop always ends.  It asks for the nonce after the last one that was sent, so it takes a nonce
that `wal-local` does not have, or whose log cannot be found, for the end: the node is in sync
rightly exactly when no log in `wal-local` has the nonce asked for last, or a later one
(`sendLocalTransactions_complete_iff`).
-/

import AergoLite.Core.LocalTransactions
import AergoLite.NoLeader.MempoolCleanup

namespace AergoLite
namespace NoLeader

open AergoLite.Core

/-- `get_last_processed_nonce`. -/
def getLastProcessedNonce (auths : List NodeAuth) (nodeId : ℤ) : ℤ :=
  ((aergoliteGetAuthorization auths nodeId).map NodeAuth.lastNonce).getD 0

/-- What `send_local_transactions` reads and writes of a node, with the transactions that have
been handed to `broadcast_transaction` and the messages to the peers. -/
structure LocalSender where
  nodeId : ℤ
  adminPubkey : Bytes
  authorizations : List NodeAuth
  mempool : List Transaction
  peers : List Peer
  sending : SendingNode
  /-- What has been written into `wal-rotation`. -/
  walRotation : List WalItem
  syncUpState : DbState
  broadcasted : List Transaction
  messages : List (Bytes × Transaction)

/-- What `do_log_rotation` meets, once it begins. -/
structure WalRotation where
  /-- The pages that a transaction modifies when it is executed again; it is not written where it
  modifies nothing, or where it or one before it fails. -/
  written : Bytes → Option (List { frame : Frame // frame.pgno ≠ logTransaction })
  /-- None fails. -/
  reexecutes : Bool
  /-- `unlink` of `wal-rotation`. -/
  unlinked : Bool
  /-- The connections to `wal-local` are closed, and the file is deleted. -/
  deleted : Bool
  /-- `wal-consensus` is checkpointed, and `wal-rotation` is renamed. -/
  renamed : Bool

/-- What happens to a node in the consensus that a stored transaction starts: a block is committed,
with the authorizations after it, or the log is rotated. -/
inductive ConsensusEvent
  | commit (authorizations : List NodeAuth) (block : Block)
  | rotate (rotation : WalRotation)

/-- What a pass through the loop meets. -/
structure SendOutcome where
  /-- `wal-local` can be read. -/
  reads : Bool
  /-- There is memory for the transaction. -/
  memory : Bool
  /-- There is memory for the message. -/
  mapMemory : Bool
  /-- The consensus that is run where the transaction is stored. -/
  events : List ConsensusEvent

section
variable (b : BinnReader) (f : PageFormat) (decode : Bytes → Log) (c : Crypto)

/-- What `reexecute_local_txn` writes into `wal-rotation`. -/
def reexecuted (rotation : WalRotation) (s : SendingNode) : List WalItem :=
  ((delivered f false 1 s.walLocal).filter fun txn =>
      decide (s.lastProcessedNonce < getTransactionNonce (decode txn.2))).flatMap fun txn =>
    match rotation.written txn.2 with
    | none => []
    | some pages => pages.map (fun page => .page page.1) ++ [.txn txn.2]

namespace LocalSender

/-- The end of `do_log_rotation`: `wal-local` is deleted and `wal-rotation` is renamed. -/
def replaceWalLocal (rotation : WalRotation) (hasUnprocessedTxns : Bool) (s : LocalSender) :
    LocalSender :=
  let sending :=
    if hasUnprocessedTxns then { s.sending with lastSentFrame := 0 }
    else { s.sending with lastSentFrame := 0, maxActiveNonce := 0, lastSentNonce := 0 }
  if !rotation.deleted then { s with sending }
  else if !(hasUnprocessedTxns && rotation.renamed) then
    { s with sending := { sending with walLocal := [] } }
  else { s with sending := { sending with walLocal := s.walRotation }, walRotation := [] }

/-- `do_log_rotation`. -/
def doLogRotation (rotation : WalRotation) (s : LocalSender) : LocalSender :=
  if s.sending.lastProcessedNonce < s.sending.maxActiveNonce then
    let s := { s with walRotation := s.walRotation ++ reexecuted f decode rotation s.sending }
    if !rotation.reexecutes then
      if rotation.unlinked then { s with walRotation := [] } else s
    else s.replaceWalLocal rotation true
  else s.replaceWalLocal rotation false

/-- What an event does: `commit_block` cleans up the mempool. -/
def consensusStep (s : LocalSender) : ConsensusEvent → LocalSender
  | .commit authorizations block => { s with
      authorizations
      mempool := updateMempool authorizations block s.mempool
      sending := { s.sending with
        lastProcessedNonce := getLastProcessedNonce authorizations s.nodeId } }
  | .rotate rotation => s.doLogRotation f decode rotation

/-- The transaction of the node with a nonce, in the mempool. -/
def ownTransaction (s : LocalSender) (nonce : ℤ) : Option Transaction :=
  findTransaction s.mempool (buildTransactionId s.nodeId nonce)

/-- `process_new_transaction`, of a local transaction: the entry in the mempool, or the result
code.  It is `none` where the verification is undefined, or where the entry is not in the mempool
any more when the function returns a pointer to it. -/
def processNewTransaction (o : SendOutcome) (nonce : ℤ) (log : Log)
    (s : LocalSender) : Option (Except Rc Transaction × LocalSender) :=
  match storeTransactionOnMempool c s.adminPubkey s.authorizations s.mempool s.nodeId nonce
    log with
  | none => none
  | some (.error rc) =>
    if rc = .exist then (s.ownTransaction nonce).map fun txn => (.ok txn, s)
    else some (.error rc, s)
  | some (.ok mempool) =>
    if !o.memory then some (.error .nomem, s)
    else
      let s := o.events.foldl (consensusStep f decode) { s with mempool }
      (s.ownTransaction nonce).map fun txn => (.ok txn, s)

/-- `broadcast_transaction`. -/
def broadcastTransaction (mapMemory : Bool) (txn : Transaction) (s : LocalSender) :
    Rc × LocalSender :=
  let s := { s with broadcasted := s.broadcasted ++ [txn] }
  if s.peers = [] then (.error, s)
  else if !mapMemory then (.nomem, { s with syncUpState := .localChanges })
  else
    (.ok, { s with
      syncUpState := .synchronizing
      messages := s.messages ++
        (s.peers.filter Peer.isAuthorized).map fun peer => (peer.pubkey, txn) })

end LocalSender

/-- A pass through the loop leads to the next one, with a nonce, or it is the last one.  It ends
with `none` where the C code is undefined. -/
inductive PassResult
  | again (nonce : ℤ) (s : LocalSender)
  | ended (after : Option LocalSender)

/-- The failing ends of `send_local_transactions`. -/
def sendFailed (s : LocalSender) : PassResult :=
  .ended (some { s with syncUpState := .localChanges })

/-- The loop of `send_local_transactions`, once. -/
def sendPass (o : SendOutcome) (nonce : ℤ) (s : LocalSender) : PassResult :=
  if !o.reads then sendFailed s
  else
    match aergoliteGetLocalTransaction b f decode s.sending nonce with
    | (.error rc, sending) =>
      let s := { s with sending }
      if rc = .empty ∨ rc = .notfound then .ended (some { s with syncUpState := .inSync })
      else sendFailed s
    | (.ok (nonce, log), sending) =>
      let s := { s with sending }
      match log with
      | none => sendFailed s
      | some log =>
        if nonce = 0 then sendFailed s
        else
          match s.processNewTransaction f decode c o nonce (decode log) with
          | none => .ended none
          | some (.error _, s) => sendFailed s
          | some (.ok txn, s) =>
            match s.broadcastTransaction o.mapMemory txn with
            | (rc, s) => if rc ≠ .ok then sendFailed s else .again (nonce + 1) s

/-- `send_local_transactions`, up to a number of passes: the nonce that is asked for then. -/
def sendLocalTransactions (o : ℕ → SendOutcome) (s : LocalSender) : ℕ → Option (ℤ × LocalSender)
  | 0 => some (0, s)
  | k + 1 =>
    match sendLocalTransactions o s k with
    | none => none
    | some (nonce, x) =>
      match sendPass b f decode c (o k) nonce x with
      | .again nonce t => some (nonce, t)
      | .ended _ => none

end

/-! ## What is expected -/

/-- The entry is the one of a local transaction. -/
def Transaction.IsLocal (nodeId : ℤ) (log : Log) (txn : Transaction) : Prop :=
  txn.nodeId = nodeId ∧ txn.nonce = getTransactionNonce log ∧ txn.log = log

/-- The transaction is in the mempool and was handed to `broadcast_transaction`. -/
structure LocalSender.Sent (s : LocalSender) (log : Log) : Prop where
  mempool : ∃ txn ∈ s.mempool, txn.IsLocal s.nodeId log
  broadcasted : ∃ txn ∈ s.broadcasted, txn.IsLocal s.nodeId log

/-- The node is in sync with every local transaction sent that no block has, or it knows that it
has local changes. -/
def SendsAll (decode : Bytes → Log) (after : Option LocalSender) : Prop :=
  ∃ t, after = some t ∧
    (t.syncUpState = .localChanges ∨
      t.syncUpState = .inSync ∧ ∀ log ∈ localLogs t.sending.walLocal,
        t.sending.lastProcessedNonce < getTransactionNonce (decode log) → t.Sent (decode log))

/-- The logs in `wal-local` and in what may become it. -/
def LocalSender.logs (s : LocalSender) : List Bytes :=
  localLogs s.sending.walLocal ++ localLogs s.walRotation

/-- The commits advance the last nonce of the node, and the unprocessed transactions of the node
stay in the mempool. -/
def CommitsKeep (nodeId : ℤ) : ℤ → List Transaction → List ConsensusEvent → Prop
  | _, _, [] => True
  | lastNonce, mempool, .rotate _ :: events => CommitsKeep nodeId lastNonce mempool events
  | lastNonce, mempool, .commit auths block :: events =>
    lastNonce ≤ getLastProcessedNonce auths nodeId ∧
      (∀ txn ∈ markUsed block mempool, txn.nodeId = nodeId →
        getLastProcessedNonce auths nodeId < txn.nonce →
          isOld block.height txn = false ∧ isUsedUp auths txn = false) ∧
      CommitsKeep nodeId (getLastProcessedNonce auths nodeId) (updateMempool auths block mempool)
        events

section
variable (b : BinnReader) (f : PageFormat) (decode : Bytes → Log) (c : Crypto)

/-- What is fetched in a pass is the only transaction with its nonce, in the files and in the
mempool, and the unprocessed ones stay in the mempool. -/
structure KeepsLocal (o : SendOutcome) (nonce : ℤ) (s : LocalSender) : Prop where
  file : ∀ n log sending,
    aergoliteGetLocalTransaction b f decode s.sending nonce = (.ok (n, some log), sending) →
      ∀ log' ∈ s.logs, getTransactionNonce (decode log') = n → decode log' = decode log
  entry : ∀ n log sending,
    aergoliteGetLocalTransaction b f decode s.sending nonce = (.ok (n, some log), sending) →
      ∀ txn, s.ownTransaction n = some txn → txn.IsLocal s.nodeId (decode log)
  commits : ∀ n log sending,
    aergoliteGetLocalTransaction b f decode s.sending nonce = (.ok (n, some log), sending) →
      ∀ mempool, storeTransactionOnMempool c s.adminPubkey s.authorizations s.mempool s.nodeId n
        (decode log) = some (.ok mempool) →
        CommitsKeep s.nodeId s.sending.lastProcessedNonce mempool o.events

/-- Where no transaction is fetched from a file that can be read, there is none with the nonce
that is sought or a later one; where one is, its verification is defined and its entry is not
freed while it is in use. -/
structure EndsRight (o : SendOutcome) (nonce : ℤ) (s : LocalSender) : Prop where
  none_left : o.reads = true → ∀ rc sending,
    aergoliteGetLocalTransaction b f decode s.sending nonce = (.error rc, sending) →
      ∀ log ∈ localLogs s.sending.walLocal,
        getTransactionNonce (decode log) < s.sending.sought nonce
  defined : o.reads = true → ∀ n log sending,
    aergoliteGetLocalTransaction b f decode s.sending nonce = (.ok (n, some log), sending) →
      ({ s with sending }.processNewTransaction f decode c o n (decode log)).isSome

/-- The node when the function is called. -/
structure LocalSender.Starts (s : LocalSender) : Prop where
  points : s.sending.Points b f
  rotation : ∀ item ∈ s.walRotation, item.Valid b
  processed : 0 ≤ s.sending.lastProcessedNonce
  broadcasted : s.broadcasted = []

end

/-! ## The consensus between two passes -/

theorem Transaction.IsLocal.copy {txn copy : Transaction} {nodeId : ℤ} {log : Log}
    (h : txn.IsLocal nodeId log) (hcopy : txn.Copy copy) : copy.IsLocal nodeId log := by
  obtain ⟨height, rfl⟩ := hcopy
  exact h

theorem mem_localLogs {items : List WalItem} {log : Bytes} :
    log ∈ localLogs items ↔ .txn log ∈ items := by
  unfold localLogs
  rw [List.mem_filterMap]
  constructor
  · rintro ⟨item, hitem, hlog⟩
    cases item with
    | page frame => exact nomatch hlog
    | txn log' =>
        cases hlog
        exact hitem
  · exact fun h => ⟨_, h, rfl⟩

variable {b : BinnReader} {f : PageFormat} {decode : Bytes → Log} {c : Crypto}

/-- **What is executed again** comes from `wal-local`. -/
theorem mem_reexecuted {rotation : WalRotation} {s : SendingNode} {item : WalItem}
    (h : item ∈ reexecuted f decode rotation s) :
    item ∈ s.walLocal ∨ ∃ page, page.pgno ≠ logTransaction ∧ item = .page page := by
  obtain ⟨txn, htxn, hitem⟩ := List.mem_flatMap.1 h
  have hlog : txn.2 ∈ localLogs s.walLocal :=
    (perm_delivered_passedOver (f := f) false 1 s.walLocal).subset
      (List.mem_append_left _ (List.mem_map_of_mem (List.mem_of_mem_filter htxn)))
  split at hitem
  · exact absurd hitem List.not_mem_nil
  · rcases List.mem_append.1 hitem with hpage | hlast
    · obtain ⟨page, -, rfl⟩ := List.mem_map.1 hpage
      exact .inr ⟨page.1, page.2, rfl⟩
    · rw [List.mem_singleton.1 hlast]
      exact .inl (mem_localLogs.1 hlog)

namespace LocalSender

/-- The files have logs and pages, and the remembered frame is the first one of a log. -/
structure WellFormed (b : BinnReader) (f : PageFormat) (s : LocalSender) : Prop where
  points : s.sending.Points b f
  rotation : ∀ item ∈ s.walRotation, item.Valid b

/-- What the consensus does not change, and where what it leaves comes from. -/
structure Leads (b : BinnReader) (f : PageFormat) (s t : LocalSender) : Prop where
  nodeId : t.nodeId = s.nodeId
  broadcasted : t.broadcasted = s.broadcasted
  logs : t.logs ⊆ s.logs
  entries : ∀ txn ∈ t.mempool, ∃ old ∈ s.mempool, old.Copy txn
  wellFormed : s.WellFormed b f → t.WellFormed b f

variable {s t u : LocalSender}

theorem Leads.refl (s : LocalSender) : Leads b f s s :=
  ⟨rfl, rfl, List.Subset.refl _, fun txn htxn => ⟨txn, htxn, .refl txn⟩, id⟩

theorem Leads.trans (h : Leads b f s t) (h' : Leads b f t u) : Leads b f s u where
  nodeId := h'.nodeId.trans h.nodeId
  broadcasted := h'.broadcasted.trans h.broadcasted
  logs := List.Subset.trans h'.logs h.logs
  entries txn htxn := by
    obtain ⟨mid, hmid, hcopy⟩ := h'.entries txn htxn
    obtain ⟨old, hold, hcopy'⟩ := h.entries mid hmid
    exact ⟨old, hold, hcopy'.trans hcopy⟩
  wellFormed hs := h'.wellFormed (h.wellFormed hs)

theorem logs_eq (s : LocalSender) : s.logs = localLogs (s.sending.walLocal ++ s.walRotation) :=
  (localLogs_append _ _).symm

/-- The files change: their items stay in them, but for new pages, and no frame is remembered. -/
theorem leads_of_items {sending : SendingNode} {walRotation : List WalItem}
    (hitems : ∀ item ∈ sending.walLocal ++ walRotation,
      item ∈ s.sending.walLocal ++ s.walRotation ∨
        ∃ page, page.pgno ≠ logTransaction ∧ item = .page page)
    (hposition : sending.lastSentFrame = 0 ∨ sending = s.sending) :
    Leads b f s { s with sending, walRotation } := by
  refine ⟨rfl, rfl, fun log hlog => ?_, fun txn htxn => ⟨txn, htxn, .refl txn⟩, fun h => ?_⟩
  · rw [logs_eq, mem_localLogs] at hlog ⊢
    rcases hitems _ hlog with hmem | ⟨page, -, heq⟩
    · exact hmem
    · exact nomatch heq
  · have hvalid : ∀ item ∈ sending.walLocal ++ walRotation, item.Valid b := by
      intro item hitem
      rcases hitems item hitem with hmem | ⟨page, hpage, rfl⟩
      · exact (List.mem_append.1 hmem).elim (h.points.valid item) (h.rotation item)
      · exact hpage
    refine ⟨⟨fun item hitem => hvalid item (List.mem_append_left _ hitem), ?_⟩,
      fun item hitem => hvalid item (List.mem_append_right _ hitem)⟩
    rcases hposition with hzero | rfl
    · exact .inl hzero
    · exact h.points.position

theorem leads_replaceWalLocal (rotation : WalRotation) (has : Bool) (s : LocalSender) :
    Leads b f s (s.replaceWalLocal rotation has) := by
  have hzero : (if has then { s.sending with lastSentFrame := 0 }
      else { s.sending with
        lastSentFrame := 0, maxActiveNonce := 0, lastSentNonce := 0 }).lastSentFrame = 0 := by
    split_ifs <;> rfl
  have hfile : (if has then { s.sending with lastSentFrame := 0 }
      else { s.sending with
        lastSentFrame := 0, maxActiveNonce := 0, lastSentNonce := 0 }).walLocal =
        s.sending.walLocal := by
    split_ifs <;> rfl
  unfold replaceWalLocal
  dsimp only
  generalize (if has then { s.sending with lastSentFrame := 0 }
    else { s.sending with
      lastSentFrame := 0, maxActiveNonce := 0, lastSentNonce := 0 }) = sending at hzero hfile ⊢
  split_ifs
  · exact leads_of_items (fun item hitem => .inl (hfile ▸ hitem)) (.inl hzero)
  · exact leads_of_items (fun item hitem => .inl (List.mem_append_right _ hitem)) (.inl hzero)
  · refine leads_of_items (fun item hitem => .inl ?_) (.inl hzero)
    rw [List.append_nil] at hitem
    exact List.mem_append_right _ hitem

theorem leads_doLogRotation (rotation : WalRotation) (s : LocalSender) :
    Leads b f s (s.doLogRotation f decode rotation) := by
  have hwritten : Leads b f s
      { s with walRotation := s.walRotation ++ reexecuted f decode rotation s.sending } := by
    refine @leads_of_items b f s s.sending _ (fun item hitem => ?_) (.inr rfl)
    rw [← List.append_assoc] at hitem
    rcases List.mem_append.1 hitem with hold | hnew
    · exact .inl hold
    · exact (mem_reexecuted hnew).imp_left (List.mem_append_left _)
  unfold doLogRotation
  dsimp only
  split_ifs
  · refine @leads_of_items b f s s.sending [] (fun item hitem => .inl ?_) (.inr rfl)
    rw [List.append_nil] at hitem
    exact List.mem_append_left _ hitem
  · exact hwritten
  · exact hwritten.trans (leads_replaceWalLocal rotation true _)
  · exact leads_replaceWalLocal rotation false s

theorem leads_consensusStep (s : LocalSender) (event : ConsensusEvent) :
    Leads b f s (s.consensusStep f decode event) := by
  cases event with
  | commit auths block =>
      exact ⟨rfl, rfl, List.Subset.refl _, fun txn htxn => copy_of_mem_updateMempool htxn,
        fun h => ⟨⟨h.points.valid, h.points.position⟩, h.rotation⟩⟩
  | rotate rotation => exact leads_doLogRotation rotation s

theorem leads_consensus (events : List ConsensusEvent) (s : LocalSender) :
    Leads b f s (events.foldl (consensusStep f decode) s) := by
  induction events generalizing s with
  | nil => exact .refl s
  | cons event events ih => exact (leads_consensusStep s event).trans (ih _)

theorem doLogRotation_mempool (rotation : WalRotation) (s : LocalSender) :
    (s.doLogRotation f decode rotation).mempool = s.mempool ∧
      (s.doLogRotation f decode rotation).nodeId = s.nodeId ∧
      (s.doLogRotation f decode rotation).sending.lastProcessedNonce =
        s.sending.lastProcessedNonce := by
  unfold doLogRotation replaceWalLocal
  dsimp only
  split_ifs <;> exact ⟨rfl, rfl, rfl⟩

/-- A rotation in which nothing fails. -/
theorem doLogRotation_eq_rotated {rotation : WalRotation} (hreexecutes : rotation.reexecutes = true)
    (hdeleted : rotation.deleted = true) (hrenamed : rotation.renamed = true) (s : LocalSender) :
    (s.doLogRotation f decode rotation).sending =
      s.sending.rotated (s.walRotation ++ reexecuted f decode rotation s.sending) := by
  unfold doLogRotation replaceWalLocal SendingNode.rotated
  by_cases hless : s.sending.lastProcessedNonce < s.sending.maxActiveNonce
  · simp [hless, hreexecutes, hdeleted, hrenamed]
  · simp [hless, hdeleted]

/-- The mempool after `commit_block`. -/
theorem consensusStep_commitBlock {D : Type} {net : Net D} {p : Plugin D} {block : Block}
    (h : (commitBlock net p block).1 = .ok) (hmempool : s.mempool = p.mempool) :
    (s.consensusStep f decode
      (.commit (commitBlock net p block).2.core.authorizations block)).mempool =
        (commitBlock net p block).2.mempool := by
  rw [commitBlock_mempool h, ← hmempool]
  rfl

/-- **The unprocessed transactions of the node stay in the mempool.** -/
theorem kept_consensus {events : List ConsensusEvent} {s : LocalSender}
    (h : CommitsKeep s.nodeId s.sending.lastProcessedNonce s.mempool events) :
    let t := events.foldl (consensusStep f decode) s
    s.sending.lastProcessedNonce ≤ t.sending.lastProcessedNonce ∧
      ∀ txn ∈ s.mempool, txn.nodeId = s.nodeId → t.sending.lastProcessedNonce < txn.nonce →
        ∃ copy ∈ t.mempool, txn.Copy copy := by
  induction events generalizing s with
  | nil => exact ⟨Int.le_refl _, fun txn htxn _ _ => ⟨txn, htxn, .refl txn⟩⟩
  | cons event events ih =>
      cases event with
      | rotate rotation =>
          obtain ⟨hmempool, hid, hprocessed⟩ := @doLogRotation_mempool f decode rotation s
          have hrest := @ih (s.doLogRotation f decode rotation)
            (by rw [hmempool, hid, hprocessed]; exact h)
          rw [hmempool, hid, hprocessed] at hrest
          exact hrest
      | commit auths block =>
          obtain ⟨hle, hstay, hrest⟩ := h
          obtain ⟨hle', hkept⟩ := @ih (s.consensusStep f decode (.commit auths block)) hrest
          refine ⟨hle.trans hle', fun txn htxn hid hnonce => ?_⟩
          obtain ⟨marked, hmarked, height, rfl⟩ := @exists_copy_markUsed block _ txn htxn
          have hnew := hstay _ hmarked hid (hle'.trans_lt hnonce)
          obtain ⟨copy, hcopy, htrans⟩ := hkept _ (mem_updateMempool_of_new hmarked hnew) hid hnonce
          exact ⟨copy, hcopy, Transaction.Copy.trans ⟨height, rfl⟩ htrans⟩

/-! ## A pass -/

variable {o : SendOutcome} {nonce : ℤ}

/-- What is processed well is in the mempool. -/
theorem processNewTransaction_ok {log : Log} {txn : Transaction}
    (h : s.processNewTransaction f decode c o nonce log = some (.ok txn, t)) :
    t.ownTransaction nonce = some txn ∧
      (t = s ∨ ∃ mempool, storeTransactionOnMempool c s.adminPubkey s.authorizations s.mempool
          s.nodeId nonce log = some (.ok mempool) ∧
        t = o.events.foldl (consensusStep f decode) { s with mempool }) := by
  unfold processNewTransaction at h
  cases hstore : storeTransactionOnMempool c s.adminPubkey s.authorizations s.mempool s.nodeId
      nonce log with
  | none =>
      rw [hstore] at h
      exact nomatch h
  | some result =>
      rw [hstore] at h
      cases result with
      | error rc =>
          dsimp only at h
          split_ifs at h
          · obtain ⟨entry, hentry, heq⟩ := Option.map_eq_some_iff.1 h
            obtain ⟨rfl, rfl⟩ : entry = txn ∧ s = t := by simpa using heq
            exact ⟨hentry, .inl rfl⟩
          · simp at h
      | ok mempool =>
          dsimp only at h
          split_ifs at h
          · simp at h
          · obtain ⟨entry, hentry, heq⟩ := Option.map_eq_some_iff.1 h
            obtain ⟨rfl, rfl⟩ : entry = txn ∧
                o.events.foldl (consensusStep f decode) { s with mempool } = t := by
              simpa using heq
            exact ⟨hentry, .inr ⟨mempool, rfl, rfl⟩⟩

/-- What `broadcast_transaction` leaves. -/
structure Broadcasts (txn : Transaction) (s t : LocalSender) : Prop where
  nodeId : t.nodeId = s.nodeId
  mempool : t.mempool = s.mempool
  sending : t.sending = s.sending
  walRotation : t.walRotation = s.walRotation
  broadcasted : t.broadcasted = s.broadcasted ++ [txn]

theorem broadcasts (mapMemory : Bool) (txn : Transaction) (s : LocalSender) :
    Broadcasts txn s (s.broadcastTransaction mapMemory txn).2 := by
  unfold broadcastTransaction
  dsimp only
  split_ifs <;> exact ⟨rfl, rfl, rfl, rfl, rfl⟩

/-- What is fetched in a pass. -/
structure FetchedLog (b : BinnReader) (f : PageFormat) (decode : Bytes → Log) (nonce : ℤ)
    (s : LocalSender) (log : Bytes) (sending : SendingNode) : Prop where
  fetch : aergoliteGetLocalTransaction b f decode s.sending nonce =
    (.ok (s.sending.sought nonce, some log), sending)
  mem : log ∈ localLogs s.sending.walLocal
  nonce : getTransactionNonce (decode log) = s.sending.sought nonce
  points : sending.Points b f
  file : sending.walLocal = s.sending.walLocal
  processed : sending.lastProcessedNonce = s.sending.lastProcessedNonce

/-- The ways a pass goes. -/
inductive PassSpec (b : BinnReader) (f : PageFormat) (decode : Bytes → Log) (c : Crypto)
    (o : SendOutcome) (nonce : ℤ) (s : LocalSender) : PassResult → Prop
  | failed (t : LocalSender) (state : t.syncUpState = .localChanges)
      (right : o.reads = true → ∃ log sending, FetchedLog b f decode nonce s log sending ∧
        ({ s with sending }.processNewTransaction f decode c o (s.sending.sought nonce)
          (decode log)).isSome) :
      PassSpec b f decode c o nonce s (.ended (some t))
  | inSync (rc : Rc) (reads : o.reads = true)
      (fetch : aergoliteGetLocalTransaction b f decode s.sending nonce = (.error rc, s.sending)) :
      PassSpec b f decode c o nonce s (.ended (some { s with syncUpState := .inSync }))
  | undefined (log : Bytes) (sending : SendingNode) (reads : o.reads = true)
      (fetched : FetchedLog b f decode nonce s log sending)
      (process : { s with sending }.processNewTransaction f decode c o (s.sending.sought nonce)
        (decode log) = none) :
      PassSpec b f decode c o nonce s (.ended none)
  | again (log : Bytes) (sending : SendingNode) (txn : Transaction) (x t : LocalSender)
      (fetched : FetchedLog b f decode nonce s log sending)
      (process : { s with sending }.processNewTransaction f decode c o (s.sending.sought nonce)
        (decode log) = some (.ok txn, x))
      (broadcasts : Broadcasts txn x t) :
      PassSpec b f decode c o nonce s (.again (s.sending.sought nonce + 1) t)

/-- **A pass fetches a transaction with the nonce that is sought, or it is the last one.** -/
theorem sendPass_spec (h : s.WellFormed b f) (hpos : 0 < s.sending.sought nonce) :
    PassSpec b f decode c o nonce s (sendPass b f decode c o nonce s) := by
  unfold sendPass
  cases hreads : o.reads with
  | false => exact .failed _ rfl fun hread => absurd (hreads.symm.trans hread) nofun
  | true =>
      rw [if_neg nofun]
      obtain ⟨found, hends, hfound⟩ := @SendingNode.Points.fetch b f decode _ h.points _ hpos
      cases found with
      | none =>
          obtain ⟨rc, hrc, hfetch⟩ := hends
          rw [hfetch]
          dsimp only
          rw [if_pos hrc]
          exact .inSync rc hreads hfetch
      | some found =>
          obtain ⟨hmem, hnonce⟩ := hfound found rfl
          have hlog := (perm_delivered_passedOver (f := f) false 1 s.sending.walLocal).subset
            (List.mem_append_left _ (List.mem_map_of_mem hmem))
          have hfetched : FetchedLog b f decode nonce s found.2 _ :=
            ⟨hends, hlog, hnonce, h.points.remember hmem _, rfl, rfl⟩
          rw [show aergoliteGetLocalTransaction b f decode s.sending nonce = _ from hends]
          dsimp only
          rw [if_neg hpos.ne']
          cases hprocess : processNewTransaction f decode c o (s.sending.sought nonce)
              (decode found.2) { s with sending := _ } with
          | none => exact .undefined found.2 _ hreads hfetched hprocess
          | some result =>
              have hsome := Option.isSome_iff_exists.2 ⟨result, hprocess⟩
              obtain ⟨result, x⟩ := result
              cases result with
              | error rc => exact .failed _ rfl fun _ => ⟨_, _, hfetched, hsome⟩
              | ok txn =>
                  have hsent := broadcasts o.mapMemory txn x
                  dsimp only
                  generalize x.broadcastTransaction o.mapMemory txn = sent at hsent ⊢
                  obtain ⟨rc, t⟩ := sent
                  dsimp only
                  split_ifs with hrc
                  · exact .failed _ rfl fun _ => ⟨_, _, hfetched, hsome⟩
                  · exact .again found.2 _ txn x t hfetched hprocess hsent

/-! ## The loop ends -/

theorem leads_process {log : Log} {txn : Transaction}
    (h : s.processNewTransaction f decode c o nonce log = some (.ok txn, t)) :
    ∃ mempool, Leads b f { s with mempool } t := by
  rcases (processNewTransaction_ok h).2 with rfl | ⟨mempool, -, rfl⟩
  · exact ⟨t.mempool, .refl t⟩
  · exact ⟨mempool, leads_consensus o.events _⟩

/-- Where the loop is between two passes: every nonce in the files has a bound. -/
structure Searches (b : BinnReader) (f : PageFormat) (decode : Bytes → Log) (bound nonce : ℤ)
    (s : LocalSender) : Prop where
  wellFormed : s.WellFormed b f
  nonneg : 0 ≤ nonce
  positive : 0 < s.sending.sought nonce
  bounded : ∀ log ∈ s.logs, getTransactionNonce (decode log) ≤ bound

variable {bound n : ℤ}

/-- **From one pass to the next, the nonce grows up to the bound.** -/
theorem Searches.next (h : Searches b f decode bound nonce s)
    (hpass : sendPass b f decode c o nonce s = .again n t) :
    Searches b f decode bound n t ∧ nonce < n ∧ n ≤ bound + 1 := by
  have hle : nonce ≤ s.sending.sought nonce := Int.le_max_left _ _
  have hpos := h.positive
  have hspec := @sendPass_spec b f decode c s o nonce h.wellFormed hpos
  rw [hpass] at hspec
  cases hspec with
  | again log sending txn x t fetched process broadcasts =>
      have hbound := h.bounded log (List.mem_append_left _ fetched.mem)
      rw [fetched.nonce] at hbound
      obtain ⟨mempool, hleads⟩ := @leads_process b f decode c _ x o _ _ txn process
      have hwell := hleads.wellFormed ⟨fetched.points, h.wellFormed.rotation⟩
      refine ⟨⟨⟨broadcasts.sending ▸ hwell.points, broadcasts.walRotation ▸ hwell.rotation⟩,
        by omega, ?_, fun log' hlog' => h.bounded log' ?_⟩, by omega, by omega⟩
      · have := Int.le_max_left (s.sending.sought nonce + 1) (t.sending.lastProcessedNonce + 1)
        show 0 < max (s.sending.sought nonce + 1) (t.sending.lastProcessedNonce + 1)
        omega
      · have hmem : log' ∈ x.logs := by
          unfold logs at hlog' ⊢
          rw [← broadcasts.sending, ← broadcasts.walRotation]
          exact hlog'
        have hold := hleads.logs hmem
        unfold logs at hold ⊢
        rw [← fetched.file]
        exact hold

theorem Starts.searches (h : s.Starts b f)
    (hbound : ∀ log ∈ s.logs, getTransactionNonce (decode log) ≤ bound) :
    Searches b f decode bound 0 s where
  wellFormed := ⟨h.points, h.rotation⟩
  nonneg := Int.le_refl 0
  positive := by
    have := h.processed
    unfold SendingNode.sought
    omega
  bounded := hbound

/-- The nonces in the files have a bound. -/
theorem exists_bound (decode : Bytes → Log) (logs : List Bytes) :
    ∃ bound : ℤ, ∀ log ∈ logs, getTransactionNonce (decode log) ≤ bound := by
  induction logs with
  | nil => exact ⟨0, nofun⟩
  | cons log logs ih =>
      obtain ⟨bound, hbound⟩ := ih
      refine ⟨max (getTransactionNonce (decode log)) bound, List.forall_mem_cons.2
        ⟨Int.le_max_left _ _, fun log' hlog' => ?_⟩⟩
      exact (hbound log' hlog').trans (Int.le_max_right _ _)

variable {outcomes : ℕ → SendOutcome}

/-- A pass that is not the last one. -/
theorem sendLocalTransactions_succ {k : ℕ} {x : LocalSender}
    (h : sendLocalTransactions b f decode c outcomes s k = some (nonce, x))
    (hpass : sendPass b f decode c (outcomes k) nonce x = .again n t) :
    sendLocalTransactions b f decode c outcomes s (k + 1) = some (n, t) := by
  rw [sendLocalTransactions, h]
  dsimp only
  rw [hpass]

/-- There are no passes after the last one. -/
theorem sendLocalTransactions_le {k k' : ℕ} {x : LocalSender} {after : Option LocalSender}
    {state : ℤ × LocalSender}
    (h : sendLocalTransactions b f decode c outcomes s k = some (nonce, x))
    (hpass : sendPass b f decode c (outcomes k) nonce x = .ended after)
    (h' : sendLocalTransactions b f decode c outcomes s k' = some state) : k' ≤ k := by
  by_contra hlater
  obtain ⟨j, rfl⟩ : ∃ j, k' = k + 1 + j := ⟨k' - (k + 1), by omega⟩
  have hnone : sendLocalTransactions b f decode c outcomes s (k + 1 + j) = none := by
    clear h' hlater
    induction j with
    | zero =>
        rw [Nat.add_zero, sendLocalTransactions, h]
        dsimp only
        rw [hpass]
    | succ j ih => rw [← Nat.add_assoc, sendLocalTransactions, ih]
  exact nomatch hnone.symm.trans h'

/-- **The loop ends.** -/
theorem sendLocalTransactions_ends (outcomes : ℕ → SendOutcome) (h : s.Starts b f) :
    ∃ k nonce x after, sendLocalTransactions b f decode c outcomes s k = some (nonce, x) ∧
      sendPass b f decode c (outcomes k) nonce x = .ended after := by
  obtain ⟨bound, hbound⟩ := exists_bound decode s.logs
  by_contra hnever
  -- the nonce that is asked for is at least the number of passes
  have hrun : ∀ k, ∃ nonce x,
      sendLocalTransactions b f decode c outcomes s k = some (nonce, x) ∧
        Searches b f decode bound nonce x ∧ (k : ℤ) ≤ nonce ∧ nonce ≤ max 0 (bound + 1) := by
    intro k
    induction k with
    | zero => exact ⟨0, s, rfl, h.searches hbound, Int.le_refl 0, Int.le_max_left _ _⟩
    | succ k ih =>
        obtain ⟨nonce, x, hstate, hsearches, hle, -⟩ := ih
        cases hpass : sendPass b f decode c (outcomes k) nonce x with
        | ended after => exact absurd ⟨k, nonce, x, after, hstate, hpass⟩ hnever
        | again n t =>
            obtain ⟨hnext, hless, hupto⟩ := hsearches.next hpass
            exact ⟨n, t, sendLocalTransactions_succ hstate hpass, hnext, by omega,
              hupto.trans (Int.le_max_right _ _)⟩
  obtain ⟨nonce, x, -, -, hle, hupto⟩ := hrun ((max 0 (bound + 1)).toNat + 1)
  omega

/-! ## What has been sent -/

/-- What a pass that keeps the local transactions does in `process_new_transaction`. -/
structure Stores (decode : Bytes → Log) (log : Bytes) (txn : Transaction) (s x : LocalSender) :
    Prop where
  processed : s.sending.lastProcessedNonce ≤ x.sending.lastProcessedNonce
  kept : ∀ txn ∈ s.mempool, txn.nodeId = s.nodeId → x.sending.lastProcessedNonce < txn.nonce →
    ∃ copy ∈ x.mempool, txn.Copy copy
  mem : txn ∈ x.mempool
  entry : txn.IsLocal s.nodeId (decode log)

/-- What is added to the mempool is the local transaction. -/
theorem isLocal_of_stored {log : Log} {mempool : List Transaction} {old txn : Transaction}
    (hstore : storeTransactionOnMempool c s.adminPubkey s.authorizations s.mempool s.nodeId nonce
      log = some (.ok mempool)) (hnonce : getTransactionNonce log = nonce) (hold : old ∈ mempool)
    (hcopy : old.Copy txn) (hid : txn.id = buildTransactionId s.nodeId nonce) :
    txn.IsLocal s.nodeId log := by
  obtain ⟨hother, -, datetime, -, rfl⟩ := storeTransactionOnMempool_ok hstore
  rcases List.mem_append.1 hold with hmem | hnew
  · obtain ⟨height, rfl⟩ := hcopy
    exact absurd hid (hother old hmem)
  · rw [List.mem_singleton.1 hnew] at hcopy
    exact Transaction.IsLocal.copy ⟨rfl, hnonce.symm, rfl⟩ hcopy

theorem stores_of_keepsLocal {log : Bytes} {sending : SendingNode} {txn : Transaction}
    {x : LocalSender} (hkeeps : KeepsLocal b f decode c o nonce s)
    (hfetched : FetchedLog b f decode nonce s log sending)
    (hprocess : { s with sending }.processNewTransaction f decode c o (s.sending.sought nonce)
      (decode log) = some (.ok txn, x)) : Stores decode log txn s x := by
  obtain ⟨hfind, hx⟩ := processNewTransaction_ok hprocess
  have hmem : txn ∈ x.mempool := List.mem_of_find?_eq_some hfind
  have hid : txn.id = buildTransactionId x.nodeId (s.sending.sought nonce) := by
    have := List.find?_some hfind
    exact beq_iff_eq.1 this
  rcases hx with rfl | ⟨mempool, hstore, rfl⟩
  · exact ⟨hfetched.processed.ge, fun txn htxn _ _ => ⟨txn, htxn, .refl txn⟩, hmem,
      hkeeps.entry _ _ _ hfetched.fetch txn hfind⟩
  · have hcommits := hkeeps.commits _ _ _ hfetched.fetch mempool hstore
    rw [← hfetched.processed] at hcommits
    obtain ⟨hle, hkept⟩ :=
      @kept_consensus f decode o.events { s with sending, mempool } hcommits
    have hleads := @leads_consensus b f decode o.events { s with sending, mempool }
    obtain ⟨old, hold, hcopy⟩ := hleads.entries txn hmem
    refine ⟨hfetched.processed.ge.trans hle, fun txn htxn => hkept txn ?_, hmem,
      isLocal_of_stored hstore hfetched.nonce hold hcopy (hleads.nodeId ▸ hid)⟩
    obtain ⟨-, -, datetime, -, rfl⟩ := storeTransactionOnMempool_ok hstore
    exact List.mem_append_left _ htxn

/-- The unprocessed transactions with a nonce below the one that is asked for have been sent, and
nothing else. -/
structure SentBefore (decode : Bytes → Log) (nonce : ℤ) (s : LocalSender) : Prop where
  sent : ∀ log ∈ s.logs, s.sending.lastProcessedNonce < getTransactionNonce (decode log) →
    getTransactionNonce (decode log) < nonce → s.Sent (decode log)
  broadcasted : ∀ txn ∈ s.broadcasted, txn.nonce < nonce

/-- **A pass sends the transaction that it fetches, and those sent before stay.** -/
theorem SentBefore.next (h : SentBefore decode nonce s) (hwell : s.WellFormed b f)
    (hpos : 0 < s.sending.sought nonce) (hkeeps : KeepsLocal b f decode c o nonce s)
    (hpass : sendPass b f decode c o nonce s = .again n t) : SentBefore decode n t := by
  have hle : nonce ≤ s.sending.sought nonce := Int.le_max_left _ _
  have hspec := @sendPass_spec b f decode c s o nonce hwell hpos
  rw [hpass] at hspec
  cases hspec with
  | again log sending txn x t fetched process broadcasts =>
      have hstores := stores_of_keepsLocal hkeeps fetched process
      obtain ⟨mempool, hleads⟩ := @leads_process b f decode c _ x o _ _ txn process
      have hid : t.nodeId = s.nodeId := broadcasts.nodeId.trans hleads.nodeId
      have hbroadcasted : t.broadcasted = s.broadcasted ++ [txn] := by
        rw [broadcasts.broadcasted, hleads.broadcasted]
      refine ⟨fun log' hlog' hprocessed hless => ?_, fun txn' htxn' => ?_⟩
      · rw [broadcasts.sending] at hprocessed
        have hold : log' ∈ s.logs := by
          unfold logs at hlog' ⊢
          rw [broadcasts.sending, broadcasts.walRotation] at hlog'
          have hmem := hleads.logs hlog'
          unfold logs at hmem
          rw [← fetched.file]
          exact hmem
        by_cases hlast : getTransactionNonce (decode log') = s.sending.sought nonce
        · -- it is the one that is fetched
          have hentry := hstores.entry
          rw [← hkeeps.file _ _ _ fetched.fetch log' hold hlast, ← hid] at hentry
          exact ⟨⟨txn, broadcasts.mempool ▸ hstores.mem, hentry⟩,
            ⟨txn, hbroadcasted ▸ List.mem_append_right _ List.mem_cons_self, hentry⟩⟩
        · -- it was sent before, as no nonce between is unprocessed
          have hbetween : s.sending.sought nonce =
              max nonce (s.sending.lastProcessedNonce + 1) := rfl
          have hle' := hstores.processed
          obtain ⟨⟨entry, hentry, hlocal⟩, ⟨sent, hsent, hlocal'⟩⟩ :=
            h.sent log' hold (by omega) (by omega)
          obtain ⟨copy, hcopy, hsame⟩ :=
            hstores.kept entry hentry hlocal.1 (hlocal.2.1 ▸ hprocessed)
          refine ⟨⟨copy, broadcasts.mempool ▸ hcopy, ?_⟩, ⟨sent, ?_, ?_⟩⟩
          · exact hid ▸ hlocal.copy hsame
          · exact hbroadcasted ▸ List.mem_append_left _ hsent
          · exact hid ▸ hlocal'
      · rw [hbroadcasted] at htxn'
        rcases List.mem_append.1 htxn' with hmem | hnew
        · have := h.broadcasted txn' hmem
          omega
        · rw [List.mem_singleton.1 hnew, hstores.entry.2.1, fetched.nonce]
          omega

/-- **What holds before every pass.** -/
theorem sentBefore_run (hstarts : s.Starts b f) {k : ℕ} {x : LocalSender}
    (h : sendLocalTransactions b f decode c outcomes s k = some (nonce, x))
    (hkeeps : ∀ i < k, ∀ nonce x,
      sendLocalTransactions b f decode c outcomes s i = some (nonce, x) →
        KeepsLocal b f decode c (outcomes i) nonce x) :
    x.WellFormed b f ∧ 0 < x.sending.sought nonce ∧ SentBefore decode nonce x := by
  obtain ⟨bound, hbound⟩ := exists_bound decode s.logs
  suffices hrun : Searches b f decode bound nonce x ∧ SentBefore decode nonce x from
    ⟨hrun.1.wellFormed, hrun.1.positive, hrun.2⟩
  induction k generalizing nonce x with
  | zero =>
      cases h
      refine ⟨hstarts.searches hbound, fun log _ hprocessed hless => ?_, fun txn htxn => ?_⟩
      · have := hstarts.processed
        omega
      · rw [hstarts.broadcasted] at htxn
        exact absurd htxn List.not_mem_nil
  | succ k ih =>
      rw [sendLocalTransactions] at h
      split at h
      · exact nomatch h
      · rename_i nonce' x' hstate
        obtain ⟨hsearches, hsent⟩ := ih hstate fun i hi => hkeeps i (by omega)
        split at h
        · rename_i n t hpass
          cases h
          exact ⟨(hsearches.next hpass).1, hsent.next hsearches.wellFormed hsearches.positive
            (hkeeps k (Nat.lt_succ_self k) _ _ hstate) hpass⟩
        · exact nomatch h

/-- **Nothing is left where the nonces have no gap**, and the log of the one that is sought is not
passed over. -/
theorem none_left_of_consecutive (h : s.sending.Tracks b f decode)
    (hpassed : ∀ log ∈ passedOver f false s.sending.walLocal,
      getTransactionNonce (decode log) ≠ s.sending.sought nonce)
    (hconsecutive : ∀ m ∈ localNonces decode s.sending.walLocal, ∀ n ≤ m,
      s.sending.lastProcessedNonce < n → n ∈ localNonces decode s.sending.walLocal)
    {rc : Rc} {sending : SendingNode}
    (hfetch : aergoliteGetLocalTransaction b f decode s.sending nonce = (.error rc, sending)) :
    ∀ log ∈ localLogs s.sending.walLocal,
      getTransactionNonce (decode log) < s.sending.sought nonce := by
  intro log hlog
  by_contra hnot
  have hsought : s.sending.lastProcessedNonce + 1 ≤ s.sending.sought nonce :=
    Int.le_max_right _ _
  obtain ⟨found, hfound, hnonce⟩ := List.mem_map.1
    (hconsecutive _ (List.mem_map_of_mem hlog) _ (not_lt.1 hnot) (by omega))
  have hok := ((h.fetched_iff nonce).2 hpassed).found found hfound hnonce
  rw [hfetch] at hok
  exact nomatch hok

/-- **The loop ends, and where it ends the local transactions are sent exactly when it ends
rightly.** -/
theorem sendLocalTransactions_complete_iff (outcomes : ℕ → SendOutcome) (h : s.Starts b f) :
    ∃ k nonce x after, sendLocalTransactions b f decode c outcomes s k = some (nonce, x) ∧
      sendPass b f decode c (outcomes k) nonce x = .ended after ∧
      ((∀ i < k, ∀ nonce x,
        sendLocalTransactions b f decode c outcomes s i = some (nonce, x) →
          KeepsLocal b f decode c (outcomes i) nonce x) →
        (SendsAll decode after ↔ EndsRight b f decode c (outcomes k) nonce x)) := by
  obtain ⟨k, nonce, x, after, hstate, hpass⟩ :=
    @sendLocalTransactions_ends b f decode c s outcomes h
  refine ⟨k, nonce, x, after, hstate, hpass, fun hkeeps => ?_⟩
  obtain ⟨hwell, hpos, hsent⟩ := sentBefore_run h hstate hkeeps
  have hspec := @sendPass_spec b f decode c x (outcomes k) nonce hwell hpos
  rw [hpass] at hspec
  cases hspec with
  | failed t state right =>
      refine iff_of_true ⟨t, rfl, .inl state⟩ ⟨fun hreads rc sending hfetch => ?_,
        fun hreads n log sending hfetch => ?_⟩
      · obtain ⟨_, _, hfetched, -⟩ := right hreads
        exact nomatch hfetched.fetch.symm.trans hfetch
      · obtain ⟨_, _, hfetched, hsome⟩ := right hreads
        cases hfetched.fetch.symm.trans hfetch
        exact hsome
  | inSync rc reads fetch =>
      have hsought : x.sending.sought nonce = max nonce (x.sending.lastProcessedNonce + 1) := rfl
      constructor
      · rintro ⟨t, heq, hend⟩
        cases heq
        refine ⟨fun _ _ _ _ log hlog => ?_, fun _ n log sending hfetch =>
          nomatch fetch.symm.trans hfetch⟩
        by_contra hless
        obtain ⟨-, ⟨txn, htxn, hlocal⟩⟩ :=
          (hend.resolve_left nofun).2 log hlog
            (show x.sending.lastProcessedNonce < _ by omega)
        have hbefore := hsent.broadcasted txn htxn
        rw [hlocal.2.1] at hbefore
        omega
      · intro hright
        refine ⟨_, rfl, .inr ⟨rfl, fun log hlog hprocessed => ?_⟩⟩
        have hless := hright.none_left reads _ _ fetch log hlog
        have hprocessed' : x.sending.lastProcessedNonce < getTransactionNonce (decode log) :=
          hprocessed
        obtain ⟨hmempool, hbroadcasted⟩ :=
          hsent.sent log (List.mem_append_left _ hlog) hprocessed' (by omega)
        exact ⟨hmempool, hbroadcasted⟩
  | undefined log sending reads fetched process =>
      refine iff_of_false (fun ⟨t, heq, _⟩ => nomatch heq) fun hright => ?_
      have hsome := hright.defined reads _ _ _ fetched.fetch
      rw [process] at hsome
      exact nomatch hsome

/-! ## A missing nonce -/

/-- Nothing fails, and no block is committed. -/
def calmOutcome : SendOutcome := ⟨true, true, true, []⟩

/-- Node 1, connected to node 2, with a file of one log. -/
def oneLogSender (nonce lastNonce : ℤ) : LocalSender :=
  ⟨1, List.replicate 33 9, twoAuths.map fun auth => { auth with lastNonce }, [],
    [⟨2, List.replicate 33 2, true⟩], ⟨[.txn SendingNode.specialTxn], nonce, lastNonce, 0, 0⟩, [],
    .localChanges, [], []⟩

theorem starts_oneLogSender {nonce lastNonce : ℤ} (h : 0 ≤ lastNonce) :
    (oneLogSender nonce lastNonce).Starts listReader reservedFormat where
  points := ⟨fun _ hitem => List.mem_singleton.1 hitem ▸ SendingNode.valid_specialTxn, .inl rfl⟩
  rotation := nofun
  processed := h
  broadcasted := rfl

/-- Every log is the transaction 5 of node 1. -/
def readFive : Bytes → Log := fun _ => logWithKey (List.replicate 33 1)

/-- The node after it has sent the transaction. -/
def sentFive : LocalSender :=
  let txn : Transaction :=
    ⟨1, 5, buildTransactionId 1 5, "d".toList, logWithKey (List.replicate 33 1), 0⟩
  { oneLogSender 5 4 with
    mempool := [txn]
    sending := ⟨[.txn SendingNode.specialTxn], 5, 4, 5, 1⟩
    syncUpState := .synchronizing
    broadcasted := [txn]
    messages := [(List.replicate 33 2, txn)] }

theorem sendPass_first : sendPass listReader reservedFormat readFive plainCrypto calmOutcome 0
    (oneLogSender 5 4) = .again 6 sentFive := by
  rfl

theorem fetch_six : aergoliteGetLocalTransaction listReader reservedFormat readFive
    sentFive.sending 6 = (.error .notfound, sentFive.sending) := by
  rfl

/-- The only transaction that no block has is sent. -/
theorem sendLocalTransactions_complete_five :
    SendsAll readFive (some { sentFive with syncUpState := .inSync }) := by
  obtain ⟨k, nonce, x, after, hstate, hpass, hiff⟩ :=
    @sendLocalTransactions_complete_iff listReader reservedFormat readFive plainCrypto
      (oneLogSender 5 4) (fun _ => calmOutcome) (starts_oneLogSender (by decide))
  have hlast : sendPass listReader reservedFormat readFive plainCrypto calmOutcome 6 sentFive =
      .ended (some { sentFive with syncUpState := .inSync }) := by
    unfold sendPass
    rw [fetch_six]
    rfl
  have hone : sendLocalTransactions listReader reservedFormat readFive plainCrypto
      (fun _ => calmOutcome) (oneLogSender 5 4) 1 = some (6, sentFive) :=
    sendLocalTransactions_succ rfl sendPass_first
  have hle := sendLocalTransactions_le hone hlast hstate
  obtain rfl | rfl : k = 0 ∨ k = 1 := by omega
  · cases hstate
    exact nomatch sendPass_first.symm.trans hpass
  · cases hone.symm.trans hstate
    cases hlast.symm.trans hpass
    refine (hiff fun i hi nonce x hrun => ?_).2 ⟨fun _ _ _ _ _ _ => ?_,
      fun _ _ _ _ hfetch => nomatch fetch_six.symm.trans hfetch⟩
    · obtain rfl : i = 0 := by omega
      cases hrun
      exact ⟨fun _ _ _ _ _ _ _ => rfl, fun _ _ _ _ => nofun, fun _ _ _ _ _ _ => trivial⟩
    · show (5 : ℤ) < max 6 5
      decide

/-- **The node is in sync with a transaction that it never sent**: the nonce 1 is missing in
`wal-local`, and the transaction has the nonce 2. -/
theorem sendLocalTransactions_not_complete :
    (oneLogSender 2 0).Starts listReader reservedFormat ∧
      sendLocalTransactions listReader reservedFormat SendingNode.readList plainCrypto
        (fun _ => calmOutcome) (oneLogSender 2 0) 0 = some (0, oneLogSender 2 0) ∧
      sendPass listReader reservedFormat SendingNode.readList plainCrypto calmOutcome 0
        (oneLogSender 2 0) = .ended (some { oneLogSender 2 0 with syncUpState := .inSync }) ∧
      ¬SendsAll SendingNode.readList (some { oneLogSender 2 0 with syncUpState := .inSync }) := by
  have hfetch : aergoliteGetLocalTransaction listReader reservedFormat SendingNode.readList
      (oneLogSender 2 0).sending 0 = (.error .notfound, (oneLogSender 2 0).sending) := by
    decide +kernel
  have hnonce : 0 < getTransactionNonce (SendingNode.readList SendingNode.specialTxn) := by
    decide +kernel
  refine ⟨starts_oneLogSender (by decide), rfl, ?_, fun ⟨t, heq, hend⟩ => ?_⟩
  · unfold sendPass
    rw [hfetch]
    rfl
  · cases heq
    obtain ⟨⟨txn, htxn, -⟩, -⟩ := (hend.resolve_left nofun).2 SendingNode.specialTxn
      List.mem_cons_self hnonce
    exact absurd htxn List.not_mem_nil

end LocalSender

end NoLeader
end AergoLite
