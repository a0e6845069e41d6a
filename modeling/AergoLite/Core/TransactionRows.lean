/-
# The rows of executed transactions

A full node keeps the transactions of the chain in the table `transactions`, each with the height
of its block and its position in it.  Where the node executes a block, `execute_transaction` saves
the row of each transaction that succeeds, if `this_node->is_full_node` is set, and counts the
others as well, so the positions are those of the body (`Executes.transactions`).
-/

import AergoLite.Core.Calls
import AergoLite.Core.Determinism

namespace AergoLite
namespace Core

variable {D : Type}

/-! ## The transactions of the chain -/

/-- A transaction in a block: who made it, its log, and whether the block has it as failed. -/
structure ChainTxn where
  nodeId : ℤ
  nonce : ℤ
  log : Log
  failed : Bool

/-- The transaction id. -/
def ChainTxn.id (txn : ChainTxn) : BitVec 64 := buildTransactionId txn.nodeId txn.nonce

/-- The id in the body of the block. -/
def ChainTxn.bodyId (txn : ChainTxn) : BitVec 64 :=
  if txn.failed then txn.id ||| failedFlag else txn.id

/-- A block of the chain. -/
structure ChainBlock where
  height : ℤ
  txns : List ChainTxn

/-- A transaction at a position of a block. -/
structure Place where
  height : ℤ
  seq : ℕ
  txn : ChainTxn

/-- The row with the height of the block and the position. -/
def Place.row (p : Place) : TransactionRow :=
  ⟨p.txn.id, p.height, p.seq, p.txn.nodeId, p.txn.nonce, p.txn.log⟩

/-- The places of some transactions, after a number of others. -/
def placesFrom (height : ℤ) : List ChainTxn → ℕ → List Place
  | [], _ => []
  | txn :: txns, count => ⟨height, count + 1, txn⟩ :: placesFrom height txns (count + 1)

/-- The places of a block. -/
def ChainBlock.places (block : ChainBlock) : List Place := placesFrom block.height block.txns 0

theorem height_of_mem_placesFrom {height : ℤ} {txns : List ChainTxn} {count : ℕ} {p : Place}
    (h : p ∈ placesFrom height txns count) : p.height = height := by
  induction txns generalizing count with
  | nil => exact absurd h List.not_mem_nil
  | cons txn txns ih =>
      rcases List.mem_cons.1 h with rfl | h
      · rfl
      · exact ih h

/-- The rows that a node saves when it executes the transactions at some places. -/
def savedRows (isFullNode : Bool) (places : List Place) : List TransactionRow :=
  (places.filter fun p => isFullNode && !p.txn.failed).map Place.row

theorem mem_savedRows {isFullNode : Bool} {places : List Place} {row : TransactionRow} :
    row ∈ savedRows isFullNode places ↔
      ∃ p ∈ places, isFullNode = true ∧ p.txn.failed = false ∧ p.row = row := by
  simp [savedRows, and_assoc]

/-- The log is that of the transaction: with some authorization list it is accepted. -/
def ChainTxn.Authentic (c : Crypto) (adminPubkey : Bytes) (txn : ChainTxn) : Prop :=
  ∃ auths datetime, aergoliteVerifyTransaction c adminPubkey auths txn.nodeId txn.log =
    some (.ok (txn.nonce, datetime))

/-- The list has an entry for the node, with a lower nonce and a key that the signature is valid
with. -/
def ChainTxn.Unused (c : Crypto) (auths : List NodeAuth) (txn : ChainTxn) : Prop :=
  ∃ nodePubkey auth sig data, authorizedNode auths txn.nodeId txn.log = some (nodePubkey, auth) ∧
    auth.lastNonce < txn.nonce ∧ txnSig txn.log = some sig ∧
    serializeTransactionToString txn.log = some data ∧
    aergoliteVerify c data (sig.key nodePubkey) sig.signature = .ok

/-- The entry for the node, if the list has one, has the nonce already. -/
def ChainTxn.Used (auths : List NodeAuth) (txn : ChainTxn) : Prop :=
  ∀ nodePubkey auth, authorizedNode auths txn.nodeId txn.log = some (nodePubkey, auth) →
    txn.nonce ≤ auth.lastNonce

theorem ChainTxn.Used.not_unused {c : Crypto} {auths : List NodeAuth} {txn : ChainTxn}
    (h : txn.Used auths) : ¬txn.Unused c auths := by
  rintro ⟨nodePubkey, auth, -, -, hnode, hfresh, -⟩
  have hle := h nodePubkey auth hnode
  omega

/-- The rights of a signer do not depend on the key of the node. -/
theorem verifyTxnAccessRights_key {log : Log} {sig : TxnSig} (hsig : txnSig log = some sig)
    (adminPubkey nodePubkey nodePubkey' : Bytes) :
    verifyTxnAccessRights adminPubkey log sig.isUserTxn (sig.key nodePubkey) =
      verifyTxnAccessRights adminPubkey log sig.isUserTxn (sig.key nodePubkey') := by
  unfold verifyTxnAccessRights commandAllowed
  cases huser : sig.isUserTxn with
  | false => rfl
  | true =>
      have hkey : sig.key nodePubkey = sig.key nodePubkey' := by
        unfold txnSig readTxnSig at hsig
        split at hsig
        · cases hsig
        split at hsig
        · obtain ⟨signature, -, rfl⟩ := Option.map_eq_some_iff.1 hsig
          cases huser
        · split at hsig
          · obtain rfl := Option.some.inj hsig
            rfl
          · cases hsig
        · cases hsig
      rw [hkey]

/-- **When an authentic log is accepted again.** -/
theorem ChainTxn.Authentic.accepted_iff {c : Crypto} {adminPubkey : Bytes} {txn : ChainTxn}
    (h : txn.Authentic c adminPubkey) (auths : List NodeAuth) :
    (∃ datetime, aergoliteVerifyTransaction c adminPubkey auths txn.nodeId txn.log =
      some (.ok (txn.nonce, datetime))) ↔ txn.Unused c auths := by
  obtain ⟨auths₀, datetime₀, haccepted⟩ := h
  obtain ⟨nodePubkey₀, auth₀, sig₀, data₀, v₀⟩ := aergoliteVerifyTransaction_eq_ok.1 haccepted
  constructor
  · rintro ⟨datetime, hok⟩
    obtain ⟨nodePubkey, auth, sig, data, v⟩ := aergoliteVerifyTransaction_eq_ok.1 hok
    exact ⟨nodePubkey, auth, sig, data, v.node, v.fresh, v.sig_eq, v.data_eq, v.signed⟩
  · rintro ⟨nodePubkey, auth, sig, data, hnode, hfresh, hsig, hdata, hsigned⟩
    obtain rfl : sig₀ = sig := Option.some.inj (v₀.sig_eq.symm.trans hsig)
    have hallowed := (verifyTxnAccessRights_key hsig adminPubkey nodePubkey nodePubkey₀).trans
      v₀.allowed
    exact ⟨datetime₀, aergoliteVerifyTransaction_eq_ok.2 ⟨nodePubkey, auth, sig₀, data,
      v₀.nonce_eq, v₀.datetime_eq, v₀.first, hnode, hfresh, hsig, hdata, hsigned, hallowed⟩⟩

/-- An authentic log that is accepted is accepted with its nonce. -/
theorem ChainTxn.Authentic.nonce_eq {c : Crypto} {adminPubkey : Bytes} {txn : ChainTxn}
    (h : txn.Authentic c adminPubkey) {auths : List NodeAuth} {nonce : ℤ} {datetime : Text}
    (hok : aergoliteVerifyTransaction c adminPubkey auths txn.nodeId txn.log =
      some (.ok (nonce, datetime))) : nonce = txn.nonce := by
  obtain ⟨_, _, haccepted⟩ := h
  obtain ⟨_, _, _, _, v₀⟩ := aergoliteVerifyTransaction_eq_ok.1 haccepted
  obtain ⟨_, _, _, _, v⟩ := aergoliteVerifyTransaction_eq_ok.1 hok
  exact v.nonce_eq.symm.trans v₀.nonce_eq

/-! ## A transaction that arrives -/

/-- `aergolite_save_transaction`.  The result is `none` where `aergolite_verify_transaction` is
undefined. -/
def aergoliteSaveTransaction (c : Crypto) (a : Aergolite D) (height : ℤ) (seq : ℕ)
    (nodeId nonce : ℤ) (log : Log) : Option (Rc × Aergolite D) :=
  match aergoliteVerifyTransaction c a.adminPubkey a.authorizations nodeId log with
  | none => none
  | some (.error rc) => some (rc, a)
  | some (.ok (tnonce, _)) =>
    if tnonce ≠ nonce then some (.invalid, a)
    else
      let r := saveTransaction ⟨buildTransactionId nodeId nonce, height, seq, nodeId, nonce, log⟩ a.db
      some (r.1, { a with db := r.2 })

/-- The rows of the table `transactions`. -/
def Aergolite.transactionRows (a : Aergolite D) : List TransactionRow := a.db.state.transactions

/-- The row of a transaction can be saved: the log is accepted, the command does not fail, and no
row has the id. -/
structure Savable (c : Crypto) (a : Aergolite D) (txn : ChainTxn) : Prop where
  unused : txn.Unused c a.authorizations
  command : a.db.command.1 = .ok
  new : ∀ row ∈ a.transactionRows, row.tid ≠ txn.id

theorem saveTransaction_transactions (row : TransactionRow) (db : Databases D) :
    (db.command.1 = .ok → (∀ other ∈ db.state.transactions, other.tid ≠ row.tid) →
        (saveTransaction row db).2.state.transactions = db.state.transactions ++ [row]) ∧
      (¬(db.command.1 = .ok ∧ ∀ other ∈ db.state.transactions, other.tid ≠ row.tid) →
        (saveTransaction row db).2.state.transactions = db.state.transactions) := by
  have hstate := command_state db
  have hany : (db.command.2.state.transactions.any fun other => other.tid == row.tid) = false ↔
      ∀ other ∈ db.state.transactions, other.tid ≠ row.tid := by
    rw [hstate]
    simp
  unfold saveTransaction
  dsimp only
  split_ifs with hrc hsaved
  · exact ⟨fun hok => absurd hok hrc, fun _ => congrArg StateDb.transactions hstate⟩
  · refine ⟨fun _ hnew => ?_, fun _ => congrArg StateDb.transactions hstate⟩
    rw [hany.2 hnew] at hsaved
    cases hsaved
  · refine ⟨fun _ _ => ?_, fun hnot => absurd ⟨not_not.1 hrc, ?_⟩ hnot⟩
    · rw [hstate]
    · exact hany.1 (by simpa using hsaved)

/-- **When the answer to a request is saved**: the log of a transaction of the chain, with the
height and the position of the request. -/
theorem aergoliteSaveTransaction_rows {c : Crypto} {a b : Aergolite D} {p : Place} {rc : Rc}
    (hp : p.txn.Authentic c a.adminPubkey)
    (h : aergoliteSaveTransaction c a p.height p.seq p.txn.nodeId p.txn.nonce p.txn.log =
      some (rc, b)) :
    b.adminPubkey = a.adminPubkey ∧ b.authorizations = a.authorizations ∧
      (Savable c a p.txn → b.transactionRows = a.transactionRows ++ [p.row]) ∧
      (¬Savable c a p.txn → b.transactionRows = a.transactionRows) := by
  have haccepted := hp.accepted_iff a.authorizations
  unfold aergoliteSaveTransaction at h
  split at h
  · cases h
  · rename_i rc' hverify
    obtain ⟨-, rfl⟩ := Prod.mk.inj (Option.some.inj h)
    refine ⟨rfl, rfl, fun hs => ?_, fun _ => rfl⟩
    obtain ⟨datetime, hok⟩ := haccepted.2 hs.unused
    rw [hverify] at hok
    cases hok
  · rename_i tnonce datetime hverify
    obtain rfl := hp.nonce_eq hverify
    rw [if_neg (not_not.2 rfl)] at h
    obtain ⟨-, rfl⟩ := Prod.mk.inj (Option.some.inj h)
    obtain ⟨hsaves, hkeeps⟩ := saveTransaction_transactions p.row a.db
    refine ⟨rfl, rfl, fun hs => hsaves hs.command hs.new, fun hs => hkeeps fun hall => hs ?_⟩
    exact ⟨haccepted.1 ⟨datetime, hverify⟩, hall.1, hall.2⟩

/-! ## What execution counts and saves -/

@[simp] theorem txnCount_command (db : Databases D) : db.command.2.txnCount = db.txnCount := by
  unfold Databases.command
  split <;> rfl

@[simp] theorem txnCount_updateNode (nodeId : ℤ) (set : AllowedNode → AllowedNode)
    (db : Databases D) : (updateNode nodeId set db).2.txnCount = db.txnCount := by
  have hcommand := txnCount_command db
  unfold updateNode
  dsimp only
  split_ifs <;> exact hcommand

theorem txnCount_updateNodeTypes (type : Text) (nodeIds : List ℤ) (db : Databases D) :
    (updateNodeTypes type nodeIds db).2.txnCount = db.txnCount := by
  induction nodeIds generalizing db with
  | nil => rfl
  | cons nodeId nodeIds ih =>
      have hone : (updateNodeType nodeId type db).2.txnCount = db.txnCount := by
        unfold updateNodeType
        dsimp only
        split_ifs <;> exact txnCount_updateNode _ _ _
      unfold updateNodeTypes
      dsimp only
      split_ifs
      · exact hone
      · exact (ih _).trans hone

/-- The commands of a transaction are not counted. -/
theorem txnCount_executeBody (codec : Codec) (eng : Engine D) (auths : List NodeAuth)
    (height nodeId : ℤ) (log : Log) (db : Databases D) :
    (executeBody codec eng auths height nodeId log db).db.txnCount = db.txnCount := by
  unfold executeBody
  split_ifs
  swap
  · rfl
  unfold executeSpecialTransaction
  split
  · rfl
  split
  · have hcommand := txnCount_command { db with nodesChanged := true }
    unfold aergoliteInsertAllowedNode
    dsimp only
    split_ifs
    · rfl
    all_goals exact hcommand
  split
  · dsimp only
    split_ifs <;> exact txnCount_updateNodeTypes _ _ db
  · have hcommand := txnCount_command db
    unfold saveConfig
    dsimp only
    split_ifs
    · rfl
    · exact hcommand
    · exact hcommand
    · rfl

theorem txnCount_recordTransaction (isFullNode : Bool) (height nodeId nonce : ℤ) (tid : BitVec 64)
    (log : Log) (db : Databases D) :
    (recordTransaction isFullNode height nodeId nonce tid log db).2.txnCount = db.txnCount := by
  have hsave : (if isFullNode then
      saveTransaction ⟨tid, height, db.txnCount + 1, nodeId, nonce, log⟩ db
      else (.ok, db)).2.txnCount = db.txnCount := by
    have hcommand := txnCount_command db
    unfold saveTransaction
    dsimp only
    split_ifs
    · exact hcommand
    · exact hcommand
    · exact hcommand
    · rfl
  unfold recordTransaction
  dsimp only
  split_ifs at hsave ⊢
  · exact hsave
  · exact (txnCount_updateNode _ _ _).trans hsave
  · exact hsave
  · exact (txnCount_updateNode _ _ _).trans hsave

/-- The row of a transaction that succeeds, when no command fails. -/
theorem recordTransaction_transactions {isFullNode : Bool} {height nodeId nonce : ℤ}
    {tid : BitVec 64} {log : Log} {db : Databases D} (hfaults : db.faults = [])
    (h : (recordTransaction isFullNode height nodeId nonce tid log db).1 = .ok) :
    (recordTransaction isFullNode height nodeId nonce tid log db).2.state.transactions =
      db.state.transactions ++ (if isFullNode then
        [⟨tid, height, db.txnCount + 1, nodeId, nonce, log⟩] else []) := by
  have hnode : ∀ db' : Databases D, db'.faults = [] →
      (updateNodeLastNonce nodeId nonce db').2.state = db'.state := by
    intro db' hdb'
    rw [(updateNodeLastNonce_of_no_faults hdb').2]
  unfold recordTransaction at h ⊢
  cases isFullNode with
  | false =>
      simp only [Bool.false_eq_true, ite_false, ne_eq, not_true_eq_false, List.append_nil] at h ⊢
      rw [hnode db hfaults]
  | true =>
      simp only [saveTransaction, command_of_no_faults hfaults, ite_true, ne_eq, not_true_eq_false,
        ite_false] at h ⊢
      by_cases hsaved : (db.state.transactions.any fun other => other.tid == tid) = true
      · simp [hsaved] at h
      · simp only [hsaved, Bool.false_eq_true, ite_false, not_true_eq_false]
        rw [hnode _ (by exact hfaults)]

/-- **What a transaction saves and counts**, when no command fails. -/
theorem executeTransaction_transactions (codec : Codec) (eng : Engine D) (isFullNode : Bool)
    (auths : List NodeAuth) (height nodeId nonce : ℤ) (tid : BitVec 64) (log : Log)
    {db : Databases D} (hfaults : db.faults = []) :
    let r := executeTransaction codec eng isFullNode auths height nodeId nonce tid log db
    if r.rc = .ok then
      r.db.state.transactions = db.state.transactions ++ (if isFullNode then
        [⟨tid, height, db.txnCount + 1, nodeId, nonce, log⟩] else []) ∧
        r.db.txnCount = db.txnCount + 1
    else r.db.state = db.state ∧ r.db.txnCount = db.txnCount := by
  obtain ⟨hbodyfaults, hbodystate⟩ := executeBody_frame codec eng height nodeId log auths hfaults
  have hbodycount := txnCount_executeBody codec eng auths height nodeId log db
  have hcount := (txnCount_recordTransaction isFullNode height nodeId nonce tid log
    (executeBody codec eng auths height nodeId log db).db).trans hbodycount
  have hrecord := recordTransaction_of_no_faults isFullNode height nodeId nonce tid log hbodyfaults
  have hsaved := @recordTransaction_transactions D isFullNode height nodeId nonce tid log _
    hbodyfaults
  unfold executeTransaction
  simp only [command_of_no_faults hfaults, command_of_no_faults hrecord.1,
    rollbackToSavepoint_of_no_faults hbodyfaults, rollbackToSavepoint_of_no_faults hrecord.1, ne_eq,
    not_true_eq_false, ite_false, ite_true]
  by_cases hbody : (executeBody codec eng auths height nodeId log db).rc = .ok
  · rw [if_neg (not_not.2 hbody)]
    by_cases hrc : (recordTransaction isFullNode height nodeId nonce tid log
        (executeBody codec eng auths height nodeId log db).db).1 = .ok
    · have hrows := hsaved hrc
      rw [hbodystate, hbodycount] at hrows
      rw [if_neg (not_not.2 hrc), if_pos rfl]
      exact ⟨hrows, congrArg (· + 1) hcount⟩
    · rw [if_pos hrc, if_neg hrc]
      exact ⟨rfl, hcount⟩
  · rw [if_pos hbody, if_neg hbody]
    exact ⟨rfl, hbodycount⟩

/-- What a transaction of a block leaves of an open block: its row, if it is saved, and one more
transaction that is counted. -/
structure Counted (a : Aergolite D) (txn : ChainTxn) (b : Aergolite D) : Prop where
  faults : b.db.faults = []
  isFullNode : b.isFullNode = a.isFullNode
  activeBlock : b.activeBlock = a.activeBlock
  txnCount : b.db.txnCount = a.db.txnCount + 1
  transactions : b.db.state.transactions = a.db.state.transactions ++
    savedRows a.isFullNode [⟨a.activeBlock.height, a.db.txnCount + 1, txn⟩]

/-- **What is counted of a transaction**, when no command fails and its outcome is that of the
block. -/
theorem counted_executeTransaction {env : Env D} {a : Aergolite D} {txn : ChainTxn}
    (hfaults : a.db.faults = [])
    (houtcome : outcome (aergoliteExecuteTransaction env a txn.nodeId txn.nonce txn.log).1 =
      if txn.failed then .failed else .ok) :
    Counted a txn (aergoliteExecuteTransaction env a txn.nodeId txn.nonce txn.log).2 := by
  obtain ⟨hdbfaults, -, -⟩ := executeTransaction_of_no_faults env.codec env.engine a.isFullNode
    a.authorizations a.activeBlock.height txn.nodeId txn.nonce
    (buildTransactionId txn.nodeId txn.nonce) txn.log hfaults
  have hrows := executeTransaction_transactions env.codec env.engine a.isFullNode a.authorizations
    a.activeBlock.height txn.nodeId txn.nonce (buildTransactionId txn.nodeId txn.nonce) txn.log
    hfaults
  change (a.execute env txn.nodeId txn.nonce txn.log).db.faults = [] at hdbfaults
  change if (a.execute env txn.nodeId txn.nonce txn.log).rc = .ok then
      (a.execute env txn.nodeId txn.nonce txn.log).db.state.transactions = _ ∧
        (a.execute env txn.nodeId txn.nonce txn.log).db.txnCount = _
    else (a.execute env txn.nodeId txn.nonce txn.log).db.state = _ ∧
      (a.execute env txn.nodeId txn.nonce txn.log).db.txnCount = _ at hrows
  have hresult := executeTransaction_outcome env a txn.nodeId txn.nonce txn.log
  generalize aergoliteExecuteTransaction env a txn.nodeId txn.nonce txn.log = result
    at hresult houtcome ⊢
  cases hresult with
  | executed succeeds =>
      rw [if_pos succeeds] at hrows
      have hsucceeds : txn.failed = false := by
        by_contra hfailed
        rw [if_pos (by simpa using hfailed)] at houtcome
        cases houtcome
      refine ⟨hdbfaults, rfl, rfl, hrows.2, hrows.1.trans ?_⟩
      cases hfull : a.isFullNode <;> simp [savedRows, hsucceeds, Place.row, ChainTxn.id]
  | @refused rc again fails =>
      rw [outcome_eq_skipped.2 again] at houtcome
      split_ifs at houtcome
  | @failed rc db fails counts records =>
      have hfailed : txn.failed = true := by
        by_contra hsucceeds
        rw [if_neg hsucceeds] at houtcome
        unfold outcome at houtcome
        rw [if_neg counts.1, if_neg (not_or.2 counts.2)] at houtcome
        cases houtcome
      rw [if_neg (fails ▸ counts.1)] at hrows
      rw [(updateNodeLastNonce_of_no_faults (by exact hdbfaults)).2] at records
      refine ⟨records ▸ hdbfaults, rfl, rfl, ?_, ?_⟩
      · exact (congrArg Databases.txnCount records).trans (congrArg (· + 1) hrows.2)
      · rw [show db.state = a.db.state from (congrArg Databases.state records).trans hrows.1]
        simp [savedRows, hfailed]

/-- The transactions of a block are executed, each with the outcome that the block says. -/
def executeTransactions (env : Env D) : List ChainTxn → Aergolite D → Option (Aergolite D)
  | [], a => some a
  | txn :: txns, a =>
    let r := aergoliteExecuteTransaction env a txn.nodeId txn.nonce txn.log
    if outcome r.1 = if txn.failed then .failed else .ok then executeTransactions env txns r.2
    else none

/-- The rows of the transactions that are executed in an open block. -/
theorem executeTransactions_rows {env : Env D} {txns : List ChainTxn} {a b : Aergolite D}
    (hfaults : a.db.faults = []) (h : executeTransactions env txns a = some b) :
    b.db.state.transactions = a.db.state.transactions ++ savedRows a.isFullNode
      (placesFrom a.activeBlock.height txns a.db.txnCount) := by
  induction txns generalizing a with
  | nil =>
      obtain rfl := Option.some.inj h
      exact (List.append_nil _).symm
  | cons txn txns ih =>
      unfold executeTransactions at h
      by_cases houtcome : outcome (aergoliteExecuteTransaction env a txn.nodeId txn.nonce
          txn.log).1 = if txn.failed then .failed else .ok
      swap
      · rw [if_neg houtcome] at h
        cases h
      rw [if_pos houtcome] at h
      have hone := counted_executeTransaction hfaults houtcome
      rw [ih hone.faults h, hone.transactions, hone.isFullNode, hone.activeBlock, hone.txnCount,
        List.append_assoc]
      unfold savedRows
      rw [← List.map_append, ← List.filter_append, List.singleton_append]
      rfl

/-- An open block has no transactions yet. -/
theorem beginBlock_counts {a b : Aergolite D} (hfaults : a.db.faults = [])
    (h : aergoliteBeginBlock a = (.ok, b)) :
    b.db.faults = [] ∧ b.db.txnCount = 0 ∧ b.db.state = a.db.state ∧
      b.isFullNode = a.isFullNode ∧ b.activeBlock.height = a.blockHeight + 1 := by
  have hprepare : ∀ db : Databases D, db.faults = [] → aergolitePrepareDb db = (.ok, db) := by
    intro db hdb
    simp [aergolitePrepareDb, command_of_no_faults hdb]
  have hcommand : ({ a.db with nodesChanged := false, configChanged := false } :
      Databases D).command = (.ok, { a.db with nodesChanged := false, configChanged := false }) :=
    command_of_no_faults hfaults
  unfold aergoliteBeginBlock at h
  simp only [hcommand] at h
  rw [hprepare _ (by exact hfaults), ite_self] at h
  split_ifs at h with hopen hnot
  · cases h
  · exact absurd rfl hnot
  · obtain rfl := congrArg Prod.snd h
    exact ⟨hfaults, rfl, rfl, rfl, rfl⟩

/-- A node executes a block, as it arrives or to make it, and commits it. -/
inductive ExecutesBlock (env : Env D) (block : ChainBlock) : Aergolite D → Aergolite D → Prop
  | received {a opened executed verified b : Aergolite D} {header : Header} {body : Body}
      {votes : List VoteItem} (height : block.height = a.blockHeight + 1)
      (txnIds : body.txnIds = block.txns.map ChainTxn.bodyId)
      (begins : aergoliteBeginBlock a = (.ok, opened))
      (executes : executeTransactions env block.txns opened = some executed)
      (verifies : aergoliteVerifyBlock env executed header body = (.ok, verified))
      (commits : aergoliteCommitBlock env verified header body votes = (.ok, b)) :
      ExecutesBlock env block a b
  | created {a opened executed created b : Aergolite D} {timestamp : ℤ} {header : Header}
      {body : Body} {votes : List VoteItem} (height : block.height = a.blockHeight + 1)
      (begins : aergoliteBeginBlock a = (.ok, opened))
      (executes : executeTransactions env block.txns opened = some executed)
      (creates : aergoliteCreateBlock env timestamp executed = (.ok (header, body), created))
      (commits : aergoliteCommitBlock env created header body votes = (.ok, b)) :
      ExecutesBlock env block a b

/-- A commit leaves the table `transactions`. -/
theorem commitBlock_transactions {env : Env D} {a b : Aergolite D} {header : Header}
    {body : Body} {votes : List VoteItem}
    (h : aergoliteCommitBlock env a header body votes = (.ok, b)) :
    b.db.state.transactions = a.db.state.transactions := by
  have houtcome := commitBlock_outcome env a header body votes
  rw [h] at houtcome
  cases houtcome with
  | failed fails => exact absurd rfl fails
  | half fails => exact absurd rfl fails
  | committed opened active verified stored => rw [stored.state]

/-- A verified block leaves it, too. -/
theorem verifyBlock_transactions {env : Env D} {a b : Aergolite D} {header : Header} {body : Body}
    (h : aergoliteVerifyBlock env a header body = (.ok, b)) :
    b.db.state.transactions = a.db.state.transactions := by
  have houtcome := verifyBlock_outcome env a header body
  rw [h] at houtcome
  cases houtcome with
  | kept fails => exact absurd rfl fails
  | failed fails => exact absurd rfl fails
  | verified _ same => exact congrArg StateDb.transactions same.state

/-- And so does a block that is made. -/
theorem createBlock_transactions {env : Env D} {timestamp : ℤ} {a b : Aergolite D}
    {block : Header × Body} (h : aergoliteCreateBlock env timestamp a = (.ok block, b)) :
    b.db.state.transactions = a.db.state.transactions := by
  have houtcome := createBlock_outcome env timestamp a
  rw [h] at houtcome
  cases houtcome with
  | created _ same => exact congrArg StateDb.transactions same.state

/-- **The rows of a block that is executed.** -/
theorem ExecutesBlock.transactions {env : Env D} {block : ChainBlock} {a b : Aergolite D}
    (hfaults : a.db.faults = []) (h : ExecutesBlock env block a b) :
    b.db.state.transactions =
      a.db.state.transactions ++ savedRows a.isFullNode block.places := by
  have hopened : ∀ {opened executed : Aergolite D}, block.height = a.blockHeight + 1 →
      aergoliteBeginBlock a = (.ok, opened) →
      executeTransactions env block.txns opened = some executed →
      executed.db.state.transactions =
        a.db.state.transactions ++ savedRows a.isFullNode block.places := by
    intro opened executed hheight hbegins hexecutes
    obtain ⟨hopenedfaults, hcount, hstate, hfull, hactive⟩ := beginBlock_counts hfaults hbegins
    rw [executeTransactions_rows hopenedfaults hexecutes, hcount, hstate, hfull, hactive, ← hheight]
    rfl
  cases h with
  | received height _ begins executes verifies commits =>
      rw [commitBlock_transactions commits, verifyBlock_transactions verifies]
      exact hopened height begins executes
  | created height begins executes creates commits =>
      rw [commitBlock_transactions commits, createBlock_transactions creates]
      exact hopened height begins executes

/-- A node executes some blocks, one after the other, and `isFullNode` says of each whether
`this_node->is_full_node` is set.  What the node does between them leaves the table
`transactions`. -/
inductive Executes (env : Env D) (isFullNode : ℤ → Bool) :
    List ChainBlock → Aergolite D → Aergolite D → Prop
  | nil (a : Aergolite D) : Executes env isFullNode [] a a
  | cons {block : ChainBlock} {blocks : List ChainBlock} {a start next b : Aergolite D}
      (same : start.db.state.transactions = a.db.state.transactions)
      (faults : start.db.faults = []) (flag : start.isFullNode = isFullNode block.height)
      (first : ExecutesBlock env block start next) (rest : Executes env isFullNode blocks next b) :
      Executes env isFullNode (block :: blocks) a b

/-- **The rows of the blocks that are executed**: those of the transactions that have not failed,
where `this_node->is_full_node` is set. -/
theorem Executes.transactions {env : Env D} {isFullNode : ℤ → Bool} {blocks : List ChainBlock}
    {a b : Aergolite D} (h : Executes env isFullNode blocks a b) :
    b.db.state.transactions = a.db.state.transactions ++
      blocks.flatMap fun block => savedRows (isFullNode block.height) block.places := by
  induction h with
  | nil => exact (List.append_nil _).symm
  | cons same faults flag first _ ih =>
      rw [ih, first.transactions faults, same, flag, List.append_assoc, List.flatMap_cons]

end Core
end AergoLite
