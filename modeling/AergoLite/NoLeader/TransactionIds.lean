/-
# The ids of transactions

`build_transaction_id` puts the node id into the upper half of a 64-bit number and ors the nonce
into it, and all that knows a transaction by its id (the mempool, the blocks, the requests and
the flag of a failed one) needs it to be that of no other.  The node id has 31 bits, but the
nonce is any positive number that the peer has signed: the ids are sound up to the nonce
`2 ^ 32 - 1`, and not further (`transactionIds_iff`).
-/

import AergoLite.NoLeader.Replay

namespace AergoLite
namespace NoLeader

open AergoLite.Core
open Transition

variable {D : Type} {net : Net D}

/-! ## The numbers -/

/-- The id of a nonce that fits into the lower half gives both back. -/
theorem txnEntry_buildTransactionId {n k : ℕ} (hn : n < 2 ^ 31) (hk : k < 2 ^ 32) :
    txnEntry (buildTransactionId n k) = (n, k) := by
  rw [← maskTxnId_buildTransactionId hn hk]
  exact txnEntry_of_mask hn hk rfl

/-- The ids of nonces that fit are different. -/
theorem buildTransactionId_inj {n k n' k' : ℤ} (hn : IsNodeId n) (hn' : IsNodeId n')
    (hk : 0 ≤ k ∧ k < 2 ^ 32) (hk' : 0 ≤ k' ∧ k' < 2 ^ 32)
    (h : buildTransactionId n k = buildTransactionId n' k') : n = n' ∧ k = k' := by
  obtain ⟨n, rfl⟩ := Int.eq_ofNat_of_zero_le hn.1
  obtain ⟨k, rfl⟩ := Int.eq_ofNat_of_zero_le hk.1
  obtain ⟨n', rfl⟩ := Int.eq_ofNat_of_zero_le hn'.1
  obtain ⟨k', rfl⟩ := Int.eq_ofNat_of_zero_le hk'.1
  have hentry := congrArg txnEntry h
  have hlt := hn.2
  have hlt' := hn'.2
  rw [txnEntry_buildTransactionId (by omega) (by omega),
    txnEntry_buildTransactionId (by omega) (by omega), Prod.mk.injEq] at hentry
  omega

/-- The sign bit is not set, whatever positive nonce is put into an id. -/
theorem msb_buildTransactionId {n k : ℤ} (hn : IsNodeId n) (hk : 0 ≤ k ∧ k < 2 ^ 63) :
    (buildTransactionId n k).msb = false := by
  obtain ⟨n, rfl⟩ := Int.eq_ofNat_of_zero_le hn.1
  obtain ⟨k, rfl⟩ := Int.eq_ofNat_of_zero_le hk.1
  have hlt := hn.2
  have hnode : (BitVec.ofNat 64 n <<< 32).msb = false := by
    rw [BitVec.msb_eq_decide, BitVec.toNat_shiftLeft, BitVec.toNat_ofNat, Nat.shiftLeft_eq,
      Nat.mod_eq_of_lt (by omega), Nat.mod_eq_of_lt (by omega), decide_eq_false_iff_not]
    omega
  have hnonce : (BitVec.ofNat 64 k).msb = false := by
    rw [BitVec.msb_eq_decide, BitVec.toNat_ofNat, Nat.mod_eq_of_lt (by omega),
      decide_eq_false_iff_not]
    omega
  unfold buildTransactionId
  rw [BitVec.ofInt_natCast, BitVec.ofInt_natCast, BitVec.msb_or, hnode, hnonce]
  rfl

/-- An id is at least its nonce. -/
theorem buildTransactionId_ne_zero {n k : ℤ} (hk : 0 < k ∧ k < 2 ^ 63) :
    buildTransactionId n k ≠ 0 := by
  obtain ⟨k, rfl⟩ := Int.eq_ofNat_of_zero_le hk.1.le
  intro h
  have hor : BitVec.ofInt 64 n <<< 32 = 0 ∧ BitVec.ofInt 64 k = 0 := BitVec.or_eq_zero_iff.1 h
  have hnat := congrArg BitVec.toNat hor.2
  rw [BitVec.ofInt_natCast, BitVec.toNat_ofNat, Nat.mod_eq_of_lt (by omega)] at hnat
  change k = 0 at hnat
  omega

/-- **An id is positive.** -/
theorem toInt_buildTransactionId_pos {n k : ℤ} (hn : IsNodeId n) (hk : 0 < k ∧ k < 2 ^ 63) :
    0 < (buildTransactionId n k).toInt := by
  have hmsb := msb_buildTransactionId hn ⟨hk.1.le, hk.2⟩
  have hne := @buildTransactionId_ne_zero n k hk
  have hnat : (buildTransactionId n k).toNat ≠ 0 := fun h => hne (BitVec.eq_of_toNat_eq h)
  rw [BitVec.toInt_eq_msb_cond, hmsb, if_neg Bool.false_ne_true]
  omega

/-- **The flag of a failed transaction is set and stripped**, on an id that is positive. -/
theorem flagged_buildTransactionId {n k : ℤ} (hn : IsNodeId n) (hk : 0 ≤ k ∧ k < 2 ^ 63) :
    (buildTransactionId n k ||| failedFlag).toInt < 0 ∧
      maskTxnId (buildTransactionId n k ||| failedFlag) = buildTransactionId n k := by
  have hmsb := msb_buildTransactionId hn hk
  constructor
  · refine of_decide_eq_true ?_
    rw [← BitVec.msb_eq_toInt, BitVec.msb_or, hmsb]
    rfl
  · refine BitVec.eq_of_toNat_eq ?_
    rw [maskTxnId_flagged, toNat_maskTxnId]
    rw [BitVec.msb_eq_decide, decide_eq_false_iff_not] at hmsb
    omega

/-! ## The lists of authorizations -/

/-- An entry has an id that can be generated, and nonces that have been counted up from 0. -/
structure SoundAuth (auth : NodeAuth) : Prop where
  id : IsNodeId auth.nodeId
  nonces : 0 ≤ auth.lastNonce ∧ 0 ≤ auth.savedNonce

/-- Each entry of the list does. -/
def SoundAuths (auths : List NodeAuth) : Prop := ∀ auth ∈ auths, SoundAuth auth

theorem SoundAuths.of_authNonces {auths auths' : List NodeAuth} (h : SoundAuths auths)
    (heq : authNonces auths' = authNonces auths) : SoundAuths auths' := by
  intro auth hauth
  have hmem : (auth.nodeId, auth.lastNonce, auth.savedNonce) ∈ authNonces auths :=
    heq ▸ List.mem_map_of_mem hauth
  obtain ⟨other, hother, hsame⟩ := List.mem_map.1 hmem
  obtain ⟨hid, hnonces⟩ := h other hother
  rw [Prod.mk.injEq, Prod.mk.injEq] at hsame
  obtain ⟨h1, h2, h3⟩ := hsame
  exact ⟨h1 ▸ hid, h2 ▸ h3 ▸ hnonces⟩

theorem SoundAuths.update {auths : List NodeAuth} (h : SoundAuths auths) (nodeId : ℤ)
    {nonce : ℤ} (hnonce : 0 ≤ nonce) : SoundAuths (updateAuthLastNonce nodeId nonce auths) := by
  intro auth hauth
  rcases mem_updateAuth hauth with hmem | ⟨a, ha, -, rfl⟩
  · exact h auth hmem
  · exact ⟨(h a ha).id, hnonce, (h a ha).nonces.2⟩

theorem SoundAuths.save {auths : List NodeAuth} (h : SoundAuths auths) :
    SoundAuths (saveAuthNonces auths) := by
  intro auth hauth
  obtain ⟨a, ha, rfl⟩ := List.mem_map.1 hauth
  exact ⟨(h a ha).id, (h a ha).nonces.1, (h a ha).nonces.1⟩

theorem SoundAuths.rolledBack {a b : Aergolite D} (h : SoundAuths a.authorizations)
    (hb : RolledBack a b) : SoundAuths b.authorizations := by
  rw [hb.authorizations]
  intro auth hauth
  obtain ⟨a, ha, rfl⟩ := List.mem_map.1 hauth
  exact ⟨(h a ha).id, (h a ha).nonces.2, (h a ha).nonces.2⟩

/-- The transactions of a mempool have the nonces of accepted ones. -/
def SoundTxns (txns : List Transaction) : Prop := ∀ txn ∈ txns, 0 ≤ txn.nonce

theorem SoundAuths.execute {core : Aergolite D} (h : SoundAuths core.authorizations) (env : Env D)
    (nodeId : ℤ) {nonce : ℤ} (hnonce : 0 ≤ nonce) (log : Log) :
    SoundAuths (aergoliteExecuteTransaction env core nodeId nonce log).2.authorizations := by
  have houtcome := executeTransaction_outcome env core nodeId nonce log
  generalize aergoliteExecuteTransaction env core nodeId nonce log = r at houtcome ⊢
  cases houtcome with
  | executed _ => exact h.update nodeId hnonce
  | refused _ _ => exact h
  | failed _ _ _ => exact h.update nodeId hnonce

theorem SoundAuths.beginBlock {core : Aergolite D} (h : SoundAuths core.authorizations) :
    SoundAuths (aergoliteBeginBlock core).2.authorizations := by
  have houtcome := beginBlock_outcome core
  generalize aergoliteBeginBlock core = r at houtcome ⊢
  cases houtcome with
  | busy _ => exact h
  | failed _ _ _ rolledBack => exact h.rolledBack rolledBack
  | opened _ _ => exact h.save

theorem SoundAuths.verifyTransactions {mempool : List Transaction} (hmempool : SoundTxns mempool)
    (tids : List (BitVec 64)) {core : Aergolite D} (h : SoundAuths core.authorizations) :
    SoundAuths (verifyTransactions net mempool tids core).2.authorizations := by
  induction tids generalizing core with
  | nil => exact h
  | cons tid tids ih =>
      unfold NoLeader.verifyTransactions
      split
      · exact h
      · rename_i txn hfind
        have hone := h.execute net.toEnv txn.nodeId
          (hmempool txn (List.mem_of_find?_eq_some hfind)) txn.log
        dsimp only
        split_ifs
        · exact hone
        · exact hone
        · exact hone
        · exact ih hone

theorem SoundAuths.includeNext {nonces : List (ℤ × ℤ)} {txns : List Transaction}
    (htxns : SoundTxns txns) {core : Aergolite D} (h : SoundAuths core.authorizations) :
    SoundAuths (includeNext net nonces txns core).2.authorizations := by
  induction txns generalizing core with
  | nil => exact h
  | cons txn txns ih =>
      have hrest : SoundTxns txns := fun t ht => htxns t (List.mem_cons_of_mem _ ht)
      have hone := h.execute net.toEnv txn.nodeId (htxns txn List.mem_cons_self) txn.log
      unfold NoLeader.includeNext
      dsimp only
      split_ifs
      · exact ih hrest hone
      · exact hone
      · exact ih hrest h

theorem SoundAuths.includeTransactions {fuel : ℕ} {nonces : List (ℤ × ℤ)}
    {mempool : List Transaction} (hmempool : SoundTxns mempool) {count : ℕ} {core : Aergolite D}
    (h : SoundAuths core.authorizations) :
    SoundAuths (includeTransactions net fuel nonces mempool count core).2.authorizations := by
  induction fuel generalizing nonces mempool count core with
  | zero => exact h
  | succ fuel ih =>
      have hone := @SoundAuths.includeNext D net nonces mempool hmempool core h
      unfold NoLeader.includeTransactions
      split
      · rename_i heq
        rw [heq] at hone
        exact hone
      · rename_i heq
        rw [heq] at hone
        refine ih (fun t ht => ?_) hone
        obtain ⟨other, hother, -, hnonce, -⟩ := mem_markIncluded ht
        exact hnonce ▸ hmempool other hother

/-! ## Runs -/

/-- **What holds between the calls**, whatever the peers send. -/
structure Sound (p : Plugin D) : Prop where
  auths : SoundAuths p.core.authorizations
  mempool : SoundTxns p.mempool

/-- The calls of a node that starts with the lists it has stored. -/
def soundChain (net : Net D) : System (Plugin D) Call where
  init p := p.Fresh ∧ SoundAuths p.core.authorizations
  step := ChainStep net

/-- The pairs that `store_transaction_on_mempool` accepts, for `on_new_remote_transaction` too. -/
def AcceptsTransaction (net : Net D) (p : Plugin D) (nodeId nonce : ℤ) : Prop :=
  ∃ log mempool, storeTransactionOnMempool net.crypto p.core.adminPubkey p.core.authorizations
    p.mempool nodeId nonce log = some (.ok mempool)

theorem Sound.accepts {p : Plugin D} (h : Sound p) {nodeId nonce : ℤ}
    (haccepts : AcceptsTransaction net p nodeId nonce) : IsNodeId nodeId ∧ 0 < nonce := by
  obtain ⟨log, mempool, hstored⟩ := haccepts
  obtain ⟨-, ⟨auth, hauth, hlast⟩, -⟩ := storeTransactionOnMempool_ok hstored
  obtain ⟨hmem, hid⟩ := aergoliteGetAuthorization_some hauth
  have hsound := h.auths auth hmem
  have hpos := hsound.nonces.1
  exact ⟨hid ▸ hsound.id, by omega⟩

theorem Sound.withCore {p : Plugin D} (h : Sound p) {core : Aergolite D}
    (hcore : SoundAuths core.authorizations) : Sound { p with core } := ⟨hcore, h.mempool⟩

theorem Sound.idle {p q : Plugin D} (h : Sound p) (hidle : Idle p q) : Sound q :=
  ⟨hidle.core ▸ h.auths, hidle.mempool ▸ h.mempool⟩

theorem Sound.arrive {p : Plugin D} (h : Sound p) {nodeId nonce : ℤ} {log : Log}
    {mempool : List Transaction}
    (stored : storeTransactionOnMempool net.crypto p.core.adminPubkey p.core.authorizations
      p.mempool nodeId nonce log = some (.ok mempool)) : Sound { p with mempool } := by
  have hnonce := (h.accepts ⟨log, mempool, stored⟩).2
  obtain ⟨-, -, datetime, -, rfl⟩ := storeTransactionOnMempool_ok stored
  refine ⟨h.auths, fun txn htxn => ?_⟩
  rcases List.mem_append.1 htxn with htxn | htxn
  · exact h.mempool txn htxn
  · obtain rfl := List.mem_singleton.1 htxn
    exact hnonce.le

theorem Sound.verifyBlock {p : Plugin D} (h : Sound p) (block : Block) :
    Sound (verifyBlock net p block).2 := by
  have hbegin := h.auths.beginBlock
  have hroll : ∀ (rc : Rc) {core : Aergolite D}, SoundAuths core.authorizations →
      Sound (markOutdated rc { p with core := aergoliteRollbackBlock core }) :=
    fun rc core hcore => (h.withCore (hcore.rolledBack (rolledBack core))).idle
      (idle_markOutdated ..)
  unfold NoLeader.verifyBlock
  dsimp only
  generalize aergoliteBeginBlock p.core = begun at hbegin ⊢
  have hexecuted := @SoundAuths.verifyTransactions D net _ h.mempool block.body.txnIds _ hbegin
  generalize verifyTransactions net p.mempool block.body.txnIds begun.2 = executed at hexecuted ⊢
  have houtcome := verifyBlock_outcome net.toEnv executed.2 block.header block.body
  generalize aergoliteVerifyBlock net.toEnv executed.2 block.header block.body = verified
    at houtcome ⊢
  have hverified : SoundAuths verified.2.authorizations := by
    cases houtcome with
    | kept _ => exact hexecuted
    | failed _ _ rolledBack => exact hexecuted.rolledBack rolledBack
    | verified _ _ _ _ => exact hexecuted
  split_ifs
  · exact (h.withCore hbegin).idle (idle_markOutdated ..)
  · exact hroll _ hexecuted
  · exact hroll _ hverified
  · exact ⟨hverified, h.mempool⟩

theorem Sound.commitBlock {p : Plugin D} (h : Sound p) (block : Block) :
    Sound (commitBlock net p block).2 := by
  have houtcome := commitBlock_outcome net.toEnv p.core block.header block.body block.votes
  unfold NoLeader.commitBlock
  dsimp only
  generalize aergoliteCommitBlock net.toEnv p.core block.header block.body block.votes = r
    at houtcome ⊢
  have hcommitted : SoundAuths r.2.authorizations := by
    cases houtcome with
    | misuse => exact h.auths
    | failed _ _ rolledBack => exact h.auths.rolledBack rolledBack
    | half _ _ _ rolledBack => exact SoundAuths.rolledBack (by exact h.auths) rolledBack
    | committed _ _ _ stored => exact h.auths.of_authNonces stored.nonces
  split_ifs
  · refine Sound.idle ?_ (idle_markOutdated ..)
    exact ⟨hcommitted, h.mempool⟩
  · refine Sound.idle ?_ (idle_startNewBlockTimer net _)
    refine ⟨hcommitted, fun txn htxn => ?_⟩
    obtain ⟨other, hother, -, -, hnonce, -⟩ := mem_updateMempool htxn
    exact hnonce ▸ h.mempool other hother

theorem Sound.createNewBlock {p q : Plugin D} (h : Sound p) {timestamp : ℤ}
    {block : Option Block} (created : createNewBlock net timestamp p = (block, q)) : Sound q := by
  have hbegin := h.auths.beginBlock
  unfold NoLeader.createNewBlock at created
  dsimp only at created
  generalize aergoliteBeginBlock p.core = begun at hbegin created
  have hall := @SoundAuths.includeTransactions D net p.mempool.length (buildLastNonceArray p) _
    h.mempool 0 _ hbegin
  generalize includeTransactions net p.mempool.length (buildLastNonceArray p) p.mempool 0 begun.2 =
    included at hall created
  have houtcome := createBlock_outcome net.toEnv timestamp included.2
  generalize aergoliteCreateBlock net.toEnv timestamp included.2 = made at houtcome created
  split_ifs at created with hrc hcount
  · obtain ⟨rfl, rfl⟩ := Prod.mk.inj created
    exact h.withCore hbegin
  · obtain ⟨rfl, rfl⟩ := Prod.mk.inj created
    exact h.withCore (hall.rolledBack (rolledBack included.2))
  · cases houtcome with
    | misuse _ =>
        obtain ⟨rfl, rfl⟩ := Prod.mk.inj created
        exact h.withCore hall
    | failed _ rolledBack =>
        obtain ⟨rfl, rfl⟩ := Prod.mk.inj created
        exact h.withCore (hall.rolledBack rolledBack)
    | created _ _ _ =>
        obtain ⟨rfl, rfl⟩ := Prod.mk.inj created
        exact ⟨hall, h.mempool⟩

theorem sound_step (hids : ∀ pubkey, IsNodeId (net.codec.generateNodeIdFromPubkey pubkey))
    {p q : Plugin D} {call : Call} (h : Sound p) (hs : ChainStep net p call q) : Sound q := by
  cases hs with
  | idle hidle => exact h.idle hidle
  | arrive stored => exact h.arrive stored
  | verify _ _ _ => exact h.verifyBlock _
  | commit => exact h.commitBlock _
  | rollback _ => exact ⟨h.auths.rolledBack (rolledBack _), h.mempool⟩
  | create _ created =>
      have hcreated := h.createNewBlock created
      exact ⟨hcreated.auths, hcreated.mempool⟩
  | createFailed _ created => exact h.createNewBlock created
  | authorize added =>
      obtain ⟨rfl, hzero, hid⟩ := aergoliteNewAuthorization_ok added
      refine h.withCore fun auth hauth => ?_
      rcases List.mem_append.1 hauth with hauth | hauth
      · exact h.auths auth hauth
      · obtain rfl := List.mem_singleton.1 hauth
        exact ⟨hid ▸ hids _, by omega⟩

theorem sound_of_reachable (hids : ∀ pubkey, IsNodeId (net.codec.generateNodeIdFromPubkey pubkey))
    {p : Plugin D} (h : (soundChain net).Reachable p) : Sound p := by
  have hinv : (soundChain net).Invariant Sound := {
    init := fun _ hp => ⟨hp.2, fun txn htxn => by
      rw [hp.1.mempool] at htxn
      exact absurd htxn List.not_mem_nil⟩
    step := fun _ _ _ hp hs => sound_step hids hp hs }
  exact hinv.reachable h

/-! ## The ids of what is accepted -/

/-- **The ids are sound** for the pairs with nonces below a bound, that a node accepts in any
states of its runs. -/
structure TransactionIds (net : Net D) (bound : ℤ) : Prop where
  positive : ∀ p, (soundChain net).Reachable p → ∀ nodeId nonce,
    AcceptsTransaction net p nodeId nonce → nonce < bound →
      0 < (buildTransactionId nodeId nonce).toInt
  flagged : ∀ p, (soundChain net).Reachable p → ∀ nodeId nonce,
    AcceptsTransaction net p nodeId nonce → nonce < bound →
      (buildTransactionId nodeId nonce ||| failedFlag).toInt < 0 ∧
        maskTxnId (buildTransactionId nodeId nonce ||| failedFlag) =
          buildTransactionId nodeId nonce
  injective : ∀ p q, (soundChain net).Reachable p → (soundChain net).Reachable q →
    ∀ nodeId nonce nodeId' nonce', AcceptsTransaction net p nodeId nonce → nonce < bound →
      AcceptsTransaction net q nodeId' nonce' → nonce' < bound →
        buildTransactionId nodeId nonce = buildTransactionId nodeId' nonce' →
          nodeId = nodeId' ∧ nonce = nonce'

/-- A log of a node with a nonce, which the node has signed. -/
def logWithNonce (n : ℕ) (nonce : ℤ) : Log :=
  signedByNode (keyOf n)
    [.int64 nonce, .datetime "d".toList, .pubkey (keyOf n), .string "CALL a()".toList]

/-- Nodes 2 and 3 send a transaction with the nonce `2 ^ 32`. -/
theorem acceptsTransaction_largeNonce {n : ℕ} (hn : n = 2 ∨ n = 3) :
    AcceptsTransaction plainNet (startNode 1) n (2 ^ 32) := by
  refine ⟨logWithNonce n (2 ^ 32), [⟨n, 2 ^ 32, buildTransactionId n (2 ^ 32), "d".toList,
    logWithNonce n (2 ^ 32), 0⟩], ?_⟩
  rcases hn with rfl | rfl
  · rfl
  · rfl

theorem startNode_reachable : (soundChain plainNet).Reachable (startNode 1) := by
  refine .init ⟨startNodeWith_fresh 1 threeNodes, fun auth hauth => ?_⟩
  obtain ⟨n, hn, rfl⟩ := List.mem_map.1 hauth
  refine ⟨⟨by dsimp only; omega, ?_⟩, le_rfl, le_rfl⟩
  have hlt : n ≤ 3 := by
    simp only [List.mem_cons, List.not_mem_nil, or_false] at hn
    omega
  dsimp only
  omega

/-- The two have one id. -/
theorem buildTransactionId_largeNonce :
    buildTransactionId 2 (2 ^ 32) = buildTransactionId 3 (2 ^ 32) := by
  decide

/-- **How far the ids of transactions are sound**: for every network whose node ids are made of
31 bits, exactly up to the nonces below `2 ^ 32`. -/
theorem transactionIds_iff (bound : ℤ) :
    (∀ (D : Type) (net : Net D),
      (∀ pubkey, IsNodeId (net.codec.generateNodeIdFromPubkey pubkey)) →
        TransactionIds net bound) ↔ bound ≤ 2 ^ 32 := by
  constructor
  · intro h
    by_contra hlt
    have hids : ∀ pubkey, IsNodeId (plainNet.codec.generateNodeIdFromPubkey pubkey) :=
      fun _ => ⟨Int.le_refl 0, show (0 : ℤ) < 2 ^ 31 by decide⟩
    have hsame := (h Unit plainNet hids).injective _ _ startNode_reachable startNode_reachable
      2 (2 ^ 32) 3 (2 ^ 32) (acceptsTransaction_largeNonce (.inl rfl)) (by omega)
      (acceptsTransaction_largeNonce (.inr rfl)) (by omega) buildTransactionId_largeNonce
    exact absurd hsame.1 (by decide)
  · intro hbound D net hids
    have hpair : ∀ p, (soundChain net).Reachable p → ∀ nodeId nonce,
        AcceptsTransaction net p nodeId nonce → nonce < bound →
          IsNodeId nodeId ∧ 0 < nonce ∧ nonce < 2 ^ 32 := by
      intro p hp nodeId nonce haccepts hlt
      obtain ⟨hid, hpos⟩ := (sound_of_reachable hids hp).accepts haccepts
      exact ⟨hid, hpos, by omega⟩
    constructor
    · intro p hp nodeId nonce haccepts hlt
      obtain ⟨hid, hnonce⟩ := hpair p hp nodeId nonce haccepts hlt
      exact toInt_buildTransactionId_pos hid (by omega)
    · intro p hp nodeId nonce haccepts hlt
      obtain ⟨hid, hnonce⟩ := hpair p hp nodeId nonce haccepts hlt
      exact flagged_buildTransactionId hid (by omega)
    · intro p q hp hq nodeId nonce nodeId' nonce' haccepts hlt haccepts' hlt' heq
      obtain ⟨hid, hnonce⟩ := hpair p hp nodeId nonce haccepts hlt
      obtain ⟨hid', hnonce'⟩ := hpair q hq nodeId' nonce' haccepts' hlt'
      exact buildTransactionId_inj hid hid' (by omega) (by omega) heq

/-- **Two transactions share an id**, over all nonces of 64 bits: nodes 2 and 3 send one with the
nonce `2 ^ 32`, and where that of node 2 is in the mempool, that of node 3 is taken for it. -/
theorem largeNonces_collide :
    (soundChain plainNet).Reachable (startNode 1) ∧
      (∃ mempool, storeTransactionOnMempool plainNet.crypto (startNode 1).core.adminPubkey
          (startNode 1).core.authorizations [] 2 (2 ^ 32) (logWithNonce 2 (2 ^ 32)) =
            some (.ok mempool) ∧
        storeTransactionOnMempool plainNet.crypto (startNode 1).core.adminPubkey
          (startNode 1).core.authorizations mempool 3 (2 ^ 32) (logWithNonce 3 (2 ^ 32)) =
            some (.error .exist)) ∧
      ¬ TransactionIds plainNet (2 ^ 63) := by
  refine ⟨startNode_reachable, ⟨_, rfl, rfl⟩, fun h => ?_⟩
  have hsame := h.injective _ _ startNode_reachable startNode_reachable 2 (2 ^ 32) 3 (2 ^ 32)
    (acceptsTransaction_largeNonce (.inl rfl)) (by omega) (acceptsTransaction_largeNonce (.inr rfl))
    (by omega) buildTransactionId_largeNonce
  exact absurd hsame.1 (by decide)

end NoLeader
end AergoLite
