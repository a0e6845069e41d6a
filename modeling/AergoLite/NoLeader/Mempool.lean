/-
# The mempool, and who wrote a transaction

`plugins/no-leader/transactions.c`: the transactions that a node knows and no
block holds yet.  `store_transaction_on_mempool` is the only way in, for the
node's own transactions and for those of its peers.

A transaction is kept under the node id and the nonce of the message, and the
signature covers neither the node id nor the key the log may carry.  The key of
a node's signature is looked up by the carried key if there is one; it is the
key of the node the transaction is kept under exactly when the log carries no
key, or that node's (`storeTransactionOnMempool_author_iff`).
-/

import AergoLite.Core.Databases

namespace AergoLite
namespace NoLeader

open AergoLite.Core

/-- `struct transaction`. -/
structure Transaction where
  nodeId : ℤ
  nonce : ℤ
  id : BitVec 64
  datetime : Text
  log : Log
  blockHeight : ℤ

section
variable (c : Crypto) (adminPubkey : Bytes) (auths : List NodeAuth) (mempool : List Transaction)
  (nodeId nonce : ℤ) (log : Log)

/-- `store_transaction_on_mempool`: the new mempool, or the error.  The result is
`none` where `aergolite_verify_transaction` is undefined. -/
def storeTransactionOnMempool : Option (Except Rc (List Transaction)) :=
  let tid := buildTransactionId nodeId nonce
  if mempool.any fun txn => txn.id == tid then some (.error .exist)
  else match aergoliteGetAuthorization auths nodeId with
    | none => some (.error .notfound)
    | some auth =>
      if nonce ≤ auth.lastNonce then some (.error .invalid)
      else match aergoliteVerifyTransaction c adminPubkey auths nodeId log with
        | none => none
        | some (.error rc) => some (.error rc)
        | some (.ok (tnonce, datetime)) =>
          if tnonce ≠ nonce then some (.error .invalid)
          else some (.ok (mempool ++ [⟨nodeId, nonce, tid, datetime, log, 0⟩]))

/-- The signature was verified with the key the list assigns to the node id. -/
def VerifiedWithOwnKey : Prop :=
  ∃ auth sig data, aergoliteGetAuthorization auths nodeId = some auth ∧
    verificationKey auths nodeId log = some auth.pk ∧ txnSig log = some sig ∧
    serializeTransactionToString log = some data ∧
    aergoliteVerify c data auth.pk sig.signature = .ok

/-- The log carries no public key, or the one the list assigns to the node id. -/
def CarriesOwnKey : Prop :=
  ∀ pubkey, getTransactionItem BinnValue.pubkey? log = some pubkey →
    ∀ auth, aergoliteGetAuthorization auths nodeId = some auth → pubkey = auth.pk

end

variable {c : Crypto} {adminPubkey : Bytes} {auths : List NodeAuth}
  {mempool mempool' : List Transaction} {nodeId nonce : ℤ} {log : Log}

/-- **What a stored transaction has passed.**  Its id is new to the mempool, its
nonce is past the last one of the node it is kept under, and the log is accepted
with that nonce. -/
theorem storeTransactionOnMempool_ok
    (h : storeTransactionOnMempool c adminPubkey auths mempool nodeId nonce log =
      some (.ok mempool')) :
    (∀ txn ∈ mempool, txn.id ≠ buildTransactionId nodeId nonce) ∧
    (∃ auth, aergoliteGetAuthorization auths nodeId = some auth ∧ auth.lastNonce < nonce) ∧
    ∃ datetime,
      aergoliteVerifyTransaction c adminPubkey auths nodeId log =
        some (.ok (nonce, datetime)) ∧
      mempool' = mempool ++
        [⟨nodeId, nonce, buildTransactionId nodeId nonce, datetime, log, 0⟩] := by
  simp only [storeTransactionOnMempool] at h
  split_ifs at h with hexists
  · simp at h
  split at h
  · simp at h
  rename_i auth hauth
  split_ifs at h with hold
  · simp at h
  split at h
  · simp at h
  · simp at h
  rename_i tnonce datetime hverify
  split_ifs at h with hnonce
  · simp at h
  rw [not_not] at hnonce
  refine ⟨by simpa using hexists, ⟨auth, hauth, by omega⟩, datetime, hnonce ▸ hverify, ?_⟩
  simpa [eq_comm] using h

/-- The signature of a stored transaction was verified with the key found for
its log, and that is the node's key when the signature is of the node type. -/
theorem storeTransactionOnMempool_verified
    (h : storeTransactionOnMempool c adminPubkey auths mempool nodeId nonce log =
      some (.ok mempool'))
    {sig : TxnSig} (hsig : txnSig log = some sig) (hnode : sig.isUserTxn = false) :
    ∃ nodePubkey auth data, authorizedNode auths nodeId log = some (nodePubkey, auth) ∧
      verificationKey auths nodeId log = some nodePubkey ∧
      serializeTransactionToString log = some data ∧
      aergoliteVerify c data nodePubkey sig.signature = .ok := by
  obtain ⟨-, -, datetime, hverify, -⟩ := storeTransactionOnMempool_ok h
  obtain ⟨nodePubkey, auth, sig', data, v⟩ := aergoliteVerifyTransaction_eq_ok.1 hverify
  obtain rfl : sig' = sig := Option.some.inj (v.sig_eq.symm.trans hsig)
  have hkey : sig'.key nodePubkey = nodePubkey := TxnSig.key_of_node hsig hnode
  refine ⟨nodePubkey, auth, data, v.node, ?_, v.data_eq, hkey ▸ v.signed⟩
  simp [verificationKey, v.node, hsig, hkey]

/-- **Who wrote a transaction.**  The signature of a stored transaction, if of
the node type, was verified with the key the authorization list assigns to the
node id the transaction is kept under, if and only if the log carries no public
key or that very one. -/
theorem storeTransactionOnMempool_author_iff
    (h : storeTransactionOnMempool c adminPubkey auths mempool nodeId nonce log =
      some (.ok mempool'))
    {sig : TxnSig} (hsig : txnSig log = some sig) (hnode : sig.isUserTxn = false) :
    VerifiedWithOwnKey c auths nodeId log ↔ CarriesOwnKey auths nodeId log := by
  obtain ⟨-, ⟨own, hown, -⟩, -⟩ := storeTransactionOnMempool_ok h
  obtain ⟨nodePubkey, auth, data, hauth, hkey, hdata, hsigned⟩ :=
    storeTransactionOnMempool_verified h hsig hnode
  have hlookup : CarriesOwnKey auths nodeId log ↔ nodePubkey = own.pk := by
    unfold authorizedNode at hauth
    cases hcarried : getTransactionItem BinnValue.pubkey? log with
    | none =>
        rw [hcarried] at hauth
        obtain ⟨a, ha, heq⟩ := Option.map_eq_some_iff.1 hauth
        obtain ⟨rfl, rfl⟩ := Prod.mk.inj heq
        simp [CarriesOwnKey, hcarried, Option.some.inj (ha.symm.trans hown)]
    | some pubkey =>
        rw [hcarried] at hauth
        obtain ⟨a, -, heq⟩ := Option.map_eq_some_iff.1 hauth
        obtain ⟨rfl, rfl⟩ := Prod.mk.inj heq
        simp [CarriesOwnKey, hcarried, hown]
  rw [hlookup]
  constructor
  · rintro ⟨auth', -, -, hauth', hkey', -⟩
    obtain rfl : own = auth' := Option.some.inj (hown.symm.trans hauth')
    exact Option.some.inj (hkey.symm.trans hkey')
  · rintro rfl
    exact ⟨own, sig, data, hown, hkey, hsig, hdata, hsigned⟩

/-- Two nodes, each with the key made of its number. -/
def twoAuths : List NodeAuth :=
  [1, 2].map fun n => ⟨List.replicate 33 n, n.toNat, false, 1, 4, 4⟩

/-- A log with nonce 5 that carries `pubkey` and is signed with the same key. -/
def logWithKey (pubkey : Bytes) : Log :=
  signedByNode pubkey
    [.int64 5, .datetime "d".toList, .pubkey pubkey, .string "CALL a()".toList]

/-- What node 1's mempool makes of such a log, sent as a transaction of node 1. -/
def storeAsNodeOne (pubkey : Bytes) : Option (Except Rc (List Transaction)) :=
  storeTransactionOnMempool plainCrypto (List.replicate 33 9) twoAuths [] 1 5 (logWithKey pubkey)

/-- The hypotheses hold of a log that node 1 signs and that carries its key. -/
theorem storeTransactionOnMempool_author_node_one :
    VerifiedWithOwnKey plainCrypto twoAuths 1 (logWithKey (List.replicate 33 1)) :=
  (storeTransactionOnMempool_author_iff
    (show storeAsNodeOne _ = some (.ok [⟨1, 5, buildTransactionId 1 5, "d".toList,
      logWithKey (List.replicate 33 1), 0⟩]) by rfl)
    (show txnSig _ = some ⟨false, _, none⟩ by rfl) rfl).2
    (by rintro _ h auth hauth; obtain rfl := Option.some.inj h
        obtain rfl := Option.some.inj hauth; rfl)

/-- **A node can write a transaction in another's name.**  Node 2 signs a log
that carries its own key, and it is stored as a transaction of node 1. -/
theorem storeTransactionOnMempool_other_author :
    storeAsNodeOne (List.replicate 33 2) =
        some (.ok [⟨1, 5, buildTransactionId 1 5, "d".toList,
          logWithKey (List.replicate 33 2), 0⟩]) ∧
      (txnSig (logWithKey (List.replicate 33 2))).map TxnSig.isUserTxn = some false ∧
      ¬ VerifiedWithOwnKey plainCrypto twoAuths 1 (logWithKey (List.replicate 33 2)) := by
  refine ⟨rfl, rfl, ?_⟩
  rintro ⟨auth, -, -, hauth, hkey, -⟩
  obtain rfl := Option.some.inj hauth
  exact absurd hkey (by decide)

end NoLeader
end AergoLite
