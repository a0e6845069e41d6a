/-
# Transaction logs

A transaction travels as a *log*, a `binn` list whose items are told apart by
their types (`core/sqlite3.c`, `aergoliteCreateTransaction`): the nonce is an
`int64`, each SQL command a string, the date a `datetime`, the node's key a
`pubkey`, the signature a list, and `true` marks a special transaction.  A log
that comes from a peer may hold any items in any order.

`aergolite_verify_transaction` decides whether a log is accepted.
`aergoliteVerifyTransaction_eq_ok` says once what an accepted log has passed, and
the results about authorship, about the signed text and about access rights all
start from it.
-/

import AergoLite.Core.Authorizations

namespace AergoLite

/-- A `binn` value; `other` stands for the types that no function here reads. -/
inductive BinnValue
  | null
  | bool (b : Bool)
  | int64 (n : ℤ)
  | string (s : Text)
  | datetime (s : Text)
  | pubkey (b : Bytes)
  | blob (b : Bytes)
  | list (items : List BinnValue)
  | other

namespace BinnValue

/-- The value of a `BINN_INT64` item. -/
def int64? : BinnValue → Option ℤ
  | int64 n => some n
  | _ => none

/-- The value of a `BINN_STRING` item. -/
def string? : BinnValue → Option Text
  | string s => some s
  | _ => none

/-- The value of a `BINN_DATETIME` item. -/
def datetime? : BinnValue → Option Text
  | datetime s => some s
  | _ => none

/-- The value of a `BINN_PUBKEY` item. -/
def pubkey? : BinnValue → Option Bytes
  | pubkey b => some b
  | _ => none

/-- The value of a `BINN_BLOB` item. -/
def blob? : BinnValue → Option Bytes
  | blob b => some b
  | _ => none

/-- The value of a `BINN_LIST` item. -/
def list? : BinnValue → Option (List BinnValue)
  | list items => some items
  | _ => none

/-- The item is the boolean `true`. -/
def isTrue : BinnValue → Bool
  | bool b => b
  | _ => false

end BinnValue

/-- The log of a transaction. -/
abbrev Log := List BinnValue

namespace Core

/-- The values of the `int64` items. -/
def logInt64s (log : Log) : List ℤ := log.filterMap BinnValue.int64?

/-- The SQL commands: the values of the string items. -/
def logCommands (log : Log) : List Text := log.filterMap BinnValue.string?

/-- `get_transaction_nonce`: the value of the first `int64` item. -/
def getTransactionNonce (log : Log) : ℤ := (logInt64s log).headD 0

/-- `get_transaction_item`: the first item of a type, `TXN_PUBKEY`,
`TXN_SIGNATURE`, `TXN_DATETIME` or `TXN_SQL`. -/
def getTransactionItem {α : Type} (item : BinnValue → Option α) (log : Log) : Option α :=
  log.findSome? item

/-- `is_special_transaction`. -/
def isSpecialTransaction (log : Log) : Bool := log.any BinnValue.isTrue

/-- `txn_sql_count`. -/
def txnSqlCount (log : Log) : ℕ := (logCommands log).length

/-- An `int64` printed with `%lld`. -/
def int64Text (n : ℤ) : Text :=
  if n < 0 then '-' :: Nat.toDigits 10 n.natAbs else Nat.toDigits 10 n.natAbs

/-- `serialize_transaction_to_string`, the text that is signed: the *last*
`int64` item, the date and the commands, each on a line of its own.  Without a
date the C code appends a null pointer, and the result is `none`. -/
def serializeTransactionToString (log : Log) : Option Text :=
  (getTransactionItem BinnValue.datetime? log).map fun datetime =>
    int64Text ((logInt64s log).getLastD 0) ++ '\n' :: datetime ++
      (logCommands log).flatMap fun sql => '\n' :: sql

/-- What `read_txn_sig` returns; `userPubkey` is `none` for the signature of a
node. -/
structure TxnSig where
  isUserTxn : Bool
  signature : Bytes
  userPubkey : Option Bytes
  deriving DecidableEq, Repr

/-- `binn_list_get_blob`; positions count from 1. -/
def binnListGetBlob (list : List BinnValue) (pos : ℕ) : Option Bytes :=
  (list[pos - 1]?).bind BinnValue.blob?

/-- `read_txn_sig`: the signature list is `[null, sig]` or `[true, pubkey, sig]`,
and anything else is `SQLITE_INVALID`. -/
def readTxnSig (sig : Option (List BinnValue)) : Option TxnSig :=
  match sig with
  | none => none
  | some list =>
    match list.head? with
    | some .null => (binnListGetBlob list 2).map fun signature => ⟨false, signature, none⟩
    | some (.bool true) =>
      match binnListGetBlob list 2, binnListGetBlob list 3 with
      | some userPubkey, some signature => some ⟨true, signature, some userPubkey⟩
      | _, _ => none
    | _ => none

/-- The signature item of a log. -/
def txnSig (log : Log) : Option TxnSig :=
  readTxnSig (getTransactionItem BinnValue.list? log)

/-- `sqlite3_strnicmp(sql, pre, strlen(pre))==0`, for ASCII texts. -/
def startsWithNoCase (sql pre : Text) : Bool :=
  (sql.take pre.length).map Char.toLower == pre.map Char.toLower

/-- The loop of `execute_transaction` skips a command: the first one if it begins
a database transaction, the last one if it commits it. -/
def skipsCommand (numSqlCmds count : ℕ) (sql : Text) : Bool :=
  (count == 1 && startsWithNoCase sql "BEGIN".toList) ||
    (count == numSqlCmds && startsWithNoCase sql "COMMIT".toList)

/-- The commands that `execute_transaction` takes from a log, in order: all that
it does not skip, or the first one of a special transaction. -/
def commandsToRun (log : Log) : List Text :=
  if isSpecialTransaction log then (getTransactionItem BinnValue.string? log).toList
  else (((logCommands log).zipIdx 1).filter fun (sql, count) =>
    !skipsCommand (txnSqlCount log) count sql).map Prod.fst

/-- A text that starts so, in lower case. -/
theorem startsWithNoCase_iff {sql pre : Text} :
    startsWithNoCase sql pre = true ↔ pre.map Char.toLower <+: sql.map Char.toLower := by
  rw [startsWithNoCase, beq_iff_eq, List.prefix_iff_eq_take, List.length_map, List.map_take,
    eq_comm]

/-- The test `verify_txn_access_rights` makes on a command: the signer is the
blockchain admin, or a node and the command starts with `CALL`. -/
def commandAllowed (adminPubkey : Bytes) (isUserTxn : Bool) (pubkey : Bytes) (sql : Text) : Bool :=
  if isUserTxn then adminPubkey.take 33 == pubkey.take 33
  else startsWithNoCase sql "CALL".toList

/-- `verify_txn_access_rights`. -/
def verifyTxnAccessRights (adminPubkey : Bytes) (log : Log) (isUserTxn : Bool)
    (pubkey : Bytes) : Rc :=
  if (logCommands log).all fun sql => commandAllowed adminPubkey isUserTxn pubkey sql then .ok
  else .perm

/-- The key and the entry `aergolite_verify_transaction` finds for the node: by
the public key the log carries, or else by the node id. -/
def authorizedNode (auths : List NodeAuth) (nodeId : ℤ) (log : Log) :
    Option (Bytes × NodeAuth) :=
  match getTransactionItem BinnValue.pubkey? log with
  | some nodePubkey =>
      (auths.find? fun auth => auth.pk == nodePubkey).map fun auth => (nodePubkey, auth)
  | none => (aergoliteGetAuthorization auths nodeId).map fun auth => (auth.pk, auth)

/-- The key a signature is checked with: the user's, or that of the node. -/
def TxnSig.key (sig : TxnSig) (nodePubkey : Bytes) : Bytes := sig.userPubkey.getD nodePubkey

/-- The key `aergolite_verify_transaction` checks the signature of a log with. -/
def verificationKey (auths : List NodeAuth) (nodeId : ℤ) (log : Log) : Option Bytes :=
  match authorizedNode auths nodeId log, txnSig log with
  | some (nodePubkey, _), some sig => some (sig.key nodePubkey)
  | _, _ => none

/-- `aergolite_verify_transaction`, with the nonce and the date it returns.  The
result is `none` where the C code appends a null pointer to the signed text. -/
def aergoliteVerifyTransaction (c : Crypto) (adminPubkey : Bytes) (auths : List NodeAuth)
    (nodeId : ℤ) (log : Log) : Option (Except Rc (ℤ × Text)) :=
  let nonce := getTransactionNonce log
  if nonce = 1 ∧ (getTransactionItem BinnValue.pubkey? log).isNone then some (.error .invalid)
  else match authorizedNode auths nodeId log with
    | none => some (.error .invalid)
    | some (nodePubkey, auth) =>
      if nonce ≤ auth.lastNonce then some (.error .exist)
      else match txnSig log with
        | none => some (.error .invalid)
        | some sig =>
          match serializeTransactionToString log, getTransactionItem BinnValue.datetime? log with
          | some data, some datetime =>
            let pubkey := sig.key nodePubkey
            let rc := aergoliteVerify c data pubkey sig.signature
            if rc ≠ .ok then some (.error rc)
            else
              let rc := verifyTxnAccessRights adminPubkey log sig.isUserTxn pubkey
              if rc ≠ .ok then some (.error rc) else some (.ok (nonce, datetime))
          | _, _ => none

/-- The checks an accepted log has passed, with the node's key and entry, the
signature and the signed text it passed them with. -/
structure VerifiedTransaction (c : Crypto) (adminPubkey : Bytes) (auths : List NodeAuth)
    (nodeId : ℤ) (log : Log) (nonce : ℤ) (datetime : Text) (nodePubkey : Bytes)
    (auth : NodeAuth) (sig : TxnSig) (data : Text) : Prop where
  nonce_eq : getTransactionNonce log = nonce
  datetime_eq : getTransactionItem BinnValue.datetime? log = some datetime
  first : nonce = 1 → (getTransactionItem BinnValue.pubkey? log).isSome
  node : authorizedNode auths nodeId log = some (nodePubkey, auth)
  fresh : auth.lastNonce < nonce
  sig_eq : txnSig log = some sig
  data_eq : serializeTransactionToString log = some data
  signed : aergoliteVerify c data (sig.key nodePubkey) sig.signature = .ok
  allowed : verifyTxnAccessRights adminPubkey log sig.isUserTxn (sig.key nodePubkey) = .ok

/-- **What an accepted log has passed.** -/
theorem aergoliteVerifyTransaction_eq_ok {c : Crypto} {adminPubkey : Bytes}
    {auths : List NodeAuth} {nodeId : ℤ} {log : Log} {nonce : ℤ} {datetime : Text} :
    aergoliteVerifyTransaction c adminPubkey auths nodeId log = some (.ok (nonce, datetime)) ↔
      ∃ nodePubkey auth sig data, VerifiedTransaction c adminPubkey auths nodeId log nonce
        datetime nodePubkey auth sig data := by
  constructor
  · intro h
    unfold aergoliteVerifyTransaction at h
    simp only at h
    split_ifs at h with hfirst
    · simp at h
    split at h
    · simp at h
    rename_i nodePubkey auth hnode
    split_ifs at h with hfresh
    · simp at h
    split at h
    · simp at h
    rename_i sig hsig
    split at h
    · rename_i data date hdata hdate
      split_ifs at h with hverify hrights
      · simp at h
      · simp at h
      · simp only [Option.some.injEq, Except.ok.injEq, Prod.mk.injEq] at h
        obtain ⟨rfl, rfl⟩ := h
        exact ⟨nodePubkey, auth, sig, data, rfl, hdate,
          fun h1 => by simpa [h1, Option.isSome_iff_ne_none] using hfirst, hnode,
          by omega, hsig, hdata, by simpa using hverify, by simpa using hrights⟩
    · simp at h
  · rintro ⟨nodePubkey, auth, sig, data, h⟩
    obtain rfl := h.nonce_eq
    have hfirst : ¬(getTransactionNonce log = 1 ∧
        (getTransactionItem BinnValue.pubkey? log).isNone) := by
      rintro ⟨h1, hnone⟩
      simpa [Option.isNone_iff_eq_none.1 hnone] using h.first h1
    have hfresh : ¬ getTransactionNonce log ≤ auth.lastNonce := by
      have := h.fresh
      omega
    unfold aergoliteVerifyTransaction
    rw [if_neg hfirst, h.node]
    simp only
    rw [if_neg hfresh, h.sig_eq, h.data_eq, h.datetime_eq]
    simp [h.signed, h.allowed]

/-- The signature of an accepted log is on its text, with the verification key. -/
theorem VerifiedTransaction.verificationKey_eq {c : Crypto} {adminPubkey nodePubkey : Bytes}
    {auths : List NodeAuth} {nodeId nonce : ℤ} {log : Log} {datetime data : Text}
    {auth : NodeAuth} {sig : TxnSig}
    (v : VerifiedTransaction c adminPubkey auths nodeId log nonce datetime nodePubkey auth sig
      data) : verificationKey auths nodeId log = some (sig.key nodePubkey) := by
  simp [verificationKey, v.node, v.sig_eq]

/-- A signature list that starts with `null` is that of a node, and is checked
with the node's key. -/
theorem TxnSig.key_of_node {list : Option (List BinnValue)} {sig : TxnSig} {nodePubkey : Bytes}
    (h : readTxnSig list = some sig) (hnode : sig.isUserTxn = false) :
    sig.key nodePubkey = nodePubkey := by
  unfold readTxnSig at h
  split at h
  · simp at h
  split at h
  · obtain ⟨signature, -, rfl⟩ := Option.map_eq_some_iff.1 h
    rfl
  · split at h
    · obtain rfl := Option.some.inj h
      simp at hnode
    · simp at h
  · simp at h

/-- The items of a log with the `plainCrypto` signature of a node's key. -/
def signedByNode (key : Bytes) (items : Log) : Log :=
  let data := (serializeTransactionToString items).getD []
  items ++ [.list [.null, .blob (plainSign key (plainCrypto.sha256 data))]]

end Core
end AergoLite
