/-
# Signing a local transaction

The log of a local transaction is signed before it is appended to `wal-local`: by the node, when
all its commands are calls of stored procedures and the node has its private key, and else by the
user, through the callback of the application or a device (`aergoliteCheckSignTransaction`).  A
special transaction is signed by the user alone, and verified at once
(`create_special_transaction`).  The checks of `aergolite_verify_transaction` are those of the
signer, so what is signed is accepted by every node that has authorized this one and has no later
transaction of it (`signed_accepted`, `special_accepted`).

There is memory for what is added to a log.
-/

import AergoLite.Core.Pragmas
import AergoLite.Core.SignedText

namespace AergoLite
namespace Core

/-! ## Hexadecimal texts -/

/-- `sqlite3HexToInt` -/
def sqlite3HexToInt (h : ℕ) : ℕ := (h + 9 * ((h >>> 6) &&& 1)) &&& 0xf

/-- `from_hex`: a digit without a second one is read with the character that ends the text. -/
def fromHex : Text → Bytes
  | c1 :: c2 :: source =>
    UInt8.ofNat ((sqlite3HexToInt c1.toNat <<< 4) ||| sqlite3HexToInt c2.toNat) :: fromHex source
  | [c1] => [UInt8.ofNat ((sqlite3HexToInt c1.toNat <<< 4) ||| sqlite3HexToInt 0)]
  | [] => []

/-- `hexdigits` -/
def hexdigits : List Char := "0123456789abcdef".toList

/-- `to_hex` -/
def toHex (source : Bytes) : Text :=
  source.flatMap fun c =>
    [hexdigits.getD ((c.toNat >>> 4) &&& 0xf) '0', hexdigits.getD (c.toNat &&& 0xf) '0']

/-- **A hexadecimal text is read back.** -/
theorem fromHex_toHex (source : Bytes) : fromHex (toHex source) = source := by
  have hbyte : ∀ n < 256, (sqlite3HexToInt (hexdigits.getD ((n >>> 4) &&& 0xf) '0').toNat <<< 4) |||
      sqlite3HexToInt (hexdigits.getD (n &&& 0xf) '0').toNat = n := by
    decide +kernel
  induction source with
  | nil => rfl
  | cons c source ih =>
      have hcons : fromHex (toHex (c :: source)) =
          UInt8.ofNat ((sqlite3HexToInt (hexdigits.getD ((c.toNat >>> 4) &&& 0xf) '0').toNat <<< 4) |||
            sqlite3HexToInt (hexdigits.getD (c.toNat &&& 0xf) '0').toNat) ::
              fromHex (toHex source) := rfl
      rw [hcons, hbyte c.toNat c.toNat_lt, ih, UInt8.ofNat_toNat]

/-- `stripchr`: what comes before the separator and after it; a null pointer without one. -/
def stripchr (mainstr : Text) (separator : Char) : Text × Option Text :=
  match mainstr.dropWhile (· ≠ separator) with
  | [] => (mainstr, none)
  | _ :: rest => (mainstr.takeWhile (· ≠ separator), some rest)

/-! ## The signatures -/

/-- What a node signs with.  `signRaw` is `aergolite_sign_raw`, `ledger` the answer of the device
(`sign_transaction_on_ledger`), and `callback` that of the function `sign_transaction` of the
application (`fire_sign_transaction_callback`). -/
structure Signer where
  id : ℤ
  pubkey : Bytes
  adminPubkey : Bytes
  hasPrivkey : Bool
  signRaw : Bytes → Except Rc Bytes
  useLedger : Bool
  ledger : Text → Except Rc (Bytes × Bytes)
  callback : Text → Except Rc Text

/-- `store_signature_on_txn` -/
def storeSignatureOnTxn (log : Log) (signature : Bytes) (userId : ℤ) (pubkey : Option Bytes) :
    Log :=
  let sig : List BinnValue :=
    if userId ≠ 0 then [.bool false, .other, .blob signature]
    else
      match pubkey with
      | some pubkey => [.bool true, .blob pubkey, .blob signature]
      | none => [.null, .blob signature]
  log ++ [.list sig]

/-- The key and the signature in the answer of the application, `<pubkey>:<signature>`.  The result
is `none` where there is no separator, or where they do not fit in the memory for them. -/
def readAnswer (answer : Text) : Option (Bytes × Bytes) :=
  match stripchr answer ':' with
  | (_, none) => none
  | (pkhex, some sighex) =>
    if (fromHex pkhex).length ≤ 36 ∧ (fromHex sighex).length ≤ 64 then
      some ((fromHex pkhex).take (pkhex.length / 2), (fromHex sighex).take (sighex.length / 2))
    else none

/-- The user's key and signature. -/
def requestSignature (node : Signer) (data : Text) : Option (Except Rc (Bytes × Bytes)) :=
  if node.useLedger then some (node.ledger data)
  else
    match node.callback data with
    | .error rc => some (.error rc)
    | .ok answer => (readAnswer answer).map .ok

/-- `sign_txn_by_user`; the user id is always 0.  The result is `none` where the behaviour is not
defined: a log without a date, and the answers above. -/
def signTxnByUser (c : Crypto) (node : Signer) (log : Log) : Option (Except Rc Log) :=
  (serializeTransactionToString log).bind fun data =>
    (requestSignature node data).map fun answer =>
      answer.bind fun (pubkey, signature) =>
        let rc := aergoliteVerify c data pubkey signature
        if rc ≠ .ok then .error rc
        else
          let rc := verifyTxnAccessRights node.adminPubkey log true pubkey
          if rc ≠ .ok then .error rc
          else .ok (storeSignatureOnTxn log signature 0 (some pubkey))

/-- `sign_txn_by_node` -/
def signTxnByNode (c : Crypto) (node : Signer) (log : Log) : Option (Except Rc Log) :=
  (serializeTransactionToString log).map fun data =>
    (node.signRaw (c.sha256 data)).map fun signature => storeSignatureOnTxn log signature 0 none

/-- `aergoliteCheckSignTransaction` -/
def aergoliteCheckSignTransaction (c : Crypto) (node : Signer) (log : Log) :
    Option (Except Rc Log) :=
  let rc :=
    if node.hasPrivkey then verifyTxnAccessRights node.adminPubkey log false node.pubkey else .perm
  let signed :=
    if rc = .ok then signTxnByNode c node log
    else if rc = .perm then signTxnByUser c node log
    else some (.error rc)
  signed.map fun result =>
    result.map fun log =>
      if getTransactionNonce log = 1 then log ++ [.blob node.pubkey] else log

/-- The log of `create_special_transaction` when it is saved. -/
def signSpecialTransaction (c : Crypto) (node : Signer) (log : Log) : Option (Except Rc Log) :=
  (signTxnByUser c node (log ++ [.bool true])).bind fun result =>
    match result with
    | .error rc => some (.error rc)
    | .ok log =>
      (aergoliteVerifyAuthorization c node.adminPubkey log).map fun rc =>
        if rc ≠ .ok then .error rc else .ok log

/-- The log that `aergoliteCreateTransaction` and `aergoliteStoreCommand` make. -/
def localLog (nonce : ℤ) (datetime : Text) (pubkey : Bytes) (commands : List Text) : Log :=
  [.int64 nonce, .datetime datetime] ++ (if nonce = 1 then [.pubkey pubkey] else []) ++
    commands.map .string

/-! ## What a signature adds to a log -/

/-- An item that the signed text and the search for the node pass over. -/
structure Neutral (item : BinnValue) : Prop where
  int64 : item.int64? = none
  string : item.string? = none
  datetime : item.datetime? = none
  pubkey : item.pubkey? = none

theorem neutral_list (items : List BinnValue) : Neutral (.list items) := ⟨rfl, rfl, rfl, rfl⟩

theorem neutral_blob (b : Bytes) : Neutral (.blob b) := ⟨rfl, rfl, rfl, rfl⟩

theorem neutral_bool (b : Bool) : Neutral (.bool b) := ⟨rfl, rfl, rfl, rfl⟩

section Appended

variable {log extra : Log} (h : ∀ item ∈ extra, Neutral item)

include h

theorem logInt64s_append : logInt64s (log ++ extra) = logInt64s log := by
  unfold logInt64s
  rw [List.filterMap_append, List.filterMap_eq_nil_iff.2 fun item hitem => (h item hitem).int64,
    List.append_nil]

theorem logCommands_append : logCommands (log ++ extra) = logCommands log := by
  unfold logCommands
  rw [List.filterMap_append, List.filterMap_eq_nil_iff.2 fun item hitem => (h item hitem).string,
    List.append_nil]

theorem datetime_append : getTransactionItem BinnValue.datetime? (log ++ extra) =
    getTransactionItem BinnValue.datetime? log := by
  unfold getTransactionItem
  rw [List.findSome?_append, List.findSome?_eq_none_iff.2 fun item hitem => (h item hitem).datetime,
    Option.or_none]

theorem pubkey_append : getTransactionItem BinnValue.pubkey? (log ++ extra) =
    getTransactionItem BinnValue.pubkey? log := by
  unfold getTransactionItem
  rw [List.findSome?_append, List.findSome?_eq_none_iff.2 fun item hitem => (h item hitem).pubkey,
    Option.or_none]

theorem nonce_append : getTransactionNonce (log ++ extra) = getTransactionNonce log := by
  unfold getTransactionNonce
  rw [logInt64s_append h]

/-- **The signed text does not change.** -/
theorem serialize_append :
    serializeTransactionToString (log ++ extra) = serializeTransactionToString log := by
  unfold serializeTransactionToString
  rw [datetime_append h, logInt64s_append h, logCommands_append h]

theorem rights_append (adminPubkey : Bytes) (isUserTxn : Bool) (pubkey : Bytes) :
    verifyTxnAccessRights adminPubkey (log ++ extra) isUserTxn pubkey =
      verifyTxnAccessRights adminPubkey log isUserTxn pubkey := by
  unfold verifyTxnAccessRights
  rw [logCommands_append h]

theorem authorizedNode_append (auths : List NodeAuth) (nodeId : ℤ) :
    authorizedNode auths nodeId (log ++ extra) = authorizedNode auths nodeId log := by
  unfold authorizedNode
  rw [pubkey_append h]

end Appended

/-- **A signature that the signer has made of a log**: it is valid, and its owner may execute the
commands. -/
inductive SignatureOf (c : Crypto) (node : Signer) (log : Log) : List BinnValue → Prop
  | node {data : Text} {signature : Bytes} (hdata : serializeTransactionToString log = some data)
      (hsigned : aergoliteVerify c data node.pubkey signature = .ok)
      (hrights : verifyTxnAccessRights node.adminPubkey log false node.pubkey = .ok) :
      SignatureOf c node log [.null, .blob signature]
  | user {data : Text} {pubkey signature : Bytes}
      (hdata : serializeTransactionToString log = some data)
      (hsigned : aergoliteVerify c data pubkey signature = .ok)
      (hrights : verifyTxnAccessRights node.adminPubkey log true pubkey = .ok) :
      SignatureOf c node log [.bool true, .blob pubkey, .blob signature]

section Signed

variable {c : Crypto} {node : Signer} {log signed : Log}

theorem signTxnByUser_spec (h : signTxnByUser c node log = some (.ok signed)) :
    ∃ sig, SignatureOf c node log sig ∧ signed = log ++ [.list sig] := by
  obtain ⟨data, hdata, h⟩ := Option.bind_eq_some_iff.1 h
  obtain ⟨answer, -, h⟩ := Option.map_eq_some_iff.1 h
  rcases answer with rc | ⟨pubkey, signature⟩
  · cases h
  change (if aergoliteVerify c data pubkey signature ≠ .ok then _ else _) = _ at h
  by_cases hsigned : aergoliteVerify c data pubkey signature = .ok
  · rw [if_neg (not_not.2 hsigned)] at h
    by_cases hrights : verifyTxnAccessRights node.adminPubkey log true pubkey = .ok
    · rw [if_neg (not_not.2 hrights)] at h
      exact ⟨_, .user hdata hsigned hrights, (Except.ok.inj h).symm⟩
    · rw [if_pos hrights] at h
      cases h
  · rw [if_pos hsigned] at h
    cases h

theorem signTxnByNode_spec
    (hsign : ∀ hash signature, node.signRaw hash = .ok signature →
      aergoliteVerifyRaw c hash node.pubkey signature = .ok)
    (hrights : verifyTxnAccessRights node.adminPubkey log false node.pubkey = .ok)
    (h : signTxnByNode c node log = some (.ok signed)) :
    ∃ sig, SignatureOf c node log sig ∧ signed = log ++ [.list sig] := by
  obtain ⟨data, hdata, h⟩ := Option.map_eq_some_iff.1 h
  rcases hraw : node.signRaw (c.sha256 data) with rc | signature
  · rw [hraw] at h
    cases h
  · rw [hraw] at h
    exact ⟨_, .node hdata (hsign _ _ hraw) hrights, (Except.ok.inj h).symm⟩

/-- **What `aergoliteCheckSignTransaction` adds**: a signature, and in the first transaction of the
node its key once more. -/
theorem aergoliteCheckSignTransaction_spec
    (hsign : ∀ hash signature, node.signRaw hash = .ok signature →
      aergoliteVerifyRaw c hash node.pubkey signature = .ok)
    (h : aergoliteCheckSignTransaction c node log = some (.ok signed)) :
    ∃ sig extra, SignatureOf c node log sig ∧ signed = log ++ .list sig :: extra ∧
      ∀ item ∈ extra, item = .blob node.pubkey := by
  obtain ⟨result, hresult, h⟩ := Option.map_eq_some_iff.1 h
  rcases result with rc | signed'
  · cases h
  have hspec : ∃ sig, SignatureOf c node log sig ∧ signed' = log ++ [.list sig] := by
    by_cases hkey : node.hasPrivkey = true
    · rw [if_pos hkey] at hresult
      by_cases hrights : verifyTxnAccessRights node.adminPubkey log false node.pubkey = .ok
      · rw [if_pos hrights] at hresult
        exact signTxnByNode_spec hsign hrights hresult
      · rw [if_neg hrights] at hresult
        split_ifs at hresult
        · exact signTxnByUser_spec hresult
        · cases hresult
    · rw [if_neg hkey, if_neg (by decide), if_pos rfl] at hresult
      exact signTxnByUser_spec hresult
  obtain ⟨sig, hsig, rfl⟩ := hspec
  refine ⟨sig, if getTransactionNonce (log ++ [.list sig]) = 1 then [.blob node.pubkey] else [],
    hsig, ?_, ?_⟩
  · refine (Except.ok.inj h).symm.trans ?_
    dsimp only
    by_cases hfirst : getTransactionNonce (log ++ [.list sig]) = 1
    · rw [if_pos hfirst, if_pos hfirst, List.append_assoc, List.singleton_append]
    · rw [if_neg hfirst, if_neg hfirst]
  · intro item hitem
    split_ifs at hitem
    · exact List.mem_singleton.1 hitem
    · exact absurd hitem List.not_mem_nil

end Signed

/-! ## Other nodes -/

/-- A node has authorized the signer, by its id and its key, and has no later transaction of it. -/
structure Knows (auths : List NodeAuth) (node : Signer) (nonce : ℤ) (auth : NodeAuth) : Prop where
  byId : aergoliteGetAuthorization auths node.id = some auth
  byKey : auths.find? (fun auth => auth.pk == node.pubkey) = some auth
  fresh : auth.lastNonce < nonce

section Accepted

variable {c : Crypto} {node : Signer} {auths : List NodeAuth} {auth : NodeAuth} {nonce : ℤ}
  {datetime : Text} {commands : List Text}

theorem int64s_strings (commands : List Text) :
    (commands.map BinnValue.string).filterMap BinnValue.int64? = [] := by
  induction commands with
  | nil => rfl
  | cons sql commands ih => exact ih

theorem strings_strings (commands : List Text) :
    (commands.map BinnValue.string).filterMap BinnValue.string? = commands := by
  induction commands with
  | nil => rfl
  | cons sql commands ih => exact congrArg (sql :: ·) ih

theorem findSome_strings {α : Type} (item : BinnValue → Option α)
    (h : ∀ s, item (.string s) = none) (commands : List Text) :
    (commands.map BinnValue.string).findSome? item = none := by
  refine List.findSome?_eq_none_iff.2 fun x hx => ?_
  obtain ⟨s, -, rfl⟩ := List.mem_map.1 hx
  exact h s

theorem nonce_localLog (nonce : ℤ) (datetime : Text) (pubkey : Bytes) (commands : List Text) :
    getTransactionNonce (localLog nonce datetime pubkey commands) = nonce := rfl

theorem datetime_localLog (nonce : ℤ) (datetime : Text) (pubkey : Bytes) (commands : List Text) :
    getTransactionItem BinnValue.datetime? (localLog nonce datetime pubkey commands) =
      some datetime := rfl

theorem pubkey_localLog (nonce : ℤ) (datetime : Text) (pubkey : Bytes) (commands : List Text) :
    getTransactionItem BinnValue.pubkey? (localLog nonce datetime pubkey commands) =
      if nonce = 1 then some pubkey else none := by
  have hstrings := findSome_strings BinnValue.pubkey? (fun _ => rfl) commands
  unfold localLog getTransactionItem
  split_ifs
  · rfl
  · exact hstrings

theorem commands_localLog (nonce : ℤ) (datetime : Text) (pubkey : Bytes) (commands : List Text) :
    logCommands (localLog nonce datetime pubkey commands) = commands := by
  have hstrings := strings_strings commands
  unfold localLog logCommands
  split_ifs
  · exact hstrings
  · exact hstrings

theorem list_localLog (nonce : ℤ) (datetime : Text) (pubkey : Bytes) (commands : List Text) :
    getTransactionItem BinnValue.list? (localLog nonce datetime pubkey commands) = none := by
  have hstrings := findSome_strings BinnValue.list? (fun _ => rfl) commands
  unfold localLog getTransactionItem
  split_ifs
  · exact hstrings
  · exact hstrings

/-- The signer is found by its key in its first transaction, and by its id in the others. -/
theorem Knows.authorizedNode (h : Knows auths node nonce auth) (datetime : Text)
    (commands : List Text) :
    authorizedNode auths node.id (localLog nonce datetime node.pubkey commands) =
      some (node.pubkey, auth) := by
  have hpk : auth.pk = node.pubkey := by
    have hfound := List.find?_some h.byKey
    exact beq_iff_eq.1 hfound
  unfold Core.authorizedNode
  rw [pubkey_localLog]
  split_ifs
  · dsimp only
    rw [h.byKey]
    rfl
  · dsimp only
    rw [h.byId, ← hpk]
    rfl

/-- The signature of a log is the one that was added. -/
theorem txnSig_append {log pre : Log} (hlog : getTransactionItem BinnValue.list? log = none)
    (hpre : ∀ item ∈ pre, BinnValue.list? item = none) (sig : List BinnValue) (extra : Log) :
    txnSig (log ++ (pre ++ .list sig :: extra)) = readTxnSig (some sig) := by
  have hitem : getTransactionItem BinnValue.list? (log ++ (pre ++ .list sig :: extra)) =
      some sig := by
    unfold getTransactionItem at hlog ⊢
    rw [List.findSome?_append, hlog, Option.none_or, List.findSome?_append,
      List.findSome?_eq_none_iff.2 hpre, Option.none_or]
    rfl
  unfold txnSig
  rw [hitem]

/-- **A log with a signature of the signer is accepted**, whatever else was added that the signed
text passes over. -/
theorem accepted_of_signature (hknows : Knows auths node nonce auth) (pre : Log) {extra : Log}
    {sig : List BinnValue} (hpre : ∀ item ∈ pre, Neutral item ∧ BinnValue.list? item = none)
    (hextra : ∀ item ∈ extra, Neutral item)
    (hsig : SignatureOf c node (localLog nonce datetime node.pubkey commands ++ pre) sig) :
    aergoliteVerifyTransaction c node.adminPubkey auths node.id
        (localLog nonce datetime node.pubkey commands ++ (pre ++ .list sig :: extra)) =
      some (.ok (nonce, datetime)) := by
  have hneutral : ∀ item ∈ pre ++ .list sig :: extra, Neutral item := by
    intro item hitem
    rcases List.mem_append.1 hitem with hitem | hitem
    · exact (hpre item hitem).1
    · rcases List.mem_cons.1 hitem with rfl | hitem
      · exact neutral_list sig
      · exact hextra item hitem
  have hpreNeutral : ∀ item ∈ pre, Neutral item := fun item hitem => (hpre item hitem).1
  have hread := txnSig_append (list_localLog nonce datetime node.pubkey commands)
    (fun item hitem => (hpre item hitem).2) sig extra
  have hfirst : nonce = 1 → (getTransactionItem BinnValue.pubkey?
      (localLog nonce datetime node.pubkey commands ++ (pre ++ .list sig :: extra))).isSome := by
    intro hone
    rw [pubkey_append hneutral, pubkey_localLog, if_pos hone]
    rfl
  rw [aergoliteVerifyTransaction_eq_ok]
  cases hsig with
  | node hdata hsigned hrights =>
      rw [serialize_append hpreNeutral] at hdata
      rw [rights_append hpreNeutral] at hrights
      refine ⟨node.pubkey, auth, _, _, ⟨?_, ?_, hfirst, ?_, hknows.fresh, hread, ?_, hsigned, ?_⟩⟩
      · exact (nonce_append hneutral).trans (nonce_localLog ..)
      · exact (datetime_append hneutral).trans (datetime_localLog ..)
      · exact (authorizedNode_append hneutral _ _).trans (hknows.authorizedNode datetime commands)
      · exact (serialize_append hneutral).trans hdata
      · exact (rights_append hneutral _ _ _).trans hrights
  | user hdata hsigned hrights =>
      rw [serialize_append hpreNeutral] at hdata
      rw [rights_append hpreNeutral] at hrights
      refine ⟨node.pubkey, auth, _, _, ⟨?_, ?_, hfirst, ?_, hknows.fresh, hread, ?_, hsigned, ?_⟩⟩
      · exact (nonce_append hneutral).trans (nonce_localLog ..)
      · exact (datetime_append hneutral).trans (datetime_localLog ..)
      · exact (authorizedNode_append hneutral _ _).trans (hknows.authorizedNode datetime commands)
      · exact (serialize_append hneutral).trans hdata
      · exact (rights_append hneutral _ _ _).trans hrights

theorem isTrue_strings (commands : List Text) :
    (commands.map BinnValue.string).any BinnValue.isTrue = false := by
  rw [List.any_map]
  exact List.any_eq_false.2 fun _ _ => Bool.false_ne_true

theorem isSpecial_localLog (nonce : ℤ) (datetime : Text) (pubkey : Bytes) (commands : List Text) :
    isSpecialTransaction (localLog nonce datetime pubkey commands) = false := by
  have hstrings := isTrue_strings commands
  unfold localLog isSpecialTransaction
  split_ifs
  · exact hstrings
  · exact hstrings

/-- **What a node signs is accepted by the nodes that know it**, with its nonce and its date, and
they run the commands that were stored in it. -/
theorem signed_accepted {signed : Log}
    (hsign : ∀ hash signature, node.signRaw hash = .ok signature →
      aergoliteVerifyRaw c hash node.pubkey signature = .ok)
    (h : aergoliteCheckSignTransaction c node
      (localLog nonce datetime node.pubkey commands) = some (.ok signed))
    (hknows : Knows auths node nonce auth) :
    aergoliteVerifyTransaction c node.adminPubkey auths node.id signed =
        some (.ok (nonce, datetime)) ∧
      commandsToRun signed = commandsToRun (localLog nonce datetime node.pubkey commands) ∧
      logCommands signed = commands := by
  obtain ⟨sig, extra, hsig, rfl, hextra⟩ := aergoliteCheckSignTransaction_spec hsign h
  have hblob : ∀ item ∈ extra, Neutral item := fun item hitem => hextra item hitem ▸ neutral_blob _
  have hneutral : ∀ item ∈ BinnValue.list sig :: extra, Neutral item := by
    intro item hitem
    rcases List.mem_cons.1 hitem with rfl | hitem
    · exact neutral_list sig
    · exact hblob item hitem
  have hcommands : logCommands (localLog nonce datetime node.pubkey commands ++
      .list sig :: extra) = commands :=
    (logCommands_append hneutral).trans (commands_localLog ..)
  have hspecial : isSpecialTransaction (localLog nonce datetime node.pubkey commands ++
      .list sig :: extra) = false := by
    have hrest : extra.any BinnValue.isTrue = false := by
      refine List.any_eq_false.2 fun item hitem => ?_
      rw [hextra item hitem]
      exact Bool.false_ne_true
    have hlog := isSpecial_localLog nonce datetime node.pubkey commands
    unfold isSpecialTransaction at hlog ⊢
    rw [List.any_append, hlog, List.any_cons, hrest]
    rfl
  refine ⟨?_, commandsToRun_congr (hspecial.trans (isSpecial_localLog ..).symm)
    (hcommands.trans (commands_localLog ..).symm), hcommands⟩
  refine accepted_of_signature hknows [] (fun item hitem => absurd hitem List.not_mem_nil)
    hblob ?_
  rw [List.append_nil]
  exact hsig

/-- A signature of `plainCrypto` is verified. -/
theorem verify_plainSign {pubkey : Bytes} (h : pubkey ≠ []) (hash : Bytes) :
    aergoliteVerifyRaw plainCrypto hash pubkey (plainSign pubkey hash) = .ok := by
  have hparse : plainCrypto.ecPubkeyParse pubkey = true := by
    cases pubkey with
    | nil => exact absurd rfl h
    | cons b pubkey => rfl
  have hlength : (plainSign pubkey hash).length = 64 := by
    unfold plainSign
    rw [List.length_take, List.length_append, List.length_replicate]
    omega
  exact aergoliteVerifyRaw_eq_ok.2 ⟨hparse, hlength, rfl, beq_self_eq_true _⟩

/-- A call of a stored procedure, the first transaction of the node. -/
theorem signed_accepted_call :
    let pk := List.replicate 33 (2 : UInt8)
    let node : Signer :=
      ⟨7, pk, List.replicate 33 1, true, fun hash => .ok (plainSign pk hash), false,
        fun _ => .error .error, fun _ => .error .perm⟩
    let log := localLog 1 "2020-01-01".toList pk ["CALL f()".toList]
    let signature := plainSign pk (plainCrypto.sha256 ((serializeTransactionToString log).getD []))
    aergoliteVerifyTransaction plainCrypto node.adminPubkey [⟨pk, 7, false, 0, 0, 0⟩] node.id
      (log ++ .list [.null, .blob signature] :: [.blob pk]) =
        some (.ok (1, "2020-01-01".toList)) := by
  intro pk node log signature
  have hsign : ∀ hash signature, node.signRaw hash = .ok signature →
      aergoliteVerifyRaw plainCrypto hash node.pubkey signature = .ok := by
    intro hash signature h
    obtain rfl := Except.ok.inj h
    exact verify_plainSign (List.cons_ne_nil _ _) hash
  have hknows : Knows [⟨pk, 7, false, 0, 0, 0⟩] node 1 ⟨pk, 7, false, 0, 0, 0⟩ :=
    ⟨rfl, rfl, by decide⟩
  have hrights : verifyTxnAccessRights node.adminPubkey log false node.pubkey = .ok := by
    decide +kernel
  have hsigned : aergoliteCheckSignTransaction plainCrypto node log =
      some (.ok ((log ++ [.list [.null, .blob signature]]) ++ [.blob pk])) := by
    unfold aergoliteCheckSignTransaction
    rw [hrights]
    rfl
  rw [List.append_assoc, List.singleton_append] at hsigned
  exact (signed_accepted hsign hsigned hknows).1

/-- **A special transaction that is saved is accepted**, as a transaction and as one of the admin. -/
theorem special_accepted {signed : Log}
    (h : signSpecialTransaction c node
      (localLog nonce datetime node.pubkey commands) = some (.ok signed))
    (hknows : Knows auths node nonce auth) :
    aergoliteVerifyTransaction c node.adminPubkey auths node.id signed =
        some (.ok (nonce, datetime)) ∧
      aergoliteVerifyAuthorization c node.adminPubkey signed = some .ok ∧
      isSpecialTransaction signed = true ∧ logCommands signed = commands := by
  obtain ⟨result, hresult, h⟩ := Option.bind_eq_some_iff.1 h
  rcases result with rc | log
  · cases h
  obtain ⟨rc, hrc, h⟩ := Option.map_eq_some_iff.1 h
  by_cases hok : rc = .ok
  · rw [if_neg (not_not.2 hok)] at h
    obtain rfl := Except.ok.inj h
    obtain rfl := hok
    obtain ⟨sig, hsig, rfl⟩ := signTxnByUser_spec hresult
    have hneutral : ∀ item ∈ [BinnValue.bool true, .list sig], Neutral item := by
      intro item hitem
      rcases List.mem_cons.1 hitem with rfl | hitem
      · exact neutral_bool true
      · rw [List.mem_singleton.1 hitem]
        exact neutral_list sig
    rw [List.append_assoc, List.singleton_append] at hrc ⊢
    refine ⟨?_, hrc, ?_, (logCommands_append hneutral).trans (commands_localLog ..)⟩
    · refine accepted_of_signature hknows [.bool true] (fun item hitem => ?_)
        (fun item hitem => absurd hitem List.not_mem_nil) hsig
      rw [List.mem_singleton.1 hitem]
      exact ⟨neutral_bool true, rfl⟩
    · unfold isSpecialTransaction
      rw [List.any_append, List.any_cons]
      exact Bool.or_eq_true_iff.2 (.inr rfl)
  · rw [if_pos hok] at h
    cases h

/-- The admin authorizes a node; the device signs. -/
theorem special_accepted_device :
    let pk := List.replicate 33 (2 : UInt8)
    let admin := List.replicate 33 (1 : UInt8)
    let node : Signer :=
      ⟨7, pk, admin, false, fun _ => .error .error, true,
        fun data => .ok (admin, plainSign admin (plainCrypto.sha256 data)), fun _ => .error .perm⟩
    let log := localLog 3 "2020-01-01".toList pk ["pragma add_node=\"x\"".toList]
    let signature :=
      plainSign admin (plainCrypto.sha256 ((serializeTransactionToString log).getD []))
    aergoliteVerifyTransaction plainCrypto admin [⟨pk, 7, false, 0, 2, 2⟩] node.id
      (log ++ [.bool true, .list [.bool true, .blob admin, .blob signature]]) =
        some (.ok (3, "2020-01-01".toList)) := by
  intro pk admin node log signature
  have hknows : Knows [⟨pk, 7, false, 0, 2, 2⟩] node 3 ⟨pk, 7, false, 0, 2, 2⟩ :=
    ⟨rfl, rfl, by decide⟩
  have hsigned : signSpecialTransaction plainCrypto node log =
      some (.ok ((log ++ [.bool true]) ++ [.list [.bool true, .blob admin, .blob signature]])) := by
    have hverify : aergoliteVerify plainCrypto ((serializeTransactionToString log).getD []) admin
        signature = .ok := verify_plainSign (List.cons_ne_nil _ _) _
    have hrights : verifyTxnAccessRights admin (log ++ [.bool true]) true admin = .ok := by
      decide +kernel
    have huser : signTxnByUser plainCrypto node (log ++ [.bool true]) = some (.ok
        ((log ++ [.bool true]) ++ [.list [.bool true, .blob admin, .blob signature]])) := by
      change some (if aergoliteVerify plainCrypto ((serializeTransactionToString log).getD []) admin
        signature ≠ .ok then _ else _) = _
      rw [if_neg (not_not.2 hverify)]
      change some (if verifyTxnAccessRights admin (log ++ [.bool true]) true admin ≠ .ok then _
        else _) = _
      rw [if_neg (not_not.2 hrights)]
      rfl
    have hadmin : aergoliteVerifyAuthorization plainCrypto admin
        ((log ++ [.bool true]) ++ [.list [.bool true, .blob admin, .blob signature]]) =
          some .ok := by
      decide +kernel
    unfold signSpecialTransaction
    rw [huser, Option.bind_some]
    dsimp only
    rw [hadmin]
    rfl
  rw [List.append_assoc, List.singleton_append] at hsigned
  exact (special_accepted hsigned hknows).1

end Accepted

end Core
end AergoLite
