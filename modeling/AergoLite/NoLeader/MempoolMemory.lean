/-
# The mempool in memory

`store_transaction_on_mempool` and `discard_mempool_transaction` of
`plugins/no-leader/transactions.c`, with the memory they take and give back.  An entry of the
mempool is a block of memory that points to another one, the copy of its log.

The entry is linked before the log is copied.  If there is no memory for the copy, the function
frees the entry and returns `SQLITE_NOMEM`, and the list still ends with it.  On every other way
out the list is as it was, or has one entry more (`storeTransaction_atomic_iff`).
-/

import AergoLite.Common.LinkedList
import AergoLite.Core.SerializedSize
import AergoLite.NoLeader.Mempool

namespace AergoLite
namespace NoLeader

open AergoLite.Common
open AergoLite.Core

/-- `struct transaction`, with the address of its log. -/
structure MempoolEntry where
  nodeId : ℤ
  nonce : ℤ
  id : BitVec 64
  datetime : Text
  log : Option ℕ
  blockHeight : ℤ

/-- `plugin->mempool` and the memory behind it; a block that is free, or has been freed, holds
`none`. -/
structure MempoolMemory where
  first : Option ℕ
  next : ℕ → Option ℕ
  txns : ℕ → Option MempoolEntry
  logs : ℕ → Option Log

/-- What the allocations of one call return. -/
structure Allocations where
  /-- Whether there is memory for the signed text. -/
  text : ℕ → Bool
  txn : Option ℕ
  log : Option ℕ

namespace MempoolMemory

/-- The transaction an entry stands for; absent if the entry or its log is not in memory. -/
def read (m : MempoolMemory) (a : ℕ) : Option Transaction :=
  (m.txns a).bind fun txn => (txn.log.bind m.logs).map fun log =>
    ⟨txn.nodeId, txn.nonce, txn.id, txn.datetime, log, txn.blockHeight⟩

/-- The address of the log of an entry. -/
def logOf (m : MempoolMemory) (a : ℕ) : Option ℕ := (m.txns a).bind MempoolEntry.log

/-- The mempool is the list of the entries `as`, each has a log of its own, and they stand for
these transactions. -/
structure Owns (m : MempoolMemory) (as : List ℕ) (mempool : List Transaction) : Prop where
  list : IsList m.next m.first as
  entries : as.map m.read = mempool.map some
  logs : (as.map m.logOf).Nodup

end MempoolMemory

/-! ## The functions -/

section
variable (c : Crypto) (adminPubkey : Bytes) (auths : List NodeAuth) (available : ℕ → Bool)
  (nodeId nonce : ℤ) (log : Log)

/-- `aergolite_verify_transaction` with the memory of the signed text, called with
`char datetime[24]`. -/
def verifyTransactionInto : Option (Except Rc (ℤ × Text)) :=
  let nonce := getTransactionNonce log
  if nonce = 1 ∧ (getTransactionItem BinnValue.pubkey? log).isNone then some (.error .invalid)
  else match authorizedNode auths nodeId log with
    | none => some (.error .invalid)
    | some (_, auth) =>
      if nonce ≤ auth.lastNonce then some (.error .exist)
      else match txnSig log with
        | none => some (.error .invalid)
        | some _ =>
          match serializeTransaction available log with
          | .error _ => none
          | .ok none => some (.error .nomem)
          | .ok (some _) =>
            match aergoliteVerifyTransaction c adminPubkey auths nodeId log with
            | some (.ok (nonce, datetime)) =>
              if (cText datetime).length < 24 then some (.ok (nonce, cText datetime)) else none
            | result => result

/-- The loop over the mempool of `store_transaction_on_mempool`. -/
def findTxn (m : MempoolMemory) (tid : BitVec 64) : ℕ → Option ℕ → Option (Option ℕ)
  | 0, _ => none
  | _ + 1, none => some none
  | fuel + 1, some a =>
    match m.txns a with
    | none => none
    | some txn => if txn.id = tid then some (some a) else findTxn m tid fuel (m.next a)

/-- The end of `store_transaction_on_mempool`, from the allocation of the entry on. -/
def addTxn (fuel : ℕ) (alloc : Allocations) (txn : MempoolEntry) (log : Log) (m : MempoolMemory) :
    Option (Rc × Option ℕ × MempoolMemory) :=
  match alloc.txn with
  | none => some (.nomem, none, m)
  | some a =>
    (llistAdd fuel (Function.update m.next a none) m.first a).map fun added =>
      match alloc.log with
      | none => (.nomem, none, ⟨added.1, added.2, Function.update m.txns a none, m.logs⟩)
      | some l => (.ok, some a, ⟨added.1, added.2,
          Function.update m.txns a (some { txn with log := some l }),
          Function.update m.logs l (some log)⟩)

/-- `store_transaction_on_mempool`: the code it returns, `*ptxn` and the memory after it. -/
def storeTransaction (fuel : ℕ) (alloc : Allocations) (m : MempoolMemory) :
    Option (Rc × Option ℕ × MempoolMemory) :=
  let tid := buildTransactionId nodeId nonce
  match findTxn m tid fuel m.first with
  | none => none
  | some (some a) => some (.exist, some a, m)
  | some none =>
    match aergoliteGetAuthorization auths nodeId with
    | none => some (.notfound, none, m)
    | some auth =>
      if nonce ≤ auth.lastNonce then some (.invalid, none, m)
      else match verifyTransactionInto c adminPubkey auths alloc.text nodeId log with
        | none => none
        | some (.error rc) => some (rc, none, m)
        | some (.ok (tnonce, datetime)) =>
          if tnonce ≠ nonce then some (.invalid, none, m)
          else addTxn fuel alloc ⟨nodeId, nonce, tid, datetime, none, 0⟩ log m

end

/-- `discard_mempool_transaction`. -/
def discardMempoolTransaction (fuel : ℕ) (m : MempoolMemory) (a : ℕ) : Option MempoolMemory :=
  (llistRemove fuel m.next m.first a).bind fun removed =>
    (m.txns a).map fun txn => ⟨removed.1, removed.2, Function.update m.txns a none,
      match txn.log with
      | none => m.logs
      | some l => Function.update m.logs l none⟩

/-! ## Ownership -/

namespace MempoolMemory

variable {m m' : MempoolMemory} {as bs : List ℕ} {mempool : List Transaction}

theorem read_eq_some {a : ℕ} {txn : Transaction} (h : m.read a = some txn) :
    ∃ entry l, m.txns a = some entry ∧ entry.log = some l ∧ m.logs l = some txn.log ∧
      txn = ⟨entry.nodeId, entry.nonce, entry.id, entry.datetime, txn.log, entry.blockHeight⟩ := by
  obtain ⟨entry, hentry, h⟩ := Option.bind_eq_some_iff.1 h
  obtain ⟨log, hlog, rfl⟩ := Option.map_eq_some_iff.1 h
  obtain ⟨l, hl, hlog⟩ := Option.bind_eq_some_iff.1 hlog
  exact ⟨entry, l, hentry, hl, hlog, rfl⟩

/-- What is read at an address depends on the entry and its log. -/
theorem read_congr {a : ℕ} (htxn : m'.txns a = m.txns a)
    (hlog : ∀ l, m.logOf a = some l → m'.logs l = m.logs l) : m'.read a = m.read a := by
  rw [read, read, htxn]
  cases ha : m.txns a with
  | none => rfl
  | some entry =>
      have hsame : entry.log.bind m'.logs = entry.log.bind m.logs := by
        cases hl : entry.log with
        | none => rfl
        | some l => exact hlog l (by rw [logOf, ha]; exact hl)
      rw [Option.bind_some, Option.bind_some, hsame]

/-- Blocks that are not in use: what an allocation returns. -/
structure Fresh (m : MempoolMemory) (as : List ℕ) (alloc : Allocations) : Prop where
  txn : ∀ a, alloc.txn = some a → a ∉ as
  log : ∀ l, alloc.log = some l → ∀ a ∈ as, m.logOf a ≠ some l

end MempoolMemory

open MempoolMemory

section
variable {m m' : MempoolMemory} {as bs : List ℕ} {mempool : List Transaction} {fuel : ℕ}

/-- **The search finds an entry with the id, or there is none.** -/
theorem findTxn_spec (h : m.Owns as mempool) (tid : BitVec 64) (hfuel : as.length < fuel) :
    (∃ a, findTxn m tid fuel m.first = some (some a) ∧ ∃ txn ∈ mempool, txn.id = tid) ∨
      (findTxn m tid fuel m.first = some none ∧ ∀ txn ∈ mempool, txn.id ≠ tid) := by
  obtain ⟨hlist, hentries, -⟩ := h
  generalize m.first = first at hlist ⊢
  induction hlist generalizing mempool fuel with
  | nil =>
      obtain rfl : mempool = [] := by simpa using hentries.symm
      obtain ⟨fuel, rfl⟩ : ∃ n, fuel = n + 1 := ⟨fuel - 1, by omega⟩
      exact .inr ⟨rfl, by simp⟩
  | @cons a as _ ih =>
      obtain ⟨fuel, rfl⟩ : ∃ n, fuel = n + 1 := ⟨fuel - 1, by omega⟩
      obtain ⟨txn, mempool, rfl⟩ : ∃ txn rest, mempool = txn :: rest :=
        List.exists_cons_of_length_eq_add_one (by simpa using (congrArg List.length hentries).symm)
      rw [List.map_cons, List.map_cons, List.cons.injEq] at hentries
      obtain ⟨entry, l, hentry, -, -, htxn⟩ := read_eq_some hentries.1
      have hid : txn.id = entry.id := by rw [htxn]
      rw [findTxn, hentry]
      dsimp only
      by_cases heq : entry.id = tid
      · exact .inl ⟨a, if_pos heq, txn, List.mem_cons_self, hid.trans heq⟩
      · rw [if_neg heq]
        refine (ih (by simpa using hfuel) hentries.2).imp ?_ ?_
        · rintro ⟨b, hfind, other, hmem, hother⟩
          exact ⟨b, hfind, other, List.mem_cons_of_mem _ hmem, hother⟩
        · rintro ⟨hfind, hall⟩
          exact ⟨hfind, List.forall_mem_cons.2 ⟨hid ▸ heq, hall⟩⟩

/-- The new entry becomes the last of the list. -/
theorem linkTxn (h : m.Owns as mempool) {a : ℕ} (ha : a ∉ as) (hfuel : as.length < fuel) :
    ∃ added, llistAdd fuel (Function.update m.next a none) m.first a = some added ∧
      IsList added.2 added.1 (as ++ [a]) := by
  have hlist : IsList (Function.update m.next a none) m.first as :=
    h.list.congr fun b hb => Function.update_of_ne (ne_of_mem_of_not_mem hb ha) _ _
  have hsingle : IsList (Function.update m.next a none) (some a) [a] :=
    .cons ((Function.update_self a none m.next).symm ▸ .nil)
  obtain ⟨added, hadd, hadded, -⟩ :=
    llistAdd_spec hlist hsingle (List.disjoint_singleton.2 ha) hfuel.le
  exact ⟨added, hadd, hadded⟩

/-- Where the copy of the log fails, the entry is freed and stays in the list. -/
theorem addTxn_no_log (h : m.Owns as mempool) {alloc : Allocations} (hfresh : m.Fresh as alloc)
    {a : ℕ} (ha : alloc.txn = some a) (hl : alloc.log = none) (hfuel : as.length < fuel)
    (txn : MempoolEntry) (log : Log) :
    ∃ m', addTxn fuel alloc txn log m = some (.nomem, none, m') ∧
      IsList m'.next m'.first (as ++ [a]) ∧ m'.txns a = none := by
  obtain ⟨added, hadd, hlist⟩ := linkTxn h (hfresh.txn a ha) hfuel
  refine ⟨⟨added.1, added.2, Function.update m.txns a none, m.logs⟩, ?_, hlist,
    Function.update_self a none m.txns⟩
  rw [addTxn, ha]
  dsimp only
  rw [hadd, hl]
  rfl

/-- **A stored entry**: it stands for the transaction, and the others are as before. -/
theorem addTxn_ok (h : m.Owns as mempool) {alloc : Allocations} (hfresh : m.Fresh as alloc)
    {a l : ℕ} (ha : alloc.txn = some a) (hl : alloc.log = some l) (hfuel : as.length < fuel)
    (txn : MempoolEntry) (log : Log) :
    ∃ m', addTxn fuel alloc txn log m = some (.ok, some a, m') ∧
      m'.Owns (as ++ [a]) (mempool ++
        [⟨txn.nodeId, txn.nonce, txn.id, txn.datetime, log, txn.blockHeight⟩]) := by
  obtain ⟨added, hadd, hlist⟩ := linkTxn h (hfresh.txn a ha) hfuel
  let m' : MempoolMemory := ⟨added.1, added.2,
    Function.update m.txns a (some { txn with log := some l }),
    Function.update m.logs l (some log)⟩
  have htxns : ∀ b ∈ as, m'.txns b = m.txns b := fun b hb =>
    Function.update_of_ne (ne_of_mem_of_not_mem hb (hfresh.txn a ha)) _ _
  have hnew : m'.txns a = some { txn with log := some l } := Function.update_self ..
  have hlogOf : ∀ b ∈ as, m'.logOf b = m.logOf b := fun b hb => by
    rw [logOf, htxns b hb, logOf]
  have hread : ∀ b ∈ as, m'.read b = m.read b := fun b hb =>
    read_congr (htxns b hb) fun k hk =>
      Function.update_of_ne (show k ≠ l from fun heq => hfresh.log l hl b hb (heq ▸ hk)) _ _
  refine ⟨m', by rw [addTxn, ha]; dsimp only; rw [hadd, hl]; rfl, hlist, ?_, ?_⟩
  · have hlog : m'.logs l = some log := Function.update_self ..
    have hreadNew : m'.read a =
        some ⟨txn.nodeId, txn.nonce, txn.id, txn.datetime, log, txn.blockHeight⟩ := by
      simp only [MempoolMemory.read, hnew, Option.bind_some, hlog, Option.map_some]
    rw [List.map_append, List.map_append, List.map_congr_left hread, h.entries, List.map_singleton,
      hreadNew, List.map_singleton]
  · have hlogNew : m'.logOf a = some l := by rw [logOf, hnew, Option.bind_some]
    rw [List.map_append, List.map_congr_left hlogOf, List.map_singleton, hlogNew]
    refine List.nodup_append.2 ⟨h.logs, List.nodup_singleton _, ?_⟩
    rintro _ hb _ hmem rfl
    obtain ⟨b, hb, hlog⟩ := List.mem_map.1 hb
    exact hfresh.log l hl b hb (hlog.trans (List.mem_singleton.1 hmem))

end

/-! ## Atomicity -/

section
variable {c : Crypto} {adminPubkey : Bytes} {auths : List NodeAuth} {available : ℕ → Bool}
  {nodeId nonce : ℤ} {log : Log}

/-- `aergolite_verify_transaction` does not fail with `SQLITE_OK`. -/
theorem aergoliteVerifyTransaction_error {rc : Rc}
    (h : aergoliteVerifyTransaction c adminPubkey auths nodeId log = some (.error rc)) :
    rc ≠ .ok := by
  unfold aergoliteVerifyTransaction at h
  rintro rfl
  dsimp only at h
  split_ifs at h
  · simp at h
  split at h
  · simp at h
  split_ifs at h
  · simp at h
  split at h
  · simp at h
  split at h
  · split_ifs at h <;> simp_all
  · simp at h

/-- The verification does not fail with `SQLITE_OK`. -/
theorem verifyTransactionInto_error {rc : Rc}
    (h : verifyTransactionInto c adminPubkey auths available nodeId log = some (.error rc)) :
    rc ≠ .ok := by
  unfold verifyTransactionInto at h
  rintro rfl
  dsimp only at h
  split_ifs at h
  · simp at h
  split at h
  · simp at h
  split_ifs at h
  · simp at h
  split at h
  · simp at h
  split at h
  · simp at h
  · simp at h
  split at h
  · split_ifs at h
    simp at h
  · exact aergoliteVerifyTransaction_error h rfl

/-- An accepted transaction is accepted without the memory too. -/
theorem verifyTransactionInto_ok {nonce : ℤ} {text : Text}
    (h : verifyTransactionInto c adminPubkey auths available nodeId log = some (.ok (nonce, text))) :
    ∃ datetime, aergoliteVerifyTransaction c adminPubkey auths nodeId log =
      some (.ok (nonce, datetime)) ∧ text = cText datetime := by
  unfold verifyTransactionInto at h
  dsimp only at h
  split_ifs at h
  · simp at h
  split at h
  · simp at h
  split_ifs at h
  · simp at h
  split at h
  · simp at h
  split at h
  · simp at h
  · simp at h
  split at h
  · rename_i number datetime hverify
    split_ifs at h
    obtain ⟨rfl, rfl⟩ := Prod.mk.inj (Except.ok.inj (Option.some.inj h))
    exact ⟨datetime, hverify, rfl⟩
  · exact absurd h (by simp_all)

/-- What a call leaves: after an error the same entries, each with its log; after `SQLITE_OK` one
entry more, the only one with its id. -/
def Atomic (as : List ℕ) (mempool : List Transaction) (tid : BitVec 64)
    (result : Option (Rc × Option ℕ × MempoolMemory)) : Prop :=
  ∃ rc ptxn m', result = some (rc, ptxn, m') ∧
    (rc ≠ .ok → m'.Owns as mempool) ∧
    (rc = .ok → ∃ a txn, ptxn = some a ∧ m'.Owns (as ++ [a]) (mempool ++ [txn]) ∧
      txn.id = tid ∧ ∀ other ∈ mempool, other.id ≠ tid)

/-- If the call comes so far, the verification is defined, and the log of an accepted transaction
is copied if the entry is allocated. -/
def CopiesLog (c : Crypto) (adminPubkey : Bytes) (auths : List NodeAuth)
    (mempool : List Transaction) (nodeId nonce : ℤ) (log : Log) (alloc : Allocations) : Prop :=
  (∀ txn ∈ mempool, txn.id ≠ buildTransactionId nodeId nonce) →
    ∀ auth, aergoliteGetAuthorization auths nodeId = some auth → auth.lastNonce < nonce →
      ∃ result, verifyTransactionInto c adminPubkey auths alloc.text nodeId log = some result ∧
        ∀ datetime, result = .ok (nonce, datetime) → alloc.txn.isSome → alloc.log.isSome

variable {m m' : MempoolMemory} {as : List ℕ} {mempool : List Transaction} {fuel : ℕ}
  {tid : BitVec 64} {alloc : Allocations}

/-- An error that leaves everything as it was. -/
theorem atomic_of_error (h : m.Owns as mempool) {rc : Rc} (hrc : rc ≠ .ok) (ptxn : Option ℕ) :
    Atomic as mempool tid (some (rc, ptxn, m)) :=
  ⟨rc, ptxn, m, rfl, fun _ => h, fun heq => absurd heq hrc⟩

/-- The end of the function is atomic if and only if the log is copied. -/
theorem addTxn_atomic_iff (h : m.Owns as mempool) (hfresh : m.Fresh as alloc)
    (hfuel : as.length < fuel) {txn : MempoolEntry} {log : Log}
    (hnew : ∀ other ∈ mempool, other.id ≠ txn.id) :
    Atomic as mempool txn.id (addTxn fuel alloc txn log m) ↔
      (alloc.txn.isSome → alloc.log.isSome) := by
  cases ha : alloc.txn with
  | none =>
      rw [addTxn, ha]
      exact ⟨fun _ hsome => absurd hsome (by simp), fun _ => atomic_of_error h (by decide) none⟩
  | some a =>
      cases hl : alloc.log with
      | none =>
          obtain ⟨m', hadd, hlist, -⟩ := addTxn_no_log h hfresh ha hl hfuel txn log
          refine ⟨?_, fun hsome => absurd (hsome rfl) (by simp)⟩
          rw [hadd]
          rintro ⟨rc, ptxn, m'', heq, herror, -⟩
          obtain ⟨rfl, rfl, rfl⟩ : .nomem = rc ∧ none = ptxn ∧ m' = m'' := by simpa using heq
          -- the list would have the new entry and would not have it
          have hsame := congrArg List.length ((herror (by decide)).list.unique hlist)
          simp at hsame
      | some l =>
          obtain ⟨m', hadd, howns⟩ := addTxn_ok h hfresh ha hl hfuel txn log
          refine ⟨fun _ _ => rfl, fun _ => ?_⟩
          exact ⟨.ok, some a, m', hadd, fun hne => absurd rfl hne,
            fun _ => ⟨a, _, rfl, howns, rfl, hnew⟩⟩

/-- **`store_transaction_on_mempool` is atomic exactly when it does not fail after it has linked
the entry.** -/
theorem storeTransaction_atomic_iff (h : m.Owns as mempool) (hfresh : m.Fresh as alloc)
    (hfuel : as.length < fuel) :
    Atomic as mempool (buildTransactionId nodeId nonce)
        (storeTransaction c adminPubkey auths nodeId nonce log fuel alloc m) ↔
      CopiesLog c adminPubkey auths mempool nodeId nonce log alloc := by
  unfold storeTransaction
  dsimp only
  rcases findTxn_spec h (buildTransactionId nodeId nonce) hfuel with
    ⟨a, hfind, txn, htxn, hid⟩ | ⟨hfind, hnew⟩
  · rw [hfind]
    exact iff_of_true (atomic_of_error h (by decide) _) fun hnew => absurd hid (hnew txn htxn)
  rw [hfind]
  dsimp only
  cases hauth : aergoliteGetAuthorization auths nodeId with
  | none =>
      refine iff_of_true (atomic_of_error h (by decide) _) fun _ auth hsome => ?_
      simp [hauth] at hsome
  | some auth =>
      dsimp only
      by_cases hold : nonce ≤ auth.lastNonce
      · rw [if_pos hold]
        refine iff_of_true (atomic_of_error h (by decide) _) fun _ other hsome hlt => ?_
        obtain rfl := Option.some.inj (hauth.symm.trans hsome)
        omega
      rw [if_neg hold]
      have hcond : CopiesLog c adminPubkey auths mempool nodeId nonce log alloc ↔
          ∃ result, verifyTransactionInto c adminPubkey auths alloc.text nodeId log =
            some result ∧
          ∀ datetime, result = .ok (nonce, datetime) → alloc.txn.isSome → alloc.log.isSome :=
        ⟨fun hcopies => hcopies hnew auth hauth (by omega), fun hresult _ _ _ _ => hresult⟩
      rw [hcond]
      cases hverify : verifyTransactionInto c adminPubkey auths alloc.text nodeId log with
      | none => simp [Atomic]
      | some result =>
          cases result with
          | error rc =>
              refine iff_of_true (atomic_of_error h (verifyTransactionInto_error hverify) _) ?_
              exact ⟨_, rfl, nofun⟩
          | ok verified =>
              obtain ⟨tnonce, datetime⟩ := verified
              dsimp only
              by_cases hne : tnonce = nonce
              · rw [if_neg (not_not.2 hne)]
                refine (addTxn_atomic_iff h hfresh hfuel hnew).trans ?_
                constructor
                · exact fun hlog => ⟨_, rfl, fun _ _ => hlog⟩
                · rintro ⟨result, hresult, hlog⟩
                  obtain rfl := Option.some.inj hresult
                  exact hlog datetime (by rw [hne])
              · rw [if_pos hne]
                refine iff_of_true (atomic_of_error h (by decide) _) ⟨_, rfl, ?_⟩
                rintro datetime' heq
                obtain ⟨rfl, -⟩ := Prod.mk.inj (Except.ok.inj heq)
                exact absurd rfl hne

/-- No transaction is known. -/
def emptyMempool : MempoolMemory := ⟨none, fun _ => none, fun _ => none, fun _ => none⟩

theorem emptyMempool_owns : emptyMempool.Owns [] [] := ⟨.nil, rfl, List.nodup_nil⟩

/-- A transaction of node 1 arrives, and there is memory for its entry; `log` is the block for the
copy of its log. -/
def storeFirstTxn (log : Option ℕ) : Option (Rc × Option ℕ × MempoolMemory) :=
  storeTransaction plainCrypto (List.replicate 33 9) twoAuths 1 5
    (logWithKey (List.replicate 33 1)) 1 ⟨fun _ => true, some 0, log⟩ emptyMempool

/-- The hypotheses hold of the first transaction. -/
theorem storeTransaction_atomic_first :
    Atomic [] [] (buildTransactionId 1 5) (storeFirstTxn (some 1)) :=
  (storeTransaction_atomic_iff emptyMempool_owns ⟨by simp, by simp⟩ (by decide)).2 fun _ _ _ _ =>
    ⟨.ok (5, "d".toList), by rfl, fun _ _ _ => rfl⟩

/-- **A freed entry stays in the mempool.**  There is no memory for the copy of the log. -/
theorem storeTransaction_not_atomic :
    (∃ m, storeFirstTxn none = some (.nomem, none, m) ∧ m.first = some 0 ∧ m.txns 0 = none) ∧
      ¬ Atomic [] [] (buildTransactionId 1 5) (storeFirstTxn none) := by
  have hstore : ∃ m, storeFirstTxn none = some (.nomem, none, m) ∧ m.first = some 0 ∧
      m.txns 0 = none := ⟨_, rfl, rfl, rfl⟩
  refine ⟨hstore, ?_⟩
  obtain ⟨m, heq, hfirst, -⟩ := hstore
  rintro ⟨rc, ptxn, m', heq', herror, -⟩
  obtain ⟨rfl, rfl, rfl⟩ : .nomem = rc ∧ none = ptxn ∧ m = m' := by simpa using heq.symm.trans heq'
  have hlist := (herror (by decide)).list
  rw [hfirst] at hlist
  cases hlist

/-- **A stored transaction is the one that the mempool of the model gets**, with the date as a C
string. -/
theorem storeTransaction_refines (h : m.Owns as mempool) (hfresh : m.Fresh as alloc)
    (hfuel : as.length < fuel) {ptxn : Option ℕ}
    (hstore : storeTransaction c adminPubkey auths nodeId nonce log fuel alloc m =
      some (.ok, ptxn, m')) :
    ∃ a txn, ptxn = some a ∧
      storeTransactionOnMempool c adminPubkey auths mempool nodeId nonce log =
        some (.ok (mempool ++ [txn])) ∧
      m'.Owns (as ++ [a]) (mempool ++ [{ txn with datetime := cText txn.datetime }]) := by
  unfold storeTransaction at hstore
  dsimp only at hstore
  rcases findTxn_spec h (buildTransactionId nodeId nonce) hfuel with
    ⟨a, hfind, -⟩ | ⟨hfind, hnew⟩
  · simp [hfind] at hstore
  rw [hfind] at hstore
  dsimp only at hstore
  split at hstore
  · simp at hstore
  rename_i auth hauth
  split_ifs at hstore with hold
  · simp at hstore
  split at hstore
  · simp at hstore
  · rename_i rc hverify
    exact absurd (Prod.mk.inj (Option.some.inj hstore)).1 (verifyTransactionInto_error hverify)
  rename_i tnonce text hverify
  split_ifs at hstore with hne
  · simp at hstore
  rw [not_not] at hne
  subst hne
  obtain ⟨datetime, hpure, rfl⟩ := verifyTransactionInto_ok hverify
  obtain ⟨a, ha⟩ : ∃ a, alloc.txn = some a := by
    cases ha : alloc.txn with
    | none => simp [addTxn, ha] at hstore
    | some a => exact ⟨a, rfl⟩
  obtain ⟨l, hl⟩ : ∃ l, alloc.log = some l := by
    cases hl : alloc.log with
    | none => simp [addTxn, ha, hl] at hstore
    | some l => exact ⟨l, rfl⟩
  obtain ⟨m'', hadd, howns⟩ := addTxn_ok h hfresh ha hl hfuel
    ⟨nodeId, tnonce, buildTransactionId nodeId tnonce, cText datetime, none, 0⟩ log
  rw [hadd] at hstore
  obtain ⟨-, rfl, rfl⟩ : True ∧ some a = ptxn ∧ m'' = m' := by simpa using hstore
  refine ⟨a, ⟨nodeId, tnonce, buildTransactionId nodeId tnonce, datetime, log, 0⟩, rfl, ?_, howns⟩
  have hany : (mempool.any fun txn => txn.id == buildTransactionId nodeId tnonce) = false := by
    simpa using hnew
  simp [storeTransactionOnMempool, hany, hauth, hold, hpure]

/-- **A discarded transaction** is the only one that the mempool loses. -/
theorem discardMempoolTransaction_spec {before : List Transaction} {bs : List ℕ} {a : ℕ}
    {txn : Transaction} (h : m.Owns (bs ++ a :: as) (before ++ txn :: mempool))
    (hlength : bs.length = before.length) (hfuel : (bs ++ a :: as).length ≤ fuel) :
    ∃ m', discardMempoolTransaction fuel m a = some m' ∧ m'.Owns (bs ++ as) (before ++ mempool) ∧
      m'.txns a = none := by
  have hne : ∀ b ∈ bs ++ as, b ≠ a := by
    rintro b hb rfl
    exact (List.nodup_middle.1 h.list.nodup).notMem hb
  have herase : (bs ++ a :: as).erase a = bs ++ as := by
    rw [List.erase_append_right _ fun hmem => hne a (List.mem_append_left _ hmem) rfl,
      List.erase_cons_head]
  have hentries := h.entries
  have hlogs := h.logs
  rw [List.map_append, List.map_cons, List.map_append, List.map_cons] at hentries
  rw [List.map_append, List.map_cons] at hlogs
  obtain ⟨hbefore, hbehind⟩ := List.append_inj hentries (by simpa using hlength)
  obtain ⟨hread, hbehind⟩ := List.cons.inj hbehind
  obtain ⟨entry, l, hentry, hl, -⟩ := read_eq_some hread
  obtain ⟨removed, hremove, hlist, -⟩ := llistRemove_spec h.list (a := a) (by simp) hfuel
  rw [herase] at hlist
  let m' : MempoolMemory := ⟨removed.1, removed.2, Function.update m.txns a none,
    Function.update m.logs l none⟩
  have htxns : ∀ b ∈ bs ++ as, m'.txns b = m.txns b := fun b hb =>
    Function.update_of_ne (hne b hb) _ _
  have howns : m.logOf a = some l := by rw [logOf, hentry]; exact hl
  have hothers : ∀ b ∈ bs ++ as, m.logOf b ≠ some l := fun b hb heq => by
    rw [List.nodup_middle, howns, ← List.map_append, List.nodup_cons] at hlogs
    exact hlogs.1 (List.mem_map.2 ⟨b, hb, heq⟩)
  refine ⟨m', ?_, ⟨hlist, ?_, ?_⟩, Function.update_self ..⟩
  · rw [discardMempoolTransaction, hremove, Option.bind_some, hentry, Option.map_some, hl]
  · have hsame : ∀ b ∈ bs ++ as, m'.read b = m.read b := fun b hb =>
      read_congr (htxns b hb) fun k hk =>
        Function.update_of_ne (show k ≠ l from fun heq => hothers b hb (heq ▸ hk)) _ _
    rw [List.map_congr_left hsame, List.map_append, List.map_append, hbefore, hbehind]
  · have hsame : ∀ b ∈ bs ++ as, m'.logOf b = m.logOf b := fun b hb => by
      rw [logOf, htxns b hb, logOf]
    rw [List.map_congr_left hsame, List.map_append]
    exact (List.nodup_cons.1 (List.nodup_middle.1 hlogs)).2

end

end NoLeader
end AergoLite
