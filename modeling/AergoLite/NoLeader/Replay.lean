/-
# No transaction twice

A transaction id is made of the node that wrote the transaction and of its nonce
(`txnEntry`), so the blocks a node has committed are a ledger, and no transaction is in it
twice when the nonces of each node are `1, 2, 3, …` (`NoReplay`).

`create_new_block` includes the next nonce of a node only.  `verify_block` looks the
transactions of a block up in the mempool, which keeps them for two blocks after they were
committed, and does not compare their nonces: a producer may list the id of a committed
transaction once more (`replay_twice`).  Two results of an execution count for the plugin
and not for the core as well: a transaction that is refused (`SQLITE_PERM`) where the block
says it failed, and one that is busy where the own block is made.  `noReplay_of_next` says
that these are all.
-/

import AergoLite.Core.LastNonces
import AergoLite.Library.Ledger
import AergoLite.NoLeader.Chain
import AergoLite.NoLeader.MempoolCleanup

namespace AergoLite
namespace NoLeader

open AergoLite.Core
open Transition

variable {D : Type} {net : Net D}

/-! ## The ledger of the chain -/

/-- The node and the nonce of a transaction id. -/
def txnEntry (tid : BitVec 64) : ℕ × ℕ := (tid.toNat / 2 ^ 32, tid.toNat % 2 ^ 32)

/-- The ids of a block, without the flags. -/
def entries (tids : List (BitVec 64)) : List (ℕ × ℕ) :=
  tids.map fun tid => txnEntry (maskTxnId tid)

/-- The ids of the blocks, in chain order. -/
def included (commits : List Commit) : List (BitVec 64) :=
  commits.flatMap fun commit => commit.block.body.txnIds.map maskTxnId

/-- The nodes and nonces of the blocks, in chain order. -/
def ledger (commits : List Commit) : List (ℕ × ℕ) := (included commits).map txnEntry

/-- **No transaction is replayed.**  Each id is in the chain once, and the nonces of each node
are `1, 2, 3, …` in the order of the chain. -/
def NoReplay (p : Plugin D) : Prop :=
  (included p.committed).Nodup ∧ Ledger.Ordered (ledger p.committed)

/-- An id without its flag. -/
theorem toNat_maskTxnId (tid : BitVec 64) : (maskTxnId tid).toNat = tid.toNat % 2 ^ 63 :=
  toNat_unflagged tid

theorem maskTxnId_flagged (tid : BitVec 64) : maskTxnId (tid ||| failedFlag) = maskTxnId tid :=
  unflagged_flagged tid

/-- **What the id of a transaction says.** -/
theorem txnEntry_of_mask {tid : BitVec 64} {n k : ℕ} (hn : n < 2 ^ 31) (hk : k < 2 ^ 32)
    (h : maskTxnId tid = maskTxnId (buildTransactionId n k)) :
    txnEntry (maskTxnId tid) = (n, k) := by
  unfold txnEntry
  rw [h, toNat_maskTxnId, toNat_buildTransactionId hn hk]
  refine Prod.ext ?_ ?_
  · dsimp only
    omega
  · dsimp only
    omega

theorem maskTxnId_buildTransactionId {n k : ℕ} (hn : n < 2 ^ 31) (hk : k < 2 ^ 32) :
    maskTxnId (buildTransactionId n k) = buildTransactionId n k := by
  refine BitVec.eq_of_toNat_eq ?_
  rw [toNat_maskTxnId, toNat_buildTransactionId hn hk]
  omega

theorem entries_append (tids : List (BitVec 64)) (tid : BitVec 64) :
    entries (tids ++ [tid]) = entries tids ++ [txnEntry (maskTxnId tid)] := by
  unfold entries
  rw [List.map_append, List.map_singleton]

/-- The ledger grows by the entries of the block. -/
theorem ledger_append (commits : List Commit) (commit : Commit) :
    ledger (commits ++ [commit]) = ledger commits ++ entries commit.block.body.txnIds := by
  unfold ledger included entries
  rw [List.flatMap_append, List.map_append, List.flatMap_singleton, List.map_map]
  rfl

/-! ## The transactions of a block -/

/-- A transaction of the mempool: it has the id of its node and nonce, and the node is in the
list. -/
structure Known (auths : List NodeAuth) (txn : Transaction) : Prop where
  id : txn.id = buildTransactionId txn.nodeId txn.nonce
  node : txn.nodeId ∈ auths.map NodeAuth.nodeId
  nonce : 0 ≤ txn.nonce ∧ txn.nonce < 2 ^ 32

/-- The list of nodes stays. -/
theorem Known.mono {auths auths' : List NodeAuth} {txn : Transaction} (h : Known auths txn)
    (hsub : ∀ nodeId ∈ auths.map NodeAuth.nodeId, nodeId ∈ auths'.map NodeAuth.nodeId) :
    Known auths' txn := ⟨h.id, hsub _ h.node, h.nonce⟩

/-- The node and the nonce of a known transaction are those of its id. -/
theorem Known.exists_entry {live copy : ℕ → ℕ} {auths : List NodeAuth} {txn : Transaction}
    (h : Known auths txn) (hcounts : Counts live copy auths) :
    ∃ n k : ℕ, txn.nodeId = n ∧ txn.nonce = k ∧ (n : ℤ) ∈ auths.map NodeAuth.nodeId ∧
      ∀ tid, maskTxnId tid = txn.id ∨ maskTxnId tid = maskTxnId txn.id →
        txnEntry (maskTxnId tid) = (n, k) := by
  obtain ⟨auth, hauth, hid⟩ := List.mem_map.1 h.node
  obtain ⟨hpos, hlt⟩ := hcounts.ids auth hauth
  obtain ⟨n, hn⟩ := Int.eq_ofNat_of_zero_le (hid ▸ hpos)
  obtain ⟨k, hk⟩ := Int.eq_ofNat_of_zero_le h.nonce.1
  have hn' : n < 2 ^ 31 := by
    rw [hid, hn] at hlt
    omega
  have hk' : k < 2 ^ 32 := by
    have hnonce := h.nonce.2
    rw [hk] at hnonce
    omega
  refine ⟨n, k, hn, hk, hn ▸ h.node, fun tid htid => txnEntry_of_mask hn' hk' ?_⟩
  rw [h.id, hn, hk] at htid
  rcases htid with htid | htid
  · rw [htid, maskTxnId_buildTransactionId hn' hk']
  · exact htid

/-- What an execution leaves: the block stays open, and the nodes are the same. -/
structure SameOpen (a b : Aergolite D) : Prop where
  saved : b.saved = a.saved
  blockHeight : b.blockHeight = a.blockHeight
  nodes : b.authorizations.map NodeAuth.nodeId = a.authorizations.map NodeAuth.nodeId

theorem SameOpen.refl (a : Aergolite D) : SameOpen a a := ⟨rfl, rfl, rfl⟩

theorem SameOpen.trans {a b c : Aergolite D} (h : SameOpen a b) (h' : SameOpen b c) :
    SameOpen a c :=
  ⟨h'.saved.trans h.saved, h'.blockHeight.trans h.blockHeight, h'.nodes.trans h.nodes⟩

theorem sameOpen_execute (env : Env D) (core : Aergolite D) (nodeId nonce : ℤ) (log : Log) :
    SameOpen core (aergoliteExecuteTransaction env core nodeId nonce log).2 := by
  have hnodes : (updateAuthLastNonce nodeId nonce core.authorizations).map NodeAuth.nodeId =
      core.authorizations.map NodeAuth.nodeId := by
    refine map_updateAuth ?_ core.authorizations
    exact fun _ => rfl
  have houtcome := executeTransaction_outcome env core nodeId nonce log
  generalize aergoliteExecuteTransaction env core nodeId nonce log = r at houtcome ⊢
  cases houtcome with
  | executed _ => exact ⟨rfl, rfl, hnodes⟩
  | refused _ _ => exact ⟨rfl, rfl, rfl⟩
  | failed _ _ _ => exact ⟨rfl, rfl, hnodes⟩

/-- The copy of the nonces is what the blocks before have included. -/
def Copied (past : List (ℕ × ℕ)) (core : Aergolite D) : Prop :=
  ∃ live, Counts live (fun n => Ledger.count n past) core.authorizations

/-- The open block has included these ids so far, and each with the next nonce. -/
structure Pending (past : List (ℕ × ℕ)) (tids : List (BitVec 64)) (core : Aergolite D) :
    Prop where
  ordered : Ledger.Ordered (past ++ entries tids)
  counts : Counts (fun n => Ledger.count n (past ++ entries tids))
    (fun n => Ledger.count n past) core.authorizations

theorem Pending.copied {past : List (ℕ × ℕ)} {tids : List (BitVec 64)} {core : Aergolite D}
    (h : Pending past tids core) : Copied past core := ⟨_, h.counts⟩

/-- A known transaction is executed. -/
theorem Copied.execute {past : List (ℕ × ℕ)} {core : Aergolite D} (h : Copied past core)
    (env : Env D) {txn : Transaction} (hknown : Known core.authorizations txn) :
    Copied past (aergoliteExecuteTransaction env core txn.nodeId txn.nonce txn.log).2 := by
  obtain ⟨live, hcounts⟩ := h
  obtain ⟨n, k, hn, hk, hnode, -⟩ := hknown.exists_entry hcounts
  have hupdate := hcounts.update hnode k
  have houtcome := executeTransaction_outcome env core txn.nodeId txn.nonce txn.log
  rw [hn, hk] at houtcome ⊢
  generalize aergoliteExecuteTransaction env core n k txn.log = r at houtcome ⊢
  cases houtcome with
  | executed _ => exact ⟨_, hupdate⟩
  | refused _ _ => exact ⟨_, hcounts⟩
  | failed _ _ _ => exact ⟨_, hupdate⟩

/-- The next transaction of its node is included. -/
theorem Pending.next {past : List (ℕ × ℕ)} {tids : List (BitVec 64)}
    {core core' : Aergolite D} (h : Pending past tids core) {n : ℕ} {tid : BitVec 64}
    (hnode : (n : ℤ) ∈ core.authorizations.map NodeAuth.nodeId)
    (hentry : txnEntry (maskTxnId tid) = (n, Ledger.count n (past ++ entries tids) + 1))
    (hauths : core'.authorizations = updateAuthLastNonce n
      (Ledger.count n (past ++ entries tids) + 1 : ℕ) core.authorizations) :
    Pending past (tids ++ [tid]) core' := by
  have hledger : past ++ entries (tids ++ [tid]) =
      (past ++ entries tids) ++ [(n, Ledger.count n (past ++ entries tids) + 1)] := by
    rw [entries_append, hentry, List.append_assoc]
  refine ⟨?_, ?_⟩
  · rw [hledger]
    exact (Ledger.ordered_append_iff h.ordered).2 rfl
  · rw [hauths]
    have hupdate := h.counts.update hnode (Ledger.count n (past ++ entries tids) + 1)
    have hlive : (fun m => Ledger.count m (past ++ entries (tids ++ [tid]))) =
        Function.update (fun m => Ledger.count m (past ++ entries tids)) n
          (Ledger.count n (past ++ entries tids) + 1) := by
      funext m
      rw [hledger, Ledger.count_append, Ledger.count_singleton]
      by_cases hm : m = n
      · rw [hm, Function.update_self, if_pos rfl]
      · rw [Function.update_of_ne hm, if_neg fun h => hm h.symm, Nat.add_zero]
    rw [hlive]
    exact hupdate

/-- As far as the loop of `verify_block` goes, each transaction has the nonce after the last
one of its node, and none that is flagged as failed is refused. -/
def VerifiesNext (net : Net D) (mempool : List Transaction) :
    List (BitVec 64) → Aergolite D → Prop
  | [], _ => True
  | tid :: tids, core =>
    match findTransaction mempool (maskTxnId tid) with
    | none => True
    | some txn =>
      let r := aergoliteExecuteTransaction net.toEnv core txn.nodeId txn.nonce txn.log
      txn.nonce = lastNonceOf core.authorizations txn.nodeId + 1 ∧
        (r.1 = .perm → tid.msb = false) ∧
        (r.1 ≠ .busy → (r.1 ≠ .ok ↔ tid.msb = true) → VerifiesNext net mempool tids r.2)

/-- **What the loop of `verify_block` includes.** -/
theorem verifyTransactions_pending {past : List (ℕ × ℕ)} {mempool : List Transaction}
    {tids done : List (BitVec 64)} {core : Aergolite D}
    (hknown : ∀ txn ∈ mempool, Known core.authorizations txn)
    (hnext : VerifiesNext net mempool tids core) (h : Pending past done core) :
    let r := verifyTransactions net mempool tids core
    SameOpen core r.2 ∧ Copied past r.2 ∧
      (r.1 = some .ok → Pending past (done ++ tids) r.2) := by
  induction tids generalizing core done with
  | nil => exact ⟨.refl core, h.copied, fun _ => by rwa [List.append_nil]⟩
  | cons tid tids ih =>
      unfold verifyTransactions
      unfold VerifiesNext at hnext
      cases hfind : findTransaction mempool (maskTxnId tid) with
      | none => exact ⟨.refl core, h.copied, fun hok => by simp at hok⟩
      | some txn =>
          rw [hfind] at hnext
          obtain ⟨hnonce, hperm, hrest⟩ := hnext
          have hmem : Known core.authorizations txn := hknown txn (List.mem_of_find?_eq_some hfind)
          have hid : txn.id = maskTxnId tid := by simpa using List.find?_some hfind
          have hopen := sameOpen_execute net.toEnv core txn.nodeId txn.nonce txn.log
          have hcopied := h.copied.execute net.toEnv hmem
          obtain ⟨n, k, hn, hk, hnode, hentry⟩ := hmem.exists_entry h.counts
          have hcount : k = Ledger.count n (past ++ entries done) + 1 := by
            rw [hn, hk, h.counts.live] at hnonce
            omega
          have hcounted : ∀ core' : Aergolite D,
              core'.authorizations = updateAuthLastNonce n k core.authorizations →
              Pending past (done ++ [tid]) core' := fun core' hauths =>
            h.next hnode (hcount ▸ hentry tid (.inl hid.symm)) (hcount ▸ hauths)
          have houtcome := executeTransaction_outcome net.toEnv core txn.nodeId txn.nonce txn.log
          dsimp only at hrest ⊢
          rw [hn, hk] at houtcome hperm hrest hopen hcopied ⊢
          generalize aergoliteExecuteTransaction net.toEnv core n k txn.log = r
            at houtcome hperm hrest hopen hcopied ⊢
          split_ifs with hbusy hfails hsucceeds
          · exact ⟨hopen, hcopied, fun hok => by simp at hok⟩
          · refine ⟨hopen, hcopied, fun hok => absurd (Option.some.inj hok) hfails.1⟩
          · exact ⟨hopen, hcopied, fun hok => by simp at hok⟩
          · have hagrees : r.1 ≠ .ok ↔ tid.msb = true := by
              constructor
              · intro hne
                by_contra hmsb
                exact hfails ⟨hne, by simpa using hmsb⟩
              · exact fun hmsb hok => hsucceeds ⟨hok, hmsb⟩
            have hpending : Pending past (done ++ [tid]) r.2 := by
              cases houtcome with
              | executed _ => exact hcounted _ rfl
              | @refused rc again _ =>
                  rcases again with rfl | rfl
                  · exact absurd rfl hbusy
                  · exact absurd (hagrees.1 fun hok => Rc.noConfusion hok) (by simp [hperm rfl])
              | failed _ _ _ => exact hcounted _ rfl
            obtain ⟨hopen', hcopied', hok'⟩ := ih
              (fun t ht => (hknown t ht).mono fun id hid => hopen.nodes.symm ▸ hid)
              (hrest hbusy hagrees) hpending
            refine ⟨hopen.trans hopen', hcopied', fun hok => ?_⟩
            have hall := hok' hok
            rwa [List.append_assoc] at hall

/-- The result of the transaction that a pass of `create_new_block` includes. -/
def passResult (net : Net D) (nonces : List (ℤ × ℤ)) : List Transaction → Aergolite D → Option Rc
  | [], _ => none
  | txn :: txns, core =>
    if txn.blockHeight = 0 ∧ isNextNonce nonces txn.nodeId txn.nonce then
      let r := aergoliteExecuteTransaction net.toEnv core txn.nodeId txn.nonce txn.log
      if r.1 = .perm then passResult net nonces txns r.2 else some r.1
    else passResult net nonces txns core

/-- In the passes of `create_new_block`, no transaction that is included is busy. -/
def IncludesCounted (net : Net D) :
    ℕ → List (ℤ × ℤ) → List Transaction → Aergolite D → Prop
  | 0, _, _, _ => True
  | fuel + 1, nonces, mempool, core =>
    passResult net nonces mempool core ≠ some .busy ∧
      match includeNext net nonces mempool core with
      | (none, _) => True
      | (some txn, core) =>
        IncludesCounted net fuel (updateLastNonceArray txn.nodeId txn.nonce nonces)
          (markIncluded txn mempool) core

/-- The unused transactions whose nonce is the next one in the array have the next nonce. -/
def ArrayNext (nonces : List (ℤ × ℤ)) (ledger : List (ℕ × ℕ)) (txns : List Transaction) : Prop :=
  ∀ txn ∈ txns, txn.blockHeight = 0 → isNextNonce nonces txn.nodeId txn.nonce = true →
    txn.nonce = Ledger.count txn.nodeId.toNat ledger + 1

/-- What a pass of `create_new_block` leaves, or includes. -/
inductive PassOutcome (past : List (ℕ × ℕ)) (nonces : List (ℤ × ℤ)) (txns : List Transaction)
    (tids : List (BitVec 64)) (core : Aergolite D) : Option Transaction × Aergolite D → Prop
  | nothing {core' : Aergolite D} (same : SameOpen core core') (pending : Pending past tids core')
      (txnIds : core'.txnIds = some tids) : PassOutcome past nonces txns tids core (none, core')
  | one {core' : Aergolite D} {txn : Transaction} {tid : BitVec 64} (mem : txn ∈ txns)
      (next : txn.nonce = Ledger.count txn.nodeId.toNat (past ++ entries tids) + 1)
      (same : SameOpen core core') (pending : Pending past (tids ++ [tid]) core')
      (txnIds : core'.txnIds = some (tids ++ [tid]))
      (entry : txnEntry (maskTxnId tid) = (txn.nodeId.toNat, txn.nonce.toNat)) :
      PassOutcome past nonces txns tids core (some txn, core')

/-- **What a pass of `create_new_block` does.** -/
theorem includeNext_outcome {past : List (ℕ × ℕ)} {nonces : List (ℤ × ℤ)}
    {txns : List Transaction} {tids : List (BitVec 64)} {core : Aergolite D}
    (hknown : ∀ txn ∈ txns, Known core.authorizations txn)
    (hnext : ArrayNext nonces (past ++ entries tids) txns)
    (hbusy : passResult net nonces txns core ≠ some .busy) (h : Pending past tids core)
    (htxns : core.txnIds = some tids) :
    PassOutcome past nonces txns tids core (includeNext net nonces txns core) := by
  induction txns generalizing core with
  | nil => exact .nothing (.refl core) h htxns
  | cons txn txns ih =>
      have hweaken : ∀ {c : Aergolite D} {r : Option Transaction × Aergolite D},
          SameOpen core c → PassOutcome past nonces txns tids c r →
          PassOutcome past nonces (txn :: txns) tids core r := by
        intro c r hsame hr
        cases hr with
        | nothing same pending txnIds => exact .nothing (hsame.trans same) pending txnIds
        | one mem next same pending txnIds entry =>
            exact .one (List.mem_cons_of_mem _ mem) next (hsame.trans same) pending txnIds entry
      have hrest : ∀ t ∈ txns, Known core.authorizations t := fun t ht =>
        hknown t (List.mem_cons_of_mem _ ht)
      have hnext' : ArrayNext nonces (past ++ entries tids) txns := fun t ht =>
        hnext t (List.mem_cons_of_mem _ ht)
      unfold includeNext
      unfold passResult at hbusy
      by_cases hchosen : txn.blockHeight = 0 ∧ isNextNonce nonces txn.nodeId txn.nonce = true
      · rw [if_pos hchosen] at hbusy ⊢
        have hmem := hknown txn List.mem_cons_self
        have hnonce := hnext txn List.mem_cons_self hchosen.1 hchosen.2
        have hsame := sameOpen_execute net.toEnv core txn.nodeId txn.nonce txn.log
        obtain ⟨n, k, hn, hk, hnode, hentry⟩ := hmem.exists_entry h.counts
        have hcount : k = Ledger.count n (past ++ entries tids) + 1 := by
          rw [hn, hk, Int.toNat_natCast] at hnonce
          omega
        have hone : ∀ {core' : Aergolite D} {tid : BitVec 64}, SameOpen core core' →
            maskTxnId tid = maskTxnId txn.id → core'.txnIds = some (tids ++ [tid]) →
            core'.authorizations = updateAuthLastNonce n k core.authorizations →
            PassOutcome past nonces (txn :: txns) tids core (some txn, core') := by
          intro core' tid hsame' htid hids hauths
          refine .one List.mem_cons_self hnonce hsame' ?_ hids ?_
          · exact h.next hnode (hcount ▸ hentry tid (.inr htid)) (hcount ▸ hauths)
          · rw [hentry tid (.inr htid), hn, hk]
            rfl
        have hbuild : maskTxnId (buildTransactionId n k) = maskTxnId txn.id := by
          rw [hmem.id, hn, hk]
        have hids : ∀ tid, core.txnIds.map (· ++ [tid]) = some (tids ++ [tid]) := fun tid => by
          rw [htxns]
          rfl
        have houtcome := executeTransaction_outcome net.toEnv core txn.nodeId txn.nonce txn.log
        dsimp only at hbusy ⊢
        rw [hn, hk] at houtcome hbusy hsame ⊢
        generalize aergoliteExecuteTransaction net.toEnv core n k txn.log = r
          at houtcome hbusy hsame ⊢
        cases houtcome with
        | executed _ => exact hone hsame hbuild (hids _) rfl
        | @refused rc again fails =>
            rcases again with rfl | rfl
            · exact absurd rfl hbusy
            · exact hweaken hsame (ih hrest hnext' hbusy ⟨h.ordered, h.counts⟩ htxns)
        | failed _ counts _ =>
            rw [if_neg counts.2.2]
            exact hone hsame ((maskTxnId_flagged _).trans hbuild) (hids _) rfl
      · rw [if_neg hchosen] at hbusy ⊢
        exact hweaken (.refl core) (ih hrest hnext' hbusy h htxns)

theorem isNextNonce_iff {nonces : List (ℤ × ℤ)} {id k : ℤ} :
    isNextNonce nonces id k = true ↔ (∃ item ∈ nonces, item.1 = id ∧ k = item.2 + 1) ∨
      ((∀ item ∈ nonces, item.1 ≠ id) ∧ k = 1) := by
  simp [isNextNonce]

/-- The array holds one nonce of the node that was updated, and the others as before. -/
theorem mem_updateLastNonceArray {nodeId nonce : ℤ} {nonces : List (ℤ × ℤ)} {item : ℤ × ℤ} :
    item ∈ updateLastNonceArray nodeId nonce nonces ↔
      item = (nodeId, nonce) ∨ item ∈ nonces ∧ item.1 ≠ nodeId := by
  unfold updateLastNonceArray
  split_ifs with hany
  · obtain ⟨found, hfound, hid⟩ := List.any_eq_true.1 hany
    rw [List.mem_map]
    constructor
    · rintro ⟨other, hother, rfl⟩
      split_ifs with hnode
      · exact .inl rfl
      · exact .inr ⟨hother, hnode⟩
    · rintro (rfl | ⟨hmem, hne⟩)
      · exact ⟨found, hfound, if_pos (by simpa using hid)⟩
      · exact ⟨item, hmem, if_neg hne⟩
  · have hnone : ∀ other ∈ nonces, other.1 ≠ nodeId := fun other hother hid =>
      hany (List.any_eq_true.2 ⟨other, hother, beq_iff_eq.2 hid⟩)
    rw [List.mem_append, List.mem_singleton]
    constructor
    · rintro (hmem | rfl)
      · exact .inr ⟨hmem, hnone item hmem⟩
      · exact .inl rfl
    · rintro (rfl | ⟨hmem, -⟩)
      · exact .inr rfl
      · exact .inl hmem

/-- The array holds the nonce of an included transaction. -/
theorem isNextNonce_update {nodeId nonce id k : ℤ} {nonces : List (ℤ × ℤ)}
    (h : isNextNonce (updateLastNonceArray nodeId nonce nonces) id k = true) :
    if id = nodeId then k = nonce + 1 else isNextNonce nonces id k = true := by
  rw [isNextNonce_iff] at h
  split_ifs with hid
  · subst hid
    rcases h with ⟨item, hmem, hitem, hk⟩ | ⟨hnone, -⟩
    · rcases mem_updateLastNonceArray.1 hmem with rfl | ⟨-, hne⟩
      · exact hk
      · exact absurd hitem hne
    · exact absurd rfl (hnone (id, nonce) (mem_updateLastNonceArray.2 (.inl rfl)))
  · rw [isNextNonce_iff]
    rcases h with ⟨item, hmem, hitem, hk⟩ | ⟨hnone, hk⟩
    · rcases mem_updateLastNonceArray.1 hmem with rfl | ⟨hmem, -⟩
      · exact absurd hitem.symm hid
      · exact .inl ⟨item, hmem, hitem, hk⟩
    · refine .inr ⟨fun item hmem hitem => ?_, hk⟩
      exact hnone item (mem_updateLastNonceArray.2 (.inr ⟨hmem, fun h => hid (hitem.symm.trans h)⟩))
        hitem

/-- Marking changes nothing but the heights, and makes no transaction unused. -/
theorem mem_markIncluded {txn t : Transaction} {mempool : List Transaction}
    (h : t ∈ markIncluded txn mempool) : ∃ other ∈ mempool, t.nodeId = other.nodeId ∧
      t.nonce = other.nonce ∧ t.id = other.id ∧ (t.blockHeight = 0 → other.blockHeight = 0) := by
  obtain ⟨other, hother, rfl⟩ := List.mem_map.1 h
  refine ⟨other, hother, ?_⟩
  split_ifs
  · exact ⟨rfl, rfl, rfl, fun h => absurd h (show ¬(-1 : ℤ) = 0 by decide)⟩
  · exact ⟨rfl, rfl, rfl, id⟩

/-- The passes go on with the next nonces. -/
theorem ArrayNext.update {past : List (ℕ × ℕ)} {nonces : List (ℤ × ℤ)}
    {mempool : List Transaction} {txn : Transaction} (h : ArrayNext nonces past mempool)
    (hpos : ∀ t ∈ mempool, 0 ≤ t.nodeId) (hmem : txn ∈ mempool)
    (hnonce : txn.nonce = Ledger.count txn.nodeId.toNat past + 1) :
    ArrayNext (updateLastNonceArray txn.nodeId txn.nonce nonces)
      (past ++ [(txn.nodeId.toNat, txn.nonce.toNat)]) (markIncluded txn mempool) := by
  intro t ht hunused hnext
  obtain ⟨other, hother, hnode, hotherNonce, -, hunused'⟩ := mem_markIncluded ht
  specialize hunused' hunused
  rw [hnode, hotherNonce] at hnext ⊢
  rw [Ledger.count_append, Ledger.count_singleton]
  have hupdate := isNextNonce_update hnext
  have hotherPos := hpos other hother
  have htxnPos := hpos txn hmem
  by_cases hid : other.nodeId = txn.nodeId
  · rw [if_pos hid] at hupdate
    rw [hid, if_pos rfl]
    omega
  · rw [if_neg hid] at hupdate
    rw [if_neg (by omega), h other hother hunused' hupdate]
    omega

/-- **What the passes of `create_new_block` include.** -/
theorem includeTransactions_pending {past : List (ℕ × ℕ)} {fuel : ℕ} {nonces : List (ℤ × ℤ)}
    {mempool : List Transaction} {count : ℕ} {tids : List (BitVec 64)} {core : Aergolite D}
    (hknown : ∀ txn ∈ mempool, Known core.authorizations txn)
    (hnext : ArrayNext nonces (past ++ entries tids) mempool)
    (hcounted : IncludesCounted net fuel nonces mempool core) (h : Pending past tids core)
    (htxns : core.txnIds = some tids) :
    let r := includeTransactions net fuel nonces mempool count core
    SameOpen core r.2 ∧ ∃ tids', Pending past tids' r.2 ∧ r.2.txnIds = some tids' := by
  induction fuel generalizing nonces mempool count tids core with
  | zero => exact ⟨.refl core, tids, h, htxns⟩
  | succ fuel ih =>
      unfold IncludesCounted at hcounted
      obtain ⟨hbusy, hrest⟩ := hcounted
      have houtcome := includeNext_outcome hknown hnext hbusy h htxns
      unfold includeTransactions
      generalize includeNext net nonces mempool core = r at houtcome hrest ⊢
      cases houtcome with
      | nothing same pending txnIds => exact ⟨same, tids, pending, txnIds⟩
      | @one core' txn tid mem next same pending txnIds entry =>
          have hpos : ∀ t ∈ mempool, 0 ≤ t.nodeId := by
            intro t ht
            obtain ⟨n, -, hn, -⟩ := (hknown t ht).exists_entry h.counts
            omega
          have hnext' := hnext.update hpos mem next
          rw [← entry, List.append_assoc, ← entries_append] at hnext'
          have hknown' : ∀ t ∈ markIncluded txn mempool, Known core'.authorizations t := by
            intro t ht
            obtain ⟨other, hother, hnode, hnonce, hid, -⟩ := mem_markIncluded ht
            have hother' : Known core'.authorizations other :=
              (hknown other hother).mono fun id hid => same.nodes.symm ▸ hid
            refine ⟨?_, hnode ▸ hother'.node, hnonce ▸ hother'.nonce⟩
            rw [hid, hother'.id, hnode, hnonce]
          obtain ⟨hsame, hpending⟩ := ih hknown' hnext' hrest pending txnIds
          exact ⟨same.trans hsame, hpending⟩

/-! ## The array of the last nonces -/

/-- What `build_last_nonce_array` puts into the array. -/
theorem buildLastNonceArray_spec (p : Plugin D) :
    (∀ item ∈ buildLastNonceArray p, ∃ auth ∈ p.core.authorizations,
      item = (auth.nodeId, auth.lastNonce)) ∧
    ∀ auth ∈ p.core.authorizations, ∀ txn ∈ p.mempool, txn.nodeId = auth.nodeId →
      txn.blockHeight = 0 → ∃ item ∈ buildLastNonceArray p, item.1 = auth.nodeId := by
  have hfold : ∀ (auths : List NodeAuth) (nonces : List (ℤ × ℤ)),
      let r := auths.foldl (fun nonces auth =>
        if p.mempool.any fun txn => txn.nodeId == auth.nodeId && txn.blockHeight == 0 then
          updateLastNonceArray auth.nodeId auth.lastNonce nonces
        else nonces) nonces
      (∀ item ∈ r, item ∈ nonces ∨ ∃ auth ∈ auths, item = (auth.nodeId, auth.lastNonce)) ∧
      (∀ item ∈ nonces, ∃ other ∈ r, other.1 = item.1) ∧
      ∀ auth ∈ auths, ∀ txn ∈ p.mempool, txn.nodeId = auth.nodeId → txn.blockHeight = 0 →
        ∃ item ∈ r, item.1 = auth.nodeId := by
    intro auths
    induction auths with
    | nil => exact fun nonces => ⟨fun item h => .inl h, fun item h => ⟨item, h, rfl⟩, by simp⟩
    | cons auth auths ih =>
        intro nonces
        rw [List.foldl_cons]
        have hkeep : ∀ item ∈ nonces, ∃ other ∈
            updateLastNonceArray auth.nodeId auth.lastNonce nonces, other.1 = item.1 := by
          intro item hitem
          by_cases hid : item.1 = auth.nodeId
          · exact ⟨_, mem_updateLastNonceArray.2 (.inl rfl), hid.symm⟩
          · exact ⟨item, mem_updateLastNonceArray.2 (.inr ⟨hitem, hid⟩), rfl⟩
        split_ifs with hunused
        · obtain ⟨hfrom, hkept, hall⟩ := ih (updateLastNonceArray auth.nodeId auth.lastNonce nonces)
          refine ⟨fun item hitem => ?_, fun item hitem => ?_, fun other hother txn htxn hid h0 => ?_⟩
          · rcases hfrom item hitem with hmem | ⟨other, hother, rfl⟩
            · rcases mem_updateLastNonceArray.1 hmem with rfl | ⟨hmem, -⟩
              · exact .inr ⟨auth, List.mem_cons_self, rfl⟩
              · exact .inl hmem
            · exact .inr ⟨other, List.mem_cons_of_mem _ hother, rfl⟩
          · obtain ⟨other, hother, hid⟩ := hkeep item hitem
            obtain ⟨last, hlast, hid'⟩ := hkept other hother
            exact ⟨last, hlast, hid'.trans hid⟩
          · rcases List.mem_cons.1 hother with rfl | hother
            · exact hkept _ (mem_updateLastNonceArray.2 (.inl rfl))
            · exact hall other hother txn htxn hid h0
        · obtain ⟨hfrom, hkept, hall⟩ := ih nonces
          refine ⟨fun item hitem => ?_, hkept, fun other hother txn htxn hid h0 => ?_⟩
          · rcases hfrom item hitem with hmem | ⟨other, hother, rfl⟩
            · exact .inl hmem
            · exact .inr ⟨other, List.mem_cons_of_mem _ hother, rfl⟩
          · rcases List.mem_cons.1 hother with rfl | hother
            · exact absurd (List.any_eq_true.2 ⟨txn, htxn, by simp [hid, h0]⟩) hunused
            · exact hall other hother txn htxn hid h0
  obtain ⟨hfrom, -, hall⟩ := hfold p.core.authorizations []
  refine ⟨fun item hitem => ?_, hall⟩
  rcases hfrom item hitem with hnil | h
  · exact absurd hnil List.not_mem_nil
  · exact h

/-- **The array makes `create_new_block` take the next nonces**, while no unused transaction
has an old one. -/
theorem arrayNext_buildLastNonceArray {p : Plugin D} {past : List (ℕ × ℕ)} {copy : ℕ → ℕ}
    (hcounts : Counts (fun n => Ledger.count n past) copy p.core.authorizations)
    (hknown : ∀ txn ∈ p.mempool, Known p.core.authorizations txn)
    (hunused : ∀ txn ∈ p.mempool, txn.blockHeight = 0 →
      (Ledger.count txn.nodeId.toNat past : ℤ) < txn.nonce) :
    ArrayNext (buildLastNonceArray p) past p.mempool := by
  obtain ⟨hfrom, hall⟩ := buildLastNonceArray_spec p
  intro txn htxn h0 hnext
  have hold := hunused txn htxn h0
  rcases isNextNonce_iff.1 hnext with ⟨item, hitem, hid, hnonce⟩ | ⟨hnone, -⟩
  · obtain ⟨auth, hauth, rfl⟩ := hfrom item hitem
    dsimp only at hid hnonce
    rcases hcounts.lastNonce hauth with hlast | hzero
    · have hpos := (hcounts.ids auth hauth).1
      have hlive := hcounts.live txn.nodeId.toNat
      rw [hid] at hlast hpos
      rw [Int.toNat_of_nonneg hpos] at hlive
      omega
    · omega
  · obtain ⟨auth, hauth, hid⟩ := List.mem_map.1 (hknown txn htxn).node
    obtain ⟨item, hitem, hitemId⟩ := hall auth hauth txn htxn hid.symm h0
    exact absurd (hitemId.trans hid) (hnone item hitem)

/-- What is left of the mempool after a commit. -/
theorem mem_updateMempool {auths : List NodeAuth} {block : Block} {mempool : List Transaction}
    {txn : Transaction} (h : txn ∈ updateMempool auths block mempool) :
    ∃ other ∈ mempool, txn.id = other.id ∧ txn.nodeId = other.nodeId ∧ txn.nonce = other.nonce ∧
      (txn.blockHeight = 0 → ∀ auth ∈ auths, auth.nodeId = txn.nodeId →
        auth.lastNonce < txn.nonce) := by
  obtain ⟨other, hother, height, rfl⟩ := copy_of_mem_updateMempool h
  refine ⟨other, hother, rfl, rfl, rfl, fun hunused auth hauth hid => ?_⟩
  rw [updateMempool_eq] at h
  have hused := (List.mem_filter.1 h).2
  rw [Bool.not_eq_true'] at hused
  exact isUsedUp_eq_false hused hunused hauth hid

/-! ## The invariant -/

/-- **What holds between the calls.**  The ledger is in order; while no block is open, the last
nonces are those of the ledger; and if one is open, it is verified and goes on with them. -/
structure Numbered (p : Plugin D) : Prop where
  ordered : Ledger.Ordered (ledger p.committed)
  known : ∀ txn ∈ p.mempool, Known p.core.authorizations txn
  unused : ∀ txn ∈ p.mempool, txn.blockHeight = 0 →
    (Ledger.count txn.nodeId.toNat (ledger p.committed) : ℤ) < txn.nonce
  closed : p.core.saved = none → p.core.txnIds = none ∧
    ∃ copy, Counts (fun n => Ledger.count n (ledger p.committed)) copy p.core.authorizations ∧
      (p.openBlock.isSome = true ∨ p.core.blockHeight = 0 →
        copy = fun n => Ledger.count n (ledger p.committed))
  opened : p.core.saved ≠ none → ∃ header body,
    p.core.activeBlock.verified = some (header, body) ∧
      Pending (ledger p.committed) body.txnIds p.core

/-- No block is open, and the copy of the nonces is as they are. -/
structure Settled (past : List (ℕ × ℕ)) (core : Aergolite D) : Prop where
  closed : core.saved = none ∧ core.txnIds = none
  counts : Counts (fun n => Ledger.count n past) (fun n => Ledger.count n past)
    core.authorizations

theorem Settled.copied {past : List (ℕ × ℕ)} {core : Aergolite D} (h : Settled past core) :
    Copied past core := ⟨_, h.counts⟩

/-- A rollback goes back to the ledger. -/
theorem Copied.rolledBack {past : List (ℕ × ℕ)} {a b : Aergolite D} (h : Copied past a)
    (hb : RolledBack a b) : Settled past b ∧
      b.authorizations.map NodeAuth.nodeId = a.authorizations.map NodeAuth.nodeId := by
  obtain ⟨live, hcounts⟩ := h
  refine ⟨⟨⟨hb.closed.1, hb.closed.2.1⟩, ?_⟩, ?_⟩
  · rw [hb.authorizations]
    exact hcounts.reload
  · rw [hb.authorizations, reloadAuthNonces, List.map_map]
    rfl

/-- The blocks and the mempool stay, and the core goes back to the ledger. -/
theorem Numbered.settled {p q : Plugin D} (h : Numbered p) (committed : q.committed = p.committed)
    (mempool : q.mempool = p.mempool)
    (nodes : q.core.authorizations.map NodeAuth.nodeId =
      p.core.authorizations.map NodeAuth.nodeId)
    (hq : Settled (ledger p.committed) q.core) : Numbered q where
  ordered := committed ▸ h.ordered
  known txn htxn := (h.known txn (mempool ▸ htxn)).mono fun _ hid => nodes.symm ▸ hid
  unused txn htxn := committed ▸ h.unused txn (mempool ▸ htxn)
  closed _ := ⟨hq.closed.2, _, committed ▸ hq.counts, fun _ => rfl⟩
  opened hopen := absurd hq.closed.1 hopen

/-- What the invariant does not depend on. -/
theorem Numbered.congr {p q : Plugin D} (h : Numbered p) (committed : q.committed = p.committed)
    (mempool : q.mempool = p.mempool) (openBlock : q.openBlock = p.openBlock)
    (saved : q.core.saved = p.core.saved) (txnIds : q.core.txnIds = p.core.txnIds)
    (verified : q.core.activeBlock.verified = p.core.activeBlock.verified)
    (authorizations : q.core.authorizations = p.core.authorizations)
    (blockHeight : q.core.blockHeight = p.core.blockHeight) : Numbered q where
  ordered := committed ▸ h.ordered
  known := by
    rw [mempool, authorizations]
    exact h.known
  unused := by
    rw [mempool, committed]
    exact h.unused
  closed := by
    rw [saved, txnIds, committed, authorizations, openBlock, blockHeight]
    exact h.closed
  opened hopen := by
    obtain ⟨header, body, hverified, hpending⟩ := h.opened (saved ▸ hopen)
    refine ⟨header, body, verified.trans hverified, ?_, ?_⟩
    · rw [committed]
      exact hpending.ordered
    · rw [committed, authorizations]
      exact hpending.counts

theorem Numbered.idle {p q : Plugin D} (h : Numbered p) (hidle : Idle p q) : Numbered q :=
  h.congr hidle.committed hidle.mempool hidle.openBlock (congrArg Aergolite.saved hidle.core)
    (congrArg Aergolite.txnIds hidle.core)
    (congrArg (fun core => core.activeBlock.verified) hidle.core)
    (congrArg Aergolite.authorizations hidle.core) (congrArg Aergolite.blockHeight hidle.core)

/-- A node that starts with an empty chain: no transaction of the nodes it knows has been
included. -/
structure AtGenesis (p : Plugin D) : Prop where
  fresh : p.Fresh
  blockHeight : p.core.blockHeight = 0
  nonces : ∀ auth ∈ p.core.authorizations,
    IsNodeId auth.nodeId ∧ auth.lastNonce = 0 ∧ auth.savedNonce = 0

theorem numbered_of_genesis {p : Plugin D} (h : AtGenesis p) : Numbered p := by
  have hzero : ∀ n : ℕ, lastNonceOf p.core.authorizations n = 0 ∧
      savedNonceOf p.core.authorizations n = 0 := by
    intro n
    unfold lastNonceOf savedNonceOf
    cases hauth : aergoliteGetAuthorization p.core.authorizations n with
    | none => exact ⟨rfl, rfl⟩
    | some auth => exact (h.nonces auth (aergoliteGetAuthorization_some hauth).1).2
  have hledger : ledger p.committed = [] := by
    rw [h.fresh.committed]
    rfl
  refine ⟨?_, ?_, ?_, fun _ => ⟨h.fresh.closed.2.1, fun _ => 0, ?_, fun _ => ?_⟩, fun hopen => ?_⟩
  · rw [hledger]
    exact Ledger.ordered_nil
  · rw [h.fresh.mempool]
    exact fun txn htxn => absurd htxn List.not_mem_nil
  · rw [h.fresh.mempool]
    exact fun txn htxn => absurd htxn List.not_mem_nil
  · rw [hledger]
    refine ⟨fun auth hauth => (h.nonces auth hauth).1, ?_, fun n => (hzero n).1,
      fun n => (hzero n).2⟩
    exact List.pairwise_of_forall_mem_list fun a ha b hb _ => (h.nonces b hb).2
  · rw [hledger]
    rfl
  · exact absurd h.fresh.closed.1 hopen

/-- **What `aergolite_begin_block` opens.** -/
theorem Numbered.beginBlock {p : Plugin D} (h : Numbered p) :
    let r := aergoliteBeginBlock p.core
    (r.1 ≠ .ok → Numbered { p with core := r.2 }) ∧
      (r.1 = .ok → r.2.saved ≠ none ∧ r.2.txnIds = some [] ∧
        (∀ txn ∈ p.mempool, Known r.2.authorizations txn) ∧ Pending (ledger p.committed) [] r.2 ∧
        r.2.authorizations.map NodeAuth.nodeId = p.core.authorizations.map NodeAuth.nodeId ∧
        p.core.saved = none) := by
  have houtcome := beginBlock_outcome p.core
  generalize aergoliteBeginBlock p.core = r at houtcome ⊢
  cases houtcome with
  | busy same =>
      exact ⟨fun _ => h.congr rfl rfl rfl rfl rfl rfl rfl rfl, fun hok => Rc.noConfusion hok⟩
  | failed fails closed first rolledBack =>
      refine ⟨fun _ => ?_, fun hok => absurd hok fails⟩
      obtain ⟨-, copy, hcounts, hcopy⟩ := h.closed closed
      have hcopied : Copied (ledger p.committed) p.core := ⟨_, hcopy (.inr first) ▸ hcounts⟩
      obtain ⟨hsettled, hnodes⟩ := hcopied.rolledBack rolledBack
      exact h.settled rfl rfl hnodes hsettled
  | opened closed same =>
      refine ⟨fun hne => absurd rfl hne, fun _ => ⟨by simp, rfl, ?_, ⟨?_, ?_⟩, ?_, closed⟩⟩
      · intro txn htxn
        refine (h.known txn htxn).mono fun id hid => ?_
        dsimp only
        rwa [saveAuthNonces, List.map_map]
      · rw [entries, List.map_nil, List.append_nil]
        exact h.ordered
      · obtain ⟨-, copy, hcounts, -⟩ := h.closed closed
        rw [entries, List.map_nil, List.append_nil]
        exact hcounts.save
      · dsimp only
        rw [saveAuthNonces, List.map_map]
        rfl

/-! ## The calls keep it -/

theorem Numbered.verifyBlock {p : Plugin D} (h : Numbered p) {block : Block}
    (hnext : VerifiesNext net p.mempool block.body.txnIds (aergoliteBeginBlock p.core).2) :
    Numbered (verifyBlock net p block).2 := by
  obtain ⟨hbusy, hopened⟩ := h.beginBlock
  unfold NoLeader.verifyBlock
  dsimp only
  generalize aergoliteBeginBlock p.core = begun at hbusy hopened hnext ⊢
  by_cases hbegin : begun.1 ≠ .ok
  · rw [if_pos hbegin]
    exact (hbusy hbegin).idle (idle_markOutdated ..)
  rw [if_neg hbegin]
  obtain ⟨hsaved, -, hknown, hpending, hnodes, -⟩ := hopened (not_not.1 hbegin)
  obtain ⟨hsame, hcopied, hall⟩ := verifyTransactions_pending hknown hnext hpending
  generalize verifyTransactions net p.mempool block.body.txnIds begun.2 = executed
    at hsame hcopied hall ⊢
  -- whatever fails from here on, the block is rolled back
  have hroll : ∀ (rc : Rc) (core : Aergolite D), Copied (ledger p.committed) core →
      core.authorizations.map NodeAuth.nodeId = p.core.authorizations.map NodeAuth.nodeId →
      Numbered (markOutdated rc { p with core := aergoliteRollbackBlock core }) := by
    intro rc core hcore hcoreNodes
    obtain ⟨hsettled, hback⟩ := hcore.rolledBack (rolledBack core)
    have hq : Numbered { p with core := aergoliteRollbackBlock core } :=
      h.settled rfl rfl (hback.trans hcoreNodes) hsettled
    exact hq.idle (idle_markOutdated ..)
  have hexecuted := hsame.nodes.trans hnodes
  by_cases hdiffers : executed.1 ≠ some .ok
  · rw [if_pos hdiffers]
    exact hroll _ _ hcopied hexecuted
  rw [if_neg hdiffers]
  rw [not_not] at hdiffers
  have houtcome := verifyBlock_outcome net.toEnv executed.2 block.header block.body
  generalize aergoliteVerifyBlock net.toEnv executed.2 block.header block.body = verified
    at houtcome ⊢
  cases houtcome with
  | kept fails =>
      rw [if_pos fails]
      exact hroll _ _ hcopied hexecuted
  | failed fails _ rolledBack =>
      rw [if_pos fails]
      obtain ⟨hsettled, hback⟩ := hcopied.rolledBack rolledBack
      exact hroll _ _ hsettled.copied (hback.trans hexecuted)
  | verified _ _ _ _ =>
      have hblock := hall hdiffers
      refine ⟨h.ordered, fun txn htxn => (h.known txn htxn).mono fun _ hid => hexecuted.symm ▸ hid,
        h.unused, fun hclosed => absurd (hsame.saved.symm.trans hclosed) hsaved,
        fun _ => ⟨block.header, block.body, rfl, hblock.ordered, hblock.counts⟩⟩

/-- The mempool after a commit, with the ledger of the block. -/
theorem known_updateMempool {auths : List NodeAuth} {past : List (ℕ × ℕ)} {copy : ℕ → ℕ}
    {mempool : List Transaction} (hknown : ∀ txn ∈ mempool, Known auths txn)
    (hcounts : Counts (fun n => Ledger.count n past) copy auths) {block : Block}
    {txn : Transaction} (htxn : txn ∈ updateMempool auths block mempool) :
    Known auths txn ∧ (txn.blockHeight = 0 →
      (Ledger.count txn.nodeId.toNat past : ℤ) < txn.nonce) := by
  obtain ⟨other, hother, hid, hnode, hnonce, hold⟩ := mem_updateMempool htxn
  have hotherKnown := hknown other hother
  have htxnKnown : Known auths txn := by
    refine ⟨?_, ?_, ?_⟩
    · rw [hid, hnode, hnonce]
      exact hotherKnown.id
    · rw [hnode]
      exact hotherKnown.node
    · rw [hnonce]
      exact hotherKnown.nonce
  refine ⟨htxnKnown, fun h0 => ?_⟩
  obtain ⟨auth, hauth⟩ := exists_getAuthorization htxnKnown.node
  obtain ⟨hmem, hauthId⟩ := aergoliteGetAuthorization_some hauth
  have hlast := hold h0 auth hmem hauthId
  have hpos := (hcounts.ids auth hmem).1
  have hlive := hcounts.live txn.nodeId.toNat
  rw [Int.toNat_of_nonneg (hauthId ▸ hpos), lastNonceOf, hauth, Option.map_some,
    Option.getD_some] at hlive
  rw [← hlive]
  exact hlast

/-- The open block is committed. -/
theorem Numbered.replaceCurrentBlock {p : Plugin D} (h : Numbered p) {block : Block}
    {core : Aergolite D} {row : BlockRow}
    (hpending : Pending (ledger p.committed) block.body.txnIds p.core)
    (active : 0 < p.core.activeBlock.height) (stored : Committed p.core row core) :
    Numbered (replaceCurrentBlock core block p) := by
  have hledger : ledger (NoLeader.replaceCurrentBlock core block p).committed =
      ledger p.committed ++ entries block.body.txnIds := ledger_append ..
  have hcounts : Counts (fun n => Ledger.count n (ledger p.committed ++
      entries block.body.txnIds)) (fun n => Ledger.count n (ledger p.committed))
      core.authorizations := hpending.counts.of_authNonces stored.nonces
  have hnodes : core.authorizations.map NodeAuth.nodeId =
      p.core.authorizations.map NodeAuth.nodeId := by
    rw [← map_fst_authNonces, stored.nonces, map_fst_authNonces]
  have hknown : ∀ txn ∈ p.mempool, Known core.authorizations txn := fun txn htxn =>
    (h.known txn htxn).mono fun _ hid => hnodes.symm ▸ hid
  constructor
  · rw [hledger]
    exact hpending.ordered
  · exact fun txn htxn => (known_updateMempool hknown hcounts htxn).1
  · rw [hledger]
    exact fun txn htxn => (known_updateMempool hknown hcounts htxn).2
  · rw [hledger]
    refine fun _ => ⟨stored.closed.2.1, _, hcounts, fun hor => ?_⟩
    rcases hor with hopen | hheight
    · exact absurd hopen Bool.false_ne_true
    · have hzero : core.blockHeight = 0 := hheight
      have hactive := stored.blockHeight
      omega
  · exact fun hopen => absurd stored.closed.1 hopen

theorem Numbered.commitBlock {p : Plugin D} (h : Numbered p) (block : Block) :
    Numbered (commitBlock net p block).2 := by
  have houtcome := commitBlock_outcome net.toEnv p.core block.header block.body block.votes
  have hopen : p.core.txnIds.isSome = true → p.core.saved ≠ none := by
    intro htxns hclosed
    rw [(h.closed hclosed).1] at htxns
    exact absurd htxns (by decide)
  unfold NoLeader.commitBlock
  dsimp only
  generalize aergoliteCommitBlock net.toEnv p.core block.header block.body block.votes = r
    at houtcome ⊢
  have hroll : ∀ (rc : Rc) (a b : Aergolite D), a.authorizations = p.core.authorizations →
      p.core.saved ≠ none → RolledBack a b → Numbered (markOutdated rc { p with
        core := b
        refused := p.refused ++ p.openBlock.toList }) := by
    intro rc a b hauths hsaved hb
    obtain ⟨_, body, -, hpending⟩ := h.opened hsaved
    have hcopied : Copied (ledger p.committed) a := by
      unfold Copied
      rw [hauths]
      exact hpending.copied
    obtain ⟨hsettled, hback⟩ := hcopied.rolledBack hb
    have hq : Numbered { p with core := b, refused := p.refused ++ p.openBlock.toList } :=
      h.settled rfl rfl (hauths ▸ hback) hsettled
    exact hq.idle (idle_markOutdated ..)
  cases houtcome with
  | misuse =>
      have hrc : (Rc.misuse, p.core).1 ≠ Rc.ok := fun hrc => Rc.noConfusion hrc
      rw [if_pos hrc]
      have hq : Numbered { p with refused := p.refused ++ p.openBlock.toList } :=
        h.congr rfl rfl rfl rfl rfl rfl rfl rfl
      exact hq.idle (idle_markOutdated ..)
  | failed fails opened rolledBack =>
      rw [if_pos fails]
      exact hroll _ p.core _ rfl (hopen opened) rolledBack
  | half fails opened _ rolledBack =>
      rw [if_pos fails]
      refine hroll _ _ _ ?_ (hopen opened) rolledBack
      rfl
  | @committed core opened active verified stored =>
      rw [if_neg (not_not.2 rfl)]
      obtain ⟨header, body, hverified, hpending⟩ := h.opened (hopen opened)
      obtain ⟨rfl, rfl⟩ := Prod.mk.inj (Option.some.inj (hverified.symm.trans verified))
      exact (h.replaceCurrentBlock hpending active stored).idle (idle_startNewBlockTimer net _)

theorem Numbered.createNewBlock {p q : Plugin D} (h : Numbered p) {timestamp : ℤ}
    {block : Option Block} (created : createNewBlock net timestamp p = (block, q))
    (hcounted : IncludesCounted net p.mempool.length (buildLastNonceArray p) p.mempool
      (aergoliteBeginBlock p.core).2) :
    (block = none → Numbered q) ∧ (block ≠ none → ∀ newBlocks openBlock,
      Numbered { q with newBlocks, openBlock }) := by
  obtain ⟨hbusy, hopened⟩ := h.beginBlock
  unfold NoLeader.createNewBlock at created
  dsimp only at created
  generalize aergoliteBeginBlock p.core = begun at hbusy hopened hcounted created
  by_cases hbegin : begun.1 ≠ .ok
  · rw [if_pos hbegin] at created
    obtain ⟨rfl, rfl⟩ := Prod.mk.inj created
    exact ⟨fun _ => hbusy hbegin, fun hne => absurd rfl hne⟩
  rw [if_neg hbegin] at created
  obtain ⟨hsaved, htxns, hknown, hpending, hnodes, hclosed⟩ := hopened (not_not.1 hbegin)
  obtain ⟨-, copy, hcounts, -⟩ := h.closed hclosed
  have hnext : ArrayNext (buildLastNonceArray p) (ledger p.committed ++ entries []) p.mempool := by
    rw [entries, List.map_nil, List.append_nil]
    exact arrayNext_buildLastNonceArray hcounts h.known h.unused
  have hall := @includeTransactions_pending D net _ _ _ _ 0 _ _ hknown hnext hcounted hpending htxns
  generalize includeTransactions net p.mempool.length (buildLastNonceArray p) p.mempool 0 begun.2 =
    included at hall created
  obtain ⟨hsame, tids, hpending', htxns'⟩ := hall
  have hincluded := hsame.nodes.trans hnodes
  have hback : ∀ b : Aergolite D, RolledBack included.2 b → Numbered { p with core := b } := by
    intro b hb
    obtain ⟨hsettled, hback⟩ := hpending'.copied.rolledBack hb
    exact h.settled rfl rfl (hback.trans hincluded) hsettled
  by_cases hcount : included.1 = 0
  · rw [if_pos hcount] at created
    obtain ⟨rfl, rfl⟩ := Prod.mk.inj created
    exact ⟨fun _ => hback _ (rolledBack included.2), fun hne => absurd rfl hne⟩
  rw [if_neg hcount] at created
  have houtcome := createBlock_outcome net.toEnv timestamp included.2
  generalize aergoliteCreateBlock net.toEnv timestamp included.2 = made at houtcome created
  cases houtcome with
  | misuse closed =>
      rcases closed with hnone | hnone
      · exact absurd (htxns'.symm.trans hnone) (by simp)
      · exact absurd (hsame.saved.symm.trans hnone) hsaved
  | failed _ rolledBack =>
      obtain ⟨rfl, rfl⟩ := Prod.mk.inj created
      exact ⟨fun _ => hback _ rolledBack, fun hne => absurd rfl hne⟩
  | @created header body db txnIds same height =>
      obtain ⟨rfl, rfl⟩ := Prod.mk.inj created
      obtain rfl : tids = body.txnIds := Option.some.inj (htxns'.symm.trans txnIds)
      refine ⟨fun hnone => absurd hnone (by simp), fun _ newBlocks openBlock => ?_⟩
      exact ⟨h.ordered, fun txn htxn =>
        (h.known txn htxn).mono fun _ hid => hincluded.symm ▸ hid, h.unused,
        fun hclosed => absurd (hsame.saved.symm.trans hclosed) hsaved,
        fun _ => ⟨header, body, rfl, hpending'.ordered, hpending'.counts⟩⟩

/-- The calls after which each block includes the next nonces: no nonce is too large for a
transaction id, the loop of `verify_block` finds the next nonces, and that of
`create_new_block` is not told to try again. -/
def NextNonces (net : Net D) (p : Plugin D) : Call → Prop
  | .arrive _ nonce _ => nonce < 2 ^ 32
  | .verify block =>
      VerifiesNext net p.mempool block.body.txnIds (aergoliteBeginBlock p.core).2
  | .create _ => IncludesCounted net p.mempool.length (buildLastNonceArray p) p.mempool
      (aergoliteBeginBlock p.core).2
  | _ => True

theorem Numbered.arrive {p : Plugin D} (h : Numbered p) {nodeId nonce : ℤ} {log : Log}
    {mempool : List Transaction} (hnonce : nonce < 2 ^ 32)
    (stored : storeTransactionOnMempool net.crypto p.core.adminPubkey p.core.authorizations
      p.mempool nodeId nonce log = some (.ok mempool)) : Numbered { p with mempool } := by
  obtain ⟨-, ⟨auth, hauth, hnew⟩, datetime, -, rfl⟩ := storeTransactionOnMempool_ok stored
  obtain ⟨hmem, hid⟩ := aergoliteGetAuthorization_some hauth
  -- the live nonce of the node is not below the one of the ledger
  have hlast : (Ledger.count nodeId.toNat (ledger p.committed) : ℤ) ≤ auth.lastNonce ∧
      0 ≤ nodeId := by
    have hlive : ∀ {live copy : ℕ → ℕ}, Counts live copy p.core.authorizations →
        Ledger.count nodeId.toNat (ledger p.committed) ≤ live nodeId.toNat →
        (Ledger.count nodeId.toNat (ledger p.committed) : ℤ) ≤ auth.lastNonce ∧ 0 ≤ nodeId := by
      intro live copy hcounts hle
      have hpos := (hcounts.ids auth hmem).1
      have heq := hcounts.live nodeId.toNat
      rw [Int.toNat_of_nonneg (hid ▸ hpos), lastNonceOf, hauth, Option.map_some,
        Option.getD_some] at heq
      exact ⟨by omega, hid ▸ hpos⟩
    by_cases hclosed : p.core.saved = none
    · obtain ⟨-, copy, hcounts, -⟩ := h.closed hclosed
      exact hlive hcounts le_rfl
    · obtain ⟨_, body, -, hpending⟩ := h.opened hclosed
      exact hlive hpending.counts (by rw [Ledger.count_append]; omega)
  refine ⟨h.ordered, fun txn htxn => ?_, fun txn htxn h0 => ?_, h.closed, h.opened⟩
  · rcases List.mem_append.1 htxn with htxn | htxn
    · exact h.known txn htxn
    · obtain rfl := List.mem_singleton.1 htxn
      exact ⟨rfl, hid ▸ List.mem_map_of_mem hmem, by dsimp only; omega, hnonce⟩
  · rcases List.mem_append.1 htxn with htxn | htxn
    · exact h.unused txn htxn h0
    · obtain rfl := List.mem_singleton.1 htxn
      dsimp only
      omega

/-- The entry that an authorization adds. -/
theorem aergoliteNewAuthorization_ok {c : Crypto} {codec : Codec} {adminPubkey : Bytes}
    {auths authorizations : List NodeAuth} {log : Log} {auth : NodeAuth}
    (h : aergoliteNewAuthorization c codec adminPubkey auths log =
      some (.ok (authorizations, auth))) :
    authorizations = auths ++ [auth] ∧ (auth.lastNonce = 0 ∧ auth.savedNonce = 0) ∧
      auth.nodeId = codec.generateNodeIdFromPubkey auth.pk := by
  unfold aergoliteNewAuthorization at h
  split at h
  · simp at h
  · split_ifs at h
    · simp at h
    · obtain ⟨rc, -, hrc⟩ := Option.map_eq_some_iff.1 h
      split_ifs at hrc
      obtain ⟨rfl, rfl⟩ := Prod.mk.inj (Except.ok.inj hrc)
      exact ⟨rfl, ⟨rfl, rfl⟩, rfl⟩

/-- A node is authorized. -/
theorem Numbered.authorize {p : Plugin D} (h : Numbered p) {auth : NodeAuth}
    (hid : IsNodeId auth.nodeId) (hzero : auth.lastNonce = 0 ∧ auth.savedNonce = 0) :
    Numbered { p with core := { p.core with
      authorizations := p.core.authorizations ++ [auth] } } := by
  refine ⟨h.ordered, fun txn htxn => (h.known txn htxn).mono fun id hmem => ?_, h.unused,
    fun hclosed => ?_, fun hopened => ?_⟩
  · dsimp only
    rw [List.map_append]
    exact List.mem_append_left _ hmem
  · obtain ⟨htxns, copy, hcounts, hcopy⟩ := h.closed hclosed
    exact ⟨htxns, copy, hcounts.append hid hzero, hcopy⟩
  · obtain ⟨header, body, hverified, hpending⟩ := h.opened hopened
    exact ⟨header, body, hverified, hpending.ordered, hpending.counts.append hid hzero⟩

/-- **A call keeps the ledger in order.** -/
theorem numbered_step (hids : ∀ pubkey, IsNodeId (net.codec.generateNodeIdFromPubkey pubkey))
    {p q : Plugin D} {call : Call} (h : Numbered p) (hnext : NextNonces net p call)
    (hs : ChainStep net p call q) : Numbered q := by
  cases hs with
  | idle hidle => exact h.idle hidle
  | arrive stored => exact h.arrive hnext stored
  | verify _ _ _ => exact h.verifyBlock hnext
  | @commit block => exact h.commitBlock block
  | rollback opened =>
      have hcopied : Copied (ledger p.committed) p.core := by
        by_cases hclosed : p.core.saved = none
        · obtain ⟨-, copy, hcounts, hcopy⟩ := h.closed hclosed
          exact ⟨_, hcopy (.inl opened) ▸ hcounts⟩
        · obtain ⟨_, body, -, hpending⟩ := h.opened hclosed
          exact hpending.copied
      obtain ⟨hsettled, hback⟩ := hcopied.rolledBack (rolledBack p.core)
      exact h.settled rfl rfl hback hsettled
  | create _ created => exact (h.createNewBlock created hnext).2 (by simp) _ _
  | createFailed _ created => exact (h.createNewBlock created hnext).1 rfl
  | authorize added =>
      obtain ⟨rfl, hzero, hid⟩ := aergoliteNewAuthorization_ok added
      exact h.authorize (hid ▸ hids _) hzero

/-- A node and its calls, from an empty chain on. -/
def chainFromGenesis (net : Net D) : System (Plugin D) Call where
  init := AtGenesis
  step := ChainStep net

/-- A network whose statements fail: the procedure that is called does not exist. -/
def failingNet : Net Unit := { plainNet with
  engine := { plainNet.engine with step := fun _ _ _ => (.error, ()) } }

/-- Node 2 with an empty chain, and a transaction of node 1 in its mempool. -/
def genesisNode : Plugin Unit :=
  let auths : List NodeAuth := [1, 2, 3].map fun n : ℕ => ⟨keyOf n, n, false, 0, 0, 0⟩
  { startNodeWith 2 auths with
    core := { (startNodeWith 2 auths).core with blockHeight := 0 }
    currentBlock := none }

/-- The mempool with the transaction of node 1. -/
def firstTransaction : Transaction := ⟨1, 1, firstTid 1, "d".toList, firstLog 1, 0⟩

/-- A block of node 1 at a height, after the block with an id: the transaction has failed. -/
def failedBlock (height : ℤ) (prevHash : Bytes) : Block where
  height := height
  id := idOf 1
  header := ⟨height, prevHash, [], [], 1, [], plainSign (keyOf 1) []⟩
  body := ⟨[firstTid 1 ||| failedFlag], []⟩
  votes := []
  vrfOutput := []
  waitTime := 0
  tempVotes _ := []
  numVotes _ := 0
  downloadingTxns := false

/-- A block arrives, is verified and committed. -/
def acceptBlock (p : Plugin Unit) (block : Block) : Plugin Unit :=
  (commitBlock failingNet (verifyBlock failingNet
    { p with newBlocks := p.newBlocks ++ [block] } block).2 block).2

theorem genesisNode_atGenesis : AtGenesis genesisNode := by
  refine ⟨⟨le_rfl, rfl, ⟨rfl, rfl, rfl⟩, rfl, rfl, rfl, rfl, rfl, rfl, rfl, rfl, rfl, rfl⟩, rfl, ?_⟩
  unfold IsNodeId
  decide

theorem storeFirst : storeTransactionOnMempool failingNet.crypto genesisNode.core.adminPubkey
    genesisNode.core.authorizations genesisNode.mempool 1 1 (firstLog 1) =
      some (.ok [firstTransaction]) := rfl

/-- The node with the transaction. -/
def nodeWithFirst : Plugin Unit := { genesisNode with mempool := [firstTransaction] }

/-- A block is accepted in calls, each of which meets a condition. -/
theorem reachable_acceptBlock {P : Plugin Unit → Call → Prop} {p : Plugin Unit} (block : Block)
    (h : ((chainFromGenesis failingNet).restrict P).Reachable p)
    (hidle : P p .idle)
    (hverify : P { p with newBlocks := p.newBlocks ++ [block] } (.verify block))
    (hcommit : P (verifyBlock failingNet { p with newBlocks := p.newBlocks ++ [block] } block).2
      (.commit block))
    (hclosed : p.openBlock = none) (hpresent : missingTransactions p.mempool block.body = [])
    (hkeyed : block.key = (block.header.height, block.header.id)) :
    ((chainFromGenesis failingNet).restrict P).Reachable (acceptBlock p block) := by
  have hadd : HeaderKeyed [block] := fun other hother => by
    rwa [List.mem_singleton.1 hother]
  have hlisted : Listed (p.newBlocks ++ [block]) block :=
    ⟨block, List.mem_append_right _ List.mem_cons_self, rfl, rfl, rfl⟩
  have hlist : ChainStep failingNet p .idle { p with newBlocks := p.newBlocks ++ [block] } :=
    .idle (idle_append p hadd)
  have hchecked : ChainStep failingNet { p with newBlocks := p.newBlocks ++ [block] }
      (.verify block) _ := .verify hclosed hlisted hpresent
  have hcommitted : ChainStep failingNet (verifyBlock failingNet
      { p with newBlocks := p.newBlocks ++ [block] } block).2 (.commit block) _ := .commit
  exact .step _ (.step _ (.step _ h ⟨hidle, hlist⟩) ⟨hverify, hchecked⟩) ⟨hcommit, hcommitted⟩

end NoLeader
end AergoLite
