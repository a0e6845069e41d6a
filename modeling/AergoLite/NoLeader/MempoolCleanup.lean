/-
# What a commit removes from the mempool

`commit_block` of `plugins/no-leader/consensus.c` marks the transactions of the block, and is to
remove those that have been in a block for two heights.  The loop that does it runs over the ids of
the new block and removes one transaction for each, so what it removes depends on how many ids
there are: the mempool is cleaned up exactly when there are no more old transactions than ids
(`commitBlock_cleanedUp_iff`).  The unused transactions whose nonce is used are all removed, and
no other one is.
-/

import AergoLite.NoLeader.Handlers

namespace AergoLite
namespace NoLeader

open AergoLite.Core

variable {D : Type}

/-! ## Removing the first item again and again -/

section
variable {α β : Type*} (old : α → Bool)

/-- Each time one item less is left of those that are to be removed. -/
theorem countP_foldl_eraseP (times : List β) (l : List α) :
    (times.foldl (fun l _ => l.eraseP old) l).countP old = l.countP old - times.length := by
  induction times generalizing l with
  | nil => rfl
  | cons time times ih =>
      have hone : (l.eraseP old).countP old = l.countP old - 1 := by
        induction l with
        | nil => rfl
        | cons a l ih =>
            cases hold : old a with
            | true => simp [hold]
            | false => simp [hold, ih]
      rw [List.foldl_cons, ih, hone, List.length_cons]
      omega

/-- The others are left. -/
theorem filter_foldl_eraseP (times : List β) (l : List α) :
    (times.foldl (fun l _ => l.eraseP old) l).filter (fun a => !old a) =
      l.filter fun a => !old a := by
  induction times generalizing l with
  | nil => rfl
  | cons time times ih =>
      have hone : (l.eraseP old).filter (fun a => !old a) = l.filter fun a => !old a := by
        induction l with
        | nil => rfl
        | cons a l ih =>
            cases hold : old a with
            | true => simp [hold]
            | false => simp [hold, ih]
      rw [List.foldl_cons, ih, hone]

theorem foldl_eraseP_sublist (times : List β) (l : List α) :
    (times.foldl (fun l _ => l.eraseP old) l).Sublist l := by
  induction times generalizing l with
  | nil => exact .refl l
  | cons time times ih => exact (ih _).trans List.eraseP_sublist

end

/-! ## The transactions that are removed -/

/-- The mempool with the transactions of the block marked. -/
def markUsed (block : Block) (mempool : List Transaction) : List Transaction :=
  mempool.map fun txn =>
    if txn.id ∈ block.body.txnIds.map maskTxnId then { txn with blockHeight := block.height }
    else txn

/-- The transaction is in a block at least two heights below. -/
def isOld (height : ℤ) (txn : Transaction) : Bool :=
  decide (0 < txn.blockHeight) && decide (txn.blockHeight ≤ height - 2)

/-- The transaction is not in a block, and its nonce is used. -/
def isUsedUp (auths : List NodeAuth) (txn : Transaction) : Bool :=
  txn.blockHeight == 0 && auths.any fun auth =>
    auth.nodeId == txn.nodeId && decide (txn.nonce ≤ auth.lastNonce)

theorem updateMempool_eq (auths : List NodeAuth) (block : Block) (mempool : List Transaction) :
    updateMempool auths block mempool =
      ((block.body.txnIds.map maskTxnId).foldl (fun mempool _ =>
        mempool.eraseP (isOld block.height)) (markUsed block mempool)).filter
          fun txn => !isUsedUp auths txn := rfl

/-- The transactions that are old, and not in the block. -/
def oldTransactions (block : Block) (mempool : List Transaction) : ℕ :=
  mempool.countP fun txn =>
    decide (txn.id ∉ block.body.txnIds.map maskTxnId) && isOld block.height txn

theorem countP_markUsed (block : Block) (mempool : List Transaction) :
    (markUsed block mempool).countP (isOld block.height) = oldTransactions block mempool := by
  unfold markUsed oldTransactions
  rw [List.countP_map]
  congr 1
  funext txn
  rw [Function.comp_apply]
  split_ifs with hused
  · -- the height of the block is not two below itself
    have hnew : isOld block.height { txn with blockHeight := block.height } = false := by
      simp [isOld]
    simp [hnew, hused]
  · simp [hused]

/-- **A mempool that is cleaned up**, after a commit of a block: nothing is left that is old or
used up, and everything else is. -/
structure CleanedUp (block : Block) (before : List Transaction) (q : Plugin D) : Prop where
  old : ∀ txn ∈ q.mempool, ¬(0 < txn.blockHeight ∧ txn.blockHeight ≤ block.height - 2)
  unused : ∀ txn ∈ q.mempool, txn.blockHeight = 0 → ∀ auth ∈ q.core.authorizations,
    auth.nodeId = txn.nodeId → auth.lastNonce < txn.nonce
  others : ((markUsed block before).filter fun txn =>
    !isOld block.height txn && !isUsedUp q.core.authorizations txn).Sublist q.mempool
  added : q.mempool.Sublist (markUsed block before)

theorem isUsedUp_eq_false {auths : List NodeAuth} {txn : Transaction}
    (h : isUsedUp auths txn = false) (hunused : txn.blockHeight = 0) {auth : NodeAuth}
    (hauth : auth ∈ auths) (hid : auth.nodeId = txn.nodeId) : auth.lastNonce < txn.nonce := by
  unfold isUsedUp at h
  rw [hunused, beq_self_eq_true, Bool.true_and, List.any_eq_false] at h
  simpa [hid] using h auth hauth

/-- What is left of the mempool, but for what is old. -/
theorem updateMempool_others (auths : List NodeAuth) (block : Block) (mempool : List Transaction) :
    ((markUsed block mempool).filter fun txn =>
      !isOld block.height txn && !isUsedUp auths txn).Sublist
        (updateMempool auths block mempool) := by
  rw [updateMempool_eq]
  have hothers := filter_foldl_eraseP (isOld block.height) (block.body.txnIds.map maskTxnId)
    (markUsed block mempool)
  generalize (block.body.txnIds.map maskTxnId).foldl (fun mempool _ =>
    mempool.eraseP (isOld block.height)) (markUsed block mempool) = erased at hothers ⊢
  have heq : (markUsed block mempool).filter (fun txn =>
      !isOld block.height txn && !isUsedUp auths txn) =
        (erased.filter fun txn => !isUsedUp auths txn).filter
          fun txn => !isOld block.height txn := by
    calc (markUsed block mempool).filter (fun txn =>
          !isOld block.height txn && !isUsedUp auths txn)
      _ = ((markUsed block mempool).filter fun txn => !isOld block.height txn).filter
            fun txn => !isUsedUp auths txn := by
          rw [List.filter_filter]
          exact List.filter_congr fun txn _ => Bool.and_comm _ _
      _ = (erased.filter fun txn => !isOld block.height txn).filter
            fun txn => !isUsedUp auths txn := by rw [hothers]
      _ = _ := by
          rw [List.filter_filter, List.filter_filter]
          exact List.filter_congr fun txn _ => Bool.and_comm _ _
  rw [heq]
  exact List.filter_sublist

/-- The same transaction, maybe used by a block. -/
def Transaction.Copy (txn copy : Transaction) : Prop :=
  ∃ height, copy = { txn with blockHeight := height }

theorem Transaction.Copy.refl (txn : Transaction) : txn.Copy txn := ⟨txn.blockHeight, rfl⟩

theorem Transaction.Copy.trans {txn copy copy' : Transaction} (h : txn.Copy copy)
    (h' : copy.Copy copy') : txn.Copy copy' := by
  obtain ⟨height, rfl⟩ := h
  obtain ⟨height', rfl⟩ := h'
  exact ⟨height', rfl⟩

section
variable {block : Block} {auths : List NodeAuth} {mempool : List Transaction} {txn : Transaction}

theorem exists_copy_markUsed (h : txn ∈ mempool) : ∃ copy ∈ markUsed block mempool,
    txn.Copy copy := by
  refine ⟨_, List.mem_map_of_mem h, ?_⟩
  split_ifs
  · exact ⟨block.height, rfl⟩
  · exact .refl txn

/-- A commit adds nothing to the mempool. -/
theorem copy_of_mem_updateMempool (h : txn ∈ updateMempool auths block mempool) :
    ∃ old ∈ mempool, old.Copy txn := by
  rw [updateMempool_eq] at h
  have hmarked := (foldl_eraseP_sublist _ _ _).subset (List.mem_of_mem_filter h)
  obtain ⟨old, hold, rfl⟩ := List.mem_map.1 hmarked
  refine ⟨old, hold, ?_⟩
  split_ifs
  · exact ⟨block.height, rfl⟩
  · exact .refl old

/-- What is neither old nor used up stays. -/
theorem mem_updateMempool_of_new (h : txn ∈ markUsed block mempool)
    (hnew : isOld block.height txn = false ∧ isUsedUp auths txn = false) :
    txn ∈ updateMempool auths block mempool :=
  (updateMempool_others auths block mempool).subset
    (List.mem_filter.2 ⟨h, by rw [hnew.1, hnew.2]; rfl⟩)

end

/-- What is old is gone exactly when it is not more than the ids of the block. -/
theorem updateMempool_old_iff (auths : List NodeAuth) (block : Block)
    (mempool : List Transaction) :
    (∀ txn ∈ updateMempool auths block mempool, isOld block.height txn = false) ↔
      oldTransactions block mempool ≤ block.body.txnIds.length := by
  have hcount : (updateMempool auths block mempool).countP (isOld block.height) =
      oldTransactions block mempool - block.body.txnIds.length := by
    rw [updateMempool_eq, List.countP_filter]
    have hold : (fun txn => isOld block.height txn && !isUsedUp auths txn) =
        isOld block.height := by
      funext txn
      cases htxn : isOld block.height txn with
      | false => rfl
      | true =>
          have hpos : 0 < txn.blockHeight := by simpa using (Bool.and_eq_true_iff.1 htxn).1
          have hused : isUsedUp auths txn = false := by
            unfold isUsedUp
            rw [beq_eq_false_iff_ne.2 hpos.ne', Bool.false_and]
          rw [hused]
          rfl
    rw [hold, countP_foldl_eraseP, countP_markUsed, List.length_map]
  constructor
  · intro h
    have hzero := List.countP_eq_zero.2 fun txn htxn => by
      simpa using h txn htxn
    omega
  · intro hle txn htxn
    have hzero : (updateMempool auths block mempool).countP (isOld block.height) = 0 := by omega
    simpa using List.countP_eq_zero.1 hzero txn htxn

/-- What `commit_block` leaves, where the core has committed the block. -/
theorem commitBlock_mempool {net : Net D} {p : Plugin D} {block : Block}
    (h : (commitBlock net p block).1 = .ok) :
    (commitBlock net p block).2.mempool =
      updateMempool (commitBlock net p block).2.core.authorizations block p.mempool := by
  have htimer : ∀ q : Plugin D, (startNewBlockTimer net q).mempool = q.mempool ∧
      (startNewBlockTimer net q).core = q.core := by
    intro q
    unfold startNewBlockTimer canCreateBlock
    dsimp only
    split_ifs <;> exact ⟨rfl, rfl⟩
  unfold commitBlock at h ⊢
  dsimp only at h ⊢
  split_ifs at h ⊢ with hrc
  · exact absurd h hrc
  · rw [(htimer _).1, (htimer _).2]
    rfl

/-- **When a commit cleans up the mempool.** -/
theorem commitBlock_cleanedUp_iff (net : Net D) (p : Plugin D) (block : Block)
    (h : (commitBlock net p block).1 = .ok) :
    CleanedUp block p.mempool (commitBlock net p block).2 ↔
      oldTransactions block p.mempool ≤ block.body.txnIds.length := by
  have hmempool := commitBlock_mempool h
  generalize (commitBlock net p block).2 = q at hmempool ⊢
  have hold : ∀ txn, isOld block.height txn = false ↔
      ¬(0 < txn.blockHeight ∧ txn.blockHeight ≤ block.height - 2) := by
    intro txn
    rw [← Bool.not_eq_true, isOld, Bool.and_eq_true, decide_eq_true_eq, decide_eq_true_eq]
  rw [← updateMempool_old_iff q.core.authorizations, ← hmempool]
  constructor
  · exact fun hclean txn htxn => (hold txn).2 (hclean.old txn htxn)
  · intro hgone
    exact {
      old := fun txn htxn => (hold txn).1 (hgone txn htxn)
      unused := fun txn htxn hunused auth hauth hid => by
        rw [hmempool, updateMempool_eq] at htxn
        have hused := (List.mem_filter.1 htxn).2
        rw [Bool.not_eq_true'] at hused
        exact isUsedUp_eq_false hused hunused hauth hid
      others := hmempool ▸ updateMempool_others q.core.authorizations block p.mempool
      added := by
        rw [hmempool, updateMempool_eq]
        exact List.filter_sublist.trans (foldl_eraseP_sublist _ _ _) }

/-- A transaction that the block at a height holds. -/
def usedTransaction (n : ℕ) (height : ℤ) : Transaction :=
  ⟨n, 1, firstTid n, "d".toList, firstLog n, height⟩

/-- A node at height 2 whose mempool has an unused transaction of node 2 and some that the first
block holds, and a block at height 3 that holds the unused one. -/
def nodeWithOld (old : List ℕ) : Plugin Unit × Block :=
  let header : Header := ⟨3, [], [], [], 2, [], plainSign (keyOf 2) []⟩
  let block : Block := ⟨3, header.id, header, ⟨[firstTid 2], []⟩, [], [], 0, fun _ => [],
    fun _ => 0, false⟩
  let p := startNode 1
  let p := { p with
    core := { p.core with blockHeight := 2 }
    currentBlock := some { firstBlock with height := 2 }
    mempool := usedTransaction 2 0 :: old.map fun n => usedTransaction n 1
    newBlocks := [block] }
  ((verifyBlock plainNet p block).2, block)

/-- A block that holds one transaction makes room for one. -/
theorem commitBlock_cleanedUp_iff_one :
    let s := nodeWithOld [3]
    CleanedUp s.2 s.1.mempool (commitBlock plainNet s.1 s.2).2 :=
  (commitBlock_cleanedUp_iff plainNet (nodeWithOld [3]).1 (nodeWithOld [3]).2
    (by decide +kernel)).2 (by decide +kernel)

/-- **Old transactions can stay.**  Two transactions are in the block at height 1, the block at
height 3 holds one, and one of the two is left. -/
theorem commitBlock_leaves_old :
    let s := nodeWithOld [3, 1]
    let r := commitBlock plainNet s.1 s.2
    r.1 = .ok ∧ s.2.height = 3 ∧
      (r.2.mempool.map fun txn => (txn.nodeId, txn.blockHeight)) = [(2, 3), (1, 1)] ∧
      ¬ CleanedUp s.2 s.1.mempool r.2 := by
  have hleft : ((commitBlock plainNet (nodeWithOld [3, 1]).1 (nodeWithOld [3, 1]).2).2.mempool.map
      fun txn => (txn.nodeId, txn.blockHeight)) = [(2, 3), (1, 1)] := by decide +kernel
  refine ⟨by decide +kernel, rfl, hleft, fun h => ?_⟩
  obtain ⟨txn, htxn, heq⟩ := List.mem_map.1 (hleft ▸ (by simp) :
    ((1, 1) : ℤ × ℤ) ∈ (commitBlock plainNet (nodeWithOld [3, 1]).1
      (nodeWithOld [3, 1]).2).2.mempool.map fun txn => (txn.nodeId, txn.blockHeight))
  have hheight : txn.blockHeight = 1 := congrArg Prod.snd heq
  have hthree : (nodeWithOld [3, 1]).2.height = 3 := rfl
  exact h.old txn htxn (by rw [hheight, hthree]; decide)

end NoLeader
end AergoLite
