/-
# The nonces of a created block

`create_new_block` passes over the mempool again after each transaction that it executes.
The passes end (`includeTransactions_fuel`), and what they execute are, for each node, the
nonces that follow its last one (`executed_follows`).  But a transaction that is to be tried
again (`SQLITE_BUSY`) counts as executed and is not in the list of the block.  So the list has
no gap exactly when no such transaction is followed by one of its node that is in the list
(`createNewBlock_consecutive_iff`).
-/

import AergoLite.NoLeader.Replay

namespace AergoLite
namespace NoLeader

open AergoLite.Core

variable {D : Type} {net : Net D}

/-! ## The passes -/

/-- The id that a transaction has in the list of the block, by the result of its execution. -/
def listedId (e : Transaction × Rc) : BitVec 64 :=
  if e.2 = .ok then buildTransactionId e.1.nodeId e.1.nonce
  else buildTransactionId e.1.nodeId e.1.nonce ||| failedFlag

/-- The core after the transaction that a pass includes. -/
structure Included (nonces : List (ℤ × ℤ)) (mempool : List Transaction) (core core' : Aergolite D)
    (txn : Transaction) (rc : Rc) : Prop where
  mem : txn ∈ mempool
  unused : txn.blockHeight = 0
  next : isNextNonce nonces txn.nodeId txn.nonce = true
  saved : core'.saved = core.saved
  txnIds : core'.txnIds =
    if rc = .busy then core.txnIds else core.txnIds.map (· ++ [listedId (txn, rc)])

/-- The outcomes of a pass. -/
inductive PassCases (net : Net D) (nonces : List (ℤ × ℤ)) (mempool : List Transaction)
    (core : Aergolite D) : Option Transaction × Aergolite D → Option Rc → Prop
  | nothing {core' : Aergolite D} (saved : core'.saved = core.saved)
      (txnIds : core'.txnIds = core.txnIds) : PassCases net nonces mempool core (none, core') none
  | one {core' : Aergolite D} {txn : Transaction} {rc : Rc}
      (included : Included nonces mempool core core' txn rc) :
      PassCases net nonces mempool core (some txn, core') (some rc)

/-- What is in the list of the block after a transaction. -/
theorem txnIds_execute (net : Net D) (core : Aergolite D) (txn : Transaction) :
    let r := aergoliteExecuteTransaction net.toEnv core txn.nodeId txn.nonce txn.log
    r.2.saved = core.saved ∧ r.2.txnIds =
      if r.1 = .busy ∨ r.1 = .perm then core.txnIds
      else core.txnIds.map (· ++ [listedId (txn, r.1)]) := by
  have houtcome := executeTransaction_outcome net.toEnv core txn.nodeId txn.nonce txn.log
  dsimp only
  generalize aergoliteExecuteTransaction net.toEnv core txn.nodeId txn.nonce txn.log = r
    at houtcome ⊢
  cases houtcome with
  | executed _ => exact ⟨rfl, by simp [listedId]⟩
  | refused again _ => exact ⟨rfl, by simp [again]⟩
  | failed _ counts _ => exact ⟨rfl, by simp [listedId, counts]⟩

/-- **What a pass does.** -/
theorem includeNext_cases (nonces : List (ℤ × ℤ)) (mempool : List Transaction)
    (core : Aergolite D) : PassCases net nonces mempool core
      (includeNext net nonces mempool core) (passResult net nonces mempool core) := by
  induction mempool generalizing core with
  | nil => exact .nothing rfl rfl
  | cons txn txns ih =>
      have hcons : ∀ {c : Aergolite D} {r : Option Transaction × Aergolite D} {rc : Option Rc},
          c.saved = core.saved → c.txnIds = core.txnIds → PassCases net nonces txns c r rc →
          PassCases net nonces (txn :: txns) core r rc := by
        intro c r rc hsaved htxns hr
        cases hr with
        | nothing saved txnIds => exact .nothing (saved.trans hsaved) (txnIds.trans htxns)
        | one h =>
            exact .one ⟨List.mem_cons_of_mem _ h.mem, h.unused, h.next, h.saved.trans hsaved,
              htxns ▸ h.txnIds⟩
      rw [includeNext, passResult]
      by_cases hchosen : txn.blockHeight = 0 ∧ isNextNonce nonces txn.nodeId txn.nonce = true
      · obtain ⟨hsaved, htxns⟩ := txnIds_execute net core txn
        rw [if_pos hchosen, if_pos hchosen]
        dsimp only at hsaved htxns ⊢
        split_ifs with hperm
        · rw [if_pos (.inr hperm)] at htxns
          exact hcons hsaved htxns (ih _)
        · simp only [hperm, or_false] at htxns
          exact .one ⟨List.mem_cons_self, hchosen.1, hchosen.2, hsaved, htxns⟩
      · rw [if_neg hchosen, if_neg hchosen]
        exact hcons rfl rfl (ih core)

/-! ## The end of the passes -/

/-- The unused transactions. -/
def unused (mempool : List Transaction) : ℕ := mempool.countP fun txn => txn.blockHeight == 0

/-- The transaction that is included is not unused any more. -/
theorem unused_markIncluded {txn : Transaction} {mempool : List Transaction}
    (hmem : txn ∈ mempool) (hunused : txn.blockHeight = 0) :
    unused (markIncluded txn mempool) < unused mempool := by
  have hle : ∀ l : List Transaction, unused (markIncluded txn l) ≤ unused l := by
    intro l
    unfold unused markIncluded
    rw [List.countP_map]
    refine List.countP_mono_left fun other _ h => ?_
    simp only [Function.comp_apply, beq_iff_eq] at h ⊢
    split_ifs at h
    · exact absurd h (show ¬(-1 : ℤ) = 0 by decide)
    · exact h
  obtain ⟨before, after, rfl⟩ := List.append_of_mem hmem
  have hbefore := hle before
  have hafter := hle after
  simp only [unused, markIncluded, List.map_append, List.map_cons, List.countP_append,
    List.countP_cons] at hbefore hafter ⊢
  simp only [and_self, ↓reduceIte, beq_iff_eq, hunused,
    if_neg (show ¬(-1 : ℤ) = 0 by decide)]
  omega

/-- Fuel for as many passes as there are unused transactions is enough. -/
theorem includeTransactions_succ {fuel : ℕ} (nonces : List (ℤ × ℤ)) {mempool : List Transaction}
    (count : ℕ) (core : Aergolite D) (hfuel : unused mempool ≤ fuel) :
    includeTransactions net (fuel + 1) nonces mempool count core =
      includeTransactions net fuel nonces mempool count core := by
  induction fuel generalizing nonces mempool count core with
  | zero =>
      have hnone : ∀ (l : List Transaction), unused l = 0 → includeNext net nonces l core =
          (none, core) := by
        intro l
        induction l with
        | nil => exact fun _ => rfl
        | cons txn txns ih =>
            intro h
            have htxn : txn.blockHeight ≠ 0 := fun h0 => by simp [unused, h0] at h
            rw [includeNext, if_neg fun hchosen => htxn hchosen.1]
            exact ih (by simpa [unused, htxn] using h)
      unfold includeTransactions
      rw [hnone mempool (by omega)]
  | succ fuel ih =>
      have hcases := @includeNext_cases D net nonces mempool core
      unfold includeTransactions
      generalize includeNext net nonces mempool core = r at hcases ⊢
      generalize passResult net nonces mempool core = rc at hcases
      cases hcases with
      | nothing => rfl
      | one h =>
          have hlt := unused_markIncluded h.mem h.unused
          exact ih _ _ _ (by omega)

theorem includeTransactions_fuel {fuel : ℕ} (nonces : List (ℤ × ℤ)) {mempool : List Transaction}
    (count : ℕ) (core : Aergolite D) (hfuel : mempool.length ≤ fuel) :
    includeTransactions net fuel nonces mempool count core =
      includeTransactions net mempool.length nonces mempool count core := by
  induction fuel, hfuel using Nat.le_induction with
  | base => rfl
  | succ fuel hfuel ih =>
      rw [includeTransactions_succ nonces count core (List.countP_le_length.trans hfuel), ih]

/-! ## The array -/

/-- The nonce the array has for a node, `0` if it has none. -/
def nonceIn (nonces : List (ℤ × ℤ)) (nodeId : ℤ) : ℤ :=
  match nonces.find? fun item => item.1 == nodeId with
  | none => 0
  | some item => item.2

/-- The last nonce of a node in the list of authorizations; if the node is in it twice,
that of the later entry. -/
def listedNonce (auths : List NodeAuth) (nodeId : ℤ) : ℤ :=
  auths.foldl (fun nonce auth => if auth.nodeId = nodeId then auth.lastNonce else nonce) 0

theorem nonceIn_of_mem {nonces : List (ℤ × ℤ)} (h : (nonces.map Prod.fst).Nodup)
    {item : ℤ × ℤ} (hitem : item ∈ nonces) : nonceIn nonces item.1 = item.2 := by
  unfold nonceIn
  cases hfind : nonces.find? fun other => other.1 == item.1 with
  | none => simpa using List.find?_eq_none.1 hfind item hitem
  | some other =>
      have hother : other.1 = item.1 := by simpa using List.find?_some hfind
      rw [List.inj_on_of_nodup_map h (List.mem_of_find?_eq_some hfind) hitem hother]

theorem nonceIn_of_not_mem {nonces : List (ℤ × ℤ)} {nodeId : ℤ}
    (h : ∀ item ∈ nonces, item.1 ≠ nodeId) : nonceIn nonces nodeId = 0 := by
  unfold nonceIn
  rw [List.find?_eq_none.2 fun item hitem => by simpa using h item hitem]

/-- The next nonce follows the one in the array. -/
theorem isNextNonce_iff_nonceIn {nonces : List (ℤ × ℤ)} (h : (nonces.map Prod.fst).Nodup)
    {nodeId nonce : ℤ} :
    isNextNonce nonces nodeId nonce = true ↔ nonce = nonceIn nonces nodeId + 1 := by
  rw [isNextNonce_iff]
  by_cases hknown : ∃ item ∈ nonces, item.1 = nodeId
  · obtain ⟨item, hitem, rfl⟩ := hknown
    rw [nonceIn_of_mem h hitem]
    constructor
    · rintro (⟨other, hother, hid, hnonce⟩ | ⟨hnone, -⟩)
      · rwa [List.inj_on_of_nodup_map h hother hitem hid] at hnonce
      · exact absurd rfl (hnone item hitem)
    · exact fun hnonce => .inl ⟨item, hitem, rfl, hnonce⟩
  · have hnone : ∀ item ∈ nonces, item.1 ≠ nodeId := fun item hitem hid =>
      hknown ⟨item, hitem, hid⟩
    rw [nonceIn_of_not_mem hnone]
    constructor
    · rintro (⟨item, hitem, hid, -⟩ | ⟨-, hnonce⟩)
      · exact absurd hid (hnone item hitem)
      · exact hnonce
    · exact fun hnonce => .inr ⟨hnone, hnonce⟩

theorem nodup_updateLastNonceArray {nonces : List (ℤ × ℤ)} (h : (nonces.map Prod.fst).Nodup)
    (nodeId nonce : ℤ) : ((updateLastNonceArray nodeId nonce nonces).map Prod.fst).Nodup := by
  unfold updateLastNonceArray
  split_ifs with hany
  · rw [List.map_map]
    have hsame : (Prod.fst ∘ fun item : ℤ × ℤ =>
        if item.1 = nodeId then (nodeId, nonce) else item) = Prod.fst := by
      funext item
      simp only [Function.comp_apply]
      split_ifs with hid
      · exact hid.symm
      · rfl
    rwa [hsame]
  · rw [List.map_append, List.map_singleton]
    refine h.append (List.nodup_singleton _) (List.disjoint_singleton.2 fun hmem => ?_)
    obtain ⟨item, hitem, hid⟩ := List.mem_map.1 hmem
    exact hany (List.any_eq_true.2 ⟨item, hitem, by simpa using hid⟩)

theorem nonceIn_update {nonces : List (ℤ × ℤ)} (h : (nonces.map Prod.fst).Nodup)
    (nodeId nonce : ℤ) : nonceIn (updateLastNonceArray nodeId nonce nonces) =
      Function.update (nonceIn nonces) nodeId nonce := by
  have hnodup := nodup_updateLastNonceArray h nodeId nonce
  funext id
  by_cases hid : id = nodeId
  · subst hid
    rw [Function.update_self]
    exact nonceIn_of_mem hnodup (mem_updateLastNonceArray.2 (.inl rfl))
  · rw [Function.update_of_ne hid]
    by_cases hknown : ∃ item ∈ nonces, item.1 = id
    · obtain ⟨item, hitem, rfl⟩ := hknown
      rw [nonceIn_of_mem h hitem]
      exact nonceIn_of_mem hnodup (mem_updateLastNonceArray.2 (.inr ⟨hitem, hid⟩))
    · have hnone : ∀ item ∈ nonces, item.1 ≠ id := fun item hitem h => hknown ⟨item, hitem, h⟩
      rw [nonceIn_of_not_mem hnone]
      refine nonceIn_of_not_mem fun item hitem => ?_
      rcases mem_updateLastNonceArray.1 hitem with rfl | ⟨hmem, -⟩
      · exact fun h => hid h.symm
      · exact hnone item hmem

/-- **The array that is built** has the last nonce of each node with unused transactions. -/
theorem nonceIn_buildLastNonceArray (p : Plugin D) :
    ((buildLastNonceArray p).map Prod.fst).Nodup ∧
    ∀ txn ∈ p.mempool, txn.blockHeight = 0 → nonceIn (buildLastNonceArray p) txn.nodeId =
      listedNonce p.core.authorizations txn.nodeId := by
  have hfold : ∀ (auths : List NodeAuth) (nonces : List (ℤ × ℤ)), (nonces.map Prod.fst).Nodup →
      let r := auths.foldl (fun nonces auth =>
        if p.mempool.any fun txn => txn.nodeId == auth.nodeId && txn.blockHeight == 0 then
          updateLastNonceArray auth.nodeId auth.lastNonce nonces
        else nonces) nonces
      (r.map Prod.fst).Nodup ∧ ∀ txn ∈ p.mempool, txn.blockHeight = 0 →
        nonceIn r txn.nodeId = auths.foldl (fun nonce auth =>
          if auth.nodeId = txn.nodeId then auth.lastNonce else nonce)
            (nonceIn nonces txn.nodeId) := by
    intro auths
    induction auths with
    | nil => exact fun nonces h => ⟨h, fun _ _ _ => rfl⟩
    | cons auth auths ih =>
        intro nonces h
        rw [List.foldl_cons]
        split_ifs with hany
        · obtain ⟨hnodup, hnonce⟩ := ih _ (nodup_updateLastNonceArray h auth.nodeId auth.lastNonce)
          refine ⟨hnodup, fun txn htxn h0 => (hnonce txn htxn h0).trans ?_⟩
          rw [List.foldl_cons, nonceIn_update h, Function.update_apply]
          simp only [eq_comm]
        · obtain ⟨hnodup, hnonce⟩ := ih _ h
          refine ⟨hnodup, fun txn htxn h0 => (hnonce txn htxn h0).trans ?_⟩
          have hid : auth.nodeId ≠ txn.nodeId := fun hid =>
            hany (List.any_eq_true.2 ⟨txn, htxn, by simp [hid, h0]⟩)
          rw [List.foldl_cons, if_neg hid]
  exact hfold p.core.authorizations [] (by simp)

/-! ## What is executed -/

/-- The transactions that the passes execute, with their results, without those that are
refused. -/
def executed (net : Net D) :
    ℕ → List (ℤ × ℤ) → List Transaction → Aergolite D → List (Transaction × Rc)
  | 0, _, _, _ => []
  | fuel + 1, nonces, mempool, core =>
    match includeNext net nonces mempool core, passResult net nonces mempool core with
    | (some txn, core), some rc =>
      (txn, rc) :: executed net fuel (updateLastNonceArray txn.nodeId txn.nonce nonces)
        (markIncluded txn mempool) core
    | _, _ => []

/-- The node and the nonce of a transaction that is executed. -/
def entry (e : Transaction × Rc) : ℤ × ℤ := (e.1.nodeId, e.1.nonce)

/-- It is not to be tried again. -/
def counted (e : Transaction × Rc) : Bool := e.2 ≠ .busy

/-- **What the passes execute** follows the nonces of the array, and what is counted is in
the list of the block. -/
theorem executed_spec (fuel : ℕ) {nonces : List (ℤ × ℤ)} (h : (nonces.map Prod.fst).Nodup)
    (mempool : List Transaction) (count : ℕ) (core : Aergolite D) :
    let es := executed net fuel nonces mempool core
    let r := includeTransactions net fuel nonces mempool count core
    Ledger.Follows (nonceIn nonces) (es.map entry) ∧ r.2.saved = core.saved ∧
      r.2.txnIds = core.txnIds.map (· ++ (es.filter counted).map listedId) ∧
      ∀ e ∈ es, ∃ txn ∈ mempool, txn.blockHeight = 0 ∧ txn.nodeId = e.1.nodeId := by
  induction fuel generalizing nonces mempool count core with
  | zero => exact ⟨trivial, rfl, by simp [executed, includeTransactions], by simp [executed]⟩
  | succ fuel ih =>
      have hcases := @includeNext_cases D net nonces mempool core
      unfold executed includeTransactions
      generalize includeNext net nonces mempool core = r at hcases ⊢
      generalize passResult net nonces mempool core = rc at hcases ⊢
      cases hcases with
      | nothing saved txnIds => exact ⟨trivial, saved, by simp [txnIds], by simp⟩
      | @one core' txn rc included =>
          have hnonce := (isNextNonce_iff_nonceIn h).1 included.next
          obtain ⟨hfollows, hsaved, htxns, hmem⟩ :=
            ih (nodup_updateLastNonceArray h txn.nodeId txn.nonce) (markIncluded txn mempool)
              (count + 1) core'
          rw [nonceIn_update h] at hfollows
          dsimp only
          refine ⟨⟨hnonce, hfollows⟩, hsaved.trans included.saved, ?_, ?_⟩
          · rw [htxns, included.txnIds]
            split_ifs with hbusy
            · rw [List.filter_cons_of_neg (by simp [counted, hbusy])]
            · rw [List.filter_cons_of_pos (by simp [counted, hbusy]), Option.map_map]
              simp [Function.comp_def]
          · intro e he
            rcases List.mem_cons.1 he with rfl | he
            · exact ⟨txn, included.mem, included.unused, rfl⟩
            · obtain ⟨other, hother, h0, hid⟩ := hmem e he
              obtain ⟨before, hbefore, hnode, -, -, hunused⟩ := mem_markIncluded hother
              exact ⟨before, hbefore, hunused h0, hnode ▸ hid⟩

/-! ## The block -/

/-- What `create_new_block` executes. -/
def executedBy (net : Net D) (p : Plugin D) : List (Transaction × Rc) :=
  executed net p.mempool.length (buildLastNonceArray p) p.mempool (aergoliteBeginBlock p.core).2

/-- What it executes follows the last nonces of the nodes. -/
theorem executedBy_follows (net : Net D) (p : Plugin D) :
    Ledger.Follows (listedNonce p.core.authorizations) ((executedBy net p).map entry) := by
  obtain ⟨hnodup, hnonce⟩ := nonceIn_buildLastNonceArray p
  obtain ⟨hfollows, -, -, hmem⟩ := @executed_spec D net p.mempool.length _ hnodup p.mempool 0
    (aergoliteBeginBlock p.core).2
  refine (Ledger.follows_congr fun e he => ?_).1 hfollows
  obtain ⟨ran, hran, rfl⟩ := List.mem_map.1 he
  obtain ⟨txn, htxn, h0, hid⟩ := hmem ran hran
  rw [show (entry ran).1 = txn.nodeId from hid.symm]
  exact hnonce txn htxn h0

/-- The list of the block. -/
theorem txnIds_createNewBlock {timestamp : ℤ} {p q : Plugin D} {block : Block}
    (created : createNewBlock net timestamp p = (some block, q)) :
    block.body.txnIds = ((executedBy net p).filter counted).map listedId := by
  obtain ⟨hnodup, -⟩ := nonceIn_buildLastNonceArray p
  have hspec := @executed_spec D net p.mempool.length _ hnodup p.mempool 0
    (aergoliteBeginBlock p.core).2
  have hbegin := beginBlock_outcome p.core
  unfold createNewBlock at created
  unfold executedBy
  dsimp only at created hspec
  generalize aergoliteBeginBlock p.core = begun at hbegin hspec created ⊢
  generalize executed net p.mempool.length (buildLastNonceArray p) p.mempool begun.2 = es
    at hspec ⊢
  generalize includeTransactions net p.mempool.length (buildLastNonceArray p) p.mempool 0 begun.2 =
    included at hspec created
  split_ifs at created with hfails hcount
  · simp at created
  · simp at created
  have houtcome := createBlock_outcome net.toEnv timestamp included.2
  generalize aergoliteCreateBlock net.toEnv timestamp included.2 = made at houtcome created
  have hopened : begun.2.txnIds = some [] := by
    cases hbegin with
    | busy => exact absurd Rc.noConfusion hfails
    | failed fails => exact absurd fails hfails
    | opened => rfl
  cases houtcome with
  | misuse => simp at created
  | failed => simp at created
  | created txnIds =>
      obtain ⟨hblock, -⟩ := Prod.mk.inj created
      obtain rfl := Option.some.inj hblock
      have hlist := hspec.2.2.1
      rw [hopened, txnIds] at hlist
      simpa using hlist

/-- No transaction that is to be tried again is followed by one of its node that is in the
list. -/
def RetriedLast (es : List (Transaction × Rc)) : Prop :=
  es.Pairwise fun a b => a.1.nodeId = b.1.nodeId → counted b = true → counted a = true

/-- The nonces of a node in the list of the block. -/
def listedNonces (net : Net D) (p : Plugin D) (nodeId : ℤ) : List ℤ :=
  (((executedBy net p).filter counted).filter fun e => e.1.nodeId = nodeId).map fun e => e.1.nonce

theorem listedNonces_eq (net : Net D) (p : Plugin D) (nodeId : ℤ) :
    listedNonces net p nodeId =
      Ledger.later nodeId (((executedBy net p).filter counted).map entry) := by
  unfold listedNonces Ledger.later
  rw [List.filter_map, List.map_map]
  rfl

/-- **The nonces of a created block.**  The passes end, the list of the block is that of the
transactions that count, and the nonces of each node in it are the next ones exactly when no
transaction that is to be tried again is followed by one of its node that counts. -/
theorem createNewBlock_consecutive_iff (net : Net D) (timestamp : ℤ) (p : Plugin D) :
    (∀ fuel nonces core, p.mempool.length ≤ fuel →
      includeTransactions net fuel nonces p.mempool 0 core =
        includeTransactions net p.mempool.length nonces p.mempool 0 core) ∧
    ∀ block q, createNewBlock net timestamp p = (some block, q) →
      block.body.txnIds = ((executedBy net p).filter counted).map listedId ∧
      ((∀ nodeId, listedNonces net p nodeId =
          (List.range (listedNonces net p nodeId).length).map fun i : ℕ =>
            listedNonce p.core.authorizations nodeId + 1 + i) ↔
        RetriedLast (executedBy net p)) := by
  refine ⟨fun fuel nonces core hfuel => includeTransactions_fuel nonces 0 core hfuel,
    fun block q created => ⟨txnIds_createNewBlock created, ?_⟩⟩
  simp only [listedNonces_eq]
  rw [← Ledger.follows_iff]
  exact Ledger.follows_filter_iff (executedBy_follows net p)

instance (es : List (Transaction × Rc)) : Decidable (RetriedLast es) :=
  inferInstanceAs (Decidable (es.Pairwise _))

/-- The first two transactions of node 3. -/
def firstTwo : List Transaction :=
  [1, 2].map fun nonce => ⟨3, nonce, buildTransactionId 3 nonce, [], [.string "CALL a()".toList], 0⟩

/-- A node with these transactions, after the results of some commands. -/
def nodeWithFirstTwo (faults : List Rc) : Plugin Unit :=
  let p := startNode 1
  { p with
    core := { p.core with db := { p.core.db with faults } }
    mempool := firstTwo }

/-- The list of the block that is created. -/
def createdIds (faults : List Rc) : Option (List (BitVec 64)) :=
  (createNewBlock plainNet 0 (nodeWithFirstTwo faults)).1.map fun block => block.body.txnIds

/-- Both are in the list. -/
theorem createNewBlock_consecutive_firstTwo : ∃ block q,
    createNewBlock plainNet 0 (nodeWithFirstTwo []) = (some block, q) ∧
    block.body.txnIds = [buildTransactionId 3 1, buildTransactionId 3 2] ∧
    ∀ nodeId, listedNonces plainNet (nodeWithFirstTwo []) nodeId =
      (List.range (listedNonces plainNet (nodeWithFirstTwo []) nodeId).length).map fun i : ℕ =>
        listedNonce (nodeWithFirstTwo []).core.authorizations nodeId + 1 + i := by
  have hids : createdIds [] = some [buildTransactionId 3 1, buildTransactionId 3 2] := by
    decide +kernel
  obtain ⟨block, hblock, hlist⟩ := Option.map_eq_some_iff.1 hids
  have hcreated : createNewBlock plainNet 0 (nodeWithFirstTwo []) =
      (some block, (createNewBlock plainNet 0 (nodeWithFirstTwo [])).2) := Prod.ext hblock rfl
  refine ⟨block, _, hcreated, hlist, ?_⟩
  exact ((createNewBlock_consecutive_iff plainNet 0 _).2 block _ hcreated).2.2 (by decide +kernel)

/-- **A gap.**  The savepoint of the first transaction fails, and the block has the second
only. -/
theorem createNewBlock_gap :
    createdIds [.ok, .ok, .busy] = some [buildTransactionId 3 2] ∧
    listedNonces plainNet (nodeWithFirstTwo [.ok, .ok, .busy]) 3 = [2] ∧
    listedNonces plainNet (nodeWithFirstTwo [.ok, .ok, .busy]) 3 ≠
      (List.range 1).map fun i : ℕ =>
        listedNonce (nodeWithFirstTwo [.ok, .ok, .busy]).core.authorizations 3 + 1 + i := by
  decide +kernel

end NoLeader
end AergoLite
