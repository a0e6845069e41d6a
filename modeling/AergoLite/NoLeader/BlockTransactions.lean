/-
# The transactions of a block that has arrived

`on_requested_block` (`requests.c`) asks for each transaction of the block with a call of
`request_transaction`, and writes the height of the block and the position of the transaction to
the request that is returned.  None is returned where a request with the id is running, as it is
for the second of two equal ids, or where there is no memory; the height is then written to a
null pointer.  And a request that no peer can be sent is closed before it is returned.

`NoLeader.BlockRequests` takes the requests to be sent wherever a peer is connected.  Here a call
has outcomes of its own, the allocation and those of the sends, and `pairsRequests_iff` says when
every id ends with exactly one request that has its height and position.
-/

import AergoLite.NoLeader.RequestLoop
import AergoLite.NoLeader.TransactionRequests

namespace AergoLite
namespace NoLeader

open AergoLite.Core
open Loops
open SyncNode (Attempt selectNode selectNode_eq_some selectNode_none_iff)

/-! ## Asking for a transaction -/

/-- A round of `request_transaction_next`, with the number of sends that were tried and the list
of contacted nodes.  The result says whether the request stays. -/
def transactionRound (attempts : ℕ → Attempt) (peers : List Peer) (s : ℕ × List ℤ) :
    Turn (ℕ × List ℤ) Bool :=
  match selectNode (attempts s.1).num s.2 peers with
  | none => .ends false
  | some nodeId =>
    if (attempts s.1).sent then .ends true else .again (s.1 + 1, s.2 ++ [nodeId])

/-- `request_transaction_next`: each round contacts another peer. -/
def requestTransactionNext (attempts : ℕ → Attempt) (peers : List Peer) : Option Bool :=
  run (transactionRound attempts peers) (peers.length + 1) (0, [])

/-- The outcomes of a call of `request_transaction`. -/
structure RequestOutcome where
  allocated : Bool
  attempts : ℕ → Attempt

/-- `request_transaction`, and what `on_requested_block` writes to the request.  It is undefined
where no request is returned. -/
def HistoryNode.requestTransactionFrom (peers : List Peer) (o : RequestOutcome) (n : HistoryNode)
    (tid : BitVec 64) (height : ℤ) (seq : ℕ) : Option HistoryNode :=
  if n.requests.any fun request => request.transactionId == tid then none
  else if !o.allocated then none
  else (requestTransactionNext o.attempts peers).map fun stays =>
    if stays then n.setRequests (n.requests ++ [⟨0, tid, height, seq⟩]) else n

/-- The loop of `on_requested_block` over the ids of the transactions. -/
def HistoryNode.requestTransactionsFrom (peers : List Peer) (outcomes : ℕ → RequestOutcome)
    (height : ℤ) : List (BitVec 64) → ℕ → HistoryNode → Option HistoryNode
  | [], _, n => some n
  | tid :: tids, seq, n =>
    (n.requestTransactionFrom peers (outcomes seq) (unflagged tid) height (seq + 1)).bind
      (HistoryNode.requestTransactionsFrom peers outcomes height tids (seq + 1))

section
variable {M : Type} (maps : BinnMaps M) (b : BodyReader) (c : Crypto) (roster : Roster)
  (peers : List Peer) (outcomes : ℕ → RequestOutcome)

/-- `on_requested_block`. -/
def HistoryNode.onRequestedBlockFrom (n : HistoryNode) (msg : M) : Option HistoryNode :=
  match readRequestedBlock maps msg with
  | none => some n
  | some (height, header, body, votes) =>
    if !n.requests.any fun request => request.blockHeight == height then some n
    else match n.table.aergoliteSaveBlock b c roster n.inTransaction header body votes with
    | none => none
    | some (.error _) => some n
    | some (.ok table) =>
      (HistoryNode.requestTransactionsFrom peers outcomes height (b.txnIds body) 0
        (n.setTable table)).map fun n =>
          (n.blockArrived height).requestMissingBlocks b c roster height

end

/-! ## The loop over the peers -/

/-- The authorized peers that are not contacted. -/
def remaining (peers : List Peer) (contacted : List ℤ) : Finset ℤ :=
  ((peers.filter fun peer => peer.isAuthorized).map Peer.id).toFinset \ contacted.toFinset

theorem remaining_eq_empty {peers : List Peer} {contacted : List ℤ} :
    remaining peers contacted = ∅ ↔
      ∀ peer ∈ peers, peer.isAuthorized = true → peer.id ∈ contacted := by
  rw [remaining, Finset.sdiff_eq_empty_iff_subset, Finset.subset_iff]
  simp only [List.mem_toFinset, List.mem_map, List.mem_filter]
  grind

/-- A peer that is contacted is one less to contact. -/
theorem card_remaining_append {peers : List Peer} {contacted : List ℤ} {num : ℕ} {nodeId : ℤ}
    (h : selectNode num contacted peers = some nodeId) :
    (remaining peers (contacted ++ [nodeId])).card + 1 = (remaining peers contacted).card := by
  obtain ⟨⟨peer, hpeer, hid, hauthorized⟩, hnew⟩ := selectNode_eq_some h
  have hmem : nodeId ∈ remaining peers contacted := by
    rw [remaining, Finset.mem_sdiff, List.mem_toFinset, List.mem_toFinset]
    exact ⟨hid ▸ List.mem_map_of_mem (List.mem_filter.2 ⟨hpeer, hauthorized⟩), hnew⟩
  have herase : remaining peers (contacted ++ [nodeId]) =
      (remaining peers contacted).erase nodeId := by
    ext other
    rw [Finset.mem_erase, remaining, remaining]
    simp only [Finset.mem_sdiff, List.mem_toFinset, List.mem_append, List.mem_singleton, not_or]
    tauto
  have hpos := Finset.card_pos.2 ⟨nodeId, hmem⟩
  rw [herase, Finset.card_erase_of_mem hmem]
  omega

/-- One of the sends succeeds before every authorized peer is contacted. -/
def ReachesPeer (peers : List Peer) (o : RequestOutcome) : Prop :=
  ∃ k < (remaining peers []).card, (o.attempts k).sent = true

instance (peers : List Peer) (o : RequestOutcome) : Decidable (ReachesPeer peers o) := by
  unfold ReachesPeer
  infer_instance

/-- **The loop over the peers ends**, and the request stays where one of the sends succeeds. -/
theorem run_transactionRound (attempts : ℕ → Attempt) (peers : List Peer) {fuel k : ℕ}
    {contacted : List ℤ} (hfuel : (remaining peers contacted).card < fuel) :
    run (transactionRound attempts peers) fuel (k, contacted) =
      some (decide (∃ j < (remaining peers contacted).card, (attempts (k + j)).sent = true)) := by
  induction fuel generalizing k contacted with
  | zero => omega
  | succ fuel ih =>
      cases hselect : selectNode (attempts k).num contacted peers with
      | none =>
          have hempty := remaining_eq_empty.2 (selectNode_none_iff.1 hselect)
          have hround : transactionRound attempts peers (k, contacted) = .ends false := by
            unfold transactionRound
            rw [hselect]
          rw [run_ends hround, hempty]
          simp
      | some nodeId =>
          have hcard := card_remaining_append hselect
          by_cases hsent : (attempts k).sent = true
          · have hround : transactionRound attempts peers (k, contacted) = .ends true := by
              unfold transactionRound
              rw [hselect]
              exact if_pos hsent
            rw [run_ends hround]
            refine congrArg some (decide_eq_true ⟨0, by omega, hsent⟩).symm
          · have hround : transactionRound attempts peers (k, contacted) =
                .again (k + 1, contacted ++ [nodeId]) := by
              unfold transactionRound
              rw [hselect]
              exact if_neg hsent
            rw [run_again hround, ih (by omega)]
            refine congrArg some (decide_eq_decide.2 ?_)
            constructor
            · rintro ⟨j, hj, h⟩
              exact ⟨j + 1, by omega, by rwa [show k + (j + 1) = k + 1 + j by omega]⟩
            · rintro ⟨j, hj, h⟩
              cases j with
              | zero => exact absurd h hsent
              | succ j => exact ⟨j, by omega, by rwa [show k + 1 + j = k + (j + 1) by omega]⟩

theorem requestTransactionNext_eq (o : RequestOutcome) (peers : List Peer) :
    requestTransactionNext o.attempts peers = some (decide (ReachesPeer peers o)) := by
  have hcard : (remaining peers []).card ≤ peers.length := by
    rw [remaining, List.toFinset_nil, Finset.sdiff_empty]
    refine (List.toFinset_card_le _).trans ?_
    rw [List.length_map]
    exact List.length_filter_le _ _
  have hrun := @run_transactionRound o.attempts peers (peers.length + 1) 0 [] (by omega)
  simp only [Nat.zero_add] at hrun
  exact hrun

/-- Where memory is not short and a send to the first peer succeeds, this is the function of
`NoLeader.BlockRequests`. -/
theorem requestTransactionFrom_eq {peers : List Peer} {o : RequestOutcome} {n : HistoryNode}
    {tid : BitVec 64} {height : ℤ} {seq : ℕ} (halloc : o.allocated = true)
    (hconnected : n.connected = true ↔ ReachesPeer peers o) :
    n.requestTransactionFrom peers o tid height seq = n.requestTransaction tid height seq := by
  unfold HistoryNode.requestTransactionFrom HistoryNode.requestTransaction
  rw [requestTransactionNext_eq, halloc]
  by_cases hreach : ReachesPeer peers o
  · simp [hreach, hconnected.2 hreach]
  · have hnot : n.connected = false := Bool.eq_false_iff.2 (mt hconnected.1 hreach)
    simp [hreach, hnot]

/-! ## The loop over the transactions -/

section
variable (peers : List Peer) (outcomes : ℕ → RequestOutcome) (height : ℤ)

/-- The requests that stay. -/
def keptRequests : List (BitVec 64) → ℕ → List Request
  | [], _ => []
  | id :: ids, seq =>
    if ReachesPeer peers (outcomes seq) then
      ⟨0, id, height, seq + 1⟩ :: keptRequests ids (seq + 1)
    else keptRequests ids (seq + 1)

/-- Each call returns a request, where requests with some ids are running. -/
def AllReturn : List (BitVec 64) → ℕ → List (BitVec 64) → Prop
  | [], _, _ => True
  | id :: ids, seq, running => id ∉ running ∧ (outcomes seq).allocated = true ∧
    AllReturn ids (seq + 1)
      (if ReachesPeer peers (outcomes seq) then running ++ [id] else running)

/-- Each call is for an id that has no running request and has memory, and it reaches a peer
exactly where it is the last one for its id. -/
def LastReach : List (BitVec 64) → ℕ → List (BitVec 64) → Prop
  | [], _, _ => True
  | id :: ids, seq, running => id ∉ running ∧ (outcomes seq).allocated = true ∧
    (ReachesPeer peers (outcomes seq) ↔ id ∉ ids) ∧ LastReach ids (seq + 1) running

end

section
variable {peers : List Peer} {outcomes : ℕ → RequestOutcome} {height : ℤ}

theorem requestTransactionsFrom_eq (tids : List (BitVec 64)) (seq : ℕ) (n : HistoryNode) :
    (AllReturn peers outcomes (tids.map unflagged) seq (n.requests.map Request.transactionId) →
      HistoryNode.requestTransactionsFrom peers outcomes height tids seq n =
        some (n.setRequests
          (n.requests ++ keptRequests peers outcomes height (tids.map unflagged) seq))) ∧
    (¬AllReturn peers outcomes (tids.map unflagged) seq (n.requests.map Request.transactionId) →
      HistoryNode.requestTransactionsFrom peers outcomes height tids seq n = none) := by
  induction tids generalizing seq n with
  | nil =>
      refine ⟨fun _ => ?_, fun h => absurd trivial h⟩
      simp [HistoryNode.requestTransactionsFrom, keptRequests, HistoryNode.setRequests]
  | cons tid tids ih =>
      have hrunning : (n.requests.any fun request =>
          request.transactionId == unflagged tid) = true ↔
          unflagged tid ∈ n.requests.map Request.transactionId := by
        simp [List.mem_map]
      unfold HistoryNode.requestTransactionsFrom HistoryNode.requestTransactionFrom
      rw [List.map_cons, AllReturn, keptRequests]
      by_cases hrun : unflagged tid ∈ n.requests.map Request.transactionId
      · rw [if_pos (hrunning.2 hrun)]
        exact ⟨fun h => absurd hrun h.1, fun _ => rfl⟩
      · rw [if_neg (mt hrunning.1 hrun)]
        by_cases halloc : (outcomes seq).allocated = true
        · rw [halloc, requestTransactionNext_eq]
          by_cases hreach : ReachesPeer peers (outcomes seq)
          · have hnext := ih (seq + 1) (n.setRequests
              (n.requests ++ [⟨0, unflagged tid, height, seq + 1⟩]))
            simp only [setRequests_requests, List.map_append, List.map_singleton,
              List.append_assoc] at hnext
            simp only [hreach, hrun, not_false_eq_true, true_and, if_true, decide_true,
              Option.map_some, Option.bind_some, Bool.not_true, Bool.false_eq_true, if_false]
            exact hnext
          · simp only [hreach, hrun, not_false_eq_true, true_and, decide_false, if_false,
              Option.map_some, Option.bind_some, Bool.not_true, Bool.false_eq_true]
            exact ih (seq + 1) n
        · simp [halloc]

theorem transactionId_of_mem_kept {ids : List (BitVec 64)} {seq : ℕ} {request : Request}
    (h : request ∈ keptRequests peers outcomes height ids seq) :
    request.blockHeight = 0 ∧ request.height = height ∧ seq < request.seq ∧
      ids[request.seq - seq - 1]? = some request.transactionId := by
  induction ids generalizing seq with
  | nil => exact absurd h List.not_mem_nil
  | cons id ids ih =>
      have hrest : request ∈ keptRequests peers outcomes height ids (seq + 1) →
          request.blockHeight = 0 ∧ request.height = height ∧ seq < request.seq ∧
            (id :: ids)[request.seq - seq - 1]? = some request.transactionId := by
        intro hmem
        obtain ⟨hblock, hheight, hseq, hid⟩ := ih hmem
        refine ⟨hblock, hheight, by omega, ?_⟩
        rwa [show request.seq - seq - 1 = request.seq - (seq + 1) - 1 + 1 by omega,
          List.getElem?_cons_succ]
      unfold keptRequests at h
      split_ifs at h
      · rcases List.mem_cons.1 h with rfl | h
        · exact ⟨rfl, rfl, Nat.lt_succ_self seq, by simp⟩
        · exact hrest h
      · exact hrest h

/-- The requests that stay for an id. -/
def keptFor (peers : List Peer) (outcomes : ℕ → RequestOutcome) (height : ℤ)
    (ids : List (BitVec 64)) (seq : ℕ) (id : BitVec 64) : List Request :=
  (keptRequests peers outcomes height ids seq).filter fun request => request.transactionId == id

theorem keptFor_eq_nil {ids : List (BitVec 64)} {seq : ℕ} {id : BitVec 64} (h : id ∉ ids) :
    keptFor peers outcomes height ids seq id = [] := by
  refine List.filter_eq_nil_iff.2 fun request hrequest heq => h ?_
  have hid := (transactionId_of_mem_kept hrequest).2.2.2
  exact beq_iff_eq.1 heq ▸ List.mem_of_getElem? hid

theorem keptFor_cons (id other : BitVec 64) (ids : List (BitVec 64)) (seq : ℕ) :
    (keptFor peers outcomes height (id :: ids) seq other).length =
      (if ReachesPeer peers (outcomes seq) ∧ id = other then 1 else 0) +
        (keptFor peers outcomes height ids (seq + 1) other).length := by
  unfold keptFor
  rw [keptRequests]
  by_cases hreach : ReachesPeer peers (outcomes seq)
  · by_cases hid : id = other
    · simp [hreach, hid, Nat.add_comm]
    · simp [hreach, hid]
  · simp [hreach]

/-- It matters only which of the ids are running. -/
theorem AllReturn.anti {ids : List (BitVec 64)} {seq : ℕ} {running running' : List (BitVec 64)}
    (h : AllReturn peers outcomes ids seq running)
    (hsub : ∀ id ∈ ids, id ∈ running' → id ∈ running) :
    AllReturn peers outcomes ids seq running' := by
  induction ids generalizing seq running running' with
  | nil => trivial
  | cons id ids ih =>
      obtain ⟨hnew, halloc, hrest⟩ := h
      refine ⟨fun hmem => hnew (hsub id List.mem_cons_self hmem), halloc, ?_⟩
      refine ih hrest fun other hother hmem => ?_
      have hold := hsub other (List.mem_cons_of_mem _ hother)
      split_ifs at hmem ⊢
      · rw [List.mem_append] at hmem ⊢
        exact hmem.imp_left hold
      · exact hold hmem

theorem AllReturn.not_mem {ids : List (BitVec 64)} {seq : ℕ} {running : List (BitVec 64)}
    (h : AllReturn peers outcomes ids seq running) {id : BitVec 64} (hid : id ∈ ids) :
    id ∉ running := by
  induction ids generalizing seq running with
  | nil => exact absurd hid List.not_mem_nil
  | cons first ids ih =>
      rcases List.mem_cons.1 hid with rfl | hid
      · exact h.1
      · have hnot := ih h.2.2 hid
        split_ifs at hnot
        · exact fun hmem => hnot (List.mem_append_left _ hmem)
        · exact hnot

/-- **Where each call returns a request and each id keeps one**: by induction on the ids. -/
theorem allReturn_one_iff (ids : List (BitVec 64)) (seq : ℕ) (running : List (BitVec 64)) :
    (AllReturn peers outcomes ids seq running ∧
      ∀ id ∈ ids, (keptFor peers outcomes height ids seq id).length = 1) ↔
      LastReach peers outcomes ids seq running := by
  induction ids generalizing seq running with
  | nil => exact iff_of_true ⟨trivial, fun _ h => absurd h List.not_mem_nil⟩ trivial
  | cons id ids ih =>
      rw [AllReturn, LastReach, ← ih (seq + 1) running, List.forall_mem_cons]
      simp only [keptFor_cons]
      by_cases hreach : ReachesPeer peers (outcomes seq)
      · -- the request stays, so a second call for the id returns none
        simp only [hreach, true_and, if_true, true_iff]
        constructor
        · rintro ⟨⟨hnew, halloc, hrest⟩, -, hcount⟩
          have hid : id ∉ ids := fun hmem => hrest.not_mem hmem (by simp)
          refine ⟨hnew, halloc, hid, hrest.anti fun other _ hmem => List.mem_append_left _ hmem,
            fun other hother => ?_⟩
          have hne : id ≠ other := fun heq => hid (heq ▸ hother)
          have := hcount other hother
          rw [if_neg hne] at this
          omega
        · rintro ⟨hnew, halloc, hid, hrest, hcount⟩
          have hne : ∀ other ∈ ids, id ≠ other := fun other hother heq => hid (heq ▸ hother)
          refine ⟨⟨hnew, halloc, hrest.anti fun other hother hmem => ?_⟩, ?_,
            fun other hother => ?_⟩
          · rcases List.mem_append.1 hmem with hmem | hmem
            · exact hmem
            · exact absurd (List.mem_singleton.1 hmem).symm (hne other hother)
          · rw [keptFor_eq_nil hid]
            rfl
          · rw [if_neg (hne other hother), hcount other hother]
      · -- the request is closed, so another call has to keep one
        simp only [hreach, false_and, if_false, false_iff, not_not, Nat.zero_add]
        constructor
        · rintro ⟨⟨hnew, halloc, hrest⟩, hone, hcount⟩
          refine ⟨hnew, halloc, ?_, hrest, hcount⟩
          by_contra hid
          rw [keptFor_eq_nil hid] at hone
          exact absurd hone nofun
        · rintro ⟨hnew, halloc, hid, hrest, hcount⟩
          exact ⟨⟨hnew, halloc, hrest⟩, hcount id hid, hcount⟩

end

/-! ## The handler -/

/-- **The requests are paired**: the handler is defined, and for each id there is one request, with
the height of the block, which is in its header, and a position of the id. -/
def PairsRequests (b : BodyReader) (header : Bytes) (ids : List (BitVec 64))
    (result : Option HistoryNode) : Prop :=
  ∃ n read, result = some n ∧ b.header? header = some read ∧
    ∀ id ∈ ids, ∃ position, ids[position]? = some id ∧
      (n.requests.filter fun request => request.transactionId == id) =
        [⟨0, id, read.height, position + 1⟩]

/-- **The calls that pair the requests**: none of the ids has a running request, no memory is
short, and for each id the last call reaches a peer, and no other. -/
def CallsPair (peers : List Peer) (outcomes : ℕ → RequestOutcome) (running ids : List (BitVec 64)) :
    Prop :=
  ∀ i id, ids[i]? = some id → id ∉ running ∧ (outcomes i).allocated = true ∧
    (ReachesPeer peers (outcomes i) ↔ id ∉ ids.drop (i + 1))

theorem lastReach_iff {peers : List Peer} {outcomes : ℕ → RequestOutcome}
    {running ids : List (BitVec 64)} {seq : ℕ} : LastReach peers outcomes ids seq running ↔
      ∀ i id, ids[i]? = some id → id ∉ running ∧ (outcomes (seq + i)).allocated = true ∧
        (ReachesPeer peers (outcomes (seq + i)) ↔ id ∉ ids.drop (i + 1)) := by
  induction ids generalizing seq with
  | nil => exact iff_of_true trivial fun i id h => absurd h (by simp)
  | cons id ids ih =>
      rw [LastReach, ih]
      constructor
      · rintro ⟨hnew, halloc, hreach, hrest⟩ i other hother
        cases i with
        | zero =>
            obtain rfl := Option.some.inj hother
            exact ⟨hnew, halloc, hreach⟩
        | succ i =>
            rw [show seq + (i + 1) = seq + 1 + i by omega]
            exact hrest i other hother
      · intro h
        obtain ⟨hnew, halloc, hreach⟩ := h 0 id rfl
        refine ⟨hnew, halloc, hreach, fun i other hother => ?_⟩
        rw [show seq + 1 + i = seq + (i + 1) by omega]
        exact h (i + 1) other hother

/-- A request with an id, where one stays. -/
theorem keptFor_eq_singleton {peers : List Peer} {outcomes : ℕ → RequestOutcome} {height : ℤ}
    {ids : List (BitVec 64)} {id : BitVec 64} :
    (keptFor peers outcomes height ids 0 id).length = 1 ↔ ∃ position, ids[position]? = some id ∧
      keptFor peers outcomes height ids 0 id = [⟨0, id, height, position + 1⟩] := by
  constructor
  · intro hone
    obtain ⟨request, hrequest⟩ := List.length_eq_one_iff.1 hone
    have hmem : request ∈ keptFor peers outcomes height ids 0 id := by
      rw [hrequest]
      exact List.mem_cons_self
    obtain ⟨hkept, hid⟩ := List.mem_filter.1 hmem
    obtain ⟨hblock, hheight, hseq, hposition⟩ := transactionId_of_mem_kept hkept
    obtain rfl := beq_iff_eq.1 hid
    rw [Nat.sub_zero] at hposition
    refine ⟨request.seq - 1, hposition, ?_⟩
    rw [hrequest, Nat.sub_add_cancel hseq, ← hblock, ← hheight]
  · rintro ⟨position, -, heq⟩
    rw [heq, List.length_singleton]

section
variable {M : Type} {maps : BinnMaps M} {b : BodyReader} {c : Crypto} {roster : Roster}
  {peers : List Peer} {outcomes : ℕ → RequestOutcome}

theorem height_pos_of_read {msg : M} {height : ℤ} {header body votes : Bytes}
    (h : readRequestedBlock maps msg = some (height, header, body, votes)) : 0 < height := by
  unfold readRequestedBlock at h
  simp only [Option.bind_eq_bind, Option.bind_eq_some_iff] at h
  obtain ⟨_, -, _, -, _, -, h⟩ := h
  split_ifs at h with hle
  obtain ⟨rfl, -⟩ := Prod.mk.inj (Option.some.inj h)
  omega

/-- A request for a block has no transaction id. -/
def HistoryNode.BlocksHaveNoId (n : HistoryNode) : Prop :=
  ∀ request ∈ n.requests, request.blockHeight ≠ 0 → request.transactionId = 0

instance (n : HistoryNode) : Decidable n.BlocksHaveNoId := by
  unfold HistoryNode.BlocksHaveNoId
  infer_instance

/-- **What the handler leaves** of an accepted block: for each id, the requests that stay. -/
theorem onRequestedBlockFrom_cases {n : HistoryNode} {msg : M} {height : ℤ}
    {header body votes : Bytes} {table : BlocksTable}
    (hread : readRequestedBlock maps msg = some (height, header, body, votes))
    (hactive : (n.requests.any fun request => request.blockHeight == height) = true)
    (hsave : n.table.aergoliteSaveBlock b c roster n.inTransaction header body votes =
      some (.ok table))
    (hblocks : n.BlocksHaveNoId) :
    (AllReturn peers outcomes ((b.txnIds body).map unflagged) 0
        (n.requests.map Request.transactionId) →
      ∃ n', n.onRequestedBlockFrom maps b c roster peers outcomes msg = some n' ∧
        ∀ id ∈ (b.txnIds body).map unflagged,
          (n'.requests.filter fun request => request.transactionId == id) =
            keptFor peers outcomes height ((b.txnIds body).map unflagged) 0 id) ∧
    (¬AllReturn peers outcomes ((b.txnIds body).map unflagged) 0
        (n.requests.map Request.transactionId) →
      n.onRequestedBlockFrom maps b c roster peers outcomes msg = none) := by
  have hheight := height_pos_of_read hread
  obtain ⟨hdefined, hcrash⟩ := @requestTransactionsFrom_eq peers outcomes height (b.txnIds body) 0
    (n.setTable table)
  have hhandler : n.onRequestedBlockFrom maps b c roster peers outcomes msg =
      (HistoryNode.requestTransactionsFrom peers outcomes height (b.txnIds body) 0
        (n.setTable table)).map fun n =>
          (n.blockArrived height).requestMissingBlocks b c roster height := by
    unfold HistoryNode.onRequestedBlockFrom
    rw [hread]
    dsimp only
    rw [hactive, hsave]
    rfl
  rw [hhandler]
  refine ⟨fun hall => ?_, fun hall => by rw [hcrash hall]; rfl⟩
  rw [hdefined hall, Option.map_some]
  obtain ⟨active, hmem, hof⟩ := List.any_eq_true.1 hactive
  -- the ids differ from that of the request for the block
  have hzero : ∀ id ∈ (b.txnIds body).map unflagged, id ≠ 0 := by
    rintro id hid rfl
    refine hall.not_mem hid (List.mem_map.2 ⟨active, hmem, hblocks active hmem ?_⟩)
    rw [beq_iff_eq.1 hof]
    omega
  obtain ⟨more, hrequests, hmore⟩ := @requestMissingBlocks_requests b c roster
    (((n.setTable table).setRequests ((n.setTable table).requests ++
      keptRequests peers outcomes height ((b.txnIds body).map unflagged) 0)).blockArrived height)
    height hheight.ne'
  refine ⟨_, rfl, fun id hid => ?_⟩
  have hold : (n.requests.eraseP fun request => request.blockHeight == height).filter
      (fun request => request.transactionId == id) = [] := by
    refine List.filter_eq_nil_iff.2 fun request hrequest heq => hall.not_mem hid ?_
    exact List.mem_map.2 ⟨request, List.mem_of_mem_eraseP hrequest, beq_iff_eq.1 heq⟩
  have hnew : more.filter (fun request => request.transactionId == id) = [] := by
    refine List.filter_eq_nil_iff.2 fun request hrequest heq => hzero id hid ?_
    rw [← beq_iff_eq.1 heq, hmore request hrequest]
  rw [hrequests, HistoryNode.blockArrived]
  simp only [setRequests_requests, setTable_requests]
  rw [@List.eraseP_append_left _ (fun request : Request => request.blockHeight == height) active
    hof _ _ hmem, List.filter_append, List.filter_append, hold, hnew, List.nil_append,
    List.append_nil]
  rfl

/-- The handler keeps that a request for a block has no transaction id. -/
theorem blocksHaveNoId_onRequestedBlockFrom {n n' : HistoryNode} {msg : M}
    (hblocks : n.BlocksHaveNoId)
    (h : n.onRequestedBlockFrom maps b c roster peers outcomes msg = some n') :
    n'.BlocksHaveNoId := by
  unfold HistoryNode.onRequestedBlockFrom at h
  cases hread : readRequestedBlock maps msg with
  | none =>
      rw [hread] at h
      exact Option.some.inj h ▸ hblocks
  | some parts =>
      obtain ⟨height, header, body, votes⟩ := parts
      have hheight := height_pos_of_read hread
      rw [hread] at h
      dsimp only at h
      split_ifs at h with hactive
      · exact Option.some.inj h ▸ hblocks
      · split at h
        · cases h
        · exact Option.some.inj h ▸ hblocks
        · rename_i table _
          obtain ⟨m, hm, rfl⟩ := Option.map_eq_some_iff.1 h
          obtain ⟨hdefined, hcrash⟩ := @requestTransactionsFrom_eq peers outcomes height
            (b.txnIds body) 0 (n.setTable table)
          have hall := not_imp_comm.1 hcrash (by rw [hm]; exact nofun)
          obtain rfl := Option.some.inj ((hdefined hall).symm.trans hm)
          obtain ⟨more, hrequests, hmore⟩ := @requestMissingBlocks_requests b c roster
            (((n.setTable table).setRequests ((n.setTable table).requests ++ keptRequests peers
              outcomes height ((b.txnIds body).map unflagged) 0)).blockArrived height)
            height hheight.ne'
          intro request hrequest hblock
          rw [hrequests, HistoryNode.blockArrived] at hrequest
          simp only [setRequests_requests, setTable_requests] at hrequest
          rcases List.mem_append.1 hrequest with hrequest | hrequest
          · rcases List.mem_append.1 (List.mem_of_mem_eraseP hrequest) with hrequest | hrequest
            · exact hblocks request hrequest hblock
            · exact absurd (transactionId_of_mem_kept hrequest).1 hblock
          · exact hmore request hrequest

/-- **When the transactions of an accepted block are all requested.**  The block is one that was
asked for, and a request for a block has no transaction id. -/
theorem pairsRequests_iff {n : HistoryNode} {msg : M} {height : ℤ} {header body votes : Bytes}
    {table : BlocksTable}
    (hread : readRequestedBlock maps msg = some (height, header, body, votes))
    (hactive : (n.requests.any fun request => request.blockHeight == height) = true)
    (hsave : n.table.aergoliteSaveBlock b c roster n.inTransaction header body votes =
      some (.ok table))
    (hblocks : n.BlocksHaveNoId) :
    PairsRequests b header ((b.txnIds body).map unflagged)
        (n.onRequestedBlockFrom maps b c roster peers outcomes msg) ↔
      (b.txnIds body = [] ∨ (b.header? header).map Header.height = some height) ∧
        CallsPair peers outcomes (n.requests.map Request.transactionId)
          ((b.txnIds body).map unflagged) := by
  obtain ⟨-, read, hverify, -⟩ := aergoliteSaveBlock_eq_pure.1 hsave
  have hheader := (verifySaved_eq_pure.1 hverify).1.1
  have hpair := @lastReach_iff peers outcomes (n.requests.map Request.transactionId)
    ((b.txnIds body).map unflagged) 0
  simp only [Nat.zero_add] at hpair
  obtain ⟨hdefined, hcrash⟩ := @onRequestedBlockFrom_cases M maps b c roster peers outcomes n msg
    height header body votes table hread hactive hsave hblocks
  unfold PairsRequests CallsPair
  rw [← hpair, ← @allReturn_one_iff peers outcomes height, hheader, Option.map_some]
  constructor
  · rintro ⟨m, other, hm, hother, hone⟩
    obtain rfl := Option.some.inj hother
    have hall : AllReturn peers outcomes ((b.txnIds body).map unflagged) 0
        (n.requests.map Request.transactionId) := by
      by_contra hall
      rw [hcrash hall] at hm
      cases hm
    obtain ⟨m', hm', hkept⟩ := hdefined hall
    obtain rfl := Option.some.inj (hm.symm.trans hm')
    refine ⟨?_, hall, fun id hid => ?_⟩
    · cases hids : b.txnIds body with
      | nil => exact .inl rfl
      | cons tid tids =>
          have hmem : unflagged tid ∈ (b.txnIds body).map unflagged := by
            rw [hids]
            exact List.mem_cons_self
          obtain ⟨position, -, hrequest⟩ := hone _ hmem
          rw [hkept _ hmem] at hrequest
          have hrequestMem : (⟨0, unflagged tid, read.height, position + 1⟩ : Request) ∈
              keptFor peers outcomes height ((b.txnIds body).map unflagged) 0 (unflagged tid) := by
            rw [hrequest]
            exact List.mem_cons_self
          exact .inr (congrArg some
            (transactionId_of_mem_kept (List.mem_filter.1 hrequestMem).1).2.1)
    · obtain ⟨position, -, hrequest⟩ := hone id hid
      rw [← hkept id hid, hrequest, List.length_singleton]
  · rintro ⟨hheight, hall, hone⟩
    obtain ⟨m, hm, hkept⟩ := hdefined hall
    refine ⟨m, read, hm, rfl, fun id hid => ?_⟩
    rw [hkept id hid]
    rcases hheight with hnil | hheight
    · rw [hnil] at hid
      exact absurd hid List.not_mem_nil
    · rw [Option.some.inj hheight]
      exact keptFor_eq_singleton.1 (hone id hid)

end

/-! ## Two equal ids -/

/-- A reader of bodies whose bytes are the ids of their transactions. -/
def byteBodyReader : BodyReader :=
  { plainBodyReader with txnIds := fun body => body.map fun byte => BitVec.ofNat 64 byte.toNat }

/-- The answer to a request for the first block, with a body. -/
def bodyMessage (body : Bytes) : List (ℕ × BinnItem) :=
  [(pluginHeight, .int64 1), (pluginState, .blob (fullBlock 1).header), (pluginBody, .blob body),
    (pluginVotes, .list (fullBlock 1).votes)]

/-- The only peer. -/
def onePeer : List Peer := [⟨2, [], true⟩]

/-- Every send to the only peer succeeds. -/
def sendsAlways : ℕ → RequestOutcome := fun _ => ⟨true, fun _ => ⟨0, true⟩⟩

/-- The first block is saved, if it is verified with the body. -/
theorem firstBlock_saved {body : Bytes}
    (hverify : ∃ read, byteBodyReader.header? (fullBlock 1).header = some read ∧
      byteBodyReader.verifySaved plainCrypto oneNodeRoster (fullBlock 1).header body
        (fullBlock 1).votes = pure read) :
    askingNode.table.aergoliteSaveBlock byteBodyReader plainCrypto oneNodeRoster
      askingNode.inTransaction (fullBlock 1).header body (fullBlock 1).votes =
        pure ⟨[fullBlock 2, { fullBlock 1 with body := some body }], by
          change [(fullBlock 2).height, (fullBlock 1).height].Nodup
          decide⟩ := by
  obtain ⟨read, hread, hverify⟩ := hverify
  have hheight : ∀ read ∈ plainReader.header? (fullBlock 1).header, read.height = 1 := by
    decide +kernel
  refine aergoliteSaveBlock_eq_pure.2 ⟨rfl, read, hverify, ?_, ?_⟩
  · rw [hheight read hread]
    decide
  · rw [hheight read hread]
    rfl

/-- **The second of two equal ids has no request**: the block is accepted, its only peer is sent
every request, and the height is written to a null pointer. -/
theorem repeatedId_not_paired :
    (∃ table, askingNode.table.aergoliteSaveBlock byteBodyReader plainCrypto oneNodeRoster
      askingNode.inTransaction (fullBlock 1).header [5, 5] (fullBlock 1).votes = pure table) ∧
    askingNode.onRequestedBlockFrom plainMaps byteBodyReader plainCrypto oneNodeRoster onePeer
      sendsAlways (bodyMessage [5, 5]) = none ∧
    ¬PairsRequests byteBodyReader (fullBlock 1).header [5, 5]
      (askingNode.onRequestedBlockFrom plainMaps byteBodyReader plainCrypto oneNodeRoster onePeer
        sendsAlways (bodyMessage [5, 5])) := by
  have hsave := @firstBlock_saved [5, 5]
    (exists_verifySaved (by decide +kernel) (by decide +kernel))
  have hnone : askingNode.onRequestedBlockFrom plainMaps byteBodyReader plainCrypto oneNodeRoster
      onePeer sendsAlways (bodyMessage [5, 5]) = none := by
    have hread : readRequestedBlock plainMaps (bodyMessage [5, 5]) =
        some (1, (fullBlock 1).header, [5, 5], (fullBlock 1).votes) := rfl
    refine (onRequestedBlockFrom_cases hread rfl hsave (by decide)).2 ?_
    rintro ⟨-, -, hrunning, -⟩
    rw [if_pos (by decide)] at hrunning
    exact hrunning (by decide)
  refine ⟨⟨_, hsave⟩, hnone, ?_⟩
  rw [hnone]
  rintro ⟨_, _, h, -⟩
  cases h

/-- Each of two ids that differ is requested with its call. -/
theorem callsPair_twoIds : CallsPair onePeer sendsAlways [0] [5, 6] := by
  have hreach : ∀ k, ReachesPeer onePeer (sendsAlways k) := fun _ => ⟨0, by decide, rfl⟩
  intro i id hid
  cases i with
  | zero =>
      obtain rfl := Option.some.inj hid
      exact ⟨by decide, rfl, iff_of_true (hreach 0) (by decide)⟩
  | succ i =>
      cases i with
      | zero =>
          obtain rfl := Option.some.inj hid
          exact ⟨by decide, rfl, iff_of_true (hreach 1) (by decide)⟩
      | succ i => simp at hid

/-- The hypotheses hold of the first block with two transactions, which are both requested. -/
theorem pairsRequests_iff_twoIds :
    PairsRequests byteBodyReader (fullBlock 1).header [5, 6]
      (askingNode.onRequestedBlockFrom plainMaps byteBodyReader plainCrypto oneNodeRoster onePeer
        sendsAlways (bodyMessage [5, 6])) := by
  have hsave := @firstBlock_saved [5, 6]
    (exists_verifySaved (by decide +kernel) (by decide +kernel))
  have hheight : (byteBodyReader.header? (fullBlock 1).header).map Header.height = some 1 := by
    decide +kernel
  have hread : readRequestedBlock plainMaps (bodyMessage [5, 6]) =
      some (1, (fullBlock 1).header, [5, 6], (fullBlock 1).votes) := rfl
  exact (pairsRequests_iff hread rfl hsave (by decide)).2 ⟨.inr hheight, callsPair_twoIds⟩

end NoLeader
end AergoLite
