/-
# The votes of a block

`verify_block_votes` of `core/sqlite3.c`, the check a node makes on the votes
stored with a block when it loads its database, verifies its history, saves a
downloaded block or applies a state update.

The function counts the items of the list whose signature on the block id
verifies and, unless a state update is being applied, whose node can vote at the
height; the list is not searched for repetitions.  So for a list in which no
node has two votes that count, the number compared with the majority is the
number of nodes that signed (`verifyBlockVotes_eq_ok`).
-/

import AergoLite.Core.Authorizations

namespace AergoLite
namespace Core

/-- An item `[node_id, sig, round]` of a votes list.  A part that is missing or
of another type is read as `0` or as no bytes. -/
structure VoteItem where
  nodeId : ℤ
  sig : Bytes
  round : ℕ
  deriving DecidableEq, Repr

section
variable (c : Crypto) (auths : List NodeAuth) (nodes : List AllowedNode) (height : ℤ)
  (blockId : Bytes) (votes : List VoteItem) (inStateUpdate : Bool)

/-- The vote is a signature of its node on the block id. -/
def VoteItem.signed (item : VoteItem) : Bool :=
  decide (aergoliteVerifyRawById c auths nodes blockId item.nodeId item.sig = .ok)

/-- `verify_block_votes` counts the vote. -/
def VoteItem.counted (item : VoteItem) : Bool :=
  (inStateUpdate || canVoteOnBlock auths item.nodeId height) &&
    item.signed c auths nodes blockId

/-- `verify_block_votes`. -/
def verifyBlockVotes : Rc :=
  let numVotes := votes.countP fun item =>
    item.counted c auths nodes height blockId inStateUpdate
  let numActiveNodes := getNumActiveNodes auths height
  if numVotes < majority numActiveNodes then .invalid else .ok

/-- The nodes with a valid signature on the block id in the list. -/
def signers : Finset ℤ :=
  ((votes.filter fun item => item.signed c auths nodes blockId).map VoteItem.nodeId).toFinset

/-- The nodes whose votes `verify_block_votes` counts. -/
def countedSigners : Finset ℤ :=
  if inStateUpdate then signers c auths nodes blockId votes
  else signers c auths nodes blockId votes ∩ eligible auths height

/-- The votes of the list that are counted. -/
def countedVotes : List VoteItem :=
  votes.filter fun item => item.counted c auths nodes height blockId inStateUpdate

/-- No node has two votes that are counted. -/
def CountedOnce : Prop :=
  ((countedVotes c auths nodes height blockId votes inStateUpdate).map VoteItem.nodeId).Nodup

instance : Decidable (CountedOnce c auths nodes height blockId votes inStateUpdate) :=
  inferInstanceAs (Decidable (List.Nodup _))

/-- More than half of the nodes that can vote at the height have a valid
signature on the block id in the list. -/
def MajoritySigned : Prop :=
  (eligible auths height).card <
    2 * (signers c auths nodes blockId votes ∩ eligible auths height).card

instance : Decidable (MajoritySigned c auths nodes height blockId votes) :=
  inferInstanceAs (Decidable (_ < _))

end

variable {c : Crypto} {auths : List NodeAuth} {nodes : List AllowedNode} {height : ℤ}
  {blockId : Bytes} {votes : List VoteItem} {inStateUpdate : Bool}

/-- The counted signers are the nodes of the counted votes. -/
theorem countedSigners_eq : countedSigners c auths nodes height blockId votes inStateUpdate =
    ((countedVotes c auths nodes height blockId votes inStateUpdate).map
      VoteItem.nodeId).toFinset := by
  ext nodeId
  cases inStateUpdate
  · simp only [countedSigners, signers, countedVotes, VoteItem.counted, Finset.mem_inter, List.mem_toFinset,
      List.mem_map, List.mem_filter, mem_eligible, Bool.false_or, Bool.and_eq_true,
      Bool.false_eq_true, ite_false]
    constructor
    · rintro ⟨⟨item, ⟨hmem, hsigned⟩, rfl⟩, hcan⟩
      exact ⟨item, ⟨hmem, hcan, hsigned⟩, rfl⟩
    · rintro ⟨item, ⟨hmem, hcan, hsigned⟩, rfl⟩
      exact ⟨⟨item, ⟨hmem, hsigned⟩, rfl⟩, hcan⟩
  · simp [countedSigners, signers, countedVotes, VoteItem.counted]

/-- **What an accepted list proves.**  When no node has two votes that count, the
list is accepted if and only if the nodes behind them reach the majority. -/
theorem verifyBlockVotes_eq_ok
    (honce : CountedOnce c auths nodes height blockId votes inStateUpdate) :
    verifyBlockVotes c auths nodes height blockId votes inStateUpdate = .ok ↔
      majority (getNumActiveNodes auths height) ≤
        (countedSigners c auths nodes height blockId votes inStateUpdate).card := by
  rw [countedSigners_eq, List.toFinset_card_of_nodup honce, List.length_map, countedVotes,
    ← List.countP_eq_length_filter]
  simp only [verifyBlockVotes]
  split_ifs with h
  · simpa using h
  · simpa using h

/-- **An accepted list is signed by more than half of the nodes that can vote.**
At the first height, where one active node is counted, it is signed by one.  The
signers are nodes that can vote unless a state update is being applied. -/
theorem verifyBlockVotes_majority
    (honce : CountedOnce c auths nodes height blockId votes inStateUpdate)
    (h : verifyBlockVotes c auths nodes height blockId votes inStateUpdate = .ok) :
    (height ≠ 1 → (eligible auths height).card <
        2 * (countedSigners c auths nodes height blockId votes inStateUpdate).card) ∧
      (height = 1 → (countedSigners c auths nodes height blockId votes inStateUpdate).Nonempty) ∧
      (inStateUpdate = false →
        countedSigners c auths nodes height blockId votes inStateUpdate ⊆
          eligible auths height) := by
  have hcard := (verifyBlockVotes_eq_ok honce).1 h
  unfold majority at hcard
  refine ⟨fun hheight => ?_, fun _ => Finset.card_pos.1 (by omega), ?_⟩
  · have heligible : (eligible auths height).card ≤ _ := card_eligible_le hheight
    omega
  · rintro rfl
    exact Finset.inter_subset_right

/-- Three nodes, authorized by the block of height `since`. -/
def threeAuths (since : ℤ) : List NodeAuth :=
  [1, 2, 3].map fun n => ⟨List.replicate 33 n, n.toNat, false, since, 0, 0⟩

/-- The vote of one of them on the block with id `7 … 7`. -/
def voteOf (n : UInt8) : VoteItem :=
  ⟨n.toNat, plainSign (List.replicate 33 n) (List.replicate 32 7), 0⟩

/-- The hypotheses hold of a block that two of three nodes sign. -/
theorem verifyBlockVotes_majority_two_of_three :
    (eligible (threeAuths 1) 2).card <
      2 * (countedSigners plainCrypto (threeAuths 1) [] 2 (List.replicate 32 7)
        [voteOf 1, voteOf 2] false).card :=
  (verifyBlockVotes_majority (by decide) (by decide)).1 (by decide)

/-- **An accepted list need not be signed by a majority.**  At the first height
one vote of three nodes is enough; a list of a state update is accepted for a
node that cannot vote; and a vote that is repeated is counted again. -/
theorem verifyBlockVotes_not_majoritySigned :
    let accepts auths height votes inStateUpdate :=
      verifyBlockVotes plainCrypto auths [] height (List.replicate 32 7) votes inStateUpdate = .ok
    let signed auths height votes :=
      MajoritySigned plainCrypto auths [] height (List.replicate 32 7) votes
    (accepts (threeAuths 0) 1 [voteOf 1] false ∧ ¬ signed (threeAuths 0) 1 [voteOf 1]) ∧
    (accepts (threeAuths 2) 2 [voteOf 1] true ∧ ¬ signed (threeAuths 2) 2 [voteOf 1]) ∧
    (accepts (threeAuths 1) 2 [voteOf 1, voteOf 1] false ∧
      ¬ signed (threeAuths 1) 2 [voteOf 1, voteOf 1]) := by
  decide

end Core
end AergoLite
