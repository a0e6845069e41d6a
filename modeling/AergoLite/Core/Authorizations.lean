/-
# The authorization list

Every node keeps the list `authorizations` of the nodes it knows to be
authorized, and the table `aergolite_nodes` of the ones the chain has recorded
(`core/sqlite3.c`).  An entry of the list whose authorization is not yet in a
block has `since_block = 0`.

Who may vote on a block (`can_vote_on_block`), how many nodes that is
(`get_num_active_nodes`, `aergolite_num_authorized_nodes`) and whose key a
signature is checked with (`aergolite_verify_raw` called with a node id) are all
read from this list.  The main fact is `card_eligible_le`: no more nodes can
vote at a height than `get_num_active_nodes` counts, the first height apart.
-/

import AergoLite.Core.Basic
import Mathlib.Data.Finset.Card
import Mathlib.Data.Int.Order.Basic

namespace AergoLite
namespace Core

/-- `struct nodeauth`; its `pklen` is the length of `pk`. -/
structure NodeAuth where
  pk : Bytes
  nodeId : ℤ
  isFullNode : Bool
  sinceBlock : ℤ
  lastNonce : ℤ
  savedNonce : ℤ
  deriving DecidableEq, Repr

/-- A row of the table `aergolite_nodes`. -/
structure AllowedNode where
  nodeId : ℤ
  pubkey : Bytes
  firstBlock : ℤ
  type : Text
  lastNonce : ℤ
  deriving DecidableEq, Repr

/-- `aergolite_get_authorization`: the first entry for the node, if any. -/
def aergoliteGetAuthorization (auths : List NodeAuth) (nodeId : ℤ) : Option NodeAuth :=
  auths.find? fun auth => auth.nodeId == nodeId

/-- `aergolite_get_allowed_node`: the row of the node, if any. -/
def aergoliteGetAllowedNode (nodes : List AllowedNode) (nodeId : ℤ) : Option AllowedNode :=
  nodes.find? fun row => row.nodeId == nodeId

/-- The test `can_vote_on_block` makes on an entry: its authorization is in a
block before this one. -/
def NodeAuth.activeAt (auth : NodeAuth) (height : ℤ) : Bool :=
  decide (auth.sinceBlock > 0) && decide (height > auth.sinceBlock)

/-- `can_vote_on_block`. -/
def canVoteOnBlock (auths : List NodeAuth) (nodeId height : ℤ) : Bool :=
  if nodeId = 0 then false
  else match aergoliteGetAuthorization auths nodeId with
    | none => false
    | some auth => if height = 1 then true else auth.activeAt height

/-- `get_num_active_nodes`. -/
def getNumActiveNodes (auths : List NodeAuth) (height : ℤ) : ℕ :=
  if height = 1 then 1 else auths.countP fun auth => auth.activeAt height

/-- `aergolite_num_authorized_nodes`: the entries of the list, or those of them
that are on the blockchain. -/
def aergoliteNumAuthorizedNodes (auths : List NodeAuth) (onBlockchain : Bool) : ℕ :=
  auths.countP fun auth => !onBlockchain || decide (auth.sinceBlock > 0)

/-- The key `aergolite_verify_raw` looks up for a node id: that of the list, or
else that of the table. -/
def nodePubkey (auths : List NodeAuth) (nodes : List AllowedNode) (nodeId : ℤ) : Option Bytes :=
  match aergoliteGetAuthorization auths nodeId with
  | some auth => some auth.pk
  | none => (aergoliteGetAllowedNode nodes nodeId).map AllowedNode.pubkey

/-- `aergolite_verify_raw`, called with a node id in place of a public key. -/
def aergoliteVerifyRawById (c : Crypto) (auths : List NodeAuth) (nodes : List AllowedNode)
    (hash : Bytes) (nodeId : ℤ) (signature : Bytes) : Rc :=
  match nodePubkey auths nodes nodeId with
  | none => .invalid
  | some pubkey => aergoliteVerifyRaw c hash pubkey signature

/-- The entry found is one of the list, for that node. -/
theorem aergoliteGetAuthorization_some {auths : List NodeAuth} {nodeId : ℤ} {auth : NodeAuth}
    (h : aergoliteGetAuthorization auths nodeId = some auth) :
    auth ∈ auths ∧ auth.nodeId = nodeId :=
  ⟨List.mem_of_find?_eq_some h, by simpa using List.find?_some h⟩

/-- A node that can vote is in the list, and past the first height the entry is
active. -/
theorem exists_auth_of_canVoteOnBlock {auths : List NodeAuth} {nodeId height : ℤ}
    (h : canVoteOnBlock auths nodeId height = true) :
    ∃ auth ∈ auths, auth.nodeId = nodeId ∧ (height ≠ 1 → auth.activeAt height = true) := by
  unfold canVoteOnBlock at h
  cases hauth : aergoliteGetAuthorization auths nodeId with
  | none => simp [hauth] at h
  | some auth =>
      obtain ⟨hmem, hid⟩ := aergoliteGetAuthorization_some hauth
      rw [hauth] at h
      split_ifs at h with hzero hone
      · exact ⟨auth, hmem, hid, fun hne => absurd hone hne⟩
      · exact ⟨auth, hmem, hid, fun _ => h⟩

/-- The nodes of the list that can vote on the block at a height. -/
def eligible (auths : List NodeAuth) (height : ℤ) : Finset ℤ :=
  (auths.map NodeAuth.nodeId).toFinset.filter fun nodeId => canVoteOnBlock auths nodeId height

@[simp] theorem mem_eligible {auths : List NodeAuth} {height nodeId : ℤ} :
    nodeId ∈ eligible auths height ↔ canVoteOnBlock auths nodeId height = true := by
  refine ⟨fun h => (Finset.mem_filter.1 h).2, fun h => Finset.mem_filter.2 ⟨?_, h⟩⟩
  obtain ⟨auth, hmem, rfl, -⟩ := exists_auth_of_canVoteOnBlock h
  exact List.mem_toFinset.2 (List.mem_map_of_mem hmem)

/-- **No more nodes can vote than are counted.**  At the first height every node
of the list can vote and one is counted, so that height is left out. -/
theorem card_eligible_le {auths : List NodeAuth} {height : ℤ} (hheight : height ≠ 1) :
    (eligible auths height).card ≤ getNumActiveNodes auths height := by
  have hsub : eligible auths height ⊆
      ((auths.filter fun auth => auth.activeAt height).map NodeAuth.nodeId).toFinset := by
    intro nodeId h
    obtain ⟨auth, hmem, rfl, hactive⟩ := exists_auth_of_canVoteOnBlock (mem_eligible.1 h)
    exact List.mem_toFinset.2
      (List.mem_map_of_mem (List.mem_filter.2 ⟨hmem, hactive hheight⟩))
  calc (eligible auths height).card
      ≤ ((auths.filter fun auth => auth.activeAt height).map NodeAuth.nodeId).toFinset.card :=
        Finset.card_le_card hsub
    _ ≤ ((auths.filter fun auth => auth.activeAt height).map NodeAuth.nodeId).length :=
        List.toFinset_card_le _
    _ = getNumActiveNodes auths height := by
        simp [getNumActiveNodes, hheight, List.countP_eq_length_filter]

/-- No more nodes can vote than the list has entries, or entries on the blockchain past
the first height. -/
theorem card_eligible_le_numAuthorized {auths : List NodeAuth} {height : ℤ}
    {onBlockchain : Bool} (hheight : onBlockchain = true → height ≠ 1) :
    (eligible auths height).card ≤ aergoliteNumAuthorizedNodes auths onBlockchain := by
  have hsub : eligible auths height ⊆ ((auths.filter fun auth =>
      !onBlockchain || decide (auth.sinceBlock > 0)).map NodeAuth.nodeId).toFinset := by
    intro nodeId h
    obtain ⟨auth, hmem, rfl, hactive⟩ := exists_auth_of_canVoteOnBlock (mem_eligible.1 h)
    refine List.mem_toFinset.2 (List.mem_map_of_mem (List.mem_filter.2 ⟨hmem, ?_⟩))
    cases onBlockchain with
    | false => rfl
    | true =>
        have hat := hactive (hheight rfl)
        simp only [NodeAuth.activeAt, Bool.and_eq_true] at hat
        exact hat.1
  refine (Finset.card_le_card hsub).trans ((List.toFinset_card_le _).trans ?_)
  simp [aergoliteNumAuthorizedNodes, List.countP_eq_length_filter]

end Core
end AergoLite
