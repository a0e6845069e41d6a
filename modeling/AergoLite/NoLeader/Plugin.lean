/-
# The state of the consensus plugin

`struct plugin` and `struct block` of `plugins/no-leader/no-leader.h`, and the
functions of `consensus.c` that keep the votes and the list of new blocks.

A pointer to a block is modelled by the block's height and id, under which
`on_new_block` and `on_block_vote` look it up.  Three fields are not in the source:
`sent` records the votes a node signs and broadcasts, `committed` the blocks it
commits, each with the authorization list it was committed under, and `refused` the
open blocks that the core failed to commit.
-/

import AergoLite.Core.Blocks
import AergoLite.NoLeader.Mempool

namespace AergoLite
namespace NoLeader

open AergoLite.Core

/-- There are two rounds. -/
scoped instance neZeroRounds : NeZero 2 := inferInstance

/-- `struct block_vote`, in the list of the votes on a block. -/
structure BlockVote where
  nodeId : ℤ
  sig : Bytes
  deriving DecidableEq, Repr

/-- `struct block_vote`, in the list of the votes whose block has not arrived. -/
structure StoredVote where
  nodeId : ℤ
  round : Fin 2
  height : ℤ
  blockId : Bytes
  sig : Bytes
  deriving DecidableEq, Repr

/-- The message `PLUGIN_BLOCK_VOTE`. -/
structure VoteMessage where
  height : ℤ
  nodeId : ℤ
  round : ℤ
  id : Bytes
  sig : Bytes
  deriving DecidableEq, Repr

/-- `struct block`. -/
structure Block where
  height : ℤ
  id : Bytes
  header : Header
  body : Body
  votes : List VoteItem
  vrfOutput : Bytes
  waitTime : ℕ
  tempVotes : Fin 2 → List BlockVote
  numVotes : Fin 2 → ℕ
  downloadingTxns : Bool

/-- What stands for a pointer to the block. -/
def Block.key (block : Block) : ℤ × Bytes := (block.height, block.id)

/-- A vote this node has signed. -/
structure Vote where
  height : ℤ
  round : Fin 2
  id : Bytes
  deriving DecidableEq, Repr

/-- A block this node has committed, and the authorization list it had then. -/
structure Commit where
  block : Block
  authorizations : List NodeAuth

/-- A connected node. -/
structure Peer where
  id : ℤ
  pubkey : Bytes
  isAuthorized : Bool
  deriving DecidableEq, Repr

/-- The values of `sync_down_state`. -/
inductive DbState
  | unknown | synchronizing | inSync | localChanges | outdated | error
  deriving DecidableEq, Repr

/-- `struct plugin`.  A timer is active or not. -/
structure Plugin (D : Type) where
  nodeId : ℤ
  core : Aergolite D
  peers : List Peer
  totalAuthorizedNodes : ℕ
  activeAuthorizedNodes : ℕ
  requests : List (BitVec 64)
  mempool : List Transaction
  currentBlock : Option Block
  newBlocks : List Block
  openBlock : Option (ℤ × Bytes)
  blockVotes : List StoredVote
  lastCreatedBlockHeight : ℤ
  lastVoteHeight : ℤ
  lastVoteRound : Fin 2
  blockInterval : ℕ
  blockVrfOutput : Bytes
  newBlockTimer : Bool
  blockWaitTimer : Bool
  isUpdatingState : Bool
  syncDownState : DbState
  sent : List Vote
  committed : List Commit
  refused : List (ℤ × Bytes)

/-- What the plugin takes from libraries besides the core: the verifiable random
function of the curve library, and the computation with `double` of
`calculate_wait_interval`. -/
structure Net (D : Type) extends Env D where
  /-- The output of a proof, if `secp256k1_vrf_verify` accepts it for a key and a
  height. -/
  vrfVerify : Bytes → ℤ → Bytes → Option Bytes
  /-- The output of `secp256k1_vrf_prove` for the own key and a height. -/
  vrfProve : Bytes → ℤ → Option Bytes
  /-- `calculate_wait_interval`, of an output, the number of nodes and the block
  interval. -/
  calculateWaitInterval : Bytes → ℕ → ℕ → ℕ

variable {D : Type}

/-- `current_block ? current_block->height : 0`. -/
def Plugin.currentHeight (p : Plugin D) : ℤ :=
  match p.currentBlock with
  | none => 0
  | some block => block.height

/-- `can_vote_on_block` of a node, by the list this node has. -/
def Plugin.canVoteOnBlock (p : Plugin D) (nodeId height : ℤ) : Bool :=
  Core.canVoteOnBlock p.core.authorizations nodeId height

/-- The first block of a list that is found under a key. -/
def findBlock (key : ℤ × Bytes) (blocks : List Block) : Option Block :=
  blocks.find? fun block => block.key == key

/-- The list with that block changed. -/
def updateBlock (key : ℤ × Bytes) (set : Block → Block) : List Block → List Block
  | [] => []
  | block :: blocks =>
    if block.key = key then set block :: blocks else block :: updateBlock key set blocks

/-- `llist_remove` of that block. -/
def removeBlock (key : ℤ × Bytes) (blocks : List Block) : List Block :=
  blocks.eraseP fun block => block.key == key

/-- `add_block_vote` finds a vote of the node in the round. -/
def Block.hasVote (block : Block) (round : Fin 2) (nodeId : ℤ) : Bool :=
  (block.tempVotes round).any fun vote => vote.nodeId == nodeId

/-- `add_block_vote`, and the increment of `num_votes` that follows where it
succeeds. -/
def addBlockVote (round : Fin 2) (nodeId : ℤ) (sig : Bytes) (block : Block) : Block :=
  if block.hasVote round nodeId then block
  else { block with
    tempVotes := Function.update block.tempVotes round (block.tempVotes round ++ [⟨nodeId, sig⟩])
    numVotes := Function.update block.numVotes round (block.numVotes round + 1) }

/-- `store_block_vote`. -/
def storeBlockVote (vote : StoredVote) (votes : List StoredVote) : List StoredVote :=
  if votes.any fun other => other.height == vote.height && other.blockId == vote.blockId &&
      other.nodeId == vote.nodeId && other.round == vote.round then votes
  else votes ++ [vote]

/-- `transfer_block_votes`. -/
def transferBlockVotes (votes : List StoredVote) (block : Block) : Block :=
  votes.foldl (fun block vote =>
    if vote.height = block.height ∧ vote.blockId = block.id then
      addBlockVote vote.round vote.nodeId vote.sig block
    else block) block

/-- `convert_block_votes`: the votes of a round are added to the serialized list,
with the round if it is the second. -/
def convertBlockVotes (round : Fin 2) (block : Block) : Block :=
  { block with
    votes := block.votes ++ (block.tempVotes round).map fun vote =>
      ⟨vote.nodeId, vote.sig, round.val⟩ }

/-- `count_authorized_nodes`. -/
def countAuthorizedNodes (p : Plugin D) : Plugin D :=
  { p with
    totalAuthorizedNodes := aergoliteNumAuthorizedNodes p.core.authorizations false
    activeAuthorizedNodes := aergoliteNumAuthorizedNodes p.core.authorizations true }

/-- `request_transaction`: the request lasts while there is a node to ask. -/
def requestTransaction (tid : BitVec 64) (p : Plugin D) : Plugin D :=
  if tid ∈ p.requests ∨ (p.peers.any fun peer => peer.isAuthorized) = false then p
  else { p with requests := p.requests ++ [tid] }

/-- `requested_transaction_arrived`. -/
def requestedTransactionArrived (tid : BitVec 64) (p : Plugin D) : Bool × Plugin D :=
  (p.requests.contains tid, { p with requests := p.requests.erase tid })

/-- `request_state_update`, as far as this plugin's state goes. -/
def requestStateUpdate (p : Plugin D) : Plugin D :=
  if p.syncDownState = .synchronizing then p
  else if p.peers = [] then { p with syncDownState := .unknown }
  else { p with syncDownState := .synchronizing }

/-- What `verify_block` and `commit_block` note of a failure: the node is outdated,
unless it is to try again or an update is under way. -/
def markOutdated (rc : Rc) (p : Plugin D) : Plugin D :=
  if rc ≠ .busy ∧ p.syncDownState ≠ .synchronizing then { p with syncDownState := .outdated }
  else p

/-- `count_mempool_unused_txns`. -/
def countMempoolUnusedTxns (p : Plugin D) : ℕ :=
  p.mempool.countP fun txn => txn.blockHeight == 0

/-- `has_nodes_for_consensus`. -/
def hasNodesForConsensus (p : Plugin D) (blockHeight : ℤ) : Bool :=
  p.canVoteOnBlock p.nodeId blockHeight &&
    decide (majority p.activeAuthorizedNodes ≤
      1 + p.peers.countP fun peer => p.canVoteOnBlock peer.id blockHeight)

/-- `can_create_block`. -/
def canCreateBlock (p : Plugin D) : Bool × Plugin D :=
  let p := countAuthorizedNodes p
  (decide (1 ≤ p.totalAuthorizedNodes) && hasNodesForConsensus p (p.currentHeight + 1), p)

/-- `start_new_block_timer`.  `calculate_node_wait_interval` saves the output for
the block. -/
def startNewBlockTimer (net : Net D) (p : Plugin D) : Plugin D :=
  if p.syncDownState ≠ .inSync then p
  else if p.lastCreatedBlockHeight = p.currentHeight + 1 then p
  else if countMempoolUnusedTxns p = 0 then p
  else
    let (canCreate, p) := canCreateBlock p
    if !canCreate || p.newBlockTimer then p
    else { p with
      newBlockTimer := true
      blockVrfOutput :=
        (net.vrfProve p.core.pubkey (p.currentHeight + 1)).getD p.blockVrfOutput }

end NoLeader
end AergoLite
